import Rnet.Ping.Gf
import Mathlib.Algebra.Field.Basic

/-!
# `gf_add`, `gf_mul` and `gf_inv` make the bytes a field

`gf_mul` is linear over XOR in both arguments, since doubling a byte (`xtime`) is.
So commutativity and associativity only have to be checked on the eight bytes with
one bit.

> `Gf256` is a field whose operations are those of the code.
-/

namespace Rnet.Ping

/-- The bytes with one bit. -/
def bits : List UInt8 := [1, 2, 4, 8, 16, 32, 64, 128]

/-! ## Bytes as sums of bits -/

/-- The numbers of `bits`. -/
def natBits : List Nat := bits.map UInt8.toNat

/-- Each byte is the sum of its bits, and the laws of `gf_mul` hold of the bits. -/
theorem nat_checks :
    ((List.range 256).all fun n =>
      (natBits.foldl (fun acc b => acc ^^^ (n &&& b)) 0).beq n &&
        natBits.all fun b => (n &&& b).beq 0 || (n &&& b).beq b) = true ∧
    natBits.all (fun a => (gfMulNat 8 0 1 a).beq a && natBits.all fun b =>
      (gfMulNat 8 0 a b).beq (gfMulNat 8 0 b a) && natBits.all fun c =>
        (gfMulNat 8 0 (gfMulNat 8 0 a b) c).beq (gfMulNat 8 0 a (gfMulNat 8 0 b c))) = true := by
  decide +kernel

theorem byte_bits (x : UInt8) : bits.foldl (fun acc b => acc ^^^ (x &&& b)) 0 = x ∧
    ∀ b ∈ bits, x &&& b = 0 ∨ x &&& b = b := by
  have h := List.all_eq_true.mp nat_checks.1 x.toNat (List.mem_range.mpr x.toNat_lt)
  rw [Bool.and_eq_true] at h
  constructor
  · apply UInt8.toNat_inj.mp
    have hfold : ∀ (bs : List UInt8) (acc : UInt8),
        (bs.foldl (fun acc b => acc ^^^ (x &&& b)) acc).toNat
          = (bs.map UInt8.toNat).foldl (fun acc b => acc ^^^ (x.toNat &&& b)) acc.toNat := by
      intro bs
      induction bs with
      | nil => intro acc; rfl
      | cons b bs ih =>
        intro acc
        rw [List.foldl_cons, ih, UInt8.toNat_xor, UInt8.toNat_and]
        rfl
    rw [hfold]
    exact Nat.eq_of_beq_eq_true h.1
  · intro b hb
    have hbit := List.all_eq_true.mp h.2 b.toNat (List.mem_map_of_mem hb)
    rw [← UInt8.toNat_and, Bool.or_eq_true] at hbit
    rcases hbit with h0 | h1
    · exact Or.inl (UInt8.toNat_inj.mp (Nat.eq_of_beq_eq_true h0))
    · exact Or.inr (UInt8.toNat_inj.mp (Nat.eq_of_beq_eq_true h1))

/-- A property of 0 and the bits that XOR keeps holds for every byte. -/
theorem xor_induction {P : UInt8 → Prop} (hzero : P 0) (hbits : ∀ b ∈ bits, P b)
    (hxor : ∀ a b, P a → P b → P (a ^^^ b)) (x : UInt8) : P x := by
  obtain ⟨hfold, hall⟩ := byte_bits x
  have hfoldl : ∀ (bs : List UInt8) (acc : UInt8), (∀ b ∈ bs, b ∈ bits) → P acc →
      P (bs.foldl (fun acc b => acc ^^^ (x &&& b)) acc) := by
    intro bs
    induction bs with
    | nil => intro acc _ hacc; exact hacc
    | cons b bs ih =>
      intro acc hbs hacc
      have hb := hbs b (List.mem_cons_self ..)
      refine ih _ (fun c hc => hbs c (List.mem_cons_of_mem _ hc)) (hxor _ _ hacc ?_)
      rcases hall b hb with h | h
      · rw [h]
        exact hzero
      · rw [h]
        exact hbits b hb
  rw [← hfold]
  exact hfoldl bits 0 (fun _ h => h) hzero

theorem and_xor (a b c : UInt8) : (a ^^^ b) &&& c = (a &&& c) ^^^ (b &&& c) := by
  apply UInt8.toBitVec_inj.mp
  ext i hi
  simp only [UInt8.toBitVec_and, UInt8.toBitVec_xor, BitVec.getElem_and, BitVec.getElem_xor]
  exact Bool.and_xor_distrib_right ..

/-! ## Linearity of `gf_mul` -/

/-- `x` if `a` has the bit `mask`. -/
def select (mask a x : UInt8) : UInt8 := if a &&& mask ≠ 0 then x else 0

theorem select_xor {mask : UInt8} (hmask : mask ∈ bits) (a b x : UInt8) :
    select mask (a ^^^ b) x = select mask a x ^^^ select mask b x := by
  have hne : mask ≠ 0 := fun h => absurd (h ▸ hmask) (by decide)
  unfold select
  rw [and_xor]
  rcases (byte_bits a).2 mask hmask with ha | ha <;> rcases (byte_bits b).2 mask hmask with hb | hb
  all_goals simp [ha, hb, hne]

theorem select_xor_right (mask a x y : UInt8) :
    select mask a (x ^^^ y) = select mask a x ^^^ select mask a y := by
  unfold select
  by_cases h : a &&& mask ≠ 0
  · rw [if_pos h, if_pos h, if_pos h]
  · rw [if_neg h, if_neg h, if_neg h, UInt8.xor_self]

/-- The byte times `x`: shifted, and reduced when the shift loses a bit. -/
def xtime (a : UInt8) : UInt8 := a <<< 1 ^^^ select 0x80 a 0x1b

theorem xtime_xor (a b : UInt8) : xtime (a ^^^ b) = xtime a ^^^ xtime b := by
  unfold xtime
  rw [UInt8.shiftLeft_xor, select_xor (by decide)]
  ac_rfl

/-- One round of `gf_mul`. -/
theorem gfMulLoop_succ (n : Nat) (p a b : UInt8) :
    gfMulLoop (n + 1) p a b = gfMulLoop n (p ^^^ select 1 b a) (xtime a) (b >>> 1) := by
  rw [gfMulLoop]
  unfold xtime select
  congr 1
  · by_cases h : b &&& 1 ≠ 0
    · rw [if_pos h, if_pos h]
    · rw [if_neg h, if_neg h, UInt8.xor_zero]
  · by_cases h : a &&& 0x80 ≠ 0
    · rw [if_pos h, if_pos h]
    · rw [if_neg h, if_neg h, UInt8.xor_zero]

theorem gfMulLoop_xor_left (n : Nat) : ∀ p q a a' b : UInt8,
    gfMulLoop n (p ^^^ q) (a ^^^ a') b = gfMulLoop n p a b ^^^ gfMulLoop n q a' b := by
  induction n with
  | zero => intro p q a a' b; rfl
  | succ n ih =>
    intro p q a a' b
    rw [gfMulLoop_succ, gfMulLoop_succ, gfMulLoop_succ, ← ih, xtime_xor, select_xor_right]
    congr 1
    ac_rfl

theorem gfMulLoop_xor_right (n : Nat) : ∀ p q a b b' : UInt8,
    gfMulLoop n (p ^^^ q) a (b ^^^ b') = gfMulLoop n p a b ^^^ gfMulLoop n q a b' := by
  induction n with
  | zero => intro p q a b b'; rfl
  | succ n ih =>
    intro p q a b b'
    rw [gfMulLoop_succ, gfMulLoop_succ, gfMulLoop_succ, ← ih, UInt8.shiftRight_xor,
      select_xor (by decide)]
    congr 1
    ac_rfl

/-- **`gf_mul` distributes** over XOR, on either side. -/
theorem gfMul_xor_left (a a' b : UInt8) : gfMul (a ^^^ a') b = gfMul a b ^^^ gfMul a' b :=
  gfMulLoop_xor_left 8 0 0 a a' b

theorem gfMul_xor_right (a b b' : UInt8) : gfMul a (b ^^^ b') = gfMul a b ^^^ gfMul a b' :=
  gfMulLoop_xor_right 8 0 0 a b b'

theorem gfMul_zero (a : UInt8) : gfMul a 0 = 0 := by
  have := gfMul_xor_right a 0 0
  rw [UInt8.xor_self, UInt8.xor_self] at this
  exact this

theorem zero_gfMul (a : UInt8) : gfMul 0 a = 0 := by
  have := gfMul_xor_left 0 0 a
  rw [UInt8.xor_self, UInt8.xor_self] at this
  exact this

/-! ## The laws, from the bits -/

theorem bits_one_mul {a : UInt8} (ha : a ∈ bits) : gfMul 1 a = a := by
  have h := List.all_eq_true.mp nat_checks.2 a.toNat (List.mem_map_of_mem ha)
  rw [Bool.and_eq_true] at h
  apply UInt8.toNat_inj.mp
  rw [toNat_gfMul]
  exact Nat.eq_of_beq_eq_true h.1

theorem bits_mul_comm_assoc {a b : UInt8} (ha : a ∈ bits) (hb : b ∈ bits) :
    gfMul a b = gfMul b a ∧ ∀ c ∈ bits, gfMul (gfMul a b) c = gfMul a (gfMul b c) := by
  have h := List.all_eq_true.mp nat_checks.2 a.toNat (List.mem_map_of_mem ha)
  rw [Bool.and_eq_true] at h
  have h' := List.all_eq_true.mp h.2 b.toNat (List.mem_map_of_mem hb)
  rw [Bool.and_eq_true] at h'
  constructor
  · apply UInt8.toNat_inj.mp
    rw [toNat_gfMul, toNat_gfMul]
    exact Nat.eq_of_beq_eq_true h'.1
  · intro c hc
    apply UInt8.toNat_inj.mp
    rw [toNat_gfMul, toNat_gfMul, toNat_gfMul, toNat_gfMul]
    exact Nat.eq_of_beq_eq_true (List.all_eq_true.mp h'.2 c.toNat (List.mem_map_of_mem hc))

theorem gfMul_comm (a b : UInt8) : gfMul a b = gfMul b a := by
  revert b
  induction a using xor_induction with
  | hzero => intro b; rw [zero_gfMul, gfMul_zero]
  | hxor a a' ha ha' => intro b; rw [gfMul_xor_left, gfMul_xor_right, ha, ha']
  | hbits a hmem =>
    intro b
    induction b using xor_induction with
    | hzero => rw [zero_gfMul, gfMul_zero]
    | hxor b b' hb hb' => rw [gfMul_xor_left, gfMul_xor_right, hb, hb']
    | hbits b hb => exact (bits_mul_comm_assoc hmem hb).1

theorem gfMul_assoc (a b c : UInt8) : gfMul (gfMul a b) c = gfMul a (gfMul b c) := by
  revert b c
  induction a using xor_induction with
  | hzero => intro b c; rw [zero_gfMul, zero_gfMul, zero_gfMul]
  | hxor a a' ha ha' => intro b c; rw [gfMul_xor_left, gfMul_xor_left, gfMul_xor_left, ha, ha']
  | hbits a ha =>
    intro b c
    induction b using xor_induction with
    | hzero => rw [gfMul_zero, zero_gfMul, gfMul_zero]
    | hxor b b' hb hb' =>
      rw [gfMul_xor_right, gfMul_xor_left, gfMul_xor_left, gfMul_xor_right, hb, hb']
    | hbits b hb =>
      induction c using xor_induction with
      | hzero => rw [gfMul_zero, gfMul_zero, gfMul_zero]
      | hxor c c' hc hc' =>
        rw [gfMul_xor_right, gfMul_xor_right, gfMul_xor_right, hc, hc']
      | hbits c hc => exact (bits_mul_comm_assoc ha hb).2 c hc

theorem one_gfMul (a : UInt8) : gfMul 1 a = a := by
  induction a using xor_induction with
  | hzero => exact gfMul_zero 1
  | hxor a b ha hb => rw [gfMul_xor_right, ha, hb]
  | hbits a ha => exact bits_one_mul ha

/-- `gf_inv` finds no inverse of 0. -/
theorem gfInv_zero : gfInv 0 = none := by
  refine List.find?_eq_none.mpr fun i _ => ?_
  rw [zero_gfMul]
  decide

/-! ## The field -/

/-- A byte with `gf_add` and `gf_mul`. -/
@[ext] structure Gf256 where
  val : UInt8
  deriving DecidableEq

namespace Gf256

instance : Zero Gf256 := ⟨⟨0⟩⟩

instance : One Gf256 := ⟨⟨1⟩⟩

instance : Add Gf256 := ⟨fun a b => ⟨gfAdd a.val b.val⟩⟩

instance : Neg Gf256 := ⟨fun a => a⟩

instance : Mul Gf256 := ⟨fun a b => ⟨gfMul a.val b.val⟩⟩

@[simp] theorem val_add (a b : Gf256) : (a + b).val = a.val ^^^ b.val := rfl

@[simp] theorem val_mul (a b : Gf256) : (a * b).val = gfMul a.val b.val := rfl

@[simp] theorem val_neg (a : Gf256) : (-a).val = a.val := rfl

@[simp] theorem val_zero : (0 : Gf256).val = 0 := rfl

@[simp] theorem val_one : (1 : Gf256).val = 1 := rfl

instance : CommRing Gf256 where
  nsmul := nsmulRec
  zsmul := zsmulRec
  add_assoc a b c := Gf256.ext (UInt8.xor_assoc ..)
  zero_add a := Gf256.ext UInt8.zero_xor
  add_zero a := Gf256.ext UInt8.xor_zero
  add_comm a b := Gf256.ext (UInt8.xor_comm ..)
  neg_add_cancel a := Gf256.ext UInt8.xor_self
  left_distrib a b c := Gf256.ext (gfMul_xor_right ..)
  right_distrib a b c := Gf256.ext (gfMul_xor_left ..)
  zero_mul a := Gf256.ext (zero_gfMul a.val)
  mul_zero a := Gf256.ext (gfMul_zero a.val)
  mul_assoc a b c := Gf256.ext (gfMul_assoc ..)
  mul_comm a b := Gf256.ext (gfMul_comm ..)
  one_mul a := Gf256.ext (one_gfMul a.val)
  mul_one a := Gf256.ext ((gfMul_comm a.val 1).trans (one_gfMul a.val))

theorem val_eq_zero {a : Gf256} : a.val = 0 ↔ a = 0 :=
  ⟨fun h => Gf256.ext h, fun h => congrArg val h⟩

instance : Inv Gf256 := ⟨fun a => ⟨(gfInv a.val).getD 0⟩⟩

theorem val_inv (a : Gf256) : a⁻¹.val = (gfInv a.val).getD 0 := rfl

instance : Field Gf256 where
  exists_pair_ne := ⟨0, 1, by decide⟩
  mul_inv_cancel a ha := by
    obtain ⟨i, hi, hmul⟩ := gfInv_isSome fun h => ha (val_eq_zero.mp h)
    refine Gf256.ext ?_
    rw [val_mul, val_inv, hi]
    exact hmul
  inv_zero := by
    refine Gf256.ext ?_
    rw [val_inv, val_zero, gfInv_zero]
    rfl
  nnqsmul := _
  nnqsmul_def := fun _ _ => rfl
  qsmul := _
  qsmul_def := fun _ _ => rfl

/-- The field's inverse is what `gf_inv` finds. -/
theorem gfInv_val {a : Gf256} (ha : a ≠ 0) : gfInv a.val = some a⁻¹.val := by
  obtain ⟨i, hi, -⟩ := gfInv_isSome fun h => ha (val_eq_zero.mp h)
  rw [val_inv, hi]
  rfl

end Gf256

end Rnet.Ping
