import Mathlib.Data.List.Basic

/-!
# Arithmetic in GF(256): `gf_add`, `gf_mul`, `gf_inv` of `rlnc/payload.rs`

Bytes stand for polynomials over GF(2), reduced by x^8 + x^4 + x^3 + x + 1
(`0x1b`). `gf_inv` tries every byte from 1 to 255 and panics when none is an
inverse (`none`):

> `gfInv_isSome`: it panics on 0 only.
-/

namespace Rnet.Ping

/-- `gf_add`. -/
def gfAdd (a b : UInt8) : UInt8 := a ^^^ b

/-- The loop of `gf_mul`, with `n` rounds left. -/
def gfMulLoop : Nat → UInt8 → UInt8 → UInt8 → UInt8
  | 0, p, _, _ => p
  | n + 1, p, a, b =>
    let p := if b &&& 1 ≠ 0 then p ^^^ a else p
    let carry := a &&& 0x80
    let a := a <<< 1
    let a := if carry ≠ 0 then a ^^^ 0x1b else a
    gfMulLoop n p a (b >>> 1)

/-- `gf_mul`. -/
def gfMul (a b : UInt8) : UInt8 := gfMulLoop 8 0 a b

/-- `gf_inv`: the first `i` in `1..=255` with `x * i = 1`; a panic if there is none. -/
def gfInv (x : UInt8) : Option UInt8 :=
  ((List.range 255).map fun i => UInt8.ofNat (i + 1)).find? fun i => gfMul x i = 1

/-! ## Checks over all bytes, on their numbers -/

/-- The loop of `gf_mul` on numbers, which are faster to compute with. -/
def gfMulNat : Nat → Nat → Nat → Nat → Nat
  | 0, p, _, _ => p
  | n + 1, p, a, b =>
    gfMulNat n (bif (b &&& 1).beq 0 then p else p ^^^ a)
      (bif (a &&& 128).beq 0 then 2 * a % 256 else 2 * a % 256 ^^^ 27) (b / 2)

/-- A test of bits, on bytes and on their numbers. -/
theorem cond_and (x y : UInt8) (s t : Nat) :
    (bif (x.toNat &&& y.toNat).beq 0 then s else t) = if x &&& y ≠ 0 then t else s := by
  by_cases h : x &&& y = 0
  · have hnat := congrArg UInt8.toNat h
    rw [UInt8.toNat_and] at hnat
    rw [hnat, if_neg (not_not.mpr h)]
    rfl
  · have hnat : x.toNat &&& y.toNat ≠ 0 := fun h0 =>
      h (UInt8.toNat_inj.mp ((UInt8.toNat_and x y).trans h0))
    have hbeq : (x.toNat &&& y.toNat).beq 0 = false :=
      Bool.eq_false_iff.mpr fun hb => hnat (Nat.eq_of_beq_eq_true hb)
    rw [if_pos h, hbeq, cond_false]

theorem toNat_gfMulLoop (n : Nat) : ∀ p a b : UInt8,
    (gfMulLoop n p a b).toNat = gfMulNat n p.toNat a.toNat b.toNat := by
  induction n with
  | zero => intro p a b; rfl
  | succ n ih =>
    intro p a b
    have hshift : (a <<< 1).toNat = 2 * a.toNat % 256 := by
      rw [UInt8.toNat_shiftLeft, Nat.shiftLeft_eq, Nat.mul_comm]
      rfl
    have hhalf : (b >>> 1).toNat = b.toNat / 2 := by
      rw [UInt8.toNat_shiftRight]
      rfl
    have hbit := cond_and b 1 p.toNat (p.toNat ^^^ a.toNat)
    have hcarry := cond_and a 0x80 (2 * a.toNat % 256) (2 * a.toNat % 256 ^^^ 27)
    rw [show (1 : UInt8).toNat = 1 from rfl] at hbit
    rw [show (0x80 : UInt8).toNat = 128 from rfl] at hcarry
    rw [gfMulLoop, gfMulNat, ih, hhalf, hbit, hcarry]
    congr 1
    · by_cases h : b &&& 1 ≠ 0
      · rw [if_pos h, if_pos h, UInt8.toNat_xor]
      · rw [if_neg h, if_neg h]
    · by_cases h : a &&& 0x80 ≠ 0
      · rw [if_pos h, if_pos h, UInt8.toNat_xor, hshift]
        rfl
      · rw [if_neg h, if_neg h, hshift]

/-- `gf_mul` on numbers. -/
theorem toNat_gfMul (a b : UInt8) : (gfMul a b).toNat = gfMulNat 8 0 a.toNat b.toNat :=
  toNat_gfMulLoop 8 0 a b

/-- The inverses of 0, …, 255, with 0 for 0. -/
def inverses : List UInt8 :=
  [0, 1, 141, 246, 203, 82, 123, 209, 232, 79, 41, 192, 176, 225, 229, 199, 116, 180, 170, 75,
   153, 43, 96, 95, 88, 63, 253, 204, 255, 64, 238, 178, 58, 110, 90, 241, 85, 77, 168, 201,
   193, 10, 152, 21, 48, 68, 162, 194, 44, 69, 146, 108, 243, 57, 102, 66, 242, 53, 32, 111,
   119, 187, 89, 25, 29, 254, 55, 103, 45, 49, 245, 105, 167, 100, 171, 19, 84, 37, 233, 9, 237,
   92, 5, 202, 76, 36, 135, 191, 24, 62, 34, 240, 81, 236, 97, 23, 22, 94, 175, 211, 73, 166,
   54, 67, 244, 71, 145, 223, 51, 147, 33, 59, 121, 183, 151, 133, 16, 181, 186, 60, 182, 112,
   208, 6, 161, 250, 129, 130, 131, 126, 127, 128, 150, 115, 190, 86, 155, 158, 149, 217, 247,
   2, 185, 164, 222, 106, 50, 109, 216, 138, 132, 114, 42, 20, 159, 136, 249, 220, 137, 154,
   251, 124, 46, 195, 143, 184, 101, 72, 38, 200, 18, 74, 206, 231, 210, 98, 12, 224, 31, 239,
   17, 117, 120, 113, 165, 142, 118, 61, 189, 188, 134, 87, 11, 40, 47, 163, 218, 212, 228, 15,
   169, 39, 83, 4, 27, 252, 172, 230, 122, 7, 174, 99, 197, 219, 226, 234, 148, 139, 196, 213,
   157, 248, 144, 107, 177, 13, 214, 235, 198, 14, 207, 173, 8, 78, 215, 227, 93, 80, 30, 179,
   91, 35, 56, 52, 104, 70, 3, 140, 221, 156, 125, 160, 205, 26, 65, 28]

theorem inverses_spec : inverses.length = 256 ∧ (((List.range 256).zip inverses).tail.all fun p =>
    !p.2.toNat.beq 0 && (gfMulNat 8 0 p.1 p.2.toNat).beq 1) = true := by decide +kernel

theorem gfMul_inverses {x : UInt8} (hx : x ≠ 0) : ∃ i, i ≠ 0 ∧ gfMul x i = 1 := by
  have hpos : x.toNat ≠ 0 := fun h => hx (UInt8.toNat_inj.mp h)
  have hlt : x.toNat < inverses.length := by
    rw [inverses_spec.1]
    exact x.toNat_lt
  have hmem : (x.toNat, inverses[x.toNat]) ∈ ((List.range 256).zip inverses).tail := by
    refine List.mem_of_getElem? (i := x.toNat - 1) ?_
    rw [List.getElem?_tail, Nat.sub_add_cancel (by omega)]
    refine List.getElem?_zip_eq_some.mpr ⟨?_, List.getElem?_eq_getElem hlt⟩
    exact List.getElem?_range x.toNat_lt
  have h := List.all_eq_true.mp inverses_spec.2 _ hmem
  rw [Bool.and_eq_true, ← toNat_gfMul] at h
  refine ⟨inverses[x.toNat], fun h0 => ?_, UInt8.toNat_inj.mp (Nat.eq_of_beq_eq_true h.2)⟩
  rw [h0] at h
  exact absurd h.1 Bool.false_ne_true

/-- Every byte but 0 has an inverse, and `gf_inv` finds one. -/
theorem gfInv_isSome {x : UInt8} (hx : x ≠ 0) : ∃ i, gfInv x = some i ∧ gfMul x i = 1 := by
  obtain ⟨i, hi, hmul⟩ := gfMul_inverses hx
  -- the inverse is among the candidates, so the search stops
  have hmem : i ∈ (List.range 255).map fun i => UInt8.ofNat (i + 1) := by
    have hpos : i.toNat ≠ 0 := fun h => hi (UInt8.toNat_inj.mp h)
    have hlt := i.toNat_lt
    refine List.mem_map.mpr ⟨i.toNat - 1, ?_, ?_⟩
    · rw [List.mem_range]
      omega
    · rw [Nat.sub_add_cancel (by omega), UInt8.ofNat_toNat]
  cases hf : gfInv x with
  | none =>
    have := List.find?_eq_none.mp hf _ hmem
    simp only [decide_eq_true_eq] at this
    exact absurd hmul this
  | some i =>
    have := List.find?_some hf
    simp only [decide_eq_true_eq] at this
    exact ⟨i, rfl, this⟩

end Rnet.Ping
