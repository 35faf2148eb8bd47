import Rnet.Lib.Framing
import Rnet.Lib.Utf8
import Mathlib.Data.PEquiv

/-!
# Formats of values

A `Wire α` says how a value is written and how one is read at the front of bytes. Its law is part
of it: a value is read exactly where it was written, if the format has room for it. Formats of
lists, options, texts and enumerations are put together from those of their parts, and the law
comes with them. Numbers are little-endian, and lengths have eight bytes.

> `Wire.decode_put`: what is written for a value is read back.

A package of somebody else, with nothing known but that much, is a `Bincode`; a format of this kind
is an instance of one.
-/

namespace Rnet.Lib

/-- How values are written, and read at the front of bytes. -/
structure Wire (α : Type) where
  put : α → List UInt8
  take : List UInt8 → Option (α × List UInt8)
  /-- the values that there is room for -/
  Fits : α → Prop
  take_iff : ∀ bytes a rest, take bytes = some (a, rest) ↔ Fits a ∧ bytes = put a ++ rest

namespace Wire

variable {α β ι : Type}

/-! ## Parts -/

/-- A byte. -/
def byte : Wire UInt8 where
  put b := [b]
  take
    | [] => none
    | b :: rest => some (b, rest)
  Fits _ := True
  take_iff bytes a rest := by
    cases bytes with
    | nil => simp
    | cons b bytes => simp

/-- A number of `k` bytes. -/
def uint (k : Nat) : Wire Nat where
  put n := (beBytes k n).reverse
  take bytes :=
    if bytes.length < k then none else some (ofBe (bytes.take k).reverse, bytes.drop k)
  Fits n := n < 256 ^ k
  take_iff bytes n rest := by
    rw [Option.ite_none_left_eq_some, Option.some.injEq, Prod.mk.injEq]
    constructor
    · intro h
      obtain ⟨hlen, rfl, rfl⟩ := h
      have hk : (bytes.take k).reverse.length = k := by
        rw [List.length_reverse, List.length_take]
        omega
      have hlt := ofBe_lt (bytes.take k).reverse
      have hbytes := beBytes_ofBe (bytes.take k).reverse
      rw [hk] at hlt hbytes
      exact ⟨hlt, by rw [hbytes, List.reverse_reverse, List.take_append_drop]⟩
    · intro h
      obtain ⟨hn, rfl⟩ := h
      have hk : (beBytes k n).reverse.length = k := by
        rw [List.length_reverse, length_beBytes]
      refine ⟨?_, ?_, List.drop_left' hk⟩
      · rw [List.length_append, hk]
        omega
      · rw [List.take_left' hk, List.reverse_reverse, ofBe_beBytes_of_lt hn]

/-- Nothing is written. -/
def constant (a : α) : Wire α where
  put _ := []
  take bytes := some (a, bytes)
  Fits b := b = a
  take_iff bytes b rest := by
    rw [Option.some.injEq, Prod.mk.injEq, List.nil_append, eq_comm (a := a)]

/-- Nothing is read. -/
def never : Wire α where
  put _ := []
  take _ := none
  Fits _ := False
  take_iff bytes b rest := by simp

/-! ## Formats from formats -/

/-- One value behind the other. -/
def pair (A : Wire α) (B : Wire β) : Wire (α × β) where
  put p := A.put p.1 ++ B.put p.2
  take bytes := (A.take bytes).bind fun r => (B.take r.2).map fun q => ((r.1, q.1), q.2)
  Fits p := A.Fits p.1 ∧ B.Fits p.2
  take_iff bytes p rest := by
    rw [Option.bind_eq_some_iff]
    constructor
    · intro h
      obtain ⟨⟨a, bytes'⟩, ha, h⟩ := h
      obtain ⟨⟨b, rest'⟩, hb, heq⟩ := Option.map_eq_some_iff.mp h
      rw [Prod.mk.injEq] at heq
      obtain ⟨rfl, rfl⟩ := heq
      obtain ⟨hfa, rfl⟩ := (A.take_iff ..).mp ha
      obtain ⟨hfb, hrest⟩ := (B.take_iff ..).mp hb
      exact ⟨⟨hfa, hfb⟩, by rw [List.append_assoc]; exact congrArg (A.put a ++ ·) hrest⟩
    · intro h
      obtain ⟨⟨hfa, hfb⟩, rfl⟩ := h
      refine ⟨(p.1, B.put p.2 ++ rest), (A.take_iff ..).mpr ⟨hfa, List.append_assoc ..⟩, ?_⟩
      rw [(B.take_iff ..).mpr ⟨hfb, rfl⟩]
      rfl

/-- The values that stand for those of another type. -/
def along (A : Wire α) (e : α ≃. β) : Wire β where
  put b := ((e.symm b).map A.put).getD []
  take bytes := (A.take bytes).bind fun r => (e r.1).map fun b => (b, r.2)
  Fits b := ∃ a, e.symm b = some a ∧ A.Fits a
  take_iff bytes b rest := by
    rw [Option.bind_eq_some_iff]
    constructor
    · intro h
      obtain ⟨⟨a, bytes'⟩, ha, h⟩ := h
      obtain ⟨b', hb, heq⟩ := Option.map_eq_some_iff.mp h
      rw [Prod.mk.injEq] at heq
      obtain ⟨rfl, rfl⟩ := heq
      obtain ⟨hfa, hbytes⟩ := (A.take_iff ..).mp ha
      have hsymm := e.eq_some_iff.mpr hb
      exact ⟨⟨a, hsymm, hfa⟩, by rw [hsymm]; exact hbytes⟩
    · intro h
      obtain ⟨⟨a, hsymm, hfa⟩, hbytes⟩ := h
      rw [hsymm] at hbytes
      refine ⟨(a, rest), (A.take_iff ..).mpr ⟨hfa, hbytes⟩, ?_⟩
      rw [e.eq_some_iff.mp hsymm]
      rfl

/-- A format along an equivalence fits what fits on the other side. -/
theorem along_fits (A : Wire α) (e : α ≃ β) {b : β} :
    (A.along e.toPEquiv).Fits b ↔ A.Fits (e.symm b) := by
  show (∃ a, some (e.symm b) = some a ∧ A.Fits a) ↔ _
  constructor
  · intro h
    obtain ⟨a, ha, hf⟩ := h
    rw [Option.some.inj ha]
    exact hf
  · exact fun h => ⟨_, rfl, h⟩

/-- A key that says what follows. -/
def keyed (K : Wire ι) (B : ι → Wire α) (key : α → ι)
    (hkey : ∀ i a, (B i).Fits a → key a = i) : Wire α where
  put a := K.put (key a) ++ (B (key a)).put a
  take bytes := (K.take bytes).bind fun r => (B r.1).take r.2
  Fits a := K.Fits (key a) ∧ (B (key a)).Fits a
  take_iff bytes a rest := by
    rw [Option.bind_eq_some_iff]
    constructor
    · intro h
      obtain ⟨⟨i, bytes'⟩, hi, ha⟩ := h
      obtain ⟨hfi, rfl⟩ := (K.take_iff ..).mp hi
      obtain ⟨hfa, hrest⟩ := ((B i).take_iff ..).mp ha
      obtain rfl := hkey i a hfa
      exact ⟨⟨hfi, hfa⟩, by rw [List.append_assoc]; exact congrArg (K.put (key a) ++ ·) hrest⟩
    · intro h
      obtain ⟨⟨hfi, hfa⟩, rfl⟩ := h
      exact ⟨(key a, (B (key a)).put a ++ rest),
        (K.take_iff ..).mpr ⟨hfi, List.append_assoc ..⟩, ((B _).take_iff ..).mpr ⟨hfa, rfl⟩⟩

/-! ## Lists, options and enumerations -/

/-- The first item and the others. -/
def consItems : α × List α ≃. List α where
  toFun p := some (p.1 :: p.2)
  invFun
    | [] => none
    | a :: l => some (a, l)
  inv p l := by
    cases l with
    | nil => simp
    | cons a l => simp [Prod.ext_iff, eq_comm]

/-- So many items. -/
def items (A : Wire α) : Nat → Wire (List α)
  | 0 => constant []
  | n + 1 => (A.pair (items A n)).along consItems

theorem items_fits (A : Wire α) {n : Nat} {l : List α} :
    (A.items n).Fits l ↔ l.length = n ∧ ∀ a ∈ l, A.Fits a := by
  induction n generalizing l with
  | zero =>
    show l = [] ↔ _
    rw [List.length_eq_zero_iff]
    exact ⟨fun h => ⟨h, by simp [h]⟩, And.left⟩
  | succ n ih =>
    show (∃ p : α × List α, consItems.symm l = some p ∧ A.Fits p.1 ∧ (A.items n).Fits p.2) ↔ _
    cases l with
    | nil =>
      refine iff_of_false ?_ fun h => absurd h.1.symm (Nat.succ_ne_zero n)
      intro h
      obtain ⟨p, hp, -⟩ := h
      exact absurd hp.symm (Option.some_ne_none p)
    | cons a l =>
      rw [List.forall_mem_cons, List.length_cons, Nat.succ_inj]
      constructor
      · intro h
        obtain ⟨p, hp, hfa, hfl⟩ := h
        obtain rfl : (a, l) = p := Option.some.inj hp
        obtain ⟨hlen, hall⟩ := ih.mp hfl
        exact ⟨hlen, hfa, hall⟩
      · intro h
        obtain ⟨hlen, hfa, hall⟩ := h
        exact ⟨(a, l), rfl, hfa, ih.mpr ⟨hlen, hall⟩⟩

/-- Items behind their number. -/
def list (A : Wire α) : Wire (List α) :=
  keyed (uint 8) A.items List.length fun _ _ h => (A.items_fits.mp h).1

theorem list_fits (A : Wire α) {l : List α} :
    A.list.Fits l ↔ l.length < 256 ^ 8 ∧ ∀ a ∈ l, A.Fits a := by
  show l.length < 256 ^ 8 ∧ (A.items l.length).Fits l ↔ _
  rw [items_fits]
  exact and_congr_right fun _ => ⟨And.right, fun h => ⟨rfl, h⟩⟩

/-- What there is, where something may be missing. -/
def present : α ≃. Option α where
  toFun a := some (some a)
  invFun o := o
  inv a o := by rw [Option.some.injEq, eq_comm]

/-- A value behind a byte that says whether it is there. -/
def option (A : Wire α) : Wire (Option α) :=
  keyed byte (fun b => if b = 0 then constant none else if b = 1 then A.along present else never)
    (fun o => if o.isSome then 1 else 0) (by
      intro b o h
      split_ifs at h with h0 h1
      · rw [h0, show o = none from h]
        rfl
      · obtain ⟨a, ha, -⟩ := h
        rw [h1, show o = some a from ha]
        rfl
      · exact absurd h id)

theorem option_fits (A : Wire α) {o : Option α} :
    A.option.Fits o ↔ ∀ a, o = some a → A.Fits a := by
  cases o with
  | none => exact ⟨fun _ a ha => absurd ha.symm (Option.some_ne_none a), fun _ => ⟨trivial, rfl⟩⟩
  | some a =>
    constructor
    · intro h b hb
      obtain ⟨-, c, hc, hfc⟩ := h
      obtain rfl : a = c := Option.some.inj hc
      exact Option.some.inj hb ▸ hfc
    · exact fun h => ⟨trivial, a, rfl, h a rfl⟩

/-- The first of two cases. -/
def left : α ≃. α ⊕ β where
  toFun a := some (.inl a)
  invFun := Sum.getLeft?
  inv a s := by
    cases s with
    | inl b => simp [eq_comm]
    | inr b => simp

/-- The second of two cases. -/
def right : β ≃. α ⊕ β where
  toFun b := some (.inr b)
  invFun := Sum.getRight?
  inv b s := by
    cases s with
    | inl a => simp
    | inr a => simp [eq_comm]

/-- One of two cases, behind its number. -/
def either (A : Wire α) (B : Wire β) : Wire (α ⊕ β) :=
  keyed (uint 4) (fun n => if n = 0 then A.along left else if n = 1 then B.along right else never)
    (Sum.elim (fun _ => 0) fun _ => 1) (by
      intro n s h
      split_ifs at h with h0 h1
      · obtain ⟨a, ha, -⟩ := h
        rw [h0, Sum.getLeft?_eq_some_iff.mp ha]
        rfl
      · obtain ⟨b, hb, -⟩ := h
        rw [h1, Sum.getRight?_eq_some_iff.mp hb]
        rfl
      · exact absurd h id)

theorem either_fits_inl (A : Wire α) (B : Wire β) {a : α} :
    (A.either B).Fits (.inl a) ↔ A.Fits a := by
  constructor
  · intro h
    obtain ⟨-, c, hc, hfc⟩ := h
    obtain rfl : a = c := Option.some.inj hc
    exact hfc
  · exact fun h => ⟨show 0 < 256 ^ 4 by decide, a, rfl, h⟩

theorem either_fits_inr (A : Wire α) (B : Wire β) {b : β} :
    (A.either B).Fits (.inr b) ↔ B.Fits b := by
  constructor
  · intro h
    obtain ⟨-, c, hc, hfc⟩ := h
    obtain rfl : b = c := Option.some.inj hc
    exact hfc
  · exact fun h => ⟨show 1 < 256 ^ 4 by decide, b, rfl, h⟩

/-- The numbers below `n`. -/
def below (n : Nat) : Nat ≃. Fin n where
  toFun k := if h : k < n then some ⟨k, h⟩ else none
  invFun i := some i.val
  inv k i := by
    rw [Option.some.injEq]
    constructor
    · intro h
      obtain rfl := h
      rw [dif_pos i.isLt]
    · intro h
      by_cases hk : k < n
      · rw [dif_pos hk, Option.some.injEq] at h
        rw [← h]
      · rw [dif_neg hk] at h
        exact absurd h.symm (Option.some_ne_none i)

/-- One of `n` names. -/
def variants (n : Nat) : Wire (Fin n) := (uint 4).along (below n)

theorem variants_fits {n : Nat} (hn : n ≤ 256 ^ 4) (i : Fin n) : (variants n).Fits i :=
  ⟨i.val, rfl, Nat.lt_of_lt_of_le i.isLt hn⟩

/-! ## Texts -/

theorem fromUtf8_eq_some_iff {bytes : List UInt8} {s : String} :
    fromUtf8 bytes = some s ↔ toUtf8 s = bytes := by
  constructor
  · intro h
    unfold fromUtf8 String.fromUTF8? at h
    rw [Option.dite_none_right_eq_some] at h
    obtain ⟨hv, hs⟩ := h
    obtain rfl := Option.some.inj hs
    rfl
  · intro h
    rw [← h, fromUtf8_toUtf8]

/-- The text of bytes that are UTF-8. -/
def utf8 : List UInt8 ≃. String where
  toFun := fromUtf8
  invFun s := some (toUtf8 s)
  inv bytes s := by rw [fromUtf8_eq_some_iff, Option.some.injEq]

/-- A text behind the number of its bytes. -/
def text : Wire String := byte.list.along utf8

theorem bytes_fits {l : List UInt8} : byte.list.Fits l ↔ l.length < 256 ^ 8 := by
  rw [list_fits]
  exact and_iff_left fun _ _ => trivial

theorem text_fits {s : String} : text.Fits s ↔ (toUtf8 s).length < 256 ^ 8 := by
  show (∃ bytes, some (toUtf8 s) = some bytes ∧ byte.list.Fits bytes) ↔ _
  constructor
  · intro h
    obtain ⟨bytes, hb, hf⟩ := h
    rw [Option.some.inj hb]
    exact bytes_fits.mp hf
  · exact fun h => ⟨_, rfl, bytes_fits.mpr h⟩

/-- Read a value; what follows it is ignored. -/
def decode (A : Wire α) (bytes : List UInt8) : Option α := (A.take bytes).map Prod.fst

/-- What is written is read back. -/
theorem decode_put (A : Wire α) {a : α} (h : A.Fits a) : A.decode (A.put a) = some a := by
  have htake : A.take (A.put a) = some (a, []) :=
    (A.take_iff ..).mpr ⟨h, (List.append_nil _).symm⟩
  rw [decode, htake]
  rfl

end Wire

/-! ## Formats of other packages -/

/-- The text is no longer than its length can say. -/
abbrev FitsText (s : String) : Prop := (toUtf8 s).length < 256 ^ 8

/-- A format whose code is another package's. Its documentation promises that a value is read back
if there is room for it. -/
structure Bincode (α : Type) (Fits : α → Prop) where
  serialize : α → List UInt8
  deserialize : List UInt8 → Option α
  deserialize_serialize : ∀ {a}, Fits a → deserialize (serialize a) = some a

/-- The format that is put together here. -/
def Wire.bincode {α : Type} {Fits : α → Prop} (A : Wire α) (h : ∀ {a}, Fits a → A.Fits a) :
    Bincode α Fits where
  serialize := A.put
  deserialize := A.decode
  deserialize_serialize ha := A.decode_put (h ha)

/-- Texts behind the number of their bytes. -/
def textBincode : Bincode String FitsText := Wire.text.bincode Wire.text_fits.mpr

end Rnet.Lib
