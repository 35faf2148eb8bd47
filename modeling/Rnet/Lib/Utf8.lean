import Mathlib.Data.List.Basic

/-!
# Strings as bytes

`fromUtf8` is `String::from_utf8`, `fromUtf8Lossy` is `String::from_utf8_lossy`:
valid bytes give their string, and in invalid ones every ill-formed sequence is
replaced by U+FFFD.
-/

namespace Rnet.Lib

/-- The bytes of a string. -/
def toUtf8 (s : String) : List UInt8 := s.toByteArray.data.toList

/-- `String::from_utf8`. -/
def fromUtf8 (bytes : List UInt8) : Option String := String.fromUTF8? ⟨bytes.toArray⟩

/-- How many bytes of an ill-formed sequence one U+FFFD stands for: as many as begin a
well-formed one. -/
def replacedLength : List UInt8 → Nat
  | b0 :: b1 :: rest =>
    let begins :=
      (b0 = 0xE0 ∧ 0xA0 ≤ b1 ∧ b1 ≤ 0xBF) ∨
      (0xE1 ≤ b0 ∧ b0 ≤ 0xEC ∧ 0x80 ≤ b1 ∧ b1 ≤ 0xBF) ∨
      (b0 = 0xED ∧ 0x80 ≤ b1 ∧ b1 ≤ 0x9F) ∨
      (0xEE ≤ b0 ∧ b0 ≤ 0xEF ∧ 0x80 ≤ b1 ∧ b1 ≤ 0xBF) ∨
      (b0 = 0xF0 ∧ 0x90 ≤ b1 ∧ b1 ≤ 0xBF) ∨
      (0xF1 ≤ b0 ∧ b0 ≤ 0xF3 ∧ 0x80 ≤ b1 ∧ b1 ≤ 0xBF) ∨
      (b0 = 0xF4 ∧ 0x80 ≤ b1 ∧ b1 ≤ 0x8F)
    if begins then
      match rest with
      | b2 :: _ => if 0xF0 ≤ b0 ∧ 0x80 ≤ b2 ∧ b2 ≤ 0xBF then 3 else 2
      | [] => 2
    else 1
  | _ => 1

/-- The characters of bytes that may be ill-formed, with `n` bytes left at most. -/
def lossyChars : Nat → List UInt8 → List Char
  | 0, _ => []
  | _ + 1, [] => []
  | n + 1, b :: bs =>
    match ByteArray.utf8DecodeChar? ⟨(b :: bs).toArray⟩ 0 with
    | some c => c :: lossyChars n ((b :: bs).drop c.utf8Size)
    | none => Char.ofNat 0xFFFD :: lossyChars n ((b :: bs).drop (replacedLength (b :: bs)))

/-- `String::from_utf8_lossy`. -/
def fromUtf8Lossy (bytes : List UInt8) : String :=
  match fromUtf8 bytes with
  | some s => s
  | none => String.ofList (lossyChars bytes.length bytes)

@[simp] theorem fromUtf8_toUtf8 (s : String) : fromUtf8 (toUtf8 s) = some s := by
  unfold fromUtf8 toUtf8 String.fromUTF8?
  rw [Array.toArray_toList]
  exact dif_pos s.isValidUTF8

/-- The bytes of ASCII text, a byte for each character. -/
theorem toUtf8_ofList {text : List Char} (h : ∀ c ∈ text, c.toNat < 128) :
    toUtf8 (String.ofList text) = text.map fun c => UInt8.ofNat c.toNat := by
  unfold toUtf8
  rw [String.toByteArray_ofList]
  induction text with
  | nil => rfl
  | cons c text ih =>
    have hc := h c (List.mem_cons_self ..)
    have hsize : c.utf8Size = 1 := by
      apply Char.utf8Size_eq_one_iff.mpr
      apply UInt32.le_iff_toNat_le.mpr
      show c.toNat ≤ 127
      omega
    rw [List.utf8Encode_cons, List.utf8Encode_singleton,
      String.utf8EncodeChar_eq_singleton hsize, List.map_cons,
      ← ih fun d hd => h d (List.mem_cons_of_mem c hd), ByteArray.data_append,
      Array.toList_append]
    rfl

@[simp] theorem fromUtf8Lossy_toUtf8 (s : String) : fromUtf8Lossy (toUtf8 s) = s := by
  unfold fromUtf8Lossy
  rw [fromUtf8_toUtf8]

end Rnet.Lib
