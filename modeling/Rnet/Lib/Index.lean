import Rnet.Lib.Fields

/-!
# Fields at an index

A byte string that is read by an index into it: a range that is out of bounds fails, and what
reads a field at an index moves the index behind it. `Rnet.Lib.Fields` reads the same fields from
the front of the bytes that are left.

> `takeString_drop`, `takeItems_drop`: reading at an index is reading the bytes from the index
> on, also where either fails.
-/

namespace Rnet.Lib

/-- `bytes[lo..hi]`. -/
def slice (bytes : List UInt8) (lo hi : Nat) : Option (List UInt8) :=
  if lo ≤ hi ∧ hi ≤ bytes.length then some ((bytes.drop lo).take (hi - lo)) else none

/-- `u32::from_le_bytes(bytes[idx..idx + 4])`. -/
def u32At (bytes : List UInt8) (idx : Nat) : Option Nat := do
  let field ← slice bytes idx (idx + 4)
  some (ofBe field.reverse)

/-- `String::from_utf8(bytes[idx..idx + len])`. -/
def stringAt (bytes : List UInt8) (idx len : Nat) : Option String := do
  let field ← slice bytes idx (idx + len)
  fromUtf8 field

/-- One text behind its length: the texts with it, and the index behind it. -/
def itemAt (bytes : List UInt8) (v : List String) (idx : Nat) : Option (List String × Nat) := do
  let len ← u32At bytes idx
  let item ← stringAt bytes (idx + 4) len
  some (v ++ [item], idx + 4 + len)

/-- `count` times `itemAt`. -/
def itemsAt (bytes : List UInt8) : Nat → List String → Nat → Option (List String × Nat)
  | 0, v, idx => some (v, idx)
  | count + 1, v, idx => do
    let (v, idx) ← itemAt bytes v idx
    itemsAt bytes count v idx

/-- A range from an index on, and the bytes that are left there. -/
theorem slice_add (bytes : List UInt8) (idx len : Nat) :
    slice bytes idx (idx + len) =
      if idx ≤ bytes.length ∧ len ≤ (bytes.drop idx).length then some ((bytes.drop idx).take len)
      else none := by
  unfold slice
  rw [List.length_drop, Nat.add_sub_cancel_left]
  congr 1
  exact propext ⟨fun h => by omega, fun h => by omega⟩

/-- A number at an index is one in front of the bytes that are left. -/
theorem takeU32_drop (bytes : List UInt8) (idx : Nat) :
    takeU32 (bytes.drop idx) = (u32At bytes idx).map fun n => (n, bytes.drop (idx + 4)) := by
  unfold u32At
  rw [slice_add, ← List.drop_drop]
  by_cases hidx : idx ≤ bytes.length
  · generalize bytes.drop idx = left
    match left with
    | [] | [_] | [_, _] | [_, _, _] => simp [takeU32]
    | b₀ :: b₁ :: b₂ :: b₃ :: left => simp [takeU32, hidx]
  · rw [List.drop_eq_nil_of_le (by omega), if_neg (fun h => hidx h.1)]
    rfl

/-- So is a text behind its length. -/
theorem takeString_drop (bytes : List UInt8) (idx : Nat) :
    takeString (bytes.drop idx) = (u32At bytes idx).bind fun len =>
      (stringAt bytes (idx + 4) len).map fun s => (s, bytes.drop (idx + 4 + len)) := by
  unfold takeString takeBytes
  rw [takeU32_drop]
  cases hlen : u32At bytes idx with
  | none => rfl
  | some len =>
    have hidx : idx + 4 ≤ bytes.length := by
      obtain ⟨field, hfield, -⟩ := Option.bind_eq_some_iff.mp hlen
      unfold slice at hfield
      exact (Option.ite_none_right_eq_some.mp hfield).1.2
    simp only [Option.map_some, Option.bind_eq_bind, Option.bind_some]
    unfold stringAt
    have hbehind : bytes.drop (idx + 4 + len) = (bytes.drop (idx + 4)).drop len :=
      List.drop_drop.symm
    rw [slice_add, hbehind]
    by_cases hfits : len ≤ (bytes.drop (idx + 4)).length
    · rw [if_neg (by omega), if_pos ⟨hidx, hfits⟩]
      simp only [Option.bind_eq_bind, Option.bind_some]
      cases fromUtf8 ((bytes.drop (idx + 4)).take len) with
      | none => rfl
      | some s => rfl
    · rw [if_pos (by omega), if_neg fun h => hfits h.2]
      rfl

/-- **The loop over the texts**: behind `v` and at `idx`, it appends the texts that are read from
the bytes that are left, and stops where these end. -/
theorem takeItems_drop (bytes : List UInt8) :
    ∀ (count : Nat) (v : List String) (idx : Nat),
      (takeItems count (bytes.drop idx)).map (fun p => (v ++ p.1, p.2)) =
        (itemsAt bytes count v idx).map fun p => (p.1, bytes.drop p.2) := by
  intro count
  induction count with
  | zero =>
    intro v idx
    simp [takeItems, itemsAt]
  | succ count ih =>
    intro v idx
    unfold takeItems itemsAt itemAt
    rw [takeString_drop]
    cases u32At bytes idx with
    | none => rfl
    | some len =>
      cases hitem : stringAt bytes (idx + 4) len with
      | none => simp [hitem]
      | some item =>
        have hrest := ih (v ++ [item]) (idx + 4 + len)
        simp only [Option.bind_eq_bind, Option.bind_some, hitem, Option.map_some]
        rw [← hrest]
        cases takeItems count (bytes.drop (idx + 4 + len)) with
        | none => rfl
        | some p => simp

end Rnet.Lib
