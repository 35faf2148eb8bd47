import Rnet.Lib.Framing
import Rnet.Lib.Utf8

/-!
# Fields behind their lengths

Numbers of 32 bits in little-endian order, byte strings and texts behind their lengths, lists of
texts, and fields that may be absent behind a byte that says so. A length that does not fit
32 bits is cut, the way `as u32` cuts it. What reads a field leaves the bytes behind it, and
fails where they run out or are not UTF-8.

> `takeString_putString`: a text shorter than 2³² bytes is read back from the front of any bytes,
> and `takeStrings_putStrings` is the same for lists of such texts.
-/

namespace Rnet.Lib

/-- `(n as u32).to_le_bytes()`. -/
def u32Bytes (n : Nat) : List UInt8 := (beBytes 4 n).reverse

/-- `u32::from_le_bytes` of the next four bytes. -/
def takeU32 : List UInt8 → Option (Nat × List UInt8)
  | b₀ :: b₁ :: b₂ :: b₃ :: bytes => some (ofBe [b₃, b₂, b₁, b₀], bytes)
  | _ => none

/-- Bytes behind their length. -/
def putBytes (field : List UInt8) : List UInt8 := u32Bytes field.length ++ field

/-- The next field. -/
def takeBytes (bytes : List UInt8) : Option (List UInt8 × List UInt8) := do
  let (len, bytes) ← takeU32 bytes
  if bytes.length < len then none else some (bytes.take len, bytes.drop len)

/-- A text behind the length of its bytes. -/
def putString (s : String) : List UInt8 := putBytes (toUtf8 s)

/-- The next field, as a text. -/
def takeString (bytes : List UInt8) : Option (String × List UInt8) := do
  let (field, bytes) ← takeBytes bytes
  let s ← fromUtf8 field
  some (s, bytes)

/-- A list of texts behind its length. -/
def putStrings (v : List String) : List UInt8 := u32Bytes v.length ++ v.flatMap putString

/-- The next `count` fields, as texts. -/
def takeItems : Nat → List UInt8 → Option (List String × List UInt8)
  | 0, bytes => some ([], bytes)
  | count + 1, bytes => do
    let (item, bytes) ← takeString bytes
    let (v, bytes) ← takeItems count bytes
    some (item :: v, bytes)

/-- The next list of texts. -/
def takeStrings (bytes : List UInt8) : Option (List String × List UInt8) := do
  let (count, bytes) ← takeU32 bytes
  takeItems count bytes

/-- A field behind a byte that says whether it is there. -/
def putOption {α : Type} (put : α → List UInt8) : Option α → List UInt8
  | none => [0]
  | some a => 1 :: put a

/-- The next field, if the byte in front of it says that it is there. -/
def takeOption {α : Type} (take : List UInt8 → Option (α × List UInt8)) :
    List UInt8 → Option (Option α × List UInt8)
  | [] => none
  | has :: bytes =>
    if has = 0 then some (none, bytes)
    else do
      let (a, bytes) ← take bytes
      some (some a, bytes)

/-- A length that 32 bits hold. -/
abbrev FitsU32 (n : Nat) : Prop := n < 4294967296

/-- The text is shorter than 2³² bytes. -/
abbrev ShortText (s : String) : Prop := FitsU32 (toUtf8 s).length

/-- The number that is read is the one that was written, cut to 32 bits. -/
theorem takeU32_u32Bytes (n : Nat) (rest : List UInt8) :
    takeU32 (u32Bytes n ++ rest) = some (n % 4294967296, rest) := by
  have hread := ofBe_beBytes 4 n
  have hlen := length_beBytes 4 n
  unfold u32Bytes
  -- four bytes, whatever they are
  match beBytes 4 n, hlen, hread with
  | [b₃, b₂, b₁, b₀], _, hread => exact congrArg (fun len => some (len, rest)) hread

/-- Of a field, as much is read as 32 bits of its length say. -/
theorem takeBytes_cut {field more : List UInt8}
    (h : (field ++ more).length % 4294967296 = field.length) (rest : List UInt8) :
    takeBytes (putBytes (field ++ more) ++ rest) = some (field, more ++ rest) := by
  have hlen : ¬ (field ++ (more ++ rest)).length < field.length := by
    rw [List.length_append]
    omega
  unfold takeBytes putBytes
  rw [List.append_assoc, takeU32_u32Bytes, h, List.append_assoc]
  show (if (field ++ (more ++ rest)).length < field.length then none else _) = _
  rw [if_neg hlen, List.take_left, List.drop_left]

/-- A field is read back, and what is behind it is left. -/
theorem takeBytes_putBytes {field : List UInt8} (h : FitsU32 field.length) (rest : List UInt8) :
    takeBytes (putBytes field ++ rest) = some (field, rest) := by
  have hmod : (field ++ []).length % 4294967296 = field.length := by
    rw [List.append_nil]
    exact Nat.mod_eq_of_lt h
  have hcut := takeBytes_cut hmod rest
  rw [List.append_nil] at hcut
  exact hcut

/-- A text that is read is the one whose bytes these are. -/
theorem takeString_of_field {s : String} {bytes rest : List UInt8}
    (h : takeBytes bytes = some (toUtf8 s, rest)) : takeString bytes = some (s, rest) := by
  unfold takeString
  rw [h]
  show ((fromUtf8 (toUtf8 s)).bind fun s => some (s, rest)) = _
  rw [fromUtf8_toUtf8]
  rfl

theorem takeString_putString {s : String} (h : ShortText s) (rest : List UInt8) :
    takeString (putString s ++ rest) = some (s, rest) :=
  takeString_of_field (takeBytes_putBytes h rest)

theorem takeItems_flatMap {v : List String} (h : ∀ item ∈ v, ShortText item)
    (rest : List UInt8) :
    takeItems v.length (v.flatMap putString ++ rest) = some (v, rest) := by
  induction v with
  | nil => rfl
  | cons item v ih =>
    have hv := ih fun s hs => h s (List.mem_cons_of_mem item hs)
    rw [List.flatMap_cons, List.append_assoc, List.length_cons]
    unfold takeItems
    rw [takeString_putString (h item (List.mem_cons_self ..))]
    show ((takeItems v.length (v.flatMap putString ++ rest)).bind _) = _
    rw [hv]
    rfl

/-- A list of texts is read back, and what is behind it is left. -/
theorem takeStrings_putStrings {v : List String} (hcount : FitsU32 v.length)
    (h : ∀ item ∈ v, ShortText item) (rest : List UInt8) :
    takeStrings (putStrings v ++ rest) = some (v, rest) := by
  unfold takeStrings putStrings
  rw [List.append_assoc, takeU32_u32Bytes, Nat.mod_eq_of_lt hcount]
  exact takeItems_flatMap h rest

/-- A field that may be absent is read back like the field. -/
theorem takeOption_putOption {α : Type} {put : α → List UInt8}
    {take : List UInt8 → Option (α × List UInt8)} {o : Option α} {rest : List UInt8}
    (h : ∀ a, o = some a → take (put a ++ rest) = some (a, rest)) :
    takeOption take (putOption put o ++ rest) = some (o, rest) := by
  cases o with
  | none => rfl
  | some a =>
    show ((take (put a ++ rest)).bind fun p => some (some p.1, p.2)) = _
    rw [h a rfl]
    rfl

end Rnet.Lib
