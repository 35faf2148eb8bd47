import Rnet.Lib.Framing
import Mathlib.Data.List.Rotate

/-!
# Authenticated encryption

A cipher with a key and a nonce that either fails or returns bytes. It is ideal when it decrypts
exactly what was encrypted, and adds a tag of a fixed length. A sealed frame is a nonce
followed by a ciphertext.

> `Aead.Ideal.not_sealed_self`: a frame that seals a message is never the message itself.

`chaChaPoly` is ChaCha20-Poly1305 without associated data, and `chaChaPoly_ideal` shows it
ideal in this sense. That the tag is hard to guess is not part of it.
-/

namespace Rnet.Lib

universe u

/-- Byte strings of a fixed length. -/
abbrev Bytes (n : Nat) : Type := { bytes : List UInt8 // bytes.length = n }

/-- An authenticated cipher: key, nonce, then the text. -/
structure Aead (Key : Type u) where
  encrypt : Key → List UInt8 → List UInt8 → Option (List UInt8)
  decrypt : Key → List UInt8 → List UInt8 → Option (List UInt8)

namespace Aead

variable {Key : Type u}

/-- What is encrypted is decrypted, nothing else is, and the tag has `tag` bytes. -/
structure Ideal (A : Aead Key) (tag : Nat) : Prop where
  decrypt_iff : ∀ k nonce c m, A.decrypt k nonce c = some m ↔ A.encrypt k nonce m = some c
  length : ∀ k nonce m c, A.encrypt k nonce m = some c → c.length = m.length + tag

/-- The frame is a nonce of `n` bytes followed by the encrypted message. -/
def Sealed (A : Aead Key) (n : Nat) (k : Key) (m frame : List UInt8) : Prop :=
  ∃ nonce c, nonce.length = n ∧ A.encrypt k nonce m = some c ∧ frame = nonce ++ c

/-- The frame is a nonce of `n` bytes followed by something that decrypts to the message. -/
def Opens (A : Aead Key) (n : Nat) (k : Key) (m frame : List UInt8) : Prop :=
  ∃ nonce c, nonce.length = n ∧ A.decrypt k nonce c = some m ∧ frame = nonce ++ c

variable {A : Aead Key} {tag : Nat}

theorem Ideal.opens_iff_sealed (h : A.Ideal tag) {n : Nat} {k : Key} {m frame : List UInt8} :
    A.Opens n k m frame ↔ A.Sealed n k m frame := by
  refine exists_congr fun nonce => exists_congr fun c => ?_
  rw [h.decrypt_iff]

theorem Ideal.length_of_sealed (h : A.Ideal tag) {n : Nat} {k : Key} {m frame : List UInt8}
    (hs : A.Sealed n k m frame) : frame.length = n + m.length + tag := by
  obtain ⟨nonce, c, hn, hc, rfl⟩ := hs
  rw [List.length_append, hn, h.length k nonce m c hc]
  omega

/-- **A message is not its own sealed frame.** -/
theorem Ideal.not_sealed_self (h : A.Ideal tag) (htag : 0 < tag) (n : Nat) (k : Key)
    (m : List UInt8) : ¬ A.Sealed n k m m := by
  intro hs
  have := h.length_of_sealed hs
  omega

end Aead

/-! ## ChaCha20-Poly1305 -/

namespace ChaChaPoly

/-- A little-endian number. -/
def ofLe (bytes : List UInt8) : Nat := ofBe bytes.reverse

/-- The `k` little-endian bytes of a number. -/
def leBytes (k n : Nat) : List UInt8 := (beBytes k n).reverse

/-- The little-endian words of a byte string. -/
def words (bytes : List UInt8) : List UInt32 :=
  (bytes.toChunks 4).map fun chunk => UInt32.ofNat (ofLe chunk)

def rotl (x n : UInt32) : UInt32 := (x <<< n) ||| (x >>> (32 - n))

/-- The state, row by row. -/
structure Rows where
  a : List UInt32
  b : List UInt32
  c : List UInt32
  d : List UInt32

def add (x y : List UInt32) : List UInt32 := List.zipWith (· + ·) x y

def xorRotl (n : UInt32) (x y : List UInt32) : List UInt32 :=
  List.zipWith (fun u v => rotl (u ^^^ v) n) x y

/-- The quarter round, on all columns at once. -/
def columnRound (s : Rows) : Rows :=
  let a := add s.a s.b
  let d := xorRotl 16 s.d a
  let c := add s.c d
  let b := xorRotl 12 s.b c
  let a := add a b
  let d := xorRotl 8 d a
  let c := add c d
  let b := xorRotl 7 b c
  ⟨a, b, c, d⟩

/-- A column round, then a diagonal round. -/
def doubleRound (s : Rows) : Rows :=
  let s := columnRound s
  let s := columnRound ⟨s.a, s.b.rotate 1, s.c.rotate 2, s.d.rotate 3⟩
  ⟨s.a, s.b.rotate 3, s.c.rotate 2, s.d.rotate 1⟩

/-- A block of the key stream. -/
def block (key nonce : List UInt8) (counter : Nat) : List UInt8 :=
  let s : Rows := {
    a := [0x61707865, 0x3320646e, 0x79622d32, 0x6b206574]
    b := (words key).take 4
    c := (words key).drop 4
    d := UInt32.ofNat counter :: words nonce }
  let t := Nat.repeat doubleRound 10 s
  (add (s.a ++ s.b ++ s.c ++ s.d) (t.a ++ t.b ++ t.c ++ t.d)).flatMap fun w => leBytes 4 w.toNat

/-- The text under the key stream; the first block is kept for the tag. -/
def applyKeystream (key nonce text : List UInt8) : List UInt8 :=
  text.mapIdx fun i b => b ^^^ (block key nonce (1 + i / 64)).getD (i % 64) 0

/-- The one-time authenticator. -/
def poly1305 (key msg : List UInt8) : List UInt8 :=
  let p := 2 ^ 130 - 5
  let r := ofLe (key.take 16) &&& 0x0ffffffc0ffffffc0ffffffc0fffffff
  let acc := (msg.toChunks 16).foldl (fun acc chunk => (acc + ofLe (chunk ++ [1])) * r % p) 0
  leBytes 16 (acc + ofLe ((key.drop 16).take 16))

/-- The tag of a ciphertext. -/
def tag (key nonce ciphertext : List UInt8) : List UInt8 :=
  let padding := List.replicate ((16 - ciphertext.length % 16) % 16) 0
  poly1305 ((block key nonce 0).take 32)
    (ciphertext ++ padding ++ leBytes 8 0 ++ leBytes 8 ciphertext.length)

/-- The nonce has 12 bytes, and the block counter suffices for the text. -/
def Fits (nonce text : List UInt8) : Prop := nonce.length = 12 ∧ text.length / 64 < 2 ^ 32 - 1

instance (nonce text : List UInt8) : Decidable (Fits nonce text) := by
  unfold Fits
  infer_instance

end ChaChaPoly

open ChaChaPoly in
/-- ChaCha20-Poly1305. -/
def chaChaPoly : Aead (Bytes 32) where
  encrypt key nonce m :=
    if Fits nonce m then
      let c := applyKeystream key.1 nonce m
      some (c ++ tag key.1 nonce c)
    else none
  decrypt key nonce c :=
    let text := c.take (c.length - 16)
    if Fits nonce text ∧ c.drop (c.length - 16) = tag key.1 nonce text then
      some (applyKeystream key.1 nonce text)
    else none

namespace ChaChaPoly

theorem length_applyKeystream (key nonce text : List UInt8) :
    (applyKeystream key nonce text).length = text.length := by
  rw [applyKeystream, List.length_mapIdx]

theorem xor_xor_self (a b : UInt8) : a ^^^ b ^^^ b = a := by
  rw [UInt8.xor_assoc, UInt8.xor_self, UInt8.xor_zero]

theorem applyKeystream_twice (key nonce text : List UInt8) :
    applyKeystream key nonce (applyKeystream key nonce text) = text := by
  rw [applyKeystream, applyKeystream, List.mapIdx_mapIdx]
  refine List.ext_getElem? fun i => ?_
  rw [List.getElem?_mapIdx]
  cases text[i]? with
  | none => rfl
  | some b => simp only [Option.map_some, Function.comp_apply, xor_xor_self]

theorem length_leBytes (k n : Nat) : (leBytes k n).length = k := by
  rw [leBytes, List.length_reverse, length_beBytes]

theorem length_tag (key nonce c : List UInt8) : (tag key nonce c).length = 16 := by
  rw [tag, poly1305, length_leBytes]

theorem fits_congr {nonce text text' : List UInt8} (h : text'.length = text.length) :
    Fits nonce text' ↔ Fits nonce text := by
  rw [Fits, Fits, h]

end ChaChaPoly

open ChaChaPoly

theorem chaChaPoly_ideal : chaChaPoly.Ideal 16 := by
  refine ⟨fun k nonce c m => ?_, fun k nonce m c h => ?_⟩
  · simp only [chaChaPoly]
    constructor
    · intro h
      split at h
      swap
      · simp at h
      rename_i hc
      obtain ⟨hfits, htag⟩ := hc
      obtain rfl := Option.some.inj h
      rw [if_pos ((fits_congr (length_applyKeystream ..)).mpr hfits), applyKeystream_twice, ← htag,
        List.take_append_drop]
    · intro h
      split at h
      swap
      · simp at h
      rename_i hfits
      obtain rfl := Option.some.inj h
      have hlen : (applyKeystream k.1 nonce m ++ tag k.1 nonce (applyKeystream k.1 nonce m)).length
          - 16 = (applyKeystream k.1 nonce m).length := by
        rw [List.length_append, length_tag]
        omega
      rw [hlen, List.take_left, List.drop_left,
        if_pos ⟨(fits_congr (length_applyKeystream ..)).mpr hfits, rfl⟩, applyKeystream_twice]
  · simp only [chaChaPoly] at h
    split at h
    · obtain rfl := Option.some.inj h
      rw [List.length_append, length_tag, length_applyKeystream]
    · simp at h

/-- Two bytes under the key `80 81 .. 9f`. -/
example : chaChaPoly.encrypt ⟨(List.range 32).map fun i => UInt8.ofNat (128 + i), by decide⟩
    [7, 0, 0, 0, 64, 65, 66, 67, 68, 69, 70, 71] [104, 105]
    = some [247, 18, 149, 227, 241, 146, 230, 195, 36, 138, 43, 151, 240, 96, 14, 121, 237, 159]
    := by
  decide +kernel

end Rnet.Lib
