import Rnet.Lib.Aead

/-!
# Key agreement

Each side keeps a secret and publishes a value made from it, and combines its own secret with the
other's public value. `x25519` does so with the Montgomery ladder on the curve
`y² = x³ + 486662 x² + x` over the integers modulo `2²⁵⁵ - 19`.
-/

namespace Rnet.Lib

/-- A key agreement on byte strings of 32 bytes. -/
structure KeyAgreement where
  publicKey : Bytes 32 → Bytes 32
  diffieHellman : Bytes 32 → Bytes 32 → Bytes 32

/-- Both sides come to the same shared secret. -/
def KeyAgreement.Agrees (K : KeyAgreement) : Prop :=
  ∀ a b, K.diffieHellman a (K.publicKey b) = K.diffieHellman b (K.publicKey a)

namespace X25519

open ChaChaPoly (ofLe leBytes length_leBytes)

def p : Nat := 2 ^ 255 - 19

/-- The bits that every secret has cleared or set. -/
def clamp (secret : Nat) : Nat := secret % 2 ^ 254 / 8 * 8 + 2 ^ 254

/-- Two points of the curve that differ by a fixed one, in projective coordinates. -/
structure Ladder where
  x₂ : Nat
  z₂ : Nat
  x₃ : Nat
  z₃ : Nat

def Ladder.swap (s : Ladder) (bit : Bool) : Ladder :=
  if bit then ⟨s.x₃, s.z₃, s.x₂, s.z₂⟩ else s

/-- Double the first point, and add it to the second one. -/
def Ladder.doubleAdd (x₁ : Nat) (s : Ladder) : Ladder :=
  let a := s.x₂ + s.z₂
  let b := s.x₂ + p - s.z₂
  let aa := a * a % p
  let bb := b * b % p
  let e := (aa + p - bb) % p
  let da := (s.x₃ + p - s.z₃) * a % p
  let cb := (s.x₃ + s.z₃) * b % p
  { x₂ := aa * bb % p
    z₂ := e * (aa + 121665 * e) % p
    x₃ := (da + cb) * (da + cb) % p
    z₃ := x₁ * ((da + p - cb) * (da + p - cb)) % p }

/-- The bits of a number below `2 ^ k`, the highest first. -/
def bits (k n : Nat) : List Bool := (List.range k).reverse.map n.testBit

/-- The power of a number modulo `p`. -/
def power (x n : Nat) : Nat :=
  (bits 255 n).foldl (fun acc bit => acc * acc % p * (if bit then x else 1) % p) 1

/-- The multiple of the point with coordinate `u`. -/
def multiply (scalar u : Nat) : Nat :=
  let s : Ladder :=
    (bits 255 scalar).foldl (fun s bit => ((s.swap bit).doubleAdd u).swap bit) ⟨1, 0, u, 1⟩
  s.x₂ * power s.z₂ (p - 2) % p

end X25519

open X25519 ChaChaPoly in
/-- X25519; the base point has coordinate 9. -/
def x25519 : KeyAgreement where
  publicKey secret := ⟨leBytes 32 (multiply (clamp (ofLe secret.1)) 9), length_leBytes 32 _⟩
  diffieHellman secret public_key :=
    ⟨leBytes 32 (multiply (clamp (ofLe secret.1)) (ofLe public_key.1 % 2 ^ 255 % p)),
      length_leBytes 32 _⟩

end Rnet.Lib
