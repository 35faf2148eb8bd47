import Mathlib.Data.Nat.Basic
import Mathlib.Tactic.Ring

/-!
# Unsigned LEB128 with a byte budget

Seven bits of the value per byte, least significant group first, the top bit
set on every byte but the last. `encode k n` writes at most `k` bytes and is
minimal by construction; `decode k` reads at most `k` bytes and refuses a
multi-byte encoding whose last group is zero.

> `decode_encode`: decoding inverts encoding on every continuation.
-/

namespace Rnet.Lib.Leb128

/-- The minimal encoding of `n`, cut off after `k` bytes. -/
def encode : Nat → Nat → List UInt8
  | 0, _ => []
  | k + 1, n =>
    if n < 128 then [UInt8.ofNat n]
    else UInt8.ofNat (n % 128 + 128) :: encode k (n / 128)

/-- Decode one value of at most `k` bytes; `none` when the input ends too
early, is too long or is not minimal. -/
def decode : Nat → List UInt8 → Option (Nat × List UInt8)
  | 0, _ => none
  | _ + 1, [] => none
  | k + 1, b :: bs =>
    if b.toNat < 128 then some (b.toNat, bs)
    else
      match decode k bs with
      | none => none
      | some (n, rest) => if n = 0 then none else some (b.toNat - 128 + 128 * n, rest)

/-- A value below 128 is its own encoding. -/
theorem encode_of_lt {k n : Nat} (h : n < 128) : encode (k + 1) n = [UInt8.ofNat n] := by
  rw [encode, if_pos h]

/-- The first byte of a longer encoding carries the continuation bit. -/
theorem encode_of_ge {k n : Nat} (h : 128 ≤ n) :
    encode (k + 1) n = UInt8.ofNat (n % 128 + 128) :: encode k (n / 128) := by
  rw [encode, if_neg (by omega)]

/-- Decoding inverts encoding, whatever bytes follow. -/
theorem decode_encode : ∀ (k : Nat) {n : Nat} (rest : List UInt8), n < 128 ^ k → 0 < k →
    decode k (encode k n ++ rest) = some (n, rest) := by
  intro k
  induction k with
  | zero => intro n rest _ hk; exact absurd hk (Nat.lt_irrefl 0)
  | succ k ih =>
    intro n rest hn _
    by_cases hsmall : n < 128
    · rw [encode_of_lt hsmall, List.cons_append, List.nil_append, decode]
      have hb : (UInt8.ofNat n).toNat = n := by
        rw [UInt8.toNat_ofNat']
        omega
      rw [hb, if_pos hsmall]
    · have hge : 128 ≤ n := Nat.le_of_not_lt hsmall
      have hk : 0 < k := by
        rcases Nat.eq_zero_or_pos k with rfl | hk
        · simp at hn
          omega
        · exact hk
      have hdiv : n / 128 < 128 ^ k := by
        rw [Nat.div_lt_iff_lt_mul (by omega)]
        rw [Nat.pow_succ] at hn
        exact hn
      have hb : (UInt8.ofNat (n % 128 + 128)).toNat = n % 128 + 128 := by
        rw [UInt8.toNat_ofNat']
        omega
      rw [encode_of_ge hge, List.cons_append, decode, hb, if_neg (by omega), ih rest hdiv hk]
      dsimp only
      rw [if_neg (by omega)]
      congr 2
      omega

/-- The bytes left over are a tail of the input. -/
theorem decode_suffix : ∀ (k : Nat) {b rest : List UInt8} {n : Nat},
    decode k b = some (n, rest) → rest <:+ b := by
  intro k
  induction k with
  | zero => intro b rest n h; simp [decode] at h
  | succ k ih =>
    intro b rest n h
    cases b with
    | nil => simp [decode] at h
    | cons x xs =>
      rw [decode] at h
      by_cases hx : x.toNat < 128
      · rw [if_pos hx] at h
        simp only [Option.some.injEq, Prod.mk.injEq] at h
        rw [← h.2]
        exact List.suffix_cons _ _
      · rw [if_neg hx] at h
        cases hd : decode k xs with
        | none => rw [hd] at h; simp at h
        | some p =>
          obtain ⟨m, r⟩ := p
          rw [hd] at h
          dsimp only at h
          by_cases hm : m = 0
          · rw [if_pos hm] at h; simp at h
          · rw [if_neg hm] at h
            simp only [Option.some.injEq, Prod.mk.injEq] at h
            rw [← h.2]
            exact (ih hd).trans (List.suffix_cons _ _)

end Rnet.Lib.Leb128
