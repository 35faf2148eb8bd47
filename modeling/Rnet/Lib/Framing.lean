import Mathlib.Algebra.Group.Nat.Defs
import Mathlib.Data.List.Induction

/-!
# Big-endian numbers and length-prefixed words

`beBytes k n` is the `k`-byte big-endian form of `n`, cut to `k` bytes the way a
cast to a fixed-width integer cuts it; `ofBe` reads it back. A word with its
length in front (`frame k m`) can be told apart at the front of any stream, so a
stream of such words determines the words:

> `prefix_of_frames_prefix`: if the stream of `ms` is a prefix of the stream of
> `ns`, then `ms` is a prefix of `ns`.
-/

namespace Rnet.Lib

/-! ## Big-endian numbers -/

/-- The last `k` base-256 digits of `n`, most significant first. -/
def beBytes : Nat → Nat → List UInt8
  | 0, _ => []
  | k + 1, n => beBytes k (n / 256) ++ [UInt8.ofNat n]

/-- The number that big-endian bytes stand for. -/
def ofBe (bs : List UInt8) : Nat := bs.foldl (fun n b => n * 256 + b.toNat) 0

@[simp] theorem length_beBytes (k n : Nat) : (beBytes k n).length = k := by
  induction k generalizing n with
  | zero => rfl
  | succ k ih =>
    unfold beBytes
    rw [List.length_append, ih, List.length_singleton]

theorem ofBe_concat (bs : List UInt8) (b : UInt8) :
    ofBe (bs ++ [b]) = ofBe bs * 256 + b.toNat := by
  unfold ofBe
  rw [List.foldl_append]
  rfl

/-- Reading back gives the number cut to `k` bytes. -/
theorem ofBe_beBytes (k n : Nat) : ofBe (beBytes k n) = n % 256 ^ k := by
  induction k generalizing n with
  | zero =>
    rw [Nat.pow_zero, Nat.mod_one]
    rfl
  | succ k ih =>
    unfold beBytes
    have hb : (UInt8.ofNat n).toNat = n % 256 := UInt8.toNat_ofNat'
    rw [ofBe_concat, ih, hb, show 256 ^ (k + 1) = 256 * 256 ^ k from Nat.pow_succ', Nat.mod_mul]
    omega

theorem ofBe_beBytes_of_lt {k n : Nat} (h : n < 256 ^ k) : ofBe (beBytes k n) = n := by
  rw [ofBe_beBytes, Nat.mod_eq_of_lt h]

theorem ofBe_lt (bs : List UInt8) : ofBe bs < 256 ^ bs.length := by
  induction bs using List.reverseRec with
  | nil => exact Nat.one_pos
  | append_singleton bs b ih =>
    rw [ofBe_concat, List.length_append, List.length_singleton, Nat.pow_succ]
    have := b.toNat_lt
    omega

/-- Every list of `k` bytes is the form of the number it stands for. -/
theorem beBytes_ofBe (bs : List UInt8) : beBytes bs.length (ofBe bs) = bs := by
  induction bs using List.reverseRec with
  | nil => rfl
  | append_singleton bs b ih =>
    rw [List.length_append, List.length_singleton]
    unfold beBytes
    have hb := b.toNat_lt
    have hdiv : ofBe (bs ++ [b]) / 256 = ofBe bs := by
      rw [ofBe_concat]
      omega
    have hlast : UInt8.ofNat (ofBe (bs ++ [b])) = b := by
      apply UInt8.toNat_inj.mp
      rw [UInt8.toNat_ofNat', ofBe_concat]
      omega
    rw [hdiv, hlast, ih]

/-! ## Length-prefixed words -/

/-- A word behind its `k`-byte length. -/
def frame (k : Nat) (m : List UInt8) : List UInt8 := beBytes k m.length ++ m

theorem length_frame (k : Nat) (m : List UInt8) : (frame k m).length = k + m.length := by
  unfold frame
  rw [List.length_append, length_beBytes]

/-- A word is determined at the front of any stream, when its length fits `k` bytes. -/
theorem frame_append_inj {k : Nat} {m n r r' : List UInt8} (hm : m.length < 256 ^ k)
    (hn : n.length < 256 ^ k) (h : frame k m ++ r = frame k n ++ r') : m = n ∧ r = r' := by
  unfold frame at h
  rw [List.append_assoc, List.append_assoc] at h
  obtain ⟨hlen, hrest⟩ := List.append_inj h (by rw [length_beBytes, length_beBytes])
  have hmn : m.length = n.length := by
    rw [← ofBe_beBytes_of_lt hm, ← ofBe_beBytes_of_lt hn, hlen]
  exact List.append_inj hrest hmn

/-- Streams of words determine the words, as far as they go. -/
theorem prefix_of_frames_prefix {k : Nat} (hk : 0 < k) :
    ∀ {ms ns : List (List UInt8)}, (∀ m ∈ ms, m.length < 256 ^ k) →
      (∀ n ∈ ns, n.length < 256 ^ k) → ms.flatMap (frame k) <+: ns.flatMap (frame k) →
      ms <+: ns := by
  intro ms
  induction ms with
  | nil => intro ns _ _ _; exact List.nil_prefix
  | cons m ms ih =>
    intro ns hm hn h
    cases ns with
    | nil =>
      -- the first word is not empty, so the other stream is not either
      have hlen := h.length_le
      rw [List.flatMap_cons, List.length_append, length_frame, List.flatMap_nil,
        List.length_nil] at hlen
      omega
    | cons n ns =>
      obtain ⟨r, hr⟩ := h
      rw [List.flatMap_cons, List.flatMap_cons, List.append_assoc] at hr
      obtain ⟨rfl, hrest⟩ := frame_append_inj (hm m (List.mem_cons_self ..))
        (hn n (List.mem_cons_self ..)) hr
      rw [List.cons_prefix_cons]
      exact ⟨rfl, ih (fun x hx => hm x (List.mem_cons_of_mem _ hx))
        (fun x hx => hn x (List.mem_cons_of_mem _ hx)) ⟨r, hrest⟩⟩

end Rnet.Lib
