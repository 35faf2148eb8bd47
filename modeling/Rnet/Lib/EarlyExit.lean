import Mathlib.Data.List.Infix
import Mathlib.Data.List.Nodup

/-!
# Loops that return at the first item they do not know

A loop takes the items of a list one after the other off a set, and returns at the first
one that is not in the set when its turn comes, because it never was or because it has
been taken before. The items behind that one are not looked at.

> `taken_all_iff`: the loop has taken every listed item that there was to take exactly if
> nothing is left behind the item it returned at.
-/

namespace Rnet.Lib

universe u

variable {α : Type u} [DecidableEq α]

/-- The items that the loop takes, in the order of the list. -/
def taken (known : α → Bool) : List α → List α
  | [] => []
  | x :: xs => if known x then x :: taken (fun y => known y && y ≠ x) xs else []

theorem taken_cons_of_pos {known : α → Bool} {x : α} (h : known x = true) (xs : List α) :
    taken known (x :: xs) = x :: taken (fun y => known y && y ≠ x) xs := by
  rw [taken, if_pos h]

theorem taken_cons_of_neg {known : α → Bool} {x : α} (h : known x = false) (xs : List α) :
    taken known (x :: xs) = [] := by
  rw [taken, h]
  rfl

theorem prefix_taken (known : α → Bool) (xs : List α) : taken known xs <+: xs := by
  induction xs generalizing known with
  | nil => exact List.prefix_rfl
  | cons x xs ih =>
    cases h : known x with
    | false =>
      rw [taken_cons_of_neg h]
      exact List.nil_prefix
    | true =>
      rw [taken_cons_of_pos h]
      exact List.cons_prefix_cons.mpr ⟨rfl, ih _⟩

/-- Only items of the set are taken. -/
theorem known_of_mem_taken {known : α → Bool} {xs : List α} {x : α} (hx : x ∈ taken known xs) :
    known x = true := by
  induction xs generalizing known with
  | nil => exact absurd hx List.not_mem_nil
  | cons y xs ih =>
    cases h : known y with
    | false =>
      rw [taken_cons_of_neg h] at hx
      exact absurd hx List.not_mem_nil
    | true =>
      rw [taken_cons_of_pos h] at hx
      rcases List.mem_cons.mp hx with rfl | hx
      · exact h
      · exact (Bool.and_eq_true_iff.mp (ih hx)).1

/-- No item is taken twice. -/
theorem taken_nodup (known : α → Bool) (xs : List α) : (taken known xs).Nodup := by
  induction xs generalizing known with
  | nil => exact List.nodup_nil
  | cons x xs ih =>
    cases h : known x with
    | false =>
      rw [taken_cons_of_neg h]
      exact List.nodup_nil
    | true =>
      rw [taken_cons_of_pos h, List.nodup_cons]
      refine ⟨fun hx => ?_, ih _⟩
      have hknown := known_of_mem_taken hx
      exact absurd rfl (of_decide_eq_true (Bool.and_eq_true_iff.mp hknown).2)

/-- The loop returns at `x`, after it has taken `before`: these are different items of the
set, and `x` is not in it any more. -/
structure ReturnsAt (known : α → Bool) (before : List α) (x : α) : Prop where
  nodup : before.Nodup
  mem : ∀ b ∈ before, known b = true
  stop : known x = false ∨ x ∈ before

/-- What the loop has taken where it returns. -/
theorem taken_of_returnsAt {known : α → Bool} {before : List α} {x : α}
    (h : ReturnsAt known before x) (rest : List α) :
    taken known (before ++ x :: rest) = before := by
  induction before generalizing known with
  | nil => exact taken_cons_of_neg (h.stop.resolve_right List.not_mem_nil) rest
  | cons b before ih =>
    obtain ⟨hb, hnodup⟩ := List.nodup_cons.mp h.nodup
    rw [List.cons_append, taken_cons_of_pos (h.mem b (List.mem_cons_self ..)), ih]
    refine ⟨hnodup, fun y hy => ?_, ?_⟩
    · have hne : y ≠ b := fun he => hb (he ▸ hy)
      rw [h.mem y (List.mem_cons_of_mem _ hy), decide_eq_true hne]
      rfl
    · by_cases hx : x = b
      · left
        rw [hx]
        simp
      · rcases h.stop with hs | hs
        · left
          rw [hs]
          rfl
        · exact Or.inr ((List.mem_cons.mp hs).resolve_left hx)

/-- The loop takes the whole list, or returns at one of its items. -/
theorem taken_cases (known : α → Bool) (xs : List α) :
    taken known xs = xs ∨
      ∃ before x rest, xs = before ++ x :: rest ∧ ReturnsAt known before x := by
  induction xs generalizing known with
  | nil => exact Or.inl rfl
  | cons y xs ih =>
    cases h : known y with
    | false => exact Or.inr ⟨[], y, xs, rfl, List.nodup_nil, by simp, Or.inl h⟩
    | true =>
      rw [taken_cons_of_pos h]
      rcases ih (fun z => known z && z ≠ y) with hall | ⟨before, x, rest, rfl, hret⟩
      · left
        rw [hall]
      · right
        refine ⟨y :: before, x, rest, rfl, List.nodup_cons.mpr ⟨fun hy => ?_, hret.nodup⟩, ?_, ?_⟩
        · have := (Bool.and_eq_true_iff.mp (hret.mem y hy)).2
          exact absurd rfl (of_decide_eq_true this)
        · intro b hb
          rcases List.mem_cons.mp hb with rfl | hb
          · exact h
          · exact (Bool.and_eq_true_iff.mp (hret.mem b hb)).1
        · rcases hret.stop with hs | hs
          · by_cases hx : x = y
            · exact Or.inr (hx ▸ List.mem_cons_self ..)
            · rw [decide_eq_true hx, Bool.and_true] at hs
              exact Or.inl hs
          · exact Or.inr (List.mem_cons_of_mem _ hs)

/-- Behind the item where the loop returns there is nothing that `left` still holds, but for
what it has taken. -/
def NothingLeft (known : α → Bool) (left : α → Prop) (xs : List α) : Prop :=
  ∀ before x rest, xs = before ++ x :: rest → ReturnsAt known before x →
    ∀ y ∈ x :: rest, y ∈ before ∨ ¬ left y

/-- **The exact condition** for a loop with an early return to have taken every listed item
that there was to take. -/
theorem taken_all_iff (known : α → Bool) (left : α → Prop) (xs : List α) :
    (∀ y ∈ xs, y ∈ taken known xs ∨ ¬ left y) ↔ NothingLeft known left xs := by
  constructor
  · intro h before x rest hxs hret y hy
    subst hxs
    have := h y (List.mem_append_right _ hy)
    rwa [taken_of_returnsAt hret] at this
  · intro h y hy
    rcases taken_cases known xs with hall | ⟨before, x, rest, rfl, hret⟩
    · left
      rw [hall]
      exact hy
    · rw [taken_of_returnsAt hret]
      rcases List.mem_append.mp hy with hb | hr
      · exact Or.inl hb
      · exact h before x rest rfl hret y hr

end Rnet.Lib
