import Rnet.Lib.System
import Mathlib.Algebra.GroupWithZero.Nat

/-!
# Runs that come to an end

A measure that every step of some kind brings down bounds the number of these steps.

> `exec_length_le`: actions of the kind that are taken from a state are no more than its measure.

Where a state has a list of parts, its measure is a sum, and `sum_map_set` is what another part in
the place of one does to it.
-/

namespace Rnet.Lib

universe u v

namespace System

variable {σ : Type u} {α : Type v}

/-- No action of the kind `P` can be taken. -/
def Stuck (M : System σ α) (P : α → Prop) (s : σ) : Prop := ∀ a, P a → M.step s a = none

variable {M : System σ α} {C : σ → α → Prop} {P : α → Prop} {I : σ → Prop}

/-- **The measure rule.** -/
theorem exec_length_le [∀ s a, Decidable (C s a)] (μ : σ → Nat)
    (hstep : ∀ s a s', I s → C s a → P a → M.step s a = some s' → I s' ∧ μ s' < μ s) :
    ∀ (as : List α) {s s' : σ}, I s → (∀ a ∈ as, P a) → M.exec C s as = some s' →
      as.length + μ s' ≤ μ s := by
  intro as
  induction as with
  | nil =>
    intro s s' _ _ he
    simp only [exec, Option.some.injEq] at he
    obtain rfl := he
    exact Nat.le_of_eq (Nat.zero_add _)
  | cons a as ih =>
    intro s s' hI hP he
    obtain ⟨ha, has⟩ := List.forall_mem_cons.mp hP
    rw [exec] at he
    by_cases hc : C s a
    · rw [if_pos hc] at he
      obtain ⟨s₁, hs₁, hrest⟩ := Option.bind_eq_some_iff.mp he
      obtain ⟨hI₁, hlt⟩ := hstep s a s₁ hI hc ha hs₁
      have := ih hI₁ has hrest
      rw [List.length_cons]
      omega
    · rw [if_neg hc] at he
      simp at he

end System

/-- An item of a list is replaced. -/
theorem sum_map_set {β : Type u} (f : β → Nat) {l : List β} {i : Nat} {a : β} (b : β)
    (h : l[i]? = some a) : ((l.set i b).map f).sum + f a = (l.map f).sum + f b := by
  induction l generalizing i with
  | nil => simp at h
  | cons x l ih =>
    cases i with
    | zero =>
      obtain rfl : x = a := by simpa using h
      simp only [List.set_cons_zero, List.map_cons, List.sum_cons]
      omega
    | succ i =>
      have hi := ih (i := i) (by simpa using h)
      simp only [List.set_cons_succ, List.map_cons, List.sum_cons]
      omega

end Rnet.Lib
