import Mathlib.Data.List.Basic

/-!
# Calls that carry a key, and what the calls of other keys can do

A component answers calls, each with a key, and its state holds a part for every key,
the key's view. It is isolated when a call leaves the views of other keys alone and its
answer depends on the view of its own key only.

> `answers_filter`: then the answers to the calls of a key are those that these calls
> alone get, from any state in which the key has the same view.
-/

namespace Rnet.Lib

universe u v w x y

/-- A component with keyed calls. -/
structure Keyed (σ : Type u) (α : Type v) (β : Type w) (κ : Type x) (ν : Type y) where
  call : σ → α → σ × β
  key : α → κ
  view : κ → σ → ν

namespace Keyed

variable {σ : Type u} {α : Type v} {β : Type w} {κ : Type x} {ν : Type y}

/-- What a call does to the view of its key and what it answers is a function `respond` of that
view, and it does nothing to the views of other keys. -/
structure Isolated (M : Keyed σ α β κ ν) (respond : ν → α → ν × β) : Prop where
  own : ∀ s a, (M.view (M.key a) (M.call s a).1, (M.call s a).2) = respond (M.view (M.key a) s) a
  other : ∀ s a k, M.key a ≠ k → M.view k (M.call s a).1 = M.view k s

/-- The state after some calls. -/
def after (M : Keyed σ α β κ ν) (s : σ) (as : List α) : σ :=
  as.foldl (fun s a => (M.call s a).1) s

/-- Calls with their answers. -/
def answers (M : Keyed σ α β κ ν) : σ → List α → List (α × β)
  | _, [] => []
  | s, a :: as => (a, (M.call s a).2) :: answers M (M.call s a).1 as

@[simp] theorem answers_cons (M : Keyed σ α β κ ν) (s : σ) (a : α) (as : List α) :
    M.answers s (a :: as) = (a, (M.call s a).2) :: M.answers (M.call s a).1 as := rfl

variable {M : Keyed σ α β κ ν} {respond : ν → α → ν × β} [DecidableEq κ]

/-- The view of a key after some calls: only its own calls count. -/
theorem Isolated.view_after (h : M.Isolated respond) (k : κ) (as : List α) :
    ∀ s, M.view k (M.after s as)
      = (as.filter (M.key · = k)).foldl (fun v a => (respond v a).1) (M.view k s) := by
  induction as with
  | nil => intro s; rfl
  | cons a as ih =>
    intro s
    show M.view k (M.after (M.call s a).1 as) = _
    rw [ih]
    by_cases hk : M.key a = k
    · rw [List.filter_cons_of_pos (by simpa using hk), List.foldl_cons]
      have hown := congrArg Prod.fst (h.own s a)
      rw [hk] at hown
      rw [← hown]
    · rw [List.filter_cons_of_neg (by simpa using hk), h.other s a k hk]

/-- **Isolation of whole runs.** -/
theorem Isolated.answers_filter (h : M.Isolated respond) (k : κ) (as : List α) :
    ∀ s t, M.view k s = M.view k t →
      (M.answers s as).filter (fun r => M.key r.1 = k) = M.answers t (as.filter (M.key · = k)) := by
  induction as with
  | nil => intro s t _; rfl
  | cons a as ih =>
    intro s t hst
    rw [answers_cons]
    by_cases hk : M.key a = k
    · subst hk
      have hs := h.own s a
      rw [hst, ← h.own t a] at hs
      obtain ⟨hview, hanswer⟩ := Prod.mk.injEq .. ▸ hs
      rw [List.filter_cons_of_pos (by simp), List.filter_cons_of_pos (by simp), answers_cons,
        hanswer, ih _ _ hview]
    · rw [List.filter_cons_of_neg (by simpa using hk), List.filter_cons_of_neg (by simpa using hk)]
      exact ih _ _ ((h.other s a k hk).trans hst)

end Keyed

end Rnet.Lib
