import Rnet.Lib.System

/-!
# Refinement with steps that do not show

A system refines another one along a view of its states, while an invariant holds, if each of its
steps either leaves the view alone and cannot be observed, or is matched by a step between the
views that looks the same. The two may have different actions, of which `seen` and `shown` say
what can be observed.

> `Refinement.run`: every run is matched by a run between the views with the same observations.
-/

namespace Rnet.Lib

universe u v w x y

namespace System

/-- `N` refines `M` along `view`. -/
structure Refinement {σ : Type u} {τ : Type w} {α : Type v} {β : Type x} {γ : Type y}
    (M : System σ α) (N : System τ β) (C : σ → α → Prop) (D : τ → β → Prop)
    (seen : α → Option γ) (shown : β → Option γ) where
  view : τ → σ
  Inv : τ → Prop
  start : ∀ t, N.init t → Inv t ∧ M.init (view t)
  keep : ∀ t b t', Inv t → D t b → N.step t b = some t' → Inv t'
  step : ∀ t b t', Inv t → D t b → N.step t b = some t' →
    (shown b = none ∧ view t' = view t) ∨
      ∃ a, seen a = shown b ∧ C (view t) a ∧ M.step (view t) a = some (view t')

variable {σ : Type u} {τ : Type w} {α : Type v} {β : Type x} {γ : Type y}
variable {M : System σ α} {N : System τ β} {C : σ → α → Prop} {D : τ → β → Prop}
variable {seen : α → Option γ} {shown : β → Option γ}

/-- **A refinement lifts to runs.** -/
theorem Refinement.run (R : Refinement M N C D seen shown) {bs : List β} {t : τ}
    (h : N.RunUnder D bs t) :
    R.Inv t ∧ ∃ as, M.RunUnder C as (R.view t) ∧ as.filterMap seen = bs.filterMap shown := by
  induction h with
  | nil hi =>
    obtain ⟨hI, hM⟩ := R.start _ hi
    exact ⟨hI, [], .nil hM, rfl⟩
  | @snoc bs t t' b hb hD hs ih =>
    obtain ⟨hI, as, hrun, hobs⟩ := ih
    refine ⟨R.keep t b t' hI hD hs, ?_⟩
    rw [List.filterMap_append]
    rcases R.step t b t' hI hD hs with ⟨hnone, hview⟩ | ⟨a, hsame, hC, hstep⟩
    · refine ⟨as, ?_, ?_⟩
      · rw [hview]
        exact hrun
      · rw [hobs, List.filterMap_cons_none hnone, List.filterMap_nil, List.append_nil]
    · refine ⟨as ++ [a], hrun.snoc hC hstep, ?_⟩
      rw [List.filterMap_append, hobs, List.filterMap_cons, List.filterMap_cons, hsame]
      rfl

end System

end Rnet.Lib
