import Mathlib.Data.List.Basic

/-!
# Transition systems with guarded runs

A `System` is a set of initial states and a partial step function: an action
either fires (`some s'`) or is not enabled (`none`). All nondeterminism sits in
the choice of the action, so a concrete run is evaluated by `exec` while the
theorems quantify over every list of actions.

`RunUnder C as s` says that the actions `as`, taken in order from an initial
state, end in `s`, and that the guard `C` held of the state and the action at
every step. `Run` is the case without a guard. Two facts are packaged once:

> `RunUnder.invariant`: what holds initially and is kept by every guarded step
> holds in every state a guarded run reaches.

> `RunUnder.simulate`: a step-by-step simulation lifts to whole runs.
-/

namespace Rnet.Lib

universe u v w x

/-- A transition system with an executable step. -/
structure System (σ : Type u) (α : Type v) where
  init : σ → Prop
  step : σ → α → Option σ

namespace System

variable {σ : Type u} {τ : Type w} {α : Type v}

/-- The runs of `M` all of whose steps meet the guard `C`, with the list of
actions taken. -/
inductive RunUnder (M : System σ α) (C : σ → α → Prop) : List α → σ → Prop
  | nil {s : σ} (h : M.init s) : RunUnder M C [] s
  | snoc {as : List α} {s s' : σ} {a : α} (h : RunUnder M C as s) (hc : C s a)
      (hs : M.step s a = some s') : RunUnder M C (as ++ [a]) s'

/-- The runs of `M`, with no guard on the steps. -/
abbrev Run (M : System σ α) : List α → σ → Prop :=
  M.RunUnder fun _ _ => True

/-- The states that guarded runs reach. -/
def ReachableUnder (M : System σ α) (C : σ → α → Prop) (s : σ) : Prop :=
  ∃ as, M.RunUnder C as s

/-- The states that runs reach. -/
abbrev Reachable (M : System σ α) (s : σ) : Prop :=
  M.ReachableUnder (fun _ _ => True) s

/-- Take a list of actions in order, checking the guard; `none` if one of them is not
enabled or not allowed. -/
def exec (M : System σ α) (C : σ → α → Prop) [∀ s a, Decidable (C s a)] : σ → List α → Option σ
  | s, [] => some s
  | s, a :: as => if C s a then (M.step s a).bind fun s' => exec M C s' as else none

/-- What `f` reads off each action, in the order of the actions. -/
def gather {β : Type x} (M : System σ α) (f : σ → α → List β) : σ → List α → List β
  | _, [] => []
  | s, a :: as => f s a ++ ((M.step s a).map fun s' => gather M f s' as).getD []

/-- No state that the actions pass through is bad. -/
def Avoids (M : System σ α) (bad : σ → Prop) : σ → List α → Prop
  | s, [] => ¬ bad s
  | s, a :: as => ¬ bad s ∧ ∀ s', M.step s a = some s' → Avoids M bad s' as

/-- Every step that the actions take meets the guard. -/
def Guarded (M : System σ α) (C : σ → α → Prop) : σ → List α → Prop
  | _, [] => True
  | s, a :: as => ∀ s', M.step s a = some s' → C s a ∧ Guarded M C s' as

variable {M : System σ α} {N : System τ α} {C : σ → α → Prop}

/-- A weaker guard admits at least the same runs. -/
theorem RunUnder.mono {D : σ → α → Prop} (hCD : ∀ s a, C s a → D s a) {as : List α} {s : σ}
    (h : M.RunUnder C as s) : M.RunUnder D as s := by
  induction h with
  | nil h0 => exact .nil h0
  | snoc _ hc hs ih => exact .snoc ih (hCD _ _ hc) hs

/-- Forget the guard. -/
theorem RunUnder.run {as : List α} {s : σ} (h : M.RunUnder C as s) : M.Run as s :=
  h.mono fun _ _ _ => trivial

/-- **The invariant rule**, with the actions taken so far in view. -/
theorem RunUnder.invariant_log (I : List α → σ → Prop) (h0 : ∀ s, M.init s → I [] s)
    (hstep : ∀ as s a s', I as s → C s a → M.step s a = some s' → I (as ++ [a]) s')
    {as : List α} {s : σ} (h : M.RunUnder C as s) : I as s := by
  induction h with
  | nil hi => exact h0 _ hi
  | snoc _ hc hs ih => exact hstep _ _ _ _ ih hc hs

/-- **The invariant rule**: initial, and kept by every guarded step. -/
theorem RunUnder.invariant (I : σ → Prop) (h0 : ∀ s, M.init s → I s)
    (hstep : ∀ s a s', I s → C s a → M.step s a = some s' → I s')
    {as : List α} {s : σ} (h : M.RunUnder C as s) : I s :=
  h.invariant_log (fun _ => I) h0 fun _ => hstep

/-- The invariant rule for reachable states. -/
theorem ReachableUnder.invariant (I : σ → Prop) (h0 : ∀ s, M.init s → I s)
    (hstep : ∀ s a s', I s → C s a → M.step s a = some s' → I s')
    {s : σ} (h : M.ReachableUnder C s) : I s := by
  obtain ⟨as, hr⟩ := h
  exact hr.invariant I h0 hstep

theorem reachableUnder_init {s : σ} (h : M.init s) : M.ReachableUnder C s :=
  ⟨[], .nil h⟩

theorem ReachableUnder.step {s s' : σ} {a : α} (h : M.ReachableUnder C s) (hc : C s a)
    (hs : M.step s a = some s') : M.ReachableUnder C s' := by
  obtain ⟨as, hr⟩ := h
  exact ⟨as ++ [a], hr.snoc hc hs⟩

/-- Actions replayed from the end of a run extend it. -/
theorem RunUnder.append_exec [∀ s a, Decidable (C s a)] :
    ∀ (bs : List α) {s s' : σ} {as : List α}, M.RunUnder C as s → M.exec C s bs = some s' →
      M.RunUnder C (as ++ bs) s' := by
  intro bs
  induction bs with
  | nil =>
    intro s s' as h he
    simp only [exec, Option.some.injEq] at he
    rw [List.append_nil, ← he]
    exact h
  | cons b bs ih =>
    intro s s' as h he
    rw [exec] at he
    by_cases hc : C s b
    · rw [if_pos hc] at he
      obtain ⟨s₁, hs₁, hrest⟩ := Option.bind_eq_some_iff.mp he
      have := ih (h.snoc hc hs₁) hrest
      rwa [List.append_assoc] at this
    · rw [if_neg hc] at he
      simp at he

/-- A replayed list of actions is a run. -/
theorem runUnder_of_exec [∀ s a, Decidable (C s a)] {s s' : σ} {as : List α} (h : M.init s)
    (he : M.exec C s as = some s') : M.RunUnder C as s' :=
  RunUnder.append_exec as (.nil h) he

/-- **The invariant rule** for a replay, with what was gathered from it in view. -/
theorem exec_gather {β : Type x} [∀ s a, Decidable (C s a)] {f : σ → α → List β}
    (I : List β → σ → Prop)
    (hstep : ∀ l s a s', I l s → C s a → M.step s a = some s' → I (l ++ f s a) s') :
    ∀ (as : List α) {l : List β} {s s' : σ}, I l s → M.exec C s as = some s' →
      I (l ++ M.gather f s as) s' := by
  intro as
  induction as with
  | nil =>
    intro l s s' hI he
    simp only [exec, Option.some.injEq] at he
    rw [gather, List.append_nil, ← he]
    exact hI
  | cons a as ih =>
    intro l s s' hI he
    rw [exec] at he
    by_cases hc : C s a
    · rw [if_pos hc] at he
      obtain ⟨s₁, hs₁, hrest⟩ := Option.bind_eq_some_iff.mp he
      have := ih (hstep l s a s₁ hI hc hs₁) hrest
      rw [gather, hs₁, Option.map_some, Option.getD_some, ← List.append_assoc]
      exact this
    · rw [if_neg hc] at he
      simp at he

/-- **The exact guard.** If a step from a good state leads to a bad one exactly when it breaks
the guard, then a list of actions avoids the bad states exactly when its steps meet the guard; `P`
is what may be assumed of the steps. -/
theorem avoids_iff_guarded_under {bad I : σ → Prop} {P : σ → α → Prop}
    (hI : ∀ s a s', I s → P s a → M.step s a = some s' → I s')
    (hbad : ∀ s a s', I s → P s a → ¬ bad s → M.step s a = some s' → (bad s' ↔ ¬ C s a)) :
    ∀ (as : List α) (s : σ), I s → ¬ bad s → M.Guarded P s as →
      (M.Avoids bad s as ↔ M.Guarded C s as) := by
  intro as
  induction as with
  | nil =>
    intro s _ hs _
    exact ⟨fun _ => trivial, fun _ => hs⟩
  | cons a as ih =>
    intro s hs hgood hP
    refine ⟨fun ⟨_, h⟩ s' hs' => ?_, fun h => ⟨hgood, fun s' hs' => ?_⟩⟩
    · obtain ⟨hPa, hPs⟩ := hP s' hs'
      have hav := h s' hs'
      have hgood' : ¬ bad s' := by
        cases as with
        | nil => exact hav
        | cons b bs => exact hav.1
      exact ⟨not_not.mp fun hC => hgood' ((hbad s a s' hs hPa hgood hs').mpr hC),
        (ih s' (hI s a s' hs hPa hs') hgood' hPs).mp hav⟩
    · obtain ⟨hPa, hPs⟩ := hP s' hs'
      obtain ⟨hC, hrest⟩ := h s' hs'
      have hgood' : ¬ bad s' := fun hb => (hbad s a s' hs hPa hgood hs').mp hb hC
      exact (ih s' (hI s a s' hs hPa hs') hgood' hPs).mpr hrest

/-- The exact guard, with an invariant that every step keeps. -/
theorem avoids_iff_guarded_of {bad I : σ → Prop} {P : σ → α → Prop}
    (hI : ∀ s a s', I s → M.step s a = some s' → I s')
    (hbad : ∀ s a s', I s → P s a → ¬ bad s → M.step s a = some s' → (bad s' ↔ ¬ C s a)) :
    ∀ (as : List α) (s : σ), I s → ¬ bad s → M.Guarded P s as →
      (M.Avoids bad s as ↔ M.Guarded C s as) :=
  avoids_iff_guarded_under (fun s a s' h _ => hI s a s' h) hbad

/-- A guard that each of the actions meets in every state. -/
theorem guarded_of_mem : ∀ (as : List α), (∀ a ∈ as, ∀ s, C s a) → ∀ s : σ, M.Guarded C s as := by
  intro as
  induction as with
  | nil => exact fun _ _ => trivial
  | cons a as ih =>
    exact fun h s s' _ => ⟨h a (List.mem_cons_self ..) s,
      ih (fun b hb => h b (List.mem_cons_of_mem _ hb)) s'⟩

/-- The exact guard, with nothing assumed of the steps. -/
theorem avoids_iff_guarded {bad I : σ → Prop}
    (hI : ∀ s a s', I s → M.step s a = some s' → I s')
    (hbad : ∀ s a s', I s → ¬ bad s → M.step s a = some s' → (bad s' ↔ ¬ C s a))
    (as : List α) (s : σ) (hs : I s) (hgood : ¬ bad s) :
    M.Avoids bad s as ↔ M.Guarded C s as :=
  avoids_iff_guarded_of (P := fun _ _ => True) hI (fun s a s' hi _ => hbad s a s' hi) as s hs hgood
    (guarded_of_mem as (fun _ _ _ => trivial) s)

/-- **The invariant rule** for guards: where one is met at every step, so is another that follows
from it and from an invariant. -/
theorem guarded_of_invariant {D : σ → α → Prop} (I : σ → Prop)
    (hstep : ∀ s a s', I s → C s a → M.step s a = some s' → I s' ∧ D s a) :
    ∀ (as : List α) (s : σ), I s → M.Guarded C s as → M.Guarded D s as := by
  intro as
  induction as with
  | nil => exact fun _ _ _ => trivial
  | cons a as ih =>
    intro s hI h s' hs
    obtain ⟨hC, hrest⟩ := h s' hs
    obtain ⟨hI', hD⟩ := hstep s a s' hI hC hs
    exact ⟨hD, ih s' hI' hrest⟩

/-- A replay checks the guard. -/
theorem guarded_of_exec [∀ s a, Decidable (C s a)] {s' : σ} :
    ∀ (as : List α) {s : σ}, M.exec C s as = some s' → M.Guarded C s as := by
  intro as
  induction as with
  | nil => exact fun _ => trivial
  | cons a as ih =>
    intro s he s₁ hs₁
    rw [exec] at he
    by_cases hc : C s a
    · rw [if_pos hc, hs₁] at he
      exact ⟨hc, ih he⟩
    · rw [if_neg hc] at he
      simp at he

/-- The guard of the last step, after a replay of the ones before it. -/
theorem Guarded.last {D : σ → α → Prop} [∀ s a, Decidable (D s a)] {a : α} {s' s'' : σ} :
    ∀ (as : List α) {s : σ}, M.Guarded C s (as ++ [a]) → M.exec D s as = some s' →
      M.step s' a = some s'' → C s' a := by
  intro as
  induction as with
  | nil =>
    intro s h he hs
    simp only [exec, Option.some.injEq] at he
    rw [← he] at hs ⊢
    exact (h s'' hs).1
  | cons b as ih =>
    intro s h he hs
    rw [exec] at he
    by_cases hd : D s b
    · rw [if_pos hd] at he
      obtain ⟨s₁, hs₁, hrest⟩ := Option.bind_eq_some_iff.mp he
      exact ih (h s₁ hs₁).2 hrest hs
    · rw [if_neg hd] at he
      simp at he

/-- Guards that agree on the steps that can be taken agree on every list of actions. -/
theorem guarded_congr {D : σ → α → Prop}
    (h : ∀ s a s', M.step s a = some s' → (C s a ↔ D s a)) :
    ∀ (as : List α) (s : σ), M.Guarded C s as ↔ M.Guarded D s as := by
  intro as
  induction as with
  | nil => intro s; exact Iff.rfl
  | cons a as ih =>
    intro s
    rw [Guarded, Guarded]
    refine forall_congr' fun s' => forall_congr' fun hs => ?_
    rw [h s a s' hs, ih s']

section View

variable {D : τ → α → Prop} [∀ s a, Decidable (C s a)] [∀ t a, Decidable (D t a)] {g : σ → τ}

/-- A view that commutes with the steps commutes with a replay. -/
theorem exec_view (hstep : ∀ s a, N.step (g s) a = (M.step s a).map g)
    (hguard : ∀ s a, D (g s) a ↔ C s a) :
    ∀ (as : List α) (s : σ), N.exec D (g s) as = (M.exec C s as).map g := by
  intro as
  induction as with
  | nil => intro s; rfl
  | cons a as ih =>
    intro s
    rw [exec, exec]
    by_cases hc : C s a
    · rw [if_pos hc, if_pos ((hguard s a).mpr hc), hstep]
      cases M.step s a with
      | none => rfl
      | some s' => exact ih s'
    · rw [if_neg hc, if_neg fun h => hc ((hguard s a).mp h)]
      rfl

/-- The same is gathered from both. -/
theorem gather_view {β : Type x} {f : σ → α → List β} {f' : τ → α → List β}
    (hstep : ∀ s a, N.step (g s) a = (M.step s a).map g) (hf : ∀ s a, f' (g s) a = f s a) :
    ∀ (as : List α) (s : σ), N.gather f' (g s) as = M.gather f s as := by
  intro as
  induction as with
  | nil => intro s; rfl
  | cons a as ih =>
    intro s
    rw [gather, gather, hf, hstep]
    cases M.step s a with
    | none => rfl
    | some s' => exact congrArg (f s a ++ ·) (ih s')

end View

/-- A simulation of `N` by `M`, step by step and label by label, lifts to runs. -/
theorem RunUnder.simulate {D : τ → α → Prop} (R : σ → τ → Prop)
    (hinit : ∀ t, N.init t → ∃ s, M.init s ∧ R s t)
    (hstep : ∀ s t a t', R s t → D t a → N.step t a = some t' →
      ∃ s', M.step s a = some s' ∧ C s a ∧ R s' t')
    {as : List α} {t : τ} (h : N.RunUnder D as t) : ∃ s, M.RunUnder C as s ∧ R s t := by
  induction h with
  | nil hi =>
    obtain ⟨s, hs, hR⟩ := hinit _ hi
    exact ⟨s, .nil hs, hR⟩
  | snoc _ hc hs ih =>
    obtain ⟨s, hrun, hR⟩ := ih
    obtain ⟨s', hs', hC, hR'⟩ := hstep _ _ _ _ hR hc hs
    exact ⟨s', .snoc hrun hC hs', hR'⟩

end System

end Rnet.Lib
