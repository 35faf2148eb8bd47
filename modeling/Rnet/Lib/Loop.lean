import Mathlib.Data.List.Basic
import Mathlib.Data.List.FinRange

/-!
# Loops whose rounds may fail

`xs.foldlM f s` in `Option` is a loop over `xs` that carries a state, and in which a round
that fails ends the loop. The rules here lead from one round to all of them. An invariant
may speak of the items that the loop has handled so far.

> `foldlM_iff`: the loop returns exactly if every round does, each one judged by its item and
> the items before it.

> `foldlM_filter`: items whose rounds change nothing can be left out.

A list in which every item is judged so is `Justified`, also where no loop walks through it.
-/

namespace Rnet.Lib

universe u v

variable {σ : Type u} {α : Type v} {f : σ → α → Option σ}

/-- The first round, and the loop over the other items. -/
theorem foldlM_cons_some {a : α} {xs : List α} {s s' : σ} :
    (a :: xs).foldlM f s = some s' ↔ ∃ s₁, f s a = some s₁ ∧ xs.foldlM f s₁ = some s' := by
  rw [List.foldlM_cons, Option.bind_eq_bind, Option.bind_eq_some_iff]

/-- **The total rule.** A loop whose rounds all return and keep `I` returns and keeps `I`. -/
theorem foldlM_of_invariant (I : σ → Prop) {xs : List α}
    (hround : ∀ s, I s → ∀ a ∈ xs, ∃ s', f s a = some s' ∧ I s') :
    ∀ s, I s → ∃ s', xs.foldlM f s = some s' ∧ I s' := by
  induction xs with
  | nil => exact fun s hs => ⟨s, rfl, hs⟩
  | cons a xs ih =>
    intro s hs
    obtain ⟨s₁, h₁, hs₁⟩ := hround s hs a (List.mem_cons_self ..)
    obtain ⟨s', h', hs'⟩ := ih (fun t ht b hb => hround t ht b (List.mem_cons_of_mem _ hb)) s₁ hs₁
    exact ⟨s', foldlM_cons_some.mpr ⟨s₁, h₁, h'⟩, hs'⟩

/-- A loop that pushes the result of each round. -/
theorem mapM_of_forall {f : α → Option σ} {P : σ → Prop} :
    ∀ (xs : List α), (∀ a ∈ xs, ∃ s, f a = some s ∧ P s) →
      ∃ ss, xs.mapM f = some ss ∧ ss.length = xs.length ∧ ∀ s ∈ ss, P s := by
  intro xs
  induction xs with
  | nil => exact fun _ => ⟨[], rfl, rfl, by simp⟩
  | cons a xs ih =>
    intro h
    obtain ⟨ha, hxs⟩ := List.forall_mem_cons.mp h
    obtain ⟨s, hs, hP⟩ := ha
    obtain ⟨ss, hss, hlen, hall⟩ := ih hxs
    refine ⟨s :: ss, ?_, ?_, List.forall_mem_cons.mpr ⟨hP, hall⟩⟩
    · rw [List.mapM_cons, hs, hss]
      rfl
    · rw [List.length_cons, List.length_cons, hlen]

/-- **The partial rule.** A loop that returns keeps what its rounds keep when they return. -/
theorem foldlM_keeps (I : σ → Prop) {xs : List α}
    (hround : ∀ s, I s → ∀ a ∈ xs, ∀ s', f s a = some s' → I s') :
    ∀ {s s' : σ}, I s → xs.foldlM f s = some s' → I s' := by
  induction xs with
  | nil =>
    intro s s' hs h
    obtain rfl := Option.some.inj h
    exact hs
  | cons a xs ih =>
    intro s s' hs h
    obtain ⟨s₁, h₁, h'⟩ := foldlM_cons_some.mp h
    exact ih (fun t ht b hb => hround t ht b (List.mem_cons_of_mem _ hb))
      (hround s hs a (List.mem_cons_self ..) s₁ h₁) h'

/-- A loop whose rounds change nothing and check something has checked it for every item. -/
theorem foldlM_fixed {s : σ} {Q : α → Prop} {xs : List α}
    (hround : ∀ a ∈ xs, ∀ t, f s a = some t → t = s ∧ Q a) :
    ∀ t, xs.foldlM f s = some t → t = s ∧ ∀ a ∈ xs, Q a := by
  induction xs with
  | nil =>
    intro t h
    exact ⟨(Option.some.inj h).symm, fun a ha => absurd ha List.not_mem_nil⟩
  | cons a xs ih =>
    intro t h
    obtain ⟨hhead, htail⟩ := List.forall_mem_cons.mp hround
    obtain ⟨u, hu, hrest⟩ := foldlM_cons_some.mp h
    obtain ⟨rfl, hQ⟩ := hhead u hu
    obtain ⟨ht, hall⟩ := ih htail t hrest
    exact ⟨ht, List.forall_mem_cons.mpr ⟨hQ, hall⟩⟩

/-! ## Exact conditions -/

section Exact

variable {I : List α → σ → Prop}

/-- **The exact rule.** When `I` holds behind the items `before`, the round of `a` returns
exactly if `ok before a`, and then `I` holds behind `a` too. -/
theorem foldlM_iff (ok : List α → α → Prop)
    (hround : ∀ before a s, I before s → ((∃ s', f s a = some s') ↔ ok before a) ∧
      ∀ s', f s a = some s' → I (before ++ [a]) s') :
    ∀ (xs : List α) {before : List α} {s : σ}, I before s →
      ((∃ s', xs.foldlM f s = some s') ↔
        ∀ front a rest, xs = front ++ a :: rest → ok (before ++ front) a) ∧
      ∀ s', xs.foldlM f s = some s' → I (before ++ xs) s' := by
  intro xs
  induction xs with
  | nil =>
    intro before s hs
    refine ⟨⟨fun _ front a rest he => absurd he.symm (by simp), fun _ => ⟨s, rfl⟩⟩,
      fun s' h => ?_⟩
    obtain rfl := Option.some.inj h
    rwa [List.append_nil]
  | cons a xs ih =>
    intro before s hs
    obtain ⟨hone, hnext⟩ := hround before a s hs
    constructor
    · constructor
      · intro h front b rest he
        obtain ⟨s', h⟩ := h
        obtain ⟨s₁, h₁, hrest⟩ := foldlM_cons_some.mp h
        cases front with
        | nil =>
          obtain ⟨rfl, -⟩ := List.cons.inj he
          rw [List.append_nil]
          exact hone.mp ⟨s₁, h₁⟩
        | cons c front =>
          rw [List.cons_append] at he
          obtain ⟨rfl, hsplit⟩ := List.cons.inj he
          have := (ih (hnext s₁ h₁)).1.mp ⟨s', hrest⟩ front b rest hsplit
          rwa [List.append_assoc] at this
      · intro hall
        have hfirst := hall [] a xs rfl
        rw [List.append_nil] at hfirst
        obtain ⟨s₁, h₁⟩ := hone.mpr hfirst
        obtain ⟨s', h'⟩ := (ih (hnext s₁ h₁)).1.mpr fun front b rest he => by
          rw [List.append_assoc]
          exact hall (a :: front) b rest (by rw [he]; rfl)
        exact ⟨s', foldlM_cons_some.mpr ⟨s₁, h₁, h'⟩⟩
    · intro s' h
      obtain ⟨s₁, h₁, hrest⟩ := foldlM_cons_some.mp h
      have := (ih (hnext s₁ h₁)).2 s' hrest
      rwa [List.append_assoc] at this

/-- The same with a condition on the item alone, from the start of the loop. -/
theorem foldlM_iff_forall (ok : α → Prop)
    (hround : ∀ before a s, I before s → ((∃ s', f s a = some s') ↔ ok a) ∧
      ∀ s', f s a = some s' → I (before ++ [a]) s')
    (xs : List α) {s : σ} (hs : I [] s) :
    ((∃ s', xs.foldlM f s = some s') ↔ ∀ a ∈ xs, ok a) ∧
      ∀ s', xs.foldlM f s = some s' → I xs s' := by
  obtain ⟨hret, hall⟩ := foldlM_iff (fun _ => ok) hround xs hs
  refine ⟨hret.trans ⟨fun h a ha => ?_, fun h front a rest he => ?_⟩, hall⟩
  · obtain ⟨front, rest, he⟩ := List.append_of_mem ha
    exact h front a rest he
  · exact h a (he ▸ List.mem_append_right _ (List.mem_cons_self ..))

/-- **Idle items.** A loop that returns does the same without the items whose rounds change
nothing. -/
theorem foldlM_filter {p : α → Bool}
    (hround : ∀ before a s, I before s → ∀ s', f s a = some s' →
      I (before ++ [a]) s' ∧ (p a = false → s' = s)) :
    ∀ (xs : List α) {before : List α} {s s' : σ}, I before s → xs.foldlM f s = some s' →
      (xs.filter p).foldlM f s = some s' := by
  intro xs
  induction xs with
  | nil => exact fun _ h => h
  | cons a xs ih =>
    intro before s s' hs h
    obtain ⟨s₁, h₁, hrest⟩ := foldlM_cons_some.mp h
    obtain ⟨hs₁, hidle⟩ := hround before a s hs s₁ h₁
    have htail := ih hs₁ hrest
    cases hp : p a with
    | false =>
      rw [List.filter_cons_of_neg (by rw [hp]; exact Bool.false_ne_true), ← hidle hp]
      exact htail
    | true =>
      rw [List.filter_cons_of_pos hp]
      exact foldlM_cons_some.mpr ⟨s₁, h₁, htail⟩

end Exact

/-! ## Loops over a range -/

/-- A loop over `0..n` whose rounds do what those of a fold over `Fin n` do. -/
theorem foldlM_range_eq {τ : Type v} {n : ℕ} (g : τ → σ) {f : σ → Nat → Option σ}
    {h : τ → Fin n → τ} (I : τ → Prop)
    (hround : ∀ s (i : Fin n), I s → f (g s) i = some (g (h s i)) ∧ I (h s i)) :
    ∀ s, I s → (List.range n).foldlM f (g s) = some (g ((List.finRange n).foldl h s)) := by
  have hlist : ∀ (is : List (Fin n)) (s : τ), I s →
      (is.map Fin.val).foldlM f (g s) = some (g (is.foldl h s)) := by
    intro is
    induction is with
    | nil => exact fun s _ => rfl
    | cons i is ih =>
      intro s hs
      obtain ⟨hf, hI⟩ := hround s i hs
      rw [List.map_cons, List.foldl_cons]
      exact foldlM_cons_some.mpr ⟨_, hf, ih _ hI⟩
  rw [← List.map_coe_finRange_eq_range]
  exact hlist _

/-! ## What comes before -/

/-- Every item is `ok` behind the items before it. -/
def Justified (ok : List α → α → Prop) (xs : List α) : Prop :=
  ∀ front a rest, xs = front ++ a :: rest → ok front a

theorem justified_nil (ok : List α → α → Prop) : Justified ok [] :=
  fun _ _ _ he => absurd he (by simp)

/-- One more item. -/
theorem justified_concat {ok : List α → α → Prop} {xs : List α} {a : α} :
    Justified ok (xs ++ [a]) ↔ Justified ok xs ∧ ok xs a := by
  constructor
  · intro h
    refine ⟨fun front b rest he => ?_, h xs a [] rfl⟩
    exact h front b (rest ++ [a]) (by rw [he, List.append_assoc]; rfl)
  · intro h front b rest he
    obtain ⟨hall, hlast⟩ := h
    rcases List.eq_nil_or_concat rest with rfl | ⟨rest, c, rfl⟩
    · obtain ⟨rfl, hb⟩ := List.append_inj' he rfl
      obtain rfl := List.singleton_inj.mp hb
      exact hlast
    · rw [List.concat_eq_append, ← List.cons_append, ← List.append_assoc] at he
      exact hall front b rest (List.append_inj' he rfl).1

end Rnet.Lib
