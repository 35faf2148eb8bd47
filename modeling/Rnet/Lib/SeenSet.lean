import Mathlib.Data.List.Induction

/-!
# A set of seen keys whose entries expire

A key that is seen gets an entry with the time, unless it has one. A sweep drops the
entries that are more than `ttl` older than itself. `entry ttl k ticks` is the entry of `k`
after the events `ticks`, and an arrival of `k` is accepted when it finds no entry.

> `accepts_iff_spaced`: every arrival of `k` is accepted if and only if between any
> two of them some sweep comes more than `ttl` after the first.
-/

namespace Rnet.Lib.SeenSet

variable {κ : Type*} [DecidableEq κ] (ttl : Nat)

/-- What happens to the set: a key is seen, or the set is swept. -/
inductive Tick (κ : Type*)
  | seen (k : κ) (t : Nat)
  | sweep (t : Nat)

/-- One event, as far as the entry of `k` goes. -/
def entryStep (k : κ) (e : Option Nat) : Tick κ → Option Nat
  | .seen k' t => if k' = k then some (e.getD t) else e
  | .sweep t => e.filter fun first => t ≤ first + ttl

/-- The entry of `k`: the time of the arrival that made it. -/
def entry (k : κ) (ticks : List (Tick κ)) : Option Nat := ticks.foldl (entryStep ttl k) none

/-- Every arrival of `k` finds no entry. -/
def Accepts (k : κ) (ticks : List (Tick κ)) : Prop :=
  ∀ before t after, ticks = before ++ .seen k t :: after → entry ttl k before = none

/-- Some sweep among the events comes more than `ttl` after `t`. -/
def Swept (t : Nat) (ticks : List (Tick κ)) : Prop := ∃ t', .sweep t' ∈ ticks ∧ t + ttl < t'

/-- Between any two arrivals of `k`, some sweep comes more than `ttl` after the first. -/
def Spaced (k : κ) (ticks : List (Tick κ)) : Prop :=
  ∀ before t between t' after, ticks = before ++ .seen k t :: (between ++ .seen k t' :: after) →
    Swept ttl t between

variable {ttl}

@[simp] theorem entry_nil (k : κ) : entry ttl k [] = none := rfl

@[simp] theorem entry_concat (k : κ) (ticks : List (Tick κ)) (x : Tick κ) :
    entry ttl k (ticks ++ [x]) = entryStep ttl k (entry ttl k ticks) x := by
  unfold entry
  rw [List.foldl_append]
  rfl

/-- A sweep drops an entry that is too old. -/
theorem entryStep_sweep (k : κ) (first t : Nat) :
    entryStep ttl k (some first) (.sweep t) = if t ≤ first + ttl then some first else none := by
  simp [entryStep, Option.filter]

omit [DecidableEq κ] in
theorem Swept.append {t : Nat} {ticks : List (Tick κ)} (h : Swept ttl t ticks) (x : Tick κ) :
    Swept ttl t (ticks ++ [x]) := by
  obtain ⟨t', hmem, hlt⟩ := h
  exact ⟨t', List.mem_append_left _ hmem, hlt⟩

omit [DecidableEq κ] in
/-- Where an event stands in a list that has just been extended: at the end, or before. -/
theorem concat_split {ticks before after : List (Tick κ)} {x y : Tick κ}
    (h : ticks ++ [x] = before ++ y :: after) :
    (before = ticks ∧ y = x ∧ after = []) ∨
      ∃ rest, after = rest ++ [x] ∧ ticks = before ++ y :: rest := by
  rcases List.eq_nil_or_concat after with rfl | ⟨rest, z, rfl⟩
  · obtain ⟨h₁, h₂⟩ := List.append_inj' h rfl
    exact Or.inl ⟨h₁.symm, (List.singleton_inj.mp h₂).symm, rfl⟩
  · rw [List.concat_eq_append, ← List.cons_append, ← List.append_assoc] at h
    obtain ⟨h₁, h₂⟩ := List.append_inj' h rfl
    obtain rfl := List.singleton_inj.mp h₂
    exact Or.inr ⟨rest, List.concat_eq_append .., h₁⟩

theorem Accepts.of_concat {k : κ} {ticks : List (Tick κ)} {x : Tick κ}
    (h : Accepts ttl k (ticks ++ [x])) : Accepts ttl k ticks := by
  intro before t after he
  exact h before t (after ++ [x]) (by rw [he, List.append_assoc, List.cons_append])

/-- One more event: the arrivals before it were accepted, and so is this one. -/
theorem accepts_concat {k : κ} {ticks : List (Tick κ)} {x : Tick κ} :
    Accepts ttl k (ticks ++ [x]) ↔
      Accepts ttl k ticks ∧ ∀ t, x = .seen k t → entry ttl k ticks = none := by
  constructor
  · intro h
    refine ⟨h.of_concat, fun t hx => ?_⟩
    rw [hx] at h
    exact h ticks t [] rfl
  · intro h before t after he
    obtain ⟨h, hx⟩ := h
    rcases concat_split he with ⟨rfl, hy, -⟩ | ⟨rest, -, hticks⟩
    · exact hx t hy.symm
    · exact h before t rest hticks

omit [DecidableEq κ] in
/-- One more event: an arrival must be swept from every arrival before it. -/
theorem spaced_concat {k : κ} {ticks : List (Tick κ)} {x : Tick κ} :
    Spaced ttl k (ticks ++ [x]) ↔ Spaced ttl k ticks ∧ ∀ t', x = .seen k t' →
      ∀ before t after, ticks = before ++ .seen k t :: after → Swept ttl t after := by
  constructor
  · intro h
    refine ⟨fun before t between t' after he => ?_, fun t' hx before t after he => ?_⟩
    · refine h before t between t' (after ++ [x]) ?_
      rw [he, List.append_assoc, List.cons_append, List.append_assoc, List.cons_append]
    · refine h before t after t' [] ?_
      rw [he, hx, List.append_assoc, List.cons_append]
  · intro h before t between t' after he
    obtain ⟨h, hx⟩ := h
    rw [← List.cons_append, ← List.append_assoc] at he
    rcases concat_split he with ⟨hb, hy, -⟩ | ⟨rest, -, hticks⟩
    · exact hx t' hy.symm before t between hb.symm
    · refine h before t between t' rest ?_
      rw [hticks, List.append_assoc, List.cons_append]

/-- What the entry of `k` says about the arrivals of `k`, as long as all are accepted. -/
structure EntryInv (ttl : Nat) (k : κ) (ticks : List (Tick κ)) : Prop where
  /-- without an entry, every arrival has been swept -/
  gone : entry ttl k ticks = none →
    ∀ before t after, ticks = before ++ .seen k t :: after → Swept ttl t after
  /-- an entry is the one arrival that has not -/
  kept : ∀ first, entry ttl k ticks = some first →
    (∃ before after, ticks = before ++ .seen k first :: after ∧ ¬ Swept ttl first after) ∧
      ∀ before t after, ticks = before ++ .seen k t :: after → t = first ∨ Swept ttl t after

theorem EntryInv.nil (k : κ) : EntryInv ttl k [] where
  gone _ before t after he := by simp at he
  kept first h := by simp at h

/-- Each event keeps it. -/
theorem EntryInv.concat {k : κ} {ticks : List (Tick κ)} {x : Tick κ} (h : EntryInv ttl k ticks)
    (hacc : ∀ t, x = .seen k t → entry ttl k ticks = none) : EntryInv ttl k (ticks ++ [x]) := by
  -- an event that sees no `k` and keeps the entry
  have hkeep : (∀ t, x ≠ .seen k t) → entryStep ttl k (entry ttl k ticks) x = entry ttl k ticks →
      (∀ first, entry ttl k ticks = some first → ¬ Swept ttl first [x]) →
      EntryInv ttl k (ticks ++ [x]) := by
    intro hx hentry hsw
    refine ⟨fun hnone before t after he => ?_,
      fun first hfirst => ⟨?_, fun before t after he => ?_⟩⟩
    · rw [entry_concat, hentry] at hnone
      rcases concat_split he with ⟨-, hy, -⟩ | ⟨rest, rfl, hticks⟩
      · exact absurd hy.symm (hx t)
      · exact (h.gone hnone before t rest hticks).append x
    · rw [entry_concat, hentry] at hfirst
      obtain ⟨⟨before, after, hticks, hnot⟩, -⟩ := h.kept first hfirst
      refine ⟨before, after ++ [x], by rw [hticks, List.append_assoc, List.cons_append], ?_⟩
      intro h
      obtain ⟨t', hmem, hlt⟩ := h
      rcases List.mem_append.mp hmem with hmem | hmem
      · exact hnot ⟨t', hmem, hlt⟩
      · exact hsw first hfirst ⟨t', hmem, hlt⟩
    · rw [entry_concat, hentry] at hfirst
      rcases concat_split he with ⟨-, hy, -⟩ | ⟨rest, rfl, hticks⟩
      · exact absurd hy.symm (hx t)
      · exact ((h.kept first hfirst).2 before t rest hticks).imp_right fun hs => hs.append x
  cases x with
  | seen k' t =>
    by_cases hk : k' = k
    · subst hk
      -- the accepted arrival is the one that has not been swept
      have hnone := hacc t rfl
      have hentry : entry ttl k' (ticks ++ [.seen k' t]) = some t := by
        rw [entry_concat, hnone]
        exact if_pos rfl
      refine ⟨fun hn => ?_, fun first hfirst => ?_⟩
      · rw [hentry] at hn
        simp at hn
      · rw [hentry] at hfirst
        obtain rfl := Option.some.inj hfirst
        refine ⟨⟨ticks, [], rfl, fun ⟨t', hmem, _⟩ => by simp at hmem⟩,
          fun before t₁ after he => ?_⟩
        rcases concat_split he with ⟨-, hy, -⟩ | ⟨rest, rfl, hticks⟩
        · exact Or.inl (by injection hy)
        · exact Or.inr ((h.gone hnone before t₁ rest hticks).append _)
    · refine hkeep (fun t' he => hk (by injection he)) (if_neg hk) fun first _ => ?_
      intro h
      obtain ⟨t', hmem, -⟩ := h
      simp at hmem
  | sweep t =>
    cases hentry : entry ttl k ticks with
    | none =>
      refine hkeep (fun t' he => by simp at he) (by rw [hentry]; rfl) fun first hfirst => ?_
      rw [hentry] at hfirst
      simp at hfirst
    | some first =>
      by_cases ht : t ≤ first + ttl
      · refine hkeep (fun t' he => by simp at he) ?_ fun first' hfirst => ?_
        · rw [hentry]
          exact (entryStep_sweep ..).trans (if_pos ht)
        · rw [hentry] at hfirst
          obtain rfl := Option.some.inj hfirst
          intro h
          obtain ⟨t', hmem, hlt⟩ := h
          rw [List.mem_singleton] at hmem
          injection hmem with hmem
          omega
      · -- the sweep drops the entry
        have hnone : entry ttl k (ticks ++ [.sweep t]) = none := by
          rw [entry_concat, hentry]
          exact (entryStep_sweep ..).trans (if_neg ht)
        refine ⟨fun _ before t₁ after he => ?_, fun first' hfirst => ?_⟩
        · rcases concat_split he with ⟨-, hy, -⟩ | ⟨rest, rfl, hticks⟩
          · simp at hy
          · rcases (h.kept first hentry).2 before t₁ rest hticks with rfl | hs
            · exact ⟨t, List.mem_append_right _ (List.mem_singleton_self _), by omega⟩
            · exact hs.append _
        · rw [hnone] at hfirst
          simp at hfirst

theorem EntryInv.of_accepts {k : κ} {ticks : List (Tick κ)} (h : Accepts ttl k ticks) :
    EntryInv ttl k ticks := by
  induction ticks using List.reverseRecOn with
  | nil => exact EntryInv.nil k
  | append_singleton ticks x ih =>
    obtain ⟨hacc, hx⟩ := accepts_concat.mp h
    exact (ih hacc).concat hx

/-- **When every arrival is accepted**: exactly when between any two of them some sweep
comes more than `ttl` after the first. -/
theorem accepts_iff_spaced (k : κ) (ticks : List (Tick κ)) :
    Accepts ttl k ticks ↔ Spaced ttl k ticks := by
  induction ticks using List.reverseRecOn with
  | nil =>
    constructor
    · intro _ before t between t' after he
      simp at he
    · intro _ before t after he
      simp at he
  | append_singleton ticks x ih =>
    rw [accepts_concat, spaced_concat]
    constructor
    · intro h
      obtain ⟨hacc, hx⟩ := h
      exact ⟨ih.mp hacc, fun t' ht' => (EntryInv.of_accepts hacc).gone (hx t' ht')⟩
    · intro h
      obtain ⟨hsp, hx⟩ := h
      have hacc := ih.mpr hsp
      refine ⟨hacc, fun t ht => ?_⟩
      -- an entry would be an arrival that has not been swept
      cases hentry : entry ttl k ticks with
      | none => rfl
      | some first =>
        obtain ⟨⟨before, after, hticks, hnot⟩, -⟩ := (EntryInv.of_accepts hacc).kept first hentry
        exact absurd (hx t ht before first after hticks) hnot

end Rnet.Lib.SeenSet
