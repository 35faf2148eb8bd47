import Mathlib.Logic.Relation
import Mathlib.Data.Fintype.Basic
import Mathlib.Data.Fintype.Card
import Mathlib.Data.Fintype.EquivFin
import Mathlib.Order.WellFounded

/-!
# Circular waits

A relation `R u v`, read "`u` waits for `v`", is cyclic when some chain of waits comes back to
where it started. Over finitely many parties that is the same as a nonempty set in which
everyone waits for someone of the set, and such a set is what steps and schedules can
be argued about: it needs no order and no choice of a shortest cycle.
-/

namespace Rnet.Lib.WaitGraph

variable {V : Type*}

/-- Some chain of waits comes back. -/
def Cyclic (R : V → V → Prop) : Prop := ∃ u, Relation.TransGen R u u

/-- A nonempty set in which everyone waits for someone of the set. -/
structure Knot (R : V → V → Prop) (S : Finset V) : Prop where
  nonempty : S.Nonempty
  waits : ∀ v ∈ S, ∃ w ∈ S, R v w

theorem Cyclic.mono {R Q : V → V → Prop} (h : Cyclic R) (hRQ : ∀ u v, R u v → Q u v) :
    Cyclic Q := by
  obtain ⟨u, hu⟩ := h
  exact ⟨u, Relation.TransGen.mono hRQ u u hu⟩

/-- **A cycle is a knot**, over finitely many parties. -/
theorem cyclic_iff_knot [Fintype V] {R : V → V → Prop} : Cyclic R ↔ ∃ S, Knot R S := by
  classical
  constructor
  · -- everyone who is on a chain from `u` back to `u`
    intro h
    obtain ⟨u, hu⟩ := h
    refine ⟨Finset.univ.filter fun v => Relation.TransGen R u v ∧ Relation.TransGen R v u,
      ⟨u, by simp [hu]⟩, fun v hv => ?_⟩
    obtain ⟨-, huv, hvu⟩ := Finset.mem_filter.mp hv
    obtain ⟨w, hvw, hwu⟩ := Relation.TransGen.head'_iff.mp hvu
    refine ⟨w, Finset.mem_filter.mpr ⟨Finset.mem_univ w, huv.tail hvw, ?_⟩, hvw⟩
    rcases Relation.reflTransGen_iff_eq_or_transGen.mp hwu with rfl | hwu
    · exact hu
    · exact hwu
  · -- without a cycle some member of the knot would be last
    intro h
    obtain ⟨S, hne, hwaits⟩ := h
    by_contra hno
    have hirrefl : Std.Irrefl fun v w => Relation.TransGen R w v := ⟨fun v hv => hno ⟨v, hv⟩⟩
    have htrans : IsTrans V fun v w => Relation.TransGen R w v := ⟨fun _ _ _ h₁ h₂ => h₂.trans h₁⟩
    have hwf : WellFounded fun v w : V => Relation.TransGen R w v :=
      Finite.wellFounded_of_trans_of_irrefl _
    obtain ⟨m, hm, hlast⟩ := hwf.has_min {v | v ∈ S} hne
    obtain ⟨w, hw, hmw⟩ := hwaits m hm
    exact hlast w hw (.single hmw)

/-! ## One more wait -/

/-- A walk that starts at `g` leaves the old waits only after one that leads to `g`. -/
theorem walk_from {R Q : V → V → Prop} {g : V} {H : V → Prop}
    (hQ : ∀ u v, Q u v → R u v ∨ v = g ∧ H u) {v : V} (h : Relation.ReflTransGen Q g v) :
    Relation.ReflTransGen R g v ∨ ∃ u, H u ∧ Relation.ReflTransGen R g u := by
  induction h with
  | refl => exact Or.inl .refl
  | tail _ hvw ih =>
    rcases ih with hold | hnew
    · rcases hQ _ _ hvw with hR | ⟨rfl, hH⟩
      · exact Or.inl (hold.tail hR)
      · exact Or.inr ⟨_, hH, hold⟩
    · exact Or.inr hnew

/-- **New waits for one party** close a cycle exactly if that party already waited, through a chain,
for one of those that wait for it now. -/
theorem cyclic_into_iff {R Q : V → V → Prop} {g : V} {H : V → Prop}
    (hQ : ∀ u v, Q u v ↔ R u v ∨ v = g ∧ H u) :
    Cyclic Q ↔ Cyclic R ∨ ∃ u, H u ∧ Relation.ReflTransGen R g u := by
  have hRQ : ∀ u v, R u v → Q u v := fun u v h => (hQ u v).mpr (Or.inl h)
  constructor
  · intro h
    obtain ⟨x, hx⟩ := h
    -- a walk from `x` stays with the old waits, or passes through `g`
    have hwalk : ∀ {y}, Relation.TransGen Q x y → Relation.TransGen R x y ∨
        ∃ u, H u ∧ Relation.ReflTransGen R x u ∧ Relation.ReflTransGen Q g y := by
      intro y hy
      induction hy with
      | single h =>
        rcases (hQ _ _).mp h with hR | ⟨rfl, hH⟩
        · exact Or.inl (.single hR)
        · exact Or.inr ⟨x, hH, .refl, .refl⟩
      | tail _ h ih =>
        rcases ih with hold | ⟨u, hu, hxu, hg⟩
        · rcases (hQ _ _).mp h with hR | ⟨rfl, hH⟩
          · exact Or.inl (hold.tail hR)
          · exact Or.inr ⟨_, hH, hold.to_reflTransGen, .refl⟩
        · exact Or.inr ⟨u, hu, hxu, hg.tail h⟩
    rcases hwalk hx with hR | ⟨u, hu, hxu, hgx⟩
    · exact Or.inl ⟨x, hR⟩
    · rcases walk_from (fun u v => (hQ u v).mp) hgx with hR | hnew
      · exact Or.inr ⟨u, hu, hR.trans hxu⟩
      · exact Or.inr hnew
  · intro h
    rcases h with h | ⟨u, hu, hgu⟩
    · exact h.mono hRQ
    · refine ⟨g, .tail' ?_ ((hQ u g).mpr (Or.inr ⟨rfl, hu⟩))⟩
      exact Relation.ReflTransGen.mono hRQ g u hgu

theorem cyclic_swap {R : V → V → Prop} : Cyclic (Function.swap R) ↔ Cyclic R := by
  constructor
  · intro h
    obtain ⟨u, hu⟩ := h
    exact ⟨u, Relation.transGen_swap.mp hu⟩
  · intro h
    obtain ⟨u, hu⟩ := h
    exact ⟨u, Relation.transGen_swap.mpr hu⟩

/-- **New waits of one party** close a cycle exactly if one of those it waits for now already
waited for it, through a chain. -/
theorem cyclic_from_iff {R Q : V → V → Prop} {u₀ : V} {T : V → Prop}
    (hQ : ∀ u v, Q u v ↔ R u v ∨ u = u₀ ∧ T v) :
    Cyclic Q ↔ Cyclic R ∨ ∃ v, T v ∧ Relation.ReflTransGen R v u₀ := by
  rw [← cyclic_swap, cyclic_into_iff (R := Function.swap R) (g := u₀) (H := T)
    fun u v => hQ v u, cyclic_swap]
  refine or_congr_right (exists_congr fun v => and_congr_right fun _ => ?_)
  exact Relation.reflTransGen_swap

/-! ## Asking and taking -/

section Asking

variable {R : Type*} {asks asks' : V → Option R} {server server' : R → Option V}

/-- `u` asks for something that `v` has to give back first. -/
def Waits (asks : V → Option R) (server : R → Option V) (u v : V) : Prop :=
  (asks u).bind server = some v

theorem waits_iff {u v : V} : Waits asks server u v ↔ ∃ r, asks u = some r ∧ server r = some v :=
  Option.bind_eq_some_iff

/-- Less is asked for, and less has to be given back. -/
theorem Waits.mono (hasks : ∀ u r, asks u = some r → asks' u = some r)
    (hserver : ∀ r v, server r = some v → server' r = some v) {u v : V}
    (h : Waits asks server u v) : Waits asks' server' u v := by
  obtain ⟨r, hr, hv⟩ := waits_iff.mp h
  exact waits_iff.mpr ⟨r, hasks u r hr, hserver r v hv⟩

/-- **Asking** closes a cycle exactly if the one who has to give back already waits, through a
chain, for the one who asks. -/
theorem cyclic_ask_iff {u₀ : V} {r₀ : R} (hu : asks u₀ = none) (hu' : asks' u₀ = some r₀)
    (hrest : ∀ u, u ≠ u₀ → asks' u = asks u) :
    Cyclic (Waits asks' server) ↔ Cyclic (Waits asks server) ∨
      ∃ v, server r₀ = some v ∧ Relation.ReflTransGen (Waits asks server) v u₀ := by
  refine cyclic_from_iff fun u v => ?_
  rw [waits_iff, waits_iff]
  by_cases h : u = u₀
  · subst h
    simp [hu, hu']
  · simp [hrest u h, h]

/-- **Taking** the last place closes a cycle exactly if the one who now has to give it back already
waits, through a chain, for another one who asks for it. -/
theorem cyclic_take_iff {r₀ : R} {v₀ : V} {taker : Option V} (hfree : server r₀ = none)
    (hserver : server' r₀ = some v₀) (hrest : ∀ r, r ≠ r₀ → server' r = server r)
    (htaker : ∀ u r, taker = some u → asks u = some r → r = r₀)
    (hasks : ∀ u r, asks' u = some r ↔ asks u = some r ∧ taker ≠ some u) :
    Cyclic (Waits asks' server') ↔ Cyclic (Waits asks server) ∨
      ∃ u, (asks u = some r₀ ∧ taker ≠ some u) ∧
        Relation.ReflTransGen (Waits asks server) v₀ u := by
  refine cyclic_into_iff fun u v => ?_
  rw [waits_iff, waits_iff]
  constructor
  · intro h
    obtain ⟨r, hr, hv⟩ := h
    obtain ⟨hr, ht⟩ := (hasks u r).mp hr
    by_cases h : r = r₀
    · subst h
      exact Or.inr ⟨Option.some.inj (hv.symm.trans hserver), hr, ht⟩
    · rw [hrest r h] at hv
      exact Or.inl ⟨r, hr, hv⟩
  · intro h
    rcases h with ⟨r, hr, hv⟩ | ⟨rfl, hr, ht⟩
    · have h : r ≠ r₀ := by
        intro h
        subst h
        rw [hfree] at hv
        simp at hv
      exact ⟨r, (hasks u r).mpr ⟨hr, fun ht => h (htaker u r ht hr)⟩, (hrest r h).trans hv⟩
    · exact ⟨r₀, (hasks u r₀).mpr ⟨hr, ht⟩, hserver⟩

end Asking

end Rnet.Lib.WaitGraph
