import Mathlib.Logic.Relation

/-!
# Flooding a graph

A message floods a graph from `p`: a node that sees it for the first time sends it on
to its neighbours, except to the node it came from and to `p`; a node that has
seen it drops it. `Flood.Inv seen inFlight` is what every interleaving of these
two moves keeps, whatever way the copies travel:

* a copy in flight was sent by a node that has the message, along an edge;
* a node that has the message has sent it along every edge, unless the far end has
  it already. The node it came from need not get it back, since it has it.

> `Inv.quiet`: when no copy is in flight, the nodes that have seen the message are
> exactly those reached from `p` along paths that do not come back to `p`.
-/

namespace Rnet.Lib.Flood

universe u

variable {V : Type u}

/-- Reached from `p` along edges of `adj` to nodes other than `p`. -/
def Reached (adj : V → V → Prop) (p v : V) : Prop :=
  Relation.TransGen (fun u w => adj u w ∧ w ≠ p) p v

/-- What every flood of one message from `p` keeps. -/
structure Inv (adj : V → V → Prop) (p : V) (seen : V → Prop) (inFlight : V → V → Prop) : Prop where
  sound : ∀ u v, inFlight u v → (u = p ∨ seen u) ∧ adj u v ∧ v ≠ p
  reached : ∀ v, seen v → Reached adj p v
  cover : ∀ u v, (u = p ∨ seen u) → adj u v → v ≠ p → seen v ∨ inFlight u v

variable {adj : V → V → Prop} {p : V} {seen seen' : V → Prop} {inFlight inFlight' : V → V → Prop}

/-- The flood starts: `p` sends to its neighbours. -/
theorem Inv.start (hseen : ∀ v, ¬ seen v)
    (hfly : ∀ u v, inFlight u v ↔ u = p ∧ adj p v ∧ v ≠ p) : Inv adj p seen inFlight where
  sound := by
    intro u v h
    obtain ⟨rfl, hadj, hv⟩ := (hfly u v).mp h
    exact ⟨Or.inl rfl, hadj, hv⟩
  reached := fun v h => absurd h (hseen v)
  cover := by
    intro u v hu hadj hv
    rcases hu with rfl | hu
    · exact Or.inr ((hfly u v).mpr ⟨rfl, hadj, hv⟩)
    · exact absurd hu (hseen u)

/-- What is in flight travels on. -/
theorem Inv.move (h : Inv adj p seen inFlight) (hfly : ∀ u v, inFlight' u v ↔ inFlight u v) :
    Inv adj p seen inFlight' :=
  ⟨fun u v huv => h.sound u v ((hfly u v).mp huv), h.reached,
    fun u v hu hadj hv => (h.cover u v hu hadj hv).imp_right (hfly u v).mpr⟩

/-- A copy reaches a node that has the message. -/
theorem Inv.drop {u v : V} (h : Inv adj p seen inFlight) (hv : seen v ∨ v = p)
    (hsub : ∀ a b, inFlight' a b → inFlight a b)
    (hrest : ∀ a b, inFlight a b → inFlight' a b ∨ a = u ∧ b = v) :
    Inv adj p seen inFlight' where
  sound := fun a b hab => h.sound a b (hsub a b hab)
  reached := h.reached
  cover := by
    intro a b ha hadj hb
    rcases h.cover a b ha hadj hb with hs | hfly
    · exact Or.inl hs
    · rcases hrest a b hfly with hfly | ⟨rfl, rfl⟩
      · exact Or.inr hfly
      · rcases hv with hv | hv
        · exact Or.inl hv
        · exact absurd hv hb

/-- A copy from `u` reaches `v` for the first time: `v` sends it on, but not back to `u`. -/
theorem Inv.accept {u v : V} (h : Inv adj p seen inFlight) (huv : inFlight u v)
    (hseen : ∀ a, seen' a ↔ seen a ∨ a = v)
    (hsub : ∀ a b, inFlight' a b → inFlight a b ∨ a = v ∧ adj v b ∧ b ≠ p)
    (hrest : ∀ a b, inFlight a b → inFlight' a b ∨ a = u ∧ b = v)
    (hsent : ∀ b, adj v b → b ≠ p → b ≠ u → inFlight' v b) : Inv adj p seen' inFlight' := by
  obtain ⟨hu, hadj, hvp⟩ := h.sound u v huv
  refine ⟨?_, ?_, ?_⟩
  · intro a b hab
    rcases hsub a b hab with hab | ⟨rfl, hab, hb⟩
    · obtain ⟨ha, hrest⟩ := h.sound a b hab
      exact ⟨ha.imp_right fun hs => (hseen a).mpr (Or.inl hs), hrest⟩
    · exact ⟨Or.inr ((hseen a).mpr (Or.inr rfl)), hab, hb⟩
  · intro a ha
    rcases (hseen a).mp ha with ha | rfl
    · exact h.reached a ha
    · rcases hu with rfl | hu
      · exact Relation.TransGen.single ⟨hadj, hvp⟩
      · exact (h.reached u hu).tail ⟨hadj, hvp⟩
  · intro a b ha hab hb
    have old : (a = p ∨ seen a) → seen' b ∨ inFlight' a b := by
      intro ha
      rcases h.cover a b ha hab hb with hs | hfly
      · exact Or.inl ((hseen b).mpr (Or.inl hs))
      · rcases hrest a b hfly with hfly | ⟨rfl, rfl⟩
        · exact Or.inr hfly
        · exact Or.inl ((hseen b).mpr (Or.inr rfl))
    rcases ha with ha | ha
    · exact old (Or.inl ha)
    · rcases (hseen a).mp ha with ha | rfl
      · exact old (Or.inr ha)
      · by_cases hbu : b = u
        · -- the node it came from has the message
          rcases hu with hu | hu
          · exact absurd (hbu.trans hu) hb
          · exact Or.inl ((hseen b).mpr (Or.inl (hbu ▸ hu)))
        · exact Or.inr (hsent b hab hb hbu)

/-- **When nothing is in flight** the flood has reached what can be reached. -/
theorem Inv.quiet (h : Inv adj p seen inFlight) (hq : ∀ u v, ¬ inFlight u v) (v : V) :
    seen v ↔ Reached adj p v := by
  refine ⟨h.reached v, fun hr => ?_⟩
  have next : ∀ u w, (u = p ∨ seen u) → adj u w ∧ w ≠ p → seen w := by
    intro u w hu h
    obtain ⟨hadj, hw⟩ := h
    exact (h.cover u w hu hadj hw).resolve_right (hq u w)
  induction hr with
  | single he => exact next _ _ (Or.inl rfl) he
  | tail _ he ih => exact next _ _ (Or.inr ih) he

end Rnet.Lib.Flood
