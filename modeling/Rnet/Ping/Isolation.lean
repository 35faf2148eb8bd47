import Rnet.Lib.Isolation
import Rnet.Ping.Engine

/-!
# The ids of the RLNC ping engine do not see each other

The part of the engine that belongs to an id is whether it is seen and what is cached
for it. A call reads and writes the part of its own id (`respond`), so an id's calls
run as if the engine were theirs. When the packets of each id have one shape the system
that is solved is never ragged and no call panics.

> `handleIncoming_isolated`: the results for an id are those of its packets alone, at
> most one of them is a reconstruction, and after it the packets of the id do nothing.
-/

namespace Rnet.Ping

open Lib

/-- The engine's part for one id. -/
structure IdView where
  seen : Bool
  cached : Option (List EncodedPayload)
  deriving DecidableEq, Repr

namespace PingRLNC

/-- What `handle_incoming` does for one id. -/
def respond (v : IdView) (p : EncodedPayload) : IdView × Outcome :=
  if v.seen then (v, .none)
  else
    match v.cached with
    | none => ({ v with cached := some [p] }, .none)
    | some vec =>
      if p.coeffs.length = 0 then (v, .panicked)
      else if vec.length = p.coeffs.length - 1 then
        match reconstruct vec with
        | none => ({ v with cached := none }, .panicked)
        | some r => ({ seen := true, cached := none }, .returned r)
      else ({ v with cached := some (vec ++ [p]) }, .none)

/-- The engine as a component whose calls carry ids. -/
def keyed : Keyed PingRLNC EncodedPayload Outcome String IdView where
  call := handleIncoming
  key := EncodedPayload.id
  view id engine := { seen := decide (id ∈ engine.seen), cached := engine.cache.lookup id }

/-- **A call is its id's own business.** -/
theorem keyed_isolated : keyed.Isolated respond where
  own engine p := by
    have h := engine.handleIncoming_handled p
    show (keyed.view p.id (engine.handleIncoming p).1, (engine.handleIncoming p).2) = _
    generalize (engine.handleIncoming p).1 = engine' at h ⊢
    generalize (engine.handleIncoming p).2 = o at h ⊢
    unfold keyed respond
    dsimp only
    cases h with
    | seen hs => rw [if_pos (decide_eq_true hs)]
    | first hs hl => simp [hs, hl, AList.lookup_insert]
    | underflow hs hl h0 => simp [hs, hl, h0]
    | cached hs hl h0 hn => simp [hs, hl, h0, hn, AList.lookup_insert]
    | failed hs hl h0 hn hr => simp [hs, hl, h0, ← hn, hr, AList.lookup_erase]
    | solved hs hl h0 hn hr => simp [hl, hs, h0, ← hn, hr, AList.lookup_erase]
  other engine p id hid := by
    obtain ⟨hseen, hlookup⟩ := (engine.handleIncoming_handled p).other hid
    unfold keyed
    dsimp only
    rw [hlookup, decide_eq_decide.mpr hseen]

theorem keyed_after (ps : List EncodedPayload) : keyed.after {} ps = after ps := rfl

/-! ## Seen and cached -/

/-- No id is both seen and cached. -/
theorem disjoint_after (ps : List EncodedPayload) :
    ∀ id ∈ (after ps).seen, (after ps).cache.lookup id = none := by
  induction ps using List.reverseRec with
  | nil => intro id hid; exact absurd hid List.not_mem_nil
  | append_singleton ps p ih =>
    intro id hid
    rw [after_concat] at hid ⊢
    have h := (after ps).handleIncoming_handled p
    by_cases hp : p.id = id
    · subst hp
      generalize ((after ps).handleIncoming p).1 = engine' at h hid ⊢
      generalize ((after ps).handleIncoming p).2 = o at h
      cases h with
      | seen hs => exact ih _ hs
      | first hs hl => exact absurd hid hs
      | underflow hs hl h0 => exact absurd hid hs
      | cached hs hl h0 hn => exact absurd hid hs
      | failed hs hl h0 hn hr => exact absurd hid hs
      | solved hs hl h0 hn hr => exact AList.lookup_erase p.id (after ps).cache
    · obtain ⟨hseen, hlookup⟩ := h.other hp
      rw [hlookup]
      exact ih id (hseen.mp hid)

/-- What is seen stays seen. -/
theorem Handled.seen_mono {engine engine' : PingRLNC} {p : EncodedPayload} {o : Outcome}
    (h : Handled engine p engine' o) {id : String} (hid : id ∈ engine.seen) :
    id ∈ engine'.seen := by
  cases h with
  | solved => exact List.mem_cons_of_mem _ hid
  | _ => exact hid

/-- A call that returns something leaves its id seen. -/
theorem Handled.seen_of_returned {engine engine' : PingRLNC} {p : EncodedPayload} {r : List UInt8}
    (h : Handled engine p engine' (.returned r)) : p.id ∈ engine'.seen := by
  cases h with
  | solved => exact List.mem_cons_self ..

theorem seen_after_append {id : String} (ps : List EncodedPayload) :
    ∀ qs, id ∈ (after ps).seen → id ∈ (after (ps ++ qs)).seen := by
  intro qs
  induction qs using List.reverseRec with
  | nil =>
    intro h
    rw [List.append_nil]
    exact h
  | append_singleton qs q ih =>
    intro h
    rw [← List.append_assoc, after_concat]
    exact ((after (ps ++ qs)).handleIncoming_handled q).seen_mono (ih h)

/-- **After a reconstruction** the packets of its id change nothing and return nothing. -/
theorem handleIncoming_after_returned {pre mid : List EncodedPayload} {p q : EncodedPayload}
    {r : List UInt8} (hr : ((after pre).handleIncoming p).2 = .returned r) (hid : q.id = p.id) :
    (after (pre ++ p :: mid)).handleIncoming q = (after (pre ++ p :: mid), .none) := by
  have hseen : p.id ∈ (after (pre ++ [p])).seen := by
    have h := (after pre).handleIncoming_handled p
    rw [hr] at h
    rw [after_concat]
    exact h.seen_of_returned
  have hmem := seen_after_append (pre ++ [p]) mid hseen
  rw [List.append_assoc, List.singleton_append] at hmem
  unfold handleIncoming
  rw [if_pos (by rw [hid]; exact hmem)]

/-! ## Packets of one shape -/

/-- The packets of each id have the same number of coefficients, at least one, and payloads
of the same length. -/
def Uniform (ps : List EncodedPayload) : Prop :=
  ∀ p ∈ ps, p.coeffs ≠ [] ∧ ∀ q ∈ ps, q.id = p.id →
    q.coeffs.length = p.coeffs.length ∧ q.payload.length = p.payload.length

/-- What is cached for an id are packets of the id that arrived. -/
theorem cached_after (ps : List EncodedPayload) : ∀ id vec,
    (after ps).cache.lookup id = some vec → ∀ q ∈ vec, q ∈ ps ∧ q.id = id := by
  induction ps using List.reverseRec with
  | nil => intro id vec h; exact absurd h (by simp [after])
  | append_singleton ps p ih =>
    intro id vec hvec q hq
    rw [after_concat] at hvec
    have h := (after ps).handleIncoming_handled p
    have hold : ∀ vec, (after ps).cache.lookup id = some vec → q ∈ vec →
        q ∈ ps ++ [p] ∧ q.id = id :=
      fun vec hl hq => ⟨List.mem_append_left _ (ih id vec hl q hq).1, (ih id vec hl q hq).2⟩
    by_cases hp : p.id = id
    · subst hp
      have hnew : p ∈ ps ++ [p] ∧ p.id = p.id :=
        ⟨List.mem_append_right _ (List.mem_singleton_self p), rfl⟩
      generalize ((after ps).handleIncoming p).1 = engine' at h hvec
      generalize ((after ps).handleIncoming p).2 = o at h
      cases h with
      | seen hs => exact hold vec hvec hq
      | underflow hs hl h0 => exact hold vec hvec hq
      | first hs hl =>
        rw [AList.lookup_insert] at hvec
        obtain rfl := Option.some.inj hvec
        rw [List.mem_singleton.mp hq]
        exact hnew
      | cached hs hl h0 hn =>
        rw [AList.lookup_insert] at hvec
        obtain rfl := Option.some.inj hvec
        rcases List.mem_append.mp hq with hq | hq
        · exact hold _ hl hq
        · rw [List.mem_singleton.mp hq]
          exact hnew
      | failed hs hl h0 hn hr =>
        rw [AList.lookup_erase] at hvec
        exact absurd hvec (by simp)
      | solved hs hl h0 hn hr =>
        rw [AList.lookup_erase] at hvec
        exact absurd hvec (by simp)
    · rw [(h.other hp).2] at hvec
      exact hold vec hvec hq

end PingRLNC

/-- A system of cached packets of one shape, with enough coefficients, is solved. -/
theorem reconstruct_ne_none {vec : List EncodedPayload} {l : Nat}
    (hwide : ∀ q ∈ vec, vec.length ≤ q.coeffs.length) (heven : ∀ q ∈ vec, q.payload.length = l) :
    PingRLNC.reconstruct vec ≠ none := by
  have hshape : Shape vec.length l (vec.map (·.coeffs), vec.map (·.payload)) := by
    refine ⟨List.length_map _, List.length_map _, ?_, ?_⟩
    · intro r hr
      obtain ⟨q, hq, rfl⟩ := List.mem_map.mp hr
      exact hwide q hq
    · intro d hd
      obtain ⟨q, hq, rfl⟩ := List.mem_map.mp hd
      exact heven q hq
  obtain ⟨s, hs, -⟩ := gaussianElimination_shape hshape
  unfold PingRLNC.reconstruct buildLinearSystem
  dsimp only
  rw [hs]
  simp

namespace PingRLNC

/-- Packets of one shape never make a call panic. -/
theorem Uniform.not_panicked {pre post : List EncodedPayload} {p : EncodedPayload}
    (h : Uniform (pre ++ p :: post)) : ((after pre).handleIncoming p).2 ≠ .panicked := by
  have hp : p ∈ pre ++ p :: post := List.mem_append_right _ (List.mem_cons_self ..)
  obtain ⟨hne, hsame⟩ := h p hp
  have hhandled := (after pre).handleIncoming_handled p
  intro ho
  rw [ho] at hhandled
  generalize ((after pre).handleIncoming p).1 = engine' at hhandled
  cases hhandled with
  | underflow hs hl h0 => exact hne (List.length_eq_zero_iff.mp h0)
  | @failed vec hs hl h0 hn hr =>
    have hmem : ∀ q ∈ vec, q.coeffs.length = p.coeffs.length ∧
        q.payload.length = p.payload.length :=
      fun q hq => hsame q (List.mem_append_left _ (cached_after pre _ _ hl q hq).1)
        (cached_after pre _ _ hl q hq).2
    refine reconstruct_ne_none (l := p.payload.length) (fun q hq => ?_) (fun q hq => ?_) hr
    · rw [(hmem q hq).1]
      omega
    · exact (hmem q hq).2

/-- **Isolation of the ids.** In every sequence of calls in which the packets of each id have
one shape: no call panics, the results for an id are those of its packets alone, after a
reconstruction the packets of its id change and return nothing, and no id is both seen and
cached. -/
theorem handleIncoming_isolated (ps : List EncodedPayload) (hps : Uniform ps) :
    (∀ pre p post, ps = pre ++ p :: post → ((after pre).handleIncoming p).2 ≠ .panicked) ∧
      (∀ x, (keyed.answers {} ps).filter (fun r => r.1.id = x)
        = keyed.answers {} (ps.filter (·.id = x))) ∧
      (∀ x pre p mid q post r, ps = pre ++ p :: (mid ++ q :: post) → p.id = x → q.id = x →
        ((after pre).handleIncoming p).2 = .returned r →
        (after (pre ++ p :: mid)).handleIncoming q = (after (pre ++ p :: mid), .none)) ∧
      (∀ pre post, ps = pre ++ post →
        ∀ x ∈ (after pre).seen, x ∉ (after pre).cache) := by
  refine ⟨?_, ?_, ?_, ?_⟩
  · intro pre p post h
    subst h
    exact hps.not_panicked
  · intro x
    exact keyed_isolated.answers_filter x ps {} {} rfl
  · intro x pre p mid q post r _ hp hq hr
    exact handleIncoming_after_returned hr (hq.trans hp.symm)
  · intro pre post _ x hx
    exact AList.lookup_eq_none.mp (disjoint_after pre x hx)

/-- The two packets of one ping, with a packet of another between them and a late one after. -/
theorem handleIncoming_isolated_late :
    Uniform (twoChunks.take 1 ++ ⟨[7], [1], "other"⟩ :: (twoChunks.drop 1 ++ twoChunks)) ∧
      (keyed.answers {}
        (twoChunks.take 1 ++ ⟨[7], [1], "other"⟩ :: (twoChunks.drop 1 ++ twoChunks))).filter
          (fun r => r.1.id = "ping")
        = keyed.answers {} (twoChunks ++ twoChunks) := by
  have h : Uniform
      (twoChunks.take 1 ++ ⟨[7], [1], "other"⟩ :: (twoChunks.drop 1 ++ twoChunks)) := by
    unfold Uniform
    decide
  exact ⟨h, (handleIncoming_isolated _ h).2.1 "ping"⟩

end PingRLNC

end Rnet.Ping
