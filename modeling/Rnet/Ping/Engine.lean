import Rnet.Ping.Payload
import Mathlib.Data.List.AList
import Mathlib.Data.List.Induction

/-!
# The RLNC ping engine: `rlnc/engine.rs`

`handle_incoming` collects the packets of an id until the one that arrives makes
their number equal to the number of coefficients, and then solves the system. The
packet that arrives last is not in `cache` yet, so of `n` packets only `n - 1`
are handed to the elimination, and the result has `5 (n - 1)` bytes where the
padded payload has `5 n`. With `n = 1` the number of cached packets is never
`n - 1 = 0`, and nothing is ever returned.

> `reconstructs_payload_iff`: what the engine returns for an id is the padded
> payload if and only if it returns nothing: the payload has one chunk, or
> fewer packets than chunks arrive.
-/

namespace Rnet.Ping

/-- `PingRLNC`. -/
structure PingRLNC where
  cache : AList (fun _ : String => List EncodedPayload) := ∅
  seen : List String := []

/-- How a call of `handle_incoming` ends. -/
inductive Outcome
  | none
  | returned (reconstructed : List UInt8)
  | panicked
  deriving DecidableEq, Repr

namespace PingRLNC

/-- `PingRLNC::reconstruct`; `none` is a panic. -/
def reconstruct (encoded_vec : List EncodedPayload) : Option (List UInt8) := do
  let (matrix, data) := buildLinearSystem encoded_vec
  let (_, data) ← gaussianElimination matrix data
  some (Ping.reconstruct data)

/-- `PingRLNC::handle_incoming`. -/
def handleIncoming (engine : PingRLNC) (payload : EncodedPayload) : PingRLNC × Outcome :=
  if payload.id ∈ engine.seen then (engine, .none)
  else
    match engine.cache.lookup payload.id with
    | none => ({ engine with cache := engine.cache.insert payload.id [payload] }, .none)
    | some vec =>
      -- `payload.coeffs.len() - 1` underflows without coefficients
      if payload.coeffs.length = 0 then (engine, .panicked)
      else if vec.length = payload.coeffs.length - 1 then
        let cache := engine.cache.erase payload.id
        match reconstruct vec with
        | none => ({ engine with cache := cache }, .panicked)
        | some reconstructed =>
          ({ cache := cache, seen := payload.id :: engine.seen }, .returned reconstructed)
      else ({ engine with cache := engine.cache.insert payload.id (vec ++ [payload]) }, .none)

/-- What a call of `handle_incoming` can do. -/
inductive Handled (engine : PingRLNC) (p : EncodedPayload) : PingRLNC → Outcome → Prop
  | seen (hs : p.id ∈ engine.seen) : Handled engine p engine .none
  | first (hs : p.id ∉ engine.seen) (hl : engine.cache.lookup p.id = none) :
      Handled engine p { engine with cache := engine.cache.insert p.id [p] } .none
  | underflow {vec : List EncodedPayload} (hs : p.id ∉ engine.seen)
      (hl : engine.cache.lookup p.id = some vec) (h0 : p.coeffs.length = 0) :
      Handled engine p engine .panicked
  | cached {vec : List EncodedPayload} (hs : p.id ∉ engine.seen)
      (hl : engine.cache.lookup p.id = some vec) (h0 : p.coeffs.length ≠ 0)
      (hn : vec.length ≠ p.coeffs.length - 1) :
      Handled engine p { engine with cache := engine.cache.insert p.id (vec ++ [p]) } .none
  | failed {vec : List EncodedPayload} (hs : p.id ∉ engine.seen)
      (hl : engine.cache.lookup p.id = some vec) (h0 : p.coeffs.length ≠ 0)
      (hn : vec.length = p.coeffs.length - 1) (hr : reconstruct vec = none) :
      Handled engine p { engine with cache := engine.cache.erase p.id } .panicked
  | solved {vec : List EncodedPayload} {r : List UInt8} (hs : p.id ∉ engine.seen)
      (hl : engine.cache.lookup p.id = some vec) (h0 : p.coeffs.length ≠ 0)
      (hn : vec.length = p.coeffs.length - 1) (hr : reconstruct vec = some r) :
      Handled engine p { cache := engine.cache.erase p.id, seen := p.id :: engine.seen }
        (.returned r)

theorem handleIncoming_handled (engine : PingRLNC) (p : EncodedPayload) :
    Handled engine p (engine.handleIncoming p).1 (engine.handleIncoming p).2 := by
  unfold handleIncoming
  by_cases hs : p.id ∈ engine.seen
  · rw [if_pos hs]
    exact .seen hs
  rw [if_neg hs]
  cases hl : engine.cache.lookup p.id with
  | none => exact .first hs hl
  | some vec =>
    dsimp only
    by_cases h0 : p.coeffs.length = 0
    · rw [if_pos h0]
      exact .underflow hs hl h0
    rw [if_neg h0]
    by_cases hn : vec.length = p.coeffs.length - 1
    · rw [if_pos hn]
      cases hr : reconstruct vec with
      | none => exact .failed hs hl h0 hn hr
      | some r => exact .solved hs hl h0 hn hr
    · rw [if_neg hn]
      exact .cached hs hl h0 hn

/-- A call does nothing to other ids. -/
theorem Handled.other {engine engine' : PingRLNC} {p : EncodedPayload} {o : Outcome}
    (h : Handled engine p engine' o) {id : String} (hid : p.id ≠ id) :
    (id ∈ engine'.seen ↔ id ∈ engine.seen) ∧
      engine'.cache.lookup id = engine.cache.lookup id := by
  have hne : id ≠ p.id := Ne.symm hid
  cases h with
  | seen => exact ⟨Iff.rfl, rfl⟩
  | first => exact ⟨Iff.rfl, AList.lookup_insert_ne hne⟩
  | underflow => exact ⟨Iff.rfl, rfl⟩
  | cached => exact ⟨Iff.rfl, AList.lookup_insert_ne hne⟩
  | failed => exact ⟨Iff.rfl, AList.lookup_erase_ne hne⟩
  | solved => exact ⟨List.mem_cons.trans (or_iff_right hne), AList.lookup_erase_ne hne⟩

/-- The engine after some calls. -/
def after (ps : List EncodedPayload) : PingRLNC :=
  ps.foldl (fun engine p => (engine.handleIncoming p).1) {}

theorem after_concat (ps : List EncodedPayload) (p : EncodedPayload) :
    after (ps ++ [p]) = ((after ps).handleIncoming p).1 := by
  unfold after
  rw [List.foldl_append]
  rfl

/-- Among the calls, one for `id` returns `r`. -/
def Returns (ps : List EncodedPayload) (id : String) (r : List UInt8) : Prop :=
  ∃ pre p post, ps = pre ++ p :: post ∧ p.id = id ∧
    ((after pre).handleIncoming p).2 = .returned r

end PingRLNC

/-- Every packet of `id` was encoded from the chunks of `payload`. -/
def Encodes (payload : List UInt8) (id : String) (ps : List EncodedPayload) : Prop :=
  ∀ p ∈ ps, p.id = id → ∃ draws, encode (split payload) draws id = some p

/-! ## The packets of one id -/

/-- The packets of an id among some packets. -/
def countId (id : String) (ps : List EncodedPayload) : Nat := ps.countP (·.id = id)

theorem countId_concat (id : String) (ps : List EncodedPayload) (p : EncodedPayload) :
    countId id (ps ++ [p]) = countId id ps + if p.id = id then 1 else 0 := by
  unfold countId
  rw [List.countP_append, List.countP_singleton]
  simp only [decide_eq_true_eq]

/-- Where the `n`-th packet of an id stands. -/
theorem exists_nth {id : String} {n : Nat} :
    ∀ {ps : List EncodedPayload}, n < countId id ps →
      ∃ pre p post, ps = pre ++ p :: post ∧ p.id = id ∧ countId id pre = n := by
  intro ps
  induction ps using List.reverseRec with
  | nil =>
    intro h
    exact absurd h (Nat.not_lt_zero n)
  | append_singleton ps p ih =>
    intro h
    rw [countId_concat] at h
    by_cases hn : n < countId id ps
    · obtain ⟨pre, q, post, rfl, hid, hc⟩ := ih hn
      exact ⟨pre, q, post ++ [p], by rw [List.append_assoc]; rfl, hid, hc⟩
    · by_cases hp : p.id = id
      · rw [if_pos hp] at h
        exact ⟨ps, p, [], rfl, hp, by omega⟩
      · rw [if_neg hp] at h
        omega

/-- Nothing was returned for `id` yet: it is not seen, and all its packets are cached. -/
structure Collecting (n : Nat) (id : String) (c : Nat) (engine : PingRLNC) : Prop where
  unseen : id ∉ engine.seen
  empty : c = 0 → engine.cache.lookup id = none
  full : c ≠ 0 → ∃ vec, engine.cache.lookup id = some vec ∧ vec.length = c ∧
    ∀ p ∈ vec, p.coeffs.length = n ∧ p.payload.length = 5

/-- A call for another id. -/
theorem Collecting.other {n c : Nat} {id : String} {engine : PingRLNC} {p : EncodedPayload}
    (h : Collecting n id c engine) (hp : p.id ≠ id) :
    Collecting n id c (engine.handleIncoming p).1 := by
  obtain ⟨hseen, hlookup⟩ := (engine.handleIncoming_handled p).other hp
  refine ⟨fun hm => h.unseen (hseen.mp hm), fun hc => ?_, fun hc => ?_⟩
  · rw [hlookup]
    exact h.empty hc
  · rw [hlookup]
    exact h.full hc

/-- A call for the id that does not complete the set: the packet is cached. -/
theorem Collecting.cached {n c : Nat} {id : String} {engine : PingRLNC} {p : EncodedPayload}
    (h : Collecting n id c engine) (hp : p.id = id) (hn : p.coeffs.length = n) (hpos : 0 < n)
    (hl : p.payload.length = 5) (hc : c = 0 ∨ c ≠ n - 1) :
    Collecting n id (c + 1) (engine.handleIncoming p).1 ∧ (engine.handleIncoming p).2 = .none := by
  unfold PingRLNC.handleIncoming
  rw [if_neg (by rw [hp]; exact h.unseen), hp]
  by_cases hc0 : c = 0
  · rw [h.empty hc0]
    refine ⟨⟨h.unseen, fun h => absurd h (Nat.succ_ne_zero c), fun _ => ?_⟩, rfl⟩
    refine ⟨[p], AList.lookup_insert _, by rw [hc0]; rfl, ?_⟩
    intro q hq
    rw [List.mem_singleton.mp hq]
    exact ⟨hn, hl⟩
  · obtain ⟨vec, hvec, hlen, hall⟩ := h.full hc0
    rw [hvec]
    dsimp only
    rw [if_neg (by omega), if_neg (by omega)]
    refine ⟨⟨h.unseen, fun h => absurd h (Nat.succ_ne_zero c), fun _ => ?_⟩, rfl⟩
    refine ⟨vec ++ [p], AList.lookup_insert _, by rw [List.length_append, hlen]; rfl, ?_⟩
    intro q hq
    rcases List.mem_append.mp hq with hq | hq
    · exact hall q hq
    · rw [List.mem_singleton.mp hq]
      exact ⟨hn, hl⟩

/-- The call that completes the set returns one chunk too few: the elimination gets the
`n - 1` cached packets. -/
theorem Collecting.completed {n c : Nat} {id : String} {engine : PingRLNC} {p : EncodedPayload}
    (h : Collecting n id c engine) (hp : p.id = id) (hn : p.coeffs.length = n)
    (hc0 : c ≠ 0) (hc : c = n - 1) :
    ∃ r, (engine.handleIncoming p).2 = .returned r ∧ r.length = 5 * (n - 1) := by
  obtain ⟨vec, hvec, hlen, hall⟩ := h.full hc0
  have hshape : Shape (n - 1) 5 (vec.map (·.coeffs), vec.map (·.payload)) := by
    refine ⟨by rw [List.length_map, hlen, hc], by rw [List.length_map, hlen, hc], ?_, ?_⟩
    · intro r hr
      obtain ⟨q, hq, rfl⟩ := List.mem_map.mp hr
      have := (hall q hq).1
      omega
    · intro d hd
      obtain ⟨q, hq, rfl⟩ := List.mem_map.mp hd
      exact (hall q hq).2
  obtain ⟨s, hs, hs'⟩ := gaussianElimination_shape hshape
  unfold PingRLNC.handleIncoming
  rw [if_neg (by rw [hp]; exact h.unseen), hp, hvec]
  dsimp only
  rw [if_neg (by omega), if_pos (by omega)]
  have hr : PingRLNC.reconstruct vec = some (reconstruct s.2) := by
    unfold PingRLNC.reconstruct buildLinearSystem
    dsimp only
    rw [hs]
    rfl
  rw [hr]
  refine ⟨_, rfl, ?_⟩
  unfold reconstruct
  rw [List.length_flatten, List.map_eq_replicate_iff.mpr hs'.even, hs'.data,
    List.sum_replicate_nat, Nat.mul_comm]

/-! ## Whole sequences of calls -/

open PingRLNC

/-- A packet of the id has a coefficient per chunk and five bytes. -/
theorem Encodes.shape {payload : List UInt8} {id : String} {ps : List EncodedPayload}
    (h : Encodes payload id ps) {p : EncodedPayload} (hp : p ∈ ps) (hid : p.id = id) :
    p.coeffs.length = (split payload).length ∧ p.payload.length = 5 := by
  obtain ⟨draws, hd⟩ := h p hp hid
  obtain ⟨hc, hl, -⟩ := encode_shape (fun q hq => length_of_mem_split hq) hd
  exact ⟨hc, hl⟩

theorem Encodes.of_append {payload : List UInt8} {id : String} {ps qs : List EncodedPayload}
    (h : Encodes payload id (ps ++ qs)) : Encodes payload id ps :=
  fun p hp => h p (List.mem_append_left _ hp)

/-- **Every sequence of calls** short of the set, or of a single chunk, only collects. -/
theorem collecting_after {payload : List UInt8} (hne : payload ≠ []) {id : String} :
    ∀ {ps : List EncodedPayload}, Encodes payload id ps →
      (split payload).length = 1 ∨ countId id ps < (split payload).length →
      Collecting (split payload).length id (countId id ps) (after ps) := by
  have hpos : 0 < (split payload).length := by
    have := List.length_pos_iff.mpr hne
    rw [length_split]
    omega
  intro ps
  induction ps using List.reverseRec with
  | nil =>
    intro _ _
    exact ⟨List.not_mem_nil, fun _ => rfl, fun h => absurd rfl h⟩
  | append_singleton ps p ih =>
    intro henc hlt
    rw [after_concat]
    rw [countId_concat] at hlt ⊢
    have hih := ih henc.of_append (hlt.imp_right fun h => by omega)
    by_cases hid : p.id = id
    · rw [if_pos hid] at hlt ⊢
      obtain ⟨hn, hl⟩ := henc.shape (List.mem_append_right _ (List.mem_singleton_self p)) hid
      exact (hih.cached hid hn hpos hl (by omega)).1
    · rw [if_neg hid]
      exact hih.other hid

/-- **What `PingRLNC` returns for an id.** In every sequence of calls whose packets of
`id` encode `payload`, every result for `id` is the padded payload if and only if the
payload has a single chunk or fewer packets of `id` than chunks arrive. -/
theorem reconstructs_payload_iff (payload : List UInt8) (hne : payload ≠ []) (id : String)
    (ps : List EncodedPayload) (henc : Encodes payload id ps) :
    (∀ r, Returns ps id r → r = padded payload) ↔
      payload.length ≤ 5 ∨ countId id ps < (split payload).length := by
  have hlen := length_split payload
  have hpos := List.length_pos_iff.mpr hne
  constructor
  · intro h
    by_contra hnot
    rw [not_or] at hnot
    -- the packet with number `n` completes the set
    obtain ⟨pre, p, post, rfl, hid, hc⟩ :=
      exists_nth (show (split payload).length - 1 < countId id ps by omega)
    have hcol := collecting_after hne henc.of_append (Or.inr (by omega))
    rw [hc] at hcol
    obtain ⟨hn, -⟩ := henc.shape (List.mem_append_right _ (List.mem_cons_self ..)) hid
    obtain ⟨r, hr, hrlen⟩ := hcol.completed hid hn (by omega) rfl
    have hpad := h r ⟨pre, p, post, rfl, hid, hr⟩
    rw [hpad, length_padded] at hrlen
    omega
  · intro h r h
    obtain ⟨pre, p, post, rfl, hid, hr⟩ := h
    -- the call only caches its packet
    have hcount : countId id (pre ++ p :: post) = countId id pre + 1 + countId id post := by
      unfold countId
      rw [List.countP_append, List.countP_cons_of_pos (by simpa using hid)]
      omega
    have hcol := collecting_after hne henc.of_append
      (h.imp (fun h5 => by omega) fun hlt => by omega)
    obtain ⟨hn, hl⟩ := henc.shape (List.mem_append_right _ (List.mem_cons_self ..)) hid
    have := (hcol.cached hid hn (by omega) hl (by omega)).2
    rw [this] at hr
    simp at hr

/-- Two packets of a payload of two chunks: the chunks themselves. -/
def twoChunks : List EncodedPayload :=
  [⟨[1, 0], [1, 2, 3, 4, 5], "ping"⟩, ⟨[0, 1], [6, 0, 0, 0, 0], "ping"⟩]

theorem twoChunks_encodes : Encodes [1, 2, 3, 4, 5, 6] "ping" twoChunks := by
  intro p hp _
  rcases List.mem_cons.mp hp with rfl | hp
  · exact ⟨fun i => if i = 0 then 1 else 0, by decide⟩
  · rw [List.mem_singleton.mp hp]
    exact ⟨fun i => if i = 1 then 1 else 0, by decide⟩

/-- With one of the two packets nothing is returned yet. -/
theorem reconstructs_payload_iff_short :
    countId "ping" (twoChunks.take 1) = 1 ∧
      ∀ r, Returns (twoChunks.take 1) "ping" r → r = padded [1, 2, 3, 4, 5, 6] :=
  ⟨rfl, (reconstructs_payload_iff [1, 2, 3, 4, 5, 6] (by decide) "ping" (twoChunks.take 1)
    fun p hp => twoChunks_encodes p (List.mem_of_mem_take hp)).mpr (by decide)⟩

/-- With both packets the first chunk alone is returned. -/
theorem reconstruction_incomplete :
    Encodes [1, 2, 3, 4, 5, 6] "ping" twoChunks ∧ Returns twoChunks "ping" [1, 2, 3, 4, 5] ∧
      [1, 2, 3, 4, 5] ≠ padded [1, 2, 3, 4, 5, 6] :=
  ⟨twoChunks_encodes, ⟨twoChunks.take 1, ⟨[0, 1], [6, 0, 0, 0, 0], "ping"⟩, [], rfl, rfl,
    by decide +kernel⟩, by decide⟩

end Rnet.Ping
