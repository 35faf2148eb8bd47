import Rnet.Ping.Frames
import Rnet.Ping.Isolation

/-!
# One direction of a coded ping

The frames that one end writes, in the order of the stream, and the engine that takes them at the
other end. The engine is shared by all streams of a node, so packets with other ids come in
between; and an exchange can be given up before all of its frames are written, or behind the read
of a frame and in front of its handling. The end of a connection takes the last frames on their
way with it, and what is written for it later.

> `Lane.Carries.read`: a frame never makes the reader panic, and it returns a payload exactly if
> its set lacks one packet.

> `Lane.Carries.increasing`: what is returned belongs to different requests, in their order.
-/

namespace Rnet.Ping

open Lib PingRLNC EncodedPayload

/-- A frame on the stream. The bytes are what is on the wire; the rest says where the frame is
from: its set, its place there, and the request that the set is or answers. -/
structure SetFrame where
  bytes : List UInt8
  id : String
  place : Nat
  request : Nat
  deriving DecidableEq

variable (B : Bincode EncodedPayload Short)

/-- `for frame in rlnc_frames`, with `as_bytes` of each. -/
def setFrames (request : Nat) (set : List EncodedPayload) : List SetFrame :=
  set.zipIdx.map fun p => ⟨p.1.asBytes B, p.1.id, p.2, request⟩

/-- The request, if its set was returned. -/
def Outcome.request (t : Nat) : Outcome → List Nat
  | returned _ => [t]
  | _ => []

/-- The frames of one direction and the engine at its end. -/
structure Lane where
  engine : PingRLNC := {}
  /-- The ids of the sets that were begun. -/
  ids : List String := []
  /-- The frames of the set that is being written. -/
  unsent : List SetFrame := []
  /-- The frames that were written and not read. -/
  queue : List SetFrame := []
  /-- The frames that were handled. -/
  handled : List SetFrame := []
  /-- The requests whose sets the engine has returned. -/
  returned : List Nat := []

namespace Lane

/-- A set is begun. -/
def start (lane : Lane) (request : Nat) (id : String) (set : List EncodedPayload) : Lane :=
  { lane with ids := id :: lane.ids, unsent := setFrames B request set }

/-- `stream.write` of the next frame, which may go to a connection that is over. -/
def write (lane : Lane) (arrives : Bool) : Option Lane :=
  match lane.unsent with
  | [] => none
  | f :: rest => some { lane with
      unsent := rest
      queue := lane.queue ++ if arrives then [f] else [] }

/-- The rest of the set is not written. -/
def abandon (lane : Lane) : Lane := { lane with unsent := [] }

/-- A round of the loop that reads: `stream.read()`, `from_bytes` and `handle_incoming`. -/
def read (lane : Lane) : Option (Lane × SetFrame × Outcome) :=
  match lane.queue with
  | [] => none
  | f :: rest =>
    match fromBytes B f.bytes with
    | none => some ({ lane with queue := rest }, f, .panicked)
    | some p =>
      let o := (lane.engine.handleIncoming p).2
      some ({ lane with
        engine := (lane.engine.handleIncoming p).1
        queue := rest
        handled := lane.handled ++ [f]
        returned := lane.returned ++ o.request f.request }, f, o)

/-- A frame is read, and the exchange is given up before it is handled. -/
def lose (lane : Lane) : Option Lane :=
  match lane.queue with
  | [] => none
  | _ :: rest => some { lane with queue := rest }

/-- Only the first `k` frames on their way are still read. -/
def keep (lane : Lane) (k : Nat) : Lane := { lane with queue := lane.queue.take k }

/-- A packet that came in on another stream is handled. -/
def other (lane : Lane) (p : EncodedPayload) : Lane :=
  { lane with engine := (lane.engine.handleIncoming p).1 }

/-- All frames that are not lost, in the order of the stream. -/
def frames (lane : Lane) : List SetFrame := lane.handled ++ (lane.queue ++ lane.unsent)

/-- An id that neither a set of the stream nor a packet in the engine has. -/
structure Fresh (lane : Lane) (id : String) : Prop where
  unused : id ∉ lane.ids
  unseen : id ∉ lane.engine.seen
  uncached : lane.engine.cache.lookup id = none

instance (lane : Lane) (id : String) : Decidable (lane.Fresh id) :=
  decidable_of_iff (id ∉ lane.ids ∧ id ∉ lane.engine.seen ∧ lane.engine.cache.lookup id = none)
    ⟨fun h => ⟨h.1, h.2.1, h.2.2⟩, fun h => ⟨h.unused, h.unseen, h.uncached⟩⟩

end Lane

/-! ## The frames of a set -/

/-- The frames of a set among some frames. -/
def countSet (id : String) (fs : List SetFrame) : Nat := fs.countP (·.id = id)

/-- A frame with a packet of its set. -/
def SetFrame.Sound (n : Nat) (f : SetFrame) : Prop :=
  ∃ p : EncodedPayload, f.bytes = p.asBytes B ∧ p.Short ∧ Coded n f.id p

theorem countSet_concat (id : String) (fs : List SetFrame) (f : SetFrame) :
    countSet id (fs ++ [f]) = countSet id fs + if f.id = id then 1 else 0 := by
  unfold countSet
  rw [List.countP_append, List.countP_singleton]
  simp only [decide_eq_true_eq]

theorem length_setFrames (request : Nat) (set : List EncodedPayload) :
    (setFrames B request set).length = set.length := by
  unfold setFrames
  rw [List.length_map, List.length_zipIdx]

/-- A set that was coded under a random id is made of sound frames. -/
theorem sound_of_coded {n : Nat} (hn : n < 256) {id : PayloadId} {set : List EncodedPayload}
    (hset : ∀ p ∈ set, Coded n id.text p) (request : Nat) :
    ∀ f ∈ setFrames B request set, f.Sound B n ∧ f.id = id.text ∧ f.request = request := by
  intro f hf
  obtain ⟨q, hq, rfl⟩ := List.mem_map.mp hf
  have hc := hset q.1 (List.fst_mem_of_mem_zipIdx hq)
  have hbig : 256 ≤ 256 ^ 8 := by decide
  refine ⟨⟨q.1, rfl, ⟨?_, ?_, ?_⟩, hc.coeffs, hc.payload, rfl⟩, hc.id, rfl⟩
  · rw [hc.coeffs]
    exact Nat.lt_of_lt_of_le hn hbig
  · rw [hc.payload]
    exact Nat.lt_of_lt_of_le (by decide) hbig
  · show (toUtf8 q.1.id).length < 256 ^ 8
    rw [hc.id, id.length_toUtf8]
    exact Nat.lt_of_lt_of_le (by decide) hbig

/-! ## A set in the engine -/

/-- What the engine has of a set of which `c` packets were handled: it collects them, or it has
seen the id. -/
structure Holds (n : Nat) (id : String) (c : Nat) (engine : PingRLNC) : Prop where
  collecting : c < n → Collecting n id c engine
  seen : n ≤ c → id ∈ engine.seen

section Holds

variable {n c : Nat} {id : String} {engine : PingRLNC} {p : EncodedPayload}

/-- A packet of another set. -/
theorem Holds.other (h : Holds n id c engine) (hp : p.id ≠ id) :
    Holds n id c (engine.handleIncoming p).1 where
  collecting hlt := (h.collecting hlt).other hp
  seen hle := ((engine.handleIncoming_handled p).other hp).1.mpr (h.seen hle)

/-- **A packet of the set**: it returns a payload if it is the last one that is needed, and
nothing otherwise. -/
theorem Holds.handle (h : Holds n id c engine) (hn : 2 ≤ n) (hp : Coded n id p) :
    Holds n id (c + 1) (engine.handleIncoming p).1 ∧
      (c = n - 1 → ∃ r, (engine.handleIncoming p).2 = .returned r ∧ r.length = 5 * (n - 1)) ∧
      (c ≠ n - 1 → (engine.handleIncoming p).2 = .none) := by
  -- the packet that completes the set, one in front of it, or one behind it
  by_cases hlast : c = n - 1
  · have hcol := h.collecting (by omega)
    obtain ⟨r, hr, hlen⟩ := hcol.completed hp.id hp.coeffs (by omega) hlast
    have hhandled := engine.handleIncoming_handled p
    rw [hr] at hhandled
    have hseen := hhandled.seen_of_returned
    rw [hp.id] at hseen
    exact ⟨⟨fun hlt => absurd hlt (by omega), fun _ => hseen⟩, fun _ => ⟨r, hr, hlen⟩,
      fun hne => absurd hlast hne⟩
  by_cases hlt : c < n
  · obtain ⟨hcol, hnone⟩ :=
      (h.collecting hlt).cached hp.id hp.coeffs (by omega) hp.payload (Or.inr hlast)
    exact ⟨⟨fun _ => hcol, fun hle => absurd hle (by omega)⟩, fun heq => absurd heq hlast,
      fun _ => hnone⟩
  · have hseen := h.seen (by omega)
    have hsame : engine.handleIncoming p = (engine, .none) := by
      unfold handleIncoming
      rw [if_pos (by rw [hp.id]; exact hseen)]
    rw [hsame]
    exact ⟨⟨fun hlt' => absurd hlt' (by omega), fun _ => hseen⟩, fun heq => absurd heq hlast,
      fun _ => rfl⟩

end Holds

/-! ## What is kept -/

namespace Lane

/-- The frames are sound and in the order of their requests, one set for each; the engine holds
what was handled of every set; and what it has returned are requests in their order. -/
structure Carries (n : Nat) (lane : Lane) : Prop where
  sound : ∀ f ∈ lane.frames, f.Sound B n ∧ f.id ∈ lane.ids
  holds : ∀ id ∈ lane.ids, Holds n id (countSet id lane.handled) lane.engine
  sorted : (lane.frames.map (·.request)).Pairwise (· ≤ ·)
  same : ∀ f ∈ lane.frames, ∀ g ∈ lane.frames, f.request = g.request → f.id = g.id
  complete : ∀ t ∈ lane.returned, ∃ f ∈ lane.handled, f.request = t ∧
    n ≤ countSet f.id lane.handled
  increasing : lane.returned.Pairwise (· < ·)

theorem Carries.init (n : Nat) : Carries B n {} where
  sound _ hf := absurd hf List.not_mem_nil
  holds _ hid := absurd hid List.not_mem_nil
  sorted := .nil
  same _ hf := absurd hf List.not_mem_nil
  complete _ ht := absurd ht List.not_mem_nil
  increasing := .nil

variable {B} {n : Nat} {lane lane' : Lane}

/-- Nothing was handled of a set that was not begun. -/
theorem Carries.countSet_eq_zero (h : Carries B n lane) {id : String} (hid : id ∉ lane.ids) :
    countSet id lane.handled = 0 := by
  apply List.countP_eq_zero.mpr
  intro f hf heq
  have hmem := (h.sound f (List.mem_append_left _ hf)).2
  rw [of_decide_eq_true heq] at hmem
  exact hid hmem

/-- What was returned is a request that frames belong to. -/
theorem Carries.mem_returned (h : Carries B n lane) {t : Nat} (ht : t ∈ lane.returned) :
    ∃ f ∈ lane.frames, f.request = t := by
  obtain ⟨f, hf, hreq, -⟩ := h.complete t ht
  exact ⟨f, List.mem_append_left _ hf, hreq⟩

/-- The frames of a set are behind the others. -/
theorem frames_start (hu : lane.unsent = []) (request : Nat) (id : String)
    (set : List EncodedPayload) :
    (lane.start B request id set).frames = lane.frames ++ setFrames B request set := by
  show lane.handled ++ (lane.queue ++ setFrames B request set) = _
  unfold frames
  rw [hu, List.append_nil, List.append_assoc]

/-- A set is begun, for a request that is later than the others. -/
theorem Carries.start (h : Carries B n lane) (hn : 0 < n) (hn' : n < 256) {id : PayloadId}
    (hf : lane.Fresh id.text) (hu : lane.unsent = []) {request : Nat}
    (hlate : ∀ f ∈ lane.frames, f.request < request) {set : List EncodedPayload}
    (hset : ∀ p ∈ set, Coded n id.text p) : Carries B n (lane.start B request id.text set) := by
  have hsound := sound_of_coded B hn' hset request
  have hframes := frames_start (B := B) hu request id.text set
  constructor
  · intro f hm
    rw [hframes] at hm
    rcases List.mem_append.mp hm with hm | hm
    · exact (h.sound f hm).imp_right (List.mem_cons_of_mem _)
    · obtain ⟨hs, hid, -⟩ := hsound f hm
      exact ⟨hs, by rw [hid]; exact List.mem_cons_self ..⟩
  · intro j hj
    rcases List.mem_cons.mp hj with rfl | hj
    · show Holds n id.text (countSet id.text lane.handled) lane.engine
      rw [h.countSet_eq_zero hf.unused]
      exact ⟨fun _ => ⟨hf.unseen, fun _ => hf.uncached, fun hne => absurd rfl hne⟩,
        fun hle => absurd hle (by omega)⟩
    · exact h.holds j hj
  · rw [hframes, List.map_append, List.pairwise_append]
    refine ⟨h.sorted, ?_, ?_⟩
    · rw [List.pairwise_map]
      apply List.pairwise_of_forall_mem_list
      intro f hf g hg
      rw [(hsound f hf).2.2, (hsound g hg).2.2]
    · intro a ha b hb
      obtain ⟨f, hf, rfl⟩ := List.mem_map.mp ha
      obtain ⟨g, hg, rfl⟩ := List.mem_map.mp hb
      rw [(hsound g hg).2.2]
      exact Nat.le_of_lt (hlate f hf)
  · rw [hframes]
    intro f hf g hg heq
    rcases List.mem_append.mp hf with hf | hf <;> rcases List.mem_append.mp hg with hg | hg
    · exact h.same f hf g hg heq
    · have := hlate f hf
      rw [heq, (hsound g hg).2.2] at this
      exact absurd this (Nat.lt_irrefl _)
    · have := hlate g hg
      rw [← heq, (hsound f hf).2.2] at this
      exact absurd this (Nat.lt_irrefl _)
    · rw [(hsound f hf).2.1, (hsound g hg).2.1]
  · exact h.complete
  · exact h.increasing

/-- Fewer frames on their way. -/
theorem Carries.of_sublist (h : Carries B n lane) (hsub : lane'.frames.Sublist lane.frames)
    (hids : lane'.ids = lane.ids) (hengine : lane'.engine = lane.engine)
    (hhandled : lane'.handled = lane.handled) (hreturned : lane'.returned = lane.returned) :
    Carries B n lane' where
  sound f hf := by
    rw [hids]
    exact h.sound f (hsub.subset hf)
  holds := by
    rw [hids, hengine, hhandled]
    exact h.holds
  sorted := h.sorted.sublist (hsub.map _)
  same f hf g hg := h.same f (hsub.subset hf) g (hsub.subset hg)
  complete := by
    rw [hreturned, hhandled]
    exact h.complete
  increasing := by
    rw [hreturned]
    exact h.increasing

/-- A frame goes to the stream. -/
theorem write_some {arrives : Bool} (hw : lane.write arrives = some lane') :
    ∃ f rest, lane.unsent = f :: rest ∧
      lane' = { lane with unsent := rest, queue := lane.queue ++ if arrives then [f] else [] } ∧
      lane'.frames.Sublist lane.frames := by
  unfold write at hw
  cases hu : lane.unsent with
  | nil => simp [hu] at hw
  | cons f rest =>
    rw [hu] at hw
    obtain rfl := Option.some.inj hw
    refine ⟨f, rest, rfl, rfl, ?_⟩
    have hsub : ((if arrives then [f] else []) ++ rest).Sublist (f :: rest) := by
      cases arrives with
      | true => exact List.Sublist.refl _
      | false => exact List.sublist_cons_self f rest
    unfold frames
    rw [hu, List.append_assoc]
    exact (List.Sublist.refl _).append ((List.Sublist.refl _).append hsub)

/-- A frame is on its way. -/
theorem write_true (hw : lane.write true = some lane') :
    ∃ f rest, lane.unsent = f :: rest ∧
      lane' = { lane with unsent := rest, queue := lane.queue ++ [f] } ∧
      lane'.frames = lane.frames := by
  obtain ⟨f, rest, hu, rfl, -⟩ := write_some hw
  refine ⟨f, rest, hu, rfl, ?_⟩
  unfold frames
  rw [hu, if_pos rfl, List.append_assoc, List.singleton_append]

theorem Carries.write (h : Carries B n lane) {arrives : Bool}
    (hw : lane.write arrives = some lane') : Carries B n lane' := by
  obtain ⟨f, rest, -, rfl, hsub⟩ := write_some hw
  exact h.of_sublist hsub rfl rfl rfl rfl

theorem frames_abandon (lane : Lane) : lane.abandon.frames <+: lane.frames := by
  refine ⟨lane.unsent, ?_⟩
  show (lane.handled ++ (lane.queue ++ [])) ++ lane.unsent = _
  rw [List.append_nil, List.append_assoc]
  rfl

theorem Carries.abandon (h : Carries B n lane) : Carries B n lane.abandon :=
  h.of_sublist lane.frames_abandon.sublist rfl rfl rfl rfl

/-- A frame is lost. -/
theorem lose_some (hl : lane.lose = some lane') :
    ∃ f rest, lane.queue = f :: rest ∧ lane' = { lane with queue := rest } ∧
      lane'.frames.Sublist lane.frames := by
  unfold lose at hl
  cases hq : lane.queue with
  | nil => simp [hq] at hl
  | cons f rest =>
    rw [hq] at hl
    obtain rfl := Option.some.inj hl
    refine ⟨f, rest, rfl, rfl, ?_⟩
    unfold frames
    rw [hq]
    exact (List.Sublist.refl _).append ((List.sublist_cons_self f rest).append_right _)

theorem Carries.lose (h : Carries B n lane) (hl : lane.lose = some lane') : Carries B n lane' := by
  obtain ⟨f, rest, -, rfl, hsub⟩ := lose_some hl
  exact h.of_sublist hsub rfl rfl rfl rfl

theorem frames_keep (lane : Lane) (k : Nat) : (lane.keep k).frames.Sublist lane.frames := by
  unfold frames keep
  exact (List.Sublist.refl _).append ((List.take_sublist k _).append_right _)

theorem Carries.keep (h : Carries B n lane) (k : Nat) : Carries B n (lane.keep k) :=
  h.of_sublist (lane.frames_keep k) rfl rfl rfl rfl

theorem Carries.other (h : Carries B n lane) {p : EncodedPayload} (hp : p.id ∉ lane.ids) :
    Carries B n (lane.other p) where
  sound := h.sound
  holds id hid := (h.holds id hid).other fun heq => hp (heq ▸ hid)
  sorted := h.sorted
  same := h.same
  complete := h.complete
  increasing := h.increasing

/-- What was returned before is of earlier requests than a frame whose set was not returned. -/
theorem Carries.late (h : Carries B n lane) {f : SetFrame} (hf : f ∈ lane.queue)
    (hc : countSet f.id lane.handled < n) : ∀ t ∈ lane.returned, t < f.request := by
  intro t ht
  obtain ⟨g, hg, rfl, hcount⟩ := h.complete t ht
  have hfm : f ∈ lane.queue ++ lane.unsent := List.mem_append_left _ hf
  have hsorted := h.sorted
  unfold frames at hsorted
  rw [List.map_append, List.pairwise_append] at hsorted
  have hle := hsorted.2.2 _ (List.mem_map_of_mem hg) _ (List.mem_map_of_mem hfm)
  rcases Nat.lt_or_eq_of_le hle with hlt | heq
  · exact hlt
  · have hsame := h.same g (List.mem_append_left _ hg) f (List.mem_append_right _ hfm) heq
    rw [hsame] at hcount
    omega

/-- A frame was handled. -/
theorem Carries.of_handled (h : Carries B n lane) {f : SetFrame}
    (hframes : lane'.frames = lane.frames) (hids : lane'.ids = lane.ids)
    (hhandled : lane'.handled = lane.handled ++ [f])
    (hholds : ∀ id ∈ lane.ids, Holds n id (countSet id lane'.handled) lane'.engine)
    (hreturned : lane'.returned = lane.returned ∨
      n ≤ countSet f.id lane'.handled ∧ lane'.returned = lane.returned ++ [f.request] ∧
        ∀ t ∈ lane.returned, t < f.request) : Carries B n lane' := by
  have hcomplete : ∀ t ∈ lane.returned, ∃ g ∈ lane'.handled, g.request = t ∧
      n ≤ countSet g.id lane'.handled := by
    intro t ht
    obtain ⟨g, hg, hreq, hcount⟩ := h.complete t ht
    rw [hhandled]
    refine ⟨g, List.mem_append_left _ hg, hreq, ?_⟩
    rw [countSet_concat]
    omega
  refine ⟨?_, ?_, ?_, ?_, ?_, ?_⟩
  · rw [hframes, hids]
    exact h.sound
  · rw [hids]
    exact hholds
  · rw [hframes]
    exact h.sorted
  · rw [hframes]
    exact h.same
  · rcases hreturned with heq | ⟨hcount, heq, -⟩
    · rw [heq]
      exact hcomplete
    · rw [heq]
      intro t ht
      rcases List.mem_append.mp ht with ht | ht
      · exact hcomplete t ht
      · refine ⟨f, ?_, (List.mem_singleton.mp ht).symm, hcount⟩
        rw [hhandled]
        exact List.mem_append_right _ (List.mem_singleton_self f)
  · rcases hreturned with heq | ⟨-, heq, hlate⟩
    · rw [heq]
      exact h.increasing
    · rw [heq, List.pairwise_append]
      refine ⟨h.increasing, List.pairwise_singleton .., fun t ht u hu => ?_⟩
      rw [List.mem_singleton.mp hu]
      exact hlate t ht

/-- How the reading of a frame ends. -/
inductive Reads (n : Nat) (lane lane' : Lane) (f : SetFrame) : Outcome → Prop
  /-- The set lacked one packet, and the request is later than those returned before. -/
  | returned {r : List UInt8} (hlast : countSet f.id lane.handled = n - 1)
      (hlen : r.length = 5 * (n - 1)) (hlane : lane'.returned = lane.returned ++ [f.request])
      (hlate : ∀ t ∈ lane.returned, t < f.request) : Reads n lane lane' f (.returned r)
  | none (hnot : countSet f.id lane.handled ≠ n - 1) (hlane : lane'.returned = lane.returned) :
      Reads n lane lane' f .none

/-- What a read does to the frames. -/
theorem read_some {f : SetFrame} {o : Outcome} (hr : lane.read B = some (lane', f, o)) :
    lane.queue = f :: lane'.queue ∧
      ∀ p, fromBytes B f.bytes = some p → o = (lane.engine.handleIncoming p).2 ∧
        lane' = { lane with
          engine := (lane.engine.handleIncoming p).1
          queue := lane'.queue
          handled := lane.handled ++ [f]
          returned := lane.returned ++ o.request f.request } := by
  unfold read at hr
  cases hq : lane.queue with
  | nil => simp [hq] at hr
  | cons g rest =>
    cases hp : fromBytes B g.bytes with
    | none =>
      simp only [hq, hp, Option.some.injEq, Prod.mk.injEq] at hr
      obtain ⟨rfl, rfl, rfl⟩ := hr
      exact ⟨rfl, fun p hp' => absurd (hp.symm.trans hp').symm (Option.some_ne_none p)⟩
    | some p =>
      simp only [hq, hp, Option.some.injEq, Prod.mk.injEq] at hr
      obtain ⟨rfl, rfl, rfl⟩ := hr
      refine ⟨rfl, fun p' hp' => ?_⟩
      obtain rfl := Option.some.inj (hp.symm.trans hp')
      exact ⟨rfl, rfl⟩

/-- **A frame is read.** -/
theorem Carries.read (h : Carries B n lane) (hn : 2 ≤ n) {f : SetFrame} {o : Outcome}
    (hr : lane.read B = some (lane', f, o)) :
    Carries B n lane' ∧ Reads n lane lane' f o ∧ lane.queue = f :: lane'.queue ∧
      lane'.handled = lane.handled ++ [f] ∧ lane'.frames = lane.frames ∧
      lane'.ids = lane.ids ∧ lane'.unsent = lane.unsent := by
  obtain ⟨hq, hlane⟩ := read_some hr
  have hf : f ∈ lane.queue := by
    rw [hq]
    exact List.mem_cons_self ..
  obtain ⟨⟨p, hbytes, hshort, hp⟩, hid⟩ :=
    h.sound f (List.mem_append_right _ (List.mem_append_left _ hf))
  obtain ⟨ho, hlane⟩ := hlane p (by rw [hbytes, fromBytes_asBytes B hshort])
  obtain ⟨hself, hlast, hnot⟩ := (h.holds f.id hid).handle hn hp
  rw [← ho] at hlast hnot
  have hhandled : lane'.handled = lane.handled ++ [f] := by rw [hlane]
  have hids : lane'.ids = lane.ids := by rw [hlane]
  have hunsent : lane'.unsent = lane.unsent := by rw [hlane]
  have hreturned : lane'.returned = lane.returned ++ o.request f.request := by rw [hlane]
  have hframes : lane'.frames = lane.frames := by
    unfold frames
    rw [hhandled, hunsent, hq, List.append_assoc]
    rfl
  have hholds : ∀ id ∈ lane.ids, Holds n id (countSet id lane'.handled) lane'.engine := by
    intro id hi
    have hengine : lane'.engine = (lane.engine.handleIncoming p).1 := by rw [hlane]
    rw [hhandled, countSet_concat, hengine]
    by_cases heq : f.id = id
    · rw [if_pos heq, ← heq]
      exact hself
    · rw [if_neg heq, Nat.add_zero]
      exact (h.holds id hi).other (by rw [hp.id]; exact heq)
  have hcount : countSet f.id lane'.handled = countSet f.id lane.handled + 1 := by
    rw [hhandled, countSet_concat, if_pos rfl]
  by_cases hc : countSet f.id lane.handled = n - 1
  · have hlate := h.late hf (by omega)
    have hle : n ≤ countSet f.id lane'.handled := by omega
    obtain ⟨r, rfl, hlen⟩ := hlast hc
    exact ⟨h.of_handled hframes hids hhandled hholds (.inr ⟨hle, hreturned, hlate⟩),
      .returned hc hlen hreturned hlate, hq, hhandled, hframes, hids, hunsent⟩
  · obtain rfl := hnot hc
    have hreturned : lane'.returned = lane.returned := hreturned.trans (List.append_nil _)
    exact ⟨h.of_handled hframes hids hhandled hholds (.inl hreturned), .none hc hreturned, hq,
      hhandled, hframes, hids, hunsent⟩

end Lane

end Rnet.Ping
