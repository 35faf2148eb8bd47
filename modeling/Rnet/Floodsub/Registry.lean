import Rnet.Floodsub.PubSub
import Rnet.Lib.System

/-!
# The peers of a floodsub node

One node with its tasks: a stream handler for every floodsub stream that was opened, and
the internal API loop. A stream that ends queues `DeadPeers` for the loop, and the
loop removes the peer from both maps; until then, and with a second stream to
the same peer, the maps and the streams go their own ways.

> `listed_known`: in every run in which the loop removes a peer only while no stream handler
> of that peer runs, every peer listed under a topic is a key of `peers`.

Without that condition a handler that still runs subscribes a peer that has just been
removed (`Registry.late_subscription`), and `write_msg` unwraps the lookup of it.
-/

namespace Rnet.Floodsub

open Rnet.Lib
open Rnet.Lib.System (runUnder_of_exec)

/-- A call of `stream_handler`. -/
structure StreamHandler where
  peerId : String
  running : Bool
  deriving DecidableEq, Repr

/-- `SubAPIMpscFlag` with its payload. -/
inductive ApiEvent
  | unsubscribe (topics : List String)
  | deadPeers (peer_ids : List String)
  | publish (topics : List String) (data : Option (List UInt8))
  deriving DecidableEq, Repr

/-- A floodsub node with its tasks. -/
structure Registry where
  fs : FloodSub
  /-- the stream handlers, in the order they started in -/
  streams : List StreamHandler := []
  /-- the events in the channel and in the `notification` queue of `handle_internal_api` -/
  apiQueue : List ApiEvent := []
  apiRunning : Bool := true
  /-- the peers that a `publish` call still has to write to: the call is made by the internal
  API loop (`none`) or by a stream handler -/
  forwarding : Option Nat → Finset String := fun _ => ∅

/-- One turn of one task of the node. -/
inductive RegistryAct
  /-- a floodsub stream to a peer is opened, from either side -/
  | newPeer (peer_id : String)
  /-- stream handler `h` handles one entry of `rpc.subscriptions` -/
  | subopts (h : Nat) (sub_msg : SubOpts)
  /-- stream handler `h` handles one message of `rpc.publish` -/
  | publishMsg (h : Nat) (msg : Message) (now : UInt64)
  /-- a `publish` call writes to one more peer -/
  | write (task : Option Nat) (peer_id : String)
  /-- stream handler `h` fails to read or to write, and leaves its loop -/
  | streamEnd (h : Nat)
  /-- a task panics: an RPC that does not decode, a receiver of events that is gone -/
  | crash (task : Option Nat)
  /-- the node's owner or a subscription sends to the internal API -/
  | apiSend (event : ApiEvent)
  /-- the internal API loop handles the next event -/
  | apiNext (now : UInt64)
  /-- `subscribe` -/
  | subscribe (topic_id : String)
  /-- `unsubscribe`, from the node's owner -/
  | unsubscribe (topics : List String)
  deriving DecidableEq

namespace Registry

/-- The receiver that stream handler `h` holds. -/
def receives (s : Registry) (h : Nat) : Bool := (s.streams[h]?).any (·.running)

/-- `message_all_peers`: `false` is a panic, some receiver is gone. -/
def messageAllPeers (s : Registry) : Bool := s.fs.peers.entries.all fun e => s.receives e.2

/-- A task ends; nothing that was sent to it is received any more. -/
def stop (s : Registry) : Option Nat → Registry
  | none => { s with
      apiRunning := false
      apiQueue := []
      forwarding := Function.update s.forwarding none ∅ }
  | some h => { s with
      streams := s.streams.modify h fun hd => { hd with running := false }
      forwarding := Function.update s.forwarding (some h) ∅ }

/-- `unsubscribe`; `false` is a panic. -/
def unsubscribe (s : Registry) : List String → Registry × Bool
  | [] => (s, true)
  | topic_id :: topics =>
    if topic_id ∉ s.fs.getSubscribedTopics.getD [] then (s, true)
    else
      let s' := { s with
        fs := { s.fs with subscribedTopicApi := s.fs.subscribedTopicApi.erase topic_id } }
      if s'.messageAllPeers then unsubscribe s' topics else (s', false)

/-- One event in the loop of `handle_internal_api`. -/
def handleInternalApi (s : Registry) (now : UInt64) : ApiEvent → Registry
  | .deadPeers peer_ids => { s with fs := s.fs.handleDeadPeers peer_ids }
  | .unsubscribe topics =>
    match s.unsubscribe topics with
    | (s', true) => s'
    | (s', false) => s'.stop none
  | .publish topics data =>
    let pub_msg := s.fs.publishMessage data topics now
    { s with
      forwarding :=
        Function.update s.forwarding none (s.fs.publishPeers s.fs.localPeerId pub_msg) }

/-- The handler `h` when it runs and is not in the middle of a `publish` call. -/
def idle (s : Registry) (h : Nat) : Option StreamHandler :=
  (s.streams[h]?).filter fun hd => hd.running ∧ s.forwarding (some h) = ∅

/-- One turn of one task. -/
def step (s : Registry) : RegistryAct → Option Registry
  | .newPeer peer_id =>
    some { s with
      fs := s.fs.handleNewPeer peer_id s.streams.length
      streams := s.streams ++ [⟨peer_id, true⟩] }
  | .subopts h sub_msg =>
    match s.idle h with
    | none => none
    | some hd =>
      match s.fs.handleSubopts hd.peerId sub_msg with
      | none => some (s.stop (some h))
      | some fs => some { s with fs := fs }
  | .publishMsg h msg now =>
    match s.idle h with
    | none => none
    | some hd =>
      match s.fs.handlePublish msg hd.peerId now with
      | none => some (s.stop (some h))
      | some (fs, none) => some { s with fs := fs }
      | some (fs, some peers) =>
        some { s with fs := fs, forwarding := Function.update s.forwarding (some h) peers }
  | .write task peer_id =>
    if peer_id ∈ s.forwarding task then
      match s.fs.writeMsg peer_id with
      | none => some (s.stop task)
      | some h =>
        if s.receives h then
          some { s with
            forwarding := Function.update s.forwarding task ((s.forwarding task).erase peer_id) }
        else some (s.stop task)
    else none
  | .streamEnd h =>
    match s.idle h with
    | none => none
    | some hd =>
      let s' := s.stop (some h)
      some { s' with
        apiQueue := if s.apiRunning then s.apiQueue ++ [.deadPeers [hd.peerId]] else [] }
  | .crash task => some (s.stop task)
  | .apiSend event =>
    match s.apiRunning, event with
    | false, _ | _, .deadPeers _ => none
    | true, event => some { s with apiQueue := s.apiQueue ++ [event] }
  | .apiNext now =>
    match s.apiQueue with
    | [] => none
    | event :: rest =>
      if s.forwarding none = ∅ then
        let s' := { s with apiQueue := rest }
        some (s'.handleInternalApi now event)
      else none
  | .subscribe topic_id =>
    if topic_id ∈ s.fs.getSubscribedTopics.getD [] then some s
    else some { s with
      fs := { s.fs with subscribedTopicApi := s.fs.subscribedTopicApi.insert topic_id [] } }
  | .unsubscribe topics => some (s.unsubscribe topics).1

/-- Every peer listed under a topic is a key of `peers`. -/
def TopicsKnown (s : Registry) : Prop := ∀ topic peer, s.fs.Lists topic peer → peer ∈ s.fs.peers

/-- A stream handler of the peer runs. -/
def Runs (s : Registry) (peer : String) : Prop :=
  ∃ hd ∈ s.streams, hd.running = true ∧ hd.peerId = peer

/-- The peers that a turn is about to remove. -/
def removed (s : Registry) : RegistryAct → List String
  | .apiNext _ =>
    match s.apiQueue with
    | .deadPeers peer_ids :: _ => peer_ids
    | _ => []
  | _ => []

/-- The turn removes no peer that a stream handler still runs for. -/
def RemovesDead (s : Registry) (a : RegistryAct) : Prop :=
  ∀ hd ∈ s.streams, hd.running = true → hd.peerId ∉ s.removed a

instance (s : Registry) (a : RegistryAct) : Decidable (s.RemovesDead a) :=
  inferInstanceAs (Decidable (∀ hd ∈ s.streams, hd.running = true → hd.peerId ∉ s.removed a))

end Registry

/-- A node from its start on. -/
def registry (localPeerId : String) : System Registry RegistryAct where
  init s := s = { fs := { localPeerId } }
  step := Registry.step

namespace Registry

/-! ## What a turn does to the two maps -/

/-- A turn, as far as the two maps and the running handlers go. -/
inductive Effect (s : Registry) (a : RegistryAct) (s' : Registry) : Prop
  | frame (peers : s'.fs.peers = s.fs.peers) (topics : s'.fs.peerTopics = s.fs.peerTopics)
      (runs : ∀ p, s'.Runs p → s.Runs p)
  | register (peer_id : String) (h : Nat) (fs : s'.fs = s.fs.handleNewPeer peer_id h)
      (runs : ∀ p, s'.Runs p → s.Runs p ∨ p = peer_id)
  | subopts (hd : StreamHandler) (sub_msg : SubOpts) (hmem : hd ∈ s.streams)
      (hrun : hd.running = true) (fs : s.fs.handleSubopts hd.peerId sub_msg = some s'.fs)
      (streams : s'.streams = s.streams)
  | remove (fs : s'.fs = s.fs.handleDeadPeers (s.removed a)) (streams : s'.streams = s.streams)

/-- A task that ends starts no handler. -/
theorem runs_stop {s : Registry} (task : Option Nat) {peer : String}
    (h : (s.stop task).Runs peer) : s.Runs peer := by
  cases task with
  | none => exact h
  | some i =>
    obtain ⟨hd, hmem, hrun, hpeer⟩ := h
    obtain ⟨j, hj⟩ := List.mem_iff_getElem?.mp hmem
    rw [show (s.stop (some i)).streams = s.streams.modify i fun hd => { hd with running := false }
      from rfl, List.getElem?_modify] at hj
    obtain ⟨hd₀, hj₀, rfl⟩ := Option.map_eq_some_iff.mp hj
    -- a handler that was stopped does not run
    have hne : i ≠ j := by
      intro h
      subst h
      simp at hrun
    rw [if_neg hne] at hrun hpeer
    exact ⟨hd₀, List.mem_of_getElem? hj₀, hrun, hpeer⟩

theorem stop_fs (s : Registry) (task : Option Nat) : (s.stop task).fs = s.fs := by
  cases task with
  | none => rfl
  | some h => rfl

/-- An idle handler is one of the handlers, and runs. -/
theorem of_idle {s : Registry} {h : Nat} {hd : StreamHandler} (hi : s.idle h = some hd) :
    hd ∈ s.streams ∧ hd.running = true := by
  obtain ⟨hget, hrun⟩ := Option.filter_eq_some_iff.mp hi
  exact ⟨List.mem_of_getElem? hget, (of_decide_eq_true hrun).1⟩

/-- Unsubscribing leaves the two maps and the handlers alone. -/
theorem unsubscribe_frame : ∀ (topics : List String) (s : Registry),
    (s.unsubscribe topics).1.fs.peers = s.fs.peers ∧
      (s.unsubscribe topics).1.fs.peerTopics = s.fs.peerTopics ∧
      (s.unsubscribe topics).1.streams = s.streams := by
  intro topics
  induction topics with
  | nil => exact fun s => ⟨rfl, rfl, rfl⟩
  | cons topic_id topics ih =>
    intro s
    rw [unsubscribe]
    split
    · exact ⟨rfl, rfl, rfl⟩
    · dsimp only
      split
      · exact ih _
      · exact ⟨rfl, rfl, rfl⟩

/-- The maps stay as they are, and no handler starts. -/
structure Frame (s s' : Registry) : Prop where
  peers : s'.fs.peers = s.fs.peers
  topics : s'.fs.peerTopics = s.fs.peerTopics
  runs : ∀ p, s'.Runs p → s.Runs p

/-- A task that ends changes neither map. -/
theorem frame_stop (s : Registry) (task : Option Nat) : Frame s (s.stop task) :=
  ⟨by rw [stop_fs], by rw [stop_fs], fun _ => runs_stop task⟩

/-- Unsubscribing changes neither map. -/
theorem frame_unsubscribe (s : Registry) (topics : List String) :
    Frame s (s.unsubscribe topics).1 := by
  obtain ⟨hp, ht, hs⟩ := unsubscribe_frame topics s
  refine ⟨hp, ht, fun p hr => ?_⟩
  unfold Runs at hr
  rwa [hs] at hr

/-- The internal API loop leaves the maps alone, or removes dead peers. -/
theorem apiNext_cases {s s' : Registry} {now : UInt64} (h : s.step (.apiNext now) = some s') :
    Frame s s' ∨
      (s'.fs = s.fs.handleDeadPeers (s.removed (.apiNext now)) ∧ s'.streams = s.streams) := by
  simp only [step] at h
  cases hq : s.apiQueue with
  | nil =>
    rw [hq] at h
    simp at h
  | cons event rest =>
    rw [hq] at h
    dsimp only at h
    split at h
    swap
    · simp at h
    obtain rfl := Option.some.inj h
    cases event with
    | deadPeers peer_ids =>
      refine Or.inr ⟨?_, rfl⟩
      unfold removed
      rw [hq]
      rfl
    | publish topics data => exact Or.inl ⟨rfl, rfl, fun _ hr => hr⟩
    | unsubscribe topics =>
      have hframe := frame_unsubscribe { s with apiQueue := rest } topics
      unfold handleInternalApi
      dsimp only
      rcases hu : unsubscribe { s with apiQueue := rest } topics with ⟨s₁, ok⟩
      rw [hu] at hframe
      cases ok with
      | true => exact Or.inl ⟨hframe.peers, hframe.topics, hframe.runs⟩
      | false =>
        have hstop := frame_stop s₁ none
        exact Or.inl ⟨hframe.peers, hframe.topics, fun p hr => hframe.runs p (hstop.runs p hr)⟩

/-- The turns of the other tasks that leave the maps alone. -/
theorem step_frame {s s' : Registry} {a : RegistryAct} (hnew : ∀ peer_id, a ≠ .newPeer peer_id)
    (hsub : ∀ h sub_msg, a ≠ .subopts h sub_msg) (hapi : ∀ now, a ≠ .apiNext now)
    (h : s.step a = some s') : Frame s s' := by
  cases a with
  | newPeer peer_id => exact absurd rfl (hnew peer_id)
  | subopts i sub_msg => exact absurd rfl (hsub i sub_msg)
  | apiNext now => exact absurd rfl (hapi now)
  | publishMsg i msg now =>
    simp only [step] at h
    cases hi : s.idle i with
    | none =>
      rw [hi] at h
      simp at h
    | some hd =>
      rw [hi] at h
      dsimp only at h
      rcases hpub : s.fs.handlePublish msg hd.peerId now with _ | ⟨fs, peers⟩
      · rw [hpub] at h
        obtain rfl := Option.some.inj h
        exact frame_stop s _
      · have hsame := (handlePublish_frame hpub).store
        rw [hpub] at h
        cases peers with
        | none =>
          obtain rfl := Option.some.inj h
          exact ⟨hsame.peers, hsame.peerTopics, fun _ hr => hr⟩
        | some peers =>
          obtain rfl := Option.some.inj h
          exact ⟨hsame.peers, hsame.peerTopics, fun _ hr => hr⟩
  | write task peer_id =>
    simp only [step] at h
    split at h
    swap
    · simp at h
    split at h
    · obtain rfl := Option.some.inj h
      exact frame_stop s _
    · split at h
      · obtain rfl := Option.some.inj h
        exact ⟨rfl, rfl, fun _ hr => hr⟩
      · obtain rfl := Option.some.inj h
        exact frame_stop s _
  | streamEnd i =>
    simp only [step] at h
    cases hi : s.idle i with
    | none =>
      rw [hi] at h
      simp at h
    | some hd =>
      rw [hi] at h
      obtain rfl := Option.some.inj h
      exact ⟨rfl, rfl, fun _ hr => runs_stop (some i) hr⟩
  | crash task =>
    obtain rfl := Option.some.inj h
    exact frame_stop s _
  | apiSend event =>
    simp only [step] at h
    split at h
    · simp at h
    · simp at h
    · obtain rfl := Option.some.inj h
      exact ⟨rfl, rfl, fun _ hr => hr⟩
  | subscribe topic_id =>
    simp only [step] at h
    split at h
    · obtain rfl := Option.some.inj h
      exact ⟨rfl, rfl, fun _ hr => hr⟩
    · obtain rfl := Option.some.inj h
      exact ⟨rfl, rfl, fun _ hr => hr⟩
  | unsubscribe topics =>
    obtain rfl := Option.some.inj h
    exact frame_unsubscribe s topics

/-- A handler that reads subscription options handles them, or panics over them. -/
theorem subopts_cases {s s' : Registry} {i : Nat} {sub_msg : SubOpts}
    (h : s.step (.subopts i sub_msg) = some s') : ∃ hd, s.idle i = some hd ∧
      ((s.fs.handleSubopts hd.peerId sub_msg = none ∧ s' = s.stop (some i)) ∨
        ∃ fs, s.fs.handleSubopts hd.peerId sub_msg = some fs ∧ s' = { s with fs := fs }) := by
  simp only [step] at h
  cases hi : s.idle i with
  | none =>
    rw [hi] at h
    simp at h
  | some hd =>
    rw [hi] at h
    dsimp only at h
    refine ⟨hd, rfl, ?_⟩
    cases hsub : s.fs.handleSubopts hd.peerId sub_msg with
    | none =>
      rw [hsub] at h
      exact Or.inl ⟨rfl, (Option.some.inj h).symm⟩
    | some fs =>
      rw [hsub] at h
      exact Or.inr ⟨fs, rfl, (Option.some.inj h).symm⟩

/-- **Every turn** leaves the maps alone, registers a stream, handles subscription options of a
running handler, or removes dead peers. -/
theorem step_effect {s s' : Registry} {a : RegistryAct} (h : s.step a = some s') :
    s.Effect a s' := by
  cases a with
  | newPeer peer_id =>
    obtain rfl := Option.some.inj h
    refine .register peer_id s.streams.length rfl ?_
    intro p h
    obtain ⟨hd, hmem, hrun, hpeer⟩ := h
    rcases List.mem_append.mp hmem with hmem | hmem
    · exact Or.inl ⟨hd, hmem, hrun, hpeer⟩
    · obtain rfl := List.mem_singleton.mp hmem
      exact Or.inr hpeer.symm
  | subopts i sub_msg =>
    obtain ⟨hd, hi, ⟨-, rfl⟩ | ⟨fs, hsub, rfl⟩⟩ := subopts_cases h
    · have hframe := frame_stop s (some i)
      exact .frame hframe.peers hframe.topics hframe.runs
    · exact .subopts hd sub_msg (of_idle hi).1 (of_idle hi).2 hsub rfl
  | apiNext now =>
    rcases apiNext_cases h with hframe | ⟨hfs, hstreams⟩
    · exact .frame hframe.peers hframe.topics hframe.runs
    · exact .remove hfs hstreams
  | _ =>
    have hframe := step_frame (by simp) (by simp) (by simp) h
    exact .frame hframe.peers hframe.topics hframe.runs

/-- The peer that a stream handler puts on the list of a topic in this turn. -/
def subscribing (s : Registry) : RegistryAct → Option String
  | .subopts h sub_msg =>
    if sub_msg.subscribe.getD false = true ∧ sub_msg.topicId.isSome then
      (s.idle h).map StreamHandler.peerId
    else none
  | _ => none

/-- A subscription that a handler reads lists its peer, and nothing else is listed. -/
theorem subopts_lists {s s' : Registry} {h : Nat} {sub_msg : SubOpts}
    (hs : s.step (.subopts h sub_msg) = some s') :
    (∀ topic peer, s'.fs.Lists topic peer →
      s.fs.Lists topic peer ∨ s.subscribing (.subopts h sub_msg) = some peer) ∧
    ∀ peer, s.subscribing (.subopts h sub_msg) = some peer → ∃ topic, s'.fs.Lists topic peer := by
  obtain ⟨hd, hi, ⟨hsub, rfl⟩ | ⟨fs, hsub, rfl⟩⟩ := subopts_cases hs
  · -- the entry has no topic
    have htopic : ¬ (sub_msg.subscribe.getD false = true ∧ sub_msg.topicId.isSome) := by
      intro h
      obtain ⟨fs', hfs'⟩ := (handleSubopts_isSome s.fs hd.peerId sub_msg).mpr
        (Option.isSome_iff_ne_none.mp h.2)
      rw [hsub] at hfs'
      exact nomatch hfs'
    unfold subscribing
    dsimp only
    rw [if_neg htopic]
    exact ⟨fun topic peer hl => Or.inl (by rwa [stop_fs] at hl), fun _ hp => absurd hp (by simp)⟩
  · obtain ⟨topic_id, ht, -, hl'⟩ := handleSubopts_spec hsub
    unfold subscribing
    dsimp only
    rw [hi, ht]
    refine ⟨fun topic peer hl => ?_, fun peer hp => ⟨topic_id, ?_⟩⟩
    · rw [hl'] at hl
      split at hl
      · rename_i he
        rw [if_pos ⟨hl, rfl⟩, he.2]
        exact Or.inr rfl
      · exact Or.inl hl
    · obtain ⟨⟨hyes, -⟩, hp⟩ := Option.ite_none_right_eq_some.mp hp
      obtain rfl := Option.some.inj hp
      rw [hl', if_pos ⟨rfl, rfl⟩]
      exact hyes

/-- **What a turn lists**: the peer of a handler that reads a subscription, and nobody else. -/
theorem step_lists {s s' : Registry} {a : RegistryAct} (h : s.step a = some s') :
    (∀ topic peer, s'.fs.Lists topic peer →
      s.fs.Lists topic peer ∨ s.subscribing a = some peer) ∧
    ∀ peer, s.subscribing a = some peer → ∃ topic, s'.fs.Lists topic peer := by
  -- a turn other than `subopts` subscribes nobody
  have hother : s.subscribing a = none →
      (∀ topic peer, s'.fs.Lists topic peer → s.fs.Lists topic peer) →
      (∀ topic peer, s'.fs.Lists topic peer →
        s.fs.Lists topic peer ∨ s.subscribing a = some peer) ∧
      ∀ peer, s.subscribing a = some peer → ∃ topic, s'.fs.Lists topic peer := by
    intro hnone hlists
    rw [hnone]
    exact ⟨fun topic peer hl => Or.inl (hlists topic peer hl), fun _ hp => absurd hp (by simp)⟩
  have hsame : s.subscribing a = none → s'.fs.peerTopics = s.fs.peerTopics →
      (∀ topic peer, s'.fs.Lists topic peer →
        s.fs.Lists topic peer ∨ s.subscribing a = some peer) ∧
      ∀ peer, s.subscribing a = some peer → ∃ topic, s'.fs.Lists topic peer := by
    intro hnone htopics
    refine hother hnone fun topic peer hl => ?_
    unfold FloodSub.Lists at hl
    rwa [htopics] at hl
  cases a with
  | subopts i sub_msg => exact subopts_lists h
  | apiNext now =>
    rcases apiNext_cases h with hframe | ⟨hfs, -⟩
    · exact hsame rfl hframe.topics
    · obtain ⟨dead, -, -, hspec⟩ := handleDeadPeers_spec (s.removed (.apiNext now)) s.fs
      refine hother rfl fun topic peer hl => ?_
      rw [hfs] at hl
      exact (((hspec peer).2 topic).mp hl).1
  | newPeer peer_id =>
    obtain rfl := Option.some.inj h
    exact hsame rfl rfl
  | _ => exact hsame rfl (step_frame (by simp) (by simp) (by simp) h).topics

/-- The topics that a turn names a key of `peer_topics` after. -/
def topicsOf : RegistryAct → List String
  | .subopts _ sub_msg => sub_msg.topicId.toList
  | _ => []

/-- **The keys of `peer_topics`**: a turn adds none but those that it names. -/
theorem step_topics {s s' : Registry} {a : RegistryAct} (h : s.step a = some s') {topic : String}
    (hkey : (s'.fs.peerTopics topic).isSome) :
    (s.fs.peerTopics topic).isSome ∨ topic ∈ topicsOf a := by
  have hsame : s'.fs.peerTopics = s.fs.peerTopics → (s.fs.peerTopics topic).isSome := by
    intro htopics
    rwa [htopics] at hkey
  cases a with
  | subopts i sub_msg =>
    obtain ⟨hd, -, ⟨-, rfl⟩ | ⟨fs, hsub, rfl⟩⟩ := subopts_cases h
    · exact Or.inl (hsame (by rw [stop_fs]))
    · exact handleSubopts_keys hsub hkey
  | apiNext now =>
    rcases apiNext_cases h with hframe | ⟨hfs, -⟩
    · exact Or.inl (hsame hframe.topics)
    · rw [hfs] at hkey
      exact Or.inl ((handleDeadPeers_keys _ s.fs topic).mp hkey)
  | newPeer peer_id =>
    obtain rfl := Option.some.inj h
    exact Or.inl hkey
  | _ => exact Or.inl (hsame (step_frame (by simp) (by simp) (by simp) h).topics)

/-! ## Listed peers are known -/

/-- What a node keeps: a listed peer is a key of `peers`, and so is the peer of every
handler that runs. -/
structure Known (s : Registry) : Prop where
  listed : s.TopicsKnown
  running : ∀ peer, s.Runs peer → peer ∈ s.fs.peers

theorem Known.init (localPeerId : String) : Known { fs := { localPeerId } } where
  listed _ _ := by
    intro h
    obtain ⟨peers, hp, -⟩ := h
    simp at hp
  running _ := by
    intro h
    obtain ⟨hd, hmem, -⟩ := h
    simp at hmem

/-- One turn keeps it, as long as it removes no peer that a handler runs for. -/
theorem Known.step {s s' : Registry} {a : RegistryAct} (hI : s.Known) (hc : s.RemovesDead a)
    (h : s.step a = some s') : s'.Known := by
  cases step_effect h with
  | frame hp ht hr =>
    refine ⟨fun topic peer hl => ?_, fun peer hrun => ?_⟩
    · unfold FloodSub.Lists at hl
      rw [ht] at hl
      rw [hp]
      exact hI.listed topic peer hl
    · rw [hp]
      exact hI.running peer (hr peer hrun)
  | register peer_id i hfs hr =>
    have hmem : ∀ peer, peer ∈ s'.fs.peers ↔ peer = peer_id ∨ peer ∈ s.fs.peers := by
      intro peer
      rw [hfs]
      exact AList.mem_insert s.fs.peers
    refine ⟨fun topic peer hl => ?_, fun peer hrun => ?_⟩
    · rw [hfs] at hl
      exact (hmem peer).mpr (Or.inr (hI.listed topic peer hl))
    · rcases hr peer hrun with hrun | rfl
      · exact (hmem peer).mpr (Or.inr (hI.running peer hrun))
      · exact (hmem peer).mpr (Or.inl rfl)
  | subopts hd sub_msg hmem hrun hfs hs =>
    obtain ⟨topic_id, -, hp, hl'⟩ := handleSubopts_spec hfs
    -- the handler runs, so its peer is a key
    have hpeer : hd.peerId ∈ s.fs.peers := hI.running _ ⟨hd, hmem, hrun, rfl⟩
    refine ⟨fun topic peer hl => ?_, fun peer hr => ?_⟩
    · rw [hl'] at hl
      rw [hp]
      split at hl
      · rename_i he
        rw [he.2]
        exact hpeer
      · exact hI.listed topic peer hl
    · unfold Runs at hr
      rw [hs] at hr
      rw [hp]
      exact hI.running peer hr
  | remove hfs hs =>
    obtain ⟨dead, hpre, -, hspec⟩ := handleDeadPeers_spec (s.removed a) s.fs
    refine ⟨fun topic peer hl => ?_, fun peer hr => ?_⟩
    · rw [hfs, (hspec peer).2] at hl
      rw [hfs, (hspec peer).1]
      exact ⟨hI.listed topic peer hl.1, hl.2⟩
    · unfold Runs at hr
      rw [hs] at hr
      rw [hfs, (hspec peer).1]
      refine ⟨hI.running peer hr, fun hdead => ?_⟩
      obtain ⟨hd, hmem, hrun, rfl⟩ := hr
      exact hc hd hmem hrun (hpre.subset hdead)

/-- A stream handler that still runs when its peer has been removed: the next subscription
that it reads lists the peer again. -/
theorem late_subscription {s : Registry} {h : Nat} {hd : StreamHandler} (topic_id : String)
    (hi : s.idle h = some hd) (hgone : hd.peerId ∉ s.fs.peers) :
    ∃ s', s.step (.subopts h ⟨some true, some topic_id⟩) = some s' ∧ ¬ s'.TopicsKnown := by
  simp only [step]
  rw [hi]
  cases hsub : s.fs.handleSubopts hd.peerId ⟨some true, some topic_id⟩ with
  | none => simp [FloodSub.handleSubopts] at hsub
  | some fs =>
    refine ⟨{ s with fs := fs }, ?_, fun hknown => ?_⟩
    · dsimp only
      rw [hsub]
    obtain ⟨topic, ht, hp, hl⟩ := handleSubopts_spec hsub
    obtain rfl := Option.some.inj ht
    refine hgone ?_
    rw [← hp]
    exact hknown topic_id hd.peerId ((hl topic_id hd.peerId).mpr (by rw [if_pos ⟨rfl, rfl⟩]; rfl))

/-- So the condition is needed: when the loop removes a peer that a handler still runs for,
the next subscription on that handler's stream lists a peer that is not a key. -/
theorem removal_then_subscription {s s' : Registry} {now : UInt64} {h : Nat} {hd : StreamHandler}
    {rest : List ApiEvent} (topic_id : String) (hq : s.apiQueue = .deadPeers [hd.peerId] :: rest)
    (hi : s.idle h = some hd) (hs : s.step (.apiNext now) = some s') :
    ∃ s'', s'.step (.subopts h ⟨some true, some topic_id⟩) = some s'' ∧ ¬ s''.TopicsKnown := by
  simp only [step] at hs
  rw [hq] at hs
  dsimp only at hs
  split at hs
  swap
  · simp at hs
  obtain rfl := Option.some.inj hs
  refine late_subscription topic_id hi ?_
  show hd.peerId ∉ (s.fs.handleDeadPeers [hd.peerId]).peers
  cases hl : s.fs.peers.lookup hd.peerId with
  | none =>
    simp only [FloodSub.handleDeadPeers]
    rw [hl]
    exact AList.lookup_eq_none.mp hl
  | some i =>
    simp only [FloodSub.handleDeadPeers]
    rw [hl]
    exact fun hmem => (AList.mem_erase.mp hmem).1 rfl

end Registry

/-- **Listed peers are known**: in every run that removes a peer only while no stream handler of
the peer runs, every peer listed under a topic is a key of `peers`. -/
theorem listed_known {localPeerId : String} {as : List RegistryAct} {s : Registry}
    (h : (registry localPeerId).RunUnder Registry.RemovesDead as s) : s.TopicsKnown := by
  have hI : s.Known := by
    refine h.invariant Registry.Known ?_ fun s a s' hI hc hs => hI.step hc hs
    intro s h
    subst h
    exact Registry.Known.init localPeerId
  exact hI.listed

/-- A stream to `b` comes, subscribes `b` to a topic and goes. -/
def oneStream : List RegistryAct :=
  [.newPeer "b", .subopts 0 ⟨some true, some "news"⟩, .newPeer "c",
    .subopts 1 ⟨some true, some "news"⟩, .streamEnd 0, .apiNext 7]

theorem oneStream_enabled :
    ((registry "a").exec Registry.RemovesDead { fs := ⟨"a", fun _ => none, fun _ => none, ∅, ∅⟩ }
      oneStream).isSome = true := by decide +kernel

theorem listed_known_oneStream :
    ∃ s, (registry "a").RunUnder Registry.RemovesDead oneStream s ∧
      s.fs.peerTopics "news" = some ["c"] ∧ s.TopicsKnown := by
  have hrun : (registry "a").RunUnder Registry.RemovesDead oneStream _ :=
    runUnder_of_exec rfl (Option.some_get oneStream_enabled).symm
  exact ⟨_, hrun, by decide +kernel, listed_known hrun⟩

/-- Two streams to `b`; when the first one is gone, the second one subscribes. -/
def secondStream : List RegistryAct :=
  [.newPeer "b", .newPeer "b", .streamEnd 0, .apiNext 7, .subopts 1 ⟨some true, some "news"⟩]

theorem secondStream_enabled :
    ((registry "a").exec (fun _ _ => True) { fs := ⟨"a", fun _ => none, fun _ => none, ∅, ∅⟩ }
      secondStream).isSome = true := by decide +kernel

theorem second_stream_unknown :
    ∃ s, (registry "a").Run secondStream s ∧ s.fs.Lists "news" "b" ∧ "b" ∉ s.fs.peers := by
  have hrun : (registry "a").Run secondStream _ :=
    runUnder_of_exec rfl (Option.some_get secondStream_enabled).symm
  exact ⟨_, hrun, ⟨["b"], by decide +kernel, List.mem_singleton_self _⟩, by decide +kernel⟩

end Rnet.Floodsub
