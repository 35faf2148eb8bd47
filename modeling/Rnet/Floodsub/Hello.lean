import Rnet.Floodsub.PubSub
import Rnet.Lib.System

/-!
# The hello packet of a floodsub stream

A floodsub stream starts with `handle_new_peer`, which registers the peer, takes a snapshot of
the subscribed topics and queues it as a hello packet, in three critical sections. Calls
of `subscribe` and `unsubscribe` change a topic and announce the change to all peers in
critical sections of their own, so a snapshot or a change may be queued when it is no
longer true.

> `hello_agrees`: in every run in which nothing stale is queued, unless another announcement
> of the topic is still to come, the peer ends up with the topics of the node.

> `stale_disagrees`: a stale packet leaves the peer with a wrong topic, and nothing is on its
> way to correct it.

The queue of the stream is kept as all that was ever put into it, for the peer handles it in
order. The other peers of the node only matter as keys of `peers`.
-/

namespace Rnet.Floodsub

open Rnet.Lib
open Rnet.Lib.System (runUnder_of_exec)

/-! ## The calls -/

/-- How far a call has come with its topic. -/
inductive CallPhase
  /-- before it looks at the subscribed topics -/
  | enter
  /-- before it takes the lock to change the topic -/
  | change
  /-- before `message_all_peers` -/
  | announce
  deriving DecidableEq, Repr

/-- A call of the node's API. -/
inductive ApiCall
  | subscribe (topic_id : String) (phase : CallPhase)
  /-- the loop of `unsubscribe`, with the topics that are left -/
  | unsubscribe (topics : List String) (phase : CallPhase)
  | returned
  deriving DecidableEq, Repr

/-- What the call is about to announce. -/
def ApiCall.announces : ApiCall → Option (String × Bool)
  | subscribe topic_id .announce => some (topic_id, true)
  | unsubscribe (topic_id :: _) .announce => some (topic_id, false)
  | _ => none

/-- How far `handle_new_peer` has come. -/
inductive NewPeer
  | opening
  /-- behind the insertion into `peers` -/
  | registered
  /-- behind `get_hello_packet` -/
  | hello (topics : List String)
  | done
  deriving DecidableEq, Repr

/-- A node while a floodsub stream starts. -/
structure Greeting where
  fs : FloodSub
  newPeer : NewPeer := .opening
  calls : List ApiCall := []
  /-- the RPCs put into the queue of the new stream, each with its `subscriptions` -/
  queue : List (List SubOpts) := []

/-- One turn of one task. -/
inductive GreetingAct
  /-- `handle_new_peer` goes on -/
  | newPeer
  | subscribe (topic_id : String)
  | unsubscribe (topics : List String)
  /-- call `i` goes on -/
  | call (i : Nat)
  /-- call `i` finds the receiver of the global events gone, and panics -/
  | eventGone (i : Nat)
  deriving DecidableEq, Repr

/-- The entry of `subscriptions` for a topic. -/
def subOpts (subscribe : Bool) (topic_id : String) : SubOpts := ⟨some subscribe, some topic_id⟩

namespace Greeting

/-- `message_all_peers`: the new stream is stream `h`. -/
def messageAllPeers (s : Greeting) (h : Nat) (rpc : List SubOpts) : Greeting :=
  { s with queue := s.queue ++ (s.fs.peers.entries.filter (·.2 = h)).map fun _ => rpc }

/-- `handle_new_peer`, one critical section after the other. -/
def handleNewPeer (s : Greeting) (peer_id : String) (h : Nat) : Option Greeting :=
  match s.newPeer with
  | .opening => some { s with fs := s.fs.handleNewPeer peer_id h, newPeer := .registered }
  | .registered =>
    match s.fs.getSubscribedTopics with
    | none => some { s with newPeer := .done }
    | some topics => some { s with newPeer := .hello topics }
  | .hello topics =>
    some { s with newPeer := .done, queue := s.queue ++ [topics.map (subOpts true)] }
  | .done => none

/-- The next critical section of a call, and what is left of the call. -/
def callStep (s : Greeting) (h : Nat) : ApiCall → Option (Greeting × ApiCall)
  | .subscribe topic_id .enter =>
    if topic_id ∈ s.fs.getSubscribedTopics.getD [] then some (s, .returned)
    else some (s, .subscribe topic_id .change)
  | .subscribe topic_id .change =>
    some ({ s with fs := { s.fs with
      subscribedTopicApi := s.fs.subscribedTopicApi.insert topic_id [] } },
      .subscribe topic_id .announce)
  | .subscribe topic_id .announce =>
    some (s.messageAllPeers h [subOpts true topic_id], .returned)
  | .unsubscribe [] _ => some (s, .returned)
  | .unsubscribe (topic_id :: topics) .enter =>
    if topic_id ∉ s.fs.getSubscribedTopics.getD [] then some (s, .returned)
    else some (s, .unsubscribe (topic_id :: topics) .change)
  | .unsubscribe (topic_id :: topics) .change =>
    some ({ s with fs := { s.fs with
      subscribedTopicApi := s.fs.subscribedTopicApi.erase topic_id } },
      .unsubscribe (topic_id :: topics) .announce)
  | .unsubscribe (topic_id :: topics) .announce =>
    some (s.messageAllPeers h [subOpts false topic_id], .unsubscribe topics .enter)
  | .returned => none

/-- One turn of one task. -/
def step (peer_id : String) (h : Nat) (s : Greeting) : GreetingAct → Option Greeting
  | .newPeer => s.handleNewPeer peer_id h
  | .subscribe topic_id => some { s with calls := s.calls ++ [.subscribe topic_id .enter] }
  | .unsubscribe topics => some { s with calls := s.calls ++ [.unsubscribe topics .enter] }
  | .call i =>
    match s.calls[i]? with
    | none => none
    | some call =>
      match s.callStep h call with
      | none => none
      | some (s', call') => some { s' with calls := s.calls.set i call' }
  | .eventGone i =>
    match s.calls[i]? with
    | some (.subscribe _ .change) | some (.unsubscribe _ .change) =>
      some { s with calls := s.calls.set i .returned }
    | _ => none

/-! ## What may be queued -/

/-- The number of the call whose turn it is. -/
def caller : GreetingAct → Option Nat
  | .call i => some i
  | _ => none

/-- A call, other than `except`, has changed the topic and is about to announce it. -/
def Pending (s : Greeting) (except : Option Nat) (topic : String) : Prop :=
  ∃ j, j < s.calls.length ∧ some j ≠ except ∧
    ((s.calls[j]?).bind ApiCall.announces).map Prod.fst = some topic

/-- What the turn tells the peer: topics, each with whether it is subscribed. -/
def tells (s : Greeting) : GreetingAct → List (String × Bool)
  | .newPeer =>
    match s.newPeer with
    | .hello topics => topics.map fun t => (t, true)
    | _ => []
  | .call i => ((s.calls[i]?).bind ApiCall.announces).toList
  | _ => []

/-- What the turn tells the peer is true at that moment, or another call is about to announce
the topic. -/
def Current (s : Greeting) (a : GreetingAct) : Prop :=
  ∀ x ∈ s.tells a, (x.1 ∈ s.fs.subscribedTopicApi ↔ x.2 = true) ∨ s.Pending (caller a) x.1

instance (s : Greeting) (except : Option Nat) (topic : String) :
    Decidable (s.Pending except topic) :=
  inferInstanceAs (Decidable (∃ j, j < s.calls.length ∧ _))

instance (s : Greeting) (a : GreetingAct) : Decidable (s.Current a) :=
  inferInstanceAs (Decidable (∀ x ∈ s.tells a, _))

/-- `handle_new_peer` and all calls have returned. -/
structure Returned (s : Greeting) : Prop where
  newPeer : s.newPeer = .done
  calls : ∀ call ∈ s.calls, call = .returned

/-- What the peer makes of the queue: `handle_subopts`, one entry after the other. -/
def applied (s : Greeting) (me : String) (peer : FloodSub) : Option FloodSub :=
  s.queue.flatten.foldlM (fun fs sub_msg => fs.handleSubopts me sub_msg) peer

end Greeting

/-- A node on which a floodsub stream is opened: stream `h`, to a peer `peer_id`. -/
def greeting (peer_id : String) (h : Nat) : System Greeting GreetingAct where
  init s := ∃ fs, s = { fs := fs } ∧ ∀ e ∈ fs.peers.entries, e.2 ≠ h
  step := Greeting.step peer_id h

namespace Greeting

/-! ## The peer's view of the queue -/

/-- The last thing the queue says about a topic; `false` when it says nothing. -/
def told (queue : List (List SubOpts)) (topic : String) : Bool :=
  queue.flatten.foldl (fun b sub_msg =>
    if sub_msg.topicId = some topic then sub_msg.subscribe.getD false else b) false

theorem told_concat (queue : List (List SubOpts)) (rpc : List SubOpts) (topic : String) :
    told (queue ++ [rpc]) topic = rpc.foldl (fun b sub_msg =>
      if sub_msg.topicId = some topic then sub_msg.subscribe.getD false else b)
      (told queue topic) := by
  unfold told
  rw [List.flatten_append, List.foldl_append, List.flatten_singleton]

/-- An announcement decides its own topic. -/
theorem told_announce (queue : List (List SubOpts)) (t : String) (b : Bool) (topic : String) :
    told (queue ++ [[subOpts b t]]) topic = if topic = t then b else told queue topic := by
  rw [told_concat]
  simp only [subOpts, List.foldl_cons, List.foldl_nil, Option.some.injEq, Option.getD_some,
    eq_comm (a := t)]

/-- A hello packet adds its topics. -/
theorem told_hello (queue : List (List SubOpts)) (topics : List String) (topic : String) :
    told (queue ++ [topics.map (subOpts true)]) topic = (told queue topic || topic ∈ topics) := by
  rw [told_concat]
  generalize told queue topic = b
  induction topics generalizing b with
  | nil => simp
  | cons t topics ih =>
    rw [List.map_cons, List.foldl_cons, ih]
    by_cases ht : topic = t
    · simp [subOpts, ht]
    · simp [subOpts, ht, Ne.symm ht]

/-- **The peer** lists the node under the topics that the queue last said it subscribes to. -/
theorem applied_lists {s : Greeting} {me : String} {peer : FloodSub}
    (hq : ∀ sub_msg ∈ s.queue.flatten, sub_msg.topicId.isSome = true)
    (hfresh : ∀ topic, ¬ peer.Lists topic me) :
    ∃ peer', s.applied me peer = some peer' ∧
      ∀ topic, peer'.Lists topic me ↔ told s.queue topic = true := by
  unfold applied told
  -- the peer's view behind the entries it has handled
  obtain ⟨hret, hall⟩ := foldlM_iff_forall
    (f := fun (fs : FloodSub) sub_msg => fs.handleSubopts me sub_msg)
    (I := fun before fs => ∀ topic, fs.Lists topic me ↔ before.foldl (fun b sub_msg =>
      if sub_msg.topicId = some topic then sub_msg.subscribe.getD false else b) false = true)
    (fun sub_msg => sub_msg.topicId ≠ none)
    (fun before sub_msg fs hfs => ⟨handleSubopts_isSome fs me sub_msg, fun fs' h topic => by
      obtain ⟨t, ht, -, hlists⟩ := handleSubopts_spec h
      rw [hlists, List.foldl_append, List.foldl_cons, List.foldl_nil, ht]
      by_cases htopic : topic = t
      · rw [if_pos ⟨htopic, rfl⟩, if_pos (by rw [htopic])]
      · rw [if_neg fun h => htopic h.1, if_neg fun h => htopic (Option.some.inj h).symm]
        exact hfs topic⟩)
    s.queue.flatten (s := peer) (fun topic => by simp [hfresh topic])
  obtain ⟨peer', h⟩ := hret.mpr fun sub_msg hm => Option.isSome_iff_ne_none.mp (hq sub_msg hm)
  exact ⟨peer', h, hall peer' h⟩

/-! ## What a turn does -/

theorem mem_subscribedTopics (fs : FloodSub) (topic : String) :
    topic ∈ fs.getSubscribedTopics.getD [] ↔ topic ∈ fs.subscribedTopicApi := by
  rw [fs.getSubscribedTopics_getD, AList.mem_keys]

/-- What is pending once call `i` has moved on. -/
theorem pending_set {s s' : Greeting} {i : Nat} {call call' : ApiCall}
    (hi : s.calls[i]? = some call)
    (hs : s'.calls = s.calls.set i call') (topic : String) :
    s'.Pending none topic ↔
      call'.announces.map Prod.fst = some topic ∨ s.Pending (some i) topic := by
  have hlt : i < s.calls.length := (List.getElem?_eq_some_iff.mp hi).1
  unfold Pending
  rw [hs, List.length_set]
  constructor
  · intro h
    obtain ⟨j, hj, -, hp⟩ := h
    rw [List.getElem?_set] at hp
    by_cases hij : i = j
    · rw [if_pos hij, if_pos hlt] at hp
      exact Or.inl hp
    · rw [if_neg hij] at hp
      exact Or.inr ⟨j, hj, fun h => hij (Option.some.inj h).symm, hp⟩
  · intro h
    rcases h with hp | ⟨j, hj, hne, hp⟩
    · refine ⟨i, hlt, by simp, ?_⟩
      rw [List.getElem?_set_self hlt]
      exact hp
    · refine ⟨j, hj, by simp, ?_⟩
      rwa [List.getElem?_set_ne fun h => hne (congrArg some h.symm)]

/-- What is pending, one call apart. -/
theorem pending_iff {s : Greeting} {i : Nat} {call : ApiCall} (hi : s.calls[i]? = some call)
    (topic : String) :
    s.Pending none topic ↔ call.announces.map Prod.fst = some topic ∨ s.Pending (some i) topic := by
  refine pending_set hi ?_ topic
  obtain ⟨hlt, hget⟩ := List.getElem?_eq_some_iff.mp hi
  rw [← hget, List.set_getElem_self]

/-- What a turn does to the topics, the queue and the announcements to come. -/
inductive Effect (peer_id : String) (h : Nat) (s : Greeting) (a : GreetingAct) (s' : Greeting) :
    Prop
  | idle (fs : s'.fs = s.fs) (newPeer : s'.newPeer = s.newPeer) (queue : s'.queue = s.queue)
      (silent : s.tells a = []) (pending : ∀ t, s'.Pending none t ↔ s.Pending none t)
  /-- a topic is subscribed or unsubscribed -/
  | change (t : String) (peers : s'.fs.peers = s.fs.peers)
      (topics : ∀ x, x ≠ t → (x ∈ s'.fs.subscribedTopicApi ↔ x ∈ s.fs.subscribedTopicApi))
      (newPeer : s'.newPeer = s.newPeer) (queue : s'.queue = s.queue) (silent : s.tells a = [])
      (pending : ∀ x, s'.Pending none x ↔ x = t ∨ s.Pending none x)
  /-- a call tells all peers -/
  | announce (t : String) (b : Bool) (fs : s'.fs = s.fs) (newPeer : s'.newPeer = s.newPeer)
      (queue : s'.queue = s.queue ++
        (s.fs.peers.entries.filter (·.2 = h)).map fun _ => [subOpts b t])
      (tells : s.tells a = [(t, b)])
      (before : ∀ x, s.Pending none x ↔ x = t ∨ s.Pending (caller a) x)
      (pending : ∀ x, s'.Pending none x ↔ s.Pending (caller a) x)
  | register (old : s.newPeer = .opening) (new : s'.newPeer = .registered)
      (fs : s'.fs = s.fs.handleNewPeer peer_id h) (queue : s'.queue = s.queue)
      (silent : s.tells a = []) (pending : ∀ t, s'.Pending none t ↔ s.Pending none t)
  /-- the topics are copied, and are the hello packet unless there are none -/
  | snapshot (topics : List String) (old : s.newPeer = .registered)
      (mem : ∀ t, t ∈ topics ↔ t ∈ s.fs.subscribedTopicApi)
      (new : s'.newPeer = .hello topics ∨ topics = [] ∧ s'.newPeer = .done) (fs : s'.fs = s.fs)
      (queue : s'.queue = s.queue) (silent : s.tells a = [])
      (pending : ∀ t, s'.Pending none t ↔ s.Pending none t)
  | hello (topics : List String) (old : s.newPeer = .hello topics) (new : s'.newPeer = .done)
      (fs : s'.fs = s.fs) (queue : s'.queue = s.queue ++ [topics.map (subOpts true)])
      (tells : s.tells a = topics.map fun t => (t, true)) (actor : caller a = none)
      (pending : ∀ t, s'.Pending none t ↔ s.Pending none t)

/-- **Every turn** is one of these. -/
theorem step_effect {peer_id : String} {h : Nat} {s s' : Greeting} {a : GreetingAct}
    (hs : s.step peer_id h a = some s') : s.Effect peer_id h a s' := by
  -- a new call has nothing to announce
  have started : ∀ call : ApiCall, call.announces = none → ∀ t,
      Pending { s with calls := s.calls ++ [call] } none t ↔ s.Pending none t := by
    intro call hcall t
    unfold Pending
    dsimp only
    rw [List.length_append, List.length_singleton]
    constructor
    · intro h
      obtain ⟨j, hj, hne, hp⟩ := h
      by_cases hlt : j < s.calls.length
      · rw [List.getElem?_append_left hlt] at hp
        exact ⟨j, hlt, hne, hp⟩
      · rw [show j = s.calls.length by omega, List.getElem?_concat_length] at hp
        simp [hcall] at hp
    · intro h
      obtain ⟨j, hj, hne, hp⟩ := h
      exact ⟨j, by omega, hne, by rwa [List.getElem?_append_left hj]⟩
  cases a with
  | newPeer =>
    simp only [step, handleNewPeer] at hs
    cases hp : s.newPeer with
    | opening =>
      rw [hp] at hs
      obtain rfl := Option.some.inj hs
      exact .register hp rfl rfl rfl (by simp only [tells, hp]) fun _ => Iff.rfl
    | registered =>
      rw [hp] at hs
      have hmem := mem_subscribedTopics s.fs
      cases ht : s.fs.getSubscribedTopics with
      | none =>
        rw [ht] at hs hmem
        obtain rfl := Option.some.inj hs
        exact .snapshot [] hp hmem (Or.inr ⟨rfl, rfl⟩) rfl rfl (by simp only [tells, hp])
          fun _ => Iff.rfl
      | some topics =>
        rw [ht] at hs hmem
        obtain rfl := Option.some.inj hs
        exact .snapshot topics hp hmem (Or.inl rfl) rfl rfl (by simp only [tells, hp])
          fun _ => Iff.rfl
    | hello topics =>
      rw [hp] at hs
      obtain rfl := Option.some.inj hs
      exact .hello topics hp rfl rfl rfl (by simp only [tells, hp]) rfl fun _ => Iff.rfl
    | done =>
      rw [hp] at hs
      simp at hs
  | subscribe t =>
    obtain rfl := Option.some.inj hs
    exact .idle rfl rfl rfl rfl (started _ rfl)
  | unsubscribe ts =>
    obtain rfl := Option.some.inj hs
    refine .idle rfl rfl rfl rfl (started _ ?_)
    cases ts <;> rfl
  | call i =>
    simp only [step] at hs
    cases hi : s.calls[i]? with
    | none =>
      rw [hi] at hs
      simp at hs
    | some call =>
      rw [hi] at hs
      dsimp only at hs
      cases hc : s.callStep h call with
      | none =>
        rw [hc] at hs
        simp at hs
      | some r =>
        obtain ⟨s₁, call'⟩ := r
        rw [hc] at hs
        obtain rfl := Option.some.inj hs
        have hset : ∀ s₂ : Greeting, s₂.calls = s.calls.set i call' → ∀ t,
            s₂.Pending none t ↔ call'.announces.map Prod.fst = some t ∨ s.Pending (some i) t :=
          fun _ h₂ t => pending_set hi h₂ t
        have hbefore := pending_iff hi
        -- a call that only looks at the topics, or ends
        have quiet : s₁ = s → call.announces = none → call'.announces = none →
            s.Effect peer_id h (.call i) { s₁ with calls := s.calls.set i call' } := by
          intro h h₁ h₂
          subst h
          refine .idle rfl rfl rfl (by simp [tells, hi, h₁]) fun t => ?_
          rw [hset _ rfl, hbefore, h₁, h₂]
        have announced : ∀ t b, s₁ = s.messageAllPeers h [subOpts b t] →
            call.announces = some (t, b) → call'.announces = none →
            s.Effect peer_id h (.call i) { s₁ with calls := s.calls.set i call' } := by
          intro t b h h₁ h₂
          subst h
          refine .announce t b rfl rfl rfl ?_ (fun x => ?_) fun x => ?_
          · simp only [tells, hi, Option.bind_some, h₁, Option.toList_some]
          · rw [hbefore, h₁, Option.map_some, Option.some.injEq, eq_comm]
            rfl
          · rw [hset _ rfl, h₂]
            simp [caller]
        have changed : ∀ t fs, s₁ = { s with fs := fs } → fs.peers = s.fs.peers →
            (∀ x, x ≠ t → (x ∈ fs.subscribedTopicApi ↔ x ∈ s.fs.subscribedTopicApi)) →
            call.announces = none → (∃ b, call'.announces = some (t, b)) →
            s.Effect peer_id h (.call i) { s₁ with calls := s.calls.set i call' } := by
          intro t fs h hpeers htopics h₁ h'
          subst h
          obtain ⟨b, h₂⟩ := h'
          refine .change t hpeers htopics rfl rfl (by simp [tells, hi, h₁]) fun x => ?_
          rw [hset _ rfl, hbefore, h₁, h₂, Option.map_some, Option.some.injEq, eq_comm]
          simp
        cases call with
        | subscribe t phase =>
          cases phase with
          | enter =>
            simp only [callStep] at hc
            split at hc
            · obtain ⟨rfl, rfl⟩ := Prod.mk.inj (Option.some.inj hc)
              exact quiet rfl rfl rfl
            · obtain ⟨rfl, rfl⟩ := Prod.mk.inj (Option.some.inj hc)
              exact quiet rfl rfl rfl
          | change =>
            obtain ⟨rfl, rfl⟩ := Prod.mk.inj (Option.some.inj hc)
            refine changed t _ rfl rfl (fun x hx => ?_) rfl ⟨true, rfl⟩
            rw [AList.mem_insert]
            exact or_iff_right hx
          | announce =>
            obtain ⟨rfl, rfl⟩ := Prod.mk.inj (Option.some.inj hc)
            exact announced t true rfl rfl rfl
        | unsubscribe topics phase =>
          cases topics with
          | nil =>
            obtain ⟨rfl, rfl⟩ := Prod.mk.inj (Option.some.inj hc)
            exact quiet rfl rfl rfl
          | cons t topics =>
            cases phase with
            | enter =>
              simp only [callStep] at hc
              split at hc
              · obtain ⟨rfl, rfl⟩ := Prod.mk.inj (Option.some.inj hc)
                exact quiet rfl rfl rfl
              · obtain ⟨rfl, rfl⟩ := Prod.mk.inj (Option.some.inj hc)
                exact quiet rfl rfl rfl
            | change =>
              obtain ⟨rfl, rfl⟩ := Prod.mk.inj (Option.some.inj hc)
              refine changed t _ rfl rfl (fun x hx => ?_) rfl ⟨false, rfl⟩
              rw [AList.mem_erase]
              exact and_iff_right hx
            | announce =>
              obtain ⟨rfl, rfl⟩ := Prod.mk.inj (Option.some.inj hc)
              refine announced t false rfl rfl ?_
              cases topics <;> rfl
        | returned => simp [callStep] at hc
  | eventGone i =>
    simp only [step] at hs
    have gone : ∀ call, s.calls[i]? = some call → call.announces = none →
        s.Effect peer_id h (.eventGone i) { s with calls := s.calls.set i .returned } := by
      intro call hi hcall
      refine .idle rfl rfl rfl rfl fun t => ?_
      rw [pending_set hi rfl, pending_iff hi, hcall]
      rfl
    split at hs
    · rename_i t hi
      obtain rfl := Option.some.inj hs
      exact gone _ hi rfl
    · rename_i topics hi
      obtain rfl := Option.some.inj hs
      refine gone _ hi ?_
      cases topics <;> rfl
    · simp at hs

/-! ## The invariant -/

/-- A topic that no call is about to announce is as the peer will have it: what the queue says is
true, and what is true is in the queue or in the hello packet to come. -/
structure Greeted (h : Nat) (s : Greeting) : Prop where
  /-- the stream is a peer of the node from its registration on -/
  peer : (s.fs.peers.entries.filter (·.2 = h)).length = if s.newPeer = .opening then 0 else 1
  early : s.newPeer = .opening → s.queue = []
  topics : ∀ sub_msg ∈ s.queue.flatten, sub_msg.topicId.isSome = true
  sound : ∀ t, ¬ s.Pending none t → told s.queue t = true → t ∈ s.fs.subscribedTopicApi
  complete : ∀ t, ¬ s.Pending none t → t ∈ s.fs.subscribedTopicApi →
    match s.newPeer with
    | .opening | .registered => True
    | .hello topics => t ∈ topics ∨ told s.queue t = true
    | .done => told s.queue t = true

/-- Registration makes the stream the only one of its number among the peers. -/
theorem handleNewPeer_entries {fs : FloodSub} {peer_id : String} {h : Nat}
    (hnone : (fs.peers.entries.filter (·.2 = h)).length = 0) :
    ((fs.handleNewPeer peer_id h).peers.entries.filter (·.2 = h)).length = 1 := by
  have hsub : (fs.peers.entries.kerase peer_id).filter (·.2 = h) = [] := by
    have hle := ((List.kerase_sublist peer_id fs.peers.entries).filter (·.2 = h)).length_le
    exact List.length_eq_zero_iff.mp (by omega)
  show ((fs.peers.insert peer_id h).entries.filter (·.2 = h)).length = 1
  rw [AList.entries_insert, List.filter_cons_of_pos (by simp), hsub]
  rfl

/-- **One turn** that queues nothing stale. -/
theorem Greeted.step {peer_id : String} {h : Nat} {s s' : Greeting} {a : GreetingAct}
    (hI : s.Greeted h) (hcur : s.Current a) (hs : s.step peer_id h a = some s') : s'.Greeted h := by
  cases step_effect hs with
  | idle fs newPeer queue _ pending =>
    refine ⟨by rw [fs, newPeer]; exact hI.peer, by rw [newPeer, queue]; exact hI.early,
      by rw [queue]; exact hI.topics, fun t ht => ?_, fun t ht => ?_⟩
    · rw [fs, queue]
      exact hI.sound t (mt (pending t).mpr ht)
    · rw [fs, newPeer, queue]
      exact hI.complete t (mt (pending t).mpr ht)
  | change t peers topics newPeer queue _ pending =>
    refine ⟨by rw [peers, newPeer]; exact hI.peer, by rw [newPeer, queue]; exact hI.early,
      by rw [queue]; exact hI.topics, fun x hx => ?_, fun x hx => ?_⟩
    · rw [pending, not_or] at hx
      rw [queue, topics x hx.1]
      exact hI.sound x hx.2
    · rw [pending, not_or] at hx
      rw [newPeer, queue, topics x hx.1]
      exact hI.complete x hx.2
  | announce t b fs newPeer queue tells before pending =>
    have hpeer := hI.peer
    by_cases hopen : s.newPeer = .opening
    · -- the stream is not registered yet
      rw [if_pos hopen] at hpeer
      rw [List.length_eq_zero_iff.mp hpeer, List.map_nil, List.append_nil] at queue
      have hnil := hI.early hopen
      refine ⟨by rw [fs, newPeer]; exact hI.peer, by rw [newPeer, queue]; exact hI.early,
        by rw [queue]; exact hI.topics, fun x _ htold => ?_, fun x _ _ => ?_⟩
      · rw [queue, hnil] at htold
        simp [told] at htold
      · rw [newPeer, hopen]
        trivial
    · rw [if_neg hopen] at hpeer
      obtain ⟨e, he⟩ := List.length_eq_one_iff.mp hpeer
      rw [he, List.map_singleton] at queue
      have hstate : ¬ s.Pending (caller a) t → (t ∈ s.fs.subscribedTopicApi ↔ b = true) :=
        (hcur (t, b) (by rw [tells]; exact List.mem_singleton_self _)).resolve_right
      refine ⟨by rw [fs, newPeer, if_neg hopen]; exact hpeer,
        fun h => absurd (newPeer ▸ h) hopen, ?_, fun x hx htold => ?_, fun x hx hmem => ?_⟩
      · rw [queue, List.flatten_append]
        intro sub_msg hm
        rcases List.mem_append.mp hm with hm | hm
        · exact hI.topics sub_msg hm
        · obtain rfl : sub_msg = subOpts b t := by simpa using hm
          rfl
      · rw [pending] at hx
        rw [queue, told_announce] at htold
        rw [fs]
        by_cases hxt : x = t
        · rw [if_pos hxt] at htold
          rw [hxt] at hx ⊢
          exact (hstate hx).mpr htold
        · rw [if_neg hxt] at htold
          exact hI.sound x (mt (before x).mp (by rw [not_or]; exact ⟨hxt, hx⟩)) htold
      · rw [pending] at hx
        rw [fs] at hmem
        by_cases hxt : x = t
        · have htold : told s'.queue x = true := by
            rw [queue, told_announce, if_pos hxt]
            rw [hxt] at hx hmem
            exact (hstate hx).mp hmem
          rw [newPeer]
          split
          · trivial
          · trivial
          · exact Or.inr htold
          · exact htold
        · have hold := hI.complete x (mt (before x).mp (by rw [not_or]; exact ⟨hxt, hx⟩)) hmem
          rw [newPeer, queue, told_announce, if_neg hxt]
          exact hold
  | register old new fs queue _ pending =>
    have hpeer := hI.peer
    rw [if_pos old] at hpeer
    refine ⟨?_, by rw [new]; simp, by rw [queue]; exact hI.topics, fun t _ htold => ?_,
      fun t _ _ => ?_⟩
    · rw [fs, handleNewPeer_entries hpeer, if_neg (by rw [new]; simp)]
    · rw [queue, hI.early old] at htold
      simp [told] at htold
    · rw [new]
      trivial
  | snapshot topics old mem new fs queue _ pending =>
    have hpeer := hI.peer
    rw [if_neg (by rw [old]; simp)] at hpeer
    have hne : s'.newPeer ≠ .opening := by
      rcases new with hn | ⟨-, hn⟩
      · rw [hn]
        simp
      · rw [hn]
        simp
    refine ⟨by rw [fs, if_neg hne]; exact hpeer, fun h => absurd h hne,
      by rw [queue]; exact hI.topics, fun t ht => ?_, fun t _ hmem => ?_⟩
    · rw [fs, queue]
      exact hI.sound t (mt (pending t).mpr ht)
    · rw [fs, ← mem] at hmem
      rcases new with hn | ⟨rfl, -⟩
      · rw [hn]
        exact Or.inl hmem
      · simp at hmem
  | hello topics old new fs queue tells actor pending =>
    have hpeer := hI.peer
    rw [if_neg (by rw [old]; simp)] at hpeer
    refine ⟨by rw [fs, if_neg (by rw [new]; simp)]; exact hpeer, by rw [new]; simp, ?_,
      fun t ht htold => ?_, fun t ht hmem => ?_⟩
    · rw [queue, List.flatten_append]
      intro sub_msg hm
      rcases List.mem_append.mp hm with hm | hm
      · exact hI.topics sub_msg hm
      · rw [List.flatten_singleton] at hm
        obtain ⟨t, -, rfl⟩ := List.mem_map.mp hm
        rfl
    · have ht' := mt (pending t).mpr ht
      rw [queue, told_hello, Bool.or_eq_true, decide_eq_true_iff] at htold
      rw [fs]
      rcases htold with htold | htold
      · exact hI.sound t ht' htold
      · -- the hello packet does not lie about a topic that nobody corrects
        have := hcur (t, true) (by rw [tells]; exact List.mem_map.mpr ⟨t, htold, rfl⟩)
        rw [actor] at this
        exact (this.resolve_right ht').mpr rfl
    · have hold := hI.complete t (mt (pending t).mpr ht) (fs ▸ hmem)
      rw [old] at hold
      rw [new, queue]
      show told _ t = true
      rw [told_hello, Bool.or_eq_true, decide_eq_true_iff]
      exact hold.symm

theorem Greeted.init {peer_id : String} {h : Nat} {s : Greeting}
    (hinit : (greeting peer_id h).init s) : s.Greeted h := by
  obtain ⟨fs, rfl, hnone⟩ := hinit
  refine ⟨?_, fun _ => rfl, by simp, fun t _ htold => by simp [told] at htold, fun _ _ _ => trivial⟩
  rw [if_pos rfl, List.length_eq_zero_iff, List.filter_eq_nil_iff]
  exact fun e he => by simpa using hnone e he

/-- No call that has returned is about to announce anything. -/
theorem Returned.not_pending {s : Greeting} (hret : s.Returned) (topic : String) :
    ¬ s.Pending none topic := by
  intro h
  obtain ⟨j, hj, -, hp⟩ := h
  rw [List.getElem?_eq_getElem hj, hret.calls _ (List.getElem_mem hj)] at hp
  simp [ApiCall.announces] at hp

/-- **A stale packet** leaves the peer with a wrong topic that no call is about to announce. -/
theorem stale_disagrees {peer_id : String} {h : Nat} {s s' : Greeting} {a : GreetingAct}
    (hI : s.Greeted h) (hopen : s.newPeer ≠ .opening) (hstale : ¬ s.Current a)
    (hs : s.step peer_id h a = some s') :
    ∃ t, ¬ s'.Pending none t ∧ ¬ (told s'.queue t = true ↔ t ∈ s'.fs.subscribedTopicApi) := by
  unfold Current at hstale
  simp only [not_forall, not_or] at hstale
  obtain ⟨⟨t, b⟩, hx, hwrong, hnone⟩ := hstale
  cases step_effect hs with
  | announce t' b' fs newPeer queue tells before pending =>
    rw [tells, List.mem_singleton] at hx
    obtain ⟨rfl, rfl⟩ := Prod.mk.inj hx
    refine ⟨t, mt (pending t).mp hnone, fun h => hwrong ?_⟩
    have hpeer := hI.peer
    rw [if_neg hopen] at hpeer
    obtain ⟨e, he⟩ := List.length_eq_one_iff.mp hpeer
    rw [queue, he, List.map_singleton, told_announce, if_pos rfl, fs] at h
    exact h.symm
  | hello topics old new fs queue tells actor pending =>
    rw [tells] at hx
    obtain ⟨t', ht', he⟩ := List.mem_map.mp hx
    obtain ⟨rfl, rfl⟩ := Prod.mk.inj he
    rw [actor] at hnone
    refine ⟨t', mt (pending t').mp hnone, fun h => hwrong ?_⟩
    rw [queue, told_hello, fs] at h
    exact iff_of_true (h.mp (by simp [ht'])) rfl
  | idle _ _ _ silent _ | change _ _ _ _ _ silent _ | register _ _ _ _ silent _
  | snapshot _ _ _ _ _ _ silent _ =>
    rw [silent] at hx
    simp at hx

end Greeting

/-- A node subscribed to "news". -/
def newsReader : Greeting :=
  { fs := { localPeerId := "a", subscribedTopicApi := AList.singleton "news" [] } }

theorem newsReader_init : (greeting "b" 0).init newsReader :=
  ⟨_, rfl, by simp [AList.empty_entries]⟩

/-- "b" is greeted, and then a second topic is subscribed. -/
def greetThenSubscribe : List GreetingAct :=
  [.newPeer, .newPeer, .newPeer, .subscribe "sport", .call 0, .call 0, .call 0]

theorem greetThenSubscribe_enabled :
    ((greeting "b" 0).exec Greeting.Current newsReader greetThenSubscribe).isSome = true := by
  decide +kernel

/-- "news" is unsubscribed while the hello packet waits to be queued. -/
def unsubscribeBehindHello : List GreetingAct :=
  [.newPeer, .newPeer, .unsubscribe ["news"], .call 0, .call 0, .call 0, .call 0, .newPeer]

theorem unsubscribeBehindHello_enabled :
    ((greeting "b" 0).exec (fun _ _ => True) newsReader unsubscribeBehindHello).isSome = true := by
  decide +kernel

end Rnet.Floodsub
