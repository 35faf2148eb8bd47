import Rnet.Floodsub.TaskTurns

/-!
# Messages and unsubscribed topics

`handle_incoming` reads the subscribed topics, `consume_pubsub_msg` reads them again, and
`notify_subscription` looks the topic up and then sends: the store is locked for each of these
alone, and calls of `subscribe` and `unsubscribe` change it in between. The last three unwrap
what they find. What is left of the work of a task that stops is kept here with the changes of
the subscriptions; a message in it is neither enqueued nor dropped.

> `messages_kept_iff`: no handler stops in the middle of a message exactly if at the second read
> some topic, and at the lookup the message's topic, was last subscribed and not unsubscribed, and
> at the send the receiver of the channel is still there.
-/

namespace Rnet.Floodsub

open Rnet.Lib
open Rnet.Lib.System (runUnder_of_exec avoids_iff_guarded)

/-- What a piece of work makes of the subscriptions: a topic is subscribed or unsubscribed. -/
def Work.change : Work → List (String × Bool)
  | .insertTopic topic_id => [(topic_id, true)]
  | .removeTopic topic_id => [(topic_id, false)]
  | _ => []

/-- The last of the changes of a topic. -/
def lastChange (changes : List (String × Bool)) (topic_id : String) : Option Bool :=
  (changes.reverse.find? (·.1 = topic_id)).map Prod.snd

/-- The work unwraps what it finds about the topics: the second read, the lookup and the send. -/
def Work.needsTopic : Work → Bool
  | .consumePubsubMsg .. => true
  | .notifySubscription .. => true
  | .put .. => true
  | _ => false

/-- A node, and what has happened to the subscriptions and to the tasks. -/
structure TopicWatch where
  node : Node
  /-- the topics that were subscribed (`true`) and unsubscribed, in this order -/
  changes : List (String × Bool) := []
  /-- the tasks that have stopped at a piece of work, with what they had to do -/
  stopped : List (Nat × List Work) := []

namespace TopicWatch

/-- One turn of one task. -/
def step (s : TopicWatch) (a : NodeAct) : Option TopicWatch :=
  (s.node.step a).map fun node =>
    match a with
    | .go u _ _ => {
        node
        changes := s.changes ++ ((s.node.next u).map Work.change).getD []
        stopped := if node.ended u then s.stopped ++ [(u, s.node.todo u)] else s.stopped }
    | _ => { s with node }

/-- The last change of a topic was its subscription. -/
def Subscribed (s : TopicWatch) (topic_id : String) : Prop :=
  lastChange s.changes topic_id = some true

/-- A handler has stopped in the middle of a message, at what it found about the topics. -/
def Aborted (s : TopicWatch) : Prop := ∃ e ∈ s.stopped, ∃ w ∈ e.2.head?, w.needsTopic = true

/-- What a piece of work needs is there. -/
def Supports (s : TopicWatch) : Work → Prop
  | .consumePubsubMsg .. => ∃ topic_id, s.Subscribed topic_id
  | .notifySubscription topic_id _ => s.Subscribed topic_id
  | .put c _ => ∃ ch, s.node.topics[c]? = some ch ∧ ch.reader ≠ .gone
  | _ => True

/-- Whoever goes on finds what it needs. -/
def StillThere (s : TopicWatch) (a : NodeAct) : Prop :=
  ∀ u now order w, a = .go u now order → s.node.next u = some w → s.Supports w

end TopicWatch

/-! ## The subscriptions -/

section Subscriptions

theorem lastChange_concat (changes : List (String × Bool)) (topic_id t : String) (b : Bool) :
    lastChange (changes ++ [(topic_id, b)]) t =
      if topic_id = t then some b else lastChange changes t := by
  unfold lastChange
  rw [List.reverse_append, List.reverse_singleton, List.singleton_append, List.find?_cons]
  by_cases h : topic_id = t
  · simp [h]
  · simp [h]

/-- The store has the topics whose last change is their subscription, and a channel for each. -/
structure Tracks (changes : List (String × Bool)) (s : Node) : Prop where
  topics : ∀ t, t ∈ s.fs.subscribedTopicApi ↔ lastChange changes t = some true
  channels : ∀ t ∈ s.fs.subscribedTopicApi, ∃ ch ∈ s.topics, ch.topic = t

variable {changes : List (String × Bool)} {s s' : Node} {u : Nat}

/-- Nothing happens to the subscriptions. -/
theorem Tracks.of_same (h : Tracks changes s)
    (hsame : ∀ t, t ∈ s'.fs.subscribedTopicApi ↔ t ∈ s.fs.subscribedTopicApi)
    (hnames : s'.topics.map (·.topic) = s.topics.map (·.topic)) : Tracks changes s' := by
  refine ⟨fun t => (hsame t).trans (h.topics t), fun t ht => ?_⟩
  obtain ⟨ch, hch, hname⟩ := h.channels t ((hsame t).mp ht)
  have hmem : t ∈ s'.topics.map (·.topic) := by
    rw [hnames, ← hname]
    exact List.mem_map_of_mem hch
  exact List.mem_map.mp hmem

theorem names_put (s : Node) (c : Nat) (item : List UInt8 × List UInt8) :
    (s.put c item).topics.map (·.topic) = s.topics.map (·.topic) := by
  apply List.ext_getElem?
  intro i
  rw [List.getElem?_map, List.getElem?_map, Node.put, List.getElem?_modify]
  cases s.topics[i]? with
  | none => rfl
  | some ch =>
    show some _ = some _
    split
    · rfl
    · rfl

theorem Tracks.proceed (h : Tracks changes s) (todo : List Work) :
    Tracks changes (s.proceed u todo) :=
  h.of_same (fun _ => Iff.rfl) rfl

theorem Tracks.stop (h : Tracks changes s) (u : Nat) : Tracks changes (s.stop u) :=
  h.of_same (fun _ => Iff.rfl) (names_handOver s.topics u .gone)

theorem Tracks.store (h : Tracks changes s) (fs : FloodSub)
    (hsame : ∀ t, t ∈ fs.subscribedTopicApi ↔ t ∈ s.fs.subscribedTopicApi) :
    Tracks changes { s with fs } :=
  h.of_same hsame rfl

theorem Tracks.insertTopic (h : Tracks changes s) (u : Nat) (topic_id : String) :
    Tracks (changes ++ [(topic_id, true)]) (s.insertTopic u topic_id) := by
  refine ⟨fun t => ?_, fun t ht => ?_⟩
  · rw [lastChange_concat]
    show t ∈ AList.insert topic_id [] _ ↔ _
    rw [AList.mem_insert]
    by_cases heq : topic_id = t
    · simp [heq]
    · rw [if_neg heq, ← h.topics t]
      exact or_iff_right fun he => heq he.symm
  · rcases (AList.mem_insert _).mp ht with rfl | ht
    · exact ⟨_, List.mem_append_right _ (List.mem_singleton_self _), rfl⟩
    · obtain ⟨ch, hch, hname⟩ := h.channels t ht
      exact ⟨ch, List.mem_append_left _ hch, hname⟩

theorem Tracks.removeTopic (h : Tracks changes s) (topic_id : String) :
    Tracks (changes ++ [(topic_id, false)]) { s with
      fs := { s.fs with subscribedTopicApi := s.fs.subscribedTopicApi.erase topic_id } } := by
  refine ⟨fun t => ?_, fun t ht => h.channels t (AList.mem_erase.mp ht).2⟩
  rw [lastChange_concat]
  show t ∈ AList.erase topic_id _ ↔ _
  rw [AList.mem_erase]
  by_cases heq : topic_id = t
  · simp [heq]
  · rw [if_neg heq, ← h.topics t]
    exact and_iff_right fun he => heq he.symm

theorem handleDeadPeers_topics : ∀ (peer_ids : List String) (fs : FloodSub),
    (fs.handleDeadPeers peer_ids).subscribedTopicApi = fs.subscribedTopicApi := by
  intro peer_ids
  induction peer_ids with
  | nil => exact fun fs => rfl
  | cons peer_id peer_ids ih =>
    intro fs
    rw [FloodSub.handleDeadPeers]
    split
    · rfl
    · exact ih _

theorem handleSubopts_topics {fs fs' : FloodSub} {origin_id : String} {sub_msg : SubOpts}
    (h : fs.handleSubopts origin_id sub_msg = some fs') :
    fs'.subscribedTopicApi = fs.subscribedTopicApi := by
  unfold FloodSub.handleSubopts at h
  obtain ⟨topic_id, -, h⟩ := Option.bind_eq_some_iff.mp h
  split at h
  · obtain rfl := Option.some.inj h
    rfl
  · obtain rfl := Option.some.inj h
    rfl

/-- **A piece of work** makes its change of the subscriptions, and no other. -/
theorem Tracks.perform (h : Tracks changes s) {now : UInt64} {order : List String}
    {todo : List Work} {w : Work} (hs : s.perform u now order todo w = some s') :
    Tracks (changes ++ w.change) s' := by
  have quiet : w.change = [] → Tracks changes s' → Tracks (changes ++ w.change) s' := by
    intro hw ht
    rw [hw, List.append_nil]
    exact ht
  cases w with
  | insertTopic topic_id =>
    obtain rfl := Option.some.inj hs
    exact (h.insertTopic u topic_id).proceed todo
  | removeTopic topic_id =>
    obtain rfl := Option.some.inj hs
    exact (h.removeTopic topic_id).proceed todo
  | register peer_id =>
    obtain rfl := Option.some.inj hs
    exact quiet rfl ((h.store (s.fs.handleNewPeer peer_id u) fun _ => Iff.rfl).proceed todo)
  | handleDeadPeers peer_ids =>
    obtain rfl := Option.some.inj hs
    refine quiet rfl ((h.store _ fun t => ?_).proceed todo)
    rw [handleDeadPeers_topics]
  | isMsgSeen msg_forwarder_id msg subscribed_topics =>
    rw [Node.perform] at hs
    split at hs
    · obtain rfl := Option.some.inj hs
      exact quiet rfl (h.stop u)
    · rename_i fs hseen
      obtain rfl := Option.some.inj hs
      exact quiet rfl ((h.store fs (isMsgSeen_frame hseen).store.subscribed).proceed _)
    · rename_i fs hseen
      obtain rfl := Option.some.inj hs
      exact quiet rfl ((h.store fs (isMsgSeen_frame hseen).store.subscribed).proceed _)
  | handleSubopts origin_id sub_msg =>
    rw [Node.perform] at hs
    split at hs
    · obtain rfl := Option.some.inj hs
      exact quiet rfl (h.stop u)
    · rename_i fs hsub
      obtain rfl := Option.some.inj hs
      refine quiet rfl ((h.store fs fun t => ?_).proceed _)
      rw [handleSubopts_topics hsub]
  | hello =>
    rw [Node.perform] at hs
    split at hs
    · obtain rfl := Option.some.inj hs
      exact quiet rfl (h.proceed _)
    · obtain rfl := Option.some.inj hs
      exact quiet rfl (h.proceed _)
  | consumePubsubMsg msg_forwarder_id msg =>
    rw [Node.perform] at hs
    split at hs
    · obtain rfl := Option.some.inj hs
      exact quiet rfl (h.stop u)
    · split at hs
      · obtain rfl := Option.some.inj hs
        exact quiet rfl (h.proceed _)
      · obtain rfl := Option.some.inj hs
        exact quiet rfl (h.proceed _)
  | notifySubscription topic_id msg =>
    rw [Node.perform] at hs
    split at hs
    · obtain rfl := Option.some.inj hs
      exact quiet rfl (h.stop u)
    · obtain rfl := Option.some.inj hs
      exact quiet rfl (h.proceed _)
  | writeMsg peer_id rpc =>
    rw [Node.perform] at hs
    split at hs
    · obtain rfl := Option.some.inj hs
      exact quiet rfl (h.stop u)
    · obtain rfl := Option.some.inj hs
      exact quiet rfl (h.proceed _)
  | publish msg_forwarder_id msg =>
    obtain ⟨-, hs⟩ := Option.ite_none_right_eq_some.mp hs
    obtain rfl := Option.some.inj hs
    exact quiet rfl (h.proceed _)
  | messageAllPeers rpc =>
    obtain ⟨-, hs⟩ := Option.ite_none_right_eq_some.mp hs
    obtain rfl := Option.some.inj hs
    exact quiet rfl (h.of_same (fun _ => Iff.rfl) rfl)
  | subscribe topic_id =>
    rw [Node.perform] at hs
    split at hs
    · obtain rfl := Option.some.inj hs
      exact quiet rfl (h.proceed _)
    · obtain rfl := Option.some.inj hs
      exact quiet rfl (h.proceed _)
  | unsubscribe topics =>
    refine quiet rfl ?_
    cases topics with
    | nil =>
      obtain rfl := Option.some.inj hs
      exact h.proceed _
    | cons topic_id topics =>
      rw [Node.perform] at hs
      split at hs
      · obtain rfl := Option.some.inj hs
        exact h.proceed _
      · obtain rfl := Option.some.inj hs
        exact h.proceed _
  | sendAll gs rpc =>
    refine quiet rfl ?_
    cases gs with
    | nil =>
      obtain rfl := Option.some.inj hs
      exact h.of_same (fun _ => Iff.rfl) rfl
    | cons g gs =>
      obtain rfl := Option.some.inj hs
      exact h.of_same (fun _ => Iff.rfl) rfl
  | put c item =>
    obtain rfl := Option.some.inj hs
    exact quiet rfl (h.of_same (fun _ => Iff.rfl) (names_put s c item))
  | spawn =>
    obtain rfl := Option.some.inj hs
    exact quiet rfl (h.of_same (fun _ => Iff.rfl) (names_handOver s.topics u .receiveLoop))
  | exit =>
    obtain rfl := Option.some.inj hs
    exact quiet rfl (h.stop u)
  | handleIncoming | event | send =>
    obtain rfl := Option.some.inj hs
    exact quiet rfl (h.of_same (fun _ => Iff.rfl) rfl)

end Subscriptions

/-! ## The tasks that stop -/

section Stops

variable {s s' : Node} {u : Nat} {now : UInt64} {order : List String} {t : Task} {w : Work}
  {todo : List Work}

theorem ended_stop (s : Node) (u : Nat) : (s.stop u).ended u = true := by
  unfold Node.ended Node.stop
  rw [List.getElem?_modify_eq]
  cases s.tasks[u]? with
  | none => rfl
  | some t => rfl

theorem ended_proceed {s₁ : Node} (ht : s.tasks[u]? = some t) (halive : t.alive = true)
    (htasks : s₁.tasks = s.tasks) (more : List Work) : (s₁.proceed u more).ended u = false := by
  unfold Node.ended Node.proceed
  rw [htasks, List.getElem?_modify_eq, ht]
  simp [halive]

/-- The lookup of a topic finds its channel exactly if the topic is subscribed. -/
theorem sender_eq_none {changes : List (String × Bool)} (h : Tracks changes s) (topic_id : String) :
    s.sender topic_id = none ↔ topic_id ∉ s.fs.subscribedTopicApi := by
  unfold Node.sender
  split
  · rename_i hmem
    obtain ⟨ch, hch, hname⟩ := h.channels topic_id hmem
    obtain ⟨c, hc⟩ := List.mem_iff_getElem?.mp hch
    have hlt := (List.getElem?_eq_some_iff.mp hc).1
    refine ⟨fun hnone => ?_, fun hn => absurd hmem hn⟩
    have := List.find?_eq_none.mp hnone c (List.mem_reverse.mpr (List.mem_range.mpr hlt))
    rw [hc] at this
    simp [hname] at this
  · rename_i hmem
    exact ⟨fun _ => hmem, fun _ => rfl⟩

theorem getSubscribedTopics_eq_none (fs : FloodSub) :
    fs.getSubscribedTopics = none ↔ ∀ t, t ∉ fs.subscribedTopicApi := by
  unfold FloodSub.getSubscribedTopics
  split
  · rename_i hkeys
    refine ⟨fun _ t ht => ?_, fun _ => rfl⟩
    rw [AList.mem_keys, hkeys] at ht
    exact absurd ht List.not_mem_nil
  · rename_i hkeys
    refine ⟨fun h => absurd h (by simp), fun h => absurd ?_ hkeys⟩
    exact List.eq_nil_iff_forall_not_mem.mpr fun t ht => h t (AList.mem_keys.mpr ht)

/-- **Who needs a topic stops** exactly if it is not there. -/
theorem goes_ended_iff {s : TopicWatch} (h : Tracks s.changes s.node) (hw : w.needsTopic = true)
    (ht : s.node.tasks[u]? = some t) (halive : t.alive = true)
    (hgo : s.node.Goes u now order w todo s') : s'.ended u = true ↔ ¬ s.Supports w := by
  cases w with
  | consumePubsubMsg msg_forwarder_id msg =>
    have hiff : s.node.fs.getSubscribedTopics = none ↔
        ¬ s.Supports (.consumePubsubMsg msg_forwarder_id msg) := by
      rw [getSubscribedTopics_eq_none]
      show _ ↔ ¬ ∃ topic_id, lastChange s.changes topic_id = some true
      rw [not_exists]
      exact forall_congr' fun topic_id => not_congr (h.topics topic_id)
    rw [← hiff]
    cases hgo with
    | refused r hr hroom hs => 
      obtain rfl := Option.some.inj hr
      exact absurd hroom (by simp [Node.room])
    | performed hroom hs =>
      rw [Node.perform] at hs
      split at hs
      · rename_i hnone
        obtain rfl := Option.some.inj hs
        exact ⟨fun _ => hnone, fun _ => ended_stop _ u⟩
      · rename_i topics hsome
        have hended : s'.ended u = false := by
          split at hs
          · obtain rfl := Option.some.inj hs
            exact ended_proceed ht halive rfl _
          · obtain rfl := Option.some.inj hs
            exact ended_proceed ht halive rfl _
        rw [hended, hsome]
        simp
  | notifySubscription topic_id msg =>
    have hiff : s.node.sender topic_id = none ↔
        ¬ s.Supports (.notifySubscription topic_id msg) := by
      rw [sender_eq_none h]
      exact not_congr (h.topics topic_id)
    rw [← hiff]
    cases hgo with
    | refused r hr hroom hs =>
      obtain rfl := Option.some.inj hr
      exact absurd hroom (by simp [Node.room])
    | performed hroom hs =>
      rw [Node.perform] at hs
      split at hs
      · rename_i hnone
        obtain rfl := Option.some.inj hs
        exact ⟨fun _ => hnone, fun _ => ended_stop _ u⟩
      · rename_i c hsome
        obtain rfl := Option.some.inj hs
        rw [ended_proceed ht halive rfl _, hsome]
        simp
  | put c item =>
    have hiff : s.node.room (.topic c) = none ↔ ¬ s.Supports (.put c item) := by
      show (s.node.topics[c]?).bind TopicChannel.room = none ↔
        ¬ ∃ ch, s.node.topics[c]? = some ch ∧ ch.reader ≠ .gone
      cases s.node.topics[c]? with
      | none => simp
      | some ch => simp [TopicChannel.room]
    rw [← hiff]
    cases hgo with
    | refused r hr hroom hs =>
      obtain rfl := Option.some.inj hr
      rw [hs]
      exact ⟨fun _ => hroom, fun _ => ended_stop _ u⟩
    | performed hroom hs =>
      obtain rfl := Option.some.inj hs
      obtain ⟨n, hfree⟩ := hroom (.topic c) rfl
      have hended : ((s.node.put c item).proceed u todo).ended u = false :=
        ended_proceed ht halive rfl _
      rw [hended]
      exact ⟨fun he => absurd he (by simp), fun hnone => absurd (hfree.symm.trans hnone) (by simp)⟩
  | _ => exact absurd hw (by simp [Work.needsTopic])

/-- What becomes of a message in one turn of its handler, unless the handler stops: it is dropped,
it is enqueued on the channel of its topic, or it is still to do. -/
inductive Settled (s s' : Node) (u : Nat) (todo : List Work) : Work → Prop
  | own {msg_forwarder_id : String} {msg : Message} (hleft : s'.todo u = todo) :
      Settled s s' u todo (.consumePubsubMsg msg_forwarder_id msg)
  | reread {msg_forwarder_id : String} {msg : Message} (topics : List String)
      (hleft : s'.todo u = .isMsgSeen msg_forwarder_id msg topics :: todo) :
      Settled s s' u todo (.consumePubsubMsg msg_forwarder_id msg)
  | seen {msg_forwarder_id : String} {msg : Message} {topics : List String}
      (hleft : s'.todo u = todo) :
      Settled s s' u todo (.isMsgSeen msg_forwarder_id msg topics)
  | accepted {msg_forwarder_id : String} {msg : Message} {topics : List String}
      (hleft : s'.todo u = (msg.topicIds.filter (· ∈ topics)).map (Work.notifySubscription · msg) ++
        .publish msg_forwarder_id msg :: todo) :
      Settled s s' u todo (.isMsgSeen msg_forwarder_id msg topics)
  | found {msg : Message} (c : Nat) (ch : TopicChannel) (hc : s.topics[c]? = some ch)
      (hleft : s'.todo u = .put c (msg.data.getD [], msg.from_.getD []) :: todo) :
      Settled s s' u todo (.notifySubscription ch.topic msg)
  | enqueued {c : Nat} {item : List UInt8 × List UInt8} (ch : TopicChannel)
      (hc : s.topics[c]? = some ch)
      (hput : s'.topics[c]? = some { ch with queue := ch.queue ++ [item] })
      (hleft : s'.todo u = todo) : Settled s s' u todo (.put c item)

theorem todo_proceed {s₁ : Node} (ht : s.tasks[u]? = some t) (htasks : s₁.tasks = s.tasks)
    (more : List Work) : (s₁.proceed u more).todo u = more := by
  unfold Node.todo Node.proceed
  rw [htasks, List.getElem?_modify_eq, ht]
  rfl

/-- The channel that the lookup of a topic finds is the topic's. -/
theorem sender_topic {topic_id : String} {c : Nat} (h : s.sender topic_id = some c) :
    ∃ ch, s.topics[c]? = some ch ∧ ch.topic = topic_id := by
  unfold Node.sender at h
  obtain ⟨-, h⟩ := Option.ite_none_right_eq_some.mp h
  have hfound : (s.topics[c]?).any (·.topic = topic_id) = true := by
    simpa using List.find?_some h
  obtain ⟨ch, hc, hname⟩ := (Option.any_eq_true ..).mp hfound
  exact ⟨ch, hc, of_decide_eq_true hname⟩

/-- **A message on its way** is dropped, enqueued on its topic's channel, or still to do. -/
theorem perform_settled (ht : s.tasks[u]? = some t)
    (hw : w.needsTopic = true ∨ ∃ f msg topics, w = .isMsgSeen f msg topics)
    (hroom : ∀ r, w.wants = some r → s.room r ≠ none)
    (hs : s.perform u now order todo w = some s') (hgood : s'.ended u = false) :
    Settled s s' u todo w := by
  have running : s' ≠ s.stop u := by
    intro h
    subst h
    rw [ended_stop] at hgood
    exact absurd hgood (by simp)
  cases w with
  | consumePubsubMsg msg_forwarder_id msg =>
    rw [Node.perform] at hs
    split at hs
    · exact absurd (Option.some.inj hs).symm running
    · rename_i topics _
      split at hs
      · obtain rfl := Option.some.inj hs
        exact .own (todo_proceed ht rfl _)
      · obtain rfl := Option.some.inj hs
        exact .reread topics (todo_proceed ht rfl _)
  | isMsgSeen msg_forwarder_id msg topics =>
    rw [Node.perform] at hs
    split at hs
    · exact absurd (Option.some.inj hs).symm running
    · obtain rfl := Option.some.inj hs
      exact .seen (todo_proceed ht rfl _)
    · obtain rfl := Option.some.inj hs
      exact .accepted (todo_proceed ht rfl _)
  | notifySubscription topic_id msg =>
    rw [Node.perform] at hs
    split at hs
    · exact absurd (Option.some.inj hs).symm running
    · rename_i c hsender
      obtain rfl := Option.some.inj hs
      obtain ⟨ch, hc, rfl⟩ := sender_topic hsender
      exact .found c ch hc (todo_proceed ht rfl _)
  | put c item =>
    obtain rfl := Option.some.inj hs
    obtain ⟨room, hfree⟩ := Option.ne_none_iff_exists'.mp (hroom _ rfl)
    obtain ⟨ch, hc, -⟩ := Option.bind_eq_some_iff.mp hfree
    refine .enqueued ch hc ?_ (todo_proceed ht rfl _)
    show (s.topics.modify c _)[c]? = _
    rw [List.getElem?_modify_eq, hc]
    rfl
  | _ => simp [Work.needsTopic] at hw

end Stops

/-! ## A whole run -/

namespace TopicWatch

variable {s s' : TopicWatch} {a : NodeAct}

/-- What a turn does to the subscriptions and to the tasks that have stopped. -/
inductive Turn (s s' : TopicWatch) (a : NodeAct) : Prop
  | other (ha : ∀ u now order, a ≠ .go u now order) (hs : s.node.step a = some s'.node)
      (hchanges : s'.changes = s.changes) (hstopped : s'.stopped = s.stopped)
  | goes (u : Nat) (now : UInt64) (order : List String) (t : Task) (w : Work) (todo : List Work)
      (ha : a = .go u now order) (ht : s.node.tasks[u]? = some t) (halive : t.alive = true)
      (htodo : t.todo = w :: todo) (hgo : s.node.Goes u now order w todo s'.node)
      (hchanges : s'.changes = s.changes ++ w.change)
      (hstopped : s'.stopped =
        if s'.node.ended u then s.stopped ++ [(u, w :: todo)] else s.stopped)

theorem step_turn (hs : s.step a = some s') : s.Turn s' a := by
  obtain ⟨node, hstep, rfl⟩ := Option.map_eq_some_iff.mp hs
  cases a with
  | go u now order =>
    obtain ⟨t, w, todo, ht, halive, htodo, hgo⟩ := Node.go_cases hstep
    have hnext := Node.next_of_todo ht halive htodo
    have hleft : s.node.todo u = w :: todo := by
      unfold Node.todo
      rw [ht]
      exact htodo
    refine .goes u now order t w todo rfl ht halive htodo hgo ?_ ?_
    · show s.changes ++ ((s.node.next u).map Work.change).getD [] = _
      rw [hnext]
      rfl
    · show (if node.ended u then s.stopped ++ [(u, s.node.todo u)] else s.stopped) = _
      rw [hleft]
  | _ => exact .other (by simp) hstep rfl rfl

/-- **One turn** keeps track of the subscriptions. -/
theorem tracks_step (h : Tracks s.changes s.node) (hs : s.step a = some s') :
    Tracks s'.changes s'.node := by
  cases step_turn hs with
  | other ha hstep hchanges hstopped =>
    obtain ⟨hfs, hnames⟩ := step_store ha hstep
    rw [hchanges]
    exact h.of_same (fun t => by rw [hfs]) hnames
  | goes u now order t w todo ha ht halive htodo hgo hchanges hstopped =>
    rw [hchanges]
    cases hgo with
    | performed hroom hperform => exact h.perform hperform
    | refused r hw hroom hstop =>
      rw [hstop]
      -- only a send is refused, and it changes no subscription
      have hnone : w.change = [] := by
        cases w with
        | insertTopic | removeTopic =>
          obtain rfl := Option.some.inj hw
          exact absurd hroom (by simp [Node.room])
        | _ => rfl
      rw [hnone, List.append_nil]
      exact h.stop u

/-- **One turn** stops a handler in the middle of a message exactly if the handler does not find
what it needs. -/
theorem step_aborted_iff (h : Tracks s.changes s.node) (hgood : ¬ s.Aborted)
    (hs : s.step a = some s') : s'.Aborted ↔ ¬ s.StillThere a := by
  cases step_turn hs with
  | other ha hstep hchanges hstopped =>
    have hthere : s.StillThere a := fun u now order w hgo => absurd hgo (ha u now order)
    have hgood' : ¬ s'.Aborted := by
      unfold Aborted
      rw [hstopped]
      exact hgood
    exact ⟨fun hb => absurd hb hgood', fun hn => absurd hthere hn⟩
  | goes u now order t w todo ha ht halive htodo hgo hchanges hstopped =>
    have hnext := Node.next_of_todo ht halive htodo
    have hthere : s.StillThere a ↔ s.Supports w := by
      constructor
      · exact fun hall => hall u now order w ha hnext
      · intro hw u' now' order' w' hgo' hnext'
        obtain ⟨rfl, -, -⟩ := NodeAct.go.inj (ha.symm.trans hgo')
        obtain rfl := Option.some.inj (hnext.symm.trans hnext')
        exact hw
    have haborted : s'.Aborted ↔ s'.node.ended u = true ∧ w.needsTopic = true := by
      unfold Aborted
      rw [hstopped]
      split
      · rename_i hended
        constructor
        · intro h
          obtain ⟨e, he, hw⟩ := h
          rcases List.mem_append.mp he with he | he
          · exact absurd ⟨e, he, hw⟩ hgood
          · obtain ⟨w', hw', hneeds⟩ := hw
            rw [List.mem_singleton.mp he] at hw'
            obtain rfl := Option.some.inj hw'
            exact ⟨hended, hneeds⟩
        · intro h
          obtain ⟨-, hneeds⟩ := h
          exact ⟨_, List.mem_append_right _ (List.mem_singleton_self _), w, rfl, hneeds⟩
      · rename_i hended
        exact ⟨fun hb => absurd hb hgood, fun hb => absurd hb.1 hended⟩
    rw [hthere, haborted]
    by_cases hneeds : w.needsTopic = true
    · rw [← goes_ended_iff h hneeds ht halive hgo]
      exact and_iff_left hneeds
    · refine ⟨fun hb => absurd hb.2 hneeds, fun hn => absurd ?_ hn⟩
      cases w with
      | consumePubsubMsg | notifySubscription | put => exact absurd rfl hneeds
      | _ => trivial

end TopicWatch

/-- A node from its start on, with what happens to its subscriptions and tasks. -/
def topicWatch (localPeerId : String) : System TopicWatch NodeAct where
  init s := s = { node := { fs := { localPeerId } } }
  step := TopicWatch.step

/-- **Messages and unsubscribed topics.** In every run, whatever the streams, the calls and the
schedule, no handler stops in the middle of a message for what it finds about the topics exactly if
every second read comes while some topic was last subscribed, every lookup while its own topic was,
and every send while the receiver of the channel is there. -/
theorem messages_kept_iff (localPeerId : String) (as : List NodeAct) :
    (topicWatch localPeerId).Avoids TopicWatch.Aborted { node := { fs := { localPeerId } } } as ↔
      (topicWatch localPeerId).Guarded TopicWatch.StillThere { node := { fs := { localPeerId } } }
        as := by
  refine avoids_iff_guarded (I := fun s : TopicWatch => Tracks s.changes s.node)
    (fun s a s' h hs => TopicWatch.tracks_step h hs)
    (fun s a s' h hgood hs => TopicWatch.step_aborted_iff h hgood hs) as _ ?_ ?_
  · refine ⟨fun t => ?_, fun t ht => absurd ht (by simp)⟩
    simp [lastChange]
  · intro h
    obtain ⟨e, he, -⟩ := h
    exact absurd he List.not_mem_nil

/-- A message of another peer, as an RPC carries it. -/
def newsFrom (origin : List UInt8) : Rpc where
  publish := [{ from_ := some origin, data := some [1], seqno := some [0, 0, 0, 0, 0, 0, 0, 1],
                topicIds := ["news"] }]

/-- A peer's stream and a subscription. -/
def subscribedNews : List NodeAct :=
  [.newPeer "p", .go 1 0 [], .go 1 0 [], .subscribe "news", .go 2 0 [], .go 2 0 [], .go 2 0 [],
    .go 2 0 ["p"], .go 2 0 [], .go 2 0 [], .go 2 0 []]

/-- The handler has read the subscribed topics for the first time when the owner unsubscribes. -/
def unsubscribedBetween : List NodeAct :=
  subscribedNews ++ [.read 1 (newsFrom [113]), .go 1 0 [], .unsubscribe ["news"], .go 3 0 [],
    .go 3 0 [], .go 3 0 [], .go 1 0 []]

/-- The handler has read them for the second time. -/
def unsubscribedBeforeLookup : List NodeAct :=
  subscribedNews ++ [.read 1 (newsFrom [113]), .go 1 0 [], .go 1 0 [], .go 1 0 [],
    .unsubscribe ["news"], .go 3 0 [], .go 3 0 [], .go 3 0 [], .go 1 0 []]

theorem unsubscribed_enabled :
    ([unsubscribedBetween, unsubscribedBeforeLookup].all fun as =>
      ((topicWatch "n").exec (fun _ _ => True) { node := { fs := { localPeerId := "n" } } } as).any
        fun s => s.stopped.any fun e => e.2.head?.any Work.needsTopic) = true := by decide +kernel

theorem unsubscribed_run {as : List NodeAct}
    (has : as ∈ [unsubscribedBetween, unsubscribedBeforeLookup]) :
    ∃ s, (topicWatch "n").Run as s ∧ s.Aborted := by
  have henabled := List.all_eq_true.mp unsubscribed_enabled as has
  obtain ⟨s, hs, hstopped⟩ := (Option.any_eq_true ..).mp henabled
  obtain ⟨e, he, hhead⟩ := List.any_eq_true.mp hstopped
  exact ⟨s, runUnder_of_exec rfl hs, e, he, (Option.any_eq_true ..).mp hhead⟩

/-- **An unsubscribed topic** stops the handler at the second read, and at the lookup. -/
theorem unsubscribed_aborts :
    (∃ s, (topicWatch "n").Run unsubscribedBetween s ∧ s.Aborted) ∧
      ∃ s, (topicWatch "n").Run unsubscribedBeforeLookup s ∧ s.Aborted :=
  ⟨unsubscribed_run (List.mem_cons_self ..),
    unsubscribed_run (List.mem_cons_of_mem _ (List.mem_singleton_self _))⟩

end Rnet.Floodsub
