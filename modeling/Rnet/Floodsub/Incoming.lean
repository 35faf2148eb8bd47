import Rnet.Floodsub.PubSub
import Mathlib.Data.Finset.Sort
import Mathlib.Data.String.Basic

/-!
# One RPC of a peer: `handle_incoming`

A call of `handle_incoming` with nothing else running: the messages of `rpc.publish` one
after the other, then the entries of `rpc.subscriptions`. A message that is new is put into
the channels of the topics the node is subscribed to and written to the peers that are.

Every field of an entry may be absent. The accessors read an absent `subscribe` as `false`, and
an absent `from` or `data` as no bytes: such an entry is well formed, and handled like one that says
so. There is no default for `topic_id`, which is unwrapped, and none for a sequence number that is
not eight bytes long, where the `None` of `seqno_to_unix_tx` is unwrapped.

> `incoming_returns_iff`: a call returns, with the effects of the well-formed entries, exactly
> if no entry makes it panic.

> `delivered_once_iff`: a new message reaches every channel and every peer exactly once
> exactly if no subscribed topic is repeated in it and all of them still listen.
-/

namespace Rnet.Floodsub

open Rnet.Lib

/-- The order in which a `HashSet` hands out its elements. -/
structure VisitOrder where
  visit : Finset String → List String
  nodup : ∀ peers, (visit peers).Nodup
  mem : ∀ peers peer, peer ∈ visit peers ↔ peer ∈ peers

/-- The tasks that the call sends to. -/
structure Receivers where
  /-- stream handler `h` holds the receiver of its queue -/
  handler : Nat → Bool
  /-- the `receive_loop` of the topic holds the receiver of its channel -/
  subscription : String → Bool

/-- A message of `rpc.publish`, with the clock and the order of the peers when it is handled. -/
structure Arrival where
  msg : Message
  now : UInt64
  order : VisitOrder

/-- `message.from()`, as text. -/
def Message.origin (msg : Message) : String := fromUtf8Lossy (msg.from_.getD [])

/-- What goes into the channel of a topic: `data()` and `from()`. -/
def Message.payload (msg : Message) : List UInt8 × List UInt8 :=
  (msg.data.getD [], msg.from_.getD [])

/-- The key of a message in the cache. -/
def Message.key (msg : Message) : Option MessageKey :=
  (seqnoToUnixTx (msg.seqno.getD [])).map fun seqno => ⟨msg.from_.getD [], seqno⟩

/-- The node with a key in its cache. -/
def FloodSub.remember (fs : FloodSub) (key : MessageKey) (now : UInt64) : FloodSub :=
  { fs with lastSeenCache := Function.update fs.lastSeenCache key (some now) }

/-- What a call works on: the node, and what has been written to the queues of its peers. -/
structure IncomingCall where
  fs : FloodSub
  sent : List (String × Message) := []

namespace IncomingCall

variable (env : Receivers)

/-- `notify_subscription`; a panic when the topic's receiver is gone. -/
def notify (fs : FloodSub) (topic_id : String) (msg : Message) : Option FloodSub :=
  if env.subscription topic_id then fs.notifySubscription topic_id msg else none

/-- `write_msg`; a panic when the peer is unknown or its stream handler has ended. -/
def write (s : IncomingCall) (msg : Message) (peer_id : String) : Option IncomingCall := do
  let h ← s.fs.writeMsg peer_id
  if env.handler h then some { s with sent := s.sent ++ [(peer_id, msg)] } else none

/-- `publish`. -/
def publish (s : IncomingCall) (msg_forwarder_id : String) (a : Arrival) : Option IncomingCall :=
  (a.order.visit (s.fs.publishPeers msg_forwarder_id a.msg)).foldlM (fun s => s.write env a.msg) s

/-- The loop over `topic_ids` in `consume_pubsub_msg`. -/
def notifyAll (subscribed_topics : List String) (msg : Message) (fs : FloodSub)
    (topic_ids : List String) : Option FloodSub :=
  topic_ids.foldlM (fun fs topic_id =>
    if topic_id ∈ subscribed_topics then notify env fs topic_id msg else some fs) fs

/-- `consume_pubsub_msg`. -/
def consume (s : IncomingCall) (msg_forwarder_id : String) (a : Arrival) :
    Option IncomingCall := do
  let subscribed_topics ← s.fs.getSubscribedTopics
  if a.msg.origin = s.fs.localPeerId then some s
  else
    let (fs, seen) ← s.fs.isMsgSeen a.msg a.now
    if seen then some { s with fs := fs }
    else
      let fs ← notifyAll env subscribed_topics a.msg fs a.msg.topicIds
      publish env { s with fs := fs } msg_forwarder_id a

/-- One message in the loop over `rpc.publish`. -/
def handleMessage (subscribed_topics : List String) (peer_id : String) (s : IncomingCall)
    (a : Arrival) : Option IncomingCall :=
  if a.msg.topicIds.any fun topic => topic ∈ subscribed_topics then s.consume env peer_id a
  else some s

/-- `handle_incoming`; `none` is a panic. -/
def handleIncoming (s : IncomingCall) (peer_id : String) (messages : List Arrival)
    (subscriptions : List SubOpts) : Option IncomingCall := do
  let subscribed_topics := s.fs.getSubscribedTopics.getD []
  let s ← messages.foldlM (handleMessage env subscribed_topics peer_id) s
  let fs ← subscriptions.foldlM (fun fs sub_msg => fs.handleSubopts peer_id sub_msg) s.fs
  some { s with fs := fs }

end IncomingCall

/-! ## The channels -/

section Deliver

variable (env : Receivers)

/-- The node after the channels got `n topic` copies of a message: only they have changed. -/
structure Notified (msg : Message) (n : String → Nat) (fs fs' : FloodSub) : Prop where
  store : SameStore fs fs'
  cache : fs'.lastSeenCache = fs.lastSeenCache
  channels : ∀ topic, fs'.subscribedTopicApi.lookup topic =
    (fs.subscribedTopicApi.lookup topic).map (· ++ List.replicate (n topic) msg.payload)

/-- Sending to a channel. -/
theorem notify_notified {env : Receivers} {fs fs' : FloodSub} {topic_id : String} {msg : Message}
    (h : IncomingCall.notify env fs topic_id msg = some fs') :
    env.subscription topic_id = true ∧
      Notified msg (fun topic => if topic = topic_id then 1 else 0) fs fs' := by
  obtain ⟨hlive, h⟩ := Option.ite_none_right_eq_some.mp h
  obtain ⟨hstore, hcache⟩ := notifySubscription_frame h
  refine ⟨hlive, hstore, hcache, fun topic => ?_⟩
  unfold FloodSub.notifySubscription at h
  obtain ⟨sent, hsent, h⟩ := Option.bind_eq_some_iff.mp h
  obtain rfl := Option.some.inj h
  by_cases ht : topic = topic_id
  · rw [if_pos ht, ht, hsent]
    exact AList.lookup_insert ..
  · rw [if_neg ht, List.replicate_zero]
    dsimp only
    rw [AList.lookup_insert_ne ht]
    simp

theorem Notified.refl (msg : Message) (fs : FloodSub) : Notified msg (fun _ => 0) fs fs :=
  ⟨SameStore.refl fs, rfl, fun topic => by simp⟩

theorem Notified.trans {msg : Message} {n m : String → Nat} {fs fs' fs'' : FloodSub}
    (h : Notified msg n fs fs') (h' : Notified msg m fs' fs'') :
    Notified msg (fun topic => n topic + m topic) fs fs'' := by
  refine ⟨h.store.trans h'.store, h'.cache.trans h.cache, fun topic => ?_⟩
  rw [h'.channels, h.channels, Option.map_map]
  congr 1
  funext sent
  rw [Function.comp_apply, List.append_assoc, List.replicate_append_replicate]

/-- Only the number of copies for the topics that have a channel matters. -/
theorem Notified.congr {msg : Message} {n m : String → Nat} {fs fs' : FloodSub}
    (h : Notified msg n fs fs') (hnm : ∀ topic ∈ fs.subscribedTopicApi, n topic = m topic) :
    Notified msg m fs fs' := by
  refine ⟨h.store, h.cache, fun topic => ?_⟩
  rw [h.channels]
  by_cases ht : topic ∈ fs.subscribedTopicApi
  · rw [hnm topic ht]
  · rw [AList.lookup_eq_none.mpr ht]
    rfl

/-- **The loop over the topics** returns when every subscribed one has its receiver, and puts the
message into a channel as often as its topic occurs. -/
theorem notifyAll_iff (msg : Message) {subscribed : List String} (topics : List String)
    {fs : FloodSub} (hsub : ∀ t, t ∈ subscribed ↔ t ∈ fs.subscribedTopicApi) :
    ((∃ fs', IncomingCall.notifyAll env subscribed msg fs topics = some fs') ↔
      ∀ t ∈ topics, t ∈ subscribed → env.subscription t = true) ∧
    ∀ fs', IncomingCall.notifyAll env subscribed msg fs topics = some fs' →
      Notified msg (fun t => topics.count t) fs fs' := by
  refine foldlM_iff_forall (I := fun before fs' => Notified msg (fun t => before.count t) fs fs')
    (fun t => t ∈ subscribed → env.subscription t = true) ?_ topics (Notified.refl msg fs)
  intro before topic fs₁ hn
  by_cases ht : topic ∈ subscribed
  · rw [if_pos ht]
    have hm : topic ∈ fs₁.subscribedTopicApi :=
      (hn.store.subscribed topic).mpr ((hsub topic).mp ht)
    refine ⟨⟨fun ⟨fs₂, h₂⟩ _ => (notify_notified h₂).1, fun hlive => ?_⟩, fun fs₂ h₂ => ?_⟩
    · obtain ⟨fs₂, h₂, -⟩ := notifySubscription_of_mem msg hm
      refine ⟨fs₂, ?_⟩
      unfold IncomingCall.notify
      rw [if_pos (hlive ht), h₂]
    · refine (hn.trans (notify_notified h₂).2).congr fun t _ => ?_
      rw [List.count_append, List.count_singleton]
      by_cases he : t = topic
      · simp [he]
      · simp [he, Ne.symm he]
  · rw [if_neg ht]
    refine ⟨⟨fun _ hm => absurd hm ht, fun _ => ⟨fs₁, rfl⟩⟩, fun fs₂ h₂ => ?_⟩
    obtain rfl := Option.some.inj h₂
    refine hn.congr fun t hm => ?_
    have hne : topic ≠ t := fun he => ht (he ▸ (hsub t).mpr hm)
    rw [List.count_append, List.count_singleton, if_neg (by simp [hne]), Nat.add_zero]

/-! ## The peers -/

/-- Writing to one peer. -/
theorem write_iff (msg : Message) (peer : String) (s s' : IncomingCall) :
    s.write env msg peer = some s' ↔
      (∃ h, s.fs.peers.lookup peer = some h ∧ env.handler h = true) ∧
        s' = { s with sent := s.sent ++ [(peer, msg)] } := by
  unfold IncomingCall.write FloodSub.writeMsg
  rw [Option.bind_eq_bind, Option.bind_eq_some_iff]
  simp only [Option.ite_none_right_eq_some, Option.some.injEq]
  constructor
  · intro h
    obtain ⟨h, hl, hlive, rfl⟩ := h
    exact ⟨⟨h, hl, hlive⟩, rfl⟩
  · intro h
    obtain ⟨⟨h, hl, hlive⟩, rfl⟩ := h
    exact ⟨h, hl, hlive, rfl⟩

/-- Writing to the peers of a list. -/
theorem writes_iff (msg : Message) (peers : List String) (s : IncomingCall) :
    ((∃ s', peers.foldlM (fun s => IncomingCall.write env s msg) s = some s') ↔
      ∀ peer ∈ peers, ∃ h, s.fs.peers.lookup peer = some h ∧ env.handler h = true) ∧
    ∀ s', peers.foldlM (fun s => IncomingCall.write env s msg) s = some s' →
      s' = { s with sent := s.sent ++ peers.map fun peer => (peer, msg) } := by
  refine foldlM_iff_forall
    (I := fun before s' => s' = { s with sent := s.sent ++ before.map fun peer => (peer, msg) })
    (fun peer => ∃ h, s.fs.peers.lookup peer = some h ∧ env.handler h = true) ?_ peers
    (by rw [List.map_nil, List.append_nil])
  intro before peer s₁ hs₁
  subst hs₁
  refine ⟨⟨fun ⟨s₂, h₂⟩ => ((write_iff env msg peer _ s₂).mp h₂).1,
    fun hpeer => ⟨_, (write_iff env msg peer _ _).mpr ⟨hpeer, rfl⟩⟩⟩, fun s₂ h₂ => ?_⟩
  rw [((write_iff env msg peer _ s₂).mp h₂).2, List.map_append, List.append_assoc]
  rfl

/-! ## One message -/

/-- Everybody the message goes to still listens: the subscriptions to its topics, and the peers
that it is published to, which all have a stream. -/
structure Delivers (env : Receivers) (fs : FloodSub) (msg_forwarder_id : String) (msg : Message) :
    Prop where
  channels : ∀ topic ∈ msg.topicIds, topic ∈ fs.subscribedTopicApi →
    env.subscription topic = true
  peers : ∀ peer ∈ fs.publishPeers msg_forwarder_id msg,
    ∃ h, fs.peers.lookup peer = some h ∧ env.handler h = true

/-- What a new message does: the cache has its key, a channel the message as often as its topic
occurs, and every peer that it is published to gets it once. -/
structure Consumed (s s' : IncomingCall) (msg_forwarder_id : String) (a : Arrival)
    (key : MessageKey) : Prop where
  store : SameStore s.fs s'.fs
  cache : s'.fs.lastSeenCache = Function.update s.fs.lastSeenCache key (some a.now)
  channels : ∀ topic, s'.fs.subscribedTopicApi.lookup topic =
    (s.fs.subscribedTopicApi.lookup topic).map
      (· ++ List.replicate (a.msg.topicIds.count topic) a.msg.payload)
  sent : s'.sent = s.sent ++
    (a.order.visit (s.fs.publishPeers msg_forwarder_id a.msg)).map fun peer => (peer, a.msg)

/-- The store decides who a message is published to. -/
theorem SameStore.publishPeers {fs fs' : FloodSub} (h : SameStore fs fs')
    (msg_forwarder_id : String) (msg : Message) :
    fs'.publishPeers msg_forwarder_id msg = fs.publishPeers msg_forwarder_id msg := by
  ext peer
  rw [mem_publishPeers, mem_publishPeers]
  unfold FloodSub.Lists
  rw [h.peerTopics]

/-- Delivering a message: the channels first, then the peers. -/
theorem deliver_iff (fs : FloodSub) (sent : List (String × Message)) (msg_forwarder_id : String)
    (a : Arrival) :
    ((∃ s', ((IncomingCall.notifyAll env fs.subscribedTopicApi.keys a.msg fs
        a.msg.topicIds).bind fun fs =>
          IncomingCall.publish env { fs := fs, sent := sent } msg_forwarder_id a) = some s') ↔
      Delivers env fs msg_forwarder_id a.msg) ∧
    ∀ s', ((IncomingCall.notifyAll env fs.subscribedTopicApi.keys a.msg fs
        a.msg.topicIds).bind fun fs =>
          IncomingCall.publish env { fs := fs, sent := sent } msg_forwarder_id a) = some s' →
      Notified a.msg (fun topic => a.msg.topicIds.count topic) fs s'.fs ∧
      s'.sent = sent ++
        (a.order.visit (fs.publishPeers msg_forwarder_id a.msg)).map fun peer => (peer, a.msg) := by
  have hkeys : ∀ t, t ∈ fs.subscribedTopicApi.keys ↔ t ∈ fs.subscribedTopicApi :=
    fun t => AList.mem_keys.symm
  obtain ⟨hret, hall⟩ := notifyAll_iff env a.msg a.msg.topicIds hkeys
  -- publishing, in the state that the notifications leave
  have hpub : ∀ fs₁, Notified a.msg (fun topic => a.msg.topicIds.count topic) fs fs₁ →
      ((∃ s', IncomingCall.publish env { fs := fs₁, sent := sent } msg_forwarder_id a = some s') ↔
        ∀ peer ∈ fs.publishPeers msg_forwarder_id a.msg,
          ∃ h, fs.peers.lookup peer = some h ∧ env.handler h = true) ∧
      ∀ s', IncomingCall.publish env { fs := fs₁, sent := sent } msg_forwarder_id a = some s' →
        s' = { fs := fs₁, sent := sent ++
          (a.order.visit (fs.publishPeers msg_forwarder_id a.msg)).map fun peer =>
            (peer, a.msg) } := by
    intro fs₁ hn
    obtain ⟨hw, hs⟩ := writes_iff env a.msg
      (a.order.visit (fs.publishPeers msg_forwarder_id a.msg)) { fs := fs₁, sent := sent }
    unfold IncomingCall.publish
    dsimp only at hw hs ⊢
    rw [hn.store.publishPeers]
    refine ⟨hw.trans ?_, hs⟩
    rw [hn.store.peers]
    exact forall_congr' fun peer => imp_congr_left (a.order.mem _ _)
  constructor
  · constructor
    · intro h
      obtain ⟨s', h⟩ := h
      obtain ⟨fs₁, h₁, hrest⟩ := Option.bind_eq_some_iff.mp h
      exact ⟨fun t hm ht => hret.mp ⟨fs₁, h₁⟩ t hm (AList.mem_keys.mp ht),
        (hpub fs₁ (hall fs₁ h₁)).1.mp ⟨s', hrest⟩⟩
    · intro hd
      obtain ⟨fs₁, h₁⟩ := hret.mpr fun t hm ht => hd.channels t hm (AList.mem_keys.mpr ht)
      obtain ⟨s', h⟩ := (hpub fs₁ (hall fs₁ h₁)).1.mpr hd.peers
      exact ⟨s', Option.bind_eq_some_iff.mpr ⟨fs₁, h₁, h⟩⟩
  · intro s' h
    obtain ⟨fs₁, h₁, hrest⟩ := Option.bind_eq_some_iff.mp h
    obtain rfl := (hpub fs₁ (hall fs₁ h₁)).2 s' hrest
    exact ⟨hall fs₁ h₁, rfl⟩

/-- A message of the node itself, or one that was seen before, is dropped. A sequence number of
another length makes the call panic. -/
theorem consume_cases (s : IncomingCall) (msg_forwarder_id : String) (a : Arrival)
    (hsub : s.fs.subscribedTopicApi.keys ≠ []) :
    (a.msg.origin = s.fs.localPeerId ∧ s.consume env msg_forwarder_id a = some s) ∨
    (a.msg.origin ≠ s.fs.localPeerId ∧ a.msg.key = none ∧
      s.consume env msg_forwarder_id a = none) ∨
    ∃ key, a.msg.origin ≠ s.fs.localPeerId ∧ a.msg.key = some key ∧
      ((s.fs.lastSeenCache key ≠ none ∧ s.consume env msg_forwarder_id a = some s) ∨
        (s.fs.lastSeenCache key = none ∧
          ((∃ s', s.consume env msg_forwarder_id a = some s') ↔
            Delivers env s.fs msg_forwarder_id a.msg) ∧
          ∀ s', s.consume env msg_forwarder_id a = some s' →
            Consumed s s' msg_forwarder_id a key)) := by
  have htopics : s.fs.getSubscribedTopics = some s.fs.subscribedTopicApi.keys := if_neg hsub
  unfold IncomingCall.consume
  rw [htopics]
  simp only [Option.bind_eq_bind, Option.bind_some]
  by_cases ho : a.msg.origin = s.fs.localPeerId
  · left
    rw [if_pos ho]
    exact ⟨ho, rfl⟩
  · right
    rw [if_neg ho]
    unfold FloodSub.isMsgSeen Message.key
    cases hq : seqnoToUnixTx (a.msg.seqno.getD []) with
    | none => exact Or.inl ⟨ho, rfl, rfl⟩
    | some q =>
      right
      refine ⟨⟨a.msg.from_.getD [], q⟩, ho, rfl, ?_⟩
      simp only [Option.bind_eq_bind, Option.bind_some]
      cases hc : s.fs.lastSeenCache ⟨a.msg.from_.getD [], q⟩ with
      | some ts => exact Or.inl ⟨by simp, rfl⟩
      | none =>
        right
        simp only [Option.bind_some, Bool.false_eq_true, if_false]
        obtain ⟨hret, heff⟩ := deliver_iff env (s.fs.remember ⟨a.msg.from_.getD [], q⟩ a.now) s.sent
          msg_forwarder_id a
        refine ⟨trivial, hret.trans ⟨fun h => ⟨h.channels, h.peers⟩,
          fun h => ⟨h.channels, h.peers⟩⟩, fun s' h => ?_⟩
        obtain ⟨hn, hsent⟩ := heff s' h
        exact ⟨⟨hn.store.localPeerId, hn.store.peerTopics, hn.store.peers, hn.store.subscribed⟩,
          hn.cache, hn.channels, hsent⟩

/-- A node without subscriptions panics. -/
theorem consume_no_topics (s : IncomingCall) (msg_forwarder_id : String) (a : Arrival)
    (hsub : s.fs.subscribedTopicApi.keys = []) : s.consume env msg_forwarder_id a = none := by
  unfold IncomingCall.consume FloodSub.getSubscribedTopics
  rw [if_pos hsub]
  rfl

/-- Every recipient of the message gets one copy: the channels of the subscribed topics it is
for, and the peers that are subscribed to one of its topics, but for the forwarder and the
origin. Nobody else gets anything. -/
structure DeliveredOnce (msg_forwarder_id : String) (msg : Message) (fs : FloodSub)
    (s' : IncomingCall) : Prop where
  channels : ∀ topic, s'.fs.subscribedTopicApi.lookup topic =
    (fs.subscribedTopicApi.lookup topic).map
      (· ++ if topic ∈ msg.topicIds then [msg.payload] else [])
  once : s'.sent.Nodup
  sent : ∀ peer m, (peer, m) ∈ s'.sent ↔ m = msg ∧ (∃ topic ∈ msg.topicIds, fs.Lists topic peer) ∧
    peer ≠ msg_forwarder_id ∧ peer ≠ msg.origin

/-- The peers get one copy each, whatever the topics of the message. -/
theorem Consumed.sent_once {fs : FloodSub} {s' : IncomingCall} {msg_forwarder_id : String}
    {a : Arrival} {key : MessageKey} (h : Consumed { fs := fs } s' msg_forwarder_id a key) :
    s'.sent.Nodup ∧ ∀ peer m, (peer, m) ∈ s'.sent ↔ m = a.msg ∧
      (∃ topic ∈ a.msg.topicIds, fs.Lists topic peer) ∧
      peer ≠ msg_forwarder_id ∧ peer ≠ a.msg.origin := by
  rw [h.sent, List.nil_append]
  refine ⟨(a.order.nodup _).map fun p q hpq => (Prod.mk.inj hpq).1, fun peer m => ?_⟩
  have hpeers := mem_publishPeers fs msg_forwarder_id a.msg peer
  rw [List.mem_map]
  constructor
  · intro h
    obtain ⟨p, hp, he⟩ := h
    obtain ⟨rfl, rfl⟩ := Prod.mk.inj he
    exact ⟨rfl, hpeers.mp ((a.order.mem _ _).mp hp)⟩
  · intro h
    obtain ⟨rfl, hp⟩ := h
    exact ⟨peer, (a.order.mem _ _).mpr (hpeers.mpr hp), rfl⟩

/-- A channel gets one copy of a message for its topic exactly if the topic occurs once. -/
theorem replicate_count_iff (msg : Message) (topic : String) :
    List.replicate (msg.topicIds.count topic) msg.payload =
        (if topic ∈ msg.topicIds then [msg.payload] else []) ↔
      msg.topicIds.count topic ≤ 1 := by
  by_cases ht : topic ∈ msg.topicIds
  · have hpos := List.count_pos_iff.mpr ht
    rw [if_pos ht]
    constructor
    · intro h
      have := congrArg List.length h
      rw [List.length_replicate, List.length_singleton] at this
      exact this.le
    · intro h
      rw [show msg.topicIds.count topic = 1 by omega]
      rfl
  · rw [if_neg ht, List.count_eq_zero.mpr ht]
    exact ⟨fun _ => Nat.zero_le _, fun _ => rfl⟩

/-- Whether a new message is delivered once. -/
theorem Consumed.delivered_iff {fs : FloodSub} {s' : IncomingCall} {msg_forwarder_id : String}
    {a : Arrival} {key : MessageKey} (h : Consumed { fs := fs } s' msg_forwarder_id a key) :
    DeliveredOnce msg_forwarder_id a.msg fs s' ↔
      ∀ topic ∈ fs.subscribedTopicApi, a.msg.topicIds.count topic ≤ 1 := by
  constructor
  · intro hd topic ht
    obtain ⟨sent, hs⟩ := Option.isSome_iff_exists.mp (AList.lookup_isSome.mpr ht)
    have hc := h.channels topic
    rw [hd.channels topic] at hc
    dsimp only at hc
    rw [hs, Option.map_some, Option.map_some] at hc
    exact (replicate_count_iff a.msg topic).mp (List.append_cancel_left (Option.some.inj hc)).symm
  · intro hcount
    refine ⟨fun topic => ?_, h.sent_once.1, h.sent_once.2⟩
    rw [h.channels]
    dsimp only
    by_cases ht : topic ∈ fs.subscribedTopicApi
    · rw [(replicate_count_iff a.msg topic).mpr (hcount topic ht)]
    · rw [AList.lookup_eq_none.mpr ht]
      rfl

/-- A new message of another node, at a node with subscriptions. -/
theorem consume_new {s : IncomingCall} {msg_forwarder_id : String} {a : Arrival} {key : MessageKey}
    (hsub : s.fs.subscribedTopicApi.keys ≠ []) (hforeign : a.msg.origin ≠ s.fs.localPeerId)
    (hkey : a.msg.key = some key) (hnew : s.fs.lastSeenCache key = none) :
    ((∃ s', s.consume env msg_forwarder_id a = some s') ↔
      Delivers env s.fs msg_forwarder_id a.msg) ∧
    ∀ s', s.consume env msg_forwarder_id a = some s' → Consumed s s' msg_forwarder_id a key := by
  rcases consume_cases env s msg_forwarder_id a hsub with
    ⟨ho, -⟩ | ⟨-, hk, -⟩ | ⟨key', -, hk, ⟨hseen, -⟩ | ⟨-, hret, heff⟩⟩
  · exact absurd ho hforeign
  · rw [hkey] at hk
    exact nomatch hk
  · rw [hkey] at hk
    obtain rfl := Option.some.inj hk
    exact absurd hnew hseen
  · rw [hkey] at hk
    obtain rfl := Option.some.inj hk
    exact ⟨hret, heff⟩

/-- **A new message** of another node is delivered once to each of its recipients exactly if the
node is subscribed to something, everybody it goes to still listens, and no topic that the
node is subscribed to is repeated in it. -/
theorem delivered_once_iff {fs : FloodSub} {msg_forwarder_id : String} {a : Arrival}
    {key : MessageKey} (hforeign : a.msg.origin ≠ fs.localPeerId) (hkey : a.msg.key = some key)
    (hnew : fs.lastSeenCache key = none) :
    (∃ s', IncomingCall.consume env { fs := fs } msg_forwarder_id a = some s' ∧
        DeliveredOnce msg_forwarder_id a.msg fs s') ↔
      (∃ topic, topic ∈ fs.subscribedTopicApi) ∧ Delivers env fs msg_forwarder_id a.msg ∧
        ∀ topic ∈ fs.subscribedTopicApi, a.msg.topicIds.count topic ≤ 1 := by
  by_cases hsub : fs.subscribedTopicApi.keys = []
  · rw [consume_no_topics env { fs := fs } msg_forwarder_id a hsub]
    constructor
    · intro h
      obtain ⟨s', h, -⟩ := h
      exact nomatch h
    · intro h
      obtain ⟨⟨topic, ht⟩, -⟩ := h
      have := AList.mem_keys.mp ht
      rw [hsub] at this
      exact absurd this List.not_mem_nil
  obtain ⟨topic₀, ht₀⟩ := List.exists_mem_of_ne_nil _ hsub
  obtain ⟨hret, heff⟩ := consume_new env (s := { fs := fs }) hsub hforeign hkey hnew
  constructor
  · intro h
    obtain ⟨s', h, hd⟩ := h
    exact ⟨⟨topic₀, AList.mem_keys.mpr ht₀⟩, hret.mp ⟨s', h⟩,
      (heff s' h).delivered_iff.mp hd⟩
  · intro h
    obtain ⟨-, hd, hcount⟩ := h
    obtain ⟨s', h⟩ := hret.mpr hd
    exact ⟨s', h, (heff s' h).delivered_iff.mpr hcount⟩

/-! ## A whole RPC -/

/-- Nothing that was handled before has the key: not what the cache holds at the start, and no
message in front that was looked up in it. -/
def Unseen (fs : FloodSub) (before : List Arrival) (key : MessageKey) : Prop :=
  fs.lastSeenCache key = none ∧
    ∀ b ∈ before, fs.Wants b.msg → b.msg.origin ≠ fs.localPeerId → b.msg.key ≠ some key

/-- The message does not make the call panic: if the node is subscribed to one of its topics and
it is not the node's own, its sequence number has eight bytes, and if it is new, everybody it
goes to still listens. -/
def Handles (fs : FloodSub) (peer_id : String) (before : List Arrival) (msg : Message) : Prop :=
  fs.Wants msg → msg.origin ≠ fs.localPeerId →
    ∃ key, msg.key = some key ∧ (Unseen fs before key → Delivers env fs peer_id msg)

/-- No entry of the RPC makes the call panic. -/
structure Admissible (fs : FloodSub) (peer_id : String) (messages : List Arrival)
    (subscriptions : List SubOpts) : Prop where
  messages : ∀ before a after, messages = before ++ a :: after →
    Handles env fs peer_id before a.msg
  subscriptions : ∀ sub_msg ∈ subscriptions, sub_msg.topicId ≠ none

/-- The well-formed messages. -/
def wellFormedMessages (messages : List Arrival) : List Arrival :=
  messages.filter fun a => a.msg.key.isSome

/-- The well-formed entries of `rpc.subscriptions`. -/
def wellFormedSubscriptions (subscriptions : List SubOpts) : List SubOpts :=
  subscriptions.filter fun sub_msg => sub_msg.topicId.isSome

/-- The node between two messages: its store is the one at the start, and its cache has the keys
that were looked up since then. -/
structure Between (fs₀ : FloodSub) (before : List Arrival) (s : IncomingCall) : Prop where
  store : SameStore fs₀ s.fs
  cache : ∀ key, s.fs.lastSeenCache key = none ↔ Unseen fs₀ before key

theorem Between.start (fs₀ : FloodSub) (sent : List (String × Message)) :
    Between fs₀ [] { fs := fs₀, sent := sent } :=
  ⟨SameStore.refl fs₀, fun _ => ⟨fun h => ⟨h, by simp⟩, And.left⟩⟩

theorem unseen_concat (fs : FloodSub) (before : List Arrival) (a : Arrival) (key : MessageKey) :
    Unseen fs (before ++ [a]) key ↔ Unseen fs before key ∧
      (fs.Wants a.msg → a.msg.origin ≠ fs.localPeerId → a.msg.key ≠ some key) := by
  unfold Unseen
  rw [and_assoc]
  simp only [List.mem_append, List.mem_singleton, or_imp, forall_and, forall_eq]

/-- A message that is not looked up in the cache leaves the node between messages. -/
theorem Between.skip {fs₀ : FloodSub} {before : List Arrival} {s : IncomingCall} {a : Arrival}
    (h : Between fs₀ before s)
    (hskip : ∀ key, Unseen fs₀ before key → fs₀.Wants a.msg →
      a.msg.origin ≠ fs₀.localPeerId → a.msg.key ≠ some key) :
    Between fs₀ (before ++ [a]) s := by
  refine ⟨h.store, fun key => ?_⟩
  rw [h.cache, unseen_concat]
  exact ⟨fun hu => ⟨hu, hskip key hu⟩, And.left⟩

/-- The node is subscribed to a topic of the message. -/
theorem any_subscribed_iff {fs : FloodSub} (msg : Message) :
    (msg.topicIds.any fun topic => topic ∈ fs.getSubscribedTopics.getD []) = true ↔
      fs.Wants msg := by
  rw [fs.getSubscribedTopics_getD, List.any_eq_true]
  simp only [decide_eq_true_eq, ← AList.mem_keys]
  rfl

/-- **One message** is handled exactly if it does not make the call panic, and leaves the node
between messages. -/
theorem handleMessage_iff {fs₀ : FloodSub} {before : List Arrival} {s : IncomingCall}
    (h : Between fs₀ before s) (peer_id : String) (a : Arrival) :
    ((∃ s', s.handleMessage env (fs₀.getSubscribedTopics.getD []) peer_id a = some s') ↔
      Handles env fs₀ peer_id before a.msg) ∧
    ∀ s', s.handleMessage env (fs₀.getSubscribedTopics.getD []) peer_id a = some s' →
      Between fs₀ (before ++ [a]) s' ∧ (a.msg.key = none → s' = s) := by
  unfold IncomingCall.handleMessage
  by_cases hw : fs₀.Wants a.msg
  swap
  · -- a message on other topics
    rw [if_neg fun hany => hw ((any_subscribed_iff a.msg).mp hany)]
    refine ⟨⟨fun _ hw' => absurd hw' hw, fun _ => ⟨s, rfl⟩⟩, fun s' hs => ?_⟩
    obtain rfl := Option.some.inj hs
    exact ⟨h.skip fun _ _ hw' => absurd hw' hw, fun _ => rfl⟩
  rw [if_pos ((any_subscribed_iff a.msg).mpr hw)]
  have hsub : s.fs.subscribedTopicApi.keys ≠ [] := by
    obtain ⟨topic, -, ht⟩ := hw
    exact List.ne_nil_of_mem (AList.mem_keys.mp ((h.store.subscribed topic).mpr ht))
  have hlocal := h.store.localPeerId
  rcases consume_cases env s peer_id a hsub with
    ⟨ho, hrun⟩ | ⟨ho, hk, hrun⟩ | ⟨key, ho, hk, ⟨hseen, hrun⟩ | ⟨hnew, hret, heff⟩⟩
  · -- the node's own message
    rw [hlocal] at ho
    rw [hrun]
    refine ⟨⟨fun _ _ hne => absurd ho hne, fun _ => ⟨s, rfl⟩⟩, fun s' hs => ?_⟩
    obtain rfl := Option.some.inj hs
    exact ⟨h.skip fun _ _ _ hne => absurd ho hne, fun _ => rfl⟩
  · -- a malformed sequence number
    rw [hlocal] at ho
    rw [hrun]
    refine ⟨⟨fun ⟨_, hs⟩ => (nomatch hs), fun hh => ?_⟩, fun s' hs => (nomatch hs)⟩
    obtain ⟨key, hk', -⟩ := hh hw ho
    rw [hk] at hk'
    exact nomatch hk'
  · -- seen before
    rw [hlocal] at ho
    rw [hrun]
    have hnot : ¬ Unseen fs₀ before key := fun hu => hseen ((h.cache key).mpr hu)
    refine ⟨⟨fun _ _ _ => ⟨key, hk, fun hu => absurd hu hnot⟩, fun _ => ⟨s, rfl⟩⟩,
      fun s' hs => ?_⟩
    obtain rfl := Option.some.inj hs
    refine ⟨h.skip fun key' hu _ _ he => ?_, fun _ => rfl⟩
    rw [hk] at he
    obtain rfl := Option.some.inj he
    exact hnot hu
  · -- new
    rw [hlocal] at ho
    have hu : Unseen fs₀ before key := (h.cache key).mp hnew
    have hdel : Delivers env s.fs peer_id a.msg ↔ Delivers env fs₀ peer_id a.msg := by
      constructor
      · intro hd
        exact ⟨fun t hm ht => hd.channels t hm ((h.store.subscribed t).mpr ht), by
          rw [← h.store.publishPeers, ← h.store.peers]
          exact hd.peers⟩
      · intro hd
        exact ⟨fun t hm ht => hd.channels t hm ((h.store.subscribed t).mp ht), by
          rw [h.store.publishPeers, h.store.peers]
          exact hd.peers⟩
    refine ⟨hret.trans ⟨fun hd _ _ => ⟨key, hk, fun _ => hdel.mp hd⟩, fun hh => ?_⟩,
      fun s' hs => ⟨⟨h.store.trans (heff s' hs).store, fun key' => ?_⟩, fun hn => ?_⟩⟩
    · obtain ⟨key', hk', hd⟩ := hh hw ho
      rw [hk] at hk'
      obtain rfl := Option.some.inj hk'
      exact hdel.mpr (hd hu)
    · rw [(heff s' hs).cache, unseen_concat, hk, ← h.cache]
      by_cases he : key' = key
      · rw [he, Function.update_self]
        exact ⟨fun hn => (nomatch hn), fun hn => absurd rfl (hn.2 hw ho)⟩
      · rw [Function.update_of_ne he]
        exact ⟨fun hn => ⟨hn, fun _ _ heq => he (Option.some.inj heq).symm⟩, And.left⟩
    · rw [hk] at hn
      exact nomatch hn

/-- **The loop over `rpc.publish`** returns exactly if no message makes it panic, and then the
malformed ones have done nothing. -/
theorem handleMessages_iff {fs₀ : FloodSub} {s : IncomingCall} (h : Between fs₀ [] s)
    (peer_id : String) (messages : List Arrival) :
    ((∃ s', messages.foldlM (IncomingCall.handleMessage env (fs₀.getSubscribedTopics.getD [])
        peer_id) s = some s') ↔
      ∀ before a after, messages = before ++ a :: after → Handles env fs₀ peer_id before a.msg) ∧
    ∀ s', messages.foldlM (IncomingCall.handleMessage env (fs₀.getSubscribedTopics.getD [])
        peer_id) s = some s' →
      (wellFormedMessages messages).foldlM (IncomingCall.handleMessage env
        (fs₀.getSubscribedTopics.getD []) peer_id) s = some s' := by
  constructor
  · refine (foldlM_iff (I := Between fs₀) (fun before a => Handles env fs₀ peer_id before a.msg)
      (fun before a s hs => ?_) messages h).1
    obtain ⟨hret, heff⟩ := handleMessage_iff env hs peer_id a
    exact ⟨hret, fun s' hs' => (heff s' hs').1⟩
  · intro s' hrun
    refine foldlM_filter (I := Between fs₀) (fun before a s hs s' hs' => ?_) messages h hrun
    obtain ⟨hnext, hidle⟩ := (handleMessage_iff env hs peer_id a).2 s' hs'
    exact ⟨hnext, fun hp => hidle (Option.not_isSome_iff_eq_none.mp (by rw [hp]; simp))⟩

/-- The loop over `rpc.subscriptions` returns exactly if every entry has a topic. -/
theorem handleSubscriptions_iff (peer_id : String) (subscriptions : List SubOpts)
    (fs : FloodSub) :
    (∃ fs', subscriptions.foldlM (fun fs sub_msg => FloodSub.handleSubopts fs peer_id sub_msg) fs =
        some fs') ↔
      ∀ sub_msg ∈ subscriptions, sub_msg.topicId ≠ none := by
  exact (foldlM_iff_forall (I := fun _ _ => True) (fun sub_msg => sub_msg.topicId ≠ none)
    (fun _ sub_msg fs _ => ⟨handleSubopts_isSome fs peer_id sub_msg, fun _ _ => trivial⟩)
    subscriptions trivial).1

/-- **A call of `handle_incoming`** returns, and does what the well-formed entries alone do,
exactly if no entry makes it panic: every subscription entry has a topic, and every foreign
message that the node wants has a sequence number of eight bytes and, if it is new, only
recipients that still listen. -/
theorem incoming_returns_iff (s : IncomingCall) (peer_id : String) (messages : List Arrival)
    (subscriptions : List SubOpts) :
    (∃ s', s.handleIncoming env peer_id messages subscriptions = some s' ∧
      s.handleIncoming env peer_id (wellFormedMessages messages)
        (wellFormedSubscriptions subscriptions) = some s') ↔
      Admissible env s.fs peer_id messages subscriptions := by
  obtain ⟨hmsgs, hwf⟩ := handleMessages_iff env (Between.start s.fs s.sent) peer_id messages
  constructor
  · intro h
    obtain ⟨s', h, -⟩ := h
    obtain ⟨s₁, h₁, h⟩ := Option.bind_eq_some_iff.mp h
    obtain ⟨fs, hfs, -⟩ := Option.bind_eq_some_iff.mp h
    exact ⟨hmsgs.mp ⟨s₁, h₁⟩, (handleSubscriptions_iff peer_id subscriptions s₁.fs).mp ⟨fs, hfs⟩⟩
  · intro hadm
    obtain ⟨s₁, h₁⟩ := hmsgs.mpr hadm.messages
    obtain ⟨fs, hfs⟩ :=
      (handleSubscriptions_iff peer_id subscriptions s₁.fs).mpr hadm.subscriptions
    have hsubs : wellFormedSubscriptions subscriptions = subscriptions :=
      List.filter_eq_self.mpr fun sub_msg hm =>
        Option.isSome_iff_ne_none.mpr (hadm.subscriptions sub_msg hm)
    refine ⟨{ s₁ with fs := fs }, ?_, ?_⟩
    · exact Option.bind_eq_some_iff.mpr ⟨s₁, h₁, Option.bind_eq_some_iff.mpr ⟨fs, hfs, rfl⟩⟩
    · rw [hsubs]
      exact Option.bind_eq_some_iff.mpr
        ⟨s₁, hwf s₁ h₁, Option.bind_eq_some_iff.mpr ⟨fs, hfs, rfl⟩⟩

end Deliver

/-- The peers in alphabetical order. -/
def VisitOrder.sorted : VisitOrder where
  visit peers := peers.sort (· ≤ ·)
  nodup peers := Finset.sort_nodup peers _
  mem _ _ := Finset.mem_sort _

/-- A node that is subscribed to `t` and knows the peer `p`, which is too. -/
def subscribedNode : FloodSub where
  localPeerId := "n"
  peerTopics := Function.update (fun _ => none) "t" (some ["p"])
  peers := AList.singleton "p" 0
  subscribedTopicApi := AList.singleton "t" []

/-- Everybody listens. -/
def allReceive : Receivers := ⟨fun _ => true, fun _ => true⟩

/-- A first message of the node `o`. -/
def firstMessage (topics : List String) : Arrival where
  msg := ⟨some [111], some [7], some [1, 0, 0, 0, 0, 0, 0, 0], topics⟩
  now := 9
  order := .sorted

theorem firstMessage_foreign (topics : List String) :
    (firstMessage topics).msg.origin ≠ subscribedNode.localPeerId := by
  show fromUtf8Lossy [111] ≠ "n"
  decide

theorem firstMessage_key (topics : List String) :
    (firstMessage topics).msg.key = some ⟨[111], 1⟩ := rfl

theorem delivered_once_iff_two :
    (∃ s', IncomingCall.consume allReceive { fs := subscribedNode } "f" (firstMessage ["u", "t"]) =
        some s' ∧ DeliveredOnce "f" (firstMessage ["u", "t"]).msg subscribedNode s') ↔
      (∃ topic, topic ∈ subscribedNode.subscribedTopicApi) ∧
        Delivers allReceive subscribedNode "f" (firstMessage ["u", "t"]).msg ∧
        ∀ topic ∈ subscribedNode.subscribedTopicApi, ["u", "t"].count topic ≤ 1 :=
  delivered_once_iff allReceive (firstMessage_foreign _) (firstMessage_key _) rfl

/-- **A repeated topic** is delivered twice to its subscription. -/
theorem repeated_topic_delivered_twice :
    ¬ ∃ s', IncomingCall.consume allReceive { fs := subscribedNode } "f" (firstMessage ["t", "t"]) =
        some s' ∧ DeliveredOnce "f" (firstMessage ["t", "t"]).msg subscribedNode s' := by
  intro h
  obtain ⟨s', h, hd⟩ := h
  have hc := (consume_new allReceive (by decide) (firstMessage_foreign _) (firstMessage_key _)
    rfl).2 s' h
  exact absurd (hc.delivered_iff.mp hd "t" (by decide)) (by decide)

/-- **An entry without a topic** makes the call panic, whatever the node knows. -/
theorem missing_topic_panics :
    ¬ ∃ s', IncomingCall.handleIncoming allReceive { fs := subscribedNode } "p" []
        [{ subscribe := some true, topicId := none }] = some s' ∧
      IncomingCall.handleIncoming allReceive { fs := subscribedNode } "p" (wellFormedMessages [])
        (wellFormedSubscriptions [{ subscribe := some true, topicId := none }]) = some s' := by
  intro h
  obtain ⟨s', h, -⟩ := h
  exact nomatch h

end Rnet.Floodsub
