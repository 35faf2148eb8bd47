import Rnet.Floodsub.Cache
import Rnet.Lib.Loop
import Rnet.Lib.Utf8
import Mathlib.Data.List.AList
import Mathlib.Data.Finset.Basic

/-!
# The floodsub node: `floodsub/src/pubsub.rs`

`FloodSub` is the state behind the two mutexes of a node: the message cache and
the store. The functions on it are those of the source up to their next `await`
on a queue: `publish` computes the peers, and the writes to them are steps of
their own in the systems that use this module.

Hash maps are partial functions, or association lists where the code walks
through their keys. A panic is `none`.
-/

namespace Rnet.Floodsub

open Rnet.Lib

/-- `Message` of the floodsub schema. -/
structure Message where
  from_ : Option (List UInt8)
  data : Option (List UInt8)
  seqno : Option (List UInt8)
  topicIds : List String
  deriving DecidableEq, Repr

/-- `SubOpts` of the floodsub schema. -/
structure SubOpts where
  subscribe : Option Bool
  topicId : Option String
  deriving DecidableEq, Repr

/-- `FloodSub` with its `FloosubStore`. -/
structure FloodSub where
  localPeerId : String
  lastSeenCache : LastSeenCache := fun _ => none
  /-- `peer_topics`: the peers that subscribed to a topic -/
  peerTopics : String → Option (List String) := fun _ => none
  /-- `peers`: the stream whose handler holds the receiver -/
  peers : AList (fun _ : String => Nat) := ∅
  /-- `subscribed_topic_api`: what has been put into the topic's channel -/
  subscribedTopicApi : AList (fun _ : String => List (List UInt8 × List UInt8)) := ∅

namespace FloodSub

/-- `get_subscribed_topics`. -/
def getSubscribedTopics (fs : FloodSub) : Option (List String) :=
  if fs.subscribedTopicApi.keys = [] then none else some fs.subscribedTopicApi.keys

theorem getSubscribedTopics_getD (fs : FloodSub) :
    fs.getSubscribedTopics.getD [] = fs.subscribedTopicApi.keys := by
  unfold getSubscribedTopics
  by_cases h : fs.subscribedTopicApi.keys = []
  · rw [if_pos h, h]
    rfl
  · rw [if_neg h]
    rfl

/-- `get_peers_to_send`. -/
def getPeersToSend (fs : FloodSub) (topic_ids : List String) (msg_forwarder origin : String) :
    Option (Finset String) :=
  let known := [msg_forwarder, origin]
  let peers_to_send := topic_ids.foldl (fun acc topic =>
    match fs.peerTopics topic with
    | some peers => peers.foldl (fun acc peer => if peer ∈ known then acc else insert peer acc) acc
    | none => acc) ∅
  if peers_to_send = ∅ then none else some peers_to_send

/-- The peers that `publish` writes to. -/
def publishPeers (fs : FloodSub) (msg_forwarder_id : String) (publish_msg : Message) :
    Finset String :=
  (fs.getPeersToSend publish_msg.topicIds msg_forwarder_id
    (fromUtf8Lossy (publish_msg.from_.getD []))).getD ∅

/-- The message of the `Publish` branch of `handle_internal_api`, when the clock reads `now`. -/
def publishMessage (fs : FloodSub) (opt_data : Option (List UInt8)) (topics : List String)
    (now : UInt64) : Message where
  from_ := some (toUtf8 fs.localPeerId)
  data := opt_data
  seqno := some (getSeqno now)
  topicIds := topics

/-- `is_msg_seen`, when the clock reads `now`. -/
def isMsgSeen (fs : FloodSub) (publish_msg : Message) (now : UInt64) :
    Option (FloodSub × Bool) := do
  let seqno_int ← seqnoToUnixTx (publish_msg.seqno.getD [])
  let key : MessageKey := ⟨publish_msg.from_.getD [], seqno_int⟩
  match fs.lastSeenCache key with
  | none =>
    some ({ fs with lastSeenCache := Function.update fs.lastSeenCache key (some now) }, false)
  | some _ => some (fs, true)

/-- `notify_subscription`. -/
def notifySubscription (fs : FloodSub) (topic_id : String) (pubsub_msg : Message) :
    Option FloodSub := do
  let topic_mpsc ← fs.subscribedTopicApi.lookup topic_id
  let sent := topic_mpsc ++ [(pubsub_msg.data.getD [], pubsub_msg.from_.getD [])]
  some { fs with subscribedTopicApi := fs.subscribedTopicApi.insert topic_id sent }

/-- `consume_pubsub_msg`: the new state and, when the message is accepted, the peers it is
published to. -/
def consumePubsubMsg (fs : FloodSub) (msg_forwarder_id : String) (publish_msg : Message)
    (now : UInt64) : Option (FloodSub × Option (Finset String)) := do
  let origin := fromUtf8Lossy (publish_msg.from_.getD [])
  let subscribed_topics ← fs.getSubscribedTopics
  if origin = fs.localPeerId then some (fs, none)
  else
    let (fs, seen) ← fs.isMsgSeen publish_msg now
    if seen then some (fs, none)
    else
      let fs ← publish_msg.topicIds.foldlM (fun (fs : FloodSub) topic_id =>
        if topic_id ∈ subscribed_topics then fs.notifySubscription topic_id publish_msg
        else some fs) fs
      some (fs, some (fs.publishPeers msg_forwarder_id publish_msg))

/-- `handle_incoming`, for one message of `rpc.publish`. -/
def handlePublish (fs : FloodSub) (msg : Message) (peer_id : String) (now : UInt64) :
    Option (FloodSub × Option (Finset String)) :=
  let subscribed_topics := fs.getSubscribedTopics.getD []
  if msg.topicIds.any fun topic => topic ∈ subscribed_topics then
    fs.consumePubsubMsg peer_id msg now
  else some (fs, none)

/-- `handle_subopts`; a panic without a topic. -/
def handleSubopts (fs : FloodSub) (origin_id : String) (sub_msg : SubOpts) : Option FloodSub := do
  let topic_id ← sub_msg.topicId
  if sub_msg.subscribe.getD false then
    let peers := match fs.peerTopics topic_id with
      | some peers => if origin_id ∈ peers then peers else peers ++ [origin_id]
      | none => [origin_id]
    some { fs with peerTopics := Function.update fs.peerTopics topic_id (some peers) }
  else
    let peers := (fs.peerTopics topic_id).map fun peers => peers.filter (· ≠ origin_id)
    some { fs with peerTopics := Function.update fs.peerTopics topic_id peers }

/-- The part of `handle_new_peer` that changes the store: the sender of stream `h` is
registered under the peer's id. -/
def handleNewPeer (fs : FloodSub) (peer_id : String) (h : Nat) : FloodSub :=
  { fs with peers := fs.peers.insert peer_id h }

/-- `handle_dead_peers`. -/
def handleDeadPeers (fs : FloodSub) : List String → FloodSub
  | [] => fs
  | peer_id :: peer_ids =>
    match fs.peers.lookup peer_id with
    | none => fs
    | some _ =>
      handleDeadPeers { fs with
        peers := fs.peers.erase peer_id
        peerTopics := fun topic =>
          (fs.peerTopics topic).map fun peers => peers.filter (· ≠ peer_id) }
        peer_ids

/-- `write_msg`'s lookup of the peer's queue: a panic when the peer is unknown. -/
def writeMsg (fs : FloodSub) (peer_id : String) : Option Nat := fs.peers.lookup peer_id

end FloodSub

/-! ## What the functions compute -/

/-- `peer` is listed under `topic` in `peer_topics`. -/
def FloodSub.Lists (fs : FloodSub) (topic peer : String) : Prop :=
  ∃ peers, fs.peerTopics topic = some peers ∧ peer ∈ peers

/-- The node is subscribed to a topic of the message. -/
def FloodSub.Wants (fs : FloodSub) (msg : Message) : Prop :=
  ∃ topic ∈ msg.topicIds, topic ∈ fs.subscribedTopicApi

/-- Collecting the peers of one topic. -/
theorem mem_foldl_insert (known peers : List String) (x : String) :
    ∀ acc : Finset String,
      x ∈ peers.foldl (fun acc peer => if peer ∈ known then acc else insert peer acc) acc ↔
        x ∈ acc ∨ (x ∈ peers ∧ x ∉ known) := by
  induction peers with
  | nil => intro acc; simp
  | cons peer peers ih =>
    intro acc
    rw [List.foldl_cons, ih]
    by_cases hp : peer ∈ known
    · rw [if_pos hp]
      constructor
      · intro h
        rcases h with h | ⟨h, hk⟩
        · exact Or.inl h
        · exact Or.inr ⟨List.mem_cons_of_mem _ h, hk⟩
      · intro h
        rcases h with h | ⟨h, hk⟩
        · exact Or.inl h
        · rcases List.mem_cons.mp h with rfl | h
          · exact absurd hp hk
          · exact Or.inr ⟨h, hk⟩
    · rw [if_neg hp, Finset.mem_insert]
      constructor
      · intro h
        rcases h with (rfl | h) | ⟨h, hk⟩
        · exact Or.inr ⟨List.mem_cons_self .., hp⟩
        · exact Or.inl h
        · exact Or.inr ⟨List.mem_cons_of_mem _ h, hk⟩
      · intro h
        rcases h with h | ⟨h, hk⟩
        · exact Or.inl (Or.inr h)
        · rcases List.mem_cons.mp h with rfl | h
          · exact Or.inl (Or.inl rfl)
          · exact Or.inr ⟨h, hk⟩

/-- **The peers that `publish` writes to**: those listed under a topic of the message, but
for the forwarder and the origin. -/
theorem mem_publishPeers (fs : FloodSub) (fwd : String) (msg : Message) (x : String) :
    x ∈ fs.publishPeers fwd msg ↔ (∃ topic ∈ msg.topicIds, fs.Lists topic x) ∧ x ≠ fwd ∧
      x ≠ fromUtf8Lossy (msg.from_.getD []) := by
  unfold FloodSub.publishPeers FloodSub.getPeersToSend
  generalize fromUtf8Lossy (msg.from_.getD []) = origin
  dsimp only
  -- an empty result is `None`, which `publish` takes for the empty set
  have hget : ∀ peers : Finset String, x ∈ (if peers = ∅ then none else some peers).getD ∅ ↔
      x ∈ peers := by
    intro peers
    by_cases h : peers = ∅
    · rw [if_pos h, h]
      rfl
    · rw [if_neg h]
      rfl
  rw [hget]
  have hfold : ∀ (topics : List String) (acc : Finset String),
      x ∈ topics.foldl (fun acc topic => match fs.peerTopics topic with
        | some peers => peers.foldl
            (fun acc peer => if peer ∈ [fwd, origin] then acc else insert peer acc) acc
        | none => acc) acc ↔
      x ∈ acc ∨ ((∃ topic ∈ topics, fs.Lists topic x) ∧ x ∉ [fwd, origin]) := by
    intro topics
    induction topics with
    | nil => intro acc; simp
    | cons topic topics ih =>
      intro acc
      rw [List.foldl_cons, ih]
      cases ht : fs.peerTopics topic with
      | none =>
        have hnone : ¬ fs.Lists topic x := by
          intro h
          obtain ⟨peers, hp, -⟩ := h
          rw [ht] at hp
          simp at hp
        simp only [List.exists_mem_cons_iff, hnone, false_or]
      | some peers =>
        have hlist : fs.Lists topic x ↔ x ∈ peers := by
          constructor
          · intro h
            obtain ⟨peers', hp, hx⟩ := h
            rw [ht] at hp
            rwa [Option.some.inj hp]
          · exact fun hx => ⟨peers, ht, hx⟩
        dsimp only
        rw [mem_foldl_insert]
        simp only [List.exists_mem_cons_iff, hlist, or_assoc, or_and_right]
  rw [hfold]
  simp

theorem mem_alist_singleton {α : Type} (a x : String) (b : α) :
    x ∈ AList.singleton (β := fun _ => α) a b ↔ x = a := by
  rw [AList.mem_keys, AList.keys_singleton, List.mem_singleton]

/-- A node subscribed to a topic of the message has subscribed topics to look at. -/
theorem getSubscribedTopics_of_wants {fs : FloodSub} {msg : Message} (h : fs.Wants msg) :
    fs.getSubscribedTopics = some fs.subscribedTopicApi.keys := by
  obtain ⟨topic, -, ht⟩ := h
  unfold FloodSub.getSubscribedTopics
  exact if_neg (List.ne_nil_of_mem (AList.mem_keys.mp ht))

/-- The two nodes differ in their cache and in the contents of their channels only. -/
structure SameStore (fs fs' : FloodSub) : Prop where
  localPeerId : fs'.localPeerId = fs.localPeerId
  peerTopics : fs'.peerTopics = fs.peerTopics
  peers : fs'.peers = fs.peers
  subscribed : ∀ topic, topic ∈ fs'.subscribedTopicApi ↔ topic ∈ fs.subscribedTopicApi

theorem SameStore.refl (fs : FloodSub) : SameStore fs fs := ⟨rfl, rfl, rfl, fun _ => Iff.rfl⟩

theorem SameStore.trans {fs fs' fs'' : FloodSub} (h : SameStore fs fs') (h' : SameStore fs' fs'') :
    SameStore fs fs'' :=
  ⟨h'.localPeerId.trans h.localPeerId, h'.peerTopics.trans h.peerTopics, h'.peers.trans h.peers,
    fun topic => (h'.subscribed topic).trans (h.subscribed topic)⟩

/-- Notifying a subscribed topic. -/
theorem notifySubscription_of_mem {fs : FloodSub} {topic : String} (msg : Message)
    (h : topic ∈ fs.subscribedTopicApi) :
    ∃ fs', fs.notifySubscription topic msg = some fs' ∧ SameStore fs fs' ∧
      fs'.lastSeenCache = fs.lastSeenCache := by
  obtain ⟨sent, hs⟩ := Option.isSome_iff_exists.mp (AList.lookup_isSome.mpr h)
  unfold FloodSub.notifySubscription
  rw [hs]
  refine ⟨_, rfl, ⟨rfl, rfl, rfl, fun t => ?_⟩, rfl⟩
  rw [AList.mem_insert]
  constructor
  · intro h
    rcases h with rfl | ht
    · exact h
    · exact ht
  · exact Or.inr

/-- Notifying the subscribed topics of a message. -/
theorem notify_all (msg : Message) {subscribed : List String} (topics : List String)
    {fs : FloodSub} (hsub : ∀ t ∈ subscribed, t ∈ fs.subscribedTopicApi) :
    ∃ fs', topics.foldlM (fun (fs : FloodSub) topic_id =>
        if topic_id ∈ subscribed then fs.notifySubscription topic_id msg else some fs) fs
      = some fs' ∧ SameStore fs fs' ∧ fs'.lastSeenCache = fs.lastSeenCache := by
  refine foldlM_of_invariant (fun fs' => SameStore fs fs' ∧ fs'.lastSeenCache = fs.lastSeenCache)
    ?_ fs ⟨SameStore.refl fs, rfl⟩
  intro fs₁ h topic _
  obtain ⟨hsame, hcache⟩ := h
  by_cases ht : topic ∈ subscribed
  · obtain ⟨fs₂, h₂, hsame₂, hcache₂⟩ :=
      notifySubscription_of_mem msg ((hsame.subscribed topic).mpr (hsub topic ht))
    exact ⟨fs₂, by rw [if_pos ht, h₂], hsame.trans hsame₂, hcache₂.trans hcache⟩
  · exact ⟨fs₁, if_neg ht, hsame, hcache⟩

/-- What a node does with a copy of another node's message. -/
theorem handlePublish_foreign {fs : FloodSub} {msg : Message} (fwd : String) (now : UInt64)
    {q : UInt64} (hw : fs.Wants msg) (ho : fromUtf8Lossy (msg.from_.getD []) ≠ fs.localPeerId)
    (hq : seqnoToUnixTx (msg.seqno.getD []) = some q) :
    (fs.lastSeenCache ⟨msg.from_.getD [], q⟩ ≠ none ∧
      fs.handlePublish msg fwd now = some (fs, none)) ∨
    (fs.lastSeenCache ⟨msg.from_.getD [], q⟩ = none ∧
      ∃ fs', fs.handlePublish msg fwd now = some (fs', some (fs.publishPeers fwd msg)) ∧
        SameStore fs fs' ∧ fs'.lastSeenCache
          = Function.update fs.lastSeenCache ⟨msg.from_.getD [], q⟩ (some now)) := by
  unfold FloodSub.handlePublish FloodSub.consumePubsubMsg FloodSub.isMsgSeen
  rw [getSubscribedTopics_of_wants hw]
  dsimp only [Option.getD_some]
  rw [if_pos]
  swap
  · obtain ⟨topic, htm, ht⟩ := hw
    exact List.any_eq_true.mpr ⟨topic, htm, decide_eq_true (AList.mem_keys.mp ht)⟩
  simp only [Option.bind_eq_bind, Option.bind_some]
  rw [if_neg ho, hq, Option.bind_some]
  cases hc : fs.lastSeenCache ⟨msg.from_.getD [], q⟩ with
  | some ts => exact Or.inl ⟨by simp, rfl⟩
  | none =>
    right
    refine ⟨rfl, ?_⟩
    simp only [Option.bind_some, Bool.false_eq_true, if_false]
    obtain ⟨fs', hfold, hsame, hcache⟩ := @notify_all msg
      fs.subscribedTopicApi.keys msg.topicIds
      { fs with lastSeenCache :=
          Function.update fs.lastSeenCache ⟨msg.from_.getD [], q⟩ (some now) }
      fun t ht => AList.mem_keys.mpr ht
    rw [hfold, Option.bind_some]
    have hpeers : fs'.publishPeers fwd msg = fs.publishPeers fwd msg := by
      ext x
      rw [mem_publishPeers, mem_publishPeers]
      unfold FloodSub.Lists
      rw [hsame.peerTopics]
    rw [hpeers]
    exact ⟨fs', rfl, ⟨hsame.localPeerId, hsame.peerTopics, hsame.peers, hsame.subscribed⟩, hcache⟩

/-! ## What the functions keep -/

/-- A change to the peers of one topic. -/
theorem lists_update (fs : FloodSub) (topic_id topic x : String) (peers : Option (List String)) :
    FloodSub.Lists { fs with peerTopics := Function.update fs.peerTopics topic_id peers } topic x ↔
      if topic = topic_id then ∃ l, peers = some l ∧ x ∈ l else fs.Lists topic x := by
  unfold FloodSub.Lists
  dsimp only
  by_cases htopic : topic = topic_id
  · rw [if_pos htopic, htopic, Function.update_self]
  · rw [if_neg htopic, Function.update_of_ne htopic]

/-- An entry is handled exactly if it has a topic. -/
theorem handleSubopts_isSome (fs : FloodSub) (origin_id : String) (sub_msg : SubOpts) :
    (∃ fs', fs.handleSubopts origin_id sub_msg = some fs') ↔ sub_msg.topicId ≠ none := by
  unfold FloodSub.handleSubopts
  cases sub_msg.topicId with
  | none => simp
  | some topic => by_cases hs : sub_msg.subscribe.getD false = true <;> simp [hs]

/-- **Subscription options** move the sender in or out of the peers of their topic. -/
theorem handleSubopts_spec {fs fs' : FloodSub} {origin_id : String} {sub_msg : SubOpts}
    (h : fs.handleSubopts origin_id sub_msg = some fs') :
    ∃ topic_id, sub_msg.topicId = some topic_id ∧ fs'.peers = fs.peers ∧
      ∀ topic x, fs'.Lists topic x ↔
        if topic = topic_id ∧ x = origin_id then sub_msg.subscribe.getD false = true
        else fs.Lists topic x := by
  unfold FloodSub.handleSubopts at h
  cases ht : sub_msg.topicId with
  | none =>
    rw [ht] at h
    simp at h
  | some topic_id =>
    rw [ht] at h
    simp only [Option.bind_eq_bind, Option.bind_some] at h
    refine ⟨topic_id, rfl, ?_⟩
    by_cases hs : sub_msg.subscribe.getD false = true
    · rw [if_pos hs] at h
      obtain rfl := Option.some.inj h
      refine ⟨rfl, fun topic x => ?_⟩
      rw [lists_update]
      by_cases htopic : topic = topic_id
      · subst htopic
        unfold FloodSub.Lists
        cases hp : fs.peerTopics topic with
        | none => by_cases hx : x = origin_id <;> simp [hx, hs]
        | some peers =>
          by_cases hx : x = origin_id <;> by_cases hm : origin_id ∈ peers <;> simp [hx, hs, hm]
      · simp [htopic]
    · rw [if_neg hs] at h
      obtain rfl := Option.some.inj h
      refine ⟨rfl, fun topic x => ?_⟩
      rw [lists_update]
      by_cases htopic : topic = topic_id
      · subst htopic
        unfold FloodSub.Lists
        cases hp : fs.peerTopics topic with
        | none => by_cases hx : x = origin_id <;> simp [hx, hs]
        | some peers => by_cases hx : x = origin_id <;> simp [hx, hs]
      · simp [htopic]

/-- Subscription options make no key but their own topic. -/
theorem handleSubopts_keys {fs fs' : FloodSub} {origin_id : String} {sub_msg : SubOpts}
    (h : fs.handleSubopts origin_id sub_msg = some fs') {topic : String}
    (hkey : (fs'.peerTopics topic).isSome) :
    (fs.peerTopics topic).isSome ∨ topic ∈ sub_msg.topicId.toList := by
  obtain ⟨topic_id, ht, h⟩ := Option.bind_eq_some_iff.mp h
  by_cases htopic : topic = topic_id
  · exact Or.inr (by rw [ht, htopic]; exact List.mem_singleton_self _)
  · have hkeep : fs'.peerTopics topic = fs.peerTopics topic := by
      split at h
      · obtain rfl := Option.some.inj h
        exact Function.update_of_ne htopic ..
      · obtain rfl := Option.some.inj h
        exact Function.update_of_ne htopic ..
    rw [hkeep] at hkey
    exact Or.inl hkey

/-- Dead peers leave the keys alone. -/
theorem handleDeadPeers_keys : ∀ (peer_ids : List String) (fs : FloodSub) (topic : String),
    ((fs.handleDeadPeers peer_ids).peerTopics topic).isSome ↔ (fs.peerTopics topic).isSome := by
  intro peer_ids
  induction peer_ids with
  | nil => exact fun _ _ => Iff.rfl
  | cons peer_id peer_ids ih =>
    intro fs topic
    rw [FloodSub.handleDeadPeers]
    split
    · exact Iff.rfl
    · rw [ih, Option.isSome_map]

/-- A peer that is removed from `peers` is removed under every topic. -/
theorem lists_remove (fs : FloodSub) (peers : AList fun _ : String => Nat)
    (peer_id topic x : String) :
    FloodSub.Lists { fs with
      peers := peers
      peerTopics := fun t => (fs.peerTopics t).map fun peers => peers.filter (· ≠ peer_id) }
      topic x ↔ fs.Lists topic x ∧ x ≠ peer_id := by
  unfold FloodSub.Lists
  dsimp only
  cases fs.peerTopics topic with
  | none => simp
  | some peers => simp

/-- **Dead peers** leave both maps, up to the first one that is not a key of `peers`. -/
theorem handleDeadPeers_spec : ∀ (peer_ids : List String) (fs : FloodSub),
    ∃ dead, dead <+: peer_ids ∧ (∀ x ∈ dead, x ∈ fs.peers) ∧
      ∀ x, (x ∈ (fs.handleDeadPeers peer_ids).peers ↔ x ∈ fs.peers ∧ x ∉ dead) ∧
        ∀ topic, (fs.handleDeadPeers peer_ids).Lists topic x ↔ fs.Lists topic x ∧ x ∉ dead := by
  intro peer_ids
  induction peer_ids with
  | nil => exact fun fs => ⟨[], List.prefix_rfl, by simp, by simp [FloodSub.handleDeadPeers]⟩
  | cons peer_id peer_ids ih =>
    intro fs
    rw [FloodSub.handleDeadPeers]
    cases hl : fs.peers.lookup peer_id with
    | none => exact ⟨[], List.nil_prefix, by simp, by simp⟩
    | some h =>
      dsimp only
      obtain ⟨dead, hpre, hmem, hspec⟩ := ih { fs with
        peers := fs.peers.erase peer_id
        peerTopics := fun t => (fs.peerTopics t).map fun peers => peers.filter (· ≠ peer_id) }
      refine ⟨peer_id :: dead, List.cons_prefix_cons.mpr ⟨rfl, hpre⟩, ?_,
        fun x => ⟨?_, fun topic => ?_⟩⟩
      · intro x h
        rcases h with _ | ⟨_, hx⟩
        · exact AList.lookup_isSome.mp (by rw [hl]; rfl)
        · exact (AList.mem_erase.mp (hmem x hx)).2
      · rw [(hspec x).1, AList.mem_erase, List.mem_cons, not_or]
        exact ⟨fun h => ⟨h.1.2, h.1.1, h.2⟩, fun h => ⟨⟨h.2.1, h.1⟩, h.2.2⟩⟩
      · rw [(hspec x).2, lists_remove, List.mem_cons, not_or, and_assoc]

/-- Notifying changes the channels only. -/
theorem notifySubscription_frame {fs fs' : FloodSub} {topic : String} {msg : Message}
    (h : fs.notifySubscription topic msg = some fs') :
    SameStore fs fs' ∧ fs'.lastSeenCache = fs.lastSeenCache := by
  unfold FloodSub.notifySubscription at h
  obtain ⟨sent, hs, h⟩ := Option.bind_eq_some_iff.mp h
  have hmem : topic ∈ fs.subscribedTopicApi := AList.lookup_isSome.mp (by rw [hs]; rfl)
  obtain ⟨fs'', h', hframe⟩ := notifySubscription_of_mem msg hmem
  unfold FloodSub.notifySubscription at h'
  rw [hs] at h'
  obtain rfl := Option.some.inj (h.symm.trans h')
  exact hframe

/-- The node keeps its store, and its cache but for the keys of one origin. -/
structure Frame (from_ : List UInt8) (fs fs' : FloodSub) : Prop where
  store : SameStore fs fs'
  cache : ∀ key : MessageKey, key.from_ ≠ from_ → fs'.lastSeenCache key = fs.lastSeenCache key

theorem Frame.refl (from_ : List UInt8) (fs : FloodSub) : Frame from_ fs fs :=
  ⟨SameStore.refl fs, fun _ _ => rfl⟩

theorem Frame.trans {from_ : List UInt8} {fs fs' fs'' : FloodSub} (h : Frame from_ fs fs')
    (h' : Frame from_ fs' fs'') : Frame from_ fs fs'' :=
  ⟨h.store.trans h'.store, fun key hk => (h'.cache key hk).trans (h.cache key hk)⟩

theorem isMsgSeen_frame {fs fs' : FloodSub} {msg : Message} {now : UInt64} {seen : Bool}
    (h : fs.isMsgSeen msg now = some (fs', seen)) : Frame (msg.from_.getD []) fs fs' := by
  unfold FloodSub.isMsgSeen at h
  obtain ⟨q, -, h⟩ := Option.bind_eq_some_iff.mp h
  dsimp only at h
  split at h
  · obtain ⟨rfl, -⟩ := Prod.mk.inj (Option.some.inj h)
    refine ⟨⟨rfl, rfl, rfl, fun _ => Iff.rfl⟩, fun key hk => Function.update_of_ne ?_ _ _⟩
    intro h
    subst h
    exact hk rfl
  · obtain ⟨rfl, -⟩ := Prod.mk.inj (Option.some.inj h)
    exact Frame.refl _ fs

theorem notify_frame (msg : Message) (subscribed topics : List String) {fs fs' : FloodSub}
    (h : topics.foldlM (fun (fs : FloodSub) topic_id =>
        if topic_id ∈ subscribed then fs.notifySubscription topic_id msg else some fs) fs
      = some fs') : Frame (msg.from_.getD []) fs fs' := by
  refine foldlM_keeps (Frame (msg.from_.getD []) fs) ?_ (Frame.refl _ fs) h
  intro fs₁ hframe topic _ fs₂ h₂
  by_cases ht : topic ∈ subscribed
  · rw [if_pos ht] at h₂
    obtain ⟨hsame, hcache⟩ := notifySubscription_frame h₂
    exact hframe.trans ⟨hsame, fun key _ => by rw [hcache]⟩
  · rw [if_neg ht] at h₂
    obtain rfl := Option.some.inj h₂
    exact hframe

/-- **A message** changes the channels, and the cache at its origin's keys only. -/
theorem handlePublish_frame {fs fs' : FloodSub} {msg : Message} {fwd : String} {now : UInt64}
    {peers : Option (Finset String)} (h : fs.handlePublish msg fwd now = some (fs', peers)) :
    Frame (msg.from_.getD []) fs fs' := by
  unfold FloodSub.handlePublish at h
  dsimp only at h
  split at h
  swap
  · obtain ⟨rfl, -⟩ := Prod.mk.inj (Option.some.inj h)
    exact Frame.refl _ fs
  unfold FloodSub.consumePubsubMsg at h
  obtain ⟨topics, -, h⟩ := Option.bind_eq_some_iff.mp h
  split at h
  · -- our own message
    obtain ⟨rfl, -⟩ := Prod.mk.inj (Option.some.inj h)
    exact Frame.refl _ fs
  obtain ⟨⟨fs₁, seen⟩, h₁, h⟩ := Option.bind_eq_some_iff.mp h
  dsimp only at h
  split at h
  · obtain ⟨rfl, -⟩ := Prod.mk.inj (Option.some.inj h)
    exact isMsgSeen_frame h₁
  · obtain ⟨fs₂, h₂, h⟩ := Option.bind_eq_some_iff.mp h
    obtain ⟨rfl, -⟩ := Prod.mk.inj (Option.some.inj h)
    exact (isMsgSeen_frame h₁).trans (notify_frame msg topics msg.topicIds h₂)

end Rnet.Floodsub
