import Rnet.Floodsub.PubSub
import Rnet.Identity.Events
import Rnet.Lib.EarlyExit

/-!
# Lists of dead peers and of topics

`handle_dead_peers` and `unsubscribe` get a list and walk it with a `return` inside the
loop: the first peer that is not in `peers`, and the first topic that is not subscribed,
end the call. What is behind it in the list is never looked at.

> `dead_peers_removed_iff`: `handle_dead_peers` removes every listed peer exactly if
> nothing is left of those from the first one on that it does not find.

> `unsubscribed_iff`: the same for the topics of `unsubscribe`, which announces each topic
> that it reaches once to every peer and once to the node.
-/

namespace Rnet.Floodsub

open Rnet.Lib
open Rnet.Identity (FloodsubEvent)

/-- A removal from a map, as the loops see it. -/
theorem mem_erase_known {α : Type} (m : AList fun _ : String => α) (x : String) :
    (fun y => decide (y ∈ m.erase x)) = fun y => decide (y ∈ m) && decide (y ≠ x) := by
  funext y
  rw [← Bool.decide_and, decide_eq_decide, AList.mem_erase]
  exact and_comm

/-- The entry of a key after removals. -/
theorem lookup_erase_ite {α : Type} (m : AList fun _ : String => α) (x y : String) :
    (m.erase x).lookup y = if y = x then none else m.lookup y := by
  by_cases h : y = x
  · rw [if_pos h, h, AList.lookup_erase]
  · rw [if_neg h, AList.lookup_erase_ne h]

theorem ite_mem_cons {β : Type} (x y : String) (dead : List String) (a : β) (b : β) :
    (if y ∈ dead then a else if y = x then a else b) = if y ∈ x :: dead then a else b := by
  by_cases hy : y = x
  · rw [if_pos hy, ite_self, if_pos (hy ▸ List.mem_cons_self ..)]
  · rw [if_neg hy]
    by_cases hd : y ∈ dead
    · rw [if_pos hd, if_pos (List.mem_cons_of_mem _ hd)]
    · rw [if_neg hd, if_neg fun h => (List.mem_cons.mp h).elim hy hd]

/-! ## Dead peers -/

/-- The peer is in `peers`. -/
def FloodSub.knows (fs : FloodSub) (peer : String) : Bool := decide (peer ∈ fs.peers)

/-- **The peers that the loop reaches** leave both maps; nothing else changes. -/
theorem handleDeadPeers_taken : ∀ (peer_ids : List String) (fs : FloodSub),
    (∀ peer, (fs.handleDeadPeers peer_ids).peers.lookup peer =
        if peer ∈ taken fs.knows peer_ids then none else fs.peers.lookup peer) ∧
    ∀ topic, (fs.handleDeadPeers peer_ids).peerTopics topic =
      (fs.peerTopics topic).map fun peers =>
        peers.filter fun peer => peer ∉ taken fs.knows peer_ids := by
  intro peer_ids
  induction peer_ids with
  | nil => exact fun fs => ⟨fun _ => rfl, fun topic => by simp [FloodSub.handleDeadPeers, taken]⟩
  | cons x xs ih =>
    intro fs
    rw [FloodSub.handleDeadPeers]
    cases hl : fs.peers.lookup x with
    | none =>
      have hx : fs.knows x = false := decide_eq_false (AList.lookup_eq_none.mp hl)
      rw [taken_cons_of_neg hx]
      exact ⟨fun _ => rfl, fun topic => by simp⟩
    | some h =>
      have hx : fs.knows x = true := decide_eq_true (AList.lookup_isSome.mp (by rw [hl]; rfl))
      obtain ⟨hpeers, htopics⟩ := ih { fs with
        peers := fs.peers.erase x
        peerTopics := fun topic => (fs.peerTopics topic).map fun peers => peers.filter (· ≠ x) }
      have hknows : FloodSub.knows { fs with
          peers := fs.peers.erase x
          peerTopics := fun topic => (fs.peerTopics topic).map fun peers => peers.filter (· ≠ x) } =
          fun y => fs.knows y && decide (y ≠ x) := mem_erase_known fs.peers x
      rw [hknows] at hpeers htopics
      rw [taken_cons_of_pos hx]
      refine ⟨fun peer => ?_, fun topic => ?_⟩
      · rw [hpeers, lookup_erase_ite, ite_mem_cons]
      · rw [htopics, Option.map_map]
        congr 1
        funext peers
        rw [Function.comp_apply, List.filter_filter]
        congr 1
        funext peer
        rw [← Bool.decide_and, decide_eq_decide, List.mem_cons, not_or]
        exact and_comm

/-- The call has removed the listed peers, and left all others as they were. -/
structure DeadPeersRemoved (peer_ids : List String) (fs fs' : FloodSub) : Prop where
  gone : ∀ peer ∈ peer_ids, peer ∉ fs'.peers ∧ ∀ topic, ¬ fs'.Lists topic peer
  peers : ∀ peer ∉ peer_ids, fs'.peers.lookup peer = fs.peers.lookup peer
  topics : ∀ topic, (fs'.peerTopics topic).map (fun peers => peers.filter (· ∉ peer_ids)) =
    (fs.peerTopics topic).map fun peers => peers.filter (· ∉ peer_ids)

/-- Something is left of the peer in one of the maps. -/
def FloodSub.Remains (fs : FloodSub) (peer : String) : Prop :=
  peer ∈ fs.peers ∨ ∃ topic, fs.Lists topic peer

/-- What remains after the call is what remained before, but for the peers it reached. -/
theorem handleDeadPeers_remains (peer_ids : List String) (fs : FloodSub) (peer : String) :
    (fs.handleDeadPeers peer_ids).Remains peer ↔
      fs.Remains peer ∧ peer ∉ taken fs.knows peer_ids := by
  obtain ⟨hpeers, htopics⟩ := handleDeadPeers_taken peer_ids fs
  have hkey : peer ∈ (fs.handleDeadPeers peer_ids).peers ↔
      peer ∈ fs.peers ∧ peer ∉ taken fs.knows peer_ids := by
    rw [← AList.lookup_isSome, hpeers]
    by_cases h : peer ∈ taken fs.knows peer_ids
    · rw [if_pos h]
      exact ⟨fun h => (nomatch h), fun hn => absurd h hn.2⟩
    · rw [if_neg h, AList.lookup_isSome]
      exact ⟨fun hm => ⟨hm, h⟩, And.left⟩
  have hlist : ∀ topic, (fs.handleDeadPeers peer_ids).Lists topic peer ↔
      fs.Lists topic peer ∧ peer ∉ taken fs.knows peer_ids := by
    intro topic
    unfold FloodSub.Lists
    rw [htopics]
    cases fs.peerTopics topic with
    | none => simp
    | some peers => simp
  unfold FloodSub.Remains
  rw [hkey]
  simp only [hlist]
  constructor
  · intro h
    rcases h with ⟨h, hn⟩ | ⟨topic, h, hn⟩
    · exact ⟨Or.inl h, hn⟩
    · exact ⟨Or.inr ⟨topic, h⟩, hn⟩
  · intro h
    obtain ⟨h | ⟨topic, h⟩, hn⟩ := h
    · exact Or.inl ⟨h, hn⟩
    · exact Or.inr ⟨topic, h, hn⟩

/-- **Dead peers.** The call removes every listed peer and leaves the others exactly if nothing
remains of the listed peers from the first one on that is not in `peers` when its turn
comes, but for those before it. -/
theorem dead_peers_removed_iff (peer_ids : List String) (fs : FloodSub) :
    DeadPeersRemoved peer_ids fs (fs.handleDeadPeers peer_ids) ↔
      NothingLeft fs.knows fs.Remains peer_ids := by
  obtain ⟨hpeers, htopics⟩ := handleDeadPeers_taken peer_ids fs
  have hsub : ∀ peer ∈ taken fs.knows peer_ids, peer ∈ peer_ids :=
    fun peer h => (prefix_taken ..).subset h
  rw [← taken_all_iff]
  constructor
  · intro h peer hm
    obtain ⟨hkey, hlist⟩ := h.gone peer hm
    have hnot : ¬ (fs.handleDeadPeers peer_ids).Remains peer :=
      fun hr => hr.elim hkey fun ⟨topic, hl⟩ => hlist topic hl
    rw [handleDeadPeers_remains, not_and_not_right] at hnot
    by_cases hr : fs.Remains peer
    · exact Or.inl (hnot hr)
    · exact Or.inr hr
  · intro h
    refine ⟨fun peer hm => ?_, fun peer hm => ?_, fun topic => ?_⟩
    · have hnot : ¬ (fs.handleDeadPeers peer_ids).Remains peer := by
        rw [handleDeadPeers_remains]
        exact fun ⟨hr, hn⟩ => (h peer hm).elim hn fun hnr => hnr hr
      exact ⟨fun hk => hnot (Or.inl hk), fun topic hl => hnot (Or.inr ⟨topic, hl⟩)⟩
    · rw [hpeers, if_neg fun ht => hm (hsub peer ht)]
    · rw [htopics, Option.map_map]
      congr 1
      funext peers
      rw [Function.comp_apply, List.filter_filter]
      congr 1
      funext peer
      rw [← Bool.decide_and, decide_eq_decide]
      exact ⟨And.left, fun hm => ⟨hm, fun ht => hm (hsub peer ht)⟩⟩

/-- A peer that was listed after the loop had removed it, in front of one with a stream. -/
def lateListed : FloodSub where
  localPeerId := "n"
  peers := AList.singleton "b" 0
  peerTopics := Function.update (fun _ => none) "t" (some ["a", "b"])

/-- **An unknown peer ends the loop**: it stays under its topic, and the peer behind it in both
maps. -/
theorem late_listed_stays :
    ¬ DeadPeersRemoved ["a", "b"] lateListed (lateListed.handleDeadPeers ["a", "b"]) := by
  intro h
  exact (h.gone "b" (by simp)).1 (by decide)

/-! ## Topics -/

/-- What a call of `unsubscribe` works on: the store, and what it has sent. -/
structure UnsubscribeCall where
  fs : FloodSub
  /-- the subscription options written to the queues of the peers -/
  announced : List (String × SubOpts) := []
  /-- the events sent to the node -/
  events : List FloodsubEvent := []

/-- The announcement of a topic that is not subscribed any more. -/
def unsubOpts (topic_id : String) : SubOpts := ⟨some false, some topic_id⟩

/-- The event for it. -/
def unsubEvent (topic_id : String) : FloodsubEvent := ⟨.unsubscribe, none, none, topic_id⟩

namespace UnsubscribeCall

/-- `message_all_peers`: a panic when the receiver of some stream is gone. -/
def messageAllPeers (receives : Nat → Bool) (s : UnsubscribeCall) (sub_msg : SubOpts) :
    Option UnsubscribeCall :=
  if s.fs.peers.entries.all fun e => receives e.2 then
    some { s with announced := s.announced ++ s.fs.peers.entries.map fun e => (e.1, sub_msg) }
  else none

/-- The part of one topic: the event, the removal and the announcement. -/
def withdraw (receives : Nat → Bool) (eventsOpen : Bool) (s : UnsubscribeCall)
    (topic_id : String) : Option UnsubscribeCall :=
  if eventsOpen then
    messageAllPeers receives
      { s with
        fs := { s.fs with subscribedTopicApi := s.fs.subscribedTopicApi.erase topic_id }
        events := s.events ++ [unsubEvent topic_id] }
      (unsubOpts topic_id)
  else none

/-- `unsubscribe`; `receives` are the streams whose handler runs, and `none` is a panic. -/
def unsubscribe (receives : Nat → Bool) (eventsOpen : Bool) (s : UnsubscribeCall) :
    List String → Option UnsubscribeCall
  | [] => some s
  | topic_id :: topics =>
    if topic_id ∉ s.fs.getSubscribedTopics.getD [] then some s
    else (s.withdraw receives eventsOpen topic_id).bind fun s' =>
      unsubscribe receives eventsOpen s' topics

end UnsubscribeCall

/-- The topic is subscribed. -/
def FloodSub.subscribes (fs : FloodSub) (topic : String) : Bool :=
  decide (topic ∈ fs.subscribedTopicApi)

/-- One topic that is withdrawn. -/
theorem withdraw_some {receives : Nat → Bool} {eventsOpen : Bool} {s s' : UnsubscribeCall}
    {topic_id : String} (h : s.withdraw receives eventsOpen topic_id = some s') :
    s' = {
      fs := { s.fs with subscribedTopicApi := s.fs.subscribedTopicApi.erase topic_id }
      announced := s.announced ++ s.fs.peers.entries.map fun e => (e.1, unsubOpts topic_id)
      events := s.events ++ [unsubEvent topic_id] } := by
  unfold UnsubscribeCall.withdraw UnsubscribeCall.messageAllPeers at h
  obtain ⟨-, h⟩ := Option.ite_none_right_eq_some.mp h
  obtain ⟨-, h⟩ := Option.ite_none_right_eq_some.mp h
  exact (Option.some.inj h).symm

/-- **The topics that the loop reaches** are withdrawn, each with its event and its
announcement to every peer. -/
theorem unsubscribe_taken {receives : Nat → Bool} {eventsOpen : Bool} :
    ∀ (topics : List String) {s s' : UnsubscribeCall},
      s.unsubscribe receives eventsOpen topics = some s' →
      (∀ topic, s'.fs.subscribedTopicApi.lookup topic =
        if topic ∈ taken s.fs.subscribes topics then none
        else s.fs.subscribedTopicApi.lookup topic) ∧
      s'.announced = s.announced ++ (taken s.fs.subscribes topics).flatMap
        (fun topic => s.fs.peers.entries.map fun e => (e.1, unsubOpts topic)) ∧
      s'.events = s.events ++ (taken s.fs.subscribes topics).map unsubEvent ∧
      s'.fs.peers = s.fs.peers ∧ s'.fs.peerTopics = s.fs.peerTopics := by
  intro topics
  induction topics with
  | nil =>
    intro s s' h
    obtain rfl := Option.some.inj h
    exact ⟨fun _ => rfl, (List.append_nil _).symm, (List.append_nil _).symm, rfl, rfl⟩
  | cons x xs ih =>
    intro s s' h
    unfold UnsubscribeCall.unsubscribe at h
    rw [FloodSub.getSubscribedTopics_getD] at h
    by_cases hx : x ∈ s.fs.subscribedTopicApi
    · rw [if_neg (not_not_intro (AList.mem_keys.mp hx))] at h
      obtain ⟨s₁, hw, hrest⟩ := Option.bind_eq_some_iff.mp h
      obtain rfl := withdraw_some hw
      obtain ⟨hsubs, hann, hev, hpeers, htopics⟩ := ih hrest
      rw [show FloodSub.subscribes { s.fs with
          subscribedTopicApi := s.fs.subscribedTopicApi.erase x } =
          fun y => s.fs.subscribes y && decide (y ≠ x) from
        mem_erase_known s.fs.subscribedTopicApi x] at hsubs hann hev
      have hk : s.fs.subscribes x = true := decide_eq_true hx
      rw [taken_cons_of_pos hk]
      refine ⟨fun topic => ?_, ?_, ?_, hpeers, htopics⟩
      · rw [hsubs, lookup_erase_ite, ite_mem_cons]
      · rw [hann, List.flatMap_cons, List.append_assoc]
      · rw [hev, List.map_cons, List.append_assoc]
        rfl
    · rw [if_pos fun hk => hx (AList.mem_keys.mpr hk)] at h
      obtain rfl := Option.some.inj h
      have hk : s.fs.subscribes x = false := decide_eq_false hx
      rw [taken_cons_of_neg hk]
      exact ⟨fun _ => rfl, (List.append_nil _).symm, (List.append_nil _).symm, rfl, rfl⟩

/-- A call returns when the node listens for events and every peer's stream handler runs. -/
theorem unsubscribe_returns {receives : Nat → Bool} :
    ∀ (topics : List String) (s : UnsubscribeCall),
      (∀ e ∈ s.fs.peers.entries, receives e.2 = true) →
      ∃ s', s.unsubscribe receives true topics = some s' := by
  intro topics
  induction topics with
  | nil => exact fun s _ => ⟨s, rfl⟩
  | cons x xs ih =>
    intro s hr
    unfold UnsubscribeCall.unsubscribe
    by_cases hx : x ∉ s.fs.getSubscribedTopics.getD []
    · rw [if_pos hx]
      exact ⟨s, rfl⟩
    · rw [if_neg hx]
      unfold UnsubscribeCall.withdraw UnsubscribeCall.messageAllPeers
      rw [if_pos rfl, if_pos (List.all_eq_true.mpr hr), Option.bind_some]
      exact ih _ hr

/-- The call has withdrawn every listed topic that was subscribed, with one announcement to each
peer and one event for it, and left all other subscriptions as they were. -/
structure Unsubscribed (topics : List String) (fs : FloodSub) (s' : UnsubscribeCall) : Prop where
  gone : ∀ topic ∈ topics, topic ∉ s'.fs.subscribedTopicApi
  announced : ∀ topic ∈ topics, topic ∈ fs.subscribedTopicApi → ∀ peer ∈ fs.peers,
    s'.announced.count (peer, unsubOpts topic) = 1
  events : ∀ topic ∈ topics, topic ∈ fs.subscribedTopicApi →
    s'.events.count (unsubEvent topic) = 1
  others : ∀ topic ∉ topics,
    s'.fs.subscribedTopicApi.lookup topic = fs.subscribedTopicApi.lookup topic

/-- One announcement of each topic to each peer. -/
theorem count_announcements {topics : List String} (h : topics.Nodup)
    (peers : AList fun _ : String => Nat) {topic peer : String} (ht : topic ∈ topics)
    (hp : peer ∈ peers) :
    (topics.flatMap fun topic => peers.entries.map fun e => (e.1, unsubOpts topic)).count
      (peer, unsubOpts topic) = 1 := by
  have hkeys : ∀ t, (peers.entries.map fun e => (e.1, unsubOpts t)) =
      peers.keys.map fun p => (p, unsubOpts t) := by
    intro t
    rw [AList.keys, List.keys, List.map_map]
    rfl
  refine List.count_eq_one_of_mem (List.nodup_flatMap.mpr ⟨fun t _ => ?_, h.imp ?_⟩) ?_
  · rw [hkeys]
    exact peers.keys_nodup.map fun a b hab => (Prod.mk.inj hab).1
  · intro t t' hne x hx hx'
    dsimp only at hx hx'
    rw [hkeys] at hx hx'
    obtain ⟨p, -, rfl⟩ := List.mem_map.mp hx
    obtain ⟨p', -, he⟩ := List.mem_map.mp hx'
    have ho : unsubOpts t' = unsubOpts t := (Prod.mk.inj he).2
    exact hne (Option.some.inj (congrArg SubOpts.topicId ho)).symm
  · refine List.mem_flatMap.mpr ⟨topic, ht, ?_⟩
    rw [hkeys]
    exact List.mem_map.mpr ⟨peer, AList.mem_keys.mp hp, rfl⟩

/-- **Topics.** A call that returns has withdrawn all listed topics that were subscribed exactly
if none of those from the first one on that is not subscribed when its turn comes was
subscribed before the call, but for those before it. -/
theorem unsubscribed_iff {receives : Nat → Bool} {eventsOpen : Bool} {topics : List String}
    {fs : FloodSub} {s' : UnsubscribeCall}
    (h : UnsubscribeCall.unsubscribe receives eventsOpen { fs := fs } topics = some s') :
    Unsubscribed topics fs s' ↔
      NothingLeft fs.subscribes (fun topic => topic ∈ fs.subscribedTopicApi) topics := by
  obtain ⟨hsubs, hann, hev, -, -⟩ := unsubscribe_taken topics h
  rw [List.nil_append] at hann hev
  have hgone : ∀ topic, topic ∈ s'.fs.subscribedTopicApi ↔
      topic ∈ fs.subscribedTopicApi ∧ topic ∉ taken fs.subscribes topics := by
    intro topic
    rw [← AList.lookup_isSome, hsubs]
    by_cases ht : topic ∈ taken fs.subscribes topics
    · rw [if_pos ht]
      exact ⟨fun hn => (nomatch hn), fun hn => absurd ht hn.2⟩
    · rw [if_neg ht, AList.lookup_isSome]
      exact ⟨fun hm => ⟨hm, ht⟩, And.left⟩
  rw [← taken_all_iff]
  constructor
  · intro hpost topic hm
    have hnot := hpost.gone topic hm
    rw [hgone, not_and_not_right] at hnot
    by_cases ht : topic ∈ fs.subscribedTopicApi
    · exact Or.inl (hnot ht)
    · exact Or.inr ht
  · intro hall
    have reached : ∀ topic ∈ topics, topic ∈ fs.subscribedTopicApi →
        topic ∈ taken fs.subscribes topics :=
      fun topic hm ht => (hall topic hm).resolve_right (not_not_intro ht)
    refine ⟨fun topic hm => ?_, fun topic hm ht peer hp => ?_, fun topic hm ht => ?_,
      fun topic hm => ?_⟩
    · rw [hgone]
      exact fun ⟨ht, hn⟩ => hn (reached topic hm ht)
    · rw [hann]
      exact count_announcements (taken_nodup ..) fs.peers (reached topic hm ht) hp
    · rw [hev]
      refine List.count_eq_one_of_mem ((taken_nodup ..).map fun a b hab => ?_)
        (List.mem_map_of_mem (reached topic hm ht))
      exact congrArg FloodsubEvent.topic hab
    · rw [hsubs, if_neg fun ht => hm ((prefix_taken ..).subset ht)]

/-- A node with one topic and one peer. -/
def oneTopic : FloodSub where
  localPeerId := "n"
  peers := AList.singleton "p" 0
  subscribedTopicApi := AList.singleton "t" []

theorem oneTopic_returns (topics : List String) :
    ∃ s', UnsubscribeCall.unsubscribe (fun _ => true) true { fs := oneTopic } topics = some s' :=
  unsubscribe_returns topics _ fun _ _ => rfl

/-- A list with the topic alone. -/
theorem unsubscribed_iff_one :
    ∃ s', UnsubscribeCall.unsubscribe (fun _ => true) true { fs := oneTopic } ["t"] = some s' ∧
      (Unsubscribed ["t"] oneTopic s' ↔
        NothingLeft oneTopic.subscribes (fun topic => topic ∈ oneTopic.subscribedTopicApi) ["t"]) :=
  (oneTopic_returns ["t"]).imp fun _ h => ⟨h, unsubscribed_iff h⟩

/-- **A topic that is not subscribed ends the loop**: the one behind it stays subscribed. -/
theorem unknown_topic_keeps_next :
    ∃ s', UnsubscribeCall.unsubscribe (fun _ => true) true { fs := oneTopic } ["u", "t"] = some s' ∧
      ¬ Unsubscribed ["u", "t"] oneTopic s' := by
  refine ⟨{ fs := oneTopic }, rfl, fun h => h.gone "t" (by simp) (by decide)⟩

end Rnet.Floodsub
