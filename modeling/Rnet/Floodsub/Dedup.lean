import Rnet.Floodsub.PubSub
import Rnet.Lib.SeenSet
import Rnet.Lib.System

/-!
# Publishes of one node at one of its peers

A node handles `Publish` events, a connected peer handles the RPCs in order, and now and
then the peer's cleanup pass runs. A message is known by its origin and its sequence
number, and the sequence number is the second it was published in.

> `accepts_each_iff`: the peer accepts every message it handles if and only if, between
> any two that were published in the same second, a cleanup pass comes more than
> `LAST_SEEN_TTL` seconds after the first was handled.
-/

namespace Rnet.Floodsub

open Rnet.Lib
open Rnet.Lib.SeenSet (Tick entry Accepts Spaced entry_concat entryStep entryStep_sweep)
open Rnet.Lib.System (runUnder_of_exec)

/-- A publisher and one of its peers. -/
structure Dedup where
  publisher : FloodSub
  receiver : FloodSub
  /-- the RPCs on their way, each with the second it was published in -/
  wire : List (UInt64 × Message) := []
  /-- the messages that were handled and not accepted -/
  discarded : List Message := []
  /-- what the receiver's cache has been through: a message published in that second was
  handled then, a cleanup pass ran then -/
  history : List (Tick UInt64) := []

/-- One turn of one of the two nodes. -/
inductive DedupAct
  /-- the publisher's internal API loop handles `Publish` -/
  | publish (topics : List String) (data : Option (List UInt8)) (now : UInt64)
  /-- the receiver handles the next RPC of the publisher -/
  | receive (now : UInt64)
  /-- the receiver handles a message of another origin -/
  | other (msg : Message) (fwd : String) (now : UInt64)
  /-- one pass of the receiver's `cleanup_msg_cache` -/
  | cleanup (now : UInt64)
  deriving DecidableEq

/-- The node after one pass of its `cleanup_msg_cache`. -/
def FloodSub.cleanup (fs : FloodSub) (now : UInt64) : FloodSub :=
  { fs with lastSeenCache := cleanupMsgCache fs.lastSeenCache now }

namespace Dedup

/-- One turn. A panic of the receiver's handler counts as a message not accepted. -/
def step (s : Dedup) : DedupAct → Option Dedup
  | .publish topics data now =>
    let pub_msg := s.publisher.publishMessage data topics now
    if s.receiver.localPeerId ∈ s.publisher.publishPeers s.publisher.localPeerId pub_msg then
      some { s with wire := s.wire ++ [(now, pub_msg)] }
    else some s
  | .receive now =>
    match s.wire with
    | [] => none
    | (sec, msg) :: rest =>
      let s' := { s with wire := rest, history := s.history ++ [Tick.seen sec now.toNat] }
      match s.receiver.handlePublish msg s.publisher.localPeerId now with
      | some (fs, some _) => some { s' with receiver := fs }
      | some (fs, none) => some { s' with receiver := fs, discarded := s.discarded ++ [msg] }
      | none => some { s' with discarded := s.discarded ++ [msg] }
  | .other msg fwd now =>
    if msg.from_.getD [] = toUtf8 s.publisher.localPeerId then none
    else match s.receiver.handlePublish msg fwd now with
      | some (fs, _) => some { s with receiver := fs }
      | none => some s
  | .cleanup now => some { s with
      receiver := s.receiver.cleanup now
      history := s.history ++ [Tick.sweep now.toNat] }

/-- The key of what the publisher publishes in that second. -/
def key (s : Dedup) (sec : UInt64) : MessageKey := ⟨toUtf8 s.publisher.localPeerId, sec⟩

/-- The publisher lists its peer under the topics that the peer is subscribed to. -/
structure Connected (s : Dedup) : Prop where
  distinct : s.publisher.localPeerId ≠ s.receiver.localPeerId
  lists : ∀ topic, s.publisher.Lists topic s.receiver.localPeerId ↔
    topic ∈ s.receiver.subscribedTopicApi

end Dedup

/-- A publisher that has not published anything yet, and one of its peers. -/
def dedup : System Dedup DedupAct where
  init s := s.Connected ∧ (∀ sec, s.receiver.lastSeenCache (s.key sec) = none) ∧ s.wire = [] ∧
    s.discarded = [] ∧ s.history = []
  step := Dedup.step

namespace Dedup

/-- The cache of the receiver keeps the book that the history tells. -/
structure CacheInv (s : Dedup) : Prop where
  connected : s.Connected
  /-- an RPC on its way is one of the publisher's, and the receiver wants it -/
  wire : ∀ x ∈ s.wire, s.receiver.Wants x.2 ∧ ∃ topics data,
    x.2 = s.publisher.publishMessage data topics x.1
  cache : ∀ sec, (s.receiver.lastSeenCache (s.key sec)).map UInt64.toNat = entry 120 sec s.history
  discarded : s.discarded = [] ↔ ∀ sec, Accepts 120 sec s.history

/-- What is left alone when the receiver's store and the publisher stay. -/
theorem CacheInv.of_store {s s' : Dedup} (h : s.CacheInv) (hpub : s'.publisher = s.publisher)
    (hstore : SameStore s.receiver s'.receiver) (hwire : ∀ x ∈ s'.wire, x ∈ s.wire)
    (hcache : ∀ sec, (s'.receiver.lastSeenCache (s.key sec)).map UInt64.toNat
      = entry 120 sec s'.history)
    (hdisc : s'.discarded = [] ↔ ∀ sec, Accepts 120 sec s'.history) : s'.CacheInv where
  connected := by
    refine ⟨?_, fun topic => ?_⟩
    · rw [hpub, hstore.localPeerId]
      exact h.connected.distinct
    · rw [hpub, hstore.localPeerId, hstore.subscribed]
      exact h.connected.lists topic
  wire x hx := by
    obtain ⟨⟨topic, htm, ht⟩, hmsg⟩ := h.wire x (hwire x hx)
    rw [hpub]
    exact ⟨⟨topic, htm, (hstore.subscribed topic).mpr ht⟩, hmsg⟩
  cache sec := by
    unfold key
    rw [hpub]
    exact hcache sec
  discarded := hdisc

theorem key_inj (s : Dedup) {sec sec' : UInt64} : s.key sec = s.key sec' ↔ sec = sec' := by
  simp [key]

/-- The RPC of a `Publish` event goes to a peer that is subscribed to one of its topics. -/
theorem Connected.sent_iff {s : Dedup} (h : s.Connected) (topics : List String)
    (data : Option (List UInt8)) (now : UInt64) :
    s.receiver.localPeerId ∈ s.publisher.publishPeers s.publisher.localPeerId
        (s.publisher.publishMessage data topics now) ↔
      ∃ topic ∈ topics, topic ∈ s.receiver.subscribedTopicApi := by
  rw [mem_publishPeers]
  have horigin : fromUtf8Lossy
      ((s.publisher.publishMessage data topics now).from_.getD []) = s.publisher.localPeerId :=
    fromUtf8Lossy_toUtf8 _
  rw [horigin]
  constructor
  · intro h
    obtain ⟨⟨topic, htm, ht⟩, -⟩ := h
    exact ⟨topic, htm, (h.lists topic).mp ht⟩
  · intro h
    obtain ⟨topic, htm, ht⟩ := h
    exact ⟨⟨topic, htm, (h.lists topic).mpr ht⟩, h.distinct.symm, h.distinct.symm⟩

/-- A `Publish` event. -/
theorem CacheInv.publish {s s' : Dedup} {topics : List String} {data : Option (List UInt8)}
    {now : UInt64} (h : s.CacheInv) (hs : s.step (.publish topics data now) = some s') :
    s'.CacheInv := by
  simp only [step] at hs
  split at hs
  · rename_i hsent
    obtain rfl := Option.some.inj hs
    refine ⟨⟨h.connected.distinct, h.connected.lists⟩, fun x hx => ?_, h.cache, h.discarded⟩
    rcases List.mem_append.mp hx with hx | hx
    · exact h.wire x hx
    · obtain rfl := List.mem_singleton.mp hx
      exact ⟨(h.connected.sent_iff topics data now).mp hsent, topics, data, rfl⟩
  · obtain rfl := Option.some.inj hs
    exact h

/-- An RPC is handled: the message is accepted when the history keeps no entry for its second. -/
theorem CacheInv.receive {s s' : Dedup} {now : UInt64} (h : s.CacheInv)
    (hs : s.step (.receive now) = some s') : s'.CacheInv := by
  simp only [step] at hs
  cases hw : s.wire with
  | nil =>
    rw [hw] at hs
    simp at hs
  | cons x rest =>
    obtain ⟨sec, msg⟩ := x
    rw [hw] at hs
    dsimp only at hs
    obtain ⟨hwants, topics, data, hmsg⟩ :=
      h.wire (sec, msg) (by rw [hw]; exact List.mem_cons_self ..)
    dsimp only at hwants hmsg
    have hrest : ∀ x ∈ rest, x ∈ s.wire := by
      intro x hx
      rw [hw]
      exact List.mem_cons_of_mem _ hx
    have hkey : (⟨msg.from_.getD [], sec⟩ : MessageKey) = s.key sec := by
      rw [hmsg]
      rfl
    have horigin : fromUtf8Lossy (msg.from_.getD []) ≠ s.receiver.localPeerId := by
      rw [hmsg]
      exact fun he => h.connected.distinct ((fromUtf8Lossy_toUtf8 _).symm.trans he)
    have hsec : seqnoToUnixTx (msg.seqno.getD []) = some sec := by
      rw [hmsg]
      exact seqnoToUnixTx_getSeqno sec
    -- the other seconds
    have hother : ∀ sec', sec' ≠ sec →
        entry 120 sec' (s.history ++ [Tick.seen sec now.toNat]) = entry 120 sec' s.history := by
      intro sec' hne
      rw [entry_concat]
      exact if_neg hne.symm
    have hacc : (∀ sec', Accepts 120 sec' (s.history ++ [Tick.seen sec now.toNat])) ↔
        (∀ sec', Accepts 120 sec' s.history) ∧ entry 120 sec s.history = none := by
      simp only [SeenSet.accepts_concat, Tick.seen.injEq, forall_and]
      exact and_congr Iff.rfl
        ⟨fun hall => hall sec now.toNat ⟨rfl, rfl⟩, fun hn sec' t he => he.1 ▸ hn⟩
    have hcases := handlePublish_foreign s.publisher.localPeerId now hwants horigin hsec
    rw [hkey] at hcases
    rcases hcases with ⟨hseen, hh⟩ | ⟨hnew, fs, hh, hstore, hcache⟩
    · -- the key is in the cache: the message is discarded
      rw [hh] at hs
      obtain rfl := Option.some.inj hs
      obtain ⟨ts, hts⟩ := Option.ne_none_iff_exists'.mp hseen
      have hentry : entry 120 sec s.history = some ts.toNat := by
        rw [← h.cache sec, hts]
        rfl
      refine h.of_store rfl (SameStore.refl _) hrest (fun sec' => ?_) ?_
      · by_cases hs' : sec' = sec
        · rw [hs', entry_concat, hentry, hts]
          exact (if_pos rfl).symm
        · rw [hother sec' hs']
          exact h.cache sec'
      · rw [hacc, hentry]
        simp
    · rw [hh] at hs
      obtain rfl := Option.some.inj hs
      have hentry : entry 120 sec s.history = none := by
        rw [← h.cache sec, hnew]
        rfl
      refine h.of_store rfl hstore hrest (fun sec' => ?_) ?_
      · show Option.map UInt64.toNat (fs.lastSeenCache (s.key sec')) = _
        rw [hcache]
        by_cases hs' : sec' = sec
        · rw [hs', Function.update_self, entry_concat, hentry]
          exact (if_pos rfl).symm
        · rw [Function.update_of_ne (fun he => hs' (s.key_inj.mp he)), hother sec' hs']
          exact h.cache sec'
      · rw [hacc, hentry]
        simpa using h.discarded

/-- A message of another origin. -/
theorem CacheInv.other {s s' : Dedup} {msg : Message} {fwd : String} {now : UInt64}
    (h : s.CacheInv) (hs : s.step (.other msg fwd now) = some s') : s'.CacheInv := by
  simp only [step] at hs
  split at hs
  · simp at hs
  rename_i hfrom
  rcases hh : s.receiver.handlePublish msg fwd now with _ | ⟨fs, peers⟩
  · rw [hh] at hs
    obtain rfl := Option.some.inj hs
    exact h
  · rw [hh] at hs
    obtain rfl := Option.some.inj hs
    have hframe := handlePublish_frame hh
    refine h.of_store rfl hframe.store (fun _ hx => hx) (fun sec => ?_) h.discarded
    rw [← h.cache sec]
    exact congrArg _ (hframe.cache (s.key sec) fun he => hfrom he.symm)

/-- A cleanup pass. -/
theorem CacheInv.cleanup {s s' : Dedup} {now : UInt64} (h : s.CacheInv)
    (hs : s.step (.cleanup now) = some s') : s'.CacheInv := by
  obtain rfl := Option.some.inj hs
  refine h.of_store rfl ⟨rfl, rfl, rfl, fun _ => Iff.rfl⟩ (fun _ hx => hx) (fun sec => ?_) ?_
  · show Option.map UInt64.toNat (cleanupMsgCache s.receiver.lastSeenCache now (s.key sec)) = _
    rw [entry_concat, ← h.cache sec]
    cases hc : s.receiver.lastSeenCache (s.key sec) with
    | none =>
      rw [cleanupMsgCache_none hc]
      rfl
    | some ts =>
      rw [cleanupMsgCache_some hc, Option.map_some, entryStep_sweep]
      split
      · rfl
      · rfl
  · rw [h.discarded]
    simp [SeenSet.accepts_concat]

/-- **Every turn** of the two nodes. -/
theorem CacheInv.step {s s' : Dedup} {a : DedupAct} (h : s.CacheInv) (hs : s.step a = some s') :
    s'.CacheInv := by
  cases a with
  | publish topics data now => exact h.publish hs
  | receive now => exact h.receive hs
  | other msg fwd now => exact h.other hs
  | cleanup now => exact h.cleanup hs

theorem CacheInv.init {s : Dedup} (h : dedup.init s) : s.CacheInv := by
  obtain ⟨hconn, hcache, hwire, hdisc, hhist⟩ := h
  refine ⟨hconn, fun x hx => ?_, fun sec => ?_, ?_⟩
  · rw [hwire] at hx
    simp at hx
  · rw [hcache, hhist]
    rfl
  · rw [hdisc, hhist]
    simp [Accepts]

end Dedup

/-- **When each message is accepted.** In every run of the two nodes, the peer accepts every
message it handles if and only if, between any two published in the same second, a cleanup
pass comes more than `LAST_SEEN_TTL` seconds after the first was handled. -/
theorem accepts_each_iff {as : List DedupAct} {s : Dedup} (h : dedup.Run as s) :
    s.discarded = [] ↔ ∀ sec, Spaced 120 sec s.history := by
  have hI : s.CacheInv :=
    h.invariant Dedup.CacheInv (fun _ => Dedup.CacheInv.init) fun _ _ _ hI _ hs => hI.step hs
  rw [hI.discarded]
  simp only [SeenSet.accepts_iff_spaced]

/-- A publisher `a` and its peer `b`, who is subscribed to one topic. -/
def twoNodes : Dedup where
  publisher :=
    { localPeerId := "a", peerTopics := fun topic => if topic = "news" then some ["b"] else none }
  receiver := { localPeerId := "b", subscribedTopicApi := AList.singleton "news" [] }

theorem twoNodes_init : dedup.init twoNodes := by
  refine ⟨⟨by decide, fun topic => ?_⟩, fun _ => rfl, rfl, rfl, rfl⟩
  by_cases ht : topic = "news"
  · simp [twoNodes, FloodSub.Lists, ht, mem_alist_singleton]
  · simp [twoNodes, FloodSub.Lists, ht, mem_alist_singleton]

/-- Two messages of one second; a cleanup pass removes the first before the second comes. -/
def lateSecond : List DedupAct :=
  [.publish ["news"] (some [1]) 7, .publish ["news"] (some [2]) 7, .receive 7, .cleanup 200,
    .receive 201]

theorem lateSecond_enabled :
    (dedup.exec (fun _ _ => True) twoNodes lateSecond).isSome = true := by decide +kernel

theorem accepts_each_iff_lateSecond :
    ∃ s, dedup.Run lateSecond s ∧ s.discarded = [] ∧ ∀ sec, Spaced 120 sec s.history := by
  have hrun : dedup.Run lateSecond _ :=
    runUnder_of_exec twoNodes_init (Option.some_get lateSecond_enabled).symm
  have hdisc : ((dedup.exec (fun _ _ => True) twoNodes lateSecond).get
      lateSecond_enabled).discarded = [] := by decide +kernel
  exact ⟨_, hrun, hdisc, (accepts_each_iff hrun).mp hdisc⟩

/-- Two messages of one second. -/
def sameSecond : List DedupAct :=
  [.publish ["news"] (some [1]) 7, .publish ["news"] (some [2]) 7, .receive 7, .receive 7]

theorem sameSecond_enabled :
    (dedup.exec (fun _ _ => True) twoNodes sameSecond).isSome = true := by decide +kernel

theorem same_second_discarded :
    ∃ s, dedup.Run sameSecond s ∧
      s.discarded = [twoNodes.publisher.publishMessage (some [2]) ["news"] 7] := by
  have hrun : dedup.Run sameSecond _ :=
    runUnder_of_exec twoNodes_init (Option.some_get sameSecond_enabled).symm
  exact ⟨_, hrun, by decide +kernel⟩

end Rnet.Floodsub
