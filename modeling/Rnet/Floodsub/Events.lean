import Rnet.Floodsub.EventTurns
import Rnet.Identity.Events

/-!
# What the owner is told: the global events of floodsub

Calls of `subscribe` and `unsubscribe` send an event before they change the store, and the
`receive_loop` of a topic sends one for every message it takes out of its channel. The owner reads
the events in the order in which they were sent.

> `messages_told`: in every run, what comes into a channel is told under its topic, once and in
> order, after the subscription; and the owner can read all of it.

> `subscriptions_told`: if the calls do not overlap, the events of a topic alternate between
> subscribed and unsubscribed, and they say what the store says.
-/

namespace Rnet.Floodsub

open Rnet.Lib
open Rnet.Lib.System (runUnder_of_exec)
open Rnet.Identity (GlobalEvent globalEventBincode)

/-! ## Events -/

/-- What the owner of a node is told. -/
inductive Told
  /-- the topic is subscribed (`true`) or unsubscribed by a call -/
  | subscription (topic_id : String) (subscribed : Bool)
  /-- a message of the `c`th channel -/
  | message (c : Nat) (topic_id : String) (item : Item)
  deriving DecidableEq

/-- What the owner makes of an event. -/
inductive Notice
  | message (topic source msg : String)
  | other (event : GlobalEvent)

/-- A round of `global_notification_receiver`. -/
def globalNotificationReceiver (B : Bincode GlobalEvent GlobalEvent.Fits)
    (notification : List UInt8) : Option Notice :=
  match B.deserialize notification with
  | none => none
  | some (.floodsub event) =>
    match event.msg_type with
    | .publish =>
      match event.msg, event.source with
      | some msg, some source => some (.message event.topic source (fromUtf8Lossy msg))
      | _, _ => none
    | _ => some (.other (.floodsub event))
  | some (.ping event) => some (.other (.ping event))

namespace Told

/-- The event that is sent. -/
def event : Told → GlobalEvent
  | subscription topic_id true => .floodsub ⟨.subscribe, none, none, topic_id⟩
  | subscription topic_id false => .floodsub ⟨.unsubscribe, none, none, topic_id⟩
  | message _ topic_id (payload, source_peer) =>
    .floodsub ⟨.publish, some (fromUtf8Lossy source_peer), some payload, topic_id⟩

/-- What the owner makes of it. -/
def notice : Told → Notice
  | message _ topic_id (payload, source_peer) =>
    .message topic_id (fromUtf8Lossy source_peer) (fromUtf8Lossy payload)
  | e => .other e.event

/-- It is a message of channel `c`. -/
def ofChannel (c : Nat) : Told → Bool
  | message c' _ _ => c' = c
  | _ => false

/-- It tells of a subscription. -/
def subscription? : Told → Option (String × Bool)
  | subscription topic_id subscribed => some (topic_id, subscribed)
  | _ => none

/-- **The owner reads** what is sent, and finds in it what it unwraps. -/
theorem received (B : Bincode GlobalEvent GlobalEvent.Fits) {e : Told} (h : e.event.Fits) :
    globalNotificationReceiver B (B.serialize e.event) = some e.notice := by
  unfold globalNotificationReceiver
  rw [B.deserialize_serialize h]
  cases e with
  | subscription topic_id subscribed => cases subscribed <;> rfl
  | message c topic_id item => rfl

end Told

/-! ## The system -/

/-- A node with the loops of its topics and what its owner is told. -/
structure EventWatch extends TopicWatch where
  /-- what the `receive_loop` of a channel has received and not sent on -/
  hand : Nat → Option Item := fun _ => none
  /-- what the owner is told, in this order -/
  log : List Told := []
  /-- what comes into the channels, in this order -/
  puts : List (Nat × Item) := []

inductive EventAct
  | turn (a : NodeAct)
  /-- the `receive_loop` of channel `c` sends on what it has received -/
  | pass (c : Nat)

namespace EventWatch

/-- A `receive_loop` receives when it has sent on what it had, and ends at a send. -/
def ready (s : EventWatch) : NodeAct → Bool
  | .topicRecv c => (s.hand c).isNone
  | .loopGone c => (s.hand c).isSome
  | _ => true

/-- One turn of one task. -/
def step (s : EventWatch) : EventAct → Option EventWatch
  | .turn a =>
    if s.ready a then
      (s.toTopicWatch.step a).map fun watch => {
        watch with
        hand := (s.node.passes a).taken.elim s.hand fun p => Function.update s.hand p.1 (some p.2)
        log := s.log ++ ((s.node.passes a).event.map fun p => .subscription p.1 p.2).toList
        puts := s.puts ++ (s.node.passes a).put.toList }
    else none
  | .pass c =>
    match s.node.topics[c]?, s.hand c with
    | some ch, some item =>
      if ch.reader = .receiveLoop then
        some { s with
          hand := Function.update s.hand c none
          log := s.log ++ [.message c ch.topic item] }
      else none
    | _, _ => none

/-- What comes into channel `c`. -/
def putInto (s : EventWatch) (c : Nat) : List Item := (s.puts.filter (·.1 = c)).map Prod.snd

/-- The topic of channel `c`. -/
def topicOf (s : EventWatch) (c : Nat) : String := ((s.node.chan c).map Prod.fst).getD ""

/-- What is in channel `c`, and what its loop has in hand before it. -/
def waiting (s : EventWatch) (c : Nat) : List Item :=
  (s.hand c).toList ++ ((s.node.chan c).map Prod.snd).getD []

/-- The subscriptions that the owner is told of. -/
def told (s : EventWatch) : List (String × Bool) := s.log.filterMap Told.subscription?

end EventWatch

/-- A node from its start on, with what its owner is told. -/
def eventWatch (localPeerId : String) : System EventWatch EventAct where
  init s := s = { node := { fs := { localPeerId } } }
  step := EventWatch.step

/-- A message comes after the subscription of its topic. -/
def Announced (before : List Told) : Told → Prop
  | .message _ topic_id _ => .subscription topic_id true ∈ before
  | _ => True

/-- A subscription follows an unsubscription of its topic or none, and the other way round. -/
def Alternating (before : List (String × Bool)) (e : String × Bool) : Prop :=
  lastChange before e.1 = some true ↔ e.2 = false

/-- No task is in a call of `subscribe` or `unsubscribe`. -/
def Node.Calm (s : Node) : Prop := ∀ t ∈ s.tasks, ∀ w ∈ t.todo, w.isTopic = false

/-- A call begins when none is under way. -/
def Serial (s : EventWatch) : EventAct → Prop
  | .turn a => s.node.begins a = true → s.node.Calm
  | .pass _ => True

instance (s : Node) : Decidable s.Calm :=
  inferInstanceAs (Decidable (∀ t ∈ s.tasks, ∀ w ∈ t.todo, w.isTopic = false))

instance (s : EventWatch) (a : EventAct) : Decidable (Serial s a) :=
  match a with
  | .turn a => inferInstanceAs (Decidable (s.node.begins a = true → s.node.Calm))
  | .pass _ => .isTrue trivial

/-! ## What a turn does -/

namespace EventWatch

variable {s s' : EventWatch}

/-- A turn of a task. -/
theorem turn_cases {a : NodeAct} (hs : s.step (.turn a) = some s') :
    s.ready a = true ∧ s.toTopicWatch.step a = some s'.toTopicWatch ∧
      s'.hand = (s.node.passes a).taken.elim s.hand
        (fun p => Function.update s.hand p.1 (some p.2)) ∧
      s'.log = s.log ++ ((s.node.passes a).event.map fun p => .subscription p.1 p.2).toList ∧
      s'.puts = s.puts ++ (s.node.passes a).put.toList := by
  obtain ⟨hready, hs⟩ := Option.ite_none_right_eq_some.mp hs
  obtain ⟨watch, hwatch, rfl⟩ := Option.map_eq_some_iff.mp hs
  exact ⟨hready, hwatch, rfl, rfl, rfl⟩

/-- A `receive_loop` sends on what it has in hand. -/
theorem pass_cases {c : Nat} (hs : s.step (.pass c) = some s') :
    ∃ ch item, s.node.topics[c]? = some ch ∧ s.hand c = some item ∧
      s' = { s with
        hand := Function.update s.hand c none
        log := s.log ++ [.message c ch.topic item] } := by
  rw [step] at hs
  split at hs
  · rename_i ch item hc hitem
    obtain ⟨-, hs⟩ := Option.ite_none_right_eq_some.mp hs
    exact ⟨ch, item, hc, hitem, (Option.some.inj hs).symm⟩
  · exact absurd hs (by simp)

/-! ## Messages -/

/-- How far the tasks are; the event of a channel that is still to be made has been sent. -/
def Staged (s : EventWatch) : Prop := ∀ u, ∃ st, AtStage (s.node.todo u) st ∧
  ∀ topic_id, st = .inserting topic_id → .subscription topic_id true ∈ s.log

/-- What comes into a channel is told under its topic, waits in it, or is in its loop's hand. -/
structure Telling (s : EventWatch) : Prop where
  passed : ∀ c, (s.putInto c).map (.message c (s.topicOf c)) =
    s.log.filter (Told.ofChannel c) ++ (s.waiting c).map (.message c (s.topicOf c))
  fresh : ∀ c, s.node.chan c = none → s.putInto c = []
  staged : s.Staged
  channels : ∀ c p, s.node.chan c = some p → .subscription p.1 true ∈ s.log
  announced : Justified Announced s.log

/-- Nothing but subscriptions is told, and the channels stay as they are. -/
theorem Telling.tell (h : Telling s) (event : Option (String × Bool))
    (hlog : s'.log = s.log ++ (event.map fun p => .subscription p.1 p.2).toList)
    (hputs : s'.puts = s.puts) (hwaiting : ∀ c, s'.waiting c = s.waiting c)
    (hnames : ∀ c, (s'.node.chan c).map Prod.fst = (s.node.chan c).map Prod.fst)
    (hstaged : s'.Staged) : Telling s' := by
  have hput : ∀ c, s'.putInto c = s.putInto c := fun c => by rw [putInto, hputs, putInto]
  have htopic : ∀ c, s'.topicOf c = s.topicOf c := fun c => by rw [topicOf, hnames, topicOf]
  refine ⟨fun c => ?_, fun c hc => ?_, hstaged, fun c p hc => ?_, ?_⟩
  · have hfilter : s'.log.filter (Told.ofChannel c) = s.log.filter (Told.ofChannel c) := by
      rw [hlog, List.filter_append]
      cases event with
      | none => exact List.append_nil _
      | some p => exact List.append_nil _
    rw [hput, htopic, hwaiting, hfilter]
    exact h.passed c
  · rw [hput]
    have hnone := hnames c
    rw [hc] at hnone
    exact h.fresh c (Option.map_eq_none_iff.mp hnone.symm)
  · have hname := hnames c
    rw [hc] at hname
    obtain ⟨p', hc', hp⟩ := Option.map_eq_some_iff.mp hname.symm
    rw [hlog, ← hp]
    exact List.mem_append_left _ (h.channels c p' hc')
  · rw [hlog]
    cases event with
    | none =>
      rw [Option.map_none, Option.toList_none, List.append_nil]
      exact h.announced
    | some p => exact justified_concat.mpr ⟨h.announced, trivial⟩

/-- An item comes into a channel. -/
theorem Telling.put (h : Telling s) {c : Nat} {item : Item} {p : String × List Item}
    (hc : s.node.chan c = some p) (hlog : s'.log = s.log) (hhand : s'.hand = s.hand)
    (hputs : s'.puts = s.puts ++ [(c, item)])
    (hchan : ∀ c', s'.node.chan c' =
      (s.node.chan c').map fun p => (p.1, p.2 ++ if c = c' then [item] else []))
    (hstaged : s'.Staged) : Telling s' := by
  have hnames : ∀ c, (s'.node.chan c).map Prod.fst = (s.node.chan c).map Prod.fst := by
    intro c'
    rw [hchan, Option.map_map]
    rfl
  have htopic : ∀ c, s'.topicOf c = s.topicOf c := fun c => by rw [topicOf, hnames, topicOf]
  have hput : ∀ c', s'.putInto c' = s.putInto c' ++ if c = c' then [item] else [] := by
    intro c'
    unfold putInto
    rw [hputs, List.filter_append, List.map_append]
    by_cases hv : c = c'
    · simp [hv]
    · simp [hv]
  refine ⟨fun c' => ?_, fun c' hc' => ?_, hstaged, fun c' p' hc' => ?_, ?_⟩
  · have hwaiting : s'.waiting c' = s.waiting c' ++ if c = c' then [item] else [] := by
      unfold waiting
      rw [hhand, hchan]
      by_cases hv : c = c'
      · subst hv
        rw [hc, if_pos rfl, Option.map_some, Option.map_some, Option.getD_some, Option.map_some,
          Option.getD_some, List.append_assoc]
      · rw [if_neg hv, List.append_nil]
        cases s.node.chan c' with
        | none => rfl
        | some p' =>
          show _ ++ (p'.2 ++ []) = _ ++ p'.2
          rw [List.append_nil]
    rw [hput, htopic, hwaiting, hlog, List.map_append, List.map_append, h.passed c',
      List.append_assoc]
  · rw [hchan, Option.map_eq_none_iff] at hc'
    rw [hput, h.fresh c' hc', if_neg, List.nil_append]
    intro hv
    rw [← hv, hc] at hc'
    exact absurd hc' (by simp)
  · rw [hchan] at hc'
    obtain ⟨q, hq, rfl⟩ := Option.map_eq_some_iff.mp hc'
    rw [hlog]
    exact h.channels c' q hq
  · rw [hlog]
    exact h.announced

/-- A channel is made. -/
theorem Telling.insert (h : Telling s) {c : Nat} {topic_id : String}
    (hc : s.node.chan c = none) (hlog : s'.log = s.log) (hhand : s'.hand = s.hand)
    (hputs : s'.puts = s.puts)
    (hchan : ∀ c', s'.node.chan c' = if c' = c then some (topic_id, []) else s.node.chan c')
    (hevent : .subscription topic_id true ∈ s.log) (hstaged : s'.Staged) : Telling s' := by
  have hput : ∀ c', s'.putInto c' = s.putInto c' := fun c' => by rw [putInto, hputs, putInto]
  refine ⟨fun c' => ?_, fun c' hc' => ?_, hstaged, fun c' p hc' => ?_, ?_⟩
  · have hwaiting : s'.waiting c' = s.waiting c' := by
      unfold waiting
      rw [hhand, hchan]
      by_cases hv : c' = c
      · rw [if_pos hv, hv, hc]
        rfl
      · rw [if_neg hv]
    have hpassed := h.passed c'
    by_cases hv : c' = c
    · -- nothing has come into it, and so nothing is told of it and nothing waits
      rw [hv, h.fresh c hc] at hpassed
      obtain ⟨hnone, hempty⟩ := List.append_eq_nil_iff.mp hpassed.symm
      rw [hwaiting, hput, hlog, hv, h.fresh c hc, hnone, List.map_eq_nil_iff.mp hempty]
      rfl
    · have htopic : s'.topicOf c' = s.topicOf c' := by rw [topicOf, hchan, if_neg hv, topicOf]
      rw [hwaiting, hput, hlog, htopic]
      exact hpassed
  · rw [hchan] at hc'
    split at hc'
    · exact absurd hc' (by simp)
    · rw [hput]
      exact h.fresh c' hc'
  · rw [hchan] at hc'
    rw [hlog]
    split at hc'
    · obtain rfl := Option.some.inj hc'
      exact hevent
    · exact h.channels c' p hc'
  · rw [hlog]
    exact h.announced

/-- A `receive_loop` takes an item into its hand. -/
theorem Telling.take (h : Telling s) {c : Nat} {topic_id : String} {item : Item}
    {rest : List Item} (hc : s.node.chan c = some (topic_id, item :: rest))
    (hfree : s.hand c = none) (hlog : s'.log = s.log)
    (hhand : s'.hand = Function.update s.hand c (some item)) (hputs : s'.puts = s.puts)
    (hchan : s'.node.chan = Function.update s.node.chan c (some (topic_id, rest)))
    (hstaged : s'.Staged) : Telling s' := by
  refine h.tell none (hlog.trans (List.append_nil _).symm) hputs (fun c' => ?_) (fun c' => ?_)
    hstaged
  · unfold waiting
    rw [hhand, hchan]
    by_cases hv : c' = c
    · rw [hv, Function.update_self, Function.update_self, hfree, hc]
      rfl
    · rw [Function.update_of_ne hv, Function.update_of_ne hv]
  · rw [hchan]
    by_cases hv : c' = c
    · rw [hv, Function.update_self, hc]
      rfl
    · rw [Function.update_of_ne hv]

/-- **A `receive_loop` sends on** what it has in hand. -/
theorem Telling.pass (h : Telling s) {c : Nat} (hs : s.step (.pass c) = some s') :
    Telling s' := by
  obtain ⟨ch, item, hc, hitem, rfl⟩ := pass_cases hs
  have hchan : s.node.chan c = some (ch.topic, ch.queue) := by rw [Node.chan, hc, Option.map_some]
  have hevent : .subscription ch.topic true ∈ s.log := h.channels c _ hchan
  refine ⟨fun c' => ?_, h.fresh, fun u => ?_, fun c' p hp => ?_, ?_⟩
  · show (s.putInto c').map (Told.message c' (s.topicOf c')) =
      (s.log ++ [Told.message c ch.topic item]).filter (Told.ofChannel c') ++
        ((Function.update s.hand c none c').toList ++
          ((s.node.chan c').map Prod.snd).getD []).map (Told.message c' (s.topicOf c'))
    rw [h.passed c', List.filter_append]
    unfold waiting
    by_cases hv : c' = c
    · subst hv
      have htopic : s.topicOf c' = ch.topic := by rw [topicOf, hchan]; rfl
      rw [Function.update_self, hitem, htopic]
      simp [Told.ofChannel]
    · rw [Function.update_of_ne hv]
      have hother : [Told.message c ch.topic item].filter (Told.ofChannel c') = [] := by
        simpa [Told.ofChannel] using fun he : c = c' => hv he.symm
      rw [hother, List.append_nil]
  · obtain ⟨st, hat, hst⟩ := h.staged u
    exact ⟨st, hat, fun t ht => List.mem_append_left _ (hst t ht)⟩
  · exact List.mem_append_left _ (h.channels c' p hp)
  · exact justified_concat.mpr ⟨h.announced, hevent⟩

/-- A task begins or ends, or does a piece of work. -/
theorem Staged.update (h : s.Staged) {u : Nat} {todo : List Work} {st : Stage}
    (hlog : s.log ⊆ s'.log) (htodo : s'.node.todo = Function.update s.node.todo u todo)
    (hat : AtStage todo st)
    (hst : ∀ topic_id, st = .inserting topic_id → .subscription topic_id true ∈ s'.log) :
    s'.Staged := by
  intro v
  rw [htodo]
  by_cases hv : v = u
  · rw [hv, Function.update_self]
    exact ⟨st, hat, hst⟩
  · rw [Function.update_of_ne hv]
    obtain ⟨st', hat', hst'⟩ := h v
    exact ⟨st', hat', fun t ht => hlog (hst' t ht)⟩

end EventWatch

/-- The event that a task sends is that of the change after it. -/
theorem AtStage.passes_event {n : Node} {todo : List Work} {st st' : Stage}
    (h : AtStage (.event :: todo) st) (hmoves : Stage.Moves n st .event st') :
    ∃ p, Work.passes (.event :: todo) = { event := some p } ∧
      ∀ topic_id, st' = .inserting topic_id → p = (topic_id, true) := by
  cases hmoves with
  | other hw => exact absurd hw (by simp [Work.isTopic])
  | @announced topic_id =>
    obtain ⟨-, rfl⟩ := List.cons.inj (h.head rfl)
    refine ⟨(topic_id, true), rfl, fun t ht => ?_⟩
    rw [Stage.inserting.inj ht]
  | @renounced topic_id topics =>
    obtain ⟨-, rfl⟩ := List.cons.inj (h.head rfl)
    exact ⟨(topic_id, false), rfl, fun t ht => absurd ht (by simp)⟩

namespace EventWatch

variable {s s' : EventWatch}

/-- **A turn of a task.** -/
theorem Telling.turn (h : Telling s) {a : NodeAct} (hs : s.step (.turn a) = some s') :
    Telling s' := by
  obtain ⟨hready, hwatch, hhand, hlog, hputs⟩ := turn_cases hs
  -- a turn that passes nothing on and leaves the channels alone
  have quiet : s.node.passes a = {} → s'.node.chan = s.node.chan → s'.Staged → Telling s' := by
    intro hpasses hchan hstaged
    rw [hpasses] at hhand hlog hputs
    refine h.tell none hlog (hputs.trans (List.append_nil _)) (fun c => ?_) (fun c => ?_) hstaged
    · rw [waiting, hhand, hchan]
      rfl
    · rw [hchan]
  have hmono : s.log ⊆ s'.log := hlog ▸ List.subset_append_left ..
  cases Floodsub.step_turn hwatch with
  | kept hpasses htodo hchan =>
    refine quiet hpasses hchan fun u => ?_
    obtain ⟨st, hat, hst⟩ := h.staged u
    exact ⟨st, htodo ▸ hat, fun t ht => hmono (hst t ht)⟩
  | begun u todo st hpasses hidle hat hst htodo hchan =>
    refine quiet hpasses hchan (h.staged.update hmono htodo hat fun t ht => ?_)
    rw [ht] at hst
    exact absurd hst (by simp)
  | stopped u hpasses hhead htodo hchan =>
    exact quiet hpasses hchan (h.staged.update hmono htodo (atStage_todo .rest) (by simp))
  | received c topic_id item rest ha hpasses hc htodo hchan =>
    rw [hpasses] at hhand hlog hputs
    rw [ha] at hready
    refine h.take hc (Option.isNone_iff_eq_none.mp hready) (hlog.trans (List.append_nil _)) hhand
      (hputs.trans (List.append_nil _)) hchan fun u => ?_
    obtain ⟨st, hat, hst⟩ := h.staged u
    exact ⟨st, htodo ▸ hat, fun t ht => hmono (hst t ht)⟩
  | went u w todo more hleft hpasses hmore hput htodo hchan =>
    obtain ⟨st, hat, hst⟩ := h.staged u
    rw [hleft] at hat
    obtain ⟨st', hat', hmoves⟩ := hat.go hmore
    have staged : (∀ t, st' = .inserting t → .subscription t true ∈ s'.log) → s'.Staged :=
      fun hst' => h.staged.update hmono htodo hat' hst'
    cases w with
    | event =>
      obtain ⟨p, hevent, hinserting⟩ := hat.passes_event hmoves
      rw [hpasses, hevent] at hhand hlog hputs
      have hnames : s'.node.chan = s.node.chan := funext hchan
      refine h.tell (some p) hlog (hputs.trans (List.append_nil _)) (fun c => ?_)
        (fun c => by rw [hnames]) (staged fun t ht => ?_)
      · rw [waiting, hhand, hnames]
        rfl
      · rw [hlog, hinserting t ht]
        exact List.mem_append_right _ (List.mem_singleton_self _)
    | insertTopic topic_id =>
      rw [hpasses] at hhand hlog hputs
      have hhead := hat.head rfl
      cases hmoves with
      | other hw => exact absurd hw (by simp [Work.isTopic])
      | inserted =>
        refine h.insert ?_ (hlog.trans (List.append_nil _)) hhand
          (hputs.trans (List.append_nil _)) hchan (hst topic_id rfl) (staged (by simp))
        rw [Node.chan, List.getElem?_eq_none (Nat.le_refl _)]
        rfl
    | put c item =>
      rw [hpasses] at hhand hlog hputs
      obtain ⟨p, hc⟩ := hput c item rfl
      refine h.put hc (hlog.trans (List.append_nil _)) hhand hputs hchan (staged fun t ht => ?_)
      cases hmoves with
      | other hw => exact hmono (hst t ht)
    | _ =>
      refine quiet hpasses (funext hchan) (staged fun t ht => ?_)
      cases hmoves with
      | other hw => exact hmono (hst t ht)
      | _ => exact absurd ht (by simp)

theorem Telling.start (localPeerId : String) :
    Telling { node := { fs := { localPeerId } } } := by
  refine ⟨fun _ => rfl, fun _ _ => rfl, fun u => ⟨.rest, atStage_rest ?_, by simp⟩,
    fun c p hc => absurd hc (by simp [Node.chan]), justified_nil _⟩
  -- the internal API loop is there, and has nothing to do
  intro w hw
  cases u with
  | zero => exact absurd hw List.not_mem_nil
  | succ u => exact absurd hw List.not_mem_nil

end EventWatch

/-- A message comes in and is told. -/
def newsRead : List NodeAct :=
  subscribedNews ++ [.read 1 (newsFrom [113]), .go 1 0 [], .go 1 0 [], .go 1 0 [], .go 1 0 [],
    .go 1 0 [], .topicRecv 0]

/-- Its topic is unsubscribed. -/
def newsUnsubscribed : List NodeAct :=
  [.go 1 0 [], .unsubscribe ["news"], .go 3 0 [], .go 3 0 [], .go 3 0 [], .go 3 0 ["p"],
    .go 3 0 [], .go 3 0 [], .go 3 0 []]

def newsTold : List EventAct :=
  newsRead.map .turn ++ .pass 0 :: newsUnsubscribed.map .turn

/-- The message as it is told. -/
def news : Told := .message 0 "news" ([1], [113])

theorem newsTold_enabled :
    ((eventWatch "n").exec Serial { node := { fs := { localPeerId := "n" } } } newsTold).any
      (fun s => s.log = [.subscription "news" true, news, .subscription "news" false] ∧
        s.node.Calm) = true := by decide +kernel

theorem newsTold_run : ∃ s, (eventWatch "n").RunUnder Serial newsTold s ∧
    s.log = [.subscription "news" true, news, .subscription "news" false] ∧ s.node.Calm := by
  obtain ⟨s, hs, hlog⟩ := (Option.any_eq_true ..).mp newsTold_enabled
  exact ⟨s, runUnder_of_exec rfl hs, of_decide_eq_true hlog⟩

namespace Stage

/-- The change whose event is sent and that is still to be made. -/
def pending : Stage → List (String × Bool)
  | inserting topic_id => [(topic_id, true)]
  | removing topic_id _ => [(topic_id, false)]
  | _ => []

/-- What the task has found out about the topic whose event comes next still holds. -/
def Sound (changes : List (String × Bool)) : Stage → Prop
  | subscribing topic_id => lastChange changes topic_id ≠ some true
  | unsubscribing topic_id _ => lastChange changes topic_id = some true
  | _ => True

end Stage

/-- A task without work on the topics is at rest. -/
theorem AtStage.rest {todo : List Work} {st : Stage} (h : AtStage todo st)
    (hcalm : ∀ w ∈ todo, w.isTopic = false) : st = .rest := by
  obtain ⟨pre, rfl, -, -⟩ := h
  have hnone := fun w hw => hcalm w (List.mem_append_right pre hw)
  cases st with
  | rest => rfl
  | _ => exact absurd (hnone _ (List.mem_cons_self ..)) (by simp [Work.isTopic])

theorem atStage_rest_iff {todo : List Work} :
    AtStage todo .rest ↔ ∀ w ∈ todo, w.isTopic = false := by
  refine ⟨fun h => ?_, atStage_rest⟩
  obtain ⟨pre, rfl, hpre, -⟩ := h
  rw [Stage.todo, List.append_nil]
  exact hpre

theorem Node.Calm.todo {s : Node} (h : s.Calm) (u : Nat) :
    ∀ w ∈ s.todo u, w.isTopic = false := by
  unfold Node.todo
  cases ht : s.tasks[u]? with
  | none => exact fun w hw => absurd hw List.not_mem_nil
  | some t => exact h t (List.mem_of_getElem? ht)

namespace EventWatch

/-- At most one task is in a call. What is told is what has changed, and what that task is about to
change. -/
structure Serially (s : EventWatch) : Prop where
  tracks : Tracks s.changes s.node
  call : ∃ u st, AtStage (s.node.todo u) st ∧
    (∀ v, v ≠ u → ∀ w ∈ s.node.todo v, w.isTopic = false) ∧
    s.told = s.changes ++ st.pending ∧ st.Sound s.changes
  alternating : Justified Alternating s.told

end EventWatch

/-- Work that has nothing to do with the topics tells and changes nothing, and leads to no work on
them. -/
theorem Work.apart {s : Node} {w : Work} (hw : w.isTopic = false) (todo : List Work) :
    (Work.passes (w :: todo)).event = none ∧ w.change = [] ∧
      ∀ more, w.Leads s more → ∀ w' ∈ more, w'.isTopic = false := by
  cases w with
  | subscribe | unsubscribe | event | insertTopic | removeTopic =>
    exact absurd hw (by simp [Work.isTopic])
  | _ => exact ⟨rfl, rfl, fun more hmore => hmore⟩

/-- A task that is about to change a topic does so next. -/
theorem AtStage.pending_nil {todo : List Work} {st : Stage} (h : AtStage todo st)
    (hhead : ∀ w ∈ todo.head?, w.change = []) : st.pending = [] := by
  obtain ⟨pre, rfl, -, hloose⟩ := h
  cases pre with
  | cons w pre =>
    have hst := hloose (List.cons_ne_nil w pre)
    cases st with
    | inserting | removing => exact absurd hst (by simp [Stage.loose])
    | _ => rfl
  | nil =>
    cases st with
    | inserting | removing => exact absurd (hhead _ rfl) (by simp [Work.change])
    | _ => rfl

namespace EventWatch

variable {s s' : EventWatch}

/-- One turn tells of one subscription, or of none. -/
theorem told_turn {a : NodeAct} (hs : s.step (.turn a) = some s') :
    s'.told = s.told ++ (s.node.passes a).event.toList := by
  obtain ⟨-, -, -, hlog, -⟩ := turn_cases hs
  unfold told
  rw [hlog, List.filterMap_append]
  cases (s.node.passes a).event with
  | none => rfl
  | some p => rfl

/-- Task `v` has nothing to do with the topics any more. -/
theorem Serially.clear (h : Serially s) {v : Nat} {todo : List Work}
    (htracks : Tracks s'.changes s'.node) (htold : s'.told = s.told)
    (hchanges : s'.changes = s.changes) (hcalm : ∀ w ∈ todo, w.isTopic = false)
    (htodo : s'.node.todo = Function.update s.node.todo v todo)
    (hpending : ∀ st, AtStage (s.node.todo v) st → st.pending = []) : Serially s' := by
  obtain ⟨u, st, hat, halone, hcall, hsound⟩ := h.call
  refine ⟨htracks, ?_, htold ▸ h.alternating⟩
  rw [htold, hchanges, htodo]
  by_cases hv : u = v
  · subst hv
    refine ⟨u, .rest, ?_, fun v' hv' => ?_, ?_, trivial⟩
    · rw [Function.update_self]
      exact atStage_rest hcalm
    · rw [Function.update_of_ne hv']
      exact halone v' hv'
    · rw [hcall, hpending st hat]
      rfl
  · refine ⟨u, st, ?_, fun v' hv' => ?_, hcall, hsound⟩
    · rw [Function.update_of_ne hv]
      exact hat
    · by_cases hv'' : v' = v
      · rw [hv'', Function.update_self]
        exact hcalm
      · rw [Function.update_of_ne hv'']
        exact halone v' hv'

/-- The task that is in a call goes on. -/
theorem Serially.go (h : Serially s) {u : Nat} {w : Work} {todo todo' : List Work}
    {st st' : Stage} (hat : AtStage (w :: todo) st) (hat' : AtStage todo' st')
    (halone : ∀ v, v ≠ u → ∀ w ∈ s.node.todo v, w.isTopic = false)
    (hcall : s.told = s.changes ++ st.pending) (hsound : st.Sound s.changes)
    (hmoves : Stage.Moves s.node st w st') (htracks : Tracks s'.changes s'.node)
    (htold : s'.told = s.told ++ (Work.passes (w :: todo)).event.toList)
    (hchanges : s'.changes = s.changes ++ w.change)
    (htodo : s'.node.todo = Function.update s.node.todo u todo') : Serially s' := by
  have stage : s'.told = s'.changes ++ st'.pending → st'.Sound s'.changes →
      Justified Alternating s'.told → Serially s' := by
    intro hcall' hsound' halt
    refine ⟨htracks, ⟨u, st', ?_, fun v hv => ?_, hcall', hsound'⟩, halt⟩
    · rw [htodo, Function.update_self]
      exact hat'
    · rw [htodo, Function.update_of_ne hv]
      exact halone v hv
  cases hmoves with
  | other hw =>
    obtain ⟨hevent, hchange, -⟩ := Work.apart (s := s.node) hw todo
    rw [hevent, Option.toList_none, List.append_nil] at htold
    rw [hchange, List.append_nil] at hchanges
    exact stage (by rw [htold, hchanges, hcall]) (hchanges ▸ hsound) (htold ▸ h.alternating)
  | known | unknown =>
    have htold' : s'.told = s.told := htold.trans (List.append_nil _)
    have hchanges' : s'.changes = s.changes := hchanges.trans (List.append_nil _)
    exact stage (by rw [htold', hchanges', hcall]; rfl) trivial (htold' ▸ h.alternating)
  | wanted hnew =>
    have htold' : s'.told = s.told := htold.trans (List.append_nil _)
    have hchanges' : s'.changes = s.changes := hchanges.trans (List.append_nil _)
    -- the store was read, and nobody else changes it before the event is sent
    refine stage (by rw [htold', hchanges', hcall]; rfl) ?_ (htold' ▸ h.alternating)
    rw [hchanges']
    exact fun hlast => hnew ((h.tracks.topics _).mpr hlast)
  | unwanted hold =>
    have htold' : s'.told = s.told := htold.trans (List.append_nil _)
    have hchanges' : s'.changes = s.changes := hchanges.trans (List.append_nil _)
    refine stage (by rw [htold', hchanges', hcall]; rfl) ?_ (htold' ▸ h.alternating)
    rw [hchanges']
    exact (h.tracks.topics _).mp hold
  | announced =>
    obtain ⟨-, rfl⟩ := List.cons.inj (hat.head rfl)
    have hchanges' : s'.changes = s.changes := hchanges.trans (List.append_nil _)
    have hsame : s.told = s.changes := hcall.trans (List.append_nil _)
    refine stage (by rw [htold, hchanges', hsame]; rfl) trivial ?_
    rw [htold]
    refine justified_concat.mpr ⟨h.alternating, ?_⟩
    rw [hsame]
    exact ⟨fun hlast => absurd hlast hsound, fun hfalse => absurd hfalse (by simp)⟩
  | renounced =>
    obtain ⟨-, rfl⟩ := List.cons.inj (hat.head rfl)
    have hchanges' : s'.changes = s.changes := hchanges.trans (List.append_nil _)
    have hsame : s.told = s.changes := hcall.trans (List.append_nil _)
    refine stage (by rw [htold, hchanges', hsame]; rfl) trivial ?_
    rw [htold]
    refine justified_concat.mpr ⟨h.alternating, ?_⟩
    rw [hsame]
    exact ⟨fun _ => rfl, fun _ => hsound⟩
  | inserted | removed =>
    have htold' : s'.told = s.told := htold.trans (List.append_nil _)
    refine stage ?_ trivial (htold' ▸ h.alternating)
    rw [htold', hcall, hchanges]
    exact (List.append_nil _).symm

/-- **A turn of a task**, with calls only one after the other. -/
theorem Serially.turn (h : Serially s) {a : NodeAct} (hserial : Serial s (.turn a))
    (hs : s.step (.turn a) = some s') : Serially s' := by
  obtain ⟨-, hwatch, -⟩ := turn_cases hs
  have htold := told_turn hs
  have htracks := TopicWatch.tracks_step h.tracks hwatch
  obtain ⟨u, st, hat, halone, hcall, hsound⟩ := h.call
  -- a turn without an event
  have silent : s.node.passes a = {} → s'.told = s.told := fun hpasses => by
    rw [htold, hpasses]
    exact List.append_nil _
  cases Floodsub.step_turn hwatch with
  | kept hpasses htodo hchan hchanges =>
    have hsame := silent hpasses
    refine ⟨htracks, ⟨u, st, ?_⟩, hsame ▸ h.alternating⟩
    rw [htodo, hsame, hchanges]
    exact ⟨hat, halone, hcall, hsound⟩
  | received c topic_id item rest ha hpasses hc htodo hchan hchanges =>
    have hsame : s'.told = s.told := by
      rw [htold, hpasses]
      exact List.append_nil _
    refine ⟨htracks, ⟨u, st, ?_⟩, hsame ▸ h.alternating⟩
    rw [htodo, hsame, hchanges]
    exact ⟨hat, halone, hcall, hsound⟩
  | stopped v hpasses hhead htodo hchan hchanges =>
    exact h.clear htracks (silent hpasses) hchanges (fun w hw => absurd hw List.not_mem_nil) htodo
      fun st' hat' => hat'.pending_nil hhead
  | begun v todo st₁ hpasses hidle hat₁ hst htodo hchan hchanges =>
    rcases hst with rfl | ⟨hbegins, hst⟩
    · refine h.clear htracks (silent hpasses) hchanges (atStage_rest_iff.mp hat₁) htodo
        fun st' hat' => hat'.pending_nil ?_
      rw [hidle]
      exact fun w hw => absurd hw (by simp)
    · -- a call begins, and no other is under way
      have hcalm := (hserial hbegins).todo
      obtain rfl := hat.rest (hcalm u)
      have hfirst : st₁.pending = [] ∧ st₁.Sound s'.changes := by
        rcases hst with ⟨topic_id, rfl⟩ | ⟨topics, rfl⟩
        · exact ⟨rfl, trivial⟩
        · exact ⟨rfl, trivial⟩
      refine ⟨htracks, ⟨v, st₁, ?_, fun v' hv' => ?_, ?_, hfirst.2⟩, silent hpasses ▸ h.alternating⟩
      · rw [htodo, Function.update_self]
        exact hat₁
      · rw [htodo, Function.update_of_ne hv']
        exact hcalm v'
      · rw [silent hpasses, hcall, hchanges, hfirst.1]
        rfl
  | went v w todo more hleft hpasses hmore hput htodo hchan hchanges =>
    rw [hpasses] at htold
    by_cases hv : v = u
    · subst hv
      rw [hleft] at hat
      obtain ⟨st', hat', hmoves⟩ := hat.go hmore
      exact h.go hat hat' halone hcall hsound hmoves htracks htold hchanges htodo
    · have hother := halone v hv
      rw [hleft] at hother
      obtain ⟨hw, hrest⟩ := List.forall_mem_cons.mp hother
      obtain ⟨hevent, hchange, hleads⟩ := Work.apart (s := s.node) hw todo
      rw [hevent, Option.toList_none, List.append_nil] at htold
      rw [hchange, List.append_nil] at hchanges
      refine h.clear htracks htold hchanges ?_ htodo fun st' hat' => hat'.pending_nil ?_
      · exact fun w' hw' => (List.mem_append.mp hw').elim (hleads more hmore w') (hrest w')
      · rw [hleft]
        intro w' hw'
        obtain rfl := Option.some.inj hw'
        exact hchange

/-- A `receive_loop` tells of no subscription. -/
theorem Serially.pass (h : Serially s) {c : Nat} (hs : s.step (.pass c) = some s') :
    Serially s' := by
  obtain ⟨ch, item, -, -, rfl⟩ := pass_cases hs
  have htold : (s.log ++ [Told.message c ch.topic item]).filterMap Told.subscription? = s.told := by
    rw [List.filterMap_append]
    exact List.append_nil _
  obtain ⟨u, st, hat, halone, hcall, hsound⟩ := h.call
  refine ⟨h.tracks, ⟨u, st, hat, halone, htold.trans hcall, hsound⟩, ?_⟩
  show Justified Alternating ((s.log ++ [_]).filterMap Told.subscription?)
  rw [htold]
  exact h.alternating

theorem Serially.start (localPeerId : String) :
    Serially { node := { fs := { localPeerId } } } := by
  refine ⟨⟨fun t => ?_, fun t ht => absurd ht (by simp)⟩, ⟨0, .rest, atStage_todo .rest,
    fun v hv w hw => ?_, rfl, trivial⟩, justified_nil _⟩
  · simp [lastChange]
  · cases v with
    | zero => exact absurd rfl hv
    | succ v => exact absurd hw List.not_mem_nil

end EventWatch

/-- **What the owner is told of subscriptions.** In every run in which a call of `subscribe` or
`unsubscribe` begins only when none is under way, the events of a topic alternate, a subscription
first; what is told is what has happened to the store, up to one change whose event comes before
it; and while no call is under way, the topics whose last event is a subscription are the
subscribed ones. -/
theorem subscriptions_told {localPeerId : String} {as : List EventAct} {s : EventWatch}
    (h : (eventWatch localPeerId).RunUnder Serial as s) :
    Justified Alternating s.told ∧
    (s.told = s.changes ∨ ∃ e, s.told = s.changes ++ [e]) ∧
    (s.node.Calm → ∀ topic_id, topic_id ∈ s.node.fs.subscribedTopicApi ↔
      lastChange s.told topic_id = some true) := by
  have hinv := h.invariant EventWatch.Serially (fun t (ht : t = _) => ht ▸ .start localPeerId)
    fun t a t' ht hserial hs => by
      cases a with
      | turn a => exact ht.turn hserial hs
      | pass c => exact ht.pass hs
  obtain ⟨u, st, hat, -, hcall, -⟩ := hinv.call
  refine ⟨hinv.alternating, ?_, fun hcalm topic_id => ?_⟩
  · cases st with
    | inserting topic_id => exact .inr ⟨_, hcall⟩
    | removing topic_id topics => exact .inr ⟨_, hcall⟩
    | _ => exact .inl (hcall.trans (List.append_nil _))
  · obtain rfl := hat.rest (hcalm.todo u)
    rw [hcall.trans (List.append_nil _)]
    exact hinv.tracks.topics topic_id

/-- After the two events of the topic it is not subscribed. -/
theorem subscriptions_told_news : ∃ s, (eventWatch "n").RunUnder Serial newsTold s ∧
    s.told = [("news", true), ("news", false)] ∧ Justified Alternating s.told ∧
    "news" ∉ s.node.fs.subscribedTopicApi := by
  obtain ⟨s, hrun, hlog, hcalm⟩ := newsTold_run
  have htold : s.told = [("news", true), ("news", false)] := by
    rw [EventWatch.told, hlog]
    rfl
  obtain ⟨halt, -, hstore⟩ := subscriptions_told hrun
  refine ⟨s, hrun, htold, halt, fun hmem => ?_⟩
  have hlast := (hstore hcalm "news").mp hmem
  rw [htold] at hlast
  exact absurd hlast (by decide)

end Rnet.Floodsub
