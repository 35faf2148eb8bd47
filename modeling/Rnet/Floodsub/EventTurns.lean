import Rnet.Floodsub.StaleTopics

/-!
# What the turns do to subscriptions and channels

The calls of `subscribe` and `unsubscribe`, and the internal API where it is told to unsubscribe,
go through the same stages: a global event is sent, then the store is changed, then all peers are
told. `AtStage` says of a task how far it is, and a turn moves one task on (`AtStage.go`). What
is put into a channel stays there until its `receive_loop` takes it.

> `step_turn`: what one turn does to what the tasks have to do, to the channels and to the
> subscriptions, and what it passes on.
-/

namespace Rnet.Floodsub

open Rnet.Lib

/-- What a message is on its way to the owner: the payload and the peer it is from. -/
abbrev Item := List UInt8 × List UInt8

/-! ## The stages of a call -/

/-- The work reads or changes the subscriptions, or tells of a change. -/
def Work.isTopic : Work → Bool
  | .subscribe _ | .unsubscribe _ | .event | .insertTopic _ | .removeTopic _ => true
  | _ => false

/-- How far a task is with the subscriptions. -/
inductive Stage
  /-- nothing of the kind is left to do -/
  | rest
  | subscribe (topic_id : String)
  | unsubscribe (topics : List String)
  /-- the event comes next -/
  | subscribing (topic_id : String)
  | unsubscribing (topic_id : String) (topics : List String)
  /-- the event is sent, and the store comes next -/
  | inserting (topic_id : String)
  | removing (topic_id : String) (topics : List String)

namespace Stage

/-- What is left to do from there on. -/
def todo : Stage → List Work
  | rest => []
  | subscribe topic_id => [.subscribe topic_id]
  | unsubscribe topics => [.unsubscribe topics]
  | subscribing topic_id => [.event, .insertTopic topic_id,
      .messageAllPeers { subscriptions := [subOpts true topic_id] }, .spawn]
  | unsubscribing topic_id topics => [.event, .removeTopic topic_id,
      .messageAllPeers { subscriptions := [subOpts false topic_id] }, .unsubscribe topics]
  | inserting topic_id => [.insertTopic topic_id,
      .messageAllPeers { subscriptions := [subOpts true topic_id] }, .spawn]
  | removing topic_id topics => [.removeTopic topic_id,
      .messageAllPeers { subscriptions := [subOpts false topic_id] }, .unsubscribe topics]

/-- Other work may come before it. -/
def loose : Stage → Prop
  | rest | unsubscribe _ => True
  | _ => False

end Stage

/-- What is left to do is at the stage, behind work that has nothing to do with it. -/
def AtStage (todo : List Work) (st : Stage) : Prop :=
  ∃ pre, todo = pre ++ st.todo ∧ (∀ w ∈ pre, w.isTopic = false) ∧ (pre ≠ [] → st.loose)

theorem atStage_todo (st : Stage) : AtStage st.todo st :=
  ⟨[], rfl, fun _ hw => absurd hw List.not_mem_nil, fun hne => absurd rfl hne⟩

theorem atStage_rest {todo : List Work} (h : ∀ w ∈ todo, w.isTopic = false) :
    AtStage todo .rest :=
  ⟨todo, (List.append_nil todo).symm, h, fun _ => trivial⟩

/-- Other work in front. -/
theorem AtStage.more {todo more : List Work} {st : Stage} (h : AtStage todo st)
    (hmore : ∀ w ∈ more, w.isTopic = false) (hloose : st.loose) : AtStage (more ++ todo) st := by
  obtain ⟨pre, rfl, hpre, -⟩ := h
  refine ⟨more ++ pre, (List.append_assoc ..).symm, fun w hw => ?_, fun _ => hloose⟩
  exact (List.mem_append.mp hw).elim (hmore w) (hpre w)

/-- Other work is done: the stage stays. -/
theorem AtStage.tail {w : Work} {todo : List Work} {st : Stage} (h : AtStage (w :: todo) st)
    (hw : w.isTopic = false) : AtStage todo st ∧ st.loose := by
  obtain ⟨pre, heq, hpre, hloose⟩ := h
  cases pre with
  | nil =>
    -- the stages begin with work on the topics
    cases st with
    | rest => exact absurd heq (List.cons_ne_nil w todo)
    | _ =>
      obtain ⟨rfl, -⟩ := List.cons.inj heq
      exact absurd hw (by simp [Work.isTopic])
  | cons w' pre =>
    obtain ⟨-, rfl⟩ := List.cons.inj heq
    have hl := hloose (List.cons_ne_nil w' pre)
    exact ⟨⟨pre, rfl, (List.forall_mem_cons.mp hpre).2, fun _ => hl⟩, hl⟩

/-- Work on the topics comes next: it begins the stage. -/
theorem AtStage.head {w : Work} {todo : List Work} {st : Stage} (h : AtStage (w :: todo) st)
    (hw : w.isTopic = true) : st.todo = w :: todo := by
  obtain ⟨pre, heq, hpre, -⟩ := h
  cases pre with
  | nil => exact heq.symm
  | cons w' pre =>
    obtain ⟨rfl, -⟩ := List.cons.inj heq
    exact absurd ((List.forall_mem_cons.mp hpre).1.symm.trans hw) (by decide)

/-! ## A piece of work -/

namespace Node

/-- The topic of the `c`th channel and what is in it. -/
def chan (s : Node) (c : Nat) : Option (String × List Item) :=
  s.topics[c]?.map fun ch => (ch.topic, ch.queue)

variable {s s' : Node} {u : Nat} {now : UInt64} {order : List String} {w : Work}
  {todo : List Work}

theorem chan_handOver (s : Node) (u : Nat) (reader : Reader) (c : Nat) :
    ({ s with topics := s.topics.map fun ch => ch.handOver u reader } : Node).chan c =
      s.chan c := by
  unfold chan
  rw [List.getElem?_map, Option.map_map]
  congr 1
  funext ch
  show ((ch.handOver u reader).topic, (ch.handOver u reader).queue) = (ch.topic, ch.queue)
  unfold TopicChannel.handOver
  split <;> rfl

theorem chan_stop (s : Node) (u c : Nat) : (s.stop u).chan c = s.chan c :=
  chan_handOver s u .gone c

theorem chan_put (s : Node) (c : Nat) (item : Item) (c' : Nat) :
    (s.put c item).chan c' =
      (s.chan c').map fun p => (p.1, p.2 ++ if c = c' then [item] else []) := by
  unfold chan put
  rw [List.getElem?_modify, Option.map_map]
  cases s.topics[c']? with
  | none => rfl
  | some ch =>
    show some _ = some (ch.topic, ch.queue ++ _)
    split <;> simp

theorem chan_insertTopic (s : Node) (u : Nat) (topic_id : String) (c : Nat) :
    (s.insertTopic u topic_id).chan c =
      if c = s.topics.length then some (topic_id, []) else s.chan c := by
  unfold chan insertTopic
  dsimp only
  by_cases hc : c = s.topics.length
  · rw [if_pos hc, hc, List.getElem?_append_right (Nat.le_refl _), Nat.sub_self]
    rfl
  · rw [if_neg hc]
    rcases Nat.lt_or_gt_of_ne hc with hlt | hgt
    · rw [List.getElem?_append_left hlt]
    · rw [List.getElem?_eq_none (by rw [List.length_append, List.length_singleton]; omega),
        List.getElem?_eq_none (Nat.le_of_lt hgt)]

end Node

/-- What a piece of work leads to: only the first steps of a call lead to work on the topics. -/
def Work.Leads (s : Node) : Work → List Work → Prop
  | .subscribe topic_id, more => more = [] ∨
      topic_id ∉ s.fs.subscribedTopicApi ∧ more = (Stage.subscribing topic_id).todo
  | .unsubscribe [], more => more = []
  | .unsubscribe (topic_id :: topics), more => more = [] ∨
      topic_id ∈ s.fs.subscribedTopicApi ∧ more = (Stage.unsubscribing topic_id topics).todo
  | .event, more | .insertTopic _, more | .removeTopic _, more => more = []
  | _, more => ∀ w ∈ more, w.isTopic = false

/-- What a piece of work makes of the channels. -/
def Work.chan (s : Node) (c : Nat) : Work → Option (String × List Item)
  | .insertTopic topic_id => if c = s.topics.length then some (topic_id, []) else s.chan c
  | .put c' item => (s.chan c).map fun p => (p.1, p.2 ++ if c' = c then [item] else [])
  | _ => s.chan c

/-- A piece of work stops its task, or leaves it more work. -/
inductive Done (s : Node) (u : Nat) (todo : List Work) (w : Work) (s' : Node) : Prop
  | stopped (hw : w.isTopic = false) (hput : ∀ c item, w ≠ .put c item) (hs : s' = s.stop u)
  | went (s₁ : Node) (more : List Work) (hmore : w.Leads s more) (hcore : s₁.core = s.core)
      (hchan : ∀ c, s₁.chan c = w.chan s c) (hs : s' = s₁.proceed u (more ++ todo))

section Done

variable {s s' : Node} {u : Nat} {now : UInt64} {order : List String} {w : Work}
  {todo : List Work}

/-- Work that leads to `more`, and leaves the tasks and the channels alone. -/
theorem Done.of_same {s₁ : Node} (more : List Work) (hmore : w.Leads s more)
    (htasks : s₁.tasks = s.tasks) (htopics : s₁.topics = s.topics)
    (hw : ∀ c, w.chan s c = s.chan c) : Done s u todo w (s₁.proceed u (more ++ todo)) := by
  refine .went s₁ more hmore ?_ (fun c => ?_) rfl
  · funext v
    unfold Node.core
    rw [htasks]
  · rw [hw]
    unfold Node.chan
    rw [htopics]

/-- The same, where nothing is added. -/
theorem Done.alone {s₁ : Node} (hmore : w.Leads s []) (htasks : s₁.tasks = s.tasks)
    (htopics : s₁.topics = s.topics) (hw : ∀ c, w.chan s c = s.chan c) :
    Done s u todo w (s₁.proceed u todo) :=
  .of_same [] hmore htasks htopics hw

/-- **A piece of work** stops its task, or leads on. -/
theorem perform_done (hs : s.perform u now order todo w = some s') : Done s u todo w s' := by
  have hnone : ∀ w ∈ ([] : List Work), w.isTopic = false := fun w hw => absurd hw List.not_mem_nil
  cases w with
  | register | handleDeadPeers =>
    obtain rfl := Option.some.inj hs
    exact .alone hnone rfl rfl fun _ => rfl
  | removeTopic | event =>
    obtain rfl := Option.some.inj hs
    exact .alone rfl rfl rfl fun _ => rfl
  | insertTopic topic_id =>
    obtain rfl := Option.some.inj hs
    exact .went (s.insertTopic u topic_id) [] rfl rfl (Node.chan_insertTopic s u topic_id) rfl
  | put c item =>
    obtain rfl := Option.some.inj hs
    exact .went (s.put c item) [] hnone rfl (Node.chan_put s c item) rfl
  | spawn =>
    obtain rfl := Option.some.inj hs
    exact .went (s.spawn u) [] hnone rfl (Node.chan_handOver s u .receiveLoop) rfl
  | exit =>
    obtain rfl := Option.some.inj hs
    exact .stopped rfl (by simp) rfl
  | send g packet =>
    obtain rfl := Option.some.inj hs
    exact .went (s.push g packet) [] hnone (Node.core_push s g packet) (fun _ => rfl) rfl
  | sendAll gs rpc =>
    cases gs with
    | nil =>
      obtain rfl := Option.some.inj hs
      exact .alone hnone rfl rfl fun _ => rfl
    | cons g gs =>
      obtain rfl := Option.some.inj hs
      exact .went (s.push g (.rpc rpc)) [.sendAll gs rpc] (List.forall_mem_singleton.mpr rfl)
        (Node.core_push s g _) (fun _ => rfl) rfl
  | messageAllPeers rpc =>
    obtain ⟨-, hs⟩ := Option.ite_none_right_eq_some.mp hs
    obtain rfl := Option.some.inj hs
    exact .of_same [.sendAll _ rpc] (List.forall_mem_singleton.mpr rfl) rfl rfl fun _ => rfl
  | publish msg_forwarder_id msg =>
    obtain ⟨-, hs⟩ := Option.ite_none_right_eq_some.mp hs
    obtain rfl := Option.some.inj hs
    refine .of_same _ (fun w hw => ?_) rfl rfl fun _ => rfl
    obtain ⟨peer_id, -, rfl⟩ := List.mem_map.mp hw
    rfl
  | hello =>
    rw [Node.perform] at hs
    split at hs
    · obtain rfl := Option.some.inj hs
      exact .alone hnone rfl rfl fun _ => rfl
    · obtain rfl := Option.some.inj hs
      exact .of_same [.send u _] (List.forall_mem_singleton.mpr rfl) rfl rfl fun _ => rfl
  | handleIncoming peer_id rpc =>
    obtain rfl := Option.some.inj hs
    refine .of_same _ (fun w hw => ?_) rfl rfl fun _ => rfl
    rcases List.mem_append.mp hw with hw | hw
    · obtain ⟨msg, -, rfl⟩ := List.mem_map.mp hw
      rfl
    · obtain ⟨sub_msg, -, rfl⟩ := List.mem_map.mp hw
      rfl
  | consumePubsubMsg msg_forwarder_id msg =>
    rw [Node.perform] at hs
    split at hs
    · obtain rfl := Option.some.inj hs
      exact .stopped rfl (by simp) rfl
    · split at hs
      · obtain rfl := Option.some.inj hs
        exact .alone hnone rfl rfl fun _ => rfl
      · obtain rfl := Option.some.inj hs
        exact .of_same [.isMsgSeen _ msg _] (List.forall_mem_singleton.mpr rfl) rfl rfl fun _ => rfl
  | isMsgSeen msg_forwarder_id msg subscribed_topics =>
    rw [Node.perform] at hs
    split at hs
    · obtain rfl := Option.some.inj hs
      exact .stopped rfl (by simp) rfl
    · obtain rfl := Option.some.inj hs
      exact .alone hnone rfl rfl fun _ => rfl
    · obtain rfl := Option.some.inj hs
      rw [List.append_cons]
      refine .of_same _ (fun w hw => ?_) rfl rfl fun _ => rfl
      rcases List.mem_append.mp hw with hw | hw
      · obtain ⟨topic_id, -, rfl⟩ := List.mem_map.mp hw
        rfl
      · rw [List.mem_singleton.mp hw]
        rfl
  | notifySubscription topic_id msg =>
    rw [Node.perform] at hs
    split at hs
    · obtain rfl := Option.some.inj hs
      exact .stopped rfl (by simp) rfl
    · obtain rfl := Option.some.inj hs
      exact .of_same [.put _ _] (List.forall_mem_singleton.mpr rfl) rfl rfl fun _ => rfl
  | writeMsg peer_id rpc =>
    rw [Node.perform] at hs
    split at hs
    · obtain rfl := Option.some.inj hs
      exact .stopped rfl (by simp) rfl
    · obtain rfl := Option.some.inj hs
      exact .of_same [.send _ _] (List.forall_mem_singleton.mpr rfl) rfl rfl fun _ => rfl
  | handleSubopts origin_id sub_msg =>
    rw [Node.perform] at hs
    split at hs
    · obtain rfl := Option.some.inj hs
      exact .stopped rfl (by simp) rfl
    · obtain rfl := Option.some.inj hs
      exact .alone hnone rfl rfl fun _ => rfl
  | subscribe topic_id =>
    rw [Node.perform] at hs
    split at hs
    · obtain rfl := Option.some.inj hs
      exact .alone (.inl rfl) rfl rfl fun _ => rfl
    · rename_i hnot
      obtain rfl := Option.some.inj hs
      rw [Greeting.mem_subscribedTopics] at hnot
      exact .of_same _ (.inr ⟨hnot, rfl⟩) rfl rfl fun _ => rfl
  | unsubscribe topics =>
    cases topics with
    | nil =>
      obtain rfl := Option.some.inj hs
      exact .alone rfl rfl rfl fun _ => rfl
    | cons topic_id topics =>
      rw [Node.perform] at hs
      split at hs
      · obtain rfl := Option.some.inj hs
        exact .alone (.inl rfl) rfl rfl fun _ => rfl
      · rename_i hnot
        obtain rfl := Option.some.inj hs
        rw [Greeting.mem_subscribedTopics, not_not] at hnot
        exact .of_same _ (.inr ⟨hnot, rfl⟩) rfl rfl fun _ => rfl

end Done

/-! ## The stages one after the other -/

/-- Where a piece of work leads from a stage. -/
inductive Stage.Moves (s : Node) : Stage → Work → Stage → Prop
  | other {st : Stage} {w : Work} (hw : w.isTopic = false) : Moves s st w st
  | known {topic_id : String} : Moves s (.subscribe topic_id) (.subscribe topic_id) .rest
  | wanted {topic_id : String} (hnew : topic_id ∉ s.fs.subscribedTopicApi) :
      Moves s (.subscribe topic_id) (.subscribe topic_id) (.subscribing topic_id)
  | unknown {topics : List String} : Moves s (.unsubscribe topics) (.unsubscribe topics) .rest
  | unwanted {topic_id : String} {topics : List String}
      (hold : topic_id ∈ s.fs.subscribedTopicApi) :
      Moves s (.unsubscribe (topic_id :: topics)) (.unsubscribe (topic_id :: topics))
        (.unsubscribing topic_id topics)
  | announced {topic_id : String} : Moves s (.subscribing topic_id) .event (.inserting topic_id)
  | renounced {topic_id : String} {topics : List String} :
      Moves s (.unsubscribing topic_id topics) .event (.removing topic_id topics)
  | inserted {topic_id : String} : Moves s (.inserting topic_id) (.insertTopic topic_id) .rest
  | removed {topic_id : String} {topics : List String} :
      Moves s (.removing topic_id topics) (.removeTopic topic_id) (.unsubscribe topics)

/-- **A task goes on**: it is at the next stage. -/
theorem AtStage.go {s : Node} {w : Work} {todo more : List Work} {st : Stage}
    (h : AtStage (w :: todo) st) (hmore : w.Leads s more) :
    ∃ st', AtStage (more ++ todo) st' ∧ Stage.Moves s st w st' := by
  cases hw : w.isTopic with
  | false =>
    obtain ⟨hst, hloose⟩ := h.tail hw
    refine ⟨st, hst.more ?_ hloose, .other hw⟩
    cases w with
    | subscribe | unsubscribe | event | insertTopic | removeTopic =>
      exact absurd hw (by simp [Work.isTopic])
    | _ => exact hmore
  | true =>
    have hhead := h.head hw
    cases st with
    | rest => exact absurd hhead.symm (List.cons_ne_nil w todo)
    | subscribe topic_id =>
      obtain ⟨rfl, rfl⟩ := List.cons.inj hhead
      rw [List.append_nil]
      rcases hmore with rfl | ⟨hnew, rfl⟩
      · exact ⟨.rest, atStage_todo .rest, .known⟩
      · exact ⟨.subscribing topic_id, atStage_todo _, .wanted hnew⟩
    | unsubscribe topics =>
      obtain ⟨rfl, rfl⟩ := List.cons.inj hhead
      rw [List.append_nil]
      cases topics with
      | nil =>
        obtain rfl := hmore
        exact ⟨.rest, atStage_todo .rest, .unknown⟩
      | cons topic_id topics =>
        rcases hmore with rfl | ⟨hold, rfl⟩
        · exact ⟨.rest, atStage_todo .rest, .unknown⟩
        · exact ⟨.unsubscribing topic_id topics, atStage_todo _, .unwanted hold⟩
    | subscribing topic_id =>
      obtain ⟨rfl, rfl⟩ := List.cons.inj hhead
      obtain rfl := hmore
      exact ⟨.inserting topic_id, atStage_todo (.inserting topic_id), .announced⟩
    | unsubscribing topic_id topics =>
      obtain ⟨rfl, rfl⟩ := List.cons.inj hhead
      obtain rfl := hmore
      exact ⟨.removing topic_id topics, atStage_todo (.removing topic_id topics), .renounced⟩
    | inserting topic_id =>
      obtain ⟨rfl, rfl⟩ := List.cons.inj hhead
      obtain rfl := hmore
      refine ⟨.rest, atStage_rest ?_, .inserted⟩
      exact List.forall_mem_cons.mpr ⟨rfl, List.forall_mem_singleton.mpr rfl⟩
    | removing topic_id topics =>
      obtain ⟨rfl, rfl⟩ := List.cons.inj hhead
      obtain rfl := hmore
      refine ⟨.unsubscribe topics, ?_, .removed⟩
      exact (atStage_todo (.unsubscribe topics)).more (List.forall_mem_singleton.mpr rfl) trivial

/-! ## A turn -/

/-- What a turn passes on. -/
structure Passed where
  /-- the global event of a call: a topic is subscribed (`true`) or unsubscribed -/
  event : Option (String × Bool) := none
  /-- what comes into a channel -/
  put : Option (Nat × Item) := none
  /-- what a `receive_loop` takes out of its channel -/
  taken : Option (Nat × Item) := none

/-- What a task passes on when it goes on. The event that is sent is that of the change after it. -/
def Work.passes : List Work → Passed
  | .event :: .insertTopic topic_id :: _ => { event := some (topic_id, true) }
  | .event :: .removeTopic topic_id :: _ => { event := some (topic_id, false) }
  | .put c item :: _ => { put := some (c, item) }
  | _ => {}

namespace Node

/-- Task `u` finds the receiver gone when it goes on. -/
def refused (s : Node) (u : Nat) : Bool :=
  ((s.todo u).head?.bind Work.wants).any fun r => s.room r = none

/-- What a turn passes on. -/
def passes (s : Node) : NodeAct → Passed
  | .go u _ _ => if s.refused u then {} else Work.passes (s.todo u)
  | .topicRecv c => { taken := (s.topics[c]?).bind fun ch => ch.queue.head?.map (c, ·) }
  | _ => {}

/-- The turn begins a call of `subscribe` or of `unsubscribe`. -/
def begins (s : Node) : NodeAct → Bool
  | .subscribe _ | .unsubscribe _ => true
  | .apiNext _ => (s.tasks[0]?.bind fun t => t.notification.head?).any fun packet =>
    match packet with
    | .api (.unsubscribe _) => true
    | _ => false
  | _ => false

variable {s s' : Node} {u : Nat}

theorem todo_of_core (h : s'.core = s.core) : s'.todo = s.todo := by
  funext v
  rw [todo_core, todo_core, h]

theorem todo_update {c : TaskCore} (h : s'.core = Function.update s.core u (some c)) :
    s'.todo = Function.update s.todo u c.todo := by
  funext v
  rw [todo_core, h]
  by_cases hv : v = u
  · rw [hv, Function.update_self, Function.update_self]
    rfl
  · rw [Function.update_of_ne hv, Function.update_of_ne hv, todo_core]

theorem todo_stop (s : Node) (u : Nat) : (s.stop u).todo = Function.update s.todo u [] := by
  cases hc : s.core u with
  | some c => exact todo_update (core_stop hc)
  | none =>
    have hlen := (core_none_iff s u).mp hc
    funext v
    have hstop : (s.stop u).todo v = s.todo v := by
      unfold todo stop
      rw [List.getElem?_modify]
      split
      · rename_i hv
        rw [← hv, List.getElem?_eq_none hlen]
        rfl
      · cases s.tasks[v]? with
        | none => rfl
        | some t => rfl
    rw [hstop]
    by_cases hv : v = u
    · rw [hv, Function.update_self, todo_core, hc]
      rfl
    · rw [Function.update_of_ne hv]

end Node

/-- What a turn does to what the tasks have to do, to the channels and to the subscriptions, and
what it passes on. -/
inductive EventTurn (s : TopicWatch) (a : NodeAct) (s' : TopicWatch) : Prop
  | kept (hpasses : s.node.passes a = {}) (htodo : s'.node.todo = s.node.todo)
      (hchan : s'.node.chan = s.node.chan) (hchanges : s'.changes = s.changes)
  | received (c : Nat) (topic_id : String) (item : Item) (rest : List Item)
      (ha : a = .topicRecv c) (hpasses : s.node.passes a = { taken := some (c, item) })
      (hc : s.node.chan c = some (topic_id, item :: rest)) (htodo : s'.node.todo = s.node.todo)
      (hchan : s'.node.chan = Function.update s.node.chan c (some (topic_id, rest)))
      (hchanges : s'.changes = s.changes)
  | begun (u : Nat) (todo : List Work) (st : Stage) (hpasses : s.node.passes a = {})
      (hidle : s.node.todo u = []) (hat : AtStage todo st)
      (hst : st = .rest ∨ s.node.begins a = true ∧
        ((∃ topic_id, st = .subscribe topic_id) ∨ ∃ topics, st = .unsubscribe topics))
      (htodo : s'.node.todo = Function.update s.node.todo u todo)
      (hchan : s'.node.chan = s.node.chan) (hchanges : s'.changes = s.changes)
  | stopped (u : Nat) (hpasses : s.node.passes a = {})
      (hhead : ∀ w ∈ (s.node.todo u).head?, w.change = [])
      (htodo : s'.node.todo = Function.update s.node.todo u [])
      (hchan : s'.node.chan = s.node.chan) (hchanges : s'.changes = s.changes)
  | went (u : Nat) (w : Work) (todo more : List Work) (hleft : s.node.todo u = w :: todo)
      (hpasses : s.node.passes a = Work.passes (w :: todo)) (hmore : w.Leads s.node more)
      (hput : ∀ c item, w = .put c item → ∃ p, s.node.chan c = some p)
      (htodo : s'.node.todo = Function.update s.node.todo u (more ++ todo))
      (hchan : ∀ c, s'.node.chan c = w.chan s.node c)
      (hchanges : s'.changes = s.changes ++ w.change)

section Turn

variable {s s' : TopicWatch} {a : NodeAct}

/-- A task in its loop has nothing left to do. -/
theorem todo_of_idle {s : Node} {u : Nat} {t : Task} (h : s.idle u = some t) : s.todo u = [] := by
  obtain ⟨ht, hp⟩ := Option.filter_eq_some_iff.mp h
  unfold Node.todo
  rw [ht]
  exact (of_decide_eq_true hp).2.1

/-- A new task. -/
theorem EventTurn.spawned {t : Task} {st : Stage} (hpasses : s.node.passes a = {})
    (hnode : s'.node = { s.node with tasks := s.node.tasks ++ [t] }) (hat : AtStage t.todo st)
    (hst : st = .rest ∨ s.node.begins a = true ∧
      ((∃ topic_id, st = .subscribe topic_id) ∨ ∃ topics, st = .unsubscribe topics))
    (hchanges : s'.changes = s.changes) : EventTurn s a s' := by
  refine .begun s.node.tasks.length t.todo st hpasses ?_ hat hst ?_ ?_ hchanges
  · rw [Node.todo_core, (Node.core_none_iff ..).mpr (Nat.le_refl _)]
    rfl
  · rw [hnode]
    exact Node.todo_update (core_spawn s.node t)
  · rw [hnode]
    rfl

/-- A task in its loop gets something to do. -/
theorem EventTurn.begin {u : Nat} {t : Task} {todo : List Work} {st : Stage} {s₁ : Node}
    (hpasses : s.node.passes a = {}) (hidle : s.node.idle u = some t)
    (hnode : s'.node = s₁.proceed u todo) (hcore : s₁.core = s.node.core)
    (htopics : s₁.topics = s.node.topics) (hat : AtStage todo st)
    (hst : st = .rest ∨ s.node.begins a = true ∧
      ((∃ topic_id, st = .subscribe topic_id) ∨ ∃ topics, st = .unsubscribe topics))
    (hchanges : s'.changes = s.changes) : EventTurn s a s' := by
  refine .begun u todo st hpasses (todo_of_idle hidle) hat hst ?_ ?_ hchanges
  · rw [hnode]
    exact Node.todo_update (Node.core_proceed (core_of_idle hidle).1 hcore todo)
  · rw [hnode]
    funext c
    unfold Node.chan
    rw [← htopics]
    rfl

/-- A task that has sent no event whose change is still to come stops. -/
theorem EventTurn.stop {u : Nat} (hpasses : s.node.passes a = {})
    (hhead : ∀ w ∈ (s.node.todo u).head?, w.change = []) (hnode : s'.node = s.node.stop u)
    (hchanges : s'.changes = s.changes) : EventTurn s a s' := by
  refine .stopped u hpasses hhead ?_ ?_ hchanges
  · rw [hnode, Node.todo_stop]
  · rw [hnode]
    funext c
    exact Node.chan_stop s.node u c

/-- Nothing but the queues of tasks. -/
theorem EventTurn.same (hpasses : s.node.passes a = {}) (hcore : s'.node.core = s.node.core)
    (htopics : s'.node.topics = s.node.topics) (hchanges : s'.changes = s.changes) :
    EventTurn s a s' := by
  refine .kept hpasses (Node.todo_of_core hcore) ?_ hchanges
  funext c
  unfold Node.chan
  rw [htopics]

/-- A channel in another state. -/
theorem chan_set {s s' : Node} {c : Nat} {ch : TopicChannel} (ch' : TopicChannel)
    (hc : s.topics[c]? = some ch) (htopics : s'.topics = s.topics.set c ch') :
    s'.chan = Function.update s.chan c (some (ch'.topic, ch'.queue)) := by
  funext c'
  unfold Node.chan
  rw [htopics, List.getElem?_set]
  by_cases hv : c' = c
  · rw [hv, Function.update_self, if_pos rfl, if_pos (List.getElem?_eq_some_iff.mp hc).1]
    rfl
  · rw [Function.update_of_ne hv, if_neg fun he => hv he.symm]

/-- **A task goes on.** -/
theorem go_turn {u : Nat} {now : UInt64} {order : List String} {w : Work} {todo : List Work}
    (hleft : s.node.todo u = w :: todo) (hgo : s.node.Goes u now order w todo s'.node)
    (hchanges : s'.changes = s.changes ++ w.change) : EventTurn s (.go u now order) s' := by
  cases hgo with
  | refused r hw hroom hs =>
    have hrefused : s.node.refused u = true := by
      unfold Node.refused
      rw [hleft, List.head?_cons, Option.bind_some, hw, Option.any_some, hroom]
      rfl
    have hpasses : s.node.passes (.go u now order) = {} := if_pos hrefused
    -- only a send is refused, and it changes no subscription
    have hnone : w.change = [] := by
      cases w with
      | insertTopic | removeTopic =>
        obtain rfl := Option.some.inj hw
        exact absurd hroom (by simp [Node.room])
      | _ => rfl
    refine .stop hpasses (fun w' hw' => ?_) hs (by rw [hchanges, hnone, List.append_nil])
    rw [hleft] at hw'
    obtain rfl := Option.some.inj hw'
    exact hnone
  | performed hroom hs =>
    have hpasses : s.node.passes (.go u now order) = Work.passes (w :: todo) := by
      have hfree : s.node.refused u = false := by
        unfold Node.refused
        rw [hleft, List.head?_cons, Option.bind_some]
        cases hw : w.wants with
        | none => rfl
        | some r =>
          obtain ⟨n, hn⟩ := hroom r hw
          rw [Option.any_some, hn]
          rfl
      show (if s.node.refused u then {} else Work.passes (s.node.todo u)) = _
      rw [hfree, hleft]
      rfl
    cases perform_done hs with
    | stopped hw hput hstop =>
      have hnone : w.change = [] := by
        cases w with
        | insertTopic | removeTopic => exact absurd hw (by simp [Work.isTopic])
        | _ => rfl
      have hquiet : Work.passes (w :: todo) = {} := by
        cases w with
        | put c item => exact absurd rfl (hput c item)
        | event => exact absurd hw (by simp [Work.isTopic])
        | _ => rfl
      refine .stop (hpasses.trans hquiet) (fun w' hw' => ?_) hstop
        (by rw [hchanges, hnone, List.append_nil])
      rw [hleft] at hw'
      obtain rfl := Option.some.inj hw'
      exact hnone
    | went s₁ more hmore hcore hchan hs' =>
      refine .went u w todo more hleft hpasses hmore (fun c item hw => ?_) ?_ (fun c => ?_) hchanges
      · subst hw
        obtain ⟨n, hn⟩ := hroom (.topic c) rfl
        obtain ⟨ch, hch, -⟩ := Option.bind_eq_some_iff.mp hn
        exact ⟨(ch.topic, ch.queue), congrArg (Option.map _) hch⟩
      · rw [hs']
        cases hc : s.node.core u with
        | some c => exact Node.todo_update (Node.core_proceed hc hcore _)
        | none =>
          rw [Node.todo_core, hc] at hleft
          exact absurd hleft.symm (List.cons_ne_nil w todo)
      · rw [hs']
        exact hchan c

/-- **One turn**: what the tasks have to do, the channels, and what is passed on. -/
theorem step_turn (hs : s.step a = some s') : EventTurn s a s' := by
  cases TopicWatch.step_turn hs with
  | goes u now order t w todo ha ht halive htodo hgo hchanges hstopped =>
    obtain rfl := ha
    refine go_turn ?_ hgo hchanges
    unfold Node.todo
    rw [ht]
    exact htodo
  | other ha hstep hchanges hstopped =>
    cases a with
    | go u now order => exact absurd rfl (ha u now order)
    | newPeer peer_id =>
      refine .spawned rfl (Option.some.inj hstep).symm (atStage_rest ?_) (.inl rfl) hchanges
      exact List.forall_mem_cons.mpr ⟨rfl, List.forall_mem_singleton.mpr rfl⟩
    | subscribe topic_id =>
      exact .spawned rfl (Option.some.inj hstep).symm (atStage_todo (.subscribe topic_id))
        (.inr ⟨rfl, .inl ⟨topic_id, rfl⟩⟩) hchanges
    | unsubscribe topics =>
      exact .spawned rfl (Option.some.inj hstep).symm (atStage_todo (.unsubscribe topics))
        (.inr ⟨rfl, .inr ⟨topics, rfl⟩⟩) hchanges
    | apiSend event =>
      simp only [Node.step] at hstep
      split at hstep
      · exact .same rfl (by rw [← Option.some.inj hstep, Node.core_push])
          (by rw [← Option.some.inj hstep]; rfl) hchanges
      · exact .same rfl (by rw [← Option.some.inj hstep, Node.core_push])
          (by rw [← Option.some.inj hstep]; rfl) hchanges
      · exact absurd hstep (by simp)
    | read h rpc | streamEnd h =>
      rw [Node.step] at hstep
      split at hstep
      · rename_i peer_id hh
        obtain ⟨t, hidle⟩ := idle_of_handler hh
        refine .begin rfl hidle (Option.some.inj hstep).symm rfl rfl (atStage_rest ?_) (.inl rfl)
          hchanges
        simp [Work.isTopic]
      · exact absurd hstep (by simp)
    | undecodable h =>
      obtain ⟨peer_id, hh, hnode⟩ := Option.map_eq_some_iff.mp hstep
      obtain ⟨t, hidle⟩ := idle_of_handler hh
      refine .stop rfl (fun w hw => ?_) hnode.symm hchanges
      rw [todo_of_idle hidle] at hw
      exact absurd hw (by simp)
    | recv u =>
      rw [Node.step] at hstep
      split at hstep
      · rename_i t hidle
        split at hstep
        · exact absurd hstep (by simp)
        · have hnode := (Option.some.inj hstep).symm
          refine .same rfl ?_ (by rw [hnode]) hchanges
          rw [hnode]
          exact Node.core_set (Option.filter_eq_some_iff.mp hidle).1 rfl rfl
      · exact absurd hstep (by simp)
    | write h =>
      rw [Node.step] at hstep
      split at hstep
      · rename_i t hh hidle
        split at hstep
        · exact absurd hstep (by simp)
        · have hnode := (Option.some.inj hstep).symm
          refine .same rfl ?_ (by rw [hnode]) hchanges
          rw [hnode]
          exact Node.core_set (Option.filter_eq_some_iff.mp hidle).1 rfl rfl
      · exact absurd hstep (by simp)
    | apiNext now =>
      rw [Node.step] at hstep
      split at hstep
      · rename_i t hidle
        split at hstep
        · rename_i event rest hq
          have ht := (Option.filter_eq_some_iff.mp hidle).1
          have hset : Node.core { s.node with
              tasks := s.node.tasks.set 0 { t with notification := rest } } = s.node.core :=
            Node.core_set ht rfl rfl
          have hnode := (Option.some.inj hstep).symm
          cases event with
          | unsubscribe topics =>
            refine .begin rfl hidle hnode hset rfl (atStage_todo (.unsubscribe topics))
              (.inr ⟨?_, .inr ⟨topics, rfl⟩⟩) hchanges
            unfold Node.begins
            rw [ht, Option.bind_some, hq]
            rfl
          | deadPeers | publish =>
            refine .begin rfl hidle hnode hset rfl (atStage_rest ?_) (.inl rfl)
              hchanges
            exact List.forall_mem_singleton.mpr rfl
        · exact absurd hstep (by simp)
      · exact absurd hstep (by simp)
    | ask u =>
      rw [Node.step] at hstep
      split at hstep
      · obtain ⟨-, hstep⟩ := Option.ite_none_right_eq_some.mp hstep
        have hnode := (Option.some.inj hstep).symm
        refine .same rfl ?_ (by rw [hnode]) hchanges
        rw [hnode]
        exact Node.core_queues rfl fun _ => rfl
      · exact absurd hstep (by simp)
    | eventGone u =>
      obtain ⟨hnext, hstep⟩ := Option.ite_none_right_eq_some.mp hstep
      -- the send fails and its `unwrap` panics, in front of the change of the store
      refine .stop rfl (fun w hw => ?_) (Option.some.inj hstep).symm hchanges
      obtain ⟨t, ht, hhead⟩ := Option.bind_eq_some_iff.mp hnext
      obtain ⟨-, hhead⟩ := Option.ite_none_right_eq_some.mp hhead
      unfold Node.todo at hw
      rw [ht] at hw
      obtain rfl := Option.some.inj (hhead.symm.trans hw)
      rfl
    | topicRecv c =>
      rw [Node.step] at hstep
      split at hstep
      · rename_i ch hc
        split at hstep
        · rename_i item rest hreader hqueue
          have hnode := (Option.some.inj hstep).symm
          refine .received c ch.topic item rest rfl ?_ ?_ ?_ ?_ hchanges
          · show ({ taken := (s.node.topics[c]?).bind fun ch => ch.queue.head?.map (c, ·) } :
              Passed) = _
            rw [hc, Option.bind_some, hqueue]
            rfl
          · unfold Node.chan
            rw [hc, Option.map_some, hqueue]
          · rw [hnode]
            exact Node.todo_of_core rfl
          · rw [hnode]
            exact chan_set { ch with queue := rest } hc rfl
        · exact absurd hstep (by simp)
      · exact absurd hstep (by simp)
    | loopGone c =>
      rw [Node.step] at hstep
      split at hstep
      · rename_i ch hc
        obtain ⟨-, hstep⟩ := Option.ite_none_right_eq_some.mp hstep
        have hnode := (Option.some.inj hstep).symm
        refine .kept rfl ?_ ?_ hchanges
        · rw [hnode]
          exact Node.todo_of_core rfl
        · rw [hnode, chan_set { ch with reader := .gone } hc rfl]
          refine Function.update_eq_self_iff.mpr ?_
          unfold Node.chan
          rw [hc]
          rfl
      · exact absurd hstep (by simp)

end Turn

end Rnet.Floodsub
