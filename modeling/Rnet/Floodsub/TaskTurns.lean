import Rnet.Floodsub.Tasks

/-!
# What the turns do to the tasks

A task goes on with its work, or something else happens. `perform_worked` says what a piece of work
leaves its task to do, and what it does to the entries of `peers`; the send loops of `publish` and
`message_all_peers` are told apart from the rest. `step_elsewhere` says what happens to the tasks
in the other turns, and `step_store` that they leave the store alone.
-/

namespace Rnet.Floodsub

/-- The work belongs to a loop that still has to serve a peer. -/
def Work.inLoop : Work → Bool
  | .writeMsg .. => true
  | .send _ (.rpc rpc) => !rpc.publish.isEmpty
  | .sendAll (_ :: _) _ => true
  | _ => false

/-- The work starts a loop. -/
def Work.selects : Work → Bool
  | .publish .. => true
  | .messageAllPeers _ => true
  | _ => false

namespace Node

/-- Task `g` runs. -/
def Running (s : Node) (g : Nat) : Prop := ∃ t, s.tasks[g]? = some t ∧ t.alive = true

/-- What the next step of a loop unwraps is there: the entry, or the receiver behind it. -/
def Finds (s : Node) : Work → Prop
  | .writeMsg peer_id _ => peer_id ∈ s.fs.peers
  | .send g (.rpc rpc) => rpc.publish ≠ [] → s.Running g
  | .sendAll (g :: _) _ => s.Running g
  | _ => True

/-- A loop that goes on finds its next peer. -/
def EntriesRun (s : Node) (a : NodeAct) : Prop :=
  ∀ u now order w, a = .go u now order → s.next u = some w → s.Finds w

/-- Task `g` is a stream handler of the peer. -/
def Handles (s : Node) (g : Nat) (peer_id : String) : Prop :=
  ∃ t, s.tasks[g]? = some t ∧ t.role = .handler peer_id

end Node

/-- Work outside the loops finds what it unwraps. -/
theorem finds_of_not_inLoop {s : Node} {w : Work} (hw : w.inLoop = false) : s.Finds w := by
  cases w with
  | writeMsg => exact absurd hw (by simp [Work.inLoop])
  | send g packet =>
    cases packet with
    | api event => trivial
    | rpc rpc => exact fun hrpc => absurd hw (by simpa [Work.inLoop] using hrpc)
  | sendAll gs rpc =>
    cases gs with
    | nil => trivial
    | cons g gs => exact absurd hw (by simp [Work.inLoop])
  | _ => trivial

/-! ## What a turn does to the tasks -/

/-- A task without its queues. -/
structure TaskCore where
  role : Role
  todo : List Work
  alive : Bool

def Task.core (t : Task) : TaskCore := ⟨t.role, t.todo, t.alive⟩

namespace Node

def core (s : Node) (u : Nat) : Option TaskCore := s.tasks[u]?.map Task.core

variable {s s' : Node} {u g : Nat}

theorem core_none_iff (s : Node) (v : Nat) : s.core v = none ↔ s.tasks.length ≤ v := by
  rw [Node.core, Option.map_eq_none_iff, List.getElem?_eq_none_iff]

theorem core_modify {f : Task → Task} (h : s'.tasks = s.tasks.modify u f) (v : Nat) :
    s'.core v = if v = u then s.tasks[u]?.map fun t => (f t).core else s.core v := by
  rw [core, h, List.getElem?_modify]
  by_cases hv : u = v
  · subst hv
    rw [if_pos rfl]
    cases s.tasks[u]? with
    | none => rfl
    | some t => simp
  · rw [if_neg fun h => hv h.symm, core]
    cases s.tasks[v]? with
    | none => rfl
    | some t => simp [hv]

theorem core_set {t t' : Task} (ht : s.tasks[u]? = some t) (h : s'.tasks = s.tasks.set u t')
    (hcore : t'.core = t.core) : s'.core = s.core := by
  funext v
  rw [core, core, h, List.getElem?_set]
  by_cases hv : u = v
  · subst hv
    rw [if_pos rfl, if_pos (List.getElem?_eq_some_iff.mp ht).1, ht]
    exact congrArg some hcore
  · rw [if_neg hv]

/-- Changing a task in nothing but its queues. -/
theorem core_queues {f : Task → Task} (h : s'.tasks = s.tasks.modify u f)
    (hf : ∀ t, (f t).core = t.core) : s'.core = s.core := by
  funext v
  rw [core_modify h]
  split
  · rename_i hv
    rw [hv, core]
    simp only [hf]
  · rfl

theorem core_proceed {c : TaskCore} (hc : s.core u = some c) {s₁ : Node} (h : s₁.core = s.core)
    (todo : List Work) : (s₁.proceed u todo).core =
      Function.update s.core u (some { c with todo }) := by
  rw [← h] at hc ⊢
  obtain ⟨t, ht, rfl⟩ := Option.map_eq_some_iff.mp hc
  funext v
  rw [core_modify rfl]
  by_cases hv : v = u
  · rw [if_pos hv, hv, Function.update_self, ht]
    rfl
  · rw [if_neg hv, Function.update_of_ne hv]

theorem core_stop {c : TaskCore} (hc : s.core u = some c) :
    (s.stop u).core = Function.update s.core u (some ⟨c.role, [], false⟩) := by
  obtain ⟨t, ht, rfl⟩ := Option.map_eq_some_iff.mp hc
  funext v
  rw [core_modify rfl]
  by_cases hv : v = u
  · rw [if_pos hv, hv, Function.update_self, ht]
    rfl
  · rw [if_neg hv, Function.update_of_ne hv]

theorem core_push (s : Node) (g : Nat) (packet : Packet) : (s.push g packet).core = s.core :=
  core_queues rfl fun _ => rfl

theorem handles_iff {peer_id : String} :
    s.Handles g peer_id ↔ ∃ c, s.core g = some c ∧ c.role = .handler peer_id := by
  unfold Handles core
  constructor
  · intro h
    obtain ⟨t, ht, hrole⟩ := h
    exact ⟨t.core, by rw [ht]; rfl, hrole⟩
  · intro h
    obtain ⟨c, hc, hrole⟩ := h
    obtain ⟨t, ht, rfl⟩ := Option.map_eq_some_iff.mp hc
    exact ⟨t, ht, hrole⟩

theorem ended_iff : s.ended u = true ↔ ∀ c, s.core u = some c → c.alive = false := by
  unfold ended core
  cases s.tasks[u]? with
  | none => simp
  | some t => simp [Task.core]

theorem todo_core : s.todo u = (s.core u).elim [] TaskCore.todo := by
  unfold todo core
  cases s.tasks[u]? with
  | none => rfl
  | some t => rfl

/-- The queue of a stream handler is gone exactly if the handler is over. -/
theorem room_place_iff {peer_id : String} (h : s.Handles g peer_id) :
    s.room (.place g) = none ↔ ¬ s.Running g := by
  obtain ⟨t, ht, hrole⟩ := h
  show (s.tasks[g]?).bind Task.room = none ↔ ¬ ∃ t, s.tasks[g]? = some t ∧ t.alive = true
  rw [ht, Option.bind_some, Task.room, hrole]
  cases halive : t.alive with
  | false => simp [halive]
  | true => simp [halive, Role.capacity]

end Node

/-- What a task still has to do when a piece of work is done. -/
inductive Continues (s : Node) (order : List String) (todo : List Work) : Work → List Work → Prop
  | publish {msg_forwarder_id : String} {msg : Message} :
      Continues s order todo (.publish msg_forwarder_id msg)
        (order.map (.writeMsg · { publish := [msg] }) ++ todo)
  | messageAllPeers {rpc : Rpc} (horder : ∀ p ∈ order, p ∈ s.fs.peers) :
      Continues s order todo (.messageAllPeers rpc)
        (.sendAll (order.filterMap fun peer => s.fs.peers.lookup peer) rpc :: todo)
  | writeMsg {peer_id : String} {rpc : Rpc} {g : Nat} (hg : s.fs.peers.lookup peer_id = some g) :
      Continues s order todo (.writeMsg peer_id rpc) (.send g (.rpc rpc) :: todo)
  | send {g : Nat} {rpc : Rpc} (hrpc : rpc.publish ≠ []) :
      Continues s order todo (.send g (.rpc rpc)) todo
  | sendAll {g : Nat} {gs : List Nat} {rpc : Rpc} :
      Continues s order todo (.sendAll (g :: gs) rpc) (.sendAll gs rpc :: todo)
  | other {w : Work} (hw : w.inLoop = false) (hselects : w.selects = false) (more : List Work)
      (hmore : ∀ w' ∈ more, w'.inLoop = false ∧ ∀ peer_id, w' ≠ .register peer_id) :
      Continues s order todo w (more ++ todo)

/-- What a piece of work does to the tasks and to the entries. -/
inductive Worked (s : Node) (u : Nat) (order : List String) (c : TaskCore) (w : Work)
    (todo : List Work) (s' : Node) : Prop
  | stopped (hcore : s'.core = Function.update s.core u (some ⟨c.role, [], false⟩))
      (hpeers : s'.fs.peers = s.fs.peers) (hw : w.inLoop = true → ¬ s.Finds w)
  | continued (todo' : List Work) (hcont : Continues s order todo w todo')
      (hcore : s'.core = Function.update s.core u (some { c with todo := todo' }))
      (hpeers : ∀ p g, s'.fs.peers.lookup p = some g →
        s.fs.peers.lookup p = some g ∨ w = .register p ∧ g = u)

section Worked

variable {s s' : Node} {u : Nat} {now : UInt64} {order : List String} {c : TaskCore} {w : Work}
  {todo : List Work}

theorem Worked.stop (hc : s.core u = some c) (hw : w.inLoop = true → ¬ s.Finds w) :
    Worked s u order c w todo (s.stop u) :=
  .stopped (Node.core_stop hc) rfl hw

/-- Work outside the loops that leaves the entries alone. -/
theorem Worked.other (hc : s.core u = some c) {s₁ : Node} (hcore : s₁.core = s.core)
    (hpeers : s₁.fs.peers = s.fs.peers) (hw : w.inLoop = false) (hselects : w.selects = false)
    (more : List Work)
    (hmore : ∀ w' ∈ more, w'.inLoop = false ∧ ∀ peer_id, w' ≠ .register peer_id) :
    Worked s u order c w todo (s₁.proceed u (more ++ todo)) := by
  refine .continued _ (.other hw hselects more hmore) (Node.core_proceed hc hcore _) ?_
  intro p g hg
  exact Or.inl (hpeers ▸ hg)

/-- The same, where no work is added. -/
theorem Worked.done (hc : s.core u = some c) {s₁ : Node} (hcore : s₁.core = s.core)
    (hpeers : s₁.fs.peers = s.fs.peers) (hw : w.inLoop = false) (hselects : w.selects = false) :
    Worked s u order c w todo (s₁.proceed u todo) :=
  .other hc hcore hpeers hw hselects [] fun _ h => absurd h List.not_mem_nil

theorem lookup_handleDeadPeers {p : String} {g : Nat} : ∀ (peer_ids : List String) (fs : FloodSub),
    (fs.handleDeadPeers peer_ids).peers.lookup p = some g → fs.peers.lookup p = some g := by
  intro peer_ids
  induction peer_ids with
  | nil => exact fun fs h => h
  | cons peer_id peer_ids ih =>
    intro fs h
    rw [FloodSub.handleDeadPeers] at h
    split at h
    · exact h
    · have hlookup := ih _ h
      dsimp only at hlookup
      by_cases hp : p = peer_id
      · rw [hp, AList.lookup_erase] at hlookup
        exact absurd hlookup (by simp)
      · rwa [AList.lookup_erase_ne hp] at hlookup

/-- **A piece of work** stops its task, or leaves it what comes next. -/
theorem perform_worked (hc : s.core u = some c)
    (hs : s.perform u now order todo w = some s') : Worked s u order c w todo s' := by
  cases w with
  | register peer_id =>
    obtain rfl := Option.some.inj hs
    refine .continued _ (.other rfl rfl [] (by simp)) (Node.core_proceed hc rfl _) ?_
    intro p g hg
    have hlookup : (s.fs.peers.insert peer_id u).lookup p = some g := hg
    by_cases hp : p = peer_id
    · rw [hp, AList.lookup_insert] at hlookup
      exact Or.inr ⟨by rw [hp], (Option.some.inj hlookup).symm⟩
    · rw [AList.lookup_insert_ne hp] at hlookup
      exact Or.inl hlookup
  | hello =>
    rw [Node.perform] at hs
    split at hs
    · obtain rfl := Option.some.inj hs
      exact .done hc rfl rfl rfl rfl
    · obtain rfl := Option.some.inj hs
      refine .other hc rfl rfl rfl rfl [_] fun w' hw' => ?_
      rw [List.mem_singleton.mp hw']
      exact ⟨rfl, by simp⟩
  | handleIncoming peer_id rpc =>
    obtain rfl := Option.some.inj hs
    refine .other hc rfl rfl rfl rfl (_ ++ _) fun w' hw' => ?_
    rcases List.mem_append.mp hw' with hw' | hw'
    · obtain ⟨msg, -, rfl⟩ := List.mem_map.mp hw'
      exact ⟨rfl, by simp⟩
    · obtain ⟨sub, -, rfl⟩ := List.mem_map.mp hw'
      exact ⟨rfl, by simp⟩
  | consumePubsubMsg msg_forwarder_id msg =>
    rw [Node.perform] at hs
    split at hs
    · obtain rfl := Option.some.inj hs
      exact .stop hc (by simp [Work.inLoop])
    · split at hs
      · obtain rfl := Option.some.inj hs
        exact .done hc rfl rfl rfl rfl
      · obtain rfl := Option.some.inj hs
        refine .other hc rfl rfl rfl rfl [_] fun w' hw' => ?_
        rw [List.mem_singleton.mp hw']
        exact ⟨rfl, by simp⟩
  | isMsgSeen msg_forwarder_id msg topics =>
    rw [Node.perform] at hs
    split at hs
    · obtain rfl := Option.some.inj hs
      exact .stop hc (by simp [Work.inLoop])
    · rename_i fs hseen
      obtain rfl := Option.some.inj hs
      exact .done hc rfl (isMsgSeen_frame hseen).store.peers rfl rfl
    · rename_i fs hseen
      obtain rfl := Option.some.inj hs
      rw [List.append_cons]
      refine .other hc ?_ (isMsgSeen_frame hseen).store.peers rfl rfl _ fun w' hw' => ?_
      · rfl
      rcases List.mem_append.mp hw' with hw' | hw'
      · obtain ⟨topic, -, rfl⟩ := List.mem_map.mp hw'
        exact ⟨rfl, by simp⟩
      · rw [List.mem_singleton.mp hw']
        exact ⟨rfl, by simp⟩
  | notifySubscription topic_id msg =>
    rw [Node.perform] at hs
    split at hs
    · obtain rfl := Option.some.inj hs
      exact .stop hc (by simp [Work.inLoop])
    · obtain rfl := Option.some.inj hs
      refine .other hc rfl rfl rfl rfl [_] fun w' hw' => ?_
      rw [List.mem_singleton.mp hw']
      exact ⟨rfl, by simp⟩
  | put c' item =>
    obtain rfl := Option.some.inj hs
    exact .done hc rfl rfl rfl rfl
  | publish msg_forwarder_id msg =>
    obtain ⟨-, hs⟩ := Option.ite_none_right_eq_some.mp hs
    obtain rfl := Option.some.inj hs
    exact .continued _ .publish (Node.core_proceed hc rfl _) fun p g hg => Or.inl hg
  | writeMsg peer_id rpc =>
    rw [Node.perform] at hs
    split at hs
    · rename_i hnone
      obtain rfl := Option.some.inj hs
      refine .stop hc fun _ hfound => ?_
      rw [FloodSub.writeMsg, AList.lookup_eq_none] at hnone
      exact hnone hfound
    · rename_i g hg
      obtain rfl := Option.some.inj hs
      exact .continued _ (.writeMsg hg) (Node.core_proceed hc rfl _) fun p g hg => Or.inl hg
  | send g packet =>
    obtain rfl := Option.some.inj hs
    have hcore := Node.core_proceed hc (Node.core_push s g packet) todo
    cases packet with
    | api event => exact .done hc (Node.core_push s g _) rfl rfl rfl
    | rpc rpc =>
      by_cases hrpc : rpc.publish = []
      · exact .done hc (Node.core_push s g _) rfl (by simp [Work.inLoop, hrpc]) rfl
      · exact .continued _ (.send hrpc) hcore fun p g hg => Or.inl hg
  | handleSubopts origin_id sub_msg =>
    rw [Node.perform] at hs
    split at hs
    · obtain rfl := Option.some.inj hs
      exact .stop hc (by simp [Work.inLoop])
    · rename_i fs hsub
      obtain rfl := Option.some.inj hs
      obtain ⟨-, -, hpeers, -⟩ := handleSubopts_spec hsub
      exact .done hc rfl hpeers rfl rfl
  | subscribe topic_id =>
    rw [Node.perform] at hs
    split at hs
    · obtain rfl := Option.some.inj hs
      exact .done hc rfl rfl rfl rfl
    · obtain rfl := Option.some.inj hs
      exact .other hc rfl rfl rfl rfl _ (by simp [Work.inLoop])
  | event =>
    obtain rfl := Option.some.inj hs
    exact .done hc rfl rfl rfl rfl
  | insertTopic topic_id =>
    obtain rfl := Option.some.inj hs
    exact .done hc rfl rfl rfl rfl
  | unsubscribe topics =>
    cases topics with
    | nil =>
      obtain rfl := Option.some.inj hs
      exact .done hc rfl rfl rfl rfl
    | cons topic_id topics =>
      rw [Node.perform] at hs
      split at hs
      · obtain rfl := Option.some.inj hs
        exact .done hc rfl rfl rfl rfl
      · obtain rfl := Option.some.inj hs
        exact .other hc rfl rfl rfl rfl _ (by simp [Work.inLoop])
  | removeTopic topic_id =>
    obtain rfl := Option.some.inj hs
    exact .done hc rfl rfl rfl rfl
  | messageAllPeers rpc =>
    obtain ⟨⟨-, horder⟩, hs⟩ := Option.ite_none_right_eq_some.mp hs
    obtain rfl := Option.some.inj hs
    refine .continued _ (.messageAllPeers fun p hp => ?_) (Node.core_proceed hc rfl _)
      fun p g hg => Or.inl hg
    rw [AList.mem_keys, ← List.mem_toFinset, ← horder]
    exact List.mem_toFinset.mpr hp
  | sendAll gs rpc =>
    cases gs with
    | nil =>
      obtain rfl := Option.some.inj hs
      exact .done hc rfl rfl rfl rfl
    | cons g gs =>
      obtain rfl := Option.some.inj hs
      exact .continued _ .sendAll (Node.core_proceed hc (Node.core_push s g _) _)
        fun p g hg => Or.inl hg
  | spawn =>
    obtain rfl := Option.some.inj hs
    exact .done hc rfl rfl rfl rfl
  | handleDeadPeers peer_ids =>
    obtain rfl := Option.some.inj hs
    exact .continued _ (.other rfl rfl [] (by simp)) (Node.core_proceed hc rfl _)
      fun p g hg => Or.inl (lookup_handleDeadPeers peer_ids s.fs hg)
  | exit =>
    obtain rfl := Option.some.inj hs
    exact .stop hc (by simp [Work.inLoop])

end Worked

/-- What a turn does to the tasks when none goes on with its work. -/
inductive Elsewhere (s s' : Node) : Prop
  | same (hcore : s'.core = s.core)
  | spawned (c : TaskCore)
      (hcore : s'.core = Function.update s.core s.tasks.length (some c))
      (htodo : ∀ w ∈ c.todo, w.inLoop = false)
      (hregister : ∀ peer_id, .register peer_id ∈ c.todo → c.role = .handler peer_id)
  | begun (u : Nat) (c : TaskCore) (todo : List Work) (hc : s.core u = some c)
      (hidle : c.todo = []) (hcore : s'.core = Function.update s.core u (some { c with todo }))
      (htodo : ∀ w ∈ todo, w.inLoop = false ∧ ∀ peer_id, w ≠ .register peer_id)
  | stopped (u : Nat) (c : TaskCore) (hc : s.core u = some c) (halive : c.alive = true)
      (hhead : ∀ w ∈ c.todo.head?, w.inLoop = false)
      (hcore : s'.core = Function.update s.core u (some ⟨c.role, [], false⟩))

section Elsewhere

variable {s s' : Node}

theorem core_spawn (s : Node) (t : Task) :
    Node.core { s with tasks := s.tasks ++ [t] } =
      Function.update s.core s.tasks.length (some t.core) := by
  funext v
  rw [Node.core, List.getElem?_append]
  split
  · rename_i hlt
    rw [Function.update_of_ne (Nat.ne_of_lt hlt)]
    rfl
  · rename_i hle
    by_cases hv : v = s.tasks.length
    · rw [hv, Function.update_self, Nat.sub_self]
      rfl
    · rw [Function.update_of_ne hv, Node.core]
      have hnone : ∀ ts : List Task, ts.length ≤ v → ts[v]? = none :=
        fun ts h => List.getElem?_eq_none h
      rw [hnone s.tasks (by omega), List.getElem?_eq_none (by rw [List.length_singleton]; omega)]

theorem core_of_idle {u : Nat} {t : Task} (h : s.idle u = some t) :
    s.core u = some t.core ∧ t.alive = true ∧ t.todo = [] := by
  obtain ⟨ht, hp⟩ := Option.filter_eq_some_iff.mp h
  obtain ⟨halive, htodo, -⟩ := of_decide_eq_true hp
  refine ⟨?_, halive, htodo⟩
  rw [Node.core, ht]
  rfl

theorem idle_of_handler {h : Nat} {peer_id : String} (hh : s.idleHandler h = some peer_id) :
    ∃ t, s.idle h = some t := by
  unfold Node.idleHandler at hh
  split at hh
  · rename_i t ht
    exact ⟨t, ht⟩
  · exact absurd hh (by simp)

/-- A task in its loop gets something to do. -/
theorem Elsewhere.begin {u : Nat} {t : Task} (h : s.idle u = some t) {s₁ : Node}
    (hcore : s₁.core = s.core) (todo : List Work)
    (htodo : ∀ w ∈ todo, w.inLoop = false ∧ ∀ peer_id, w ≠ .register peer_id) :
    Elsewhere s (s₁.proceed u todo) := by
  obtain ⟨hc, -, hidle⟩ := core_of_idle h
  exact .begun u t.core todo hc hidle (Node.core_proceed hc hcore todo) htodo

theorem step_elsewhere {a : NodeAct} (hgo : ∀ u now order, a ≠ .go u now order)
    (hs : s.step a = some s') : Elsewhere s s' := by
  cases a with
  | go u now order => exact absurd rfl (hgo u now order)
  | newPeer peer_id =>
    obtain rfl := Option.some.inj hs
    refine .spawned _ (core_spawn s _) (by simp [Task.core, Work.inLoop]) fun p hp => ?_
    simp only [Task.core, List.mem_cons, Work.register.injEq, List.not_mem_nil, or_false,
      reduceCtorEq] at hp
    rw [hp]
    rfl
  | subscribe topic_id =>
    obtain rfl := Option.some.inj hs
    exact .spawned _ (core_spawn s _) (by simp [Task.core, Work.inLoop]) (by simp [Task.core])
  | unsubscribe topics =>
    obtain rfl := Option.some.inj hs
    exact .spawned _ (core_spawn s _) (by simp [Task.core, Work.inLoop]) (by simp [Task.core])
  | apiSend event =>
    simp only [Node.step] at hs
    split at hs
    · obtain rfl := Option.some.inj hs
      exact .same (Node.core_push s 0 _)
    · obtain rfl := Option.some.inj hs
      exact .same (Node.core_push s 0 _)
    · exact absurd hs (by simp)
  | read h rpc =>
    simp only [Node.step] at hs
    split at hs
    · rename_i peer_id hh
      obtain ⟨t, hidle⟩ := idle_of_handler hh
      obtain rfl := Option.some.inj hs
      exact .begin hidle rfl _ (by simp [Work.inLoop])
    · exact absurd hs (by simp)
  | streamEnd h =>
    simp only [Node.step] at hs
    split at hs
    · rename_i peer_id hh
      obtain ⟨t, hidle⟩ := idle_of_handler hh
      obtain rfl := Option.some.inj hs
      exact .begin hidle rfl _ (by simp [Work.inLoop])
    · exact absurd hs (by simp)
  | undecodable h =>
    obtain ⟨peer_id, hh, rfl⟩ := Option.map_eq_some_iff.mp hs
    obtain ⟨t, hidle⟩ := idle_of_handler hh
    obtain ⟨hc, halive, htodo⟩ := core_of_idle hidle
    refine .stopped h t.core hc halive ?_ (Node.core_stop hc)
    show ∀ w ∈ t.todo.head?, _
    rw [htodo]
    simp
  | recv u =>
    simp only [Node.step] at hs
    split at hs
    · rename_i t hidle
      split at hs
      · exact absurd hs (by simp)
      · obtain rfl := Option.some.inj hs
        exact .same (Node.core_set (Option.filter_eq_some_iff.mp hidle).1 rfl rfl)
    · exact absurd hs (by simp)
  | write h =>
    simp only [Node.step] at hs
    split at hs
    · rename_i t hh hidle
      split at hs
      · exact absurd hs (by simp)
      · obtain rfl := Option.some.inj hs
        exact .same (Node.core_set (Option.filter_eq_some_iff.mp hidle).1 rfl rfl)
    · exact absurd hs (by simp)
  | apiNext now =>
    simp only [Node.step] at hs
    split at hs
    · rename_i t hidle
      split at hs
      · rename_i event rest hq
        obtain rfl := Option.some.inj hs
        have hset : Node.core { s with tasks := s.tasks.set 0 { t with notification := rest } } =
            s.core := Node.core_set (Option.filter_eq_some_iff.mp hidle).1 rfl rfl
        refine .begin hidle hset _ fun w hw => ?_
        rw [List.mem_singleton.mp hw]
        cases event with
        | deadPeers | unsubscribe | publish => exact ⟨rfl, by simp⟩
      · exact absurd hs (by simp)
    · exact absurd hs (by simp)
  | ask u =>
    simp only [Node.step] at hs
    split at hs
    · obtain ⟨-, hs⟩ := Option.ite_none_right_eq_some.mp hs
      obtain rfl := Option.some.inj hs
      exact .same (Node.core_queues rfl fun _ => rfl)
    · exact absurd hs (by simp)
  | eventGone u =>
    obtain ⟨hnext, hs⟩ := Option.ite_none_right_eq_some.mp hs
    obtain rfl := Option.some.inj hs
    obtain ⟨t, ht, hhead⟩ := Option.bind_eq_some_iff.mp hnext
    obtain ⟨halive, hhead⟩ := Option.ite_none_right_eq_some.mp hhead
    have hc : s.core u = some t.core := by
      rw [Node.core, ht]
      rfl
    refine .stopped u t.core hc halive (fun w hw => ?_) (Node.core_stop hc)
    obtain rfl := Option.some.inj (hhead.symm.trans hw)
    rfl
  | topicRecv c =>
    simp only [Node.step] at hs
    split at hs
    · split at hs
      · obtain rfl := Option.some.inj hs
        exact .same rfl
      · exact absurd hs (by simp)
    · exact absurd hs (by simp)
  | loopGone c =>
    simp only [Node.step] at hs
    split at hs
    · obtain ⟨-, hs⟩ := Option.ite_none_right_eq_some.mp hs
      obtain rfl := Option.some.inj hs
      exact .same rfl
    · exact absurd hs (by simp)

end Elsewhere

/-! ## The store and the channels -/

section Store

variable {s s' : Node}

theorem handOver_topic (ch : TopicChannel) (u : Nat) (reader : Reader) :
    (ch.handOver u reader).topic = ch.topic := by
  unfold TopicChannel.handOver
  split
  · rfl
  · rfl

theorem names_handOver (topics : List TopicChannel) (u : Nat) (reader : Reader) :
    (topics.map fun ch => ch.handOver u reader).map (·.topic) = topics.map (·.topic) := by
  rw [List.map_map]
  exact List.map_congr_left fun ch _ => handOver_topic ch u reader

theorem names_set {topics : List TopicChannel} {c : Nat} {ch ch' : TopicChannel}
    (hc : topics[c]? = some ch) (hname : ch'.topic = ch.topic) :
    (topics.set c ch').map (·.topic) = topics.map (·.topic) := by
  apply List.ext_getElem?
  intro i
  rw [List.getElem?_map, List.getElem?_map, List.getElem?_set]
  by_cases hi : c = i
  · subst hi
    rw [if_pos rfl, if_pos (List.getElem?_eq_some_iff.mp hc).1, hc]
    exact congrArg some hname
  · rw [if_neg hi]

/-- What is not a task going on leaves the store and the channels' topics alone. -/
theorem step_store {a : NodeAct} (hgo : ∀ u now order, a ≠ .go u now order)
    (hs : s.step a = some s') :
    s'.fs = s.fs ∧ s'.topics.map (·.topic) = s.topics.map (·.topic) := by
  cases a with
  | go u now order => exact absurd rfl (hgo u now order)
  | newPeer | subscribe | unsubscribe =>
    obtain rfl := Option.some.inj hs
    exact ⟨rfl, rfl⟩
  | apiSend event =>
    simp only [Node.step] at hs
    split at hs
    · obtain rfl := Option.some.inj hs
      exact ⟨rfl, rfl⟩
    · obtain rfl := Option.some.inj hs
      exact ⟨rfl, rfl⟩
    · exact absurd hs (by simp)
  | read h rpc | streamEnd h =>
    simp only [Node.step] at hs
    split at hs
    · obtain rfl := Option.some.inj hs
      exact ⟨rfl, rfl⟩
    · exact absurd hs (by simp)
  | undecodable h =>
    obtain ⟨peer_id, -, rfl⟩ := Option.map_eq_some_iff.mp hs
    exact ⟨rfl, names_handOver s.topics h .gone⟩
  | recv u =>
    simp only [Node.step] at hs
    split at hs
    · split at hs
      · exact absurd hs (by simp)
      · obtain rfl := Option.some.inj hs
        exact ⟨rfl, rfl⟩
    · exact absurd hs (by simp)
  | write h =>
    simp only [Node.step] at hs
    split at hs
    · split at hs
      · exact absurd hs (by simp)
      · obtain rfl := Option.some.inj hs
        exact ⟨rfl, rfl⟩
    · exact absurd hs (by simp)
  | apiNext now =>
    simp only [Node.step] at hs
    split at hs
    · split at hs
      · obtain rfl := Option.some.inj hs
        exact ⟨rfl, rfl⟩
      · exact absurd hs (by simp)
    · exact absurd hs (by simp)
  | ask u =>
    simp only [Node.step] at hs
    split at hs
    · obtain ⟨-, hs⟩ := Option.ite_none_right_eq_some.mp hs
      obtain rfl := Option.some.inj hs
      exact ⟨rfl, rfl⟩
    · exact absurd hs (by simp)
  | eventGone u =>
    obtain ⟨-, hs⟩ := Option.ite_none_right_eq_some.mp hs
    obtain rfl := Option.some.inj hs
    exact ⟨rfl, names_handOver s.topics u .gone⟩
  | topicRecv c =>
    simp only [Node.step] at hs
    split at hs
    · rename_i ch hc
      split at hs
      · obtain rfl := Option.some.inj hs
        exact ⟨rfl, names_set hc rfl⟩
      · exact absurd hs (by simp)
    · exact absurd hs (by simp)
  | loopGone c =>
    simp only [Node.step] at hs
    split at hs
    · rename_i ch hc
      obtain ⟨-, hs⟩ := Option.ite_none_right_eq_some.mp hs
      obtain rfl := Option.some.inj hs
      exact ⟨rfl, names_set hc rfl⟩
    · exact absurd hs (by simp)

end Store

end Rnet.Floodsub
