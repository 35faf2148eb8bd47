import Rnet.Floodsub.Registry
import Rnet.Floodsub.Hello

/-!
# The tasks of a floodsub node

The internal API loop, a stream handler for every floodsub stream and the calls of the
node's owner are tasks over one store lock and bounded queues. A task is what it still has
to do before it is back in its `select!` loop or returns, one item up to the next
`await`. It takes something off its own queue only in that loop.

What a task asks for is a place: the lock has one, a queue as many as its capacity. The queue of
a topic is read by `receive_loop`, which `subscribe` spawns only after it has messaged
all peers.

The lock of the message cache is left out, for nothing is awaited under it, and so are the
receivers of global events and the streams below, which belong to other parts of a node.
-/

namespace Rnet.Floodsub

open Rnet.Lib

/-! ## The tasks -/

/-- `Rpc` of the floodsub schema. -/
structure Rpc where
  publish : List Message := []
  subscriptions : List SubOpts := []
  deriving DecidableEq, Repr

/-- What a queue carries. -/
inductive Packet
  | rpc (rpc : Rpc)
  | api (event : ApiEvent)
  deriving DecidableEq, Repr

/-- What a task may have to wait for. -/
inductive Resource
  /-- `floodsub_store` -/
  | lock
  /-- a place on the queue that task `g` drains -/
  | place (g : Nat)
  /-- a place in the `c`th channel of a topic -/
  | topic (c : Nat)
  deriving DecidableEq, Repr

/-- A piece of a task that runs without an `await`, after the one it starts with. -/
inductive Work
  /-- `handle_new_peer`: the insertion into `peers` -/
  | register (peer_id : String)
  /-- `get_hello_packet` -/
  | hello
  | handleIncoming (peer_id : String) (rpc : Rpc)
  | consumePubsubMsg (msg_forwarder_id : String) (msg : Message)
  | isMsgSeen (msg_forwarder_id : String) (msg : Message) (subscribed_topics : List String)
  | notifySubscription (topic_id : String) (msg : Message)
  /-- the send of `notify_subscription` -/
  | put (c : Nat) (item : List UInt8 × List UInt8)
  /-- `publish`, up to the writes -/
  | publish (msg_forwarder_id : String) (msg : Message)
  | writeMsg (peer_id : String) (rpc : Rpc)
  | send (g : Nat) (packet : Packet)
  | handleSubopts (origin_id : String) (sub_msg : SubOpts)
  | subscribe (topic_id : String)
  /-- the send on `global_event_tx` -/
  | event
  | insertTopic (topic_id : String)
  /-- the rest of the loop of `unsubscribe` -/
  | unsubscribe (topics : List String)
  | removeTopic (topic_id : String)
  | messageAllPeers (rpc : Rpc)
  /-- the loop of `message_all_peers`, under the lock -/
  | sendAll (gs : List Nat) (rpc : Rpc)
  /-- `receive_loop` is spawned -/
  | spawn
  | handleDeadPeers (peer_ids : List String)
  /-- `stream_handler` returns -/
  | exit
  deriving DecidableEq, Repr

/-- What a piece of work awaits. -/
def Work.wants : Work → Option Resource
  | isMsgSeen .. | event | unsubscribe [] | sendAll [] _ | spawn | exit => none
  | send g _ | sendAll (g :: _) _ => some (.place g)
  | put c _ => some (.topic c)
  | _ => some .lock

inductive Role
  /-- `handle_internal_api` -/
  | internalApi
  /-- `stream_handler` -/
  | handler (peer_id : String)
  /-- a call of `subscribe` or `unsubscribe` -/
  | call
  deriving DecidableEq, Repr

/-- The capacity of the queue that a task drains. -/
def Role.capacity : Role → Option Nat
  | internalApi => some 300
  | handler _ => some 100
  | call => none

structure Task where
  role : Role
  /-- `[]` in the `select!` loop, and when a call has returned -/
  todo : List Work := []
  /-- the first piece of work has been polled and found nothing -/
  asked : Bool := false
  queue : List Packet := []
  notification : List Packet := []
  alive : Bool := true
  deriving DecidableEq, Repr

/-- What the task waits for once it is there. -/
def Task.asks (t : Task) : Option Resource :=
  if t.alive && t.asked then t.todo.head?.bind Work.wants else none

/-- The free places on the task's queue; `none` when the receiver is gone. -/
def Task.room (t : Task) : Option Nat :=
  if t.alive then t.role.capacity.map (· - t.queue.length) else none

/-- Who reads the channel of a topic. -/
inductive Reader
  /-- nobody before call `u` spawns `receive_loop` -/
  | call (u : Nat)
  | receiveLoop
  | gone
  deriving DecidableEq, Repr

/-- The channel that `subscribe` makes for a topic. -/
structure TopicChannel where
  topic : String
  queue : List (List UInt8 × List UInt8) := []
  reader : Reader
  deriving DecidableEq, Repr

/-- The free places in the channel. -/
def TopicChannel.room (ch : TopicChannel) : Option Nat :=
  if ch.reader = .gone then none else some (100 - ch.queue.length)

/-- The task without which the channel is not read. -/
def TopicChannel.server (ch : TopicChannel) : Option Nat :=
  match ch.reader with
  | .call u => some u
  | _ => none

/-- The receiver that call `u` has for a topic goes to someone else. -/
def TopicChannel.handOver (ch : TopicChannel) (u : Nat) (reader : Reader) : TopicChannel :=
  if ch.reader = .call u then { ch with reader := reader } else ch

/-- A floodsub node with its tasks; task `0` is the internal API loop. -/
structure Node where
  fs : FloodSub
  tasks : List Task := [{ role := .internalApi }]
  topics : List TopicChannel := []
  /-- the task that holds the lock across an `await` -/
  lock : Option Nat := none

/-! ## Places -/

namespace Node

/-- The free places of a resource. -/
def room (s : Node) : Resource → Option Nat
  | .lock => some (if s.lock = none then 1 else 0)
  | .place g => s.tasks[g]?.bind Task.room
  | .topic c => s.topics[c]?.bind TopicChannel.room

/-- Who gives places of a resource back. -/
def server (s : Node) : Resource → Option Nat
  | .lock => s.lock
  | .place g => some g
  | .topic c => s.topics[c]?.bind TopicChannel.server

/-- Who has to go on before there is a place again. -/
def blocker (s : Node) (r : Resource) : Option Nat :=
  if s.room r = some 0 then s.server r else none

/-- What task `u` waits for. -/
def asks (s : Node) (u : Nat) : Option Resource := s.tasks[u]?.bind Task.asks

/-- The work of task `u` that comes next. -/
def next (s : Node) (u : Nat) : Option Work := s.tasks[u]?.bind fun t =>
  if t.alive then t.todo.head? else none

/-! ## The turns -/

/-- Task `u` has done a piece of work. -/
def proceed (s : Node) (u : Nat) (todo : List Work) : Node :=
  { s with tasks := s.tasks.modify u fun t => { t with todo := todo, asked := false } }

def push (s : Node) (g : Nat) (packet : Packet) : Node :=
  { s with tasks := s.tasks.modify g fun t => { t with queue := t.queue ++ [packet] } }

def put (s : Node) (c : Nat) (item : List UInt8 × List UInt8) : Node :=
  { s with topics := s.topics.modify c fun ch => { ch with queue := ch.queue ++ [item] } }

/-- Task `u` ends or panics: what it holds is dropped. -/
def stop (s : Node) (u : Nat) : Node := { s with
  tasks := s.tasks.modify u fun t => { t with alive := false, todo := [] }
  topics := s.topics.map fun ch => ch.handOver u .gone
  lock := if s.lock = some u then none else s.lock }

/-- The insertion of `subscribe`, with a new channel for the topic. -/
def insertTopic (s : Node) (u : Nat) (topic_id : String) : Node := { s with
  fs := { s.fs with subscribedTopicApi := s.fs.subscribedTopicApi.insert topic_id [] }
  topics := s.topics ++ [{ topic := topic_id, reader := .call u }] }

/-- `receive_loop` is spawned at the end of `subscribe`. -/
def spawn (s : Node) (u : Nat) : Node :=
  { s with topics := s.topics.map fun ch => ch.handOver u .receiveLoop }

/-- The channel whose sender the store has for a topic: the one made last. -/
def sender (s : Node) (topic_id : String) : Option Nat :=
  if topic_id ∈ s.fs.subscribedTopicApi then
    (List.range s.topics.length).reverse.find? fun c => (s.topics[c]?).any (·.topic = topic_id)
  else none

/-- Task `u` does a piece of work for which there is a place. Hash maps and sets are walked
through in some `order`. -/
def perform (s : Node) (u : Nat) (now : UInt64) (order : List String) (todo : List Work) :
    Work → Option Node
  | .register peer_id => some ({ s with fs := s.fs.handleNewPeer peer_id u }.proceed u todo)
  | .hello =>
    match s.fs.getSubscribedTopics with
    | none => some (s.proceed u todo)
    | some topics =>
      some (s.proceed u (.send u (.rpc { subscriptions := topics.map (subOpts true) }) :: todo))
  | .handleIncoming peer_id rpc =>
    let subscribed_topics := s.fs.getSubscribedTopics.getD []
    let wanted := rpc.publish.filter fun msg => msg.topicIds.any (· ∈ subscribed_topics)
    some (s.proceed u (wanted.map (.consumePubsubMsg peer_id) ++
      rpc.subscriptions.map (.handleSubopts peer_id) ++ todo))
  | .consumePubsubMsg msg_forwarder_id msg =>
    match s.fs.getSubscribedTopics with
    | none => some (s.stop u)
    | some subscribed_topics =>
      if fromUtf8Lossy (msg.from_.getD []) = s.fs.localPeerId then some (s.proceed u todo)
      else some (s.proceed u (.isMsgSeen msg_forwarder_id msg subscribed_topics :: todo))
  | .isMsgSeen msg_forwarder_id msg subscribed_topics =>
    match s.fs.isMsgSeen msg now with
    | none => some (s.stop u)
    | some (fs, true) => some ({ s with fs := fs }.proceed u todo)
    | some (fs, false) =>
      let notified := msg.topicIds.filter (· ∈ subscribed_topics)
      some ({ s with fs := fs }.proceed u (notified.map (Work.notifySubscription · msg) ++
        Work.publish msg_forwarder_id msg :: todo))
  | .notifySubscription topic_id msg =>
    match s.sender topic_id with
    | none => some (s.stop u)
    | some c => some (s.proceed u (.put c (msg.data.getD [], msg.from_.getD []) :: todo))
  | .put c item => some ((s.put c item).proceed u todo)
  | .publish msg_forwarder_id msg =>
    if order.Nodup ∧ order.toFinset = s.fs.publishPeers msg_forwarder_id msg then
      some (s.proceed u (order.map (.writeMsg · { publish := [msg] }) ++ todo))
    else none
  | .writeMsg peer_id rpc =>
    match s.fs.writeMsg peer_id with
    | none => some (s.stop u)
    | some g => some (s.proceed u (.send g (.rpc rpc) :: todo))
  | .send g packet => some ((s.push g packet).proceed u todo)
  | .handleSubopts origin_id sub_msg =>
    match s.fs.handleSubopts origin_id sub_msg with
    | none => some (s.stop u)
    | some fs => some ({ s with fs := fs }.proceed u todo)
  | .subscribe topic_id =>
    if topic_id ∈ s.fs.getSubscribedTopics.getD [] then some (s.proceed u todo)
    else some (s.proceed u ([.event, .insertTopic topic_id,
      .messageAllPeers { subscriptions := [subOpts true topic_id] }, .spawn] ++ todo))
  | .event => some (s.proceed u todo)
  | .insertTopic topic_id => some ((s.insertTopic u topic_id).proceed u todo)
  | .unsubscribe [] => some (s.proceed u todo)
  | .unsubscribe (topic_id :: topics) =>
    if topic_id ∉ s.fs.getSubscribedTopics.getD [] then some (s.proceed u todo)
    else some (s.proceed u ([.event, .removeTopic topic_id,
      .messageAllPeers { subscriptions := [subOpts false topic_id] }, .unsubscribe topics] ++ todo))
  | .removeTopic topic_id =>
    some ({ s with
      fs := { s.fs with subscribedTopicApi := s.fs.subscribedTopicApi.erase topic_id } }.proceed u
      todo)
  | .messageAllPeers rpc =>
    if order.Nodup ∧ order.toFinset = s.fs.peers.keys.toFinset then
      some ({ s with lock := some u }.proceed u
        (.sendAll (order.filterMap fun peer => s.fs.peers.lookup peer) rpc :: todo))
    else none
  | .sendAll [] _ => some ({ s with lock := none }.proceed u todo)
  | .sendAll (g :: gs) rpc => some ((s.push g (.rpc rpc)).proceed u (.sendAll gs rpc :: todo))
  | .spawn => some ((s.spawn u).proceed u todo)
  | .handleDeadPeers peer_ids =>
    some ({ s with fs := s.fs.handleDeadPeers peer_ids }.proceed u todo)
  | .exit => some (s.stop u)

/-- Task `u` goes on: there is a place, or it finds the receiver gone and panics. -/
def go (s : Node) (u : Nat) (now : UInt64) (order : List String) : Option Node :=
  match s.tasks[u]? with
  | none => none
  | some t =>
    match t.alive, t.todo with
    | true, w :: todo =>
      match w.wants with
      | none => s.perform u now order todo w
      | some r =>
        match s.room r with
        | none => some (s.stop u)
        | some 0 => none
        | some (_ + 1) => s.perform u now order todo w
    | _, _ => none

/-- Task `u` in its `select!` loop. -/
def idle (s : Node) (u : Nat) : Option Task :=
  (s.tasks[u]?).filter fun t => t.alive ∧ t.todo = [] ∧ t.role ≠ .call

/-- The peer of stream handler `h`, in its loop. -/
def idleHandler (s : Node) (h : Nat) : Option String :=
  match s.idle h with
  | some t =>
    match t.role with
    | .handler peer_id => some peer_id
    | _ => none
  | none => none

end Node

/-- One turn of one task. -/
inductive NodeAct
  /-- a floodsub stream to a peer is opened, from either side -/
  | newPeer (peer_id : String)
  | subscribe (topic_id : String)
  | unsubscribe (topics : List String)
  /-- the node's owner or a subscription sends to the internal API -/
  | apiSend (event : ApiEvent)
  /-- stream handler `h` reads an RPC -/
  | read (h : Nat) (rpc : Rpc)
  /-- what stream handler `h` reads does not decode -/
  | undecodable (h : Nat)
  /-- stream handler `h` fails to read or to write -/
  | streamEnd (h : Nat)
  /-- task `u` drains its queue -/
  | recv (u : Nat)
  /-- stream handler `h` writes to its stream -/
  | write (h : Nat)
  /-- the internal API loop handles the next event -/
  | apiNext (now : UInt64)
  /-- task `u` polls its next piece of work for the first time, and there is no place -/
  | ask (u : Nat)
  | go (u : Nat) (now : UInt64) (order : List String)
  /-- task `u` finds the receiver of the global events gone, and panics -/
  | eventGone (u : Nat)
  /-- the `receive_loop` of a topic receives -/
  | topicRecv (c : Nat)
  /-- the `receive_loop` of a topic finds the receiver of the global events gone -/
  | loopGone (c : Nat)
  deriving DecidableEq

namespace Node

/-- One turn of one task. -/
def step (s : Node) : NodeAct → Option Node
  | .newPeer peer_id =>
    some { s with
      tasks := s.tasks ++ [{ role := .handler peer_id, todo := [.register peer_id, .hello] }] }
  | .subscribe topic_id =>
    some { s with tasks := s.tasks ++ [{ role := .call, todo := [.subscribe topic_id] }] }
  | .unsubscribe topics =>
    some { s with tasks := s.tasks ++ [{ role := .call, todo := [.unsubscribe topics] }] }
  | .apiSend event =>
    match s.room (.place 0), event with
    | some (_ + 1), .publish .. | some (_ + 1), .unsubscribe _ => some (s.push 0 (.api event))
    | _, _ => none
  | .read h rpc =>
    match s.idleHandler h with
    | some peer_id => some (s.proceed h [.handleIncoming peer_id rpc])
    | none => none
  | .undecodable h => (s.idleHandler h).map fun _ => s.stop h
  | .streamEnd h =>
    match s.idleHandler h with
    | some peer_id => some (s.proceed h [.send 0 (.api (.deadPeers [peer_id])), .exit])
    | none => none
  | .recv u =>
    match s.idle u with
    | some t =>
      match t.queue with
      | [] => none
      | packet :: rest =>
        some { s with tasks := s.tasks.set u { t with
          queue := rest
          notification := t.notification ++ [packet] } }
    | none => none
  | .write h =>
    match s.idleHandler h, s.idle h with
    | some _, some t =>
      match t.notification with
      | [] => none
      | _ :: rest => some { s with tasks := s.tasks.set h { t with notification := rest } }
    | _, _ => none
  | .apiNext now =>
    match s.idle 0 with
    | some t =>
      match t.notification with
      | .api event :: rest =>
        let work : Work := match event with
          | .deadPeers peer_ids => .handleDeadPeers peer_ids
          | .unsubscribe topics => .unsubscribe topics
          | .publish topics data =>
            .publish s.fs.localPeerId (s.fs.publishMessage data topics now)
        some ({ s with tasks := s.tasks.set 0 { t with notification := rest } }.proceed 0 [work])
      | _ => none
    | none => none
  | .ask u =>
    match s.next u with
    | some w =>
      if s.asks u = none ∧ w.wants.bind s.room = some 0 then
        some { s with tasks := s.tasks.modify u fun t => { t with asked := true } }
      else none
    | none => none
  | .go u now order => s.go u now order
  | .eventGone u => if s.next u = some .event then some (s.stop u) else none
  | .topicRecv c =>
    match s.topics[c]? with
    | some ch =>
      match ch.reader, ch.queue with
      | .receiveLoop, _ :: rest =>
        some { s with topics := s.topics.set c { ch with queue := rest } }
      | _, _ => none
    | none => none
  | .loopGone c =>
    match s.topics[c]? with
    | some ch =>
      if ch.reader = .receiveLoop then
        some { s with topics := s.topics.set c { ch with reader := .gone } }
      else none
    | none => none

end Node

/-- A node from its start on. -/
def node (localPeerId : String) : System Node NodeAct where
  init := fun s => s = { fs := { localPeerId } }
  step := Node.step

/-! ## What a turn is -/

namespace Node

/-- Task `u` is over. -/
def ended (s : Node) (u : Nat) : Bool := (s.tasks[u]?).all fun t => !t.alive

/-- What task `u` still has to do. -/
def todo (s : Node) (u : Nat) : List Work := (s.tasks[u]?).elim [] Task.todo

variable {s s' : Node} {u : Nat} {now : UInt64} {order : List String} {t : Task} {w : Work}
  {todo : List Work}

/-- **A task goes on** with its next piece of work: it finds the receiver gone, or there is a
place. -/
inductive Goes (s : Node) (u : Nat) (now : UInt64) (order : List String) (w : Work)
    (todo : List Work) (s' : Node) : Prop
  | refused (r : Resource) (hw : w.wants = some r) (hroom : s.room r = none) (hs : s' = s.stop u)
  | performed (hroom : ∀ r, w.wants = some r → ∃ n, s.room r = some (n + 1))
      (hs : s.perform u now order todo w = some s')

theorem go_cases (hs : s.go u now order = some s') : ∃ t w todo, s.tasks[u]? = some t ∧
    t.alive = true ∧ t.todo = w :: todo ∧ Goes s u now order w todo s' := by
  rw [go] at hs
  split at hs
  · exact absurd hs (by simp)
  rename_i t ht
  split at hs
  swap
  · exact absurd hs (by simp)
  rename_i w todo halive htodo
  refine ⟨t, w, todo, ht, halive, htodo, ?_⟩
  cases hw : w.wants with
  | none =>
    rw [hw] at hs
    exact .performed (by simp [hw]) hs
  | some r =>
    rw [hw] at hs
    dsimp only at hs
    split at hs
    · rename_i hroom
      exact .refused r hw hroom (Option.some.inj hs).symm
    · exact absurd hs (by simp)
    · rename_i n hroom
      refine .performed (fun r' hr' => ⟨n, ?_⟩) hs
      obtain rfl := Option.some.inj (hw.symm.trans hr')
      exact hroom

theorem next_of_todo (ht : s.tasks[u]? = some t) (halive : t.alive = true)
    (htodo : t.todo = w :: todo) : s.next u = some w := by
  simp [next, ht, halive, htodo]

end Node

end Rnet.Floodsub
