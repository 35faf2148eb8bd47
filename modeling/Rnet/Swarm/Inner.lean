import Rnet.Identity.Multiaddr
import Rnet.Mplex.Conn
import Rnet.Lib.System

/-!
# The swarm and its connection tasks: `swarm/src/inner.rs`

`SwarmInner` is one loop that accepts connections and handles commands, with the maps
`connections` and `peer_store`. Every connection has a task that runs `conn_handler` on its
`MplexConn`, and a connection over UDP also one that checks its liveliness. A task that
leaves its loop because `raw_conn.read()` failed tells the swarm; the other ways to
end do not.

A panic in the loop drops `SwarmInner`, so `connections` is gone and the command queue
is closed, while the peer store, which the node shares, stays as it is.
-/

namespace Rnet.Swarm

open Rnet.Identity Rnet.Mplex Rnet.Lib

/-- `SwarmMpscTxFlag` with its payload. A `Disconnect` comes from the application (`none`) or
from the task of a connection; the frame has the peer id only. -/
inductive Command
  | connect (maddr : Multiaddr)
  | newStream (maddr : Multiaddr) (protocols : List Payload)
  | disconnect (peer_id : String) (origin : Option Nat)
  deriving DecidableEq

/-- The notification that a command carries: the peer, and the connection that ended. -/
def Command.notice : Command → Option (String × Nat)
  | .disconnect peer_id (some i) => some (peer_id, i)
  | _ => none

/-- The task of a connection. -/
structure ConnTask (κ : Type) where
  remotePeer : PeerInfo
  conn : MplexConn κ
  /-- the loop of `conn_handler` was left for the notification, and `conn` is about to go -/
  left : Bool := false
  /-- how often the task has called `on_disconnect` -/
  notices : Nat := 0

/-- The loop of `conn_handler` runs. -/
def ConnTask.Looping {κ : Type} (t : ConnTask κ) : Prop := t.conn.running = true ∧ t.left = false

instance {κ : Type} (t : ConnTask κ) : Decidable t.Looping :=
  inferInstanceAs (Decidable (_ ∧ _))

/-- `SwarmInner`, its command queue and the tasks of the connections it has made. -/
structure SwarmInner (κ : Type) where
  pingCheckOpt : Bool
  handlers : List String
  /-- the loop of `initiate` has not panicked -/
  alive : Bool := true
  /-- `connections`: the connection whose sender is stored -/
  connections : AList (fun _ : String => Nat) := ∅
  /-- `peerstore.peer_store` -/
  peerStore : AList (fun _ : String => PeerInfo) := ∅
  commands : List Command := []
  tasks : List (ConnTask κ) := []

/-- One turn of one task of the swarm. -/
inductive SwarmAct (φ : Type)
  /-- the loop accepts a connection; the upgrade ends with the remote peer or fails -/
  | accept (upgraded : Option PeerInfo)
  /-- the loop handles the next command; if it dials, the upgrade ends like this -/
  | next (upgraded : Option PeerInfo)
  /-- the application queues a command -/
  | request (command : Command)
  /-- task `i` takes an item from its queue; `written` is false when `raw_conn.write` fails -/
  | recvQueue (i : Nat) (written : Bool)
  /-- task `i` reads a frame from `raw_conn` -/
  | recvRaw (i : Nat) (frames : φ)
  /-- `raw_conn.read()` of task `i` returns `Err` -/
  | rawError (i : Nat)
  /-- `raw_conn` of task `i` panics: over UDP, the transport has dropped the connection -/
  | rawPanic (i : Nat)
  /-- task `i`, having left its loop, returns and drops its `MplexConn` -/
  | drop (i : Nat)
  /-- stream task `h` of connection `i` moves on -/
  | stream (i h : Nat) (a : MplexConn.TaskAct)
  /-- `ping_check` of connection `i` sends its `Liveliness` frame -/
  | liveliness (i : Nat)
  /-- `ping_check` of connection `i` times out and sends the internal `Disconnected` frame -/
  | pingTimeout (i : Nat)

/-- `b"disconnected"`. -/
def disconnectedPayload : Payload := ⟨ascii "disconnected", by decide⟩

namespace SwarmInner

variable {κ φ : Type} (c : Codec κ φ)

/-- The loop panics. -/
def abort (s : SwarmInner κ) : SwarmInner κ :=
  { s with alive := false, connections := ∅, commands := [] }

/-- The state of task `i` changes. -/
def setTask (s : SwarmInner κ) (i : Nat) (t : ConnTask κ) : SwarmInner κ :=
  { s with tasks := s.tasks.set i t }

/-- A connection that has just been upgraded, with `ping_check` where it is asked for: for an
address that has a TCP component too it returns at once, and nobody receives its frames. -/
def newTask (s : SwarmInner κ) (remote_peer : PeerInfo) : ConnTask κ where
  remotePeer := remote_peer
  conn :=
    { handlers := s.handlers
      pingCheck :=
        if s.pingCheckOpt ∧ remote_peer.listenAddr.valueForUdp.isSome ∧
            remote_peer.listenAddr.valueForTcp.isNone then some []
        else none }

/-- `update_peerstore`. -/
def updatePeerstore (s : SwarmInner κ) (remote_peer : PeerInfo) (i : Nat) : SwarmInner κ :=
  { s with
    peerStore := s.peerStore.insert remote_peer.peerId remote_peer
    connections := s.connections.insert remote_peer.peerId i }

/-- `conn_handler` of the swarm: a failed upgrade panics. -/
def connHandler (s : SwarmInner κ) : Option PeerInfo → SwarmInner κ
  | none => s.abort
  | some remote_peer =>
    let s' := s.updatePeerstore remote_peer s.tasks.length
    { s' with tasks := s.tasks ++ [s.newTask remote_peer] }

/-- `connect`. -/
def connect (s : SwarmInner κ) (addr : Multiaddr) (upgraded : Option PeerInfo) : SwarmInner κ :=
  match addr.valueForP2p with
  | none => s.abort
  | some remote_peer_id => if remote_peer_id ∈ s.connections then s else s.connHandler upgraded

/-- `muxed_mpsc_tx.send(..).await.unwrap()` on the sender stored for a peer. -/
def sendTo (s : SwarmInner κ) (peer_id : String) (item : Item) : Option (SwarmInner κ) := do
  let i ← s.connections.lookup peer_id
  let t ← s.tasks[i]?
  let conn ← t.conn.send c item
  some (s.setTask i { t with conn := conn })

/-- The end of `new_stream`: the sender is fetched and gets the internal `NewStream` frame. -/
def openStream (s : SwarmInner κ) (peer_id : String) : List Payload → SwarmInner κ
  | [] => s.abort
  | protocol :: _ => (s.sendTo c peer_id (.openStream protocol)).getD s.abort

/-- `new_stream`. -/
def newStream (s : SwarmInner κ) (maddr : Multiaddr) (protocols : List Payload)
    (upgraded : Option PeerInfo) : SwarmInner κ :=
  match maddr.valueForP2p with
  | none => s.abort
  | some peer_id =>
    if peer_id ∈ s.connections then s.openStream c peer_id protocols
    else (s.connect maddr upgraded).openStream c peer_id protocols

/-- `on_disconnect`. -/
def onDisconnect (s : SwarmInner κ) (peer_id : String) : SwarmInner κ :=
  match s.peerStore.lookup peer_id with
  | none => s.abort
  | some remote_peer_info =>
    let s' := { s with peerStore := s.peerStore.erase peer_id }
    let sent :=
      if remote_peer_info.listenAddr.valueForUdp.isSome then
        s'.sendTo c peer_id (.disconnect Payload.empty)
      else some s'
    match sent with
    | none => s'.abort
    | some s'' => { s'' with connections := s''.connections.erase peer_id }

/-- One command in the loop of `initiate`. -/
def handleCommand (s : SwarmInner κ) (upgraded : Option PeerInfo) : Command → SwarmInner κ
  | .connect maddr => s.connect maddr upgraded
  | .newStream maddr protocols => s.newStream c maddr protocols upgraded
  | .disconnect peer_id _ => s.onDisconnect c peer_id

/-- Task `i`, as long as its loop runs. -/
def looping (s : SwarmInner κ) (i : Nat) : Option (ConnTask κ) :=
  (s.tasks[i]?).filter fun t => t.Looping

/-- The loop of task `i` runs. -/
def loops (s : SwarmInner κ) (i : Nat) : Bool := (s.tasks[i]?).any fun t => t.Looping

/-- One turn of one task. -/
def step (s : SwarmInner κ) : SwarmAct φ → Option (SwarmInner κ)
  | .accept upgraded => if s.alive then some (s.connHandler upgraded) else none
  | .next upgraded =>
    match s.commands with
    | [] => none
    | command :: rest =>
      let s' := { s with commands := rest }
      some (s'.handleCommand c upgraded command)
  | .request command =>
    if s.alive ∧ command.notice = none then some { s with commands := s.commands ++ [command] }
    else none
  | .recvQueue i written => do
    let t ← s.looping i
    let (conn, frames) ← t.conn.recvQueue c
    let running := conn.running && (frames.isNone || written)
    some (s.setTask i { t with conn := { conn with running := running } })
  | .recvRaw i frames => do
    let t ← s.looping i
    let conn ← t.conn.recvRaw c frames
    some (s.setTask i { t with conn := conn })
  | .rawError i => do
    let t ← s.looping i
    if s.alive then
      let s' := s.setTask i { t with left := true, notices := t.notices + 1 }
      some { s' with commands := s.commands ++ [.disconnect t.remotePeer.peerId (some i)] }
    else some (s.setTask i { t with conn := { t.conn with running := false } })
  | .rawPanic i => do
    let t ← s.looping i
    some (s.setTask i { t with conn := { t.conn with running := false } })
  | .drop i => do
    let t ← s.tasks[i]?
    if t.left then some (s.setTask i { t with conn := { t.conn with running := false } }) else none
  | .stream i h a => do
    let t ← s.tasks[i]?
    let conn ← t.conn.taskStep c h a
    some (s.setTask i { t with conn := conn })
  | .liveliness i => do
    let t ← s.tasks[i]?
    let _ ← t.conn.pingCheck
    let conn ← t.conn.send c .liveliness
    some (s.setTask i { t with conn := conn })
  | .pingTimeout i => do
    let t ← s.tasks[i]?
    let _ ← t.conn.pingCheck
    let conn ← t.conn.send c (.disconnect disconnectedPayload)
    some (s.setTask i { t with conn := { conn with pingCheck := none } })

end SwarmInner

/-- A swarm from its start on. -/
def swarm {κ φ : Type} (c : Codec κ φ) : System (SwarmInner κ) (SwarmAct φ) where
  init s := ∃ pingCheckOpt handlers, s = { pingCheckOpt, handlers }
  step := SwarmInner.step c

end Rnet.Swarm
