import Rnet.Mplex.Headers
import Rnet.Lib.Utf8
import Mathlib.Data.List.AList

/-!
# One end of an mplex connection: `mplex/conn.rs` and `mplex/stream.rs`

`MplexConn` is the task of `conn_handler` together with its mpsc queue and the
stream tasks it has spawned. The code is the same whatever the frames look like,
so it is written over a `Codec`: `bytesCodec V` is the real one (byte strings,
the `INTERNAL` prefix, `build_frame` and `process_header`), `frameCodec` keeps
the frames apart as data. `Codec.Hom` says that the second is a view of the
first, and every operation commutes with the view.

A stream task stands at its index in `tasks`; the index is also the identity of
its channel, so `streams` maps an id to the channel whose sender it holds.
`put` and `sent` log what went into the channel and what the stream sent.

The bounded channels (100) are lists: a full channel only delays its sender, so
the runs of the code are among the runs of the model. The counter wraps as in a
release build.
-/

namespace Rnet.Mplex

open Rnet.Lib (fromUtf8)

/-- The frames and commands that the tasks of a connection put on its queue. -/
inductive Item
  /-- `build_frame(self._stream_counter, NewStream, b"")` of `handle_incoming` -/
  | announce (id : UInt32)
  /-- `build_frame(self.stream_id, HandshakeReq, &protocol)` of `negotiate` -/
  | handshakeReq (id : UInt32) (payload : Payload)
  /-- `build_frame(self.stream_id, HandshakeRes, &payload)` of `negotiate` -/
  | handshakeRes (id : UInt32) (payload : Payload)
  /-- `build_frame(self.stream_id, Message, msg)` of `MplexStream::write` -/
  | message (id : UInt32) (payload : Payload)
  /-- `build_frame(0, Liveliness, b"liveliness")` of `ping_check` -/
  | liveliness
  /-- `INTERNAL` and `build_frame(0, NewStream, protocol)` of `SwarmInner::new_stream` -/
  | openStream (payload : Payload)
  /-- `INTERNAL` and `build_frame(self.stream_id, CloseStream, &[])` of `close` -/
  | closeStream (id : UInt32)
  /-- `INTERNAL` and `build_frame(0, Disconnected, ..)` of `ping_check` and `on_disconnect` -/
  | disconnect (payload : Payload)
  deriving DecidableEq

/-- A frame as data: the arguments of `build_frame`. -/
structure Frame where
  id : UInt32
  flag : MuxedStreamFlag
  payload : Payload
  deriving DecidableEq

/-- `b"liveliness"`. -/
def livelinessPayload : Payload := ⟨ascii "liveliness", by decide⟩

/-- The frame of an item. -/
def Item.frame : Item → Frame
  | announce id => ⟨id, .newStream, Payload.empty⟩
  | handshakeReq id p => ⟨id, .handshakeReq, p⟩
  | handshakeRes id p => ⟨id, .handshakeRes, p⟩
  | message id p => ⟨id, .message, p⟩
  | liveliness => ⟨0, .liveliness, livelinessPayload⟩
  | openStream p => ⟨0, .newStream, p⟩
  | closeStream id => ⟨id, .closeStream, Payload.empty⟩
  | disconnect p => ⟨0, .disconnected, p⟩

/-- Whether the item is spliced behind `INTERNAL`. -/
def Item.isInternal : Item → Bool
  | openStream _ | closeStream _ | disconnect _ => true
  | _ => false

/-- The bytes of a frame. -/
def Frame.bytes (V : UnsignedVarint) (f : Frame) : List UInt8 :=
  buildFrame V f.id f.flag f.payload.val

/-- The bytes a task queues. -/
def Item.bytes (V : UnsignedVarint) (i : Item) : List UInt8 :=
  if i.isInternal then INTERNAL ++ i.frame.bytes V else i.frame.bytes V

/-- How the frames of a connection are represented: `κ` on the queue, `φ` on the
wire. `route` is the `starts_with(&INTERNAL)` test of `conn_handler`, `parse`
the first lines of `handle_incoming`. -/
structure Codec (κ φ : Type) where
  make : Item → κ
  route : κ → φ ⊕ φ
  parse : φ → Except Fault (UInt32 × MuxedStreamFlag × Payload)

/-- The frames of the code: byte strings. -/
def bytesCodec (V : UnsignedVarint) : Codec (List UInt8) (List UInt8) where
  make := Item.bytes V
  route data :=
    if INTERNAL.isPrefixOf data then .inl (data.drop INTERNAL.length) else .inr data
  parse := extractPayload V

/-- Frames kept as data; the peer reads the cut id. -/
def frameCodec : Codec Item Frame where
  make i := i
  route i := if i.isInternal then .inl i.frame else .inr i.frame
  parse f := .ok (wireId f.id, f.flag, f.payload)

/-- How far the task spawned for a stream (`handle_conn`) has come. -/
inductive StreamPhase
  /-- before the first `await` of `negotiate` -/
  | negotiating
  /-- the initiator, waiting for the handshake response -/
  | awaitingRes
  /-- the protocol's `stream_handler` runs -/
  | handling
  /-- returned or panicked: the receiver is dropped -/
  | ended
  deriving DecidableEq

/-- A stream task with its `MplexStream`. -/
structure MplexStream where
  streamId : UInt32
  isInitiator : Bool
  /-- the argument of `handle_conn` -/
  proto : Option Payload
  phase : StreamPhase := .negotiating
  /-- what is in the mpsc channel and not yet read -/
  channel : List Payload := []
  /-- everything ever put into the channel -/
  put : List Payload := []
  /-- the handshake payload sent and the payloads of the `write` calls -/
  sent : List Payload := []
  deriving DecidableEq

/-- One end of the connection. -/
structure MplexConn (κ : Type) where
  /-- `streams: HashMap<u32, Sender<Vec<u8>>>` -/
  streams : AList (fun _ : UInt32 => Nat) := ∅
  streamCounter : UInt32 := 0
  /-- the queue between `mpsc_tx` and `mpsc_rx` -/
  mpsc : List κ := []
  tasks : List MplexStream := []
  /-- `conn_handler` has not returned or panicked; when it has, its `MplexConn` is dropped, and no
  step reads the tables and queues that are kept here -/
  running : Bool := true
  rawClosed : Bool := false
  /-- the channel behind `ping_check_tx`, while `ping_check` holds the receiver -/
  pingCheck : Option (List Payload) := none
  /-- the keys of `handlers` -/
  handlers : List String := []

namespace MplexConn

variable {κ φ : Type} (c : Codec κ φ)

/-- `self.streams.get_mut(&stream_id)` and the `send(..).await.unwrap()` on it. -/
def putChannel (conn : MplexConn κ) (stream_id : UInt32) (payload : Payload) :
    Except Fault (MplexConn κ) :=
  match conn.streams.lookup stream_id with
  | none => .ok conn
  | some h =>
    match conn.tasks[h]? with
    | none => .error .panic
    | some t =>
      if t.phase = .ended then .error .panic
      else .ok { conn with
        tasks := conn.tasks.set h
          { t with channel := t.channel ++ [payload], put := t.put ++ [payload] } }

/-- The responder half of the `NewStream` branch: adopt the announced id. -/
def openRemote (conn : MplexConn κ) (stream_id : UInt32) : MplexConn κ :=
  { conn with
    streamCounter := stream_id
    streams := conn.streams.insert stream_id conn.tasks.length
    tasks := conn.tasks ++ [{ streamId := stream_id, isInitiator := false, proto := none }] }

/-- The initiator half of the `NewStream` branch: take the next id and announce it. -/
def openLocal (conn : MplexConn κ) (payload : Payload) : MplexConn κ :=
  { conn with
    streamCounter := conn.streamCounter + 1
    streams := conn.streams.insert (conn.streamCounter + 1) conn.tasks.length
    mpsc := conn.mpsc ++ [c.make (.announce (conn.streamCounter + 1))]
    tasks := conn.tasks ++
      [{ streamId := conn.streamCounter + 1, isInitiator := true, proto := some payload }] }

/-- The `match flag` of `handle_incoming`. -/
def handleFlag (conn : MplexConn κ) (stream_id : UInt32) (flag : MuxedStreamFlag)
    (payload : Payload) : Except Fault (MplexConn κ × Bool) :=
  match flag with
  | .newStream =>
    if stream_id = 0 then .ok (conn.openLocal c payload, true)
    else .ok (conn.openRemote stream_id, true)
  | .message | .handshakeRes | .handshakeReq =>
    match conn.putChannel stream_id payload with
    | .error e => .error e
    | .ok conn' => .ok (conn', true)
  | .closeStream => .ok ({ conn with streams := conn.streams.erase stream_id }, true)
  | .disconnected => .ok ({ conn with rawClosed := true }, false)
  | .liveliness =>
    match conn.pingCheck with
    | none => .error .panic
    | some q => .ok ({ conn with pingCheck := some (q ++ [payload]) }, true)

/-- `handle_incoming`. -/
def handleIncoming (conn : MplexConn κ) (frames : φ) : Except Fault (MplexConn κ × Bool) :=
  match c.parse frames with
  | .error e => .error e
  | .ok (stream_id, flag, payload) => conn.handleFlag c stream_id flag payload

/-- The first branch of `conn_handler`'s `select!`: one item of the queue, handled
locally or written to `raw_conn` (the second component). -/
def recvQueue (conn : MplexConn κ) : Option (MplexConn κ × Option φ) :=
  if conn.running then
    match conn.mpsc with
    | [] => none
    | data :: rest =>
      match c.route data with
      | .inr frame => some ({ conn with mpsc := rest }, some frame)
      | .inl frames =>
        match handleIncoming c { conn with mpsc := rest } frames with
        | .error _ => some ({ conn with mpsc := rest, running := false }, none)
        | .ok (conn', true) => some (conn', none)
        | .ok (conn', false) => some ({ conn' with running := false }, none)
  else none

/-- The second branch: a frame read from `raw_conn`. -/
def recvRaw (conn : MplexConn κ) (frames : φ) : Option (MplexConn κ) :=
  if conn.running then
    match conn.handleIncoming c frames with
    | .error _ => some { conn with running := false }
    | .ok (conn', _) => some conn'
  else none

/-- `mpsc_tx.send(..)`: fails once `conn_handler` has dropped the receiver. -/
def send (conn : MplexConn κ) (i : Item) : Option (MplexConn κ) :=
  if conn.running then some { conn with mpsc := conn.mpsc ++ [c.make i] } else none

/-- The sender of channel `h` still exists. -/
def senderAlive (conn : MplexConn κ) (h : Nat) : Bool :=
  conn.running && conn.streams.entries.any fun e => e.2 == h

/-- `handlers` has the protocol whose name is `payload`; a name that is not UTF-8
makes `String::from_utf8(..).unwrap()` panic, which ends the task as well. -/
def hasHandler (conn : MplexConn κ) (payload : Payload) : Bool :=
  match fromUtf8 payload.val with
  | none => false
  | some protocol => conn.handlers.contains protocol

/-- Store the next state of task `h`. -/
def setTask (conn : MplexConn κ) (h : Nat) (t : MplexStream) : MplexConn κ :=
  { conn with tasks := conn.tasks.set h t }

/-- One step of `handle_conn` up to the start of the handler: `negotiate` and the
lookup in the registry. -/
def negotiate (conn : MplexConn κ) (h : Nat) (t : MplexStream) : Option (MplexConn κ) :=
  match t.isInitiator, t.phase with
  | true, .negotiating =>
    match t.proto with
    | none => some (conn.setTask h { t with phase := .ended })
    | some protocol =>
      match conn.send c (.handshakeReq t.streamId protocol) with
      | none => some (conn.setTask h { t with phase := .ended })
      | some conn' =>
        some (conn'.setTask h { t with phase := .awaitingRes, sent := t.sent ++ [protocol] })
  | true, .awaitingRes =>
    match t.channel with
    | [] => if conn.senderAlive h then none else some (conn.setTask h { t with phase := .ended })
    | res :: rest =>
      some (conn.setTask h { t with
        channel := rest
        phase := if t.proto = some res ∧ conn.hasHandler res then .handling else .ended })
  | false, .negotiating =>
    match t.channel with
    | [] => if conn.senderAlive h then none else some (conn.setTask h { t with phase := .ended })
    | payload :: rest =>
      if conn.hasHandler payload then
        match conn.send c (.handshakeRes t.streamId payload) with
        | none => some (conn.setTask h { t with channel := rest, phase := .ended })
        | some conn' => some (conn'.setTask h { t with
            channel := rest, phase := .handling, sent := t.sent ++ [payload] })
      else some (conn.setTask h { t with channel := rest, phase := .ended })
  | _, _ => none

/-- What a stream task does next. -/
inductive TaskAct
  | negotiate
  | write (msg : Payload)
  | read
  | close
  | finish
  deriving DecidableEq

/-- A step of stream task `h`: the negotiation, then whatever calls of
`IMuxedStream` its handler makes, then the end of the handler. -/
def taskStep (conn : MplexConn κ) (h : Nat) (a : TaskAct) : Option (MplexConn κ) :=
  match conn.tasks[h]? with
  | none => none
  | some t =>
    match a with
    | .negotiate => conn.negotiate c h t
    | .write msg =>
      if t.phase = .handling then
        match conn.send c (.message t.streamId msg) with
        | none => some conn
        | some conn' => some (conn'.setTask h { t with sent := t.sent ++ [msg] })
      else none
    | .read =>
      if t.phase = .handling then
        match t.channel with
        | [] => if conn.senderAlive h then none else some conn
        | _ :: rest => some (conn.setTask h { t with channel := rest })
      else none
    | .close =>
      if t.phase = .handling then
        match conn.send c (.closeStream t.streamId) with
        | none => some conn
        | some conn' => some conn'
      else none
    | .finish =>
      if t.phase = .handling then some (conn.setTask h { t with phase := .ended }) else none

end MplexConn

end Rnet.Mplex
