import Rnet.Lib.System
import Rnet.Lib.Utf8
import Mathlib.Data.List.Infix

/-!
# The UDP transport: `transport/src/udp/`

One socket serves all peers. `io_loop` receives datagrams and sends the frames of the write
queue; a 1-byte flag says what a datagram is for. A `Connect` is queued for `accept`, a `Disconnect`
removes the entry of its sender in the peerstore, and the payload of a `General` goes to
the channel of the connection that the entry names. `accept` and `dial` make the
connections and their entries.

A panic inside `io_loop` ends it. The queues have 100 places, and the loop waits for a place where
it needs one; the datagrams that arrive meanwhile are the operating system's.
-/

namespace Rnet.Udp

open Rnet.Lib

/-! ## Packets -/

inductive UdpPacketFlag
  | connect
  | disconnect
  | general
  deriving DecidableEq, Repr

def UdpPacketFlag.byte : UdpPacketFlag → UInt8
  | connect => 1
  | disconnect => 2
  | general => 3

def UdpPacketFlag.ofByte (b : UInt8) : Option UdpPacketFlag :=
  if b = 1 then some connect else if b = 2 then some disconnect
  else if b = 3 then some general else none

def serializeUdpPacket (payload : List UInt8) (flag : UdpPacketFlag) : List UInt8 :=
  flag.byte :: payload

def deserializeUdpPacket : List UInt8 → Option (UdpPacketFlag × List UInt8)
  | [] => none
  | b :: payload => (UdpPacketFlag.ofByte b).map (·, payload)

def INTERNAL : List UInt8 := toUtf8 "internal-payload"

/-- The buffer of `io_loop`: what is longer is cut. -/
def bufferLength : Nat := 1500

/-- Every queue of the transport. -/
def channelCapacity : Nat := 100

/-- What `accept` sends first. -/
def acknowledgement : List UInt8 := toUtf8 "peerstore_updated"

/-- The first byte of a cut datagram is the first byte of the datagram. -/
theorem deserialize_take (bytes : List UInt8) (n : Nat) :
    deserializeUdpPacket (bytes.take (n + 1))
      = (deserializeUdpPacket bytes).map fun r => (r.1, r.2.take n) := by
  cases bytes with
  | nil => rfl
  | cons b payload =>
    rw [List.take_succ_cons, deserializeUdpPacket, deserializeUdpPacket]
    cases UdpPacketFlag.ofByte b <;> rfl

theorem deserialize_serialize (payload : List UInt8) (flag : UdpPacketFlag) :
    deserializeUdpPacket (serializeUdpPacket payload flag) = some (flag, payload) := by
  cases flag <;> rfl

theorem UdpPacketFlag.ofByte_eq_some {b : UInt8} {flag : UdpPacketFlag}
    (h : UdpPacketFlag.ofByte b = some flag) : b = flag.byte := by
  rw [UdpPacketFlag.ofByte] at h
  split_ifs at h with h1 h2 h3
  · rw [h1, ← Option.some.inj h]
    rfl
  · rw [h2, ← Option.some.inj h]
    rfl
  · rw [h3, ← Option.some.inj h]
    rfl

/-- What is read back as a packet is that packet. -/
theorem serialize_deserialize {bytes payload : List UInt8} {flag : UdpPacketFlag}
    (h : deserializeUdpPacket bytes = some (flag, payload)) :
    bytes = serializeUdpPacket payload flag := by
  cases bytes with
  | nil => simp [deserializeUdpPacket] at h
  | cons b rest =>
    obtain ⟨flag', hb, he⟩ := Option.map_eq_some_iff.mp h
    obtain ⟨rfl, rfl⟩ := Prod.mk.inj he
    rw [serializeUdpPacket, UdpPacketFlag.ofByte_eq_some hb]

theorem internal_eq : INTERNAL = 105 :: toUtf8 "nternal-payload" := by decide +kernel

/-- A packet is not taken for an internal command. -/
theorem serialize_not_internal (payload : List UInt8) (flag : UdpPacketFlag) :
    INTERNAL.isPrefixOf (serializeUdpPacket payload flag) = false := by
  rw [internal_eq]
  cases flag <;> rfl

theorem length_of_general {bytes payload : List UInt8}
    (h : deserializeUdpPacket bytes = some (.general, payload)) :
    bytes.length = payload.length + 1 := by
  rw [serialize_deserialize h, serializeUdpPacket, List.length_cons]

/-! ## The transport -/

section Model

variable {Addr : Type}

/-- A `UdpConn` with its channel. -/
structure UdpConn (Addr : Type) where
  remoteSocket : Addr
  queue : List (List UInt8) := []
  /-- its owner holds the receiver -/
  alive : Bool := true
  /-- what has been put into the channel so far -/
  put : List (List UInt8) := []
  /-- the payloads of the `General` datagrams that came from its socket while the entry of
  the socket named it -/
  due : List (List UInt8) := []
  deriving DecidableEq, Repr

/-- Where `io_loop` stands. -/
inductive Standing (Addr : Type)
  | select
  /-- before `new_peer_tx.send` -/
  | announcing (socket : Addr)
  /-- before the send into the channel of connection `c` -/
  | putting (c : Nat) (payload : List UInt8)
  deriving DecidableEq, Repr

/-- How far the running call of `accept` has come. -/
inductive Accepting (Addr : Type)
  | waiting
  | taken (socket : Addr)
  /-- behind the insertion, before the acknowledgement -/
  | registered (c : Nat)
  deriving DecidableEq, Repr

/-- How far a call of `dial` has come. -/
inductive Dialing (Addr : Type)
  /-- `Connect` is queued -/
  | sent (socket : Addr)
  /-- behind the insertion, before the acknowledgement -/
  | waiting (c : Nat)
  | returned (c : Nat)
  | failed
  deriving DecidableEq, Repr

structure UdpTransport (Addr : Type) where
  localPeerId : String
  /-- `io_loop` runs -/
  running : Bool := true
  stands : Standing Addr := .select
  peerstore : Addr → Option Nat := fun _ => none
  conns : List (UdpConn Addr) := []
  writeReq : List (Addr × List UInt8) := []
  newPeer : List Addr := []
  accepting : Accepting Addr := .waiting
  dials : List (Dialing Addr) := []

/-- One turn of one task. -/
inductive UdpAct (Addr : Type)
  /-- `io_loop` receives a datagram -/
  | recvFrom (remote : Addr) (bytes : List UInt8)
  /-- `io_loop` takes a frame off the write queue; `ok` is what `send_to` says -/
  | writeReq (ok : Bool)
  /-- `io_loop` announces a new peer -/
  | announce
  /-- `io_loop` puts a payload into a channel -/
  | put
  | acceptTake
  | acceptInsert
  | acceptAck
  /-- the future of `accept` is dropped -/
  | acceptDrop
  | dial (socket : Addr)
  | dialInsert (d : Nat)
  | dialAck (d : Nat)
  /-- the owner of connection `c` writes, closes, reads or drops it -/
  | write (c : Nat) (msg : List UInt8)
  | close (c : Nat)
  | read (c : Nat)
  | drop (c : Nat)
  deriving DecidableEq

namespace UdpTransport

variable [DecidableEq Addr]

/-- `io_loop` panics. -/
def stop (s : UdpTransport Addr) : UdpTransport Addr :=
  { s with running := false, stands := .select, writeReq := [] }

def setConn (s : UdpTransport Addr) (c : Nat) (f : UdpConn Addr → UdpConn Addr) :
    UdpTransport Addr := { s with conns := s.conns.modify c f }

/-- The owner of connection `c` drops it or panics. -/
def dropConn (s : UdpTransport Addr) (c : Nat) : UdpTransport Addr :=
  s.setConn c fun conn => { conn with alive := false }

/-- A new connection, and the entry of its socket. -/
def register (s : UdpTransport Addr) (socket : Addr) : UdpTransport Addr := { s with
  conns := s.conns ++ [{ remoteSocket := socket }]
  peerstore := Function.update s.peerstore socket (some s.conns.length) }

/-- `handle_incoming`. -/
def handleIncoming (s : UdpTransport Addr) (data : List UInt8) (remote_socket : Addr) :
    UdpTransport Addr :=
  match deserializeUdpPacket data with
  | none => s
  | some (.connect, _) => { s with stands := .announcing remote_socket }
  | some (.disconnect, _) =>
    { s with peerstore := Function.update s.peerstore remote_socket none }
  | some (.general, payload) =>
    match s.peerstore remote_socket with
    | none => s.stop
    | some c => { s with stands := .putting c payload }

/-- A `General` datagram is noted with the connection that the entry of its socket names. -/
def note (s : UdpTransport Addr) (bytes : List UInt8) (remote : Addr) : UdpTransport Addr :=
  match deserializeUdpPacket bytes, s.peerstore remote with
  | some (.general, payload), some c =>
    s.setConn c fun conn => { conn with due := conn.due ++ [payload] }
  | _, _ => s

/-- `write_req_tx.send`, by the owner of connection `c`, who panics when `io_loop` is gone. -/
def request (s : UdpTransport Addr) (c : Nat) (frame : List UInt8) : Option (UdpTransport Addr) :=
  match s.conns[c]? with
  | none => none
  | some conn =>
    if s.running then
      if s.writeReq.length < channelCapacity then
        some { s with writeReq := s.writeReq ++ [(conn.remoteSocket, frame)] }
      else none
    else some (s.dropConn c)

/-- The connection has no sender left: the entry is gone and `io_loop` holds no clone. -/
def hungUp (s : UdpTransport Addr) (c : Nat) (conn : UdpConn Addr) : Bool :=
  decide (s.peerstore conn.remoteSocket ≠ some c) &&
    match s.stands with
    | .putting c' _ => decide (c' ≠ c)
    | _ => true

/-- `socket_mpsc_rx.recv`: the payload, or `none` when there is no sender left. -/
def recv (s : UdpTransport Addr) (c : Nat) :
    Option (UdpTransport Addr × Option (List UInt8)) :=
  match s.conns[c]? with
  | none => none
  | some conn =>
    match conn.queue with
    | payload :: rest => some (s.setConn c fun conn => { conn with queue := rest }, some payload)
    | [] => if s.hungUp c conn then some (s, none) else none

/-- Connection `c` has been handed out and not been dropped. -/
def owned (s : UdpTransport Addr) (c : Nat) : Bool :=
  (s.conns[c]?).any (·.alive) && decide (s.accepting ≠ .registered c) &&
    decide (Dialing.waiting c ∉ s.dials)

/-- One turn of one task. -/
def step (s : UdpTransport Addr) : UdpAct Addr → Option (UdpTransport Addr)
  | .recvFrom remote bytes =>
    if s.running ∧ s.stands = .select then
      some ((s.note bytes remote).handleIncoming (bytes.take bufferLength) remote)
    else none
  | .writeReq ok =>
    if s.running ∧ s.stands = .select then
      match s.writeReq with
      | [] => none
      | (socket, frame) :: rest =>
        let s' := { s with writeReq := rest }
        if INTERNAL.isPrefixOf frame then
          some (s'.handleIncoming (frame.drop INTERNAL.length) socket)
        else if ok then some s' else some s'.stop
    else none
  | .announce =>
    match s.stands with
    | .announcing socket =>
      if s.newPeer.length < channelCapacity then
        some { s with newPeer := s.newPeer ++ [socket], stands := .select }
      else none
    | _ => none
  | .put =>
    match s.stands with
    | .putting c payload =>
      match s.conns[c]? with
      | none => none
      | some conn =>
        if conn.alive then
          if conn.queue.length < channelCapacity then
            some { s with
              stands := .select
              conns := s.conns.modify c fun conn => { conn with
                queue := conn.queue ++ [payload]
                put := conn.put ++ [payload] } }
          else none
        else some s.stop
    | _ => none
  | .acceptTake =>
    match s.accepting, s.newPeer with
    | .waiting, socket :: rest => some { s with accepting := .taken socket, newPeer := rest }
    | _, _ => none
  | .acceptInsert =>
    match s.accepting with
    | .taken socket => some { s.register socket with accepting := .registered s.conns.length }
    | _ => none
  | .acceptAck =>
    match s.accepting with
    | .registered c =>
      (s.request c (serializeUdpPacket acknowledgement .general)).map fun s' =>
        { s' with accepting := .waiting }
    | _ => none
  | .acceptDrop =>
    match s.accepting with
    | .waiting => none
    | .taken _ => some { s with accepting := .waiting }
    | .registered c => some { s.dropConn c with accepting := .waiting }
  | .dial socket =>
    if s.running ∧ s.writeReq.length < channelCapacity then
      some { s with
        writeReq := s.writeReq ++ [(socket, serializeUdpPacket (toUtf8 s.localPeerId) .connect)]
        dials := s.dials ++ [.sent socket] }
    else none
  | .dialInsert d =>
    match s.dials[d]? with
    | some (.sent socket) =>
      some { s.register socket with dials := s.dials.set d (.waiting s.conns.length) }
    | _ => none
  | .dialAck d =>
    match s.dials[d]? with
    | some (.waiting c) =>
      match s.recv c with
      | none => none
      | some (s', ack) =>
        if ack = some acknowledgement then some { s' with dials := s.dials.set d (.returned c) }
        else some { s'.dropConn c with dials := s.dials.set d .failed }
    | _ => none
  | .write c msg => if s.owned c then s.request c (serializeUdpPacket msg .general) else none
  | .close c =>
    if s.owned c then
      s.request c (INTERNAL ++ serializeUdpPacket (toUtf8 "disconnect") .disconnect)
    else none
  | .read c =>
    if s.owned c then
      match s.recv c with
      | none => none
      | some (s', some _) => some s'
      | some (s', none) => some (s'.dropConn c)
    else none
  | .drop c => if s.owned c then some (s.dropConn c) else none

end UdpTransport

/-- A transport from `listen` on. -/
def udp (Addr : Type) [DecidableEq Addr] (localPeerId : String) :
    System (UdpTransport Addr) (UdpAct Addr) where
  init := fun s => s = { localPeerId }
  step := UdpTransport.step

end Model

end Rnet.Udp
