import Rnet.Mplex.Link
import Rnet.Security.SecureConn
import Rnet.Udp.Socket

/-!
# Frames of the muxer over UDP

What `MplexStream::write` accepts passes four layers on its way to the peer. `build_frame` puts a
header in front, `SecureConn` passes it on, `send_bytes` puts the packet flag in front, and
`io_loop` sends the datagram; at the peer `recv_from` fills a buffer of 1500 bytes, and the same
layers hand up what it holds. The network delivers a datagram whole, any number of times
and in any order; `sendable` says which lengths `send_to` accepts.

> `frame_intact_iff`: a frame is handed up byte for byte or not at all if and only if it has at
> most 1499 bytes, or so many that `send_to` refuses the datagram.
-/

namespace Rnet.Udp

open Rnet.Lib Rnet.Mplex Rnet.Security
open Rnet.Lib.System (runUnder_of_exec)

/-- `UdpConn::send_bytes`: what joins the write queue. -/
def sendBytes (msg : List UInt8) : List UInt8 := serializeUdpPacket msg .general

/-- What `io_loop` has in its hand behind `recv_from`: the datagram, cut to the buffer. -/
def recvFrom (datagram : List UInt8) : List UInt8 := datagram.take bufferLength

/-- A connection over UDP, from the streams of one node to `handle_incoming` of the other. Behind
`written`, everything carries the number of the call it comes from. -/
structure FrameLink where
  cipher : Bytes 32
  /-- the calls of `MplexStream::write` -/
  written : List (UInt32 × Payload) := []
  /-- the queue of `conn_handler` -/
  mpsc : List (Nat × List UInt8) := []
  /-- the write queue of `io_loop` -/
  writeReq : List (Nat × List UInt8) := []
  /-- `io_loop` of the sending node runs -/
  running : Bool := true
  /-- the datagrams sent so far -/
  network : List (Nat × List UInt8) := []
  /-- the channel of the `UdpConn` of the peer -/
  channel : List (Nat × List UInt8) := []
  /-- what the peer has passed to `handle_incoming` -/
  handed : List (Nat × List UInt8) := []

/-- One turn on the way of the frames. -/
inductive FrameAct
  /-- a stream writes -/
  | write (id : UInt32) (payload : Payload)
  /-- `conn_handler` takes a frame off its queue and writes it to `raw_conn` -/
  | connWrite
  /-- `io_loop` takes a packet off the write queue -/
  | send
  /-- the `d`-th datagram arrives at the peer -/
  | arrive (d : Nat)
  /-- `conn_handler` of the peer reads from `raw_conn` -/
  | connRead

namespace FrameLink

variable (V : UnsignedVarint) (sendable : Nat → Bool)

/-- One turn. -/
def step (s : FrameLink) : FrameAct → Option FrameLink
  | .write id payload => some { s with
      written := s.written ++ [(id, payload)]
      mpsc := s.mpsc ++ [(s.written.length, buildFrame V id .message payload.val)] }
  | .connWrite =>
    match s.mpsc with
    | [] => none
    | (n, data) :: rest =>
      match (bytesCodec V).route data with
      | .inl _ => some { s with mpsc := rest }
      | .inr frame =>
        let packet := sendBytes (SecureConn.write s.cipher frame)
        some { s with mpsc := rest, writeReq := s.writeReq ++ [(n, packet)] }
  | .send =>
    if s.running then
      match s.writeReq with
      | [] => none
      | (n, packet) :: rest =>
        if INTERNAL.isPrefixOf packet then some { s with writeReq := rest }
        else if sendable packet.length then
          some { s with writeReq := rest, network := s.network ++ [(n, packet)] }
        else some { s with writeReq := [], running := false }
    else none
  | .arrive d =>
    match s.network[d]? with
    | none => none
    | some (n, datagram) =>
      match deserializeUdpPacket (recvFrom datagram) with
      | some (.general, payload) => some { s with channel := s.channel ++ [(n, payload)] }
      | _ => some s
  | .connRead =>
    match s.channel with
    | [] => none
    | (n, bytes) :: rest =>
      match SecureConn.read s.cipher bytes with
      | none => some { s with channel := rest }
      | some frames => some { s with channel := rest, handed := s.handed ++ [(n, frames)] }

end FrameLink

/-- A connection on which nothing has been written yet. -/
def frameLink (V : UnsignedVarint) (sendable : Nat → Bool) : System FrameLink FrameAct where
  init s := ∃ cipher, s = { cipher }
  step := FrameLink.step V sendable

/-! ## What a frame becomes -/

section Layers

variable {V : UnsignedVarint} {sendable : Nat → Bool}

/-- The frame of a call of `write`. -/
def messageFrame (V : UnsignedVarint) (w : UInt32 × Payload) : List UInt8 :=
  buildFrame V w.1 .message w.2.val

/-- `conn_handler` writes a frame to `raw_conn`. -/
theorem route_messageFrame (w : UInt32 × Payload) :
    (bytesCodec V).route (messageFrame V w) = .inr (messageFrame V w) := by
  have hno : Mplex.INTERNAL.isPrefixOf (messageFrame V w) = false :=
    buildFrame_not_internal V w.1 .message w.2.val (by simp)
  show (if Mplex.INTERNAL.isPrefixOf (messageFrame V w) = true then _ else _) = _
  rw [hno]
  rfl

/-- What arrives of a packet is a packet: the flag, and as much of the payload as fits. -/
theorem deserialize_recvFrom (msg : List UInt8) :
    deserializeUdpPacket (recvFrom (sendBytes msg)) = some (.general, msg.take 1499) := by
  show deserializeUdpPacket ((sendBytes msg).take (1499 + 1)) = _
  rw [deserialize_take, sendBytes, deserialize_serialize]
  rfl

/-- So does `io_loop` of the transport: with an entry for the sender, it has as much of the payload
in its hand as fits. -/
theorem recvFrom_inHand {Addr : Type} [DecidableEq Addr] {s s' : UdpTransport Addr} {remote : Addr}
    {c : Nat} {msg : List UInt8} (hc : s.peerstore remote = some c)
    (hs : s.step (.recvFrom remote (sendBytes msg)) = some s') :
    s'.inHand = some (c, msg.take 1499) := by
  cases UdpTransport.step_turn hs with
  | recv =>
    have hb : deserializeUdpPacket (sendBytes msg) = some (.general, msg) :=
      deserialize_serialize msg .general
    rw [UdpTransport.recv_general hb hc]
    rfl

end Layers

namespace FrameLink

variable {V : UnsignedVarint} {sendable : Nat → Bool}

/-- Everything on a stage of the link is what the layers before it make of the frame of its call. -/
def Stage (s : FrameLink) (l : List (Nat × List UInt8))
    (P : UInt32 × Payload → List UInt8 → Prop) : Prop :=
  ∀ e ∈ l, ∃ w, s.written[e.1]? = some w ∧ P w e.2

/-- What stands where. -/
structure LinkInv (V : UnsignedVarint) (sendable : Nat → Bool) (s : FrameLink) : Prop where
  mpsc : Stage s s.mpsc fun w x => x = messageFrame V w
  writeReq : Stage s s.writeReq fun w x => x = sendBytes (messageFrame V w)
  network : Stage s s.network fun w x => x = sendBytes (messageFrame V w) ∧
    sendable (sendBytes (messageFrame V w)).length = true
  channel : Stage s s.channel fun w x => x = (messageFrame V w).take 1499 ∧
    sendable (sendBytes (messageFrame V w)).length = true
  handed : Stage s s.handed fun w x => x = (messageFrame V w).take 1499 ∧
    sendable (sendBytes (messageFrame V w)).length = true

theorem Stage.mono {s s' : FrameLink} {l l' : List (Nat × List UInt8)}
    {P : UInt32 × Payload → List UInt8 → Prop} (h : Stage s l P)
    (hw : ∀ (n : Nat) w, s.written[n]? = some w → s'.written[n]? = some w) (hl : ∀ e ∈ l', e ∈ l) :
    Stage s' l' P := by
  intro e he
  obtain ⟨w, hw', hP⟩ := h e (hl e he)
  exact ⟨w, hw e.1 w hw', hP⟩

theorem Stage.append {s : FrameLink} {l : List (Nat × List UInt8)}
    {P : UInt32 × Payload → List UInt8 → Prop} (h : Stage s l P) {n : Nat} {w : UInt32 × Payload}
    {x : List UInt8} (hw : s.written[n]? = some w) (hP : P w x) : Stage s (l ++ [(n, x)]) P := by
  intro e he
  rcases List.mem_append.mp he with he | he
  · exact h e he
  · rw [List.mem_singleton.mp he]
    exact ⟨w, hw, hP⟩

theorem Stage.head {s : FrameLink} {l rest : List (Nat × List UInt8)} {n : Nat} {x : List UInt8}
    {P : UInt32 × Payload → List UInt8 → Prop} (h : Stage s l P) (hl : l = (n, x) :: rest) :
    ∃ w, s.written[n]? = some w ∧ P w x :=
  h (n, x) (by rw [hl]; exact List.mem_cons_self ..)

theorem Stage.tail {s : FrameLink} {l rest : List (Nat × List UInt8)} {e : Nat × List UInt8}
    {P : UInt32 × Payload → List UInt8 → Prop} (h : Stage s l P) (hl : l = e :: rest) :
    Stage s rest P :=
  h.mono (fun _ _ hw => hw) fun e' he' => by rw [hl]; exact List.mem_cons_of_mem _ he'

theorem LinkInv.init {s : FrameLink} (h : (frameLink V sendable).init s) :
    LinkInv V sendable s := by
  obtain ⟨cipher, rfl⟩ := h
  have none : ∀ P, Stage { cipher } [] P := fun P e he => by simp at he
  exact ⟨none _, none _, none _, none _, none _⟩

/-- **One turn** keeps it. -/
theorem LinkInv.step {s s' : FrameLink} {a : FrameAct} (h : LinkInv V sendable s)
    (hs : s.step V sendable a = some s') : LinkInv V sendable s' := by
  cases a with
  | write id payload =>
    obtain rfl := Option.some.inj hs
    -- the calls before this one keep their numbers
    have old : ∀ (n : Nat) w, s.written[n]? = some w →
        (s.written ++ [(id, payload)])[n]? = some w := by
      intro n w hw
      rw [List.getElem?_append_left (List.getElem?_eq_some_iff.mp hw).1, hw]
    refine ⟨?_, h.writeReq.mono old fun _ he => he, h.network.mono old fun _ he => he,
      h.channel.mono old fun _ he => he, h.handed.mono old fun _ he => he⟩
    have hmore : Stage { s with written := s.written ++ [(id, payload)] } s.mpsc _ :=
      h.mpsc.mono old fun _ he => he
    exact hmore.append (n := s.written.length) (w := (id, payload))
      (by rw [List.getElem?_append_right (Nat.le_refl _), Nat.sub_self]; rfl) rfl
  | connWrite =>
    simp only [FrameLink.step] at hs
    split at hs
    · simp at hs
    · rename_i n data rest hq
      obtain ⟨w, hw, rfl⟩ := h.mpsc.head hq
      rw [route_messageFrame] at hs
      obtain rfl := Option.some.inj hs
      exact ⟨h.mpsc.tail hq, h.writeReq.append hw rfl, h.network, h.channel, h.handed⟩
  | send =>
    simp only [FrameLink.step] at hs
    split at hs
    swap
    · simp at hs
    split at hs
    · simp at hs
    · rename_i n packet rest hq
      obtain ⟨w, hw, rfl⟩ := h.writeReq.head hq
      split at hs
      · obtain rfl := Option.some.inj hs
        exact ⟨h.mpsc, h.writeReq.tail hq, h.network, h.channel, h.handed⟩
      · split at hs
        · rename_i hsend
          obtain rfl := Option.some.inj hs
          exact ⟨h.mpsc, h.writeReq.tail hq, h.network.append hw ⟨rfl, hsend⟩, h.channel, h.handed⟩
        · -- `send_to` refuses the datagram, and `io_loop` panics with its queue
          obtain rfl := Option.some.inj hs
          exact ⟨h.mpsc, fun e he => by simp at he, h.network, h.channel, h.handed⟩
  | arrive d =>
    simp only [FrameLink.step] at hs
    split at hs
    · simp at hs
    · rename_i n datagram hd
      -- the datagram stays on the network, from where it may arrive again
      obtain ⟨w, hw, rfl, hsend⟩ := h.network (n, datagram) (List.mem_of_getElem? hd)
      rw [deserialize_recvFrom] at hs
      obtain rfl := Option.some.inj hs
      exact ⟨h.mpsc, h.writeReq, h.network, h.channel.append hw ⟨rfl, hsend⟩, h.handed⟩
  | connRead =>
    simp only [FrameLink.step] at hs
    split at hs
    · simp at hs
    · rename_i n bytes rest hq
      obtain ⟨w, hw, hP⟩ := h.channel.head hq
      obtain rfl := Option.some.inj hs
      exact ⟨h.mpsc, h.writeReq, h.network, h.channel.tail hq, h.handed.append hw hP⟩

/-- **A frame on its own** goes all the way, and arrives as much of it as fits into the buffer. -/
theorem handed_alone (w : UInt32 × Payload)
    (hsend : sendable (sendBytes (messageFrame V w)).length = true) (cipher : Bytes 32) :
    ∃ s, (frameLink V sendable).Run [.write w.1 w.2, .connWrite, .send, .arrive 0, .connRead] s ∧
      s.written[0]? = some w ∧ (0, (messageFrame V w).take 1499) ∈ s.handed := by
  have hroute := route_messageFrame (V := V) w
  have hno : INTERNAL.isPrefixOf (sendBytes (messageFrame V w)) = false :=
    serialize_not_internal _ _
  have hexec : (frameLink V sendable).exec (fun _ _ => True) { cipher }
      [.write w.1 w.2, .connWrite, .send, .arrive 0, .connRead] = some
        { cipher, written := [w], network := [(0, sendBytes (messageFrame V w))],
          handed := [(0, (messageFrame V w).take 1499)] } := by
    simp only [System.exec, frameLink, step, List.nil_append, if_true, Option.bind_some]
    rw [show buildFrame V w.1 .message w.2.val = messageFrame V w from rfl, hroute]
    simp only [Option.bind_some, SecureConn.write, hno, hsend, Bool.false_eq_true, if_false,
      if_true, SecureConn.read]
    rfl
  exact ⟨_, runUnder_of_exec ⟨cipher, rfl⟩ hexec, rfl, List.mem_singleton_self _⟩

end FrameLink

/-- **Which frames stay whole.** In every run, whatever else is written and however the network
behaves, what the peer hands up of a frame is the frame, if and only if its datagram fits into
the buffer or is refused by `send_to`. -/
theorem frame_intact_iff (V : UnsignedVarint) (sendable : Nat → Bool) (id : UInt32)
    (payload : Payload) :
    (∀ as s, (frameLink V sendable).Run as s → ∀ n bytes, s.written[n]? = some (id, payload) →
        (n, bytes) ∈ s.handed → bytes = buildFrame V id .message payload.val) ↔
      (sendable ((buildFrame V id .message payload.val).length + 1) = true →
        (buildFrame V id .message payload.val).length ≤ 1499) := by
  constructor
  · -- the run of this frame alone shows what is left of it
    intro h hsend
    obtain ⟨s, hrun, hw, hmem⟩ := FrameLink.handed_alone (V := V) (id, payload) hsend
      ⟨List.replicate 32 0, List.length_replicate⟩
    have hcut := h _ s hrun 0 _ hw hmem
    exact List.take_eq_self_iff _ |>.mp hcut
  · intro hfits as s hrun n bytes hw hmem
    have hinv : FrameLink.LinkInv V sendable s :=
      hrun.invariant (FrameLink.LinkInv V sendable) (fun _ => FrameLink.LinkInv.init)
        fun _ _ _ hI _ hs => hI.step hs
    obtain ⟨w, hw', hcut, hsend⟩ := hinv.handed (n, bytes) hmem
    obtain rfl := Option.some.inj (hw'.symm.trans hw)
    exact hcut.trans (List.take_of_length_le (hfits hsend))

/-- A message of 1500 bytes. -/
def longMessage : UInt32 × Payload := (1, ⟨List.replicate 1500 0, by decide +kernel⟩)

/-- The longest datagram over IPv4. -/
def ipv4Sendable (n : Nat) : Bool := n ≤ 65507

theorem length_longMessage : (messageFrame leb128 longMessage).length = 1503 := by decide +kernel

theorem long_frame_cut : ∃ as s n bytes, (frameLink leb128 ipv4Sendable).Run as s ∧
    s.written[n]? = some longMessage ∧ (n, bytes) ∈ s.handed ∧
    bytes ≠ buildFrame leb128 longMessage.1 .message longMessage.2.val := by
  have hsend : ipv4Sendable (sendBytes (messageFrame leb128 longMessage)).length = true := by
    decide +kernel
  obtain ⟨s, hrun, hw, hmem⟩ := FrameLink.handed_alone longMessage hsend
    ⟨List.replicate 32 0, List.length_replicate⟩
  refine ⟨_, s, 0, _, hrun, hw, hmem, fun hcut => ?_⟩
  have hlen := congrArg List.length hcut
  rw [show buildFrame leb128 longMessage.1 .message longMessage.2.val =
    messageFrame leb128 longMessage from rfl, List.length_take, length_longMessage] at hlen
  omega

end Rnet.Udp
