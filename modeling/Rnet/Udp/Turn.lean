import Rnet.Udp.Transport

/-!
# What a turn can be

`Turn` lists the turns of a transport with the state that each leads to, so that a fact about one
part of the state is a short case analysis. The facts about the parts follow.

> `step_turn`: every turn is one of them.
-/

namespace Rnet.Udp

open Rnet.Lib

section Turn

variable {Addr : Type}

namespace UdpTransport

/-- The owner of connection `c` holds the receiver. -/
def aliveAt (s : UdpTransport Addr) (c : Nat) : Bool := (s.conns[c]?).any (·.alive)

/-- The payload that `io_loop` is about to put into a channel. -/
def inHand (s : UdpTransport Addr) : Option (Nat × List UInt8) :=
  match s.stands with
  | .putting c payload => some (c, payload)
  | _ => none


variable [DecidableEq Addr]

/-- One turn, with the state it leads to. -/
inductive Turn (s : UdpTransport Addr) : UdpAct Addr → UdpTransport Addr → Prop
  | recv (r : Addr) (b : List UInt8) (hst : s.stands = .select) :
    Turn s (.recvFrom r b) ((s.note b r).handleIncoming (b.take bufferLength) r)
  | internal (ok : Bool) (e : Addr × List UInt8) (rest : List (Addr × List UInt8))
    (hst : s.stands = .select) (hq : s.writeReq = e :: rest)
    (hint : INTERNAL.isPrefixOf e.2 = true) :
    Turn s (.writeReq ok) ({ s with writeReq := rest }.handleIncoming
      (e.2.drop INTERNAL.length) e.1)
  | sent (e : Addr × List UInt8) (rest : List (Addr × List UInt8)) (hst : s.stands = .select)
    (hq : s.writeReq = e :: rest) (hint : INTERNAL.isPrefixOf e.2 = false) :
    Turn s (.writeReq true) { s with writeReq := rest }
  | unsent (e : Addr × List UInt8) (rest : List (Addr × List UInt8)) (hst : s.stands = .select)
    (hq : s.writeReq = e :: rest) (hint : INTERNAL.isPrefixOf e.2 = false) :
    Turn s (.writeReq false) s.stop
  | announce (socket : Addr) (hst : s.stands = .announcing socket) :
    Turn s .announce { s with newPeer := s.newPeer ++ [socket], stands := .select }
  | put (c : Nat) (p : List UInt8) (hst : s.stands = .putting c p)
    (halive : s.aliveAt c = true) : Turn s .put { s with
      stands := .select
      conns := s.conns.modify c fun conn => { conn with
        queue := conn.queue ++ [p]
        put := conn.put ++ [p] } }
  | putDead (c : Nat) (p : List UInt8) (hst : s.stands = .putting c p)
    (hdead : s.aliveAt c = false) : Turn s .put s.stop
  | take (socket : Addr) (rest : List Addr) (hacc : s.accepting = .waiting)
    (hq : s.newPeer = socket :: rest) :
    Turn s .acceptTake { s with accepting := .taken socket, newPeer := rest }
  | insert (socket : Addr) (hacc : s.accepting = .taken socket) :
    Turn s .acceptInsert { s.register socket with accepting := .registered s.conns.length }
  | ack (c : Nat) (t : UdpTransport Addr) (hacc : s.accepting = .registered c)
    (hreq : s.request c (serializeUdpPacket acknowledgement .general) = some t) :
    Turn s .acceptAck { t with accepting := .waiting }
  | dropTaken (socket : Addr) (hacc : s.accepting = .taken socket) :
    Turn s .acceptDrop { s with accepting := .waiting }
  | dropRegistered (c : Nat) (hacc : s.accepting = .registered c) :
    Turn s .acceptDrop { s.dropConn c with accepting := .waiting }
  | dial (socket : Addr) : Turn s (.dial socket) { s with
      writeReq := s.writeReq ++ [(socket, serializeUdpPacket (toUtf8 s.localPeerId) .connect)]
      dials := s.dials ++ [.sent socket] }
  | dialInsert (d : Nat) (socket : Addr) (hd : s.dials[d]? = some (.sent socket)) :
    Turn s (.dialInsert d)
      { s.register socket with dials := s.dials.set d (.waiting s.conns.length) }
  | dialReturn (d c : Nat) (t : UdpTransport Addr) (hd : s.dials[d]? = some (.waiting c))
    (hrecv : s.recv c = some (t, some acknowledgement)) :
    Turn s (.dialAck d) { t with dials := s.dials.set d (.returned c) }
  | dialFail (d c : Nat) (t : UdpTransport Addr) (r : Option (List UInt8))
    (hd : s.dials[d]? = some (.waiting c)) (hrecv : s.recv c = some (t, r))
    (hr : r ≠ some acknowledgement) :
    Turn s (.dialAck d) { t.dropConn c with dials := s.dials.set d .failed }
  | write (c : Nat) (msg : List UInt8) (t : UdpTransport Addr) (howned : s.owned c = true)
    (hreq : s.request c (serializeUdpPacket msg .general) = some t) : Turn s (.write c msg) t
  | close (c : Nat) (t : UdpTransport Addr) (howned : s.owned c = true)
    (hreq : s.request c (INTERNAL ++ serializeUdpPacket (toUtf8 "disconnect") .disconnect)
      = some t) : Turn s (.close c) t
  | read (c : Nat) (t : UdpTransport Addr) (p : List UInt8) (howned : s.owned c = true)
    (hrecv : s.recv c = some (t, some p)) : Turn s (.read c) t
  | readNone (c : Nat) (t : UdpTransport Addr) (howned : s.owned c = true)
    (hrecv : s.recv c = some (t, none)) : Turn s (.read c) (t.dropConn c)
  | drop (c : Nat) (howned : s.owned c = true) : Turn s (.drop c) (s.dropConn c)

/-- Every turn is one of them. -/
theorem step_turn {s s' : UdpTransport Addr} {a : UdpAct Addr} (hs : s.step a = some s') :
    Turn s a s' := by
  cases a with
  | recvFrom r b =>
    rw [step] at hs
    split at hs
    · rename_i hready
      obtain rfl := Option.some.inj hs
      exact .recv r b hready.2
    · simp at hs
  | writeReq ok =>
    rw [step] at hs
    split at hs
    · rename_i hready
      split at hs
      · simp at hs
      · rename_i socket frame rest hq
        dsimp only at hs
        split at hs
        · rename_i hint
          obtain rfl := Option.some.inj hs
          exact .internal ok (socket, frame) rest hready.2 hq hint
        · rename_i hint
          split at hs
          · rename_i hok
            obtain rfl := Option.some.inj hs
            rw [hok]
            exact .sent (socket, frame) rest hready.2 hq (eq_false_of_ne_true hint)
          · rename_i hok
            obtain rfl := Option.some.inj hs
            rw [eq_false_of_ne_true hok]
            exact .unsent (socket, frame) rest hready.2 hq (eq_false_of_ne_true hint)
    · simp at hs
  | announce =>
    rw [step] at hs
    split at hs
    · rename_i socket hst
      split at hs
      · obtain rfl := Option.some.inj hs
        exact .announce socket hst
      · simp at hs
    · simp at hs
  | put =>
    rw [step] at hs
    split at hs
    · rename_i c p hst
      split at hs
      · simp at hs
      · rename_i conn hc
        split at hs
        · rename_i halive
          split at hs
          · obtain rfl := Option.some.inj hs
            refine .put c p hst ?_
            rw [aliveAt, hc]
            exact halive
          · simp at hs
        · rename_i hdead
          obtain rfl := Option.some.inj hs
          refine .putDead c p hst ?_
          rw [aliveAt, hc]
          exact eq_false_of_ne_true hdead
    · simp at hs
  | acceptTake =>
    rw [step] at hs
    split at hs
    · rename_i socket rest hacc hq
      obtain rfl := Option.some.inj hs
      exact .take socket rest hacc hq
    · simp at hs
  | acceptInsert =>
    rw [step] at hs
    split at hs
    · rename_i socket hacc
      obtain rfl := Option.some.inj hs
      exact .insert socket hacc
    · simp at hs
  | acceptAck =>
    rw [step] at hs
    split at hs
    · rename_i c hacc
      obtain ⟨t, ht, rfl⟩ := Option.map_eq_some_iff.mp hs
      exact .ack c t hacc ht
    · simp at hs
  | acceptDrop =>
    rw [step] at hs
    split at hs
    · simp at hs
    · rename_i socket hacc
      obtain rfl := Option.some.inj hs
      exact .dropTaken socket hacc
    · rename_i c hacc
      obtain rfl := Option.some.inj hs
      exact .dropRegistered c hacc
  | dial socket =>
    rw [step] at hs
    split at hs
    · obtain rfl := Option.some.inj hs
      exact .dial socket
    · simp at hs
  | dialInsert d =>
    rw [step] at hs
    split at hs
    · rename_i socket hd
      obtain rfl := Option.some.inj hs
      exact .dialInsert d socket hd
    · simp at hs
  | dialAck d =>
    rw [step] at hs
    split at hs
    · rename_i c hd
      split at hs
      · simp at hs
      · rename_i t r hrecv
        split at hs
        · rename_i hr
          obtain rfl := Option.some.inj hs
          exact .dialReturn d c t hd (by rw [hrecv, hr])
        · rename_i hr
          obtain rfl := Option.some.inj hs
          exact .dialFail d c t r hd hrecv hr
    · simp at hs
  | write c msg =>
    rw [step] at hs
    split at hs
    · rename_i howned
      exact .write c msg s' howned hs
    · simp at hs
  | close c =>
    rw [step] at hs
    split at hs
    · rename_i howned
      exact .close c s' howned hs
    · simp at hs
  | read c =>
    rw [step] at hs
    split at hs
    · rename_i howned
      split at hs
      · simp at hs
      · rename_i t p hrecv
        obtain rfl := Option.some.inj hs
        exact .read c t p howned hrecv
      · rename_i t hrecv
        obtain rfl := Option.some.inj hs
        exact .readNone c t howned hrecv
    · simp at hs
  | drop c =>
    rw [step] at hs
    split at hs
    · rename_i howned
      obtain rfl := Option.some.inj hs
      exact .drop c howned
    · simp at hs

/-! ## The pieces of a turn -/

omit [DecidableEq Addr] in
/-- A request adds a frame for the socket of the connection, or the owner panics. -/
theorem request_cases {s t : UdpTransport Addr} {c : Nat} {frame : List UInt8}
    (h : s.request c frame = some t) :
    t = s.dropConn c ∨ ∃ conn, s.conns[c]? = some conn ∧
      t = { s with writeReq := s.writeReq ++ [(conn.remoteSocket, frame)] } := by
  rw [request] at h
  split at h
  · simp at h
  · rename_i conn hc
    split at h
    · split at h
      · exact Or.inr ⟨conn, hc, (Option.some.inj h).symm⟩
      · simp at h
    · exact Or.inl (Option.some.inj h).symm

omit [DecidableEq Addr] in
/-- A receive takes the first payload of the channel, or nothing when there is no sender left. -/
theorem recv_cases {s t : UdpTransport Addr} {c : Nat} {r : Option (List UInt8)}
    (h : s.recv c = some (t, r)) :
    ∃ conn, s.conns[c]? = some conn ∧
      ((∃ p rest, conn.queue = p :: rest ∧ r = some p ∧
        t = s.setConn c fun conn => { conn with queue := rest }) ∨
      conn.queue = [] ∧ s.hungUp c conn = true ∧ r = none ∧ t = s) := by
  rw [recv] at h
  split at h
  · simp at h
  · rename_i conn hc
    split at h
    · rename_i p rest hq
      obtain ⟨rfl, rfl⟩ := Prod.mk.inj (Option.some.inj h)
      exact ⟨conn, hc, Or.inl ⟨p, rest, hq, rfl, rfl⟩⟩
    · rename_i hq
      split at h
      · rename_i hup
        obtain ⟨rfl, rfl⟩ := Prod.mk.inj (Option.some.inj h)
        exact ⟨conn, hc, Or.inr ⟨hq, hup, rfl, rfl⟩⟩
      · simp at h

theorem handleIncoming_none {s : UdpTransport Addr} {data : List UInt8} (remote : Addr)
    (h : deserializeUdpPacket data = none) : s.handleIncoming data remote = s := by
  rw [handleIncoming, h]

theorem handleIncoming_connect {s : UdpTransport Addr} {data p : List UInt8} (remote : Addr)
    (h : deserializeUdpPacket data = some (.connect, p)) :
    s.handleIncoming data remote = { s with stands := .announcing remote } := by
  rw [handleIncoming, h]

theorem handleIncoming_disconnect {s : UdpTransport Addr} {data p : List UInt8} (remote : Addr)
    (h : deserializeUdpPacket data = some (.disconnect, p)) :
    s.handleIncoming data remote
      = { s with peerstore := Function.update s.peerstore remote none } := by
  rw [handleIncoming, h]

theorem handleIncoming_stop {s : UdpTransport Addr} {data p : List UInt8} {remote : Addr}
    (h : deserializeUdpPacket data = some (.general, p)) (hc : s.peerstore remote = none) :
    s.handleIncoming data remote = s.stop := by
  rw [handleIncoming, h]
  simp only [hc]

theorem handleIncoming_general {s : UdpTransport Addr} {data p : List UInt8} {remote : Addr}
    {c : Nat} (h : deserializeUdpPacket data = some (.general, p))
    (hc : s.peerstore remote = some c) :
    s.handleIncoming data remote = { s with stands := .putting c p } := by
  rw [handleIncoming, h]
  simp only [hc]

omit [DecidableEq Addr] in
theorem note_of_not_general {s : UdpTransport Addr} {bytes : List UInt8} (remote : Addr)
    (h : ∀ p, deserializeUdpPacket bytes ≠ some (.general, p)) : s.note bytes remote = s := by
  rw [note]
  split
  · rename_i p c hb hc
    exact absurd hb (h p)
  · rfl

/-- What the loop handles leads to one of these. -/
theorem handleIncoming_cases (s : UdpTransport Addr) (data : List UInt8) (r : Addr) :
    (s.handleIncoming data r = s ∧ deserializeUdpPacket data = none) ∨
    (∃ p, deserializeUdpPacket data = some (.connect, p) ∧
      s.handleIncoming data r = { s with stands := .announcing r }) ∨
    (∃ p, deserializeUdpPacket data = some (.disconnect, p) ∧
      s.handleIncoming data r = { s with peerstore := Function.update s.peerstore r none }) ∨
    (∃ p, deserializeUdpPacket data = some (.general, p) ∧ s.peerstore r = none ∧
      s.handleIncoming data r = s.stop) ∨
    (∃ p c, deserializeUdpPacket data = some (.general, p) ∧ s.peerstore r = some c ∧
      s.handleIncoming data r = { s with stands := .putting c p }) := by
  cases hb : deserializeUdpPacket data with
  | none => exact Or.inl ⟨handleIncoming_none r hb, rfl⟩
  | some fp =>
    obtain ⟨flag, p⟩ := fp
    cases flag with
    | connect => exact Or.inr (Or.inl ⟨p, rfl, handleIncoming_connect r hb⟩)
    | disconnect => exact Or.inr (Or.inr (Or.inl ⟨p, rfl, handleIncoming_disconnect r hb⟩))
    | general =>
      cases hc : s.peerstore r with
      | none => exact Or.inr (Or.inr (Or.inr (Or.inl ⟨p, rfl, rfl, handleIncoming_stop hb hc⟩)))
      | some c =>
        exact Or.inr (Or.inr (Or.inr (Or.inr ⟨p, c, rfl, rfl, handleIncoming_general hb hc⟩)))

omit [DecidableEq Addr] in
/-- What is noted with a datagram. -/
theorem note_cases (s : UdpTransport Addr) (b : List UInt8) (r : Addr) :
    s.note b r = s ∨ ∃ p k, deserializeUdpPacket b = some (.general, p) ∧
      s.peerstore r = some k ∧
      s.note b r = s.setConn k fun conn => { conn with due := conn.due ++ [p] } := by
  rw [note]
  split
  · rename_i p k hb hk
    exact Or.inr ⟨p, k, hb, hk, rfl⟩
  · exact Or.inl rfl

/-- A `General` datagram from a socket with an entry. -/
theorem recv_general {s : UdpTransport Addr} {r : Addr} {b p : List UInt8} {c : Nat}
    (hb : deserializeUdpPacket b = some (.general, p)) (hc : s.peerstore r = some c) :
    (s.note b r).handleIncoming (b.take bufferLength) r =
      { s.setConn c fun conn => { conn with due := conn.due ++ [p] } with
        stands := .putting c (p.take (bufferLength - 1)) } := by
  have hcut : deserializeUdpPacket (b.take bufferLength)
      = some (.general, p.take (bufferLength - 1)) := by
    have := deserialize_take b 1499
    rw [hb] at this
    exact this
  have hnote : s.note b r = s.setConn c fun conn => { conn with due := conn.due ++ [p] } := by
    rw [note, hb, hc]
  rw [hnote]
  exact handleIncoming_general hcut hc

/-- What becomes of a datagram that `io_loop` receives. -/
inductive Receipt (s : UdpTransport Addr) (r : Addr) (b : List UInt8) : UdpTransport Addr → Prop
  | unknown (hb : deserializeUdpPacket b = none) : Receipt s r b s
  | connect (p : List UInt8) (hb : deserializeUdpPacket b = some (.connect, p)) :
    Receipt s r b { s with stands := .announcing r }
  | disconnect (p : List UInt8) (hb : deserializeUdpPacket b = some (.disconnect, p)) :
    Receipt s r b { s with peerstore := Function.update s.peerstore r none }
  | stops (p : List UInt8) (hb : deserializeUdpPacket b = some (.general, p))
    (hc : s.peerstore r = none) : Receipt s r b s.stop
  | takes (p : List UInt8) (c : Nat) (hb : deserializeUdpPacket b = some (.general, p))
    (hc : s.peerstore r = some c) :
    Receipt s r b { s.setConn c fun conn => { conn with due := conn.due ++ [p] } with
      stands := .putting c (p.take (bufferLength - 1)) }

/-- Every datagram is one of them, cut or not. -/
theorem receipt (s : UdpTransport Addr) (r : Addr) (b : List UInt8) :
    s.Receipt r b ((s.note b r).handleIncoming (b.take bufferLength) r) := by
  have hcut : deserializeUdpPacket (b.take bufferLength) = (deserializeUdpPacket b).map
      fun r => (r.1, r.2.take (bufferLength - 1)) := deserialize_take b 1499
  cases hb : deserializeUdpPacket b with
  | none =>
    rw [hb] at hcut
    rw [note_of_not_general r (by simp [hb]), handleIncoming_none r hcut]
    exact .unknown hb
  | some fp =>
    obtain ⟨flag, p⟩ := fp
    rw [hb] at hcut
    cases flag with
    | connect =>
      rw [note_of_not_general r (by simp [hb]), handleIncoming_connect r hcut]
      exact .connect p hb
    | disconnect =>
      rw [note_of_not_general r (by simp [hb]), handleIncoming_disconnect r hcut]
      exact .disconnect p hb
    | general =>
      cases hc : s.peerstore r with
      | none =>
        have hnote : s.note b r = s := by rw [note, hb, hc]
        rw [hnote, handleIncoming_stop hcut hc]
        exact .stops p hb hc
      | some c =>
        rw [recv_general hb hc]
        exact .takes p c hb hc

theorem handleIncoming_dials (s : UdpTransport Addr) (data : List UInt8) (r : Addr) :
    (s.handleIncoming data r).dials = s.dials := by
  rw [handleIncoming]
  split
  · rfl
  · rfl
  · rfl
  · split <;> rfl

theorem handleIncoming_accepting (s : UdpTransport Addr) (data : List UInt8) (r : Addr) :
    (s.handleIncoming data r).accepting = s.accepting := by
  rw [handleIncoming]
  split
  · rfl
  · rfl
  · rfl
  · split <;> rfl

omit [DecidableEq Addr] in
theorem recv_others {s t : UdpTransport Addr} {c : Nat} {r : Option (List UInt8)}
    (h : s.recv c = some (t, r)) :
    t.accepting = s.accepting ∧ t.dials = s.dials ∧ t.writeReq = s.writeReq := by
  obtain ⟨conn, -, ⟨p, rest, -, -, rfl⟩ | ⟨-, -, -, rfl⟩⟩ := recv_cases h
  · exact ⟨rfl, rfl, rfl⟩
  · exact ⟨rfl, rfl, rfl⟩
/-! ## Frames -/

end UdpTransport

/-- The frames of the write queue: packets for other nodes, which are no `Disconnect`, and the
internal `Disconnect` of `close`. -/
def Outgoing (frame : List UInt8) : Prop :=
  (∃ payload flag, flag ≠ .disconnect ∧ frame = serializeUdpPacket payload flag) ∨
    frame = INTERNAL ++ serializeUdpPacket (toUtf8 "disconnect") .disconnect

/-- The only internal command. -/
theorem internal_disconnect {frame : List UInt8} (h : Outgoing frame)
    (hint : INTERNAL.isPrefixOf frame = true) :
    deserializeUdpPacket (frame.drop INTERNAL.length)
      = some (.disconnect, toUtf8 "disconnect") := by
  rcases h with ⟨p, flag, -, rfl⟩ | rfl
  · rw [serialize_not_internal] at hint
    simp at hint
  · rw [List.drop_left, deserialize_serialize]

namespace UdpTransport

variable [DecidableEq Addr]

theorem handleIncoming_writeReq (s : UdpTransport Addr) (data : List UInt8) (r : Addr) :
    ∀ e ∈ (s.handleIncoming data r).writeReq, e ∈ s.writeReq := by
  intro e he
  rw [handleIncoming] at he
  split at he
  · exact he
  · exact he
  · exact he
  · split at he
    · simp [stop] at he
    · exact he

omit [DecidableEq Addr] in
theorem request_writeReq {s t : UdpTransport Addr} {c : Nat} {frame : List UInt8}
    (h : s.request c frame = some t) : ∀ e ∈ t.writeReq, e ∈ s.writeReq ∨ e.2 = frame := by
  intro e he
  rcases request_cases h with rfl | ⟨conn, -, rfl⟩
  · exact Or.inl he
  · rcases List.mem_append.mp he with he | he
    · exact Or.inl he
    · exact Or.inr (by rw [List.mem_singleton.mp he])

/-- What a turn puts on the write queue. -/
theorem step_writeReq {s t : UdpTransport Addr} {a : UdpAct Addr} (hs : s.step a = some t) :
    ∀ e ∈ t.writeReq, e ∈ s.writeReq ∨
      (∃ socket p, a = .dial socket ∧ e = (socket, serializeUdpPacket p .connect)) ∨
      (∃ p, e.2 = serializeUdpPacket p .general) ∨
      e.2 = INTERNAL ++ serializeUdpPacket (toUtf8 "disconnect") .disconnect := by
  intro e he
  cases step_turn hs with
  | recv r b hst =>
    have hnote := handleIncoming_writeReq _ _ _ e he
    rcases note_cases s b r with heq | ⟨p, k, -, -, heq⟩ <;> exact Or.inl (by rwa [heq] at hnote)
  | internal ok f rest hst hq hint =>
    left
    rw [hq]
    exact List.mem_cons_of_mem _ (handleIncoming_writeReq _ _ _ e he)
  | sent f rest hst hq hint =>
    left
    rw [hq]
    exact List.mem_cons_of_mem _ he
  | unsent | putDead => simp [stop] at he
  | announce | put | take | insert | dropTaken | dropRegistered | dialInsert | drop =>
    exact Or.inl he
  | ack c u _ hreq =>
    exact (request_writeReq hreq e he).imp_right fun h => Or.inr (Or.inl ⟨_, h⟩)
  | dial socket =>
    rcases List.mem_append.mp he with he | he
    · exact Or.inl he
    · exact Or.inr (Or.inl ⟨socket, _, rfl, List.mem_singleton.mp he⟩)
  | write c msg u _ hreq =>
    exact (request_writeReq hreq e he).imp_right fun h => Or.inr (Or.inl ⟨_, h⟩)
  | close c u _ hreq =>
    exact (request_writeReq hreq e he).imp_right fun h => Or.inr (Or.inr h)
  | dialReturn d k u _ hrecv | dialFail d k u _ _ hrecv _ | read k u _ _ hrecv
  | readNone k u _ hrecv =>
    left
    rwa [← (recv_others hrecv).2.2]
/-! ## Calls of `accept` and `dial` -/

/-- What becomes of the calls of `dial`. -/
theorem step_dials {s t : UdpTransport Addr} {a : UdpAct Addr} (hs : s.step a = some t) :
    t.dials = s.dials ∨
    (∃ socket, a = .dial socket ∧ t.dials = s.dials ++ [.sent socket]) ∨
    (∃ d socket, a = .dialInsert d ∧ s.dials[d]? = some (.sent socket) ∧
      t.dials = s.dials.set d (.waiting s.conns.length) ∧ s.conns.length < t.conns.length) ∨
    ∃ d c y, a = .dialAck d ∧ s.dials[d]? = some (.waiting c) ∧ (∀ k, y ≠ .waiting k) ∧
      t.dials = s.dials.set d y := by
  cases step_turn hs with
  | recv r b hst =>
    left
    rw [handleIncoming_dials]
    rcases note_cases s b r with heq | ⟨p, k, -, -, heq⟩
    · rw [heq]
    · rw [heq]
      rfl
  | internal ok f rest hst hq hint => exact Or.inl (handleIncoming_dials _ _ _)
  | sent | unsent | announce | put | putDead | take | insert | dropTaken | dropRegistered | drop =>
    exact Or.inl rfl
  | ack c u _ hreq | write c _ u _ hreq | close c u _ hreq =>
    left
    rcases request_cases hreq with rfl | ⟨conn, -, rfl⟩ <;> rfl
  | dial socket => exact Or.inr (Or.inl ⟨socket, rfl, rfl⟩)
  | dialInsert d socket hd =>
    exact Or.inr (Or.inr (Or.inl ⟨d, socket, rfl, hd, rfl, by simp [register]⟩))
  | dialReturn d c u hd hrecv =>
    exact Or.inr (Or.inr (Or.inr ⟨d, c, _, rfl, hd, by simp, rfl⟩))
  | dialFail d c u r hd hrecv hr =>
    exact Or.inr (Or.inr (Or.inr ⟨d, c, _, rfl, hd, by simp, rfl⟩))
  | read c u _ _ hrecv | readNone c u _ hrecv => exact Or.inl (recv_others hrecv).2.1

/-- A connection is in the hands of `accept` because it was, or because it is new. -/
theorem step_registered {s t : UdpTransport Addr} {a : UdpAct Addr} (hs : s.step a = some t)
    {c : Nat} (h : t.accepting = .registered c) :
    s.accepting = .registered c ∨ c = s.conns.length ∧ c < t.conns.length := by
  cases step_turn hs with
  | recv r b hst =>
    rw [handleIncoming_accepting] at h
    rcases note_cases s b r with heq | ⟨p, k, -, -, heq⟩ <;> exact Or.inl (by rwa [heq] at h)
  | internal ok f rest hst hq hint =>
    rw [handleIncoming_accepting] at h
    exact Or.inl h
  | sent | unsent | announce | put | putDead | dial | dialInsert | drop => exact Or.inl h
  | take | ack | dropTaken | dropRegistered => simp at h
  | insert socket hacc =>
    obtain rfl := Accepting.registered.inj h
    exact Or.inr ⟨rfl, by simp [register]⟩
  | write k _ u _ hreq | close k u _ hreq =>
    left
    rcases request_cases hreq with rfl | ⟨conn, -, rfl⟩ <;> exact h
  | dialReturn d k u _ hrecv | dialFail d k u _ _ hrecv _ | read k u _ _ hrecv
  | readNone k u _ hrecv => exact Or.inl ((recv_others hrecv).1.symm.trans h)

omit [DecidableEq Addr] in
/-- What a call of `dial` becomes is its own business. -/
theorem dialing_of_set {dials : List (Dialing Addr)} {i j : Nat} {x y : Dialing Addr} (hne : y ≠ x)
    (h : (dials.set j y)[i]? = some x) : dials[i]? = some x := by
  rw [List.getElem?_set] at h
  split at h
  · split at h
    · exact absurd (Option.some.inj h) hne
    · simp at h
  · exact h

/-- A call of `dial` stays where it is until its own next turn. -/
theorem dialing_stays {s t : UdpTransport Addr} {a : UdpAct Addr} (hs : s.step a = some t)
    {d : Nat} {x : Dialing Addr} (hd : s.dials[d]? = some x)
    (hins : ∀ socket, x = .sent socket → a ≠ .dialInsert d)
    (hack : ∀ c, x = .waiting c → a ≠ .dialAck d) : t.dials[d]? = some x := by
  rcases step_dials hs with heq | ⟨socket, -, heq⟩ | ⟨j, socket, ha, hj, heq, -⟩ |
    ⟨j, k, y, ha, hj, -, heq⟩
  · rw [heq]
    exact hd
  · -- a new call goes to the end of the list
    rw [heq, List.getElem?_append_left (List.getElem?_eq_some_iff.mp hd).1]
    exact hd
  · have hne : j ≠ d := by
      intro h
      subst h
      exact hins socket (Option.some.inj (hd.symm.trans hj)) ha
    rw [heq, List.getElem?_set_ne hne]
    exact hd
  · have hne : j ≠ d := by
      intro h
      subst h
      exact hack k (Option.some.inj (hd.symm.trans hj)) ha
    rw [heq, List.getElem?_set_ne hne]
    exact hd

end UdpTransport

end Turn

end Rnet.Udp
