import Rnet.Udp.Effect

/-!
# The loop of the swarm that accepts over UDP

`select!` in `SwarmInner::initiate` waits for two things at once: for `accept`, and for a command.
When a command comes first, the future of `accept` is dropped wherever it stands. It takes the
socket of a new peer off its queue first; then it waits for the lock of the peerstore, and
for a place on the write queue.

> `none_lost_iff`: in every run, each socket that `accept` takes is registered, acknowledged and
> handed to `conn_handler`, or is the one that the pending call holds, if and only if no
> command is taken while the pending call holds one, and `io_loop` runs when it is acknowledged.
-/

namespace Rnet.Udp

open Rnet.Lib (System)
open Rnet.Lib.System (runUnder_of_exec avoids_iff_guarded)

section Model

variable {Addr : Type}

/-- What the loop of `SwarmInner::initiate` does. -/
inductive SwarmLoop
  /-- in `select!`, with a pending call of `accept` -/
  | selecting
  /-- in `conn_handler`, or with a command -/
  | busy
  /-- it panicked -/
  | aborted
  deriving DecidableEq, Repr

/-- The transport, and the loop that calls `accept`. -/
structure AcceptNode (Addr : Type) where
  transport : UdpTransport Addr
  loop : SwarmLoop := .selecting
  /-- how many commands wait on the queue of the swarm -/
  commands : Nat := 0
  /-- the sockets that `accept` has taken off the queue of new peers -/
  taken : List Addr := []
  /-- those whose entry `accept` has made -/
  registered : List Addr := []
  /-- those whose acknowledgement `accept` has queued -/
  acknowledged : List Addr := []
  /-- those whose connection has been passed to `conn_handler` -/
  handed : List Addr := []

/-- One turn of the loop, or of anyone else. -/
inductive LoopAct (Addr : Type)
  /-- `io_loop`, a call of `dial`, or the owner of a connection -/
  | transport (a : UdpAct Addr)
  /-- `accept` takes the socket of a new peer -/
  | take
  /-- `accept` gets the lock and makes the entry -/
  | insert
  /-- `accept` queues the acknowledgement and returns; `conn_handler` gets the connection -/
  | ack
  /-- a command joins the queue of the swarm -/
  | request
  /-- `select!` takes a command and drops the future of `accept` -/
  | command
  /-- `conn_handler` or the handler of a command returns, or panics -/
  | done (ok : Bool)
  deriving DecidableEq

/-- A turn of `accept`. -/
def UdpAct.isAccept : UdpAct Addr → Bool
  | .acceptTake | .acceptInsert | .acceptAck | .acceptDrop => true
  | _ => false

namespace AcceptNode

variable [DecidableEq Addr]

/-- The packet that `accept` sends first. -/
def ackPacket : List UInt8 := serializeUdpPacket acknowledgement .general

/-- One turn. What is registered and acknowledged is read off the transport. -/
def step (s : AcceptNode Addr) : LoopAct Addr → Option (AcceptNode Addr)
  | .transport a =>
    if a.isAccept then none else (s.transport.step a).map fun t => { s with transport := t }
  | .take =>
    if s.loop = .selecting then
      match s.transport.newPeer with
      | [] => none
      | socket :: _ => (s.transport.step .acceptTake).map fun t =>
          { s with transport := t, taken := s.taken ++ [socket] }
    else none
  | .insert =>
    if s.loop = .selecting then
      match s.transport.accepting with
      | .taken socket => (s.transport.step .acceptInsert).map fun t => { s with
          transport := t
          registered := s.registered ++
            if t.peerstore socket = some s.transport.conns.length then [socket] else [] }
      | _ => none
    else none
  | .ack =>
    if s.loop = .selecting then
      match s.transport.accepting with
      | .registered c =>
        match s.transport.conns[c]? with
        | none => none
        | some conn => (s.transport.step .acceptAck).map fun t =>
            if s.transport.running then { s with
              transport := t
              loop := .busy
              acknowledged := s.acknowledged ++
                if t.writeReq = s.transport.writeReq ++ [(conn.remoteSocket, ackPacket)] then
                  [conn.remoteSocket] else []
              handed := s.handed ++ [conn.remoteSocket] }
            else { s with transport := t, loop := .aborted }
      | _ => none
    else none
  | .request => some { s with commands := s.commands + 1 }
  | .command =>
    if s.loop = .selecting ∧ 0 < s.commands then some { s with
      transport := (s.transport.step .acceptDrop).getD s.transport
      loop := .busy
      commands := s.commands - 1 }
    else none
  | .done ok =>
    if s.loop = .busy then some { s with loop := if ok then .selecting else .aborted } else none

/-- The socket that the pending call of `accept` has registered. -/
def pendingEntry (s : AcceptNode Addr) : List Addr :=
  match s.transport.accepting with
  | .registered c => ((s.transport.conns[c]?).map UdpConn.remoteSocket).toList
  | _ => []

/-- The socket that the pending call of `accept` has taken. -/
def pending (s : AcceptNode Addr) : List Addr :=
  match s.transport.accepting with
  | .taken socket => [socket]
  | _ => s.pendingEntry

/-- **No socket is lost**: those taken are registered, acknowledged and handed over, in this order,
up to the one of the pending call. -/
structure Accounted (s : AcceptNode Addr) : Prop where
  taken : s.taken = s.handed ++ s.pending
  registered : s.registered = s.handed ++ s.pendingEntry
  acknowledged : s.acknowledged = s.handed

/-- The pending call is not dropped with a socket, and `io_loop` runs when it acknowledges one. -/
def NotAbandoned (s : AcceptNode Addr) : LoopAct Addr → Prop
  | .command => s.transport.accepting = .waiting
  | .ack => s.transport.running = true
  | _ => True

instance (s : AcceptNode Addr) : ∀ a, Decidable (s.NotAbandoned a)
  | .command => inferInstanceAs (Decidable (_ = _))
  | .ack => inferInstanceAs (Decidable (_ = _))
  | .transport _ | .take | .insert | .request | .done _ => .isTrue trivial

end AcceptNode

/-- A node from `listen` on. -/
def acceptNode (Addr : Type) [DecidableEq Addr] (localPeerId : String) :
    System (AcceptNode Addr) (LoopAct Addr) where
  init := fun s => s = { transport := { localPeerId } }
  step := AcceptNode.step

/-! ## What the others leave alone -/

namespace UdpTransport

/-- The sockets of the connections made so far. -/
def sockets (s : UdpTransport Addr) : List Addr := s.conns.map UdpConn.remoteSocket

theorem sockets_setConn (s : UdpTransport Addr) (c : Nat) {f : UdpConn Addr → UdpConn Addr}
    (hf : ∀ conn, (f conn).remoteSocket = conn.remoteSocket) :
    (s.setConn c f).sockets = s.sockets := by
  unfold sockets setConn
  refine List.ext_getElem? fun i => ?_
  rw [List.getElem?_map, List.getElem?_map, List.getElem?_modify]
  cases s.conns[i]? with
  | none => rfl
  | some conn =>
    by_cases h : c = i
    · simp [h, hf]
    · simp [h]

variable [DecidableEq Addr]

/-- Behind the turn there are at least the connections from before, and `accept` stands where it
stood. -/
structure Stays (s t : UdpTransport Addr) : Prop where
  sockets : s.sockets <+: t.sockets
  accepting : t.accepting = s.accepting

omit [DecidableEq Addr] in
theorem stays_of_eq {s t : UdpTransport Addr} (hs : t.sockets = s.sockets)
    (ha : t.accepting = s.accepting) : Stays s t :=
  ⟨hs ▸ List.prefix_refl _, ha⟩

omit [DecidableEq Addr] in
theorem Stays.trans {s t u : UdpTransport Addr} (h : Stays s t) (h' : Stays t u) : Stays s u :=
  ⟨h.sockets.trans h'.sockets, h'.accepting.trans h.accepting⟩

omit [DecidableEq Addr] in
theorem stays_dropConn (s : UdpTransport Addr) (c : Nat) : Stays s (s.dropConn c) :=
  stays_of_eq (sockets_setConn s c fun _ => rfl) rfl

theorem stays_handleIncoming (s : UdpTransport Addr) (data : List UInt8) (r : Addr) :
    Stays s (s.handleIncoming data r) := by
  refine stays_of_eq ?_ (handleIncoming_accepting s data r)
  rcases handleIncoming_cases s data r with ⟨h, -⟩ | ⟨p, -, h⟩ | ⟨p, -, h⟩ | ⟨p, -, -, h⟩ |
    ⟨p, c, -, -, h⟩ <;> rw [h] <;> rfl

omit [DecidableEq Addr] in
theorem stays_note (s : UdpTransport Addr) (b : List UInt8) (r : Addr) : Stays s (s.note b r) := by
  rcases note_cases s b r with h | ⟨p, k, -, -, h⟩
  · rw [h]
    exact stays_of_eq rfl rfl
  · rw [h]
    exact stays_of_eq (sockets_setConn s k fun _ => rfl) rfl

omit [DecidableEq Addr] in
theorem stays_request {s t : UdpTransport Addr} {c : Nat} {frame : List UInt8}
    (h : s.request c frame = some t) : Stays s t := by
  rcases request_cases h with rfl | ⟨conn, -, rfl⟩
  · exact stays_dropConn s c
  · exact stays_of_eq rfl rfl

omit [DecidableEq Addr] in
theorem stays_recv {s t : UdpTransport Addr} {c : Nat} {r : Option (List UInt8)}
    (h : s.recv c = some (t, r)) : Stays s t := by
  refine stays_of_eq ?_ (recv_others h).1
  obtain ⟨conn, -, ⟨p, rest, -, -, rfl⟩ | ⟨-, -, -, rfl⟩⟩ := recv_cases h
  · exact sockets_setConn s c fun _ => rfl
  · rfl

theorem sockets_register (s : UdpTransport Addr) (socket : Addr) :
    (s.register socket).sockets = s.sockets ++ [socket] := by
  unfold sockets register
  rw [List.map_append]
  rfl

/-- A turn of anyone but `accept`. -/
theorem step_stays {s t : UdpTransport Addr} {a : UdpAct Addr} (hs : s.step a = some t)
    (ha : a.isAccept = false) : Stays s t := by
  cases step_turn hs with
  | recv r b => exact (stays_note s b r).trans (stays_handleIncoming _ _ r)
  | internal ok e rest =>
    refine (stays_of_eq ?_ ?_).trans (stays_handleIncoming { s with writeReq := rest } _ e.1)
    · rfl
    · rfl
  | sent | unsent | announce | putDead | dial => exact stays_of_eq rfl rfl
  | put c p => exact stays_of_eq (sockets_setConn s c fun _ => rfl) rfl
  | take | insert | ack | dropTaken | dropRegistered => simp [UdpAct.isAccept] at ha
  | dialInsert d socket => exact ⟨sockets_register s socket ▸ List.prefix_append .., rfl⟩
  | dialReturn d c t' _ hrecv => exact (stays_recv hrecv).trans (stays_of_eq rfl rfl)
  | dialFail d c t' r _ hrecv =>
    have hdrop := (stays_recv hrecv).trans (stays_dropConn t' c)
    exact hdrop.trans (stays_of_eq rfl rfl)
  | write c msg t' _ hreq => exact stays_request hreq
  | close c t' _ hreq => exact stays_request hreq
  | read c t' p _ hrecv => exact stays_recv hrecv
  | readNone c t' _ hrecv => exact (stays_recv hrecv).trans (stays_dropConn t' c)
  | drop c => exact stays_dropConn s c

end UdpTransport

namespace AcceptNode

/-! ## What one turn does to the sockets -/

section Pending

/-- Outside `select!` there is no call of `accept`, and what a call has registered is a
connection. -/
structure LoopInv (s : AcceptNode Addr) : Prop where
  idle : s.loop ≠ .selecting → s.transport.accepting = .waiting
  entry : ∀ c, s.transport.accepting = .registered c → c < s.transport.sockets.length

theorem pendingEntry_eq {s : AcceptNode Addr} {c : Nat}
    (h : s.transport.accepting = .registered c) :
    s.pendingEntry = (s.transport.sockets[c]?).toList := by
  unfold pendingEntry UdpTransport.sockets
  rw [h, List.getElem?_map]

theorem pending_waiting {s : AcceptNode Addr} (h : s.transport.accepting = .waiting) :
    s.pending = [] ∧ s.pendingEntry = [] := by
  unfold pending pendingEntry
  rw [h]
  exact ⟨rfl, rfl⟩

theorem pending_taken {s : AcceptNode Addr} {socket : Addr}
    (h : s.transport.accepting = .taken socket) : s.pending = [socket] ∧ s.pendingEntry = [] := by
  unfold pending pendingEntry
  rw [h]
  exact ⟨rfl, rfl⟩

theorem pending_registered {s : AcceptNode Addr} {c : Nat}
    (h : s.transport.accepting = .registered c) : s.pending = s.pendingEntry := by
  unfold pending
  rw [h]

/-- The call of `accept` still holds the same socket. -/
theorem pending_stays {s : AcceptNode Addr} (s' : AcceptNode Addr) (hI : s.LoopInv)
    (h : UdpTransport.Stays s.transport s'.transport) :
    s'.pending = s.pending ∧ s'.pendingEntry = s.pendingEntry := by
  cases hacc : s.transport.accepting with
  | waiting =>
    have h' := pending_waiting (s := s') (h.accepting.trans hacc)
    rw [h'.1, h'.2, (pending_waiting hacc).1, (pending_waiting hacc).2]
    exact ⟨rfl, rfl⟩
  | taken socket =>
    have h' := pending_taken (s := s') (h.accepting.trans hacc)
    rw [h'.1, h'.2, (pending_taken hacc).1, (pending_taken hacc).2]
    exact ⟨rfl, rfl⟩
  | registered c =>
    have hacc' := h.accepting.trans hacc
    have hget : s'.pendingEntry = s.pendingEntry := by
      rw [pendingEntry_eq hacc, pendingEntry_eq hacc']
      obtain ⟨rest, hrest⟩ := h.sockets
      rw [← hrest, List.getElem?_append_left (hI.entry c hacc)]
    rw [pending_registered hacc, pending_registered hacc', hget]
    exact ⟨rfl, rfl⟩

end Pending

variable [DecidableEq Addr]

/-- What one turn does to the sockets of the new peers. -/
inductive Move (s s' : AcceptNode Addr) (a : LoopAct Addr) : Prop
  /-- nothing -/
  | keep (ha : s.NotAbandoned a) (pending : s'.pending = s.pending)
      (entry : s'.pendingEntry = s.pendingEntry) (taken : s'.taken = s.taken)
      (registered : s'.registered = s.registered)
      (acknowledged : s'.acknowledged = s.acknowledged) (handed : s'.handed = s.handed)
  /-- one is taken -/
  | take (x : Addr) (ha : s.NotAbandoned a) (before : s.pending = []) (after : s'.pending = [x])
      (entry : s'.pendingEntry = s.pendingEntry) (taken : s'.taken = s.taken ++ [x])
      (registered : s'.registered = s.registered)
      (acknowledged : s'.acknowledged = s.acknowledged) (handed : s'.handed = s.handed)
  /-- its entry is made -/
  | insert (x : Addr) (ha : s.NotAbandoned a) (pending : s'.pending = s.pending)
      (before : s.pendingEntry = []) (after : s'.pendingEntry = [x]) (taken : s'.taken = s.taken)
      (registered : s'.registered = s.registered ++ [x])
      (acknowledged : s'.acknowledged = s.acknowledged) (handed : s'.handed = s.handed)
  /-- it is acknowledged and handed over -/
  | hand (x : Addr) (ha : s.NotAbandoned a) (before : s.pending = [x])
      (entryBefore : s.pendingEntry = [x]) (after : s'.pending = [])
      (entryAfter : s'.pendingEntry = []) (taken : s'.taken = s.taken)
      (registered : s'.registered = s.registered)
      (acknowledged : s'.acknowledged = s.acknowledged ++ [x])
      (handed : s'.handed = s.handed ++ [x])
  /-- it is lost -/
  | lose (x : Addr) (ha : ¬ s.NotAbandoned a) (before : s.pending = [x]) (after : s'.pending = [])
      (taken : s'.taken = s.taken) (handed : s'.handed = s.handed)

/-- The turn in which `accept` returns, or panics. -/
theorem move_ack {s s' : AcceptNode Addr} (hs : s.step .ack = some s') :
    Move s s' .ack ∧ s'.LoopInv := by
  simp only [step] at hs
  split at hs
  swap
  · simp at hs
  split at hs
  swap
  · simp at hs
  rename_i c hacc
  split at hs
  · simp at hs
  rename_i conn hconn
  obtain ⟨t, ht, hs⟩ := Option.map_eq_some_iff.mp hs
  have hentry : s.pendingEntry = [conn.remoteSocket] := by
    rw [pendingEntry_eq hacc, UdpTransport.sockets, List.getElem?_map, hconn]
    rfl
  have hpending := (pending_registered hacc).trans hentry
  cases UdpTransport.step_turn ht with
  | ack c' t' hacc' hreq =>
    obtain rfl := Accepting.registered.inj (hacc.symm.trans hacc')
    by_cases hrun : s.transport.running = true
    · rw [if_pos hrun] at hs
      obtain ⟨conn', hconn', ht'⟩ :
          ∃ conn', s.transport.conns[c]? = some conn' ∧ t' = { s.transport with
            writeReq := s.transport.writeReq ++ [(conn'.remoteSocket, ackPacket)] } := by
        unfold UdpTransport.request at hreq
        rw [hconn] at hreq
        dsimp only at hreq
        rw [if_pos hrun] at hreq
        split at hreq
        · exact ⟨conn, hconn, (Option.some.inj hreq).symm⟩
        · simp at hreq
      obtain rfl := Option.some.inj (hconn.symm.trans hconn')
      subst hs
      refine ⟨.hand conn.remoteSocket hrun hpending hentry (pending_waiting rfl).1
        (pending_waiting rfl).2 rfl rfl ?_ rfl, fun _ => rfl, by simp⟩
      dsimp only
      rw [ht', if_pos rfl]
    · -- `io_loop` has ended: the acknowledgement cannot be queued, and `accept` panics
      rw [if_neg hrun] at hs
      subst hs
      exact ⟨.lose conn.remoteSocket hrun hpending (pending_waiting rfl).1 rfl rfl, fun _ => rfl,
        by simp⟩

/-- The turn in which `select!` takes a command. -/
theorem move_command {s s' : AcceptNode Addr} (hI : s.LoopInv) (hs : s.step .command = some s') :
    Move s s' .command ∧ s'.LoopInv := by
  simp only [step] at hs
  split at hs
  swap
  · simp at hs
  obtain rfl := Option.some.inj hs
  cases hacc : s.transport.accepting with
  | waiting =>
    have hnone : s.transport.step .acceptDrop = none := by simp [UdpTransport.step, hacc]
    rw [hnone, Option.getD_none]
    exact ⟨.keep hacc rfl rfl rfl rfl rfl rfl, fun _ => hacc, hI.entry⟩
  | taken socket =>
    -- the call is dropped between the queue and the map
    have hsome : s.transport.step .acceptDrop =
        some { s.transport with accepting := .waiting } := by
      simp [UdpTransport.step, hacc]
    rw [hsome, Option.getD_some]
    refine ⟨.lose socket ?_ (pending_taken hacc).1 (pending_waiting rfl).1 rfl rfl, fun _ => rfl,
      by simp⟩
    rw [NotAbandoned, hacc]
    simp
  | registered c =>
    -- the call is dropped before the acknowledgement; the entry stays behind
    have hsome : s.transport.step .acceptDrop =
        some { s.transport.dropConn c with accepting := .waiting } := by
      simp [UdpTransport.step, hacc]
    rw [hsome, Option.getD_some]
    obtain ⟨socket, hget⟩ : ∃ socket, s.transport.sockets[c]? = some socket :=
      ⟨_, List.getElem?_eq_getElem (hI.entry c hacc)⟩
    refine ⟨.lose socket ?_ ?_ (pending_waiting rfl).1 rfl rfl, fun _ => rfl, by simp⟩
    · rw [NotAbandoned, hacc]
      simp
    · rw [pending_registered hacc, pendingEntry_eq hacc, hget]
      rfl

/-- The turn in which `accept` takes a socket from the queue. -/
theorem move_take {s s' : AcceptNode Addr} (hs : s.step .take = some s') :
    Move s s' .take ∧ s'.LoopInv := by
  simp only [step] at hs
  split at hs
  swap
  · simp at hs
  rename_i hsel
  split at hs
  · simp at hs
  rename_i socket rest hq
  obtain ⟨t, ht, rfl⟩ := Option.map_eq_some_iff.mp hs
  cases UdpTransport.step_turn ht with
  | take socket' rest' hacc hq' =>
    obtain ⟨rfl, rfl⟩ := List.cons.inj (hq.symm.trans hq')
    obtain ⟨hp, he⟩ := pending_waiting hacc
    exact ⟨.take socket trivial hp (pending_taken rfl).1 ((pending_taken rfl).2.trans he.symm) rfl
      rfl rfl rfl, fun hl => absurd hsel hl, by simp⟩

/-- The turn in which `accept` registers the socket that it has taken. -/
theorem move_insert {s s' : AcceptNode Addr} (hs : s.step .insert = some s') :
    Move s s' .insert ∧ s'.LoopInv := by
  simp only [step] at hs
  split at hs
  swap
  · simp at hs
  rename_i hsel
  split at hs
  swap
  · simp at hs
  rename_i socket hacc
  obtain ⟨t, ht, rfl⟩ := Option.map_eq_some_iff.mp hs
  cases UdpTransport.step_turn ht with
  | insert socket' hacc' =>
    obtain rfl := Accepting.taken.inj (hacc.symm.trans hacc')
    have hsock := UdpTransport.sockets_register s.transport socket
    have hlen : s.transport.sockets.length = s.transport.conns.length := List.length_map ..
    obtain ⟨hp, he⟩ := pending_taken hacc
    -- the entry is the last connection, and its socket the one that was taken
    have hentry : AcceptNode.pendingEntry { s with
        transport := { s.transport.register socket with
          accepting := .registered s.transport.conns.length } } = [socket] := by
      rw [pendingEntry_eq rfl]
      show ((s.transport.register socket).sockets[s.transport.conns.length]?).toList = _
      rw [hsock, ← hlen, List.getElem?_append_right (Nat.le_refl _), Nat.sub_self]
      rfl
    refine ⟨.insert socket trivial ?_ he hentry rfl ?_ rfl rfl, fun hl => absurd hsel hl,
      fun c hc => ?_⟩
    · rw [hp]
      exact (pending_registered rfl).trans hentry
    · exact congrArg (s.registered ++ ·) (if_pos (Function.update_self ..))
    · obtain rfl := Accepting.registered.inj hc
      show _ < (s.transport.register socket).sockets.length
      rw [hsock, List.length_append, ← hlen]
      exact Nat.lt_succ_self _

/-- **Every turn** is one of these, and keeps the invariant of the loop. -/
theorem step_move {s s' : AcceptNode Addr} {a : LoopAct Addr} (hI : s.LoopInv)
    (hs : s.step a = some s') : Move s s' a ∧ s'.LoopInv := by
  cases a with
  | transport a =>
    -- a turn of the transport alone: the pending call stands where it stood
    simp only [step] at hs
    split at hs
    · simp at hs
    rename_i ha
    obtain ⟨t, ht, rfl⟩ := Option.map_eq_some_iff.mp hs
    have hst := UdpTransport.step_stays ht (eq_false_of_ne_true ha)
    obtain ⟨hp, he⟩ := pending_stays { s with transport := t } hI hst
    refine ⟨.keep trivial hp he rfl rfl rfl rfl, fun hl => hst.accepting.trans (hI.idle hl),
      fun c hc => ?_⟩
    exact Nat.lt_of_lt_of_le (hI.entry c (hst.accepting.symm.trans hc)) hst.sockets.length_le
  | take => exact move_take hs
  | insert => exact move_insert hs
  | ack => exact move_ack hs
  | request =>
    obtain rfl := Option.some.inj hs
    exact ⟨.keep trivial rfl rfl rfl rfl rfl rfl, hI.idle, hI.entry⟩
  | command => exact move_command hI hs
  | done ok =>
    simp only [step] at hs
    split at hs
    swap
    · simp at hs
    rename_i hbusy
    obtain rfl := Option.some.inj hs
    -- while the loop is busy, no call is pending
    have hwait := hI.idle (by rw [hbusy]; simp)
    exact ⟨.keep trivial rfl rfl rfl rfl rfl rfl, fun _ => hwait, hI.entry⟩

/-- **One turn** with no socket lost before: it loses one exactly if it abandons the call. -/
theorem step_accounted_iff {s s' : AcceptNode Addr} {a : LoopAct Addr} (hI : s.LoopInv)
    (h : s.Accounted) (hs : s.step a = some s') : ¬ s'.Accounted ↔ ¬ s.NotAbandoned a := by
  refine not_congr ?_
  cases (step_move hI hs).1 with
  | keep ha hp he ht hr hk hh =>
    refine iff_of_true ⟨?_, ?_, ?_⟩ ha
    · rw [ht, hh, hp, h.taken]
    · rw [hr, hh, he, h.registered]
    · rw [hk, hh, h.acknowledged]
  | take x ha hb hp he ht hr hk hh =>
    refine iff_of_true ⟨?_, ?_, ?_⟩ ha
    · rw [ht, hh, hp, h.taken, hb, List.append_nil]
    · rw [hr, hh, he, h.registered]
    · rw [hk, hh, h.acknowledged]
  | insert x ha hp hb he ht hr hk hh =>
    refine iff_of_true ⟨?_, ?_, ?_⟩ ha
    · rw [ht, hh, hp, h.taken]
    · rw [hr, hh, he, h.registered, hb, List.append_nil]
    · rw [hk, hh, h.acknowledged]
  | hand x ha hb heb hp he ht hr hk hh =>
    refine iff_of_true ⟨?_, ?_, ?_⟩ ha
    · rw [ht, hh, hp, h.taken, hb, List.append_nil]
    · rw [hr, hh, he, h.registered, heb, List.append_nil]
    · rw [hk, hh, h.acknowledged]
  | lose x ha hb hp ht hh =>
    refine iff_of_false (fun h' => ?_) ha
    -- the list of those taken is one longer than that of those handed over
    have hlen := congrArg List.length h'.taken
    rw [ht, hh, hp, h.taken, hb, List.append_nil, List.length_append] at hlen
    simp at hlen

/-- A registered connection is handed over as soon as there is a place on the write queue. -/
theorem ack_completes {s : AcceptNode Addr} {c : Nat} {conn : UdpConn Addr}
    (hsel : s.loop = .selecting) (hacc : s.transport.accepting = .registered c)
    (hconn : s.transport.conns[c]? = some conn) (hrun : s.transport.running = true)
    (hroom : s.transport.writeReq.length < channelCapacity) :
    ∃ s', s.step .ack = some s' ∧ s'.handed = s.handed ++ [conn.remoteSocket] := by
  unfold step
  simp only [hsel, hacc, hconn, UdpTransport.step, UdpTransport.request, hrun, hroom, if_true,
    Option.map_some]
  exact ⟨_, rfl, rfl⟩

/-- A pending call that is not abandoned hands its socket over, once it gets the lock and a
place on the write queue. -/
theorem pending_completes {s : AcceptNode Addr} {socket : Addr} (hsel : s.loop = .selecting)
    (hacc : s.transport.accepting = .taken socket) (hrun : s.transport.running = true)
    (hroom : s.transport.writeReq.length < channelCapacity) :
    ∃ s₁ s₂, s.step .insert = some s₁ ∧ s₁.step .ack = some s₂ ∧
      s₂.handed = s.handed ++ [socket] := by
  have hinsert : s.step .insert = some { s with
      transport := { s.transport.register socket with
        accepting := .registered s.transport.conns.length }
      registered := s.registered ++ [socket] } := by
    simp [step, hsel, hacc, UdpTransport.step, UdpTransport.register]
  have hconn : (s.transport.register socket).conns[s.transport.conns.length]? =
      some { remoteSocket := socket } := by
    unfold UdpTransport.register
    rw [List.getElem?_append_right (Nat.le_refl _), Nat.sub_self]
    rfl
  obtain ⟨s₂, hack, hhanded⟩ := ack_completes (s := { s with
      transport := { s.transport.register socket with
        accepting := .registered s.transport.conns.length }
      registered := s.registered ++ [socket] }) hsel rfl hconn hrun hroom
  exact ⟨_, s₂, hinsert, hack, hhanded⟩

end AcceptNode

/-- **When no socket is lost.** In every run, each socket that `accept` takes off the queue of new
peers is registered, acknowledged and handed to `conn_handler`, or is the one that the pending
call holds, exactly if no call is abandoned. -/
theorem none_lost_iff [DecidableEq Addr] (localPeerId : String) (as : List (LoopAct Addr)) :
    (acceptNode Addr localPeerId).Avoids (fun s => ¬ s.Accounted)
        { transport := { localPeerId } } as ↔
      (acceptNode Addr localPeerId).Guarded AcceptNode.NotAbandoned
        { transport := { localPeerId } } as := by
  refine avoids_iff_guarded (fun s a s' hI hs => (AcceptNode.step_move hI hs).2)
    (fun s a s' hI hgood hs => AcceptNode.step_accounted_iff hI (not_not.mp hgood) hs) as _
    ⟨fun _ => rfl, by simp⟩ (not_not.mpr ⟨rfl, rfl, rfl⟩)

/-- A peer connects, `accept` takes its socket and waits for the lock; a command comes. -/
def abandoned : List (LoopAct Nat) :=
  [.transport (.recvFrom 7 (serializeUdpPacket [98] .connect)), .transport .announce, .take,
    .request, .command]

theorem abandoned_enabled :
    ((acceptNode Nat "a").exec (fun _ _ => True) { transport := { localPeerId := "a" } }
      abandoned).any (fun s => decide (s.taken = [7] ∧ s.transport.newPeer = [] ∧ s.handed = [] ∧
        s.transport.accepting = .waiting)) = true := by decide +kernel

theorem taken_socket_lost : ∃ s, (acceptNode Nat "a").Run abandoned s ∧ s.taken = [7] ∧
    s.transport.newPeer = [] ∧ s.handed = [] ∧ ¬ s.Accounted := by
  obtain ⟨s, hs, hq⟩ := (Option.any_eq_true ..).mp abandoned_enabled
  obtain ⟨htaken, hnew, hhanded, hacc⟩ := of_decide_eq_true hq
  refine ⟨s, runUnder_of_exec rfl hs, htaken, hnew, hhanded, fun h => ?_⟩
  have htaken' := h.taken
  rw [htaken, hhanded, (AcceptNode.pending_waiting hacc).1] at htaken'
  simp at htaken'

end Model

end Rnet.Udp
