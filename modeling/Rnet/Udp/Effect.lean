import Rnet.Udp.Turn

/-!
# What a turn does to the entries, the connections and the loop

> `step_effect`: every turn ends `io_loop` or has one of the effects listed in `Effect`.

> `wf_of_reachable`: what holds of every state.

> `step_account`: what has been received and what is due grow by the same datagrams.
-/

namespace Rnet.Udp

open Rnet.Lib

section Effects

variable {Addr : Type}

namespace UdpTransport

/-- The socket of a connection, what it has received and what it should have. -/
abbrev Record (Addr : Type) : Type := Addr × List (List UInt8) × List (List UInt8)

def records (s : UdpTransport Addr) : List (Record Addr) :=
  s.conns.map fun conn => (conn.remoteSocket, conn.put, conn.due)

/-- The payload in `io_loop`'s hand that is for connection `c`. -/
def handFor (s : UdpTransport Addr) (c : Nat) : List (List UInt8) :=
  match s.inHand with
  | some (c', payload) => if c' = c then [payload] else []
  | none => []

/-- The payloads due to connection `c`. -/
def dueTo (s : UdpTransport Addr) (c : Nat) : List (List UInt8) :=
  ((s.records[c]?).map (·.2.2)).getD []

/-- The payloads that connection `c` has received, the one in the loop's hand included. -/
def received (s : UdpTransport Addr) (c : Nat) : List (List UInt8) :=
  ((s.records[c]?).map (·.2.1)).getD [] ++ s.handFor c

/-- The turn ends `io_loop`. -/
def Fatal (s : UdpTransport Addr) : UdpAct Addr → Prop
  | .recvFrom remote bytes =>
    (∃ payload, deserializeUdpPacket bytes = some (.general, payload)) ∧ s.peerstore remote = none
  | .put => ∃ c payload, s.inHand = some (c, payload) ∧ s.aliveAt c = false
  | .writeReq ok => ok = false ∧ ∃ e, s.writeReq.head? = some e ∧ INTERNAL.isPrefixOf e.2 = false
  | _ => False

/-- The socket that the turn makes an entry for. -/
def inserts (s : UdpTransport Addr) : UdpAct Addr → Option Addr
  | .acceptInsert =>
    match s.accepting with
    | .taken socket => some socket
    | _ => none
  | .dialInsert d =>
    match s.dials[d]? with
    | some (.sent socket) => some socket
    | _ => none
  | _ => none

/-- What `io_loop` handles in the turn, and where it is from. -/
def handles (s : UdpTransport Addr) : UdpAct Addr → Option (Addr × UdpPacketFlag × List UInt8)
  | .recvFrom remote bytes =>
    (deserializeUdpPacket bytes).map (remote, ·)
  | .writeReq _ =>
    match s.writeReq with
    | (socket, frame) :: _ =>
      if INTERNAL.isPrefixOf frame then
        (deserializeUdpPacket (frame.drop INTERNAL.length)).map (socket, ·)
      else none
    | [] => none
  | _ => none

/-- The entries, the connections and the loop as far as deliveries go. -/
structure Same (s s' : UdpTransport Addr) : Prop where
  running : s'.running = s.running
  peerstore : s'.peerstore = s.peerstore
  inHand : s'.inHand = s.inHand
  records : s'.records = s.records
  alive : ∀ c, s'.aliveAt c = true → s.aliveAt c = true

theorem handFor_none {s : UdpTransport Addr} (h : s.inHand = none) (c : Nat) :
    s.handFor c = [] := by
  rw [handFor, h]

theorem handFor_some {s : UdpTransport Addr} {k : Nat} {p : List UInt8}
    (h : s.inHand = some (k, p)) (c : Nat) : s.handFor c = if k = c then [p] else [] := by
  rw [handFor, h]

theorem handFor_of_eq {s s' : UdpTransport Addr} (h : s'.inHand = s.inHand) (c : Nat) :
    s'.handFor c = s.handFor c := by
  rw [handFor, handFor, h]

theorem received_of_record {s : UdpTransport Addr} {c : Nat} {e : Record Addr}
    (h : s.records[c]? = some e) : s.received c = e.2.1 ++ s.handFor c := by
  rw [received, h]
  rfl

theorem dueTo_of_record {s : UdpTransport Addr} {c : Nat} {e : Record Addr}
    (h : s.records[c]? = some e) : s.dueTo c = e.2.2 := by
  rw [dueTo, h]
  rfl

/-- A change of one connection, in the records. -/
theorem records_modify (s : UdpTransport Addr) (c : Nat) {f : UdpConn Addr → UdpConn Addr}
    {g : Record Addr → Record Addr}
    (hf : ∀ conn, ((f conn).remoteSocket, (f conn).put, (f conn).due)
      = g (conn.remoteSocket, conn.put, conn.due)) :
    (s.setConn c f).records = s.records.modify c g := by
  rw [records, records, setConn]
  refine List.ext_getElem? fun i => ?_
  rw [List.getElem?_map, List.getElem?_modify, List.getElem?_modify, List.getElem?_map]
  cases s.conns[i]? with
  | none => rfl
  | some conn =>
    by_cases h : c = i
    · simp [h, hf]
    · simp [h]

theorem records_setConn (s : UdpTransport Addr) (c : Nat) {f : UdpConn Addr → UdpConn Addr}
    (hf : ∀ conn, ((f conn).remoteSocket, (f conn).put, (f conn).due)
      = (conn.remoteSocket, conn.put, conn.due)) : (s.setConn c f).records = s.records := by
  rw [records_modify s c (g := id) hf, List.modify_id]

theorem aliveAt_setConn (s : UdpTransport Addr) (c : Nat) {f : UdpConn Addr → UdpConn Addr}
    (hf : ∀ conn, (f conn).alive = true → conn.alive = true) (k : Nat)
    (h : (s.setConn c f).aliveAt k = true) : s.aliveAt k = true := by
  rw [aliveAt, setConn, List.getElem?_modify] at h
  rw [aliveAt]
  cases hk : s.conns[k]? with
  | none => simp [hk] at h
  | some conn =>
    rw [hk] at h
    by_cases hc : c = k
    · subst hc
      simp only [if_true, Option.map_eq_map, Option.map_some, Option.any_some] at h
      exact hf conn h
    · simpa [hc] using h

theorem aliveAt_register [DecidableEq Addr] (s : UdpTransport Addr) (socket : Addr) (k : Nat)
    (hk : k ≠ s.conns.length) (h : (s.register socket).aliveAt k = true) : s.aliveAt k = true := by
  rw [aliveAt, register, List.getElem?_append] at h
  rw [aliveAt]
  split at h
  · exact h
  · have hgt : k - s.conns.length ≠ 0 := by omega
    cases hj : k - s.conns.length with
    | zero => exact absurd hj hgt
    | succ j => simp [hj] at h

theorem records_register [DecidableEq Addr] (s : UdpTransport Addr) (socket : Addr) :
    (s.register socket).records = s.records ++ [(socket, [], [])] := by
  simp [records, register]

theorem dropConn_same (s : UdpTransport Addr) (c : Nat) : Same s (s.dropConn c) :=
  ⟨rfl, rfl, rfl, records_setConn s c fun _ => rfl, aliveAt_setConn s c (by simp)⟩

theorem request_same {s s' : UdpTransport Addr} {c : Nat} {frame : List UInt8}
    (h : s.request c frame = some s') : Same s s' := by
  rcases request_cases h with rfl | ⟨conn, -, rfl⟩
  · exact dropConn_same s c
  · exact ⟨rfl, rfl, rfl, rfl, fun _ h => h⟩

theorem recv_same {s s' : UdpTransport Addr} {c : Nat} {r : Option (List UInt8)}
    (h : s.recv c = some (s', r)) : Same s s' := by
  obtain ⟨conn, -, ⟨p, rest, -, -, rfl⟩ | ⟨-, -, -, rfl⟩⟩ := recv_cases h
  · exact ⟨rfl, rfl, rfl, records_setConn s c fun _ => rfl, aliveAt_setConn s c (by simp)⟩
  · exact ⟨rfl, rfl, rfl, rfl, fun _ h => h⟩

theorem Same.trans {s s' s'' : UdpTransport Addr} (h : Same s s') (h' : Same s' s'') :
    Same s s'' :=
  ⟨h'.running.trans h.running, h'.peerstore.trans h.peerstore, h'.inHand.trans h.inHand,
    h'.records.trans h.records, fun c hc => h.alive c (h'.alive c hc)⟩

/-- What holds of every state of a transport. -/
structure Wf (s : UdpTransport Addr) : Prop where
  frames : ∀ e ∈ s.writeReq, Outgoing e.2
  entries : ∀ a c, s.peerstore a = some c → ∃ e, s.records[c]? = some e ∧ e.1 = a
  hand : ∀ c p, s.inHand = some (c, p) → c < s.records.length

variable [DecidableEq Addr]

/-- `io_loop` has ended, and nothing else happened. -/
structure Stops (s s' : UdpTransport Addr) : Prop where
  running : s'.running = false
  inHand : s'.inHand = none
  peerstore : s'.peerstore = s.peerstore
  records : s'.records = s.records

/-- What a turn that does not end `io_loop` does to them. -/
inductive Effect (s : UdpTransport Addr) (a : UdpAct Addr) (s' : UdpTransport Addr) : Prop
  | same (hins : s.inserts a = none) (hrem : ∀ r p, s.handles a ≠ some (r, .disconnect, p))
      (harr : ∀ r b p, a = .recvFrom r b → deserializeUdpPacket b ≠ some (.general, p))
      (h : Same s s')
  | inserted (socket : Addr) (hins : s.inserts a = some socket)
      (hrem : ∀ r p, s.handles a ≠ some (r, .disconnect, p)) (hrun : s'.running = s.running)
      (hps : s'.peerstore = Function.update s.peerstore socket (some s.conns.length))
      (hhand : s'.inHand = s.inHand) (hrec : s'.records = s.records ++ [(socket, [], [])])
      (halive : ∀ c, c ≠ s.conns.length → s'.aliveAt c = true → s.aliveAt c = true)
  | removed (r : Addr) (p : List UInt8) (hins : s.inserts a = none)
      (hrem : s.handles a = some (r, .disconnect, p)) (hrun : s'.running = s.running)
      (hps : s'.peerstore = Function.update s.peerstore r none)
      (hhand : s'.inHand = s.inHand) (hrec : s'.records = s.records)
      (halive : ∀ c, s'.aliveAt c = true → s.aliveAt c = true)
  | took (r : Addr) (b p : List UInt8) (c : Nat) (ha : a = .recvFrom r b)
      (hb : deserializeUdpPacket b = some (.general, p)) (hc : s.peerstore r = some c)
      (hrun : s'.running = s.running) (hps : s'.peerstore = s.peerstore) (hidle : s.inHand = none)
      (hhand : s'.inHand = some (c, p.take (bufferLength - 1)))
      (hrec : s'.records = s.records.modify c fun e => (e.1, e.2.1, e.2.2 ++ [p]))
      (halive : ∀ c, s'.aliveAt c = s.aliveAt c)
  | put (c : Nat) (p : List UInt8) (ha : a = .put) (hp : s.inHand = some (c, p))
      (hrun : s'.running = s.running) (hps : s'.peerstore = s.peerstore) (hhand : s'.inHand = none)
      (hrec : s'.records = s.records.modify c fun e => (e.1, e.2.1 ++ [p], e.2.2))
      (halive : ∀ c, s'.aliveAt c = true → s.aliveAt c = true)

/-- `io_loop` receives a datagram. -/
theorem recv_effect {s : UdpTransport Addr} (r : Addr) (b : List UInt8)
    (hst : s.stands = .select) {t : UdpTransport Addr} (ht : s.Receipt r b t) :
    s.Fatal (.recvFrom r b) ∧ Stops s t ∨
      ¬ s.Fatal (.recvFrom r b) ∧ Effect s (.recvFrom r b) t := by
  have hidle : s.inHand = none := by rw [inHand, hst]
  have only : ∀ {x : Option (UdpPacketFlag × List UInt8)}, deserializeUdpPacket b = x →
      (∀ p, x ≠ some (.general, p)) → ∀ r' b' p, UdpAct.recvFrom r b = .recvFrom r' b' →
        deserializeUdpPacket b' ≠ some (.general, p) := by
    intro x hx hno r' b' p h
    rw [← (UdpAct.recvFrom.inj h).2, hx]
    exact hno p
  cases ht with
  | unknown hb =>
    refine Or.inr ⟨by simp [Fatal, hb], .same rfl (by simp [handles, hb]) (only hb (by simp)) ?_⟩
    exact ⟨rfl, rfl, rfl, rfl, fun _ h => h⟩
  | connect p hb =>
    refine Or.inr ⟨by simp [Fatal, hb], .same rfl (by simp [handles, hb]) (only hb (by simp)) ?_⟩
    exact ⟨rfl, rfl, hidle.symm, rfl, fun _ h => h⟩
  | disconnect p hb =>
    refine Or.inr ⟨by simp [Fatal, hb], .removed r p rfl ?_ rfl rfl rfl rfl fun _ h => h⟩
    simp [handles, hb]
  | stops p hb hc => exact Or.inl ⟨⟨⟨p, hb⟩, hc⟩, ⟨rfl, rfl, rfl, rfl⟩⟩
  | takes p c hb hc =>
    refine Or.inr ⟨fun h => by simp [Fatal, hc] at h,
      .took r b p c rfl hb hc rfl rfl hidle rfl (records_modify s c fun _ => rfl) ?_⟩
    intro k
    rw [aliveAt, setConn, aliveAt, List.getElem?_modify]
    cases s.conns[k]? with
    | none => rfl
    | some conn => by_cases hk : c = k <;> simp [hk]

/-- Turns of the tasks besides `io_loop` that make no entry. -/
theorem same_effect {s s' : UdpTransport Addr} {a : UdpAct Addr} (h : Same s s')
    (hfatal : ¬ s.Fatal a) (hins : s.inserts a = none) (hh : s.handles a = none) :
    s.Fatal a ∧ Stops s s' ∨ ¬ s.Fatal a ∧ Effect s a s' := by
  refine Or.inr ⟨hfatal, .same hins (by simp [hh]) ?_ h⟩
  intro r b p h hb
  subst h
  rw [handles, hb] at hh
  simp at hh

/-- **One turn**: it ends `io_loop`, or has one of the listed effects. -/
theorem step_effect {s s' : UdpTransport Addr} (hw : Wf s) {a : UdpAct Addr}
    (hs : s.step a = some s') : s.Fatal a ∧ Stops s s' ∨ ¬ s.Fatal a ∧ Effect s a s' := by
  cases step_turn hs with
  | recv r b hst => exact recv_effect r b hst (s.receipt r b)
  | internal ok e rest hst hq hint =>
    have hdisc := internal_disconnect (hw.frames e (by rw [hq]; exact List.mem_cons_self ..)) hint
    rw [handleIncoming_disconnect e.1 hdisc]
    refine Or.inr ⟨?_, .removed e.1 (toUtf8 "disconnect") rfl ?_ rfl rfl rfl rfl fun _ h => h⟩
    · intro h
      obtain ⟨-, f, hf, hno⟩ := h
      rw [hq, List.head?_cons] at hf
      rw [← Option.some.inj hf, hint] at hno
      simp at hno
    · simp only [handles, hq]
      rw [if_pos hint, hdisc]
      rfl
  | sent e rest hst hq hint =>
    refine same_effect ⟨rfl, rfl, rfl, rfl, fun _ h => h⟩ (fun h => by simp [Fatal] at h) rfl ?_
    simp [handles, hq, hint]
  | unsent e rest hst hq hint =>
    exact Or.inl ⟨⟨rfl, e, by rw [hq]; rfl, hint⟩, ⟨rfl, rfl, rfl, rfl⟩⟩
  | announce socket hst =>
    refine same_effect ⟨rfl, rfl, ?_, rfl, fun _ h => h⟩ id rfl rfl
    rw [inHand, inHand, hst]
  | put c p hst halive =>
    have hhand : s.inHand = some (c, p) := by rw [inHand, hst]
    refine Or.inr ⟨?_, .put c p rfl hhand rfl rfl rfl (records_modify s c fun _ => rfl)
      (aliveAt_setConn s c (by simp))⟩
    intro h
    obtain ⟨c', p', hhand', hdead⟩ := h
    obtain ⟨rfl, rfl⟩ := Prod.mk.inj (Option.some.inj (hhand.symm.trans hhand'))
    rw [halive] at hdead
    simp at hdead
  | putDead c p hst hdead =>
    exact Or.inl ⟨⟨c, p, by rw [inHand, hst], hdead⟩, ⟨rfl, rfl, rfl, rfl⟩⟩
  | take | dropTaken | dial => exact same_effect ⟨rfl, rfl, rfl, rfl, fun _ h => h⟩ id rfl rfl
  | insert socket hacc =>
    refine Or.inr ⟨id, .inserted socket ?_ (by simp [handles]) rfl rfl rfl
      (records_register s socket) (aliveAt_register s socket)⟩
    simp only [inserts, hacc]
  | ack c t hacc hreq =>
    have h := request_same hreq
    exact same_effect ⟨h.running, h.peerstore, h.inHand, h.records, h.alive⟩ id rfl rfl
  | dropRegistered c hacc =>
    have h := dropConn_same s c
    exact same_effect ⟨h.running, h.peerstore, h.inHand, h.records, h.alive⟩ id rfl rfl
  | dialInsert d socket hd =>
    refine Or.inr ⟨id, .inserted socket ?_ (by simp [handles]) rfl rfl rfl
      (records_register s socket) (aliveAt_register s socket)⟩
    simp only [inserts, hd]
  | dialReturn d c t hd hrecv =>
    have h := recv_same hrecv
    exact same_effect ⟨h.running, h.peerstore, h.inHand, h.records, h.alive⟩ id rfl rfl
  | dialFail d c t r hd hrecv hr =>
    have h := (recv_same hrecv).trans (dropConn_same t c)
    exact same_effect ⟨h.running, h.peerstore, h.inHand, h.records, h.alive⟩ id rfl rfl
  | write c msg t howned hreq | close c t howned hreq =>
    exact same_effect (request_same hreq) id rfl rfl
  | read c t p howned hrecv => exact same_effect (recv_same hrecv) id rfl rfl
  | readNone c t howned hrecv =>
    exact same_effect ((recv_same hrecv).trans (dropConn_same t c)) id rfl rfl
  | drop c howned => exact same_effect (dropConn_same s c) id rfl rfl

/-! ## What holds of every state -/

theorem Wf.init {s : UdpTransport Addr} {localPeerId : String} (h : (udp Addr localPeerId).init s) :
    Wf s := by
  obtain rfl := h
  exact ⟨by simp, by simp, by simp [inHand]⟩

/-- What a turn puts on the write queue. -/
theorem step_frames {s s' : UdpTransport Addr} (h : ∀ e ∈ s.writeReq, Outgoing e.2)
    {a : UdpAct Addr} (hs : s.step a = some s') : ∀ e ∈ s'.writeReq, Outgoing e.2 := by
  intro e he
  rcases step_writeReq hs e he with hold | ⟨socket, p, -, rfl⟩ | ⟨p, hp⟩ | hint
  · exact h e hold
  · exact Or.inl ⟨p, .connect, by simp, rfl⟩
  · exact Or.inl ⟨p, .general, by simp, hp⟩
  · exact Or.inr hint

/-- **One turn** keeps what holds of every state. -/
theorem Wf.step {s s' : UdpTransport Addr} (hw : Wf s) {a : UdpAct Addr}
    (hs : s.step a = some s') : Wf s' := by
  refine ⟨step_frames hw.frames hs, fun r c hc => ?_, fun c p hp => ?_⟩
  swap
  · rcases step_effect hw hs with ⟨-, h⟩ | ⟨-, h⟩
    · rw [h.inHand] at hp
      simp at hp
    · cases h with
      | same _ _ _ h =>
        rw [h.inHand] at hp
        rw [h.records]
        exact hw.hand c p hp
      | inserted socket _ _ _ _ hhand hrec =>
        rw [hhand] at hp
        rw [hrec, List.length_append]
        exact Nat.lt_add_right _ (hw.hand c p hp)
      | removed r _ _ _ _ _ hhand hrec =>
        rw [hhand] at hp
        rw [hrec]
        exact hw.hand c p hp
      | took r _ _ k _ _ hk _ _ _ hhand hrec =>
        rw [hhand] at hp
        obtain ⟨rfl, -⟩ := Prod.mk.inj (Option.some.inj hp)
        obtain ⟨e, he, -⟩ := hw.entries r k hk
        rw [hrec, List.length_modify]
        exact (List.getElem?_eq_some_iff.mp he).1
      | put _ _ _ _ _ _ hhand =>
        rw [hhand] at hp
        simp at hp
  have modified : ∀ {k : Nat} {g : Record Addr → Record Addr}, s'.records = s.records.modify k g →
      s'.peerstore = s.peerstore → (∀ e, (g e).1 = e.1) →
      ∃ e, s'.records[c]? = some e ∧ e.1 = r := by
    intro k g hrec hps hg
    rw [hps] at hc
    obtain ⟨e, he, hr⟩ := hw.entries r c hc
    rw [hrec, List.getElem?_modify, he]
    by_cases hk : k = c
    · exact ⟨g e, by simp [hk], (hg e).trans hr⟩
    · exact ⟨e, by simp [hk], hr⟩
  rcases step_effect hw hs with ⟨-, h⟩ | ⟨-, h⟩
  · rw [h.peerstore] at hc
    rw [h.records]
    exact hw.entries r c hc
  · cases h with
    | same _ _ _ h =>
      rw [h.peerstore] at hc
      rw [h.records]
      exact hw.entries r c hc
    | inserted socket _ _ _ hps _ hrec =>
      rw [hps] at hc
      have hlen : s.records.length = s.conns.length := List.length_map _
      by_cases hr : r = socket
      · subst hr
        rw [Function.update_self] at hc
        obtain rfl := Option.some.inj hc
        refine ⟨(r, [], []), ?_, rfl⟩
        rw [hrec, ← hlen, List.getElem?_concat_length]
      · rw [Function.update_of_ne hr] at hc
        obtain ⟨e, he, hr⟩ := hw.entries r c hc
        refine ⟨e, ?_, hr⟩
        rw [hrec, List.getElem?_append_left (List.getElem?_eq_some_iff.mp he).1]
        exact he
    | removed r' p _ _ _ hps _ hrec =>
      rw [hps] at hc
      by_cases hr : r = r'
      · subst hr
        simp at hc
      · rw [Function.update_of_ne hr] at hc
        rw [hrec]
        exact hw.entries r c hc
    | took r' b p k _ _ _ _ hps _ _ hrec => exact modified hrec hps fun _ => rfl
    | put k p _ _ _ hps _ hrec => exact modified hrec hps fun _ => rfl

theorem wf_of_reachable {localPeerId : String} {s : UdpTransport Addr}
    (h : (udp Addr localPeerId).Reachable s) : Wf s :=
  h.invariant Wf (fun _ => Wf.init) fun _ _ _ hw _ hs => hw.step hs

/-! ## The account of a connection -/

theorem stops_of_fatal {s t : UdpTransport Addr} (hw : Wf s) {a : UdpAct Addr}
    (hs : s.step a = some t) (h : s.Fatal a) : t.running = false := by
  rcases step_effect hw hs with ⟨-, hstop⟩ | ⟨hno, -⟩
  · exact hstop.running
  · exact absurd h hno

theorem effect_of_not_fatal {s t : UdpTransport Addr} (hw : Wf s) {a : UdpAct Addr}
    (hs : s.step a = some t) (h : ¬ s.Fatal a) : Effect s a t := by
  rcases step_effect hw hs with ⟨hfatal, -⟩ | ⟨-, heff⟩
  · exact absurd hfatal h
  · exact heff

theorem running_of_not_fatal {s t : UdpTransport Addr} (hw : Wf s) {a : UdpAct Addr}
    (hs : s.step a = some t) (h : ¬ s.Fatal a) : t.running = s.running := by
  cases effect_of_not_fatal hw hs h with
  | same _ _ _ h => exact h.running
  | inserted _ _ _ hrun | removed _ _ _ _ hrun | took _ _ _ _ _ _ _ hrun | put _ _ _ _ hrun =>
    exact hrun

/-- What becomes of an entry. -/
theorem step_peerstore {s t : UdpTransport Addr} (hw : Wf s) {a : UdpAct Addr}
    (hs : s.step a = some t) (h : ¬ s.Fatal a) (r : Addr) :
    (s.inserts a = some r ∧ t.peerstore r = some s.conns.length) ∨
    (s.inserts a ≠ some r ∧ (∃ p, s.handles a = some (r, .disconnect, p)) ∧
      t.peerstore r = none) ∨
    s.inserts a ≠ some r ∧ (∀ p, s.handles a ≠ some (r, .disconnect, p)) ∧
      t.peerstore r = s.peerstore r := by
  cases effect_of_not_fatal hw hs h with
  | same hins hrem _ h =>
    exact Or.inr (Or.inr ⟨by simp [hins], hrem r, by rw [h.peerstore]⟩)
  | inserted socket hins hrem _ hps =>
    by_cases hr : r = socket
    · exact Or.inl ⟨by rw [hins, hr], by rw [hps, hr, Function.update_self]⟩
    · refine Or.inr (Or.inr ⟨?_, hrem r, by rw [hps, Function.update_of_ne hr]⟩)
      rw [hins]
      exact fun he => hr (Option.some.inj he).symm
  | removed r' p hins hrem _ hps =>
    by_cases hr : r = r'
    · exact Or.inr (Or.inl ⟨by simp [hins], ⟨p, by rw [hrem, hr]⟩,
        by rw [hps, hr, Function.update_self]⟩)
    · refine Or.inr (Or.inr ⟨by simp [hins], fun q hq => ?_,
        by rw [hps, Function.update_of_ne hr]⟩)
      rw [hrem] at hq
      exact hr (Prod.mk.inj (Option.some.inj hq)).1.symm
  | took r' b p k ha hb _ _ hps =>
    refine Or.inr (Or.inr ⟨by simp [ha, inserts], fun q hq => ?_, by rw [hps]⟩)
    rw [ha, handles, hb] at hq
    simp at hq
  | put k p ha _ _ hps =>
    exact Or.inr (Or.inr ⟨by simp [ha, inserts], by simp [ha, handles], by rw [hps]⟩)

/-- **What a turn adds to the account of a connection**: nothing, or a `General` datagram from the
socket whose entry names it. -/
theorem step_account {s t : UdpTransport Addr} (hw : Wf s) {a : UdpAct Addr}
    (hs : s.step a = some t) (h : ¬ s.Fatal a) {c : Nat} (hc : c < s.records.length) :
    (t.dueTo c = s.dueTo c ∧ t.received c = s.received c ∧
      ∀ r b p, a = .recvFrom r b → deserializeUdpPacket b = some (.general, p) →
        s.peerstore r ≠ some c) ∨
    ∃ r b p, a = .recvFrom r b ∧ deserializeUdpPacket b = some (.general, p) ∧
      s.peerstore r = some c ∧ t.peerstore r = some c ∧ t.aliveAt c = s.aliveAt c ∧
      t.dueTo c = s.dueTo c ++ [p] ∧
      t.received c = s.received c ++ [p.take (bufferLength - 1)] := by
  have untouched : t.records[c]? = s.records[c]? → t.handFor c = s.handFor c →
      t.dueTo c = s.dueTo c ∧ t.received c = s.received c := by
    intro hrec hhand
    rw [dueTo, dueTo, received, received, hrec, hhand]
    exact ⟨rfl, rfl⟩
  obtain ⟨e, he⟩ : ∃ e, s.records[c]? = some e := ⟨_, List.getElem?_eq_getElem hc⟩
  cases effect_of_not_fatal hw hs h with
  | same _ _ harr h =>
    obtain ⟨hdue, hgot⟩ := untouched (by rw [h.records]) (handFor_of_eq h.inHand c)
    exact Or.inl ⟨hdue, hgot, fun r b p ha hb => absurd hb (harr r b p ha)⟩
  | inserted socket hins _ _ _ hhand hrec =>
    obtain ⟨hdue, hgot⟩ := untouched (by rw [hrec, List.getElem?_append_left hc])
      (handFor_of_eq hhand c)
    exact Or.inl ⟨hdue, hgot, fun r b p ha _ => by simp [ha, inserts] at hins⟩
  | removed r' q _ hrem _ _ hhand hrec =>
    obtain ⟨hdue, hgot⟩ := untouched (by rw [hrec]) (handFor_of_eq hhand c)
    refine Or.inl ⟨hdue, hgot, fun r b p ha hb => ?_⟩
    rw [ha, handles, hb] at hrem
    simp at hrem
  | took r b p k ha hb hk _ hps hidle hhand hrec halive =>
    by_cases hkc : k = c
    · -- the whole payload becomes due, and what the buffer holds of it is in hand
      subst hkc
      have he' : t.records[k]? = some (e.1, e.2.1, e.2.2 ++ [p]) := by
        rw [hrec, List.getElem?_modify_eq, he]
        rfl
      refine Or.inr ⟨r, b, p, ha, hb, hk, by rw [hps, hk], halive k, ?_, ?_⟩
      · rw [dueTo_of_record he', dueTo_of_record he]
      · rw [received_of_record he', received_of_record he, handFor_none hidle,
          handFor_some hhand, if_pos rfl, List.append_nil]
    · obtain ⟨hdue, hgot⟩ := untouched (by rw [hrec, List.getElem?_modify_ne _ _ hkc])
        (by rw [handFor_some hhand, handFor_none hidle, if_neg hkc])
      refine Or.inl ⟨hdue, hgot, fun r' b' p' ha' _ hr => ?_⟩
      rw [← (UdpAct.recvFrom.inj (ha.symm.trans ha')).1, hk] at hr
      exact hkc (Option.some.inj hr)
  | put k p ha hp _ _ hhand hrec =>
    have hno : ∀ r b q, a = .recvFrom r b → deserializeUdpPacket b = some (.general, q) →
        s.peerstore r ≠ some c := fun r b q ha' => by simp [ha] at ha'
    by_cases hkc : k = c
    · -- the payload in hand is now in the channel
      subst hkc
      have he' : t.records[k]? = some (e.1, e.2.1 ++ [p], e.2.2) := by
        rw [hrec, List.getElem?_modify_eq, he]
        rfl
      refine Or.inl ⟨?_, ?_, hno⟩
      · rw [dueTo_of_record he', dueTo_of_record he]
      · rw [received_of_record he', received_of_record he, handFor_none hhand, handFor_some hp,
          if_pos rfl, List.append_nil]
    · obtain ⟨hdue, hgot⟩ := untouched (by rw [hrec, List.getElem?_modify_ne _ _ hkc])
        (by rw [handFor_none hhand, handFor_some hp, if_neg hkc])
      exact Or.inl ⟨hdue, hgot, hno⟩

/-- A new connection has nothing on its account. -/
theorem account_new {s t : UdpTransport Addr} (hw : Wf s) {a : UdpAct Addr}
    (hs : s.step a = some t) (h : ¬ s.Fatal a) {r : Addr} (hins : s.inserts a = some r) :
    t.received s.conns.length = t.dueTo s.conns.length := by
  have hlen : s.records.length = s.conns.length := List.length_map _
  cases effect_of_not_fatal hw hs h with
  | same hno | removed _ _ hno => simp [hno] at hins
  | took _ _ _ _ ha | put _ _ ha => simp [ha, inserts] at hins
  | inserted socket _ _ _ _ hhand hrec =>
    have he : t.records[s.conns.length]? = some (socket, [], []) := by
      rw [hrec, ← hlen, List.getElem?_concat_length]
    rw [received_of_record he, dueTo_of_record he, handFor_of_eq hhand]
    -- nothing can be in hand for it
    cases hp : s.inHand with
    | none => exact handFor_none hp _
    | some kp =>
      have hlt := hw.hand kp.1 kp.2 hp
      exact (handFor_some hp _).trans (if_neg (by omega))

/-- Who has an owner had one before. -/
theorem alive_of_step {s t : UdpTransport Addr} (hw : Wf s) {a : UdpAct Addr}
    (hs : s.step a = some t) (h : ¬ s.Fatal a) {c : Nat} (hc : c < s.records.length)
    (halive : t.aliveAt c = true) : s.aliveAt c = true := by
  rw [records, List.length_map] at hc
  cases effect_of_not_fatal hw hs h with
  | same _ _ _ h => exact h.alive c halive
  | inserted _ _ _ _ _ _ _ hal => exact hal c (Nat.ne_of_lt hc) halive
  | removed _ _ _ _ _ _ _ _ hal | put _ _ _ _ _ _ _ _ hal => exact hal c halive
  | took _ _ _ _ _ _ _ _ _ _ _ _ hal => rwa [hal c] at halive

omit [DecidableEq Addr] in
/-- The socket of a connection with an entry. -/
theorem Wf.socket_unique {s : UdpTransport Addr} (hw : Wf s) {r : Addr} {c : Nat}
    {e : Record Addr} (hr : s.peerstore r = some c) (he : s.records[c]? = some e) : r = e.1 := by
  obtain ⟨e', he', hsocket⟩ := hw.entries r c hr
  rw [he] at he'
  rw [← hsocket, Option.some.inj he']

end UdpTransport

/-- A payload that the buffer does not cut. -/
theorem uncut_of_fits {bytes p : List UInt8} (h : deserializeUdpPacket bytes = some (.general, p))
    (hfits : bytes.length ≤ bufferLength) : p.take (bufferLength - 1) = p := by
  rw [length_of_general h] at hfits
  exact List.take_of_length_le (by omega)

theorem fits_of_uncut {bytes p : List UInt8} (h : deserializeUdpPacket bytes = some (.general, p))
    (huncut : p.take (bufferLength - 1) = p) : bytes.length ≤ bufferLength := by
  have hle : p.length ≤ bufferLength - 1 := by
    rw [← huncut]
    exact List.length_take_le _ _
  have hpos : 0 < bufferLength := by decide
  rw [length_of_general h]
  omega

end Effects

end Rnet.Udp
