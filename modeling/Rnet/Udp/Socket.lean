import Rnet.Udp.Effect

/-!
# What is known of a socket

A socket that has sent nothing is known only to the node's own call of `dial`, and the connection
that the call makes is touched by nobody else until the call returns.

> `Only.step`: what does not come from the socket leaves no trace of it.

> `Waits.step`: the connection that a call of `dial` waits for stays as it is.
-/

namespace Rnet.Udp

open Rnet.Lib

section Socket

variable {Addr : Type}

namespace UdpTransport

variable [DecidableEq Addr]

/-- Connections stay in the list. -/
theorem step_length {s t : UdpTransport Addr} (hw : Wf s) {a : UdpAct Addr}
    (hs : s.step a = some t) : s.conns.length ≤ t.conns.length := by
  have hlen : ∀ u : UdpTransport Addr, u.records.length = u.conns.length :=
    fun u => List.length_map _
  rw [← hlen s, ← hlen t]
  rcases step_effect hw hs with ⟨-, h⟩ | ⟨-, h⟩
  · rw [h.records]
  · cases h with
    | same _ _ _ h => rw [h.records]
    | inserted _ _ _ _ _ _ hrec =>
      rw [hrec, List.length_append]
      omega
    | removed _ _ _ _ _ _ _ hrec => rw [hrec]
    | took _ _ _ _ _ _ _ _ _ _ _ hrec | put _ _ _ _ _ _ _ hrec =>
      rw [hrec, List.length_modify]

/-- The connections that calls of `accept` and `dial` have made exist. -/
structure Made (s : UdpTransport Addr) : Prop where
  waiting : ∀ i c : Nat, s.dials[i]? = some (.waiting c) → c < s.conns.length
  registered : ∀ c, s.accepting = .registered c → c < s.conns.length

/-- **One turn** keeps it so. -/
theorem Made.step {s t : UdpTransport Addr} (h : Made s) (hw : Wf s) {a : UdpAct Addr}
    (hs : s.step a = some t) : Made t := by
  have hlen := step_length hw hs
  refine ⟨fun i c hi => ?_, fun c hc => ?_⟩
  · rcases step_dials hs with heq | ⟨socket, -, heq⟩ | ⟨d, socket, -, -, heq, hlt⟩ |
      ⟨d, k, y, -, -, hy, heq⟩
    · rw [heq] at hi
      exact Nat.lt_of_lt_of_le (h.waiting i c hi) hlen
    · rw [heq, List.getElem?_append] at hi
      split at hi
      · exact Nat.lt_of_lt_of_le (h.waiting i c hi) hlen
      · have := List.mem_singleton.mp (List.mem_of_getElem? hi)
        simp at this
    · by_cases hc : c = s.conns.length
      · omega
      · rw [heq] at hi
        have hne : (.waiting s.conns.length : Dialing Addr) ≠ .waiting c :=
          fun he => hc (Dialing.waiting.inj he).symm
        exact Nat.lt_of_lt_of_le (h.waiting i c (dialing_of_set hne hi)) hlen
    · rw [heq] at hi
      exact Nat.lt_of_lt_of_le (h.waiting i c (dialing_of_set (hy c) hi)) hlen
  · rcases step_registered hs hc with hc | ⟨-, hlt⟩
    · exact Nat.lt_of_lt_of_le (h.registered c hc) hlen
    · exact hlt

/-! ## A socket that has sent nothing -/

/-- The socket is known to nothing but call `d` of `dial`, which has sent `Connect`, and to
connection `e`. -/
structure Only (s : UdpTransport Addr) (addr : Addr) (d e : Option Nat) : Prop where
  entry : s.peerstore addr = e
  conns : ∀ c conn, s.conns[c]? = some conn → conn.remoteSocket = addr → e = some c
  frames : ∀ f, (addr, f) ∈ s.writeReq → d.isSome ∧ ∃ p, f = serializeUdpPacket p .connect
  loop : s.stands ≠ .announcing addr
  newPeer : addr ∉ s.newPeer
  taken : s.accepting ≠ .taken addr
  dials : ∀ i, s.dials[i]? = some (.sent addr) → d = some i

namespace Only

variable {s : UdpTransport Addr} {addr : Addr} {d e : Option Nat} {i : Nat}

omit [DecidableEq Addr]

theorem stop (h : Only s addr d e) : Only s.stop addr d e :=
  ⟨h.entry, h.conns, by simp [UdpTransport.stop], by simp [UdpTransport.stop], h.newPeer, h.taken,
    h.dials⟩

theorem setConn (h : Only s addr d e) (c : Nat) {f : UdpConn Addr → UdpConn Addr}
    (hf : ∀ conn, (f conn).remoteSocket = conn.remoteSocket) : Only (s.setConn c f) addr d e := by
  refine ⟨h.entry, fun k conn hk hr => ?_, h.frames, h.loop, h.newPeer, h.taken, h.dials⟩
  rw [UdpTransport.setConn, List.getElem?_modify] at hk
  obtain ⟨old, hold, rfl⟩ := Option.map_eq_some_iff.mp hk
  refine h.conns k old hold ?_
  by_cases hc : c = k
  · rwa [if_pos hc, hf] at hr
  · rwa [if_neg hc] at hr

theorem dropConn (h : Only s addr d e) (c : Nat) : Only (s.dropConn c) addr d e :=
  h.setConn c fun _ => rfl

/-- A frame for another socket. -/
theorem push (h : Only s addr d e) {r : Addr} (hr : r ≠ addr) (frame : List UInt8) :
    Only { s with writeReq := s.writeReq ++ [(r, frame)] } addr d e := by
  refine ⟨h.entry, h.conns, fun f hf => ?_, h.loop, h.newPeer, h.taken, h.dials⟩
  rcases List.mem_append.mp hf with hf | hf
  · exact h.frames f hf
  · exact absurd (Prod.mk.inj (List.mem_singleton.mp hf)).1.symm hr

/-- The first frame is taken off the write queue. -/
theorem pop (h : Only s addr d e) {f : Addr × List UInt8} {rest : List (Addr × List UInt8)}
    (hq : s.writeReq = f :: rest) : Only { s with writeReq := rest } addr d e :=
  ⟨h.entry, h.conns, fun g hg => h.frames g (by rw [hq]; exact List.mem_cons_of_mem _ hg), h.loop,
    h.newPeer, h.taken, h.dials⟩

theorem request {t : UdpTransport Addr} {c : Nat} {frame : List UInt8} (h : Only s addr d e)
    (hc : e ≠ some c) (hreq : s.request c frame = some t) : Only t addr d e := by
  rcases request_cases hreq with rfl | ⟨conn, hconn, rfl⟩
  · exact h.dropConn c
  · exact h.push (fun hr => hc (h.conns c conn hconn hr)) frame

theorem recv {t : UdpTransport Addr} {c : Nat} {r : Option (List UInt8)} (h : Only s addr d e)
    (hrecv : s.recv c = some (t, r)) : Only t addr d e := by
  obtain ⟨conn, -, ⟨p, rest, -, -, rfl⟩ | ⟨-, -, -, rfl⟩⟩ := recv_cases hrecv
  · exact h.setConn c fun _ => rfl
  · exact h

variable [DecidableEq Addr]

/-- A connection to another socket. -/
theorem register (h : Only s addr d e) {socket : Addr} (hr : socket ≠ addr) :
    Only (s.register socket) addr d e := by
  refine ⟨?_, fun k conn hk hremote => ?_, h.frames, h.loop, h.newPeer, h.taken, h.dials⟩
  · exact (Function.update_of_ne hr.symm _ _).trans h.entry
  · rw [UdpTransport.register, List.getElem?_append] at hk
    split at hk
    · exact h.conns k conn hk hremote
    · rw [List.mem_singleton.mp (List.mem_of_getElem? hk)] at hremote
      exact absurd hremote hr

theorem handleIncoming (h : Only s addr d e) (data : List UInt8) {r : Addr} (hr : r ≠ addr) :
    Only (s.handleIncoming data r) addr d e := by
  rcases handleIncoming_cases s data r with ⟨heq, -⟩ | ⟨p, -, heq⟩ | ⟨p, -, heq⟩ | ⟨p, -, -, heq⟩ |
    ⟨p, c, -, -, heq⟩
  · rw [heq]
    exact h
  · rw [heq]
    refine ⟨h.entry, h.conns, h.frames, ?_, h.newPeer, h.taken, h.dials⟩
    exact fun hst => hr (Standing.announcing.inj hst)
  · rw [heq]
    exact ⟨(Function.update_of_ne hr.symm _ _).trans h.entry, h.conns, h.frames, h.loop, h.newPeer,
      h.taken, h.dials⟩
  · rw [heq]
    exact h.stop
  · rw [heq]
    exact ⟨h.entry, h.conns, h.frames, by simp, h.newPeer, h.taken, h.dials⟩

/-- **A turn that the socket has no part in** leaves no new trace of it. -/
theorem step (h : Only s addr d e) {a : UdpAct Addr} {s' : UdpTransport Addr}
    (hs : s.step a = some s') (hrecv : ∀ b, a ≠ .recvFrom addr b) (hdial : a ≠ .dial addr)
    (hins : ∀ i, d = some i → a ≠ .dialInsert i)
    (hfree : ∀ c, e = some c → s.accepting ≠ .registered c ∧ s.owned c = false) :
    Only s' addr d e := by
  have notOwned : ∀ c, s.owned c = true → e ≠ some c := by
    intro c howned hc
    rw [(hfree c hc).2] at howned
    simp at howned
  cases step_turn hs with
  | recv r b hst =>
    have hr : r ≠ addr := fun hr => hrecv b (by rw [hr])
    refine handleIncoming ?_ _ hr
    rcases note_cases s b r with heq | ⟨p, k, -, -, heq⟩
    · rw [heq]
      exact h
    · rw [heq]
      exact h.setConn k fun _ => rfl
  | internal ok f rest hst hq hint =>
    -- what is queued for the socket is `Connect`, and no internal command
    have hf : f.1 ≠ addr := by
      intro hf
      obtain ⟨-, p, hp⟩ := h.frames f.2 (by rw [hq, ← hf]; exact List.mem_cons_self ..)
      rw [hp, serialize_not_internal] at hint
      simp at hint
    exact (h.pop hq).handleIncoming _ hf
  | sent f rest hst hq hint => exact h.pop hq
  | unsent f rest hst hq hint => exact h.stop
  | announce socket hst =>
    have hsocket : socket ≠ addr := fun heq => h.loop (by rw [hst, heq])
    refine ⟨h.entry, h.conns, h.frames, by simp, fun hmem => ?_, h.taken, h.dials⟩
    rcases List.mem_append.mp hmem with hmem | hmem
    · exact h.newPeer hmem
    · exact hsocket (List.mem_singleton.mp hmem).symm
  | put c p hst halive =>
    have hput := h.setConn c (f := fun conn => { conn with
      queue := conn.queue ++ [p]
      put := conn.put ++ [p] }) fun _ => rfl
    exact ⟨hput.entry, hput.conns, hput.frames, by simp, hput.newPeer, hput.taken, hput.dials⟩
  | putDead c p hst hdead => exact h.stop
  | take socket rest hacc hq =>
    refine ⟨h.entry, h.conns, h.frames, h.loop, fun hmem => h.newPeer ?_, fun heq => ?_, h.dials⟩
    · rw [hq]
      exact List.mem_cons_of_mem _ hmem
    · obtain rfl := Accepting.taken.inj heq
      exact h.newPeer (by rw [hq]; exact List.mem_cons_self ..)
  | insert socket hacc =>
    have hsocket : socket ≠ addr := fun heq => h.taken (by rw [hacc, heq])
    have hreg := h.register hsocket
    exact ⟨hreg.entry, hreg.conns, hreg.frames, hreg.loop, hreg.newPeer, by simp, hreg.dials⟩
  | ack c t hacc hreq =>
    -- `accept` writes to its own connection, which is not the one of the socket
    have ht := h.request (fun hc => (hfree c hc).1 hacc) hreq
    exact ⟨ht.entry, ht.conns, ht.frames, ht.loop, ht.newPeer, by simp, ht.dials⟩
  | dropTaken socket hacc =>
    exact ⟨h.entry, h.conns, h.frames, h.loop, h.newPeer, by simp, h.dials⟩
  | dropRegistered c hacc =>
    have ht := h.dropConn c
    exact ⟨ht.entry, ht.conns, ht.frames, ht.loop, ht.newPeer, by simp, ht.dials⟩
  | dial socket =>
    have hsocket : socket ≠ addr := fun heq => hdial (by rw [heq])
    have ht := h.push hsocket (serializeUdpPacket (toUtf8 s.localPeerId) .connect)
    refine ⟨ht.entry, ht.conns, ht.frames, ht.loop, ht.newPeer, ht.taken, fun i hi => ?_⟩
    rw [List.getElem?_append] at hi
    split at hi
    · exact h.dials i hi
    · have := Dialing.sent.inj (List.mem_singleton.mp (List.mem_of_getElem? hi))
      exact absurd this.symm hsocket
  | dialInsert j socket hj =>
    -- another call of `dial`, so another socket
    have hsocket : socket ≠ addr := by
      intro h
      subst h
      exact hins j (h.dials j hj) rfl
    have ht := h.register hsocket
    refine ⟨ht.entry, ht.conns, ht.frames, ht.loop, ht.newPeer, ht.taken, fun i hi => ?_⟩
    exact h.dials i (dialing_of_set (by simp) hi)
  | dialReturn j c t hj hrecv' =>
    have ht := h.recv hrecv'
    refine ⟨ht.entry, ht.conns, ht.frames, ht.loop, ht.newPeer, ht.taken, fun i hi => ?_⟩
    exact h.dials i (dialing_of_set (by simp) hi)
  | dialFail j c t r hj hrecv' hr =>
    have ht := (h.recv hrecv').dropConn c
    refine ⟨ht.entry, ht.conns, ht.frames, ht.loop, ht.newPeer, ht.taken, fun i hi => ?_⟩
    exact h.dials i (dialing_of_set (by simp) hi)
  | write c msg t howned hreq => exact h.request (notOwned c howned) hreq
  | close c t howned hreq => exact h.request (notOwned c howned) hreq
  | read c t p howned hrecv' => exact h.recv hrecv'
  | readNone c t howned hrecv' => exact (h.recv hrecv').dropConn c
  | drop c howned => exact h.dropConn c

/-- The first call of `dial` for the socket. -/
theorem dialed (h : Only s addr none none) {t : UdpTransport Addr}
    (hs : s.step (.dial addr) = some t) : Only t addr (some s.dials.length) none := by
  cases step_turn hs with
  | dial _ =>
    refine ⟨h.entry, h.conns, fun f hf => ⟨rfl, ?_⟩, h.loop, h.newPeer, h.taken, fun i hi => ?_⟩
    · rcases List.mem_append.mp hf with hf | hf
      · exact absurd (h.frames f hf).1 (by simp)
      · exact ⟨_, (Prod.mk.inj (List.mem_singleton.mp hf)).2⟩
    · rw [List.getElem?_append] at hi
      split at hi
      · exact absurd (h.dials i hi) (by simp)
      · have hzero : i - s.dials.length < 1 := (List.getElem?_eq_some_iff.mp hi).1
        congr 1
        omega

/-- The call makes its entry. -/
theorem inserted (h : Only s addr (some i) none) (hi : s.dials[i]? = some (.sent addr))
    {t : UdpTransport Addr} (hs : s.step (.dialInsert i) = some t) :
    Only t addr (some i) (some s.conns.length) := by
  cases step_turn hs with
  | dialInsert _ socket hd =>
    obtain rfl := Dialing.sent.inj (Option.some.inj (hd.symm.trans hi))
    refine ⟨Function.update_self .., fun k conn hk hremote => ?_, h.frames, h.loop, h.newPeer,
      h.taken, fun j hj => h.dials j (dialing_of_set (by simp) hj)⟩
    dsimp only [UdpTransport.register] at hk
    rw [List.getElem?_append] at hk
    split at hk
    · exact absurd (h.conns k conn hk hremote) (by simp)
    · have hzero : k - s.conns.length < 1 := (List.getElem?_eq_some_iff.mp hk).1
      congr 1
      omega

/-- A `General` datagram arrives from the socket. -/
theorem general {c : Nat} (h : Only s addr d (some c)) {b p : List UInt8}
    (hb : deserializeUdpPacket b = some (.general, p)) {t : UdpTransport Addr}
    (hs : s.step (.recvFrom addr b) = some t) : Only t addr d (some c) := by
  cases step_turn hs with
  | recv _ _ hst =>
    rw [recv_general hb h.entry]
    have ht := h.setConn c (f := fun conn => { conn with due := conn.due ++ [p] }) fun _ => rfl
    exact ⟨ht.entry, ht.conns, ht.frames, by simp, ht.newPeer, ht.taken, ht.dials⟩

end Only

/-! ## The connection that a call of `dial` waits for -/

/-- Connection `c` has an owner, and `q` is what is in its channel or on the way into it. -/
def Channel (s : UdpTransport Addr) (c : Nat) (q : List (List UInt8)) : Prop :=
  ∃ conn, s.conns[c]? = some conn ∧ conn.alive = true ∧ conn.queue ++ s.handFor c = q

/-- Call `d` of `dial`, and nobody else, waits for connection `c`. -/
structure Waits (s : UdpTransport Addr) (d c : Nat) (q : List (List UInt8)) : Prop where
  dial : s.dials[d]? = some (.waiting c)
  sole : ∀ i, s.dials[i]? = some (.waiting c) → i = d
  accepting : s.accepting ≠ .registered c
  channel : s.Channel c q

section Channel

variable {s : UdpTransport Addr} {c : Nat} {q : List (List UInt8)}

omit [DecidableEq Addr]

theorem Channel.of_eq {t : UdpTransport Addr} (h : s.Channel c q)
    (hconns : t.conns[c]? = s.conns[c]?) (hhand : t.handFor c = s.handFor c) : t.Channel c q := by
  obtain ⟨conn, hc, halive, hq⟩ := h
  exact ⟨conn, hconns.trans hc, halive, by rw [hhand]; exact hq⟩

/-- A change of another connection. -/
theorem Channel.setConn (h : s.Channel c q) {k : Nat} (hk : k ≠ c)
    (f : UdpConn Addr → UdpConn Addr) : (s.setConn k f).Channel c q :=
  h.of_eq (List.getElem?_modify_ne _ _ hk) rfl

theorem Channel.lt (h : s.Channel c q) : c < s.conns.length := by
  obtain ⟨conn, hc, -⟩ := h
  exact (List.getElem?_eq_some_iff.mp hc).1

theorem Channel.request {t : UdpTransport Addr} {k : Nat} {frame : List UInt8}
    (h : s.Channel c q) (hk : k ≠ c) (hreq : s.request k frame = some t) : t.Channel c q := by
  rcases request_cases hreq with rfl | ⟨conn, -, rfl⟩
  · exact h.setConn hk _
  · exact h.of_eq rfl rfl

theorem Channel.recv {t : UdpTransport Addr} {k : Nat} {r : Option (List UInt8)}
    (h : s.Channel c q) (hk : k ≠ c) (hrecv : s.recv k = some (t, r)) : t.Channel c q := by
  obtain ⟨conn, -, ⟨p, rest, -, -, rfl⟩ | ⟨-, -, -, rfl⟩⟩ := recv_cases hrecv
  · exact h.setConn hk _
  · exact h

end Channel

theorem Channel.register {s : UdpTransport Addr} {c : Nat} {q : List (List UInt8)}
    (h : s.Channel c q) (socket : Addr) : (s.register socket).Channel c q :=
  h.of_eq (List.getElem?_append_left h.lt) rfl

/-- The loop was free, and handles what is not for the connection. -/
theorem Channel.handleIncoming {s : UdpTransport Addr} {c : Nat} {q : List (List UInt8)}
    (h : s.Channel c q) (hidle : s.inHand = none) (data : List UInt8) {r : Addr}
    (hr : s.peerstore r ≠ some c) : (s.handleIncoming data r).Channel c q := by
  have hnone := handFor_none hidle c
  rcases handleIncoming_cases s data r with ⟨heq, -⟩ | ⟨p, -, heq⟩ | ⟨p, -, heq⟩ | ⟨p, -, -, heq⟩ |
    ⟨p, k, -, hk, heq⟩
  · rw [heq]
    exact h
  · rw [heq]
    exact h.of_eq rfl ((handFor_none rfl c).trans hnone.symm)
  · rw [heq]
    exact h.of_eq rfl rfl
  · rw [heq]
    exact h.of_eq rfl ((handFor_none rfl c).trans hnone.symm)
  · rw [heq]
    refine h.of_eq rfl ?_
    rw [hnone, handFor_some rfl, if_neg]
    intro h
    subst h
    exact hr hk

namespace Waits

variable {s t : UdpTransport Addr} {d c : Nat} {q : List (List UInt8)}

theorem owned (h : Waits s d c q) : s.owned c = false := by
  rw [UdpTransport.owned, decide_eq_false (not_not.mpr (List.mem_of_getElem? h.dial)),
    Bool.and_false]

omit [DecidableEq Addr]

theorem of_dials {q' : List (List UInt8)} (h : Waits s d c q) (hdials : t.dials = s.dials)
    (hacc : t.accepting ≠ .registered c) (ht : t.Channel c q') : Waits t d c q' :=
  ⟨by rw [hdials]; exact h.dial, fun i hi => h.sole i (by rwa [hdials] at hi), hacc, ht⟩

/-- Another call of `dial` goes on. -/
theorem of_set (h : Waits s d c q) {j : Nat} {y : Dialing Addr} (hj : j ≠ d)
    (hy : y ≠ .waiting c) (hdials : t.dials = s.dials.set j y)
    (hacc : t.accepting ≠ .registered c) (ht : t.Channel c q) : Waits t d c q := by
  refine ⟨?_, fun i hi => h.sole i ?_, hacc, ht⟩
  · rw [hdials, List.getElem?_set_ne hj]
    exact h.dial
  · rw [hdials] at hi
    exact dialing_of_set hy hi

variable [DecidableEq Addr]

/-- **A turn that is not the next one of the call**, and brings no datagram for the connection. -/
theorem step (h : Waits s d c q) (hw : Wf s) {a : UdpAct Addr} (hs : s.step a = some t)
    (hack : a ≠ .dialAck d) (hrecv : ∀ r b, a = .recvFrom r b → s.peerstore r ≠ some c) :
    Waits t d c q := by
  have notOwned : ∀ {k}, s.owned k = true → k ≠ c := by
    intro k howned h
    subst h
    rw [h.owned] at howned
    simp at howned
  have idle : s.stands = .select → s.inHand = none := by
    intro hst
    rw [inHand, hst]
  have hch := h.channel
  cases step_turn hs with
  | recv r b hst =>
    have hr := hrecv r b rfl
    rcases note_cases s b r with heq | ⟨p, k, -, hk, heq⟩
    · rw [heq]
      refine h.of_dials ?_ ?_ (hch.handleIncoming (idle hst) _ hr)
      · exact handleIncoming_dials s _ r
      · rw [handleIncoming_accepting]
        exact h.accepting
    · have hkc : k ≠ c := fun hkc => hr (by rw [hk, hkc])
      rw [heq]
      refine h.of_dials ?_ ?_ ((hch.setConn hkc _).handleIncoming (idle hst) _ hr)
      · exact handleIncoming_dials _ _ r
      · rw [handleIncoming_accepting]
        exact h.accepting
  | internal ok f rest hst hq hint =>
    -- a disconnection takes the entry away, but leaves the channel as it is
    have hf := internal_disconnect (hw.frames f (by rw [hq]; exact List.mem_cons_self ..)) hint
    rw [handleIncoming_disconnect f.1 hf]
    exact h.of_dials rfl h.accepting (hch.of_eq rfl rfl)
  | sent f rest hst hq hint => exact h.of_dials rfl h.accepting (hch.of_eq rfl rfl)
  | unsent f rest hst hq hint =>
    refine h.of_dials rfl h.accepting (hch.of_eq rfl ?_)
    exact (handFor_none rfl c).trans (handFor_none (idle hst) c).symm
  | announce socket hst =>
    refine h.of_dials rfl h.accepting (hch.of_eq rfl ?_)
    exact (handFor_none rfl c).trans (handFor_none (by rw [inHand, hst]) c).symm
  | put k p hst halive' =>
    have hhand : s.inHand = some (k, p) := by rw [inHand, hst]
    refine h.of_dials rfl h.accepting ?_
    by_cases hk : k = c
    · -- the payload in hand moves to the end of the channel
      obtain ⟨conn, hconn, halive, hqueue⟩ := hch
      rw [handFor_some hhand, if_pos hk] at hqueue
      subst hk
      refine ⟨{ conn with queue := conn.queue ++ [p], put := conn.put ++ [p] }, ?_, halive, ?_⟩
      · dsimp only
        rw [List.getElem?_modify_eq, hconn]
        rfl
      · rw [handFor_none rfl, List.append_nil]
        exact hqueue
    · refine hch.of_eq (List.getElem?_modify_ne _ _ hk) ?_
      rw [handFor_none rfl, handFor_some hhand, if_neg hk]
  | putDead k p hst hdead =>
    have hhand : s.inHand = some (k, p) := by rw [inHand, hst]
    have hk : k ≠ c := by
      intro h
      subst h
      obtain ⟨conn, hconn, halive, -⟩ := hch
      rw [aliveAt, hconn, Option.any_some, halive] at hdead
      simp at hdead
    refine h.of_dials rfl h.accepting (hch.of_eq rfl ?_)
    rw [handFor_none rfl, handFor_some hhand, if_neg hk]
  | take socket rest hacc hq => exact h.of_dials rfl (by simp) (hch.of_eq rfl rfl)
  | insert socket hacc =>
    refine h.of_dials rfl (fun heq => ?_) ((hch.register socket).of_eq rfl rfl)
    have := Accepting.registered.inj heq
    have := hch.lt
    omega
  | ack k u hacc hreq =>
    have hk : k ≠ c := fun hk => h.accepting (by rw [hacc, hk])
    refine h.of_dials ?_ (by simp) ((hch.request hk hreq).of_eq rfl rfl)
    rcases request_cases hreq with rfl | ⟨conn, -, rfl⟩ <;> rfl
  | dropTaken socket hacc => exact h.of_dials rfl (by simp) (hch.of_eq rfl rfl)
  | dropRegistered k hacc =>
    have hk : k ≠ c := fun hk => h.accepting (by rw [hacc, hk])
    exact h.of_dials rfl (by simp) ((hch.setConn hk _).of_eq rfl rfl)
  | dial socket =>
    have hlt := (List.getElem?_eq_some_iff.mp h.dial).1
    refine ⟨?_, fun i hi => h.sole i ?_, h.accepting, hch.of_eq rfl rfl⟩
    · exact (List.getElem?_append_left hlt).trans h.dial
    · rw [List.getElem?_append] at hi
      split at hi
      · exact hi
      · have := List.mem_singleton.mp (List.mem_of_getElem? hi)
        simp at this
  | dialInsert j socket hj =>
    have hne : j ≠ d := by
      intro h
      subst h
      rw [h.dial] at hj
      simp at hj
    refine h.of_set hne (fun heq => ?_) rfl h.accepting ((hch.register socket).of_eq rfl rfl)
    have := Dialing.waiting.inj heq
    have := hch.lt
    omega
  | dialReturn j k u hj hrecv' =>
    have hne : j ≠ d := fun hne => hack (by rw [hne])
    have hk : k ≠ c := fun hk => hne (h.sole j (by rw [hj, hk]))
    refine h.of_set hne (by simp) rfl ?_ ((hch.recv hk hrecv').of_eq rfl rfl)
    rw [(recv_others hrecv').1]
    exact h.accepting
  | dialFail j k u r hj hrecv' hr =>
    have hne : j ≠ d := fun hne => hack (by rw [hne])
    have hk : k ≠ c := fun hk => hne (h.sole j (by rw [hj, hk]))
    refine h.of_set hne (by simp) rfl ?_ (((hch.recv hk hrecv').setConn hk _).of_eq rfl rfl)
    rw [dropConn, UdpTransport.setConn, (recv_others hrecv').1]
    exact h.accepting
  | write k msg t howned hreq | close k t howned hreq =>
    have hk := notOwned howned
    refine h.of_dials ?_ ?_ (hch.request hk hreq)
    · rcases request_cases hreq with rfl | ⟨conn, -, rfl⟩ <;> rfl
    · rcases request_cases hreq with rfl | ⟨conn, -, rfl⟩ <;> exact h.accepting
  | read k t p howned hrecv' =>
    have ho := recv_others hrecv'
    exact h.of_dials ho.2.1 (by rw [ho.1]; exact h.accepting) (hch.recv (notOwned howned) hrecv')
  | readNone k u howned hrecv' =>
    have hk := notOwned howned
    have ho := recv_others hrecv'
    refine h.of_dials ho.2.1 ?_ ((hch.recv hk hrecv').setConn hk _)
    rw [dropConn, UdpTransport.setConn, ho.1]
    exact h.accepting
  | drop k howned => exact h.of_dials rfl h.accepting (hch.setConn (notOwned howned) _)

/-- The call has made its connection. -/
theorem inserted (hw : Wf s) (hm : Made s) (hs : s.step (.dialInsert d) = some t) :
    Waits t d s.conns.length [] := by
  cases step_turn hs with
  | dialInsert _ socket hd =>
    have hlt := (List.getElem?_eq_some_iff.mp hd).1
    refine ⟨List.getElem?_set_self hlt, fun i hi => ?_, fun heq => ?_, { remoteSocket := socket },
      List.getElem?_concat_length, rfl, ?_⟩
    · by_contra hne
      dsimp only at hi
      rw [List.getElem?_set_ne (Ne.symm hne)] at hi
      exact Nat.lt_irrefl _ (hm.waiting i _ hi)
    · exact Nat.lt_irrefl _ (hm.registered _ heq)
    · -- nothing can be in hand for a connection that is new
      cases hp : s.inHand with
      | none => exact handFor_none hp _
      | some kp =>
        have hlt : kp.1 < s.conns.length := by
          have hhand := hw.hand kp.1 kp.2 hp
          rwa [records, List.length_map] at hhand
        exact (handFor_some hp _).trans (if_neg (by omega))

/-- A `General` datagram for the connection. -/
theorem recv (h : Waits s d c q) {r : Addr} (hr : s.peerstore r = some c) {b p : List UInt8}
    (hb : deserializeUdpPacket b = some (.general, p)) (hs : s.step (.recvFrom r b) = some t) :
    Waits t d c (q ++ [p.take (bufferLength - 1)]) := by
  cases step_turn hs with
  | recv _ _ hst =>
    have hidle : s.inHand = none := by rw [inHand, hst]
    rw [recv_general hb hr]
    refine h.of_dials rfl h.accepting ?_
    obtain ⟨conn, hconn, halive, hq⟩ := h.channel
    refine ⟨{ conn with due := conn.due ++ [p] }, ?_, halive, ?_⟩
    · dsimp only [UdpTransport.setConn]
      rw [List.getElem?_modify_eq, hconn]
      rfl
    · rw [handFor_none hidle, List.append_nil] at hq
      rw [handFor_some rfl, if_pos rfl, ← hq]

end Waits

end UdpTransport

end Socket

end Rnet.Udp
