import Rnet.Udp.Effect

/-!
# The loop that serves all peers

`io_loop` unwraps the entry of the socket that a `General` datagram comes from, the send into the
channel of the connection, and every `send_to`. Any of them ends the loop for all peers. A
datagram longer than its buffer is cut.

A loop that waits for a place in a full queue runs. What arrives while it waits stays with the
operating system, and becomes due when the loop receives it.

> `serving_iff`: a run keeps the loop going, gives every connection with an entry and an owner what
> is sent to it, and has every datagram go where it belongs and touch nothing else (`Dispatches`),
> exactly if every step can be delivered (`Delivers`).

One datagram from a socket that never connected ends the loop (`unknown_socket_ends_loop`).
-/

namespace Rnet.Udp

open Rnet.Lib (System)
open Rnet.Lib.System (runUnder_of_exec avoids_iff_guarded guarded_of_invariant guarded_of_mem)

section Serving

variable {Addr : Type}

namespace UdpTransport

/-- **The loop serves all peers**: it runs, perhaps waiting for a place in a full queue, and every
connection that has an entry and an owner has received the payloads of the `General` datagrams
from its socket, in the order of their arrival, but for the one in the loop's hand. -/
structure Serving (s : UdpTransport Addr) : Prop where
  running : s.running = true
  exact : ∀ r c e, s.peerstore r = some c → s.aliveAt c = true → s.records[c]? = some e →
    e.2.1 ++ s.handFor c = e.2.2

/-- Where a datagram of `remote` goes:
- a `General` packet is due to the connection that the entry of `remote` names;
- what is no packet leaves everything as it was;
- a connection stays as it was, unless it is a `General` packet and the entry names the connection;
- an entry stays as it was, unless it is a `Disconnect` and the entry is that of `remote`. -/
structure Dispatched (s : UdpTransport Addr) (remote : Addr) (bytes : List UInt8)
    (s' : UdpTransport Addr) : Prop where
  due : ∀ c payload, s.peerstore remote = some c → bytes = serializeUdpPacket payload .general →
    s'.dueTo c = s.dueTo c ++ [payload]
  noPacket : (∀ payload flag, bytes ≠ serializeUdpPacket payload flag) → s' = s
  conns : ∀ c, (s.peerstore remote = some c → ∀ payload,
    bytes ≠ serializeUdpPacket payload .general) →
    s'.conns[c]? = s.conns[c]? ∧ s'.handFor c = s.handFor c
  entries : ∀ r, (r = remote → ∀ payload, bytes ≠ serializeUdpPacket payload .disconnect) →
    s'.peerstore r = s.peerstore r

/-- The step can be delivered:
- a `General` datagram comes from a socket with an entry, and if the connection has an owner it fits
  into the buffer;
- when its payload is put into the channel, the connection has an owner;
- `send_to` succeeds. -/
def Delivers (s : UdpTransport Addr) : UdpAct Addr → Prop
  | .recvFrom remote bytes => ∀ payload, deserializeUdpPacket bytes = some (.general, payload) →
      ∃ c, s.peerstore remote = some c ∧ (s.aliveAt c = true → bytes.length ≤ bufferLength)
  | .put => ∀ c payload, s.inHand = some (c, payload) → s.aliveAt c = true
  | .writeReq ok => ∀ e, s.writeReq.head? = some e → INTERNAL.isPrefixOf e.2 = false → ok = true
  | _ => True

/-- What ends the loop cannot be delivered. -/
theorem not_delivers_of_fatal {s : UdpTransport Addr} {a : UdpAct Addr} (h : s.Fatal a) :
    ¬ s.Delivers a := by
  intro hd
  cases a with
  | recvFrom remote bytes =>
    obtain ⟨⟨payload, hb⟩, hnone⟩ := h
    obtain ⟨c, hc, -⟩ := hd payload hb
    rw [hnone] at hc
    simp at hc
  | put =>
    obtain ⟨c, payload, hhand, hdead⟩ := h
    rw [hd c payload hhand] at hdead
    simp at hdead
  | writeReq ok =>
    obtain ⟨hok, e, he, hint⟩ := h
    rw [hd e he hint] at hok
    simp at hok
  | announce | acceptTake | acceptInsert | acceptAck | acceptDrop | dial | dialInsert | dialAck
  | write | close | read | drop => exact h.elim

/-- What does not end the loop and fits into the buffer can be delivered. -/
theorem delivers_of_fits {s : UdpTransport Addr} {a : UdpAct Addr} (h : ¬ s.Fatal a)
    (hfits : ∀ r b p c, a = .recvFrom r b → deserializeUdpPacket b = some (.general, p) →
      s.peerstore r = some c → s.aliveAt c = true → b.length ≤ bufferLength) : s.Delivers a := by
  cases a with
  | recvFrom remote bytes =>
    intro payload hb
    cases hc : s.peerstore remote with
    | none => exact absurd ⟨⟨payload, hb⟩, hc⟩ h
    | some c => exact ⟨c, rfl, hfits remote bytes payload c rfl hb hc⟩
  | put =>
    intro c payload hhand
    by_contra hdead
    exact h ⟨c, payload, hhand, eq_false_of_ne_true hdead⟩
  | writeReq ok =>
    intro e he hint
    by_contra hok
    exact h ⟨eq_false_of_ne_true hok, e, he, hint⟩
  | announce | acceptTake | acceptInsert | acceptAck | acceptDrop | dial | dialInsert | dialAck
  | write | close | read | drop => trivial

/-- What has been received is what is due. -/
theorem Serving.account {s : UdpTransport Addr} (h : Serving s) (hw : Wf s) {r : Addr} {c : Nat}
    (hr : s.peerstore r = some c) (halive : s.aliveAt c = true) : s.received c = s.dueTo c := by
  obtain ⟨e, he, -⟩ := hw.entries r c hr
  rw [received_of_record he, dueTo_of_record he]
  exact h.exact r c e hr halive he

variable [DecidableEq Addr]

/-- What `io_loop` does with a datagram is done to what the datagram is for: when it receives the
datagram, when it announces a new peer, and when it puts a payload into a channel. -/
def Dispatches (s : UdpTransport Addr) : UdpAct Addr → Prop
  | .recvFrom remote bytes => ∀ s', s.step (.recvFrom remote bytes) = some s' →
      s.Dispatched remote bytes s'
  | .announce => ∀ s', s.step .announce = some s' →
      s'.conns = s.conns ∧ s'.peerstore = s.peerstore ∧ s'.inHand = none
  | .put => ∀ s', s.step .put = some s' →
      (∀ c, s.handFor c = [] → s'.conns[c]? = s.conns[c]?) ∧ s'.peerstore = s.peerstore
  | _ => True

/-- A `General` packet of a socket with an entry is due to the connection. -/
theorem due_of_recv {s t : UdpTransport Addr} (hw : Wf s) {r : Addr} {c : Nat}
    {payload : List UInt8} (hr : s.peerstore r = some c)
    (hs : s.step (.recvFrom r (serializeUdpPacket payload .general)) = some t) :
    t.dueTo c = s.dueTo c ++ [payload] := by
  have hlive : ¬ s.Fatal (.recvFrom r (serializeUdpPacket payload .general)) :=
    fun h => absurd (hr.symm.trans h.2) (by simp)
  obtain ⟨e, he, -⟩ := hw.entries r c hr
  rcases step_account hw hs hlive (List.getElem?_eq_some_iff.mp he).1 with ⟨-, -, hother⟩ |
    ⟨r', b, p, ha, hb, -, -, -, hdue, -⟩
  · exact absurd hr (hother r _ payload rfl (deserialize_serialize ..))
  · obtain ⟨-, rfl⟩ := UdpAct.recvFrom.inj ha
    rw [deserialize_serialize] at hb
    obtain ⟨-, rfl⟩ := Prod.mk.inj (Option.some.inj hb)
    exact hdue

/-- `io_loop` receives a datagram. -/
theorem recv_dispatched {s t : UdpTransport Addr} (hw : Wf s) {r : Addr} {b : List UInt8}
    (hs : s.step (.recvFrom r b) = some t) (hst : s.stands = .select) (ht : s.Receipt r b t) :
    s.Dispatched r b t := by
  have hidle : s.inHand = none := by rw [inHand, hst]
  have hdue : ∀ c payload, s.peerstore r = some c → b = serializeUdpPacket payload .general →
      t.dueTo c = s.dueTo c ++ [payload] := by
    intro c payload hr hb
    subst hb
    exact due_of_recv hw hr hs
  -- a packet is what was written for it
  have packet : ∀ {flag p}, deserializeUdpPacket b = some (flag, p) →
      (∀ payload flag, b ≠ serializeUdpPacket payload flag) → t = s :=
    fun hb hno => absurd (serialize_deserialize hb) (hno _ _)
  cases ht with
  | unknown hb => exact ⟨hdue, fun _ => rfl, fun _ _ => ⟨rfl, rfl⟩, fun _ _ => rfl⟩
  | connect p hb =>
    exact ⟨hdue, packet hb, fun c _ => ⟨rfl, handFor_of_eq (by exact hidle.symm) c⟩,
      fun _ _ => rfl⟩
  | disconnect p hb =>
    refine ⟨hdue, packet hb, fun _ _ => ⟨rfl, rfl⟩,
      fun a ha => Function.update_of_ne (fun h => ?_) ..⟩
    exact ha h p (serialize_deserialize hb)
  | stops p hb hc =>
    exact ⟨hdue, packet hb, fun c _ => ⟨rfl, handFor_of_eq (by exact hidle.symm) c⟩,
      fun _ _ => rfl⟩
  | takes p k hb hc =>
    refine ⟨hdue, packet hb, fun c hother => ?_, fun _ _ => rfl⟩
    have hkc : k ≠ c := fun h => hother (by rw [hc, h]) p (serialize_deserialize hb)
    refine ⟨List.getElem?_modify_ne _ _ hkc, ?_⟩
    rw [handFor_none hidle, handFor_some rfl, if_neg hkc]

/-- Every turn does. -/
theorem Wf.dispatches {s : UdpTransport Addr} (hw : Wf s) (a : UdpAct Addr) : s.Dispatches a := by
  cases a with
  | recvFrom r b =>
    intro s' hs
    cases step_turn hs with
    | recv _ _ hst => exact recv_dispatched hw hs hst (s.receipt r b)
  | announce =>
    intro s' hs
    cases step_turn hs with
    | announce socket hst => exact ⟨rfl, rfl, rfl⟩
  | put =>
    intro s' hs
    cases step_turn hs with
    | put c p hst halive =>
      refine ⟨fun k hk => List.getElem?_modify_ne _ _ fun h => ?_, rfl⟩
      rw [handFor_some (by rw [inHand, hst]), if_pos h] at hk
      simp at hk
    | putDead c p hst hdead => exact ⟨fun _ _ => rfl, rfl⟩
  | writeReq | acceptTake | acceptInsert | acceptAck | acceptDrop | dial | dialInsert | dialAck
  | write | close | read | drop => trivial

/-- **One turn** of a loop that serves all peers: it still does exactly if the turn can be
delivered. -/
theorem step_serving_iff {s s' : UdpTransport Addr} (hw : Wf s) (hgood : Serving s)
    {a : UdpAct Addr} (hs : s.step a = some s') : ¬ Serving s' ↔ ¬ s.Delivers a := by
  refine not_congr ?_
  by_cases hlive : s.Fatal a
  · refine iff_of_false (fun h => ?_) (not_delivers_of_fatal hlive)
    have hrun := h.running
    rw [stops_of_fatal hw hs hlive] at hrun
    simp at hrun
  have bound : ∀ {r c}, s.peerstore r = some c → c < s.records.length := by
    intro r c hr
    obtain ⟨e, he, -⟩ := hw.entries r c hr
    exact (List.getElem?_eq_some_iff.mp he).1
  constructor
  · intro hserve
    refine delivers_of_fits hlive fun r b p c ha hb hr halive => ?_
    rcases step_account hw hs hlive (bound hr) with ⟨-, -, hother⟩ |
      ⟨r', b', p', ha', hb', -, hps, hal, hdue, hgot⟩
    · exact absurd hr (hother r b p ha hb)
    · obtain ⟨rfl, rfl⟩ := UdpAct.recvFrom.inj (ha.symm.trans ha')
      have hnow := hserve.account (hw.step hs) hps (hal.trans halive)
      rw [hgot, hdue, hgood.account hw hr halive] at hnow
      exact fits_of_uncut hb' (List.singleton_inj.mp (List.append_cancel_left hnow))
  · intro hd
    refine ⟨(running_of_not_fatal hw hs hlive).trans hgood.running,
      fun r c e hr halive he => ?_⟩
    rw [← received_of_record he, ← dueTo_of_record he]
    rcases step_peerstore hw hs hlive r with ⟨hins, hps⟩ | ⟨-, -, hps⟩ | ⟨-, -, hps⟩
    · obtain rfl := Option.some.inj (hps.symm.trans hr)
      exact account_new hw hs hlive hins
    · rw [hps] at hr
      simp at hr
    · rw [hps] at hr
      have halive' := alive_of_step hw hs hlive (bound hr) halive
      have hbefore := hgood.account hw hr halive'
      rcases step_account hw hs hlive (bound hr) with ⟨hdue, hgot, -⟩ |
        ⟨r', b, p, rfl, hb, hr', -, -, hdue, hgot⟩
      · rw [hdue, hgot, hbefore]
      · obtain ⟨k, hk, hfits⟩ := hd p hb
        obtain rfl := Option.some.inj (hr'.symm.trans hk)
        rw [hdue, hgot, hbefore, uncut_of_fits hb (hfits halive')]

end UdpTransport

/-! ## Every run -/

/-- **The loop of a transport.** For every sequence of datagrams, frames and calls, the loop
serves all peers in every state passed, and every datagram goes where it belongs and touches
nothing else, exactly if each step can be delivered. -/
theorem serving_iff [DecidableEq Addr] (localPeerId : String) {s₀ : UdpTransport Addr}
    (h₀ : (udp Addr localPeerId).init s₀) (as : List (UdpAct Addr)) :
    ((udp Addr localPeerId).Avoids (fun s => ¬ s.Serving) s₀ as ∧
      (udp Addr localPeerId).Guarded UdpTransport.Dispatches s₀ as) ↔
      (udp Addr localPeerId).Guarded UdpTransport.Delivers s₀ as := by
  have hI : ∀ (s : UdpTransport Addr) (a : UdpAct Addr) (s' : UdpTransport Addr), s.Wf →
      (udp Addr localPeerId).step s a = some s' → s'.Wf := fun _ _ _ hw hs => hw.step hs
  have hdispatches : (udp Addr localPeerId).Guarded UdpTransport.Dispatches s₀ as :=
    guarded_of_invariant (C := fun _ _ => True) UdpTransport.Wf
      (fun s a s' hw _ hs => ⟨hI s a s' hw hs, hw.dispatches a⟩) as s₀ (UdpTransport.Wf.init h₀)
      (guarded_of_mem as (fun _ _ _ => trivial) s₀)
  refine (and_iff_left hdispatches).trans ?_
  refine avoids_iff_guarded hI (fun s a s' hw hgood hs => ?_) as s₀ (UdpTransport.Wf.init h₀) ?_
  · exact UdpTransport.step_serving_iff hw (not_not.mp hgood) hs
  · obtain rfl := h₀
    exact not_not.mpr ⟨rfl, by simp⟩

end Serving

/-! ## One datagram -/

/-- A peer connects, is accepted, and sends a payload, which its connection receives. -/
def connectAndSend : List (UdpAct Nat) :=
  [.recvFrom 7 (serializeUdpPacket [1] .connect), .announce, .acceptTake, .acceptInsert,
    .recvFrom 7 (serializeUdpPacket [2, 3] .general), .put]

theorem serving_connectAndSend :
    ((udp Nat "local").Avoids (fun s => ¬ s.Serving) { localPeerId := "local" } connectAndSend ∧
      (udp Nat "local").Guarded UdpTransport.Dispatches { localPeerId := "local" }
        connectAndSend) ↔
      (udp Nat "local").Guarded UdpTransport.Delivers { localPeerId := "local" } connectAndSend :=
  serving_iff "local" rfl connectAndSend

theorem unknownSocket_stops :
    ((udp Nat "local").exec (fun _ _ => True) { localPeerId := "local" }
      [.recvFrom 7 (serializeUdpPacket [1] .general)]).any (fun s => s.running = false) = true := by
  decide

/-- **A `General` datagram from a socket that never connected** ends the loop. -/
theorem unknown_socket_ends_loop : ∃ s,
    (udp Nat "local").Run [.recvFrom 7 (serializeUdpPacket [1] .general)] s ∧ ¬ s.Serving := by
  obtain ⟨s, hs, hstop⟩ := (Option.any_eq_true ..).mp unknownSocket_stops
  refine ⟨s, runUnder_of_exec rfl hs, fun h => ?_⟩
  rw [h.running] at hstop
  simp at hstop

end Rnet.Udp
