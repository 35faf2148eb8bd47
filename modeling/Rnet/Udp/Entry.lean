import Rnet.Udp.Effect

/-!
# The entry of a connection

`accept` and `dial` put the channel of a new connection under the address of the socket, whatever
stands there. A connection that is in use loses its entry to the next one, and with it what the
peer sends. A loop that waits for a place in a full queue runs, and what arrives meanwhile is not
due before the loop receives it.

> `kept_iff`: a connection that is not disconnected keeps its entry, and is given every later
payload of its socket, exactly if no step takes them from it (`Spares`).

A `Connect` that arrives twice is accepted twice (`duplicate_connect_takes_entry`).
-/

namespace Rnet.Udp

open Rnet.Lib (System)
open Rnet.Lib.System (runUnder_of_exec avoids_iff_guarded_of guarded_of_mem)

section Entry

variable {Addr : Type}

namespace UdpTransport

/-- **Connection `c` is kept**: the loop runs, perhaps waiting for a place in a full queue, the
entry of the socket names the connection, and it has received what has become due since `start`. -/
structure Kept (start : UdpTransport Addr) (socket : Addr) (c : Nat) (s : UdpTransport Addr) :
    Prop where
  running : s.running = true
  entry : s.peerstore socket = some c
  later : ∃ later, s.dueTo c = start.dueTo c ++ later ∧ s.received c = start.received c ++ later

/-- The step is no disconnection of the socket. -/
def NotDisconnecting (socket : Addr) (s : UdpTransport Addr) (a : UdpAct Addr) : Prop :=
  ∀ p, s.handles a ≠ some (socket, .disconnect, p)

/-- The step takes nothing from the connection of the socket:
- it does not end the loop;
- neither `accept` nor `dial` makes an entry for the socket;
- a `General` datagram of the socket fits into the buffer. -/
structure Spares (socket : Addr) (s : UdpTransport Addr) (a : UdpAct Addr) : Prop where
  alive : ¬ s.Fatal a
  inserts : s.inserts a ≠ some socket
  fits : ∀ bytes p, a = .recvFrom socket bytes →
    deserializeUdpPacket bytes = some (.general, p) → bytes.length ≤ bufferLength

variable [DecidableEq Addr]

/-- Connection `c` of the socket is in use: the loop runs, the entry names the connection, and it
has been handed out and not been dropped. -/
structure Established (s : UdpTransport Addr) (socket : Addr) (c : Nat) : Prop where
  running : s.running = true
  entry : s.peerstore socket = some c
  owned : s.owned c = true

/-- **One turn** of a kept connection that is not disconnected: it still is exactly if the turn
takes nothing from it. -/
theorem step_kept_iff {start s s' : UdpTransport Addr} {socket : Addr} {c : Nat} (hw : Wf s)
    {a : UdpAct Addr} (hno : s.NotDisconnecting socket a) (hgood : Kept start socket c s)
    (hs : s.step a = some s') : ¬ Kept start socket c s' ↔ ¬ s.Spares socket a := by
  refine not_congr ?_
  by_cases hlive : s.Fatal a
  · refine iff_of_false (fun h => ?_) fun h => h.alive hlive
    have hrun := h.running
    rw [stops_of_fatal hw hs hlive] at hrun
    simp at hrun
  obtain ⟨e, he, hsocket⟩ := hw.entries socket c hgood.entry
  have hbound : c < s.records.length := (List.getElem?_eq_some_iff.mp he).1
  have hrun := (running_of_not_fatal hw hs hlive).trans hgood.running
  obtain ⟨later, hdue, hgot⟩ := hgood.later
  rcases step_peerstore hw hs hlive socket with ⟨hins, hps⟩ | ⟨-, ⟨p, hdisc⟩, -⟩ | ⟨hins, -, hps⟩
  · -- the new connection takes the entry
    refine iff_of_false (fun h => ?_) fun h => h.inserts hins
    have hnew := Option.some.inj (hps.symm.trans h.entry)
    rw [records, List.length_map] at hbound
    omega
  · exact absurd hdisc (hno p)
  have hentry : s'.peerstore socket = some c := hps.trans hgood.entry
  rcases step_account hw hs hlive hbound with ⟨hdue', hgot', hother⟩ |
    ⟨r, b, p, rfl, hb, hr, -, -, hdue', hgot'⟩
  · refine iff_of_true ⟨hrun, hentry, later, hdue'.trans hdue, hgot'.trans hgot⟩
      ⟨hlive, hins, fun bytes p ha hb => ?_⟩
    exact absurd hgood.entry (hother socket bytes p ha hb)
  · -- a datagram of the socket
    have hrs : r = socket := (hw.socket_unique hr he).trans hsocket
    subst hrs
    rw [hdue, List.append_assoc] at hdue'
    rw [hgot, List.append_assoc] at hgot'
    constructor
    · intro h
      refine ⟨hlive, hins, fun bytes q ha hq => ?_⟩
      obtain ⟨-, rfl⟩ := UdpAct.recvFrom.inj ha
      obtain ⟨later', hd, hg⟩ := h.later
      rw [hdue'] at hd
      obtain rfl := List.append_cancel_left hd
      rw [hgot'] at hg
      have hlast := List.append_cancel_left (List.append_cancel_left hg)
      exact fits_of_uncut hb (List.singleton_inj.mp hlast)
    · intro h
      rw [uncut_of_fits hb (h.fits b p rfl hb)] at hgot'
      exact ⟨hrun, hentry, later ++ [p], hdue', hgot'⟩

end UdpTransport

/-! ## Every run -/

/-- **The entry of a connection in use.** From every reachable state, and for every sequence of
datagrams and calls that does not disconnect the socket, the connection is kept in every state
passed exactly if no step takes anything from it. -/
theorem kept_iff [DecidableEq Addr] (localPeerId : String) {start : UdpTransport Addr}
    (hstart : (udp Addr localPeerId).Reachable start) {socket : Addr} {c : Nat}
    (hc : start.Established socket c) (as : List (UdpAct Addr))
    (hno : (udp Addr localPeerId).Guarded (UdpTransport.NotDisconnecting socket) start as) :
    (udp Addr localPeerId).Avoids (fun s => ¬ start.Kept socket c s) start as ↔
      (udp Addr localPeerId).Guarded (UdpTransport.Spares socket) start as := by
  have hI : ∀ (s : UdpTransport Addr) (a : UdpAct Addr) (s' : UdpTransport Addr), s.Wf →
      (udp Addr localPeerId).step s a = some s' → s'.Wf := fun _ _ _ hw hs => hw.step hs
  have hkept : start.Kept socket c start := ⟨hc.running, hc.entry, [], by simp, by simp⟩
  refine avoids_iff_guarded_of hI (fun s a s' hw hP hgood hs => ?_) as start
    (UdpTransport.wf_of_reachable hstart) (not_not.mpr hkept) hno
  exact UdpTransport.step_kept_iff hw hP (not_not.mp hgood) hs

end Entry

/-! ## A duplicate -/

/-- A peer connects and is accepted, and the acknowledgement is sent. -/
def acceptOne : List (UdpAct Nat) :=
  [.recvFrom 7 (serializeUdpPacket [1] .connect), .announce, .acceptTake, .acceptInsert,
    .acceptAck, .writeReq true]

/-- The `Connect` arrives once more, and is accepted. -/
def acceptAgain : List (UdpAct Nat) :=
  [.recvFrom 7 (serializeUdpPacket [1] .connect), .announce, .acceptTake, .acceptInsert]

theorem acceptAgain_runs :
    ((udp Nat "local").exec (fun _ _ => True) { localPeerId := "local" } acceptOne).any (fun s =>
      s.running && decide (s.peerstore 7 = some 0) && s.owned 0 &&
        ((udp Nat "local").exec (fun _ _ => True) s acceptAgain).any fun s' =>
          decide (s'.peerstore 7 = some 1)) = true := by
  decide +kernel

theorem acceptAgain_notDisconnecting (s : UdpTransport Nat) :
    (udp Nat "local").Guarded (UdpTransport.NotDisconnecting 7) s acceptAgain := by
  refine guarded_of_mem acceptAgain (fun a ha s p => ?_) s
  simp only [acceptAgain, List.mem_cons, List.not_mem_nil, or_false] at ha
  obtain rfl | rfl | rfl | rfl := ha
  · simp [UdpTransport.handles, deserialize_serialize]
  · simp [UdpTransport.handles]
  · simp [UdpTransport.handles]
  · simp [UdpTransport.handles]

/-- The connection that the first `Connect` made. -/
theorem established_acceptOne : ∃ s, (udp Nat "local").Run acceptOne s ∧ s.Established 7 0 ∧
    ∃ s', (udp Nat "local").exec (fun _ _ => True) s acceptAgain = some s' ∧
      s'.peerstore 7 = some 1 := by
  obtain ⟨s, hs, h⟩ := (Option.any_eq_true ..).mp acceptAgain_runs
  simp only [Bool.and_eq_true, decide_eq_true_eq] at h
  obtain ⟨⟨⟨hrun, hps⟩, howned⟩, hagain⟩ := h
  obtain ⟨s', hs', hps'⟩ := (Option.any_eq_true ..).mp hagain
  exact ⟨s, runUnder_of_exec rfl hs, ⟨hrun, hps, howned⟩, s', hs', of_decide_eq_true hps'⟩

theorem kept_acceptAgain : ∃ s, (udp Nat "local").Run acceptOne s ∧
    ((udp Nat "local").Avoids (fun s' => ¬ s.Kept 7 0 s') s acceptAgain ↔
      (udp Nat "local").Guarded (UdpTransport.Spares 7) s acceptAgain) := by
  obtain ⟨s, hrun, hc, -⟩ := established_acceptOne
  exact ⟨s, hrun, kept_iff "local" ⟨_, hrun⟩ hc acceptAgain (acceptAgain_notDisconnecting s)⟩

/-- **A duplicated `Connect`** takes the entry from the connection in use. -/
theorem duplicate_connect_takes_entry : ∃ s s', (udp Nat "local").Run acceptOne s ∧
    s.Established 7 0 ∧
    (udp Nat "local").Guarded (UdpTransport.NotDisconnecting 7) s acceptAgain ∧
    (udp Nat "local").exec (fun _ _ => True) s acceptAgain = some s' ∧ ¬ s.Kept 7 0 s' := by
  obtain ⟨s, hrun, hc, s', hs', hps⟩ := established_acceptOne
  refine ⟨s, s', hrun, hc, acceptAgain_notDisconnecting s, hs', fun h => ?_⟩
  have hentry := h.entry
  rw [hps] at hentry
  simp at hentry

end Rnet.Udp
