import Rnet.Swarm.Lifecycle

/-!
# Several connections with one peer

The map `connections` and the peer store know a connection by the peer id alone, and so does the
`Disconnect` command. `connect` looks whether the peer is connected before it dials; the
accepting side does not.

> `disconnect_keeps_others`: in every run in which a connection is registered only
> while no notification of the peer is queued, and ends only while no other running
> connection of the peer is registered, the end of one connection removes no other
> connection whose task still runs.

> `disconnect_unregisters`: whatever a `Disconnect` was sent for, the peer is gone
> from `connections` when it has been handled.
-/

namespace Rnet.Swarm

open Rnet.Identity Rnet.Mplex Rnet.Lib
open Rnet.Lib.System (runUnder_of_exec)

variable {κ φ : Type} (c : Codec κ φ)

/-- When the turn ends task `i` with a notification, the connection registered for its peer is its
own or does not run. -/
def SwarmInner.endsAlone (s : SwarmInner κ) : SwarmAct φ → Bool
  | .rawError i => (s.tasks[i]?).all fun t =>
      (s.connections.lookup t.remotePeer.peerId).all fun j => j = i || !s.loops j
  | _ => true

/-- The connections of a peer do not overlap: one is registered only while no notification of
the peer is queued, and ends only while no other running one is registered. -/
def NoOverlap (s : SwarmInner κ) (a : SwarmAct φ) : Prop :=
  (∀ n ∈ s.notices, (s.registering a).all fun remote => n.1 ≠ remote.peerId) ∧ s.endsAlone a = true

instance (s : SwarmInner κ) (a : SwarmAct φ) : Decidable (NoOverlap s a) :=
  inferInstanceAs (Decidable (_ ∧ _))

/-- When the next command is handled, a connection other than `i` that is registered for the
peer and runs stays in both maps. -/
def KeepsOthers (s : SwarmInner κ) (peer_id : String) (i : Nat) : Prop :=
  ∀ upgraded s', s.step c (.next upgraded : SwarmAct φ) = some s' →
    ∀ j, j ≠ i → s.connections.lookup peer_id = some j → s.loops j = true →
      s'.connections.lookup peer_id = some j ∧ peer_id ∈ s'.peerStore

/-- Registered connections exist, and the notifications in the queue are of no other connection
than the one that is registered, as long as that one runs. -/
structure OwnInv (s : SwarmInner κ) : Prop where
  exist : ∀ peer_id j, s.connections.lookup peer_id = some j → j < s.signs.length
  own : ∀ n ∈ s.notices, ∀ j, s.connections.lookup n.1 = some j → j = n.2 ∨ s.loops j = false

theorem loops_iff (s : SwarmInner κ) (i : Nat) :
    s.loops i = true ↔ ∃ g, s.signs[i]? = some g ∧ g.Looping := by
  unfold SwarmInner.loops SwarmInner.signs
  rw [List.getElem?_map]
  cases s.tasks[i]? with
  | none => simp
  | some t =>
    simp only [Option.any_some, decide_eq_true_eq, Option.map_some, Option.some.injEq,
      exists_eq_left']
    rfl

/-- A task that does not loop starts no more. -/
theorem OwnInv.mono {s s' : SwarmInner κ} (hI : OwnInv s)
    (hlen : s.signs.length ≤ s'.signs.length)
    (hconn : ∀ peer_id j, s'.connections.lookup peer_id = some j →
      s.connections.lookup peer_id = some j)
    (hloops : ∀ j, j < s.signs.length → s'.loops j = true → s.loops j = true)
    (hnotices : ∀ n ∈ s'.notices, n ∈ s.notices) : OwnInv s' where
  exist peer_id j hl := Nat.lt_of_lt_of_le (hI.exist peer_id j (hconn peer_id j hl)) hlen
  own n hn j hl := by
    have hl' := hconn n.1 j hl
    refine (hI.own n (hnotices n hn) j hl').imp_right fun hnot => ?_
    rw [← Bool.not_eq_true] at hnot ⊢
    exact fun hloop => hnot (hloops j (hI.exist n.1 j hl') hloop)

/-- The signs of one task change, and it does not start to loop. -/
theorem loops_of_set {s s' : SwarmInner κ} {i j : Nat} {g g' : Signs} (hget : s.signs[i]? = some g)
    (hsigns : s'.signs = s.signs.set i g') (hstop : g'.Looping → g.Looping)
    (h : s'.loops j = true) : s.loops j = true := by
  obtain ⟨g₁, hg₁, hloop⟩ := (loops_iff s' j).mp h
  rw [hsigns] at hg₁
  by_cases hij : i = j
  · subst hij
    rw [List.getElem?_set_self (List.getElem?_eq_some_iff.mp hget).1] at hg₁
    obtain rfl := Option.some.inj hg₁
    exact (loops_iff s i).mpr ⟨g, hget, hstop hloop⟩
  · rw [List.getElem?_set_ne hij] at hg₁
    exact (loops_iff s j).mpr ⟨g₁, hg₁, hloop⟩

theorem loops_of_signs {s s' : SwarmInner κ} (hsigns : s'.signs = s.signs) (j : Nat)
    (h : s'.loops j = true) : s.loops j = true := by
  rw [loops_iff, hsigns] at h
  exact (loops_iff s j).mpr h

/-- One turn without overlap. -/
theorem OwnInv.step {s s' : SwarmInner κ} {a : SwarmAct φ} (hI : OwnInv s) (hc : NoOverlap s a)
    (h : s.step c a = some s') : OwnInv s' := by
  cases step_effect c h with
  | quiet hcs hsg hno =>
    exact hI.mono (by rw [hsg]) (fun p j hl => by rwa [hcs] at hl)
      (fun j _ => loops_of_signs hsg j) fun n hn => by rwa [hno] at hn
  | abort hcs hsg hno =>
    refine ⟨fun p j hl => ?_, fun n hn => ?_⟩
    · rw [hcs] at hl
      simp at hl
    · rw [hno] at hn
      simp at hn
  | register remote hreg hcs hsg hno =>
    refine ⟨fun p j hl => ?_, fun n hn j hl => ?_⟩
    · rw [hsg, List.length_append, List.length_singleton]
      rw [hcs] at hl
      by_cases hp : p = remote.peerId
      · rw [hp, AList.lookup_insert] at hl
        obtain rfl := Option.some.inj hl
        omega
      · rw [AList.lookup_insert_ne hp] at hl
        have := hI.exist p j hl
        omega
    · -- a peer with a notification in the queue is not the one that is registered now
      rw [hno] at hn
      have hp := hc.1 n hn
      rw [hreg] at hp
      rw [hcs, AList.lookup_insert_ne (of_decide_eq_true hp)] at hl
      have hlt := hI.exist n.1 j hl
      refine (hI.own n hn j hl).imp_right fun hnot => ?_
      rw [← Bool.not_eq_true] at hnot ⊢
      refine fun hloop => hnot ?_
      rw [loops_iff, hsg, List.getElem?_append_left hlt] at hloop
      exact (loops_iff s j).mpr hloop
  | unregister p origin hcm hcs hsg =>
    refine hI.mono (by rw [hsg]) (fun q j hl => ?_) (fun j _ => loops_of_signs hsg j) fun n hn => ?_
    · rw [hcs] at hl
      by_cases hq : q = p
      · rw [hq, AList.lookup_erase] at hl
        simp at hl
      · rwa [AList.lookup_erase_ne hq] at hl
    · unfold SwarmInner.notices at hn ⊢
      rw [hcm]
      exact (List.sublist_cons_self _ _).filterMap _ |>.subset hn
  | notify i g hact hget hloop hcs hsg hno =>
    have hstop : ∀ j, s'.loops j = true → s.loops j = true := by
      intro j hj
      exact loops_of_set hget hsg (fun hl => absurd hl.2 (by simp)) hj
    refine ⟨fun p j hl => ?_, fun n hn j hl => ?_⟩
    · rw [hsg, List.length_set]
      rw [hcs] at hl
      exact hI.exist p j hl
    · rw [hcs] at hl
      rw [hno] at hn
      have hown : j = n.2 ∨ s.loops j = false := by
        rcases List.mem_append.mp hn with hn | hn
        · exact hI.own n hn j hl
        · -- the connection that ends is the one registered for its peer, or that one is gone
          obtain rfl := List.mem_singleton.mp hn
          have halone := hc.2
          subst hact
          unfold SwarmInner.endsAlone at halone
          unfold SwarmInner.signs at hget
          rw [List.getElem?_map] at hget
          obtain ⟨t, ht, rfl⟩ := Option.map_eq_some_iff.mp hget
          dsimp only at halone hl
          rw [ht, Option.all_some, show s.connections.lookup t.remotePeer.peerId = some j from hl,
            Option.all_some, Bool.or_eq_true, decide_eq_true_eq, Bool.not_eq_true'] at halone
          exact halone
      refine hown.imp_right fun hnot => ?_
      rw [← Bool.not_eq_true] at hnot ⊢
      exact fun hl' => hnot (hstop j hl')
  | stop i g g' hget hpeer hsilent hcs hsg hno =>
    refine hI.mono (by rw [hsg, List.length_set]) (fun p j hl => by rwa [hcs] at hl)
      (fun j _ hj => ?_)
      fun n hn => by rwa [hno] at hn
    refine loops_of_set hget hsg (fun hl => ?_) hj
    rcases hsilent with ⟨-, hloop⟩ | ⟨-, rfl⟩
    · exact hloop
    · exact absurd hl.1 (by simp)

/-- **The end of one connection** removes no other one: in every run without overlap, when the
swarm handles the notification of connection `i`, every other connection of the peer that is
registered and runs stays registered. -/
theorem disconnect_keeps_others {as : List (SwarmAct φ)} {s : SwarmInner κ} {peer_id : String}
    {i : Nat} {rest : List Command} (h : (swarm c).RunUnder NoOverlap as s)
    (hc : s.commands = .disconnect peer_id (some i) :: rest) : KeepsOthers c s peer_id i := by
  have hI : OwnInv s := by
    refine h.invariant OwnInv ?_ fun s a s' hI hc hs => hI.step c hc hs
    intro s h
    obtain ⟨pingCheckOpt, handlers, rfl⟩ := h
    exact ⟨fun p j hl => by simp at hl, fun n hn => by simp [SwarmInner.notices] at hn⟩
  intro upgraded s' hs j hne hl hloop
  have hn : (peer_id, i) ∈ s.notices := by
    unfold SwarmInner.notices
    rw [hc]
    exact List.mem_cons_self ..
  rcases hI.own (peer_id, i) hn j hl with hj | hnot
  · exact absurd hj hne
  · rw [hloop] at hnot
    simp at hnot

/-- A `Disconnect` leaves no connection of the peer registered, whichever it was sent for. -/
theorem disconnect_unregisters {s s' : SwarmInner κ} {peer_id : String} {origin : Option Nat}
    {rest : List Command} {upgraded : Option PeerInfo}
    (hc : s.commands = .disconnect peer_id origin :: rest)
    (hs : s.step c (.next upgraded : SwarmAct φ) = some s') : peer_id ∉ s'.connections := by
  rw [← AList.lookup_eq_none]
  simp only [SwarmInner.step] at hs
  rw [hc] at hs
  obtain rfl := Option.some.inj hs
  unfold SwarmInner.handleCommand SwarmInner.onDisconnect
  dsimp only
  cases s.peerStore.lookup peer_id with
  | none => rfl
  | some info =>
    dsimp only
    split
    · rfl
    · exact AList.lookup_erase _ _

/-- So the condition is needed: a notification that finds another running connection of its peer
registered removes that one. -/
theorem overlapping_removed {s : SwarmInner κ} {peer_id : String} {i j : Nat} {rest : List Command}
    (hc : s.commands = .disconnect peer_id (some i) :: rest) (hne : j ≠ i)
    (hl : s.connections.lookup peer_id = some j) (hloop : s.loops j = true) :
    ¬ KeepsOthers c s peer_id i := by
  intro hkeep
  have hs : s.step c (.next none)
      = some (SwarmInner.onDisconnect c { s with commands := rest } peer_id) := by
    simp only [SwarmInner.step]
    rw [hc]
    rfl
  have hkept := (hkeep none _ hs j hne hl hloop).1
  rw [AList.lookup_eq_none.mpr (disconnect_unregisters c hc hs)] at hkept
  simp at hkept

/-- A peer connects twice, one connection after the other. -/
def oneByOne : List (SwarmAct (List UInt8)) :=
  [.accept (some tcpPeer), .rawError 0, .next none, .accept (some tcpPeer), .rawError 1]

theorem oneByOne_enabled :
    ((swarm (bytesCodec leb128)).exec NoOverlap freshSwarm oneByOne).isSome = true := by
  decide +kernel

theorem disconnect_keeps_others_oneByOne :
    ∃ s, (swarm (bytesCodec leb128)).RunUnder NoOverlap oneByOne s ∧
      s.connections.lookup "b" = some 1 ∧ KeepsOthers (bytesCodec leb128) s "b" 1 := by
  have hrun : (swarm (bytesCodec leb128)).RunUnder NoOverlap oneByOne _ :=
    runUnder_of_exec ⟨true, [], rfl⟩ (Option.some_get oneByOne_enabled).symm
  have hcommands : (((swarm (bytesCodec leb128)).exec NoOverlap freshSwarm oneByOne).get
      oneByOne_enabled).commands = [.disconnect "b" (some 1)] := by decide +kernel
  exact ⟨_, hrun, by decide +kernel, disconnect_keeps_others _ hrun hcommands⟩

/-- Both ends dial, so there are two connections; the first one ends. -/
def crossingDials : List (SwarmAct (List UInt8)) :=
  [.request (.connect tcpPeer.listenAddr), .next (some tcpPeer), .accept (some tcpPeer),
    .rawError 0, .next none]

theorem crossingDials_enabled :
    ((swarm (bytesCodec leb128)).exec (fun _ _ => True) freshSwarm crossingDials).isSome
      = true := by
  decide +kernel

theorem crossing_dials_unregistered :
    ∃ s, (swarm (bytesCodec leb128)).Run crossingDials s ∧ s.loops 1 = true ∧
      "b" ∉ s.connections ∧ "b" ∉ s.peerStore := by
  have hrun : (swarm (bytesCodec leb128)).Run crossingDials _ :=
    runUnder_of_exec ⟨true, [], rfl⟩ (Option.some_get crossingDials_enabled).symm
  exact ⟨_, hrun, by decide +kernel, by decide +kernel, by decide +kernel⟩

end Rnet.Swarm
