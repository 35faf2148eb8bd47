import Rnet.Swarm.Registry

/-!
# The peer store

What one turn of the swarm does to `peer_store`: the remote peer of a connection that is made
comes in, and a peer goes out when its `Disconnect` is handled, whether or not the loop panics
over it and whether or not the connection's task runs.

> `step_store`: every turn leaves the peer store alone, adds the remote peer of a new connection,
> or removes the peer of a `Disconnect`.
-/

namespace Rnet.Swarm

open Rnet.Identity Rnet.Mplex Rnet.Lib

variable {κ φ : Type} (c : Codec κ φ)

namespace SwarmInner

/-- The remote peers of the connections that the swarm has made. -/
def remotes (s : SwarmInner κ) : List PeerInfo := s.tasks.map ConnTask.remotePeer

/-- The peer whose `Disconnect` the loop handles in this turn. -/
def forgetting (s : SwarmInner κ) : SwarmAct φ → Option String
  | .next _ =>
    match s.commands with
    | .disconnect peer_id _ :: _ => some peer_id
    | _ => none
  | _ => none

end SwarmInner

/-- One turn, as far as the peer store goes. -/
inductive StoreTurn (s s' : SwarmInner κ) (a : SwarmAct φ) : Prop
  | keep (kept : s.forgetting a = none) (store : s'.peerStore = s.peerStore)
      (remotes : s'.remotes = s.remotes)
  | insert (remote : PeerInfo) (kept : s.forgetting a = none)
      (store : s'.peerStore = s.peerStore.insert remote.peerId remote)
      (remotes : s'.remotes = s.remotes ++ [remote])
  | erase (peer_id : String) (forgotten : s.forgetting a = some peer_id)
      (store : s'.peerStore = s.peerStore.erase peer_id) (remotes : s'.remotes = s.remotes)

/-- A task keeps its remote peer. -/
theorem remotes_setTask {s : SwarmInner κ} {i : Nat} {t t' : ConnTask κ}
    (h : s.tasks[i]? = some t) (hpeer : t'.remotePeer = t.remotePeer) :
    (s.setTask i t').remotes = s.remotes := by
  have hmap : s.remotes[i]? = some t.remotePeer := by
    unfold SwarmInner.remotes
    rw [List.getElem?_map, h]
    rfl
  obtain ⟨hi, hget⟩ := List.getElem?_eq_some_iff.mp hmap
  unfold SwarmInner.setTask SwarmInner.remotes
  rw [List.map_set, hpeer, ← hget]
  exact List.set_getElem_self hi

theorem sendTo_remotes {s s' : SwarmInner κ} {peer_id : String} {item : Item}
    (h : s.sendTo c peer_id item = some s') : s'.remotes = s.remotes := by
  unfold SwarmInner.sendTo at h
  obtain ⟨i, -, h⟩ := Option.bind_eq_some_iff.mp h
  obtain ⟨t, ht, h⟩ := Option.bind_eq_some_iff.mp h
  obtain ⟨conn, -, h⟩ := Option.bind_eq_some_iff.mp h
  obtain rfl := Option.some.inj h
  exact remotes_setTask ht rfl

theorem remotes_connHandler (s : SwarmInner κ) (remote : PeerInfo) :
    (s.connHandler (some remote)).remotes = s.remotes ++ [remote] := by
  unfold SwarmInner.remotes SwarmInner.connHandler
  rw [List.map_append]
  rfl

/-! ## The turns of the loop -/

/-- `connect` adds the peer that it reaches, or nothing. -/
theorem connect_store (s : SwarmInner κ) (addr : Multiaddr) (upgraded : Option PeerInfo) :
    ((s.connect addr upgraded).peerStore = s.peerStore ∧
      (s.connect addr upgraded).remotes = s.remotes) ∨
    ∃ remote, (s.connect addr upgraded).peerStore = s.peerStore.insert remote.peerId remote ∧
      (s.connect addr upgraded).remotes = s.remotes ++ [remote] := by
  rcases connect_cases s addr upgraded with he | ⟨-, he⟩ | ⟨remote, -, -, he⟩
  · rw [he]
    exact Or.inl ⟨rfl, rfl⟩
  · rw [he]
    exact Or.inl ⟨rfl, rfl⟩
  · rw [he]
    exact Or.inr ⟨remote, rfl, remotes_connHandler s remote⟩

/-- The end of `new_stream` leaves the peer store alone, also when it panics. -/
theorem openStream_store (s : SwarmInner κ) (peer_id : String) (protocols : List Payload) :
    (s.openStream c peer_id protocols).peerStore = s.peerStore ∧
      (s.openStream c peer_id protocols).remotes = s.remotes := by
  cases protocols with
  | nil => exact ⟨rfl, rfl⟩
  | cons protocol _ =>
    unfold SwarmInner.openStream
    dsimp only
    cases hs : s.sendTo c peer_id (.openStream protocol) with
    | none => exact ⟨rfl, rfl⟩
    | some s' => exact ⟨(sendTo_frame c hs).2.2.2, sendTo_remotes c hs⟩

/-- `new_stream` adds the peer that it connects to, or nothing. -/
theorem newStream_store (s : SwarmInner κ) (maddr : Multiaddr) (protocols : List Payload)
    (upgraded : Option PeerInfo) :
    ((s.newStream c maddr protocols upgraded).peerStore = s.peerStore ∧
      (s.newStream c maddr protocols upgraded).remotes = s.remotes) ∨
    ∃ remote, (s.newStream c maddr protocols upgraded).peerStore
        = s.peerStore.insert remote.peerId remote ∧
      (s.newStream c maddr protocols upgraded).remotes = s.remotes ++ [remote] := by
  unfold SwarmInner.newStream
  cases maddr.valueForP2p with
  | none => exact Or.inl ⟨rfl, rfl⟩
  | some peer_id =>
    dsimp only
    split
    · exact Or.inl (openStream_store c s peer_id protocols)
    · obtain ⟨hstore, hremotes⟩ :=
        openStream_store c (s.connect maddr upgraded) peer_id protocols
      rw [hstore, hremotes]
      exact connect_store s maddr upgraded

/-- `on_disconnect` removes its peer, also when it panics. -/
theorem onDisconnect_store (s : SwarmInner κ) (peer_id : String) :
    (s.onDisconnect c peer_id).peerStore = s.peerStore.erase peer_id ∧
      (s.onDisconnect c peer_id).remotes = s.remotes := by
  unfold SwarmInner.onDisconnect
  cases hl : s.peerStore.lookup peer_id with
  | none =>
    refine ⟨AList.ext ?_, rfl⟩
    exact (List.kerase_of_notMem_keys (AList.lookup_eq_none.mp hl)).symm
  | some remote_peer_info =>
    dsimp only
    split
    · exact ⟨rfl, rfl⟩
    · rename_i s' hs
      split at hs
      · have hstore := (sendTo_frame c hs).2.2.2
        have hremotes := sendTo_remotes c hs
        exact ⟨hstore, hremotes⟩
      · obtain rfl := Option.some.inj hs
        exact ⟨rfl, rfl⟩

/-! ## Every turn -/

/-- A turn that the loop takes no part in makes no connection. -/
theorem remotes_elsewhere {s s' : SwarmInner κ} {a : SwarmAct φ} (ha : a.ofLoop = false)
    (h : s.step c a = some s') : s'.remotes = s.remotes := by
  cases elsewhere_cases c ha h with
  | queued commands _ hs =>
    rw [hs]
    rfl
  | task i t t' hget hs hpeer =>
    rw [hs]
    exact remotes_setTask hget hpeer
  | notified i t t' commands _ hget hs hpeer =>
    rw [hs]
    exact remotes_setTask hget hpeer

/-- The two ways in which a turn that handles no `Disconnect` goes. -/
theorem StoreTurn.of_cases {s s' : SwarmInner κ} {a : SwarmAct φ} (kept : s.forgetting a = none)
    (h : (s'.peerStore = s.peerStore ∧ s'.remotes = s.remotes) ∨
      ∃ remote, s'.peerStore = s.peerStore.insert remote.peerId remote ∧
        s'.remotes = s.remotes ++ [remote]) : StoreTurn s s' a := by
  rcases h with ⟨hstore, hremotes⟩ | ⟨remote, hstore, hremotes⟩
  · exact .keep kept hstore hremotes
  · exact .insert remote kept hstore hremotes

/-- **Every turn** leaves the peer store alone, adds the remote peer of a new connection, or
removes the peer of a `Disconnect`. -/
theorem step_store {s s' : SwarmInner κ} {a : SwarmAct φ} (h : s.step c a = some s') :
    StoreTurn s s' a := by
  cases hloop : a.ofLoop with
  | false =>
    refine .keep ?_ (step_elsewhere c hloop h).2.1 (remotes_elsewhere c hloop h)
    cases a with
    | next => simp [SwarmAct.ofLoop] at hloop
    | _ => rfl
  | true =>
    cases a with
    | accept upgraded =>
      simp only [SwarmInner.step] at h
      split at h
      swap
      · simp at h
      obtain rfl := Option.some.inj h
      cases upgraded with
      | none => exact .keep rfl rfl rfl
      | some remote => exact .insert remote rfl rfl (remotes_connHandler s remote)
    | next upgraded =>
      simp only [SwarmInner.step] at h
      cases hc : s.commands with
      | nil =>
        rw [hc] at h
        simp at h
      | cons command rest =>
        rw [hc] at h
        obtain rfl := Option.some.inj h
        cases command with
        | connect maddr =>
          refine .of_cases ?_ (connect_store { s with commands := rest } maddr upgraded)
          simp only [SwarmInner.forgetting]
          rw [hc]
        | newStream maddr protocols =>
          refine .of_cases ?_
            (newStream_store c { s with commands := rest } maddr protocols upgraded)
          simp only [SwarmInner.forgetting]
          rw [hc]
        | disconnect peer_id origin =>
          obtain ⟨hstore, hremotes⟩ :=
            onDisconnect_store c { s with commands := rest } peer_id
          refine .erase peer_id ?_ hstore hremotes
          simp only [SwarmInner.forgetting]
          rw [hc]
    | _ => simp [SwarmAct.ofLoop] at hloop

/-- The connections that have been made stay known. -/
theorem StoreTurn.remotes_subset {s s' : SwarmInner κ} {a : SwarmAct φ} (h : StoreTurn s s' a) :
    ∀ info ∈ s.remotes, info ∈ s'.remotes := by
  intro info hmem
  cases h with
  | keep _ _ hremotes | erase _ _ _ hremotes => rwa [hremotes]
  | insert remote _ _ hremotes =>
    rw [hremotes]
    exact List.mem_append_left _ hmem

/-- Every peer is stored under its own id, with what it has told on a connection. -/
def Stored (s : SwarmInner κ) : Prop :=
  ∀ peer_id info, s.peerStore.lookup peer_id = some info →
    info.peerId = peer_id ∧ info ∈ s.remotes

theorem Stored.step {s s' : SwarmInner κ} {a : SwarmAct φ} (h : Stored s)
    (hs : StoreTurn s s' a) : Stored s' := by
  intro peer_id info hl
  cases hs with
  | keep _ hstore hremotes =>
    rw [hstore] at hl
    rw [hremotes]
    exact h peer_id info hl
  | insert remote _ hstore hremotes =>
    rw [hstore] at hl
    rw [hremotes]
    by_cases hp : peer_id = remote.peerId
    · subst hp
      rw [AList.lookup_insert] at hl
      obtain rfl := Option.some.inj hl
      exact ⟨rfl, List.mem_append_right _ (List.mem_singleton_self _)⟩
    · rw [AList.lookup_insert_ne hp] at hl
      obtain ⟨hid, hmem⟩ := h peer_id info hl
      exact ⟨hid, List.mem_append_left _ hmem⟩
  | erase forgotten _ hstore hremotes =>
    rw [hstore] at hl
    rw [hremotes]
    by_cases hp : peer_id = forgotten
    · rw [hp, AList.lookup_erase] at hl
      exact absurd hl (by simp)
    · rw [AList.lookup_erase_ne hp] at hl
      exact h peer_id info hl

end Rnet.Swarm
