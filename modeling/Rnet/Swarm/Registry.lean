import Rnet.Swarm.Overlap

/-!
# What is registered: `connect`, `new_stream` and `on_disconnect`

The swarm registers a connection in two maps, under the peer id that the remote end sends in
`identify`. `connect` and `new_stream` look a peer up under the id of the address they were
given, and `on_disconnect` under the id of the command. Nothing compares these ids,
and every step that can fail is unwrapped inside the loop.

> `registers_iff`: a connection that was dialed for a peer is registered for that peer if and
> only if the remote end calls itself so.

> `disconnects_sound_iff`: a run keeps what `on_disconnect` promises if and only if every
> `Disconnect` finds its peer in the peer store, over UDP with a running task, and no other
> operation of the loop breaks off while a peer is registered.

The queue of a task has no bound here. In the source it has, and the `send` in `on_disconnect` may
wait for a place; the loop then handles nothing until the task takes an item or ends.
-/

namespace Rnet.Swarm

open Rnet.Identity Rnet.Mplex Rnet.Lib
open Rnet.Lib.System (runUnder_of_exec guarded_of_invariant)

variable {κ φ : Type} (c : Codec κ φ)

namespace SwarmInner

/-- The sender stored for a peer belongs to a task that still runs. -/
def reaches (s : SwarmInner κ) (peer_id : String) : Bool :=
  (s.connections.lookup peer_id).any fun i => (s.tasks[i]?).any fun t => t.conn.running

/-- Nothing that `handleCommand` unwraps for the command is missing. -/
def completes (s : SwarmInner κ) (upgraded : Option PeerInfo) : Command → Bool
  | .connect maddr =>
    maddr.valueForP2p.any fun peer_id => peer_id ∈ s.connections || upgraded.isSome
  | .newStream maddr protocols =>
    !protocols.isEmpty && maddr.valueForP2p.any fun peer_id =>
      if peer_id ∈ s.connections then s.reaches peer_id
      else upgraded.any fun remote_peer => remote_peer.peerId = peer_id
  | .disconnect peer_id _ =>
    (s.peerStore.lookup peer_id).any fun remote_peer =>
      !remote_peer.listenAddr.valueForUdp.isSome || s.reaches peer_id

end SwarmInner

/-- `send(..).await.unwrap()` finds a receiver. -/
theorem sendTo_isSome (s : SwarmInner κ) (peer_id : String) (item : Item) :
    (s.sendTo c peer_id item).isSome = s.reaches peer_id := by
  unfold SwarmInner.sendTo SwarmInner.reaches
  cases s.connections.lookup peer_id with
  | none => rfl
  | some i =>
    dsimp only [Option.bind_eq_bind, Option.bind_some, Option.any_some]
    cases s.tasks[i]? with
    | none => rfl
    | some t =>
      dsimp only [Option.bind_some, Option.any_some]
      unfold MplexConn.send
      cases t.conn.running with
      | true => rfl
      | false => rfl

/-- Sending leaves the loop as it is. -/
theorem sendTo_alive {s s' : SwarmInner κ} {peer_id : String} {item : Item}
    (h : s.sendTo c peer_id item = some s') : s'.alive = s.alive := by
  unfold SwarmInner.sendTo at h
  obtain ⟨i, -, h⟩ := Option.bind_eq_some_iff.mp h
  obtain ⟨t, -, h⟩ := Option.bind_eq_some_iff.mp h
  obtain ⟨conn, -, h⟩ := Option.bind_eq_some_iff.mp h
  obtain rfl := Option.some.inj h
  rfl

/-! ## `connect` and `new_stream` -/

/-- The connection that is dialed next is the one registered for the peer, and everything about
the other peers is as it was. -/
structure Registered (s s' : SwarmInner κ) (peer_id : String) : Prop where
  stored : peer_id ∈ s'.peerStore
  dialed : s'.connections.lookup peer_id = some s.tasks.length
  others : ∀ q, q ≠ peer_id → s'.connections.lookup q = s.connections.lookup q ∧
    s'.peerStore.lookup q = s.peerStore.lookup q

/-- A connection is registered under the id that its remote end has sent. -/
theorem connHandler_registered (s : SwarmInner κ) (remote_peer : PeerInfo) :
    Registered s (s.connHandler (some remote_peer)) remote_peer.peerId where
  stored := (AList.mem_insert _).mpr (Or.inl rfl)
  dialed := AList.lookup_insert _
  others _ hq := ⟨AList.lookup_insert_ne hq, AList.lookup_insert_ne hq⟩

/-- No other peer that was free is registered by it. -/
theorem not_registered_other {s : SwarmInner κ} {remote_peer : PeerInfo} {peer_id : String}
    (hfree : peer_id ∉ s.connections) (hne : remote_peer.peerId ≠ peer_id) :
    peer_id ∉ (s.connHandler (some remote_peer)).connections := by
  intro hmem
  have hlookup := ((connHandler_registered s remote_peer).others peer_id hne.symm).1
  rw [AList.lookup_eq_none.mpr hfree, AList.lookup_eq_none] at hlookup
  exact hlookup hmem

/-- The connection that was just dialed is the one that the peer's sender belongs to, if the peer
has called itself so. -/
theorem reaches_dialed {s : SwarmInner κ} {peer_id : String} (hfree : peer_id ∉ s.connections)
    (remote_peer : PeerInfo) :
    (s.connHandler (some remote_peer)).reaches peer_id =
      decide (remote_peer.peerId = peer_id) := by
  unfold SwarmInner.reaches
  by_cases he : remote_peer.peerId = peer_id
  · rw [decide_eq_true he, ← he, (connHandler_registered s remote_peer).dialed, Option.any_some]
    unfold SwarmInner.connHandler
    dsimp only
    rw [List.getElem?_append_right (Nat.le_refl _), Nat.sub_self]
    rfl
  · rw [decide_eq_false he, AList.lookup_eq_none.mpr (not_registered_other hfree he)]
    rfl

/-- The end of `new_stream`, where the frame can be sent. -/
theorem openStream_sent {s : SwarmInner κ} {peer_id : String} {protocols : List Payload}
    (h : (!protocols.isEmpty && s.reaches peer_id) = true) :
    ∃ item s', s.sendTo c peer_id item = some s' ∧ s.openStream c peer_id protocols = s' := by
  cases protocols with
  | nil => simp at h
  | cons protocol rest =>
    rw [← sendTo_isSome c s peer_id (.openStream protocol)] at h
    obtain ⟨s', hs'⟩ := Option.isSome_iff_exists.mp h
    refine ⟨_, s', hs', ?_⟩
    unfold SwarmInner.openStream
    dsimp only
    rw [hs', Option.getD_some]

/-- The end of `new_stream`, where it cannot. -/
theorem openStream_abort {s : SwarmInner κ} {peer_id : String} {protocols : List Payload}
    (h : (!protocols.isEmpty && s.reaches peer_id) = false) :
    s.openStream c peer_id protocols = s.abort := by
  cases protocols with
  | nil => rfl
  | cons protocol rest =>
    have hnone : s.sendTo c peer_id (.openStream protocol) = none := by
      rw [← Option.isNone_iff_eq_none, ← Option.isSome_eq_false_iff, sendTo_isSome]
      exact h
    unfold SwarmInner.openStream
    dsimp only
    rw [hnone, Option.getD_none]

/-- `new_stream` on a connection that it dials finds it exactly if the ids agree. -/
theorem newStream_dialed_alive {s : SwarmInner κ} {maddr : Multiaddr} {peer_id : String}
    {remote_peer : PeerInfo} (hp : maddr.valueForP2p = some peer_id)
    (hfree : peer_id ∉ s.connections) (protocol : Payload) (rest : List Payload) :
    (s.newStream c maddr (protocol :: rest) (some remote_peer)).alive =
      (s.alive && decide (remote_peer.peerId = peer_id)) := by
  unfold SwarmInner.newStream SwarmInner.connect
  rw [hp]
  dsimp only
  rw [if_neg hfree, if_neg hfree]
  have hopen : (!(protocol :: rest).isEmpty &&
      (s.connHandler (some remote_peer)).reaches peer_id) =
        decide (remote_peer.peerId = peer_id) := reaches_dialed hfree remote_peer
  cases hd : decide (remote_peer.peerId = peer_id) with
  | true =>
    obtain ⟨item, s', hs', he⟩ := openStream_sent c (hopen.trans hd)
    rw [he, sendTo_alive c hs', Bool.and_true]
    rfl
  | false =>
    rw [openStream_abort c (hopen.trans hd), Bool.and_false]
    rfl

/-- **Who is registered.** When `connect` returns for a peer that was not connected, the new
connection is registered for that peer, the others are as they were, and `new_stream` finds the
peer, if and only if the remote end has identified itself as that peer. -/
theorem registers_iff {s : SwarmInner κ} (halive : s.alive = true) {m : Multiaddr} {p : String}
    (hp : m.valueForP2p = some p) (hfree : p ∉ s.connections) (upgraded : Option PeerInfo) :
    ((s.connect m upgraded).alive = true →
      Registered s (s.connect m upgraded) p ∧
        ∀ protocol rest, (s.newStream c m (protocol :: rest) upgraded).alive = true) ↔
      ∀ remote_peer, upgraded = some remote_peer → remote_peer.peerId = p := by
  have hconnect : s.connect m upgraded = s.connHandler upgraded := by
    unfold SwarmInner.connect
    rw [hp]
    exact if_neg hfree
  rw [hconnect]
  cases upgraded with
  | none =>
    refine ⟨fun _ _ h => by simp at h, fun _ h => ?_⟩
    simp [SwarmInner.connHandler, SwarmInner.abort] at h
  | some remote_peer =>
    constructor
    · intro h remote hr
      obtain rfl := Option.some.inj hr
      obtain ⟨hreg, -⟩ := h halive
      by_contra hne
      apply not_registered_other hfree hne
      rw [← AList.lookup_isSome, hreg.dialed]
      rfl
    · intro h _
      have he := h remote_peer rfl
      refine ⟨he ▸ connHandler_registered s remote_peer, fun protocol rest => ?_⟩
      rw [newStream_dialed_alive c hp hfree, halive, decide_eq_true he]
      rfl

/-- The address of `b`, dialed by a swarm that knows nobody. -/
theorem registers_iff_fresh :
    ((freshSwarm.connect tcpPeer.listenAddr (some tcpPeer)).alive = true →
      Registered freshSwarm (freshSwarm.connect tcpPeer.listenAddr (some tcpPeer)) "b" ∧
        ∀ protocol rest, (freshSwarm.newStream (bytesCodec leb128) tcpPeer.listenAddr
          (protocol :: rest) (some tcpPeer)).alive = true) ↔
      ∀ remote_peer, some tcpPeer = some remote_peer → remote_peer.peerId = "b" :=
  registers_iff (bytesCodec leb128) (s := freshSwarm) rfl rfl (by decide) (some tcpPeer)

/-- A peer with another id, at the address of `b`. -/
def otherPeer : PeerInfo := ⟨"c", tcpPeer.listenAddr⟩

/-- **The remote end calls itself `c`**: then `b`, who was dialed, is not registered, and
`new_stream` panics. -/
theorem other_id_registered :
    (freshSwarm.connect tcpPeer.listenAddr (some otherPeer)).alive = true ∧
      ¬ Registered freshSwarm (freshSwarm.connect tcpPeer.listenAddr (some otherPeer)) "b" ∧
      (freshSwarm.newStream (bytesCodec leb128) tcpPeer.listenAddr [Payload.empty]
        (some otherPeer)).alive = false := by
  refine ⟨rfl, fun h => ?_, by decide +kernel⟩
  have hstored := h.stored
  revert hstored
  decide

/-! ## `on_disconnect` -/

/-- A peer is a key of `connections` exactly if it is one of the peer store. -/
def SameKeys (s : SwarmInner κ) : Prop := ∀ peer_id, peer_id ∈ s.connections ↔ peer_id ∈ s.peerStore

/-- `on_disconnect` has done its work: the loop goes on, the peer is gone from both maps, and the
others are as they were. -/
structure Removed (s s' : SwarmInner κ) (peer_id : String) : Prop where
  alive : s'.alive = true
  forgotten : peer_id ∉ s'.peerStore
  unregistered : peer_id ∉ s'.connections
  others : ∀ q, q ≠ peer_id → s'.connections.lookup q = s.connections.lookup q ∧
    s'.peerStore.lookup q = s.peerStore.lookup q

/-- What is promised of a turn: a `Disconnect` does its work, and the keys are the same. -/
def DisconnectSound (s : SwarmInner κ) (a : SwarmAct φ) : Prop :=
  ∀ s', s.step c a = some s' → SameKeys s' ∧
    ∀ upgraded peer_id origin rest, a = .next upgraded →
      s.commands = .disconnect peer_id origin :: rest → Removed s s' peer_id

namespace SwarmInner

/-- Should the command break off, it has registered nobody by then, and nobody was registered. -/
def breaksOffEmpty (s : SwarmInner κ) (upgraded : Option PeerInfo) : Command → Bool
  | .connect _ => s.peerStore.keys.isEmpty
  | .newStream maddr _ =>
    s.peerStore.keys.isEmpty && maddr.valueForP2p.all fun peer_id =>
      peer_id ∈ s.connections || upgraded.isNone
  | .disconnect _ _ => false

/-- The operation of the loop completes, or breaks off while nobody is registered. -/
def orderly (s : SwarmInner κ) : SwarmAct φ → Bool
  | .accept upgraded => upgraded.isSome || s.peerStore.keys.isEmpty
  | .next upgraded =>
    s.commands.head?.all fun command =>
      s.completes upgraded command || s.breaksOffEmpty upgraded command
  | _ => true

end SwarmInner

theorem SameKeys.of_eq {s s' : SwarmInner κ} (h : SameKeys s)
    (hconnections : s'.connections = s.connections) (hstore : s'.peerStore = s.peerStore) :
    SameKeys s' := by
  unfold SameKeys
  rw [hconnections, hstore]
  exact h

/-- A panic keeps the keys the same only if there are none. -/
theorem sameKeys_abort (s : SwarmInner κ) :
    SameKeys s.abort ↔ s.peerStore.keys.isEmpty = true := by
  have hnone : ∀ peer_id, peer_id ∉ s.abort.connections := AList.notMem_empty
  constructor
  · intro h
    rw [List.isEmpty_iff, List.eq_nil_iff_forall_not_mem]
    intro peer_id hmem
    exact hnone peer_id ((h peer_id).mpr (AList.mem_keys.mpr hmem))
  · intro h peer_id
    rw [List.isEmpty_iff] at h
    refine ⟨fun hmem => absurd hmem (hnone peer_id), fun hmem => ?_⟩
    have hmem : peer_id ∈ s.peerStore.keys := AList.mem_keys.mp hmem
    rw [h] at hmem
    simp at hmem

/-- Registering a connection adds its key to both maps. -/
theorem SameKeys.connHandler {s : SwarmInner κ} (h : SameKeys s) (remote_peer : PeerInfo) :
    SameKeys (s.connHandler (some remote_peer)) := by
  intro peer_id
  unfold SwarmInner.connHandler SwarmInner.updatePeerstore
  dsimp only
  rw [AList.mem_insert, AList.mem_insert, h peer_id]

/-- Sending changes neither map. -/
theorem SameKeys.sendTo {s s' : SwarmInner κ} {peer_id : String} {item : Item} (h : SameKeys s)
    (hs : s.sendTo c peer_id item = some s') : SameKeys s' := by
  obtain ⟨hconnections, -, -, hstore⟩ := sendTo_frame c hs
  exact h.of_eq hconnections hstore

/-- A peer that the swarm has just registered is in the store of a swarm that then panics. -/
theorem not_sameKeys_registered (s : SwarmInner κ) (remote_peer : PeerInfo) :
    ¬ SameKeys (s.connHandler (some remote_peer)).abort := by
  rw [sameKeys_abort, List.isEmpty_iff]
  intro h
  have hmem := AList.mem_keys.mp (connHandler_registered s remote_peer).stored
  rw [h] at hmem
  simp at hmem

/-- A `Connect` leaves the keys the same if it completes, or breaks off while there are none. -/
theorem connect_sameKeys {s : SwarmInner κ} (h : SameKeys s) (maddr : Multiaddr)
    (upgraded : Option PeerInfo) :
    SameKeys (s.connect maddr upgraded) ↔
      (s.completes upgraded (.connect maddr) || s.breaksOffEmpty upgraded (.connect maddr))
        = true := by
  unfold SwarmInner.connect SwarmInner.completes SwarmInner.breaksOffEmpty
  dsimp only
  cases maddr.valueForP2p with
  | none => exact sameKeys_abort s
  | some peer_id =>
    dsimp only [Option.any_some]
    by_cases hmem : peer_id ∈ s.connections
    · rw [if_pos hmem, decide_eq_true hmem]
      exact iff_of_true h rfl
    · rw [if_neg hmem, decide_eq_false hmem]
      cases upgraded with
      | none => exact sameKeys_abort s
      | some remote_peer => exact iff_of_true (h.connHandler remote_peer) rfl

/-- So does a `NewStream`, unless it breaks off behind a connection it has made. -/
theorem newStream_sameKeys {s : SwarmInner κ} (h : SameKeys s) (maddr : Multiaddr)
    (protocols : List Payload) (upgraded : Option PeerInfo) :
    SameKeys (s.newStream c maddr protocols upgraded) ↔
      (s.completes upgraded (.newStream maddr protocols) ||
        s.breaksOffEmpty upgraded (.newStream maddr protocols)) = true := by
  unfold SwarmInner.newStream SwarmInner.connect SwarmInner.completes SwarmInner.breaksOffEmpty
  dsimp only
  cases maddr.valueForP2p with
  | none =>
    rw [Option.any_none, Option.all_none, Bool.and_false, Bool.false_or, Bool.and_true]
    exact sameKeys_abort s
  | some peer_id =>
    dsimp only [Option.any_some, Option.all_some]
    by_cases hmem : peer_id ∈ s.connections
    · -- no dial: all that can break off is the frame for the stream
      rw [if_pos hmem, if_pos hmem, decide_eq_true hmem, Bool.true_or, Bool.and_true]
      cases hopen : !protocols.isEmpty && s.reaches peer_id with
      | true =>
        obtain ⟨item, s', hs', he⟩ := openStream_sent c hopen
        rw [he]
        exact iff_of_true (h.sendTo c hs') rfl
      | false =>
        rw [openStream_abort c hopen]
        exact sameKeys_abort s
    · rw [if_neg hmem, if_neg hmem, if_neg hmem, decide_eq_false hmem, Bool.false_or]
      cases upgraded with
      | none =>
        -- the dial has failed, so nobody was registered before the panic
        have hnobody : s.abort.reaches peer_id = false := rfl
        rw [show s.connHandler none = s.abort from rfl,
          openStream_abort c (by rw [hnobody, Bool.and_false]), Option.any_none, Bool.and_false,
          Bool.false_or]
        exact (sameKeys_abort s.abort).trans (by simp [SwarmInner.abort])
      | some remote_peer =>
        have hreaches := reaches_dialed hmem remote_peer
        rw [Option.any_some, ← hreaches, Option.isNone_some, Bool.and_false, Bool.or_false]
        cases hopen : !protocols.isEmpty && (s.connHandler (some remote_peer)).reaches peer_id with
        | true =>
          obtain ⟨item, s', hs', he⟩ := openStream_sent c hopen
          rw [he]
          exact iff_of_true ((h.connHandler remote_peer).sendTo c hs') rfl
        | false =>
          -- the dialed peer is in the store by now, whoever it is
          rw [openStream_abort c hopen]
          exact iff_of_false (not_sameKeys_registered s remote_peer) (by simp)

/-- A `Disconnect` does its work exactly if it completes. -/
theorem onDisconnect_removed {s : SwarmInner κ} (halive : s.alive = true) (peer_id : String)
    (origin : Option Nat) (upgraded : Option PeerInfo) :
    Removed s (s.onDisconnect c peer_id) peer_id ↔
      s.completes upgraded (.disconnect peer_id origin) = true := by
  unfold SwarmInner.onDisconnect SwarmInner.completes
  dsimp only
  cases s.peerStore.lookup peer_id with
  | none => exact iff_of_false (fun h => by simpa [SwarmInner.abort] using h.alive) (by simp)
  | some remote_peer =>
    dsimp only [Option.any_some]
    -- `on_disconnect` looks for the sender after the peer has left the store
    have hreaches : ({ s with peerStore := s.peerStore.erase peer_id } : SwarmInner κ).reaches
        peer_id = s.reaches peer_id := rfl
    cases remote_peer.listenAddr.valueForUdp with
    | none =>
      -- over TCP nothing is sent
      refine iff_of_true ⟨halive, ?_, ?_, fun q hq => ⟨?_, ?_⟩⟩ rfl
      · exact fun h => (AList.mem_erase.mp h).1 rfl
      · exact fun h => (AList.mem_erase.mp h).1 rfl
      · exact AList.lookup_erase_ne hq
      · exact AList.lookup_erase_ne hq
    | some port =>
      dsimp only [Option.isSome_some]
      rw [if_pos rfl, Bool.not_true, Bool.false_or, ← hreaches,
        ← sendTo_isSome c _ peer_id (.disconnect Payload.empty)]
      cases hs : SwarmInner.sendTo c { s with peerStore := s.peerStore.erase peer_id } peer_id
          (.disconnect Payload.empty) with
      | none => exact iff_of_false (fun h => by simpa [SwarmInner.abort] using h.alive) (by simp)
      | some s' =>
        obtain ⟨hconnections, -, -, hstore⟩ := sendTo_frame c hs
        have halive' := sendTo_alive c hs
        refine iff_of_true ⟨halive'.trans halive, ?_, ?_, fun q hq => ⟨?_, ?_⟩⟩ rfl
        · intro h
          rw [show s'.peerStore = s.peerStore.erase peer_id from hstore] at h
          exact (AList.mem_erase.mp h).1 rfl
        · exact fun h => (AList.mem_erase.mp h).1 rfl
        · rw [← show s'.connections = s.connections from hconnections]
          exact AList.lookup_erase_ne hq
        · rw [show s'.peerStore = s.peerStore.erase peer_id from hstore]
          exact AList.lookup_erase_ne hq

/-- With its work done, the keys are still the same. -/
theorem Removed.sameKeys {s s' : SwarmInner κ} {peer_id : String} (h : Removed s s' peer_id)
    (hs : SameKeys s) : SameKeys s' := by
  intro q
  by_cases hq : q = peer_id
  · subst hq
    exact iff_of_false h.unregistered h.forgotten
  · obtain ⟨hconnections, hstore⟩ := h.others q hq
    rw [← AList.lookup_isSome, ← AList.lookup_isSome, hconnections, hstore, AList.lookup_isSome,
      AList.lookup_isSome]
    exact hs q

/-! ## Every run -/

/-- The loop takes part in the turn. -/
def SwarmAct.ofLoop : SwarmAct φ → Bool
  | .accept _ | .next _ => true
  | _ => false

/-- A turn that the loop takes no part in: a command is queued, the state of a task changes, or
both. -/
inductive Elsewhere (s s' : SwarmInner κ) : Prop
  | queued (commands : List Command) (alive : s.alive = true) (hs : s' = { s with commands })
  | task (i : Nat) (t t' : ConnTask κ) (get : s.tasks[i]? = some t)
      (hs : s' = s.setTask i t') (peer : t'.remotePeer = t.remotePeer)
  | notified (i : Nat) (t t' : ConnTask κ) (commands : List Command) (alive : s.alive = true)
      (get : s.tasks[i]? = some t) (hs : s' = { s.setTask i t' with commands })
      (peer : t'.remotePeer = t.remotePeer)

theorem elsewhere_cases {s s' : SwarmInner κ} {a : SwarmAct φ} (ha : a.ofLoop = false)
    (h : s.step c a = some s') : Elsewhere s s' := by
  cases a with
  | accept | next => simp [SwarmAct.ofLoop] at ha
  | request command =>
    -- together with `rawError` the only turn that queues a command, and only on an open queue
    unfold SwarmInner.step at h
    dsimp only at h
    split at h
    · rename_i hcond
      exact .queued _ hcond.1 (Option.some.inj h).symm
    · simp at h
  | recvQueue i written =>
    obtain ⟨t, ht, h⟩ := Option.bind_eq_some_iff.mp h
    obtain ⟨⟨conn, frames⟩, -, h⟩ := Option.bind_eq_some_iff.mp h
    exact .task i t _ (of_looping ht).1 (Option.some.inj h).symm rfl
  | recvRaw i frames =>
    obtain ⟨t, ht, h⟩ := Option.bind_eq_some_iff.mp h
    obtain ⟨conn, -, h⟩ := Option.bind_eq_some_iff.mp h
    exact .task i t _ (of_looping ht).1 (Option.some.inj h).symm rfl
  | rawError i =>
    obtain ⟨t, ht, h⟩ := Option.bind_eq_some_iff.mp h
    split at h
    · rename_i halive
      obtain rfl := Option.some.inj h
      exact .notified i t { t with left := true, notices := t.notices + 1 } _ halive
        (of_looping ht).1 rfl rfl
    · exact .task i t _ (of_looping ht).1 (Option.some.inj h).symm rfl
  | rawPanic i =>
    obtain ⟨t, ht, h⟩ := Option.bind_eq_some_iff.mp h
    exact .task i t _ (of_looping ht).1 (Option.some.inj h).symm rfl
  | drop i =>
    obtain ⟨t, ht, h⟩ := Option.bind_eq_some_iff.mp h
    split at h
    · exact .task i t _ ht (Option.some.inj h).symm rfl
    · simp at h
  | stream i k b =>
    obtain ⟨t, ht, h⟩ := Option.bind_eq_some_iff.mp h
    obtain ⟨conn, -, h⟩ := Option.bind_eq_some_iff.mp h
    exact .task i t _ ht (Option.some.inj h).symm rfl
  | liveliness i | pingTimeout i =>
    obtain ⟨t, ht, h⟩ := Option.bind_eq_some_iff.mp h
    obtain ⟨_, -, h⟩ := Option.bind_eq_some_iff.mp h
    obtain ⟨conn, -, h⟩ := Option.bind_eq_some_iff.mp h
    exact .task i t _ ht (Option.some.inj h).symm rfl

/-- A turn that the loop takes no part in leaves the maps as they are. -/
theorem step_elsewhere {s s' : SwarmInner κ} {a : SwarmAct φ} (ha : a.ofLoop = false)
    (h : s.step c a = some s') :
    s'.connections = s.connections ∧ s'.peerStore = s.peerStore ∧ s'.alive = s.alive ∧
      (s'.commands = s.commands ∨ s.alive = true) := by
  cases elsewhere_cases c ha h with
  | queued commands halive hs =>
    rw [hs]
    exact ⟨rfl, rfl, rfl, Or.inr halive⟩
  | task i t t' _ hs =>
    rw [hs]
    exact ⟨rfl, rfl, rfl, Or.inl rfl⟩
  | notified i t t' commands halive _ hs =>
    rw [hs]
    exact ⟨rfl, rfl, rfl, Or.inr halive⟩

/-- A loop that has panicked has no commands left. -/
def Closed (s : SwarmInner κ) : Prop := s.alive = false → s.commands = []

theorem closed_abort (s : SwarmInner κ) : Closed s.abort := fun _ => rfl

theorem Closed.openStream {s : SwarmInner κ} (h : Closed s) (peer_id : String)
    (protocols : List Payload) : Closed (s.openStream c peer_id protocols) := by
  cases hopen : !protocols.isEmpty && s.reaches peer_id with
  | true =>
    obtain ⟨item, s', hs', he⟩ := openStream_sent c hopen
    obtain ⟨-, -, hcommands, -⟩ := sendTo_frame c hs'
    rw [he]
    intro hdead
    rw [hcommands]
    exact h ((sendTo_alive c hs').symm.trans hdead)
  | false =>
    rw [openStream_abort c hopen]
    exact closed_abort s

theorem Closed.connect {s : SwarmInner κ} (h : Closed s) (maddr : Multiaddr)
    (upgraded : Option PeerInfo) : Closed (s.connect maddr upgraded) := by
  rcases connect_cases s maddr upgraded with he | ⟨-, he⟩ | ⟨remote_peer, -, -, he⟩
  · rw [he]
    exact closed_abort s
  · rw [he]
    exact h
  · rw [he]
    exact h

theorem Closed.newStream {s : SwarmInner κ} (h : Closed s) (maddr : Multiaddr)
    (protocols : List Payload) (upgraded : Option PeerInfo) :
    Closed (s.newStream c maddr protocols upgraded) := by
  unfold SwarmInner.newStream
  split
  · exact closed_abort s
  · rename_i peer_id hp
    by_cases hmem : peer_id ∈ s.connections
    · rw [if_pos hmem]
      exact h.openStream c peer_id protocols
    · rw [if_neg hmem]
      exact (h.connect maddr upgraded).openStream c peer_id protocols

theorem Closed.onDisconnect {s : SwarmInner κ} (h : Closed s) (peer_id : String) :
    Closed (s.onDisconnect c peer_id) := by
  unfold SwarmInner.onDisconnect
  split
  · exact closed_abort s
  · dsimp only
    split
    · exact closed_abort _
    · rename_i s' hs
      split at hs
      · obtain ⟨-, -, hcommands, -⟩ := sendTo_frame c hs
        have halive := sendTo_alive c hs
        intro hdead
        exact hcommands.trans (h (halive.symm.trans hdead))
      · obtain rfl := Option.some.inj hs
        exact h

/-- **One turn** leaves the queue of a loop that has panicked closed. -/
theorem Closed.step {s s' : SwarmInner κ} {a : SwarmAct φ} (h : Closed s)
    (hs : s.step c a = some s') : Closed s' := by
  by_cases ha : a.ofLoop = false
  · obtain ⟨-, -, halive, hcommands⟩ := step_elsewhere c ha hs
    intro hdead
    rw [halive] at hdead
    rcases hcommands with he | he
    · exact he.trans (h hdead)
    · rw [hdead] at he
      simp at he
  · cases a with
    | accept upgraded =>
      unfold SwarmInner.step at hs
      dsimp only at hs
      split at hs
      · obtain rfl := Option.some.inj hs
        cases upgraded with
        | none => exact closed_abort s
        | some remote_peer => exact h
      · simp at hs
    | next upgraded =>
      cases hc : s.commands with
      | nil => simp [SwarmInner.step, hc] at hs
      | cons command rest =>
        simp only [SwarmInner.step, hc, Option.some.injEq] at hs
        subst hs
        -- the loop had a command, so it had not panicked
        have hclosed : Closed ({ s with commands := rest } : SwarmInner κ) := by
          intro hdead
          have := h hdead
          rw [hc] at this
          simp at this
        cases command with
        | connect maddr => exact hclosed.connect maddr upgraded
        | newStream maddr protocols => exact hclosed.newStream c maddr protocols upgraded
        | disconnect peer_id origin => exact hclosed.onDisconnect c peer_id
    | _ => simp [SwarmAct.ofLoop] at ha

theorem Closed.alive {s : SwarmInner κ} (h : Closed s) {command : Command} {rest : List Command}
    (hc : s.commands = command :: rest) : s.alive = true := by
  by_contra hdead
  rw [h (Bool.eq_false_of_not_eq_true hdead)] at hc
  simp at hc

/-- The keys are the same, and the queue of a loop that has panicked is closed. -/
structure RegistryInv (s : SwarmInner κ) : Prop where
  sameKeys : SameKeys s
  closed : Closed s

theorem RegistryInv.init {s : SwarmInner κ} (h : (swarm c).init s) : RegistryInv s := by
  obtain ⟨pingCheckOpt, handlers, rfl⟩ := h
  exact ⟨fun _ => iff_of_false (AList.notMem_empty _) (AList.notMem_empty _), fun _ => rfl⟩

/-- What is promised of a turn that is taken. -/
theorem disconnectSound_iff {s s' : SwarmInner κ} {a : SwarmAct φ} (hs : s.step c a = some s') :
    DisconnectSound c s a ↔ SameKeys s' ∧ ∀ upgraded peer_id origin rest, a = .next upgraded →
      s.commands = .disconnect peer_id origin :: rest → Removed s s' peer_id := by
  constructor
  · exact fun h => h s' hs
  · intro h s₁ hs₁
    obtain rfl := Option.some.inj (hs.symm.trans hs₁)
    exact h

/-- Only a `Disconnect` has more to do than to keep the keys. -/
theorem disconnectSound_iff_sameKeys {s s' : SwarmInner κ} {a : SwarmAct φ}
    (hs : s.step c a = some s') (hother : ∀ upgraded peer_id origin rest, a = .next upgraded →
      s.commands ≠ .disconnect peer_id origin :: rest) :
    DisconnectSound c s a ↔ SameKeys s' := by
  rw [disconnectSound_iff c hs]
  constructor
  · exact fun h => h.1
  · intro h
    exact ⟨h, fun upgraded peer_id origin rest ha he =>
      absurd he (hother upgraded peer_id origin rest ha)⟩

/-- The loop accepts a connection. -/
theorem accept_sound_iff {s s' : SwarmInner κ} {upgraded : Option PeerInfo} (hI : RegistryInv s)
    (hs : s.step c (.accept upgraded : SwarmAct φ) = some s') :
    DisconnectSound c s (.accept upgraded : SwarmAct φ) ↔
      s.orderly (.accept upgraded : SwarmAct φ) = true := by
  rw [disconnectSound_iff_sameKeys c hs (by simp)]
  unfold SwarmInner.step at hs
  dsimp only at hs
  split at hs
  · obtain rfl := Option.some.inj hs
    unfold SwarmInner.orderly
    cases upgraded with
    | none => exact sameKeys_abort s
    | some remote_peer => exact iff_of_true (hI.sameKeys.connHandler remote_peer) rfl
  · simp at hs

/-- The loop handles a command. -/
theorem command_sound_iff {s : SwarmInner κ} {upgraded : Option PeerInfo} {command : Command}
    {rest : List Command} (hI : RegistryInv s) (hc : s.commands = command :: rest) :
    DisconnectSound c s (.next upgraded : SwarmAct φ) ↔
      (s.completes upgraded command || s.breaksOffEmpty upgraded command) = true := by
  have hkeys : SameKeys ({ s with commands := rest } : SwarmInner κ) := hI.sameKeys
  have hstep : s.step c (.next upgraded : SwarmAct φ) =
      some (({ s with commands := rest } : SwarmInner κ).handleCommand c upgraded command) := by
    simp only [SwarmInner.step, hc]
  cases command with
  | connect maddr =>
    rw [disconnectSound_iff_sameKeys c hstep (by simp [hc])]
    exact connect_sameKeys hkeys maddr upgraded
  | newStream maddr protocols =>
    rw [disconnectSound_iff_sameKeys c hstep (by simp [hc])]
    exact newStream_sameKeys c hkeys maddr protocols upgraded
  | disconnect peer_id origin =>
    have hremoved := onDisconnect_removed c (s := { s with commands := rest })
      (hI.closed.alive hc) peer_id origin upgraded
    have hnever : s.breaksOffEmpty upgraded (.disconnect peer_id origin) = false := rfl
    rw [hnever, Bool.or_false, disconnectSound_iff c hstep]
    refine Iff.trans ⟨fun h => ?_, fun h => ?_⟩ hremoved
    · have := h.2 upgraded peer_id origin rest rfl hc
      exact ⟨this.alive, this.forgotten, this.unregistered, this.others⟩
    · refine ⟨h.sameKeys hkeys, fun _ p _ _ _ he => ?_⟩
      rw [hc] at he
      obtain ⟨hp, -⟩ := Command.disconnect.inj (List.cons.inj he).1
      subst hp
      exact ⟨h.alive, h.forgotten, h.unregistered, h.others⟩

/-- **One turn** keeps what is promised exactly if it is orderly. -/
theorem disconnectSound_iff_orderly {s s' : SwarmInner κ} {a : SwarmAct φ} (hI : RegistryInv s)
    (hs : s.step c a = some s') : DisconnectSound c s a ↔ s.orderly a = true := by
  by_cases ha : a.ofLoop = false
  · obtain ⟨hconnections, hstore, -, -⟩ := step_elsewhere c ha hs
    have hother : ∀ upgraded, a ≠ .next upgraded := by
      intro upgraded h
      subst h
      simp [SwarmAct.ofLoop] at ha
    rw [disconnectSound_iff_sameKeys c hs fun upgraded _ _ _ he => absurd he (hother upgraded)]
    refine iff_of_true (hI.sameKeys.of_eq hconnections hstore) ?_
    cases a with
    | accept | next => simp [SwarmAct.ofLoop] at ha
    | _ => rfl
  · cases a with
    | accept upgraded => exact accept_sound_iff c hI hs
    | next upgraded =>
      cases hc : s.commands with
      | nil => simp [SwarmInner.step, hc] at hs
      | cons command rest =>
        have horderly : s.orderly (.next upgraded : SwarmAct φ) =
            (s.completes upgraded command || s.breaksOffEmpty upgraded command) := by
          unfold SwarmInner.orderly
          dsimp only
          rw [hc]
          rfl
        rw [horderly]
        exact command_sound_iff c hI hc
    | _ => simp [SwarmAct.ofLoop] at ha

/-- A turn that keeps what is promised keeps the invariant. -/
theorem RegistryInv.step {s s' : SwarmInner κ} {a : SwarmAct φ} (hI : RegistryInv s)
    (hsound : DisconnectSound c s a) (hs : s.step c a = some s') : RegistryInv s' :=
  ⟨(hsound s' hs).1, hI.closed.step c hs⟩

/-- **Disconnecting.** For every swarm and every sequence of turns: every `Disconnect` does its
work, and the keys of both maps are the same after every operation, if and only if every turn is
orderly. With a bounded queue a `Disconnect` may also wait. -/
theorem disconnects_sound_iff (pingCheckOpt : Bool) (handlers : List String)
    (as : List (SwarmAct φ)) :
    (swarm c).Guarded (DisconnectSound c) { pingCheckOpt, handlers } as ↔
      (swarm c).Guarded (fun s a => s.orderly a = true) { pingCheckOpt, handlers } as := by
  have hinit : RegistryInv ({ pingCheckOpt, handlers } : SwarmInner κ) :=
    RegistryInv.init c ⟨pingCheckOpt, handlers, rfl⟩
  constructor
  · refine guarded_of_invariant RegistryInv (fun s a s' hI h hs => ?_) as _ hinit
    exact ⟨hI.step c h hs, (disconnectSound_iff_orderly c hI hs).mp h⟩
  · refine guarded_of_invariant RegistryInv (fun s a s' hI h hs => ?_) as _ hinit
    have hsound := (disconnectSound_iff_orderly c hI hs).mpr h
    exact ⟨hI.step c hsound hs, hsound⟩

/-- A connection ends, and the application asks for its end as well. -/
def disconnectsTwice : List (SwarmAct (List UInt8)) :=
  [.accept (some tcpPeer), .rawError 0, .request (.disconnect "b" none), .next none]

theorem disconnectsTwice_enabled :
    ((swarm (bytesCodec leb128)).exec (fun _ _ => True) freshSwarm disconnectsTwice).any
      (fun s => s.commands = [.disconnect "b" none] ∧
        ((s.step (bytesCodec leb128) (.next none)).any fun s' => s'.alive = false)) = true := by
  decide +kernel

/-- **The second `Disconnect`** does not find the peer, and the loop panics. -/
theorem second_disconnect_panics :
    ∃ s s', (swarm (bytesCodec leb128)).Run disconnectsTwice s ∧
      s.commands = [.disconnect "b" none] ∧
      s.step (bytesCodec leb128) (.next none) = some s' ∧ s'.alive = false ∧
      ¬ DisconnectSound (bytesCodec leb128) s (.next none) := by
  obtain ⟨s, hs, hnext⟩ := (Option.any_eq_true ..).mp disconnectsTwice_enabled
  obtain ⟨hcommands, hnext⟩ := of_decide_eq_true hnext
  obtain ⟨s', hs', hdead⟩ := (Option.any_eq_true ..).mp hnext
  have hdead : s'.alive = false := of_decide_eq_true hdead
  refine ⟨s, s', runUnder_of_exec ⟨true, [], rfl⟩ hs, hcommands, hs', hdead, fun h => ?_⟩
  have halive := ((h s' hs').2 none "b" none [] rfl hcommands).alive
  rw [hdead] at halive
  simp at halive

end Rnet.Swarm
