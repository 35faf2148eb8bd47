import Rnet.Identity.Address
import Rnet.Floodsub.Registry
import Rnet.Swarm.PeerStore

/-!
# The mesh of a node: `node/src/node.rs`

A node has two views of who is there. The swarm keeps `peer_store`, from which `on_disconnect`
takes a peer at once; floodsub keeps `peer_topics`, from which a peer goes when the `DeadPeers` of
its stream is handled. Nothing but the peer id of a stream links the two. `floodsub_mesh` copies the
whole of the second and looks each peer up in the first; `get_addr` panics on a peer that is not
there.

> `peers_resolved_iff`: a run keeps every listed peer in the peer store, and has every call of
> `floodsub_mesh` return each topic of `peer_topics` with all its peers (`InFull`), exactly if a
> `Disconnect` is only handled for peers that no topic lists and no call has still to look up, and
> a stream only subscribes peers that are in the peer store.

An application that disconnects from a peer over TCP breaks the condition: the connection and the
floodsub stream stay, and the peer stays listed (`listed_after_disconnect`).
-/

namespace Rnet.Node

open Rnet.Identity Rnet.Mplex Rnet.Lib
open Rnet.Floodsub (FloodSub Registry RegistryAct)
open Rnet.Swarm (SwarmInner SwarmAct StoreTurn Stored step_store)
open Rnet.Lib.System (avoids_iff_guarded runUnder_of_exec)

/-- `FLOODSUB`. -/
def FLOODSUB : Payload := ⟨ascii "rnet/floodsub/0.0.1", by decide⟩

/-- Topics with their peers, or with the addresses of these. -/
abbrev Mesh := List (String × List String)

/-- A call of `floodsub_mesh` on its way through the two loops. -/
structure MeshCall where
  /-- `peer_topics` when `get_floodsub_mesh` copied it -/
  peerTopics : String → Option (List String)
  /-- what the loops have still to go through -/
  rest : Mesh
  peerAddrs : List String := []
  mappedMesh : Mesh := []

/-- A node with floodsub. -/
structure MeshNode (κ : Type) where
  swarm : SwarmInner κ
  floodsub : Registry
  /-- the keys of `peer_topics` -/
  topics : List String := []
  /-- the streams whose task has called `stream_handler` of floodsub, with their connections -/
  handled : List (Nat × Nat) := []
  /-- the call of `floodsub_mesh` that holds the lock on `floodsub` -/
  call : Option MeshCall := none
  /-- the `peer_topics` that the calls have copied, and what they have returned; `none` is a
  panic -/
  answers : List ((String → Option (List String)) × Option Mesh) := []

/-- One turn of one task of the node. -/
inductive MeshAct (φ : Type)
  /-- a task of the swarm -/
  | swarm (a : SwarmAct φ)
  /-- stream task `h` of connection `i` calls `stream_handler` of floodsub -/
  | streamHandler (i h : Nat)
  /-- a task of floodsub -/
  | floodsub (a : RegistryAct)
  /-- `floodsub_mesh` is called, and copies `peer_topics`, whose keys come in this order -/
  | floodsubMesh (topics : List String)
  /-- the call goes on with the next peer, or with the end of a topic or of the loops -/
  | meshNext

/-- The keys of `peer_topics`, when they are among these topics. -/
def keysAmong (fs : FloodSub) (topics : List String) : List String :=
  topics.dedup.filter fun topic => (fs.peerTopics topic).isSome

/-- `get_floodsub_mesh`, when the keys come in this order. -/
def getFloodsubMesh (fs : FloodSub) (topics : List String) : Mesh :=
  topics.map fun topic => (topic, (fs.peerTopics topic).getD [])

namespace MeshNode

variable {κ φ : Type} (c : Codec κ φ)

/-- `get_addr`; the addresses in the peer store parse. -/
def getAddr (s : MeshNode κ) (peer_id : String) : Option Multiaddr :=
  (s.swarm.peerStore.lookup peer_id).map PeerInfo.listenAddr

/-- A turn of the two loops of `floodsub_mesh`. -/
def meshNext (s : MeshNode κ) (call : MeshCall) : MeshNode κ :=
  match call.rest with
  | [] => { s with call := none, answers := s.answers ++ [(call.peerTopics, some call.mappedMesh)] }
  | (topic, []) :: rest =>
    let mapped_mesh := call.mappedMesh ++ [(topic, call.peerAddrs)]
    { s with call := some ⟨call.peerTopics, rest, [], mapped_mesh⟩ }
  | (topic, peer :: peers) :: rest =>
    match s.getAddr peer with
    | none => { s with call := none, answers := s.answers ++ [(call.peerTopics, none)] }
    | some addr =>
      let peer_addrs := call.peerAddrs ++ [addr.toString]
      { s with
        call := some ⟨call.peerTopics, (topic, peers) :: rest, peer_addrs, call.mappedMesh⟩ }

/-- The peer that `stream_handler` of floodsub is called for, by a stream that has negotiated
`FLOODSUB`: the remote peer of its connection. -/
def streamPeer (s : MeshNode κ) (i h : Nat) : Option String := do
  let t ← s.swarm.tasks[i]?
  let stream ← t.conn.tasks[h]?
  if stream.phase = .handling ∧ stream.sent.head? = some FLOODSUB ∧ (i, h) ∉ s.handled then
    some t.remotePeer.peerId
  else none

/-- One turn of one task. -/
def step (s : MeshNode κ) : MeshAct φ → Option (MeshNode κ)
  | .swarm a => (s.swarm.step c a).map fun swarm => { s with swarm }
  | .streamHandler i h => do
    let peer_id ← s.streamPeer i h
    let floodsub ← s.floodsub.step (.newPeer peer_id)
    some { s with floodsub, handled := s.handled ++ [(i, h)] }
  | .floodsub (.newPeer _) => none
  | .floodsub a => (s.floodsub.step a).map fun floodsub => { s with
      floodsub
      topics := keysAmong floodsub.fs (s.topics ++ Registry.topicsOf a) }
  | .floodsubMesh topics =>
    if s.call.isNone ∧ topics.Perm s.topics then
      some { s with call := some {
        peerTopics := s.floodsub.fs.peerTopics
        rest := getFloodsubMesh s.floodsub.fs topics } }
    else none
  | .meshNext => s.call.map s.meshNext

/-- The call has still to look the peer up. -/
def Pending (s : MeshNode κ) (peer : String) : Prop :=
  ∃ call, s.call = some call ∧ ∃ e ∈ call.rest, peer ∈ e.2

end MeshNode

/-- The address is one that the peer has told on a connection. -/
def AddressOf (remotes : List PeerInfo) (peer addr : String) : Prop :=
  ∃ info ∈ remotes, info.peerId = peer ∧ addr = info.listenAddr.toString

/-- The mesh has each topic of the other one with all its peers, every peer by an address of its
own. -/
def Mapped (remotes : List PeerInfo) (mesh mapped : Mesh) : Prop :=
  List.Forall₂ (fun e e' => e'.1 = e.1 ∧ List.Forall₂ (AddressOf remotes) e.2 e'.2) mesh mapped

/-- The mesh is a copy of `peer_topics`: every key once, with all its peers. -/
structure Copies (peerTopics : String → Option (List String)) (mesh : Mesh) : Prop where
  once : (mesh.map Prod.fst).Nodup
  entries : ∀ topic peers, (topic, peers) ∈ mesh ↔ peerTopics topic = some peers

/-- **Each topic with all its peers**: every key of `peer_topics` once, with an address of each of
its peers. -/
def InFull (remotes : List PeerInfo) (peerTopics : String → Option (List String))
    (mapped : Mesh) : Prop :=
  ∃ mesh, Copies peerTopics mesh ∧ Mapped remotes mesh mapped

/-- Every peer that floodsub lists has an entry in the peer store, and so has every peer that a
call of `floodsub_mesh` is about to look up; the calls have returned each topic of the
`peer_topics` they copied with all its peers. -/
structure MeshNode.Resolves {κ : Type} (s : MeshNode κ) : Prop where
  listed : ∀ topic peer, s.floodsub.fs.Lists topic peer → peer ∈ s.swarm.peerStore
  pending : ∀ peer, s.Pending peer → peer ∈ s.swarm.peerStore
  answered : ∀ e ∈ s.answers, ∃ mapped, e.2 = some mapped ∧ InFull s.swarm.remotes e.1 mapped

/-- A node from its start on. -/
def meshNode {κ φ : Type} (c : Codec κ φ) : System (MeshNode κ) (MeshAct φ) where
  init s := ∃ pingCheckOpt handlers localPeerId,
    s = { swarm := { pingCheckOpt, handlers }, floodsub := { fs := { localPeerId } } }
  step := MeshNode.step c

namespace MeshNode

variable {κ φ : Type} (c : Codec κ φ)

/-- The peer whose `Disconnect` the swarm handles in this turn. -/
def forgetting (s : MeshNode κ) : MeshAct φ → Option String
  | .swarm a => s.swarm.forgetting a
  | _ => none

/-- The peer that a floodsub stream subscribes in this turn. -/
def subscribing (s : MeshNode κ) : MeshAct φ → Option String
  | .floodsub a => s.floodsub.subscribing a
  | _ => none

/-- A `Disconnect` is handled for a peer that no topic lists and no call has still to look up; a
floodsub stream subscribes a peer that is in the peer store. -/
structure KeepsEntries (s : MeshNode κ) (a : MeshAct φ) : Prop where
  unlisted : ∀ peer, s.forgetting a = some peer → ∀ topic, ¬ s.floodsub.fs.Lists topic peer
  unasked : ∀ peer, s.forgetting a = some peer → ¬ s.Pending peer
  stored : ∀ peer, s.subscribing a = some peer → peer ∈ s.swarm.peerStore

end MeshNode

variable {κ φ : Type} (c : Codec κ φ)

/-! ## What the calls return -/

theorem AddressOf.mono {remotes remotes' : List PeerInfo}
    (h : ∀ info ∈ remotes, info ∈ remotes') {peer addr : String} :
    AddressOf remotes peer addr → AddressOf remotes' peer addr := by
  intro h
  obtain ⟨info, hmem, hpeer, haddr⟩ := h
  exact ⟨info, h info hmem, hpeer, haddr⟩

theorem Mapped.mono {remotes remotes' : List PeerInfo} (h : ∀ info ∈ remotes, info ∈ remotes')
    {mesh mapped : Mesh} (hm : Mapped remotes mesh mapped) : Mapped remotes' mesh mapped := by
  refine hm.imp fun e e' ⟨htopic, haddrs⟩ => ⟨htopic, haddrs.imp ?_⟩
  exact fun _ _ ha => ha.mono h

theorem InFull.mono {remotes remotes' : List PeerInfo} (h : ∀ info ∈ remotes, info ∈ remotes')
    {peerTopics : String → Option (List String)} {mapped : Mesh}
    (hm : InFull remotes peerTopics mapped) : InFull remotes' peerTopics mapped := by
  obtain ⟨mesh, hcopy, hmapped⟩ := hm
  exact ⟨mesh, hcopy, hmapped.mono h⟩

/-- What `get_floodsub_mesh` returns is a copy of `peer_topics`. -/
theorem getFloodsubMesh_copies {fs : FloodSub} {topics : List String} (hnodup : topics.Nodup)
    (hkeys : ∀ topic, topic ∈ topics ↔ (fs.peerTopics topic).isSome) :
    Copies fs.peerTopics (getFloodsubMesh fs topics) where
  once := by
    have hfst : (getFloodsubMesh fs topics).map Prod.fst = topics := by
      rw [getFloodsubMesh, List.map_map]
      exact List.map_id topics
    rwa [hfst]
  entries topic peers := by
    constructor
    · intro h
      obtain ⟨t, ht, he⟩ := List.mem_map.mp h
      obtain ⟨rfl, rfl⟩ := Prod.mk.inj he
      obtain ⟨listed, hl⟩ := Option.isSome_iff_exists.mp ((hkeys t).mp ht)
      rw [hl, Option.getD_some]
    · intro h
      refine List.mem_map.mpr ⟨topic, (hkeys topic).mpr (by rw [h]; rfl), ?_⟩
      rw [h, Option.getD_some]

/-- How far a call is through its copy: the topics it is done with, and the peers of the next
one. -/
def MeshCall.Through (remotes : List PeerInfo) (mesh : Mesh) (call : MeshCall) : Prop :=
  match call.rest with
  | [] => Mapped remotes mesh call.mappedMesh
  | (topic, peers) :: rest => ∃ done seen, mesh = done ++ (topic, seen ++ peers) :: rest ∧
      Mapped remotes done call.mappedMesh ∧ List.Forall₂ (AddressOf remotes) seen call.peerAddrs

/-- What a call has done so far, of a copy of `peer_topics`. -/
def MeshCall.Sound (remotes : List PeerInfo) (call : MeshCall) : Prop :=
  ∃ mesh, Copies call.peerTopics mesh ∧ call.Through remotes mesh

/-- A call between two topics. -/
theorem MeshCall.through_between {remotes : List PeerInfo} {done mapped : Mesh}
    (h : Mapped remotes done mapped) (peerTopics : String → Option (List String)) (rest : Mesh) :
    MeshCall.Through remotes (done ++ rest) ⟨peerTopics, rest, [], mapped⟩ := by
  cases rest with
  | nil =>
    show Mapped remotes (done ++ []) mapped
    rwa [List.append_nil]
  | cons e rest => exact ⟨done, [], rfl, h, .nil⟩

theorem MeshCall.Sound.mono {remotes remotes' : List PeerInfo}
    (h : ∀ info ∈ remotes, info ∈ remotes') {call : MeshCall} (hc : call.Sound remotes) :
    call.Sound remotes' := by
  obtain ⟨mesh, hcopy, hc⟩ := hc
  refine ⟨mesh, hcopy, ?_⟩
  unfold MeshCall.Through at hc ⊢
  split at hc
  · exact hc.mono h
  · obtain ⟨done, seen, hmesh, hmapped, haddrs⟩ := hc
    exact ⟨done, seen, hmesh, hmapped.mono h, haddrs.imp fun _ _ ha => ha.mono h⟩

/-- What every run keeps. -/
structure MeshInv (s : MeshNode κ) : Prop where
  stored : Stored s.swarm
  nodup : s.topics.Nodup
  keys : ∀ topic, topic ∈ s.topics ↔ (s.floodsub.fs.peerTopics topic).isSome
  call : ∀ call, s.call = some call → call.Sound s.swarm.remotes
  answers : ∀ peerTopics mapped, (peerTopics, some mapped) ∈ s.answers →
    InFull s.swarm.remotes peerTopics mapped

/-- A turn of a call: it ends with every peer mapped, it goes on with a part of what was left, or
it panics over a peer that is not in the peer store. -/
inductive MeshTurn (s : MeshNode κ) (call : MeshCall) : MeshNode κ → Prop
  | returns (mapped : Mesh) (sound : InFull s.swarm.remotes call.peerTopics mapped) :
      MeshTurn s call
        { s with call := none, answers := s.answers ++ [(call.peerTopics, some mapped)] }
  | goes (call' : MeshCall) (sound : call'.Sound s.swarm.remotes)
      (rest : ∀ e' ∈ call'.rest, ∃ e ∈ call.rest, ∀ peer ∈ e'.2, peer ∈ e.2) :
      MeshTurn s call { s with call := some call' }
  | panics (peer : String) (pending : ∃ e ∈ call.rest, peer ∈ e.2)
      (missing : peer ∉ s.swarm.peerStore) :
      MeshTurn s call
        { s with call := none, answers := s.answers ++ [(call.peerTopics, none)] }

/-- Every turn of a call is one of the three. -/
theorem meshNext_turn {s : MeshNode κ} (h : MeshInv s) {call : MeshCall}
    (hcall : s.call = some call) : MeshTurn s call (s.meshNext call) := by
  obtain ⟨mesh, hcopy, hthrough⟩ := h.call call hcall
  obtain ⟨peerTopics, rest, peer_addrs, mapped_mesh⟩ := call
  rcases rest with _ | ⟨⟨topic, _ | ⟨peer, peers⟩⟩, rest⟩
  · exact .returns mapped_mesh ⟨mesh, hcopy, hthrough⟩
  · obtain ⟨done, seen, hmesh, hmapped, haddrs⟩ := hthrough
    rw [List.append_nil] at hmesh
    -- the topic joins those the call is through with
    have hdone : Mapped s.swarm.remotes (done ++ [(topic, seen)])
        (mapped_mesh ++ [(topic, peer_addrs)]) :=
      List.rel_append hmapped (.cons ⟨rfl, haddrs⟩ .nil)
    have hnext := MeshCall.through_between hdone peerTopics rest
    rw [List.append_assoc, List.singleton_append, ← hmesh] at hnext
    exact .goes _ ⟨mesh, hcopy, hnext⟩ fun e' he' =>
      ⟨e', List.mem_cons_of_mem _ he', fun _ hp => hp⟩
  · obtain ⟨done, seen, hmesh, hmapped, haddrs⟩ := hthrough
    cases hl : s.swarm.peerStore.lookup peer with
    | none =>
      have hturn :
          s.meshNext ⟨peerTopics, (topic, peer :: peers) :: rest, peer_addrs, mapped_mesh⟩ =
            { s with call := none, answers := s.answers ++ [(peerTopics, none)] } := by
        simp only [MeshNode.meshNext, MeshNode.getAddr]
        rw [hl]
        rfl
      rw [hturn]
      exact .panics peer ⟨_, List.mem_cons_self .., List.mem_cons_self ..⟩
        (AList.lookup_eq_none.mp hl)
    | some info =>
      obtain ⟨hid, hmem⟩ := h.stored peer info hl
      have hturn :
          s.meshNext ⟨peerTopics, (topic, peer :: peers) :: rest, peer_addrs, mapped_mesh⟩ =
            { s with call := some ⟨peerTopics, (topic, peers) :: rest,
                peer_addrs ++ [info.listenAddr.toString], mapped_mesh⟩ } := by
        simp only [MeshNode.meshNext, MeshNode.getAddr]
        rw [hl]
        rfl
      rw [hturn]
      refine .goes _ ⟨mesh, hcopy, done, seen ++ [peer], ?_, hmapped, ?_⟩ ?_
      · rw [List.append_assoc]
        exact hmesh
      · exact List.rel_append haddrs (.cons ⟨info, hmem, hid, rfl⟩ .nil)
      · intro e' he'
        rcases List.mem_cons.mp he' with rfl | he'
        · exact ⟨_, List.mem_cons_self .., fun p hp => List.mem_cons_of_mem _ hp⟩
        · exact ⟨e', List.mem_cons_of_mem _ he', fun p hp => hp⟩

/-! ## What one turn does to the two views -/

/-- A turn of the swarm keeps it. -/
theorem MeshInv.swarm_turn {s : MeshNode κ} (h : MeshInv s) {swarm : SwarmInner κ} {a : SwarmAct φ}
    (hs : StoreTurn s.swarm swarm a) : MeshInv { s with swarm } where
  stored := h.stored.step hs
  nodup := h.nodup
  keys := h.keys
  call call hcall := (h.call call hcall).mono hs.remotes_subset
  answers peerTopics mapped hmem := (h.answers peerTopics mapped hmem).mono hs.remotes_subset

/-- A turn of a task of floodsub. -/
theorem step_floodsub {s s' : MeshNode κ} {a : RegistryAct}
    (hs : s.step c (.floodsub a) = some s') :
    ∃ floodsub, s.floodsub.step a = some floodsub ∧ s' = { s with
      floodsub
      topics := keysAmong floodsub.fs (s.topics ++ Registry.topicsOf a) } := by
  have hmap : (s.floodsub.step a).map (fun floodsub => { s with
      floodsub
      topics := keysAmong floodsub.fs (s.topics ++ Registry.topicsOf a) }) = some s' := by
    cases a with
    | newPeer => simp [MeshNode.step] at hs
    | _ => exact hs
  obtain ⟨floodsub, hstep, rfl⟩ := Option.map_eq_some_iff.mp hmap
  exact ⟨floodsub, hstep, rfl⟩

/-- Every turn keeps it. -/
theorem MeshInv.step {s s' : MeshNode κ} {a : MeshAct φ} (h : MeshInv s)
    (hs : s.step c a = some s') : MeshInv s' := by
  cases a with
  | swarm a =>
    obtain ⟨swarm, hstep, rfl⟩ := Option.map_eq_some_iff.mp hs
    exact h.swarm_turn (step_store c hstep)
  | streamHandler i j =>
    obtain ⟨peer_id, -, hs⟩ := Option.bind_eq_some_iff.mp hs
    obtain ⟨floodsub, hnew, hs⟩ := Option.bind_eq_some_iff.mp hs
    obtain rfl := Option.some.inj hs
    obtain rfl := Option.some.inj hnew
    exact ⟨h.stored, h.nodup, h.keys, h.call, h.answers⟩
  | floodsub a =>
    obtain ⟨floodsub, hstep, rfl⟩ := step_floodsub c hs
    refine ⟨h.stored, (List.nodup_dedup _).filter _, fun topic => ?_, h.call, h.answers⟩
    rw [keysAmong, List.mem_filter, List.mem_dedup, List.mem_append, h.keys]
    exact and_iff_right_of_imp (Registry.step_topics hstep)
  | floodsubMesh topics =>
    obtain ⟨⟨-, hperm⟩, hs⟩ := Option.ite_none_right_eq_some.mp hs
    obtain rfl := Option.some.inj hs
    refine ⟨h.stored, h.nodup, h.keys, fun call hcall => ?_, h.answers⟩
    obtain rfl := Option.some.inj hcall
    have hcopy := getFloodsubMesh_copies (hperm.nodup_iff.mpr h.nodup) fun topic =>
      hperm.mem_iff.trans (h.keys topic)
    have hnone : Mapped s.swarm.remotes [] [] := .nil
    exact ⟨_, hcopy, MeshCall.through_between hnone _ _⟩
  | meshNext =>
    obtain ⟨call, hcall, hnext⟩ := Option.map_eq_some_iff.mp hs
    have hturn := meshNext_turn h hcall
    rw [hnext] at hturn
    cases hturn with
    | returns mapped hsound =>
      refine ⟨h.stored, h.nodup, h.keys, fun _ hc => absurd hc (by simp),
        fun peerTopics mapped' hmem => ?_⟩
      rcases List.mem_append.mp hmem with hmem | hmem
      · exact h.answers peerTopics mapped' hmem
      · obtain ⟨rfl, he⟩ := Prod.mk.inj (List.mem_singleton.mp hmem)
        obtain rfl := Option.some.inj he
        exact hsound
    | goes call' hsound hrest =>
      refine ⟨h.stored, h.nodup, h.keys, fun call hc => ?_, h.answers⟩
      obtain rfl := Option.some.inj hc
      exact hsound
    | panics peer hp hmissing =>
      refine ⟨h.stored, h.nodup, h.keys, fun _ hc => absurd hc (by simp),
        fun peerTopics mapped' hmem => ?_⟩
      rcases List.mem_append.mp hmem with hmem | hmem
      · exact h.answers peerTopics mapped' hmem
      · obtain ⟨-, he⟩ := Prod.mk.inj (List.mem_singleton.mp hmem)
        exact absurd he (by simp)

/-- Where nothing is forgotten or subscribed, there is nothing to ask for. -/
theorem MeshNode.KeepsEntries.of_none {s : MeshNode κ} {a : MeshAct φ}
    (hforgetting : s.forgetting a = none) (hsubscribing : s.subscribing a = none) :
    s.KeepsEntries a where
  unlisted peer hp := absurd (hforgetting.symm.trans hp) (by simp)
  unasked peer hp := absurd (hforgetting.symm.trans hp) (by simp)
  stored peer hp := absurd (hsubscribing.symm.trans hp) (by simp)

/-- A turn of the swarm, from a state in which every peer is resolved. -/
theorem swarm_resolves_iff {s : MeshNode κ} (hgood : s.Resolves) {swarm : SwarmInner κ}
    {a : SwarmAct φ} (hs : StoreTurn s.swarm swarm a) :
    MeshNode.Resolves { s with swarm } ↔ s.KeepsEntries (.swarm a) := by
  have hanswered : ∀ e ∈ s.answers, ∃ mapped, e.2 = some mapped ∧
      InFull swarm.remotes e.1 mapped := by
    intro e he
    obtain ⟨mapped, hm, hfull⟩ := hgood.answered e he
    exact ⟨mapped, hm, hfull.mono hs.remotes_subset⟩
  cases hs with
  | keep hkept hstore hremotes =>
    refine ⟨fun _ => .of_none hkept rfl, fun _ => ⟨?_, ?_, hanswered⟩⟩
    · intro topic peer hl
      show peer ∈ swarm.peerStore
      rw [hstore]
      exact hgood.listed topic peer hl
    · intro peer hp
      show peer ∈ swarm.peerStore
      rw [hstore]
      exact hgood.pending peer hp
  | insert remote hkept hstore hremotes =>
    refine ⟨fun _ => .of_none hkept rfl, fun _ => ⟨?_, ?_, hanswered⟩⟩
    · intro topic peer hl
      show peer ∈ swarm.peerStore
      rw [hstore, AList.mem_insert]
      exact Or.inr (hgood.listed topic peer hl)
    · intro peer hp
      show peer ∈ swarm.peerStore
      rw [hstore, AList.mem_insert]
      exact Or.inr (hgood.pending peer hp)
  | erase forgotten hforgotten hstore hremotes =>
    have hmem : ∀ peer, peer ∈ swarm.peerStore ↔ peer ≠ forgotten ∧ peer ∈ s.swarm.peerStore := by
      intro peer
      rw [hstore]
      exact AList.mem_erase
    constructor
    · intro h
      refine ⟨fun peer hp topic hl => ?_, fun peer hp hpending => ?_,
        fun _ hp => absurd hp (by simp [MeshNode.subscribing])⟩
      · obtain rfl := Option.some.inj (hforgotten.symm.trans hp)
        exact ((hmem _).mp (h.listed topic _ hl)).1 rfl
      · obtain rfl := Option.some.inj (hforgotten.symm.trans hp)
        exact ((hmem _).mp (h.pending _ hpending)).1 rfl
    · intro h
      refine ⟨fun topic peer hl => (hmem peer).mpr ⟨?_, hgood.listed topic peer hl⟩,
        fun peer hp => (hmem peer).mpr ⟨?_, hgood.pending peer hp⟩, hanswered⟩
      · intro h
        subst h
        exact h.unlisted peer hforgotten topic hl
      · intro h
        subst h
        exact h.unasked peer hforgotten hp

/-- A turn of floodsub. -/
theorem floodsub_resolves_iff {s : MeshNode κ} (hgood : s.Resolves) {floodsub : Registry}
    {a : RegistryAct} (hs : s.floodsub.step a = some floodsub) (topics : List String) :
    MeshNode.Resolves { s with floodsub, topics } ↔ s.KeepsEntries (.floodsub a : MeshAct φ) := by
  obtain ⟨hlists, hsubscribed⟩ := Registry.step_lists hs
  constructor
  · intro h
    refine ⟨fun _ hp => absurd hp (by simp [MeshNode.forgetting]),
      fun _ hp => absurd hp (by simp [MeshNode.forgetting]), fun peer hp => ?_⟩
    obtain ⟨topic, hl⟩ := hsubscribed peer hp
    exact h.listed topic peer hl
  · intro h
    refine ⟨fun topic peer hl => ?_, hgood.pending, hgood.answered⟩
    rcases hlists topic peer hl with hl | hp
    · exact hgood.listed topic peer hl
    · exact h.stored peer hp

/-- What a call copies is listed. -/
theorem mem_getFloodsubMesh {fs : FloodSub} {topics : List String} {e : String × List String}
    (h : e ∈ getFloodsubMesh fs topics) {peer : String} (hp : peer ∈ e.2) :
    ∃ topic, fs.Lists topic peer := by
  obtain ⟨topic, -, rfl⟩ := List.mem_map.mp h
  cases ht : fs.peerTopics topic with
  | none =>
    dsimp only at hp
    rw [ht] at hp
    exact absurd hp List.not_mem_nil
  | some peers =>
    dsimp only at hp
    rw [ht] at hp
    exact ⟨topic, peers, ht, hp⟩

/-- **One turn** from a state in which every peer is resolved leads to such a state again exactly
if it keeps the entries. -/
theorem step_resolves_iff {s s' : MeshNode κ} {a : MeshAct φ} (h : MeshInv s) (hgood : s.Resolves)
    (hs : s.step c a = some s') : s'.Resolves ↔ s.KeepsEntries a := by
  cases a with
  | swarm a =>
    obtain ⟨swarm, hstep, rfl⟩ := Option.map_eq_some_iff.mp hs
    exact swarm_resolves_iff hgood (step_store c hstep)
  | streamHandler i j =>
    obtain ⟨peer_id, -, hs⟩ := Option.bind_eq_some_iff.mp hs
    obtain ⟨floodsub, hstep, hs⟩ := Option.bind_eq_some_iff.mp hs
    obtain rfl := Option.some.inj hs
    -- the stream's peer comes into `peers`, and on no list
    refine ⟨fun _ => .of_none rfl rfl,
      fun _ => ⟨fun topic peer hl => ?_, hgood.pending, hgood.answered⟩⟩
    rcases (Registry.step_lists hstep).1 topic peer hl with hl | hp
    · exact hgood.listed topic peer hl
    · exact absurd hp (by simp [Registry.subscribing])
  | floodsub a =>
    obtain ⟨floodsub, hstep, rfl⟩ := step_floodsub c hs
    exact floodsub_resolves_iff hgood hstep _
  | floodsubMesh topics =>
    obtain ⟨-, hs⟩ := Option.ite_none_right_eq_some.mp hs
    obtain rfl := Option.some.inj hs
    refine ⟨fun _ => .of_none rfl rfl, fun _ => ⟨hgood.listed, fun peer hp => ?_, hgood.answered⟩⟩
    obtain ⟨call, hcall, e, he, hpeer⟩ := hp
    obtain rfl := Option.some.inj hcall
    obtain ⟨topic, hl⟩ := mem_getFloodsubMesh he hpeer
    exact hgood.listed topic peer hl
  | meshNext =>
    refine ⟨fun _ => .of_none rfl rfl, fun _ => ?_⟩
    obtain ⟨call, hcall, hnext⟩ := Option.map_eq_some_iff.mp hs
    have hturn := meshNext_turn h hcall
    rw [hnext] at hturn
    cases hturn with
    | returns mapped hsound =>
      refine ⟨hgood.listed, fun _ ⟨_, hc, _⟩ => absurd hc (by simp), fun e he => ?_⟩
      rcases List.mem_append.mp he with he | he
      · exact hgood.answered e he
      · rw [List.mem_singleton.mp he]
        exact ⟨mapped, rfl, hsound⟩
    | goes call' hsound hrest =>
      refine ⟨hgood.listed, fun peer hp => ?_, hgood.answered⟩
      obtain ⟨call₁, hc, e', he', hpeer⟩ := hp
      obtain rfl := Option.some.inj hc
      obtain ⟨e, he, hsub⟩ := hrest e' he'
      exact hgood.pending peer ⟨call, hcall, e, he, hsub peer hpeer⟩
    | panics peer hp hmissing =>
      obtain ⟨e, he, hpeer⟩ := hp
      exact absurd (hgood.pending peer ⟨call, hcall, e, he, hpeer⟩) hmissing

/-! ## Every run -/

/-- **The two views agree**: a run keeps every peer that floodsub lists in the peer store, and has
every call of `floodsub_mesh` return each topic with all its peers, exactly if a `Disconnect` is
only handled for a peer that no topic lists and no call has still to look up, and a floodsub stream
only subscribes a peer that is in the peer store. -/
theorem peers_resolved_iff (pingCheckOpt : Bool) (handlers : List String) (localPeerId : String)
    (as : List (MeshAct φ)) :
    (meshNode c).Avoids (fun s => ¬ s.Resolves)
        { swarm := { pingCheckOpt, handlers }, floodsub := { fs := { localPeerId } } } as ↔
      (meshNode c).Guarded MeshNode.KeepsEntries
        { swarm := { pingCheckOpt, handlers }, floodsub := { fs := { localPeerId } } } as := by
  refine avoids_iff_guarded (I := MeshInv) (fun s a s' h hs => h.step c hs)
    (fun s a s' h hgood hs => not_congr (step_resolves_iff c h (not_not.mp hgood) hs)) as _ ?_ ?_
  · exact ⟨fun peer info hl => absurd hl (by simp), List.nodup_nil, fun topic => by simp,
      fun call hc => absurd hc (by simp),
      fun peerTopics mapped hmem => absurd hmem List.not_mem_nil⟩
  · refine not_not.mpr ⟨?_, ?_, fun e he => absurd he List.not_mem_nil⟩
    · intro topic peer h
      obtain ⟨peers, hp, -⟩ := h
      simp at hp
    · intro peer h
      obtain ⟨call, hc, -⟩ := h
      simp at hc

/-- A peer over TCP opens a floodsub stream and subscribes; then the application disconnects from
it, and asks for the mesh. -/
def disconnectsSubscribed : List (MeshAct (List UInt8)) :=
  [.swarm (.accept (some Swarm.tcpPeer)),
    .swarm (.recvRaw 0 (Frame.bytes leb128 ⟨1, .newStream, Payload.empty⟩)),
    .swarm (.recvRaw 0 (Frame.bytes leb128 ⟨1, .handshakeReq, FLOODSUB⟩)),
    .swarm (.stream 0 0 .negotiate), .streamHandler 0 0,
    .floodsub (.subopts 0 ⟨some true, some "news"⟩),
    .swarm (.request (.disconnect "b" none)), .swarm (.next none),
    .floodsubMesh ["news"], .meshNext]

theorem disconnectsSubscribed_enabled :
    (((meshNode (bytesCodec leb128)).exec (fun _ _ => True)
      { swarm := { pingCheckOpt := true, handlers := ["rnet/floodsub/0.0.1"] }
        floodsub := { fs := ⟨"a", fun _ => none, fun _ => none, ∅, ∅⟩ } }
      disconnectsSubscribed).any fun s =>
        s.floodsub.fs.peerTopics "news" = some ["b"] && decide ("b" ∉ s.swarm.peerStore) &&
          s.swarm.loops 0 && s.answers.map Prod.snd = [none]) = true := by
  decide +kernel

/-- **After the disconnect** the peer is listed and not in the peer store; its connection runs, and
the call panics. -/
theorem listed_after_disconnect :
    ∃ s, (meshNode (bytesCodec leb128)).Run disconnectsSubscribed s ∧
      s.floodsub.fs.Lists "news" "b" ∧ "b" ∉ s.swarm.peerStore ∧ s.swarm.loops 0 = true ∧
      s.answers.map Prod.snd = [none] ∧ ¬ s.Resolves := by
  obtain ⟨s, hs, hb⟩ := (Option.any_eq_true ..).mp disconnectsSubscribed_enabled
  simp only [Bool.and_eq_true, decide_eq_true_eq] at hb
  obtain ⟨⟨⟨htopic, hgone⟩, hloops⟩, hanswers⟩ := hb
  have hlists : s.floodsub.fs.Lists "news" "b" := ⟨["b"], htopic, List.mem_singleton_self _⟩
  exact ⟨s, runUnder_of_exec ⟨true, ["rnet/floodsub/0.0.1"], "a", rfl⟩ hs, hlists, hgone, hloops,
    hanswers, fun h => hgone (h.listed "news" "b" hlists)⟩

end Rnet.Node
