import Rnet.Swarm.Upgrade
import Rnet.Swarm.Registry

/-!
# Operations of the loop that cannot be carried out

`SwarmInner::initiate` runs the whole upgrade of a connection, `connect` and `new_stream` itself.
Some of their steps return an error and some unwrap one, but all of them are called with an
`unwrap` somewhere on the way up, so whatever cannot be carried out ends the loop. A remote end
that stays silent keeps the loop inside the upgrade.

> `runUpgrade_upgraded`: an upgrade ends well exactly if the remote end answers every operation
> with what it expects, and the stream fails in none.

> `survives_iff`: the loop goes on to the next event, with the maps as they were before whatever
> could not be carried out, exactly if every operation is carried out; but a `NewStream` for a
> protocol that is not known is refused as it should be when the peer is connected.
-/

namespace Rnet.Swarm

open Rnet.Identity Rnet.Mplex Rnet.Lib Rnet.Security
open Rnet.Lib.System (runUnder_of_exec guarded_of_invariant)

/-! ## The remote end of an upgrade -/

/-- What comes from the remote end and the stream during an upgrade: the results of the reads, with
`none` for an `Err`, and whether the writes succeed. A result that is missing never comes. -/
structure Remote where
  reads : List (Option (List UInt8))
  writes : List Bool
  deriving DecidableEq

/-- How an upgrade ends. -/
inductive Outcome
  | done (remote_peer : PeerInfo)
  /-- a step returned an error, or panicked -/
  | failed
  /-- the remote end owes an answer -/
  | waits
  deriving DecidableEq

def Outcome.upgraded : Outcome → Option PeerInfo
  | done remote_peer => some remote_peer
  | _ => none

/-- `conn_handler` of the swarm up to `update_peerstore`. -/
def runUpgrade (B : UpgradeFormats) (K : KeyAgreement) (e : Endpoint) :
    List UpgradeOp → Progress → Remote → Outcome
  | [], u, _ =>
    match u.remotePeer.bind SentPeerInfo.parse with
    | none => .failed
    | some remote_peer => .done remote_peer
  | .send _ :: ops, u, remote =>
    match remote.writes with
    | [] => .waits
    | false :: _ => .failed
    | true :: writes => runUpgrade B K e ops u { remote with writes }
  | .recv msg :: ops, u, remote =>
    match remote.reads with
    | [] => .waits
    | none :: _ => .failed
    | some bytes :: reads =>
      match e.receive B K u bytes msg with
      | none => .failed
      | some u' => runUpgrade B K e ops u' { remote with reads }

/-! ## A remote end that cooperates -/

section Formats

variable (B : UpgradeFormats)

/-- The bytes are what the operation expects. -/
def UpgradeMsg.accepts : UpgradeMsg → List UInt8 → Bool
  | .peerstoreUpdated, bytes => bytes = ascii "peerstore_updated"
  | .protocol name, bytes => B.name.deserialize bytes = some name
  | .publicKey, bytes => bytes.length = 32
  | .peerInfo, bytes => (B.peerInfo.deserialize bytes).any fun sent => sent.parse.isSome

/-- The messages that the operations read. -/
def expected (ops : List UpgradeOp) : List UpgradeMsg :=
  ops.filterMap fun
    | .recv msg => some msg
    | .send _ => none

/-- How many messages they write. -/
def sends (ops : List UpgradeOp) : Nat := ops.countP fun
  | .send _ => true
  | .recv _ => false

/-- The messages that the remote end has sent begin with the expected ones. -/
def sendsExpected : List UpgradeMsg → List (Option (List UInt8)) → Bool
  | [], _ => true
  | msg :: msgs, read :: reads => read.any (msg.accepts B) && sendsExpected msgs reads
  | _ :: _, [] => false

/-- The `PeerInfo` among the messages. -/
def sentPeerInfo : List UpgradeMsg → List (Option (List UInt8)) → Option PeerInfo
  | .peerInfo :: _, read :: _ => (read.bind B.peerInfo.deserialize).bind SentPeerInfo.parse
  | _ :: msgs, _ :: reads => sentPeerInfo msgs reads
  | _, _ => none

/-- The remote end sends what the operations expect, and the stream takes what they write. -/
def Remote.Cooperates (remote : Remote) (ops : List UpgradeOp) : Prop :=
  sendsExpected B (expected ops) remote.reads = true ∧
    remote.writes.take (sends ops) = List.replicate (sends ops) true

instance (remote : Remote) (ops : List UpgradeOp) : Decidable (remote.Cooperates B ops) :=
  inferInstanceAs (Decidable (_ ∧ _))

/-- The peer that a remote end which cooperates calls itself. -/
def Remote.peer (remote : Remote) (ops : List UpgradeOp) : Option PeerInfo :=
  if remote.Cooperates B ops then sentPeerInfo B (expected ops) remote.reads else none

end Formats

section Cooperates

variable {B : UpgradeFormats} {K : KeyAgreement} {e : Endpoint}

theorem cooperates_send {remote : Remote} {msg : UpgradeMsg} {ops : List UpgradeOp} :
    remote.Cooperates B (.send msg :: ops) ↔
      ∃ writes, remote.writes = true :: writes ∧
        Remote.Cooperates B { remote with writes } ops := by
  have hsends : sends (.send msg :: ops) = sends ops + 1 := List.countP_cons_of_pos rfl
  unfold Remote.Cooperates
  rw [hsends, List.replicate_succ]
  constructor
  · intro h
    obtain ⟨hreads, hwrites⟩ := h
    cases hw : remote.writes with
    | nil => simp [hw] at hwrites
    | cons w writes =>
      rw [hw, List.take_succ_cons] at hwrites
      obtain ⟨rfl, htake⟩ := List.cons.inj hwrites
      exact ⟨writes, rfl, hreads, htake⟩
  · intro h
    obtain ⟨writes, hw, hreads, hwrites⟩ := h
    rw [hw, List.take_succ_cons]
    exact ⟨hreads, congrArg (true :: ·) hwrites⟩

theorem cooperates_recv {remote : Remote} {msg : UpgradeMsg} {ops : List UpgradeOp} :
    remote.Cooperates B (.recv msg :: ops) ↔
      ∃ bytes reads, remote.reads = some bytes :: reads ∧ msg.accepts B bytes = true ∧
        Remote.Cooperates B { remote with reads } ops := by
  have hsends : sends (.recv msg :: ops) = sends ops := List.countP_cons_of_neg (by simp)
  have hexpected : expected (.recv msg :: ops) = msg :: expected ops := rfl
  unfold Remote.Cooperates
  rw [hsends, hexpected]
  constructor
  · intro h
    obtain ⟨hreads, hwrites⟩ := h
    match hr : remote.reads with
    | [] => simp [hr, sendsExpected] at hreads
    | none :: reads => simp [hr, sendsExpected] at hreads
    | some bytes :: reads =>
      rw [hr, sendsExpected, Bool.and_eq_true] at hreads
      exact ⟨bytes, reads, rfl, hreads.1, hreads.2, hwrites⟩
  · intro h
    obtain ⟨bytes, reads, hr, haccepts, hreads, hwrites⟩ := h
    rw [hr, sendsExpected, Option.any_some, haccepts]
    exact ⟨hreads, hwrites⟩

/-- What an end accepts it goes on with; only a `PeerInfo` leaves the remote peer behind. -/
theorem receive_some {u : Progress} {bytes : List UInt8} {msg : UpgradeMsg} (hne : msg ≠ .peerInfo)
    (h : msg.accepts B bytes = true) :
    ∃ u', e.receive B K u bytes msg = some u' ∧ u'.remotePeer = u.remotePeer := by
  unfold UpgradeMsg.accepts at h
  unfold Endpoint.receive
  cases msg with
  | peerstoreUpdated => exact ⟨u, if_pos (of_decide_eq_true h), rfl⟩
  | protocol name => exact ⟨u, if_pos (of_decide_eq_true h), rfl⟩
  | publicKey => exact ⟨_, dif_pos (of_decide_eq_true h), rfl⟩
  | peerInfo => exact absurd rfl hne

theorem receive_none {u : Progress} {bytes : List UInt8} {msg : UpgradeMsg} (hne : msg ≠ .peerInfo)
    (h : msg.accepts B bytes = false) : e.receive B K u bytes msg = none := by
  unfold UpgradeMsg.accepts at h
  unfold Endpoint.receive
  cases msg with
  | peerstoreUpdated => exact if_neg (of_decide_eq_false h)
  | protocol name => exact if_neg (of_decide_eq_false h)
  | publicKey => exact dif_neg (of_decide_eq_false h)
  | peerInfo => exact absurd rfl hne

/-- The `PeerInfo` that an end has, or still gets. -/
def peerToCome (B : UpgradeFormats) (ops : List UpgradeOp) (u : Progress) (remote : Remote) :
    Option PeerInfo :=
  if .peerInfo ∈ expected ops then sentPeerInfo B (expected ops) remote.reads
  else u.remotePeer.bind SentPeerInfo.parse

theorem runUpgrade_nil {u : Progress} {remote : Remote} {p : PeerInfo} :
    runUpgrade B K e [] u remote = .done p ↔ u.remotePeer.bind SentPeerInfo.parse = some p := by
  rw [runUpgrade]
  cases u.remotePeer.bind SentPeerInfo.parse with
  | none => simp
  | some remote_peer => simp

/-- Of the messages that the end reads, only a `PeerInfo` says who the remote peer is. -/
theorem peerToCome_skip {ops : List UpgradeOp} {u u' : Progress} {remote : Remote}
    {msg : UpgradeMsg} {bytes : List UInt8} {reads : List (Option (List UInt8))}
    (hne : msg ≠ .peerInfo) (hr : remote.reads = some bytes :: reads)
    (hu : u'.remotePeer = u.remotePeer) :
    peerToCome B (.recv msg :: ops) u remote = peerToCome B ops u' { remote with reads } := by
  have hexpected : expected (.recv msg :: ops) = msg :: expected ops := rfl
  have hskip : sentPeerInfo B (msg :: expected ops) remote.reads =
      sentPeerInfo B (expected ops) reads := by
    rw [hr]
    cases msg with
    | peerInfo => exact absurd rfl hne
    | _ => rfl
  unfold peerToCome
  rw [hexpected, hskip, hu]
  simp [Ne.symm hne]

theorem peerToCome_peerInfo {ops : List UpgradeOp} {u : Progress} {remote : Remote}
    {bytes : List UInt8} {reads : List (Option (List UInt8))}
    (hr : remote.reads = some bytes :: reads) :
    peerToCome B (.recv .peerInfo :: ops) u remote =
      (B.peerInfo.deserialize bytes).bind SentPeerInfo.parse := by
  have hexpected : expected (.recv .peerInfo :: ops) = .peerInfo :: expected ops := rfl
  unfold peerToCome
  rw [hexpected, if_pos (List.mem_cons_self ..), hr]
  rfl

/-- A write that the stream takes. -/
theorem runUpgrade_send {ops : List UpgradeOp} {u : Progress} {remote : Remote} {msg : UpgradeMsg}
    {writes : List Bool} (hw : remote.writes = true :: writes) :
    runUpgrade B K e (.send msg :: ops) u remote =
      runUpgrade B K e ops u { remote with writes } := by
  rw [runUpgrade, hw]

/-- A message that has arrived. -/
theorem runUpgrade_recv {ops : List UpgradeOp} {u : Progress} {remote : Remote} {msg : UpgradeMsg}
    {bytes : List UInt8} {reads : List (Option (List UInt8))}
    (hr : remote.reads = some bytes :: reads) :
    runUpgrade B K e (.recv msg :: ops) u remote =
      match e.receive B K u bytes msg with
      | none => .failed
      | some u' => runUpgrade B K e ops u' { remote with reads } := by
  rw [runUpgrade, hr]

/-- **One operation after the other**: the upgrade ends well exactly if the remote end cooperates
with all of them and its address parses. -/
theorem runUpgrade_done_iff {ops : List UpgradeOp} (hcount : (expected ops).count .peerInfo ≤ 1)
    (u : Progress) (remote : Remote) (p : PeerInfo) :
    runUpgrade B K e ops u remote = .done p ↔
      remote.Cooperates B ops ∧ peerToCome B ops u remote = some p := by
  induction ops generalizing u remote with
  | nil =>
    rw [runUpgrade_nil]
    exact ⟨fun h => ⟨⟨rfl, rfl⟩, h⟩, fun h => h.2⟩
  | cons op ops ih =>
    cases op with
    | send msg =>
      rw [cooperates_send]
      -- a write that fails ends the upgrade, one that never ends stops it
      match hw : remote.writes with
      | [] => simp [runUpgrade, hw]
      | false :: writes => simp [runUpgrade, hw]
      | true :: writes =>
        rw [runUpgrade_send hw, ih hcount]
        constructor
        · intro h
          obtain ⟨hco, hp⟩ := h
          exact ⟨⟨writes, rfl, hco⟩, hp⟩
        · intro h
          obtain ⟨⟨writes', he, hco⟩, hp⟩ := h
          obtain rfl := (List.cons.inj he).2
          exact ⟨hco, hp⟩
    | recv msg =>
      have hexpected : expected (.recv msg :: ops) = msg :: expected ops := rfl
      rw [hexpected] at hcount
      have hcount' : (expected ops).count .peerInfo ≤ 1 :=
        Nat.le_trans (List.count_le_count_cons ..) hcount
      rw [cooperates_recv]
      match hr : remote.reads with
      | [] => simp [runUpgrade, hr]
      | none :: reads => simp [runUpgrade, hr]
      | some bytes :: reads =>
        have hco : (∃ bytes' reads', some bytes :: reads = some bytes' :: reads' ∧
            msg.accepts B bytes' = true ∧ Remote.Cooperates B { remote with reads := reads' } ops) ↔
              msg.accepts B bytes = true ∧ Remote.Cooperates B { remote with reads } ops := by
          simp
        rw [hco]
        by_cases hmsg : msg = .peerInfo
        · -- the only `PeerInfo`: from here on the end has it
          subst hmsg
          have hlast : UpgradeMsg.peerInfo ∉ expected ops := by
            rw [List.count_cons_self] at hcount
            exact List.count_eq_zero.mp (by omega)
          have hreceive : e.receive B K u bytes .peerInfo =
              (B.peerInfo.deserialize bytes).map
                fun sent => { u with remotePeer := some sent } := rfl
          have haccepts : UpgradeMsg.peerInfo.accepts B bytes =
              (B.peerInfo.deserialize bytes).any fun sent => sent.parse.isSome := rfl
          rw [peerToCome_peerInfo hr, haccepts, runUpgrade_recv hr, hreceive]
          cases hd : B.peerInfo.deserialize bytes with
          | none => simp
          | some sent =>
            dsimp only [Option.map_some]
            rw [ih hcount']
            unfold peerToCome
            rw [if_neg hlast]
            dsimp only [Option.bind_some, Option.any_some]
            constructor
            · intro h
              obtain ⟨hco, hp⟩ := h
              exact ⟨⟨by rw [hp]; rfl, hco⟩, hp⟩
            · intro h
              obtain ⟨⟨-, hco⟩, hp⟩ := h
              exact ⟨hco, hp⟩
        · cases haccepts : msg.accepts B bytes with
          | false =>
            rw [runUpgrade_recv hr, receive_none hmsg haccepts]
            simp
          | true =>
            obtain ⟨u', hu', hpeer⟩ :=
              receive_some (B := B) (K := K) (e := e) (u := u) hmsg haccepts
            rw [runUpgrade_recv hr, hu', peerToCome_skip hmsg hr hpeer, ih hcount']
            simp

end Cooperates

/-- **An upgrade** ends well exactly if the remote end cooperates, and then with the peer it calls
itself. -/
theorem runUpgrade_upgraded (B : UpgradeFormats) (K : KeyAgreement) (e : Endpoint)
    (t : TransportOpt) (is_initiator : Bool) (remote : Remote) :
    (runUpgrade B K e (upgrade t is_initiator) { ops := [] } remote).upgraded =
      remote.peer B (upgrade t is_initiator) := by
  have hcount : (expected (upgrade t is_initiator)).count .peerInfo ≤ 1 := by
    cases t with
    | _ => cases is_initiator with | _ => decide
  have hmem : .peerInfo ∈ expected (upgrade t is_initiator) := by
    cases t with
    | _ => cases is_initiator with | _ => decide
  have hdone := runUpgrade_done_iff (B := B) (K := K) (e := e) hcount { ops := [] } remote
  unfold peerToCome at hdone
  rw [if_pos hmem] at hdone
  apply Option.ext
  intro p
  rw [Remote.peer]
  have hup : (runUpgrade B K e (upgrade t is_initiator) { ops := [] } remote).upgraded = some p ↔
      runUpgrade B K e (upgrade t is_initiator) { ops := [] } remote = .done p := by
    cases runUpgrade B K e (upgrade t is_initiator) { ops := [] } remote with
    | done remote_peer => simp [Outcome.upgraded]
    | failed => simp [Outcome.upgraded]
    | waits => simp [Outcome.upgraded]
  rw [hup, hdone]
  by_cases hco : remote.Cooperates B (upgrade t is_initiator)
  · rw [if_pos hco]
    exact and_iff_right hco
  · rw [if_neg hco]
    simp [hco]

/-! ## The loop -/

/-- The swarm, and whether its loop is inside an upgrade whose remote end stays silent. -/
structure SwarmLoop (κ : Type) where
  swarm : SwarmInner κ
  waiting : Bool := false

/-- One turn of the loop, or of a task of the swarm. -/
inductive LoopAct (φ : Type)
  /-- the loop accepts a connection, with this remote end -/
  | accept (e : Endpoint) (remote : Remote)
  /-- the loop handles the next command; if that dials, `dialed` tells whether `dial` succeeds -/
  | next (e : Endpoint) (dialed : Bool) (remote : Remote)
  | elsewhere (a : SwarmAct φ)

/-- The command gets as far as `dial`. -/
def SwarmInner.dials {κ : Type} (s : SwarmInner κ) : Command → Bool
  | .connect maddr | .newStream maddr _ =>
    maddr.valueForP2p.any fun peer_id => peer_id ∉ s.connections
  | .disconnect _ _ => false

/-- The first protocol, which is the one that `new_stream` asks for, is one of the handlers. -/
def SwarmInner.knows {κ : Type} (s : SwarmInner κ) (protocols : List Payload) : Bool :=
  protocols.head?.any fun protocol =>
    (fromUtf8 protocol.val).any fun name => s.handlers.contains name

section Loop

variable {κ φ : Type} (c : Codec κ φ) (B : UpgradeFormats) (K : KeyAgreement)
  (t : TransportOpt)

/-- How a dial ends, and the upgrade behind it. -/
def dialOutcome (e : Endpoint) (dialed : Bool) (remote : Remote) : Outcome :=
  if dialed then runUpgrade B K e (upgrade t true) { ops := [] } remote else .failed

/-- One turn. -/
def SwarmLoop.step (s : SwarmLoop κ) : LoopAct φ → Option (SwarmLoop κ)
  | .accept e remote =>
    if s.waiting then none
    else
      let outcome := runUpgrade B K e (upgrade t false) { ops := [] } remote
      if outcome = .waits ∧ s.swarm.alive then some { s with waiting := true }
      else (s.swarm.step c (.accept outcome.upgraded)).map fun swarm => { s with swarm }
  | .next e dialed remote =>
    if s.waiting then none
    else
      match s.swarm.commands with
      | [] => none
      | command :: rest =>
        let outcome := dialOutcome B K t e dialed remote
        if s.swarm.dials command ∧ outcome = .waits then
          some { swarm := { s.swarm with commands := rest }, waiting := true }
        else (s.swarm.step c (.next outcome.upgraded)).map fun swarm => { s with swarm }
  | .elsewhere a =>
    if a.ofLoop then none else (s.swarm.step c a).map fun swarm => { s with swarm }

/-- A swarm from its start on, with the remote ends of its connections. -/
def swarmLoop : System (SwarmLoop κ) (LoopAct φ) where
  init s := ∃ pingCheckOpt handlers, s = { swarm := { pingCheckOpt, handlers } }
  step := SwarmLoop.step c B K t

/-- The peer that comes out of a dial, if it succeeds. -/
def dialedPeer (dialed : Bool) (remote : Remote) : Option PeerInfo :=
  if dialed then remote.peer B (upgrade t true) else none

/-! ## What is promised -/

/-- The operation cannot be carried out: the upgrade does not end well, the dial is refused, the
peer cannot be reached, or no protocol is asked for or one that is not known. -/
def Refused (s : SwarmLoop κ) : LoopAct φ → Prop
  | .accept _ remote => remote.peer B (upgrade t false) = none
  | .next _ dialed remote =>
    match s.swarm.commands with
    | .connect maddr :: _ =>
      s.swarm.completes (dialedPeer B t dialed remote) (.connect maddr) = false
    | .newStream maddr protocols :: _ =>
      s.swarm.completes (dialedPeer B t dialed remote) (.newStream maddr protocols) = false ∨
        s.swarm.knows protocols = false
    | _ => False
  | .elsewhere _ => False

/-- The loop accepts a connection, or handles a `Connect` or a `NewStream`. -/
def Operates (s : SwarmLoop κ) : LoopAct φ → Prop
  | .accept _ _ => True
  | .next _ _ _ => ∀ peer_id origin rest, s.swarm.commands ≠ .disconnect peer_id origin :: rest
  | .elsewhere _ => False

/-- Behind every such operation the loop goes on to the next event, and one that could not be
carried out has changed neither map. -/
def Survives (s : SwarmLoop κ) (a : LoopAct φ) : Prop :=
  ∀ s', s.step c B K t a = some s' → Operates s a →
    s'.swarm.alive = true ∧ s'.waiting = false ∧
      (Refused B t s a → s'.swarm.connections = s.swarm.connections ∧
        s'.swarm.peerStore = s.swarm.peerStore)

/-- Every step of the operation succeeds; a `NewStream` that has to dial is for a protocol that is
known. -/
def Succeeds (s : SwarmLoop κ) : LoopAct φ → Prop
  | .accept _ remote => (remote.peer B (upgrade t false)).isSome = true
  | .next _ dialed remote =>
    match s.swarm.commands with
    | .connect maddr :: _ =>
      s.swarm.completes (dialedPeer B t dialed remote) (.connect maddr) = true
    | .newStream maddr protocols :: _ =>
      s.swarm.completes (dialedPeer B t dialed remote) (.newStream maddr protocols) = true ∧
        (s.swarm.knows protocols = true ∨ s.swarm.dials (.newStream maddr protocols) = false)
    | _ => True
  | .elsewhere _ => True

/-! ## What an operation comes to -/

/-- A `Connect` leaves the loop running exactly if it completes. -/
theorem connect_alive {s : SwarmInner κ} (halive : s.alive = true) (maddr : Multiaddr)
    (upgraded : Option PeerInfo) :
    (s.connect maddr upgraded).alive = s.completes upgraded (.connect maddr) := by
  unfold SwarmInner.connect SwarmInner.completes
  dsimp only
  cases maddr.valueForP2p with
  | none => rfl
  | some peer_id =>
    dsimp only [Option.any_some]
    by_cases hmem : peer_id ∈ s.connections
    · rw [if_pos hmem, decide_eq_true hmem, halive]
      rfl
    · rw [if_neg hmem, decide_eq_false hmem]
      cases upgraded with
      | none => rfl
      | some remote_peer => exact halive

/-- So does a `NewStream`. -/
theorem newStream_alive {s : SwarmInner κ} (halive : s.alive = true) (maddr : Multiaddr)
    (protocols : List Payload) (upgraded : Option PeerInfo) :
    (s.newStream c maddr protocols upgraded).alive =
      s.completes upgraded (.newStream maddr protocols) := by
  have hopen : ∀ (s₁ : SwarmInner κ) (peer_id : String), s₁.alive = true →
      (s₁.openStream c peer_id protocols).alive = (!protocols.isEmpty && s₁.reaches peer_id) := by
    intro s₁ peer_id halive₁
    cases hsent : !protocols.isEmpty && s₁.reaches peer_id with
    | true =>
      obtain ⟨item, s', hs', he⟩ := openStream_sent c hsent
      rw [he, sendTo_alive c hs', halive₁]
    | false =>
      rw [openStream_abort c hsent]
      rfl
  unfold SwarmInner.newStream SwarmInner.connect SwarmInner.completes
  dsimp only
  cases maddr.valueForP2p with
  | none =>
    rw [Option.any_none, Bool.and_false]
    rfl
  | some peer_id =>
    dsimp only [Option.any_some]
    by_cases hmem : peer_id ∈ s.connections
    · rw [if_pos hmem, if_pos hmem]
      exact hopen s peer_id halive
    · rw [if_neg hmem, if_neg hmem, if_neg hmem]
      cases upgraded with
      | none =>
        have hnobody : s.abort.reaches peer_id = false := rfl
        rw [show s.connHandler none = s.abort from rfl,
          openStream_abort c (by rw [hnobody, Bool.and_false]), Option.any_none, Bool.and_false]
        rfl
      | some remote_peer =>
        rw [hopen (s.connHandler (some remote_peer)) peer_id halive, reaches_dialed hmem,
          Option.any_some]

/-- A `NewStream` for a peer that is connected changes neither map. -/
theorem newStream_connected {s : SwarmInner κ} {maddr : Multiaddr} {protocols : List Payload}
    {upgraded : Option PeerInfo} (hdials : s.dials (.newStream maddr protocols) = false)
    (hcompletes : s.completes upgraded (.newStream maddr protocols) = true) :
    (s.newStream c maddr protocols upgraded).connections = s.connections ∧
      (s.newStream c maddr protocols upgraded).peerStore = s.peerStore := by
  unfold SwarmInner.dials at hdials
  unfold SwarmInner.completes at hcompletes
  unfold SwarmInner.newStream
  dsimp only at hdials hcompletes
  cases hp : maddr.valueForP2p with
  | none => simp [hp] at hcompletes
  | some peer_id =>
    rw [hp, Option.any_some, decide_eq_false_iff_not, not_not] at hdials
    rw [hp, Option.any_some, if_pos hdials] at hcompletes
    dsimp only
    rw [if_pos hdials]
    obtain ⟨item, s', hs', he⟩ := openStream_sent c hcompletes
    obtain ⟨hconnections, -, -, hstore⟩ := sendTo_frame c hs'
    rw [he]
    exact ⟨hconnections, hstore⟩

/-- One that dials registers the peer. -/
theorem newStream_dials {s : SwarmInner κ} {maddr : Multiaddr} {protocols : List Payload}
    {upgraded : Option PeerInfo} (hdials : s.dials (.newStream maddr protocols) = true)
    (hcompletes : s.completes upgraded (.newStream maddr protocols) = true) :
    (s.newStream c maddr protocols upgraded).connections ≠ s.connections := by
  unfold SwarmInner.dials at hdials
  unfold SwarmInner.completes at hcompletes
  unfold SwarmInner.newStream SwarmInner.connect
  dsimp only at hdials hcompletes
  cases hp : maddr.valueForP2p with
  | none => simp [hp] at hcompletes
  | some peer_id =>
    rw [hp, Option.any_some, decide_eq_true_eq] at hdials
    rw [hp, Option.any_some, if_neg hdials] at hcompletes
    dsimp only
    rw [if_neg hdials, if_neg hdials]
    cases upgraded with
    | none => simp at hcompletes
    | some remote_peer =>
      rw [Option.any_some, ← reaches_dialed hdials] at hcompletes
      obtain ⟨item, s', hs', he⟩ := openStream_sent c hcompletes
      obtain ⟨hconnections, -, -, -⟩ := sendTo_frame c hs'
      rw [reaches_dialed hdials, Bool.and_eq_true, decide_eq_true_eq] at hcompletes
      rw [he, hconnections]
      intro heq
      apply hdials
      rw [← heq, ← AList.lookup_isSome, ← hcompletes.2,
        (connHandler_registered s remote_peer).dialed]
      rfl

/-! ## Every run -/

/-- An operation that is over: what it has left behind is what the swarm's turn leaves. -/
theorem accept_cases {s s' : SwarmLoop κ} {e : Endpoint} {remote : Remote}
    (hs : s.step c B K t (.accept e remote : LoopAct φ) = some s') :
    s.swarm.alive = true ∧ s.waiting = false ∧
      ((s' = { s with waiting := true } ∧ remote.peer B (upgrade t false) = none) ∨
        s' = { s with swarm := s.swarm.connHandler (remote.peer B (upgrade t false)) }) := by
  have hupgraded := runUpgrade_upgraded B K e t false remote
  unfold SwarmLoop.step at hs
  dsimp only at hs
  cases hw : s.waiting with
  | true => simp [hw] at hs
  | false =>
    rw [hw, if_neg (by simp)] at hs
    split at hs
    · rename_i hwaits
      obtain rfl := Option.some.inj hs
      rw [hwaits.1] at hupgraded
      exact ⟨hwaits.2, rfl, Or.inl ⟨rfl, hupgraded.symm⟩⟩
    · obtain ⟨swarm, hswarm, rfl⟩ := Option.map_eq_some_iff.mp hs
      unfold SwarmInner.step at hswarm
      dsimp only at hswarm
      split at hswarm
      · rename_i halive
        obtain rfl := Option.some.inj hswarm
        rw [hupgraded]
        exact ⟨halive, rfl, Or.inr rfl⟩
      · simp at hswarm

theorem next_cases {s s' : SwarmLoop κ} {e : Endpoint} {dialed : Bool} {remote : Remote}
    (hs : s.step c B K t (.next e dialed remote : LoopAct φ) = some s') :
    ∃ command rest, s.swarm.commands = command :: rest ∧ s.waiting = false ∧
      ((s' = { swarm := { s.swarm with commands := rest }, waiting := true } ∧
          s.swarm.dials command = true ∧ dialedPeer B t dialed remote = none) ∨
        s' = { s with
          swarm := ({ s.swarm with commands := rest } : SwarmInner κ).handleCommand c
            (dialedPeer B t dialed remote) command }) := by
  have hupgraded : (dialOutcome B K t e dialed remote).upgraded = dialedPeer B t dialed remote := by
    unfold dialOutcome dialedPeer
    cases dialed with
    | true => exact runUpgrade_upgraded B K e t true remote
    | false => rfl
  unfold SwarmLoop.step at hs
  dsimp only at hs
  cases hw : s.waiting with
  | true => simp [hw] at hs
  | false =>
    rw [hw, if_neg (by simp)] at hs
    cases hc : s.swarm.commands with
    | nil => simp [hc] at hs
    | cons command rest =>
      rw [hc] at hs
      dsimp only at hs
      refine ⟨command, rest, rfl, rfl, ?_⟩
      split at hs
      · rename_i hwaits
        obtain rfl := Option.some.inj hs
        rw [hwaits.2] at hupgraded
        exact Or.inl ⟨rfl, hwaits.1, hupgraded.symm⟩
      · obtain ⟨swarm, hswarm, rfl⟩ := Option.map_eq_some_iff.mp hs
        rw [hupgraded] at hswarm
        simp only [SwarmInner.step, hc, Option.some.injEq] at hswarm
        rw [← hswarm]
        exact Or.inr rfl

/-- A dial that comes to nothing completes no command. -/
theorem not_completes_of_dials {s : SwarmInner κ} {command : Command}
    (hdials : s.dials command = true) : s.completes none command = false := by
  unfold SwarmInner.dials at hdials
  unfold SwarmInner.completes
  cases command with
  | connect maddr =>
    dsimp only at hdials ⊢
    cases hp : maddr.valueForP2p with
    | none => simp [hp] at hdials
    | some peer_id =>
      rw [hp, Option.any_some, decide_eq_true_eq] at hdials
      rw [Option.any_some, decide_eq_false hdials]
      rfl
  | newStream maddr protocols =>
    dsimp only at hdials ⊢
    cases hp : maddr.valueForP2p with
    | none => simp [hp] at hdials
    | some peer_id =>
      rw [hp, Option.any_some, decide_eq_true_eq] at hdials
      rw [Option.any_some, if_neg hdials, Option.any_none, Bool.and_false]
  | disconnect peer_id origin => simp at hdials

/-- **One turn** is survived exactly if its operation succeeds. -/
theorem survives_iff_succeeds {s s' : SwarmLoop κ} {a : LoopAct φ} (hI : Closed s.swarm)
    (hs : s.step c B K t a = some s') : Survives c B K t s a ↔ Succeeds B t s a := by
  have honly : Survives c B K t s a ↔ (Operates s a →
      s'.swarm.alive = true ∧ s'.waiting = false ∧
        (Refused B t s a → s'.swarm.connections = s.swarm.connections ∧
          s'.swarm.peerStore = s.swarm.peerStore)) := by
    constructor
    · exact fun h => h s' hs
    · intro h s₁ hs₁
      obtain rfl := Option.some.inj (hs.symm.trans hs₁)
      exact h
  rw [honly]
  cases a with
  | elsewhere a => exact iff_of_true (fun h => absurd h id) trivial
  | accept e remote =>
    obtain ⟨halive, hw, ⟨rfl, hnone⟩ | rfl⟩ := accept_cases c B K t hs
    · -- the remote end stays silent, and the loop waits for it
      refine iff_of_false (fun h => ?_) ?_
      · simpa using (h trivial).2.1
      · rw [Succeeds, hnone]
        simp
    · unfold Refused Succeeds
      dsimp only
      cases remote.peer B (upgrade t false) with
      | none =>
        -- `unwrap` on the failed upgrade
        refine iff_of_false (fun h => ?_) (by simp)
        simpa [SwarmInner.connHandler, SwarmInner.abort] using (h trivial).1
      | some remote_peer => exact iff_of_true (fun _ => ⟨halive, hw, by simp⟩) rfl
  | next e dialed remote =>
    obtain ⟨command, rest, hc, hw, hcases⟩ := next_cases c B K t hs
    have halive : s.swarm.alive = true := hI.alive hc
    unfold Operates Refused Succeeds
    rw [hc]
    -- whether the command completes depends on the maps and the tasks only
    have hsame : ∀ upgraded command,
        ({ s.swarm with commands := rest } : SwarmInner κ).completes upgraded command =
          s.swarm.completes upgraded command := fun _ _ => rfl
    cases command with
    | disconnect peer_id origin =>
      exact iff_of_true (fun h => absurd rfl (h peer_id origin rest)) trivial
    | connect maddr =>
      dsimp only
      rcases hcases with ⟨rfl, hdials, hnone⟩ | rfl
      · rw [hnone, not_completes_of_dials hdials]
        exact iff_of_false (fun h => by simpa using (h (by simp)).2.1) (by simp)
      · have hafter := connect_alive (s := { s.swarm with commands := rest }) halive maddr
          (dialedPeer B t dialed remote)
        rw [hsame] at hafter
        rw [← hafter]
        constructor
        · exact fun h => (h (by simp)).1
        · refine fun h _ => ⟨h, hw, fun hrefused => ?_⟩
          rw [h] at hrefused
          simp at hrefused
    | newStream maddr protocols =>
      dsimp only
      rcases hcases with ⟨rfl, hdials, hnone⟩ | rfl
      · rw [hnone, not_completes_of_dials hdials]
        exact iff_of_false (fun h => by simpa using (h (by simp)).2.1) (by simp)
      · have hafter := newStream_alive c (s := { s.swarm with commands := rest }) halive maddr
          protocols (dialedPeer B t dialed remote)
        rw [hsame] at hafter
        constructor
        · intro h
          obtain ⟨hgoes, -, hkept⟩ := h (by simp)
          have hcompletes := hafter.symm.trans hgoes
          refine ⟨hcompletes, ?_⟩
          by_contra hnot
          -- it has dialed for an unknown protocol, so the connection is registered
          rw [not_or, Bool.not_eq_true, Bool.not_eq_false] at hnot
          exact newStream_dials c (s := { s.swarm with commands := rest }) hnot.2 hcompletes
            (hkept (Or.inr hnot.1)).1
        · intro h _
          obtain ⟨hcompletes, hknown⟩ := h
          refine ⟨hafter.trans hcompletes, hw, fun hrefused => ?_⟩
          rw [hcompletes] at hrefused
          have hunknown := hrefused.resolve_left (by simp)
          have hdials := hknown.resolve_left (by simp [hunknown])
          exact newStream_connected c (s := { s.swarm with commands := rest }) hdials hcompletes

/-- The queue of a loop that has panicked stays closed. -/
theorem closed_step {s s' : SwarmLoop κ} {a : LoopAct φ} (hI : Closed s.swarm)
    (hs : s.step c B K t a = some s') : Closed s'.swarm := by
  cases a with
  | elsewhere a =>
    unfold SwarmLoop.step at hs
    dsimp only at hs
    split at hs
    · simp at hs
    · obtain ⟨swarm, hswarm, rfl⟩ := Option.map_eq_some_iff.mp hs
      exact hI.step c hswarm
  | accept e remote =>
    obtain ⟨halive, -, ⟨rfl, -⟩ | rfl⟩ := accept_cases c B K t hs
    · exact hI
    · exact hI.step c (a := .accept (remote.peer B (upgrade t false)))
        (by simp [SwarmInner.step, halive])
  | next e dialed remote =>
    obtain ⟨command, rest, hc, -, ⟨rfl, -⟩ | rfl⟩ := next_cases c B K t hs
    · intro hdead
      have hdead : s.swarm.alive = false := hdead
      rw [hI.alive hc] at hdead
      simp at hdead
    · exact hI.step c (a := .next (dialedPeer B t dialed remote))
        (by simp [SwarmInner.step, hc])

/-- **Failing operations.** For every swarm, every sequence of turns and every behaviour of the
remote ends: the loop survives every operation, with nothing changed by those that cannot be
carried out, exactly if every operation succeeds. -/
theorem survives_iff (pingCheckOpt : Bool) (handlers : List String) (as : List (LoopAct φ)) :
    (swarmLoop c B K t).Guarded (Survives c B K t) { swarm := { pingCheckOpt, handlers } } as ↔
      (swarmLoop c B K t).Guarded (Succeeds B t) { swarm := { pingCheckOpt, handlers } } as := by
  have hinit : Closed ({ pingCheckOpt, handlers } : SwarmInner κ) := fun _ => rfl
  constructor
  · refine guarded_of_invariant (fun s => Closed s.swarm) (fun s a s' hI h hs => ?_) as _ hinit
    exact ⟨closed_step c B K t hI hs, (survives_iff_succeeds c B K t hI hs).mp h⟩
  · refine guarded_of_invariant (fun s => Closed s.swarm) (fun s a s' hI h hs => ?_) as _ hinit
    exact ⟨closed_step c B K t hI hs, (survives_iff_succeeds c B K t hI hs).mpr h⟩

end Loop

/-- A remote end that connects, and closes the connection at once. -/
def closesAtOnce : Remote := ⟨[none], []⟩

/-- **It ends the loop** of a swarm that accepts its connection. -/
theorem closed_connection_panics :
    ∃ s', ({ swarm := freshSwarm } : SwarmLoop (List UInt8)).step (bytesCodec leb128)
        upgradeFormats x25519 .tcp (.accept (sampleEndpoint .responder) closesAtOnce) = some s' ∧
      s'.swarm.alive = false ∧
      ¬ Survives (bytesCodec leb128) upgradeFormats x25519 .tcp { swarm := freshSwarm }
        (.accept (sampleEndpoint .responder) closesAtOnce) := by
  have hs : ({ swarm := freshSwarm } : SwarmLoop (List UInt8)).step (bytesCodec leb128)
      upgradeFormats x25519 .tcp (.accept (sampleEndpoint .responder) closesAtOnce) =
        some { swarm := freshSwarm.abort } := rfl
  refine ⟨_, hs, rfl, fun h => ?_⟩
  obtain ⟨halive, -⟩ := h _ hs trivial
  simp [SwarmInner.abort] at halive

end Rnet.Swarm
