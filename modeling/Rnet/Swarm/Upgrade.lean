import Rnet.Swarm.Dial
import Rnet.Security.SecureConn
import Rnet.Identity.Address
import Rnet.Mplex.Headers

/-!
# An upgrade and what it exchanges

The upgrade of a connection runs through four crates: the security transport selects its
protocols and exchanges keys, the multiselect selects its own and exchanges the `PeerInfo`s, the
muxer selects its protocols, and `MuxedConn::new` parses the address of the remote peer. `upgrade`
lists these operations; here they have the bytes that they send and what they accept.

> `upgrade_agrees`: two ends that upgrade a connection with each other never wait for each other
> with nothing in flight, read every message in the operation it was written for, never fail,
> and end with the same key and each other's `PeerInfo`.

The direction turns around at `identify`, where the accepting end writes first, so two of its
messages can be on their way. What holds of the pair at every moment is that the end
behind has in its inbox exactly what the end ahead has written since (`InStep`).
-/

namespace Rnet.Swarm

open Rnet.Lib Rnet.Identity Rnet.Security
open Rnet.Mplex (ascii)
open Rnet.Lib.System (runUnder_of_exec)

/-! ## What is exchanged -/

/-- `PeerInfo`, as it is sent. -/
structure SentPeerInfo where
  peer_id : String
  listen_addr : String
  deriving DecidableEq

/-- A `PeerInfo` with the address that `MuxedConn::new` reads in it. -/
def SentPeerInfo.parse (sent : SentPeerInfo) : Option PeerInfo :=
  (Multiaddr.new sent.listen_addr).map fun addr => ⟨sent.peer_id, addr⟩

/-- The strings are no longer than a length can say. -/
def SentPeerInfo.Fits (sent : SentPeerInfo) : Prop :=
  FitsText sent.peer_id ∧ FitsText sent.listen_addr

instance (sent : SentPeerInfo) : Decidable sent.Fits := inferInstanceAs (Decidable (_ ∧ _))

/-- The formats that `bincode` has for what an upgrade exchanges. -/
structure UpgradeFormats where
  name : Bincode String FitsText
  peerInfo : Bincode SentPeerInfo SentPeerInfo.Fits

/-- One end of a connection. -/
structure Endpoint where
  /-- the secret of `EphemeralSecret::random_from_rng` -/
  secret : Bytes 32
  localPeer : SentPeerInfo

/-- How far an end has come. -/
structure Progress where
  /-- the operations that are left -/
  ops : List UpgradeOp
  /-- the key of the cipher -/
  cipher : Option (Bytes 32) := none
  remotePeer : Option SentPeerInfo := none
  failed : Bool := false
  /-- the remote peer of the connection, once it is upgraded -/
  upgraded : Option PeerInfo := none
  deriving DecidableEq

section Operations

variable (B : UpgradeFormats) (K : KeyAgreement)

/-- The bytes of a message. -/
def Endpoint.content (e : Endpoint) : UpgradeMsg → List UInt8
  | .peerstoreUpdated => ascii "peerstore_updated"
  | .protocol name => B.name.serialize name
  | .publicKey => (K.publicKey e.secret).1
  | .peerInfo => B.peerInfo.serialize e.localPeer

/-- What an end makes of the bytes it has received, if it goes on. -/
def Endpoint.receive (e : Endpoint) (u : Progress) (bytes : List UInt8) :
    UpgradeMsg → Option Progress
  | .peerstoreUpdated => if bytes = ascii "peerstore_updated" then some u else none
  | .protocol name => if B.name.deserialize bytes = some name then some u else none
  | .publicKey =>
    if h : bytes.length = 32 then
      some { u with cipher := some (K.diffieHellman e.secret ⟨bytes, h⟩) }
    else none
  | .peerInfo => (B.peerInfo.deserialize bytes).map fun sent => { u with remotePeer := some sent }

/-- `MuxedConn::new`, behind the last operation. -/
def Progress.finish (u : Progress) : Progress :=
  match u.remotePeer.bind SentPeerInfo.parse with
  | none => { u with failed := true }
  | some remote_peer => { u with upgraded := some remote_peer }

/-- The end has nothing left to do. -/
def Progress.over (u : Progress) : Bool := u.failed || u.upgraded.isSome

end Operations

/-- Both ends of a connection, and the stream below them. -/
structure UpgradeLink where
  endpoint : Side → Endpoint
  progress : Side → Progress
  /-- the messages on their way to each end, each with the number of operations that its writer had
  left, for the record -/
  incoming : Side → List (Nat × List UInt8)

namespace UpgradeLink

variable (B : UpgradeFormats) (K : KeyAgreement)

def enter (s : UpgradeLink) (side : Side) (u : Progress) : UpgradeLink :=
  { s with progress := Function.update s.progress side u }

/-- The next operation of one end. -/
def step (s : UpgradeLink) (side : Side) : Option UpgradeLink :=
  let u := s.progress side
  let e := s.endpoint side
  if u.over then none
  else
    match u.ops with
    | [] => some (s.enter side u.finish)
    | .send msg :: ops =>
      let inbox := s.incoming side.other ++ [(u.ops.length, e.content B K msg)]
      some ({ s with incoming := Function.update s.incoming side.other inbox }.enter side
        { u with ops := ops })
    | .recv msg :: ops =>
      match s.incoming side with
      | [] => none
      | (_, bytes) :: rest =>
        let s' := { s with incoming := Function.update s.incoming side rest }
        match e.receive B K u bytes msg with
        | none => some (s'.enter side { u with failed := true })
        | some u' => some (s'.enter side { u' with ops := ops })

end UpgradeLink

/-- Two ends that upgrade a connection with each other. -/
def upgradeLink (B : UpgradeFormats) (K : KeyAgreement) (t : TransportOpt)
    (endpoint : Side → Endpoint) : System UpgradeLink Side where
  init s := s = ⟨endpoint, fun side => { ops := upgrade t side.isInitiator }, fun _ => []⟩
  step := UpgradeLink.step B K

/-! ## What is promised -/

/-- The end waits for a message. -/
def UpgradeLink.Waits (s : UpgradeLink) (side : Side) : Prop :=
  (s.progress side).over = false ∧ ∃ msg ops, (s.progress side).ops = .recv msg :: ops

/-- The end is about to read a message that was written for this operation. -/
def UpgradeLink.ReadsOwn (s : UpgradeLink) (side : Side) : Prop :=
  s.Waits side → ∀ k bytes rest, s.incoming side = (k, bytes) :: rest →
    k = (s.progress side).ops.length

/-- Both ends are through. -/
def UpgradeLink.Complete (s : UpgradeLink) : Prop :=
  ∀ side, ∃ remote_peer, (s.progress side).upgraded = some remote_peer

/-- What is promised of a state. -/
structure UpgradeSound (B : UpgradeFormats) (K : KeyAgreement) (s : UpgradeLink) : Prop where
  noWait : ¬ ((∀ side, s.Waits side) ∧ ∀ side, s.incoming side = [])
  readsOwn : ∀ side, s.ReadsOwn side
  noFailure : ∀ side, (s.progress side).failed = false
  advances : ¬ s.Complete → ∃ side, (s.step B K side).isSome = true
  sameKey : s.Complete → ∃ k, ∀ side, (s.progress side).cipher = some k
  samePeers : s.Complete → ∀ side,
    (s.progress side).remotePeer = some (s.endpoint side.other).localPeer ∧
    (s.progress side).upgraded = (s.endpoint side.other).localPeer.parse

/-! ## One message -/

/-- What a message of the other end leaves behind. -/
def Endpoint.received (K : KeyAgreement) (e other : Endpoint) (u : Progress) :
    UpgradeMsg → Progress
  | .publicKey => { u with cipher := some (K.diffieHellman e.secret (K.publicKey other.secret)) }
  | .peerInfo => { u with remotePeer := some other.localPeer }
  | _ => u

/-- The names in the message are no longer than a length can say. -/
def UpgradeMsg.Fits : UpgradeMsg → Prop
  | .protocol name => FitsText name
  | _ => True

/-- **A message** that the other end has written is accepted. -/
theorem receive_content (B : UpgradeFormats) (K : KeyAgreement) (e other : Endpoint)
    (hpeer : other.localPeer.Fits) (u : Progress) {msg : UpgradeMsg} (hmsg : msg.Fits) :
    e.receive B K u (other.content B K msg) msg = some (e.received K other u msg) := by
  unfold Endpoint.receive Endpoint.content Endpoint.received
  cases msg with
  | peerstoreUpdated =>
    dsimp only
    rw [if_pos rfl]
  | protocol name =>
    dsimp only
    rw [if_pos (B.name.deserialize_serialize hmsg)]
  | publicKey =>
    dsimp only
    rw [dif_pos (K.publicKey other.secret).2]
  | peerInfo =>
    dsimp only
    rw [B.peerInfo.deserialize_serialize hpeer, Option.map_some]

/-! ## In step -/

section InStep

/-- The message of an operation. -/
def UpgradeOp.msg : UpgradeOp → UpgradeMsg
  | send msg | recv msg => msg

variable (B : UpgradeFormats) (K : KeyAgreement) (endpoint : Side → Endpoint)
  (script : Side → List UpgradeOp)

/-- What an end writes in its operation number `k`. -/
def written (side : Side) (k : Nat) : List (Nat × List UInt8) :=
  match (script side)[k]? with
  | none => []
  | some op => [((script side).length - k, (endpoint side).content B K op.msg)]

/-- What is on its way to an end that has done `p` operations from one that has done `q`. -/
def inFlight (side : Side) (p q : Nat) : List (Nat × List UInt8) :=
  (List.range' p (q - p)).flatMap (written B K endpoint script side.other)

/-- What an end knows after `p` operations. -/
def reached (side : Side) (p : Nat) : Progress where
  ops := (script side).drop p
  cipher :=
    if .recv .publicKey ∈ (script side).take p then
      some (K.diffieHellman (endpoint side).secret (K.publicKey (endpoint side.other).secret))
    else none
  remotePeer :=
    if .recv .peerInfo ∈ (script side).take p then some (endpoint side.other).localPeer else none

/-- The two ends fit together. -/
structure Fit : Prop where
  mirror : ∀ side, script side.other = (script side).map UpgradeOp.mirror
  names : ∀ side, ∀ op ∈ script side, op.msg.Fits
  key : ∀ side, .recv .publicKey ∈ script side
  peer : ∀ side, .recv .peerInfo ∈ script side
  sizes : ∀ side, (endpoint side).localPeer.Fits
  addrs : ∀ side, (endpoint side).localPeer.parse.isSome = true

/-- The ends have done `pos` operations each; the one behind only has messages to read until it is
where the other one is, and they are on their way. -/
structure InStep (s : UpgradeLink) (pos : Side → Nat) : Prop where
  endpoints : s.endpoint = endpoint
  bound : ∀ side, pos side ≤ (script side).length
  progress : ∀ side, s.progress side = reached K endpoint script side (pos side) ∨
    pos side = (script side).length ∧ s.progress side =
      { reached K endpoint script side (pos side) with
        upgraded := (endpoint side.other).localPeer.parse }
  incoming : ∀ side, s.incoming side = inFlight B K endpoint script side (pos side)
    (pos side.other)
  gap : ∀ side k, pos side ≤ k → k < pos side.other →
    ∃ msg, (script side)[k]? = some (.recv msg)

variable {B K endpoint script}

theorem inFlight_nil {side : Side} {p q : Nat} (h : q ≤ p) :
    inFlight B K endpoint script side p q = [] := by
  unfold inFlight
  rw [Nat.sub_eq_zero_of_le h]
  rfl

/-- The writer goes on. -/
theorem inFlight_send {side : Side} {p q : Nat} (h : p ≤ q) :
    inFlight B K endpoint script side p (q + 1) =
      inFlight B K endpoint script side p q ++ written B K endpoint script side.other q := by
  unfold inFlight
  rw [Nat.sub_add_comm h, List.range'_1_concat, List.flatMap_append, Nat.add_sub_cancel' h,
    List.flatMap_singleton]

/-- The reader goes on. -/
theorem inFlight_recv {side : Side} {p q : Nat} (h : p < q) :
    inFlight B K endpoint script side p q =
      written B K endpoint script side.other p ++ inFlight B K endpoint script side (p + 1) q := by
  unfold inFlight
  rw [show q - p = (q - (p + 1)) + 1 by omega, List.range'_succ, List.flatMap_cons]

theorem written_op {side : Side} {k : Nat} {op : UpgradeOp} (h : (script side)[k]? = some op) :
    written B K endpoint script side k =
      [((script side).length - k, (endpoint side).content B K op.msg)] := by
  unfold written
  rw [h]

/-- After one more operation that is no message to read. -/
theorem reached_send {side : Side} {p : Nat} {msg : UpgradeMsg}
    (h : (script side)[p]? = some (.send msg)) :
    { reached K endpoint script side p with ops := (script side).drop (p + 1) } =
      reached K endpoint script side (p + 1) := by
  unfold reached
  rw [List.take_add_one, h]
  simp

/-- After one more message that was read. -/
theorem reached_recv {side : Side} {p : Nat} {msg : UpgradeMsg}
    (h : (script side)[p]? = some (.recv msg)) :
    { (endpoint side).received K (endpoint side.other) (reached K endpoint script side p)
        msg with
      ops := (script side).drop (p + 1) } = reached K endpoint script side (p + 1) := by
  unfold reached Endpoint.received
  rw [List.take_add_one, h]
  cases msg with
  | _ => simp

theorem Fit.length (hfit : Fit endpoint script) (side : Side) :
    (script side.other).length = (script side).length := by
  rw [hfit.mirror, List.length_map]

/-- The operation across of an operation. -/
theorem Fit.getElem? (hfit : Fit endpoint script) {side : Side} {k : Nat} {op : UpgradeOp}
    (h : (script side)[k]? = some op) : (script side.other)[k]? = some op.mirror := by
  rw [hfit.mirror, List.getElem?_map, h]
  rfl

theorem Fit.fits (hfit : Fit endpoint script) {side : Side} {k : Nat} {op : UpgradeOp}
    (h : (script side)[k]? = some op) : op.msg.Fits :=
  hfit.names side op (List.mem_of_getElem? h)

namespace InStep

variable {s : UpgradeLink} {pos : Side → Nat}

/-- An end that is not over has come as far as its position says. -/
theorem progress_of_not_over (hfit : Fit endpoint script) (h : InStep B K endpoint script s pos)
    {side : Side} (hover : (s.progress side).over = false) :
    s.progress side = reached K endpoint script side (pos side) := by
  rcases h.progress side with hp | ⟨-, hp⟩
  · exact hp
  · have haddr := hfit.addrs side.other
    rw [hp] at hover
    simp [Progress.over, haddr] at hover

/-- The other end is no further than one that is about to send. -/
theorem pos_le_of_send (h : InStep B K endpoint script s pos) {side : Side} {msg : UpgradeMsg}
    (hop : (script side)[pos side]? = some (.send msg)) : pos side.other ≤ pos side := by
  by_contra hlt
  obtain ⟨msg', hrecv⟩ := h.gap side (pos side) (Nat.le_refl _) (by omega)
  rw [hop] at hrecv
  simp at hrecv

/-- One end goes on, and the messages on their way are those between the new positions. -/
theorem moved (h : InStep B K endpoint script s pos) {side : Side} {s' : UpgradeLink}
    (hpos : pos side < (script side).length) (hendpoint : s'.endpoint = s.endpoint)
    (hprogress : s'.progress = Function.update s.progress side
      (reached K endpoint script side (pos side + 1)))
    (hown : s'.incoming side = inFlight B K endpoint script side (pos side + 1) (pos side.other))
    (hacross : s'.incoming side.other =
      inFlight B K endpoint script side.other (pos side.other) (pos side + 1))
    (hgap : ∀ k, pos side.other ≤ k → k < pos side + 1 →
      ∃ msg, (script side.other)[k]? = some (.recv msg)) :
    InStep B K endpoint script s' (Function.update pos side (pos side + 1)) := by
  have hne : side.other ≠ side := Side.other_ne side
  -- every end is this one or the other one
  have hcases : ∀ e, e = side ∨ e = side.other := by
    intro e
    cases e with
    | _ => cases side with | _ => decide
  have hself : Function.update pos side (pos side + 1) side = pos side + 1 :=
    Function.update_self ..
  have hother : Function.update pos side (pos side + 1) side.other = pos side.other :=
    Function.update_of_ne hne ..
  refine ⟨hendpoint.trans h.endpoints, ?_, ?_, ?_, ?_⟩
  · intro e
    rcases hcases e with rfl | rfl
    · rw [hself]
      exact hpos
    · rw [hother]
      exact h.bound _
  · intro e
    rcases hcases e with rfl | rfl
    · rw [hself, hprogress, Function.update_self]
      exact Or.inl rfl
    · rw [hother, hprogress, Function.update_of_ne hne]
      exact h.progress _
  · intro e
    rcases hcases e with rfl | rfl
    · rw [hself, hother]
      exact hown
    · rw [hother, Side.other_other, hself]
      exact hacross
  · intro e k
    rcases hcases e with rfl | rfl
    · rw [hself, hother]
      exact fun hk hk' => h.gap e k (by omega) hk'
    · rw [hother, Side.other_other, hself]
      exact hgap k

/-- An end writes its next message. -/
theorem send (hfit : Fit endpoint script) (h : InStep B K endpoint script s pos) {side : Side}
    {msg : UpgradeMsg} {s' : UpgradeLink} (hop : (script side)[pos side]? = some (.send msg))
    (hendpoint : s'.endpoint = s.endpoint)
    (hprogress : s'.progress = Function.update s.progress side
      (reached K endpoint script side (pos side + 1)))
    (hincoming : s'.incoming = Function.update s.incoming side.other
      (s.incoming side.other ++ written B K endpoint script side (pos side))) :
    InStep B K endpoint script s' (Function.update pos side (pos side + 1)) := by
  have hle := h.pos_le_of_send hop
  refine h.moved (List.getElem?_eq_some_iff.mp hop).1 hendpoint hprogress ?_ ?_ ?_
  · rw [hincoming, Function.update_of_ne (Side.other_ne side).symm, h.incoming, inFlight_nil hle,
      inFlight_nil (Nat.le_succ_of_le hle)]
  · rw [hincoming, Function.update_self, h.incoming, Side.other_other, inFlight_send hle,
      Side.other_other]
  · intro k hk hk'
    by_cases heq : k = pos side
    · rw [heq]
      exact ⟨msg, hfit.getElem? hop⟩
    · exact h.gap side.other k hk (by rw [Side.other_other]; omega)

/-- What an end reads is what the other one has written in the same operation. -/
theorem head_incoming (hfit : Fit endpoint script) (h : InStep B K endpoint script s pos)
    {side : Side} {msg : UpgradeMsg} (hop : (script side)[pos side]? = some (.recv msg))
    {m : Nat × List UInt8} {rest : List (Nat × List UInt8)} (hin : s.incoming side = m :: rest) :
    pos side < pos side.other ∧
      m = ((script side).length - pos side, (endpoint side.other).content B K msg) ∧
      rest = inFlight B K endpoint script side (pos side + 1) (pos side.other) := by
  rw [h.incoming] at hin
  have hlt : pos side < pos side.other := by
    by_contra hle
    rw [inFlight_nil (Nat.le_of_not_lt hle)] at hin
    simp at hin
  rw [inFlight_recv hlt, written_op (hfit.getElem? hop), List.singleton_append] at hin
  obtain ⟨hm, hrest⟩ := List.cons.inj hin
  exact ⟨hlt, by rw [← hm, hfit.length]; rfl, hrest.symm⟩

/-- An end reads its next message. -/
theorem recv (h : InStep B K endpoint script s pos) {side : Side} {s' : UpgradeLink}
    (hlt : pos side < pos side.other) (hpos : pos side < (script side).length)
    (hendpoint : s'.endpoint = s.endpoint)
    (hprogress : s'.progress = Function.update s.progress side
      (reached K endpoint script side (pos side + 1)))
    (hincoming : s'.incoming = Function.update s.incoming side
      (inFlight B K endpoint script side (pos side + 1) (pos side.other))) :
    InStep B K endpoint script s' (Function.update pos side (pos side + 1)) := by
  refine h.moved hpos hendpoint hprogress ?_ ?_ ?_
  · rw [hincoming, Function.update_self]
  · rw [hincoming, Function.update_of_ne (Side.other_ne side), h.incoming, Side.other_other,
      inFlight_nil (by omega), inFlight_nil (by omega)]
  · intro k hk hk'
    omega

/-- An end parses the address of the other one. -/
theorem finish (hfit : Fit endpoint script) (h : InStep B K endpoint script s pos) {side : Side}
    (hpos : pos side = (script side).length) :
    InStep B K endpoint script
      (s.enter side (reached K endpoint script side (pos side)).finish) pos := by
  have hpeer : (reached K endpoint script side (pos side)).remotePeer =
      some (endpoint side.other).localPeer := by
    unfold reached
    rw [hpos, List.take_length]
    exact if_pos (hfit.peer side)
  obtain ⟨remote_peer, hparse⟩ := Option.isSome_iff_exists.mp (hfit.addrs side.other)
  have hfinish : (reached K endpoint script side (pos side)).finish =
      { reached K endpoint script side (pos side) with
        upgraded := (endpoint side.other).localPeer.parse } := by
    have hbind : (reached K endpoint script side (pos side)).remotePeer.bind SentPeerInfo.parse =
        some remote_peer := by rw [hpeer, Option.bind_some, hparse]
    unfold Progress.finish
    rw [hbind, hparse]
  refine ⟨h.endpoints, h.bound, fun e => ?_, h.incoming, h.gap⟩
  by_cases he : e = side
  · subst he
    refine Or.inr ⟨hpos, ?_⟩
    rw [hfinish]
    exact Function.update_self ..
  · have hsame : (s.enter side (reached K endpoint script side (pos side)).finish).progress e =
        s.progress e := Function.update_of_ne he ..
    rw [hsame]
    exact h.progress e

/-- **One operation** of one end keeps the ends in step. -/
theorem step (hfit : Fit endpoint script) (h : InStep B K endpoint script s pos) {side : Side}
    {s' : UpgradeLink} (hs : s.step B K side = some s') :
    ∃ pos', InStep B K endpoint script s' pos' := by
  have hendpoint := h.endpoints
  subst hendpoint
  unfold UpgradeLink.step at hs
  dsimp only at hs
  cases hover : (s.progress side).over with
  | true => simp [hover] at hs
  | false =>
    have hprogress := h.progress_of_not_over hfit hover
    rw [hover, if_neg (by simp), hprogress] at hs
    have hops : (reached K s.endpoint script side (pos side)).ops = (script side).drop (pos side) :=
      rfl
    rw [hops] at hs
    cases hdrop : (script side).drop (pos side) with
    | nil =>
      -- every operation is done: the end takes its remote peer and is through
      have hpos : pos side = (script side).length :=
        Nat.le_antisymm (h.bound side) (List.drop_eq_nil_iff.mp hdrop)
      rw [hdrop] at hs
      dsimp only at hs
      obtain rfl := Option.some.inj hs
      exact ⟨pos, h.finish hfit hpos⟩
    | cons op ops =>
      have hop : (script side)[pos side]? = some op := by
        rw [← List.head?_drop, hdrop]
        rfl
      have hpos : pos side < (script side).length := (List.getElem?_eq_some_iff.mp hop).1
      have hrest : ops = (script side).drop (pos side + 1) := by
        rw [← List.drop_drop, hdrop]
        rfl
      have hleft : (op :: ops).length = (script side).length - pos side := by
        rw [← hdrop, List.length_drop]
      rw [hdrop] at hs
      cases op with
      | send msg =>
        dsimp only at hs
        obtain rfl := Option.some.inj hs
        refine ⟨_, h.send hfit hop rfl ?_ ?_⟩
        · rw [← reached_send hop, ← hrest]
          rfl
        · rw [written_op hop, ← hleft]
          rfl
      | recv msg =>
        dsimp only at hs
        cases hin : s.incoming side with
        | nil => simp [hin] at hs
        | cons m rest =>
          -- what has arrived is what the other end wrote at this position
          obtain ⟨hlt, rfl, hinrest⟩ := h.head_incoming hfit hop hin
          have hreceive : (s.endpoint side).receive B K
              (reached K s.endpoint script side (pos side))
              ((s.endpoint side.other).content B K msg) msg = _ :=
            receive_content B K _ _ (hfit.sizes side.other) _ (hfit.fits hop)
          rw [hin] at hs
          dsimp only at hs
          rw [hreceive] at hs
          dsimp only at hs
          obtain rfl := Option.some.inj hs
          refine ⟨_, h.recv hlt hpos rfl ?_ ?_⟩
          · rw [← reached_recv hop, ← hrest]
            rfl
          · rw [← hinrest]
            rfl

/-- An end that is not over can go on, or it waits for one that is not ahead of it. -/
theorem enabled_or_waits (hfit : Fit endpoint script) (h : InStep B K endpoint script s pos)
    {side : Side} (hover : (s.progress side).over = false) :
    (s.step B K side).isSome = true ∨
      (∃ msg, (script side)[pos side]? = some (.recv msg)) ∧ pos side.other ≤ pos side := by
  have hprogress := h.progress_of_not_over hfit hover
  have hops : (s.progress side).ops = (script side).drop (pos side) := by rw [hprogress]; rfl
  unfold UpgradeLink.step
  dsimp only
  rw [hover, if_neg (by simp), hops]
  cases hdrop : (script side).drop (pos side) with
  | nil => exact Or.inl rfl
  | cons op ops =>
    have hop : (script side)[pos side]? = some op := by
      rw [← List.head?_drop, hdrop]
      rfl
    cases op with
    | send msg => exact Or.inl rfl
    | recv msg =>
      cases hin : s.incoming side with
      | nil =>
        refine Or.inr ⟨⟨msg, hop⟩, ?_⟩
        by_contra hle
        rw [h.incoming, inFlight_recv (by omega), written_op (hfit.getElem? hop)] at hin
        simp at hin
      | cons m rest =>
        refine Or.inl ?_
        dsimp only
        split
        · rfl
        · rfl

/-- An end that waits has a message to read next. -/
theorem waits_op (hfit : Fit endpoint script) (h : InStep B K endpoint script s pos) {side : Side}
    (hw : s.Waits side) : ∃ msg, (script side)[pos side]? = some (.recv msg) := by
  obtain ⟨hover, msg, ops, hops⟩ := hw
  rw [h.progress_of_not_over hfit hover] at hops
  refine ⟨msg, ?_⟩
  have hhead := List.head?_drop (l := script side) (i := pos side)
  rw [← hhead, show (script side).drop (pos side) = .recv msg :: ops from hops]
  rfl

/-- Two ends in the same operation do not both read. -/
theorem not_both_read (hfit : Fit endpoint script) {side : Side} {msg msg' : UpgradeMsg}
    (hop : (script side)[pos side]? = some (.recv msg))
    (hop' : (script side.other)[pos side.other]? = some (.recv msg')) :
    pos side ≠ pos side.other := by
  intro heq
  have hmirror := hfit.getElem? hop
  rw [heq, hop'] at hmirror
  simp [UpgradeOp.mirror] at hmirror

/-- An end that is through has done everything. -/
theorem upgraded_pos (h : InStep B K endpoint script s pos) {side : Side} {remote_peer : PeerInfo}
    (hu : (s.progress side).upgraded = some remote_peer) :
    pos side = (script side).length ∧ s.progress side =
      { reached K endpoint script side (pos side) with
        upgraded := (endpoint side.other).localPeer.parse } := by
  rcases h.progress side with hp | hp
  · rw [hp] at hu
    simp [reached] at hu
  · exact hp

/-- Neither end has failed. -/
theorem not_failed (h : InStep B K endpoint script s pos) (side : Side) :
    (s.progress side).failed = false := by
  rcases h.progress side with hp | ⟨-, hp⟩
  · rw [hp]
    rfl
  · rw [hp]
    rfl

/-- Two ends that are not both through can go on. -/
theorem advances (hfit : Fit endpoint script) (h : InStep B K endpoint script s pos)
    (hnot : ¬ s.Complete) : ∃ side, (s.step B K side).isSome = true := by
  have hover : ∃ side, (s.progress side).upgraded = none := by
    by_contra hall
    refine hnot fun side => ?_
    cases hu : (s.progress side).upgraded with
    | none => exact absurd ⟨side, hu⟩ hall
    | some remote_peer => exact ⟨remote_peer, rfl⟩
  obtain ⟨side, hu⟩ := hover
  have hover : (s.progress side).over = false := by simp [Progress.over, h.not_failed, hu]
  rcases h.enabled_or_waits hfit hover with
    hs | ⟨⟨msg, hop⟩, hle⟩
  · exact ⟨side, hs⟩
  · have hlt : pos side < (script side).length := (List.getElem?_eq_some_iff.mp hop).1
    -- so the other end is not through, and does not wait for this one
    have hu' : (s.progress side.other).upgraded = none := by
      by_contra hsome
      obtain ⟨remote_peer, hr⟩ := Option.ne_none_iff_exists'.mp hsome
      have := (h.upgraded_pos hr).1
      rw [hfit.length] at this
      omega
    have hover' : (s.progress side.other).over = false := by
      simp [Progress.over, h.not_failed, hu']
    rcases h.enabled_or_waits hfit hover' with hs | ⟨⟨msg', hop'⟩, hle'⟩
    · exact ⟨side.other, hs⟩
    · rw [Side.other_other] at hle'
      exact absurd (Nat.le_antisymm hle' hle) (not_both_read hfit hop hop')

/-- **Ends in step** keep what is promised. -/
theorem sound (hfit : Fit endpoint script) (h : InStep B K endpoint script s pos)
    (hkey : K.diffieHellman (endpoint .initiator).secret
        (K.publicKey (endpoint .responder).secret) =
      K.diffieHellman (endpoint .responder).secret (K.publicKey (endpoint .initiator).secret)) :
    UpgradeSound B K s where
  noWait := by
    intro h
    obtain ⟨hwaits, hempty⟩ := h
    obtain ⟨msg, hop⟩ := h.waits_op hfit (hwaits .initiator)
    obtain ⟨msg', hop'⟩ := h.waits_op hfit (hwaits .responder)
    have hne : pos .initiator ≠ pos .responder := not_both_read hfit hop hop'
    -- an end that is behind and reads has its message on the way already
    have hmail : ∀ side msg, (script side)[pos side]? = some (.recv msg) →
        ¬ pos side < pos side.other := by
      intro side msg hop hlt
      have hin := hempty side
      rw [h.incoming, inFlight_recv hlt, written_op (hfit.getElem? hop)] at hin
      simp at hin
    have hd := hmail .initiator msg hop
    have ha := hmail .responder msg' hop'
    exact hne (Nat.le_antisymm (Nat.le_of_not_lt ha) (Nat.le_of_not_lt hd))
  readsOwn := by
    intro side hw k bytes rest hin
    obtain ⟨msg, hop⟩ := h.waits_op hfit hw
    obtain ⟨-, hm, -⟩ := h.head_incoming hfit hop hin
    rw [h.progress_of_not_over hfit hw.1]
    show k = ((script side).drop (pos side)).length
    rw [List.length_drop]
    exact (Prod.mk.inj hm).1
  noFailure := h.not_failed
  advances := h.advances hfit
  sameKey := by
    intro hcomplete
    refine ⟨K.diffieHellman (endpoint .initiator).secret (K.publicKey (endpoint .responder).secret),
      fun side => ?_⟩
    obtain ⟨remote_peer, hu⟩ := hcomplete side
    obtain ⟨hpos, hp⟩ := h.upgraded_pos hu
    rw [hp]
    dsimp only [reached]
    rw [hpos, List.take_length, if_pos (hfit.key side)]
    cases side with
    | initiator => rfl
    | responder => exact congrArg some hkey.symm
  samePeers := by
    intro hcomplete side
    obtain ⟨remote_peer, hu⟩ := hcomplete side
    obtain ⟨hpos, hp⟩ := h.upgraded_pos hu
    rw [hp, h.endpoints]
    dsimp only [reached]
    rw [hpos, List.take_length, if_pos (hfit.peer side)]
    exact ⟨rfl, rfl⟩

end InStep

end InStep

/-! ## Every pair of ends -/

instance (msg : UpgradeMsg) : Decidable msg.Fits := by
  cases msg with
  | protocol name => exact inferInstanceAs (Decidable (_ < _))
  | _ => exact isTrue trivial

theorem upgrade_names : ∀ t ∈ [TransportOpt.tcp, .udp], ∀ is_initiator ∈ [true, false],
    ∀ op ∈ upgrade t is_initiator, op.msg.Fits := by decide +kernel

/-- The operations of both ends fit together. -/
theorem fit_upgrade (t : TransportOpt) {endpoint : Side → Endpoint}
    (hsizes : ∀ side, (endpoint side).localPeer.Fits)
    (haddrs : ∀ side, (endpoint side).localPeer.parse.isSome = true) :
    Fit endpoint fun side => upgrade t side.isInitiator where
  mirror := by
    intro side
    cases side with
    | initiator => exact upgrade_mirror t
    | responder => cases t with | _ => rfl
  names := by
    intro side
    exact upgrade_names t (by cases t with | _ => decide) _ (by cases side with | _ => decide)
  key := by
    intro side
    cases side with
    | _ => cases t with | _ => decide
  peer := by
    intro side
    cases side with
    | _ => cases t with | _ => decide
  sizes := hsizes
  addrs := haddrs

/-- Two ends that have not begun are in step. -/
theorem InStep.init {B : UpgradeFormats} {K : KeyAgreement} {t : TransportOpt}
    {endpoint : Side → Endpoint} {s : UpgradeLink} (h : (upgradeLink B K t endpoint).init s) :
    InStep B K endpoint (fun side => upgrade t side.isInitiator) s fun _ => 0 := by
  obtain rfl := h
  refine ⟨rfl, fun _ => Nat.zero_le _, fun side => Or.inl ?_, fun side => ?_, fun _ k _ hk => ?_⟩
  · simp [reached]
  · exact (inFlight_nil (Nat.le_refl 0)).symm
  · omega

/-- **Both ends of an upgrade.** Whatever the ends call themselves and in whatever order they take
their steps: they do not wait for each other with nothing in flight, each message is read in the
operation it was written for, neither end fails, and once both are through they have the same key
and each other's `PeerInfo`. -/
theorem upgrade_agrees (B : UpgradeFormats) (K : KeyAgreement) (t : TransportOpt)
    (endpoint : Side → Endpoint)
    (hkey : K.diffieHellman (endpoint .initiator).secret
        (K.publicKey (endpoint .responder).secret) =
      K.diffieHellman (endpoint .responder).secret (K.publicKey (endpoint .initiator).secret))
    (hsizes : ∀ side, (endpoint side).localPeer.Fits)
    (haddrs : ∀ side, (endpoint side).localPeer.parse.isSome = true)
    {as : List Side} {s : UpgradeLink} (h : (upgradeLink B K t endpoint).Run as s) :
    UpgradeSound B K s := by
  have hfit := fit_upgrade t hsizes haddrs
  have hinv : ∃ pos, InStep B K endpoint (fun side => upgrade t side.isInitiator) s pos := by
    refine h.invariant (fun s => ∃ pos, InStep B K endpoint _ s pos) ?_ ?_
    · exact fun s hs => ⟨_, InStep.init hs⟩
    · intro s side s' hs _ hstep
      obtain ⟨pos, hs⟩ := hs
      exact hs.step hfit hstep
  obtain ⟨pos, hpos⟩ := hinv
  exact hpos.sound hfit hkey

/-- The fields of a `PeerInfo`, in their order. -/
def peerInfoFields : String × String ≃ SentPeerInfo where
  toFun f := ⟨f.1, f.2⟩
  invFun sent := (sent.peer_id, sent.listen_addr)
  left_inv _ := rfl
  right_inv _ := rfl

/-- Field behind field. -/
def upgradeFormats : UpgradeFormats where
  name := textBincode
  peerInfo := ((Wire.text.pair Wire.text).along peerInfoFields.toPEquiv).bincode fun h =>
    (Wire.along_fits ..).mpr ⟨Wire.text_fits.mpr h.1, Wire.text_fits.mpr h.2⟩

/-- The node `a`, which dials, and the node `b`. -/
def sampleEndpoint : Side → Endpoint
  | .initiator => ⟨sampleSecret .initiator, "a", "/ip4/127.0.0.1/tcp/4000/p2p/a"⟩
  | .responder => ⟨sampleSecret .responder, "b", "/ip4/127.0.0.1/tcp/4001/p2p/b"⟩

/-- One message after the other; at `identify` the accepting end is the first to write. -/
def upgradeBoth : List Side :=
  (List.replicate 5 [.initiator, .responder, .responder, .initiator]).flatten ++
    [.responder, .initiator, .initiator, .responder] ++
    (List.replicate 2 [.initiator, .responder, .responder, .initiator]).flatten ++
    [.initiator, .responder]

theorem sampleEndpoint_key :
    x25519.diffieHellman (sampleEndpoint .initiator).secret
        (x25519.publicKey (sampleEndpoint .responder).secret) =
      x25519.diffieHellman (sampleEndpoint .responder).secret
        (x25519.publicKey (sampleEndpoint .initiator).secret) := by decide +kernel

theorem upgradeBoth_enabled :
    ((upgradeLink upgradeFormats x25519 .tcp sampleEndpoint).exec (fun _ _ => True)
      ⟨sampleEndpoint, fun side => { ops := upgrade .tcp side.isInitiator }, fun _ => []⟩
      upgradeBoth).any
      (fun s => (s.progress .initiator).upgraded.isSome ∧ (s.progress .responder).upgraded.isSome)
        = true := by decide +kernel

theorem upgrade_agrees_both :
    ∃ s, (upgradeLink upgradeFormats x25519 .tcp sampleEndpoint).Run upgradeBoth s ∧ s.Complete ∧
      UpgradeSound upgradeFormats x25519 s := by
  obtain ⟨s, hs, hdone⟩ := (Option.any_eq_true ..).mp upgradeBoth_enabled
  obtain ⟨hd, ha⟩ := of_decide_eq_true hdone
  have hrun := runUnder_of_exec rfl hs
  refine ⟨s, hrun, fun side => ?_, upgrade_agrees upgradeFormats x25519 .tcp sampleEndpoint
    sampleEndpoint_key ?_ ?_ hrun⟩
  · cases side with
    | initiator => exact Option.isSome_iff_exists.mp hd
    | responder => exact Option.isSome_iff_exists.mp ha
  · intro side
    cases side with
    | _ => decide +kernel
  · intro side
    cases side with
    | _ => decide +kernel

end Rnet.Swarm
