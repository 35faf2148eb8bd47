import Rnet.Swarm.Upgrade
import Rnet.Identity.Reparse

/-!
# The address a node listens on

`NodeInner::new` puts the node's peer id behind the address it is given and selects the transport
by it; `SwarmInner::new` lets the transport bind the address and writes the port that it got into
the address, whose text is what `identify` tells the other nodes. They parse it and dial it.

> `listen_address`: a node starts exactly if the address has an IPv4 component and a port for its
> transport and the socket can be bound; and whoever parses what a node tells of itself dials the
> socket that the node is bound to.
-/

namespace Rnet.Node

open Rnet.Lib.NetText
open Rnet.Identity
open Rnet.Swarm (TransportOpt SentPeerInfo)

/-! ## The code -/

/-- An IPv4 `SocketAddr`. -/
structure SocketAddr where
  ip : BitVec 32
  port : UInt16
  deriving DecidableEq, Repr

namespace SocketAddr

/-- `SocketAddr::to_string`. -/
def text (socket : SocketAddr) : List Char :=
  showIpv4 (octets socket.ip) ++ ':' :: Nat.toDigits 10 socket.port.toNat

/-- `SocketAddr::from_str`, of an IPv4 address: the number behind the colon may have any length. -/
def parse (text : List Char) : Option SocketAddr :=
  match readIpv4 text with
  | some (octets, ':' :: rest) =>
    match readNumber 10 rest.length true 65536 rest with
    | some (port, []) => some ⟨BitVec.ofNat 32 (value 256 octets), UInt16.ofNat port⟩
    | _ => none
  | _ => none

end SocketAddr

/-- The name of the transport's port in an address. -/
def portName : TransportOpt → String
  | .tcp => "tcp"
  | .udp => "udp"

/-- The IPv4 address and the port of `portName t`, formatted and parsed. -/
def socketOf (t : TransportOpt) (addr : Multiaddr) : Option SocketAddr := do
  let local_ip ← addr.valueForProtocol "ip4"
  let port ← addr.valueForProtocol (portName t)
  SocketAddr.parse (local_ip.toList ++ ':' :: port.toList)

/-- `extract_socket_addr` of the UDP transport. -/
def extractSocketAddr (addr : Multiaddr) : Option (SocketAddr × String) := do
  let local_peer_id ← addr.valueForProtocol "p2p"
  let addr ← socketOf .udp addr
  some (addr, local_peer_id)

/-- The socket address that `listen` binds and `Transport::dial` connects to. -/
def transportAddr : TransportOpt → Multiaddr → Option SocketAddr
  | .tcp, addr => socketOf .tcp addr
  | .udp, addr => (extractSocketAddr addr).map Prod.fst

/-- The transport that an address selects. -/
def transportOpt (listen_addr : Multiaddr) : TransportOpt :=
  match listen_addr.valueForProtocol "tcp" with
  | some _ => .tcp
  | none => .udp

section Start

variable (bind : SocketAddr → Option SocketAddr)

/-- `SwarmInner::new`, with `bind` as the kernel does it: the `PeerInfo` of the node, and the
socket of its listener. -/
def swarmInnerNew (transport_opt : TransportOpt) (listen_addr : Multiaddr) (peer_id : String) :
    Option (SentPeerInfo × SocketAddr) := do
  let listener ← (transportAddr transport_opt listen_addr).bind bind
  let port ← (listener.text.splitOn ':')[1]?
  match listen_addr.replaceValueForProtocol (portName (transportOpt listen_addr))
      (String.ofList port) with
  | (.ok (), listen_addr) => some ({ peer_id, listen_addr := listen_addr.toString }, listener)
  | (.error _, _) => none

/-- `NodeInner::new` once the key pair has been read or generated and `peer_id` made of it. A
private key in hex that does not parse stops the start before that. -/
def nodeInnerNew (listen_addr : Multiaddr) (peer_id : String) :
    Option (SentPeerInfo × SocketAddr) :=
  let listen_addr := listen_addr.pushProto (.p2p peer_id)
  swarmInnerNew bind (transportOpt listen_addr) listen_addr peer_id

end Start

/-! ## Socket addresses -/

/-- A socket address parses to itself. -/
theorem parse_text (socket : SocketAddr) : SocketAddr.parse socket.text = some socket := by
  have hlen : (octets socket.ip).length = 4 := length_fixedDigits 256 4 socket.ip.toNat
  have hlt : ∀ octet ∈ octets socket.ip, octet < 256 := fixedDigits_lt (by omega) 4 socket.ip.toNat
  have hread := readIpv4_showIpv4 hlen hlt (':' :: Nat.toDigits 10 socket.port.toNat) rfl
  have hlow : socket.port.toNat < 65536 := socket.port.toNat_lt
  have hport := readNumber_toDigits (show 1 < 10 by omega) (by omega) hlow (Nat.le_refl _) true []
    rfl
  rw [List.append_nil] at hport
  unfold SocketAddr.parse SocketAddr.text
  simp only [hread, hport]
  show some (⟨BitVec.ofNat 32 (value 256 (octets socket.ip)), _⟩ : SocketAddr) = _
  rw [octets, value_fixedDigits 256 4 socket.ip.isLt, BitVec.ofNat_toNat, BitVec.setWidth_eq,
    UInt16.ofNat_toNat]

/-- What is behind the colon of a socket address is its port. -/
theorem splitOn_text (socket : SocketAddr) :
    (socket.text.splitOn ':')[1]? = some (Nat.toDigits 10 socket.port.toNat) := by
  have hdigit : ∀ d < 16, Nat.digitChar d ≠ ':' := by decide
  have hparts : ∀ part ∈ [showIpv4 (octets socket.ip), Nat.toDigits 10 socket.port.toNat],
      ':' ∉ part := by
    refine List.forall_mem_cons.mpr ⟨fun hc => ?_, List.forall_mem_singleton.mpr fun hc => ?_⟩
    · rcases mem_showIpv4 hc with hdot | ⟨d, hd, heq⟩
      · exact absurd hdot (by decide)
      · exact hdigit d hd heq.symm
    · obtain ⟨d, hd, heq⟩ := digitChar_of_mem (by omega) (by omega) hc
      exact hdigit d hd heq.symm
  have hsplit := List.splitOn_intercalate ':' hparts (by simp)
  have htext : [':'].intercalate [showIpv4 (octets socket.ip), Nat.toDigits 10 socket.port.toNat] =
      socket.text := by
    simp [SocketAddr.text, List.intercalate, List.intersperse]
  rw [htext] at hsplit
  rw [hsplit]
  rfl

/-! ## The components of an address -/

def ipOf : Protocol → Option (BitVec 32)
  | .ip4 ip => some ip
  | _ => none

def portOf : TransportOpt → Protocol → Option UInt16
  | .tcp, .tcp port => some port
  | .udp, .udp port => some port
  | _, _ => none

/-- The component of a port. -/
def portProtocol : TransportOpt → UInt16 → Protocol
  | .tcp, port => .tcp port
  | .udp, port => .udp port

/-- The first IPv4 address and the first port for the transport. -/
structure Names (addr : Multiaddr) (t : TransportOpt) (socket : SocketAddr) : Prop where
  ip : addr.components.findSome? ipOf = some socket.ip
  port : addr.components.findSome? (portOf t) = some socket.port

theorem valueForProtocol_ip4 (addr : Multiaddr) : addr.valueForProtocol "ip4" =
    (addr.components.findSome? ipOf).map fun ip => String.ofList (showIpv4 (octets ip)) := by
  unfold Multiaddr.valueForProtocol
  rw [List.map_findSome?]
  congr 1
  funext protocol
  cases protocol with
  | ip4 ip => exact if_pos rfl
  | _ => exact if_neg (by simp [Protocol.IsOf, Protocol.name])

theorem valueForProtocol_port (t : TransportOpt) (addr : Multiaddr) :
    addr.valueForProtocol (portName t) = (addr.components.findSome? (portOf t)).map
      fun port => String.ofList (Nat.toDigits 10 port.toNat) := by
  unfold Multiaddr.valueForProtocol
  rw [List.map_findSome?]
  congr 1
  funext protocol
  cases t with
  | tcp =>
    cases protocol with
    | tcp port => exact if_pos rfl
    | _ => exact if_neg (by simp [Protocol.IsOf, Protocol.name, portName])
  | udp =>
    cases protocol with
    | udp port => exact if_pos rfl
    | _ => exact if_neg (by simp [Protocol.IsOf, Protocol.name, portName])

/-- **What is formatted is parsed**: the first IPv4 address and the first port. -/
theorem socketOf_eq_some {t : TransportOpt} {addr : Multiaddr} {socket : SocketAddr} :
    socketOf t addr = some socket ↔ Names addr t socket := by
  unfold socketOf
  rw [valueForProtocol_ip4, valueForProtocol_port]
  cases hip : addr.components.findSome? ipOf with
  | none => exact ⟨fun h => absurd h (by simp), fun h => absurd (hip.symm.trans h.ip) (by simp)⟩
  | some ip =>
    cases hport : addr.components.findSome? (portOf t) with
    | none =>
      exact ⟨fun h => absurd h (by simp), fun h => absurd (hport.symm.trans h.port) (by simp)⟩
    | some port =>
      have hparse : SocketAddr.parse (showIpv4 (octets ip) ++ ':' :: Nat.toDigits 10 port.toNat) =
          some ⟨ip, port⟩ := parse_text ⟨ip, port⟩
      simp only [Option.map_some, Option.bind_eq_bind, Option.bind_some, String.toList_ofList,
        hparse]
      constructor
      · intro h
        obtain rfl := Option.some.inj h
        exact ⟨hip, hport⟩
      · intro h
        obtain rfl := Option.some.inj (hip.symm.trans h.ip)
        obtain rfl := Option.some.inj (hport.symm.trans h.port)
        rfl

/-- Where there is a peer id, the transports find the same. -/
theorem transportAddr_eq_some {t : TransportOpt} {addr : Multiaddr} {socket : SocketAddr}
    (hid : addr.valueForP2p ≠ none) : transportAddr t addr = some socket ↔ Names addr t socket := by
  cases t with
  | tcp => exact socketOf_eq_some
  | udp =>
    obtain ⟨peer_id, hpeer⟩ := Option.ne_none_iff_exists'.mp hid
    have hvalue := (valueForProtocol_p2p addr).trans hpeer
    show (extractSocketAddr addr).map Prod.fst = some socket ↔ _
    unfold extractSocketAddr
    rw [hvalue, ← socketOf_eq_some]
    cases socketOf .udp addr with
    | none => simp
    | some socket' => simp

theorem transportOpt_eq (addr : Multiaddr) : transportOpt addr =
    if (addr.components.findSome? (portOf .tcp)).isSome then .tcp else .udp := by
  have hport := valueForProtocol_port .tcp addr
  unfold transportOpt
  rw [show "tcp" = portName .tcp from rfl, hport]
  cases addr.components.findSome? (portOf .tcp) with
  | none => rfl
  | some port => rfl

/-! ## The port that was bound -/

/-- `addr'` is `addr` with another first port, and with the peer id behind it. -/
structure Published (addr : Multiaddr) (t : TransportOpt) (port : UInt16) (peer_id : String)
    (addr' : Multiaddr) : Prop where
  other : ∀ {β : Type} (f : Protocol → Option β),
    (∀ p p', f (portProtocol t p) = f (portProtocol t p')) →
      addr'.components.findSome? f = (addr.components.findSome? f).or (f (.p2p peer_id))
  port : addr'.components.findSome? (portOf t) = some port

/-- **The port is written** where it was read. -/
theorem replace_port {t : TransportOpt} {addr : Multiaddr} {asked : UInt16}
    (h : addr.components.findSome? (portOf t) = some asked) (port : UInt16) (peer_id : String) :
    ∃ addr', (addr.pushProto (.p2p peer_id)).replaceValueForProtocol (portName t)
      (String.ofList (Nat.toDigits 10 port.toNat)) = (.ok (), addr') ∧
        Published addr t port peer_id addr' := by
  obtain ⟨before, protocol, after, hsplit, hprotocol, hbefore⟩ := List.findSome?_eq_some_iff.mp h
  -- the component that was read is the one that is written
  obtain rfl : protocol = portProtocol t asked := by
    cases t <;> cases protocol <;> simp_all [portOf, portProtocol]
  have hfirst : FirstOf (portName t) (addr.pushProto (.p2p peer_id)).components before
      (portProtocol t asked) (after ++ [.p2p peer_id]) := by
    refine ⟨?_, by cases t <;> rfl, fun p hp hisOf => ?_⟩
    · rw [Multiaddr.pushProto, hsplit, List.append_assoc]
      rfl
    · have hnone := hbefore p hp
      cases t <;> cases p <;> simp_all [portOf, Protocol.IsOf, Protocol.name, portName]
  have hassign : (portProtocol t asked).assign (String.ofList (Nat.toDigits 10 port.toNat)) =
      .ok (portProtocol t port) := by
    cases t with
    | tcp | udp =>
      simp only [portProtocol, Protocol.assign, String.toList_ofList, parsePort_toDigits]
      rfl
  refine ⟨⟨before ++ portProtocol t port :: (after ++ [.p2p peer_id])⟩, ?_, fun f hf => ?_, ?_⟩
  · rcases replaceFrom_first hfirst (String.ofList (Nat.toDigits 10 port.toNat)) with
      ⟨e, herror, -⟩ | ⟨protocol', hok, hloop⟩ | ⟨hip, -⟩
    · exact absurd (hassign.symm.trans herror) (by simp)
    · obtain rfl := Except.ok.inj (hassign.symm.trans hok)
      rw [Multiaddr.replaceValueForProtocol, hloop]
    -- only a write under `ip4` goes on behind the first component
    · cases t <;> exact absurd hip (by decide)
  · show (before ++ portProtocol t port :: (after ++ [.p2p peer_id])).findSome? f = _
    have hsame : (before ++ portProtocol t port :: after).findSome? f =
        (before ++ portProtocol t asked :: after).findSome? f := by
      rw [List.findSome?_append, List.findSome?_append, List.findSome?_cons, List.findSome?_cons,
        hf port asked]
    rw [hsplit, ← hsame, ← List.cons_append, ← List.append_assoc, List.findSome?_append,
      List.findSome?_singleton]
  · show (before ++ portProtocol t port :: (after ++ [.p2p peer_id])).findSome? (portOf t) = _
    have hport : portOf t (portProtocol t port) = some port := by cases t <;> rfl
    rw [List.findSome?_append, List.findSome?_eq_none_iff.mpr hbefore, Option.none_or,
      List.findSome?_cons, hport]

/-! ## Starting a node -/

section Start

variable {bind : SocketAddr → Option SocketAddr} {addr addr' : Multiaddr} {t : TransportOpt}
  {peer_id : String} {port : UInt16}

/-- The peer id behind the address is no IPv4 address and no port. -/
theorem findSome?_pushProto {β : Type} (f : Protocol → Option β) (addr : Multiaddr)
    (peer_id : String) : (addr.pushProto (.p2p peer_id)).components.findSome? f =
      (addr.components.findSome? f).or (f (.p2p peer_id)) := by
  rw [Multiaddr.pushProto, List.findSome?_append, List.findSome?_singleton]

theorem names_pushProto {socket : SocketAddr} :
    Names (addr.pushProto (.p2p peer_id)) t socket ↔ Names addr t socket := by
  have hip : (addr.pushProto (.p2p peer_id)).components.findSome? ipOf =
      addr.components.findSome? ipOf := (findSome?_pushProto ..).trans (Option.or_none ..)
  have hport : (addr.pushProto (.p2p peer_id)).components.findSome? (portOf t) =
      addr.components.findSome? (portOf t) := by
    rw [findSome?_pushProto]
    cases t <;> exact Option.or_none
  constructor
  · exact fun h => ⟨hip ▸ h.ip, hport ▸ h.port⟩
  · exact fun h => ⟨hip.trans h.ip, hport.trans h.port⟩

theorem transportOpt_pushProto (addr : Multiaddr) (peer_id : String) :
    transportOpt (addr.pushProto (.p2p peer_id)) = transportOpt addr := by
  have hport : (addr.pushProto (.p2p peer_id)).components.findSome? (portOf .tcp) =
      addr.components.findSome? (portOf .tcp) := (findSome?_pushProto ..).trans (Option.or_none ..)
  rw [transportOpt_eq, transportOpt_eq, hport]

theorem nodeInnerNew_eq_swarm (bind : SocketAddr → Option SocketAddr) (addr : Multiaddr)
    (peer_id : String) : nodeInnerNew bind addr peer_id =
      swarmInnerNew bind (transportOpt addr) (addr.pushProto (.p2p peer_id)) peer_id := by
  have hopt := transportOpt_pushProto addr peer_id
  show swarmInnerNew bind (transportOpt (addr.pushProto (.p2p peer_id))) _ peer_id = _
  rw [hopt]

theorem valueForP2p_pushProto (addr : Multiaddr) (peer_id : String) :
    (addr.pushProto (.p2p peer_id)).valueForP2p = addr.valueForP2p.or (some peer_id) :=
  findSome?_pushProto _ addr peer_id

/-- **A node starts** with the port that it got in the place of the one in the address. -/
theorem nodeInnerNew_eq {asked listener : SocketAddr}
    (hnames : Names addr (transportOpt addr) asked) (hbind : bind asked = some listener) :
    ∃ addr', nodeInnerNew bind addr peer_id =
        some ({ peer_id, listen_addr := addr'.toString }, listener) ∧
      Published addr (transportOpt addr) listener.port peer_id addr' ∧
      (addr.pushProto (.p2p peer_id)).replaceValueForProtocol (portName (transportOpt addr))
        (String.ofList (Nat.toDigits 10 listener.port.toNat)) = (.ok (), addr') := by
  obtain ⟨addr', hreplace, hpublished⟩ := replace_port hnames.port listener.port peer_id
  refine ⟨addr', ?_, hpublished, hreplace⟩
  have hid : (addr.pushProto (.p2p peer_id)).valueForP2p ≠ none := by
    rw [valueForP2p_pushProto]
    cases addr.valueForP2p <;> simp
  have hsocket := (transportAddr_eq_some hid).mpr (names_pushProto.mpr hnames)
  rw [nodeInnerNew_eq_swarm]
  unfold swarmInnerNew
  rw [hsocket, Option.bind_some, hbind]
  simp only [Option.bind_eq_bind, Option.bind_some, splitOn_text, transportOpt_pushProto, hreplace]

/-- A node that has started has bound a socket. -/
theorem names_of_nodeInnerNew {sent : SentPeerInfo} {listener : SocketAddr}
    (h : nodeInnerNew bind addr peer_id = some (sent, listener)) :
    ∃ asked, Names addr (transportOpt addr) asked ∧ bind asked = some listener := by
  rw [nodeInnerNew_eq_swarm] at h
  unfold swarmInnerNew at h
  obtain ⟨listener', hlistener, h⟩ := Option.bind_eq_some_iff.mp h
  obtain ⟨asked, hasked, hbind⟩ := Option.bind_eq_some_iff.mp hlistener
  have hid : (addr.pushProto (.p2p peer_id)).valueForP2p ≠ none := by
    rw [valueForP2p_pushProto]
    cases addr.valueForP2p <;> simp
  obtain ⟨port, -, h⟩ := Option.bind_eq_some_iff.mp h
  split at h
  · obtain ⟨-, rfl⟩ := Prod.mk.inj (Option.some.inj h)
    exact ⟨asked, names_pushProto.mp ((transportAddr_eq_some hid).mp hasked), hbind⟩
  · exact absurd h (by simp)

/-- What others find in the address of a node: its transport, its socket, and the peer id, unless
the address that the node was given has another one. -/
structure Dials (addr : Multiaddr) (peer_id : String) (listener : SocketAddr) (addr' : Multiaddr) :
    Prop where
  transport : transportOpt addr' = transportOpt addr
  socket : transportAddr (transportOpt addr) addr' = some listener
  peer : addr'.valueForProtocol "p2p" = some peer_id ↔
    ∀ id, addr.valueForProtocol "p2p" = some id → id = peer_id

theorem Published.dials {asked listener : SocketAddr}
    (h : Published addr (transportOpt addr) listener.port peer_id addr')
    (hnames : Names addr (transportOpt addr) asked) (hip : listener.ip = asked.ip) :
    Dials addr peer_id listener addr' := by
  have hid : addr'.valueForP2p = addr.valueForP2p.or (some peer_id) :=
    h.other _ fun p p' => by cases transportOpt addr <;> rfl
  have hnames' : Names addr' (transportOpt addr) listener := by
    refine ⟨?_, h.port⟩
    rw [h.other ipOf fun p p' => by cases transportOpt addr <;> rfl, hip, hnames.ip]
    rfl
  refine ⟨?_, (transportAddr_eq_some ?_).mpr hnames', ?_⟩
  · have htcp : (addr'.components.findSome? (portOf .tcp)).isSome =
        (addr.components.findSome? (portOf .tcp)).isSome := by
      cases ht : transportOpt addr with
      | tcp =>
        rw [ht] at h hnames
        rw [h.port, hnames.port]
        rfl
      | udp =>
        rw [ht] at h
        rw [h.other (portOf .tcp) fun p p' => rfl]
        exact congrArg Option.isSome (Option.or_none ..)
    rw [transportOpt_eq, transportOpt_eq, htcp]
  · rw [hid]
    cases addr.valueForP2p <;> simp
  · rw [valueForProtocol_p2p, valueForProtocol_p2p, hid]
    cases addr.valueForP2p with
    | none => simp
    | some id => simp

end Start

/-- **The address a node listens on.** A node starts exactly if its address has an IPv4 address and
a port for its transport and the socket can be bound. What it tells of itself then can be parsed,
and gives its transport and the socket that it is bound to, whatever port the kernel chose; and its
peer id, unless the address it was given has another one. -/
theorem listen_address {bind : SocketAddr → Option SocketAddr}
    (hbind : ∀ asked listener, bind asked = some listener → listener.ip = asked.ip)
    {text : String} {addr : Multiaddr} (haddr : Multiaddr.new text = some addr) {peer_id : String}
    (hid : Plain peer_id.toList) :
    ((∃ r, nodeInnerNew bind addr peer_id = some r) ↔
      ∃ asked listener, Names addr (transportOpt addr) asked ∧ bind asked = some listener) ∧
    ∀ sent listener, nodeInnerNew bind addr peer_id = some (sent, listener) →
      ∃ addr', sent.parse = some ⟨peer_id, addr'⟩ ∧ Dials addr peer_id listener addr' := by
  refine ⟨⟨fun h => ?_, fun h => ?_⟩, fun sent listener h => ?_⟩
  · obtain ⟨⟨sent, listener⟩, hr⟩ := h
    obtain ⟨asked, hnames, hlistener⟩ := names_of_nodeInnerNew hr
    exact ⟨asked, listener, hnames, hlistener⟩
  · obtain ⟨asked, listener, hnames, hlistener⟩ := h
    obtain ⟨addr', hr, -⟩ := nodeInnerNew_eq hnames hlistener
    exact ⟨_, hr⟩
  · obtain ⟨asked, hnames, hlistener⟩ := names_of_nodeInnerNew h
    obtain ⟨addr', hr, hpublished, hreplace⟩ := nodeInnerNew_eq hnames hlistener
    obtain ⟨rfl, -⟩ := Prod.mk.inj (Option.some.inj (h.symm.trans hr))
    have hpush : (Edit.push (.p2p peer_id)).PlainId := fun id he => Protocol.p2p.inj he ▸ hid
    have hname : ∀ t, portName t ≠ "p2p" := fun t => by cases t <;> decide
    have hport : (Edit.replace (portName (transportOpt addr))
        (String.ofList (Nat.toDigits 10 listener.port.toNat))).PlainId :=
      fun he => absurd he (hname _)
    have hprintable : addr'.Printable := by
      have h' := ((printable_of_new haddr).pushProto hpush).replaceValueForProtocol hport
      rw [hreplace] at h'
      exact h'
    refine ⟨addr', ?_, hpublished.dials hnames (hbind asked listener hlistener)⟩
    unfold SentPeerInfo.parse
    rw [hprintable.new_toString]
    rfl

/-- A kernel that chooses a port where none is asked for. -/
def choosesPort (asked : SocketAddr) : Option SocketAddr :=
  some { asked with port := if asked.port = 0 then 49152 else asked.port }

/-- `ip4/127.0.0.1/tcp/0` -/
def anyPort : Multiaddr := ⟨[.ip4 0x7f000001#32, .tcp 0]⟩

theorem anyPort_new : Multiaddr.new "ip4/127.0.0.1/tcp/0" = some anyPort := by decide +kernel

theorem anyPort_started : (nodeInnerNew choosesPort anyPort "node").map Prod.snd =
    some ⟨0x7f000001#32, 49152⟩ := by decide +kernel

/-- The chosen port is the one that is dialed. -/
theorem listen_address_anyPort : ∃ sent addr',
    nodeInnerNew choosesPort anyPort "node" = some (sent, ⟨0x7f000001#32, 49152⟩) ∧
      sent.parse = some ⟨"node", addr'⟩ ∧ Dials anyPort "node" ⟨0x7f000001#32, 49152⟩ addr' := by
  obtain ⟨r, hr, hlistener⟩ := Option.map_eq_some_iff.mp anyPort_started
  have hstart : nodeInnerNew choosesPort anyPort "node" =
      some (r.1, ⟨0x7f000001#32, 49152⟩) := by rw [hr, ← hlistener]
  have hbind : ∀ asked listener, choosesPort asked = some listener → listener.ip = asked.ip := by
    intro asked listener h
    obtain rfl := Option.some.inj h
    rfl
  have hid : Plain "node".toList := ⟨by decide, by decide⟩
  obtain ⟨addr', hparse, hdials⟩ := (listen_address hbind anyPort_new hid).2 _ _ hstart
  exact ⟨r.1, addr', hstart, hparse, hdials⟩

end Rnet.Node
