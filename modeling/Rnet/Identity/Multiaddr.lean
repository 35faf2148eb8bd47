import Mathlib.Data.BitVec

/-!
# Multiaddresses and peers: `identity/src/multiaddr.rs`, `identity/src/peer.rs`

A `Multiaddr` is the list of its components. `value_for_protocol` takes the first
component of a protocol; the swarm asks it for `"p2p"` and for whether there is a `"udp"` or a
`"tcp"` component, so there is a definition for each of the three.
-/

namespace Rnet.Identity

/-- `Protocol`. -/
inductive Protocol
  | ip4 (ip : BitVec 32)
  | ip6 (ip : BitVec 128)
  | tcp (port : UInt16)
  | udp (port : UInt16)
  | p2p (peer_id : String)
  deriving DecidableEq, Repr

/-- `Multiaddr`. -/
structure Multiaddr where
  components : List Protocol
  deriving DecidableEq, Repr

/-- `value_for_protocol("p2p")`. -/
def Multiaddr.valueForP2p (addr : Multiaddr) : Option String :=
  addr.components.findSome? fun
    | .p2p peer_id => some peer_id
    | _ => none

/-- `value_for_protocol("udp")`, before it is printed. -/
def Multiaddr.valueForUdp (addr : Multiaddr) : Option UInt16 :=
  addr.components.findSome? fun
    | .udp port => some port
    | _ => none

/-- `value_for_protocol("tcp")`, before it is printed. -/
def Multiaddr.valueForTcp (addr : Multiaddr) : Option UInt16 :=
  addr.components.findSome? fun
    | .tcp port => some port
    | _ => none

/-- `PeerInfo`, with an address that parses: `MuxedConn::new` panics on one that does not. -/
structure PeerInfo where
  peerId : String
  listenAddr : Multiaddr
  deriving DecidableEq, Repr

end Rnet.Identity
