import Rnet.Mplex.Delivery
import Rnet.Tcp.Handler
import Rnet.Ping.Engine
import Rnet.Lib.Flood
import Rnet.Floodsub.PubSub
import Rnet.Floodsub.Network
import Rnet.Floodsub.Registry
import Rnet.Lib.SeenSet
import Rnet.Floodsub.Dedup
import Rnet.Swarm.Inner
import Rnet.Swarm.Lifecycle
import Rnet.Swarm.Overlap
import Rnet.Lib.WaitGraph
import Rnet.Swarm.Dial
import Rnet.Floodsub.Hello
import Rnet.Mplex.Negotiation
import Rnet.Mplex.Close
import Rnet.Mplex.Recipient
import Rnet.Mplex.Bounded
import Rnet.Mplex.CircularWait
import Rnet.Floodsub.Tasks
import Rnet.Floodsub.Deadlock
import Rnet.Lib.Aead
import Rnet.Lib.X25519
import Rnet.Security.SecureConn
import Rnet.Udp.IoLoop
import Rnet.Udp.Entry
import Rnet.Udp.DialAck
import Rnet.Floodsub.SeenCalls
import Rnet.Swarm.Internal
import Rnet.Udp.FrameSize
import Rnet.Udp.AcceptLoop
import Rnet.Swarm.Registry
import Rnet.Lib.NetText
import Rnet.Swarm.Upgrade
import Rnet.Identity.Address
import Rnet.Swarm.Failure
import Rnet.Lib.Fields
import Rnet.Node.Headers
import Rnet.Node.Commands
import Rnet.Lib.RowReduction
import Rnet.Ping.Field
import Rnet.Ping.Elimination
import Rnet.Ping.Decode
import Rnet.Lib.Isolation
import Rnet.Ping.Isolation
import Rnet.Ping.Complete
import Rnet.Ping.Malformed
import Rnet.Ping.Exchange
import Rnet.Ping.Count
import Rnet.Floodsub.StaleTopics
import Rnet.Floodsub.TaskTurns
import Rnet.Floodsub.SendLoops
import Rnet.Swarm.PeerStore
import Rnet.Node.Mesh
import Rnet.Tcp.Stream
import Rnet.Mplex.Parsing
import Rnet.Mplex.Counter
import Rnet.Floodsub.View
import Rnet.Floodsub.ApiFrame
import Rnet.Lib.EarlyExit
import Rnet.Floodsub.Batches
import Rnet.Floodsub.Incoming
import Rnet.Lib.Loop
import Rnet.Lib.Index
import Rnet.Node.FrameIndex
import Rnet.Lib.Ending
import Rnet.Identity.Edit
import Rnet.Lib.NetGrammar
import Rnet.Identity.Parse
import Rnet.Identity.Reparse
import Rnet.Lib.Refinement
import Rnet.Tcp.Stack
import Rnet.Lib.Progress
import Rnet.Mplex.Steady
import Rnet.Mplex.Progress
import Rnet.Lib.Wire
import Rnet.Ping.Frames
import Rnet.Ping.Lane
import Rnet.Ping.Rounds
import Rnet.Ping.Plain
import Rnet.Identity.Events
import Rnet.Floodsub.EventTurns
import Rnet.Floodsub.Events
import Rnet.Node.Listen
