import Rnet.Identity.Address
import Rnet.Lib.System
import Rnet.Node.Headers

/-!
# The way of a command: `node/src/{node,inner}.rs`, `swarm/src/{swarm,inner}.rs`

A call of `Node` queues a frame. `NodeInner::run` moves the frames to a `VecDeque` of its own, takes
them from there one at a time, and calls the swarm, which queues a frame of its own.
`SwarmInner::initiate` takes that one and dispatches it. The address of a call is printed twice on
the way and parsed twice. The tasks of the connections queue `Disconnect` frames for the swarm, too.

> `dispatched_calls`: in every run, the commands of the node that the swarm has dispatched are
> the first ones of the calls, in their order and with their arguments, as long as every text
> on the way is shorter than 2³² bytes.

An address can be printed longer than it was given. A length of 2³² bytes and more is cut to 32
bits, and what the swarm then reads is another command.
-/

namespace Rnet.Node

open Rnet.Identity Rnet.Lib
open Rnet.Lib.System (runUnder_of_exec)

/-- A call of `Node`. -/
inductive Call
  | connect (maddr : Multiaddr)
  | newStream (maddr : String) (protocols : List String)
  | onDisconnect (peer_id : String)
  deriving DecidableEq

/-- A command as the swarm dispatches it. -/
inductive HostCommand
  | connect (maddr : Multiaddr)
  | newStream (maddr : Multiaddr) (protocols : List String)
  | disconnect (peer_id : String)
  deriving DecidableEq

/-- What a call asks for, if its address is one. -/
def Call.command : Call → Option HostCommand
  | .connect maddr => some (.connect maddr)
  | .newStream maddr protocols => (Multiaddr.new maddr).map fun m => .newStream m protocols
  | .onDisconnect peer_id => some (.disconnect peer_id)

/-- The frame that a call of `Node` writes. -/
def Call.frame : Call → List UInt8
  | .connect maddr => buildHostFrame .connect maddr.toString none
  | .newStream maddr protocols => buildHostFrame .newStream maddr (some protocols)
  | .onDisconnect peer_id => buildHostFrame .disconnect peer_id none

/-- `Swarm::connect`: the frame that it writes. -/
def swarmConnect (maddr : Multiaddr) : List UInt8 :=
  Swarm.buildHostFrame .connect maddr.toString none

/-- `Swarm::new_stream`. -/
def swarmNewStream (maddr : String) (protocols : List String) : List UInt8 :=
  Swarm.buildHostFrame .newStream maddr (some protocols)

/-- `Swarm::on_disconnect`. -/
def swarmOnDisconnect (peer_id : String) : List UInt8 :=
  Swarm.buildHostFrame .disconnect peer_id none

/-- `NodeInner::run` processes a frame: the frame that it has the swarm queue. -/
def forward (frame : List UInt8) : Option (List UInt8) := do
  let (flag, str_pld, opt_vec_pld) ← processHostFrame frame
  match flag with
  | .connect => do
    let maddr ← Multiaddr.new str_pld
    some (swarmConnect maddr)
  | .newStream => do
    let maadr ← Multiaddr.new str_pld
    let protocols ← opt_vec_pld
    some (swarmNewStream maadr.toString protocols)
  | .disconnect => some (swarmOnDisconnect str_pld)

/-- `SwarmInner::initiate` processes a frame: the command that it dispatches. -/
def readCommand (frame : List UInt8) : Option HostCommand := do
  let (flag, str_pld, opt_vec_pld) ← Swarm.processHostFrame frame
  match flag with
  | .connect => do
    let maddr ← Multiaddr.new str_pld
    some (.connect maddr)
  | .newStream => do
    let maadr ← Multiaddr.new str_pld
    let protocols ← opt_vec_pld
    some (.newStream maadr protocols)
  | .disconnect => some (.disconnect str_pld)

/-- What the swarm makes of a frame that a call has written. -/
def relay (frame : List UInt8) : Option HostCommand := (forward frame).bind readCommand

/-- Who has queued a frame for the swarm. -/
inductive Origin
  | node
  | connection
  deriving DecidableEq

/-- The queues on the way of the commands, and the two loops. -/
structure Pipeline where
  /-- the queue of `NodeInner` -/
  nodeQueue : List (List UInt8) := []
  notification : List (List UInt8) := []
  /-- the frame that `run` waits to send -/
  sending : Option (List UInt8) := none
  swarmQueue : List (Origin × List UInt8) := []
  /-- `NodeInner::run` has not panicked -/
  nodeAlive : Bool := true
  /-- `SwarmInner::initiate` has not panicked -/
  swarmAlive : Bool := true
  dispatched : List (Origin × HostCommand) := []

/-- One turn on the way of the commands. -/
inductive PipelineAct
  /-- the application calls `Node` -/
  | call (call : Call)
  /-- the first branch of `run`: a frame from the queue -/
  | recv
  /-- the second branch of `run`: a frame from `notification` -/
  | process
  /-- the send that the second branch ends with -/
  | send
  /-- the first branch of `initiate`: a connection is accepted -/
  | accept
  /-- the second branch of `initiate`: a frame from the queue -/
  | dispatch
  /-- the task of a connection calls `on_disconnect` of the swarm -/
  | onDisconnect (peer_id : String)
  /-- a command or a connection that `initiate` handles makes it panic -/
  | swarmEnds

namespace Pipeline

/-- `mpsc::channel(100)`. -/
def CAPACITY : Nat := 100

/-- `run` panics. -/
def endNode (s : Pipeline) : Pipeline :=
  { s with nodeAlive := false, nodeQueue := [], notification := [], sending := none }

/-- `initiate` panics. -/
def endSwarm (s : Pipeline) : Pipeline := { s with swarmAlive := false, swarmQueue := [] }

/-- `write` of `Node`: it waits while the queue is full, and panics if `run` has. -/
def call (s : Pipeline) (call : Call) : Option Pipeline :=
  if s.nodeAlive = false then some s
  else if s.nodeQueue.length < CAPACITY then
    some { s with nodeQueue := s.nodeQueue ++ [call.frame] }
  else none

/-- The first branch of `run`. -/
def recv (s : Pipeline) : Option Pipeline :=
  match s.sending, s.nodeQueue with
  | none, event :: rest =>
    some { s with nodeQueue := rest, notification := s.notification ++ [event] }
  | _, _ => none

/-- The second branch of `run`, as far as the send that it ends with. -/
def process (s : Pipeline) : Option Pipeline :=
  match s.sending, s.notification with
  | none, frame :: rest =>
    match forward frame with
    | some frame' => some { s with notification := rest, sending := some frame' }
    | none => some s.endNode
  | _, _ => none

/-- `write` of `Swarm` for `run`: it waits while the queue is full, and panics if `initiate` has. -/
def send (s : Pipeline) : Option Pipeline :=
  match s.sending with
  | some frame =>
    if s.swarmAlive = false then some s.endNode
    else if s.swarmQueue.length < CAPACITY then
      some { s with sending := none, swarmQueue := s.swarmQueue ++ [(.node, frame)] }
    else none
  | none => none

/-- The second branch of `initiate`. -/
def dispatch (s : Pipeline) : Option Pipeline :=
  match s.swarmAlive, s.swarmQueue with
  | true, (origin, frame) :: rest =>
    match readCommand frame with
    | some command =>
      some { s with swarmQueue := rest, dispatched := s.dispatched ++ [(origin, command)] }
    | none => some s.endSwarm
  | _, _ => none

/-- `write` of `Swarm` for the task of a connection. -/
def onDisconnect (s : Pipeline) (peer_id : String) : Option Pipeline :=
  if s.swarmAlive = false then some s
  else if s.swarmQueue.length < CAPACITY then
    some { s with swarmQueue := s.swarmQueue ++ [(.connection, swarmOnDisconnect peer_id)] }
  else none

/-- One turn. -/
def step (s : Pipeline) : PipelineAct → Option Pipeline
  | .call call => s.call call
  | .recv => s.recv
  | .process => s.process
  | .send => s.send
  | .accept => if s.swarmAlive then some s else none
  | .dispatch => s.dispatch
  | .onDisconnect peer_id => s.onDisconnect peer_id
  | .swarmEnds => if s.swarmAlive then some s.endSwarm else none

/-- The commands that came from the node, of those that were dispatched. -/
def fromNode (s : Pipeline) : List HostCommand :=
  s.dispatched.filterMap fun (origin, command) => if origin = .node then some command else none

/-- The frames of the node that the swarm has not taken yet. -/
def swarmFrames (s : Pipeline) : List (List UInt8) :=
  s.swarmQueue.filterMap fun (origin, frame) => if origin = .node then some frame else none

/-- What the frames on the way are going to be dispatched as, in their order. -/
def onTheWay (s : Pipeline) : List (Option HostCommand) :=
  s.swarmFrames.map readCommand ++ s.sending.toList.map readCommand ++
    s.notification.map relay ++ s.nodeQueue.map relay

end Pipeline

/-- A node and its swarm from their start on. -/
def pipeline : System Pipeline PipelineAct where
  init s := s = {}
  step := Pipeline.step

/-- The calls among the turns, in their order. -/
def callsOf (acts : List PipelineAct) : List Call :=
  acts.filterMap fun
    | .call call => some call
    | _ => none

/-! ## One frame -/

/-- The address of a call is one that `Multiaddr::new` accepts, and its peer ids are neither empty
nor have a slash. -/
def Call.Accepted : Call → Prop
  | .connect maddr => (∃ text, Multiaddr.new text = some maddr) ∧ maddr.PlainIds
  | .newStream maddr _ => ∃ m, Multiaddr.new maddr = some m ∧ m.PlainIds
  | .onDisconnect _ => True

/-- The arguments of a call are shorter than 2³² bytes. -/
def Call.Short : Call → Prop
  | .connect _ => True
  | .newStream maddr protocols =>
    ShortText maddr ∧ FitsU32 protocols.length ∧ ∀ protocol ∈ protocols, ShortText protocol
  | .onDisconnect peer_id => ShortText peer_id

/-- So is the address of a call, as `Display` writes it. -/
def Call.PrintsShort : Call → Prop
  | .connect maddr => ShortText maddr.toString
  | .newStream maddr _ => ∀ m ∈ Multiaddr.new maddr, ShortText m.toString
  | .onDisconnect _ => True

section Frames

variable {text peer_id : String} {maddr : Multiaddr} {protocols : List String}

theorem FitsFrame.text_only (h : ShortText text) : FitsFrame text none where
  text := h
  count := by simp
  items := by simp

theorem FitsFrame.of_list (h : ShortText text) (hcount : FitsU32 protocols.length)
    (hitems : ∀ protocol ∈ protocols, ShortText protocol) : FitsFrame text (some protocols) where
  text := h
  count := by
    intro v h
    obtain ⟨⟩ := h
    exact hcount
  items := by
    intro v h
    obtain ⟨⟩ := h
    exact hitems

/-- `run` with the frame of a `Connect`. -/
theorem forward_connect (h : ShortText text) (hnew : Multiaddr.new text = some maddr) :
    forward (buildHostFrame .connect text none) = some (swarmConnect maddr) := by
  have hframe := processHostFrame_build .connect (.text_only h)
  unfold forward
  simp only [hframe, hnew, Option.bind_eq_bind, Option.bind_some]

/-- `run` with the frame of a `NewStream`. -/
theorem forward_newStream (h : FitsFrame text (some protocols))
    (hnew : Multiaddr.new text = some maddr) :
    forward (buildHostFrame .newStream text (some protocols)) =
      some (swarmNewStream maddr.toString protocols) := by
  have hframe := processHostFrame_build .newStream h
  unfold forward
  simp only [hframe, hnew, Option.bind_eq_bind, Option.bind_some]

/-- `run` with the frame of a `Disconnect`. -/
theorem forward_disconnect (h : ShortText peer_id) :
    forward (buildHostFrame .disconnect peer_id none) = some (swarmOnDisconnect peer_id) := by
  have hframe := processHostFrame_build .disconnect (.text_only h)
  unfold forward
  rw [hframe]
  rfl

/-- `initiate` with the frame of a `Connect`. -/
theorem readCommand_connect (h : ShortText maddr.toString)
    (hnew : Multiaddr.new maddr.toString = some maddr) :
    readCommand (swarmConnect maddr) = some (.connect maddr) := by
  have hframe := Swarm.processHostFrame_build .connect (.text_only h)
  unfold readCommand swarmConnect
  simp only [hframe, hnew, Option.bind_eq_bind, Option.bind_some]

/-- `initiate` with the frame of a `NewStream`. -/
theorem readCommand_newStream (h : FitsFrame text (some protocols))
    (hnew : Multiaddr.new text = some maddr) :
    readCommand (swarmNewStream text protocols) = some (.newStream maddr protocols) := by
  have hframe := Swarm.processHostFrame_build .newStream h
  unfold readCommand swarmNewStream
  simp only [hframe, hnew, Option.bind_eq_bind, Option.bind_some]

/-- `initiate` with the frame of a `Disconnect`. -/
theorem readCommand_disconnect (h : ShortText peer_id) :
    readCommand (swarmOnDisconnect peer_id) = some (.disconnect peer_id) := by
  have hframe := Swarm.processHostFrame_build .disconnect (.text_only h)
  unfold readCommand swarmOnDisconnect
  rw [hframe]
  rfl

end Frames

/-- An accepted call asks for a command. -/
theorem command_isSome {call : Call} (h : call.Accepted) : call.command.isSome := by
  cases call with
  | connect maddr => rfl
  | newStream maddr protocols =>
    obtain ⟨m, hnew, -⟩ := h
    rw [Call.command, hnew]
    rfl
  | onDisconnect peer_id => rfl

/-- **One call** gets through both queues as what it asks for. -/
theorem relay_frame {call : Call} (h : call.Accepted) (hshort : call.Short)
    (hprints : call.PrintsShort) : relay call.frame = call.command := by
  unfold relay
  cases call with
  | connect maddr =>
    -- the call prints the address and `run` prints it again, each time on the same text
    obtain ⟨⟨text, htext⟩, hplain⟩ := h
    have hnew := new_toString (components_ne_nil htext) hplain
    have hforward := forward_connect hprints hnew
    rw [Call.frame, hforward]
    exact readCommand_connect hprints hnew
  | newStream maddr protocols =>
    -- here the first text is the caller's, and only the second is a printed one
    obtain ⟨m, hm, hplain⟩ := h
    obtain ⟨htext, hcount, hitems⟩ := hshort
    have hnew := new_toString (components_ne_nil hm) hplain
    have hforward := forward_newStream (.of_list htext hcount hitems) hm
    have hread := readCommand_newStream (.of_list (hprints m hm) hcount hitems) hnew
    rw [Call.frame, hforward, Call.command, hm]
    exact hread
  | onDisconnect peer_id =>
    have hforward := forward_disconnect hshort
    rw [Call.frame, hforward]
    exact readCommand_disconnect hshort

/-! ## One turn -/

/-- What one turn does to the commands of the node: those that were dispatched and those that are
on the way. -/
inductive PipelineTurn (s s' : Pipeline) (act : PipelineAct) : Prop
  | called (call : Call) (hact : act = .call call) (hnode : s'.nodeAlive = s.nodeAlive)
      (hswarm : s'.swarmAlive = s.swarmAlive) (hfrom : s'.fromNode = s.fromNode)
      (hway : s.nodeAlive = true → s'.onTheWay = s.onTheWay ++ [relay call.frame])
  | moved (hact : ∀ call, act ≠ .call call) (hnode : s'.nodeAlive = s.nodeAlive)
      (hswarm : s'.swarmAlive = s.swarmAlive) (hfrom : s'.fromNode = s.fromNode)
      (hway : s'.onTheWay = s.onTheWay)
  | taken (command : HostCommand) (hact : act = .dispatch) (hnode : s'.nodeAlive = s.nodeAlive)
      (halive : s.swarmAlive = true) (hswarm : s'.swarmAlive = true)
      (hfrom : s'.fromNode = s.fromNode ++ [command])
      (hway : s.onTheWay = some command :: s'.onTheWay)
  | nodeEnds (hact : ∀ call, act ≠ .call call) (hswarm : s'.swarmAlive = s.swarmAlive)
      (hfrom : s'.fromNode = s.fromNode) (hwhy : s.swarmAlive = false ∨ none ∈ s.onTheWay)
  | swarmEnds (hact : ∀ call, act ≠ .call call) (hswarm : s'.swarmAlive = false)
      (hfrom : s'.fromNode = s.fromNode)

section Turns

variable {s s' : Pipeline}

theorem turn_of_call {call : Call} (h : s.call call = some s') :
    PipelineTurn s s' (.call call) := by
  unfold Pipeline.call at h
  split at h
  · rename_i hdead
    obtain rfl := Option.some.inj h
    refine .called call rfl rfl rfl rfl fun halive => ?_
    rw [hdead] at halive
    simp at halive
  · split at h
    · obtain rfl := Option.some.inj h
      refine .called call rfl rfl rfl rfl fun _ => ?_
      simp [Pipeline.onTheWay, Pipeline.swarmFrames]
    · simp at h

theorem turn_of_recv (h : s.recv = some s') : PipelineTurn s s' .recv := by
  unfold Pipeline.recv at h
  split at h
  · rename_i event rest hsending hqueue
    obtain rfl := Option.some.inj h
    refine .moved (by simp) rfl rfl rfl ?_
    simp [Pipeline.onTheWay, Pipeline.swarmFrames, hqueue]
  · simp at h

theorem turn_of_process (h : s.process = some s') : PipelineTurn s s' .process := by
  unfold Pipeline.process at h
  split at h
  · rename_i frame rest hsending hnotification
    cases hforward : forward frame with
    | some frame' =>
      rw [hforward] at h
      obtain rfl := Option.some.inj h
      have hrelay : relay frame = readCommand frame' := by
        rw [relay, hforward]
        rfl
      refine .moved (by simp) rfl rfl rfl ?_
      simp [Pipeline.onTheWay, Pipeline.swarmFrames, hsending, hnotification, hrelay]
    | none =>
      rw [hforward] at h
      obtain rfl := Option.some.inj h
      have hrelay : relay frame = none := by
        rw [relay, hforward]
        rfl
      refine .nodeEnds (by simp) rfl rfl (Or.inr ?_)
      simp [Pipeline.onTheWay, hnotification, hrelay]
  · simp at h

theorem turn_of_send (h : s.send = some s') : PipelineTurn s s' .send := by
  unfold Pipeline.send at h
  split at h
  · rename_i frame hsending
    split at h
    · rename_i hdead
      obtain rfl := Option.some.inj h
      exact .nodeEnds (by simp) rfl rfl (Or.inl hdead)
    · split at h
      · obtain rfl := Option.some.inj h
        refine .moved (by simp) rfl rfl rfl ?_
        simp [Pipeline.onTheWay, Pipeline.swarmFrames, hsending]
      · simp at h
  · simp at h

theorem turn_of_dispatch (h : s.dispatch = some s') : PipelineTurn s s' .dispatch := by
  unfold Pipeline.dispatch at h
  split at h
  · rename_i origin frame rest halive hqueue
    cases hread : readCommand frame with
    | some command =>
      rw [hread] at h
      obtain rfl := Option.some.inj h
      cases origin with
      | node =>
        refine .taken command rfl rfl halive halive ?_ ?_
        · simp [Pipeline.fromNode]
        · simp [Pipeline.onTheWay, Pipeline.swarmFrames, hqueue, hread]
      | connection =>
        refine .moved (by simp) rfl rfl ?_ ?_
        · simp [Pipeline.fromNode]
        · simp [Pipeline.onTheWay, Pipeline.swarmFrames, hqueue]
    | none =>
      rw [hread] at h
      obtain rfl := Option.some.inj h
      exact .swarmEnds (by simp) rfl rfl
  · simp at h

theorem turn_of_onDisconnect {peer_id : String} (h : s.onDisconnect peer_id = some s') :
    PipelineTurn s s' (.onDisconnect peer_id) := by
  unfold Pipeline.onDisconnect at h
  split at h
  · obtain rfl := Option.some.inj h
    exact .moved (by simp) rfl rfl rfl rfl
  · split at h
    · obtain rfl := Option.some.inj h
      refine .moved (by simp) rfl rfl rfl ?_
      simp [Pipeline.onTheWay, Pipeline.swarmFrames]
    · simp at h

/-- **Every turn** is one of them. -/
theorem pipeline_turn {act : PipelineAct} (h : s.step act = some s') : PipelineTurn s s' act := by
  cases act with
  | call call => exact turn_of_call h
  | recv => exact turn_of_recv h
  | process => exact turn_of_process h
  | send => exact turn_of_send h
  | accept =>
    obtain ⟨-, hs⟩ := Option.ite_none_right_eq_some.mp h
    obtain rfl := Option.some.inj hs
    exact .moved (by simp) rfl rfl rfl rfl
  | dispatch => exact turn_of_dispatch h
  | onDisconnect peer_id => exact turn_of_onDisconnect h
  | swarmEnds =>
    obtain ⟨-, hs⟩ := Option.ite_none_right_eq_some.mp h
    obtain rfl := Option.some.inj hs
    exact .swarmEnds (by simp) rfl rfl

end Turns

/-! ## A whole run -/

/-- The calls that are made have the property. -/
def OnlyCalls (P : Call → Prop) (_ : Pipeline) (act : PipelineAct) : Prop :=
  ∀ call ∈ callsOf [act], P call

instance {P : Call → Prop} [DecidablePred P] (s : Pipeline) (act : PipelineAct) :
    Decidable (OnlyCalls P s act) :=
  inferInstanceAs (Decidable (∀ call ∈ callsOf [act], P call))

/-- What was dispatched is a first part of what the calls asked for, and as long as the swarm runs,
so does the node, and the rest is on the way. -/
structure Pipeline.Delivers (calls : List Call) (s : Pipeline) : Prop where
  first : s.fromNode.map some <+: calls.map Call.command
  rest : s.swarmAlive = true →
    s.nodeAlive = true ∧ s.fromNode.map some ++ s.onTheWay = calls.map Call.command
  asked : ∀ call ∈ calls, call.command.isSome

theorem callsOf_other {act : PipelineAct} (h : ∀ call, act ≠ .call call) : callsOf [act] = [] := by
  cases act with
  | call call => exact absurd rfl (h call)
  | _ => rfl

/-- While the commands are as they should be, none of the frames on the way makes a loop panic. -/
theorem Pipeline.Delivers.readable {calls : List Call} {s : Pipeline} (h : s.Delivers calls)
    (halive : s.swarmAlive = true) : none ∉ s.onTheWay := by
  intro hmem
  obtain ⟨-, hway⟩ := h.rest halive
  have hnone : none ∈ calls.map Call.command := by
    rw [← hway]
    exact List.mem_append_right _ hmem
  obtain ⟨call, hcall, hcommand⟩ := List.mem_map.mp hnone
  have hsome := h.asked call hcall
  rw [hcommand] at hsome
  simp at hsome

/-- A turn that neither is a call nor dispatches, as long as it leaves the frames on the way. -/
theorem Pipeline.Delivers.other {calls : List Call} {s s' : Pipeline} {act : PipelineAct}
    (hI : s.Delivers calls) (hact : ∀ call, act ≠ .call call) (hfrom : s'.fromNode = s.fromNode)
    (hrest : s'.swarmAlive = true →
      s.swarmAlive = true ∧ s'.nodeAlive = s.nodeAlive ∧ s'.onTheWay = s.onTheWay) :
    s'.Delivers (calls ++ callsOf [act]) := by
  rw [callsOf_other hact, List.append_nil]
  refine ⟨?_, fun halive => ?_, hI.asked⟩
  · rw [hfrom]
    exact hI.first
  · obtain ⟨halive', hnode, hway⟩ := hrest halive
    rw [hnode, hfrom, hway]
    exact hI.rest halive'

/-- **One turn** delivers. -/
theorem Pipeline.Delivers.step {calls : List Call} {s s' : Pipeline} {act : PipelineAct}
    (hI : s.Delivers calls)
    (hC : OnlyCalls (fun call => call.Accepted ∧ call.Short ∧ call.PrintsShort) s act)
    (h : s.step act = some s') : s'.Delivers (calls ++ callsOf [act]) := by
  cases pipeline_turn h with
  | called call hact hnode hswarm hfrom hway =>
    subst hact
    obtain ⟨haccepted, hshort, hprints⟩ := hC call (List.mem_singleton.mpr rfl)
    have hrelay := relay_frame haccepted hshort hprints
    show s'.Delivers (calls ++ [call])
    refine ⟨?_, fun halive => ?_, fun c hc => ?_⟩
    · rw [hfrom, List.map_append]
      exact hI.first.trans (List.prefix_append _ _)
    · obtain ⟨hnodeAlive, heq⟩ := hI.rest (hswarm.symm.trans halive)
      refine ⟨hnode.trans hnodeAlive, ?_⟩
      rw [hfrom, hway hnodeAlive, ← List.append_assoc, heq, hrelay, List.map_append]
      rfl
    · rcases List.mem_append.mp hc with hc | hc
      · exact hI.asked c hc
      · rw [List.mem_singleton.mp hc]
        exact command_isSome haccepted
  | moved hact hnode hswarm hfrom hway =>
    exact hI.other hact hfrom fun halive => ⟨hswarm.symm.trans halive, hnode, hway⟩
  | taken command hact hnode halive hswarm hfrom hway =>
    -- the command moves from the frames to what was dispatched
    subst hact
    obtain ⟨hnodeAlive, heq⟩ := hI.rest halive
    have heq' : s'.fromNode.map some ++ s'.onTheWay = calls.map Call.command := by
      rw [← heq, hfrom, hway, List.map_append, List.append_assoc]
      rfl
    show s'.Delivers (calls ++ [])
    rw [List.append_nil]
    exact ⟨⟨s'.onTheWay, heq'⟩, fun _ => ⟨hnode.trans hnodeAlive, heq'⟩, hI.asked⟩
  | nodeEnds hact hswarm hfrom hwhy =>
    refine hI.other hact hfrom fun halive => ?_
    -- `run` has no reason to panic before the swarm has
    have halive' := hswarm.symm.trans halive
    rcases hwhy with hdead | hnone
    · rw [hdead] at halive'
      simp at halive'
    · exact absurd hnone (hI.readable halive')
  | swarmEnds hact hswarm hfrom =>
    refine hI.other hact hfrom fun halive => ?_
    rw [hswarm] at halive
    simp at halive

/-- A whole run delivers. -/
theorem delivers_of_run {acts : List PipelineAct} {s : Pipeline}
    (h : pipeline.RunUnder
      (OnlyCalls fun call => call.Accepted ∧ call.Short ∧ call.PrintsShort) acts s) :
    s.Delivers (callsOf acts) := by
  refine h.invariant_log (fun acts s => s.Delivers (callsOf acts)) ?_ ?_
  · intro s h
    subst h
    exact ⟨List.nil_prefix, fun _ => ⟨rfl, rfl⟩, by simp [callsOf]⟩
  · intro acts s act s' hI hC hs
    have hstep := hI.step hC hs
    unfold callsOf at hstep ⊢
    rwa [List.filterMap_append]

/-- **Commands arrive as they were called.** In every run whose calls have addresses that parse and
texts that stay shorter than 2³² bytes, what the swarm has dispatched for the node is what the
first calls asked for, in their order; and as long as the swarm runs, the rest is on the way. -/
theorem dispatched_calls {acts : List PipelineAct} {s : Pipeline}
    (h : pipeline.RunUnder
      (OnlyCalls fun call => call.Accepted ∧ call.Short ∧ call.PrintsShort) acts s) :
    s.fromNode.map some <+: (callsOf acts).map Call.command ∧
      (s.swarmAlive = true → s.nodeAlive = true ∧
        s.fromNode.map some ++ s.onTheWay = (callsOf acts).map Call.command) :=
  ⟨(delivers_of_run h).first, (delivers_of_run h).rest⟩

/-- The calls of the run below. -/
def sampleCalls : List Call :=
  [.connect ⟨[.p2p "a"]⟩, .newStream "p2p/b/tcp/+080" ["x", "y"], .onDisconnect "c"]

/-- A run in which the swarm has dispatched two calls and the third is on the way. -/
def sampleTurns : List PipelineAct :=
  sampleCalls.map .call ++
    [.recv, .onDisconnect "d", .recv, .process, .send, .process, .send, .recv, .dispatch, .accept,
      .dispatch, .process, .dispatch]

theorem sampleCalls_sound :
    ∀ call ∈ sampleCalls, call.Accepted ∧ call.Short ∧ call.PrintsShort := by
  intro call hcall
  unfold sampleCalls at hcall
  simp only [List.mem_cons, List.not_mem_nil, or_false] at hcall
  rcases hcall with rfl | rfl | rfl
  · have hprints : ShortText (Multiaddr.mk [.p2p "a"]).toString := by decide +kernel
    refine ⟨⟨⟨"/p2p/a", by decide +kernel⟩, ?_⟩, trivial, hprints⟩
    intro peer_id hid
    simp only [List.mem_singleton, Protocol.p2p.injEq] at hid
    rw [hid]
    decide
  · have hnew : Multiaddr.new "p2p/b/tcp/+080" = some ⟨[.p2p "b", .tcp 80]⟩ := by decide +kernel
    have hshort : ShortText "p2p/b/tcp/+080" ∧ FitsU32 ["x", "y"].length ∧
        ∀ protocol ∈ ["x", "y"], ShortText protocol := by decide +kernel
    refine ⟨⟨_, hnew, ?_⟩, hshort, ?_⟩
    · intro peer_id hid
      simp at hid
      rw [hid]
      decide
    · intro m hm
      rw [hnew] at hm
      obtain rfl := Option.some.inj hm
      decide +kernel
  · have hshort : ShortText "c" := by decide +kernel
    exact ⟨trivial, hshort, trivial⟩

theorem sampleTurns_run :
    (pipeline.exec (OnlyCalls (· ∈ sampleCalls)) {} sampleTurns).any (fun s =>
      s.swarmAlive && s.fromNode = [.connect ⟨[.p2p "a"]⟩,
        .newStream ⟨[.p2p "b", .tcp 80]⟩ ["x", "y"]] && s.onTheWay.length = 1) = true := by
  decide +kernel

theorem dispatched_calls_sample : ∃ s : Pipeline,
    s.fromNode = [.connect ⟨[.p2p "a"]⟩, .newStream ⟨[.p2p "b", .tcp 80]⟩ ["x", "y"]] ∧
      s.fromNode.map some <+: (callsOf sampleTurns).map Call.command ∧
      s.fromNode.map some ++ s.onTheWay = (callsOf sampleTurns).map Call.command := by
  obtain ⟨s, hs, hq⟩ := (Option.any_eq_true ..).mp sampleTurns_run
  obtain ⟨hq, -⟩ := Bool.and_eq_true_iff.mp hq
  obtain ⟨halive, hfrom⟩ := Bool.and_eq_true_iff.mp hq
  have hrun : pipeline.RunUnder (OnlyCalls (· ∈ sampleCalls)) sampleTurns s :=
    runUnder_of_exec rfl hs
  have hrun' := hrun.mono fun _ _ h call hcall => sampleCalls_sound call (h call hcall)
  obtain ⟨hfirst, hrest⟩ := dispatched_calls hrun'
  exact ⟨s, of_decide_eq_true hfrom, hfirst, (hrest halive).2⟩

/-! ## An address that is too long -/

/-- A length that was cut makes the swarm read a `NewStream` as another one, where the bytes of
the address go on like the rest of a frame. -/
theorem readCommand_cut {text field : String} {maddr : Multiaddr} {v : List String}
    {more : List UInt8} (protocols : List String)
    (hbytes : toUtf8 text = toUtf8 field ++ 1 :: (putStrings v ++ more))
    (hlen : (toUtf8 text).length % 4294967296 = (toUtf8 field).length)
    (hv : FitsFrame field (some v)) (hnew : Multiaddr.new field = some maddr) :
    readCommand (swarmNewStream text protocols) = some (.newStream maddr v) := by
  rw [hbytes] at hlen
  -- the list that is read comes out of the address; the one behind it is not reached
  have hcut := takeBytes_cut hlen (1 :: putStrings protocols)
  rw [List.cons_append, List.append_assoc] at hcut
  have htext : takeString (putString text ++ 1 :: putStrings protocols) =
      some (field, 1 :: (putStrings v ++ (more ++ 1 :: putStrings protocols))) := by
    apply takeString_of_field
    rw [putString, hbytes]
    exact hcut
  have hframe : Swarm.processHostFrame (swarmNewStream text protocols) =
      some (.newStream, field, some v) := by
    show processFrame Swarm.SwarmMpscTxFlag.fromTag
      (Swarm.SwarmMpscTxFlag.newStream.tag :: (putString text ++ 1 :: putStrings protocols)) = _
    rw [processFrame_of_text (Swarm.SwarmMpscTxFlag.fromTag_tag .newStream) htext,
      takeStrings_putStrings (hv.count v rfl) (hv.items v rfl)]
    rfl
  unfold readCommand
  simp only [hframe, hnew, Option.bind_eq_bind, Option.bind_some]

/-- A peer id that begins with `a` and goes on like the rest of a frame. -/
def longId (n : Nat) : List Char :=
  ['a', '\x01', '\x01', '\x00', '\x00', '\x00', '\x00', '\x00', '\x00', '\x00'] ++
    List.replicate n 'x'

/-- The parts of an address of such a peer, with two IPv6 addresses that are printed longer. -/
def longParts (n : Nat) : List (List Char) :=
  ["p2p".toList, longId n, "ip6".toList, "::ffff:0:0".toList, "ip6".toList, "::ffff:0:0".toList]

def longText (n : Nat) : String := String.ofList (['/'].intercalate (longParts n))

def longAddr (n : Nat) : Multiaddr :=
  ⟨[.p2p (String.ofList (longId n)), .ip6 0xffff00000000, .ip6 0xffff00000000]⟩

theorem longId_chars {n : Nat} {c : Char} (h : c ∈ longId n) : c ≠ '/' ∧ c.toNat < 128 := by
  unfold longId at h
  rcases List.mem_append.mp h with h | h
  · have hall : ['a', '\x01', '\x01', '\x00', '\x00', '\x00', '\x00', '\x00', '\x00', '\x00'].all
        (fun c => c ≠ '/' ∧ c.toNat < 128) = true := by decide
    exact of_decide_eq_true (List.all_eq_true.mp hall c h)
  · rw [List.eq_of_mem_replicate h]
    decide

/-- The id between ASCII texts, in bytes. -/
theorem toUtf8_around {before after : List Char} (n : Nat)
    (hbefore : before.all (fun c => c.toNat < 128) = true)
    (hafter : after.all (fun c => c.toNat < 128) = true) :
    toUtf8 (String.ofList (before ++ (longId n ++ after))) =
      (before ++ (longId n ++ after)).map fun c => UInt8.ofNat c.toNat := by
  apply toUtf8_ofList
  intro c hc
  rcases List.mem_append.mp hc with hc | hc
  · exact of_decide_eq_true (List.all_eq_true.mp hbefore c hc)
  · rcases List.mem_append.mp hc with hc | hc
    · exact (longId_chars hc).2
    · exact of_decide_eq_true (List.all_eq_true.mp hafter c hc)

theorem longParts_noSlash (n : Nat) : ∀ part ∈ longParts n, '/' ∉ part := by
  intro part hpart
  unfold longParts at hpart
  simp only [List.mem_cons, List.not_mem_nil, or_false] at hpart
  rcases hpart with rfl | rfl | rfl | rfl | rfl | rfl
  · decide
  · exact fun h => (longId_chars h).1 rfl
  · decide
  · decide
  · decide
  · decide

theorem new_longText (n : Nat) : Multiaddr.new (longText n) = some (longAddr n) := by
  have hslash := longParts_noSlash n
  obtain ⟨hhead, hlast⟩ := intercalate_ends hslash (by simp [longParts]) (by simp [longParts])
  have htrim : trimMatches '/' (longText n).toList = ['/'].intercalate (longParts n) := by
    unfold longText
    rw [String.toList_ofList]
    exact trimMatches_self hhead hlast
  have hip6 : parseProtocol "ip6".toList "::ffff:0:0".toList = some (.ip6 0xffff00000000) := by
    decide +kernel
  have hp2p : parseProtocol "p2p".toList (longId n) = some (.p2p (String.ofList (longId n))) := rfl
  rw [new_of_parts (by simp [longParts]) hslash htrim]
  unfold longParts
  rw [parseParts, parseParts, parseParts, parseParts, hp2p, hip6]
  rfl

/-- What follows the id when the address is printed. -/
def longEnd : List Char := "/ip6/::ffff:0.0.0.0/ip6/::ffff:0.0.0.0".toList

theorem toString_longAddr (n : Nat) :
    (longAddr n).toString = String.ofList ("/p2p/".toList ++ (longId n ++ longEnd)) := by
  have hip6 : Protocol.show (.ip6 0xffff00000000) = "/ip6/::ffff:0.0.0.0".toList := by
    decide +kernel
  have hp2p : Protocol.show (.p2p (String.ofList (longId n))) = "/p2p/".toList ++ longId n := by
    show '/' :: ['p', '2', 'p'] ++ '/' :: (String.ofList (longId n)).toList = _
    rw [String.toList_ofList]
    rfl
  unfold Multiaddr.toString longAddr
  rw [List.flatMap_cons, List.flatMap_cons, List.flatMap_cons, hip6, hp2p, List.append_assoc]
  rfl

/-- The bytes of the printed address, as the beginning of an address and the rest of a frame. -/
theorem toUtf8_longAddr (n : Nat) :
    toUtf8 (longAddr n).toString = toUtf8 "/p2p/a" ++ 1 :: (putStrings [""] ++
      (List.replicate n 'x' ++ longEnd).map fun c => UInt8.ofNat c.toNat) := by
  have hfield : toUtf8 "/p2p/a" = [47, 112, 50, 112, 47, 97] := by decide +kernel
  have hitem : putStrings [""] = [1, 0, 0, 0, 0, 0, 0, 0] := by decide +kernel
  rw [toString_longAddr, toUtf8_around n (by decide) (by decide), hfield, hitem, longId,
    List.append_assoc, List.map_append, List.map_append]
  rfl

theorem length_longText (n : Nat) : (toUtf8 (longText n)).length = n + 44 := by
  have htext : ['/'].intercalate (longParts n) =
      "p2p/".toList ++ (longId n ++ "/ip6/::ffff:0:0/ip6/::ffff:0:0".toList) := by
    simp [longParts, List.intercalate_cons_cons]
  rw [longText, htext, toUtf8_around n (by decide) (by decide), List.length_map,
    List.length_append, List.length_append, longId, List.length_append, List.length_replicate]
  have hbefore : "p2p/".toList.length = 4 := rfl
  have hafter : "/ip6/::ffff:0:0/ip6/::ffff:0:0".toList.length = 30 := rfl
  rw [hbefore, hafter]
  show 4 + (10 + n + 30) = n + 44
  omega

theorem length_longAddr (n : Nat) : (toUtf8 (longAddr n).toString).length = n + 53 := by
  rw [toUtf8_longAddr]
  have hfield : (toUtf8 "/p2p/a").length = 6 := by decide +kernel
  have hitem : (putStrings [""]).length = 8 := by decide +kernel
  have hend : longEnd.length = 38 := by decide +kernel
  rw [List.length_append, List.length_cons, List.length_append, List.length_map,
    List.length_append, List.length_replicate, hfield, hitem, hend]
  omega

/-- A call that goes through on its own. -/
theorem run_of_call {P : Call → Prop} {call : Call} {frame : List UInt8} {command : HostCommand}
    (hcall : P call) (hforward : forward call.frame = some frame)
    (hread : readCommand frame = some command) :
    pipeline.RunUnder (OnlyCalls P) [.call call, .recv, .process, .send, .dispatch]
      { dispatched := [(.node, command)] } := by
  have hother : ∀ {s act}, callsOf [act] = [] → OnlyCalls P s act := by
    intro s act hact c hc
    rw [hact] at hc
    simp at hc
  have h₀ : pipeline.RunUnder (OnlyCalls P) [] {} := .nil rfl
  have h₁ : pipeline.RunUnder (OnlyCalls P) [.call call] { nodeQueue := [call.frame] } :=
    h₀.snoc (fun c hc => List.mem_singleton.mp hc ▸ hcall) rfl
  have h₂ : pipeline.RunUnder (OnlyCalls P) [.call call, .recv]
      { notification := [call.frame] } := h₁.snoc (hother rfl) rfl
  have h₃ : pipeline.RunUnder (OnlyCalls P) [.call call, .recv, .process]
      { sending := some frame } := by
    refine h₂.snoc (hother rfl) ?_
    show (match forward call.frame with | some frame' => _ | none => _) = _
    rw [hforward]
  have h₄ : pipeline.RunUnder (OnlyCalls P) [.call call, .recv, .process, .send]
      { swarmQueue := [(.node, frame)] } := h₃.snoc (hother rfl) rfl
  refine h₄.snoc (hother rfl) ?_
  show (match readCommand frame with | some command => _ | none => _) = _
  rw [hread]
  rfl

/-- An address of 2³² − 3 bytes is printed on 2³² + 6. The swarm reads six of these. -/
theorem dispatched_otherwise :
    ¬ ∀ (acts : List PipelineAct) (s : Pipeline),
      pipeline.RunUnder (OnlyCalls fun call => call.Accepted ∧ call.Short) acts s →
        s.fromNode.map some <+: (callsOf acts).map Call.command := by
  intro h
  obtain ⟨n, hn⟩ : ∃ n, n + 53 = 4294967302 := ⟨4294967249, rfl⟩
  have hplain : (longAddr n).PlainIds := by
    intro peer_id hid
    obtain rfl : peer_id = String.ofList (longId n) := by simpa [longAddr] using hid
    refine ⟨fun hempty => ?_, ?_⟩
    · have hlist := congrArg String.toList hempty
      rw [String.toList_ofList] at hlist
      simp [longId] at hlist
    · rw [String.toList_ofList]
      exact fun hslash => (longId_chars hslash).1 rfl
  have hitems : ∀ protocol ∈ [""], ShortText protocol := by decide +kernel
  have htext : ShortText (longText n) := by
    show (toUtf8 (longText n)).length < 4294967296
    rw [length_longText]
    omega
  have hforward : forward (Call.newStream (longText n) [""]).frame =
      some (swarmNewStream (longAddr n).toString [""]) :=
    forward_newStream (.of_list htext (by decide) hitems) (new_longText n)
  have hfield : FitsFrame "/p2p/a" (some [""]) := .of_list (by decide +kernel) (by decide) hitems
  have hsix : (toUtf8 "/p2p/a").length = 6 := by decide +kernel
  have hcut : (toUtf8 (longAddr n).toString).length % 4294967296 = (toUtf8 "/p2p/a").length := by
    rw [length_longAddr, hsix]
    omega
  have hnew : Multiaddr.new "/p2p/a" = some ⟨[.p2p "a"]⟩ := by decide +kernel
  have hread := readCommand_cut [""] (toUtf8_longAddr n) hcut hfield hnew
  have haccepted : (Call.newStream (longText n) [""]).Accepted := ⟨_, new_longText n, hplain⟩
  have hshort : (Call.newStream (longText n) [""]).Short := ⟨htext, by decide, hitems⟩
  have hfirst := h _ _ (run_of_call ⟨haccepted, hshort⟩ hforward hread)
  have hcommand : some (HostCommand.newStream ⟨[.p2p "a"]⟩ [""]) =
      (Multiaddr.new (longText n)).map fun m => .newStream m [""] :=
    (List.cons_prefix_cons.mp hfirst).1
  rw [new_longText] at hcommand
  simp [longAddr] at hcommand

end Rnet.Node
