import Rnet.Lib.System
import Rnet.Lib.WaitGraph
import Rnet.Security.SecureConn
import Mathlib.Algebra.Order.BigOperators.Group.Finset

/-!
# Nodes that dial each other

The loops of `SwarmInner::initiate` of several nodes. A loop takes one thing at a time: the next
`Connect` command or the next connection to accept, and in both cases it runs the whole
upgrade of the connection before it looks at anything else. The upgrade is a fixed exchange
of messages, so each side is a list of operations (`dialScript`, `acceptScript`).

> `no_wait_cycle_iff`: no reachable state has loops that wait for each other in a
> circle if and only if the outstanding `Connect` commands, as edges from the node that
> is to dial to the node it dials, have no cycle.

> `knot_step`: loops that wait for each other wait for ever.

Frames of connections that have been upgraded are read by the tasks of the connections, and are
not part of the model.
-/

namespace Rnet.Swarm

open Rnet.Lib
open Rnet.Lib.System (runUnder_of_exec ReachableUnder reachableUnder_init)
open Rnet.Lib.WaitGraph (Cyclic Knot cyclic_iff_knot)
open Rnet.Security (Side MULTISELECT_CONNECT DEFFIE_HEINMAN)

/-! ## The upgrade -/

/-- The transport of the nodes. -/
inductive TransportOpt
  | tcp
  | udp
  deriving DecidableEq, Repr

/-- The messages of an upgrade. -/
inductive UpgradeMsg
  /-- `b"peerstore_updated"` of `UdpTransport::accept` -/
  | peerstoreUpdated
  /-- a protocol name -/
  | protocol (name : String)
  /-- a public key of the key exchange -/
  | publicKey
  /-- the `PeerInfo` of `identify` -/
  | peerInfo
  deriving DecidableEq, Repr

/-- What one side of an upgrade does next. -/
inductive UpgradeOp
  | send (msg : UpgradeMsg)
  /-- wait for a message, and go on if it is this one -/
  | recv (msg : UpgradeMsg)
  deriving DecidableEq, Repr

/-- The operation across. -/
def UpgradeOp.mirror : UpgradeOp → UpgradeOp
  | send msg => recv msg
  | recv msg => send msg

/-- `IDENTIFY`. -/
def IDENTIFY : String := "rnet/identify/0.0.1"

/-- `MPLEX`. -/
def MPLEX : String := "rnet/mplex/0.0.1"

/-- `try_select`, the same in the security transport, the multiselect and the muxer. -/
def trySelect (protocol : String) (is_initiator : Bool) : List UpgradeOp :=
  if is_initiator then [.send (.protocol protocol), .recv (.protocol protocol)]
  else [.recv (.protocol protocol), .send (.protocol protocol)]

/-- `DHTransport::handshake`. -/
def dhHandshake (is_initiator : Bool) : List UpgradeOp :=
  if is_initiator then [.send .publicKey, .recv .publicKey]
  else [.recv .publicKey, .send .publicKey]

/-- `identify`. -/
def identify (is_initiator : Bool) : List UpgradeOp :=
  if is_initiator then [.recv .peerInfo, .send .peerInfo]
  else [.send .peerInfo, .recv .peerInfo]

/-- What `Transport::dial` and `Transport::accept` exchange. -/
def transportAck (t : TransportOpt) (is_initiator : Bool) : List UpgradeOp :=
  match t with
  | .tcp => []
  | .udp => if is_initiator then [.recv .peerstoreUpdated] else [.send .peerstoreUpdated]

/-- `conn_handler` of the swarm up to `update_peerstore`, behind `dial` or `accept`. -/
def upgrade (t : TransportOpt) (is_initiator : Bool) : List UpgradeOp :=
  transportAck t is_initiator ++
    trySelect MULTISELECT_CONNECT is_initiator ++ trySelect DEFFIE_HEINMAN is_initiator ++
    dhHandshake is_initiator ++
    trySelect MULTISELECT_CONNECT is_initiator ++ trySelect IDENTIFY is_initiator ++
    identify is_initiator ++
    trySelect MULTISELECT_CONNECT is_initiator ++ trySelect MPLEX is_initiator

/-- The two sides fit. -/
theorem upgrade_mirror (t : TransportOpt) :
    upgrade t false = (upgrade t true).map UpgradeOp.mirror := by
  cases t with
  | tcp => rfl
  | udp => rfl

/-! ## The loops -/

/-- What the loop of a node is doing. -/
inductive Loop (V : Type)
  | idle
  /-- inside `connect`: the node dialed, and what is left of the upgrade -/
  | dialing (remote : V) (ops : List UpgradeOp)
  /-- inside `conn_handler` of an accepted connection -/
  | accepting (remote : V) (ops : List UpgradeOp)
  /-- a message was not the expected one, and the loop panicked -/
  | aborted
  deriving DecidableEq

/-- The nodes. -/
structure DialNet (V : Type) where
  loop : V → Loop V
  /-- the `Connect` commands a node has not handled yet -/
  commands : V → List V
  /-- the connections that a node has not accepted yet, with their dialers -/
  backlog : V → List V
  /-- what a node has not read yet of what a remote sent to its side of a connection -/
  inbox : V × V × Side → List UpgradeMsg
  /-- the remote is a key of the node's `connections` -/
  connected : V × V → Bool

/-- One turn of one loop. -/
inductive DialAct (V : Type)
  /-- the loop takes the next `Connect` command -/
  | next (v : V)
  /-- the loop accepts the next connection -/
  | accept (v : V)
  /-- the loop goes on with the upgrade it is in -/
  | work (v : V)
  deriving DecidableEq

variable {V : Type} [DecidableEq V]

namespace DialNet

/-- A TCP stream belongs to one connection. Over UDP a node keeps one queue for each remote
address, so both connections of two nodes that dialed each other share it. -/
def slot (t : TransportOpt) (v w : V) (side : Side) : V × V × Side :=
  match t with
  | .tcp => (v, w, side)
  | .udp => (v, w, .initiator)

/-- `connect` without a connection: `w` gets a connection to accept, and the queues that the
connection starts with are empty. -/
def dial (t : TransportOpt) (s : DialNet V) (v w : V) : DialNet V :=
  { s with
    loop := Function.update s.loop v (.dialing w (upgrade t true))
    backlog := Function.update s.backlog w (s.backlog w ++ [v])
    inbox :=
      match t with
      | .tcp =>
        Function.update (Function.update s.inbox (v, w, .initiator) []) (w, v, .responder) []
      | .udp => Function.update s.inbox (slot .udp v w .initiator) [] }

/-- `accept`: over UDP the queue of the connection is made here. -/
def acceptFrom (t : TransportOpt) (s : DialNet V) (v u : V) (rest : List V) : DialNet V :=
  { s with
    loop := Function.update s.loop v (.accepting u (upgrade t false))
    backlog := Function.update s.backlog v rest
    inbox :=
      match t with
      | .tcp => s.inbox
      | .udp => Function.update s.inbox (slot .udp v u .responder) [] }

/-- One operation of the upgrade on the connection of `v` to `w`, and then the upgrade is in
`after`; `none` as long as there is no message to read. -/
def perform (t : TransportOpt) (s : DialNet V) (v w : V) (side : Side) (after : Loop V) :
    UpgradeOp → Option (DialNet V)
  | .send msg =>
    let dest := slot t w v side.other
    some { s with
      loop := Function.update s.loop v after
      inbox := Function.update s.inbox dest (s.inbox dest ++ [msg]) }
  | .recv msg =>
    let own := slot t v w side
    match s.inbox own with
    | [] => none
    | m :: rest =>
      some { s with
        loop := Function.update s.loop v (if m = msg then after else .aborted)
        inbox := Function.update s.inbox own rest }

/-- The end of an upgrade: `update_peerstore`. -/
def finish (s : DialNet V) (v w : V) : DialNet V :=
  { s with
    loop := Function.update s.loop v .idle
    connected := Function.update s.connected (v, w) true }

/-- One turn of one loop. -/
def step (t : TransportOpt) (s : DialNet V) : DialAct V → Option (DialNet V)
  | .next v =>
    match s.loop v, s.commands v with
    | .idle, w :: rest =>
      let s' := { s with commands := Function.update s.commands v rest }
      some (if s.connected (v, w) then s' else s'.dial t v w)
    | _, _ => none
  | .accept v =>
    match s.loop v, s.backlog v with
    | .idle, u :: rest => some (s.acceptFrom t v u rest)
    | _, _ => none
  | .work v =>
    match s.loop v with
    | .dialing w [] => some (s.finish v w)
    | .dialing w (op :: ops) => s.perform t v w .initiator (.dialing w ops) op
    | .accepting u [] => some (s.finish v u)
    | .accepting u (op :: ops) => s.perform t v u .responder (.accepting u ops) op
    | _ => none

/-- The loop of `v` is blocked inside `connect`, and waits for a message that only the loop of `w`
sends. -/
def WaitsFor (t : TransportOpt) (s : DialNet V) (v w : V) : Prop :=
  ∃ msg ops, s.loop v = .dialing w (.recv msg :: ops) ∧ s.inbox (slot t v w .initiator) = []

end DialNet

/-- Nodes that are not connected and have `Connect` commands. -/
def dialNet (t : TransportOpt) (commands : V → List V) : System (DialNet V) (DialAct V) where
  init s := s = ⟨fun _ => .idle, commands, fun _ => [], fun _ => [], fun _ => false⟩
  step := DialNet.step t

namespace DialNet

/-- The node whose loop takes the turn. -/
def actor {V : Type} : DialAct V → V
  | .next v | .accept v | .work v => v

/-! ## Who dials whom -/

/-- **One turn** changes the loop of its node only. A dialing loop stays with its remote or has
just taken it from the commands, and commands only get fewer. -/
theorem step_loop {t : TransportOpt} {s s' : DialNet V} {a : DialAct V} (h : s.step t a = some s') :
    (∀ u, u ≠ actor a → s'.loop u = s.loop u) ∧
      (∀ w ops, s'.loop (actor a) = .dialing w ops →
        w ∈ s.commands (actor a) ∨ ∃ ops', s.loop (actor a) = .dialing w ops') ∧
      ∀ u, ∀ w ∈ s'.commands u, w ∈ s.commands u := by
  cases a with
  | next v =>
    simp only [step] at h
    split at h
    swap
    · simp at h
    rename_i w rest hidle hcmd
    obtain rfl := Option.some.inj h
    have hsub : ∀ u, ∀ x ∈ Function.update s.commands v rest u, x ∈ s.commands u := by
      intro u x hx
      by_cases hu : u = v
      · rw [hu, Function.update_self] at hx
        rw [hu, hcmd]
        exact List.mem_cons_of_mem _ hx
      · rwa [Function.update_of_ne hu] at hx
    split
    · refine ⟨fun _ _ => rfl, fun x ops hx => Or.inr ⟨ops, hx⟩, hsub⟩
    · refine ⟨fun u hu => Function.update_of_ne hu .., fun x ops hx => Or.inl ?_, hsub⟩
      have hdial : Loop.dialing w (upgrade t true) = .dialing x ops :=
        (Function.update_self v _ s.loop).symm.trans hx
      injection hdial with hdial
      show x ∈ s.commands v
      rw [← hdial, hcmd]
      exact List.mem_cons_self ..
  | accept v =>
    simp only [step] at h
    split at h
    swap
    · simp at h
    rename_i u rest hidle hback
    obtain rfl := Option.some.inj h
    refine ⟨fun x hx => Function.update_of_ne hx .., fun x ops hx => ?_, fun _ _ hx => hx⟩
    have haccept : Loop.accepting u (upgrade t false) = .dialing x ops :=
      (Function.update_self v _ s.loop).symm.trans hx
    simp at haccept
  | work v =>
    have hperform : ∀ {w : V} {side : Side} {after : Loop V} {op : UpgradeOp},
        s.perform t v w side after op = some s' →
        (∀ x ops, after = .dialing x ops → ∃ ops', s.loop v = .dialing x ops') →
        (∀ u, u ≠ v → s'.loop u = s.loop u) ∧
          (∀ x ops, s'.loop v = .dialing x ops → ∃ ops', s.loop v = .dialing x ops') ∧
          s'.commands = s.commands := by
      intro w side after op hp hafter
      cases op with
      | send msg =>
        obtain rfl := Option.some.inj hp
        refine ⟨fun u hu => Function.update_of_ne hu .., fun x ops hx => ?_, rfl⟩
        exact hafter x ops ((Function.update_self v after s.loop).symm.trans hx)
      | recv msg =>
        simp only [perform] at hp
        split at hp
        · simp at hp
        rename_i m rest hin
        obtain rfl := Option.some.inj hp
        refine ⟨fun u hu => Function.update_of_ne hu .., fun x ops hx => ?_, rfl⟩
        have hx' : (if m = msg then after else Loop.aborted) = .dialing x ops :=
          (Function.update_self v _ s.loop).symm.trans hx
        split at hx'
        · exact hafter x ops hx'
        · simp at hx'
    have hfinish : ∀ w, some (s.finish v w) = some s' →
        (∀ u, u ≠ v → s'.loop u = s.loop u) ∧
          (∀ x ops, s'.loop v = .dialing x ops →
            x ∈ s.commands v ∨ ∃ ops', s.loop v = .dialing x ops') ∧
          ∀ u, ∀ x ∈ s'.commands u, x ∈ s.commands u := by
      intro w hf
      obtain rfl := Option.some.inj hf
      refine ⟨fun u hu => Function.update_of_ne hu .., fun x ops hx => ?_, fun _ _ hx => hx⟩
      rw [show (s.finish v w).loop v = .idle from Function.update_self ..] at hx
      simp at hx
    simp only [step] at h
    split at h
    · exact hfinish _ h
    · rename_i w op ops hl
      obtain ⟨h₁, h₂, h₃⟩ := hperform h fun x ops' hx =>
        ⟨op :: ops, by injection hx with hx _; rw [hl, hx]⟩
      exact ⟨h₁, fun x ops hx => Or.inr (h₂ x ops hx), fun u x hx => by rwa [h₃] at hx⟩
    · exact hfinish _ h
    · obtain ⟨h₁, h₂, h₃⟩ := hperform h fun x ops' hx => by simp at hx
      exact ⟨h₁, fun x ops hx => Or.inr (h₂ x ops hx), fun u x hx => by rwa [h₃] at hx⟩
    · simp at h

/-- A node dials only where one of its commands sent it. -/
structure DialsCommands (commands : V → List V) (s : DialNet V) : Prop where
  dialing : ∀ v w ops, s.loop v = .dialing w ops → w ∈ commands v
  pending : ∀ v, ∀ w ∈ s.commands v, w ∈ commands v

theorem DialsCommands.step {t : TransportOpt} {commands : V → List V} {s s' : DialNet V}
    {a : DialAct V} (hI : DialsCommands commands s) (h : s.step t a = some s') :
    DialsCommands commands s' := by
  obtain ⟨hother, hself, hpend⟩ := step_loop h
  refine ⟨fun v w ops hl => ?_, fun v w hw => hI.pending v w (hpend v w hw)⟩
  by_cases hv : v = actor a
  · rw [hv] at hl ⊢
    rcases hself w ops hl with hw | ⟨ops', hl'⟩
    · exact hI.pending _ w hw
    · exact hI.dialing _ w ops' hl'
  · rw [hother v hv] at hl
    exact hI.dialing v w ops hl

theorem dialsCommands_of_reachable {t : TransportOpt} {commands : V → List V} {s : DialNet V}
    (h : (dialNet t commands).Reachable s) : DialsCommands commands s := by
  refine ReachableUnder.invariant (DialsCommands commands) ?_ (fun s a s' hI _ hs => hI.step hs) h
  intro s h
  subst h
  exact ⟨fun v w ops hl => by simp at hl, fun v w hw => hw⟩

/-! ## Waiting for ever -/

/-- A turn leaves a queue empty, unless its node is the one that reads or fills it. -/
theorem step_inbox {t : TransportOpt} {s s' : DialNet V} {a : DialAct V} (h : s.step t a = some s')
    {u w : V} {side : Side} (hu : u ≠ actor a) (hw : w ≠ actor a)
    (hempty : s.inbox (u, w, side) = []) : s'.inbox (u, w, side) = [] := by
  have hreset : ∀ (f : V × V × Side → List UpgradeMsg) (k : V × V × Side), f (u, w, side) = [] →
      Function.update f k [] (u, w, side) = [] := by
    intro f k hf
    by_cases hk : (u, w, side) = k
    · rw [hk, Function.update_self]
    · rw [Function.update_of_ne hk, hf]
  cases a with
  | next v =>
    simp only [step] at h
    split at h
    swap
    · simp at h
    obtain rfl := Option.some.inj h
    split
    · exact hempty
    · cases t with
      | tcp => exact hreset _ _ (hreset _ _ hempty)
      | udp => exact hreset _ _ hempty
  | accept v =>
    simp only [step] at h
    split at h
    swap
    · simp at h
    obtain rfl := Option.some.inj h
    cases t with
    | tcp => exact hempty
    | udp => exact hreset _ _ hempty
  | work v =>
    have hperform : ∀ {x : V} {sd : Side} {after : Loop V} {op : UpgradeOp},
        s.perform t v x sd after op = some s' → s'.inbox (u, w, side) = [] := by
      intro x sd after op hp
      cases op with
      | send msg =>
        obtain rfl := Option.some.inj hp
        have hne : (u, w, side) ≠ slot t x v sd.other := by
          cases t with
          | tcp => exact fun he => hw (by injection he with _ he; injection he)
          | udp => exact fun he => hw (by injection he with _ he; injection he)
        exact (Function.update_of_ne hne ..).trans hempty
      | recv msg =>
        simp only [perform] at hp
        split at hp
        · simp at hp
        obtain rfl := Option.some.inj hp
        have hne : (u, w, side) ≠ slot t v x sd := by
          cases t with
          | tcp => exact fun he => hu (by injection he)
          | udp => exact fun he => hu (by injection he)
        exact (Function.update_of_ne hne ..).trans hempty
    simp only [step] at h
    split at h
    · obtain rfl := Option.some.inj h
      exact hempty
    · exact hperform h
    · obtain rfl := Option.some.inj h
      exact hempty
    · exact hperform h
    · simp at h

/-- A loop that waits takes no turn. -/
theorem WaitsFor.blocked {t : TransportOpt} {s s' : DialNet V} {a : DialAct V} {w : V}
    (hwait : s.WaitsFor t (actor a) w) : s.step t a ≠ some s' := by
  intro h
  obtain ⟨msg, ops, hl, hin⟩ := hwait
  cases a with
  | next v =>
    simp only [step] at h
    rw [show s.loop v = _ from hl] at h
    simp at h
  | accept v =>
    simp only [step] at h
    rw [show s.loop v = _ from hl] at h
    simp at h
  | work v =>
    simp only [step] at h
    rw [show s.loop v = _ from hl] at h
    simp only [perform] at h
    rw [show s.inbox (slot t v w .initiator) = _ from hin] at h
    simp at h

/-- **Loops that wait for each other** wait for ever: no turn of any loop ends it. -/
theorem knot_step {t : TransportOpt} {s s' : DialNet V} {a : DialAct V} {S : Finset V}
    (hknot : Knot (s.WaitsFor t) S) (h : s.step t a = some s') : Knot (s'.WaitsFor t) S := by
  have hactor : ∀ v ∈ S, v ≠ actor a := by
    intro v hv h
    subst h
    obtain ⟨w, -, hwait⟩ := hknot.waits _ hv
    exact hwait.blocked h
  refine ⟨hknot.nonempty, fun v hv => ?_⟩
  obtain ⟨w, hw, msg, ops, hl, hin⟩ := hknot.waits v hv
  refine ⟨w, hw, msg, ops, ?_, ?_⟩
  · rw [(step_loop h).1 v (hactor v hv), hl]
  · cases t with
    | tcp => exact step_inbox h (hactor v hv) (hactor w hw) hin
    | udp => exact step_inbox h (hactor v hv) (hactor w hw) hin

/-! ## One dial -/

/-- The loop inside the upgrade of a connection, on its side. -/
def upgrading : Side → V → List UpgradeOp → Loop V
  | .initiator => .dialing
  | .responder => .accepting

omit [DecidableEq V] in
@[simp] theorem slot_initiator (t : TransportOpt) (v w : V) :
    slot t v w .initiator = (v, w, .initiator) := by
  cases t with
  | tcp => rfl
  | udp => rfl

/-- Two states that differ in the loops of `v` and `w` at most. -/
structure OnlyLoops (v w : V) (s s' : DialNet V) : Prop where
  loop : ∀ u, u ≠ v → u ≠ w → s'.loop u = s.loop u
  commands : s'.commands = s.commands
  backlog : s'.backlog = s.backlog
  inbox : s'.inbox = s.inbox
  connected : s'.connected = s.connected

omit [DecidableEq V] in
theorem OnlyLoops.swap {v w : V} {s s' : DialNet V} (h : OnlyLoops v w s s') : OnlyLoops w v s s' :=
  ⟨fun u hw hv => h.loop u hv hw, h.commands, h.backlog, h.inbox, h.connected⟩

omit [DecidableEq V] in
theorem OnlyLoops.trans {v w : V} {s s' s'' : DialNet V} (h : OnlyLoops v w s s')
    (h' : OnlyLoops v w s' s'') : OnlyLoops v w s s'' :=
  ⟨fun u hv hw => (h'.loop u hv hw).trans (h.loop u hv hw), h'.commands.trans h.commands,
    h'.backlog.trans h.backlog, h'.inbox.trans h.inbox, h'.connected.trans h.connected⟩

variable {t : TransportOpt} {commands : V → List V}

theorem reachable_step {s s' : DialNet V} {a : DialAct V} (hr : (dialNet t commands).Reachable s)
    (h : s.step t a = some s') : (dialNet t commands).Reachable s' :=
  ReachableUnder.step hr trivial h

/-- The loop sends the next message of the upgrade it is in. -/
theorem step_send {s : DialNet V} {v w : V} (side : Side) {msg : UpgradeMsg}
    {ops : List UpgradeOp} (hl : s.loop v = upgrading side w (.send msg :: ops)) :
    s.step t (.work v) = some { s with
      loop := Function.update s.loop v (upgrading side w ops)
      inbox := Function.update s.inbox (slot t w v side.other)
        (s.inbox (slot t w v side.other) ++ [msg]) } := by
  cases side with
  | initiator => simp only [step, hl, upgrading, perform]
  | responder => simp only [step, hl, upgrading, perform]

/-- The loop reads the message that the upgrade it is in expects. -/
theorem step_recv {s : DialNet V} {v w : V} {side : Side} {msg : UpgradeMsg} {ops : List UpgradeOp}
    {rest : List UpgradeMsg} (hl : s.loop v = upgrading side w (.recv msg :: ops))
    (hin : s.inbox (slot t v w side) = msg :: rest) :
    s.step t (.work v) = some { s with
      loop := Function.update s.loop v (upgrading side w ops)
      inbox := Function.update s.inbox (slot t v w side) rest } := by
  cases side with
  | initiator => simp only [step, hl, upgrading, perform, hin, if_true]
  | responder => simp only [step, hl, upgrading, perform, hin, if_true]

/-- **One message** of an upgrade: it is sent and read, and both queues are as before. -/
theorem transfer {s : DialNet V} {v w : V} (side : Side) {msg : UpgradeMsg}
    {ops ops' : List UpgradeOp} (hr : (dialNet t commands).Reachable s) (hvw : v ≠ w)
    (hv : s.loop v = upgrading side w (.send msg :: ops))
    (hw : s.loop w = upgrading side.other v (.recv msg :: ops'))
    (hin : s.inbox (slot t w v side.other) = []) :
    ∃ s', (dialNet t commands).Reachable s' ∧ s'.loop v = upgrading side w ops ∧
      s'.loop w = upgrading side.other v ops' ∧ OnlyLoops v w s s' := by
  have hsend := step_send (t := t) side hv
  rw [hin, List.nil_append] at hsend
  have hrecv := step_recv (t := t)
    (s := ⟨Function.update s.loop v (upgrading side w ops), s.commands, s.backlog,
      Function.update s.inbox (slot t w v side.other) [msg], s.connected⟩)
    ((Function.update_of_ne hvw.symm ..).trans hw) (Function.update_self ..)
  refine ⟨_, reachable_step (reachable_step hr hsend) hrecv, ?_, ?_, ?_⟩
  · exact (Function.update_of_ne hvw ..).trans (Function.update_self ..)
  · exact Function.update_self ..
  · refine ⟨fun u hu hu' => ?_, rfl, rfl, ?_, rfl⟩
    · exact (Function.update_of_ne hu' ..).trans (Function.update_of_ne hu ..)
    · show Function.update (Function.update s.inbox _ [msg]) _ [] = s.inbox
      rw [Function.update_idem, ← hin, Function.update_eq_self]

/-- **The upgrade** runs to its end once both loops are in it and their queues are empty. -/
theorem handshake {v w : V} (hvw : v ≠ w) :
    ∀ (ops : List UpgradeOp) (s : DialNet V), (dialNet t commands).Reachable s →
      s.loop v = .dialing w ops → s.loop w = .accepting v (ops.map UpgradeOp.mirror) →
      s.inbox (slot t v w .initiator) = [] → s.inbox (slot t w v .responder) = [] →
      ∃ s', (dialNet t commands).Reachable s' ∧ s'.loop v = .dialing w [] ∧
        s'.loop w = .accepting v [] ∧ OnlyLoops v w s s' := by
  intro ops
  induction ops with
  | nil =>
    intro s hr hv hw _ _
    exact ⟨s, hr, hv, hw, fun _ _ _ => rfl, rfl, rfl, rfl, rfl⟩
  | cons op ops ih =>
    intro s hr hv hw hd ha
    have hstep : ∃ s', (dialNet t commands).Reachable s' ∧ s'.loop v = .dialing w ops ∧
        s'.loop w = .accepting v (ops.map UpgradeOp.mirror) ∧ OnlyLoops v w s s' := by
      cases op with
      | send msg => exact transfer .initiator hr hvw hv hw ha
      | recv msg =>
        obtain ⟨s', hr', hw', hv', ho⟩ := transfer .responder hr hvw.symm hw hv hd
        exact ⟨s', hr', hv', hw', ho.swap⟩
    obtain ⟨s₁, hr₁, hv₁, hw₁, ho₁⟩ := hstep
    obtain ⟨s₂, hr₂, hv₂, hw₂, ho₂⟩ :=
      ih s₁ hr₁ hv₁ hw₁ (by rw [ho₁.inbox, hd]) (by rw [ho₁.inbox, ha])
    exact ⟨s₂, hr₂, hv₂, hw₂, ho₁.trans ho₂⟩

/-- No loop is inside an upgrade, and no connection waits to be accepted. -/
structure Quiet (s : DialNet V) : Prop where
  loop : ∀ v, s.loop v = .idle
  backlog : ∀ v, s.backlog v = []

/-- The loop of `v` takes a command, and `w` gets a connection to accept. -/
theorem step_dial {s : DialNet V} {v w : V} {rest : List V} (hidle : s.loop v = .idle)
    (hcmd : s.commands v = w :: rest) (hnew : s.connected (v, w) = false) :
    s.step t (.next v) =
      some (dial t { s with commands := Function.update s.commands v rest } v w) := by
  simp only [step, hidle, hcmd, hnew, Bool.false_eq_true, if_false]

/-- **A dial and its accept** put both loops into the upgrade, with empty queues. -/
theorem opens {s : DialNet V} {v w : V} {rest : List V}
    (hr : (dialNet t commands).Reachable s) (hq : Quiet s) (hvw : v ≠ w)
    (hcmd : s.commands v = w :: rest) (hnew : s.connected (v, w) = false) :
    ∃ s', (dialNet t commands).Reachable s' ∧ s'.loop v = .dialing w (upgrade t true) ∧
      s'.loop w = .accepting v (upgrade t false) ∧ (∀ u, u ≠ v → u ≠ w → s'.loop u = .idle) ∧
      (∀ u, s'.backlog u = []) ∧ s'.inbox (slot t v w .initiator) = [] ∧
      s'.inbox (slot t w v .responder) = [] ∧ s'.commands = Function.update s.commands v rest ∧
      s'.connected = s.connected := by
  obtain ⟨s₁, hs₁⟩ :
      ∃ s₁, s₁ = dial t { s with commands := Function.update s.commands v rest } v w := ⟨_, rfl⟩
  have hr₁ : (dialNet t commands).Reachable s₁ :=
    hs₁ ▸ reachable_step hr (step_dial (hq.loop v) hcmd hnew)
  have hl₁ : s₁.loop = Function.update s.loop v (.dialing w (upgrade t true)) := by rw [hs₁]; rfl
  have hb₁ : s₁.backlog = Function.update s.backlog w (s.backlog w ++ [v]) := by rw [hs₁]; rfl
  rw [hq.backlog w, List.nil_append] at hb₁
  have haccept : s₁.step t (.accept w) = some (s₁.acceptFrom t w v []) := by
    simp only [step, hl₁, hb₁, Function.update_of_ne hvw.symm, hq.loop w, Function.update_self]
  refine ⟨_, reachable_step hr₁ haccept, ?_, Function.update_self .., fun u hu hu' => ?_,
    fun u => ?_, ?_, ?_, by rw [hs₁]; rfl, by rw [hs₁]; rfl⟩
  · show Function.update s₁.loop w _ v = _
    rw [Function.update_of_ne hvw, hl₁, Function.update_self]
  · show Function.update s₁.loop w _ u = _
    rw [Function.update_of_ne hu', hl₁, Function.update_of_ne hu, hq.loop u]
  · show Function.update s₁.backlog w [] u = []
    rw [hb₁, Function.update_idem]
    by_cases hu : u = w
    · rw [hu, Function.update_self]
    · rw [Function.update_of_ne hu, hq.backlog u]
  · -- the queue of the dialer is emptied by the dial
    rw [hs₁]
    cases t with
    | tcp => exact (Function.update_of_ne (by simp [slot]) ..).trans (Function.update_self ..)
    | udp => exact (Function.update_of_ne (by simp [slot, hvw]) ..).trans (Function.update_self ..)
  · -- the queue of the acceptor over TCP too, and over UDP by the accept
    rw [hs₁]
    cases t with
    | tcp => exact Function.update_self ..
    | udp => exact Function.update_self ..

/-- **A dial that is accepted** ends with both nodes connected and everyone quiet again. -/
theorem connect_done {s : DialNet V} {v w : V} {rest : List V}
    (hr : (dialNet t commands).Reachable s) (hq : Quiet s) (hvw : v ≠ w)
    (hcmd : s.commands v = w :: rest) (hnew : s.connected (v, w) = false) :
    ∃ s', (dialNet t commands).Reachable s' ∧ Quiet s' ∧
      s'.commands = Function.update s.commands v rest ∧
      ∀ p, p ≠ (v, w) → p ≠ (w, v) → s'.connected p = s.connected p := by
  obtain ⟨s₁, hr₁, hv₁, hw₁, hidle₁, hb₁, hd₁, ha₁, hc₁, hn₁⟩ := opens hr hq hvw hcmd hnew
  rw [upgrade_mirror] at hw₁
  obtain ⟨s₂, hr₂, hv₂, hw₂, ho₂⟩ := handshake hvw _ s₁ hr₁ hv₁ hw₁ hd₁ ha₁
  have hfinish₁ : s₂.step t (.work v) = some (s₂.finish v w) := by simp only [step, hv₂]
  have hw₃ : (s₂.finish v w).loop w = .accepting v [] :=
    (Function.update_of_ne hvw.symm ..).trans hw₂
  have hfinish₂ : (s₂.finish v w).step t (.work w) = some ((s₂.finish v w).finish w v) := by
    simp only [step, hw₃]
  refine ⟨_, reachable_step (reachable_step hr₂ hfinish₁) hfinish₂, ⟨fun u => ?_, fun u => ?_⟩,
    ho₂.commands.trans hc₁, fun p hp hp' => ?_⟩
  · show Function.update (Function.update s₂.loop v .idle) w .idle u = .idle
    by_cases hu' : u = w
    · rw [hu', Function.update_self]
    rw [Function.update_of_ne hu']
    by_cases hu : u = v
    · rw [hu, Function.update_self]
    rw [Function.update_of_ne hu, ho₂.loop u hu hu', hidle₁ u hu hu']
  · exact (congrFun ho₂.backlog u).trans (hb₁ u)
  · show Function.update (Function.update s₂.connected (v, w) true) (w, v) true p = s.connected p
    rw [Function.update_of_ne hp', Function.update_of_ne hp, ho₂.connected, hn₁]

/-! ## Everyone dials -/

/-- **A dial that is not accepted** leaves its loop waiting, and nobody else notices it. -/
theorem dial_waits {s : DialNet V} {v w : V} {rest : List V}
    (hr : (dialNet t commands).Reachable s) (hidle : s.loop v = .idle)
    (hcmd : s.commands v = w :: rest) (hnew : s.connected (v, w) = false) :
    ∃ s', (dialNet t commands).Reachable s' ∧ s'.WaitsFor t v w ∧
      s'.connected = s.connected ∧ ∀ u, u ≠ v → s'.loop u = s.loop u ∧
        s'.commands u = s.commands u ∧
        ∀ x, s'.inbox (u, x, .initiator) = s.inbox (u, x, .initiator) := by
  have hdial := step_dial (t := t) hidle hcmd hnew
  cases t with
  | tcp =>
    -- the name of the first protocol is sent, and the loop waits for the reply
    have hsend := step_send (t := .tcp) .initiator
      (s := dial .tcp { s with commands := Function.update s.commands v rest } v w)
      (Function.update_self v _ s.loop)
    refine ⟨_, reachable_step (reachable_step hr hdial) hsend,
      ⟨_, _, Function.update_self .., ?_⟩, rfl,
      fun u hu => ⟨?_, Function.update_of_ne hu .., fun x => ?_⟩⟩
    · exact (Function.update_of_ne (by simp [slot, Side.other]) ..).trans
        ((Function.update_of_ne (by simp [slot]) ..).trans (Function.update_self ..))
    · exact (Function.update_of_ne hu ..).trans (Function.update_of_ne hu ..)
    · exact (Function.update_of_ne (by simp [slot, Side.other]) ..).trans
        ((Function.update_of_ne (by simp) ..).trans (Function.update_of_ne (by simp [hu]) ..))
  | udp =>
    refine ⟨_, reachable_step hr hdial,
      ⟨_, _, Function.update_self .., Function.update_self ..⟩, rfl,
      fun u hu => ⟨Function.update_of_ne hu .., Function.update_of_ne hu .., fun x => ?_⟩⟩
    exact Function.update_of_ne (by simp [slot, hu]) ..

/-- Every node of `P` has dialed into `S` and waits; the others have done nothing. -/
structure Dialed (t : TransportOpt) (S P : Finset V) (s s' : DialNet V) : Prop where
  waits : ∀ v ∈ P, ∃ w ∈ S, s'.WaitsFor t v w
  loop : ∀ v, v ∉ P → s'.loop v = s.loop v
  commands : ∀ v, v ∉ P → s'.commands v = s.commands v
  connected : s'.connected = s.connected

/-- **One node after the other** dials, and none is accepted. -/
theorem dial_all {s : DialNet V} {S : Finset V} (hr : (dialNet t commands).Reachable s)
    (hq : Quiet s)
    (hheads : ∀ v ∈ S, ∃ w ∈ S, ∃ rest, s.commands v = w :: rest ∧ s.connected (v, w) = false) :
    ∀ P ⊆ S, ∃ s', (dialNet t commands).Reachable s' ∧ Dialed t S P s s' := by
  intro P
  induction P using Finset.induction_on with
  | empty =>
    intro _
    exact ⟨s, hr, fun v hv => absurd hv (Finset.notMem_empty v), fun _ _ => rfl,
      fun _ _ => rfl, rfl⟩
  | insert v P hv ih =>
    intro hP
    obtain ⟨s₁, hr₁, hD⟩ := ih ((Finset.subset_insert v P).trans hP)
    obtain ⟨w, hw, rest, hcmd, hnew⟩ := hheads v (hP (Finset.mem_insert_self v P))
    obtain ⟨s₂, hr₂, hwait, hconn, hframe⟩ := dial_waits hr₁ ((hD.loop v hv).trans (hq.loop v))
      ((hD.commands v hv).trans hcmd) (by rw [hD.connected, hnew])
    refine ⟨s₂, hr₂, fun u hu => ?_, fun u hu => ?_, fun u hu => ?_, hconn.trans hD.connected⟩
    · rcases Finset.mem_insert.mp hu with rfl | hu
      · exact ⟨w, hw, hwait⟩
      · -- the loops that wait already go on waiting
        have huv : u ≠ v := fun h => hv (h ▸ hu)
        obtain ⟨x, hx, msg, ops, hl, hin⟩ := hD.waits u hu
        obtain ⟨hloop, -, hinbox⟩ := hframe u huv
        rw [slot_initiator] at hin
        exact ⟨x, hx, msg, ops, hloop.trans hl, by rw [slot_initiator, hinbox x, hin]⟩
    · rw [Finset.mem_insert, not_or] at hu
      rw [(hframe u hu.1).1, hD.loop u hu.2]
    · rw [Finset.mem_insert, not_or] at hu
      rw [(hframe u hu.1).2.1, hD.commands u hu.2]

/-- The connections that a node still has to make: a command names a node that it is not
connected to. -/
def Outstanding (s : DialNet V) (u v : V) : Prop :=
  v ∈ s.commands u ∧ s.connected (u, v) = false

/-- **A knot of outstanding commands** becomes a knot of waits. Commands that lead out of the
knot, or to nodes that are connected by now, are carried out first. -/
theorem knot_reached {S : Finset V} :
    ∀ (n : ℕ) (s : DialNet V), (dialNet t commands).Reachable s → Quiet s → Knot s.Outstanding S →
      ∑ v ∈ S, (s.commands v).length = n →
      ∃ s', (dialNet t commands).Reachable s' ∧ Knot (s'.WaitsFor t) S := by
  intro n
  induction n using Nat.strong_induction_on with
  | _ n ih =>
    intro s hr hq hknot hn
    by_cases hheads :
        ∀ v ∈ S, ∃ w ∈ S, ∃ rest, s.commands v = w :: rest ∧ s.connected (v, w) = false
    · obtain ⟨s', hr', hD⟩ := dial_all hr hq hheads S (Finset.Subset.refl S)
      exact ⟨s', hr', hknot.nonempty, hD.waits⟩
    · simp only [not_forall] at hheads
      obtain ⟨v, hv, hhead⟩ := hheads
      obtain ⟨x, hx, hxcmd, hxnew⟩ := hknot.waits v hv
      obtain ⟨w, rest, hcmd⟩ := List.exists_cons_of_ne_nil (List.ne_nil_of_mem hxcmd)
      -- the first command of `v` is not the one that belongs to the knot
      have hshorter : ∀ s' : DialNet V, s'.commands = Function.update s.commands v rest →
          ∑ u ∈ S, (s'.commands u).length < n := by
        intro s' hs'
        rw [← hn, hs']
        refine Finset.sum_lt_sum (fun u _ => ?_) ⟨v, hv, ?_⟩
        · by_cases hu : u = v
          · rw [hu, Function.update_self, hcmd]
            exact Nat.le_succ _
          · rw [Function.update_of_ne hu]
        · rw [Function.update_self, hcmd]
          exact Nat.lt_succ_self _
      have hkeep : ∀ s' : DialNet V, s'.commands = Function.update s.commands v rest → x ≠ w →
          (∀ a ∈ S, ∀ b ∈ S, s.connected (a, b) = false → s'.connected (a, b) = false) →
          Knot s'.Outstanding S := by
        intro s' hs' hxw hconn
        refine ⟨hknot.nonempty, fun u hu => ?_⟩
        by_cases huv : u = v
        · refine ⟨x, hx, ?_, huv ▸ hconn v hv x hx hxnew⟩
          rw [huv, hs', Function.update_self]
          exact (List.mem_cons.mp (hcmd ▸ hxcmd)).resolve_left hxw
        · obtain ⟨y, hy, hycmd, hynew⟩ := hknot.waits u hu
          refine ⟨y, hy, ?_, hconn u hu y hy hynew⟩
          rwa [hs', Function.update_of_ne huv]
      cases hold : s.connected (v, w) with
      | true =>
        -- `connect` returns at once
        have hskip : s.step t (.next v) =
            some { s with commands := Function.update s.commands v rest } := by
          simp only [step, hq.loop v, hcmd, hold, if_true]
        refine ih _ (hshorter _ rfl) _ (reachable_step hr hskip) ⟨hq.loop, hq.backlog⟩
          (hkeep _ rfl ?_ fun _ _ _ _ h => h) rfl
        intro h
        subst h
        rw [hold] at hxnew
        exact absurd hxnew (by simp)
      | false =>
        -- `w` is outside the knot, and accepts
        have hw : w ∉ S := fun hw => hhead ⟨w, hw, rest, hcmd, hold⟩
        have hvw : v ≠ w := fun h => hw (h ▸ hv)
        obtain ⟨s', hr', hq', hc', hn'⟩ := connect_done hr hq hvw hcmd hold
        refine ih _ (hshorter s' hc') s' hr' hq' (hkeep s' hc' (fun h => hw (h ▸ hx)) ?_) rfl
        intro a ha b hb hab
        rw [hn' (a, b) ?_ ?_, hab]
        · intro h
          obtain ⟨⟩ := h
          exact hw hb
        · intro h
          obtain ⟨⟩ := h
          exact hw ha

end DialNet

/-- **Circular waits** are reachable if and only if the outstanding commands go round in a
circle: no loop is ever on a cycle of waits exactly when no node is told, directly or over
other nodes, to dial back to itself. -/
theorem no_wait_cycle_iff [Fintype V] (t : TransportOpt) (commands : V → List V) :
    (∀ s, (dialNet t commands).Reachable s → ¬ Cyclic (s.WaitsFor t)) ↔
      ¬ Cyclic fun u v => v ∈ commands u := by
  constructor
  · intro hsafe hcyclic
    obtain ⟨S, hknot⟩ := cyclic_iff_knot.mp hcyclic
    obtain ⟨s, hr, hwait⟩ := DialNet.knot_reached _ _
      (reachableUnder_init (M := dialNet t commands) rfl)
      ⟨fun _ => rfl, fun _ => rfl⟩
      ⟨hknot.nonempty, fun v hv => (hknot.waits v hv).imp fun w hw => ⟨hw.1, hw.2, rfl⟩⟩ rfl
    exact hsafe s hr (cyclic_iff_knot.mpr ⟨S, hwait⟩)
  · intro hacyclic s hr hcyclic
    refine hacyclic (hcyclic.mono fun u v huv => ?_)
    obtain ⟨msg, ops, hl, -⟩ := huv
    exact (DialNet.dialsCommands_of_reachable hr).dialing u v _ hl

/-- Two nodes that dial each other block each other, over both transports. -/
theorem mutual_dial_blocks :
    (∃ s, (dialNet .tcp fun v : Bool => [!v]).Reachable s ∧ Cyclic (s.WaitsFor .tcp)) ∧
      ∃ s, (dialNet .udp fun v : Bool => [!v]).Reachable s ∧ Cyclic (s.WaitsFor .udp) := by
  have hcyclic : ∀ {t : TransportOpt} {s : DialNet Bool} {ops : List UpgradeOp}
      {msg : UpgradeMsg},
      (∀ v, s.loop v = .dialing (!v) (.recv msg :: ops) ∧ s.inbox (v, !v, .initiator) = []) →
        Cyclic (s.WaitsFor t) := by
    intro t s ops msg hs
    refine ⟨false, .tail (b := true) (.single ⟨msg, ops, (hs false).1, ?_⟩)
      ⟨msg, ops, (hs true).1, ?_⟩⟩
    · exact (congrArg s.inbox (DialNet.slot_initiator t _ _)).trans (hs false).2
    · exact (congrArg s.inbox (DialNet.slot_initiator t _ _)).trans (hs true).2
  have htcp : ∃ s, (dialNet .tcp fun v : Bool => [!v]).exec (fun _ _ => True)
      ⟨fun _ => .idle, fun v => [!v], fun _ => [], fun _ => [], fun _ => false⟩
      [.next false, .next true, .work false, .work true] = some s ∧
      ∀ v, s.loop v = .dialing (!v) ((upgrade .tcp true).drop 1) ∧
        s.inbox (v, !v, .initiator) = [] := by
    refine ⟨_, rfl, ?_⟩
    decide +kernel
  have hudp : ∃ s, (dialNet .udp fun v : Bool => [!v]).exec (fun _ _ => True)
      ⟨fun _ => .idle, fun v => [!v], fun _ => [], fun _ => [], fun _ => false⟩
      [.next false, .next true] = some s ∧
      ∀ v, s.loop v = .dialing (!v) (upgrade .udp true) ∧ s.inbox (v, !v, .initiator) = [] := by
    refine ⟨_, rfl, ?_⟩
    decide +kernel
  obtain ⟨s, hexec, hs⟩ := htcp
  obtain ⟨u, hexec', hu⟩ := hudp
  exact ⟨⟨s, ⟨_, runUnder_of_exec rfl hexec⟩, hcyclic hs⟩,
    ⟨u, ⟨_, runUnder_of_exec rfl hexec'⟩, hcyclic hu⟩⟩

end Rnet.Swarm
