import Rnet.Node.Commands
import Rnet.Ping.Exchange

/-!
# The count of a ping: `Node::ping` and `Ping::stream_handler`

`Node::ping` stores its count in the one cell of `Ping` and then queues a `NewStream` command, both
under the lock of `Node::ping`. The command goes through the two queues of `Pipeline`, the swarm
connects if it has to and sends a frame to the task of the connection, the stream negotiates, and
only then the initiator's handler reads the cell: once, for the announcement and for its loop.

> `counts_kept_iff`: every handler announces the count of its call and goes through that many
> exchanges (`Exchange.Uses`) exactly if whenever a handler reads the cell, the call that came last
> has the same count as the call the stream was opened for.

A queue holds the calls that the frames in it are for. `Pipeline` has the frames themselves; what
`initiate` dispatches is for the calls in the order in which they wrote.
-/

namespace Rnet.Ping

open Lib Rnet.Node
open Lib.System (avoids_iff_guarded)

/-- The initiator's handler has the count, announces it and goes through `n` exchanges:
- the announcement is the first frame of the stream until the responder takes it, and then the
  responder goes through `n` exchanges as well;
- the initiator can go on with an exchange exactly while it has ended fewer than `n`, and it ends
  no more of them. -/
structure Exchange.Uses (e : Exchange) (count : UInt32) (n : Nat) : Prop where
  reads : e.count = count
  announces : e.announced = true → e.expected = none →
    ∃ rest, e.requests = ⟨beBytes 4 count.toNat, 0⟩ :: rest
  told : ∀ m, e.expected = some m → m = n
  loops : (∃ act ∈ [ExchangeAct.write, .read, .giveUp], (e.step act).isSome) ↔
    e.announced = true ∧ e.round < n
  ended : e.round ≤ n

/-- `PING` of `node.rs`. -/
def PING : String := "rnet/ping/0.0.1"

/-- The count of `Ping::new(None, ..)`. -/
def DEFAULT_COUNT : UInt32 := 5

/-- A call of `Node::ping`. -/
structure PingCall where
  count : Option UInt32
  maddr : String
  deriving DecidableEq, Repr

/-- The count that a call stores. -/
def PingCall.stored (call : PingCall) : UInt32 := call.count.getD 0

/-- A node with ping enabled: the cell, and how far the calls have come. -/
structure PingNode where
  commands : Pipeline := {}
  /-- the cell `Ping::count` -/
  count : UInt32 := DEFAULT_COUNT
  /-- the calls that have stored their counts -/
  calls : List PingCall := []
  /-- the call that holds the lock, its command not written yet -/
  holding : Option PingCall := none
  /-- the calls whose commands are written -/
  written : List PingCall := []
  /-- how many of the commands `initiate` has carried out -/
  opened : Nat := 0
  /-- the frames for the tasks of the connections, with the peers -/
  muxed : List (String × PingCall) := []
  /-- the streams in `handle_conn` -/
  negotiating : List PingCall := []
  /-- the streams whose `stream_handler` has not read the cell -/
  ready : List PingCall := []
  /-- the streams in `handle_ping`, with the count that was read -/
  handlers : List (PingCall × Exchange) := []

/-- One turn of a task of the node. -/
inductive PingAct
  /-- `Node::ping` gets the lock and stores the count -/
  | ping (count : Option UInt32) (maddr : String)
  /-- `Node::ping` writes its command -/
  | newStream
  /-- a turn on the way of the commands -/
  | commands (act : PipelineAct)
  /-- `SwarmInner::new_stream` for the dispatched command; is the peer connected in the end? -/
  | openStream (connected : Bool)
  /-- the task of a connection takes the next frame -/
  | handleIncoming (peer_id : String)
  /-- a stream gets its answer; is it the protocol that was asked for? -/
  | negotiate (k : Nat) (agreed : Bool)
  /-- `stream_handler` reads the cell -/
  | lockCount (k : Nat)
  /-- a turn of a handler, or of the responder at the other end of its stream -/
  | exchange (k : Nat) (act : ExchangeAct)

namespace PingNode

/-- `initiate` takes nothing else while it is inside `new_stream`. -/
def allows (s : PingNode) : PipelineAct → Bool
  | .call _ => false
  | .accept => s.opened = s.commands.fromNode.length
  | .dispatch => s.opened = s.commands.fromNode.length
  | _ => true

/-- `Node::ping` up to the release of the cell. -/
def ping (s : PingNode) (call : PingCall) : Option PingNode :=
  match s.holding with
  | some _ => none
  | none => some { s with
      count := call.stored
      calls := s.calls ++ [call]
      holding := some call }

/-- `Node::ping` from there on. -/
def newStream (s : PingNode) : Option PingNode := do
  let call ← s.holding
  let commands ← s.commands.call (.newStream call.maddr [PING])
  some { s with
    commands
    holding := none
    written := if s.commands.nodeAlive then s.written ++ [call] else s.written }

/-- `SwarmInner::new_stream`: without a connection, it panics. -/
def openStream (s : PingNode) (connected : Bool) : Option PingNode :=
  match s.commands.fromNode[s.opened]?, s.written[s.opened]? with
  | some (.newStream maddr protocols), some call =>
    match connected, maddr.valueForP2p, protocols with
    | true, some peer_id, protocol :: _ => some { s with
        opened := s.opened + 1
        muxed := if protocol = PING then s.muxed ++ [(peer_id, call)] else s.muxed }
    | _, _, _ => some { s with opened := s.opened + 1, commands := s.commands.endSwarm }
  | _, _ => none

/-- `MplexConn::handle_incoming` with the `NewStream` frame of the swarm. -/
def handleIncoming (s : PingNode) (peer_id : String) : Option PingNode := do
  let frame ← s.muxed.find? (·.1 = peer_id)
  some { s with muxed := s.muxed.erase frame, negotiating := s.negotiating ++ [frame.2] }

/-- `negotiate` of the stream. -/
def negotiate (s : PingNode) (k : Nat) (agreed : Bool) : Option PingNode := do
  let call ← s.negotiating[k]?
  some { s with
    negotiating := s.negotiating.eraseIdx k
    ready := if agreed then s.ready ++ [call] else s.ready }

/-- `stream_handler` of the initiator up to `handle_ping`. -/
def lockCount (s : PingNode) (k : Nat) : Option PingNode := do
  let call ← s.ready[k]?
  some { s with
    ready := s.ready.eraseIdx k
    handlers := s.handlers ++ [(call, { count := s.count })] }

/-- A turn at one of the ends of a ping stream. -/
def exchange (s : PingNode) (k : Nat) (act : ExchangeAct) : Option PingNode := do
  let (call, e) ← s.handlers[k]?
  let e' ← e.step act
  some { s with handlers := s.handlers.set k (call, e') }

/-- One turn. -/
def step (s : PingNode) : PingAct → Option PingNode
  | .ping count maddr => s.ping ⟨count, maddr⟩
  | .newStream => s.newStream
  | .commands act =>
    if s.allows act then (s.commands.step act).map fun commands => { s with commands } else none
  | .openStream connected => s.openStream connected
  | .handleIncoming peer_id => s.handleIncoming peer_id
  | .negotiate k agreed => s.negotiate k agreed
  | .lockCount k => s.lockCount k
  | .exchange k act => s.exchange k act

/-- What the call that came last has stored. -/
def lastStored (s : PingNode) : UInt32 := (s.calls.getLast?.map PingCall.stored).getD DEFAULT_COUNT

/-- The count of a call is replaced: its handler does not announce it, or goes through another
number of exchanges. A call without a count has the count 0, which stands for ten exchanges. -/
def Replaced (s : PingNode) : Prop :=
  ∃ h ∈ s.handlers, let count := h.1.count.getD 0
    ¬ h.2.Uses count (if count = 0 then 10 else count.toNat)

/-- When a handler reads the cell, the call that came last has the same count as its own. -/
def SameAsLast (s : PingNode) (a : PingAct) : Prop :=
  ∀ k call, a = .lockCount k → s.ready[k]? = some call → s.lastStored = call.stored

/-- What a turn does to the cell, the calls and the handlers. -/
inductive Turn (s s' : PingNode) (a : PingAct) : Prop
  | quiet (ha : ∀ k, a ≠ .lockCount k) (hcount : s'.count = s.count) (hcalls : s'.calls = s.calls)
      (hhandlers : s'.handlers = s.handlers)
  | called (call : PingCall) (ha : ∀ k, a ≠ .lockCount k) (hcount : s'.count = call.stored)
      (hcalls : s'.calls = s.calls ++ [call]) (hhandlers : s'.handlers = s.handlers)
  | started (k : Nat) (call : PingCall) (ha : a = .lockCount k) (hready : s.ready[k]? = some call)
      (hcount : s'.count = s.count) (hcalls : s'.calls = s.calls)
      (hhandlers : s'.handlers = s.handlers ++ [(call, { count := s.count })])
  | exchanged (k : Nat) (call : PingCall) (e e' : Exchange) (act : ExchangeAct)
      (ha : a = .exchange k act) (he : s.handlers[k]? = some (call, e)) (hs : e.step act = some e')
      (hcount : s'.count = s.count) (hcalls : s'.calls = s.calls)
      (hhandlers : s'.handlers = s.handlers.set k (call, e'))

theorem step_turn {s s' : PingNode} {a : PingAct} (hs : s.step a = some s') : s.Turn s' a := by
  cases a with
  | ping count maddr =>
    simp only [step, ping] at hs
    split at hs
    · exact absurd hs (by simp)
    · obtain rfl := Option.some.inj hs
      exact .called ⟨count, maddr⟩ (by simp) rfl rfl rfl
  | newStream =>
    obtain ⟨call, -, hs⟩ := Option.bind_eq_some_iff.mp hs
    obtain ⟨commands, -, hs⟩ := Option.bind_eq_some_iff.mp hs
    obtain rfl := Option.some.inj hs
    exact .quiet (by simp) rfl rfl rfl
  | commands act =>
    obtain ⟨-, hs⟩ := Option.ite_none_right_eq_some.mp hs
    obtain ⟨commands, -, rfl⟩ := Option.map_eq_some_iff.mp hs
    exact .quiet (by simp) rfl rfl rfl
  | openStream connected =>
    simp only [step, openStream] at hs
    split at hs
    · split at hs
      · obtain rfl := Option.some.inj hs
        exact .quiet (by simp) rfl rfl rfl
      · obtain rfl := Option.some.inj hs
        exact .quiet (by simp) rfl rfl rfl
    · exact absurd hs (by simp)
  | handleIncoming peer_id =>
    obtain ⟨frame, -, hs⟩ := Option.bind_eq_some_iff.mp hs
    obtain rfl := Option.some.inj hs
    exact .quiet (by simp) rfl rfl rfl
  | negotiate k agreed =>
    obtain ⟨call, -, hs⟩ := Option.bind_eq_some_iff.mp hs
    obtain rfl := Option.some.inj hs
    exact .quiet (by simp) rfl rfl rfl
  | lockCount k =>
    obtain ⟨call, hready, hs⟩ := Option.bind_eq_some_iff.mp hs
    obtain rfl := Option.some.inj hs
    exact .started k call rfl hready rfl rfl rfl
  | exchange k act =>
    obtain ⟨⟨call, e⟩, he, hs⟩ := Option.bind_eq_some_iff.mp hs
    obtain ⟨e', hs', hs⟩ := Option.bind_eq_some_iff.mp hs
    obtain rfl := Option.some.inj hs
    exact .exchanged k call e e' act rfl he hs' rfl rfl rfl

end PingNode

/-! ## What the peer is told -/

namespace Exchange

/-- The announcement is the first frame of the stream, what the responder makes of it is the
initiator's own loop, and that loop goes no further. -/
structure Agreed (e : Exchange) : Prop where
  silent : e.announced = false → e.requests = [] ∧ e.expected = none
  first : e.announced = true → e.expected = none →
    ∃ rest, e.requests = ⟨beBytes 4 e.count.toNat, 0⟩ :: rest
  loops : ∀ n, e.expected = some n → n = rounds e.count
  ended : e.round ≤ rounds e.count

theorem parseCount_beBytes (count : UInt32) :
    parseCount (beBytes 4 count.toNat) = rounds count := by
  have hlen : (beBytes 4 count.toNat).length = 4 := length_beBytes ..
  have hlt : count.toNat < 256 ^ 4 := count.toNat_lt
  unfold parseCount
  rw [if_neg (by omega), List.take_of_length_le (by omega), ofBe_beBytes_of_lt hlt,
    UInt32.ofNat_toNat]

/-- One turn at either end. -/
theorem Agreed.step {e e' : Exchange} {a : ExchangeAct} (h : Agreed e) (hs : e.step a = some e') :
    Agreed e' ∧ e'.count = e.count := by
  cases step_move hs with
  | announce ha =>
    obtain ⟨hreq, hexp⟩ := h.silent ha
    refine ⟨⟨fun hn => absurd hn (by simp), fun _ _ => ⟨[], ?_⟩, fun n hn => ?_, h.ended⟩, rfl⟩
    · rw [hreq]
      rfl
    · rw [hexp] at hn
      exact absurd hn (by simp)
  | write hp hr =>
    refine ⟨⟨fun hn => absurd (hp.1.symm.trans hn) (by simp), fun _ hn => ?_, h.loops, h.ended⟩,
      rfl⟩
    obtain ⟨rest, hreq⟩ := h.first hp.1 hn
    exact ⟨rest ++ [⟨pingPayload, e.round + 1⟩], by rw [hreq]; rfl⟩
  | read hp hr hf => exact ⟨⟨h.silent, h.first, h.loops, hp.2⟩, rfl⟩
  | giveUp hp => exact ⟨⟨h.silent, h.first, h.loops, hp.2⟩, rfl⟩
  | @readCount he f rest hf =>
    have hann : e.announced = true := by
      by_contra hn
      have hnil := (h.silent (by simpa using hn)).1
      rw [hf] at hnil
      exact absurd hnil (by simp)
    refine ⟨⟨fun hn => ?_, fun _ hn => absurd hn (by simp), fun n hn => ?_, h.ended⟩, rfl⟩
    · exact absurd (hann.symm.trans hn) (by simp)
    · obtain ⟨rest', hreq⟩ := h.first hann he
      rw [hf] at hreq
      obtain ⟨rfl, -⟩ := List.cons.inj hreq
      rw [← Option.some.inj hn]
      exact parseCount_beBytes e.count
  | readRequest hp hheld hf =>
    obtain ⟨n, hn, -⟩ := hp
    refine ⟨⟨fun hs => ?_, fun _ hs => absurd (hn.symm.trans hs) (by simp), h.loops, h.ended⟩, rfl⟩
    exact absurd (hn.symm.trans (h.silent hs).2) (by simp)
  | respond ht => exact ⟨⟨h.silent, h.first, h.loops, h.ended⟩, rfl⟩
  | drop hp => exact ⟨⟨h.silent, h.first, h.loops, h.ended⟩, rfl⟩

/-- The initiator's own turns are those of an exchange that its count leaves. -/
theorem own_turn_iff (e : Exchange) :
    (∃ act ∈ [ExchangeAct.write, .read, .giveUp], (e.step act).isSome) ↔ e.pinging := by
  constructor
  · intro h
    obtain ⟨act, hact, hsome⟩ := h
    obtain ⟨e', hs⟩ := Option.isSome_iff_exists.mp hsome
    cases step_move hs with
    | write hp | read hp | giveUp hp => exact hp
    | announce | readCount | readRequest | respond | drop => simp at hact
  · intro hp
    refine ⟨.giveUp, by simp, ?_⟩
    rw [step, if_pos hp]
    rfl

/-- **The count decides**: an initiator that has read a count announces it and loops over it, and
over no other. -/
theorem Agreed.uses_iff {e : Exchange} (h : Agreed e) {count : UInt32} :
    e.Uses count (if count = 0 then 10 else count.toNat) ↔ e.count = count := by
  constructor
  · exact Uses.reads
  · intro hcount
    subst hcount
    exact ⟨rfl, h.first, h.loops, e.own_turn_iff, h.ended⟩

end Exchange

/-! ## The cell -/

namespace PingNode

/-- The cell has what the last call stored, and every handler loops over what it announces. -/
structure Inv (s : PingNode) : Prop where
  cell : s.count = s.lastStored
  agreed : ∀ h ∈ s.handlers, h.2.Agreed

theorem Inv.start : Inv {} := ⟨rfl, fun _ hh => absurd hh List.not_mem_nil⟩

theorem lastStored_append {s s' : PingNode} {call : PingCall} (h : s'.calls = s.calls ++ [call]) :
    s'.lastStored = call.stored := by
  unfold lastStored
  rw [h, List.getLast?_concat]
  rfl

theorem lastStored_congr {s s' : PingNode} (h : s'.calls = s.calls) :
    s'.lastStored = s.lastStored := by
  unfold lastStored
  rw [h]

/-- **Every turn keeps the cell.** -/
theorem Inv.step {s s' : PingNode} {a : PingAct} (h : Inv s) (hs : s.step a = some s') :
    Inv s' := by
  cases step_turn hs with
  | quiet ha hcount hcalls hhandlers =>
    refine ⟨?_, ?_⟩
    · rw [hcount, lastStored_congr hcalls]
      exact h.cell
    · rw [hhandlers]
      exact h.agreed
  | called call ha hcount hcalls hhandlers =>
    refine ⟨?_, ?_⟩
    · rw [hcount, lastStored_append hcalls]
    · rw [hhandlers]
      exact h.agreed
  | started k call ha hready hcount hcalls hhandlers =>
    refine ⟨?_, fun g hg => ?_⟩
    · rw [hcount, lastStored_congr hcalls]
      exact h.cell
    · rw [hhandlers] at hg
      rcases List.mem_append.mp hg with hg | hg
      · exact h.agreed g hg
      · rw [List.mem_singleton.mp hg]
        exact ⟨fun _ => ⟨rfl, rfl⟩, fun hn => absurd hn (by simp),
          fun n hn => absurd hn (by simp), Nat.zero_le _⟩
  | exchanged k call e e' act ha he hstep hcount hcalls hhandlers =>
    refine ⟨?_, fun g hg => ?_⟩
    · rw [hcount, lastStored_congr hcalls]
      exact h.cell
    · rw [hhandlers] at hg
      rcases List.mem_or_eq_of_mem_set hg with hg | rfl
      · exact h.agreed g hg
      · exact ((h.agreed _ (List.mem_of_getElem? he)).step hstep).1

/-- A handler has another count than its call. -/
def Swapped (s : PingNode) : Prop := ∃ g ∈ s.handlers, g.2.count ≠ g.1.stored

/-- A count is replaced exactly if a handler has another one than its call. -/
theorem Inv.replaced_iff {s : PingNode} (h : Inv s) : s.Replaced ↔ s.Swapped := by
  refine exists_congr fun g => and_congr_right fun hg => ?_
  exact not_congr (h.agreed g hg).uses_iff

theorem swapped_congr {s s' : PingNode} (h : s'.handlers = s.handlers) :
    s'.Swapped ↔ s.Swapped := by
  unfold Swapped
  rw [h]

/-- **What a turn does to the counts of the handlers.** -/
theorem step_swapped_iff {s s' : PingNode} {a : PingAct} (h : Inv s) (hgood : ¬ s.Swapped)
    (hs : s.step a = some s') : s'.Swapped ↔ ¬ s.SameAsLast a := by
  -- only a handler that starts takes a count
  have hother : (∀ k, a ≠ .lockCount k) → ¬ s'.Swapped → (s'.Swapped ↔ ¬ s.SameAsLast a) := by
    intro ha hgood'
    exact ⟨fun hr => absurd hr hgood', fun hn => absurd (fun k _ hk _ => absurd hk (ha k)) hn⟩
  cases step_turn hs with
  | quiet ha hcount hcalls hhandlers =>
    exact hother ha (mt (swapped_congr hhandlers).mp hgood)
  | called call ha hcount hcalls hhandlers =>
    exact hother ha (mt (swapped_congr hhandlers).mp hgood)
  | started k call ha hready hcount hcalls hhandlers =>
    subst ha
    unfold Swapped
    rw [hhandlers]
    constructor
    · intro h hsame
      obtain ⟨g, hg, hne⟩ := h
      rcases List.mem_append.mp hg with hg | hg
      · exact hgood ⟨g, hg, hne⟩
      · rw [List.mem_singleton.mp hg] at hne
        exact hne (h.cell.trans (hsame k call rfl hready))
    · intro hnot
      refine ⟨_, List.mem_append_right _ (List.mem_singleton_self _), fun heq => hnot ?_⟩
      intro k' call' hk hcall'
      obtain rfl := PingAct.lockCount.inj hk
      obtain rfl := Option.some.inj (hready.symm.trans hcall')
      exact h.cell.symm.trans heq
  | exchanged k call e e' act ha he hstep hcount hcalls hhandlers =>
    have hmem := List.mem_of_getElem? he
    refine hother (fun k' hk => by rw [ha] at hk; exact absurd hk (by simp)) ?_
    intro h
    obtain ⟨g, hg, hne⟩ := h
    rw [hhandlers] at hg
    rcases List.mem_or_eq_of_mem_set hg with hg | rfl
    · exact hgood ⟨g, hg, hne⟩
    · rw [((h.agreed _ hmem).step hstep).2] at hne
      exact hgood ⟨_, hmem, hne⟩

/-- **What a turn does to what the handlers announce and loop over.** -/
theorem step_replaced_iff {s s' : PingNode} {a : PingAct} (h : Inv s) (hgood : ¬ s.Replaced)
    (hs : s.step a = some s') : s'.Replaced ↔ ¬ s.SameAsLast a := by
  rw [(h.step hs).replaced_iff]
  exact step_swapped_iff h (mt h.replaced_iff.mpr hgood) hs

end PingNode

/-- A node with ping enabled, from its start on. -/
def pingNode : System PingNode PingAct where
  init s := s = {}
  step := PingNode.step

/-- **The counts of the calls.** For every sequence of calls and every schedule of the queues, the
swarm, the negotiations and the handlers, every handler announces the count of its own call and
uses it for its loop exactly if whenever a handler reads the cell, the call that came last has the
same count as its own. -/
theorem counts_kept_iff (as : List PingAct) :
    pingNode.Avoids PingNode.Replaced {} as ↔ pingNode.Guarded PingNode.SameAsLast {} as := by
  refine avoids_iff_guarded (I := PingNode.Inv) (fun s a s' h hs => h.step hs)
    (fun s a s' h hgood hs => PingNode.step_replaced_iff h hgood hs) as _ .start ?_
  intro h
  obtain ⟨h, hh, -⟩ := h
  exact absurd hh List.not_mem_nil

/-- The second call comes before the handler of the first one reads the cell. -/
def overtaken : List PingAct :=
  [.ping (some 3) "p2p/a", .newStream, .commands .recv, .commands .process, .commands .send,
    .commands .dispatch, .openStream true, .handleIncoming "a", .ping (some 7) "p2p/b",
    .negotiate 0 true, .lockCount 0, .exchange 0 .announce]

theorem overtaken_enabled : (pingNode.exec (fun _ _ => True) {} overtaken).any (fun s =>
    s.handlers.map (fun h => (h.1.count, h.2.count, h.2.requests.map (·.bytes))) =
      [(some 3, 7, [[0, 0, 0, 7]])]) = true := by decide +kernel

/-- The handler of a call with the count 3 announces 7. -/
theorem overtaken_replaced : ∃ s, pingNode.Run overtaken s ∧ s.Replaced ∧
    s.handlers.map (fun h => (h.1.count, h.2.count, h.2.requests.map (·.bytes))) =
      [(some 3, 7, [[0, 0, 0, 7]])] := by
  obtain ⟨s, hs, hq⟩ := (Option.any_eq_true ..).mp overtaken_enabled
  have hhandlers := of_decide_eq_true hq
  refine ⟨s, Lib.System.runUnder_of_exec rfl hs, ?_, hhandlers⟩
  obtain ⟨h, hh, heq⟩ := List.mem_map.mp (hhandlers ▸ List.mem_singleton_self _)
  obtain ⟨hcall, hcount⟩ := Prod.mk.inj heq
  refine ⟨h, hh, fun huses => ?_⟩
  have hused := huses.reads
  rw [(Prod.mk.inj hcount).1, hcall] at hused
  exact absurd hused (by decide)

end Rnet.Ping
