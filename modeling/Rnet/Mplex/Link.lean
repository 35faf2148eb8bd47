import Rnet.Mplex.Conn
import Rnet.Lib.System

/-!
# A two-ended mplex connection

Two `MplexConn` ends over a reliable FIFO link in each direction. One action of
`link` is one turn of one task: a branch of `conn_handler`'s `select!`, a step
of a stream task, or a request of the swarm or of `ping_check`; a run is any
interleaving of them.

The system is written over a `Codec`. `Codec.Hom.step_map` shows that a view of
the frames commutes with every step, and `bytes_run` specialises it:

> every run over byte strings is the image of a run over frames kept as data,
> with the same actions, the same tasks and the same stream tables.

So the invariants are proved where a frame is a record, and hold where it is
what `build_frame` wrote and `process_header` reads.
-/

namespace Rnet.Mplex

open Rnet.Lib (System)

/-- The two ends of a connection. -/
inductive End
  | dialer
  | listener
  deriving DecidableEq, Repr

/-- The end across the link. -/
def End.other : End → End
  | dialer => listener
  | listener => dialer

@[simp] theorem End.other_other (e : End) : e.other.other = e := by
  cases e <;> rfl

@[simp] theorem End.other_ne (e : End) : e.other ≠ e := by
  cases e <;> decide

@[simp] theorem End.ne_other (e : End) : e ≠ e.other := by
  cases e <;> decide

/-- Either end is `e` or across from it. -/
theorem End.eq_or_eq_other (e d : End) : d = e ∨ d = e.other := by
  cases e <;> cases d <;> decide

/-- A connection: both ends and, per end, the frames on their way to it. -/
structure Link (κ φ : Type) where
  ends : End → MplexConn κ
  wire : End → List φ

/-- One turn of one task of the connection. -/
inductive LinkAct
  /-- `SwarmInner::new_stream` queues a local open request -/
  | openReq (e : End) (protocol : Payload)
  /-- `conn_handler` takes an item from its queue -/
  | recvQueue (e : End)
  /-- `conn_handler` reads a frame from `raw_conn` -/
  | recvRaw (e : End)
  /-- stream task `h` moves on -/
  | task (e : End) (h : Nat) (a : MplexConn.TaskAct)
  /-- `ping_check` queues its `Liveliness` frame -/
  | liveliness (e : End)
  /-- `ping_check` or `on_disconnect` queues an internal `Disconnected` frame -/
  | disconnect (e : End) (payload : Payload)
  /-- `ping_check` returns and drops its receiver -/
  | pingCheckEnd (e : End)
  /-- `raw_conn.read()` returns `Err` -/
  | rawError (e : End)
  deriving DecidableEq

namespace Link

variable {κ φ : Type} (c : Codec κ φ)

/-- Replace one end. -/
def setEnd (s : Link κ φ) (e : End) (conn : MplexConn κ) : Link κ φ :=
  { s with ends := Function.update s.ends e conn }

/-- Write a frame, if there is one, to the link away from `e`. -/
def transmit (s : Link κ φ) (e : End) : Option φ → Link κ φ
  | none => s
  | some f => { s with wire := Function.update s.wire e.other (s.wire e.other ++ [f]) }

/-- One turn of one task. An end whose `conn_handler` is over has dropped its `MplexConn`: its
tables and queues stay in the record, and no turn reads them. -/
def step (s : Link κ φ) : LinkAct → Option (Link κ φ)
  | .openReq e protocol =>
    ((s.ends e).send c (.openStream protocol)).map fun conn => s.setEnd e conn
  | .recvQueue e =>
    ((s.ends e).recvQueue c).map fun r => (s.setEnd e r.1).transmit e r.2
  | .recvRaw e =>
    match s.wire e with
    | [] => none
    | f :: rest =>
      ((s.ends e).recvRaw c f).map fun conn =>
        { s.setEnd e conn with wire := Function.update s.wire e rest }
  | .task e h a => ((s.ends e).taskStep c h a).map fun conn => s.setEnd e conn
  | .liveliness e =>
    if (s.ends e).pingCheck.isSome then
      ((s.ends e).send c .liveliness).map fun conn => s.setEnd e conn
    else none
  | .disconnect e payload =>
    ((s.ends e).send c (.disconnect payload)).map fun conn => s.setEnd e conn
  | .pingCheckEnd e => some (s.setEnd e { s.ends e with pingCheck := none })
  | .rawError e =>
    if (s.ends e).running then some (s.setEnd e { s.ends e with running := false }) else none

@[simp] theorem setEnd_ends_self (s : Link κ φ) (e : End) (conn : MplexConn κ) :
    (s.setEnd e conn).ends e = conn := Function.update_self ..

@[simp] theorem setEnd_ends_other (s : Link κ φ) (e : End) (conn : MplexConn κ) :
    (s.setEnd e conn).ends e.other = s.ends e.other :=
  Function.update_of_ne (End.other_ne e) ..

@[simp] theorem setEnd_wire (s : Link κ φ) (e : End) (conn : MplexConn κ) :
    (s.setEnd e conn).wire = s.wire := rfl

@[simp] theorem transmit_ends (s : Link κ φ) (e : End) (f : Option φ) :
    (s.transmit e f).ends = s.ends := by
  cases f <;> rfl

@[simp] theorem transmit_wire_self (s : Link κ φ) (e : End) (f : Option φ) :
    (s.transmit e f).wire e = s.wire e := by
  cases f with
  | none => rfl
  | some f => exact Function.update_of_ne (End.ne_other e) ..

@[simp] theorem transmit_wire_other (s : Link κ φ) (e : End) (f : Option φ) :
    (s.transmit e f).wire e.other = s.wire e.other ++ f.toList := by
  cases f with
  | none => simp [transmit]
  | some f => simp [transmit]

end Link

/-- A connection of two ends: fresh ends with any handlers, empty links. -/
def link {κ φ : Type} (c : Codec κ φ) : System (Link κ φ) LinkAct where
  init s := ∀ e, s.wire e = [] ∧
    ∃ handlers pingCheck, s.ends e = { handlers := handlers, pingCheck := pingCheck }
  step s a := s.step c a

/-! ## What is on its way to an end -/

section InFlight

variable {κ φ : Type} (c : Codec κ φ)

/-- The queued items that `conn_handler` will write to the wire. -/
def MplexConn.outgoing (conn : MplexConn κ) : List φ :=
  conn.mpsc.filterMap fun x => match c.route x with
    | .inl _ => none
    | .inr f => some f

/-- The frames on their way to end `e`: on the wire, or queued at the other end. -/
def Link.inFlight (s : Link κ φ) (e : End) : List φ :=
  s.wire e ++ (s.ends e.other).outgoing c

/-- The id a frame announces. -/
def announcedId (f : φ) : Option UInt32 :=
  match c.parse f with
  | .ok (id, .newStream, _) => some id
  | _ => none

/-- The `NewStream` announcements on their way to end `e`. -/
def Link.announcements (s : Link κ φ) (e : End) : List UInt32 :=
  (s.inFlight c e).filterMap (announcedId c)

/-- A local open is about to be handled: the internal `NewStream` with id 0 stands
at the head of the queue. -/
def MplexConn.opensNext (conn : MplexConn κ) : Bool :=
  match conn.mpsc with
  | [] => false
  | data :: _ =>
    match c.route data with
    | .inr _ => false
    | .inl f => announcedId c f == some 0

end InFlight

/-! ## Views between codecs -/

/-- A view of the frames of `c` as frames of `c'`. -/
structure Codec.Hom {κ φ κ' φ' : Type} (c : Codec κ φ) (c' : Codec κ' φ') where
  queue : κ → κ'
  wire : φ → φ'
  make : ∀ i, queue (c.make i) = c'.make i
  route : ∀ x, c'.route (queue x) = (c.route x).map wire wire
  parse : ∀ f, c'.parse (wire f) = c.parse f

/-- An announcement has no payload. -/
theorem Item.frame_newStream {i : Item} (hi : i.isInternal = false)
    (h : i.frame.flag = .newStream) : i.frame.payload.val = [] := by
  cases i <;> simp [Item.frame, Item.isInternal] at h hi ⊢
  rfl

/-- The byte strings are a view of the frames: `INTERNAL` is stripped again, no
other frame is taken for it, and the header is read back. -/
def bytesHom (V : UnsignedVarint) : frameCodec.Hom (bytesCodec V) where
  queue := Item.bytes V
  wire := Frame.bytes V
  make _ := rfl
  route i := by
    cases hi : i.isInternal with
    | true =>
      have hp : INTERNAL.isPrefixOf (INTERNAL ++ i.frame.bytes V) = true := by
        rw [List.isPrefixOf_iff_prefix]
        exact List.prefix_append _ _
      simp only [bytesCodec, frameCodec, Item.bytes, hi, if_true, hp, Sum.map_inl]
      rw [List.drop_left]
    | false =>
      have hp : INTERNAL.isPrefixOf (i.frame.bytes V) = false :=
        buildFrame_not_internal V _ _ _ fun h => Item.frame_newStream hi h
      have hb : Item.bytes V i = i.frame.bytes V := by simp [Item.bytes, hi]
      simp only [bytesCodec, frameCodec, hb]
      rw [hp, hi]
      rfl
  parse f := by
    have := extractPayload_buildFrame V f.id f.flag f.payload []
    rw [List.append_nil] at this
    exact this

section Map

variable {κ φ κ' φ' : Type} {c : Codec κ φ} {c' : Codec κ' φ'}

/-- View the queue of an end. -/
def MplexConn.map (g : κ → κ') (conn : MplexConn κ) : MplexConn κ' :=
  { conn with mpsc := conn.mpsc.map g }

/-- View a connection. -/
def Link.map (F : c.Hom c') (s : Link κ φ) : Link κ' φ' where
  ends e := (s.ends e).map F.queue
  wire e := (s.wire e).map F.wire

namespace Codec.Hom

variable (F : c.Hom c')

theorem putChannel_map (conn : MplexConn κ) (id : UInt32) (p : Payload) :
    (conn.map F.queue).putChannel id p
      = match conn.putChannel id p with
        | .error e => .error e
        | .ok conn' => .ok (conn'.map F.queue) := by
  simp only [MplexConn.putChannel, MplexConn.map]
  cases conn.streams.lookup id with
  | none => rfl
  | some h =>
    dsimp only
    cases conn.tasks[h]? with
    | none => rfl
    | some t =>
      dsimp only
      by_cases ht : t.phase = .ended
      · rw [if_pos ht, if_pos ht]
      · rw [if_neg ht, if_neg ht]

theorem openLocal_map (conn : MplexConn κ) (p : Payload) :
    (conn.map F.queue).openLocal c' p = (conn.openLocal c p).map F.queue := by
  simp [MplexConn.openLocal, MplexConn.map, F.make]

theorem handleFlag_map (conn : MplexConn κ) (id : UInt32) (flag : MuxedStreamFlag)
    (p : Payload) :
    (conn.map F.queue).handleFlag c' id flag p
      = match conn.handleFlag c id flag p with
        | .error e => .error e
        | .ok r => .ok (r.1.map F.queue, r.2) := by
  cases flag with
  | newStream =>
    simp only [MplexConn.handleFlag]
    by_cases h0 : id = 0
    · rw [if_pos h0, if_pos h0, F.openLocal_map]
    · rw [if_neg h0, if_neg h0]
      rfl
  | closeStream => rfl
  | disconnected => rfl
  | liveliness =>
    simp only [MplexConn.handleFlag]
    rw [show (conn.map F.queue).pingCheck = conn.pingCheck from rfl]
    cases conn.pingCheck <;> rfl
  | message | handshakeReq | handshakeRes =>
    simp only [MplexConn.handleFlag, F.putChannel_map]
    cases conn.putChannel id p <;> rfl

theorem handleIncoming_map (conn : MplexConn κ) (f : φ) :
    (conn.map F.queue).handleIncoming c' (F.wire f)
      = match conn.handleIncoming c f with
        | .error e => .error e
        | .ok r => .ok (r.1.map F.queue, r.2) := by
  simp only [MplexConn.handleIncoming, F.parse]
  cases c.parse f with
  | error e => rfl
  | ok r => exact F.handleFlag_map conn r.1 r.2.1 r.2.2

theorem recvQueue_map (conn : MplexConn κ) :
    (conn.map F.queue).recvQueue c'
      = (conn.recvQueue c).map fun r => (r.1.map F.queue, r.2.map F.wire) := by
  simp only [MplexConn.recvQueue]
  rw [show (conn.map F.queue).mpsc = conn.mpsc.map F.queue from rfl]
  by_cases hr : conn.running = true
  · rw [if_pos hr, if_pos (show (conn.map F.queue).running = true from hr)]
    cases conn.mpsc with
    | nil => rfl
    | cons data rest =>
      rw [List.map_cons]
      dsimp only
      rw [F.route]
      cases c.route data with
      | inr f => rfl
      | inl f =>
        dsimp only [Sum.map_inl]
        rw [show ({ conn.map F.queue with mpsc := rest.map F.queue } : MplexConn κ')
          = ({ conn with mpsc := rest } : MplexConn κ).map F.queue from rfl,
          F.handleIncoming_map]
        cases MplexConn.handleIncoming c { conn with mpsc := rest } f with
        | error e => rfl
        | ok r =>
          obtain ⟨conn', b⟩ := r
          cases b <;> rfl
  · rw [if_neg hr, if_neg (show ¬(conn.map F.queue).running = true from hr)]
    rfl

theorem recvRaw_map (conn : MplexConn κ) (f : φ) :
    (conn.map F.queue).recvRaw c' (F.wire f) = (conn.recvRaw c f).map (·.map F.queue) := by
  simp only [MplexConn.recvRaw]
  rw [show (conn.map F.queue).running = conn.running from rfl, F.handleIncoming_map]
  by_cases hr : conn.running = true
  · rw [if_pos hr, if_pos hr]
    cases conn.handleIncoming c f <;> rfl
  · rw [if_neg hr, if_neg hr]
    rfl

theorem send_map (conn : MplexConn κ) (i : Item) :
    (conn.map F.queue).send c' i = (conn.send c i).map (·.map F.queue) := by
  simp only [MplexConn.send]
  rw [show (conn.map F.queue).running = conn.running from rfl]
  by_cases hr : conn.running = true
  · rw [if_pos hr, if_pos hr]
    simp [MplexConn.map, F.make]
  · rw [if_neg hr, if_neg hr]
    rfl

theorem negotiate_map (conn : MplexConn κ) (h : Nat) (t : MplexStream) :
    (conn.map F.queue).negotiate c' h t = (conn.negotiate c h t).map (·.map F.queue) := by
  have hsend := F.send_map conn
  have halive : (conn.map F.queue).senderAlive h = conn.senderAlive h := rfl
  have hhas : ∀ p, (conn.map F.queue).hasHandler p = conn.hasHandler p := fun _ => rfl
  simp only [MplexConn.negotiate, halive, hhas, hsend]
  cases t.isInitiator <;> cases t.phase <;> try rfl
  · -- responder, reading the request
    cases t.channel with
    | nil => cases conn.senderAlive h <;> rfl
    | cons payload rest =>
      dsimp only
      cases conn.hasHandler payload with
      | false => rfl
      | true => cases conn.send c (.handshakeRes t.streamId payload) <;> rfl
  · -- initiator, sending the request
    cases t.proto with
    | none => rfl
    | some p =>
      dsimp only
      cases conn.send c (.handshakeReq t.streamId p) <;> rfl
  · -- initiator, reading the response
    cases t.channel with
    | nil => cases conn.senderAlive h <;> rfl
    | cons res rest => rfl

theorem taskStep_map (conn : MplexConn κ) (h : Nat) (a : MplexConn.TaskAct) :
    (conn.map F.queue).taskStep c' h a = (conn.taskStep c h a).map (·.map F.queue) := by
  have hsend := F.send_map conn
  have halive : (conn.map F.queue).senderAlive h = conn.senderAlive h := rfl
  simp only [MplexConn.taskStep, halive, hsend]
  rw [show (conn.map F.queue).tasks = conn.tasks from rfl]
  cases conn.tasks[h]? with
  | none => rfl
  | some t =>
    dsimp only
    cases a with
    | negotiate => exact F.negotiate_map conn h t
    | write msg =>
      dsimp only
      by_cases hp : t.phase = .handling
      · rw [if_pos hp, if_pos hp]
        cases conn.send c (.message t.streamId msg) <;> rfl
      · rw [if_neg hp, if_neg hp]; rfl
    | read =>
      dsimp only
      by_cases hp : t.phase = .handling
      · rw [if_pos hp, if_pos hp]
        cases t.channel with
        | nil => cases conn.senderAlive h <;> rfl
        | cons x rest => rfl
      · rw [if_neg hp, if_neg hp]; rfl
    | close =>
      dsimp only
      by_cases hp : t.phase = .handling
      · rw [if_pos hp, if_pos hp]
        cases conn.send c (.closeStream t.streamId) <;> rfl
      · rw [if_neg hp, if_neg hp]; rfl
    | finish =>
      dsimp only
      by_cases hp : t.phase = .handling
      · rw [if_pos hp, if_pos hp]; rfl
      · rw [if_neg hp, if_neg hp]; rfl

theorem setEnd_map (s : Link κ φ) (e : End) (conn : MplexConn κ) :
    (s.map F).setEnd e (conn.map F.queue) = (s.setEnd e conn).map F := by
  simp only [Link.setEnd, Link.map, Link.mk.injEq, and_true]
  funext d
  by_cases hd : d = e
  · rw [hd, Function.update_self, Function.update_self]
  · rw [Function.update_of_ne hd, Function.update_of_ne hd]

theorem setWire_map (s : Link κ φ) (e : End) (fs : List φ) :
    ({ s.map F with wire := Function.update (s.map F).wire e (fs.map F.wire) } : Link κ' φ')
      = Link.map F { s with wire := Function.update s.wire e fs } := by
  simp only [Link.map, Link.mk.injEq, true_and]
  funext d
  by_cases hd : d = e
  · rw [hd, Function.update_self, Function.update_self]
  · rw [Function.update_of_ne hd, Function.update_of_ne hd]

theorem transmit_map (s : Link κ φ) (e : End) (f : Option φ) :
    (s.map F).transmit e (f.map F.wire) = (s.transmit e f).map F := by
  cases f with
  | none => rfl
  | some f =>
    have h := F.setWire_map s e.other (s.wire e.other ++ [f])
    rw [List.map_append] at h
    exact h

/-- Every step commutes with the view. -/
theorem step_map (s : Link κ φ) (a : LinkAct) :
    (s.map F).step c' a = (s.step c a).map (·.map F) := by
  have hends : ∀ e, (s.map F).ends e = (s.ends e).map F.queue := fun _ => rfl
  cases a with
  | openReq e protocol =>
    simp only [Link.step, hends, F.send_map, Option.map_map]
    congr 1; funext conn; exact F.setEnd_map s e conn
  | recvQueue e =>
    simp only [Link.step, hends, F.recvQueue_map, Option.map_map]
    congr 1; funext r
    simp only [Function.comp_apply]
    rw [F.setEnd_map, F.transmit_map]
  | recvRaw e =>
    simp only [Link.step]
    rw [show (s.map F).wire e = (s.wire e).map F.wire from rfl]
    cases s.wire e with
    | nil => rfl
    | cons f rest =>
      rw [List.map_cons]
      dsimp only
      rw [hends, F.recvRaw_map, Option.map_map, Option.map_map]
      congr 1; funext conn
      simp only [Function.comp_apply]
      rw [F.setEnd_map]
      exact F.setWire_map (s.setEnd e conn) e rest
  | task e h a =>
    simp only [Link.step, hends, F.taskStep_map, Option.map_map]
    congr 1; funext conn; exact F.setEnd_map s e conn
  | liveliness e =>
    simp only [Link.step, hends]
    rw [show ((s.ends e).map F.queue).pingCheck = (s.ends e).pingCheck from rfl]
    cases (s.ends e).pingCheck with
    | none => rfl
    | some q =>
      simp only [Option.isSome_some, if_true, F.send_map, Option.map_map]
      congr 1; funext conn; exact F.setEnd_map s e conn
  | disconnect e payload =>
    simp only [Link.step, hends, F.send_map, Option.map_map]
    congr 1; funext conn; exact F.setEnd_map s e conn
  | pingCheckEnd e =>
    simp only [Link.step, Option.map_some]
    congr 1
    exact F.setEnd_map s e { s.ends e with pingCheck := none }
  | rawError e =>
    simp only [Link.step, hends]
    rw [show ((s.ends e).map F.queue).running = (s.ends e).running from rfl]
    cases (s.ends e).running with
    | false => rfl
    | true =>
      simp only [if_true, Option.map_some]
      congr 1
      exact F.setEnd_map s e { s.ends e with running := false }

/-- A fresh connection over `c'` is the view of one over `c`. -/
theorem init_view {t : Link κ' φ'} (ht : (link c').init t) :
    ∃ s, (link c).init s ∧ t = s.map F := by
  choose hw handlers pingCheck hends using ht
  refine ⟨⟨fun e => { handlers := handlers e, pingCheck := pingCheck e }, fun _ => []⟩,
    fun e => ⟨rfl, handlers e, pingCheck e, rfl⟩, ?_⟩
  obtain ⟨ends, wire⟩ := t
  simp only [Link.map, Link.mk.injEq]
  exact ⟨funext fun e => hends e, funext fun e => hw e⟩

/-- Every run over `c'` is the view of a run over `c` with the same actions. -/
theorem run_view {D : Link κ' φ' → LinkAct → Prop} {as : List LinkAct} {t : Link κ' φ'}
    (h : (link c').RunUnder D as t) :
    ∃ s, (link c).RunUnder (fun s a => D (s.map F) a) as s ∧ t = s.map F := by
  refine h.simulate (M := link c) (fun s t => t = s.map F) (fun t ht => F.init_view ht) ?_
  intro s t a t' h hD hstep
  subst h
  have hmap := F.step_map s a
  rw [show (s.map F).step c' a = some t' from hstep] at hmap
  obtain ⟨s', hs', ht'⟩ := Option.map_eq_some_iff.mp hmap.symm
  exact ⟨s', hs', hD, ht'.symm⟩

theorem outgoing_map (conn : MplexConn κ) :
    (conn.map F.queue).outgoing c' = (conn.outgoing c).map F.wire := by
  simp only [MplexConn.outgoing, MplexConn.map]
  induction conn.mpsc with
  | nil => rfl
  | cons x l ih =>
    rw [List.map_cons, List.filterMap_cons, List.filterMap_cons, F.route]
    cases c.route x with
    | inl f => exact ih
    | inr f => exact congrArg (List.cons (F.wire f)) ih

theorem announcedId_map (f : φ) : announcedId c' (F.wire f) = announcedId c f := by
  rw [announcedId, announcedId, F.parse]

theorem announcements_map (s : Link κ φ) (e : End) :
    (s.map F).announcements c' e = s.announcements c e := by
  have hf : (s.map F).inFlight c' e = (s.inFlight c e).map F.wire := by
    simp only [Link.inFlight, List.map_append]
    rw [← F.outgoing_map]
    rfl
  rw [Link.announcements, Link.announcements, hf, List.filterMap_map]
  congr 1
  funext f
  exact F.announcedId_map f

theorem opensNext_map (conn : MplexConn κ) :
    (conn.map F.queue).opensNext c' = conn.opensNext c := by
  simp only [MplexConn.opensNext]
  rw [show (conn.map F.queue).mpsc = conn.mpsc.map F.queue from rfl]
  cases conn.mpsc with
  | nil => rfl
  | cons x l =>
    rw [List.map_cons]
    dsimp only
    rw [F.route]
    cases c.route x with
    | inr f => rfl
    | inl f =>
      dsimp only [Sum.map_inl]
      rw [F.announcedId_map]

end Codec.Hom

end Map

end Rnet.Mplex
