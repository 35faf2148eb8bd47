import Rnet.Mplex.Recipient

/-!
# One end of a connection, with its bounded channels

The connection queue, the channel of each stream and that of `ping_check` hold 100 items, and a
`send` on a full one waits. Here a turn ends at each such `await`: `conn_handler` stands where
it waits (`HandlerAt`), and a stream task has a send in flight (`pending`) until its item finds
a place. A handler may have put a `write` under a timeout, and gives it up when that fires.

> `turn_of_step`: a turn of `MplexConn.step` that finds room everywhere is an uninterrupted turn
> of this model.
-/

namespace Rnet.Mplex

open Rnet.Lib (System)

/-- `mpsc::channel::<Vec<u8>>(100)`: of the connection, of each stream and of `ping_check`. -/
def channelCapacity : Nat := 100

/-- Where `conn_handler` stands between its turns. -/
inductive HandlerAt
  /-- in `select!` -/
  | select
  /-- `self.send(initiator_frame).await`, before the task of the stream is spawned -/
  | announcing (id : UInt32) (protocol : Payload)
  /-- `muxed_stream_mpsc_tx.send(payload_extracted).await` -/
  | putting (h : Nat) (payload : Payload)
  /-- `self.ping_check_tx.send(payload_extracted).await` -/
  | pinging (payload : Payload)
  deriving DecidableEq

/-- A send of a stream task on the connection queue. -/
structure PendingSend where
  item : Item
  /-- the handler has put it under a timeout -/
  timed : Bool
  deriving DecidableEq

/-- One end of the connection. -/
structure BoundedConn (κ : Type) where
  conn : MplexConn κ
  stands : HandlerAt := .select
  /-- the send that a stream task waits for -/
  pending : Nat → Option PendingSend := fun _ => none

/-- What a stream task does up to its next `await`. -/
inductive BeginAct
  | negotiate
  | write (msg : Payload) (timed : Bool)
  | read
  | close (timed : Bool)
  | finish

/-- One turn. -/
inductive BoundedAct (φ : Type)
  | openReq (protocol : Payload)
  | recvQueue
  | recvRaw (frames : φ)
  /-- the announcement finds a place on the queue -/
  | announce
  /-- the payload finds a place in the stream's channel -/
  | put
  /-- the payload finds a place in `ping_check`'s channel -/
  | ping
  | begin (h : Nat) (a : BeginAct)
  /-- the send of task `h` finds a place, or the queue is gone -/
  | sent (h : Nat)
  /-- the timeout around the send of task `h` fires -/
  | giveUp (h : Nat)
  | liveliness
  | pingRead
  | disconnect (payload : Payload)
  | pingCheckEnd
  | rawError

/-- The stream task after its item is on the queue. -/
def MplexStream.sentItem (t : MplexStream) : Item → MplexStream
  | .handshakeReq _ protocol => { t with phase := .awaitingRes, sent := t.sent ++ [protocol] }
  | .handshakeRes _ payload => { t with phase := .handling, sent := t.sent ++ [payload] }
  | .message _ msg => { t with sent := t.sent ++ [msg] }
  | _ => t

/-- The stream task after `send` has returned an error: `negotiate` unwraps it. -/
def MplexStream.sendFailed (t : MplexStream) : Item → MplexStream
  | .handshakeReq _ _ | .handshakeRes _ _ => { t with phase := .ended }
  | _ => t

namespace BoundedConn

variable {κ φ : Type} (c : Codec κ φ)

/-- `conn_handler` returns or panics. -/
def stop (s : BoundedConn κ) : BoundedConn κ :=
  { s with conn := { s.conn with running := false }, stands := .select }

/-- `mpsc_tx.send(..)` of a task that holds no channel of this connection. -/
def push (s : BoundedConn κ) (i : Item) : Option (BoundedConn κ) :=
  if s.conn.running ∧ s.conn.mpsc.length < channelCapacity then
    some { s with conn := { s.conn with mpsc := s.conn.mpsc ++ [c.make i] } }
  else none

/-- The `match flag` of `handle_incoming`, up to its first `await`. -/
def handleFlag (s : BoundedConn κ) (stream_id : UInt32) (flag : MuxedStreamFlag)
    (payload : Payload) : BoundedConn κ × Bool :=
  match flag with
  | .newStream =>
    if stream_id = 0 then
      ({ s with
        conn := { s.conn with
          streamCounter := s.conn.streamCounter + 1
          streams := s.conn.streams.insert (s.conn.streamCounter + 1) s.conn.tasks.length }
        stands := .announcing (s.conn.streamCounter + 1) payload }, true)
    else ({ s with conn := s.conn.openRemote stream_id }, true)
  | .message | .handshakeRes | .handshakeReq =>
    match s.conn.streams.lookup stream_id with
    | none => (s, true)
    | some h => ({ s with stands := .putting h payload }, true)
  | .closeStream =>
    ({ s with conn := { s.conn with streams := s.conn.streams.erase stream_id } }, true)
  | .disconnected => ({ s with conn := { s.conn with rawClosed := true } }, false)
  | .liveliness => ({ s with stands := .pinging payload }, true)

/-- `handle_incoming`, up to its first `await`. -/
def handleIncoming (s : BoundedConn κ) (frames : φ) : BoundedConn κ × Bool :=
  match c.parse frames with
  | .error _ => (s.stop, true)
  | .ok (stream_id, flag, payload) => s.handleFlag stream_id flag payload

/-- The queue without its head. -/
def withQueue (s : BoundedConn κ) (rest : List κ) : BoundedConn κ :=
  { s with conn := { s.conn with mpsc := rest } }

/-- The first branch of `select!`. -/
def recvQueue (s : BoundedConn κ) : Option (BoundedConn κ) :=
  if s.conn.running ∧ s.stands = .select then
    match s.conn.mpsc with
    | [] => none
    | data :: rest =>
      match c.route data with
      | .inr _ => some (s.withQueue rest)
      | .inl frames =>
        match (s.withQueue rest).handleIncoming c frames with
        | (s', true) => some s'
        | (s', false) => some s'.stop
  else none

/-- The second branch. -/
def recvRaw (s : BoundedConn κ) (frames : φ) : Option (BoundedConn κ) :=
  if s.conn.running ∧ s.stands = .select then some (s.handleIncoming c frames).1 else none

/-- `self.send(initiator_frame).await.unwrap()` finds a place, and the stream's task is spawned. -/
def announce (s : BoundedConn κ) : Option (BoundedConn κ) :=
  match s.stands with
  | .announcing id protocol =>
    if s.conn.mpsc.length < channelCapacity then
      some { s with
        conn := { s.conn with
          mpsc := s.conn.mpsc ++ [c.make (.announce id)]
          tasks := s.conn.tasks ++
            [{ streamId := id, isInitiator := true, proto := some protocol }] }
        stands := .select }
    else none
  | _ => none

/-- The `send` into a stream's channel finds a place, or its receiver is gone. -/
def put (s : BoundedConn κ) : Option (BoundedConn κ) :=
  match s.stands with
  | .putting h payload =>
    match s.conn.tasks[h]? with
    | none => some s.stop
    | some t =>
      if t.phase = .ended then some s.stop
      else if t.channel.length < channelCapacity then
        some { s with
          conn := s.conn.setTask h
            { t with channel := t.channel ++ [payload], put := t.put ++ [payload] }
          stands := .select }
      else none
  | _ => none

/-- The same for `ping_check`'s channel. -/
def ping (s : BoundedConn κ) : Option (BoundedConn κ) :=
  match s.stands with
  | .pinging payload =>
    match s.conn.pingCheck with
    | none => some s.stop
    | some q =>
      if q.length < channelCapacity then
        some { s with
          conn := { s.conn with pingCheck := some (q ++ [payload]) }, stands := .select }
      else none
  | _ => none

/-- Store the next state of task `h`. -/
def setTask (s : BoundedConn κ) (h : Nat) (t : MplexStream) : BoundedConn κ :=
  { s with conn := s.conn.setTask h t }

/-- Task `h` starts to send. -/
def send (s : BoundedConn κ) (h : Nat) (i : Item) (timed : Bool) : BoundedConn κ :=
  { s with pending := Function.update s.pending h (some ⟨i, timed⟩) }

/-- `negotiate` and the lookup in the registry, up to the next `await`. -/
def negotiate (s : BoundedConn κ) (h : Nat) (t : MplexStream) : Option (BoundedConn κ) :=
  match t.isInitiator, t.phase with
  | true, .negotiating =>
    match t.proto with
    | none => some (s.setTask h { t with phase := .ended })
    | some protocol => some (s.send h (.handshakeReq t.streamId protocol) false)
  | true, .awaitingRes =>
    match t.channel with
    | [] => if s.conn.senderAlive h then none else some (s.setTask h { t with phase := .ended })
    | res :: rest =>
      some (s.setTask h { t with
        channel := rest
        phase := if t.proto = some res ∧ s.conn.hasHandler res then .handling else .ended })
  | false, .negotiating =>
    match t.channel with
    | [] => if s.conn.senderAlive h then none else some (s.setTask h { t with phase := .ended })
    | payload :: rest =>
      if s.conn.hasHandler payload then
        some ((s.setTask h { t with channel := rest }).send h
          (.handshakeRes t.streamId payload) false)
      else some (s.setTask h { t with channel := rest, phase := .ended })
  | _, _ => none

/-- Task `h` moves on to its next `await`. -/
def beginTask (s : BoundedConn κ) (h : Nat) (a : BeginAct) : Option (BoundedConn κ) :=
  match s.conn.tasks[h]?, s.pending h with
  | some t, none =>
    match a with
    | .negotiate => s.negotiate h t
    | .write msg timed =>
      if t.phase = .handling then some (s.send h (.message t.streamId msg) timed) else none
    | .read =>
      if t.phase = .handling then
        match t.channel with
        | [] => if s.conn.senderAlive h then none else some s
        | _ :: rest => some (s.setTask h { t with channel := rest })
      else none
    | .close timed =>
      if t.phase = .handling then some (s.send h (.closeStream t.streamId) timed) else none
    | .finish =>
      if t.phase = .handling then some (s.setTask h { t with phase := .ended }) else none
  | _, _ => none

/-- The item of task `h` finds a place on the queue, or `send` fails. -/
def sent (s : BoundedConn κ) (h : Nat) : Option (BoundedConn κ) :=
  match s.conn.tasks[h]?, s.pending h with
  | some t, some w =>
    if s.conn.running then
      if s.conn.mpsc.length < channelCapacity then
        some {
          conn := ({ s.conn with mpsc := s.conn.mpsc ++ [c.make w.item] }).setTask h
            (t.sentItem w.item)
          stands := s.stands
          pending := Function.update s.pending h none }
      else none
    else
      some {
        conn := s.conn.setTask h (t.sendFailed w.item)
        stands := s.stands
        pending := Function.update s.pending h none }
  | _, _ => none

/-- The timeout of task `h`'s handler fires. -/
def giveUp (s : BoundedConn κ) (h : Nat) : Option (BoundedConn κ) :=
  match s.pending h with
  | some ⟨_, true⟩ => some { s with pending := Function.update s.pending h none }
  | _ => none

/-- `ping_check_rx.recv()`. -/
def pingRead (s : BoundedConn κ) : Option (BoundedConn κ) :=
  match s.conn.pingCheck with
  | some (_ :: q) => some { s with conn := { s.conn with pingCheck := some q } }
  | _ => none

/-- One turn. -/
def step (s : BoundedConn κ) : BoundedAct φ → Option (BoundedConn κ)
  | .openReq protocol => s.push c (.openStream protocol)
  | .recvQueue => s.recvQueue c
  | .recvRaw frames => s.recvRaw c frames
  | .announce => s.announce c
  | .put => s.put
  | .ping => s.ping
  | .begin h a => s.beginTask h a
  | .sent h => s.sent c h
  | .giveUp h => s.giveUp h
  | .liveliness => if s.conn.pingCheck.isSome then s.push c .liveliness else none
  | .pingRead => s.pingRead
  | .disconnect payload => s.push c (.disconnect payload)
  | .pingCheckEnd => some { s with conn := { s.conn with pingCheck := none } }
  | .rawError => if s.conn.running ∧ s.stands = .select then some s.stop else none

end BoundedConn

/-- A connection with bounded channels and any peer. -/
def boundedConn {κ φ : Type} (c : Codec κ φ) : System (BoundedConn κ) (BoundedAct φ) where
  init s := ∃ handlers pingCheck,
    s = { conn := { handlers := handlers, pingCheck := pingCheck } } ∧
      ∀ q, pingCheck = some q → q = []
  step s a := s.step c a

/-! ## The turns of the unbounded model -/

section Turns

variable {κ φ : Type} {c : Codec κ φ}

/-- Every channel of the end has a place left. -/
structure MplexConn.HasRoom (conn : MplexConn κ) : Prop where
  queue : conn.mpsc.length < channelCapacity
  channels : ∀ t ∈ conn.tasks, t.channel.length < channelCapacity
  ping : ∀ q, conn.pingCheck = some q → q.length < channelCapacity

/-- The end between two turns of `conn_handler`, with no send in flight. -/
def BoundedConn.idle (conn : MplexConn κ) : BoundedConn κ := { conn := conn }

/-- Some turns lead from one state to another. -/
def BoundedConn.Leads (c : Codec κ φ) (s s' : BoundedConn κ) : Prop :=
  ∃ bs, (boundedConn c).exec (fun _ _ => True) s bs = some s'

theorem BoundedConn.Leads.rfl {s : BoundedConn κ} : s.Leads c s := ⟨[], Eq.refl _⟩

theorem BoundedConn.Leads.step {s s₁ s' : BoundedConn κ} {b : BoundedAct φ}
    (hs : s.step c b = some s₁) (h : s₁.Leads c s') : s.Leads c s' := by
  obtain ⟨bs, hbs⟩ := h
  refine ⟨b :: bs, ?_⟩
  rw [System.exec, if_pos trivial, show (boundedConn c).step s b = some s₁ from hs]
  exact hbs

theorem BoundedConn.Leads.one {s s' : BoundedConn κ} {b : BoundedAct φ}
    (hs : s.step c b = some s') : s.Leads c s' := .step hs .rfl

theorem update_none {pending : Nat → Option PendingSend} {h : Nat} {w : Option PendingSend}
    (hp : pending h = none) : Function.update (Function.update pending h w) h none = pending := by
  rw [Function.update_idem, ← hp, Function.update_eq_self]

/-- `handle_incoming` with room everywhere. -/
theorem handleIncoming_turn {conn : MplexConn κ} (hr : conn.HasRoom) (frames : φ) :
    (∀ e, conn.handleIncoming c frames = .error e →
      ((BoundedConn.idle conn).handleIncoming c frames).2 = true ∧
      ((BoundedConn.idle conn).handleIncoming c frames).1.Leads c
        (.idle { conn with running := false })) ∧
    ∀ conn' b, conn.handleIncoming c frames = .ok (conn', b) →
      ((BoundedConn.idle conn).handleIncoming c frames).2 = b ∧
      (b = false → ((BoundedConn.idle conn).handleIncoming c frames).1 = .idle conn') ∧
      ((BoundedConn.idle conn).handleIncoming c frames).1.Leads c (.idle conn') := by
  rw [MplexConn.handleIncoming, BoundedConn.handleIncoming]
  cases c.parse frames with
  | error e => exact ⟨fun _ _ => ⟨rfl, .rfl⟩, fun _ _ h => by simp at h⟩
  | ok r =>
    obtain ⟨id, flag, payload⟩ := r
    dsimp only
    cases flag with
    | newStream =>
      simp only [MplexConn.handleFlag, BoundedConn.handleFlag]
      by_cases h0 : id = 0
      · rw [if_pos h0, if_pos h0]
        refine ⟨fun _ h => by simp at h, fun conn' b h => ?_⟩
        obtain ⟨rfl, rfl⟩ := Prod.mk.inj (Except.ok.inj h)
        refine ⟨rfl, by simp, .one (b := .announce) ?_⟩
        exact if_pos hr.queue
      · rw [if_neg h0, if_neg h0]
        refine ⟨fun _ h => by simp at h, fun conn' b h => ?_⟩
        obtain ⟨rfl, rfl⟩ := Prod.mk.inj (Except.ok.inj h)
        exact ⟨rfl, by simp, .rfl⟩
    | closeStream | disconnected =>
      refine ⟨fun _ h => by simp [MplexConn.handleFlag] at h, fun conn' b h => ?_⟩
      obtain ⟨rfl, rfl⟩ := Prod.mk.inj (Except.ok.inj h)
      exact ⟨rfl, fun _ => rfl, .rfl⟩
    | message | handshakeReq | handshakeRes =>
      simp only [MplexConn.handleFlag, BoundedConn.handleFlag, MplexConn.putChannel,
        BoundedConn.idle]
      cases hl : conn.streams.lookup id with
      | none =>
        refine ⟨fun _ h => by simp at h, fun conn' b h => ?_⟩
        obtain ⟨rfl, rfl⟩ := Prod.mk.inj (Except.ok.inj h)
        exact ⟨rfl, by simp, .rfl⟩
      | some k =>
        dsimp only
        cases ht : conn.tasks[k]? with
        | none =>
          refine ⟨fun _ _ => ⟨rfl, .one (b := .put) ?_⟩, fun _ _ h => by simp at h⟩
          simp only [BoundedConn.step, BoundedConn.put, ht]
          rfl
        | some t =>
          dsimp only
          by_cases hph : t.phase = .ended
          · rw [if_pos hph]
            refine ⟨fun _ _ => ⟨rfl, .one (b := .put) ?_⟩, fun _ _ h => by simp at h⟩
            simp only [BoundedConn.step, BoundedConn.put, ht, if_pos hph]
            rfl
          · rw [if_neg hph]
            refine ⟨fun _ h => by simp at h, fun conn' b h => ?_⟩
            obtain ⟨rfl, rfl⟩ := Prod.mk.inj (Except.ok.inj h)
            refine ⟨rfl, by simp, .one (b := .put) ?_⟩
            simp only [BoundedConn.step, BoundedConn.put, ht, if_neg hph,
              if_pos (hr.channels t (List.mem_of_getElem? ht))]
            rfl
    | liveliness =>
      simp only [MplexConn.handleFlag, BoundedConn.handleFlag, BoundedConn.idle]
      cases hp : conn.pingCheck with
      | none =>
        refine ⟨fun _ _ => ⟨trivial, .one (b := .ping) ?_⟩, fun _ _ h => by simp at h⟩
        simp [BoundedConn.step, BoundedConn.ping, BoundedConn.stop, hp]
      | some q =>
        refine ⟨fun _ h => by simp at h, fun conn' b h => ?_⟩
        obtain ⟨rfl, rfl⟩ := Prod.mk.inj (Except.ok.inj h)
        refine ⟨rfl, by simp, .one (b := .ping) ?_⟩
        simp only [BoundedConn.step, BoundedConn.ping, hp, if_pos (hr.ping q hp)]

theorem setTask_self {conn : MplexConn κ} {h : Nat} {t : MplexStream}
    (ht : conn.tasks[h]? = some t) : conn.setTask h t = conn := by
  obtain ⟨hlt, he⟩ := List.getElem?_eq_some_iff.mp ht
  rw [MplexConn.setTask, ← he, List.set_getElem_self]

theorem setTask_setTask (conn : MplexConn κ) (h : Nat) (t t' : MplexStream) :
    (conn.setTask h t).setTask h t' = conn.setTask h t' := by
  rw [MplexConn.setTask, MplexConn.setTask, MplexConn.setTask, List.set_set]

/-- A send of a stream task finds its place, or the queue is gone. -/
theorem send_turn {conn : MplexConn κ} (hr : conn.HasRoom) {h : Nat} (t : MplexStream) (i : Item)
    (timed : Bool) (hlt : h < conn.tasks.length) :
    (((BoundedConn.idle conn).setTask h t).send h i timed).Leads c
      (.idle (match conn.send c i with
        | none => conn.setTask h (t.sendFailed i)
        | some conn' => conn'.setTask h (t.sentItem i))) := by
  refine .one (b := .sent h) ?_
  have ht : (conn.setTask h t).tasks[h]? = some t := List.getElem?_set_self hlt
  simp only [BoundedConn.step, BoundedConn.sent, BoundedConn.setTask, BoundedConn.idle,
    BoundedConn.send, ht, Function.update_self, MplexConn.send]
  rw [update_none rfl, setTask_setTask]
  by_cases hrun : conn.running = true
  · rw [if_pos hrun]
    refine (if_pos hrun).trans ((if_pos hr.queue).trans ?_)
    congr 2
    exact setTask_setTask { conn with mpsc := conn.mpsc ++ [c.make i] } h t _
  · rw [if_neg hrun]
    exact if_neg hrun

/-- A turn of the negotiation that finds room. -/
theorem negotiate_turn {conn conn' : MplexConn κ} (hr : conn.HasRoom) {h : Nat} {t : MplexStream}
    (ht : conn.tasks[h]? = some t) (hs : conn.negotiate c h t = some conn') :
    ∃ s, (BoundedConn.idle conn).negotiate h t = some s ∧ s.Leads c (.idle conn') := by
  have hlt := (List.getElem?_eq_some_iff.mp ht).1
  have sends : ∀ (t₁ : MplexStream) (i : Item) {r : MplexConn κ},
      (match conn.send c i with
        | none => some (conn.setTask h (t₁.sendFailed i))
        | some conn' => some (conn'.setTask h (t₁.sentItem i))) = some r →
      (((BoundedConn.idle conn).setTask h t₁).send h i false).Leads c (.idle r) := by
    intro t₁ i r he
    have hsend := send_turn (c := c) hr t₁ i false hlt
    split at he
    · rename_i hnone
      rw [hnone] at hsend
      rwa [← Option.some.inj he]
    · rename_i hsome
      rw [hsome] at hsend
      rwa [← Option.some.inj he]
  obtain ⟨id, role, proto, phase, channel, put, sent⟩ := t
  cases role with
  | true =>
    cases phase with
    | negotiating =>
      cases proto with
      | none =>
        obtain rfl := Option.some.inj hs
        exact ⟨_, rfl, .rfl⟩
      | some protocol =>
        have hl := sends ⟨id, true, some protocol, .negotiating, channel, put, sent⟩ _ hs
        rw [show (BoundedConn.idle conn).setTask h _ = .idle conn from
          congrArg BoundedConn.idle (setTask_self ht)] at hl
        exact ⟨_, rfl, hl⟩
    | awaitingRes =>
      cases channel with
      | nil =>
        simp only [MplexConn.negotiate] at hs
        split at hs
        · simp at hs
        · rename_i hdead
          obtain rfl := Option.some.inj hs
          exact ⟨_, if_neg hdead, .rfl⟩
      | cons res rest =>
        obtain rfl := Option.some.inj hs
        exact ⟨_, rfl, .rfl⟩
    | handling | ended => simp [MplexConn.negotiate] at hs
  | false =>
    cases phase with
    | negotiating =>
      cases channel with
      | nil =>
        simp only [MplexConn.negotiate] at hs
        split at hs
        · simp at hs
        · rename_i hdead
          obtain rfl := Option.some.inj hs
          exact ⟨_, if_neg hdead, .rfl⟩
      | cons payload rest =>
        simp only [MplexConn.negotiate] at hs
        split at hs
        · rename_i hhas
          exact ⟨_, if_pos hhas, sends ⟨id, false, proto, .negotiating, rest, put, sent⟩ _ hs⟩
        · rename_i hhas
          obtain rfl := Option.some.inj hs
          exact ⟨_, if_neg hhas, .rfl⟩
    | awaitingRes | handling | ended => simp [MplexConn.negotiate] at hs

/-- A turn of a stream task that finds room. -/
theorem task_turn {conn conn' : MplexConn κ} (hr : conn.HasRoom) {h : Nat}
    {a : MplexConn.TaskAct} (hs : conn.taskStep c h a = some conn') :
    (BoundedConn.idle conn).Leads c (.idle conn') := by
  rw [MplexConn.taskStep] at hs
  cases ht : conn.tasks[h]? with
  | none =>
    rw [ht] at hs
    simp at hs
  | some t =>
    rw [ht] at hs
    dsimp only at hs
    have hlt := (List.getElem?_eq_some_iff.mp ht).1
    have hbegin : ∀ b, (BoundedConn.idle conn).beginTask h b =
        match b with
        | .negotiate => (BoundedConn.idle conn).negotiate h t
        | .write msg timed => if t.phase = .handling then
            some ((BoundedConn.idle conn).send h (.message t.streamId msg) timed) else none
        | .read => if t.phase = .handling then
            match t.channel with
            | [] => if conn.senderAlive h then none else some (.idle conn)
            | _ :: rest => some ((BoundedConn.idle conn).setTask h { t with channel := rest })
          else none
        | .close timed => if t.phase = .handling then
            some ((BoundedConn.idle conn).send h (.closeStream t.streamId) timed) else none
        | .finish => if t.phase = .handling then
            some ((BoundedConn.idle conn).setTask h { t with phase := .ended }) else none := by
      intro b
      simp only [BoundedConn.beginTask, BoundedConn.idle, ht]
      cases b <;> rfl
    have sends : ∀ {b : BeginAct} {i : Item},
        (BoundedConn.idle conn).beginTask h b = some ((BoundedConn.idle conn).send h i false) →
        t.sendFailed i = t →
        (match conn.send c i with
          | none => some conn
          | some conn' => some (conn'.setTask h (t.sentItem i))) = some conn' →
        (BoundedConn.idle conn).Leads c (.idle conn') := by
      intro b i hb hfail he
      refine .step (b := .begin h b) hb ?_
      have hsend := send_turn (c := c) hr t i false hlt
      rw [show (BoundedConn.idle conn).setTask h t = .idle conn from
        congrArg BoundedConn.idle (setTask_self ht)] at hsend
      split at he
      · rename_i hnone
        rw [hnone] at hsend
        dsimp only at hsend
        rw [hfail, setTask_self ht] at hsend
        rwa [← Option.some.inj he]
      · rename_i hsome
        rw [hsome] at hsend
        rwa [← Option.some.inj he]
    cases a with
    | negotiate =>
      obtain ⟨s, hb, hl⟩ := negotiate_turn hr ht hs
      exact .step (b := .begin h .negotiate) ((hbegin .negotiate).trans hb) hl
    | write msg =>
      dsimp only at hs
      split at hs
      · rename_i hph
        exact sends (b := .write msg false) ((hbegin _).trans (if_pos hph)) rfl hs
      · simp at hs
    | read =>
      dsimp only at hs
      split at hs
      swap
      · simp at hs
      rename_i hph
      have hb := (hbegin .read).trans (if_pos hph)
      split at hs
      · rename_i hch
        split at hs
        · simp at hs
        · rename_i hdead
          obtain rfl := Option.some.inj hs
          rw [hch] at hb
          exact .one (b := .begin h .read) (hb.trans (if_neg hdead))
      · rename_i hch
        obtain rfl := Option.some.inj hs
        rw [hch] at hb
        exact .one (b := .begin h .read) hb
    | close =>
      dsimp only at hs
      split at hs
      · rename_i hph
        refine sends (b := .close false) ((hbegin _).trans (if_pos hph)) rfl ?_
        rw [← hs]
        cases hsend : conn.send c (.closeStream t.streamId) with
        | none => rfl
        | some conn₁ =>
          obtain rfl := send_shape hsend
          exact congrArg some (setTask_self ht)
      · simp at hs
    | finish =>
      dsimp only at hs
      split at hs
      · rename_i hph
        obtain rfl := Option.some.inj hs
        exact .one (b := .begin h .finish) ((hbegin .finish).trans (if_pos hph))
      · simp at hs

/-- **A turn of `MplexConn.step`** that finds room everywhere is an uninterrupted turn. -/
theorem turn_of_step {conn conn' : MplexConn κ} (hr : conn.HasRoom) {a : ConnAct φ}
    (hs : conn.step c a = some conn') : (BoundedConn.idle conn).Leads c (.idle conn') := by
  have push : ∀ {i : Item}, conn.send c i = some conn' →
      (BoundedConn.idle conn).push c i = some (.idle conn') := by
    intro i hsend
    rw [MplexConn.send] at hsend
    split at hsend
    · rename_i hrun
      obtain rfl := Option.some.inj hsend
      exact if_pos ⟨hrun, hr.queue⟩
    · simp at hsend
  cases a with
  | openReq p => exact .one (b := .openReq p) (push hs)
  | disconnect p => exact .one (b := .disconnect p) (push hs)
  | liveliness =>
    simp only [MplexConn.step] at hs
    split at hs
    · rename_i hp
      exact .one (b := .liveliness) ((if_pos hp).trans (push hs))
    · simp at hs
  | task h a => exact task_turn hr hs
  | pingCheckEnd =>
    obtain rfl := Option.some.inj hs
    exact .one (b := .pingCheckEnd) rfl
  | rawError =>
    simp only [MplexConn.step] at hs
    split at hs
    · rename_i hrun
      obtain rfl := Option.some.inj hs
      exact .one (b := .rawError) (if_pos ⟨hrun, rfl⟩)
    · simp at hs
  | recvRaw frames =>
    obtain ⟨herr, hok⟩ := handleIncoming_turn (c := c) hr frames
    simp only [MplexConn.step, MplexConn.recvRaw] at hs
    split at hs
    swap
    · simp at hs
    rename_i hrun
    refine .step (b := .recvRaw frames) (if_pos ⟨hrun, rfl⟩) ?_
    split at hs
    · rename_i hin
      obtain rfl := Option.some.inj hs
      exact (herr _ hin).2
    · rename_i hin
      obtain rfl := Option.some.inj hs
      exact (hok _ _ hin).2.2
  | recvQueue =>
    obtain ⟨⟨conn₁, w⟩, hq, rfl⟩ := Option.map_eq_some_iff.mp hs
    rw [MplexConn.recvQueue] at hq
    split at hq
    swap
    · simp at hq
    rename_i hrun
    cases hm : conn.mpsc with
    | nil =>
      rw [hm] at hq
      simp at hq
    | cons data rest =>
      rw [hm] at hq
      dsimp only at hq
      have hrest : MplexConn.HasRoom { conn with mpsc := rest } := by
        refine ⟨?_, hr.channels, hr.ping⟩
        have := hr.queue
        rw [hm, List.length_cons] at this
        show rest.length < _
        omega
      have hb : (BoundedConn.idle conn).step c .recvQueue =
          match c.route data with
          | .inr _ => some (.idle { conn with mpsc := rest })
          | .inl frames =>
            match (BoundedConn.idle { conn with mpsc := rest }).handleIncoming c frames with
            | (s', true) => some s'
            | (s', false) => some s'.stop := by
        refine (if_pos ⟨hrun, rfl⟩).trans ?_
        simp only [BoundedConn.idle, hm]
        rfl
      split at hq
      · rename_i hroute
        obtain ⟨rfl, -⟩ := Prod.mk.inj (Option.some.inj hq)
        rw [hroute] at hb
        exact .one (b := .recvQueue) hb
      · rename_i frames hroute
        rw [hroute] at hb
        dsimp only at hb
        obtain ⟨herr, hok⟩ := handleIncoming_turn (c := c) hrest frames
        have turn : ∀ {s'}, (match (BoundedConn.idle { conn with mpsc := rest }).handleIncoming c
              frames with
            | (s', true) => some s'
            | (s', false) => some s'.stop) = some s' → s'.Leads c (.idle conn₁) →
            (BoundedConn.idle conn).Leads c (.idle conn₁) :=
          fun he hl => .step (b := .recvQueue) (hb.trans he) hl
        cases hin' : (BoundedConn.idle { conn with mpsc := rest }).handleIncoming c frames with
        | mk s₁ b =>
          rw [hin'] at herr hok turn
          split at hq
          · rename_i hin
            obtain ⟨rfl, -⟩ := Prod.mk.inj (Option.some.inj hq)
            obtain ⟨rfl, hl⟩ := herr _ hin
            exact turn rfl hl
          · rename_i hin
            obtain ⟨rfl, -⟩ := Prod.mk.inj (Option.some.inj hq)
            obtain ⟨rfl, -, hl⟩ := hok _ _ hin
            exact turn rfl hl
          · rename_i hin
            obtain ⟨rfl, -⟩ := Prod.mk.inj (Option.some.inj hq)
            obtain ⟨rfl, hstop, -⟩ := hok _ _ hin
            refine turn rfl ?_
            rw [show s₁ = _ from hstop rfl]
            exact .rfl

end Turns

end Rnet.Mplex
