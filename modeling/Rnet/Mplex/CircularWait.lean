import Rnet.Mplex.Bounded

/-!
# Circular waits of a connection

`conn_handler` is the only task that takes items from the connection queue, and it waits itself:
for a place on that very queue when it announces a stream, and for a place in a stream's
channel when it delivers a payload, while the handler of the stream may wait for the queue.

> `circular_forever`: once such a wait is closed, no task's turn opens it again.

> `circular_free_iff`: a run has none exactly if every step leaves room (`KeepsRoom`).

`requests_fill_queue` is a run in which opening streams alone closes one.
-/

namespace Rnet.Mplex

open Rnet.Lib (System)
open Rnet.Lib.System (runUnder_of_exec avoids_iff_guarded)

/-! ## The property -/

section Property

variable {κ φ : Type}

namespace BoundedConn

/-- The connection queue has no place left. -/
def Full (s : BoundedConn κ) : Prop := channelCapacity ≤ s.conn.mpsc.length

/-- One place is left on the queue of a running connection. -/
def LastPlace (s : BoundedConn κ) : Prop :=
  s.conn.running = true ∧ s.conn.mpsc.length + 1 = channelCapacity

/-- The channel of task `h` has no place left. -/
def ChannelFull (s : BoundedConn κ) (h : Nat) : Prop :=
  ∃ t, s.conn.tasks[h]? = some t ∧ t.phase ≠ .ended ∧ channelCapacity ≤ t.channel.length

/-- Task `h` waits for a place on the connection queue, under no timeout. -/
def Waits (s : BoundedConn κ) (h : Nat) : Prop :=
  ∃ w, s.pending h = some w ∧ w.timed = false

/-- `conn_handler` waits for a place that only a place on the connection queue can give it. -/
def Exposed (s : BoundedConn κ) : Prop :=
  match s.stands with
  | .announcing _ _ => True
  | .putting h _ => s.ChannelFull h ∧ s.Waits h
  | _ => False

/-- **A circular wait.** `conn_handler` waits to enqueue an announcement on its own full queue, or
waits for a place in a stream's channel while the stream's task waits for the full queue. -/
structure CircularWait (s : BoundedConn κ) : Prop where
  running : s.conn.running = true
  full : s.Full
  exposed : s.Exposed

end BoundedConn

/-- The task sends under no timeout before it next reads its channel. -/
def MplexStream.sendsFirst (t : MplexStream) : BeginAct → Prop
  | .negotiate => t.isInitiator = true ∧ t.phase = .negotiating ∧ t.proto.isSome
  | .write _ timed | .close timed => timed = false
  | _ => False

/-- The step leaves room:
- nobody takes the last place on the queue while `conn_handler` waits to announce a stream, or waits
  for a full channel whose task waits for the queue (that task itself may);
- no task starts to wait for the full queue while `conn_handler` waits for its full channel;
- `conn_handler` takes no open request from the peer while its queue is full, and no payload for a
  full channel whose task waits for the full queue. -/
def KeepsRoom (c : Codec κ φ) (s : BoundedConn κ) : BoundedAct φ → Prop
  | .openReq _ | .liveliness | .disconnect _ => s.LastPlace → ¬ s.Exposed
  | .sent h => s.LastPlace → s.Exposed → ∃ p, s.stands = .putting h p
  | .begin h a => s.conn.running = true → s.Full → (∃ p, s.stands = .putting h p) →
      s.ChannelFull h → ∀ t, s.conn.tasks[h]? = some t → ¬ t.sendsFirst a
  | .recvRaw frames =>
    match c.parse frames with
    | .error _ => True
    | .ok (stream_id, flag, _) =>
      s.Full → (flag = .newStream → stream_id ≠ 0) ∧
        (flag.isData = true → ∀ h, s.conn.streams.lookup stream_id = some h →
          ¬ (s.ChannelFull h ∧ s.Waits h))
  | _ => True

end Property

/-! ## What a stream task can do -/

section Steps

variable {κ φ : Type} {c : Codec κ φ}

/-- How task `h` moves on, up to its next `await`. -/
inductive Begins (s s' : BoundedConn κ) (h : Nat) (a : BeginAct) (t : MplexStream) : Prop
  | stays (hset : s'.conn.tasks = s.conn.tasks ∨ ∃ t' : MplexStream,
        t'.channel.length ≤ t.channel.length ∧ s'.conn.tasks = s.conn.tasks.set h t')
      (hpending : s'.pending = s.pending) (hno : ¬ t.sendsFirst a)
  | sends (w : PendingSend) (htasks : s'.conn.tasks = s.conn.tasks)
      (hpending : s'.pending = Function.update s.pending h (some w))
      (hfirst : t.sendsFirst a ↔ w.timed = false)
  /-- the responder has read the request -/
  | answers (w : PendingSend) (t' : MplexStream) (hread : t'.channel.length < t.channel.length)
      (hset : s'.conn.tasks = s.conn.tasks.set h t')
      (hpending : s'.pending = Function.update s.pending h (some w)) (hno : ¬ t.sendsFirst a)

/-- The fields of an end that a stream task leaves when it moves on. -/
structure SameQueue (s s' : BoundedConn κ) : Prop where
  running : s'.conn.running = s.conn.running
  mpsc : s'.conn.mpsc = s.conn.mpsc
  stands : s'.stands = s.stands

theorem beginTask_cases {s s' : BoundedConn κ} {h : Nat} {a : BeginAct}
    (hs : s.beginTask h a = some s') :
    ∃ t, s.conn.tasks[h]? = some t ∧ s.pending h = none ∧ SameQueue s s' ∧ Begins s s' h a t := by
  rw [BoundedConn.beginTask] at hs
  split at hs
  swap
  · simp at hs
  rename_i t ht hp
  refine ⟨t, ht, hp, ?_⟩
  have ended : ∀ t' : MplexStream, some (s.setTask h t') = some s' →
      t'.channel.length ≤ t.channel.length → ¬ t.sendsFirst a →
      SameQueue s s' ∧ Begins s s' h a t := by
    intro t' he hle hno
    obtain rfl := Option.some.inj he
    exact ⟨⟨rfl, rfl, rfl⟩, .stays (.inr ⟨t', hle, rfl⟩) rfl hno⟩
  have sends : ∀ (i : Item) (timed : Bool), (t.sendsFirst a ↔ timed = false) →
      some (s.send h i timed) = some s' → SameQueue s s' ∧ Begins s s' h a t := by
    intro i timed hfirst he
    obtain rfl := Option.some.inj he
    exact ⟨⟨rfl, rfl, rfl⟩, .sends ⟨i, timed⟩ rfl rfl hfirst⟩
  cases a with
  | negotiate =>
    dsimp only at hs
    rw [BoundedConn.negotiate] at hs
    split at hs
    · rename_i hrole hph
      split at hs
      · rename_i hproto
        have hno : ¬ t.sendsFirst .negotiate := by
          intro hfirst
          obtain ⟨-, -, hf⟩ := hfirst
          simp [hproto] at hf
        exact ended _ hs le_rfl hno
      · rename_i p hproto
        exact sends _ _ ⟨fun _ => rfl, fun _ => ⟨hrole, hph, by rw [hproto]; rfl⟩⟩ hs
    · rename_i hrole hph
      have hno : ¬ t.sendsFirst .negotiate := by
        intro hfirst
        obtain ⟨-, hf, -⟩ := hfirst
        simp [hph] at hf
      split at hs
      · split at hs
        · simp at hs
        · exact ended _ hs le_rfl hno
      · rename_i res rest hch
        exact ended _ hs (by rw [hch]; simp) hno
    · rename_i hrole hph
      have hno : ¬ t.sendsFirst .negotiate := by
        intro hfirst
        obtain ⟨hf, -⟩ := hfirst
        simp [hrole] at hf
      split at hs
      · split at hs
        · simp at hs
        · exact ended _ hs le_rfl hno
      · rename_i payload rest hch
        split at hs
        · obtain rfl := Option.some.inj hs
          exact ⟨⟨rfl, rfl, rfl⟩, .answers _ _ (by rw [hch]; simp) rfl rfl hno⟩
        · exact ended _ hs (by rw [hch]; simp) hno
    · simp at hs
  | write msg timed =>
    dsimp only at hs
    split at hs
    · exact sends _ _ Iff.rfl hs
    · simp at hs
  | read =>
    dsimp only at hs
    split at hs
    swap
    · simp at hs
    split at hs
    · split at hs
      · simp at hs
      · obtain rfl := Option.some.inj hs
        exact ⟨⟨rfl, rfl, rfl⟩, .stays (.inl rfl) rfl id⟩
    · rename_i x rest hch
      exact ended _ hs (by rw [hch]; simp) id
  | close timed =>
    dsimp only at hs
    split at hs
    · exact sends _ _ Iff.rfl hs
    · simp at hs
  | finish =>
    dsimp only at hs
    split at hs
    · exact ended _ hs le_rfl id
    · simp at hs

/-- The state after the send of task `h` has found its place or failed. -/
theorem sent_cases {s s' : BoundedConn κ} {h : Nat} (hs : s.sent c h = some s') :
    ∃ t t' w, s.conn.tasks[h]? = some t ∧ s.pending h = some w ∧ t'.channel = t.channel ∧
      s'.conn.tasks = s.conn.tasks.set h t' ∧ s'.pending = Function.update s.pending h none ∧
      s'.stands = s.stands ∧ s'.conn.running = s.conn.running ∧
      (s.conn.running = true →
        s.conn.mpsc.length < channelCapacity ∧ (t'.phase = .ended → t.phase = .ended) ∧
        s'.conn.mpsc.length = s.conn.mpsc.length + 1) ∧
      (s.conn.running = false → s'.conn.mpsc = s.conn.mpsc) := by
  rw [BoundedConn.sent] at hs
  split at hs
  swap
  · simp at hs
  rename_i t w ht hp
  split at hs
  · rename_i hr
    split at hs
    swap
    · simp at hs
    rename_i hroom
    obtain rfl := Option.some.inj hs
    refine ⟨t, t.sentItem w.item, w, ht, hp, ?_, rfl, rfl, rfl, rfl, fun _ => ⟨hroom, ?_, ?_⟩, ?_⟩
    · cases w.item <;> rfl
    · cases w.item <;> simp [MplexStream.sentItem]
    · simp [MplexConn.setTask]
    · intro hf
      rw [hr] at hf
      simp at hf
  · rename_i hr
    obtain rfl := Option.some.inj hs
    refine ⟨t, t.sendFailed w.item, w, ht, hp, ?_, rfl, rfl, rfl, rfl, fun h => absurd h hr,
      fun _ => rfl⟩
    cases w.item <;> rfl

end Steps

/-! ## What holds of every queue and channel -/

section Room

variable {κ φ : Type} {c : Codec κ φ}

/-- No queue or channel holds more than it may, and `conn_handler` waits only while it runs. -/
structure RoomInv (s : BoundedConn κ) : Prop where
  queue : s.conn.mpsc.length ≤ channelCapacity
  channels : ∀ t ∈ s.conn.tasks, t.channel.length ≤ channelCapacity
  standing : s.stands ≠ .select → s.conn.running = true

theorem RoomInv.stop {s : BoundedConn κ} (h : RoomInv s) : RoomInv s.stop :=
  ⟨h.queue, h.channels, fun hne => absurd rfl hne⟩

theorem RoomInv.handleIncoming {s : BoundedConn κ} (h : RoomInv s) (hrun : s.conn.running = true)
    (frames : φ) : RoomInv (s.handleIncoming c frames).1 := by
  rw [BoundedConn.handleIncoming]
  cases c.parse frames with
  | error e => exact h.stop
  | ok r =>
    obtain ⟨id, flag, payload⟩ := r
    dsimp only
    cases flag with
    | newStream =>
      simp only [BoundedConn.handleFlag]
      split
      · exact ⟨h.queue, h.channels, fun _ => hrun⟩
      · refine ⟨h.queue, fun t ht => ?_, fun _ => hrun⟩
        rcases List.mem_append.mp ht with ht | ht
        · exact h.channels t ht
        · rw [List.mem_singleton.mp ht]
          exact Nat.zero_le _
    | message | handshakeReq | handshakeRes =>
      simp only [BoundedConn.handleFlag]
      split
      · exact h
      · exact ⟨h.queue, h.channels, fun _ => hrun⟩
    | closeStream | disconnected | liveliness => exact ⟨h.queue, h.channels, fun _ => hrun⟩

theorem channels_set {tasks : List MplexStream} {h : Nat} {t' : MplexStream}
    (hall : ∀ t ∈ tasks, t.channel.length ≤ channelCapacity)
    (ht : t'.channel.length ≤ channelCapacity) :
    ∀ t ∈ tasks.set h t', t.channel.length ≤ channelCapacity := by
  intro t hmem
  rcases List.mem_or_eq_of_mem_set hmem with hmem | rfl
  · exact hall t hmem
  · exact ht

/-- **One turn** keeps within the bounds. -/
theorem RoomInv.step {s s' : BoundedConn κ} (h : RoomInv s) {a : BoundedAct φ}
    (hs : s.step c a = some s') : RoomInv s' := by
  have push : ∀ {i : Item}, s.push c i = some s' → RoomInv s' := by
    intro i hp
    rw [BoundedConn.push] at hp
    split at hp
    · rename_i hroom
      obtain rfl := Option.some.inj hp
      refine ⟨?_, h.channels, h.standing⟩
      show (_ ++ [_]).length ≤ _
      rw [List.length_append, List.length_singleton]
      exact hroom.2
    · simp at hp
  cases a with
  | openReq p => exact push hs
  | disconnect p => exact push hs
  | liveliness =>
    simp only [BoundedConn.step] at hs
    split at hs
    · exact push hs
    · simp at hs
  | recvQueue =>
    simp only [BoundedConn.step, BoundedConn.recvQueue] at hs
    split at hs
    swap
    · simp at hs
    rename_i hsel
    split at hs
    · simp at hs
    · rename_i data rest hq
      have hrest : RoomInv (s.withQueue rest) := by
        refine ⟨?_, h.channels, h.standing⟩
        have := h.queue
        rw [hq, List.length_cons] at this
        show rest.length ≤ _
        omega
      split at hs
      · obtain rfl := Option.some.inj hs
        exact hrest
      · rename_i frames _
        have hin := hrest.handleIncoming (c := c) hsel.1 frames
        split at hs
        · rename_i he
          obtain rfl := Option.some.inj hs
          rw [he] at hin
          exact hin
        · rename_i he
          obtain rfl := Option.some.inj hs
          rw [he] at hin
          exact hin.stop
  | recvRaw frames =>
    simp only [BoundedConn.step, BoundedConn.recvRaw] at hs
    split at hs
    · rename_i hsel
      obtain rfl := Option.some.inj hs
      exact h.handleIncoming hsel.1 frames
    · simp at hs
  | announce =>
    simp only [BoundedConn.step, BoundedConn.announce] at hs
    split at hs
    swap
    · simp at hs
    split at hs
    swap
    · simp at hs
    rename_i hroom
    obtain rfl := Option.some.inj hs
    refine ⟨?_, fun t ht => ?_, fun hne => absurd rfl hne⟩
    · show (_ ++ [_]).length ≤ _
      rw [List.length_append, List.length_singleton]
      exact hroom
    · rcases List.mem_append.mp ht with ht | ht
      · exact h.channels t ht
      · rw [List.mem_singleton.mp ht]
        exact Nat.zero_le _
  | put =>
    simp only [BoundedConn.step, BoundedConn.put] at hs
    split at hs
    swap
    · simp at hs
    split at hs
    · obtain rfl := Option.some.inj hs
      exact h.stop
    · split at hs
      · obtain rfl := Option.some.inj hs
        exact h.stop
      · split at hs
        swap
        · simp at hs
        rename_i hroom
        obtain rfl := Option.some.inj hs
        refine ⟨h.queue, channels_set h.channels ?_, fun hne => absurd rfl hne⟩
        show (_ ++ [_]).length ≤ _
        rw [List.length_append, List.length_singleton]
        exact hroom
  | ping =>
    simp only [BoundedConn.step, BoundedConn.ping] at hs
    split at hs
    swap
    · simp at hs
    split at hs
    · obtain rfl := Option.some.inj hs
      exact h.stop
    · split at hs
      · obtain rfl := Option.some.inj hs
        exact ⟨h.queue, h.channels, fun hne => absurd rfl hne⟩
      · simp at hs
  | begin j a =>
    obtain ⟨t, ht, -, hq, hb⟩ := beginTask_cases hs
    have hle := h.channels t (List.mem_of_getElem? ht)
    refine ⟨by rw [hq.mpsc]; exact h.queue, ?_, by rw [hq.stands, hq.running]; exact h.standing⟩
    cases hb with
    | stays hset hpending hno =>
      rcases hset with hset | ⟨t', hlen, hset⟩
      · rw [hset]
        exact h.channels
      · rw [hset]
        exact channels_set h.channels (by omega)
    | sends w htasks hpending hfirst =>
      rw [htasks]
      exact h.channels
    | answers w t' hread hset hpending hno =>
      rw [hset]
      exact channels_set h.channels (by omega)
  | sent j =>
    obtain ⟨t, t', w, ht, -, hch, hset, -, hstands, hrun, hon, hoff⟩ := sent_cases hs
    refine ⟨?_, ?_, by rw [hstands, hrun]; exact h.standing⟩
    · cases hr : s.conn.running with
      | true =>
        obtain ⟨hroom, -, hlen⟩ := hon hr
        rw [hlen]
        exact hroom
      | false =>
        rw [hoff hr]
        exact h.queue
    · rw [hset]
      refine channels_set h.channels ?_
      rw [hch]
      exact h.channels t (List.mem_of_getElem? ht)
  | giveUp j =>
    simp only [BoundedConn.step, BoundedConn.giveUp] at hs
    split at hs
    · obtain rfl := Option.some.inj hs
      exact ⟨h.queue, h.channels, h.standing⟩
    · simp at hs
  | pingRead =>
    simp only [BoundedConn.step, BoundedConn.pingRead] at hs
    split at hs
    · obtain rfl := Option.some.inj hs
      exact ⟨h.queue, h.channels, h.standing⟩
    · simp at hs
  | pingCheckEnd =>
    obtain rfl := Option.some.inj hs
    exact ⟨h.queue, h.channels, h.standing⟩
  | rawError =>
    simp only [BoundedConn.step] at hs
    split at hs
    · obtain rfl := Option.some.inj hs
      exact h.stop
    · simp at hs

theorem RoomInv.init {s : BoundedConn κ} (h : (boundedConn c).init s) : RoomInv s := by
  obtain ⟨handlers, pingCheck, rfl, -⟩ := h
  exact ⟨Nat.zero_le _, by simp, fun hne => absurd rfl hne⟩

end Room

/-! ## How a circular wait is closed -/

section Closing

variable {κ φ : Type} {c : Codec κ φ}

theorem not_exposed_of_select {s : BoundedConn κ} (h : s.stands = .select) : ¬ s.Exposed := by
  rw [BoundedConn.Exposed, h]
  exact id

theorem not_circular_stop {s : BoundedConn κ} : ¬ s.stop.CircularWait := fun h => by
  have := h.running
  simp [BoundedConn.stop] at this

theorem channelFull_of_ne {s s' : BoundedConn κ} {h k : Nat} {t' : MplexStream}
    (hset : s'.conn.tasks = s.conn.tasks.set h t') (hk : k ≠ h) :
    s'.ChannelFull k ↔ s.ChannelFull k := by
  rw [BoundedConn.ChannelFull, BoundedConn.ChannelFull, hset, List.getElem?_set_ne hk.symm]

theorem waits_of_ne {s s' : BoundedConn κ} {h k : Nat} {w : Option PendingSend}
    (hp : s'.pending = Function.update s.pending h w) (hk : k ≠ h) :
    s'.Waits k ↔ s.Waits k := by
  rw [BoundedConn.Waits, BoundedConn.Waits, hp, Function.update_of_ne hk]

/-- What `handle_incoming` leaves: the queue, and the sends of the stream tasks. -/
theorem handleIncoming_mpsc_eq (s : BoundedConn κ) (frames : φ) :
    (s.handleIncoming c frames).1.conn.mpsc = s.conn.mpsc := by
  rw [BoundedConn.handleIncoming]
  cases c.parse frames with
  | error e => rfl
  | ok r =>
    obtain ⟨id, flag, payload⟩ := r
    dsimp only
    cases flag with
    | newStream =>
      simp only [BoundedConn.handleFlag]
      split <;> rfl
    | message | handshakeReq | handshakeRes =>
      simp only [BoundedConn.handleFlag]
      split <;> rfl
    | closeStream | disconnected | liveliness => rfl

/-- Taking an item off the queue closes nothing. -/
theorem recvQueue_not_full {s s' : BoundedConn κ} (h : RoomInv s) (hs : s.recvQueue c = some s') :
    ¬ s'.Full := by
  rw [BoundedConn.recvQueue] at hs
  split at hs
  swap
  · simp at hs
  split at hs
  · simp at hs
  · rename_i data rest hq
    have hlen : rest.length < channelCapacity := by
      have := h.queue
      rw [hq, List.length_cons] at this
      omega
    have hrest : ∀ frames, ((s.withQueue rest).handleIncoming c frames).1.conn.mpsc = rest :=
      fun frames => handleIncoming_mpsc_eq _ frames
    have small : s'.conn.mpsc = rest → ¬ s'.Full := by
      intro he hfull
      rw [BoundedConn.Full, he] at hfull
      omega
    apply small
    split at hs
    · rw [← Option.some.inj hs]
      rfl
    · rename_i frames _
      have := hrest frames
      split at hs
      · rename_i he
        rw [← Option.some.inj hs, ← this, he]
      · rename_i he
        rw [← Option.some.inj hs, ← this, he]
        rfl

/-- A frame of the peer closes a circular wait exactly if it makes `conn_handler` wait for a place
that the full queue blocks. -/
theorem recvRaw_circular_iff {s s' : BoundedConn κ} (hgood : ¬ s.CircularWait) {frames : φ}
    (hs : s.recvRaw c frames = some s') :
    s'.CircularWait ↔ ¬ KeepsRoom c s (.recvRaw frames) := by
  rw [BoundedConn.recvRaw] at hs
  split at hs
  swap
  · simp at hs
  rename_i hsel
  obtain ⟨hrun, hsel⟩ := hsel
  rw [← Option.some.inj hs, BoundedConn.handleIncoming, KeepsRoom]
  cases c.parse frames with
  | error e => simp [not_circular_stop]
  | ok r =>
    obtain ⟨id, flag, payload⟩ := r
    dsimp only
    have none : ∀ {s₁ : BoundedConn κ}, s₁.stands = .select → ¬ s₁.CircularWait :=
      fun h hc => not_exposed_of_select h hc.exposed
    cases flag with
    | newStream =>
      simp only [BoundedConn.handleFlag, MuxedStreamFlag.isData, Bool.false_eq_true, false_imp_iff,
        and_true, forall_const]
      split
      · rename_i h0
        refine ⟨fun hc hno => hno hc.full h0, fun hno => ⟨hrun, ?_, trivial⟩⟩
        by_contra hfull
        exact hno fun hf => absurd hf hfull
      · rename_i h0
        exact ⟨fun hc => absurd hc (none hsel), fun hno => absurd (fun _ => h0) hno⟩
    | message | handshakeReq | handshakeRes =>
      simp only [BoundedConn.handleFlag, MuxedStreamFlag.isData, reduceCtorEq, false_imp_iff,
        true_and, forall_const]
      cases hl : s.conn.streams.lookup id with
      | none => simp [hgood]
      | some k =>
        dsimp only
        constructor
        · intro hc hno
          exact hno hc.full k rfl hc.exposed
        · intro hno
          simp only [Classical.not_imp, not_forall] at hno
          obtain ⟨hfull, k', hk, hex⟩ := hno
          obtain rfl := Option.some.inj hk
          exact ⟨hrun, hfull, not_not.mp hex⟩
    | closeStream | disconnected =>
      simp only [BoundedConn.handleFlag, MuxedStreamFlag.isData, reduceCtorEq, Bool.false_eq_true,
        false_imp_iff, and_true, imp_true_iff, not_true_eq_false, iff_false]
      exact none hsel
    | liveliness =>
      simp only [BoundedConn.handleFlag, MuxedStreamFlag.isData, reduceCtorEq, Bool.false_eq_true,
        false_imp_iff, and_true, imp_true_iff, not_true_eq_false, iff_false]
      exact fun hc => hc.exposed

/-- A task outside the connection closes a circular wait exactly if it takes the last place. -/
theorem push_circular_iff {s s' : BoundedConn κ} {i : Item} (hs : s.push c i = some s') :
    s'.CircularWait ↔ ¬ (s.LastPlace → ¬ s.Exposed) := by
  rw [BoundedConn.push] at hs
  split at hs
  swap
  · simp at hs
  rename_i hroom
  obtain ⟨hrun, hroom⟩ := hroom
  obtain rfl := Option.some.inj hs
  have hlen : ∀ l : List κ, (l ++ [c.make i]).length = l.length + 1 := fun l => by simp
  constructor
  · intro hc hno
    have hfull : channelCapacity ≤ (s.conn.mpsc ++ [c.make i]).length := hc.full
    rw [hlen] at hfull
    exact hno ⟨hrun, by omega⟩ hc.exposed
  · intro hno
    simp only [Classical.not_imp, not_not] at hno
    obtain ⟨⟨-, hlast⟩, hex⟩ := hno
    refine ⟨hrun, ?_, hex⟩
    show channelCapacity ≤ (s.conn.mpsc ++ [c.make i]).length
    rw [hlen]
    omega

/-- A task that moves on closes one exactly if it starts to wait for the full queue while
`conn_handler` waits for its channel. -/
theorem begin_circular_iff {s s' : BoundedConn κ} (h : RoomInv s) (hgood : ¬ s.CircularWait)
    {j : Nat} {a : BeginAct} (hs : s.beginTask j a = some s') :
    s'.CircularWait ↔ ¬ KeepsRoom c s (.begin j a) := by
  obtain ⟨t, ht, hp, hq, hb⟩ := beginTask_cases hs
  have hle := h.channels t (List.mem_of_getElem? ht)
  have hfull : s'.Full ↔ s.Full := by rw [BoundedConn.Full, BoundedConn.Full, hq.mpsc]
  -- only a wait of task `j` can be new
  have same : s'.CircularWait → (∃ p, s.stands = .putting j p) ∧ s'.ChannelFull j ∧ s'.Waits j := by
    intro hc
    have hex := hc.exposed
    rw [BoundedConn.Exposed, hq.stands] at hex
    have back : s.Exposed → False := fun he =>
      hgood ⟨by rw [← hq.running]; exact hc.running, hfull.mp hc.full, he⟩
    cases hst : s.stands with
    | select => rw [hst] at hex; exact hex.elim
    | pinging p => rw [hst] at hex; exact hex.elim
    | announcing id p =>
      refine (back ?_).elim
      rw [BoundedConn.Exposed, hst]
      trivial
    | putting k p =>
      rw [hst] at hex
      by_cases hk : k = j
      · rw [← hk]
        exact ⟨⟨p, rfl⟩, hex⟩
      · refine (back ?_).elim
        rw [BoundedConn.Exposed, hst]
        refine ⟨?_, ?_⟩
        · cases hb with
          | stays hset =>
            rcases hset with hset | ⟨t', -, hset⟩
            · rw [BoundedConn.ChannelFull, ← hset]
              exact hex.1
            · exact (channelFull_of_ne hset hk).mp hex.1
          | sends w htasks =>
            rw [BoundedConn.ChannelFull, ← htasks]
            exact hex.1
          | answers w t' hread hset => exact (channelFull_of_ne hset hk).mp hex.1
        · cases hb with
          | stays _ hpending =>
            rw [BoundedConn.Waits, ← hpending]
            exact hex.2
          | sends w _ hpending | answers w _ _ _ hpending =>
            exact (waits_of_ne hpending hk).mp hex.2
  constructor
  · intro hc hroom
    obtain ⟨⟨p, hst⟩, ⟨u, hu, hph, hlen⟩, w, hw, htimed⟩ := same hc
    cases hb with
    | stays _ hpending =>
      rw [hpending, hp] at hw
      simp at hw
    | sends w' htasks hpending hfirst =>
      rw [hpending, Function.update_self] at hw
      rw [← Option.some.inj hw] at htimed
      refine hroom (by rw [← hq.running]; exact hc.running) (hfull.mp hc.full) ⟨p, hst⟩ ?_ t ht
        (hfirst.mpr htimed)
      rw [htasks] at hu
      exact ⟨u, hu, hph, hlen⟩
    | answers w' t' hread hset =>
      rw [hset, List.getElem?_set_self (List.getElem?_eq_some_iff.mp ht).1] at hu
      rw [← Option.some.inj hu] at hlen
      omega
  · intro hno
    simp only [KeepsRoom, Classical.not_imp, not_forall, not_not] at hno
    obtain ⟨hrun, hf, ⟨p, hst⟩, hch, u, hu, hfirst⟩ := hno
    rw [ht] at hu
    rw [← Option.some.inj hu] at hfirst
    cases hb with
    | stays _ _ hn => exact absurd hfirst hn
    | answers _ _ _ _ _ hn => exact absurd hfirst hn
    | sends w htasks hpending hiff =>
      refine ⟨by rw [hq.running]; exact hrun, hfull.mpr hf, ?_⟩
      rw [BoundedConn.Exposed, hq.stands, hst]
      refine ⟨?_, w, by rw [hpending, Function.update_self], hiff.mp hfirst⟩
      rw [BoundedConn.ChannelFull, htasks]
      exact hch

/-- A send that finds its place closes one exactly if it takes the last one, and not from under
its own channel. -/
theorem sent_circular_iff {s s' : BoundedConn κ} {j : Nat} (hs : s.sent c j = some s') :
    s'.CircularWait ↔ ¬ KeepsRoom c s (.sent j) := by
  obtain ⟨t, t', w, ht, hp, hch, hset, hpending, hstands, hrun, hon, -⟩ := sent_cases hs
  have exposed : s'.Exposed ↔ s.Exposed ∧ ¬ ∃ p, s.stands = .putting j p := by
    rw [BoundedConn.Exposed, BoundedConn.Exposed, hstands]
    cases hst : s.stands with
    | select | pinging => simp
    | announcing id p => simp
    | putting k p =>
      by_cases hk : k = j
      · have hw : ¬ s'.Waits j := by
          intro h
          obtain ⟨w, hw, -⟩ := h
          rw [hpending, Function.update_self] at hw
          simp at hw
        simp [hk, hw]
      · simp only [channelFull_of_ne hset hk, waits_of_ne hpending hk]
        simp [hk]
  simp only [KeepsRoom, Classical.not_imp]
  constructor
  · intro hc
    have hr : s.conn.running = true := by rw [← hrun]; exact hc.running
    obtain ⟨hroom, -, hlen⟩ := hon hr
    obtain ⟨hex, hno⟩ := exposed.mp hc.exposed
    have hf : channelCapacity ≤ s'.conn.mpsc.length := hc.full
    exact ⟨⟨hr, by omega⟩, hex, hno⟩
  · intro h
    obtain ⟨⟨hr, hlast⟩, hex, hno⟩ := h
    obtain ⟨hroom, -, hlen⟩ := hon hr
    refine ⟨by rw [hrun]; exact hr, ?_, exposed.mpr ⟨hex, hno⟩⟩
    rw [BoundedConn.Full]
    omega

/-- **One turn** from a state without a circular wait closes one exactly if it leaves no room. -/
theorem step_circular_iff {s s' : BoundedConn κ} (h : RoomInv s) (hgood : ¬ s.CircularWait)
    {a : BoundedAct φ} (hs : s.step c a = some s') :
    s'.CircularWait ↔ ¬ KeepsRoom c s a := by
  have none : (∀ hc : s'.CircularWait, False) → KeepsRoom c s a →
      (s'.CircularWait ↔ ¬ KeepsRoom c s a) :=
    fun hno hk => ⟨fun hc => (hno hc).elim, fun hn => absurd hk hn⟩
  have select : s'.stands = .select → s'.CircularWait → False :=
    fun hst hc => not_exposed_of_select hst hc.exposed
  cases a with
  | openReq p => exact push_circular_iff hs
  | disconnect p => exact push_circular_iff hs
  | liveliness =>
    simp only [BoundedConn.step] at hs
    split at hs
    · exact push_circular_iff hs
    · simp at hs
  | recvQueue => exact none (fun hc => recvQueue_not_full h hs hc.full) trivial
  | recvRaw frames => exact recvRaw_circular_iff hgood hs
  | begin j a => exact begin_circular_iff h hgood hs
  | sent j => exact sent_circular_iff hs
  | announce =>
    refine none (select ?_) trivial
    simp only [BoundedConn.step, BoundedConn.announce] at hs
    split at hs
    · split at hs
      · rw [← Option.some.inj hs]
      · simp at hs
    · simp at hs
  | put =>
    refine none (select ?_) trivial
    simp only [BoundedConn.step, BoundedConn.put] at hs
    split at hs
    · split at hs
      · rw [← Option.some.inj hs]
        rfl
      · split at hs
        · rw [← Option.some.inj hs]
          rfl
        · split at hs
          · rw [← Option.some.inj hs]
          · simp at hs
    · simp at hs
  | ping =>
    refine none (select ?_) trivial
    simp only [BoundedConn.step, BoundedConn.ping] at hs
    split at hs
    · split at hs
      · rw [← Option.some.inj hs]
        rfl
      · split at hs
        · rw [← Option.some.inj hs]
        · simp at hs
    · simp at hs
  | giveUp j =>
    refine none (fun hc => hgood ?_) trivial
    simp only [BoundedConn.step, BoundedConn.giveUp] at hs
    split at hs
    swap
    · simp at hs
    obtain rfl := Option.some.inj hs
    refine ⟨hc.running, hc.full, ?_⟩
    have hex := hc.exposed
    rw [BoundedConn.Exposed] at hex ⊢
    dsimp only at hex
    cases hst : s.stands with
    | select | pinging =>
      rw [hst] at hex
      exact hex.elim
    | announcing => trivial
    | putting k p =>
      rw [hst] at hex
      obtain ⟨hch, w, hw, htimed⟩ := hex
      refine ⟨hch, w, ?_, htimed⟩
      by_cases hk : k = j
      · simp [hk] at hw
      · dsimp only at hw
        rwa [Function.update_of_ne hk] at hw
  | pingRead =>
    refine none (fun hc => hgood ?_) trivial
    simp only [BoundedConn.step, BoundedConn.pingRead] at hs
    split at hs
    · obtain rfl := Option.some.inj hs
      exact ⟨hc.running, hc.full, hc.exposed⟩
    · simp at hs
  | pingCheckEnd =>
    refine none (fun hc => hgood ?_) trivial
    obtain rfl := Option.some.inj hs
    exact ⟨hc.running, hc.full, hc.exposed⟩
  | rawError =>
    refine none (fun hc => ?_) trivial
    simp only [BoundedConn.step] at hs
    split at hs
    · obtain rfl := Option.some.inj hs
      exact not_circular_stop hc
    · simp at hs

end Closing

/-! ## It stays closed -/

section Forever

variable {κ φ : Type} {c : Codec κ φ}

/-- **No turn** of any task opens a circular wait. -/
theorem circular_step {s s' : BoundedConn κ} (h : s.CircularWait) {a : BoundedAct φ}
    (hs : s.step c a = some s') : s'.CircularWait ∧ s'.stands = s.stands := by
  have hfull : channelCapacity ≤ s.conn.mpsc.length := h.full
  have waits : ¬ (s.conn.running = true ∧ s.stands = .select) :=
    fun hc => not_exposed_of_select hc.2 h.exposed
  have push : ∀ {i : Item}, s.push c i = some s' → s'.CircularWait ∧ s'.stands = s.stands := by
    intro i hp
    rw [BoundedConn.push, if_neg fun hroom => by have := hroom.2; omega] at hp
    simp at hp
  -- task `j` is not the one that `conn_handler` waits for
  have keeps : ∀ j, (∀ k p, s.stands = .putting k p → k ≠ j) → s'.stands = s.stands →
      s'.conn.running = s.conn.running → s'.conn.mpsc = s.conn.mpsc →
      (∀ k, k ≠ j → s.ChannelFull k → s'.ChannelFull k) →
      (∀ k, k ≠ j → s.Waits k → s'.Waits k) → s'.CircularWait ∧ s'.stands = s.stands := by
    intro j hj hst hrun hq hch hw
    refine ⟨⟨by rw [hrun]; exact h.running, ?_, ?_⟩, hst⟩
    · rw [BoundedConn.Full, hq]
      exact hfull
    · have hex := h.exposed
      rw [BoundedConn.Exposed] at hex ⊢
      rw [hst]
      cases hs : s.stands with
      | select | pinging =>
        rw [hs] at hex
        exact hex.elim
      | announcing => trivial
      | putting k p =>
        rw [hs] at hex
        exact ⟨hch k (hj k p hs) hex.1, hw k (hj k p hs) hex.2⟩
  have waiting : ∀ k p, s.stands = .putting k p → s.ChannelFull k ∧ s.Waits k := by
    intro k p hst
    have hex := h.exposed
    rwa [BoundedConn.Exposed, hst] at hex
  cases a with
  | openReq p => exact push hs
  | disconnect p => exact push hs
  | liveliness =>
    simp only [BoundedConn.step] at hs
    split at hs
    · exact push hs
    · simp at hs
  | recvQueue =>
    simp only [BoundedConn.step, BoundedConn.recvQueue, if_neg waits] at hs
    simp at hs
  | recvRaw frames =>
    simp only [BoundedConn.step, BoundedConn.recvRaw, if_neg waits] at hs
    simp at hs
  | rawError =>
    simp only [BoundedConn.step, if_neg waits] at hs
    simp at hs
  | announce =>
    simp only [BoundedConn.step, BoundedConn.announce, if_neg (Nat.not_lt.mpr hfull)] at hs
    split at hs <;> simp at hs
  | put =>
    simp only [BoundedConn.step, BoundedConn.put] at hs
    split at hs
    swap
    · simp at hs
    rename_i k p hst
    obtain ⟨⟨t, ht, hph, hlen⟩, -⟩ := waiting k p hst
    simp only [ht, if_neg hph, if_neg (Nat.not_lt.mpr hlen)] at hs
    simp at hs
  | ping =>
    simp only [BoundedConn.step, BoundedConn.ping] at hs
    split at hs
    swap
    · simp at hs
    rename_i p hst
    have hex := h.exposed
    rw [BoundedConn.Exposed, hst] at hex
    exact hex.elim
  | begin j a =>
    obtain ⟨t, ht, hp, hq, hb⟩ := beginTask_cases hs
    refine keeps j ?_ hq.stands hq.running hq.mpsc ?_ ?_
    · intro k p hst h
      subst h
      obtain ⟨-, w, hw, -⟩ := waiting k p hst
      rw [hp] at hw
      simp at hw
    · intro k hk hch
      cases hb with
      | stays hset =>
        rcases hset with hset | ⟨t', -, hset⟩
        · rw [BoundedConn.ChannelFull, hset]
          exact hch
        · exact (channelFull_of_ne hset hk).mpr hch
      | sends w htasks =>
        rw [BoundedConn.ChannelFull, htasks]
        exact hch
      | answers w t' _ hset => exact (channelFull_of_ne hset hk).mpr hch
    · intro k hk hw
      cases hb with
      | stays _ hpending =>
        rw [BoundedConn.Waits, hpending]
        exact hw
      | sends w _ hpending | answers w _ _ _ hpending => exact (waits_of_ne hpending hk).mpr hw
  | sent j =>
    obtain ⟨t, t', w, -, -, -, -, -, -, -, hon, -⟩ := sent_cases hs
    have := (hon h.running).1
    omega
  | giveUp j =>
    simp only [BoundedConn.step, BoundedConn.giveUp] at hs
    split at hs
    swap
    · simp at hs
    rename_i hp
    obtain rfl := Option.some.inj hs
    refine keeps j ?_ rfl rfl rfl (fun _ _ hch => hch) fun k hk hw => (waits_of_ne rfl hk).mpr hw
    intro k p hst h
    subst h
    obtain ⟨-, w, hw, htimed⟩ := waiting k p hst
    rw [hp] at hw
    rw [← Option.some.inj hw] at htimed
    simp at htimed
  | pingRead =>
    simp only [BoundedConn.step, BoundedConn.pingRead] at hs
    split at hs
    · obtain rfl := Option.some.inj hs
      exact ⟨⟨h.running, h.full, h.exposed⟩, rfl⟩
    · simp at hs
  | pingCheckEnd =>
    obtain rfl := Option.some.inj hs
    exact ⟨⟨h.running, h.full, h.exposed⟩, rfl⟩

/-- `conn_handler` is blocked forever on a circular wait: whatever the tasks do from now on, it
stands where it stands, and the wait stays closed. -/
def BoundedConn.BlockedForever (c : Codec κ φ) (s : BoundedConn κ) : Prop :=
  s.CircularWait ∧ ∀ as s', (boundedConn c).exec (fun _ _ => True) s as = some s' →
    s'.CircularWait ∧ s'.stands = s.stands

theorem circular_forever {s : BoundedConn κ} (h : s.CircularWait) : s.BlockedForever c := by
  refine ⟨h, fun as => ?_⟩
  induction as generalizing s with
  | nil =>
    intro s' hs
    simp only [System.exec, Option.some.injEq] at hs
    rw [← hs]
    exact ⟨h, rfl⟩
  | cons a as ih =>
    intro s' hs
    rw [System.exec, if_pos trivial] at hs
    obtain ⟨s₁, hs₁, hrest⟩ := Option.bind_eq_some_iff.mp hs
    obtain ⟨hc, hst⟩ := circular_step h (c := c) hs₁
    obtain ⟨hc', hst'⟩ := ih hc s' hrest
    exact ⟨hc', hst'.trans hst⟩

theorem blockedForever_iff {s : BoundedConn κ} : s.BlockedForever c ↔ s.CircularWait :=
  ⟨fun h => h.1, circular_forever⟩

/-! ## Every run -/

/-- **Runs without a circular wait.** The tasks of a connection never block `conn_handler` forever
on a circular wait exactly if each of their turns leaves room. -/
theorem circular_free_iff {s₀ : BoundedConn κ} (h₀ : (boundedConn c).init s₀)
    (as : List (BoundedAct φ)) :
    (boundedConn c).Avoids (BoundedConn.BlockedForever c) s₀ as ↔
      (boundedConn c).Guarded (KeepsRoom c) s₀ as := by
  have hI : ∀ (s : BoundedConn κ) (a : BoundedAct φ) (s' : BoundedConn κ), RoomInv s →
      (boundedConn c).step s a = some s' → RoomInv s' := fun _ _ _ hI hs => hI.step hs
  refine avoids_iff_guarded hI (fun s a s' hI hgood hs => ?_) as s₀ (RoomInv.init h₀) fun hb => ?_
  · rw [blockedForever_iff] at hgood ⊢
    exact step_circular_iff hI hgood hs
  · obtain ⟨handlers, pingCheck, rfl, -⟩ := h₀
    exact not_exposed_of_select rfl hb.1.exposed

end Forever

/-! ## Opening streams -/

/-- A request of `SwarmInner::new_stream`. -/
def request : BoundedAct (List UInt8) := .openReq ⟨ascii "ping", length_ping⟩

theorem boundedConn_init :
    (boundedConn (bytesCodec leb128)).init { conn := { handlers := ["ping"] } } :=
  ⟨["ping"], none, rfl, by simp⟩

/-- One stream is opened: the announcement finds room. -/
theorem circular_free_oneRequest :
    (boundedConn (bytesCodec leb128)).Avoids (BoundedConn.BlockedForever (bytesCodec leb128))
        { conn := { handlers := ["ping"] } } [request, .recvQueue, .announce] ↔
      (boundedConn (bytesCodec leb128)).Guarded (KeepsRoom (bytesCodec leb128))
        { conn := { handlers := ["ping"] } } [request, .recvQueue, .announce] :=
  circular_free_iff boundedConn_init _

/-- A hundred requests are queued, and one more takes the place that the first one leaves. -/
def requestsFillQueue : List (BoundedAct (List UInt8)) :=
  List.replicate channelCapacity request ++ [.recvQueue, request]

theorem requestsFillQueue_enabled :
    ((boundedConn (bytesCodec leb128)).exec (fun _ _ => True) { conn := { handlers := ["ping"] } }
      requestsFillQueue).isSome = true := by decide +kernel

/-- **Opening streams** blocks `conn_handler` forever on its own queue. -/
theorem requests_fill_queue :
    ∃ s, (boundedConn (bytesCodec leb128)).Run requestsFillQueue s ∧
      s.BlockedForever (bytesCodec leb128) := by
  refine ⟨_, runUnder_of_exec boundedConn_init (Option.some_get requestsFillQueue_enabled).symm,
    circular_forever ⟨by decide +kernel, ?_, ?_⟩⟩
  · rw [BoundedConn.Full]
    decide +kernel
  · rw [BoundedConn.Exposed, show BoundedConn.stands _ = .announcing 1 ⟨ascii "ping", by decide⟩ by
      decide +kernel]
    trivial

end Rnet.Mplex
