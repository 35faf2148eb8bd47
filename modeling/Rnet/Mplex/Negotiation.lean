import Rnet.Mplex.Delivery
import Rnet.Mplex.Queue

/-!
# The negotiation of a stream's protocol

A stream's channel carries the handshake and the payloads of the handlers alike, so what the
two ends agree on rests on the order of the payloads. `TaskInv` says how far one task has come
in terms of what it was given and what it has sent, and the order of delivery relates the
two tasks of a stream.

> `negotiated_agree`: in every run in which one end opens the streams, each with an id that
> the header can carry, the two handlers of a stream speak the same protocol, and they read
> what the other handler wrote.

The id of the 2^29th stream reads as 0 at the other end, which takes the announcement for a
request to open a stream itself (`wrapped_id_misleads`).
-/

namespace Rnet.Mplex

open Rnet.Lib
open Rnet.Lib.System (runUnder_of_exec ReachableUnder)

/-! ## What a stream task can do -/

/-- One move of a stream task at an end whose registry has the protocols `has`. -/
inductive Moves (has : Payload → Bool) (t : MplexStream) : MplexStream → Prop
  | stays : Moves has t t
  /-- a payload arrives -/
  | put (p : Payload) : Moves has t { t with channel := t.channel ++ [p], put := t.put ++ [p] }
  /-- the task returns or panics -/
  | ends (channel : List Payload) (hc : channel <:+ t.channel) :
      Moves has t { t with channel := channel, phase := .ended }
  /-- the initiator sends its request -/
  | request (p : Payload) (hrole : t.isInitiator = true) (hph : t.phase = .negotiating)
      (hp : t.proto = some p) : Moves has t { t with phase := .awaitingRes, sent := t.sent ++ [p] }
  /-- the initiator reads its own protocol back, and starts its handler -/
  | start (p : Payload) (rest : List Payload) (hrole : t.isInitiator = true)
      (hph : t.phase = .awaitingRes) (hc : t.channel = p :: rest) (hp : t.proto = some p)
      (hhas : has p = true) : Moves has t { t with channel := rest, phase := .handling }
  /-- the responder answers a protocol of its registry, and starts its handler -/
  | accept (p : Payload) (rest : List Payload) (hrole : t.isInitiator = false)
      (hph : t.phase = .negotiating) (hc : t.channel = p :: rest) (hhas : has p = true) :
      Moves has t { t with channel := rest, phase := .handling, sent := t.sent ++ [p] }
  | write (msg : Payload) (hph : t.phase = .handling) :
      Moves has t { t with sent := t.sent ++ [msg] }
  | read (p : Payload) (rest : List Payload) (hph : t.phase = .handling)
      (hc : t.channel = p :: rest) : Moves has t { t with channel := rest }

/-- A task that has just been spawned. -/
structure Spawned (t : MplexStream) : Prop where
  phase : t.phase = .negotiating
  channel : t.channel = []
  put : t.put = []
  sent : t.sent = []

/-- A turn at an end leaves the registry, and each task moves or is new. -/
structure TasksMove (conn conn' : MplexConn Item) : Prop where
  handlers : conn'.handlers = conn.handlers
  tasks : ∀ (h : Nat) (t' : MplexStream), conn'.tasks[h]? = some t' →
    (∃ t, conn.tasks[h]? = some t ∧ Moves conn.hasHandler t t') ∨
      conn.tasks[h]? = none ∧ Spawned t'

theorem TasksMove.of_same {conn conn' : MplexConn Item} (hh : conn'.handlers = conn.handlers)
    (ht : conn'.tasks = conn.tasks) : TasksMove conn conn' :=
  ⟨hh, fun h t' h' => Or.inl ⟨t', by rwa [← ht], .stays⟩⟩

theorem TasksMove.of_set {conn conn' : MplexConn Item} {h : Nat} {t t' : MplexStream}
    (hh : conn'.handlers = conn.handlers) (ht : conn.tasks[h]? = some t)
    (hs : conn'.tasks = conn.tasks.set h t') (hm : Moves conn.hasHandler t t') :
    TasksMove conn conn' := by
  refine ⟨hh, fun i u hu => Or.inl ?_⟩
  rw [hs, List.getElem?_set] at hu
  by_cases hi : h = i
  · rw [if_pos hi, if_pos (List.getElem?_eq_some_iff.mp ht).1] at hu
    obtain rfl := Option.some.inj hu
    exact ⟨t, hi ▸ ht, hm⟩
  · rw [if_neg hi] at hu
    exact ⟨u, hu, .stays⟩

theorem TasksMove.of_concat {conn conn' : MplexConn Item} {t : MplexStream}
    (hh : conn'.handlers = conn.handlers) (hs : conn'.tasks = conn.tasks ++ [t])
    (hnew : Spawned t) : TasksMove conn conn' := by
  refine ⟨hh, fun i u hu => ?_⟩
  rw [hs] at hu
  by_cases hi : i < conn.tasks.length
  · rw [List.getElem?_append_left hi] at hu
    exact Or.inl ⟨u, hu, .stays⟩
  · have hlen := (List.getElem?_eq_some_iff.mp hu).1
    rw [List.length_append, List.length_singleton] at hlen
    rw [show i = conn.tasks.length by omega, List.getElem?_concat_length] at hu
    obtain rfl := Option.some.inj hu
    exact Or.inr ⟨List.getElem?_eq_none (by omega), hnew⟩

theorem handleIncoming_tasks {conn conn' : MplexConn Item} {f : Frame} {b : Bool}
    (h : conn.handleIncoming frameCodec f = .ok (conn', b)) : TasksMove conn conn' := by
  simp only [MplexConn.handleIncoming, frameCodec] at h
  cases hf : f.flag with
  | newStream =>
    rw [hf] at h
    simp only [MplexConn.handleFlag] at h
    by_cases h0 : wireId f.id = 0
    · rw [if_pos h0] at h
      obtain ⟨rfl, -⟩ := Prod.mk.inj (Except.ok.inj h)
      exact .of_concat rfl rfl ⟨rfl, rfl, rfl, rfl⟩
    · rw [if_neg h0] at h
      obtain ⟨rfl, -⟩ := Prod.mk.inj (Except.ok.inj h)
      exact .of_concat rfl rfl ⟨rfl, rfl, rfl, rfl⟩
  | message | handshakeReq | handshakeRes =>
    rw [hf] at h
    simp only [MplexConn.handleFlag] at h
    rcases putChannel_cases conn (wireId f.id) f.payload with
      ⟨-, hp⟩ | ⟨e, hp⟩ | ⟨i, t, -, ht, hp⟩
    · rw [hp] at h
      obtain ⟨rfl, -⟩ := Prod.mk.inj (Except.ok.inj h)
      exact .of_same rfl rfl
    · rw [hp] at h
      simp at h
    · rw [hp] at h
      obtain ⟨rfl, -⟩ := Prod.mk.inj (Except.ok.inj h)
      exact .of_set rfl ht rfl (.put f.payload)
  | closeStream | disconnected =>
    rw [hf] at h
    obtain ⟨rfl, -⟩ := Prod.mk.inj (Except.ok.inj h)
    exact .of_same rfl rfl
  | liveliness =>
    rw [hf] at h
    simp only [MplexConn.handleFlag] at h
    cases hp : conn.pingCheck with
    | none =>
      rw [hp] at h
      simp at h
    | some q =>
      rw [hp] at h
      obtain ⟨rfl, -⟩ := Prod.mk.inj (Except.ok.inj h)
      exact .of_same rfl rfl

theorem recvQueue_tasks {conn conn' : MplexConn Item} {w : Option Frame}
    (h : conn.recvQueue frameCodec = some (conn', w)) : TasksMove conn conn' := by
  rw [MplexConn.recvQueue] at h
  split at h
  swap
  · simp at h
  cases hq : conn.mpsc with
  | nil =>
    rw [hq] at h
    simp at h
  | cons data rest =>
    rw [hq] at h
    dsimp only at h
    split at h
    · obtain ⟨rfl, -⟩ := Prod.mk.inj (Option.some.inj h)
      exact .of_same rfl rfl
    · split at h
      · obtain ⟨rfl, -⟩ := Prod.mk.inj (Option.some.inj h)
        exact .of_same rfl rfl
      · rename_i hin
        obtain ⟨rfl, -⟩ := Prod.mk.inj (Option.some.inj h)
        have hm := handleIncoming_tasks hin
        exact ⟨hm.handlers, hm.tasks⟩
      · rename_i hin
        obtain ⟨rfl, -⟩ := Prod.mk.inj (Option.some.inj h)
        have hm := handleIncoming_tasks hin
        exact ⟨hm.handlers, hm.tasks⟩

theorem recvRaw_tasks {conn conn' : MplexConn Item} {f : Frame}
    (h : conn.recvRaw frameCodec f = some conn') : TasksMove conn conn' := by
  rw [MplexConn.recvRaw] at h
  split at h
  swap
  · simp at h
  split at h
  · obtain rfl := Option.some.inj h
    exact .of_same rfl rfl
  · rename_i hin
    obtain rfl := Option.some.inj h
    exact handleIncoming_tasks hin

theorem taskStep_tasks {conn conn' : MplexConn Item} {h : Nat} {a : MplexConn.TaskAct}
    (hs : conn.taskStep frameCodec h a = some conn') : TasksMove conn conn' := by
  rw [MplexConn.taskStep] at hs
  cases ht : conn.tasks[h]? with
  | none =>
    rw [ht] at hs
    simp at hs
  | some t =>
    rw [ht] at hs
    dsimp only at hs
    have own : ∀ t', some (conn.setTask h t') = some conn' → Moves conn.hasHandler t t' →
        TasksMove conn conn' := by
      intro t' he hm
      rw [← Option.some.inj he]
      exact .of_set rfl ht rfl hm
    have sends : ∀ (i : Item) (c : MplexConn Item) (t' : MplexStream),
        conn.send frameCodec i = some c → some (c.setTask h t') = some conn' →
        Moves conn.hasHandler t t' → TasksMove conn conn' := by
      intro i c t' hsend he hm
      obtain ⟨-, rfl⟩ := send_some hsend
      rw [← Option.some.inj he]
      exact .of_set rfl ht rfl hm
    have ended : Moves conn.hasHandler t { t with phase := .ended } :=
      .ends t.channel List.suffix_rfl
    cases a with
    | negotiate =>
      simp only [MplexConn.negotiate] at hs
      split at hs
      · -- the initiator sends its request
        rename_i hrole hph
        split at hs
        · exact own _ hs ended
        · rename_i p hp
          split at hs
          · exact own _ hs ended
          · rename_i hsend
            exact sends _ _ _ hsend hs (.request p hrole hph hp)
      · -- the initiator reads the response
        rename_i hrole hph
        split at hs
        · split at hs
          · simp at hs
          · exact own _ hs ended
        · rename_i res rest hc
          by_cases hres : t.proto = some res ∧ conn.hasHandler res = true
          · rw [if_pos hres] at hs
            exact own _ hs (.start res rest hrole hph hc hres.1 hres.2)
          · rw [if_neg hres] at hs
            exact own _ hs (.ends rest (hc ▸ List.suffix_cons ..))
      · -- the responder reads the request
        rename_i hrole hph
        split at hs
        · split at hs
          · simp at hs
          · exact own _ hs ended
        · rename_i p rest hc
          have hends : Moves conn.hasHandler t { t with channel := rest, phase := .ended } :=
            .ends rest (hc ▸ List.suffix_cons ..)
          split at hs
          · rename_i hhas
            split at hs
            · exact own _ hs hends
            · rename_i hsend
              exact sends _ _ _ hsend hs (.accept p rest hrole hph hc hhas)
          · exact own _ hs hends
      · simp at hs
    | write msg =>
      dsimp only at hs
      split at hs
      swap
      · simp at hs
      rename_i hph
      split at hs
      · obtain rfl := Option.some.inj hs
        exact .of_same rfl rfl
      · rename_i hsend
        exact sends _ _ _ hsend hs (.write msg hph)
    | read =>
      dsimp only at hs
      split at hs
      swap
      · simp at hs
      rename_i hph
      split at hs
      · split at hs
        · simp at hs
        · obtain rfl := Option.some.inj hs
          exact .of_same rfl rfl
      · rename_i p rest hc
        exact own _ hs (.read p rest hph hc)
    | close =>
      dsimp only at hs
      split at hs
      swap
      · simp at hs
      split at hs
      · obtain rfl := Option.some.inj hs
        exact .of_same rfl rfl
      · rename_i hsend
        obtain ⟨-, rfl⟩ := send_some hsend
        obtain rfl := Option.some.inj hs
        exact .of_same rfl rfl
    | finish =>
      dsimp only at hs
      split at hs
      · exact own _ hs ended
      · simp at hs

/-- **Every step** moves the tasks of an end, or spawns a new one. -/
theorem step_tasks {s s' : Link Item Frame} {a : LinkAct} (h : s.step frameCodec a = some s')
    (d : End) : TasksMove (s.ends d) (s'.ends d) := by
  have at_ : ∀ (e : End) (conn' : MplexConn Item), s'.ends = Function.update s.ends e conn' →
      TasksMove (s.ends e) conn' → TasksMove (s.ends d) (s'.ends d) := by
    intro e conn' he hm
    rw [he]
    by_cases hd : d = e
    · rw [hd, Function.update_self]
      exact hm
    · rw [Function.update_of_ne hd]
      exact .of_same rfl rfl
  have sent : ∀ {e : End} {i : Item} {conn' : MplexConn Item},
      (s.ends e).send frameCodec i = some conn' → TasksMove (s.ends e) conn' := by
    intro e i conn' hs
    obtain ⟨-, rfl⟩ := send_some hs
    exact .of_same rfl rfl
  cases a with
  | openReq e p | disconnect e p =>
    obtain ⟨conn', hs, rfl⟩ := Option.map_eq_some_iff.mp h
    exact at_ e conn' rfl (sent hs)
  | recvQueue e =>
    obtain ⟨⟨conn', w⟩, hs, rfl⟩ := Option.map_eq_some_iff.mp h
    exact at_ e conn' (by rw [Link.transmit_ends]; rfl) (recvQueue_tasks hs)
  | recvRaw e =>
    simp only [Link.step] at h
    cases hw : s.wire e with
    | nil =>
      rw [hw] at h
      simp at h
    | cons f rest =>
      rw [hw] at h
      obtain ⟨conn', hs, rfl⟩ := Option.map_eq_some_iff.mp h
      exact at_ e conn' rfl (recvRaw_tasks hs)
  | task e j a =>
    obtain ⟨conn', hs, rfl⟩ := Option.map_eq_some_iff.mp h
    exact at_ e conn' rfl (taskStep_tasks hs)
  | liveliness e =>
    simp only [Link.step] at h
    split at h
    · obtain ⟨conn', hs, rfl⟩ := Option.map_eq_some_iff.mp h
      exact at_ e conn' rfl (sent hs)
    · simp at h
  | pingCheckEnd e =>
    obtain rfl := Option.some.inj h
    exact at_ e _ rfl (.of_same rfl rfl)
  | rawError e =>
    simp only [Link.step] at h
    split at h
    · obtain rfl := Option.some.inj h
      exact at_ e _ rfl (.of_same rfl rfl)
    · simp at h

/-! ## How far a task has come -/

/-- The protocol whose handler runs on the stream: the initiator's own, or what the responder
read first. -/
def MplexStream.handlerProtocol (t : MplexStream) : Option Payload :=
  if t.phase = .handling then (if t.isInitiator = true then t.proto else t.put.head?) else none

/-- The protocol that the responder has answered. -/
def MplexStream.accepted (t : MplexStream) : Option Payload := t.sent.head?

/-- What a task has read and sent, phase by phase. The handshake payload is the first of both. -/
structure TaskInv (has : Payload → Bool) (t : MplexStream) : Prop where
  negotiating : t.phase = .negotiating → t.sent = [] ∧ t.channel = t.put
  awaitingRes : t.phase = .awaitingRes →
    t.isInitiator = true ∧ t.sent ≠ [] ∧ t.channel = t.put
  handling : t.phase = .handling →
    ∃ p, t.put.head? = some p ∧ t.sent.head? = some p ∧ t.channel <:+ t.put.tail ∧ has p = true ∧
      (t.isInitiator = true → t.proto = some p)
  requested : t.isInitiator = true → ∀ p, t.sent.head? = some p → t.proto = some p
  answered : t.isInitiator = false → ∀ p, t.sent.head? = some p →
    t.put.head? = some p ∧ has p = true

theorem Spawned.taskInv {has : Payload → Bool} {t : MplexStream} (h : Spawned t) :
    TaskInv has t where
  negotiating _ := ⟨h.sent, h.channel.trans h.put.symm⟩
  awaitingRes hph := by simp [h.phase] at hph
  handling hph := by simp [h.phase] at hph
  requested _ p hp := by simp [h.sent] at hp
  answered _ p hp := by simp [h.sent] at hp

theorem head?_append_of_some {α : Type} {l : List α} {p : α} (h : l.head? = some p) (m : List α) :
    (l ++ m).head? = some p := by
  rw [List.head?_append, h]
  rfl

/-- **A move** of a task. -/
theorem TaskInv.move {has : Payload → Bool} {t t' : MplexStream} (h : TaskInv has t)
    (hm : Moves has t t') : TaskInv has t' := by
  cases hm with
  | stays => exact h
  | put p =>
    refine ⟨fun hph => ?_, fun hph => ?_, fun hph => ?_, h.requested, fun hr q hq => ?_⟩
    · obtain ⟨hs, hc⟩ := h.negotiating hph
      exact ⟨hs, congrArg (· ++ [p]) hc⟩
    · obtain ⟨hr, hs, hc⟩ := h.awaitingRes hph
      exact ⟨hr, hs, congrArg (· ++ [p]) hc⟩
    · obtain ⟨q, hq, hs, hc, hrest⟩ := h.handling hph
      refine ⟨q, head?_append_of_some hq _, hs, ?_, hrest⟩
      have hne : t.put ≠ [] := by
        intro h0
        simp [h0] at hq
      rw [List.tail_append_of_ne_nil hne]
      obtain ⟨l, hl⟩ := hc
      exact ⟨l, by rw [← hl, List.append_assoc]⟩
    · obtain ⟨hp, hhas⟩ := h.answered hr q hq
      exact ⟨head?_append_of_some hp _, hhas⟩
  | ends channel hc =>
    exact ⟨by simp, by simp, by simp, h.requested, h.answered⟩
  | request p hrole hph hp =>
    obtain ⟨hs, hc⟩ := h.negotiating hph
    refine ⟨by simp, fun _ => ⟨hrole, by simp, hc⟩, by simp, fun _ q hq => ?_, fun hr => ?_⟩
    · rw [hs] at hq
      obtain rfl : p = q := by simpa using hq
      exact hp
    · rw [hrole] at hr
      simp at hr
  | start p rest hrole hph hc hp hhas =>
    obtain ⟨-, hs, hput⟩ := h.awaitingRes hph
    obtain ⟨q, l, hl⟩ := List.exists_cons_of_ne_nil hs
    have hq : t.sent.head? = some q := by rw [hl]; rfl
    obtain rfl : p = q := Option.some.inj (hp.symm.trans (h.requested hrole q hq))
    rw [hc] at hput
    refine ⟨by simp, by simp, fun _ => ⟨p, ?_, hq, ?_, hhas, fun _ => hp⟩, h.requested, h.answered⟩
    · rw [← hput]
      rfl
    · rw [← hput]
      exact List.suffix_rfl
  | accept p rest hrole hph hc hhas =>
    obtain ⟨hs, hput⟩ := h.negotiating hph
    rw [hc] at hput
    have hsent : (t.sent ++ [p]).head? = some p := by rw [hs]; rfl
    have hfirst : t.put.head? = some p := by rw [← hput]; rfl
    refine ⟨by simp, by simp, fun _ => ⟨p, hfirst, hsent, ?_, hhas, fun hr => ?_⟩, fun hr => ?_,
      fun _ q hq => ?_⟩
    · rw [← hput]
      exact List.suffix_rfl
    · rw [hrole] at hr
      simp at hr
    · rw [hrole] at hr
      simp at hr
    · obtain rfl : p = q := Option.some.inj (hsent.symm.trans hq)
      exact ⟨hfirst, hhas⟩
  | write msg hph =>
    obtain ⟨p, hp, hs, hc, hhas, hproto⟩ := h.handling hph
    have hhead := head?_append_of_some hs [msg]
    refine ⟨fun hn => ?_, fun hn => ?_, fun _ => ⟨p, hp, hhead, hc, hhas, hproto⟩,
      fun hr q hq => ?_, fun hr q hq => ?_⟩
    · rw [hph] at hn
      simp at hn
    · rw [hph] at hn
      simp at hn
    · exact h.requested hr q (hs.trans (hhead.symm.trans hq))
    · exact h.answered hr q (hs.trans (hhead.symm.trans hq))
  | read p rest hph hc =>
    obtain ⟨q, hq, hs, hsuf, hrest⟩ := h.handling hph
    refine ⟨fun hn => ?_, fun hn => ?_, fun _ => ⟨q, hq, hs, ?_, hrest⟩, h.requested, h.answered⟩
    · rw [hph] at hn
      simp at hn
    · rw [hph] at hn
      simp at hn
    · rw [hc] at hsuf
      exact (List.suffix_cons p rest).trans hsuf

/-- The tasks of a connection. -/
def TasksInv (s : Link Item Frame) : Prop :=
  ∀ d, ∀ t ∈ (s.ends d).tasks, TaskInv (s.ends d).hasHandler t

theorem TasksInv.step {s s' : Link Item Frame} {a : LinkAct} (h : TasksInv s)
    (hs : s.step frameCodec a = some s') : TasksInv s' := by
  intro d t' ht'
  have hm := step_tasks hs d
  have hhas : (s'.ends d).hasHandler = (s.ends d).hasHandler := by
    funext p
    unfold MplexConn.hasHandler
    rw [hm.handlers]
  rw [hhas]
  obtain ⟨i, hi⟩ := List.mem_iff_getElem?.mp ht'
  rcases hm.tasks i t' hi with ⟨t, ht, hmove⟩ | ⟨-, hnew⟩
  · exact (h d t (List.mem_of_getElem? ht)).move hmove
  · exact hnew.taskInv

theorem TasksInv.init {s : Link Item Frame} (h : (link frameCodec).init s) : TasksInv s := by
  intro d t ht
  rw [tasks_init h] at ht
  simp at ht

/-! ## The two ends of a stream -/

section Property

variable {κ φ : Type}

/-- The handlers of a stream agree. -/
structure Link.Negotiated (s : Link κ φ) : Prop where
  /-- an id names one stream at each end -/
  once : ∀ d, ((s.ends d).tasks.map (·.streamId)).Nodup
  /-- a responder's handler is one of its registry, and the other end asked for it -/
  responder : ∀ d, ∀ t ∈ (s.ends d).tasks, t.isInitiator = false → ∀ q, t.handlerProtocol = some q →
    (s.ends d).hasHandler q = true ∧ ∃ u ∈ (s.ends d.other).tasks, u.streamId = t.streamId ∧
      u.isInitiator = true ∧ u.proto = some q
  /-- an initiator's handler is the one that the responder has answered -/
  initiator : ∀ d, ∀ t ∈ (s.ends d).tasks, t.isInitiator = true → ∀ q, t.handlerProtocol = some q →
    ∃ u ∈ (s.ends d.other).tasks, u.streamId = t.streamId ∧ u.isInitiator = false ∧
      u.accepted = some q
  same : ∀ d, ∀ t ∈ (s.ends d).tasks, ∀ u ∈ (s.ends d.other).tasks, u.streamId = t.streamId →
    ∀ p q, t.handlerProtocol = some p → u.handlerProtocol = some q → p = q
  /-- what a handler still has to read is part of what follows the handshake payload, and that
  is what the other handler wrote, in this order -/
  payloads : ∀ d, ∀ t ∈ (s.ends d).tasks, t.handlerProtocol ≠ none →
    t.channel <:+ t.put.tail ∧ ∃ u ∈ (s.ends d.other).tasks, u.streamId = t.streamId ∧
      t.put.tail <+: u.sent.tail

end Property

/-- The log of an id that one task has. -/
theorem logOf_mem {g : MplexStream → List Payload} {tasks : List MplexStream} {t : MplexStream}
    (hnd : (tasks.map (·.streamId)).Nodup) (ht : t ∈ tasks) : logOf g tasks t.streamId = g t := by
  obtain ⟨l, r, rfl⟩ := List.append_of_mem ht
  rw [List.map_append, List.map_cons, List.nodup_append, List.nodup_cons] at hnd
  obtain ⟨-, ⟨hr, -⟩, hdisj⟩ := hnd
  have hl : logOf g l t.streamId = [] := logOf_eq_nil fun u hu he =>
    hdisj u.streamId (List.mem_map_of_mem hu) t.streamId (List.mem_cons_self ..) he
  have hr' : logOf g r t.streamId = [] := logOf_eq_nil fun u hu he =>
    hr (List.mem_map.mpr ⟨u, hu, he⟩)
  rw [logOf_append, hl, List.nil_append]
  unfold logOf at hr' ⊢
  rw [List.flatMap_cons, if_pos rfl, hr', List.append_nil]

/-- **A payload that has arrived** was sent by the stream of the same id. -/
theorem exists_sender {s : Link Item Frame} (hI : IdInv s) (hD : s.InOrder) {d : End}
    {t : MplexStream} (ht : t ∈ (s.ends d).tasks) (hput : t.put ≠ []) :
    ∃ u ∈ (s.ends d.other).tasks, u.streamId = t.streamId ∧ u.isInitiator ≠ t.isInitiator ∧
      t.put <+: u.sent := by
  have hpre := hD d t.streamId
  unfold MplexConn.putTo MplexConn.sentBy at hpre
  rw [logOf_mem (hI.ends d).nodup ht] at hpre
  by_cases hex : ∃ u ∈ (s.ends d.other).tasks, u.streamId = t.streamId
  · obtain ⟨u, hu, hid⟩ := hex
    have hsent := logOf_mem (g := (·.sent)) (hI.ends d.other).nodup hu
    rw [hid] at hsent
    rw [hsent] at hpre
    exact ⟨u, hu, hid, (hI.roles d t ht u hu hid.symm).symm, hpre⟩
  · rw [logOf_eq_nil fun u hu he => hex ⟨u, hu, he⟩, List.prefix_nil] at hpre
    exact absurd hpre hput

theorem head?_of_isPrefix {α : Type} {l m : List α} {p : α} (h : l <+: m) (hl : l.head? = some p) :
    m.head? = some p := by
  obtain ⟨r, rfl⟩ := h
  exact head?_append_of_some hl r

/-- **Agreement** from the invariants. -/
theorem negotiated_of_inv {s : Link Item Frame} (hI : IdInv s) (hD : s.InOrder)
    (hT : TasksInv s) : s.Negotiated := by
  -- a running handler, and the task across that it shook hands with
  have partner : ∀ d, ∀ t ∈ (s.ends d).tasks, ∀ q, t.handlerProtocol = some q →
      (s.ends d).hasHandler q = true ∧ t.put.head? = some q ∧ t.channel <:+ t.put.tail ∧
        ∃ u ∈ (s.ends d.other).tasks, u.streamId = t.streamId ∧ u.isInitiator ≠ t.isInitiator ∧
          t.put <+: u.sent := by
    intro d t ht q hq
    unfold MplexStream.handlerProtocol at hq
    split at hq
    swap
    · simp at hq
    rename_i hph
    obtain ⟨p, hp, hs, hc, hhas, hproto⟩ := (hT d t ht).handling hph
    have hpq : p = q := by
      split at hq
      · rename_i hrole
        exact Option.some.inj ((hproto hrole).symm.trans hq)
      · exact Option.some.inj (hp.symm.trans hq)
    have hne : t.put ≠ [] := by
      intro h0
      simp [h0] at hp
    exact ⟨hpq ▸ hhas, hpq ▸ hp, hc, exists_sender hI hD ht hne⟩
  refine ⟨fun d => (hI.ends d).nodup, ?_, ?_, ?_, ?_⟩
  · intro d t ht hrole q hq
    obtain ⟨hhas, hp, -, u, hu, hid, hrole', hpre⟩ := partner d t ht q hq
    have hinit : u.isInitiator = true := by
      rw [hrole] at hrole'
      simpa using hrole'
    exact ⟨hhas, u, hu, hid, hinit,
      (hT _ u hu).requested hinit q (head?_of_isPrefix hpre hp)⟩
  · intro d t ht hrole q hq
    obtain ⟨-, hp, -, u, hu, hid, hrole', hpre⟩ := partner d t ht q hq
    refine ⟨u, hu, hid, ?_, head?_of_isPrefix hpre hp⟩
    rw [hrole] at hrole'
    simpa using hrole'
  · intro d t ht u hu hid p q hp hq
    obtain ⟨-, hput, -, v, hv, hvid, -, hpre⟩ := partner d t ht p hp
    -- the task across is `u`
    have huv : v = u := by
      have hnd := (hI.ends d.other).nodup
      exact List.inj_on_of_nodup_map hnd hv hu (hvid.trans hid.symm)
    rw [huv] at hpre
    have hsent := head?_of_isPrefix hpre hput
    obtain ⟨-, hput', -⟩ := partner d.other u hu q hq
    unfold MplexStream.handlerProtocol at hq
    split at hq
    swap
    · simp at hq
    rename_i hph
    obtain ⟨r, hr, hs, -⟩ := (hT _ u hu).handling hph
    rw [hr] at hput'
    rw [hs] at hsent
    exact (Option.some.inj hsent).symm.trans (Option.some.inj hput')
  · intro d t ht hne
    obtain ⟨q, hq⟩ := Option.ne_none_iff_exists'.mp hne
    obtain ⟨-, hp, hc, u, hu, hid, -, hpre⟩ := partner d t ht q hq
    refine ⟨hc, u, hu, hid, ?_⟩
    obtain ⟨r, hr⟩ := hpre
    have hne : t.put ≠ [] := by
      intro h0
      simp [h0] at hp
    rw [← hr, List.tail_append_of_ne_nil hne]
    exact List.prefix_append _ _

/-! ## One end opens the streams -/

/-- Streams are requested at end `e` only. -/
def RequestedAt (e : End) : LinkAct → Prop
  | .openReq d _ => d = e
  | _ => True

instance (e : End) (a : LinkAct) : Decidable (RequestedAt e a) := by
  cases a <;> unfold RequestedAt <;> infer_instance

/-- A local open takes an id that fits the 29 bits of the header. -/
def IdFits {κ φ : Type} (c : Codec κ φ) (s : Link κ φ) (a : LinkAct) : Prop :=
  a.opensAt c s = true → (s.ends a.actor).streamCounter.toNat + 1 < 2 ^ 29

instance {κ φ : Type} (c : Codec κ φ) (s : Link κ φ) (a : LinkAct) : Decidable (IdFits c s a) :=
  inferInstanceAs (Decidable (_ → _))

/-- End `e` opens the streams, each with an id that fits. -/
def OpenedBy {κ φ : Type} (c : Codec κ φ) (e : End) (s : Link κ φ) (a : LinkAct) : Prop :=
  RequestedAt e a ∧ IdFits c s a

instance {κ φ : Type} (c : Codec κ φ) (e : End) (s : Link κ φ) (a : LinkAct) :
    Decidable (OpenedBy c e s a) := inferInstanceAs (Decidable (_ ∧ _))

/-- A queue without open requests has none at its head. -/
theorem opensNext_eq_false {conn : MplexConn Item} (h : ∀ i ∈ conn.mpsc, ∀ p, i ≠ .openStream p) :
    conn.opensNext frameCodec = false := by
  unfold MplexConn.opensNext
  cases hq : conn.mpsc with
  | nil => rfl
  | cons i rest =>
    have hi := h i (by rw [hq]; exact List.mem_cons_self ..)
    cases i with
    | openStream p => exact absurd rfl (hi p)
    | _ => simp [frameCodec, Item.isInternal, Item.frame, announcedId]

/-- What holds while end `e` opens all streams. -/
structure SoleOpener (e : End) (s : Link Item Frame) : Prop where
  only : OnlyOpener e s
  inv : OpenerInv e s
  requests : ∀ i ∈ (s.ends e.other).mpsc, ∀ p, i ≠ .openStream p

/-- **One step** in which only `e` is asked for a stream. -/
theorem SoleOpener.step {s s' : Link Item Frame} {a : LinkAct} {e : End} (h : SoleOpener e s)
    (hI : IdInv s) (hg : OpenedBy frameCodec e s a) (hstep : s.step frameCodec a = some s') :
    SoleOpener e s' := by
  have honly : OnlyOpener e s' := by
    obtain ⟨inn, out, hst, hopens⟩ := step_effect hstep
    rcases End.eq_or_eq_other a.actor e with rfl | rfl
    · refine ⟨by rw [hst.other]; exact h.only.alone, ?_⟩
      rcases hst.effect.ids with ⟨hs, -, -, -⟩ | ⟨rfl, rfl, p, hc⟩ | ⟨f, rfl, hf, -⟩
      · rw [← length_roster, hs.roster, length_roster]
        exact h.only.few
      · have hfits := hg.2 (hopens rfl ⟨_, List.mem_singleton_self _, rfl⟩)
        rw [h.inv.counted] at hfits
        rw [show (s'.ends a.actor).tasks = _ from congrArg Core.tasks hc]
        show (_ ++ [_]).length < _
        rw [List.length_append, List.length_singleton]
        exact hfits
      · -- nothing is announced to the opener
        have hquiet := h.inv.quiet
        rw [hst.taken, announceCount_append, announceCount_newStream hf] at hquiet
        omega
    · have hreq := h.requests
      refine ⟨?_, by rw [hst.other]; exact h.only.few⟩
      rw [End.other_other] at hreq ⊢
      have halone := h.only.alone
      rw [End.other_other] at halone
      rcases hst.effect.ids with ⟨hs, -, -, -⟩ | ⟨rfl, rfl, p, hc⟩ | ⟨f, rfl, hf, hrem⟩
      · intro t ht
        obtain ⟨u, hu, -, hrole⟩ := roster_mem hs.roster ht
        rw [← hrole]
        exact halone u hu
      · -- no request stands on the queue
        have ho := hopens rfl ⟨_, List.mem_singleton_self _, rfl⟩
        cases a with
        | recvQueue d =>
          have hnext : (s.ends d).opensNext frameCodec = false := opensNext_eq_false hreq
          exact absurd (hnext.symm.trans ho) (by simp)
        | _ => simp [LinkAct.opensAt] at ho
      · obtain ⟨-, hc⟩ := hrem (hI.wireId_ne_zero hst.taken hf)
        rw [show (s'.ends a.actor).tasks = _ from congrArg Core.tasks hc]
        intro t ht
        rcases List.mem_append.mp ht with ht | ht
        · exact halone t ht
        · rw [List.mem_singleton.mp ht]
  refine ⟨honly, h.inv.step hI honly hstep, fun i hi p hip => ?_⟩
  cases step_queued hstep e.other i hi with
  | old hi => exact h.requests i hi p hip
  | plain hi =>
    rw [hip] at hi
    simp [Item.isInternal] at hi
  | openReq p' ha hi =>
    have := hg.1
    rw [ha] at this
    exact End.other_ne e this
  | close _ _ _ _ _ hi | disconnect _ _ hi =>
    rw [hip] at hi
    simp at hi

theorem SoleOpener.init {s : Link Item Frame} (h : (link frameCodec).init s) (e : End) :
    SoleOpener e s := by
  obtain ⟨-, hs, pc, he⟩ := h e
  obtain ⟨-, hs', pc', he'⟩ := h e.other
  refine ⟨⟨by rw [he']; simp, by rw [he]; simp⟩, ⟨?_, by rw [he]; rfl⟩, by rw [he']; simp⟩
  rw [inFlight_init h]
  rfl

/-- **Every run** in which `e` opens all streams has no overlapping opens. -/
theorem opensAlone_of_openedBy {e : End} {as : List LinkAct} {s : Link Item Frame}
    (h : (link frameCodec).RunUnder (OpenedBy frameCodec e) as s) :
    (link frameCodec).RunUnder (OpensAlone frameCodec) as s ∧ SoleOpener e s := by
  induction h with
  | nil hi => exact ⟨.nil hi, SoleOpener.init hi e⟩
  | snoc _ hg hs ih =>
    obtain ⟨hrun, hS⟩ := ih
    have hI := idInv_of_run hrun
    have hS' := hS.step hI hg hs
    exact ⟨hrun.snoc (hS'.only.opensAlone hS.inv hs) hs, hS'⟩

/-- Whether the ids fit reads the same in both views. -/
theorem idFits_map (V : UnsignedVarint) (s : Link Item Frame) (a : LinkAct) :
    IdFits (bytesCodec V) (s.map (bytesHom V)) a ↔ IdFits frameCodec s a := by
  rw [IdFits, IdFits, (bytesHom V).opensAt_map]
  rfl

theorem openedBy_map (V : UnsignedVarint) (e : End) (s : Link Item Frame) (a : LinkAct) :
    OpenedBy (bytesCodec V) e (s.map (bytesHom V)) a ↔ OpenedBy frameCodec e s a :=
  and_congr_right fun _ => idFits_map V s a

/-- **The handlers of a stream agree** in every run in which one end opens the streams, each with
an id below 2^29. -/
theorem negotiated_agree (V : UnsignedVarint) {e : End} {as : List LinkAct}
    {s : Link (List UInt8) (List UInt8)}
    (h : (link (bytesCodec V)).RunUnder (OpenedBy (bytesCodec V) e) as s) : s.Negotiated := by
  obtain ⟨s, hrun, rfl⟩ := (bytesHom V).run_view h
  obtain ⟨halone, -⟩ :=
    opensAlone_of_openedBy (hrun.mono fun s a => (openedBy_map V e s a).mp)
  have hT : TasksInv s := halone.invariant TasksInv (fun _ => TasksInv.init)
    fun _ _ _ hT _ hs => hT.step hs
  obtain ⟨h₁, h₂, h₃, h₄, h₅⟩ :=
    negotiated_of_inv (idInv_of_run halone) (dataInv_of_run halone).ordered hT
  exact ⟨h₁, h₂, h₃, h₄, h₅⟩

/-- The stream of `oneStream` is negotiated. -/
theorem negotiated_oneStream_enabled :
    ((link (bytesCodec leb128)).exec (OpenedBy (bytesCodec leb128) .dialer) (Link.fresh ["ping"])
      oneStream).isSome = true := by decide +kernel

theorem negotiated_agree_oneStream :
    (((link (bytesCodec leb128)).exec (OpenedBy (bytesCodec leb128) .dialer) (Link.fresh ["ping"])
      oneStream).get negotiated_oneStream_enabled).Negotiated :=
  negotiated_agree leb128 (runUnder_of_exec (fresh_init _ ["ping"])
    (Option.some_get negotiated_oneStream_enabled).symm)

/-! ## The 2^29th stream -/

/-- The states that a connection reaches when only the dialer is asked for streams. -/
abbrev DialerReach (s : Link Item Frame) : Prop :=
  (link frameCodec).ReachableUnder (fun _ a => RequestedAt .dialer a) s

theorem DialerReach.step {s s' : Link Item Frame} {a : LinkAct} (h : DialerReach s)
    (hs : s.step frameCodec a = some s') (hc : RequestedAt .dialer a) : DialerReach s' :=
  ReachableUnder.step h hc hs

/-- The end with another queue. -/
def MplexConn.withQueue {κ : Type} (conn : MplexConn κ) (mpsc : List κ) : MplexConn κ :=
  { conn with mpsc := mpsc }

/-- A queued frame is written to the wire. -/
theorem DialerReach.flush {s : Link Item Frame} (h : DialerReach s) {e : End} {i : Item}
    (hr : (s.ends e).running = true) (hq : (s.ends e).mpsc = [i]) (hi : i.isInternal = false) :
    ∃ s', DialerReach s' ∧ s'.ends e = (s.ends e).withQueue [] ∧
      s'.ends e.other = s.ends e.other ∧ s'.wire e = s.wire e ∧
      s'.wire e.other = s.wire e.other ++ [i.frame] := by
  have hs : s.step frameCodec (.recvQueue e)
      = some ((s.setEnd e ((s.ends e).withQueue [])).transmit e (some i.frame)) := by
    simp only [Link.step, MplexConn.recvQueue, if_pos hr, hq, frameCodec, hi, Bool.false_eq_true,
      if_false, Option.map_some]
    rfl
  exact ⟨_, h.step hs trivial, by simp, by simp, by simp, by simp⟩

/-- A frame is read from the wire and handled. -/
theorem DialerReach.deliver {s : Link Item Frame} (h : DialerReach s) {e : End} {f : Frame}
    (conn' : MplexConn Item) (hr : (s.ends e).running = true) (hw : s.wire e = [f])
    (hf : (s.ends e).handleFlag frameCodec (wireId f.id) f.flag f.payload = .ok (conn', true)) :
    ∃ s', DialerReach s' ∧ s'.ends e = conn' ∧ s'.ends e.other = s.ends e.other ∧
      s'.wire e = [] ∧ s'.wire e.other = s.wire e.other := by
  have hs : s.step frameCodec (.recvRaw e)
      = some { s.setEnd e conn' with wire := Function.update s.wire e [] } := by
    have hin : (s.ends e).handleIncoming frameCodec f = .ok (conn', true) := hf
    simp only [Link.step, MplexConn.recvRaw, if_pos hr, hw, hin, Option.map_some]
  exact ⟨_, h.step hs trivial, by simp, by simp, Function.update_self ..,
    Function.update_of_ne (End.other_ne e) ..⟩

/-- An open request is handled. -/
theorem recvQueue_openStream {conn : MplexConn Item} (hr : conn.running = true) (p : Payload)
    (rest : List Item) :
    (conn.withQueue (.openStream p :: rest)).recvQueue frameCodec
      = some ((conn.withQueue rest).openLocal frameCodec p, none) := by
  simp only [MplexConn.recvQueue, MplexConn.withQueue, hr, if_true, frameCodec, Item.isInternal,
    MplexConn.handleIncoming, Item.frame, MplexConn.handleFlag, show wireId 0 = 0 from rfl]

/-- The dialer opens a stream, and its announcement is on the wire. -/
theorem DialerReach.opens {s : Link Item Frame} (h : DialerReach s) (p : Payload)
    (hr : (s.ends .dialer).running = true) (hq : (s.ends .dialer).mpsc = []) :
    ∃ s', DialerReach s' ∧
      s'.ends .dialer = ((s.ends .dialer).openLocal frameCodec p).withQueue [] ∧
      s'.ends .listener = s.ends .listener ∧ s'.wire .dialer = s.wire .dialer ∧
      s'.wire .listener = s.wire .listener ++
        [(Item.announce ((s.ends .dialer).streamCounter + 1)).frame] := by
  have h₁ : s.step frameCodec (.openReq .dialer p)
      = some (s.setEnd .dialer ((s.ends .dialer).withQueue [.openStream p])) := by
    simp only [Link.step, MplexConn.send, if_pos hr, hq, List.nil_append, Option.map_some]
    rfl
  have h₂ : (s.setEnd .dialer ((s.ends .dialer).withQueue [.openStream p])).step frameCodec
      (.recvQueue .dialer) = some ((s.setEnd .dialer
        ((s.ends .dialer).withQueue [.openStream p])).setEnd .dialer
          (((s.ends .dialer).withQueue []).openLocal frameCodec p)) := by
    simp only [Link.step, Link.setEnd_ends_self, recvQueue_openStream hr, Option.map_some]
    rfl
  obtain ⟨s', hr', he, ho, hw, hwo⟩ :=
    ((h.step h₁ rfl).step h₂ trivial).flush (e := .dialer)
      (i := .announce ((s.ends .dialer).streamCounter + 1))
      (by rw [Link.setEnd_ends_self]; exact hr) (by rw [Link.setEnd_ends_self]; rfl) rfl
  refine ⟨s', hr', ?_, ho.trans ?_, hw, hwo⟩
  · rw [he, Link.setEnd_ends_self]
    rfl
  · exact (Link.setEnd_ends_other _ .dialer _).trans (Link.setEnd_ends_other s .dialer _)

/-- The protocols of the run: "a" is requested on every stream, "b" on none. -/
def protoA : Payload := ⟨ascii "a", by decide⟩

def protoB : Payload := ⟨ascii "b", by decide⟩

/-- The dialer has opened `n` streams, and the handler of the first one runs. -/
structure Wrapping (n : Nat) (s : Link Item Frame) : Prop where
  wire : ∀ e, s.wire e = []
  mpsc : ∀ e, (s.ends e).mpsc = []
  running : ∀ e, (s.ends e).running = true
  counter : ∀ e, (s.ends e).streamCounter.toNat = n
  first : ∃ t, (s.ends .dialer).tasks[0]? = some t ∧ t.phase = .handling ∧ t.streamId = 1
  proto : ∀ u ∈ (s.ends .dialer).tasks, u.proto ≠ some protoB
  handlers : (s.ends .listener).handlers = ["a", "b"]

/-- The first stream is opened and negotiated. -/
def firstStream : List LinkAct :=
  [.openReq .dialer protoA, .recvQueue .dialer, .recvQueue .dialer, .recvRaw .listener,
   .task .dialer 0 .negotiate, .recvQueue .dialer, .recvRaw .listener,
   .task .listener 0 .negotiate, .recvQueue .listener, .recvRaw .dialer,
   .task .dialer 0 .negotiate]

theorem firstStream_enabled :
    ((link frameCodec).exec (fun _ a => RequestedAt .dialer a) (Link.fresh ["a", "b"])
      firstStream).isSome = true := by decide +kernel

theorem wrapping_one : ∃ s, DialerReach s ∧ Wrapping 1 s := by
  refine ⟨((link frameCodec).exec (fun _ a => RequestedAt .dialer a) (Link.fresh ["a", "b"])
    firstStream).get firstStream_enabled, ⟨firstStream, runUnder_of_exec (fresh_init _ ["a", "b"])
      (Option.some_get firstStream_enabled).symm⟩, ?_⟩
  refine ⟨fun e => ?_, fun e => ?_, fun e => ?_, fun e => ?_, ?_, ?_, ?_⟩
  · cases e <;> decide +kernel
  · cases e <;> decide +kernel
  · cases e <;> decide +kernel
  · cases e <;> decide +kernel
  · exact ⟨_, rfl, by decide +kernel, by decide +kernel⟩
  · decide +kernel
  · decide +kernel

/-- **One more stream** with an id that fits. -/
theorem Wrapping.next {n : Nat} {s : Link Item Frame} (h : DialerReach s) (hs : Wrapping n s)
    (hn : n + 1 < 2 ^ 29) : ∃ s', DialerReach s' ∧ Wrapping (n + 1) s' := by
  obtain ⟨s₁, h₁, hd₁, hl₁, hwd₁, hwl₁⟩ := h.opens protoA (hs.running _) (hs.mpsc _)
  rw [hs.wire, List.nil_append] at hwl₁
  have hid : ((s.ends .dialer).streamCounter + 1).toNat = n + 1 := by
    rw [UInt32.toNat_add, hs.counter, show (1 : UInt32).toNat = 1 from rfl,
      Nat.mod_eq_of_lt (by omega)]
  have hwire : wireId ((s.ends .dialer).streamCounter + 1) = (s.ends .dialer).streamCounter + 1 :=
    wireId_of_lt (by omega)
  have hne : (s.ends .dialer).streamCounter + 1 ≠ 0 := by
    intro h0
    rw [h0] at hid
    simp at hid
  obtain ⟨s₂, h₂, hl₂, hd₂, hwl₂, hwd₂⟩ := h₁.deliver (e := .listener)
    ((s.ends .listener).openRemote ((s.ends .dialer).streamCounter + 1))
    (by rw [hl₁]; exact hs.running _) hwl₁ (by
      rw [hl₁]
      simp only [Item.frame, MplexConn.handleFlag, hwire, if_neg hne])
  obtain ⟨t, ht, hph, htid⟩ := hs.first
  have hd : s₂.ends .dialer = ((s.ends .dialer).openLocal frameCodec protoA).withQueue [] :=
    hd₂.trans hd₁
  refine ⟨s₂, h₂, fun e => ?_, fun e => ?_, fun e => ?_, fun e => ?_, ⟨t, ?_, hph, htid⟩, ?_, ?_⟩
  · cases e with
    | dialer => exact hwd₂.trans (hwd₁.trans (hs.wire _))
    | listener => exact hwl₂
  · cases e with
    | dialer => rw [hd]; rfl
    | listener => rw [hl₂]; exact hs.mpsc .listener
  · cases e with
    | dialer => rw [hd]; exact hs.running .dialer
    | listener => rw [hl₂]; exact hs.running .listener
  · cases e with
    | dialer => rw [hd]; exact hid
    | listener => rw [hl₂]; exact hid
  · rw [hd]
    exact (List.getElem?_append_left (List.getElem?_eq_some_iff.mp ht).1).trans ht
  · rw [hd]
    intro u hu
    rcases List.mem_append.mp hu with hu | hu
    · exact hs.proto u hu
    · rw [List.mem_singleton.mp hu]
      show some protoA ≠ some protoB
      decide
  · rw [hl₂]
    exact hs.handlers

/-- All ids that fit are used up. -/
theorem wrapping_reached : ∀ n, 1 ≤ n → n < 2 ^ 29 → ∃ s, DialerReach s ∧ Wrapping n s := by
  intro n hn
  induction n, hn using Nat.le_induction with
  | base => exact fun _ => wrapping_one
  | succ n _ ih =>
    intro hlt
    obtain ⟨s, h, hs⟩ := ih (by omega)
    exact hs.next h hlt

/-- An announcement whose id reads as 0 is taken for an open request, and answered with an
announcement. -/
theorem DialerReach.misread {s : Link Item Frame} (h : DialerReach s) {e : End} {id : UInt32}
    (hr : (s.ends e).running = true) (hq : (s.ends e).mpsc = [])
    (hw : s.wire e = [(Item.announce id).frame]) (hid : wireId id = 0) :
    ∃ s', DialerReach s' ∧
      s'.ends e = ((s.ends e).openLocal frameCodec Payload.empty).withQueue [] ∧
      s'.ends e.other = s.ends e.other ∧ s'.wire e = [] ∧
      s'.wire e.other = s.wire e.other ++
        [(Item.announce ((s.ends e).streamCounter + 1)).frame] := by
  obtain ⟨s₁, h₁, he₁, ho₁, hw₁, hwo₁⟩ := h.deliver
    ((s.ends e).openLocal frameCodec Payload.empty) hr hw (by
      simp only [Item.frame, MplexConn.handleFlag, hid, if_true])
  obtain ⟨s₂, h₂, he₂, ho₂, hw₂, hwo₂⟩ :=
    h₁.flush (e := e) (i := .announce ((s.ends e).streamCounter + 1)) (by rw [he₁]; exact hr)
      (by rw [he₁]; simp only [MplexConn.openLocal, hq, List.nil_append]; rfl) rfl
  exact ⟨s₂, h₂, by rw [he₂, he₁], ho₂.trans ho₁, hw₂.trans hw₁, by rw [hwo₂, hwo₁]⟩

/-- With all ids used up, the next stream makes the listener open one of its own, whose
announcement makes the dialer open one that the listener takes for stream 1. -/
theorem Wrapping.wrap {s : Link Item Frame} (h : DialerReach s) (hs : Wrapping (2 ^ 29 - 1) s) :
    ∃ s', DialerReach s' ∧ ¬ s'.Negotiated := by
  have hcount : ∀ e, (s.ends e).streamCounter = 536870911 := fun e =>
    UInt32.toNat_inj.mp (hs.counter e)
  obtain ⟨t, ht, hph, htid⟩ := hs.first
  obtain ⟨s₁, h₁, hd₁, hl₁, hwd₁, hwl₁⟩ := h.opens protoA (hs.running _) (hs.mpsc _)
  rw [hs.wire, List.nil_append, hcount] at hwl₁
  obtain ⟨s₂, h₂, hl₂, hd₂, hwl₂, hwd₂⟩ :=
    h₁.misread (e := .listener) (by rw [hl₁]; exact hs.running _)
    (by rw [hl₁]; exact hs.mpsc _) hwl₁ (by decide)
  replace hd₂ : s₂.ends .dialer = _ := hd₂.trans hd₁
  replace hwd₂ : s₂.wire .dialer = [(Item.announce 536870912).frame] := by
    rw [hl₁, hcount] at hwd₂
    refine hwd₂.trans ?_
    rw [show End.listener.other = .dialer from rfl, hwd₁, hs.wire]
    rfl
  obtain ⟨s₃, h₃, hd₃, hl₃, hwd₃, hwl₃⟩ := h₂.misread (e := .dialer)
    (by rw [hd₂]; exact hs.running .dialer) (by rw [hd₂]; rfl) hwd₂ (by decide)
  have hc₂ : (s₂.ends .dialer).streamCounter = 536870912 := by
    rw [hd₂]
    show (s.ends .dialer).streamCounter + 1 = _
    rw [hcount]
    rfl
  replace hwl₃ : s₃.wire .listener = [(Item.announce 536870913).frame] := by
    refine hwl₃.trans ?_
    rw [show End.dialer.other = .listener from rfl, hwl₂, hc₂]
    rfl
  replace hl₃ : s₃.ends .listener = _ := hl₃.trans hl₂
  -- the listener takes the second answer for stream 1
  obtain ⟨s₄, h₄, hl₄, hd₄, hwl₄, hwd₄⟩ := h₃.deliver ((s₃.ends .listener).openRemote 1)
    (by rw [hl₃, hl₁]; exact hs.running .listener) hwl₃ rfl
  replace hd₄ : s₄.ends .dialer = _ := hd₄.trans hd₃
  -- the first stream's handler writes, and the new task takes that for a request
  have htask : (s₄.ends .dialer).tasks[0]? = some t := by
    have hlt := (List.getElem?_eq_some_iff.mp ht).1
    rw [hd₄, hd₂]
    show ((_ ++ _) ++ _)[0]? = _
    rw [List.append_assoc, List.getElem?_append_left hlt, ht]
  have hrun : ∀ e, (s₄.ends e).running = true := by
    intro e
    cases e with
    | dialer => rw [hd₄, hd₂]; exact hs.running .dialer
    | listener => rw [hl₄, hl₃, hl₁]; exact hs.running .listener
  have hwrite : s₄.step frameCodec (.task .dialer 0 (.write protoB)) = some (s₄.setEnd .dialer
      (((s₄.ends .dialer).withQueue [.message 1 protoB]).setTask 0
        { t with sent := t.sent ++ [protoB] })) := by
    have hq : (s₄.ends .dialer).mpsc = [] := by rw [hd₄]; rfl
    simp only [Link.step, MplexConn.taskStep, htask, if_pos hph, MplexConn.send, if_pos (hrun _),
      hq,
      List.nil_append, htid, Option.map_some]
    rfl
  obtain ⟨s₅, h₅, hd₅, hl₅, -, hwl₅⟩ :=
    (h₄.step hwrite trivial).flush (e := .dialer) (i := .message 1 protoB)
      (by rw [Link.setEnd_ends_self]; exact hrun _) (by rw [Link.setEnd_ends_self]; rfl) rfl
  rw [Link.setEnd_ends_self] at hd₅
  replace hl₅ : s₅.ends .listener = (s₃.ends .listener).openRemote 1 :=
    hl₅.trans ((Link.setEnd_ends_other s₄ .dialer _).trans hl₄)
  replace hwl₅ : s₅.wire .listener = [(Item.message 1 protoB).frame] := by
    refine hwl₅.trans ?_
    rw [Link.setEnd_wire, show End.dialer.other = .listener from rfl, hwl₄]
    rfl
  obtain ⟨L, hL⟩ : ∃ L, L = s₃.ends .listener := ⟨_, rfl⟩
  rw [← hL] at hl₅
  have hput : (L.openRemote 1).handleFlag frameCodec (wireId 1) .message protoB =
      .ok ((L.openRemote 1).setTask L.tasks.length
        ⟨1, false, none, .negotiating, [protoB], [protoB], []⟩, true) := by
    have hlook : (L.openRemote 1).streams.lookup (wireId 1) = some L.tasks.length :=
      AList.lookup_insert _
    have hnew : (L.openRemote 1).tasks[L.tasks.length]?
        = some ⟨1, false, none, .negotiating, [], [], []⟩ := List.getElem?_concat_length
    simp only [MplexConn.handleFlag, MplexConn.putChannel, hlook, hnew, reduceCtorEq, if_false,
      List.nil_append]
    rfl
  obtain ⟨s₆, h₆, hl₆, hd₆, -, -⟩ :=
    h₅.deliver _ (by rw [hl₅, hL, hl₃, hl₁]; exact hs.running .listener)
    hwl₅ (by rw [hl₅]; exact hput)
  have htask₆ : (s₆.ends .listener).tasks[L.tasks.length]?
      = some ⟨1, false, none, .negotiating, [protoB], [protoB], []⟩ := by
    rw [hl₆]
    refine List.getElem?_set_self ?_
    show L.tasks.length < (L.tasks ++ [_]).length
    simp
  have hrun₆ : (s₆.ends .listener).running = true := by
    rw [hl₆, hL, hl₃, hl₁]
    exact hs.running .listener
  have hhas : (s₆.ends .listener).hasHandler protoB = true := by
    have hh : (s₆.ends .listener).handlers = ["a", "b"] := by
      rw [hl₆, hL, hl₃, hl₁]
      exact hs.handlers
    unfold MplexConn.hasHandler
    rw [hh]
    decide +kernel
  have hneg : s₆.step frameCodec (.task .listener L.tasks.length .negotiate) = some
      (s₆.setEnd .listener (((s₆.ends .listener).withQueue
        ((s₆.ends .listener).mpsc ++ [.handshakeRes 1 protoB])).setTask L.tasks.length
          ⟨1, false, none, .handling, [], [protoB], [protoB]⟩)) := by
    simp only [Link.step, MplexConn.taskStep, htask₆, MplexConn.negotiate, hhas, if_true,
      MplexConn.send, if_pos hrun₆, Option.map_some, List.nil_append]
    rfl
  refine ⟨_, h₆.step hneg trivial, fun hN => ?_⟩
  -- no stream of the dialer has asked for "b"
  obtain ⟨-, u, hu, -, -, hproto⟩ := hN.responder .listener
    ⟨1, false, none, .handling, [], [protoB], [protoB]⟩ (by
      rw [Link.setEnd_ends_self]
      refine List.mem_of_getElem? (i := L.tasks.length) (List.getElem?_set_self ?_)
      exact (List.getElem?_eq_some_iff.mp htask₆).1) rfl protoB rfl
  rw [Link.setEnd_ends_other, show End.listener.other = .dialer from rfl,
    show s₆.ends .dialer = s₅.ends .dialer from hd₆, hd₅, hd₄, hd₂] at hu
  have hother : ∀ v ∈ (s.ends .dialer).tasks ++ [⟨(s.ends .dialer).streamCounter + 1, true,
      some protoA, .negotiating, [], [], []⟩] ++ [⟨(s.ends .dialer).streamCounter + 1 + 1, true,
      some Payload.empty, .negotiating, [], [], []⟩], v.proto ≠ some protoB := by
    intro v hv
    simp only [List.mem_append, List.mem_singleton] at hv
    rcases hv with (hv | rfl) | rfl
    · exact hs.proto v hv
    · show some protoA ≠ some protoB
      decide
    · show some Payload.empty ≠ some protoB
      decide
  rcases List.mem_or_eq_of_mem_set hu with hu | rfl
  · exact hother u hu hproto
  · exact hs.proto t (List.mem_of_getElem? ht) hproto

/-- What is reached over frames is reached over byte strings. -/
theorem DialerReach.bytes {s : Link Item Frame} (h : DialerReach s) (V : UnsignedVarint) :
    (link (bytesCodec V)).ReachableUnder (fun _ a => RequestedAt .dialer a)
      (s.map (bytesHom V)) := by
  obtain ⟨as, hrun⟩ := h
  have hinit : ∀ s : Link Item Frame, (link frameCodec).init s →
      (link (bytesCodec V)).init (s.map (bytesHom V)) := by
    intro s hs e
    obtain ⟨hw, handlers, pingCheck, he⟩ := hs e
    refine ⟨?_, handlers, pingCheck, ?_⟩
    · show (s.wire e).map _ = []
      rw [hw]
      rfl
    · show (s.ends e).map _ = _
      rw [he]
      rfl
  have hstep : ∀ (s : Link Item Frame) a s', s.step frameCodec a = some s' →
      Link.step (bytesCodec V) (s.map (bytesHom V)) a = some (s'.map (bytesHom V)) := by
    intro s a s' hs
    rw [(bytesHom V).step_map, hs]
    rfl
  obtain ⟨t, ht, rfl⟩ := hrun.simulate (M := link (bytesCodec V))
    (C := fun _ a => RequestedAt .dialer a) (fun t s => t = s.map (bytesHom V))
    (fun s hs => ⟨_, hinit s hs, rfl⟩)
    (fun _ s a s' ht hc hs => ⟨_, ht ▸ hstep s a s' hs, hc, rfl⟩)
  exact ⟨as, ht⟩

/-- **One end asks for 2^29 streams**, and the listener runs the handler of a protocol that nobody
asked for. -/
theorem wrapped_id_misleads :
    ∃ s, (link (bytesCodec leb128)).ReachableUnder (fun _ a => RequestedAt .dialer a) s ∧
      ¬ s.Negotiated := by
  obtain ⟨s, h, hs⟩ := wrapping_reached (2 ^ 29 - 1) (by omega) (by omega)
  obtain ⟨s', h', hwrong⟩ := hs.wrap h
  exact ⟨_, h'.bytes leb128,
    fun hN => hwrong ⟨hN.once, hN.responder, hN.initiator, hN.same, hN.payloads⟩⟩

end Rnet.Mplex
