import Rnet.Mplex.Effect

/-!
# What joins the queue of a connection

The queue of an end holds frames for the wire and internal commands. The commands come from
outside `conn_handler`, each from one kind of action.

> `step_queued`: every item of a queue was there before, is a frame, or is the command that
> the action queues.
-/

namespace Rnet.Mplex

/-- Where an item that stands on a queue can come from. -/
inductive Queued (s : Link Item Frame) (a : LinkAct) (d : End) (i : Item) : Prop
  | old (h : i ∈ (s.ends d).mpsc)
  | plain (h : i.isInternal = false)
  | openReq (p : Payload) (ha : a = .openReq d p) (hi : i = .openStream p)
  | close (h : Nat) (t : MplexStream) (ha : a = .task d h .close)
      (ht : (s.ends d).tasks[h]? = some t) (hph : t.phase = .handling)
      (hi : i = .closeStream t.streamId)
  | disconnect (p : Payload) (ha : a = .disconnect d p) (hi : i = .disconnect p)

/-- `handle_incoming` queues announcements only, and takes a key out of the table for a
`CloseStream` frame only. -/
theorem handleIncoming_queue {conn conn' : MplexConn Item} {f : Frame} {b : Bool}
    (h : conn.handleIncoming frameCodec f = .ok (conn', b)) :
    (∃ q, conn'.mpsc = conn.mpsc ++ q ∧ ∀ i ∈ q, i.isInternal = false) ∧
      (f.flag = .closeStream ∧ conn'.streams = conn.streams.erase (wireId f.id) ∨
        f.flag ≠ .closeStream ∧ ∀ id ∈ conn.streams, id ∈ conn'.streams) := by
  simp only [MplexConn.handleIncoming, frameCodec] at h
  have none : ∃ q, conn.mpsc = conn.mpsc ++ q ∧ ∀ i ∈ q, i.isInternal = false :=
    ⟨[], (List.append_nil _).symm, by simp⟩
  cases hf : f.flag with
  | newStream =>
    rw [hf] at h
    simp only [MplexConn.handleFlag] at h
    have more : ∀ id k, ∀ i ∈ conn.streams, i ∈ conn.streams.insert id k := by
      intro id k i hi
      rw [AList.mem_insert]
      exact Or.inr hi
    by_cases h0 : wireId f.id = 0
    · rw [if_pos h0] at h
      obtain ⟨rfl, -⟩ := Prod.mk.inj (Except.ok.inj h)
      exact ⟨⟨_, rfl, by simp [Item.isInternal]⟩, .inr ⟨by simp, more _ _⟩⟩
    · rw [if_neg h0] at h
      obtain ⟨rfl, -⟩ := Prod.mk.inj (Except.ok.inj h)
      exact ⟨none, .inr ⟨by simp, more _ _⟩⟩
  | message | handshakeReq | handshakeRes =>
    rw [hf] at h
    simp only [MplexConn.handleFlag] at h
    rcases putChannel_cases conn (wireId f.id) f.payload with
      ⟨-, hp⟩ | ⟨e, hp⟩ | ⟨_, _, -, -, hp⟩
    all_goals
      rw [hp] at h
      simp only [Except.ok.injEq, Prod.mk.injEq, reduceCtorEq] at h
      try obtain ⟨rfl, -⟩ := h
      try exact ⟨none, .inr ⟨by simp, fun _ hid => hid⟩⟩
  | closeStream =>
    rw [hf] at h
    obtain ⟨rfl, -⟩ := Prod.mk.inj (Except.ok.inj h)
    exact ⟨none, .inl ⟨rfl, rfl⟩⟩
  | disconnected =>
    rw [hf] at h
    obtain ⟨rfl, -⟩ := Prod.mk.inj (Except.ok.inj h)
    exact ⟨none, .inr ⟨by simp, fun _ hid => hid⟩⟩
  | liveliness =>
    rw [hf] at h
    simp only [MplexConn.handleFlag] at h
    cases hp : conn.pingCheck with
    | none =>
      rw [hp] at h
      simp at h
    | some q =>
      rw [hp] at h
      obtain ⟨rfl, -⟩ := Prod.mk.inj (Except.ok.inj h)
      exact ⟨none, .inr ⟨by simp, fun _ hid => hid⟩⟩

theorem handleIncoming_mpsc {conn conn' : MplexConn Item} {f : Frame} {b : Bool}
    (h : conn.handleIncoming frameCodec f = .ok (conn', b)) :
    ∀ i ∈ conn'.mpsc, i ∈ conn.mpsc ∨ i.isInternal = false := by
  obtain ⟨⟨q, hq, hplain⟩, -⟩ := handleIncoming_queue h
  intro i hi
  rw [hq] at hi
  exact (List.mem_append.mp hi).imp_right (hplain i)

theorem recvQueue_mpsc {conn conn' : MplexConn Item} {w : Option Frame}
    (h : conn.recvQueue frameCodec = some (conn', w)) :
    ∀ i ∈ conn'.mpsc, i ∈ conn.mpsc ∨ i.isInternal = false := by
  rw [MplexConn.recvQueue] at h
  split at h
  swap
  · simp at h
  cases hq : conn.mpsc with
  | nil =>
    rw [hq] at h
    simp at h
  | cons data rest =>
    rw [hq] at h
    dsimp only at h
    have tail : ∀ i, i ∈ rest ∨ i.isInternal = false → i ∈ data :: rest ∨ i.isInternal = false :=
      fun i hi => hi.imp_left (List.mem_cons_of_mem _)
    split at h
    · obtain ⟨rfl, -⟩ := Prod.mk.inj (Option.some.inj h)
      exact fun i hi => tail i (Or.inl hi)
    · split at h
      · obtain ⟨rfl, -⟩ := Prod.mk.inj (Option.some.inj h)
        exact fun i hi => tail i (Or.inl hi)
      · rename_i hin
        obtain ⟨rfl, -⟩ := Prod.mk.inj (Option.some.inj h)
        exact fun i hi => tail i (handleIncoming_mpsc hin i hi)
      · rename_i hin
        obtain ⟨rfl, -⟩ := Prod.mk.inj (Option.some.inj h)
        exact fun i hi => tail i (handleIncoming_mpsc hin i hi)

theorem recvRaw_mpsc {conn conn' : MplexConn Item} {f : Frame}
    (h : conn.recvRaw frameCodec f = some conn') :
    ∀ i ∈ conn'.mpsc, i ∈ conn.mpsc ∨ i.isInternal = false := by
  rw [MplexConn.recvRaw] at h
  split at h
  swap
  · simp at h
  split at h
  · obtain rfl := Option.some.inj h
    exact fun i hi => Or.inl hi
  · rename_i hin
    obtain rfl := Option.some.inj h
    exact handleIncoming_mpsc hin

theorem send_shape {κ φ : Type} {c : Codec κ φ} {conn conn' : MplexConn κ} {i : Item}
    (h : conn.send c i = some conn') : conn' = { conn with mpsc := conn.mpsc ++ [c.make i] } := by
  rw [MplexConn.send] at h
  split at h
  · exact (Option.some.inj h).symm
  · simp at h

/-- What a stream task leaves of its connection. -/
structure SameTable {κ : Type} (conn conn' : MplexConn κ) : Prop where
  streams : conn'.streams = conn.streams
  tasks : conn'.tasks.length = conn.tasks.length
  counter : conn'.streamCounter = conn.streamCounter

/-- A stream task leaves the table and the other tasks. It queues its payloads, and
`CloseStream` when its handler calls `close`. -/
theorem taskStep_shape {κ φ : Type} {c : Codec κ φ} {conn conn' : MplexConn κ} {h : Nat}
    {a : MplexConn.TaskAct} (hs : conn.taskStep c h a = some conn') :
    SameTable conn conn' ∧
      ∃ q : List Item, conn'.mpsc = conn.mpsc ++ q.map c.make ∧
        ∀ i ∈ q, i.isInternal = false ∨ ∃ t, a = .close ∧ conn.tasks[h]? = some t ∧
          t.phase = .handling ∧ i = .closeStream t.streamId := by
  rw [MplexConn.taskStep] at hs
  cases ht : conn.tasks[h]? with
  | none =>
    rw [ht] at hs
    simp at hs
  | some t =>
    rw [ht] at hs
    dsimp only at hs
    have same : ∀ d : MplexConn κ, some d = some conn' → SameTable conn d →
        d.mpsc = conn.mpsc →
        SameTable conn conn' ∧
          ∃ q : List Item, conn'.mpsc = conn.mpsc ++ q.map c.make ∧
            ∀ i ∈ q, i.isInternal = false ∨ ∃ t', a = .close ∧ some t = some t' ∧
              t'.phase = .handling ∧ i = .closeStream t'.streamId := by
      intro d he htable hq
      rw [← Option.some.inj he]
      exact ⟨htable, [], by rw [hq, List.map_nil, List.append_nil], by simp⟩
    have set : ∀ t' : MplexStream, SameTable conn (conn.setTask h t') :=
      fun _ => ⟨rfl, List.length_set, rfl⟩
    have sends : ∀ (i₀ : Item) (d : MplexConn κ) (t' : MplexStream),
        conn.send c i₀ = some d → i₀.isInternal = false → some (d.setTask h t') = some conn' →
        SameTable conn conn' ∧
          ∃ q : List Item, conn'.mpsc = conn.mpsc ++ q.map c.make ∧
            ∀ i ∈ q, i.isInternal = false ∨ ∃ t', a = .close ∧ some t = some t' ∧
              t'.phase = .handling ∧ i = .closeStream t'.streamId := by
      intro i₀ d t' hsend hi₀ he
      obtain rfl := send_shape hsend
      rw [← Option.some.inj he]
      refine ⟨⟨rfl, List.length_set, rfl⟩, [i₀], rfl, fun i hi => Or.inl ?_⟩
      rw [List.mem_singleton.mp hi]
      exact hi₀
    cases a with
    | negotiate =>
      simp only [MplexConn.negotiate] at hs
      split at hs
      · split at hs
        · exact same _ hs (set _) rfl
        · split at hs
          · exact same _ hs (set _) rfl
          · rename_i hsend
            exact sends _ _ _ hsend rfl hs
      · split at hs
        · split at hs
          · simp at hs
          · exact same _ hs (set _) rfl
        · exact same _ hs (set _) rfl
      · split at hs
        · split at hs
          · simp at hs
          · exact same _ hs (set _) rfl
        · split at hs
          · split at hs
            · exact same _ hs (set _) rfl
            · rename_i hsend
              exact sends _ _ _ hsend rfl hs
          · exact same _ hs (set _) rfl
      · simp at hs
    | write msg =>
      dsimp only at hs
      split at hs
      swap
      · simp at hs
      split at hs
      · exact same _ hs ⟨rfl, rfl, rfl⟩ rfl
      · rename_i hsend
        exact sends _ _ _ hsend rfl hs
    | read =>
      dsimp only at hs
      split at hs
      swap
      · simp at hs
      split at hs
      · split at hs
        · simp at hs
        · exact same _ hs ⟨rfl, rfl, rfl⟩ rfl
      · exact same _ hs (set _) rfl
    | close =>
      dsimp only at hs
      split at hs
      swap
      · simp at hs
      rename_i hph
      split at hs
      · exact same _ hs ⟨rfl, rfl, rfl⟩ rfl
      · rename_i hsend
        obtain rfl := send_shape hsend
        rw [← Option.some.inj hs]
        refine ⟨⟨rfl, rfl, rfl⟩, [.closeStream t.streamId], rfl,
          fun i hi => Or.inr ⟨t, rfl, rfl, hph, ?_⟩⟩
        rw [List.mem_singleton.mp hi]
    | finish =>
      dsimp only at hs
      split at hs
      · exact same _ hs (set _) rfl
      · simp at hs

/-- **Every item** of a queue was there before, is a frame of the connection, or was queued by
the step itself. -/
theorem step_queued {s s' : Link Item Frame} {a : LinkAct} (h : s.step frameCodec a = some s')
    (d : End) : ∀ i ∈ (s'.ends d).mpsc, Queued s a d i := by
  have at_ : ∀ (e : End) (conn' : MplexConn Item), s'.ends = Function.update s.ends e conn' →
      (∀ i ∈ conn'.mpsc, Queued s a e i) → ∀ i ∈ (s'.ends d).mpsc, Queued s a d i := by
    intro e conn' he hq
    rw [he]
    by_cases hd : d = e
    · rw [hd, Function.update_self]
      exact hq
    · rw [Function.update_of_ne hd]
      exact fun i hi => .old hi
  have sent : ∀ {e : End} {i₀ : Item} {conn' : MplexConn Item},
      (s.ends e).send frameCodec i₀ = some conn' → Queued s a e i₀ →
      ∀ i ∈ conn'.mpsc, Queued s a e i := by
    intro e i₀ conn' hs hi₀ i hi
    obtain ⟨-, rfl⟩ := send_some hs
    rcases List.mem_append.mp hi with hi | hi
    · exact .old hi
    · rw [List.mem_singleton.mp hi]
      exact hi₀
  have old : ∀ {e : End} {i : Item}, i ∈ (s.ends e).mpsc ∨ i.isInternal = false →
      Queued s a e i := fun hi => hi.elim .old .plain
  cases a with
  | openReq e p =>
    obtain ⟨conn', hs, rfl⟩ := Option.map_eq_some_iff.mp h
    exact at_ e conn' rfl (sent hs (.openReq p rfl rfl))
  | recvQueue e =>
    obtain ⟨⟨conn', w⟩, hs, rfl⟩ := Option.map_eq_some_iff.mp h
    refine at_ e conn' (by rw [Link.transmit_ends]; rfl) fun i hi => old (recvQueue_mpsc hs i hi)
  | recvRaw e =>
    simp only [Link.step] at h
    cases hw : s.wire e with
    | nil =>
      rw [hw] at h
      simp at h
    | cons f rest =>
      rw [hw] at h
      obtain ⟨conn', hs, rfl⟩ := Option.map_eq_some_iff.mp h
      exact at_ e conn' rfl fun i hi => old (recvRaw_mpsc hs i hi)
  | task e j a =>
    obtain ⟨conn', hs, rfl⟩ := Option.map_eq_some_iff.mp h
    refine at_ e conn' rfl fun i hi => ?_
    obtain ⟨-, q, hq, hnew⟩ := taskStep_shape hs
    rw [hq, show q.map frameCodec.make = q from List.map_id q] at hi
    rcases List.mem_append.mp hi with hi | hi
    · exact .old hi
    · rcases hnew i hi with hi | ⟨t, rfl, ht, hph, rfl⟩
      · exact .plain hi
      · exact .close j t rfl ht hph rfl
  | liveliness e =>
    simp only [Link.step] at h
    split at h
    · obtain ⟨conn', hs, rfl⟩ := Option.map_eq_some_iff.mp h
      exact at_ e conn' rfl (sent hs (.plain rfl))
    · simp at h
  | disconnect e p =>
    obtain ⟨conn', hs, rfl⟩ := Option.map_eq_some_iff.mp h
    exact at_ e conn' rfl (sent hs (.disconnect p rfl rfl))
  | pingCheckEnd e =>
    obtain rfl := Option.some.inj h
    exact at_ e _ rfl fun i hi => .old hi
  | rawError e =>
    simp only [Link.step] at h
    split at h
    · obtain rfl := Option.some.inj h
      exact at_ e _ rfl fun i hi => .old hi
    · simp at h

end Rnet.Mplex
