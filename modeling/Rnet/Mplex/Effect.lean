import Rnet.Mplex.Link

/-!
# What one step of the connection can do

Every invariant below is about the stream tables, the counters, the stream tasks
and the frames in flight. `Effect conn conn' inn out` lists the ways one turn can
change them at the end that takes it: `inn` is the frame taken from the wire, if
any, and `out` the frame put behind everything already on its way to the peer.

> `step_effect`: every step is one of these, and moves exactly `inn` and `out`.

The invariants are then proved one constructor at a time and never open
`handle_incoming` or `negotiate` again.
-/

namespace Rnet.Mplex

/-- The part of an end that the invariants speak about. -/
structure Core where
  streams : AList (fun _ : UInt32 => Nat)
  streamCounter : UInt32
  tasks : List MplexStream
  running : Bool

/-- The core of an end. -/
def MplexConn.core {κ : Type} (conn : MplexConn κ) : Core :=
  ⟨conn.streams, conn.streamCounter, conn.tasks, conn.running⟩

/-- The flags whose payload goes into a stream's channel. -/
def MuxedStreamFlag.isData : MuxedStreamFlag → Bool
  | .message | .handshakeReq | .handshakeRes => true
  | _ => false

/-- What one turn does at the end that takes it. -/
inductive Effect (conn conn' : MplexConn Item) : List Frame → List Frame → Prop
  /-- nothing that matters here -/
  | idle (hc : conn'.core = conn.core) : Effect conn conn' [] []
  /-- `conn_handler` ends -/
  | stop (hc : conn'.core = { conn.core with running := false }) : Effect conn conn' [] []
  /-- a liveliness frame is queued -/
  | chatter (f : Frame) (hc : conn'.core = conn.core) (hf : f.flag = .liveliness) :
      Effect conn conn' [] [f]
  /-- a stream task moves on without sending -/
  | task (h : Nat) (t t' : MplexStream) (ht : conn.tasks[h]? = some t)
      (hid : t'.streamId = t.streamId) (hrole : t'.isInitiator = t.isInitiator)
      (hput : t'.put = t.put) (hsent : t'.sent = t.sent)
      (hc : conn'.core = { conn.core with tasks := conn.tasks.set h t' }) :
      Effect conn conn' [] []
  /-- a stream task sends a payload of its stream -/
  | send (h : Nat) (t t' : MplexStream) (f : Frame) (ht : conn.tasks[h]? = some t)
      (hid : t'.streamId = t.streamId) (hrole : t'.isInitiator = t.isInitiator)
      (hput : t'.put = t.put) (hsent : t'.sent = t.sent ++ [f.payload])
      (hf : f.id = t.streamId) (hd : f.flag.isData = true)
      (hc : conn'.core = { conn.core with tasks := conn.tasks.set h t' }) :
      Effect conn conn' [] [f]
  /-- a local open request is handled -/
  | openLocal (p : Payload) (hc : conn'.core = (conn.openLocal frameCodec p).core) :
      Effect conn conn' [] [(Item.announce (conn.streamCounter + 1)).frame]
  /-- a local `CloseStream` is handled -/
  | closeLocal (id : UInt32)
      (hc : conn'.core = { conn.core with streams := conn.streams.erase id }) :
      Effect conn conn' [] []
  /-- a frame from the peer is dropped -/
  | lost (f : Frame) (hc : conn'.core = conn.core) (hn : f.flag ≠ .newStream)
      (hd : f.flag.isData = true → conn.streams.lookup (wireId f.id) = none) :
      Effect conn conn' [f] []
  /-- a frame from the peer makes `conn_handler` panic -/
  | fail (f : Frame) (hc : conn'.core = { conn.core with running := false })
      (hn : f.flag ≠ .newStream) : Effect conn conn' [f] []
  /-- a payload from the peer goes into the channel of its stream -/
  | put (f : Frame) (h : Nat) (t : MplexStream) (hr : conn.running = true)
      (hd : f.flag.isData = true)
      (hl : conn.streams.lookup (wireId f.id) = some h) (ht : conn.tasks[h]? = some t)
      (hc : conn'.core = { conn.core with
        tasks := conn.tasks.set h
          { t with channel := t.channel ++ [f.payload], put := t.put ++ [f.payload] } }) :
      Effect conn conn' [f] []
  /-- a `NewStream` announcement of the peer -/
  | openRemote (f : Frame) (hf : f.flag = .newStream) (h0 : wireId f.id ≠ 0)
      (hc : conn'.core = (conn.openRemote (wireId f.id)).core) : Effect conn conn' [f] []
  /-- a `NewStream` frame of the peer whose id reads as 0: taken for a local open -/
  | openByPeer (f : Frame) (hf : f.flag = .newStream) (h0 : wireId f.id = 0)
      (hc : conn'.core = (conn.openLocal frameCodec f.payload).core) :
      Effect conn conn' [f] [(Item.announce (conn.streamCounter + 1)).frame]
  /-- a `CloseStream` frame of the peer -/
  | closeRemote (f : Frame) (hf : f.flag = .closeStream)
      (hc : conn'.core = { conn.core with streams := conn.streams.erase (wireId f.id) }) :
      Effect conn conn' [f] []

/-! ## The queue, as frames to come -/

/-- The frame an item becomes on the wire. -/
def Item.plainFrame (i : Item) : List Frame := if i.isInternal then [] else [i.frame]

/-- The frames to come, item by item. -/
theorem outgoing_eq (conn : MplexConn Item) :
    conn.outgoing frameCodec = conn.mpsc.flatMap Item.plainFrame := by
  rw [MplexConn.outgoing]
  induction conn.mpsc with
  | nil => rfl
  | cons i l ih =>
    rw [List.filterMap_cons, List.flatMap_cons, ih]
    cases hi : i.isInternal <;> simp [frameCodec, Item.plainFrame, hi]

/-- A queued item adds its frame behind the others. -/
theorem send_some {conn conn' : MplexConn Item} {i : Item}
    (h : conn.send frameCodec i = some conn') :
    conn.running = true ∧ conn' = { conn with mpsc := conn.mpsc ++ [i] } := by
  rw [MplexConn.send] at h
  by_cases hr : conn.running = true
  · rw [if_pos hr] at h
    simp only [Option.some.injEq] at h
    exact ⟨hr, h.symm⟩
  · rw [if_neg hr] at h
    simp at h

theorem outgoing_snoc (conn : MplexConn Item) (i : Item) :
    MplexConn.outgoing frameCodec { conn with mpsc := conn.mpsc ++ [i] }
      = conn.outgoing frameCodec ++ i.plainFrame := by
  rw [outgoing_eq, outgoing_eq, List.flatMap_append, List.flatMap_singleton]

/-! ## The effect of each operation -/

/-- What `handle_incoming` does with a payload. -/
theorem putChannel_cases (conn : MplexConn Item) (id : UInt32) (p : Payload) :
    (conn.streams.lookup id = none ∧ conn.putChannel id p = .ok conn) ∨
    (∃ e, conn.putChannel id p = .error e) ∨
    ∃ h t, conn.streams.lookup id = some h ∧ conn.tasks[h]? = some t ∧
      conn.putChannel id p = .ok { conn with
        tasks := conn.tasks.set h
          { t with channel := t.channel ++ [p], put := t.put ++ [p] } } := by
  rw [MplexConn.putChannel]
  cases hl : conn.streams.lookup id with
  | none => exact Or.inl ⟨rfl, rfl⟩
  | some h =>
    dsimp only
    cases ht : conn.tasks[h]? with
    | none => exact Or.inr (Or.inl ⟨_, rfl⟩)
    | some t =>
      dsimp only
      by_cases he : t.phase = .ended
      · rw [if_pos he]
        exact Or.inr (Or.inl ⟨_, rfl⟩)
      · rw [if_neg he]
        exact Or.inr (Or.inr ⟨h, t, rfl, ht, rfl⟩)

/-- A frame of the peer: one of the effects that take it, and nothing else queued
but an announcement. -/
theorem recvRaw_effect {conn conn' : MplexConn Item} {f : Frame}
    (h : conn.recvRaw frameCodec f = some conn') :
    ∃ out, Effect conn conn' [f] out ∧
      conn'.outgoing frameCodec = conn.outgoing frameCodec ++ out := by
  rw [MplexConn.recvRaw] at h
  by_cases hr : conn.running = true
  swap
  · rw [if_neg hr] at h
    simp at h
  rw [if_pos hr] at h
  simp only [MplexConn.handleIncoming, frameCodec] at h
  cases hf : f.flag with
  | newStream =>
    rw [hf] at h
    simp only [MplexConn.handleFlag] at h
    by_cases h0 : wireId f.id = 0
    · rw [if_pos h0] at h
      simp only [Option.some.injEq] at h
      subst h
      exact ⟨_, .openByPeer f hf h0 rfl, outgoing_snoc conn _⟩
    · rw [if_neg h0] at h
      simp only [Option.some.injEq] at h
      subst h
      exact ⟨[], .openRemote f hf h0 rfl, (List.append_nil _).symm⟩
  | closeStream =>
    rw [hf] at h
    simp only [MplexConn.handleFlag, Option.some.injEq] at h
    subst h
    exact ⟨[], .closeRemote f hf rfl, (List.append_nil _).symm⟩
  | disconnected =>
    rw [hf] at h
    simp only [MplexConn.handleFlag, Option.some.injEq] at h
    subst h
    exact ⟨[], .lost f rfl (by simp [hf]) (by simp [hf, MuxedStreamFlag.isData]),
      (List.append_nil _).symm⟩
  | liveliness =>
    rw [hf] at h
    simp only [MplexConn.handleFlag] at h
    cases hp : conn.pingCheck with
    | none =>
      rw [hp] at h
      simp only [Option.some.injEq] at h
      subst h
      exact ⟨[], .fail f rfl (by simp [hf]), (List.append_nil _).symm⟩
    | some q =>
      rw [hp] at h
      simp only [Option.some.injEq] at h
      subst h
      exact ⟨[], .lost f rfl (by simp [hf]) (by simp [hf, MuxedStreamFlag.isData]),
        (List.append_nil _).symm⟩
  | message | handshakeReq | handshakeRes =>
    rw [hf] at h
    simp only [MplexConn.handleFlag] at h
    rcases putChannel_cases conn (wireId f.id) f.payload with
      ⟨hl, hp⟩ | ⟨e, hp⟩ | ⟨i, t, hl, ht, hp⟩
    all_goals
      rw [hp] at h
      simp only [Option.some.injEq] at h
      subst h
    · exact ⟨[], .lost f rfl (by simp [hf]) (fun _ => hl), (List.append_nil _).symm⟩
    · exact ⟨[], .fail f rfl (by simp [hf]), (List.append_nil _).symm⟩
    · exact ⟨[], .put f i t hr (by simp [hf, MuxedStreamFlag.isData]) hl ht rfl,
        (List.append_nil _).symm⟩

/-- An item of the queue: written to the wire, or handled locally. A local open is
exactly the case that `opensNext` announces. -/
theorem recvQueue_effect {conn conn' : MplexConn Item} {w : Option Frame}
    (h : conn.recvQueue frameCodec = some (conn', w)) :
    ∃ out, Effect conn conn' [] out ∧
      w.toList ++ conn'.outgoing frameCodec = conn.outgoing frameCodec ++ out ∧
      (out ≠ [] → conn.opensNext frameCodec = true) := by
  rw [MplexConn.recvQueue] at h
  by_cases hr : conn.running = true
  swap
  · rw [if_neg hr] at h
    simp at h
  rw [if_pos hr] at h
  have hout := outgoing_eq conn
  cases hq : conn.mpsc with
  | nil => rw [hq] at h; simp at h
  | cons i rest =>
    rw [hq] at h
    rw [hq, List.flatMap_cons] at hout
    dsimp only at h
    cases hi : i.isInternal with
    | false =>
      simp only [frameCodec, hi, Bool.false_eq_true, if_false, Option.some.injEq,
        Prod.mk.injEq] at h
      obtain ⟨rfl, rfl⟩ := h
      refine ⟨[], .idle rfl, ?_, fun hne => absurd rfl hne⟩
      rw [hout, outgoing_eq]
      simp [Item.plainFrame, hi]
    | true =>
      have hout' : conn.outgoing frameCodec = rest.flatMap Item.plainFrame := by
        rw [hout]
        simp [Item.plainFrame, hi]
      cases i with
      | announce _ | handshakeReq _ _ | handshakeRes _ _ | message _ _ | liveliness =>
        simp [Item.isInternal] at hi
      | openStream p =>
        simp only [frameCodec, hi, if_true, MplexConn.handleIncoming, Item.frame,
          MplexConn.handleFlag, show wireId 0 = 0 from rfl, Option.some.injEq,
          Prod.mk.injEq] at h
        obtain ⟨rfl, rfl⟩ := h
        refine ⟨_, .openLocal p rfl, ?_, fun _ => ?_⟩
        · rw [hout', outgoing_eq]
          simp only [MplexConn.openLocal, List.flatMap_append, List.flatMap_singleton]
          rfl
        · rw [MplexConn.opensNext, hq]
          show (some (wireId 0) == some (0 : UInt32)) = true
          decide
      | closeStream id =>
        simp only [frameCodec, hi, if_true, MplexConn.handleIncoming, Item.frame,
          MplexConn.handleFlag, Option.some.injEq, Prod.mk.injEq] at h
        obtain ⟨rfl, rfl⟩ := h
        refine ⟨[], .closeLocal (wireId id) rfl, ?_, fun hne => absurd rfl hne⟩
        rw [hout', outgoing_eq]
        simp
      | disconnect p =>
        simp only [frameCodec, hi, if_true, MplexConn.handleIncoming, Item.frame,
          MplexConn.handleFlag, Option.some.injEq, Prod.mk.injEq] at h
        obtain ⟨rfl, rfl⟩ := h
        refine ⟨[], .stop rfl, ?_, fun hne => absurd rfl hne⟩
        rw [hout', outgoing_eq]
        simp

/-- A stream task changes its own state, or sends one payload of its stream, or
queues an internal `CloseStream`. -/
theorem taskStep_effect {conn conn' : MplexConn Item} {h : Nat} {a : MplexConn.TaskAct}
    (hs : conn.taskStep frameCodec h a = some conn') :
    ∃ out, Effect conn conn' [] out ∧
      conn'.outgoing frameCodec = conn.outgoing frameCodec ++ out ∧
      ∀ f ∈ out, f.flag ≠ .newStream := by
  rw [MplexConn.taskStep] at hs
  cases ht : conn.tasks[h]? with
  | none => rw [ht] at hs; simp at hs
  | some t =>
    rw [ht] at hs
    dsimp only at hs
    -- a change of the task's own phase or channel
    have own : ∀ t' : MplexStream, some (conn.setTask h t') = some conn' →
        t'.streamId = t.streamId → t'.isInitiator = t.isInitiator →
        t'.put = t.put → t'.sent = t.sent →
        ∃ out, Effect conn conn' [] out ∧
          conn'.outgoing frameCodec = conn.outgoing frameCodec ++ out ∧
          ∀ f ∈ out, f.flag ≠ .newStream := by
      intro t' he hid hrole hput hsent
      rw [← Option.some.inj he]
      exact ⟨[], .task h t t' ht hid hrole hput hsent rfl, (List.append_nil _).symm, by simp⟩
    -- a payload of the stream is queued
    have sends : ∀ (t' : MplexStream) (i : Item) (conn₁ : MplexConn Item),
        some (conn₁.setTask h t') = some conn' → conn.send frameCodec i = some conn₁ →
        i.isInternal = false → i.frame.id = t.streamId → i.frame.flag.isData = true →
        t'.streamId = t.streamId → t'.isInitiator = t.isInitiator → t'.put = t.put →
        t'.sent = t.sent ++ [i.frame.payload] →
        ∃ out, Effect conn conn' [] out ∧
          conn'.outgoing frameCodec = conn.outgoing frameCodec ++ out ∧
          ∀ f ∈ out, f.flag ≠ .newStream := by
      intro t' i conn₁ he hsend hi hf hd hid hrole hput hsent
      obtain ⟨-, rfl⟩ := send_some hsend
      rw [← Option.some.inj he]
      refine ⟨[i.frame], .send h t t' i.frame ht hid hrole hput hsent hf hd rfl, ?_, ?_⟩
      · have := outgoing_snoc conn i
        rw [Item.plainFrame, hi] at this
        exact this
      · intro f hfm hn
        rw [List.mem_singleton] at hfm
        rw [hfm] at hn
        rw [hn] at hd
        simp [MuxedStreamFlag.isData] at hd
    -- nothing changes
    have idle : some conn = some conn' → ∃ out, Effect conn conn' [] out ∧
        conn'.outgoing frameCodec = conn.outgoing frameCodec ++ out ∧
        ∀ f ∈ out, f.flag ≠ .newStream := by
      intro he
      rw [← Option.some.inj he]
      exact ⟨[], .idle rfl, (List.append_nil _).symm, by simp⟩
    cases a with
    | negotiate =>
      simp only [MplexConn.negotiate] at hs
      cases hrole : t.isInitiator <;> cases hph : t.phase <;> rw [hrole, hph] at hs <;>
        try simp only [reduceCtorEq] at hs
      · -- responder, reading the request
        cases hch : t.channel with
        | nil =>
          rw [hch] at hs
          dsimp only at hs
          by_cases hal : conn.senderAlive h = true
          · rw [if_pos hal] at hs; simp at hs
          · rw [if_neg hal] at hs
            exact own _ hs rfl hrole.symm rfl rfl
        | cons p rest =>
          rw [hch] at hs
          dsimp only at hs
          by_cases hhas : conn.hasHandler p = true
          · rw [if_pos hhas] at hs
            cases hsend : conn.send frameCodec (.handshakeRes t.streamId p) with
            | none =>
              rw [hsend] at hs
              exact own _ hs rfl hrole.symm rfl rfl
            | some conn₁ =>
              rw [hsend] at hs
              exact sends _ _ conn₁ hs hsend rfl rfl rfl rfl hrole.symm rfl rfl
          · rw [if_neg hhas] at hs
            exact own _ hs rfl hrole.symm rfl rfl
      · -- initiator, sending the request
        cases hpr : t.proto with
        | none =>
          rw [hpr] at hs
          exact own _ hs rfl hrole.symm rfl rfl
        | some p =>
          rw [hpr] at hs
          dsimp only at hs
          cases hsend : conn.send frameCodec (.handshakeReq t.streamId p) with
          | none =>
            rw [hsend] at hs
            exact own _ hs rfl hrole.symm rfl rfl
          | some conn₁ =>
            rw [hsend] at hs
            exact sends _ _ conn₁ hs hsend rfl rfl rfl rfl hrole.symm rfl rfl
      · -- initiator, reading the response
        cases hch : t.channel with
        | nil =>
          rw [hch] at hs
          dsimp only at hs
          by_cases hal : conn.senderAlive h = true
          · rw [if_pos hal] at hs; simp at hs
          · rw [if_neg hal] at hs
            exact own _ hs rfl hrole.symm rfl rfl
        | cons p rest =>
          rw [hch] at hs
          exact own _ hs rfl hrole.symm rfl rfl
    | write msg =>
      dsimp only at hs
      by_cases hph : t.phase = .handling
      swap
      · rw [if_neg hph] at hs; simp at hs
      rw [if_pos hph] at hs
      cases hsend : conn.send frameCodec (.message t.streamId msg) with
      | none =>
        rw [hsend] at hs
        exact idle hs
      | some conn₁ =>
        rw [hsend] at hs
        exact sends _ _ conn₁ hs hsend rfl rfl rfl rfl rfl rfl rfl
    | read =>
      dsimp only at hs
      by_cases hph : t.phase = .handling
      swap
      · rw [if_neg hph] at hs; simp at hs
      rw [if_pos hph] at hs
      cases hch : t.channel with
      | nil =>
        rw [hch] at hs
        dsimp only at hs
        by_cases hal : conn.senderAlive h = true
        · rw [if_pos hal] at hs; simp at hs
        · rw [if_neg hal] at hs
          exact idle hs
      | cons p rest =>
        rw [hch] at hs
        exact own _ hs rfl rfl rfl rfl
    | close =>
      dsimp only at hs
      by_cases hph : t.phase = .handling
      swap
      · rw [if_neg hph] at hs; simp at hs
      rw [if_pos hph] at hs
      cases hsend : conn.send frameCodec (.closeStream t.streamId) with
      | none =>
        rw [hsend] at hs
        exact idle hs
      | some conn₁ =>
        rw [hsend] at hs
        obtain ⟨-, rfl⟩ := send_some hsend
        rw [← Option.some.inj hs]
        exact ⟨[], .idle rfl, outgoing_snoc conn _, by simp⟩
    | finish =>
      dsimp only at hs
      by_cases hph : t.phase = .handling
      swap
      · rw [if_neg hph] at hs; simp at hs
      rw [if_pos hph] at hs
      exact own _ hs rfl rfl rfl rfl

/-! ## The effect of a step -/

/-- The end whose task takes the turn. -/
def LinkAct.actor : LinkAct → End
  | .openReq e _ | .recvQueue e | .recvRaw e | .task e _ _ | .liveliness e
  | .disconnect e _ | .pingCheckEnd e | .rawError e => e

/-- The step handles a local open. -/
def LinkAct.opensAt {κ φ : Type} (c : Codec κ φ) (s : Link κ φ) : LinkAct → Bool
  | .recvQueue e => (s.ends e).opensNext c
  | _ => false

theorem Codec.Hom.opensAt_map {κ φ κ' φ' : Type} {c : Codec κ φ} {c' : Codec κ' φ'}
    (F : c.Hom c') (s : Link κ φ) (a : LinkAct) : a.opensAt c' (s.map F) = a.opensAt c s := by
  cases a with
  | recvQueue e => exact F.opensNext_map (s.ends e)
  | _ => rfl

/-- A step at end `e`: only `e` changes, `inn` leaves the frames on their way to it
at the front, `out` joins those on their way to the other end at the back. -/
structure StepAt (s s' : Link Item Frame) (e : End) (inn out : List Frame) : Prop where
  effect : Effect (s.ends e) (s'.ends e) inn out
  other : s'.ends e.other = s.ends e.other
  taken : s.inFlight frameCodec e = inn ++ s'.inFlight frameCodec e
  sent : s'.inFlight frameCodec e.other = s.inFlight frameCodec e.other ++ out

/-- A turn that leaves the wires alone. -/
theorem stepAt_setEnd {s : Link Item Frame} {e : End} {conn' : MplexConn Item}
    {out : List Frame} (heff : Effect (s.ends e) conn' [] out)
    (hout : conn'.outgoing frameCodec = (s.ends e).outgoing frameCodec ++ out) :
    StepAt s (s.setEnd e conn') e [] out where
  effect := by rw [Link.setEnd_ends_self]; exact heff
  other := Link.setEnd_ends_other ..
  taken := by rw [Link.inFlight, Link.inFlight, Link.setEnd_ends_other]; rfl
  sent := by
    rw [Link.inFlight, Link.inFlight, End.other_other, Link.setEnd_ends_self, hout,
      List.append_assoc]
    rfl

/-- **Every step** is an effect at its actor. -/
theorem step_effect {s s' : Link Item Frame} {a : LinkAct}
    (h : s.step frameCodec a = some s') : ∃ inn out, StepAt s s' a.actor inn out ∧
      (inn = [] → (∃ f ∈ out, f.flag = .newStream) → a.opensAt frameCodec s = true) := by
  cases a with
  | openReq e p =>
    obtain ⟨conn', hs, rfl⟩ := Option.map_eq_some_iff.mp h
    obtain ⟨-, rfl⟩ := send_some hs
    exact ⟨[], [], stepAt_setEnd (.idle rfl) (outgoing_snoc _ _), by simp⟩
  | recvQueue e =>
    obtain ⟨⟨conn', w⟩, hs, rfl⟩ := Option.map_eq_some_iff.mp h
    obtain ⟨out, heff, hout, hopen⟩ := recvQueue_effect hs
    refine ⟨[], out, ⟨?_, ?_, ?_, ?_⟩, fun _ hf => hopen ?_⟩
    · simp only [LinkAct.actor, Link.transmit_ends, Link.setEnd_ends_self]
      exact heff
    · simp only [LinkAct.actor, Link.transmit_ends, Link.setEnd_ends_other]
    · simp only [LinkAct.actor, Link.inFlight, Link.transmit_ends, Link.setEnd_ends_other,
        Link.transmit_wire_self, Link.setEnd_wire, List.nil_append]
    · simp only [LinkAct.actor, Link.inFlight, Link.transmit_ends, End.other_other,
        Link.setEnd_ends_self, Link.transmit_wire_other, Link.setEnd_wire, List.append_assoc]
      rw [hout]
    · obtain ⟨f, hf, -⟩ := hf
      exact List.ne_nil_of_mem hf
  | recvRaw e =>
    simp only [Link.step] at h
    cases hw : s.wire e with
    | nil => rw [hw] at h; simp at h
    | cons f rest =>
      rw [hw] at h
      obtain ⟨conn', hs, rfl⟩ := Option.map_eq_some_iff.mp h
      obtain ⟨out, heff, hout⟩ := recvRaw_effect hs
      refine ⟨[f], out, ⟨?_, ?_, ?_, ?_⟩, by simp⟩
      · simp only [LinkAct.actor, Link.setEnd_ends_self]
        exact heff
      · simp only [LinkAct.actor, Link.setEnd_ends_other]
      · simp only [LinkAct.actor, Link.inFlight, Link.setEnd_ends_other, hw,
          Function.update_self]
        rfl
      · simp only [LinkAct.actor, Link.inFlight, End.other_other, Link.setEnd_ends_self,
          Function.update_of_ne (End.other_ne e), hout, List.append_assoc]
  | task e i a =>
    obtain ⟨conn', hs, rfl⟩ := Option.map_eq_some_iff.mp h
    obtain ⟨out, heff, hout, hflag⟩ := taskStep_effect hs
    refine ⟨[], out, stepAt_setEnd heff hout, ?_⟩
    intro _ h
    obtain ⟨f, hf, hn⟩ := h
    exact absurd hn (hflag f hf)
  | liveliness e =>
    simp only [Link.step] at h
    by_cases hp : (s.ends e).pingCheck.isSome = true
    · rw [if_pos hp] at h
      obtain ⟨conn', hs, rfl⟩ := Option.map_eq_some_iff.mp h
      obtain ⟨-, rfl⟩ := send_some hs
      refine ⟨[], _, stepAt_setEnd (.chatter Item.liveliness.frame rfl rfl) (outgoing_snoc _ _), ?_⟩
      intro _ h
      obtain ⟨f, hf, hn⟩ := h
      rw [List.mem_singleton.mp hf] at hn
      simp [Item.frame] at hn
    · rw [if_neg hp] at h; simp at h
  | disconnect e p =>
    obtain ⟨conn', hs, rfl⟩ := Option.map_eq_some_iff.mp h
    obtain ⟨-, rfl⟩ := send_some hs
    exact ⟨[], [], stepAt_setEnd (.idle rfl) (outgoing_snoc _ _), by simp⟩
  | pingCheckEnd e =>
    rw [← Option.some.inj h]
    exact ⟨[], [], stepAt_setEnd (.idle rfl) (List.append_nil _).symm, by simp⟩
  | rawError e =>
    simp only [Link.step] at h
    by_cases hr : (s.ends e).running = true
    · rw [if_pos hr] at h
      rw [← Option.some.inj h]
      exact ⟨[], [], stepAt_setEnd (.stop rfl) (List.append_nil _).symm, by simp⟩
    · rw [if_neg hr] at h; simp at h

end Rnet.Mplex
