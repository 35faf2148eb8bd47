import Rnet.Mplex.Negotiation

/-!
# A connection that nothing disturbs

Nothing fails and nothing is closed, streams are asked for with protocols that both ends know, and
opens do not overlap. `Turn` lists what a turn of an end can be then, `step_turn` says that every
step is one, and `Steady.turn` what it keeps.

> `awaited_request`, `awaited_response`: what a task reads first is the protocol that its stream
> was requested for.

So no handshake fails and no task ends.
-/

namespace Rnet.Mplex

open Rnet.Lib

section Property

variable {κ φ : Type} (c : Codec κ φ)

/-- A turn that the connection makes of itself. -/
def LinkAct.internal : LinkAct → Bool
  | .recvQueue _ | .recvRaw _ | .task _ _ .negotiate => true
  | _ => false

/-- Both ends have a handler for the protocol. -/
def Known (s : Link κ φ) (p : Payload) : Prop := ∀ d, (s.ends d).hasHandler p = true

/-- Nothing fails and nothing is closed, only known protocols are asked for, and a liveliness frame
goes to an end that waits for it. -/
def Undisturbed (s : Link κ φ) : LinkAct → Prop
  | .openReq _ p => Known s p
  | .liveliness e => (s.ends e.other).pingCheck.isSome = true
  | .task _ _ .close | .task _ _ .finish => False
  | .disconnect _ _ | .pingCheckEnd _ | .rawError _ => False
  | _ => True

instance (s : Link κ φ) (p : Payload) : Decidable (Known s p) :=
  decidable_of_iff
    ((s.ends .dialer).hasHandler p = true ∧ (s.ends .listener).hasHandler p = true)
    ⟨fun h d => by cases d <;> simp only [h.1, h.2], fun h => ⟨h .dialer, h .listener⟩⟩

instance (s : Link κ φ) (a : LinkAct) : Decidable (Undisturbed s a) :=
  match a with
  | .openReq _ p => inferInstanceAs (Decidable (Known s p))
  | .liveliness e => inferInstanceAs (Decidable ((s.ends e.other).pingCheck.isSome = true))
  | .task _ _ .close | .task _ _ .finish => .isFalse id
  | .disconnect _ _ | .pingCheckEnd _ | .rawError _ => .isFalse id
  | .task _ _ .negotiate | .task _ _ (.write _) | .task _ _ .read => .isTrue trivial
  | .recvQueue _ | .recvRaw _ => .isTrue trivial

/-- Undisturbed, and no two opens overlap. -/
def Steadily (s : Link κ φ) (a : LinkAct) : Prop := OpensAlone c s a ∧ Undisturbed s a

instance (s : Link κ φ) (a : LinkAct) : Decidable (Steadily c s a) :=
  inferInstanceAs (Decidable (_ ∧ _))

end Property

/-! ## What a turn can be -/

/-- A turn of a stream task, with what it puts on the queue. -/
inductive TaskTurn (t : MplexStream) : MplexStream → Bool → List Item → Prop
  | request (p : Payload) (hrole : t.isInitiator = true) (hph : t.phase = .negotiating)
      (hp : t.proto = some p) :
      TaskTurn t { t with phase := .awaitingRes, sent := t.sent ++ [p] } true
        [.handshakeReq t.streamId p]
  | start (p : Payload) (rest : List Payload) (hrole : t.isInitiator = true)
      (hph : t.phase = .awaitingRes) (hc : t.channel = p :: rest) :
      TaskTurn t { t with channel := rest, phase := .handling } true []
  | accept (p : Payload) (rest : List Payload) (hrole : t.isInitiator = false)
      (hph : t.phase = .negotiating) (hc : t.channel = p :: rest) :
      TaskTurn t { t with channel := rest, phase := .handling, sent := t.sent ++ [p] } true
        [.handshakeRes t.streamId p]
  | write (msg : Payload) (hph : t.phase = .handling) :
      TaskTurn t { t with sent := t.sent ++ [msg] } false [.message t.streamId msg]
  | read (p : Payload) (rest : List Payload) (hph : t.phase = .handling)
      (hc : t.channel = p :: rest) : TaskTurn t { t with channel := rest } false []

/-- A turn at an end of a connection that nothing disturbs: whether the connection makes it of
itself, the frame it takes off the wire and the one it writes. -/
inductive Turn (conn : MplexConn Item) (expects : Item → Prop) :
    MplexConn Item → Bool → List Frame → List Frame → Prop
  /-- a request for a stream, or a liveliness frame -/
  | queue (i : Item) (hi : expects i) :
      Turn conn expects { conn with mpsc := conn.mpsc ++ [i] } false [] []
  | flush (i : Item) (rest : List Item) (hq : conn.mpsc = i :: rest) (hi : i.isInternal = false) :
      Turn conn expects { conn with mpsc := rest } true [] [i.frame]
  | openLocal (p : Payload) (rest : List Item) (hq : conn.mpsc = .openStream p :: rest) :
      Turn conn expects (MplexConn.openLocal frameCodec { conn with mpsc := rest } p) true [] []
  | openRemote (f : Frame) (hf : f.flag = .newStream) :
      Turn conn expects (conn.openRemote (wireId f.id)) true [f] []
  | checked (f : Frame) (q : List Payload) (hf : f.flag = .liveliness)
      (hp : conn.pingCheck = some q) :
      Turn conn expects { conn with pingCheck := some (q ++ [f.payload]) } true [f] []
  | put (f : Frame) (i : Nat) (t : MplexStream) (hf : f.flag.isData = true)
      (ht : conn.tasks[i]? = some t) :
      Turn conn expects { conn with
        tasks := conn.tasks.set i
          { t with channel := t.channel ++ [f.payload], put := t.put ++ [f.payload] } } true [f] []
  | ignored (f : Frame) (hf : f.flag.isData = true) : Turn conn expects conn true [f] []
  | task (i : Nat) (t t' : MplexStream) (b : Bool) (out : List Item)
      (ht : conn.tasks[i]? = some t) (hturn : TaskTurn t t' b out) :
      Turn conn expects { conn with tasks := conn.tasks.set i t', mpsc := conn.mpsc ++ out } b [] []

/-- What may stand on the queue of end `e`. -/
def Expects (s : Link Item Frame) (e : End) : Item → Prop
  | .openStream p => Known s p
  | .liveliness => (s.ends e.other).pingCheck.isSome = true
  | .closeStream _ | .disconnect _ => False
  | _ => True

/-- What holds while nothing disturbs the connection. -/
structure Steady (s : Link Item Frame) : Prop where
  running : ∀ e, (s.ends e).running = true
  live : ∀ e, ∀ t ∈ (s.ends e).tasks, t.phase ≠ .ended
  sender : ∀ e (i : Nat) (t : MplexStream), (s.ends e).tasks[i]? = some t →
    (s.ends e).streams.lookup t.streamId = some i
  queued : ∀ e, ∀ i ∈ (s.ends e).mpsc, Expects s e i
  flying : ∀ e, ∀ f ∈ s.wire e, f.flag ≠ .closeStream ∧ f.flag ≠ .disconnected ∧
    (f.flag = .liveliness → (s.ends e).pingCheck.isSome = true)
  proto : ∀ e, ∀ t ∈ (s.ends e).tasks, t.isInitiator = true → ∃ p, t.proto = some p ∧ Known s p

/-- What the order of the payloads says about a stream. -/
structure Ordered (s : Link Item Frame) : Prop where
  ids : IdInv s
  data : DataInv s
  tasks : TasksInv s

section Handshakes

variable {s : Link Item Frame} {e : End} {t : MplexStream} {p : Payload} {rest : List Payload}

/-- The first payload of a stream was sent first by the stream of the other end. -/
theorem Ordered.first_sent (h : Ordered s) (ht : t ∈ (s.ends e).tasks)
    (hp : t.put.head? = some p) :
    ∃ u ∈ (s.ends e.other).tasks, u.streamId = t.streamId ∧ u.isInitiator ≠ t.isInitiator ∧
      u.sent.head? = some p := by
  have hne : t.put ≠ [] := by
    intro h0
    simp [h0] at hp
  obtain ⟨u, hu, hid, hrole, hpre⟩ := exists_sender h.ids h.data.ordered ht hne
  exact ⟨u, hu, hid, hrole, head?_of_isPrefix hpre hp⟩

/-- **What a responder reads first** is a protocol that both ends know. -/
theorem awaited_request (h : Ordered s) (hs : Steady s) (ht : t ∈ (s.ends e).tasks)
    (hrole : t.isInitiator = false) (hph : t.phase = .negotiating) (hc : t.channel = p :: rest) :
    Known s p := by
  obtain ⟨-, hput⟩ := (h.tasks e t ht).negotiating hph
  obtain ⟨u, hu, -, hrole', hsent⟩ := h.first_sent ht (p := p) (by rw [← hput, hc]; rfl)
  have hinit : u.isInitiator = true := by
    rw [hrole] at hrole'
    simpa using hrole'
  obtain ⟨q, hq, hknown⟩ := hs.proto _ u hu hinit
  rw [(h.tasks _ u hu).requested hinit p hsent] at hq
  rw [Option.some.inj hq]
  exact hknown

/-- **What an initiator reads first** is the protocol that it has asked for. -/
theorem awaited_response (h : Ordered s) (ht : t ∈ (s.ends e).tasks)
    (hrole : t.isInitiator = true) (hph : t.phase = .awaitingRes) (hc : t.channel = p :: rest) :
    t.proto = some p := by
  obtain ⟨-, -, hput⟩ := (h.tasks e t ht).awaitingRes hph
  obtain ⟨u, hu, hid, hrole', hsent⟩ := h.first_sent ht (p := p) (by rw [← hput, hc]; rfl)
  have hresp : u.isInitiator = false := by
    rw [hrole] at hrole'
    simpa using hrole'
  -- the responder has answered what it got, and that is what this task sent
  obtain ⟨hgot, -⟩ := (h.tasks _ u hu).answered hresp p hsent
  obtain ⟨v, hv, hvid, -, hvsent⟩ := h.first_sent hu hgot
  rw [End.other_other] at hv
  have hvt : v = t :=
    List.inj_on_of_nodup_map (h.ids.ends e).nodup hv ht (hvid.trans hid)
  rw [hvt] at hvsent
  exact (h.tasks e t ht).requested hrole p hvsent

end Handshakes

/-! ## The turns of a connection that nothing disturbs -/

section Turns

variable {s s' : Link Item Frame} {a : LinkAct}

theorem send_of_running {conn : MplexConn Item} {i : Item} (hr : conn.running = true) :
    conn.send frameCodec i = some { conn with mpsc := conn.mpsc ++ [i] } := by
  unfold MplexConn.send
  rw [if_pos hr]
  rfl

/-- **A stream task** that is not disturbed. -/
theorem taskStep_turn {conn conn' : MplexConn Item} {expects : Item → Prop} {i : Nat}
    {act : MplexConn.TaskAct}
    (h : conn.taskStep frameCodec i act = some conn') (hr : conn.running = true)
    (hsender : ∀ (k : Nat) (t : MplexStream), conn.tasks[k]? = some t →
      conn.streams.lookup t.streamId = some k)
    (hproto : ∀ t ∈ conn.tasks, t.isInitiator = true → ∃ p, t.proto = some p)
    (hreq : ∀ t ∈ conn.tasks, t.isInitiator = false → t.phase = .negotiating →
      ∀ p rest, t.channel = p :: rest → conn.hasHandler p = true)
    (hres : ∀ t ∈ conn.tasks, t.isInitiator = true → t.phase = .awaitingRes →
      ∀ p rest, t.channel = p :: rest → t.proto = some p ∧ conn.hasHandler p = true)
    (hact : act ≠ .close ∧ act ≠ .finish) :
    Turn conn expects conn' (act == .negotiate) [] [] := by
  -- a stream's sender lives as long as its entry
  have halive : ∀ t, conn.tasks[i]? = some t → conn.senderAlive i = true := by
    intro t ht
    unfold MplexConn.senderAlive
    rw [hr, Bool.true_and, List.any_eq_true]
    exact ⟨⟨t.streamId, i⟩, AList.mem_lookup_iff.mp (hsender i t ht), by simp⟩
  have hsend := fun x => send_of_running (i := x) hr
  simp only [MplexConn.taskStep] at h
  cases ht : conn.tasks[i]? with
  | none =>
    rw [ht] at h
    simp at h
  | some t =>
    have hmem := List.mem_of_getElem? ht
    rw [ht] at h
    -- a turn that puts nothing on the queue
    have silent : ∀ {t' : MplexStream} {b : Bool}, TaskTurn t t' b [] →
        some (conn.setTask i t') = some conn' → Turn conn expects conn' b [] [] := by
      intro t' b hturn hs
      obtain rfl := Option.some.inj hs
      have hput : Turn conn expects { conn with
          tasks := conn.tasks.set i t', mpsc := conn.mpsc ++ [] } b [] [] :=
        .task i t t' b [] ht hturn
      rwa [List.append_nil] at hput
    cases act with
    | negotiate =>
      obtain ⟨id, role, proto, phase, channel, put, sent⟩ := t
      dsimp only at h
      simp only [MplexConn.negotiate, hsend] at h
      cases role <;> cases phase <;> simp only [reduceCtorEq] at h
      · cases channel with
        | nil => simp [halive _ ht] at h
        | cons p rest =>
          dsimp only at h
          rw [if_pos (hreq _ hmem rfl rfl p rest rfl)] at h
          obtain rfl := Option.some.inj h
          exact .task i _ _ true _ ht (.accept p rest rfl rfl rfl)
      · obtain ⟨p, hp⟩ := hproto _ hmem rfl
        obtain rfl : proto = some p := hp
        obtain rfl := Option.some.inj h
        exact .task i _ _ true _ ht (.request p rfl rfl rfl)
      · cases channel with
        | nil => simp [halive _ ht] at h
        | cons p rest =>
          dsimp only at h
          rw [if_pos (hres _ hmem rfl rfl p rest rfl)] at h
          exact silent (.start p rest rfl rfl rfl) h
    | write msg =>
      simp only [hsend, Option.ite_none_right_eq_some] at h
      obtain ⟨hph, h⟩ := h
      obtain rfl := Option.some.inj h
      exact .task i t _ false _ ht (.write msg hph)
    | read =>
      simp only [Option.ite_none_right_eq_some] at h
      obtain ⟨hph, h⟩ := h
      cases hc : t.channel with
      | nil =>
        rw [hc] at h
        simp [halive t ht] at h
      | cons p rest =>
        rw [hc] at h
        exact silent (.read p rest hph hc) h
    | close => exact absurd rfl hact.1
    | finish => exact absurd rfl hact.2

/-- **The queue branch**, with a frame or a request at the head of the queue. -/
theorem recvQueue_turn {conn : MplexConn Item} {expects : Item → Prop}
    {r : MplexConn Item × Option Frame}
    (h : conn.recvQueue frameCodec = some r) (hr : conn.running = true)
    (hq : ∀ i ∈ conn.mpsc, i.isInternal = true → ∃ p, i = .openStream p) :
    Turn conn expects r.1 true [] r.2.toList := by
  simp only [MplexConn.recvQueue] at h
  rw [if_pos hr] at h
  cases hm : conn.mpsc with
  | nil =>
    rw [hm] at h
    simp at h
  | cons i rest =>
    rw [hm] at h
    dsimp only at h
    cases hi : i.isInternal with
    | false =>
      have hroute : frameCodec.route i = .inr i.frame := by simp [frameCodec, hi]
      rw [hroute] at h
      obtain rfl := Option.some.inj h
      exact .flush i rest hm hi
    | true =>
      obtain ⟨p, rfl⟩ := hq i (by rw [hm]; exact List.mem_cons_self ..) hi
      simp only [frameCodec, Item.isInternal, if_true, MplexConn.handleIncoming, Item.frame,
        MplexConn.handleFlag, show wireId 0 = 0 by decide] at h
      obtain rfl := Option.some.inj h
      exact .openLocal p rest hm

/-- A payload goes into the channel of its stream, if there is one. -/
theorem putChannel_turn {conn : MplexConn Item} {expects : Item → Prop} {f : Frame}
    (hd : f.flag.isData = true)
    (hI : EndInv conn) (hlive : ∀ t ∈ conn.tasks, t.phase ≠ .ended) :
    ∃ conn', conn.putChannel (wireId f.id) f.payload = .ok conn' ∧
      Turn conn expects conn' true [f] [] := by
  unfold MplexConn.putChannel
  cases hl : conn.streams.lookup (wireId f.id) with
  | none => exact ⟨conn, rfl, .ignored f hd⟩
  | some i =>
    obtain ⟨t, ht, -⟩ := hI.handle _ i hl
    dsimp only
    rw [ht]
    dsimp only
    rw [if_neg (hlive t (List.mem_of_getElem? ht))]
    exact ⟨_, rfl, .put f i t hd ht⟩

/-- **The branch that reads the wire.** -/
theorem recvRaw_turn {conn conn' : MplexConn Item} {expects : Item → Prop} {f : Frame}
    (h : conn.recvRaw frameCodec f = some conn') (hI : EndInv conn)
    (hlive : ∀ t ∈ conn.tasks, t.phase ≠ .ended) (hnew : f.flag = .newStream → wireId f.id ≠ 0)
    (hf : f.flag ≠ .closeStream ∧ f.flag ≠ .disconnected ∧
      (f.flag = .liveliness → conn.pingCheck.isSome = true)) :
    Turn conn expects conn' true [f] [] := by
  simp only [MplexConn.recvRaw, Option.ite_none_right_eq_some, MplexConn.handleIncoming,
    frameCodec] at h
  obtain ⟨-, h⟩ := h
  cases hflag : f.flag with
  | newStream =>
    simp only [hflag, MplexConn.handleFlag] at h
    rw [if_neg (hnew hflag)] at h
    obtain rfl := Option.some.inj h
    exact .openRemote f hflag
  | message | handshakeReq | handshakeRes =>
    obtain ⟨conn'', hput, hturn⟩ : ∃ conn'', conn.putChannel (wireId f.id) f.payload = .ok conn'' ∧
        Turn conn expects conn'' true [f] [] := putChannel_turn (by rw [hflag]; rfl) hI hlive
    simp only [hflag, MplexConn.handleFlag, hput] at h
    obtain rfl := Option.some.inj h
    exact hturn
  | liveliness =>
    obtain ⟨q, hq⟩ := Option.isSome_iff_exists.mp (hf.2.2 hflag)
    simp only [hflag, MplexConn.handleFlag, hq] at h
    obtain rfl := Option.some.inj h
    exact .checked f q hflag hq
  | closeStream => exact absurd hflag hf.1
  | disconnected => exact absurd hflag hf.2.1

/-- What an action puts on the queue from outside. -/
def LinkAct.queues : LinkAct → Option Item
  | .openReq _ p => some (.openStream p)
  | .liveliness _ => some .liveliness
  | _ => none

/-- An action as a turn of its end, with the frames that it moves. -/
structure TurnAt (s s' : Link Item Frame) (a : LinkAct) (inn out : List Frame) : Prop where
  turn : Turn (s.ends a.actor) (fun i => a.queues = some i ∧ Expects s a.actor i)
    (s'.ends a.actor) a.internal inn out
  other : s'.ends a.actor.other = s.ends a.actor.other
  taken : s.wire a.actor = inn ++ s'.wire a.actor
  sent : s'.wire a.actor.other = s.wire a.actor.other ++ out

theorem turnAt_setEnd {conn' : MplexConn Item} (h : Turn (s.ends a.actor)
      (fun i => a.queues = some i ∧ Expects s a.actor i) conn' a.internal [] []) :
    TurnAt s (s.setEnd a.actor conn') a [] [] where
  turn := by rw [Link.setEnd_ends_self]; exact h
  other := Link.setEnd_ends_other ..
  taken := rfl
  sent := (List.append_nil _).symm

/-- **Every step** that is not disturbed is a turn. -/
theorem step_turn (h : s.step frameCodec a = some s') (hS : Steady s) (hO : Ordered s)
    (hg : Undisturbed s a) : ∃ inn out, TurnAt s s' a inn out := by
  cases a with
  | openReq e p =>
    obtain ⟨conn', hs, rfl⟩ := Option.map_eq_some_iff.mp h
    obtain ⟨-, rfl⟩ := send_some hs
    exact ⟨[], [], turnAt_setEnd (a := .openReq e p) (.queue (.openStream p) ⟨rfl, hg⟩)⟩
  | recvQueue e =>
    obtain ⟨r, hr, rfl⟩ := Option.map_eq_some_iff.mp h
    have hturn : Turn (s.ends e) (fun i => none = some i ∧ Expects s e i) r.1 true []
        r.2.toList := by
      refine recvQueue_turn hr (hS.running e) fun i hi hint => ?_
      have hexp := hS.queued e i hi
      cases i with
      | openStream p => exact ⟨p, rfl⟩
      | closeStream id => exact hexp.elim
      | disconnect p => exact hexp.elim
      | _ => simp [Item.isInternal] at hint
    refine ⟨[], r.2.toList, ?_, ?_, ?_, ?_⟩
    · simp only [LinkAct.actor, Link.transmit_ends, Link.setEnd_ends_self]
      exact hturn
    · simp only [LinkAct.actor, Link.transmit_ends, Link.setEnd_ends_other]
    · simp only [LinkAct.actor, Link.transmit_wire_self, Link.setEnd_wire, List.nil_append]
    · simp only [LinkAct.actor, Link.transmit_wire_other, Link.setEnd_wire]
  | recvRaw e =>
    simp only [Link.step] at h
    cases hw : s.wire e with
    | nil =>
      rw [hw] at h
      simp at h
    | cons f rest =>
      rw [hw] at h
      obtain ⟨conn', hs, rfl⟩ := Option.map_eq_some_iff.mp h
      have hturn : Turn (s.ends e) (fun i => none = some i ∧ Expects s e i) conn' true [f] [] :=
        recvRaw_turn hs (hO.ids.ends e) (hS.live e)
          (hO.ids.wireId_ne_zero (by rw [Link.inFlight, hw]; rfl))
          (hS.flying e f (by rw [hw]; exact List.mem_cons_self ..))
      refine ⟨[f], [], ?_, ?_, ?_, ?_⟩
      · simp only [LinkAct.actor, Link.setEnd_ends_self]
        exact hturn
      · simp only [LinkAct.actor, Link.setEnd_ends_other]
      · simp only [LinkAct.actor, Function.update_self, hw]
        rfl
      · simp only [LinkAct.actor, Function.update_of_ne (End.other_ne e), List.append_nil]
  | task e i act =>
    obtain ⟨conn', hs, rfl⟩ := Option.map_eq_some_iff.mp h
    have hturn : Turn (s.ends e) (fun i => none = some i ∧ Expects s e i) conn'
        (act == .negotiate) [] [] := taskStep_turn hs (hS.running e) (hS.sender e)
      (fun t ht hr => (hS.proto e t ht hr).imp fun _ hp => hp.1)
      (fun t ht hr hph p rest hc => awaited_request hO hS ht hr hph hc e)
      (fun t ht hr hph p rest hc => by
        have hp := awaited_response hO ht hr hph hc
        obtain ⟨q, hq, hknown⟩ := hS.proto e t ht hr
        obtain rfl := Option.some.inj (hp.symm.trans hq)
        exact ⟨hp, hknown e⟩)
      (by cases act <;> simp [Undisturbed] at hg ⊢)
    refine ⟨[], [], ?_⟩
    cases act <;> exact turnAt_setEnd (a := .task e i _) hturn
  | liveliness e =>
    simp only [Link.step, Option.ite_none_right_eq_some] at h
    obtain ⟨-, h⟩ := h
    obtain ⟨conn', hs, rfl⟩ := Option.map_eq_some_iff.mp h
    obtain ⟨-, rfl⟩ := send_some hs
    exact ⟨[], [], turnAt_setEnd (a := .liveliness e) (.queue .liveliness ⟨rfl, hg⟩)⟩
  | disconnect e p => exact hg.elim
  | pingCheckEnd e => exact hg.elim
  | rawError e => exact hg.elim

end Turns

/-! ## What a turn keeps -/

section Kept

variable {conn conn' : MplexConn Item} {expects : Item → Prop} {b : Bool} {inn out : List Frame}

/-- A task keeps its id, its role and its protocol, and does not end. -/
theorem TaskTurn.kept {t t' : MplexStream} {q : List Item}
    (h : TaskTurn t t' b q) : t'.streamId = t.streamId ∧ t'.isInitiator = t.isInitiator ∧
      t'.proto = t.proto ∧ t'.phase ≠ .ended := by
  cases h with
  | write msg hph | read p rest hph hc => exact ⟨rfl, rfl, rfl, by simp [hph]⟩
  | _ => exact ⟨rfl, rfl, rfl, by simp⟩

/-- What a task puts on the queue is a frame of its stream with a payload. -/
theorem TaskTurn.queues {t t' : MplexStream} {q : List Item}
    (h : TaskTurn t t' b q) : ∀ i ∈ q, i.frame.flag.isData = true ∧ i.isInternal = false := by
  cases h with
  | start | read => simp
  | _ =>
    intro i hi
    rw [List.mem_singleton.mp hi]
    exact ⟨rfl, rfl⟩

/-- The end itself goes on. -/
theorem Turn.same (h : Turn conn expects conn' b inn out) : conn'.handlers = conn.handlers ∧
    conn'.running = conn.running ∧
    (conn.pingCheck.isSome = true → conn'.pingCheck.isSome = true) := by
  cases h with
  | checked f q hf hp => exact ⟨rfl, rfl, fun _ => rfl⟩
  | _ => exact ⟨rfl, rfl, fun hp => hp⟩

/-- The tasks of an end: one of them is replaced by one of the same stream that has not ended, or
one is spawned for an id that no other has. -/
inductive TasksTurn (conn : MplexConn Item) : MplexConn Item → Prop
  | same {conn' : MplexConn Item} (ht : conn'.tasks = conn.tasks)
      (hs : conn'.streams = conn.streams) : TasksTurn conn conn'
  | set {conn' : MplexConn Item} (i : Nat) (t t' : MplexStream) (hi : conn.tasks[i]? = some t)
      (hid : t'.streamId = t.streamId) (hrole : t'.isInitiator = t.isInitiator)
      (hproto : t'.proto = t.proto) (hph : t.phase ≠ .ended → t'.phase ≠ .ended)
      (ht : conn'.tasks = conn.tasks.set i t') (hs : conn'.streams = conn.streams) :
      TasksTurn conn conn'
  | spawn {conn' : MplexConn Item} (t : MplexStream) (hnew : t.phase = .negotiating)
      (hproto : t.isInitiator = true → ∃ p, t.proto = some p ∧ .openStream p ∈ conn.mpsc)
      (ht : conn'.tasks = conn.tasks ++ [t])
      (hs : conn'.streams = conn.streams.insert t.streamId conn.tasks.length) :
      TasksTurn conn conn'

theorem Turn.tasks (h : Turn conn expects conn' b inn out) : TasksTurn conn conn' := by
  cases h with
  | queue | flush | checked | ignored => exact .same rfl rfl
  | openLocal p rest hq =>
    exact .spawn _ rfl (fun _ => ⟨p, rfl, by rw [hq]; exact List.mem_cons_self ..⟩) rfl rfl
  | openRemote f hf => exact .spawn _ rfl (by simp) rfl rfl
  | put f i t hf ht =>
    exact .set i t { t with channel := t.channel ++ [f.payload], put := t.put ++ [f.payload] } ht
      rfl rfl rfl (fun hph => hph) rfl rfl
  | task i t t' b q ht hturn =>
    obtain ⟨hid, hrole, hproto, hph⟩ := hturn.kept
    exact .set i t t' ht hid hrole hproto (fun _ => hph) rfl rfl

/-- What is on the queue afterwards was there before, is expected, or is a frame that is neither
a liveliness frame nor internal. -/
theorem Turn.queued (h : Turn conn expects conn' b inn out) : ∀ i ∈ conn'.mpsc,
    i ∈ conn.mpsc ∨ expects i ∨ i.isInternal = false ∧ i ≠ .liveliness := by
  intro i hi
  cases h with
  | queue j hj =>
    rcases List.mem_append.mp hi with hi | hi
    · exact .inl hi
    · rw [List.mem_singleton.mp hi]
      exact .inr (.inl hj)
  | flush j rest hq =>
    rw [hq]
    exact .inl (List.mem_cons_of_mem _ hi)
  | openLocal p rest hq =>
    rcases List.mem_append.mp hi with hi | hi
    · rw [hq]
      exact .inl (List.mem_cons_of_mem _ hi)
    · rw [List.mem_singleton.mp hi]
      exact .inr (.inr ⟨rfl, by simp [frameCodec]⟩)
  | openRemote | checked | put | ignored => exact .inl hi
  | task k t t' b q ht hturn =>
    rcases List.mem_append.mp hi with hi | hi
    · exact .inl hi
    · obtain ⟨hdata, hint⟩ := hturn.queues i hi
      refine .inr (.inr ⟨hint, fun hl => ?_⟩)
      rw [hl] at hdata
      simp [Item.frame, MuxedStreamFlag.isData] at hdata

/-- What is written stood on the queue as a frame. -/
theorem Turn.written (h : Turn conn expects conn' b inn out) : ∀ f ∈ out,
    ∃ i ∈ conn.mpsc, i.isInternal = false ∧ f = i.frame := by
  cases h with
  | flush i rest hq hi =>
    intro f hf
    rw [List.mem_singleton.mp hf, hq]
    exact ⟨i, List.mem_cons_self .., hi, rfl⟩
  | _ => simp

/-- An entry for every task is kept, as long as no two streams have the same id. -/
theorem TasksTurn.sender (h : TasksTurn conn conn')
    (hnd : (conn'.tasks.map (·.streamId)).Nodup)
    (hs : ∀ (i : Nat) (t : MplexStream), conn.tasks[i]? = some t →
      conn.streams.lookup t.streamId = some i) :
    ∀ (i : Nat) (t : MplexStream), conn'.tasks[i]? = some t →
      conn'.streams.lookup t.streamId = some i := by
  intro i t hi
  cases h with
  | same ht hstr =>
    rw [ht] at hi
    rw [hstr]
    exact hs i t hi
  | set k u u' hk hid _ _ _ ht hstr =>
    rw [hstr]
    rw [ht, List.getElem?_set] at hi
    by_cases hik : k = i
    · rw [if_pos hik, if_pos (List.getElem?_eq_some_iff.mp hk).1] at hi
      rw [← Option.some.inj hi, hid, ← hik]
      exact hs k u hk
    · rw [if_neg hik] at hi
      exact hs i t hi
  | spawn u _ _ ht hstr =>
    rw [hstr]
    rw [ht] at hi hnd
    rw [List.map_append, List.nodup_append] at hnd
    by_cases hlt : i < conn.tasks.length
    · rw [List.getElem?_append_left hlt] at hi
      have hne : t.streamId ≠ u.streamId := fun he => hnd.2.2 t.streamId
        (List.mem_map_of_mem (List.mem_of_getElem? hi)) u.streamId (List.mem_singleton_self _) he
      rw [AList.lookup_insert_ne hne]
      exact hs i t hi
    · have hlen := (List.getElem?_eq_some_iff.mp hi).1
      rw [List.length_append, List.length_singleton] at hlen
      obtain rfl : i = conn.tasks.length := by omega
      rw [List.getElem?_concat_length] at hi
      rw [← Option.some.inj hi, AList.lookup_insert]

/-- No task ends. -/
theorem TasksTurn.live (h : TasksTurn conn conn') (hl : ∀ t ∈ conn.tasks, t.phase ≠ .ended) :
    ∀ t ∈ conn'.tasks, t.phase ≠ .ended := by
  intro t ht
  cases h with
  | same hts _ =>
    rw [hts] at ht
    exact hl t ht
  | set k u u' hk _ _ _ hph hts _ =>
    rw [hts] at ht
    rcases List.mem_or_eq_of_mem_set ht with ht | rfl
    · exact hl t ht
    · exact hph (hl u (List.mem_of_getElem? hk))
  | spawn u hnew _ hts _ =>
    rw [hts] at ht
    rcases List.mem_append.mp ht with ht | ht
    · exact hl t ht
    · rw [List.mem_singleton.mp ht, hnew]
      simp

/-- An initiator's protocol is the one of its task before, or of a request on the queue. -/
theorem TasksTurn.proto (h : TasksTurn conn conn') {t : MplexStream} (ht : t ∈ conn'.tasks)
    (hrole : t.isInitiator = true) :
    (∃ u ∈ conn.tasks, u.isInitiator = true ∧ u.proto = t.proto) ∨
      ∃ p, t.proto = some p ∧ .openStream p ∈ conn.mpsc := by
  cases h with
  | same hts _ =>
    rw [hts] at ht
    exact .inl ⟨t, ht, hrole, rfl⟩
  | set k u u' hk _ hr hp _ hts _ =>
    rw [hts] at ht
    rcases List.mem_or_eq_of_mem_set ht with ht | rfl
    · exact .inl ⟨t, ht, hrole, rfl⟩
    · exact .inl ⟨u, List.mem_of_getElem? hk, hr.symm.trans hrole, hp.symm⟩
  | spawn u _ hp hts _ =>
    rw [hts] at ht
    rcases List.mem_append.mp ht with ht | ht
    · exact .inl ⟨t, ht, hrole, rfl⟩
    · rw [List.mem_singleton.mp ht] at hrole ⊢
      exact .inr (hp hrole)

end Kept

/-- **One turn** keeps a connection steady. -/
theorem Steady.turn {s s' : Link Item Frame} {a : LinkAct} {inn out : List Frame}
    (h : Steady s) (ht : TurnAt s s' a inn out) (hI : IdInv s') : Steady s' := by
  obtain ⟨hturn, hother, htaken, hsent⟩ := ht
  generalize a.actor = e at *
  obtain ⟨hhandlers, hrun, hping⟩ := hturn.same
  have hknown : ∀ p, Known s p → Known s' p := by
    intro p hp d
    rcases End.eq_or_eq_other e d with rfl | rfl
    · have := hp d
      unfold MplexConn.hasHandler at this ⊢
      rwa [hhandlers]
    · rw [hother]
      exact hp _
  have hchecks : ∀ d, (s.ends d).pingCheck.isSome = true → (s'.ends d).pingCheck.isSome = true := by
    intro d
    rcases End.eq_or_eq_other e d with rfl | rfl
    · exact hping
    · rw [hother]
      exact fun hp => hp
  have hexpects : ∀ d i, Expects s d i → Expects s' d i := by
    intro d i hi
    cases i with
    | openStream p => exact hknown p hi
    | liveliness => exact hchecks _ hi
    | closeStream id => exact hi
    | disconnect p => exact hi
    | announce id => trivial
    | handshakeReq id p => trivial
    | handshakeRes id p => trivial
    | message id p => trivial
  refine ⟨fun d => ?_, fun d => ?_, fun d => ?_, fun d i hi => ?_, fun d f hf => ?_,
    fun d t ht hrole => ?_⟩
  · rcases End.eq_or_eq_other e d with rfl | rfl
    · rw [hrun]
      exact h.running _
    · rw [hother]
      exact h.running _
  · rcases End.eq_or_eq_other e d with rfl | rfl
    · exact hturn.tasks.live (h.live _)
    · rw [hother]
      exact h.live _
  · rcases End.eq_or_eq_other e d with rfl | rfl
    · exact hturn.tasks.sender (hI.ends _).nodup (h.sender _)
    · rw [hother]
      exact h.sender _
  · refine hexpects d i ?_
    rcases End.eq_or_eq_other e d with rfl | rfl
    · rcases hturn.queued i hi with hi | hi | ⟨hint, hl⟩
      · exact h.queued _ i hi
      · exact hi.2
      · cases i <;> trivial
    · rw [hother] at hi
      exact h.queued _ i hi
  · have hold : ∀ f ∈ s.wire d, f.flag ≠ .closeStream ∧ f.flag ≠ .disconnected ∧
        (f.flag = .liveliness → (s'.ends d).pingCheck.isSome = true) := fun f hf =>
      ⟨(h.flying d f hf).1, (h.flying d f hf).2.1, fun hl => hchecks d ((h.flying d f hf).2.2 hl)⟩
    rcases End.eq_or_eq_other e d with rfl | rfl
    · exact hold f (by rw [htaken]; exact List.mem_append_right _ hf)
    · rw [hsent] at hf
      rcases List.mem_append.mp hf with hf | hf
      · exact hold f hf
      · obtain ⟨i, hi, hint, rfl⟩ := hturn.written f hf
        have hexp := h.queued e i hi
        cases i with
        | liveliness => exact ⟨by simp [Item.frame], by simp [Item.frame], fun _ => hchecks _ hexp⟩
        | openStream p | closeStream id | disconnect p => simp [Item.isInternal] at hint
        | _ => simp [Item.frame]
  · have hold : ∀ t ∈ (s.ends d).tasks, t.isInitiator = true →
        ∃ p, t.proto = some p ∧ Known s' p := fun t ht hr =>
      (h.proto d t ht hr).imp fun p hp => ⟨hp.1, hknown p hp.2⟩
    rcases End.eq_or_eq_other e d with rfl | rfl
    · rcases hturn.tasks.proto ht hrole with ⟨u, hu, hur, hp⟩ | ⟨p, hp, hq⟩
      · rw [← hp]
        exact hold u hu hur
      · exact ⟨p, hp, hknown p (h.queued _ _ hq)⟩
    · rw [hother] at ht
      exact hold t ht hrole

theorem Steady.init {s : Link Item Frame} (h : (link frameCodec).init s) : Steady s := by
  have hends : ∀ e, (s.ends e).running = true ∧ (s.ends e).tasks = [] ∧ (s.ends e).mpsc = [] := by
    intro e
    obtain ⟨-, hs, pc, he⟩ := h e
    rw [he]
    exact ⟨rfl, rfl, rfl⟩
  refine ⟨fun e => (hends e).1, fun e t ht => ?_, fun e i t ht => ?_, fun e i hi => ?_,
    fun e f hf => ?_, fun e t ht => ?_⟩
  · rw [(hends e).2.1] at ht
    simp at ht
  · rw [(hends e).2.1] at ht
    simp at ht
  · rw [(hends e).2.2] at hi
    simp at hi
  · rw [(h e).1] at hf
    simp at hf
  · rw [(hends e).2.1] at ht
    simp at ht

end Rnet.Mplex
