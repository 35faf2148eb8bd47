import Rnet.Mplex.Close

/-!
# Frames without a recipient

An entry of `streams` outlives the task that holds its receiver: the entry goes when a queued
`CloseStream` is handled, the receiver when `handle_conn` returns or fails. `ping_check`'s
receiver goes when `ping_check` returns. `handle_incoming` unwraps the `send` to either.

> `survives_iff_recipient`: in every reachable state of a connection, whatever its peer sends,
> `conn_handler` survives a well-formed frame exactly if its recipient is not gone.

`late_message_aborts` is a run of two real ends in which a message arrives after the end of its
handler and takes another stream down with it.
-/

namespace Rnet.Mplex

open Rnet.Lib (System)
open Rnet.Lib.System (runUnder_of_exec)

/-! ## One end, with any peer -/

/-- One turn at an end whose peer may send any frames. -/
inductive ConnAct (φ : Type)
  | openReq (protocol : Payload)
  | recvQueue
  | recvRaw (frames : φ)
  | task (h : Nat) (a : MplexConn.TaskAct)
  | liveliness
  | disconnect (payload : Payload)
  | pingCheckEnd
  | rawError

section Conn

variable {κ φ : Type} (c : Codec κ φ)

/-- The turns of `Link.step` at one end, the frames from the peer being arbitrary. -/
def MplexConn.step (conn : MplexConn κ) : ConnAct φ → Option (MplexConn κ)
  | .openReq protocol => conn.send c (.openStream protocol)
  | .recvQueue => (conn.recvQueue c).map Prod.fst
  | .recvRaw frames => conn.recvRaw c frames
  | .task h a => conn.taskStep c h a
  | .liveliness => if conn.pingCheck.isSome then conn.send c .liveliness else none
  | .disconnect payload => conn.send c (.disconnect payload)
  | .pingCheckEnd => some { conn with pingCheck := none }
  | .rawError => if conn.running then some { conn with running := false } else none

/-- A connection with any peer. -/
def mplexConn : System (MplexConn κ) (ConnAct φ) where
  init conn := ∃ handlers pingCheck, conn = { handlers := handlers, pingCheck := pingCheck }
  step conn a := conn.step c a

/-- Either end of a link is a connection whose peer happens to be the other end. -/
theorem Link.reachable_end {s : Link κ φ} (h : (link c).Reachable s) (e : End) :
    (mplexConn c).Reachable (s.ends e) := by
  refine h.invariant (fun s => ∀ e, (mplexConn c).Reachable (s.ends e)) ?_ ?_ e
  · intro s hs e
    obtain ⟨-, handlers, pingCheck, he⟩ := hs e
    exact System.reachableUnder_init ⟨handlers, pingCheck, he⟩
  · intro s a s' hr _ hs d
    have at_ : ∀ {e : End} {conn : MplexConn κ} (b : ConnAct φ), (s.ends e).step c b = some conn →
        s'.ends = Function.update s.ends e conn → (mplexConn c).Reachable (s'.ends d) := by
      intro e conn b hb he
      rw [he]
      by_cases hd : d = e
      · rw [hd, Function.update_self]
        exact (hr e).step trivial hb
      · rw [Function.update_of_ne hd]
        exact hr d
    cases a with
    | openReq e p =>
      obtain ⟨conn, hc, rfl⟩ := Option.map_eq_some_iff.mp hs
      exact at_ (.openReq p) hc rfl
    | recvQueue e =>
      obtain ⟨⟨conn, w⟩, hc, rfl⟩ := Option.map_eq_some_iff.mp hs
      exact at_ .recvQueue (congrArg (Option.map Prod.fst) hc) (Link.transmit_ends ..)
    | recvRaw e =>
      simp only [link, Link.step] at hs
      cases hw : s.wire e with
      | nil =>
        rw [hw] at hs
        simp at hs
      | cons f rest =>
        rw [hw] at hs
        obtain ⟨conn, hc, rfl⟩ := Option.map_eq_some_iff.mp hs
        exact at_ (.recvRaw f) hc rfl
    | task e h a =>
      obtain ⟨conn, hc, rfl⟩ := Option.map_eq_some_iff.mp hs
      exact at_ (.task h a) hc rfl
    | liveliness e =>
      simp only [link, Link.step] at hs
      split at hs
      · rename_i hp
        obtain ⟨conn, hc, rfl⟩ := Option.map_eq_some_iff.mp hs
        exact at_ .liveliness ((if_pos hp).trans hc) rfl
      · simp at hs
    | disconnect e p =>
      obtain ⟨conn, hc, rfl⟩ := Option.map_eq_some_iff.mp hs
      exact at_ (.disconnect p) hc rfl
    | pingCheckEnd e =>
      obtain rfl := Option.some.inj hs
      exact at_ .pingCheckEnd rfl rfl
    | rawError e =>
      simp only [link, Link.step] at hs
      split at hs
      · rename_i hrun
        obtain rfl := Option.some.inj hs
        exact at_ .rawError (if_pos hrun) rfl
      · simp at hs

end Conn

/-! ## Entries point at tasks -/

section Handles

variable {κ φ : Type} {c : Codec κ φ}

/-- Every entry of the table points at a stream task. -/
def MplexConn.Handles (conn : MplexConn κ) : Prop :=
  ∀ id h, conn.streams.lookup id = some h → h < conn.tasks.length

theorem MplexConn.Handles.insert {conn conn' : MplexConn κ} (h : conn.Handles) {id : UInt32}
    {t : MplexStream} (hs : conn'.streams = conn.streams.insert id conn.tasks.length)
    (ht : conn'.tasks = conn.tasks ++ [t]) : conn'.Handles := by
  intro i k hk
  rw [ht, List.length_append, List.length_singleton]
  rw [hs] at hk
  by_cases hi : i = id
  · rw [hi, AList.lookup_insert] at hk
    have := Option.some.inj hk
    omega
  · rw [AList.lookup_insert_ne hi] at hk
    have := h i k hk
    omega

theorem MplexConn.Handles.of_eq {conn conn' : MplexConn κ} (h : conn.Handles)
    (hs : conn'.streams = conn.streams) (ht : conn'.tasks.length = conn.tasks.length) :
    conn'.Handles := by
  intro i k hk
  rw [ht]
  rw [hs] at hk
  exact h i k hk

theorem MplexConn.Handles.handleIncoming {conn conn' : MplexConn κ} (h : conn.Handles) {f : φ}
    {b : Bool} (hin : conn.handleIncoming c f = .ok (conn', b)) : conn'.Handles := by
  rw [MplexConn.handleIncoming] at hin
  cases hp : c.parse f with
  | error e =>
    rw [hp] at hin
    simp at hin
  | ok r =>
    obtain ⟨id, flag, payload⟩ := r
    rw [hp] at hin
    cases flag with
    | newStream =>
      simp only [MplexConn.handleFlag] at hin
      split at hin
      all_goals
        obtain ⟨rfl, -⟩ := Prod.mk.inj (Except.ok.inj hin)
        exact h.insert rfl rfl
    | closeStream =>
      obtain ⟨rfl, -⟩ := Prod.mk.inj (Except.ok.inj hin)
      exact fun i k hk => h i k (lookup_erase_some hk)
    | disconnected =>
      obtain ⟨rfl, -⟩ := Prod.mk.inj (Except.ok.inj hin)
      exact h.of_eq rfl rfl
    | message | handshakeReq | handshakeRes =>
      simp only [MplexConn.handleFlag] at hin
      cases hput : conn.putChannel id payload with
      | error e =>
        rw [hput] at hin
        simp at hin
      | ok conn₁ =>
        rw [hput] at hin
        obtain ⟨rfl, -⟩ := Prod.mk.inj (Except.ok.inj hin)
        rw [MplexConn.putChannel] at hput
        split at hput
        · obtain rfl := Except.ok.inj hput
          exact h
        · split at hput
          · simp at hput
          · split at hput
            · simp at hput
            · obtain rfl := Except.ok.inj hput
              exact h.of_eq rfl List.length_set
    | liveliness =>
      simp only [MplexConn.handleFlag] at hin
      split at hin
      · simp at hin
      · obtain ⟨rfl, -⟩ := Prod.mk.inj (Except.ok.inj hin)
        exact h.of_eq rfl rfl

/-- **One turn** keeps the entries at tasks. -/
theorem MplexConn.Handles.step {conn conn' : MplexConn κ} (h : conn.Handles) {a : ConnAct φ}
    (hs : conn.step c a = some conn') : conn'.Handles := by
  have sent : ∀ {i : Item}, conn.send c i = some conn' → conn'.Handles := by
    intro i hsend
    obtain rfl := send_shape hsend
    exact h.of_eq rfl rfl
  cases a with
  | openReq p => exact sent hs
  | disconnect p => exact sent hs
  | liveliness =>
    simp only [MplexConn.step] at hs
    split at hs
    · exact sent hs
    · simp at hs
  | pingCheckEnd =>
    obtain rfl := Option.some.inj hs
    exact h.of_eq rfl rfl
  | rawError =>
    simp only [MplexConn.step] at hs
    split at hs
    · obtain rfl := Option.some.inj hs
      exact h.of_eq rfl rfl
    · simp at hs
  | task k a =>
    obtain ⟨⟨hstreams, htasks⟩, -⟩ := taskStep_shape hs
    exact h.of_eq hstreams htasks
  | recvRaw f =>
    simp only [MplexConn.step, MplexConn.recvRaw] at hs
    split at hs
    · split at hs
      · obtain rfl := Option.some.inj hs
        exact h.of_eq rfl rfl
      · rename_i hin
        obtain rfl := Option.some.inj hs
        exact h.handleIncoming hin
    · simp at hs
  | recvQueue =>
    obtain ⟨⟨conn₁, w⟩, hq, rfl⟩ := Option.map_eq_some_iff.mp hs
    have hrest : ∀ l, MplexConn.Handles { conn with mpsc := l } := fun _ => h.of_eq rfl rfl
    rw [MplexConn.recvQueue] at hq
    split at hq
    · split at hq
      · simp at hq
      · split at hq
        · obtain ⟨rfl, -⟩ := Prod.mk.inj (Option.some.inj hq)
          exact h.of_eq rfl rfl
        · split at hq
          · obtain ⟨rfl, -⟩ := Prod.mk.inj (Option.some.inj hq)
            exact h.of_eq rfl rfl
          · rename_i hin
            obtain ⟨rfl, -⟩ := Prod.mk.inj (Option.some.inj hq)
            exact (hrest _).handleIncoming hin
          · rename_i hin
            obtain ⟨rfl, -⟩ := Prod.mk.inj (Option.some.inj hq)
            exact ((hrest _).handleIncoming hin).of_eq rfl rfl
    · simp at hq

/-- **Every reachable state** has its entries at tasks. -/
theorem MplexConn.handles_of_reachable {conn : MplexConn κ} (h : (mplexConn c).Reachable conn) :
    conn.Handles := by
  refine h.invariant MplexConn.Handles ?_ fun _ _ _ hh _ hs => MplexConn.Handles.step hh hs
  intro conn ⟨handlers, pingCheck, he⟩ i k hk
  rw [he] at hk
  simp at hk

end Handles

/-! ## The property -/

section Gone

variable {κ φ : Type} {c : Codec κ φ}

/-- The recipient of a frame is gone: the entry of its stream points at a task that has ended,
or no `ping_check` waits for `Liveliness`. -/
def MplexConn.RecipientGone (conn : MplexConn κ) (id : UInt32) (flag : MuxedStreamFlag) : Prop :=
  (flag.isData = true ∧ ∃ h t, conn.streams.lookup id = some h ∧ conn.tasks[h]? = some t ∧
    t.phase = .ended) ∨
  (flag = .liveliness ∧ conn.pingCheck = none)

/-- `conn_handler` has dropped the frame and affected no stream. -/
structure MplexConn.Dropped (conn conn' : MplexConn κ) : Prop where
  running : conn'.running = true
  streams : conn'.streams = conn.streams
  tasks : conn'.tasks = conn.tasks

/-- What `handle_incoming` does with a payload for a stream, by the state of the stream's task. -/
theorem putChannel_ok_iff {conn : MplexConn κ} (h : conn.Handles) (id : UInt32) (p : Payload) :
    (∃ conn', conn.putChannel id p = .ok conn' ∧ conn'.running = conn.running) ↔
      ¬ ∃ k t, conn.streams.lookup id = some k ∧ conn.tasks[k]? = some t ∧ t.phase = .ended := by
  rw [MplexConn.putChannel]
  cases hl : conn.streams.lookup id with
  | none => exact ⟨fun _ => by simp, fun _ => ⟨conn, rfl, rfl⟩⟩
  | some k =>
    dsimp only
    cases ht : conn.tasks[k]? with
    | none =>
      have := h id k hl
      rw [List.getElem?_eq_none_iff] at ht
      omega
    | some t =>
      dsimp only
      by_cases hph : t.phase = .ended
      · rw [if_pos hph]
        refine ⟨fun hok => ?_, fun hno => absurd ⟨k, t, rfl, ht, hph⟩ hno⟩
        obtain ⟨_, he, -⟩ := hok
        simp at he
      · rw [if_neg hph]
        refine ⟨fun _ hended => ?_, fun _ => ⟨_, rfl, rfl⟩⟩
        obtain ⟨k', t', hk, ht', hph'⟩ := hended
        obtain rfl := Option.some.inj hk
        rw [ht] at ht'
        obtain rfl := Option.some.inj ht'
        exact hph hph'

/-- **Whether `conn_handler` survives** a well-formed frame, in every reachable state. -/
theorem survives_iff_recipient {conn : MplexConn κ} (h : (mplexConn c).Reachable conn)
    (hrun : conn.running = true) {frames : φ} {id : UInt32} {flag : MuxedStreamFlag}
    {payload : Payload} (hparse : c.parse frames = .ok (id, flag, payload)) :
    (∃ conn', conn.recvRaw c frames = some conn' ∧ conn'.running = true) ↔
      ¬ conn.RecipientGone id flag := by
  have hraw : (∃ conn', conn.recvRaw c frames = some conn' ∧ conn'.running = true) ↔
      ∃ r, conn.handleFlag c id flag payload = .ok r ∧ r.1.running = true := by
    rw [MplexConn.recvRaw, if_pos hrun, MplexConn.handleIncoming, hparse]
    dsimp only
    cases conn.handleFlag c id flag payload with
    | error e => simp
    | ok r =>
      constructor
      · intro hrecv
        obtain ⟨conn', he, hc⟩ := hrecv
        exact ⟨r, rfl, Option.some.inj he ▸ hc⟩
      · intro hflag
        obtain ⟨r', he, hc⟩ := hflag
        exact ⟨_, rfl, Except.ok.inj he ▸ hc⟩
  rw [hraw]
  cases flag with
  | newStream =>
    simp only [MplexConn.handleFlag, MplexConn.RecipientGone]
    split
    all_goals exact ⟨fun _ => by simp [MuxedStreamFlag.isData], fun _ => ⟨_, rfl, hrun⟩⟩
  | closeStream | disconnected =>
    exact ⟨fun _ => by simp [MplexConn.RecipientGone, MuxedStreamFlag.isData],
      fun _ => ⟨_, rfl, hrun⟩⟩
  | message | handshakeReq | handshakeRes =>
    have hput := putChannel_ok_iff (MplexConn.handles_of_reachable h) id payload
    rw [hrun] at hput
    simp only [MplexConn.RecipientGone, MuxedStreamFlag.isData, true_and, reduceCtorEq, false_and,
      or_false]
    rw [← hput]
    simp only [MplexConn.handleFlag]
    cases conn.putChannel id payload with
    | error e => simp
    | ok conn' =>
      constructor
      · intro hflag
        obtain ⟨r, he, hc⟩ := hflag
        obtain rfl := Except.ok.inj he
        exact ⟨conn', rfl, hc⟩
      · intro hstep
        obtain ⟨conn'', he, hc⟩ := hstep
        obtain rfl := Except.ok.inj he
        exact ⟨_, rfl, hc⟩
  | liveliness =>
    simp only [MplexConn.RecipientGone, MuxedStreamFlag.isData, reduceCtorEq, false_and, false_or,
      true_and, MplexConn.handleFlag]
    cases hp : conn.pingCheck with
    | none => simp
    | some q => exact ⟨fun _ => by simp, fun _ => ⟨_, rfl, hrun⟩⟩

/-- **A frame whose recipient is gone** is never dropped, in no reachable state: the
`send(..).await.unwrap()` ends `conn_handler`. -/
theorem gone_recipient_not_dropped {conn : MplexConn κ} (h : (mplexConn c).Reachable conn)
    (hrun : conn.running = true) {frames : φ} {id : UInt32} {flag : MuxedStreamFlag}
    {payload : Payload} (hparse : c.parse frames = .ok (id, flag, payload))
    (hgone : conn.RecipientGone id flag) :
    ¬ ∃ conn', conn.recvRaw c frames = some conn' ∧ conn.Dropped conn' := by
  intro ⟨conn', he, hd⟩
  exact (survives_iff_recipient h hrun hparse).mp ⟨conn', he, hd.running⟩ hgone

end Gone

/-! ## Two real ends -/

/-- The dialer opens a second stream. The listener's handler of the first closes and returns, and
the dialer writes to it. -/
def lateMessage : List LinkAct :=
  oneStream ++ [.openReq .dialer ⟨ascii "ping", length_ping⟩, .recvQueue .dialer,
    .recvQueue .dialer, .recvRaw .listener, .task .listener 0 .close, .task .listener 0 .finish,
    .task .dialer 0 (.write ⟨ascii "hi", length_hi⟩), .recvQueue .dialer]

theorem lateMessage_enabled :
    ((link (bytesCodec leb128)).exec (fun _ _ => True) (Link.fresh ["ping"])
      lateMessage).isSome = true := by decide +kernel

/-- The state in which the message is on the wire. -/
def lateState : Link (List UInt8) (List UInt8) :=
  ((link (bytesCodec leb128)).exec (fun _ _ => True) (Link.fresh ["ping"]) lateMessage).get
    lateMessage_enabled

theorem lateState_run : (link (bytesCodec leb128)).Run lateMessage lateState :=
  runUnder_of_exec (fresh_init _ ["ping"]) (Option.some_get lateMessage_enabled).symm

theorem lateState_gone : (lateState.ends .listener).RecipientGone 1 .message :=
  Or.inl ⟨rfl, 0, ⟨1, false, none, .ended, [⟨ascii "hi", by decide⟩],
    [⟨ascii "ping", by decide⟩, ⟨ascii "hi", by decide⟩], [⟨ascii "ping", by decide⟩]⟩,
    by decide +kernel, by decide +kernel, rfl⟩

theorem lateFrame_parses :
    (bytesCodec leb128).parse ((Item.message 1 ⟨ascii "hi", by decide⟩).bytes leb128)
      = .ok (1, .message, ⟨ascii "hi", by decide⟩) := by decide +kernel

theorem gone_recipient_not_dropped_late :
    ¬ ∃ conn', (lateState.ends .listener).recvRaw (bytesCodec leb128)
        ((Item.message 1 ⟨ascii "hi", by decide⟩).bytes leb128) = some conn' ∧
      (lateState.ends .listener).Dropped conn' :=
  gone_recipient_not_dropped (Link.reachable_end _ ⟨_, lateState_run⟩ .listener)
    (by decide +kernel) lateFrame_parses lateState_gone

theorem lateFrame_delivered :
    ((link (bytesCodec leb128)).step lateState (.recvRaw .listener)).isSome = true := by
  decide +kernel

/-- **The late message** ends the listener's `conn_handler`, and with it the second stream. -/
theorem late_message_aborts :
    ∃ s s', (link (bytesCodec leb128)).Run lateMessage s ∧ (s.ends .listener).running = true ∧
      s.wire .listener = [(Item.message 1 ⟨ascii "hi", by decide⟩).bytes leb128] ∧
      (s.ends .listener).RecipientGone 1 .message ∧ 2 ∈ (s.ends .listener).streams ∧
      (link (bytesCodec leb128)).step s (.recvRaw .listener) = some s' ∧
      ¬ (s.ends .listener).Dropped (s'.ends .listener) := by
  refine ⟨lateState, _, lateState_run, by decide +kernel, by decide +kernel, lateState_gone,
    by decide +kernel, (Option.some_get lateFrame_delivered).symm, fun hd => ?_⟩
  exact absurd hd.running (by decide +kernel)

end Rnet.Mplex
