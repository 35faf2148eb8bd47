import Rnet.Lib.Progress
import Rnet.Mplex.Steady

/-!
# Every stream gets negotiated

The turns that a connection makes of itself are `conn_handler`'s and those of the negotiations.
When nothing disturbs it they come to an end, and leave no stream half open.

> `requests_settle`: once none of these turns is left, each request for a stream, in the order of
> the requests, has become a stream whose handlers run the requested protocol at both ends; and
> the number of these turns is bounded by what is queued, on the wire and to be negotiated.
-/

namespace Rnet.Mplex

open Rnet.Lib
open Rnet.Lib.System (runUnder_of_exec Stuck)

section Property

variable {κ φ : Type} (c : Codec κ φ)

/-- What end `e` has been asked for. -/
def requestsAt (e : End) (as : List LinkAct) : List Payload :=
  as.filterMap fun a => match a with
    | .openReq d p => if d = e then some p else none
    | _ => none

/-- The requests of `e` that have become streams. -/
def MplexConn.opened (conn : MplexConn κ) : List MplexStream :=
  conn.tasks.filter (·.isInitiator)

/-- The stream is handled with protocol `p` at both ends. -/
def Link.HandledBy (s : Link κ φ) (e : End) (t : MplexStream) (p : Payload) : Prop :=
  t.handlerProtocol = some p ∧
    ∃ u ∈ (s.ends e.other).tasks, u.streamId = t.streamId ∧ u.handlerProtocol = some p

/-- What is left to do for a frame on the wire. -/
def wireWork (f : φ) : Nat := if (announcedId c f).isSome then 4 else 1

/-- What is left to do for an item of the queue. -/
def queueWork (x : κ) : Nat :=
  match c.route x with
  | .inr f => wireWork c f + 1
  | .inl f => if (announcedId c f).isSome then 10 else 1

/-- What is left to negotiate. -/
def MplexStream.work (t : MplexStream) : Nat :=
  match t.phase with
  | .negotiating => if t.isInitiator then 4 else 3
  | .awaitingRes => 1
  | .handling | .ended => 0

/-- What is left to do at end `e`, and on the wire to it. -/
def Link.workAt (s : Link κ φ) (e : End) : Nat :=
  ((s.ends e).mpsc.map (queueWork c)).sum + ((s.wire e).map (wireWork c)).sum
    + ((s.ends e).tasks.map MplexStream.work).sum

/-- What is left to do. -/
def Link.work (s : Link κ φ) : Nat := s.workAt c .dialer + s.workAt c .listener

end Property

/-! ## The streams of both ends -/

/-- The ids of an end's streams are the first ones, in order. -/
def Consecutive (s : Link Item Frame) : Prop :=
  ∀ e, (s.ends e).tasks.map (·.streamId.toNat)
    = List.range' 1 (s.ends e).streamCounter.toNat

theorem consecutive_concat {conn conn' : MplexConn Item} {id : UInt32} {t : MplexStream}
    (h : conn.tasks.map (·.streamId.toNat) = List.range' 1 conn.streamCounter.toNat)
    (hid : id.toNat = conn.streamCounter.toNat + 1) (ht : t.streamId = id)
    (hcount : conn'.streamCounter = id) (htasks : conn'.tasks = conn.tasks ++ [t]) :
    conn'.tasks.map (·.streamId.toNat) = List.range' 1 conn'.streamCounter.toNat := by
  rw [htasks, List.map_append, h, hcount, hid, List.range'_1_concat, List.map_singleton, ht, hid,
    Nat.add_comm 1]

/-- **One step** without overlapping opens. -/
theorem Consecutive.step {s s' : Link Item Frame} {a : LinkAct} (h : Consecutive s) (hI : IdInv s)
    (hg : OpensAlone frameCodec s a) (hs : s.step frameCodec a = some s') : Consecutive s' := by
  obtain ⟨inn, out, hst, hopens⟩ := step_effect hs
  intro e
  rcases End.eq_or_eq_other a.actor e with rfl | rfl
  swap
  · rw [hst.other]
    exact h _
  rcases hst.effect.ids with ⟨hsame, -⟩ | ⟨rfl, rfl, p, hc⟩ | ⟨f, rfl, hf, hrem⟩
  · have hids := congrArg (List.map fun x : UInt32 × Bool => x.1.toNat) hsame.roster
    rw [roster, roster, List.map_map, List.map_map] at hids
    rw [hsame.counter]
    exact hids.trans (h _)
  · obtain ⟨-, hb⟩ := hg (hopens rfl ⟨_, List.mem_singleton_self _, rfl⟩)
    have hcount : (s'.ends a.actor).streamCounter = (s.ends a.actor).streamCounter + 1 :=
      congrArg Core.streamCounter hc
    refine consecutive_concat (h _) ?_ rfl hcount (congrArg Core.tasks hc)
    rw [UInt32.toNat_add, show (1 : UInt32).toNat = 1 from rfl, Nat.mod_eq_of_lt (by omega)]
  · obtain ⟨hid, hlt, -⟩ := hI.head_announced hst.taken hf
    obtain ⟨-, hc⟩ := hrem (hI.wireId_ne_zero hst.taken hf)
    rw [wireId_of_lt hlt] at hc
    exact consecutive_concat (h _) hid rfl (congrArg Core.streamCounter hc)
      (congrArg Core.tasks hc)

theorem Consecutive.init {s : Link Item Frame} (h : (link frameCodec).init s) : Consecutive s := by
  intro e
  obtain ⟨-, hs, pc, he⟩ := h e
  rw [he]
  rfl

/-- With nothing announced, both ends have the same streams. -/
theorem Consecutive.partner {s : Link Item Frame} (h : Consecutive s) (hI : IdInv s)
    (hquiet : ∀ e, s.inFlight frameCodec e = []) {e : End} {t : MplexStream}
    (ht : t ∈ (s.ends e).tasks) :
    ∃ u ∈ (s.ends e.other).tasks, u.streamId = t.streamId ∧ u.isInitiator ≠ t.isInitiator := by
  have hlevel : (s.ends e.other).streamCounter.toNat = (s.ends e).streamCounter.toNat := by
    have := hI.level (e := e) (by rw [hquiet]; rfl)
    rw [hquiet] at this
    exact this
  have hmem : t.streamId.toNat ∈ (s.ends e.other).tasks.map (·.streamId.toNat) := by
    rw [h e.other, hlevel, ← h e]
    exact List.mem_map_of_mem ht
  obtain ⟨u, hu, hid⟩ := List.mem_map.mp hmem
  have hid' : u.streamId = t.streamId := UInt32.toNat_inj.mp hid
  exact ⟨u, hu, hid', (hI.roles e t ht u hu hid'.symm).symm⟩

/-! ## The requests -/

/-- The request that an item is. -/
def Item.request : Item → Option Payload
  | .openStream p => some p
  | _ => none

/-- The request that a stream was opened for. -/
def MplexStream.request (t : MplexStream) : Option Payload :=
  if t.isInitiator then t.proto else none

/-- The requests that an end has been given: those that have become streams, and those on its
queue. -/
def MplexConn.requests (conn : MplexConn Item) : List Payload :=
  conn.tasks.filterMap MplexStream.request ++ conn.mpsc.filterMap Item.request

theorem filterMap_request_set {tasks : List MplexStream} {i : Nat} {t t' : MplexStream}
    (ht : tasks[i]? = some t) (hrole : t'.isInitiator = t.isInitiator)
    (hproto : t'.proto = t.proto) :
    (tasks.set i t').filterMap MplexStream.request = tasks.filterMap MplexStream.request := by
  have hsame : t'.request = t.request := by
    unfold MplexStream.request
    rw [hrole, hproto]
  obtain ⟨hlt, hget⟩ := List.getElem?_eq_some_iff.mp ht
  conv_rhs => rw [← List.take_append_drop i tasks, List.drop_eq_getElem_cons hlt, hget]
  rw [List.set_eq_take_append_cons_drop, if_pos hlt, List.filterMap_append, List.filterMap_append,
    List.filterMap_cons, List.filterMap_cons, hsame]

/-- A turn that puts no request on the queue leaves them as they are, in their order. -/
theorem Turn.requests {conn conn' : MplexConn Item} {expects : Item → Prop} {b : Bool}
    {inn out : List Frame} (h : Turn conn expects conn' b inn out)
    (hx : ∀ i, expects i → i.request = none) : conn'.requests = conn.requests := by
  unfold MplexConn.requests
  cases h with
  | queue i hi =>
    rw [List.filterMap_append, List.filterMap_cons_none (hx i hi), List.filterMap_nil,
      List.append_nil]
  | flush i rest hq hi =>
    rw [hq, List.filterMap_cons_none]
    cases i <;> first | rfl | simp [Item.isInternal] at hi
  | openLocal p rest hq =>
    rw [hq]
    simp [MplexConn.openLocal, frameCodec, Item.request, MplexStream.request]
  | openRemote f hf => simp [MplexConn.openRemote, MplexStream.request]
  | checked | ignored => rfl
  | put f i t hf ht =>
    exact congrArg (· ++ conn.mpsc.filterMap Item.request) (filterMap_request_set ht rfl rfl)
  | task i t t' b q ht hturn =>
    obtain ⟨-, hrole, hproto, -⟩ := hturn.kept
    have hq : q.filterMap Item.request = [] := by
      rw [List.filterMap_eq_nil_iff]
      intro i hi
      obtain ⟨-, hint⟩ := hturn.queues i hi
      cases i <;> first | rfl | simp [Item.isInternal] at hint
    rw [filterMap_request_set ht hrole hproto, List.filterMap_append, hq, List.append_nil]

/-- What an action asks end `e` for. -/
theorem requestsAt_concat (e : End) (as : List LinkAct) (a : LinkAct) :
    requestsAt e (as ++ [a]) = requestsAt e as ++ requestsAt e [a] :=
  List.filterMap_append ..

/-- A turn that asks for nothing. -/
theorem TurnAt.requests {s s' : Link Item Frame} {a : LinkAct} {inn out : List Frame} {e : End}
    (h : TurnAt s s' a inn out) (hno : ∀ i, a.queues = some i → i.request = none)
    (hreq : requestsAt e [a] = []) :
    (s'.ends e).requests = (s.ends e).requests ++ requestsAt e [a] := by
  rw [hreq, List.append_nil]
  rcases End.eq_or_eq_other a.actor e with rfl | rfl
  · exact h.turn.requests fun i hi => hno i hi.1
  · rw [h.other]

/-- **One step** adds what it asks for. -/
theorem step_requests {s s' : Link Item Frame} {a : LinkAct} (hs : s.step frameCodec a = some s')
    (hS : Steady s) (hO : Ordered s) (hg : Undisturbed s a) (e : End) :
    (s'.ends e).requests = (s.ends e).requests ++ requestsAt e [a] := by
  cases a with
  | openReq d p =>
    obtain ⟨conn', hsend, rfl⟩ := Option.map_eq_some_iff.mp hs
    obtain ⟨-, rfl⟩ := send_some hsend
    rcases End.eq_or_eq_other d e with rfl | rfl
    · rw [Link.setEnd_ends_self]
      simp [MplexConn.requests, requestsAt, Item.request]
    · rw [Link.setEnd_ends_other]
      simp [requestsAt]
  | liveliness d =>
    obtain ⟨inn, out, hturn⟩ := step_turn hs hS hO hg
    refine hturn.requests (fun i hi => ?_) rfl
    rw [← Option.some.inj hi]
    rfl
  | recvQueue d | recvRaw d | task d i act =>
    obtain ⟨inn, out, hturn⟩ := step_turn hs hS hO hg
    exact hturn.requests (fun i hi => by simp [LinkAct.queues] at hi) rfl
  | disconnect d p | pingCheckEnd d | rawError d => exact hg.elim

/-! ## What is left to do -/

theorem wireWork_newStream {f : Frame} (hf : f.flag = .newStream) :
    wireWork frameCodec f = 4 := by
  obtain ⟨id, flag, p⟩ := f
  obtain rfl : flag = .newStream := hf
  rfl

theorem wireWork_other {f : Frame} (hf : f.flag ≠ .newStream) : wireWork frameCodec f = 1 := by
  obtain ⟨id, flag, p⟩ := f
  cases flag <;> first | exact absurd rfl hf | rfl

theorem queueWork_plain {i : Item} (hi : i.isInternal = false) :
    queueWork frameCodec i = wireWork frameCodec i.frame + 1 := by
  simp [queueWork, frameCodec, hi]

/-- A turn of a task brings its work down by what it puts on the queue and one more. -/
theorem TaskTurn.work {t t' : MplexStream} {q : List Item}
    (h : TaskTurn t t' true q) :
    t'.work + (q.map (queueWork frameCodec)).sum + 1 ≤ t.work := by
  obtain ⟨id, role, proto, phase, channel, put, sent⟩ := t
  cases h with
  | request p hrole hph hp =>
    obtain rfl : role = true := hrole
    obtain rfl : phase = .negotiating := hph
    exact Nat.le_refl 4
  | start p rest hrole hph hc =>
    obtain rfl : phase = .awaitingRes := hph
    exact Nat.le_refl 1
  | accept p rest hrole hph hc =>
    obtain rfl : role = false := hrole
    obtain rfl : phase = .negotiating := hph
    exact Nat.le_refl 3

/-- **A turn of the connection itself** brings the work down, by one at least. -/
theorem Turn.work {conn conn' : MplexConn Item} {expects : Item → Prop}
    {inn out : List Frame} (h : Turn conn expects conn' true inn out) :
    (conn'.mpsc.map (queueWork frameCodec)).sum + (conn'.tasks.map MplexStream.work).sum
        + (out.map (wireWork frameCodec)).sum + 1
      ≤ (conn.mpsc.map (queueWork frameCodec)).sum + (conn.tasks.map MplexStream.work).sum
        + (inn.map (wireWork frameCodec)).sum := by
  cases h with
  | flush i rest hq hi =>
    rw [hq]
    simp only [List.map_cons, List.map_nil, List.sum_cons, List.sum_nil, queueWork_plain hi]
    omega
  | openLocal p rest hq =>
    rw [hq]
    have hann : queueWork frameCodec (.announce (conn.streamCounter + 1)) = 5 := rfl
    have hopen : queueWork frameCodec (.openStream p) = 10 := rfl
    simp only [MplexConn.openLocal, List.map_append, List.sum_append, List.map_cons, List.map_nil,
      List.sum_cons, List.sum_nil, hopen]
    rw [show frameCodec.make (.announce (conn.streamCounter + 1))
      = .announce (conn.streamCounter + 1) from rfl, hann]
    show _ + (_ + (4 + 0)) + 0 + 1 ≤ _
    omega
  | openRemote f hf =>
    simp only [MplexConn.openRemote, List.map_append, List.sum_append, List.map_cons, List.map_nil,
      List.sum_cons, List.sum_nil, wireWork_newStream hf]
    show _ + (_ + (3 + 0)) + 0 + 1 ≤ _
    omega
  | checked f q hf hp =>
    have hw := wireWork_other (f := f) (by simp [hf])
    simp only [List.map_cons, List.map_nil, List.sum_cons, List.sum_nil, hw]
    omega
  | put f i t hf ht =>
    have hw := wireWork_other (f := f) (by intro hn; simp [hn, MuxedStreamFlag.isData] at hf)
    have hsum := sum_map_set MplexStream.work
      { t with channel := t.channel ++ [f.payload], put := t.put ++ [f.payload] } ht
    have hsame : MplexStream.work
        { t with channel := t.channel ++ [f.payload], put := t.put ++ [f.payload] } = t.work := rfl
    simp only [List.map_cons, List.map_nil, List.sum_cons, List.sum_nil, hw]
    omega
  | ignored f hf =>
    have hw := wireWork_other (f := f) (by intro hn; simp [hn, MuxedStreamFlag.isData] at hf)
    simp only [List.map_cons, List.map_nil, List.sum_cons, List.sum_nil, hw]
    omega
  | task i t t' b q ht hturn =>
    have hsum := sum_map_set MplexStream.work t' ht
    have hwork := hturn.work
    simp only [List.map_append, List.sum_append, List.map_nil, List.sum_nil]
    omega

theorem work_eq {κ φ : Type} (c : Codec κ φ) (s : Link κ φ) (e : End) :
    s.work c = s.workAt c e + s.workAt c e.other := by
  cases e with
  | dialer => rfl
  | listener => exact Nat.add_comm ..

/-- **One step** of the connection itself. -/
theorem TurnAt.work {s s' : Link Item Frame} {a : LinkAct} {inn out : List Frame}
    (h : TurnAt s s' a inn out) (ha : a.internal = true) :
    s'.work frameCodec < s.work frameCodec := by
  obtain ⟨hturn, hother, htaken, hsent⟩ := h
  rw [ha] at hturn
  have hwork := hturn.work
  rw [work_eq frameCodec s a.actor, work_eq frameCodec s' a.actor]
  unfold Link.workAt
  rw [hother, hsent, htaken, List.map_append, List.map_append, List.sum_append, List.sum_append]
  omega

/-! ## Nothing is left -/

section Idle

variable {conn : MplexConn Item}

/-- A task that can go on. -/
theorem taskStep_negotiate_ne_none {i : Nat} {t : MplexStream} (ht : conn.tasks[i]? = some t)
    (hr : conn.running = true)
    (hph : t.isInitiator = true ∧ t.phase = .negotiating ∨
      t.channel ≠ [] ∧ (t.phase = .negotiating ∨ t.isInitiator = true ∧ t.phase = .awaitingRes)) :
    conn.taskStep frameCodec i .negotiate ≠ none := by
  obtain ⟨id, role, proto, phase, channel, put, sent⟩ := t
  have hsend := fun x => send_of_running (i := x) hr
  simp only [MplexConn.taskStep, ht, MplexConn.negotiate, hsend]
  cases role <;> cases phase <;> simp only [reduceCtorEq, Bool.false_eq_true, and_true, and_false,
    or_false, false_or, or_true, ne_eq] at hph ⊢
  · obtain ⟨p, rest, hc⟩ := List.exists_cons_of_ne_nil hph
    obtain rfl : channel = p :: rest := hc
    by_cases hh : conn.hasHandler p = true
    · simp [hh]
    · simp [hh]
  · cases proto <;> simp
  · obtain ⟨p, rest, hc⟩ := List.exists_cons_of_ne_nil hph
    obtain rfl : channel = p :: rest := hc
    simp

theorem recvQueue_ne_none (hr : conn.running = true) (hq : conn.mpsc ≠ []) :
    conn.recvQueue frameCodec ≠ none := by
  obtain ⟨i, rest, hc⟩ := List.exists_cons_of_ne_nil hq
  simp only [MplexConn.recvQueue]
  rw [if_pos hr, hc]
  dsimp only
  cases frameCodec.route i with
  | inr f => simp
  | inl f =>
    dsimp only
    cases MplexConn.handleIncoming frameCodec { conn with mpsc := rest } f with
    | error e => simp
    | ok r =>
      obtain ⟨conn', b⟩ := r
      cases b <;> simp

theorem recvRaw_ne_none (hr : conn.running = true) (f : Frame) :
    conn.recvRaw frameCodec f ≠ none := by
  simp only [MplexConn.recvRaw]
  rw [if_pos hr]
  cases conn.handleIncoming frameCodec f <;> simp

end Idle

/-- Nothing is queued and nothing is on the wire, and no task can go on. -/
theorem Steady.idle {s : Link Item Frame} (h : Steady s)
    (hstuck : (link frameCodec).Stuck (·.internal = true) s) :
    (∀ e, (s.ends e).mpsc = []) ∧ (∀ e, s.inFlight frameCodec e = []) ∧
      ∀ e (i : Nat), (s.ends e).taskStep frameCodec i .negotiate = none := by
  have hmpsc : ∀ e, (s.ends e).mpsc = [] := by
    intro e
    by_contra hne
    have hnone : s.step frameCodec (.recvQueue e) = none := hstuck (.recvQueue e) rfl
    exact recvQueue_ne_none (h.running e) hne (Option.map_eq_none_iff.mp hnone)
  have hwire : ∀ e, s.wire e = [] := by
    intro e
    by_contra hne
    obtain ⟨f, rest, hw⟩ := List.exists_cons_of_ne_nil hne
    have hnone : s.step frameCodec (.recvRaw e) = none := hstuck (.recvRaw e) rfl
    simp only [Link.step, hw] at hnone
    exact recvRaw_ne_none (h.running e) f (Option.map_eq_none_iff.mp hnone)
  refine ⟨hmpsc, fun e => ?_, fun e i => ?_⟩
  · rw [Link.inFlight, hwire, outgoing_eq, hmpsc]
    rfl
  · have hnone : s.step frameCodec (.task e i .negotiate) = none :=
      hstuck (.task e i .negotiate) rfl
    exact Option.map_eq_none_iff.mp hnone

/-- What a stream has got is what the other end's has sent, once nothing is under way. -/
theorem put_eq_sent {s : Link Item Frame} (hS : Steady s) (hO : Ordered s)
    (hquiet : ∀ e, s.inFlight frameCodec e = []) {d : End} {v w : MplexStream}
    (hv : v ∈ (s.ends d).tasks) (hw : w ∈ (s.ends d.other).tasks) (hid : w.streamId = v.streamId) :
    v.put = w.sent := by
  obtain ⟨i, hi⟩ := List.mem_iff_getElem?.mp hv
  have hdis : (s.ends d).Dispatches v.streamId :=
    ⟨hS.running d, .inl (AList.lookup_isSome.mp (by rw [hS.sender d i v hi]; rfl))⟩
  have hdata := hO.data.exact d v.streamId hdis
  rw [hquiet, show payloadsFor v.streamId [] = [] from rfl, List.append_nil] at hdata
  unfold MplexConn.putTo MplexConn.sentBy at hdata
  rw [logOf_mem (hO.ids.ends d).nodup hv, ← hid, logOf_mem (hO.ids.ends d.other).nodup hw]
    at hdata
  exact hdata

/-- **Neither of two tasks of a stream waits for the other** when no turn of the connection itself
is left. -/
theorem handling_of_stuck {s : Link Item Frame} (hS : Steady s) (hO : Ordered s)
    (hC : Consecutive s) (hstuck : (link frameCodec).Stuck (·.internal = true) s) {d : End}
    {v : MplexStream} (hv : v ∈ (s.ends d).tasks) : v.phase = .handling := by
  obtain ⟨-, hquiet, hidle⟩ := hS.idle hstuck
  -- a task that could go on would be a turn
  have stops : ∀ d, ∀ v ∈ (s.ends d).tasks, ¬ (v.isInitiator = true ∧ v.phase = .negotiating ∨
      v.channel ≠ [] ∧
        (v.phase = .negotiating ∨ v.isInitiator = true ∧ v.phase = .awaitingRes)) := by
    intro d v hv hgo
    obtain ⟨i, hi⟩ := List.mem_iff_getElem?.mp hv
    exact taskStep_negotiate_ne_none hi (hS.running d) hgo (hidle d i)
  obtain ⟨w, hw, hid, hrole⟩ := hC.partner hO.ids hquiet hv
  have hput : v.put = w.sent := put_eq_sent hS hO hquiet hv hw hid
  have hback : w.put = v.sent :=
    put_eq_sent hS hO hquiet hw (by rw [End.other_other]; exact hv) hid.symm
  have hTv := hO.tasks d v hv
  have hTw := hO.tasks _ w hw
  have hsent : w.phase = .handling → w.sent ≠ [] := by
    intro hph h0
    obtain ⟨p, -, hs, -⟩ := hTw.handling hph
    simp [h0] at hs
  cases hph : v.phase with
  | handling => rfl
  | ended => exact absurd hph (hS.live d v hv)
  | negotiating =>
    have hinit : v.isInitiator = false := by
      by_contra hr
      exact stops d v hv (.inl ⟨by simpa using hr, hph⟩)
    have hempty : v.channel = [] := by
      by_contra hne
      exact stops d v hv (.inr ⟨hne, .inl hph⟩)
    have hw0 : w.sent = [] := by rw [← hput, ← (hTv.negotiating hph).2, hempty]
    have hwinit : w.isInitiator = true := by
      rw [hinit] at hrole
      simpa using hrole
    cases hwph : w.phase with
    | negotiating => exact absurd (.inl ⟨hwinit, hwph⟩) (stops _ w hw)
    | awaitingRes => exact absurd hw0 (hTw.awaitingRes hwph).2.1
    | handling => exact absurd hw0 (hsent hwph)
    | ended => exact absurd hwph (hS.live _ w hw)
  | awaitingRes =>
    obtain ⟨hinit, hvsent, hchan⟩ := hTv.awaitingRes hph
    have hempty : v.channel = [] := by
      by_contra hne
      exact stops d v hv (.inr ⟨hne, .inr ⟨hinit, hph⟩⟩)
    have hw0 : w.sent = [] := by rw [← hput, ← hchan, hempty]
    have hwinit : w.isInitiator = false := by
      rw [hinit] at hrole
      simpa using hrole
    cases hwph : w.phase with
    | negotiating =>
      have hne : w.channel ≠ [] := by
        rw [(hTw.negotiating hwph).2, hback]
        exact hvsent
      exact absurd (.inr ⟨hne, .inl hwph⟩) (stops _ w hw)
    | awaitingRes => simp [(hTw.awaitingRes hwph).1] at hwinit
    | handling => exact absurd hw0 (hsent hwph)
    | ended => exact absurd hwph (hS.live _ w hw)

/-- A stream that is handled is one for a protocol. -/
theorem exists_handlerProtocol {has : Payload → Bool} {t : MplexStream} (h : TaskInv has t)
    (hph : t.phase = .handling) :
    ∃ p, t.handlerProtocol = some p := by
  obtain ⟨p, hp, -, -, -, hproto⟩ := h.handling hph
  unfold MplexStream.handlerProtocol
  rw [if_pos hph]
  by_cases hr : t.isInitiator = true
  · rw [if_pos hr]
    exact ⟨p, hproto hr⟩
  · rw [if_neg hr]
    exact ⟨p, hp⟩

/-- **Every stream is handled at both ends** when no turn of the connection itself is left. -/
theorem settled {s : Link Item Frame} (hS : Steady s) (hO : Ordered s) (hC : Consecutive s)
    (hstuck : (link frameCodec).Stuck (·.internal = true) s) {e : End} {t : MplexStream}
    (ht : t ∈ (s.ends e).tasks) : ∃ p, s.HandledBy e t p := by
  have protocol : ∀ d, ∀ v ∈ (s.ends d).tasks, ∃ p, v.handlerProtocol = some p := fun d v hv =>
    exists_handlerProtocol (hO.tasks d v hv) (handling_of_stuck hS hO hC hstuck hv)
  obtain ⟨p, hp⟩ := protocol e t ht
  obtain ⟨u, hu, hid, -⟩ := hC.partner hO.ids (hS.idle hstuck).2.1 ht
  obtain ⟨q, hq⟩ := protocol _ u hu
  refine ⟨p, hp, u, hu, hid, ?_⟩
  rw [hq, (negotiated_of_inv hO.ids hO.data.ordered hO.tasks).same e t ht u hu hid p q hp hq]

/-! ## Runs -/

/-- **Every run** that nothing disturbs. -/
theorem steady_of_run {as : List LinkAct} {s : Link Item Frame}
    (h : (link frameCodec).RunUnder (Steadily frameCodec) as s) :
    Steady s ∧ Ordered s ∧ Consecutive s ∧ ∀ e, (s.ends e).requests = requestsAt e as := by
  have ordered : ∀ {as s}, (link frameCodec).RunUnder (Steadily frameCodec) as s → Ordered s := by
    intro as s h
    have halone := h.mono fun _ _ hg => hg.1
    exact ⟨idInv_of_run halone, dataInv_of_run halone,
      halone.invariant TasksInv (fun _ => TasksInv.init) fun _ _ _ hT _ hs => hT.step hs⟩
  have hO := ordered h
  induction h with
  | @nil s hi =>
    refine ⟨Steady.init hi, hO, Consecutive.init hi, fun e => ?_⟩
    obtain ⟨-, hs, pc, he⟩ := hi e
    rw [he]
    rfl
  | @snoc as s s' a hrun hg hs ih =>
    have hO₀ := ordered hrun
    obtain ⟨hS, -, hC, hreq⟩ := ih hO₀
    obtain ⟨inn, out, hturn⟩ := step_turn hs hS hO₀ hg.2
    refine ⟨hS.turn hturn hO.ids, hO, hC.step hO₀.ids hg.1 hs, fun e => ?_⟩
    rw [step_requests hs hS hO₀ hg.2 e, hreq e, requestsAt_concat]

/-- Internal turns are not disturbing. -/
theorem undisturbed_of_internal {κ φ : Type} {s : Link κ φ} {a : LinkAct}
    (h : a.internal = true) : Undisturbed s a := by
  cases a with
  | task e i act => cases act <;> trivial
  | recvQueue | recvRaw => trivial
  | _ => simp [LinkAct.internal] at h

/-- The requests and the streams that were opened for them. -/
theorem forall₂_requests {s : Link Item Frame} {e : End} :
    ∀ tasks : List MplexStream, (∀ t ∈ tasks, ∃ p, s.HandledBy e t p) →
      List.Forall₂ (fun p t => s.HandledBy e t p) (tasks.filterMap MplexStream.request)
        (tasks.filter (·.isInitiator)) := by
  intro tasks
  induction tasks with
  | nil => exact fun _ => .nil
  | cons t tasks ih =>
    intro h
    obtain ⟨⟨p, hp⟩, hrest⟩ := List.forall_mem_cons.mp h
    by_cases hr : t.isInitiator = true
    · have hreq : t.request = some p := by
        have hproto := hp.1
        unfold MplexStream.handlerProtocol at hproto
        unfold MplexStream.request
        rw [if_pos hr] at hproto ⊢
        by_cases hph : t.phase = .handling
        · rwa [if_pos hph] at hproto
        · simp [hph] at hproto
      rw [List.filterMap_cons_some hreq, List.filter_cons_of_pos hr]
      exact .cons hp (ih hrest)
    · have hreq : t.request = none := by
        unfold MplexStream.request
        rw [if_neg hr]
      rw [List.filterMap_cons_none hreq, List.filter_cons_of_neg hr]
      exact ih hrest

/-- The work reads the same in both views. -/
theorem work_map (V : UnsignedVarint) (s : Link Item Frame) :
    (s.map (bytesHom V)).work (bytesCodec V) = s.work frameCodec := by
  have hwire : ∀ f, wireWork (bytesCodec V) ((bytesHom V).wire f) = wireWork frameCodec f := by
    intro f
    unfold wireWork
    rw [(bytesHom V).announcedId_map]
  have hqueue : ∀ x, queueWork (bytesCodec V) ((bytesHom V).queue x) = queueWork frameCodec x := by
    intro x
    unfold queueWork
    rw [(bytesHom V).route]
    cases frameCodec.route x with
    | inl f => simp only [Sum.map_inl, (bytesHom V).announcedId_map]
    | inr f => simp only [Sum.map_inr, hwire]
  have hat : ∀ e, (s.map (bytesHom V)).workAt (bytesCodec V) e = s.workAt frameCodec e := by
    intro e
    simp only [Link.workAt, Link.map, MplexConn.map, List.map_map, Function.comp_def, hqueue, hwire]
  unfold Link.work
  rw [hat, hat]

/-- With nothing queued, nothing on the wire and all handlers running, nothing is left. -/
theorem stuck_of_handling {κ φ : Type} {c : Codec κ φ} {s : Link κ φ}
    (hq : ∀ e, (s.ends e).mpsc = []) (hw : ∀ e, s.wire e = [])
    (ht : ∀ e, ∀ t ∈ (s.ends e).tasks, t.phase = .handling) :
    (link c).Stuck (·.internal = true) s := by
  intro a ha
  show s.step c a = none
  cases a with
  | recvQueue e => simp [Link.step, MplexConn.recvQueue, hq]
  | recvRaw e => simp [Link.step, hw]
  | task e i act =>
    cases act with
    | negotiate =>
      simp only [Link.step, Option.map_eq_none_iff, MplexConn.taskStep]
      cases hi : (s.ends e).tasks[i]? with
      | none => rfl
      | some t =>
        have hph := ht e t (List.mem_of_getElem? hi)
        simp only [MplexConn.negotiate, hph]
        cases t.isInitiator <;> rfl
    | _ => simp [LinkAct.internal] at ha
  | _ => simp [LinkAct.internal] at ha

/-- The stream of `oneStream`, up to the end of the negotiation. -/
def openedStream : List LinkAct := oneStream.take 11

theorem openedStream_enabled : ((link (bytesCodec leb128)).exec (Steadily (bytesCodec leb128))
    (Link.fresh ["ping"]) openedStream).isSome = true := by decide +kernel

end Rnet.Mplex
