import Rnet.Lib.Refinement
import Rnet.Mplex.Negotiation
import Rnet.Tcp.Handler

/-!
# A two-ended mplex connection over TCP

Both ends of a connection as `TcpHandler`s: what `conn_handler` of one end takes from its queue
for the wire is written by `send_bytes` to the byte stream towards the other end, whose
`recv_msg` reads it piece by piece. `SecureConn` and `RawConnection` are between the two and pass
messages on as they are.

> `tcp_refines_link`: a run in which the queue branch wins only over a read that has taken nothing
> is a run of `link`, in which a frame arrives as a whole; the frames on the wire there are the
> bytes that are unread here.

> `tcp_streams`: so what holds of the streams of a `link` holds over
> TCP, however the kernel cuts the stream into reads.
-/

namespace Rnet.Tcp

open Rnet.Lib Rnet.Mplex
open Rnet.Lib.System (Refinement runUnder_of_exec)

/-- Both ends of a connection over TCP. -/
structure TcpLink where
  ends : End → TcpHandler := fun _ => {}

/-- One turn of one task, or of the kernel. -/
inductive TcpLinkAct
  /-- the `TcpStream::read` that end `e` awaits returns `n` bytes -/
  | read (e : End) (n : Nat)
  /-- any other turn; a frame is only ever received by `read` -/
  | turn (a : LinkAct)
  deriving DecidableEq

namespace TcpLink

variable (V : UnsignedVarint)

def setEnd (s : TcpLink) (e : End) (h : TcpHandler) : TcpLink :=
  ⟨Function.update s.ends e h⟩

/-- Another state of the connection itself. -/
def setConn (s : TcpLink) (e : End) (conn : MplexConn (List UInt8)) : TcpLink :=
  s.setEnd e { s.ends e with conn := conn }

/-- `raw_conn.write(msg)` at end `e`, down to `send_bytes`. -/
def write (s : TcpLink) (e : End) (msg : List UInt8) : TcpLink :=
  s.setEnd e.other { s.ends e.other with
    stream := (s.ends e.other).stream ++ sendBytes msg
    sent := (s.ends e.other).sent ++ [msg] }

/-- The write of a frame, if there is one. -/
def transmit (s : TcpLink) (e : End) : Option (List UInt8) → TcpLink
  | none => s
  | some msg => s.write e msg

/-- One turn. -/
def step (s : TcpLink) : TcpLinkAct → Option TcpLink
  | .read e n => ((s.ends e).step V (.read n)).map fun h => s.setEnd e h
  | .turn (.recvRaw _) => none
  | .turn (.recvQueue e) =>
    ((s.ends e).conn.recvQueue (bytesCodec V)).map fun r =>
      -- the pending read is dropped, with what it had taken
      (s.setEnd e { s.ends e with conn := r.1, reading := .start }).transmit e r.2
  | .turn (.openReq e protocol) =>
    ((s.ends e).conn.send (bytesCodec V) (.openStream protocol)).map fun conn => s.setConn e conn
  | .turn (.task e h a) =>
    ((s.ends e).conn.taskStep (bytesCodec V) h a).map fun conn => s.setConn e conn
  | .turn (.liveliness e) =>
    if (s.ends e).conn.pingCheck.isSome then
      ((s.ends e).conn.send (bytesCodec V) .liveliness).map fun conn => s.setConn e conn
    else none
  | .turn (.disconnect e payload) =>
    ((s.ends e).conn.send (bytesCodec V) (.disconnect payload)).map fun conn => s.setConn e conn
  | .turn (.pingCheckEnd e) => some (s.setConn e { (s.ends e).conn with pingCheck := none })
  | .turn (.rawError e) =>
    if (s.ends e).conn.running then
      some (s.setConn e { (s.ends e).conn with running := false })
    else none

/-- The connection as a `Link`: on the wire are the messages sent and not yet handled. -/
def view (s : TcpLink) : Link (List UInt8) (List UInt8) where
  ends e := (s.ends e).conn
  wire e := (s.ends e).sent.drop (s.ends e).handled.length

end TcpLink

/-- A connection over TCP: fresh ends, nothing written. -/
def tcpLink (V : UnsignedVarint) : System TcpLink TcpLinkAct where
  init s := ∀ e, ∃ handlers pingCheck,
    s.ends e = { conn := { handlers := handlers, pingCheck := pingCheck } }
  step s a := s.step V a

/-- The queue branch wins only over a read that has taken nothing, and what it writes fits the
header. -/
def Whole (V : UnsignedVarint) (s : TcpLink) : TcpLinkAct → Prop
  | .turn (.recvQueue e) => (s.ends e).reading.taken = [] ∧
      ∀ f ∈ ((s.ends e).conn.recvQueue (bytesCodec V)).bind Prod.snd, f.length < 2 ^ 32
  | _ => True

instance (V : UnsignedVarint) (s : TcpLink) (a : TcpLinkAct) : Decidable (Whole V s a) := by
  unfold Whole
  split <;> infer_instance

/-- The turns of a `Link` that show: all but the arrival of a frame. -/
def shownTurn : LinkAct → Option LinkAct
  | .recvRaw _ => none
  | a => some a

/-- The turns over TCP that show: all but the reads. -/
def TcpLinkAct.shown : TcpLinkAct → Option LinkAct
  | .read _ _ => none
  | .turn a => shownTurn a

/-! ## The parts of a turn in the view -/

namespace TcpLink

@[simp] theorem setEnd_self (s : TcpLink) (e : End) (h : TcpHandler) :
    (s.setEnd e h).ends e = h := Function.update_self ..

@[simp] theorem setEnd_other (s : TcpLink) (e : End) (h : TcpHandler) :
    (s.setEnd e h).ends e.other = s.ends e.other := Function.update_of_ne (End.other_ne e) ..

/-- The connections in the view. -/
theorem view_setEnd_ends (s : TcpLink) (e : End) (h : TcpHandler) :
    (s.setEnd e h).view.ends = Function.update s.view.ends e h.conn := by
  funext d
  simp only [view]
  rcases End.eq_or_eq_other e d with rfl | rfl
  · rw [setEnd_self, Function.update_self]
  · rw [setEnd_other, Function.update_of_ne (End.other_ne e)]

/-- An end that keeps what it was sent and handled only changes its connection. -/
theorem view_setEnd {s : TcpLink} {e : End} {h : TcpHandler} (hsent : h.sent = (s.ends e).sent)
    (hhandled : h.handled = (s.ends e).handled) :
    (s.setEnd e h).view = s.view.setEnd e h.conn := by
  have hwire : (s.setEnd e h).view.wire = s.view.wire := by
    funext d
    simp only [view]
    rcases End.eq_or_eq_other e d with rfl | rfl
    · rw [setEnd_self, hsent, hhandled]
    · rw [setEnd_other]
  exact congrArg₂ Link.mk (view_setEnd_ends s e h) hwire

/-- An end that handles a message takes the first frame off the wire. -/
theorem view_handled {s : TcpLink} {e : End} {h : TcpHandler} {frames : List UInt8}
    {rest : List (List UInt8)} (hsent : h.sent = (s.ends e).sent)
    (hhandled : h.handled = (s.ends e).handled ++ [frames])
    (hrest : (s.ends e).handled ++ [frames] ++ rest = (s.ends e).sent) :
    (s.setEnd e h).view =
      { s.view.setEnd e h.conn with wire := Function.update s.view.wire e rest } := by
  have hwire : (s.setEnd e h).view.wire = Function.update s.view.wire e rest := by
    funext d
    simp only [view]
    rcases End.eq_or_eq_other e d with rfl | rfl
    · rw [setEnd_self, Function.update_self, hsent, hhandled, ← hrest, List.drop_left]
    · rw [setEnd_other, Function.update_of_ne (End.other_ne e)]
  exact congrArg₂ Link.mk (view_setEnd_ends s e h) hwire

theorem view_setConn (s : TcpLink) (e : End) (conn : MplexConn (List UInt8)) :
    (s.setConn e conn).view = s.view.setEnd e conn := view_setEnd rfl rfl

end TcpLink

/-! ## The refinement -/

/-- No byte is lost in either direction. -/
def TcpLink.Inv (s : TcpLink) : Prop := ∀ e, ByteInv (s.ends e)

namespace TcpLink

variable {V : UnsignedVarint}

theorem Inv.setEnd {s : TcpLink} (h : s.Inv) {e : End} {t : TcpHandler} (ht : ByteInv t) :
    (s.setEnd e t).Inv := by
  intro d
  rcases End.eq_or_eq_other e d with rfl | rfl
  · rw [setEnd_self]
    exact ht
  · rw [setEnd_other]
    exact h e.other

theorem Inv.setConn {s : TcpLink} (h : s.Inv) (e : End) (conn : MplexConn (List UInt8)) :
    (s.setConn e conn).Inv :=
  h.setEnd ⟨(h e).balance, (h e).wf, (h e).handledLt, (h e).sentLt⟩

/-- A frame that is written joins the wire. -/
theorem view_write {s : TcpLink} (h : s.Inv) (e : End) (msg : List UInt8) :
    (s.write e msg).view = s.view.transmit e (some msg) := by
  have hlen := (h e.other).isPrefix.length_le
  simp only [view, write, Link.transmit, Link.mk.injEq]
  constructor
  · funext d
    rcases End.eq_or_eq_other e.other d with rfl | rfl
    · rw [setEnd_self]
    · rw [setEnd_other]
  · funext d
    rcases End.eq_or_eq_other e.other d with rfl | rfl
    · rw [setEnd_self, Function.update_self]
      exact List.drop_append_of_le_length hlen
    · rw [setEnd_other, Function.update_of_ne (End.other_ne e.other)]

theorem Inv.write {s : TcpLink} (h : s.Inv) {e : End} {msg : List UInt8}
    (hlt : msg.length < 2 ^ 32) : (s.write e msg).Inv := by
  refine h.setEnd ?_
  have hstep := (h e.other).step (V := leb128) (a := .sendBytes msg) hlt rfl
  exact ⟨hstep.balance, hstep.wf, hstep.handledLt, hstep.sentLt⟩

/-- **A read** shows nothing, or ends a message: then it is the first one on the wire that
arrives. -/
theorem read_view {s : TcpLink} (h : s.Inv) {e : End} {n : Nat} {t : TcpHandler}
    (ht : (s.ends e).step V (.read n) = some t) :
    (s.setEnd e t).view = s.view ∨
      s.view.step (bytesCodec V) (.recvRaw e) = some (s.setEnd e t).view := by
  have hbyte := (h e).read ht
  simp only [TcpHandler.step, Option.ite_none_right_eq_some] at ht
  obtain ⟨-, ht⟩ := ht
  cases hr : (s.ends e).reading.resume ((s.ends e).stream.take n) with
  | inl r =>
    rw [hr] at ht
    obtain rfl := Option.some.inj ht
    refine .inl ?_
    have hview : (s.setEnd e { s.ends e with
        reading := r, stream := (s.ends e).stream.drop n }).view
        = s.view.setEnd e (s.ends e).conn := view_setEnd rfl rfl
    rw [hview]
    exact congrArg (fun ends => (⟨ends, s.view.wire⟩ : Link _ _)) (Function.update_eq_self e _)
  | inr frames =>
    rw [hr] at ht
    obtain ⟨conn, hconn, rfl⟩ := Option.map_eq_some_iff.mp ht
    refine .inr ?_
    -- what is handled stays a prefix of what was sent, so the message is the next one
    obtain ⟨rest, hrest⟩ : (s.ends e).handled ++ [frames] <+: (s.ends e).sent := hbyte.isPrefix
    have hfirst : s.view.wire e = frames :: rest := by
      show (s.ends e).sent.drop _ = _
      rw [← hrest, List.append_assoc, List.drop_left]
      rfl
    simp only [Link.step, hfirst]
    rw [show (s.view.ends e).recvRaw (bytesCodec V) frames = some conn from hconn, Option.map_some]
    refine congrArg some (Eq.symm ?_)
    exact view_handled rfl rfl hrest

/-- What a turn other than a read does to the view and to the bytes. -/
theorem turn_view {s s' : TcpLink} (h : s.Inv) {a : LinkAct} (hg : Whole V s (.turn a))
    (hs : s.step V (.turn a) = some s') :
    s'.Inv ∧ shownTurn a = some a ∧ s.view.step (bytesCodec V) a = some s'.view := by
  cases a with
  | recvRaw e => simp [step] at hs
  | recvQueue e =>
    obtain ⟨r, hr, rfl⟩ := Option.map_eq_some_iff.mp hs
    obtain ⟨htaken, hfits⟩ := hg
    -- the dropped read is the one that starts now
    have hstart : (s.ends e).reading = RecvMsg.start := RecvMsg.eq_start_of_taken htaken
    have hI : (s.setEnd e { s.ends e with conn := r.1, reading := .start }).Inv :=
      h.setEnd ⟨by rw [← (h e).balance, hstart], RecvMsg.start_wf, (h e).handledLt, (h e).sentLt⟩
    have hview : (s.setEnd e { s.ends e with conn := r.1, reading := .start }).view
        = s.view.setEnd e r.1 := view_setEnd rfl rfl
    have hstep : s.view.step (bytesCodec V) (.recvQueue e)
        = some ((s.view.setEnd e r.1).transmit e r.2) := by
      show (((s.ends e).conn.recvQueue (bytesCodec V)).map _) = _
      rw [hr]
      rfl
    obtain ⟨conn, out⟩ := r
    cases out with
    | none => exact ⟨hI, rfl, by rw [hstep, ← hview]; rfl⟩
    | some msg =>
      have hlt : msg.length < 2 ^ 32 := hfits msg (by rw [hr]; rfl)
      refine ⟨hI.write hlt, rfl, ?_⟩
      rw [hstep, ← hview]
      exact congrArg some (view_write hI e msg).symm
  | openReq e protocol =>
    obtain ⟨conn, hconn, rfl⟩ := Option.map_eq_some_iff.mp hs
    exact ⟨h.setConn e conn, rfl, by
      rw [view_setConn]
      exact congrArg (Option.map _) hconn⟩
  | task e k act =>
    obtain ⟨conn, hconn, rfl⟩ := Option.map_eq_some_iff.mp hs
    exact ⟨h.setConn e conn, rfl, by
      rw [view_setConn]
      exact congrArg (Option.map _) hconn⟩
  | liveliness e =>
    simp only [step, Option.ite_none_right_eq_some] at hs
    obtain ⟨hp, hs⟩ := hs
    obtain ⟨conn, hconn, rfl⟩ := Option.map_eq_some_iff.mp hs
    refine ⟨h.setConn e conn, rfl, ?_⟩
    rw [view_setConn]
    show (if (s.ends e).conn.pingCheck.isSome = true then _ else none) = _
    rw [if_pos hp]
    exact congrArg (Option.map _) hconn
  | disconnect e payload =>
    obtain ⟨conn, hconn, rfl⟩ := Option.map_eq_some_iff.mp hs
    exact ⟨h.setConn e conn, rfl, by
      rw [view_setConn]
      exact congrArg (Option.map _) hconn⟩
  | pingCheckEnd e =>
    obtain rfl := Option.some.inj hs
    exact ⟨h.setConn e _, rfl, by rw [view_setConn]; rfl⟩
  | rawError e =>
    simp only [step, Option.ite_none_right_eq_some, Option.some.injEq] at hs
    obtain ⟨hr, rfl⟩ := hs
    refine ⟨h.setConn e _, rfl, ?_⟩
    rw [view_setConn]
    show (if (s.ends e).conn.running = true then _ else none) = _
    rw [if_pos hr]
    rfl

theorem Inv.init {s : TcpLink} (hs : (tcpLink V).init s) :
    s.Inv ∧ (link (bytesCodec V)).init s.view := by
  constructor
  · intro e
    obtain ⟨handlers, pingCheck, he⟩ := hs e
    rw [he]
    exact ByteInv.init (V := V) ⟨_, rfl⟩
  · intro e
    obtain ⟨handlers, pingCheck, he⟩ := hs e
    refine ⟨?_, handlers, pingCheck, ?_⟩
    · show (s.ends e).sent.drop _ = []
      rw [he]
      rfl
    · show (s.ends e).conn = _
      rw [he]

end TcpLink

/-- **The refinement**, for any guard on the turns of a `Link` that lets frames arrive. -/
def tcpRefinement (V : UnsignedVarint) (G : Link (List UInt8) (List UInt8) → LinkAct → Prop)
    (hG : ∀ l e, G l (.recvRaw e)) :
    Refinement (link (bytesCodec V)) (tcpLink V) G
      (fun s b => Whole V s b ∧ ∀ a, b = .turn a → G s.view a) shownTurn TcpLinkAct.shown where
  view := TcpLink.view
  Inv := TcpLink.Inv
  start _ ht := TcpLink.Inv.init ht
  keep s b s' hI hD hs := by
    cases b with
    | read e n =>
      obtain ⟨t, ht, rfl⟩ := Option.map_eq_some_iff.mp hs
      exact hI.setEnd ((hI e).read ht)
    | turn a => exact (TcpLink.turn_view hI hD.1 hs).1
  step s b s' hI hD hs := by
    cases b with
    | read e n =>
      obtain ⟨t, ht, rfl⟩ := Option.map_eq_some_iff.mp hs
      rcases TcpLink.read_view hI ht with hview | hview
      · exact .inl ⟨rfl, hview⟩
      · exact .inr ⟨.recvRaw e, rfl, hG _ e, hview⟩
    | turn a =>
      obtain ⟨-, hshown, hview⟩ := TcpLink.turn_view hI hD.1 hs
      exact .inr ⟨a, hshown.trans hshown.symm, hD.2 a rfl, hview⟩

/-- **A connection over TCP is a connection of whole frames.** In every run in which the queue
branch wins only over a read that has taken nothing and no frame has 2³² bytes or more, the two
ends are in a state that a run of `link` with the same turns leads to, and what is unread on the
streams are the frames that are on its wires. -/
theorem tcp_refines_link (V : UnsignedVarint) {bs : List TcpLinkAct} {s : TcpLink}
    (h : (tcpLink V).RunUnder (Whole V) bs s) :
    (∃ as, (link (bytesCodec V)).Run as s.view ∧
      as.filterMap shownTurn = bs.filterMap TcpLinkAct.shown) ∧
    ∀ e, (s.view.wire e).flatMap (frame 4) = (s.ends e).reading.taken ++ (s.ends e).stream := by
  obtain ⟨hI, hrun⟩ := (tcpRefinement V (fun _ _ => True) fun _ _ => trivial).run
    (h.mono fun s b hb => ⟨hb, fun _ _ => trivial⟩)
  refine ⟨hrun, fun e => ?_⟩
  have hbal := (hI e).balance
  obtain ⟨rest, hrest⟩ := (hI e).isPrefix
  have hwire : s.view.wire e = rest := by
    show (s.ends e).sent.drop _ = _
    rw [← hrest, List.drop_left]
  rw [← hrest, List.flatMap_append, List.append_assoc] at hbal
  rw [hwire]
  exact (List.append_cancel_left hbal).symm

/-- End `e` opens the streams, each with an id that fits the header. -/
def OpenedOver (V : UnsignedVarint) (e : End) (s : TcpLink) : TcpLinkAct → Prop
  | .read _ _ => True
  | .turn a => OpenedBy (bytesCodec V) e s.view a

instance (V : UnsignedVarint) (e : End) (s : TcpLink) (a : TcpLinkAct) :
    Decidable (OpenedOver V e s a) := by
  cases a <;> unfold OpenedOver <;> infer_instance

/-- **Streams over TCP.** When one end opens the streams, each with an id that fits the header, an
id names one stream at each end, what a stream has got is a prefix of what the other end's has
sent, and the two handlers of a stream agree on the protocol. -/
theorem tcp_streams (V : UnsignedVarint) {e : End} {bs : List TcpLinkAct} {s : TcpLink}
    (h : (tcpLink V).RunUnder (fun s b => Whole V s b ∧ OpenedOver V e s b) bs s) :
    (∀ d, ((s.ends d).conn.tasks.map (·.streamId)).Nodup) ∧ s.view.InOrder ∧
      s.view.Negotiated := by
  have hG : ∀ l d, OpenedBy (bytesCodec V) e l (.recvRaw d) := by
    refine fun l d => ⟨trivial, fun hopen => ?_⟩
    simp [LinkAct.opensAt] at hopen
  obtain ⟨-, as, hrun, -⟩ := (tcpRefinement V (OpenedBy (bytesCodec V) e) hG).run
    (h.mono fun s b hb => ⟨hb.1, fun a ha => by
      have := hb.2
      rw [ha] at this
      exact this⟩)
  obtain ⟨l, hl, hview⟩ := (bytesHom V).run_view hrun
  have hview : s.view = l.map (bytesHom V) := hview
  obtain ⟨halone, -⟩ :=
    opensAlone_of_openedBy (hl.mono fun l a => (openedBy_map V e l a).mp)
  have hI := idInv_of_run halone
  have hD := dataInv_of_run halone
  have hT : TasksInv l := halone.invariant TasksInv (fun _ => TasksInv.init)
    fun _ _ _ hT _ hs => hT.step hs
  have hids : ∀ d, ((s.view.ends d).tasks.map (·.streamId)).Nodup := by
    rw [hview]
    exact fun d => (hI.ends d).nodup
  refine ⟨hids, ?_, ?_⟩
  · rw [hview]
    exact hD.ordered
  · rw [hview]
    obtain ⟨h₁, h₂, h₃, h₄, h₅⟩ := negotiated_of_inv hI hD.ordered hT
    exact ⟨h₁, h₂, h₃, h₄, h₅⟩

/-- The turns of `oneStream`, where the first announcement comes in three reads. -/
def oneStreamOver : List TcpLinkAct :=
  [.turn (.openReq .dialer ⟨ascii "ping", length_ping⟩), .turn (.recvQueue .dialer),
   .turn (.recvQueue .dialer), .read .listener 3, .read .listener 1, .read .listener 2,
   .turn (.task .dialer 0 .negotiate), .turn (.recvQueue .dialer), .read .listener 4,
   .read .listener 6, .turn (.task .listener 0 .negotiate), .turn (.recvQueue .listener),
   .read .dialer 4, .read .dialer 6, .turn (.task .dialer 0 .negotiate),
   .turn (.task .dialer 0 (.write ⟨ascii "hi", length_hi⟩)), .turn (.recvQueue .dialer),
   .read .listener 4, .read .listener 3]

/-- Two ends that handle `"ping"`. -/
def freshOver : TcpLink := ⟨fun _ => { conn := { handlers := ["ping"] } }⟩

theorem freshOver_init (V : UnsignedVarint) : (tcpLink V).init freshOver :=
  fun _ => ⟨["ping"], none, rfl⟩

theorem oneStreamOver_enabled : ((tcpLink leb128).exec
    (fun s b => Whole leb128 s b ∧ OpenedOver leb128 .dialer s b) freshOver
      oneStreamOver).isSome = true := by decide +kernel

/-- The state after `oneStreamOver`: one byte of the message is still unread. -/
def afterOneStreamOver : TcpLink :=
  ((tcpLink leb128).exec (fun s b => Whole leb128 s b ∧ OpenedOver leb128 .dialer s b) freshOver
    oneStreamOver).get oneStreamOver_enabled

theorem oneStreamOver_run : (tcpLink leb128).RunUnder
    (fun s b => Whole leb128 s b ∧ OpenedOver leb128 .dialer s b) oneStreamOver
      afterOneStreamOver :=
  runUnder_of_exec (freshOver_init leb128) (Option.some_get oneStreamOver_enabled).symm

theorem tcp_refines_link_oneStream :
    ((afterOneStreamOver.ends .listener).stream.length = 1 ∧
      ∃ as, (link (bytesCodec leb128)).Run as afterOneStreamOver.view ∧
        as.filterMap shownTurn = oneStreamOver.filterMap TcpLinkAct.shown) ∧
    ∀ e, (afterOneStreamOver.view.wire e).flatMap (frame 4)
      = (afterOneStreamOver.ends e).reading.taken ++ (afterOneStreamOver.ends e).stream := by
  have h := tcp_refines_link leb128 (oneStreamOver_run.mono fun _ _ hb => hb.1)
  exact ⟨⟨by decide +kernel, h.1⟩, h.2⟩

theorem tcp_streams_oneStream :
    (afterOneStreamOver.ends .dialer).conn.tasks.map (·.phase) = [.handling] ∧
      afterOneStreamOver.view.InOrder ∧ afterOneStreamOver.view.Negotiated :=
  ⟨by decide +kernel, (tcp_streams leb128 oneStreamOver_run).2⟩

end Rnet.Tcp
