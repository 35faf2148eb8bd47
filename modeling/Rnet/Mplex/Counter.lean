import Rnet.Mplex.Parsing
import Rnet.Mplex.Recipient

/-!
# The range of the stream counter

`_stream_counter` is a `u32` that a local open increments and an announcement of the peer
overwrites. A frame carries 29 bits of it, since `build_frame` shifts it by three. Ids that
the peer announces are read off such a header and fit; the increment is not checked.

> `announces_iff_counter_low`: in a run of a connection with any peer, every open announces
> the id under which the new stream is registered, and the counter stays within 29 bits,
> exactly if each open finds the counter below 2^29 - 1.

The peer can bring the counter to that bound with one frame. The next open registers its
stream under 2^29 and announces 0, which the peer takes for a request to open a stream.
-/

namespace Rnet.Mplex

open Rnet.Lib (System)
open Rnet.Lib.System (runUnder_of_exec)

/-! ## The counter over one turn -/

section Turn

variable {κ φ : Type} (c : Codec κ φ)

/-- The turn handles a `NewStream` with id 0: `conn_handler` opens a stream. -/
def MplexConn.opens (conn : MplexConn κ) : ConnAct φ → Bool
  | .recvQueue => conn.opensNext c
  | .recvRaw frames => announcedId c frames == some 0
  | _ => false

/-- What a turn does to the counter. -/
inductive CounterTurn (conn conn' : MplexConn κ) : Bool → Prop
  /-- a stream is opened: registered, and announced on the queue -/
  | opened (before : List κ) (hcounter : conn'.streamCounter = conn.streamCounter + 1)
      (hstream : conn'.streams.lookup conn'.streamCounter = some conn.tasks.length)
      (hqueue : conn'.mpsc = before ++ [c.make (.announce conn'.streamCounter)]) :
      CounterTurn conn conn' true
  /-- the peer has announced a stream -/
  | announced (frames : φ) (payload : Payload)
      (hparse : c.parse frames = .ok (conn'.streamCounter, .newStream, payload)) :
      CounterTurn conn conn' false
  | keeps (hcounter : conn'.streamCounter = conn.streamCounter) : CounterTurn conn conn' false

variable {c}

theorem announcedId_of_parse {frames : φ} {id : UInt32} {payload : Payload}
    (h : c.parse frames = .ok (id, .newStream, payload)) : announcedId c frames = some id := by
  unfold announcedId
  rw [h]

theorem putChannel_counter {conn conn' : MplexConn κ} {id : UInt32} {payload : Payload}
    (h : conn.putChannel id payload = .ok conn') :
    conn'.streamCounter = conn.streamCounter := by
  unfold MplexConn.putChannel at h
  split at h
  · rw [← Except.ok.inj h]
  · split at h
    · simp at h
    · split at h
      · simp at h
      · rw [← Except.ok.inj h]

/-- `handle_incoming`, by what it reads. -/
theorem handleIncoming_counter {conn conn' : MplexConn κ} {frames : φ} {b : Bool}
    (h : conn.handleIncoming c frames = .ok (conn', b)) :
    CounterTurn c conn conn' (announcedId c frames == some 0) := by
  unfold MplexConn.handleIncoming at h
  cases hp : c.parse frames with
  | error e =>
    rw [hp] at h
    simp at h
  | ok r =>
    obtain ⟨id, flag, payload⟩ := r
    rw [hp] at h
    dsimp only at h
    have other : flag ≠ .newStream → (announcedId c frames == some 0) = false := by
      intro hne
      unfold announcedId
      rw [hp]
      cases flag <;> first | rfl | exact absurd rfl hne
    cases flag with
    | newStream =>
      rw [announcedId_of_parse hp]
      simp only [MplexConn.handleFlag] at h
      by_cases h0 : id = 0
      · rw [if_pos h0] at h
        obtain ⟨rfl, -⟩ := Prod.mk.inj (Except.ok.inj h)
        rw [h0]
        exact .opened _ rfl (AList.lookup_insert ..) rfl
      · rw [if_neg h0] at h
        obtain ⟨rfl, -⟩ := Prod.mk.inj (Except.ok.inj h)
        have hne : ((some id : Option UInt32) == some 0) = false := by
          rw [beq_eq_false_iff_ne]
          exact fun he => h0 (Option.some.inj he)
        rw [hne]
        exact .announced frames payload hp
    | message | handshakeReq | handshakeRes =>
      rw [other (by decide)]
      simp only [MplexConn.handleFlag] at h
      cases hput : conn.putChannel id payload with
      | error e =>
        rw [hput] at h
        simp at h
      | ok conn₁ =>
        rw [hput] at h
        obtain ⟨rfl, -⟩ := Prod.mk.inj (Except.ok.inj h)
        exact .keeps (putChannel_counter hput)
    | closeStream | disconnected =>
      rw [other (by decide)]
      obtain ⟨rfl, -⟩ := Prod.mk.inj (Except.ok.inj h)
      exact .keeps rfl
    | liveliness =>
      rw [other (by decide)]
      simp only [MplexConn.handleFlag] at h
      split at h
      · simp at h
      · obtain ⟨rfl, -⟩ := Prod.mk.inj (Except.ok.inj h)
        exact .keeps rfl

/-- Only the counter, the table, the queue and the number of tasks matter. -/
theorem CounterTurn.of_eq {conn₀ conn conn₁ conn' : MplexConn κ} {b : Bool}
    (h : CounterTurn c conn₀ conn₁ b) (hc₀ : conn₀.streamCounter = conn.streamCounter)
    (ht₀ : conn₀.tasks = conn.tasks) (hc₁ : conn'.streamCounter = conn₁.streamCounter)
    (hs₁ : conn'.streams = conn₁.streams) (hq₁ : conn'.mpsc = conn₁.mpsc) :
    CounterTurn c conn conn' b := by
  cases h with
  | opened before hc hs hq =>
    refine .opened before ?_ ?_ ?_
    · rw [hc₁, hc, hc₀]
    · rw [hs₁, hc₁, hs, ht₀]
    · rw [hq₁, hc₁, hq]
  | announced frames payload hp => exact .announced frames payload (by rw [hc₁]; exact hp)
  | keeps hc => exact .keeps (by rw [hc₁, hc, hc₀])

/-- A frame that makes `handle_incoming` fail opens nothing. -/
theorem handleIncoming_error {conn : MplexConn κ} {frames : φ} {e : Fault}
    (h : conn.handleIncoming c frames = .error e) : (announcedId c frames == some 0) = false := by
  rw [beq_eq_false_iff_ne]
  intro hann
  unfold announcedId at hann
  unfold MplexConn.handleIncoming at h
  split at hann
  · rename_i hp
    rw [hp, Option.some.inj hann] at h
    simp [MplexConn.handleFlag] at h
  · simp at hann

/-- The next entry of the queue decides what its turn does. -/
theorem opens_recvQueue {conn : MplexConn κ} {data : κ} {rest : List κ}
    (hmpsc : conn.mpsc = data :: rest) :
    conn.opens c .recvQueue =
      (c.route data).elim (fun f => announcedId c f == some 0) fun _ => false := by
  show conn.opensNext c = _
  cases hroute : c.route data <;> simp [MplexConn.opensNext, hmpsc, hroute]

/-- **One turn**: a stream is opened by the turns that handle a `NewStream` with id 0, and
by no other. -/
theorem step_counter {conn conn' : MplexConn κ} {a : ConnAct φ}
    (hs : conn.step c a = some conn') : CounterTurn c conn conn' (conn.opens c a) := by
  have sent : ∀ {i : Item}, conn.send c i = some conn' → CounterTurn c conn conn' false := by
    intro i hsend
    obtain rfl := send_shape hsend
    exact .keeps rfl
  cases a with
  | openReq p => exact sent hs
  | disconnect p => exact sent hs
  | liveliness =>
    simp only [MplexConn.step] at hs
    split at hs
    · exact sent hs
    · simp at hs
  | pingCheckEnd =>
    obtain rfl := Option.some.inj hs
    exact .keeps rfl
  | rawError =>
    simp only [MplexConn.step] at hs
    split at hs
    · obtain rfl := Option.some.inj hs
      exact .keeps rfl
    · simp at hs
  | task k a => exact .keeps (taskStep_shape hs).1.counter
  | recvRaw frames =>
    simp only [MplexConn.step, MplexConn.recvRaw] at hs
    split at hs
    · split at hs
      · rename_i hin
        obtain rfl := Option.some.inj hs
        rw [show conn.opens c (.recvRaw frames) = false from handleIncoming_error hin]
        exact .keeps rfl
      · rename_i hin
        obtain rfl := Option.some.inj hs
        exact handleIncoming_counter hin
    · simp at hs
  | recvQueue =>
    obtain ⟨⟨conn₁, w⟩, hq, rfl⟩ := Option.map_eq_some_iff.mp hs
    unfold MplexConn.recvQueue at hq
    split at hq
    swap
    · simp at hq
    split at hq
    · simp at hq
    · rename_i data rest hmpsc
      rw [opens_recvQueue hmpsc]
      split at hq
      · rename_i frame hroute
        obtain ⟨rfl, -⟩ := Prod.mk.inj (Option.some.inj hq)
        rw [hroute, Sum.elim_inr]
        exact .keeps rfl
      · rename_i frames hroute
        rw [hroute, Sum.elim_inl]
        split at hq
        · rename_i hin
          obtain ⟨rfl, -⟩ := Prod.mk.inj (Option.some.inj hq)
          rw [handleIncoming_error hin]
          exact .keeps rfl
        · rename_i hin
          obtain ⟨rfl, -⟩ := Prod.mk.inj (Option.some.inj hq)
          exact (handleIncoming_counter hin).of_eq rfl rfl rfl rfl rfl
        · rename_i hin
          obtain ⟨rfl, -⟩ := Prod.mk.inj (Option.some.inj hq)
          exact (handleIncoming_counter hin).of_eq rfl rfl rfl rfl rfl

end Turn

/-! ## Byte strings -/

section Bytes

variable (V : UnsignedVarint)

/-- An id that the peer sends has 29 bits. -/
theorem extractPayload_id_lt {frames : List UInt8} {id : UInt32} {flag : MuxedStreamFlag}
    {payload : Payload} (h : extractPayload V frames = .ok (id, flag, payload)) :
    id.toNat < 2 ^ 29 := by
  rcases extractPayload_cases V frames with ⟨msg, herr, -⟩ |
    ⟨header_val, remaining, payload_len, payload_after_len, flag', header_len, -, -, -, -, hext⟩
  · rw [herr] at h
    exact nomatch h
  · rw [hext] at h
    split at h
    · obtain ⟨rfl, -⟩ := Prod.mk.inj (Except.ok.inj h)
      have hlt := header_val.toNat_lt
      rw [UInt32.toNat_shiftRight, show (3 : UInt32).toNat % 32 = 3 from rfl,
        Nat.shiftRight_eq_div_pow]
      omega
    · exact nomatch h

/-- The announcement of stream `id`, as it is queued: `conn_handler` writes it to the wire. -/
theorem announce_route (id : UInt32) :
    (bytesCodec V).route ((bytesCodec V).make (.announce id)) =
      .inr (buildFrame V id .newStream []) := by
  have hp : INTERNAL.isPrefixOf (buildFrame V id .newStream []) = false :=
    buildFrame_not_internal V id .newStream [] fun _ => rfl
  show (if INTERNAL.isPrefixOf (buildFrame V id .newStream []) = true then _ else _) = _
  rw [if_neg (by rw [hp]; exact Bool.false_ne_true)]
  rfl

/-- The peer reads it as the announcement of the id cut to 29 bits. -/
theorem announce_parse (id : UInt32) :
    (bytesCodec V).parse (buildFrame V id .newStream []) =
      .ok (wireId id, .newStream, Payload.empty) := by
  have := extractPayload_buildFrame V id .newStream Payload.empty []
  rw [List.append_nil] at this
  exact this

/-- What an open is to do. The last item of the queue goes to the wire, and the peer reads it
as the announcement of the id under which the new stream is registered, which is not 0; and
no turn takes the counter out of 29 bits. -/
def AnnouncesOwnId (conn : MplexConn (List UInt8)) (a : ConnAct (List UInt8)) : Prop :=
  ∀ conn', conn.step (bytesCodec V) a = some conn' →
    conn'.streamCounter.toNat < 2 ^ 29 ∧
    (conn.opens (bytesCodec V) a = true →
      ∃ before queued frame id, conn'.mpsc = before ++ [queued] ∧
        (bytesCodec V).route queued = .inr frame ∧
        (bytesCodec V).parse frame = .ok (id, .newStream, Payload.empty) ∧
        conn'.streams.lookup id = some conn.tasks.length ∧ id ≠ 0)

/-- An open finds the counter below the last id that fits a frame. -/
def CounterLow (conn : MplexConn (List UInt8)) (a : ConnAct (List UInt8)) : Prop :=
  conn.opens (bytesCodec V) a = true → conn.streamCounter.toNat + 1 < 2 ^ 29

variable {V}

theorem toNat_succ_of_lt {n : UInt32} (h : n.toNat < 2 ^ 29) :
    (n + 1).toNat = n.toNat + 1 := by
  rw [UInt32.toNat_add, show (1 : UInt32).toNat = 1 from rfl, Nat.mod_eq_of_lt (by omega)]

/-- **One turn** from a counter within 29 bits: an open announces its own id, and the counter
stays within them, exactly if the open finds the counter low. -/
theorem announces_iff_low {conn conn' : MplexConn (List UInt8)} {a : ConnAct (List UInt8)}
    (hI : conn.streamCounter.toNat < 2 ^ 29) (hs : conn.step (bytesCodec V) a = some conn') :
    AnnouncesOwnId V conn a ↔ CounterLow V conn a := by
  have hturn := step_counter hs
  unfold CounterLow
  constructor
  · intro h hopen
    rw [hopen] at hturn
    have hlt := (h conn' hs).1
    cases hturn with
    | opened before hc hstream hq =>
      rw [hc, toNat_succ_of_lt hI] at hlt
      exact hlt
  · intro h conn₁ hs₁
    obtain rfl : conn' = conn₁ := Option.some.inj (hs.symm.trans hs₁)
    generalize hb : conn.opens (bytesCodec V) a = b at hturn h ⊢
    cases hturn with
    | opened before hc hstream hq =>
      have hn : conn'.streamCounter.toNat = conn.streamCounter.toNat + 1 := by
        rw [hc, toNat_succ_of_lt hI]
      have hlt : conn'.streamCounter.toNat < 2 ^ 29 := by
        rw [hn]
        exact h rfl
      refine ⟨hlt, fun _ => ⟨before, _, _, conn'.streamCounter, hq, announce_route V _, ?_,
        hstream, fun h0 => ?_⟩⟩
      · rw [announce_parse, wireId_of_lt hlt]
      · rw [h0] at hn
        exact absurd hn (Nat.ne_of_lt (Nat.succ_pos _))
    | announced frames payload hp => exact ⟨extractPayload_id_lt V hp, fun h => nomatch h⟩
    | keeps hc =>
      rw [hc]
      exact ⟨hI, fun h => nomatch h⟩

/-- **The stream counter.** In a run of a connection with any peer, every open announces the
id of its stream, which is not 0, and the counter stays within 29 bits, exactly if every
open finds the counter below 2^29 - 1. -/
theorem announces_iff_counter_low (V : UnsignedVarint) {conn₀ : MplexConn (List UInt8)}
    (h₀ : (mplexConn (bytesCodec V)).init conn₀) (as : List (ConnAct (List UInt8))) :
    (mplexConn (bytesCodec V)).Guarded (AnnouncesOwnId V) conn₀ as ↔
      (mplexConn (bytesCodec V)).Guarded (CounterLow V) conn₀ as := by
  have hinit : conn₀.streamCounter.toNat < 2 ^ 29 := by
    obtain ⟨handlers, pingCheck, rfl⟩ := h₀
    show (0 : UInt32).toNat < 2 ^ 29
    decide
  refine ⟨System.guarded_of_invariant (fun conn => conn.streamCounter.toNat < 2 ^ 29) ?_ as _ hinit,
    System.guarded_of_invariant (fun conn => conn.streamCounter.toNat < 2 ^ 29) ?_ as _ hinit⟩
  · intro conn a conn' hI h hs
    exact ⟨(h conn' hs).1, (announces_iff_low hI hs).mp h⟩
  · intro conn a conn' hI h hs
    have ha := (announces_iff_low hI hs).mpr h
    exact ⟨(ha conn' hs).1, ha⟩

end Bytes

/-- Two streams are opened, with an announcement of the peer between them. -/
theorem announces_iff_counter_low_mixed :
    (mplexConn (bytesCodec leb128)).Guarded (AnnouncesOwnId leb128) {}
        [.openReq ⟨ascii "ping", by decide⟩, .recvQueue,
          .recvRaw (buildFrame leb128 536870910 .newStream []), .recvQueue] ↔
      (mplexConn (bytesCodec leb128)).Guarded (CounterLow leb128) {}
        [.openReq ⟨ascii "ping", by decide⟩, .recvQueue,
          .recvRaw (buildFrame leb128 536870910 .newStream []), .recvQueue] :=
  announces_iff_counter_low leb128 ⟨[], none, rfl⟩ _

/-- The peer announces the last id, and `SwarmInner::new_stream` asks for a stream. -/
def lastIdAnnounced : List (ConnAct (List UInt8)) :=
  [.recvRaw (buildFrame leb128 536870911 .newStream []), .openReq ⟨ascii "ping", length_ping⟩]

theorem lastIdAnnounced_enabled :
    (((mplexConn (bytesCodec leb128)).exec (fun _ _ => True) {} lastIdAnnounced).bind fun conn =>
      conn.step (bytesCodec leb128) .recvQueue).any (fun conn' =>
        conn'.streamCounter == 536870912 && conn'.streams.lookup 536870912 == some 1 &&
          conn'.mpsc == [[1, 0]]) = true := by decide +kernel

/-- **The counter past the frame.** The open that follows registers its stream under 2^29, and
its announcement reads 0. -/
theorem last_id_announces_zero :
    ¬ ((mplexConn (bytesCodec leb128)).Guarded (AnnouncesOwnId leb128) {}
        (lastIdAnnounced ++ [.recvQueue])) ∧
      extractPayload leb128 [1, 0] = .ok (0, .newStream, Payload.empty) := by
  refine ⟨fun h => ?_, rfl⟩
  obtain ⟨conn', hrun, hconn'⟩ := (Option.any_eq_true ..).mp lastIdAnnounced_enabled
  obtain ⟨conn, hexec, hstep⟩ := Option.bind_eq_some_iff.mp hrun
  have hlt := (h.last _ hexec hstep conn' hstep).1
  simp only [Bool.and_eq_true, beq_iff_eq] at hconn'
  rw [hconn'.1.1] at hlt
  exact absurd hlt (by decide)

end Rnet.Mplex
