import Rnet.Ping.Rounds
import Rnet.Lib.Refinement

/-!
# The coded ping stands for the plain one

Ten packets are one frame of the plain exchange: a request is there once seven of its packets are
written and is taken with the seventh that is read, and an answer with its sixth. What comes
behind is read in vain, and a set that is given up before is never there.

> `coded_refines_plain`: as long as no frame is lost, a run of the coded exchange is a run of the
> plain one with the same RTTs.

> `coded_rtts_paired_iff`: so the RTTs are paired with their own requests under the same
> condition, said of the packets.
-/

namespace Rnet.Ping

open Lib
open Lib.System (runUnder_of_exec)

variable {B : Bincode EncodedPayload EncodedPayload.Short}

/-! ## The places of the packets -/

namespace Lane

/-- Every frame has the place that the frames of its set before it give it. -/
def Placed (fs : List SetFrame) : Prop :=
  ∀ pre f post, fs = pre ++ f :: post → f.place = countSet f.id pre

theorem placed_nil : Placed [] := by
  intro pre f post h
  exact absurd h.symm (by simp)

theorem placed_concat {fs : List SetFrame} {f : SetFrame} (h : Placed fs)
    (hf : f.place = countSet f.id fs) : Placed (fs ++ [f]) := by
  intro pre g post heq
  rcases List.eq_nil_or_concat post with rfl | ⟨post', x, rfl⟩
  · obtain ⟨rfl, hg⟩ := List.append_inj' heq rfl
    obtain rfl : f = g := by simpa using hg
    exact hf
  · rw [List.concat_eq_append, ← List.cons_append, ← List.append_assoc] at heq
    obtain ⟨hfs, -⟩ := List.append_inj' heq rfl
    exact h pre g post' hfs

theorem Placed.of_prefix {fs gs : List SetFrame} (h : Placed gs) (hpre : fs <+: gs) :
    Placed fs := by
  obtain ⟨rest, rfl⟩ := hpre
  intro pre f post heq
  refine h pre f (post ++ rest) ?_
  rw [heq, List.append_assoc, List.cons_append]

/-- A set is placed behind frames of other sets. -/
theorem placed_append_set {id : String} (request : Nat) {set : List EncodedPayload}
    (hid : ∀ p ∈ set, p.id = id) : ∀ {k : Nat} {fs : List SetFrame}, Placed fs →
      countSet id fs = k →
      Placed (fs ++ (set.zipIdx k).map fun p => ⟨p.1.asBytes B, p.1.id, p.2, request⟩) := by
  induction set with
  | nil =>
    intro k fs h _
    rw [List.zipIdx_nil, List.map_nil, List.append_nil]
    exact h
  | cons p set ih =>
    intro k fs h hk
    obtain ⟨hp, hset⟩ := List.forall_mem_cons.mp hid
    rw [List.zipIdx_cons, List.map_cons, List.append_cons]
    refine ih hset (placed_concat h ?_) ?_
    · show k = countSet p.id fs
      rw [hp, hk]
    · rw [countSet_concat, if_pos hp, hk]

/-- The frames are in their places, and those that are not written are the last of their set. -/
structure Numbered (lane : Lane) : Prop where
  placed : Placed lane.frames
  tail : lane.unsent.map (·.place) =
    List.range' (DEFAULT_ENCODE_SET_LEN - lane.unsent.length) lane.unsent.length
  short : lane.unsent.length ≤ DEFAULT_ENCODE_SET_LEN

theorem Numbered.init : Numbered {} where
  placed := placed_nil
  tail := rfl
  short := Nat.zero_le _

variable {lane lane' : Lane}

theorem Numbered.start {n : Nat} (h : Numbered lane) (hc : Carries B n lane) {id : String}
    (hid : id ∉ lane.ids) (hu : lane.unsent = []) {request : Nat} {set : List EncodedPayload}
    (hset : ∀ p ∈ set, p.id = id) (hlen : set.length = DEFAULT_ENCODE_SET_LEN) :
    Numbered (lane.start B request id set) := by
  have hzero : countSet id lane.frames = 0 := by
    apply List.countP_eq_zero.mpr
    intro f hf heq
    have hmem := (hc.sound f hf).2
    rw [of_decide_eq_true heq] at hmem
    exact hid hmem
  constructor
  · rw [frames_start hu]
    exact placed_append_set request hset h.placed hzero
  · show (setFrames B request set).map (·.place) =
      List.range' (DEFAULT_ENCODE_SET_LEN - (setFrames B request set).length)
        (setFrames B request set).length
    rw [length_setFrames, hlen, Nat.sub_self]
    unfold setFrames
    rw [List.map_map, ← hlen]
    exact List.zipIdx_map_snd 0 set
  · show (setFrames B request set).length ≤ _
    rw [length_setFrames, hlen]

/-- The place of the next frame says how many are left. -/
theorem Numbered.next (h : Numbered lane) {f : SetFrame} {rest : List SetFrame}
    (hu : lane.unsent = f :: rest) :
    f.place + rest.length = 9 ∧
      rest.map (·.place) = List.range' (DEFAULT_ENCODE_SET_LEN - rest.length) rest.length := by
  have htail := h.tail
  have hshort := h.short
  rw [hu, List.length_cons] at htail hshort
  rw [List.map_cons, List.range'_succ, List.cons.injEq] at htail
  unfold DEFAULT_ENCODE_SET_LEN at *
  refine ⟨by omega, ?_⟩
  rw [htail.2]
  congr 1
  omega

theorem Numbered.write (h : Numbered lane) {f : SetFrame} {rest : List SetFrame}
    (hu : lane.unsent = f :: rest) :
    Numbered { lane with unsent := rest, queue := lane.queue ++ [f] } where
  placed := by
    have hw : lane.write true = some { lane with unsent := rest, queue := lane.queue ++ [f] } := by
      unfold Lane.write
      rw [hu]
      rfl
    obtain ⟨g, rest', -, -, hframes⟩ := write_true hw
    rw [hframes]
    exact h.placed
  tail := (h.next hu).2
  short := by
    have := h.short
    rw [hu, List.length_cons] at this
    show rest.length ≤ _
    omega

theorem Numbered.abandon (h : Numbered lane) : Numbered lane.abandon where
  placed := h.placed.of_prefix lane.frames_abandon
  tail := rfl
  short := Nat.zero_le _

theorem Numbered.read (h : Numbered lane) (hframes : lane'.frames = lane.frames)
    (hunsent : lane'.unsent = lane.unsent) : Numbered lane' where
  placed := by
    rw [hframes]
    exact h.placed
  tail := by
    rw [hunsent]
    exact h.tail
  short := by
    rw [hunsent]
    exact h.short

/-- The place of the frame that is read is the number of those of its set that were handled. -/
theorem Numbered.head (h : Numbered lane) {f : SetFrame} {rest : List SetFrame}
    (hq : lane.queue = f :: rest) : f.place = countSet f.id lane.handled := by
  refine h.placed lane.handled f (rest ++ lane.unsent) ?_
  unfold frames
  rw [hq, List.cons_append]

end Lane

/-! ## The plain exchange that packets stand for -/

/-- The packets that complete their sets of `n`, as frames of the plain exchange. -/
def plainFrames (n : Nat) (fs : List SetFrame) : List PingFrame :=
  (fs.filter (·.place + 1 = n)).map fun f => ⟨pingPayload, f.request⟩

theorem plainFrames_concat_of {n : Nat} {fs : List SetFrame} {f : SetFrame}
    (h : f.place + 1 = n) :
    plainFrames n (fs ++ [f]) = plainFrames n fs ++ [⟨pingPayload, f.request⟩] := by
  unfold plainFrames
  rw [List.filter_append, List.filter_cons_of_pos (by simpa using h), List.filter_nil,
    List.map_append]
  rfl

theorem plainFrames_concat_ne {n : Nat} {fs : List SetFrame} {f : SetFrame}
    (h : f.place + 1 ≠ n) : plainFrames n (fs ++ [f]) = plainFrames n fs := by
  unfold plainFrames
  rw [List.filter_append, List.filter_cons_of_neg (by simpa using h), List.filter_nil,
    List.append_nil]

theorem plainFrames_cons_of {n : Nat} {fs : List SetFrame} {f : SetFrame}
    (h : f.place + 1 = n) :
    plainFrames n (f :: fs) = ⟨pingPayload, f.request⟩ :: plainFrames n fs := by
  unfold plainFrames
  rw [List.filter_cons_of_pos (by simpa using h), List.map_cons]

theorem plainFrames_cons_ne {n : Nat} {fs : List SetFrame} {f : SetFrame}
    (h : f.place + 1 ≠ n) : plainFrames n (f :: fs) = plainFrames n fs := by
  unfold plainFrames
  rw [List.filter_cons_of_neg (by simpa using h)]

namespace RlncExchange

/-- At least `n` packets of the set that is being written are written. -/
def Written (n : Nat) (lane : Lane) : Prop := lane.unsent.length + n ≤ DEFAULT_ENCODE_SET_LEN

instance (n : Nat) (lane : Lane) : Decidable (Written n lane) := inferInstanceAs (Decidable (_ ≤ _))

/-- The exchange in plain terms. -/
def plain (s : RlncExchange) : Exchange where
  count := s.count
  announced := s.announced
  round := s.round
  -- with seven packets the request can be rebuilt, and the other three are not waited for
  reading := s.exchanging && Written 7 s.requests
  expected := s.expected
  -- an answer of which six packets are written is given, although its exchange goes on
  answered := s.ended + if s.answering ≠ none ∧ Written 6 s.responses then 1 else 0
  held := if Written 6 s.responses then none else s.answering
  requests := (s.countFrame.map fun bytes => ⟨bytes, 0⟩).toList ++ plainFrames 7 s.requests.queue
  responses := plainFrames 6 s.responses.queue
  rtts := s.rtts
  lost := (s.lost.filter fun l => 7 ≤ l.2).map Prod.fst
  dropped := (s.dropped.filter fun d => d.2 < 6).map Prod.fst

/-- What can be observed of a step. -/
def shown : RlncAct → Option ExchangeAct
  | .announce => some .announce
  | .giveUp => some .giveUp
  | .readCount => some .readCount
  | _ => none

/-- The packets are in their places, and those that are being written belong to the exchange. -/
structure Tidy (B : Bincode EncodedPayload EncodedPayload.Short) (s : RlncExchange) : Prop where
  inv : Inv B s
  requests : s.requests.Numbered
  responses : s.responses.Numbered
  asking : ∀ f ∈ s.requests.unsent, f.request = s.round + 1
  writing : ∀ t, s.answering = some t →
    s.responses.unsent ≠ [] ∧ ∀ f ∈ s.responses.unsent, f.request = t
  counted : s.expected ≠ none → s.countFrame = none
  silent : s.announced = false →
    s.expected = none ∧ s.countFrame = none ∧ s.requests.queue = []

theorem Tidy.start (count : UInt32) : Tidy B { count := count } where
  inv := .start count
  requests := .init
  responses := .init
  asking _ hf := absurd hf List.not_mem_nil
  writing t ht := absurd ht.symm (Option.some_ne_none t)
  counted h := absurd rfl h
  silent _ := ⟨rfl, rfl, rfl⟩

variable {s : RlncExchange}

/-- An answer is coded behind the last one. -/
theorem Tidy.rebuilt (h : Tidy B s) (hl : s.listening) {id : PayloadId}
    {draws : Nat → Nat → UInt8} (hf : s.responses.Fresh id.text) {lane : Lane} {f : SetFrame}
    {o : Outcome} (hr : s.requests.read B = some (lane, f, o)) :
    Tidy B (s.rebuilt B id draws lane f o) := by
  have hinv : Inv B (s.rebuilt B id draws lane f o) := h.inv.rebuilt hl hf hr
  obtain ⟨-, hreads, hq, -, hframes, -, hunsent⟩ := h.inv.requests.read (by decide) hr
  have hnum := h.requests.read hframes hunsent
  have hasking : ∀ g ∈ lane.unsent, g.request = s.round + 1 := by
    rw [hunsent]
    exact h.asking
  have hsilent : s.announced = false → s.expected = none ∧ s.countFrame = none ∧
      lane.queue = [] := by
    intro ha
    obtain ⟨-, -, hempty⟩ := h.silent ha
    rw [hempty] at hq
    exact absurd hq.symm (List.cons_ne_nil f lane.queue)
  cases hreads with
  | none hnot hlane =>
    exact { h with inv := hinv, requests := hnum, asking := hasking, silent := hsilent }
  | @returned r hlast hlen hlane hlate =>
    have hne : r ≠ [] := List.ne_nil_of_length_pos (by omega)
    obtain ⟨set, hset, hlen, hall⟩ := formulate_spec hne draws id.text
    have hu := h.inv.silent hl.2
    have hstart : (s.responses.start B f.request id.text set).Numbered :=
      h.responses.start h.inv.responses hf.unused hu (fun p hp => (hall p hp).id) hlen
    simp only [RlncExchange.rebuilt, hset] at hinv ⊢
    refine { h with
      inv := hinv, requests := hnum, responses := hstart, asking := hasking, silent := hsilent,
      writing := fun t ht => ?_ }
    obtain rfl := Option.some.inj ht
    refine ⟨List.ne_nil_of_length_pos ?_, fun g hg => ?_⟩
    · show 0 < (setFrames B f.request set).length
      rw [length_setFrames, hlen]
      decide
    · obtain ⟨q, -, rfl⟩ := List.mem_map.mp hg
      rfl

/-- A frame of an answer is written. -/
theorem Tidy.responded (h : Tidy B s) {t : Nat} (ha : s.answering = some t) {lane : Lane}
    (hw : s.responses.write true = some lane) : Tidy B (s.responded lane) := by
  have hinv := h.inv.responded ha hw
  obtain ⟨f, rest, hu, rfl, -⟩ := Lane.write_true hw
  have hnum := h.responses.write hu
  unfold RlncExchange.responded at hinv ⊢
  split_ifs at hinv ⊢ with hrest
  · exact { h with
      inv := hinv, responses := hnum,
      writing := fun t ht => absurd ht.symm (Option.some_ne_none t) }
  · refine { h with
      inv := hinv, responses := hnum, writing := fun u hu' => ⟨hrest, fun g hg => ?_⟩ }
    refine (h.writing u hu').2 g ?_
    rw [hu]
    exact List.mem_cons_of_mem f hg

/-- Without a loss, the end of a connection leaves the frames alone. -/
theorem cut_eq {k l : Nat} (h : decide (k < s.countFrame.toList.length + s.requests.queue.length ∨
    l < s.responses.queue.length) = false) : s.cut k l = s := by
  have h := of_decide_eq_false h
  rw [not_or, Nat.not_lt, Nat.not_lt] at h
  have hrequests : s.requests.keep (k - s.countFrame.toList.length) = s.requests := by
    unfold Lane.keep
    rw [List.take_of_length_le (by omega)]
  have hresponses : s.responses.keep l = s.responses := by
    unfold Lane.keep
    rw [List.take_of_length_le h.2]
  have hcount : (if k = 0 then none else s.countFrame) = s.countFrame := by
    by_cases hk : k = 0
    · have hnil := List.length_eq_zero_iff.mp
        (show s.countFrame.toList.length = 0 by omega)
      rw [if_pos hk, Option.toList_eq_nil_iff.mp hnil]
    · rw [if_neg hk]
  unfold cut
  rw [hrequests, hresponses, hcount]

/-- Without a loss, the other end is there for what is written. -/
theorem Lossless.conn {a : RlncAct} (hg : s.Lossless a) :
    (a = .announce ∨ a = .write → s.responderConn = true) ∧
      (a = .respond → s.initiatorConn = true) := by
  refine ⟨fun ha => ?_, fun ha => ?_⟩
  · rcases ha with rfl | rfl
    · simpa [loses] using hg.2
    · simpa [loses] using hg.2
  · subst ha
    simpa [loses] using hg.2

/-- **Every step keeps this.** -/
theorem Tidy.step {s' : RlncExchange} {a : RlncAct} (h : Tidy B s) (hg : s.Lossless a)
    (hs : s.step B a = some s') : Tidy B s' := by
  have hinv := h.inv.step hg.1 hs
  cases step_move hs with
  | announce hi ha =>
    obtain ⟨he, -, -⟩ := h.silent ha
    exact { h with
      inv := hinv, counted := fun hne => absurd he hne, silent := fun hx => by simp at hx }
  | noSet hf => exact { h with inv := hinv }
  | @ask id draws hp he ho set hf =>
    obtain ⟨set', hset', hlen, hall⟩ := formulate_pingPayload draws id.text
    obtain rfl := Option.some.inj (hf.symm.trans hset')
    have hfresh : s.requests.Fresh id.text := hg.1
    have hstart : (s.requests.start B (s.round + 1) id.text set).Numbered :=
      h.requests.start h.inv.requests hfresh.unused (h.inv.idle he) (fun p hp => (hall p hp).id)
        hlen
    refine { h with inv := hinv, requests := hstart, asking := fun g hg => ?_ }
    obtain ⟨q, -, rfl⟩ := List.mem_map.mp hg
    rfl
  | write hp he hw =>
    rw [hg.conn.1 (.inr rfl)] at hw
    obtain ⟨f, rest, hu, rfl, -⟩ := Lane.write_true hw
    refine { h with
      inv := hinv, requests := h.requests.write hu, asking := fun g hg => h.asking g ?_,
      silent := fun hx => absurd (hx.symm.trans hp.2.1) (by decide) }
    rw [hu]
    exact List.mem_cons_of_mem f hg
  | @read hw lane f o hr =>
    obtain ⟨-, hreads, hq, -, hframes, -, hunsent⟩ := h.inv.responses.read (by decide) hr
    have hnum := h.responses.read hframes hunsent
    have hwriting : ∀ t, s.answering = some t →
        lane.unsent ≠ [] ∧ ∀ f ∈ lane.unsent, f.request = t := by
      rw [hunsent]
      exact h.writing
    cases hreads with
    | none hnot hlane => exact { h with inv := hinv, responses := hnum, writing := hwriting }
    | returned hlast hlen hlane hlate =>
      refine { h with
        inv := hinv, responses := hnum, writing := hwriting, asking := fun g hg => ?_ }
      rw [show (s.received lane f (.returned _)).requests.unsent = [] from hw.2.2] at hg
      exact absurd hg List.not_mem_nil
  | giveUp hp he =>
    exact { h with
      inv := hinv, requests := h.requests.abandon,
      asking := fun g hg => absurd hg List.not_mem_nil }
  | giveUpReading hw hl => exact absurd hg.2 (by simp [loses])
  | tell hi ho => exact { h with inv := hinv }
  | unheard hw => exact { h with inv := hinv }
  | close hf => exact { h with inv := hinv }
  | cutOff hc => exact { h with inv := hinv }
  | readCount hr he hc =>
    refine { h with inv := hinv, counted := fun _ => rfl, silent := fun ha => ?_ }
    obtain ⟨-, hnone, -⟩ := h.silent ha
    exact absurd (hc.symm.trans hnone) (Option.some_ne_none _)
  | readRequest hl hr => exact h.rebuilt hl hg.1 hr
  | respond hp ha hw =>
    rw [hg.conn.2 rfl] at hw
    exact h.responded ha hw
  | drop hp =>
    exact { h with
      inv := hinv, responses := h.responses.abandon,
      writing := fun t ht => absurd ht.symm (Option.some_ne_none t) }
  | dropReading hl hq => exact absurd hg.2 (by simp [loses])
  | closeResponder => exact { h with inv := hinv }
  | cutOffResponder hc => exact { h with inv := hinv }
  | otherAtInitiator =>
    exact { h with inv := hinv, responses := h.responses.read rfl rfl }
  | otherAtResponder =>
    exact { h with inv := hinv, requests := h.requests.read rfl rfl }
  | initiatorConnEnds =>
    rw [cut_eq hg.2] at hinv ⊢
    exact { h with inv := hinv }
  | responderConnEnds =>
    rw [cut_eq hg.2] at hinv ⊢
    exact { h with inv := hinv }
  | ownerGone => exact { h with inv := hinv }

/-! ## The steps in plain terms -/

/-- While the responder listens, its exchanges in plain terms are those that it has ended. -/
theorem plain_listening (ha : s.answering = none) :
    s.plain.held = none ∧ s.plain.answered = s.ended := by
  refine ⟨?_, ?_⟩
  · show (if Written 6 s.responses then none else s.answering) = none
    rw [ha, ite_self]
  · show s.ended + _ = s.ended
    rw [if_neg fun h => h.1 ha]
    rfl

theorem plain_ponging (hl : s.listening) : s.plain.ponging := by
  obtain ⟨n, he, hlt⟩ := hl.1.2
  refine ⟨n, he, ?_⟩
  rw [(plain_listening hl.2).2]
  exact hlt

/-- A set is coded: nothing of it is there yet. -/
theorem plain_ask (he : s.exchanging = false) (id : String) {set : List EncodedPayload}
    (hlen : set.length = DEFAULT_ENCODE_SET_LEN) :
    plain { s with exchanging := true, requests := s.requests.start B (s.round + 1) id set } =
      s.plain := by
  have hnot : ¬ Written 7 (s.requests.start B (s.round + 1) id set) := by
    show ¬ (setFrames B (s.round + 1) set).length + 7 ≤ _
    rw [length_setFrames, hlen]
    decide
  unfold plain
  dsimp only
  rw [decide_eq_false hnot, he]
  rfl

/-- A packet of a request is written. -/
theorem Tidy.plain_write (h : Tidy B s) (hp : s.pinging) (he : s.exchanging = true) {f : SetFrame}
    {rest : List SetFrame} (hu : s.requests.unsent = f :: rest) :
    let s' := { s with
      requests := { s.requests with unsent := rest, queue := s.requests.queue ++ [f] } }
    s'.plain = s.plain ∨ s.plain.step .write = some s'.plain := by
  intro s'
  obtain ⟨hplace, -⟩ := h.requests.next hu
  have hrequest : f.request = s.round + 1 := by
    refine h.asking f ?_
    rw [hu]
    exact List.mem_cons_self ..
  have hlen : s.requests.unsent.length = rest.length + 1 := by rw [hu, List.length_cons]
  have hw : Written 7 s.requests ↔ rest.length + 1 ≤ 3 := by
    unfold Written DEFAULT_ENCODE_SET_LEN
    omega
  have hw' : Written 7 s'.requests ↔ rest.length ≤ 3 := by
    show rest.length + 7 ≤ 10 ↔ _
    omega
  have hplain : s'.plain = { s.plain with
      reading := s.exchanging && Written 7 s'.requests
      requests := (s.countFrame.map fun bytes => ⟨bytes, 0⟩).toList ++
        plainFrames 7 (s.requests.queue ++ [f]) } := rfl
  by_cases hseven : f.place + 1 = 7
  · right
    have hreading : s.plain.reading = false := by
      show (s.exchanging && decide (Written 7 s.requests)) = false
      rw [decide_eq_false (mt hw.mp (by omega)), Bool.and_false]
    rw [hplain, plainFrames_concat_of hseven, he, decide_eq_true (hw'.mpr (by omega)), hrequest,
      ← List.append_assoc]
    exact if_pos ⟨hp.2, hreading⟩
  · left
    have hsame : decide (Written 7 s'.requests) = decide (Written 7 s.requests) := by
      rw [decide_eq_decide, hw, hw']
      omega
    rw [hplain, plainFrames_concat_ne hseven, hsame]
    rfl

/-- The initiator reads a packet. -/
theorem Tidy.plain_received (h : Tidy B s) (hw : s.awaiting) {lane : Lane} {f : SetFrame}
    {o : Outcome} (hr : s.responses.read B = some (lane, f, o)) :
    s.responses.queue = f :: lane.queue ∧
      (f.place + 1 ≠ 6 ∧ (s.received lane f o).plain = s.plain ∨
        f.place + 1 = 6 ∧ s.plain.step .read = some (s.received lane f o).plain) := by
  obtain ⟨hp, he, hu⟩ := hw
  obtain ⟨-, hreads, hq, -, -, -, hunsent⟩ := h.inv.responses.read (by decide) hr
  refine ⟨hq, ?_⟩
  have hplace := h.responses.head hq
  have hwritten : Written 6 lane = Written 6 s.responses := by
    unfold Written
    rw [hunsent]
  cases hreads with
  | none hnot hlane =>
    have hne : f.place + 1 ≠ 6 := by omega
    refine .inl ⟨hne, ?_⟩
    unfold received plain
    simp only [hwritten, hq, plainFrames_cons_ne hne]
  | returned hlast hlen hlane hlate =>
    have hsix : f.place + 1 = 6 := by omega
    refine .inr ⟨hsix, ?_⟩
    have hreading : s.plain.reading = true := by
      show (s.exchanging && decide (Written 7 s.requests)) = true
      have hw7 : Written 7 s.requests := by
        unfold Written
        rw [hu]
        decide
      rw [he, decide_eq_true hw7]
      rfl
    have hresponses : s.plain.responses = ⟨pingPayload, f.request⟩ :: plainFrames 6 lane.queue := by
      show plainFrames 6 s.responses.queue = _
      rw [hq, plainFrames_cons_of hsix]
    unfold Exchange.step
    dsimp only
    rw [if_pos ⟨hp.2, hreading⟩, hresponses]
    unfold received plain
    simp only [hwritten, Bool.false_and]

/-- The initiator gives its exchange up. -/
theorem plain_givenUp (hp : s.pinging) (he : s.exchanging = true) :
    s.plain.step .giveUp = some s.givenUp.plain := by
  have hlost : (if s.plain.reading then s.plain.lost ++ [s.plain.round + 1] else s.plain.lost) =
      s.givenUp.plain.lost := by
    show (if (s.exchanging && decide (Written 7 s.requests)) = true then _ else _) =
      ((s.lost ++ [(s.round + 1, _)]).filter fun l : Nat × Nat => 7 ≤ l.2).map Prod.fst
    rw [he, Bool.true_and, List.filter_append, List.map_append]
    by_cases hw : Written 7 s.requests
    · rw [if_pos (decide_eq_true hw), List.filter_cons_of_pos]
      · rfl
      · unfold Written at hw
        simp only [decide_eq_true_eq]
        omega
    · rw [if_neg (by simpa using hw), List.filter_cons_of_neg]
      · exact (List.append_nil _).symm
      · unfold Written at hw
        simp only [decide_eq_true_eq]
        omega
  have hplain : s.plain.pinging := hp.2
  show (if s.plain.pinging then some _ else none) = _
  rw [if_pos hplain, hlost]
  rfl

/-- The responder reads the count. -/
theorem plain_readCount (he : s.expected = none) {bytes : List UInt8}
    (hc : s.countFrame = some bytes) :
    s.plain.step .readCount = some (plain { s with
      expected := some (Exchange.parseCount bytes)
      countFrame := none }) := by
  have hexpected : s.plain.expected = none := he
  have hrequests : s.plain.requests = ⟨bytes, 0⟩ :: plainFrames 7 s.requests.queue := by
    show (s.countFrame.map _).toList ++ _ = _
    rw [hc]
    rfl
  unfold Exchange.step
  dsimp only
  rw [hexpected, hrequests]
  rfl

/-- The responder reads a packet. -/
theorem Tidy.plain_rebuilt (h : Tidy B s) (hl : s.listening) {id : PayloadId}
    {draws : Nat → Nat → UInt8} {lane : Lane} {f : SetFrame} {o : Outcome}
    (hr : s.requests.read B = some (lane, f, o)) :
    (s.rebuilt B id draws lane f o).plain = s.plain ∨
      s.plain.step .readRequest = some (s.rebuilt B id draws lane f o).plain := by
  obtain ⟨-, hreads, hq, -, -, -, hunsent⟩ := h.inv.requests.read (by decide) hr
  have hplace := h.requests.head hq
  have hwritten : Written 7 lane = Written 7 s.requests := by
    unfold Written
    rw [hunsent]
  cases hreads with
  | none hnot hlane =>
    left
    have hne : f.place + 1 ≠ 7 := by omega
    unfold RlncExchange.rebuilt plain
    simp only [hwritten, hq, plainFrames_cons_ne hne]
  | @returned r hlast hlen hlane hlate =>
    right
    have hseven : f.place + 1 = 7 := by omega
    have hne : r ≠ [] := List.ne_nil_of_length_pos (by omega)
    obtain ⟨set, hset, hlen, -⟩ := formulate_spec hne draws id.text
    have hcounted : s.countFrame = none := by
      apply h.counted
      obtain ⟨n, he, -⟩ := hl.1.2
      rw [he]
      exact Option.some_ne_none n
    have hrequests : s.plain.requests = ⟨pingPayload, f.request⟩ :: plainFrames 7 lane.queue := by
      show (s.countFrame.map _).toList ++ plainFrames 7 s.requests.queue = _
      rw [hcounted, hq, plainFrames_cons_of hseven]
      rfl
    have hnot : ¬ Written 6 (s.responses.start B f.request id.text set) := by
      show ¬ (setFrames B f.request set).length + 6 ≤ _
      rw [length_setFrames, hlen]
      decide
    unfold Exchange.step
    dsimp only
    rw [if_pos ⟨plain_ponging hl, (plain_listening hl.2).1⟩, hrequests]
    simp only [RlncExchange.rebuilt, hset]
    unfold plain
    simp only [hwritten, hnot, hcounted, hl.2, ne_eq, not_true_eq_false, if_false, and_false,
      false_and]
    rfl

/-- A packet of an answer is written. -/
theorem Tidy.plain_responded (h : Tidy B s) {t : Nat} (ha : s.answering = some t) {f : SetFrame}
    {rest : List SetFrame} (hu : s.responses.unsent = f :: rest) :
    let s' := s.responded
      { s.responses with unsent := rest, queue := s.responses.queue ++ [f] }
    s'.plain = s.plain ∨ s.plain.step .respond = some s'.plain := by
  intro s'
  obtain ⟨hplace, -⟩ := h.responses.next hu
  have hrequest : f.request = t := by
    refine (h.writing t ha).2 f ?_
    rw [hu]
    exact List.mem_cons_self ..
  have hw : Written 6 s.responses ↔ rest.length + 1 ≤ 4 := by
    unfold Written DEFAULT_ENCODE_SET_LEN
    rw [hu, List.length_cons]
    omega
  by_cases hrest : rest = []
  · -- the last packet ends the exchange, which the sixth has ended before
    left
    have hne : f.place + 1 ≠ 6 := by
      rw [hrest, List.length_nil] at hplace
      omega
    have hwritten : Written 6 s.responses := hw.mpr (by rw [hrest]; decide)
    have hs' : s' = { s with
        responses := { s.responses with unsent := rest, queue := s.responses.queue ++ [f] }
        answering := none
        ended := s.ended + 1 } := if_pos hrest
    rw [hs']
    unfold plain
    simp only [plainFrames_concat_ne hne, hwritten, ha, if_true, ne_eq, reduceCtorEq,
      not_false_eq_true, not_true_eq_false, and_self, false_and, if_false, ite_self, Nat.add_zero]
  have hs' : s' = { s with
      responses := { s.responses with unsent := rest, queue := s.responses.queue ++ [f] } } :=
    if_neg hrest
  have hw' : Written 6 s'.responses ↔ rest.length ≤ 4 := by
    rw [hs']
    show rest.length + 6 ≤ 10 ↔ _
    omega
  have hplain : s'.plain = { s.plain with
      answered := s.ended + if s.answering ≠ none ∧ Written 6 s'.responses then 1 else 0
      held := if Written 6 s'.responses then none else s.answering
      responses := plainFrames 6 (s.responses.queue ++ [f]) } := by
    rw [hs']
    rfl
  by_cases hsix : f.place + 1 = 6
  · right
    have hnot : ¬ Written 6 s.responses := mt hw.mp (by omega)
    have hheld : s.plain.held = some t := by
      show (if Written 6 s.responses then none else s.answering) = some t
      rw [if_neg hnot, ha]
    have hanswered : s.plain.answered = s.ended := by
      show s.ended + (if s.answering ≠ none ∧ Written 6 s.responses then 1 else 0) = s.ended
      rw [if_neg fun hx => hnot hx.2, Nat.add_zero]
    have hwritten : Written 6 s'.responses := hw'.mpr (by omega)
    rw [hplain, plainFrames_concat_of hsix, hrequest, if_pos hwritten,
      if_pos ⟨by rw [ha]; exact Option.some_ne_none t, hwritten⟩, ← hanswered]
    unfold Exchange.step
    dsimp only
    rw [hheld]
    rfl
  · left
    have hsame : Written 6 s'.responses ↔ Written 6 s.responses := by
      rw [hw, hw']
      omega
    rw [hplain, plainFrames_concat_ne hsix]
    simp only [hsame]
    rfl

/-- The responder gives its exchange up. -/
theorem plain_dropping (hp : s.ponging) :
    s.dropping.plain = s.plain ∨ s.plain.step .drop = some s.dropping.plain := by
  have hplain : s.dropping.plain = { s.plain with
      answered := s.ended + 1
      held := none
      dropped := (s.dropping.dropped.filter fun d => d.2 < 6).map Prod.fst } := by
    unfold dropping plain
    simp only [ne_eq, not_true_eq_false, false_and, if_false, ite_self, Nat.add_zero]
    rfl
  have hdropped : s.dropping.dropped = s.dropped ++
      (s.answering.map (·, DEFAULT_ENCODE_SET_LEN - s.responses.unsent.length)).toList := rfl
  rw [hplain, hdropped, List.filter_append, List.map_append]
  by_cases hw : s.answering ≠ none ∧ Written 6 s.responses
  · -- the sixth packet has ended the exchange before
    left
    obtain ⟨t, ht⟩ := Option.ne_none_iff_exists'.mp hw.1
    have hlate : ¬ DEFAULT_ENCODE_SET_LEN - s.responses.unsent.length < 6 := by
      have := hw.2
      unfold Written at this
      omega
    unfold plain
    simp only [ht, hw.2, hlate, Option.map_some, Option.toList_some, decide_false,
      List.filter_cons_of_neg, Bool.false_eq_true, not_false_eq_true, List.filter_nil,
      List.map_nil, List.append_nil, ne_eq, reduceCtorEq, and_self, if_true]
  · right
    have hanswered : s.plain.answered = s.ended := by
      show s.ended + (if s.answering ≠ none ∧ Written 6 s.responses then 1 else 0) = s.ended
      rw [if_neg hw, Nat.add_zero]
    have hponging : s.plain.ponging := by
      obtain ⟨n, he, hlt⟩ := hp.2
      exact ⟨n, he, hanswered ▸ hlt⟩
    have hheld : ((s.answering.map
        (·, DEFAULT_ENCODE_SET_LEN - s.responses.unsent.length)).toList.filter
          fun d => d.2 < 6).map Prod.fst = s.plain.held.toList := by
      show _ = (if Written 6 s.responses then none else s.answering).toList
      cases ha : s.answering with
      | none =>
        rw [ite_self]
        rfl
      | some t =>
        have hnot : ¬ Written 6 s.responses := fun hx => hw ⟨by rw [ha]; simp, hx⟩
        have hearly : DEFAULT_ENCODE_SET_LEN - s.responses.unsent.length < 6 := by
          unfold Written at hnot
          omega
        rw [if_neg hnot, Option.map_some, Option.toList_some,
          List.filter_cons_of_pos (by simpa using hearly)]
        rfl
    rw [hheld, ← hanswered]
    exact if_pos hponging

/-! ## The refinement -/

/-- What can be observed of a step of the plain exchange. -/
def seen : ExchangeAct → Option ExchangeAct
  | .announce => some .announce
  | .giveUp => some .giveUp
  | .readCount => some .readCount
  | _ => none

/-- **A step in plain terms**: it is the same step, or none, or one that cannot be observed. -/
theorem Tidy.plain_step (h : Tidy B s) {s' : RlncExchange} {a : RlncAct} (hg : s.Lossless a)
    (hs : s.step B a = some s') :
    (shown a = none ∧ s'.plain = s.plain) ∨
      ∃ b, seen b = shown a ∧ s.plain.step b = some s'.plain := by
  have hidden : ∀ b, seen b = none → shown a = none →
      s'.plain = s.plain ∨ s.plain.step b = some s'.plain →
      (shown a = none ∧ s'.plain = s.plain) ∨
        ∃ b, seen b = shown a ∧ s.plain.step b = some s'.plain := by
    intro b hb ha hor
    exact hor.imp (fun heq => ⟨ha, heq⟩) fun hstep => ⟨b, by rw [hb, ha], hstep⟩
  cases step_move hs with
  | announce hi ha =>
    refine .inr ⟨.announce, rfl, ?_⟩
    obtain ⟨-, hc, hq⟩ := h.silent ha
    rw [hg.conn.1 (.inl rfl), if_pos rfl]
    have hrequests : s.plain.requests = [] := by
      show (s.countFrame.map _).toList ++ plainFrames 7 s.requests.queue = []
      rw [hc, hq]
      rfl
    have hannounced : ¬ s.plain.announced = true := by
      rw [show s.plain.announced = false from ha]
      decide
    show (if s.plain.announced = true then none else some _) = _
    rw [if_neg hannounced, hrequests]
    unfold plain
    simp only [hq]
    rfl
  | noSet hf =>
    obtain ⟨set, hset, -⟩ := formulate_pingPayload _ _
    exact absurd (hf.symm.trans hset).symm (Option.some_ne_none set)
  | @ask id draws hp he ho set hf =>
    obtain ⟨set', hset', hlen, -⟩ := formulate_pingPayload draws id.text
    obtain rfl := Option.some.inj (hf.symm.trans hset')
    exact .inl ⟨rfl, plain_ask he id.text hlen⟩
  | write hp he hw =>
    rw [hg.conn.1 (.inr rfl)] at hw
    obtain ⟨f, rest, hu, rfl, -⟩ := Lane.write_true hw
    exact hidden .write rfl rfl (h.plain_write hp he hu)
  | read hw hr => exact hidden .read rfl rfl ((h.plain_received hw hr).2.imp And.right And.right)
  | giveUp hp he => exact .inr ⟨.giveUp, rfl, plain_givenUp hp he⟩
  | giveUpReading hw hl => exact absurd hg.2 (by simp [loses])
  | tell hi ho => exact .inl ⟨rfl, rfl⟩
  | unheard hw => exact .inl ⟨rfl, rfl⟩
  | close hf => exact .inl ⟨rfl, rfl⟩
  | cutOff hc => exact .inl ⟨rfl, rfl⟩
  | readCount hr he hc => exact .inr ⟨.readCount, rfl, plain_readCount he hc⟩
  | readRequest hl hr => exact hidden .readRequest rfl rfl (h.plain_rebuilt hl hr)
  | respond hp ha hw =>
    rw [hg.conn.2 rfl] at hw
    obtain ⟨f, rest, hu, rfl, -⟩ := Lane.write_true hw
    exact hidden .respond rfl rfl (h.plain_responded ha hu)
  | drop hp => exact hidden .drop rfl rfl (plain_dropping hp)
  | dropReading hl hq => exact absurd hg.2 (by simp [loses])
  | closeResponder => exact .inl ⟨rfl, rfl⟩
  | cutOffResponder hc => exact .inl ⟨rfl, rfl⟩
  | otherAtInitiator => exact .inl ⟨rfl, rfl⟩
  | otherAtResponder => exact .inl ⟨rfl, rfl⟩
  | initiatorConnEnds =>
    rw [cut_eq hg.2]
    exact .inl ⟨rfl, rfl⟩
  | responderConnEnds =>
    rw [cut_eq hg.2]
    exact .inl ⟨rfl, rfl⟩
  | ownerGone => exact .inl ⟨rfl, rfl⟩

end RlncExchange

open RlncExchange in
/-- The coded exchange refines the plain one. -/
def codedRefinement (B : Bincode EncodedPayload EncodedPayload.Short) (count : UInt32) :
    System.Refinement (exchange count) (rlncExchange B count) (fun _ _ => True) Lossless seen
      shown where
  view := plain
  Inv := Tidy B
  start s hs := by
    obtain rfl : s = _ := hs
    exact ⟨.start count, rfl⟩
  keep _ _ _ h hg hs := h.step hg hs
  step s a s' h hg hs := by
    rcases h.plain_step hg hs with hstutter | ⟨b, hb, hstep⟩
    · exact .inl hstutter
    · exact .inr ⟨b, hb, trivial, hstep⟩

/-- **The coded ping is a plain ping.** For every run with fresh ids in which no frame is lost,
there is a run of the plain exchange that announces, reads the count and gives exchanges up at the
same points, and whose state is that of the coded one in plain terms, with the same RTTs. -/
theorem coded_refines_plain (B : Bincode EncodedPayload EncodedPayload.Short) {count : UInt32}
    {as : List RlncAct} {s : RlncExchange}
    (h : (rlncExchange B count).RunUnder RlncExchange.Lossless as s) :
    ∃ bs, (exchange count).Run bs s.plain ∧
      bs.filterMap RlncExchange.seen = as.filterMap RlncExchange.shown :=
  ((codedRefinement B count).run h).2

/-! ## The pairing of the RTTs -/

namespace RlncExchange

/-- Whenever the initiator takes the packet that completes an answer, the exchanges that it has
given up behind the seventh packet of its request are those whose answer the responder has given
up in front of the sixth. -/
def Settled (s : RlncExchange) (a : RlncAct) : Prop :=
  a = .read → (∃ f rest, s.responses.queue = f :: rest ∧ f.place + 1 = 6) →
    ∀ t, t ∈ s.plain.lost ↔ t ∈ s.plain.dropped

/-- An RTT was completed by the answer to another request. -/
def Mispaired (s : RlncExchange) : Prop := ∃ p ∈ s.rtts, p.1 ≠ p.2

variable {s : RlncExchange}

/-- Only a read makes an RTT. -/
theorem rtts_of_step {s' : RlncExchange} {a : RlncAct} (hs : s.step B a = some s')
    (ha : a ≠ .read) : s'.rtts = s.rtts := by
  cases step_move hs with
  | read => exact absurd rfl ha
  | @readRequest id draws _ lane f o =>
    unfold RlncExchange.rebuilt
    cases o with
    | none => rfl
    | panicked => rfl
    | returned r =>
      dsimp only
      cases formulate r draws id.text <;> rfl
  | respond =>
    unfold RlncExchange.responded
    split_ifs <;> rfl
  | _ => rfl

/-- **What a step does to the pairing.** -/
theorem Tidy.step_mispaired_iff (h : Tidy B s) (hp : s.plain.Inv) {s' : RlncExchange} {a : RlncAct}
    (hgood : ¬ s.Mispaired) (hs : s.step B a = some s') : s'.Mispaired ↔ ¬ s.Settled a := by
  by_cases ha : a = .read
  · subst ha
    cases step_move hs with
    | @read hw lane f o hr =>
      obtain ⟨hq, ⟨hne, heq⟩ | ⟨hsix, hstep⟩⟩ := h.plain_received hw hr
      · refine iff_of_false ?_ ?_
        · show ¬ (s.received lane f o).plain.Mispaired
          rw [heq]
          exact hgood
        · intro hn
          refine hn fun _ hc => ?_
          obtain ⟨g, rest, hg, hplace⟩ := hc
          obtain ⟨rfl, -⟩ := List.cons.inj (hg.symm.trans hq)
          exact absurd hplace hne
      · have hiff := Exchange.step_mispaired_iff hp hgood hstep
        refine Iff.trans hiff (not_congr ?_)
        unfold Exchange.Settled Settled
        exact ⟨fun hx _ _ => hx rfl, fun hx _ => hx rfl ⟨f, lane.queue, hq, hsix⟩⟩
  · unfold Mispaired Settled
    rw [rtts_of_step hs ha]
    exact iff_of_false hgood fun hn => hn fun heq => absurd heq ha

end RlncExchange

open RlncExchange in
/-- **The pairing of RTTs with coded packets.** In every run with fresh ids in which no frame is
lost, every RTT is completed by the answer to its own request exactly if, whenever the initiator
takes the packet that completes an answer, the requests that it has given up with at least seven
packets written are those that the responder had rebuilt and given up with fewer than six packets
of the answer written. -/
theorem coded_rtts_paired_iff (B : Bincode EncodedPayload EncodedPayload.Short) (count : UInt32)
    (as : List RlncAct) (hg : (rlncExchange B count).Guarded Lossless { count := count } as) :
    (rlncExchange B count).Avoids Mispaired { count := count } as ↔
      (rlncExchange B count).Guarded Settled { count := count } as := by
  refine System.avoids_iff_guarded_under (I := fun s => Tidy B s ∧ s.plain.Inv)
    (fun s a s' h hP hs => ⟨h.1.step hP hs, ?_⟩)
    (fun s a s' h _ hgood hs => h.1.step_mispaired_iff h.2 hgood hs) as _
    ⟨.start count, .start count⟩ ?_ hg
  · rcases h.1.plain_step hP hs with ⟨-, heq⟩ | ⟨b, -, hstep⟩
    · rw [heq]
      exact h.2
    · exact h.2.step hstep
  · intro hbad
    obtain ⟨p, hp, -⟩ := hbad
    exact absurd hp List.not_mem_nil

/-- The plain run of the late answer ends with the RTT of the second exchange, which the answer to
the first has completed. -/
theorem coded_refines_plain_lateAnswer : ∃ bs t, (exchange 2).Run bs t ∧ t.rtts = [(2, 1)] ∧
    bs.filterMap RlncExchange.seen = [.announce, .readCount, .giveUp] := by
  obtain ⟨s, hrun, hrtts⟩ := lateAnswer_run
  obtain ⟨bs, hbs, hseen⟩ := coded_refines_plain EncodedPayload.bincode hrun
  exact ⟨bs, s.plain, hbs, hrtts, hseen⟩

/-- The RTT of the late answer is not paired, and the read that completes it is not settled. -/
theorem coded_rtts_paired_iff_lateAnswer : ∃ s,
    (rlncExchange EncodedPayload.bincode 2).exec RlncExchange.Lossless { count := 2 } lateAnswer =
        some s ∧ s.Mispaired ∧
      ((rlncExchange EncodedPayload.bincode 2).Avoids RlncExchange.Mispaired { count := 2 }
          lateAnswer ↔
        (rlncExchange EncodedPayload.bincode 2).Guarded RlncExchange.Settled { count := 2 }
          lateAnswer) := by
  obtain ⟨s, hs, hq⟩ := (Option.any_eq_true ..).mp lateAnswer_enabled
  refine ⟨s, hs, ⟨(2, 1), ?_, by decide⟩,
    coded_rtts_paired_iff EncodedPayload.bincode 2 lateAnswer
      (System.guarded_of_exec lateAnswer hs)⟩
  rw [of_decide_eq_true hq]
  exact List.mem_singleton_self _

end Rnet.Ping
