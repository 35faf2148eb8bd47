import Rnet.Lib.Framing
import Rnet.Lib.System

/-!
# The plain ping exchange: `handler.rs`

The initiator announces its count and then goes through its exchanges, each a write of 32
bytes and a read; the responder reads the count and goes through as many, each a read and a
write. Either end gives an exchange up when it times out or the stream fails, and starts the
next one. Frames carry no number, so a read is completed by whatever frame is next. The
number in `PingFrame.request` is not on the wire: it tells the announcement (0) and the
requests (1, 2, …) apart, and a response says which request it answers.

> `rtts_paired_iff`: every RTT is completed by the response to its own request exactly if,
> whenever the initiator takes a response, the exchanges it has given up after its request
> was written are those whose request the responder has taken and given up.
-/

namespace Rnet.Ping

open Lib
open Lib.System (avoids_iff_guarded)

/-- `PING_LENGTH`. -/
def PING_LENGTH : Nat := 32

/-- `vec![0x01; PING_LENGTH]`. -/
def pingPayload : List UInt8 := List.replicate PING_LENGTH 1

/-- The exchanges of `handle_ping` for a count: ten of `infinite_ping` for 0. -/
def rounds (count : UInt32) : Nat := if count = 0 then 10 else count.toNat

/-- A frame on the stream, with the number of the request that it is or answers. -/
structure PingFrame where
  bytes : List UInt8
  request : Nat
  deriving DecidableEq, Repr

/-- Both ends of a ping stream and the frames between them. -/
structure Exchange where
  count : UInt32
  announced : Bool := false
  /-- The exchanges that the initiator has ended. -/
  round : Nat := 0
  /-- The request of the initiator's exchange is written. -/
  reading : Bool := false
  /-- The exchanges that the responder goes through, once it has read the count. -/
  expected : Option Nat := none
  /-- The exchanges that the responder has ended. -/
  answered : Nat := 0
  /-- The request that the responder has read and not answered. -/
  held : Option Nat := none
  requests : List PingFrame := []
  responses : List PingFrame := []
  /-- The RTTs: the number of the request and of the request whose response completed it. -/
  rtts : List (Nat × Nat) := []
  /-- The exchanges that the initiator has given up after its request was written. -/
  lost : List Nat := []
  /-- The requests that the responder has read and given up. -/
  dropped : List Nat := []
  deriving DecidableEq, Repr

/-- What the two handlers do. -/
inductive ExchangeAct
  | announce
  | write
  | read
  | giveUp
  | readCount
  | readRequest
  | respond
  | drop
  deriving DecidableEq, Repr

namespace Exchange

/-- `u32::from_be_bytes` of the first four bytes of the count frame; none without four bytes. -/
def parseCount (bytes : List UInt8) : Nat :=
  if bytes.length < 4 then 0 else rounds (UInt32.ofNat (ofBe (bytes.take 4)))

/-- The initiator is in an exchange. -/
def pinging (s : Exchange) : Prop := s.announced = true ∧ s.round < rounds s.count

/-- The responder is in an exchange. -/
def ponging (s : Exchange) : Prop := ∃ n, s.expected = some n ∧ s.answered < n

instance (s : Exchange) : Decidable s.pinging := inferInstanceAs (Decidable (_ ∧ _))

instance (s : Exchange) : Decidable s.ponging :=
  decidable_of_iff (s.expected.any (s.answered < ·) = true) (by
    unfold ponging
    rw [Option.any_eq_true]
    simp only [decide_eq_true_eq])

/-- One step of one of the handlers. -/
def step (s : Exchange) : ExchangeAct → Option Exchange
  | .announce =>
    if s.announced then none
    else some { s with
      announced := true
      requests := s.requests ++ [⟨beBytes 4 s.count.toNat, 0⟩] }
  | .write =>
    if s.pinging ∧ s.reading = false then
      some { s with reading := true, requests := s.requests ++ [⟨pingPayload, s.round + 1⟩] }
    else none
  | .read =>
    if s.pinging ∧ s.reading = true then
      match s.responses with
      | [] => none
      | f :: rest => some { s with
          responses := rest
          rtts := s.rtts ++ [(s.round + 1, f.request)]
          round := s.round + 1
          reading := false }
    else none
  | .giveUp =>
    if s.pinging then
      some { s with
        lost := if s.reading then s.lost ++ [s.round + 1] else s.lost
        round := s.round + 1
        reading := false }
    else none
  | .readCount =>
    match s.expected, s.requests with
    | none, f :: rest => some { s with expected := some (parseCount f.bytes), requests := rest }
    | _, _ => none
  | .readRequest =>
    if s.ponging ∧ s.held = none then
      match s.requests with
      | [] => none
      | f :: rest => some { s with held := some f.request, requests := rest }
    else none
  | .respond =>
    match s.held with
    | none => none
    | some t => some { s with
        held := none
        answered := s.answered + 1
        responses := s.responses ++ [⟨pingPayload, t⟩] }
  | .drop =>
    if s.ponging then
      some { s with
        held := none
        answered := s.answered + 1
        dropped := s.dropped ++ s.held.toList }
    else none

/-- An RTT was completed by the response to another request. -/
def Mispaired (s : Exchange) : Prop := ∃ p ∈ s.rtts, p.1 ≠ p.2

/-- When the initiator takes a response, the exchanges that it has given up are those that the
responder has given up. -/
def Settled (s : Exchange) (a : ExchangeAct) : Prop :=
  a = .read → ∀ t, t ∈ s.lost ↔ t ∈ s.dropped

/-- What a step can be. -/
inductive Move (s : Exchange) : ExchangeAct → Exchange → Prop
  | announce (ha : s.announced = false) :
      Move s .announce { s with
        announced := true
        requests := s.requests ++ [⟨beBytes 4 s.count.toNat, 0⟩] }
  | write (hp : s.pinging) (hr : s.reading = false) :
      Move s .write { s with
        reading := true
        requests := s.requests ++ [⟨pingPayload, s.round + 1⟩] }
  | read (hp : s.pinging) (hr : s.reading = true) {f : PingFrame} {rest : List PingFrame}
      (hf : s.responses = f :: rest) :
      Move s .read { s with
        responses := rest
        rtts := s.rtts ++ [(s.round + 1, f.request)]
        round := s.round + 1
        reading := false }
  | giveUp (hp : s.pinging) :
      Move s .giveUp { s with
        lost := if s.reading then s.lost ++ [s.round + 1] else s.lost
        round := s.round + 1
        reading := false }
  | readCount (he : s.expected = none) {f : PingFrame} {rest : List PingFrame}
      (hf : s.requests = f :: rest) :
      Move s .readCount { s with expected := some (parseCount f.bytes), requests := rest }
  | readRequest (hp : s.ponging) (hheld : s.held = none) {f : PingFrame} {rest : List PingFrame}
      (hf : s.requests = f :: rest) :
      Move s .readRequest { s with held := some f.request, requests := rest }
  | respond {t : Nat} (ht : s.held = some t) :
      Move s .respond { s with
        held := none
        answered := s.answered + 1
        responses := s.responses ++ [⟨pingPayload, t⟩] }
  | drop (hp : s.ponging) :
      Move s .drop { s with
        held := none
        answered := s.answered + 1
        dropped := s.dropped ++ s.held.toList }

theorem step_move {s s' : Exchange} {a : ExchangeAct} (hs : s.step a = some s') :
    s.Move a s' := by
  unfold step at hs
  cases a with
  | announce =>
    simp only [Option.ite_none_left_eq_some, Option.some.injEq] at hs
    obtain ⟨ha, rfl⟩ := hs
    exact .announce (by simpa using ha)
  | write =>
    simp only [Option.ite_none_right_eq_some, Option.some.injEq] at hs
    obtain ⟨⟨hp, hr⟩, rfl⟩ := hs
    exact .write hp hr
  | read =>
    simp only [Option.ite_none_right_eq_some] at hs
    obtain ⟨⟨hp, hr⟩, hs⟩ := hs
    cases hf : s.responses with
    | nil => simp [hf] at hs
    | cons f rest =>
      rw [hf] at hs
      obtain rfl := Option.some.inj hs
      exact .read hp hr hf
  | giveUp =>
    simp only [Option.ite_none_right_eq_some, Option.some.injEq] at hs
    obtain ⟨hp, rfl⟩ := hs
    exact .giveUp hp
  | readCount =>
    cases he : s.expected with
    | some n => simp [he] at hs
    | none =>
      cases hf : s.requests with
      | nil => simp [he, hf] at hs
      | cons f rest =>
        rw [he, hf] at hs
        obtain rfl := Option.some.inj hs
        exact .readCount he hf
  | readRequest =>
    simp only [Option.ite_none_right_eq_some] at hs
    obtain ⟨⟨hp, hheld⟩, hs⟩ := hs
    cases hf : s.requests with
    | nil => simp [hf] at hs
    | cons f rest =>
      rw [hf] at hs
      obtain rfl := Option.some.inj hs
      exact .readRequest hp hheld hf
  | respond =>
    cases ht : s.held with
    | none => simp [ht] at hs
    | some t =>
      rw [ht] at hs
      obtain rfl := Option.some.inj hs
      exact .respond ht
  | drop =>
    simp only [Option.ite_none_right_eq_some, Option.some.injEq] at hs
    obtain ⟨hp, rfl⟩ := hs
    exact .drop hp

/-! ## Where the requests are -/

/-- The requests that are under way, or whose responses are, the oldest first. -/
def underWay (s : Exchange) : List Nat :=
  s.responses.map (·.request) ++ (s.held.toList ++ s.requests.map (·.request))

/-- The request of the exchange that the initiator is in. -/
def current (s : Exchange) : List Nat := if s.reading then [s.round + 1] else []

/-- Every request that was written is under way, given up by the responder, or its response was
taken; and it is the current one, given up by the initiator, or has an RTT. -/
structure Inv (s : Exchange) : Prop where
  balance : ∀ t, 0 < t → s.underWay.count t + s.dropped.count t + (s.rtts.map Prod.snd).count t
    = s.lost.count t + (s.rtts.map Prod.fst).count t + s.current.count t
  once : ∀ t, s.lost.count t + (s.rtts.map Prod.fst).count t ≤ if 0 < t ∧ t ≤ s.round then 1 else 0
  sorted : s.underWay.Pairwise (· < ·)
  positive : ∀ t ∈ s.responses.map (·.request) ++ s.held.toList ++ s.dropped, 0 < t
  counting : s.expected = none → s.responses = [] ∧ s.held = none ∧
    (s.announced = true → ∃ f rest, s.requests = f :: rest ∧ f.request = 0)
  counted : s.expected ≠ none → ∀ t ∈ s.underWay, 0 < t
  silent : s.announced = false → s.reading = false ∧ s.expected = none ∧ s.underWay = []

theorem Inv.start (count : UInt32) : Inv { count := count } where
  balance t _ := rfl
  once t := by
    show 0 ≤ _
    exact Nat.zero_le _
  sorted := .nil
  positive t ht := absurd ht List.not_mem_nil
  counting _ := ⟨rfl, rfl, fun h => absurd h (by simp)⟩
  counted h := absurd rfl h
  silent _ := ⟨rfl, rfl, rfl⟩

/-- Before the request of the next exchange is written, what is under way is older. -/
theorem Inv.underWay_le {s : Exchange} (h : Inv s) (hr : s.reading = false) :
    ∀ t ∈ s.underWay, t ≤ s.round := by
  intro t ht
  by_cases ht0 : 0 < t
  · have hb := h.balance t ht0
    have ho := h.once t
    have hc : s.current.count t = 0 := by
      unfold current
      rw [hr]
      rfl
    have hpos := List.count_pos_iff.mpr ht
    by_contra hle
    rw [if_neg fun hlt => hle hlt.2] at ho
    omega
  · omega

theorem Inv.announce {s : Exchange} (h : Inv s) (ha : s.announced = false) {bytes : List UInt8} :
    Inv { s with announced := true, requests := s.requests ++ [⟨bytes, 0⟩] } := by
  obtain ⟨hr, he, hu⟩ := h.silent ha
  obtain ⟨hresp, hheld, -⟩ := h.counting he
  have hreq : s.requests = [] := by
    unfold underWay at hu
    simpa using (List.append_eq_nil_iff.mp (List.append_eq_nil_iff.mp hu).2).2
  constructor
  · intro t ht
    have hb := h.balance t ht
    rw [hu] at hb
    simp only [underWay, hresp, hheld, hreq, current, hr, List.map_nil, List.nil_append,
      List.map_cons, Option.toList_none, List.count_nil] at hb ⊢
    rw [List.count_singleton, if_neg (by simpa using Nat.ne_of_lt ht)]
    omega
  · exact h.once
  · unfold underWay
    rw [hresp, hheld, hreq]
    exact List.pairwise_singleton ..
  · exact h.positive
  · exact fun _ => ⟨hresp, hheld, fun _ => ⟨⟨bytes, 0⟩, [], by rw [hreq]; rfl, rfl⟩⟩
  · exact fun hne => absurd he hne
  · exact fun hf => absurd hf (by simp)

theorem Inv.write {s : Exchange} (h : Inv s) (hp : s.pinging) (hr : s.reading = false)
    {bytes : List UInt8} :
    Inv { s with reading := true, requests := s.requests ++ [⟨bytes, s.round + 1⟩] } := by
  have hu : underWay { s with
      reading := true
      requests := s.requests ++ [⟨bytes, s.round + 1⟩] } = s.underWay ++ [s.round + 1] := by
    unfold underWay
    simp only [List.map_append, List.map_cons, List.map_nil, List.append_assoc]
  constructor
  · intro t ht
    have hb := h.balance t ht
    rw [hu, List.count_append]
    simp only [current, hr, List.count_nil, Bool.false_eq_true, if_true, if_false] at hb ⊢
    omega
  · exact h.once
  · rw [hu]
    refine List.pairwise_append.mpr ⟨h.sorted, List.pairwise_singleton .., fun t ht u hu => ?_⟩
    have := h.underWay_le hr t ht
    rw [List.mem_singleton.mp hu]
    omega
  · exact h.positive
  · intro he
    obtain ⟨hresp, hheld, hfirst⟩ := h.counting he
    obtain ⟨f, rest, hq, hf⟩ := hfirst hp.1
    exact ⟨hresp, hheld, fun _ => ⟨f, _, by rw [hq]; rfl, hf⟩⟩
  · intro he t ht
    rw [hu] at ht
    rcases List.mem_append.mp ht with ht | ht
    · exact h.counted he t ht
    · rw [List.mem_singleton.mp ht]
      omega
  · exact fun hf => absurd hp.1 (by simpa using hf)

/-- The responder has read the count as soon as anything comes back. -/
theorem Inv.expected_ne_none {s : Exchange} (h : Inv s) {f : PingFrame} {rest : List PingFrame}
    (hf : s.responses = f :: rest) : s.expected ≠ none := by
  intro he
  rw [(h.counting he).1] at hf
  exact absurd hf (by simp)

theorem Inv.read {s : Exchange} (h : Inv s) (hp : s.pinging) (hr : s.reading = true)
    {f : PingFrame} {rest : List PingFrame} (hf : s.responses = f :: rest) :
    Inv { s with
      responses := rest
      rtts := s.rtts ++ [(s.round + 1, f.request)]
      round := s.round + 1
      reading := false } := by
  have hu : s.underWay = f.request :: underWay { s with
      responses := rest
      rtts := s.rtts ++ [(s.round + 1, f.request)]
      round := s.round + 1
      reading := false } := by
    unfold underWay
    rw [hf]
    rfl
  have he := h.expected_ne_none hf
  constructor
  · intro t ht
    have hb := h.balance t ht
    rw [hu, List.count_cons] at hb
    simp only [current, hr, if_true, List.map_append, List.count_append, List.map_cons,
      List.map_nil, List.count_cons, List.count_nil, Bool.false_eq_true, if_false,
      Nat.zero_add] at hb ⊢
    omega
  · intro t
    have ho := h.once t
    simp only [List.map_append, List.count_append, List.map_cons, List.map_nil, List.count_cons,
      List.count_nil, Nat.zero_add, beq_iff_eq]
    split_ifs at ho ⊢ <;> omega
  · have hs := h.sorted
    rw [hu] at hs
    exact (List.pairwise_cons.mp hs).2
  · intro t ht
    refine h.positive t ?_
    rw [hf]
    exact List.mem_cons_of_mem _ ht
  · exact fun hn => absurd hn he
  · intro _ t ht
    refine h.counted he t ?_
    rw [hu]
    exact List.mem_cons_of_mem _ ht
  · exact fun hn => absurd hp.1 (by simpa using hn)

theorem Inv.giveUp {s : Exchange} (h : Inv s) (hp : s.pinging) :
    Inv { s with
      lost := if s.reading then s.lost ++ [s.round + 1] else s.lost
      round := s.round + 1
      reading := false } := by
  constructor
  · intro t ht
    have hb := h.balance t ht
    show s.underWay.count t + _ + _ = _
    cases hr : s.reading with
    | false =>
      simp only [current, hr, List.count_nil, Bool.false_eq_true, if_false] at hb ⊢
      exact hb
    | true =>
      simp only [current, hr, if_true, List.count_append, List.count_nil, Bool.false_eq_true,
        if_false] at hb ⊢
      omega
  · intro t
    have ho := h.once t
    cases hr : s.reading with
    | false =>
      simp only [Bool.false_eq_true, if_false]
      split_ifs at ho ⊢ <;> omega
    | true =>
      simp only [if_true, List.count_append, List.count_cons, List.count_nil, Nat.zero_add,
        beq_iff_eq]
      split_ifs at ho ⊢ <;> omega
  · exact h.sorted
  · exact h.positive
  · exact h.counting
  · exact h.counted
  · exact fun hn => absurd hp.1 (by simpa using hn)

theorem Inv.readCount {s : Exchange} (h : Inv s) (he : s.expected = none) {f : PingFrame}
    {rest : List PingFrame} (hf : s.requests = f :: rest) (n : Nat) :
    Inv { s with expected := some n, requests := rest } := by
  obtain ⟨hresp, hheld, hfirst⟩ := h.counting he
  have ha : s.announced = true := by
    by_contra hn
    have hu := (h.silent (by simpa using hn)).2.2
    unfold underWay at hu
    rw [hf] at hu
    simp at hu
  obtain ⟨f', rest', hf', hzero⟩ := hfirst ha
  rw [hf] at hf'
  obtain ⟨rfl, rfl⟩ := List.cons.inj hf'
  have hu : s.underWay = 0 :: underWay { s with expected := some n, requests := rest } := by
    unfold underWay
    rw [hresp, hheld, hf, List.map_cons, hzero]
    rfl
  have hs := h.sorted
  rw [hu] at hs
  obtain ⟨hpos, hs'⟩ := List.pairwise_cons.mp hs
  constructor
  · intro t ht
    have hb := h.balance t ht
    rw [hu, List.count_cons, if_neg (by simpa using Nat.ne_of_lt ht)] at hb
    exact hb
  · exact h.once
  · exact hs'
  · exact h.positive
  · exact fun hn => absurd hn (by simp)
  · exact fun _ => hpos
  · exact fun hn => absurd ha (by simpa using hn)

theorem Inv.readRequest {s : Exchange} (h : Inv s) (hp : s.ponging) (hheld : s.held = none)
    {f : PingFrame} {rest : List PingFrame} (hf : s.requests = f :: rest) :
    Inv { s with held := some f.request, requests := rest } := by
  obtain ⟨n, he, -⟩ := hp
  have hne : s.expected ≠ none := by
    rw [he]
    simp
  have hu : underWay { s with held := some f.request, requests := rest } = s.underWay := by
    unfold underWay
    rw [hheld, hf]
    rfl
  refine ⟨?_, h.once, ?_, ?_, fun hn => absurd hn hne, ?_, fun hn => ?_⟩
  · intro t ht
    rw [hu]
    exact h.balance t ht
  · rw [hu]
    exact h.sorted
  · intro t ht
    have hmem : f.request ∈ s.underWay := by
      rw [← hu]
      exact List.mem_append_right _ (List.mem_append_left _ (List.mem_singleton_self _))
    rcases List.mem_append.mp ht with ht | ht
    · rcases List.mem_append.mp ht with ht | ht
      · exact h.positive t (List.mem_append_left _ (List.mem_append_left _ ht))
      · rw [List.mem_singleton.mp ht]
        exact h.counted hne _ hmem
    · exact h.positive t (List.mem_append_right _ ht)
  · intro _ t ht
    rw [hu] at ht
    exact h.counted hne t ht
  · exact absurd (h.silent hn).2.1 hne

theorem Inv.respond {s : Exchange} (h : Inv s) {t : Nat} (ht : s.held = some t)
    {bytes : List UInt8} :
    Inv { s with
      held := none
      answered := s.answered + 1
      responses := s.responses ++ [⟨bytes, t⟩] } := by
  have hne : s.expected ≠ none := by
    intro he
    rw [(h.counting he).2.1] at ht
    exact absurd ht (by simp)
  have hu : underWay { s with
      held := none
      answered := s.answered + 1
      responses := s.responses ++ [⟨bytes, t⟩] } = s.underWay := by
    unfold underWay
    rw [ht]
    simp
  refine ⟨?_, h.once, ?_, ?_, fun hn => absurd hn hne, ?_, fun hn => ?_⟩
  · intro u hpos
    rw [hu]
    exact h.balance u hpos
  · rw [hu]
    exact h.sorted
  · intro u hmem
    refine h.positive u ?_
    rw [ht]
    simpa using hmem
  · intro _ u hmem
    rw [hu] at hmem
    exact h.counted hne u hmem
  · exact absurd (h.silent hn).2.1 hne

theorem Inv.drop {s : Exchange} (h : Inv s) (hp : s.ponging) :
    Inv { s with
      held := none
      answered := s.answered + 1
      dropped := s.dropped ++ s.held.toList } := by
  obtain ⟨n, he, -⟩ := hp
  have hne : s.expected ≠ none := by
    rw [he]
    simp
  have hsub : (underWay { s with
      held := none
      answered := s.answered + 1
      dropped := s.dropped ++ s.held.toList }).Sublist s.underWay :=
    List.Sublist.append (List.Sublist.refl _) (List.sublist_append_right _ _)
  refine ⟨?_, h.once, h.sorted.sublist hsub, ?_, fun hn => absurd hn hne, ?_, fun hn => ?_⟩
  · intro t ht
    have hb := h.balance t ht
    simp only [underWay, List.count_append, Option.toList_none, List.count_nil] at hb ⊢
    show _ = _ + _ + s.current.count t
    omega
  · intro t hmem
    refine h.positive t ?_
    simp only [Option.toList_none, List.append_nil, List.mem_append] at hmem ⊢
    tauto
  · exact fun _ t hmem => h.counted hne t (hsub.subset hmem)
  · exact absurd (h.silent hn).2.1 hne

/-- **Every step keeps the balance.** -/
theorem Inv.step {s s' : Exchange} {a : ExchangeAct} (h : Inv s) (hs : s.step a = some s') :
    Inv s' := by
  cases step_move hs with
  | announce ha => exact h.announce ha
  | write hp hr => exact h.write hp hr
  | read hp hr hf => exact h.read hp hr hf
  | giveUp hp => exact h.giveUp hp
  | readCount he hf => exact h.readCount he hf _
  | readRequest hp hheld hf => exact h.readRequest hp hheld hf
  | respond ht => exact h.respond ht
  | drop hp => exact h.drop hp

/-! ## Which response is next -/

/-- **The next response answers the current request** exactly if the two ends have given up the
same exchanges, as long as every RTT so far is paired. -/
theorem Inv.next_iff {s : Exchange} (h : Inv s) (hgood : ¬ s.Mispaired) (hr : s.reading = true)
    {f : PingFrame} {rest : List PingFrame} (hf : s.responses = f :: rest) :
    s.round + 1 = f.request ↔ ∀ t, t ∈ s.lost ↔ t ∈ s.dropped := by
  have hpaired : s.rtts.map Prod.fst = s.rtts.map Prod.snd := by
    refine List.map_congr_left fun p hp => ?_
    by_contra hne
    exact hgood ⟨p, hp, hne⟩
  obtain ⟨tail, hu⟩ : ∃ tail, s.underWay = f.request :: tail :=
    ⟨_, by unfold underWay; rw [hf, List.map_cons, List.cons_append]⟩
  have hpos : 0 < f.request :=
    h.positive _ (by rw [hf]; exact List.mem_append_left _ (List.mem_cons_self ..))
  -- a request is under way or given up by the responder exactly if it is current or given up
  -- by the initiator
  have hbal : ∀ t, 0 < t → s.underWay.count t + s.dropped.count t
      = s.lost.count t + if t = s.round + 1 then 1 else 0 := by
    intro t ht
    have hb := h.balance t ht
    rw [hpaired] at hb
    simp only [current, hr, if_true, List.count_cons, List.count_nil, beq_iff_eq,
      Nat.zero_add] at hb
    simp only [eq_comm (a := t)]
    omega
  constructor
  · intro hcur t
    by_cases ht : 0 < t
    · have hb := hbal t ht
      have ho := h.once t
      have hcount : t ≠ s.round + 1 → t ≤ s.round → s.underWay.count t = 0 := by
        intro _ hle
        refine List.count_eq_zero.mpr fun hmem => ?_
        have hsorted := h.sorted
        rw [hu] at hsorted hmem
        rcases List.mem_cons.mp hmem with rfl | hmem
        · omega
        · have := (List.pairwise_cons.mp hsorted).1 t hmem
          omega
      have hhead : t = s.round + 1 → 0 < s.underWay.count t := by
        intro h
        subst h
        rw [hu, hcur]
        exact List.count_pos_iff.mpr (List.mem_cons_self ..)
      rw [← List.count_pos_iff, ← List.count_pos_iff]
      by_cases hc : t = s.round + 1
      · have := hhead hc
        rw [if_neg (by omega)] at ho
        rw [if_pos hc] at hb
        omega
      · by_cases hle : t ≤ s.round
        · rw [hcount hc hle, if_neg hc] at hb
          omega
        · rw [if_neg (by omega)] at ho
          rw [if_neg hc] at hb
          omega
    · have ho := h.once t
      rw [if_neg fun hlt => ht hlt.1] at ho
      have hlost : t ∉ s.lost := List.count_eq_zero.mp (by omega)
      have hdropped : t ∉ s.dropped := fun hmem => ht (h.positive t (List.mem_append_right _ hmem))
      exact ⟨fun hm => absurd hm hlost, fun hm => absurd hm hdropped⟩
  · intro hset
    by_contra hne
    have hb := hbal f.request hpos
    have ho := h.once f.request
    have hhead : 0 < s.underWay.count f.request := by
      rw [hu]
      exact List.count_pos_iff.mpr (List.mem_cons_self ..)
    rw [if_neg (Ne.symm hne)] at hb
    -- an older request is under way, so both ends would have given it up
    have hdropped := List.count_pos_iff.mpr
      ((hset f.request).mp (List.count_pos_iff.mp (by omega)))
    split_ifs at ho <;> omega

/-- **What a step does to the pairing.** -/
theorem step_mispaired_iff {s s' : Exchange} {a : ExchangeAct} (h : Inv s)
    (hgood : ¬ s.Mispaired) (hs : s.step a = some s') : s'.Mispaired ↔ ¬ s.Settled a := by
  -- only a read makes an RTT
  have hsame : a ≠ .read → s'.rtts = s.rtts → (s'.Mispaired ↔ ¬ s.Settled a) := by
    intro ha hr
    unfold Mispaired Settled
    rw [hr]
    exact ⟨fun hm => absurd hm hgood, fun hn => absurd (fun ha' => absurd ha' ha) hn⟩
  cases step_move hs with
  | read hp hr hf =>
    have hnext := h.next_iff hgood hr hf
    unfold Mispaired Settled
    simp only [List.mem_append, List.mem_singleton, forall_const]
    rw [← hnext]
    constructor
    · intro h hcur
      obtain ⟨p, hp | rfl, hne⟩ := h
      · exact hgood ⟨p, hp, hne⟩
      · exact hne hcur
    · exact fun hne => ⟨_, Or.inr rfl, hne⟩
  | announce => exact hsame (by decide) rfl
  | write => exact hsame (by decide) rfl
  | giveUp => exact hsame (by decide) rfl
  | readCount => exact hsame (by decide) rfl
  | readRequest => exact hsame (by decide) rfl
  | respond => exact hsame (by decide) rfl
  | drop => exact hsame (by decide) rfl

end Exchange

/-- Two handlers on a stream, and the frames between them. -/
def exchange (count : UInt32) : System Exchange ExchangeAct where
  init s := s = { count := count }
  step := Exchange.step

/-- **The pairing of RTTs.** For every count and every run, with any delays and any exchanges
given up at either end, every RTT is completed by the response to its own request exactly if
whenever the initiator takes a response, the exchanges it has given up are those that the
responder has given up. -/
theorem rtts_paired_iff (count : UInt32) (as : List ExchangeAct) :
    (exchange count).Avoids Exchange.Mispaired { count := count } as ↔
      (exchange count).Guarded Exchange.Settled { count := count } as := by
  refine avoids_iff_guarded (I := Exchange.Inv) (fun s a s' h hs => h.step hs)
    (fun s a s' h hgood hs => Exchange.step_mispaired_iff h hgood hs) as _ (.start count) ?_
  intro h
  obtain ⟨p, hp, -⟩ := h
  exact absurd hp List.not_mem_nil

/-- The first exchange times out, and the second takes its response. -/
def lateResponse : List ExchangeAct :=
  [.announce, .write, .giveUp, .write, .readCount, .readRequest, .respond, .read]

theorem lateResponse_enabled : ((exchange 2).exec (fun _ _ => True) { count := 2 }
    lateResponse).any (fun s => decide (s.rtts = [(2, 1)])) = true := by decide +kernel

/-- The RTT of the second request is completed by the response to the first. -/
theorem late_response_paired :
    ∃ s, (exchange 2).Run lateResponse s ∧ s.rtts = [(2, 1)] ∧ s.Mispaired := by
  obtain ⟨s, hs, hq⟩ := (Option.any_eq_true ..).mp lateResponse_enabled
  have hrtts := of_decide_eq_true hq
  refine ⟨s, Lib.System.runUnder_of_exec rfl hs, hrtts, (2, 1), ?_, by decide⟩
  rw [hrtts]
  exact List.mem_singleton_self _

end Rnet.Ping
