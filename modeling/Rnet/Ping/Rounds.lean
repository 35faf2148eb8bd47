import Rnet.Ping.Lane
import Rnet.Lib.System

/-!
# The coded ping exchange: `PingRLNC::ping`

Both handlers with `enable_rlnc`. The initiator writes the ten packets of a request and reads
until its engine returns; the responder reads until its engine returns, codes what it got under an
id of its own, and writes ten packets. Packets that are left over are read in the next exchange.
Either end can give an exchange up wherever it waits, also behind the read of a frame that is then
lost, and its engine handles packets of other streams in between. The initiator sends its RTTs to
the owner of the node, all of them at the end or each by itself if the count is 0.

A handler that has gone through its exchanges closes its end of the stream, of which the other end
never hears. What ends a stream for a handler is the `conn_handler` of its own node: once that is
gone, what had come in is still read, and then the `unwrap`s on the stream fail.

> `coded_ping_safe`: no frame and no payload makes a handler panic; the RTTs are completed by the
> answers to different requests, in their order and none to a later exchange, and they are what
> the owner is told.
-/

namespace Rnet.Ping

open Lib
open Lib.System (runUnder_of_exec)

/-- How far a handler is. -/
inductive Handler
  | running
  | closed
  /-- an `unwrap` on the stream, whose connection is over at this end -/
  | cutOff
  /-- the `unwrap` behind `global_event_tx.send`, with nobody there to receive -/
  | unheard
  /-- any other panic -/
  | panicked
  deriving DecidableEq, Repr

/-- Both ends of a ping stream with coded packets. -/
structure RlncExchange where
  count : UInt32
  announced : Bool := false
  /-- The frame with the count, which is in front of all requests. -/
  countFrame : Option (List UInt8) := none
  /-- The exchanges that the initiator has ended. -/
  round : Nat := 0
  /-- The initiator is in an exchange. -/
  exchanging : Bool := false
  /-- The exchanges that the responder goes through, once it has read the count. -/
  expected : Option Nat := none
  /-- The exchanges that the responder has ended. -/
  ended : Nat := 0
  /-- The request whose answer the responder writes. -/
  answering : Option Nat := none
  requests : Lane := {}
  responses : Lane := {}
  /-- The RTTs: the number of the exchange and of the request whose answer completed it. -/
  rtts : List (Nat × Nat) := []
  /-- The exchanges that the initiator has given up, with how many frames were written. -/
  lost : List (Nat × Nat) := []
  /-- The requests whose answer the responder has given up, with how many frames were written. -/
  dropped : List (Nat × Nat) := []
  /-- The RTTs in each `PingEvent` that was sent. -/
  told : List (List (Nat × Nat)) := []
  initiator : Handler := .running
  responder : Handler := .running
  /-- The `conn_handler` at the initiator's end is running. -/
  initiatorConn : Bool := true
  /-- The `conn_handler` at the responder's end is running. -/
  responderConn : Bool := true
  /-- The global events of the initiator's node are received. -/
  owner : Bool := true

/-- What the two handlers do, and what happens around them. -/
inductive RlncAct
  | announce
  | ask (id : PayloadId) (draws : Nat → Nat → UInt8)
  | write
  | read
  | giveUp
  /-- a frame was read -/
  | giveUpReading
  | tell
  | close
  /-- an `unwrap` on the stream fails -/
  | cutOff
  | readCount
  | readRequest (id : PayloadId) (draws : Nat → Nat → UInt8)
  | respond
  | drop
  /-- a frame was read -/
  | dropReading
  | closeResponder
  | cutOffResponder
  | otherAtInitiator (p : EncodedPayload)
  | otherAtResponder (p : EncodedPayload)
  /-- so many of the frames on their way to either end are still read there -/
  | initiatorConnEnds (toResponder toInitiator : Nat)
  | responderConnEnds (toResponder toInitiator : Nat)
  | ownerGone

namespace RlncExchange

/-- The initiator goes through its exchanges. -/
def pinging (s : RlncExchange) : Prop :=
  s.initiator = .running ∧ s.announced = true ∧ s.round < rounds s.count

/-- The responder is in an exchange. -/
def ponging (s : RlncExchange) : Prop :=
  s.responder = .running ∧ ∃ n, s.expected = some n ∧ s.ended < n

instance (s : RlncExchange) : Decidable s.pinging := inferInstanceAs (Decidable (_ ∧ _))

instance (s : RlncExchange) : Decidable s.ponging :=
  decidable_of_iff (s.responder = .running ∧ s.expected.any (s.ended < ·) = true) (by
    unfold ponging
    rw [Option.any_eq_true]
    simp only [decide_eq_true_eq])

/-- The initiator waits for the next frame. -/
def awaiting (s : RlncExchange) : Prop :=
  s.pinging ∧ s.exchanging = true ∧ s.requests.unsent = []

/-- The responder waits for the next frame. -/
def listening (s : RlncExchange) : Prop := s.ponging ∧ s.answering = none

instance (s : RlncExchange) : Decidable s.awaiting := inferInstanceAs (Decidable (_ ∧ _))

instance (s : RlncExchange) : Decidable s.listening := inferInstanceAs (Decidable (_ ∧ _))

/-- The initiator has an event to send. -/
def owes (s : RlncExchange) : Prop :=
  if s.count = 0 then s.told.length < s.rtts.length
  else s.round = rounds s.count ∧ s.told = []

instance (s : RlncExchange) : Decidable s.owes :=
  inferInstanceAs (Decidable (if s.count = 0 then _ else _))

/-- The initiator has nothing left to do but to close the stream. -/
def finished (s : RlncExchange) : Prop :=
  s.announced = true ∧ s.round = rounds s.count ∧ ¬ s.owes

instance (s : RlncExchange) : Decidable s.finished := inferInstanceAs (Decidable (_ ∧ _))

/-- The initiator is at an `unwrap` on a stream without connection: it announces, reads what is
not there, or closes. -/
def unwraps (s : RlncExchange) : Prop :=
  s.announced = false ∨ s.awaiting ∧ s.responses.queue = [] ∨ s.finished

/-- The responder is at one: it reads what is not there, writes, or closes. -/
def unwrapsResponder (s : RlncExchange) : Prop :=
  s.expected = none ∧ s.countFrame = none ∨ s.listening ∧ s.requests.queue = [] ∨
    s.ponging ∧ s.answering ≠ none ∨ s.expected = some s.ended

instance (s : RlncExchange) : Decidable s.unwraps := inferInstanceAs (Decidable (_ ∨ _))

instance (s : RlncExchange) : Decidable s.unwrapsResponder := inferInstanceAs (Decidable (_ ∨ _))

/-- The RTTs of the next event. -/
def event (s : RlncExchange) : List (Nat × Nat) :=
  if s.count = 0 then s.rtts.getLast?.toList else s.rtts

/-- Only the first frames on their way are still read; the count is in front of the requests. -/
def cut (s : RlncExchange) (toResponder toInitiator : Nat) : RlncExchange :=
  { s with
    countFrame := if toResponder = 0 then none else s.countFrame
    requests := s.requests.keep (toResponder - s.countFrame.toList.length)
    responses := s.responses.keep toInitiator }

section Step

variable (B : Bincode EncodedPayload EncodedPayload.Short)

/-- The initiator has read and handled a frame. -/
def received (s : RlncExchange) (lane : Lane) (f : SetFrame) : Outcome → RlncExchange
  | .none => { s with responses := lane }
  | .returned _ => { s with
      responses := lane
      rtts := s.rtts ++ [(s.round + 1, f.request)]
      round := s.round + 1
      exchanging := false }
  | .panicked => { s with responses := lane, initiator := .panicked }

/-- The responder has read and handled a frame. -/
def rebuilt (s : RlncExchange) (id : PayloadId) (draws : Nat → Nat → UInt8) (lane : Lane)
    (f : SetFrame) : Outcome → RlncExchange
  | .none => { s with requests := lane }
  | .returned reconstructed =>
    match formulate reconstructed draws id.text with
    | none => { s with requests := lane, responder := .panicked }
    | some set => { s with
        requests := lane
        answering := some f.request
        responses := s.responses.start B f.request id.text set }
  | .panicked => { s with requests := lane, responder := .panicked }

/-- The initiator gives its exchange up. -/
def givenUp (s : RlncExchange) : RlncExchange :=
  { s with
    lost := s.lost ++ [(s.round + 1, DEFAULT_ENCODE_SET_LEN - s.requests.unsent.length)]
    requests := s.requests.abandon
    round := s.round + 1
    exchanging := false }

/-- The responder gives its exchange up. -/
def dropping (s : RlncExchange) : RlncExchange :=
  { s with
    dropped := s.dropped ++
      (s.answering.map (·, DEFAULT_ENCODE_SET_LEN - s.responses.unsent.length)).toList
    responses := s.responses.abandon
    answering := none
    ended := s.ended + 1 }

/-- The responder has written a frame; its exchange ends with the last one. -/
def responded (s : RlncExchange) (lane : Lane) : RlncExchange :=
  if lane.unsent = [] then { s with responses := lane, answering := none, ended := s.ended + 1 }
  else { s with responses := lane }

/-- One step of one of the handlers, or of what is around them. -/
def step (s : RlncExchange) : RlncAct → Option RlncExchange
  -- a frame for a connection that is over at the other end goes nowhere
  | .announce =>
    if s.initiator = .running ∧ s.announced = false ∧ s.initiatorConn = true then
      some { s with
        announced := true
        countFrame := if s.responderConn then some (beBytes 4 s.count.toNat) else none }
    else none
  | .ask id draws =>
    if s.pinging ∧ s.exchanging = false ∧ ¬ s.owes then
      match formulate pingPayload draws id.text with
      | none => some { s with initiator := .panicked }
      | some set => some { s with
          exchanging := true
          requests := s.requests.start B (s.round + 1) id.text set }
    else none
  | .write =>
    if s.pinging ∧ s.exchanging = true ∧ s.initiatorConn = true then
      (s.requests.write s.responderConn).map ({ s with requests := · })
    else none
  | .read =>
    if s.awaiting then (s.responses.read B).map fun r => s.received r.1 r.2.1 r.2.2 else none
  -- `timeout` drops the exchange, wherever it waits, or a write without connection fails
  | .giveUp => if s.pinging ∧ s.exchanging = true then some s.givenUp else none
  -- also while `handle_incoming` waits for its locks, with the frame in hand
  | .giveUpReading =>
    if s.awaiting then s.responses.lose.map ({ s.givenUp with responses := · }) else none
  | .tell =>
    if s.initiator = .running ∧ s.owes then
      if s.owner then some { s with told := s.told ++ [s.event] }
      else some { s with initiator := .unheard }
    else none
  | .close =>
    if s.initiator = .running ∧ s.finished ∧ s.initiatorConn = true then
      some { s with initiator := .closed }
    else none
  | .cutOff =>
    if s.initiator = .running ∧ s.unwraps ∧ s.initiatorConn = false then
      some { s with initiator := .cutOff }
    else none
  | .readCount =>
    if s.responder = .running ∧ s.expected = none then
      s.countFrame.map fun bytes =>
        { s with expected := some (Exchange.parseCount bytes), countFrame := none }
    else none
  | .readRequest id draws =>
    if s.listening then
      (s.requests.read B).map fun r => s.rebuilt B id draws r.1 r.2.1 r.2.2
    else none
  | .respond =>
    if s.ponging ∧ s.answering ≠ none ∧ s.responderConn = true then
      (s.responses.write s.initiatorConn).map s.responded
    else none
  | .drop => if s.ponging then some s.dropping else none
  | .dropReading =>
    if s.listening then s.requests.lose.map ({ s.dropping with requests := · }) else none
  | .closeResponder =>
    if s.responder = .running ∧ s.expected = some s.ended ∧ s.responderConn = true then
      some { s with responder := .closed }
    else none
  | .cutOffResponder =>
    if s.responder = .running ∧ s.unwrapsResponder ∧ s.responderConn = false then
      some { s with responder := .cutOff }
    else none
  -- the engine is that of the node, whatever stream a packet comes from
  | .otherAtInitiator p => some { s with responses := s.responses.other p }
  | .otherAtResponder p => some { s with requests := s.requests.other p }
  | .initiatorConnEnds toResponder toInitiator =>
    if s.initiatorConn then some { s.cut toResponder toInitiator with initiatorConn := false }
    else none
  | .responderConnEnds toResponder toInitiator =>
    if s.responderConn then some { s.cut toResponder toInitiator with responderConn := false }
    else none
  | .ownerGone => some { s with owner := false }

/-- The random ids are new where the packets go, and the packets of other streams have other
ids. -/
def FreshIds (s : RlncExchange) : RlncAct → Prop
  | .ask id _ => s.requests.Fresh id.text
  | .readRequest id _ => s.responses.Fresh id.text
  | .otherAtInitiator p => p.id ∉ s.responses.ids
  | .otherAtResponder p => p.id ∉ s.requests.ids
  | _ => True

instance (s : RlncExchange) (a : RlncAct) : Decidable (s.FreshIds a) :=
  match a with
  | .ask id _ => inferInstanceAs (Decidable (s.requests.Fresh id.text))
  | .readRequest id _ => inferInstanceAs (Decidable (s.responses.Fresh id.text))
  | .otherAtInitiator p => inferInstanceAs (Decidable (p.id ∉ s.responses.ids))
  | .otherAtResponder p => inferInstanceAs (Decidable (p.id ∉ s.requests.ids))
  | .announce | .write | .read | .giveUp | .giveUpReading | .tell | .close | .cutOff | .readCount
  | .respond | .drop | .dropReading | .closeResponder | .cutOffResponder
  | .initiatorConnEnds _ _ | .responderConnEnds _ _ | .ownerGone => inferInstanceAs (Decidable True)

/-- A frame is lost: between its read and its handling, at the end of a connection, or because the
connection that it is for is over. -/
def loses (s : RlncExchange) : RlncAct → Bool
  | .giveUpReading | .dropReading => true
  | .announce | .write => !s.responderConn
  | .respond => !s.initiatorConn
  | .initiatorConnEnds toResponder toInitiator | .responderConnEnds toResponder toInitiator =>
    decide (toResponder < s.countFrame.toList.length + s.requests.queue.length ∨
      toInitiator < s.responses.queue.length)
  | _ => false

/-- The ids are fresh, and no frame is lost. -/
def Lossless (s : RlncExchange) (a : RlncAct) : Prop := s.FreshIds a ∧ s.loses a = false

instance (s : RlncExchange) (a : RlncAct) : Decidable (s.Lossless a) :=
  inferInstanceAs (Decidable (_ ∧ _))

/-- What a step can be. -/
inductive Move (s : RlncExchange) : RlncAct → RlncExchange → Prop
  | announce (hi : s.initiator = .running) (ha : s.announced = false) :
      Move s .announce { s with
        announced := true
        countFrame := if s.responderConn then some (beBytes 4 s.count.toNat) else none }
  | noSet {id : PayloadId} {draws : Nat → Nat → UInt8}
      (hf : formulate pingPayload draws id.text = none) :
      Move s (.ask id draws) { s with initiator := .panicked }
  | ask {id : PayloadId} {draws : Nat → Nat → UInt8} (hp : s.pinging) (he : s.exchanging = false)
      (ho : ¬ s.owes) {set : List EncodedPayload}
      (hf : formulate pingPayload draws id.text = some set) :
      Move s (.ask id draws) { s with
        exchanging := true
        requests := s.requests.start B (s.round + 1) id.text set }
  | write (hp : s.pinging) (he : s.exchanging = true) {lane : Lane}
      (hw : s.requests.write s.responderConn = some lane) :
      Move s .write { s with requests := lane }
  | read (hw : s.awaiting) {lane : Lane} {f : SetFrame} {o : Outcome}
      (hr : s.responses.read B = some (lane, f, o)) : Move s .read (s.received lane f o)
  | giveUp (hp : s.pinging) (he : s.exchanging = true) : Move s .giveUp s.givenUp
  | giveUpReading (hw : s.awaiting) {lane : Lane} (hl : s.responses.lose = some lane) :
      Move s .giveUpReading { s.givenUp with responses := lane }
  | tell (hi : s.initiator = .running) (ho : s.owes) :
      Move s .tell { s with told := s.told ++ [s.event] }
  | unheard (hw : s.owner = false) : Move s .tell { s with initiator := .unheard }
  | close (hf : s.finished) : Move s .close { s with initiator := .closed }
  | cutOff (hc : s.initiatorConn = false) : Move s .cutOff { s with initiator := .cutOff }
  | readCount (hr : s.responder = .running) (he : s.expected = none) {bytes : List UInt8}
      (hc : s.countFrame = some bytes) : Move s .readCount { s with
        expected := some (Exchange.parseCount bytes)
        countFrame := none }
  | readRequest {id : PayloadId} {draws : Nat → Nat → UInt8} (hl : s.listening) {lane : Lane}
      {f : SetFrame} {o : Outcome} (hr : s.requests.read B = some (lane, f, o)) :
      Move s (.readRequest id draws) (s.rebuilt B id draws lane f o)
  | respond (hp : s.ponging) {t : Nat} (ha : s.answering = some t) {lane : Lane}
      (hw : s.responses.write s.initiatorConn = some lane) : Move s .respond (s.responded lane)
  | drop (hp : s.ponging) : Move s .drop s.dropping
  | dropReading (hl : s.listening) {lane : Lane} (hq : s.requests.lose = some lane) :
      Move s .dropReading { s.dropping with requests := lane }
  | closeResponder : Move s .closeResponder { s with responder := .closed }
  | cutOffResponder (hc : s.responderConn = false) :
      Move s .cutOffResponder { s with responder := .cutOff }
  | otherAtInitiator {p : EncodedPayload} :
      Move s (.otherAtInitiator p) { s with responses := s.responses.other p }
  | otherAtResponder {p : EncodedPayload} :
      Move s (.otherAtResponder p) { s with requests := s.requests.other p }
  | initiatorConnEnds {k l : Nat} :
      Move s (.initiatorConnEnds k l) { s.cut k l with initiatorConn := false }
  | responderConnEnds {k l : Nat} :
      Move s (.responderConnEnds k l) { s.cut k l with responderConn := false }
  | ownerGone : Move s .ownerGone { s with owner := false }

end Step

variable {B : Bincode EncodedPayload EncodedPayload.Short}

theorem step_move {s s' : RlncExchange} {a : RlncAct} (hs : s.step B a = some s') :
    s.Move B a s' := by
  unfold step at hs
  cases a with
  | announce =>
    simp only [Option.ite_none_right_eq_some, Option.some.injEq] at hs
    obtain ⟨⟨hi, ha, -⟩, rfl⟩ := hs
    exact .announce hi ha
  | ask id draws =>
    simp only [Option.ite_none_right_eq_some] at hs
    obtain ⟨⟨hp, he, ho⟩, hs⟩ := hs
    cases hf : formulate pingPayload draws id.text with
    | none =>
      rw [hf] at hs
      obtain rfl := Option.some.inj hs
      exact .noSet hf
    | some set =>
      rw [hf] at hs
      obtain rfl := Option.some.inj hs
      exact .ask hp he ho hf
  | write =>
    simp only [Option.ite_none_right_eq_some, Option.map_eq_some_iff] at hs
    obtain ⟨⟨hp, he, -⟩, lane, hw, rfl⟩ := hs
    exact .write hp he hw
  | read =>
    simp only [Option.ite_none_right_eq_some, Option.map_eq_some_iff] at hs
    obtain ⟨hw, ⟨lane, f, o⟩, hr, rfl⟩ := hs
    exact .read hw hr
  | giveUp =>
    simp only [Option.ite_none_right_eq_some, Option.some.injEq] at hs
    obtain ⟨⟨hp, he⟩, rfl⟩ := hs
    exact .giveUp hp he
  | giveUpReading =>
    simp only [Option.ite_none_right_eq_some, Option.map_eq_some_iff] at hs
    obtain ⟨hw, lane, hl, rfl⟩ := hs
    exact .giveUpReading hw hl
  | tell =>
    simp only [Option.ite_none_right_eq_some] at hs
    obtain ⟨⟨hi, ho⟩, hs⟩ := hs
    by_cases hw : s.owner = true
    · rw [if_pos hw] at hs
      obtain rfl := Option.some.inj hs
      exact .tell hi ho
    · rw [if_neg hw] at hs
      obtain rfl := Option.some.inj hs
      exact .unheard (Bool.eq_false_iff.mpr hw)
  | close =>
    simp only [Option.ite_none_right_eq_some, Option.some.injEq] at hs
    obtain ⟨⟨-, hf, -⟩, rfl⟩ := hs
    exact .close hf
  | cutOff =>
    simp only [Option.ite_none_right_eq_some, Option.some.injEq] at hs
    obtain ⟨⟨-, -, hc⟩, rfl⟩ := hs
    exact .cutOff hc
  | readCount =>
    simp only [Option.ite_none_right_eq_some, Option.map_eq_some_iff] at hs
    obtain ⟨⟨hr, he⟩, bytes, hc, rfl⟩ := hs
    exact .readCount hr he hc
  | readRequest id draws =>
    simp only [Option.ite_none_right_eq_some, Option.map_eq_some_iff] at hs
    obtain ⟨hl, ⟨lane, f, o⟩, hr, rfl⟩ := hs
    exact .readRequest hl hr
  | respond =>
    simp only [Option.ite_none_right_eq_some, Option.map_eq_some_iff] at hs
    obtain ⟨⟨hp, ha, -⟩, lane, hw, rfl⟩ := hs
    obtain ⟨t, ht⟩ := Option.ne_none_iff_exists'.mp ha
    exact .respond hp ht hw
  | drop =>
    simp only [Option.ite_none_right_eq_some, Option.some.injEq] at hs
    obtain ⟨hp, rfl⟩ := hs
    exact .drop hp
  | dropReading =>
    simp only [Option.ite_none_right_eq_some, Option.map_eq_some_iff] at hs
    obtain ⟨hl, lane, hq, rfl⟩ := hs
    exact .dropReading hl hq
  | closeResponder =>
    simp only [Option.ite_none_right_eq_some, Option.some.injEq] at hs
    obtain ⟨-, rfl⟩ := hs
    exact .closeResponder
  | cutOffResponder =>
    simp only [Option.ite_none_right_eq_some, Option.some.injEq] at hs
    obtain ⟨⟨-, -, hc⟩, rfl⟩ := hs
    exact .cutOffResponder hc
  | otherAtInitiator p =>
    obtain rfl := Option.some.inj hs
    exact .otherAtInitiator
  | otherAtResponder p =>
    obtain rfl := Option.some.inj hs
    exact .otherAtResponder
  | initiatorConnEnds k l =>
    simp only [Option.ite_none_right_eq_some, Option.some.injEq] at hs
    obtain ⟨-, rfl⟩ := hs
    exact .initiatorConnEnds
  | responderConnEnds k l =>
    simp only [Option.ite_none_right_eq_some, Option.some.injEq] at hs
    obtain ⟨-, rfl⟩ := hs
    exact .responderConnEnds
  | ownerGone =>
    obtain rfl := Option.some.inj hs
    exact .ownerGone

/-! ## What every run keeps -/

/-- A handler that panicked has lost its connection or the owner of its node. -/
structure Ends (handler : Handler) (conn owner : Bool) : Prop where
  sound : handler ≠ .panicked
  cutOff : handler = .cutOff → conn = false
  unheard : handler = .unheard → owner = false

/-- What was told so far: with the count 0 every RTT by itself and at once, else all at the end. -/
structure Tells (count : UInt32) (round : Nat) (exchanging : Bool) (rtts : List (Nat × Nat))
    (told : List (List (Nat × Nat))) : Prop where
  each : count = 0 → told <+: rtts.map ([·]) ∧ rtts.length ≤ told.length + 1 ∧
    (exchanging = true → told.length = rtts.length)
  all : count ≠ 0 → told = [] ∨ round = rounds count ∧ told = [rtts]

/-- The packets of either direction are in order, and what is answered was asked for. -/
structure Inv (B : Bincode EncodedPayload EncodedPayload.Short) (s : RlncExchange) : Prop where
  requests : s.requests.Carries B 7
  responses : s.responses.Carries B 6
  /-- no frame is of a later exchange -/
  current : ∀ f ∈ s.requests.frames, f.request ≤ s.round + if s.exchanging then 1 else 0
  idle : s.exchanging = false → s.requests.unsent = []
  answered : ∀ f ∈ s.responses.frames, f.request ∈ s.requests.returned
  silent : s.answering = none → s.responses.unsent = []
  completed : s.rtts.map Prod.snd = s.responses.returned
  ordered : (s.rtts.map Prod.fst).Pairwise (· < ·)
  earlier : ∀ p ∈ s.rtts, p.2 ≤ p.1 ∧ p.1 ≤ s.round
  tells : Tells s.count s.round s.exchanging s.rtts s.told
  reported : s.initiator = .closed → s.told.flatten = s.rtts
  initiator : Ends s.initiator s.initiatorConn s.owner
  responder : Ends s.responder s.responderConn true

theorem Ends.of_running (conn owner : Bool) : Ends .running conn owner :=
  ⟨by decide, fun h => absurd h (by decide), fun h => absurd h (by decide)⟩

theorem Ends.of_closed (conn owner : Bool) : Ends .closed conn owner :=
  ⟨by decide, fun h => absurd h (by decide), fun h => absurd h (by decide)⟩

theorem Ends.of_cutOff (owner : Bool) : Ends .cutOff false owner :=
  ⟨by decide, fun _ => rfl, fun h => absurd h (by decide)⟩

theorem Ends.of_unheard (conn : Bool) : Ends .unheard conn false :=
  ⟨by decide, fun h => absurd h (by decide), fun _ => rfl⟩

theorem Ends.connEnds {handler : Handler} {conn owner : Bool} (h : Ends handler conn owner) :
    Ends handler false owner := ⟨h.sound, fun _ => rfl, h.unheard⟩

theorem Ends.ownerGone {handler : Handler} {conn owner : Bool} (h : Ends handler conn owner) :
    Ends handler conn false := ⟨h.sound, h.cutOff, fun _ => rfl⟩

section Tells

variable {count : UInt32} {round : Nat} {exchanging : Bool} {rtts : List (Nat × Nat)}
variable {told : List (List (Nat × Nat))}

/-- No RTT is told while there are exchanges to come, or it is told by itself. -/
theorem Tells.nil_of_lt (h : Tells count round exchanging rtts told) (hr : round < rounds count)
    (hc : count ≠ 0) : told = [] :=
  (h.all hc).resolve_right fun hx => absurd hx.1 (Nat.ne_of_lt hr)

/-- An exchange is over, without an RTT. -/
theorem Tells.lost (h : Tells count round exchanging rtts told) (hr : round < rounds count) :
    Tells count (round + 1) false rtts told where
  each hc := ⟨(h.each hc).1, (h.each hc).2.1, fun hx => absurd hx (by decide)⟩
  all hc := .inl (h.nil_of_lt hr hc)

/-- An exchange is over, with an RTT. -/
theorem Tells.returned (h : Tells count round true rtts told) (hr : round < rounds count)
    (rtt : Nat × Nat) : Tells count (round + 1) false (rtts ++ [rtt]) told where
  each hc := by
    obtain ⟨hpre, -, hlen⟩ := h.each hc
    refine ⟨?_, ?_, fun hx => absurd hx (by decide)⟩
    · rw [List.map_append]
      exact hpre.trans (List.prefix_append ..)
    · rw [List.length_append, hlen rfl]
      exact Nat.le_refl _
  all hc := .inl (h.nil_of_lt hr hc)

/-- What is told are the first RTTs. -/
theorem Tells.flatten_prefix (h : Tells count round exchanging rtts told) :
    told.flatten <+: rtts := by
  by_cases hc : count = 0
  · obtain ⟨⟨rest, hrest⟩, -⟩ := h.each hc
    refine ⟨rest.flatten, ?_⟩
    rw [← List.flatten_append, hrest, ← List.flatMap_def]
    exact List.flatMap_singleton' rtts
  · rcases h.all hc with rfl | ⟨-, rfl⟩
    · exact List.nil_prefix
    · exact ⟨[], by rw [List.append_nil, List.flatten_singleton]⟩

end Tells

theorem Inv.start (count : UInt32) : Inv B { count := count } where
  requests := .init B 7
  responses := .init B 6
  current _ hf := absurd hf List.not_mem_nil
  idle _ := rfl
  answered _ hf := absurd hf List.not_mem_nil
  silent _ := rfl
  completed := rfl
  ordered := .nil
  earlier _ hp := absurd hp List.not_mem_nil
  tells := ⟨fun _ => ⟨List.nil_prefix, Nat.zero_le _, fun _ => rfl⟩, fun _ => .inl rfl⟩
  reported _ := rfl
  initiator := .of_running ..
  responder := .of_running ..

variable {s : RlncExchange}

/-- A frame of a request that is answered is of the current exchange or of an earlier one. -/
theorem Inv.answered_le (h : Inv B s) {f : SetFrame} (hf : f ∈ s.responses.frames) :
    f.request ≤ s.round + if s.exchanging then 1 else 0 := by
  obtain ⟨g, hg, hreq⟩ := h.requests.mem_returned (h.answered f hf)
  rw [← hreq]
  exact h.current g hg

theorem Inv.told_le (h : Inv B s) (hc : s.count = 0) : s.told.length ≤ s.rtts.length := by
  have hle := (h.tells.each hc).1.length_le
  rw [List.length_map] at hle
  exact hle

/-- Whoever owes no event has told everything. -/
theorem Inv.told_of_not_owes (h : Inv B s) (hr : s.count ≠ 0 → s.round = rounds s.count)
    (ho : ¬ s.owes) : s.told.flatten = s.rtts := by
  unfold owes at ho
  by_cases hc : s.count = 0
  · rw [if_pos hc] at ho
    obtain ⟨hpre, -⟩ := h.tells.each hc
    have heq := hpre.eq_of_length_le (by rw [List.length_map]; omega)
    rw [heq, ← List.flatMap_def]
    exact List.flatMap_singleton' s.rtts
  · rw [if_neg hc, not_and] at ho
    rcases h.tells.all hc with hnil | ⟨-, hall⟩
    · exact absurd hnil (ho (hr hc))
    · rw [hall, List.flatten_singleton]

/-- An event is sent. -/
theorem Inv.tell (h : Inv B s) (ho : s.owes) :
    Tells s.count s.round s.exchanging s.rtts (s.told ++ [s.event]) := by
  unfold owes at ho
  unfold event
  by_cases hc : s.count = 0
  · rw [if_pos hc] at ho ⊢
    obtain ⟨⟨rest, hrest⟩, hlen, hex⟩ := h.tells.each hc
    -- only the last RTT is not told yet
    obtain ⟨rtts, rtt, hrtts⟩ : ∃ rtts rtt, s.rtts = rtts ++ [rtt] :=
      ⟨_, _, (List.dropLast_append_getLast (List.ne_nil_of_length_pos (by omega))).symm⟩
    rw [hrtts, List.length_append, List.length_singleton] at ho hlen hex
    have htold : s.told = rtts.map ([·]) := by
      rw [hrtts, List.map_append] at hrest
      exact (List.append_inj hrest (by rw [List.length_map]; omega)).1
    refine ⟨fun _ => ?_, fun hne => absurd hc hne⟩
    rw [hrtts, List.getLast?_concat, htold, List.map_append]
    refine ⟨List.prefix_refl _, ?_, fun hx => ?_⟩
    · simp
    · simp
  · rw [if_neg hc] at ho ⊢
    exact ⟨fun hz => absurd hz hc, fun _ => .inr ⟨ho.1, by rw [ho.2]; rfl⟩⟩

/-- A request is coded. -/
theorem Inv.ask (h : Inv B s) (he : s.exchanging = false) (ho : ¬ s.owes) {id : PayloadId}
    {draws : Nat → Nat → UInt8} (hf : s.requests.Fresh id.text) {set : List EncodedPayload}
    (hset : formulate pingPayload draws id.text = some set) :
    Inv B { s with
      exchanging := true
      requests := s.requests.start B (s.round + 1) id.text set } := by
  obtain ⟨set', hset', -, hall⟩ := formulate_pingPayload draws id.text
  obtain rfl := Option.some.inj (hset.symm.trans hset')
  have hcur := h.current
  rw [he] at hcur
  have hlate : ∀ f ∈ s.requests.frames, f.request < s.round + 1 :=
    fun f hm => Nat.lt_succ_of_le (hcur f hm)
  have hcarries := h.requests.start (by decide) (by decide) hf (h.idle he) hlate hall
  have htells : Tells s.count s.round true s.rtts s.told := by
    refine ⟨fun hc => ?_, h.tells.all⟩
    unfold owes at ho
    rw [if_pos hc] at ho
    obtain ⟨hpre, hlen, -⟩ := h.tells.each hc
    exact ⟨hpre, hlen, fun _ => Nat.le_antisymm (h.told_le hc) (Nat.le_of_not_lt ho)⟩
  refine { h with
    requests := hcarries, current := fun f hm => ?_, idle := fun hx => by simp at hx,
    tells := htells }
  rw [Lane.frames_start (h.idle he)] at hm
  rcases List.mem_append.mp hm with hm | hm
  · exact Nat.le_trans (hcur f hm) (Nat.le_succ _)
  · rw [(sound_of_coded B (by decide) hall _ f hm).2.2]
    exact Nat.le_refl _

/-- A frame of a request is written. -/
theorem Inv.write (h : Inv B s) (he : s.exchanging = true) {arrives : Bool} {lane : Lane}
    (hw : s.requests.write arrives = some lane) : Inv B { s with requests := lane } := by
  have hcarries := h.requests.write hw
  obtain ⟨f, rest, -, rfl, hsub⟩ := Lane.write_some hw
  refine { h with
    requests := hcarries, current := fun g hg => h.current g (hsub.subset hg),
    idle := fun hx => ?_ }
  exact absurd (hx.symm.trans he) (by decide)

/-- The initiator handles a frame. -/
theorem Inv.received (h : Inv B s) (hw : s.awaiting) {lane : Lane} {f : SetFrame} {o : Outcome}
    (hr : s.responses.read B = some (lane, f, o)) : Inv B (s.received lane f o) := by
  obtain ⟨hp, he, hu⟩ := hw
  obtain ⟨hcarries, hreads, hq, -, hframes, -, hunsent⟩ := h.responses.read (by decide) hr
  have hf : f ∈ s.responses.frames := by
    unfold Lane.frames
    rw [hq]
    exact List.mem_append_right _ (List.mem_cons_self ..)
  have hanswered : ∀ g ∈ lane.frames, g.request ∈ s.requests.returned := by
    rw [hframes]
    exact h.answered
  have hsilent : s.answering = none → lane.unsent = [] := by
    rw [hunsent]
    exact h.silent
  have hcur := h.current
  have hle := h.answered_le hf
  rw [he] at hcur hle
  cases hreads with
  | none hnot hlane =>
    exact { h with
      responses := hcarries, answered := hanswered, silent := hsilent,
      completed := h.completed.trans hlane.symm }
  | returned hlast hlen hlane hlate =>
    refine { h with
      responses := hcarries, answered := hanswered, silent := hsilent, current := hcur,
      idle := fun _ => hu, completed := ?_, ordered := ?_, earlier := ?_,
      tells := (he ▸ h.tells).returned hp.2.2 _,
      reported := fun hx => absurd (hx.symm.trans hp.1) (by decide) }
    -- an RTT for each payload that the engine returns, and at most one in an exchange
    · show (s.rtts ++ [(s.round + 1, f.request)]).map Prod.snd = lane.returned
      rw [List.map_append, h.completed, hlane]
      rfl
    · show ((s.rtts ++ [(s.round + 1, f.request)]).map Prod.fst).Pairwise (· < ·)
      rw [List.map_append, List.pairwise_append]
      refine ⟨h.ordered, List.pairwise_singleton .., fun a ha b hb => ?_⟩
      obtain ⟨p, hp, rfl⟩ := List.mem_map.mp ha
      rw [List.mem_singleton.mp hb]
      exact Nat.lt_succ_of_le (h.earlier p hp).2
    · intro p hp
      rcases List.mem_append.mp hp with hp | hp
      · exact (h.earlier p hp).imp_right Nat.le_succ_of_le
      · rw [List.mem_singleton.mp hp]
        exact ⟨hle, Nat.le_refl _⟩

/-- The initiator gives an exchange up. -/
theorem Inv.givenUp (h : Inv B s) (hp : s.pinging) (he : s.exchanging = true) :
    Inv B s.givenUp := by
  have hcur := h.current
  rw [he] at hcur
  exact { h with
    requests := h.requests.abandon
    current := fun f hf => hcur f (s.requests.frames_abandon.subset hf)
    idle := fun _ => rfl
    earlier := fun p hp => (h.earlier p hp).imp_right Nat.le_succ_of_le
    tells := h.tells.lost hp.2.2 }

/-- The responder handles a frame. -/
theorem Inv.rebuilt (h : Inv B s) (hl : s.listening) {id : PayloadId} {draws : Nat → Nat → UInt8}
    (hf : s.responses.Fresh id.text) {lane : Lane} {f : SetFrame} {o : Outcome}
    (hr : s.requests.read B = some (lane, f, o)) : Inv B (s.rebuilt B id draws lane f o) := by
  obtain ⟨hcarries, hreads, -, -, hframes, -, hunsent⟩ := h.requests.read (by decide) hr
  have hcurrent : ∀ g ∈ lane.frames, g.request ≤ s.round + if s.exchanging then 1 else 0 := by
    rw [hframes]
    exact h.current
  have hidle : s.exchanging = false → lane.unsent = [] := by
    rw [hunsent]
    exact h.idle
  cases hreads with
  | none hnot hlane =>
    refine { h with requests := hcarries, current := hcurrent, idle := hidle, answered := ?_ }
    show ∀ f ∈ s.responses.frames, f.request ∈ lane.returned
    rw [hlane]
    exact h.answered
  | @returned r hlast hlen hlane hlate =>
    have hne : r ≠ [] := List.ne_nil_of_length_pos (by omega)
    obtain ⟨set, hset, -, hall⟩ := formulate_spec hne draws id.text
    -- what was rebuilt from seven packets has a chunk less than the request
    have hsplit : (split r).length = 6 := by
      rw [length_split, hlen]
    rw [hsplit] at hall
    have hu := h.silent hl.2
    have hstart := h.responses.start (by decide) (by decide) hf hu
      (fun g hg => hlate _ (h.answered g hg)) hall
    simp only [RlncExchange.rebuilt, hset]
    refine { h with
      requests := hcarries, responses := hstart, current := hcurrent, idle := hidle,
      answered := fun g hg => ?_, silent := fun hn => by simp at hn }
    rw [hlane]
    rw [Lane.frames_start hu] at hg
    rcases List.mem_append.mp hg with hg | hg
    · exact List.mem_append_left _ (h.answered g hg)
    · rw [(sound_of_coded B (by decide) hall _ g hg).2.2]
      exact List.mem_append_right _ (List.mem_singleton_self _)

/-- A frame of an answer is written. -/
theorem Inv.responded (h : Inv B s) {t : Nat} (ha : s.answering = some t) {arrives : Bool}
    {lane : Lane} (hw : s.responses.write arrives = some lane) : Inv B (s.responded lane) := by
  have hcarries := h.responses.write hw
  obtain ⟨f, rest, -, hlane, hsub⟩ := Lane.write_some hw
  have hanswered := fun g hg => h.answered g (hsub.subset hg)
  have hcompleted : s.rtts.map Prod.snd = lane.returned := by
    rw [hlane]
    exact h.completed
  unfold RlncExchange.responded
  split_ifs with hu
  · exact { h with
      responses := hcarries, answered := hanswered, silent := fun _ => hu,
      completed := hcompleted }
  · refine { h with
      responses := hcarries, answered := hanswered, silent := fun hn => ?_,
      completed := hcompleted }
    exact absurd (ha.symm.trans hn) (Option.some_ne_none t)

/-- The responder gives an exchange up. -/
theorem Inv.dropping (h : Inv B s) : Inv B s.dropping :=
  { h with
    responses := h.responses.abandon
    answered := fun f hf => h.answered f (s.responses.frames_abandon.subset hf)
    silent := fun _ => rfl }

/-- The last frames on their way are gone. -/
theorem Inv.cut (h : Inv B s) (k l : Nat) : Inv B (s.cut k l) :=
  { h with
    requests := h.requests.keep _
    responses := h.responses.keep l
    current := fun f hf => h.current f ((s.requests.frames_keep _).subset hf)
    answered := fun f hf => h.answered f ((s.responses.frames_keep l).subset hf) }

/-- **Every step keeps this.** -/
theorem Inv.step {s' : RlncExchange} {a : RlncAct} (h : Inv B s) (hfresh : s.FreshIds a)
    (hs : s.step B a = some s') : Inv B s' := by
  cases step_move hs with
  | announce hi ha => exact { h with }
  | noSet hf =>
    -- a payload that is not empty is never refused
    obtain ⟨set, hset, -⟩ := formulate_pingPayload _ _
    exact absurd (hf.symm.trans hset).symm (Option.some_ne_none set)
  | ask hp he ho hf => exact h.ask he ho hfresh hf
  | write hp he hw => exact h.write he hw
  | read hw hr => exact h.received hw hr
  | giveUp hp he => exact h.givenUp hp he
  | giveUpReading hw hl =>
    have hg := h.givenUp hw.1 hw.2.1
    have hcarries := h.responses.lose hl
    obtain ⟨f, rest, -, rfl, hsub⟩ := Lane.lose_some hl
    exact { hg with
      responses := hcarries, answered := fun f hf => h.answered f (hsub.subset hf),
      silent := h.silent, completed := h.completed }
  | tell hi ho =>
    exact { h with
      tells := h.tell ho, reported := fun hx => absurd (hx.symm.trans hi) (by decide) }
  | unheard hw =>
    refine { h with reported := fun hx => by simp at hx, initiator := ?_ }
    show Ends .unheard s.initiatorConn s.owner
    rw [hw]
    exact .of_unheard _
  | close hf =>
    exact { h with
      reported := fun _ => h.told_of_not_owes (fun _ => hf.2.1) hf.2.2
      initiator := .of_closed .. }
  | cutOff hc =>
    refine { h with reported := fun hx => by simp at hx, initiator := ?_ }
    show Ends .cutOff s.initiatorConn s.owner
    rw [hc]
    exact .of_cutOff _
  | readCount hr he hc => exact { h with }
  | readRequest hl hr => exact h.rebuilt hl hfresh hr
  | respond hp ha hw => exact h.responded ha hw
  | drop hp => exact h.dropping
  | dropReading hl hq =>
    have hd := h.dropping
    have hcarries := h.requests.lose hq
    obtain ⟨f, rest, -, rfl, hsub⟩ := Lane.lose_some hq
    exact { hd with
      requests := hcarries, current := fun f hf => h.current f (hsub.subset hf),
      idle := h.idle, answered := hd.answered }
  | closeResponder => exact { h with responder := .of_closed .. }
  | cutOffResponder hc =>
    refine { h with responder := ?_ }
    show Ends .cutOff s.responderConn true
    rw [hc]
    exact .of_cutOff _
  | otherAtInitiator => exact { h with responses := h.responses.other hfresh }
  | otherAtResponder => exact { h with requests := h.requests.other hfresh }
  | initiatorConnEnds => exact { h.cut _ _ with initiator := h.initiator.connEnds }
  | responderConnEnds => exact { h.cut _ _ with responder := h.responder.connEnds }
  | ownerGone => exact { h with initiator := h.initiator.ownerGone }

end RlncExchange

/-- Two handlers with coded packets on a stream. -/
def rlncExchange (B : Bincode EncodedPayload EncodedPayload.Short) (count : UInt32) :
    System RlncExchange RlncAct where
  init s := s = { count := count }
  step := RlncExchange.step B

/-- Packet `k` is chunk `k`. -/
def units (k i : Nat) : UInt8 := if k = i then 1 else 0

def requestId : PayloadId := ⟨"aaaaaaaaaaaaaaaa", by decide, List.all_eq_true.mp (by decide)⟩

def answerId : PayloadId := ⟨"bbbbbbbbbbbbbbbb", by decide, List.all_eq_true.mp (by decide)⟩

def secondId : PayloadId := ⟨"cccccccccccccccc", by decide, List.all_eq_true.mp (by decide)⟩

/-- The first exchange is given up in front of its answer, which completes the second one. -/
def lateAnswer : List RlncAct :=
  [.announce, .readCount, .ask requestId units] ++ List.replicate 7 .write ++
    List.replicate 7 (.readRequest answerId units) ++ [.giveUp, .ask secondId units] ++
    List.replicate 6 .respond ++ List.replicate 10 .write ++ List.replicate 6 .read

/-- It is told, and the connection ends in front of the close. -/
def cutShort : List RlncAct := lateAnswer ++ [.tell, .initiatorConnEnds 3 0, .cutOff]

theorem lateAnswer_enabled : ((rlncExchange EncodedPayload.bincode 2).exec RlncExchange.Lossless
    { count := 2 } lateAnswer).any (fun s => decide (s.rtts = [(2, 1)])) = true := by
  decide +kernel

theorem cutShort_enabled : ((rlncExchange EncodedPayload.bincode 2).exec RlncExchange.FreshIds
    { count := 2 } cutShort).any (fun s => decide (s.initiator = .cutOff ∧
      s.told = [[(2, 1)]])) = true := by decide +kernel

theorem lateAnswer_run : ∃ s,
    (rlncExchange EncodedPayload.bincode 2).RunUnder RlncExchange.Lossless lateAnswer s ∧
      s.rtts = [(2, 1)] := by
  obtain ⟨s, hs, hq⟩ := (Option.any_eq_true ..).mp lateAnswer_enabled
  exact ⟨s, runUnder_of_exec rfl hs, of_decide_eq_true hq⟩

end Rnet.Ping
