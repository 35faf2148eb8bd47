import Rnet.Udp.Socket

/-!
# The acknowledgement of a call of `dial`

`dial` puts `Connect` on the write queue, and then makes the entry that the acknowledgement of
the other node needs. Another task sends the `Connect`, and nothing makes it wait for the entry.

> `acknowledgement_delivered`: if `Connect` is sent after the entry is made, and nothing of the
other node overtakes its acknowledgement, then the call gets the acknowledgement.

Without that the acknowledgement may come first and end the loop (`acknowledgement_comes_first`).
A datagram of a third node may end the loop as well; then nothing more is received.

The network may lose datagrams, deliver them twice and in any order. The accepting node makes
no calls of `dial` to the other one, and each of them may deal with other nodes as it likes.
-/

namespace Rnet.Udp

open Rnet.Lib
open Rnet.Lib.System (runUnder_of_exec guarded_of_exec guarded_of_invariant)

/-! ## Two nodes and the network -/

section Model

variable {Addr : Type} [DecidableEq Addr]

namespace UdpTransport

/-- The datagrams that `io_loop` sends to a socket in the turn. -/
def sentTo (s : UdpTransport Addr) (addr : Addr) : UdpAct Addr → List (List UInt8)
  | .writeReq true =>
    match s.writeReq with
    | (socket, frame) :: _ =>
      if INTERNAL.isPrefixOf frame then [] else if socket = addr then [frame] else []
    | [] => []
  | _ => []

/-- What is in the channel of connection `c` or on the way into it. -/
def onTheWay (s : UdpTransport Addr) (c : Nat) : List (List UInt8) :=
  ((s.conns[c]?).map (·.queue)).getD [] ++ s.handFor c

end UdpTransport

structure Dialogue (Addr : Type) where
  /-- the node that dials -/
  near : UdpTransport Addr
  /-- the node that accepts -/
  far : UdpTransport Addr
  /-- the datagrams sent so far -/
  toNear : List (List UInt8) := []
  toFar : List (List UInt8) := []
  /-- the call of `dial` -/
  dial : Option Nat := none

inductive DialogueAct (Addr : Type)
  | near (a : UdpAct Addr)
  | far (a : UdpAct Addr)
  /-- the `i`-th datagram for the node arrives -/
  | arriveNear (i : Nat)
  | arriveFar (i : Nat)
  deriving DecidableEq

namespace Dialogue

/-- What comes from `there` comes through the network, and `there` is dialed once. -/
def nearMay (s : Dialogue Addr) (there : Addr) : UdpAct Addr → Bool
  | .recvFrom r _ => decide (r ≠ there)
  | .dial r => decide (r ≠ there) || s.dial.isNone
  | _ => true

/-- What comes from `here` comes through the network, and `here` is not dialed. -/
def farMay (here : Addr) : UdpAct Addr → Bool
  | .recvFrom r _ => decide (r ≠ here)
  | .dial r => decide (r ≠ here)
  | _ => true

/-- A turn of the dialing node. -/
def stepNear (there : Addr) (s : Dialogue Addr) (a : UdpAct Addr) : Option (Dialogue Addr) :=
  (s.near.step a).map fun t => { s with
    near := t
    toFar := s.toFar ++ s.near.sentTo there a
    dial := if a = .dial there then some s.near.dials.length else s.dial }

/-- A turn of the accepting node. -/
def stepFar (here : Addr) (s : Dialogue Addr) (a : UdpAct Addr) : Option (Dialogue Addr) :=
  (s.far.step a).map fun t => { s with far := t, toNear := s.toNear ++ s.far.sentTo here a }

def step (here there : Addr) (s : Dialogue Addr) : DialogueAct Addr → Option (Dialogue Addr)
  | .near a => if s.nearMay there a then s.stepNear there a else none
  | .far a => if farMay here a then s.stepFar here a else none
  | .arriveNear i =>
    match s.toNear[i]? with
    | some b => s.stepNear there (.recvFrom there b)
    | none => none
  | .arriveFar i =>
    match s.toFar[i]? with
    | some b => s.stepFar here (.recvFrom here b)
    | none => none

/-! ## What is asked of the steps, and what they give -/

/-- The call has not made its entry yet. -/
def pending (s : Dialogue Addr) (there : Addr) : Bool :=
  s.dial.any fun d : Nat => decide (s.near.dials[d]? = some (.sent there))

/-- The call waits, and nothing has arrived for it. -/
def blank (s : Dialogue Addr) : Bool :=
  s.dial.any fun d : Nat =>
    match s.near.dials[d]? with
    | some (.waiting c) => decide (s.near.onTheWay c = [])
    | _ => false

/-- Datagram `i` carries something that is not the acknowledgement. -/
def other (s : Dialogue Addr) (i : Nat) : Bool :=
  ((s.toNear[i]?).bind deserializeUdpPacket).any fun r =>
    decide (r.1 = .general ∧ r.2 ≠ acknowledgement)

/-- **The entry comes before the acknowledgement**:
- `io_loop` takes no frame for `there` off the write queue while the call has not made its entry;
- until something has arrived for the call, what arrives is the acknowledgement. -/
def Prepared (there : Addr) (s : Dialogue Addr) : DialogueAct Addr → Prop
  | .near (.writeReq _) => ¬ (s.pending there = true ∧ s.near.writeReq.head?.map (·.1) = some there)
  | .arriveNear i => ¬ (s.blank = true ∧ s.other i = true)
  | _ => True

instance (there : Addr) (s : Dialogue Addr) : ∀ a, Decidable (s.Prepared there a)
  | .near (.writeReq _) => inferInstanceAs (Decidable (¬ (_ ∧ _)))
  | .arriveNear _ => inferInstanceAs (Decidable (¬ (_ ∧ _)))
  | .near (.recvFrom ..) | .near .announce | .near .put | .near .acceptTake | .near .acceptInsert
  | .near .acceptAck | .near .acceptDrop | .near (.dial _) | .near (.dialInsert _)
  | .near (.dialAck _) | .near (.write ..) | .near (.close _) | .near (.read _) | .near (.drop _)
  | .far _ | .arriveFar _ => .isTrue trivial

/-- The entry of the dialed socket names the connection that the call waits for, or the call has got
its acknowledgement before. -/
def Expected (there : Addr) (s : Dialogue Addr) : Prop :=
  ∃ d, s.dial = some d ∧
    ((∃ c, s.near.dials[d]? = some (.waiting c) ∧ s.near.peerstore there = some c ∧
      s.near.aliveAt c = true) ∨ ∃ c, s.near.dials[d]? = some (.returned c))

/-- **The acknowledgement is delivered** to the connection being dialed:
- when it arrives at the loop, the entry is there;
- the loop puts what is for the waiting call into a channel with an owner;
- what the call takes from the channel makes it return. -/
def Delivered (there : Addr) (s : Dialogue Addr) : DialogueAct Addr → Prop
  | .arriveNear i => ∀ b, s.toNear[i]? = some b →
      deserializeUdpPacket b = some (.general, acknowledgement) → s.Expected there
  | .near .put => ∀ d c p, s.dial = some d → s.near.dials[d]? = some (.waiting c) →
      s.near.inHand = some (c, p) → s.near.aliveAt c = true
  | .near (.dialAck d) => s.dial = some d → ∀ t, s.near.step (.dialAck d) = some t →
      ∃ c, t.dials[d]? = some (.returned c)
  | _ => True

end Dialogue

/-- Two nodes from `listen` on, `near` at `here` and `far` at `there`. -/
def dialogue (here there : Addr) (nearId farId : String) :
    System (Dialogue Addr) (DialogueAct Addr) where
  init := fun s => s = { near := { localPeerId := nearId }, far := { localPeerId := farId } }
  step := Dialogue.step here there

end Model

/-! ## How far the two have come -/

section Stages

variable {Addr : Type}

namespace UdpTransport

/-- What the node sends to the socket are `General` packets. -/
def Answers (s : UdpTransport Addr) (addr : Addr) : Prop :=
  ∀ f, (addr, f) ∈ s.writeReq →
    INTERNAL.isPrefixOf f = true ∨ ∃ p, f = serializeUdpPacket p .general

variable [DecidableEq Addr]

theorem mem_sentTo {s : UdpTransport Addr} {addr : Addr} {a : UdpAct Addr} {f : List UInt8}
    (h : f ∈ s.sentTo addr a) : (∃ ok, a = .writeReq ok) ∧
      s.writeReq.head?.map (·.1) = some addr ∧ (addr, f) ∈ s.writeReq ∧
      INTERNAL.isPrefixOf f = false := by
  unfold sentTo at h
  split at h
  · split at h
    · rename_i socket frame rest hq
      split at h
      · simp at h
      · rename_i hint
        split at h
        · rename_i hsocket
          obtain rfl := List.mem_singleton.mp h
          subst hsocket
          refine ⟨⟨true, rfl⟩, by rw [hq]; rfl, ?_, eq_false_of_ne_true hint⟩
          rw [hq]
          exact List.mem_cons_self ..
        · simp at h
    · simp at h
  · simp at h

/-- Nothing is sent to a socket that nothing is known of. -/
theorem Only.sentTo_eq {s : UdpTransport Addr} {addr : Addr} {e : Option Nat}
    (h : Only s addr none e) (a : UdpAct Addr) : s.sentTo addr a = [] := by
  refine List.eq_nil_iff_forall_not_mem.mpr fun f hf => ?_
  have hd := (h.frames f (mem_sentTo hf).2.2.1).1
  simp at hd

omit [DecidableEq Addr] in
theorem Only.answers {s : UdpTransport Addr} {addr : Addr} {e : Option Nat}
    (h : Only s addr none e) : s.Answers addr := by
  intro f hf
  have hd := (h.frames f hf).1
  simp at hd

/-- **One turn** of a node that does not dial the socket. -/
theorem Answers.step {s t : UdpTransport Addr} {addr : Addr} (h : s.Answers addr)
    {a : UdpAct Addr} (hs : s.step a = some t) (hdial : a ≠ .dial addr) : t.Answers addr := by
  intro f hf
  rcases step_writeReq hs (addr, f) hf with hold | ⟨socket, p, ha, he⟩ | ⟨p, he⟩ | he
  · exact h f hold
  · exact absurd (by rw [ha, (Prod.mk.inj he).1]) hdial
  · exact Or.inr ⟨p, he⟩
  · left
    rw [show f = _ from he, List.isPrefixOf_iff_prefix]
    exact List.prefix_append ..

omit [DecidableEq Addr] in
theorem Channel.onTheWay_eq {s : UdpTransport Addr} {c : Nat} {q : List (List UInt8)}
    (h : s.Channel c q) : s.onTheWay c = q := by
  obtain ⟨conn, hc, -, hq⟩ := h
  rw [onTheWay, hc]
  exact hq

omit [DecidableEq Addr] in
theorem Channel.aliveAt {s : UdpTransport Addr} {c : Nat} {q : List (List UInt8)}
    (h : s.Channel c q) : s.aliveAt c = true := by
  obtain ⟨conn, hc, halive, -⟩ := h
  rw [UdpTransport.aliveAt, hc]
  exact halive

end UdpTransport

namespace Dialogue

open UdpTransport

/-- How far the call of `dial` has come, and what the nodes know of each other. -/
inductive Stage (here there : Addr) (s : Dialogue Addr) : Prop
  | undialed (hdial : s.dial = none) (hnear : Only s.near there none none)
      (hfar : Only s.far here none none) (hto : s.toFar = []) (hfrom : s.toNear = [])
  | sent (d : Nat) (hdial : s.dial = some d) (hsent : s.near.dials[d]? = some (.sent there))
      (hnear : Only s.near there (some d) none) (hfar : Only s.far here none none)
      (hto : s.toFar = []) (hfrom : s.toNear = [])
  | waiting (d c : Nat) (q : List (List UInt8)) (hdial : s.dial = some d)
      (hnear : Only s.near there (some d) (some c)) (hwait : Waits s.near d c q)
      (hq : q = [] ∨ q.head? = some acknowledgement) (hfar : s.far.Answers here)
      (hfrom : ∀ b ∈ s.toNear, ∃ p, b = serializeUdpPacket p .general)
  | returned (d c : Nat) (hdial : s.dial = some d) (hret : s.near.dials[d]? = some (.returned c))

/-- **The invariant** of a run in which the entry comes before the acknowledgement. -/
structure Inv (here there : Addr) (s : Dialogue Addr) : Prop where
  near : s.near.Wf
  made : s.near.Made
  stage : Stage here there s

variable [DecidableEq Addr]

/-- A turn of the accepting node. -/
theorem Stage.far {here there : Addr} {s s' : Dialogue Addr} (h : Stage here there s)
    {a : UdpAct Addr} (hrecv : s.toFar = [] → ∀ b, a ≠ .recvFrom here b) (hdial : a ≠ .dial here)
    (hs : s.stepFar here a = some s') : Stage here there s' := by
  obtain ⟨t, ht, rfl⟩ := Option.map_eq_some_iff.mp hs
  cases h with
  | undialed hd hnear hfar hto hfrom =>
    refine .undialed hd hnear (hfar.step ht (hrecv hto) hdial (by simp) (by simp)) hto ?_
    rw [hfrom, hfar.sentTo_eq]
    rfl
  | sent d hd hsent hnear hfar hto hfrom =>
    refine .sent d hd hsent hnear (hfar.step ht (hrecv hto) hdial (by simp) (by simp)) hto ?_
    rw [hfrom, hfar.sentTo_eq]
    rfl
  | waiting d c q hd hnear hwait hq hfar hfrom =>
    refine .waiting d c q hd hnear hwait hq (hfar.step ht hdial) fun b hb => ?_
    rcases List.mem_append.mp hb with hb | hb
    · exact hfrom b hb
    · obtain ⟨-, -, hmem, hint⟩ := mem_sentTo hb
      rcases hfar b hmem with hyes | hp
      · rw [hint] at hyes
        simp at hyes
      · exact hp
  | returned d c hd hret => exact .returned d c hd hret

/-- The call takes the acknowledgement. -/
theorem dialAck_returns {s t : UdpTransport Addr} {d c : Nat} {there : Addr}
    {q : List (List UInt8)} (hw : Wf s) (hnear : Only s there (some d) (some c))
    (hwait : Waits s d c q) (hq : q = [] ∨ q.head? = some acknowledgement)
    (hs : s.step (.dialAck d) = some t) : t.dials[d]? = some (.returned c) := by
  have hlt := (List.getElem?_eq_some_iff.mp hwait.dial).1
  cases step_turn hs with
  | dialReturn _ k u hd hrecv =>
    obtain rfl := Dialing.waiting.inj (Option.some.inj (hd.symm.trans hwait.dial))
    exact List.getElem?_set_self hlt
  | dialFail _ k u r hd hrecv hr =>
    -- the channel is not hung up, and what it holds begins with the acknowledgement
    obtain rfl := Dialing.waiting.inj (Option.some.inj (hd.symm.trans hwait.dial))
    obtain ⟨conn, hc, -, hqueue⟩ := hwait.channel
    obtain ⟨conn', hc', hcases⟩ := recv_cases hrecv
    obtain rfl := Option.some.inj (hc.symm.trans hc')
    rcases hcases with ⟨p, rest, hp, rfl, -⟩ | ⟨-, hup, -, -⟩
    · rw [hp, List.cons_append] at hqueue
      rcases hq with hq | hq
      · rw [hq] at hqueue
        simp at hqueue
      · rw [← hqueue, List.head?_cons] at hq
        exact absurd hq hr
    · rw [hungUp, Bool.and_eq_true, decide_eq_true_eq] at hup
      obtain ⟨e, he, hsocket⟩ := hw.entries there _ hnear.entry
      rw [records, List.getElem?_map, hc] at he
      rw [← Option.some.inj he] at hsocket
      refine absurd ?_ hup.1
      rw [show conn.remoteSocket = there from hsocket]
      exact hnear.entry

/-- There is one call of `dial` for the accepting node. -/
theorem dialed_once {s : Dialogue Addr} {there : Addr} {a : UdpAct Addr} {d : Nat}
    (hmay : s.nearMay there a = true) (hd : s.dial = some d) : a ≠ .dial there := by
  intro h
  subst h
  simp [nearMay, hd] at hmay

/-- A turn of the dialing node. -/
theorem Stage.near {here there : Addr} {s s' : Dialogue Addr} (h : Inv here there s)
    {a : UdpAct Addr} (hmay : s.nearMay there a = true) (hguard : s.Prepared there (.near a))
    (hs : s.stepNear there a = some s') : Stage here there s' := by
  obtain ⟨t, ht, rfl⟩ := Option.map_eq_some_iff.mp hs
  have hrecv : ∀ b, a ≠ .recvFrom there b := by
    intro b h
    subst h
    simp [nearMay] at hmay
  cases h.stage with
  | undialed hd hnear hfar hto hfrom =>
    by_cases ha : a = .dial there
    · -- the call begins: `Connect` is queued, and nothing has been sent
      subst ha
      refine .sent s.near.dials.length (by simp) ?_ (hnear.dialed ht) hfar ?_ hfrom
      · cases step_turn ht with
        | dial _ => exact List.getElem?_concat_length
      · rw [hto]
        rfl
    · refine .undialed ?_ (hnear.step ht hrecv ha (by simp) (by simp)) hfar ?_ hfrom
      · rw [if_neg ha]
        exact hd
      · rw [hto, hnear.sentTo_eq]
        rfl
  | sent d hd hsent hnear hfar hto hfrom =>
    have hdial := dialed_once hmay hd
    -- `Connect` stays on the queue until the call has made its entry
    have hquiet : s.near.sentTo there a = [] := by
      refine List.eq_nil_iff_forall_not_mem.mpr fun f hf => ?_
      obtain ⟨⟨ok, rfl⟩, hhead, -⟩ := mem_sentTo hf
      exact hguard ⟨by rw [pending, hd, Option.any_some, hsent]; simp, hhead⟩
    by_cases ha : a = .dialInsert d
    · subst ha
      exact .waiting d _ [] (by simpa using hd) (hnear.inserted hsent ht)
        (Waits.inserted h.near h.made ht) (Or.inl rfl) hfar.answers (by simp [hfrom])
    · have hins : ∀ i, some d = some i → a ≠ .dialInsert i := by
        intro i hi h
        subst h
        exact ha (by rw [Option.some.inj hi])
      refine .sent d ?_ (dialing_stays ht hsent (fun _ _ => ha) (by simp))
        (hnear.step ht hrecv hdial hins (by simp)) hfar ?_ hfrom
      · rw [if_neg hdial]
        exact hd
      · rw [hto, hquiet]
        rfl
  | waiting d c q hd hnear hwait hq hfar hfrom =>
    have hdial := dialed_once hmay hd
    have hd' : (if a = .dial there then some s.near.dials.length else s.dial) = some d := by
      rw [if_neg hdial]
      exact hd
    by_cases ha : a = .dialAck d
    · subst ha
      exact .returned d c hd' (dialAck_returns h.near hnear hwait hq ht)
    · have hins : ∀ i, some d = some i → a ≠ .dialInsert i := by
        intro i hi h
        subst h
        obtain rfl := Option.some.inj hi
        cases step_turn ht with
        | dialInsert _ socket hsent =>
          rw [hwait.dial] at hsent
          simp at hsent
      have hfree : ∀ k, some c = some k → s.near.accepting ≠ .registered k ∧
          s.near.owned k = false := by
        intro k hk
        obtain rfl := Option.some.inj hk
        exact ⟨hwait.accepting, hwait.owned⟩
      -- an entry names a connection of its own socket
      have hother : ∀ r b, a = .recvFrom r b → s.near.peerstore r ≠ some c := by
        intro r b h hr
        subst h
        obtain ⟨e, he, hsocket⟩ := h.near.entries there c hnear.entry
        exact hrecv b (by rw [h.near.socket_unique hr he, hsocket])
      exact .waiting d c q hd' (hnear.step ht hrecv hdial hins hfree)
        (hwait.step h.near ht ha hother) hq hfar hfrom
  | returned d c hd hret =>
    have hdial := dialed_once hmay hd
    exact .returned d c (by rw [if_neg hdial]; exact hd)
      (dialing_stays ht hret (by simp) (by simp))

/-- A datagram of the accepting node arrives. -/
theorem Stage.arriveNear {here there : Addr} {s s' : Dialogue Addr} (h : Inv here there s)
    {i : Nat} {b : List UInt8} (hb : s.toNear[i]? = some b)
    (hguard : s.Prepared there (.arriveNear i))
    (hs : s.stepNear there (.recvFrom there b) = some s') : Stage here there s' := by
  obtain ⟨t, ht, rfl⟩ := Option.map_eq_some_iff.mp hs
  have hmem := List.mem_of_getElem? hb
  cases h.stage with
  | undialed hd hnear hfar hto hfrom =>
    rw [hfrom] at hmem
    simp at hmem
  | sent d hd hsent hnear hfar hto hfrom =>
    rw [hfrom] at hmem
    simp at hmem
  | waiting d c q hd hnear hwait hq hfar hfrom =>
    obtain ⟨p, rfl⟩ := hfrom b hmem
    have hp := deserialize_serialize p .general
    refine .waiting d c _ (by simpa using hd) (hnear.general hp ht)
      (hwait.recv hnear.entry hp ht) (Or.inr ?_) hfar hfrom
    rcases hq with rfl | hq
    · -- the first datagram for the call
      have hack : p = acknowledgement := by
        by_contra hne
        refine hguard ⟨?_, ?_⟩
        · rw [blank, hd, Option.any_some, hwait.dial]
          simp [hwait.channel.onTheWay_eq]
        · rw [other, hb, Option.bind_some, hp]
          simpa using hne
      rw [hack]
      decide +kernel
    · rw [List.head?_append, hq]
      rfl
  | returned d c hd hret =>
    exact .returned d c (by simpa using hd) (dialing_stays ht hret (by simp) (by simp))

/-- **One step** keeps the invariant. -/
theorem Inv.step {here there : Addr} {s s' : Dialogue Addr} (h : Inv here there s)
    {a : DialogueAct Addr} (hguard : s.Prepared there a) (hs : s.step here there a = some s') :
    Inv here there s' := by
  have turned : ∀ {b}, s.stepNear there b = some s' → Stage here there s' →
      Inv here there s' := by
    intro b hb hstage
    obtain ⟨t, ht, rfl⟩ := Option.map_eq_some_iff.mp hb
    exact ⟨h.near.step ht, h.made.step h.near ht, hstage⟩
  have stayed : ∀ {b}, s.stepFar here b = some s' → Stage here there s' →
      Inv here there s' := by
    intro b hb hstage
    obtain ⟨t, ht, rfl⟩ := Option.map_eq_some_iff.mp hb
    exact ⟨h.near, h.made, hstage⟩
  cases a with
  | near a =>
    rw [Dialogue.step] at hs
    split at hs
    · rename_i hmay
      exact turned hs (Stage.near h hmay hguard hs)
    · simp at hs
  | far a =>
    rw [Dialogue.step] at hs
    split at hs
    · rename_i hmay
      refine stayed hs (h.stage.far ?_ ?_ hs)
      · intro _ b h
        subst h
        simp [farMay] at hmay
      · intro h
        subst h
        simp [farMay] at hmay
    · simp at hs
  | arriveNear i =>
    rw [Dialogue.step] at hs
    split at hs
    · rename_i b hb
      exact turned hs (Stage.arriveNear h hb hguard hs)
    · simp at hs
  | arriveFar i =>
    rw [Dialogue.step] at hs
    split at hs
    · rename_i b hb
      refine stayed hs (h.stage.far (fun hto => ?_) (by simp) hs)
      rw [hto] at hb
      simp at hb
    · simp at hs

omit [DecidableEq Addr] in
/-- What the call waits for. -/
theorem Inv.waits {here there : Addr} {s : Dialogue Addr} (h : Inv here there s) {d c : Nat}
    (hd : s.dial = some d) (hc : s.near.dials[d]? = some (.waiting c)) :
    ∃ q, Only s.near there (some d) (some c) ∧ Waits s.near d c q ∧
      (q = [] ∨ q.head? = some acknowledgement) := by
  cases h.stage with
  | undialed hd' =>
    rw [hd'] at hd
    simp at hd
  | sent d' hd' hsent =>
    obtain rfl := Option.some.inj (hd.symm.trans hd')
    rw [hsent] at hc
    simp at hc
  | waiting d' c' q hd' hnear hwait hq =>
    obtain rfl := Option.some.inj (hd.symm.trans hd')
    obtain rfl := Dialing.waiting.inj (Option.some.inj (hc.symm.trans hwait.dial))
    exact ⟨q, hnear, hwait, hq⟩
  | returned d' c' hd' hret =>
    obtain rfl := Option.some.inj (hd.symm.trans hd')
    rw [hret] at hc
    simp at hc

/-- Only a call that waits takes an acknowledgement. -/
theorem waiting_of_dialAck {s t : UdpTransport Addr} {d : Nat}
    (hs : s.step (.dialAck d) = some t) : ∃ c, s.dials[d]? = some (.waiting c) := by
  cases step_turn hs with
  | dialReturn _ c u hd => exact ⟨c, hd⟩
  | dialFail _ c u r hd => exact ⟨c, hd⟩

/-- Where the invariant holds, the acknowledgement is delivered. -/
theorem Inv.delivered {here there : Addr} {s : Dialogue Addr} (h : Inv here there s)
    (a : DialogueAct Addr) : s.Delivered there a := by
  cases a with
  | near a =>
    cases a with
    | put =>
      intro d c p hd hdial hhand
      obtain ⟨q, -, hwait, -⟩ := h.waits hd hdial
      exact hwait.channel.aliveAt
    | dialAck d =>
      intro hd t ht
      obtain ⟨c, hdial⟩ := waiting_of_dialAck ht
      obtain ⟨q, hnear, hwait, hq⟩ := h.waits hd hdial
      exact ⟨c, dialAck_returns h.near hnear hwait hq ht⟩
    | recvFrom | writeReq | announce | acceptTake | acceptInsert | acceptAck | acceptDrop | dial
    | dialInsert | write | close | read | drop => trivial
  | arriveNear i =>
    intro b hb _
    have hmem := List.mem_of_getElem? hb
    cases h.stage with
    | undialed hd hnear hfar hto hfrom | sent d hd hsent hnear hfar hto hfrom =>
      rw [hfrom] at hmem
      simp at hmem
    | waiting d c q hd hnear hwait =>
      exact ⟨d, hd, Or.inl ⟨c, hwait.dial, hnear.entry, hwait.channel.aliveAt⟩⟩
    | returned d c hd hret => exact ⟨d, hd, Or.inr ⟨c, hret⟩⟩
  | far | arriveFar => trivial

end Dialogue

end Stages

/-! ## Every run -/

/-- **A call of `dial`.** In every interleaving of the two nodes, and whatever the network does to
their datagrams: if at every step the entry comes before the acknowledgement, then at every step the
acknowledgement is delivered to the connection being dialed. -/
theorem acknowledgement_delivered {Addr : Type} [DecidableEq Addr] (here there : Addr)
    (nearId farId : String) {s₀ : Dialogue Addr} (h₀ : (dialogue here there nearId farId).init s₀)
    (as : List (DialogueAct Addr))
    (has : (dialogue here there nearId farId).Guarded (Dialogue.Prepared there) s₀ as) :
    (dialogue here there nearId farId).Guarded (Dialogue.Delivered there) s₀ as := by
  refine guarded_of_invariant (Dialogue.Inv here there) (fun s a s' h hguard hs => ?_) as s₀ ?_ has
  · exact ⟨h.step hguard hs, h.delivered a⟩
  · obtain rfl := h₀
    refine ⟨UdpTransport.Wf.init rfl, ⟨by simp, by simp⟩, .undialed rfl ?_ ?_ rfl rfl⟩
    · exact ⟨rfl, by simp, by simp, by simp, by simp, by simp, by simp⟩
    · exact ⟨rfl, by simp, by simp, by simp, by simp, by simp, by simp⟩

/-! ## Two runs -/

/-- Node 0 dials node 1, which accepts; `Connect` is sent before the entry is made. -/
def race : List (DialogueAct Nat) :=
  [.near (.dial 1), .near (.writeReq true), .arriveFar 0, .far .announce, .far .acceptTake,
    .far .acceptInsert, .far .acceptAck, .far (.writeReq true)]

/-- The same with the entry first, and to the end. -/
def shakeHands : List (DialogueAct Nat) :=
  [.near (.dial 1), .near (.dialInsert 0), .near (.writeReq true), .arriveFar 0, .far .announce,
    .far .acceptTake, .far .acceptInsert, .far .acceptAck, .far (.writeReq true), .arriveNear 0,
    .near .put, .near (.dialAck 0)]

theorem shakeHands_prepared :
    ((dialogue 0 1 "near" "far").exec (fun s a => s.Prepared 1 a)
      { near := { localPeerId := "near" }, far := { localPeerId := "far" } } shakeHands).isSome
      = true := by
  decide +kernel

theorem delivered_shakeHands :
    (dialogue 0 1 "near" "far").Guarded (Dialogue.Delivered 1)
      { near := { localPeerId := "near" }, far := { localPeerId := "far" } } shakeHands := by
  obtain ⟨s, hs⟩ := Option.isSome_iff_exists.mp shakeHands_prepared
  exact acknowledgement_delivered 0 1 "near" "far" rfl shakeHands (guarded_of_exec shakeHands hs)

theorem race_runs :
    ((dialogue 0 1 "near" "far").exec (fun _ _ => True)
      { near := { localPeerId := "near" }, far := { localPeerId := "far" } } race).any (fun s =>
        decide (s.near.peerstore 1 = none) && decide (s.dial = some 0) &&
          decide (s.near.dials = [.sent 1]) &&
          decide (s.toNear = [serializeUdpPacket acknowledgement .general]) &&
          (s.step 0 1 (.arriveNear 0)).any fun s' => !s'.near.running) = true := by
  decide +kernel

/-- **The acknowledgement comes first** when the loop sends `Connect` before `dial` goes on, and
ends the loop. -/
theorem acknowledgement_comes_first : ∃ s s', (dialogue 0 1 "near" "far").Run race s ∧
    (dialogue 0 1 "near" "far").step s (.arriveNear 0) = some s' ∧
    ¬ s.Delivered 1 (.arriveNear 0) ∧ s'.near.running = false := by
  obtain ⟨s, hs, h⟩ := (Option.any_eq_true ..).mp race_runs
  simp only [Bool.and_eq_true, decide_eq_true_eq] at h
  obtain ⟨⟨⟨⟨hentry, hdial⟩, hdials⟩, hnet⟩, hlast⟩ := h
  obtain ⟨s', hs', hstop⟩ := (Option.any_eq_true ..).mp hlast
  refine ⟨s, s', runUnder_of_exec rfl hs, hs', fun hdel => ?_, by simpa using hstop⟩
  obtain ⟨d, hd, hcase⟩ := hdel _ (by rw [hnet]; rfl) (deserialize_serialize ..)
  obtain rfl := Option.some.inj (hdial.symm.trans hd)
  rcases hcase with ⟨c, hc, -⟩ | ⟨c, hc⟩
  · simp [hdials] at hc
  · simp [hdials] at hc

end Rnet.Udp
