import Rnet.Mplex.StreamIds

/-!
# Payloads arrive in order, stream by stream

All streams of a connection share one queue and one wire in each direction. What
an end has put into the channels of stream `id`, followed by the payloads of
`id` still on their way to it, is what the other end's stream `id` has sent
(`DataInv.exact`), as long as the end still dispatches frames of `id`: it runs, and
the stream is registered or not announced yet. When it is closed the sequence
stops growing, and stays a prefix (`DataInv.ordered`).

> `payloads_in_order`: in every run in which one end opens the streams, fewer than
> 2^29 of them, what arrives on a stream is a prefix of what was sent on it.
-/

namespace Rnet.Mplex

open Rnet.Lib.System (runUnder_of_exec)

/-! ## The property -/

section Property

variable {κ φ : Type}

/-- A log of the stream tasks with id `id`. -/
def logOf (g : MplexStream → List Payload) (tasks : List MplexStream) (id : UInt32) :
    List Payload :=
  tasks.flatMap fun t => if t.streamId = id then g t else []

/-- What has been put into the channel of stream `id`. -/
def MplexConn.putTo (conn : MplexConn κ) (id : UInt32) : List Payload :=
  logOf (·.put) conn.tasks id

/-- What stream `id` has sent: its handshake payload and its writes. -/
def MplexConn.sentBy (conn : MplexConn κ) (id : UInt32) : List Payload :=
  logOf (·.sent) conn.tasks id

/-- Only end `e` has opened streams so far, and fewer than 2^29 of them. -/
structure OnlyOpener (e : End) (s : Link κ φ) : Prop where
  alone : ∀ t ∈ (s.ends e.other).tasks, t.isInitiator = false
  few : (s.ends e).tasks.length < 2 ^ 29

/-- Every payload that arrived on a stream was sent on that stream, in that order. -/
def Link.InOrder (s : Link κ φ) : Prop :=
  ∀ e id, (s.ends e).putTo id <+: (s.ends e.other).sentBy id

end Property

/-! ## Logs of streams -/

/-- No stream has the id. -/
theorem logOf_eq_nil {g : MplexStream → List Payload} {tasks : List MplexStream} {id : UInt32}
    (h : ∀ t ∈ tasks, t.streamId ≠ id) : logOf g tasks id = [] := by
  rw [logOf, List.flatMap_eq_nil_iff]
  intro t ht
  rw [if_neg (h t ht)]

theorem logOf_append (g : MplexStream → List Payload) (tasks tasks' : List MplexStream)
    (id : UInt32) : logOf g (tasks ++ tasks') id = logOf g tasks id ++ logOf g tasks' id :=
  List.flatMap_append

/-- A new stream with an empty log. -/
theorem logOf_concat {g : MplexStream → List Payload} {t : MplexStream} (ht : g t = [])
    (tasks : List MplexStream) (id : UInt32) : logOf g (tasks ++ [t]) id = logOf g tasks id := by
  rw [logOf_append]
  simp [logOf, ht]

/-- A stream task moves on: its log grows by `l`, and with it the log of its id. -/
theorem logOf_set {g : MplexStream → List Payload} {tasks : List MplexStream} {h : Nat}
    {t t' : MplexStream} {l : List Payload} (hnd : (tasks.map (·.streamId)).Nodup)
    (ht : tasks[h]? = some t) (hid : t'.streamId = t.streamId) (hg : g t' = g t ++ l)
    (id : UInt32) :
    logOf g (tasks.set h t') id = logOf g tasks id ++ if t.streamId = id then l else [] := by
  obtain ⟨hlt, hget⟩ := List.getElem?_eq_some_iff.mp ht
  have hsplit : tasks = tasks.take h ++ t :: tasks.drop (h + 1) := by
    rw [← hget, List.getElem_cons_drop, List.take_append_drop]
  have hset : tasks.set h t' = tasks.take h ++ t' :: tasks.drop (h + 1) :=
    List.set_eq_take_append_cons_drop .. |>.trans (if_pos hlt)
  rw [hset, logOf_append]
  conv_rhs => rw [hsplit, logOf_append]
  rw [List.append_assoc]
  congr 1
  simp only [logOf, List.flatMap_cons, hid, hg]
  by_cases hti : t.streamId = id
  · -- the id occurs nowhere behind the task
    have hrest : logOf g (tasks.drop (h + 1)) id = [] := by
      refine logOf_eq_nil fun u hu hui => ?_
      rw [hsplit, List.map_append, List.map_cons, List.nodup_append] at hnd
      exact (List.nodup_cons.mp hnd.2.1).1
        (List.mem_map.mpr ⟨u, hu, hui.trans hti.symm⟩)
    rw [logOf] at hrest
    simp only [if_pos hti, hrest, List.append_nil]
  · simp only [if_neg hti, List.nil_append, List.append_nil]

/-! ## Payloads on their way -/

/-- The payloads of stream `id` among some frames. -/
def payloadsFor (id : UInt32) (T : List Frame) : List Payload :=
  T.flatMap fun f => if f.flag.isData = true ∧ f.id = id then [f.payload] else []

theorem payloadsFor_append (id : UInt32) (T U : List Frame) :
    payloadsFor id (T ++ U) = payloadsFor id T ++ payloadsFor id U := List.flatMap_append

theorem payloadsFor_singleton (id : UInt32) (f : Frame) :
    payloadsFor id [f] = if f.flag.isData = true ∧ f.id = id then [f.payload] else [] := by
  simp [payloadsFor]

/-- A frame that carries no payload of a stream. -/
theorem payloadsFor_singleton_of_not_data {f : Frame} (hf : f.flag.isData ≠ true) (id : UInt32) :
    payloadsFor id [f] = [] := by
  rw [payloadsFor_singleton, if_neg fun h => hf h.1]

theorem not_isData_of_newStream {f : Frame} (hf : f.flag = .newStream) :
    f.flag.isData ≠ true := by
  rw [hf]
  simp [MuxedStreamFlag.isData]

/-! ## The invariant -/

/-- End `e` still dispatches frames of stream `id`. -/
def MplexConn.Dispatches {κ : Type} (conn : MplexConn κ) (id : UInt32) : Prop :=
  conn.running = true ∧ (id ∈ conn.streams ∨ conn.streamCounter.toNat < id.toNat)

/-- Nothing is lost before the end stops dispatching, nothing is reordered after. -/
structure DataInv (s : Link Item Frame) : Prop where
  exact : ∀ e id, (s.ends e).Dispatches id →
    (s.ends e).putTo id ++ payloadsFor id (s.inFlight frameCodec e)
      = (s.ends e.other).sentBy id
  ordered : s.InOrder

/-- What a step does to the logs of its end: it puts all it takes or nothing, and sends
what it queues. -/
structure LogStep (conn conn' : MplexConn Item) (inn out : List Frame) : Prop where
  dispatches : ∀ id, conn'.Dispatches id → conn.Dispatches id
  puts : ∀ id,
    (conn.Dispatches id ∧ conn'.putTo id = conn.putTo id ++ payloadsFor id inn) ∨
    (conn'.putTo id = conn.putTo id ∧ (conn'.Dispatches id → payloadsFor id inn = []))
  sends : ∀ id, conn'.sentBy id = conn.sentBy id ++ payloadsFor id out

/-- A step that leaves the logs alone and moves no payload. -/
theorem LogStep.of_silent {conn conn' : MplexConn Item} {inn out : List Frame}
    (hdisp : ∀ id, conn'.Dispatches id → conn.Dispatches id)
    (hput : ∀ id, conn'.putTo id = conn.putTo id) (hsent : ∀ id, conn'.sentBy id = conn.sentBy id)
    (hinn : ∀ id, conn'.Dispatches id → payloadsFor id inn = [])
    (hout : ∀ id, payloadsFor id out = []) : LogStep conn conn' inn out :=
  ⟨hdisp, fun id => Or.inr ⟨hput id, hinn id⟩, fun id => by rw [hout, List.append_nil, hsent]⟩

/-- The frames an end can take: payloads of announced ids, the announcement of the next. -/
structure Expected (conn : MplexConn Item) (inn : List Frame) : Prop where
  data : ∀ f ∈ inn, f.flag.isData = true →
    0 < f.id.toNat ∧ f.id.toNat ≤ conn.streamCounter.toNat
  next : ∀ f ∈ inn, f.flag = .newStream →
    f.id.toNat = conn.streamCounter.toNat + 1 ∧ f.id.toNat < 2 ^ 29

/-- Dispatching depends on the table, the counter and whether the end runs. -/
theorem dispatches_of_core {conn conn' : MplexConn Item} {tasks : List MplexStream}
    (hc : conn'.core = { conn.core with tasks := tasks }) (id : UInt32) :
    conn'.Dispatches id ↔ conn.Dispatches id := by
  have hr : conn'.running = conn.running := congrArg Core.running hc
  have hs : conn'.streams = conn.streams := congrArg Core.streams hc
  have hk : conn'.streamCounter = conn.streamCounter := congrArg Core.streamCounter hc
  rw [MplexConn.Dispatches, MplexConn.Dispatches, hr, hs, hk]

/-- Taking up a new stream with the next id leaves the dispatching as it was. -/
theorem dispatches_of_open {conn conn' : MplexConn Item} {i : UInt32} {h : Nat}
    (hi : i.toNat = conn.streamCounter.toNat + 1) (hrun : conn'.running = conn.running)
    (hstreams : conn'.streams = conn.streams.insert i h) (hcount : conn'.streamCounter = i)
    {id : UInt32} (hd : conn'.Dispatches id) : conn.Dispatches id := by
  obtain ⟨hr, hd⟩ := hd
  refine ⟨hrun ▸ hr, ?_⟩
  rw [hstreams, hcount, AList.mem_insert] at hd
  rcases hd with (rfl | hd) | hd
  · exact Or.inr (by omega)
  · exact Or.inl hd
  · exact Or.inr (by omega)

/-- Closing a stream only ends its dispatching. -/
theorem dispatches_of_erase {conn conn' : MplexConn Item} {i id : UInt32}
    (hc : conn'.core = { conn.core with streams := conn.streams.erase i })
    (hd : conn'.Dispatches id) : conn.Dispatches id := by
  have hs : conn'.streams = conn.streams.erase i := congrArg Core.streams hc
  have hr : conn'.running = conn.running := congrArg Core.running hc
  have hk : conn'.streamCounter = conn.streamCounter := congrArg Core.streamCounter hc
  obtain ⟨hrun, hd⟩ := hd
  refine ⟨hr ▸ hrun, ?_⟩
  rw [hs, hk, AList.mem_erase] at hd
  rcases hd with hd | hd
  · exact Or.inl hd.2
  · exact Or.inr hd

/-- **Every effect** of an end whose ids are in order is a `LogStep`. -/
theorem Effect.logStep {conn conn' : MplexConn Item} {inn out : List Frame}
    (h : Effect conn conn' inn out) (hE : EndInv conn) (hX : Expected conn inn) :
    LogStep conn conn' inn out := by
  have hlogs : ∀ tasks, conn'.core.tasks = tasks → ∀ g : MplexStream → List Payload, ∀ id,
      logOf g conn'.tasks id = logOf g tasks id := fun _ ht g id => by rw [← ht]; rfl
  have moved : ∀ {h : Nat} {t t' : MplexStream}, conn.tasks[h]? = some t →
      conn'.core = { conn.core with tasks := conn.tasks.set h t' } → t'.streamId = t.streamId →
      ∀ (g : MplexStream → List Payload) (l : List Payload), g t' = g t ++ l → ∀ id,
        logOf g conn'.tasks id = logOf g conn.tasks id ++ if t.streamId = id then l else [] := by
    intro h t t' ht hc hid g l hg id
    rw [hlogs _ (congrArg Core.tasks hc) g]
    exact logOf_set hE.nodup ht hid hg id
  have stopped : conn'.core = { conn.core with running := false } →
      ∀ id, ¬ conn'.Dispatches id := by
    intro hc id hd
    have hr : conn'.running = false := congrArg Core.running hc
    rw [MplexConn.Dispatches, hr] at hd
    simp at hd
  cases h with
  | idle hc =>
    exact .of_silent (fun id => (dispatches_of_core hc id).mp)
      (hlogs _ (congrArg Core.tasks hc) _) (hlogs _ (congrArg Core.tasks hc) _)
      (fun _ _ => rfl) fun _ => rfl
  | stop hc =>
    exact .of_silent (fun id hd => absurd hd (stopped hc id))
      (hlogs _ (congrArg Core.tasks hc) _) (hlogs _ (congrArg Core.tasks hc) _)
      (fun _ _ => rfl) fun _ => rfl
  | chatter f hc hf =>
    exact .of_silent (fun id => (dispatches_of_core hc id).mp)
      (hlogs _ (congrArg Core.tasks hc) _) (hlogs _ (congrArg Core.tasks hc) _) (fun _ _ => rfl)
      (payloadsFor_singleton_of_not_data (by rw [hf]; simp [MuxedStreamFlag.isData]))
  | task h t t' ht hid hrole hput hsent hc =>
    have hsame : ∀ g : MplexStream → List Payload, g t' = g t → ∀ id,
        logOf g conn'.tasks id = logOf g conn.tasks id := by
      intro g hg id
      rw [moved ht hc hid g [] (by rw [hg, List.append_nil]), ite_self, List.append_nil]
    exact .of_silent (fun id => (dispatches_of_core hc id).mp) (hsame _ hput) (hsame _ hsent)
      (fun _ _ => rfl) fun _ => rfl
  | send h t t' f ht hid hrole hput hsent hf hd hc =>
    refine ⟨fun id => (dispatches_of_core hc id).mp, fun id => Or.inr ⟨?_, fun _ => rfl⟩,
      fun id => ?_⟩
    · rw [MplexConn.putTo, moved ht hc hid (·.put) [] (by rw [hput, List.append_nil]), ite_self,
        List.append_nil]
      rfl
    · rw [MplexConn.sentBy, moved ht hc hid (·.sent) _ hsent, payloadsFor_singleton, hf]
      simp only [hd, true_and]
      rfl
  | openLocal p hc =>
    have hnext : (conn.streamCounter + 1).toNat = conn.streamCounter.toNat + 1 := by
      have := hE.bound
      rw [UInt32.toNat_add, show (1 : UInt32).toNat = 1 from rfl, Nat.mod_eq_of_lt (by omega)]
    have hnew : ∀ g : MplexStream → List Payload,
        g ⟨conn.streamCounter + 1, true, some p, .negotiating, [], [], []⟩ = [] →
        ∀ id, logOf g conn'.tasks id = logOf g conn.tasks id := by
      intro g hg id
      rw [hlogs _ (congrArg Core.tasks hc) g]
      exact logOf_concat hg _ _
    exact .of_silent
      (fun id => dispatches_of_open hnext (congrArg Core.running hc) (congrArg Core.streams hc)
        (congrArg Core.streamCounter hc))
      (hnew _ rfl) (hnew _ rfl) (fun _ _ => rfl)
      (payloadsFor_singleton_of_not_data (not_isData_of_newStream rfl))
  | closeLocal i hc =>
    exact .of_silent (fun id => dispatches_of_erase hc)
      (hlogs _ (congrArg Core.tasks hc) _) (hlogs _ (congrArg Core.tasks hc) _)
      (fun _ _ => rfl) fun _ => rfl
  | lost f hc hn hd =>
    have hc' : conn'.core = { conn.core with tasks := conn.tasks } := hc
    refine .of_silent (fun id => (dispatches_of_core hc' id).mp)
      (hlogs _ (congrArg Core.tasks hc) _) (hlogs _ (congrArg Core.tasks hc) _)
      (fun id hdisp => ?_) fun _ => rfl
    rw [payloadsFor_singleton]
    refine if_neg ?_
    intro h
    obtain ⟨hdata, rfl⟩ := h
    -- an id announced before whose entry is gone is not dispatched
    obtain ⟨-, hle⟩ := hX.data f (List.mem_singleton_self f) hdata
    have hlook := hd hdata
    rw [wireId_of_lt (Nat.lt_of_le_of_lt hle hE.bound)] at hlook
    rcases ((dispatches_of_core hc' f.id).mp hdisp).2 with hmem | hlt
    · rw [AList.lookup_eq_none] at hlook
      exact hlook hmem
    · omega
  | fail f hc hn =>
    exact .of_silent (fun id hd => absurd hd (stopped hc id))
      (hlogs _ (congrArg Core.tasks hc) _) (hlogs _ (congrArg Core.tasks hc) _)
      (fun id hd => absurd hd (stopped hc id)) fun _ => rfl
  | put f h t hr hd hl ht hc =>
    obtain ⟨-, hle⟩ := hX.data f (List.mem_singleton_self f) hd
    rw [wireId_of_lt (Nat.lt_of_le_of_lt hle hE.bound)] at hl
    obtain ⟨u, hu, hid⟩ := hE.handle _ h hl
    rw [ht] at hu
    rw [← Option.some.inj hu] at hid
    refine ⟨fun id => (dispatches_of_core hc id).mp, fun id => ?_, fun id => ?_⟩
    · have hput : conn'.putTo id = conn.putTo id ++ payloadsFor id [f] := by
        rw [MplexConn.putTo, moved ht hc rfl (·.put) [f.payload] rfl, payloadsFor_singleton, hid]
        simp only [hd, true_and]
        rfl
      by_cases hfid : f.id = id
      · left
        refine ⟨⟨hr, Or.inl ?_⟩, hput⟩
        rw [← hfid, ← AList.lookup_isSome, hl]
        rfl
      · right
        have hnone : payloadsFor id [f] = [] := by
          rw [payloadsFor_singleton]
          exact if_neg fun h => hfid h.2
        rw [hput, hnone, List.append_nil]
        exact ⟨rfl, fun _ => rfl⟩
    · rw [MplexConn.sentBy, moved ht hc rfl (·.sent) [] (List.append_nil _).symm, ite_self]
      rfl
  | openRemote f hf h0 hc =>
    obtain ⟨hid, hlt⟩ := hX.next f (List.mem_singleton_self f) hf
    rw [wireId_of_lt hlt] at hc
    have hnew : ∀ g : MplexStream → List Payload,
        g ⟨f.id, false, none, .negotiating, [], [], []⟩ = [] →
        ∀ id, logOf g conn'.tasks id = logOf g conn.tasks id := by
      intro g hg id
      rw [hlogs _ (congrArg Core.tasks hc) g]
      exact logOf_concat hg _ _
    exact .of_silent
      (fun id => dispatches_of_open hid (congrArg Core.running hc) (congrArg Core.streams hc)
        (congrArg Core.streamCounter hc))
      (hnew _ rfl) (hnew _ rfl)
      (fun id _ => payloadsFor_singleton_of_not_data (not_isData_of_newStream hf) id) fun _ => rfl
  | openByPeer f hf h0 hc =>
    obtain ⟨hid, hlt⟩ := hX.next f (List.mem_singleton_self f) hf
    rw [wireId_of_lt hlt] at h0
    rw [h0] at hid
    simp at hid
  | closeRemote f hf hc =>
    exact .of_silent (fun id => dispatches_of_erase hc)
      (hlogs _ (congrArg Core.tasks hc) _) (hlogs _ (congrArg Core.tasks hc) _)
      (fun id _ => payloadsFor_singleton_of_not_data (by rw [hf]; simp [MuxedStreamFlag.isData]) id)
      fun _ => rfl

/-- What an end takes from the wire in a connection whose ids are in order. -/
theorem IdInv.expected {s : Link Item Frame} (h : IdInv s) {e : End} {inn T : List Frame}
    (hinn : inn.length ≤ 1) (hT : s.inFlight frameCodec e = inn ++ T) :
    Expected (s.ends e) inn := by
  match inn, hinn with
  | [], _ => exact ⟨by simp, by simp⟩
  | [f], _ =>
    constructor
    · intro g hg hd
      rw [List.mem_singleton.mp hg] at hd ⊢
      have hw := h.announced e
      rw [hT, List.singleton_append, WellAnnounced,
        if_neg fun hn => not_isData_of_newStream hn hd] at hw
      exact hw.1 hd
    · intro g hg hn
      rw [List.mem_singleton.mp hg] at hn ⊢
      obtain ⟨hid, hlt, -⟩ := h.head_announced hT hn
      exact ⟨hid, hlt⟩

theorem Effect.inn_length {conn conn' : MplexConn Item} {inn out : List Frame}
    (h : Effect conn conn' inn out) : inn.length ≤ 1 := by
  cases h <;> simp

/-- **One step** keeps what is put, on its way and sent in balance. -/
theorem DataInv.step {s s' : Link Item Frame} {a : LinkAct} (h : DataInv s) (hI : IdInv s)
    (hstep : s.step frameCodec a = some s') : DataInv s' := by
  obtain ⟨inn, out, hst, -⟩ := step_effect hstep
  have hlog := hst.effect.logStep (hI.ends _) (hI.expected hst.effect.inn_length hst.taken)
  have hsplit : ∀ id, payloadsFor id (s.inFlight frameCodec a.actor)
      = payloadsFor id inn ++ payloadsFor id (s'.inFlight frameCodec a.actor) := by
    intro id
    rw [hst.taken, payloadsFor_append]
  constructor
  · intro e id hd
    rcases End.eq_or_eq_other a.actor e with rfl | rfl
    · have hbal := h.exact _ id (hlog.dispatches id hd)
      rw [hsplit, ← List.append_assoc] at hbal
      rw [hst.other, ← hbal]
      rcases hlog.puts id with ⟨-, hput⟩ | ⟨hput, hnone⟩
      · rw [hput]
      · rw [hput, hnone hd, List.append_nil]
    · rw [hst.other] at hd ⊢
      rw [End.other_other, hst.sent, payloadsFor_append, hlog.sends, ← List.append_assoc,
        h.exact _ id hd, End.other_other]
  · intro e id
    rcases End.eq_or_eq_other a.actor e with rfl | rfl
    · rw [hst.other]
      rcases hlog.puts id with ⟨hdisp, hput⟩ | ⟨hput, -⟩
      · have hbal := h.exact _ id hdisp
        rw [hsplit, ← List.append_assoc, ← hput] at hbal
        exact ⟨_, hbal⟩
      · rw [hput]
        exact h.ordered _ id
    · rw [hst.other, End.other_other, hlog.sends]
      have hord := h.ordered a.actor.other id
      rw [End.other_other] at hord
      exact hord.trans (List.prefix_append _ _)

/-- A fresh connection. -/
theorem DataInv.init {s : Link Item Frame} (h : (link frameCodec).init s) : DataInv s := by
  have hlog : ∀ e g id, logOf g (s.ends e).tasks id = [] := by
    intro e g id
    rw [tasks_init h]
    rfl
  constructor
  · intro e id _
    rw [MplexConn.putTo, MplexConn.sentBy, hlog, hlog, inFlight_init h]
    rfl
  · intro e id
    rw [MplexConn.putTo, hlog]
    exact List.nil_prefix

/-- **Every run** without overlapping opens keeps the payloads in order. -/
theorem dataInv_of_run {as : List LinkAct} {s : Link Item Frame}
    (h : (link frameCodec).RunUnder (OpensAlone frameCodec) as s) : DataInv s :=
  (h.invariant (fun s => IdInv s ∧ DataInv s) (fun _ h0 => ⟨IdInv.init h0, DataInv.init h0⟩)
    fun _ _ _ hI hg hs => ⟨hI.1.step hg hs, hI.2.step hI.1 hs⟩).2

/-! ## One end opens -/

/-- The streams of an end are only ever added to. -/
theorem Effect.roster_prefix {conn conn' : MplexConn Item} {inn out : List Frame}
    (h : Effect conn conn' inn out) : roster conn.tasks <+: roster conn'.tasks := by
  have same : ∀ tasks, conn'.core.tasks = tasks → roster tasks = roster conn.tasks →
      roster conn.tasks <+: roster conn'.tasks := by
    intro tasks ht hr
    rw [← hr, ← ht]
    exact List.prefix_rfl
  have grown : ∀ t, conn'.core.tasks = conn.tasks ++ [t] →
      roster conn.tasks <+: roster conn'.tasks := by
    intro t ht
    rw [show conn'.tasks = _ from ht, roster, roster, List.map_append]
    exact List.prefix_append _ _
  cases h with
  | idle hc | stop hc | chatter _ hc _ | closeLocal _ hc | lost _ hc _ _ | fail _ hc _
  | closeRemote _ _ hc => exact same _ (congrArg Core.tasks hc) rfl
  | task h t t' ht hid hrole _ _ hc =>
    exact same _ (congrArg Core.tasks hc) (roster_set ht hid hrole)
  | send h t t' f ht hid hrole _ _ _ _ hc =>
    exact same _ (congrArg Core.tasks hc) (roster_set ht hid hrole)
  | put f h t _ _ _ ht hc => exact same _ (congrArg Core.tasks hc) (roster_set ht rfl rfl)
  | openLocal _ hc | openRemote _ _ _ hc | openByPeer _ _ _ hc =>
    exact grown _ (congrArg Core.tasks hc)

theorem roster_prefix_of_step {s s' : Link Item Frame} {a : LinkAct}
    (h : s.step frameCodec a = some s') (e : End) :
    roster (s.ends e).tasks <+: roster (s'.ends e).tasks := by
  obtain ⟨inn, out, hst, -⟩ := step_effect h
  rcases End.eq_or_eq_other a.actor e with rfl | rfl
  · exact hst.effect.roster_prefix
  · simp only [hst.other, List.prefix_rfl]

theorem length_roster (tasks : List MplexStream) : (roster tasks).length = tasks.length :=
  List.length_map _

/-- If only `e` has opened streams by now, that was so before the step. -/
theorem OnlyOpener.before {s s' : Link Item Frame} {a : LinkAct} {e : End}
    (h : OnlyOpener e s') (hstep : s.step frameCodec a = some s') : OnlyOpener e s where
  alone := by
    intro t ht
    have hm : (t.streamId, t.isInitiator) ∈ roster (s'.ends e.other).tasks :=
      (roster_prefix_of_step hstep _).subset (List.mem_map_of_mem ht)
    obtain ⟨u, hu, he⟩ := List.mem_map.mp hm
    simp only [Prod.mk.injEq] at he
    rw [← he.2]
    exact h.alone u hu
  few := by
    have := (roster_prefix_of_step hstep e).length_le
    rw [length_roster, length_roster] at this
    exact Nat.lt_of_le_of_lt this h.few

/-- With one opener nothing is announced to it, and it counts its streams. -/
structure OpenerInv (e : End) (s : Link Item Frame) : Prop where
  quiet : announceCount (s.inFlight frameCodec e) = 0
  counted : (s.ends e).streamCounter.toNat = (s.ends e).tasks.length

/-- A handled open of an end leaves an initiator there. -/
theorem OnlyOpener.not_opened {s : Link Item Frame} {e : End} (h : OnlyOpener e s)
    {conn : MplexConn Item} {p : Payload}
    (hc : (s.ends e.other).core = (conn.openLocal frameCodec p).core) : False := by
  have ht : (s.ends e.other).tasks = conn.tasks ++ [{
      streamId := conn.streamCounter + 1, isInitiator := true, proto := some p }] :=
    congrArg Core.tasks hc
  have := h.alone _ (by rw [ht]; exact List.mem_append_right _ (List.mem_singleton_self _))
  simp at this

/-- A step after which `e` is still the only opener meets the guard. -/
theorem OnlyOpener.opensAlone {s s' : Link Item Frame} {a : LinkAct} {e : End}
    (h : OnlyOpener e s') (hO : OpenerInv e s) (hstep : s.step frameCodec a = some s') :
    OpensAlone frameCodec s a := by
  intro hopen
  cases a with
  | recvQueue d =>
    obtain ⟨-, p, hc⟩ := openLocal_of_opensNext hopen hstep
    rcases End.eq_or_eq_other e d with rfl | rfl
    · refine ⟨announcements_eq_nil.mpr hO.quiet, ?_⟩
      have ht : (s'.ends d).tasks.length = (s.ends d).tasks.length + 1 := by
        rw [show (s'.ends d).tasks = _ from congrArg Core.tasks hc]
        exact List.length_append
      have := h.few
      rw [LinkAct.actor, hO.counted]
      omega
    · exact (h.not_opened hc).elim
  | _ => simp [LinkAct.opensAt] at hopen

/-- **One step** of a connection with one opener. -/
theorem OpenerInv.step {s s' : Link Item Frame} {a : LinkAct} {e : End} (hO : OpenerInv e s)
    (hI : IdInv s) (h : OnlyOpener e s') (hstep : s.step frameCodec a = some s') :
    OpenerInv e s' := by
  obtain ⟨inn, out, hst, -⟩ := step_effect hstep
  obtain ⟨hquiet, hcounted⟩ := hO
  rcases End.eq_or_eq_other a.actor e with rfl | rfl
  · rw [hst.taken, announceCount_append] at hquiet
    refine ⟨by omega, ?_⟩
    rcases hst.effect.ids with ⟨hs, -, -, -⟩ | ⟨-, -, p, hc⟩ | ⟨f, rfl, hf, -⟩
    · rw [hs.counter, hcounted, ← length_roster, ← length_roster, hs.roster]
    · have hcount : (s'.ends a.actor).streamCounter = (s.ends a.actor).streamCounter + 1 :=
        congrArg Core.streamCounter hc
      have ht : (s'.ends a.actor).tasks.length = (s.ends a.actor).tasks.length + 1 := by
        rw [show (s'.ends a.actor).tasks = _ from congrArg Core.tasks hc]
        exact List.length_append
      have hb := (hI.ends a.actor).bound
      rw [hcount, ht, UInt32.toNat_add, show (1 : UInt32).toNat = 1 from rfl,
        Nat.mod_eq_of_lt (by omega), hcounted]
    · rw [announceCount_newStream hf] at hquiet
      omega
  · have hout : announceCount out = 0 := by
      rcases hst.effect.ids with ⟨-, -, hout, -⟩ | ⟨-, -, p, hc⟩ | ⟨f, rfl, hf, hrem⟩
      · exact announceCount_eq_zero.mpr hout
      · rw [← End.other_other a.actor] at hc
        exact (h.not_opened hc).elim
      · rw [(hrem (hI.wireId_ne_zero hst.taken hf)).1]
        rfl
    refine ⟨?_, ?_⟩
    · rw [hst.sent, announceCount_append, hquiet, hout]
    · rw [hst.other]
      exact hcounted

/-- **Every run** in which only `e` has opened streams, fewer than 2^29 of them, has no
overlapping opens. -/
theorem opensAlone_of_onlyOpener {e : End} {as : List LinkAct} {s : Link Item Frame}
    (h : (link frameCodec).Run as s) (ho : OnlyOpener e s) :
    (link frameCodec).RunUnder (OpensAlone frameCodec) as s ∧ OpenerInv e s := by
  induction h with
  | nil hi =>
    refine ⟨.nil hi, ?_⟩
    obtain ⟨hw, hs, pc, he⟩ := hi e
    obtain ⟨-, hs', pc', he'⟩ := hi e.other
    constructor
    · rw [Link.inFlight, hw, he']
      rfl
    · rw [he]
      rfl
  | snoc _ _ hs ih =>
    obtain ⟨hrun, hO⟩ := ih (ho.before hs)
    exact ⟨hrun.snoc (ho.opensAlone hO hs) hs, hO.step (idInv_of_run hrun) ho hs⟩

/-- **Delivery on the streams of a connection.** In every run in which only one end has
opened streams, fewer than 2^29 of them, each end has one stream per id, and what it
got for a stream is a prefix of what the other end's stream of that id sent. -/
theorem payloads_in_order (V : UnsignedVarint) {e : End} {as : List LinkAct}
    {s : Link (List UInt8) (List UInt8)} (h : (link (bytesCodec V)).Run as s)
    (ho : OnlyOpener e s) :
    (∀ d, ((s.ends d).tasks.map (·.streamId)).Nodup) ∧ s.InOrder := by
  obtain ⟨s, hrun, rfl⟩ := (bytesHom V).run_view h
  have hguard := (opensAlone_of_onlyOpener hrun ⟨ho.alone, ho.few⟩).1
  exact ⟨fun d => ((idInv_of_run hguard).ends d).nodup, (dataInv_of_run hguard).ordered⟩

/-- A stream is opened, negotiated and written to; the message arrives. -/
def oneStream : List LinkAct :=
  [.openReq .dialer ⟨ascii "ping", length_ping⟩, .recvQueue .dialer, .recvQueue .dialer,
   .recvRaw .listener, .task .dialer 0 .negotiate, .recvQueue .dialer, .recvRaw .listener,
   .task .listener 0 .negotiate, .recvQueue .listener, .recvRaw .dialer,
   .task .dialer 0 .negotiate, .task .dialer 0 (.write ⟨ascii "hi", length_hi⟩),
   .recvQueue .dialer, .recvRaw .listener]

theorem oneStream_enabled :
    ((link (bytesCodec leb128)).exec (fun _ _ => True) (Link.fresh ["ping"])
      oneStream).isSome = true := by decide +kernel

/-- The handshake payload and the message have arrived, in this order. -/
theorem payloads_in_order_oneStream :
    ∃ s, (link (bytesCodec leb128)).Run oneStream s ∧
      ((s.ends .listener).putTo 1).map (·.val) = [ascii "ping", ascii "hi"] ∧ s.InOrder := by
  have hrun : (link (bytesCodec leb128)).Run oneStream _ :=
    runUnder_of_exec (fresh_init _ ["ping"]) (Option.some_get oneStream_enabled).symm
  exact ⟨_, hrun, by decide +kernel,
    (payloads_in_order leb128 (e := .dialer) hrun ⟨by decide +kernel, by decide +kernel⟩).2⟩

end Rnet.Mplex
