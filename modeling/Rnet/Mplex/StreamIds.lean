import Rnet.Mplex.Effect

/-!
# Stream ids on a two-ended connection

Both ends number the streams they open from their own `_stream_counter`, and an
end that receives an announcement sets its counter to the announced id. That
keeps the counters in step as long as no end opens a stream while an
announcement of the other end is still on its way to it (`OpensAlone`): then at
any time at most one end is ahead, by exactly the announcements in flight, which
carry the consecutive ids in between (`IdInv`).

> `stream_ids_unshared`: in such a run no entry of a `streams` table is ever
> replaced, and two streams that are open at once have different ids.

An open that does overlap takes an id that is in flight, and both streams share
it (`overlapping_opens` is the shortest such run).
-/

namespace Rnet.Mplex

open Rnet.Lib.System (runUnder_of_exec)

/-! ## The property -/

section Property

variable {κ φ : Type}

/-- The end that opened the stream of task `t` of end `e`. -/
def MplexStream.opener (t : MplexStream) (e : End) : End :=
  if t.isInitiator then e else e.other

/-- No end uses an id for two of its streams, and entries of the two `streams` tables
under one id belong to one stream: the same end opened it. -/
structure Link.Unshared (s : Link κ φ) : Prop where
  once : ∀ e, ((s.ends e).tasks.map (·.streamId)).Nodup
  opener : ∀ e d id h k t u, (s.ends e).streams.lookup id = some h →
    (s.ends e).tasks[h]? = some t → (s.ends d).streams.lookup id = some k →
    (s.ends d).tasks[k]? = some u → t.opener e = u.opener d

/-- From `s` to `s'` no open stream gets another sender: an entry stays or is removed. -/
def Link.SendersKept (s s' : Link κ φ) : Prop :=
  ∀ e id h, (s.ends e).streams.lookup id = some h →
    (s'.ends e).streams.lookup id = some h ∨ (s'.ends e).streams.lookup id = none

/-- A local open is handled only while no announcement is on its way to that end,
and while the next id still fits the 29 bits of the header. -/
def OpensAlone (c : Codec κ φ) (s : Link κ φ) (a : LinkAct) : Prop :=
  a.opensAt c s = true →
    s.announcements c a.actor = [] ∧ (s.ends a.actor).streamCounter.toNat + 1 < 2 ^ 29

instance (c : Codec κ φ) (s : Link κ φ) (a : LinkAct) : Decidable (OpensAlone c s a) :=
  inferInstanceAs (Decidable (_ → _))

/-- A fresh connection whose ends handle the given protocols. -/
def Link.fresh (handlers : List String) : Link κ φ :=
  ⟨fun _ => { handlers := handlers }, fun _ => []⟩

theorem fresh_init (c : Codec κ φ) (handlers : List String) :
    (link c).init (Link.fresh handlers) :=
  fun _ => ⟨rfl, handlers, none, rfl⟩

end Property

/-! ## Announcements in flight -/

/-- The announcements among some frames. -/
def announceCount (T : List Frame) : Nat := T.countP fun f => f.flag == .newStream

/-- Read in order by an end whose counter is `k`, the frames announce the ids
`k + 1`, `k + 2`, … and carry payloads only for ids announced before. -/
def WellAnnounced : Nat → List Frame → Prop
  | _, [] => True
  | k, f :: T =>
    if f.flag = .newStream then f.id.toNat = k + 1 ∧ WellAnnounced (k + 1) T
    else (f.flag.isData = true → 0 < f.id.toNat ∧ f.id.toNat ≤ k) ∧ WellAnnounced k T

theorem announceCount_append (T U : List Frame) :
    announceCount (T ++ U) = announceCount T + announceCount U := List.countP_append

/-- No announcement among the frames. -/
theorem announceCount_eq_zero {T : List Frame} :
    announceCount T = 0 ↔ ∀ f ∈ T, f.flag ≠ .newStream := by
  simp [announceCount, List.countP_eq_zero]

theorem announceCount_newStream {f : Frame} (hf : f.flag = .newStream) (T : List Frame) :
    announceCount (f :: T) = announceCount T + 1 := by
  rw [announceCount, List.countP_cons_of_pos (by simp [hf])]
  rfl

/-- Frames join at the back when they fit the ids announced by then. -/
theorem wellAnnounced_append {U : List Frame} :
    ∀ {T : List Frame} {k : Nat}, WellAnnounced k T → WellAnnounced (k + announceCount T) U →
      WellAnnounced k (T ++ U) := by
  intro T
  induction T with
  | nil => intro k _ hU; exact hU
  | cons f T ih =>
    intro k hT hU
    rw [List.cons_append, WellAnnounced]
    rw [WellAnnounced] at hT
    by_cases hf : f.flag = .newStream
    · rw [if_pos hf] at hT ⊢
      rw [announceCount_newStream hf, Nat.add_comm (announceCount T) 1, ← Nat.add_assoc] at hU
      exact ⟨hT.1, ih hT.2 hU⟩
    · rw [if_neg hf] at hT ⊢
      have hc : announceCount (f :: T) = announceCount T := by
        rw [announceCount, List.countP_cons_of_neg (by simp [hf])]
        rfl
      rw [hc] at hU
      exact ⟨hT.1, ih hT.2 hU⟩

/-- Frames that announce nothing leave at the front. -/
theorem wellAnnounced_of_append {k : Nat} {U : List Frame} :
    ∀ {T : List Frame}, (∀ f ∈ T, f.flag ≠ .newStream) → WellAnnounced k (T ++ U) →
      WellAnnounced k U := by
  intro T
  induction T with
  | nil => intro _ h; exact h
  | cons f T ih =>
    intro hT h
    rw [List.cons_append, WellAnnounced, if_neg (hT f (List.mem_cons_self ..))] at h
    exact ih (fun g hg => hT g (List.mem_cons_of_mem _ hg)) h.2

/-- Without announcements in flight the counter may grow. -/
theorem wellAnnounced_mono {k m : Nat} (hkm : k ≤ m) :
    ∀ {T : List Frame}, (∀ f ∈ T, f.flag ≠ .newStream) → WellAnnounced k T →
      WellAnnounced m T := by
  intro T
  induction T with
  | nil => intro _ _; trivial
  | cons f T ih =>
    intro hT h
    rw [WellAnnounced, if_neg (hT f (List.mem_cons_self ..))] at h ⊢
    refine ⟨fun hd => ?_, ih (fun g hg => hT g (List.mem_cons_of_mem _ hg)) h.2⟩
    obtain ⟨h0, hk⟩ := h.1 hd
    exact ⟨h0, Nat.le_trans hk hkm⟩

/-- Data frames for ids announced already may join. -/
theorem wellAnnounced_data {k : Nat} :
    ∀ {T : List Frame}, (∀ f ∈ T, f.flag ≠ .newStream) →
      (∀ f ∈ T, f.flag.isData = true → 0 < f.id.toNat ∧ f.id.toNat ≤ k) → WellAnnounced k T := by
  intro T
  induction T with
  | nil => intro _ _; trivial
  | cons f T ih =>
    intro hn hd
    rw [WellAnnounced, if_neg (hn f (List.mem_cons_self ..))]
    exact ⟨hd f (List.mem_cons_self ..), ih (fun g hg => hn g (List.mem_cons_of_mem _ hg))
      fun g hg => hd g (List.mem_cons_of_mem _ hg)⟩

/-! ## The effect of a step on ids -/

/-- The ids and roles of the stream tasks. -/
def roster (tasks : List MplexStream) : List (UInt32 × Bool) :=
  tasks.map fun t => (t.streamId, t.isInitiator)

/-- Neither the counter nor the streams of an end change, other than by closing. -/
structure SameIds (conn conn' : MplexConn Item) : Prop where
  counter : conn'.streamCounter = conn.streamCounter
  roster : roster conn'.tasks = roster conn.tasks
  closed : ∀ id h, conn'.streams.lookup id = some h → conn.streams.lookup id = some h

theorem roster_set {tasks : List MplexStream} {h : Nat} {t t' : MplexStream}
    (ht : tasks[h]? = some t) (hid : t'.streamId = t.streamId)
    (hrole : t'.isInitiator = t.isInitiator) : roster (tasks.set h t') = roster tasks := by
  rw [roster, List.map_set, hid, hrole]
  refine List.ext_getElem? fun i => ?_
  rw [List.getElem?_set]
  by_cases hi : h = i
  · obtain ⟨hlt, hh⟩ := List.getElem?_eq_some_iff.mp ht
    rw [if_pos hi, if_pos (by rw [List.length_map]; exact hlt), ← hi, roster,
      List.getElem?_map, ht]
    rfl
  · rw [if_neg hi]
    rfl

theorem roster_mem {tasks tasks' : List MplexStream} (hr : roster tasks' = roster tasks)
    {t : MplexStream} (ht : t ∈ tasks') :
    ∃ u ∈ tasks, u.streamId = t.streamId ∧ u.isInitiator = t.isInitiator := by
  have hm : (t.streamId, t.isInitiator) ∈ roster tasks := by
    rw [← hr]
    exact List.mem_map_of_mem ht
  obtain ⟨u, hu, he⟩ := List.mem_map.mp hm
  simp only [Prod.mk.injEq] at he
  exact ⟨u, hu, he.1, he.2⟩

theorem lookup_erase_some {streams : AList (fun _ : UInt32 => Nat)} {i id : UInt32} {h : Nat}
    (hl : (streams.erase i).lookup id = some h) : streams.lookup id = some h := by
  by_cases hi : id = i
  · rw [hi, AList.lookup_erase] at hl
    simp at hl
  · rwa [AList.lookup_erase_ne hi] at hl

/-- Apart from opens, a step changes no ids, takes and sends no announcement, and
sends payloads only for streams of its end. -/
theorem Effect.ids {conn conn' : MplexConn Item} {inn out : List Frame}
    (h : Effect conn conn' inn out) :
    (SameIds conn conn' ∧ (∀ f ∈ inn, f.flag ≠ .newStream) ∧ (∀ f ∈ out, f.flag ≠ .newStream) ∧
      ∀ f ∈ out, f.flag.isData = true → ∃ t ∈ conn.tasks, f.id = t.streamId) ∨
    (inn = [] ∧ out = [(Item.announce (conn.streamCounter + 1)).frame] ∧
      ∃ p, conn'.core = (conn.openLocal frameCodec p).core) ∨
    ∃ f, inn = [f] ∧ f.flag = .newStream ∧
      (wireId f.id ≠ 0 → out = [] ∧ conn'.core = (conn.openRemote (wireId f.id)).core) := by
  -- the core of `conn'`, field by field
  have same : ∀ tasks, roster tasks = roster conn.tasks →
      conn'.core.streamCounter = conn.streamCounter → conn'.core.tasks = tasks →
      (∀ id h, conn'.core.streams.lookup id = some h → conn.streams.lookup id = some h) →
      SameIds conn conn' := by
    intro tasks hr hcount htasks hstreams
    exact ⟨hcount, by rw [← hr, ← htasks]; rfl, hstreams⟩
  have sameCore : ∀ b, conn'.core = { conn.core with running := b } → SameIds conn conn' :=
    fun b hc => same conn.tasks rfl (by rw [hc]; rfl) (by rw [hc]; rfl)
      fun id h hl => by rw [hc] at hl; exact hl
  cases h with
  | idle hc => exact Or.inl ⟨sameCore conn.running (by rw [hc]; rfl), by simp, by simp, by simp⟩
  | stop hc => exact Or.inl ⟨sameCore false hc, by simp, by simp, by simp⟩
  | chatter f hc hf =>
    exact Or.inl ⟨sameCore conn.running (by rw [hc]; rfl), by simp, by simp [hf],
      by simp [hf, MuxedStreamFlag.isData]⟩
  | task h t t' ht hid hrole hput hsent hc =>
    exact Or.inl ⟨same _ (roster_set ht hid hrole) (by rw [hc]; rfl) (by rw [hc])
      (fun id h hl => by rw [hc] at hl; exact hl), by simp, by simp, by simp⟩
  | send h t t' f ht hid hrole hput hsent hf hd hc =>
    refine Or.inl ⟨same _ (roster_set ht hid hrole) (by rw [hc]; rfl) (by rw [hc])
      (fun id h hl => by rw [hc] at hl; exact hl), by simp, ?_, ?_⟩
    · intro g hg hn
      rw [List.mem_singleton.mp hg] at hn
      rw [hn] at hd
      simp [MuxedStreamFlag.isData] at hd
    · intro g hg _
      rw [List.mem_singleton.mp hg]
      exact ⟨t, List.mem_of_getElem? ht, hf⟩
  | openLocal p hc => exact Or.inr (Or.inl ⟨rfl, rfl, p, hc⟩)
  | closeLocal id hc =>
    exact Or.inl ⟨same conn.tasks rfl (by rw [hc]; rfl) (by rw [hc]; rfl)
      (fun id h hl => by rw [hc] at hl; exact lookup_erase_some hl), by simp, by simp, by simp⟩
  | lost f hc hn hd =>
    exact Or.inl ⟨sameCore conn.running (by rw [hc]; rfl), by simpa using hn, by simp, by simp⟩
  | fail f hc hn => exact Or.inl ⟨sameCore false hc, by simpa using hn, by simp, by simp⟩
  | put f h t hr hd hl ht hc =>
    have hro : roster (conn.tasks.set h
        { t with channel := t.channel ++ [f.payload], put := t.put ++ [f.payload] })
        = roster conn.tasks := roster_set ht rfl rfl
    refine Or.inl ⟨same _ hro (by rw [hc]; rfl) (by rw [hc])
      (fun id h hl => by rw [hc] at hl; exact hl), ?_, by simp, by simp⟩
    intro g hg hn
    rw [List.mem_singleton.mp hg] at hn
    rw [hn] at hd
    simp [MuxedStreamFlag.isData] at hd
  | openRemote f hf h0 hc => exact Or.inr (Or.inr ⟨f, rfl, hf, fun _ => ⟨rfl, hc⟩⟩)
  | openByPeer f hf h0 hc => exact Or.inr (Or.inr ⟨f, rfl, hf, fun hne => absurd h0 hne⟩)
  | closeRemote f hf hc =>
    exact Or.inl ⟨same conn.tasks rfl (by rw [hc]; rfl) (by rw [hc]; rfl)
      (fun id h hl => by rw [hc] at hl; exact lookup_erase_some hl), by simp [hf], by simp, by simp⟩

/-! ## The invariant -/

/-- The ids of one end: distinct, positive, up to the counter, within 29 bits, and
every table entry points at the task of its id. -/
structure EndInv (conn : MplexConn Item) : Prop where
  nodup : (conn.tasks.map (·.streamId)).Nodup
  range : ∀ t ∈ conn.tasks, 0 < t.streamId.toNat ∧ t.streamId.toNat ≤ conn.streamCounter.toNat
  handle : ∀ id h, conn.streams.lookup id = some h →
    ∃ t, conn.tasks[h]? = some t ∧ t.streamId = id
  bound : conn.streamCounter.toNat < 2 ^ 29

/-- The ids of a connection. -/
structure IdInv (s : Link Item Frame) : Prop where
  ends : ∀ e, EndInv (s.ends e)
  announced : ∀ e, WellAnnounced (s.ends e).streamCounter.toNat (s.inFlight frameCodec e)
  /-- one end is ahead, by the announcements on their way to the other -/
  lead : ∃ e, announceCount (s.inFlight frameCodec e.other) = 0 ∧
    (s.ends e).streamCounter.toNat + announceCount (s.inFlight frameCodec e)
      = (s.ends e.other).streamCounter.toNat
  /-- what an end has not heard of yet, the other end opened -/
  ahead : ∀ e, ∀ t ∈ (s.ends e.other).tasks,
    (s.ends e).streamCounter.toNat < t.streamId.toNat → t.isInitiator = true
  roles : ∀ e, ∀ t ∈ (s.ends e).tasks, ∀ u ∈ (s.ends e.other).tasks,
    t.streamId = u.streamId → t.isInitiator ≠ u.isInitiator

/-- Once everything in flight has arrived, the other counter is reached. -/
theorem IdInv.reach {s : Link Item Frame} (h : IdInv s) (e : End) :
    (s.ends e.other).streamCounter.toNat
      ≤ (s.ends e).streamCounter.toNat + announceCount (s.inFlight frameCodec e) := by
  obtain ⟨d, h0, hd⟩ := h.lead
  rcases End.eq_or_eq_other d e with rfl | rfl
  · omega
  · rw [End.other_other]
    omega

/-- With nothing announced to `e`, it is level or ahead by what it announced. -/
theorem IdInv.level {s : Link Item Frame} (h : IdInv s) {e : End}
    (h0 : announceCount (s.inFlight frameCodec e) = 0) :
    (s.ends e.other).streamCounter.toNat + announceCount (s.inFlight frameCodec e.other)
      = (s.ends e).streamCounter.toNat := by
  obtain ⟨d, h1, hd⟩ := h.lead
  rcases End.eq_or_eq_other d e with rfl | rfl
  · omega
  · rw [End.other_other]
    exact hd

theorem EndInv.of_sameIds {conn conn' : MplexConn Item} (h : EndInv conn)
    (hs : SameIds conn conn') : EndInv conn' where
  nodup := by
    have he : conn'.tasks.map (·.streamId) = conn.tasks.map (·.streamId) := by
      have := congrArg (List.map Prod.fst) hs.roster
      rwa [roster, roster, List.map_map, List.map_map] at this
    rw [he]
    exact h.nodup
  range := by
    intro t ht
    obtain ⟨u, hu, hid, -⟩ := roster_mem hs.roster ht
    rw [hs.counter, ← hid]
    exact h.range u hu
  handle := by
    intro id i hl
    obtain ⟨t, ht, hid⟩ := h.handle id i (hs.closed id i hl)
    have hr : (roster conn'.tasks)[i]? = (roster conn.tasks)[i]? := by rw [hs.roster]
    rw [roster, roster, List.getElem?_map, List.getElem?_map, ht] at hr
    obtain ⟨u, hu, he⟩ := Option.map_eq_some_iff.mp hr
    simp only [Prod.mk.injEq] at he
    exact ⟨u, hu, he.1.trans hid⟩
  bound := by
    rw [hs.counter]
    exact h.bound

/-- An end takes up a new stream with the next id. -/
theorem EndInv.of_open {conn conn' : MplexConn Item} (h : EndInv conn) {id : UInt32}
    {t : MplexStream} (hid : id.toNat = conn.streamCounter.toNat + 1) (hlt : id.toNat < 2 ^ 29)
    (ht : t.streamId = id) (hcount : conn'.streamCounter = id)
    (htasks : conn'.tasks = conn.tasks ++ [t])
    (hstreams : conn'.streams = conn.streams.insert id conn.tasks.length) : EndInv conn' where
  nodup := by
    rw [htasks, List.map_append, List.map_singleton, List.nodup_append]
    refine ⟨h.nodup, List.nodup_singleton _, ?_⟩
    intro a ha b hb hab
    obtain ⟨u, hu, rfl⟩ := List.mem_map.mp ha
    rw [List.mem_singleton.mp hb, ht] at hab
    have := (h.range u hu).2
    rw [hab] at this
    omega
  range := by
    intro u hu
    rw [hcount]
    rw [htasks] at hu
    rcases List.mem_append.mp hu with hu | hu
    · have := h.range u hu
      omega
    · rw [List.mem_singleton.mp hu, ht]
      omega
  handle := by
    intro i k hl
    rw [hstreams] at hl
    rw [htasks]
    by_cases hi : i = id
    · rw [hi, AList.lookup_insert] at hl
      rw [← Option.some.inj hl]
      exact ⟨t, List.getElem?_concat_length, ht.trans hi.symm⟩
    · rw [AList.lookup_insert_ne hi] at hl
      obtain ⟨u, hu, hui⟩ := h.handle i k hl
      exact ⟨u, by rw [List.getElem?_append_left (List.getElem?_eq_some_iff.mp hu).1]; exact hu,
        hui⟩
  bound := by
    rw [hcount]
    exact hlt

/-- An end's table has only ids up to its counter. -/
theorem EndInv.lookup_le {conn : MplexConn Item} (h : EndInv conn) {id : UInt32} {i : Nat}
    (hl : conn.streams.lookup id = some i) :
    0 < id.toNat ∧ id.toNat ≤ conn.streamCounter.toNat := by
  obtain ⟨t, ht, rfl⟩ := h.handle id i hl
  exact h.range t (List.mem_of_getElem? ht)

/-! ## One step keeps the invariant -/

/-- A step that opens nothing. -/
theorem IdInv.of_sameIds {s s' : Link Item Frame} {a : End} {inn out : List Frame}
    (h : IdInv s) (hst : StepAt s s' a inn out) (hs : SameIds (s.ends a) (s'.ends a))
    (hinn : ∀ f ∈ inn, f.flag ≠ .newStream) (hout : ∀ f ∈ out, f.flag ≠ .newStream)
    (hdata : ∀ f ∈ out, f.flag.isData = true → ∃ t ∈ (s.ends a).tasks, f.id = t.streamId) :
    IdInv s' := by
  have hcount : ∀ e, (s'.ends e).streamCounter = (s.ends e).streamCounter := by
    intro e
    rcases End.eq_or_eq_other a e with rfl | rfl
    · exact hs.counter
    · rw [hst.other]
  have hann : ∀ e, announceCount (s'.inFlight frameCodec e)
      = announceCount (s.inFlight frameCodec e) := by
    intro e
    rcases End.eq_or_eq_other a e with rfl | rfl
    · rw [hst.taken, announceCount_append, announceCount_eq_zero.mpr hinn, Nat.zero_add]
    · rw [hst.sent, announceCount_append, announceCount_eq_zero.mpr hout, Nat.add_zero]
  have hmem : ∀ e, ∀ t ∈ (s'.ends e).tasks, ∃ u ∈ (s.ends e).tasks,
      u.streamId = t.streamId ∧ u.isInitiator = t.isInitiator := by
    intro e t ht
    rcases End.eq_or_eq_other a e with rfl | rfl
    · exact roster_mem hs.roster ht
    · rw [hst.other] at ht
      exact ⟨t, ht, rfl, rfl⟩
  refine ⟨?_, ?_, ?_, ?_, ?_⟩
  · intro e
    rcases End.eq_or_eq_other a e with rfl | rfl
    · exact (h.ends _).of_sameIds hs
    · rw [hst.other]
      exact h.ends _
  · intro e
    rw [hcount]
    rcases End.eq_or_eq_other a e with rfl | rfl
    · have := h.announced e
      rw [hst.taken] at this
      exact wellAnnounced_of_append hinn this
    · rw [hst.sent]
      refine wellAnnounced_append (h.announced _) (wellAnnounced_data hout ?_)
      intro f hf hd
      obtain ⟨t, ht, hft⟩ := hdata f hf hd
      have hr := (h.ends a).range t ht
      have hreach := h.reach a.other
      rw [End.other_other] at hreach
      rw [hft]
      omega
  · obtain ⟨e, h0, he⟩ := h.lead
    exact ⟨e, by rw [hann]; exact h0, by rw [hann, hcount, hcount]; exact he⟩
  · intro e t ht hlt
    obtain ⟨u, hu, hid, hrole⟩ := hmem _ t ht
    rw [hcount, ← hid] at hlt
    rw [← hrole]
    exact h.ahead e u hu hlt
  · intro e t ht u hu hid
    obtain ⟨t₀, ht₀, hid₀, hrole₀⟩ := hmem _ t ht
    obtain ⟨u₀, hu₀, hid₁, hrole₁⟩ := hmem _ u hu
    rw [← hrole₀, ← hrole₁]
    exact h.roles e t₀ ht₀ u₀ hu₀ (by rw [hid₀, hid₁, hid])

/-- A local open with nothing announced to its end. -/
theorem IdInv.of_openLocal {s s' : Link Item Frame} {a : End} {p : Payload}
    (h : IdInv s) (hst : StepAt s s' a [] [(Item.announce ((s.ends a).streamCounter + 1)).frame])
    (hc : (s'.ends a).core = ((s.ends a).openLocal frameCodec p).core)
    (h0 : announceCount (s.inFlight frameCodec a) = 0)
    (hb : (s.ends a).streamCounter.toNat + 1 < 2 ^ 29) : IdInv s' := by
  have hnext : ((s.ends a).streamCounter + 1).toNat = (s.ends a).streamCounter.toNat + 1 := by
    rw [UInt32.toNat_add]
    exact Nat.mod_eq_of_lt (by have : (1 : UInt32).toNat = 1 := rfl; omega)
  have hcount : (s'.ends a).streamCounter = (s.ends a).streamCounter + 1 :=
    congrArg Core.streamCounter hc
  have hc1 : (s'.ends a).streamCounter.toNat = (s.ends a).streamCounter.toNat + 1 := by
    rw [hcount, hnext]
  have htasks := congrArg Core.tasks hc
  have hlevel := h.level h0
  have hT : s'.inFlight frameCodec a = s.inFlight frameCodec a := hst.taken.symm
  refine ⟨?_, ?_, ?_, ?_, ?_⟩
  · intro e
    rcases End.eq_or_eq_other a e with rfl | rfl
    · exact (h.ends _).of_open hnext (by omega) rfl hcount htasks (congrArg Core.streams hc)
    · rw [hst.other]
      exact h.ends _
  · intro e
    rcases End.eq_or_eq_other a e with rfl | rfl
    · rw [hT, hc1]
      exact wellAnnounced_mono (Nat.le_succ _) (announceCount_eq_zero.mp h0) (h.announced _)
    · rw [hst.sent, hst.other]
      refine wellAnnounced_append (h.announced _) ?_
      have hf : (Item.announce ((s.ends a).streamCounter + 1)).frame.flag = .newStream := rfl
      rw [WellAnnounced, if_pos hf, hlevel]
      exact ⟨hnext, trivial⟩
  · refine ⟨a.other, ?_, ?_⟩
    · rw [End.other_other, hT]
      exact h0
    · rw [End.other_other, hst.sent, hst.other, hc1, announceCount_append,
        announceCount_newStream rfl, ← hlevel]
      rfl
  · intro e t ht hlt
    rcases End.eq_or_eq_other a e with rfl | rfl
    · rw [hst.other] at ht
      rw [hc1] at hlt
      exact h.ahead e t ht (by omega)
    · rw [hst.other] at hlt
      rw [End.other_other, show (s'.ends a).tasks = _ from htasks] at ht
      rcases List.mem_append.mp ht with ht | ht
      · exact h.ahead a.other t (by rw [End.other_other]; exact ht) hlt
      · rw [List.mem_singleton.mp ht]
  · -- the new id is above everything the other end has
    have hnew : ∀ t ∈ (s'.ends a).tasks, ∀ u ∈ (s.ends a.other).tasks,
        t.streamId = u.streamId → t.isInitiator ≠ u.isInitiator := by
      intro t ht u hu hid
      rw [show (s'.ends a).tasks = _ from htasks] at ht
      rcases List.mem_append.mp ht with ht | ht
      · exact h.roles a t ht u hu hid
      · rw [List.mem_singleton.mp ht] at hid
        have := (h.ends a.other).range u hu
        rw [← hid, hnext] at this
        omega
    intro e t ht u hu hid
    rcases End.eq_or_eq_other a e with rfl | rfl
    · rw [hst.other] at hu
      exact hnew t ht u hu hid
    · rw [hst.other] at ht
      rw [End.other_other] at hu
      exact (hnew u hu t ht hid.symm).symm

/-- The announcement that arrives carries the next id. -/
theorem IdInv.head_announced {s : Link Item Frame} {a : End} {f : Frame} {T : List Frame}
    (h : IdInv s) (hT : s.inFlight frameCodec a = f :: T) (hf : f.flag = .newStream) :
    f.id.toNat = (s.ends a).streamCounter.toNat + 1 ∧ f.id.toNat < 2 ^ 29 ∧
      f.id.toNat ≤ (s.ends a.other).streamCounter.toNat ∧
      announceCount (s.inFlight frameCodec a.other) = 0 ∧
      (s.ends a).streamCounter.toNat + 1 + announceCount T
        = (s.ends a.other).streamCounter.toNat := by
  have hann := h.announced a
  rw [hT, WellAnnounced, if_pos hf] at hann
  obtain ⟨e, h0, he⟩ := h.lead
  have hc : announceCount (s.inFlight frameCodec a) = announceCount T + 1 := by
    rw [hT, announceCount_newStream hf]
  have hb := (h.ends a.other).bound
  rcases End.eq_or_eq_other a e with rfl | rfl
  · exact ⟨hann.1, by omega, by omega, h0, by omega⟩
  · rw [End.other_other, hc] at h0
    omega

/-- So it does not carry the id 0, which would have the stream opened by the peer. -/
theorem IdInv.wireId_ne_zero {s : Link Item Frame} {a : End} {f : Frame} {T : List Frame}
    (h : IdInv s) (hT : s.inFlight frameCodec a = f :: T) (hf : f.flag = .newStream) :
    wireId f.id ≠ 0 := by
  obtain ⟨hid, hlt, -⟩ := h.head_announced hT hf
  rw [wireId_of_lt hlt]
  intro h0
  rw [h0] at hid
  simp at hid

/-- The arrival of an announcement. -/
theorem IdInv.of_openRemote {s s' : Link Item Frame} {a : End} {f : Frame}
    (h : IdInv s) (hst : StepAt s s' a [f] []) (hf : f.flag = .newStream)
    (hc : (s'.ends a).core = ((s.ends a).openRemote (wireId f.id)).core) : IdInv s' := by
  obtain ⟨hid, hlt, hle, h0, hlead⟩ := h.head_announced hst.taken hf
  rw [wireId_of_lt hlt] at hc
  have hcount : (s'.ends a).streamCounter = f.id := congrArg Core.streamCounter hc
  have htasks := congrArg Core.tasks hc
  have hT' : s'.inFlight frameCodec a.other = s.inFlight frameCodec a.other := by
    rw [hst.sent, List.append_nil]
  refine ⟨?_, ?_, ?_, ?_, ?_⟩
  · intro e
    rcases End.eq_or_eq_other a e with rfl | rfl
    · exact (h.ends _).of_open hid hlt rfl hcount htasks (congrArg Core.streams hc)
    · rw [hst.other]
      exact h.ends _
  · intro e
    rcases End.eq_or_eq_other a e with rfl | rfl
    · have hann := h.announced e
      rw [hst.taken, List.singleton_append, WellAnnounced, if_pos hf] at hann
      rw [hcount, hid]
      exact hann.2
    · rw [hT', hst.other]
      exact h.announced _
  · refine ⟨a, ?_, ?_⟩
    · rw [hT']
      exact h0
    · rw [hcount, hst.other, hid]
      exact hlead
  · intro e t ht hlt'
    rcases End.eq_or_eq_other a e with rfl | rfl
    · rw [hst.other] at ht
      rw [hcount] at hlt'
      exact h.ahead e t ht (by omega)
    · rw [hst.other] at hlt'
      rw [End.other_other, show (s'.ends a).tasks = _ from htasks] at ht
      rcases List.mem_append.mp ht with ht | ht
      · exact h.ahead a.other t (by rw [End.other_other]; exact ht) hlt'
      · rw [List.mem_singleton.mp ht] at hlt'
        exact absurd hlt' (Nat.not_lt.mpr hle)
  · -- the other end opened the announced stream
    have hnew : ∀ t ∈ (s'.ends a).tasks, ∀ u ∈ (s.ends a.other).tasks,
        t.streamId = u.streamId → t.isInitiator ≠ u.isInitiator := by
      intro t ht u hu hid'
      rw [show (s'.ends a).tasks = _ from htasks] at ht
      rcases List.mem_append.mp ht with ht | ht
      · exact h.roles a t ht u hu hid'
      · rw [List.mem_singleton.mp ht] at hid' ⊢
        have := h.ahead a u hu (by rw [← hid']; show _ < f.id.toNat; omega)
        rw [this]
        simp
    intro e t ht u hu hid'
    rcases End.eq_or_eq_other a e with rfl | rfl
    · rw [hst.other] at hu
      exact hnew t ht u hu hid'
    · rw [hst.other] at ht
      rw [End.other_other] at hu
      exact (hnew u hu t ht hid'.symm).symm

/-- On frames kept as data: no announcement in flight means none among the frames. -/
theorem announcements_eq_nil {s : Link Item Frame} {e : End} :
    s.announcements frameCodec e = [] ↔ announceCount (s.inFlight frameCodec e) = 0 := by
  rw [announceCount_eq_zero, Link.announcements, List.filterMap_eq_nil_iff]
  refine forall₂_congr fun f _ => ?_
  rw [announcedId]
  simp only [frameCodec]
  cases f.flag <;> simp

/-- **One step** that meets the guard keeps the invariant. -/
theorem IdInv.step {s s' : Link Item Frame} {a : LinkAct} (h : IdInv s)
    (hg : OpensAlone frameCodec s a) (hstep : s.step frameCodec a = some s') : IdInv s' := by
  obtain ⟨inn, out, hst, hopens⟩ := step_effect hstep
  rcases hst.effect.ids with ⟨hs, hinn, hout, hdata⟩ | ⟨rfl, rfl, p, hc⟩ | ⟨f, rfl, hf, hrem⟩
  · exact h.of_sameIds hst hs hinn hout hdata
  · obtain ⟨h0, hb⟩ := hg (hopens rfl ⟨_, List.mem_singleton_self _, rfl⟩)
    exact h.of_openLocal hst hc (announcements_eq_nil.mp h0) hb
  · obtain ⟨rfl, hc⟩ := hrem (h.wireId_ne_zero hst.taken hf)
    exact h.of_openRemote hst hf hc

/-- Nothing is on its way in a fresh connection. -/
theorem inFlight_init {s : Link Item Frame} (h : (link frameCodec).init s) (e : End) :
    s.inFlight frameCodec e = [] := by
  obtain ⟨hw, -⟩ := h e
  obtain ⟨-, hs, pc, he⟩ := h e.other
  rw [Link.inFlight, hw, he]
  rfl

/-- It has no tasks. -/
theorem tasks_init {s : Link Item Frame} (h : (link frameCodec).init s) (e : End) :
    (s.ends e).tasks = [] := by
  obtain ⟨-, hs, pc, he⟩ := h e
  rw [he]

/-- A fresh connection. -/
theorem IdInv.init {s : Link Item Frame} (h : (link frameCodec).init s) : IdInv s := by
  refine ⟨?_, ?_, ⟨.dialer, ?_, ?_⟩, ?_, ?_⟩
  · intro e
    obtain ⟨-, hs, pc, he⟩ := h e
    rw [he]
    refine ⟨List.nodup_nil, by simp, by simp, ?_⟩
    show (0 : UInt32).toNat < 2 ^ 29
    decide
  · intro e
    rw [inFlight_init h]
    trivial
  · rw [inFlight_init h]
    rfl
  · obtain ⟨-, hs, pc, he⟩ := h .dialer
    obtain ⟨-, hs', pc', he'⟩ := h (End.other .dialer)
    rw [inFlight_init h, he, he']
    rfl
  · intro e t ht
    rw [tasks_init h] at ht
    simp at ht
  · intro e t ht
    rw [tasks_init h] at ht
    simp at ht

/-- **Every run** whose local opens do not overlap keeps the ids in order. -/
theorem idInv_of_run {as : List LinkAct} {s : Link Item Frame}
    (h : (link frameCodec).RunUnder (OpensAlone frameCodec) as s) : IdInv s :=
  h.invariant IdInv (fun _ => IdInv.init) fun _ _ _ hI hg hs => hI.step hg hs

/-! ## What follows for the tables -/

theorem IdInv.unshared {s : Link Item Frame} (h : IdInv s) : s.Unshared := by
  refine ⟨fun e => (h.ends e).nodup, ?_⟩
  intro e d id i k t u hi ht hk hu
  obtain ⟨t', ht', hid⟩ := (h.ends e).handle id i hi
  obtain ⟨u', hu', hid'⟩ := (h.ends d).handle id k hk
  rw [ht] at ht'
  rw [hu] at hu'
  rw [← Option.some.inj ht'] at hid
  rw [← Option.some.inj hu'] at hid'
  rcases End.eq_or_eq_other e d with rfl | rfl
  · rw [hi] at hk
    rw [← Option.some.inj hk, ht] at hu
    rw [Option.some.inj hu]
  · have hr := h.roles e t (List.mem_of_getElem? ht) u (List.mem_of_getElem? hu)
      (hid.trans hid'.symm)
    rw [MplexStream.opener, MplexStream.opener]
    cases hrole : t.isInitiator <;> cases hrole' : u.isInitiator
    · exact absurd (hrole.trans hrole'.symm) hr
    · rfl
    · exact (End.other_other e).symm
    · exact absurd (hrole.trans hrole'.symm) hr

/-- An entry that is not inserted under a taken id stays or goes. -/
theorem lookup_insert_cases {streams : AList (fun _ : UInt32 => Nat)} {i id : UInt32} {h k : Nat}
    (hfresh : streams.lookup i = none) (hl : streams.lookup id = some h) :
    (streams.insert i k).lookup id = some h := by
  by_cases hi : id = i
  · rw [hi, hfresh] at hl
    simp at hl
  · rw [AList.lookup_insert_ne hi]
    exact hl

theorem lookup_erase_cases {streams : AList (fun _ : UInt32 => Nat)} {i id : UInt32} {h : Nat}
    (hl : streams.lookup id = some h) :
    (streams.erase i).lookup id = some h ∨ (streams.erase i).lookup id = none := by
  by_cases hi : id = i
  · rw [hi]
    exact Or.inr (AList.lookup_erase _ _)
  · rw [AList.lookup_erase_ne hi]
    exact Or.inl hl

/-- An id above the counter is not in the table. -/
theorem EndInv.lookup_fresh {conn : MplexConn Item} (h : EndInv conn) {id : UInt32}
    (hid : conn.streamCounter.toNat < id.toNat) : conn.streams.lookup id = none := by
  cases hl : conn.streams.lookup id with
  | none => rfl
  | some i =>
    have := (h.lookup_le hl).2
    omega

theorem IdInv.sendersKept {s s' : Link Item Frame} {a : LinkAct} (h : IdInv s)
    (hg : OpensAlone frameCodec s a) (hstep : s.step frameCodec a = some s') :
    s.SendersKept s' := by
  obtain ⟨inn, out, hst, hopens⟩ := step_effect hstep
  intro e id i hlook
  rcases End.eq_or_eq_other a.actor e with rfl | rfl
  swap
  · rw [hst.other]
    exact Or.inl hlook
  have hstreams : (s'.ends a.actor).streams = (s'.ends a.actor).core.streams := rfl
  rw [hstreams]
  cases hst.effect with
  | idle hc | stop hc | chatter f hc hf | task h t t' ht hid hrole hput hsent hc
  | send h t t' f ht hid hrole hput hsent hf hd hc | lost f hc hn hd | fail f hc hn
  | put f h t hr hd hl ht hc =>
    rw [hc]
    exact Or.inl hlook
  | closeLocal _ hc | closeRemote _ _ hc =>
    rw [hc]
    exact lookup_erase_cases hlook
  | openLocal p hc =>
    obtain ⟨-, hb⟩ := hg (hopens rfl ⟨_, List.mem_singleton_self _, rfl⟩)
    rw [hc]
    refine Or.inl (lookup_insert_cases ((h.ends _).lookup_fresh ?_) hlook)
    rw [UInt32.toNat_add, show (1 : UInt32).toNat = 1 from rfl, Nat.mod_eq_of_lt (by omega)]
    omega
  | openRemote f hf h0 hc =>
    obtain ⟨hid, hlt, -⟩ := h.head_announced hst.taken hf
    rw [hc]
    refine Or.inl (lookup_insert_cases ((h.ends _).lookup_fresh ?_) hlook)
    rw [wireId_of_lt hlt]
    omega
  | openByPeer f hf h0 hc =>
    exact absurd h0 (h.wireId_ne_zero hst.taken hf)

/-- The counter and the streams after a local open is handled. -/
theorem openLocal_of_opensNext {s s' : Link Item Frame} {e : End}
    (hopen : (s.ends e).opensNext frameCodec = true)
    (hstep : s.step frameCodec (.recvQueue e) = some s') :
    s'.ends e.other = s.ends e.other ∧
      ∃ p, (s'.ends e).core = ((s.ends e).openLocal frameCodec p).core := by
  obtain ⟨⟨conn', w⟩, hs, rfl⟩ := Option.map_eq_some_iff.mp hstep
  refine ⟨by rw [Link.transmit_ends, Link.setEnd_ends_other], ?_⟩
  rw [Link.transmit_ends, Link.setEnd_ends_self]
  rw [MplexConn.opensNext] at hopen
  rw [MplexConn.recvQueue] at hs
  by_cases hr : (s.ends e).running = true
  swap
  · rw [if_neg hr] at hs
    simp at hs
  rw [if_pos hr] at hs
  cases hq : (s.ends e).mpsc with
  | nil => rw [hq] at hopen; simp at hopen
  | cons i rest =>
    rw [hq] at hopen hs
    cases i with
    | openStream p =>
      simp only [frameCodec, Item.isInternal, if_true, MplexConn.handleIncoming, Item.frame,
        MplexConn.handleFlag, show wireId 0 = 0 from rfl, Option.some.injEq,
        Prod.mk.injEq] at hs
      obtain ⟨rfl, -⟩ := hs
      exact ⟨p, rfl⟩
    | _ =>
      simp [frameCodec, Item.isInternal, Item.frame, announcedId] at hopen

/-- An open that does overlap takes the first announced id: while the announced stream
is open, two streams share it. -/
theorem IdInv.overlap_shares {s s' : Link Item Frame} {e : End} (h : IdInv s)
    (hopen : (s.ends e).opensNext frameCodec = true)
    (hann : s.announcements frameCodec e ≠ [])
    (hkept : (s.ends e.other).streams.lookup ((s.ends e).streamCounter + 1) ≠ none)
    (hstep : s.step frameCodec (.recvQueue e) = some s') : ¬ s'.Unshared := by
  intro hun
  obtain ⟨hother, p, hc⟩ := openLocal_of_opensNext hopen hstep
  obtain ⟨k, hk⟩ := Option.ne_none_iff_exists'.mp hkept
  obtain ⟨u, hu, hid⟩ := (h.ends e.other).handle _ k hk
  have hlt : (s.ends e).streamCounter.toNat < u.streamId.toNat := by
    -- the other end is ahead, so the next id of `e` does not wrap
    have hpos := mt announcements_eq_nil.mpr hann
    obtain ⟨d, h0, hd⟩ := h.lead
    have hb := (h.ends e.other).bound
    rcases End.eq_or_eq_other e d with rfl | rfl
    · rw [hid, UInt32.toNat_add, show (1 : UInt32).toNat = 1 from rfl,
        Nat.mod_eq_of_lt (by omega)]
      omega
    · rw [End.other_other] at h0
      exact absurd h0 hpos
  have hrole : u.isInitiator = true := h.ahead e u (List.mem_of_getElem? hu) hlt
  have hstreams : (s'.ends e).streams
      = (s.ends e).streams.insert ((s.ends e).streamCounter + 1) (s.ends e).tasks.length :=
    congrArg Core.streams hc
  have htasks : (s'.ends e).tasks = (s.ends e).tasks ++ [{
      streamId := (s.ends e).streamCounter + 1, isInitiator := true, proto := some p }] :=
    congrArg Core.tasks hc
  have := hun.opener e e.other ((s.ends e).streamCounter + 1) (s.ends e).tasks.length k _ u
    (by rw [hstreams, AList.lookup_insert]) (by rw [htasks, List.getElem?_concat_length])
    (by rw [hother]; exact hk) (by rw [hother]; exact hu)
  rw [MplexStream.opener, MplexStream.opener, hrole] at this
  exact End.other_ne e this.symm

/-! ## Over byte strings -/

theorem Link.Unshared.map {κ φ κ' φ' : Type} {c : Codec κ φ} {c' : Codec κ' φ'} (F : c.Hom c')
    {s : Link κ φ} (h : s.Unshared) : (s.map F).Unshared :=
  ⟨h.once, h.opener⟩

/-- The guard reads the same in both views. -/
theorem opensAlone_map (V : UnsignedVarint) (s : Link Item Frame) (a : LinkAct) :
    OpensAlone (bytesCodec V) (s.map (bytesHom V)) a ↔ OpensAlone frameCodec s a := by
  rw [OpensAlone, OpensAlone, (bytesHom V).opensAt_map, (bytesHom V).announcements_map]
  rfl

/-- **Stream ids of a connection.** In every run, and over every next step, whose local
opens do not overlap an announcement of the other end, no two open streams share an
id and no open stream gets another sender. -/
theorem stream_ids_unshared (V : UnsignedVarint) {as : List LinkAct}
    {s : Link (List UInt8) (List UInt8)}
    (h : (link (bytesCodec V)).RunUnder (OpensAlone (bytesCodec V)) as s) :
    s.Unshared ∧ ∀ a s', OpensAlone (bytesCodec V) s a →
      (link (bytesCodec V)).step s a = some s' → s.SendersKept s' := by
  obtain ⟨s, hrun, rfl⟩ := (bytesHom V).run_view h
  have hI : IdInv s := idInv_of_run (hrun.mono fun s a => (opensAlone_map V s a).mp)
  refine ⟨hI.unshared.map (bytesHom V), ?_⟩
  intro a s' hg hstep
  have hmap := (bytesHom V).step_map s a
  rw [show (s.map (bytesHom V)).step (bytesCodec V) a = some s' from hstep] at hmap
  obtain ⟨t, ht, rfl⟩ := Option.map_eq_some_iff.mp hmap.symm
  exact hI.sendersKept ((opensAlone_map V s a).mp hg) ht

/-- Dialer and listener open one stream each, one after the other. -/
def alternatingOpens : List LinkAct :=
  [.openReq .dialer Payload.empty, .recvQueue .dialer, .recvQueue .dialer, .recvRaw .listener,
   .openReq .listener Payload.empty, .recvQueue .listener, .recvQueue .listener,
   .recvRaw .dialer]

theorem alternatingOpens_enabled :
    ((link (bytesCodec leb128)).exec (OpensAlone (bytesCodec leb128)) (Link.fresh [])
      alternatingOpens).isSome = true := by decide +kernel

theorem stream_ids_unshared_alternating :
    (((link (bytesCodec leb128)).exec (OpensAlone (bytesCodec leb128)) (Link.fresh [])
      alternatingOpens).get alternatingOpens_enabled).Unshared :=
  (stream_ids_unshared leb128 (runUnder_of_exec (fresh_init _ [])
    (Option.some_get alternatingOpens_enabled).symm)).1

/-- Both ends handle an open before the other's announcement arrives. -/
def overlappingOpens : List LinkAct :=
  [.openReq .dialer Payload.empty, .openReq .listener Payload.empty, .recvQueue .dialer,
   .recvQueue .listener, .recvQueue .listener]

theorem overlappingOpens_enabled :
    ((link (bytesCodec leb128)).exec (fun _ _ => True) (Link.fresh [])
      overlappingOpens).isSome = true := by decide +kernel

theorem overlappingOpens_delivered :
    ((((link (bytesCodec leb128)).exec (fun _ _ => True) (Link.fresh []) overlappingOpens).get
      overlappingOpens_enabled).step (bytesCodec leb128) (.recvRaw .dialer)).isSome = true := by
  decide +kernel

/-- Both streams have id 1, and the dialer replaces the sender of its own when the
listener's announcement arrives. -/
theorem overlapping_opens_share :
    ∃ s s', (link (bytesCodec leb128)).Run overlappingOpens s ∧
      (link (bytesCodec leb128)).step s (.recvRaw .dialer) = some s' ∧
      ¬ s.Unshared ∧ ¬ s.SendersKept s' := by
  refine ⟨_, _, runUnder_of_exec (fresh_init _ []) (Option.some_get overlappingOpens_enabled).symm,
    (Option.some_get overlappingOpens_delivered).symm, ?_, ?_⟩
  · intro h
    have hopened :
        MplexStream.opener ⟨1, true, some Payload.empty, .negotiating, [], [], []⟩ .dialer
        = MplexStream.opener ⟨1, true, some Payload.empty, .negotiating, [], [], []⟩ .listener :=
      h.opener .dialer .listener 1 0 0 _ _ (by decide +kernel) (by decide +kernel)
        (by decide +kernel) (by decide +kernel)
    exact absurd hopened (by decide)
  · intro h
    exact absurd (h .dialer 1 0 (by decide +kernel)) (by decide +kernel)

end Rnet.Mplex
