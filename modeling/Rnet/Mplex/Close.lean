import Rnet.Mplex.Negotiation

/-!
# Closing a stream

`MplexStream::close` queues a `CloseStream` command behind `INTERNAL`, so it never reaches the
wire: each end takes the id out of its own table when its own handler has called `close`, and
the other end is not told. An end whose `conn_handler` is over has no table any more.

> `keys_agree_iff_closes_agree`: once the queues and the wires are empty, an id that names one
> stream is a key at both ends or at neither exactly if `close` was called at both ends or at
> neither; or, while only one end runs, if that end has closed what it had.

`unannounced_close` is the shortest run that tells the two ends apart.
-/

namespace Rnet.Mplex

open Rnet.Lib.System (runUnder_of_exec exec_gather exec_view gather_view)

/-! ## The property -/

section Property

variable {κ φ : Type}

/-- The id is a key of the table of an end; one whose `conn_handler` is over has none. -/
def Link.Key (s : Link κ φ) (e : End) (id : UInt32) : Prop :=
  (s.ends e).running = true ∧ id ∈ (s.ends e).streams

instance (s : Link κ φ) (e : End) (id : UInt32) : Decidable (s.Key e id) :=
  inferInstanceAs (Decidable (_ ∧ _))

/-- Nothing is on the queue of an end that runs, or on the wire to it. -/
def Link.Settled (s : Link κ φ) : Prop :=
  ∀ e, (s.ends e).running = true → (s.ends e).mpsc = [] ∧ s.wire e = []

/-- At neither end do two streams have the id. -/
def Link.NamesOne (s : Link κ φ) (id : UInt32) : Prop :=
  ∀ e, ((s.ends e).tasks.map (·.streamId)).count id ≤ 1

/-- The ids of the streams an end has had. -/
def Link.ids (s : Link κ φ) (e : End) : List UInt32 := (s.ends e).tasks.map (·.streamId)

/-- The stream that an action closes: its handler calls `close` while `conn_handler` runs. -/
def closeCall (s : Link κ φ) : LinkAct → List (End × UInt32)
  | .task e h .close =>
    if (s.ends e).running then ((s.ends e).tasks[h]?.map fun t => (e, t.streamId)).toList else []
  | _ => []

/-- The streams closed by a list of actions. -/
def closeCalls (c : Codec κ φ) (s : Link κ φ) (as : List LinkAct) : List (End × UInt32) :=
  (link c).gather closeCall s as

/-- The closes of an id agree: of two ends that run, both have closed the stream or neither has;
and an end that runs alone has closed it, if it has had it. -/
structure ClosesAgree (calls : List (End × UInt32)) (s : Link κ φ) (id : UInt32) : Prop where
  both : (∀ e, (s.ends e).running = true) → ((End.dialer, id) ∈ calls ↔ (End.listener, id) ∈ calls)
  alone : ∀ e, (s.ends e).running = true → (s.ends e.other).running = false → id ∈ s.ids e →
    (e, id) ∈ calls

end Property

/-! ## Tables and queues -/

/-- What a step does to the table of an end and to the `CloseStream` commands on its queue. -/
inductive TableTurn (s s' : Link Item Frame) (d : End) : Prop
  | keeps (hkeys : ∀ id ∈ (s.ends d).streams, id ∈ (s'.ends d).streams)
      (hqueue : ∀ id, .closeStream id ∈ (s.ends d).mpsc → .closeStream id ∈ (s'.ends d).mpsc)
  /-- a queued command is handled -/
  | closes (i : UInt32) (hq : .closeStream i ∈ (s.ends d).mpsc)
      (hstreams : (s'.ends d).streams = (s.ends d).streams.erase (wireId i))
      (hqueue : ∀ id, .closeStream id ∈ (s.ends d).mpsc →
        id = i ∨ .closeStream id ∈ (s'.ends d).mpsc)
  /-- the peer sends `CloseStream` -/
  | told (f : Frame) (hf : f ∈ s.wire d) (hflag : f.flag = .closeStream)

theorem recvQueue_tableTurn {s s' : Link Item Frame} {e : End} {w : Option Frame}
    (h : (s.ends e).recvQueue frameCodec = some (s'.ends e, w)) : TableTurn s s' e := by
  rw [MplexConn.recvQueue] at h
  split at h
  swap
  · simp at h
  cases hq : (s.ends e).mpsc with
  | nil =>
    rw [hq] at h
    simp at h
  | cons i rest =>
    rw [hq] at h
    dsimp only at h
    -- the head leaves the queue
    have tail : ∀ {m : List Item}, rest <+: m → (∀ id, i ≠ .closeStream id) →
        ∀ id, Item.closeStream id ∈ (s.ends e).mpsc → Item.closeStream id ∈ m := by
      intro m hrest hi id hid
      rw [hq] at hid
      rcases List.mem_cons.mp hid with hid | hid
      · exact absurd hid.symm (hi id)
      · exact hrest.subset hid
    have drop : ∀ {conn : MplexConn Item} {w' : Option Frame},
        some (conn, w') = some (s'.ends e, w) →
        conn.streams = (s.ends e).streams → conn.mpsc = rest → (∀ id, i ≠ .closeStream id) →
        TableTurn s s' e := by
      intro conn w' he hs hm hi
      obtain ⟨rfl, -⟩ := Prod.mk.inj (Option.some.inj he)
      exact .keeps (by rw [hs]; exact fun id hid => hid) (tail (hm ▸ List.prefix_refl _) hi)
    split at h
    · rename_i hroute
      refine drop h rfl rfl fun id hi => ?_
      rw [hi] at hroute
      simp [frameCodec, Item.isInternal] at hroute
    · rename_i f hroute
      obtain rfl : i.frame = f := by
        simp only [frameCodec] at hroute
        split at hroute
        · exact Sum.inl.inj hroute
        · simp at hroute
      have done : ∀ {conn : MplexConn Item} {b : Bool},
          MplexConn.handleIncoming frameCodec { s.ends e with mpsc := rest } i.frame
            = .ok (conn, b) →
          (s'.ends e).streams = conn.streams → (s'.ends e).mpsc = conn.mpsc →
          TableTurn s s' e := by
        intro conn b hin hs hm
        obtain ⟨⟨q, hpre, -⟩, hcase⟩ := handleIncoming_queue hin
        replace hpre : rest <+: (s'.ends e).mpsc := ⟨q, (hm.trans hpre).symm⟩
        rcases hcase with ⟨hflag, hstreams⟩ | ⟨hflag, hkeys⟩
        · cases i with
          | closeStream i =>
            refine .closes i (by rw [hq]; exact List.mem_cons_self ..) (hs.trans hstreams) ?_
            intro id hid
            rw [hq] at hid
            rcases List.mem_cons.mp hid with hid | hid
            · exact .inl (by simpa using hid)
            · exact .inr (hpre.subset hid)
          | _ => simp [Item.frame] at hflag
        · refine .keeps (by rw [hs]; exact hkeys) (tail hpre fun id hi => hflag ?_)
          rw [hi]
          rfl
      split at h
      · rename_i hin
        refine drop h rfl rfl fun id hi => ?_
        rw [hi] at hin
        simp [MplexConn.handleIncoming, frameCodec, Item.frame, MplexConn.handleFlag] at hin
      · rename_i hin
        obtain ⟨he, -⟩ := Prod.mk.inj (Option.some.inj h)
        exact done hin (by rw [← he]) (by rw [← he])
      · rename_i hin
        obtain ⟨he, -⟩ := Prod.mk.inj (Option.some.inj h)
        exact done hin (by rw [← he]) (by rw [← he])

/-- **Every step** keeps the keys of a table, or handles a close. -/
theorem step_tableTurn {s s' : Link Item Frame} {a : LinkAct} (h : s.step frameCodec a = some s')
    (d : End) : TableTurn s s' d := by
  have same : ∀ {conn : MplexConn Item}, s'.ends d = conn → conn.streams = (s.ends d).streams →
      (s.ends d).mpsc <+: conn.mpsc → TableTurn s s' d := by
    intro conn he hs hm
    exact .keeps (by rw [he, hs]; exact fun id hid => hid) fun id hid => by
      rw [he]
      exact hm.subset hid
  have at_ : ∀ {e : End} {conn : MplexConn Item}, s'.ends = Function.update s.ends e conn →
      (s'.ends e = conn → d = e → TableTurn s s' d) → TableTurn s s' d := by
    intro e conn he ht
    by_cases hd : d = e
    · exact ht (by rw [he, Function.update_self]) hd
    · exact same (by rw [he, Function.update_of_ne hd]) rfl (List.prefix_refl _)
  have sent : ∀ {e : End} {i : Item} {conn : MplexConn Item},
      (s.ends e).send frameCodec i = some conn → s'.ends = Function.update s.ends e conn →
      TableTurn s s' d := by
    intro e i conn hs he
    obtain ⟨-, rfl⟩ := send_some hs
    refine at_ he fun he hd => ?_
    subst hd
    exact same he rfl (List.prefix_append _ _)
  cases a with
  | openReq e p =>
    obtain ⟨conn, hs, rfl⟩ := Option.map_eq_some_iff.mp h
    exact sent hs rfl
  | recvQueue e =>
    obtain ⟨⟨conn, w⟩, hs, rfl⟩ := Option.map_eq_some_iff.mp h
    refine at_ (by rw [Link.transmit_ends]; rfl) fun he hd => ?_
    subst hd
    exact recvQueue_tableTurn (w := w) (by rw [he]; exact hs)
  | recvRaw e =>
    simp only [Link.step] at h
    cases hw : s.wire e with
    | nil =>
      rw [hw] at h
      simp at h
    | cons f rest =>
      rw [hw] at h
      obtain ⟨conn, hs, rfl⟩ := Option.map_eq_some_iff.mp h
      refine at_ rfl fun he hd => ?_
      subst hd
      rw [MplexConn.recvRaw] at hs
      split at hs
      swap
      · simp at hs
      split at hs
      · obtain rfl := Option.some.inj hs
        exact same he rfl (List.prefix_refl _)
      · rename_i hin
        obtain rfl := Option.some.inj hs
        obtain ⟨⟨q, hpre, -⟩, hcase⟩ := handleIncoming_queue hin
        rcases hcase with ⟨hflag, -⟩ | ⟨-, hkeys⟩
        · exact .told f (by rw [hw]; exact List.mem_cons_self ..) hflag
        · refine .keeps (by rw [he]; exact hkeys) fun id hid => ?_
          rw [he, hpre]
          exact List.mem_append_left _ hid
  | task e j a =>
    obtain ⟨conn, hs, rfl⟩ := Option.map_eq_some_iff.mp h
    obtain ⟨⟨hstreams, -⟩, q, hq, -⟩ := taskStep_shape hs
    refine at_ rfl fun he hd => ?_
    subst hd
    exact same he hstreams ⟨_, hq.symm⟩
  | liveliness e =>
    simp only [Link.step] at h
    split at h
    · obtain ⟨conn, hs, rfl⟩ := Option.map_eq_some_iff.mp h
      exact sent hs rfl
    · simp at h
  | disconnect e p =>
    obtain ⟨conn, hs, rfl⟩ := Option.map_eq_some_iff.mp h
    exact sent hs rfl
  | pingCheckEnd e =>
    obtain rfl := Option.some.inj h
    refine at_ rfl fun he hd => ?_
    subst hd
    exact same he rfl (List.prefix_refl _)
  | rawError e =>
    simp only [Link.step] at h
    split at h
    · obtain rfl := Option.some.inj h
      refine at_ rfl fun he hd => ?_
      subst hd
      exact same he rfl (List.prefix_refl _)
    · simp at h

/-- A `close` of a stream whose connection runs queues its `CloseStream`. -/
theorem step_closeCall {s s' : Link Item Frame} {a : LinkAct}
    (h : s.step frameCodec a = some s') {e : End} {id : UInt32} (hc : (e, id) ∈ closeCall s a) :
    Item.closeStream id ∈ (s'.ends e).mpsc ∧ ∃ t ∈ (s.ends e).tasks, t.streamId = id := by
  cases a with
  | task d j a =>
    cases a with
    | close =>
      simp only [closeCall] at hc
      split at hc
      swap
      · simp at hc
      rename_i hr
      obtain ⟨t, ht, he⟩ := Option.map_eq_some_iff.mp (Option.mem_toList.mp hc)
      obtain ⟨rfl, rfl⟩ := Prod.mk.inj he
      obtain ⟨conn, hs, rfl⟩ := Option.map_eq_some_iff.mp h
      rw [Link.setEnd_ends_self]
      rw [MplexConn.taskStep, ht] at hs
      dsimp only at hs
      split at hs
      swap
      · simp at hs
      rw [MplexConn.send, if_pos hr] at hs
      dsimp only at hs
      rw [← Option.some.inj hs]
      exact ⟨List.mem_append_right _ (List.mem_singleton_self _), t, List.mem_of_getElem? ht, rfl⟩
    | _ => simp [closeCall] at hc
  | _ => simp [closeCall] at hc

/-! ## Which ids an end knows -/

theorem ids_eq (s : Link Item Frame) (e : End) :
    s.ids e = (roster (s.ends e).tasks).map Prod.fst := by
  rw [Link.ids, roster, List.map_map]
  rfl

theorem mem_ids {s : Link Item Frame} {e : End} {id : UInt32} :
    id ∈ s.ids e ↔ ∃ role, (id, role) ∈ roster (s.ends e).tasks := by
  rw [ids_eq, List.mem_map]
  constructor
  · intro h
    obtain ⟨⟨_, role⟩, h, rfl⟩ := h
    exact ⟨role, h⟩
  · intro h
    obtain ⟨role, h⟩ := h
    exact ⟨_, h, rfl⟩

/-- No `CloseStream` is sent to the peer. -/
theorem Effect.out_flag {conn conn' : MplexConn Item} {inn out : List Frame}
    (h : Effect conn conn' inn out) : ∀ f ∈ out, f.flag ≠ .closeStream := by
  intro g hg hflag
  cases h with
  | chatter f hc hf =>
    rw [List.mem_singleton.mp hg, hf] at hflag
    simp at hflag
  | send h t t' f ht hid hrole hput hsent hf hd hc =>
    rw [List.mem_singleton.mp hg] at hflag
    rw [hflag] at hd
    simp [MuxedStreamFlag.isData] at hd
  | openLocal p hc | openByPeer f hf h0 hc =>
    rw [List.mem_singleton.mp hg] at hflag
    simp [Item.frame] at hflag
  | _ => simp at hg

/-- What the two ends know of each other's streams: an announcement belongs to a stream of its
sender, and a stream that one end opened is announced to the other or known there. -/
structure KnownInv (s : Link Item Frame) : Prop where
  fits : ∀ e, ∀ id ∈ s.ids e, 0 < id.toNat ∧ id.toNat < 2 ^ 29
  untold : ∀ e, ∀ f ∈ s.inFlight frameCodec e, f.flag ≠ .closeStream
  announced : ∀ e, ∀ f ∈ s.inFlight frameCodec e, f.flag = .newStream → f.id ∈ s.ids e.other
  adopted : ∀ e id, (id, false) ∈ roster (s.ends e).tasks → id ∈ s.ids e.other
  heard : ∀ e id, (id, true) ∈ roster (s.ends e.other).tasks →
    (∃ f ∈ s.inFlight frameCodec e, f.flag = .newStream ∧ f.id = id) ∨ id ∈ s.ids e

/-- How a step changes what an end knows. -/
inductive IdsTurn (s s' : Link Item Frame) (d : End) : Prop
  | same (hroster : roster (s'.ends d).tasks = roster (s.ends d).tasks)
      (hkeys : ∀ id ∈ (s'.ends d).streams, id ∈ (s.ends d).streams)
  | new (n : UInt32) (role : Bool)
      (hroster : roster (s'.ends d).tasks = roster (s.ends d).tasks ++ [(n, role)])
      (hstreams : (s'.ends d).streams = (s.ends d).streams.insert n (s.ends d).tasks.length)

theorem IdsTurn.mono {s s' : Link Item Frame} {d : End} (h : IdsTurn s s' d) {id : UInt32} :
    id ∈ s.ids d → id ∈ s'.ids d := by
  rw [mem_ids, mem_ids]
  intro h
  obtain ⟨role, hr⟩ := h
  refine ⟨role, ?_⟩
  cases h with
  | same hroster => rwa [hroster]
  | new n r hroster =>
    rw [hroster]
    exact List.mem_append_left _ hr

theorem mem_of_lookup {streams streams' : AList (fun _ : UInt32 => Nat)}
    (h : ∀ id k, streams'.lookup id = some k → streams.lookup id = some k) :
    ∀ id ∈ streams', id ∈ streams := by
  intro id hid
  obtain ⟨k, hk⟩ := Option.isSome_iff_exists.mp (AList.lookup_isSome.mpr hid)
  exact AList.lookup_isSome.mp (by rw [h id k hk]; rfl)

/-- The frames announced to the actor of a step carry ids that fit. -/
theorem KnownInv.wireId_eq {s : Link Item Frame} (h : KnownInv s) {e : End} {id : UInt32}
    (hid : id ∈ s.ids e) : wireId id = id ∧ id ≠ 0 := by
  obtain ⟨hpos, hlt⟩ := h.fits e id hid
  refine ⟨wireId_of_lt hlt, fun h0 => ?_⟩
  rw [h0] at hpos
  simp at hpos

/-- Ids fit as long as the one that an end makes does. -/
theorem KnownInv.fits_new {s s' : Link Item Frame} (h : KnownInv s) {d : End} {n : UInt32}
    {role : Bool} (hroster : roster (s'.ends d).tasks = roster (s.ends d).tasks ++ [(n, role)])
    (hrest : roster (s'.ends d.other).tasks = roster (s.ends d.other).tasks)
    (hn : 0 < n.toNat ∧ n.toNat < 2 ^ 29) :
    ∀ e, ∀ id ∈ s'.ids e, 0 < id.toNat ∧ id.toNat < 2 ^ 29 := by
  intro e id hid
  rcases End.eq_or_eq_other d e with rfl | rfl
  · rw [ids_eq, hroster, List.map_append, ← ids_eq] at hid
    rcases List.mem_append.mp hid with hid | hid
    · exact h.fits _ id hid
    · rw [List.mem_singleton.mp hid]
      exact hn
  · rw [ids_eq, hrest, ← ids_eq] at hid
    exact h.fits _ id hid

/-- **One step** whose local open fits, at each end. -/
theorem KnownInv.step {s s' : Link Item Frame} {a : LinkAct} (h : KnownInv s)
    (hg : IdFits frameCodec s a) (hstep : s.step frameCodec a = some s') :
    KnownInv s' ∧ ∀ d, IdsTurn s s' d := by
  obtain ⟨inn, out, hst, hopens⟩ := step_effect hstep
  have hout : ∀ f ∈ out, f.flag ≠ .closeStream := hst.effect.out_flag
  have rest : roster (s'.ends a.actor.other).tasks = roster (s.ends a.actor.other).tasks := by
    rw [hst.other]
  have both : IdsTurn s s' a.actor → ∀ d, IdsTurn s s' d := by
    intro hturn d
    rcases End.eq_or_eq_other a.actor d with rfl | rfl
    · exact hturn
    · exact .same rest (by rw [hst.other]; exact fun _ hid => hid)
  -- frames in flight are old or new
  have flight : ∀ e, ∀ f ∈ s'.inFlight frameCodec e,
      f ∈ s.inFlight frameCodec e ∨ e = a.actor.other ∧ f ∈ out := by
    intro e f hf
    rcases End.eq_or_eq_other a.actor e with rfl | rfl
    · rw [hst.taken]
      exact Or.inl (List.mem_append_right _ hf)
    · rw [hst.sent] at hf
      exact (List.mem_append.mp hf).imp_right fun hf => ⟨rfl, hf⟩
  have kept : ∀ e, ∀ f ∈ s.inFlight frameCodec e, f ∈ s'.inFlight frameCodec e ∨
      e = a.actor ∧ f ∈ inn := by
    intro e f hf
    rcases End.eq_or_eq_other a.actor e with rfl | rfl
    · rw [hst.taken] at hf
      exact (List.mem_append.mp hf).symm.imp_right fun hf => ⟨rfl, hf⟩
    · rw [hst.sent]
      exact Or.inl (List.mem_append_left _ hf)
  have untold : ∀ e, ∀ f ∈ s'.inFlight frameCodec e, f.flag ≠ .closeStream := by
    intro e f hf
    rcases flight e f hf with hf | ⟨-, hf⟩
    · exact h.untold e f hf
    · exact hout f hf
  rcases hst.effect.ids with ⟨hs, hinn, hnew, -⟩ | ⟨rfl, rfl, p, hc⟩ | ⟨f, rfl, hf, hrem⟩
  · have hturn := both (.same hs.roster (mem_of_lookup hs.closed))
    have hroster : ∀ d, roster (s'.ends d).tasks = roster (s.ends d).tasks := by
      intro d
      rcases End.eq_or_eq_other a.actor d with rfl | rfl
      · exact hs.roster
      · exact rest
    have hids : ∀ d, s'.ids d = s.ids d := fun d => by rw [ids_eq, ids_eq, hroster]
    refine ⟨⟨?_, untold, ?_, ?_, ?_⟩, hturn⟩
    · intro e
      rw [hids]
      exact h.fits e
    · intro e f hf hflag
      rw [hids]
      rcases flight e f hf with hf | ⟨-, hf⟩
      · exact h.announced e f hf hflag
      · exact absurd hflag (hnew f hf)
    · intro e id hid
      rw [hids]
      rw [hroster] at hid
      exact h.adopted e id hid
    · intro e id hid
      rw [hids]
      rw [hroster] at hid
      refine (h.heard e id hid).imp_left ?_
      intro h
      obtain ⟨f, hf, hflag, hfid⟩ := h
      rcases kept e f hf with hf | ⟨-, hf⟩
      · exact ⟨f, hf, hflag, hfid⟩
      · exact absurd hflag (hinn f hf)
  · -- the actor opens a stream
    have hroster : roster (s'.ends a.actor).tasks
        = roster (s.ends a.actor).tasks ++ [((s.ends a.actor).streamCounter + 1, true)] := by
      rw [show (s'.ends a.actor).tasks = _ from congrArg Core.tasks hc]
      exact List.map_append
    have hturn := both (.new _ _ hroster (congrArg Core.streams hc))
    have hmono : ∀ d id, id ∈ s.ids d → id ∈ s'.ids d := fun d _ => (hturn d).mono
    have hfits := hg (hopens rfl ⟨_, List.mem_singleton_self _, rfl⟩)
    refine ⟨⟨h.fits_new hroster rest ?_, untold, ?_, ?_, ?_⟩, hturn⟩
    · rw [UInt32.toNat_add, show (1 : UInt32).toNat = 1 from rfl, Nat.mod_eq_of_lt (by omega)]
      omega
    · intro e f hf hflag
      rcases flight e f hf with hf | ⟨rfl, hnew⟩
      · exact hmono _ _ (h.announced e f hf hflag)
      · rw [List.mem_singleton.mp hnew, End.other_other, mem_ids, hroster]
        exact ⟨true, List.mem_append_right _ (List.mem_singleton_self _)⟩
    · intro e id hid
      apply hmono
      rcases End.eq_or_eq_other a.actor e with rfl | rfl
      · rw [hroster] at hid
        rcases List.mem_append.mp hid with hid | hid
        · exact h.adopted _ id hid
        · simp at hid
      · rw [rest] at hid
        exact h.adopted _ id hid
    · intro e id hid
      have old : (id, true) ∈ roster (s.ends e.other).tasks →
          (∃ f ∈ s'.inFlight frameCodec e, f.flag = .newStream ∧ f.id = id) ∨ id ∈ s'.ids e := by
        intro hid
        refine (h.heard e id hid).imp ?_ (hmono e id)
        intro h
        obtain ⟨f, hf, hflag, hfid⟩ := h
        rcases kept e f hf with hf | ⟨-, hf⟩
        · exact ⟨f, hf, hflag, hfid⟩
        · simp at hf
      rcases End.eq_or_eq_other a.actor e with rfl | rfl
      · rw [rest] at hid
        exact old hid
      · rw [End.other_other] at hid old
        rw [hroster] at hid
        rcases List.mem_append.mp hid with hid | hid
        · exact old hid
        · obtain ⟨rfl, -⟩ := Prod.mk.inj (List.mem_singleton.mp hid)
          rw [hst.sent]
          exact Or.inl ⟨_, List.mem_append_right _ (List.mem_singleton_self _), rfl, rfl⟩
  · -- the actor adopts a stream that the other end knows
    have hknown : f.id ∈ s.ids a.actor.other :=
      h.announced _ f
        (by rw [hst.taken]; exact List.mem_append_left _ (List.mem_singleton_self _)) hf
    obtain ⟨hw, hne⟩ := h.wireId_eq hknown
    obtain ⟨rfl, hc⟩ := hrem (by rw [hw]; exact hne)
    rw [hw] at hc
    have hroster : roster (s'.ends a.actor).tasks
        = roster (s.ends a.actor).tasks ++ [(f.id, false)] := by
      rw [show (s'.ends a.actor).tasks = _ from congrArg Core.tasks hc]
      exact List.map_append
    have hturn := both (.new _ _ hroster (congrArg Core.streams hc))
    have hmono : ∀ d id, id ∈ s.ids d → id ∈ s'.ids d := fun d _ => (hturn d).mono
    have hheard : f.id ∈ s'.ids a.actor := by
      rw [mem_ids, hroster]
      exact ⟨false, List.mem_append_right _ (List.mem_singleton_self _)⟩
    refine ⟨⟨h.fits_new hroster rest (h.fits _ _ hknown), untold, ?_, ?_, ?_⟩, hturn⟩
    · intro e g hg hflag
      rcases flight e g hg with hg | ⟨-, hg⟩
      · exact hmono _ _ (h.announced e g hg hflag)
      · simp at hg
    · intro e id hid
      apply hmono
      rcases End.eq_or_eq_other a.actor e with rfl | rfl
      · rw [hroster] at hid
        rcases List.mem_append.mp hid with hid | hid
        · exact h.adopted _ id hid
        · obtain ⟨rfl, -⟩ := Prod.mk.inj (List.mem_singleton.mp hid)
          exact hknown
      · rw [rest] at hid
        exact h.adopted _ id hid
    · intro e id hid
      have old : (id, true) ∈ roster (s.ends e.other).tasks := by
        rcases End.eq_or_eq_other a.actor e with rfl | rfl
        · rwa [rest] at hid
        · rw [End.other_other] at hid ⊢
          rw [hroster] at hid
          rcases List.mem_append.mp hid with hid | hid
          · exact hid
          · simp at hid
      rcases h.heard e id old with ⟨g, hg, hflag, rfl⟩ | hid
      · rcases kept e g hg with hg | ⟨rfl, hhead⟩
        · exact Or.inl ⟨g, hg, hflag, rfl⟩
        · rw [List.mem_singleton.mp hhead]
          exact Or.inr hheard
      · exact Or.inr (hmono e id hid)

/-- A fresh connection. -/
theorem KnownInv.init {s : Link Item Frame} (h : (link frameCodec).init s) : KnownInv s := by
  have htasks := tasks_init h
  have hT := inFlight_init h
  refine ⟨?_, ?_, ?_, ?_, ?_⟩ <;> intro e
  · simp [Link.ids, htasks]
  · simp [hT]
  · simp [hT]
  · simp [htasks, roster]
  · simp [htasks, roster]

/-- **Once nothing is in flight** both ends know the same ids. -/
theorem KnownInv.ids_agree {s : Link Item Frame} (h : KnownInv s) (hs : s.Settled)
    (hrun : ∀ e, (s.ends e).running = true) {e : End} {id : UInt32} (hid : id ∈ s.ids e) :
    id ∈ s.ids e.other := by
  obtain ⟨role, hr⟩ := mem_ids.mp hid
  cases role with
  | false => exact h.adopted e id hr
  | true =>
    rw [← End.other_other e] at hr
    rcases h.heard e.other id hr with ⟨f, hf, -⟩ | hid
    · rw [Link.inFlight, (hs _ (hrun _)).2, outgoing_eq, (hs _ (hrun _)).1] at hf
      simp at hf
    · exact hid

/-! ## What the closes leave in the tables -/

/-- What the `close` calls so far have to do with the tables. -/
structure CloseInv (calls : List (End × UInt32)) (s : Link Item Frame) : Prop where
  keys : ∀ e, ∀ id ∈ (s.ends e).streams, id ∈ s.ids e
  left : ∀ e, ∀ id ∈ s.ids e, id ∉ (s.ends e).streams → (e, id) ∈ calls
  queued : ∀ e id, .closeStream id ∈ (s.ends e).mpsc → (e, id) ∈ calls
  known : ∀ e id, (e, id) ∈ calls → id ∈ s.ids e
  handled : ∀ e id, (e, id) ∈ calls → (s.ids e).count id ≤ 1 →
    .closeStream id ∈ (s.ends e).mpsc ∨ id ∉ (s.ends e).streams

/-- A `CloseStream` on a queue was there before or is that of the step. -/
theorem step_closeStream {s s' : Link Item Frame} {a : LinkAct}
    (h : s.step frameCodec a = some s') {e : End} {id : UInt32}
    (hi : .closeStream id ∈ (s'.ends e).mpsc) :
    .closeStream id ∈ (s.ends e).mpsc ∨ (e, id) ∈ closeCall s a := by
  cases step_queued h e _ hi with
  | old hi => exact Or.inl hi
  | plain hp => simp [Item.isInternal] at hp
  | openReq _ _ hi | disconnect _ _ hi => simp at hi
  | close j t ha ht hph hid =>
    subst ha
    obtain rfl : id = t.streamId := by simpa using hid
    by_cases hr : (s.ends e).running = true
    · refine Or.inr ?_
      simp [closeCall, hr, ht]
    · -- a stopped connection takes nothing
      obtain ⟨conn, hs, rfl⟩ := Option.map_eq_some_iff.mp h
      rw [Link.setEnd_ends_self] at hi
      rw [MplexConn.taskStep, ht] at hs
      simp only [if_pos hph, MplexConn.send, if_neg hr] at hs
      rw [← Option.some.inj hs] at hi
      exact Or.inl hi

/-- **One step.** -/
theorem CloseInv.step {s s' : Link Item Frame} {a : LinkAct} {calls : List (End × UInt32)}
    (h : CloseInv calls s) (hK : KnownInv s) (hturn : ∀ d, IdsTurn s s' d)
    (hstep : s.step frameCodec a = some s') : CloseInv (calls ++ closeCall s a) s' := by
  have hmono : ∀ d id, id ∈ s.ids d → id ∈ s'.ids d := fun d _ => (hturn d).mono
  have noTold : ∀ e f, f ∈ s.wire e → f.flag ≠ .closeStream := fun e f hf =>
    hK.untold e f (List.mem_append_left _ hf)
  refine ⟨?_, ?_, ?_, ?_, ?_⟩
  · intro e id hid
    cases hturn e with
    | same hroster hkeys => exact hmono e id (h.keys e id (hkeys id hid))
    | new n role hroster hstreams =>
      rw [hstreams, AList.mem_insert] at hid
      rcases hid with rfl | hid
      · rw [mem_ids, hroster]
        exact ⟨role, List.mem_append_right _ (List.mem_singleton_self _)⟩
      · exact hmono e id (h.keys e id hid)
  · intro e id hid hout
    have old : id ∈ s.ids e → id ∉ (s'.ends e).streams → (e, id) ∈ calls := by
      intro hid hout
      by_cases hin : id ∈ (s.ends e).streams
      · cases step_tableTurn hstep e with
        | keeps hkeys => exact absurd (hkeys id hin) hout
        | closes i hq hstreams =>
          have hcall := h.queued e i hq
          rw [hstreams, (hK.wireId_eq (h.known e i hcall)).1, AList.mem_erase] at hout
          by_cases hne : id = i
          · rwa [hne]
          · exact absurd ⟨hne, hin⟩ hout
        | told f hf hflag => exact absurd hflag (noTold e f hf)
      · exact h.left e id hid hin
    refine List.mem_append_left _ ?_
    cases hturn e with
    | same hroster hkeys =>
      refine old ?_ hout
      rwa [ids_eq, hroster, ← ids_eq] at hid
    | new n role hroster hstreams =>
      refine old ?_ hout
      rw [ids_eq, hroster, List.map_append, ← ids_eq] at hid
      rcases List.mem_append.mp hid with hid | hid
      · exact hid
      · rw [List.mem_singleton.mp hid, hstreams, AList.mem_insert] at hout
        exact absurd (Or.inl rfl) hout
  · intro e id hid
    exact List.mem_append.mpr ((step_closeStream hstep hid).imp_left (h.queued e id))
  · intro e id hid
    rcases List.mem_append.mp hid with hid | hid
    · exact hmono e id (h.known e id hid)
    · obtain ⟨-, t, ht, rfl⟩ := step_closeCall hstep hid
      exact hmono e _ (List.mem_map_of_mem ht)
  · intro e id hid hone
    rcases List.mem_append.mp hid with hid | hid
    swap
    · exact Or.inl (step_closeCall hstep hid).1
    have old : id ∈ (s'.ends e).streams → id ∈ (s.ends e).streams := by
      cases hturn e with
      | same hroster hkeys => exact hkeys id
      | new n role hroster hstreams =>
        intro hin
        rw [hstreams, AList.mem_insert] at hin
        rcases hin with rfl | hin
        · -- a second stream of the id
          rw [ids_eq, hroster, List.map_append, ← ids_eq, List.count_append] at hone
          have hpos := List.count_pos_iff.mpr (h.known e _ hid)
          simp at hone
          omega
        · exact hin
    have hone' : (s.ids e).count id ≤ 1 := by
      cases hturn e with
      | same hroster hkeys => rwa [ids_eq, hroster, ← ids_eq] at hone
      | new n role hroster hstreams =>
        rw [ids_eq, hroster, List.map_append, ← ids_eq, List.count_append] at hone
        omega
    rcases h.handled e id hid hone' with hq | hout
    swap
    · exact Or.inr fun hin => hout (old hin)
    cases step_tableTurn hstep e with
    | keeps hkeys hqueue => exact Or.inl (hqueue id hq)
    | closes i hi hstreams hqueue =>
      rcases hqueue id hq with rfl | hq
      · rw [hstreams, (hK.wireId_eq (h.known e id hid)).1, AList.mem_erase]
        exact Or.inr fun hin => hin.1 rfl
      · exact Or.inl hq
    | told f hf hflag => exact absurd hflag (noTold e f hf)

theorem CloseInv.init {s : Link Item Frame} (h : (link frameCodec).init s) : CloseInv [] s := by
  have hends : ∀ e, ∃ hs pc, s.ends e = { handlers := hs, pingCheck := pc } := fun e => (h e).2
  refine ⟨?_, ?_, ?_, by simp, by simp⟩ <;> intro e id hid
  all_goals
    obtain ⟨hs, pc, he⟩ := hends e
    simp [Link.ids, he] at hid

/-- A settled end that runs has the keys of its streams that it has not closed. -/
theorem CloseInv.key_iff {s : Link Item Frame} {calls : List (End × UInt32)}
    (h : CloseInv calls s) (hs : s.Settled) {id : UInt32} (hone : s.NamesOne id) {e : End}
    (hrun : (s.ends e).running = true) : s.Key e id ↔ id ∈ s.ids e ∧ (e, id) ∉ calls := by
  constructor
  · intro hkey
    refine ⟨h.keys e id hkey.2, fun hcall => ?_⟩
    rcases h.handled e id hcall (hone e) with hq | hout
    · rw [(hs e hrun).1] at hq
      simp at hq
    · exact hout hkey.2
  · intro ⟨hid, hcall⟩
    refine ⟨hrun, ?_⟩
    by_contra hout
    exact hcall (h.left e id hid hout)

/-- Two ends that run. -/
theorem keys_agree_both {s : Link Item Frame} {calls : List (End × UInt32)} (h : CloseInv calls s)
    (hK : KnownInv s) (hs : s.Settled) {id : UInt32} (hone : s.NamesOne id)
    (hrun : ∀ e, (s.ends e).running = true) :
    (s.Key .dialer id ↔ s.Key .listener id) ↔
      ((End.dialer, id) ∈ calls ↔ (End.listener, id) ∈ calls) := by
  have hids : id ∈ s.ids .dialer ↔ id ∈ s.ids .listener :=
    ⟨fun hid => hK.ids_agree hs hrun hid, fun hid => hK.ids_agree hs hrun hid⟩
  rw [h.key_iff hs hone (hrun _), h.key_iff hs hone (hrun _)]
  by_cases hid : id ∈ s.ids .dialer
  · have := hids.mp hid
    tauto
  · have hd : (End.dialer, id) ∉ calls := fun hc => hid (h.known _ _ hc)
    have hl : (End.listener, id) ∉ calls := fun hc => hid (hids.mpr (h.known _ _ hc))
    tauto

/-- An end that runs alone has no key exactly if it has closed what it had. -/
theorem not_key_alone {s : Link Item Frame} {calls : List (End × UInt32)} (h : CloseInv calls s)
    (hs : s.Settled) {id : UInt32} (hone : s.NamesOne id) {e : End}
    (hrun : (s.ends e).running = true) (hgone : (s.ends e.other).running = false) :
    ¬ s.Key e id ↔ ClosesAgree calls s id := by
  rw [h.key_iff hs hone hrun, not_and, not_not]
  constructor
  · intro hc
    refine ⟨fun hall => absurd (hgone.symm.trans (hall _)) (by decide), fun d hd _ hid => ?_⟩
    -- the end that runs is this one
    rcases e.eq_or_eq_other d with rfl | rfl
    · exact hc hid
    · exact absurd (hgone.symm.trans hd) (by decide)
  · exact fun hc => hc.alone e hrun hgone

/-- **Settled tables** agree on an id exactly if the closes do. -/
theorem keys_agree {s : Link Item Frame} {calls : List (End × UInt32)} (h : CloseInv calls s)
    (hK : KnownInv s) (hs : s.Settled) {id : UInt32} (hone : s.NamesOne id) :
    (s.Key .dialer id ↔ s.Key .listener id) ↔ ClosesAgree calls s id := by
  have noKey : ∀ {e}, (s.ends e).running = false → ¬ s.Key e id :=
    fun hgone hk => absurd (hgone.symm.trans hk.1) (by decide)
  cases hd : (s.ends .dialer).running with
  | true =>
    cases hl : (s.ends .listener).running with
    | true =>
      have hrun : ∀ e, (s.ends e).running = true := by
        intro e
        cases e with
        | dialer => exact hd
        | listener => exact hl
      rw [keys_agree_both h hK hs hone hrun]
      refine ⟨fun hc => ⟨fun _ => hc, fun e _ hgone => ?_⟩, fun hc => hc.both hrun⟩
      exact absurd ((hrun _).symm.trans hgone) (by decide)
    | false =>
      rw [iff_false_right (noKey hl)]
      exact not_key_alone h hs hone hd hl
  | false =>
    cases hl : (s.ends .listener).running with
    | true =>
      rw [iff_false_left (noKey hd)]
      exact not_key_alone h hs hone hl hd
    | false =>
      -- neither end has a table
      have hgone : ∀ e, (s.ends e).running = false := by
        intro e
        cases e with
        | dialer => exact hd
        | listener => exact hl
      refine iff_of_true (iff_of_false (noKey hd) (noKey hl)) ⟨fun hrun => ?_, fun e hrun => ?_⟩
      · exact absurd (hl.symm.trans (hrun _)) (by decide)
      · exact absurd ((hgone e).symm.trans hrun) (by decide)

/-! ## Every run -/

/-- **Every run** whose local opens fit. -/
theorem closeInv_of_exec {as : List LinkAct} {s₀ s : Link Item Frame}
    (h₀ : (link frameCodec).init s₀)
    (h : (link frameCodec).exec (IdFits frameCodec) s₀ as = some s) :
    KnownInv s ∧ CloseInv (closeCalls frameCodec s₀ as) s := by
  have := exec_gather (M := link frameCodec) (f := closeCall)
    (fun calls s => KnownInv s ∧ CloseInv calls s)
    (fun calls s a s' ⟨hK, hC⟩ hg hs => by
      obtain ⟨hK', hturn⟩ := hK.step hg hs
      exact ⟨hK', hC.step hK hturn hs⟩) as ⟨KnownInv.init h₀, CloseInv.init h₀⟩ h
  rwa [List.nil_append] at this

/-- **Keys and closes.** In every run whose ids fit the header, in every state without anything
on a queue or a wire, an id that names one stream is a key at both ends or at neither exactly
if the stream was closed at both ends or at neither, while both run; and if an end that runs alone
has closed it. -/
theorem keys_agree_iff_closes_agree (V : UnsignedVarint) {as : List LinkAct}
    {s₀ s : Link (List UInt8) (List UInt8)} (h₀ : (link (bytesCodec V)).init s₀)
    (h : (link (bytesCodec V)).exec (IdFits (bytesCodec V)) s₀ as = some s) (hs : s.Settled)
    (id : UInt32) (hone : s.NamesOne id) :
    (s.Key .dialer id ↔ s.Key .listener id) ↔
      ClosesAgree (closeCalls (bytesCodec V) s₀ as) s id := by
  obtain ⟨s₀, hinit, rfl⟩ := (bytesHom V).init_view h₀
  have hstep := (bytesHom V).step_map
  rw [exec_view (M := link frameCodec) hstep (idFits_map V)] at h
  obtain ⟨s, hrun, rfl⟩ := Option.map_eq_some_iff.mp h
  have hcalls : closeCalls (bytesCodec V) (s₀.map (bytesHom V)) as = closeCalls frameCodec s₀ as :=
    gather_view (M := link frameCodec) hstep (fun s a => by cases a <;> rfl) as s₀
  have hs' : s.Settled := fun e hrun =>
    ⟨List.map_eq_nil_iff.mp (hs e hrun).1, List.map_eq_nil_iff.mp (hs e hrun).2⟩
  obtain ⟨hK, hC⟩ := closeInv_of_exec hinit hrun
  have hagree := keys_agree hC hK hs' hone
  rw [hcalls]
  exact hagree.trans ⟨fun hc => ⟨hc.both, hc.alone⟩, fun hc => ⟨hc.both, hc.alone⟩⟩

/-- The handler of end `e` closes the stream and returns. -/
def closesAt (e : End) : List LinkAct := [.task e 0 .close, .task e 0 .finish, .recvQueue e]

/-- Both ends close their stream. -/
def bothClose : List LinkAct := oneStream ++ closesAt .dialer ++ closesAt .listener

theorem bothClose_enabled :
    ((link (bytesCodec leb128)).exec (IdFits (bytesCodec leb128)) (Link.fresh ["ping"])
      bothClose).isSome = true := by decide +kernel

/-- The id is a key of neither table. -/
theorem keys_agree_bothClose :
    ∃ s, (link (bytesCodec leb128)).exec (IdFits (bytesCodec leb128)) (Link.fresh ["ping"])
        bothClose = some s ∧
      ((s.Key .dialer 1 ↔ s.Key .listener 1) ↔
        ClosesAgree (closeCalls (bytesCodec leb128) (Link.fresh ["ping"]) bothClose) s 1) := by
  refine ⟨_, (Option.some_get bothClose_enabled).symm,
    keys_agree_iff_closes_agree leb128 (fresh_init _ ["ping"])
      (Option.some_get bothClose_enabled).symm (fun e => ?_) 1 (fun e => ?_)⟩
  · cases e <;> decide +kernel
  · cases e <;> decide +kernel

theorem unannounced_enabled :
    ((link (bytesCodec leb128)).exec (fun _ _ => True) (Link.fresh ["ping"])
      (oneStream ++ closesAt .dialer)).isSome = true := by decide +kernel

/-- **The dialer closes**, and everything is handled: the listener still has the stream. -/
theorem unannounced_close :
    ∃ s, (link (bytesCodec leb128)).Run (oneStream ++ closesAt .dialer) s ∧ s.Settled ∧
      s.NamesOne 1 ∧ ¬ (s.Key .dialer 1 ↔ s.Key .listener 1) := by
  refine ⟨_, runUnder_of_exec (fresh_init _ _) (Option.some_get unannounced_enabled).symm,
    ?_, ?_, by decide +kernel⟩
  · intro e
    cases e <;> decide +kernel
  · intro e
    cases e <;> decide +kernel

end Rnet.Mplex
