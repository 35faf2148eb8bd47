import Rnet.Floodsub.TaskTurns

/-!
# Send loops that meet a dead peer

`publish` and `message_all_peers` select peers and send to one after the other, in whatever order
the set or the map gives them. A stream handler that ends closes its queue, and its entry stays in
`peers` until the queued `DeadPeers` event is handled; both loops unwrap what they find and what
the send returns. The peers that were selected, and those whose queues got the RPC, are kept here
with the tasks.

> `selected_served_iff`: a task that is not inside one of its loops has served every peer as often
> as it has selected it, exactly if every loop finds an entry for every peer it comes to and a
> running handler behind it.
-/

namespace Rnet.Floodsub

open Rnet.Lib
open Rnet.Lib.System (runUnder_of_exec avoids_iff_guarded)

/-- A node, and how far its send loops have come. -/
structure Sends where
  node : Node
  /-- the tasks with the peers that they have selected -/
  selected : List (Nat × String) := []
  /-- the tasks with the peers that they have served, and the handlers whose queues got the RPC -/
  served : List (Nat × String × Nat) := []
  /-- the peers that a task has selected and not served -/
  due : Nat → List String := fun _ => []

namespace Sends

/-- Task `u` has sent to the queue of handler `g`. -/
def serve (s : Sends) (u g : Nat) (node : Node) : Sends :=
  match s.due u with
  | [] => { s with node }
  | peer_id :: peers => { s with
      node
      served := s.served ++ [(u, peer_id, g)]
      due := Function.update s.due u peers }

/-- Task `u` has done a piece of work. -/
def record (s : Sends) (u : Nat) (order : List String) (node : Node) : Work → Sends
  | .publish .. | .messageAllPeers _ => { s with
      node
      selected := s.selected ++ order.map (u, ·)
      due := Function.update s.due u order }
  | .send g (.rpc rpc) => if rpc.publish.isEmpty then { s with node } else s.serve u g node
  | .sendAll (g :: _) _ => s.serve u g node
  | _ => { s with node }

/-- One turn of one task. -/
def step (s : Sends) (a : NodeAct) : Option Sends :=
  (s.node.step a).map fun node =>
    match a with
    | .go u _ order =>
      match s.node.next u, node.ended u with
      | some w, false => s.record u order node w
      | _, _ => { s with node }
    | _ => { s with node }

/-- Task `u` is inside a loop. -/
def Sending (s : Sends) (u : Nat) : Prop :=
  s.node.ended u = false ∧ ∃ w ∈ s.node.todo u, w.inLoop = true

/-- How often task `u` has served a peer. -/
def servings (s : Sends) (u : Nat) (peer_id : String) : Nat :=
  (s.served.map fun e => (e.1, e.2.1)).count (u, peer_id)

/-- Outside its loops, a task has not served a peer as often as it has selected it. -/
def Neglects (s : Sends) : Prop :=
  ∃ u peer_id, ¬ s.Sending u ∧ s.servings u peer_id ≠ s.selected.count (u, peer_id)

end Sends

/-! ## What is left of a loop -/

section Owes

/-- What a task has to do is to serve these peers, in this order, and then something else; `H` says
whose handlers the tasks are. -/
inductive Owes (H : Nat → String → Prop) : List Work → List String → Prop
  | idle {todo : List Work} (h : ∀ w ∈ todo, w.inLoop = false) : Owes H todo []
  | writeMsg {peer_id : String} {rpc : Rpc} {todo : List Work} {peers : List String}
      (hrpc : rpc.publish ≠ []) (h : Owes H todo peers) :
      Owes H (.writeMsg peer_id rpc :: todo) (peer_id :: peers)
  | send {g : Nat} {peer_id : String} {rpc : Rpc} {todo : List Work} {peers : List String}
      (hrpc : rpc.publish ≠ []) (hg : H g peer_id) (h : Owes H todo peers) :
      Owes H (.send g (.rpc rpc) :: todo) (peer_id :: peers)
  | sendAll {g : Nat} {gs : List Nat} {peer_id : String} {rpc : Rpc} {todo : List Work}
      {peers : List String} (hg : H g peer_id) (h : Owes H (.sendAll gs rpc :: todo) peers) :
      Owes H (.sendAll (g :: gs) rpc :: todo) (peer_id :: peers)

variable {H H' : Nat → String → Prop} {todo : List Work} {peers : List String}

theorem Owes.mono (hH : ∀ g p, H g p → H' g p) (h : Owes H todo peers) : Owes H' todo peers := by
  induction h with
  | idle h => exact .idle h
  | writeMsg hrpc _ ih => exact .writeMsg hrpc ih
  | send hrpc hg _ ih => exact .send hrpc (hH _ _ hg) ih
  | sendAll hg _ ih => exact .sendAll (hH _ _ hg) ih

/-- A task that owes nothing is in no loop. -/
theorem Owes.of_nil (h : Owes H todo []) : ∀ w ∈ todo, w.inLoop = false := by
  cases h with
  | idle h => exact h

/-- Outside a loop nothing is owed. -/
theorem Owes.eq_nil {w : Work} (h : Owes H (w :: todo) peers) (hw : w.inLoop = false) :
    peers = [] := by
  cases h with
  | idle h => rfl
  | writeMsg | sendAll => exact absurd hw (by simp [Work.inLoop])
  | send hrpc => exact absurd hw (by simpa [Work.inLoop] using hrpc)

/-- Inside a loop somebody is owed something. -/
theorem Owes.eq_cons {w : Work} (h : Owes H (w :: todo) peers) (hw : w.inLoop = true) :
    ∃ p ps, peers = p :: ps := by
  cases hp : peers with
  | nil =>
    rw [hp] at h
    exact absurd (hw.symm.trans (h.of_nil w (List.mem_cons_self ..))) (by simp)
  | cons p ps => exact ⟨p, ps, rfl⟩

/-- Whoever owes something is in a loop. -/
theorem Owes.inLoop (h : Owes H todo peers) (hne : peers ≠ []) :
    ∃ w ∈ todo, w.inLoop = true := by
  cases h with
  | idle h => exact absurd rfl hne
  | writeMsg => exact ⟨_, List.mem_cons_self .., rfl⟩
  | send hrpc => exact ⟨_, List.mem_cons_self .., by simpa [Work.inLoop] using hrpc⟩
  | sendAll => exact ⟨_, List.mem_cons_self .., rfl⟩

/-- `publish` owes a write to every peer. -/
theorem owes_publish (rpc : Rpc) (hrpc : rpc.publish ≠ []) (h : ∀ w ∈ todo, w.inLoop = false) :
    ∀ order : List String, Owes H (order.map (Work.writeMsg · rpc) ++ todo) order := by
  intro order
  induction order with
  | nil => exact .idle h
  | cons peer_id order ih => exact .writeMsg hrpc ih

/-- `message_all_peers` owes a send to every entry. -/
theorem owes_messageAllPeers (rpc : Rpc) (entry : String → Option Nat)
    (h : ∀ w ∈ todo, w.inLoop = false) :
    ∀ order : List String, (∀ p ∈ order, ∃ g, entry p = some g ∧ H g p) →
      Owes H (.sendAll (order.filterMap entry) rpc :: todo) order := by
  intro order
  induction order with
  | nil =>
    intro _
    refine .idle fun w hw => ?_
    rcases List.mem_cons.mp hw with rfl | hw
    · rfl
    · exact h w hw
  | cons peer_id order ih =>
    intro hentry
    obtain ⟨g, hg, hH⟩ := hentry peer_id (List.mem_cons_self ..)
    rw [List.filterMap_cons_some hg]
    exact .sendAll hH (ih fun p hp => hentry p (List.mem_cons_of_mem _ hp))

end Owes

/-! ## The loops of a run -/

/-- What is left of the loops fits what the tasks have to do. -/
structure SendInv (s : Sends) : Prop where
  owes : ∀ u c, s.node.core u = some c → c.alive = true → Owes s.node.Handles c.todo (s.due u)
  fresh : ∀ u, s.node.core u = none → s.due u = []
  entries : ∀ p g, s.node.fs.peers.lookup p = some g → s.node.Handles g p
  registers : ∀ u c p, s.node.core u = some c → .register p ∈ c.todo → c.role = .handler p
  balance : ∀ u p, s.selected.count (u, p) = s.servings u p + (s.due u).count p

section Runs

variable {s s' : Sends} {u : Nat} {order : List String} {w : Work} {todo : List Work}

/-- **Who neglects a peer** is over, in the middle of a loop. -/
theorem SendInv.neglects_iff (h : SendInv s) :
    s.Neglects ↔ ∃ u, s.node.ended u = true ∧ s.due u ≠ [] := by
  constructor
  · intro h
    obtain ⟨u, p, hidle, hne⟩ := h
    have hcount : 0 < (s.due u).count p := by
      have := h.balance u p
      omega
    have hdue := List.ne_nil_of_mem (List.count_pos_iff.mp hcount)
    refine ⟨u, ?_, hdue⟩
    by_contra hended
    rw [Bool.not_eq_true] at hended
    refine hidle ⟨hended, ?_⟩
    cases hc : s.node.core u with
    | none => exact absurd (h.fresh u hc) hdue
    | some c =>
      have halive : c.alive = true := by
        by_contra hdead
        rw [Node.ended_iff.mpr fun c' hc' => by
          rw [← Option.some.inj (hc.symm.trans hc')]
          simpa using hdead] at hended
        exact absurd hended (by simp)
      rw [Node.todo_core, hc]
      exact (h.owes u c hc halive).inLoop hdue
  · intro h
    obtain ⟨u, hended, hdue⟩ := h
    obtain ⟨p, hp⟩ := List.exists_mem_of_ne_nil _ hdue
    refine ⟨u, p, fun hsending => ?_, ?_⟩
    · exact absurd (hended.symm.trans hsending.1) (by simp)
    · have := h.balance u p
      have := List.count_pos_iff.mpr hp
      omega

theorem handles_update {c c' : TaskCore} (hc : s.node.core u = some c) (hrole : c'.role = c.role)
    (hcore : s'.node.core = Function.update s.node.core u (some c')) {g : Nat} {p : String}
    (h : s.node.Handles g p) : s'.node.Handles g p := by
  rw [Node.handles_iff] at h ⊢
  obtain ⟨c₀, hc₀, hhandler⟩ := h
  rw [hcore]
  by_cases hg : g = u
  · subst hg
    obtain rfl := Option.some.inj (hc.symm.trans hc₀)
    exact ⟨c', Function.update_self .., hrole.trans hhandler⟩
  · exact ⟨c₀, by rw [Function.update_of_ne hg]; exact hc₀, hhandler⟩

/-- One task changes. -/
theorem SendInv.update (h : SendInv s) {c c' : TaskCore} (hc : s.node.core u = some c)
    (hrole : c'.role = c.role)
    (hcore : s'.node.core = Function.update s.node.core u (some c'))
    (howes : c'.alive = true → Owes s.node.Handles c'.todo (s'.due u))
    (hdue : ∀ v, v ≠ u → s'.due v = s.due v)
    (hpeers : ∀ p g, s'.node.fs.peers.lookup p = some g →
      s.node.fs.peers.lookup p = some g ∨ g = u ∧ c.role = .handler p)
    (hregister : ∀ p, .register p ∈ c'.todo → c.role = .handler p)
    (hbalance : ∀ v p, s'.selected.count (v, p) = s'.servings v p + (s'.due v).count p) :
    SendInv s' := by
  have hhandles : ∀ g p, s.node.Handles g p → s'.node.Handles g p :=
    fun g p hg => handles_update hc hrole hcore hg
  refine ⟨fun v d hd halive => ?_, fun v hv => ?_, fun p g hg => ?_, fun v d p hd hp => ?_,
    hbalance⟩
  · by_cases hv : v = u
    · subst hv
      rw [hcore, Function.update_self] at hd
      obtain rfl := Option.some.inj hd
      exact (howes halive).mono hhandles
    · rw [hcore, Function.update_of_ne hv] at hd
      rw [hdue v hv]
      exact (h.owes v d hd halive).mono hhandles
  · have hne : v ≠ u := by
      intro h
      subst h
      rw [hcore, Function.update_self] at hv
      exact absurd hv (by simp)
    rw [hcore, Function.update_of_ne hne] at hv
    rw [hdue v hne]
    exact h.fresh v hv
  · rcases hpeers p g hg with hg | ⟨rfl, hhandler⟩
    · exact hhandles g p (h.entries p g hg)
    · refine hhandles g p (Node.handles_iff.mpr ⟨c, hc, hhandler⟩)
  · by_cases hv : v = u
    · subst hv
      rw [hcore, Function.update_self] at hd
      obtain rfl := Option.some.inj hd
      exact hrole.trans (hregister p hp)
    · rw [hcore, Function.update_of_ne hv] at hd
      exact h.registers v d p hd hp

/-- A task stops. -/
theorem SendInv.stop (h : SendInv s) {c : TaskCore} (hc : s.node.core u = some c) {node : Node}
    (hcore : node.core = Function.update s.node.core u (some ⟨c.role, [], false⟩))
    (hpeers : node.fs.peers = s.node.fs.peers) : SendInv { s with node } := by
  refine h.update hc ?_ hcore (fun halive => absurd halive (by simp)) (fun _ _ => rfl) ?_ ?_
    h.balance
  · rfl
  · exact fun p g hg => Or.inl (hpeers ▸ hg)
  · exact fun p hp => absurd hp List.not_mem_nil

/-- **A turn in which no task goes on.** -/
theorem SendInv.elsewhere (h : SendInv s) {node : Node} (hpeers : node.fs.peers = s.node.fs.peers)
    (he : Elsewhere s.node node) : SendInv { s with node } := by
  cases he with
  | same hcore =>
    have hhandles : ∀ g p, s.node.Handles g p → node.Handles g p := by
      intro g p hg
      rw [Node.handles_iff] at hg ⊢
      rwa [hcore]
    refine ⟨fun v d hd halive => ?_, fun v hv => ?_, fun p g hg => ?_, fun v d p hd => ?_,
      h.balance⟩
    · exact (h.owes v d (hcore ▸ hd) halive).mono hhandles
    · exact h.fresh v (hcore ▸ hv)
    · exact hhandles g p (h.entries p g (hpeers ▸ hg))
    · exact h.registers v d p (hcore ▸ hd)
  | spawned c hcore htodo hregister =>
    have hnew : s.node.core s.node.tasks.length = none :=
      (Node.core_none_iff _ _).mpr (Nat.le_refl _)
    have hhandles : ∀ g p, s.node.Handles g p → node.Handles g p := by
      intro g p hg
      rw [Node.handles_iff] at hg ⊢
      obtain ⟨d, hd, hrole⟩ := hg
      have hne : g ≠ s.node.tasks.length := by
        intro h
        subst h
        rw [hnew] at hd
        exact absurd hd (by simp)
      exact ⟨d, by rw [hcore, Function.update_of_ne hne]; exact hd, hrole⟩
    refine ⟨fun v d hd halive => ?_, fun v hv => ?_, fun p g hg => ?_, fun v d p hd hp => ?_,
      h.balance⟩
    · by_cases hv : v = s.node.tasks.length
      · subst hv
        rw [hcore, Function.update_self] at hd
        obtain rfl := Option.some.inj hd
        show Owes _ _ (s.due _)
        rw [h.fresh _ hnew]
        exact .idle htodo
      · rw [hcore, Function.update_of_ne hv] at hd
        exact (h.owes v d hd halive).mono hhandles
    · by_cases hv' : v = s.node.tasks.length
      · rw [hcore, hv', Function.update_self] at hv
        exact absurd hv (by simp)
      · rw [hcore, Function.update_of_ne hv'] at hv
        exact h.fresh v hv
    · exact hhandles g p (h.entries p g (hpeers ▸ hg))
    · by_cases hv : v = s.node.tasks.length
      · rw [hcore, hv, Function.update_self] at hd
        obtain rfl := Option.some.inj hd
        exact hregister p hp
      · rw [hcore, Function.update_of_ne hv] at hd
        exact h.registers v d p hd hp
  | begun v c todo hc hidle hcore htodo =>
    refine h.update hc ?_ hcore (fun halive => ?_) (fun _ _ => rfl)
      (fun p g hg => Or.inl (hpeers ▸ hg)) (fun p hp => absurd rfl ((htodo _ hp).2 p)) h.balance
    · rfl
    have howes := h.owes v c hc halive
    rw [hidle] at howes
    cases hdue : s.due v with
    | nil => exact .idle fun w hw => (htodo w hw).1
    | cons p ps =>
      rw [hdue] at howes
      cases howes
  | stopped v c hc halive hhead hcore => exact h.stop hc hcore hpeers

/-- What happens when a task goes on whose todo list fits its loop. -/
inductive Went (s s' : Node) (u : Nat) (order : List String) (c : TaskCore) (w : Work)
    (todo : List Work) : Prop
  | stopped (hcore : s'.core = Function.update s.core u (some ⟨c.role, [], false⟩))
      (hpeers : s'.fs.peers = s.fs.peers) (hw : w.inLoop = true → ¬ s.Finds w)
  | continued (todo' : List Work) (hcont : Continues s order todo w todo')
      (hcore : s'.core = Function.update s.core u (some { c with todo := todo' }))
      (hpeers : ∀ p g, s'.fs.peers.lookup p = some g →
        s.fs.peers.lookup p = some g ∨ w = .register p ∧ g = u) (hfinds : s.Finds w)

theorem goes_went {s s' : Node} {now : UInt64} {c : TaskCore} {peers : List String}
    (hc : s.core u = some c) (howes : Owes s.Handles (w :: todo) peers)
    (hgo : s.Goes u now order w todo s') : Went s s' u order c w todo := by
  cases hgo with
  | refused r hr hroom hs =>
    rw [hs]
    refine .stopped (Node.core_stop hc) rfl fun hloop hfinds => ?_
    cases howes with
    | idle h =>
      rw [h w (List.mem_cons_self ..)] at hloop
      exact absurd hloop (by simp)
    | writeMsg =>
      obtain rfl := Option.some.inj hr
      exact absurd hroom (by simp [Node.room])
    | send hrpc hg _ =>
      obtain rfl := Option.some.inj hr
      exact (Node.room_place_iff hg).mp hroom (hfinds hrpc)
    | sendAll hg _ =>
      obtain rfl := Option.some.inj hr
      exact (Node.room_place_iff hg).mp hroom hfinds
  | performed hroom hs =>
    cases perform_worked hc hs with
    | stopped hcore hpeers hw => exact .stopped hcore hpeers hw
    | continued todo' hcont hcore hpeers =>
      refine .continued todo' hcont hcore hpeers ?_
      cases howes with
      | idle h => exact finds_of_not_inLoop (h w (List.mem_cons_self ..))
      | writeMsg =>
        cases hcont with
        | writeMsg hg => exact AList.lookup_isSome.mp (by rw [hg]; rfl)
        | other hw => exact absurd hw (by simp [Work.inLoop])
      | send hrpc hg _ =>
        intro _
        by_contra hdead
        obtain ⟨n, hn⟩ := hroom _ rfl
        exact absurd (hn.symm.trans ((Node.room_place_iff hg).mpr hdead)) (by simp)
      | sendAll hg _ =>
        show s.Running _
        by_contra hdead
        obtain ⟨n, hn⟩ := hroom _ rfl
        exact absurd (hn.symm.trans ((Node.room_place_iff hg).mpr hdead)) (by simp)

/-- The loop serves the peer that is due. -/
theorem servings_serve {g : Nat} {node : Node} {p : String} {ps : List String}
    (hdue : s.due u = p :: ps) :
    s.serve u g node = { s with
      node
      served := s.served ++ [(u, p, g)]
      due := Function.update s.due u ps } := by
  unfold Sends.serve
  rw [hdue]

theorem balance_serve (h : SendInv s) (g : Nat) (node : Node) {p : String} {ps : List String}
    (hdue : s.due u = p :: ps) (v : Nat) (q : String) :
    (s.serve u g node).selected.count (v, q) =
      (s.serve u g node).servings v q + ((s.serve u g node).due v).count q := by
  have hb := h.balance v q
  rw [servings_serve hdue]
  unfold Sends.servings at hb ⊢
  simp only [List.map_append, List.map_cons, List.map_nil, List.count_append]
  by_cases hv : v = u
  · subst hv
    rw [hdue, List.count_cons] at hb
    rw [Function.update_self, List.count_singleton]
    simp only [beq_iff_eq, Prod.mk.injEq, true_and] at hb ⊢
    omega
  · rw [Function.update_of_ne hv, List.count_singleton, if_neg]
    · exact hb
    · simp [Ne.symm hv]

/-- Work that neither starts nor goes on with a loop. -/
theorem record_other {node : Node} (hw : w.inLoop = false) (hselects : w.selects = false) :
    s.record u order node w = { s with node } := by
  cases w with
  | publish | messageAllPeers => exact absurd hselects (by simp [Work.selects])
  | send g packet =>
    cases packet with
    | api event => rfl
    | rpc rpc =>
      have hrpc : rpc.publish.isEmpty = true := by simpa [Work.inLoop] using hw
      rw [Sends.record, if_pos hrpc]
  | sendAll gs rpc =>
    cases gs with
    | nil => rfl
    | cons g gs => exact absurd hw (by simp [Work.inLoop])
  | _ => rfl

/-- A loop starts. -/
theorem balance_select (h : SendInv s) (hdue : s.due u = []) (order : List String) (v : Nat)
    (q : String) : (s.selected ++ order.map (u, ·)).count (v, q) =
      s.servings v q + (Function.update s.due u order v).count q := by
  have hb := h.balance v q
  rw [List.count_append, hb]
  by_cases hv : v = u
  · subst hv
    rw [hdue, Function.update_self, List.count_nil, Nat.add_zero]
    congr 1
    exact List.count_map_of_injective order _ (fun a b hab => (Prod.mk.inj hab).2) q
  · have hnone : (order.map (u, ·)).count (v, q) = 0 := by
      refine List.count_eq_zero.mpr fun hmem => ?_
      obtain ⟨p, -, hp⟩ := List.mem_map.mp hmem
      exact hv (Prod.mk.inj hp).1.symm
    rw [Function.update_of_ne hv, hnone, Nat.add_zero]

section Loop

variable {c : TaskCore} {todo' : List Work} {node : Node} (h : SendInv s)
  (hc : s.node.core u = some c)
  (hcore : node.core = Function.update s.node.core u (some { c with todo := todo' }))
  (hentries : ∀ p g, node.fs.peers.lookup p = some g →
    s.node.fs.peers.lookup p = some g ∨ g = u ∧ c.role = .handler p)
  (hregister : ∀ p, .register p ∈ todo' → c.role = .handler p)

include h hc hcore hentries hregister

/-- A loop that selects its peers owes all of them. -/
theorem SendInv.select (hdue : s.due u = []) (howes : Owes s.node.Handles todo' order) :
    SendInv { s with
      node
      selected := s.selected ++ order.map (u, ·)
      due := Function.update s.due u order } := by
  refine h.update hc ?_ hcore (fun _ => ?_) (fun v hv => Function.update_of_ne hv _ _) hentries
    hregister (balance_select h hdue order)
  · rfl
  · show Owes _ _ (Function.update s.due u order u)
    rw [Function.update_self]
    exact howes

/-- A loop that serves a peer owes the others. -/
theorem SendInv.serve {p : String} {ps : List String} (hdue : s.due u = p :: ps)
    (howes : Owes s.node.Handles todo' ps) (g : Nat) : SendInv (s.serve u g node) := by
  have hbalance := balance_serve h g node hdue
  rw [servings_serve hdue] at hbalance ⊢
  refine h.update hc ?_ hcore (fun _ => ?_) (fun v hv => Function.update_of_ne hv _ _) hentries
    hregister hbalance
  · rfl
  · show Owes _ _ (Function.update s.due u ps u)
    rw [Function.update_self]
    exact howes

end Loop

/-- **A task that has done a piece of work** owes what is left. -/
theorem SendInv.continue (h : SendInv s) {c : TaskCore} (hc : s.node.core u = some c)
    (halive : c.alive = true) (htodo : c.todo = w :: todo) {todo' : List Work}
    (hcont : Continues s.node order todo w todo') {node : Node}
    (hcore : node.core = Function.update s.node.core u (some { c with todo := todo' }))
    (hpeers : ∀ p g, node.fs.peers.lookup p = some g →
      s.node.fs.peers.lookup p = some g ∨ w = .register p ∧ g = u) :
    SendInv (s.record u order node w) := by
  have howes := h.owes u c hc halive
  rw [htodo] at howes
  have hregister : ∀ p, w = .register p ∨ .register p ∈ todo → c.role = .handler p := by
    intro p hp
    refine h.registers u c p hc ?_
    rw [htodo]
    rcases hp with rfl | hp
    · exact List.mem_cons_self ..
    · exact List.mem_cons_of_mem _ hp
  have hentries : ∀ p g, node.fs.peers.lookup p = some g →
      s.node.fs.peers.lookup p = some g ∨ g = u ∧ c.role = .handler p := by
    intro p g hg
    refine (hpeers p g hg).imp_right fun ⟨hw, hgu⟩ => ⟨hgu, hregister p (Or.inl hw)⟩
  -- outside the loops nothing is due
  have idle : w.inLoop = false → s.due u = [] ∧ ∀ w' ∈ todo, w'.inLoop = false := by
    intro hw
    have hnil := howes.eq_nil hw
    rw [hnil] at howes
    exact ⟨hnil, fun w' hw' => howes.of_nil w' (List.mem_cons_of_mem _ hw')⟩
  cases hcont with
  | other hw hselects more hmore =>
    rw [record_other hw hselects]
    obtain ⟨hnil, hidle⟩ := idle hw
    refine h.update hc ?_ hcore (fun _ => ?_) (fun _ _ => rfl) hentries (fun p hp => ?_) h.balance
    · rfl
    · show Owes _ _ (s.due u)
      rw [hnil]
      refine .idle fun w' hw' => ?_
      rcases List.mem_append.mp hw' with hw' | hw'
      · exact (hmore w' hw').1
      · exact hidle w' hw'
    · rcases List.mem_append.mp hp with hp | hp
      · exact absurd rfl ((hmore _ hp).2 p)
      · exact hregister p (Or.inr hp)
  | @publish msg_forwarder_id msg =>
    obtain ⟨hnil, hidle⟩ := idle rfl
    refine h.select hc hcore hentries (fun p hp => ?_) hnil
      (owes_publish { publish := [msg] } (by simp) hidle order)
    rcases List.mem_append.mp hp with hp | hp
    · obtain ⟨q, -, hq⟩ := List.mem_map.mp hp
      exact absurd hq (by simp)
    · exact hregister p (Or.inr hp)
  | @messageAllPeers rpc horder =>
    obtain ⟨hnil, hidle⟩ := idle rfl
    refine h.select hc hcore hentries (fun p hp => ?_) hnil
      (owes_messageAllPeers rpc _ hidle order fun p hp => ?_)
    · rcases List.mem_cons.mp hp with hp | hp
      · exact absurd hp (by simp)
      · exact hregister p (Or.inr hp)
    · obtain ⟨g, hg⟩ := Option.isSome_iff_exists.mp (AList.lookup_isSome.mpr (horder p hp))
      exact ⟨g, hg, h.entries p g hg⟩
  | writeMsg hg =>
    refine h.update hc ?_ hcore (fun _ => ?_) (fun _ _ => rfl) hentries (fun p hp => ?_) h.balance
    · rfl
    · show Owes _ _ (s.due u)
      obtain ⟨q, qs, hdue⟩ := howes.eq_cons rfl
      rw [hdue] at howes ⊢
      cases howes with
      | writeMsg hrpc hrest => exact .send hrpc (h.entries _ _ hg) hrest
    · rcases List.mem_cons.mp hp with hp | hp
      · exact absurd hp (by simp)
      · exact hregister p (Or.inr hp)
  | @send g rpc hrpc =>
    have hrecord : s.record u order node (.send g (.rpc rpc)) = s.serve u g node :=
      if_neg (by simpa using hrpc)
    obtain ⟨q, qs, hdue⟩ := howes.eq_cons (by simpa [Work.inLoop] using hrpc)
    rw [hdue] at howes
    rw [hrecord]
    cases howes with
    | send _ _ hrest =>
      exact h.serve hc hcore hentries (fun p hp => hregister p (Or.inr hp)) hdue hrest g
  | @sendAll g gs rpc =>
    obtain ⟨q, qs, hdue⟩ := howes.eq_cons rfl
    rw [hdue] at howes
    cases howes with
    | sendAll _ hrest =>
      refine h.serve hc hcore hentries (fun p hp => ?_) hdue hrest g
      rcases List.mem_cons.mp hp with hp | hp
      · exact absurd hp (by simp)
      · exact hregister p (Or.inr hp)

end Runs

namespace Sends

variable {s s' : Sends} {a : NodeAct}

/-- What a turn does. -/
inductive Turn (s s' : Sends) (a : NodeAct) : Prop
  | other (node : Node) (ha : ∀ u now order, a ≠ .go u now order)
      (hs : s.node.step a = some node) (hs' : s' = { s with node })
  | goes (u : Nat) (now : UInt64) (order : List String) (t : Task) (w : Work) (todo : List Work)
      (node : Node) (ha : a = .go u now order) (ht : s.node.tasks[u]? = some t)
      (halive : t.alive = true) (htodo : t.todo = w :: todo)
      (hgo : s.node.Goes u now order w todo node)
      (hs' : s' = if node.ended u then { s with node } else s.record u order node w)

theorem step_turn (hs : s.step a = some s') : s.Turn s' a := by
  obtain ⟨node, hstep, rfl⟩ := Option.map_eq_some_iff.mp hs
  cases a with
  | go u now order =>
    obtain ⟨t, w, todo, ht, halive, htodo, hgo⟩ := Node.go_cases hstep
    refine .goes u now order t w todo node rfl ht halive htodo hgo ?_
    dsimp only
    rw [Node.next_of_todo ht halive htodo]
    cases node.ended u with
    | true => rfl
    | false => rfl
  | _ => exact .other node (by simp) hstep rfl

theorem record_node (s : Sends) (u : Nat) (order : List String) (node : Node) (w : Work) :
    (s.record u order node w).node = node := by
  have hserve : ∀ g, (s.serve u g node).node = node := by
    intro g
    unfold serve
    split
    · rfl
    · rfl
  unfold record
  split
  · rfl
  · rfl
  · split
    · rfl
    · exact hserve _
  · exact hserve _
  · rfl

theorem record_due (s : Sends) {u v : Nat} (hv : v ≠ u) (order : List String) (node : Node)
    (w : Work) : (s.record u order node w).due v = s.due v := by
  have hserve : ∀ g, (s.serve u g node).due v = s.due v := by
    intro g
    unfold serve
    split
    · rfl
    · exact Function.update_of_ne hv _ _
  unfold record
  split
  · exact Function.update_of_ne hv _ _
  · exact Function.update_of_ne hv _ _
  · split
    · rfl
    · exact hserve _
  · exact hserve _
  · rfl

/-- What a turn in which a task goes on comes to. -/
theorem goes_cases {u : Nat} {now : UInt64} {order : List String} {t : Task} {w : Work}
    {todo : List Work} {node : Node} (h : SendInv s) (ht : s.node.tasks[u]? = some t)
    (halive : t.alive = true) (htodo : t.todo = w :: todo)
    (hgo : s.node.Goes u now order w todo node) :
    (∀ v, v ≠ u → node.core v = s.node.core v) ∧
      ((node.ended u = true ∧ SendInv { s with node } ∧ (s.due u ≠ [] ↔ ¬ s.node.Finds w)) ∨
        (node.ended u = false ∧ SendInv (s.record u order node w) ∧ s.node.Finds w)) := by
  have hc : s.node.core u = some t.core := by
    rw [Node.core, ht]
    rfl
  have howes := h.owes u _ hc halive
  rw [show t.core.todo = w :: todo from htodo] at howes
  cases goes_went hc howes hgo with
  | stopped hcore hpeers hw =>
    refine ⟨fun v hv => by rw [hcore, Function.update_of_ne hv], Or.inl ⟨?_,
      h.stop hc hcore hpeers, fun hdue => hw ?_, fun hn hnil => hn (finds_of_not_inLoop ?_)⟩⟩
    · refine Node.ended_iff.mpr fun c hc' => ?_
      rw [hcore, Function.update_self] at hc'
      obtain rfl := Option.some.inj hc'
      rfl
    · by_contra hloop
      exact hdue (howes.eq_nil (by simpa using hloop))
    · rw [hnil] at howes
      exact howes.of_nil w (List.mem_cons_self ..)
  | continued todo' hcont hcore hpeers hfinds =>
    refine ⟨fun v hv => by rw [hcore, Function.update_of_ne hv], Or.inr ⟨?_,
      h.continue hc halive htodo hcont hcore hpeers, hfinds⟩⟩
    by_contra hended
    have hdead := Node.ended_iff.mp (by simpa using hended) { t.core with todo := todo' }
      (by rw [hcore, Function.update_self])
    exact absurd (halive.symm.trans hdead) (by simp)

/-- **Every turn** keeps what is left of the loops. -/
theorem sendInv_step (h : SendInv s) (hs : s.step a = some s') : SendInv s' := by
  cases step_turn hs with
  | other node ha hstep hs' =>
    rw [hs']
    exact h.elsewhere (by rw [(step_store ha hstep).1]) (step_elsewhere ha hstep)
  | goes u now order t w todo node ha ht halive htodo hgo hs' =>
    rw [hs']
    rcases (goes_cases h ht halive htodo hgo).2 with ⟨hended, hinv, -⟩ | ⟨hended, hinv, -⟩
    · rw [if_pos hended]
      exact hinv
    · rw [if_neg (by simp [hended])]
      exact hinv

/-- Tasks outside their loops that end neglect nobody. -/
theorem not_neglects_elsewhere (h : SendInv s) (hgood : ¬ s.Neglects) {node : Node}
    (hinv : SendInv { s with node }) (he : Elsewhere s.node node) :
    ¬ Neglects { s with node } := by
  rw [hinv.neglects_iff]
  rw [h.neglects_iff] at hgood
  intro h
  obtain ⟨u, hended, hdue⟩ := h
  refine hgood ⟨u, ?_, hdue⟩
  have hended' := Node.ended_iff.mp hended
  refine Node.ended_iff.mpr fun c hc => ?_
  cases he with
  | same hcore => exact hended' c (by rw [hcore]; exact hc)
  | spawned d hcore htodo hregister =>
    have hne : u ≠ s.node.tasks.length := by
      intro h
      subst h
      rw [(Node.core_none_iff _ _).mpr (Nat.le_refl _)] at hc
      exact absurd hc (by simp)
    exact hended' c (by rw [hcore, Function.update_of_ne hne]; exact hc)
  | begun v d todo hd hidle hcore htodo =>
    by_cases hv : u = v
    · subst hv
      have hdead := hended' _ (by rw [hcore, Function.update_self])
      obtain rfl := Option.some.inj (hc.symm.trans hd)
      exact hdead
    · exact hended' c (by rw [hcore, Function.update_of_ne hv]; exact hc)
  | stopped v d hd halive hhead hcore =>
    by_cases hv : u = v
    · subst hv
      -- the task was outside its loops, so nothing is due
      have howes := h.owes u d hd halive
      refine absurd ?_ hdue
      cases htodo : d.todo with
      | nil =>
        rw [htodo] at howes
        show s.due u = []
        cases hdue' : s.due u with
        | nil => rfl
        | cons p ps =>
          rw [hdue'] at howes
          cases howes
      | cons w todo =>
        rw [htodo] at howes hhead
        exact howes.eq_nil (hhead w rfl)
    · exact hended' c (by rw [hcore, Function.update_of_ne hv]; exact hc)

/-- **One turn** leaves a peer neglected exactly if a loop does not find its next peer. -/
theorem step_neglects_iff (h : SendInv s) (hgood : ¬ s.Neglects) (hs : s.step a = some s') :
    s'.Neglects ↔ ¬ s.node.EntriesRun a := by
  have hinv := sendInv_step h hs
  cases step_turn hs with
  | other node ha hstep hs' =>
    have hrun : s.node.EntriesRun a := fun u now order w hgo => absurd hgo (ha u now order)
    subst hs'
    have hgood' := not_neglects_elsewhere h hgood hinv (step_elsewhere ha hstep)
    exact ⟨fun hb => absurd hb hgood', fun hn => absurd hrun hn⟩
  | goes u now order t w todo node ha ht halive htodo hgo hs' =>
    have hnext := Node.next_of_todo ht halive htodo
    have hrun : s.node.EntriesRun a ↔ s.node.Finds w := by
      constructor
      · exact fun hall => hall u now order w ha hnext
      · intro hw u' now' order' w' hgo' hnext'
        obtain ⟨rfl, -, -⟩ := NodeAct.go.inj (ha.symm.trans hgo')
        obtain rfl := Option.some.inj (hnext.symm.trans hnext')
        exact hw
    obtain ⟨hcores, hcases⟩ := goes_cases h ht halive htodo hgo
    rw [h.neglects_iff] at hgood
    -- the other tasks neglect nobody, as before
    have hothers : ∀ v, v ≠ u → node.ended v = true → s.due v = [] := by
      intro v hv hended
      by_contra hdue
      refine hgood ⟨v, Node.ended_iff.mpr fun c hc => ?_, hdue⟩
      exact Node.ended_iff.mp hended c (by rw [hcores v hv]; exact hc)
    rw [hinv.neglects_iff, hrun]
    rcases hcases with ⟨hended, -, hdue⟩ | ⟨hended, -, hfinds⟩
    · rw [if_pos hended] at hs'
      subst hs'
      rw [← hdue]
      constructor
      · intro h
        obtain ⟨v, hv, hne⟩ := h
        by_cases hvu : v = u
        · rw [← hvu]
          exact hne
        · exact absurd (hothers v hvu hv) hne
      · exact fun hne => ⟨u, hended, hne⟩
    · rw [if_neg (by simp [hended])] at hs'
      subst hs'
      refine ⟨?_, fun hn => absurd hfinds hn⟩
      intro h
      obtain ⟨v, hv, hne⟩ := h
      rw [record_node] at hv
      by_cases hvu : v = u
      · rw [hvu, hended] at hv
        exact absurd hv (by simp)
      · rw [record_due s hvu] at hne
        exact absurd (hothers v hvu hv) hne

end Sends

/-- A node from its start on, with its send loops. -/
def sendLoops (localPeerId : String) : System Sends NodeAct where
  init s := s = { node := { fs := { localPeerId } } }
  step := Sends.step

/-- **The send loops.** In every run, for every message and announcement, every order in which the
peers are visited and every schedule, a task outside its loops has enqueued the RPC exactly as often
as it has selected the peer, exactly if every loop finds an entry for every peer it comes to and a
running handler behind it. -/
theorem selected_served_iff (localPeerId : String) (as : List NodeAct) :
    (sendLoops localPeerId).Avoids Sends.Neglects { node := { fs := { localPeerId } } } as ↔
      (sendLoops localPeerId).Guarded (fun s a => s.node.EntriesRun a)
        { node := { fs := { localPeerId } } } as := by
  have hstart : SendInv { node := { fs := { localPeerId } } } := by
    have hcore : ∀ u c, Node.core { fs := { localPeerId } } u = some c →
        c = ⟨.internalApi, [], true⟩ := by
      intro u c hc
      obtain ⟨t, ht, rfl⟩ := Option.map_eq_some_iff.mp hc
      rw [List.mem_singleton.mp (List.mem_of_getElem? ht)]
      rfl
    refine ⟨fun u c hc _ => ?_, fun _ _ => rfl, fun p g hg => ?_, fun u c p hc hp => ?_,
      fun _ _ => rfl⟩
    · rw [hcore u c hc]
      exact .idle fun w hw => absurd hw List.not_mem_nil
    · exact absurd hg (by simp)
    · rw [hcore u c hc] at hp
      exact absurd hp List.not_mem_nil
  refine avoids_iff_guarded (I := SendInv) (fun s a s' h hs => Sends.sendInv_step h hs)
    (fun s a s' h hgood hs => Sends.step_neglects_iff h hgood hs) as _ hstart ?_
  intro h
  obtain ⟨u, p, -, hne⟩ := h
  exact hne rfl

/-- Two peers subscribe to a topic. -/
def greetBoth : List NodeAct :=
  [.newPeer "p", .go 1 0 [], .go 1 0 [], .read 1 { subscriptions := [subOpts true "news"] },
    .go 1 0 [], .go 1 0 [], .newPeer "q", .go 2 0 [], .go 2 0 [],
    .read 2 { subscriptions := [subOpts true "news"] }, .go 2 0 [], .go 2 0 []]

/-- The stream of the first peer ends, and its handler queues `DeadPeers`. -/
def firstEnds : List NodeAct := [.streamEnd 1, .go 1 0 [], .go 1 0 []]

/-- The owner publishes; the loop comes to the dead entry first. -/
def publishToBoth : List NodeAct :=
  greetBoth ++ .apiSend (.publish ["news"] (some [1])) :: firstEnds ++
    [.recv 0, .apiNext 7, .go 0 7 ["p", "q"], .go 0 7 [], .go 0 7 []]

/-- The owner subscribes to another topic. -/
def announceToBoth : List NodeAct :=
  greetBoth ++ firstEnds ++ [.subscribe "chat", .go 3 7 [], .go 3 7 [], .go 3 7 [],
    .go 3 7 ["p", "q"], .go 3 7 []]

theorem deadEntry_enabled :
    ([(publishToBoth, 0), (announceToBoth, 3)].all fun e =>
      ((sendLoops "n").exec (fun _ _ => True) { node := { fs := { localPeerId := "n" } } } e.1).any
        fun s => s.node.ended e.2 && decide ((e.2, "q") ∈ s.selected) && s.served.isEmpty &&
          (s.node.tasks[2]?).any (·.alive)) = true := by decide +kernel

/-- The task that met the dead entry has ended, and has served nobody. -/
theorem deadEntry_run {e : List NodeAct × Nat}
    (he : e ∈ [(publishToBoth, 0), (announceToBoth, 3)]) :
    ∃ s, (sendLoops "n").Run e.1 s ∧ s.node.ended e.2 = true ∧ s.node.Running 2 ∧
      (e.2, "q") ∈ s.selected ∧ s.servings e.2 "q" = 0 ∧ s.Neglects := by
  have henabled := List.all_eq_true.mp deadEntry_enabled e he
  obtain ⟨s, hs, hq⟩ := (Option.any_eq_true ..).mp henabled
  simp only [Bool.and_eq_true, decide_eq_true_eq, List.isEmpty_iff] at hq
  obtain ⟨⟨⟨hended, hselected⟩, hserved⟩, hrunning⟩ := hq
  have hservings : s.servings e.2 "q" = 0 := by
    unfold Sends.servings
    rw [hserved]
    rfl
  have hcount := List.count_pos_iff.mpr hselected
  refine ⟨s, runUnder_of_exec rfl hs, hended, (Option.any_eq_true ..).mp hrunning, hselected,
    hservings, e.2, "q", fun hsending => ?_, by omega⟩
  exact absurd (hended.symm.trans hsending.1) (by simp)

/-- **A dead entry** ends the task that meets it, and the peers behind it get nothing: the API loop
that publishes, and a call of `subscribe`. -/
theorem dead_entry_neglects :
    (∃ s, (sendLoops "n").Run publishToBoth s ∧ s.node.ended 0 = true ∧ s.node.Running 2 ∧
      (0, "q") ∈ s.selected ∧ s.servings 0 "q" = 0 ∧ s.Neglects) ∧
    ∃ s, (sendLoops "n").Run announceToBoth s ∧ s.node.ended 3 = true ∧ s.node.Running 2 ∧
      (3, "q") ∈ s.selected ∧ s.servings 3 "q" = 0 ∧ s.Neglects :=
  ⟨deadEntry_run (List.mem_cons_self ..),
    deadEntry_run (List.mem_cons_of_mem _ (List.mem_singleton_self _))⟩

end Rnet.Floodsub
