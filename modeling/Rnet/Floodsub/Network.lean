import Rnet.Floodsub.PubSub
import Rnet.Lib.Flood
import Rnet.Lib.System
import Mathlib.Algebra.BigOperators.Group.Finset.Basic
import Mathlib.Data.Fintype.Prod
import Mathlib.Data.Fintype.Option
import Mathlib.Data.Fintype.BigOperators

/-!
# A message floods a network

The nodes `V` with their peer ids `pid`, one `publish` of a message at `p`, and any
order in which the tasks of the nodes go on: a task that publishes writes to one more
peer, a stream handler passes an RPC from its queue to its stream, or takes the next
RPC from the stream and handles it. A stream handler that is still publishing
takes no RPC.

> `flood_reaches`: every such run is finite; every node accepts the message at most
> once and the publisher never; and when no copy is in flight, the nodes that have
> accepted it are those that want it and are reached through nodes that want it.

The potential (`Net.potential`) pays for every copy by the way it has before it, and
for a node that has not accepted yet by the copies it may still send.
-/

namespace Rnet.Floodsub

open Rnet.Lib
open Rnet.Lib.System (runUnder_of_exec)

variable {V : Type} [DecidableEq V]

/-- A network of floodsub nodes. -/
structure Net (V : Type) where
  node : V → FloodSub
  /-- the `publish` call that a task is in, with the peers it still has to write to: the
  task is the internal API loop (`none`) or the stream handler of a peer -/
  forwarding : V × Option V → Option (Message × Finset String)
  /-- from a node to a peer: the RPCs in the queue of the peer's stream handler -/
  queue : V × V → List Message
  /-- from a node to a peer: the RPCs on the stream -/
  wire : V × V → List Message
  /-- the nodes that have accepted a message, in order -/
  accepted : List V

/-- One turn of one task of the network. -/
inductive FloodAct (V : Type)
  /-- a `publish` call of `v` writes its RPC to the queue of peer `w` -/
  | write (v : V) (task : Option V) (w : V)
  /-- the stream handler of `v` for `w` writes the next RPC to its stream -/
  | send (v w : V)
  /-- the stream handler of `v` for `u` reads and handles the next RPC -/
  | receive (u v : V) (now : UInt64)
  deriving DecidableEq

namespace Net

/-- A `publish` call with these peers to write to; it returns when there are none. -/
def publishing (msg : Message) (peers : Finset String) : Option (Message × Finset String) :=
  if peers = ∅ then none else some (msg, peers)

/-- The internal API loop of `p` starts to publish `msg`. -/
def publish (s : Net V) (p : V) (msg : Message) : Net V :=
  let fs := s.node p
  { s with
    forwarding := Function.update s.forwarding (p, none)
      (publishing msg (fs.publishPeers fs.localPeerId msg)) }

/-- One turn of one task; a task that panics takes no turn any more. -/
def step (pid : V → String) (s : Net V) : FloodAct V → Option (Net V)
  | .write v task w =>
    match s.forwarding (v, task) with
    | none => none
    | some (msg, peers) =>
      if pid w ∈ peers then
        match (s.node v).writeMsg (pid w) with
        | none => none
        | some _ => some { s with
            forwarding := Function.update s.forwarding (v, task)
              (publishing msg (peers.erase (pid w)))
            queue := Function.update s.queue (v, w) (s.queue (v, w) ++ [msg]) }
      else none
  | .send v w =>
    match s.queue (v, w) with
    | [] => none
    | msg :: rest => some { s with
        queue := Function.update s.queue (v, w) rest
        wire := Function.update s.wire (v, w) (s.wire (v, w) ++ [msg]) }
  | .receive u v now =>
    match s.forwarding (v, some u), s.wire (u, v) with
    | none, msg :: rest =>
      match (s.node v).handlePublish msg (pid u) now with
      | none => none
      | some (fs, none) => some { s with
          node := Function.update s.node v fs
          wire := Function.update s.wire (u, v) rest }
      | some (fs, some peers) => some { s with
          node := Function.update s.node v fs
          wire := Function.update s.wire (u, v) rest
          forwarding := Function.update s.forwarding (v, some u) (publishing msg peers)
          accepted := s.accepted ++ [v] }
    | _, _ => none

/-- The peers that a `publish` call still has to write to. -/
def remaining : Option (Message × Finset String) → Finset String
  | none => ∅
  | some (_, peers) => peers

/-- No copy is in flight. -/
def Quiet (s : Net V) : Prop :=
  (∀ t, s.forwarding t = none) ∧ (∀ e, s.queue e = []) ∧ ∀ e, s.wire e = []

end Net

/-- The connections of a network: `conn` is symmetric, `peers` has the connected peers, and
`peer_topics` lists exactly the connected peers that are subscribed to a topic. -/
structure Wired (pid : V → String) (conn : V → V → Prop) (s : Net V) : Prop where
  localId : ∀ v, (s.node v).localPeerId = pid v
  symm : ∀ u v, conn u v → conn v u
  peers : ∀ v x, x ∈ (s.node v).peers ↔ ∃ w, conn v w ∧ x = pid w
  lists : ∀ v topic x, (s.node v).Lists topic x ↔
    ∃ w, conn v w ∧ topic ∈ (s.node w).subscribedTopicApi ∧ x = pid w

/-- The key of the message is in no cache. -/
def Unknown (msg : Message) (s : Net V) : Prop :=
  ∀ v q, seqnoToUnixTx (msg.seqno.getD []) = some q →
    (s.node v).lastSeenCache ⟨msg.from_.getD [], q⟩ = none

/-- One message `msg` of `p` floods a network: initially `p` has looked up the peers to
publish it to. -/
def flood (pid : V → String) (conn : V → V → Prop) (p : V) (msg : Message) :
    System (Net V) (FloodAct V) where
  init s := ∃ s₀ : Net V, Wired pid conn s₀ ∧ s₀.Quiet ∧ s₀.accepted = [] ∧ Unknown msg s₀ ∧
    (∃ now, msg = (s₀.node p).publishMessage msg.data msg.topicIds now) ∧ s = s₀.publish p msg
  step := Net.step pid

/-- An edge of the flood: a connection to a node that wants the message. -/
def Edge (conn : V → V → Prop) (msg : Message) (s : Net V) (u v : V) : Prop :=
  conn u v ∧ (s.node v).Wants msg

/-- A copy from `u` to `v`: still to be written, queued, or on the stream. -/
def Net.InFlight (pid : V → String) (s : Net V) (u v : V) : Prop :=
  (∃ task, pid v ∈ Net.remaining (s.forwarding (u, task))) ∨
    s.queue (u, v) ≠ [] ∨ s.wire (u, v) ≠ []

/-- What every state of the flood keeps. -/
structure NetInv (pid : V → String) (conn : V → V → Prop) (p : V) (msg : Message)
    (key : MessageKey) (s : Net V) : Prop where
  wired : Wired pid conn s
  flood : Flood.Inv (Edge conn msg s) p (· ∈ s.accepted) (s.InFlight pid)
  seen : ∀ v, v ∈ s.accepted ↔ (s.node v).lastSeenCache key ≠ none
  once : s.accepted.Nodup
  foreign : p ∉ s.accepted
  /-- only copies of the message travel -/
  forwardings : ∀ t m peers, s.forwarding t = some (m, peers) → m = msg ∧ peers ≠ ∅
  peers : ∀ t, ∀ x ∈ Net.remaining (s.forwarding t), ∃ w, x = pid w
  queues : ∀ e, ∀ m ∈ s.queue e, m = msg
  wires : ∀ e, ∀ m ∈ s.wire e, m = msg

open Net (publishing remaining)

/-! ## Copies in flight -/

@[simp] theorem remaining_publishing (msg : Message) (peers : Finset String) :
    remaining (publishing msg peers) = peers := by
  unfold publishing
  by_cases h : peers = ∅
  · rw [if_pos h, h]
    rfl
  · rw [if_neg h]
    rfl

theorem publishing_some {msg m : Message} {peers peers' : Finset String}
    (h : publishing msg peers = some (m, peers')) : m = msg ∧ peers' ≠ ∅ := by
  unfold publishing at h
  by_cases hp : peers = ∅
  · rw [if_pos hp] at h
    simp at h
  · rw [if_neg hp] at h
    simp only [Option.some.injEq, Prod.mk.injEq] at h
    exact ⟨h.1.symm, h.2 ▸ hp⟩

/-- A value that changes at one place is found there or unchanged. -/
theorem update_cases {ι β : Type} [DecidableEq ι] {f : ι → β} {i j : ι} {b : β} {P : β → Prop}
    (h : P (Function.update f i b j)) : (j = i ∧ P b) ∨ (j ≠ i ∧ P (f j)) := by
  by_cases hj : j = i
  · rw [hj, Function.update_self] at h
    exact Or.inl ⟨hj, h⟩
  · rw [Function.update_of_ne hj] at h
    exact Or.inr ⟨hj, h⟩

/-- A write moves a copy from the publishing task to the queue. -/
theorem inFlight_write {pid : V → String} (hpid : Function.Injective pid) {s : Net V} {v w : V}
    {task : Option V} {m : Message} {peers : Finset String}
    (hf : s.forwarding (v, task) = some (m, peers)) (hw : pid w ∈ peers) (a b : V) :
    Net.InFlight pid { s with
      forwarding := Function.update s.forwarding (v, task) (publishing m (peers.erase (pid w)))
      queue := Function.update s.queue (v, w) (s.queue (v, w) ++ [m]) } a b ↔
    s.InFlight pid a b := by
  constructor
  · intro h
    rcases h with ⟨t, ht⟩ | hq | hwire
    · left
      rcases update_cases (P := fun o => pid b ∈ remaining o) ht with ⟨he, ht⟩ | ⟨-, ht⟩
      · rw [remaining_publishing] at ht
        refine ⟨t, ?_⟩
        rw [he, hf]
        exact Finset.mem_of_mem_erase ht
      · exact ⟨t, ht⟩
    · rcases update_cases (P := (· ≠ [])) hq with ⟨he, -⟩ | ⟨-, hq⟩
      · simp only [Prod.mk.injEq] at he
        obtain ⟨rfl, rfl⟩ := he
        exact Or.inl ⟨task, by rw [hf]; exact hw⟩
      · exact Or.inr (Or.inl hq)
    · exact Or.inr (Or.inr hwire)
  · intro h
    rcases h with ⟨t, ht⟩ | hq | hwire
    · by_cases he : (a, t) = (v, task)
      · rw [he, hf] at ht
        simp only [Prod.mk.injEq] at he
        obtain ⟨rfl, rfl⟩ := he
        by_cases hbw : b = w
        · right; left
          show Function.update s.queue (a, w) _ (a, b) ≠ []
          rw [hbw, Function.update_self]
          simp
        · refine Or.inl ⟨t, ?_⟩
          show pid b ∈ remaining (Function.update s.forwarding (a, t) _ (a, t))
          rw [Function.update_self, remaining_publishing]
          exact Finset.mem_erase.mpr ⟨fun h => hbw (hpid h), ht⟩
      · refine Or.inl ⟨t, ?_⟩
        show pid b ∈ remaining (Function.update s.forwarding (v, task) _ (a, t))
        rwa [Function.update_of_ne he]
    · right; left
      show Function.update s.queue (v, w) _ (a, b) ≠ []
      by_cases he : (a, b) = (v, w)
      · rw [he, Function.update_self]
        simp
      · rwa [Function.update_of_ne he]
    · exact Or.inr (Or.inr hwire)

/-- Sending moves a copy from the queue to the stream. -/
theorem inFlight_send {pid : V → String} {s : Net V} {v w : V} {m : Message} {rest : List Message}
    (hq : s.queue (v, w) = m :: rest) (a b : V) :
    Net.InFlight pid { s with
      queue := Function.update s.queue (v, w) rest
      wire := Function.update s.wire (v, w) (s.wire (v, w) ++ [m]) } a b ↔
    s.InFlight pid a b := by
  constructor
  · intro h
    rcases h with ht | hq' | hwire
    · exact Or.inl ht
    · rcases update_cases (P := (· ≠ [])) hq' with ⟨he, -⟩ | ⟨-, hq'⟩
      · right; left
        rw [he, hq]
        simp
      · exact Or.inr (Or.inl hq')
    · rcases update_cases (P := (· ≠ [])) hwire with ⟨he, -⟩ | ⟨-, hwire⟩
      · right; left
        rw [he, hq]
        simp
      · exact Or.inr (Or.inr hwire)
  · intro h
    rcases h with ht | hq' | hwire
    · exact Or.inl ht
    · by_cases he : (a, b) = (v, w)
      · right; right
        show Function.update s.wire (v, w) _ (a, b) ≠ []
        rw [he, Function.update_self]
        simp
      · right; left
        show Function.update s.queue (v, w) _ (a, b) ≠ []
        rwa [Function.update_of_ne he]
    · right; right
      show Function.update s.wire (v, w) _ (a, b) ≠ []
      by_cases he : (a, b) = (v, w)
      · rw [he, Function.update_self]
        simp
      · rwa [Function.update_of_ne he]

/-- What is in flight after a copy has been taken from the stream: the other copies, and
what the handler now publishes. -/
theorem inFlight_receive (pid : V → String) {s : Net V} {u v : V} {m : Message}
    {rest : List Message} (hw : s.wire (u, v) = m :: rest)
    (hidle : s.forwarding (v, some u) = none) (fs : FloodSub) (peers : Finset String)
    (accepted : List V) (a b : V) :
    let s' : Net V := { s with
      node := Function.update s.node v fs
      wire := Function.update s.wire (u, v) rest
      forwarding := Function.update s.forwarding (v, some u) (publishing m peers)
      accepted := accepted }
    (s'.InFlight pid a b → s.InFlight pid a b ∨ (a = v ∧ pid b ∈ peers)) ∧
      (s.InFlight pid a b → s'.InFlight pid a b ∨ (a = u ∧ b = v)) ∧
      (pid b ∈ peers → s'.InFlight pid v b) := by
  refine ⟨?_, ?_, ?_⟩
  · intro h
    rcases h with ⟨t, ht⟩ | hq | hwire
    · rcases update_cases (P := fun o => pid b ∈ remaining o) ht with ⟨he, ht⟩ | ⟨-, ht⟩
      · rw [remaining_publishing] at ht
        exact Or.inr ⟨congrArg Prod.fst he, ht⟩
      · exact Or.inl (Or.inl ⟨t, ht⟩)
    · exact Or.inl (Or.inr (Or.inl hq))
    · rcases update_cases (P := (· ≠ [])) hwire with ⟨he, -⟩ | ⟨-, hwire⟩
      · refine Or.inl (Or.inr (Or.inr ?_))
        rw [he, hw]
        simp
      · exact Or.inl (Or.inr (Or.inr hwire))
  · intro h
    rcases h with ⟨t, ht⟩ | hq | hwire
    · refine Or.inl (Or.inl ⟨t, ?_⟩)
      have hne : (a, t) ≠ (v, some u) := by
        intro he
        rw [he, hidle] at ht
        exact absurd ht (Finset.notMem_empty _)
      show pid b ∈ remaining (Function.update s.forwarding (v, some u) _ (a, t))
      rwa [Function.update_of_ne hne]
    · exact Or.inl (Or.inr (Or.inl hq))
    · by_cases he : (a, b) = (u, v)
      · simp only [Prod.mk.injEq] at he
        exact Or.inr he
      · refine Or.inl (Or.inr (Or.inr ?_))
        show Function.update s.wire (u, v) _ (a, b) ≠ []
        rwa [Function.update_of_ne he]
  · intro hb
    refine Or.inl ⟨some u, ?_⟩
    show pid b ∈ remaining (Function.update s.forwarding (v, some u) _ (v, some u))
    rwa [Function.update_self, remaining_publishing]

/-! ## One turn keeps the invariant -/

/-- The key of a message of the node with id `id`. -/
structure KeyOf (id : String) (msg : Message) (key : MessageKey) : Prop where
  origin : fromUtf8Lossy (msg.from_.getD []) = id
  from_ : msg.from_.getD [] = key.from_
  seqno : seqnoToUnixTx (msg.seqno.getD []) = some key.seqno

omit [DecidableEq V] in
/-- The nodes that `v` publishes the message to when it came from `u`. -/
theorem Wired.mem_publishPeers {pid : V → String} (hpid : Function.Injective pid)
    {conn : V → V → Prop} {p : V} {msg : Message} {key : MessageKey} {s : Net V}
    (h : Wired pid conn s) (hk : KeyOf (pid p) msg key) (u v b : V) :
    pid b ∈ (s.node v).publishPeers (pid u) msg ↔ Edge conn msg s v b ∧ b ≠ u ∧ b ≠ p := by
  rw [Floodsub.mem_publishPeers, hk.origin]
  refine and_congr ?_ (and_congr hpid.ne_iff hpid.ne_iff)
  constructor
  · intro h
    obtain ⟨topic, htm, hl⟩ := h
    obtain ⟨w, hc, ht, hw⟩ := (h.lists v topic (pid b)).mp hl
    rw [hpid hw]
    exact ⟨hc, topic, htm, ht⟩
  · intro h
    obtain ⟨hc, topic, htm, ht⟩ := h
    exact ⟨topic, htm, (h.lists v topic (pid b)).mpr ⟨b, hc, ht, rfl⟩⟩

omit [DecidableEq V] in
/-- Only peers of the network are published to. -/
theorem Wired.publishPeers_pid {pid : V → String} {conn : V → V → Prop} {msg : Message} {s : Net V}
    (h : Wired pid conn s) {v : V} {fwd x : String} (hx : x ∈ (s.node v).publishPeers fwd msg) :
    ∃ w, x = pid w := by
  obtain ⟨⟨topic, -, hl⟩, -⟩ := (Floodsub.mem_publishPeers ..).mp hx
  obtain ⟨w, -, -, hw⟩ := (h.lists v topic x).mp hl
  exact ⟨w, hw⟩

/-- A node that changed its cache and its channels only. -/
theorem sameStore_update {s : Net V} {v : V} {fs : FloodSub} (h : SameStore (s.node v) fs) (w : V) :
    SameStore (s.node w) (Function.update s.node v fs w) := by
  by_cases hw : w = v
  · rw [hw, Function.update_self]
    exact h
  · rw [Function.update_of_ne hw]
    exact SameStore.refl _

omit [DecidableEq V] in
/-- The connections only depend on the stores. -/
theorem Wired.of_sameStore {pid : V → String} {conn : V → V → Prop} {s s' : Net V}
    (h : Wired pid conn s) (hs : ∀ v, SameStore (s.node v) (s'.node v)) : Wired pid conn s' where
  localId v := by rw [(hs v).localPeerId, h.localId]
  symm := h.symm
  peers v x := by rw [(hs v).peers, h.peers]
  lists v topic x := by
    unfold FloodSub.Lists
    rw [(hs v).peerTopics]
    refine (h.lists v topic x).trans (exists_congr fun w => ?_)
    rw [(hs w).subscribed]

omit [DecidableEq V] in
theorem edge_of_sameStore {conn : V → V → Prop} {msg : Message} {s s' : Net V}
    (hs : ∀ v, SameStore (s.node v) (s'.node v)) : Edge conn msg s' = Edge conn msg s := by
  funext u v
  unfold Edge FloodSub.Wants
  simp only [(hs v).subscribed]

variable {pid : V → String} {conn : V → V → Prop} {p : V} {msg : Message} {key : MessageKey}
  {s s' : Net V}

/-- A write takes a peer from those that a task still has to write to. -/
theorem step_write {v w : V} {task : Option V} (hstep : s.step pid (.write v task w) = some s') :
    ∃ m peers, s.forwarding (v, task) = some (m, peers) ∧ pid w ∈ peers ∧
      s' = { s with
        forwarding := Function.update s.forwarding (v, task) (publishing m (peers.erase (pid w)))
        queue := Function.update s.queue (v, w) (s.queue (v, w) ++ [m]) } := by
  simp only [Net.step] at hstep
  cases hf : s.forwarding (v, task) with
  | none => rw [hf] at hstep; simp at hstep
  | some mp =>
    obtain ⟨m, peers⟩ := mp
    rw [hf] at hstep
    dsimp only at hstep
    by_cases hw : pid w ∈ peers
    swap
    · rw [if_neg hw] at hstep; simp at hstep
    rw [if_pos hw] at hstep
    cases hp : (s.node v).writeMsg (pid w) with
    | none => rw [hp] at hstep; simp at hstep
    | some i =>
      rw [hp] at hstep
      exact ⟨m, peers, rfl, hw, (Option.some.inj hstep).symm⟩

/-- Sending takes the first RPC of a queue. -/
theorem step_send {v w : V} (hstep : s.step pid (.send v w) = some s') :
    ∃ m rest, s.queue (v, w) = m :: rest ∧ s' = { s with
      queue := Function.update s.queue (v, w) rest
      wire := Function.update s.wire (v, w) (s.wire (v, w) ++ [m]) } := by
  simp only [Net.step] at hstep
  cases hq : s.queue (v, w) with
  | nil => rw [hq] at hstep; simp at hstep
  | cons m rest =>
    rw [hq] at hstep
    exact ⟨m, rest, rfl, (Option.some.inj hstep).symm⟩

theorem NetInv.write (hpid : Function.Injective pid) (h : NetInv pid conn p msg key s) {v w : V}
    {task : Option V} (hstep : s.step pid (.write v task w) = some s') :
    NetInv pid conn p msg key s' := by
  obtain ⟨m, peers, hf, hw, rfl⟩ := step_write hstep
  have hm := (h.forwardings _ _ _ hf).1
  refine ⟨⟨h.wired.localId, h.wired.symm, h.wired.peers, h.wired.lists⟩,
    h.flood.move (inFlight_write hpid hf hw), h.seen, h.once, h.foreign, ?_, ?_, ?_, h.wires⟩
  · intro t m' ps ht
    rcases update_cases (P := fun o => o = some (m', ps)) ht with ⟨-, ht⟩ | ⟨-, ht⟩
    · obtain ⟨hm', hne⟩ := publishing_some ht
      exact ⟨hm'.trans hm, hne⟩
    · exact h.forwardings t m' ps ht
  · intro t x hx
    rcases update_cases (P := fun o => x ∈ remaining o) hx with ⟨-, hx⟩ | ⟨-, hx⟩
    · rw [remaining_publishing] at hx
      exact h.peers (v, task) x (by rw [hf]; exact Finset.mem_of_mem_erase hx)
    · exact h.peers t x hx
  · intro e m' hm'
    rcases update_cases (P := fun l => m' ∈ l) hm' with ⟨-, hm'⟩ | ⟨-, hm'⟩
    · rcases List.mem_append.mp hm' with hm' | hm'
      · exact h.queues _ m' hm'
      · rw [List.mem_singleton.mp hm', hm]
    · exact h.queues e m' hm'

theorem NetInv.send (h : NetInv pid conn p msg key s) {v w : V}
    (hstep : s.step pid (.send v w) = some s') : NetInv pid conn p msg key s' := by
  obtain ⟨m, rest, hq, rfl⟩ := step_send hstep
  have hm := h.queues (v, w) m (by rw [hq]; exact List.mem_cons_self ..)
  refine ⟨⟨h.wired.localId, h.wired.symm, h.wired.peers, h.wired.lists⟩,
    h.flood.move (inFlight_send hq), h.seen, h.once, h.foreign, h.forwardings, h.peers, ?_, ?_⟩
  · intro e m' hm'
    rcases update_cases (P := fun l => m' ∈ l) hm' with ⟨-, hm'⟩ | ⟨-, hm'⟩
    · exact h.queues (v, w) m' (by rw [hq]; exact List.mem_cons_of_mem _ hm')
    · exact h.queues e m' hm'
  · intro e m' hm'
    rcases update_cases (P := fun l => m' ∈ l) hm' with ⟨-, hm'⟩ | ⟨-, hm'⟩
    · rcases List.mem_append.mp hm' with hm' | hm'
      · exact h.wires _ m' hm'
      · rw [List.mem_singleton.mp hm', hm]
    · exact h.wires e m' hm'

/-- A copy that is taken from the stream is dropped by a node that has accepted the
message, and accepted by any other. -/
theorem NetInv.receive_cases (hpid : Function.Injective pid) (h : NetInv pid conn p msg key s)
    (hk : KeyOf (pid p) msg key) {u v : V} {now : UInt64}
    (hstep : s.step pid (.receive u v now) = some s') :
    ∃ rest, s.wire (u, v) = msg :: rest ∧ s.forwarding (v, some u) = none ∧
      s.InFlight pid u v ∧
      ((v ∈ s.accepted ∧ s' = { s with wire := Function.update s.wire (u, v) rest }) ∨
        (v ∉ s.accepted ∧ ∃ fs, SameStore (s.node v) fs ∧
          fs.lastSeenCache = Function.update (s.node v).lastSeenCache key (some now) ∧
          s' = { s with
            node := Function.update s.node v fs
            wire := Function.update s.wire (u, v) rest
            forwarding := Function.update s.forwarding (v, some u)
              (publishing msg ((s.node v).publishPeers (pid u) msg))
            accepted := s.accepted ++ [v] })) := by
  simp only [Net.step] at hstep
  cases hf : s.forwarding (v, some u) with
  | some mp => rw [hf] at hstep; simp at hstep
  | none =>
    cases hw : s.wire (u, v) with
    | nil => rw [hf, hw] at hstep; simp at hstep
    | cons m rest =>
      rw [hf, hw] at hstep
      have hm : m = msg := h.wires (u, v) m (by rw [hw]; exact List.mem_cons_self ..)
      rw [hm] at hstep ⊢
      dsimp only at hstep
      have hfly : s.InFlight pid u v := Or.inr (Or.inr (by rw [hw]; simp))
      obtain ⟨-, hedge, hvp⟩ := h.flood.sound u v hfly
      refine ⟨rest, rfl, rfl, hfly, ?_⟩
      have hkey : (⟨msg.from_.getD [], key.seqno⟩ : MessageKey) = key := by rw [hk.from_]
      have hforeign : fromUtf8Lossy (msg.from_.getD []) ≠ (s.node v).localPeerId := by
        rw [hk.origin, h.wired.localId]
        exact fun he => hvp (hpid he).symm
      have hcases := handlePublish_foreign (pid u) now hedge.2 hforeign hk.seqno
      rw [hkey] at hcases
      rcases hcases with ⟨hc, hh⟩ | ⟨hc, fs, hh, hsame, hcache⟩
      · rw [hh] at hstep
        refine Or.inl ⟨(h.seen v).mpr hc, ?_⟩
        rw [← Option.some.inj hstep, Function.update_eq_self]
      · rw [hh] at hstep
        exact Or.inr ⟨fun ha => (h.seen v).mp ha hc, fs, hsame, hcache,
          (Option.some.inj hstep).symm⟩

theorem NetInv.receive (hpid : Function.Injective pid) (h : NetInv pid conn p msg key s)
    (hk : KeyOf (pid p) msg key) {u v : V} {now : UInt64}
    (hstep : s.step pid (.receive u v now) = some s') : NetInv pid conn p msg key s' := by
  obtain ⟨rest, hw, hf, hfly, hcases⟩ := h.receive_cases hpid hk hstep
  have hwires : ∀ e, ∀ m ∈ Function.update s.wire (u, v) rest e, m = msg := by
    intro e m hm
    rcases update_cases (P := fun l => m ∈ l) hm with ⟨-, hm⟩ | ⟨-, hm⟩
    · exact h.wires (u, v) m (by rw [hw]; exact List.mem_cons_of_mem _ hm)
    · exact h.wires e m hm
  rcases hcases with ⟨ha, rfl⟩ | ⟨ha, fs, hsame, hcache, rfl⟩
  · -- a node that publishes to no one further
    have hnone : Function.update s.forwarding (v, some u) (publishing msg ∅) = s.forwarding := by
      rw [publishing, if_pos rfl, ← hf, Function.update_eq_self]
    have hfl := inFlight_receive pid hw hf (s.node v) ∅ s.accepted
    rw [hnone, Function.update_eq_self] at hfl
    refine ⟨⟨h.wired.localId, h.wired.symm, h.wired.peers, h.wired.lists⟩, ?_, h.seen, h.once,
      h.foreign, h.forwardings, h.peers, h.queues, hwires⟩
    refine h.flood.drop (u := u) (Or.inl ha) (fun a b hab => ?_) fun a b => (hfl a b).2.1
    exact ((hfl a b).1 hab).resolve_right fun hb => absurd hb.2 (Finset.notMem_empty _)
  · have hfl := inFlight_receive pid hw hf fs ((s.node v).publishPeers (pid u) msg)
      (s.accepted ++ [v])
    have hstore := sameStore_update hsame
    have hadj := h.wired.mem_publishPeers hpid hk u v
    have hvp := (h.flood.sound u v hfly).2.2
    refine ⟨h.wired.of_sameStore hstore, ?_, ?_, ?_, ?_, ?_, ?_, h.queues, hwires⟩
    · rw [edge_of_sameStore hstore]
      refine h.flood.accept hfly (fun a => by simp) (fun a b hab => ?_) (fun a b => (hfl a b).2.1)
        fun b hab hb hbu => (hfl v b).2.2 ((hadj b).mpr ⟨hab, hbu, hb⟩)
      rcases (hfl a b).1 hab with hab | ⟨rfl, hb⟩
      · exact Or.inl hab
      · obtain ⟨hab, -, hb⟩ := (hadj b).mp hb
        exact Or.inr ⟨rfl, hab, hb⟩
    · intro a
      show a ∈ s.accepted ++ [v] ↔ (Function.update s.node v fs a).lastSeenCache key ≠ none
      by_cases hav : a = v
      · rw [hav, Function.update_self, hcache, Function.update_self]
        simp
      · rw [Function.update_of_ne hav, ← h.seen a]
        simp [hav]
    · exact List.nodup_append.mpr ⟨h.once, List.nodup_singleton v, fun a ha' b hb hab => by
        rw [List.mem_singleton.mp hb] at hab
        exact ha (hab ▸ ha')⟩
    · intro hp
      rcases List.mem_append.mp hp with hp | hp
      · exact h.foreign hp
      · exact hvp (List.mem_singleton.mp hp).symm
    · intro t m ps ht
      rcases update_cases (P := fun o => o = some (m, ps)) ht with ⟨-, ht⟩ | ⟨-, ht⟩
      · exact publishing_some ht
      · exact h.forwardings t m ps ht
    · intro t x hx
      rcases update_cases (P := fun o => x ∈ remaining o) hx with ⟨-, hx⟩ | ⟨-, hx⟩
      · rw [remaining_publishing] at hx
        exact h.wired.publishPeers_pid hx
      · exact h.peers t x hx

/-- **One turn** of any task. -/
theorem NetInv.step (hpid : Function.Injective pid) (hk : KeyOf (pid p) msg key)
    (h : NetInv pid conn p msg key s) {a : FloodAct V} (hstep : s.step pid a = some s') :
    NetInv pid conn p msg key s' := by
  cases a with
  | write v task w => exact h.write hpid hstep
  | send v w => exact h.send hstep
  | receive u v now => exact h.receive hpid hk hstep

/-- The message of a publisher has a key. -/
theorem keyOf_publishMessage (fs : FloodSub) (data : Option (List UInt8)) (topics : List String)
    (now : UInt64) : KeyOf fs.localPeerId (fs.publishMessage data topics now)
      ⟨toUtf8 fs.localPeerId, now⟩ where
  origin := fromUtf8Lossy_toUtf8 _
  from_ := rfl
  seqno := seqnoToUnixTx_getSeqno now

/-- The flood starts. -/
theorem NetInv.init (hpid : Function.Injective pid) (h : (Floodsub.flood pid conn p msg).init s) :
    ∃ key, KeyOf (pid p) msg key ∧ NetInv pid conn p msg key s := by
  obtain ⟨s₀, hw, ⟨hqf, hqq, hqw⟩, hacc, hun, ⟨now, hmsg⟩, rfl⟩ := h
  have hk : KeyOf (pid p) msg ⟨toUtf8 (pid p), now⟩ := by
    have := keyOf_publishMessage (s₀.node p) msg.data msg.topicIds now
    rwa [← hmsg, hw.localId] at this
  refine ⟨_, hk, ⟨hw.localId, hw.symm, hw.peers, hw.lists⟩, ?_, ?_, ?_, ?_, ?_, ?_, ?_, ?_⟩
  · have hadj := hw.mem_publishPeers hpid hk p p
    refine Flood.Inv.start (fun v hv => ?_) fun u v => ?_
    · rw [show (s₀.publish p msg).accepted = [] from hacc] at hv
      exact List.not_mem_nil hv
    constructor
    · intro h
      rcases h with ⟨t, ht⟩ | hq | hwire
      · rcases update_cases (P := fun o => pid v ∈ remaining o) ht with ⟨he, ht⟩ | ⟨-, ht⟩
        · rw [remaining_publishing, hw.localId] at ht
          obtain ⟨hedge, -, hv⟩ := (hadj v).mp ht
          exact ⟨congrArg Prod.fst he, hedge, hv⟩
        · rw [hqf] at ht
          exact absurd ht (Finset.notMem_empty _)
      · exact absurd (hqq _) hq
      · exact absurd (hqw _) hwire
    · intro h
      obtain ⟨rfl, hedge, hv⟩ := h
      refine Or.inl ⟨none, ?_⟩
      show pid v ∈ remaining (Function.update s₀.forwarding (u, none) _ (u, none))
      rw [Function.update_self, remaining_publishing, hw.localId]
      exact (hadj v).mpr ⟨hedge, hv, hv⟩
  · intro v
    rw [show (s₀.publish p msg).accepted = [] from hacc]
    have := hun v now hk.seqno
    rw [hk.from_] at this
    simp only [List.not_mem_nil, false_iff, not_not]
    exact this
  · rw [show (s₀.publish p msg).accepted = [] from hacc]
    exact List.nodup_nil
  · rw [show (s₀.publish p msg).accepted = [] from hacc]
    exact List.not_mem_nil
  · intro t m ps ht
    rcases update_cases (P := fun o => o = some (m, ps)) ht with ⟨-, ht⟩ | ⟨-, ht⟩
    · exact publishing_some ht
    · rw [hqf] at ht
      simp at ht
  · intro t x hx
    rcases update_cases (P := fun o => x ∈ remaining o) hx with ⟨-, hx⟩ | ⟨-, hx⟩
    · rw [remaining_publishing] at hx
      exact hw.publishPeers_pid hx
    · rw [hqf] at hx
      exact absurd hx (Finset.notMem_empty _)
  · intro e m hm
    rw [show (s₀.publish p msg).queue e = [] from hqq e] at hm
    simp at hm
  · intro e m hm
    rw [show (s₀.publish p msg).wire e = [] from hqw e] at hm
    simp at hm

/-- As long as a copy is in flight, some task can take a turn: none of them panics. -/
theorem NetInv.progress (h : NetInv pid conn p msg key s) (hpid : Function.Injective pid)
    (hk : KeyOf (pid p) msg key) (hq : ¬ s.Quiet) : ∃ a s', s.step pid a = some s' := by
  by_cases hf : ∀ t, s.forwarding t = none
  · by_cases hqq : ∀ e, s.queue e = []
    · -- an RPC on a stream, and its handler is idle
      obtain ⟨⟨u, v⟩, hw⟩ := not_forall.mp fun hw => hq ⟨hf, hqq, hw⟩
      obtain ⟨m, rest, hw⟩ := List.exists_cons_of_ne_nil hw
      have hm : m = msg := h.wires (u, v) m (by rw [hw]; exact List.mem_cons_self ..)
      obtain ⟨-, hedge, hvp⟩ := h.flood.sound u v (Or.inr (Or.inr (by rw [hw]; simp)))
      have hforeign : fromUtf8Lossy (msg.from_.getD []) ≠ (s.node v).localPeerId := by
        rw [hk.origin, h.wired.localId]
        exact fun he => hvp (hpid he).symm
      refine ⟨.receive u v 0, ?_⟩
      simp only [Net.step]
      rw [hf, hw, hm]
      dsimp only
      rcases handlePublish_foreign (pid u) 0 hedge.2 hforeign hk.seqno with
        ⟨-, hh⟩ | ⟨-, fs, hh, -⟩
      · exact ⟨_, by rw [hh]⟩
      · exact ⟨_, by rw [hh]⟩
    · obtain ⟨⟨v, w⟩, hne⟩ := not_forall.mp hqq
      obtain ⟨m, rest, hqe⟩ := List.exists_cons_of_ne_nil hne
      refine ⟨.send v w, ?_⟩
      simp only [Net.step]
      exact ⟨_, by rw [hqe]⟩
  · -- a task that publishes, and the peer is connected
    obtain ⟨⟨v, task⟩, hne⟩ := not_forall.mp hf
    obtain ⟨⟨m, peers⟩, hmp⟩ := Option.ne_none_iff_exists'.mp hne
    obtain ⟨x, hx⟩ := Finset.nonempty_iff_ne_empty.mpr (h.forwardings _ _ _ hmp).2
    obtain ⟨w, rfl⟩ := h.peers (v, task) x (by rw [hmp]; exact hx)
    obtain ⟨-, hedge, -⟩ := h.flood.sound v w (Or.inl ⟨task, by rw [hmp]; exact hx⟩)
    have hpeer := (h.wired.peers v (pid w)).mpr ⟨w, hedge.1, rfl⟩
    obtain ⟨i, hi⟩ := Option.isSome_iff_exists.mp (AList.lookup_isSome.mpr hpeer)
    refine ⟨.write v task w, ?_⟩
    simp only [Net.step]
    rw [hmp]
    dsimp only
    rw [if_pos hx]
    exact ⟨_, by rw [show (s.node v).writeMsg (pid w) = some i from hi]⟩

/-! ## The potential -/

section Potential

variable [Fintype V]

/-- Three moves for every peer still to be written to, two for an RPC in a queue, one for
an RPC on a stream, and for a node that has not accepted the moves of its own copies. -/
def Net.potential (s : Net V) : Nat :=
  ∑ t, 3 * (remaining (s.forwarding t)).card + ∑ e, 2 * (s.queue e).length
    + ∑ e, (s.wire e).length + ∑ v, if v ∈ s.accepted then 0 else 3 * Fintype.card V

/-- A sum in which one summand changes. -/
theorem sum_update {ι β : Type} [Fintype ι] [DecidableEq ι] (f : ι → β) (i : ι) (b : β)
    (g : β → Nat) : ∑ x, g (Function.update f i b x) + g (f i) = ∑ x, g (f x) + g b := by
  rw [← Finset.add_sum_erase _ _ (Finset.mem_univ i),
    ← Finset.add_sum_erase _ (fun x => g (f x)) (Finset.mem_univ i), Function.update_self]
  have hrest : ∑ x ∈ Finset.univ.erase i, g (Function.update f i b x)
      = ∑ x ∈ Finset.univ.erase i, g (f x) := by
    refine Finset.sum_congr rfl fun x hx => ?_
    rw [Function.update_of_ne (Finset.ne_of_mem_erase hx)]
  rw [hrest]
  omega

omit [DecidableEq V] in
/-- A task publishes to at most every node. -/
theorem card_le_of_pid {pid : V → String} {peers : Finset String}
    (h : ∀ x ∈ peers, ∃ w, x = pid w) :
    peers.card ≤ Fintype.card V := by
  have hsub : peers ⊆ Finset.univ.image pid := by
    intro x hx
    obtain ⟨w, rfl⟩ := h x hx
    exact Finset.mem_image_of_mem pid (Finset.mem_univ w)
  exact (Finset.card_le_card hsub).trans Finset.card_image_le

/-- **Every turn** uses up potential. -/
theorem NetInv.potential_lt (hpid : Function.Injective pid) (hk : KeyOf (pid p) msg key)
    (h : NetInv pid conn p msg key s) {a : FloodAct V} (hstep : s.step pid a = some s') :
    s'.potential + 1 ≤ s.potential := by
  cases a with
  | write v task w =>
    obtain ⟨m, peers, hf, hw, rfl⟩ := step_write hstep
    have hfor := sum_update s.forwarding (v, task) (publishing m (peers.erase (pid w)))
      fun o => 3 * (remaining o).card
    have hque := sum_update s.queue (v, w) (s.queue (v, w) ++ [m]) fun l => 2 * l.length
    have hpos := Finset.card_pos.mpr ⟨_, hw⟩
    rw [hf, remaining_publishing, Finset.card_erase_of_mem hw] at hfor
    rw [List.length_append, List.length_singleton] at hque
    have hrem : (remaining (some (m, peers))).card = peers.card := rfl
    unfold Net.potential
    dsimp only
    omega
  | send v w =>
    obtain ⟨m, rest, hq, rfl⟩ := step_send hstep
    have hque := sum_update s.queue (v, w) rest fun l => 2 * l.length
    have hwir := sum_update s.wire (v, w) (s.wire (v, w) ++ [m]) List.length
    rw [hq, List.length_cons] at hque
    rw [List.length_append, List.length_singleton] at hwir
    unfold Net.potential
    dsimp only
    omega
  | receive u v now =>
    obtain ⟨rest, hw, hf, -, hcases⟩ := h.receive_cases hpid hk hstep
    have hwir := sum_update s.wire (u, v) rest List.length
    rw [hw, List.length_cons] at hwir
    rcases hcases with ⟨-, rfl⟩ | ⟨ha, fs, -, -, rfl⟩
    · unfold Net.potential
      dsimp only
      omega
    · have hfor := sum_update s.forwarding (v, some u)
        (publishing msg ((s.node v).publishPeers (pid u) msg)) fun o => 3 * (remaining o).card
      have hrem : (remaining (none : Option (Message × Finset String))).card = 0 := rfl
      rw [hf, remaining_publishing] at hfor
      have hcard : ((s.node v).publishPeers (pid u) msg).card ≤ Fintype.card V :=
        card_le_of_pid fun x hx => h.wired.publishPeers_pid hx
      -- the copies of `v` are paid for by `v` having accepted
      have hacc : (∑ w, if w ∈ s.accepted ++ [v] then 0 else 3 * Fintype.card V)
          + 3 * Fintype.card V = ∑ w, if w ∈ s.accepted then 0 else 3 * Fintype.card V := by
        rw [← Finset.add_sum_erase _ _ (Finset.mem_univ v),
          ← Finset.add_sum_erase Finset.univ
            (fun w => if w ∈ s.accepted then 0 else 3 * Fintype.card V) (Finset.mem_univ v),
          if_pos (List.mem_append_right _ (List.mem_singleton_self v)),
          if_neg ha, Nat.zero_add, Nat.add_comm]
        congr 1
        refine Finset.sum_congr rfl fun w hw => ?_
        have hwv := Finset.ne_of_mem_erase hw
        simp [hwv]
      unfold Net.potential
      dsimp only
      omega

/-- A flood starts with this potential at most. -/
theorem potential_init (h : (flood pid conn p msg).init s) :
    s.potential ≤ 3 * Fintype.card V + 3 * Fintype.card V * Fintype.card V := by
  obtain ⟨s₀, hw, ⟨hqf, hqq, hqw⟩, hacc, -, -, rfl⟩ := h
  have hfor := sum_update s₀.forwarding (p, none)
    (publishing msg ((s₀.node p).publishPeers (s₀.node p).localPeerId msg))
    fun o => 3 * (remaining o).card
  have hcard : ((s₀.node p).publishPeers (s₀.node p).localPeerId msg).card ≤ Fintype.card V :=
    card_le_of_pid fun x hx => hw.publishPeers_pid hx
  have hzero : ∑ t, 3 * (remaining (s₀.forwarding t)).card = 0 :=
    Finset.sum_eq_zero fun t _ => by rw [hqf]; rfl
  have hque : ∑ e, 2 * (s₀.queue e).length = 0 :=
    Finset.sum_eq_zero fun e _ => by rw [hqq]; rfl
  have hwir : ∑ e, (s₀.wire e).length = 0 := Finset.sum_eq_zero fun e _ => by rw [hqw]; rfl
  have hun : (∑ v, if v ∈ s₀.accepted then 0 else 3 * Fintype.card V)
      = 3 * Fintype.card V * Fintype.card V := by
    rw [hacc, Finset.sum_const_nat (m := 3 * Fintype.card V) fun v _ => if_neg List.not_mem_nil,
      Finset.card_univ, Nat.mul_comm]
  rw [hqf, remaining_publishing, show (remaining none).card = 0 from rfl] at hfor
  unfold Net.potential Net.publish
  dsimp only
  omega

/-- **A message floods a network.** With peer ids that name the nodes, in every run of a
flood: the run has a bounded length; no node accepts the message twice and the publisher
never; and whenever no copy is in flight, the nodes that accepted it are those, other than
the publisher, that want it and are reached through such nodes. -/
theorem flood_reaches (hpid : Function.Injective pid) {as : List (FloodAct V)}
    (h : (flood pid conn p msg).Run as s) :
    as.length ≤ 3 * Fintype.card V + 3 * Fintype.card V * Fintype.card V ∧
      s.accepted.Nodup ∧ p ∉ s.accepted ∧
      (s.Quiet → ∀ v, v ∈ s.accepted ↔ Flood.Reached (Edge conn msg s) p v) := by
  have hinv : ∃ key, KeyOf (pid p) msg key ∧ NetInv pid conn p msg key s ∧
      as.length + s.potential ≤ 3 * Fintype.card V + 3 * Fintype.card V * Fintype.card V := by
    induction h with
    | nil hi =>
      obtain ⟨key, hk, hI⟩ := NetInv.init hpid hi
      exact ⟨key, hk, hI, by rw [List.length_nil, Nat.zero_add]; exact potential_init hi⟩
    | snoc _ _ hs ih =>
      obtain ⟨key, hk, hI, hlen⟩ := ih
      have hlt := hI.potential_lt hpid hk hs
      refine ⟨key, hk, hI.step hpid hk hs, ?_⟩
      rw [List.length_append, List.length_singleton]
      omega
  obtain ⟨key, -, hI, hlen⟩ := hinv
  refine ⟨by omega, hI.once, hI.foreign, fun hq v => ?_⟩
  refine hI.flood.quiet (fun u w hfly => ?_) v
  obtain ⟨hqf, hqq, hqw⟩ := hq
  rcases hfly with ⟨t, ht⟩ | hne | hne
  · rw [hqf] at ht
    exact absurd ht (Finset.notMem_empty _)
  · exact hne (hqq _)
  · exact hne (hqw _)

end Potential

/-! ## A line of three nodes -/

/-- The peer ids of three nodes. -/
def linePid (v : Fin 3) : String := ["a", "b", "c"].get v

/-- Neighbours on the line. -/
def LineConn (u v : Fin 3) : Prop := u.val + 1 = v.val ∨ v.val + 1 = u.val

/-- All three nodes are subscribed to one topic. -/
def lineNode (v : Fin 3) : FloodSub where
  localPeerId := linePid v
  peerTopics topic :=
    if topic = "news" then some ([["b"], ["a", "c"], ["b"]].get v) else none
  peers := [AList.singleton "b" 0, (AList.singleton "a" 0).insert "c" 1,
    AList.singleton "b" 0].get v
  subscribedTopicApi := AList.singleton "news" []

/-- Nothing is in flight yet. -/
def lineNet : Net (Fin 3) := ⟨lineNode, fun _ => none, fun _ => [], fun _ => [], []⟩

/-- The message of the first node. -/
def lineMsg : Message := (lineNode 0).publishMessage (some [1]) ["news"] 7

theorem linePid_injective : Function.Injective linePid := by
  intro u v
  revert u v
  decide

theorem line_cases (v : Fin 3) : v = 0 ∨ v = 1 ∨ v = 2 := by
  revert v
  decide

theorem lineNet_wired : Wired linePid LineConn lineNet where
  localId _ := rfl
  symm u v h := h.symm
  peers v x := by
    rcases line_cases v with rfl | rfl | rfl <;>
      simp [lineNet, lineNode, LineConn, linePid, Fin.exists_fin_succ, mem_alist_singleton]
  lists v topic x := by
    rcases line_cases v with rfl | rfl | rfl <;> by_cases ht : topic = "news" <;>
      simp [lineNet, lineNode, LineConn, linePid, Fin.exists_fin_succ, FloodSub.Lists, ht,
        mem_alist_singleton, or_comm]

theorem lineNet_init : (flood linePid LineConn 0 lineMsg).init (lineNet.publish 0 lineMsg) :=
  ⟨lineNet, lineNet_wired, ⟨fun _ => rfl, fun _ => rfl, fun _ => rfl⟩, rfl, fun _ _ _ => rfl,
    ⟨7, rfl⟩, rfl⟩

/-- The message goes down the line. -/
def lineRun : List (FloodAct (Fin 3)) :=
  [.write 0 none 1, .send 0 1, .receive 0 1 7, .write 1 (some 0) 2, .send 1 2, .receive 1 2 8]

theorem lineRun_enabled :
    ((flood linePid LineConn 0 lineMsg).exec (fun _ _ => True) (lineNet.publish 0 lineMsg)
      lineRun).isSome = true := by decide +kernel

theorem flood_reaches_line :
    ∃ s, (flood linePid LineConn 0 lineMsg).Run lineRun s ∧ s.accepted = [1, 2] ∧ s.Quiet ∧
      ∀ v, v ∈ s.accepted ↔ Flood.Reached (Edge LineConn lineMsg s) 0 v := by
  have hrun : (flood linePid LineConn 0 lineMsg).Run lineRun _ :=
    runUnder_of_exec lineNet_init (Option.some_get lineRun_enabled).symm
  have hquiet : (((flood linePid LineConn 0 lineMsg).exec (fun _ _ => True)
      (lineNet.publish 0 lineMsg) lineRun).get lineRun_enabled).Quiet := by
    unfold Net.Quiet
    decide +kernel
  exact ⟨_, hrun, by decide +kernel, hquiet,
    (flood_reaches linePid_injective hrun).2.2.2 hquiet⟩

end Rnet.Floodsub
