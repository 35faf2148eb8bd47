import Rnet.Floodsub.Tasks
import Rnet.Lib.WaitGraph

/-!
# Circular waits of a floodsub node

A stream handler forwards messages and takes the store lock in the branch of its loop that reads
the stream, and drains its own queue in another one. `message_all_peers` sends under the
lock. So handlers may wait for places on each other's queues, and the holder of the lock
for a place on the queue of a handler that waits for the lock.

> `deadlock_free_iff`: a run has no circular wait exactly if every step leaves a way out
> (`KeepsOpen`).

`subscribe_deadlocks` is a run in which a call of `subscribe` closes one.
-/

namespace Rnet.Floodsub

open Rnet.Lib (System)
open Rnet.Lib.WaitGraph
open Rnet.Lib.System (runUnder_of_exec avoids_iff_guarded)

/-! ## The property -/

namespace Node

/-- Task `u` is blocked until task `v` goes on. -/
def Waits (s : Node) : Nat → Nat → Prop := Lib.WaitGraph.Waits s.asks s.blocker

/-- **A circular wait** among the tasks of the node. -/
def CircularWait (s : Node) : Prop := Cyclic s.Waits

/-- Task `u` is blocked in a send, as in `write_msg`, on the full queue of task `g`. -/
def BlockedOn (s : Node) (u g : Nat) : Prop :=
  s.asks u = some (.place g) ∧ s.room (.place g) = some 0

/-- What is used up when task `u` goes on, and who has to give a place of it back. -/
def takes (s : Node) (u : Nat) : Option (Resource × Nat) :=
  match s.next u with
  | none => none
  | some (.messageAllPeers _) => some (.lock, u)
  | some w =>
    match w.wants with
    | none | some .lock => none
    | some r => if s.room r = some 1 then (s.server r).map (r, ·) else none

/-- The step leaves a way out:
- a task that starts to wait is not waited for, through a chain, by the one who has to give it a
  place;
- whoever takes the last place, or the lock for `message_all_peers`, leaves nobody waiting for it
  that is waited for, through a chain, by the one who has to give it back. -/
def KeepsOpen (s : Node) : NodeAct → Prop
  | .ask u => ∀ w r v, s.next u = some w → w.wants = some r → s.blocker r = some v →
      ¬ Relation.ReflTransGen s.Waits v u
  | .go u _ _ => ∀ r v, s.takes u = some (r, v) → ∀ w, w ≠ u → s.asks w = some r →
      ¬ Relation.ReflTransGen s.Waits v w
  | .apiSend _ => s.room (.place 0) = some 1 → ∀ w, s.asks w = some (.place 0) →
      ¬ Relation.ReflTransGen s.Waits 0 w
  | _ => True

end Node

theorem blocker_eq_some {s : Node} {r : Resource} {v : Nat} :
    s.blocker r = some v ↔ s.room r = some 0 ∧ s.server r = some v := by
  rw [Node.blocker]
  split
  · rename_i h
    simp [h]
  · rename_i h
    simp [h]

theorem Node.BlockedOn.waits {s : Node} {u g : Nat} (h : s.BlockedOn u g) : s.Waits u g :=
  waits_iff.mpr ⟨.place g, h.1, blocker_eq_some.mpr ⟨h.2, rfl⟩⟩

/-- **Stream handlers** each blocked on the full queue of the next are in a circular wait. -/
theorem circularWait_of_handlers {s : Node} (h : Cyclic s.BlockedOn) : s.CircularWait :=
  h.mono fun _ _ => Node.BlockedOn.waits

/-- **The holder of the lock**, blocked on the full queue of a handler that waits for the lock, is
in a circular wait. -/
theorem circularWait_of_holder {s : Node} {u g : Nat} (hlock : s.lock = some u)
    (hu : s.BlockedOn u g) (hg : s.asks g = some .lock) : s.CircularWait := by
  have hgu : s.Waits g u := by
    refine waits_iff.mpr ⟨.lock, hg, blocker_eq_some.mpr ⟨?_, hlock⟩⟩
    simp [Node.room, hlock]
  exact ⟨u, .tail (.single hu.waits) hgu⟩

/-! ## What the pieces of a turn change -/

section Pieces

/-- Nobody asks for more, and no more has to be given back. -/
structure Opens (s s' : Node) : Prop where
  asks : ∀ u r, s'.asks u = some r → s.asks u = some r
  blocker : ∀ r v, s'.blocker r = some v → s.blocker r = some v

theorem Opens.trans {s s' s'' : Node} (h : Opens s s') (h' : Opens s' s'') : Opens s s'' :=
  ⟨fun u r hu => h.asks u r (h'.asks u r hu), fun r v hr => h.blocker r v (h'.blocker r v hr)⟩

theorem Opens.circularWait {s s' : Node} (h : Opens s s') (hc : s'.CircularWait) :
    s.CircularWait :=
  Cyclic.mono hc fun _ _ hw => Lib.WaitGraph.Waits.mono h.asks h.blocker hw

theorem blocker_congr {s s' : Node} {r : Resource} (hroom : s'.room r = s.room r)
    (hserver : s'.server r = s.server r) : s'.blocker r = s.blocker r := by
  rw [Node.blocker, Node.blocker, hroom, hserver]

/-- The queues, the lock and the channels are as they were. -/
structure SamePlaces (s s' : Node) : Prop where
  room : ∀ r, s'.room r = s.room r
  server : ∀ r, s'.server r = s.server r

theorem SamePlaces.blocker {s s' : Node} (h : SamePlaces s s') (r : Resource) :
    s'.blocker r = s.blocker r := blocker_congr (h.room r) (h.server r)

/-- A change of one task shows in what that task asks for only. -/
theorem asks_modify {s s' : Node} {u : Nat} {f : Task → Task}
    (h : s'.tasks = s.tasks.modify u f) (v : Nat) :
    s'.asks v = if v = u then s.tasks[u]?.bind fun t => (f t).asks else s.asks v := by
  rw [Node.asks, h, List.getElem?_modify]
  by_cases hv : u = v
  · subst hv
    cases s.tasks[u]? <;> simp
  · rw [if_neg fun h => hv h.symm, Node.asks]
    cases s.tasks[v]? <;> simp [hv]

theorem room_modify {s s' : Node} {u : Nat} {f : Task → Task}
    (h : s'.tasks = s.tasks.modify u f) (g : Nat) :
    s'.room (.place g) =
      if g = u then s.tasks[u]?.bind fun t => (f t).room else s.room (.place g) := by
  rw [Node.room, h, List.getElem?_modify]
  by_cases hv : u = g
  · subst hv
    cases s.tasks[u]? <;> simp
  · rw [if_neg fun h => hv h.symm, Node.room]
    cases s.tasks[g]? <;> simp [hv]

theorem proceed_asks (s : Node) (u : Nat) (todo : List Work) (v : Nat) :
    (s.proceed u todo).asks v = if v = u then none else s.asks v := by
  rw [asks_modify rfl]
  split
  · cases s.tasks[u]? <;> simp [Task.asks]
  · rfl

theorem proceed_places (s : Node) (u : Nat) (todo : List Work) :
    SamePlaces s (s.proceed u todo) := by
  refine ⟨fun r => ?_, fun r => ?_⟩
  · cases r with
    | lock | topic c => rfl
    | place g =>
      rw [room_modify rfl]
      split
      · rename_i h
        rw [h]
        rfl
      · rfl
  · cases r <;> rfl

theorem proceed_opens (s : Node) (u : Nat) (todo : List Work) : Opens s (s.proceed u todo) := by
  refine ⟨fun v r h => ?_, fun r v h => ?_⟩
  · rw [proceed_asks] at h
    split at h
    · simp at h
    · exact h
  · rwa [(proceed_places s u todo).blocker] at h

theorem push_asks (s : Node) (g : Nat) (packet : Packet) (v : Nat) :
    (s.push g packet).asks v = s.asks v := by
  rw [asks_modify rfl]
  split
  · rename_i h
    rw [h]
    rfl
  · rfl

/-- What a push uses up. -/
structure TakesPlace (s s' : Node) (r : Resource) : Prop where
  asks : ∀ v, s'.asks v = s.asks v
  room : ∀ q, s'.room q = if q = r then (s.room r).map (· - 1) else s.room q
  server : ∀ q, s'.server q = s.server q

theorem push_takes (s : Node) (g : Nat) (packet : Packet) :
    TakesPlace s (s.push g packet) (.place g) := by
  refine ⟨push_asks s g packet, fun q => ?_, fun q => by cases q <;> rfl⟩
  cases q with
  | lock | topic c => rfl
  | place k =>
    rw [room_modify rfl]
    simp only [Resource.place.injEq]
    split
    · rename_i h
      rw [Node.room]
      cases s.tasks[g]? with
      | none => rfl
      | some t =>
        simp only [Option.bind_some, Task.room, List.length_append, List.length_singleton]
        split
        · cases t.role.capacity with
          | none => rfl
          | some n => simp [Nat.sub_sub]
        · rfl
    · rfl

theorem put_takes (s : Node) (c : Nat) (item : List UInt8 × List UInt8) :
    TakesPlace s (s.put c item) (.topic c) := by
  have hget : ∀ k, (s.put c item).topics[k]? = if k = c then
      s.topics[c]?.map fun ch => { ch with queue := ch.queue ++ [item] } else s.topics[k]? := by
    intro k
    rw [Node.put, List.getElem?_modify]
    by_cases h : c = k
    · subst h
      simp
    · rw [if_neg fun he => h he.symm]
      simp [h]
  refine ⟨fun v => rfl, fun q => ?_, fun q => ?_⟩
  · cases q with
    | lock | place g => rfl
    | topic k =>
      simp only [Node.room, hget, Resource.topic.injEq]
      split
      · cases s.topics[c]? with
        | none => rfl
        | some ch =>
          simp only [Option.map_some, Option.bind_some, TopicChannel.room, List.length_append,
            List.length_singleton]
          split
          · rfl
          · simp [Nat.sub_sub]
      · rfl
  · cases q with
    | lock | place g => rfl
    | topic k =>
      simp only [Node.server, hget]
      split
      · rename_i h
        rw [h]
        cases s.topics[c]? <;> rfl
      · rfl

/-- A channel whose reader changes from a call to something else. -/
theorem handOver_blocker {s s' : Node} {u : Nat} {reader : Reader}
    (hreader : ∀ v, reader ≠ .call v)
    (h : s'.topics = s.topics.map fun ch => ch.handOver u reader) {c v : Nat}
    (hb : s'.blocker (.topic c) = some v) : s.blocker (.topic c) = some v := by
  obtain ⟨hroom, hserver⟩ := blocker_eq_some.mp hb
  simp only [Node.room, Node.server, h, List.getElem?_map] at hroom hserver
  rw [blocker_eq_some]
  simp only [Node.room, Node.server]
  cases hc : s.topics[c]? with
  | none => simp [hc] at hserver
  | some ch =>
    rw [hc, Option.map_some, Option.bind_some] at hroom hserver
    by_cases hch : ch.reader = .call u
    · rw [TopicChannel.handOver, if_pos hch, TopicChannel.server] at hserver
      cases reader with
      | call v => exact absurd rfl (hreader v)
      | receiveLoop | gone => simp at hserver
    · rw [TopicChannel.handOver, if_neg hch] at hroom hserver
      exact ⟨hroom, hserver⟩

theorem spawn_opens (s : Node) (u : Nat) : Opens s (s.spawn u) := by
  refine ⟨fun _ _ h => h, fun r v h => ?_⟩
  cases r with
  | lock | place g => exact h
  | topic c => exact handOver_blocker (by simp) rfl h

theorem stop_opens (s : Node) (u : Nat) : Opens s (s.stop u) := by
  refine ⟨fun v r h => ?_, fun r v h => ?_⟩
  · rw [asks_modify rfl] at h
    split at h
    · simp [Task.asks] at h
    · exact h
  · cases r with
    | lock =>
      obtain ⟨-, hserver⟩ := blocker_eq_some.mp h
      have hlock : s.lock = some v := by
        rw [Node.server, Node.stop] at hserver
        dsimp only at hserver
        split at hserver
        · simp at hserver
        · exact hserver
      exact blocker_eq_some.mpr ⟨by simp [Node.room, hlock], hlock⟩
    | place g =>
      obtain ⟨hroom, hserver⟩ := blocker_eq_some.mp h
      rw [room_modify rfl] at hroom
      split at hroom
      · simp [Task.room] at hroom
      · exact blocker_eq_some.mpr ⟨hroom, hserver⟩
    | topic c => exact handOver_blocker (by simp) rfl h

theorem unlock_opens (s : Node) : Opens s { s with lock := none } := by
  refine ⟨fun _ _ h => h, fun r v h => ?_⟩
  cases r with
  | lock => simp [blocker_eq_some, Node.server] at h
  | place g | topic c => exact h

theorem insertTopic_opens (s : Node) (u : Nat) (topic_id : String) :
    Opens s (s.insertTopic u topic_id) := by
  refine ⟨fun _ _ h => h, fun r v h => ?_⟩
  cases r with
  | lock | place g => exact h
  | topic c =>
    obtain ⟨hroom, hserver⟩ := blocker_eq_some.mp h
    simp only [Node.room, Node.server, Node.insertTopic, List.getElem?_append] at hroom hserver
    split at hroom
    · rename_i hlt
      rw [if_pos hlt] at hserver
      exact blocker_eq_some.mpr ⟨hroom, hserver⟩
    · -- the new channel is empty
      cases hk : c - s.topics.length with
      | zero => simp [hk, TopicChannel.room] at hroom
      | succ k => simp [hk] at hroom

theorem spawned_opens (s : Node) {t : Task} (ht : t.asks = none) (hroom : t.room ≠ some 0) :
    Opens s { s with tasks := s.tasks ++ [t] } := by
  have hget : ∀ {β : Type} (f : Task → Option β) (v : Nat) (b : β), ((s.tasks ++ [t])[v]?).bind f
      = some b → s.tasks[v]?.bind f = some b ∨ f t = some b := by
    intro β f v b h
    rw [List.getElem?_append] at h
    split at h
    · exact Or.inl h
    · cases hk : v - s.tasks.length with
      | zero => exact Or.inr (by simpa [hk] using h)
      | succ k => simp [hk] at h
  refine ⟨fun v r h => ?_, fun r v h => ?_⟩
  · rcases hget Task.asks v r h with h | h
    · exact h
    · rw [ht] at h
      simp at h
  · cases r with
    | lock | topic c => exact h
    | place g =>
      obtain ⟨hr, hserver⟩ := blocker_eq_some.mp h
      rcases hget Task.room g 0 hr with h | h
      · exact blocker_eq_some.mpr ⟨h, hserver⟩
      · exact absurd h hroom

theorem setTask_opens {s : Node} {u : Nat} {t t' : Task} (ht : s.tasks[u]? = some t)
    (hasks : ∀ r, t'.asks = some r → t.asks = some r) (hroom : t'.room = some 0 → t.room = some 0) :
    Opens s { s with tasks := s.tasks.set u t' } := by
  have hlt := (List.getElem?_eq_some_iff.mp ht).1
  refine ⟨fun v r h => ?_, fun r v h => ?_⟩
  · rw [Node.asks, List.getElem?_set] at h
    by_cases hv : u = v
    · subst hv
      rw [if_pos rfl, if_pos hlt, Option.bind_some] at h
      rw [Node.asks, ht]
      exact hasks r h
    · rw [if_neg hv] at h
      exact h
  · obtain ⟨hr, hserver⟩ := blocker_eq_some.mp h
    refine blocker_eq_some.mpr ⟨?_, hserver⟩
    cases r with
    | lock | topic c => exact hr
    | place g =>
      rw [Node.room, List.getElem?_set] at hr
      by_cases hg : u = g
      · subst hg
        rw [if_pos rfl, if_pos hlt, Option.bind_some] at hr
        rw [Node.room, ht]
        exact hroom hr
      · rw [if_neg hg] at hr
        exact hr

theorem setTopic_opens {s : Node} {c : Nat} {ch ch' : TopicChannel} (hc : s.topics[c]? = some ch)
    (h : ∀ v, ch'.room = some 0 → ch'.server = some v → ch.room = some 0 ∧ ch.server = some v) :
    Opens s { s with topics := s.topics.set c ch' } := by
  have hlt := (List.getElem?_eq_some_iff.mp hc).1
  refine ⟨fun _ _ h => h, fun r v hb => ?_⟩
  cases r with
  | lock | place g => exact hb
  | topic k =>
    obtain ⟨hroom, hserver⟩ := blocker_eq_some.mp hb
    simp only [Node.room, Node.server, List.getElem?_set] at hroom hserver
    by_cases hk : c = k
    · subst hk
      rw [if_pos rfl, if_pos hlt, Option.bind_some] at hroom hserver
      refine blocker_eq_some.mpr ?_
      rw [Node.room, Node.server, hc]
      exact h v hroom hserver
    · rw [if_neg hk] at hroom hserver
      exact blocker_eq_some.mpr ⟨hroom, hserver⟩

end Pieces

/-! ## What a turn changes -/

section Turn

/-- How the waits change when task `u` goes on, or when somebody outside (`none`) sends. -/
inductive Takes (s s' : Node) (taker : Option Nat) (taken : Option (Resource × Nat)) : Prop
  | opens (hno : taken = none) (h : Opens s s')
  | takes (r : Resource) (v : Nat) (htaken : taken = some (r, v)) (hfree : s.blocker r = none)
      (hblocker : s'.blocker r = some v) (hrest : ∀ q, q ≠ r → s'.blocker q = s.blocker q)
      (hasks : ∀ w q, s'.asks w = some q ↔ s.asks w = some q ∧ taker ≠ some w)

theorem Takes.circular_iff {s s' : Node} {taker : Option Nat} {taken : Option (Resource × Nat)}
    (h : Takes s s' taker taken) (hgood : ¬ s.CircularWait)
    (htaker : ∀ u r v q, taken = some (r, v) → taker = some u → s.asks u = some q → q = r) :
    s'.CircularWait ↔ ∃ r v w, taken = some (r, v) ∧ taker ≠ some w ∧ s.asks w = some r ∧
      Relation.ReflTransGen s.Waits v w := by
  cases h with
  | opens hno h =>
    constructor
    · intro hc
      exact absurd (h.circularWait hc) hgood
    · intro h
      obtain ⟨r, v, w, htaken, -⟩ := h
      rw [hno] at htaken
      simp at htaken
  | takes r v htaken hfree hblocker hrest hasks =>
    have hiff : s'.CircularWait ↔ _ := cyclic_take_iff hfree hblocker hrest
      (fun u q ht hq => htaker u r v q htaken ht hq) hasks
    rw [hiff]
    constructor
    · intro h
      rcases h with hc | ⟨w, ⟨hw, ht⟩, hvw⟩
      · exact absurd hc hgood
      · exact ⟨r, v, w, htaken, ht, hw, hvw⟩
    · intro h
      obtain ⟨r', v', w, htaken', ht, hw, hvw⟩ := h
      obtain ⟨rfl, rfl⟩ := Prod.mk.inj (Option.some.inj (htaken.symm.trans htaken'))
      exact Or.inr ⟨w, ⟨hw, ht⟩, hvw⟩

/-- A push takes the last place or leaves another one. -/
theorem TakesPlace.takes {s s₁ s' : Node} {r : Resource} {taker : Option Nat} {n : Nat}
    (h : TakesPlace s s₁ r) (hplaces : SamePlaces s₁ s') (hroom : s.room r = some (n + 1))
    (hasks : ∀ w q, s'.asks w = some q ↔ s₁.asks w = some q ∧ taker ≠ some w) :
    Takes s s' taker (if s.room r = some 1 then (s.server r).map (r, ·) else none) := by
  have hrest : ∀ q, q ≠ r → s'.blocker q = s.blocker q := by
    intro q hq
    refine blocker_congr ?_ ((hplaces.server q).trans (h.server q))
    rw [hplaces.room, h.room, if_neg hq]
  have hroom' : s'.room r = some n := by
    rw [hplaces.room, h.room, if_pos rfl, hroom]
    rfl
  have hserver : s'.server r = s.server r := (hplaces.server r).trans (h.server r)
  have hasks' : ∀ w q, s'.asks w = some q ↔ s.asks w = some q ∧ taker ≠ some w := by
    intro w q
    rw [hasks, h.asks]
  have opens : (∀ v, s'.blocker r = some v → False) → Opens s s' := by
    intro hno
    refine ⟨fun w q hw => ((hasks' w q).mp hw).1, fun q v hv => ?_⟩
    by_cases hq : q = r
    · exact (hno v (hq ▸ hv)).elim
    · rwa [hrest q hq] at hv
  by_cases hlast : n = 0
  · subst hlast
    rw [if_pos hroom]
    cases hs : s.server r with
    | none =>
      refine .opens rfl (opens fun v hv => ?_)
      have := (blocker_eq_some.mp hv).2
      rw [hserver, hs] at this
      simp at this
    | some v =>
      refine .takes r v rfl ?_ (blocker_eq_some.mpr ⟨hroom', hserver.trans hs⟩) hrest hasks'
      rw [Node.blocker, hroom]
      simp
  · rw [if_neg fun he => hlast (by rw [hroom] at he; simpa using he)]
    refine .opens rfl (opens fun v hv => ?_)
    have := (blocker_eq_some.mp hv).1
    rw [hroom'] at this
    exact hlast (Option.some.inj this)

theorem asks_proceed_iff (s : Node) (u : Nat) (todo : List Work) (w : Nat) (q : Resource) :
    (s.proceed u todo).asks w = some q ↔ s.asks w = some q ∧ some u ≠ some w := by
  rw [proceed_asks]
  by_cases h : w = u
  · simp [h]
  · have hne : u ≠ w := fun he => h he.symm
    simp [h, hne]

/-- The store may change as it likes. -/
theorem store_opens (s : Node) (fs : FloodSub) : Opens s { s with fs := fs } :=
  ⟨fun _ _ h => h, fun _ _ h => h⟩

/-- Work that awaits nothing, or holds the lock up to the next `await` only. -/
theorem perform_opens {s s' : Node} {u : Nat} {now : UInt64} {order : List String}
    {todo : List Work} {w : Work} (hw : ∀ r, w.wants = some r → r = .lock)
    (hne : ∀ rpc, w ≠ .messageAllPeers rpc) (hs : s.perform u now order todo w = some s') :
    Opens s s' := by
  have proceeds : ∀ {s₁ : Node} {todo : List Work}, some (s₁.proceed u todo) = some s' →
      Opens s s₁ → Opens s s' := by
    intro s₁ todo he h
    obtain rfl := Option.some.inj he
    exact h.trans (proceed_opens s₁ u todo)
  have stays : ∀ {todo : List Work}, some (s.proceed u todo) = some s' → Opens s s' :=
    fun he => proceeds he ⟨fun _ _ h => h, fun _ _ h => h⟩
  have stops : some (s.stop u) = some s' → Opens s s' := by
    intro he
    obtain rfl := Option.some.inj he
    exact stop_opens s u
  cases w with
  | register peer_id => exact proceeds hs (store_opens s _)
  | hello =>
    rw [Node.perform] at hs
    split at hs
    · exact stays hs
    · exact stays hs
  | handleIncoming peer_id rpc => exact stays hs
  | consumePubsubMsg fwd msg =>
    rw [Node.perform] at hs
    split at hs
    · exact stops hs
    · split at hs
      · exact stays hs
      · exact stays hs
  | isMsgSeen fwd msg topics =>
    rw [Node.perform] at hs
    split at hs
    · exact stops hs
    · exact proceeds hs (store_opens s _)
    · exact proceeds hs (store_opens s _)
  | notifySubscription topic_id msg =>
    rw [Node.perform] at hs
    split at hs
    · exact stops hs
    · exact stays hs
  | put c item => simp [Work.wants] at hw
  | publish fwd msg =>
    rw [Node.perform] at hs
    split at hs
    · exact stays hs
    · simp at hs
  | writeMsg peer_id rpc =>
    rw [Node.perform] at hs
    split at hs
    · exact stops hs
    · exact stays hs
  | send g packet => simp [Work.wants] at hw
  | handleSubopts origin_id sub_msg =>
    rw [Node.perform] at hs
    split at hs
    · exact stops hs
    · exact proceeds hs (store_opens s _)
  | subscribe topic_id =>
    rw [Node.perform] at hs
    split at hs
    · exact stays hs
    · exact stays hs
  | event => exact stays hs
  | insertTopic topic_id => exact proceeds hs (insertTopic_opens s u topic_id)
  | unsubscribe topics =>
    cases topics with
    | nil => exact stays hs
    | cons topic_id topics =>
      rw [Node.perform] at hs
      split at hs
      · exact stays hs
      · exact stays hs
  | removeTopic topic_id => exact proceeds hs (store_opens s _)
  | messageAllPeers rpc => exact absurd rfl (hne rpc)
  | sendAll gs rpc =>
    cases gs with
    | nil => exact proceeds hs (unlock_opens s)
    | cons g gs => simp [Work.wants] at hw
  | spawn => exact proceeds hs (spawn_opens s u)
  | handleDeadPeers peer_ids => exact proceeds hs (store_opens s _)
  | exit => exact stops hs

/-- Work that needs a place on a queue takes it. -/
theorem perform_takes {s s' : Node} {u n : Nat} {now : UInt64} {order : List String}
    {todo : List Work} {w : Work} {r : Resource} (hw : w.wants = some r) (hr : r ≠ .lock)
    (hroom : s.room r = some (n + 1)) (hs : s.perform u now order todo w = some s') :
    Takes s s' (some u) (if s.room r = some 1 then (s.server r).map (r, ·) else none) := by
  have proceeds : ∀ {s₁ : Node} {todo : List Work}, some (s₁.proceed u todo) = some s' →
      TakesPlace s s₁ r →
      Takes s s' (some u) (if s.room r = some 1 then (s.server r).map (r, ·) else none) := by
    intro s₁ todo he h
    obtain rfl := Option.some.inj he
    exact h.takes (proceed_places s₁ u todo) hroom (asks_proceed_iff s₁ u todo)
  cases w with
  | put c item =>
    obtain rfl := Option.some.inj hw
    exact proceeds hs (put_takes s c item)
  | send g packet =>
    obtain rfl := Option.some.inj hw
    exact proceeds hs (push_takes s g packet)
  | sendAll gs rpc =>
    cases gs with
    | nil => simp [Work.wants] at hw
    | cons g gs =>
      obtain rfl := Option.some.inj hw
      exact proceeds hs (push_takes s g (.rpc rpc))
  | unsubscribe topics =>
    cases topics with
    | nil => simp [Work.wants] at hw
    | cons topic_id topics => exact absurd (Option.some.inj hw).symm hr
  | isMsgSeen | event | spawn | exit => simp [Work.wants] at hw
  | register | hello | handleIncoming | consumePubsubMsg | notifySubscription | publish | writeMsg
  | handleSubopts | subscribe | insertTopic | removeTopic | messageAllPeers | handleDeadPeers =>
    exact absurd (Option.some.inj hw).symm hr

/-- `message_all_peers` takes the lock and keeps it. -/
theorem messageAllPeers_takes {s s' : Node} {u n : Nat} {now : UInt64} {order : List String}
    {todo : List Work} {rpc : Rpc} (hroom : s.room .lock = some (n + 1))
    (hs : s.perform u now order todo (.messageAllPeers rpc) = some s') :
    Takes s s' (some u) (some (.lock, u)) := by
  have hfree : s.lock = none := by
    by_contra h
    simp [Node.room, h] at hroom
  rw [Node.perform] at hs
  split at hs
  swap
  · simp at hs
  obtain rfl := Option.some.inj hs
  refine .takes .lock u rfl ?_ ?_ ?_ ?_
  · simp [Node.blocker, Node.server, hfree]
  · rw [(proceed_places _ u _).blocker]
    simp [Node.blocker, Node.room, Node.server]
  · intro q hq
    rw [(proceed_places _ u _).blocker]
    cases q with
    | lock => exact absurd rfl hq
    | place g | topic c => rfl
  · exact asks_proceed_iff { s with lock := some u } u _

/-- Who goes on asked for what it takes, if it asked. -/
theorem takes_asks {s : Node} {u v : Nat} {r q : Resource} (htakes : s.takes u = some (r, v))
    (hq : s.asks u = some q) : q = r := by
  obtain ⟨t, ht, hasks⟩ := Option.bind_eq_some_iff.mp hq
  rw [Task.asks] at hasks
  split at hasks
  swap
  · simp at hasks
  rename_i h
  obtain ⟨w, hw, hwants⟩ := Option.bind_eq_some_iff.mp hasks
  have hnext : s.next u = some w := by
    simp only [Bool.and_eq_true] at h
    simp [Node.next, ht, h.1, hw]
  rw [Node.takes, hnext] at htakes
  split at htakes
  · simp at htakes
  · rename_i rpc he
    obtain rfl := Option.some.inj he
    rw [← (Prod.mk.inj (Option.some.inj htakes)).1]
    exact (Option.some.inj hwants).symm
  · rename_i he
    obtain rfl := Option.some.inj he
    rw [hwants] at htakes
    split at htakes
    · simp at htakes
    · simp at htakes
    · rename_i hr
      obtain rfl := Option.some.inj hr
      split at htakes
      · obtain ⟨_, -, he⟩ := Option.map_eq_some_iff.mp htakes
        exact (Prod.mk.inj he).1
      · simp at htakes

/-- **A task goes on.** -/
theorem go_takes {s s' : Node} {u : Nat} {now : UInt64} {order : List String}
    (hs : s.go u now order = some s') : Takes s s' (some u) (s.takes u) := by
  obtain ⟨t, w, todo, ht, halive, htodo, hgoes⟩ := Node.go_cases hs
  have hnext : s.next u = some w := Node.next_of_todo ht halive htodo
  by_cases hmsg : ∃ rpc, w = .messageAllPeers rpc
  · obtain ⟨rpc, rfl⟩ := hmsg
    have htakes : s.takes u = some (.lock, u) := by rw [Node.takes, hnext]
    rw [htakes]
    cases hgoes with
    | refused r hw hroom _ =>
      obtain rfl := Option.some.inj hw
      exact absurd hroom (by simp [Node.room])
    | performed hroom hperform =>
      obtain ⟨n, hn⟩ := hroom .lock rfl
      exact messageAllPeers_takes hn hperform
  have hne : ∀ rpc, w ≠ .messageAllPeers rpc := fun rpc h => hmsg ⟨rpc, h⟩
  have htakes : s.takes u = match w.wants with
      | none | some .lock => none
      | some r => if s.room r = some 1 then (s.server r).map (r, ·) else none := by
    rw [Node.takes, hnext]
    cases w with
    | messageAllPeers rpc => exact absurd rfl (hne rpc)
    | _ => rfl
  cases hgoes with
  | refused r hw hroom hstop =>
    rw [hw] at htakes
    rw [hstop]
    refine .opens (htakes.trans ?_) (stop_opens s u)
    cases r with
    | lock => rfl
    | place g | topic c => simp [hroom]
  | performed hroom hperform =>
    cases hw : w.wants with
    | none =>
      rw [hw] at htakes
      exact .opens htakes (perform_opens (by simp [hw]) hne hperform)
    | some r =>
      rw [hw] at htakes
      by_cases hr : r = .lock
      · subst hr
        exact .opens htakes (perform_opens (by simp [hw]) hne hperform)
      · obtain ⟨n, hn⟩ := hroom r hw
        have htakes' : s.takes u = if s.room r = some 1 then (s.server r).map (r, ·) else none := by
          cases r with
          | lock => exact absurd rfl hr
          | place g | topic c => exact htakes
        rw [htakes']
        exact perform_takes hw hr hn hperform

theorem apiSend_takes {s s' : Node} {event : ApiEvent}
    (hs : s.step (.apiSend event) = some s') :
    Takes s s' none (if s.room (.place 0) = some 1 then some (.place 0, 0) else none) := by
  have push : ∀ n, s.room (.place 0) = some (n + 1) → some (s.push 0 (.api event)) = some s' →
      Takes s s' none (if s.room (.place 0) = some 1 then some (.place 0, 0) else none) := by
    intro n hroom he
    obtain rfl := Option.some.inj he
    exact (push_takes s 0 (.api event)).takes ⟨fun _ => rfl, fun _ => rfl⟩ hroom (by simp)
  simp only [Node.step] at hs
  split at hs
  · rename_i n _ _ hroom
    exact push n hroom hs
  · rename_i n _ hroom
    exact push n hroom hs
  · simp at hs

/-- **A task polls**, and there is no place. -/
theorem ask_circular_iff {s s' : Node} {u : Nat} (hgood : ¬ s.CircularWait)
    (hs : s.step (.ask u) = some s') : s'.CircularWait ↔ ¬ s.KeepsOpen (.ask u) := by
  simp only [Node.step] at hs
  split at hs
  swap
  · simp at hs
  rename_i w hnext
  split at hs
  swap
  · simp at hs
  rename_i hcond
  obtain ⟨hu, hroom⟩ := hcond
  obtain ⟨r, hw, hr⟩ := Option.bind_eq_some_iff.mp hroom
  obtain rfl := Option.some.inj hs
  obtain ⟨t, ht, halive⟩ := Option.bind_eq_some_iff.mp hnext
  have hasked : ({ s with
      tasks := s.tasks.modify u fun t => { t with asked := true } } : Node).asks u = some r := by
    rw [asks_modify rfl, if_pos rfl, ht, Option.bind_some, Task.asks]
    split at halive
    · rename_i h
      simp [h, halive, hw]
    · simp at halive
  have hplaces : SamePlaces s
      { s with tasks := s.tasks.modify u fun t => { t with asked := true } } := by
    refine ⟨fun q => ?_, fun q => by cases q <;> rfl⟩
    cases q with
    | lock | topic c => rfl
    | place g =>
      rw [room_modify rfl]
      split
      · rename_i h
        rw [h]
        rfl
      · rfl
  have hblocker : ({ s with tasks := s.tasks.modify u fun t => { t with asked := true } } :
      Node).blocker = s.blocker := funext hplaces.blocker
  rw [Node.CircularWait, Node.Waits, hblocker]
  rw [cyclic_ask_iff hu hasked fun v hv => by rw [asks_modify rfl, if_neg hv]]
  simp only [Node.KeepsOpen, not_forall, not_not]
  constructor
  · intro h
    rcases h with hc | ⟨v, hv, hvu⟩
    · exact absurd hc hgood
    · exact ⟨w, r, v, hnext, hw, hv, hvu⟩
  · intro h
    obtain ⟨w', r', v, hnext', hw', hv, hvu⟩ := h
    obtain rfl := Option.some.inj (hnext.symm.trans hnext')
    obtain rfl := Option.some.inj (hw.symm.trans hw')
    exact Or.inr ⟨v, hv, hvu⟩

theorem idle_spec {s : Node} {u : Nat} {t : Task} (h : s.idle u = some t) :
    s.tasks[u]? = some t ∧ t.todo = [] := by
  obtain ⟨ht, hp⟩ := Option.filter_eq_some_iff.mp h
  exact ⟨ht, (of_decide_eq_true hp).2.1⟩

/-- The other turns take nothing and wait for nothing. -/
theorem step_opens {s s' : Node} {a : NodeAct} (hask : ∀ u, a ≠ .ask u)
    (hgo : ∀ u now order, a ≠ .go u now order) (hsend : ∀ event, a ≠ .apiSend event)
    (hs : s.step a = some s') : Opens s s' := by
  cases a with
  | newPeer peer_id | subscribe topic_id | unsubscribe topics =>
    obtain rfl := Option.some.inj hs
    exact spawned_opens s rfl (by simp [Task.room, Role.capacity])
  | apiSend event => exact absurd rfl (hsend event)
  | read h rpc | streamEnd h =>
    simp only [Node.step] at hs
    split at hs
    · obtain rfl := Option.some.inj hs
      exact proceed_opens s h _
    · simp at hs
  | undecodable h =>
    obtain ⟨peer_id, -, rfl⟩ := Option.map_eq_some_iff.mp hs
    exact stop_opens s h
  | recv u =>
    simp only [Node.step] at hs
    split at hs
    swap
    · simp at hs
    rename_i t hidle
    split at hs
    · simp at hs
    · rename_i packet rest hq
      obtain rfl := Option.some.inj hs
      refine setTask_opens (idle_spec hidle).1 (fun r h => h) fun h => ?_
      simp only [Task.room] at h ⊢
      split at h
      · rename_i halive
        rw [if_pos halive]
        obtain ⟨cap, hcap, hle⟩ := Option.map_eq_some_iff.mp h
        refine Option.map_eq_some_iff.mpr ⟨cap, hcap, ?_⟩
        rw [hq, List.length_cons]
        omega
      · simp at h
  | write h =>
    simp only [Node.step] at hs
    split at hs
    · rename_i t _ hidle
      split at hs
      · simp at hs
      · obtain rfl := Option.some.inj hs
        exact setTask_opens (idle_spec hidle).1 (fun r h => h) fun h => h
    · simp at hs
  | apiNext now =>
    simp only [Node.step] at hs
    split at hs
    swap
    · simp at hs
    rename_i t hidle
    split at hs
    swap
    · simp at hs
    rename_i event rest hq
    obtain rfl := Option.some.inj hs
    have hset : Opens s { s with tasks := s.tasks.set 0 { t with notification := rest } } :=
      setTask_opens (idle_spec hidle).1 (fun r h => h) fun h => h
    exact hset.trans (proceed_opens _ 0 _)
  | ask u => exact absurd rfl (hask u)
  | go u now order => exact absurd rfl (hgo u now order)
  | eventGone u =>
    simp only [Node.step] at hs
    split at hs
    · obtain rfl := Option.some.inj hs
      exact stop_opens s u
    · simp at hs
  | topicRecv c =>
    simp only [Node.step] at hs
    split at hs
    swap
    · simp at hs
    rename_i ch hc
    split at hs
    swap
    · simp at hs
    rename_i item rest hreader hq
    obtain rfl := Option.some.inj hs
    refine setTopic_opens hc fun v hroom hserver => ?_
    simp [TopicChannel.server, hreader] at hserver
  | loopGone c =>
    simp only [Node.step] at hs
    split at hs
    swap
    · simp at hs
    rename_i ch hc
    split at hs
    swap
    · simp at hs
    obtain rfl := Option.some.inj hs
    refine setTopic_opens hc fun v hroom hserver => ?_
    simp [TopicChannel.server] at hserver

/-- **One turn** from a state without a circular wait closes one exactly if it leaves no way out. -/
theorem step_circularWait_iff {s s' : Node} {a : NodeAct} (hgood : ¬ s.CircularWait)
    (hs : s.step a = some s') : s'.CircularWait ↔ ¬ s.KeepsOpen a := by
  have opens : (∀ u, a ≠ .ask u) → (∀ u now order, a ≠ .go u now order) →
      (∀ event, a ≠ .apiSend event) → s.KeepsOpen a → (s'.CircularWait ↔ ¬ s.KeepsOpen a) := by
    intro hask hgo hsend hk
    constructor
    · intro hc
      exact absurd ((step_opens hask hgo hsend hs).circularWait hc) hgood
    · intro hn
      exact absurd hk hn
  cases a with
  | ask u => exact ask_circular_iff hgood hs
  | go u now order =>
    have htake : ∀ w r v q, s.takes u = some (r, v) → some u = some w → s.asks w = some q →
        q = r := by
      intro w r v q htakes hw hq
      obtain rfl := Option.some.inj hw
      exact takes_asks htakes hq
    rw [(go_takes hs).circular_iff hgood htake]
    simp only [Node.KeepsOpen, not_forall, not_not]
    constructor
    · intro h
      obtain ⟨r, v, w, htakes, hne, hw, hvw⟩ := h
      exact ⟨r, v, htakes, w, fun he => hne (congrArg some he.symm), hw, hvw⟩
    · intro h
      obtain ⟨r, v, htakes, w, hne, hw, hvw⟩ := h
      exact ⟨r, v, w, htakes, fun he => hne (Option.some.inj he).symm, hw, hvw⟩
  | apiSend event =>
    rw [(apiSend_takes hs).circular_iff hgood (by simp)]
    simp only [Node.KeepsOpen, not_forall, not_not]
    constructor
    · intro h
      obtain ⟨r, v, w, htakes, -, hw, hvw⟩ := h
      split at htakes
      · rename_i hroom
        obtain ⟨rfl, rfl⟩ := Prod.mk.inj (Option.some.inj htakes)
        exact ⟨hroom, w, hw, hvw⟩
      · simp at htakes
    · intro h
      obtain ⟨hroom, w, hw, hvw⟩ := h
      exact ⟨.place 0, 0, w, if_pos hroom, by simp, hw, hvw⟩
  | newPeer | subscribe | unsubscribe | read | undecodable | streamEnd | recv | write | apiNext
  | eventGone | topicRecv | loopGone =>
    exact opens (by simp) (by simp) (by simp) trivial

end Turn

/-! ## Every run -/

/-- **Runs without a circular wait.** The tasks of a node, with any number of peers, under any
traffic and any schedule, are never in a circular wait exactly if each of their turns leaves a
way out. -/
theorem deadlock_free_iff (localPeerId : String) {s₀ : Node} (h₀ : (node localPeerId).init s₀)
    (as : List NodeAct) :
    (node localPeerId).Avoids Node.CircularWait s₀ as ↔
      (node localPeerId).Guarded Node.KeepsOpen s₀ as := by
  refine avoids_iff_guarded (I := fun _ => True) (fun _ _ _ _ _ => trivial)
    (fun s a s' _ hgood hs => step_circularWait_iff hgood hs) as s₀ trivial ?_
  obtain rfl := h₀
  intro h
  obtain ⟨u, hu⟩ := h
  obtain ⟨v, huv, -⟩ := Relation.TransGen.head'_iff.mp hu
  obtain ⟨r, hr, -⟩ := waits_iff.mp huv
  cases u with
  | zero => simp [Node.asks, Task.asks] at hr
  | succ u => simp [Node.asks] at hr

/-- A peer opens a stream and subscribes to a topic. -/
def greetPeer : List NodeAct :=
  [.newPeer "p", .go 1 0 [], .go 1 0 [], .read 1 { subscriptions := [subOpts true "news"] },
    .go 1 0 [], .go 1 0 []]

/-- Nobody waits while a peer is greeted. -/
theorem deadlock_free_greetPeer :
    (node "n").Avoids Node.CircularWait { fs := { localPeerId := "n" } } greetPeer ↔
      (node "n").Guarded Node.KeepsOpen { fs := { localPeerId := "n" } } greetPeer :=
  deadlock_free_iff "n" rfl greetPeer

/-! ## A call of `subscribe` -/

/-- The owner publishes to the topic while the handler does not come to drain its queue. -/
def publishNews : List NodeAct :=
  [.apiSend (.publish ["news"] (some [1])), .recv 0, .apiNext 7, .go 0 7 ["p"], .go 0 7 [],
    .go 0 7 []]

/-- `message_all_peers` finds the queue full, and the handler reads another RPC. -/
def subscribeChat : List NodeAct :=
  [.subscribe "chat", .go 2 7 [], .go 2 7 [], .go 2 7 [], .go 2 7 ["p"], .ask 2,
    .read 1 { subscriptions := [subOpts false "news"] }, .ask 1]

def subscribeUnderTraffic : List NodeAct :=
  greetPeer ++ (List.replicate 100 publishNews).flatten ++ subscribeChat

theorem subscribeUnderTraffic_waits :
    ((node "n").exec (fun _ _ => True) { fs := { localPeerId := "n" } }
      subscribeUnderTraffic).any (fun s => s.lock = some 2 ∧ s.asks 2 = some (.place 1) ∧
        s.room (.place 1) = some 0 ∧ s.asks 1 = some .lock) = true := by decide +kernel

/-- **Subscribing under traffic**: the call holds the lock and waits for a place on the queue of a
handler that waits for the lock. -/
theorem subscribe_deadlocks :
    ∃ s, (node "n").Run subscribeUnderTraffic s ∧ s.CircularWait := by
  obtain ⟨s, hs, hw⟩ := (Option.any_eq_true ..).mp subscribeUnderTraffic_waits
  obtain ⟨hlock, hask, hfull, hwait⟩ := of_decide_eq_true hw
  exact ⟨s, runUnder_of_exec rfl hs, circularWait_of_holder hlock ⟨hask, hfull⟩ hwait⟩

end Rnet.Floodsub
