import Rnet.Floodsub.PubSub
import Rnet.Lib.System

/-!
# Calls of `is_msg_seen` among cleanup passes

The stream handlers of one node call `is_msg_seen` on messages that may be copies of each
other. A call reads the clock first and takes the lock of the cache afterwards, so the second
it records may lie behind the clock by the time it gets the lock. `cleanup_msg_cache` reads
the clock under the lock.

> `accepted_apart`: of two calls for the same key that both return `false`, the second gets
> the lock more than `LAST_SEEN_TTL` seconds after the second that the first recorded.
-/

namespace Rnet.Floodsub

open Rnet.Lib
open Rnet.Lib.System (runUnder_of_exec)

/-- How far a handler is in its call of `is_msg_seen`. -/
inductive SeenCall
  | idle
  | called (msg : Message)
  /-- the clock has been read, and the lock is asked for -/
  | clocked (msg : Message) (now : UInt64)
  /-- the sequence number is not one, and the handler panicked -/
  | panicked
  deriving DecidableEq

/-- A call that got the lock. -/
structure SeenAccess where
  key : MessageKey
  /-- what the call read off the clock -/
  now : UInt64
  /-- the clock when the call got the lock -/
  clock : UInt64
  /-- what the call returned -/
  seen : Bool
  deriving DecidableEq

/-- One node, its handlers and its cleanup pass. -/
structure SeenNode where
  node : FloodSub
  /-- the clock, in whole seconds -/
  clock : UInt64
  /-- `cleanup_msg_cache` holds the lock of the cache -/
  cleaning : Bool := false
  calls : Nat → SeenCall := fun _ => .idle
  /-- the calls that got the lock, in order -/
  accesses : List SeenAccess := []

/-- One turn of a handler, of the cleanup task or of the clock. -/
inductive SeenAct
  /-- the clock goes on -/
  | tick (now : UInt64)
  /-- handler `i` calls `is_msg_seen` -/
  | call (i : Nat) (msg : Message)
  /-- handler `i` makes the key and reads the clock -/
  | readClock (i : Nat)
  /-- handler `i` gets the lock, looks the key up and returns -/
  | access (i : Nat)
  /-- `cleanup_msg_cache` wakes up and gets the lock -/
  | cleanupLock
  /-- `cleanup_msg_cache` reads the clock, drops what is too old and releases the lock -/
  | cleanupPass
  /-- whatever else the node does to its store -/
  | store (node : FloodSub)

namespace SeenNode

/-- Handler `i` is now here in its call. -/
def setCall (s : SeenNode) (i : Nat) (c : SeenCall) : SeenNode :=
  { s with calls := Function.update s.calls i c }

/-- The key that a call looks up. -/
def keyOf (msg : Message) (seqno_int : UInt64) : MessageKey := ⟨msg.from_.getD [], seqno_int⟩

/-- One turn. -/
def step (s : SeenNode) : SeenAct → Option SeenNode
  | .tick now => if s.clock ≤ now then some { s with clock := now } else none
  | .call i msg => if s.calls i = .idle then some (s.setCall i (.called msg)) else none
  | .readClock i =>
    match s.calls i with
    | .called msg =>
      match seqnoToUnixTx (msg.seqno.getD []) with
      | none => some (s.setCall i .panicked)
      | some _ => some (s.setCall i (.clocked msg s.clock))
    | _ => none
  | .access i =>
    match s.calls i, s.cleaning with
    | .clocked msg now, false => do
      let seqno_int ← seqnoToUnixTx (msg.seqno.getD [])
      let (node, seen) ← s.node.isMsgSeen msg now
      let entry := ⟨keyOf msg seqno_int, now, s.clock, seen⟩
      some { s.setCall i .idle with node, accesses := s.accesses ++ [entry] }
    | _, _ => none
  | .cleanupLock => if s.cleaning then none else some { s with cleaning := true }
  | .cleanupPass =>
    if s.cleaning then
      some { s with
        node := { s.node with lastSeenCache := cleanupMsgCache s.node.lastSeenCache s.clock }
        cleaning := false }
    else none
  | .store node => some { s with node := { node with lastSeenCache := s.node.lastSeenCache } }

/-- No call of `is_msg_seen` yet; the cache may hold anything. -/
def Fresh (s : SeenNode) : Prop :=
  s.cleaning = false ∧ s.accesses = [] ∧ ∀ i, s.calls i = .idle

end SeenNode

/-- The handlers of a node and its cleanup task. -/
def seenNode : System SeenNode SeenAct where
  init := SeenNode.Fresh
  step := SeenNode.step

namespace SeenNode

/-- The first second at which a call for this key may be accepted again has passed. -/
def Expired (e : SeenAccess) (clock : UInt64) : Prop :=
  e.now.toNat + LAST_SEEN_TTL.toNat < clock.toNat

/-- Two accepted calls for one key are apart. -/
def Apart (first second : SeenAccess) : Prop :=
  first.key = second.key → first.seen = false → second.seen = false → Expired first second.clock

/-- What the cache knows about the calls so far. -/
structure CacheInv (s : SeenNode) : Prop where
  /-- an accepted call is in the cache until its time is over -/
  kept : ∀ e ∈ s.accesses, e.seen = false →
    s.node.lastSeenCache e.key = some e.now ∨ Expired e s.clock
  apart : s.accesses.Pairwise Apart

/-- What `is_msg_seen` does: a key that is not in the cache gets an entry, one that is stays. -/
theorem isMsgSeen_cases (fs : FloodSub) {msg : Message} {seqno_int : UInt64} (now : UInt64)
    (hseq : seqnoToUnixTx (msg.seqno.getD []) = some seqno_int) :
    (fs.lastSeenCache (keyOf msg seqno_int) = none ∧ fs.isMsgSeen msg now =
      some ({ fs with
        lastSeenCache :=
          Function.update fs.lastSeenCache (keyOf msg seqno_int) (some now) }, false)) ∨
    (fs.lastSeenCache (keyOf msg seqno_int) ≠ none ∧ fs.isMsgSeen msg now = some (fs, true)) := by
  unfold FloodSub.isMsgSeen keyOf
  rw [hseq]
  cases hc : fs.lastSeenCache ⟨msg.from_.getD [], seqno_int⟩ with
  | none => exact Or.inl ⟨rfl, by simp only [Option.bind_eq_bind, Option.bind_some, hc]⟩
  | some ts => exact Or.inr ⟨by simp, by simp only [Option.bind_eq_bind, Option.bind_some, hc]⟩

/-- A turn that leaves the cache and the calls alone, and does not put the clock back. -/
theorem CacheInv.of_same {s s' : SeenNode} (h : s.CacheInv)
    (hcache : s'.node.lastSeenCache = s.node.lastSeenCache) (hacc : s'.accesses = s.accesses)
    (hclock : s.clock ≤ s'.clock) : s'.CacheInv := by
  refine ⟨fun e he hseen => ?_, by rw [hacc]; exact h.apart⟩
  rw [hacc] at he
  rw [hcache]
  refine (h.kept e he hseen).imp_right fun hexp => ?_
  have hle := UInt64.le_iff_toNat_le.mp hclock
  unfold Expired at hexp ⊢
  omega

/-- A call gets the lock: an accepted one finds no entry, so the calls before it have expired. -/
theorem CacheInv.access {s s' : SeenNode} {i : Nat} (h : s.CacheInv)
    (hs : s.step (.access i) = some s') : s'.CacheInv := by
  simp only [step] at hs
  split at hs
  · rename_i msg now hcall hfree
    obtain ⟨seqno_int, hseq, hs⟩ := Option.bind_eq_some_iff.mp hs
    obtain ⟨⟨node, seen⟩, hseen, hs⟩ := Option.bind_eq_some_iff.mp hs
    obtain rfl := Option.some.inj hs
    rcases isMsgSeen_cases s.node now hseq with ⟨hnone, hnew⟩ | ⟨-, hold⟩
    · rw [hnew] at hseen
      obtain ⟨rfl, rfl⟩ := Prod.mk.inj (Option.some.inj hseen)
      -- whoever was accepted for this key before has no entry any more
      have hgone : ∀ e ∈ s.accesses, e.key = keyOf msg seqno_int → e.seen = false →
          Expired e s.clock := by
        intro e he hkey hfalse
        rcases h.kept e he hfalse with hin | hexp
        · rw [hkey, hnone] at hin
          simp at hin
        · exact hexp
      refine ⟨fun e he hfalse => ?_, ?_⟩
      · show Function.update s.node.lastSeenCache _ _ e.key = _ ∨ _
        rcases List.mem_append.mp he with he | he
        · by_cases hkey : e.key = keyOf msg seqno_int
          · exact Or.inr (hgone e he hkey hfalse)
          · rw [Function.update_of_ne hkey]
            exact h.kept e he hfalse
        · obtain rfl := List.mem_singleton.mp he
          exact Or.inl (Function.update_self ..)
      · refine List.pairwise_append.mpr ⟨h.apart, List.pairwise_singleton .., ?_⟩
        intro e he e' he' hkey hfalse _
        obtain rfl := List.mem_singleton.mp he'
        exact hgone e he hkey hfalse
    · -- a duplicate: the cache stays, and the new access is none that accepted
      rw [hold] at hseen
      obtain ⟨rfl, rfl⟩ := Prod.mk.inj (Option.some.inj hseen)
      refine ⟨fun e he hfalse => ?_, ?_⟩
      · rcases List.mem_append.mp he with he | he
        · exact h.kept e he hfalse
        · obtain rfl := List.mem_singleton.mp he
          simp at hfalse
      · refine List.pairwise_append.mpr ⟨h.apart, List.pairwise_singleton .., ?_⟩
        intro e _ e' he' _ _ htrue
        obtain rfl := List.mem_singleton.mp he'
        simp at htrue
  · simp at hs

/-- A cleanup pass drops an entry only when its time is over. -/
theorem CacheInv.cleanupPass {s s' : SeenNode} (h : s.CacheInv)
    (hs : s.step .cleanupPass = some s') : s'.CacheInv := by
  simp only [step] at hs
  split at hs
  · obtain rfl := Option.some.inj hs
    refine ⟨fun e he hfalse => ?_, h.apart⟩
    show cleanupMsgCache s.node.lastSeenCache s.clock e.key = _ ∨ _
    rcases h.kept e he hfalse with hin | hexp
    · rw [cleanupMsgCache_some hin]
      by_cases hyoung : s.clock.toNat ≤ e.now.toNat + 120
      · exact Or.inl (if_pos hyoung)
      · refine Or.inr ?_
        show e.now.toNat + 120 < s.clock.toNat
        omega
    · exact Or.inr hexp
  · simp at hs

/-- **One turn** of the node. -/
theorem CacheInv.step {s s' : SeenNode} {a : SeenAct} (h : s.CacheInv)
    (hs : s.step a = some s') : s'.CacheInv := by
  cases a with
  | tick now =>
    simp only [SeenNode.step] at hs
    split at hs
    · rename_i hle
      obtain rfl := Option.some.inj hs
      exact h.of_same rfl rfl hle
    · simp at hs
  | call i msg =>
    simp only [SeenNode.step] at hs
    split at hs
    · obtain rfl := Option.some.inj hs
      exact h.of_same rfl rfl (UInt64.le_refl _)
    · simp at hs
  | readClock i =>
    simp only [SeenNode.step] at hs
    split at hs
    · split at hs
      · obtain rfl := Option.some.inj hs
        exact h.of_same rfl rfl (UInt64.le_refl _)
      · obtain rfl := Option.some.inj hs
        exact h.of_same rfl rfl (UInt64.le_refl _)
    · simp at hs
  | access i => exact h.access hs
  | cleanupLock =>
    simp only [SeenNode.step] at hs
    split at hs
    · simp at hs
    · obtain rfl := Option.some.inj hs
      exact h.of_same rfl rfl (UInt64.le_refl _)
  | cleanupPass => exact h.cleanupPass hs
  | store node =>
    obtain rfl := Option.some.inj hs
    exact h.of_same rfl rfl (UInt64.le_refl _)

theorem CacheInv.init {s : SeenNode} (h : s.Fresh) : s.CacheInv := by
  obtain ⟨-, hacc, -⟩ := h
  refine ⟨fun e he => ?_, ?_⟩
  · rw [hacc] at he
    simp at he
  · rw [hacc]
    exact List.Pairwise.nil

end SeenNode

/-- **Calls for one key.** For every interleaving of calls with cleanup passes, two calls for the
same key that both return `false` are so far apart that the clock, when the second gets the lock,
is more than `LAST_SEEN_TTL` past the second that the first recorded. -/
theorem accepted_apart {as : List SeenAct} {s : SeenNode} (h : seenNode.Run as s) :
    s.accesses.Pairwise fun first second =>
      first.key = second.key → first.seen = false → second.seen = false →
        first.now.toNat + LAST_SEEN_TTL.toNat < second.clock.toNat :=
  (h.invariant SeenNode.CacheInv (fun _ => SeenNode.CacheInv.init)
    fun _ _ _ hi _ hs => hi.step hs).apart

/-- A message of the origin `a`, made in second 7. -/
def sampleMessage : Message where
  from_ := some (toUtf8 "a")
  data := none
  seqno := some (getSeqno 7)
  topicIds := []

/-- Two handlers with one message each: the clock moves on between the reading and the lock of the
first, and the cleanup pass that lets the second be accepted comes later. -/
def copiesApart : List SeenAct :=
  [.call 0 sampleMessage, .readClock 0, .tick 11, .access 0, .call 1 sampleMessage, .tick 130,
    .cleanupLock, .readClock 1, .tick 131, .cleanupPass, .access 1]

theorem copiesApart_accepted :
    (seenNode.exec (fun _ _ => True) { node := { localPeerId := "b" }, clock := 10 }
      copiesApart).any (fun s => s.accesses.map SeenAccess.seen = [false, false]) = true := by
  decide +kernel

theorem accepted_apart_copies : ∃ s, seenNode.Run copiesApart s ∧
    s.accesses.map SeenAccess.seen = [false, false] ∧
    s.accesses.Pairwise fun first second =>
      first.key = second.key → first.seen = false → second.seen = false →
        first.now.toNat + LAST_SEEN_TTL.toNat < second.clock.toNat := by
  obtain ⟨s, hs, hseen⟩ := (Option.any_eq_true ..).mp copiesApart_accepted
  have hrun : seenNode.Run copiesApart s :=
    runUnder_of_exec ⟨rfl, rfl, fun _ => rfl⟩ hs
  exact ⟨s, hrun, of_decide_eq_true hseen, accepted_apart hrun⟩

end Rnet.Floodsub
