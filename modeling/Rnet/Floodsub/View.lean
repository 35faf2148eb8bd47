import Rnet.Floodsub.PubSub
import Rnet.Lib.Isolation
import Rnet.Lib.System
import Mathlib.Data.Option.Basic
import Mathlib.Data.List.Perm.Basic

/-!
# Who is subscribed: `peer_topics` as a last-write-wins view

`peer_topics` is a map of lists that three functions change: `handle_subopts` moves one
peer in or out of one list, `handle_dead_peers` takes a peer that is in `peers` out of
all of them, and `handle_new_peer` puts a peer into `peers`. Every entry of a list
answers to the calls of its own peer only, so the map is a view of one history for
each peer.

> `view_last_write`: a peer is listed under a topic exactly if the last call that counts
> for the two subscribed it, no list holds a peer twice, and histories in which each
> peer makes the same calls give the same lists up to their order.
-/

namespace Rnet.Floodsub

open Rnet.Lib (System Keyed)

/-- A call of one of the functions that the view answers to. -/
inductive ViewCall
  /-- `handle_subopts(peer, ..)` with `topic_id = Some(topic)` -/
  | subopts (peer topic : String) (subscribe : Option Bool)
  /-- `handle_new_peer(.., peer)` -/
  | newPeer (peer : String) (h : Nat)
  /-- `handle_dead_peers([peer])` -/
  | deadPeer (peer : String)
  deriving DecidableEq

namespace ViewCall

/-- The peer that a call is about. -/
def peer : ViewCall → String
  | subopts peer _ _ | newPeer peer _ | deadPeer peer => peer

/-- The call counts for `peer` and `topic`: subscription options of the two, or the death of
the peer while it is in `peers`. -/
def counts (topic peer : String) (fs : FloodSub) : ViewCall → Bool
  | subopts p t _ => p = peer ∧ t = topic
  | newPeer _ _ => false
  | deadPeer p => p = peer ∧ peer ∈ fs.peers

end ViewCall

/-- One call. -/
def FloodSub.call (fs : FloodSub) : ViewCall → Option FloodSub
  | .subopts peer topic subscribe => fs.handleSubopts peer ⟨subscribe, some topic⟩
  | .newPeer peer h => some (fs.handleNewPeer peer h)
  | .deadPeer peer => some (fs.handleDeadPeers [peer])

/-- A new node and the calls it gets. -/
def viewSystem : System FloodSub ViewCall where
  init fs := ∃ localPeerId, fs = { localPeerId := localPeerId }
  step := FloodSub.call

/-- The calls that count for `peer` and `topic`, in their order. -/
def history (topic peer : String) (fs : FloodSub) (cs : List ViewCall) : List ViewCall :=
  viewSystem.gather (fun fs c => if c.counts topic peer fs then [c] else []) fs cs

/-! ## One call -/

theorem handleDeadPeers_one (fs : FloodSub) (peer : String) :
    fs.handleDeadPeers [peer] = if peer ∈ fs.peers then
      { fs with
        peers := fs.peers.erase peer
        peerTopics := fun topic => (fs.peerTopics topic).map fun peers => peers.filter (· ≠ peer) }
      else fs := by
  unfold FloodSub.handleDeadPeers
  cases hl : fs.peers.lookup peer with
  | none => rw [if_neg (AList.lookup_eq_none.mp hl)]
  | some h => rw [if_pos (AList.lookup_isSome.mp (by rw [hl]; rfl))]; rfl

/-- No call panics. -/
theorem call_isSome (fs : FloodSub) (c : ViewCall) : ∃ fs', fs.call c = some fs' := by
  cases c with
  | subopts peer topic subscribe =>
    unfold FloodSub.call FloodSub.handleSubopts
    dsimp only [Option.bind_eq_bind, Option.bind_some]
    split
    · exact ⟨_, rfl⟩
    · exact ⟨_, rfl⟩
  | newPeer peer h => exact ⟨_, rfl⟩
  | deadPeer peer => exact ⟨_, rfl⟩

/-- **One call** decides about a peer and a topic it counts for, and leaves all others. -/
theorem call_lists {fs fs' : FloodSub} {c : ViewCall} (h : fs.call c = some fs')
    (topic peer : String) :
    fs'.Lists topic peer ↔
      if c.counts topic peer fs then c = .subopts peer topic (some true)
      else fs.Lists topic peer := by
  cases c with
  | subopts p t subscribe =>
    obtain ⟨_, ht, -, hlists⟩ := handleSubopts_spec h
    obtain rfl := Option.some.inj ht
    rw [hlists]
    unfold ViewCall.counts
    by_cases hpt : topic = t ∧ peer = p
    · obtain ⟨rfl, rfl⟩ := hpt
      rcases subscribe with _ | _ | _ <;> simp
    · have hne : ¬(p = peer ∧ t = topic) := fun ⟨h₁, h₂⟩ => hpt ⟨h₂.symm, h₁.symm⟩
      rw [if_neg hpt, if_neg (by simpa using hne)]
  | newPeer p h =>
    obtain rfl := Option.some.inj h
    rfl
  | deadPeer p =>
    obtain rfl := Option.some.inj h
    rw [handleDeadPeers_one]
    unfold ViewCall.counts
    by_cases hp : p ∈ fs.peers
    · rw [if_pos hp, lists_remove]
      by_cases hpp : p = peer
      · subst hpp
        simp [hp]
      · simp [hpp, Ne.symm hpp]
    · rw [if_neg hp]
      by_cases hpp : p = peer
      · subst hpp
        simp [hp]
      · simp [hpp]

/-! ## The part of one peer -/

/-- What the store knows of one peer. -/
@[ext] structure PeerView where
  /-- the peer is in `peers` -/
  known : Prop
  /-- the topics it is listed under -/
  listed : String → Prop

/-- What a call does to the part of its peer. -/
def PeerView.respond (v : PeerView) : ViewCall → PeerView
  | .subopts _ topic subscribe =>
    { v with listed := Function.update v.listed topic (subscribe = some true) }
  | .newPeer _ _ => { v with known := True }
  | .deadPeer _ => { known := False, listed := fun topic => v.listed topic ∧ ¬ v.known }

/-- The store as a component whose calls carry a peer. -/
def keyedView : Keyed FloodSub ViewCall Unit String PeerView where
  call fs c := ((fs.call c).getD fs, ())
  key := ViewCall.peer
  view peer fs := { known := peer ∈ fs.peers, listed := fun topic => fs.Lists topic peer }

/-- The peers after a call: `handle_new_peer` adds its own, `handle_dead_peers` removes it. -/
theorem call_known {fs fs' : FloodSub} {c : ViewCall} (h : fs.call c = some fs') (peer : String) :
    peer ∈ fs'.peers ↔
      if c.peer = peer then ((keyedView.view peer fs).respond c).known else peer ∈ fs.peers := by
  unfold keyedView PeerView.respond ViewCall.peer
  cases c with
  | subopts p t subscribe =>
    obtain ⟨_, -, hpeers, -⟩ := handleSubopts_spec h
    dsimp only
    rw [hpeers, ite_self]
  | newPeer p h' =>
    obtain rfl := Option.some.inj h
    dsimp only
    rw [show (fs.handleNewPeer p h').peers = fs.peers.insert p h' from rfl, AList.mem_insert]
    by_cases hp : p = peer
    · rw [if_pos hp]
      exact ⟨fun _ => trivial, fun _ => Or.inl hp.symm⟩
    · rw [if_neg hp]
      exact ⟨fun hm => hm.resolve_left (Ne.symm hp), Or.inr⟩
  | deadPeer p =>
    obtain rfl := Option.some.inj h
    dsimp only
    rw [handleDeadPeers_one]
    by_cases hm : p ∈ fs.peers
    · rw [if_pos hm]
      dsimp only
      rw [AList.mem_erase]
      by_cases hp : p = peer
      · rw [if_pos hp]
        exact ⟨fun hn => hn.1 hp.symm, False.elim⟩
      · rw [if_neg hp]
        exact ⟨And.right, fun h => ⟨Ne.symm hp, h⟩⟩
    · rw [if_neg hm]
      by_cases hp : p = peer
      · rw [if_pos hp, ← hp]
        exact ⟨hm, False.elim⟩
      · rw [if_neg hp]

/-- **A call is its peer's own business.** -/
theorem keyedView_isolated : keyedView.Isolated fun v c => (v.respond c, ()) where
  own fs c := by
    obtain ⟨fs', h⟩ := call_isSome fs c
    have hknown := call_known h c.peer
    have hlists := fun topic => call_lists h topic c.peer
    rw [if_pos rfl] at hknown
    refine Prod.ext (PeerView.ext (propext ?_) (funext fun topic => propext ?_)) rfl
    · show c.peer ∈ ((fs.call c).getD fs).peers ↔ _
      rw [h]
      exact hknown
    · show ((fs.call c).getD fs).Lists topic c.peer ↔ _
      rw [h]
      refine (hlists topic).trans ?_
      cases c with
      | subopts p t subscribe =>
        unfold ViewCall.counts keyedView PeerView.respond ViewCall.peer
        dsimp only
        by_cases ht : topic = t
        · subst ht
          rw [Function.update_self]
          simp
        · rw [Function.update_of_ne ht, if_neg (by simpa using Ne.symm ht)]
      | newPeer p h' => rfl
      | deadPeer p =>
        unfold ViewCall.counts keyedView PeerView.respond ViewCall.peer
        by_cases hp : p ∈ fs.peers
        · simp [hp]
        · simp [hp]
  other fs c peer hne := by
    obtain ⟨fs', h⟩ := call_isSome fs c
    have hknown := call_known h peer
    have hlists := fun topic => call_lists h topic peer
    have hcounts : ∀ topic, c.counts topic peer fs = false := by
      intro topic
      cases c with
      | subopts p t subscribe => exact decide_eq_false fun hp => hne hp.1
      | newPeer p h' => rfl
      | deadPeer p => exact decide_eq_false fun hp => hne hp.1
    refine PeerView.ext (propext ?_) (funext fun topic => propext ?_)
    · show peer ∈ ((fs.call c).getD fs).peers ↔ _
      rw [h]
      rw [if_neg (show ¬ c.peer = peer from hne)] at hknown
      exact hknown
    · show ((fs.call c).getD fs).Lists topic peer ↔ _
      rw [h]
      have := hlists topic
      rw [hcounts, if_neg Bool.false_ne_true] at this
      exact this

/-! ## The lists -/

/-- No list of `peer_topics` holds a peer twice. -/
def FloodSub.ListsNodup (fs : FloodSub) : Prop :=
  ∀ topic peers, fs.peerTopics topic = some peers → peers.Nodup

/-- Deduplication on insert, and removals: a call keeps the lists without duplicates. -/
theorem call_nodup {fs fs' : FloodSub} {c : ViewCall} (h : fs.call c = some fs')
    (hn : fs.ListsNodup) : fs'.ListsNodup := by
  intro t l hl
  cases c with
  | subopts p topic subscribe =>
    unfold FloodSub.call FloodSub.handleSubopts at h
    dsimp only [Option.bind_eq_bind, Option.bind_some] at h
    by_cases ht : t = topic
    · subst ht
      split at h
      · obtain rfl := Option.some.inj h
        dsimp only at hl
        rw [Function.update_self] at hl
        obtain rfl := Option.some.inj hl
        split
        · rename_i peers hp
          by_cases hm : p ∈ peers
          · rw [if_pos hm]
            exact hn t peers hp
          · rw [if_neg hm]
            exact List.nodup_append.mpr ⟨hn t peers hp, List.nodup_singleton p,
              fun a ha b hb => by rw [List.mem_singleton.mp hb]; exact fun he => hm (he ▸ ha)⟩
        · exact List.nodup_singleton p
      · obtain rfl := Option.some.inj h
        dsimp only at hl
        rw [Function.update_self] at hl
        obtain ⟨peers, hp, rfl⟩ := Option.map_eq_some_iff.mp hl
        exact (hn t peers hp).filter _
    · have hkeep : fs'.peerTopics t = fs.peerTopics t := by
        split at h <;> obtain rfl := Option.some.inj h <;> exact Function.update_of_ne ht ..
      exact hn t l (hkeep ▸ hl)
  | newPeer p h' =>
    obtain rfl := Option.some.inj h
    exact hn t l hl
  | deadPeer p =>
    obtain rfl := Option.some.inj h
    rw [handleDeadPeers_one] at hl
    split at hl
    · obtain ⟨peers, hp, rfl⟩ := Option.map_eq_some_iff.mp hl
      exact (hn t peers hp).filter _
    · exact hn t l hl

/-- A topic gets its list with the first subscription to it, and keeps it. -/
theorem call_topic {fs fs' : FloodSub} {c : ViewCall} (h : fs.call c = some fs') (topic : String) :
    (fs'.peerTopics topic).isSome ↔
      (fs.peerTopics topic).isSome ∨ ∃ peer, c = .subopts peer topic (some true) := by
  cases c with
  | subopts p t subscribe =>
    unfold FloodSub.call FloodSub.handleSubopts at h
    dsimp only [Option.bind_eq_bind, Option.bind_some] at h
    rcases subscribe with _ | _ | _
    all_goals
      obtain rfl := Option.some.inj h
      dsimp only
      by_cases ht : topic = t
    · subst ht; simp
    · simp [Function.update_of_ne ht]
    · subst ht; simp
    · simp [Function.update_of_ne ht]
    · subst ht; simp
    · simp [Function.update_of_ne ht, Ne.symm ht]
  | newPeer p h' =>
    obtain rfl := Option.some.inj h
    simp [FloodSub.handleNewPeer]
  | deadPeer p =>
    obtain rfl := Option.some.inj h
    rw [handleDeadPeers_one]
    split
    · simp
    · simp

/-- Two lists without duplicates, or none twice, with the same peers. -/
theorem rel_perm_of_mem {o o' : Option (List String)} (hsome : o'.isSome ↔ o.isSome)
    (hn : ∀ peers, o = some peers → peers.Nodup) (hn' : ∀ peers, o' = some peers → peers.Nodup)
    (hmem : ∀ x, (∃ peers, o' = some peers ∧ x ∈ peers) ↔ ∃ peers, o = some peers ∧ x ∈ peers) :
    Option.Rel List.Perm o o' := by
  rcases o with _ | peers <;> rcases o' with _ | peers'
  · exact .none
  · exact absurd (hsome.mp rfl) Bool.false_ne_true
  · exact absurd (hsome.mpr rfl) Bool.false_ne_true
  · refine .some ((List.perm_ext_iff_of_nodup (hn peers rfl) (hn' peers' rfl)).mpr fun x => ?_)
    constructor
    · intro hx
      obtain ⟨l, hl, hxl⟩ := (hmem x).mpr ⟨peers, rfl, hx⟩
      rwa [Option.some.inj hl]
    · intro hx
      obtain ⟨l, hl, hxl⟩ := (hmem x).mp ⟨peers', rfl, hx⟩
      rwa [Option.some.inj hl]

/-! ## A run of calls -/

/-- The calls never fail, and the state they lead to is that of the component. -/
theorem exec_keyed : ∀ (cs : List ViewCall) (fs : FloodSub),
    viewSystem.exec (fun _ _ => True) fs cs = some (keyedView.after fs cs) := by
  intro cs
  induction cs with
  | nil => intro fs; rfl
  | cons c cs ih =>
    intro fs
    obtain ⟨fs', h⟩ := call_isSome fs c
    rw [System.exec, if_pos trivial, show viewSystem.step fs c = some fs' from h, Option.bind_some,
      ih fs']
    show some (keyedView.after fs' cs) = some (keyedView.after ((fs.call c).getD fs) cs)
    rw [h]
    rfl

/-- **The last call that counts** decides whether a peer is listed. -/
theorem lists_iff_history {fs₀ fs : FloodSub} {cs : List ViewCall} {topic peer : String}
    (h₀ : ¬ fs₀.Lists topic peer) (h : viewSystem.exec (fun _ _ => True) fs₀ cs = some fs) :
    fs.Lists topic peer ↔
      (history topic peer fs₀ cs).getLast? = some (.subopts peer topic (some true)) := by
  refine System.exec_gather (M := viewSystem) (C := fun _ _ => True)
    (fun l (fs : FloodSub) => fs.Lists topic peer ↔
      l.getLast? = some (ViewCall.subopts peer topic (some true))) ?_ cs (l := []) ?_ h
  · intro l fs c fs' hI _ hs
    rw [call_lists hs]
    by_cases hc : c.counts topic peer fs = true
    · rw [if_pos hc, if_pos hc, List.getLast?_concat, Option.some_inj]
    · rw [if_neg hc, if_neg hc, List.append_nil]
      exact hI
  · exact ⟨fun hl => absurd hl h₀, fun hl => nomatch hl⟩

/-- No list of a run holds a peer twice. -/
theorem run_nodup {fs₀ fs : FloodSub} {cs : List ViewCall} (h₀ : fs₀.ListsNodup)
    (h : viewSystem.exec (fun _ _ => True) fs₀ cs = some fs) : fs.ListsNodup :=
  System.exec_gather (M := viewSystem) (C := fun _ _ => True) (f := fun _ _ => ([] : List Unit))
    (fun _ fs => fs.ListsNodup) (fun _ _ _ _ hn _ hs => call_nodup hs hn) cs (l := []) h₀ h

/-- Which topics have a list after a run. -/
theorem run_topic (topic : String) : ∀ (cs : List ViewCall) (fs : FloodSub),
    ((keyedView.after fs cs).peerTopics topic).isSome ↔
      (fs.peerTopics topic).isSome ∨ ∃ peer, ViewCall.subopts peer topic (some true) ∈ cs := by
  intro cs
  induction cs with
  | nil =>
    intro fs
    exact ⟨Or.inl, fun h => h.resolve_right fun ⟨_, hm⟩ => List.not_mem_nil hm⟩
  | cons c cs ih =>
    intro fs
    obtain ⟨fs', h⟩ := call_isSome fs c
    show ((keyedView.after ((fs.call c).getD fs) cs).peerTopics topic).isSome ↔ _
    rw [h, Option.getD_some, ih fs', call_topic h, or_assoc]
    refine or_congr_right ⟨?_, ?_⟩
    · intro h
      rcases h with ⟨peer, rfl⟩ | ⟨peer, hm⟩
      · exact ⟨peer, List.mem_cons_self ..⟩
      · exact ⟨peer, List.mem_cons_of_mem _ hm⟩
    · intro h
      obtain ⟨peer, hm⟩ := h
      rcases List.mem_cons.mp hm with he | hm
      · exact Or.inl ⟨peer, he.symm⟩
      · exact Or.inr ⟨peer, hm⟩

/-- Calls that are the same for each peer are the same calls. -/
theorem mem_of_filter {cs cs' : List ViewCall}
    (h : ∀ peer, cs'.filter (·.peer = peer) = cs.filter (·.peer = peer)) (c : ViewCall) :
    c ∈ cs' ↔ c ∈ cs := by
  have hc := h c.peer
  have own : ∀ l : List ViewCall, c ∈ l ↔ c ∈ l.filter (·.peer = c.peer) := by
    intro l
    rw [List.mem_filter]
    simp
  rw [own cs', hc, ← own cs]

/-- **The order between peers** does not matter: the same calls of each peer list the same
peers. -/
theorem lists_of_filter {cs cs' : List ViewCall}
    (h : ∀ peer, cs'.filter (·.peer = peer) = cs.filter (·.peer = peer)) (fs : FloodSub)
    (topic peer : String) :
    (keyedView.after fs cs').Lists topic peer ↔ (keyedView.after fs cs).Lists topic peer := by
  have hview : keyedView.view peer (keyedView.after fs cs') =
      keyedView.view peer (keyedView.after fs cs) := by
    rw [keyedView_isolated.view_after, keyedView_isolated.view_after]
    exact congrArg (List.foldl _ _) (h peer)
  exact Iff.of_eq (congrFun (congrArg PeerView.listed hview) topic)

/-- **The view.** After any calls on a new node, a peer is listed under a topic exactly if the
last call that counts for the two is a subscription, and no list holds a peer twice. Calls
that are the same for each peer give the same lists up to their order. -/
theorem view_last_write (localPeerId : String) (cs : List ViewCall) :
    ∃ fs, viewSystem.exec (fun _ _ => True) { localPeerId := localPeerId } cs = some fs ∧
      (∀ topic peer, fs.Lists topic peer ↔
        (history topic peer { localPeerId := localPeerId } cs).getLast? =
          some (.subopts peer topic (some true))) ∧
      (∀ topic peers, fs.peerTopics topic = some peers → peers.Nodup) ∧
      ∀ cs', (∀ peer, cs'.filter (·.peer = peer) = cs.filter (·.peer = peer)) →
        ∃ fs', viewSystem.exec (fun _ _ => True) { localPeerId := localPeerId } cs' = some fs' ∧
          ∀ topic, Option.Rel List.Perm (fs.peerTopics topic) (fs'.peerTopics topic) := by
  have hempty : ∀ topic peer, ¬ ({ localPeerId := localPeerId } : FloodSub).Lists topic peer :=
    fun _ _ ⟨_, hp, _⟩ => nomatch hp
  have hnodup : ({ localPeerId := localPeerId } : FloodSub).ListsNodup := fun _ _ hp => nomatch hp
  have hexec := fun cs : List ViewCall => exec_keyed cs { localPeerId := localPeerId }
  refine ⟨_, hexec cs, fun topic peer => lists_iff_history (hempty topic peer) (hexec cs),
    run_nodup hnodup (hexec cs), fun cs' h => ⟨_, hexec cs', fun topic => ?_⟩⟩
  have htopic : ((keyedView.after { localPeerId := localPeerId } cs').peerTopics topic).isSome ↔
      ((keyedView.after { localPeerId := localPeerId } cs).peerTopics topic).isSome := by
    rw [run_topic, run_topic]
    exact or_congr_right (exists_congr fun peer => mem_of_filter h _)
  exact rel_perm_of_mem htopic (run_nodup hnodup (hexec cs) topic)
    (run_nodup hnodup (hexec cs') topic) (lists_of_filter h { localPeerId := localPeerId } topic)

/-- The calls of two peers in two orders: both end up listed. -/
theorem view_last_write_swapped :
    ∃ fs fs', viewSystem.exec (fun _ _ => True) { localPeerId := "n" }
        [.subopts "a" "t" (some true), .subopts "b" "t" none, .subopts "b" "t" (some true)]
        = some fs ∧
      viewSystem.exec (fun _ _ => True) { localPeerId := "n" }
        [.subopts "b" "t" none, .subopts "b" "t" (some true), .subopts "a" "t" (some true)]
        = some fs' ∧
      Option.Rel List.Perm (fs.peerTopics "t") (fs'.peerTopics "t") := by
  obtain ⟨fs, hfs, -, -, hany⟩ := view_last_write "n"
    [.subopts "a" "t" (some true), .subopts "b" "t" none, .subopts "b" "t" (some true)]
  obtain ⟨fs', hfs', hperm⟩ := hany
    [.subopts "b" "t" none, .subopts "b" "t" (some true), .subopts "a" "t" (some true)] (by
      intro peer
      by_cases ha : "a" = peer
      · subst ha
        rfl
      · by_cases hb : "b" = peer
        · subst hb
          rfl
        · simp [ViewCall.peer, ha, hb])
  exact ⟨fs, fs', hfs, hfs', hperm "t"⟩

end Rnet.Floodsub
