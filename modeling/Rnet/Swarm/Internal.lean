import Rnet.Mplex.Queue
import Rnet.Swarm.Lifecycle
import Rnet.Udp.DialAck

/-!
# Frames and internal commands

The queue of a connection carries the frames for the wire and the commands of the node itself, and
a prefix tells them apart: `INTERNAL` in front of a frame. The write queue of the UDP transport
does the same with its packets. What stands on the queues is what the tasks of the node have
put there, whatever a peer sends and an application writes.

> `marker_tells_apart`: in every run, an item without the marker goes to the wire as it is, and one
> with the marker is handled with exactly the bytes behind it.

> `opens_locally_iff`: in every run, streams are opened as initiator by the node itself only,
> if and only if no frame of a peer reads as `NewStream` with the id 0.
-/

namespace Rnet.Swarm

open Rnet.Identity Rnet.Mplex Rnet.Lib
open Rnet.Lib.System (runUnder_of_exec)

section Queues

variable {κ φ : Type} (c : Codec κ φ)

/-! ## What one turn queues -/

/-- The `MplexConn` of connection `i`. -/
def SwarmInner.connAt (s : SwarmInner κ) (i : Nat) : Option (MplexConn κ) :=
  (s.tasks[i]?).map ConnTask.conn

/-- The connection made no stream, and its tasks or the swarm have put items on its queue; without
an old state, it has just been made. -/
structure Grown (old : Option (MplexConn κ)) (conn' : MplexConn κ) : Prop where
  streams : conn'.tasks.length = (old.map fun conn => conn.tasks.length).getD 0
  queue : ∃ q : List Item, conn'.mpsc = (old.map MplexConn.mpsc).getD [] ++ q.map c.make

/-- Every connection was there before. -/
def Kept (s s' : SwarmInner κ) : Prop :=
  ∀ i conn', s'.connAt i = some conn' → ∃ conn, s.connAt i = some conn ∧ Grown c (some conn) conn'

/-- Every connection was there before, or has just been made. -/
def GrownFrom (s s' : SwarmInner κ) : Prop :=
  ∀ i conn', s'.connAt i = some conn' → Grown c (s.connAt i) conn'

theorem Grown.refl (conn : MplexConn κ) : Grown c (some conn) conn :=
  ⟨rfl, [], (List.append_nil _).symm⟩

variable {c}

theorem Grown.trans {old : Option (MplexConn κ)} {conn conn' : MplexConn κ}
    (h : Grown c old conn) (h' : Grown c (some conn) conn') : Grown c old conn' := by
  obtain ⟨q, hq⟩ := h.queue
  obtain ⟨q', hq'⟩ := h'.queue
  refine ⟨h'.streams.trans h.streams, q ++ q', ?_⟩
  rw [hq', Option.map_some, Option.getD_some, hq, List.append_assoc, List.map_append]

theorem Kept.grown {s s' : SwarmInner κ} (h : Kept c s s') : GrownFrom c s s' := by
  intro i conn' hi
  obtain ⟨conn, hc, hg⟩ := h i conn' hi
  rw [hc]
  exact hg

theorem Kept.after {s s₁ s' : SwarmInner κ} (h : Kept c s₁ s') (h₁ : GrownFrom c s s₁) :
    GrownFrom c s s' := by
  intro i conn' hi
  obtain ⟨conn, hc, hg⟩ := h i conn' hi
  exact (h₁ i conn hc).trans hg

theorem Kept.of_tasks {s s' : SwarmInner κ} (h : s'.tasks = s.tasks) : Kept c s s' := by
  intro i conn' hi
  refine ⟨conn', ?_, Grown.refl c conn'⟩
  unfold SwarmInner.connAt at hi ⊢
  rwa [h] at hi

theorem connAt_setTask (s : SwarmInner κ) (i j : Nat) (t : ConnTask κ) {t₀ : ConnTask κ}
    (ht : s.tasks[i]? = some t₀) :
    (s.setTask i t).connAt j = if j = i then some t.conn else s.connAt j := by
  unfold SwarmInner.connAt SwarmInner.setTask
  obtain ⟨hi, -⟩ := List.getElem?_eq_some_iff.mp ht
  by_cases hj : j = i
  · rw [if_pos hj, hj, List.getElem?_set_self hi]
    rfl
  · rw [if_neg hj, List.getElem?_set_ne (fun h => hj h.symm)]

/-- One connection changes. -/
theorem Kept.setTask {s : SwarmInner κ} {i : Nat} {t t' : ConnTask κ} (ht : s.tasks[i]? = some t)
    (hg : Grown c (some t.conn) t'.conn) : Kept c s (s.setTask i t') := by
  intro j conn' hj
  rw [connAt_setTask s i j t' ht] at hj
  by_cases h : j = i
  · rw [if_pos h] at hj
    obtain rfl := Option.some.inj hj
    exact ⟨t.conn, by rw [h, SwarmInner.connAt, ht]; rfl, hg⟩
  · rw [if_neg h] at hj
    exact ⟨conn', hj, Grown.refl c conn'⟩

theorem Grown.send {conn conn' : MplexConn κ} {item : Item} (h : conn.send c item = some conn') :
    Grown c (some conn) conn' := by
  obtain rfl := send_shape h
  exact ⟨rfl, [item], rfl⟩

theorem Kept.sendTo {s s' : SwarmInner κ} {peer_id : String} {item : Item}
    (h : s.sendTo c peer_id item = some s') : Kept c s s' := by
  unfold SwarmInner.sendTo at h
  obtain ⟨i, -, h⟩ := Option.bind_eq_some_iff.mp h
  obtain ⟨t, ht, h⟩ := Option.bind_eq_some_iff.mp h
  obtain ⟨conn, hconn, h⟩ := Option.bind_eq_some_iff.mp h
  obtain rfl := Option.some.inj h
  exact Kept.setTask ht (Grown.send hconn)

theorem Kept.openStream (s : SwarmInner κ) (peer_id : String) (protocols : List Payload) :
    Kept c s (s.openStream c peer_id protocols) := by
  unfold SwarmInner.openStream
  cases protocols with
  | nil => exact Kept.of_tasks rfl
  | cons protocol rest =>
    dsimp only
    cases hs : s.sendTo c peer_id (.openStream protocol) with
    | none => exact Kept.of_tasks rfl
    | some s' => exact Kept.sendTo hs

theorem GrownFrom.connHandler (s : SwarmInner κ) (upgraded : Option PeerInfo) :
    GrownFrom c s (s.connHandler upgraded) := by
  cases upgraded with
  | none => exact (Kept.of_tasks rfl).grown
  | some remote =>
    intro i conn' hi
    unfold SwarmInner.connAt SwarmInner.connHandler at hi
    obtain ⟨t, ht, rfl⟩ := Option.map_eq_some_iff.mp hi
    dsimp only at ht
    by_cases hlt : i < s.tasks.length
    · rw [List.getElem?_append_left hlt] at ht
      rw [SwarmInner.connAt, ht]
      exact Grown.refl c t.conn
    · have hge := Nat.le_of_not_lt hlt
      rw [List.getElem?_append_right hge] at ht
      obtain rfl := List.mem_singleton.mp (List.mem_of_getElem? ht)
      rw [SwarmInner.connAt, List.getElem?_eq_none hge]
      exact ⟨rfl, [], rfl⟩

theorem GrownFrom.connect (s : SwarmInner κ) (addr : Multiaddr) (upgraded : Option PeerInfo) :
    GrownFrom c s (s.connect addr upgraded) := by
  rcases connect_cases s addr upgraded with he | ⟨-, he⟩ | ⟨remote, -, -, he⟩
  · rw [he]
    exact (Kept.of_tasks rfl).grown
  · rw [he]
    exact (Kept.of_tasks rfl).grown
  · rw [he]
    exact GrownFrom.connHandler s _

theorem GrownFrom.newStream (s : SwarmInner κ) (maddr : Multiaddr) (protocols : List Payload)
    (upgraded : Option PeerInfo) : GrownFrom c s (s.newStream c maddr protocols upgraded) := by
  unfold SwarmInner.newStream
  split
  · exact (Kept.of_tasks rfl).grown
  · split
    · exact (Kept.openStream s _ protocols).grown
    · exact (Kept.openStream _ _ protocols).after (GrownFrom.connect s maddr upgraded)

theorem Kept.onDisconnect (s : SwarmInner κ) (peer_id : String) :
    Kept c s (s.onDisconnect c peer_id) := by
  unfold SwarmInner.onDisconnect
  split
  · exact Kept.of_tasks rfl
  · rename_i info hinfo
    dsimp only
    split
    · exact Kept.of_tasks rfl
    · rename_i s₁ hs
      split at hs
      · have hkept := Kept.sendTo hs
        exact fun i conn' hi => hkept i conn' hi
      · obtain rfl := Option.some.inj hs
        exact Kept.of_tasks rfl

/-- What one turn does to the connections: a turn of `conn_handler` of one of them, or something
that makes no stream. -/
inductive ConnTurn (c : Codec κ φ) (s s' : SwarmInner κ) (a : SwarmAct φ) : Prop
  | grown (h : GrownFrom c s s')
  | queue (i : Nat) (written : Bool) (t t' : ConnTask κ) (conn : MplexConn κ) (w : Option φ)
      (ha : a = .recvQueue i written) (ht : s.tasks[i]? = some t)
      (hrec : t.conn.recvQueue c = some (conn, w))
      (hconn : t'.conn.tasks = conn.tasks ∧ t'.conn.mpsc = conn.mpsc) (hs : s' = s.setTask i t')
  | raw (i : Nat) (frames : φ) (t t' : ConnTask κ) (ha : a = .recvRaw i frames)
      (ht : s.looping i = some t) (hrec : t.conn.recvRaw c frames = some t'.conn)
      (hs : s' = s.setTask i t')

/-- A task queues an item on its own connection. -/
theorem ConnTurn.of_send {s : SwarmInner κ} {a : SwarmAct φ} {i : Nat} {t t' : ConnTask κ}
    {conn : MplexConn κ} {item : Item} (ht : s.tasks[i]? = some t)
    (hsend : t.conn.send c item = some conn) (htasks : t'.conn.tasks = conn.tasks)
    (hmpsc : t'.conn.mpsc = conn.mpsc) : ConnTurn c s (s.setTask i t') a := by
  have hg := Grown.send hsend
  refine .grown (Kept.setTask ht ⟨?_, ?_⟩).grown
  · rw [htasks]
    exact hg.streams
  · rw [hmpsc]
    exact hg.queue

/-- A task changes neither its streams nor its queue. -/
theorem ConnTurn.of_rest {s s' : SwarmInner κ} {a : SwarmAct φ} {i : Nat} {t : ConnTask κ}
    (t' : ConnTask κ) (ht : s.tasks[i]? = some t) (htasks : t'.conn.tasks = t.conn.tasks)
    (hmpsc : t'.conn.mpsc = t.conn.mpsc) (hs : s'.tasks = (s.setTask i t').tasks) :
    ConnTurn c s s' a := by
  have hkept : Kept c s (s.setTask i t') := by
    refine Kept.setTask ht ⟨congrArg List.length htasks, [], ?_⟩
    rw [hmpsc]
    exact (List.append_nil _).symm
  exact .grown ((Kept.of_tasks hs).after hkept.grown)

/-- **Every turn** is one of them. -/
theorem step_conns {s s' : SwarmInner κ} {a : SwarmAct φ} (h : s.step c a = some s') :
    ConnTurn c s s' a := by
  cases a with
  | accept upgraded =>
    simp only [SwarmInner.step] at h
    split at h
    · obtain rfl := Option.some.inj h
      exact .grown (GrownFrom.connHandler s upgraded)
    · simp at h
  | next upgraded =>
    simp only [SwarmInner.step] at h
    cases hc : s.commands with
    | nil =>
      rw [hc] at h
      simp at h
    | cons command rest =>
      rw [hc] at h
      obtain rfl := Option.some.inj h
      refine .grown ?_
      cases command with
      | connect maddr => exact GrownFrom.connect { s with commands := rest } maddr upgraded
      | newStream maddr protocols =>
        exact GrownFrom.newStream { s with commands := rest } maddr protocols upgraded
      | disconnect peer_id origin =>
        exact (Kept.onDisconnect { s with commands := rest } peer_id).grown
  | request command =>
    simp only [SwarmInner.step] at h
    split at h
    · obtain rfl := Option.some.inj h
      exact .grown (Kept.of_tasks rfl).grown
    · simp at h
  | recvQueue i written =>
    obtain ⟨t, ht, h⟩ := Option.bind_eq_some_iff.mp h
    obtain ⟨⟨conn, frames⟩, hq, h⟩ := Option.bind_eq_some_iff.mp h
    obtain rfl := Option.some.inj h
    exact .queue i written t _ conn frames rfl (of_looping ht).1 hq ⟨rfl, rfl⟩ rfl
  | recvRaw i frames =>
    obtain ⟨t, ht, h⟩ := Option.bind_eq_some_iff.mp h
    obtain ⟨conn, hq, h⟩ := Option.bind_eq_some_iff.mp h
    obtain rfl := Option.some.inj h
    exact .raw i frames t _ rfl ht hq rfl
  | rawError i =>
    obtain ⟨t, ht, h⟩ := Option.bind_eq_some_iff.mp h
    have hget := (of_looping ht).1
    split at h
    · obtain rfl := Option.some.inj h
      exact .of_rest { t with left := true, notices := t.notices + 1 } hget rfl rfl rfl
    · obtain rfl := Option.some.inj h
      exact .of_rest { t with conn := { t.conn with running := false } } hget rfl rfl rfl
  | rawPanic i =>
    obtain ⟨t, ht, h⟩ := Option.bind_eq_some_iff.mp h
    obtain rfl := Option.some.inj h
    exact .of_rest { t with conn := { t.conn with running := false } } (of_looping ht).1 rfl rfl rfl
  | drop i =>
    obtain ⟨t, ht, h⟩ := Option.bind_eq_some_iff.mp h
    split at h
    · obtain rfl := Option.some.inj h
      exact .of_rest { t with conn := { t.conn with running := false } } ht rfl rfl rfl
    · simp at h
  | stream i j b =>
    obtain ⟨t, ht, h⟩ := Option.bind_eq_some_iff.mp h
    obtain ⟨conn, hconn, h⟩ := Option.bind_eq_some_iff.mp h
    obtain rfl := Option.some.inj h
    obtain ⟨⟨-, hlen⟩, q, hq, -⟩ := taskStep_shape hconn
    have hkept : Kept c s (s.setTask i { t with conn := conn }) :=
      Kept.setTask ht ⟨hlen, q, hq⟩
    exact .grown hkept.grown
  | liveliness i =>
    obtain ⟨t, ht, h⟩ := Option.bind_eq_some_iff.mp h
    obtain ⟨-, -, h⟩ := Option.bind_eq_some_iff.mp h
    obtain ⟨conn, hconn, h⟩ := Option.bind_eq_some_iff.mp h
    obtain rfl := Option.some.inj h
    exact .of_send ht hconn rfl rfl
  | pingTimeout i =>
    obtain ⟨t, ht, h⟩ := Option.bind_eq_some_iff.mp h
    obtain ⟨-, -, h⟩ := Option.bind_eq_some_iff.mp h
    obtain ⟨conn, hconn, h⟩ := Option.bind_eq_some_iff.mp h
    obtain rfl := Option.some.inj h
    exact .of_send ht hconn rfl rfl

/-! ## What a frame does -/

/-- The streams that a connection has made since. -/
def opened (old : Option (MplexConn κ)) (conn' : MplexConn κ) : List MplexStream :=
  conn'.tasks.drop ((old.map fun conn => conn.tasks.length).getD 0)

/-- The connection made no stream as initiator, moved the counter to the id of a stream of the peer
at most, and announced nothing. -/
structure Passive (conn conn' : MplexConn κ) : Prop where
  streams : ∀ t ∈ opened (some conn) conn', t.isInitiator = false
  counter : conn'.streamCounter = conn.streamCounter ∨
    ∃ t ∈ opened (some conn) conn', conn'.streamCounter = t.streamId
  queue : conn'.mpsc = conn.mpsc

variable (c) in
/-- `conn'` is what `conn_handler` makes of `conn` when it handles these bytes locally. -/
def HandledWith (conn conn' : MplexConn κ) (frames : φ) : Prop :=
  match conn.handleIncoming c frames with
  | .error _ => conn' = { conn with running := false }
  | .ok (next, true) => conn' = next
  | .ok (next, false) => conn' = { next with running := false }

theorem opened_nil (old : Option (MplexConn κ)) {conn' : MplexConn κ}
    (h : conn'.tasks.length = (old.map fun conn => conn.tasks.length).getD 0) :
    opened old conn' = [] := by
  unfold opened
  rw [← h, List.drop_length]

/-- Nothing was made, and nothing queued. -/
theorem Passive.of_same {conn conn' : MplexConn κ}
    (hlen : conn'.tasks.length = conn.tasks.length)
    (hcount : conn'.streamCounter = conn.streamCounter) (hq : conn'.mpsc = conn.mpsc) :
    Passive conn conn' := by
  refine ⟨fun t ht => ?_, Or.inl hcount, hq⟩
  rw [opened_nil (some conn) hlen] at ht
  simp at ht

theorem putChannel_passive {conn conn' : MplexConn κ} {stream_id : UInt32} {payload : Payload}
    (h : conn.putChannel stream_id payload = .ok conn') : Passive conn conn' := by
  unfold MplexConn.putChannel at h
  split at h
  · obtain rfl := Except.ok.inj h
    exact .of_same rfl rfl rfl
  · split at h
    · simp at h
    · split at h
      · simp at h
      · obtain rfl := Except.ok.inj h
        exact .of_same List.length_set rfl rfl

/-- **What a frame does**: only a `NewStream` frame with the id 0 opens a stream as initiator. -/
theorem handleIncoming_passive {conn conn' : MplexConn κ} {frames : φ} {go : Bool}
    (h : conn.handleIncoming c frames = .ok (conn', go)) :
    (∃ payload, c.parse frames = .ok (0, .newStream, payload) ∧ conn' = conn.openLocal c payload) ∨
      ((∀ payload, c.parse frames ≠ .ok (0, .newStream, payload)) ∧ Passive conn conn') := by
  unfold MplexConn.handleIncoming at h
  rcases hp : c.parse frames with e | ⟨stream_id, flag, payload⟩
  · rw [hp] at h
    simp at h
  rw [hp] at h
  dsimp only at h
  cases flag with
  | newStream =>
    unfold MplexConn.handleFlag at h
    dsimp only at h
    by_cases h0 : stream_id = 0
    · rw [if_pos h0] at h
      obtain ⟨rfl, -⟩ := Prod.mk.inj (Except.ok.inj h)
      exact Or.inl ⟨payload, by rw [h0], rfl⟩
    · -- the announcement of the peer is adopted
      rw [if_neg h0] at h
      obtain ⟨rfl, -⟩ := Prod.mk.inj (Except.ok.inj h)
      have hopened : opened (some conn) (conn.openRemote stream_id) =
          [{ streamId := stream_id, isInitiator := false, proto := none }] := List.drop_left
      refine Or.inr ⟨fun p hp' => h0 (by injection hp' with hp'; injection hp'), ?_, Or.inr ?_, rfl⟩
      · rw [hopened]
        intro t ht
        rw [List.mem_singleton.mp ht]
      · rw [hopened]
        exact ⟨_, List.mem_singleton_self _, rfl⟩
  | message | handshakeReq | handshakeRes =>
    refine Or.inr ⟨fun p hp' => by simp at hp', ?_⟩
    unfold MplexConn.handleFlag at h
    dsimp only at h
    split at h
    · simp at h
    · rename_i hput
      obtain ⟨rfl, -⟩ := Prod.mk.inj (Except.ok.inj h)
      exact putChannel_passive hput
  | closeStream | disconnected =>
    refine Or.inr ⟨fun p hp' => by simp at hp', ?_⟩
    obtain ⟨rfl, -⟩ := Prod.mk.inj (Except.ok.inj h)
    exact .of_same rfl rfl rfl
  | liveliness =>
    refine Or.inr ⟨fun p hp' => by simp at hp', ?_⟩
    unfold MplexConn.handleFlag at h
    dsimp only at h
    split at h
    · simp at h
    · obtain ⟨rfl, -⟩ := Prod.mk.inj (Except.ok.inj h)
      exact .of_same rfl rfl rfl

/-- A stream that a connection opens itself is one of an initiator. -/
theorem openLocal_opened (conn : MplexConn κ) (payload : Payload) :
    ∃ t ∈ opened (some conn) (conn.openLocal c payload), t.isInitiator = true := by
  have hopened : opened (some conn) (conn.openLocal c payload) =
      [{ streamId := conn.streamCounter + 1, isInitiator := true, proto := some payload }] :=
    List.drop_left
  rw [hopened]
  exact ⟨_, List.mem_singleton_self _, rfl⟩

/-- `handle_incoming` queues announcements only. -/
theorem handleIncoming_made {conn conn' : MplexConn κ} {frames : φ} {go : Bool}
    (h : conn.handleIncoming c frames = .ok (conn', go)) :
    ∃ q : List Item, conn'.mpsc = conn.mpsc ++ q.map c.make := by
  rcases handleIncoming_passive h with ⟨payload, -, rfl⟩ | ⟨-, hpass⟩
  · exact ⟨[.announce (conn.streamCounter + 1)], rfl⟩
  · exact ⟨[], by rw [hpass.queue, List.map_nil, List.append_nil]⟩

/-- **A frame of the peer** is handled passively exactly if it is no `NewStream` with the id 0. -/
theorem recvRaw_passive_iff {conn conn' : MplexConn κ} {frames : φ}
    (h : conn.recvRaw c frames = some conn') :
    Passive conn conn' ↔ ∀ payload, c.parse frames ≠ .ok (0, .newStream, payload) := by
  unfold MplexConn.recvRaw at h
  split at h
  swap
  · simp at h
  split at h
  · -- the frame fails: `conn_handler` panics
    rename_i e he
    obtain rfl := Option.some.inj h
    refine iff_of_true (.of_same rfl rfl rfl) fun payload hp => ?_
    unfold MplexConn.handleIncoming at he
    rw [hp] at he
    simp [MplexConn.handleFlag] at he
  · rename_i next go hh
    obtain rfl := Option.some.inj h
    rcases handleIncoming_passive hh with ⟨payload, hp, rfl⟩ | ⟨hno, hpass⟩
    · refine iff_of_false (fun hpass => ?_) fun hno => hno payload hp
      obtain ⟨t, ht, hinit⟩ := openLocal_opened (c := c) conn payload
      rw [hpass.streams t ht] at hinit
      simp at hinit
    · exact iff_of_true hpass hno

/-- An item of the queue that is written leaves the connection alone. -/
theorem recvQueue_wire {conn : MplexConn κ} {data : κ} {rest : List κ} {frame : φ}
    (hrun : conn.running = true) (hq : conn.mpsc = data :: rest) (hr : c.route data = .inr frame) :
    conn.recvQueue c = some ({ conn with mpsc := rest }, some frame) := by
  unfold MplexConn.recvQueue
  rw [if_pos hrun, hq]
  dsimp only
  rw [hr]

/-- An item of the queue with the marker is handled with what is behind the marker. -/
theorem recvQueue_local {conn : MplexConn κ} {data : κ} {rest : List κ} {frames : φ}
    (hrun : conn.running = true) (hq : conn.mpsc = data :: rest) (hr : c.route data = .inl frames) :
    ∃ conn', conn.recvQueue c = some (conn', none) ∧
      HandledWith c { conn with mpsc := rest } conn' frames := by
  unfold MplexConn.recvQueue HandledWith
  rw [if_pos hrun, hq]
  dsimp only
  rw [hr]
  dsimp only
  rcases MplexConn.handleIncoming c { conn with mpsc := rest } frames with e | ⟨next, go⟩
  · exact ⟨_, rfl, rfl⟩
  · cases go with
    | true => exact ⟨_, rfl, rfl⟩
    | false => exact ⟨_, rfl, rfl⟩

/-- What an item of the queue turns into: it is gone, and what is behind the others is an
announcement. -/
theorem recvQueue_made {conn conn' : MplexConn κ} {w : Option φ}
    (h : conn.recvQueue c = some (conn', w)) :
    ∃ data rest, conn.mpsc = data :: rest ∧
      (∃ q : List Item, conn'.mpsc = rest ++ q.map c.make) ∧
      ((∃ t ∈ opened (some conn) conn', t.isInitiator = true) →
        ∃ frames payload, c.route data = .inl frames ∧
          c.parse frames = .ok (0, .newStream, payload)) := by
  have hrun : conn.running = true := by
    unfold MplexConn.recvQueue at h
    split at h
    · assumption
    · simp at h
  cases hq : conn.mpsc with
  | nil =>
    unfold MplexConn.recvQueue at h
    rw [if_pos hrun, hq] at h
    simp at h
  | cons data rest =>
    refine ⟨data, rest, rfl, ?_⟩
    have quiet : conn'.tasks.length = conn.tasks.length →
        (∃ t ∈ opened (some conn) conn', t.isInitiator = true) →
        ∃ frames payload, c.route data = .inl frames ∧
          c.parse frames = .ok (0, .newStream, payload) := by
      intro hlen h
      obtain ⟨t, ht, -⟩ := h
      rw [opened_nil (some conn) hlen] at ht
      simp at ht
    rcases hr : c.route data with frames | frame
    · obtain ⟨conn₁, h₁, hh⟩ := recvQueue_local hrun hq hr
      rw [h₁] at h
      obtain ⟨rfl, -⟩ := Prod.mk.inj (Option.some.inj h)
      -- whether the loop goes on after the command makes no difference to streams and queue
      have handled : ∀ {next : MplexConn κ} {go : Bool},
          MplexConn.handleIncoming c { conn with mpsc := rest } frames = .ok (next, go) →
          conn₁.tasks = next.tasks → conn₁.mpsc = next.mpsc →
          (∃ q : List Item, conn₁.mpsc = rest ++ q.map c.make) ∧
          ((∃ t ∈ opened (some conn) conn₁, t.isInitiator = true) →
            ∃ frames' payload, Sum.inl (β := φ) frames = .inl frames' ∧
              c.parse frames' = .ok (0, .newStream, payload)) := by
        intro next go hin htasks hmpsc
        refine ⟨hmpsc ▸ handleIncoming_made hin, fun ⟨t, ht, hinit⟩ => ⟨frames, ?_⟩⟩
        rcases handleIncoming_passive hin with ⟨payload, hp, -⟩ | ⟨-, hpass⟩
        · exact ⟨payload, rfl, hp⟩
        · unfold opened at ht
          rw [htasks] at ht
          rw [hpass.streams t ht] at hinit
          simp at hinit
      unfold HandledWith at hh
      split at hh
      · subst hh
        exact ⟨⟨[], (List.append_nil _).symm⟩, hr ▸ quiet rfl⟩
      · rename_i next hin
        subst hh
        exact handled hin rfl rfl
      · rename_i next hin
        subst hh
        exact handled hin rfl rfl
    · rw [recvQueue_wire hrun hq hr] at h
      obtain ⟨rfl, -⟩ := Prod.mk.inj (Option.some.inj h)
      exact ⟨⟨[], (List.append_nil _).symm⟩, hr ▸ quiet rfl⟩

/-! ## What stands on the queues -/

variable (c) in
/-- Everything on a queue has been put there by the tasks of the node. -/
def QueueInv (s : SwarmInner κ) : Prop :=
  ∀ i conn, s.connAt i = some conn → ∃ q : List Item, conn.mpsc = q.map c.make

theorem QueueInv.setTask {s : SwarmInner κ} {i : Nat} {t t' : ConnTask κ} (h : QueueInv c s)
    (ht : s.tasks[i]? = some t) (hq : ∃ q : List Item, t'.conn.mpsc = q.map c.make) :
    QueueInv c (s.setTask i t') := by
  intro j conn hj
  rw [connAt_setTask s i j t' ht] at hj
  by_cases hji : j = i
  · rw [if_pos hji] at hj
    obtain rfl := Option.some.inj hj
    exact hq
  · rw [if_neg hji] at hj
    exact h j conn hj

theorem connAt_of_task {s : SwarmInner κ} {i : Nat} {t : ConnTask κ} (ht : s.tasks[i]? = some t) :
    s.connAt i = some t.conn := by
  unfold SwarmInner.connAt
  rw [ht]
  rfl

/-- The turn in which `conn_handler` reads a frame of the peer. -/
theorem recvRaw_turn {s s' : SwarmInner κ} {i : Nat} {frames : φ}
    (hs : s.step c (.recvRaw i frames) = some s') :
    ∃ conn conn', s.connAt i = some conn ∧ s'.connAt i = some conn' ∧
      (Passive conn conn' ↔ ∀ payload, c.parse frames ≠ .ok (0, .newStream, payload)) := by
  obtain ⟨t, ht, hs⟩ := Option.bind_eq_some_iff.mp hs
  obtain ⟨conn', hrec, hs⟩ := Option.bind_eq_some_iff.mp hs
  obtain rfl := Option.some.inj hs
  have hget := (of_looping ht).1
  refine ⟨t.conn, conn', connAt_of_task hget, ?_, recvRaw_passive_iff hrec⟩
  rw [connAt_setTask s i i _ hget, if_pos rfl]

/-- **One turn** keeps it. -/
theorem QueueInv.step {s s' : SwarmInner κ} {a : SwarmAct φ} (h : QueueInv c s)
    (hs : s.step c a = some s') : QueueInv c s' := by
  cases step_conns hs with
  | grown hg =>
    intro i conn' hi
    obtain ⟨q, hq⟩ := (hg i conn' hi).queue
    cases hc : s.connAt i with
    | none =>
      rw [hc] at hq
      exact ⟨q, hq⟩
    | some conn =>
      obtain ⟨q₀, hq₀⟩ := h i conn hc
      rw [hc, Option.map_some, Option.getD_some, hq₀, ← List.map_append] at hq
      exact ⟨_, hq⟩
  | queue i written t t' conn w _ ht hrec hconn he =>
    obtain ⟨data, rest, hm, ⟨q, hq⟩, -⟩ := recvQueue_made hrec
    obtain ⟨q₀, hq₀⟩ := h i t.conn (connAt_of_task ht)
    rw [he]
    refine h.setTask ht ⟨q₀.tail ++ q, ?_⟩
    rw [hconn.2, hq, List.map_append, List.map_tail, ← hq₀, hm, List.tail_cons]
  | raw i frames t t' _ ht hrec he =>
    have hget := (of_looping ht).1
    obtain ⟨q₀, hq₀⟩ := h i t.conn (connAt_of_task hget)
    rw [he]
    refine h.setTask hget ?_
    unfold MplexConn.recvRaw at hrec
    split at hrec
    swap
    · simp at hrec
    split at hrec
    · obtain hconn := Option.some.inj hrec
      exact ⟨q₀, hconn ▸ hq₀⟩
    · rename_i next go hh
      obtain hconn := Option.some.inj hrec
      obtain ⟨q, hq⟩ := handleIncoming_made hh
      exact ⟨q₀ ++ q, by rw [← hconn, hq, hq₀, List.map_append]⟩

theorem QueueInv.init {s : SwarmInner κ} (h : (swarm c).init s) : QueueInv c s := by
  obtain ⟨pingCheckOpt, handlers, rfl⟩ := h
  intro i conn hi
  simp [SwarmInner.connAt] at hi

end Queues

/-! ## The marker -/

section Marker

variable (V : UnsignedVarint)

/-- A frame that a task queues for the wire is not taken for a command. -/
theorem route_wire {item : Item} (h : item.isInternal = false) :
    (bytesCodec V).route (item.bytes V) = .inr (item.bytes V) := by
  have hroute := (bytesHom V).route item
  rw [show frameCodec.route item = .inr item.frame by simp [frameCodec, h]] at hroute
  refine hroute.trans (congrArg Sum.inr ?_)
  rw [Item.bytes, h]
  rfl

/-- A command that a task queues is recognised, and the marker stripped. -/
theorem route_command {item : Item} (h : item.isInternal = true) :
    (bytesCodec V).route (item.bytes V) = .inl (item.frame.bytes V) := by
  have hroute := (bytesHom V).route item
  rw [show frameCodec.route item = .inl item.frame by simp [frameCodec, h]] at hroute
  exact hroute

/-- What is behind the marker reads as the frame it was made from. -/
theorem parse_frame (item : Item) : (bytesCodec V).parse (item.frame.bytes V) =
    .ok (wireId item.frame.id, item.frame.flag, item.frame.payload) :=
  (bytesHom V).parse item.frame

/-- **Frames and commands** on the queues of a node. An item of the queue of a connection is one
that a task put there: if it has no marker, `conn_handler` writes it as it is; if it has one,
`conn_handler` handles exactly the bytes behind it. So it is with the packets of `io_loop`. -/
theorem marker_tells_apart (Addr : Type) [DecidableEq Addr] :
    (∀ as s, (swarm (bytesCodec V)).Run as s → ∀ i conn data rest, s.connAt i = some conn →
      conn.running = true → conn.mpsc = data :: rest →
      (∃ item : Item, data = item.bytes V) ∧
      ∀ item : Item, data = item.bytes V →
        (item.isInternal = false → conn.recvQueue (bytesCodec V) =
          some ({ conn with mpsc := rest }, some (item.frame.bytes V))) ∧
        (item.isInternal = true → data = INTERNAL ++ item.frame.bytes V ∧
          ∃ conn', conn.recvQueue (bytesCodec V) = some (conn', none) ∧
            HandledWith (bytesCodec V) { conn with mpsc := rest } conn' (item.frame.bytes V))) ∧
    ∀ localPeerId as (s : Udp.UdpTransport Addr), (Udp.udp Addr localPeerId).Run as s →
      s.running = true → s.stands = .select → ∀ socket frame rest,
      s.writeReq = (socket, frame) :: rest →
      (∃ payload flag, frame = Udp.serializeUdpPacket payload flag ∨
        frame = Udp.INTERNAL ++ Udp.serializeUdpPacket payload flag) ∧
      ∀ payload flag,
        (frame = Udp.serializeUdpPacket payload flag →
          s.sentTo socket (.writeReq true) = [frame] ∧
          s.step (.writeReq true) = some { s with writeReq := rest }) ∧
        (frame = Udp.INTERNAL ++ Udp.serializeUdpPacket payload flag →
          s.sentTo socket (.writeReq true) = [] ∧
          s.step (.writeReq true) = some (Udp.UdpTransport.handleIncoming
            { s with writeReq := rest } (Udp.serializeUdpPacket payload flag) socket)) := by
  constructor
  · intro as s h i conn data rest hi hrun hq
    have hinv : QueueInv (bytesCodec V) s :=
      h.invariant (QueueInv (bytesCodec V)) (fun _ => QueueInv.init) fun _ _ _ hI _ hs => hI.step hs
    obtain ⟨q, hmade⟩ := hinv i conn hi
    refine ⟨?_, fun item hdata => ⟨fun hwire => ?_, fun hcommand => ?_⟩⟩
    · cases q with
      | nil =>
        rw [hmade] at hq
        simp at hq
      | cons item q =>
        rw [hmade, List.map_cons] at hq
        exact ⟨item, (List.cons.inj hq).1.symm⟩
    · have hroute := route_wire V hwire
      rw [← hdata] at hroute
      rw [recvQueue_wire hrun hq hroute, hdata]
      simp [Item.bytes, hwire]
    · refine ⟨by rw [hdata, Item.bytes, if_pos hcommand], ?_⟩
      have hroute := route_command V hcommand
      rw [← hdata] at hroute
      exact recvQueue_local hrun hq hroute
  · intro localPeerId as s h hrun hst socket frame rest hq
    have hframes : ∀ e ∈ s.writeReq, Udp.Outgoing e.2 :=
      h.invariant (fun s => ∀ e ∈ s.writeReq, Udp.Outgoing e.2)
        (fun _ hi => (Udp.UdpTransport.Wf.init hi).frames)
        fun _ _ _ hI _ hs => Udp.UdpTransport.step_frames hI hs
    refine ⟨?_, fun payload flag => ⟨fun hpacket => ?_, fun hcommand => ?_⟩⟩
    · rcases hframes (socket, frame) (by rw [hq]; exact List.mem_cons_self ..) with
        ⟨payload, flag, -, hf⟩ | hf
      · exact ⟨payload, flag, Or.inl hf⟩
      · exact ⟨_, _, Or.inr hf⟩
    · have hno : Udp.INTERNAL.isPrefixOf frame = false := by
        rw [hpacket]
        exact Udp.serialize_not_internal payload flag
      constructor
      · simp [Udp.UdpTransport.sentTo, hq, hno]
      · simp [Udp.UdpTransport.step, hrun, hst, hq, hno]
    · have hyes : Udp.INTERNAL.isPrefixOf frame = true := by
        rw [hcommand, List.isPrefixOf_iff_prefix]
        exact List.prefix_append ..
      constructor
      · simp [Udp.UdpTransport.sentTo, hq, hyes]
      · simp only [Udp.UdpTransport.step, hrun, hst, hq, hyes, and_self, if_true]
        rw [hcommand, List.drop_left]

/-- The liveliness frame of a connection goes to the peer, and the `Disconnected` frame of its
liveliness check does not. -/
theorem liveliness_enabled :
    ((swarm (bytesCodec leb128)).exec (fun _ _ => True) freshSwarm
      [.accept (some udpPeer), .liveliness 0, .pingTimeout 0]).any (fun s =>
        (s.connAt 0).any fun conn => conn.running && decide (conn.mpsc =
          [Item.bytes leb128 .liveliness, Item.bytes leb128 (.disconnect disconnectedPayload)]))
      = true := by
  decide +kernel

/-- A transport that has dialed socket 7. -/
theorem dial_enabled :
    ((Udp.udp Nat "a").exec (fun _ _ => True) { localPeerId := "a" } [.dial 7]).any (fun s =>
      s.running && decide (s.stands = .select) &&
        decide (s.writeReq = [(7, Udp.serializeUdpPacket (toUtf8 "a") .connect)])) = true := by
  decide +kernel

theorem marker_tells_apart_liveliness :
    (∃ s conn rest, (swarm (bytesCodec leb128)).Run
        [.accept (some udpPeer), .liveliness 0, .pingTimeout 0] s ∧ s.connAt 0 = some conn ∧
      conn.recvQueue (bytesCodec leb128) =
        some ({ conn with mpsc := rest }, some ((Item.frame .liveliness).bytes leb128))) ∧
    ∃ s, (Udp.udp Nat "a").Run [.dial 7] s ∧
      s.sentTo 7 (.writeReq true) = [Udp.serializeUdpPacket (toUtf8 "a") .connect] := by
  constructor
  · obtain ⟨s, hs, hq⟩ := (Option.any_eq_true ..).mp liveliness_enabled
    obtain ⟨conn, hc, hq⟩ := (Option.any_eq_true ..).mp hq
    obtain ⟨hrun, hq⟩ := Bool.and_eq_true_iff.mp hq
    have hr : (swarm (bytesCodec leb128)).Run _ s := runUnder_of_exec ⟨true, [], rfl⟩ hs
    exact ⟨s, conn, _, hr, hc,
      (((marker_tells_apart leb128 Nat).1 _ s hr 0 conn _ _ hc hrun
        (of_decide_eq_true hq)).2 .liveliness rfl).1 rfl⟩
  · obtain ⟨s, hs, hq⟩ := (Option.any_eq_true ..).mp dial_enabled
    obtain ⟨hq, hw⟩ := Bool.and_eq_true_iff.mp hq
    obtain ⟨hrun, hst⟩ := Bool.and_eq_true_iff.mp hq
    have hr : (Udp.udp Nat "a").Run _ s := runUnder_of_exec rfl hs
    exact ⟨s, hr, ((((marker_tells_apart leb128 Nat).2 "a" _ s hr hrun (of_decide_eq_true hst) 7 _ _
      (of_decide_eq_true hw)).2 (toUtf8 "a") .connect).1 rfl).1⟩

end Marker

/-! ## Streams of an initiator -/

section Initiator

variable (V : UnsignedVarint)

/-- The turn opens streams as initiator for a command of the node only:
- a frame of the peer opens none, and neither moves the counter for one nor announces one;
- whatever opens one is the turn in which `conn_handler` takes a `NewStream` frame with the marker
  off its queue. -/
def OpensLocally (s : SwarmInner (List UInt8)) (a : SwarmAct (List UInt8)) : Prop :=
  ∀ s' i conn', s.step (bytesCodec V) a = some s' → s'.connAt i = some conn' →
    (∀ frames conn, a = .recvRaw i frames → s.connAt i = some conn → Passive conn conn') ∧
    ((∃ t ∈ opened (s.connAt i) conn', t.isInitiator = true) →
      ∃ (written : Bool) (payload : Payload) (rest : List (List UInt8)) (conn : MplexConn _),
        a = .recvQueue i written ∧ s.connAt i = some conn ∧
        conn.mpsc = (INTERNAL ++ buildFrame V 0 .newStream payload.val) :: rest)

/-- A frame read from the peer is no `NewStream` with the id 0. -/
def NoZeroId (_ : SwarmInner (List UInt8)) : SwarmAct (List UInt8) → Prop
  | .recvRaw _ frames => ∀ payload, extractPayload V frames ≠ .ok (0, .newStream, payload)
  | _ => True

variable {V}

/-- A turn that opens streams for commands of the node only reads no such frame. -/
theorem noZeroId_of_opensLocally {s s' : SwarmInner (List UInt8)} {a : SwarmAct (List UInt8)}
    (hs : s.step (bytesCodec V) a = some s') (h : OpensLocally V s a) : NoZeroId V s a := by
  cases a with
  | recvRaw i frames =>
    obtain ⟨conn, conn', hc, hi, hpass⟩ := recvRaw_turn hs
    exact hpass.mp ((h s' i conn' hs hi).1 frames conn rfl hc)
  | accept | next | request | recvQueue | rawError | rawPanic | drop | stream | liveliness
  | pingTimeout => trivial

/-- The command that opened a stream. -/
theorem command_of_newStream {data frames : List UInt8} {payload : Payload} {item : Item}
    (hdata : data = item.bytes V) (hr : (bytesCodec V).route data = .inl frames)
    (hp : (bytesCodec V).parse frames = .ok (0, .newStream, payload)) :
    ∃ payload : Payload, data = INTERNAL ++ buildFrame V 0 .newStream payload.val := by
  cases hint : item.isInternal with
  | false =>
    rw [hdata, route_wire V hint] at hr
    simp at hr
  | true =>
    rw [hdata, route_command V hint] at hr
    obtain rfl := Sum.inl.inj hr
    rw [parse_frame] at hp
    have hflag : item.frame.flag = .newStream := by
      injection hp with hp
      exact (Prod.mk.inj (Prod.mk.inj hp).2).1
    cases item with
    | openStream p => exact ⟨p, hdata⟩
    | announce | handshakeReq | handshakeRes | message | liveliness =>
      simp [Item.isInternal] at hint
    | closeStream | disconnect => simp [Item.frame] at hflag

/-- **One turn** that reads no such frame opens streams for commands of the node only. -/
theorem opensLocally_of_noZeroId {s : SwarmInner (List UInt8)} {a : SwarmAct (List UInt8)}
    (hinv : QueueInv (bytesCodec V) s) (h : NoZeroId V s a) : OpensLocally V s a := by
  intro s' i conn' hs hi
  have hraw : ∀ frames conn, a = .recvRaw i frames → s.connAt i = some conn →
      Passive conn conn' := by
    intro frames conn h hc
    subst h
    obtain ⟨conn₀, conn₁, hc₀, hi₁, hpass⟩ := recvRaw_turn hs
    obtain rfl := Option.some.inj (hc₀.symm.trans hc)
    obtain rfl := Option.some.inj (hi₁.symm.trans hi)
    exact hpass.mpr h
  refine ⟨hraw, fun ⟨t₁, ht₁, hinit⟩ => ?_⟩
  have hgrown : ¬ Grown (bytesCodec V) (s.connAt i) conn' := by
    intro hg
    rw [opened_nil _ hg.streams] at ht₁
    simp at ht₁
  cases step_conns hs with
  | grown hg => exact absurd (hg i conn' hi) hgrown
  | queue j written t t' conn w ha ht hrec hconn he =>
    rw [he, connAt_setTask s j i t' ht] at hi
    by_cases hij : i = j
    swap
    · rw [if_neg hij] at hi
      exact absurd (hi ▸ Grown.refl _ conn') hgrown
    subst hij
    rw [if_pos rfl] at hi
    obtain rfl := Option.some.inj hi
    rw [connAt_of_task ht, opened, hconn.1] at ht₁
    obtain ⟨data, rest, hm, -, hcommand⟩ := recvQueue_made hrec
    obtain ⟨frames, payload, hr, hp⟩ := hcommand ⟨t₁, ht₁, hinit⟩
    -- what stood at the head of the queue was put there by a task of the node
    obtain ⟨q, hq⟩ := hinv i t.conn (connAt_of_task ht)
    cases q with
    | nil =>
      rw [hq] at hm
      simp at hm
    | cons item q =>
      rw [hq, List.map_cons] at hm
      obtain ⟨payload, hcmd⟩ := command_of_newStream (List.cons.inj hm).1.symm hr hp
      refine ⟨written, payload, rest, t.conn, ha, connAt_of_task ht, ?_⟩
      rw [hq, List.map_cons, (List.cons.inj hm).1, (List.cons.inj hm).2, hcmd]
  | raw j frames t t' ha ht hrec he =>
    have hget := (of_looping ht).1
    by_cases hij : i = j
    · subst hij
      rw [connAt_of_task hget] at ht₁
      rw [(hraw frames t.conn ha (connAt_of_task hget)).streams t₁ ht₁] at hinit
      simp at hinit
    · rw [he, connAt_setTask s j i t' hget, if_neg hij] at hi
      exact absurd (hi ▸ Grown.refl _ conn') hgrown

/-- **Who opens streams.** In every run, streams are opened as initiator for commands of the node
only, exactly if no frame that is read from a peer is a `NewStream` with the id 0. -/
theorem opens_locally_iff (V : UnsignedVarint) (pingCheckOpt : Bool) (handlers : List String)
    (as : List (SwarmAct (List UInt8))) :
    (swarm (bytesCodec V)).Guarded (OpensLocally V) { pingCheckOpt, handlers } as ↔
      (swarm (bytesCodec V)).Guarded (NoZeroId V) { pingCheckOpt, handlers } as := by
  have hinit : QueueInv (bytesCodec V) { pingCheckOpt, handlers } :=
    QueueInv.init ⟨pingCheckOpt, handlers, rfl⟩
  constructor
  · exact System.guarded_of_invariant (QueueInv (bytesCodec V))
      (fun s a s' hI h hs => ⟨hI.step hs, noZeroId_of_opensLocally hs h⟩) as _ hinit
  · exact System.guarded_of_invariant (QueueInv (bytesCodec V))
      (fun s a s' hI h hs => ⟨hI.step hs, opensLocally_of_noZeroId hI h⟩) as _ hinit

/-- The peer of an accepted connection sends a `NewStream` frame with the id 0. -/
def zeroIdFrame : List (SwarmAct (List UInt8)) := [.accept (some tcpPeer), .recvRaw 0 [1, 0]]

theorem zeroId_frame : extractPayload leb128 [1, 0] = .ok (0, .newStream, Payload.empty) := rfl

theorem peer_opens_as_initiator :
    ¬ (swarm (bytesCodec leb128)).Guarded (OpensLocally leb128) freshSwarm zeroIdFrame := by
  intro h
  obtain ⟨s₁, hs₁, hs₂⟩ : ∃ s₁, freshSwarm.step (bytesCodec leb128) (.accept (some tcpPeer))
      = some s₁ ∧ (s₁.step (bytesCodec leb128) (.recvRaw 0 [1, 0])).isSome = true :=
    ⟨_, rfl, by decide +kernel⟩
  obtain ⟨s₂, hs₂⟩ := Option.isSome_iff_exists.mp hs₂
  exact noZeroId_of_opensLocally hs₂ ((h s₁ hs₁).2 s₂ hs₂).1 Payload.empty zeroId_frame

end Initiator

end Rnet.Swarm
