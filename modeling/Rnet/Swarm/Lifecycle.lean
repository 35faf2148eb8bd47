import Rnet.Swarm.Inner

/-!
# Connections come and go

What the swarm's map `connections` has to do with the tasks of the connections. `Effect` says
what one turn does to the map, to the queued `Disconnect` commands and to the signs of life
of the tasks; everything else follows from it.

> `entries_notified`: in every run in which no task of a registered connection ends, or is told
> to end, on a path that does not notify the swarm, every registered connection has a
> running task, or its one `Disconnect` is queued.

> `silent_end_breaks`: on such a path it has neither.
-/

namespace Rnet.Swarm

open Rnet.Identity Rnet.Mplex Rnet.Lib
open Rnet.Lib.System (runUnder_of_exec)

variable {κ φ : Type} (c : Codec κ φ)

/-! ## The exits of `conn_handler` -/

/-- The stream `stream_id`, if there is one, still listens. -/
def streamListens (conn : MplexConn κ) (stream_id : UInt32) : Bool :=
  match conn.streams.lookup stream_id with
  | none => true
  | some h => (conn.tasks[h]?).any fun t => t.phase ≠ .ended

/-- `handle_incoming` returns `Ok(true)`: the frame parses, is no `Disconnected`, and whoever it
is for still listens. -/
def survives (conn : MplexConn κ) (frames : φ) : Bool :=
  match c.parse frames with
  | .error _ => false
  | .ok (stream_id, flag, _) =>
    match flag with
    | .newStream | .closeStream => true
    | .disconnected => false
    | .liveliness => conn.pingCheck.isSome
    | .message | .handshakeReq | .handshakeRes => streamListens conn stream_id

/-- The next item of the queue leaves the loop running: an internal frame that survives, or a
frame that is written. -/
def queueSurvives (conn : MplexConn κ) (written : Bool) : Bool :=
  match conn.mpsc with
  | [] => true
  | data :: _ =>
    match c.route data with
    | .inl frames => survives c conn frames
    | .inr _ => written

/-- In this turn task `i` ends, or is told to end by the peer, and does not notify the swarm. -/
def SwarmInner.silentAt (s : SwarmInner κ) (i : Nat) : SwarmAct φ → Bool
  | .recvQueue j written =>
    j = i && (s.tasks[i]?).any fun t => !queueSurvives c t.conn written
  | .recvRaw j frames => j = i && (s.tasks[i]?).any fun t => !survives c t.conn frames
  | .rawPanic j => j = i
  | .rawError j => j = i && !s.alive
  | _ => false

/-- What the registry depends on in a task. -/
structure Signs where
  peerId : String
  running : Bool
  /-- a `Disconnected` frame was handled -/
  told : Bool
  left : Bool
  notices : Nat
  deriving DecidableEq

def ConnTask.signs (t : ConnTask κ) : Signs :=
  ⟨t.remotePeer.peerId, t.conn.running, t.conn.rawClosed, t.left, t.notices⟩

/-- The signs of a connection that has just been made. -/
def Signs.fresh (peer_id : String) : Signs := ⟨peer_id, true, false, false, 0⟩

/-- The loop of the task runs. -/
def Signs.Looping (g : Signs) : Prop := g.running = true ∧ g.left = false

def SwarmInner.signs (s : SwarmInner κ) : List Signs := s.tasks.map ConnTask.signs

/-- The notifications in the command queue. -/
def SwarmInner.notices (s : SwarmInner κ) : List (String × Nat) :=
  s.commands.filterMap Command.notice

/-- The remote peer of the connection that this turn makes and registers. -/
def SwarmInner.registering (s : SwarmInner κ) : SwarmAct φ → Option PeerInfo
  | .accept upgraded => upgraded
  | .next upgraded =>
    match s.commands with
    | .connect maddr :: _ | .newStream maddr _ :: _ =>
      if maddr.valueForP2p.any fun peer_id => peer_id ∈ s.connections then none else upgraded
    | _ => none
  | _ => none

/-- A `send` to the connection is no sign. -/
theorem send_signs {conn conn' : MplexConn κ} {item : Item} (h : conn.send c item = some conn') :
    conn'.running = conn.running ∧ conn'.rawClosed = conn.rawClosed := by
  unfold MplexConn.send at h
  split at h
  · obtain rfl := Option.some.inj h
    exact ⟨rfl, rfl⟩
  · simp at h

/-- A payload for a stream: a stream that does not listen any more makes the send panic. -/
theorem putChannel_cases (conn : MplexConn κ) (stream_id : UInt32) (payload : Payload) :
    (streamListens conn stream_id = true ∧ ∃ conn', conn.putChannel stream_id payload = .ok conn' ∧
      conn'.running = conn.running ∧ conn'.rawClosed = conn.rawClosed) ∨
    (streamListens conn stream_id = false ∧ conn.putChannel stream_id payload = .error .panic) := by
  unfold streamListens MplexConn.putChannel
  cases hl : conn.streams.lookup stream_id with
  | none => exact Or.inl ⟨rfl, conn, rfl, rfl, rfl⟩
  | some i =>
    dsimp only
    cases ht : conn.tasks[i]? with
    | none => exact Or.inr ⟨rfl, rfl⟩
    | some t =>
      by_cases hphase : t.phase = .ended
      · dsimp only
        rw [if_pos hphase]
        exact Or.inr ⟨by simp [hphase], rfl⟩
      · dsimp only
        rw [if_neg hphase]
        exact Or.inl ⟨by simp [hphase], _, rfl, rfl, rfl⟩

/-- A frame that survives keeps the loop running; any other one fails, or closes `raw_conn`. -/
theorem handleIncoming_cases (conn : MplexConn κ) (frames : φ) :
    (survives c conn frames = true ∧ ∃ conn', conn.handleIncoming c frames = .ok (conn', true) ∧
      conn'.running = conn.running ∧ conn'.rawClosed = conn.rawClosed) ∨
    (survives c conn frames = false ∧ ((∃ e, conn.handleIncoming c frames = .error e) ∨
      ∃ conn', conn.handleIncoming c frames = .ok (conn', false) ∧ conn'.rawClosed = true)) := by
  unfold survives MplexConn.handleIncoming
  rcases hp : c.parse frames with e | ⟨stream_id, flag, payload⟩
  · exact Or.inr ⟨rfl, Or.inl ⟨e, rfl⟩⟩
  dsimp only
  unfold MplexConn.handleFlag
  have hput := putChannel_cases conn stream_id payload
  cases flag with
  | newStream =>
    refine Or.inl ⟨rfl, ?_⟩
    dsimp only
    split
    · exact ⟨_, rfl, rfl, rfl⟩
    · exact ⟨_, rfl, rfl, rfl⟩
  | closeStream => exact Or.inl ⟨rfl, _, rfl, rfl, rfl⟩
  | disconnected => exact Or.inr ⟨rfl, Or.inr ⟨_, rfl, rfl⟩⟩
  | liveliness =>
    dsimp only
    cases hq : conn.pingCheck with
    | none => exact Or.inr ⟨rfl, Or.inl ⟨_, rfl⟩⟩
    | some q => exact Or.inl ⟨rfl, _, rfl, rfl, rfl⟩
  | message | handshakeReq | handshakeRes =>
    dsimp only
    rcases hput with ⟨hl, conn', hc, hsame⟩ | ⟨hl, hc⟩
    · rw [hc]
      exact Or.inl ⟨hl, conn', rfl, hsame⟩
    · rw [hc]
      exact Or.inr ⟨hl, Or.inl ⟨_, rfl⟩⟩

/-- A stream task gives no sign. -/
theorem taskStep_signs {conn conn' : MplexConn κ} {h : Nat} {a : MplexConn.TaskAct}
    (hs : conn.taskStep c h a = some conn') :
    conn'.running = conn.running ∧ conn'.rawClosed = conn.rawClosed := by
  have own : ∀ {conn₁ : MplexConn κ} {t : MplexStream}, some (conn₁.setTask h t) = some conn' →
      conn₁.running = conn.running ∧ conn₁.rawClosed = conn.rawClosed →
      conn'.running = conn.running ∧ conn'.rawClosed = conn.rawClosed := by
    intro conn₁ t he hc
    obtain rfl := Option.some.inj he
    exact hc
  rw [MplexConn.taskStep] at hs
  cases ht : conn.tasks[h]? with
  | none =>
    rw [ht] at hs
    simp at hs
  | some t =>
    rw [ht] at hs
    dsimp only at hs
    cases a with
    | negotiate =>
      dsimp only at hs
      unfold MplexConn.negotiate at hs
      split at hs
      · split at hs
        · exact own hs ⟨rfl, rfl⟩
        · split at hs
          · exact own hs ⟨rfl, rfl⟩
          · rename_i hsend
            exact own hs (send_signs c hsend)
      · split at hs
        · split at hs
          · simp at hs
          · exact own hs ⟨rfl, rfl⟩
        · exact own hs ⟨rfl, rfl⟩
      · split at hs
        · split at hs
          · simp at hs
          · exact own hs ⟨rfl, rfl⟩
        · split at hs
          · split at hs
            · exact own hs ⟨rfl, rfl⟩
            · rename_i hsend
              exact own hs (send_signs c hsend)
          · exact own hs ⟨rfl, rfl⟩
      · simp at hs
    | write msg =>
      dsimp only at hs
      split at hs
      · split at hs
        · obtain rfl := Option.some.inj hs
          exact ⟨rfl, rfl⟩
        · rename_i hsend
          exact own hs (send_signs c hsend)
      · simp at hs
    | read =>
      dsimp only at hs
      split at hs
      · split at hs
        · split at hs
          · simp at hs
          · obtain rfl := Option.some.inj hs
            exact ⟨rfl, rfl⟩
        · exact own hs ⟨rfl, rfl⟩
      · simp at hs
    | close =>
      dsimp only at hs
      split at hs
      · split at hs
        · obtain rfl := Option.some.inj hs
          exact ⟨rfl, rfl⟩
        · rename_i hsend
          obtain rfl := Option.some.inj hs
          exact send_signs c hsend
      · simp at hs
    | finish =>
      dsimp only at hs
      split at hs
      · exact own hs ⟨rfl, rfl⟩
      · simp at hs

/-! ## What one turn does -/

/-- One turn of the swarm and its tasks. -/
inductive Effect (s s' : SwarmInner κ) (a : SwarmAct φ) : Prop
  | quiet (connections : s'.connections = s.connections) (signs : s'.signs = s.signs)
      (notices : s'.notices = s.notices)
  | abort (connections : s'.connections = ∅) (signs : s.signs <+: s'.signs)
      (notices : s'.notices = [])
  | register (remote : PeerInfo) (registering : s.registering a = some remote)
      (connections : s'.connections = s.connections.insert remote.peerId s.signs.length)
      (signs : s'.signs = s.signs ++ [Signs.fresh remote.peerId])
      (notices : s'.notices = s.notices)
  | unregister (peer_id : String) (origin : Option Nat)
      (commands : s.commands = .disconnect peer_id origin :: s'.commands)
      (connections : s'.connections = s.connections.erase peer_id) (signs : s'.signs = s.signs)
  | notify (i : Nat) (g : Signs) (act : a = .rawError i) (get : s.signs[i]? = some g)
      (looping : g.Looping) (connections : s'.connections = s.connections)
      (signs : s'.signs = s.signs.set i { g with left := true, notices := g.notices + 1 })
      (notices : s'.notices = s.notices ++ [(g.peerId, i)])
  | stop (i : Nat) (g g' : Signs) (get : s.signs[i]? = some g) (peer : g'.peerId = g.peerId)
      (silent : (s.silentAt c i a = true ∧ g.Looping) ∨
        (g.left = true ∧ g' = { g with running := false }))
      (connections : s'.connections = s.connections) (signs : s'.signs = s.signs.set i g')
      (notices : s'.notices = s.notices)

theorem signs_setTask (s : SwarmInner κ) (i : Nat) (t : ConnTask κ) :
    (s.setTask i t).signs = s.signs.set i t.signs := by
  unfold SwarmInner.signs SwarmInner.setTask
  exact List.map_set ..

theorem signs_get {s : SwarmInner κ} {i : Nat} {t : ConnTask κ} (h : s.tasks[i]? = some t) :
    s.signs[i]? = some t.signs := by
  unfold SwarmInner.signs
  rw [List.getElem?_map, h]
  rfl

/-- A task that changes without giving a sign. -/
theorem signs_setTask_same {s : SwarmInner κ} {i : Nat} {t t' : ConnTask κ}
    (h : s.tasks[i]? = some t) (hsigns : t'.signs = t.signs) :
    (s.setTask i t').signs = s.signs := by
  rw [signs_setTask, hsigns]
  obtain ⟨hi, hget⟩ := List.getElem?_eq_some_iff.mp (signs_get h)
  rw [← hget, List.set_getElem_self]

/-- A `send` gives no sign. -/
theorem signs_send {s : SwarmInner κ} {i : Nat} {t : ConnTask κ} {conn : MplexConn κ} {item : Item}
    (h : s.tasks[i]? = some t) (hsend : t.conn.send c item = some conn) :
    (s.setTask i { t with conn := conn }).signs = s.signs := by
  obtain ⟨hr, hc⟩ := send_signs c hsend
  refine signs_setTask_same h ?_
  unfold ConnTask.signs
  dsimp only
  rw [hr, hc]

/-- Sending to a peer's connection changes its queue only. -/
theorem sendTo_frame {s s' : SwarmInner κ} {peer_id : String} {item : Item}
    (h : s.sendTo c peer_id item = some s') :
    s'.connections = s.connections ∧ s'.signs = s.signs ∧ s'.commands = s.commands ∧
      s'.peerStore = s.peerStore := by
  unfold SwarmInner.sendTo at h
  obtain ⟨i, hi, h⟩ := Option.bind_eq_some_iff.mp h
  obtain ⟨t, ht, h⟩ := Option.bind_eq_some_iff.mp h
  obtain ⟨conn, hconn, h⟩ := Option.bind_eq_some_iff.mp h
  obtain rfl := Option.some.inj h
  exact ⟨rfl, signs_send c ht hconn, rfl, rfl⟩

theorem of_looping {s : SwarmInner κ} {i : Nat} {t : ConnTask κ} (h : s.looping i = some t) :
    s.tasks[i]? = some t ∧ t.Looping := by
  obtain ⟨hget, hloop⟩ := Option.filter_eq_some_iff.mp h
  exact ⟨hget, of_decide_eq_true hloop⟩

/-- The signs of a connection that has just been made. -/
theorem signs_connHandler (s : SwarmInner κ) (remote : PeerInfo) :
    (s.connHandler (some remote)).signs = s.signs ++ [Signs.fresh remote.peerId] := by
  unfold SwarmInner.signs SwarmInner.connHandler
  rw [List.map_append]
  rfl

theorem length_signs (s : SwarmInner κ) : s.signs.length = s.tasks.length := List.length_map ..

/-- What `connect` comes to. -/
theorem connect_cases (s : SwarmInner κ) (addr : Multiaddr) (upgraded : Option PeerInfo) :
    s.connect addr upgraded = s.abort ∨
      ((addr.valueForP2p.any fun peer_id => peer_id ∈ s.connections) = true ∧
        s.connect addr upgraded = s) ∨
      ∃ remote, upgraded = some remote ∧
        (addr.valueForP2p.any fun peer_id => peer_id ∈ s.connections) = false ∧
        s.connect addr upgraded = s.connHandler (some remote) := by
  unfold SwarmInner.connect
  cases addr.valueForP2p with
  | none => exact Or.inl rfl
  | some peer_id =>
    dsimp only
    by_cases hmem : peer_id ∈ s.connections
    · rw [if_pos hmem]
      exact Or.inr (Or.inl ⟨by simpa using hmem, rfl⟩)
    · rw [if_neg hmem]
      cases upgraded with
      | none => exact Or.inl rfl
      | some remote => exact Or.inr (Or.inr ⟨remote, rfl, by simpa using hmem, rfl⟩)

/-- The notices left behind a command that is none. -/
theorem notices_of_none {s : SwarmInner κ} {cmd : Command} {rest : List Command}
    (hc : s.commands = cmd :: rest) (hn : cmd.notice = none) :
    s.notices = rest.filterMap Command.notice := by
  unfold SwarmInner.notices
  rw [hc, List.filterMap_cons_none hn]

/-- A command registers a connection. -/
theorem effect_register {s : SwarmInner κ} {cmd : Command} {rest : List Command}
    {remote : PeerInfo} (hc : s.commands = cmd :: rest) (hn : cmd.notice = none)
    (hreg : s.registering (.next (some remote) : SwarmAct φ) = some remote) :
    Effect c s (SwarmInner.connHandler { s with commands := rest } (some remote))
      (.next (some remote) : SwarmAct φ) := by
  refine .register remote hreg ?_ (signs_connHandler { s with commands := rest } remote)
    (notices_of_none hc hn).symm
  rw [length_signs]
  rfl

/-- A `Connect` command. -/
theorem effect_connect {s : SwarmInner κ} {maddr : Multiaddr} {rest : List Command}
    (hc : s.commands = .connect maddr :: rest) (upgraded : Option PeerInfo) :
    Effect c s (SwarmInner.connect { s with commands := rest } maddr upgraded)
      (.next upgraded : SwarmAct φ) := by
  have hnotices := notices_of_none hc rfl
  rcases connect_cases { s with commands := rest } maddr upgraded with he | ⟨-, he⟩ |
    ⟨remote, rfl, hp, he⟩
  · rw [he]
    exact .abort rfl (List.prefix_refl _) rfl
  · rw [he]
    exact .quiet rfl rfl hnotices.symm
  · rw [he]
    refine effect_register c hc rfl ?_
    simp only [SwarmInner.registering]
    rw [hc]
    dsimp only at hp ⊢
    rw [hp]
    rfl

/-- The end of `new_stream` only adds to what was done before, or panics. -/
theorem effect_openStream {s s₁ : SwarmInner κ} {upgraded : Option PeerInfo} (peer_id : String)
    (protocols : List Payload) (hpre : s.signs <+: s₁.signs)
    (heff : Effect c s s₁ (.next upgraded : SwarmAct φ)) :
    Effect c s (s₁.openStream c peer_id protocols) (.next upgraded : SwarmAct φ) := by
  cases protocols with
  | nil => exact .abort rfl hpre rfl
  | cons protocol _ =>
    unfold SwarmInner.openStream
    dsimp only
    cases hs : s₁.sendTo c peer_id (.openStream protocol) with
    | none => exact .abort rfl hpre rfl
    | some s₂ =>
      obtain ⟨h₁, h₂, h₃, -⟩ := sendTo_frame c hs
      have hn : s₂.notices = s₁.notices := by
        unfold SwarmInner.notices
        rw [h₃]
      rw [Option.getD_some]
      cases heff with
      | quiet hcs hsg hno => exact .quiet (h₁.trans hcs) (h₂.trans hsg) (hn.trans hno)
      | abort hcs hsg hno => exact .abort (h₁.trans hcs) (by rw [h₂]; exact hsg) (hn.trans hno)
      | register remote hreg hcs hsg hno =>
        exact .register remote hreg (h₁.trans hcs) (h₂.trans hsg) (hn.trans hno)
      | unregister p o hcm hcs hsg =>
        exact .unregister p o (by rw [h₃]; exact hcm) (h₁.trans hcs) (h₂.trans hsg)
      | notify i g hact _ _ _ _ _ => simp at hact
      | stop i g g' hget hpeer hsil hcs hsg hno =>
        exact .stop i g g' hget hpeer hsil (h₁.trans hcs) (h₂.trans hsg) (hn.trans hno)

/-- A `NewStream` command. -/
theorem effect_newStream {s : SwarmInner κ} {maddr : Multiaddr} {protocols : List Payload}
    {rest : List Command} (hc : s.commands = .newStream maddr protocols :: rest)
    (upgraded : Option PeerInfo) :
    Effect c s (SwarmInner.newStream c { s with commands := rest } maddr protocols upgraded)
      (.next upgraded : SwarmAct φ) := by
  have hnotices := notices_of_none hc rfl
  unfold SwarmInner.newStream
  cases hv : maddr.valueForP2p with
  | none => exact .abort rfl (List.prefix_refl _) rfl
  | some peer_id =>
    dsimp only
    split
    · exact effect_openStream c peer_id protocols (List.prefix_refl _)
        (.quiet rfl rfl hnotices.symm)
    · rename_i hmem
      rcases connect_cases { s with commands := rest } maddr upgraded with
        he | ⟨hp, -⟩ | ⟨remote, rfl, hp, he⟩
      · rw [he]
        exact effect_openStream c peer_id protocols (List.prefix_refl _)
          (.abort rfl (List.prefix_refl _) rfl)
      · rw [hv] at hp
        exact absurd (by simpa using hp) hmem
      · rw [he]
        refine effect_openStream c peer_id protocols ?_ (effect_register c hc rfl ?_)
        · rw [signs_connHandler]
          exact List.prefix_append ..
        · simp only [SwarmInner.registering]
          rw [hc]
          dsimp only at hp ⊢
          rw [hp]
          rfl

/-- A `Disconnect` command. -/
theorem effect_disconnect {s : SwarmInner κ} {peer_id : String} {origin : Option Nat}
    {rest : List Command} (hc : s.commands = .disconnect peer_id origin :: rest)
    (upgraded : Option PeerInfo) :
    Effect c s (SwarmInner.onDisconnect c { s with commands := rest } peer_id)
      (.next upgraded : SwarmAct φ) := by
  unfold SwarmInner.onDisconnect
  dsimp only
  cases s.peerStore.lookup peer_id with
  | none => exact .abort rfl (List.prefix_refl _) rfl
  | some info =>
    dsimp only
    split
    · exact .abort rfl (List.prefix_refl _) rfl
    · rename_i s₁ hs
      split at hs
      · obtain ⟨h₁, h₂, h₃, -⟩ := sendTo_frame c hs
        refine .unregister peer_id origin ?_ ?_ h₂
        · rw [hc, ← show s₁.commands = rest from h₃]
        · exact congrArg (AList.erase peer_id) h₁
      · obtain rfl := Option.some.inj hs
        exact .unregister peer_id origin hc rfl rfl

/-- A queue item that leaves the loop running. -/
theorem recvQueue_survives {conn conn' : MplexConn κ} {frames : Option φ} {written : Bool}
    (hq : queueSurvives c conn written = true) (h : conn.recvQueue c = some (conn', frames)) :
    (conn'.running && (frames.isNone || written)) = conn.running ∧
      conn'.rawClosed = conn.rawClosed := by
  unfold queueSurvives at hq
  unfold MplexConn.recvQueue at h
  split at h
  swap
  · simp at h
  rename_i hrun
  split at h
  · simp at h
  rename_i data rest hm
  rw [hm] at hq
  dsimp only at hq
  split at h
  · rename_i frame hr
    rw [hr] at hq
    obtain ⟨rfl, rfl⟩ := Prod.mk.inj (Option.some.inj h)
    dsimp only at hq ⊢
    rw [hq, hrun]
    exact ⟨rfl, rfl⟩
  · rename_i frame hr
    rw [hr] at hq
    rcases handleIncoming_cases c { conn with mpsc := rest } frame with
      ⟨-, conn₁, hh, hrun₁, hclosed⟩ | ⟨hno, -⟩
    · rw [hh] at h
      obtain ⟨rfl, rfl⟩ := Prod.mk.inj (Option.some.inj h)
      rw [hrun₁]
      exact ⟨by simp, hclosed⟩
    · exact absurd (hq.symm.trans hno) (by simp)

/-- A frame from the wire that leaves the loop running. -/
theorem recvRaw_survives {conn conn' : MplexConn κ} {frames : φ}
    (hq : survives c conn frames = true) (h : conn.recvRaw c frames = some conn') :
    conn'.running = conn.running ∧ conn'.rawClosed = conn.rawClosed := by
  unfold MplexConn.recvRaw at h
  split at h
  swap
  · simp at h
  rcases handleIncoming_cases c conn frames with ⟨-, conn₁, hh, hsame⟩ | ⟨hno, -⟩
  · rw [hh] at h
    obtain rfl := Option.some.inj h
    exact hsame
  · exact absurd (hq.symm.trans hno) (by simp)

/-- A task of the swarm that survives its turn, or does not. -/
theorem effect_turn {s : SwarmInner κ} {i : Nat} {t : ConnTask κ} {conn : MplexConn κ}
    {a : SwarmAct φ} (ht : s.looping i = some t)
    (h : s.silentAt c i a = true ∨
      (conn.running = t.conn.running ∧ conn.rawClosed = t.conn.rawClosed)) :
    Effect c s (s.setTask i { t with conn := conn }) a := by
  obtain ⟨hget, hloop⟩ := of_looping ht
  rcases h with hsilent | ⟨hr, hc⟩
  · exact .stop i t.signs (ConnTask.signs { t with conn := conn }) (signs_get hget) rfl
      (Or.inl ⟨hsilent, hloop⟩) rfl (signs_setTask s i _) rfl
  · refine .quiet rfl (signs_setTask_same hget ?_) rfl
    unfold ConnTask.signs
    dsimp only
    rw [hr, hc]

/-- A `send` to a connection's own queue. -/
theorem effect_send {s : SwarmInner κ} {i : Nat} {t : ConnTask κ} {conn : MplexConn κ}
    {a : SwarmAct φ} (ht : s.tasks[i]? = some t)
    (h : conn.running = t.conn.running ∧ conn.rawClosed = t.conn.rawClosed) :
    Effect c s (s.setTask i { t with conn := conn }) a := by
  refine .quiet rfl (signs_setTask_same ht ?_) rfl
  unfold ConnTask.signs
  dsimp only
  rw [h.1, h.2]

/-- **Every turn** has one of the effects. -/
theorem step_effect {s s' : SwarmInner κ} {a : SwarmAct φ} (h : s.step c a = some s') :
    Effect c s s' a := by
  cases a with
  | accept upgraded =>
    simp only [SwarmInner.step] at h
    split at h
    swap
    · simp at h
    obtain rfl := Option.some.inj h
    cases upgraded with
    | none => exact .abort rfl (List.prefix_refl _) rfl
    | some remote =>
      refine .register remote rfl ?_ (signs_connHandler s remote) rfl
      rw [length_signs]
      rfl
  | next upgraded =>
    simp only [SwarmInner.step] at h
    cases hc : s.commands with
    | nil =>
      rw [hc] at h
      simp at h
    | cons command rest =>
      rw [hc] at h
      obtain rfl := Option.some.inj h
      cases command with
      | connect maddr => exact effect_connect c hc upgraded
      | newStream maddr protocols => exact effect_newStream c hc upgraded
      | disconnect peer_id origin => exact effect_disconnect c hc upgraded
  | request command =>
    simp only [SwarmInner.step] at h
    split at h
    swap
    · simp at h
    rename_i hc
    obtain rfl := Option.some.inj h
    refine .quiet rfl rfl ?_
    unfold SwarmInner.notices
    rw [List.filterMap_append, List.filterMap_cons_none hc.2]
    exact List.append_nil _
  | recvQueue i written =>
    obtain ⟨t, ht, h⟩ := Option.bind_eq_some_iff.mp h
    obtain ⟨⟨conn, frames⟩, hq, h⟩ := Option.bind_eq_some_iff.mp h
    obtain rfl := Option.some.inj h
    refine effect_turn c ht ?_
    by_cases hs : queueSurvives c t.conn written = true
    · exact Or.inr (recvQueue_survives c hs hq)
    · left
      unfold SwarmInner.silentAt
      rw [(of_looping ht).1]
      simpa using hs
  | recvRaw i frames =>
    obtain ⟨t, ht, h⟩ := Option.bind_eq_some_iff.mp h
    obtain ⟨conn, hq, h⟩ := Option.bind_eq_some_iff.mp h
    obtain rfl := Option.some.inj h
    refine effect_turn c ht ?_
    by_cases hs : survives c t.conn frames = true
    · exact Or.inr (recvRaw_survives c hs hq)
    · left
      unfold SwarmInner.silentAt
      rw [(of_looping ht).1]
      simpa using hs
  | rawError i =>
    obtain ⟨t, ht, h⟩ := Option.bind_eq_some_iff.mp h
    obtain ⟨hget, hloop⟩ := of_looping ht
    split at h
    · obtain rfl := Option.some.inj h
      refine .notify i t.signs rfl (signs_get hget) hloop rfl (signs_setTask s i _) ?_
      unfold SwarmInner.notices
      exact List.filterMap_append
    · rename_i halive
      obtain rfl := Option.some.inj h
      refine effect_turn c ht (Or.inl ?_)
      simpa [SwarmInner.silentAt] using halive
  | rawPanic i =>
    obtain ⟨t, ht, h⟩ := Option.bind_eq_some_iff.mp h
    obtain rfl := Option.some.inj h
    refine effect_turn c ht (Or.inl ?_)
    simp [SwarmInner.silentAt]
  | drop i =>
    obtain ⟨t, ht, h⟩ := Option.bind_eq_some_iff.mp h
    split at h
    · rename_i hleft
      obtain rfl := Option.some.inj h
      exact .stop i t.signs { t.signs with running := false } (signs_get ht) rfl
        (Or.inr ⟨hleft, rfl⟩) rfl (signs_setTask s i _) rfl
    · simp at h
  | stream i j a =>
    obtain ⟨t, ht, h⟩ := Option.bind_eq_some_iff.mp h
    obtain ⟨conn, hconn, h⟩ := Option.bind_eq_some_iff.mp h
    obtain rfl := Option.some.inj h
    exact effect_send c ht (taskStep_signs c hconn)
  | liveliness i =>
    obtain ⟨t, ht, h⟩ := Option.bind_eq_some_iff.mp h
    obtain ⟨_, -, h⟩ := Option.bind_eq_some_iff.mp h
    obtain ⟨conn, hconn, h⟩ := Option.bind_eq_some_iff.mp h
    obtain rfl := Option.some.inj h
    exact effect_send c ht (send_signs c hconn)
  | pingTimeout i =>
    obtain ⟨t, ht, h⟩ := Option.bind_eq_some_iff.mp h
    obtain ⟨_, -, h⟩ := Option.bind_eq_some_iff.mp h
    obtain ⟨conn, hconn, h⟩ := Option.bind_eq_some_iff.mp h
    obtain rfl := Option.some.inj h
    have hsame := send_signs c hconn
    exact effect_send c ht hsame

/-! ## Registered connections are running or notified -/

/-- No task of a registered connection ends silently in this turn. -/
def NoSilentEnd (s : SwarmInner κ) (a : SwarmAct φ) : Prop :=
  ∀ e ∈ s.connections.entries, s.silentAt c e.2 a = false

instance (s : SwarmInner κ) (a : SwarmAct φ) : Decidable (NoSilentEnd c s a) :=
  inferInstanceAs (Decidable (∀ e ∈ s.connections.entries, _))

/-- The connection registered for a peer runs and was not told to end, or it has ended, has
notified the swarm exactly once, and the notification is queued. -/
def EntryOk (s : SwarmInner κ) (peer_id : String) (i : Nat) : Prop :=
  ∃ g, s.signs[i]? = some g ∧ g.peerId = peer_id ∧
    ((g.Looping ∧ g.told = false ∧ g.notices = 0) ∨
      (¬ g.Looping ∧ g.notices = 1 ∧ (peer_id, i) ∈ s.notices))

/-- Every registered connection is. -/
def Notified (s : SwarmInner κ) : Prop :=
  ∀ peer_id i, s.connections.lookup peer_id = some i → EntryOk s peer_id i

theorem mem_entries_of_lookup {connections : AList fun _ : String => Nat} {peer_id : String}
    {i : Nat} (h : connections.lookup peer_id = some i) :
    (⟨peer_id, i⟩ : Sigma fun _ => Nat) ∈ connections.entries :=
  AList.mem_lookup_iff.mp h

/-- An entry stays as it is when its task and its notification do. -/
theorem EntryOk.mono {s s' : SwarmInner κ} {peer_id : String} {i : Nat} (h : EntryOk s peer_id i)
    (hsigns : s'.signs[i]? = s.signs[i]?)
    (hnotices : (peer_id, i) ∈ s.notices → (peer_id, i) ∈ s'.notices) : EntryOk s' peer_id i := by
  obtain ⟨g, hg, hpeer, hcases⟩ := h
  refine ⟨g, hsigns.trans hg, hpeer, hcases.imp_right ?_⟩
  intro h
  obtain ⟨hloop, hone, hmem⟩ := h
  exact ⟨hloop, hone, hnotices hmem⟩

/-- One turn without a silent end. -/
theorem Notified.step {s s' : SwarmInner κ} {a : SwarmAct φ} (hI : Notified s)
    (hc : NoSilentEnd c s a) (h : s.step c a = some s') : Notified s' := by
  intro peer_id i hl
  cases step_effect c h with
  | quiet hcs hsg hno =>
    rw [hcs] at hl
    exact (hI peer_id i hl).mono (by rw [hsg]) (by rw [hno]; exact id)
  | abort hcs hsg hno =>
    rw [hcs] at hl
    simp at hl
  | register remote hreg hcs hsg hno =>
    rw [hcs] at hl
    by_cases hp : peer_id = remote.peerId
    · subst hp
      rw [AList.lookup_insert] at hl
      obtain rfl := Option.some.inj hl
      refine ⟨Signs.fresh remote.peerId, ?_, rfl, Or.inl ⟨⟨rfl, rfl⟩, rfl, rfl⟩⟩
      rw [hsg, List.getElem?_append_right (Nat.le_refl _), Nat.sub_self]
      rfl
    · rw [AList.lookup_insert_ne hp] at hl
      have hok := hI peer_id i hl
      refine hok.mono ?_ (by rw [hno]; exact id)
      obtain ⟨g, hg, -⟩ := hok
      rw [hsg, List.getElem?_append_left (List.getElem?_eq_some_iff.mp hg).1]
  | unregister p origin hcm hcs hsg =>
    rw [hcs] at hl
    -- the notification of another peer is still in the queue
    have hp : peer_id ≠ p := by
      intro h
      subst h
      rw [AList.lookup_erase] at hl
      simp at hl
    rw [AList.lookup_erase_ne hp] at hl
    refine (hI peer_id i hl).mono (by rw [hsg]) fun hmem => ?_
    unfold SwarmInner.notices at hmem ⊢
    rw [hcm, List.filterMap_cons] at hmem
    cases origin with
    | none => exact hmem
    | some j =>
      rcases List.mem_cons.mp hmem with he | hmem
      · exact absurd (Prod.mk.inj he).1 hp
      · exact hmem
  | notify j g hact hget hloop hcs hsg hno =>
    rw [hcs] at hl
    have hok := hI peer_id i hl
    by_cases hij : i = j
    · subst hij
      obtain ⟨g', hg', hpeer, hcases⟩ := hok
      obtain rfl := Option.some.inj (hget.symm.trans hg')
      rcases hcases with ⟨-, -, hzero⟩ | ⟨hnot, -⟩
      · have hself : s'.signs[i]? = some { g with left := true, notices := g.notices + 1 } := by
          rw [hsg, List.getElem?_set_self (List.getElem?_eq_some_iff.mp hget).1]
        have hmem : (peer_id, i) ∈ s'.notices := by
          rw [hno, ← hpeer]
          exact List.mem_append_right _ (List.mem_singleton_self _)
        exact ⟨_, hself, hpeer, Or.inr ⟨fun hl' => absurd hl'.2 (by simp), by simp [hzero], hmem⟩⟩
      · exact absurd hloop hnot
    · refine hok.mono (by rw [hsg, List.getElem?_set_ne (fun he => hij he.symm)]) fun hmem => ?_
      rw [hno]
      exact List.mem_append_left _ hmem
  | stop j g g' hget hpeer' hsilent hcs hsg hno =>
    rw [hcs] at hl
    have hok := hI peer_id i hl
    by_cases hij : i = j
    · subst hij
      rcases hsilent with ⟨hsil, -⟩ | ⟨hleft, rfl⟩
      · exact absurd (hc _ (mem_entries_of_lookup hl)) (by rw [hsil]; simp)
      · -- the task had left its loop, and returns
        obtain ⟨g', hg', hpeer, hcases⟩ := hok
        obtain rfl := Option.some.inj (hget.symm.trans hg')
        rcases hcases with ⟨hloop, -⟩ | ⟨-, hone, hmem⟩
        · rw [hloop.2] at hleft
          simp at hleft
        · have hself : s'.signs[i]? = some { g with running := false } := by
            rw [hsg, List.getElem?_set_self (List.getElem?_eq_some_iff.mp hget).1]
          exact ⟨_, hself, hpeer,
            Or.inr ⟨fun hl' => absurd hl'.1 (by simp), hone, by rw [hno]; exact hmem⟩⟩
    · exact hok.mono (by rw [hsg, List.getElem?_set_ne (fun he => hij he.symm)])
        (by rw [hno]; exact id)

/-- **Registered connections are running or notified**: in every run in which no task of a
registered connection ends silently, the task of every registered connection runs, or it has
notified the swarm, exactly once, and the `Disconnect` is queued. -/
theorem entries_notified {as : List (SwarmAct φ)} {s : SwarmInner κ}
    (h : (swarm c).RunUnder (NoSilentEnd c) as s) : Notified s := by
  refine h.invariant Notified ?_ fun s a s' hI hc hs => hI.step c hc hs
  intro s h peer_id i hl
  obtain ⟨pingCheckOpt, handlers, rfl⟩ := h
  simp at hl

/-- A queue item that does not leave the loop running ends it. -/
theorem recvQueue_silent {conn conn' : MplexConn κ} {frames : Option φ} {written : Bool}
    (hq : queueSurvives c conn written = false) (h : conn.recvQueue c = some (conn', frames)) :
    (conn'.running && (frames.isNone || written)) = false := by
  unfold queueSurvives at hq
  unfold MplexConn.recvQueue at h
  split at h
  swap
  · simp at h
  split at h
  · simp at h
  rename_i data rest hm
  rw [hm] at hq
  dsimp only at hq
  split at h
  · rename_i frame hr
    rw [hr] at hq
    obtain ⟨rfl, rfl⟩ := Prod.mk.inj (Option.some.inj h)
    dsimp only at hq ⊢
    rw [hq]
    simp
  · rename_i frame hr
    rw [hr] at hq
    rcases handleIncoming_cases c { conn with mpsc := rest } frame with
      ⟨hyes, -⟩ | ⟨-, ⟨e, hh⟩ | ⟨conn₁, hh, -⟩⟩
    · exact absurd (hyes.symm.trans hq) (by simp)
    · rw [hh] at h
      obtain ⟨rfl, -⟩ := Prod.mk.inj (Option.some.inj h)
      rfl
    · rw [hh] at h
      obtain ⟨rfl, -⟩ := Prod.mk.inj (Option.some.inj h)
      rfl

/-- A frame from the wire that does not: the task ends, or was told to end and goes on. -/
theorem recvRaw_silent {conn conn' : MplexConn κ} {frames : φ}
    (hq : survives c conn frames = false) (h : conn.recvRaw c frames = some conn') :
    conn'.running = false ∨ conn'.rawClosed = true := by
  unfold MplexConn.recvRaw at h
  split at h
  swap
  · simp at h
  rcases handleIncoming_cases c conn frames with ⟨hyes, -⟩ | ⟨-, ⟨e, hh⟩ | ⟨conn₁, hh, hclosed⟩⟩
  · exact absurd (hyes.symm.trans hq) (by simp)
  · rw [hh] at h
    obtain rfl := Option.some.inj h
    exact Or.inl rfl
  · rw [hh] at h
    obtain rfl := Option.some.inj h
    exact Or.inr hclosed

/-- After a silent end the connection has sent no notification, or was told to end and goes on;
so where it is registered, `NoSilentEnd` was needed. -/
theorem silent_end_breaks {s s' : SwarmInner κ} {a : SwarmAct φ} {peer_id : String} {i : Nat}
    (hI : Notified s) (hl : s.connections.lookup peer_id = some i)
    (hsilent : s.silentAt c i a = true) (h : s.step c a = some s') : ¬ Notified s' := by
  -- a task that was looping and sent nothing before
  have hbroken : ∀ {t : ConnTask κ} {conn : MplexConn κ}, s.looping i = some t →
      (conn.running = false ∨ conn.rawClosed = true) →
      s' = s.setTask i { t with conn := conn } → ¬ Notified s' := by
    intro t conn ht hbad h hI'
    subst h
    obtain ⟨hget, hloop⟩ := of_looping ht
    obtain ⟨g, hg, -, hcases⟩ := hI peer_id i hl
    obtain rfl := Option.some.inj ((signs_get hget).symm.trans hg)
    obtain ⟨g', hg', -, hcases'⟩ := hI' peer_id i hl
    rw [signs_setTask, List.getElem?_set_self (List.getElem?_eq_some_iff.mp hg).1] at hg'
    obtain rfl := Option.some.inj hg'
    rcases hcases with ⟨-, -, hzero⟩ | ⟨hnot, -⟩
    · rcases hcases' with ⟨hrun, htold, -⟩ | ⟨-, hone, -⟩
      · rcases hbad with hb | hb
        · exact absurd (hb.symm.trans hrun.1) (by simp)
        · exact absurd (hb.symm.trans htold) (by simp)
      · exact absurd (hzero.symm.trans hone) (by simp)
    · exact hnot hloop
  cases a with
  | recvQueue j written =>
    obtain ⟨t, ht, h⟩ := Option.bind_eq_some_iff.mp h
    obtain ⟨⟨conn, frames⟩, hq, h⟩ := Option.bind_eq_some_iff.mp h
    unfold SwarmInner.silentAt at hsilent
    rw [Bool.and_eq_true, decide_eq_true_eq] at hsilent
    obtain ⟨rfl, hs⟩ := hsilent
    rw [(of_looping ht).1] at hs
    refine hbroken ht (Or.inl ?_) (Option.some.inj h).symm
    exact recvQueue_silent c (by simpa using hs) hq
  | recvRaw j frames =>
    obtain ⟨t, ht, h⟩ := Option.bind_eq_some_iff.mp h
    obtain ⟨conn, hq, h⟩ := Option.bind_eq_some_iff.mp h
    unfold SwarmInner.silentAt at hsilent
    rw [Bool.and_eq_true, decide_eq_true_eq] at hsilent
    obtain ⟨rfl, hs⟩ := hsilent
    rw [(of_looping ht).1] at hs
    exact hbroken ht (recvRaw_silent c (by simpa using hs) hq) (Option.some.inj h).symm
  | rawPanic j =>
    obtain ⟨t, ht, h⟩ := Option.bind_eq_some_iff.mp h
    obtain rfl := of_decide_eq_true hsilent
    exact hbroken ht (Or.inl rfl) (Option.some.inj h).symm
  | rawError j =>
    obtain ⟨t, ht, h⟩ := Option.bind_eq_some_iff.mp h
    unfold SwarmInner.silentAt at hsilent
    rw [Bool.and_eq_true, decide_eq_true_eq] at hsilent
    obtain ⟨rfl, halive⟩ := hsilent
    rw [if_neg (by simpa using halive)] at h
    exact hbroken ht (Or.inl rfl) (Option.some.inj h).symm
  | accept upgraded => simp [SwarmInner.silentAt] at hsilent
  | next upgraded => simp [SwarmInner.silentAt] at hsilent
  | request command => simp [SwarmInner.silentAt] at hsilent
  | drop j => simp [SwarmInner.silentAt] at hsilent
  | stream j k b => simp [SwarmInner.silentAt] at hsilent
  | liveliness j => simp [SwarmInner.silentAt] at hsilent
  | pingTimeout j => simp [SwarmInner.silentAt] at hsilent

/-- A swarm with the liveliness check, before its first connection. -/
def freshSwarm : SwarmInner (List UInt8) := { pingCheckOpt := true, handlers := [] }

/-- The peer `b`, who listens on TCP. -/
def tcpPeer : PeerInfo := ⟨"b", ⟨[.ip4 0x7f000001, .tcp 4001, .p2p "b"]⟩⟩

/-- The peer `b`, who listens on UDP. -/
def udpPeer : PeerInfo := ⟨"b", ⟨[.ip4 0x7f000001, .udp 4001, .p2p "b"]⟩⟩

/-- A connection comes and goes. -/
def readFails : List (SwarmAct (List UInt8)) := [.accept (some tcpPeer), .rawError 0, .drop 0]

theorem readFails_enabled :
    ((swarm (bytesCodec leb128)).exec (NoSilentEnd (bytesCodec leb128)) freshSwarm
      readFails).isSome = true := by decide +kernel

theorem entries_notified_readFails :
    ∃ s, (swarm (bytesCodec leb128)).RunUnder (NoSilentEnd (bytesCodec leb128)) readFails s ∧
      s.connections.lookup "b" = some 0 ∧ s.commands = [.disconnect "b" (some 0)] ∧
      Notified s := by
  have hrun : (swarm (bytesCodec leb128)).RunUnder (NoSilentEnd (bytesCodec leb128)) readFails _ :=
    runUnder_of_exec ⟨true, [], rfl⟩ (Option.some_get readFails_enabled).symm
  exact ⟨_, hrun, by decide +kernel, by decide +kernel, entries_notified _ hrun⟩

/-- The liveliness check of a connection gives up, and its task takes the frame. -/
def pingTimesOut : List (SwarmAct (List UInt8)) :=
  [.accept (some udpPeer), .pingTimeout 0, .recvQueue 0 true]

theorem pingTimesOut_enabled :
    ((swarm (bytesCodec leb128)).exec (fun _ _ => True) freshSwarm pingTimesOut).isSome = true := by
  decide +kernel

theorem pingTimeout_unnoticed :
    ∃ s, (swarm (bytesCodec leb128)).Run pingTimesOut s ∧ s.connections.lookup "b" = some 0 ∧
      s.loops 0 = false ∧ s.commands = [] := by
  have hrun : (swarm (bytesCodec leb128)).Run pingTimesOut _ :=
    runUnder_of_exec ⟨true, [], rfl⟩ (Option.some_get pingTimesOut_enabled).symm
  exact ⟨_, hrun, by decide +kernel, by decide +kernel, by decide +kernel⟩

end Rnet.Swarm
