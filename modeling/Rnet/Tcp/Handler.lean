import Rnet.Tcp.Conn
import Rnet.Mplex.Conn
import Rnet.Lib.System

/-!
# `conn_handler` over TCP

`MplexConn::conn_handler` awaits the next item of its queue and the next message
of `raw_conn.read()` in one `select!`. Over TCP the second is a `recv_msg`, which
may be suspended with part of a message already taken from the socket. When the
queue branch wins, that future is dropped, and the bytes it took are gone
(`reading` starts anew while `stream` stays).

> `handled_prefix_of_sent`: as long as the queue branch wins only over a read that
> has taken nothing, the frames handed to `handle_incoming` are a prefix of the
> messages sent.

`interruptedRead` is a run in which it wins over a read that has the header and
two bytes of the body: a frame that was never sent is handled.
-/

namespace Rnet.Tcp

open Rnet.Lib Rnet.Mplex
open Rnet.Lib.System (runUnder_of_exec)

/-- A connection task over TCP, with the byte stream towards it. -/
structure TcpHandler where
  conn : MplexConn (List UInt8) := {}
  /-- what the other end has written and this end has not read -/
  stream : List UInt8 := []
  /-- the pending `raw_conn.read()` -/
  reading : RecvMsg := .start
  /-- the messages the other end has sent -/
  sent : List (List UInt8) := []
  /-- the frames passed to `handle_incoming` from `raw_conn.read()` -/
  handled : List (List UInt8) := []

/-- What can happen at a connection task over TCP. -/
inductive TcpAct
  /-- the other end sends a message with `send_bytes` -/
  | sendBytes (msg : List UInt8)
  /-- the awaited `TcpStream::read` returns `n` bytes -/
  | read (n : Nat)
  /-- the awaited `TcpStream::read` returns an error or the end of the stream -/
  | readErr
  /-- the queue branch of the `select!` wins -/
  | recvQueue
  /-- a task of this end puts a frame on the queue -/
  | queue (i : Item)
  /-- a stream task of this end moves on -/
  | task (h : Nat) (a : MplexConn.TaskAct)
  deriving DecidableEq

namespace TcpHandler

variable (V : UnsignedVarint)

/-- One event at a connection task. -/
def step (s : TcpHandler) : TcpAct → Option TcpHandler
  | .sendBytes msg =>
    some { s with stream := s.stream ++ sendBytes msg, sent := s.sent ++ [msg] }
  | .read n =>
    if s.conn.running = true ∧ 0 < n ∧ n ≤ s.reading.want ∧ n ≤ s.stream.length then
      let rest := s.stream.drop n
      match s.reading.resume (s.stream.take n) with
      | .inl r => some { s with reading := r, stream := rest }
      | .inr frames =>
        (s.conn.recvRaw (bytesCodec V) frames).map fun conn =>
          { s with
            conn := conn, reading := .start, stream := rest, handled := s.handled ++ [frames] }
    else none
  | .readErr =>
    if s.conn.running = true then some { s with conn := { s.conn with running := false } }
    else none
  | .recvQueue =>
    -- the pending read is dropped, with what it had taken
    (s.conn.recvQueue (bytesCodec V)).map fun r => { s with conn := r.1, reading := .start }
  | .queue i => (s.conn.send (bytesCodec V) i).map fun conn => { s with conn := conn }
  | .task h a => (s.conn.taskStep (bytesCodec V) h a).map fun conn => { s with conn := conn }

end TcpHandler

/-- A connection task over TCP: any fresh `MplexConn`, nothing sent yet. -/
def tcpHandler (V : UnsignedVarint) : System TcpHandler TcpAct where
  init s := ∃ conn : MplexConn (List UInt8), s = { conn := conn }
  step s a := s.step V a

/-- Messages fit the header, and the queue branch wins only over a read that has
taken nothing. -/
def ReadWhole (s : TcpHandler) : TcpAct → Prop
  | .sendBytes msg => msg.length < 2 ^ 32
  | .recvQueue => s.reading.taken = []
  | _ => True

instance (s : TcpHandler) (a : TcpAct) : Decidable (ReadWhole s a) := by
  cases a <;> unfold ReadWhole <;> infer_instance

/-- Every byte sent is in a handled frame, taken by the pending read, or unread. -/
structure ByteInv (s : TcpHandler) : Prop where
  balance : s.handled.flatMap (frame 4) ++ s.reading.taken ++ s.stream
    = s.sent.flatMap (frame 4)
  wf : s.reading.Wf
  handledLt : ∀ m ∈ s.handled, m.length < 2 ^ 32
  sentLt : ∀ m ∈ s.sent, m.length < 2 ^ 32

/-- The bytes of the read come off the front of the stream. -/
theorem ByteInv.read {s s' : TcpHandler} {V : UnsignedVarint} {n : Nat} (h : ByteInv s)
    (hstep : s.step V (.read n) = some s') : ByteInv s' := by
  simp only [TcpHandler.step] at hstep
  by_cases hc : s.conn.running = true ∧ 0 < n ∧ n ≤ s.reading.want ∧ n ≤ s.stream.length
  swap
  · rw [if_neg hc] at hstep
    simp at hstep
  rw [if_pos hc] at hstep
  obtain ⟨-, -, hwant, hlen⟩ := hc
  have hbal := h.balance
  rw [← List.take_append_drop n s.stream, ← List.append_assoc, List.append_assoc _ s.reading.taken]
    at hbal
  have hres := RecvMsg.resume_balance h.wf (s.stream.take n)
    (by rw [List.length_take]; omega)
  cases hr : s.reading.resume (s.stream.take n) with
  | inl r =>
    rw [hr] at hstep hres
    rw [← Option.some.inj hstep]
    obtain ⟨hwf, htaken⟩ := hres
    refine ⟨?_, hwf, h.handledLt, h.sentLt⟩
    rw [← hbal, htaken]
  | inr frames =>
    rw [hr] at hstep hres
    obtain ⟨conn, -, rfl⟩ := Option.map_eq_some_iff.mp hstep
    obtain ⟨hlt, hframe⟩ := hres
    refine ⟨?_, RecvMsg.start_wf, ?_, h.sentLt⟩
    · rw [← hbal, ← hframe]
      show (s.handled ++ [frames]).flatMap (frame 4) ++ RecvMsg.start.taken ++ _ = _
      rw [List.flatMap_append, List.flatMap_singleton, RecvMsg.start_taken, List.append_nil]
    · intro m hm
      rcases List.mem_append.mp hm with hm | hm
      · exact h.handledLt m hm
      · rw [List.mem_singleton.mp hm]
        exact hlt

/-- **One event** that meets the guard loses no byte. -/
theorem ByteInv.step {s s' : TcpHandler} {V : UnsignedVarint} {a : TcpAct} (h : ByteInv s)
    (hg : ReadWhole s a) (hstep : s.step V a = some s') : ByteInv s' := by
  cases a with
  | sendBytes msg =>
    rw [← Option.some.inj hstep]
    refine ⟨?_, h.wf, h.handledLt, ?_⟩
    · show s.handled.flatMap (frame 4) ++ s.reading.taken ++ (s.stream ++ sendBytes msg)
        = (s.sent ++ [msg]).flatMap (frame 4)
      rw [← List.append_assoc, h.balance, List.flatMap_append, List.flatMap_singleton,
        sendBytes_eq hg]
    · intro m hm
      rcases List.mem_append.mp hm with hm | hm
      · exact h.sentLt m hm
      · rw [List.mem_singleton.mp hm]
        exact hg
  | read n => exact h.read hstep
  | readErr =>
    simp only [TcpHandler.step] at hstep
    by_cases hr : s.conn.running = true
    · rw [if_pos hr] at hstep
      rw [← Option.some.inj hstep]
      exact ⟨h.balance, h.wf, h.handledLt, h.sentLt⟩
    · rw [if_neg hr] at hstep
      simp at hstep
  | recvQueue =>
    obtain ⟨r, -, rfl⟩ := Option.map_eq_some_iff.mp hstep
    -- the dropped read is the one that starts now
    have hstart : s.reading = RecvMsg.start := RecvMsg.eq_start_of_taken hg
    refine ⟨?_, RecvMsg.start_wf, h.handledLt, h.sentLt⟩
    rw [← h.balance, hstart]
  | queue i =>
    obtain ⟨conn, -, rfl⟩ := Option.map_eq_some_iff.mp hstep
    exact ⟨h.balance, h.wf, h.handledLt, h.sentLt⟩
  | task i a =>
    obtain ⟨conn, -, rfl⟩ := Option.map_eq_some_iff.mp hstep
    exact ⟨h.balance, h.wf, h.handledLt, h.sentLt⟩

theorem ByteInv.init {s : TcpHandler} {V : UnsignedVarint} (h : (tcpHandler V).init s) :
    ByteInv s := by
  obtain ⟨conn, rfl⟩ := h
  exact ⟨rfl, RecvMsg.start_wf, by simp, by simp⟩

/-- What is handled is a prefix of what was sent. -/
theorem ByteInv.isPrefix {s : TcpHandler} (h : ByteInv s) : s.handled <+: s.sent := by
  refine prefix_of_frames_prefix (k := 4) (by omega) h.handledLt h.sentLt ?_
  have hbal := h.balance
  rw [List.append_assoc] at hbal
  exact ⟨_, hbal⟩

/-- **The frames handled over TCP.** In every run in which the queue branch never drops
a read that has taken a byte, they are the messages sent, in order, as far as they go. -/
theorem handled_prefix_of_sent (V : UnsignedVarint) {as : List TcpAct} {s : TcpHandler}
    (h : (tcpHandler V).RunUnder ReadWhole as s) : s.handled <+: s.sent :=
  (h.invariant ByteInv (fun _ => ByteInv.init) fun _ _ _ hI hg hs => hI.step hg hs).isPrefix

/-- A `Message` frame of the other end. -/
def sampleFrame : List UInt8 := buildFrame leb128 1 .message [0, 0, 0, 1, 9]

/-- The queued liveliness frame goes out before any byte of the message arrives. -/
def uninterruptedRead : List TcpAct :=
  [.queue .liveliness, .recvQueue, .sendBytes sampleFrame, .read 4, .read 2, .read 5]

theorem uninterruptedRead_enabled :
    ((tcpHandler leb128).exec ReadWhole {} uninterruptedRead).isSome = true := by decide +kernel

theorem handled_prefix_of_sent_uninterrupted :
    ∃ s, (tcpHandler leb128).RunUnder ReadWhole uninterruptedRead s ∧
      s.handled = [sampleFrame] ∧ s.handled <+: s.sent := by
  have hrun : (tcpHandler leb128).RunUnder ReadWhole uninterruptedRead _ :=
    runUnder_of_exec ⟨{}, rfl⟩ (Option.some_get uninterruptedRead_enabled).symm
  exact ⟨_, hrun, by decide +kernel, handled_prefix_of_sent leb128 hrun⟩

/-- The queued liveliness frame goes out when the header and two bytes of the body have
been read: the rest of the body is read as a header and a body. -/
def interruptedRead : List TcpAct :=
  [.queue .liveliness, .sendBytes sampleFrame, .read 4, .read 2, .recvQueue, .read 4, .read 1]

theorem interruptedRead_enabled :
    ((tcpHandler leb128).exec (fun _ _ => True) {} interruptedRead).isSome = true := by
  decide +kernel

theorem interrupted_read_handled :
    ∃ s, (tcpHandler leb128).Run interruptedRead s ∧ s.sent = [sampleFrame] ∧
      s.handled = [[9]] ∧ ¬ s.handled <+: s.sent := by
  refine ⟨_, runUnder_of_exec ⟨{}, rfl⟩ (Option.some_get interruptedRead_enabled).symm,
    by decide +kernel, by decide +kernel, by decide +kernel⟩

end Rnet.Tcp
