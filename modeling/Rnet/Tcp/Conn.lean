import Rnet.Lib.Framing

/-!
# The TCP connection: `crates/transport/src/tcp/conn.rs`

`send_bytes` writes the length of a message as a big-endian `u32` in front of it.
`recv_msg` reads that header and then the body, each with `read_exact`, which
awaits one `TcpStream::read` after the other until its buffer is full. The future
of `recv_msg` is modelled by the point it is suspended at (`RecvMsg`): a `read`
that returns `n` bytes resumes it, and it either waits for the next `read` or
returns the message.

> `RecvMsg.resume_balance`: what a resumed future has taken from the stream, plus
> the bytes of the message it returns, is what it had taken before plus the bytes
> of the read.
-/

namespace Rnet.Tcp

open Rnet.Lib

/-- `TcpConn::send_bytes`: the bytes that `write_all` puts on the stream. -/
def sendBytes (msg : List UInt8) : List UInt8 :=
  let len := UInt32.ofNat msg.length
  beBytes 4 len.toNat ++ msg

/-- The length fits the header: the message is framed. -/
theorem sendBytes_eq {msg : List UInt8} (h : msg.length < 2 ^ 32) :
    sendBytes msg = frame 4 msg := by
  unfold sendBytes frame
  dsimp only
  rw [UInt32.toNat_ofNat', Nat.mod_eq_of_lt h]

/-- A suspended `recv_msg`: in the `read_exact` of `len_buf`, or in that of `data`. -/
inductive RecvMsg
  | lenBuf (got : List UInt8)
  | data (len : Nat) (got : List UInt8)
  deriving DecidableEq, Repr

namespace RecvMsg

/-- `recv_msg` called and not yet resumed. -/
def start : RecvMsg := .lenBuf []

/-- `buf[total..].len()`: how many bytes the awaited `read` may return. -/
def want : RecvMsg → Nat
  | lenBuf got => 4 - got.length
  | data len got => len - got.length

/-- The awaited `read` returned `bytes`: suspended again, or the message. -/
def resume : RecvMsg → List UInt8 → RecvMsg ⊕ List UInt8
  | lenBuf got, bytes =>
    let len_buf := got ++ bytes
    if len_buf.length < 4 then .inl (.lenBuf len_buf)
    else
      let len := ofBe len_buf
      -- `read_exact` of an empty buffer does not read
      if len = 0 then .inr [] else .inl (.data len [])
  | data len got, bytes =>
    let buf := got ++ bytes
    if buf.length < len then .inl (.data len buf) else .inr buf

/-- The bytes that the future has taken from the stream. -/
def taken : RecvMsg → List UInt8
  | lenBuf got => got
  | data len got => beBytes 4 len ++ got

/-- A suspended future has not filled its buffer, and read its length from four bytes. -/
def Wf : RecvMsg → Prop
  | lenBuf got => got.length < 4
  | data len got => got.length < len ∧ len < 2 ^ 32

theorem start_wf : start.Wf := by
  show (0 : Nat) < 4
  omega

theorem start_taken : start.taken = [] := rfl

/-- A future that has taken nothing is at its start. -/
theorem eq_start_of_taken {r : RecvMsg} (h : r.taken = []) : r = start := by
  cases r with
  | lenBuf got =>
    have hg : got = [] := h
    rw [hg]
    rfl
  | data len got =>
    have := congrArg List.length h
    unfold taken at this
    rw [List.length_append, length_beBytes, List.length_nil] at this
    omega

/-- **Resuming a `recv_msg`** loses no byte: what it has taken grows by the bytes of the
read, and a message it returns has those bytes as its frame. -/
theorem resume_balance {r : RecvMsg} (hr : r.Wf) (bytes : List UInt8)
    (hlen : bytes.length ≤ r.want) :
    match r.resume bytes with
    | .inl r' => r'.Wf ∧ r'.taken = r.taken ++ bytes
    | .inr m => m.length < 2 ^ 32 ∧ frame 4 m = r.taken ++ bytes := by
  cases r with
  | lenBuf got =>
    have hw : bytes.length ≤ 4 - got.length := hlen
    unfold resume
    dsimp only
    by_cases h4 : (got ++ bytes).length < 4
    · rw [if_pos h4]
      exact ⟨h4, rfl⟩
    · rw [if_neg h4]
      have h4' : (got ++ bytes).length = 4 := by
        have hgot : got.length < 4 := hr
        rw [List.length_append] at h4 ⊢
        omega
      have hbe : beBytes 4 (ofBe (got ++ bytes)) = got ++ bytes := by
        conv_rhs => rw [← beBytes_ofBe (got ++ bytes), h4']
      have hlt : ofBe (got ++ bytes) < 2 ^ 32 := by
        have := ofBe_lt (got ++ bytes)
        rw [h4'] at this
        exact this
      by_cases h0 : ofBe (got ++ bytes) = 0
      · rw [if_pos h0]
        rw [h0] at hbe
        refine ⟨by rw [List.length_nil]; omega, ?_⟩
        unfold frame
        rw [List.append_nil]
        exact hbe
      · rw [if_neg h0]
        refine ⟨⟨by rw [List.length_nil]; omega, hlt⟩, ?_⟩
        show beBytes 4 (ofBe (got ++ bytes)) ++ [] = got ++ bytes
        rw [List.append_nil]
        exact hbe
  | data len got =>
    obtain ⟨hgot, hlt⟩ := hr
    have hw : bytes.length ≤ len - got.length := hlen
    unfold resume
    dsimp only
    by_cases hl : (got ++ bytes).length < len
    · rw [if_pos hl]
      exact ⟨⟨hl, hlt⟩, (List.append_assoc ..).symm⟩
    · rw [if_neg hl]
      have hfull : (got ++ bytes).length = len := by
        rw [List.length_append] at hl ⊢
        omega
      refine ⟨by rw [hfull]; exact hlt, ?_⟩
      show beBytes 4 (got ++ bytes).length ++ (got ++ bytes) = beBytes 4 len ++ got ++ bytes
      rw [hfull, List.append_assoc]

end RecvMsg

end Rnet.Tcp
