import Rnet.Tcp.Conn

/-!
# Reading a TCP stream: `TcpConn::read_exact` and `recv_msg`

A `TcpStream` hands its bytes out in pieces that the kernel chooses. The model keeps
the bytes that are still to come before the stream ends and the sizes the kernel
chooses; a size is cut to what a `read` may return, so every way of splitting the
stream into reads of 1 to `buf.len()` bytes is one choice of `cuts`. `read_exact` is the loop of
the source; it terminates because a `read` that returns nothing ends it.

> `readExact_full`, `readExact_short`: a `read_exact` succeeds exactly when the bytes
> it wants are still to come, and then returns them whatever the sizes of the reads.

> `recvMsg_drive`: the calls of `read` inside `recv_msg` resume the future `RecvMsg`
> to the same result.
-/

namespace Rnet.Tcp

open Rnet.Lib

/-- The reading half of a `tokio::net::TcpStream`. -/
structure TcpStream where
  /-- The bytes that are still to come before the stream ends. -/
  bytes : List UInt8
  /-- How many bytes the next reads find in the socket. -/
  cuts : Nat → Nat
  /-- The error of a `read` at the end, or `none` for an orderly shutdown. -/
  reset : Option String

namespace TcpStream

/-- How many bytes a `read` into a buffer of `len` bytes returns. -/
def size (s : TcpStream) (len : Nat) : Nat := min (max 1 (s.cuts 0)) (min len s.bytes.length)

/-- The stream behind its next `n` bytes. -/
def skip (s : TcpStream) (n : Nat) : TcpStream :=
  { s with bytes := s.bytes.drop n, cuts := fun i => s.cuts (i + 1) }

/-- `TcpStream::read` into a buffer of `len` bytes: the bytes it returns. -/
def read (s : TcpStream) (len : Nat) : Except String (List UInt8 × TcpStream) :=
  match s.bytes, s.reset with
  | [], some e => .error e
  | _, _ => .ok (s.bytes.take (s.size len), s.skip (s.size len))

theorem size_le (s : TcpStream) (len : Nat) : s.size len ≤ len := by
  unfold size
  omega

theorem size_pos {s : TcpStream} {len : Nat} (hlen : 0 < len) (hs : s.bytes ≠ []) :
    0 < s.size len := by
  have := List.length_pos_iff.mpr hs
  unfold size
  omega

/-- **One read** of a stream that has not ended: between 1 and `len` of its next bytes. -/
theorem read_spec {s : TcpStream} {len : Nat} (hlen : 0 < len) (hs : s.bytes ≠ []) :
    ∃ bs s', s.read len = .ok (bs, s') ∧ bs ≠ [] ∧ bs.length ≤ len ∧
      s.bytes = bs ++ s'.bytes := by
  refine ⟨s.bytes.take (s.size len), s.skip (s.size len), ?_, ?_, ?_,
    (List.take_append_drop ..).symm⟩
  · unfold read
    split
    · next h _ => exact absurd h hs
    · rfl
  · intro h
    have hpos := size_pos hlen hs
    rcases List.take_eq_nil_iff.mp h with h0 | h0
    · omega
    · exact hs h0
  · exact Nat.le_trans (List.length_take_le ..) (s.size_le len)

/-- A read at the end of the stream: an error, or no byte. -/
theorem read_end {s : TcpStream} (len : Nat) (hs : s.bytes = []) :
    (∃ e, s.read len = .error e) ∨ ∃ s', s.read len = .ok ([], s') := by
  unfold read
  rw [hs]
  cases s.reset with
  | some e => exact Or.inl ⟨e, rfl⟩
  | none =>
    refine Or.inr ⟨s.skip (s.size len), ?_⟩
    dsimp only
    rw [List.take_nil]

end TcpStream

/-- `TcpConn`. -/
structure TcpConn where
  stream : TcpStream

namespace TcpConn

/-- `TcpConn::read`. -/
def read (c : TcpConn) (len : Nat) : Except String (List UInt8 × TcpConn) :=
  match c.stream.read len with
  | .error e => .error e
  | .ok (bs, stream) => .ok (bs, { c with stream })

/-- `TcpConn::read_exact` of a buffer of `len` bytes, with `got` the part `..total` of it
that is filled. -/
def readExact (c : TcpConn) (len : Nat) (got : List UInt8) :
    Except String (List UInt8 × TcpConn) :=
  if got.length < len then
    match c.read (len - got.length) with
    | .error e => .error e
    | .ok ([], _) => .error "Connection closed while reading"
    | .ok (b :: bs, c') => readExact c' len (got ++ b :: bs)
  else .ok (got, c)
termination_by len - got.length
decreasing_by
  rw [List.length_append, List.length_cons]
  omega

/-- `TcpConn::recv_msg`. -/
def recvMsg (c : TcpConn) : Except String (List UInt8 × TcpConn) :=
  match c.readExact 4 [] with
  | .error e => .error e
  | .ok (len_buf, c) => c.readExact (ofBe len_buf) []

/-- `n` calls of `recv_msg`, one after the other. -/
def recvMsgs : Nat → TcpConn → Except String (List (List UInt8) × TcpConn)
  | 0, c => .ok ([], c)
  | n + 1, c =>
    match c.recvMsg with
    | .error e => .error e
    | .ok (data, c) =>
      match recvMsgs n c with
      | .error e => .error e
      | .ok (datas, c) => .ok (data :: datas, c)

/-! ## `read_exact` -/

theorem read_spec {c : TcpConn} {len : Nat} (hlen : 0 < len) (hc : c.stream.bytes ≠ []) :
    ∃ bs c', c.read len = .ok (bs, c') ∧ bs ≠ [] ∧ bs.length ≤ len ∧
      c.stream.bytes = bs ++ c'.stream.bytes := by
  obtain ⟨bs, s', hread, hbs, hle, hsplit⟩ := TcpStream.read_spec hlen hc
  refine ⟨bs, ⟨s'⟩, ?_, hbs, hle, hsplit⟩
  unfold read
  rw [hread]

/-- At the end of the stream a `read` fails or returns nothing. -/
theorem read_end {c : TcpConn} (len : Nat) (hc : c.stream.bytes = []) :
    (∃ e, c.read len = .error e) ∨ ∃ c', c.read len = .ok ([], c') := by
  unfold read
  rcases TcpStream.read_end len hc with ⟨e, he⟩ | ⟨s', hs'⟩
  · rw [he]
    exact Or.inl ⟨e, rfl⟩
  · rw [hs']
    exact Or.inr ⟨_, rfl⟩

/-- A full buffer is returned without a read. -/
theorem readExact_done {c : TcpConn} {len : Nat} {got : List UInt8} (h : len ≤ got.length) :
    c.readExact len got = .ok (got, c) := by
  rw [readExact, if_neg (by omega)]

/-- A `read` that returns bytes: the loop goes on with them. -/
theorem readExact_read {c c' : TcpConn} {len : Nat} {got bs : List UInt8}
    (h : got.length < len) (hbs : bs ≠ []) (hread : c.read (len - got.length) = .ok (bs, c')) :
    c.readExact len got = c'.readExact len (got ++ bs) := by
  cases bs with
  | nil => exact absurd rfl hbs
  | cons b bs =>
    conv_lhs => rw [readExact]
    rw [if_pos h, hread]

/-- A `read` that fails ends the loop with its error. -/
theorem readExact_error {c : TcpConn} {len : Nat} {got : List UInt8} {e : String}
    (h : got.length < len) (he : c.read (len - got.length) = .error e) :
    c.readExact len got = .error e := by
  rw [readExact, if_pos h, he]

/-- A `read` that returns nothing ends the loop with an error of `read_exact`. -/
theorem readExact_closed {c c' : TcpConn} {len : Nat} {got : List UInt8}
    (h : got.length < len) (hn : c.read (len - got.length) = .ok ([], c')) :
    c.readExact len got = .error "Connection closed while reading" := by
  rw [readExact, if_pos h, hn]

/-- The stream has ended and the buffer is not full: an error. -/
theorem readExact_end {c : TcpConn} {len : Nat} {got : List UInt8} (h : got.length < len)
    (hc : c.stream.bytes = []) : ∃ e, c.readExact len got = .error e := by
  rcases read_end (len - got.length) hc with ⟨e, he⟩ | ⟨c', hc'⟩
  · exact ⟨e, readExact_error h he⟩
  · exact ⟨_, readExact_closed h hc'⟩

/-- **`read_exact` of bytes that are still to come** returns them, however they are cut
into reads. -/
theorem readExact_full {c : TcpConn} {len : Nat} {got want rest : List UInt8}
    (hwant : got.length + want.length = len) (hc : c.stream.bytes = want ++ rest) :
    ∃ c', c.readExact len got = .ok (got ++ want, c') ∧ c'.stream.bytes = rest := by
  induction hk : want.length using Nat.strongRecOn generalizing c got want with
  | ind k ih =>
    by_cases hw : want = []
    · subst hw
      rw [readExact_done (by rw [List.length_nil] at hwant; omega), List.append_nil]
      exact ⟨c, rfl, hc⟩
    · have hpos : 0 < want.length := List.length_pos_iff.mpr hw
      have hne : c.stream.bytes ≠ [] := by
        rw [hc]
        exact fun h => hw (List.append_eq_nil_iff.mp h).1
      have hleft : 0 < len - got.length := by omega
      obtain ⟨bs, c', hread, hbs, hle, hsplit⟩ := read_spec hleft hne
      -- the read stays inside the wanted bytes
      have hpre : bs <+: want := by
        apply List.prefix_of_prefix_length_le ⟨c'.stream.bytes, hsplit.symm⟩ ⟨rest, hc.symm⟩
        omega
      obtain ⟨want', rfl⟩ := hpre
      have hbytes : c'.stream.bytes = want' ++ rest := by
        rw [hc, List.append_assoc] at hsplit
        exact (List.append_cancel_left hsplit).symm
      have hbpos : 0 < bs.length := List.length_pos_iff.mpr hbs
      rw [List.length_append] at hwant hk
      rw [readExact_read (by omega) hbs hread, ← List.append_assoc]
      exact ih want'.length (by omega) (by rw [List.length_append]; omega) hbytes rfl

/-- **`read_exact` of more than what is still to come** is an error. -/
theorem readExact_short {c : TcpConn} {len : Nat} {got : List UInt8}
    (h : got.length + c.stream.bytes.length < len) : ∃ e, c.readExact len got = .error e := by
  induction hk : c.stream.bytes.length using Nat.strongRecOn generalizing c got with
  | ind k ih =>
    by_cases hc : c.stream.bytes = []
    · exact readExact_end (by omega) hc
    · have hleft : 0 < len - got.length := by omega
      obtain ⟨bs, c', hread, hbs, -, hsplit⟩ := read_spec hleft hc
      have hbpos : 0 < bs.length := List.length_pos_iff.mpr hbs
      have hlen := congrArg List.length hsplit
      rw [List.length_append] at hlen
      rw [readExact_read (by omega) hbs hread]
      exact ih c'.stream.bytes.length (by omega) (by rw [List.length_append]; omega) rfl

/-! ## `recv_msg` -/

/-- The header of a frame fills the buffer of the first `read_exact`. -/
theorem header_length (m : List UInt8) :
    ([] : List UInt8).length + (beBytes 4 m.length).length = 4 := by
  rw [length_beBytes]
  rfl

/-- **`recv_msg` at the front of a frame** returns the message and leaves what follows. -/
theorem recvMsg_frame {c : TcpConn} {m rest : List UInt8} (hm : m.length < 2 ^ 32)
    (hc : c.stream.bytes = sendBytes m ++ rest) :
    ∃ c', c.recvMsg = .ok (m, c') ∧ c'.stream.bytes = rest := by
  rw [sendBytes_eq hm] at hc
  unfold frame at hc
  rw [List.append_assoc] at hc
  obtain ⟨c₁, hhead, hc₁⟩ := readExact_full (header_length m) hc
  have hm₀ : ([] : List UInt8).length + m.length = m.length := Nat.zero_add _
  obtain ⟨c₂, hbody, hc₂⟩ := readExact_full hm₀ hc₁
  refine ⟨c₂, ?_, hc₂⟩
  unfold recvMsg
  rw [hhead]
  dsimp only
  rw [List.nil_append, ofBe_beBytes_of_lt hm, hbody, List.nil_append]

/-- **`recv_msg` of a stream that ends inside a frame** is an error. -/
theorem recvMsg_short {c : TcpConn} {m more : List UInt8} (hm : m.length < 2 ^ 32)
    (hmore : more ≠ []) (hc : c.stream.bytes ++ more = sendBytes m) :
    ∃ e, c.recvMsg = .error e := by
  rw [sendBytes_eq hm] at hc
  have hpos : 0 < more.length := List.length_pos_iff.mpr hmore
  have hlen := congrArg List.length hc
  rw [List.length_append, length_frame] at hlen
  unfold recvMsg
  by_cases h4 : c.stream.bytes.length < 4
  · -- the header is cut
    have hcut : ([] : List UInt8).length + c.stream.bytes.length < 4 := by
      rw [List.length_nil]
      omega
    obtain ⟨e, he⟩ := readExact_short hcut
    rw [he]
    exact ⟨e, rfl⟩
  · -- the header is there and the body is cut
    unfold frame at hc
    have hhead : c.stream.bytes = beBytes 4 m.length ++ c.stream.bytes.drop 4 := by
      have htake := congrArg (List.take 4) hc
      rw [List.take_append_of_le_length (by omega), List.take_left' (length_beBytes ..)] at htake
      rw [← htake, List.take_append_drop]
    obtain ⟨c₁, hread, hc₁⟩ := readExact_full (header_length m) hhead
    rw [hread]
    dsimp only
    rw [List.nil_append, ofBe_beBytes_of_lt hm]
    apply readExact_short
    rw [hc₁, List.length_drop, List.length_nil]
    omega

/-- **Calls of `recv_msg` on a stream of frames** return the messages in order. -/
theorem recvMsgs_frames {msgs : List (List UInt8)} (hmsgs : ∀ m ∈ msgs, m.length < 2 ^ 32)
    {c : TcpConn} {rest : List UInt8} (hc : c.stream.bytes = msgs.flatMap sendBytes ++ rest) :
    ∃ c', recvMsgs msgs.length c = .ok (msgs, c') ∧ c'.stream.bytes = rest := by
  induction msgs generalizing c with
  | nil => exact ⟨c, rfl, hc⟩
  | cons m msgs ih =>
    rw [List.flatMap_cons, List.append_assoc] at hc
    obtain ⟨c₁, hrecv, hc₁⟩ := recvMsg_frame (hmsgs m (List.mem_cons_self ..)) hc
    obtain ⟨c₂, hrest, hc₂⟩ := ih (fun x hx => hmsgs x (List.mem_cons_of_mem _ hx)) hc₁
    refine ⟨c₂, ?_, hc₂⟩
    rw [List.length_cons, recvMsgs, hrecv]
    dsimp only
    rw [hrest]

/-- **Framing over TCP.** However the stream is cut into reads, the calls of `recv_msg`
return exactly the messages that were sent, and when the stream ends inside the next
frame the call after them is an error. -/
theorem recvMsgs_sendBytes (msgs : List (List UInt8)) (hmsgs : ∀ m ∈ msgs, m.length < 2 ^ 32)
    (c : TcpConn) :
    (∀ rest, c.stream.bytes = msgs.flatMap sendBytes ++ rest →
      ∃ c', recvMsgs msgs.length c = .ok (msgs, c') ∧ c'.stream.bytes = rest) ∧
    ∀ (m part more : List UInt8), m.length < 2 ^ 32 → sendBytes m = part ++ more → more ≠ [] →
      c.stream.bytes = msgs.flatMap sendBytes ++ part →
      ∃ c', recvMsgs msgs.length c = .ok (msgs, c') ∧ ∃ e, c'.recvMsg = .error e := by
  refine ⟨fun rest hc => recvMsgs_frames hmsgs hc, ?_⟩
  intro m part more hm hsplit hmore hc
  obtain ⟨c', hrun, hc'⟩ := recvMsgs_frames hmsgs hc
  refine ⟨c', hrun, recvMsg_short hm hmore ?_⟩
  rw [hc', hsplit]

/-- Two messages, the first one empty, in a stream that ends behind the header of a third
one, with reads of at most one byte. -/
theorem recvMsgs_sendBytes_cut :
    ∃ c', recvMsgs 2 ⟨⟨[0, 0, 0, 0, 0, 0, 0, 1, 7, 0, 0, 0, 2], fun _ => 1, none⟩⟩ =
      .ok ([[], [7]], c') ∧ ∃ e, c'.recvMsg = .error e := by
  apply (recvMsgs_sendBytes [[], [7]] (by decide) _).2 [8, 9] [0, 0, 0, 2] [8, 9]
  · decide
  · decide
  · decide
  · decide

/-! ## The future of `recv_msg` -/

/-- What is left of `recv_msg` at the `read` where the future `r` is suspended. -/
def finish : RecvMsg → TcpConn → Except String (List UInt8 × TcpConn)
  | .lenBuf got, c =>
    match c.readExact 4 got with
    | .error e => .error e
    | .ok (len_buf, c) => c.readExact (ofBe len_buf) []
  | .data len got, c => c.readExact len got

/-- The future `r`, resumed by up to `fuel` calls of `read` until it returns or fails. -/
def drive : Nat → RecvMsg → TcpConn → Option (Except String (List UInt8 × TcpConn))
  | 0, _, _ => none
  | fuel + 1, r, c =>
    match c.read r.want with
    | .error e => some (.error e)
    | .ok ([], _) => some (.error "Connection closed while reading")
    | .ok (b :: bs, c') =>
      match r.resume (b :: bs) with
      | .inl r' => drive fuel r' c'
      | .inr m => some (.ok (m, c'))

/-- A `read` that returns bytes resumes the future. -/
theorem finish_read {r : RecvMsg} (hr : r.Wf) {c c' : TcpConn} {bs : List UInt8} (hbs : bs ≠ [])
    (hread : c.read r.want = .ok (bs, c')) :
    finish r c = match r.resume bs with
      | .inl r' => finish r' c'
      | .inr m => .ok (m, c') := by
  cases r with
  | lenBuf got =>
    have hgot : got.length < 4 := hr
    unfold finish RecvMsg.resume
    dsimp only
    rw [readExact_read hgot hbs hread]
    by_cases h4 : (got ++ bs).length < 4
    · rw [if_pos h4]
    · rw [if_neg h4, readExact_done (by omega)]
      dsimp only
      by_cases h0 : ofBe (got ++ bs) = 0
      · rw [if_pos h0, h0, readExact_done (Nat.zero_le _)]
      · rw [if_neg h0]
  | data len got =>
    have hgot : got.length < len := hr.1
    unfold finish RecvMsg.resume
    dsimp only
    rw [readExact_read hgot hbs hread]
    by_cases hl : (got ++ bs).length < len
    · rw [if_pos hl]
    · rw [if_neg hl, readExact_done (by omega)]

/-- A `read` that fails ends it. -/
theorem finish_error {r : RecvMsg} (hr : r.Wf) {c : TcpConn} {e : String}
    (he : c.read r.want = .error e) : finish r c = .error e := by
  cases r with
  | lenBuf got =>
    have herr : c.readExact 4 got = .error e := readExact_error hr he
    unfold finish
    dsimp only
    rw [herr]
  | data len got => exact readExact_error hr.1 he

/-- So does a `read` that returns nothing. -/
theorem finish_closed {r : RecvMsg} (hr : r.Wf) {c c' : TcpConn}
    (hn : c.read r.want = .ok ([], c')) :
    finish r c = .error "Connection closed while reading" := by
  cases r with
  | lenBuf got =>
    have herr : c.readExact 4 got = .error "Connection closed while reading" :=
      readExact_closed hr hn
    unfold finish
    dsimp only
    rw [herr]
  | data len got => exact readExact_closed hr.1 hn

/-- **The future runs `recv_msg`**: resumed by the reads that return, it returns what the
loops of `read_exact` return, after at most one `read` for each byte and the end. -/
theorem drive_eq_finish {fuel : Nat} {r : RecvMsg} (hr : r.Wf) {c : TcpConn}
    (hfuel : c.stream.bytes.length < fuel) : drive fuel r c = some (finish r c) := by
  induction fuel generalizing r c with
  | zero => exact absurd hfuel (Nat.not_lt_zero _)
  | succ fuel ih =>
    have hwant : 0 < r.want := by
      cases r with
      | lenBuf got => exact Nat.sub_pos_of_lt hr
      | data len got => exact Nat.sub_pos_of_lt hr.1
    unfold drive
    by_cases hc : c.stream.bytes = []
    · rcases read_end r.want hc with ⟨e, he⟩ | ⟨c', hc'⟩
      · rw [he, finish_error hr he]
      · rw [hc', finish_closed hr hc']
    · obtain ⟨bs, c', hread, hbs, hle, hsplit⟩ := read_spec hwant hc
      have hlen := congrArg List.length hsplit
      rw [List.length_append] at hlen
      have hbpos : 0 < bs.length := List.length_pos_iff.mpr hbs
      rw [finish_read hr hbs hread, hread]
      have hres := RecvMsg.resume_balance hr bs hle
      cases bs with
      | nil => exact absurd rfl hbs
      | cons b bs =>
        dsimp only
        cases hr' : r.resume (b :: bs) with
        | inl r' =>
          rw [hr'] at hres
          exact ih hres.1 (by omega)
        | inr m => rfl

/-- The future of `recv_msg` from its start. -/
theorem recvMsg_drive (c : TcpConn) :
    drive (c.stream.bytes.length + 1) RecvMsg.start c = some c.recvMsg :=
  drive_eq_finish RecvMsg.start_wf (Nat.lt_succ_self _)

end TcpConn

end Rnet.Tcp
