import Rnet.Lib.Leb128

/-!
# The mplex frame header: `crates/muxer/src/mplex/headers.rs`

A frame is a varint `stream_id << 3 | tag`, a varint payload length and the
payload. `buildFrame` writes it and `processHeader` reads the header back;
the slice that `handle_incoming` makes afterwards is part of `extractPayload`.

The varint code is the `unsigned-varint` crate, which is not part of the
repository: `UnsignedVarint` takes its four functions as parameters and carries
what the muxer relies on (minimal LEB128, decoding inverts encoding on any
continuation). `leb128` is one concrete instance.

> `extractPayload_buildFrame`: what a peer extracts from a built frame is the flag,
> the payload and the stream id *cut to 29 bits*, since `<< 3` on a `u32` drops
> the top three bits.
-/

namespace Rnet.Mplex

/-- The contents of a `Vec<u8>`: a list whose length is a `usize`. -/
abbrev Payload := { l : List UInt8 // l.length < 2 ^ 64 }

/-- The empty payload. -/
def Payload.empty : Payload := ⟨[], by decide⟩

/-- The bytes of an ASCII literal `b"..."`. -/
def ascii (s : String) : List UInt8 := s.toList.map fun c => UInt8.ofNat c.toNat

theorem length_ping : (ascii "ping").length < 2 ^ 64 := by decide

theorem length_hi : (ascii "hi").length < 2 ^ 64 := by decide

/-- The marker that makes `conn_handler` treat a queued frame as a local command. -/
def INTERNAL : List UInt8 := ascii "internal-payload"

/-- `MuxedStreamFlag`. -/
inductive MuxedStreamFlag
  | newStream
  | message
  | closeStream
  | disconnected
  | handshakeReq
  | handshakeRes
  | liveliness
  deriving DecidableEq, Repr

/-- `MuxedStreamFlag::tag`. -/
def MuxedStreamFlag.tag : MuxedStreamFlag → UInt8
  | newStream => 1
  | message => 2
  | closeStream => 3
  | disconnected => 4
  | handshakeReq => 5
  | handshakeRes => 6
  | liveliness => 7

/-- `MuxedStreamFlag::from_tag`. -/
def MuxedStreamFlag.fromTag (tag : UInt8) : Option MuxedStreamFlag :=
  if tag = 1 then some newStream
  else if tag = 2 then some message
  else if tag = 3 then some closeStream
  else if tag = 4 then some disconnected
  else if tag = 5 then some handshakeReq
  else if tag = 6 then some handshakeRes
  else if tag = 7 then some liveliness
  else none

/-- Every tag decodes to the flag it was made from. -/
@[simp] theorem fromTag_tag (flag : MuxedStreamFlag) :
    MuxedStreamFlag.fromTag flag.tag = some flag := by
  cases flag <;> decide

/-- A tag is non-zero and fits the three low bits of the header. -/
theorem tag_range (flag : MuxedStreamFlag) : 0 < flag.tag.toNat ∧ flag.tag.toNat < 8 := by
  cases flag <;> decide

/-- The `unsigned-varint` functions the muxer calls, with what it relies on. -/
structure UnsignedVarint where
  encodeU32 : UInt32 → List UInt8
  encodeUsize : UInt64 → List UInt8
  decodeU32 : List UInt8 → Option (UInt32 × List UInt8)
  decodeUsize : List UInt8 → Option (UInt64 × List UInt8)
  encodeU32_eq : ∀ n, encodeU32 n = Lib.Leb128.encode 5 n.toNat
  encodeUsize_eq : ∀ n, encodeUsize n = Lib.Leb128.encode 10 n.toNat
  decodeU32_encode : ∀ n rest, decodeU32 (encodeU32 n ++ rest) = some (n, rest)
  decodeUsize_encode : ∀ n rest, decodeUsize (encodeUsize n ++ rest) = some (n, rest)
  decodeU32_suffix : ∀ {b n rest}, decodeU32 b = some (n, rest) → rest <:+ b

/-- LEB128 over the machine widths of the crate. -/
def leb128 : UnsignedVarint where
  encodeU32 n := Lib.Leb128.encode 5 n.toNat
  encodeUsize n := Lib.Leb128.encode 10 n.toNat
  decodeU32 b := (Lib.Leb128.decode 5 b).map fun p => (UInt32.ofNat p.1, p.2)
  decodeUsize b := (Lib.Leb128.decode 10 b).map fun p => (UInt64.ofNat p.1, p.2)
  encodeU32_eq _ := rfl
  encodeUsize_eq _ := rfl
  decodeU32_encode n rest := by
    have hn : n.toNat < 128 ^ 5 := Nat.lt_trans n.toNat_lt (by decide)
    rw [Lib.Leb128.decode_encode 5 rest hn (by decide)]
    simp
  decodeUsize_encode n rest := by
    have hn : n.toNat < 128 ^ 10 := Nat.lt_trans n.toNat_lt (by decide)
    rw [Lib.Leb128.decode_encode 10 rest hn (by decide)]
    simp
  decodeU32_suffix := by
    intro b n rest h
    obtain ⟨p, hp, hpe⟩ := Option.map_eq_some_iff.mp h
    simp only [Prod.mk.injEq] at hpe
    rw [← hpe.2]
    exact Lib.Leb128.decode_suffix 5 hp

/-- How a call of the muxer fails: with an `Err`, or by a panic. -/
inductive Fault
  | err (msg : String)
  | panic
  deriving DecidableEq, Repr

variable (V : UnsignedVarint)

/-- `process_header`: stream id, flag, header length and payload length. -/
def processHeader (buf : List UInt8) :
    Except Fault (UInt32 × MuxedStreamFlag × Nat × UInt64) :=
  match V.decodeU32 buf with
  | none => .error (.err "invalid varint header")
  | some (header_val, remaining) =>
    let header_len := buf.length - remaining.length
    let tag := (header_val &&& 0b111).toUInt8
    let stream_id := header_val >>> 3
    match V.decodeUsize remaining with
    | none => .error (.err "Invalid length")
    | some (payload_len, _) =>
      match MuxedStreamFlag.fromTag tag with
      | none => .error (.err "Invalid mplex flag")
      | some flag => .ok (stream_id, flag, header_len, payload_len)

/-- `build_frame`. -/
def buildFrame (stream_id : UInt32) (flag : MuxedStreamFlag) (payload : List UInt8) :
    List UInt8 :=
  V.encodeU32 ((stream_id <<< 3) ||| flag.tag.toUInt32)
    ++ V.encodeUsize (UInt64.ofNat payload.length) ++ payload

/-- The parsing part of `handle_incoming`: `process_header`, the two unwrapped
varint decodes and the slice of the payload. -/
def extractPayload (frames : List UInt8) :
    Except Fault (UInt32 × MuxedStreamFlag × Payload) :=
  match processHeader V frames with
  | .error e => .error e
  | .ok (stream_id, flag, _, payload_len) =>
    match V.decodeU32 frames with
    | none => .error .panic
    | some (_, remaining) =>
      match V.decodeUsize remaining with
      | none => .error .panic
      | some (_, payload_after_len) =>
        if payload_len.toNat ≤ payload_after_len.length then
          .ok (stream_id, flag, ⟨payload_after_len.take payload_len.toNat,
            Nat.lt_of_le_of_lt (List.length_take_le _ _) payload_len.toNat_lt⟩)
        else .error .panic

/-- What is left of a stream id after `<< 3` on a `u32` and `>> 3` at the peer. -/
def wireId (stream_id : UInt32) : UInt32 := (stream_id <<< 3) >>> 3

/-- The 29-bit cut, on numbers. -/
theorem wireId_toNat (stream_id : UInt32) :
    (wireId stream_id).toNat = stream_id.toNat % 2 ^ 29 := by
  have h := stream_id.toNat_lt
  simp only [wireId, UInt32.toNat_shiftRight, UInt32.toNat_shiftLeft, Nat.shiftLeft_eq,
    Nat.shiftRight_eq_div_pow, show (3 : UInt32).toNat % 32 = 3 from rfl]
  omega

/-- Ids below 2^29 survive the wire. -/
theorem wireId_of_lt {stream_id : UInt32} (h : stream_id.toNat < 2 ^ 29) :
    wireId stream_id = stream_id := by
  apply UInt32.toNat_inj.mp
  rw [wireId_toNat, Nat.mod_eq_of_lt h]

/-- The header value, on numbers: eight times the id, cut to 32 bits, plus the tag. -/
theorem header_toNat (stream_id : UInt32) (flag : MuxedStreamFlag) :
    ((stream_id <<< 3) ||| flag.tag.toUInt32).toNat
      = stream_id.toNat % 2 ^ 29 * 8 + flag.tag.toNat := by
  have ht := (tag_range flag).2
  have hs : (stream_id <<< 3).toNat = (stream_id.toNat % 2 ^ 29) <<< 3 := by
    simp only [UInt32.toNat_shiftLeft, Nat.shiftLeft_eq,
      show (3 : UInt32).toNat % 32 = 3 from rfl]
    omega
  rw [UInt32.toNat_or, hs, UInt8.toNat_toUInt32,
    ← Nat.shiftLeft_add_eq_or_of_lt (show flag.tag.toNat < 2 ^ 3 from ht), Nat.shiftLeft_eq]

/-- The receiver reads the tag out of the three low bits. -/
theorem header_tag (stream_id : UInt32) (flag : MuxedStreamFlag) :
    (((stream_id <<< 3) ||| flag.tag.toUInt32) &&& 0b111).toUInt8 = flag.tag := by
  have ht := (tag_range flag).2
  apply UInt8.toNat_inj.mp
  rw [UInt32.toNat_toUInt8, UInt32.toNat_and, header_toNat]
  rw [show (0b111 : UInt32).toNat = 2 ^ 3 - 1 from rfl, Nat.and_two_pow_sub_one_eq_mod]
  omega

/-- The receiver reads the cut id out of the other bits. -/
theorem header_id (stream_id : UInt32) (flag : MuxedStreamFlag) :
    ((stream_id <<< 3) ||| flag.tag.toUInt32) >>> 3 = wireId stream_id := by
  have ht := (tag_range flag).2
  apply UInt32.toNat_inj.mp
  rw [UInt32.toNat_shiftRight, header_toNat, wireId_toNat, Nat.shiftRight_eq_div_pow]
  rw [show (3 : UInt32).toNat % 32 = 3 from rfl]
  omega

/-- `processHeader` on a built frame, whatever follows it. -/
theorem processHeader_buildFrame (stream_id : UInt32) (flag : MuxedStreamFlag)
    (payload : Payload) (suffix : List UInt8) :
    processHeader V (buildFrame V stream_id flag payload.val ++ suffix)
      = .ok (wireId stream_id, flag,
          (V.encodeU32 ((stream_id <<< 3) ||| flag.tag.toUInt32)).length,
          UInt64.ofNat payload.val.length) := by
  have hlen : ∀ header rest : List UInt8,
      (header ++ rest).length - rest.length = header.length := by
    intro header rest
    rw [List.length_append]
    omega
  simp only [processHeader, buildFrame, List.append_assoc, V.decodeU32_encode,
    V.decodeUsize_encode, header_tag, header_id, fromTag_tag, hlen]

/-- **The frame codec**: the peer gets the flag, the payload and the cut id. -/
theorem extractPayload_buildFrame (stream_id : UInt32) (flag : MuxedStreamFlag)
    (payload : Payload) (suffix : List UInt8) :
    extractPayload V (buildFrame V stream_id flag payload.val ++ suffix)
      = .ok (wireId stream_id, flag, payload) := by
  have hlen : (UInt64.ofNat payload.val.length).toNat = payload.val.length :=
    UInt64.toNat_ofNat_of_lt' payload.property
  rw [extractPayload, processHeader_buildFrame]
  simp only [buildFrame, List.append_assoc, V.decodeU32_encode, V.decodeUsize_encode, hlen]
  rw [if_pos (by simp)]
  congr 3
  exact Subtype.ext (by simp)

/-- A varint below 128 is one byte; a longer one starts with a byte from 128 on. -/
theorem encode_head (k n : Nat) :
    (n < 128 ∧ Lib.Leb128.encode (k + 1) n = [UInt8.ofNat n]) ∨
      ∃ tl, Lib.Leb128.encode (k + 1) n = UInt8.ofNat (n % 128 + 128) :: tl := by
  by_cases h : n < 128
  · exact Or.inl ⟨h, Lib.Leb128.encode_of_lt h⟩
  · exact Or.inr ⟨_, Lib.Leb128.encode_of_ge (Nat.le_of_not_lt h)⟩

/-- A byte that is not the marker's first byte ends the comparison. -/
theorem isPrefixOf_ofNat_ne {n : Nat} (hn : n < 256) (h : n ≠ 105) (l r : List UInt8) :
    (105 :: l).isPrefixOf (UInt8.ofNat n :: r) = false := by
  have hne : ¬(105 : UInt8) = UInt8.ofNat n := by
    intro hc
    have := congrArg UInt8.toNat hc
    rw [UInt8.toNat_ofNat', Nat.mod_eq_of_lt hn] at this
    exact h this.symm
  rw [List.isPrefixOf, beq_eq_false_iff_ne.mpr hne, Bool.false_and]

/-- A frame that is not an announcement with a payload is never taken for a local
command: `INTERNAL` starts with the header of a `NewStream` frame whose payload
has 110 bytes. -/
theorem buildFrame_not_internal (stream_id : UInt32) (flag : MuxedStreamFlag)
    (payload : List UInt8) (h : flag = .newStream → payload = []) :
    INTERNAL.isPrefixOf (buildFrame V stream_id flag payload) = false := by
  have hI : INTERNAL = 105 :: 110 :: INTERNAL.drop 2 := by decide
  have ht := tag_range flag
  rw [buildFrame, V.encodeU32_eq, header_toNat, hI]
  rcases encode_head 4 (stream_id.toNat % 2 ^ 29 * 8 + flag.tag.toNat) with ⟨hlt, he⟩ | ⟨tl, he⟩
  · rw [he]
    by_cases h105 : stream_id.toNat % 2 ^ 29 * 8 + flag.tag.toNat = 105
    · -- the low bits of the marker's first byte say `NewStream`, so the payload is empty
      have hflag : flag = .newStream := by
        have h1 : flag.tag.toNat = 1 := by omega
        cases flag <;> first | rfl | exact absurd h1 (by decide)
      rw [h hflag, V.encodeUsize_eq, h105]
      rfl
    · exact isPrefixOf_ofNat_ne (by omega) h105 _ _
  · rw [he]
    exact isPrefixOf_ofNat_ne (by omega) (by omega) _ _

end Rnet.Mplex
