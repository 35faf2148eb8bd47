import Rnet.Mplex.Headers

/-!
# Parsing a frame: the first lines of `handle_incoming`

`handle_incoming` reads a frame by two routes: `process_header`, and then its own two
varint decodes, which it unwraps before it cuts the payload out of what they leave.

> `frame_parsed`: on a frame that `build_frame` made, with anything behind it, both
> routes find the parts it was made of, when the stream id fits 29 bits.

> `parses_safely_iff`: on any bytes the unwraps are safe, since `process_header` has
> made the same decodes. The slice is not: it panics exactly when a frame with a
> valid header declares more bytes than follow.
-/

namespace Rnet.Mplex

variable (V : UnsignedVarint)

/-- The header varint that `build_frame` writes. -/
def headerVal (stream_id : UInt32) (flag : MuxedStreamFlag) : UInt32 :=
  (stream_id <<< 3) ||| flag.tag.toUInt32

/-! ## Built frames -/

/-- The two decodes of `handle_incoming` on a built frame. -/
theorem decodes_buildFrame (stream_id : UInt32) (flag : MuxedStreamFlag) (payload : Payload)
    (suffix : List UInt8) :
    ∃ remaining, V.decodeU32 (buildFrame V stream_id flag payload.val ++ suffix) =
        some (headerVal stream_id flag, remaining) ∧
      buildFrame V stream_id flag payload.val ++ suffix =
        V.encodeU32 (headerVal stream_id flag) ++ remaining ∧
      V.decodeUsize remaining =
        some (UInt64.ofNat payload.val.length, payload.val ++ suffix) := by
  have hframe : buildFrame V stream_id flag payload.val ++ suffix =
      V.encodeU32 (headerVal stream_id flag) ++
        (V.encodeUsize (UInt64.ofNat payload.val.length) ++ (payload.val ++ suffix)) := by
    unfold buildFrame headerVal
    rw [List.append_assoc, List.append_assoc]
  refine ⟨_, ?_, hframe, V.decodeUsize_encode ..⟩
  rw [hframe, V.decodeU32_encode]

/-- **The frame codec**, part by part. For an id below 2^29 `process_header` returns the
id, the flag, the number of header bytes and the length of the payload, and the decodes
and the slice of `handle_incoming` give the payload, whatever follows the frame. -/
theorem frame_parsed (stream_id : UInt32) (hid : stream_id.toNat < 2 ^ 29)
    (flag : MuxedStreamFlag) (payload : Payload) (suffix : List UInt8) :
    ∃ header remaining payload_len payload_after_len,
      buildFrame V stream_id flag payload.val ++ suffix = header ++ remaining ∧
      processHeader V (buildFrame V stream_id flag payload.val ++ suffix) =
        .ok (stream_id, flag, header.length, payload_len) ∧
      payload_len.toNat = payload.val.length ∧
      V.decodeU32 (buildFrame V stream_id flag payload.val ++ suffix) =
        some (headerVal stream_id flag, remaining) ∧
      V.decodeUsize remaining = some (payload_len, payload_after_len) ∧
      payload_after_len.take payload_len.toNat = payload.val ∧
      extractPayload V (buildFrame V stream_id flag payload.val ++ suffix) =
        .ok (stream_id, flag, payload) := by
  obtain ⟨remaining, hdec, hsplit, hlen⟩ := decodes_buildFrame V stream_id flag payload suffix
  have hpl : (UInt64.ofNat payload.val.length).toNat = payload.val.length :=
    UInt64.toNat_ofNat_of_lt' payload.property
  refine ⟨V.encodeU32 (headerVal stream_id flag), remaining, UInt64.ofNat payload.val.length,
    payload.val ++ suffix, hsplit, ?_, hpl, hdec, hlen, ?_, ?_⟩
  · rw [processHeader_buildFrame, wireId_of_lt hid]
    rfl
  · rw [hpl, List.take_left]
  · rw [extractPayload_buildFrame, wireId_of_lt hid]

/-- A message of three bytes on the largest id that fits, with two bytes behind it. -/
theorem frame_parsed_largest :
    ∃ header remaining payload_len payload_after_len,
      buildFrame leb128 536870911 .message [1, 2, 3] ++ [4, 5] = header ++ remaining ∧
      processHeader leb128 (buildFrame leb128 536870911 .message [1, 2, 3] ++ [4, 5]) =
        .ok (536870911, .message, header.length, payload_len) ∧
      payload_len.toNat = 3 ∧
      leb128.decodeU32 (buildFrame leb128 536870911 .message [1, 2, 3] ++ [4, 5]) =
        some (headerVal 536870911 .message, remaining) ∧
      leb128.decodeUsize remaining = some (payload_len, payload_after_len) ∧
      payload_after_len.take payload_len.toNat = [1, 2, 3] ∧
      extractPayload leb128 (buildFrame leb128 536870911 .message [1, 2, 3] ++ [4, 5]) =
        .ok (536870911, .message, ⟨[1, 2, 3], by decide⟩) :=
  frame_parsed leb128 536870911 (by decide) .message ⟨[1, 2, 3], by decide⟩ [4, 5]

/-! ## Any bytes -/

/-- The call either returns an `Err`, or a payload of the declared length that lies
inside the buffer. -/
def ParsesSafely (buf : List UInt8) : Prop :=
  (∃ msg, extractPayload V buf = .error (.err msg)) ∨
  ∃ stream_id flag header_len payload_len payload,
    processHeader V buf = .ok (stream_id, flag, header_len, payload_len) ∧
    extractPayload V buf = .ok (stream_id, flag, payload) ∧
    payload.val.length = payload_len.toNat ∧ payload.val <:+: buf

/-- The declared length is at most the number of bytes behind a header that decodes and
has a valid flag. -/
def DeclaredFits (buf : List UInt8) : Prop :=
  ∀ header_val remaining payload_len payload_after_len,
    V.decodeU32 buf = some (header_val, remaining) →
    V.decodeUsize remaining = some (payload_len, payload_after_len) →
    MuxedStreamFlag.fromTag (header_val &&& 0b111).toUInt8 ≠ none →
    payload_len.toNat ≤ payload_after_len.length

/-- What the parsing part does with any bytes: an `Err` of `process_header`, or a valid
header whose decodes succeed a second time. -/
theorem extractPayload_cases (buf : List UInt8) :
    (∃ msg, extractPayload V buf = .error (.err msg) ∧ DeclaredFits V buf) ∨
    ∃ header_val remaining payload_len payload_after_len flag header_len,
      V.decodeU32 buf = some (header_val, remaining) ∧
      V.decodeUsize remaining = some (payload_len, payload_after_len) ∧
      MuxedStreamFlag.fromTag (header_val &&& 0b111).toUInt8 = some flag ∧
      processHeader V buf = .ok (header_val >>> 3, flag, header_len, payload_len) ∧
      extractPayload V buf =
        if payload_len.toNat ≤ payload_after_len.length then
          .ok (header_val >>> 3, flag, ⟨payload_after_len.take payload_len.toNat,
            Nat.lt_of_le_of_lt (List.length_take_le _ _) payload_len.toNat_lt⟩)
        else .error .panic := by
  unfold extractPayload processHeader DeclaredFits
  cases hdec : V.decodeU32 buf with
  | none =>
    left
    exact ⟨_, rfl, fun _ _ _ _ h => nomatch h⟩
  | some p =>
    obtain ⟨header_val, remaining⟩ := p
    cases hlen : V.decodeUsize remaining with
    | none =>
      left
      refine ⟨"Invalid length", ?_, fun hv rem _ _ h h' => ?_⟩
      · dsimp only
        rw [hlen]
      · obtain ⟨rfl, rfl⟩ := Prod.mk.inj (Option.some.inj h)
        rw [hlen] at h'
        exact nomatch h'
    | some q =>
      obtain ⟨payload_len, payload_after_len⟩ := q
      cases hflag : MuxedStreamFlag.fromTag (header_val &&& 0b111).toUInt8 with
      | none =>
        left
        refine ⟨"Invalid mplex flag", ?_, fun hv rem _ _ h _ h' => ?_⟩
        · dsimp only
          rw [hlen]
          dsimp only
          rw [hflag]
        · obtain ⟨rfl, rfl⟩ := Prod.mk.inj (Option.some.inj h)
          exact absurd hflag h'
      | some flag =>
        right
        refine ⟨header_val, remaining, payload_len, payload_after_len, flag,
          buf.length - remaining.length, rfl, hlen, hflag, ?_, ?_⟩
        · dsimp only
          rw [hlen]
          dsimp only
          rw [hflag]
        · dsimp only
          rw [hlen]
          dsimp only
          rw [hflag]

/-- **Parsing any bytes.** The call returns an `Err` or a payload of the declared length from
inside the buffer exactly if no valid header declares more bytes than follow it; a decode
leaves a tail of what it reads. -/
theorem parses_safely_iff
    (hsuffix : ∀ {b rest : List UInt8} {n : UInt64}, V.decodeUsize b = some (n, rest) → rest <:+ b)
    (buf : List UInt8) : ParsesSafely V buf ↔ DeclaredFits V buf := by
  rcases extractPayload_cases V buf with ⟨msg, herr, hfits⟩ |
    ⟨header_val, remaining, payload_len, payload_after_len, flag, header_len, hdec, hlen, hflag,
      hhead, hext⟩
  · exact ⟨fun _ => hfits, fun _ => Or.inl ⟨msg, herr⟩⟩
  · by_cases hle : payload_len.toNat ≤ payload_after_len.length
    · rw [if_pos hle] at hext
      refine ⟨fun _ => ?_, fun _ => Or.inr ⟨_, _, _, _, _, hhead, hext, ?_, ?_⟩⟩
      · intro hv rem len after h h' _
        rw [hdec] at h
        obtain ⟨rfl, rfl⟩ := Prod.mk.inj (Option.some.inj h)
        rw [hlen] at h'
        obtain ⟨rfl, rfl⟩ := Prod.mk.inj (Option.some.inj h')
        exact hle
      · dsimp only
        rw [List.length_take, Nat.min_eq_left hle]
      · -- a prefix of a tail of a tail
        exact (List.take_prefix ..).isInfix.trans
          ((hsuffix hlen).trans (V.decodeU32_suffix hdec)).isInfix
    · rw [if_neg hle] at hext
      refine ⟨fun h => ?_, fun h => ?_⟩
      · rcases h with ⟨msg, herr⟩ | ⟨_, _, _, _, _, _, hok, _⟩
        · rw [hext] at herr
          exact nomatch herr
        · rw [hext] at hok
          exact nomatch hok
      · have hne : MuxedStreamFlag.fromTag (header_val &&& 0b111).toUInt8 ≠ none := by
          rw [hflag]
          exact Option.some_ne_none _
        exact absurd (h _ _ _ _ hdec hlen hne) hle

theorem leb128_decodeUsize_suffix {b rest : List UInt8} {n : UInt64}
    (h : leb128.decodeUsize b = some (n, rest)) : rest <:+ b := by
  obtain ⟨p, hp, hpe⟩ := Option.map_eq_some_iff.mp h
  obtain ⟨-, rfl⟩ := Prod.mk.inj hpe
  exact Lib.Leb128.decode_suffix 10 hp

/-- A message on stream 1 that declares two bytes and has three. -/
theorem parses_safely_long :
    ParsesSafely leb128 [10, 2, 7, 8, 9] ↔ DeclaredFits leb128 [10, 2, 7, 8, 9] :=
  parses_safely_iff leb128 leb128_decodeUsize_suffix _

/-- **A message that declares more than it has** makes the slice panic. -/
theorem short_payload_panics :
    extractPayload leb128 [10, 5, 7] = .error .panic ∧ ¬ ParsesSafely leb128 [10, 5, 7] := by
  have hpanic : extractPayload leb128 [10, 5, 7] = .error .panic := rfl
  refine ⟨hpanic, ?_⟩
  intro h
  rcases h with ⟨msg, herr⟩ | ⟨_, _, _, _, _, _, hok, _⟩
  · rw [hpanic] at herr
    exact nomatch herr
  · rw [hpanic] at hok
    exact nomatch hok

end Rnet.Mplex
