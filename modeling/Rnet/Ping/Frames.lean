import Rnet.Lib.Wire
import Rnet.Lib.Loop
import Rnet.Ping.Exchange
import Rnet.Ping.Engine

/-!
# Coded packets as frames

`formulate` cuts a payload into chunks and codes ten packets of them under one id; each is written
to the stream in the format of `bincode`, which is a parameter. A frame is read back by
`from_bytes`, which panics on bytes that are no packet.

> `fromBytes_asBytes`: what `as_bytes` gives for a packet is read back.

> `formulate_spec`: the ten packets have one coefficient per chunk, five bytes and the id.
-/

namespace Rnet.Ping

open Lib
open Lib.Wire (byte text)

/-- `DEFAULT_ENCODE_SET_LEN`. -/
def DEFAULT_ENCODE_SET_LEN : Nat := 10

/-- `PAYLOAD_ID_LEN`. -/
def PAYLOAD_ID_LEN : Nat := 16

namespace EncodedPayload

/-- No field is longer than its length can say. -/
def Short (p : EncodedPayload) : Prop :=
  p.coeffs.length < 256 ^ 8 ∧ p.payload.length < 256 ^ 8 ∧ FitsText p.id

/-- `EncodedPayload::as_bytes`. -/
def asBytes (B : Bincode EncodedPayload Short) (p : EncodedPayload) : List UInt8 := B.serialize p

/-- `EncodedPayload::from_bytes`; `none` is the panic of its `unwrap`. -/
def fromBytes (B : Bincode EncodedPayload Short) (frame : List UInt8) : Option EncodedPayload :=
  B.deserialize frame

theorem fromBytes_asBytes (B : Bincode EncodedPayload Short) {p : EncodedPayload} (h : p.Short) :
    fromBytes B (p.asBytes B) = some p := B.deserialize_serialize h

/-- The fields, in their order. -/
def fields : List UInt8 × List UInt8 × String ≃ EncodedPayload where
  toFun f := ⟨f.1, f.2.1, f.2.2⟩
  invFun p := (p.coeffs, p.payload, p.id)
  left_inv _ := rfl
  right_inv _ := rfl

/-- Field behind field. -/
def bincode : Bincode EncodedPayload Short :=
  ((byte.list.pair (byte.list.pair text)).along fields.toPEquiv).bincode fun h =>
    (Wire.along_fits ..).mpr ⟨Wire.bytes_fits.mpr h.1, Wire.bytes_fits.mpr h.2.1,
      Wire.text_fits.mpr h.2.2⟩

end EncodedPayload

/-- What `sample_iter(&Alphanumeric).take(PAYLOAD_ID_LEN)` can give. -/
structure PayloadId where
  text : String
  length : text.toList.length = PAYLOAD_ID_LEN
  alphanumeric : ∀ c ∈ text.toList, c.isAlphanum = true

theorem PayloadId.length_toUtf8 (id : PayloadId) : (toUtf8 id.text).length = PAYLOAD_ID_LEN := by
  have hascii : ∀ c ∈ id.text.toList, c.toNat < 128 := by
    intro c hc
    -- the three ranges end at `Z`, `z` and `9`
    have below : ∀ d : Char, d.toNat < 128 → c.val ≤ d.val → c.toNat < 128 :=
      fun d hd hle => Nat.lt_of_le_of_lt (UInt32.le_iff_toNat_le.mp hle) hd
    rcases (Bool.or_eq_true ..).mp (id.alphanumeric c hc) with h | h
    · rcases (Bool.or_eq_true ..).mp h with h | h
      · exact below 'Z' (by decide) (of_decide_eq_true h).2
      · exact below 'z' (by decide) (of_decide_eq_true ((Bool.and_eq_true ..).mp h).2)
    · exact below '9' (by decide) (of_decide_eq_true ((Bool.and_eq_true ..).mp h).2)
  have h := toUtf8_ofList hascii
  rw [String.ofList_toList] at h
  rw [h, List.length_map, id.length]

/-- `EncodedPayload::generate_encoded_set`, with the random coefficients of packet `k` drawn as
`draws k`. -/
def generateEncodedSet (packets : Rows) (draws : Nat → Nat → UInt8) (id : String) :
    Option (List EncodedPayload) :=
  (List.range DEFAULT_ENCODE_SET_LEN).mapM fun k => encode packets (draws k) id

/-- `PingRLNC::formulate`. -/
def formulate (payload : List UInt8) (draws : Nat → Nat → UInt8) (id : String) :
    Option (List EncodedPayload) :=
  generateEncodedSet (split payload) draws id

/-- A packet with `n` coefficients and five bytes. -/
structure Coded (n : Nat) (id : String) (p : EncodedPayload) : Prop where
  coeffs : p.coeffs.length = n
  payload : p.payload.length = 5
  id : p.id = id

theorem encode_coded {payload : List UInt8} (hne : payload ≠ []) (draws : Nat → UInt8)
    (id : String) : ∃ p, encode (split payload) draws id = some p ∧
      Coded (split payload).length id p := by
  have hl : ∀ q ∈ split payload, q.length = 5 := fun q hq => length_of_mem_split hq
  have hpos : split payload ≠ [] := by
    have hlen := length_split payload
    have := List.length_pos_iff.mpr hne
    apply List.ne_nil_of_length_pos
    omega
  have hsome : ∃ p, encode (split payload) draws id = some p := by
    cases hs : split payload with
    | nil => exact absurd hs hpos
    | cons first rest =>
      rw [hs] at hl
      unfold encode
      dsimp only
      rw [if_neg]
      · exact ⟨_, rfl⟩
      · rw [List.any_eq_true]
        intro h
        obtain ⟨q, hq, hlt⟩ := h
        have hlt := of_decide_eq_true hlt
        rw [hl q hq, hl first (List.mem_cons_self ..)] at hlt
        exact absurd hlt (Nat.lt_irrefl 5)
  obtain ⟨p, hp⟩ := hsome
  obtain ⟨hc, hpl, hid⟩ := encode_shape hl hp
  exact ⟨p, hp, hc, hpl, hid⟩

/-- **A set of packets**: it is never refused, and its packets are alike. -/
theorem formulate_spec {payload : List UInt8} (hne : payload ≠ []) (draws : Nat → Nat → UInt8)
    (id : String) : ∃ set, formulate payload draws id = some set ∧
      set.length = DEFAULT_ENCODE_SET_LEN ∧ ∀ p ∈ set, Coded (split payload).length id p := by
  obtain ⟨set, hset, hlen, hall⟩ := mapM_of_forall (List.range DEFAULT_ENCODE_SET_LEN)
    fun k _ => encode_coded hne (draws k) id
  rw [List.length_range] at hlen
  exact ⟨set, hset, hlen, hall⟩

/-- A request has seven chunks. -/
theorem formulate_pingPayload (draws : Nat → Nat → UInt8) (id : String) :
    ∃ set, formulate pingPayload draws id = some set ∧ set.length = DEFAULT_ENCODE_SET_LEN ∧
      ∀ p ∈ set, Coded 7 id p := by
  have hlen : (split pingPayload).length = 7 := by decide
  rw [← hlen]
  exact formulate_spec (by decide) draws id

end Rnet.Ping
