import Rnet.Lib.Framing

/-!
# The message cache: `floodsub/src/cache.rs`

A message is known by its origin and its sequence number (`MessageKey`), and the
sequence number is the publisher's clock in whole seconds, as eight little-endian
bytes. The cache maps a key to the time it was first seen at; a cleanup pass drops
the entries that are more than `LAST_SEEN_TTL` seconds old.
-/

namespace Rnet.Floodsub

open Rnet.Lib

/-- `MessageKey`. -/
structure MessageKey where
  from_ : List UInt8
  seqno : UInt64
  deriving DecidableEq, Repr

/-- `LastSeenCache`: the keys seen, each with the second it was first seen in. -/
abbrev LastSeenCache := MessageKey → Option UInt64

/-- `LAST_SEEN_TTL`. -/
def LAST_SEEN_TTL : UInt64 := 120

/-- `get_seqno`, when the clock reads `now`. -/
def getSeqno (now : UInt64) : List UInt8 := (beBytes 8 now.toNat).reverse

/-- `seqno_to_unix_tx`. -/
def seqnoToUnixTx (seqno : List UInt8) : Option UInt64 :=
  if seqno.length ≠ 8 then none else some (UInt64.ofNat (ofBe seqno.reverse))

/-- `u64::saturating_sub`. -/
def saturatingSub (a b : UInt64) : UInt64 := if b ≤ a then a - b else 0

/-- One pass of `cleanup_msg_cache`, when the clock reads `now`. -/
def cleanupMsgCache (cache : LastSeenCache) (now : UInt64) : LastSeenCache := fun key =>
  match cache key with
  | some first_seen_ts =>
    if saturatingSub now first_seen_ts ≤ LAST_SEEN_TTL then some first_seen_ts else none
  | none => none

/-- A sequence number is read back as the second it was made in. -/
@[simp] theorem seqnoToUnixTx_getSeqno (now : UInt64) :
    seqnoToUnixTx (getSeqno now) = some now := by
  unfold seqnoToUnixTx getSeqno
  rw [List.length_reverse, length_beBytes, List.reverse_reverse,
    ofBe_beBytes_of_lt (by have := now.toNat_lt; omega), UInt64.ofNat_toNat]
  rfl

theorem saturatingSub_toNat (a b : UInt64) : (saturatingSub a b).toNat = a.toNat - b.toNat := by
  unfold saturatingSub
  by_cases h : b ≤ a
  · rw [if_pos h, UInt64.toNat_sub_of_le _ _ h]
  · rw [if_neg h]
    have : a.toNat < b.toNat := by
      rw [UInt64.le_iff_toNat_le] at h
      omega
    rw [UInt64.toNat_zero]
    omega

/-- A pass keeps an entry as it is or drops it, the latter when it is too old. -/
theorem cleanupMsgCache_some {cache : LastSeenCache} {now ts : UInt64} {key : MessageKey}
    (h : cache key = some ts) :
    cleanupMsgCache cache now key = if now.toNat ≤ ts.toNat + 120 then some ts else none := by
  unfold cleanupMsgCache
  rw [h]
  have hle : saturatingSub now ts ≤ LAST_SEEN_TTL ↔ now.toNat ≤ ts.toNat + 120 := by
    rw [UInt64.le_iff_toNat_le, saturatingSub_toNat, show LAST_SEEN_TTL.toNat = 120 from rfl]
    omega
  simp only [hle]

theorem cleanupMsgCache_none {cache : LastSeenCache} {now : UInt64} {key : MessageKey}
    (h : cache key = none) : cleanupMsgCache cache now key = none := by
  unfold cleanupMsgCache
  rw [h]

end Rnet.Floodsub
