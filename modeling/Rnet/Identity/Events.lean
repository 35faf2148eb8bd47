import Rnet.Lib.Wire

/-!
# Global events: `events.rs`

What the protocols of a node tell its owner goes through one channel of bytes, in the format that
`bincode` has for what serde derives. The owner reads them as a `GlobalEvent`, and unwraps the
message and the source of a published message.

> `globalEventWire_fits`: what serde derives has room for every event whose fields are no longer
> than their lengths can say.
-/

namespace Rnet.Identity

open Rnet.Lib
open Rnet.Lib.Wire (byte uint text)

inductive FloodsubMsgType
  | publish
  | subscribe
  | unsubscribe
  deriving DecidableEq, Repr

structure FloodsubEvent where
  msg_type : FloodsubMsgType
  source : Option String
  msg : Option (List UInt8)
  topic : String
  deriving DecidableEq, Repr

/-- `PingEvent`; the RTTs and the count are numbers of 128 bits. -/
structure PingEvent where
  remote : String
  rtts : List Nat
  count : Nat
  deriving DecidableEq, Repr

inductive GlobalEvent
  | floodsub (event : FloodsubEvent)
  | ping (event : PingEvent)
  deriving DecidableEq, Repr

/-! ## What there is room for -/

/-- No field is longer than its length can say, and no number longer than 128 bits. -/
def GlobalEvent.Fits : GlobalEvent → Prop
  | .floodsub e => (∀ s, e.source = some s → FitsText s) ∧
      (∀ m, e.msg = some m → m.length < 256 ^ 8) ∧ FitsText e.topic
  | .ping e => FitsText e.remote ∧
      (e.rtts.length < 256 ^ 8 ∧ ∀ rtt ∈ e.rtts, rtt < 256 ^ 16) ∧ e.count < 256 ^ 16

/-! ## The derived formats -/

/-- The number of the variant. -/
def FloodsubMsgType.tag : FloodsubMsgType → Nat
  | publish => 0
  | subscribe => 1
  | unsubscribe => 2

theorem FloodsubMsgType.tag_lt (t : FloodsubMsgType) : t.tag < 3 := by cases t <;> decide

def msgTypes : Fin 3 ≃ FloodsubMsgType where
  toFun
    | 0 => .publish
    | 1 => .subscribe
    | 2 => .unsubscribe
  invFun t := ⟨t.tag, t.tag_lt⟩
  left_inv i := by
    match i with
    | 0 | 1 | 2 => rfl
  right_inv t := by cases t <;> rfl

def floodsubFields :
    FloodsubMsgType × Option String × Option (List UInt8) × String ≃ FloodsubEvent where
  toFun f := ⟨f.1, f.2.1, f.2.2.1, f.2.2.2⟩
  invFun e := (e.msg_type, e.source, e.msg, e.topic)
  left_inv _ := rfl
  right_inv _ := rfl

def pingFields : String × List Nat × Nat ≃ PingEvent where
  toFun f := ⟨f.1, f.2.1, f.2.2⟩
  invFun e := (e.remote, e.rtts, e.count)
  left_inv _ := rfl
  right_inv _ := rfl

def globalCases : FloodsubEvent ⊕ PingEvent ≃ GlobalEvent where
  toFun := Sum.elim .floodsub .ping
  invFun
    | .floodsub e => .inl e
    | .ping e => .inr e
  left_inv s := by cases s <;> rfl
  right_inv e := by cases e <;> rfl

def msgTypeWire : Wire FloodsubMsgType := (Wire.variants 3).along msgTypes.toPEquiv

def floodsubEventWire : Wire FloodsubEvent :=
  (msgTypeWire.pair (text.option.pair (byte.list.option.pair text))).along floodsubFields.toPEquiv

def pingEventWire : Wire PingEvent :=
  (text.pair ((uint 16).list.pair (uint 16))).along pingFields.toPEquiv

def globalEventWire : Wire GlobalEvent :=
  (floodsubEventWire.either pingEventWire).along globalCases.toPEquiv

theorem globalEventWire_fits {e : GlobalEvent} : globalEventWire.Fits e ↔ e.Fits := by
  unfold globalEventWire
  rw [Wire.along_fits]
  cases e with
  | floodsub e =>
    refine (Wire.either_fits_inl ..).trans ?_
    unfold floodsubEventWire
    rw [Wire.along_fits]
    show msgTypeWire.Fits e.msg_type ∧ text.option.Fits e.source ∧ byte.list.option.Fits e.msg ∧
      text.Fits e.topic ↔ _
    have htype : msgTypeWire.Fits e.msg_type := by
      unfold msgTypeWire
      rw [Wire.along_fits]
      exact Wire.variants_fits (by decide) _
    simp only [Wire.option_fits, Wire.text_fits, Wire.bytes_fits, htype, true_and]
    exact Iff.rfl
  | ping e =>
    refine (Wire.either_fits_inr ..).trans ?_
    unfold pingEventWire
    rw [Wire.along_fits]
    show text.Fits e.remote ∧ (uint 16).list.Fits e.rtts ∧ (uint 16).Fits e.count ↔ _
    simp only [Wire.list_fits, Wire.text_fits]
    exact Iff.rfl

/-- The format of the global events. -/
def globalEventBincode : Bincode GlobalEvent GlobalEvent.Fits :=
  globalEventWire.bincode globalEventWire_fits.mpr

end Rnet.Identity
