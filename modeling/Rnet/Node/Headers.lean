import Rnet.Lib.Fields

/-!
# The frames of commands: `node/src/headers.rs`, `swarm/src/headers.rs`

The node and the swarm each take their commands from a queue of frames, and each crate has a
module of its own for them. The two differ in the name of the flag only: a frame is the tag of
the flag, a text, and a list of texts or none.

> `processFrame_buildFrame`: a frame is read back as it was built, whatever is behind it, when
> its texts are shorter than 2³² bytes.

A longer text gets a length that is cut to 32 bits, and the frame is read as another one.
-/

namespace Rnet.Node

open Rnet.Lib

variable {F : Type}

/-- `build_host_frame` of both crates, for the tag of the flag. -/
def buildFrame (tag : UInt8) (payload_string : String) : Option (List String) → List UInt8
  | none => tag :: putString payload_string ++ [0]
  | some v => tag :: putString payload_string ++ 1 :: putStrings v

/-- `process_host_frame` of both crates: it panics on a frame that ends early, that has another
tag, or whose texts are not UTF-8. -/
def processFrame (from_tag : UInt8 → Option F) :
    List UInt8 → Option (F × String × Option (List String))
  | [] => none
  | tag :: bytes => do
    let flag ← from_tag tag
    let (s, bytes) ← takeString bytes
    match bytes with
    | [] => none
    | has_vec :: bytes =>
      if has_vec = 0 then some (flag, s, none)
      else do
        let (v, _) ← takeStrings bytes
        some (flag, s, some v)

/-- The texts of a frame and their number fit their length fields. -/
structure FitsFrame (payload_string : String) (opt_vec : Option (List String)) : Prop where
  text : ShortText payload_string
  count : ∀ v ∈ opt_vec, FitsU32 v.length
  items : ∀ v ∈ opt_vec, ∀ item ∈ v, ShortText item

/-- What is read once the tag and the text are. -/
theorem processFrame_of_text {from_tag : UInt8 → Option F} {tag has_vec : UInt8} {flag : F}
    {s : String} {bytes rest : List UInt8} (hflag : from_tag tag = some flag)
    (htext : takeString bytes = some (s, has_vec :: rest)) :
    processFrame from_tag (tag :: bytes) =
      if has_vec = 0 then some (flag, s, none)
      else (takeStrings rest).map fun v => (flag, s, some v.1) := by
  -- the rest of the frame is read only if there is a list
  unfold processFrame
  simp only [hflag, htext, Option.bind_eq_bind, Option.bind_some]
  cases takeStrings rest with
  | none => rfl
  | some v => rfl

/-- **The frames can be read back**, by either crate. -/
theorem processFrame_buildFrame {from_tag : UInt8 → Option F} {tag : UInt8} {flag : F}
    (hflag : from_tag tag = some flag) {payload_string : String} {opt_vec : Option (List String)}
    (h : FitsFrame payload_string opt_vec) (rest : List UInt8) :
    processFrame from_tag (buildFrame tag payload_string opt_vec ++ rest) =
      some (flag, payload_string, opt_vec) := by
  cases opt_vec with
  | none =>
    have htext := takeString_putString h.text (0 :: rest)
    have hframe : buildFrame tag payload_string none ++ rest =
        tag :: (putString payload_string ++ 0 :: rest) := by
      simp [buildFrame]
    rw [hframe, processFrame_of_text hflag htext]
    rfl
  | some v =>
    have htext := takeString_putString h.text (1 :: (putStrings v ++ rest))
    have hframe : buildFrame tag payload_string (some v) ++ rest =
        tag :: (putString payload_string ++ 1 :: (putStrings v ++ rest)) := by
      simp [buildFrame]
    rw [hframe, processFrame_of_text hflag htext,
      takeStrings_putStrings (h.count v rfl) (h.items v rfl)]
    rfl

/-! ## The node -/

/-- `HostMpscTxFlag`. -/
inductive HostMpscTxFlag
  | newStream
  | connect
  | disconnect
  deriving DecidableEq, Repr

/-- `tag`. -/
def HostMpscTxFlag.tag : HostMpscTxFlag → UInt8
  | .newStream => 1
  | .connect => 2
  | .disconnect => 3

/-- `from_tag`. -/
def HostMpscTxFlag.fromTag (tag : UInt8) : Option HostMpscTxFlag :=
  if tag = 1 then some .newStream
  else if tag = 2 then some .connect
  else if tag = 3 then some .disconnect
  else none

/-- `build_host_frame` of the node. -/
def buildHostFrame (flag : HostMpscTxFlag) (payload_string : String)
    (opt_vec : Option (List String)) : List UInt8 :=
  buildFrame flag.tag payload_string opt_vec

/-- `process_host_frame` of the node. -/
def processHostFrame (payload : List UInt8) :
    Option (HostMpscTxFlag × String × Option (List String)) :=
  processFrame HostMpscTxFlag.fromTag payload

theorem HostMpscTxFlag.fromTag_tag (flag : HostMpscTxFlag) : fromTag flag.tag = some flag := by
  cases flag <;> rfl

theorem processHostFrame_build (flag : HostMpscTxFlag) {payload_string : String}
    {opt_vec : Option (List String)} (h : FitsFrame payload_string opt_vec) :
    processHostFrame (buildHostFrame flag payload_string opt_vec) =
      some (flag, payload_string, opt_vec) := by
  have hread := processFrame_buildFrame flag.fromTag_tag h []
  rw [List.append_nil] at hread
  exact hread

end Rnet.Node

namespace Rnet.Swarm

open Rnet.Node

/-! ## The swarm -/

/-- `SwarmMpscTxFlag`. -/
inductive SwarmMpscTxFlag
  | newStream
  | connect
  | disconnect
  deriving DecidableEq, Repr

/-- `tag`. -/
def SwarmMpscTxFlag.tag : SwarmMpscTxFlag → UInt8
  | .newStream => 1
  | .connect => 2
  | .disconnect => 3

/-- `from_tag`. -/
def SwarmMpscTxFlag.fromTag (tag : UInt8) : Option SwarmMpscTxFlag :=
  if tag = 1 then some .newStream
  else if tag = 2 then some .connect
  else if tag = 3 then some .disconnect
  else none

/-- `build_host_frame` of the swarm. -/
def buildHostFrame (flag : SwarmMpscTxFlag) (payload_string : String)
    (opt_vec : Option (List String)) : List UInt8 :=
  buildFrame flag.tag payload_string opt_vec

/-- `process_host_frame` of the swarm. -/
def processHostFrame (payload : List UInt8) :
    Option (SwarmMpscTxFlag × String × Option (List String)) :=
  processFrame SwarmMpscTxFlag.fromTag payload

theorem SwarmMpscTxFlag.fromTag_tag (flag : SwarmMpscTxFlag) : fromTag flag.tag = some flag := by
  cases flag <;> rfl

theorem processHostFrame_build (flag : SwarmMpscTxFlag) {payload_string : String}
    {opt_vec : Option (List String)} (h : FitsFrame payload_string opt_vec) :
    processHostFrame (buildHostFrame flag payload_string opt_vec) =
      some (flag, payload_string, opt_vec) := by
  have hread := processFrame_buildFrame flag.fromTag_tag h []
  rw [List.append_nil] at hread
  exact hread

end Rnet.Swarm
