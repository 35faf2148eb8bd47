import Rnet.Lib.Index
import Rnet.Node.Headers

/-!
# Reading a frame by its index: `process_host_frame`

`process_host_frame` keeps an index into its payload and moves it behind each field that it has
read: the tag, the text, the byte that says whether there is a list, the number of its texts and
each of them in a counted loop. A range that is out of bounds panics.

> `processFrameAt_eq`: on every payload this is what `processFrame` reads off the front, so the
> two fail on the same payloads.

> `hostFrames_read_back`: both crates read their frames back as they were built, whatever is
> behind them, and no index is out of range.
-/

namespace Rnet.Node

open Rnet.Lib

variable {F : Type}

/-- `process_host_frame` of both crates, for the flag of the tag; `none` is a panic. -/
def processFrameAt (from_tag : UInt8 → Option F) (payload : List UInt8) :
    Option (F × String × Option (List String)) := do
  let idx := 0
  let tag ← payload[idx]?
  let idx := idx + 1
  let flag ← from_tag tag
  let s_len ← u32At payload idx
  let idx := idx + 4
  let s ← stringAt payload idx s_len
  let idx := idx + s_len
  let has_vec ← payload[idx]?
  let idx := idx + 1
  if has_vec = 0 then some (flag, s, none)
  else do
    let count ← u32At payload idx
    let idx := idx + 4
    let (v, _) ← itemsAt payload count [] idx
    some (flag, s, some v)

/-- `process_host_frame` of the node. -/
def processHostFrameAt (payload : List UInt8) :
    Option (HostMpscTxFlag × String × Option (List String)) :=
  processFrameAt HostMpscTxFlag.fromTag payload

/-- A list of texts at an index. -/
theorem takeStrings_drop (payload : List UInt8) (idx : Nat) :
    (takeStrings (payload.drop idx)).map Prod.fst =
      (u32At payload idx).bind fun count => (itemsAt payload count [] (idx + 4)).map Prod.fst := by
  unfold takeStrings
  rw [takeU32_drop]
  cases u32At payload idx with
  | none => rfl
  | some count =>
    have hitems := congrArg (Option.map Prod.fst) (takeItems_drop payload count [] (idx + 4))
    rw [Option.map_map, Option.map_map] at hitems
    exact hitems

theorem bind_fst {α β γ : Type} (o : Option (α × β)) (f : α → γ) :
    (o.bind fun p => some (f p.1)) = (o.map Prod.fst).map f := by
  cases o <;> rfl

/-- **The two ways of reading a frame** are one. -/
theorem processFrameAt_eq (from_tag : UInt8 → Option F) (payload : List UInt8) :
    processFrameAt from_tag payload = processFrame from_tag payload := by
  unfold processFrameAt processFrame
  cases payload with
  | nil => rfl
  | cons tag bytes =>
    simp only [List.getElem?_cons_zero, Option.bind_eq_bind, Option.bind_some, Nat.zero_add]
    cases from_tag tag with
    | none => rfl
    | some flag =>
      have htext := takeString_drop (tag :: bytes) 1
      rw [List.drop_one, List.tail_cons] at htext
      rw [htext, Option.bind_some, Option.bind_some]
      cases u32At (tag :: bytes) 1 with
      | none => rfl
      | some s_len =>
        rw [Option.bind_some, Option.bind_some]
        cases stringAt (tag :: bytes) (1 + 4) s_len with
        | none => rfl
        | some s =>
          simp only [Option.bind_some, Option.map_some]
          -- the byte at the index, and the bytes behind it
          have hlist := takeStrings_drop (tag :: bytes) (1 + 4 + s_len + 1)
          rw [← List.tail_drop] at hlist
          rw [← List.head?_drop]
          cases hleft : (tag :: bytes).drop (1 + 4 + s_len) with
          | nil => rfl
          | cons has_vec rest =>
            rw [hleft, List.tail_cons] at hlist
            rw [List.head?_cons, Option.bind_some]
            dsimp only
            by_cases hvec : has_vec = 0
            · rw [if_pos hvec, if_pos hvec]
            · let read (v : List String) := (flag, s, some v)
              rw [if_neg hvec, if_neg hvec, bind_fst (takeStrings rest) read, hlist, Option.map_bind]
              congr 1
              funext count
              exact bind_fst (itemsAt (tag :: bytes) count [] _) read

end Rnet.Node

namespace Rnet.Swarm

/-- `process_host_frame` of the swarm. -/
def processHostFrameAt (payload : List UInt8) :
    Option (SwarmMpscTxFlag × String × Option (List String)) :=
  Node.processFrameAt SwarmMpscTxFlag.fromTag payload

end Rnet.Swarm

namespace Rnet.Node

/-- **The frames of both crates.** For every flag, text and list whose lengths fit 32 bits, a frame
with any bytes behind it is read back as it was built. -/
theorem hostFrames_read_back {payload_string : String} {opt_vec : Option (List String)}
    (h : FitsFrame payload_string opt_vec) (suffix : List UInt8) :
    (∀ flag : HostMpscTxFlag,
      processHostFrameAt (buildHostFrame flag payload_string opt_vec ++ suffix) =
        some (flag, payload_string, opt_vec)) ∧
    ∀ flag : Swarm.SwarmMpscTxFlag,
      Swarm.processHostFrameAt (Swarm.buildHostFrame flag payload_string opt_vec ++ suffix) =
        some (flag, payload_string, opt_vec) := by
  constructor
  · intro flag
    exact (processFrameAt_eq ..).trans (processFrame_buildFrame flag.fromTag_tag h suffix)
  · intro flag
    exact (processFrameAt_eq ..).trans (processFrame_buildFrame flag.fromTag_tag h suffix)

/-- A text of two characters in front of a list with an empty text in it, and three bytes behind
the frame. -/
theorem hostFrames_read_back_suffix :
    (∀ flag : HostMpscTxFlag,
      processHostFrameAt (buildHostFrame flag "né" (some ["ping", "", "é"]) ++ [1, 0, 255]) =
        some (flag, "né", some ["ping", "", "é"])) ∧
    ∀ flag : Swarm.SwarmMpscTxFlag,
      Swarm.processHostFrameAt
          (Swarm.buildHostFrame flag "né" (some ["ping", "", "é"]) ++ [1, 0, 255]) =
        some (flag, "né", some ["ping", "", "é"]) :=
  hostFrames_read_back
    ⟨by decide, fun v hv => Option.some.inj hv ▸ by decide,
      fun v hv => Option.some.inj hv ▸ by decide⟩ [1, 0, 255]

end Rnet.Node
