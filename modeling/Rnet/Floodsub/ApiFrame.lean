import Rnet.Lib.Fields

/-!
# The frames of the floodsub API: `floodsub/src/subscription.rs`

The node and the streams of a floodsub node put their requests on its queue as frames: the
tag of the flag, a text, a list of texts and bytes. Each of the three may be absent. The
list and the bytes have a byte in front of them that says so; the text is written as
`"none"`.

> `apiFrame_read_back_iff`: when all lengths fit 32 bits, a frame is read back as it was
> built exactly if its text is not `"none"`.
-/

namespace Rnet.Floodsub

open Rnet.Lib

/-- `SubAPIMpscFlag`. -/
inductive SubAPIMpscFlag
  | unsubscribe
  | deadPeers
  | publish
  deriving DecidableEq, Repr

/-- `SubAPIMpscFlag::tag`. -/
def SubAPIMpscFlag.tag : SubAPIMpscFlag → UInt8
  | unsubscribe => 1
  | deadPeers => 2
  | publish => 3

/-- `SubAPIMpscFlag::from_tag`. -/
def SubAPIMpscFlag.fromTag (tag : UInt8) : Option SubAPIMpscFlag :=
  if tag = 1 then some unsubscribe
  else if tag = 2 then some deadPeers
  else if tag = 3 then some publish
  else none

theorem SubAPIMpscFlag.fromTag_tag (flag : SubAPIMpscFlag) : fromTag flag.tag = some flag := by
  cases flag <;> rfl

/-- `FloodsubPayload`. -/
abbrev FloodsubPayload := Option String × Option (List String) × Option (List UInt8)

/-- `build_floodsub_api_frame`. -/
def buildFloodsubApiFrame (flag : SubAPIMpscFlag) (payload_string : Option String)
    (opt_vec : Option (List String)) (opt_data : Option (List UInt8)) : List UInt8 :=
  let binding := payload_string.getD "none"
  flag.tag ::
    (putString binding ++ (putOption putStrings opt_vec ++ putOption putBytes opt_data))

/-- `process_floodsub_api_frame`: it panics on a frame that ends early, that has another tag,
or whose texts are not UTF-8. -/
def processFloodsubApiFrame : List UInt8 → Option (SubAPIMpscFlag × FloodsubPayload)
  | [] => none
  | tag :: bytes => do
    let flag ← SubAPIMpscFlag.fromTag tag
    let (s, bytes) ← takeString bytes
    let s_payload := if s ≠ "none" then some s else none
    let (opt_vec, bytes) ← takeOption takeStrings bytes
    let (opt_data, _) ← takeOption takeBytes bytes
    some (flag, s_payload, opt_vec, opt_data)

/-- All lengths and counts of the payload fit 32 bits. -/
structure FitsApiFrame (payload_string : Option String) (opt_vec : Option (List String))
    (opt_data : Option (List UInt8)) : Prop where
  text : ∀ s, payload_string = some s → ShortText s
  count : ∀ v, opt_vec = some v → FitsU32 v.length
  items : ∀ v, opt_vec = some v → ∀ item ∈ v, ShortText item
  data : ∀ d, opt_data = some d → FitsU32 d.length

/-- What a frame is read as: the text is there unless it reads `"none"`. -/
theorem processFloodsubApiFrame_build (flag : SubAPIMpscFlag) {payload_string : Option String}
    {opt_vec : Option (List String)} {opt_data : Option (List UInt8)}
    (h : FitsApiFrame payload_string opt_vec opt_data) :
    processFloodsubApiFrame (buildFloodsubApiFrame flag payload_string opt_vec opt_data) =
      some (flag, if payload_string.getD "none" ≠ "none" then some (payload_string.getD "none")
        else none, opt_vec, opt_data) := by
  have htext : ShortText (payload_string.getD "none") := by
    cases payload_string with
    | none => decide
    | some s => exact h.text s rfl
  have hvec : takeOption takeStrings (putOption putStrings opt_vec ++ putOption putBytes opt_data) =
      some (opt_vec, putOption putBytes opt_data) :=
    takeOption_putOption fun v hv => takeStrings_putStrings (h.count v hv) (h.items v hv) _
  have hdata : takeOption takeBytes (putOption putBytes opt_data ++ []) = some (opt_data, []) :=
    takeOption_putOption fun d hd => takeBytes_putBytes (h.data d hd) []
  rw [List.append_nil] at hdata
  unfold buildFloodsubApiFrame processFloodsubApiFrame
  dsimp only
  rw [SubAPIMpscFlag.fromTag_tag, takeString_putString htext]
  simp only [Option.bind_eq_bind, Option.bind_some]
  rw [hvec]
  simp only [Option.bind_some]
  rw [hdata]
  rfl

/-- **The frames of the API.** A frame whose lengths fit 32 bits is read back as it was built
exactly if its text is not `"none"`. -/
theorem apiFrame_read_back_iff (flag : SubAPIMpscFlag) {payload_string : Option String}
    {opt_vec : Option (List String)} {opt_data : Option (List UInt8)}
    (h : FitsApiFrame payload_string opt_vec opt_data) :
    processFloodsubApiFrame (buildFloodsubApiFrame flag payload_string opt_vec opt_data) =
        some (flag, payload_string, opt_vec, opt_data) ↔
      payload_string ≠ some "none" := by
  rw [processFloodsubApiFrame_build flag h]
  cases payload_string with
  | none => simp
  | some s =>
    by_cases hs : s = "none"
    · simp [hs]
    · simp [hs]

/-- A request with a text, an empty list and two bytes. -/
theorem apiFrame_read_back_iff_publish :
    processFloodsubApiFrame (buildFloodsubApiFrame .publish (some "news") (some []) (some [7, 0])) =
        some (.publish, some "news", some [], some [7, 0]) ↔ some "news" ≠ some "none" :=
  apiFrame_read_back_iff .publish
    ⟨fun _ h => Option.some.inj h ▸ by decide, fun _ h => Option.some.inj h ▸ by decide,
      fun _ h => Option.some.inj h ▸ by decide, fun _ h => Option.some.inj h ▸ by decide⟩

/-- **A text that reads `"none"`** is read back as absent. -/
theorem none_text_lost :
    processFloodsubApiFrame (buildFloodsubApiFrame .unsubscribe (some "none") none none) =
        some (.unsubscribe, none, none, none) ∧
      processFloodsubApiFrame (buildFloodsubApiFrame .unsubscribe (some "none") none none) ≠
        some (.unsubscribe, some "none", none, none) := by
  have hfits : FitsApiFrame (some "none") none none :=
    ⟨fun _ h => Option.some.inj h ▸ by decide, fun _ h => (nomatch h), fun _ h => (nomatch h),
      fun _ h => (nomatch h)⟩
  have hread := processFloodsubApiFrame_build .unsubscribe hfits
  rw [Option.getD_some, if_neg (fun h => h rfl)] at hread
  rw [hread]
  exact ⟨rfl, by simp⟩

end Rnet.Floodsub
