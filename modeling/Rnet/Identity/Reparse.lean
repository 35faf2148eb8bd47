import Rnet.Lib.System
import Rnet.Identity.Edit
import Rnet.Identity.Parse

/-!
# Addresses that are printed and parsed again: `identity/src/multiaddr.rs`

An address crosses every layer as text: it is printed on one side and parsed on the other. What
was parsed may be edited in between by `push_proto` and `replace_value_for_protocol`.

> `reachable_printable`: every address that comes about so is read back as it was.

An empty peer id is accepted in the middle of an address and not at its end, where its slash is
trimmed. So the invariant speaks of the last component, and editing must not put an empty peer id
there.
-/

namespace Rnet.Identity

open Rnet.Lib Rnet.Lib.Ending

/-! ## What was parsed -/

/-- A peer id is the value it was read from. -/
theorem value_of_parseProtocol {name value : List Char} {peer_id : String}
    (h : parseProtocol name value = some (.p2p peer_id)) : value = peer_id.toList := by
  rcases name_cases name with rfl | rfl | rfl | rfl | rfl | hname
  · simp [parseProtocol] at h
  · simp [parseProtocol] at h
  · simp [parseProtocol] at h
  · simp [parseProtocol] at h
  · obtain rfl := Protocol.p2p.inj (Option.some.inj h)
    exact String.toList_ofList.symm
  · rw [parseProtocol_unknown hname] at h
    simp at h

/-- Nothing is read from no parts only. -/
theorem parts_eq_nil {parts : List (List Char)} (h : parseParts parts = some []) : parts = [] := by
  match parts, h with
  | [], _ => rfl
  | _ :: _ :: _, h =>
    obtain ⟨protocol, -, hloop⟩ := Option.bind_eq_some_iff.mp h
    obtain ⟨rest, -, hcons⟩ := Option.bind_eq_some_iff.mp hloop
    exact absurd (Option.some.inj hcons) nofun

/-- A peer id is one of the parts, and the last part if it is the last component. -/
theorem p2p_of_parseParts {parts : List (List Char)} {components : List Protocol}
    {peer_id : String} (h : parseParts parts = some components) :
    (.p2p peer_id ∈ components → peer_id.toList ∈ parts) ∧
      (components.getLast? = some (.p2p peer_id) → parts.getLast? = some peer_id.toList) := by
  fun_induction parseParts parts generalizing components with
  | case1 =>
    obtain rfl := Option.some.inj h
    simp
  | case2 name => simp at h
  | case3 name value parts ih =>
    obtain ⟨protocol, hprotocol, hloop⟩ := Option.bind_eq_some_iff.mp h
    obtain ⟨rest, hrest, hcons⟩ := Option.bind_eq_some_iff.mp hloop
    obtain rfl := Option.some.inj hcons
    obtain ⟨hmem, hlast⟩ := ih hrest
    constructor
    · intro hp2p
      rcases List.mem_cons.mp hp2p with rfl | hp2p
      · rw [value_of_parseProtocol hprotocol]
        exact List.mem_cons_of_mem name (List.mem_cons_self ..)
      · exact List.mem_cons_of_mem name (List.mem_cons_of_mem value (hmem hp2p))
    · intro hp2p
      cases rest with
      | nil =>
        obtain rfl := Option.some.inj hp2p
        rw [parts_eq_nil hrest, value_of_parseProtocol hprotocol]
        rfl
      | cons next rest =>
        rw [List.getLast?_cons_cons] at hp2p
        have hparts := hlast hp2p
        have hne : parts ≠ [] := fun hnil => by simp [hnil] at hparts
        rw [List.getLast?_cons_cons, List.getLast?_cons_of_ne_nil hne, hparts]

/-- What is left of a text does not end with the character that is trimmed. -/
theorem getLast?_trimMatches (c : Char) (text : List Char) :
    (trimMatches c text).getLast? ≠ some c := by
  intro h
  unfold trimMatches at h
  rw [List.getLast?_reverse] at h
  have hhead := List.head?_dropWhile_not (· == c) (text.dropWhile (· == c)).reverse
  rw [h] at hhead
  simp at hhead

/-- Nor is its last part empty. -/
theorem getLast?_splitOn {c : Char} {text : List Char} (hne : text ≠ [])
    (h : text.getLast? ≠ some c) : (text.splitOn c).getLast? ≠ some [] := by
  induction text with
  | nil => exact absurd rfl hne
  | cons x text ih =>
    rw [List.splitOn_cons_eq_if_modifyHead]
    by_cases hnil : text = []
    · subst hnil
      have hx : (x == c) = false := beq_false_of_ne fun heq => h (congrArg some heq)
      rw [hx, List.splitOn_nil]
      simp
    · rw [List.getLast?_cons_of_ne_nil hnil] at h
      have hlast := ih hnil h
      cases hsplit : text.splitOn c with
      | nil => exact absurd hsplit (List.splitOn_ne_nil c text)
      | cons part parts =>
        rw [hsplit] at hlast
        by_cases hx : (x == c) = true
        · rw [if_pos hx, List.getLast?_cons_cons]
          exact hlast
        · rw [if_neg hx, List.modifyHead_cons]
          cases parts with
          | nil => simp
          | cons next parts =>
            rw [List.getLast?_cons_cons] at hlast ⊢
            exact hlast

/-- **What was parsed can be read back**, with whatever empty peer ids it has. -/
theorem printable_of_new {text : String} {addr : Multiaddr} (h : Multiaddr.new text = some addr) :
    addr.Printable := by
  obtain ⟨components, hparse, rfl⟩ := Option.map_eq_some_iff.mp h
  refine ⟨components_ne_nil h, fun peer_id hmem => ?_, fun hlast => ?_⟩
  · exact notMem_of_mem_splitOn ((p2p_of_parseParts hparse).1 hmem)
  · have hparts := (p2p_of_parseParts hparse).2 hlast
    by_cases hempty : trimMatches '/' text.toList = []
    · rw [hempty] at hparse
      exact absurd hparse nofun
    · exact getLast?_splitOn hempty (getLast?_trimMatches '/' text.toList) hparts

/-! ## What was edited -/

/-- An edit of an address. -/
inductive Edit
  | push (proto : Protocol)
  | replace (proto value : String)
  deriving DecidableEq, Repr

/-- A call of `push_proto`, or one of `replace_value_for_protocol` that succeeds. -/
def Multiaddr.edit (addr : Multiaddr) : Edit → Option Multiaddr
  | .push proto => some (addr.pushProto proto)
  | .replace proto value =>
    match addr.replaceValueForProtocol proto value with
    | (.ok (), addr') => some addr'
    | (.error _, _) => none

/-- The addresses that come from a text, and the edits of them. -/
def editing : System Multiaddr Edit where
  init addr := ∃ text, Multiaddr.newEnding text = .ok addr
  step := Multiaddr.edit

/-- A peer id that the edit puts in is not empty and has no slash. -/
def Edit.PlainId : Edit → Prop
  | .push proto => ∀ peer_id, proto = .p2p peer_id → Plain peer_id.toList
  | .replace proto value => proto = "p2p" → Plain value.toList

/-- `push_proto` keeps an address printable. -/
theorem Multiaddr.Printable.pushProto {addr : Multiaddr} (h : addr.Printable) {proto : Protocol}
    (hid : (Edit.push proto).PlainId) : (addr.pushProto proto).Printable := by
  refine ⟨by simp [Multiaddr.pushProto], fun peer_id hmem => ?_, fun hlast => ?_⟩
  · rcases List.mem_append.mp hmem with hmem | hmem
    · exact h.noSlash peer_id hmem
    · exact (hid peer_id (List.mem_singleton.mp hmem).symm).noSlash
  · rw [Multiaddr.pushProto, List.getLast?_concat] at hlast
    exact (hid "" (Option.some.inj hlast)).nonempty rfl

/-- A peer id behind the loop was there before, or is the value. -/
theorem p2p_of_replaceFrom {proto value peer_id : String} {components : List Protocol} {i : Nat}
    (h : (replaceFrom proto value components).2[i]? = some (.p2p peer_id)) :
    components[i]? = some (.p2p peer_id) ∨ (proto = "p2p" ∧ peer_id = value) := by
  obtain ⟨p, hp, rfl | ⟨hisOf, hassign⟩⟩ := getElem?_replaceFrom h
  · exact Or.inl hp
  · right
    have hparse := Protocol.assign_eq_ok.mp hassign
    have hname : proto.toList = (Protocol.p2p peer_id).name :=
      hisOf.trans (name_of_parseProtocol hparse).symm
    have hvalue := value_of_parseProtocol hparse
    exact ⟨String.toList_inj.mp hname, (String.toList_inj.mp hvalue).symm⟩

/-- So does `replace_value_for_protocol`. -/
theorem Multiaddr.Printable.replaceValueForProtocol {addr : Multiaddr} (h : addr.Printable)
    {proto value : String} (hid : (Edit.replace proto value).PlainId) :
    (addr.replaceValueForProtocol proto value).2.Printable := by
  have hlen := length_replaceFrom proto value addr.components
  refine ⟨fun hnil => h.nonempty ?_, fun peer_id hmem => ?_, fun hlast => ?_⟩
  · have hzero := congrArg List.length hnil
    exact List.length_eq_zero_iff.mp (hlen.symm.trans hzero)
  · obtain ⟨i, hi⟩ := List.getElem?_of_mem hmem
    rcases p2p_of_replaceFrom hi with hold | ⟨hproto, rfl⟩
    · exact h.noSlash peer_id (List.mem_of_getElem? hold)
    · exact (hid hproto).noSlash
  · rw [List.getLast?_eq_getElem?] at hlast
    rcases p2p_of_replaceFrom hlast with hold | ⟨hproto, hempty⟩
    · refine h.last ?_
      rw [List.getLast?_eq_getElem?, ← hlen]
      exact hold
    · subst hempty
      exact (hid hproto).nonempty rfl

/-- **The step lemma**: an edit keeps an address printable. -/
theorem Multiaddr.Printable.edit {addr addr' : Multiaddr} (h : addr.Printable) {e : Edit}
    (hid : e.PlainId) (hstep : addr.edit e = some addr') : addr'.Printable := by
  cases e with
  | push proto =>
    obtain rfl := Option.some.inj hstep
    exact h.pushProto hid
  | replace proto value =>
    have hkeep := h.replaceValueForProtocol hid
    rw [Multiaddr.edit] at hstep
    cases hcall : addr.replaceValueForProtocol proto value with
    | mk result addr'' =>
      rw [hcall] at hstep hkeep
      cases result with
      | error e => exact absurd hstep nofun
      | ok =>
        obtain rfl := Option.some.inj hstep
        exact hkeep

/-- Every address that is parsed and edited can be read back. -/
theorem reachable_printable {addr : Multiaddr}
    (h : editing.ReachableUnder (fun _ e => e.PlainId) addr) : addr.Printable := by
  refine System.ReachableUnder.invariant Multiaddr.Printable ?_ ?_ h
  · intro addr hinit
    obtain ⟨text, htext⟩ := hinit
    exact printable_of_new ((toOption_newEnding text).symm.trans (toOption_eq_some.mpr htext))
  · intro addr e addr' hprintable hid hstep
    exact hprintable.edit hid hstep

/-- **Printed and parsed again**: the same components, and again the same text. -/
theorem edited_reparses {addr : Multiaddr}
    (h : editing.ReachableUnder (fun _ e => e.PlainId) addr) :
    ∃ addr', Multiaddr.newEnding addr.toString = .ok addr' ∧
      addr'.components = addr.components ∧ addr'.toString = addr.toString := by
  have hnew := (reachable_printable h).new_toString
  rw [← toOption_newEnding] at hnew
  exact ⟨addr, toOption_eq_some.mp hnew, rfl, rfl⟩

/-- An address with an empty peer id in the middle, where a port is replaced and a peer id is
added. -/
theorem edited_reparses_emptyId :
    ∃ addr', Multiaddr.newEnding "/p2p//tcp/81/p2p/b" = .ok addr' ∧
      addr'.components = [.p2p "", .tcp 81, .p2p "b"] ∧ addr'.toString = "/p2p//tcp/81/p2p/b" := by
  have hinit : editing.init ⟨[.p2p "", .tcp 80]⟩ := ⟨"p2p//tcp/+080/", by decide +kernel⟩
  have hport : editing.step ⟨[.p2p "", .tcp 80]⟩ (.replace "tcp" "81") =
      some ⟨[.p2p "", .tcp 81]⟩ := by decide +kernel
  have hid : (Edit.push (.p2p "b")).PlainId := by
    intro peer_id hpeer_id
    obtain rfl := Protocol.p2p.inj hpeer_id
    exact ⟨by decide, by decide⟩
  have hplain : (Edit.replace "tcp" "81").PlainId := fun h => absurd h (by decide)
  have hreplaced : editing.ReachableUnder (fun _ e => e.PlainId) ⟨[.p2p "", .tcp 81]⟩ :=
    (System.reachableUnder_init hinit).step hplain hport
  have hpushed : editing.ReachableUnder (fun _ e => e.PlainId) ⟨[.p2p "", .tcp 81, .p2p "b"]⟩ :=
    hreplaced.step hid rfl
  have htext : (⟨[.p2p "", .tcp 81, .p2p "b"]⟩ : Multiaddr).toString = "/p2p//tcp/81/p2p/b" := by
    decide +kernel
  have hagain := edited_reparses hpushed
  rw [htext] at hagain
  exact hagain

end Rnet.Identity
