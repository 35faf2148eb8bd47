import Rnet.Lib.NetText
import Rnet.Identity.Multiaddr

/-!
# The text of an address: `identity/src/multiaddr.rs`

`Multiaddr::new` splits its argument at the slashes and reads a protocol name and a value at a
time; `Display` writes them back, each behind a slash. Any part that does not parse makes
`Multiaddr::new` panic, whether `parse` unwraps it or returns it as an error.

> `Printable.new_toString`: an address that was printed parses to the same components, as long as
> its peer ids have no slash and the last one is not empty.

The text may change on the way: slashes at the ends, plus signs and zeroes in front of a
port, and every other spelling of an IPv6 address are lost.
-/

namespace Rnet.Identity

open Rnet.Lib.NetText

/-! ## The values -/

/-- `Ipv4Addr::from_str`. -/
def parseIpv4 (text : List Char) : Option (BitVec 32) :=
  if 15 < text.length then none
  else
    match readIpv4 text with
    | some (octets, []) => some (BitVec.ofNat 32 (value 256 octets))
    | _ => none

/-- `Ipv6Addr::from_str`. -/
def parseIpv6 (text : List Char) : Option (BitVec 128) :=
  match readIpv6 text with
  | some (segments, []) => some (BitVec.ofNat 128 (value 65536 segments))
  | _ => none

/-- `Ipv4Addr::octets`. -/
def octets (ip : BitVec 32) : List Nat := fixedDigits 256 4 ip.toNat

/-- `Ipv6Addr::segments`. -/
def segments (ip : BitVec 128) : List Nat := fixedDigits 65536 8 ip.toNat

/-- An IPv4 address parses to itself. -/
theorem parseIpv4_showIpv4 (ip : BitVec 32) : parseIpv4 (showIpv4 (octets ip)) = some ip := by
  have hlen : (octets ip).length = 4 := length_fixedDigits 256 4 ip.toNat
  have hlt : ∀ octet ∈ octets ip, octet < 256 := fixedDigits_lt (by omega) 4 ip.toNat
  have hread := readIpv4_showIpv4 hlen hlt [] rfl
  rw [List.append_nil] at hread
  have hshort := length_showIpv4 hlen hlt
  unfold parseIpv4
  rw [if_neg (by omega), hread]
  dsimp only
  rw [octets, value_fixedDigits 256 4 ip.isLt, BitVec.ofNat_toNat, BitVec.setWidth_eq]

/-- An IPv6 address parses to itself. -/
theorem parseIpv6_showIpv6 (ip : BitVec 128) : parseIpv6 (showIpv6 (segments ip)) = some ip := by
  have hlen : (segments ip).length = 8 := length_fixedDigits 65536 8 ip.toNat
  have hlt : ∀ segment ∈ segments ip, segment < 65536 := fixedDigits_lt (by omega) 8 ip.toNat
  unfold parseIpv6
  rw [readIpv6_showIpv6 hlen hlt]
  dsimp only
  rw [segments, value_fixedDigits 65536 8 ip.isLt, BitVec.ofNat_toNat, BitVec.setWidth_eq]

/-! ## The address -/

/-- The protocol's name in an address. -/
def Protocol.name : Protocol → List Char
  | .ip4 _ => ['i', 'p', '4']
  | .ip6 _ => ['i', 'p', '6']
  | .tcp _ => ['t', 'c', 'p']
  | .udp _ => ['u', 'd', 'p']
  | .p2p _ => ['p', '2', 'p']

/-- The value behind it. -/
def Protocol.valueText : Protocol → List Char
  | .ip4 ip => showIpv4 (octets ip)
  | .ip6 ip => showIpv6 (segments ip)
  | .tcp port | .udp port => Nat.toDigits 10 port.toNat
  | .p2p peer_id => peer_id.toList

/-- `Display` of `Protocol`. -/
def Protocol.show (protocol : Protocol) : List Char :=
  '/' :: protocol.name ++ '/' :: protocol.valueText

/-- `Display` of `Multiaddr`. -/
def Multiaddr.toString (addr : Multiaddr) : String :=
  String.ofList (addr.components.flatMap Protocol.show)

/-- `str::trim_matches`. -/
def trimMatches (c : Char) (text : List Char) : List Char :=
  ((text.dropWhile (· == c)).reverse.dropWhile (· == c)).reverse

/-- One protocol of an address. -/
def parseProtocol (name value : List Char) : Option Protocol :=
  match name with
  | ['i', 'p', '4'] => (parseIpv4 value).map .ip4
  | ['i', 'p', '6'] => (parseIpv6 value).map .ip6
  | ['t', 'c', 'p'] => (parsePort value).map .tcp
  | ['u', 'd', 'p'] => (parsePort value).map .udp
  | ['p', '2', 'p'] => some (.p2p (String.ofList value))
  | _ => none

/-- The loop of `parse`: a name and its value at a time. -/
def parseParts : List (List Char) → Option (List Protocol)
  | [] => some []
  | [_] => none
  | name :: value :: parts => do
    let protocol ← parseProtocol name value
    let components ← parseParts parts
    some (protocol :: components)

/-- `Multiaddr::new`. -/
def Multiaddr.new (addr : String) : Option Multiaddr :=
  (parseParts ((trimMatches '/' addr.toList).splitOn '/')).map Multiaddr.mk

/-! ## Printed and parsed again -/

/-- The peer ids of the address can be read back: they are not empty and have no slash. -/
def Multiaddr.PlainIds (addr : Multiaddr) : Prop :=
  ∀ peer_id, .p2p peer_id ∈ addr.components → peer_id ≠ "" ∧ '/' ∉ peer_id.toList

/-- The values that `Display` writes are those that `parse` reads. -/
theorem parseProtocol_show (protocol : Protocol) :
    parseProtocol protocol.name protocol.valueText = some protocol := by
  cases protocol with
  | ip4 ip => exact congrArg (Option.map Protocol.ip4) (parseIpv4_showIpv4 ip)
  | ip6 ip => exact congrArg (Option.map Protocol.ip6) (parseIpv6_showIpv6 ip)
  | tcp port => exact congrArg (Option.map Protocol.tcp) (parsePort_toDigits port)
  | udp port => exact congrArg (Option.map Protocol.udp) (parsePort_toDigits port)
  | p2p peer_id => exact congrArg (fun id => some (Protocol.p2p id)) String.ofList_toList

/-- The parts that an address is split into. -/
def Protocol.parts (protocol : Protocol) : List (List Char) := [protocol.name, protocol.valueText]

theorem parseParts_parts (components : List Protocol) :
    parseParts (components.flatMap Protocol.parts) = some components := by
  induction components with
  | nil => rfl
  | cons protocol components ih =>
    rw [List.flatMap_cons, Protocol.parts, List.cons_append, List.cons_append, List.nil_append,
      parseParts, parseProtocol_show, ih]
    rfl

/-- A value is not empty and has no slash. -/
structure Plain (text : List Char) : Prop where
  nonempty : text ≠ []
  noSlash : '/' ∉ text

theorem Plain.of_digits {text : List Char} (hne : text ≠ [])
    (h : ∀ c ∈ text, c = ':' ∨ c = '.' ∨ ∃ d < 16, c = Nat.digitChar d) : Plain text := by
  have hslash : ∀ d < 16, '/' ≠ Nat.digitChar d := by decide
  refine ⟨hne, fun hmem => ?_⟩
  rcases h '/' hmem with hc | hc | ⟨d, hd, hc⟩
  · simp at hc
  · simp at hc
  · exact hslash d hd hc

/-- What `Display` writes for a value. -/
theorem plain_valueText {protocol : Protocol}
    (h : ∀ peer_id, protocol = .p2p peer_id → Plain peer_id.toList) : Plain protocol.valueText := by
  -- an empty text is not the value of any component
  have hparse := parseProtocol_show protocol
  cases protocol with
  | ip4 ip =>
    refine Plain.of_digits (fun hnil => ?_) fun c hc => Or.inr (mem_showIpv4 hc)
    rw [hnil] at hparse
    simp [Protocol.name, parseProtocol, parseIpv4, readIpv4, readOctets, readSeparator,
      readNumber, digitRun] at hparse
  | ip6 ip =>
    refine Plain.of_digits (fun hnil => ?_) fun c hc => mem_showIpv6 hc
    rw [hnil] at hparse
    revert hparse
    simp [Protocol.name, parseProtocol, parseIpv6, readIpv6, readGroups_stop (Or.inl rfl)]
  | tcp port | udp port =>
    refine Plain.of_digits Nat.toDigits_ne_nil fun c hc => ?_
    exact Or.inr (Or.inr (digitChar_of_mem (by omega) (by omega) hc))
  | p2p peer_id => exact h peer_id rfl

theorem valueText_ne_nil {protocol : Protocol} (h : protocol ≠ .p2p "") :
    protocol.valueText ≠ [] := by
  cases protocol with
  | p2p peer_id =>
    intro hnil
    exact h (congrArg Protocol.p2p (String.toList_inj.mp hnil))
  | _ => exact (plain_valueText (by simp)).nonempty

/-- The address can be read back: it has a component, no peer id has a slash, and the last
component is not an empty peer id, whose slash would be at the end. -/
structure Multiaddr.Printable (addr : Multiaddr) : Prop where
  nonempty : addr.components ≠ []
  noSlash : ∀ peer_id, .p2p peer_id ∈ addr.components → '/' ∉ peer_id.toList
  last : addr.components.getLast? ≠ some (.p2p "")

/-- What `Display` writes for the components, next to their slashes. -/
theorem noSlash_parts {components : List Protocol}
    (h : ∀ peer_id, .p2p peer_id ∈ components → '/' ∉ peer_id.toList) :
    ∀ part ∈ components.flatMap Protocol.parts, '/' ∉ part := by
  intro part hpart
  obtain ⟨protocol, hmem, hpart⟩ := List.mem_flatMap.mp hpart
  rcases List.mem_cons.mp hpart with rfl | hpart
  · cases protocol with
    | _ => simp [Protocol.name]
  · rw [List.mem_singleton.mp hpart]
    cases protocol with
    | p2p peer_id => exact h peer_id hmem
    | _ => exact (plain_valueText (by simp)).noSlash

/-- Text that neither starts nor ends with the character is left as it is. -/
theorem trimMatches_self {c : Char} {text : List Char} (hhead : text.head? ≠ some c)
    (hlast : text.getLast? ≠ some c) : trimMatches c text = text := by
  have hkeep : ∀ l : List Char, l.head? ≠ some c → l.dropWhile (· == c) = l := by
    intro l hl
    cases l with
    | nil => rfl
    | cons d l =>
      have hd : (d == c) = false := beq_false_of_ne fun h => hl (congrArg some h)
      rw [List.dropWhile_cons, hd]
      rfl
  unfold trimMatches
  rw [hkeep text hhead, hkeep, List.reverse_reverse]
  rw [List.head?_reverse]
  exact hlast

/-- A character in front of every part, the first one included. -/
theorem flatMap_cons_eq_intercalate (c : Char) {parts : List (List Char)} (h : parts ≠ []) :
    parts.flatMap (c :: ·) = c :: [c].intercalate parts := by
  induction parts with
  | nil => exact absurd rfl h
  | cons part parts ih =>
    cases parts with
    | nil => simp
    | cons next parts =>
      rw [List.flatMap_cons, ih (by simp), List.intercalate_cons_cons]
      simp

/-- What is printed, without the slash in front. -/
theorem show_eq_intercalate {components : List Protocol} (h : components ≠ []) :
    components.flatMap Protocol.show =
      '/' :: ['/'].intercalate (components.flatMap Protocol.parts) := by
  rw [← flatMap_cons_eq_intercalate, List.flatMap_assoc]
  · congr 1
    funext protocol
    simp [Protocol.show, Protocol.parts]
  · cases components with
    | nil => exact absurd rfl h
    | cons protocol components => simp [Protocol.parts]

/-- Joined parts start with the first part and end with the last one. -/
theorem intercalate_ends {c : Char} {parts : List (List Char)} (h : ∀ part ∈ parts, c ∉ part)
    (hfirst : parts.head? ≠ some []) (hlast : parts.getLast? ≠ some []) :
    ([c].intercalate parts).head? ≠ some c ∧ ([c].intercalate parts).getLast? ≠ some c := by
  have hfront : ∀ part parts, ∃ rest, [c].intercalate (part :: parts) = part ++ rest := by
    intro part parts
    cases parts with
    | nil => exact ⟨[], by simp⟩
    | cons next parts => exact ⟨_, List.intercalate_cons_cons.trans (List.append_assoc ..)⟩
  have hback : ∀ parts part, ∃ rest, [c].intercalate (parts ++ [part]) = rest ++ part := by
    intro parts part
    induction parts with
    | nil => exact ⟨[], by simp⟩
    | cons first parts ih =>
      obtain ⟨rest, hrest⟩ := ih
      refine ⟨first ++ [c] ++ rest, ?_⟩
      rw [List.cons_append, List.intercalate_cons_of_ne_nil (by simp), hrest]
      simp
  refine ⟨fun hc => ?_, fun hc => ?_⟩
  · cases parts with
    | nil => simp at hc
    | cons part parts =>
      obtain ⟨rest, hrest⟩ := hfront part parts
      have hne : part ≠ [] := fun hnil => hfirst (congrArg some hnil)
      rw [hrest, List.head?_append_of_ne_nil _ hne] at hc
      exact h part (List.mem_cons_self ..) (List.mem_of_mem_head? hc)
  · cases hparts : parts.getLast? with
    | none =>
      rw [List.getLast?_eq_none_iff.mp hparts] at hc
      simp at hc
    | some part =>
      obtain ⟨front, rfl⟩ := List.getLast?_eq_some_iff.mp hparts
      obtain ⟨rest, hrest⟩ := hback front part
      have hne : part ≠ [] := fun hnil => hlast (hparts.trans (congrArg some hnil))
      rw [hrest, List.getLast?_append_of_ne_nil _ hne] at hc
      exact h part (by simp) (List.mem_of_mem_getLast? hc)

/-- Parts next to slashes are parsed as these parts, also between more slashes. -/
theorem new_of_parts {text : String} {parts : List (List Char)} (hne : parts ≠ [])
    (h : ∀ part ∈ parts, '/' ∉ part)
    (htrim : trimMatches '/' text.toList = ['/'].intercalate parts) :
    Multiaddr.new text = (parseParts parts).map Multiaddr.mk := by
  unfold Multiaddr.new
  rw [htrim, List.splitOn_intercalate '/' h hne]

/-- **Printing and parsing.** The text that `Display` writes parses to the same components. -/
theorem Multiaddr.Printable.new_toString {addr : Multiaddr} (h : addr.Printable) :
    Multiaddr.new addr.toString = some addr := by
  have hslash := noSlash_parts h.noSlash
  obtain ⟨front, protocol, hback⟩ :=
    (List.eq_nil_or_concat' addr.components).resolve_left h.nonempty
  have hfirst : (addr.components.flatMap Protocol.parts).head? ≠ some [] := by
    cases hc : addr.components with
    | nil => exact absurd hc h.nonempty
    | cons first components =>
      rw [List.flatMap_cons]
      cases first with
      | _ => simp [Protocol.parts, Protocol.name]
  have hlast : (addr.components.flatMap Protocol.parts).getLast? ≠ some [] := by
    have hvalue : protocol.valueText ≠ [] := by
      apply valueText_ne_nil
      intro heq
      exact h.last (by rw [hback, heq, List.getLast?_concat])
    rw [hback, List.flatMap_append]
    simpa [Protocol.parts] using hvalue
  have hparts : addr.components.flatMap Protocol.parts ≠ [] := by
    rw [hback]
    simp [Protocol.parts]
  obtain ⟨hhead, hend⟩ := intercalate_ends hslash hfirst hlast
  have htrim : trimMatches '/' addr.toString.toList =
      ['/'].intercalate (addr.components.flatMap Protocol.parts) := by
    unfold Multiaddr.toString
    rw [String.toList_ofList, show_eq_intercalate h.nonempty]
    exact trimMatches_self hhead hend
  rw [new_of_parts hparts hslash htrim, parseParts_parts]
  rfl

/-- An address without empty peer ids can be read back. -/
theorem new_toString {addr : Multiaddr} (hne : addr.components ≠ []) (h : addr.PlainIds) :
    Multiaddr.new addr.toString = some addr := by
  have hprintable : addr.Printable := by
    refine ⟨hne, fun peer_id hmem => (h peer_id hmem).2, fun hlast => ?_⟩
    exact (h "" (List.mem_of_getLast? hlast)).1 rfl
  exact hprintable.new_toString

/-- An address that was parsed has a component. -/
theorem components_ne_nil {text : String} {addr : Multiaddr} (h : Multiaddr.new text = some addr) :
    addr.components ≠ [] := by
  obtain ⟨components, hparse, rfl⟩ := Option.map_eq_some_iff.mp h
  have hne := List.splitOn_ne_nil '/' (trimMatches '/' text.toList)
  generalize (trimMatches '/' text.toList).splitOn '/' = parts at hparse hne
  match parts, hne, hparse with
  | name :: value :: parts, _, hparse =>
    obtain ⟨protocol, -, hparse⟩ := Option.bind_eq_some_iff.mp hparse
    obtain ⟨rest, -, hparse⟩ := Option.bind_eq_some_iff.mp hparse
    obtain rfl := Option.some.inj hparse
    exact List.cons_ne_nil _ _

example : (Multiaddr.new "ip4/127.0.0.1/tcp/+08080/p2p/b/").map Multiaddr.toString =
    some "/ip4/127.0.0.1/tcp/8080/p2p/b" := by decide +kernel

end Rnet.Identity
