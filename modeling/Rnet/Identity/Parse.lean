import Rnet.Lib.Ending
import Rnet.Lib.NetGrammar
import Rnet.Identity.Address

/-!
# Which texts are addresses: `identity/src/multiaddr.rs`

`Multiaddr::new` returns a `Result`, but it unwraps what `parse` returns, and `parse` unwraps the
value of every protocol but UDP and P2P. So a text that is no address ends in a panic in each case,
and no caller ever sees an error.

> `newEnding_ok_iff`: the texts that are accepted are the addresses.
> `acceptsExactly_iff`: every other text panics where an error should be returned.

What an address looks like (`WellFormed`) is said without the parser: pairs of a name and a value
of that protocol.
-/

namespace Rnet.Identity

open Rnet.Lib Rnet.Lib.NetText Rnet.Lib.Ending

/-! ## The code -/

/-- The errors inside `parse`: its own ones by their text, and those of the standard library. -/
inductive ParseError
  | message (text : String)
  | addrParse
  | parseInt
  deriving DecidableEq, Repr

/-- An arm of `parse`: a name, and the part behind it, if there is one. -/
def parseArm (name : List Char) (value : Option (List Char)) : Ending ParseError Protocol :=
  match name with
  | ['i', 'p', '4'] => do
    let value ← expect value "Missing IPv4 value"
    let ip ← (okOr (parseIpv4 value) ParseError.addrParse).unwrap
    pure (.ip4 ip)
  | ['i', 'p', '6'] => do
    let value ← expect value "Missing IPv6 value"
    let ip ← (okOr (parseIpv6 value) ParseError.addrParse).unwrap
    pure (.ip6 ip)
  | ['t', 'c', 'p'] => do
    let value ← expect value "missing TCP port"
    let port ← (okOr (parsePort value) ParseError.parseInt).unwrap
    pure (.tcp port)
  | ['u', 'd', 'p'] => do
    let value ← okOr value (.message "missing UDP port")
    let port ← okOr (parsePort value) .parseInt
    pure (.udp port)
  | ['p', '2', 'p'] => do
    let peer_id ← okOr value (.message "missing P2P id")
    pure (.p2p (String.ofList peer_id))
  | p => err (.message ("Unkown protocol: " ++ String.ofList p))

/-- The loop of `parse`: two parts at a time. -/
def parseFrom : List (List Char) → Ending ParseError (List Protocol)
  | [] => ok []
  | [name] => do
    let protocol ← parseArm name none
    pure [protocol]
  | name :: value :: parts => do
    let protocol ← parseArm name (some value)
    let components ← parseFrom parts
    pure (protocol :: components)

/-- `Multiaddr::parse`. -/
def Multiaddr.parse (addr : String) : Ending ParseError (List Protocol) :=
  parseFrom ((trimMatches '/' addr.toList).splitOn '/')

/-- `Multiaddr::new`, and how the call ends. -/
def Multiaddr.newEnding (addr : String) : Ending ParseError Multiaddr := do
  let components ← (Multiaddr.parse addr).unwrap
  pure ⟨components⟩

/-! ## What an arm returns -/

/-- The names in the arms. -/
def protocolNames : List (List Char) :=
  [['i', 'p', '4'], ['i', 'p', '6'], ['t', 'c', 'p'], ['u', 'd', 'p'], ['p', '2', 'p']]

theorem name_cases (name : List Char) :
    name = ['i', 'p', '4'] ∨ name = ['i', 'p', '6'] ∨ name = ['t', 'c', 'p'] ∨
      name = ['u', 'd', 'p'] ∨ name = ['p', '2', 'p'] ∨ name ∉ protocolNames := by
  by_cases hname : name ∈ protocolNames
  · simp only [protocolNames, List.mem_cons, List.not_mem_nil, or_false] at hname
    rcases hname with h | h | h | h | h
    all_goals simp [h]
  · simp [hname]

theorem parseArm_unknown {name : List Char} (h : name ∉ protocolNames)
    (value : Option (List Char)) :
    parseArm name value = err (.message ("Unkown protocol: " ++ String.ofList name)) := by
  unfold parseArm
  split
  · exact absurd (by decide) h
  · exact absurd (by decide) h
  · exact absurd (by decide) h
  · exact absurd (by decide) h
  · exact absurd (by decide) h
  · rfl

theorem parseProtocol_unknown {name : List Char} (h : name ∉ protocolNames) (value : List Char) :
    parseProtocol name value = none := by
  unfold parseProtocol
  split
  · exact absurd (by decide) h
  · exact absurd (by decide) h
  · exact absurd (by decide) h
  · exact absurd (by decide) h
  · exact absurd (by decide) h
  · rfl

/-- An arm returns a protocol where there is a part behind the name and it is a value. -/
theorem toOption_parseArm (name : List Char) (value : Option (List Char)) :
    (parseArm name value).toOption = value.bind (parseProtocol name) := by
  rcases name_cases name with rfl | rfl | rfl | rfl | rfl | hname
  · cases value with
    | none => rfl
    | some value => simp [parseArm, parseProtocol, toOption_bind, Option.map_eq_bind]
  · cases value with
    | none => rfl
    | some value => simp [parseArm, parseProtocol, toOption_bind, Option.map_eq_bind]
  · cases value with
    | none => rfl
    | some value => simp [parseArm, parseProtocol, toOption_bind, Option.map_eq_bind]
  · cases value with
    | none => rfl
    | some value => simp [parseArm, parseProtocol, toOption_bind, Option.map_eq_bind]
  · cases value with
    | none => rfl
    | some value => rfl
  · rw [parseArm_unknown hname]
    cases value with
    | none => rfl
    | some value => exact (parseProtocol_unknown hname value).symm

/-- The loop returns what it returns where every way to fail is the same. -/
theorem toOption_parseFrom (parts : List (List Char)) :
    (parseFrom parts).toOption = parseParts parts := by
  fun_induction parseParts parts with
  | case1 => rfl
  | case2 name =>
    rw [parseFrom, toOption_bind, toOption_parseArm]
    rfl
  | case3 name value parts ih =>
    rw [parseFrom, toOption_bind, toOption_parseArm]
    simp only [toOption_bind, ih]
    rfl

/-- The text of an address, as the rest of the development reads it. -/
theorem toOption_newEnding (text : String) :
    (Multiaddr.newEnding text).toOption = Multiaddr.new text := by
  unfold Multiaddr.newEnding Multiaddr.new
  rw [toOption_bind, toOption_unwrap, Multiaddr.parse, toOption_parseFrom, Option.map_eq_bind]
  rfl

/-! ## What an address looks like -/

/-- A protocol and a value of it. -/
inductive ValidPair : List Char → List Char → Prop
  | ip4 {value : List Char} : Ipv4Text value → ValidPair ['i', 'p', '4'] value
  | ip6 {value : List Char} : Ipv6Text value → ValidPair ['i', 'p', '6'] value
  | tcp {value : List Char} : PortText value → ValidPair ['t', 'c', 'p'] value
  | udp {value : List Char} : PortText value → ValidPair ['u', 'd', 'p'] value
  | p2p (peer_id : List Char) : ValidPair ['p', '2', 'p'] peer_id

/-- The parts of a sequence of pairs. -/
def pairParts (pairs : List (List Char × List Char)) : List (List Char) :=
  pairs.flatMap fun pair => [pair.1, pair.2]

/-- The text is an address: between slashes that do not count, at least one pair, and a slash
between any two parts. -/
def WellFormed (text : String) : Prop :=
  ∃ pairs, pairs ≠ [] ∧ trimMatches '/' text.toList = ['/'].intercalate (pairParts pairs) ∧
    ∀ pair ∈ pairs, ValidPair pair.1 pair.2 ∧ '/' ∉ pair.2

/-! ## Which texts are accepted -/

theorem parseIpv4_iff {text : List Char} : (∃ ip, parseIpv4 text = some ip) ↔ Ipv4Text text := by
  constructor
  · intro h
    obtain ⟨ip, h⟩ := h
    unfold parseIpv4 at h
    obtain ⟨-, h⟩ := Option.ite_none_left_eq_some.mp h
    cases hread : readIpv4 text with
    | none =>
      rw [hread] at h
      exact absurd h nofun
    | some p =>
      obtain ⟨octets, rest⟩ := p
      rw [hread] at h
      obtain ⟨hlen, hlt, htext, -⟩ := readIpv4_iff.mp hread
      cases rest with
      | nil => exact ⟨octets, hlen, hlt, htext.trans (List.append_nil _)⟩
      | cons => exact absurd h nofun
  · intro h
    obtain ⟨octets, hlen, hlt, rfl⟩ := h
    have hread := readIpv4_showIpv4 hlen hlt [] rfl
    rw [List.append_nil] at hread
    unfold parseIpv4
    rw [if_neg (Nat.not_lt.mpr (length_showIpv4 hlen hlt)), hread]
    exact ⟨_, rfl⟩

theorem parseIpv6_iff {text : List Char} : (∃ ip, parseIpv6 text = some ip) ↔ Ipv6Text text := by
  rw [← readIpv6_iff]
  constructor
  · intro h
    obtain ⟨ip, h⟩ := h
    unfold parseIpv6 at h
    cases hread : readIpv6 text with
    | none =>
      rw [hread] at h
      exact absurd h nofun
    | some p =>
      obtain ⟨segments, rest⟩ := p
      rw [hread] at h
      cases rest with
      | nil => exact ⟨segments, rfl⟩
      | cons => exact absurd h nofun
  · intro h
    obtain ⟨segments, hread⟩ := h
    unfold parseIpv6
    rw [hread]
    exact ⟨_, rfl⟩

/-- A protocol is read from a valid pair and from nothing else. -/
theorem parseProtocol_iff {name value : List Char} :
    (∃ protocol, parseProtocol name value = some protocol) ↔ ValidPair name value := by
  constructor
  · intro h
    obtain ⟨protocol, h⟩ := h
    rcases name_cases name with rfl | rfl | rfl | rfl | rfl | hname
    · obtain ⟨ip, hip, -⟩ := Option.map_eq_some_iff.mp h
      exact ValidPair.ip4 (parseIpv4_iff.mp ⟨ip, hip⟩)
    · obtain ⟨ip, hip, -⟩ := Option.map_eq_some_iff.mp h
      exact ValidPair.ip6 (parseIpv6_iff.mp ⟨ip, hip⟩)
    · obtain ⟨port, hport, -⟩ := Option.map_eq_some_iff.mp h
      exact ValidPair.tcp (parsePort_iff.mp ⟨port, hport⟩)
    · obtain ⟨port, hport, -⟩ := Option.map_eq_some_iff.mp h
      exact ValidPair.udp (parsePort_iff.mp ⟨port, hport⟩)
    · exact ValidPair.p2p value
    · rw [parseProtocol_unknown hname] at h
      exact absurd h nofun
  · intro h
    cases h with
    | ip4 h =>
      obtain ⟨ip, hip⟩ := parseIpv4_iff.mpr h
      exact ⟨.ip4 ip, congrArg (Option.map Protocol.ip4) hip⟩
    | ip6 h =>
      obtain ⟨ip, hip⟩ := parseIpv6_iff.mpr h
      exact ⟨.ip6 ip, congrArg (Option.map Protocol.ip6) hip⟩
    | tcp h =>
      obtain ⟨port, hport⟩ := parsePort_iff.mpr h
      exact ⟨.tcp port, congrArg (Option.map Protocol.tcp) hport⟩
    | udp h =>
      obtain ⟨port, hport⟩ := parsePort_iff.mpr h
      exact ⟨.udp port, congrArg (Option.map Protocol.udp) hport⟩
    | p2p peer_id => exact ⟨_, rfl⟩

/-- **The loop** reads exactly the sequences of valid pairs. -/
theorem parseParts_iff (parts : List (List Char)) :
    (∃ components, parseParts parts = some components) ↔
      ∃ pairs, parts = pairParts pairs ∧ ∀ pair ∈ pairs, ValidPair pair.1 pair.2 := by
  fun_induction parseParts parts with
  | case1 => exact ⟨fun _ => ⟨[], rfl, nofun⟩, fun _ => ⟨[], rfl⟩⟩
  | case2 name =>
    refine ⟨fun h => absurd h.choose_spec nofun, fun h => ?_⟩
    obtain ⟨pairs, hparts, -⟩ := h
    -- the parts of pairs are even in number
    cases pairs with
    | nil => exact absurd hparts nofun
    | cons pair pairs => exact absurd (List.cons.inj hparts).2 nofun
  | case3 name value parts ih =>
    constructor
    · intro h
      obtain ⟨components, h⟩ := h
      obtain ⟨protocol, hprotocol, h⟩ := Option.bind_eq_some_iff.mp h
      obtain ⟨rest, hrest, -⟩ := Option.bind_eq_some_iff.mp h
      obtain ⟨pairs, rfl, hpairs⟩ := ih.mp ⟨rest, hrest⟩
      refine ⟨(name, value) :: pairs, rfl, List.forall_mem_cons.mpr ⟨?_, hpairs⟩⟩
      exact parseProtocol_iff.mp ⟨protocol, hprotocol⟩
    · intro h
      obtain ⟨pairs, hparts, hpairs⟩ := h
      cases pairs with
      | nil => exact absurd hparts nofun
      | cons pair pairs =>
        obtain ⟨hname, hbehind⟩ := List.cons.inj hparts
        obtain ⟨hvalue, hrest⟩ := List.cons.inj hbehind
        subst hname hvalue hrest
        obtain ⟨hpair, hpairs⟩ := List.forall_mem_cons.mp hpairs
        obtain ⟨protocol, hprotocol⟩ := parseProtocol_iff.mpr hpair
        obtain ⟨components, hcomponents⟩ := ih.mpr ⟨pairs, rfl, hpairs⟩
        refine ⟨protocol :: components, ?_⟩
        rw [hprotocol, hcomponents]
        rfl

/-- No part has a slash. -/
theorem notMem_of_mem_splitOn {α : Type} [DecidableEq α] {a : α} {xs part : List α}
    (h : part ∈ xs.splitOn a) : a ∉ part := by
  induction xs generalizing part with
  | nil =>
    rw [List.splitOn_nil, List.mem_singleton] at h
    rw [h]
    exact List.not_mem_nil
  | cons x xs ih =>
    rw [List.splitOn_cons_eq_if_modifyHead] at h
    by_cases hx : (x == a) = true
    · rw [if_pos hx] at h
      rcases List.mem_cons.mp h with rfl | h
      · exact List.not_mem_nil
      · exact ih h
    · rw [if_neg hx] at h
      cases hsplit : xs.splitOn a with
      | nil => exact absurd hsplit (List.splitOn_ne_nil a xs)
      | cons first rest =>
        rw [hsplit] at h ih
        rcases List.mem_cons.mp h with rfl | h
        · have hfirst := ih (List.mem_cons_self ..)
          have hne : a ≠ x := fun heq => hx (beq_iff_eq.mpr heq.symm)
          exact List.not_mem_cons_of_ne_of_not_mem hne hfirst
        · exact ih (List.mem_cons_of_mem first h)

/-- The names have no slash. -/
theorem ValidPair.noSlash {name value : List Char} (h : ValidPair name value) : '/' ∉ name := by
  cases h with
  | _ => decide

/-- **Acceptance.** The texts that `Multiaddr::new` accepts are the addresses. -/
theorem newEnding_ok_iff (text : String) :
    (∃ addr, Multiaddr.newEnding text = .ok addr) ↔ WellFormed text := by
  have hparse : (∃ addr, Multiaddr.newEnding text = .ok addr) ↔
      ∃ components, parseParts ((trimMatches '/' text.toList).splitOn '/') = some components := by
    simp only [← toOption_eq_some, toOption_newEnding, Multiaddr.new, Option.map_eq_some_iff]
    constructor
    · intro h
      obtain ⟨_, components, hparse, -⟩ := h
      exact ⟨components, hparse⟩
    · intro h
      obtain ⟨components, hparse⟩ := h
      exact ⟨_, components, hparse, rfl⟩
  rw [hparse, parseParts_iff]
  constructor
  · intro h
    obtain ⟨pairs, hparts, hpairs⟩ := h
    refine ⟨pairs, fun hnil => ?_, ?_, fun pair hpair => ⟨hpairs pair hpair, ?_⟩⟩
    · subst hnil
      exact List.splitOn_ne_nil _ _ hparts
    · rw [← hparts, List.intercalate_splitOn]
    · have hmem : pair.2 ∈ pairParts pairs := List.mem_flatMap.mpr ⟨pair, hpair, by simp⟩
      rw [← hparts] at hmem
      exact notMem_of_mem_splitOn hmem
  · intro h
    obtain ⟨pairs, hne, htext, hpairs⟩ := h
    refine ⟨pairs, ?_, fun pair hpair => (hpairs pair hpair).1⟩
    rw [htext, List.splitOn_intercalate]
    · intro part hpart
      obtain ⟨pair, hpair, hmem⟩ := List.mem_flatMap.mp hpart
      obtain ⟨hvalid, hslash⟩ := hpairs pair hpair
      rcases List.mem_cons.mp hmem with rfl | hmem
      · exact hvalid.noSlash
      · rw [List.mem_singleton.mp hmem]
        exact hslash
    · cases pairs with
      | nil => exact absurd rfl hne
      | cons pair pairs => exact nofun

/-! ## Which texts are refused -/

/-- No call returns an error. -/
theorem newEnding_ne_err (text : String) (e : ParseError) : Multiaddr.newEnding text ≠ .err e := by
  unfold Multiaddr.newEnding
  cases hcall : ((Multiaddr.parse text).unwrap : Ending ParseError _) with
  | ok components => exact nofun
  | err e' => exact absurd hcall (unwrap_ne_err _ e')
  | panic message => exact nofun

/-- **The exact panics**: a call panics on every text that is not an address. -/
theorem newEnding_panic_iff (text : String) :
    (∃ message, Multiaddr.newEnding text = .panic message) ↔ ¬ WellFormed text := by
  rw [← newEnding_ok_iff]
  cases hcall : Multiaddr.newEnding text with
  | ok addr => simp
  | err e => exact absurd hcall (newEnding_ne_err text e)
  | panic message => simp

/-- What a caller that filters on the error relies on: the addresses are accepted, and every other
text comes back as an error. -/
structure AcceptsExactly (text : String) : Prop where
  ok_iff : (∃ addr, Multiaddr.newEnding text = .ok addr) ↔ WellFormed text
  err : ¬ WellFormed text → ∃ e, Multiaddr.newEnding text = .err e

/-- That is so for the addresses only. -/
theorem acceptsExactly_iff (text : String) : AcceptsExactly text ↔ WellFormed text := by
  constructor
  · intro h
    by_contra hbad
    obtain ⟨e, he⟩ := h.err hbad
    exact newEnding_ne_err text e he
  · intro h
    exact ⟨newEnding_ok_iff text, fun hbad => absurd h hbad⟩

/-- For an unknown protocol, `parse` returns an error and `Multiaddr::new` panics. -/
theorem unknown_protocol_panics :
    Multiaddr.parse "/dns/example" = .err (.message "Unkown protocol: dns") ∧
      (∃ message, Multiaddr.newEnding "/dns/example" = .panic message) ∧
      ¬ ∀ text, AcceptsExactly text := by
  have hparse : Multiaddr.parse "/dns/example" = .err (.message "Unkown protocol: dns") := by
    decide +kernel
  have hpanic : Multiaddr.newEnding "/dns/example" =
      .panic "called `Result::unwrap()` on an `Err` value" := by
    rw [Multiaddr.newEnding, hparse]
    rfl
  refine ⟨hparse, ⟨_, hpanic⟩, fun h => ?_⟩
  have hbad : ¬ WellFormed "/dns/example" := by
    intro hformed
    obtain ⟨addr, haddr⟩ := (newEnding_ok_iff "/dns/example").mpr hformed
    rw [hpanic] at haddr
    exact absurd haddr nofun
  obtain ⟨e, he⟩ := (h "/dns/example").err hbad
  rw [hpanic] at he
  exact absurd he nofun

end Rnet.Identity
