import Rnet.Identity.Address

/-!
# The components of an address: `identity/src/multiaddr.rs`

`value_for_protocol` reads the first component of a protocol and `replace_value_for_protocol`
writes it: the arms of its loop assign the parsed value and return. The arm of `"ip4"` assigns and
goes on, so with it every later IPv4 component is overwritten as well.

> `replacesFirst_iff`: the calls that change the first component of the protocol and no other.

A value that does not parse is refused at the first component, before anything is assigned.
-/

namespace Rnet.Identity

open Rnet.Lib.NetText

/-! ## The code -/

/-- The component is one of the protocol `proto`. -/
def Protocol.IsOf (protocol : Protocol) (proto : String) : Prop := proto.toList = protocol.name

instance (protocol : Protocol) (proto : String) : Decidable (protocol.IsOf proto) :=
  inferInstanceAs (Decidable (_ = _))

/-- The arms of `value_for_protocol`: the value of a component of the protocol, printed. -/
def Protocol.valueFor (proto : String) (protocol : Protocol) : Option String :=
  if protocol.IsOf proto then some (String.ofList protocol.valueText) else none

/-- `value_for_protocol`. -/
def Multiaddr.valueForProtocol (addr : Multiaddr) (proto : String) : Option String :=
  addr.components.findSome? (Protocol.valueFor proto)

/-- What an arm of `replace_value_for_protocol` assigns to its component. -/
def Protocol.assign (value : String) : Protocol → Except String Protocol
  | .ip4 _ => ((parseIpv4 value.toList).map .ip4).elim (.error "Invalid IPv4 address") .ok
  | .ip6 _ => ((parseIpv6 value.toList).map .ip6).elim (.error "Invalid IPv6 address") .ok
  | .tcp _ => ((parsePort value.toList).map .tcp).elim (.error "Invalid TCP port") .ok
  | .udp _ => ((parsePort value.toList).map .udp).elim (.error "Invalid UDP port") .ok
  | .p2p _ => .ok (.p2p value)

/-- Whether the arm ends in `return Ok(())`. -/
def Protocol.returns : Protocol → Bool
  | .ip4 _ => false
  | _ => true

/-- The loop of `replace_value_for_protocol`: the result, and the components behind it. -/
def replaceFrom (proto value : String) : List Protocol → Except String Unit × List Protocol
  | [] => (.ok (), [])
  | protocol :: rest =>
    if protocol.IsOf proto then
      match protocol.assign value with
      | .error e => (.error e, protocol :: rest)
      | .ok protocol' =>
        if protocol.returns then (.ok (), protocol' :: rest)
        else ((replaceFrom proto value rest).1, protocol' :: (replaceFrom proto value rest).2)
    else ((replaceFrom proto value rest).1, protocol :: (replaceFrom proto value rest).2)

/-- `replace_value_for_protocol`. -/
def Multiaddr.replaceValueForProtocol (addr : Multiaddr) (proto value : String) :
    Except String Unit × Multiaddr :=
  ((replaceFrom proto value addr.components).1, ⟨(replaceFrom proto value addr.components).2⟩)

/-- `push_proto`. -/
def Multiaddr.pushProto (addr : Multiaddr) (proto : Protocol) : Multiaddr :=
  ⟨addr.components ++ [proto]⟩

/-- The swarm's question for the peer id. -/
theorem valueForProtocol_p2p (addr : Multiaddr) :
    addr.valueForProtocol "p2p" = addr.valueForP2p := by
  unfold Multiaddr.valueForProtocol Multiaddr.valueForP2p
  congr 1
  funext protocol
  cases protocol with
  | p2p peer_id =>
    exact (if_pos rfl).trans (congrArg some String.ofList_toList)
  | _ => exact if_neg (by simp [Protocol.IsOf, Protocol.name])

/-- The swarm's question for a UDP component. -/
theorem valueForProtocol_udp (addr : Multiaddr) :
    addr.valueForProtocol "udp" =
      addr.valueForUdp.map fun port => String.ofList (Nat.toDigits 10 port.toNat) := by
  unfold Multiaddr.valueForProtocol Multiaddr.valueForUdp
  rw [List.map_findSome?]
  congr 1
  funext protocol
  cases protocol with
  | udp port => exact if_pos rfl
  | _ => exact if_neg (by simp [Protocol.IsOf, Protocol.name])

/-- The question of `ping_check` for a TCP component. -/
theorem valueForProtocol_tcp (addr : Multiaddr) :
    addr.valueForProtocol "tcp" =
      addr.valueForTcp.map fun port => String.ofList (Nat.toDigits 10 port.toNat) := by
  unfold Multiaddr.valueForProtocol Multiaddr.valueForTcp
  rw [List.map_findSome?]
  congr 1
  funext protocol
  cases protocol with
  | tcp port => exact if_pos rfl
  | _ => exact if_neg (by simp [Protocol.IsOf, Protocol.name])

/-! ## What an arm assigns -/

/-- A value is assigned exactly if `parse` reads it behind the name of the component. -/
theorem Protocol.assign_eq_ok {protocol protocol' : Protocol} {value : String} :
    protocol.assign value = .ok protocol' ↔
      parseProtocol protocol.name value.toList = some protocol' := by
  have helim : ∀ (parsed : Option Protocol) (e : String),
      parsed.elim (.error e) Except.ok = Except.ok protocol' ↔ parsed = some protocol' := by
    intro parsed e
    cases parsed with
    | none => simp
    | some p => simp
  cases protocol with
  | ip4 ip => exact helim _ _
  | ip6 ip => exact helim _ _
  | tcp port => exact helim _ _
  | udp port => exact helim _ _
  | p2p peer_id => simp [assign, parseProtocol, Protocol.name]

/-- Neither the protocol of a component changes nor what its arm does behind the assignment. -/
theorem name_of_parseProtocol {protocol protocol' : Protocol} {value : List Char}
    (h : parseProtocol protocol.name value = some protocol') : protocol'.name = protocol.name := by
  cases protocol with
  | p2p peer_id =>
    obtain rfl := Option.some.inj h
    rfl
  | _ =>
    obtain ⟨v, -, rfl⟩ := Option.map_eq_some_iff.mp h
    rfl

/-! ## The loop -/

/-- The first component of the protocol `proto`, between what is in front of it and behind it. -/
structure FirstOf (proto : String) (components before : List Protocol) (protocol : Protocol)
    (after : List Protocol) : Prop where
  split : components = before ++ protocol :: after
  isOf : protocol.IsOf proto
  first : ∀ p ∈ before, ¬ p.IsOf proto

/-- Either there is a first component of the protocol, or there is none. -/
theorem firstOf_or_none (proto : String) (components : List Protocol) :
    (∃ before protocol after, FirstOf proto components before protocol after) ∨
      ∀ p ∈ components, ¬ p.IsOf proto := by
  induction components with
  | nil => exact Or.inr nofun
  | cons p components ih =>
    by_cases hp : p.IsOf proto
    · exact Or.inl ⟨[], p, components, rfl, hp, nofun⟩
    · refine ih.imp ?_ fun hnone => List.forall_mem_cons.mpr ⟨hp, hnone⟩
      intro h
      obtain ⟨before, protocol, after, hfirst⟩ := h
      refine ⟨p :: before, protocol, after, congrArg (p :: ·) hfirst.split, hfirst.isOf, ?_⟩
      exact List.forall_mem_cons.mpr ⟨hp, hfirst.first⟩

/-- It is the component that `value_for_protocol` reads. -/
theorem FirstOf.valueForProtocol {proto : String} {addr : Multiaddr} {before after : List Protocol}
    {protocol : Protocol} (h : FirstOf proto addr.components before protocol after) :
    addr.valueForProtocol proto = some (String.ofList protocol.valueText) := by
  have hbefore : before.findSome? (Protocol.valueFor proto) = none :=
    List.findSome?_eq_none_iff.mpr fun p hp => if_neg (h.first p hp)
  have hfirst : Protocol.valueFor proto protocol = some (String.ofList protocol.valueText) :=
    if_pos h.isOf
  rw [Multiaddr.valueForProtocol, h.split, List.findSome?_append, hbefore, Option.none_or,
    List.findSome?_cons, hfirst]

/-- The loop goes past the components of other protocols. -/
theorem replaceFrom_append {proto : String} {before : List Protocol}
    (h : ∀ p ∈ before, ¬ p.IsOf proto) (value : String) (rest : List Protocol) :
    replaceFrom proto value (before ++ rest) =
      ((replaceFrom proto value rest).1, before ++ (replaceFrom proto value rest).2) := by
  induction before with
  | nil => rfl
  | cons p before ih =>
    obtain ⟨hp, hbefore⟩ := List.forall_mem_cons.mp h
    rw [List.cons_append, replaceFrom, if_neg hp, ih hbefore]
    rfl

/-- Without a component of the protocol nothing is assigned. -/
theorem replaceFrom_none {proto : String} {components : List Protocol}
    (h : ∀ p ∈ components, ¬ p.IsOf proto) (value : String) :
    replaceFrom proto value components = (.ok (), components) := by
  have hall := replaceFrom_append h value []
  rw [List.append_nil] at hall
  rw [hall]
  exact congrArg (Prod.mk _) (List.append_nil components)

/-- One turn of the loop: the component is left or assigned to, and the loop goes on or not. -/
theorem replaceFrom_cons (proto value : String) (protocol : Protocol) (rest : List Protocol) :
    ∃ protocol' rest', (replaceFrom proto value (protocol :: rest)).2 = protocol' :: rest' ∧
      (protocol' = protocol ∨ protocol.IsOf proto ∧ protocol.assign value = .ok protocol') ∧
      (rest' = rest ∨ rest' = (replaceFrom proto value rest).2) := by
  rw [replaceFrom]
  by_cases hisOf : protocol.IsOf proto
  · rw [if_pos hisOf]
    cases hassign : protocol.assign value with
    | error e => exact ⟨protocol, rest, rfl, Or.inl rfl, Or.inl rfl⟩
    | ok protocol' =>
      dsimp only
      by_cases hreturns : protocol.returns = true
      · rw [if_pos hreturns]
        exact ⟨protocol', rest, rfl, Or.inr ⟨hisOf, rfl⟩, Or.inl rfl⟩
      · rw [if_neg hreturns]
        exact ⟨protocol', _, rfl, Or.inr ⟨hisOf, rfl⟩, Or.inr rfl⟩
  · rw [if_neg hisOf]
    exact ⟨protocol, _, rfl, Or.inl rfl, Or.inr rfl⟩

/-- The loop keeps the number of components. -/
theorem length_replaceFrom (proto value : String) (components : List Protocol) :
    (replaceFrom proto value components).2.length = components.length := by
  induction components with
  | nil => rfl
  | cons protocol components ih =>
    obtain ⟨protocol', rest', hloop, -, hrest⟩ :=
      replaceFrom_cons proto value protocol components
    rw [hloop, List.length_cons, List.length_cons]
    rcases hrest with rfl | rfl
    · rfl
    · rw [ih]

/-- Each component behind the loop is the one before it, or what an arm assigned there. -/
theorem getElem?_replaceFrom {proto value : String} {components : List Protocol} {i : Nat}
    {p' : Protocol} (h : (replaceFrom proto value components).2[i]? = some p') :
    ∃ p, components[i]? = some p ∧ (p' = p ∨ p.IsOf proto ∧ p.assign value = .ok p') := by
  induction components generalizing i with
  | nil => exact absurd h nofun
  | cons protocol components ih =>
    obtain ⟨protocol', rest', hloop, hfirst, hrest⟩ :=
      replaceFrom_cons proto value protocol components
    rw [hloop] at h
    cases i with
    | zero =>
      obtain rfl := Option.some.inj h
      exact ⟨protocol, rfl, hfirst⟩
    | succ i =>
      rw [List.getElem?_cons_succ] at h
      rcases hrest with rfl | rfl
      · exact ⟨p', h, Or.inl rfl⟩
      · exact ih h

/-- Overwrites an IPv4 component. -/
def Protocol.setIp4 (ip : BitVec 32) : Protocol → Protocol
  | .ip4 _ => .ip4 ip
  | protocol => protocol

/-- **The arm without a return**: the loop goes on and overwrites every IPv4 component. -/
theorem replaceFrom_ip4 {value : String} {ip : BitVec 32} (h : parseIpv4 value.toList = some ip)
    (components : List Protocol) :
    replaceFrom "ip4" value components = (.ok (), components.map (Protocol.setIp4 ip)) := by
  induction components with
  | nil => rfl
  | cons protocol components ih =>
    rw [replaceFrom, ih]
    cases protocol with
    | ip4 old =>
      have hassign : (Protocol.ip4 old).assign value = .ok (.ip4 ip) := by simp [Protocol.assign, h]
      rw [if_pos (show (Protocol.ip4 old).IsOf "ip4" from rfl), hassign]
      rfl
    | _ => exact if_neg (by simp [Protocol.IsOf, Protocol.name])

/-- A component is left as it is if it is not of IPv4, or holds the address already. -/
theorem Protocol.setIp4_eq_self {ip : BitVec 32} {protocol : Protocol} :
    protocol.setIp4 ip = protocol ↔ (protocol.IsOf "ip4" → protocol = .ip4 ip) := by
  cases protocol with
  | ip4 old =>
    have hisOf : (Protocol.ip4 old).IsOf "ip4" := rfl
    exact ⟨fun h _ => h.symm, fun h => (h hisOf).symm⟩
  | _ => simp [setIp4, Protocol.IsOf, Protocol.name]

/-- An arm that assigns and does not return is that of IPv4. -/
theorem ip4_of_assign {proto value : String} {protocol protocol' : Protocol}
    (hisOf : protocol.IsOf proto) (hreturns : protocol.returns = false)
    (hassign : protocol.assign value = .ok protocol') :
    proto = "ip4" ∧ ∃ ip, parseIpv4 value.toList = some ip ∧ protocol' = .ip4 ip := by
  have hparse := Protocol.assign_eq_ok.mp hassign
  cases protocol with
  | ip4 old =>
    obtain ⟨ip, hip, rfl⟩ := Option.map_eq_some_iff.mp hparse
    exact ⟨String.toList_inj.mp hisOf, ip, hip, rfl⟩
  | _ => exact absurd hreturns (by simp [Protocol.returns])

/-- **What the loop does** at the first component of the protocol: it refuses the value, or it
assigns it and returns, or it is the one of IPv4 and assigns it there and from there on. -/
theorem replaceFrom_first {proto : String} {components before after : List Protocol}
    {protocol : Protocol} (h : FirstOf proto components before protocol after) (value : String) :
    (∃ e, protocol.assign value = .error e ∧
      replaceFrom proto value components = (.error e, components)) ∨
    (∃ protocol', protocol.assign value = .ok protocol' ∧
      replaceFrom proto value components = (.ok (), before ++ protocol' :: after)) ∨
    (proto = "ip4" ∧ ∃ ip, parseIpv4 value.toList = some ip ∧
      protocol.assign value = .ok (.ip4 ip) ∧
      replaceFrom proto value components =
        (.ok (), before ++ .ip4 ip :: after.map (Protocol.setIp4 ip))) := by
  rw [h.split, replaceFrom_append h.first, replaceFrom, if_pos h.isOf]
  cases hassign : protocol.assign value with
  | error e => exact Or.inl ⟨e, rfl, rfl⟩
  | ok protocol' =>
    dsimp only
    by_cases hreturns : protocol.returns = true
    · rw [if_pos hreturns]
      exact Or.inr (Or.inl ⟨protocol', rfl, rfl⟩)
    · rw [if_neg hreturns]
      have hgoesOn := eq_false_of_ne_true hreturns
      obtain ⟨rfl, ip, hip, rfl⟩ := ip4_of_assign h.isOf hgoesOn hassign
      rw [replaceFrom_ip4 hip]
      exact Or.inr (Or.inr ⟨rfl, ip, hip, rfl, rfl⟩)

/-! ## Replacing the first component -/

/-- What `replace_value_for_protocol` is for: a call that succeeds assigns the parsed value to the
first component of the protocol, if there is one, which is the one that `value_for_protocol` reads,
and to no other; a call that fails assigns nothing. -/
structure ReplacesFirst (addr : Multiaddr) (proto value : String) : Prop where
  ok_first : (addr.replaceValueForProtocol proto value).1 = .ok () →
    ∀ before protocol after, FirstOf proto addr.components before protocol after →
      addr.valueForProtocol proto = some (String.ofList protocol.valueText) ∧
        ∃ protocol', parseProtocol protocol.name value.toList = some protocol' ∧
          (addr.replaceValueForProtocol proto value).2.components = before ++ protocol' :: after
  ok_none : (addr.replaceValueForProtocol proto value).1 = .ok () →
    (∀ p ∈ addr.components, ¬ p.IsOf proto) →
      (addr.replaceValueForProtocol proto value).2.components = addr.components
  err : ∀ e, (addr.replaceValueForProtocol proto value).1 = .error e →
    (addr.replaceValueForProtocol proto value).2.components = addr.components

/-- Behind the first IPv4 component, every IPv4 component holds the address already. -/
def LaterHold (components : List Protocol) (ip : BitVec 32) : Prop :=
  ∀ before protocol after, FirstOf "ip4" components before protocol after →
    ∀ p ∈ after, p.IsOf "ip4" → p = .ip4 ip

/-- **A call that fails changes nothing**, whichever protocol it is for. -/
theorem replaceFrom_error {proto value e : String} {components : List Protocol}
    (h : (replaceFrom proto value components).1 = .error e) :
    (replaceFrom proto value components).2 = components := by
  rcases firstOf_or_none proto components with hfirst | hnone
  · obtain ⟨before, protocol, after, hfirst⟩ := hfirst
    rcases replaceFrom_first hfirst value with ⟨e', -, hloop⟩ | ⟨_, -, hloop⟩ | ⟨-, _, -, -, hloop⟩
    · rw [hloop]
    · exact absurd ((congrArg Prod.fst hloop).symm.trans h) nofun
    · exact absurd ((congrArg Prod.fst hloop).symm.trans h) nofun
  · rw [replaceFrom_none hnone]

/-- The components behind the first one stay as they are if each of IPv4 holds the address. -/
theorem map_setIp4_eq_self {ip : BitVec 32} {after : List Protocol} :
    after.map (Protocol.setIp4 ip) = after ↔ ∀ p ∈ after, p.IsOf "ip4" → p = .ip4 ip := by
  have hid : after.map id = after := List.map_id after
  nth_rewrite 2 [← hid]
  rw [List.map_inj_left]
  simp only [id, Protocol.setIp4_eq_self]

/-- Which calls replace the first component only: all of them but those for `"ip4"` with an address
that a later IPv4 component does not hold yet. -/
theorem replacesFirst_iff (addr : Multiaddr) (proto value : String) :
    ReplacesFirst addr proto value ↔
      (proto = "ip4" → ∀ ip, parseIpv4 value.toList = some ip → LaterHold addr.components ip) := by
  constructor
  · intro h hproto ip hip before protocol after hfirst
    subst hproto
    have hloop := replaceFrom_ip4 hip addr.components
    obtain ⟨-, protocol', -, hcomponents⟩ :=
      h.ok_first (congrArg Prod.fst hloop) before protocol after hfirst
    have hmap : addr.components.map (Protocol.setIp4 ip) = before ++ protocol' :: after :=
      (congrArg Prod.snd hloop).symm.trans hcomponents
    rw [hfirst.split, List.map_append, List.map_cons] at hmap
    obtain ⟨-, hbehind⟩ := List.append_inj hmap (List.length_map _)
    exact map_setIp4_eq_self.mp (List.cons.inj hbehind).2
  · intro h
    refine ⟨?_, fun _ hnone => congrArg Prod.snd (replaceFrom_none hnone value),
      fun e he => replaceFrom_error he⟩
    intro hok before protocol after hfirst
    refine ⟨hfirst.valueForProtocol, ?_⟩
    rcases replaceFrom_first hfirst value with
      ⟨e, -, hloop⟩ | ⟨protocol', hassign, hloop⟩ | ⟨rfl, ip, hip, hassign, hloop⟩
    · exact absurd ((congrArg Prod.fst hloop).symm.trans hok) nofun
    · exact ⟨protocol', Protocol.assign_eq_ok.mp hassign, congrArg Prod.snd hloop⟩
    · have hkeep := map_setIp4_eq_self.mpr (h rfl ip hip before protocol after hfirst)
      rw [hkeep] at hloop
      exact ⟨.ip4 ip, Protocol.assign_eq_ok.mp hassign, congrArg Prod.snd hloop⟩

/-- With two IPv4 components, both are overwritten. -/
theorem replaces_second_ip4 : ¬ ∀ addr proto value, ReplacesFirst addr proto value := by
  intro h
  have hfirst : FirstOf "ip4" [.ip4 1, .ip4 2] [] (.ip4 1) [.ip4 2] := ⟨rfl, rfl, nofun⟩
  obtain ⟨-, protocol', -, hcomponents⟩ :=
    (h ⟨[.ip4 1, .ip4 2]⟩ "ip4" "0.0.0.3").ok_first (by decide +kernel) _ _ _ hfirst
  have hboth : ((⟨[.ip4 1, .ip4 2]⟩ : Multiaddr).replaceValueForProtocol "ip4" "0.0.0.3").2 =
      ⟨[.ip4 3, .ip4 3]⟩ := by decide +kernel
  rw [hboth] at hcomponents
  exact absurd (List.cons.inj hcomponents).2 (by decide)

end Rnet.Identity
