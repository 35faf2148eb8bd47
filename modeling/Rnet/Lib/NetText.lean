import Mathlib.Algebra.Group.Nat.Defs
import Mathlib.Data.List.Basic

/-!
# Numbers and IP addresses as text

The parsers and printers of `u16`, `Ipv4Addr` and `Ipv6Addr` of the standard library, on lists of
characters. An address is the list of its groups: four below 256, or eight below 65536.

> `readIpv4_showIpv4`, `readIpv6_showIpv6`, `parsePort_toDigits`: what was printed is read back.

A parser returns what it has read and the text behind it. The groups of an address
are read one after the other with a separator before all but the first, and printed in the same way
(`joined`), so each round trip is an induction over the groups.
-/

namespace Rnet.Lib.NetText

/-! ## Numbers -/

/-- `char::to_digit`. -/
def toDigit (radix : Nat) (c : Char) : Option Nat :=
  let digit :=
    if '0' ≤ c ∧ c ≤ '9' then some (c.toNat - 48)
    else if 'a' ≤ c ∧ c ≤ 'z' then some (c.toNat - 87)
    else if 'A' ≤ c ∧ c ≤ 'Z' then some (c.toNat - 55)
    else none
  digit.filter fun d => d < radix

/-- The digits that the text starts with, and what is behind them. -/
def digitRun (radix : Nat) : List Char → List Nat × List Char
  | [] => ([], [])
  | c :: text =>
    match toDigit radix c with
    | none => ([], c :: text)
    | some d => (d :: (digitRun radix text).1, (digitRun radix text).2)

/-- The number with these digits, the highest first. -/
def value (radix : Nat) (digits : List Nat) : Nat :=
  digits.foldl (fun acc d => acc * radix + d) 0

/-- `read_number`, for a number below `bound`. -/
def readNumber (radix max_digits : Nat) (allow_zeros : Bool) (bound : Nat)
    (text : List Char) : Option (Nat × List Char) :=
  let (digits, rest) := digitRun radix text
  if digits = [] ∨ max_digits < digits.length then none
  else if allow_zeros = false ∧ digits.head? = some 0 ∧ 1 < digits.length then none
  else if value radix digits < bound then some (value radix digits, rest)
  else none

/-- The text does not start with a digit. -/
def NoDigit (radix : Nat) (text : List Char) : Prop := (digitRun radix text).1 = []

/-- The digits of a number, as its printer makes them. -/
theorem exists_digits {radix : Nat} (h : 1 < radix) (n : Nat) :
    ∃ digits, Nat.toDigits radix n = digits.map Nat.digitChar ∧ (∀ d ∈ digits, d < radix) ∧
      value radix digits = n ∧ (digits.head? = some 0 → n = 0) ∧ digits ≠ [] := by
  induction n using Nat.strongRecOn with
  | ind n ih =>
    by_cases hn : n < radix
    · refine ⟨[n], Nat.toDigits_of_lt_base hn, ?_, ?_, ?_, by simp⟩
      · intro d hd
        rw [List.mem_singleton.mp hd]
        exact hn
      · simp [value]
      · intro h0
        simpa using h0
    · have hle : radix ≤ n := Nat.le_of_not_lt hn
      obtain ⟨digits, hd, hlt, hv, h0, hne⟩ := ih (n / radix) (Nat.div_lt_self (by omega) h)
      refine ⟨digits ++ [n % radix], ?_, ?_, ?_, ?_, by simp⟩
      · rw [Nat.toDigits_of_base_le h hle, hd, List.map_append]
        rfl
      · intro d hmem
        rcases List.mem_append.mp hmem with hmem | hmem
        · exact hlt d hmem
        · rw [List.mem_singleton.mp hmem]
          exact Nat.mod_lt n (by omega)
      · unfold value at hv ⊢
        rw [List.foldl_append, hv]
        exact Nat.div_add_mod' n radix
      · intro hhead
        -- the digits in front of the last one are those of a quotient that is not 0
        rw [List.head?_append_of_ne_nil _ hne] at hhead
        have hzero := h0 hhead
        have : 0 < n / radix := Nat.div_pos hle (by omega)
        omega

theorem toDigit_digitChar {radix d : Nat} (h : d < radix) (hr : radix ≤ 16) :
    toDigit radix (Nat.digitChar d) = some d := by
  have hall : ∀ d < 16, toDigit 16 (Nat.digitChar d) = some d := by decide
  have h16 := hall d (by omega)
  unfold toDigit at h16 ⊢
  dsimp only at h16 ⊢
  obtain ⟨hdigit, -⟩ := Option.filter_eq_some_iff.mp h16
  exact Option.filter_eq_some_iff.mpr ⟨hdigit, decide_eq_true h⟩

/-- Digits are read up to where they end. -/
theorem digitRun_append {radix : Nat} (hr : radix ≤ 16) {digits : List Nat}
    (hd : ∀ d ∈ digits, d < radix) (rest : List Char) (hrest : NoDigit radix rest) :
    digitRun radix (digits.map Nat.digitChar ++ rest) = (digits, rest) := by
  induction digits with
  | nil =>
    cases rest with
    | nil => rfl
    | cons c rest =>
      unfold NoDigit at hrest
      simp only [List.map_nil, List.nil_append, digitRun] at hrest ⊢
      cases ht : toDigit radix c with
      | none => rfl
      | some d => simp [ht] at hrest
  | cons d digits ih =>
    have hrun := ih fun d' hd' => hd d' (List.mem_cons_of_mem d hd')
    simp only [List.map_cons, List.cons_append, digitRun]
    rw [toDigit_digitChar (hd d (List.mem_cons_self ..)) hr, hrun]

/-- **A number** is read back from its digits. -/
theorem readNumber_toDigits {radix max_digits bound n : Nat} (h : 1 < radix) (hr : radix ≤ 16)
    (hn : n < bound) (hlen : (Nat.toDigits radix n).length ≤ max_digits) (zeros : Bool)
    (rest : List Char) (hrest : NoDigit radix rest) :
    readNumber radix max_digits zeros bound (Nat.toDigits radix n ++ rest) = some (n, rest) := by
  obtain ⟨digits, hd, hlt, hv, h0, hne⟩ := exists_digits h n
  have hlength : digits.length = (Nat.toDigits radix n).length := by rw [hd, List.length_map]
  unfold readNumber
  rw [hd, digitRun_append hr hlt rest hrest]
  dsimp only
  rw [if_neg (by simp [hne]; omega), if_neg, hv, if_pos hn]
  intro h
  obtain ⟨-, hhead, hlong⟩ := h
  rw [hlength, h0 hhead, Nat.toDigits_zero] at hlong
  simp at hlong

/-- The digits behind a plus sign. -/
def skipPlus : List Char → List Char
  | '+' :: d :: rest => d :: rest
  | text => text

/-- `u16::from_str`. -/
def parsePort (text : List Char) : Option UInt16 :=
  let (digits, rest) := digitRun 10 (skipPlus text)
  if digits ≠ [] ∧ rest = [] ∧ value 10 digits < 65536 then some (UInt16.ofNat (value 10 digits))
  else none

theorem skipPlus_digits {digits : List Nat} (h : ∀ d ∈ digits, d < 10) :
    skipPlus (digits.map Nat.digitChar) = digits.map Nat.digitChar := by
  have hplus : ∀ d < 10, Nat.digitChar d ≠ '+' := by decide
  cases digits with
  | nil => rfl
  | cons d digits =>
    have hfirst := hplus d (h d (List.mem_cons_self ..))
    unfold skipPlus
    split
    · rename_i heq
      exact absurd (List.cons.inj heq).1 hfirst
    · rfl

/-- A port is read back. -/
theorem parsePort_toDigits (port : UInt16) :
    parsePort (Nat.toDigits 10 port.toNat) = some port := by
  obtain ⟨digits, hd, hlt, hv, -, hne⟩ := exists_digits (show 1 < 10 by omega) port.toNat
  have hrun := digitRun_append (by omega) hlt [] rfl
  rw [List.append_nil] at hrun
  unfold parsePort
  rw [hd, skipPlus_digits hlt, hrun]
  dsimp only
  rw [if_pos ⟨hne, rfl, hv ▸ port.toNat_lt⟩, hv, UInt16.ofNat_toNat]

/-! ## Groups -/

/-- `read_separator`: the separator stands before every group but the first. -/
def readSeparator {α : Type} (sep : Char) (i : Nat) (inner : List Char → Option (α × List Char))
    (text : List Char) : Option (α × List Char) :=
  if i = 0 then inner text
  else
    match text with
    | [] => none
    | c :: rest => if c = sep then inner rest else none

/-- The groups from number `i` on, with the separator before every group but the first. -/
def joined (sep : Char) : Nat → List (List Char) → List Char
  | _, [] => []
  | i, group :: groups => (if i = 0 then [] else [sep]) ++ group ++ joined sep (i + 1) groups

theorem readSeparator_joined {α : Type} (sep : Char) (i : Nat)
    (inner : List Char → Option (α × List Char)) (group : List Char) (groups : List (List Char))
    (rest : List Char) :
    readSeparator sep i inner (joined sep i (group :: groups) ++ rest) =
      inner (group ++ (joined sep (i + 1) groups ++ rest)) := by
  unfold readSeparator
  rw [joined]
  by_cases hi : i = 0
  · rw [if_pos hi, if_pos hi, List.nil_append, List.append_assoc]
  · rw [if_neg hi, if_neg hi, List.append_assoc, List.append_assoc, List.singleton_append]
    exact if_pos rfl

/-- Behind a group stands no digit of it. -/
theorem noDigit_joined {radix : Nat} {sep : Char} (hsep : toDigit radix sep = none) (i : Nat)
    (groups : List (List Char)) {rest : List Char} (hrest : NoDigit radix rest) :
    NoDigit radix (joined sep (i + 1) groups ++ rest) := by
  cases groups with
  | nil => exact hrest
  | cons group groups =>
    rw [NoDigit, joined, if_neg (by omega), List.append_assoc, List.append_assoc,
      List.singleton_append, digitRun, hsep]

/-- The characters of the groups, and separators. -/
theorem mem_joined {sep c : Char} {i : Nat} {groups : List (List Char)}
    (h : c ∈ joined sep i groups) : c = sep ∨ ∃ group ∈ groups, c ∈ group := by
  induction groups generalizing i with
  | nil => simp [joined] at h
  | cons group groups ih =>
    rw [joined, List.mem_append, List.mem_append] at h
    rcases h with (h | h) | h
    · split at h
      · simp at h
      · exact Or.inl (List.mem_singleton.mp h)
    · exact Or.inr ⟨group, List.mem_cons_self .., h⟩
    · refine (ih h).imp_right ?_
      intro h
      obtain ⟨g, hg, hc⟩ := h
      exact ⟨g, List.mem_cons_of_mem group hg, hc⟩

/-- The text of groups that are not longer than `k`. -/
theorem length_joined_le (sep : Char) {k : Nat} {groups : List (List Char)}
    (h : ∀ group ∈ groups, group.length ≤ k) (i : Nat) :
    (joined sep i groups).length ≤ groups.length * (k + 1) := by
  induction groups generalizing i with
  | nil => simp [joined]
  | cons group groups ih =>
    have hrest := ih (fun g hg => h g (List.mem_cons_of_mem group hg)) (i + 1)
    have hgroup := h group (List.mem_cons_self ..)
    have hsep : (if i = 0 then [] else [sep]).length ≤ 1 := by
      split
      · exact Nat.zero_le 1
      · exact Nat.le_refl 1
    rw [joined, List.length_append, List.length_append, List.length_cons, Nat.succ_mul]
    omega

/-- A number's digits are neither separators nor slashes. -/
theorem digitChar_of_mem {radix n : Nat} (h : 1 < radix) (hr : radix ≤ 16) {c : Char}
    (hc : c ∈ Nat.toDigits radix n) : ∃ d < 16, c = Nat.digitChar d := by
  obtain ⟨digits, hd, hlt, -⟩ := exists_digits h n
  rw [hd] at hc
  obtain ⟨d, hmem, rfl⟩ := List.mem_map.mp hc
  have := hlt d hmem
  exact ⟨d, by omega, rfl⟩

/-! ## `Ipv4Addr` -/

/-- The groups from number `i` on of an IPv4 address. -/
def readOctets : Nat → Nat → List Char → Option (List Nat × List Char)
  | 0, _, text => some ([], text)
  | n + 1, i, text => do
    let (octet, rest) ← readSeparator '.' i (readNumber 10 3 false 256) text
    let (octets, rest') ← readOctets n (i + 1) rest
    some (octet :: octets, rest')

/-- `read_ipv4_addr`. -/
def readIpv4 (text : List Char) : Option (List Nat × List Char) := readOctets 4 0 text

/-- `Ipv4Addr::fmt`. -/
def showIpv4 (octets : List Nat) : List Char := joined '.' 0 (octets.map (Nat.toDigits 10))

theorem readOctets_joined {octets : List Nat} (h : ∀ octet ∈ octets, octet < 256)
    (rest : List Char) (hrest : NoDigit 10 rest) (i : Nat) :
    readOctets octets.length i (joined '.' i (octets.map (Nat.toDigits 10)) ++ rest) =
      some (octets, rest) := by
  induction octets generalizing i with
  | nil => rfl
  | cons octet octets ih =>
    have hoctet := h octet (List.mem_cons_self ..)
    have hlen : (Nat.toDigits 10 octet).length ≤ 3 :=
      (Nat.length_toDigits_le_iff (by omega) (by omega)).mpr (by omega)
    rw [List.length_cons, List.map_cons, readOctets, readSeparator_joined,
      readNumber_toDigits (by omega) (by omega) hoctet hlen false _
        (noDigit_joined (by decide) i _ hrest)]
    dsimp only [Option.bind_eq_bind, Option.bind_some]
    rw [ih (fun o ho => h o (List.mem_cons_of_mem octet ho)) (i + 1)]
    rfl

/-- **An IPv4 address** is read back. -/
theorem readIpv4_showIpv4 {octets : List Nat} (hlen : octets.length = 4)
    (h : ∀ octet ∈ octets, octet < 256) (rest : List Char) (hrest : NoDigit 10 rest) :
    readIpv4 (showIpv4 octets ++ rest) = some (octets, rest) := by
  unfold readIpv4 showIpv4
  rw [← hlen]
  exact readOctets_joined h rest hrest 0

/-- The parser of IPv4 addresses refuses a text of more than 15 bytes. -/
theorem length_showIpv4 {octets : List Nat} (hlen : octets.length = 4)
    (h : ∀ octet ∈ octets, octet < 256) : (showIpv4 octets).length ≤ 15 := by
  match octets, hlen with
  | octet :: octets, hlen =>
    have hdigits : ∀ o < 256, (Nat.toDigits 10 o).length ≤ 3 := fun o ho =>
      (Nat.length_toDigits_le_iff (by omega) (by omega)).mpr (by omega)
    have hgroups : ∀ group ∈ octets.map (Nat.toDigits 10), group.length ≤ 3 := by
      intro group hgroup
      obtain ⟨o, ho, rfl⟩ := List.mem_map.mp hgroup
      exact hdigits o (h o (List.mem_cons_of_mem octet ho))
    have hrest := length_joined_le '.' hgroups (0 + 1)
    have hfirst := hdigits octet (h octet (List.mem_cons_self ..))
    rw [List.length_map] at hrest
    rw [List.length_cons] at hlen
    rw [showIpv4, List.map_cons, joined, if_pos rfl, List.nil_append, List.length_append]
    omega

theorem mem_showIpv4 {octets : List Nat} {c : Char} (h : c ∈ showIpv4 octets) :
    c = '.' ∨ ∃ d < 16, c = Nat.digitChar d := by
  refine (mem_joined h).imp_right ?_
  intro h
  obtain ⟨group, hgroup, hc⟩ := h
  obtain ⟨o, -, rfl⟩ := List.mem_map.mp hgroup
  exact digitChar_of_mem (by omega) (by omega) hc

/-! ## `Ipv6Addr` -/

/-- `read_groups`: up to `n` groups from number `i` on, and whether the last two come from an IPv4
address at the end. -/
def readGroups : Nat → Nat → List Char → List Nat × Bool × List Char
  | 0, _, text => ([], false, text)
  | n + 1, i, text =>
    -- at least two groups must be left for an IPv4 address
    match if n = 0 then none else readSeparator ':' i readIpv4 text with
    | some (octets, rest) =>
      match octets with
      | [one, two, three, four] => ([one * 256 + two, three * 256 + four], true, rest)
      | _ => ([], false, text)
    | none =>
      match readSeparator ':' i (readNumber 16 4 true 65536) text with
      | some (group, rest) =>
        let (groups, ipv4, rest') := readGroups n (i + 1) rest
        (group :: groups, ipv4, rest')
      | none => ([], false, text)

/-- `read_ipv6_addr`. -/
def readIpv6 (text : List Char) : Option (List Nat × List Char) :=
  let (head, head_ipv4, rest) := readGroups 8 0 text
  if head.length = 8 then some (head, rest)
  else if head_ipv4 then none
  else
    match rest with
    | ':' :: ':' :: rest =>
      let (tail, _, rest') := readGroups (8 - (head.length + 1)) 0 rest
      some (head ++ List.replicate (8 - tail.length - head.length) 0 ++ tail, rest')
    | _ => none

/-- A run of groups: where it starts, and how many they are. -/
structure Span where
  start : Nat := 0
  len : Nat := 0

/-- The longest run of zeroes among the groups from number `i` on, as the loop of the printer finds
it. -/
def longestZeroes : List Nat → Nat → Span → Span → Span
  | [], _, longest, _ => longest
  | segment :: segments, i, longest, current =>
    if segment = 0 then
      let current : Span := ⟨if current.len = 0 then i else current.start, current.len + 1⟩
      let longest := if longest.len < current.len then current else longest
      longestZeroes segments (i + 1) longest current
    else longestZeroes segments (i + 1) longest {}

/-- `fmt_subslice`. -/
def showGroups (chunk : List Nat) : List Char := joined ':' 0 (chunk.map (Nat.toDigits 16))

/-- `Ipv6Addr::fmt`. -/
def showIpv6 (segments : List Nat) : List Char :=
  match segments with
  | [0, 0, 0, 0, 0, 0xffff, ab, cd] =>
    [':', ':', 'f', 'f', 'f', 'f', ':'] ++ showIpv4 [ab / 256, ab % 256, cd / 256, cd % 256]
  | _ =>
    let zeroes := longestZeroes segments 0 {} {}
    if 1 < zeroes.len then
      showGroups (segments.take zeroes.start) ++ [':', ':'] ++
        showGroups (segments.drop (zeroes.start + zeroes.len))
    else showGroups segments

/-- The groups of the span are zero. -/
def Zeroes (segments : List Nat) (span : Span) : Prop :=
  ∀ j, span.start ≤ j → j < span.start + span.len → segments[j]? = some 0

/-- **One group further**, the longest run and the current one are runs of zeroes. -/
theorem longestZeroes_zeroes {all : List Nat} (segments : List Nat) (i : Nat)
    (hall : all.drop i = segments) {longest current : Span} (hl : Zeroes all longest)
    (hc : Zeroes all current) (hend : current.len = 0 ∨ current.start + current.len = i) :
    Zeroes all (longestZeroes segments i longest current) := by
  induction segments generalizing i longest current with
  | nil => exact hl
  | cons segment segments ih =>
    have hrest : all.drop (i + 1) = segments := by
      rw [← List.drop_drop, hall]
      rfl
    have hget : all[i]? = some segment := by
      rw [← List.head?_drop, hall]
      rfl
    unfold longestZeroes
    by_cases hz : segment = 0
    · rw [if_pos hz]
      subst hz
      -- the current run is one longer, or starts here
      have hcur : Zeroes all ⟨if current.len = 0 then i else current.start, current.len + 1⟩ := by
        intro j hj hj'
        dsimp only at hj hj'
        by_cases hji : j = i
        · rw [hji]
          exact hget
        · by_cases hlen : current.len = 0
          · rw [if_pos hlen] at hj hj'
            omega
          · rw [if_neg hlen] at hj hj'
            exact hc j hj (by omega)
      dsimp only
      refine ih (i + 1) hrest ?_ hcur (Or.inr ?_)
      · split
        · exact hcur
        · exact hl
      · dsimp only
        split <;> omega
    · rw [if_neg hz]
      exact ih (i + 1) hrest hl (fun j hj hj' => absurd hj' (by simp at hj ⊢)) (Or.inl rfl)

/-- A run of zeroes inside a list. -/
theorem Zeroes.split {segments : List Nat} {span : Span} (h : Zeroes segments span) :
    segments = segments.take span.start ++ List.replicate span.len 0 ++
      segments.drop (span.start + span.len) := by
  have hmid : (segments.drop span.start).take span.len = List.replicate span.len 0 := by
    apply List.ext_getElem?
    intro j
    rw [List.getElem?_take, List.getElem?_replicate]
    by_cases hj : j < span.len
    · rw [if_pos hj, if_pos hj, List.getElem?_drop]
      exact h (span.start + j) (by omega) (by omega)
    · rw [if_neg hj, if_neg hj]
  rw [← hmid, ← List.drop_drop, List.append_assoc, List.take_append_drop, List.take_append_drop]

theorem readNumber_rest {radix max_digits bound n : Nat} {zeros : Bool} {text rest : List Char}
    (h : readNumber radix max_digits zeros bound text = some (n, rest)) :
    rest = (digitRun radix text).2 := by
  unfold readNumber at h
  dsimp only at h
  split at h
  · simp at h
  · split at h
    · simp at h
    · split at h
      · exact (Prod.mk.inj (Option.some.inj h)).2.symm
      · simp at h

/-- There is no IPv4 address where no dot follows the first number. -/
theorem readIpv4_none {text : List Char} (h : (digitRun 10 text).2.head? ≠ some '.') :
    readIpv4 text = none := by
  unfold readIpv4
  rw [readOctets]
  cases hfirst : readSeparator '.' 0 (readNumber 10 3 false 256) text with
  | none => rfl
  | some p =>
    obtain ⟨octet, rest⟩ := p
    obtain rfl := readNumber_rest hfirst
    dsimp only [Option.bind_eq_bind, Option.bind_some]
    rw [readOctets]
    have hsecond : readSeparator '.' 1 (readNumber 10 3 false 256) (digitRun 10 text).2 = none := by
      unfold readSeparator
      rw [if_neg (by omega)]
      cases hrun : (digitRun 10 text).2 with
      | nil => rfl
      | cons c rest =>
        rw [hrun] at h
        exact if_neg fun hc => h (congrArg some hc)
    rw [hsecond]
    rfl

/-- Behind the first number of a text without dots there is none. -/
theorem digitRun_noDot {text rest : List Char} (h : ∀ c ∈ text, c ≠ '.')
    (hrest : NoDigit 10 rest) (hdot : rest.head? ≠ some '.') :
    (digitRun 10 (text ++ rest)).2.head? ≠ some '.' := by
  induction text with
  | nil =>
    cases rest with
    | nil => exact hdot
    | cons c rest =>
      unfold NoDigit at hrest
      rw [digitRun] at hrest
      rw [List.nil_append, digitRun]
      cases ht : toDigit 10 c with
      | none => exact hdot
      | some d => simp [ht] at hrest
  | cons c text ih =>
    rw [List.cons_append, digitRun]
    cases toDigit 10 c with
    | none => exact fun hc => h c (List.mem_cons_self ..) (Option.some.inj hc)
    | some d => exact ih fun c' hc' => h c' (List.mem_cons_of_mem c hc')

/-- Nothing, or a colon next. -/
def Ends (text : List Char) : Prop := text = [] ∨ ∃ rest, text = ':' :: rest

theorem Ends.digitRun {text : List Char} (h : Ends text) (radix : Nat) :
    digitRun radix text = ([], text) := by
  rcases h with rfl | ⟨rest, rfl⟩
  · rfl
  · have hcolon : toDigit radix ':' = none := rfl
    rw [NetText.digitRun, hcolon]

theorem Ends.noDot {text : List Char} (h : Ends text) : text.head? ≠ some '.' := by
  rcases h with rfl | ⟨rest, rfl⟩
  · simp
  · simp

/-- What stands behind a group. -/
theorem ends_joined (i : Nat) (groups : List (List Char)) {rest : List Char} (hrest : Ends rest) :
    Ends (joined ':' (i + 1) groups ++ rest) := by
  cases groups with
  | nil => exact hrest
  | cons group groups =>
    rw [joined, if_neg (by omega)]
    exact Or.inr ⟨_, rfl⟩

/-- Where the groups of an IPv6 address end. -/
def Stop (text : List Char) : Prop := text = [] ∨ ∃ rest, text = ':' :: ':' :: rest

theorem Stop.ends {text : List Char} (h : Stop text) : Ends text :=
  h.imp_right fun ⟨rest, h⟩ => ⟨':' :: rest, h⟩

/-- No group is read there. -/
theorem readGroups_stop {text : List Char} (h : Stop text) (n i : Nat) :
    readGroups n i text = ([], false, text) := by
  have hnone : ∀ {α : Type} (inner : List Char → Option (α × List Char)),
      (∀ t, Ends t → inner t = none) → readSeparator ':' i inner text = none := by
    intro α inner hinner
    unfold readSeparator
    by_cases hi : i = 0
    · rw [if_pos hi]
      exact hinner text h.ends
    · rw [if_neg hi]
      rcases h with rfl | ⟨rest, rfl⟩
      · rfl
      · exact hinner _ (Or.inr ⟨rest, rfl⟩)
  cases n with
  | zero => rfl
  | succ n =>
    have hipv4 := hnone readIpv4 fun t ht => readIpv4_none (by rw [ht.digitRun]; exact ht.noDot)
    have hgroup := hnone (readNumber 16 4 true 65536) fun t ht => by
      unfold readNumber
      rw [ht.digitRun]
      exact if_pos (Or.inl rfl)
    rw [readGroups, hipv4, hgroup, ite_self]

theorem readGroups_cons {n i group : Nat} {text rest : List Char}
    (hipv4 : readSeparator ':' i readIpv4 text = none)
    (hgroup : readSeparator ':' i (readNumber 16 4 true 65536) text = some (group, rest)) :
    readGroups (n + 1) i text = (group :: (readGroups n (i + 1) rest).1,
      (readGroups n (i + 1) rest).2) := by
  rw [readGroups, hipv4, hgroup]
  rw [ite_self]

/-- **The groups** of an IPv6 address are read back up to where they end. -/
theorem readGroups_joined {groups : List Nat} (h : ∀ group ∈ groups, group < 65536)
    (rest : List Char) (hrest : Stop rest) (n i : Nat) (hn : groups.length ≤ n) :
    readGroups n i (joined ':' i (groups.map (Nat.toDigits 16)) ++ rest) =
      (groups, false, rest) := by
  induction groups generalizing n i with
  | nil => exact readGroups_stop hrest n i
  | cons group groups ih =>
    obtain ⟨n, rfl⟩ : ∃ m, n = m + 1 := ⟨n - 1, by simp at hn; omega⟩
    have hgroup := h group (List.mem_cons_self ..)
    have hlen : (Nat.toDigits 16 group).length ≤ 4 :=
      (Nat.length_toDigits_le_iff (by omega) (by omega)).mpr (by omega)
    have hends := ends_joined i (groups.map (Nat.toDigits 16)) hrest.ends
    have hdots : ∀ d < 16, Nat.digitChar d ≠ '.' := by decide
    -- the group is no IPv4 address, so it is read as a group
    have hipv4 : readSeparator ':' i readIpv4
        (joined ':' i (Nat.toDigits 16 group :: groups.map (Nat.toDigits 16)) ++ rest) = none := by
      rw [readSeparator_joined]
      apply readIpv4_none
      apply digitRun_noDot
      · intro c hc
        obtain ⟨d, hd, rfl⟩ := digitChar_of_mem (by omega) (by omega) hc
        exact hdots d hd
      · exact congrArg Prod.fst (hends.digitRun 10)
      · exact hends.noDot
    have hread : readSeparator ':' i (readNumber 16 4 true 65536)
        (joined ':' i (Nat.toDigits 16 group :: groups.map (Nat.toDigits 16)) ++ rest) =
          some (group, joined ':' (i + 1) (groups.map (Nat.toDigits 16)) ++ rest) := by
      rw [readSeparator_joined]
      exact readNumber_toDigits (by omega) (by omega) hgroup hlen true _
        (congrArg Prod.fst (hends.digitRun 16))
    rw [List.map_cons, readGroups_cons hipv4 hread,
      ih (fun g hg => h g (List.mem_cons_of_mem group hg)) n (i + 1) (by simpa using hn)]

/-- An address that is read in two parts. -/
theorem readIpv6_parts {text rest rest' : List Char} {head tail : List Nat} {ipv4 : Bool}
    (hhead : readGroups 8 0 text = (head, false, ':' :: ':' :: rest)) (hlen : head.length ≠ 8)
    (htail : readGroups (8 - (head.length + 1)) 0 rest = (tail, ipv4, rest')) :
    readIpv6 text =
      some (head ++ List.replicate (8 - tail.length - head.length) 0 ++ tail, rest') := by
  unfold readIpv6
  rw [hhead]
  dsimp only
  rw [if_neg hlen, if_neg (by simp)]
  show some (head ++ List.replicate (8 - (readGroups (8 - (head.length + 1)) 0 rest).1.length -
    head.length) 0 ++ (readGroups (8 - (head.length + 1)) 0 rest).1, _) = _
  rw [htail]

/-- An IPv4 address at the end of an IPv6 address. -/
theorem readGroups_ipv4 {n i one two three four : Nat} {text rest : List Char} (hn : n ≠ 0)
    (h : readSeparator ':' i readIpv4 text = some ([one, two, three, four], rest)) :
    readGroups (n + 1) i text = ([one * 256 + two, three * 256 + four], true, rest) := by
  rw [readGroups, if_neg hn, h]

/-- An IPv6 address that stands for an IPv4 address. -/
theorem readIpv6_mapped {ab cd : Nat} (hab : ab < 65536) (hcd : cd < 65536) :
    readIpv6 ([':', ':', 'f', 'f', 'f', 'f', ':'] ++
      showIpv4 [ab / 256, ab % 256, cd / 256, cd % 256]) =
        some ([0, 0, 0, 0, 0, 0xffff, ab, cd], []) := by
  have hlt : ∀ octet ∈ [ab / 256, ab % 256, cd / 256, cd % 256], octet < 256 := by
    simp only [List.mem_cons, List.not_mem_nil, or_false]
    omega
  have hoctets := readIpv4_showIpv4 rfl hlt [] rfl
  rw [List.append_nil] at hoctets
  generalize showIpv4 [ab / 256, ab % 256, cd / 256, cd % 256] = ipv4 at hoctets ⊢
  -- `ffff`, and then the four numbers
  have htail : readGroups 7 0 ('f' :: 'f' :: 'f' :: 'f' :: ':' :: ipv4) =
      ([0xffff, ab / 256 * 256 + ab % 256, cd / 256 * 256 + cd % 256], true, []) := by
    have hnone : readSeparator ':' 0 readIpv4 ('f' :: 'f' :: 'f' :: 'f' :: ':' :: ipv4) = none := by
      have hf : toDigit 10 'f' = none := rfl
      apply readIpv4_none
      rw [digitRun, hf]
      simp
    have hread : readNumber 16 4 true 65536 (Nat.toDigits 16 0xffff ++ ':' :: ipv4) =
        some (0xffff, ':' :: ipv4) :=
      readNumber_toDigits (show 1 < 16 by decide) (by decide) (by decide) (by decide) true _ rfl
    have hffff : readSeparator ':' 0 (readNumber 16 4 true 65536)
        ('f' :: 'f' :: 'f' :: 'f' :: ':' :: ipv4) = some (0xffff, ':' :: ipv4) := hread
    have hipv4 : readSeparator ':' 1 readIpv4 (':' :: ipv4) =
        some ([ab / 256, ab % 256, cd / 256, cd % 256], []) := hoctets
    rw [readGroups_cons hnone hffff, readGroups_ipv4 (by decide) hipv4]
  rw [Nat.div_add_mod', Nat.div_add_mod'] at htail
  exact readIpv6_parts (readGroups_stop (Or.inr ⟨_, rfl⟩) 8 0) (by simp) htail

/-- **An IPv6 address** is read back. -/
theorem readIpv6_showIpv6 {segments : List Nat} (hlen : segments.length = 8)
    (h : ∀ segment ∈ segments, segment < 65536) :
    readIpv6 (showIpv6 segments) = some (segments, []) := by
  unfold showIpv6
  split
  · rename_i ab cd
    exact readIpv6_mapped (h ab (by simp)) (h cd (by simp))
  · dsimp only
    have hzeroes : Zeroes segments (longestZeroes segments 0 {} {}) :=
      longestZeroes_zeroes segments 0 rfl (fun j _ hj => absurd hj (by simp))
        (fun j _ hj => absurd hj (by simp)) (Or.inl rfl)
    generalize longestZeroes segments 0 {} {} = zeroes at hzeroes ⊢
    split
    · have hsplit := hzeroes.split
      have hsum := congrArg List.length hsplit
      rw [List.length_append, List.length_append, List.length_replicate, hlen] at hsum
      generalize hhead : segments.take zeroes.start = head at hsplit hsum ⊢
      generalize htail : segments.drop (zeroes.start + zeroes.len) = tail at hsplit hsum ⊢
      have hlt : ∀ g ∈ head, g < 65536 := by
        rw [← hhead]
        exact fun g hg => h g (List.mem_of_mem_take hg)
      have hlt' : ∀ g ∈ tail, g < 65536 := by
        rw [← htail]
        exact fun g hg => h g (List.mem_of_mem_drop hg)
      have hread := readGroups_joined hlt ([':', ':'] ++ showGroups tail) (Or.inr ⟨_, rfl⟩) 8 0
        (by omega)
      have hread' := readGroups_joined hlt' [] (Or.inl rfl) (8 - (head.length + 1)) 0 (by omega)
      rw [← List.append_assoc] at hread
      rw [List.append_nil] at hread'
      have hparts := readIpv6_parts hread (by omega) hread'
      unfold showGroups at hparts ⊢
      rw [hparts, show 8 - tail.length - head.length = zeroes.len by omega, ← hsplit]
    · have hall := readGroups_joined h [] (Or.inl rfl) 8 0 (by omega)
      rw [List.append_nil] at hall
      unfold readIpv6 showGroups
      rw [hall]
      exact if_pos hlen

theorem mem_showGroups {chunk : List Nat} {c : Char} (h : c ∈ showGroups chunk) :
    c = ':' ∨ ∃ d < 16, c = Nat.digitChar d := by
  refine (mem_joined h).imp_right ?_
  intro h
  obtain ⟨group, hgroup, hc⟩ := h
  obtain ⟨g, -, rfl⟩ := List.mem_map.mp hgroup
  exact digitChar_of_mem (by omega) (by omega) hc

theorem mem_showIpv6 {segments : List Nat} {c : Char} (h : c ∈ showIpv6 segments) :
    c = ':' ∨ c = '.' ∨ ∃ d < 16, c = Nat.digitChar d := by
  unfold showIpv6 at h
  split at h
  · rcases List.mem_append.mp h with h | h
    · have hf : Nat.digitChar 15 = 'f' := by decide
      simp only [List.mem_cons, List.not_mem_nil, or_false, or_self_left] at h
      rcases h with h | h | h
      · exact Or.inl h
      · exact Or.inr (Or.inr ⟨15, by omega, h.trans hf.symm⟩)
      · exact Or.inl h
    · exact Or.inr (mem_showIpv4 h)
  · dsimp only at h
    split at h
    · rcases List.mem_append.mp h with h | h
      · rcases List.mem_append.mp h with h | h
        · exact (mem_showGroups h).imp_right Or.inr
        · simp only [List.mem_cons, List.not_mem_nil, or_false, or_self] at h
          exact Or.inl h
      · exact (mem_showGroups h).imp_right Or.inr
    · exact (mem_showGroups h).imp_right Or.inr

/-! ## An address as a number -/

/-- The `k` digits of a number. -/
def fixedDigits (base : Nat) : Nat → Nat → List Nat
  | 0, _ => []
  | k + 1, n => fixedDigits base k (n / base) ++ [n % base]

@[simp] theorem length_fixedDigits (base k n : Nat) : (fixedDigits base k n).length = k := by
  induction k generalizing n with
  | zero => rfl
  | succ k ih => rw [fixedDigits, List.length_append, ih, List.length_singleton]

theorem fixedDigits_lt {base : Nat} (h : 0 < base) (k n : Nat) :
    ∀ d ∈ fixedDigits base k n, d < base := by
  induction k generalizing n with
  | zero => simp [fixedDigits]
  | succ k ih =>
    intro d hd
    rcases List.mem_append.mp hd with hd | hd
    · exact ih (n / base) d hd
    · rw [List.mem_singleton.mp hd]
      exact Nat.mod_lt n h

/-- A number is the value of its digits. -/
theorem value_fixedDigits (base k : Nat) {n : Nat} (h : n < base ^ k) :
    value base (fixedDigits base k n) = n := by
  induction k generalizing n with
  | zero =>
    rw [Nat.pow_zero] at h
    rw [show n = 0 by omega]
    rfl
  | succ k ih =>
    have hq : n / base < base ^ k := Nat.div_lt_of_lt_mul (by rwa [Nat.pow_succ'] at h)
    have hv := ih hq
    unfold value at hv ⊢
    rw [fixedDigits, List.foldl_append, hv]
    exact Nat.div_add_mod' n base

end Rnet.Lib.NetText
