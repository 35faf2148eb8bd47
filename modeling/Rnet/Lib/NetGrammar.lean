import Mathlib.Data.List.Induction
import Rnet.Lib.NetText

/-!
# What the texts of numbers and IP addresses look like

A description, without the parsers, of the texts that are a port, an IPv4 and an IPv6 address.

> `parsePort_iff`, `readIpv4_iff`, `readIpv6_iff`: the parsers accept these texts and no others.

Each parser is read both ways: what it takes off the front of a text has the form (`_sound`), and
a text of the form is taken up to its end. An IPv4 address has one text only, the one that is
printed; a port and an IPv6 address have many.
-/

namespace Rnet.Lib.NetText

/-! ## Digits -/

theorem value_concat (radix : Nat) (digits : List Nat) (d : Nat) :
    value radix (digits ++ [d]) = value radix digits * radix + d := by
  unfold value
  rw [List.foldl_append]
  rfl

/-- A number has no more digits than it needs. -/
theorem value_lt {radix : Nat} {digits : List Nat} (h : ∀ d ∈ digits, d < radix) :
    value radix digits < radix ^ digits.length := by
  induction digits using List.reverseRecOn with
  | nil => exact Nat.one_pos
  | append_singleton digits d ih =>
    obtain ⟨hdigits, hd⟩ := List.forall_mem_append.mp h
    have hlast := hd d (List.mem_singleton_self d)
    rw [value_concat, List.length_append, List.length_singleton, Nat.pow_succ]
    calc value radix digits * radix + d
        < value radix digits * radix + radix := Nat.add_lt_add_left hlast _
      _ = (value radix digits + 1) * radix := (Nat.succ_mul _ _).symm
      _ ≤ radix ^ digits.length * radix := Nat.mul_le_mul_right radix (ih hdigits)

theorem toDigit_lt {radix d : Nat} {c : Char} (h : toDigit radix c = some d) : d < radix :=
  of_decide_eq_true (Option.filter_eq_some_iff.mp h).2

/-- A decimal digit has one character. -/
theorem digitChar_of_toDigit {c : Char} {d : Nat} (h : toDigit 10 c = some d) :
    Nat.digitChar d = c := by
  have hlt := toDigit_lt h
  have hdigit := (Option.filter_eq_some_iff.mp h).1
  apply Char.toNat_inj.mp
  rw [Nat.toNat_digitChar_of_lt_ten hlt]
  by_cases hc : '0' ≤ c ∧ c ≤ '9'
  · have hlo : 48 ≤ c.toNat := hc.1
    rw [if_pos hc, Option.some.injEq] at hdigit
    omega
  · -- a letter stands for ten or more
    rw [if_neg hc] at hdigit
    split at hdigit
    · rename_i hlower
      have hlo : 97 ≤ c.toNat := hlower.1
      rw [Option.some.injEq] at hdigit
      omega
    · obtain ⟨hupper, hd⟩ := Option.ite_none_right_eq_some.mp hdigit
      have hlo : 65 ≤ c.toNat := hupper.1
      rw [Option.some.injEq] at hd
      omega

/-- Digits without a leading zero are those that are printed. -/
theorem toDigits_value {radix : Nat} (hradix : 1 < radix) {digits : List Nat}
    (h : ∀ d ∈ digits, d < radix) (hne : digits ≠ [])
    (hzero : digits.head? = some 0 → digits.length = 1) :
    Nat.toDigits radix (value radix digits) = digits.map Nat.digitChar := by
  induction digits using List.reverseRecOn with
  | nil => exact absurd rfl hne
  | append_singleton digits d ih =>
    obtain ⟨hdigits, hd⟩ := List.forall_mem_append.mp h
    have hlast := hd d (List.mem_singleton_self d)
    rw [value_concat, List.map_append]
    by_cases hfront : digits = []
    · subst hfront
      simp [value, Nat.toDigits_of_lt_base hlast]
    · -- the digits in front of the last one do not start with a zero
      have hhead : digits.head? ≠ some 0 := by
        intro hhead
        have hlen := hzero ((List.head?_append_of_ne_nil _ hfront).trans hhead)
        rw [List.length_append, List.length_singleton] at hlen
        exact hfront (List.length_eq_zero_iff.mp (by omega))
      have hprinted := ih hdigits hfront fun h0 => absurd h0 hhead
      have hpos : 0 < value radix digits := by
        apply Nat.pos_of_ne_zero
        intro h0
        rw [h0, Nat.toDigits_zero] at hprinted
        obtain ⟨d', hd', hchar⟩ : ∃ d', digits.head? = some d' ∧ Nat.digitChar d' = '0' := by
          cases digits with
          | nil => exact absurd rfl hfront
          | cons d' digits => exact ⟨d', rfl, (List.cons.inj hprinted).1.symm⟩
        exact hhead (Nat.digitChar_eq_zero.mp hchar ▸ hd')
      have hsplit := Nat.toDigits_append_toDigits hradix hpos hlast
      rw [Nat.mul_comm, ← hsplit, hprinted, Nat.toDigits_of_lt_base hlast]
      rfl

/-- **The digits in front**: their characters, and what is behind them. -/
theorem digitRun_sound (radix : Nat) (text : List Char) :
    ∃ run, text = run ++ (digitRun radix text).2 ∧
      run.map (toDigit radix) = (digitRun radix text).1.map some ∧
      NoDigit radix (digitRun radix text).2 := by
  induction text with
  | nil => exact ⟨[], rfl, rfl, rfl⟩
  | cons c text ih =>
    obtain ⟨run, htext, hrun, hrest⟩ := ih
    rw [digitRun]
    cases hd : toDigit radix c with
    | none =>
      refine ⟨[], rfl, rfl, ?_⟩
      unfold NoDigit
      rw [digitRun, hd]
    | some d =>
      refine ⟨c :: run, congrArg (c :: ·) htext, ?_, hrest⟩
      rw [List.map_cons, List.map_cons, hd, hrun]

theorem NoDigit.digitRun {radix : Nat} {text : List Char} (h : NoDigit radix text) :
    digitRun radix text = ([], text) := by
  obtain ⟨run, htext, hrun, -⟩ := digitRun_sound radix text
  unfold NoDigit at h
  rw [h] at hrun
  rw [List.map_eq_nil_iff.mp hrun, List.nil_append] at htext
  exact Prod.ext h htext.symm

/-- Characters that are digits, and the digits. -/
theorem exists_digits_iff {radix : Nat} {text : List Char} :
    (∃ digits : List Nat, text.map (toDigit radix) = digits.map some) ↔
      ∀ c ∈ text, ∃ d, toDigit radix c = some d := by
  induction text with
  | nil => exact ⟨fun _ => nofun, fun _ => ⟨[], rfl⟩⟩
  | cons c text ih =>
    rw [List.forall_mem_cons, ← ih]
    constructor
    · intro h
      obtain ⟨digits, hmap⟩ := h
      obtain ⟨d, digits, rfl, hd, hdigits⟩ := List.map_eq_cons_iff.mp hmap.symm
      exact ⟨⟨d, hd.symm⟩, digits, hdigits.symm⟩
    · intro h
      obtain ⟨⟨d, hd⟩, digits, hdigits⟩ := h
      refine ⟨d :: digits, ?_⟩
      rw [List.map_cons, List.map_cons, hd, hdigits]

theorem length_of_map {radix : Nat} {run : List Char} {digits : List Nat}
    (h : run.map (toDigit radix) = digits.map some) : digits.length = run.length := by
  have hlen := congrArg List.length h
  rw [List.length_map, List.length_map] at hlen
  exact hlen.symm

theorem lt_of_map {radix : Nat} {run : List Char} {digits : List Nat}
    (h : run.map (toDigit radix) = digits.map some) : ∀ d ∈ digits, d < radix := by
  intro d hd
  have hmem := List.mem_map_of_mem (f := some) hd
  rw [← h] at hmem
  obtain ⟨c, -, hc⟩ := List.mem_map.mp hmem
  exact toDigit_lt hc

/-- Decimal digits have one text. -/
theorem eq_map_of_map {run : List Char} {digits : List Nat}
    (h : run.map (toDigit 10) = digits.map some) : run = digits.map Nat.digitChar := by
  induction run generalizing digits with
  | nil =>
    rw [List.map_eq_nil_iff.mp h.symm]
    rfl
  | cons c run ih =>
    obtain ⟨d, digits, rfl, hd, hdigits⟩ := List.map_eq_cons_iff.mp h.symm
    rw [List.map_cons, digitChar_of_toDigit hd.symm, ← ih hdigits.symm]

/-- Digits are read up to where they end, whichever way they are written. -/
theorem digitRun_run {radix : Nat} {run rest : List Char} {digits : List Nat}
    (h : run.map (toDigit radix) = digits.map some) (hrest : NoDigit radix rest) :
    digitRun radix (run ++ rest) = (digits, rest) := by
  induction run generalizing digits with
  | nil =>
    rw [List.map_eq_nil_iff.mp h.symm]
    exact hrest.digitRun
  | cons c run ih =>
    obtain ⟨d, digits, rfl, hd, hdigits⟩ := List.map_eq_cons_iff.mp h.symm
    rw [List.cons_append, NetText.digitRun, ← hd, ih hdigits.symm]

/-! ## Numbers -/

/-- The text of a number below `bound`: so many digits at most, and no zero in front of others
unless zeroes are allowed. -/
structure NumberText (radix max_digits : Nat) (allow_zeros : Bool) (bound : Nat)
    (text : List Char) (digits : List Nat) : Prop where
  chars : text.map (toDigit radix) = digits.map some
  nonempty : digits ≠ []
  short : digits.length ≤ max_digits
  noZeroes : allow_zeros = false → digits.head? = some 0 → digits.length = 1
  below : value radix digits < bound

/-- What `read_number` takes off the front of a text. -/
theorem readNumber_iff {radix max_digits bound n : Nat} {allow_zeros : Bool}
    {text rest : List Char} :
    readNumber radix max_digits allow_zeros bound text = some (n, rest) ↔
      ∃ run digits, text = run ++ rest ∧ NumberText radix max_digits allow_zeros bound run digits ∧
        value radix digits = n ∧ NoDigit radix rest := by
  constructor
  · intro h
    obtain rfl := readNumber_rest h
    obtain ⟨run, htext, hrun, hrest⟩ := digitRun_sound radix text
    refine ⟨run, (digitRun radix text).1, htext, ?_⟩
    unfold readNumber at h
    dsimp only at h
    obtain ⟨hlen, h⟩ := Option.ite_none_left_eq_some.mp h
    obtain ⟨hzeroes, h⟩ := Option.ite_none_left_eq_some.mp h
    obtain ⟨hbelow, h⟩ := Option.ite_none_right_eq_some.mp h
    obtain ⟨hne, hshort⟩ := not_or.mp hlen
    refine ⟨⟨hrun, hne, Nat.le_of_not_lt hshort, fun hz h0 => ?_, hbelow⟩,
      (Prod.mk.inj (Option.some.inj h)).1, hrest⟩
    have hpos : 0 < (digitRun radix text).1.length := List.length_pos_iff.mpr hne
    have hone : ¬ 1 < (digitRun radix text).1.length := fun hl => hzeroes ⟨hz, h0, hl⟩
    omega
  · intro h
    obtain ⟨run, digits, rfl, hnumber, rfl, hrest⟩ := h
    have hlen : ¬ (digits = [] ∨ max_digits < digits.length) :=
      not_or.mpr ⟨hnumber.nonempty, Nat.not_lt.mpr hnumber.short⟩
    have hzeroes : ¬ (allow_zeros = false ∧ digits.head? = some 0 ∧ 1 < digits.length) :=
      fun ⟨hz, h0, hl⟩ => absurd (hnumber.noZeroes hz h0) (by omega)
    unfold readNumber
    rw [digitRun_run hnumber.chars hrest]
    dsimp only
    rw [if_neg hlen, if_neg hzeroes, if_pos hnumber.below]

/-- A number is shown by its text if that has no zeroes in front. -/
theorem NumberText.eq_toDigits {max_digits bound : Nat} {text : List Char} {digits : List Nat}
    (h : NumberText 10 max_digits false bound text digits) :
    text = Nat.toDigits 10 (value 10 digits) := by
  rw [toDigits_value (by omega) (lt_of_map h.chars) h.nonempty (h.noZeroes rfl),
    eq_map_of_map h.chars]

/-- The text of a port: any number of digits, maybe behind a plus sign, that stand for a number
below 65536. -/
def PortText (text : List Char) : Prop :=
  ∃ sign run digits, (sign = [] ∨ sign = ['+']) ∧ text = sign ++ run ∧
    NumberText 10 run.length true 65536 run digits

theorem skipPlus_cases (text : List Char) :
    ∃ sign, (sign = [] ∨ sign = ['+']) ∧ text = sign ++ skipPlus text := by
  unfold skipPlus
  split
  · exact ⟨['+'], Or.inr rfl, rfl⟩
  · exact ⟨[], Or.inl rfl, rfl⟩

/-- A sign is skipped in front of a digit. -/
theorem skipPlus_append {sign run : List Char} {digits : List Nat}
    (hsign : sign = [] ∨ sign = ['+']) (hrun : run.map (toDigit 10) = digits.map some)
    (hne : digits ≠ []) : skipPlus (sign ++ run) = run := by
  have hplus : toDigit 10 '+' = none := rfl
  cases run with
  | nil => exact absurd (List.map_eq_nil_iff.mp hrun.symm) hne
  | cons c run =>
    rcases hsign with rfl | rfl
    · rw [List.nil_append]
      unfold skipPlus
      split
      · rename_i heq
        obtain ⟨d, _, -, hd, -⟩ := List.map_eq_cons_iff.mp hrun.symm
        rw [(List.cons.inj heq).1, hplus] at hd
        exact absurd hd nofun
      · rfl
    · rfl

/-- **Ports**: the texts that are accepted. -/
theorem parsePort_iff {text : List Char} :
    (∃ port, parsePort text = some port) ↔ PortText text := by
  constructor
  · intro h
    obtain ⟨port, h⟩ := h
    obtain ⟨⟨hne, hrest, hbelow⟩, -⟩ := Option.ite_none_right_eq_some.mp h
    obtain ⟨sign, hsign, htext⟩ := skipPlus_cases text
    obtain ⟨run, hskip, hrun, -⟩ := digitRun_sound 10 (skipPlus text)
    rw [hrest, List.append_nil] at hskip
    rw [hskip] at htext
    have hlen := Nat.le_of_eq (length_of_map hrun)
    exact ⟨sign, run, _, hsign, htext, hrun, hne, hlen, nofun, hbelow⟩
  · intro h
    obtain ⟨sign, run, digits, hsign, rfl, hnumber⟩ := h
    have hread := digitRun_run hnumber.chars (show NoDigit 10 [] from rfl)
    rw [List.append_nil] at hread
    refine ⟨UInt16.ofNat (value 10 digits), ?_⟩
    unfold parsePort
    rw [skipPlus_append hsign hnumber.chars hnumber.nonempty, hread]
    exact if_pos ⟨hnumber.nonempty, rfl, hnumber.below⟩

/-! ## `Ipv4Addr` -/

/-- The text of an IPv4 address: four numbers below 256, as they are printed, and dots between
them. -/
def Ipv4Text (text : List Char) : Prop :=
  ∃ octets : List Nat, octets.length = 4 ∧ (∀ octet ∈ octets, octet < 256) ∧ text = showIpv4 octets

/-- A separator and what it stands in front of. -/
theorem readSeparator_eq_some {α : Type} {sep : Char} {i : Nat}
    {inner : List Char → Option (α × List Char)} {text rest : List Char} {a : α}
    (h : readSeparator sep i inner text = some (a, rest)) :
    ∃ behind, text = (if i = 0 then [] else [sep]) ++ behind ∧ inner behind = some (a, rest) := by
  unfold readSeparator at h
  by_cases hi : i = 0
  · rw [if_pos hi] at h ⊢
    exact ⟨text, rfl, h⟩
  · rw [if_neg hi] at h ⊢
    cases text with
    | nil => simp at h
    | cons c text =>
      obtain ⟨hc, hinner⟩ := Option.ite_none_right_eq_some.mp h
      exact ⟨text, congrArg (· :: text) hc, hinner⟩

theorem readOctets_sound {n i : Nat} {text rest : List Char} {octets : List Nat}
    (h : readOctets n i text = some (octets, rest)) :
    octets.length = n ∧ (∀ octet ∈ octets, octet < 256) ∧
      text = joined '.' i (octets.map (Nat.toDigits 10)) ++ rest ∧ (0 < n → NoDigit 10 rest) := by
  induction n generalizing i text octets with
  | zero =>
    obtain ⟨rfl, rfl⟩ := Prod.mk.inj (Option.some.inj h)
    exact ⟨rfl, nofun, rfl, fun h0 => absurd h0 (by omega)⟩
  | succ n ih =>
    rw [readOctets] at h
    obtain ⟨⟨octet, text'⟩, hoctet, h⟩ := Option.bind_eq_some_iff.mp h
    obtain ⟨⟨octets', rest'⟩, hoctets, h⟩ := Option.bind_eq_some_iff.mp h
    obtain ⟨rfl, rfl⟩ := Prod.mk.inj (Option.some.inj h)
    obtain ⟨behind, rfl, hnumber⟩ := readSeparator_eq_some hoctet
    obtain ⟨run, digits, rfl, htext, rfl, hnoDigit⟩ := readNumber_iff.mp hnumber
    obtain ⟨rfl, hlt, rfl, hrest⟩ := ih hoctets
    refine ⟨rfl, List.forall_mem_cons.mpr ⟨htext.below, hlt⟩, ?_, fun _ => ?_⟩
    · rw [List.map_cons, joined, ← htext.eq_toDigits]
      simp only [List.append_assoc]
    · cases octets' with
      | nil => exact hnoDigit
      | cons => exact hrest (by simp)

/-- **IPv4 addresses**: what is taken off the front of a text is an address as it is printed. -/
theorem readIpv4_iff {text rest : List Char} {octets : List Nat} :
    readIpv4 text = some (octets, rest) ↔
      octets.length = 4 ∧ (∀ octet ∈ octets, octet < 256) ∧ text = showIpv4 octets ++ rest ∧
        NoDigit 10 rest := by
  constructor
  · intro h
    obtain ⟨hlen, hlt, htext, hrest⟩ := readOctets_sound h
    exact ⟨hlen, hlt, htext, hrest (by omega)⟩
  · intro h
    obtain ⟨hlen, hlt, rfl, hrest⟩ := h
    exact readIpv4_showIpv4 hlen hlt rest hrest

/-! ## `Ipv6Addr` -/

/-- A group of an IPv6 address: up to four hexadecimal digits. -/
structure HexGroup (text : List Char) : Prop where
  nonempty : text ≠ []
  short : text.length ≤ 4
  digits : ∀ c ∈ text, ∃ d, toDigit 16 c = some d

/-- Any four hexadecimal digits stand for a number below 65536. -/
theorem hexGroup_iff {text : List Char} :
    HexGroup text ↔ ∃ digits, NumberText 16 4 true 65536 text digits := by
  constructor
  · intro h
    obtain ⟨digits, hmap⟩ := exists_digits_iff.mpr h.digits
    have hlen := length_of_map hmap
    have hshort : digits.length ≤ 4 := hlen ▸ h.short
    refine ⟨digits, hmap, fun hnil => h.nonempty ?_, hshort, nofun, ?_⟩
    · rw [hnil] at hlen
      exact List.length_eq_zero_iff.mp hlen.symm
    · calc value 16 digits
          < 16 ^ digits.length := value_lt (lt_of_map hmap)
        _ ≤ 16 ^ 4 := Nat.pow_le_pow_right (by omega) hshort
  · intro h
    obtain ⟨digits, hnumber⟩ := h
    have hlen := length_of_map hnumber.chars
    refine ⟨fun hnil => hnumber.nonempty ?_, hlen ▸ hnumber.short,
      exists_digits_iff.mp ⟨digits, hnumber.chars⟩⟩
    rw [hnil] at hlen
    exact List.length_eq_zero_iff.mp hlen

/-- Some groups, and how many 16 bit numbers they stand for. The last one may be an IPv4 address,
which stands for two. -/
inductive Groups : Bool → Nat → List (List Char) → Prop
  | nil : Groups false 0 []
  | hex {ipv4 : Bool} {n : Nat} {group : List Char} {groups : List (List Char)} :
      HexGroup group → Groups ipv4 n groups → Groups ipv4 (n + 1) (group :: groups)
  | ipv4 {group : List Char} : Ipv4Text group → Groups true 2 [group]

/-- The text of an IPv6 address: groups for eight numbers, or fewer of them around two colons, and
no IPv4 address in front of the two. -/
inductive Ipv6Text : List Char → Prop
  | full {ipv4 : Bool} {groups : List (List Char)} :
      Groups ipv4 8 groups → Ipv6Text (joined ':' 0 groups)
  | elided {ipv4 : Bool} {n m : Nat} {head tail : List (List Char)} :
      Groups false n head → Groups ipv4 m tail → n + m ≤ 7 →
        Ipv6Text (joined ':' 0 head ++ ':' :: ':' :: joined ':' 0 tail)

/-- What `read_groups` takes off the front of a text. -/
theorem readGroups_sound {n i : Nat} {text rest : List Char} {groups : List Nat} {ipv4 : Bool}
    (h : readGroups n i text = (groups, ipv4, rest)) :
    groups.length ≤ n ∧ ∃ texts, Groups ipv4 groups.length texts ∧
      text = joined ':' i texts ++ rest := by
  induction n generalizing i text groups with
  | zero =>
    obtain ⟨rfl, rfl, rfl⟩ : [] = groups ∧ false = ipv4 ∧ text = rest := by
      simpa only [readGroups, Prod.mk.injEq] using h
    exact ⟨Nat.le_refl 0, [], Groups.nil, rfl⟩
  | succ n ih =>
    cases haddr : if n = 0 then none else readSeparator ':' i readIpv4 text with
    | some p =>
      -- an IPv4 address, which ends the groups
      obtain ⟨octets, text'⟩ := p
      obtain ⟨hn, hsep⟩ := Option.ite_none_left_eq_some.mp haddr
      obtain ⟨behind, htext, hread⟩ := readSeparator_eq_some hsep
      obtain ⟨hlen, hlt, rfl, -⟩ := readIpv4_iff.mp hread
      obtain ⟨one, two, three, four, rfl⟩ := List.length_eq_four.mp hlen
      rw [readGroups_ipv4 hn hsep] at h
      obtain ⟨rfl, rfl, rfl⟩ : _ = groups ∧ true = ipv4 ∧ text' = rest := by
        simpa only [Prod.mk.injEq] using h
      refine ⟨by simp; omega, [showIpv4 [one, two, three, four]],
        Groups.ipv4 ⟨_, hlen, hlt, rfl⟩, ?_⟩
      rw [htext, joined, joined, List.append_nil, List.append_assoc]
    | none =>
      cases hgroup : readSeparator ':' i (readNumber 16 4 true 65536) text with
      | none =>
        rw [readGroups, haddr, hgroup] at h
        obtain ⟨rfl, rfl, rfl⟩ : [] = groups ∧ false = ipv4 ∧ text = rest := by
          simpa only [Prod.mk.injEq] using h
        exact ⟨Nat.zero_le _, [], Groups.nil, rfl⟩
      | some p =>
        obtain ⟨group, text'⟩ := p
        rw [readGroups, haddr, hgroup] at h
        obtain ⟨hgroups, hrest⟩ := Prod.mk.inj h
        subst hgroups
        obtain ⟨hle, texts, htexts, htext'⟩ := ih (Prod.ext rfl hrest)
        obtain ⟨behind, htext, hread⟩ := readSeparator_eq_some hgroup
        obtain ⟨run, digits, rfl, hnumber, -, -⟩ := readNumber_iff.mp hread
        refine ⟨by simpa using hle, run :: texts,
          Groups.hex (hexGroup_iff.mpr ⟨digits, hnumber⟩) htexts, ?_⟩
        rw [htext, htext', joined]
        simp only [List.append_assoc]

/-- **Groups** are read up to where they end. -/
theorem Groups.readGroups {ipv4 : Bool} {m : Nat} {texts : List (List Char)}
    (h : Groups ipv4 m texts) {rest : List Char} (hrest : Stop rest) {n : Nat} (hn : m ≤ n)
    (i : Nat) :
    ∃ groups, NetText.readGroups n i (joined ':' i texts ++ rest) = (groups, ipv4, rest) ∧
      groups.length = m := by
  induction h generalizing n i with
  | nil => exact ⟨[], readGroups_stop hrest n i, rfl⟩
  | @hex ipv4 m group texts hgroup htexts ih =>
    obtain ⟨n, rfl⟩ : ∃ k, n = k + 1 := ⟨n - 1, by omega⟩
    obtain ⟨digits, hnumber⟩ := hexGroup_iff.mp hgroup
    have hends := ends_joined i texts hrest.ends
    have hdot : ∀ c ∈ group, c ≠ '.' := by
      have hnone : toDigit 16 '.' = none := rfl
      intro c hc heq
      obtain ⟨d, hd⟩ := hgroup.digits c hc
      rw [heq, hnone] at hd
      exact absurd hd nofun
    have haddr : readSeparator ':' i readIpv4 (joined ':' i (group :: texts) ++ rest) = none := by
      rw [readSeparator_joined]
      exact readIpv4_none (digitRun_noDot hdot (congrArg Prod.fst (hends.digitRun 10)) hends.noDot)
    have hread : readSeparator ':' i (readNumber 16 4 true 65536)
        (joined ':' i (group :: texts) ++ rest) =
          some (value 16 digits, joined ':' (i + 1) texts ++ rest) := by
      rw [readSeparator_joined]
      exact readNumber_iff.mpr
        ⟨group, digits, rfl, hnumber, rfl, congrArg Prod.fst (hends.digitRun 16)⟩
    obtain ⟨groups, hgroups, hlen⟩ := ih (n := n) (by omega) (i + 1)
    refine ⟨value 16 digits :: groups, ?_, by rw [List.length_cons, hlen]⟩
    rw [readGroups_cons haddr hread, hgroups]
  | @ipv4 group haddr =>
    obtain ⟨n, rfl⟩ : ∃ k, n = k + 1 := ⟨n - 1, by omega⟩
    obtain ⟨octets, hlen, hlt, rfl⟩ := haddr
    obtain ⟨one, two, three, four, rfl⟩ := List.length_eq_four.mp hlen
    have hread : readSeparator ':' i readIpv4
        (joined ':' i [showIpv4 [one, two, three, four]] ++ rest) =
          some ([one, two, three, four], rest) := by
      rw [readSeparator_joined]
      exact readIpv4_showIpv4 hlen hlt rest (congrArg Prod.fst (hrest.ends.digitRun 10))
    exact ⟨_, readGroups_ipv4 (by omega) hread, rfl⟩

/-- **IPv6 addresses**: the texts that are accepted. -/
theorem readIpv6_iff {text : List Char} :
    (∃ segments, readIpv6 text = some (segments, [])) ↔ Ipv6Text text := by
  constructor
  · intro h
    obtain ⟨segments, h⟩ := h
    unfold readIpv6 at h
    cases hhead : NetText.readGroups 8 0 text with
    | mk head p =>
      obtain ⟨head_ipv4, rest⟩ := p
      rw [hhead] at h
      dsimp only at h
      obtain ⟨hle, texts, htexts, rfl⟩ := readGroups_sound hhead
      by_cases hfull : head.length = 8
      · rw [if_pos hfull] at h
        obtain ⟨-, rfl⟩ := Prod.mk.inj (Option.some.inj h)
        rw [List.append_nil]
        exact Ipv6Text.full (hfull ▸ htexts)
      · rw [if_neg hfull] at h
        obtain ⟨hhex, hbehind⟩ := Option.ite_none_left_eq_some.mp h
        obtain rfl := eq_false_of_ne_true hhex
        clear h
        split at hbehind
        · rename_i behind
          cases htail : NetText.readGroups (8 - (head.length + 1)) 0 behind with
          | mk tail q =>
            obtain ⟨tail_ipv4, rest'⟩ := q
            rw [htail] at hbehind
            obtain ⟨-, rfl⟩ := Prod.mk.inj (Option.some.inj hbehind)
            obtain ⟨hle', texts', htexts', rfl⟩ := readGroups_sound htail
            rw [List.append_nil]
            exact Ipv6Text.elided htexts htexts' (by omega)
        · simp at hbehind
  · intro h
    cases h with
    | full hgroups =>
      obtain ⟨segments, hread, hlen⟩ := hgroups.readGroups (Or.inl rfl) (Nat.le_refl 8) 0
      rw [List.append_nil] at hread
      refine ⟨segments, ?_⟩
      unfold readIpv6
      rw [hread]
      exact if_pos hlen
    | @elided ipv4 n m head tail hhead htail hle =>
      have hstop : Stop (':' :: ':' :: joined ':' 0 tail) := Or.inr ⟨_, rfl⟩
      obtain ⟨groups, hread, rfl⟩ := hhead.readGroups hstop (show n ≤ 8 by omega) 0
      obtain ⟨groups', hread', hlen⟩ :=
        htail.readGroups (Or.inl rfl) (show m ≤ 8 - (groups.length + 1) by omega) 0
      rw [List.append_nil] at hread'
      exact ⟨_, readIpv6_parts hread (by omega) hread'⟩

end Rnet.Lib.NetText
