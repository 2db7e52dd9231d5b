import NetworkingFramework.MacText

/-!
# Groups and separators

The strings that the pattern accepts are six groups of two digits with five separators. What the loop reads of them: up to the next
separator of the kind it reads to, it takes the first group, and behind the last of these it takes the same group again.
-/

namespace NetworkingFramework

open Wire CText Pattern InStream

/-! ## Accepted strings -/

/-- Two hexadecimal digits. -/
structure HexGroup where
  high : UInt8
  low : UInt8
  high_digit : isDigit 16 high = true
  low_digit : isDigit 16 low = true

namespace HexGroup

def chars (g : HexGroup) : Bytes := [g.high, g.low]

/-- The octet that the digits denote. -/
def octet (g : HexGroup) : UInt8 := UInt8.ofNat (numeral 16 g.chars)

theorem isDigit_of_mem {g : HexGroup} {c : UInt8} (h : c ∈ g.chars) : isDigit 16 c = true := by
  rcases List.mem_cons.mp h with rfl | h
  · exact g.high_digit
  · rw [List.mem_singleton.mp h]
    exact g.low_digit

end HexGroup

/-- What comes between two groups. -/
inductive Separator where
  | colon
  | dash
  deriving DecidableEq

/-- The character of a separator. -/
def Separator.char : Separator → UInt8
  | colon => ':'.toUInt8
  | dash => '-'.toUInt8

/-- Groups with separators behind them, and a group. -/
def groupsText (init : List (HexGroup × Separator)) (last : HexGroup) : Bytes :=
  init.flatMap (fun p => p.1.chars ++ [p.2.char]) ++ last.chars

/-- The text of an address. -/
structure MacText where
  init : List (HexGroup × Separator)
  last : HexGroup
  five : init.length = 5

def MacText.str (text : MacText) : Bytes := groupsText text.init text.last

/-- The octets of its groups. -/
def MacText.octets (text : MacText) : List.Vector UInt8 6 :=
  ⟨(text.init.map fun p => p.1.octet) ++ [text.last.octet], by rw [List.length_append, List.length_map, text.five]; rfl⟩

/-! ## The pattern -/

/-- The digits of the pattern are those of base 16. -/
theorem hexClass_iff (c : UInt8) : hexClass c = true ↔ isDigit 16 c = true := by
  have hclass : hexClass c = true ↔
      (48 ≤ c.toNat ∧ c.toNat ≤ 57) ∨ (65 ≤ c.toNat ∧ c.toNat ≤ 70) ∨ (97 ≤ c.toNat ∧ c.toNat ≤ 102) := decide_eq_true_iff
  rw [hclass, isDigit_iff, digitValue]
  constructor
  · intro h
    rcases h with h | h | h
    · exact ⟨c.toNat - 48, if_pos h, by omega⟩
    · refine ⟨c.toNat - 55, ?_, by omega⟩
      rw [if_neg (by omega), if_neg (by omega), if_pos (by omega)]
    · refine ⟨c.toNat - 87, ?_, by omega⟩
      rw [if_neg (by omega), if_pos (by omega)]
  · intro h
    obtain ⟨v, hv, hlt⟩ := h
    split at hv
    · rename_i hrange
      exact .inl hrange
    · split at hv
      · have hvalue := Option.some.inj hv
        omega
      · split at hv
        · have hvalue := Option.some.inj hv
          omega
        · cases hv

theorem separatorClass_iff (c : UInt8) : separatorClass c = true ↔ ∃ sep : Separator, c = sep.char := by
  rw [separatorClass, decide_eq_true_iff]
  constructor
  · intro h
    rcases h with h | h
    · exact ⟨.colon, h⟩
    · exact ⟨.dash, h⟩
  · intro h
    obtain ⟨sep, rfl⟩ := h
    cases sep with
    | colon => exact .inl rfl
    | dash => exact .inr rfl

/-- Two digits. -/
theorem mem_group_iff (w : Bytes) : w ∈ (oneOf hexClass ^ 2).matches' ↔ ∃ g : HexGroup, w = g.chars := by
  have hdigit (v : Bytes) : v ∈ (oneOf hexClass).matches' ↔ ∃ d : { c : UInt8 // isDigit 16 c = true }, v = [d.1] := by
    rw [mem_oneOf_iff]
    simp only [hexClass_iff, Subtype.exists, exists_prop]
  rw [mem_pow_iff_of_words hdigit]
  constructor
  · intro h
    obtain ⟨ds, hlength, rfl⟩ := h
    obtain ⟨a, b, rfl⟩ := List.length_eq_two.mp hlength
    exact ⟨⟨a.1, b.1, a.2, b.2⟩, rfl⟩
  · intro h
    obtain ⟨g, rfl⟩ := h
    exact ⟨[⟨g.high, g.high_digit⟩, ⟨g.low, g.low_digit⟩], rfl, rfl⟩

/-- The pattern accepts the texts of addresses. -/
theorem macAddrPattern_iff (s : Bytes) : macAddrPattern.rmatch s = true ↔ ∃ text : MacText, text.str = s := by
  have hseparator (v : Bytes) : v ∈ (oneOf separatorClass).matches' ↔ ∃ sep : Separator, v = [sep.char] := by
    rw [mem_oneOf_iff]
    simp only [separatorClass_iff]
    constructor
    · intro h
      obtain ⟨c, ⟨sep, rfl⟩, rfl⟩ := h
      exact ⟨sep, rfl⟩
    · intro h
      obtain ⟨sep, rfl⟩ := h
      exact ⟨_, ⟨sep, rfl⟩, rfl⟩
  have hinit (v : Bytes) : v ∈ ((oneOf hexClass ^ 2 * oneOf separatorClass) ^ 5).matches' ↔
      ∃ init : { init : List (HexGroup × Separator) // init.length = 5 }, v = init.1.flatMap fun p => p.1.chars ++ [p.2.char] := by
    rw [mem_pow_iff_of_words (mem_mul_iff_of_words mem_group_iff hseparator)]
    simp only [Subtype.exists, exists_prop]
  rw [RegularExpression.rmatch_iff_matches', macAddrPattern, mem_mul_iff_of_words hinit mem_group_iff]
  constructor
  · intro h
    obtain ⟨⟨⟨init, hfive⟩, last⟩, rfl⟩ := h
    exact ⟨⟨init, last, hfive⟩, rfl⟩
  · intro h
    obtain ⟨⟨init, last, hfive⟩, rfl⟩ := h
    exact ⟨⟨⟨init, hfive⟩, last⟩, rfl⟩

/-! ## What a round reads -/

variable {init init' : List (HexGroup × Separator)} {last : HexGroup} {delim : Separator}

theorem groupsText_cons (g : HexGroup) (sep : Separator) (init : List (HexGroup × Separator)) (last : HexGroup) :
    groupsText ((g, sep) :: init) last = g.chars ++ sep.char :: groupsText init last := by
  simp [groupsText]

theorem length_groupsText (init : List (HexGroup × Separator)) (last : HexGroup) :
    (groupsText init last).length = 3 * init.length + 2 := by
  induction init with
  | nil => rfl
  | cons p init ih =>
    have hgroup : p.1.chars.length = 2 := rfl
    rw [groupsText_cons, List.length_append, List.length_cons, ih, List.length_cons, hgroup]
    omega

/-- A text has digits and separators. -/
theorem mem_groupsText {c : UInt8} (h : c ∈ groupsText init last) : isDigit 16 c = true ∨ ∃ p ∈ init, c = p.2.char := by
  rcases List.mem_append.mp h with h | h
  · obtain ⟨p, hp, h⟩ := List.mem_flatMap.mp h
    rcases List.mem_append.mp h with h | h
    · exact .inl (HexGroup.isDigit_of_mem h)
    · exact .inr ⟨p, hp, List.mem_singleton.mp h⟩
  · exact .inl (HexGroup.isDigit_of_mem h)

theorem Separator.not_digit (sep : Separator) : isDigit 16 sep.char = false := by
  cases sep with
  | colon => decide
  | dash => decide

theorem Separator.char_inj {sep sep' : Separator} (h : sep.char = sep'.char) : sep = sep' := by
  cases sep <;> cases sep' <;> first | rfl | exact absurd h (by decide)

/-- A separator is in a text when it comes behind one of the groups. -/
theorem char_mem_groupsText_iff : delim.char ∈ groupsText init last ↔ delim ∈ init.map Prod.snd := by
  constructor
  · intro h
    rcases mem_groupsText h with h | ⟨p, hp, hchar⟩
    · rw [delim.not_digit] at h
      nomatch h
    · exact List.mem_map.mpr ⟨p, hp, (Separator.char_inj hchar).symm⟩
  · intro h
    obtain ⟨p, hp, rfl⟩ := List.mem_map.mp h
    exact List.mem_append_left _ (List.mem_flatMap.mpr ⟨p, hp, List.mem_append_right _ (List.mem_singleton.mpr rfl)⟩)

/-- The first group of a text. -/
def firstGroup : List (HexGroup × Separator) → HexGroup → HexGroup
  | [], last => last
  | (g, _) :: _, _ => g

/-- What comes behind the next separator of a kind. -/
def behind (delim : Separator) : List (HexGroup × Separator) → Option (List (HexGroup × Separator))
  | [] => none
  | (_, sep) :: init => if sep = delim then some init else behind delim init

theorem behind_eq_none_iff : behind delim init = none ↔ delim ∉ init.map Prod.snd := by
  induction init with
  | nil => simp [behind]
  | cons p init ih =>
    rw [behind, List.map_cons, List.mem_cons, not_or]
    split
    · rename_i h
      simp [h]
    · rename_i h
      rw [ih]
      exact ⟨fun hnone => ⟨fun heq => h heq.symm, hnone⟩, fun hnone => hnone.2⟩

/-- The string begins with a group, and its digits end there. -/
def BeginsWith (g : HexGroup) (s : Bytes) : Prop := ∃ more, s = g.chars ++ more ∧ NoDigit 16 more

theorem noDigit_separator (sep : Separator) (s : Bytes) : NoDigit 16 (sep.char :: s) := by
  intro c hc
  rw [← Option.some.inj hc]
  exact sep.not_digit

theorem groupsText_begins (init : List (HexGroup × Separator)) (last : HexGroup) :
    BeginsWith (firstGroup init last) (groupsText init last) := by
  cases init with
  | nil => exact ⟨[], (List.append_nil _).symm, by simp [NoDigit]⟩
  | cons p init => exact ⟨p.2.char :: groupsText init last, groupsText_cons p.1 p.2 init last, noDigit_separator p.2 _⟩

/-- The group at the beginning is read. -/
theorem stoul_begins {g : HexGroup} {s : Bytes} (h : BeginsWith g s)
    (hs : ∀ c ∈ s, isDigit 16 c = true ∨ ∃ sep : Separator, c = sep.char) : stoul s 16 = some g.octet.toNat := by
  obtain ⟨more, rfl, hmore⟩ := h
  have hdigits : ∀ c ∈ g.chars, isDigit 16 c = true := fun c hc => HexGroup.isDigit_of_mem hc
  have hvalue : numeral 16 g.chars < 256 := numeral_lt 16 hdigits
  have hoctet : g.octet.toNat = numeral 16 g.chars := by
    rw [HexGroup.octet, UInt8.toNat_ofNat']
    exact Nat.mod_eq_of_lt hvalue
  have hhex : ∀ c ∈ g.chars ++ more, c ≠ 'x'.toUInt8 ∧ c ≠ 'X'.toUInt8 := by
    intro c hc
    rcases hs c hc with hc | ⟨sep, rfl⟩
    · constructor
      · rintro rfl
        exact absurd hc (by decide)
      · rintro rfl
        exact absurd hc (by decide)
    · cases sep <;> decide
  have hne : g.chars ≠ [] := List.cons_ne_nil _ _
  rw [stoul_digits hne hdigits (by omega) hmore hhex, hoctet]

/-- Without a separator of the kind, a text is one line. -/
theorem not_mem_of_behind (h : behind delim init = none) (last : HexGroup) : delim.char ∉ groupsText init last := by
  rw [char_mem_groupsText_iff]
  exact behind_eq_none_iff.mp h

/-- With one, the text before it is a line that begins with the first group. -/
theorem line_of_behind (h : behind delim init = some init') (last : HexGroup) :
    ∃ line, groupsText init last = line ++ delim.char :: groupsText init' last ∧ delim.char ∉ line ∧
      BeginsWith (firstGroup init last) line := by
  induction init with
  | nil => nomatch h
  | cons p init ih =>
    obtain ⟨g, sep⟩ := p
    unfold behind at h
    have hgroup : delim.char ∉ g.chars := by
      intro hmem
      have hdigit := HexGroup.isDigit_of_mem hmem
      rw [delim.not_digit] at hdigit
      nomatch hdigit
    split at h
    · rename_i hsep
      obtain rfl := Option.some.inj h
      refine ⟨g.chars, ?_, hgroup, [], (List.append_nil _).symm, by simp [NoDigit]⟩
      rw [groupsText_cons, hsep]
    · rename_i hsep
      obtain ⟨line, htext, hline, -⟩ := ih h
      refine ⟨g.chars ++ sep.char :: line, ?_, ?_, sep.char :: line, rfl, noDigit_separator sep _⟩
      · rw [groupsText_cons, htext, List.append_assoc]
        rfl
      · rw [List.mem_append, List.mem_cons]
        intro hmem
        rcases hmem with hmem | hmem | hmem
        · exact hgroup hmem
        · exact hsep (Separator.char_inj hmem).symm
        · exact hline hmem

/-! ## The loop -/

/-- The octets that are stored in some rounds. -/
def storedOctets (delim : Separator) : Nat → List (HexGroup × Separator) → HexGroup → Bytes
  | 0, _, _ => []
  | rounds + 1, init, last =>
    (firstGroup init last).octet ::
      match behind delim init with
      | none => List.replicate rounds (firstGroup init last).octet
      | some init' => storedOctets delim rounds init' last

/-- A round that reads a number. -/
theorem macOctetsLoop_succ {delim : UInt8} {rounds : Nat} {ss ss' : InStream} {byteStr byteStr' : Bytes} {octet : UInt8}
    (hread : (if 0 < rounds then ss.getline delim byteStr else ss.getWord byteStr) = (ss', byteStr'))
    (hoctet : stoul byteStr' 16 = some octet.toNat) :
    macOctetsLoop delim (rounds + 1) ss byteStr = (macOctetsLoop delim rounds ss' byteStr').map (List.Vector.cons octet) := by
  rw [macOctetsLoop, hread]
  simp only [hoctet, UInt8.ofNat_toNat]
  exact bind_ok_eq_map _ _

/-- Behind the end, every round takes the string that was read last. -/
theorem macOctetsLoop_stale (delim : UInt8) {ss : InStream} (hss : ss.good = false) {byteStr : Bytes} {octet : UInt8}
    (hoctet : stoul byteStr 16 = some octet.toNat) (rounds : Nat) :
    ∃ octets, macOctetsLoop delim rounds ss byteStr = .ok octets ∧ octets.toList = List.replicate rounds octet := by
  induction rounds generalizing ss with
  | zero => exact ⟨_, rfl, rfl⟩
  | succ rounds ih =>
    have hread : (if 0 < rounds then ss.getline delim byteStr else ss.getWord byteStr) = ({ ss with failed := true }, byteStr) := by
      split
      · exact getline_of_not_good hss delim byteStr
      · exact getWord_of_not_good hss byteStr
    have hss' : InStream.good { ss with failed := true } = false := Bool.and_false _
    obtain ⟨octets, hloop, hlist⟩ := ih hss'
    refine ⟨.cons octet octets, ?_, ?_⟩
    · rw [macOctetsLoop_succ hread hoctet, hloop, map_ok]
    · rw [List.Vector.toList_cons, hlist]
      rfl

/-- The loop on a text. -/
theorem macOctetsLoop_groups (delim : Separator) (rounds : Nat) (init : List (HexGroup × Separator)) (last : HexGroup)
    (byteStr : Bytes) : ∃ octets, macOctetsLoop delim.char rounds (.ofString (groupsText init last)) byteStr = .ok octets ∧
      octets.toList = storedOctets delim rounds init last := by
  have hchar (init : List (HexGroup × Separator)) :
      ∀ c ∈ groupsText init last, isDigit 16 c = true ∨ ∃ sep : Separator, c = sep.char := by
    intro c hc
    rcases mem_groupsText hc with h | ⟨p, -, h⟩
    · exact .inl h
    · exact .inr ⟨p.2, h⟩
  induction rounds generalizing init byteStr with
  | zero => exact ⟨_, rfl, rfl⟩
  | succ rounds ih =>
    have hwhole := stoul_begins (groupsText_begins init last) (hchar init)
    by_cases hrounds : 0 < rounds
    · cases hbehind : behind delim init with
      | none =>
        have hread := getline_last (not_mem_of_behind hbehind last) byteStr
        have hended : InStream.good ⟨[], true, groupsText init last = []⟩ = false := Bool.false_and _
        obtain ⟨octets, hloop, hlist⟩ := macOctetsLoop_stale delim.char hended hwhole rounds
        refine ⟨.cons (firstGroup init last).octet octets, ?_, ?_⟩
        · rw [macOctetsLoop_succ (by rw [if_pos hrounds, hread]) hwhole, hloop, map_ok]
        · rw [List.Vector.toList_cons, hlist, storedOctets, hbehind]
      | some init' =>
        obtain ⟨line, htext, hline, hbegins⟩ := line_of_behind hbehind last
        have hread := getline_append hline (groupsText init' last) byteStr
        have hoctet := stoul_begins hbegins fun c hc => hchar init c (by rw [htext]; exact List.mem_append_left _ hc)
        obtain ⟨octets, hloop, hlist⟩ := ih init' line
        refine ⟨.cons (firstGroup init last).octet octets, ?_, ?_⟩
        · rw [htext, macOctetsLoop_succ (by rw [if_pos hrounds, hread]) hoctet, hloop, map_ok]
        · rw [List.Vector.toList_cons, hlist, storedOctets, hbehind]
    · obtain rfl : rounds = 0 := Nat.eq_zero_of_not_pos hrounds
      have hspace : ∀ c ∈ groupsText init last, isSpace c = false := by
        intro c hc
        rcases hchar init c hc with h | ⟨sep, rfl⟩
        · exact not_isSpace_of_isDigit h
        · cases sep <;> decide
      have hne : groupsText init last ≠ [] := by
        obtain ⟨more, htext, -⟩ := groupsText_begins init last
        rw [htext]
        exact List.cons_ne_nil _ _
      have hread := getWord_all hne hspace byteStr
      refine ⟨.cons (firstGroup init last).octet .nil, ?_, ?_⟩
      · rw [macOctetsLoop_succ (by rw [if_neg hrounds, hread]) hwhole]
        rfl
      · rw [List.Vector.toList_cons, storedOctets]
        cases behind delim init <;> rfl

/-! ## Octets that are kept -/

/-- The octets of the groups. -/
def groupOctets (init : List (HexGroup × Separator)) (last : HexGroup) : Bytes := (init.map fun p => p.1.octet) ++ [last.octet]

/-- The octets are all the same. -/
def AllSame (octets : Bytes) : Prop := ∀ b ∈ octets, ∀ b' ∈ octets, b = b'

/-- What separators have to do with the octets, when lines end at colons: if there is a dash, the groups behind the first one
are all the same when there is a colon among them, and the group before it too when there is none. -/
def KeepsGroups : List (HexGroup × Separator) → HexGroup → Prop
  | [], _ => True
  | (_, .colon) :: init, last => KeepsGroups init last
  | (g, .dash) :: init, last =>
    if Separator.colon ∈ init.map Prod.snd then AllSame (groupOctets init last) else AllSame (g.octet :: groupOctets init last)

theorem allSame_cons_iff {b b' : UInt8} {octets : Bytes} (h : b' ∈ octets) :
    AllSame (b :: octets) ↔ b' = b ∧ AllSame octets := by
  constructor
  · intro hsame
    exact ⟨hsame b' (List.mem_cons_of_mem b h) b List.mem_cons_self,
      fun x hx y hy => hsame x (List.mem_cons_of_mem b hx) y (List.mem_cons_of_mem b hy)⟩
  · intro hsame
    obtain ⟨rfl, hsame⟩ := hsame
    have hall : ∀ x ∈ b' :: octets, x = b' := by
      intro x hx
      rcases List.mem_cons.mp hx with rfl | hx
      · rfl
      · exact hsame x hx b' h
    intro x hx y hy
    rw [hall x hx, hall y hy]

theorem replicate_eq_iff_allSame (b : UInt8) (octets : Bytes) :
    List.replicate octets.length b = octets ↔ AllSame (b :: octets) := by
  rw [eq_comm, List.eq_replicate_iff]
  constructor
  · intro h
    have hall : ∀ x ∈ b :: octets, x = b := List.forall_mem_cons.mpr ⟨rfl, h.2⟩
    intro x hx y hy
    rw [hall x hx, hall y hy]
  · intro h
    exact ⟨rfl, fun x hx => h x (List.mem_cons_of_mem b hx) b List.mem_cons_self⟩

theorem firstGroup_mem (init : List (HexGroup × Separator)) (last : HexGroup) :
    (firstGroup init last).octet ∈ groupOctets init last := by
  cases init with
  | nil => exact List.mem_cons_self
  | cons p init => exact List.mem_cons_self

theorem length_groupOctets (init : List (HexGroup × Separator)) (last : HexGroup) :
    (groupOctets init last).length = init.length + 1 := by
  rw [groupOctets, List.length_append, List.length_map]
  rfl

theorem suffix_of_behind (h : behind delim init = some init') (last : HexGroup) :
    groupOctets init' last <:+ groupOctets init last ∧ init'.length < init.length := by
  induction init with
  | nil => nomatch h
  | cons p init ih =>
    unfold behind at h
    split at h
    · obtain rfl := Option.some.inj h
      exact ⟨List.suffix_cons _ _, Nat.lt_succ_self _⟩
    · obtain ⟨hsuffix, hlength⟩ := ih h
      exact ⟨hsuffix.trans (List.suffix_cons _ _), Nat.lt_succ_of_lt hlength⟩

/-- When every separator ends a line, every group is stored. -/
theorem storedOctets_all (h : ∀ p ∈ init, p.2 = delim) (last : HexGroup) :
    storedOctets delim (init.length + 1) init last = groupOctets init last := by
  induction init with
  | nil => rfl
  | cons p init ih =>
    rw [List.length_cons, storedOctets, behind, if_pos (h p List.mem_cons_self)]
    simp only [ih fun q hq => h q (List.mem_cons_of_mem p hq)]
    rfl

/-- More rounds than groups that are left: all that is stored is the same, since what is stored in a round comes from a group that
belongs to a later one. By induction on the rounds. -/
theorem storedOctets_late {rounds : Nat} {octets : Bytes} (hlength : octets.length = rounds)
    (hsuffix : groupOctets init last <:+ octets) (hlate : init.length + 1 < rounds) :
    storedOctets delim rounds init last = octets ↔ AllSame octets := by
  induction rounds generalizing init octets with
  | zero => exact absurd hlate (Nat.not_lt_zero _)
  | succ rounds ih =>
    obtain ⟨b, octets, rfl⟩ := List.exists_cons_of_ne_nil (List.ne_nil_of_length_eq_add_one hlength)
    rw [List.length_cons, Nat.add_right_cancel_iff] at hlength
    have hrest : groupOctets init last <:+ octets := by
      rcases List.suffix_cons_iff.mp hsuffix with heq | hrest
      · have hlong := congrArg List.length heq
        rw [length_groupOctets, List.length_cons] at hlong
        omega
      · exact hrest
    have hmem := hrest.subset (firstGroup_mem init last)
    rw [storedOctets, List.cons.injEq, allSame_cons_iff hmem]
    refine and_congr_right fun _ => ?_
    cases hbehind : behind delim init with
    | none =>
      simp only [← hlength]
      rw [replicate_eq_iff_allSame, allSame_cons_iff hmem, and_iff_right rfl]
    | some init' =>
      obtain ⟨hsuffix', hshorter⟩ := suffix_of_behind hbehind last
      exact ih hlength (hsuffix'.trans hrest) (by omega)

/-- Which groups are stored when lines end at colons. -/
theorem storedOctets_eq_iff (init : List (HexGroup × Separator)) (last : HexGroup) :
    storedOctets .colon (init.length + 1) init last = groupOctets init last ↔ KeepsGroups init last := by
  induction init with
  | nil => exact iff_of_true rfl trivial
  | cons p init ih =>
    obtain ⟨g, sep⟩ := p
    have hcons : groupOctets ((g, sep) :: init) last = g.octet :: groupOctets init last := rfl
    have hfirst : firstGroup ((g, sep) :: init) last = g := rfl
    rw [List.length_cons, storedOctets, hcons, hfirst, List.cons.injEq, and_iff_right rfl, behind]
    cases sep with
    | colon =>
      rw [if_pos rfl, KeepsGroups]
      exact ih
    | dash =>
      rw [if_neg (by decide), KeepsGroups]
      cases hbehind : behind .colon init with
      | none =>
        rw [if_neg (behind_eq_none_iff.mp hbehind)]
        simp only [← length_groupOctets init last]
        exact replicate_eq_iff_allSame _ _
      | some init' =>
        have hcolon : Separator.colon ∈ init.map Prod.snd := by
          by_contra hnone
          rw [behind_eq_none_iff.mpr hnone] at hbehind
          nomatch hbehind
        obtain ⟨hsuffix, hshorter⟩ := suffix_of_behind hbehind last
        rw [if_pos hcolon]
        exact storedOctets_late (length_groupOctets init last) hsuffix (by omega)

end NetworkingFramework
