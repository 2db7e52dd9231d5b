import NetworkingFramework.Lemmas.MacText

/-!
# MAC addresses as text

An address that is printed is parsed back. Another string that is accepted may have separators of both kinds, and then some of
its groups are not read.
-/

namespace NetworkingFramework

open Wire CText

/-! ## Accepted strings -/

/-- The condition on the separators and the octets of a text: lines end at colons when there is one. -/
def MacText.Keeps (text : MacText) : Prop := Separator.colon ∈ text.init.map Prod.snd → KeepsGroups text.init text.last

theorem MacText.toList_octets (text : MacText) : text.octets.toList = groupOctets text.init text.last := rfl

/-- What the parser returns for a text. -/
theorem strToMacAddr_str (text : MacText) :
    ∃ octets, strToMacAddr text.str = .ok (some ⟨octets⟩) ∧
      octets.toList = storedOctets (if Separator.colon ∈ text.init.map Prod.snd then .colon else .dash) 6 text.init text.last := by
  have hdelim : (if ':'.toUInt8 ∈ text.str then ':'.toUInt8 else '-'.toUInt8) =
      (if Separator.colon ∈ text.init.map Prod.snd then Separator.colon else .dash).char := by
    have hcolon : Separator.colon.char ∈ groupsText text.init text.last ↔ Separator.colon ∈ text.init.map Prod.snd :=
      char_mem_groupsText_iff
    simp only [← hcolon, apply_ite Separator.char]
    rfl
  obtain ⟨octets, hloop, hlist⟩ := macOctetsLoop_groups _ 6 text.init text.last []
  refine ⟨octets, ?_, hlist⟩
  rw [strToMacAddr, if_pos ((macAddrPattern_iff _).mpr ⟨text, rfl⟩)]
  simp only [hdelim]
  rw [MacText.str, hloop]
  rfl

/-- The octets returned are those of the groups if and only if the separators do no harm. -/
theorem strToMacAddr_str_iff (text : MacText) : strToMacAddr text.str = .ok (some ⟨text.octets⟩) ↔ text.Keeps := by
  obtain ⟨octets, hparsed, hlist⟩ := strToMacAddr_str text
  have hsame : octets = text.octets ↔ octets.toList = groupOctets text.init text.last :=
    ⟨fun h => h ▸ rfl, fun h => List.Vector.eq _ _ h⟩
  rw [hparsed, Except.ok.injEq, Option.some.injEq, MacAddr.mk.injEq, hsame, hlist, MacText.Keeps]
  have hsix : 6 = text.init.length + 1 := by rw [text.five]
  by_cases hcolon : Separator.colon ∈ text.init.map Prod.snd
  · rw [if_pos hcolon, hsix, storedOctets_eq_iff]
    exact ⟨fun h _ => h, fun h => h hcolon⟩
  · have hdash : ∀ p ∈ text.init, p.2 = Separator.dash := by
      intro p hp
      cases hsep : p.2 with
      | colon => exact absurd (List.mem_map.mpr ⟨p, hp, hsep⟩) hcolon
      | dash => rfl
    rw [if_neg hcolon, hsix, storedOctets_all hdash]
    exact iff_of_true rfl fun h => absurd h hcolon

theorem strToMacAddr_accepts_iff (s : Bytes) : (∃ addr, strToMacAddr s = .ok (some addr)) ↔ ∃ text : MacText, text.str = s := by
  constructor
  · intro h
    obtain ⟨addr, h⟩ := h
    unfold strToMacAddr at h
    split at h
    · rename_i hmatch
      exact (macAddrPattern_iff s).mp hmatch
    · nomatch h
  · intro h
    obtain ⟨text, rfl⟩ := h
    obtain ⟨octets, hparsed, -⟩ := strToMacAddr_str text
    exact ⟨_, hparsed⟩

/-! ## Printed addresses -/

/-- The two digits of an octet. -/
def HexGroup.ofOctet (octet : UInt8) : HexGroup where
  high := (Nat.digitChar (octet.toNat / 16)).toUInt8
  low := (Nat.digitChar (octet.toNat % 16)).toUInt8
  high_digit := isDigit_digitChar (Nat.le_refl 16) (Nat.div_lt_of_lt_mul octet.toNat_lt)
  low_digit := isDigit_digitChar (Nat.le_refl 16) (Nat.mod_lt _ (by decide))

theorem printOctet_eq (octet : UInt8) : printOctet octet = (HexGroup.ofOctet octet).chars := by
  have hlt : octet.toNat / 16 < 16 := Nat.div_lt_of_lt_mul octet.toNat_lt
  unfold printOctet
  by_cases hone : octet.toNat < 16
  · rw [printNat_of_lt hone, HexGroup.chars, HexGroup.ofOctet]
    simp only [Nat.div_eq_of_lt hone, Nat.mod_eq_of_lt hone]
    rfl
  · rw [printNat_of_le (by decide) (Nat.le_of_not_lt hone), printNat_of_lt hlt]
    rfl

theorem octet_ofOctet (octet : UInt8) : (HexGroup.ofOctet octet).octet = octet := by
  have hnumeral : numeral 16 (HexGroup.ofOctet octet).chars = octet.toNat := numeral_pair (Nat.le_refl 16) octet.toNat_lt
  rw [HexGroup.octet, hnumeral, UInt8.ofNat_toNat]

/-- What is printed for an address is a text with colons. -/
theorem exists_text (addr : MacAddr) : ∃ text : MacText, text.str = macAddrToStr addr ∧ text.octets = addr.octets ∧ text.Keeps := by
  obtain ⟨⟨octets, hlength⟩⟩ := addr
  match octets, hlength with
  | [a, b, c, d, e, f], hlength =>
    refine ⟨⟨[a, b, c, d, e].map fun octet => (.ofOctet octet, .colon), .ofOctet f, rfl⟩, ?_, ?_, fun _ => trivial⟩
    · simp only [MacText.str, groupsText, macAddrToStr, joined, List.Vector.toList_mk, List.map_cons, List.map_nil, printOctet_eq]
      rfl
    · apply List.Vector.eq
      simp only [MacText.toList_octets, groupOctets, List.map_cons, List.map_nil, octet_ofOctet]
      rfl

/-- The buffer has room for the text and its null character. -/
theorem macAddrToStr_buffer (addr : MacAddr) : cStr (snprintf (2 * 6 + 5 + 1) (macAddrToStr addr)) = macAddrToStr addr := by
  obtain ⟨text, htext, -, -⟩ := exists_text addr
  rw [← htext]
  have hlength : text.str.length = 17 := by
    rw [MacText.str, length_groupsText, text.five]
  refine cStr_snprintf (by omega) fun c hc => ?_
  rcases mem_groupsText hc with h | ⟨p, -, rfl⟩
  · rintro rfl
    exact absurd h (by decide)
  · cases p.2 <;> decide

/-! ## Both -/

/-- Printed addresses are parsed back. The strings that are accepted are the texts of six groups, and for one of these the
octets of the groups are returned if and only if its separators do no harm. -/
theorem macAddr_text (addr : MacAddr) (s : Bytes) (text : MacText) :
    (cStr (snprintf (2 * 6 + 5 + 1) (macAddrToStr addr)) = macAddrToStr addr ∧
      strToMacAddr (macAddrToStr addr) = .ok (some addr)) ∧
    ((∃ addr, strToMacAddr s = .ok (some addr)) ↔ ∃ text : MacText, text.str = s) ∧
    (strToMacAddr text.str = .ok (some ⟨text.octets⟩) ↔ text.Keeps) := by
  refine ⟨⟨macAddrToStr_buffer addr, ?_⟩, strToMacAddr_accepts_iff s, strToMacAddr_str_iff text⟩
  obtain ⟨text, htext, hoctets, hkeeps⟩ := exists_text addr
  rw [← htext, (strToMacAddr_str_iff text).mpr hkeeps, hoctets]

/-- `aa-bb:cc:dd:ee:ff`. -/
def mixedSeparators : MacText where
  init := [(.ofOctet 0xaa, .dash), (.ofOctet 0xbb, .colon), (.ofOctet 0xcc, .colon), (.ofOctet 0xdd, .colon),
    (.ofOctet 0xee, .colon)]
  last := .ofOctet 0xff
  five := rfl

theorem macAddr_text_counterexample :
    mixedSeparators.str = chars "aa-bb:cc:dd:ee:ff" ∧
      strToMacAddr mixedSeparators.str = .ok (some ⟨⟨[0xaa, 0xcc, 0xdd, 0xee, 0xff, 0xff], rfl⟩⟩) ∧
      mixedSeparators.octets.toList = [0xaa, 0xbb, 0xcc, 0xdd, 0xee, 0xff] := by
  obtain ⟨octets, hparsed, hlist⟩ := strToMacAddr_str mixedSeparators
  have hoctets : octets = ⟨[0xaa, 0xcc, 0xdd, 0xee, 0xff, 0xff], rfl⟩ := List.Vector.eq _ _ (hlist.trans (by decide))
  exact ⟨by decide, hoctets ▸ hparsed, by decide⟩

end NetworkingFramework
