import NetworkingFramework.Lemmas.PtpPrinting

/-!
# Addresses and paths as text

Which strings the parsers of octets accept, where the three of them agree, and which paths come back when they are printed and
parsed.
-/

namespace NetworkingFramework

open Wire CText

/-! ## The strings that are accepted -/

/-- A string of pairs of hexadecimal digits with a dot between them denotes bytes. -/
def Denotes (s octets : Bytes) : Prop :=
  ∃ pairs, s = dotted pairs ∧ (∀ pair ∈ pairs, IsOctet pair.1 pair.2) ∧ octets = pairs.map octetOf

/-- A string of pairs that are all read as numbers, some of them not two digits. -/
def IsLoose (s : Bytes) : Prop :=
  ∃ pairs, s = dotted pairs ∧ (∀ pair ∈ pairs, IsOctet pair.1 pair.2 ∨ IsLooseOctet pair.1 pair.2) ∧
    ∃ pair ∈ pairs, IsLooseOctet pair.1 pair.2

/-- The parser of addresses returns on a string, with the bytes that it denotes if it denotes some, and without a value
otherwise. -/
def AddrMeetsGrammar (s : Bytes) : Prop :=
  ∃ r, Computes (strToPtpAddr s) r ∧ ∀ octets, r = some ⟨octets⟩ ↔ Denotes s octets

theorem octetsOf_of_denotes {s octets : Bytes} (h : Denotes s octets) : octetsOf s = some octets := by
  obtain ⟨pairs, rfl, hpairs, rfl⟩ := h
  rw [octetsOf_dotted, mapM_readOctet hpairs]

theorem not_isLoose_of_denotes {s octets : Bytes} (h : Denotes s octets) : ¬IsLoose s := by
  obtain ⟨pairs, rfl, hpairs, -⟩ := h
  intro h
  obtain ⟨pairs', heq, -, pair, hmem, hloose⟩ := h
  rw [← dotted_injective heq] at hmem
  exact not_looseOctet_of_isOctet (hpairs pair hmem) hloose

/-- What is read of a string that is not loose is what it denotes. -/
theorem denotes_of_octetsOf {s octets : Bytes} (h : octetsOf s = some octets) (hloose : ¬IsLoose s) : Denotes s octets := by
  obtain ⟨pairs, rfl, hread⟩ := (octetsOf_eq_some_iff s octets).mp h
  have hpairs := (mapM_readOctet_isSome_iff pairs).mp ⟨octets, hread⟩
  have hdigits : ∀ pair ∈ pairs, IsOctet pair.1 pair.2 := fun pair hmem =>
    (hpairs pair hmem).resolve_right fun hpair => hloose ⟨pairs, rfl, hpairs, pair, hmem, hpair⟩
  refine ⟨pairs, rfl, hdigits, ?_⟩
  rw [mapM_readOctet hdigits] at hread
  exact (Option.some.inj hread).symm

theorem exists_octetsOf_of_isLoose {s : Bytes} (h : IsLoose s) : ∃ octets, octetsOf s = some octets := by
  obtain ⟨pairs, rfl, hpairs, -⟩ := h
  rw [octetsOf_dotted]
  exact (mapM_readOctet_isSome_iff pairs).mpr hpairs

theorem map_mk_eq_some_iff (r : Option Bytes) (octets : Bytes) : r.map PtpAddr.mk = some ⟨octets⟩ ↔ r = some octets := by
  cases r <;> simp

/-- The parser of addresses accepts exactly the strings that denote bytes, if the string is short and not loose, or so long that its
length is not an `int` and without a meaning; and only then. -/
theorem strToPtpAddr_meetsGrammar_iff (s : Bytes) : AddrMeetsGrammar s ↔
    if s.length < 2 ^ 31 then ¬IsLoose s else ¬∃ octets, Denotes s octets := by
  have hresult : AddrMeetsGrammar s ↔
      ∀ octets, (if s.length < 2 ^ 31 then octetsOf s else none) = some octets ↔ Denotes s octets := by
    constructor
    · rintro ⟨r, hcomputes, hr⟩ octets
      obtain rfl := (computes_strToPtpAddr s).unique hcomputes
      rw [← map_mk_eq_some_iff]
      exact hr octets
    · intro h
      refine ⟨_, computes_strToPtpAddr s, fun octets => ?_⟩
      rw [map_mk_eq_some_iff]
      exact h octets
  rw [hresult]
  by_cases hlen : s.length < 2 ^ 31
  · rw [if_pos hlen]
    simp only [if_pos hlen]
    constructor
    · intro h hloose
      obtain ⟨octets, hoctets⟩ := exists_octetsOf_of_isLoose hloose
      exact not_isLoose_of_denotes ((h octets).mp hoctets) hloose
    · exact fun hloose octets => ⟨fun h => denotes_of_octetsOf h hloose, octetsOf_of_denotes⟩
  · rw [if_neg hlen]
    simp only [if_neg hlen]
    constructor
    · rintro h ⟨octets, hoctets⟩
      nomatch (h octets).mpr hoctets
    · intro h octets
      exact iff_of_false (by simp) fun hoctets => h ⟨octets, hoctets⟩

/-- A string that is accepted and denotes nothing: its pairs are a digit and a letter, and a sign and a digit. -/
theorem strToPtpAddr_loose : Computes (strToPtpAddr (chars "1z.-1")) (some ⟨[0x01, 0xff]⟩) ∧
    ¬∃ octets, Denotes (chars "1z.-1") octets := by
  have hstr : chars "1z.-1" = dotted [('1'.toUInt8, 'z'.toUInt8), ('-'.toUInt8, '1'.toUInt8)] := by decide
  have hread : octetsOf (chars "1z.-1") = some [0x01, 0xff] := by decide
  have hloose : IsLoose (chars "1z.-1") := by
    refine ⟨_, hstr, ?_, ('1'.toUInt8, 'z'.toUInt8), List.mem_cons_self, by decide⟩
    simp only [List.forall_mem_cons, List.not_mem_nil, false_implies, implies_true, and_true]
    decide
  constructor
  · have hcomputes := computes_strToPtpAddr (chars "1z.-1")
    rw [hread] at hcomputes
    exact hcomputes
  · exact fun ⟨octets, h⟩ => not_isLoose_of_denotes h hloose

/-! ## The three parsers -/

/-- The parsers of addresses, of network ids and of ports return on a string, all with the same bytes or all without a value. -/
def ParsersAgree (s : Bytes) : Prop :=
  ∃ r : Option Bytes, Computes (strToPtpAddr s) (r.map PtpAddr.mk) ∧ Computes (strToPtpNetId s) (r.map PtpNetId.mk) ∧
    Computes (strToEmpPort s) (r.map EmpPort.mk)

/-- The string begins with two characters that are read as a number. -/
def StartsWithOctet (s : Bytes) : Prop := ∃ a b rest, s = a :: b :: rest ∧ (IsOctet a b ∨ IsLooseOctet a b)

theorem startsWithOctet_iff (s : Bytes) :
    StartsWithOctet s ↔ 2 ≤ s.length ∧ ∃ octet, stoul (s.take 2) 16 = some octet := by
  constructor
  · intro h
    obtain ⟨a, b, rest, rfl, h⟩ := h
    exact ⟨by simp, (stoul_pair_iff a b).mpr h⟩
  · intro h
    obtain ⟨hlen, h⟩ := h
    obtain ⟨a, b, rest, rfl⟩ := exists_pair_of_length hlen
    exact ⟨a, b, rest, rfl, (stoul_pair_iff a b).mp h⟩

/-- A string whose length is too small a number, or that begins with no number, is not an address, unless it is empty. -/
theorem octetsOf_of_not_stuck {s : Bytes} (h : ¬(toInt s.length ≥ 2 ∧ StartsWithOctet s)) :
    (if s.length < 2 ^ 31 then octetsOf s else none) = if s = [] then some [] else none := by
  by_cases hnil : s = []
  · rw [hnil]
    rfl
  · rw [if_neg hnil]
    by_cases hlen : s.length < 2 ^ 31
    · rw [if_pos hlen]
      rw [toInt_of_lt hlen] at h
      match s with
      | [] => exact absurd rfl hnil
      | [_] => rfl
      | a :: b :: rest =>
        have hnone : stoul [a, b] 16 = none := by
          refine Option.eq_none_iff_forall_not_mem.mpr fun octet hoctet => h ⟨?_, a, b, rest, rfl, ?_⟩
          · rw [List.length_cons, List.length_cons]
            omega
          · exact (stoul_pair_iff a b).mp ⟨octet, hoctet⟩
        rw [octetsOf, hnone]
        rfl
    · exact if_neg hlen

/-- The three parsers agree on a string when its length is, as an `int`, less than two, or it begins with no number of two
characters; and only then. On every other string two of them do not return. -/
theorem parsersAgree_iff (s : Bytes) : ParsersAgree s ↔ toInt s.length < 2 ∨ ¬StartsWithOctet s := by
  rw [← Int.not_le, ← not_and_or]
  constructor
  · rintro ⟨r, -, hnetId, -⟩ ⟨hn, hstarts⟩
    obtain ⟨hlen, octet, hoctet⟩ := (startsWithOctet_iff s).mp hstarts
    obtain ⟨fuel, hfuel⟩ := hnetId.exists_fuel
    rw [strToPtpNetId, parseOctetsLoop_zero_diverges hn (by omega) hoctet] at hfuel
    cases hfuel
  · intro h
    have hread : ¬(toInt s.length ≥ 2 ∧ ∃ octet, stoul (s.take 2) 16 = some octet) := by
      intro h
      obtain ⟨hn, hoctet⟩ := h
      have hle := toInt_le s.length
      exact h ⟨hn, (startsWithOctet_iff s).mpr ⟨by omega, hoctet⟩⟩
    have hloop (fuel : Nat) (hfuel : 1 ≤ fuel) :
        parseOctetsLoop 0 s (toInt s.length) fuel 0 [] = .ok (if s = [] then some [] else none) := by
      obtain ⟨fuel, rfl⟩ := Nat.exists_eq_succ_of_ne_zero (Nat.ne_zero_of_lt hfuel)
      exact parseOctetsLoop_zero_ok hread
    refine ⟨if s = [] then some [] else none, ?_, ⟨1, fun fuel hfuel => ?_⟩, ⟨1, fun fuel hfuel => ?_⟩⟩
    · rw [← octetsOf_of_not_stuck h]
      exact computes_strToPtpAddr s
    · rw [strToPtpNetId, hloop fuel hfuel]
      rfl
    · rw [strToEmpPort, hloop fuel hfuel]
      rfl

/-- An address of one octet, which is not parsed as a network id or as a port. -/
theorem parsers_disagree : Computes (strToPtpAddr (chars "ab")) (some ⟨[0xab]⟩) ∧
    (∀ fuel, strToPtpNetId (chars "ab") fuel = .error .diverges) ∧ (∀ fuel, strToEmpPort (chars "ab") fuel = .error .diverges) := by
  have hread : octetsOf (chars "ab") = some [0xab] := by decide
  have hoctet : stoul ((chars "ab").take 2) 16 = some 0xab := by decide
  have hloop (fuel : Nat) : parseOctetsLoop 0 (chars "ab") (toInt (chars "ab").length) fuel 0 [] = .error .diverges :=
    parseOctetsLoop_zero_diverges (by decide) (by decide) hoctet fuel []
  refine ⟨?_, fun fuel => ?_, fun fuel => ?_⟩
  · have hcomputes := computes_strToPtpAddr (chars "ab")
    rw [hread] at hcomputes
    exact hcomputes
  · rw [strToPtpNetId, hloop]
    rfl
  · rw [strToEmpPort, hloop]
    rfl

/-! ## Paths that come back -/

/-- A path is printed, and parsed into the same path. -/
def ListComesBack (list : List PtpAction) : Prop :=
  ∃ str, ptpActionListToStr list = .ok (some str) ∧ Computes (strToPtpActionList str) (some list)

/-- The strings of a path can be told apart. -/
theorem semicolon_not_mem_of_printedAs {list : List PtpAction} {strs : List Bytes} (h : PrintedAs list strs) :
    ∀ str ∈ strs, ';'.toUInt8 ∉ str := by
  induction h with
  | nil => exact fun str hmem => absurd hmem List.not_mem_nil
  | cons hstr _ ih => exact List.forall_mem_cons.mpr ⟨semicolon_not_mem hstr, ih⟩

theorem comesBack_of_printedAs {list : List PtpAction} {strs : List Bytes} {fuel : Nat} (hstrs : PrintedAs list strs)
    (hback : List.Forall₂ (fun str action => strToPtpAction str fuel = .ok (some action)) strs list) :
    ∀ action ∈ list, action.ComesBack := by
  induction hstrs with
  | nil => exact fun action hmem => absurd hmem List.not_mem_nil
  | cons hstr _ ih =>
    cases hback with
    | cons hfirst hrest => exact List.forall_mem_cons.mpr ⟨comesBack_of_action hstr hfirst, ih hrest⟩

/-- A path that comes back is one that an `int` can count, of actions that come back. -/
theorem ListComesBack.actions {list : List PtpAction} (h : ListComesBack list) (hne : list ≠ []) :
    list.length < 2 ^ 31 ∧ ∀ action ∈ list, action.ComesBack := by
  obtain ⟨str, hstr, hback⟩ := h
  obtain ⟨hlen, strs, hstrs⟩ := printedAs_of_loop (by decide) hstr
  rw [Nat.zero_add] at hlen
  rw [ptpActionListToStr_eq hstrs hlen] at hstr
  obtain rfl := Option.some.inj (Except.ok.inj hstr)
  obtain ⟨fuel, hfuel⟩ := hback.exists_fuel
  obtain ⟨tokens, hsplit, hfuel⟩ := (bind_eq_ok_iff ..).mp hfuel
  have htokens : tokens = strs := by
    cases hstrs with
    | nil => exact absurd rfl hne
    | cons hfirst hrest => exact marks_semicolon.eq_of_splitStr_ok (semicolon_not_mem_of_printedAs (.cons hfirst hrest)) hsplit
  obtain ⟨actions, hactions, hlist⟩ := (strToPtpActionListLoop_eq_iff ..).mp hfuel
  rw [List.nil_append] at hlist
  subst hlist
  exact ⟨hlen, comesBack_of_printedAs hstrs (htokens ▸ hactions)⟩

/-- Enough iterations for all of some strings. -/
theorem exists_enough {list : List PtpAction} (h : ∀ action ∈ list, ∃ str, ptpActionToStr action = .ok (some str) ∧
    Computes (strToPtpAction str) (some action)) : ∃ strs, PrintedAs list strs ∧ ∃ enough, ∀ fuel, enough ≤ fuel →
      List.Forall₂ (fun str action => strToPtpAction str fuel = .ok (some action)) strs list := by
  induction list with
  | nil => exact ⟨[], .nil, 0, fun _ _ => .nil⟩
  | cons action list ih =>
    obtain ⟨hfirst, hrest⟩ := List.forall_mem_cons.mp h
    obtain ⟨str, hstr, enough, hback⟩ := hfirst
    obtain ⟨strs, hstrs, enough', hback'⟩ := ih hrest
    refine ⟨str :: strs, .cons hstr hstrs, max enough enough', fun fuel hle => ?_⟩
    exact .cons (hback fuel (Nat.le_trans (Nat.le_max_left ..) hle)) (hback' fuel (Nat.le_trans (Nat.le_max_right ..) hle))

/-- A path of which every action comes back. -/
theorem listComesBack_of_actions {list : List PtpAction} (hne : list ≠ []) (hlen : list.length < 2 ^ 31)
    (h : ∀ action ∈ list, ∃ str, ptpActionToStr action = .ok (some str) ∧ Computes (strToPtpAction str) (some action)) :
    ListComesBack list := by
  obtain ⟨strs, hstrs, enough, hback⟩ := exists_enough h
  have hfree := semicolon_not_mem_of_printedAs hstrs
  refine ⟨joined (chars " ; ") strs, ptpActionListToStr_eq hstrs hlen, ?_⟩
  obtain ⟨enough', hsplit⟩ : Computes (splitStr (joined (chars " ; ") strs) (chars " ; ")) strs := by
    cases hstrs with
    | nil => exact absurd rfl hne
    | cons _ _ => exact marks_semicolon.computes_splitStr hfree
  refine ⟨max enough enough', fun fuel hle => ?_⟩
  rw [strToPtpActionList, hsplit fuel (Nat.le_trans (Nat.le_max_right ..) hle), ok_bind, strToPtpActionListLoop_eq_iff]
  exact ⟨list, hback fuel (Nat.le_trans (Nat.le_max_left ..) hle), rfl⟩

/-- A path whose endpoints are starts and ends comes back when an `int` can count its actions, the octets of its addresses have two
digits each, what is printed of an address is no longer than an `int` can say, and its network ids are empty; and only then. -/
theorem ptpActionList_comesBack_iff {list : List PtpAction} (hne : list ≠ []) (htagged : ∀ action ∈ list, action.Tagged)
    (hends : ∀ action ∈ list, ∀ e, action.val = .endpoint e → e.type = ptpEndpointStart ∨ e.type = ptpEndpointEnd) :
    ListComesBack list ↔ list.length < 2 ^ 31 ∧ ∀ action ∈ list, action.ComesBack := by
  constructor
  · exact fun h => h.actions hne
  · intro h
    obtain ⟨hlen, h⟩ := h
    exact listComesBack_of_actions hne hlen fun action hmem =>
      action_comesBack (htagged action hmem) (hends action hmem) (h action hmem)

/-- A path from one endpoint to the other over one connection. -/
def onePath (srcAddr destAddr : Bytes) : List PtpAction :=
  [⟨.endpoint, .endpoint ⟨ptpEndpointStart⟩⟩, ⟨.localConn, .localConn ⟨⟨srcAddr⟩, ⟨destAddr⟩⟩⟩,
    ⟨.endpoint, .endpoint ⟨ptpEndpointEnd⟩⟩]

theorem ptpActionList_comesBack_onePath : ListComesBack (onePath [0x10, 0xff] [0x20]) :=
  (ptpActionList_comesBack_iff (by decide) (by decide) (by simp [onePath, ptpEndpointStart, ptpEndpointEnd])).mpr
    ⟨by decide, by decide⟩

/-- An octet of one digit, and a network id that is not empty. -/
theorem ptpActionList_not_comesBack : ¬ListComesBack (onePath [0x05] [0x20]) ∧
    ¬ListComesBack [⟨.netSwitch, .netSwitch ⟨⟨[0x12]⟩, ⟨[]⟩⟩⟩] := by
  constructor
  · exact fun h => absurd (h.actions (by decide)).2 (by decide)
  · exact fun h => absurd (h.actions (by decide)).2 (by decide)

end NetworkingFramework
