import NetworkingFramework.PtpText

/-!
# Octets as text

What the parsers of octets do with two characters, and with a string of any length.
-/

namespace NetworkingFramework

open Wire CText

/-! ## Two characters -/

/-- Two hexadecimal digits. -/
def IsOctet (a b : UInt8) : Prop := isDigit 16 a = true ∧ isDigit 16 b = true

/-- Two characters that are read as a number, but are not two digits: a digit and something else, or white space or a sign and a
digit. -/
def IsLooseOctet (a b : UInt8) : Prop :=
  isDigit 16 a = true ∧ isDigit 16 b = false ∨ (isSpace a = true ∨ isSign a = true) ∧ isDigit 16 b = true

instance (a b : UInt8) : Decidable (IsOctet a b) := inferInstanceAs (Decidable (_ ∧ _))

instance (a b : UInt8) : Decidable (IsLooseOctet a b) := inferInstanceAs (Decidable (_ ∨ _))

theorem not_looseOctet_of_isOctet {a b : UInt8} (h : IsOctet a b) : ¬IsLooseOctet a b := by
  obtain ⟨ha, hb⟩ := h
  intro h
  rcases h with ⟨-, hb'⟩ | ⟨hspace | hsign, -⟩
  · rw [hb] at hb'
    nomatch hb'
  · rw [not_isDigit_of_isSpace hspace] at ha
    nomatch ha
  · rw [not_isDigit_of_isSign hsign] at ha
    nomatch ha

/-- Two characters are too few for a prefix. -/
theorem skipHexPrefix_pair {a b : UInt8} {s : Bytes} (h : s <:+ [a, b]) : skipHexPrefix s = s := by
  have hlen := h.length_le
  match s, hlen with
  | [], _ => rfl
  | [_], _ => rfl
  | [_, _], _ => rfl

/-- A number of at most two digits that begins two characters. -/
theorem stoul_of_numberText {a b : UInt8} {w rest : Bytes} {negative : Bool} {value : Nat} (hw : w ++ rest = [a, b])
    (h : NumberText 16 w negative value) (hvalue : value < 2 ^ 64) (hrest : NoDigit 16 rest) :
    stoul [a, b] 16 = some (if negative then (2 ^ 64 - value) % 2 ^ 64 else value) := by
  have hsubject := subject_numberText h hrest fun _ s hs => skipHexPrefix_pair (hw ▸ hs)
  rw [stoul, ← hw, hsubject]
  exact if_pos hvalue

theorem numeral_lt_of_length {digits : Bytes} (hdigits : ∀ c ∈ digits, isDigit 16 c = true) (hlen : digits.length ≤ 2) :
    numeral 16 digits < 2 ^ 64 :=
  Nat.lt_of_lt_of_le (numeral_lt 16 hdigits)
    (Nat.le_trans (Nat.pow_le_pow_right (by decide) hlen) (by decide))

theorem stoul_octet {a b : UInt8} (h : IsOctet a b) : stoul [a, b] 16 = some (numeral 16 [a, b]) := by
  have hdigits : ∀ c ∈ [a, b], isDigit 16 c = true := by simp [h.1, h.2]
  have htext : NumberText 16 ([] ++ [a, b]) false (numeral 16 [a, b]) := .unsigned (by simp) (by simp) hdigits
  exact stoul_of_numberText (List.append_nil _) htext (numeral_lt_of_length hdigits (Nat.le_refl _)) (by simp [NoDigit])

theorem isOctet_or_loose_iff (a b : UInt8) :
    IsOctet a b ∨ IsLooseOctet a b ↔ isDigit 16 a = true ∨ (isSpace a = true ∨ isSign a = true) ∧ isDigit 16 b = true := by
  unfold IsOctet IsLooseOctet
  cases isDigit 16 b <;> simp

/-- In a number of two characters, the first is a digit or comes before the digits. -/
theorem first_of_numberText {a b : UInt8} {w rest : Bytes} {negative : Bool} {value : Nat} (hw : [a, b] = w ++ rest)
    (h : NumberText 16 w negative value) :
    isDigit 16 a = true ∨ (isSpace a = true ∨ isSign a = true) ∧ isDigit 16 b = true := by
  cases h with
  | @unsigned spaces digits hspaces hne hdigits =>
    obtain ⟨d, ds, rfl⟩ := List.exists_cons_of_ne_nil hne
    have hd := hdigits d List.mem_cons_self
    match spaces, hspaces, hw with
    | [], _, hw =>
      obtain ⟨rfl, -⟩ := List.cons.inj hw
      exact .inl hd
    | [x], hspaces, hw =>
      obtain ⟨rfl, hb⟩ := List.cons.inj hw
      obtain ⟨rfl, -⟩ := List.cons.inj hb
      exact .inr ⟨.inl (hspaces a List.mem_cons_self), hd⟩
    | x :: y :: zs, _, hw => simp at hw
  | @signed spaces digits c hspaces hsign hne hdigits =>
    obtain ⟨d, ds, rfl⟩ := List.exists_cons_of_ne_nil hne
    have hd := hdigits d List.mem_cons_self
    match spaces, hw with
    | [], hw =>
      obtain ⟨rfl, hb⟩ := List.cons.inj hw
      obtain ⟨rfl, -⟩ := List.cons.inj hb
      exact .inr ⟨.inr hsign, hd⟩
    | x :: zs, hw =>
      have hlen := congrArg List.length hw
      simp at hlen
      omega

/-- The characters that are read as a number. -/
theorem stoul_pair_iff (a b : UInt8) : (∃ value, stoul [a, b] 16 = some value) ↔ IsOctet a b ∨ IsLooseOctet a b := by
  constructor
  · intro h
    obtain ⟨value, h⟩ := h
    rw [isOctet_or_loose_iff]
    rw [stoul] at h
    cases hsubject : subject 16 [a, b] with
    | none =>
      rw [hsubject] at h
      cases h
    | some n =>
      obtain ⟨w, hw, htext, -⟩ := numberText_of_subject hsubject fun _ s hs => skipHexPrefix_pair hs
      exact first_of_numberText hw htext
  · intro h
    rcases h with h | ⟨ha, hb⟩ | ⟨hspace | hsign, hb⟩
    · exact ⟨_, stoul_octet h⟩
    · have hdigits : ∀ c ∈ [a], isDigit 16 c = true := by simp [ha]
      have htext : NumberText 16 ([] ++ [a]) false (numeral 16 [a]) := .unsigned (by simp) (by simp) hdigits
      have hrest : NoDigit 16 [b] := by simpa [NoDigit] using hb
      exact ⟨_, stoul_of_numberText rfl htext (numeral_lt_of_length hdigits (by simp)) hrest⟩
    · have hdigits : ∀ c ∈ [b], isDigit 16 c = true := by simp [hb]
      have htext : NumberText 16 ([a] ++ [b]) false (numeral 16 [b]) := .unsigned (by simp [hspace]) (by simp) hdigits
      exact ⟨_, stoul_of_numberText (List.append_nil _) htext (numeral_lt_of_length hdigits (by simp)) (by simp [NoDigit])⟩
    · have hdigits : ∀ c ∈ [b], isDigit 16 c = true := by simp [hb]
      have htext : NumberText 16 ([] ++ a :: [b]) (a = '-'.toUInt8) (numeral 16 [b]) := .signed (by simp) hsign (by simp) hdigits
      exact ⟨_, stoul_of_numberText (List.append_nil _) htext (numeral_lt_of_length hdigits (by simp)) (by simp [NoDigit])⟩

/-! ## The loop of the parser -/

theorem exists_pair_of_length {s : Bytes} (h : 2 ≤ s.length) : ∃ a b rest, s = a :: b :: rest := by
  match s, h with
  | a :: b :: rest, _ => exact ⟨a, b, rest, rfl⟩

/-- What is left of a string behind an octet: a dot and two characters for each of the others. -/
def octetsTail : Bytes → Option Bytes
  | [] => some []
  | dot :: a :: b :: rest =>
    if dot = '.'.toUInt8 then (stoul [a, b] 16).bind fun octet => (octetsTail rest).map (UInt8.ofNat octet :: ·) else none
  | _ => none

/-- The octets of a string. -/
def octetsOf : Bytes → Option Bytes
  | [] => some []
  | a :: b :: rest => (stoul [a, b] 16).bind fun octet => (octetsTail rest).map (UInt8.ofNat octet :: ·)
  | _ => none

variable {str : Bytes} {n : Int}

/-- The part of the loop's body that reads two characters. -/
def parseWindow (advance : Nat) (str : Bytes) (n : Int) (fuel i : Nat) (octets : Bytes) : Except Fault (Option Bytes) :=
  if n - i ≥ 2 then
    match stoul ((str.drop i).take 2) 16 with
    | none => .ok none
    | some octet => addInt i advance >>= fun i => parseOctetsLoop advance str n fuel i (octets ++ [UInt8.ofNat octet])
  else .ok none

theorem parseOctetsLoop_end (advance fuel : Nat) {i : Nat} (hi : ¬i < str.length) (octets : Bytes) :
    parseOctetsLoop advance str n (fuel + 1) i octets = .ok (some octets) := by
  rw [parseOctetsLoop, if_pos hi]
  rfl

theorem parseWindow_eq (advance fuel i : Nat) (octets : Bytes) :
    (do
      if ¬n - i ≥ 2 then return none
      match stoul ((str.drop i).take 2) 16 with
      | none => return none
      | some octet => parseOctetsLoop advance str n fuel (← addInt i advance) (octets ++ [UInt8.ofNat octet])) =
      parseWindow advance str n fuel i octets := by
  unfold parseWindow
  by_cases hwindow : n - i ≥ 2
  · simp only [hwindow, not_true_eq_false, if_false, if_true]
    rfl
  · simp only [hwindow, not_false_eq_true, if_true, if_false]
    rfl

theorem parseOctetsLoop_first (advance fuel : Nat) (hlen : 0 < str.length) (octets : Bytes) :
    parseOctetsLoop advance str n (fuel + 1) 0 octets = parseWindow advance str n fuel 0 octets := by
  rw [parseOctetsLoop, if_neg (not_not_intro hlen), if_neg fun h => h.1 rfl, if_neg (not_not_intro rfl)]
  exact parseWindow_eq advance fuel 0 octets

theorem parseOctetsLoop_dot (advance fuel : Nat) {i : Nat} (hi : i < str.length) (hne : i ≠ 0)
    (hdot : str[i]? = some '.'.toUInt8) (hint : i + 1 < 2 ^ 31) (octets : Bytes) :
    parseOctetsLoop advance str n (fuel + 1) i octets = parseWindow advance str n fuel (i + 1) octets := by
  rw [parseOctetsLoop, if_neg (not_not_intro hi), if_neg fun h => h.2 hdot, if_pos hne, addInt_of_lt hint]
  exact parseWindow_eq advance fuel (i + 1) octets

theorem parseOctetsLoop_noDot (advance fuel : Nat) {i : Nat} (hi : i < str.length) (hne : i ≠ 0)
    (hdot : str[i]? ≠ some '.'.toUInt8) (octets : Bytes) :
    parseOctetsLoop advance str n (fuel + 1) i octets = .ok none := by
  rw [parseOctetsLoop, if_neg (not_not_intro hi), if_pos ⟨hne, hdot⟩]
  rfl

/-- Two characters that are there, and the loop behind them. -/
theorem parseWindow_of_rest {fuel i : Nat} {octets : Bytes} {a b : UInt8} {rest : Bytes} (hdrop : str.drop i = a :: b :: rest)
    (hi : (i : Int) + 2 ≤ n) (hmax : n < 2 ^ 31) (hrest : ∀ octets, parseOctetsLoop 2 str n fuel (i + 2) octets =
      .ok (if n = str.length then (octetsTail rest).map (octets ++ ·) else none)) :
    parseWindow 2 str n fuel i octets = .ok (if n = str.length then
      ((stoul [a, b] 16).bind fun octet => (octetsTail rest).map (UInt8.ofNat octet :: ·)).map (octets ++ ·) else none) := by
  have hwindow : n - i ≥ 2 := by omega
  have htake : (str.drop i).take 2 = [a, b] := by rw [hdrop]; rfl
  rw [parseWindow, if_pos hwindow, htake]
  cases stoul [a, b] 16 with
  | none => simp
  | some octet =>
    have hint : i + 2 < 2 ^ 31 := by omega
    simp only [addInt_of_lt hint, ok_bind, hrest, Option.bind_some, Option.map_map]
    have hpush : (octets ++ [UInt8.ofNat octet] ++ ·) = (octets ++ ·) ∘ (UInt8.ofNat octet :: ·) := by
      funext tail
      exact List.append_assoc ..
    rw [hpush]

/-- The loop behind an octet. The index is two more than a multiple of three there, so that an `int` holds the next. -/
theorem parseOctetsLoop_tail (hle : n ≤ str.length) (hmax : n < 2 ^ 31) {fuel i : Nat} {octets suffix : Bytes}
    (hsuffix : str.drop i = suffix) (hi : (i : Int) ≤ n) (hmod : i % 3 = 2) (hfuel : suffix.length < fuel) :
    parseOctetsLoop 2 str n fuel i octets =
      .ok (if n = str.length then (octetsTail suffix).map (octets ++ ·) else none) := by
  induction fuel generalizing i octets suffix with
  | zero => omega
  | succ fuel ih =>
    have hlen : str.length = i + suffix.length := by
      rw [← hsuffix, List.length_drop]
      omega
    have hne : i ≠ 0 := by omega
    cases suffix with
    | nil =>
      have hn : n = str.length := by rw [List.length_nil] at hlen; omega
      rw [parseOctetsLoop_end 2 fuel (by rw [hlen]; exact Nat.lt_irrefl _), if_pos hn]
      simp [octetsTail]
    | cons dot suffix =>
      rw [List.length_cons] at hlen hfuel
      have hin : i < str.length := by omega
      have hat : str[i]? = some dot := by
        rw [← List.head?_drop, hsuffix]
        rfl
      have hnext : str.drop (i + 1) = suffix := by
        rw [← List.tail_drop, hsuffix]
        rfl
      by_cases hdot : dot = '.'.toUInt8
      · rw [parseOctetsLoop_dot 2 fuel hin hne (hdot ▸ hat) (by omega)]
        by_cases hwindow : n - (i + 1 : Nat) ≥ 2
        · obtain ⟨a, b, rest, rfl⟩ := @exists_pair_of_length suffix (by omega)
          have hwindow' : ((i + 1 : Nat) : Int) + 2 ≤ n := by omega
          have hdrop : str.drop (i + 1 + 2) = rest := by rw [← List.drop_drop, hnext]; rfl
          have htail : octetsTail (dot :: a :: b :: rest) =
              (stoul [a, b] 16).bind fun octet => (octetsTail rest).map (UInt8.ofNat octet :: ·) := if_pos hdot
          simp only [List.length_cons] at hfuel
          rw [htail]
          exact parseWindow_of_rest hnext hwindow' hmax fun octets => ih hdrop (by omega) (by omega) (by omega)
        · have hnone : (if n = str.length then (octetsTail (dot :: suffix)).map (octets ++ ·) else none) = none := by
            by_cases hn : n = str.length
            · have hshort : suffix.length < 2 := by omega
              have htail : octetsTail (dot :: suffix) = none := by
                match suffix, hshort with
                | [], _ => rfl
                | [_], _ => rfl
              rw [if_pos hn, htail]
              rfl
            · exact if_neg hn
          rw [parseWindow, if_neg hwindow, hnone]
      · have hnone : octetsTail (dot :: suffix) = none := by
          match suffix with
          | [] => rfl
          | [_] => rfl
          | a :: b :: rest => exact if_neg hdot
        rw [parseOctetsLoop_noDot 2 fuel hin hne (by rw [hat]; exact fun h => hdot (Option.some.inj h)), hnone]
        simp

/-- The whole loop. A string whose length is not an `int` is not parsed. -/
theorem parseOctetsLoop_start (str : Bytes) {fuel : Nat} (hfuel : str.length < fuel) :
    parseOctetsLoop 2 str (toInt str.length) fuel 0 [] = .ok (if str.length < 2 ^ 31 then octetsOf str else none) := by
  obtain ⟨fuel, rfl⟩ := Nat.exists_eq_succ_of_ne_zero (Nat.ne_zero_of_lt hfuel)
  have hle := toInt_le str.length
  have hmax := toInt_lt str.length
  rw [if_congr (toInt_eq_iff str.length).symm rfl rfl]
  by_cases hpos : 0 < str.length
  · rw [parseOctetsLoop_first 2 fuel hpos]
    by_cases hwindow : toInt str.length - (0 : Nat) ≥ 2
    · obtain ⟨a, b, rest, hstr⟩ := @exists_pair_of_length str (by omega)
      have hlen : str.length = rest.length + 2 := by rw [hstr]; rfl
      have hdrop : str.drop (0 + 2) = rest := by rw [hstr]; rfl
      have hwindow' : ((0 : Nat) : Int) + 2 ≤ toInt str.length := by omega
      have hstart : str.drop 0 = a :: b :: rest := by rw [List.drop_zero, hstr]
      have hloop := @parseWindow_of_rest str _ fuel 0 [] a b rest hstart hwindow' hmax fun octets =>
        parseOctetsLoop_tail hle hmax hdrop (by omega) (by decide) (by omega)
      have hoctets : octetsOf str = (stoul [a, b] 16).bind fun octet => (octetsTail rest).map (UInt8.ofNat octet :: ·) := by
        rw [hstr]
        rfl
      rw [hloop, hoctets]
      simp
    · have hnone : (if toInt str.length = str.length then octetsOf str else none) = none := by
        by_cases hn : toInt str.length = str.length
        · obtain ⟨c, hstr⟩ := List.length_eq_one_iff.mp (show str.length = 1 by omega)
          rw [if_pos hn, hstr]
          rfl
        · exact if_neg hn
      rw [parseWindow, if_neg hwindow, hnone]
  · have hnil : str = [] := List.eq_nil_of_length_eq_zero (Nat.eq_zero_of_not_pos hpos)
    rw [parseOctetsLoop_end 2 fuel hpos, hnil]
    rfl

/-! ## The parsers -/

/-- What `str_to_ptp_addr` computes. -/
theorem computes_strToPtpAddr (str : Bytes) :
    Computes (strToPtpAddr str) ((if str.length < 2 ^ 31 then octetsOf str else none).map PtpAddr.mk) := by
  refine ⟨str.length + 1, fun fuel hfuel => ?_⟩
  rw [strToPtpAddr, parseOctetsLoop_start str hfuel]
  rfl

theorem parseOctetsLoop_succ {advance fuel i : Nat} {octets : Bytes} {r : Option Bytes}
    (h : parseOctetsLoop advance str n fuel i octets = .ok r) : parseOctetsLoop advance str n (fuel + 1) i octets = .ok r := by
  induction fuel generalizing i octets with
  | zero => nomatch h
  | succ fuel ih =>
    have hwindow {i : Nat} (h : parseWindow advance str n fuel i octets = .ok r) :
        parseWindow advance str n (fuel + 1) i octets = .ok r := by
      rw [parseWindow] at h ⊢
      by_cases hn : n - i ≥ 2
      · rw [if_pos hn] at h ⊢
        cases hstoul : stoul ((str.drop i).take 2) 16 with
        | none =>
          rw [hstoul] at h
          exact h
        | some octet =>
          rw [hstoul] at h
          simp only [bind_eq_ok_iff] at h ⊢
          obtain ⟨i', hint, h⟩ := h
          exact ⟨i', hint, ih h⟩
      · rw [if_neg hn] at h ⊢
        exact h
    by_cases hi : i < str.length
    · by_cases hne : i = 0
      · subst hne
        rw [parseOctetsLoop_first _ _ hi] at h ⊢
        exact hwindow h
      · by_cases hdot : str[i]? = some '.'.toUInt8
        · by_cases hint : i + 1 < 2 ^ 31
          · rw [parseOctetsLoop_dot _ _ hi hne hdot hint] at h ⊢
            exact hwindow h
          · rw [parseOctetsLoop, if_neg (not_not_intro hi), if_neg fun h => h.2 hdot, if_pos hne, addInt, if_neg hint] at h
            nomatch h
        · rw [parseOctetsLoop_noDot _ _ hi hne hdot] at h ⊢
          exact h
    · rw [parseOctetsLoop_end _ _ hi] at h ⊢
      exact h

theorem steady_strToPtpAddr (str : Bytes) : Steady (strToPtpAddr str) := by
  apply Steady.of_succ
  intro fuel r h
  rw [strToPtpAddr, bind_eq_ok_iff] at h ⊢
  obtain ⟨octets, hloop, h⟩ := h
  exact ⟨octets, parseOctetsLoop_succ hloop, h⟩

/-- The loop whose index is not advanced returns for no string that begins with a number of two characters. -/
theorem parseOctetsLoop_zero_diverges {octet : Nat} (hn : n ≥ 2) (hlen : 0 < str.length)
    (hoctet : stoul (str.take 2) 16 = some octet)
    (fuel : Nat) (octets : Bytes) : parseOctetsLoop 0 str n fuel 0 octets = .error .diverges := by
  induction fuel generalizing octets with
  | zero => rfl
  | succ fuel ih =>
    have hwindow : n - (0 : Nat) ≥ 2 := by omega
    rw [parseOctetsLoop_first 0 fuel hlen, parseWindow, if_pos hwindow, List.drop_zero, hoctet]
    exact ih _

/-- It returns for the others, and has parsed none of them but the empty one. -/
theorem parseOctetsLoop_zero_ok {fuel : Nat} (h : ¬(n ≥ 2 ∧ ∃ octet, stoul (str.take 2) 16 = some octet)) :
    parseOctetsLoop 0 str n (fuel + 1) 0 [] = .ok (if str = [] then some [] else none) := by
  by_cases hlen : 0 < str.length
  · have hne : str ≠ [] := List.ne_nil_of_length_pos hlen
    rw [parseOctetsLoop_first 0 fuel hlen, if_neg hne, parseWindow]
    by_cases hwindow : n - (0 : Nat) ≥ 2
    · have hstoul : stoul (str.take 2) 16 = none := by
        have hn : n ≥ 2 := by omega
        exact Option.eq_none_iff_forall_not_mem.mpr fun octet hoctet => h ⟨hn, octet, hoctet⟩
      rw [if_pos hwindow, List.drop_zero, hstoul]
    · rw [if_neg hwindow]
  · have hnil : str = [] := List.eq_nil_of_length_eq_zero (Nat.eq_zero_of_not_pos hlen)
    rw [parseOctetsLoop_end 0 fuel hlen, if_pos hnil]

/-! ## Groups of two characters -/

/-- Pairs of characters with a dot between them. -/
def dotted (pairs : List (UInt8 × UInt8)) : Bytes := joined (chars ".") (pairs.map fun pair => [pair.1, pair.2])

/-- The byte that two characters are read as. -/
def readOctet (pair : UInt8 × UInt8) : Option UInt8 := (stoul [pair.1, pair.2] 16).map UInt8.ofNat

/-- The byte that two digits denote. -/
def octetOf (pair : UInt8 × UInt8) : UInt8 := UInt8.ofNat (numeral 16 [pair.1, pair.2])

/-- The characters behind the first pair. -/
def dottedTail (pairs : List (UInt8 × UInt8)) : Bytes := (pairs.map fun pair => [pair.1, pair.2]).flatMap (chars "." ++ ·)

theorem dottedTail_cons (a b : UInt8) (pairs : List (UInt8 × UInt8)) :
    dottedTail ((a, b) :: pairs) = '.'.toUInt8 :: a :: b :: dottedTail pairs := rfl

theorem dotted_cons (a b : UInt8) (pairs : List (UInt8 × UInt8)) : dotted ((a, b) :: pairs) = a :: b :: dottedTail pairs := rfl

theorem length_dottedTail (pairs : List (UInt8 × UInt8)) : (dottedTail pairs).length = 3 * pairs.length := by
  induction pairs with
  | nil => rfl
  | cons pair pairs ih =>
    rw [dottedTail_cons, List.length_cons, List.length_cons, List.length_cons, ih, List.length_cons]
    omega

theorem dottedTail_injective : Function.Injective dottedTail := by
  intro pairs pairs' h
  induction pairs generalizing pairs' with
  | nil =>
    cases pairs' with
    | nil => rfl
    | cons pair' pairs' => nomatch h
  | cons pair pairs ih =>
    cases pairs' with
    | nil => nomatch h
    | cons pair' pairs' =>
      rw [dottedTail_cons, dottedTail_cons] at h
      obtain ⟨-, h⟩ := List.cons.inj h
      obtain ⟨ha, h⟩ := List.cons.inj h
      obtain ⟨hb, h⟩ := List.cons.inj h
      rw [Prod.ext ha hb, ih h]

/-- A string has one form as pairs at most. -/
theorem dotted_injective : Function.Injective dotted := by
  intro pairs pairs' h
  cases pairs with
  | nil =>
    cases pairs' with
    | nil => rfl
    | cons pair' pairs' => nomatch h
  | cons pair pairs =>
    cases pairs' with
    | nil => nomatch h
    | cons pair' pairs' =>
      rw [dotted_cons, dotted_cons] at h
      obtain ⟨ha, h⟩ := List.cons.inj h
      obtain ⟨hb, h⟩ := List.cons.inj h
      rw [Prod.ext ha hb, dottedTail_injective h]

theorem mapM_readOctet_cons (pair : UInt8 × UInt8) (pairs : List (UInt8 × UInt8)) : (pair :: pairs).mapM readOctet =
    (stoul [pair.1, pair.2] 16).bind fun octet => (pairs.mapM readOctet).map (UInt8.ofNat octet :: ·) := by
  rw [List.mapM_cons, readOctet]
  cases stoul [pair.1, pair.2] 16 with
  | none => rfl
  | some octet => cases pairs.mapM readOctet <;> rfl

theorem length_of_mapM_readOctet {pairs : List (UInt8 × UInt8)} {octets : Bytes} (h : pairs.mapM readOctet = some octets) :
    octets.length = pairs.length := by
  induction pairs generalizing octets with
  | nil =>
    obtain rfl := Option.some.inj h
    rfl
  | cons pair pairs ih =>
    rw [mapM_readOctet_cons] at h
    obtain ⟨octet, -, h⟩ := Option.bind_eq_some_iff.mp h
    obtain ⟨octets', hrest, rfl⟩ := Option.map_eq_some_iff.mp h
    rw [List.length_cons, List.length_cons, ih hrest]

theorem octetsTail_dottedTail (pairs : List (UInt8 × UInt8)) : octetsTail (dottedTail pairs) = pairs.mapM readOctet := by
  induction pairs with
  | nil => rfl
  | cons pair pairs ih =>
    rw [dottedTail_cons, octetsTail, if_pos rfl, ih, mapM_readOctet_cons]

theorem octetsOf_dotted (pairs : List (UInt8 × UInt8)) : octetsOf (dotted pairs) = pairs.mapM readOctet := by
  cases pairs with
  | nil => rfl
  | cons pair pairs => rw [dotted_cons, octetsOf, octetsTail_dottedTail, mapM_readOctet_cons]

theorem exists_dottedTail {s octets : Bytes} (h : octetsTail s = some octets) : ∃ pairs, s = dottedTail pairs := by
  induction s using octetsTail.induct generalizing octets with
  | case1 => exact ⟨[], rfl⟩
  | case2 a b rest ih =>
    rw [octetsTail, if_pos rfl] at h
    obtain ⟨octet, -, h⟩ := Option.bind_eq_some_iff.mp h
    obtain ⟨octets', hrest, -⟩ := Option.map_eq_some_iff.mp h
    obtain ⟨pairs, rfl⟩ := ih hrest
    exact ⟨(a, b) :: pairs, rfl⟩
  | case3 dot a b rest hdot =>
    rw [octetsTail, if_neg hdot] at h
    nomatch h
  | case4 s hnil hcons =>
    rw [octetsTail] at h
    · nomatch h
    · exact hnil
    · exact hcons

/-- The strings that have octets are pairs with a dot between them. -/
theorem exists_dotted {s octets : Bytes} (h : octetsOf s = some octets) : ∃ pairs, s = dotted pairs := by
  match s with
  | [] => exact ⟨[], rfl⟩
  | [_] => nomatch h
  | a :: b :: rest =>
    obtain ⟨octet, -, h⟩ := Option.bind_eq_some_iff.mp h
    obtain ⟨octets', hrest, -⟩ := Option.map_eq_some_iff.mp h
    obtain ⟨pairs, rfl⟩ := exists_dottedTail hrest
    exact ⟨(a, b) :: pairs, rfl⟩

theorem octetsOf_eq_some_iff (s octets : Bytes) :
    octetsOf s = some octets ↔ ∃ pairs, s = dotted pairs ∧ pairs.mapM readOctet = some octets := by
  constructor
  · intro h
    obtain ⟨pairs, rfl⟩ := exists_dotted h
    exact ⟨pairs, rfl, octetsOf_dotted pairs ▸ h⟩
  · intro h
    obtain ⟨pairs, rfl, h⟩ := h
    rw [octetsOf_dotted, h]

/-- Pairs of digits are read as the bytes that they denote. -/
theorem mapM_readOctet {pairs : List (UInt8 × UInt8)} (h : ∀ pair ∈ pairs, IsOctet pair.1 pair.2) :
    pairs.mapM readOctet = some (pairs.map octetOf) := by
  induction pairs with
  | nil => rfl
  | cons pair pairs ih =>
    rw [mapM_readOctet_cons, stoul_octet (h pair List.mem_cons_self), ih fun p hp => h p (List.mem_cons_of_mem pair hp)]
    rfl

/-- All the pairs are read, or the string is not. -/
theorem mapM_readOctet_isSome_iff (pairs : List (UInt8 × UInt8)) : (∃ octets, pairs.mapM readOctet = some octets) ↔
    ∀ pair ∈ pairs, IsOctet pair.1 pair.2 ∨ IsLooseOctet pair.1 pair.2 := by
  induction pairs with
  | nil => simp
  | cons pair pairs ih =>
    rw [List.forall_mem_cons, ← ih, ← stoul_pair_iff, mapM_readOctet_cons]
    constructor
    · intro h
      obtain ⟨octets, h⟩ := h
      obtain ⟨octet, hoctet, h⟩ := Option.bind_eq_some_iff.mp h
      obtain ⟨octets', hrest, -⟩ := Option.map_eq_some_iff.mp h
      exact ⟨⟨octet, hoctet⟩, octets', hrest⟩
    · intro h
      obtain ⟨⟨octet, hoctet⟩, octets', hrest⟩ := h
      rw [hoctet, hrest]
      exact ⟨_, rfl⟩

/-- The only network id that is parsed is the empty one. -/
theorem strToPtpNetId_some {fuel : Nat} {netId : PtpNetId} (h : strToPtpNetId str fuel = .ok (some netId)) : str = [] := by
  rw [strToPtpNetId, bind_eq_ok_iff] at h
  obtain ⟨vals, hloop, h⟩ := h
  cases fuel with
  | zero => nomatch hloop
  | succ fuel =>
    by_cases hstuck : toInt str.length ≥ 2 ∧ ∃ octet, stoul (str.take 2) 16 = some octet
    · obtain ⟨hn, octet, hoctet⟩ := hstuck
      have hlen := toInt_le str.length
      rw [parseOctetsLoop_zero_diverges hn (by omega) hoctet] at hloop
      nomatch hloop
    · rw [parseOctetsLoop_zero_ok hstuck] at hloop
      by_contra hne
      rw [if_neg hne] at hloop
      obtain rfl := Except.ok.inj hloop
      nomatch h

theorem computes_strToPtpNetId_nil : Computes (strToPtpNetId []) (some ⟨[]⟩) := by
  refine ⟨1, fun fuel hfuel => ?_⟩
  obtain ⟨fuel, rfl⟩ := Nat.exists_eq_succ_of_ne_zero (Nat.ne_zero_of_lt hfuel)
  rw [strToPtpNetId, parseOctetsLoop_end 0 fuel (by decide)]
  rfl

end NetworkingFramework
