import NetworkingFramework.Lemmas.PtpText
import NetworkingFramework.Lemmas.SplitStr

/-!
# Printed paths

What the printing functions return, and what the parsers make of it: an octet is printed in two digits or in one, and only two are
read back.
-/

namespace NetworkingFramework

open Wire CText

/-! ## Octets -/

/-- Octets as they are printed. -/
def printed (octets : Bytes) : Bytes := joined (chars ".") (octets.map fun octet => printNat 16 octet.toNat)

/-- The characters behind the first octet. -/
def printedTail (octets : Bytes) : Bytes := (octets.map fun octet => printNat 16 octet.toNat).flatMap (chars "." ++ ·)

theorem printed_cons (octet : UInt8) (octets : Bytes) :
    printed (octet :: octets) = printNat 16 octet.toNat ++ printedTail octets := rfl

theorem printedTail_cons (octet : UInt8) (octets : Bytes) :
    printedTail (octet :: octets) = '.'.toUInt8 :: (printNat 16 octet.toNat ++ printedTail octets) := rfl

theorem printOctetsLoop_tail {i : Nat} (hpos : 0 < i) (res : Bytes) {octets : Bytes} (h : i + octets.length < 2 ^ 31) :
    printOctetsLoop i res octets = .ok (res ++ printedTail octets) := by
  induction octets generalizing i res with
  | nil => rw [printOctetsLoop, printedTail, List.map_nil, List.flatMap_nil, List.append_nil]
  | cons octet octets ih =>
    rw [List.length_cons] at h
    rw [printOctetsLoop, addInt_of_lt (by omega), ok_bind, if_pos hpos, ih (Nat.succ_pos i) _ (by omega), printedTail_cons,
      chars_dot]
    simp

theorem printOctetsLoop_overflow {i : Nat} (hi : i < 2 ^ 31) (res : Bytes) {octets : Bytes} (h : ¬i + octets.length < 2 ^ 31) :
    printOctetsLoop i res octets = .error .unrepresentable := by
  induction octets generalizing i res with
  | nil => exact absurd hi h
  | cons octet octets ih =>
    rw [List.length_cons] at h
    unfold printOctetsLoop
    by_cases hnext : i + 1 < 2 ^ 31
    · rw [addInt_of_lt hnext, ok_bind, ih hnext _ (by omega)]
    · rw [addInt, if_neg hnext]
      rfl

/-- Octets are printed when an `int` can count them. -/
theorem printOctetsLoop_start (octets : Bytes) :
    printOctetsLoop 0 [] octets = if octets.length < 2 ^ 31 then .ok (printed octets) else .error .unrepresentable := by
  split
  · rename_i h
    cases octets with
    | nil => rfl
    | cons octet octets =>
      rw [List.length_cons] at h
      rw [printOctetsLoop, addInt_of_lt (by decide), ok_bind, printOctetsLoop_tail (by decide) _ (by omega)]
      rfl
  · rename_i h
    exact printOctetsLoop_overflow (by decide) [] (by omega)

theorem ptpAddrToStr_ok {addr : PtpAddr} {str : Bytes} (h : ptpAddrToStr addr = .ok str) : str = printed addr.octets := by
  rw [ptpAddrToStr, printOctetsLoop_start] at h
  split at h
  · exact (Except.ok.inj h).symm
  · nomatch h

theorem ptpNetIdToStr_ok {netId : PtpNetId} {str : Bytes} (h : ptpNetIdToStr netId = .ok str) : str = printed netId.vals :=
  @ptpAddrToStr_ok ⟨netId.vals⟩ str h

/-- No character other than digits and dots is printed. -/
theorem not_mem_printedTail {c : UInt8} (hc : isDigit 16 c = false) (hdot : c ≠ '.'.toUInt8) (octets : Bytes) :
    c ∉ printedTail octets := by
  induction octets with
  | nil => exact List.not_mem_nil
  | cons octet octets ih =>
    rw [printedTail_cons]
    simp only [List.mem_cons, List.mem_append, not_or]
    refine ⟨hdot, fun hmem => ?_, ih⟩
    rw [isDigit_of_mem_printNat (by decide) (by decide) hmem] at hc
    nomatch hc

theorem not_mem_printed {c : UInt8} (hc : isDigit 16 c = false) (hdot : c ≠ '.'.toUInt8) (octets : Bytes) : c ∉ printed octets := by
  cases octets with
  | nil => exact List.not_mem_nil
  | cons octet octets =>
    rw [printed_cons, List.mem_append, not_or]
    refine ⟨fun hmem => ?_, not_mem_printedTail hc hdot octets⟩
    rw [isDigit_of_mem_printNat (by decide) (by decide) hmem] at hc
    nomatch hc

theorem printed_eq_nil_iff (octets : Bytes) : printed octets = [] ↔ octets = [] := by
  cases octets with
  | nil => simp [printed, joined]
  | cons octet octets => simp [printed_cons, printNat_ne_nil]

/-! ## Octets read back -/

/-- The two digits of an octet. -/
def digitsOf (octet : UInt8) : UInt8 × UInt8 :=
  ((Nat.digitChar (octet.toNat / 16)).toUInt8, (Nat.digitChar (octet.toNat % 16)).toUInt8)

theorem printNat_large {octet : UInt8} (h : 16 ≤ octet.toNat) :
    printNat 16 octet.toNat = [(digitsOf octet).1, (digitsOf octet).2] := by
  have hlt := octet.toNat_lt
  rw [printNat_of_le (by decide) h, printNat_of_lt (by omega)]
  rfl

theorem length_printNat (octet : UInt8) : (printNat 16 octet.toNat).length = if 16 ≤ octet.toNat then 2 else 1 := by
  split
  · rename_i h
    rw [printNat_large h]
    rfl
  · rename_i h
    rw [printNat_of_lt (Nat.lt_of_not_le h)]
    rfl

theorem isOctet_digitsOf (octet : UInt8) : IsOctet (digitsOf octet).1 (digitsOf octet).2 := by
  have hlt := octet.toNat_lt
  exact ⟨isDigit_digitChar (Nat.le_refl 16) (by omega), isDigit_digitChar (Nat.le_refl 16) (by omega)⟩

theorem octetOf_digitsOf {octet : UInt8} (h : 16 ≤ octet.toNat) : octetOf (digitsOf octet) = octet := by
  rw [octetOf, ← printNat_large h, numeral_printNat (by decide) (by decide), UInt8.ofNat_toNat]

theorem printedTail_large {octets : Bytes} (h : ∀ octet ∈ octets, 16 ≤ octet.toNat) :
    printedTail octets = dottedTail (octets.map digitsOf) := by
  induction octets with
  | nil => rfl
  | cons octet octets ih =>
    rw [printedTail_cons, printNat_large (h octet List.mem_cons_self), ih fun o ho => h o (List.mem_cons_of_mem octet ho)]
    rfl

theorem printed_large {octets : Bytes} (h : ∀ octet ∈ octets, 16 ≤ octet.toNat) :
    printed octets = dotted (octets.map digitsOf) := by
  cases octets with
  | nil => rfl
  | cons octet octets =>
    rw [printed_cons, printNat_large (h octet List.mem_cons_self),
      printedTail_large fun o ho => h o (List.mem_cons_of_mem octet ho)]
    rfl

/-- Octets of two digits are read back. -/
theorem octetsOf_printed {octets : Bytes} (h : ∀ octet ∈ octets, 16 ≤ octet.toNat) : octetsOf (printed octets) = some octets := by
  have hdigits : ∀ pair ∈ octets.map digitsOf, IsOctet pair.1 pair.2 := by
    intro pair hmem
    obtain ⟨octet, -, rfl⟩ := List.mem_map.mp hmem
    exact isOctet_digitsOf octet
  have hback : (octets.map digitsOf).map octetOf = octets := by
    rw [List.map_map]
    exact (List.map_congr_left fun octet hmem => octetOf_digitsOf (h octet hmem)).trans (List.map_id octets)
  rw [printed_large h, octetsOf_dotted, mapM_readOctet hdigits, hback]

theorem length_printedTail_le (octets : Bytes) : (printedTail octets).length ≤ 3 * octets.length := by
  induction octets with
  | nil => exact Nat.le_refl _
  | cons octet octets ih =>
    rw [printedTail_cons, List.length_cons, List.length_append, length_printNat, List.length_cons]
    split <;> omega

/-- Only octets of two digits take as much room. -/
theorem large_of_length_printedTail {octets : Bytes} (h : (printedTail octets).length = 3 * octets.length) :
    ∀ octet ∈ octets, 16 ≤ octet.toNat := by
  induction octets with
  | nil => exact fun octet hmem => absurd hmem List.not_mem_nil
  | cons octet octets ih =>
    have hle := length_printedTail_le octets
    rw [printedTail_cons, List.length_cons, List.length_append, length_printNat, List.length_cons] at h
    rw [List.forall_mem_cons]
    split at h
    · rename_i hlarge
      exact ⟨hlarge, ih (by omega)⟩
    · omega

/-- An octet of one digit is not read back, whatever stands around it. -/
theorem large_of_octetsOf_printed {octets : Bytes} (h : octetsOf (printed octets) = some octets) :
    (∀ octet ∈ octets, 16 ≤ octet.toNat) ∧ (octets ≠ [] → (printed octets).length + 1 = 3 * octets.length) := by
  obtain ⟨pairs, hpairs, hread⟩ := (octetsOf_eq_some_iff _ _).mp h
  have hlen := length_of_mapM_readOctet hread
  cases octets with
  | nil => exact ⟨fun octet hmem => absurd hmem List.not_mem_nil, fun hne => absurd rfl hne⟩
  | cons octet octets =>
    obtain ⟨pair, pairs, rfl⟩ : ∃ p ps, pairs = p :: ps := List.exists_cons_of_ne_nil (by rintro rfl; nomatch hlen)
    have htotal := congrArg List.length hpairs
    have hle := length_printedTail_le octets
    rw [printed_cons, dotted_cons, List.length_append, length_printNat, List.length_cons, List.length_cons, length_dottedTail]
      at htotal
    rw [List.length_cons, List.length_cons] at hlen
    have hfirst : 16 ≤ octet.toNat := by
      by_contra hsmall
      rw [if_neg hsmall] at htotal
      omega
    rw [if_pos hfirst] at htotal
    refine ⟨List.forall_mem_cons.mpr ⟨hfirst, large_of_length_printedTail (by omega)⟩, fun _ => ?_⟩
    rw [printed_cons, List.length_append, length_printNat, if_pos hfirst, List.length_cons]
    omega

/-- Octets that come back: each of them has two digits, and there are so few that the length of what is printed is an `int`. -/
def ComesBack (octets : Bytes) : Prop := (∀ octet ∈ octets, 16 ≤ octet.toNat) ∧ octets.length ≤ 715827882

instance (octets : Bytes) : Decidable (ComesBack octets) := @instDecidableAnd _ _ (List.decidableBAll _ _) (Nat.decLe _ _)

/-- An address that is printed and parsed. -/
theorem addr_comesBack {addr : PtpAddr} (h : ComesBack addr.octets) :
    ptpAddrToStr addr = .ok (printed addr.octets) ∧ Computes (strToPtpAddr (printed addr.octets)) (some addr) := by
  obtain ⟨hlarge, hcount⟩ := h
  have hread := octetsOf_printed hlarge
  have hlen : (printed addr.octets).length < 2 ^ 31 := by
    by_cases hnil : addr.octets = []
    · rw [hnil]
      decide
    · have htotal := (large_of_octetsOf_printed hread).2 hnil
      omega
  constructor
  · rw [ptpAddrToStr, printOctetsLoop_start, if_pos (by omega)]
  · have hcomputes := computes_strToPtpAddr (printed addr.octets)
    rw [if_pos hlen, hread] at hcomputes
    exact hcomputes

/-- No other address comes back. -/
theorem comesBack_of_addr {addr : PtpAddr} {str : Bytes} {fuel : Nat} (hstr : ptpAddrToStr addr = .ok str)
    (hback : strToPtpAddr str fuel = .ok (some addr)) : ComesBack addr.octets := by
  obtain rfl := ptpAddrToStr_ok hstr
  have hresult := (computes_strToPtpAddr (printed addr.octets)).eq_of_ok (steady_strToPtpAddr _) hback
  split at hresult
  · rename_i hlen
    have hread : octetsOf (printed addr.octets) = some addr.octets := by
      obtain ⟨octets, hoctets, haddr⟩ := Option.map_eq_some_iff.mp hresult.symm
      rw [hoctets, ← haddr]
    obtain ⟨hlarge, htotal⟩ := large_of_octetsOf_printed hread
    refine ⟨hlarge, ?_⟩
    by_cases hnil : addr.octets = []
    · rw [hnil]
      decide
    · have htotal := htotal hnil
      omega
  · nomatch hresult

/-- A network id that is printed and parsed. -/
theorem netId_comesBack {netId : PtpNetId} (h : netId.vals = []) :
    ptpNetIdToStr netId = .ok [] ∧ Computes (strToPtpNetId []) (some netId) := by
  obtain ⟨vals⟩ := netId
  obtain rfl : vals = [] := h
  exact ⟨rfl, computes_strToPtpNetId_nil⟩

/-- No other network id comes back. -/
theorem nil_of_netId {netId : PtpNetId} {str : Bytes} {fuel : Nat} (hstr : ptpNetIdToStr netId = .ok str)
    (hback : strToPtpNetId str fuel = .ok (some netId)) : netId.vals = [] := by
  have hprinted := ptpNetIdToStr_ok hstr
  rw [strToPtpNetId_some hback] at hprinted
  exact (printed_eq_nil_iff netId.vals).mp hprinted.symm

/-! ## Actions -/

/-- The arrow between two addresses or network ids. -/
theorem marks_arrow : Marks '>'.toUInt8 (chars " -") (chars " ") (chars " -> ") := ⟨by decide, by decide⟩

/-- The semicolon between two actions. -/
theorem marks_semicolon : Marks ';'.toUInt8 (chars " ") (chars " ") (chars " ; ") := ⟨by decide, by decide⟩

section
variable {α : Type} {print : α → Except Fault Bytes} {parse : Bytes → Nat → Except Fault (Option α)} {src dest : α}

/-- Both sides of an arrow come back. -/
theorem arrow_comesBack {srcStr destStr : Bytes} (hsrc : print src = .ok srcStr) (hdest : print dest = .ok destStr)
    (hfree : ∀ s ∈ [srcStr, destStr], '>'.toUInt8 ∉ s) (hsrcBack : Computes (parse srcStr) (some src))
    (hdestBack : Computes (parse destStr) (some dest)) :
    printArrow print src dest = .ok (joined (chars " -> ") [srcStr, destStr]) ∧
      Computes (parseArrow parse (joined (chars " -> ") [srcStr, destStr])) (some (src, dest)) := by
  constructor
  · rw [printArrow, hsrc, hdest]
    simp [joined]
  · obtain ⟨enough₁, hsplit⟩ := marks_arrow.computes_splitStr hfree
    obtain ⟨enough₂, hsrcBack⟩ := hsrcBack
    obtain ⟨enough₃, hdestBack⟩ := hdestBack
    refine ⟨enough₁ + enough₂ + enough₃, fun fuel hfuel => ?_⟩
    rw [parseArrow, hsplit fuel (by omega), ok_bind]
    simp only [hsrcBack fuel (by omega), hdestBack fuel (by omega), ok_bind]
    rfl

/-- What is read back around an arrow was printed on its two sides. -/
theorem sides_of_arrow {str : Bytes} {fuel : Nat} (hfree : ∀ a s, print a = .ok s → '>'.toUInt8 ∉ s)
    (hstr : printArrow print src dest = .ok str) {sides : α × α} (hback : parseArrow parse str fuel = .ok (some sides)) :
    ∃ srcStr destStr, print src = .ok srcStr ∧ print dest = .ok destStr ∧ parse srcStr fuel = .ok (some sides.1) ∧
      parse destStr fuel = .ok (some sides.2) := by
  rw [printArrow, bind_eq_ok_iff] at hstr
  obtain ⟨srcStr, hsrc, hstr⟩ := hstr
  rw [bind_eq_ok_iff] at hstr
  obtain ⟨destStr, hdest, hstr⟩ := hstr
  have hfree' : ∀ s ∈ [srcStr, destStr], '>'.toUInt8 ∉ s := by
    intro s hmem
    rcases List.mem_cons.mp hmem with rfl | hmem
    · exact hfree src s hsrc
    · rw [List.mem_singleton.mp hmem]
      exact hfree dest destStr hdest
  have hjoined : str = joined (chars " -> ") [srcStr, destStr] := by
    rw [← Except.ok.inj hstr]
    simp [joined]
  rw [hjoined, parseArrow, bind_eq_ok_iff] at hback
  obtain ⟨tokens, hsplit, hback⟩ := hback
  obtain rfl := marks_arrow.eq_of_splitStr_ok hfree' hsplit
  simp only [bind_eq_ok_iff] at hback
  obtain ⟨srcBack, hsrcBack, hback⟩ := hback
  cases srcBack with
  | none => cases hback
  | some src' =>
    simp only [bind_eq_ok_iff] at hback
    obtain ⟨destBack, hdestBack, hback⟩ := hback
    cases destBack with
    | none => cases hback
    | some dest' =>
      obtain rfl := Option.some.inj (Except.ok.inj hback)
      exact ⟨srcStr, destStr, hsrc, hdest, hsrcBack, hdestBack⟩

end

/-- An action whose addresses come back, or whose network ids are empty. -/
def PtpAction.ComesBack (action : PtpAction) : Prop :=
  match action.val with
  | .endpoint _ => True
  | .localConn localConn =>
    NetworkingFramework.ComesBack localConn.srcAddr.octets ∧ NetworkingFramework.ComesBack localConn.destAddr.octets
  | .netSwitch netSwitch => netSwitch.srcId.vals = [] ∧ netSwitch.destId.vals = []

instance : (action : PtpAction) → Decidable action.ComesBack
  | ⟨_, .endpoint _⟩ => .isTrue trivial
  | ⟨_, .localConn _⟩ => @instDecidableAnd _ _ (instDecidableComesBack _) (instDecidableComesBack _)
  | ⟨_, .netSwitch _⟩ => inferInstanceAs (Decidable (_ = [] ∧ _ = []))

theorem strToPtpAction_endpoint (str : Bytes) (fuel : Nat) : strToPtpAction (chars "endpoint " ++ str) fuel =
    .ok ((strToPtpEndpoint str).map fun endpoint => ⟨.endpoint, .endpoint endpoint⟩) := rfl

/-- The action for a connection between two addresses. -/
def connAction (sides : PtpAddr × PtpAddr) : PtpAction := ⟨.localConn, .localConn ⟨sides.1, sides.2⟩⟩

/-- The action for a switch between two networks. -/
def switchAction (sides : PtpNetId × PtpNetId) : PtpAction := ⟨.netSwitch, .netSwitch ⟨sides.1, sides.2⟩⟩

theorem connAction_injective : Function.Injective connAction := by
  rintro ⟨src, dest⟩ ⟨src', dest'⟩ h
  cases h
  rfl

theorem switchAction_injective : Function.Injective switchAction := by
  rintro ⟨src, dest⟩ ⟨src', dest'⟩ h
  cases h
  rfl

theorem strToPtpAction_conn (str : Bytes) (fuel : Nat) :
    strToPtpAction (chars "conn " ++ str) fuel = (parseArrow strToPtpAddr str fuel).map (Option.map connAction) := by
  have hconn : strToPtpAction (chars "conn " ++ str) fuel = (strToPtpLocalConn str fuel >>= fun localConn =>
      .ok (localConn.map fun localConn => ⟨.localConn, .localConn localConn⟩)) := rfl
  rw [hconn, strToPtpLocalConn]
  cases parseArrow strToPtpAddr str fuel with
  | error e => rfl
  | ok sides => cases sides <;> rfl

theorem strToPtpAction_switch (str : Bytes) (fuel : Nat) :
    strToPtpAction (chars "switch " ++ str) fuel = (parseArrow strToPtpNetId str fuel).map (Option.map switchAction) := by
  have hswitch : strToPtpAction (chars "switch " ++ str) fuel = (strToPtpNetSwitch str fuel >>= fun netSwitch =>
      .ok (netSwitch.map fun netSwitch => ⟨.netSwitch, .netSwitch netSwitch⟩)) := rfl
  rw [hswitch, strToPtpNetSwitch]
  cases parseArrow strToPtpNetId str fuel with
  | error e => rfl
  | ok sides => cases sides <;> rfl

section
variable {α : Type} {print : α → Except Fault Bytes} {parse : Bytes → Nat → Except Fault (Option α)} {src dest : α} {key : Bytes}
  {wrap : α × α → PtpAction}
  (hparse : ∀ str fuel, strToPtpAction (key ++ str) fuel = (parseArrow parse str fuel).map (Option.map wrap))
include hparse

/-- An action comes back when its two sides do. -/
theorem arrowAction_comesBack {srcStr destStr : Bytes}
    (hprint : ∀ str, printArrow print src dest = .ok str → ptpActionToStr (wrap (src, dest)) = .ok (some (key ++ str)))
    (hsrc : print src = .ok srcStr) (hdest : print dest = .ok destStr) (hfree : ∀ s ∈ [srcStr, destStr], '>'.toUInt8 ∉ s)
    (hsrcBack : Computes (parse srcStr) (some src)) (hdestBack : Computes (parse destStr) (some dest)) :
    ∃ str, ptpActionToStr (wrap (src, dest)) = .ok (some str) ∧ Computes (strToPtpAction str) (some (wrap (src, dest))) := by
  obtain ⟨hstr, hback⟩ := arrow_comesBack hsrc hdest hfree hsrcBack hdestBack
  refine ⟨_, hprint _ hstr, ?_⟩
  have hmap := hback.map (Option.map wrap)
  simp only [← hparse] at hmap
  exact hmap

/-- Both sides of an action that comes back have come back. -/
theorem sides_of_arrowAction {str : Bytes} {fuel : Nat} (hwrap : Function.Injective wrap)
    (hfree : ∀ a s, print a = .ok s → '>'.toUInt8 ∉ s) (hstr : printArrow print src dest = .ok str)
    (hback : strToPtpAction (key ++ str) fuel = .ok (some (wrap (src, dest)))) :
    ∃ srcStr destStr, print src = .ok srcStr ∧ print dest = .ok destStr ∧ parse srcStr fuel = .ok (some src) ∧
      parse destStr fuel = .ok (some dest) := by
  rw [hparse, map_eq_ok_iff] at hback
  obtain ⟨read, hread, hback⟩ := hback
  obtain ⟨sides, rfl, hsides⟩ := Option.map_eq_some_iff.mp hback
  obtain rfl := hwrap hsides
  exact sides_of_arrow hfree hstr hread

end

/-- A character that is in nothing printed on the two sides of an arrow, and not in the arrow. -/
theorem not_mem_printArrow {α : Type} {print : α → Except Fault Bytes} {src dest : α} {str : Bytes} {c : UInt8}
    (hc : ∀ a s, print a = .ok s → c ∉ s) (harrow : c ∉ chars " -> ") (h : printArrow print src dest = .ok str) : c ∉ str := by
  rw [printArrow, bind_eq_ok_iff] at h
  obtain ⟨srcStr, hsrc, h⟩ := h
  rw [bind_eq_ok_iff] at h
  obtain ⟨destStr, hdest, h⟩ := h
  rw [← Except.ok.inj h]
  simp only [List.mem_append, not_or]
  exact ⟨⟨hc src srcStr hsrc, harrow⟩, hc dest destStr hdest⟩

theorem not_mem_ptpAddrToStr {c : UInt8} (hc : isDigit 16 c = false) (hdot : c ≠ '.'.toUInt8) (addr : PtpAddr) (str : Bytes)
    (h : ptpAddrToStr addr = .ok str) : c ∉ str := by
  rw [ptpAddrToStr_ok h]
  exact not_mem_printed hc hdot addr.octets

theorem not_mem_ptpNetIdToStr {c : UInt8} (hc : isDigit 16 c = false) (hdot : c ≠ '.'.toUInt8) (netId : PtpNetId) (str : Bytes)
    (h : ptpNetIdToStr netId = .ok str) : c ∉ str := by
  rw [ptpNetIdToStr_ok h]
  exact not_mem_printed hc hdot netId.vals

/-- The three forms of a printed action. -/
theorem ptpActionToStr_cases {action : PtpAction} {str : Bytes} (h : ptpActionToStr action = .ok (some str)) :
    (∃ endpoint name, action = ⟨.endpoint, .endpoint endpoint⟩ ∧ ptpEndpointToStr endpoint = some name ∧
      str = chars "endpoint " ++ name) ∨
    (∃ localConn sides, action = ⟨.localConn, .localConn localConn⟩ ∧ ptpLocalConnToStr localConn = .ok sides ∧
      str = chars "conn " ++ sides) ∨
    (∃ netSwitch sides, action = ⟨.netSwitch, .netSwitch netSwitch⟩ ∧ ptpNetSwitchToStr netSwitch = .ok sides ∧
      str = chars "switch " ++ sides) := by
  obtain ⟨type, val⟩ := action
  cases type with
  | endpoint =>
    cases val with
    | endpoint endpoint =>
      obtain ⟨name, hname, rfl⟩ := Option.map_eq_some_iff.mp (Except.ok.inj h)
      exact .inl ⟨endpoint, name, rfl, hname, rfl⟩
    | localConn localConn => nomatch h
    | netSwitch netSwitch => nomatch h
  | localConn =>
    cases val with
    | endpoint endpoint => nomatch h
    | localConn localConn =>
      have hbind : (ptpLocalConnToStr localConn >>= fun sides => .ok (some (chars "conn " ++ sides))) = .ok (some str) := h
      obtain ⟨sides, hsides, hstr⟩ := (bind_eq_ok_iff ..).mp hbind
      obtain rfl := Option.some.inj (Except.ok.inj hstr)
      exact .inr (.inl ⟨localConn, sides, rfl, hsides, rfl⟩)
    | netSwitch netSwitch => nomatch h
  | netSwitch =>
    cases val with
    | endpoint endpoint => nomatch h
    | localConn localConn => nomatch h
    | netSwitch netSwitch =>
      have hbind : (ptpNetSwitchToStr netSwitch >>= fun sides => .ok (some (chars "switch " ++ sides))) = .ok (some str) := h
      obtain ⟨sides, hsides, hstr⟩ := (bind_eq_ok_iff ..).mp hbind
      obtain rfl := Option.some.inj (Except.ok.inj hstr)
      exact .inr (.inr ⟨netSwitch, sides, rfl, hsides, rfl⟩)

theorem ptpEndpointToStr_cases {endpoint : PtpEndpoint} {name : Bytes} (h : ptpEndpointToStr endpoint = some name) :
    name = chars "start" ∨ name = chars "end" := by
  unfold ptpEndpointToStr at h
  split at h
  · exact .inl (Option.some.inj h).symm
  · split at h
    · exact .inr (Option.some.inj h).symm
    · nomatch h

/-- No semicolon is printed in an action. -/
theorem semicolon_not_mem {action : PtpAction} {str : Bytes} (h : ptpActionToStr action = .ok (some str)) :
    ';'.toUInt8 ∉ str := by
  rcases ptpActionToStr_cases h with ⟨endpoint, name, -, hname, rfl⟩ | ⟨localConn, sides, -, hsides, rfl⟩ |
    ⟨netSwitch, sides, -, hsides, rfl⟩
  · rcases ptpEndpointToStr_cases hname with rfl | rfl <;> decide
  · rw [List.mem_append, not_or]
    exact ⟨by decide, not_mem_printArrow (not_mem_ptpAddrToStr (by decide) (by decide)) (by decide) hsides⟩
  · rw [List.mem_append, not_or]
    exact ⟨by decide, not_mem_printArrow (not_mem_ptpNetIdToStr (by decide) (by decide)) (by decide) hsides⟩

/-- Octets have no arrow in them. -/
theorem arrow_not_mem {src dest : Bytes} : ∀ s ∈ [printed src, printed dest], '>'.toUInt8 ∉ s := by
  intro s hmem
  have hnot := @not_mem_printed '>'.toUInt8 (by decide) (by decide)
  rcases List.mem_cons.mp hmem with rfl | hmem
  · exact hnot src
  · rw [List.mem_singleton.mp hmem]
    exact hnot dest

/-- An action that is printed and parsed. -/
theorem action_comesBack {action : PtpAction} (htagged : action.Tagged)
    (hends : ∀ e, action.val = .endpoint e → e.type = ptpEndpointStart ∨ e.type = ptpEndpointEnd) (h : action.ComesBack) :
    ∃ str, ptpActionToStr action = .ok (some str) ∧ Computes (strToPtpAction str) (some action) := by
  match action, htagged, hends, h with
  | ⟨.endpoint, .endpoint ⟨type⟩⟩, _, hends, _ =>
    rcases hends _ rfl with rfl | rfl
    · exact ⟨chars "endpoint start", rfl, .of_forall fun fuel => strToPtpAction_endpoint (chars "start") fuel⟩
    · exact ⟨chars "endpoint end", rfl, .of_forall fun fuel => strToPtpAction_endpoint (chars "end") fuel⟩
  | ⟨.localConn, .localConn ⟨srcAddr, destAddr⟩⟩, _, _, ⟨hsrc, hdest⟩ =>
    obtain ⟨hsrcStr, hsrcBack⟩ := addr_comesBack hsrc
    obtain ⟨hdestStr, hdestBack⟩ := addr_comesBack hdest
    refine arrowAction_comesBack strToPtpAction_conn (fun str hstr => ?_) hsrcStr hdestStr arrow_not_mem hsrcBack hdestBack
    exact congrArg (· >>= fun sides => Except.ok (some (chars "conn " ++ sides))) hstr
  | ⟨.netSwitch, .netSwitch ⟨srcId, destId⟩⟩, _, _, ⟨hsrc, hdest⟩ =>
    obtain ⟨hsrcStr, hsrcBack⟩ := netId_comesBack hsrc
    obtain ⟨hdestStr, hdestBack⟩ := netId_comesBack hdest
    refine arrowAction_comesBack strToPtpAction_switch (fun str hstr => ?_) hsrcStr hdestStr (by simp) hsrcBack hdestBack
    exact congrArg (· >>= fun sides => Except.ok (some (chars "switch " ++ sides))) hstr

/-- No other action comes back. -/
theorem comesBack_of_action {action : PtpAction} {str : Bytes} {fuel : Nat} (hstr : ptpActionToStr action = .ok (some str))
    (hback : strToPtpAction str fuel = .ok (some action)) : action.ComesBack := by
  rcases ptpActionToStr_cases hstr with ⟨endpoint, name, rfl, -, -⟩ | ⟨localConn, sides, rfl, hsides, rfl⟩ |
    ⟨netSwitch, sides, rfl, hsides, rfl⟩
  · trivial
  · obtain ⟨srcStr, destStr, hsrc, hdest, hsrcBack, hdestBack⟩ := sides_of_arrowAction strToPtpAction_conn connAction_injective
      (not_mem_ptpAddrToStr (by decide) (by decide)) hsides hback
    exact ⟨comesBack_of_addr hsrc hsrcBack, comesBack_of_addr hdest hdestBack⟩
  · obtain ⟨srcStr, destStr, hsrc, hdest, hsrcBack, hdestBack⟩ := sides_of_arrowAction strToPtpAction_switch
      switchAction_injective (not_mem_ptpNetIdToStr (by decide) (by decide)) hsides hback
    exact ⟨nil_of_netId hsrc hsrcBack, nil_of_netId hdest hdestBack⟩

/-! ## Paths -/

/-- The strings that some actions are printed as. -/
def PrintedAs (list : List PtpAction) (strs : List Bytes) : Prop :=
  List.Forall₂ (fun action str => ptpActionToStr action = .ok (some str)) list strs

theorem ptpActionListToStrLoop_tail {list : List PtpAction} {strs : List Bytes} (h : PrintedAs list strs) {i : Nat} (hpos : 0 < i)
    (res : Bytes) (hlen : i + list.length < 2 ^ 31) :
    ptpActionListToStrLoop i res list = .ok (some (res ++ strs.flatMap (chars " ; " ++ ·))) := by
  induction h generalizing i res with
  | nil => rw [ptpActionListToStrLoop, List.flatMap_nil, List.append_nil]
  | @cons action str list strs hstr _ ih =>
    rw [List.length_cons] at hlen
    have hrest := ih (i := i + 1) (Nat.succ_pos i) (res ++ chars " ; " ++ str) (by omega)
    rw [ptpActionListToStrLoop, hstr, ok_bind, if_pos hpos]
    simp only [addInt_of_lt (show i + 1 < 2 ^ 31 by omega), ok_bind, hrest]
    simp

/-- What the loop returns, it returns for actions that are all printed and that an `int` can count. -/
theorem printedAs_of_loop {list : List PtpAction} {i : Nat} (hi : i < 2 ^ 31) {res out : Bytes}
    (h : ptpActionListToStrLoop i res list = .ok (some out)) : i + list.length < 2 ^ 31 ∧ ∃ strs, PrintedAs list strs := by
  induction list generalizing i res with
  | nil => exact ⟨hi, [], .nil⟩
  | cons action list ih =>
    rw [ptpActionListToStrLoop, bind_eq_ok_iff] at h
    obtain ⟨str, hstr, h⟩ := h
    cases str with
    | none => cases h
    | some str =>
      obtain ⟨j, hint, h⟩ := (bind_eq_ok_iff ..).mp h
      unfold addInt at hint
      split at hint
      · rename_i hnext
        obtain rfl := Except.ok.inj hint
        obtain ⟨hlen, strs, hstrs⟩ := ih hnext h
        rw [List.length_cons]
        exact ⟨by omega, str :: strs, .cons hstr hstrs⟩
      · cases hint

theorem ptpActionListToStr_eq {list : List PtpAction} {strs : List Bytes} (h : PrintedAs list strs) (hlen : list.length < 2 ^ 31) :
    ptpActionListToStr list = .ok (some (joined (chars " ; ") strs)) := by
  cases h with
  | nil => rfl
  | @cons action str list strs hstr hstrs =>
    rw [List.length_cons] at hlen
    have hrest := ptpActionListToStrLoop_tail hstrs (i := 1) (by decide) ([] ++ str) (by omega)
    rw [ptpActionListToStr, ptpActionListToStrLoop, hstr, ok_bind]
    exact hrest

/-- Actions that are parsed one after another. -/
theorem strToPtpActionListLoop_eq_iff (fuel : Nat) (list out : List PtpAction) (strs : List Bytes) :
    strToPtpActionListLoop fuel list strs = .ok (some out) ↔
      ∃ actions, List.Forall₂ (fun str action => strToPtpAction str fuel = .ok (some action)) strs actions ∧
        out = list ++ actions := by
  induction strs generalizing list with
  | nil =>
    unfold strToPtpActionListLoop
    constructor
    · intro h
      exact ⟨[], .nil, by rw [List.append_nil]; exact (Option.some.inj (Except.ok.inj h)).symm⟩
    · intro h
      obtain ⟨actions, h, rfl⟩ := h
      cases h
      rw [List.append_nil]
  | cons str strs ih =>
    rw [strToPtpActionListLoop, bind_eq_ok_iff]
    constructor
    · intro h
      obtain ⟨action, haction, h⟩ := h
      cases action with
      | none => nomatch h
      | some action =>
        obtain ⟨actions, hactions, rfl⟩ := (ih _).mp h
        exact ⟨action :: actions, .cons haction hactions, List.append_assoc ..⟩
    · intro h
      obtain ⟨actions, h, rfl⟩ := h
      cases h with
      | @cons _ action _ actions haction hactions =>
        exact ⟨some action, haction, (ih _).mpr ⟨actions, hactions, by simp⟩⟩

end NetworkingFramework
