import NetworkingFramework.Lemmas.HeaderCodecs
import NetworkingFramework.Lemmas.Ip4Text

/-!
# IPv4 addresses as text

An address that is printed is parsed back; and which other strings the parser takes for one.
-/

namespace NetworkingFramework

open Wire CText

/-- A decimal number of an octet. -/
def IsDecimal (d : Bytes) : Prop := d ≠ [] ∧ (∀ c ∈ d, isDigit 10 c = true) ∧ numeral 10 d < 256

/-- A string of four decimal numbers with a dot between them, those of the octets of an address. -/
def IsAddress (s : Bytes) (a : Ip4Addr) : Prop :=
  ∃ ds, ds.length = 4 ∧ s = joined (chars ".") ds ∧ (∀ d ∈ ds, IsDecimal d) ∧
    a.octets.toList = ds.map fun d => UInt8.ofNat (numeral 10 d)

/-- A string that is taken for an address and is none: up to a null character, there are four numbers in it, with white space and
signs in front of them, of any value that is converted, and anything behind the last. -/
def IsLooseAddress (s : Bytes) : Prop :=
  (∃ ws numbers rest, ws.length = 4 ∧ cStr s = joined (chars ".") ws ++ rest ∧ List.Forall₂ ConvertsTo ws numbers ∧
    NoDigit 10 rest) ∧ ¬∃ a, IsAddress s a

/-- A string with a number that is too large to be converted, behind fewer than four that are not. -/
def Overflows (s : Bytes) : Prop :=
  ∃ (ws : List Bytes) (w rest : Bytes), ws.length < 4 ∧ cStr s = ws.flatMap (· ++ chars ".") ++ (w ++ rest) ∧
    (∀ v ∈ ws, ∃ number, ConvertsTo v number) ∧ TooLarge w ∧ NoDigit 10 rest

/-- The parser returns on a string, with the address that it is if it is one, and without a value otherwise. -/
def MeetsAddressGrammar (s : Bytes) : Prop := ∃ r, strToIp4Addr s = .ok r ∧ ∀ a, r = some a ↔ IsAddress s a

/-! ## Addresses -/

theorem isDecimal_convertsTo {d : Bytes} (h : IsDecimal d) : ConvertsTo d (UInt32.ofNat (numeral 10 d)) := by
  obtain ⟨hne, hdigits, hvalue⟩ := h
  have htext : NumberText 10 ([] ++ d) false (numeral 10 d) := .unsigned (by simp) hne hdigits
  exact ⟨false, numeral 10 d, htext, by omega, rfl⟩

theorem forall₂_map {α β : Type} {R : α → β → Prop} {f : α → β} {as : List α} (h : ∀ a ∈ as, R a (f a)) :
    List.Forall₂ R as (as.map f) := by
  induction as with
  | nil => exact .nil
  | cons a as ih => exact .cons (h a List.mem_cons_self) (ih fun b hb => h b (List.mem_cons_of_mem a hb))

/-- No character other than digits and dots. -/
theorem mem_joined_decimals {ds : List Bytes} (h : ∀ d ∈ ds, IsDecimal d) {c : UInt8} (hc : c ∈ joined (chars ".") ds) :
    isDigit 10 c = true ∨ c = '.'.toUInt8 := by
  cases ds with
  | nil => exact absurd hc List.not_mem_nil
  | cons d ds =>
    rcases List.mem_append.mp hc with hc | hc
    · exact .inl ((h d List.mem_cons_self).2.1 c hc)
    · obtain ⟨d', hmem, hc⟩ := List.mem_flatMap.mp hc
      rcases List.mem_append.mp hc with hc | hc
      · exact .inr (List.mem_singleton.mp hc)
      · exact .inl ((h d' (List.mem_cons_of_mem d hmem)).2.1 c hc)

theorem IsAddress.mem {s : Bytes} {a : Ip4Addr} (h : IsAddress s a) {c : UInt8} (hc : c ∈ s) :
    isDigit 10 c = true ∨ c = '.'.toUInt8 := by
  obtain ⟨ds, -, rfl, hds, -⟩ := h
  exact mem_joined_decimals hds hc

theorem IsAddress.cStr {s : Bytes} {a : Ip4Addr} (h : IsAddress s a) : cStr s = s := by
  refine List.takeWhile_eq_self_iff.mpr fun c hc => ?_
  rcases h.mem hc with hdigit | rfl
  · have hne : c ≠ 0 := by
      rintro rfl
      exact absurd hdigit (by decide)
    simpa using hne
  · decide

theorem toUInt8_ofNat (n : Nat) : (UInt32.ofNat n).toUInt8 = UInt8.ofNat n := by
  apply UInt8.toNat_inj.mp
  rw [UInt32.toNat_toUInt8, UInt32.toNat_ofNat', UInt8.toNat_ofNat']
  omega

/-- An address is parsed. -/
theorem IsAddress.parsed {s : Bytes} {a : Ip4Addr} (h : IsAddress s a) : strToIp4Addr s = .ok (some a) := by
  have hcStr := h.cStr
  obtain ⟨ds, hlen, rfl, hds, hoctets⟩ := h
  have hconverts := forall₂_map fun d hd => isDecimal_convertsTo (hds d hd)
  have hscan := scanDotted_joined hconverts (List.ne_nil_of_length_eq_add_one hlen) (show NoDigit 10 [] by simp [NoDigit])
  rw [List.append_nil, hlen] at hscan
  obtain ⟨d₀, d₁, d₂, d₃, rfl⟩ := List.length_eq_four.mp hlen
  have ha : (⟨⟨[(UInt32.ofNat (numeral 10 d₀)).toUInt8, (UInt32.ofNat (numeral 10 d₁)).toUInt8,
      (UInt32.ofNat (numeral 10 d₂)).toUInt8, (UInt32.ofNat (numeral 10 d₃)).toUInt8], rfl⟩⟩ : Ip4Addr) = a := by
    apply Ip4Addr.ext_octets
    rw [hoctets, toUInt8_ofNat, toUInt8_ofNat, toUInt8_ofNat, toUInt8_ofNat]
    rfl
  rw [strToIp4Addr, hcStr, hscan, ← ha]
  rfl

/-- What is parsed without overflow: nothing, or an address, or something loose. -/
theorem accepted_of_parsed {s : Bytes} {a : Ip4Addr} (h : strToIp4Addr s = .ok (some a)) :
    ∃ ws numbers rest, ws.length = 4 ∧ cStr s = joined (chars ".") ws ++ rest ∧ List.Forall₂ ConvertsTo ws numbers ∧
      NoDigit 10 rest := by
  unfold strToIp4Addr at h
  rw [bind_eq_ok_iff] at h
  obtain ⟨numbers, hscan, h⟩ := h
  split at h
  · obtain ⟨ws, rest, hws⟩ := joined_of_scanDotted hscan rfl
    exact ⟨ws, _, rest, hws⟩
  · nomatch h

/-- Four numbers are taken for an address. -/
theorem parsed_of_accepted {s : Bytes} {ws : List Bytes} {numbers : List UInt32} {rest : Bytes} (hlen : ws.length = 4)
    (hs : cStr s = joined (chars ".") ws ++ rest) (hws : List.Forall₂ ConvertsTo ws numbers) (hrest : NoDigit 10 rest) :
    ∃ a, strToIp4Addr s = .ok (some a) := by
  have hscan := scanDotted_joined hws (List.ne_nil_of_length_eq_add_one hlen) hrest
  have hfour : numbers.length = 4 := hws.length_eq ▸ hlen
  obtain ⟨n₀, n₁, n₂, n₃, rfl⟩ := List.length_eq_four.mp hfour
  rw [hlen, ← hs] at hscan
  unfold strToIp4Addr
  rw [hscan]
  exact ⟨_, rfl⟩

/-- The parser has no value when a number overflows, and only then. -/
theorem overflows_iff (s : Bytes) : Overflows s ↔ ∃ e, strToIp4Addr s = .error e := by
  constructor
  · intro h
    obtain ⟨ws, w, rest, hlen, hs, hws, hw, hrest⟩ := h
    refine ⟨.unrepresentable, ?_⟩
    rw [strToIp4Addr, hs, scanDotted_tooLarge hws hw hrest hlen]
    rfl
  · intro h
    obtain ⟨e, h⟩ := h
    cases hscan : scanDotted 4 (cStr s) with
    | error e' => exact tooLarge_of_scanDotted hscan
    | ok numbers =>
      rw [strToIp4Addr, hscan, ok_bind] at h
      split at h <;> nomatch h

theorem strToIp4Addr_meetsGrammar_iff (s : Bytes) : MeetsAddressGrammar s ↔ ¬Overflows s ∧ ¬IsLooseAddress s := by
  rw [overflows_iff]
  constructor
  · intro h
    obtain ⟨r, hr, hgrammar⟩ := h
    refine ⟨?_, ?_⟩
    · intro h
      obtain ⟨e, he⟩ := h
      rw [hr] at he
      nomatch he
    · intro h
      obtain ⟨⟨ws, numbers, rest, hlen, hs, hws, hrest⟩, hnone⟩ := h
      obtain ⟨a, ha⟩ := parsed_of_accepted hlen hs hws hrest
      rw [hr] at ha
      exact hnone ⟨a, (hgrammar a).mp (Except.ok.inj ha)⟩
  · intro h
    obtain ⟨hoverflow, hloose⟩ := h
    cases hr : strToIp4Addr s with
    | error e => exact absurd ⟨e, hr⟩ hoverflow
    | ok r =>
      refine ⟨r, hr, fun a => ⟨?_, fun ha => ?_⟩⟩
      · rintro rfl
        obtain ⟨a', ha'⟩ := not_not.mp fun hnone => hloose ⟨accepted_of_parsed hr, hnone⟩
        have heq := hr.symm.trans ha'.parsed
        rw [Option.some.inj (Except.ok.inj heq)]
        exact ha'
      · rw [ha.parsed] at hr
        exact (Except.ok.inj hr).symm

/-! ## Printed addresses -/

theorem isDecimal_printNat (octet : UInt8) : IsDecimal (printNat 10 octet.toNat) := by
  refine ⟨printNat_ne_nil 10 _, fun c hc => isDigit_of_mem_printNat (by decide) (by decide) hc, ?_⟩
  rw [numeral_printNat (by decide) (by decide)]
  exact octet.toNat_lt

/-- What is printed is the address. -/
theorem isAddress_ip4AddrToStr (a : Ip4Addr) : IsAddress (ip4AddrToStr a) a := by
  obtain ⟨⟨octets, hlen⟩⟩ := a
  obtain ⟨o₀, o₁, o₂, o₃, rfl⟩ := List.length_eq_four.mp hlen
  refine ⟨[o₀, o₁, o₂, o₃].map fun octet => printNat 10 octet.toNat, rfl, ?_, ?_, ?_⟩
  · simp [ip4AddrToStr, joined]
    rfl
  · intro d hd
    obtain ⟨octet, -, rfl⟩ := List.mem_map.mp hd
    exact isDecimal_printNat octet
  · simp [numeral_printNat]

/-- An address that is printed is parsed back. Exactly the addresses are parsed among the strings in which no number is too
large and that are not taken for an address loosely, and on every other string the parser fails to do this. -/
theorem ip4Addr_text (a : Ip4Addr) (s : Bytes) : strToIp4Addr (ip4AddrToStr a) = .ok (some a) ∧
    (MeetsAddressGrammar s ↔ ¬Overflows s ∧ ¬IsLooseAddress s) :=
  ⟨(isAddress_ip4AddrToStr a).parsed, strToIp4Addr_meetsGrammar_iff s⟩

/-- White space, a minus, a number of nine bits and a letter at the end are no obstacle. -/
theorem strToIp4Addr_loose : strToIp4Addr (chars " 1.-2.256.4x") = .ok (some ⟨⟨[1, 254, 0, 4], rfl⟩⟩) ∧
    ¬∃ a, IsAddress (chars " 1.-2.256.4x") a := by
  constructor
  · decide
  · intro h
    obtain ⟨a, ha⟩ := h
    have hspace := @IsAddress.mem _ _ ha ' '.toUInt8 (by decide)
    revert hspace
    decide

end NetworkingFramework
