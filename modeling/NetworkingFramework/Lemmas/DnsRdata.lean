import NetworkingFramework.DnsRdata
import NetworkingFramework.Lemmas.DnsLayout
import NetworkingFramework.Lemmas.DnsNames

/-!
# How long the data of a record is

The last byte of a name is taken for its null byte when it is encoded, whatever it is. What is decoded of a name has fewer bytes
than the name took in the packet. The data of an SOA record is as long as the stack frame makes it, and never as long as the
words that are read back.
-/

namespace NetworkingFramework

open Wire Wire.Decoder

/-! ## Names -/

/-- The last byte of a name is not looked at. -/
theorem nameBytesLoop_concat (label init : Bytes) (b c : UInt8) :
    nameBytesLoop label (init ++ [b]) = nameBytesLoop label (init ++ [c]) := by
  induction init generalizing label with
  | nil => rw [List.nil_append, List.nil_append, nameBytesLoop_cons (.inr rfl), nameBytesLoop_cons (.inr rfl)]
  | cons d init ih =>
    rw [List.cons_append, List.cons_append, nameBytesLoop, nameBytesLoop, ih, ih]
    simp

theorem nameBytes_concat (init : Bytes) (b c : UInt8) : nameBytes (init ++ [b]) = nameBytes (init ++ [c]) := by
  rw [nameBytes, nameBytes, nameBytesLoop_concat _ _ b c]

/-- Decoding does not make a name longer. -/
theorem length_le_of_decodeDnsNameLoop {n i : Nat} {res name r : Bytes} (h : decodeDnsNameLoop n i res name = .ok r) :
    r.length ≤ res.length + name.length := by
  induction name generalizing n i res with
  | nil =>
    cases n with
    | zero => exact Except.ok.inj h ▸ Nat.le_refl _
    | succ n => cases h
  | cons b name ih =>
    cases n with
    | succ n =>
      obtain ⟨_, -, h⟩ := (bind_eq_ok_iff _ _ _).mp h
      have hrest := ih h
      rw [List.length_append, List.length_singleton] at hrest
      rw [List.length_cons]
      omega
    | zero =>
      unfold decodeDnsNameLoop at h
      split at h
      · obtain rfl := Except.ok.inj h
        rw [List.length_append, List.length_singleton, List.length_cons]
        omega
      · obtain ⟨_, -, h⟩ := (bind_eq_ok_iff _ _ _).mp h
        have hrest := ih h
        have hdot : (if res = [] then res else res ++ [dot]).length ≤ res.length + 1 := by
          split
          · exact Nat.le_succ _
          · exact Nat.le_of_eq List.length_append
        rw [List.length_cons]
        omega

/-- A name without a jump is collected from the bytes that it takes. -/
theorem NameAt.length_eq {p enc : Bytes} {o n : Nat} (h : NameAt p o enc n)
    (hjump : ∀ i b, o ≤ i → p[i]? = some b → b &&& jumpMask ≠ jumpMask) : enc.length = n := by
  induction h with
  | stop _ => rfl
  | jump hb hjump' _ _ _ => exact absurd hjump' (hjump _ _ (Nat.le_refl _) hb)
  | byte _ _ _ _ ih =>
    rw [List.length_cons, ih fun i b hi hb => hjump i b (Nat.le_of_succ_le hi) hb]

/-- Where no byte looks like a jump, a name other than the root is shorter than the bytes it takes. -/
theorem length_lt_of_extractDnsName {p name : Bytes} {o n : Int} (h : extractDnsName.Returns p o name n)
    (hjump : ∀ (i : Nat) b, o ≤ i → p[i]? = some b → b &&& jumpMask ≠ jumpMask) (hroot : name ≠ [0]) :
    name.length < n ∧ o + n ≤ p.length := by
  obtain ⟨i, k, enc, rfl, rfl, hname, -, hok⟩ := (extractDnsName_returns_iff_decoded ..).mp h
  have hlen := hname.length_eq fun j b hj hb => hjump j b (by omega) hb
  have hfits := hname.fits
  refine ⟨?_, by omega⟩
  cases enc with
  | nil =>
    cases hname with
    | jump _ _ _ _ => cases hlen
  | cons b enc =>
    unfold decodeDnsName at hok
    unfold decodeDnsNameLoop at hok
    split at hok
    · exact absurd (Except.ok.inj hok).symm hroot
    · obtain ⟨_, -, hok⟩ := (bind_eq_ok_iff _ _ _).mp hok
      have hle := length_le_of_decodeDnsNameLoop hok
      rw [if_pos rfl, List.length_nil] at hle
      rw [List.length_cons] at hlen
      omega

/-! ## MX -/

/-- What `convert_to_rdata` makes of a mail server whose bytes an `int` counts. -/
def mxRdataBytes (source : MxRdata) : Bytes := storeU16 (htons source.preference) ++ nameBytes source.domain

theorem length_mxRdataBytes (source : MxRdata) : (mxRdataBytes source).length = source.domain.length + 3 := by
  rw [mxRdataBytes, List.length_append, length_nameBytes, Nat.add_comm]
  rfl

theorem convertMxToRdata_ok_iff (source : MxRdata) (rdata : Bytes) :
    convertMxToRdata source = .ok rdata ↔ source.domain.length < 2 ^ 31 ∧ rdata = mxRdataBytes source := by
  simp only [convertMxToRdata, bind_eq_ok_iff, encodeDnsName_ok_iff, pure_eq_ok, Except.ok.injEq]
  constructor
  · rintro ⟨_, ⟨hlt, rfl⟩, rfl⟩
    exact ⟨hlt, rfl⟩
  · rintro ⟨hlt, rfl⟩
    exact ⟨_, ⟨hlt, rfl⟩, rfl⟩

/-- A mail server with its null byte comes back. -/
theorem roundTrips_mxRdata {source : MxRdata} (h : NameOver Plain source.domain) (hlt : source.domain.length + 3 < 2 ^ 31) :
    extractMxRdata.RoundTrips (mxRdataBytes source) source := by
  intro pre post
  have hname := length_nameBytes source.domain
  have hbytes := length_mxRdataBytes source
  have h₀ := Fueled.roundTrips_ofDecoder (roundTrips_netU16 source.preference)
  have h₁ := roundTrips_dnsName h (by omega)
  simp only [extractMxRdata]
  unfold mxRdataBytes at hbytes ⊢
  refine h₀.peek_bind pre [] (nameBytes source.domain ++ post) (by simp) rfl rfl ?_
  refine h₁.peek_bind pre (storeU16 (htons source.preference)) post (by simp) rfl rfl ?_
  refine (Fueled.returns_lift_bind_iff ..).mpr ⟨(source.domain.length + 3 : Nat), (addInts_ok_iff ..).mpr ?_, ?_⟩
  · simp only [hname]
    omega
  · exact (Fueled.returns_move_pure_iff ..).mpr ⟨rfl, congrArg Nat.cast hbytes⟩

/-- Of a mail server without one the last byte is lost. -/
theorem roundTrips_mxRdata_unterminated {init : Bytes} (h : NameOver Plain (init ++ [0])) (hlt : init.length + 4 < 2 ^ 31)
    (preference : UInt16) (c : UInt8) :
    extractMxRdata.RoundTrips (mxRdataBytes ⟨preference, init ++ [c]⟩) ⟨preference, init ++ [0]⟩ := by
  have hround := @roundTrips_mxRdata ⟨preference, init ++ [0]⟩ h (by simpa using hlt)
  rwa [mxRdataBytes, nameBytes_concat init 0 c] at hround

theorem joinLabels_concat_concat (init : List Bytes) (l : Bytes) (c : UInt8) :
    joinLabels (init ++ [l ++ [c]]) = joinLabels (init ++ [l]) ++ [c] := by
  cases init with
  | nil => simp [joinLabels_cons]
  | cons first init => simp [joinLabels_cons]

/-- Labels of at most 63 bytes, none of which looks like a jump, are encoded without one. -/
theorem not_jump_of_encodeLabels {labels : List Bytes}
    (h : ∀ l ∈ labels, l.length ≤ 63 ∧ ∀ b ∈ l, b &&& jumpMask ≠ jumpMask) :
    ∀ b ∈ encodeLabels labels ++ [0], b &&& jumpMask ≠ jumpMask := by
  intro b hb
  rcases List.mem_append.mp hb with hb | hb
  · obtain ⟨l, hl, hbl⟩ := List.mem_flatMap.mp hb
    rcases List.mem_cons.mp hbl with rfl | hbl
    · exact length_byte_not_jump (h l hl).1
    · exact (h l hl).2 b hbl
  · obtain rfl := List.mem_singleton.mp hb
    decide

/-- A name without its null byte is encoded without its last byte, and without a jump. -/
theorem not_jump_of_encode_unterminated {v : Bytes} (h : NameOver Plain (v ++ [0])) :
    v ≠ [] ∧ ∀ b ∈ nameBytes v, b &&& jumpMask ≠ jumpMask := by
  obtain ⟨labels, hne, hlabels, hname⟩ := h
  obtain rfl : v = joinLabels labels := (List.append_singleton_inj.mp hname).1
  obtain ⟨init, last, rfl⟩ : ∃ init last, labels = init ++ [last] := ⟨_, _, (List.dropLast_concat_getLast hne).symm⟩
  have hlast := hlabels last (List.mem_append_right _ List.mem_cons_self)
  obtain ⟨l, c, rfl⟩ : ∃ l c, last = l ++ [c] :=
    ⟨_, _, (List.dropLast_concat_getLast (List.ne_nil_of_length_pos hlast.1)).symm⟩
  have hinit : ∀ x ∈ init ++ [l], x.length ≤ 63 ∧ ∀ b ∈ x, Plain b := by
    intro x hx
    rcases List.mem_append.mp hx with hx | hx
    · exact (hlabels x (List.mem_append_left _ hx)).2
    · obtain rfl := List.mem_singleton.mp hx
      have hlen := hlast.2.1
      rw [List.length_append] at hlen
      exact ⟨by omega, fun b hb => hlast.2.2 b (List.mem_append_left _ hb)⟩
  have hencode : nameBytes (joinLabels (init ++ [l ++ [c]])) = encodeLabels (init ++ [l]) ++ [0] := by
    rw [joinLabels_concat_concat, nameBytes_concat _ c 0]
    exact nameBytes_joinLabels (by simp) fun x hx b hb => ((hinit x hx).2 b hb).2.1
  rw [hencode, joinLabels_concat_concat]
  refine ⟨by simp, not_jump_of_encodeLabels fun x hx => ⟨(hinit x hx).1, fun b hb => ((hinit x hx).2 b hb).2.2⟩⟩

/-- A mail server that was passed without a null byte does not come back of the data. -/
theorem not_extractMxRdata_unterminated {v : Bytes} (h : NameOver Plain (v ++ [0])) (preference preference' : UInt16) (k : Int) :
    ¬extractMxRdata.Returns (mxRdataBytes ⟨preference, v⟩) 0 ⟨preference', v ++ [0]⟩ k := by
  intro hreturns
  obtain ⟨hne, hjump⟩ := not_jump_of_encode_unterminated h
  simp only [extractMxRdata, Fueled.returns_peek_bind_iff, Fueled.returns_lift_bind_iff, Fueled.returns_move_pure_iff,
    Int.zero_add] at hreturns
  obtain ⟨pref, _, -, domain, n, hdomain, _, -, hdata, -⟩ := hreturns
  obtain rfl : v ++ [0] = domain := congrArg MxRdata.domain hdata
  have hplain : ∀ (i : Nat) b, (2 : Int) ≤ i → (mxRdataBytes ⟨preference, v⟩)[i]? = some b → b &&& jumpMask ≠ jumpMask := by
    intro i b hi hb
    have hpos : (storeU16 (htons preference)).length ≤ i := Int.ofNat_le.mp hi
    rw [mxRdataBytes, List.getElem?_append_right hpos] at hb
    exact hjump b (List.mem_of_getElem? hb)
  obtain ⟨hlt, hfits⟩ := length_lt_of_extractDnsName hdomain hplain (by simpa using hne)
  rw [length_mxRdataBytes] at hfits
  rw [List.length_append, List.length_singleton] at hlt
  simp only at hfits
  omega

/-! ## SOA -/

/-- No local word starts after the end of `serial_num`. -/
def SoaFrame.Forward (frame : SoaFrame) : Prop :=
  ∀ first ∈ [frame.refreshInterval, frame.retryInterval, frame.expireLimit, frame.maxTtl], first ≤ frame.serialNum + 4

theorem SoaFrame.vector_ok_iff (frame : SoaFrame) (source : SoaRdata) (n first : Nat) :
    (∃ v, frame.vector source n first = .ok v) ↔ first ≤ frame.serialNum + 4 := by
  unfold SoaFrame.vector
  refine ⟨fun h => ?_, fun h => ⟨_, if_pos h⟩⟩
  obtain ⟨v, h⟩ := h
  by_contra hlate
  rw [if_neg hlate] at h
  nomatch h

theorem convertSoaToRdata_ok_iff (frame : SoaFrame) (source : SoaRdata) :
    (∃ rdata, convertSoaToRdata frame source = .ok rdata) ↔
      source.primaryServer.length < 2 ^ 31 ∧ source.adminMailServer.length < 2 ^ 31 ∧ frame.Forward := by
  constructor
  · rintro ⟨rdata, h⟩
    obtain ⟨_, hprimary, h⟩ := (bind_eq_ok_iff _ _ _).mp h
    obtain ⟨_, hadmin, h⟩ := (bind_eq_ok_iff _ _ _).mp h
    obtain ⟨_, -, h⟩ := (bind_eq_ok_iff _ _ _).mp h
    obtain ⟨v₁, h₁, h⟩ := (bind_eq_ok_iff _ _ _).mp h
    obtain ⟨v₂, h₂, h⟩ := (bind_eq_ok_iff _ _ _).mp h
    obtain ⟨v₃, h₃, h⟩ := (bind_eq_ok_iff _ _ _).mp h
    obtain ⟨v₄, h₄, -⟩ := (bind_eq_ok_iff _ _ _).mp h
    refine ⟨((encodeDnsName_ok_iff ..).mp hprimary).1, ((encodeDnsName_ok_iff ..).mp hadmin).1, fun first hfirst => ?_⟩
    simp only [List.mem_cons, List.not_mem_nil, or_false] at hfirst
    rcases hfirst with rfl | rfl | rfl | rfl
    · exact (frame.vector_ok_iff source 1 _).mp ⟨v₁, h₁⟩
    · exact (frame.vector_ok_iff source 2 _).mp ⟨v₂, h₂⟩
    · exact (frame.vector_ok_iff source 3 _).mp ⟨v₃, h₃⟩
    · exact (frame.vector_ok_iff source 4 _).mp ⟨v₄, h₄⟩
  · rintro ⟨hprimary, hadmin, h⟩
    obtain ⟨v₀, h₀⟩ := (frame.vector_ok_iff source 0 frame.serialNum).mpr (Nat.le_add_right _ 4)
    obtain ⟨v₁, h₁⟩ := (frame.vector_ok_iff source 1 frame.refreshInterval).mpr (h _ (by simp))
    obtain ⟨v₂, h₂⟩ := (frame.vector_ok_iff source 2 frame.retryInterval).mpr (h _ (by simp))
    obtain ⟨v₃, h₃⟩ := (frame.vector_ok_iff source 3 frame.expireLimit).mpr (h _ (by simp))
    obtain ⟨v₄, h₄⟩ := (frame.vector_ok_iff source 4 frame.maxTtl).mpr (h _ (by simp))
    simp only [convertSoaToRdata, encodeDnsName_of_lt hprimary, encodeDnsName_of_lt hadmin, h₀, h₁, h₂, h₃, h₄, ok_bind,
      pure_eq_ok]
    exact ⟨_, rfl⟩

/-- The number of bytes that a frame makes of the five words. -/
def SoaFrame.wordsLength (frame : SoaFrame) : Nat :=
  4 + (frame.serialNum + 4 - frame.refreshInterval) + (frame.serialNum + 4 - frame.retryInterval) +
    (frame.serialNum + 4 - frame.expireLimit) + (frame.serialNum + 4 - frame.maxTtl)

theorem SoaFrame.length_of_vector {frame : SoaFrame} {source : SoaRdata} {n first : Nat} {v : Bytes}
    (h : frame.vector source n first = .ok v) : v.length = frame.serialNum + 4 - first := by
  simp only [SoaFrame.vector] at h
  split at h
  · obtain rfl := Except.ok.inj h
    rw [List.length_map, List.length_range']
  · cases h

/-- The data is the two names, and the words. -/
theorem convertSoaToRdata_eq {frame : SoaFrame} {source : SoaRdata} {rdata : Bytes}
    (h : convertSoaToRdata frame source = .ok rdata) : ∃ words, words.length = frame.wordsLength ∧
      rdata = nameBytes source.primaryServer ++ nameBytes source.adminMailServer ++ words := by
  obtain ⟨_, hprimary, h⟩ := (bind_eq_ok_iff _ _ _).mp h
  obtain ⟨_, hadmin, h⟩ := (bind_eq_ok_iff _ _ _).mp h
  obtain ⟨-, rfl⟩ := (encodeDnsName_ok_iff ..).mp hprimary
  obtain ⟨-, rfl⟩ := (encodeDnsName_ok_iff ..).mp hadmin
  obtain ⟨v₀, h₀, h⟩ := (bind_eq_ok_iff _ _ _).mp h
  obtain ⟨v₁, h₁, h⟩ := (bind_eq_ok_iff _ _ _).mp h
  obtain ⟨v₂, h₂, h⟩ := (bind_eq_ok_iff _ _ _).mp h
  obtain ⟨v₃, h₃, h⟩ := (bind_eq_ok_iff _ _ _).mp h
  obtain ⟨v₄, h₄, h⟩ := (bind_eq_ok_iff _ _ _).mp h
  obtain rfl := Except.ok.inj h
  refine ⟨v₀ ++ v₁ ++ v₂ ++ v₃ ++ v₄, ?_, by simp⟩
  simp only [List.length_append, SoaFrame.length_of_vector h₀, SoaFrame.length_of_vector h₁, SoaFrame.length_of_vector h₂,
    SoaFrame.length_of_vector h₃, SoaFrame.length_of_vector h₄, SoaFrame.wordsLength]
  omega

/-- It is never 20: at most one word starts at the end of `serial_num`, and each other one lies below it. -/
theorem SoaFrame.wordsLength_ne {frame : SoaFrame} (h : frame.Forward) : frame.wordsLength ≠ 20 := by
  have hdisjoint := frame.disjoint
  simp only [List.pairwise_cons, List.mem_cons, List.not_mem_nil, or_false, forall_eq_or_imp, forall_eq] at hdisjoint
  obtain ⟨⟨h₀₁, h₀₂, h₀₃, h₀₄⟩, ⟨h₁₂, h₁₃, h₁₄⟩, ⟨h₂₃, h₂₄⟩, h₃₄, -⟩ := hdisjoint
  have h₁ := h frame.refreshInterval (by simp)
  have h₂ := h frame.retryInterval (by simp)
  have h₃ := h frame.expireLimit (by simp)
  have h₄ := h frame.maxTtl (by simp)
  unfold SoaFrame.wordsLength
  omega

/-- A name of plain labels takes the bytes of its encoded form, whatever is decoded of it. -/
theorem count_of_extractDnsName {name name' : Bytes} (h : NameOver Plain name) {pre post : Bytes} {n : Int}
    (hreturns : extractDnsName.Returns (pre ++ nameBytes name ++ post) pre.length name' n) : n = (nameBytes name).length := by
  obtain ⟨i, k, enc, hi, rfl, hname, -⟩ := (extractDnsName_returns_iff_decoded ..).mp hreturns
  obtain rfl : pre.length = i := Int.ofNat_inj.mp hi
  obtain ⟨-, rfl⟩ := hname.unique (h.nameAt pre post)
  rfl

/-- What is read back of two names and some words takes the names and 20 bytes, counted in an `int`. -/
theorem consumed_of_extractSoaRdata {primaryServer adminMailServer words : Bytes} {source : SoaRdata} {k : Int}
    (hprimary : NameOver Plain primaryServer) (hadmin : NameOver Plain adminMailServer)
    (h : extractSoaRdata.Returns (nameBytes primaryServer ++ nameBytes adminMailServer ++ words) 0 source k) :
    k = narrow ((nameBytes primaryServer).length + (nameBytes adminMailServer).length + 20) := by
  simp only [extractSoaRdata, Fueled.returns_peek_bind_iff, Fueled.returns_lift_bind_iff, Fueled.returns_move_pure_iff,
    narrow_narrow_add, Int.zero_add] at h
  obtain ⟨primary, n, h₁, admin, m, h₂, cnt, hcnt, _, _, -, _, _, -, _, _, -, _, _, -, _, _, -, -, rfl⟩ := h
  rw [List.append_assoc] at h₁
  obtain rfl := @count_of_extractDnsName _ _ hprimary [] _ _ h₁
  obtain rfl := count_of_extractDnsName hadmin h₂
  obtain ⟨-, rfl⟩ := (addInts_ok_iff ..).mp hcnt
  simp only [Int.add_assoc]
  rfl

end NetworkingFramework
