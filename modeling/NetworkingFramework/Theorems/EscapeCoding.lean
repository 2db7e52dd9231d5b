import NetworkingFramework.Lemmas.VarLenInts

/-!
# Variable-length byte strings read back

Encoded one after another, byte strings are decoded again without their lengths, as long as an `int` counts the bytes of each.
-/

namespace NetworkingFramework

open Wire Wire.Decoder

/-- The strings are encoded one after another, with something behind them, and decoded as often as they are: they come back, each
with the count that the encoder returned for it. -/
def ReadBack (vs : List Bytes) (rest : Bytes) : Prop :=
  ∃ written total, vs.mapM varLenEncodeBytesInt = .ok written ∧
    (varLenDecodeBytesInt.counted.times vs.length).run (written.flatMap Prod.fst ++ rest) 0 =
      .ok (vs.zip (written.map Prod.snd), total)

/-- No encoding is a proper prefix of another. -/
def PrefixFree : Prop :=
  ∀ v v' written written', varLenEncodeBytesInt v = .ok written → varLenEncodeBytesInt v' = .ok written' →
    written.1 <+: written'.1 → written.1 = written'.1

/-- What the encoder returns, for strings that it encodes all of or not. -/
theorem mapM_varLenEncodeBytesInt_ok_iff (vs : List Bytes) (written : List (Bytes × Nat)) :
    vs.mapM varLenEncodeBytesInt = .ok written ↔
      (∀ v ∈ vs, (encodedWord v).length < 2 ^ 31) ∧ written = vs.map fun v => (encodedWord v, (encodedWord v).length) := by
  have hencoded (hint : ∀ v ∈ vs, (encodedWord v).length < 2 ^ 31) :
      vs.mapM varLenEncodeBytesInt = .ok (vs.map fun v => (encodedWord v, (encodedWord v).length)) := by
    apply mapM_eq_ok
    intro v hv
    rw [varLenEncodeBytesInt_eq, if_pos (hint v hv)]
  constructor
  · intro h
    have hint : ∀ v ∈ vs, (encodedWord v).length < 2 ^ 31 := by
      intro v hv
      obtain ⟨w, hw⟩ := exists_ok_of_mapM h v hv
      rw [varLenEncodeBytesInt_eq] at hw
      split at hw
      · assumption
      · nomatch hw
    refine ⟨hint, ?_⟩
    rw [hencoded hint] at h
    exact (Except.ok.inj h).symm
  · intro h
    obtain ⟨hint, rfl⟩ := h
    exact hencoded hint

/-- Encodings that are counted are decoded one after another. -/
theorem times_varLenDecodeBytesInt {vs : List Bytes} (hint : ∀ v ∈ vs, (encodedWord v).length < 2 ^ 31) (rest : Bytes) :
    ∃ total, (varLenDecodeBytesInt.counted.times vs.length).run (vs.flatMap encodedWord ++ rest) 0 =
      .ok (vs.map fun v => (encodedPart v, (encodedWord v).length), total) := by
  let results := vs.map fun v => (encodedPart v, (encodedWord v).length)
  have hresults : ∀ result ∈ results, RoundTrips varLenDecodeBytesInt.counted (varLenEncodeBytes result.1) result := by
    intro result hresult
    obtain ⟨v, hv, rfl⟩ := List.mem_map.mp hresult
    exact (roundTrips_varLenDecodeBytesInt (varLenWord_encode _) (hint v hv)).counted
  have htimes := (RoundTrips.times hresults).run_append rest
  rw [List.length_map, List.flatMap_map] at htimes
  exact ⟨_, htimes⟩

/-- Strings come back when all bytes of each are counted. -/
theorem readBack_iff (vs : List Bytes) (rest : Bytes) :
    ReadBack vs rest ↔ ∀ v ∈ vs, v.length + v.count encodeEscapeByte + 2 < 2 ^ 31 := by
  constructor
  · intro h v hv
    obtain ⟨written, total, hwritten, hread⟩ := h
    obtain ⟨hint, rfl⟩ := (mapM_varLenEncodeBytesInt_ok_iff vs written).mp hwritten
    obtain ⟨total', hread'⟩ := times_varLenDecodeBytesInt hint rest
    rw [List.flatMap_map] at hread
    rw [hread', List.map_map, ← List.map_prod_left_eq_zip] at hread
    -- what is decoded is the part that was encoded
    have hsame := List.map_inj_left.mp (congrArg Prod.fst (Except.ok.inj hread)) v hv
    exact (encodedWord_counted_iff v).mp ⟨congrArg Prod.fst hsame, hint v hv⟩
  · intro h
    have hall : ∀ v ∈ vs, encodedPart v = v := fun v hv => ((encodedWord_counted_iff v).mpr (h v hv)).1
    have hint : ∀ v ∈ vs, (encodedWord v).length < 2 ^ 31 := fun v hv => ((encodedWord_counted_iff v).mpr (h v hv)).2
    obtain ⟨total, hread⟩ := times_varLenDecodeBytesInt hint rest
    refine ⟨_, total, (mapM_varLenEncodeBytesInt_ok_iff vs _).mpr ⟨hint, rfl⟩, ?_⟩
    rw [List.flatMap_map, hread, List.map_map, ← List.map_prod_left_eq_zip]
    have hsame : (vs.map fun v => (encodedPart v, (encodedWord v).length)) = vs.map fun v => (v, (encodedWord v).length) := by
      apply List.map_congr_left
      intro v hv
      exact congrArg (·, (encodedWord v).length) (hall v hv)
    rw [hsame]
    rfl

/-- No encoding is a proper prefix of another. -/
theorem prefixFree : PrefixFree := by
  intro v v' written written' h h' hprefix
  rw [varLenEncodeBytesInt_eq] at h h'
  split at h
  · split at h'
    · obtain rfl := Except.ok.inj h
      obtain rfl := Except.ok.inj h'
      obtain ⟨post, hpost⟩ := hprefix
      rw [← List.append_nil (encodedWord v')] at hpost
      exact ((varLenWord_encode _).eq_of_append (varLenWord_encode _) hpost).1
    · nomatch h'
  · nomatch h

/-- Byte strings come back from their encodings if and only if the lengths of these fit an `int`, no encoding is a proper prefix of
another, and the functions of `utils/udata.h` do the same. -/
theorem varLenBytes_selfDelimiting (vs : List Bytes) (rest : Bytes) :
    (ReadBack vs rest ↔ ∀ v ∈ vs, v.length + v.count encodeEscapeByte + 2 < 2 ^ 31) ∧ PrefixFree ∧
      encodeData = varLenEncodeBytesInt ∧ decodeData = varLenDecodeBytesInt :=
  ⟨readBack_iff vs rest, prefixFree, rfl, rfl⟩

theorem varLenBytes_not_readBack : ¬ReadBack [List.replicate (2 ^ 32) 2] [] := by
  intro h
  have hint := (readBack_iff _ _).mp h _ List.mem_cons_self
  rw [List.length_replicate] at hint
  omega

end NetworkingFramework
