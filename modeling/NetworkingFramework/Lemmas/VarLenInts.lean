import NetworkingFramework.VarLenInts

/-!
# What an `int` counts

The encoder writes the words of `var_len_encode_bytes`, of as many bytes as the narrowed size says. The decoder returns what is read
in a word that is not too long to be counted.
-/

namespace NetworkingFramework

open Wire Wire.Decoder

/-! ## The encoder -/

/-- What is written for a byte. -/
def escapedByte (b : UInt8) : Bytes := if b = encodeEscapeByte then [encodeEscapeByte, b] else [b]

theorem varLenEncodeBytes_eq (v : Bytes) : varLenEncodeBytes v = v.flatMap escapedByte ++ [encodeEscapeByte, encodeDelimiter] := by
  induction v with
  | nil => rfl
  | cons b v ih =>
    rw [varLenEncodeBytes, List.flatMap_cons, List.append_assoc, ← ih, escapedByte]
    split
    · rfl
    · rfl

/-- A zero byte is written as two, and the delimiter is of two. -/
theorem length_varLenEncodeBytes (v : Bytes) : (varLenEncodeBytes v).length = v.length + v.count encodeEscapeByte + 2 := by
  induction v with
  | nil => rfl
  | cons b v ih =>
    unfold varLenEncodeBytes
    split
    · rename_i hb
      rw [List.length_cons, List.length_cons, ih, List.length_cons, hb, List.count_cons_self]
      omega
    · rename_i hb
      rw [List.length_cons, ih, List.length_cons, List.count_cons_of_ne hb]
      omega

/-- A round of the encoder. -/
theorem encodeLoop_cons (dataLen : Int) (dataCnt totalBytes : Nat) (destBuff : Bytes) (b : UInt8) (srcData : Bytes) :
    encodeLoop encodeEscapeByte dataLen dataCnt totalBytes destBuff (b :: srcData) =
      if dataCnt < dataLen then do
        encodeLoop encodeEscapeByte dataLen (← addInt dataCnt 1) (← addInt totalBytes (escapedByte b).length)
          (destBuff ++ escapedByte b) srcData
      else .ok (destBuff, totalBytes) := by
  rw [encodeLoop, escapedByte]
  by_cases hb : b = encodeEscapeByte
  · simp only [if_pos hb]
    rfl
  · simp only [if_neg hb]
    rfl

/-- The rest of the encoder's rounds. Its count overflows when what is written is too long for it. -/
theorem encodeLoop_eq {dataLen : Int} (hlen : dataLen < 2 ^ 31) {dataCnt totalBytes : Nat} {srcData : Bytes}
    (hdata : dataLen ≤ dataCnt + srcData.length) (htotal : totalBytes < 2 ^ 31) (destBuff : Bytes) :
    encodeLoop encodeEscapeByte dataLen dataCnt totalBytes destBuff srcData =
      let written := (srcData.take (dataLen - dataCnt).toNat).flatMap escapedByte
      if totalBytes + written.length < 2 ^ 31 then .ok (destBuff ++ written, totalBytes + written.length)
      else .error .unrepresentable := by
  induction srcData generalizing dataCnt totalBytes destBuff with
  | nil =>
    have hend : ¬(dataCnt : Int) < dataLen := by
      rw [List.length_nil] at hdata
      omega
    rw [encodeLoop, if_neg hend, List.take_nil]
    simp only [List.flatMap_nil, List.length_nil, Nat.add_zero, List.append_nil, if_pos htotal]
  | cons b srcData ih =>
    rw [encodeLoop_cons]
    by_cases hcnt : (dataCnt : Int) < dataLen
    · have hnext : (dataLen - dataCnt).toNat = (dataLen - (dataCnt + 1 : Nat)).toNat + 1 := by omega
      have hdata' : dataLen ≤ (dataCnt + 1 : Nat) + srcData.length := by
        rw [List.length_cons] at hdata
        omega
      rw [if_pos hcnt, addInt_of_lt (by omega), ok_bind, hnext, List.take_succ_cons, List.flatMap_cons]
      by_cases hint : totalBytes + (escapedByte b).length < 2 ^ 31
      · rw [addInt_of_lt hint, ok_bind, ih hdata' hint]
        simp only [List.length_append, List.append_assoc, Nat.add_assoc]
      · rw [addInt, if_neg hint]
        simp only [List.length_append]
        rw [if_neg (by omega)]
        rfl
    · have hzero : (dataLen - dataCnt).toNat = 0 := by omega
      rw [if_neg hcnt, hzero, List.take_zero]
      simp only [List.flatMap_nil, List.length_nil, Nat.add_zero, List.append_nil, if_pos htotal]

/-- The part of the data that is encoded: as many bytes as the size is in an `int`, and none when that is negative. -/
def encodedPart (v : Bytes) : Bytes := v.take (toInt v.length).toNat

/-- The word that is written for the data. -/
def encodedWord (v : Bytes) : Bytes := varLenEncodeBytes (encodedPart v)

theorem varLenEncodeBytesInt_eq (v : Bytes) :
    varLenEncodeBytesInt v =
      if (encodedWord v).length < 2 ^ 31 then .ok (encodedWord v, (encodedWord v).length) else .error .unrepresentable := by
  have hle : toInt v.length ≤ ((0 : Nat) : Int) + v.length := by
    have h := toInt_le v.length
    omega
  have hloop := encodeLoop_eq (toInt_lt v.length) hle (show 0 < 2 ^ 31 by decide) []
  simp only [Int.natCast_zero, Int.sub_zero, Nat.zero_add, List.nil_append] at hloop
  rw [varLenEncodeBytesInt, encodeBytes, hloop, encodedWord, varLenEncodeBytes_eq, encodedPart, List.length_append]
  by_cases hint : ((v.take (toInt v.length).toNat).flatMap escapedByte).length < 2 ^ 31
  · rw [if_pos hint, ok_bind]
    simp only [addInt, List.length_cons, List.length_nil, Nat.zero_add]
    split
    · rfl
    · rfl
  · rw [if_neg hint, if_neg (by omega)]
    rfl

/-- All of the data is encoded when an `int` holds its size. -/
theorem encodedPart_eq_iff (v : Bytes) : encodedPart v = v ↔ v.length < 2 ^ 31 := by
  constructor
  · intro h
    have hlength := congrArg List.length h
    have hlt := toInt_lt v.length
    rw [encodedPart, List.length_take] at hlength
    omega
  · intro h
    rw [encodedPart, toInt_of_lt h, Int.toNat_natCast, List.take_length]

/-- All of the data is encoded, and the bytes of the word are counted. -/
theorem encodedWord_counted_iff (v : Bytes) :
    encodedPart v = v ∧ (encodedWord v).length < 2 ^ 31 ↔ v.length + v.count encodeEscapeByte + 2 < 2 ^ 31 := by
  have hlength : encodedPart v = v → (encodedWord v).length = v.length + v.count encodeEscapeByte + 2 := by
    intro hall
    rw [encodedWord, hall, length_varLenEncodeBytes]
  constructor
  · intro h
    obtain ⟨hall, hint⟩ := h
    rwa [hlength hall] at hint
  · intro h
    have hall : encodedPart v = v := (encodedPart_eq_iff v).mpr (by omega)
    rw [hlength hall]
    exact ⟨hall, h⟩

/-! ## The decoder -/

/-- A word of the format is read when its bytes are counted. -/
theorem decodeLoop_word {w v : Bytes} (hw : VarLenWord w v) {totalBytes : Nat} (hint : totalBytes + w.length < 2 ^ 31)
    (destData post : Bytes) :
    decodeLoop encodeEscapeByte encodeDelimiter totalBytes destData (w ++ post) = .ok (destData ++ v, totalBytes + w.length) := by
  induction hw generalizing totalBytes destData with
  | delimiter =>
    simp only [List.length_cons, List.length_nil] at hint
    simp [decodeLoop, addInt_of_lt (show totalBytes + 1 < 2 ^ 31 by omega),
      addInt_of_lt (show totalBytes + 1 + 1 < 2 ^ 31 by omega)]
  | escaped c hc _ ih =>
    simp only [List.length_cons] at hint
    simp [decodeLoop, addInt_of_lt (show totalBytes + 1 < 2 ^ 31 by omega),
      addInt_of_lt (show totalBytes + 1 + 1 < 2 ^ 31 by omega), hc, ih (show totalBytes + 1 + 1 + _ < 2 ^ 31 by omega)]
    omega
  | plain b hb _ ih =>
    simp only [List.length_cons] at hint
    simp [decodeLoop, addInt_of_lt (show totalBytes + 1 < 2 ^ 31 by omega), hb, ih (show totalBytes + 1 + _ < 2 ^ 31 by omega)]
    omega

/-- A round of the decoder: at a plain byte, it is pushed. -/
theorem decodeLoop_plain {b : UInt8} (hb : b ≠ encodeEscapeByte) (totalBytes : Nat) (destData rest : Bytes) :
    decodeLoop encodeEscapeByte encodeDelimiter totalBytes destData (b :: rest) =
      addInt totalBytes 1 >>= fun totalBytes =>
        decodeLoop encodeEscapeByte encodeDelimiter totalBytes (destData ++ [b]) rest := by
  rw [decodeLoop.eq_def]
  simp only [if_neg hb]

/-- At the escape byte, the byte behind it ends the string or is pushed. -/
theorem decodeLoop_escape (totalBytes : Nat) (destData : Bytes) (c : UInt8) (rest : Bytes) :
    decodeLoop encodeEscapeByte encodeDelimiter totalBytes destData (encodeEscapeByte :: c :: rest) =
      addInt totalBytes 1 >>= fun totalBytes => addInt totalBytes 1 >>= fun totalBytes =>
        if c = encodeDelimiter then .ok (destData, totalBytes)
        else decodeLoop encodeEscapeByte encodeDelimiter totalBytes (destData ++ [c]) rest := by
  rw [decodeLoop.eq_def]
  simp only [if_true]
  split
  · rfl
  · rfl

/-- What the loop returns was read in a word of the format, and counted. -/
theorem word_of_decodeLoop {totalBytes n : Nat} {destData rest r : Bytes}
    (h : decodeLoop encodeEscapeByte encodeDelimiter totalBytes destData rest = .ok (r, n)) :
    ∃ w v post, rest = w ++ post ∧ VarLenWord w v ∧ r = destData ++ v ∧ n = totalBytes + w.length ∧ n < 2 ^ 31 := by
  induction hsize : rest.length using Nat.strongRecOn generalizing totalBytes destData rest with
  | _ size ih =>
    subst hsize
    cases rest with
    | nil => nomatch h
    | cons b rest =>
      by_cases hb : b = encodeEscapeByte
      · subst hb
        cases rest with
        | nil =>
          obtain ⟨_, -, h⟩ := (bind_eq_ok_iff _ _ _).mp h
          nomatch h
        | cons c rest =>
          rw [decodeLoop_escape] at h
          obtain ⟨t, ht, h₁⟩ := (bind_eq_ok_iff _ _ _).mp h
          obtain ⟨u, hu, h₂⟩ := (bind_eq_ok_iff _ _ _).mp h₁
          obtain ⟨-, rfl⟩ := (addInt_ok_iff ..).mp ht
          obtain ⟨hcounted, rfl⟩ := (addInt_ok_iff ..).mp hu
          by_cases hc : c = encodeDelimiter
          · rw [if_pos hc] at h₂
            obtain ⟨rfl, rfl⟩ := Prod.mk.inj (Except.ok.inj h₂)
            exact ⟨_, [], rest, by rw [hc]; rfl, .delimiter, (List.append_nil _).symm, rfl, hcounted⟩
          · rw [if_neg hc] at h₂
            obtain ⟨w, v, post, rfl, hw, rfl, rfl, hlt⟩ := ih rest.length (by simp only [List.length_cons]; omega) h₂ rfl
            refine ⟨_, _, post, rfl, .escaped c hc hw, by simp, ?_, hlt⟩
            simp only [List.length_cons]
            omega
      · rw [decodeLoop_plain hb] at h
        obtain ⟨t, ht, h⟩ := (bind_eq_ok_iff _ _ _).mp h
        obtain ⟨-, rfl⟩ := (addInt_ok_iff ..).mp ht
        obtain ⟨w, v, post, rfl, hw, rfl, rfl, hlt⟩ := ih rest.length (by simp only [List.length_cons]; omega) h rfl
        refine ⟨_, _, post, rfl, .plain b hb hw, by simp, ?_, hlt⟩
        simp only [List.length_cons]
        omega

/-- `var_len_decode_bytes` returns from exactly the words that are counted. -/
theorem parses_varLenDecodeBytesInt : Parses varLenDecodeBytesInt CountedWord := by
  intro pre rest v n
  simp only [varLenDecodeBytesInt, decodeBytes, List.drop_left]
  constructor
  · intro h
    obtain ⟨w, v', post, rfl, hw, rfl, rfl, hlt⟩ := word_of_decodeLoop h
    rw [Nat.zero_add] at hlt ⊢
    exact ⟨w, post, rfl, ⟨hw, hlt⟩, rfl⟩
  · intro h
    obtain ⟨w, post, rfl, hw, rfl⟩ := h
    have hloop := decodeLoop_word hw.word (by rw [Nat.zero_add]; exact hw.counted) [] post
    rwa [Nat.zero_add, List.nil_append] at hloop

theorem roundTrips_varLenDecodeBytesInt {w v : Bytes} (hw : VarLenWord w v) (hint : w.length < 2 ^ 31) :
    RoundTrips varLenDecodeBytesInt w v :=
  parses_varLenDecodeBytesInt.roundTrips ⟨hw, hint⟩

end NetworkingFramework
