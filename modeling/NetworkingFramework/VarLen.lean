import NetworkingFramework.Lib.Wire

/-!
# Variable-length byte strings

`lib/var_len_encoding`: a byte string of any length is written with its zero bytes doubled and closed by the pair
`00 01`. The format that is decoded (`VarLenWord`) is wider than what the encoder writes: any byte but the delimiter may
stand after the escape byte.
-/

namespace NetworkingFramework

open Wire

/-- `ENCODE_ESCAPE_BYTE`. -/
def encodeEscapeByte : UInt8 := 0x00

/-- `ENCODE_DELIMITER`. -/
def encodeDelimiter : UInt8 := 0x01

/-- `var_len_encode_bytes`: the bytes written to the buffer. -/
def varLenEncodeBytes : Bytes → Bytes
  | [] => [encodeEscapeByte, encodeDelimiter]
  | b :: srcData =>
    if b = encodeEscapeByte then encodeEscapeByte :: b :: varLenEncodeBytes srcData
    else b :: varLenEncodeBytes srcData

/-- The words that `var_len_decode_bytes` takes for a string: plain bytes and escaped ones, closed by the delimiter. -/
inductive VarLenWord : Bytes → Bytes → Prop where
  | delimiter : VarLenWord [encodeEscapeByte, encodeDelimiter] []
  | escaped {w v : Bytes} (c : UInt8) (hc : c ≠ encodeDelimiter) :
      VarLenWord w v → VarLenWord (encodeEscapeByte :: c :: w) (c :: v)
  | plain {w v : Bytes} (b : UInt8) (hb : b ≠ encodeEscapeByte) : VarLenWord w v → VarLenWord (b :: w) (b :: v)

/-- What the encoder writes is a word of the format. -/
theorem varLenWord_encode (v : Bytes) : VarLenWord (varLenEncodeBytes v) v := by
  induction v with
  | nil => exact .delimiter
  | cons b v ih =>
    unfold varLenEncodeBytes
    split
    · rename_i hb
      exact .escaped b (by rw [hb]; decide) ih
    · rename_i hb
      exact .plain b hb ih

/-- Of two words at the same place the second is the first. -/
theorem VarLenWord.eq_of_append {w w' v v' post post' : Bytes} (h : VarLenWord w v) (h' : VarLenWord w' v')
    (heq : w ++ post = w' ++ post') : w = w' ∧ v = v' := by
  induction h generalizing w' v' with
  | delimiter =>
    cases h' with
    | delimiter => exact ⟨rfl, rfl⟩
    | escaped c hc _ =>
      simp only [List.cons_append, List.cons.injEq] at heq
      exact absurd heq.2.1.symm hc
    | plain b hb _ =>
      simp only [List.cons_append, List.cons.injEq] at heq
      exact absurd heq.1.symm hb
  | escaped c hc _ ih =>
    cases h' with
    | delimiter =>
      simp only [List.cons_append, List.cons.injEq] at heq
      exact absurd heq.2.1 hc
    | escaped c' _ hw' =>
      simp only [List.cons_append, List.cons.injEq, true_and] at heq
      obtain ⟨rfl, hrest⟩ := heq
      obtain ⟨rfl, rfl⟩ := ih hw' hrest
      exact ⟨rfl, rfl⟩
    | plain b hb _ =>
      simp only [List.cons_append, List.cons.injEq] at heq
      exact absurd heq.1.symm hb
  | plain b hb _ ih =>
    cases h' with
    | delimiter =>
      simp only [List.cons_append, List.cons.injEq] at heq
      exact absurd heq.1 hb
    | escaped c' _ _ =>
      simp only [List.cons_append, List.cons.injEq] at heq
      exact absurd heq.1 hb
    | plain b' _ hw' =>
      simp only [List.cons_append, List.cons.injEq] at heq
      obtain ⟨rfl, hrest⟩ := heq
      obtain ⟨rfl, rfl⟩ := ih hw' hrest
      exact ⟨rfl, rfl⟩

end NetworkingFramework
