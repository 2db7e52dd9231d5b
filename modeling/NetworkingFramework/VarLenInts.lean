import NetworkingFramework.Ints
import NetworkingFramework.VarLen

/-!
# Variable-length byte strings, counted

`lib/var_len_encoding` once more, with its counters as the `int`s they are, and the copy of both functions in `utils/udata.h`. The
number of bytes that the encoder is given is narrowed to an `int`, and both count what they wrote or read in one.
-/

namespace NetworkingFramework

open Wire Wire.Decoder

/-- The loop of the encoders, on what is left of the data: the bytes written to the buffer and how many they are. -/
def encodeLoop (escapeByte : UInt8) (dataLen : Int) : Nat → Nat → Bytes → Bytes → Except Fault (Bytes × Nat)
  | dataCnt, totalBytes, destBuff, [] => if dataCnt < dataLen then .error .outOfBounds else .ok (destBuff, totalBytes)
  | dataCnt, totalBytes, destBuff, b :: srcData =>
    if dataCnt < dataLen then
      if b = escapeByte then do
        encodeLoop escapeByte dataLen (← addInt dataCnt 1) (← addInt totalBytes 2) (destBuff ++ [escapeByte, b]) srcData
      else do
        encodeLoop escapeByte dataLen (← addInt dataCnt 1) (← addInt totalBytes 1) (destBuff ++ [b]) srcData
    else .ok (destBuff, totalBytes)

/-- The encoders: the bytes written to the buffer and the count returned. -/
def encodeBytes (escapeByte delimiter : UInt8) (srcData : Bytes) : Except Fault (Bytes × Nat) := do
  let (destBuff, totalBytes) ← encodeLoop escapeByte (toInt srcData.length) 0 0 [] srcData
  return (destBuff ++ [escapeByte, delimiter], ← addInt totalBytes 2)

/-- The loop of the decoders, on what is left of the buffer: the bytes pushed and the count returned. -/
def decodeLoop (escapeByte delimiter : UInt8) : Nat → Bytes → Bytes → Except Fault (Bytes × Nat)
  | _, _, [] => .error .outOfBounds
  | totalBytes, destData, b :: rest =>
    if b = escapeByte then do
      let totalBytes ← addInt totalBytes 1
      match rest with
      | [] => .error .outOfBounds
      | c :: rest =>
        if c = delimiter then return (destData, ← addInt totalBytes 1)
        else decodeLoop escapeByte delimiter (← addInt totalBytes 1) (destData ++ [c]) rest
    else do decodeLoop escapeByte delimiter (← addInt totalBytes 1) (destData ++ [b]) rest

/-- The decoders. -/
def decodeBytes (escapeByte delimiter : UInt8) : Decoder Bytes := ⟨fun p o => decodeLoop escapeByte delimiter 0 [] (p.drop o)⟩

/-- `var_len_encode_bytes`, with the count it returns. -/
def varLenEncodeBytesInt (srcData : Bytes) : Except Fault (Bytes × Nat) := encodeBytes encodeEscapeByte encodeDelimiter srcData

/-- `var_len_decode_bytes`. -/
def varLenDecodeBytesInt : Decoder Bytes := decodeBytes encodeEscapeByte encodeDelimiter

/-- The words that `var_len_decode_bytes` returns from: those that an `int` counts. -/
structure CountedWord (w v : Bytes) : Prop where
  word : VarLenWord w v
  counted : w.length < 2 ^ 31

/-- `CODE_ESCAPE_BYTE`. -/
def codeEscapeByte : UInt8 := 0x00

/-- `CODE_DELIMITER`. -/
def codeDelimiter : UInt8 := 0x01

/-- `encode_data`. -/
def encodeData (srcData : Bytes) : Except Fault (Bytes × Nat) := encodeBytes codeEscapeByte codeDelimiter srcData

/-- `decode_data`. -/
def decodeData : Decoder Bytes := decodeBytes codeEscapeByte codeDelimiter

end NetworkingFramework
