import NetworkingFramework.Ethernet2Crc

/-!
# Frame checks

The checksum that is computed from the table is the one defined a bit at a time, and a buffer followed by its checksum has a
checksum that does not depend on the buffer. It is another one when up to 32 bits of it, one after the other, were changed on
the way.
-/

namespace NetworkingFramework

open Wire ShiftRegister

/-! ## A byte is eight bits -/

theorem low_bit (crc : UInt32) : crc &&& 1 ≠ 0 ↔ crc.toBitVec.getLsbD 0 = true := by
  have hlow : (crc &&& 1).toBitVec = BitVec.setWidth 32 (BitVec.ofBool (crc.toBitVec.getLsbD 0)) := by
    rw [UInt32.toBitVec_and]
    exact BitVec.and_one_eq_setWidth_ofBool_getLsbD
  rw [Ne, ← UInt32.toBitVec_inj, hlow]
  cases crc.toBitVec.getLsbD 0 <;> decide

theorem toBitVec_shiftCrc (crc : UInt32) : (shiftCrc crc).toBitVec = shift poly.toBitVec crc.toBitVec := by
  unfold shiftCrc shift
  by_cases h : crc &&& 1 ≠ 0
  · rw [if_pos h, if_pos ((low_bit crc).mp h)]
    rfl
  · rw [if_neg h, if_neg (mt (low_bit crc).mpr h)]
    rfl

theorem toBitVec_shiftCrcs (crc : UInt32) (k : Nat) :
    (shiftCrc^[k] crc).toBitVec = (shift poly.toBitVec)^[k] crc.toBitVec := by
  induction k with
  | zero => rfl
  | succ k ih => rw [Function.iterate_succ_apply', Function.iterate_succ_apply', toBitVec_shiftCrc, ih]

/-- Every entry of the table is eight shifts of its index. -/
theorem toBitVec_crc32Table (i : Fin 256) :
    (crc32Table.get i).toBitVec = (shift poly.toBitVec)^[8] (BitVec.ofNat 32 i) := by
  rw [crc32Table, List.Vector.get_ofFn, toBitVec_shiftCrcs]
  rfl

theorem toNat_and_byte (x : UInt32) : (x &&& 0xFF).toNat = x.toNat % 2 ^ 8 := by
  rw [UInt32.toNat_and]
  exact Nat.and_two_pow_sub_one_eq_mod x.toNat 8

/-- A step of the loop feeds the bits of a byte. -/
theorem toBitVec_stepCrc (crc : UInt32) (byte : UInt8) :
    (stepCrc crc byte).toBitVec = feed poly.toBitVec crc.toBitVec (bitsOf 8 byte.toNat) := by
  have hbyte : byte.toUInt32.toBitVec = BitVec.ofNat 32 byte.toNat := by
    apply BitVec.eq_of_toNat_eq
    have hlt := byte.toNat_lt
    rw [BitVec.toNat_ofNat, Nat.mod_eq_of_lt (by omega)]
    exact UInt8.toNat_toUInt32 byte
  have hhigh : BitVec.ofNat 32 byte.toNat >>> 8 = 0#32 := by
    apply BitVec.eq_of_toNat_eq
    have hlt := byte.toNat_lt
    rw [BitVec.toNat_ushiftRight, BitVec.toNat_ofNat, Nat.mod_eq_of_lt (by omega), Nat.shiftRight_eq_div_pow]
    exact Nat.div_eq_of_lt hlt
  have hindex : (Fin.ofNat 256 ((crc ^^^ byte.toUInt32) &&& 0xFF).toNat : Nat) = (crc ^^^ byte.toUInt32).toNat % 2 ^ 8 := by
    rw [toNat_and_byte]
    exact Nat.mod_mod _ _
  have hfed : feed poly.toBitVec crc.toBitVec (bitsOf 8 byte.toNat) =
      (shift poly.toBitVec)^[8] (crc.toBitVec ^^^ BitVec.ofNat 32 byte.toNat) := by
    have hlen : (bitsOf 8 byte.toNat).length ≤ 32 := by simp
    rw [feed_eq _ _ hlen, length_bitsOf, word_bitsOf, Nat.mod_eq_of_lt byte.toNat_lt]
  rw [hfed, shifts_eq_low, BitVec.ushiftRight_xor_distrib, hhigh, BitVec.xor_zero, stepCrc, UInt32.toBitVec_xor,
    toBitVec_crc32Table, hindex, low, ← hbyte]
  rfl

theorem bits_cons (byte : UInt8) (data : Bytes) : bits (byte :: data) = bitsOf 8 byte.toNat ++ bits data := List.flatMap_cons

theorem bits_append (data data' : Bytes) : bits (data ++ data') = bits data ++ bits data' := List.flatMap_append

/-- The loop over a buffer feeds its bits. -/
theorem toBitVec_crcLoop (crc : UInt32) (data : Bytes) :
    (data.foldl stepCrc crc).toBitVec = feed poly.toBitVec crc.toBitVec (bits data) := by
  induction data generalizing crc with
  | nil => rfl
  | cons byte data ih => rw [List.foldl_cons, ih, toBitVec_stepCrc, bits_cons, feed_append]

/-- The table and the definition give one checksum. -/
theorem ethernetCalcCrc_eq (data : Bytes) : ethernetCalcCrc data = bitSerialCrc data := by
  apply UInt32.toBitVec_inj.mp
  rw [ethernetCalcCrc, UInt32.toBitVec_not, toBitVec_crcLoop]
  rfl

/-! ## A buffer and its checksum -/

/-- The bits of a word in memory. -/
theorem bits_storeU32 (x : UInt32) : bits (storeU32 x) = bitsOf 32 x.toNat := by
  have hbyte (n : Nat) : bitsOf 8 (UInt8.ofNat n).toNat = bitsOf 8 n := bitsOf_mod 8 n
  have hsplit : bitsOf 32 x.toNat = bitsOf 8 x.toNat ++ (bitsOf 8 (x.toNat / 256) ++ (bitsOf 8 (x.toNat / 65536) ++
      bitsOf 8 (x.toNat / 16777216))) := by
    rw [bitsOf_add 8 24, bitsOf_add 8 16, bitsOf_add 8 8, Nat.div_div_eq_div_mul, Nat.div_div_eq_div_mul]
    simp only [Nat.reducePow, Nat.reduceMul]
  rw [storeU32, bits_cons, bits_cons, bits_cons, bits_cons, hbyte, hbyte, hbyte, hbyte, hsplit]
  exact congrArg _ (congrArg _ (congrArg _ (List.append_nil _)))

/-- A register that is fed the complement of what it holds. -/
theorem bitSerialCrc_append (data : Bytes) : bitSerialCrc (data ++ storeU32 (bitSerialCrc data)) = 0x2144DF1C := by
  have hfed : feed poly.toBitVec (BitVec.allOnes 32) (bits (data ++ storeU32 (bitSerialCrc data))) =
      (shift poly.toBitVec)^[32] (BitVec.allOnes 32) := by
    rw [bits_append, bits_storeU32, feed_append]
    exact feed_complement _ _
  rw [bitSerialCrc, hfed]
  decide +kernel

/-- The checksum a byte at a time from the table is the one a bit at a time, and every buffer followed by its checksum has the
same checksum. -/
theorem ethernetCalcCrc_bitSerial (data : Bytes) : ethernetCalcCrc data = bitSerialCrc data ∧
    ethernetCalcCrc (data ++ storeU32 (ethernetCalcCrc data)) = 0x2144DF1C := by
  rw [ethernetCalcCrc_eq, ethernetCalcCrc_eq, bitSerialCrc_append]
  exact ⟨rfl, rfl⟩

/-! ## Bits that were changed on the way -/

/-- All that differs lies within so many bits, one after the other. -/
def BurstApart (n : Nat) (data data' : Bytes) : Prop :=
  ∃ pre burst burst' post, bits data = pre ++ burst ++ post ∧ bits data' = pre ++ burst' ++ post ∧
    burst.length = burst'.length ∧ burst.length ≤ n

theorem bits_injective : Function.Injective bits := by
  intro data
  induction data with
  | nil =>
    intro data' h
    cases data' with
    | nil => rfl
    | cons byte' data' => cases h
  | cons byte data ih =>
    intro data' h
    cases data' with
    | nil => cases h
    | cons byte' data' =>
      rw [bits_cons, bits_cons] at h
      obtain ⟨hbyte, hdata⟩ := List.append_inj h (by simp)
      rw [ih hdata, UInt8.toNat_inj.mp (eq_of_bitsOf_eq byte.toNat_lt byte'.toNat_lt hbyte)]

theorem bits_xor (data data' : Bytes) : bits (List.zipWith (· ^^^ ·) data data') = List.zipWith xor (bits data) (bits data') := by
  induction data generalizing data' with
  | nil => rfl
  | cons byte data ih =>
    cases data' with
    | nil => rw [List.zipWith_nil_right]; exact (List.zipWith_nil_right ..).symm
    | cons byte' data' =>
      rw [List.zipWith_cons_cons, bits_cons, bits_cons, bits_cons, List.zipWith_append (by simp), ih, UInt8.toNat_xor, bitsOf_xor]

theorem length_bits (data : Bytes) : (bits data).length = 8 * data.length := by
  induction data with
  | nil => rfl
  | cons byte data ih =>
    rw [bits_cons, List.length_append, length_bitsOf, ih, List.length_cons]
    omega

/-- Two buffers have one checksum when they leave the same in the register. -/
theorem bitSerialCrc_eq_iff (data data' : Bytes) : bitSerialCrc data = bitSerialCrc data' ↔
    feed poly.toBitVec (BitVec.allOnes 32) (bits data) = feed poly.toBitVec (BitVec.allOnes 32) (bits data') := by
  constructor
  · intro h
    have hcomplement := congrArg (fun crc => ~~~crc.toBitVec) h
    simpa [bitSerialCrc] using hcomplement
  · intro h
    rw [bitSerialCrc, bitSerialCrc, h]

theorem bitSerialCrc_ne_of_burst {data data' : Bytes} (hne : data' ≠ data) (hburst : BurstApart 32 data data') :
    bitSerialCrc data' ≠ bitSerialCrc data := by
  obtain ⟨pre, burst, burst', post, hdata, hdata', hlen, hle⟩ := hburst
  have hchanged : burst ≠ burst' := by
    rintro rfl
    exact hne (bits_injective (hdata'.trans hdata.symm))
  intro h
  have hfed := (bitSerialCrc_eq_iff data data').mp h.symm
  rw [hdata, hdata'] at hfed
  exact feed_ne_of_burst (by decide) _ pre post hlen hle hchanged hfed

/-- A one and the polynomial, on five bytes. -/
def unseenChange : Bytes := [0x41, 0x06, 0x71, 0xDB, 0x01]

theorem bits_unseenChange : bits unseenChange = bitsOf 33 0x1DB710641 ++ List.replicate 7 false := by decide

theorem zipWith_xor_false (l : List Bool) : List.zipWith xor l (List.replicate l.length false) = l := by
  induction l with
  | nil => rfl
  | cons b l ih => rw [List.length_cons, List.replicate_succ, List.zipWith_cons_cons, ih, Bool.xor_false]

/-- Its 33 bits make a change that no checksum shows. -/
theorem exists_unseen (pre post : Bytes) {mid : Bytes} (hmid : mid.length = 5) :
    ∃ mid', mid' ≠ mid ∧ BurstApart 33 (pre ++ mid ++ post) (pre ++ mid' ++ post) ∧
      bitSerialCrc (pre ++ mid' ++ post) = bitSerialCrc (pre ++ mid ++ post) := by
  have hbits := bits_xor mid unseenChange
  have hlen : (bits mid).length = (bits unseenChange).length := by rw [length_bits, length_bits, hmid]; rfl
  refine ⟨List.zipWith (· ^^^ ·) mid unseenChange, ?_, ?_, ?_⟩
  · intro hsame
    rw [hsame] at hbits
    have hfirst : (bits mid).head? = (bits mid).head?.map (xor · true) := by
      nth_rewrite 1 [hbits]
      cases bits mid with
      | nil => rfl
      | cons b rest => rfl
    cases hmidBits : bits mid with
    | nil => rw [hmidBits] at hlen; cases hlen
    | cons b rest => rw [hmidBits] at hfirst; cases b <;> cases hfirst
  · have hsplit : bits mid = (bits mid).take 33 ++ (bits mid).drop 33 := (List.take_append_drop 33 _).symm
    have htake : ((bits mid).take 33).length = 33 := by rw [List.length_take, length_bits, hmid]; rfl
    have hdrop : ((bits mid).drop 33).length = 7 := by rw [List.length_drop, length_bits, hmid]
    refine ⟨bits pre, (bits mid).take 33, List.zipWith xor ((bits mid).take 33) (bitsOf 33 0x1DB710641),
      (bits mid).drop 33 ++ bits post, ?_, ?_, ?_, Nat.le_of_eq htake⟩
    · rw [bits_append, bits_append, List.append_assoc, List.append_assoc, ← List.append_assoc (List.take ..), ← hsplit]
    · have hrest : List.zipWith xor ((bits mid).drop 33) (List.replicate 7 false) = (bits mid).drop 33 := by
        rw [← hdrop]
        exact zipWith_xor_false _
      have hmid' : bits (List.zipWith (· ^^^ ·) mid unseenChange) =
          List.zipWith xor ((bits mid).take 33) (bitsOf 33 0x1DB710641) ++ (bits mid).drop 33 := by
        rw [hbits, bits_unseenChange]
        nth_rewrite 1 [hsplit]
        rw [List.zipWith_append (by rw [htake, length_bitsOf]), hrest]
      rw [bits_append, bits_append, hmid', List.append_assoc, List.append_assoc, List.append_assoc]
    · rw [List.length_zipWith, length_bitsOf, htake]
      rfl
  · rw [bitSerialCrc_eq_iff, bits_append, bits_append, bits_append, bits_append, hbits]
    exact feed_unseen _ _ _ hlen (by decide +kernel)

/-- A buffer is followed by its checksum, and 32 of all these bits, or fewer, one after the other, are changed on the way: the
checksum is not the one that every such buffer has. With 33 bits from the first bit of a byte on it can be, wherever the byte
is. -/
theorem ethernetCalcCrc_detects_bursts :
    (∀ data received, received ≠ data ++ storeU32 (ethernetCalcCrc data) →
      BurstApart 32 (data ++ storeU32 (ethernetCalcCrc data)) received → ethernetCalcCrc received ≠ 0x2144DF1C) ∧
    ∀ pre mid post : Bytes, mid.length = 5 → ∃ mid', mid' ≠ mid ∧ BurstApart 33 (pre ++ mid ++ post) (pre ++ mid' ++ post) ∧
      ethernetCalcCrc (pre ++ mid' ++ post) = ethernetCalcCrc (pre ++ mid ++ post) := by
  constructor
  · intro data received hne hburst
    rw [ethernetCalcCrc_eq data] at hne hburst
    rw [ethernetCalcCrc_eq, ← bitSerialCrc_append data]
    exact bitSerialCrc_ne_of_burst hne hburst
  · intro pre mid post hmid
    simp only [ethernetCalcCrc_eq]
    exact exists_unseen pre post hmid

/-- One bit of a byte. -/
theorem ethernetCalcCrc_detects_bursts_one : ethernetCalcCrc ([0] ++ storeU32 (ethernetCalcCrc [1])) ≠ 0x2144DF1C :=
  ethernetCalcCrc_detects_bursts.1 [1] _ (by simp) ⟨[], bits [1], bits [0], _, bits_append .., bits_append .., rfl, by decide⟩

end NetworkingFramework
