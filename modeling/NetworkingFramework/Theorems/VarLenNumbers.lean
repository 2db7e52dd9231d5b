import NetworkingFramework.VarLenNum

/-!
# Variable-length numbers read back

The decoder shifts every group as an `int`, so a number comes back as it was written when an `int` has room for it.
-/

namespace NetworkingFramework

open Wire

variable {w : Nat}

/-! ## The groups of a number -/

theorem toNat_lowGroup (num : BitVec w) : (lowGroup num).toNat = num.toNat % 128 := by
  have hgroup : (lowGroup num).toBitVec = BitVec.ofNat 8 (num.toNat % 2 ^ 7) := by
    apply BitVec.eq_of_getLsbD_eq
    intro i hi
    have hmask : groupMask.getLsbD i = decide (i < 7) := by
      have hmasks : ∀ i < 8, groupMask.getLsbD i = decide (i < 7) := by decide
      exact hmasks i hi
    have hi32 : i < 32 := by omega
    have hmax : i < max 32 w := Nat.lt_of_lt_of_le hi32 (Nat.le_max_left _ _)
    rw [lowGroup, BitVec.getLsbD_setWidth, BitVec.getLsbD_and, BitVec.getLsbD_setWidth, BitVec.getLsbD_signExtend, if_pos hi32,
      hmask, BitVec.getLsbD_ofNat, Nat.testBit_mod_two_pow, decide_eq_true hi, decide_eq_true hmax, Bool.true_and, Bool.true_and,
      Bool.true_and, Bool.true_and, Bool.and_comm]
    rfl
  rw [← UInt8.toNat_toBitVec, hgroup, BitVec.toNat_ofNat]
  omega

theorem lowGroup_lt (num : BitVec w) : (lowGroup num).toNat < 128 := by
  rw [toNat_lowGroup]
  exact Nat.mod_lt _ (by decide)

/-- The flag is the highest bit. -/
theorem nextFlag_iff (b : UInt8) : b &&& nextFlag ≠ 0 ↔ 128 ≤ b.toNat := by
  have hflag : nextFlag.toBitVec = BitVec.twoPow 8 7 := by decide
  have hmsb : b.toBitVec.getLsbD 7 = decide (128 ≤ b.toNat) := BitVec.msb_eq_decide b.toBitVec
  rw [Ne, ← UInt8.toBitVec_inj, UInt8.toBitVec_and, hflag, BitVec.and_twoPow, hmsb]
  by_cases h : 128 ≤ b.toNat <;> simp [h, BitVec.twoPow]

theorem toNat_flagged (num : BitVec w) : (lowGroup num ||| nextFlag).toNat = num.toNat % 128 + 128 := by
  have hor : 2 ^ 7 * 1 + (lowGroup num).toNat = 2 ^ 7 * 1 ||| (lowGroup num).toNat :=
    Nat.two_pow_add_eq_or_of_lt (lowGroup_lt num) 1
  calc (lowGroup num ||| nextFlag).toNat = (lowGroup num).toNat ||| 128 := UInt8.toNat_or ..
    _ = 128 + (lowGroup num).toNat := by rw [Nat.or_comm]; exact hor.symm
    _ = num.toNat % 128 + 128 := by rw [toNat_lowGroup, Nat.add_comm]

/-- The byte that a round of the encoder writes. -/
def groupByte (num : BitVec w) : UInt8 := if num >>> 7 ≠ 0#w then lowGroup num ||| nextFlag else lowGroup num

theorem toNat_groupByte (num : BitVec w) : (groupByte num).toNat % 128 = num.toNat % 128 := by
  unfold groupByte
  split
  · rw [toNat_flagged]
    omega
  · rw [toNat_lowGroup]
    omega

theorem groupByte_flag (num : BitVec w) : groupByte num &&& nextFlag ≠ 0 ↔ num >>> 7 ≠ 0#w := by
  rw [nextFlag_iff]
  unfold groupByte
  split
  · rename_i h
    rw [toNat_flagged]
    exact iff_of_true (Nat.le_add_left _ _) h
  · rename_i h
    exact iff_of_false (Nat.not_le_of_lt (lowGroup_lt num)) h

theorem encodeNumLoop_zero : encodeNumLoop 0#w = [] := by
  rw [encodeNumLoop, if_pos rfl]

theorem encodeNumLoop_of_ne {num : BitVec w} (h : num ≠ 0#w) :
    encodeNumLoop num = groupByte num :: encodeNumLoop (num >>> 7) := by
  rw [encodeNumLoop, if_neg h]
  rfl

theorem toNat_rest (num : BitVec w) : (num >>> 7).toNat = num.toNat / 128 := by
  rw [BitVec.toNat_ushiftRight, Nat.shiftRight_eq_div_pow]

theorem toNat_pos {num : BitVec w} (h : num ≠ 0#w) : 0 < num.toNat :=
  Nat.pos_of_ne_zero fun hzero => h (BitVec.eq_of_toNat_eq (by simpa using hzero))

/-- A number without its lowest group is smaller. -/
theorem toNat_rest_lt {num : BitVec w} (h : num ≠ 0#w) : (num >>> 7).toNat < num.toNat := by
  rw [toNat_rest]
  exact Nat.div_lt_self (toNat_pos h) (by decide)

/-- Statements about the numbers that the encoder's loop comes to. -/
theorem group_induction {motive : BitVec w → Prop} (zero : motive 0#w)
    (group : ∀ num, num ≠ 0#w → motive (num >>> 7) → motive num) (num : BitVec w) : motive num := by
  by_cases h : num = 0#w
  · rw [h]
    exact zero
  · exact group num h (group_induction zero group (num >>> 7))
termination_by num.toNat
decreasing_by exact toNat_rest_lt h

/-- As many groups are written as the number needs. -/
theorem toNat_lt_of_groups (num : BitVec w) : num.toNat < 2 ^ (7 * (encodeNumLoop num).length) := by
  induction num using group_induction with
  | zero => simp [encodeNumLoop_zero]
  | group num h ih =>
    rw [toNat_rest] at ih
    rw [encodeNumLoop_of_ne h, List.length_cons, Nat.mul_succ, Nat.pow_add]
    omega

/-! ## The decoder -/

/-- A round of the decoder. -/
theorem decodeNumLoop_cons (bitsCnt : Nat) (resNum : BitVec w) (b : UInt8) (rest : Bytes) :
    decodeNumLoop bitsCnt resNum (b :: rest) = if bitsCnt < 32 then
      let resNum := resNum ||| (BitVec.ofNat 32 (b.toNat % 128) <<< bitsCnt).signExtend w
      if b &&& nextFlag ≠ 0 then (decodeNumLoop (bitsCnt + 7) resNum rest).map fun (num, cnt) => (num, cnt + 1)
      else .ok (resNum, 1)
    else .error .wideShift := by
  have hgroup : (lowGroup b.toBitVec).toBitVec.setWidth 32 = BitVec.ofNat 32 (b.toNat % 128) := by
    apply BitVec.eq_of_toNat_eq
    rw [BitVec.toNat_setWidth, UInt8.toNat_toBitVec, toNat_lowGroup, UInt8.toNat_toBitVec, BitVec.toNat_ofNat]
  rw [decodeNumLoop, hgroup, shiftInt]
  by_cases h : bitsCnt < 32
  · rw [if_pos h, if_pos h, ok_bind]
  · rw [if_neg h, if_neg h]
    rfl

/-- A group that fits into an `int`, or one of a number that is no longer than an `int`, is put where it belongs. -/
theorem signExtend_group {group bitsCnt L : Nat} (hfit : group * 2 ^ bitsCnt < 2 ^ L) (hL : L ≤ 31 ∨ L ≤ 32 ∧ w ≤ 32) :
    (BitVec.ofNat 32 group <<< bitsCnt).signExtend w = BitVec.ofNat w (group * 2 ^ bitsCnt) := by
  have hword : BitVec.ofNat 32 group <<< bitsCnt = BitVec.ofNat 32 (group * 2 ^ bitsCnt) := by
    apply BitVec.eq_of_toNat_eq
    rw [BitVec.toNat_shiftLeft, BitVec.toNat_ofNat, BitVec.toNat_ofNat, Nat.shiftLeft_eq, Nat.mod_mul_mod]
  have hlt : group * 2 ^ bitsCnt < 2 ^ 32 := Nat.lt_of_lt_of_le hfit (Nat.pow_le_pow_right (by decide) (by omega))
  have hwidth : (BitVec.ofNat 32 (group * 2 ^ bitsCnt)).setWidth w = BitVec.ofNat w (group * 2 ^ bitsCnt) := by
    apply BitVec.eq_of_toNat_eq
    rw [BitVec.toNat_setWidth, BitVec.toNat_ofNat, BitVec.toNat_ofNat, Nat.mod_eq_of_lt hlt]
  rw [hword, ← hwidth]
  rcases hL with hL | ⟨-, hw⟩
  · have hmsb : (BitVec.ofNat 32 (group * 2 ^ bitsCnt)).msb = false := by
      have hlow : group * 2 ^ bitsCnt < 2 ^ 31 := Nat.lt_of_lt_of_le hfit (Nat.pow_le_pow_right (by decide) hL)
      rw [BitVec.msb_eq_decide, BitVec.toNat_ofNat, Nat.mod_eq_of_lt hlt]
      exact decide_eq_false (Nat.not_le_of_lt hlow)
    exact BitVec.signExtend_eq_setWidth_of_msb_false hmsb
  · exact BitVec.signExtend_eq_setWidth_of_le _ hw

/-- A number is its lowest group and the others, each at its place. -/
theorem or_groups (n bitsCnt : Nat) : n % 128 * 2 ^ bitsCnt ||| n / 128 * 2 ^ (bitsCnt + 7) = n * 2 ^ bitsCnt := by
  have hor : 2 ^ 7 * (n / 128) + n % 128 = 2 ^ 7 * (n / 128) ||| n % 128 :=
    Nat.two_pow_add_eq_or_of_lt (Nat.mod_lt n (by decide)) (n / 128)
  have hn : n = n % 128 ||| 2 ^ 7 * (n / 128) := by
    rw [Nat.or_comm, ← hor]
    exact (Nat.div_add_mod n 128).symm
  have hhigh : n / 128 * 2 ^ (bitsCnt + 7) = (2 ^ 7 * (n / 128)) <<< bitsCnt := by
    rw [Nat.shiftLeft_eq, Nat.pow_add, Nat.mul_comm (2 ^ 7), Nat.mul_assoc, Nat.mul_comm (2 ^ 7)]
  conv_rhs => rw [hn]
  rw [hhigh, ← Nat.shiftLeft_eq, ← Nat.shiftLeft_eq, Nat.shiftLeft_or_distrib]

/-- What the decoder's loop makes of what the encoder's wrote, as long as no group leaves the room of an `int`. -/
theorem decodeNumLoop_encodeNumLoop {num : BitVec w} (hne : num ≠ 0#w) {L : Nat} (hL : L ≤ 31 ∨ L ≤ 32 ∧ w ≤ 32) (post : Bytes)
    {bitsCnt : Nat} (hfit : num.toNat * 2 ^ bitsCnt < 2 ^ L) (resNum : BitVec w) :
    decodeNumLoop bitsCnt resNum (encodeNumLoop num ++ post) =
      .ok (resNum ||| BitVec.ofNat w (num.toNat * 2 ^ bitsCnt), (encodeNumLoop num).length) := by
  induction num using group_induction generalizing bitsCnt resNum with
  | zero => exact absurd rfl hne
  | group num _ ih =>
    have hbits : bitsCnt < 32 := by
      have hle : 2 ^ bitsCnt ≤ num.toNat * 2 ^ bitsCnt := Nat.le_mul_of_pos_left _ (toNat_pos hne)
      have hlt : bitsCnt < L := (Nat.pow_lt_pow_iff_right (by decide)).mp (Nat.lt_of_le_of_lt hle hfit)
      omega
    have hgroup : num.toNat % 128 * 2 ^ bitsCnt < 2 ^ L :=
      Nat.lt_of_le_of_lt (Nat.mul_le_mul_right _ (Nat.mod_le _ _)) hfit
    rw [encodeNumLoop_of_ne hne, List.cons_append, decodeNumLoop_cons, if_pos hbits, toNat_groupByte, signExtend_group hgroup hL]
    by_cases hrest : num >>> 7 = 0#w
    · -- the last group is the number
      have hlast : num.toNat % 128 = num.toNat := by
        have hzero : num.toNat / 128 = 0 := by rw [← toNat_rest, hrest, BitVec.toNat_zero]
        omega
      rw [if_neg (mt (groupByte_flag num).mp (not_not_intro hrest)), hrest, encodeNumLoop_zero, hlast]
      rfl
    · have hfit' : (num >>> 7).toNat * 2 ^ (bitsCnt + 7) < 2 ^ L := by
        have hle : num.toNat / 128 * 2 ^ (bitsCnt + 7) ≤ num.toNat * 2 ^ bitsCnt := by
          rw [← or_groups num.toNat bitsCnt]
          exact Nat.right_le_or
        rw [toNat_rest]
        exact Nat.lt_of_le_of_lt hle hfit
      rw [if_pos ((groupByte_flag num).mpr hrest), ih hrest hfit', map_ok, toNat_rest, BitVec.or_assoc, ← BitVec.ofNat_or,
        or_groups, List.length_cons]

/-- What the decoder's loop returns is made of as many groups as it read, all of them shifted by less than 32, and is an `int`
converted. -/
theorem decodeNumLoop_ok {bitsCnt : Nat} {resNum num : BitVec w} {buff : Bytes} {cnt : Nat}
    (h : decodeNumLoop bitsCnt resNum buff = .ok (num, cnt)) (hres : ∃ x : BitVec 32, resNum = x.signExtend w) :
    bitsCnt + 7 * cnt < 39 ∧ ∃ x : BitVec 32, num = x.signExtend w := by
  induction buff generalizing bitsCnt resNum cnt with
  | nil => nomatch h
  | cons b rest ih =>
    rw [decodeNumLoop_cons] at h
    by_cases hbits : bitsCnt < 32
    · obtain ⟨x, rfl⟩ := hres
      rw [if_pos hbits] at h
      simp only [← BitVec.signExtend_or] at h
      by_cases hnext : b &&& nextFlag ≠ 0
      · rw [if_pos hnext, map_eq_ok_iff] at h
        obtain ⟨⟨num', cnt'⟩, h, heq⟩ := h
        obtain ⟨rfl, rfl⟩ := Prod.mk.inj heq
        obtain ⟨hcnt, hnum⟩ := ih h ⟨_, rfl⟩
        exact ⟨by omega, hnum⟩
      · rw [if_neg hnext] at h
        obtain ⟨rfl, rfl⟩ := Prod.mk.inj (Except.ok.inj h)
        exact ⟨by omega, _, rfl⟩
    · rw [if_neg hbits] at h
      nomatch h

/-! ## Numbers of the four types -/

theorem varLenEncodeNum_of_ne {num : BitVec w} (h : num ≠ 0#w) : varLenEncodeNum num = encodeNumLoop num := if_neg h

theorem groupByte_ne_zero {num : BitVec w} (h : num ≠ 0#w) : groupByte num ≠ 0 := by
  intro hzero
  have hrest : num >>> 7 = 0#w := by
    by_contra hne
    exact (groupByte_flag num).mpr hne (by rw [hzero]; decide)
  have hlow : num.toNat % 128 = 0 := by rw [← toNat_groupByte, hzero]; rfl
  have hhigh : num.toNat / 128 = 0 := by rw [← toNat_rest, hrest, BitVec.toNat_zero]
  have hpos := toNat_pos h
  omega

/-- The decoder enters its loop. -/
theorem varLenDecodeNum_encode {num : BitVec w} (h : num ≠ 0#w) (post : Bytes) :
    varLenDecodeNum w (varLenEncodeNum num ++ post) = decodeNumLoop 0 0#w (encodeNumLoop num ++ post) := by
  rw [varLenEncodeNum_of_ne h, encodeNumLoop_of_ne h, List.cons_append]
  exact if_neg (groupByte_ne_zero h)

/-- An `int` holds the number: it is of a type that is no longer, or it is small. -/
def NumType.FitsInt (type : NumType) (num : BitVec type.width) : Prop := type ≠ .u64 ∨ num.toNat < 2 ^ 31

theorem NumType.FitsInt.bound {type : NumType} {num : BitVec type.width} (h : type.FitsInt num) :
    ∃ L, (L ≤ 31 ∨ L ≤ 32 ∧ type.width ≤ 32) ∧ num.toNat < 2 ^ L := by
  cases h with
  | inl h =>
    have hwidth : type.width ≤ 32 := by
      cases type with
      | u8 => decide
      | u16 => decide
      | u32 => decide
      | u64 => exact absurd rfl h
    exact ⟨type.width, .inr ⟨hwidth, hwidth⟩, num.isLt⟩
  | inr h => exact ⟨31, .inl (Nat.le_refl _), h⟩

theorem varLenDecodeNum_fitsInt {type : NumType} {num : BitVec type.width} (h : type.FitsInt num) (post : Bytes) :
    varLenDecodeNum type.width (varLenEncodeNum num ++ post) = .ok (num, (varLenEncodeNum num).length) := by
  by_cases hzero : num = BitVec.ofNat type.width 0
  · rw [hzero, varLenEncodeNum, if_pos rfl]
    rfl
  · obtain ⟨L, hL, hlt⟩ := h.bound
    have hfit : num.toNat * 2 ^ 0 < 2 ^ L := by rwa [Nat.pow_zero, Nat.mul_one]
    rw [varLenDecodeNum_encode hzero, decodeNumLoop_encodeNumLoop hzero hL post hfit, Nat.pow_zero, Nat.mul_one,
      BitVec.ofNat_toNat, BitVec.setWidth_eq, BitVec.zero_or, varLenEncodeNum_of_ne hzero]

/-- A long number that comes back has five groups at most, and is an `int` converted. -/
theorem fitsInt_of_decode {num : BitVec 64}
    (h : varLenDecodeNum 64 (varLenEncodeNum num) = .ok (num, (varLenEncodeNum num).length)) :
    num.toNat < 2 ^ 31 := by
  by_cases hzero : num = 0#64
  · rw [hzero]
    decide
  · have hdecode := varLenDecodeNum_encode hzero []
    rw [List.append_nil, List.append_nil] at hdecode
    rw [hdecode, varLenEncodeNum_of_ne hzero] at h
    obtain ⟨hcnt, x, hx⟩ := decodeNumLoop_ok h ⟨0#32, rfl⟩
    have hgroups : (encodeNumLoop num).length ≤ 5 := by omega
    have hlt : num.toNat < 2 ^ 35 := Nat.lt_of_lt_of_le (toNat_lt_of_groups num) (Nat.pow_le_pow_right (by decide) (by omega))
    have hnum : num.toNat = x.toNat + if x.msb then 2 ^ 64 - 2 ^ 32 else 0 := by
      rw [hx, BitVec.toNat_signExtend, BitVec.toNat_setWidth, Nat.mod_eq_of_lt (Nat.lt_trans x.isLt (by decide))]
    cases hmsb : x.msb with
    | true =>
      rw [hmsb, if_pos rfl] at hnum
      omega
    | false =>
      rw [hmsb, if_neg Bool.false_ne_true] at hnum
      rw [BitVec.msb_eq_decide] at hmsb
      have hx31 := of_decide_eq_false hmsb
      omega

/-- A number comes back as it was written, with its length, whatever follows and without a shift that has no value, when an `int`
holds it, and only then. -/
theorem varLenNum_readBack_iff (type : NumType) (num : BitVec type.width) :
    ((∀ post, varLenDecodeNum type.width (varLenEncodeNum num ++ post) = .ok (num, (varLenEncodeNum num).length)) ↔
      type.FitsInt num) ∧
    ((∀ post, decodeNumber type.width (encodeNumber num ++ post) = .ok (num, (encodeNumber num).length)) ↔
      type.FitsInt num) := by
  have hiff : (∀ post, varLenDecodeNum type.width (varLenEncodeNum num ++ post) = .ok (num, (varLenEncodeNum num).length)) ↔
      type.FitsInt num := by
    constructor
    · intro h
      cases type with
      | u8 => exact .inl (by decide)
      | u16 => exact .inl (by decide)
      | u32 => exact .inl (by decide)
      | u64 =>
        have hnil := h []
        rw [List.append_nil] at hnil
        exact .inr (fitsInt_of_decode hnil)
    · exact varLenDecodeNum_fitsInt
  exact ⟨hiff, hiff⟩

/-- The first number of 64 bits that does not come back, and the first that is shifted too far. -/
theorem varLenNum_not_readBack :
    varLenDecodeNum 64 (varLenEncodeNum 0x80000000#64) ≠ .ok (0x80000000#64, (varLenEncodeNum 0x80000000#64).length) ∧
    varLenDecodeNum 64 (varLenEncodeNum 0x800000000#64) = .error .wideShift ∧
    decodeNumber 64 (encodeNumber 0x80000000#64) ≠ .ok (0x80000000#64, (encodeNumber 0x80000000#64).length) ∧
    decodeNumber 64 (encodeNumber 0x800000000#64) = .error .wideShift := by
  have hfirst : varLenEncodeNum 0x80000000#64 = [128, 128, 128, 128, 8] := by
    simp [varLenEncodeNum, encodeNumLoop]
    decide
  have hsecond : varLenEncodeNum 0x800000000#64 = [128, 128, 128, 128, 128, 1] := by
    simp [varLenEncodeNum, encodeNumLoop]
    decide
  unfold decodeNumber encodeNumber
  rw [hfirst, hsecond]
  decide

end NetworkingFramework
