import NetworkingFramework.Icmp
import NetworkingFramework.Lib.OnesComplement

/-!
# The internet checksum

`internet_checksum` sums in 32 bits and folds the carries back in twice. For buffers whose words sum to less than that, it is
the complement of the sum in one's complement; and a buffer that carries its own checksum at an even offset checksums to zero.
-/

namespace NetworkingFramework

open Wire

/-! ## Words -/

/-- The 16-bit words of a buffer as a little-endian host loads them, a last odd byte padded with zero. -/
def hostWords : Bytes → List Nat
  | [] => []
  | [b] => [b.toNat]
  | b₀ :: b₁ :: rest => (b₀.toNat + b₁.toNat * 256) :: hostWords rest

theorem hostWords_lt (buf : Bytes) : ∀ w ∈ hostWords buf, w < 65536 := by
  fun_induction hostWords buf with
  | case1 => intro w hw; exact absurd hw List.not_mem_nil
  | case2 b =>
    intro w hw
    obtain rfl := List.mem_singleton.mp hw
    have hb := b.toNat_lt
    omega
  | case3 b₀ b₁ rest ih =>
    intro w hw
    have hb₀ := b₀.toNat_lt
    have hb₁ := b₁.toNat_lt
    rcases List.mem_cons.mp hw with rfl | hw
    · omega
    · exact ih w hw

/-- Two bytes make a word of at most 65535. -/
theorem hostWords_sum_le (buf : Bytes) : 2 * (hostWords buf).sum ≤ 65535 * (buf.length + 1) := by
  fun_induction hostWords buf with
  | case1 => simp
  | case2 b =>
    have hb := b.toNat_lt
    simp only [List.sum_cons, List.sum_nil, List.length_cons, List.length_nil]
    omega
  | case3 b₀ b₁ rest ih =>
    have hb₀ := b₀.toNat_lt
    have hb₁ := b₁.toNat_lt
    simp only [List.sum_cons, List.length_cons]
    omega

/-- The words of a buffer of at most 65535 bytes sum to less than 32 bits hold. -/
theorem hostWords_sum_lt {buf : Bytes} (h : buf.length ≤ 65535) : (hostWords buf).sum < 4294967296 := by
  have hle := hostWords_sum_le buf
  omega

/-- Words of a buffer cut at an even offset. -/
theorem hostWords_append {pre : Bytes} (hpre : pre.length % 2 = 0) (post : Bytes) :
    hostWords (pre ++ post) = hostWords pre ++ hostWords post := by
  fun_induction hostWords pre with
  | case1 => rfl
  | case2 b => exact absurd hpre (by simp)
  | case3 b₀ b₁ rest ih =>
    have hrest : rest.length % 2 = 0 := by
      rw [List.length_cons, List.length_cons] at hpre
      omega
    rw [List.cons_append, List.cons_append, hostWords, ih hrest, List.cons_append]

/-- A word stored by the host is that word of the buffer. -/
theorem hostWords_storeU16 (x : UInt16) (post : Bytes) : hostWords (storeU16 x ++ post) = x.toNat :: hostWords post := by
  have hx : x.toNat < 65536 := x.toNat_lt
  have hword : (UInt8.ofNat x.toNat).toNat + (UInt8.ofNat (x.toNat / 256)).toNat * 256 = x.toNat := by
    rw [UInt8.toNat_ofNat', UInt8.toNat_ofNat']
    omega
  rw [storeU16, List.cons_append, List.cons_append, List.nil_append, hostWords, hword]

/-! ## The accumulator -/

/-- The accumulator holds the sum of the words as long as that fits in 32 bits. -/
theorem toNat_internetChecksumSum (buf : Bytes) (acc : UInt32) (h : acc.toNat + (hostWords buf).sum < 4294967296) :
    (internetChecksumSum buf acc).toNat = acc.toNat + (hostWords buf).sum := by
  fun_induction internetChecksumSum buf acc with
  | case1 acc => simp [hostWords]
  | case2 b acc =>
    have hb := b.toNat_lt
    simp only [hostWords, List.sum_cons, List.sum_nil] at h ⊢
    rw [UInt32.toNat_add, UInt32.toNat_ofNat']
    omega
  | case3 b₀ b₁ rest acc ih =>
    have hb₀ := b₀.toNat_lt
    have hb₁ := b₁.toNat_lt
    simp only [hostWords, List.sum_cons] at h ⊢
    have hacc : (acc + UInt32.ofNat (b₀.toNat + b₁.toNat * 256)).toNat = acc.toNat + (b₀.toNat + b₁.toNat * 256) := by
      rw [UInt32.toNat_add, UInt32.toNat_ofNat']
      omega
    rw [ih (by rw [hacc]; omega), hacc]
    omega

/-- The lower half of an accumulator and its upper half, shifted down. -/
theorem toNat_low_high (x : UInt32) : (x &&& (0xFFFF : UInt32)).toNat = x.toNat % 65536 ∧
    (x >>> 16).toNat = x.toNat / 65536 := by
  refine ⟨?_, ?_⟩
  · rw [UInt32.toNat_and]
    exact Nat.and_two_pow_sub_one_eq_mod x.toNat 16
  · rw [UInt32.toNat_shiftRight]
    exact Nat.shiftRight_eq_div_pow x.toNat 16

/-- The upper half added to the lower half is one fold of the carries. -/
theorem toNat_fold (x : UInt32) : ((x >>> 16) + (x &&& (0xFFFF : UInt32))).toNat = OnesComplement.fold 65536 x.toNat := by
  have hx : x.toNat < 4294967296 := x.toNat_lt
  rw [UInt32.toNat_add, (toNat_low_high x).1, (toNat_low_high x).2, OnesComplement.fold]
  omega

/-- The second time the whole sum is added to its upper half; the lower half of the result is the fold. -/
theorem toNat_complement_fold {x : UInt32} (hx : x.toNat ≤ 131070) :
    (~~~(x + (x >>> 16))).toUInt16.toNat = 65535 - OnesComplement.fold 65536 x.toNat := by
  have hsize : UInt32.size = 4294967296 := rfl
  have hadd : (x + (x >>> 16)).toNat = x.toNat + x.toNat / 65536 := by
    rw [UInt32.toNat_add, (toNat_low_high x).2]
    omega
  rw [UInt32.toNat_toUInt16, UInt32.toNat_not, hadd, hsize, OnesComplement.fold]
  omega

/-- While the accumulator does not overflow, `internet_checksum` is the complement of the sum in one's complement. -/
theorem toNat_internetChecksum (buf : Bytes) (h : (hostWords buf).sum < 4294967296) :
    (internetChecksum buf).toNat = 65535 - OnesComplement.sum 65536 (hostWords buf) := by
  have hacc : (internetChecksumSum buf 0).toNat = (hostWords buf).sum := by
    rw [toNat_internetChecksumSum buf 0 (by simpa using h)]
    simp
  have hfold := toNat_fold (internetChecksumSum buf 0)
  have hsmall : OnesComplement.fold 65536 (hostWords buf).sum ≤ 131070 := by
    unfold OnesComplement.fold
    omega
  rw [hacc] at hfold
  rw [← OnesComplement.fold_fold_eq_sum (hostWords_lt buf) h, ← hfold]
  exact toNat_complement_fold (by rw [hfold]; exact hsmall)

/-- A buffer with its own checksum at an even offset checksums to zero. -/
theorem internetChecksum_insert {pre : Bytes} (hpre : pre.length % 2 = 0) (post : Bytes)
    (h : (pre ++ (storeU16 0 ++ post)).length ≤ 65535) :
    internetChecksum (pre ++ (storeU16 (internetChecksum (pre ++ (storeU16 0 ++ post))) ++ post)) = 0 := by
  have hlen (x : UInt16) : (pre ++ (storeU16 x ++ post)).length = (pre ++ (storeU16 0 ++ post)).length := by
    simp [storeU16]
  have hwords (x : UInt16) : hostWords (pre ++ (storeU16 x ++ post)) = hostWords pre ++ x.toNat :: hostWords post := by
    rw [hostWords_append hpre, hostWords_storeU16]
  have hzero := toNat_internetChecksum _ (hostWords_sum_lt h)
  rw [hwords, UInt16.toNat_zero] at hzero
  apply UInt16.toNat_inj.mp
  rw [toNat_internetChecksum _ (hostWords_sum_lt (by rw [hlen]; exact h)), hwords, hzero, UInt16.toNat_zero]
  have hones := OnesComplement.sum_insert_complement (by decide : 1 < 65536) (hostWords_lt pre) (hostWords_lt post)
  rw [hones]

/-! ## Buffers that were changed -/

/-- What the checksum shows of a buffer: the sum of its words modulo 65535, and whether one of them is not zero. -/
theorem internetChecksum_eq_iff {buf buf' : Bytes} (h : buf.length ≤ 65535) (h' : buf'.length ≤ 65535) :
    internetChecksum buf = internetChecksum buf' ↔
      OnesComplement.SameWord 65536 (hostWords buf).sum (hostWords buf').sum := by
  have hlt := OnesComplement.sum_lt (by decide : 0 < 65536) (hostWords_lt buf)
  have hlt' := OnesComplement.sum_lt (by decide : 0 < 65536) (hostWords_lt buf')
  rw [← UInt16.toNat_inj, toNat_internetChecksum buf (hostWords_sum_lt h), toNat_internetChecksum buf' (hostWords_sum_lt h'),
    ← OnesComplement.sum_eq_sum_iff (by decide) (hostWords_lt buf) (hostWords_lt buf')]
  omega

/-- One word of a buffer in the place of another. -/
theorem internetChecksum_replace_iff {pre : Bytes} (hpre : pre.length % 2 = 0) (post : Bytes) (w w' : UInt16)
    (h : pre.length + 2 + post.length ≤ 65535) :
    internetChecksum (pre ++ (storeU16 w' ++ post)) = internetChecksum (pre ++ (storeU16 w ++ post)) ↔
      w' = w ∨ (∃ word ∈ hostWords pre ++ hostWords post, word ≠ 0) ∧ (w' = 0 ∧ w = 0xFFFF ∨ w' = 0xFFFF ∧ w = 0) := by
  have hlen (x : UInt16) : (pre ++ (storeU16 x ++ post)).length ≤ 65535 := by
    simp only [storeU16, List.length_append, List.length_cons, List.length_nil]
    omega
  have hsum (x : UInt16) : (hostWords (pre ++ (storeU16 x ++ post))).sum = (hostWords pre ++ hostWords post).sum + x.toNat := by
    rw [hostWords_append hpre, hostWords_storeU16, List.sum_append, List.sum_cons, List.sum_append]
    omega
  have hbeside : (hostWords pre ++ hostWords post).sum ≠ 0 ↔ ∃ word ∈ hostWords pre ++ hostWords post, word ≠ 0 := by
    rw [Ne, List.sum_eq_zero_iff_forall_eq_nat]
    push Not
    rfl
  rw [internetChecksum_eq_iff (hlen w') (hlen w), hsum, hsum, OnesComplement.sameWord_add_iff _ w'.toNat_lt w.toNat_lt, hbeside]
  simp only [← UInt16.toNat_inj]
  rfl

end NetworkingFramework
