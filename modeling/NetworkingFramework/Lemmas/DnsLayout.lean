import NetworkingFramework.Dns

/-!
# Where a DNS message lies in a packet

The decoder of messages checks neither the size of the packet, nor that a label is there, nor where a jump leads, nor that a count
fits in an `int`. It returns exactly on the packets with a layout (`DnsLayout`): every name ends in a null byte after finitely many
jumps, its labels end where it ends, and the sections that the header counts lie in the packet in a row
(`extractDnsMessage_returns_iff`).
-/

namespace NetworkingFramework

open Wire Wire.Decoder

/-! ## Names -/

/-- The bytes collected for a name from an offset of a packet, jumps being followed, and the number of bytes it takes there. -/
inductive NameAt (p : Bytes) : Nat → Bytes → Nat → Prop where
  | stop {o : Nat} : p[o]? = some 0 → NameAt p o [0] 1
  | jump {o n : Nat} {b c : UInt8} {enc : Bytes} : p[o]? = some b → b &&& jumpMask = jumpMask → p[o + 1]? = some c →
      NameAt p (jumpOffset b c) enc n → NameAt p o enc 2
  | byte {o n : Nat} {b : UInt8} {enc : Bytes} : p[o]? = some b → b ≠ 0 → b &&& jumpMask ≠ jumpMask →
      NameAt p (o + 1) enc n → NameAt p o (b :: enc) (n + 1)

/-- Each label is there as its length says, until a null byte or the end, and they take so many bytes. -/
inductive LabelsFit : Bytes → Nat → Prop where
  | nil : LabelsFit [] 0
  | stop (rest : Bytes) : LabelsFit (0 :: rest) 0
  | label {len : UInt8} {rest : Bytes} {n : Nat} : len ≠ 0 → len.toNat ≤ rest.length → LabelsFit (rest.drop len.toNat) n →
      LabelsFit (len :: rest) (1 + len.toNat + n)

/-- A name lies within its packet. -/
theorem NameAt.fits {p enc : Bytes} {o n : Nat} (h : NameAt p o enc n) : o + n ≤ p.length := by
  induction h with
  | stop hb =>
    obtain ⟨hlt, -⟩ := List.getElem?_eq_some_iff.mp hb
    exact hlt
  | jump _ _ hc _ _ =>
    obtain ⟨hlt, -⟩ := List.getElem?_eq_some_iff.mp hc
    exact hlt
  | byte _ _ _ _ ih => omega

/-- At an offset lies one name at most. -/
theorem NameAt.unique {p enc enc' : Bytes} {o n n' : Nat} (h : NameAt p o enc n) (h' : NameAt p o enc' n') :
    enc = enc' ∧ n = n' := by
  induction h generalizing enc' n' with
  | stop hb =>
    cases h' with
    | stop _ => exact ⟨rfl, rfl⟩
    | jump hb' hjump _ _ => exact absurd (Option.some.inj (hb'.symm.trans hb)) (ne_zero_of_jump hjump)
    | byte hb' hzero _ _ => exact absurd (Option.some.inj (hb'.symm.trans hb)) hzero
  | jump hb hjump hc _ ih =>
    cases h' with
    | stop hb' => exact absurd (Option.some.inj (hb.symm.trans hb')) (ne_zero_of_jump hjump)
    | jump hb' _ hc' hrest =>
      obtain rfl := Option.some.inj (hb.symm.trans hb')
      obtain rfl := Option.some.inj (hc.symm.trans hc')
      exact ⟨(ih hrest).1, rfl⟩
    | byte hb' _ hjump' _ =>
      obtain rfl := Option.some.inj (hb.symm.trans hb')
      exact absurd hjump hjump'
  | byte hb hzero hjump _ ih =>
    cases h' with
    | stop hb' => exact absurd (Option.some.inj (hb.symm.trans hb')) hzero
    | jump hb' hjump' _ _ =>
      obtain rfl := Option.some.inj (hb.symm.trans hb')
      exact absurd hjump' hjump
    | byte hb' _ _ hrest =>
      obtain rfl := Option.some.inj (hb.symm.trans hb')
      obtain ⟨rfl, rfl⟩ := ih hrest
      exact ⟨rfl, rfl⟩

/-- Where the loop of `extract_encoded_name` returns, a name lies, and an `int` has counted its bytes. -/
theorem nameAt_of_extractEncodedNameLoop {p enc : Bytes} {fuel o count k : Nat} {jumped : Bool}
    (h : extractEncodedNameLoop p fuel jumped count o = .ok (enc, k)) :
    ∃ n, NameAt p o enc n ∧ k = count + (if jumped then 2 else n) ∧ k < 2 ^ 31 := by
  induction fuel generalizing jumped count o enc k with
  | zero => nomatch h
  | succ fuel ih =>
    obtain ⟨b, hb, h⟩ := (extractEncodedNameLoop_succ_ok_iff ..).mp h
    rcases h with ⟨rfl, rfl, hk⟩ | ⟨hjump, c, hc, hrest⟩ | ⟨hzero, hjump, -, rest, hrest, rfl⟩
    · obtain ⟨hlt, rfl⟩ := (addInt_ok_iff ..).mp hk
      exact ⟨1, .stop hb, rfl, hlt⟩
    · obtain ⟨n, hname, rfl, hlt⟩ := ih hrest
      refine ⟨2, .jump hb hjump hc hname, ?_, hlt⟩
      rw [if_pos rfl, ite_self]
    · obtain ⟨n, hname, rfl, hlt⟩ := ih hrest
      refine ⟨n + 1, .byte hb hzero hjump hname, ?_, hlt⟩
      cases jumped with
      | true => rfl
      | false =>
        simp only [Bool.false_eq_true, if_false]
        omega

/-- Where a name lies whose bytes an `int` counts, the loop returns. -/
theorem NameAt.exists_fuel {p enc : Bytes} {o n : Nat} (h : NameAt p o enc n) (jumped : Bool) {count : Nat}
    (hlt : count + (if jumped then 2 else n) < 2 ^ 31) :
    ∃ fuel, extractEncodedNameLoop p fuel jumped count o = .ok (enc, count + if jumped then 2 else n) := by
  induction h generalizing jumped count with
  | stop hb => exact ⟨1, (extractEncodedNameLoop_succ_ok_iff ..).mpr ⟨0, hb, .inl ⟨rfl, rfl, addInt_of_lt hlt⟩⟩⟩
  | jump hb hjump hc _ ih =>
    rw [ite_self] at hlt
    obtain ⟨fuel, hrest⟩ := ih true hlt
    refine ⟨fuel + 1, (extractEncodedNameLoop_succ_ok_iff ..).mpr ⟨_, hb, .inr (.inl ⟨hjump, _, hc, ?_⟩)⟩⟩
    rw [hrest, if_pos rfl, ite_self]
  | @byte o n b enc hb hzero hjump _ ih =>
    have hcount : (if jumped then count else count + 1) + (if jumped then 2 else n) =
        count + if jumped then 2 else n + 1 := by
      cases jumped with
      | true => rfl
      | false =>
        simp only [Bool.false_eq_true, if_false]
        omega
    obtain ⟨fuel, hrest⟩ := ih jumped (hcount ▸ hlt)
    rw [hcount] at hrest
    have hbyte : jumped = false → count + 1 < 2 ^ 31 := by
      intro hnot
      rw [hnot, if_neg (by decide)] at hlt
      omega
    exact ⟨fuel + 1, (extractEncodedNameLoop_succ_ok_iff ..).mpr ⟨b, hb, .inr (.inr ⟨hzero, hjump, hbyte, _, hrest, rfl⟩)⟩⟩

theorem extractEncodedName_returns_iff (p enc : Bytes) (o k : Int) :
    extractEncodedName.Returns p o enc k ↔ ∃ i n : Nat, o = i ∧ k = n ∧ NameAt p i enc n ∧ n < 2 ^ 31 := by
  constructor
  · rintro ⟨fuel, h⟩
    obtain ⟨i, n, rfl, rfl, hloop⟩ := (Reader.run_ofDecoder_ok_iff ..).mp h
    obtain ⟨m, hname, hn, hlt⟩ := nameAt_of_extractEncodedNameLoop hloop
    rw [if_neg (by decide), Nat.zero_add] at hn
    exact ⟨i, n, rfl, rfl, hn ▸ hname, hlt⟩
  · rintro ⟨i, n, rfl, rfl, hname, hlt⟩
    have hcount : 0 + (if false then 2 else n) < 2 ^ 31 := by simpa using hlt
    obtain ⟨fuel, hloop⟩ := hname.exists_fuel false hcount
    simp only [Bool.false_eq_true, if_false, Nat.zero_add] at hloop
    exact ⟨fuel, (Reader.run_ofDecoder_ok_iff ..).mpr ⟨i, n, rfl, rfl, hloop⟩⟩

/-- A name is decoded from the bytes that were collected for it. -/
theorem extractDnsName_returns_iff_decoded (p name : Bytes) (o k : Int) :
    extractDnsName.Returns p o name k ↔
      ∃ (i n : Nat) (enc : Bytes), o = i ∧ k = n ∧ NameAt p i enc n ∧ n < 2 ^ 31 ∧ decodeDnsName enc = .ok name := by
  constructor
  · intro h
    obtain ⟨enc, k, z, hextract, hlift, rfl⟩ := (Fueled.returns_bind_iff ..).mp h
    obtain ⟨hok, rfl⟩ := (Fueled.returns_lift_iff ..).mp hlift
    obtain ⟨i, n, rfl, rfl, hname, hlt⟩ := (extractEncodedName_returns_iff ..).mp hextract
    exact ⟨i, n, enc, rfl, Int.add_zero _, hname, hlt, hok⟩
  · rintro ⟨i, n, enc, rfl, rfl, hname, hlt, hok⟩
    refine (Fueled.returns_bind_iff ..).mpr ⟨enc, n, 0, ?_, (Fueled.returns_lift_iff ..).mpr ⟨hok, rfl⟩, (Int.add_zero _).symm⟩
    exact (extractEncodedName_returns_iff ..).mpr ⟨i, n, rfl, rfl, hname, hlt⟩

/-- The loops of `decode_dns_name` return when what is left of the label is there, and the labels behind it, and an `int` counts
them. -/
theorem decodeDnsNameLoop_returns_iff {i : Nat} (hi : i < 2 ^ 31) (n : Nat) (res name : Bytes) :
    (∃ r, decodeDnsNameLoop n i res name = .ok r) ↔
      n ≤ name.length ∧ ∃ m, LabelsFit (name.drop n) m ∧ i + n + m < 2 ^ 31 := by
  induction name generalizing n i res with
  | nil =>
    cases n with
    | zero => exact ⟨fun _ => ⟨Nat.le_refl 0, 0, .nil, hi⟩, fun _ => ⟨res, rfl⟩⟩
    | succ n => exact ⟨fun ⟨_, h⟩ => (nomatch h), fun ⟨h, _⟩ => absurd h (Nat.not_succ_le_zero n)⟩
  | cons b name ih =>
    cases n with
    | succ n =>
      simp only [decodeDnsNameLoop, bind_eq_ok_iff, addInt_ok_iff, List.length_cons, List.drop_succ_cons]
      constructor
      · rintro ⟨r, next, ⟨hlt, rfl⟩, hr⟩
        obtain ⟨hle, m, hfit, hm⟩ := (ih hlt n (res ++ [b])).mp ⟨r, hr⟩
        exact ⟨by omega, m, hfit, by omega⟩
      · rintro ⟨hle, m, hfit, hm⟩
        have hlt : i + 1 < 2 ^ 31 := by omega
        obtain ⟨r, hr⟩ := (ih hlt n (res ++ [b])).mpr ⟨by omega, m, hfit, by omega⟩
        exact ⟨r, i + 1, ⟨hlt, rfl⟩, hr⟩
    | zero =>
      unfold decodeDnsNameLoop
      split
      · rename_i hzero
        exact ⟨fun _ => ⟨Nat.zero_le _, 0, hzero ▸ .stop name, hi⟩, fun _ => ⟨_, rfl⟩⟩
      · rename_i hzero
        simp only [bind_eq_ok_iff, addInt_ok_iff, List.drop_zero]
        constructor
        · rintro ⟨r, next, ⟨hlt, rfl⟩, hr⟩
          obtain ⟨hle, m, hfit, hm⟩ := (ih hlt b.toNat _).mp ⟨r, hr⟩
          exact ⟨Nat.zero_le _, 1 + b.toNat + m, .label hzero hle hfit, by omega⟩
        · rintro ⟨-, m, hfit, hm⟩
          cases hfit with
          | stop => exact absurd rfl hzero
          | @label _ _ n _ hle hrest =>
            have hlt : i + 1 < 2 ^ 31 := by omega
            obtain ⟨r, hr⟩ := (ih hlt b.toNat (if res = [] then res else res ++ [dot])).mpr ⟨hle, n, hrest, by omega⟩
            exact ⟨r, i + 1, ⟨hlt, rfl⟩, hr⟩

theorem decodeDnsName_returns_iff (enc : Bytes) : (∃ name, decodeDnsName enc = .ok name) ↔ ∃ m, LabelsFit enc m ∧ m < 2 ^ 31 := by
  rw [decodeDnsName, decodeDnsNameLoop_returns_iff (Nat.two_pow_pos 31) 0 [] enc, List.drop_zero]
  simp

/-- At an offset lies a name of `k` bytes whose labels fit, and an `int` counts its bytes, and those that are collected for it. -/
def DnsNameAt (p : Bytes) (o k : Int) : Prop :=
  ∃ (i n : Nat) (enc : Bytes) (m : Nat), o = i ∧ k = n ∧ NameAt p i enc n ∧ n < 2 ^ 31 ∧ LabelsFit enc m ∧ m < 2 ^ 31

/-- The decoder of names returns where a name lies whose labels fit. -/
theorem extractDnsName_returns_iff (p : Bytes) (o k : Int) : (∃ name, extractDnsName.Returns p o name k) ↔ DnsNameAt p o k := by
  constructor
  · rintro ⟨name, h⟩
    obtain ⟨i, n, enc, ho, hk, hname, hlt, hok⟩ := (extractDnsName_returns_iff_decoded ..).mp h
    obtain ⟨m, hfit, hm⟩ := (decodeDnsName_returns_iff enc).mp ⟨name, hok⟩
    exact ⟨i, n, enc, m, ho, hk, hname, hlt, hfit, hm⟩
  · rintro ⟨i, n, enc, m, ho, hk, hname, hlt, hfit, hm⟩
    obtain ⟨name, hok⟩ := (decodeDnsName_returns_iff enc).mpr ⟨m, hfit, hm⟩
    exact ⟨name, (extractDnsName_returns_iff_decoded ..).mpr ⟨i, n, enc, ho, hk, hname, hlt, hok⟩⟩

/-- Jumps are followed, not collected. -/
theorem NameAt.not_jump {p enc : Bytes} {o n : Nat} (h : NameAt p o enc n) : ∀ b ∈ enc, b &&& jumpMask ≠ jumpMask := by
  induction h with
  | stop _ =>
    intro b hb
    obtain rfl := List.mem_singleton.mp hb
    decide
  | jump _ _ _ _ ih => exact ih
  | byte _ _ hjump _ ih =>
    intro b hb
    rcases List.mem_cons.mp hb with rfl | hb
    · exact hjump
    · exact ih b hb

/-- What is decoded are bytes of the encoded name, and dots and a null byte. -/
theorem forall_mem_of_decodeDnsNameLoop {ok : UInt8 → Prop} (hdot : ok dot) (hzero : ok 0) {n i : Nat} {res name r : Bytes}
    (hres : ∀ b ∈ res, ok b) (hname : ∀ b ∈ name, ok b) (h : decodeDnsNameLoop n i res name = .ok r) : ∀ b ∈ r, ok b := by
  induction name generalizing n i res with
  | nil =>
    cases n with
    | zero => exact Except.ok.inj h ▸ hres
    | succ n => cases h
  | cons c name ih =>
    have hrest : ∀ b ∈ name, ok b := fun b hb => hname b (List.mem_cons_of_mem c hb)
    have hconcat (d : UInt8) (hd : ok d) : ∀ b ∈ res ++ [d], ok b := by
      intro b hb
      rcases List.mem_append.mp hb with hb | hb
      · exact hres b hb
      · exact List.mem_singleton.mp hb ▸ hd
    cases n with
    | succ n =>
      obtain ⟨_, -, h⟩ := (bind_eq_ok_iff _ _ _).mp h
      exact ih (hconcat c (hname c List.mem_cons_self)) hrest h
    | zero =>
      unfold decodeDnsNameLoop at h
      split at h
      · exact Except.ok.inj h ▸ hconcat 0 hzero
      · obtain ⟨_, -, h⟩ := (bind_eq_ok_iff _ _ _).mp h
        refine ih ?_ hrest h
        split
        · exact hres
        · exact hconcat dot hdot

/-- A name that comes out of a packet has no byte that looks like a jump. -/
theorem not_jump_of_extractDnsName {p name : Bytes} {o n : Int} (h : extractDnsName.Returns p o name n) :
    ∀ b ∈ name, b &&& jumpMask ≠ jumpMask := by
  obtain ⟨_, _, enc, -, -, hname, -, hok⟩ := (extractDnsName_returns_iff_decoded ..).mp h
  exact forall_mem_of_decodeDnsNameLoop (by decide) (by decide) (fun b hb => absurd hb List.not_mem_nil) hname.not_jump hok

/-- The root name is encoded as two null bytes, and the first of them is all that is extracted. -/
theorem extractDnsName_root (pre post : Bytes) : extractDnsName.Returns (pre ++ [0, 0] ++ post) pre.length [0] 1 := by
  have hget : (pre ++ [0, 0] ++ post)[pre.length]? = some 0 := by simp
  exact (extractDnsName_returns_iff_decoded ..).mpr ⟨pre.length, 1, [0], rfl, rfl, .stop hget, by decide, rfl⟩

/-! ## Queries, records and messages -/

/-- A query behind which the pointer moves by `n`: a name of `k` bytes, and two words. -/
def QueryAt (p : Bytes) (o n : Int) : Prop :=
  ∃ k, DnsNameAt p o k ∧ Fueled.Within p (o + k) 2 ∧ Fueled.Within p (o + narrow (k + 2)) 2 ∧ n = narrow (k + 4)

/-- The number of data bytes of a record whose name has `k` bytes. -/
def dataLenAt (p : Bytes) (o k : Int) : Nat := (netU16At p (o + narrow (k + 8)).toNat).toNat

/-- A record behind which the pointer moves by `n`: a name of `k` bytes, four words, and the data that the last of them counts. -/
def RecordAt (p : Bytes) (o n : Int) : Prop :=
  ∃ k, DnsNameAt p o k ∧ Fueled.Within p (o + k) 2 ∧ Fueled.Within p (o + narrow (k + 2)) 2 ∧
    Fueled.Within p (o + narrow (k + 4)) 4 ∧ Fueled.Within p (o + narrow (k + 8)) 2 ∧
    (dataLenAt p o k = 0 ∨ Fueled.Within p (o + narrow (k + 10)) (dataLenAt p o k)) ∧
    addInts (narrow (k + 10)) (dataLenAt p o k) = .ok n

/-- A header of 12 bytes, and the four sections it counts in a row. -/
def DnsLayout (p : Bytes) : Prop :=
  12 ≤ p.length ∧ ∃ queries ans auth addit,
    Fueled.InARow (QueryAt p) (netU16At p 4).toNat 12 queries ∧
    Fueled.InARow (RecordAt p) (netU16At p 6).toNat (12 + queries) ans ∧
    Fueled.InARow (RecordAt p) (netU16At p 8).toNat (12 + queries + ans) auth ∧
    Fueled.InARow (RecordAt p) (netU16At p 10).toNat (12 + queries + ans + auth) addit

/-- What a query is read from. -/
theorem extractDnsQuery_returns_iff (p : Bytes) (o n : Int) : (∃ q, extractDnsQuery.Returns p o q n) ↔ QueryAt p o n := by
  simp only [extractDnsQuery, Fueled.returns_peek_bind_iff, Fueled.returns_move_pure_iff, Fueled.readsWord_netU16 p, Int.add_zero,
    narrow_narrow_add]
  constructor
  · rintro ⟨q, name, k, hname, _, _, ⟨hType, -, -⟩, _, _, ⟨hClass, -, -⟩, -, rfl⟩
    refine ⟨k, (extractDnsName_returns_iff ..).mp ⟨name, hname⟩, hType, hClass, ?_⟩
    rw [Int.add_assoc]
    rfl
  · rintro ⟨k, hat, hType, hClass, rfl⟩
    obtain ⟨name, hname⟩ := (extractDnsName_returns_iff ..).mpr hat
    refine ⟨_, name, k, hname, _, _, ⟨hType, rfl, rfl⟩, _, _, ⟨hClass, rfl, rfl⟩, rfl, ?_⟩
    rw [Int.add_assoc]
    rfl

/-- What a record is read from. -/
theorem extractDnsAnswer_returns_iff (p : Bytes) (o n : Int) : (∃ a, extractDnsAnswer.Returns p o a n) ↔ RecordAt p o n := by
  obtain ⟨v, hword⟩ := Fueled.readsWord_netLowHalfU32
  have h₄ (k : Int) : narrow (k + 2 + 2) = narrow (k + 4) := by rw [Int.add_assoc]; rfl
  have h₈ (k : Int) : narrow (k + 4 + 4) = narrow (k + 8) := by rw [Int.add_assoc]; rfl
  have h₁₀ (k : Int) : narrow (k + 8 + 2) = narrow (k + 10) := by rw [Int.add_assoc]; rfl
  simp only [extractDnsAnswer, Fueled.returns_peek_bind_iff, Fueled.returns_lift_bind_iff, Fueled.returns_move_pure_iff,
    Fueled.readsWord_netU16 p, hword p, Int.add_zero, narrow_narrow_add, h₄, h₈, h₁₀]
  constructor
  · rintro ⟨a, name, k, hname, _, _, ⟨hType, -, -⟩, _, _, ⟨hClass, -, -⟩, _, _, ⟨hTtl, -, -⟩, _, _, ⟨hLen, rfl, -⟩, rdata, _,
      hdata, _, hcnt, -, rfl⟩
    obtain ⟨hfits, -⟩ := (Fueled.returns_bytes_iff ..).mp ⟨rdata, hdata⟩
    exact ⟨k, (extractDnsName_returns_iff ..).mp ⟨name, hname⟩, hType, hClass, hTtl, hLen, hfits, hcnt⟩
  · rintro ⟨k, hat, hType, hClass, hTtl, hLen, hfits, hcnt⟩
    obtain ⟨name, hname⟩ := (extractDnsName_returns_iff ..).mpr hat
    obtain ⟨rdata, hdata⟩ := (Fueled.returns_bytes_iff ..).mpr ⟨hfits, rfl⟩
    exact ⟨_, name, k, hname, _, _, ⟨hType, rfl, rfl⟩, _, _, ⟨hClass, rfl, rfl⟩, _, _, ⟨hTtl, rfl, rfl⟩, _, _, ⟨hLen, rfl, rfl⟩,
      rdata, _, hdata, _, hcnt, rfl, rfl⟩

/-- The header is any 12 bytes; its counts are the last four words. -/
theorem extractDnsHeader_reads : ∃ header, Reads extractDnsHeader 12 header ∧ ∀ p,
    (header p 0).queryCount = netU16At p 4 ∧ (header p 0).ansCount = netU16At p 6 ∧
      (header p 0).authCount = netU16At p 8 ∧ (header p 0).addCount = netU16At p 10 := by
  have hreads := reads_netU16.bind fun id => reads_byte.bind fun b => reads_byte.bind fun c =>
    reads_netU16.bind fun queryCount => reads_netU16.bind fun ansCount => reads_netU16.bind fun authCount =>
      reads_netU16.map fun addCount => DnsHeader.mk id (b.toNat.testBit 0) (b.toNat.testBit 1) (b.toNat.testBit 2)
        (BitVec.ofNat 4 ((b.toNat &&& 0b1111 <<< 3) >>> 3)) (b.toNat.testBit 7) (BitVec.ofNat 4 (c.toNat &&& 0b1111))
        (c.toNat.testBit 4) (c.toNat.testBit 5) (c.toNat.testBit 7) queryCount ansCount authCount addCount
  exact ⟨_, hreads, fun p => ⟨rfl, rfl, rfl, rfl⟩⟩

/-- The five parts of a message are decoded from where they lie in the packet, in a row. -/
theorem extractDnsMessage_returns_iff_parts (p : Bytes) (msg : DnsMessage) (n : Int) :
    extractDnsMessage.Returns p 0 msg n ↔ ∃ h q a u d,
      (Fueled.ofDecoder extractDnsHeader).Returns p 0 msg.header h ∧
      (extractDnsQuery.times msg.header.queryCount.toNat).Returns p h msg.queries q ∧
      (extractDnsAnswer.times msg.header.ansCount.toNat).Returns p (h + q) msg.ans a ∧
      (extractDnsAnswer.times msg.header.authCount.toNat).Returns p (h + q + a) msg.ansAuth u ∧
      (extractDnsAnswer.times msg.header.addCount.toNat).Returns p (h + q + a + u) msg.ansAddit d ∧
      n = narrow (h + (q + (a + (u + d)))) := by
  rw [extractDnsMessage, Fueled.returns_narrowed_iff]
  constructor
  · rintro ⟨_, hmsg, rfl⟩
    obtain ⟨header, h, _, h₀, hqueries, rfl⟩ := (Fueled.returns_bind_iff ..).mp hmsg
    obtain ⟨queries, q, _, h₁, hans, rfl⟩ := (Fueled.returns_bind_iff ..).mp hqueries
    obtain ⟨ans, a, _, h₂, hauth, rfl⟩ := (Fueled.returns_bind_iff ..).mp hans
    obtain ⟨ansAuth, u, _, h₃, hadd, rfl⟩ := (Fueled.returns_bind_iff ..).mp hauth
    obtain ⟨ansAddit, d, _, h₄, hpure, rfl⟩ := (Fueled.returns_bind_iff ..).mp hadd
    obtain ⟨rfl, rfl⟩ := (Fueled.returns_pure_iff ..).mp hpure
    rw [Int.zero_add] at h₁ h₂ h₃ h₄
    exact ⟨h, q, a, u, d, h₀, h₁, h₂, h₃, h₄, by rw [Int.add_zero]⟩
  · rintro ⟨h, q, a, u, d, h₀, h₁, h₂, h₃, h₄, rfl⟩
    refine ⟨_, (Fueled.returns_bind_iff ..).mpr ⟨msg.header, h, _, h₀, ?_, rfl⟩, rfl⟩
    rw [Int.zero_add]
    refine (Fueled.returns_bind_iff ..).mpr ⟨msg.queries, q, _, h₁, ?_, rfl⟩
    refine (Fueled.returns_bind_iff ..).mpr ⟨msg.ans, a, _, h₂, ?_, rfl⟩
    refine (Fueled.returns_bind_iff ..).mpr ⟨msg.ansAuth, u, _, h₃, ?_, rfl⟩
    refine (Fueled.returns_bind_iff ..).mpr ⟨msg.ansAddit, d, 0, h₄, ?_, (Int.add_zero d).symm⟩
    exact (Fueled.returns_pure_iff ..).mpr ⟨rfl, rfl⟩

/-- The decoder of messages returns exactly on the packets with a layout. -/
theorem extractDnsMessage_returns_iff (p : Bytes) : (∃ msg n, extractDnsMessage.Returns p 0 msg n) ↔ DnsLayout p := by
  obtain ⟨header, hheader, hcounts⟩ := extractDnsHeader_reads
  obtain ⟨hquery, hans, hauth, hadd⟩ := hcounts p
  have hzero : 0 ≤ p.length := Nat.zero_le _
  have hqueries := Fueled.returns_times_iff (extractDnsQuery_returns_iff p)
  have hrecords := Fueled.returns_times_iff (extractDnsAnswer_returns_iff p)
  unfold DnsLayout
  rw [← hquery, ← hans, ← hauth, ← hadd]
  constructor
  · rintro ⟨msg, n, h⟩
    obtain ⟨k, q, a, u, d, h₀, h₁, h₂, h₃, h₄, -⟩ := (extractDnsMessage_returns_iff_parts ..).mp h
    obtain ⟨i, size, hi, rfl, hrun⟩ := (Fueled.returns_ofDecoder_iff ..).mp h₀
    obtain rfl : i = 0 := by omega
    obtain ⟨hfits, heq, rfl⟩ := (hheader p 0 _ _ hzero).mp hrun
    rw [Nat.zero_add] at hfits
    rw [heq] at h₁ h₂ h₃ h₄
    exact ⟨hfits, q, a, u, d, (hqueries ..).mp ⟨_, h₁⟩, (hrecords ..).mp ⟨_, h₂⟩, (hrecords ..).mp ⟨_, h₃⟩,
      (hrecords ..).mp ⟨_, h₄⟩⟩
  · rintro ⟨hfits, q, a, u, d, h₁, h₂, h₃, h₄⟩
    obtain ⟨queries, h₁⟩ := (hqueries ..).mpr h₁
    obtain ⟨ans, h₂⟩ := (hrecords ..).mpr h₂
    obtain ⟨ansAuth, h₃⟩ := (hrecords ..).mpr h₃
    obtain ⟨ansAddit, h₄⟩ := (hrecords ..).mpr h₄
    have h₀ : (Fueled.ofDecoder extractDnsHeader).Returns p 0 (header p 0) 12 :=
      (Fueled.returns_ofDecoder_iff ..).mpr ⟨0, 12, rfl, rfl, (hheader p 0 _ _ hzero).mpr ⟨by omega, rfl, rfl⟩⟩
    refine ⟨⟨header p 0, queries, ans, ansAuth, ansAddit⟩, narrow (12 + (q + (a + (u + d)))), ?_⟩
    exact (extractDnsMessage_returns_iff_parts ..).mpr ⟨12, q, a, u, d, h₀, h₁, h₂, h₃, h₄, rfl⟩

end NetworkingFramework
