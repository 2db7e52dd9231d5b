import NetworkingFramework.Ints
import NetworkingFramework.Lib.Fueled

/-!
# DNS names

`protocols/dns`: a name is stored as labels joined by dots and closed by a null byte, and travels as labels each behind its
length, closed by a null byte too. `extract_encoded_name` collects the second form from a packet, following jumps; it does not
look at lengths, and takes any byte whose two high bits are set for a jump. None of the functions knows where its buffer ends, and
each of them counts in an `int`.
-/

namespace NetworkingFramework

open Wire Wire.Decoder

/-- `'.'`. -/
def dot : UInt8 := 46

/-- `JUMP_MASK`. -/
def jumpMask : UInt8 := 0b11000000

/-- The loop of `encode_dns_name` on what is left of the name, from `curr` on, `label` being what was passed since the last dot. A
label ends at a dot and at the last byte, whatever it is. -/
def encodeDnsNameLoop (label : Bytes) (curr : Nat) : Bytes → Except Fault Bytes
  | [] => .ok []
  | b :: rest => do
    let curr ← addInt curr 1
    if b = dot ∨ rest = [] then return UInt8.ofNat label.length :: label ++ (← encodeDnsNameLoop [] curr rest)
    else encodeDnsNameLoop (label ++ [b]) curr rest

/-- `encode_dns_name`. -/
def encodeDnsName (data : Bytes) : Except Fault Bytes := do return (← encodeDnsNameLoop [] 0 data) ++ [0]

/-- The loops of `decode_dns_name` on what is left of the encoded name, from `i` on, `n` bytes of the current label being still to
come. The inner loop does not check that they are there. -/
def decodeDnsNameLoop : Nat → Nat → Bytes → Bytes → Except Fault Bytes
  | 0, _, res, [] => .ok res
  | 0, i, res, len :: name =>
    if len = 0 then .ok (res ++ [0])
    else do decodeDnsNameLoop len.toNat (← addInt i 1) (if res = [] then res else res ++ [dot]) name
  | _ + 1, _, _, [] => .error .outOfBounds
  | n + 1, i, res, b :: name => do decodeDnsNameLoop n (← addInt i 1) (res ++ [b]) name

/-- `decode_dns_name`. -/
def decodeDnsName (name : Bytes) : Except Fault Bytes := decodeDnsNameLoop 0 0 [] name

/-- The offset in a jump of two bytes, the first of them with its two high bits set. -/
def jumpOffset (b c : UInt8) : Nat := (b ^^^ jumpMask).toNat * 256 + c.toNat

/-- `if (!jumped) count++`. -/
def countByte (jumped : Bool) (count : Nat) : Except Fault Nat := if jumped then .ok count else addInt count 1

/-- The loop of `extract_encoded_name` at an offset of the packet: the bytes pushed, and the count in the end. Bytes are counted
until the first jump. -/
def extractEncodedNameLoop (packet : Bytes) : Nat → Bool → Nat → Nat → Except Fault (Bytes × Nat)
  | 0, _, _, _ => .error .diverges
  | fuel + 1, jumped, count, o =>
    match packet[o]? with
    | none => .error .outOfBounds
    | some b =>
      if b = 0 then do return ([0], ← addInt count (if jumped then 2 else 1))
      else if b &&& jumpMask = jumpMask then
        match packet[o + 1]? with
        | none => .error .outOfBounds
        | some c => extractEncodedNameLoop packet fuel true count (jumpOffset b c)
      else do
        let count ← countByte jumped count
        let (name, count) ← extractEncodedNameLoop packet fuel jumped count (o + 1)
        return (b :: name, count)

/-- The null byte is no jump. -/
theorem ne_zero_of_jump {b : UInt8} (h : b &&& jumpMask = jumpMask) : b ≠ 0 := by
  intro hzero
  rw [hzero] at h
  exact absurd h (by decide)

theorem countByte_ok_iff (jumped : Bool) (count m : Nat) :
    countByte jumped count = .ok m ↔ m = (if jumped then count else count + 1) ∧ (jumped = false → count + 1 < 2 ^ 31) := by
  cases jumped with
  | true => simp [countByte, eq_comm]
  | false => simp [countByte, addInt_ok_iff, and_comm]

/-- What one turn of the loop can do: stop at a null byte, follow a jump, or take a byte. -/
theorem extractEncodedNameLoop_succ_ok_iff (packet : Bytes) (fuel : Nat) (jumped : Bool) (count o : Nat) (name : Bytes)
    (k : Nat) :
    extractEncodedNameLoop packet (fuel + 1) jumped count o = .ok (name, k) ↔ ∃ b, packet[o]? = some b ∧
      ((b = 0 ∧ name = [0] ∧ addInt count (if jumped then 2 else 1) = .ok k) ∨
        (b &&& jumpMask = jumpMask ∧ ∃ c, packet[o + 1]? = some c ∧
          extractEncodedNameLoop packet fuel true count (jumpOffset b c) = .ok (name, k)) ∨
        (b ≠ 0 ∧ b &&& jumpMask ≠ jumpMask ∧ (jumped = false → count + 1 < 2 ^ 31) ∧ ∃ rest,
          extractEncodedNameLoop packet fuel jumped (if jumped then count else count + 1) (o + 1) = .ok (rest, k) ∧
            name = b :: rest)) := by
  rw [extractEncodedNameLoop]
  cases packet[o]? with
  | none => simp
  | some b =>
    simp only [Option.some.injEq, exists_eq_left']
    by_cases hzero : b = 0
    · subst hzero
      have hmask : jumpMask ≠ 0 := by decide
      rw [if_pos rfl, bind_eq_ok_iff]
      constructor
      · rintro ⟨m, hm, hok⟩
        obtain ⟨rfl, rfl⟩ := Prod.mk.inj (Except.ok.inj hok)
        exact .inl ⟨rfl, rfl, hm⟩
      · rintro (⟨-, rfl, hm⟩ | ⟨hjump, -⟩ | ⟨hne, -⟩)
        · exact ⟨k, hm, rfl⟩
        · exact absurd rfl (ne_zero_of_jump hjump)
        · exact absurd rfl hne
    · by_cases hjump : b &&& jumpMask = jumpMask
      · cases packet[o + 1]? <;> simp [hzero, hjump]
      · rw [if_neg hzero, if_neg hjump, bind_eq_ok_iff]
        constructor
        · rintro ⟨m, hm, hrun⟩
          obtain ⟨rfl, hlt⟩ := (countByte_ok_iff jumped count m).mp hm
          obtain ⟨⟨rest, m'⟩, hrest, hok⟩ := (bind_eq_ok_iff _ _ _).mp hrun
          obtain ⟨rfl, rfl⟩ := Prod.mk.inj (Except.ok.inj hok)
          exact .inr (.inr ⟨hzero, hjump, hlt, rest, hrest, rfl⟩)
        · rintro (⟨h, -⟩ | ⟨h, -⟩ | ⟨-, -, hlt, rest, hrest, rfl⟩)
          · exact absurd h hzero
          · exact absurd h hjump
          · exact ⟨_, (countByte_ok_iff jumped count _).mpr ⟨rfl, hlt⟩, (bind_eq_ok_iff _ _ _).mpr ⟨(rest, k), hrest, rfl⟩⟩

/-- More fuel does not change what the loop returns. -/
theorem extractEncodedNameLoop_mono {packet : Bytes} {fuel fuel' : Nat} {jumped : Bool} {count o : Nat} {r : Bytes × Nat}
    (hle : fuel ≤ fuel') (h : extractEncodedNameLoop packet fuel jumped count o = .ok r) :
    extractEncodedNameLoop packet fuel' jumped count o = .ok r := by
  induction fuel generalizing fuel' jumped count o r with
  | zero => nomatch h
  | succ fuel ih =>
    obtain ⟨name, k⟩ := r
    obtain ⟨fuel', rfl⟩ : ∃ n, fuel' = n + 1 := ⟨fuel' - 1, by omega⟩
    have hle' : fuel ≤ fuel' := by omega
    rw [extractEncodedNameLoop_succ_ok_iff] at h ⊢
    obtain ⟨b, hb, h⟩ := h
    refine ⟨b, hb, ?_⟩
    rcases h with hstop | ⟨hjump, c, hc, hrest⟩ | ⟨hzero, hjump, hlt, rest, hrest, hname⟩
    · exact .inl hstop
    · exact .inr (.inl ⟨hjump, c, hc, ih hle' hrest⟩)
    · exact .inr (.inr ⟨hzero, hjump, hlt, rest, ih hle' hrest, hname⟩)

/-- `extract_encoded_name`, from an empty destination. -/
def extractEncodedName : Fueled Bytes where
  run fuel := .ofDecoder ⟨fun packet o => extractEncodedNameLoop packet fuel false 0 o⟩
  mono := by
    intro fuel fuel' p o r hle h
    obtain ⟨name, k⟩ := r
    obtain ⟨i, n, ho, hk, hloop⟩ := (Reader.run_ofDecoder_ok_iff ..).mp h
    exact (Reader.run_ofDecoder_ok_iff ..).mpr ⟨i, n, ho, hk, extractEncodedNameLoop_mono hle hloop⟩

/-- The name at an offset of a packet: extracted and decoded. -/
def extractDnsName : Fueled Bytes := do
  let encoded ← extractEncodedName
  Fueled.lift (decodeDnsName encoded)

end NetworkingFramework
