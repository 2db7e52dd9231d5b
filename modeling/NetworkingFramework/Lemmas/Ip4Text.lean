import NetworkingFramework.Ip4Text

/-!
# Numbers with dots between them

What `sscanf` converts: numbers as `strtoul` reads them, each followed by a dot and the last by anything, until one is too large.
-/

namespace NetworkingFramework

open Wire CText

/-- A text that is converted to a number. -/
def ConvertsTo (w : Bytes) (number : UInt32) : Prop :=
  ∃ negative value, NumberText 10 w negative value ∧ value < 2 ^ 32 ∧
    number = if negative then -UInt32.ofNat value else UInt32.ofNat value

/-- A text of a number that is too large. -/
def TooLarge (w : Bytes) : Prop := ∃ negative value, NumberText 10 w negative value ∧ 2 ^ 32 ≤ value

theorem noDigit_dot (s : Bytes) : NoDigit 10 ('.'.toUInt8 :: s) := by
  intro c hc
  rw [← Option.some.inj hc]
  decide

/-! ## One number -/

theorem scanUnsigned_of_convertsTo {w rest : Bytes} {number : UInt32} (h : ConvertsTo w number) (hrest : NoDigit 10 rest) :
    scanUnsigned (w ++ rest) = .ok (some (number, rest)) := by
  obtain ⟨negative, value, htext, hvalue, rfl⟩ := h
  rw [scanUnsigned, subject_numberText htext hrest fun hbase => absurd hbase (by decide)]
  exact if_pos hvalue

theorem scanUnsigned_of_tooLarge {w rest : Bytes} (h : TooLarge w) (hrest : NoDigit 10 rest) :
    scanUnsigned (w ++ rest) = .error .unrepresentable := by
  obtain ⟨negative, value, htext, hvalue⟩ := h
  rw [scanUnsigned, subject_numberText htext hrest fun hbase => absurd hbase (by decide)]
  exact if_neg (Nat.not_lt_of_le hvalue)

/-- What comes of a conversion: no number, one, or one that is too large. -/
theorem scanUnsigned_cases (s : Bytes) : scanUnsigned s = .ok none ∨
    (∃ w number rest, s = w ++ rest ∧ ConvertsTo w number ∧ NoDigit 10 rest ∧ scanUnsigned s = .ok (some (number, rest))) ∨
    (∃ w rest, s = w ++ rest ∧ TooLarge w ∧ NoDigit 10 rest ∧ scanUnsigned s = .error .unrepresentable) := by
  cases hsubject : subject 10 s with
  | none =>
    left
    rw [scanUnsigned, hsubject]
  | some n =>
    right
    obtain ⟨w, hw, htext, hrest⟩ := numberText_of_subject hsubject fun hbase => absurd hbase (by decide)
    by_cases hvalue : n.value < 2 ^ 32
    · have hconverts : ConvertsTo w _ := ⟨n.negative, n.value, htext, hvalue, rfl⟩
      exact .inl ⟨w, _, n.rest, hw, hconverts, hrest, hw ▸ scanUnsigned_of_convertsTo hconverts hrest⟩
    · have hlarge : TooLarge w := ⟨n.negative, n.value, htext, Nat.le_of_not_lt hvalue⟩
      exact .inr ⟨w, n.rest, hw, hlarge, hrest, hw ▸ scanUnsigned_of_tooLarge hlarge hrest⟩

/-! ## Numbers with dots between them -/

theorem joined_cons_cons (sep s t : Bytes) (ss : List Bytes) : joined sep (s :: t :: ss) = s ++ (sep ++ joined sep (t :: ss)) := by
  simp [joined]

theorem scanDotted_dot {w rest : Bytes} {number : UInt32} (h : ConvertsTo w number) (k : Nat) :
    scanDotted (k + 1) (w ++ '.'.toUInt8 :: rest) = (scanDotted k rest).map (number :: ·) := by
  rw [scanDotted, scanUnsigned_of_convertsTo h (noDigit_dot rest), ← bind_ok_eq_map]
  rfl

/-- As many numbers as there are conversions. -/
theorem scanDotted_joined {ws : List Bytes} {numbers : List UInt32} (h : List.Forall₂ ConvertsTo ws numbers) (hne : ws ≠ [])
    {rest : Bytes} (hrest : NoDigit 10 rest) : scanDotted ws.length (joined (chars ".") ws ++ rest) = .ok numbers := by
  induction h with
  | nil => exact absurd rfl hne
  | @cons w number ws numbers hw hws ih =>
    cases hws with
    | nil =>
      have hjoined : joined (chars ".") [w] ++ rest = w ++ rest := by simp [joined]
      rw [hjoined, List.length_singleton, scanDotted, scanUnsigned_of_convertsTo hw hrest, ok_bind]
      simp only
      split <;> rfl
    | @cons w' number' ws numbers hw' hws =>
      have hjoined : joined (chars ".") (w :: w' :: ws) ++ rest =
          w ++ '.'.toUInt8 :: (joined (chars ".") (w' :: ws) ++ rest) := by
        rw [joined_cons_cons, chars_dot]
        simp
      rw [hjoined, List.length_cons, scanDotted_dot hw, ih (List.cons_ne_nil _ _)]
      rfl

/-- A number that is too large, behind some that are not. -/
theorem scanDotted_tooLarge {ws : List Bytes} (hws : ∀ w ∈ ws, ∃ number, ConvertsTo w number) {w rest : Bytes}
    (hw : TooLarge w) (hrest : NoDigit 10 rest) {k : Nat} (hk : ws.length < k) :
    scanDotted k (ws.flatMap (· ++ chars ".") ++ (w ++ rest)) = .error .unrepresentable := by
  induction ws generalizing k with
  | nil =>
    obtain ⟨k, rfl⟩ := Nat.exists_eq_succ_of_ne_zero (Nat.ne_zero_of_lt hk)
    rw [List.flatMap_nil, List.nil_append, scanDotted, scanUnsigned_of_tooLarge hw hrest]
    rfl
  | cons v ws ih =>
    obtain ⟨k, rfl⟩ := Nat.exists_eq_succ_of_ne_zero (Nat.ne_zero_of_lt hk)
    obtain ⟨⟨number, hv⟩, hws⟩ := List.forall_mem_cons.mp hws
    have hsplit : (v :: ws).flatMap (· ++ chars ".") ++ (w ++ rest) =
        v ++ '.'.toUInt8 :: (ws.flatMap (· ++ chars ".") ++ (w ++ rest)) := by
      simp [chars_dot]
    rw [hsplit, scanDotted_dot hv, ih hws (Nat.lt_of_succ_lt_succ hk)]
    rfl

theorem eq_dot_cons {rest : Bytes} (h : rest.head? = some '.'.toUInt8) : rest = '.'.toUInt8 :: rest.tail := by
  cases rest with
  | nil => nomatch h
  | cons c rest => rw [Option.some.inj h]; rfl

/-- When the conversions have no value, one of the numbers is too large. -/
theorem tooLarge_of_scanDotted {k : Nat} {s : Bytes} {e : Fault} (h : scanDotted k s = .error e) :
    ∃ (ws : List Bytes) (w rest : Bytes), ws.length < k ∧
      s = ws.flatMap (· ++ chars ".") ++ (w ++ rest) ∧
      (∀ v ∈ ws, ∃ number, ConvertsTo v number) ∧ TooLarge w ∧ NoDigit 10 rest := by
  induction k generalizing s e with
  | zero => nomatch h
  | succ k ih =>
    rcases scanUnsigned_cases s with hscan | ⟨w, number, rest, rfl, hw, hrest, hscan⟩ | ⟨w, rest, rfl, hw, hrest, hscan⟩
    · rw [scanDotted, hscan] at h
      nomatch h
    · by_cases hdot : rest.head? = some '.'.toUInt8
      · rw [eq_dot_cons hdot, scanDotted_dot hw] at h
        cases hnext : scanDotted k rest.tail with
        | ok numbers =>
          rw [hnext] at h
          nomatch h
        | error e' =>
          obtain ⟨ws, w', rest', hlen, hsplit, hws, hlarge, hrest'⟩ := ih hnext
          refine ⟨w :: ws, w', rest', Nat.succ_lt_succ hlen, ?_, List.forall_mem_cons.mpr ⟨⟨number, hw⟩, hws⟩, hlarge, hrest'⟩
          rw [eq_dot_cons hdot, hsplit]
          simp [chars_dot]
      · rw [scanDotted, hscan, ok_bind] at h
        simp only [if_neg hdot] at h
        nomatch h
    · exact ⟨[], w, rest, Nat.succ_pos k, rfl, fun v hv => absurd hv List.not_mem_nil, hw, hrest⟩

/-- When there are as many numbers as conversions, the string begins with so many texts. -/
theorem joined_of_scanDotted {k : Nat} {s : Bytes} {numbers : List UInt32} (h : scanDotted (k + 1) s = .ok numbers)
    (hlen : numbers.length = k + 1) :
    ∃ ws rest, ws.length = k + 1 ∧ s = joined (chars ".") ws ++ rest ∧ List.Forall₂ ConvertsTo ws numbers ∧ NoDigit 10 rest := by
  induction k generalizing s numbers with
  | zero =>
    rcases scanUnsigned_cases s with hscan | ⟨w, number, rest, rfl, hw, hrest, hscan⟩ | ⟨w, rest, rfl, hw, hrest, hscan⟩
    · rw [scanDotted, hscan] at h
      obtain rfl := Except.ok.inj h
      nomatch hlen
    · have hnumbers : numbers = [number] := by
        rw [scanDotted, hscan, ok_bind] at h
        simp only at h
        split at h <;> exact (Except.ok.inj h).symm
      exact ⟨[w], rest, rfl, by simp [joined], hnumbers ▸ .cons hw .nil, hrest⟩
    · rw [scanDotted, hscan] at h
      nomatch h
  | succ k ih =>
    rcases scanUnsigned_cases s with hscan | ⟨w, number, rest, rfl, hw, hrest, hscan⟩ | ⟨w, rest, rfl, hw, hrest, hscan⟩
    · rw [scanDotted, hscan] at h
      obtain rfl := Except.ok.inj h
      nomatch hlen
    · by_cases hdot : rest.head? = some '.'.toUInt8
      · rw [eq_dot_cons hdot, scanDotted_dot hw, map_eq_ok_iff] at h
        obtain ⟨numbers', hnext, rfl⟩ := h
        obtain ⟨ws, rest', hlen', hsplit, hws, hrest'⟩ := ih hnext (Nat.succ.inj hlen)
        obtain ⟨v, vs, rfl⟩ : ∃ v vs, ws = v :: vs := List.exists_cons_of_ne_nil (by rintro rfl; nomatch hlen')
        refine ⟨w :: v :: vs, rest', congrArg (· + 1) hlen', ?_, .cons hw hws, hrest'⟩
        rw [eq_dot_cons hdot, hsplit, joined_cons_cons]
        simp [chars_dot]
      · rw [scanDotted, hscan, ok_bind] at h
        simp only [if_neg hdot] at h
        obtain rfl := Except.ok.inj h
        nomatch hlen
    · rw [scanDotted, hscan] at h
      nomatch h

end NetworkingFramework
