import Mathlib.Algebra.Group.Int.Defs
import Mathlib.Algebra.Group.Nat.Defs
import NetworkingFramework.Lib.Wire

/-!
# Readers that count in an `int`

C++ code that reads a buffer through a pointer moves the pointer by what a function returns, and what it returns is an `int`: a
count that does not fit in one comes out negative, and the pointer goes back. A `Reader` reads a buffer from an offset that may
lie before it, and returns a value and the `int` by which the pointer moves. Decoders that do not count so far are readers
(`ofDecoder`), and what they take in a row is where each of them stopped (`run_bind_ok_iff`, `run_times_ok_iff`).
-/

namespace Wire

/-! ## Numbers of 32 bits -/

/-- A number that is assigned to an `int`. -/
def narrow (n : Int) : Int := n.bmod (2 ^ 32)

theorem narrow_of_mem {n : Int} (hlo : -2 ^ 31 ≤ n) (hhi : n < 2 ^ 31) : narrow n = n := by
  unfold narrow
  exact Int.bmod_eq_of_le (by omega) (by omega)

theorem narrow_of_lt {n : Nat} (h : n < 2 ^ 31) : narrow n = n := narrow_of_mem (by omega) (by omega)

theorem narrow_lt (n : Int) : narrow n < 2 ^ 31 := by
  have h := Int.bmod_lt (x := n) (m := 2 ^ 32) (by decide)
  unfold narrow
  omega

theorem narrow_le (n : Nat) : narrow n ≤ n := by
  by_cases h : n < 2 ^ 31
  · exact Int.le_of_eq (narrow_of_lt h)
  · have hlt := narrow_lt n
    omega

/-- Only a number that fits in an `int` is kept. -/
theorem narrow_eq_iff (n : Nat) : narrow n = n ↔ n < 2 ^ 31 := by
  constructor
  · intro h
    have hlt := narrow_lt n
    omega
  · exact narrow_of_lt

/-- A count that was assigned to an `int` may be increased before or after. -/
@[simp] theorem narrow_narrow_add (n m : Int) : narrow (narrow n + m) = narrow (n + m) := by
  unfold narrow
  exact Int.bmod_add_bmod

@[simp] theorem narrow_add_narrow (n m : Int) : narrow (n + narrow m) = narrow (n + m) := by
  unfold narrow
  exact Int.add_bmod_bmod

/-- A sum of two `int`s. -/
def addInts (i k : Int) : Except Fault Int :=
  if -2 ^ 31 ≤ i + k ∧ i + k < 2 ^ 31 then .ok (i + k) else .error .unrepresentable

theorem addInts_ok_iff (i k n : Int) : addInts i k = .ok n ↔ (-2 ^ 31 ≤ i + k ∧ i + k < 2 ^ 31) ∧ n = i + k := by
  unfold addInts
  split
  · rename_i h
    rw [Except.ok.injEq]
    exact ⟨fun heq => ⟨h, heq.symm⟩, fun heq => heq.2.symm⟩
  · rename_i h
    exact ⟨fun heq => (nomatch heq), fun heq => absurd heq.1 h⟩

/-- As `suffixFrom`, from an offset that may lie before the buffer. -/
def suffixFromInt (data : Bytes) (n : Int) : Except Fault Bytes :=
  if n < 0 then .error .outOfBounds else suffixFrom data n.toNat

@[simp] theorem suffixFromInt_natCast (data : Bytes) (n : Nat) : suffixFromInt data n = suffixFrom data n := by
  unfold suffixFromInt
  rw [if_neg (by omega), Int.toNat_natCast]

/-! ## Readers -/

/-- A reader reads a buffer from an offset: a value and how far the pointer moves, or a fault. -/
structure Reader (α : Type) where
  run : Bytes → Int → Except Fault (α × Int)

namespace Reader

variable {α β : Type}

/-- The reader that does not move. -/
protected def pure (a : α) : Reader α := ⟨fun _ _ => .ok (a, 0)⟩

/-- One reader after another, at the offset where the first stopped. -/
protected def bind (d : Reader α) (f : α → Reader β) : Reader β :=
  ⟨fun p o => do
    let (a, n) ← d.run p o
    let (b, m) ← (f a).run p (o + n)
    return (b, n + m)⟩

instance : Monad Reader where
  pure := Reader.pure
  bind := Reader.bind

/-- A decoder, at an offset of the buffer. Before it there is nothing to read. -/
def ofDecoder (d : Decoder α) : Reader α :=
  ⟨fun p o =>
    if 0 ≤ o then do
      let (a, n) ← d.run p o.toNat
      return (a, (n : Int))
    else .error .outOfBounds⟩

/-- How far the pointer moves is returned as an `int`. -/
def narrowed (d : Reader α) : Reader α :=
  ⟨fun p o => do
    let (a, n) ← d.run p o
    return (a, narrow n)⟩

/-- The same reader `n` times in a row. -/
def times (d : Reader α) : Nat → Reader (List α)
  | 0 => pure []
  | n + 1 => do
    let a ← d
    let as ← times d n
    return a :: as

theorem run_pure (a : α) (p : Bytes) (o : Int) : (pure a : Reader α).run p o = .ok (a, 0) := rfl

theorem run_bind (d : Reader α) (f : α → Reader β) (p : Bytes) (o : Int) :
    (d >>= f).run p o = (do
      let (a, n) ← d.run p o
      let (b, m) ← (f a).run p (o + n)
      return (b, n + m)) := rfl

theorem run_pure_ok_iff (a b : α) (p : Bytes) (o n : Int) : (pure b : Reader α).run p o = .ok (a, n) ↔ a = b ∧ n = 0 := by
  rw [run_pure, Except.ok.injEq, Prod.mk.injEq]
  exact and_congr eq_comm eq_comm

/-- What a sequence of two readers returns. -/
theorem run_bind_ok_iff (d : Reader α) (f : α → Reader β) (p : Bytes) (o k : Int) (b : β) :
    (d >>= f).run p o = .ok (b, k) ↔
      ∃ a n m, d.run p o = .ok (a, n) ∧ (f a).run p (o + n) = .ok (b, m) ∧ k = n + m := by
  rw [run_bind, bind_eq_ok_iff]
  constructor
  · intro h
    rcases h with ⟨⟨a, n⟩, hd, h⟩
    obtain ⟨⟨b', m⟩, hf, hb⟩ := (bind_eq_ok_iff _ _ _).mp h
    obtain ⟨rfl, rfl⟩ := Prod.mk.inj (Except.ok.inj hb)
    exact ⟨a, n, m, hd, hf, rfl⟩
  · intro h
    rcases h with ⟨a, n, m, hd, hf, rfl⟩
    exact ⟨(a, n), hd, (bind_eq_ok_iff _ _ _).mpr ⟨(b, m), hf, rfl⟩⟩

theorem run_ofDecoder_ok_iff (d : Decoder α) (p : Bytes) (o n : Int) (a : α) :
    (ofDecoder d).run p o = .ok (a, n) ↔ ∃ i k : Nat, o = i ∧ n = k ∧ d.run p i = .ok (a, k) := by
  simp only [ofDecoder]
  split
  · rename_i ho
    obtain ⟨i, rfl⟩ := Int.eq_ofNat_of_zero_le ho
    rw [Int.toNat_natCast, bind_eq_ok_iff]
    constructor
    · intro h
      obtain ⟨⟨a', k⟩, hd, h⟩ := h
      obtain ⟨rfl, rfl⟩ := Prod.mk.inj (Except.ok.inj h)
      exact ⟨i, k, rfl, rfl, hd⟩
    · intro h
      obtain ⟨i', k, hi, rfl, hd⟩ := h
      obtain rfl : i = i' := by omega
      exact ⟨(a, k), hd, rfl⟩
  · rename_i ho
    constructor
    · intro h
      nomatch h
    · intro h
      obtain ⟨i, _, rfl, -⟩ := h
      exact absurd (Int.natCast_nonneg i) ho

theorem run_narrowed_ok_iff (d : Reader α) (p : Bytes) (o n : Int) (a : α) :
    d.narrowed.run p o = .ok (a, n) ↔ ∃ k, d.run p o = .ok (a, k) ∧ n = narrow k := by
  simp only [narrowed, bind_eq_ok_iff]
  constructor
  · intro h
    obtain ⟨⟨a', k⟩, hd, h⟩ := h
    obtain ⟨rfl, rfl⟩ := Prod.mk.inj (Except.ok.inj h)
    exact ⟨k, hd, rfl⟩
  · intro h
    obtain ⟨k, hd, rfl⟩ := h
    exact ⟨(a, k), hd, rfl⟩

/-! ### Readers that are decoders -/

theorem ext_run {d e : Reader α} (h : ∀ p o, d.run p o = e.run p o) : d = e := by
  obtain ⟨run⟩ := d
  obtain ⟨run'⟩ := e
  exact congrArg Reader.mk (funext fun p => funext fun o => h p o)

/-- Two decoders in sequence go on where the first stopped, as readers do. -/
theorem ofDecoder_bind (d : Decoder α) (f : α → Decoder β) :
    ofDecoder (d >>= f) = ofDecoder d >>= fun a => ofDecoder (f a) := by
  refine ext_run fun p o => ?_
  rw [run_bind]
  simp only [ofDecoder, Decoder.run_bind]
  split
  · rename_i ho
    cases d.run p o.toNat with
    | error e => rfl
    | ok r =>
      obtain ⟨a, n⟩ := r
      have hnext : 0 ≤ o + (n : Int) := by omega
      have hoff : (o + (n : Int)).toNat = o.toNat + n := by omega
      simp only [ok_bind, pure_eq_ok, if_pos hnext, hoff]
      cases (f a).run p (o.toNat + n) with
      | error e => rfl
      | ok r => simp
  · rfl

/-- A function of the value at the end. -/
theorem ofDecoder_map (d : Decoder α) (g : α → β) :
    ofDecoder (d >>= fun a => pure (g a)) = ofDecoder d >>= fun a => pure (g a) := by
  refine ext_run fun p o => ?_
  rw [run_bind]
  simp only [ofDecoder, Decoder.run_bind]
  split
  · cases d.run p o.toNat with
    | error e => rfl
    | ok r => simp [Decoder.run_pure, run_pure]
  · rfl

/-- A count that is returned as an `int` may as well be one before. -/
theorem narrowed_bind_narrowed (d : Reader α) (f : α → Reader β) :
    narrowed (d >>= fun a => narrowed (f a)) = narrowed (d >>= f) := by
  refine ext_run fun p o => ?_
  simp only [narrowed, run_bind]
  cases d.run p o with
  | error e => rfl
  | ok r =>
    simp only [ok_bind]
    cases (f r.1).run p (o + r.2) with
    | error e => rfl
    | ok r => simp

theorem narrowed_map_narrowed (d : Reader α) (g : α → β) :
    narrowed (narrowed d >>= fun a => pure (g a)) = narrowed (d >>= fun a => pure (g a)) := by
  refine ext_run fun p o => ?_
  simp only [narrowed, run_bind]
  cases d.run p o with
  | error e => rfl
  | ok r => simp [narrow, run_pure]

/-- Readers that differ only in what they narrow on the way. -/
theorem narrowed_bind_congr (d : Reader α) {f g : α → Reader β} (h : ∀ a, narrowed (f a) = narrowed (g a)) :
    narrowed (d >>= f) = narrowed (d >>= g) := by
  rw [← narrowed_bind_narrowed d f, funext h, narrowed_bind_narrowed]

/-- What a decoder returns whose count is narrowed. -/
theorem run_narrowed_ofDecoder_ok_iff (d : Decoder α) (p : Bytes) (o n : Int) (a : α) :
    (narrowed (ofDecoder d)).run p o = .ok (a, n) ↔ ∃ i k : Nat, o = i ∧ n = narrow k ∧ d.run p i = .ok (a, k) := by
  rw [run_narrowed_ok_iff]
  constructor
  · intro h
    obtain ⟨m, hread, rfl⟩ := h
    obtain ⟨i, k, rfl, rfl, hd⟩ := (run_ofDecoder_ok_iff ..).mp hread
    exact ⟨i, k, rfl, rfl, hd⟩
  · intro h
    obtain ⟨i, k, ho, hn, hd⟩ := h
    exact ⟨k, (run_ofDecoder_ok_iff ..).mpr ⟨i, k, ho, rfl, hd⟩, hn⟩

/-! ## What lies in a row -/

/-- Items in a row from an offset: where `At o a n` says that `a` lies at `o` and the pointer moves by `n` behind it. -/
inductive Row (At : Int → α → Int → Prop) : Nat → Int → List α → Int → Prop where
  | zero (o : Int) : Row At 0 o [] 0
  | succ {k : Nat} {o n m : Int} {a : α} {as : List α} : At o a n → Row At k (o + n) as m → Row At (k + 1) o (a :: as) (n + m)

/-- A reader repeated returns what lies in a row. -/
theorem run_times_ok_iff {d : Reader α} {p : Bytes} {At : Int → α → Int → Prop}
    (hd : ∀ o a n, d.run p o = .ok (a, n) ↔ At o a n) (k : Nat) (o n : Int) (as : List α) :
    (d.times k).run p o = .ok (as, n) ↔ Row At k o as n := by
  induction k generalizing o n as with
  | zero =>
    rw [times, run_pure_ok_iff]
    constructor
    · intro h
      obtain ⟨rfl, rfl⟩ := h
      exact .zero o
    · intro h
      cases h
      exact ⟨rfl, rfl⟩
  | succ k ih =>
    rw [times, run_bind_ok_iff]
    constructor
    · intro h
      obtain ⟨a, n₁, m₁, ha, hrest, rfl⟩ := h
      obtain ⟨as', n₂, m₂, has, hpure, rfl⟩ := (run_bind_ok_iff ..).mp hrest
      obtain ⟨rfl, rfl⟩ := (run_pure_ok_iff ..).mp hpure
      rw [Int.add_zero]
      exact .succ ((hd o a n₁).mp ha) ((ih (o + n₁) n₂ as').mp has)
    · intro h
      cases h with
      | @succ _ _ n₁ n₂ a as hat hrest =>
        refine ⟨a, n₁, n₂, (hd o a n₁).mpr hat, (run_bind_ok_iff ..).mpr ?_, rfl⟩
        exact ⟨as, n₂, 0, (ih (o + n₁) n₂ as).mpr hrest, (run_pure_ok_iff ..).mpr ⟨rfl, rfl⟩, (Int.add_zero n₂).symm⟩

theorem Row.length_eq {At : Int → α → Int → Prop} {k : Nat} {o n : Int} {as : List α} (h : Row At k o as n) :
    as.length = k := by
  induction h with
  | zero o => rfl
  | succ _ _ ih => rw [List.length_cons, ih]

/-- What holds of every item holds of all in a row. -/
theorem Row.forall_mem {At : Int → α → Int → Prop} {P : α → Prop} (hP : ∀ o a n, At o a n → P a) {k : Nat} {o n : Int}
    {as : List α} (h : Row At k o as n) : ∀ a ∈ as, P a := by
  induction h with
  | zero o => intro a ha; exact absurd ha List.not_mem_nil
  | succ hat _ ih =>
    intro a ha
    rcases List.mem_cons.mp ha with rfl | ha
    · exact hP _ _ _ hat
    · exact ih a ha

/-! ## Round trips -/

/-- `d` takes the word `w` for `a`, wherever it lies and whatever follows. -/
def RoundTrips (d : Reader α) (w : Bytes) (a : α) : Prop :=
  ∀ pre post, d.run (pre ++ w ++ post) pre.length = .ok (a, (w.length : Int))

/-- At the start of a buffer. -/
theorem RoundTrips.run_append {d : Reader α} {w : Bytes} {a : α} (h : RoundTrips d w a) (post : Bytes) :
    d.run (w ++ post) 0 = .ok (a, (w.length : Int)) :=
  h [] post

theorem roundTrips_ofDecoder {d : Decoder α} {w : Bytes} {a : α} (h : d.RoundTrips w a) : (ofDecoder d).RoundTrips w a :=
  fun pre post => (run_ofDecoder_ok_iff ..).mpr ⟨pre.length, w.length, rfl, rfl, h pre post⟩

theorem roundTrips_pure (a : α) : RoundTrips (pure a) [] a := fun _ _ => rfl

/-- Words that round trip, one after another, round trip in sequence. -/
theorem RoundTrips.bind {d : Reader α} {f : α → Reader β} {w₁ w₂ : Bytes} {a : α} {b : β} (h₁ : RoundTrips d w₁ a)
    (h₂ : RoundTrips (f a) w₂ b) : RoundTrips (d >>= f) (w₁ ++ w₂) b := by
  intro pre post
  refine (run_bind_ok_iff ..).mpr ⟨a, w₁.length, w₂.length, ?_, ?_, by rw [List.length_append, Int.natCast_add]⟩
  · have h := h₁ pre (w₂ ++ post)
    rwa [← List.append_assoc, List.append_assoc pre] at h
  · have h := h₂ (pre ++ w₁) post
    rwa [List.length_append, Int.natCast_add, List.append_assoc pre] at h

/-- A word that round trips, and a function of the value at the end. -/
theorem RoundTrips.map {d : Reader α} {w : Bytes} {a : α} (h : RoundTrips d w a) (g : α → β) :
    RoundTrips (d >>= fun x => pure (g x)) w (g a) := by
  have hb := RoundTrips.bind h (f := fun x => pure (g x)) (roundTrips_pure (g a))
  rwa [List.append_nil] at hb

/-- The length of a word that is not too long is returned as it is. -/
theorem RoundTrips.narrowed {d : Reader α} {w : Bytes} {a : α} (h : RoundTrips d w a) (hlen : w.length < 2 ^ 31) :
    RoundTrips d.narrowed w a :=
  fun pre post => (run_narrowed_ok_iff ..).mpr ⟨w.length, h pre post, (narrow_of_lt hlen).symm⟩

/-- A list of values, each round tripping through its own word, round trips through the words in a row. -/
theorem RoundTrips.times {d : Reader α} {enc : α → Bytes} {as : List α} (h : ∀ a ∈ as, RoundTrips d (enc a) a) :
    RoundTrips (d.times as.length) (as.flatMap enc) as := by
  induction as with
  | nil => exact roundTrips_pure []
  | cons a as ih =>
    have hrest : RoundTrips (d.times as.length) (as.flatMap enc) as := ih fun x hx => h x (List.mem_cons_of_mem a hx)
    rw [List.flatMap_cons]
    exact RoundTrips.bind (h a List.mem_cons_self) (hrest.map (a :: ·))

end Reader
end Wire
