import NetworkingFramework.Lib.Reader

/-!
# Readers that loop

A reader that follows pointers into its buffer need not return. It is given fuel, and what it returns with some fuel it
returns with more (`Fueled`). `Returns` says what it returns at all. Sequences of such readers return what their parts do, one
after another, and parts that are read at a count kept in a variable (`peek`) move the pointer only when the whole is done, so a
whole message is described by what lies at each offset.
-/

namespace Wire

/-- A reader that is given fuel for its loops. More fuel does not change what it returns. -/
structure Fueled (α : Type) where
  run : Nat → Reader α
  mono : ∀ {fuel fuel' : Nat} {p : Bytes} {o : Int} {r : α × Int},
    fuel ≤ fuel' → (run fuel).run p o = .ok r → (run fuel').run p o = .ok r

namespace Fueled

variable {α β : Type}

/-- A reader without loops. -/
def ofReader (d : Reader α) : Fueled α := ⟨fun _ => d, fun _ h => h⟩

/-- A decoder. -/
def ofDecoder (d : Decoder α) : Fueled α := ofReader (.ofDecoder d)

/-- A computation on what was read so far; the pointer does not move. -/
def lift (r : Except Fault α) : Fueled α := ofReader ⟨fun _ _ => do return (← r, 0)⟩

/-- The pointer moves by a count. -/
def move (n : Int) : Fueled Unit := ofReader ⟨fun _ _ => .ok ((), n)⟩

/-- What is read `k` bytes behind the pointer, and its count. The pointer does not move. -/
def peek (k : Int) (d : Fueled α) : Fueled (α × Int) where
  run fuel := ⟨fun p o => do return (← (d.run fuel).run p (o + k), 0)⟩
  mono := by
    intro fuel fuel' p o r hle h
    obtain ⟨s, hd, h⟩ := (bind_eq_ok_iff _ _ _).mp h
    exact (bind_eq_ok_iff _ _ _).mpr ⟨s, d.mono hle hd, h⟩

/-- The reader that does not move. -/
protected def pure (a : α) : Fueled α := ofReader (Reader.pure a)

/-- One reader after another, both with the fuel given. -/
protected def bind (d : Fueled α) (f : α → Fueled β) : Fueled β where
  run fuel := d.run fuel >>= fun a => (f a).run fuel
  mono := by
    intro fuel fuel' p o r hle h
    obtain ⟨b, k⟩ := r
    obtain ⟨a, n, m, hd, hf, hk⟩ := (Reader.run_bind_ok_iff ..).mp h
    exact (Reader.run_bind_ok_iff ..).mpr ⟨a, n, m, d.mono hle hd, (f a).mono hle hf, hk⟩

instance : Monad Fueled where
  pure := Fueled.pure
  bind := Fueled.bind

/-- How far the pointer moves is returned as an `int`. -/
def narrowed (d : Fueled α) : Fueled α where
  run fuel := (d.run fuel).narrowed
  mono := by
    intro fuel fuel' p o r hle h
    obtain ⟨a, n⟩ := r
    obtain ⟨k, hd, hn⟩ := (Reader.run_narrowed_ok_iff ..).mp h
    exact (Reader.run_narrowed_ok_iff ..).mpr ⟨k, d.mono hle hd, hn⟩

/-- The same reader `n` times in a row. -/
def times (d : Fueled α) : Nat → Fueled (List α)
  | 0 => pure []
  | n + 1 => do
    let a ← d
    let as ← times d n
    return a :: as

/-- The reader returns `a` at the offset, and moves the pointer by `n`. -/
def Returns (d : Fueled α) (p : Bytes) (o : Int) (a : α) (n : Int) : Prop := ∃ fuel, (d.run fuel).run p o = .ok (a, n)

theorem returns_ofReader_iff (d : Reader α) (p : Bytes) (o n : Int) (a : α) :
    (ofReader d).Returns p o a n ↔ d.run p o = .ok (a, n) := by
  constructor
  · rintro ⟨_, h⟩
    exact h
  · intro h
    exact ⟨0, h⟩

theorem returns_ofDecoder_iff (d : Decoder α) (p : Bytes) (o n : Int) (a : α) :
    (ofDecoder d).Returns p o a n ↔ ∃ i k : Nat, o = i ∧ n = k ∧ d.run p i = .ok (a, k) :=
  (returns_ofReader_iff ..).trans (Reader.run_ofDecoder_ok_iff ..)

theorem returns_lift_iff (r : Except Fault α) (p : Bytes) (o n : Int) (a : α) :
    (lift r).Returns p o a n ↔ r = .ok a ∧ n = 0 := by
  rw [lift, returns_ofReader_iff]
  cases r with
  | error e => simp
  | ok b => simp [eq_comm]

theorem returns_move_iff (k : Int) (p : Bytes) (o n : Int) (u : Unit) : (move k).Returns p o u n ↔ n = k := by
  rw [move, returns_ofReader_iff]
  simp [eq_comm]

theorem returns_peek_iff (k : Int) (d : Fueled α) (p : Bytes) (o n : Int) (r : α × Int) :
    (peek k d).Returns p o r n ↔ d.Returns p (o + k) r.1 r.2 ∧ n = 0 := by
  constructor
  · rintro ⟨fuel, h⟩
    obtain ⟨s, hd, h⟩ := (bind_eq_ok_iff _ _ _).mp h
    obtain ⟨rfl, rfl⟩ := Prod.mk.inj (Except.ok.inj h)
    exact ⟨⟨fuel, hd⟩, rfl⟩
  · rintro ⟨⟨fuel, hd⟩, rfl⟩
    exact ⟨fuel, (bind_eq_ok_iff _ _ _).mpr ⟨r, hd, rfl⟩⟩

theorem returns_pure_iff (a b : α) (p : Bytes) (o n : Int) : (pure b : Fueled α).Returns p o a n ↔ a = b ∧ n = 0 :=
  (returns_ofReader_iff (Reader.pure b) p o n a).trans (Reader.run_pure_ok_iff a b p o n)

/-- A sequence returns what its parts return, the second one at the offset where the first stopped. -/
theorem returns_bind_iff (d : Fueled α) (f : α → Fueled β) (p : Bytes) (o k : Int) (b : β) :
    (d >>= f).Returns p o b k ↔ ∃ a n m, d.Returns p o a n ∧ (f a).Returns p (o + n) b m ∧ k = n + m := by
  constructor
  · rintro ⟨fuel, hrun⟩
    obtain ⟨a, n, m, hd, hf, hk⟩ := (Reader.run_bind_ok_iff ..).mp hrun
    exact ⟨a, n, m, ⟨fuel, hd⟩, ⟨fuel, hf⟩, hk⟩
  · rintro ⟨a, n, m, ⟨fuel₁, hd⟩, ⟨fuel₂, hf⟩, hk⟩
    refine ⟨max fuel₁ fuel₂, (Reader.run_bind_ok_iff ..).mpr ⟨a, n, m, ?_, ?_, hk⟩⟩
    · exact d.mono (Nat.le_max_left _ _) hd
    · exact (f a).mono (Nat.le_max_right _ _) hf

/-- After a part that is read at a count, the rest is read from the same offset. -/
theorem returns_peek_bind_iff (k : Int) (d : Fueled α) (f : α × Int → Fueled β) (p : Bytes) (o n : Int) (b : β) :
    (peek k d >>= f).Returns p o b n ↔ ∃ a m, d.Returns p (o + k) a m ∧ (f (a, m)).Returns p o b n := by
  rw [returns_bind_iff]
  constructor
  · rintro ⟨⟨a, m⟩, z, m', hpeek, hf, rfl⟩
    obtain ⟨hd, rfl⟩ := (returns_peek_iff ..).mp hpeek
    rw [Int.add_zero] at hf
    exact ⟨a, m, hd, by rwa [Int.zero_add]⟩
  · rintro ⟨a, m, hd, hf⟩
    refine ⟨(a, m), 0, n, (returns_peek_iff ..).mpr ⟨hd, rfl⟩, ?_, (Int.zero_add n).symm⟩
    rwa [Int.add_zero]

/-- After a computation the rest is read from the same offset. -/
theorem returns_lift_bind_iff (r : Except Fault α) (f : α → Fueled β) (p : Bytes) (o n : Int) (b : β) :
    (lift r >>= f).Returns p o b n ↔ ∃ a, r = .ok a ∧ (f a).Returns p o b n := by
  rw [returns_bind_iff]
  constructor
  · rintro ⟨a, z, m, hlift, hf, rfl⟩
    obtain ⟨hr, rfl⟩ := (returns_lift_iff ..).mp hlift
    rw [Int.add_zero] at hf
    exact ⟨a, hr, by rwa [Int.zero_add]⟩
  · rintro ⟨a, hr, hf⟩
    refine ⟨a, 0, n, (returns_lift_iff ..).mpr ⟨hr, rfl⟩, ?_, (Int.zero_add n).symm⟩
    rwa [Int.add_zero]

/-- The pointer moves at the end. -/
theorem returns_move_pure_iff (k : Int) (b : β) (p : Bytes) (o n : Int) (a : β) :
    (move k >>= fun _ => pure b).Returns p o a n ↔ a = b ∧ n = k := by
  rw [returns_bind_iff]
  constructor
  · rintro ⟨u, m, m', hmove, hpure, rfl⟩
    obtain rfl := (returns_move_iff ..).mp hmove
    obtain ⟨rfl, rfl⟩ := (returns_pure_iff ..).mp hpure
    exact ⟨rfl, Int.add_zero m⟩
  · rintro ⟨rfl, rfl⟩
    exact ⟨(), n, 0, (returns_move_iff ..).mpr rfl, (returns_pure_iff ..).mpr ⟨rfl, rfl⟩, (Int.add_zero n).symm⟩

theorem returns_narrowed_iff (d : Fueled α) (p : Bytes) (o n : Int) (a : α) :
    d.narrowed.Returns p o a n ↔ ∃ k, d.Returns p o a k ∧ n = narrow k := by
  constructor
  · rintro ⟨fuel, h⟩
    obtain ⟨k, hd, hn⟩ := (Reader.run_narrowed_ok_iff ..).mp h
    exact ⟨k, ⟨fuel, hd⟩, hn⟩
  · rintro ⟨k, ⟨fuel, hd⟩, hn⟩
    exact ⟨fuel, (Reader.run_narrowed_ok_iff ..).mpr ⟨k, hd, hn⟩⟩

/-- What a reader returns does not depend on the fuel. -/
theorem Returns.unique {d : Fueled α} {p : Bytes} {o n m : Int} {a b : α} (h₁ : d.Returns p o a n) (h₂ : d.Returns p o b m) :
    a = b ∧ n = m := by
  obtain ⟨fuel₁, h₁⟩ := h₁
  obtain ⟨fuel₂, h₂⟩ := h₂
  have h₁' := d.mono (Nat.le_max_left fuel₁ fuel₂) h₁
  have h₂' := d.mono (Nat.le_max_right fuel₁ fuel₂) h₂
  rw [h₁', Except.ok.injEq, Prod.mk.injEq] at h₂'
  exact h₂'

/-! ## Words of a fixed size -/

/-- So many bytes of a buffer lie from an offset on. -/
def Within (p : Bytes) (o : Int) (size : Nat) : Prop := 0 ≤ o ∧ o + size ≤ p.length

/-- `d` returns a word where its bytes lie in the buffer. -/
def ReadsWord (d : Fueled α) (size : Nat) (v : Bytes → Nat → α) : Prop :=
  ∀ p o n a, d.Returns p o a n ↔ Within p o size ∧ a = v p o.toNat ∧ n = size

/-- A decoder of words that are not empty. -/
theorem readsWord_ofDecoder {d : Decoder α} {size : Nat} {v : Bytes → Nat → α} (hd : Decoder.Reads d size v)
    (hstart : ∀ p o r, d.run p o = .ok r → o ≤ p.length) : ReadsWord (ofDecoder d) size v := by
  intro p o n a
  rw [returns_ofDecoder_iff]
  constructor
  · rintro ⟨i, k, rfl, rfl, hrun⟩
    obtain ⟨hfits, rfl, rfl⟩ := (hd p i a k (hstart p i _ hrun)).mp hrun
    exact ⟨⟨Int.natCast_nonneg i, by omega⟩, rfl, rfl⟩
  · rintro ⟨⟨ho, hfits⟩, rfl, rfl⟩
    obtain ⟨i, rfl⟩ := Int.eq_ofNat_of_zero_le ho
    exact ⟨i, size, rfl, rfl, (hd p i _ size (by omega)).mpr ⟨by omega, rfl, rfl⟩⟩

/-- A decoder that reads a byte first returns nothing from behind the buffer. -/
theorem start_of_byte_bind {f : UInt8 → Decoder α} (p : Bytes) (o : Nat) (r : α × Nat)
    (h : (Decoder.byte >>= f).run p o = .ok r) : o ≤ p.length := by
  obtain ⟨b, n, m, hbyte, -, -⟩ := (Decoder.run_bind_ok_iff Decoder.byte f p o r.2 r.1).mp h
  obtain ⟨hget, -⟩ := (Decoder.run_byte_ok_iff ..).mp hbyte
  obtain ⟨hlt, -⟩ := List.getElem?_eq_some_iff.mp hget
  exact Nat.le_of_lt hlt

/-- So does one that goes on with what such a decoder returned. -/
theorem start_of_bind {d : Decoder α} {f : α → Decoder β} (hd : ∀ p o r, d.run p o = .ok r → o ≤ p.length) (p : Bytes) (o : Nat)
    (r : β × Nat) (h : (d >>= f).run p o = .ok r) : o ≤ p.length := by
  obtain ⟨a, n, m, hrun, -, -⟩ := (Decoder.run_bind_ok_iff d f p o r.2 r.1).mp h
  exact hd p o _ hrun

theorem readsWord_netU16 : ReadsWord (ofDecoder Decoder.netU16) 2 Decoder.netU16At :=
  readsWord_ofDecoder Decoder.reads_netU16 (start_of_bind start_of_byte_bind)

theorem readsWord_netLowHalfU32 : ∃ v, ReadsWord (ofDecoder Decoder.netLowHalfU32) 4 v :=
  ⟨_, readsWord_ofDecoder (Decoder.reads_loadU32.map _) (start_of_bind start_of_byte_bind)⟩

/-! ## What lies in a row -/

/-- `k` items in a row from an offset, by `n` bytes in all, where `At o n` says that an item lies at `o` behind which the pointer
moves by `n`. -/
inductive InARow (At : Int → Int → Prop) : Nat → Int → Int → Prop where
  | zero (o : Int) : InARow At 0 o 0
  | succ {k : Nat} {o n m : Int} : At o n → InARow At k (o + n) m → InARow At (k + 1) o (n + m)

/-- A reader repeated returns where its items lie in a row. -/
theorem returns_times_iff {d : Fueled α} {p : Bytes} {At : Int → Int → Prop}
    (hd : ∀ o n, (∃ a, d.Returns p o a n) ↔ At o n) (k : Nat) (o n : Int) :
    (∃ as, (d.times k).Returns p o as n) ↔ InARow At k o n := by
  induction k generalizing o n with
  | zero =>
    constructor
    · rintro ⟨as, h⟩
      obtain ⟨-, rfl⟩ := (returns_pure_iff ..).mp h
      exact .zero o
    · intro h
      cases h
      exact ⟨[], (returns_pure_iff ..).mpr ⟨rfl, rfl⟩⟩
  | succ k ih =>
    constructor
    · rintro ⟨as, h⟩
      obtain ⟨a, n₁, m₁, ha, hrest, rfl⟩ := (returns_bind_iff ..).mp h
      obtain ⟨as', n₂, m₂, has, hpure, rfl⟩ := (returns_bind_iff ..).mp hrest
      obtain ⟨-, rfl⟩ := (returns_pure_iff ..).mp hpure
      rw [Int.add_zero]
      exact .succ ((hd o n₁).mp ⟨a, ha⟩) ((ih (o + n₁) n₂).mp ⟨as', has⟩)
    · intro h
      cases h with
      | @succ _ _ n₁ n₂ hat hrest =>
        obtain ⟨a, ha⟩ := (hd o n₁).mpr hat
        obtain ⟨as, has⟩ := (ih (o + n₁) n₂).mpr hrest
        refine ⟨a :: as, (returns_bind_iff ..).mpr ⟨a, n₁, n₂, ha, ?_, rfl⟩⟩
        exact (returns_bind_iff ..).mpr ⟨as, n₂, 0, has, (returns_pure_iff ..).mpr ⟨rfl, rfl⟩, (Int.add_zero n₂).symm⟩

/-- Bytes in a row are read when there are none or they lie in the buffer. -/
theorem returns_bytes_iff (k : Nat) (p : Bytes) (o n : Int) :
    (∃ as, ((ofDecoder Decoder.byte).times k).Returns p o as n) ↔ (k = 0 ∨ Within p o k) ∧ n = k := by
  have hbyte : ∀ o n, (∃ b, (ofDecoder Decoder.byte).Returns p o b n) ↔ Within p o 1 ∧ n = 1 := by
    intro o n
    have hreads := readsWord_ofDecoder Decoder.reads_byte fun p o r h => by
      obtain ⟨hlt, -⟩ := List.getElem?_eq_some_iff.mp ((Decoder.run_byte_ok_iff p o r.2 r.1).mp h).1
      exact Nat.le_of_lt hlt
    simp only [hreads p o n, exists_and_left, exists_eq_left]
    exact Iff.rfl
  rw [returns_times_iff hbyte]
  induction k generalizing o n with
  | zero =>
    constructor
    · intro h
      cases h
      exact ⟨.inl rfl, rfl⟩
    · rintro ⟨-, rfl⟩
      exact .zero o
  | succ k ih =>
    constructor
    · intro h
      cases h with
      | succ hat hrest =>
        obtain ⟨⟨hlo, hhi⟩, rfl⟩ := hat
        obtain ⟨hcase, rfl⟩ := (ih ..).mp hrest
        refine ⟨.inr ⟨hlo, ?_⟩, by omega⟩
        rcases hcase with rfl | ⟨-, hfits⟩
        · exact hhi
        · omega
    · rintro ⟨hcase, rfl⟩
      obtain ⟨hlo, hfits⟩ : Within p o (k + 1) := hcase.resolve_left (Nat.succ_ne_zero k)
      have hrest : InARow (fun o n => Within p o 1 ∧ n = 1) k (o + 1) k := by
        refine (ih ..).mpr ⟨?_, rfl⟩
        rcases Nat.eq_zero_or_pos k with hzero | hpos
        · exact .inl hzero
        · exact .inr ⟨by omega, by omega⟩
      have hcount : ((k + 1 : Nat) : Int) = 1 + k := by omega
      rw [hcount]
      exact .succ ⟨⟨hlo, by omega⟩, rfl⟩ hrest

/-- As many items are returned as were asked for. -/
theorem length_of_returns_times {d : Fueled α} {k : Nat} {p : Bytes} {o n : Int} {as : List α}
    (h : (d.times k).Returns p o as n) : as.length = k := by
  induction k generalizing o n as with
  | zero =>
    obtain ⟨rfl, -⟩ := (returns_pure_iff ..).mp h
    rfl
  | succ k ih =>
    obtain ⟨a, _, _, -, hrest, -⟩ := (returns_bind_iff ..).mp h
    obtain ⟨as', _, _, has, hpure, -⟩ := (returns_bind_iff ..).mp hrest
    obtain ⟨rfl, -⟩ := (returns_pure_iff ..).mp hpure
    rw [List.length_cons, ih has]

/-! ## Round trips -/

/-- `d` takes the word `w` for `a`, wherever it lies and whatever follows. -/
def RoundTrips (d : Fueled α) (w : Bytes) (a : α) : Prop :=
  ∀ pre post, d.Returns (pre ++ w ++ post) pre.length a w.length

/-- In a buffer that has the word in it, at the offset where it lies. -/
theorem RoundTrips.returns_at {d : Fueled α} {w : Bytes} {a : α} (h : RoundTrips d w a) {p : Bytes} {o : Int} (pre post : Bytes)
    (hp : p = pre ++ w ++ post) (ho : o = pre.length) : d.Returns p o a w.length := by
  rw [hp, ho]
  exact h pre post

/-- At the start of a buffer. -/
theorem RoundTrips.returns_append {d : Fueled α} {w : Bytes} {a : α} (h : RoundTrips d w a) (post : Bytes) :
    d.Returns (w ++ post) 0 a w.length :=
  h [] post

theorem roundTrips_ofDecoder {d : Decoder α} {w : Bytes} {a : α} (h : d.RoundTrips w a) : (ofDecoder d).RoundTrips w a :=
  fun pre post => (returns_ofDecoder_iff ..).mpr ⟨pre.length, w.length, rfl, rfl, h pre post⟩

theorem roundTrips_pure (a : α) : RoundTrips (pure a) [] a :=
  fun _ _ => (returns_pure_iff ..).mpr ⟨rfl, rfl⟩

/-- Words that round trip, one after another, round trip in sequence. -/
theorem RoundTrips.bind {d : Fueled α} {f : α → Fueled β} {w₁ w₂ : Bytes} {a : α} {b : β} (h₁ : RoundTrips d w₁ a)
    (h₂ : RoundTrips (f a) w₂ b) : RoundTrips (d >>= f) (w₁ ++ w₂) b := by
  intro pre post
  refine (returns_bind_iff ..).mpr ⟨a, w₁.length, w₂.length, ?_, ?_, by rw [List.length_append, Int.natCast_add]⟩
  · exact h₁.returns_at pre (w₂ ++ post) (by simp) rfl
  · exact h₂.returns_at (pre ++ w₁) post (by simp) (by simp)

/-- A word that round trips, and a function of the value at the end. -/
theorem RoundTrips.map {d : Fueled α} {w : Bytes} {a : α} (h : RoundTrips d w a) (g : α → β) :
    RoundTrips (d >>= fun x => pure (g x)) w (g a) := by
  have hb := RoundTrips.bind h (f := fun x => pure (g x)) (roundTrips_pure (g a))
  rwa [List.append_nil] at hb

/-- A word that lies at a count behind the pointer, and what is read after it from the same offset. -/
theorem RoundTrips.peek_bind {d : Fueled α} {w : Bytes} {a : α} (h : RoundTrips d w a) {f : α × Int → Fueled β} {p : Bytes}
    {o k n : Int} {b : β} (pre done post : Bytes) (hp : p = pre ++ done ++ w ++ post) (ho : o = pre.length) (hk : k = done.length)
    (hf : (f (a, w.length)).Returns p o b n) : (peek k d >>= f).Returns p o b n := by
  refine (returns_peek_bind_iff ..).mpr ⟨a, w.length, h.returns_at (pre ++ done) post hp ?_, hf⟩
  rw [ho, hk, List.length_append, Int.natCast_add]

/-- A list of values, each coming back as another through its own word, comes back through the words in a row. -/
theorem RoundTrips.times {d : Fueled α} {γ : Type} {enc : γ → Bytes} {g : γ → α} {cs : List γ}
    (h : ∀ c ∈ cs, RoundTrips d (enc c) (g c)) : RoundTrips (d.times cs.length) (cs.flatMap enc) (cs.map g) := by
  induction cs with
  | nil => exact roundTrips_pure []
  | cons c cs ih =>
    have hrest : RoundTrips (d.times cs.length) (cs.flatMap enc) (cs.map g) := ih fun x hx => h x (List.mem_cons_of_mem c hx)
    rw [List.flatMap_cons]
    exact RoundTrips.bind (h c List.mem_cons_self) (hrest.map (g c :: ·))

end Fueled
end Wire
