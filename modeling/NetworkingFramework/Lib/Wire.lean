import Mathlib.Data.List.Forall2
import Mathlib.Data.Vector.Defs
import Mathlib.Tactic.Common

/-!
# Bytes, words and decoders

The part of a C++ program's world that a wire codec lives in: buffers of bytes, words stored in the host's order (little
endian) and swapped to the network's, and decoders that read a buffer from an offset and return the number of bytes they
consumed. A computation that ends without a result ends in a `Fault`.

A decoder is specified in one of two ways. `Parses d L` says what it accepts: exactly the words of the format `L`, wherever
they lie and whatever follows. `RoundTrips d w a` says it takes the word `w` for `a` wherever it lies; this is all that can be
said of a decoder that follows pointers into the buffer around the word.
-/

namespace Wire

/-- The bytes of a buffer. -/
abbrev Bytes := List UInt8

/-- What ends a computation without a result. -/
inductive Fault where
  /-- A byte outside the buffer was read or written. -/
  | outOfBounds
  /-- An exception that nothing catches: the process ends. -/
  | abort
  /-- A shift by at least the width of its left operand. -/
  | wideShift
  /-- A null pointer was followed. -/
  | nullPointer
  /-- An object was read that nothing was written to. -/
  | uninitialized
  /-- An iterator to an erased element was advanced. -/
  | staleIterator
  /-- A number that its type does not hold. -/
  | unrepresentable
  /-- A loop has not returned within the iterations it was given. -/
  | diverges
  deriving DecidableEq, Repr

/-! ## Computations that may fault -/

@[simp] theorem ok_bind {α β : Type} (a : α) (f : α → Except Fault β) : (Except.ok a >>= f) = f a := rfl

@[simp] theorem error_bind {α β : Type} (e : Fault) (f : α → Except Fault β) : (Except.error e >>= f) = .error e := rfl

@[simp] theorem pure_eq_ok {α : Type} (a : α) : (pure a : Except Fault α) = .ok a := rfl

@[simp] theorem throw_eq_error {α : Type} (e : Fault) : (throw e : Except Fault α) = .error e := rfl

@[simp] theorem map_ok {α β : Type} (f : α → β) (a : α) : (Except.ok a : Except Fault α).map f = .ok (f a) := rfl

@[simp] theorem map_error {α β : Type} (f : α → β) (e : Fault) : (Except.error e : Except Fault α).map f = .error e := rfl

/-- A function of the result, as the last step of a sequence. -/
theorem bind_ok_eq_map {α β : Type} (x : Except Fault α) (f : α → β) : (x >>= fun a => .ok (f a)) = x.map f := by
  cases x <;> rfl

theorem map_eq_ok_iff {α β : Type} (x : Except Fault α) (f : α → β) (b : β) :
    x.map f = .ok b ↔ ∃ a, x = .ok a ∧ f a = b := by
  cases x with
  | error e => simp
  | ok a => simp

/-- What two computations in sequence return. -/
theorem bind_eq_ok_iff {α β : Type} (x : Except Fault α) (f : α → Except Fault β) (b : β) :
    (x >>= f) = .ok b ↔ ∃ a, x = .ok a ∧ f a = .ok b := by
  cases x with
  | error e => simp
  | ok a => simp

/-- Computing over a list returns when every element's computation does. -/
theorem mapM_eq_ok {α β : Type} {f : α → Except Fault β} {g : α → β} {as : List α} (h : ∀ a ∈ as, f a = .ok (g a)) :
    as.mapM f = .ok (as.map g) := by
  induction as with
  | nil => rfl
  | cons a as ih =>
    rw [List.mapM_cons, h a List.mem_cons_self, ih fun x hx => h x (List.mem_cons_of_mem a hx)]
    rfl

/-- A list of computations is done when each of them is. -/
theorem mapM_ok_iff {α β : Type} {f : α → Except Fault β} {P : α → Prop} {g : α → β}
    (h : ∀ a b, f a = .ok b ↔ P a ∧ b = g a) (as : List α) (bs : List β) :
    as.mapM f = .ok bs ↔ (∀ a ∈ as, P a) ∧ bs = as.map g := by
  induction as generalizing bs with
  | nil =>
    rw [List.mapM_nil, pure_eq_ok, Except.ok.injEq]
    simp [eq_comm]
  | cons a as ih =>
    rw [List.mapM_cons, bind_eq_ok_iff]
    constructor
    · rintro ⟨b, hb, hrest⟩
      obtain ⟨bs', hbs, hok⟩ := (bind_eq_ok_iff _ _ _).mp hrest
      obtain rfl := Except.ok.inj hok
      obtain ⟨hP, rfl⟩ := (h a b).mp hb
      obtain ⟨hall, rfl⟩ := (ih bs').mp hbs
      exact ⟨List.forall_mem_cons.mpr ⟨hP, hall⟩, rfl⟩
    · rintro ⟨hall, rfl⟩
      obtain ⟨hP, hrest⟩ := List.forall_mem_cons.mp hall
      exact ⟨g a, (h a _).mpr ⟨hP, rfl⟩, (bind_eq_ok_iff _ _ _).mpr ⟨as.map g, (ih _).mpr ⟨hrest, rfl⟩, rfl⟩⟩

/-- When computing over a list returns, every element's computation does. -/
theorem exists_ok_of_mapM {α β : Type} {f : α → Except Fault β} {as : List α} {bs : List β} (h : as.mapM f = .ok bs) :
    ∀ a ∈ as, ∃ b, f a = .ok b := by
  induction as generalizing bs with
  | nil => intro a ha; exact absurd ha List.not_mem_nil
  | cons c as ih =>
    rw [List.mapM_cons, bind_eq_ok_iff] at h
    obtain ⟨b, hb, h⟩ := h
    rw [bind_eq_ok_iff] at h
    obtain ⟨bs', hbs, -⟩ := h
    intro a ha
    rcases List.mem_cons.mp ha with rfl | ha
    · exact ⟨b, hb⟩
    · exact ih hbs a ha

/-- The vector of the bytes from an offset to the end of a buffer. A start past the end asks for a negative length, which
the vector's constructor refuses. -/
def suffixFrom (data : Bytes) (n : Nat) : Except Fault Bytes :=
  if n ≤ data.length then .ok (data.drop n) else .error .abort

/-- What follows the first bytes of a buffer. -/
@[simp] theorem suffixFrom_append (w post : Bytes) : suffixFrom (w ++ post) w.length = .ok post := by
  have hle : w.length ≤ (w ++ post).length := by simp
  rw [suffixFrom, if_pos hle, List.drop_left]

/-- A shift to the left of a 32-bit `int`, for results that fit. -/
def shiftLeft (x n : Nat) : Except Fault Nat := if n < 32 then .ok (x <<< n) else .error .wideShift

/-! ## Words in memory -/

/-- A 16-bit word as the host stores it, least significant byte first. -/
def storeU16 (x : UInt16) : Bytes := [UInt8.ofNat x.toNat, UInt8.ofNat (x.toNat / 256)]

/-- A 32-bit word as the host stores it, least significant byte first. -/
def storeU32 (x : UInt32) : Bytes :=
  [UInt8.ofNat x.toNat, UInt8.ofNat (x.toNat / 256), UInt8.ofNat (x.toNat / 65536), UInt8.ofNat (x.toNat / 16777216)]

/-- Host to network order of a 16-bit word: its two bytes swapped. -/
def htons (x : UInt16) : UInt16 := UInt16.ofNat (x.toNat % 256 * 256 + x.toNat / 256)

/-- Network to host order of a 16-bit word: the same swap. -/
def ntohs (x : UInt16) : UInt16 := htons x

/-- Host to network order of a 32-bit word: its four bytes reversed. -/
def htonl (x : UInt32) : UInt32 :=
  UInt32.ofNat (x.toNat % 256 * 16777216 + x.toNat / 256 % 256 * 65536 + x.toNat / 65536 % 256 * 256 +
    x.toNat / 16777216)

/-- Network to host order of a 32-bit word: the same reversal. -/
def ntohl (x : UInt32) : UInt32 := htonl x

theorem toNat_htons (x : UInt16) : (htons x).toNat = x.toNat % 256 * 256 + x.toNat / 256 := by
  have hx : x.toNat < 65536 := x.toNat_lt
  have hs : x.toNat % 256 * 256 + x.toNat / 256 < 65536 := by omega
  rw [htons, UInt16.toNat_ofNat']
  exact Nat.mod_eq_of_lt hs

/-- Swapping the bytes twice gives the word back. -/
@[simp] theorem ntohs_htons (x : UInt16) : ntohs (htons x) = x := by
  have hx : x.toNat < 65536 := x.toNat_lt
  have hlo : (x.toNat % 256 * 256 + x.toNat / 256) % 256 = x.toNat / 256 := by omega
  have hhi : (x.toNat % 256 * 256 + x.toNat / 256) / 256 = x.toNat % 256 := by omega
  apply UInt16.toNat_inj.mp
  rw [ntohs, toNat_htons, toNat_htons, hlo, hhi]
  omega

/-- Swapping the bytes twice gives the word back, whichever swap comes first. -/
@[simp] theorem htons_ntohs (x : UInt16) : htons (ntohs x) = x := ntohs_htons x

/-- The bytes of a 32-bit word reversed. -/
theorem toNat_htonl {x : UInt32} {a b c d : Nat} (ha : a < 256) (hb : b < 256) (hc : c < 256) (hd : d < 256)
    (hx : x.toNat = a + b * 256 + c * 65536 + d * 16777216) :
    (htonl x).toNat = d + c * 256 + b * 65536 + a * 16777216 := by
  have h₀ : x.toNat % 256 = a := by omega
  have h₁ : x.toNat / 256 % 256 = b := by omega
  have h₂ : x.toNat / 65536 % 256 = c := by omega
  have h₃ : x.toNat / 16777216 = d := by omega
  rw [htonl, h₀, h₁, h₂, h₃, UInt32.toNat_ofNat']
  omega

/-- Reversing the bytes twice gives the word back. -/
@[simp] theorem ntohl_htonl (x : UInt32) : ntohl (htonl x) = x := by
  have hx : x.toNat < 4294967296 := x.toNat_lt
  have hbytes : x.toNat = x.toNat % 256 + x.toNat / 256 % 256 * 256 + x.toNat / 65536 % 256 * 65536 +
      x.toNat / 16777216 * 16777216 := by omega
  have hbyte (n : Nat) : n % 256 < 256 := Nat.mod_lt n (by decide)
  have htop : x.toNat / 16777216 < 256 := by omega
  apply UInt32.toNat_inj.mp
  rw [ntohl, toNat_htonl htop (hbyte _) (hbyte _) (hbyte _) (toNat_htonl (hbyte _) (hbyte _) (hbyte _) htop hbytes)]
  exact hbytes.symm

/-- The word that two bytes were loaded as is stored back as the same bytes. -/
theorem storeU16_ofNat (lo hi : UInt8) : storeU16 (UInt16.ofNat (lo.toNat + hi.toNat * 256)) = [lo, hi] := by
  have hlo : lo.toNat < 256 := lo.toNat_lt
  have hhi : hi.toNat < 256 := hi.toNat_lt
  have hval : (UInt16.ofNat (lo.toNat + hi.toNat * 256)).toNat = lo.toNat + hi.toNat * 256 := by
    rw [UInt16.toNat_ofNat']
    omega
  have hfirst : UInt8.ofNat (lo.toNat + hi.toNat * 256) = lo := by
    apply UInt8.toNat_inj.mp
    rw [UInt8.toNat_ofNat']
    omega
  have hsecond : UInt8.ofNat ((lo.toNat + hi.toNat * 256) / 256) = hi := by
    apply UInt8.toNat_inj.mp
    rw [UInt8.toNat_ofNat']
    omega
  rw [storeU16, hval, hfirst, hsecond]

/-- The word in the network's order, most significant byte first, that two bytes are loaded as. -/
theorem toNat_ntohs_ofNat (hi lo : UInt8) :
    (ntohs (UInt16.ofNat (hi.toNat + lo.toNat * 256))).toNat = hi.toNat * 256 + lo.toNat := by
  have hhi : hi.toNat < 256 := hi.toNat_lt
  have hlo : lo.toNat < 256 := lo.toNat_lt
  rw [ntohs, toNat_htons, UInt16.toNat_ofNat']
  omega

/-- The two bytes that a word in the network's order is stored as. -/
theorem storeU16_htons_ofNat {hi lo : Nat} (hhi : hi < 256) (hlo : lo < 256) :
    storeU16 (htons (UInt16.ofNat (hi * 256 + lo))) = [UInt8.ofNat hi, UInt8.ofNat lo] := by
  have hword : (UInt16.ofNat (hi * 256 + lo)).toNat = hi * 256 + lo := by
    rw [UInt16.toNat_ofNat']
    omega
  have hswap : (hi * 256 + lo) % 256 * 256 + (hi * 256 + lo) / 256 = lo * 256 + hi := by omega
  have hfirst : (lo * 256 + hi) % 256 = hi := by omega
  have hsecond : (lo * 256 + hi) / 256 = lo := by omega
  have hmod (n : Nat) : UInt8.ofNat n = UInt8.ofNat (n % 256) := by
    apply UInt8.toNat_inj.mp
    rw [UInt8.toNat_ofNat', UInt8.toNat_ofNat', Nat.mod_mod]
  rw [storeU16, toNat_htons, hword, hswap, hmod (lo * 256 + hi), hfirst, hsecond]

/-! ## Decoders -/

/-- A decoder reads a buffer from an offset: a value and the number of bytes consumed, or a fault. -/
structure Decoder (α : Type) where
  run : Bytes → Nat → Except Fault (α × Nat)

namespace Decoder

variable {α β : Type}

/-- The decoder that consumes nothing. -/
protected def pure (a : α) : Decoder α := ⟨fun _ _ => .ok (a, 0)⟩

/-- One decoder after another, at the offset where the first stopped. -/
protected def bind (d : Decoder α) (f : α → Decoder β) : Decoder β :=
  ⟨fun p o => do
    let (a, n) ← d.run p o
    let (b, m) ← (f a).run p (o + n)
    return (b, n + m)⟩

instance : Monad Decoder where
  pure := Decoder.pure
  bind := Decoder.bind

/-- A computation on what was read so far; it consumes nothing. -/
def lift (r : Except Fault α) : Decoder α := ⟨fun _ _ => do return (← r, 0)⟩

/-- Read one byte. -/
def byte : Decoder UInt8 :=
  ⟨fun p o =>
    match p[o]? with
    | some b => .ok (b, 1)
    | none => .error .outOfBounds⟩

/-- Load a 16-bit word in the host's order. -/
def loadU16 : Decoder UInt16 := do
  let b₀ ← byte
  let b₁ ← byte
  return UInt16.ofNat (b₀.toNat + b₁.toNat * 256)

/-- Load a 32-bit word in the host's order. -/
def loadU32 : Decoder UInt32 := do
  let b₀ ← byte
  let b₁ ← byte
  let b₂ ← byte
  let b₃ ← byte
  return UInt32.ofNat (b₀.toNat + b₁.toNat * 256 + b₂.toNat * 65536 + b₃.toNat * 16777216)

/-- Load a 16-bit word in the network's order. -/
def netU16 : Decoder UInt16 := do
  let x ← loadU16
  return ntohs x

/-- Load a 32-bit word in the host's order and swap its low half, as `ntohs` of a longer word does. -/
def netLowHalfU32 : Decoder UInt32 := do
  let x ← loadU32
  return UInt32.ofNat (ntohs (UInt16.ofNat x.toNat)).toNat

/-- Copy `n` bytes. -/
def octets (n : Nat) : Decoder (List.Vector UInt8 n) :=
  ⟨fun p o =>
    if h : o + n ≤ p.length then .ok (⟨(p.drop o).take n, by rw [List.length_take, List.length_drop]; omega⟩, n)
    else .error .outOfBounds⟩

/-- The same decoder `n` times in a row. -/
def times (d : Decoder α) : Nat → Decoder (List α)
  | 0 => pure []
  | n + 1 => do
    let a ← d
    let as ← times d n
    return a :: as

/-- The same decoder, with the count it returns for a part of the value. -/
def counted (d : Decoder α) : Decoder (α × Nat) := ⟨fun p o => (d.run p o).map fun (a, n) => ((a, n), n)⟩

theorem run_pure (a : α) (p : Bytes) (o : Nat) : (pure a : Decoder α).run p o = .ok (a, 0) := rfl

theorem run_bind (d : Decoder α) (f : α → Decoder β) (p : Bytes) (o : Nat) :
    (d >>= f).run p o = (do
      let (a, n) ← d.run p o
      let (b, m) ← (f a).run p (o + n)
      return (b, n + m)) := rfl

/-- What a sequence of two decoders returns. -/
theorem run_bind_ok_iff (d : Decoder α) (f : α → Decoder β) (p : Bytes) (o k : Nat) (b : β) :
    (d >>= f).run p o = .ok (b, k) ↔
      ∃ a n m, d.run p o = .ok (a, n) ∧ (f a).run p (o + n) = .ok (b, m) ∧ k = n + m := by
  rw [run_bind, bind_eq_ok_iff]
  constructor
  · intro h
    rcases h with ⟨⟨a, n⟩, hd, h⟩
    obtain ⟨⟨b', m⟩, hf, hb⟩ := (bind_eq_ok_iff _ _ _).mp h
    obtain ⟨rfl, rfl⟩ : b' = b ∧ n + m = k := by simpa using Except.ok.inj hb
    exact ⟨a, n, m, hd, hf, rfl⟩
  · intro h
    rcases h with ⟨a, n, m, hd, hf, rfl⟩
    exact ⟨(a, n), hd, (bind_eq_ok_iff _ _ _).mpr ⟨(b, m), hf, rfl⟩⟩

/-- Reading a byte returns the byte at the offset. -/
theorem run_byte_ok_iff (p : Bytes) (o n : Nat) (b : UInt8) : byte.run p o = .ok (b, n) ↔ p[o]? = some b ∧ n = 1 := by
  simp only [byte]
  cases p[o]? with
  | none => simp
  | some b' => simp [eq_comm]

theorem run_lift_ok_iff (r : Except Fault α) (p : Bytes) (o n : Nat) (a : α) :
    (lift r).run p o = .ok (a, n) ↔ r = .ok a ∧ n = 0 := by
  cases r with
  | error e => simp [lift]
  | ok a' => simp [lift, eq_comm]

/-! ## Formats: what a decoder accepts -/

/-- `d` accepts exactly the words of the format `L`, wherever they lie and whatever follows them. -/
def Parses (d : Decoder α) (L : Bytes → α → Prop) : Prop :=
  ∀ pre rest a n, d.run (pre ++ rest) pre.length = .ok (a, n) ↔ ∃ w post, rest = w ++ post ∧ L w a ∧ n = w.length

/-- The format of the empty word, for a value already known. -/
def Fmt.done (a : α) (w : Bytes) (b : α) : Prop := w = [] ∧ b = a

/-- A word of one format followed by a word of the next. -/
def Fmt.seq (L : Bytes → α → Prop) (M : α → Bytes → β → Prop) (w : Bytes) (b : β) : Prop :=
  ∃ w₁ w₂ a, w = w₁ ++ w₂ ∧ L w₁ a ∧ M a w₂ b

/-- `n` words of one format in a row. -/
inductive Fmt.times (L : Bytes → α → Prop) : Nat → Bytes → List α → Prop where
  | zero : Fmt.times L 0 [] []
  | succ {n : Nat} {w₁ w₂ : Bytes} {a : α} {as : List α} :
      L w₁ a → Fmt.times L n w₂ as → Fmt.times L (n + 1) (w₁ ++ w₂) (a :: as)

/-- A format may be described in another way. -/
theorem Parses.congr {d : Decoder α} {L M : Bytes → α → Prop} (hd : Parses d L) (h : ∀ w a, L w a ↔ M w a) :
    Parses d M := by
  intro pre rest a n
  simp only [hd pre rest a n, h]

theorem parses_pure (a : α) : Parses (pure a) (Fmt.done a) := by
  intro pre rest b n
  simp only [run_pure, Except.ok.injEq, Prod.mk.injEq, Fmt.done]
  constructor
  · intro h
    rcases h with ⟨rfl, rfl⟩
    exact ⟨[], rest, rfl, ⟨rfl, rfl⟩, rfl⟩
  · intro h
    rcases h with ⟨w, post, -, ⟨rfl, rfl⟩, rfl⟩
    exact ⟨rfl, rfl⟩

theorem parses_byte : Parses byte (fun w b => w = [b]) := by
  intro pre rest b n
  rw [run_byte_ok_iff, List.getElem?_append_right (Nat.le_refl _), Nat.sub_self]
  constructor
  · intro h
    rcases h with ⟨hb, rfl⟩
    cases rest with
    | nil => simp at hb
    | cons c post =>
      obtain rfl : c = b := by simpa using hb
      exact ⟨[c], post, rfl, rfl, rfl⟩
  · intro h
    rcases h with ⟨w, post, rfl, rfl, rfl⟩
    exact ⟨rfl, rfl⟩

/-- Decoders in sequence accept the words of their formats in sequence. -/
theorem Parses.bind {d : Decoder α} {f : α → Decoder β} {L : Bytes → α → Prop} {M : α → Bytes → β → Prop}
    (hd : Parses d L) (hf : ∀ a, Parses (f a) (M a)) : Parses (d >>= f) (Fmt.seq L M) := by
  intro pre rest b k
  rw [run_bind_ok_iff]
  constructor
  · intro h
    rcases h with ⟨a, n, m, h₁, h₂, rfl⟩
    obtain ⟨w₁, post, rfl, hw₁, rfl⟩ := (hd pre rest a n).mp h₁
    rw [← List.append_assoc, ← List.length_append] at h₂
    obtain ⟨w₂, post', rfl, hw₂, rfl⟩ := (hf a _ _ b m).mp h₂
    exact ⟨w₁ ++ w₂, post', by simp, ⟨w₁, w₂, a, rfl, hw₁, hw₂⟩, by simp⟩
  · intro h
    rcases h with ⟨w, post, rfl, ⟨w₁, w₂, a, rfl, hw₁, hw₂⟩, rfl⟩
    refine ⟨a, w₁.length, w₂.length, (hd pre _ a _).mpr ⟨w₁, w₂ ++ post, by simp, hw₁, rfl⟩, ?_, by simp⟩
    have h := (hf a (pre ++ w₁) (w₂ ++ post) b w₂.length).mpr ⟨w₂, post, rfl, hw₂, rfl⟩
    simpa [List.append_assoc] using h

/-- A function of the value at the end leaves the words as they are. -/
theorem Parses.map {d : Decoder α} {L : Bytes → α → Prop} (hd : Parses d L) (g : α → β) :
    Parses (d >>= fun a => pure (g a)) (fun w b => ∃ a, L w a ∧ b = g a) := by
  refine Parses.congr (hd.bind fun a => parses_pure (g a)) fun w b => ?_
  constructor
  · intro h
    rcases h with ⟨w₁, w₂, a, rfl, ha, rfl, rfl⟩
    exact ⟨a, by rwa [List.append_nil], rfl⟩
  · intro h
    rcases h with ⟨a, ha, rfl⟩
    exact ⟨w, [], a, (List.append_nil w).symm, ha, rfl, rfl⟩

/-! ## Words of a fixed size -/

/-- Within a buffer, `d` consumes `size` bytes, whatever they are, and fails only when they are not there; `v` is what it makes
of them. -/
def Reads (d : Decoder α) (size : Nat) (v : Bytes → Nat → α) : Prop :=
  ∀ p o a n, o ≤ p.length → (d.run p o = .ok (a, n) ↔ o + size ≤ p.length ∧ a = v p o ∧ n = size)

/-- The byte at an offset of a buffer. -/
def byteAt (p : Bytes) (o : Nat) : UInt8 := p.getD o 0

/-- The value of a word of `size` bytes, `n` of them in a row from an offset. -/
def timesAt (v : Bytes → Nat → α) (size : Nat) : Nat → Bytes → Nat → List α
  | 0, _, _ => []
  | n + 1, p, o => v p o :: timesAt v size n p (o + size)

theorem reads_pure (a : α) : Reads (pure a) 0 fun _ _ => a := by
  intro p o b n ho
  rw [run_pure, Except.ok.injEq, Prod.mk.injEq]
  refine ⟨fun ⟨hb, hn⟩ => ⟨ho, hb.symm, hn.symm⟩, fun ⟨_, hb, hn⟩ => ⟨hb.symm, hn.symm⟩⟩

theorem reads_byte : Reads byte 1 byteAt := by
  intro p o b n _
  rw [run_byte_ok_iff, byteAt, List.getD_eq_getElem?_getD]
  by_cases ho : o < p.length
  · simp only [List.getElem?_eq_getElem ho, Option.getD_some, Option.some.injEq, Nat.succ_le_of_lt ho, true_and]
    exact and_congr_left' eq_comm
  · have hge : ¬o + 1 ≤ p.length := ho
    simp only [List.getElem?_eq_none (Nat.le_of_not_lt ho), hge, false_and, reduceCtorEq]

/-- What a sequence returns that starts with a word of a fixed size. -/
theorem Reads.bind_ok_iff {d : Decoder α} {size : Nat} {v : Bytes → Nat → α} (hd : Reads d size v) (f : α → Decoder β)
    {p : Bytes} {o k : Nat} {b : β} (ho : o ≤ p.length) :
    (d >>= f).run p o = .ok (b, k) ↔
      o + size ≤ p.length ∧ ∃ m, (f (v p o)).run p (o + size) = .ok (b, m) ∧ k = size + m := by
  rw [run_bind_ok_iff]
  refine ⟨fun h => ?_, fun h => ?_⟩
  · obtain ⟨a, n, m, h₁, h₂, rfl⟩ := h
    obtain ⟨hfits, rfl, rfl⟩ := (hd p o a n ho).mp h₁
    exact ⟨hfits, m, h₂, rfl⟩
  · obtain ⟨hfits, m, h₂, rfl⟩ := h
    exact ⟨v p o, size, m, (hd p o _ _ ho).mpr ⟨hfits, rfl, rfl⟩, h₂, rfl⟩

/-- As `Reads`, with a size that the buffer decides. -/
def ReadsSized (d : Decoder α) (size : Bytes → Nat → Nat) (v : Bytes → Nat → α) : Prop :=
  ∀ p o a n, o ≤ p.length → (d.run p o = .ok (a, n) ↔ o + size p o ≤ p.length ∧ a = v p o ∧ n = size p o)

/-- A word of a fixed size, and behind it one whose size may depend on what was read. -/
theorem Reads.bind_sized {d : Decoder α} {f : α → Decoder β} {size : Nat} {size' : α → Bytes → Nat → Nat} {v : Bytes → Nat → α}
    {w : α → Bytes → Nat → β} (hd : Reads d size v) (hf : ∀ a, ReadsSized (f a) (size' a) (w a)) :
    ReadsSized (d >>= f) (fun p o => size + size' (v p o) p (o + size)) fun p o => w (v p o) p (o + size) := by
  intro p o b k ho
  rw [hd.bind_ok_iff f ho]
  refine ⟨fun h => ?_, fun h => ?_⟩
  · obtain ⟨hfirst, m, h₂, rfl⟩ := h
    obtain ⟨hfits, rfl, rfl⟩ := (hf _ p _ b m hfirst).mp h₂
    exact ⟨Nat.add_assoc o size _ ▸ hfits, rfl, rfl⟩
  · obtain ⟨hfits, rfl, rfl⟩ := h
    rw [← Nat.add_assoc] at hfits
    have hfirst : o + size ≤ p.length := Nat.le_of_add_right_le hfits
    exact ⟨hfirst, _, (hf _ p _ _ _ hfirst).mpr ⟨hfits, rfl, rfl⟩, rfl⟩

/-- At the start of a buffer, a decoder returns when the buffer has as many bytes. -/
theorem ReadsSized.run_ok_iff {d : Decoder α} {size : Bytes → Nat → Nat} {v : Bytes → Nat → α} (hd : ReadsSized d size v)
    (p : Bytes) : (∃ r, d.run p 0 = .ok r) ↔ size p 0 ≤ p.length := by
  constructor
  · intro h
    obtain ⟨⟨a, n⟩, h⟩ := h
    have hfits := ((hd p 0 a n (Nat.zero_le _)).mp h).1
    rwa [Nat.zero_add] at hfits
  · intro h
    rw [← Nat.zero_add (size p 0)] at h
    exact ⟨_, (hd p 0 _ _ (Nat.zero_le _)).mpr ⟨h, rfl, rfl⟩⟩

/-- Words of fixed sizes, one after another. -/
theorem Reads.bind {d : Decoder α} {f : α → Decoder β} {size size' : Nat} {v : Bytes → Nat → α} {w : α → Bytes → Nat → β}
    (hd : Reads d size v) (hf : ∀ a, Reads (f a) size' (w a)) :
    Reads (d >>= f) (size + size') fun p o => w (v p o) p (o + size) :=
  hd.bind_sized hf

/-- A function of the value at the end reads no further. -/
theorem Reads.map {d : Decoder α} {size : Nat} {v : Bytes → Nat → α} (hd : Reads d size v) (g : α → β) :
    Reads (d >>= fun a => pure (g a)) size fun p o => g (v p o) :=
  hd.bind fun a => reads_pure (g a)

/-! ## Round trips -/

/-- `d` takes the word `w` for `a`, wherever it lies and whatever follows. -/
def RoundTrips (d : Decoder α) (w : Bytes) (a : α) : Prop :=
  ∀ pre post, d.run (pre ++ w ++ post) pre.length = .ok (a, w.length)

/-- A word of the format a decoder accepts round trips. -/
theorem Parses.roundTrips {d : Decoder α} {L : Bytes → α → Prop} (hd : Parses d L) {w : Bytes} {a : α} (hw : L w a) :
    RoundTrips d w a := by
  intro pre post
  rw [List.append_assoc]
  exact (hd pre (w ++ post) a w.length).mpr ⟨w, post, rfl, hw, rfl⟩

/-- At the start of a buffer. -/
theorem RoundTrips.run_append {d : Decoder α} {w : Bytes} {a : α} (h : RoundTrips d w a) (post : Bytes) :
    d.run (w ++ post) 0 = .ok (a, w.length) :=
  h [] post

/-- On a buffer of the word alone. -/
theorem RoundTrips.run_word {d : Decoder α} {w : Bytes} {a : α} (h : RoundTrips d w a) : d.run w 0 = .ok (a, w.length) := by
  have hw := h.run_append []
  rwa [List.append_nil] at hw

theorem roundTrips_pure (a : α) : RoundTrips (pure a) [] a := fun _ _ => rfl

theorem roundTrips_byte (b : UInt8) : RoundTrips byte [b] b := parses_byte.roundTrips rfl

/-- Words that round trip, one after another, round trip in sequence. -/
theorem RoundTrips.bind {d : Decoder α} {f : α → Decoder β} {w₁ w₂ : Bytes} {a : α} {b : β} (h₁ : RoundTrips d w₁ a)
    (h₂ : RoundTrips (f a) w₂ b) : RoundTrips (d >>= f) (w₁ ++ w₂) b := by
  intro pre post
  rw [run_bind_ok_iff]
  refine ⟨a, w₁.length, w₂.length, ?_, ?_, List.length_append⟩
  · simpa [List.append_assoc] using h₁ pre (w₂ ++ post)
  · simpa [List.append_assoc] using h₂ (pre ++ w₁) post

/-- A word that round trips, and a function of the value at the end. -/
theorem RoundTrips.map {d : Decoder α} {w : Bytes} {a : α} (h : RoundTrips d w a) (g : α → β) :
    RoundTrips (d >>= fun x => pure (g x)) w (g a) := by
  have hb := RoundTrips.bind h (f := fun x => pure (g x)) (roundTrips_pure (g a))
  rwa [List.append_nil] at hb

/-- A list of values, each round tripping through its own word, round trips through the words in a row. -/
theorem RoundTrips.times {d : Decoder α} {enc : α → Bytes} {as : List α} (h : ∀ a ∈ as, RoundTrips d (enc a) a) :
    RoundTrips (d.times as.length) (as.flatMap enc) as := by
  induction as with
  | nil => exact roundTrips_pure []
  | cons a as ih =>
    have hrest : RoundTrips (d.times as.length) (as.flatMap enc) as := ih fun x hx => h x (List.mem_cons_of_mem a hx)
    rw [List.flatMap_cons]
    exact RoundTrips.bind (h a List.mem_cons_self) (hrest.map (a :: ·))

/-- The count of a word that round trips is its length. -/
theorem RoundTrips.counted {d : Decoder α} {w : Bytes} {a : α} (h : RoundTrips d w a) : RoundTrips d.counted w (a, w.length) := by
  intro pre post
  simp only [Decoder.counted, h pre post, map_ok]

/-- The host loads the 16-bit word it stored. -/
theorem roundTrips_loadU16 (x : UInt16) : RoundTrips loadU16 (storeU16 x) x := by
  have hx : x.toNat < 65536 := x.toNat_lt
  have hval : UInt16.ofNat ((UInt8.ofNat x.toNat).toNat + (UInt8.ofNat (x.toNat / 256)).toNat * 256) = x := by
    apply UInt16.toNat_inj.mp
    simp only [UInt16.toNat_ofNat', UInt8.toNat_ofNat', Nat.reducePow]
    omega
  have h : RoundTrips loadU16 ([_] ++ [_]) (UInt16.ofNat _) :=
    RoundTrips.bind (roundTrips_byte (UInt8.ofNat x.toNat)) <|
      (roundTrips_byte (UInt8.ofNat (x.toNat / 256))).map _
  rwa [hval] at h

/-- The host loads the 32-bit word it stored. -/
theorem roundTrips_loadU32 (x : UInt32) : RoundTrips loadU32 (storeU32 x) x := by
  have hx : x.toNat < 4294967296 := x.toNat_lt
  have hval : UInt32.ofNat ((UInt8.ofNat x.toNat).toNat + (UInt8.ofNat (x.toNat / 256)).toNat * 256 +
      (UInt8.ofNat (x.toNat / 65536)).toNat * 65536 + (UInt8.ofNat (x.toNat / 16777216)).toNat * 16777216) = x := by
    apply UInt32.toNat_inj.mp
    simp only [UInt32.toNat_ofNat', UInt8.toNat_ofNat', Nat.reducePow]
    omega
  have h : RoundTrips loadU32 ([_] ++ ([_] ++ ([_] ++ [_]))) (UInt32.ofNat _) :=
    RoundTrips.bind (roundTrips_byte (UInt8.ofNat x.toNat)) <|
      RoundTrips.bind (roundTrips_byte (UInt8.ofNat (x.toNat / 256))) <|
        RoundTrips.bind (roundTrips_byte (UInt8.ofNat (x.toNat / 65536))) <|
          (roundTrips_byte (UInt8.ofNat (x.toNat / 16777216))).map _
  rwa [hval] at h

/-- The 16-bit word in the network's order at an offset of a buffer. -/
def netU16At (p : Bytes) (o : Nat) : UInt16 := ntohs (UInt16.ofNat ((byteAt p o).toNat + (byteAt p (o + 1)).toNat * 256))

theorem reads_loadU16 :
    Reads loadU16 2 fun p o => UInt16.ofNat ((byteAt p o).toNat + (byteAt p (o + 1)).toNat * 256) :=
  reads_byte.bind fun _ => reads_byte.map _

theorem reads_netU16 : Reads netU16 2 netU16At := reads_loadU16.map ntohs

theorem reads_loadU32 :
    Reads loadU32 4 fun p o => UInt32.ofNat ((byteAt p o).toNat + (byteAt p (o + 1)).toNat * 256 +
      (byteAt p (o + 1 + 1)).toNat * 65536 + (byteAt p (o + 1 + 1 + 1)).toNat * 16777216) :=
  reads_byte.bind fun _ => reads_byte.bind fun _ => reads_byte.bind fun _ => reads_byte.map _

/-- The word sent in the network's order is loaded back. -/
theorem roundTrips_netU16 (x : UInt16) : RoundTrips netU16 (storeU16 (htons x)) x := by
  have h := (roundTrips_loadU16 (htons x)).map ntohs
  rwa [ntohs_htons] at h

/-- The bytes of a buffer from an offset on. -/
def octetsAt (n : Nat) (p : Bytes) (o : Nat) : List.Vector UInt8 n := ⟨(List.range n).map fun i => byteAt p (o + i), by simp⟩

theorem toList_octetsAt {n : Nat} {p : Bytes} {o : Nat} (h : o + n ≤ p.length) :
    (octetsAt n p o).toList = (p.drop o).take n := by
  have hlist : (octetsAt n p o).toList = (List.range n).map fun i => byteAt p (o + i) := rfl
  rw [hlist]
  refine List.ext_getElem (by simp; omega) fun i hi hi' => ?_
  rw [List.length_map, List.length_range] at hi
  have hlt : o + i < p.length := by omega
  rw [List.getElem_map, List.getElem_range, List.getElem_take, List.getElem_drop, byteAt, List.getD_eq_getElem?_getD,
    List.getElem?_eq_getElem hlt, Option.getD_some]

theorem reads_octets (n : Nat) : Reads (octets n) n (octetsAt n) := by
  intro p o v k _
  by_cases h : o + n ≤ p.length
  · have hv : (⟨(p.drop o).take n, by rw [List.length_take, List.length_drop]; omega⟩ : List.Vector UInt8 n) = octetsAt n p o :=
      List.Vector.eq _ _ (toList_octetsAt h).symm
    simp only [octets, h, dif_pos, hv, Except.ok.injEq, Prod.mk.injEq, true_and]
    exact and_congr eq_comm eq_comm
  · simp only [octets, h, dif_neg, not_false_eq_true, false_and, reduceCtorEq]

theorem roundTrips_octets {n : Nat} (v : List.Vector UInt8 n) : RoundTrips (octets n) v.toList v := by
  obtain ⟨l, rfl⟩ := v
  intro pre post
  have hlist : List.Vector.toList ⟨l, rfl⟩ = l := rfl
  have hfits : pre.length + l.length ≤ (pre ++ l ++ post).length := by
    simp only [List.length_append]
    omega
  have htake : ((pre ++ l ++ post).drop pre.length).take l.length = l := by
    rw [List.append_assoc, List.drop_left, List.take_left]
  simp only [octets, hlist, hfits, dif_pos, Except.ok.injEq]
  exact Prod.ext (List.Vector.eq _ _ htake) rfl

end Decoder
end Wire
