import NetworkingFramework.Lib.CText

/-!
# Input streams

Strings read as streams. A read that finds the stream in a bad state does nothing but fail, so the string that it was to fill
keeps what was read before.
-/

namespace CText

open Wire

/-- An input stream on a string: what is left of it, and whether its end was met or a read has failed. -/
structure InStream where
  rest : Bytes
  eof : Bool
  failed : Bool
  deriving DecidableEq

namespace InStream

/-- The stream on a string. -/
def ofString (s : Bytes) : InStream := ⟨s, false, false⟩

/-- `good`. -/
def good (stream : InStream) : Bool := !stream.eof && !stream.failed

/-- `std::getline`: the characters up to the delimiter, which is dropped, or to the end. -/
def getline (delim : UInt8) (stream : InStream) (str : Bytes) : InStream × Bytes :=
  if stream.good then
    let line := stream.rest.takeWhile (· ≠ delim)
    match stream.rest.dropWhile (· ≠ delim) with
    | [] => (⟨[], true, line = []⟩, line)
    | _ :: rest => (⟨rest, false, false⟩, line)
  else ({ stream with failed := true }, str)

/-- `operator>>` for a string: white space is skipped, and the characters up to the next are taken. -/
def getWord (stream : InStream) (str : Bytes) : InStream × Bytes :=
  if stream.good then
    let start := stream.rest.dropWhile isSpace
    if start = [] then (⟨[], true, true⟩, str)
    else
      let rest := start.dropWhile fun c => !isSpace c
      (⟨rest, rest = [], false⟩, start.takeWhile fun c => !isSpace c)
  else ({ stream with failed := true }, str)

theorem good_ofString (s : Bytes) : (ofString s).good = true := rfl

theorem getline_of_not_good {stream : InStream} (h : stream.good = false) (delim : UInt8) (str : Bytes) :
    getline delim stream str = ({ stream with failed := true }, str) := by
  rw [getline, h, if_neg Bool.false_ne_true]

theorem getWord_of_not_good {stream : InStream} (h : stream.good = false) (str : Bytes) :
    getWord stream str = ({ stream with failed := true }, str) := by
  rw [getWord, h, if_neg Bool.false_ne_true]

/-- A line that the delimiter ends. -/
theorem getline_append {delim : UInt8} {line : Bytes} (h : delim ∉ line) (rest str : Bytes) :
    getline delim (ofString (line ++ delim :: rest)) str = (ofString rest, line) := by
  have hline : ∀ c ∈ line, decide (c ≠ delim) = true := fun c hc => decide_eq_true fun heq => h (heq ▸ hc)
  have htake : (line ++ delim :: rest).takeWhile (· ≠ delim) = line := by
    rw [List.takeWhile_append_of_pos hline, List.takeWhile_cons_of_neg (by simp), List.append_nil]
  have hdrop : (line ++ delim :: rest).dropWhile (· ≠ delim) = delim :: rest := by
    rw [List.dropWhile_append_of_pos hline, List.dropWhile_cons_of_neg (by simp)]
  rw [getline, good_ofString, if_pos rfl]
  simp only [ofString, htake, hdrop]

/-- The last line, up to the end. -/
theorem getline_last {delim : UInt8} {line : Bytes} (h : delim ∉ line) (str : Bytes) :
    getline delim (ofString line) str = (⟨[], true, line = []⟩, line) := by
  have hline : ∀ c ∈ line, decide (c ≠ delim) = true := fun c hc => decide_eq_true fun heq => h (heq ▸ hc)
  rw [getline, good_ofString, if_pos rfl]
  simp only [ofString, List.takeWhile_eq_self_iff.mpr hline, List.dropWhile_eq_nil_iff.mpr hline]

/-- A string without white space is one word. -/
theorem getWord_all {word : Bytes} (hne : word ≠ []) (h : ∀ c ∈ word, isSpace c = false) (str : Bytes) :
    getWord (ofString word) str = (⟨[], true, false⟩, word) := by
  have hstart : word.dropWhile isSpace = word := by
    obtain ⟨c, cs, rfl⟩ := List.exists_cons_of_ne_nil hne
    exact List.dropWhile_cons_of_neg (by rw [h c List.mem_cons_self]; exact Bool.false_ne_true)
  have hword : ∀ c ∈ word, (!isSpace c) = true := fun c hc => by rw [h c hc]; rfl
  rw [getWord, good_ofString, if_pos rfl]
  simp only [ofString, hstart, if_neg hne, List.takeWhile_eq_self_iff.mpr hword, List.dropWhile_eq_nil_iff.mpr hword]
  rfl

end InStream

/-! ## The words of a text -/

/-- The words of a text, with the white space that parts them left out. -/
def words (s : Bytes) : List Bytes := (s.splitOnP isSpace).filter (· ≠ [])

@[simp] theorem words_nil : words [] = [] := rfl

theorem words_cons_space {c : UInt8} (h : isSpace c = true) (s : Bytes) : words (c :: s) = words s := by
  rw [words, List.splitOnP_cons_eq_if_splitOnPPrepend, if_pos h, List.filter_cons_of_neg (by simp), words]

/-- White space in front does not count. -/
theorem words_dropWhile (s : Bytes) : words (s.dropWhile isSpace) = words s := by
  induction s with
  | nil => rfl
  | cons c s ih =>
    by_cases hc : isSpace c = true
    · rw [List.dropWhile_cons_of_pos hc, words_cons_space hc, ih]
    · rw [List.dropWhile_cons_of_neg hc]

/-- A word, and what is behind the white space that ends it. -/
theorem words_append {word rest : Bytes} (hne : word ≠ []) (h : ∀ c ∈ word, isSpace c = false)
    (hrest : ∀ c ∈ rest.head?, isSpace c = true) : words (word ++ rest) = word :: words rest := by
  cases rest with
  | nil =>
    rw [List.append_nil, words, List.splitOnP_eq_singleton h, List.filter_cons_of_pos (by simpa using hne)]
    rfl
  | cons c rest =>
    have hc : isSpace c = true := hrest c rfl
    rw [words_cons_space hc, words, List.splitOnP_append_cons_of_forall_mem h c hc,
      List.filter_cons_of_pos (by simpa using hne), words]

theorem ne_nil_of_mem_words {s word : Bytes} (h : word ∈ words s) : word ≠ [] := by
  simpa using (List.mem_filter.mp h).2

namespace InStream

/-- At its end there is nothing left of a stream. -/
def Sound (stream : InStream) : Prop := stream.eof = true → stream.rest = []

theorem sound_ofString (s : Bytes) : (ofString s).Sound := fun h => by cases h

/-- A word is read where there is one, and the reading fails where there is none. -/
theorem getWord_cases {stream : InStream} (hsound : stream.Sound) (hok : stream.failed = false) (str : Bytes) :
    (words stream.rest = [] ∧ (stream.getWord str).1.failed = true) ∨
      ∃ stream' word, stream.getWord str = (stream', word) ∧ stream'.Sound ∧ stream'.failed = false ∧
        words stream.rest = word :: words stream'.rest := by
  by_cases heof : stream.eof = true
  · left
    rw [getWord_of_not_good (by simp [good, heof]), hsound heof]
    exact ⟨rfl, rfl⟩
  · have hgood : stream.good = true := by simp [good, heof, hok]
    rw [getWord, if_pos hgood, ← words_dropWhile stream.rest]
    by_cases hstart : stream.rest.dropWhile isSpace = []
    · left
      simp only [hstart, if_true]
      exact ⟨rfl, trivial⟩
    · right
      simp only [hstart, if_false]
      refine ⟨_, _, rfl, fun hend => by simpa using hend, rfl, ?_⟩
      have hword : ∀ c ∈ (stream.rest.dropWhile isSpace).takeWhile fun c => !isSpace c, isSpace c = false := by
        intro c hc
        simpa using List.mem_takeWhile_imp hc
      have hfirst : (stream.rest.dropWhile isSpace).takeWhile (fun c => !isSpace c) ≠ [] := by
        obtain ⟨c, cs, hcons⟩ := List.exists_cons_of_ne_nil hstart
        have hc : isSpace c = false := by
          have hhead := List.head_dropWhile_not isSpace hstart
          simpa [hcons] using hhead
        rw [hcons, List.takeWhile_cons_of_pos (by simp [hc])]
        exact List.cons_ne_nil _ _
      have hrest : ∀ c ∈ ((stream.rest.dropWhile isSpace).dropWhile fun c => !isSpace c).head?, isSpace c = true := by
        intro c hc
        have hhead := List.head?_dropWhile_not (fun c => !isSpace c) (stream.rest.dropWhile isSpace)
        rw [Option.mem_def.mp hc] at hhead
        simpa using hhead
      calc words (stream.rest.dropWhile isSpace)
          = words (_ ++ (stream.rest.dropWhile isSpace).dropWhile fun c => !isSpace c) := by
            rw [List.takeWhile_append_dropWhile]
        _ = _ := words_append hfirst hword hrest

end InStream
end CText
