import NetworkingFramework.Lib.Framing
import NetworkingFramework.MsgBoundary

/-!
# The separator reads a stream of frames

`send_data` writes a frame whose header is the size of the message. Between calls of `handle_callback` the separator is at a
place of the stream (`Holds`), and a chunk takes it to the place behind the chunk, unless the chunk ends inside a size field:
the read of that field goes past the end of the chunk.
-/

namespace NetworkingFramework
namespace MsgBoundarySeperator

open Wire Framing

/-- A length that 16 bits can count. -/
theorem toNat_ofNat_of_lt {n : Nat} (hn : n < 65536) : (UInt16.ofNat n).toNat = n := UInt16.toNat_ofNat_of_lt' hn

/-- The smaller of two such lengths. -/
theorem min_ofNat {a b : Nat} (ha : a < 65536) (hb : b < 65536) :
    min (UInt16.ofNat a) (UInt16.ofNat b) = UInt16.ofNat (min a b) := by
  have hle : UInt16.ofNat a ≤ UInt16.ofNat b ↔ a ≤ b := by
    rw [UInt16.le_iff_toNat_le, toNat_ofNat_of_lt ha, toNat_ofNat_of_lt hb]
  rw [show min (UInt16.ofNat a) (UInt16.ofNat b) = if UInt16.ofNat a ≤ UInt16.ofNat b then _ else _ from rfl]
  by_cases h : a ≤ b
  · rw [if_pos (hle.mpr h), Nat.min_eq_left h]
  · rw [if_neg (mt hle.mp h), Nat.min_eq_right (by omega)]

/-- The size field that is sent before a message. -/
def sizeField (m : Bytes) : Bytes := storeU16 (UInt16.ofNat m.length)

/-- What is sent of a message that the size field can count is its frame. -/
theorem sendData_eq {m : Bytes} (hm : m.length < 65536) : sendData m = sizeField m ++ m := by
  have hsz : (UInt16.ofNat m.length).toNat = m.length := toNat_ofNat_of_lt hm
  unfold sendData sizeField
  simp only [hsz, List.take_length]

theorem sendData_flatten {msgs : List Bytes} (hmsgs : ∀ m ∈ msgs, m.length < 65536) :
    (msgs.map sendData).flatten = stream sizeField msgs := by
  unfold stream
  rw [List.map_congr_left fun m hm => sendData_eq (hmsgs m hm)]

theorem sizeField_length (m : Bytes) : (sizeField m).length = 2 := rfl

theorem length_stream_cons (m : Bytes) (ms : List Bytes) :
    (stream sizeField (m :: ms)).length = (m ++ stream sizeField ms).length + 2 := by
  rw [stream_cons, List.length_append, sizeField_length, Nat.add_comm]

/-- The start of a chunk. -/
def Cursor.at (c : Bytes) : Cursor := ⟨c, UInt16.ofNat c.length⟩

theorem Cursor.at_cnt_eq_zero_iff {c : Bytes} (hc : c.length < 65536) : (Cursor.at c).cnt = 0 ↔ c = [] := by
  have hlen : (UInt16.ofNat c.length).toNat = c.length := toNat_ofNat_of_lt hc
  unfold Cursor.at
  rw [← UInt16.toNat_inj, hlen, UInt16.toNat_zero, List.length_eq_zero_iff]

/-- Behind some bytes of a chunk the counter is the size of the others. -/
theorem Cursor.at_sub {x c : Bytes} (hc : (x ++ c).length < 65536) :
    UInt16.ofNat (x ++ c).length - UInt16.ofNat x.length = UInt16.ofNat c.length := by
  rw [List.length_append] at hc ⊢
  apply UInt16.toNat_inj.mp
  have hsum : (UInt16.ofNat (x.length + c.length)).toNat = x.length + c.length := toNat_ofNat_of_lt hc
  have hx : (UInt16.ofNat x.length).toNat = x.length := toNat_ofNat_of_lt (by omega)
  have hle : UInt16.ofNat x.length ≤ UInt16.ofNat (x.length + c.length) := by
    rw [UInt16.le_iff_toNat_le, hx, hsum]
    omega
  rw [UInt16.toNat_sub_of_le _ _ hle, hsum, hx, toNat_ofNat_of_lt (by omega)]
  omega

/-- The state inside a body of which `got` has been read. -/
def reading (got missing : Bytes) : MsgBoundarySeperator :=
  ⟨true, ⟨got ++ List.replicate missing.length 0, [], 0⟩, UInt16.ofNat got.length⟩

/-- Between calls the separator is at this place. -/
def Holds (s : MsgBoundarySeperator) : Place UInt8 → Prop
  | .between => s.midPacket = false
  | .inside got missing => s = reading got missing ∧ missing ≠ [] ∧ (got ++ missing).length < 65536

theorem reading_currRead {got : Bytes} (missing : Bytes) (hgot : got.length < 65536) :
    (reading got missing).currRead.toNat = got.length := toNat_ofNat_of_lt hgot

theorem reading_length (got missing : Bytes) : (reading got missing).currMsg.buff.length = got.length + missing.length := by
  unfold reading
  rw [List.length_append, List.length_replicate]

/-! ## The parts of an iteration -/

/-- A size field that is in the chunk in full is read. -/
theorem readSize_sizeField (s : MsgBoundarySeperator) {m c : Bytes} (hm : m.length < 65536)
    (hc : (sizeField m ++ c).length < 65536) :
    s.readSize (Cursor.at (sizeField m ++ c)) = .ok (reading [] m, Cursor.at c) := by
  have hsz : (UInt16.ofNat m.length).toNat = m.length := toNat_ofNat_of_lt hm
  have hlo : m.length % 256 + m.length / 256 % 256 * 256 = m.length := by omega
  have hcnt := Cursor.at_sub hc
  rw [sizeField_length] at hcnt
  unfold readSize Cursor.at
  simp only [sizeField, storeU16, List.cons_append, List.nil_append] at hcnt ⊢
  rw [show (2 : UInt16) = UInt16.ofNat 2 from rfl, hcnt]
  simp [reading, hsz, hlo]

/-- One that the chunk has one byte of is not. -/
theorem readSize_cut (s : MsgBoundarySeperator) (b : UInt8) : s.readSize (Cursor.at [b]) = .error .outOfBounds := by
  unfold readSize Cursor.at
  rfl

/-- What the chunk and the body have in common is copied. -/
theorem readBody_reading {got x missing c : Bytes} (hend : missing = [] ∨ c = []) (hbody : (got ++ (x ++ missing)).length < 65536)
    (hc : (x ++ c).length < 65536) :
    (reading got (x ++ missing)).readBody (Cursor.at (x ++ c)) = .ok (reading (got ++ x) missing, Cursor.at c) := by
  have hgot : got.length < 65536 := by rw [List.length_append] at hbody; omega
  have hx : x.length < 65536 := by rw [List.length_append] at hc; omega
  have hbuff : (got ++ List.replicate (x ++ missing).length (0 : UInt8)).length = (got ++ (x ++ missing)).length := by simp
  -- the smaller of what the chunk has and what the body lacks
  have hreading : min (UInt16.ofNat (x ++ c).length) (UInt16.ofNat (got ++ (x ++ missing)).length - UInt16.ofNat got.length) =
      UInt16.ofNat x.length := by
    rw [Cursor.at_sub hbody]
    have hleft : (x ++ missing).length < 65536 := by rw [List.length_append] at hbody; omega
    have hmin : min (x ++ c).length (x ++ missing).length = x.length := by
      rcases hend with rfl | rfl <;> simp
    rw [min_ofNat hc hleft, hmin]
  have hguard : ¬((x ++ c).length < x.length ∨ (got ++ (x ++ missing)).length < got.length + x.length) := by
    simp only [List.length_append]
    omega
  have hcurrRead : UInt16.ofNat got.length + UInt16.ofNat x.length = UInt16.ofNat (got ++ x).length := by
    rw [List.length_append, UInt16.ofNat_add]
  unfold readBody
  simp only [reading, Cursor.at] at hbuff ⊢
  simp only [hbuff, hreading, toNat_ofNat_of_lt hx, toNat_ofNat_of_lt hgot, if_neg hguard, hcurrRead, Cursor.at_sub hc]
  simp

/-- The end of an iteration: a message that has been read in full is forwarded, and the loop goes on. -/
def endIteration (fuel : Nat) (r : MsgBoundarySeperator × Cursor) : Except Fault (MsgBoundarySeperator × List RecvMsgT) :=
  if r.1.currRead.toNat = r.1.currMsg.buff.length then do
    let (s', forwarded) ← handleCallbackLoop fuel { r.1 with midPacket := false } r.2
    return (s', r.1.currMsg :: forwarded)
  else handleCallbackLoop fuel r.1 r.2

theorem handleCallbackLoop_succ (fuel : Nat) (s : MsgBoundarySeperator) {c : Bytes} (hne : c ≠ []) (hc : c.length < 65536) :
    handleCallbackLoop (fuel + 1) s (Cursor.at c) =
      (if ¬s.midPacket then s.readSize (Cursor.at c) else .ok (s, Cursor.at c)) >>= fun r =>
        r.1.readBody r.2 >>= endIteration fuel := by
  have hcnt : ¬(Cursor.at c).cnt = 0 := mt (Cursor.at_cnt_eq_zero_iff hc).mp hne
  rw [handleCallbackLoop, if_neg hcnt]
  cases hmid : s.midPacket with
  | false => simp only [Bool.false_eq_true, not_false_eq_true, if_true]; rfl
  | true => simp only [not_true_eq_false, if_false]; rfl

/-- The loop returns at the end of the chunk. -/
theorem handleCallbackLoop_nil (fuel : Nat) (s : MsgBoundarySeperator) :
    handleCallbackLoop fuel s (Cursor.at []) = .ok (s, []) := by
  cases fuel <;> rfl

/-- An iteration that reads to the end of the body. -/
theorem readBody_beyond (fuel : Nat) {got missing c : Bytes} (hbody : (got ++ missing).length < 65536)
    (hc : (missing ++ c).length < 65536) :
    ((reading got missing).readBody (Cursor.at (missing ++ c)) >>= endIteration fuel) =
      (handleCallbackLoop fuel { reading (got ++ missing) [] with midPacket := false } (Cursor.at c)).map fun r =>
        (r.1, tcpReceived (got ++ missing) :: r.2) := by
  have hread : (reading got (missing ++ [])).readBody (Cursor.at (missing ++ c)) = .ok (reading (got ++ missing) [], Cursor.at c) :=
    readBody_reading (Or.inl rfl) (by simpa using hbody) hc
  rw [List.append_nil] at hread
  have hfull : (reading (got ++ missing) []).currRead.toNat = (reading (got ++ missing) []).currMsg.buff.length := by
    rw [reading_currRead [] hbody, reading_length, List.length_nil, Nat.add_zero]
  have hcurrMsg : (reading (got ++ missing) []).currMsg = tcpReceived (got ++ missing) := by simp [reading, tcpReceived]
  rw [hread, ok_bind]
  unfold endIteration
  rw [if_pos hfull, hcurrMsg]
  exact bind_ok_eq_map _ _

/-- An iteration that comes to the end of the chunk inside the body. -/
theorem readBody_inside (fuel : Nat) {got c left : Bytes} (hbody : (got ++ (c ++ left)).length < 65536)
    (hc : c.length < 65536) (hleft : left ≠ []) :
    ((reading got (c ++ left)).readBody (Cursor.at c) >>= endIteration fuel) = .ok (reading (got ++ c) left, []) := by
  have hread : (reading got (c ++ left)).readBody (Cursor.at (c ++ [])) = .ok (reading (got ++ c) left, Cursor.at []) :=
    readBody_reading (Or.inr rfl) hbody (by simpa using hc)
  rw [List.append_nil] at hread
  have hlt : (got ++ c).length < 65536 := by
    simp only [List.length_append] at hbody ⊢
    omega
  have hunread : ¬(reading (got ++ c) left).currRead.toNat = (reading (got ++ c) left).currMsg.buff.length := by
    have hpos : 0 < left.length := List.length_pos_iff.mpr hleft
    rw [reading_currRead left hlt, reading_length]
    omega
  rw [hread, ok_bind]
  unfold endIteration
  rw [if_neg hunread, handleCallbackLoop_nil]

/-! ## A chunk -/

/-- From the place `p` the separator has forwarded `out` and is at a place where `rem` is what it has not got. -/
def Reads (p : Place UInt8) (ms : List Bytes) (rem : Bytes) (s' : MsgBoundarySeperator) (out : List Bytes) : Prop :=
  ∃ p' ms', s'.Holds p' ∧ p.messages ms = out ++ p'.messages ms' ∧ rem = p'.rest sizeField ms' ∧ (∀ m ∈ ms', m ∈ ms) ∧
    ∀ n ≤ rem.length, CutsHeader sizeField ms n ↔ CutsHeader sizeField ms' n

/-- What a part of the stream does from the place `p`, when `rem` is behind it: it ends inside a size field, or is read. -/
def ReadsUpTo (p : Place UInt8) (ms : List Bytes) (rem : Bytes) (r : Except Fault (MsgBoundarySeperator × List RecvMsgT)) : Prop :=
  CutsHeader sizeField ms rem.length ∧ r = .error .outOfBounds ∨
    ∃ s' out, r = .ok (s', out.map tcpReceived) ∧ Reads p ms rem s' out

theorem Reads.refl {s : MsgBoundarySeperator} {p : Place UInt8} (hs : s.Holds p) (ms : List Bytes) :
    Reads p ms (p.rest sizeField ms) s [] :=
  ⟨p, ms, hs, rfl, rfl, fun _ hm => hm, fun _ _ => Iff.rfl⟩

/-- What is read from behind a header is read from before it. -/
theorem ReadsUpTo.of_inside {m c rem : Bytes} {ms : List Bytes} {r : Except Fault (MsgBoundarySeperator × List RecvMsgT)}
    (h : ReadsUpTo (.inside [] m) ms rem r) (hrest : c ++ rem = m ++ stream sizeField ms) : ReadsUpTo .between (m :: ms) rem r := by
  have hlen : rem.length ≤ (m ++ stream sizeField ms).length := by
    rw [← hrest, List.length_append]
    omega
  rcases h with ⟨hcut, hr⟩ | ⟨s', out, hr, p', ms', hs', hmessages, hrem, hmem, hcuts⟩
  · exact Or.inl ⟨(cutsHeader_cons_of_le sizeField hlen).mpr hcut, hr⟩
  · refine Or.inr ⟨s', out, hr, p', ms', hs', hmessages, hrem, fun m' hm' => List.mem_cons_of_mem m (hmem m' hm'), ?_⟩
    intro n hn
    exact (cutsHeader_cons_of_le sizeField (Nat.le_trans hn hlen)).trans (hcuts n hn)

/-- An iteration from inside a body, if the loop does what it should behind the body. -/
theorem readBody_endIteration {fuel : Nat} {got missing c rem : Bytes} {ms : List Bytes}
    (hbody : (got ++ missing).length < 65536) (hc : c.length < 65536) (hrest : c ++ rem = missing ++ stream sizeField ms)
    (hloop : ∀ s c', s.midPacket = false → c = missing ++ c' → c' ++ rem = stream sizeField ms →
      ReadsUpTo .between ms rem (handleCallbackLoop fuel s (Cursor.at c'))) :
    ReadsUpTo (.inside got missing) ms rem ((reading got missing).readBody (Cursor.at c) >>= endIteration fuel) := by
  rcases beyond_or_inside hrest with ⟨c', rfl, hrest'⟩ | ⟨left, hleft, rfl, rfl⟩
  · rw [readBody_beyond fuel hbody hc]
    rcases hloop { reading (got ++ missing) [] with midPacket := false } c' rfl rfl hrest' with
      ⟨hcut, herror⟩ | ⟨s', out, hok, p', ms', hs', hmessages, hrem, hmem, hcuts⟩
    · rw [herror]
      exact Or.inl ⟨hcut, rfl⟩
    · rw [hok]
      refine Or.inr ⟨s', (got ++ missing) :: out, rfl, p', ms', hs', ?_, hrem, hmem, hcuts⟩
      rw [List.cons_append, ← hmessages]
      rfl
  · rw [readBody_inside fuel hbody hc hleft]
    refine Or.inr ⟨_, [], rfl, .inside (got ++ c) left, ms, ⟨rfl, hleft, ?_⟩, ?_, rfl, fun _ hm => hm, fun _ _ => Iff.rfl⟩
    · rwa [List.append_assoc]
    · rw [Place.messages, Place.messages, List.append_assoc]
      rfl

/-- What begins with a size field has one byte of it, or both. -/
theorem one_or_both {m c rem behind : Bytes} (hne : c ≠ []) (h : c ++ rem = sizeField m ++ behind) :
    (∃ b, c = [b] ∧ rem.length = behind.length + 1) ∨ ∃ c', c = sizeField m ++ c' ∧ c' ++ rem = behind := by
  rcases beyond_or_inside h with hboth | ⟨left, hleft, hfield, rfl⟩
  · exact Or.inr hboth
  · have hlen := congrArg List.length hfield
    have hc : 0 < c.length := List.length_pos_iff.mpr hne
    have hpos : 0 < left.length := List.length_pos_iff.mpr hleft
    rw [sizeField_length, List.length_append] at hlen
    obtain ⟨b, rfl⟩ := List.length_eq_one_iff.mp (show c.length = 1 by omega)
    refine Or.inl ⟨b, rfl, ?_⟩
    rw [List.length_append]
    omega

/-- The loop reads a chunk from the place where the separator is. -/
theorem handleCallbackLoop_reads {fuel : Nat} {s : MsgBoundarySeperator} {p : Place UInt8} {ms : List Bytes} {c rem : Bytes}
    (hs : s.Holds p) (hms : ∀ m ∈ ms, m.length < 65536) (hc : c.length < 65536) (hfuel : c.length ≤ fuel)
    (hrest : c ++ rem = p.rest sizeField ms) : ReadsUpTo p ms rem (handleCallbackLoop fuel s (Cursor.at c)) := by
  induction fuel generalizing s p ms c with
  | zero =>
    obtain rfl := List.eq_nil_of_length_eq_zero (Nat.le_zero.mp hfuel)
    obtain rfl : rem = p.rest sizeField ms := hrest
    exact Or.inr ⟨s, [], handleCallbackLoop_nil 0 s, Reads.refl hs ms⟩
  | succ fuel ih =>
    by_cases hne : c = []
    · subst hne
      obtain rfl : rem = p.rest sizeField ms := hrest
      exact Or.inr ⟨s, [], handleCallbackLoop_nil _ s, Reads.refl hs ms⟩
    rw [handleCallbackLoop_succ fuel s hne hc]
    cases p with
    | inside got missing =>
      obtain ⟨rfl, hmissing, hbody⟩ := hs
      refine readBody_endIteration hbody hc hrest fun s c' hs hcut hrest' => ?_
      have hpos : 0 < missing.length := List.length_pos_iff.mpr hmissing
      have hlen : c.length = missing.length + c'.length := by rw [hcut, List.length_append]
      exact ih hs hms (by omega) (by omega) hrest'
    | between =>
      have hs : s.midPacket = false := hs
      rw [hs, if_pos Bool.false_ne_true]
      cases ms with
      | nil => exact absurd (List.append_eq_nil_iff.mp hrest).1 hne
      | cons m ms =>
        have hm := hms m List.mem_cons_self
        have hlen := length_stream_cons m ms
        rw [Place.rest, stream_cons] at hrest
        rcases one_or_both hne hrest with ⟨b, rfl, hrem⟩ | ⟨c', rfl, hrest'⟩
        · rw [readSize_cut, error_bind]
          refine Or.inl ⟨(cutsHeader_cons_iff ..).mpr (Or.inl ⟨?_, ?_⟩), rfl⟩ <;> omega
        · rw [readSize_sizeField s hm hc, ok_bind]
          rw [List.length_append, sizeField_length] at hc hfuel
          have hread : ReadsUpTo (.inside [] m) ms rem ((reading [] m).readBody (Cursor.at c') >>= endIteration fuel) := by
            refine readBody_endIteration hm (by omega) hrest' fun s c'' hs hcut hrest'' => ?_
            have hlen' : c'.length = m.length + c''.length := by rw [hcut, List.length_append]
            exact ih hs (fun m' hm' => hms m' (List.mem_cons_of_mem m hm')) (by omega) (by omega) hrest''
          exact hread.of_inside hrest'

/-! ## Chunk after chunk -/

theorem handleCallback_tcpReceived (fuel : Nat) (s : MsgBoundarySeperator) (c : Bytes) :
    s.handleCallback fuel (tcpReceived c) = handleCallbackLoop fuel s (Cursor.at c) := rfl

/-- Nothing is left of the stream: the separator has forwarded every message. -/
theorem messages_eq_nil {s : MsgBoundarySeperator} {p : Place UInt8} {ms : List Bytes} (hs : s.Holds p)
    (hrest : p.rest sizeField ms = []) : p.messages ms = [] := by
  cases p with
  | between => exact eq_nil_of_stream_eq_nil sizeField (fun m h => by cases h) hrest
  | inside got missing =>
    obtain ⟨-, hmissing, -⟩ := hs
    exact absurd (List.append_eq_nil_iff.mp hrest).1 hmissing

/-- A cut of what is left of the stream is behind the first chunk, or it is a cut of what is left then. -/
theorem cuts_cons_iff {p : Place UInt8} {ms ms' : List Bytes} {c : Bytes} {chunks : List Bytes}
    (hrest : (c :: chunks).flatten = p.rest sizeField ms)
    (hcuts : ∀ n ≤ chunks.flatten.length, CutsHeader sizeField ms n ↔ CutsHeader sizeField ms' n) :
    (∀ pre post, c :: chunks = pre ++ post → ¬CutsHeader sizeField ms post.flatten.length) ↔
      ∀ pre post, chunks = pre ++ post → ¬CutsHeader sizeField ms' post.flatten.length := by
  have hle : ∀ pre post : List Bytes, chunks = pre ++ post → post.flatten.length ≤ chunks.flatten.length := by
    rintro pre post rfl
    rw [List.flatten_append, List.length_append]
    omega
  constructor
  · intro h pre post hsplit hcut
    refine h (c :: pre) post (by rw [hsplit]; rfl) ?_
    exact (hcuts _ (hle pre post hsplit)).mpr hcut
  · intro h pre post hsplit hcut
    cases pre with
    | nil =>
      obtain rfl : c :: chunks = post := hsplit
      rw [hrest] at hcut
      exact not_cutsHeader_rest sizeField p ms hcut
    | cons x pre =>
      obtain ⟨-, hsplit⟩ := List.cons.inj hsplit
      exact h pre post hsplit ((hcuts _ (hle pre post hsplit)).mp hcut)

/-- The chunks of what is left of the stream are read, and every message forwarded, if and only if no size field is cut. -/
theorem handleCallbacks_forwards_iff {fuel : Nat} {s : MsgBoundarySeperator} {p : Place UInt8} {ms chunks : List Bytes}
    (hs : s.Holds p) (hms : ∀ m ∈ ms, m.length < 65536) (hchunks : ∀ c ∈ chunks, c.length < 65536 ∧ c.length ≤ fuel)
    (hrest : chunks.flatten = p.rest sizeField ms) :
    (∃ s', handleCallbacks fuel s chunks = .ok (s', (p.messages ms).map tcpReceived)) ↔
      ∀ pre post, chunks = pre ++ post → ¬CutsHeader sizeField ms post.flatten.length := by
  induction chunks generalizing s p ms with
  | nil =>
    refine iff_of_true ⟨s, by rw [messages_eq_nil hs hrest.symm]; rfl⟩ fun pre post hsplit hcut => ?_
    obtain ⟨rfl, rfl⟩ := List.append_eq_nil_iff.mp hsplit.symm
    rw [hrest] at hcut
    exact not_cutsHeader_rest sizeField p ms hcut
  | cons c chunks ih =>
    obtain ⟨hc, hfuel⟩ := hchunks c List.mem_cons_self
    rw [handleCallbacks, handleCallback_tcpReceived]
    rcases handleCallbackLoop_reads hs hms hc hfuel hrest with ⟨hcut, herror⟩ | ⟨s', out, hok, hreads⟩
    · rw [herror, error_bind]
      refine iff_of_false (fun ⟨s', h⟩ => by cases h) fun h => h [c] chunks rfl hcut
    · obtain ⟨p', ms', hs', hmessages, hrest', hmem, hcuts⟩ := hreads
      have hrun := ih hs' (fun m hm => hms m (hmem m hm)) (fun c' hc' => hchunks c' (List.mem_cons_of_mem c hc')) hrest'
      rw [cuts_cons_iff hrest hcuts, ← hrun, hok, ok_bind, hmessages, List.map_append]
      constructor
      · rintro ⟨s'', h⟩
        obtain ⟨⟨s₂, forwarded⟩, hcalls, heq⟩ := (bind_eq_ok_iff ..).mp h
        obtain ⟨rfl, hforwarded⟩ := Prod.mk.inj (Except.ok.inj heq)
        exact ⟨s₂, by rw [hcalls, List.append_cancel_left hforwarded]⟩
      · rintro ⟨s'', h⟩
        refine ⟨s'', ?_⟩
        dsimp only
        rw [h]
        rfl

/-- A cut of all that was sent is in a size field when it is one byte behind the end of a message. -/
theorem cutsHeader_iff_between {msgs pre post : List Bytes} (hmsgs : ∀ m ∈ msgs, m.length < 65536)
    (hsplit : (pre ++ post).flatten = (msgs.map sendData).flatten) :
    CutsHeader sizeField msgs post.flatten.length ↔
      ∃ before m after, msgs = before ++ m :: after ∧ pre.flatten.length = (before.map sendData).flatten.length + 1 := by
  have hlen := congrArg List.length (hsplit.trans (sendData_flatten hmsgs))
  rw [List.flatten_append, List.length_append] at hlen
  have hsum : ∀ before m after, msgs = before ++ m :: after →
      (stream sizeField (m :: after)).length = (m ++ stream sizeField after).length + 2 ∧
        pre.flatten.length + post.flatten.length =
          (before.map sendData).flatten.length + ((m ++ stream sizeField after).length + 2) := by
    intro before m after heq
    have hframe := length_stream_cons m after
    have hbefore : ∀ x ∈ before, x.length < 65536 := fun x hx => hmsgs x (heq ▸ List.mem_append_left _ hx)
    refine ⟨hframe, ?_⟩
    rw [hlen, heq, stream_append, sendData_flatten hbefore, ← hframe]
    exact List.length_append
  constructor
  · rintro ⟨before, m, after, heq, hlo, hhi⟩
    obtain ⟨hframe, htotal⟩ := hsum before m after heq
    exact ⟨before, m, after, heq, by omega⟩
  · rintro ⟨before, m, after, heq, hpre⟩
    obtain ⟨hframe, htotal⟩ := hsum before m after heq
    exact ⟨before, m, after, heq, by omega, by omega⟩

end MsgBoundarySeperator
end NetworkingFramework
