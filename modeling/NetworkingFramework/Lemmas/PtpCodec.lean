import NetworkingFramework.Lemmas.VarLenInts
import NetworkingFramework.Ptp

/-!
# The format of PTP headers

`PtpActionWord w a` says the word `w` is an action and `a` is what it says. Behind an action the pointer moves by the length of its
word as an `int`, so a header lies in a packet where `PtpHeaderAt` says: its actions one after another as the pointer goes. The
decoder returns exactly these headers (`extractPtpHeader_ok_iff`), and what the encoder writes for a header whose actions are
tagged is one of them (`ptpPacket_bytes`).
-/

namespace NetworkingFramework

open Wire Wire.Decoder

/-! ## Formats -/

/-- The words of an action: its type byte and the fields of the alternative it names. -/
inductive PtpActionWord : Bytes → PtpAction → Prop where
  | endpoint (t : UInt8) : PtpActionWord [PtpActionT.endpoint.toByte, t] ⟨.endpoint, .endpoint ⟨t⟩⟩
  | localConn {w₁ w₂ s d : Bytes} : CountedWord w₁ s → CountedWord w₂ d →
      PtpActionWord (PtpActionT.localConn.toByte :: (w₁ ++ w₂)) ⟨.localConn, .localConn ⟨⟨s⟩, ⟨d⟩⟩⟩
  | netSwitch {w₁ w₂ s d : Bytes} : CountedWord w₁ s → CountedWord w₂ d →
      PtpActionWord (PtpActionT.netSwitch.toByte :: (w₁ ++ w₂)) ⟨.netSwitch, .netSwitch ⟨⟨s⟩, ⟨d⟩⟩⟩

/-- An action lies at an offset of a packet, and the pointer moves by the length of its word as an `int`. -/
def PtpActionAt (p : Bytes) (o : Int) (a : PtpAction) (n : Int) : Prop :=
  ∃ (i : Nat) (w post : Bytes), o = i ∧ p.drop i = w ++ post ∧ PtpActionWord w a ∧ n = narrow w.length

/-- A header lies at the start of a packet: the number of actions, the actions, the current index and the count of jumps. Its size
is the offset behind them as an `int`. -/
def PtpHeaderAt (p : Bytes) (h : PtpHeader) (sz : Int) : Prop :=
  ∃ (k : UInt8) (m : Int) (e : Nat), p[0]? = some k ∧ Reader.Row (PtpActionAt p) k.toNat 1 h.actions m ∧ 1 + m = e ∧
    p[e]? = some h.currAction ∧ p[e + 1]? = some h.noJumps ∧ sz = narrow (e + 2 : Nat)

/-- A packet is a header and what its size leaves of the packet. -/
def PtpPacket (data : Bytes) (h : PtpHeader) (payload : Bytes) : Prop :=
  ∃ n : Nat, PtpHeaderAt data h n ∧ payload = data.drop n

/-! ## The decoder accepts the format -/

theorem PtpActionT.ofByte_toByte (t : PtpActionT) : PtpActionT.ofByte t.toByte = some t := by
  cases t <;> rfl

theorem PtpActionT.ofByte_eq_some_iff (b : UInt8) (t : PtpActionT) : PtpActionT.ofByte b = some t ↔ b = t.toByte := by
  constructor
  · unfold PtpActionT.ofByte
    intro h
    split at h
    · rename_i hb; obtain rfl := Option.some.inj h; exact hb
    · split at h
      · rename_i hb; obtain rfl := Option.some.inj h; exact hb
      · split at h
        · rename_i hb; obtain rfl := Option.some.inj h; exact hb
        · nomatch h
  · rintro rfl
    exact ofByte_toByte t

theorem parses_extractPtpActionT : Parses extractPtpActionT (fun w t => w = [t.toByte]) := by
  intro pre rest t n
  rw [extractPtpActionT, run_bind_ok_iff]
  constructor
  · intro h
    rcases h with ⟨b, n₁, n₂, hb, ht, rfl⟩
    obtain ⟨w, post, rfl, rfl, rfl⟩ := (parses_byte pre rest b n₁).mp hb
    cases hof : PtpActionT.ofByte b with
    | none =>
      rw [hof, run_lift_ok_iff] at ht
      nomatch ht.1
    | some t' =>
      rw [hof, run_pure] at ht
      obtain ⟨rfl, rfl⟩ : t' = t ∧ 0 = n₂ := by simpa using ht
      exact ⟨[b], post, rfl, by rw [(PtpActionT.ofByte_eq_some_iff b t').mp hof], rfl⟩
  · intro h
    rcases h with ⟨w, post, rfl, rfl, rfl⟩
    refine ⟨t.toByte, 1, 0, (parses_byte pre _ _ _).mpr ⟨[t.toByte], post, rfl, rfl, rfl⟩, ?_, rfl⟩
    rw [PtpActionT.ofByte_toByte]
    rfl

theorem parses_extractPtpEndpoint : Parses extractPtpEndpoint (fun w e => w = [e.type]) := by
  refine Parses.congr (parses_byte.map PtpEndpoint.mk) fun w e => ?_
  constructor
  · intro h
    rcases h with ⟨b, rfl, rfl⟩
    rfl
  · rintro rfl
    exact ⟨e.type, rfl, rfl⟩

/-- Two strings in a row. -/
def varLenPair {α : Type} (mk : Bytes → Bytes → α) : Decoder α := do
  let s ← varLenDecodeBytesInt
  let d ← varLenDecodeBytesInt
  return mk s d

theorem ofDecoder_varLenPair {α : Type} (mk : Bytes → Bytes → α) :
    Reader.ofDecoder (varLenPair mk) = (do
      let s ← Reader.ofDecoder varLenDecodeBytesInt
      let d ← Reader.ofDecoder varLenDecodeBytesInt
      return mk s d) := by
  rw [varLenPair, Reader.ofDecoder_bind]
  simp only [Reader.ofDecoder_map]

/-- They are the fields of a value built from both. -/
theorem parses_varLenPair {α : Type} (mk : Bytes → Bytes → α) :
    Parses (varLenPair mk) (fun w a => ∃ w₁ w₂ s d, w = w₁ ++ w₂ ∧ CountedWord w₁ s ∧ CountedWord w₂ d ∧ a = mk s d) := by
  refine Parses.congr (parses_varLenDecodeBytesInt.bind fun s => parses_varLenDecodeBytesInt.map (mk s)) fun w a => ?_
  constructor
  · intro h
    rcases h with ⟨w₁, w₂, s, rfl, hs, d, hd, rfl⟩
    exact ⟨w₁, w₂, s, d, rfl, hs, hd, rfl⟩
  · intro h
    rcases h with ⟨w₁, w₂, s, d, rfl, hs, hd, rfl⟩
    exact ⟨w₁, w₂, s, rfl, hs, d, hd, rfl⟩

/-- The decoder of an action, as far as no count of it is narrowed. -/
def ptpActionDecoder : Decoder PtpAction := do
  let type ← extractPtpActionT
  match type with
  | .endpoint => do
    let e ← extractPtpEndpoint
    return ⟨.endpoint, .endpoint e⟩
  | .localConn => do
    let c ← varLenPair fun s d => (⟨⟨s⟩, ⟨d⟩⟩ : PtpLocalConn)
    return ⟨.localConn, .localConn c⟩
  | .netSwitch => do
    let s ← varLenPair fun s d => (⟨⟨s⟩, ⟨d⟩⟩ : PtpNetSwitch)
    return ⟨.netSwitch, .netSwitch s⟩

/-- It accepts the words of `PtpActionWord`. -/
theorem parses_ptpActionDecoder : Parses ptpActionDecoder PtpActionWord := by
  have h : Parses ptpActionDecoder
      (Fmt.seq (fun w (t : PtpActionT) => w = [t.toByte]) fun t w a => PtpActionWord (t.toByte :: w) a) := by
    refine parses_extractPtpActionT.bind fun t => ?_
    cases t with
    | endpoint =>
      refine Parses.congr (parses_extractPtpEndpoint.map fun e => (⟨.endpoint, .endpoint e⟩ : PtpAction)) fun w a => ?_
      constructor
      · intro h
        rcases h with ⟨e, rfl, rfl⟩
        exact .endpoint e.type
      · intro hw
        cases hw with
        | endpoint t => exact ⟨⟨t⟩, rfl, rfl⟩
    | localConn =>
      have hc := parses_varLenPair fun s d => (⟨⟨s⟩, ⟨d⟩⟩ : PtpLocalConn)
      refine Parses.congr (hc.map fun c => (⟨.localConn, .localConn c⟩ : PtpAction)) fun w a => ?_
      constructor
      · intro h
        rcases h with ⟨c, ⟨w₁, w₂, s, d, rfl, hs, hd, rfl⟩, rfl⟩
        exact .localConn hs hd
      · intro hw
        cases hw with
        | localConn hs hd => exact ⟨_, ⟨_, _, _, _, rfl, hs, hd, rfl⟩, rfl⟩
    | netSwitch =>
      have hc := parses_varLenPair fun s d => (⟨⟨s⟩, ⟨d⟩⟩ : PtpNetSwitch)
      refine Parses.congr (hc.map fun c => (⟨.netSwitch, .netSwitch c⟩ : PtpAction)) fun w a => ?_
      constructor
      · intro h
        rcases h with ⟨c, ⟨w₁, w₂, s, d, rfl, hs, hd, rfl⟩, rfl⟩
        exact .netSwitch hs hd
      · intro hw
        cases hw with
        | netSwitch hs hd => exact ⟨_, ⟨_, _, _, _, rfl, hs, hd, rfl⟩, rfl⟩
  refine h.congr fun w a => ?_
  constructor
  · intro h
    rcases h with ⟨w₁, w₂, t, rfl, rfl, hw⟩
    exact hw
  · intro hw
    obtain ⟨w', rfl⟩ : ∃ w', w = a.type.toByte :: w' := by cases hw <;> exact ⟨_, rfl⟩
    exact ⟨[a.type.toByte], w', a.type, rfl, rfl, hw⟩

/-- What an action's functions return as `int`s may as well be narrowed at the end. -/
theorem extractPtpAction_eq : extractPtpAction = Reader.narrowed (Reader.ofDecoder ptpActionDecoder) := by
  rw [extractPtpAction, ptpActionDecoder, Reader.ofDecoder_bind]
  apply Reader.narrowed_bind_congr
  intro type
  cases type with
  | endpoint => rw [Reader.ofDecoder_map]
  | localConn => rw [Reader.ofDecoder_map, extractPtpLocalConn, ← ofDecoder_varLenPair, Reader.narrowed_map_narrowed]
  | netSwitch => rw [Reader.ofDecoder_map, extractPtpNetSwitch, ← ofDecoder_varLenPair, Reader.narrowed_map_narrowed]

/-- An action is read from a byte of the packet on. -/
theorem lt_of_ptpActionDecoder {p : Bytes} {i k : Nat} {a : PtpAction} (h : ptpActionDecoder.run p i = .ok (a, k)) :
    i < p.length := by
  obtain ⟨t, _, _, ht, -, -⟩ := (run_bind_ok_iff ..).mp h
  obtain ⟨b, _, _, hb, -, -⟩ := (run_bind_ok_iff ..).mp ht
  obtain ⟨hlt, -⟩ := List.getElem?_eq_some_iff.mp ((run_byte_ok_iff ..).mp hb).1
  exact hlt

theorem PtpActionWord.ne_nil {w : Bytes} {a : PtpAction} (h : PtpActionWord w a) : w ≠ [] := by
  cases h with
  | endpoint t => exact List.cons_ne_nil _ _
  | localConn _ _ => exact List.cons_ne_nil _ _
  | netSwitch _ _ => exact List.cons_ne_nil _ _

/-- The decoder of an action returns the actions that lie in the packet. -/
theorem extractPtpAction_ok_iff (p : Bytes) (o : Int) (a : PtpAction) (n : Int) :
    extractPtpAction.run p o = .ok (a, n) ↔ PtpActionAt p o a n := by
  rw [extractPtpAction_eq, Reader.run_narrowed_ofDecoder_ok_iff]
  have hparses (i k : Nat) (hi : i ≤ p.length) : ptpActionDecoder.run p i = .ok (a, k) ↔
      ∃ w post, p.drop i = w ++ post ∧ PtpActionWord w a ∧ k = w.length := by
    have h := parses_ptpActionDecoder (p.take i) (p.drop i) a k
    rwa [List.take_append_drop, List.length_take_of_le hi] at h
  constructor
  · intro h
    obtain ⟨i, k, ho, hn, hrun⟩ := h
    obtain ⟨w, post, hdrop, hw, rfl⟩ := (hparses i k (Nat.le_of_lt (lt_of_ptpActionDecoder hrun))).mp hrun
    exact ⟨i, w, post, ho, hdrop, hw, hn⟩
  · intro h
    obtain ⟨i, w, post, ho, hdrop, hw, hn⟩ := h
    have hi : i ≤ p.length := by
      by_contra hlt
      rw [List.drop_eq_nil_of_le (by omega)] at hdrop
      exact hw.ne_nil (List.append_eq_nil_iff.mp hdrop.symm).1
    exact ⟨i, w.length, ho, hn, (hparses i _ hi).mpr ⟨w, post, hdrop, hw, rfl⟩⟩

/-- The decoder of a header returns the header that lies at the start of the packet, and its size. -/
theorem extractPtpHeader_ok_iff (data : Bytes) (h : PtpHeader) (sz : Int) :
    extractPtpHeader.run data 0 = .ok (h, sz) ↔ PtpHeaderAt data h sz := by
  rw [extractPtpHeader, Reader.run_narrowed_ok_iff]
  constructor
  · intro hrun
    obtain ⟨_, hall, hsz⟩ := hrun
    obtain ⟨k, _, _, hcount, hrest, rfl⟩ := (Reader.run_bind_ok_iff ..).mp hall
    obtain ⟨actions, m, _, hactions, htail, rfl⟩ := (Reader.run_bind_ok_iff ..).mp hrest
    obtain ⟨currAction, _, _, hindex, hlast, rfl⟩ := (Reader.run_bind_ok_iff ..).mp htail
    obtain ⟨noJumps, _, _, hbyte, hpure, rfl⟩ := (Reader.run_bind_ok_iff ..).mp hlast
    obtain ⟨rfl, rfl⟩ := (Reader.run_pure_ok_iff ..).mp hpure
    obtain ⟨i₀, _, hi₀, rfl, hread₀⟩ := (Reader.run_ofDecoder_ok_iff ..).mp hcount
    obtain ⟨e, _, he, rfl, hread₁⟩ := (Reader.run_ofDecoder_ok_iff ..).mp hindex
    obtain ⟨e', _, he', rfl, hread₂⟩ := (Reader.run_ofDecoder_ok_iff ..).mp hbyte
    obtain ⟨hk, rfl⟩ := (run_byte_ok_iff ..).mp hread₀
    obtain ⟨hcurr, rfl⟩ := (run_byte_ok_iff ..).mp hread₁
    obtain ⟨hjumps, rfl⟩ := (run_byte_ok_iff ..).mp hread₂
    obtain rfl : i₀ = 0 := by omega
    obtain rfl : e' = e + 1 := by omega
    have hend : ((1 : Nat) : Int) + (m + (((1 : Nat) : Int) + (((1 : Nat) : Int) + 0))) = (e + 2 : Nat) := by omega
    rw [hend] at hsz
    refine ⟨k, m, e, hk, ?_, by omega, hcurr, hjumps, hsz⟩
    exact (Reader.run_times_ok_iff (extractPtpAction_ok_iff data) ..).mp hactions
  · intro hat
    obtain ⟨k, m, e, hk, hrow, he, hcurr, hjumps, hsz⟩ := hat
    have hend : 1 + (m + (1 + (1 + 0))) = ((e + 2 : Nat) : Int) := by omega
    refine ⟨1 + (m + (1 + (1 + 0))), ?_, by rw [hend]; exact hsz⟩
    refine (Reader.run_bind_ok_iff ..).mpr ⟨k, 1, _, ?_, ?_, rfl⟩
    · exact (Reader.run_ofDecoder_ok_iff ..).mpr ⟨0, 1, rfl, rfl, (run_byte_ok_iff ..).mpr ⟨hk, rfl⟩⟩
    refine (Reader.run_bind_ok_iff ..).mpr ⟨h.actions, m, _, ?_, ?_, rfl⟩
    · exact (Reader.run_times_ok_iff (extractPtpAction_ok_iff data) ..).mpr hrow
    refine (Reader.run_bind_ok_iff ..).mpr ⟨h.currAction, 1, _, ?_, ?_, rfl⟩
    · exact (Reader.run_ofDecoder_ok_iff ..).mpr ⟨e, 1, by omega, rfl, (run_byte_ok_iff ..).mpr ⟨hcurr, rfl⟩⟩
    refine (Reader.run_bind_ok_iff ..).mpr ⟨h.noJumps, 1, 0, ?_, ?_, rfl⟩
    · exact (Reader.run_ofDecoder_ok_iff ..).mpr ⟨e + 1, 1, by omega, rfl, (run_byte_ok_iff ..).mpr ⟨hjumps, rfl⟩⟩
    exact (Reader.run_pure_ok_iff ..).mpr ⟨rfl, rfl⟩

/-! ## What the encoder writes -/

/-- The word the encoder writes for a tagged action. -/
def ptpActionBytes (a : PtpAction) : Bytes :=
  match a.val with
  | .endpoint e => a.type.toByte :: writePtpEndpoint e
  | .localConn c => a.type.toByte :: writePtpLocalConn c
  | .netSwitch s => a.type.toByte :: writePtpNetSwitch s

theorem writePtpAction_eq {a : PtpAction} (h : a.Tagged) : writePtpAction a = .ok (ptpActionBytes a) := by
  obtain ⟨type, val⟩ := a
  cases type <;> cases val <;> first | rfl | exact h.elim

theorem countedWord_encode {v : Bytes} (h : (varLenEncodeBytes v).length < 2 ^ 31) : CountedWord (varLenEncodeBytes v) v :=
  ⟨varLenWord_encode v, h⟩

theorem ptpActionWord_bytes {a : PtpAction} (h : a.Tagged) (hlen : (ptpActionBytes a).length < 2 ^ 31) :
    PtpActionWord (ptpActionBytes a) a := by
  obtain ⟨type, val⟩ := a
  cases type <;> cases val <;> first | exact h.elim | skip
  · exact .endpoint _
  · simp only [ptpActionBytes, writePtpLocalConn, List.length_cons, List.length_append] at hlen
    exact .localConn (countedWord_encode (by omega)) (countedWord_encode (by omega))
  · simp only [ptpActionBytes, writePtpNetSwitch, List.length_cons, List.length_append] at hlen
    exact .netSwitch (countedWord_encode (by omega)) (countedWord_encode (by omega))

/-- A tagged action that is not too long round trips. -/
theorem roundTrips_ptpAction {a : PtpAction} (h : a.Tagged) (hlen : (ptpActionBytes a).length < 2 ^ 31) :
    extractPtpAction.RoundTrips (ptpActionBytes a) a := by
  rw [extractPtpAction_eq]
  exact (Reader.roundTrips_ofDecoder (parses_ptpActionDecoder.roundTrips (ptpActionWord_bytes h hlen))).narrowed hlen

/-- An action the decoder returns is tagged. -/
theorem PtpActionAt.tagged {p : Bytes} {o n : Int} {a : PtpAction} (h : PtpActionAt p o a n) : a.Tagged := by
  obtain ⟨_, w, _, -, -, hw, -⟩ := h
  cases hw <;> exact trivial

/-- The word the encoder writes for a header of tagged actions. -/
def ptpHeaderBytes (h : PtpHeader) : Bytes :=
  UInt8.ofNat h.actions.length :: ((h.actions.map ptpActionBytes).flatten ++ [h.currAction, h.noJumps])

theorem writePtpHeader_eq {h : PtpHeader} (hlen : h.actions.length ≤ 255) (htag : ∀ a ∈ h.actions, a.Tagged) :
    writePtpHeader h = .ok (ptpHeaderBytes h) := by
  have hlt : h.actions.length < 256 := by omega
  unfold writePtpHeader
  rw [mapM_eq_ok fun a ha => writePtpAction_eq (htag a ha)]
  simp only [hlt, not_true_eq_false, if_false]
  rfl

/-- An action is not longer than its header. -/
theorem length_ptpActionBytes_le {h : PtpHeader} {a : PtpAction} (ha : a ∈ h.actions) :
    (ptpActionBytes a).length ≤ (ptpHeaderBytes h).length := by
  have hsub := List.sublist_flatten_of_mem (List.mem_map_of_mem (f := ptpActionBytes) ha)
  have hle := hsub.length_le
  simp only [ptpHeaderBytes, List.length_cons, List.length_append]
  omega

/-- The encoded header round trips when it is not too long. -/
theorem roundTrips_ptpHeader {h : PtpHeader} (hlen : h.actions.length ≤ 255) (htag : ∀ a ∈ h.actions, a.Tagged)
    (hsize : (ptpHeaderBytes h).length < 2 ^ 31) : extractPtpHeader.RoundTrips (ptpHeaderBytes h) h := by
  have hn : (UInt8.ofNat h.actions.length).toNat = h.actions.length := by
    rw [UInt8.toNat_ofNat', Nat.mod_eq_of_lt (by omega)]
  have hactions : (extractPtpAction.times h.actions.length).RoundTrips (h.actions.flatMap ptpActionBytes) h.actions :=
    Reader.RoundTrips.times fun a ha => roundTrips_ptpAction (htag a ha) (Nat.lt_of_le_of_lt (length_ptpActionBytes_le ha) hsize)
  refine Reader.RoundTrips.narrowed ?_ hsize
  refine (Reader.roundTrips_ofDecoder (roundTrips_byte (UInt8.ofNat h.actions.length))).bind ?_
  rw [hn, ← List.flatMap_def]
  refine hactions.bind ?_
  refine (Reader.roundTrips_ofDecoder (roundTrips_byte h.currAction)).bind ?_
  exact (Reader.roundTrips_ofDecoder (roundTrips_byte h.noJumps)).map _

/-- What the encoder writes, and a payload behind it, is a packet. -/
theorem ptpPacket_bytes {h : PtpHeader} (hlen : h.actions.length ≤ 255) (htag : ∀ a ∈ h.actions, a.Tagged)
    (hsize : (ptpHeaderBytes h).length < 2 ^ 31) (payload : Bytes) : PtpPacket (ptpHeaderBytes h ++ payload) h payload := by
  have hrun := (roundTrips_ptpHeader hlen htag hsize).run_append payload
  exact ⟨_, (extractPtpHeader_ok_iff ..).mp hrun, List.drop_left.symm⟩

/-! ## What a decoded header is -/

/-- A header the decoder returns has at most 255 actions, all tagged. -/
theorem PtpHeaderAt.wellFormed {p : Bytes} {h : PtpHeader} {sz : Int} (hat : PtpHeaderAt p h sz) :
    h.actions.length ≤ 255 ∧ ∀ a ∈ h.actions, a.Tagged := by
  obtain ⟨k, _, _, -, hrow, -⟩ := hat
  have hk := k.toNat_lt
  have hlen := hrow.length_eq
  exact ⟨by omega, hrow.forall_mem fun _ _ _ hat => hat.tagged⟩

theorem PtpPacket.wellFormed {data payload : Bytes} {h : PtpHeader} (hp : PtpPacket data h payload) :
    h.actions.length ≤ 255 ∧ ∀ a ∈ h.actions, a.Tagged := by
  obtain ⟨n, hat, -⟩ := hp
  exact hat.wellFormed

/-- The size of a header is not more than its packet has. -/
theorem PtpHeaderAt.size_le {p : Bytes} {h : PtpHeader} {n : Nat} (hat : PtpHeaderAt p h n) : n ≤ p.length := by
  obtain ⟨_, _, e, -, -, -, -, hjumps, hsz⟩ := hat
  obtain ⟨hlt, -⟩ := List.getElem?_eq_some_iff.mp hjumps
  have hle := narrow_le (e + 2)
  omega

end NetworkingFramework
