import NetworkingFramework.Lemmas.DnsLayout
import Mathlib.Data.List.Basic

/-!
# DNS names round trip

A name is made of labels (`NameOver`). Its encoded form is the labels behind their lengths (`nameBytes_joinLabels`), which
`decode_dns_name` joins again (`decodeDnsName_encodeLabels`), and which `extract_encoded_name` takes from a packet as it lies
there as long as no byte of it looks like a jump (`nameAt_plain`). All of them return as long as an `int` counts the bytes.
-/

namespace NetworkingFramework

open Wire Wire.Decoder

/-! ## Labels -/

/-- The labels joined by dots. -/
def joinLabels (labels : List Bytes) : Bytes := [dot].intercalate labels

/-- The labels, each behind its length. -/
def encodeLabels (labels : List Bytes) : Bytes := labels.flatMap fun l => UInt8.ofNat l.length :: l

/-- The name is one or more labels of 1 to 63 bytes from a set, joined by dots and closed by a null byte. -/
def NameOver (ok : UInt8 → Prop) (name : Bytes) : Prop :=
  ∃ labels, labels ≠ [] ∧ (∀ l ∈ labels, 1 ≤ l.length ∧ l.length ≤ 63 ∧ ∀ b ∈ l, ok b) ∧ name = joinLabels labels ++ [0]

/-- A byte that a label may hold: no end, no dot and no jump. -/
def Plain (b : UInt8) : Prop := b ≠ 0 ∧ b ≠ dot ∧ b &&& jumpMask ≠ jumpMask

/-- An ASCII byte that is no dot and no end. -/
def AsciiByte (b : UInt8) : Prop := b.toNat < 128 ∧ b ≠ 0 ∧ b ≠ dot

/-- A letter, a digit, a hyphen or an underscore. -/
def HostByte (b : UInt8) : Prop := 97 ≤ b ∧ b ≤ 122 ∨ 65 ≤ b ∧ b ≤ 90 ∨ 48 ≤ b ∧ b ≤ 57 ∨ b = 45 ∨ b = 95

/-- An ASCII byte does not look like a jump. -/
theorem AsciiByte.plain {b : UInt8} (h : AsciiByte b) : Plain b := by
  have hall : ∀ k : Fin 128, UInt8.ofNat k.val &&& jumpMask ≠ jumpMask := by decide
  have hjump := hall ⟨b.toNat, h.1⟩
  rw [UInt8.ofNat_toNat] at hjump
  exact ⟨h.2.1, h.2.2, hjump⟩

theorem HostByte.ascii {b : UInt8} (h : HostByte b) : AsciiByte b := by
  have hzero : b = 0 → b.toNat = 0 := fun hb => by rw [hb]; rfl
  have hdot : b = dot → b.toNat = 46 := fun hb => by rw [hb]; rfl
  have hrange : b.toNat < 128 ∧ b.toNat ≠ 0 ∧ b.toNat ≠ 46 := by
    rcases h with h | h | h | rfl | rfl
    · have hlo : 97 ≤ b.toNat := h.1
      have hhi : b.toNat ≤ 122 := h.2
      omega
    · have hlo : 65 ≤ b.toNat := h.1
      have hhi : b.toNat ≤ 90 := h.2
      omega
    · have hlo : 48 ≤ b.toNat := h.1
      have hhi : b.toNat ≤ 57 := h.2
      omega
    · decide
    · decide
  exact ⟨hrange.1, fun hb => hrange.2.1 (hzero hb), fun hb => hrange.2.2 (hdot hb)⟩

theorem joinLabels_cons (l : Bytes) (ls : List Bytes) : joinLabels (l :: ls) = l ++ ls.flatMap (dot :: ·) := by
  induction ls generalizing l with
  | nil => simp [joinLabels]
  | cons l' ls ih =>
    have hjoin : joinLabels (l :: l' :: ls) = l ++ ([dot] ++ joinLabels (l' :: ls)) := by
      simp [joinLabels, List.intercalate, List.intersperse]
    rw [hjoin, ih, List.flatMap_cons]
    rfl

/-- The bytes of a label are bytes of the name. -/
theorem mem_joinLabels_of_mem {labels : List Bytes} {l : Bytes} {b : UInt8} (hl : l ∈ labels) (hb : b ∈ l) :
    b ∈ joinLabels labels := by
  cases labels with
  | nil => exact absurd hl List.not_mem_nil
  | cons first labels =>
    rw [joinLabels_cons, List.mem_append]
    rcases List.mem_cons.mp hl with rfl | hl
    · exact .inl hb
    · exact .inr (List.mem_flatMap.mpr ⟨l, hl, List.mem_cons_of_mem dot hb⟩)

/-! ## Encoding -/

/-- What the loop of `encode_dns_name` pushes for what is left of a name. -/
def nameBytesLoop (label : Bytes) : Bytes → Bytes
  | [] => []
  | b :: rest =>
    if b = dot ∨ rest = [] then UInt8.ofNat label.length :: label ++ nameBytesLoop [] rest
    else nameBytesLoop (label ++ [b]) rest

/-- What a name is encoded as. -/
def nameBytes (data : Bytes) : Bytes := nameBytesLoop [] data ++ [0]

/-- The loop counts the bytes of the name. -/
theorem encodeDnsNameLoop_ok_iff {curr : Nat} (hcurr : curr < 2 ^ 31) (label data w : Bytes) :
    encodeDnsNameLoop label curr data = .ok w ↔ curr + data.length < 2 ^ 31 ∧ w = nameBytesLoop label data := by
  induction data generalizing curr label w with
  | nil =>
    rw [encodeDnsNameLoop, nameBytesLoop, Except.ok.injEq, List.length_nil, Nat.add_zero]
    exact ⟨fun h => ⟨hcurr, h.symm⟩, fun h => h.2.symm⟩
  | cons b rest ih =>
    rw [encodeDnsNameLoop, nameBytesLoop, bind_eq_ok_iff, List.length_cons]
    constructor
    · rintro ⟨next, hnext, h⟩
      obtain ⟨hlt, rfl⟩ := (addInt_ok_iff ..).mp hnext
      split at h
      · rename_i hends
        obtain ⟨tail, htail, h⟩ := (bind_eq_ok_iff _ _ _).mp h
        obtain ⟨hlen, rfl⟩ := (ih hlt ..).mp htail
        obtain rfl := Except.ok.inj h
        exact ⟨by omega, by rw [if_pos hends]⟩
      · rename_i hgo
        obtain ⟨hlen, rfl⟩ := (ih hlt ..).mp h
        exact ⟨by omega, by rw [if_neg hgo]⟩
    · rintro ⟨hlen, rfl⟩
      have hlt : curr + 1 < 2 ^ 31 := by omega
      refine ⟨curr + 1, addInt_of_lt hlt, ?_⟩
      split
      · exact (bind_eq_ok_iff _ _ _).mpr ⟨_, (ih hlt ..).mpr ⟨by omega, rfl⟩, rfl⟩
      · exact (ih hlt ..).mpr ⟨by omega, rfl⟩

/-- A name is encoded when an `int` counts its bytes. -/
theorem encodeDnsName_ok_iff (data w : Bytes) : encodeDnsName data = .ok w ↔ data.length < 2 ^ 31 ∧ w = nameBytes data := by
  rw [encodeDnsName, bind_eq_ok_iff]
  constructor
  · rintro ⟨labels, hlabels, h⟩
    obtain ⟨hlen, rfl⟩ := (encodeDnsNameLoop_ok_iff (Nat.two_pow_pos 31) ..).mp hlabels
    exact ⟨by omega, (Except.ok.inj h).symm⟩
  · rintro ⟨hlen, rfl⟩
    exact ⟨_, (encodeDnsNameLoop_ok_iff (Nat.two_pow_pos 31) ..).mpr ⟨by omega, rfl⟩, rfl⟩

theorem encodeDnsName_of_lt {data : Bytes} (h : data.length < 2 ^ 31) : encodeDnsName data = .ok (nameBytes data) :=
  (encodeDnsName_ok_iff ..).mpr ⟨h, rfl⟩

theorem length_nameBytesLoop (label name : Bytes) :
    (nameBytesLoop label name).length = if name = [] then 0 else label.length + name.length := by
  fun_induction nameBytesLoop label name with
  | case1 label => rfl
  | case2 label b rest hends ih =>
    rw [if_neg (List.cons_ne_nil b rest), List.length_append, List.length_cons, List.length_cons, ih]
    split
    · rename_i hnil
      rw [hnil]
      rfl
    · rw [List.length_nil]
      omega
  | case3 label b rest hgo ih =>
    have hrest : rest ≠ [] := fun h => hgo (.inr h)
    rw [ih, if_neg hrest, if_neg (List.cons_ne_nil b rest), List.length_append, List.length_singleton, List.length_cons]
    omega

/-- A name is one byte longer when it is encoded. -/
theorem length_nameBytes (name : Bytes) : (nameBytes name).length = name.length + 1 := by
  rw [nameBytes, List.length_append, length_nameBytesLoop, List.length_singleton]
  split
  · rename_i h
    rw [h]
    rfl
  · rw [List.length_nil, Nat.zero_add]

/-- The loop passes over bytes that are no dots and not the last. -/
theorem nameBytesLoop_append {label l rest : Bytes} (hl : ∀ b ∈ l, b ≠ dot) (hrest : rest ≠ []) :
    nameBytesLoop label (l ++ rest) = nameBytesLoop (label ++ l) rest := by
  induction l generalizing label with
  | nil => rw [List.nil_append, List.append_nil]
  | cons b l ih =>
    have hgo : ¬(b = dot ∨ l ++ rest = []) := by
      intro h
      rcases h with h | h
      · exact hl b List.mem_cons_self h
      · exact hrest (List.append_eq_nil_iff.mp h).2
    rw [List.cons_append, nameBytesLoop, if_neg hgo, ih fun c hc => hl c (List.mem_cons_of_mem b hc)]
    rw [List.append_assoc, List.singleton_append]

/-- The loop ends a label at a dot and at the last byte. -/
theorem nameBytesLoop_cons {label rest : Bytes} {b : UInt8} (h : b = dot ∨ rest = []) :
    nameBytesLoop label (b :: rest) = UInt8.ofNat label.length :: label ++ nameBytesLoop [] rest := by
  rw [nameBytesLoop, if_pos h]

theorem nameBytesLoop_joinLabels {labels : List Bytes} (hne : labels ≠ []) (hdot : ∀ l ∈ labels, ∀ b ∈ l, b ≠ dot) :
    nameBytesLoop [] (joinLabels labels ++ [0]) = encodeLabels labels := by
  induction labels with
  | nil => exact absurd rfl hne
  | cons l ls ih =>
    have hl : ∀ b ∈ l, b ≠ dot := hdot l List.mem_cons_self
    cases ls with
    | nil =>
      rw [joinLabels_cons, List.flatMap_nil, List.append_nil, nameBytesLoop_append hl (by simp),
        nameBytesLoop_cons (.inr rfl)]
      simp [encodeLabels, nameBytesLoop]
    | cons l' ls =>
      have hsplit : joinLabels (l :: l' :: ls) ++ [0] = l ++ (dot :: (joinLabels (l' :: ls) ++ [0])) := by
        rw [joinLabels_cons, joinLabels_cons, List.flatMap_cons]
        simp
      have hrest := ih (by simp) fun x hx => hdot x (List.mem_cons_of_mem l hx)
      rw [hsplit, nameBytesLoop_append hl (by simp), nameBytesLoop_cons (.inl rfl), hrest]
      simp [encodeLabels]

/-- The encoded form of a name is its labels behind their lengths, and a null byte. -/
theorem nameBytes_joinLabels {labels : List Bytes} (hne : labels ≠ []) (hdot : ∀ l ∈ labels, ∀ b ∈ l, b ≠ dot) :
    nameBytes (joinLabels labels ++ [0]) = encodeLabels labels ++ [0] := by
  rw [nameBytes, nameBytesLoop_joinLabels hne hdot]

/-! ## Decoding -/

/-- The inner loop takes a label that is there. -/
theorem decodeDnsNameLoop_label {i : Nat} {l : Bytes} (hlt : i + l.length < 2 ^ 31) (res name : Bytes) :
    decodeDnsNameLoop l.length i res (l ++ name) = decodeDnsNameLoop 0 (i + l.length) (res ++ l) name := by
  induction l generalizing i res with
  | nil => rw [List.length_nil, List.nil_append, List.append_nil, Nat.add_zero]
  | cons b l ih =>
    rw [List.length_cons] at hlt
    have hnext : i + 1 + l.length < 2 ^ 31 := by omega
    have hcount : i + 1 + l.length = i + (l.length + 1) := by omega
    rw [List.length_cons, List.cons_append, decodeDnsNameLoop, addInt_of_lt (by omega), ok_bind, ih hnext, List.append_assoc,
      List.singleton_append, hcount]

/-- The outer loop on a label behind its length. -/
theorem decodeDnsNameLoop_encoded {i : Nat} {l : Bytes} (hpos : 1 ≤ l.length) (hle : l.length ≤ 63)
    (hlt : i + 1 + l.length < 2 ^ 31) (res name : Bytes) :
    decodeDnsNameLoop 0 i res (UInt8.ofNat l.length :: l ++ name) =
      decodeDnsNameLoop 0 (i + 1 + l.length) ((if res = [] then res else res ++ [dot]) ++ l) name := by
  have hlen : (UInt8.ofNat l.length).toNat = l.length := by
    rw [UInt8.toNat_ofNat', Nat.mod_eq_of_lt (by omega)]
  have hne : UInt8.ofNat l.length ≠ 0 := by
    intro h
    have hzero : (UInt8.ofNat l.length).toNat = 0 := by rw [h]; rfl
    omega
  rw [List.cons_append, decodeDnsNameLoop, if_neg hne, addInt_of_lt (by omega), ok_bind, hlen, decodeDnsNameLoop_label hlt]

theorem encodeLabels_cons (l : Bytes) (ls : List Bytes) :
    encodeLabels (l :: ls) = UInt8.ofNat l.length :: l ++ encodeLabels ls := rfl

theorem decodeDnsNameLoop_encodeLabels {i : Nat} {labels : List Bytes} {res : Bytes} (hres : res ≠ [])
    (hlen : ∀ l ∈ labels, 1 ≤ l.length ∧ l.length ≤ 63) (hlt : i + (encodeLabels labels).length < 2 ^ 31) :
    decodeDnsNameLoop 0 i res (encodeLabels labels ++ [0]) = .ok (res ++ labels.flatMap (dot :: ·) ++ [0]) := by
  induction labels generalizing i res with
  | nil => simp [encodeLabels, decodeDnsNameLoop]
  | cons l ls ih =>
    obtain ⟨hpos, hle⟩ := hlen l List.mem_cons_self
    rw [encodeLabels_cons, List.length_append, List.length_cons] at hlt
    rw [encodeLabels_cons, List.append_assoc, decodeDnsNameLoop_encoded hpos hle (by omega), if_neg hres,
      ih (by simp) (fun x hx => hlen x (List.mem_cons_of_mem l hx)) (by omega), List.flatMap_cons]
    simp

/-- Decoding labels behind their lengths joins them. -/
theorem decodeDnsName_encodeLabels {labels : List Bytes} (hne : labels ≠ [])
    (hlen : ∀ l ∈ labels, 1 ≤ l.length ∧ l.length ≤ 63) (hlt : (encodeLabels labels).length < 2 ^ 31) :
    decodeDnsName (encodeLabels labels ++ [0]) = .ok (joinLabels labels ++ [0]) := by
  cases labels with
  | nil => exact absurd rfl hne
  | cons l ls =>
    obtain ⟨hpos, hle⟩ := hlen l List.mem_cons_self
    have hl : l ≠ [] := by
      intro h
      rw [h] at hpos
      simp at hpos
    rw [encodeLabels_cons, List.length_append, List.length_cons] at hlt
    rw [decodeDnsName, encodeLabels_cons, List.append_assoc, decodeDnsNameLoop_encoded hpos hle (by omega), if_pos rfl,
      List.nil_append, decodeDnsNameLoop_encodeLabels hl (fun x hx => hlen x (List.mem_cons_of_mem l hx)) (by omega),
      joinLabels_cons]

/-! ## Extracting -/

/-- Bytes that neither end a name nor jump, and a null byte, are a name. -/
theorem nameAt_plain {enc : Bytes} (henc : ∀ b ∈ enc, b ≠ 0 ∧ b &&& jumpMask ≠ jumpMask) (pre post : Bytes) :
    NameAt (pre ++ (enc ++ [0]) ++ post) pre.length (enc ++ [0]) (enc ++ [0]).length := by
  induction enc generalizing pre with
  | nil => exact .stop (by simp)
  | cons b enc ih =>
    obtain ⟨hzero, hjump⟩ := henc b List.mem_cons_self
    have hrest := ih (fun c hc => henc c (List.mem_cons_of_mem b hc)) (pre ++ [b])
    have hpacket : pre ++ [b] ++ (enc ++ [0]) ++ post = pre ++ (b :: enc ++ [0]) ++ post := by simp
    have hoff : (pre ++ [b]).length = pre.length + 1 := by simp
    rw [hpacket, hoff] at hrest
    exact .byte (by simp) hzero hjump hrest

theorem length_byte_not_jump {n : Nat} (hle : n ≤ 63) : UInt8.ofNat n &&& jumpMask ≠ jumpMask := by
  have hall : ∀ k : Fin 64, UInt8.ofNat k.val &&& jumpMask ≠ jumpMask := by decide
  exact hall ⟨n, Nat.lt_succ_of_le hle⟩

/-- A length of 1 to 63 neither ends a name nor jumps. -/
theorem length_byte_plain {n : Nat} (hpos : 1 ≤ n) (hle : n ≤ 63) :
    UInt8.ofNat n ≠ 0 ∧ UInt8.ofNat n &&& jumpMask ≠ jumpMask := by
  have hall : ∀ k : Fin 64, 1 ≤ k.val → UInt8.ofNat k.val ≠ 0 := by decide
  exact ⟨hall ⟨n, Nat.lt_succ_of_le hle⟩ hpos, length_byte_not_jump hle⟩

/-- The encoded form of a name of plain labels is a name, wherever it lies. -/
theorem NameOver.nameAt {name : Bytes} (h : NameOver Plain name) (pre post : Bytes) :
    NameAt (pre ++ nameBytes name ++ post) pre.length (nameBytes name) (nameBytes name).length := by
  obtain ⟨labels, hne, hlabels, rfl⟩ := h
  rw [nameBytes_joinLabels hne fun l hl b hb => ((hlabels l hl).2.2 b hb).2.1]
  refine nameAt_plain (fun b hb => ?_) pre post
  obtain ⟨l, hl, hbl⟩ := List.mem_flatMap.mp hb
  obtain ⟨hpos, hle, hbytes⟩ := hlabels l hl
  rcases List.mem_cons.mp hbl with rfl | hbl
  · exact length_byte_plain hpos hle
  · exact ⟨(hbytes b hbl).1, (hbytes b hbl).2.2⟩

/-- It is decoded to the name. -/
theorem NameOver.decode {name : Bytes} (h : NameOver Plain name) (hlt : name.length + 1 < 2 ^ 31) :
    decodeDnsName (nameBytes name) = .ok name := by
  have hlen := length_nameBytes name
  obtain ⟨labels, hne, hlabels, rfl⟩ := h
  rw [nameBytes_joinLabels hne fun l hl b hb => ((hlabels l hl).2.2 b hb).2.1] at hlen ⊢
  rw [List.length_append, List.length_singleton] at hlen
  exact decodeDnsName_encodeLabels hne (fun l hl => ⟨(hlabels l hl).1, (hlabels l hl).2.1⟩) (by omega)

/-- A name of plain labels round trips. -/
theorem roundTrips_dnsName {name : Bytes} (h : NameOver Plain name) (hlt : name.length + 1 < 2 ^ 31) :
    extractDnsName.RoundTrips (nameBytes name) name := by
  intro pre post
  have hcount : (nameBytes name).length < 2 ^ 31 := by rwa [length_nameBytes]
  exact (extractDnsName_returns_iff_decoded ..).mpr ⟨_, _, _, rfl, rfl, h.nameAt pre post, hcount, h.decode hlt⟩

theorem NameOver.mono {ok ok' : UInt8 → Prop} {name : Bytes} (h : NameOver ok name) (hok : ∀ b, ok b → ok' b) :
    NameOver ok' name := by
  obtain ⟨labels, hne, hlabels, hname⟩ := h
  exact ⟨labels, hne, fun l hl => ⟨(hlabels l hl).1, (hlabels l hl).2.1, fun b hb => hok b ((hlabels l hl).2.2 b hb)⟩, hname⟩

end NetworkingFramework
