import NetworkingFramework.Lemmas.DnsLayout
import NetworkingFramework.Lemmas.DnsNames

/-!
# Compressed names

A compressed name is labels and then a null byte or a pointer to another name (`CompressedName`). `extract_encoded_name` knows
neither labels nor where one begins; on a compressed name whose label bytes do not look like pointers it collects the labels
met along the pointers, as `encode_dns_name` would have written them.
-/

namespace NetworkingFramework

open Wire Wire.Decoder

/-- A name starts at an offset of a packet: the labels met along its pointers, and the number of bytes it takes there. A label
is 1 to 63 bytes behind their number, none of them null or above 191; a pointer is two bytes, the first of them above 191. The
chain of pointers is as finite as the derivation. -/
inductive CompressedName (p : Bytes) : Nat → List Bytes → Nat → Prop where
  | root {o : Nat} : p[o]? = some 0 → CompressedName p o [] 1
  | label {o n : Nat} {len : UInt8} {labels : List Bytes} : p[o]? = some len → 1 ≤ len.toNat → len.toNat ≤ 63 →
      o + 1 + len.toNat ≤ p.length → (∀ b ∈ (p.drop (o + 1)).take len.toNat, b ≠ 0 ∧ b.toNat < 192) →
      CompressedName p (o + 1 + len.toNat) labels n →
      CompressedName p o ((p.drop (o + 1)).take len.toNat :: labels) (1 + len.toNat + n)
  | pointer {o n : Nat} {b c : UInt8} {labels : List Bytes} : p[o]? = some b → 192 ≤ b.toNat → p[o + 1]? = some c →
      CompressedName p ((b.toNat - 192) * 256 + c.toNat) labels n → CompressedName p o labels 2

/-! ## Bytes -/

/-- The two high bits of a byte are set when it is above 191, and a jump drops them. -/
theorem jumpMask_of_le {b : UInt8} (h : 192 ≤ b.toNat) :
    b &&& jumpMask = jumpMask ∧ (b ^^^ jumpMask).toNat = b.toNat - 192 := by
  have hall : ∀ k : Fin 256, 192 ≤ k.val →
      UInt8.ofNat k.val &&& jumpMask = jumpMask ∧ (UInt8.ofNat k.val ^^^ jumpMask).toNat = k.val - 192 := by
    decide +kernel
  have hb := hall ⟨b.toNat, b.toNat_lt⟩ h
  rwa [UInt8.ofNat_toNat] at hb

theorem jumpMask_of_lt {b : UInt8} (h : b.toNat < 192) : b &&& jumpMask ≠ jumpMask := by
  have hall : ∀ k : Fin 192, UInt8.ofNat k.val &&& jumpMask ≠ jumpMask := by decide +kernel
  have hb := hall ⟨b.toNat, h⟩
  rwa [UInt8.ofNat_toNat] at hb

/-! ## What is collected -/

/-- Bytes that neither end a name nor jump are collected as they lie in the packet. -/
theorem NameAt.prepend {p rest : Bytes} {k o n : Nat} (hfit : o + k ≤ p.length)
    (hplain : ∀ b ∈ (p.drop o).take k, b ≠ 0 ∧ b &&& jumpMask ≠ jumpMask) (h : NameAt p (o + k) rest n) :
    NameAt p o ((p.drop o).take k ++ rest) (k + n) := by
  induction k generalizing o with
  | zero => simpa using h
  | succ k ih =>
    have ho : o < p.length := by omega
    have hcons : (p.drop o).take (k + 1) = p[o] :: (p.drop (o + 1)).take k := by
      rw [List.drop_eq_getElem_cons ho, List.take_succ_cons]
    rw [hcons] at hplain ⊢
    obtain ⟨hzero, hjump⟩ := hplain _ List.mem_cons_self
    have hoff : o + (k + 1) = o + 1 + k := by omega
    rw [hoff] at h hfit
    have hrest := ih hfit (fun b hb => hplain b (List.mem_cons_of_mem _ hb)) h
    have hcount : k + 1 + n = k + n + 1 := by omega
    rw [List.cons_append, hcount]
    exact .byte (List.getElem?_eq_getElem ho) hzero hjump hrest

theorem CompressedName.length_labels {p : Bytes} {o n : Nat} {labels : List Bytes} (h : CompressedName p o labels n) :
    ∀ l ∈ labels, 1 ≤ l.length ∧ l.length ≤ 63 := by
  induction h with
  | root _ => intro l hl; exact absurd hl List.not_mem_nil
  | pointer _ _ _ _ ih => exact ih
  | @label o n len labels _ hpos hle hfit _ _ ih =>
    intro l hl
    rcases List.mem_cons.mp hl with rfl | hl
    · have hlen : ((p.drop (o + 1)).take len.toNat).length = len.toNat := by
        rw [List.length_take, List.length_drop]
        omega
      omega
    · exact ih l hl

/-- Of a compressed name the labels are collected, each behind its length, and a null byte. -/
theorem CompressedName.nameAt {p : Bytes} {o n : Nat} {labels : List Bytes} (h : CompressedName p o labels n) :
    NameAt p o (encodeLabels labels ++ [0]) n := by
  induction h with
  | root hb => exact .stop hb
  | @pointer o n b c labels hb hjump hc _ ih =>
    obtain ⟨hmask, hoff⟩ := jumpMask_of_le hjump
    refine .jump hb hmask hc (n := n) ?_
    rwa [jumpOffset, hoff]
  | @label o n len labels hb hpos hle hfit hplain _ ih =>
    have hlen : ((p.drop (o + 1)).take len.toNat).length = len.toNat := by
      rw [List.length_take, List.length_drop]
      omega
    have hlabel := ih.prepend hfit fun b hb => ⟨(hplain b hb).1, jumpMask_of_lt (hplain b hb).2⟩
    have henc : encodeLabels ((p.drop (o + 1)).take len.toNat :: labels) ++ [0] =
        len :: ((p.drop (o + 1)).take len.toNat ++ (encodeLabels labels ++ [0])) := by
      rw [encodeLabels, List.flatMap_cons, hlen, UInt8.ofNat_toNat, ← encodeLabels]
      simp
    obtain ⟨hzero, hjump⟩ := length_byte_plain hpos hle
    rw [UInt8.ofNat_toNat] at hzero hjump
    have hcount : 1 + len.toNat + n = len.toNat + n + 1 := by omega
    rw [henc, hcount]
    exact .byte hb hzero hjump hlabel

/-- Labels behind their lengths fit, and take all bytes but the null byte. -/
theorem labelsFit_encodeLabels {labels : List Bytes} (hlen : ∀ l ∈ labels, 1 ≤ l.length ∧ l.length ≤ 63) {m : Nat}
    (h : LabelsFit (encodeLabels labels ++ [0]) m) : m = (encodeLabels labels).length := by
  induction labels generalizing m with
  | nil =>
    cases h with
    | stop _ => rfl
    | label hne _ _ => exact absurd rfl hne
  | cons l labels ih =>
    obtain ⟨hpos, hle⟩ := hlen l List.mem_cons_self
    have hbyte : (UInt8.ofNat l.length).toNat = l.length := by
      rw [UInt8.toNat_ofNat', Nat.mod_eq_of_lt (by omega)]
    have hzero := (length_byte_plain hpos hle).1
    rw [encodeLabels_cons, List.cons_append, List.cons_append, List.append_assoc] at h
    rw [encodeLabels_cons, List.length_append, List.length_cons]
    generalize UInt8.ofNat l.length = len at h hbyte hzero
    cases h with
    | stop _ => exact absurd rfl hzero
    | label _ _ hrest =>
      rw [hbyte, List.drop_left] at hrest
      obtain rfl := ih (fun x hx => hlen x (List.mem_cons_of_mem l hx)) hrest
      omega

/-- Decoding what was collected joins the labels when an `int` counts their bytes; of a name without labels a null byte is left. -/
theorem decodeDnsName_labels_iff {labels : List Bytes} (hlen : ∀ l ∈ labels, 1 ≤ l.length ∧ l.length ≤ 63) (name : Bytes) :
    decodeDnsName (encodeLabels labels ++ [0]) = .ok name ↔
      (encodeLabels labels).length < 2 ^ 31 ∧ name = joinLabels labels ++ [0] := by
  have hok (hlt : (encodeLabels labels).length < 2 ^ 31) :
      decodeDnsName (encodeLabels labels ++ [0]) = .ok (joinLabels labels ++ [0]) := by
    by_cases hne : labels = []
    · subst hne
      rfl
    · exact decodeDnsName_encodeLabels hne hlen hlt
  constructor
  · intro h
    obtain ⟨m, hfit, hm⟩ := (decodeDnsName_returns_iff _).mp ⟨name, h⟩
    obtain rfl := labelsFit_encodeLabels hlen hfit
    exact ⟨hm, Except.ok.inj (h.symm.trans (hok hm))⟩
  · rintro ⟨hlt, rfl⟩
    exact hok hlt

/-- Labels behind their lengths, and a null byte, are a compressed name. -/
theorem compressedName_encodeLabels {labels : List Bytes}
    (h : ∀ l ∈ labels, 1 ≤ l.length ∧ l.length ≤ 63 ∧ ∀ b ∈ l, b ≠ 0 ∧ b.toNat < 192) (pre : Bytes) :
    CompressedName (pre ++ (encodeLabels labels ++ [0])) pre.length labels ((encodeLabels labels).length + 1) := by
  induction labels generalizing pre with
  | nil =>
    refine .root ?_
    simp [encodeLabels]
  | cons l labels ih =>
    obtain ⟨hpos, hle, hbytes⟩ := h l List.mem_cons_self
    have hbyte : (UInt8.ofNat l.length).toNat = l.length := by
      rw [UInt8.toNat_ofNat', Nat.mod_eq_of_lt (by omega)]
    have hrest := ih (fun x hx => h x (List.mem_cons_of_mem l hx)) (pre ++ UInt8.ofNat l.length :: l)
    have hpacket : pre ++ UInt8.ofNat l.length :: l ++ (encodeLabels labels ++ [0]) =
        pre ++ (encodeLabels (l :: labels) ++ [0]) := by simp [encodeLabels_cons]
    have hoff : (pre ++ UInt8.ofNat l.length :: l).length = pre.length + 1 + l.length := by
      rw [List.length_append, List.length_cons]
      omega
    rw [hpacket, hoff] at hrest
    have hget : (pre ++ (encodeLabels (l :: labels) ++ [0]))[pre.length]? = some (UInt8.ofNat l.length) := by
      simp [encodeLabels_cons]
    have hlabel : ((pre ++ (encodeLabels (l :: labels) ++ [0])).drop (pre.length + 1)).take l.length = l := by
      rw [List.drop_length_add_append, encodeLabels_cons]
      simp
    have hfit : pre.length + 1 + l.length ≤ (pre ++ (encodeLabels (l :: labels) ++ [0])).length := by
      rw [encodeLabels_cons]
      simp
      omega
    have hname := CompressedName.label hget (by rwa [hbyte]) (by rwa [hbyte]) (by rwa [hbyte]) (by rwa [hbyte, hlabel])
      (by rwa [hbyte])
    rw [hbyte, hlabel] at hname
    have hcount : 1 + l.length + ((encodeLabels labels).length + 1) = (encodeLabels (l :: labels)).length + 1 := by
      rw [encodeLabels_cons, List.length_append, List.length_cons]
      omega
    rwa [hcount] at hname

end NetworkingFramework
