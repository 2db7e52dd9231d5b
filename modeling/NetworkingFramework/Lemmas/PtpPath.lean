import NetworkingFramework.Lemmas.PtpCodec

/-!
# Paths: the endpoint filter and reversal

`ptp_is_endpoint_end` accepts a header that stands at the last action of its path when that is an end endpoint
(`ptpIsEndpointEnd_eq`). A path can be reversed when each of its endpoints is a start or an end (`createReverseActions_eq`,
`reversible_of_createReverseActions`), and reversing it twice gives it back (`createReverseActions_reversed`).
-/

namespace NetworkingFramework

open Wire

/-! ## The endpoint filter -/

/-- The header stands at the last action of its path, an end endpoint. -/
def PtpHeader.AtEnd (h : PtpHeader) : Prop :=
  h.currAction.toNat + 1 = h.actions.length ∧
    (h.actions[h.currAction.toNat]?).map PtpAction.val = some (.endpoint ⟨ptpEndpointEnd⟩)

instance (h : PtpHeader) : Decidable h.AtEnd := by unfold PtpHeader.AtEnd; infer_instance

/-- The comparison with `size() - 1` in 64 bits; on an empty path the right side is the largest number. -/
theorem eq_size_sub_one_iff {n c : Nat} (hn : n ≤ 255) (hc : c < 256) : c = (n + (UInt64.size - 1)) % UInt64.size ↔ c + 1 = n := by
  unfold UInt64.size
  omega

/-- `ptp_is_endpoint_end` on a header of tagged actions never throws, and says whether it stands at the end. -/
theorem ptpIsEndpointEnd_eq {h : PtpHeader} (hlen : h.actions.length ≤ 255) (htag : ∀ a ∈ h.actions, a.Tagged) :
    ptpIsEndpointEnd h = .ok (decide h.AtEnd) := by
  unfold ptpIsEndpointEnd
  have hidx := eq_size_sub_one_iff hlen h.currAction.toNat_lt
  by_cases hlast : h.currAction.toNat + 1 = h.actions.length
  · have hlt : h.currAction.toNat < h.actions.length := by omega
    have hget : h.actions[h.currAction.toNat]? = some h.actions[h.currAction.toNat] := List.getElem?_eq_getElem hlt
    have hcurr : h.getCurrAction = .ok h.actions[h.currAction.toNat] := by rw [PtpHeader.getCurrAction, hget]
    have ha : h.actions[h.currAction.toNat].Tagged := htag _ (List.getElem_mem hlt)
    simp only [ne_eq, hidx, hlast, hcurr, PtpHeader.AtEnd, hget]
    generalize h.actions[h.currAction.toNat] = a at ha
    obtain ⟨type, val⟩ := a
    cases type <;> cases val <;> first | exact ha.elim | skip
    · rename_i e
      obtain ⟨t⟩ := e
      by_cases ht : t = ptpEndpointEnd <;> simp [PtpActionVal.getEndpoint, ht]
    · simp
    · simp
  · have hno : ¬h.AtEnd := fun hend => hlast hend.1
    rw [if_pos fun he => hlast (hidx.mp he), decide_eq_false hno]
    rfl

/-! ## Reversal -/

/-- An endpoint is a start or an end. -/
def PtpAction.Reversible (a : PtpAction) : Prop :=
  match a.val with
  | .endpoint e => e.type = ptpEndpointStart ∨ e.type = ptpEndpointEnd
  | _ => True

/-- The action in the other direction. -/
def PtpAction.reversed (a : PtpAction) : PtpAction :=
  match a.val with
  | .endpoint e => ⟨a.type, .endpoint ⟨if e.type = ptpEndpointStart then ptpEndpointEnd else ptpEndpointStart⟩⟩
  | .localConn c => ⟨a.type, .localConn ⟨c.destAddr, c.srcAddr⟩⟩
  | .netSwitch s => ⟨a.type, .netSwitch ⟨s.destId, s.srcId⟩⟩

theorem createReverseAction_eq {a : PtpAction} (htag : a.Tagged) (hrev : a.Reversible) :
    createReverseAction a = .ok a.reversed := by
  obtain ⟨type, val⟩ := a
  cases type <;> cases val <;> first | exact htag.elim | rfl | skip
  rename_i e
  by_cases hs : e.type = ptpEndpointStart
  · simp [createReverseAction, PtpActionVal.getEndpoint, createReverseEndpoint, PtpAction.reversed, hs]
  · have he : e.type = ptpEndpointEnd := hrev.resolve_left hs
    have hne : ptpEndpointEnd ≠ ptpEndpointStart := by decide
    simp [createReverseAction, PtpActionVal.getEndpoint, createReverseEndpoint, PtpAction.reversed, he, hne]

theorem reversible_of_createReverseAction {a a' : PtpAction} (h : createReverseAction a = .ok a') : a.Reversible := by
  obtain ⟨type, val⟩ := a
  cases val with
  | localConn c => exact trivial
  | netSwitch s => exact trivial
  | endpoint e =>
    by_cases hs : e.type = ptpEndpointStart
    · exact .inl hs
    · by_cases he : e.type = ptpEndpointEnd
      · exact .inr he
      · cases type <;>
          simp [createReverseAction, PtpActionVal.getEndpoint, PtpActionVal.getLocalConn, PtpActionVal.getNetSwitch,
            createReverseEndpoint, hs, he] at h

/-- A path of tagged, reversible actions is reversed. -/
theorem createReverseActions_eq {actions : List PtpAction} (htag : ∀ a ∈ actions, a.Tagged)
    (hrev : ∀ a ∈ actions, a.Reversible) : createReverseActions actions = .ok (actions.reverse.map PtpAction.reversed) :=
  mapM_eq_ok fun a ha => createReverseAction_eq (htag a (List.mem_reverse.mp ha)) (hrev a (List.mem_reverse.mp ha))

/-- Only a path whose endpoints are all starts and ends can be reversed. -/
theorem reversible_of_createReverseActions {actions actions' : List PtpAction}
    (h : createReverseActions actions = .ok actions') : ∀ a ∈ actions, a.Reversible := by
  intro a ha
  obtain ⟨a', ha'⟩ := exists_ok_of_mapM h a (List.mem_reverse.mpr ha)
  exact reversible_of_createReverseAction ha'

theorem PtpAction.reversed_tagged {a : PtpAction} (h : a.Tagged) : a.reversed.Tagged := by
  obtain ⟨type, val⟩ := a
  cases type <;> cases val <;> first | exact h.elim | trivial

theorem PtpAction.reversed_reversible (a : PtpAction) : a.reversed.Reversible := by
  obtain ⟨type, val⟩ := a
  cases val with
  | localConn c => exact trivial
  | netSwitch s => exact trivial
  | endpoint e =>
    by_cases hs : e.type = ptpEndpointStart
    · exact .inr (by simp [hs])
    · exact .inl (by simp [hs])

theorem PtpAction.reversed_reversed {a : PtpAction} (h : a.Reversible) : a.reversed.reversed = a := by
  obtain ⟨type, val⟩ := a
  cases val with
  | localConn c => rfl
  | netSwitch s => rfl
  | endpoint e =>
    have hne : ptpEndpointEnd ≠ ptpEndpointStart := by decide
    rcases h with hs | he
    · obtain rfl : e = ⟨ptpEndpointStart⟩ := by cases e; exact congrArg PtpEndpoint.mk hs
      simp [PtpAction.reversed, hne]
    · obtain rfl : e = ⟨ptpEndpointEnd⟩ := by cases e; exact congrArg PtpEndpoint.mk he
      simp [PtpAction.reversed, hne]

/-- The reversed path is reversed back to the path. -/
theorem createReverseActions_reversed {actions reverse : List PtpAction} (htag : ∀ a ∈ actions, a.Tagged)
    (h : createReverseActions actions = .ok reverse) : createReverseActions reverse = .ok actions := by
  have hrev := reversible_of_createReverseActions h
  rw [createReverseActions_eq htag hrev, Except.ok.injEq] at h
  subst h
  rw [createReverseActions_eq]
  · have hmap : (actions.map PtpAction.reversed).map PtpAction.reversed = actions := by
      rw [List.map_map]
      exact (List.map_congr_left fun a ha => PtpAction.reversed_reversed (hrev a ha)).trans (List.map_id actions)
    rw [← List.map_reverse, List.reverse_reverse, hmap]
  · intro a ha
    obtain ⟨b, hb, rfl⟩ := List.mem_map.mp ha
    exact PtpAction.reversed_tagged (htag b (List.mem_reverse.mp hb))
  · intro a ha
    obtain ⟨b, -, rfl⟩ := List.mem_map.mp ha
    exact b.reversed_reversible

end NetworkingFramework
