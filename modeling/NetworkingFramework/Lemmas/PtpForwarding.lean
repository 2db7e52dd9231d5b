import NetworkingFramework.Lemmas.PtpNode
import Mathlib.Data.List.TakeWhile

/-!
# Where a node stops

The first action from the current one on that a node does not step over (`Node.StopsAt`), as an index of the path, and the headers
that `handle_packet` calls itself with on the way to it (`Node.SelfCalls`).
-/

namespace NetworkingFramework
namespace PtpProtocol

open Wire

/-- The node steps over the actions from the current one on up to this index, and stops there. -/
def Node.StopsAt (node : Node) (h : PtpHeader) (k : Nat) : Prop :=
  h.currAction.toNat ≤ k ∧ (∃ a, h.actions[k]? = some a ∧ node.passes a = false) ∧
    ∀ j, h.currAction.toNat ≤ j → j < k → ∀ a, h.actions[j]? = some a → node.passes a = true

/-! ## Self-calls -/

/-- The header that `handle_packet` calls itself with. -/
def Node.selfCall (node : Node) (h : PtpHeader) : Option PtpHeader :=
  match h.actions[h.currAction.toNat]? with
  | none => none
  | some a => if node.passes a then some { h with currAction := h.currAction + 1 } else none

/-- `handle_packet` calls itself so many times, the last time with this header. -/
inductive Node.SelfCalls (node : Node) (h : PtpHeader) : Nat → PtpHeader → Prop where
  | zero : SelfCalls node h 0 h
  | succ {n : Nat} {h' h'' : PtpHeader} : SelfCalls node h n h' → node.selfCall h' = some h'' → SelfCalls node h (n + 1) h''

variable {node : Node} {h h' : PtpHeader} {n : Nat}

/-- A self-call is made over an action that is stepped over, with the next index. -/
theorem Node.of_selfCall (hcall : node.selfCall h = some h') : ∃ a, h.actions[h.currAction.toNat]? = some a ∧
    node.passes a = true ∧ h' = { h with currAction := h.currAction + 1 } := by
  unfold Node.selfCall at hcall
  split at hcall
  · cases hcall
  · rename_i a hget
    split at hcall
    · rename_i hpass
      exact ⟨a, hget, hpass, (Option.some.inj hcall).symm⟩
    · cases hcall

/-- What `handle_packet` does is what its call of itself does, if it makes one. -/
theorem Node.handlePacket_of_selfCall (htag : ∀ a ∈ h.actions, a.Tagged) (hcall : node.selfCall h = some h') (fuel : Nat)
    (data : Bytes) : node.handlePacket (fuel + 1) h data = node.handlePacket fuel h' data := by
  obtain ⟨a, hget, hpass, rfl⟩ := Node.of_selfCall hcall
  rw [node.handlePacket_succ fuel data hget (htag a (List.mem_of_getElem? hget)), if_pos hpass]

/-- A self-call goes to the next index of the same path, and the index does not wrap. -/
theorem Node.selfCall_spec (hlen : h.actions.length ≤ 255) (hcall : node.selfCall h = some h') :
    h'.actions = h.actions ∧ h'.noJumps = h.noJumps ∧ h'.currAction.toNat = h.currAction.toNat + 1 := by
  obtain ⟨a, hget, -, rfl⟩ := Node.of_selfCall hcall
  obtain ⟨hlt, -⟩ := List.getElem?_eq_some_iff.mp hget
  refine ⟨rfl, rfl, ?_⟩
  rw [UInt8.toNat_add, UInt8.toNat_one]
  exact Nat.mod_eq_of_lt (by omega)

theorem Node.SelfCalls.spec (hlen : h.actions.length ≤ 255) (hcalls : node.SelfCalls h n h') :
    h'.actions = h.actions ∧ h'.noJumps = h.noJumps ∧ h'.currAction.toNat = h.currAction.toNat + n := by
  induction hcalls with
  | zero => exact ⟨rfl, rfl, rfl⟩
  | succ _ hcall ih =>
    obtain ⟨hactions, hjumps, hindex⟩ := ih
    obtain ⟨hactions', hjumps', hindex'⟩ := Node.selfCall_spec (by rwa [hactions]) hcall
    exact ⟨hactions'.trans hactions, hjumps'.trans hjumps, by rw [hindex', hindex, Nat.add_assoc]⟩

/-- As long as the actions are stepped over, there are self-calls. -/
theorem Node.exists_selfCalls (hlen : h.actions.length ≤ 255)
    (hpass : ∀ j, h.currAction.toNat ≤ j → j < h.currAction.toNat + n → ∃ a, h.actions[j]? = some a ∧ node.passes a = true) :
    ∃ h', node.SelfCalls h n h' := by
  induction n with
  | zero => exact ⟨h, .zero⟩
  | succ n ih =>
    obtain ⟨h', hcalls⟩ := ih fun j hle hlt => hpass j hle (by omega)
    obtain ⟨hactions, -, hindex⟩ := hcalls.spec hlen
    obtain ⟨a, hget, ha⟩ := hpass (h.currAction.toNat + n) (by omega) (by omega)
    refine ⟨{ h' with currAction := h'.currAction + 1 }, .succ hcalls ?_⟩
    rw [Node.selfCall, hactions, hindex, hget]
    exact if_pos ha

/-- Over what was stepped over, nothing has stopped. -/
theorem Node.SelfCalls.passes (hlen : h.actions.length ≤ 255) (hcalls : node.SelfCalls h n h') :
    ∀ j, h.currAction.toNat ≤ j → j < h.currAction.toNat + n → ∃ a, h.actions[j]? = some a ∧ node.passes a = true := by
  induction hcalls with
  | zero => intro j hle hlt; omega
  | @succ n h' h'' hcalls hcall ih =>
    intro j hle hlt
    by_cases hj : j < h.currAction.toNat + n
    · exact ih j hle hj
    · obtain ⟨hactions, -, hindex⟩ := hcalls.spec hlen
      obtain rfl : j = h.currAction.toNat + n := by omega
      obtain ⟨a, hget, ha, -⟩ := Node.of_selfCall hcall
      rw [hactions, hindex] at hget
      exact ⟨a, hget, ha⟩

/-! ## The walk along the actions -/

/-- The actions ahead of a node are those from where it stops. -/
theorem Node.StopsAt.ahead_eq {k : Nat} (hk : node.StopsAt h k) : node.ahead h = h.actions.drop k := by
  obtain ⟨hle, ⟨a, hget, ha⟩, hpass⟩ := hk
  unfold Node.ahead
  generalize h.currAction.toNat = c at hle hpass
  obtain ⟨d, rfl⟩ := Nat.exists_eq_add_of_le hle
  clear hle
  induction d generalizing c with
  | zero =>
    rw [Nat.add_zero] at hget ⊢
    obtain ⟨hlt, rfl⟩ := List.getElem?_eq_some_iff.mp hget
    rw [List.drop_eq_getElem_cons hlt, List.dropWhile_cons_of_neg (by simp [ha])]
  | succ d ih =>
    obtain ⟨hend, -⟩ := List.getElem?_eq_some_iff.mp hget
    have hlt : c < h.actions.length := by omega
    have hfirst := hpass c (Nat.le_refl c) (by omega) _ (List.getElem?_eq_getElem hlt)
    have hshift : c + (d + 1) = c + 1 + d := by omega
    rw [List.drop_eq_getElem_cons hlt, List.dropWhile_cons_of_pos hfirst, hshift]
    exact ih (c + 1) (by rwa [← hshift]) fun j hle hj => hpass j (by omega) (by omega)

/-- When there are actions ahead of a node, it stops at the first of them. -/
theorem Node.stopsAt_of_ahead {a : PtpAction} {rest : List PtpAction} (hahead : node.ahead h = a :: rest) :
    ∃ k, node.StopsAt h k ∧ h.actions[k]? = some a ∧ k + (rest.length + 1) = h.actions.length := by
  have hsplit := @List.takeWhile_append_dropWhile _ node.passes (h.actions.drop h.currAction.toNat)
  unfold Node.ahead at hahead
  rw [hahead] at hsplit
  have hstop : node.passes a = false := by
    have hhead := List.head?_dropWhile_not node.passes (h.actions.drop h.currAction.toNat)
    rwa [hahead] at hhead
  have hdrop : ∀ i, h.actions[h.currAction.toNat + i]? = (h.actions.drop h.currAction.toNat)[i]? :=
    fun i => List.getElem?_drop.symm
  generalize hbefore : (h.actions.drop h.currAction.toNat).takeWhile node.passes = before at hsplit
  have hget : h.actions[h.currAction.toNat + before.length]? = some a := by
    rw [hdrop, ← hsplit, List.getElem?_append_right (Nat.le_refl _), Nat.sub_self]
    rfl
  refine ⟨h.currAction.toNat + before.length, ⟨Nat.le_add_right _ _, ⟨a, hget, hstop⟩, fun j hle hlt b hb => ?_⟩, hget, ?_⟩
  · obtain ⟨i, rfl⟩ := Nat.exists_eq_add_of_le hle
    have hi : i < before.length := by omega
    rw [hdrop, ← hsplit, List.getElem?_append_left hi] at hb
    have hmem := List.mem_of_getElem? hb
    rw [← hbefore] at hmem
    exact List.mem_takeWhile_imp hmem
  · obtain ⟨hlt, -⟩ := List.getElem?_eq_some_iff.mp hget
    have hlen := congrArg List.length hsplit
    rw [List.length_append, List.length_cons, List.length_drop] at hlen
    omega

/-- When a node stops nowhere, there are no actions ahead of it. -/
theorem Node.ahead_eq_nil (hno : ¬∃ k, node.StopsAt h k) : node.ahead h = [] := by
  cases hahead : node.ahead h with
  | nil => rfl
  | cons a rest =>
    obtain ⟨k, hk, -, -⟩ := Node.stopsAt_of_ahead hahead
    exact absurd ⟨k, hk⟩ hno

/-- When a node stops at an action, that action and those behind it are ahead of it. -/
theorem Node.StopsAt.ahead_eq_cons {k : Nat} {a : PtpAction} (hk : node.StopsAt h k) (hget : h.actions[k]? = some a) :
    node.ahead h = a :: h.actions.drop (k + 1) := by
  obtain ⟨hlt, rfl⟩ := List.getElem?_eq_some_iff.mp hget
  rw [hk.ahead_eq, List.drop_eq_getElem_cons hlt]

/-! ## The throw -/

/-- The throw in `get_curr_action` is reached when the node steps over every action from the current one on. -/
theorem Node.throws_iff (hlen : h.actions.length ≤ 255) :
    (∃ n h', node.SelfCalls (jumped h) n h' ∧ h'.getCurrAction = .error .abort) ↔ ¬∃ k, node.StopsAt h k := by
  constructor
  · intro hthrow hstop
    obtain ⟨n, h', hcalls, hthrow⟩ := hthrow
    obtain ⟨k, hle, ⟨a, hget, ha⟩, -⟩ := hstop
    obtain ⟨hactions, -, hindex⟩ := hcalls.spec (h := jumped h) hlen
    have hpast : h.actions.length ≤ h.currAction.toNat + n := by
      rw [PtpHeader.getCurrAction, hactions, hindex] at hthrow
      split at hthrow
      · cases hthrow
      · rename_i hnone
        exact List.getElem?_eq_none_iff.mp hnone
    obtain ⟨hlt, -⟩ := List.getElem?_eq_some_iff.mp hget
    obtain ⟨b, hb, hpass⟩ := hcalls.passes (h := jumped h) hlen k hle (Nat.lt_of_lt_of_le hlt hpast)
    obtain rfl : a = b := Option.some.inj (hget.symm.trans hb)
    rw [ha] at hpass
    cases hpass
  · intro hno
    have hpass := List.dropWhile_eq_nil_iff.mp (Node.ahead_eq_nil hno)
    have hall : ∀ j, h.currAction.toNat ≤ j → j < h.currAction.toNat + (h.actions.length - h.currAction.toNat) →
        ∃ a, h.actions[j]? = some a ∧ node.passes a = true := by
      intro j hle hlt
      have hj : j < h.actions.length := by omega
      obtain ⟨i, rfl⟩ := Nat.exists_eq_add_of_le hle
      refine ⟨_, List.getElem?_eq_getElem hj, hpass _ ?_⟩
      have hget : (h.actions.drop h.currAction.toNat)[i]? = some h.actions[h.currAction.toNat + i] := by
        rw [List.getElem?_drop, List.getElem?_eq_getElem hj]
      exact List.mem_of_getElem? hget
    obtain ⟨h', hcalls⟩ := @Node.exists_selfCalls node (jumped h) _ hlen hall
    obtain ⟨hactions, -, hindex⟩ := hcalls.spec (h := jumped h) hlen
    refine ⟨_, h', hcalls, ?_⟩
    have hnone : h.actions[(jumped h).currAction.toNat + (h.actions.length - h.currAction.toNat)]? = none := by
      rw [List.getElem?_eq_none_iff]
      simp only [jumped]
      omega
    rw [PtpHeader.getCurrAction, hactions, hindex]
    simp only [jumped] at hnone ⊢
    rw [hnone]

end PtpProtocol
end NetworkingFramework
