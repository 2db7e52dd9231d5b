import NetworkingFramework.ConstructivePacket
import NetworkingFramework.Lib.Refinement

/-!
# Packets built by calls

A packet is the list of bytes that its calls are to make, up to the first call that puts bytes out of order.
-/

namespace NetworkingFramework

open Wire Refinement PacketCall

/-! ## Single calls -/

/-- Two lists end up in the same order, whichever comes first, only when the longer one is of one element. -/
theorem append_singleton_eq_cons_iff {α : Type} (a : α) (as : List α) : as ++ [a] = a :: as ↔ ∀ x ∈ as, x = a := by
  induction as with
  | nil => simp
  | cons x as ih =>
    rw [List.cons_append, List.cons.injEq, List.forall_mem_cons]
    refine and_congr_right fun hx => ?_
    rw [hx, ih]

@[simp] theorem insertRange_front (buff range : Bytes) : insertRange buff 0 range = .ok (range ++ buff) := by
  rw [insertRange, if_pos (Nat.zero_le _), List.take_zero, List.nil_append, List.drop_zero]

/-- What is inserted in front of the last byte. -/
theorem insertRange_last (buff : Bytes) (last : UInt8) (range : Bytes) :
    lastPlace (buff ++ [last]) = .ok buff.length ∧
      insertRange (buff ++ [last]) buff.length range = .ok (buff ++ range ++ [last]) := by
  constructor
  · rw [lastPlace, if_neg (List.concat_ne_nil last buff), List.length_append]
    rfl
  · rw [insertRange, if_pos (by simp), List.take_left, List.drop_left]

namespace ConstructivePacket

theorem appendData_eq (bytes data : Bytes) : (ConstructivePacket.mk bytes).appendData data = ⟨bytes ++ data⟩ := by
  unfold appendData
  induction data generalizing bytes with
  | nil => rw [List.append_nil]; rfl
  | cons b data ih =>
    have hrest := ih (bytes ++ [b])
    rw [List.append_assoc, List.singleton_append] at hrest
    exact hrest

/-- Prepended data is in front in reverse order. -/
theorem prependData_eq (bytes data : Bytes) : (ConstructivePacket.mk bytes).prependData data = ⟨data.reverse ++ bytes⟩ := by
  rw [prependData, List.foldl_flip_cons_eq_append']

theorem encapsulateInsidePacket_eq {bytes data : Bytes} {offset : Nat} (h : offset ≤ bytes.length) :
    (ConstructivePacket.mk bytes).encapsulateInsidePacket data offset = .ok ⟨bytes.take offset ++ data ++ bytes.drop offset⟩ := by
  rw [encapsulateInsidePacket, insertRange, if_pos h]
  rfl

/-- There has to be a byte in front of the second part of the data. -/
theorem encapsulateThePacket_nil {bytes data : Bytes} {offset : Nat} (h : offset ≤ data.length)
    (hnil : data.take offset ++ bytes = []) :
    (ConstructivePacket.mk bytes).encapsulateThePacket data offset = .error .outOfBounds := by
  simp [encapsulateThePacket, h, hnil, lastPlace]

/-- The second part of the data comes in front of that byte. -/
theorem encapsulateThePacket_concat {bytes data : Bytes} {offset : Nat} (h : offset ≤ data.length) {init : Bytes} {last : UInt8}
    (hconcat : data.take offset ++ bytes = init ++ [last]) :
    (ConstructivePacket.mk bytes).encapsulateThePacket data offset = .ok ⟨init ++ data.drop offset ++ [last]⟩ := by
  obtain ⟨hlast, hinsert⟩ := insertRange_last init last (data.drop offset)
  simp [encapsulateThePacket, h, hconcat, hlast, hinsert]

/-- A call makes of the packet what it is to make of the bytes if and only if it keeps their order. -/
theorem call_eq_iff {bytes : Bytes} {c : PacketCall} (hrange : InRange bytes c) :
    (ConstructivePacket.mk bytes).call c = .ok ⟨c.apply bytes⟩ ↔ InOrder bytes c := by
  cases c with
  | clearBuff => exact iff_of_true rfl trivial
  | appendData data => exact iff_of_true (congrArg Except.ok (appendData_eq bytes data)) trivial
  | prependData data =>
    rw [call, prependData_eq, Except.ok.injEq, ConstructivePacket.mk.injEq]
    exact List.append_left_inj bytes
  | encapsulateInsidePacket data offset => exact iff_of_true (encapsulateInsidePacket_eq hrange) trivial
  | encapsulateThePacket data offset =>
    rw [call, InOrder]
    rcases List.eq_nil_or_concat (data.take offset ++ bytes) with hnil | ⟨init, last, hconcat⟩
    · rw [encapsulateThePacket_nil hrange hnil, hnil]
      refine iff_of_false (fun h => ?_) fun h => ?_
      · nomatch h
      · obtain ⟨last, hlast, -⟩ := h
        nomatch hlast
    · rw [List.concat_eq_append] at hconcat
      rw [encapsulateThePacket_concat hrange hconcat, hconcat, List.getLast?_concat, apply, hconcat, Except.ok.injEq,
        ConstructivePacket.mk.injEq, List.append_assoc, List.append_assoc, List.append_right_inj, List.singleton_append,
        append_singleton_eq_cons_iff]
      constructor
      · exact fun h => ⟨last, rfl, h⟩
      · intro h
        obtain ⟨last', hlast, h⟩ := h
        rwa [Option.some.inj hlast]

end ConstructivePacket

/-! ## Sequences of calls -/

/-- After some calls and after each of them, a packet is what the calls are to make of the bytes if and only if every one of
them keeps their order. -/
theorem constructivePacket_is_list_iff (cs : List PacketCall)
    (hrange : ∀ done c left, cs = done ++ c :: left → InRange (contents done) c) :
    (∀ done left, cs = done ++ left → ConstructivePacket.calls done = .ok ⟨contents done⟩) ↔
      ∀ done c left, cs = done ++ c :: left → InOrder (contents done) c := by
  refine (agrees_iff ConstructivePacket.mk [] cs).trans ?_
  constructor
  · intro h done c left heq
    exact (ConstructivePacket.call_eq_iff (hrange done c left heq)).mp (h done c left heq)
  · intro h done c left heq
    exact (ConstructivePacket.call_eq_iff (hrange done c left heq)).mpr (h done c left heq)

/-- Data is put around a packet when its second part repeats one byte. -/
theorem constructivePacket_is_list_iff_around :
    ConstructivePacket.calls [.appendData [1, 2], .encapsulateThePacket [3, 2, 2] 1] = .ok ⟨[3, 1, 2, 2, 2]⟩ := by
  have hcases (done : List PacketCall) (c : PacketCall) (left : List PacketCall)
      (heq : [.appendData [1, 2], .encapsulateThePacket [3, 2, 2] 1] = done ++ c :: left) :
      done = [] ∧ c = .appendData [1, 2] ∨ done = [.appendData [1, 2]] ∧ c = .encapsulateThePacket [3, 2, 2] 1 := by
    rcases done with _ | ⟨a, _ | ⟨b, done⟩⟩ <;> simp at heq
    · exact .inl ⟨rfl, heq.1.symm⟩
    · exact .inr ⟨by rw [heq.1], heq.2.1.symm⟩
  refine (constructivePacket_is_list_iff [.appendData [1, 2], .encapsulateThePacket [3, 2, 2] 1] fun done c left heq => ?_).mpr
    (fun done c left heq => ?_) _ [] (List.append_nil _).symm
  · rcases hcases done c left heq with ⟨rfl, rfl⟩ | ⟨rfl, rfl⟩
    · trivial
    · exact Nat.le_of_ble_eq_true rfl
  · rcases hcases done c left heq with ⟨rfl, rfl⟩ | ⟨rfl, rfl⟩
    · trivial
    · exact ⟨2, rfl, by simp⟩

/-- Data prepended, and data around a packet. -/
theorem constructivePacket_is_list_counterexample :
    ConstructivePacket.calls [.prependData [1, 2]] ≠ .ok ⟨contents [.prependData [1, 2]]⟩ ∧
      ConstructivePacket.calls [.appendData [1, 2], .encapsulateThePacket [3, 4] 1] ≠
        .ok ⟨contents [.appendData [1, 2], .encapsulateThePacket [3, 4] 1]⟩ := by
  constructor
  · intro h
    have hpacket : ConstructivePacket.calls [.prependData [1, 2]] = .ok ⟨[2, 1]⟩ := rfl
    exact absurd (Except.ok.inj (hpacket.symm.trans h)) (by decide)
  · intro h
    have hpacket : ConstructivePacket.calls [.appendData [1, 2], .encapsulateThePacket [3, 4] 1] = .ok ⟨[3, 1, 4, 2]⟩ := rfl
    exact absurd (Except.ok.inj (hpacket.symm.trans h)) (by decide)

end NetworkingFramework
