import Mathlib.Algebra.BigOperators.Fin
import Mathlib.Data.List.Perm.Basic
import NetworkingFramework.Lib.Quota
import NetworkingFramework.Multiplexer

/-!
# The multiplexer's counters

What a pool answers depends on its shape, which no stream changes, and on the counters under the current id. The loop over the
indexes counts them against the requirements, so that the data of a handler is pushed when its quota is reached.
-/

namespace NetworkingFramework

namespace Multiplexer

variable {D : Type} {n : Nat} {T : Fin n → Type}

/-- The data and the quotas of a pool. -/
def shape (pool : List (Handler D)) : List (D × Nat) := pool.map fun handler => (handler.data, handler.noReqs)

/-- The quota at an index. -/
def quota (shape : List (D × Nat)) (j : Nat) : Nat := (shape[j]?.map Prod.snd).getD 0

/-- The data at an index. -/
def dataAt (shape : List (D × Nat)) (j : Nat) : Option D := shape[j]?.map Prod.fst

/-- The counter of a handler under an id: one that was last met under another is yet to be reset. -/
def counter (uniqueId : UInt64) (handler : Handler D) : Nat := if handler.lastId = uniqueId then handler.reqsSatisfied else 0

/-- The counters of a pool under an id. -/
def tally (uniqueId : UInt64) (pool : List (Handler D)) (j : Nat) : Nat := (pool[j]?.map (counter uniqueId)).getD 0

@[simp] theorem length_shape (pool : List (Handler D)) : (shape pool).length = pool.length := List.length_map ..

/-! ## One handler met -/

theorem meet_data (uniqueId : UInt64) (handler : Handler D) :
    ((meet uniqueId handler).data, (meet uniqueId handler).noReqs) = (handler.data, handler.noReqs) := by
  unfold meet
  by_cases h : handler.lastId ≠ uniqueId
  · rw [if_pos h]
  · rw [if_neg h]

theorem meet_lastId (uniqueId : UInt64) (handler : Handler D) : (meet uniqueId handler).lastId = uniqueId := by
  unfold meet
  by_cases h : handler.lastId ≠ uniqueId
  · rw [if_pos h]
  · rw [if_neg h]
    exact not_not.mp h

theorem meet_reqsSatisfied (uniqueId : UInt64) (handler : Handler D) :
    (meet uniqueId handler).reqsSatisfied = counter uniqueId handler + 1 := by
  unfold meet counter
  by_cases h : handler.lastId = uniqueId
  · rw [if_neg (not_not_intro h), if_pos h]
  · rw [if_pos h, if_neg h]

theorem shape_set_meet (uniqueId : UInt64) {pool : List (Handler D)} {j : Nat} (hj : j < pool.length) :
    shape (pool.set j (meet uniqueId pool[j])) = shape pool := by
  have hj' : j < (shape pool).length := by simpa using hj
  have hself : ((meet uniqueId pool[j]).data, (meet uniqueId pool[j]).noReqs) = (shape pool)[j] := by
    rw [meet_data]
    simp [shape]
  rw [shape, List.map_set, hself]
  exact List.set_getElem_self _

theorem tally_set_meet (uniqueId : UInt64) {pool : List (Handler D)} {j : Nat} (hj : j < pool.length) :
    tally uniqueId (pool.set j (meet uniqueId pool[j])) = Function.update (tally uniqueId pool) j (tally uniqueId pool j + 1) := by
  funext k
  by_cases hk : k = j
  · subst hk
    have hcounter : counter uniqueId (meet uniqueId pool[k]) = counter uniqueId pool[k] + 1 := by
      rw [counter, meet_lastId, if_pos rfl, meet_reqsSatisfied]
    rw [Function.update_self, tally, tally, List.getElem?_set_self hj, List.getElem?_eq_getElem hj]
    exact hcounter
  · rw [Function.update_of_ne hk, tally, tally, List.getElem?_set_ne (Ne.symm hk)]

/-- A handler is met: its data is pushed when its counter comes to its quota. -/
theorem meetHandler_eq (uniqueId : UInt64) {pool : List (Handler D)} {j : Nat} (hj : j < pool.length) (streamRes : List D) :
    meetHandler uniqueId (pool, streamRes) j = some (pool.set j (meet uniqueId pool[j]), streamRes ++
      if tally uniqueId pool j + 1 = quota (shape pool) j then (dataAt (shape pool) j).toList else []) := by
  have hdata := congrArg Prod.fst (meet_data uniqueId pool[j])
  have hreqs := congrArg Prod.snd (meet_data uniqueId pool[j])
  simp only at hdata hreqs
  have htally : tally uniqueId pool j = counter uniqueId pool[j] := by
    rw [tally, List.getElem?_eq_getElem hj]
    rfl
  have hquota : quota (shape pool) j = pool[j].noReqs := by simp [quota, shape, List.getElem?_eq_getElem hj]
  have hat : dataAt (shape pool) j = some pool[j].data := by simp [dataAt, shape, List.getElem?_eq_getElem hj]
  rw [meetHandler, List.getElem?_eq_getElem hj]
  simp only [meet_reqsSatisfied, hdata, hreqs, htally, hquota, hat]
  split
  · rfl
  · rw [List.append_nil]

/-! ## All the handlers met -/

open Quota

/-- The loop over some indexes of the pool pushes the data of those that come to their quotas. -/
theorem foldlM_meetHandler (uniqueId : UInt64) {indexes : List Nat} {pool : List (Handler D)}
    (hindexes : ∀ j ∈ indexes, j < pool.length) (streamRes : List D) :
    ∃ pool', indexes.foldlM (meetHandler uniqueId) (pool, streamRes) =
      some (pool', streamRes ++ (reached (quota (shape pool)) (tally uniqueId pool) indexes).filterMap (dataAt (shape pool))) ∧
      shape pool' = shape pool ∧ ∀ handler ∈ pool', handler ∈ pool ∨ handler.lastId = uniqueId := by
  induction indexes generalizing pool streamRes with
  | nil => exact ⟨pool, by simp [reached], rfl, fun handler h => .inl h⟩
  | cons j indexes ih =>
    have hj := hindexes j List.mem_cons_self
    have hshape := shape_set_meet uniqueId hj
    have hrest : ∀ k ∈ indexes, k < (pool.set j (meet uniqueId pool[j])).length := fun k hk => by
      rw [List.length_set]
      exact hindexes k (List.mem_cons_of_mem j hk)
    obtain ⟨pool', hrun, hshape', hids⟩ := ih hrest
      (streamRes ++ if tally uniqueId pool j + 1 = quota (shape pool) j then (dataAt (shape pool) j).toList else [])
    rw [hshape, tally_set_meet uniqueId hj] at hrun
    refine ⟨pool', ?_, hshape'.trans hshape, fun handler h => ?_⟩
    · have hat : ∃ data, dataAt (shape pool) j = some data := ⟨pool[j].data, by simp [dataAt, shape, List.getElem?_eq_getElem hj]⟩
      obtain ⟨data, hat⟩ := hat
      rw [List.foldlM_cons, meetHandler_eq uniqueId hj]
      refine hrun.trans ?_
      rw [reached]
      split
      · rw [List.filterMap_cons_some hat, hat, List.append_assoc]
        rfl
      · rw [List.append_nil]
    · rcases hids handler h with hmem | hid
      · rcases List.mem_or_eq_of_mem_set hmem with hmem | rfl
        · exact .inl hmem
        · exact .inr (meet_lastId uniqueId _)
      · exact .inr hid

/-- The indexes that a stream loops over. -/
def metIndexes (maps : ∀ i, T i → List Nat) (arr : ∀ i, T i) : List Nat := (List.finRange n).flatMap fun i => maps i (arr i)

theorem recStreamArray_eq (uniqueId : UInt64) (maps : ∀ i, T i → List Nat) (arr : ∀ i, T i)
    (state : List (Handler D) × List D) (is : List (Fin n)) :
    recStreamArray uniqueId maps arr state is = (is.flatMap fun i => maps i (arr i)).foldlM (meetHandler uniqueId) state := by
  induction is generalizing state with
  | nil => rfl
  | cons i is ih =>
    rw [List.flatMap_cons, List.foldlM_append, recStreamArray]
    simp only [ih]

/-- What a stream pushes. -/
def pushed (m : Multiplexer D T) (arr : ∀ i, T i) : List D :=
  (reached (quota (shape m.handlersPool)) (tally (m.uniqueId + 1) m.handlersPool) (metIndexes m.maps arr)).filterMap
    (dataAt (shape m.handlersPool))

/-- A stream whose indexes lead to handlers. -/
theorem streamArray_eq {m : Multiplexer D T} {arr : ∀ i, T i}
    (h : ∀ j ∈ metIndexes m.maps arr, j < m.handlersPool.length) :
    ∃ pool', m.streamArray arr = some (m.pushed arr, { m with uniqueId := m.uniqueId + 1, handlersPool := pool' }) ∧
      shape pool' = shape m.handlersPool ∧ ∀ handler ∈ pool', handler ∈ m.handlersPool ∨ handler.lastId = m.uniqueId + 1 := by
  obtain ⟨pool', hrun, hpool'⟩ := foldlM_meetHandler (m.uniqueId + 1) h []
  rw [List.nil_append] at hrun
  refine ⟨pool', ?_, hpool'⟩
  rw [streamArray, recStreamArray_eq]
  exact congrArg (Option.bind · _) hrun

/-! ## Registered handlers -/

variable [∀ i, DecidableEq (T i)]

/-- A multiplexer that has streamed some tuples holds what was registered. A counter that is not zero was left by one of these
streams. -/
structure Represents (m : Multiplexer D T) (rs : List (Registered D T)) (streams : Nat) : Prop where
  shape : shape m.handlersPool = rs.map fun r => (r.1, r.2.length)
  indexes : ∀ i v j, (m.maps i v).count j = (rs[j]?.map fun r => r.2.count ⟨i, v⟩).getD 0
  uniqueId : m.uniqueId = UInt64.ofNat (streams + 1)
  stamps : ∀ handler ∈ m.handlersPool,
    handler.reqsSatisfied = 0 ∨ ∃ k, 0 < k ∧ k ≤ streams ∧ handler.lastId = UInt64.ofNat (k + 1)

variable {m : Multiplexer D T} {rs : List (Registered D T)} {streams : Nat}

theorem represents_empty : Represents ({} : Multiplexer D T) [] 0 where
  shape := rfl
  indexes := fun _ _ _ => rfl
  uniqueId := rfl
  stamps := fun _ h => absurd h List.not_mem_nil

theorem Represents.length (h : Represents m rs streams) : m.handlersPool.length = rs.length := by
  rw [← length_shape, h.shape, List.length_map]

/-- A tuple leads to a handler as often as it meets requirements of it. -/
theorem sum_count_requirements (arr : ∀ i, T i) (reqs : List (Sigma T)) :
    ((List.finRange n).map fun i => reqs.count ⟨i, arr i⟩).sum = reqs.countP fun req => arr req.1 = req.2 := by
  rw [← Fin.sum_univ_def]
  induction reqs with
  | nil => simp
  | cons req reqs ih =>
    have hreq (i : Fin n) : (req == ⟨i, arr i⟩) = decide (req.1 = i ∧ arr req.1 = req.2) := by
      rw [Bool.eq_iff_iff, beq_iff_eq, decide_eq_true_iff]
      constructor
      · rintro rfl
        exact ⟨rfl, rfl⟩
      · intro h
        obtain ⟨rfl, h⟩ := h
        rw [h]
    have hone : (∑ i : Fin n, if (req == ⟨i, arr i⟩) = true then 1 else 0) =
        if decide (arr req.1 = req.2) = true then 1 else 0 := by
      simp only [hreq, decide_eq_true_iff]
      by_cases h : arr req.1 = req.2
      · simp [h]
      · simp [h]
    simp only [List.count_cons, Finset.sum_add_distrib]
    rw [ih, hone, List.countP_cons]

theorem Represents.count_metIndexes (h : Represents m rs streams) (arr : ∀ i, T i) (j : Nat) :
    (metIndexes m.maps arr).count j = (rs[j]?.map fun r => r.2.countP fun req => arr req.1 = req.2).getD 0 := by
  have hcount (i : Fin n) : ((List.count j) ∘ fun i => m.maps i (arr i)) i = (rs[j]?.map fun r => r.2.count ⟨i, arr i⟩).getD 0 :=
    h.indexes i (arr i) j
  rw [metIndexes, List.count_flatMap, List.map_congr_left fun i _ => hcount i]
  cases hr : rs[j]? with
  | none => simp
  | some r => exact sum_count_requirements arr r.2

/-- Every index leads to a handler. -/
theorem Represents.metIndexes_lt (h : Represents m rs streams) (arr : ∀ i, T i) :
    ∀ j ∈ metIndexes m.maps arr, j < m.handlersPool.length := by
  intro j hj
  rw [h.length]
  by_contra hge
  have hcount := h.count_metIndexes arr j
  rw [List.getElem?_eq_none (Nat.le_of_not_lt hge)] at hcount
  exact Nat.ne_of_gt (List.count_pos_iff.mpr hj) hcount

/-- Under the id of the next stream every counter is zero, unless the ids have come around. -/
theorem Represents.tally_eq_zero (h : Represents m rs streams) (hstreams : streams < 2 ^ 64) (j : Nat) :
    tally (m.uniqueId + 1) m.handlersPool j = 0 := by
  rw [tally]
  cases hhandler : m.handlersPool[j]? with
  | none => rfl
  | some handler =>
    change counter _ handler = 0
    rw [counter]
    split
    · rename_i hid
      rcases h.stamps handler (List.mem_of_getElem? hhandler) with hzero | ⟨k, hpos, hle, hstamp⟩
      · exact hzero
      · exfalso
        have hnat := congrArg UInt64.toNat (hstamp.symm.trans hid)
        rw [h.uniqueId, UInt64.toNat_add, UInt64.toNat_ofNat', UInt64.toNat_ofNat'] at hnat
        simp only [UInt64.toNat_one] at hnat
        omega
    · rfl

/-! ## The calls -/

theorem Represents.append (h : Represents m rs streams) (data : D) :
    Represents (m.appendNewEmptyHandler data) (rs ++ [(data, [])]) streams where
  shape := by
    rw [List.map_append, ← h.shape]
    exact List.map_append
  indexes := by
    intro i v j
    rw [show (m.appendNewEmptyHandler data).maps = m.maps from rfl, h.indexes]
    rcases Nat.lt_trichotomy j rs.length with hj | rfl | hj
    · rw [List.getElem?_append_left hj]
    · simp
    · rw [List.getElem?_eq_none (Nat.le_of_lt hj), List.getElem?_eq_none (by rw [List.length_append]; exact hj)]
  uniqueId := h.uniqueId
  stamps := by
    intro handler hmem
    rcases List.mem_append.mp hmem with hmem | hmem
    · exact h.stamps handler hmem
    · rw [List.mem_singleton.mp hmem]
      exact .inl rfl

theorem modify_last {α : Type} (as : List α) (a : α) (f : α → α) :
    (as ++ [a]).modify ((as ++ [a]).length - 1) f = as ++ [f a] := by
  have hlast : (as ++ [a]).length - 1 = as.length := by simp
  rw [hlast]
  induction as with
  | nil => rfl
  | cons b as ih => exact congrArg (b :: ·) (ih (by simp))

/-- The last handler of the pool, and the last of those registered. -/
theorem Represents.concat {rs : List (Registered D T)} {r : Registered D T} (h : Represents m (rs ++ [r]) streams) :
    ∃ pool handler, m.handlersPool = pool ++ [handler] ∧ Multiplexer.shape pool = rs.map (fun r => (r.1, r.2.length)) ∧
      (handler.data, handler.noReqs) = (r.1, r.2.length) := by
  have hshape := h.shape
  rw [List.map_append] at hshape
  obtain ⟨pool, last, hpool, hinit, hlast⟩ := List.map_eq_append_iff.mp hshape
  obtain ⟨handler, rfl, hhandler⟩ := List.map_eq_singleton_iff.mp hlast
  exact ⟨pool, handler, hpool, hinit, hhandler⟩

theorem Represents.require {r : Registered D T} (h : Represents m (rs ++ [r]) streams) (i : Fin n) (val : T i) :
    ∃ m', m.addRequirementToLastHandler i val = some m' ∧ Represents m' (rs ++ [(r.1, r.2 ++ [⟨i, val⟩])]) streams := by
  obtain ⟨pool, handler, hpool, hinit, hhandler⟩ := h.concat
  obtain ⟨hdata, hreqs⟩ := Prod.mk.inj hhandler
  have hlen : pool.length = rs.length := by simpa [Multiplexer.shape] using congrArg List.length hinit
  refine ⟨{ m with
    handlersPool := pool ++ [{ handler with noReqs := handler.noReqs + 1 }]
    maps := Function.update m.maps i (Function.update (m.maps i) val (m.maps i val ++ [rs.length])) }, ?_, ?_, ?_, h.uniqueId, ?_⟩
  · simp [addRequirementToLastHandler, hpool, hlen]
  · simp [Multiplexer.shape, hdata, hreqs, ← hinit]
  · intro i' v j
    have hmaps : (Function.update m.maps i (Function.update (m.maps i) val (m.maps i val ++ [rs.length])) i' v).count j =
        (m.maps i' v).count j + if j = rs.length ∧ (⟨i, val⟩ : Sigma T) = ⟨i', v⟩ then 1 else 0 := by
      by_cases hi : i' = i
      · subst hi
        rw [Function.update_self]
        by_cases hv : v = val
        · subst hv
          rw [Function.update_self, List.count_append, List.count_singleton]
          exact congrArg _ (if_congr (by simp [@eq_comm Nat j]) rfl rfl)
        · rw [Function.update_of_ne hv]
          simp [Ne.symm hv]
      · rw [Function.update_of_ne hi]
        simp [Ne.symm hi]
    rw [hmaps, h.indexes]
    rcases Nat.lt_trichotomy j rs.length with hj | rfl | hj
    · rw [List.getElem?_append_left hj, List.getElem?_append_left hj, if_neg fun hlast => Nat.ne_of_lt hj hlast.1, Nat.add_zero]
    · rw [List.getElem?_concat_length, List.getElem?_concat_length]
      simp only [Option.map_some, Option.getD_some, List.count_append, List.count_singleton]
      exact congrArg _ (if_congr (by simp) rfl rfl)
    · have hge : rs.length + 1 ≤ j := hj
      rw [List.getElem?_eq_none (by simpa using hge), List.getElem?_eq_none (by simpa using hge),
        if_neg fun hlast => Nat.ne_of_gt hj hlast.1]
      rfl
  · intro handler' hmem
    rcases List.mem_append.mp hmem with hmem | hmem
    · exact h.stamps handler' (hpool ▸ List.mem_append_left _ hmem)
    · rw [List.mem_singleton.mp hmem]
      exact h.stamps handler (hpool ▸ List.mem_append_right _ List.mem_cons_self)

theorem filterMap_getElem?_range {α : Type} (as : List α) : (List.range as.length).filterMap (as[·]?) = as := by
  induction as with
  | nil => rfl
  | cons a as ih =>
    rw [List.length_cons, List.range_succ_eq_map, List.filterMap_cons_some List.getElem?_cons_zero, List.filterMap_map]
    exact congrArg (a :: ·) ih

/-- Elements picked by index. -/
theorem filterMap_filter_any {κ α β : Type} (g : κ → Option α) (p : α → Bool) (f : α → β) (ks : List κ) :
    (ks.filter fun k => (g k).any p).filterMap (fun k => (g k).map f) = ((ks.filterMap g).filter p).map f := by
  induction ks with
  | nil => rfl
  | cons k ks ih =>
    cases hk : g k with
    | none => simp [hk, ih]
    | some a => cases hp : p a <;> simp [hk, hp, ih]

/-- A handler is reached by a stream that satisfies it. -/
theorem Represents.mem_reached_iff (h : Represents m rs streams) (hstreams : streams < 2 ^ 64) (arr : ∀ i, T i) (j : Nat) :
    j ∈ reached (quota (Multiplexer.shape m.handlersPool)) (tally (m.uniqueId + 1) m.handlersPool) (metIndexes m.maps arr) ↔
      rs[j]?.any (fun r => r.Satisfied arr) := by
  rw [mem_reached, h.tally_eq_zero hstreams, h.count_metIndexes, h.shape, quota, List.getElem?_map]
  cases rs[j]? with
  | none => simp
  | some r =>
    have hle : (r.2.countP fun req => arr req.1 = req.2) ≤ r.2.length := List.countP_le_length
    have hall : (r.2.countP fun req => arr req.1 = req.2) = r.2.length ↔ ∀ req ∈ r.2, arr req.1 = req.2 := by
      rw [List.countP_eq_length]
      simp
    simp only [Option.map_some, Option.getD_some, Option.any_some, Nat.zero_add]
    rw [decide_eq_true_iff, Registered.Satisfied, ← hall, ← List.length_pos_iff]
    constructor
    · exact fun ⟨hpos, hge⟩ => ⟨hpos, Nat.le_antisymm hle hge⟩
    · exact fun ⟨hpos, heq⟩ => ⟨hpos, Nat.le_of_eq heq.symm⟩

/-- Every handler that the tuple satisfies is pushed once, and no other. -/
theorem Represents.pushed_perm (h : Represents m rs streams) (hstreams : streams < 2 ^ 64) (arr : ∀ i, T i) :
    (m.pushed arr).Perm (Registered.satisfiedData rs arr) := by
  have hperm : (reached (quota (Multiplexer.shape m.handlersPool)) (tally (m.uniqueId + 1) m.handlersPool)
      (metIndexes m.maps arr)).Perm ((List.range rs.length).filter fun j => rs[j]?.any fun r => r.Satisfied arr) := by
    refine (List.perm_ext_iff_of_nodup (nodup_reached _ _) (List.nodup_range.filter _)).mpr fun j => ?_
    rw [h.mem_reached_iff hstreams, List.mem_filter, List.mem_range]
    refine (and_iff_right_of_imp fun hany => ?_).symm
    by_contra hge
    rw [List.getElem?_eq_none (Nat.le_of_not_lt hge)] at hany
    exact Bool.false_ne_true hany
  have hdata : dataAt (Multiplexer.shape m.handlersPool) = fun j => rs[j]?.map Prod.fst := by
    funext j
    rw [dataAt, h.shape, List.getElem?_map, Option.map_map]
    rfl
  have hpick := filterMap_filter_any (rs[·]?) (fun r => decide (Registered.Satisfied r arr)) Prod.fst (List.range rs.length)
  rw [filterMap_getElem?_range] at hpick
  rw [pushed, hdata, Registered.satisfiedData, ← hpick]
  exact hperm.filterMap _

/-- What a stream answers, and what it leaves. -/
theorem Represents.stream (h : Represents m rs streams) (hstreams : streams < 2 ^ 64) (arr : ∀ i, T i) :
    ∃ streamRes m', m.streamArray arr = some (streamRes, m') ∧ streamRes.Perm (Registered.satisfiedData rs arr) ∧
      Represents m' rs (streams + 1) := by
  obtain ⟨pool', hrun, hshape, hids⟩ := streamArray_eq (h.metIndexes_lt arr)
  have hid : m.uniqueId + 1 = UInt64.ofNat (streams + 1 + 1) := by
    rw [h.uniqueId]
    exact (UInt64.ofNat_add _ 1).symm
  refine ⟨_, _, hrun, h.pushed_perm hstreams arr, hshape.trans h.shape, h.indexes, hid, ?_⟩
  intro handler hmem
  rcases hids handler hmem with hmem | hlast
  · rcases h.stamps handler hmem with hzero | ⟨k, hpos, hle, hstamp⟩
    · exact .inl hzero
    · exact .inr ⟨k, hpos, Nat.le_succ_of_le hle, hstamp⟩
  · exact .inr ⟨streams + 1, Nat.succ_pos _, Nat.le_refl _, hlast.trans hid⟩

end Multiplexer
end NetworkingFramework
