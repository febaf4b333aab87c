import DtcServer.Barrier
/-!
# BarrierRun — every interleaving of arrivals and completions through the barrier unit A task arrives once, with the contents
`arrival` gives it; while it is downstream its packed key may be rebuilt any number of times; it comes back with any result.
Both handlers end in their call out (`ChainRequest`, `ReplyNotify`), and `QueueRequest` only queues, so each handler is one
step here. In each the memory for a queue's slot may be refused.
-/
namespace Dtc

open BarrierUnit (passes queueOf busy busyMessage)

structure BarrierWorld where
  unit : BarrierUnit
  obj : TaskId → TaskRequest
  /-- handed to `output`, not back yet -/
  inflight : List TaskId
  replied : List (TaskId × ResultInfo)
  /-- every task that arrived, in order -/
  seen : List TaskId
  /-- the tasks no limit turned away, in order of arrival -/
  accepted : List TaskId
  /-- the tasks handed to `output`, in that order -/
  released : List TaskId
  /-- the tasks that came back, in that order -/
  finished : List TaskId

inductive BarrierAction where
  | arrive (id : TaskId) (slot : Bool)
  | rebuildKey (id : TaskId) (val : UInt64)
  | complete (id : TaskId) (result : ResultInfo) (slot : Bool)
  deriving DecidableEq, Repr

namespace BarrierWorld

def init (arrival : TaskId → TaskRequest) (max maxkeycount : Int) : BarrierWorld :=
  ⟨.init max maxkeycount, arrival, [], [], [], [], [], []⟩

def setObj (w : BarrierWorld) (id : TaskId) (t : TaskRequest) : BarrierWorld :=
  { w with obj := Function.update w.obj id t }

def applyEffect (slot : Bool) (w : BarrierWorld) : BarrierEffect → BarrierWorld
  | .chainRequest id => { w with inflight := w.inflight ++ [id], released := w.released ++ [id] }
  -- `IndirectNotify` does not look at the result of `Push` either
  | .queueRequest id =>
    if slot then { w with inflight := w.inflight ++ [id], released := w.released ++ [id] } else w
  | .replyNotify id => { w with replied := w.replied ++ [(id, (w.obj id).resultInfo)] }

def applyEffects (slot : Bool) (w : BarrierWorld) (es : List BarrierEffect) : BarrierWorld :=
  es.foldl (applyEffect slot) w

def arrive (w : BarrierWorld) (id : TaskId) (slot : Bool) : BarrierWorld :=
  let r := w.unit.taskNotify id (w.obj id) slot
  let w' := { w.setObj id r.2.1 with
    unit := r.1, seen := w.seen ++ [id],
    accepted := if BarrierEffect.replyNotify id ∈ r.2.2 then w.accepted else w.accepted ++ [id] }
  applyEffects slot w' r.2.2

def complete (w : BarrierWorld) (id : TaskId) (result : ResultInfo) (slot : Bool) : BarrierWorld :=
  let t := { w.obj id with resultInfo := result }
  let r := w.unit.replyNotify id t
  let w' := { w.setObj id t with
    unit := r.1, inflight := w.inflight.erase id, finished := w.finished ++ [id] }
  applyEffects slot w' r.2

def step (w : BarrierWorld) : BarrierAction → Option BarrierWorld
  | .arrive id slot => if id ∈ w.seen then none else some (w.arrive id slot)
  | .rebuildKey id val => if id ∈ w.inflight then some (w.setObj id ((w.obj id).updatePackedKey val)) else none
  | .complete id result slot => if id ∈ w.inflight then some (w.complete id result slot) else none

/-- **Where a slot is asked for, there is memory for it**: a task that is put into its key's queue, and the next task of a
key when the first comes back. -/
def StepOk (w : BarrierWorld) : BarrierAction → Prop
  | .arrive id slot => slot = true ∨ passes (w.obj id) = true ∨ w.unit.busy (w.obj id).barrierKey = true
  | .rebuildKey _ _ => True
  | .complete id _ slot =>
    slot = true ∨ passes (w.obj id) = true ∨ (w.unit.queueOf (w.obj id).barrierKey).length ≤ 1

instance (w : BarrierWorld) : ∀ a, Decidable (w.StepOk a)
  | .arrive _ _ => inferInstanceAs (Decidable (_ ∨ _ ∨ _))
  | .rebuildKey _ _ => isTrue trivial
  | .complete _ _ _ => inferInstanceAs (Decidable (_ ∨ _ ∨ _))

def repliedIds (w : BarrierWorld) : List TaskId := w.replied.map Prod.fst

end BarrierWorld

def barrierMachine (arrival : TaskId → TaskRequest) (max maxkeycount : Int) : Machine BarrierWorld BarrierAction where
  start w := w = .init arrival max maxkeycount
  step := BarrierWorld.step

def ofKey (arrival : TaskId → TaskRequest) (key : UInt64) (id : TaskId) : Bool :=
  !passes (arrival id) && (arrival id).barrierKey == key

theorem ofKey_iff {arrival : TaskId → TaskRequest} {key : UInt64} {id : TaskId} :
    ofKey arrival key id = true ↔ passes (arrival id) = false ∧ (arrival id).barrierKey = key := by
  simp [ofKey]

/-- The tasks queued behind the one that is downstream. -/
def waiting (w : BarrierWorld) (key : UInt64) : List TaskId := (w.unit.queueOf key).tail

/-- **The invariant of the unit's runs**, for each key the queue behind the chains and for each task the one place it is
in. -/
structure BarrierInv (arrival : TaskId → TaskRequest) (w : BarrierWorld) : Prop where
  wf : w.unit.Wf
  /-- what the unit reads of a task is what the task arrived with -/
  stable : ∀ id, (w.obj id).barrierKey = (arrival id).barrierKey ∧ passes (w.obj id) = passes (arrival id)
  accepted : ∀ k, w.accepted.filter (ofKey arrival k) = w.finished.filter (ofKey arrival k) ++ w.unit.queueOf k
  released : ∀ k, w.released.filter (ofKey arrival k) =
    w.finished.filter (ofKey arrival k) ++ (w.unit.queueOf k).take 1
  inflight : ∀ k, w.inflight.filter (ofKey arrival k) = (w.unit.queueOf k).take 1
  /-- a task is waiting, downstream or replied, once, if it arrived at all -/
  tally : ∀ id, (waiting w (arrival id).barrierKey).count id + w.inflight.count id + w.repliedIds.count id =
    if id ∈ w.seen then 1 else 0
  order : w.accepted.Sublist w.seen

namespace BarrierInv

variable {arrival : TaskId → TaskRequest} {w : BarrierWorld}

theorem ofKey_of_queued (hw : BarrierInv arrival w) {k : UInt64} {id : TaskId} (h : id ∈ w.unit.queueOf k) :
    ofKey arrival k id = true := by
  have hmem : id ∈ w.accepted.filter (ofKey arrival k) := by
    rw [hw.accepted k]
    exact List.mem_append_right _ h
  exact (List.mem_filter.mp hmem).2

theorem queue_of_inflight (hw : BarrierInv arrival w) {id : TaskId} (hin : id ∈ w.inflight)
    (hp : passes (arrival id) = false) : ∃ rest, w.unit.queueOf (arrival id).barrierKey = id :: rest := by
  have hmem : id ∈ w.inflight.filter (ofKey arrival (arrival id).barrierKey) :=
    List.mem_filter.mpr ⟨hin, ofKey_iff.mpr ⟨hp, rfl⟩⟩
  rw [hw.inflight] at hmem
  cases hq : w.unit.queueOf (arrival id).barrierKey with
  | nil => simp [hq] at hmem
  | cons x rest =>
    simp only [hq, List.take_succ_cons, List.take_zero, List.mem_singleton] at hmem
    exact ⟨rest, by rw [hmem]⟩

end BarrierInv

theorem barrierInv_init (arrival : TaskId → TaskRequest) (max maxkeycount : Int) :
    BarrierInv arrival (.init arrival max maxkeycount) := by
  have hq : ∀ k, (BarrierUnit.init max maxkeycount).queueOf k = [] := fun _ => rfl
  refine ⟨⟨?_, ?_, ?_, ?_, ?_⟩, fun _ => ⟨rfl, rfl⟩, fun k => ?_, fun k => ?_, fun k => ?_, fun id => ?_, ?_⟩
  · simp [BarrierWorld.init, BarrierUnit.init]
  · simp [BarrierWorld.init, BarrierUnit.init]
  · simp [BarrierWorld.init, BarrierUnit.init]
  · simp [BarrierWorld.init, BarrierUnit.init]
  · simp [BarrierWorld.init, BarrierUnit.init, BarrierUnit.chained]
  · simp [BarrierWorld.init, hq]
  · simp [BarrierWorld.init, hq]
  · simp [BarrierWorld.init, hq]
  · simp [BarrierWorld.init, waiting, BarrierWorld.repliedIds, hq]
  · simp [BarrierWorld.init]

/-! ## One step -/

theorem take_one_snoc {α : Type} (q : List α) (x : α) [Decidable (q = [])] :
    (q ++ [x]).take 1 = q.take 1 ++ if q = [] then [x] else [] := by
  cases q <;> simp

theorem tail_snoc {α : Type} (q : List α) (x : α) [Decidable (q = [])] :
    (q ++ [x]).tail = q.tail ++ if q = [] then [] else [x] := by
  cases q <;> simp

section Step

variable {arrival : TaskId → TaskRequest} {w : BarrierWorld}

theorem stable_update {id : TaskId} {t : TaskRequest}
    (hw : ∀ id, (w.obj id).barrierKey = (arrival id).barrierKey ∧ passes (w.obj id) = passes (arrival id))
    (ht : t.barrierKey = (w.obj id).barrierKey ∧ passes t = passes (w.obj id)) (id' : TaskId) :
    (Function.update w.obj id t id').barrierKey = (arrival id').barrierKey ∧
      passes (Function.update w.obj id t id') = passes (arrival id') := by
  by_cases h : id' = id
  · subst h
    rw [Function.update_self, ht.1, ht.2]
    exact hw id'
  · rw [Function.update_of_ne h]
    exact hw id'

theorem tally_arrive (hw : BarrierInv arrival w) {id : TaskId} (hnew : id ∉ w.seen) :
    (waiting w (arrival id).barrierKey).count id = 0 ∧ w.inflight.count id = 0 ∧ w.repliedIds.count id = 0 := by
  have h := hw.tally id
  rw [if_neg hnew] at h
  omega

theorem BarrierInv.arrive_passes (hw : BarrierInv arrival w) {id : TaskId} (hnew : id ∉ w.seen)
    (hp : passes (arrival id) = true) (slot : Bool) : BarrierInv arrival (w.arrive id slot) := by
  have hpo : passes (w.obj id) = true := (hw.stable id).2.trans hp
  have harr : w.arrive id slot = { w with
      seen := w.seen ++ [id], accepted := w.accepted ++ [id], inflight := w.inflight ++ [id],
      released := w.released ++ [id] } := by
    simp [BarrierWorld.arrive, BarrierUnit.taskNotify, hpo, BarrierWorld.applyEffects, BarrierWorld.applyEffect,
      BarrierWorld.setObj, Function.update_eq_self]
  have hk : ∀ k, ofKey arrival k id = false := fun k => by simp [ofKey, hp]
  rw [harr]
  refine ⟨hw.wf, hw.stable, fun k => ?_, fun k => ?_, fun k => ?_, fun id' => ?_, ?_⟩
  · simpa [hk] using hw.accepted k
  · simpa [hk] using hw.released k
  · simpa [hk] using hw.inflight k
  · have h := hw.tally id'
    by_cases hid : id' = id
    · subst hid
      have h0 := tally_arrive hw hnew
      simp only [waiting, BarrierWorld.repliedIds] at h0 ⊢
      simp [h0]
    · simp only [waiting, BarrierWorld.repliedIds] at h ⊢
      simpa [hid, List.count_singleton, Ne.symm hid] using h
  · exact hw.order.append (List.Sublist.refl _)

theorem BarrierInv.arrive_busy_eq (hw : BarrierInv arrival w) {id : TaskId} (hp : passes (arrival id) = false)
    (hb : w.unit.busy (arrival id).barrierKey = true) (slot : Bool) :
    w.arrive id slot = { w with
      obj := Function.update w.obj id ((w.obj id).setError (-ecServerBusy) "TaskNotify"
        (w.unit.busyMessage (arrival id).barrierKey)),
      seen := w.seen ++ [id],
      replied := w.replied ++
        [(id, ⟨-ecServerBusy, "TaskNotify", w.unit.busyMessage (arrival id).barrierKey⟩)] } := by
  have hs := hw.stable id
  have hn := BarrierUnit.taskNotify_busy hw.wf id (hs.2.trans hp) (by rw [hs.1]; exact hb) slot
  rw [hs.1] at hn
  simp [BarrierWorld.arrive, hn, BarrierWorld.applyEffects, BarrierWorld.applyEffect, BarrierWorld.setObj,
    TaskRequest.setError]

theorem BarrierInv.arrive_busy (hw : BarrierInv arrival w) {id : TaskId} (hnew : id ∉ w.seen)
    (hp : passes (arrival id) = false) (hb : w.unit.busy (arrival id).barrierKey = true) (slot : Bool) :
    BarrierInv arrival (w.arrive id slot) := by
  rw [hw.arrive_busy_eq hp hb slot]
  refine ⟨hw.wf, stable_update hw.stable ⟨rfl, rfl⟩, hw.accepted, hw.released, hw.inflight, fun id' => ?_, ?_⟩
  · have h := hw.tally id'
    by_cases hid : id' = id
    · subst hid
      have h0 := tally_arrive hw hnew
      simp only [waiting, BarrierWorld.repliedIds] at h0 ⊢
      simp [h0]
    · simp only [waiting, BarrierWorld.repliedIds] at h ⊢
      simpa [hid, List.count_singleton, Ne.symm hid] using h
  · exact hw.order.trans (List.sublist_append_left _ _)

theorem BarrierInv.arrive_room_eq (hw : BarrierInv arrival w) {id : TaskId} (hp : passes (arrival id) = false)
    (hb : w.unit.busy (arrival id).barrierKey = false) :
    ∃ u', u'.Wf ∧
      (∀ k, u'.queueOf k = if k = (arrival id).barrierKey then w.unit.queueOf k ++ [id] else w.unit.queueOf k) ∧
      w.arrive id true = { w with
        unit := u', seen := w.seen ++ [id], accepted := w.accepted ++ [id],
        inflight := w.inflight ++ if w.unit.queueOf (arrival id).barrierKey = [] then [id] else [],
        released := w.released ++ if w.unit.queueOf (arrival id).barrierKey = [] then [id] else [] } := by
  have hs := hw.stable id
  obtain ⟨u', hwf, hn, hq⟩ := BarrierUnit.taskNotify_room hw.wf id (hs.2.trans hp) (by rw [hs.1]; exact hb)
  rw [hs.1] at hn hq
  refine ⟨u', hwf, hq, ?_⟩
  by_cases he : w.unit.queueOf (arrival id).barrierKey = []
  · simp [BarrierWorld.arrive, hn, he, BarrierWorld.applyEffects, BarrierWorld.applyEffect, BarrierWorld.setObj,
      Function.update_eq_self]
  · simp [BarrierWorld.arrive, hn, he, BarrierWorld.applyEffects, BarrierWorld.setObj, Function.update_eq_self]

theorem BarrierInv.arrive_room (hw : BarrierInv arrival w) {id : TaskId} (hnew : id ∉ w.seen)
    (hp : passes (arrival id) = false) (hb : w.unit.busy (arrival id).barrierKey = false) :
    BarrierInv arrival (w.arrive id true) := by
  obtain ⟨u', hwf, hq, harr⟩ := hw.arrive_room_eq hp hb
  have hk : ∀ k, ofKey arrival k id = decide (k = (arrival id).barrierKey) := fun k => by
    rw [Bool.eq_iff_iff, ofKey_iff, decide_eq_true_eq]
    exact ⟨fun h => h.2.symm, fun h => ⟨hp, h.symm⟩⟩
  have h0 := tally_arrive hw hnew
  rw [harr]
  generalize hkey : (arrival id).barrierKey = key at hk hq h0
  have htake : ∀ k, (u'.queueOf k).take 1 =
      (w.unit.queueOf k).take 1 ++ (if w.unit.queueOf key = [] then [id] else []).filter (ofKey arrival k) := by
    intro k
    by_cases hkk : k = key
    · subst hkk
      rw [hq, if_pos rfl, take_one_snoc]
      split <;> simp [hk]
    · rw [hq, if_neg hkk]
      split <;> simp [hk, hkk]
  refine ⟨hwf, hw.stable, fun k => ?_, fun k => ?_, fun k => ?_, fun id' => ?_, ?_⟩
  · rw [List.filter_append, hw.accepted k, hq, List.append_assoc]
    by_cases hkk : k = key
    · simp [hk, hkk]
    · simp [hk, hkk]
  · rw [List.filter_append, hw.released k, htake, List.append_assoc]
  · rw [List.filter_append, hw.inflight k, htake]
  · have h := hw.tally id'
    simp only [waiting, BarrierWorld.repliedIds] at h h0 ⊢
    by_cases hid : id' = id
    · subst hid
      rw [hkey, hq, if_pos rfl, tail_snoc, List.count_append, List.count_append, h0.1, h0.2.1, h0.2.2]
      split <;> simp
    · have hcount : ∀ c : Prop, [Decidable c] → (if c then [id] else []).count id' = 0 := by
        intro c _
        split <;> simp [Ne.symm hid]
      rw [List.count_append, hcount, hq]
      split
      · rename_i hkk
        rw [tail_snoc, List.count_append, ← ite_not, hcount]
        simpa [hid] using h
      · simpa [hid] using h
  · exact hw.order.append (List.Sublist.refl _)

theorem BarrierInv.rebuildKey (hw : BarrierInv arrival w) (id : TaskId) (val : UInt64) :
    BarrierInv arrival (w.setObj id ((w.obj id).updatePackedKey val)) := by
  have hf := (w.obj id).updatePackedKey_frame val
  refine ⟨hw.wf, stable_update hw.stable ⟨hf.1, ?_⟩, hw.accepted, hw.released, hw.inflight, hw.tally, hw.order⟩
  simp [passes, hf]

theorem applyEffects_queue (slot : Bool) (w : BarrierWorld) (cur : TaskId) :
    ∀ ids : List TaskId, slot = true ∨ ids = [] →
      BarrierWorld.applyEffects slot w (ids.map BarrierEffect.queueRequest ++ [.replyNotify cur]) = { w with
        inflight := w.inflight ++ ids, released := w.released ++ ids,
        replied := w.replied ++ [(cur, (w.obj cur).resultInfo)] }
  | [], _ => by simp [BarrierWorld.applyEffects, BarrierWorld.applyEffect]
  | id :: ids, hslot => by
    obtain rfl := hslot.resolve_right (List.cons_ne_nil id ids)
    have ih := applyEffects_queue true (BarrierWorld.applyEffect true w (.queueRequest id)) cur ids (.inl rfl)
    simp only [BarrierWorld.applyEffects, List.map_cons, List.cons_append, List.foldl_cons] at ih ⊢
    rw [ih]
    simp [BarrierWorld.applyEffect]

theorem BarrierInv.complete_passes (hw : BarrierInv arrival w) {id : TaskId} (hin : id ∈ w.inflight)
    (hp : passes (arrival id) = true) (result : ResultInfo) (slot : Bool) :
    BarrierInv arrival (w.complete id result slot) := by
  have hpo : passes { w.obj id with resultInfo := result } = true := (hw.stable id).2.trans hp
  have hcomp : w.complete id result slot = { w with
      obj := Function.update w.obj id { w.obj id with resultInfo := result },
      inflight := w.inflight.erase id, finished := w.finished ++ [id],
      replied := w.replied ++ [(id, result)] } := by
    simp [BarrierWorld.complete, BarrierUnit.replyNotify, hpo, BarrierWorld.applyEffects, BarrierWorld.applyEffect,
      BarrierWorld.setObj]
  have hk : ∀ k, ofKey arrival k id = false := fun k => by simp [ofKey, hp]
  rw [hcomp]
  refine ⟨hw.wf, stable_update hw.stable ⟨rfl, rfl⟩, fun k => ?_, fun k => ?_, fun k => ?_, fun id' => ?_, hw.order⟩
  · simpa [hk] using hw.accepted k
  · simpa [hk] using hw.released k
  · have hnot : id ∉ w.inflight.filter (ofKey arrival k) := by simp [hk]
    rw [← List.erase_filter, List.erase_of_not_mem hnot]
    exact hw.inflight k
  · have h := hw.tally id'
    simp only [waiting, BarrierWorld.repliedIds] at h ⊢
    by_cases hid : id' = id
    · subst hid
      have hpos : 0 < w.inflight.count id' := List.count_pos_iff.mpr hin
      simp only [List.count_erase_self, List.map_append, List.map_cons, List.map_nil, List.count_append,
        List.count_singleton_self]
      omega
    · rw [List.count_erase_of_ne hid, List.map_append, List.count_append]
      simpa [Ne.symm hid] using h

theorem BarrierInv.complete_head (hw : BarrierInv arrival w) {id : TaskId} (hin : id ∈ w.inflight)
    (hp : passes (arrival id) = false) (result : ResultInfo) {slot : Bool}
    (hslot : slot = true ∨ (w.unit.queueOf (arrival id).barrierKey).length ≤ 1) :
    BarrierInv arrival (w.complete id result slot) := by
  have hs := hw.stable id
  obtain ⟨rest, hqueue⟩ := hw.queue_of_inflight hin hp
  have hslot' : slot = true ∨ rest.take 1 = [] := by
    refine hslot.imp_right (fun hle => ?_)
    rw [hqueue, List.length_cons] at hle
    rw [List.length_eq_zero_iff.mp (by omega : rest.length = 0)]
    rfl
  obtain ⟨u', hwf, hn, hq⟩ := BarrierUnit.replyNotify_head hw.wf (t := { w.obj id with resultInfo := result })
    (hs.2.trans hp) (hs.1 ▸ hqueue)
  have hcomp : w.complete id result slot = { w with
      unit := u', obj := Function.update w.obj id { w.obj id with resultInfo := result },
      inflight := w.inflight.erase id ++ rest.take 1, released := w.released ++ rest.take 1,
      finished := w.finished ++ [id], replied := w.replied ++ [(id, result)] } := by
    simp only [BarrierWorld.complete, hn, applyEffects_queue slot _ _ _ hslot', BarrierWorld.setObj, Function.update_self]
  have hkey' : TaskRequest.barrierKey { w.obj id with resultInfo := result } = (arrival id).barrierKey := hs.1
  rw [hkey'] at hq
  have hself := ofKey_iff.mpr ⟨hp, rfl⟩
  -- what the queue of the key held is of the key, and of no other
  have hrest : ∀ k, (rest.take 1).filter (ofKey arrival k) = if k = (arrival id).barrierKey then rest.take 1 else [] := by
    intro k
    have hmem : ∀ x ∈ rest.take 1, ofKey arrival (arrival id).barrierKey x = true := fun x hx =>
      hw.ofKey_of_queued (by rw [hqueue]; exact List.mem_cons_of_mem _ (List.mem_of_mem_take hx))
    split
    · rename_i hk
      rw [hk, List.filter_eq_self.mpr hmem]
    · rename_i hk
      rw [List.filter_eq_nil_iff]
      intro x hx hx'
      exact hk ((ofKey_iff.mp hx').2.symm.trans (ofKey_iff.mp (hmem x hx)).2)
  generalize hkey : (arrival id).barrierKey = key at *
  have hk : ∀ k, ofKey arrival k id = decide (k = key) := fun k => by
    rw [Bool.eq_iff_iff, ofKey_iff, decide_eq_true_eq, hkey]
    exact ⟨fun h => h.2.symm, fun h => ⟨hp, h.symm⟩⟩
  rw [hcomp]
  refine ⟨hwf, stable_update hw.stable ⟨rfl, rfl⟩, fun k => ?_, fun k => ?_, fun k => ?_, fun id' => ?_, hw.order⟩
  · rw [List.filter_append, hw.accepted k, hq]
    by_cases hkk : k = key
    · simp [hk, hkk, hqueue]
    · simp [hk, hkk]
  · rw [List.filter_append, List.filter_append, hw.released k, hq, hrest]
    by_cases hkk : k = key
    · simp [hk, hkk, hqueue]
    · simp [hk, hkk]
  · rw [List.filter_append, ← List.erase_filter, hw.inflight k, hq, hrest]
    by_cases hkk : k = key
    · simp [hkk, hqueue]
    · have hnot : id ∉ (w.unit.queueOf k).take 1 := by
        rw [← hw.inflight k]
        simp [hk, hkk]
      simp [hkk, List.erase_of_not_mem hnot]
  · have h := hw.tally id'
    have hsplit : rest.count id' = (rest.take 1).count id' + rest.tail.count id' := by
      rw [← List.drop_one, ← List.count_append, List.take_append_drop]
    simp only [waiting, BarrierWorld.repliedIds] at h ⊢
    rw [hq]
    by_cases hid : id' = id
    · subst hid
      have hpos : 0 < w.inflight.count id' := List.count_pos_iff.mpr hin
      rw [hkey, hqueue, List.tail_cons] at h
      rw [if_pos hkey, List.count_append, List.count_erase_self, List.map_append, List.count_append]
      have hone : (List.map Prod.fst [(id', result)]).count id' = 1 := by simp
      rw [hone]
      split at h <;> rename_i hseen
      · rw [if_pos hseen]
        omega
      · omega
    · rw [List.count_append, List.count_erase_of_ne hid, List.map_append, List.count_append]
      have hone : (List.map Prod.fst [(id, result)]).count id' = 0 := by simp [Ne.symm hid]
      rw [hone]
      by_cases hkk : (arrival id').barrierKey = key
      · rw [if_pos hkk]
        rw [hkk, hqueue, List.tail_cons] at h
        omega
      · rw [if_neg hkk]
        have hzero : (rest.take 1).count id' = 0 := by
          rw [List.count_eq_zero]
          intro hx
          have hx' := List.mem_filter.mpr ⟨hx, hw.ofKey_of_queued (k := key) (by
            rw [hqueue]
            exact List.mem_cons_of_mem _ (List.mem_of_mem_take hx))⟩
          exact hkk (ofKey_iff.mp (List.mem_filter.mp hx').2).2
        omega

end Step

theorem barrierInv_step {arrival : TaskId → TaskRequest} {w w' : BarrierWorld} {a : BarrierAction}
    (hw : BarrierInv arrival w) (hok : w.StepOk a) (hs : w.step a = some w') : BarrierInv arrival w' := by
  cases a with
  | arrive id slot =>
    simp only [BarrierWorld.step] at hs
    split at hs
    · cases hs
    · rename_i hnew
      obtain rfl := Option.some.inj hs
      dsimp only [BarrierWorld.StepOk] at hok
      rw [(hw.stable id).1, (hw.stable id).2] at hok
      cases hp : passes (arrival id) with
      | true => exact hw.arrive_passes hnew hp slot
      | false =>
        cases hb : w.unit.busy (arrival id).barrierKey with
        | true => exact hw.arrive_busy hnew hp hb slot
        | false =>
          obtain rfl : slot = true := by simpa [hp, hb] using hok
          exact hw.arrive_room hnew hp hb
  | rebuildKey id val =>
    simp only [BarrierWorld.step] at hs
    split at hs
    · obtain rfl := Option.some.inj hs
      exact hw.rebuildKey id val
    · cases hs
  | complete id result slot =>
    simp only [BarrierWorld.step] at hs
    split at hs
    · rename_i hin
      obtain rfl := Option.some.inj hs
      dsimp only [BarrierWorld.StepOk] at hok
      rw [(hw.stable id).1, (hw.stable id).2] at hok
      cases hp : passes (arrival id) with
      | true => exact hw.complete_passes hin hp result slot
      | false => exact hw.complete_head hin hp result (by simpa [hp] using hok)
    · cases hs

theorem barrierInv_reachable {arrival : TaskId → TaskRequest} {max maxkeycount : Int} {w : BarrierWorld}
    (h : (barrierMachine arrival max maxkeycount).ReachableMeeting BarrierWorld.StepOk w) : BarrierInv arrival w :=
  (barrierMachine arrival max maxkeycount).reachableMeeting_induct
    (fun _ hs => hs ▸ barrierInv_init arrival max maxkeycount) (fun _ _ _ hw hok hs => barrierInv_step hw hok hs) h

/-! ## What the unit guarantees -/

def barriersWithTask (u : BarrierUnit) : Nat :=
  ∑ i ∈ Finset.range BarrierUnit.barrierHashMax, ((u.hashSlot i).filter (fun b => !b.queue.isEmpty)).length

theorem BarrierUnit.Wf.barriersWithTask_eq {u : BarrierUnit} (hu : u.Wf) : (barriersWithTask u : Int) = u.count := by
  have hall : barriersWithTask u = u.chained := by
    refine Finset.sum_congr rfl (fun i _ => ?_)
    rw [List.filter_eq_self.mpr]
    intro b hb
    simpa using hu.slotTask i b hb
  rw [hall, hu.countEq]

/-- **The unit's contract**, in one state of a run. -/
structure BarrierSerialises (arrival : TaskId → TaskRequest) (w : BarrierWorld) : Prop where
  /-- of a key at most one task is downstream -/
  oneInFlight : ∀ key, (w.inflight.filter (ofKey arrival key)).length ≤ 1
  /-- the tasks of a key go downstream in the order they arrived in -/
  arrivalOrder : ∀ key, w.released.filter (ofKey arrival key) <+: w.accepted.filter (ofKey arrival key)
  acceptedOrder : w.accepted.Sublist w.seen
  repliedOnce : ∀ id, w.repliedIds.count id ≤ 1
  /-- a task that is not replied yet is downstream, or one of its key is -/
  notLost : ∀ id ∈ w.seen, id ∉ w.repliedIds →
    id ∈ w.inflight ∨ ∃ id' ∈ w.inflight, ofKey arrival (arrival id).barrierKey id' = true
  /-- when nothing is downstream, every task has its one reply -/
  allReplied : w.inflight = [] → ∀ id ∈ w.seen, w.repliedIds.count id = 1
  /-- a task over a limit gets its error, and nothing else changes -/
  rejected : ∀ id ∉ w.seen, passes (arrival id) = false → w.unit.busy (arrival id).barrierKey = true → ∀ slot,
    w.step (.arrive id slot) = some { w with
      obj := Function.update w.obj id ((w.obj id).setError (-ecServerBusy) "TaskNotify"
        (w.unit.busyMessage (arrival id).barrierKey)),
      seen := w.seen ++ [id],
      replied := w.replied ++
        [(id, ⟨-ecServerBusy, "TaskNotify", w.unit.busyMessage (arrival id).barrierKey⟩)] }
  /-- any other task is accepted, where there is memory for it -/
  taken : ∀ id ∉ w.seen, passes (arrival id) = true ∨ w.unit.busy (arrival id).barrierKey = false →
    ∃ w', w.step (.arrive id true) = some w' ∧ w'.accepted = w.accepted ++ [id] ∧ w'.replied = w.replied
  counted : w.unit.count = barriersWithTask w.unit

theorem BarrierInv.notLost {arrival : TaskId → TaskRequest} {w : BarrierWorld} (hw : BarrierInv arrival w) {id : TaskId}
    (hseen : id ∈ w.seen) (hrep : id ∉ w.repliedIds) :
    id ∈ w.inflight ∨ ∃ id' ∈ w.inflight, ofKey arrival (arrival id).barrierKey id' = true := by
  have h := hw.tally id
  rw [if_pos hseen, List.count_eq_zero.mpr hrep] at h
  by_cases hin : id ∈ w.inflight
  · exact .inl hin
  · right
    rw [List.count_eq_zero.mpr hin] at h
    have hwait : id ∈ waiting w (arrival id).barrierKey := List.count_pos_iff.mp (by omega)
    have hinf := hw.inflight (arrival id).barrierKey
    cases hq : w.unit.queueOf (arrival id).barrierKey with
    | nil => simp [waiting, hq] at hwait
    | cons x rest =>
      rw [hq, List.take_succ_cons, List.take_zero] at hinf
      have hx : x ∈ w.inflight.filter (ofKey arrival (arrival id).barrierKey) := by simp [hinf]
      exact ⟨x, (List.mem_filter.mp hx).1, (List.mem_filter.mp hx).2⟩

/-- **The barrier unit serialises the tasks of a key**: in every state that an interleaving of arrivals, key rebuilds
and completions reaches, when there is memory for each slot that is asked for. -/
theorem barrierMachine_serialises (arrival : TaskId → TaskRequest) (max maxkeycount : Int) (w : BarrierWorld)
    (h : (barrierMachine arrival max maxkeycount).ReachableMeeting BarrierWorld.StepOk w) :
    BarrierSerialises arrival w := by
  have hw := barrierInv_reachable h
  have hcount : ∀ id, w.repliedIds.count id ≤ 1 := fun id => by
    have := hw.tally id
    split at this <;> omega
  refine ⟨fun key => ?_, fun key => ?_, hw.order, hcount, fun id hs hr => hw.notLost hs hr, fun hnil id hs => ?_,
    fun id hnew hp hb slot => ?_, fun id hnew hor => ?_, hw.wf.barriersWithTask_eq.symm⟩
  · rw [hw.inflight]
    exact List.length_take_le 1 _
  · rw [hw.released, hw.accepted]
    exact List.prefix_append_right_inj _ |>.mpr (List.take_prefix 1 _)
  · by_cases hr : id ∈ w.repliedIds
    · have := List.count_pos_iff.mpr hr
      have := hcount id
      omega
    · rcases hw.notLost hs hr with hin | ⟨_, hin, _⟩ <;> simp [hnil] at hin
  · rw [← hw.arrive_busy_eq hp hb slot]
    simp [BarrierWorld.step, hnew]
  · refine ⟨w.arrive id true, by simp [BarrierWorld.step, hnew], ?_⟩
    cases hp : passes (arrival id) with
    | true =>
      have hpo : passes (w.obj id) = true := (hw.stable id).2.trans hp
      simp [BarrierWorld.arrive, BarrierUnit.taskNotify, hpo, BarrierWorld.applyEffects, BarrierWorld.applyEffect,
        BarrierWorld.setObj]
    | false =>
      obtain ⟨u', -, -, harr⟩ := hw.arrive_room_eq hp (hor.resolve_left (by simp [hp]))
      simp [harr]

/-- Three inserts; the first two have one key, the third has another key of the same chain. -/
def threeInserts (id : TaskId) : TaskRequest :=
  { tdef := { fieldList := [⟨[107], .unsigned, 4, 0, false⟩], keyFields := 1, keyFormat := 4, hasAutoInc := 0 },
    requestCode := .insert, packedKey := [0, 0, 0, 0],
    barHash := if id = 2 then 1024 else 0 }

/-- The first task of the key comes back with its key rebuilt, and the second goes downstream. -/
def rebuiltMeanwhile : List BarrierAction :=
  [.arrive 0 true, .arrive 1 true, .arrive 2 true, .rebuildKey 0 7, .complete 0 {} true]

theorem barrierMachine_serialises_threeInserts :
    ∃ w, (barrierMachine threeInserts 10 10).run (.init threeInserts 10 10) rebuiltMeanwhile = some w ∧
      (w.obj 0).packedKey = [7, 0, 0, 0] ∧ w.released = [0, 2, 1] ∧ w.unit.count = 2 ∧
      BarrierSerialises threeInserts w := by
  refine ⟨_, rfl, by decide, by decide, by decide, ?_⟩
  exact barrierMachine_serialises threeInserts 10 10 _ ⟨_, rebuiltMeanwhile, rfl, by decide, rfl⟩

/-- **A task is lost**: there is no memory for the slot of the key's second task, and it is never replied. -/
theorem barrierMachine_losesTask : ∃ w, (barrierMachine threeInserts 10 10).Reachable w ∧
    ¬ BarrierSerialises threeInserts w := by
  refine ⟨_, ⟨_, [.arrive 0 true, .arrive 1 false, .complete 0 {} true], rfl, rfl⟩, fun hw => ?_⟩
  have hreplied := hw.allReplied (by decide) 1 (by decide)
  revert hreplied
  decide

end Dtc
