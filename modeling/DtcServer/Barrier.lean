import DtcServer.TaskKey
import Mathlib.Algebra.BigOperators.Group.Finset.Basic
import Mathlib.Data.List.Nodup
import Mathlib.Tactic.Ring
/-!
# Barrier — `CBarrierUnit`: one task of a key downstream at a time

The unit keeps a queue of tasks for every key that has a task downstream, found through a hash of chains.  The head of
a queue is the task that is downstream; the barrier of a key is detached to a free list with its last task.  Tasks are
told apart by an id, as the unit tells them apart by their address.
-/
namespace Dtc

abbrev TaskId := Nat

/-- `CBarrier`: a key and the queue of its tasks. -/
structure Barrier where
  key : UInt64
  queue : List TaskId
  deriving DecidableEq, Repr

/-- `CLinkQueue::Push`: without memory for a slot (it returns -1) the queue stays as it is. -/
def Barrier.push (b : Barrier) (id : TaskId) (slot : Bool) : Barrier :=
  if slot then { b with queue := b.queue ++ [id] } else b

def Barrier.pop (b : Barrier) : Barrier := { b with queue := b.queue.tail }

/-- What the unit does to a task besides queueing it: hand it to `output` (at once, or through the output's own queue)
or reply it. -/
inductive BarrierEffect where
  | chainRequest (id : TaskId)
  | queueRequest (id : TaskId)
  | replyNotify (id : TaskId)
  deriving DecidableEq, Repr

structure BarrierUnit where
  count : Int
  maxBarrier : Int
  maxKeyCount : Int
  freeList : List Barrier
  hashSlot : Nat → List Barrier
  statBarrierCount : Int
  statBarrierMaxTask : Int

namespace BarrierUnit

def init (max maxkeycount : Int) : BarrierUnit :=
  ⟨0, max, maxkeycount, [], fun _ => [], 0, 0⟩

def barrierHashMax : Nat := 1024 * 8

/-- `key % BARRIER_HASH_MAX`, where the macro is `1024 * 8` without brackets. -/
def key2idx (key : UInt64) : Nat := key.toNat % 1024 * 8

/-- `GetBarrier`: the first barrier of the key in its chain. -/
def getBarrier (u : BarrierUnit) (key : UInt64) : Option Barrier :=
  (u.hashSlot (key2idx key)).find? (fun b => b.key == key)

def setSlot (u : BarrierUnit) (i : Nat) (slot : List Barrier) : BarrierUnit :=
  { u with hashSlot := Function.update u.hashSlot i slot }

/-- The chain with the first barrier of the key replaced by what `f` makes of it. -/
def modifyFirst (key : UInt64) (f : Barrier → Barrier) : List Barrier → List Barrier
  | [] => []
  | b :: bs => if b.key == key then f b :: bs else b :: modifyFirst key f bs

/-- The barrier that `getBarrier` finds, changed in place. -/
def modifyBarrier (u : BarrierUnit) (key : UInt64) (f : Barrier → Barrier) : BarrierUnit :=
  u.setSlot (key2idx key) (modifyFirst key f (u.hashSlot (key2idx key)))

/-- `AttachFreeBarrier`: the barrier leaves its chain for the head of the free list. -/
def attachFreeBarrier (u : BarrierUnit) (bar : Barrier) : BarrierUnit :=
  let slot := u.hashSlot (key2idx bar.key)
  let u := u.setSlot (key2idx bar.key) (slot.eraseP (fun b => b.key == bar.key))
  { u with freeList := bar :: u.freeList, count := u.count - 1, statBarrierCount := u.count - 1 }

/-- The requests that pass the unit unqueued: admin requests other than `Migrate`, and batches. -/
def passes (t : TaskRequest) : Bool :=
  (decide (t.requestCode = .svrAdmin) && !decide (t.adminCode = .migrate)) || t.isBatchRequest

/-- `TaskNotify`: the unit and the task afterwards, and what is done with the task.  The result of `Push` is not looked
at. -/
def taskNotify (u : BarrierUnit) (cur : TaskId) (t : TaskRequest) (slot : Bool) :
    BarrierUnit × TaskRequest × List BarrierEffect :=
  if passes t then (u, t, [.chainRequest cur])
  else
    let key := t.barrierKey
    match u.getBarrier key with
    | some bar =>
      if (bar.queue.length : Int) < u.maxKeyCount then
        let u' := u.modifyBarrier key (·.push cur slot)
        let n : Int := (bar.push cur slot).queue.length
        let u' := { u' with statBarrierMaxTask := if n > u.statBarrierMaxTask then n else u.statBarrierMaxTask }
        (u', t, [])
      else
        (u, t.setError (-ecServerBusy) "TaskNotify" "too many request blocked at key", [.replyNotify cur])
    | none =>
      if u.count ≥ u.maxBarrier then
        (u, t.setError (-ecServerBusy) "TaskNotify" "too many barriers", [.replyNotify cur])
      else
        -- the head of the free list is taken over with the queue it was left with
        let bar : Barrier := u.freeList.headD ⟨0, []⟩
        let u' := u.setSlot (key2idx key) (u.hashSlot (key2idx key) ++ [{ bar with key }.push cur slot])
        let u' := { u' with freeList := u.freeList.tail, count := u.count + 1, statBarrierCount := u.count + 1 }
        (u', t, [.chainRequest cur])

def replyNotify (u : BarrierUnit) (cur : TaskId) (t : TaskRequest) : BarrierUnit × List BarrierEffect :=
  if passes t then (u, [.replyNotify cur])
  else
    let key := t.barrierKey
    match u.getBarrier key with
    | none => (u, [.replyNotify cur])
    | some bar =>
      if bar.queue.head? = some cur then
        let n : Int := bar.queue.length
        let u := { u with statBarrierMaxTask :=
          if n = u.statBarrierMaxTask then u.statBarrierMaxTask - 1 else u.statBarrierMaxTask }
        let bar' := bar.pop
        match bar'.queue.head? with
        | none => (u.attachFreeBarrier bar', [.replyNotify cur])
        | some next => (u.modifyBarrier key Barrier.pop, [.queueRequest next, .replyNotify cur])
      else (u, [.replyNotify cur])

/-- The queue of a key, empty when the key has no barrier. -/
def queueOf (u : BarrierUnit) (key : UInt64) : List TaskId := ((u.getBarrier key).map Barrier.queue).getD []

def chained (u : BarrierUnit) : Nat := ∑ i ∈ Finset.range barrierHashMax, (u.hashSlot i).length

/-- **What holds of the chains and the free list between two calls**: a chained barrier is in the chain of its key,
alone with that key and with a task; a free one has none; and `count` counts the chained ones. -/
structure Wf (u : BarrierUnit) : Prop where
  slotKey : ∀ i, ∀ b ∈ u.hashSlot i, key2idx b.key = i
  slotNodup : ∀ i, ((u.hashSlot i).map Barrier.key).Nodup
  slotTask : ∀ i, ∀ b ∈ u.hashSlot i, b.queue ≠ []
  freeEmpty : ∀ b ∈ u.freeList, b.queue = []
  countEq : u.count = u.chained

/-! ## The chains -/

theorem key2idx_lt (key : UInt64) : key2idx key < barrierHashMax := by
  unfold key2idx barrierHashMax
  omega

theorem find_modifyFirst (key k : UInt64) (f : Barrier → Barrier) (hf : ∀ b, (f b).key = b.key) :
    ∀ l : List Barrier, (modifyFirst key f l).find? (fun b => b.key == k) =
      if k = key then (l.find? (fun b => b.key == key)).map f else l.find? (fun b => b.key == k)
  | [] => by simp [modifyFirst]
  | b :: bs => by
    unfold modifyFirst
    by_cases hb : b.key = key
    · rw [if_pos (by simpa using hb)]
      by_cases hk : k = key
      · simp [hk, hf, hb]
      · simp [hk, hf, hb, Ne.symm hk]
    · rw [if_neg (by simpa using hb), List.find?_cons, find_modifyFirst key k f hf bs]
      by_cases hk : k = key
      · subst hk
        simp [beq_eq_false_iff_ne.mpr hb]
      · rw [if_neg hk, if_neg hk, List.find?_cons]

theorem find_eraseP (key k : UInt64) :
    ∀ l : List Barrier, (l.map Barrier.key).Nodup → (l.eraseP (fun b => b.key == key)).find? (fun b => b.key == k) =
      if k = key then none else l.find? (fun b => b.key == k)
  | [], _ => by simp
  | b :: bs, hnd => by
    simp only [List.map_cons, List.nodup_cons] at hnd
    by_cases hb : b.key = key
    · rw [List.eraseP_cons_of_pos (by simpa using hb)]
      by_cases hk : k = key
      · rw [if_pos hk, List.find?_eq_none]
        intro c hc hck
        have : c.key = b.key := by rw [hb, ← hk]; simpa using hck
        exact hnd.1 (this ▸ List.mem_map_of_mem hc)
      · rw [if_neg hk, List.find?_cons_of_neg (by simpa [hb] using Ne.symm hk)]
    · rw [List.eraseP_cons_of_neg (by simpa using hb), List.find?_cons, find_eraseP key k bs hnd.2, List.find?_cons]
      by_cases hk : k = key
      · subst hk
        simp [beq_eq_false_iff_ne.mpr hb]
      · simp only [if_neg hk]

theorem map_key_modifyFirst (key : UInt64) (f : Barrier → Barrier) (hf : ∀ b, (f b).key = b.key) :
    ∀ l : List Barrier, (modifyFirst key f l).map Barrier.key = l.map Barrier.key
  | [] => rfl
  | b :: bs => by
    unfold modifyFirst
    split
    · simp [hf]
    · simp [map_key_modifyFirst key f hf bs]

theorem mem_modifyFirst {key : UInt64} {f : Barrier → Barrier} {c : Barrier} :
    ∀ {l : List Barrier}, c ∈ modifyFirst key f l → c ∈ l ∨ ∃ b, l.find? (fun b => b.key == key) = some b ∧ c = f b
  | [], h => by simp [modifyFirst] at h
  | b :: bs, h => by
    unfold modifyFirst at h
    split at h
    · rename_i hb
      rcases List.mem_cons.mp h with rfl | h'
      · exact .inr ⟨b, List.find?_cons_of_pos (p := fun b : Barrier => b.key == key) hb, rfl⟩
      · exact .inl (List.mem_cons_of_mem _ h')
    · rename_i hb
      rcases List.mem_cons.mp h with rfl | h'
      · exact .inl List.mem_cons_self
      · rcases mem_modifyFirst h' with hc | ⟨b', hf, rfl⟩
        · exact .inl (List.mem_cons_of_mem _ hc)
        · exact .inr ⟨b', (List.find?_cons_of_neg (p := fun b : Barrier => b.key == key) hb).trans hf, rfl⟩

theorem getBarrier_setSlot {u : BarrierUnit} (key : UInt64) (slot : List Barrier) {r : Option Barrier}
    (h : ∀ k, slot.find? (fun b => b.key == k) =
      if k = key then r else (u.hashSlot (key2idx key)).find? (fun b => b.key == k)) (k : UInt64) :
    (u.setSlot (key2idx key) slot).getBarrier k = if k = key then r else u.getBarrier k := by
  unfold getBarrier setSlot
  by_cases hi : key2idx k = key2idx key
  · simp only [hi, Function.update_self, h]
  · have hk : k ≠ key := fun e => hi (by rw [e])
    simp only [Function.update_of_ne hi, if_neg hk]

theorem chained_setSlot (u : BarrierUnit) {i : Nat} (hi : i < barrierHashMax) (slot : List Barrier) :
    (u.setSlot i slot).chained + (u.hashSlot i).length = u.chained + slot.length := by
  simp only [chained, setSlot]
  have hmem : i ∈ Finset.range barrierHashMax := Finset.mem_range.mpr hi
  rw [← Finset.add_sum_erase _ _ hmem, ← Finset.add_sum_erase _ (fun j => (u.hashSlot j).length) hmem]
  have hrest : ∑ j ∈ (Finset.range barrierHashMax).erase i, (Function.update u.hashSlot i slot j).length =
      ∑ j ∈ (Finset.range barrierHashMax).erase i, (u.hashSlot j).length := by
    refine Finset.sum_congr rfl (fun j hj => ?_)
    rw [Function.update_of_ne (Finset.ne_of_mem_erase hj)]
  rw [hrest, Function.update_self]
  ring

theorem getBarrier_some {u : BarrierUnit} {key : UInt64} {bar : Barrier} (h : u.getBarrier key = some bar) :
    bar ∈ u.hashSlot (key2idx key) ∧ bar.key = key :=
  ⟨List.mem_of_find?_eq_some h, by simpa using List.find?_some h⟩

theorem queueOf_of_some {u : BarrierUnit} {key : UInt64} {bar : Barrier} (h : u.getBarrier key = some bar) :
    u.queueOf key = bar.queue := by
  simp [queueOf, h]

theorem queueOf_of_none {u : BarrierUnit} {key : UInt64} (h : u.getBarrier key = none) : u.queueOf key = [] := by
  simp [queueOf, h]

theorem Wf.setSlot {u u' : BarrierUnit} (hu : u.Wf) {i : Nat} {slot : List Barrier}
    (hslot : u'.hashSlot = Function.update u.hashSlot i slot) (hkey : ∀ b ∈ slot, key2idx b.key = i)
    (hnd : (slot.map Barrier.key).Nodup) (htask : ∀ b ∈ slot, b.queue ≠ [])
    (hfree : ∀ b ∈ u'.freeList, b.queue = []) (hcount : u'.count = u'.chained) : u'.Wf := by
  refine ⟨fun j b hb => ?_, fun j => ?_, fun j b hb => ?_, hfree, hcount⟩
  · rw [hslot] at hb
    by_cases hj : j = i
    · subst hj
      rw [Function.update_self] at hb
      exact hkey b hb
    · rw [Function.update_of_ne hj] at hb
      exact hu.slotKey j b hb
  · rw [hslot]
    by_cases hj : j = i
    · subst hj
      rw [Function.update_self]
      exact hnd
    · rw [Function.update_of_ne hj]
      exact hu.slotNodup j
  · rw [hslot] at hb
    by_cases hj : j = i
    · subst hj
      rw [Function.update_self] at hb
      exact htask b hb
    · rw [Function.update_of_ne hj] at hb
      exact hu.slotTask j b hb

/-! ## What one call does -/

theorem modifyBarrier_spec {u : BarrierUnit} (hu : u.Wf) {key : UInt64} {bar : Barrier}
    (hbar : u.getBarrier key = some bar) {f : Barrier → Barrier} (hf : ∀ b, (f b).key = b.key)
    (hne : (f bar).queue ≠ []) :
    (u.modifyBarrier key f).Wf ∧
      ∀ k, (u.modifyBarrier key f).queueOf k = if k = key then (f bar).queue else u.queueOf k := by
  have hget : ∀ k, (u.modifyBarrier key f).getBarrier k = if k = key then some (f bar) else u.getBarrier k := by
    refine getBarrier_setSlot key _ (fun k => ?_)
    rw [find_modifyFirst key k f hf]
    have : (u.hashSlot (key2idx key)).find? (fun b => b.key == key) = some bar := hbar
    rw [this, Option.map_some]
  have hmem := (getBarrier_some hbar).1
  constructor
  · refine hu.setSlot rfl (fun b hb => ?_) ?_ (fun b hb => ?_) hu.freeEmpty ?_
    · rcases mem_modifyFirst hb with hb' | ⟨b', hb', rfl⟩
      · exact hu.slotKey _ b hb'
      · rw [hf]
        exact hu.slotKey _ b' (List.mem_of_find?_eq_some hb')
    · rw [map_key_modifyFirst key f hf]
      exact hu.slotNodup _
    · rcases mem_modifyFirst hb with hb' | ⟨b', hb', rfl⟩
      · exact hu.slotTask _ b hb'
      · have : b' = bar := Option.some.inj (hb'.symm.trans hbar)
        rw [this]
        exact hne
    · have hlen : (modifyFirst key f (u.hashSlot (key2idx key))).length = (u.hashSlot (key2idx key)).length := by
        rw [← List.length_map Barrier.key, map_key_modifyFirst key f hf, List.length_map]
      have := chained_setSlot u (key2idx_lt key) (modifyFirst key f (u.hashSlot (key2idx key)))
      have hc := hu.countEq
      show u.count = (u.setSlot _ _).chained
      omega
  · intro k
    unfold queueOf
    rw [hget]
    by_cases hk : k = key
    · simp [hk]
    · simp [hk]

theorem addBarrier_spec {u : BarrierUnit} (hu : u.Wf) (u' : BarrierUnit) {key : UInt64} {bar : Barrier}
    (hnone : u.getBarrier key = none) (hkey : bar.key = key) (hne : bar.queue ≠ [])
    (hslot : u'.hashSlot = (u.setSlot (key2idx key) (u.hashSlot (key2idx key) ++ [bar])).hashSlot)
    (hfree : ∀ b ∈ u'.freeList, b.queue = []) (hcount : u'.count = u.count + 1) :
    u'.Wf ∧ ∀ k, u'.queueOf k = if k = key then bar.queue else u.queueOf k := by
  have hnone' : (u.hashSlot (key2idx key)).find? (fun b => b.key == key) = none := hnone
  have hget : ∀ k, u'.getBarrier k = if k = key then some bar else u.getBarrier k := by
    intro k
    have hslots := getBarrier_setSlot (u := u) key (u.hashSlot (key2idx key) ++ [bar]) (r := some bar) (fun k => by
        rw [List.find?_append]
        by_cases hk : k = key
        · rw [if_pos hk, hk, hnone']
          simp [hkey]
        · rw [if_neg hk]
          simp [hkey, Ne.symm hk]) k
    rw [← hslots]
    unfold getBarrier
    rw [hslot]
  constructor
  · refine hu.setSlot hslot (fun b hb => ?_) ?_ (fun b hb => ?_) hfree ?_
    · rcases List.mem_append.mp hb with hb' | hb'
      · exact hu.slotKey _ b hb'
      · rw [List.mem_singleton.mp hb', hkey]
    · rw [List.map_append, List.nodup_append]
      refine ⟨hu.slotNodup _, by simp, ?_⟩
      rintro a ha b hb rfl
      obtain ⟨c, hc, rfl⟩ := List.mem_map.mp ha
      have hck : c.key = key := by simpa [hkey] using hb
      have := List.find?_eq_none.mp hnone' c hc
      exact this (by simpa using hck)
    · rcases List.mem_append.mp hb with hb' | hb'
      · exact hu.slotTask _ b hb'
      · rw [List.mem_singleton.mp hb']
        exact hne
    · have hch := chained_setSlot u (key2idx_lt key) (u.hashSlot (key2idx key) ++ [bar])
      have hlen : (u.hashSlot (key2idx key) ++ [bar]).length = (u.hashSlot (key2idx key)).length + 1 := by simp
      have hc := hu.countEq
      have hu' : u'.chained = (u.setSlot (key2idx key) (u.hashSlot (key2idx key) ++ [bar])).chained := by
        unfold chained
        rw [hslot]
      omega
  · intro k
    unfold queueOf
    rw [hget]
    by_cases hk : k = key
    · simp [hk]
    · simp [hk]

theorem attachFreeBarrier_spec {u : BarrierUnit} (hu : u.Wf) {key : UInt64} {bar : Barrier}
    (hbar : u.getBarrier key = some bar) (bar' : Barrier) (hkey : bar'.key = key) (hempty : bar'.queue = []) :
    (u.attachFreeBarrier bar').Wf ∧
      ∀ k, (u.attachFreeBarrier bar').queueOf k = if k = key then [] else u.queueOf k := by
  subst hkey
  have hget : ∀ k, (u.attachFreeBarrier bar').getBarrier k = if k = bar'.key then none else u.getBarrier k :=
    getBarrier_setSlot bar'.key _ (fun k => find_eraseP bar'.key k _ (hu.slotNodup _))
  have hmem := getBarrier_some hbar
  constructor
  · refine hu.setSlot rfl (fun b hb => hu.slotKey _ b (List.mem_of_mem_eraseP hb)) ?_
      (fun b hb => hu.slotTask _ b (List.mem_of_mem_eraseP hb)) (fun b hb => ?_) ?_
    · exact (List.Sublist.map _ List.eraseP_sublist).nodup (hu.slotNodup _)
    · rcases List.mem_cons.mp hb with rfl | hb'
      · exact hempty
      · exact hu.freeEmpty b hb'
    · have hlen := List.length_eraseP_of_mem (p := fun b : Barrier => b.key == bar'.key) hmem.1 (by simpa using hmem.2)
      have hpos : 0 < (u.hashSlot (key2idx bar'.key)).length := List.length_pos_of_mem hmem.1
      have hch := chained_setSlot u (key2idx_lt bar'.key)
        ((u.hashSlot (key2idx bar'.key)).eraseP (fun b => b.key == bar'.key))
      have hc := hu.countEq
      show u.count - 1 = ((u.setSlot _ _).chained : Int)
      omega
  · intro k
    unfold queueOf
    rw [hget]
    by_cases hk : k = bar'.key
    · simp [hk]
    · simp [hk]

def busy (u : BarrierUnit) (key : UInt64) : Bool :=
  if u.queueOf key = [] then decide (u.count ≥ u.maxBarrier) else decide ((u.queueOf key).length ≥ u.maxKeyCount)

def busyMessage (u : BarrierUnit) (key : UInt64) : String :=
  if u.queueOf key = [] then "too many barriers" else "too many request blocked at key"

theorem taskNotify_busy {u : BarrierUnit} (hu : u.Wf) (cur : TaskId) {t : TaskRequest} (hp : passes t = false)
    (hb : u.busy t.barrierKey = true) (slot : Bool) :
    u.taskNotify cur t slot =
      (u, t.setError (-ecServerBusy) "TaskNotify" (u.busyMessage t.barrierKey), [.replyNotify cur]) := by
  unfold taskNotify busyMessage
  unfold busy at hb
  simp only [hp, Bool.false_eq_true, if_false]
  cases hg : u.getBarrier t.barrierKey with
  | none =>
    have hq := queueOf_of_none hg
    simp only [hq, if_true, decide_eq_true_eq] at hb ⊢
    rw [if_pos hb]
  | some bar =>
    have hne : bar.queue ≠ [] := hu.slotTask _ _ (getBarrier_some hg).1
    simp only [queueOf_of_some hg, if_neg hne, decide_eq_true_eq] at hb ⊢
    rw [if_neg (by omega)]

theorem taskNotify_room {u : BarrierUnit} (hu : u.Wf) (cur : TaskId) {t : TaskRequest} (hp : passes t = false)
    (hb : u.busy t.barrierKey = false) :
    ∃ u', u'.Wf ∧
      u.taskNotify cur t true = (u', t, if u.queueOf t.barrierKey = [] then [.chainRequest cur] else []) ∧
      ∀ k, u'.queueOf k = if k = t.barrierKey then u.queueOf k ++ [cur] else u.queueOf k := by
  unfold taskNotify
  unfold busy at hb
  simp only [hp, Bool.false_eq_true, if_false]
  cases hg : u.getBarrier t.barrierKey with
  | none =>
    have hq := queueOf_of_none hg
    simp only [hq, if_true, decide_eq_false_iff_not] at hb ⊢
    rw [if_neg hb]
    have hhead : (u.freeList.headD ⟨0, []⟩).queue = [] := by
      cases hl : u.freeList with
      | nil => rfl
      | cons b bs => exact hu.freeEmpty b (by rw [hl]; exact List.mem_cons_self)
    obtain ⟨hwf, hqs⟩ := addBarrier_spec hu
      { u.setSlot (key2idx t.barrierKey) (u.hashSlot (key2idx t.barrierKey) ++
          [Barrier.push ⟨t.barrierKey, (u.freeList.headD ⟨0, []⟩).queue⟩ cur true]) with
        freeList := u.freeList.tail, count := u.count + 1, statBarrierCount := u.count + 1 }
      hg rfl (by simp [Barrier.push]) rfl (fun b hb' => hu.freeEmpty b (List.mem_of_mem_tail hb')) rfl
    refine ⟨_, hwf, rfl, fun k => ?_⟩
    rw [hqs]
    by_cases hk : k = t.barrierKey
    · simp only [hk, hq, Barrier.push, hhead, if_true, List.nil_append]
    · simp only [hk, if_false]
  | some bar =>
    have hne : bar.queue ≠ [] := hu.slotTask _ _ (getBarrier_some hg).1
    simp only [queueOf_of_some hg, if_neg hne, decide_eq_false_iff_not] at hb ⊢
    rw [if_pos (by omega)]
    obtain ⟨hwf, hqs⟩ := modifyBarrier_spec hu hg (f := (·.push cur true)) (fun _ => rfl) (by simp [Barrier.push])
    refine ⟨_, ?_, rfl, fun k => (hqs k).trans ?_⟩
    · exact ⟨hwf.1, hwf.2, hwf.3, hwf.4, hwf.5⟩
    · by_cases hk : k = t.barrierKey
      · simp [hk, queueOf_of_some hg, Barrier.push]
      · simp [hk]

/-- **The head of a queue comes back**: it leaves the queue, the next task of the key goes downstream, and the one that
came back is replied. -/
theorem replyNotify_head {u : BarrierUnit} (hu : u.Wf) {cur : TaskId} {rest : List TaskId} {t : TaskRequest}
    (hp : passes t = false) (hq : u.queueOf t.barrierKey = cur :: rest) :
    ∃ u', u'.Wf ∧
      u.replyNotify cur t = (u', (rest.take 1).map BarrierEffect.queueRequest ++ [.replyNotify cur]) ∧
      ∀ k, u'.queueOf k = if k = t.barrierKey then rest else u.queueOf k := by
  unfold replyNotify
  simp only [hp, Bool.false_eq_true, if_false]
  cases hg : u.getBarrier t.barrierKey with
  | none =>
    rw [queueOf_of_none hg] at hq
    cases hq
  | some bar =>
    have hbq : bar.queue = cur :: rest := by rw [← queueOf_of_some hg, hq]
    have hkey : bar.key = t.barrierKey := (getBarrier_some hg).2
    simp only [hbq, List.head?_cons, if_true, Barrier.pop, List.tail_cons]
    generalize hst : (if ((cur :: rest).length : Int) = u.statBarrierMaxTask then u.statBarrierMaxTask - 1
      else u.statBarrierMaxTask) = st
    have hu₁ : BarrierUnit.Wf { u with statBarrierMaxTask := st } := ⟨hu.1, hu.2, hu.3, hu.4, hu.5⟩
    have hg₁ : BarrierUnit.getBarrier { u with statBarrierMaxTask := st } t.barrierKey = some bar := hg
    cases rest with
    | nil =>
      obtain ⟨hwf, hqs⟩ := attachFreeBarrier_spec hu₁ hg₁ ⟨bar.key, []⟩ hkey rfl
      exact ⟨_, hwf, rfl, hqs⟩
    | cons next rest =>
      obtain ⟨hwf, hqs⟩ := modifyBarrier_spec hu₁ hg₁ (f := Barrier.pop) (fun _ => rfl) (by simp [Barrier.pop, hbq])
      refine ⟨_, hwf, rfl, fun k => ?_⟩
      refine (hqs k).trans ?_
      simp only [Barrier.pop, hbq, List.tail_cons]
      rfl

end BarrierUnit

end Dtc
