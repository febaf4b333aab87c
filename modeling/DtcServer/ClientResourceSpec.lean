import DtcServer.ClientResource
import Mathlib.Data.List.Perm.Subperm
/-!
# ClientResourceSpec — the free list of the pool

The free slots are one chain of indices, and `used` counts the other slots, slot 0 among them.
-/
namespace Dtc

theorem pred32_eq {n : Nat} (h : 0 < n) : pred32 n = n - 1 := if_neg (Nat.ne_of_gt h)

namespace CClientResourcePool

variable {p p' : CClientResourcePool} {fs : List Nat} {id seq : Nat}

/-- **The free list** `fs` of a pool. -/
structure Ok (p : CClientResourcePool) (fs : List Nat) : Prop where
  linked : Chains.Linked p.next (ptr p.freehead) fs
  nodup : fs.Nodup
  range : ∀ x ∈ fs, 0 < x ∧ x < p.total
  total : 0 < p.total ∧ p.total < 2 ^ 32
  count : p.used + fs.length = p.total

/-- What an operation on the links leaves alone: the tasks, and the sequence numbers of the slots but `id`. -/
structure Keeps (p p' : CClientResourcePool) (id : Nat) : Prop where
  total : p'.total = p.total
  task : ∀ i, (p'.taskslot i).task = (p.taskslot i).task
  seq : ∀ i, i ≠ id → (p'.taskslot i).seq = (p.taskslot i).seq

theorem ptr_pos {i : Nat} (h : 0 < i) : ptr i = some i := if_neg (Nat.ne_of_gt h)

theorem length_lt {n : Nat} (hn : 0 < n) (hnd : fs.Nodup) (hr : ∀ x ∈ fs, 0 < x ∧ x < n) : fs.length < n := by
  have hnd' : (0 :: fs).Nodup := List.nodup_cons.mpr ⟨fun h => Nat.lt_irrefl 0 (hr 0 h).1, hnd⟩
  have hsub : 0 :: fs ⊆ List.range n := by
    intro x hx
    rw [List.mem_range]
    rcases List.mem_cons.mp hx with rfl | hx
    · exact hn
    · exact (hr x hx).2
  have hle := (hnd'.subperm hsub).length_le
  rwa [List.length_cons, List.length_range] at hle

theorem Ok.freeList (hp : p.Ok fs) : p.freeList = fs :=
  Chains.follow_eq hp.linked (Nat.le_of_lt (length_lt hp.total.1 hp.nodup hp.range))

theorem Ok.head_zero (hp : p.Ok fs) (h : p.freehead = 0) : fs = [] := by
  have hl := hp.linked
  rw [h] at hl
  cases fs with
  | nil => rfl
  | cons x xs => cases hl.1

theorem Ok.head_pos (hp : p.Ok fs) (h : p.freehead ≠ 0) : ∃ rest, fs = p.freehead :: rest := by
  have hl := hp.linked
  rw [ptr_pos (Nat.pos_of_ne_zero h)] at hl
  cases fs with
  | nil => cases (show some p.freehead = none from hl)
  | cons x xs => exact ⟨xs, by rw [Option.some.inj hl.1]⟩

section setters

variable (p) (a b i : Nat)

theorem setFreeprev_slot : (p.setFreeprev a b).taskslot i =
    if i = a then { p.taskslot i with freeprev := b } else p.taskslot i := by
  show Function.update p.taskslot a { p.taskslot a with freeprev := b } i = _
  rw [Function.update_apply]
  split
  · next h => rw [h]
  · rfl

theorem setFreenext_slot : (p.setFreenext a b).taskslot i =
    if i = a then { p.taskslot i with freenext := b } else p.taskslot i := by
  show Function.update p.taskslot a { p.taskslot a with freenext := b } i = _
  rw [Function.update_apply]
  split
  · next h => rw [h]
  · rfl

theorem setTask_slot (t : PooledTask) : (p.setTask a t).taskslot i =
    if i = a then { p.taskslot i with task := t } else p.taskslot i := by
  show Function.update p.taskslot a { p.taskslot a with task := t } i = _
  rw [Function.update_apply]
  split
  · next h => rw [h]
  · rfl

@[simp] theorem setFreeprev_freenext : ((p.setFreeprev a b).taskslot i).freenext = (p.taskslot i).freenext := by
  rw [setFreeprev_slot]
  split <;> rfl

@[simp] theorem setFreeprev_task : ((p.setFreeprev a b).taskslot i).task = (p.taskslot i).task := by
  rw [setFreeprev_slot]
  split <;> rfl

@[simp] theorem setFreeprev_seq : ((p.setFreeprev a b).taskslot i).seq = (p.taskslot i).seq := by
  rw [setFreeprev_slot]
  split <;> rfl

@[simp] theorem setFreenext_task : ((p.setFreenext a b).taskslot i).task = (p.taskslot i).task := by
  rw [setFreenext_slot]
  split <;> rfl

@[simp] theorem setFreenext_seq : ((p.setFreenext a b).taskslot i).seq = (p.taskslot i).seq := by
  rw [setFreenext_slot]
  split <;> rfl

@[simp] theorem setTask_freenext (t : PooledTask) :
    ((p.setTask a t).taskslot i).freenext = (p.taskslot i).freenext := by
  rw [setTask_slot]
  split <;> rfl

@[simp] theorem setTask_seq (t : PooledTask) : ((p.setTask a t).taskslot i).seq = (p.taskslot i).seq := by
  rw [setTask_slot]
  split <;> rfl

end setters

theorem Ok.of_links (hp : p.Ok fs) (hnext : ∀ i, (p'.taskslot i).freenext = (p.taskslot i).freenext)
    (hhead : p'.freehead = p.freehead) (hused : p'.used = p.used) (htotal : p'.total = p.total) : p'.Ok fs := by
  have hn : p'.next = p.next := funext (fun i => by rw [next, next, hnext i])
  refine ⟨?_, hp.nodup, ?_, ?_, ?_⟩
  · rw [hn, hhead]
    exact hp.linked
  · rw [htotal]
    exact hp.range
  · rw [htotal]
    exact hp.total
  · rw [hused, htotal]
    exact hp.count

theorem Ok.setTask (hp : p.Ok fs) (id : Nat) (t : PooledTask) : (p.setTask id t).Ok fs :=
  hp.of_links (fun i => setTask_freenext p id i t) rfl rfl rfl

theorem Ok.pop {rest : List Nat} (hp : p.Ok (p.freehead :: rest)) : p.pop.2.1 = p.freehead ∧ p.pop.1.Ok rest ∧
    p.Keeps p.pop.1 p.freehead ∧ p.pop.2.2 = (p.pop.1.taskslot p.freehead).seq := by
  have hnot : p.freehead ∉ rest := (List.nodup_cons.mp hp.nodup).1
  have hpos : 0 < p.freehead := (hp.range _ (List.mem_cons_self ..)).1
  have hcount : p.used + (rest.length + 1) = p.total := hp.count
  have hlt := hp.total.2
  -- the slots after the step, field by field
  have hslot : ∀ i, (p.pop.1.taskslot i).task = (p.taskslot i).task ∧
      (p.pop.1.taskslot i).freenext = (if i = p.freehead then 0 else (p.taskslot i).freenext) ∧
      (i ≠ p.freehead → (p.pop.1.taskslot i).seq = (p.taskslot i).seq) := by
    intro i
    unfold CClientResourcePool.pop
    dsimp only [setSlot]
    rw [Function.update_apply]
    generalize (if (p.taskslot p.freehead).freenext = 0 then 0 else p.freetail) = tail
    by_cases hi : i = p.freehead
    · subst hi
      rw [if_pos rfl, if_pos rfl]
      refine ⟨?_, ?_, fun h => absurd rfl h⟩
      · split <;> simp
      · split <;> simp [setFreenext_slot]
    · rw [if_neg hi, if_neg hi]
      refine ⟨?_, ?_, fun _ => ?_⟩
      · split <;> simp
      · split <;> simp [setFreenext_slot, hi]
      · split <;> simp
  have hnext : p.pop.1.next = Function.update p.next p.freehead none := by
    funext i
    rw [next, (hslot i).2.1, Function.update_apply]
    split
    · rfl
    · rfl
  have hhead : p.pop.1.freehead = (p.taskslot p.freehead).freenext := by
    unfold CClientResourcePool.pop
    dsimp only [setSlot]
    generalize (if (p.taskslot p.freehead).freenext = 0 then 0 else p.freetail) = tail
    split <;> rfl
  have htotal : p.pop.1.total = p.total := by
    unfold CClientResourcePool.pop
    dsimp only [setSlot]
    generalize (if (p.taskslot p.freehead).freenext = 0 then 0 else p.freetail) = tail
    split <;> rfl
  have hused : p.pop.1.used = (p.used + 1) % 2 ^ 32 := by
    unfold CClientResourcePool.pop
    dsimp only [setSlot]
    generalize (if (p.taskslot p.freehead).freenext = 0 then 0 else p.freetail) = tail
    split <;> rfl
  refine ⟨rfl, ⟨?_, (List.nodup_cons.mp hp.nodup).2, ?_, ?_, ?_⟩, ⟨htotal, fun i => (hslot i).1, fun i => (hslot i).2.2⟩, ?_⟩
  · rw [hnext, hhead]
    exact Chains.linked_update hnot hp.linked.2
  · rw [htotal]
    exact fun x hx => hp.range x (List.mem_cons_of_mem _ hx)
  · rw [htotal]
    exact hp.total
  · rw [hused, htotal, Nat.mod_eq_of_lt (by omega)]
    omega
  · unfold CClientResourcePool.pop
    dsimp only [setSlot]
    rw [Function.update_self]

theorem Ok.free (hp : p.Ok fs) (hid : 0 < id ∧ id < p.total) (hnot : id ∉ fs) (hseq : (p.taskslot id).seq = seq) :
    (p.free id seq).2 = true ∧ (p.free id seq).1.Ok (id :: fs) ∧ (p.free id seq).1.total = p.total ∧
      ∀ i, ((p.free id seq).1.taskslot i).task = (p.taskslot i).task ∧
        ((p.free id seq).1.taskslot i).seq = (p.taskslot i).seq := by
  have hnd : (id :: fs).Nodup := List.nodup_cons.mpr ⟨hnot, hp.nodup⟩
  have hrange : ∀ x ∈ id :: fs, 0 < x ∧ x < p.total := by
    intro x hx
    rcases List.mem_cons.mp hx with rfl | hx
    · exact hid
    · exact hp.range x hx
  have hlen := length_lt hp.total.1 hnd hrange
  rw [List.length_cons] at hlen
  have hcount := hp.count
  have hlt := hp.total.2
  have hslot : ∀ i, ((p.free id seq).1.taskslot i).freenext = (if i = id then p.freehead else (p.taskslot i).freenext) ∧
      ((p.free id seq).1.taskslot i).task = (p.taskslot i).task ∧
      ((p.free id seq).1.taskslot i).seq = (p.taskslot i).seq := by
    intro i
    unfold CClientResourcePool.free
    rw [if_neg (fun h => h hseq)]
    dsimp only
    refine ⟨?_, ?_, ?_⟩
    · rw [setFreenext_slot]
      split
      · rfl
      · rw [setFreeprev_freenext]
    · rw [setFreenext_task, setFreeprev_task]
    · rw [setFreenext_seq, setFreeprev_seq]
  have hnext : (p.free id seq).1.next = Function.update p.next id (ptr p.freehead) := by
    funext i
    rw [next, (hslot i).1, Function.update_apply]
    split
    · rfl
    · rfl
  have hrest : (p.free id seq).2 = true ∧ (p.free id seq).1.freehead = id ∧ (p.free id seq).1.total = p.total ∧
      (p.free id seq).1.used = pred32 p.used := by
    unfold CClientResourcePool.free
    rw [if_neg (fun h => h hseq)]
    exact ⟨rfl, rfl, rfl, rfl⟩
  obtain ⟨hfreed, hhead, htotal, hused⟩ := hrest
  refine ⟨hfreed, ⟨?_, hnd, ?_, ?_, ?_⟩, htotal, fun i => (hslot i).2⟩
  · rw [hnext, hhead, ptr_pos hid.1]
    exact Chains.linked_push hnot hp.linked
  · rw [htotal]
    exact hrange
  · rw [htotal]
    exact hp.total
  · rw [htotal, hused, List.length_cons, pred32_eq (by omega)]
    omega

theorem linked_row {next : Nat → Option Nat} {last : Nat} (hlast : next last = none) :
    ∀ (n first : Nat), first + n = last → (∀ i, first ≤ i → i < last → next i = some (i + 1)) →
      Chains.Linked next (some first) (List.range' first (n + 1))
  | 0, first, hn, _ => ⟨rfl, by rw [show first = last from hn]; exact hlast⟩
  | n + 1, first, hn, hrow => by
    refine ⟨rfl, ?_⟩
    rw [hrow first (Nat.le_refl _) (by omega)]
    exact linked_row hlast n (first + 1) (by omega) (fun i h1 h2 => hrow i (by omega) h2)

theorem ok_linkSlots {first last : Nat} (hfl : 0 < first ∧ first ≤ last) (hp : p.freehead = first)
    (htotal : p.total = last + 1 ∧ p.total < 2 ^ 32) (hused : p.used = first) :
    (p.linkSlots first last).Ok (List.range' first (last - first + 1)) := by
  have hslot : ∀ i, first ≤ i → i ≤ last → (p.linkSlots first last).next i = ptr (if i = last then 0 else i + 1) := by
    intro i h1 h2
    unfold next linkSlots
    dsimp only
    rw [if_pos ⟨h1, h2⟩]
  refine ⟨?_, List.nodup_range', ?_, ?_, ?_⟩
  · show Chains.Linked _ (ptr p.freehead) _
    rw [hp, ptr_pos hfl.1]
    refine linked_row ?_ (last - first) first (show first + (last - first) = last by omega) ?_
    · rw [hslot last hfl.2 (Nat.le_refl _), if_pos rfl]
      rfl
    · intro i h1 h2
      rw [hslot i h1 (Nat.le_of_lt h2), if_neg (Nat.ne_of_lt h2), ptr_pos (Nat.succ_pos i)]
  · intro x hx
    rw [List.mem_range'_1] at hx
    show 0 < x ∧ x < p.total
    omega
  · show 0 < p.total ∧ p.total < 2 ^ 32
    omega
  · show p.used + (List.range' first (last - first + 1)).length = p.total
    rw [List.length_range', hused]
    omega

theorem ok_init : init.Ok (List.range' 1 255) :=
  ok_linkSlots (p := ⟨256, 1, 1, 255, fun _ => {}⟩) (by decide) rfl (by decide) rfl

theorem Ok.enlarge {room : Nat} {grant : Bool} (hp : p.Ok []) (hroom : room < 2 ^ 32)
    (h : p.enlarge room grant = some p') :
    p'.Ok (List.range' p.total p.total) ∧ p'.total = 2 * p.total ∧ p'.used = p.used ∧ p'.freehead = p.total ∧
      ∀ i, i < p.total → p'.taskslot i = p.taskslot i := by
  unfold CClientResourcePool.enlarge at h
  split at h
  · next hg =>
    have htotal : p.total * 2 % 2 ^ 32 = 2 * p.total := by omega
    have hpos := hp.total.1
    dsimp only at h
    rw [htotal, pred32_eq (by omega)] at h
    obtain rfl := Option.some.inj h
    have hused : p.used = p.total := hp.count
    have hok := ok_linkSlots (p := { p with total := 2 * p.total, freehead := p.total, freetail := 2 * p.total - 1 })
      (show 0 < p.total ∧ p.total ≤ 2 * p.total - 1 by omega) rfl
      (show 2 * p.total = 2 * p.total - 1 + 1 ∧ 2 * p.total < 2 ^ 32 by omega) hused
    rw [show 2 * p.total - 1 - p.total + 1 = p.total by omega] at hok
    refine ⟨hok, rfl, rfl, rfl, fun i hi => ?_⟩
    unfold linkSlots
    dsimp only
    rw [if_neg (by omega)]
  · cases h

end CClientResourcePool
end Dtc
