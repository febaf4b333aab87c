import DtcServer.Machine
import Mathlib.Data.List.Nodup
import Mathlib.Logic.Function.Basic
import Mathlib.Tactic.SplitIfs
/-!
# TimerUnit — the clock of an event loop, and its timers (`CTimerUnit`, `CTimerList`)

The clock follows the system clock as long as that goes on as it should, and takes a jump into an offset.  A list has the
timers of one timeout: new ones go to its end, and `CheckExpired` takes them from its front.  Times are in microseconds, of
which 64 bits have room for 292000 years.
-/
namespace Dtc

/-- `CTimerUnit`: its clock, the ready timers, the lists by their timeouts (the newest list first), and `objexp` of the
timers. -/
structure CTimerUnit where
  systemTime : Int
  nowTime : Int
  timeOffSet : Int := 0
  pending : List Nat := []
  next : List Int := []
  tlist : Int → List Nat := fun _ => []
  objexp : Nat → Int

/-- What `TimerNotify` of a timer does: it attaches timers to lists. -/
abbrev Notification := CTimerUnit → Nat → List (Nat × Int)

namespace CTimerUnit

/-- `TIMESTAMP_PRECISION/1000` -/
def perMSec : Int := 1000

/-- `MAX_DELAY_MS` -/
def maxDelay : Int := 3000000

/-- `UpdateNowTime`, for a reading of the system clock. -/
def updateNowTime (u : CTimerUnit) (systemTime maxWait : Int) (interrupted : Bool) : CTimerUnit :=
  if maxWait < 0 then { u with systemTime, timeOffSet := 0, nowTime := systemTime }
  else
    let adjustTime := systemTime + u.timeOffSet
    let waited := if interrupted then u.nowTime else u.nowTime + maxWait * perMSec
    if adjustTime < u.nowTime then { u with systemTime, timeOffSet := waited - systemTime, nowTime := waited }
    else if adjustTime < u.nowTime + maxWait * perMSec + maxDelay then { u with systemTime, nowTime := adjustTime }
    else { u with systemTime, timeOffSet := waited - systemTime, nowTime := waited }

/-- `GetTimerListByMSeconds` -/
def getTimerList (u : CTimerUnit) (timeout : Int) : CTimerUnit :=
  if timeout ∈ u.next then u else { u with next := timeout :: u.next }

/-- `ListDel`: the timer leaves the list that it is on. -/
def listDel (u : CTimerUnit) (o : Nat) : CTimerUnit :=
  { u with pending := u.pending.filter (· ≠ o), tlist := fun t => (u.tlist t).filter (· ≠ o) }

/-- `AttachTimer` to the list of a timeout. -/
def attachTimer (u : CTimerUnit) (o : Nat) (timeout : Int) : CTimerUnit :=
  let u := u.getTimerList timeout
  let u := if 0 < timeout then { u with objexp := Function.update u.objexp o (u.nowTime + timeout * perMSec) } else u
  let u := u.listDel o
  { u with tlist := Function.update u.tlist timeout (u.tlist timeout ++ [o]) }

def attachReadyTimer (u : CTimerUnit) (o : Nat) : CTimerUnit :=
  let u := u.listDel o
  { u with pending := u.pending ++ [o] }

def attachAll (u : CTimerUnit) (calls : List (Nat × Int)) : CTimerUnit :=
  calls.foldl (fun u c => u.attachTimer c.1 c.2) u

/-- The loops that take timers off a list and notify them: what is notified, with what it attached. -/
def notifyLoop (notify : Notification) (front : CTimerUnit → Option Nat) :
    Nat → CTimerUnit → Option (CTimerUnit × List (Nat × List (Nat × Int)))
  | 0, _ => none
  | fuel + 1, u =>
    match front u with
    | none => some (u, [])
    | some o =>
      let calls := notify (u.listDel o) o
      (notifyLoop notify front fuel ((u.listDel o).attachAll calls)).map fun r => (r.1, (o, calls) :: r.2)

/-- The timer at the front of a list, when it has expired. -/
def expiredFront (timeout now : Int) (u : CTimerUnit) : Option Nat :=
  (u.tlist timeout).head?.filter (fun o => decide (u.objexp o ≤ now))

/-- `CTimerList::CheckExpired` -/
def checkExpiredList (notify : Notification) (timeout now : Int) (fuel : Nat) (u : CTimerUnit) :
    Option (CTimerUnit × List (Nat × List (Nat × Int))) :=
  notifyLoop notify (expiredFront timeout (if now = 0 then u.nowTime else now)) fuel u

def checkReady (notify : Notification) (fuel : Nat) (u : CTimerUnit) :
    Option (CTimerUnit × List (Nat × List (Nat × Int))) :=
  notifyLoop notify (fun u => u.pending.head?) fuel u

def checkLists (notify : Notification) (now : Int) (fuel : Nat) :
    List Int → CTimerUnit → Option (CTimerUnit × List (Nat × List (Nat × Int)))
  | [], u => some (u, [])
  | timeout :: next, u =>
    (checkExpiredList notify timeout now fuel u).bind fun r =>
      (checkLists notify now fuel next r.1).map fun r' => (r'.1, r.2 ++ r'.2)

def checkExpired (notify : Notification) (now : Int) (fuel : Nat) (u : CTimerUnit) :
    Option (CTimerUnit × List (Nat × List (Nat × Int))) :=
  let now := if now = 0 then u.nowTime else now
  (checkReady notify fuel u).bind fun r =>
    (checkLists notify now fuel r.1.next r.1).map fun r' => (r'.1, r.2 ++ r'.2)

/-! ## The clock -/

theorem updateNowTime_bounds (u : CTimerUnit) (systemTime : Int) {maxWait : Int} (hwait : 0 ≤ maxWait) (interrupted : Bool) :
    u.nowTime ≤ (u.updateNowTime systemTime maxWait interrupted).nowTime ∧
      (u.updateNowTime systemTime maxWait interrupted).nowTime < u.nowTime + maxWait * perMSec + maxDelay := by
  have hwaited : 0 ≤ maxWait * perMSec := Int.mul_nonneg hwait (by decide)
  have hdelay : (0 : Int) < maxDelay := by decide
  unfold updateNowTime
  rw [if_neg (by omega)]
  dsimp only
  split
  · cases interrupted <;> constructor <;> simp <;> omega
  · split
    · constructor <;> simp <;> omega
    · cases interrupted <;> constructor <;> simp <;> omega

/-! ## The lists -/

/-- **The invariant**: a list of a positive timeout is ordered by expiry and no timer on it expires later than a new one
would; a timer is on one list, and once. -/
structure Ordered (u : CTimerUnit) : Prop where
  sorted : ∀ t, 0 < t → (u.tlist t).Pairwise (fun o o' => u.objexp o ≤ u.objexp o')
  bounded : ∀ t, 0 < t → ∀ o ∈ u.tlist t, u.objexp o ≤ u.nowTime + t * perMSec
  nodup : ∀ t, (u.tlist t).Nodup
  once : ∀ t t' o, o ∈ u.tlist t → o ∈ u.tlist t' → t = t'
  ready : u.pending.Nodup
  apart : ∀ t, ∀ o ∈ u.tlist t, o ∉ u.pending
  listed : ∀ t, u.tlist t ≠ [] → t ∈ u.next
  distinct : u.next.Nodup

variable {u : CTimerUnit}

@[simp] theorem getTimerList_tlist (u : CTimerUnit) (timeout : Int) : (u.getTimerList timeout).tlist = u.tlist := by
  unfold getTimerList
  split <;> rfl

@[simp] theorem getTimerList_objexp (u : CTimerUnit) (timeout : Int) : (u.getTimerList timeout).objexp = u.objexp := by
  unfold getTimerList
  split <;> rfl

@[simp] theorem getTimerList_nowTime (u : CTimerUnit) (timeout : Int) : (u.getTimerList timeout).nowTime = u.nowTime := by
  unfold getTimerList
  split <;> rfl

@[simp] theorem getTimerList_pending (u : CTimerUnit) (timeout : Int) : (u.getTimerList timeout).pending = u.pending := by
  unfold getTimerList
  split <;> rfl

theorem mem_getTimerList (u : CTimerUnit) (timeout t : Int) : t ∈ (u.getTimerList timeout).next ↔ t = timeout ∨ t ∈ u.next := by
  unfold getTimerList
  split
  · next h =>
    constructor
    · exact .inr
    · rintro (rfl | ht)
      · exact h
      · exact ht
  · simp

theorem attachTimer_tlist (u : CTimerUnit) (o : Nat) (timeout t : Int) :
    (u.attachTimer o timeout).tlist t = (u.tlist t).filter (· ≠ o) ++ if t = timeout then [o] else [] := by
  unfold attachTimer
  by_cases ht : t = timeout
  · subst ht
    by_cases hpos : 0 < t <;> simp [listDel, hpos]
  · by_cases hpos : 0 < timeout <;> simp [listDel, ht, hpos]

theorem attachTimer_objexp (u : CTimerUnit) (o : Nat) (timeout : Int) : (u.attachTimer o timeout).objexp =
    if 0 < timeout then Function.update u.objexp o (u.nowTime + timeout * perMSec) else u.objexp := by
  unfold attachTimer
  split_ifs <;> simp [listDel]

@[simp] theorem attachTimer_nowTime (u : CTimerUnit) (o : Nat) (timeout : Int) :
    (u.attachTimer o timeout).nowTime = u.nowTime := by
  unfold attachTimer
  split_ifs <;> simp [listDel]

@[simp] theorem attachTimer_pending (u : CTimerUnit) (o : Nat) (timeout : Int) :
    (u.attachTimer o timeout).pending = u.pending.filter (· ≠ o) := by
  unfold attachTimer
  split_ifs <;> simp [listDel]

@[simp] theorem attachTimer_next (u : CTimerUnit) (o : Nat) (timeout : Int) :
    (u.attachTimer o timeout).next = (u.getTimerList timeout).next := by
  unfold attachTimer
  split_ifs <;> simp [listDel]

theorem Ordered.listDel (H : u.Ordered) (o : Nat) : (u.listDel o).Ordered where
  sorted t ht := (H.sorted t ht).filter _
  bounded t ht o' ho' := H.bounded t ht o' (List.mem_of_mem_filter ho')
  nodup t := (H.nodup t).filter _
  once t t' o' ho ho' := H.once t t' o' (List.mem_of_mem_filter ho) (List.mem_of_mem_filter ho')
  ready := H.ready.filter _
  apart t o' ho' hin := H.apart t o' (List.mem_of_mem_filter ho') (List.mem_of_mem_filter hin)
  listed t ht := H.listed t fun hnil => ht (by simp [CTimerUnit.listDel, hnil])
  distinct := H.distinct

theorem Ordered.getTimerList (H : u.Ordered) (timeout : Int) : (u.getTimerList timeout).next.Nodup := by
  unfold CTimerUnit.getTimerList
  split
  · exact H.distinct
  · next hout => exact List.nodup_cons.mpr ⟨hout, H.distinct⟩

theorem Ordered.attachTimer (H : u.Ordered) (o : Nat) (timeout : Int) : (u.attachTimer o timeout).Ordered where
  sorted t ht := by
    have hold : ∀ o' ∈ (u.tlist t).filter (· ≠ o), (u.attachTimer o timeout).objexp o' = u.objexp o' := by
      intro o' ho'
      have hne : o' ≠ o := by simpa using (List.mem_filter.mp ho').2
      rw [attachTimer_objexp]
      split_ifs <;> simp [hne]
    rw [attachTimer_tlist, List.pairwise_append]
    refine ⟨?_, by split_ifs <;> simp, ?_⟩
    · refine ((H.sorted t ht).filter (· ≠ o)).imp_of_mem fun {a b} ha hb hab => ?_
      rw [hold a ha, hold b hb]
      exact hab
    · intro a ha b hb
      split_ifs at hb with heq
      · obtain rfl := List.mem_singleton.mp hb
        subst heq
        rw [hold a ha, attachTimer_objexp, if_pos ht, Function.update_self]
        exact H.bounded t ht a (List.mem_of_mem_filter ha)
      · cases hb
  bounded t ht o' ho' := by
    rw [attachTimer_tlist] at ho'
    rw [attachTimer_objexp, attachTimer_nowTime]
    rcases List.mem_append.mp ho' with ho' | ho'
    · have hne : o' ≠ o := by simpa using (List.mem_filter.mp ho').2
      have hle := H.bounded t ht o' (List.mem_of_mem_filter ho')
      split_ifs
      · rwa [Function.update_of_ne hne]
      · exact hle
    · by_cases heq : t = timeout
      · rw [if_pos heq] at ho'
        obtain rfl := List.mem_singleton.mp ho'
        subst heq
        refine Int.le_of_eq ?_
        rw [if_pos ht, Function.update_self]
      · rw [if_neg heq] at ho'
        cases ho'
  nodup t := by
    rw [attachTimer_tlist]
    refine List.nodup_append.mpr ⟨(H.nodup t).filter _, by split_ifs <;> simp, ?_⟩
    intro a ha b hb
    have hne : a ≠ o := by simpa using (List.mem_filter.mp ha).2
    split_ifs at hb
    · rwa [List.mem_singleton.mp hb]
    · cases hb
  once t t' o' ho ho' := by
    rw [attachTimer_tlist] at ho ho'
    by_cases hne : o' = o
    · subst hne
      have hin : ∀ t, o' ∈ (u.tlist t).filter (· ≠ o') ++ (if t = timeout then [o'] else []) → t = timeout := by
        intro t h
        by_contra hno
        simp [hno] at h
      rw [hin t ho, hin t' ho']
    · have hin : ∀ t, o' ∈ (u.tlist t).filter (· ≠ o) ++ (if t = timeout then [o] else []) → o' ∈ u.tlist t := by
        intro t h
        rcases List.mem_append.mp h with h | h
        · exact List.mem_of_mem_filter h
        · split_ifs at h
          · exact absurd (List.mem_singleton.mp h) hne
          · cases h
      exact H.once t t' o' (hin t ho) (hin t' ho')
  ready := by
    rw [attachTimer_pending]
    exact H.ready.filter _
  apart t o' ho' hin := by
    rw [attachTimer_pending, List.mem_filter] at hin
    obtain ⟨hin, hne⟩ := hin
    simp only [decide_eq_true_eq] at hne
    rw [attachTimer_tlist] at ho'
    rcases List.mem_append.mp ho' with ho' | ho'
    · exact H.apart t o' (List.mem_of_mem_filter ho') hin
    · split_ifs at ho'
      · exact hne (List.mem_singleton.mp ho')
      · cases ho'
  listed t ht := by
    rw [attachTimer_next, mem_getTimerList]
    by_cases heq : t = timeout
    · exact .inl heq
    · refine .inr (H.listed t fun hnil => ht ?_)
      simp [attachTimer_tlist, hnil, heq]
  distinct := by
    rw [attachTimer_next]
    exact H.getTimerList timeout

theorem Ordered.attachAll : ∀ (calls : List (Nat × Int)) {u : CTimerUnit}, u.Ordered → (u.attachAll calls).Ordered
  | [], _, H => H
  | c :: calls, _, H => Ordered.attachAll calls (H.attachTimer c.1 c.2)

theorem Ordered.attachReadyTimer (H : u.Ordered) (o : Nat) : (u.attachReadyTimer o).Ordered where
  sorted := (H.listDel o).sorted
  bounded := (H.listDel o).bounded
  nodup := (H.listDel o).nodup
  once := (H.listDel o).once
  ready := by
    refine List.nodup_append.mpr ⟨(H.listDel o).ready, by simp, fun a ha b hb => ?_⟩
    rw [List.mem_singleton.mp hb]
    simpa using (List.mem_filter.mp ha).2
  apart t o' ho' hin := by
    rcases List.mem_append.mp hin with hin | hin
    · exact (H.listDel o).apart t o' ho' hin
    · obtain rfl := List.mem_singleton.mp hin
      have hne : o' ≠ o' := by simpa using (List.mem_filter.mp ho').2
      exact hne rfl
  listed := (H.listDel o).listed
  distinct := H.distinct

theorem Ordered.updateNowTime (H : u.Ordered) (systemTime : Int) {maxWait : Int} (hwait : 0 ≤ maxWait) (interrupted : Bool) :
    (u.updateNowTime systemTime maxWait interrupted).Ordered := by
  have hlater := (updateNowTime_bounds u systemTime hwait interrupted).1
  have hsame : (u.updateNowTime systemTime maxWait interrupted).pending = u.pending ∧
      (u.updateNowTime systemTime maxWait interrupted).next = u.next ∧
      (u.updateNowTime systemTime maxWait interrupted).tlist = u.tlist ∧
      (u.updateNowTime systemTime maxWait interrupted).objexp = u.objexp := by
    unfold CTimerUnit.updateNowTime
    dsimp only
    split_ifs <;> exact ⟨rfl, rfl, rfl, rfl⟩
  obtain ⟨hpending, hnext, htlist, hobjexp⟩ := hsame
  refine ⟨?_, ?_, ?_, ?_, ?_, ?_, ?_, ?_⟩
  · rw [htlist, hobjexp]
    exact H.sorted
  · rw [htlist, hobjexp]
    intro t ht o ho
    exact Int.le_trans (H.bounded t ht o ho) (Int.add_le_add_right hlater _)
  · rw [htlist]
    exact H.nodup
  · rw [htlist]
    exact H.once
  · rw [hpending]
    exact H.ready
  · rw [htlist, hpending]
    exact H.apart
  · rw [htlist, hnext]
    exact H.listed
  · rw [hnext]
    exact H.distinct

/-! ## A scan -/

section Scan

variable {notify : Notification} {front : CTimerUnit → Option Nat} {now : Int}

def attachedIn (trace : List (Nat × List (Nat × Int))) : List Nat := trace.flatMap fun e => e.2.map Prod.fst

theorem attachedIn_cons (o : Nat) (calls : List (Nat × Int)) (trace : List (Nat × List (Nat × Int))) :
    attachedIn ((o, calls) :: trace) = calls.map Prod.fst ++ attachedIn trace := rfl

/-- **Every one of these timers gets its turn**: in their order each is notified, once, unless it has been attached to a list
again by then. -/
def Served : List Nat → List (Nat × List (Nat × Int)) → List Nat → Prop
  | [], trace, _ => trace = []
  | o :: due, trace, attached =>
    if o ∈ attached then Served due trace attached
    else ∃ calls trace', trace = (o, calls) :: trace' ∧ Served due trace' (attached ++ calls.map Prod.fst)

def due (now timeout : Int) (u : CTimerUnit) : List Nat := (u.tlist timeout).filter (fun o => decide (u.objexp o ≤ now))

theorem served_filter : ∀ (todo : List Nat) {trace : List (Nat × List (Nat × Int))} {skip attached : List Nat},
    skip ⊆ attached → (Served (todo.filter (· ∉ skip)) trace attached ↔ Served todo trace attached)
  | [], _, _, _, _ => Iff.rfl
  | o :: todo, trace, skip, attached, hsub => by
    by_cases ho : o ∈ skip
    · rw [List.filter_cons_of_neg (by simpa using ho), Served, if_pos (hsub ho)]
      exact served_filter todo hsub
    · rw [List.filter_cons_of_pos (by simpa using ho), Served, Served]
      split
      · exact served_filter todo hsub
      · have hstep : ∀ calls : List (Nat × Int), skip ⊆ attached ++ calls.map Prod.fst :=
          fun calls x hx => List.mem_append_left _ (hsub hx)
        constructor
        · rintro ⟨calls, trace', rfl, h⟩
          exact ⟨calls, trace', rfl, (served_filter todo (hstep calls)).mp h⟩
        · rintro ⟨calls, trace', rfl, h⟩
          exact ⟨calls, trace', rfl, (served_filter todo (hstep calls)).mpr h⟩

theorem Served.append : ∀ (todo : List Nat) {todo' : List Nat} {trace trace' : List (Nat × List (Nat × Int))}
    {attached : List Nat}, Served todo trace attached → Served todo' trace' (attached ++ attachedIn trace) →
    Served (todo ++ todo') (trace ++ trace') attached
  | [], todo', trace, trace', attached, h, h' => by
    obtain rfl : trace = [] := h
    simpa [attachedIn] using h'
  | o :: todo, todo', trace, trace', attached, h, h' => by
    rw [List.cons_append, Served]
    rw [Served] at h
    split at h
    · next hin =>
      rw [if_pos hin]
      exact h.append todo h'
    · next hout =>
      rw [if_neg hout]
      obtain ⟨calls, rest, rfl, h⟩ := h
      refine ⟨calls, rest ++ trace', rfl, h.append todo ?_⟩
      simpa [attachedIn] using h'

theorem Served.sublist : ∀ (todo : List Nat) {trace : List (Nat × List (Nat × Int))} {attached : List Nat},
    Served todo trace attached → (trace.map Prod.fst).Sublist todo
  | [], trace, _, h => by
    obtain rfl : trace = [] := h
    exact List.Sublist.refl _
  | o :: todo, trace, attached, h => by
    rw [Served] at h
    split at h
    · exact (h.sublist todo).cons o
    · obtain ⟨calls, rest, rfl, h⟩ := h
      exact (h.sublist todo).cons_cons o

structure IsQueue (now : Int) (queue : CTimerUnit → List Nat) : Prop where
  nodup : ∀ u : CTimerUnit, u.Ordered → (queue u).Nodup
  del : ∀ (u : CTimerUnit) (o : Nat), queue (u.listDel o) = (queue u).filter (· ≠ o)
  attach : ∀ (u : CTimerUnit) (o : Nat) (timeout : Int), 0 < timeout → now ≤ u.nowTime →
    queue (u.attachTimer o timeout) = (queue u).filter (· ≠ o)

theorem isQueue_pending (now : Int) : IsQueue now pending where
  nodup _ H := H.ready
  del _ _ := rfl
  attach u o timeout _ _ := attachTimer_pending u o timeout

theorem isQueue_due {timeout : Int} : IsQueue now (due now timeout) where
  nodup _ H := (H.nodup timeout).filter _
  del u o := by simp [due, listDel, Bool.and_comm]
  attach u o timeout' hpos hnow := by
    have hlate : ¬ u.nowTime + timeout' * perMSec ≤ now := by
      unfold perMSec
      omega
    have hnew : (if timeout = timeout' then [o] else []).filter
        (fun x => decide ((u.attachTimer o timeout').objexp x ≤ now)) = [] := by
      split_ifs
      · simp [attachTimer_objexp, hpos, hlate]
      · rfl
    rw [due, attachTimer_tlist, List.filter_append, hnew, List.append_nil, due, List.filter_filter, List.filter_filter]
    apply List.filter_congr
    intro x _
    by_cases hx : x = o
    · simp [hx]
    · simp [attachTimer_objexp, hpos, hx]

@[simp] theorem attachAll_nowTime : ∀ (calls : List (Nat × Int)) (u : CTimerUnit), (u.attachAll calls).nowTime = u.nowTime
  | [], _ => rfl
  | c :: calls, u => (attachAll_nowTime calls (u.attachTimer c.1 c.2)).trans (attachTimer_nowTime u c.1 c.2)

theorem IsQueue.attachAll {queue : CTimerUnit → List Nat} (hq : IsQueue now queue) :
    ∀ (calls : List (Nat × Int)) (u : CTimerUnit), (∀ c ∈ calls, 0 < c.2) → now ≤ u.nowTime →
      queue (u.attachAll calls) = (queue u).filter (· ∉ calls.map Prod.fst)
  | [], u, _, _ => by simp [CTimerUnit.attachAll]
  | c :: calls, u, hpos, hnow => by
    have ih := hq.attachAll calls (u.attachTimer c.1 c.2) (fun c hc => hpos c (List.mem_cons_of_mem _ hc)) (by simpa using hnow)
    rw [CTimerUnit.attachAll, List.foldl_cons, ← CTimerUnit.attachAll, ih, hq.attach u c.1 c.2 (hpos c (by simp)) hnow,
      List.filter_filter]
    apply List.filter_congr
    intro x _
    by_cases hx : x = c.1 <;> simp [hx]

theorem attachAll_next : ∀ (calls : List (Nat × Int)) (u : CTimerUnit), (∀ c ∈ calls, 0 < c.2) →
    ∃ new, (u.attachAll calls).next = new ++ u.next ∧ ∀ t ∈ new, 0 < t ∧ t ∉ u.next
  | [], u, _ => ⟨[], rfl, by simp⟩
  | c :: calls, u, hpos => by
    obtain ⟨new, hnext, hnew⟩ := attachAll_next calls (u.attachTimer c.1 c.2) (fun c hc => hpos c (List.mem_cons_of_mem _ hc))
    rw [attachTimer_next] at hnext hnew
    rw [attachAll, List.foldl_cons, ← attachAll, hnext]
    by_cases hin : c.2 ∈ u.next
    · refine ⟨new, by simp [getTimerList, hin], fun t ht => ?_⟩
      simpa [getTimerList, hin] using hnew t ht
    · refine ⟨new ++ [c.2], by simp [getTimerList, hin], fun t ht => ?_⟩
      rcases List.mem_append.mp ht with ht | ht
      · obtain ⟨h0, hout⟩ := hnew t ht
        exact ⟨h0, fun h => hout ((mem_getTimerList u c.2 t).mpr (.inr h))⟩
      · rw [List.mem_singleton.mp ht]
        exact ⟨hpos c (by simp), hin⟩

/-- Every notification attaches timers to lists with positive timeouts. -/
def PositiveTimeouts (notify : Notification) : Prop := ∀ u o, ∀ c ∈ notify u o, 0 < c.2

structure Scanned (now : Int) (queue : CTimerUnit → List Nat) (u u' : CTimerUnit) (trace : List (Nat × List (Nat × Int))) :
    Prop where
  ordered : u'.Ordered
  nowTime : u'.nowTime = u.nowTime
  empty : queue u' = []
  served : ∀ attached, (∀ o ∈ queue u, o ∉ attached) → Served (queue u) trace attached
  frame : ∀ queue', IsQueue now queue' → queue' u' = (queue' u).filter (fun o => o ∉ trace.map Prod.fst ∧ o ∉ attachedIn trace)
  next : ∃ new, u'.next = new ++ u.next ∧ ∀ t ∈ new, 0 < t ∧ t ∉ u.next

theorem notifyLoop_spec (hpos : PositiveTimeouts notify) {queue : CTimerUnit → List Nat} (hq : IsQueue now queue)
    (hfront : ∀ u : CTimerUnit, u.Ordered → front u = (queue u).head?) : ∀ (fuel : Nat) (u : CTimerUnit), u.Ordered →
      now ≤ u.nowTime → (queue u).length < fuel →
      ∃ u' trace, notifyLoop notify front fuel u = some (u', trace) ∧ Scanned now queue u u' trace
  | 0, _, _, _, hfuel => absurd hfuel (Nat.not_lt_zero _)
  | fuel + 1, u, H, hnow, hfuel => by
    rw [notifyLoop, hfront u H]
    cases hqueue : queue u with
    | nil =>
      refine ⟨u, [], rfl, H, rfl, hqueue, ?_, ?_, [], rfl, by simp⟩
      · intro attached _
        rw [hqueue]
        rfl
      · intro queue' _
        simp [attachedIn]
    | cons o todo =>
      obtain ⟨hout, -⟩ := List.nodup_cons.mp (hqueue ▸ hq.nodup u H)
      generalize hcalls : notify (u.listDel o) o = calls
      have hcallsPos : ∀ c ∈ calls, 0 < c.2 := fun c hc => hpos (u.listDel o) o c (hcalls ▸ hc)
      have hafter : ∀ queue', IsQueue now queue' → queue' ((u.listDel o).attachAll calls) =
          (queue' u).filter (fun x => x ≠ o ∧ x ∉ calls.map Prod.fst) := by
        intro queue' hq'
        rw [hq'.attachAll calls (u.listDel o) hcallsPos hnow, hq'.del, List.filter_filter]
        apply List.filter_congr
        intro x _
        by_cases hx : x = o <;> simp [hx]
      have htodo : queue ((u.listDel o).attachAll calls) = todo.filter (· ∉ calls.map Prod.fst) := by
        rw [hafter queue hq, hqueue, List.filter_cons_of_neg (by simp)]
        apply List.filter_congr
        intro x hx
        have hne : x ≠ o := fun h => hout (h ▸ hx)
        simp [hne]
      have hlen : (queue ((u.listDel o).attachAll calls)).length < fuel := by
        have hle : (queue ((u.listDel o).attachAll calls)).length ≤ todo.length := by
          rw [htodo]
          exact List.length_filter_le _ _
        rw [hqueue, List.length_cons] at hfuel
        omega
      obtain ⟨u', trace, hloop, hs⟩ := notifyLoop_spec hpos hq hfront fuel _ ((H.listDel o).attachAll calls)
        (by rwa [attachAll_nowTime]) hlen
      refine ⟨u', (o, calls) :: trace, by simp [hcalls, hloop], hs.ordered, ?_, hs.empty, ?_, ?_, ?_⟩
      · rw [hs.nowTime]
        simp [listDel]
      · intro attached hattached
        rw [hqueue] at hattached ⊢
        rw [Served, if_neg (hattached o (by simp))]
        refine ⟨calls, trace, rfl, (served_filter todo (List.subset_append_right attached _)).mp ?_⟩
        rw [← htodo]
        apply hs.served
        intro x hx
        rw [htodo, List.mem_filter] at hx
        obtain ⟨hx, hnot⟩ := hx
        simp only [decide_eq_true_eq] at hnot
        simp only [List.mem_append, not_or]
        exact ⟨hattached x (List.mem_cons_of_mem _ hx), hnot⟩
      · intro queue' hq'
        rw [hs.frame queue' hq', hafter queue' hq', List.filter_filter]
        apply List.filter_congr
        intro x _
        rw [Bool.eq_iff_iff]
        simp only [attachedIn_cons, List.map_cons, List.mem_cons, List.mem_append, not_or, Bool.and_eq_true,
          decide_eq_true_eq]
        constructor
        · rintro ⟨⟨hnotified, hattached⟩, hne, hcalls⟩
          exact ⟨⟨hne, hnotified⟩, hcalls, hattached⟩
        · rintro ⟨⟨hne, hnotified⟩, hcalls, hattached⟩
          exact ⟨⟨hnotified, hattached⟩, hne, hcalls⟩
      · obtain ⟨new, hnext, hnew⟩ := hs.next
        obtain ⟨new', hnext', hnew'⟩ := attachAll_next calls (u.listDel o) hcallsPos
        refine ⟨new ++ new', by rw [hnext, hnext', List.append_assoc]; rfl, fun t ht => ?_⟩
        rcases List.mem_append.mp ht with ht | ht
        · obtain ⟨h0, hnot⟩ := hnew t ht
          rw [hnext'] at hnot
          exact ⟨h0, fun h => hnot (List.mem_append_right _ h)⟩
        · exact hnew' t ht

theorem expiredFront_eq {timeout : Int} (ht : 0 < timeout) {u : CTimerUnit} (H : u.Ordered) :
    expiredFront timeout now u = (due now timeout u).head? := by
  have hsorted := H.sorted timeout ht
  unfold expiredFront due
  cases hlist : u.tlist timeout with
  | nil => rfl
  | cons o rest =>
    rw [hlist] at hsorted
    by_cases ho : u.objexp o ≤ now
    · simp [ho]
    · have hnone : rest.filter (fun o => decide (u.objexp o ≤ now)) = [] := by
        apply List.filter_eq_nil_iff.mpr
        intro x hx
        have hle := List.rel_of_pairwise_cons hsorted hx
        simp only [decide_eq_true_eq]
        omega
      simp [ho, hnone]
      omega

theorem checkExpiredList_spec (hpos : PositiveTimeouts notify) {timeout : Int} (ht : 0 < timeout) {u : CTimerUnit}
    (H : u.Ordered) (hnow : now ≤ u.nowTime) {fuel : Nat}
    (hfuel : (due (if now = 0 then u.nowTime else now) timeout u).length < fuel) :
    ∃ u' trace, checkExpiredList notify timeout now fuel u = some (u', trace) ∧
      Scanned (if now = 0 then u.nowTime else now) (due (if now = 0 then u.nowTime else now) timeout) u u' trace := by
  refine notifyLoop_spec hpos isQueue_due (fun u H => expiredFront_eq ht H) fuel u H ?_ hfuel
  split <;> omega

theorem checkLists_spec (hpos : PositiveTimeouts notify) {fuel : Nat} : ∀ (next : List Int) (u : CTimerUnit), u.Ordered →
    next.Nodup → (∀ t ∈ next, 0 < t) → now ≤ u.nowTime → (now = 0 → u.nowTime = 0) →
    (∀ t ∈ next, (due now t u).length < fuel) →
    ∃ u' trace, checkLists notify now fuel next u = some (u', trace) ∧ u'.Ordered ∧
      (∀ attached, (∀ t ∈ next, ∀ o ∈ due now t u, o ∉ attached) → Served (next.flatMap (due now · u)) trace attached) ∧
      (∀ t ∈ next, due now t u' = []) ∧ (∀ queue, IsQueue now queue → queue u = [] → queue u' = [])
  | [], u, H, _, _, _, _, _ => ⟨u, [], rfl, H, fun _ _ => rfl, by simp, fun _ _ h => h⟩
  | t :: next, u, H, hdistinct, hpositive, hnow, hzero, hfuel => by
    obtain ⟨hout, hdistinct⟩ := List.nodup_cons.mp hdistinct
    have hinner : (if now = 0 then u.nowTime else now) = now := by
      split
      · next h => rw [hzero h, h]
      · rfl
    obtain ⟨u₁, trace₁, h₁, hs₁⟩ := checkExpiredList_spec hpos (hpositive t (by simp)) H hnow
      (by rw [hinner]; exact hfuel t (by simp))
    rw [hinner] at hs₁
    have hless : ∀ t' ∈ next, due now t' u₁ = (due now t' u).filter (· ∉ attachedIn trace₁) := by
      intro t' ht'
      rw [hs₁.frame _ isQueue_due]
      apply List.filter_congr
      intro o ho
      have hnot : o ∉ trace₁.map Prod.fst := by
        intro hin
        have hdue := ((hs₁.served [] (by simp)).sublist _).subset hin
        have heq := H.once t t' o (List.mem_of_mem_filter hdue) (List.mem_of_mem_filter ho)
        exact hout (heq ▸ ht')
      simp [hnot]
    obtain ⟨u', trace₂, h₂, H', hserved, hempty, hframe⟩ := checkLists_spec hpos next u₁ hs₁.ordered hdistinct
      (fun t' ht' => hpositive t' (List.mem_cons_of_mem _ ht')) (by rw [hs₁.nowTime]; exact hnow)
      (by rw [hs₁.nowTime]; exact hzero) (fun t' ht' => by
        rw [hless t' ht']
        exact Nat.lt_of_le_of_lt (List.length_filter_le _ _) (hfuel t' (List.mem_cons_of_mem _ ht')))
    refine ⟨u', trace₁ ++ trace₂, by simp [checkLists, h₁, h₂], H', ?_, ?_, ?_⟩
    · intro attached hattached
      rw [List.flatMap_cons]
      refine (hs₁.served attached (hattached t (by simp))).append _ ?_
      have hflat : next.flatMap (due now · u₁) = (next.flatMap (due now · u)).filter (· ∉ attachedIn trace₁) := by
        rw [List.filter_flatMap]
        exact List.flatMap_congr hless
      have hrest := hserved (attached ++ attachedIn trace₁) (fun t' ht' o ho => by
        rw [hless t' ht', List.mem_filter] at ho
        obtain ⟨ho, hnot⟩ := ho
        simp only [decide_eq_true_eq] at hnot
        simp only [List.mem_append, not_or]
        exact ⟨hattached t' (List.mem_cons_of_mem _ ht') o ho, hnot⟩)
      rw [hflat] at hrest
      exact (served_filter _ (List.subset_append_right attached _)).mp hrest
    · intro t' ht'
      rcases List.mem_cons.mp ht' with rfl | ht'
      · exact hframe _ isQueue_due hs₁.empty
      · exact hempty t' ht'
    · intro queue hq hnil
      apply hframe queue hq
      rw [hs₁.frame queue hq, hnil]
      rfl

/-- The ready timers, and those that have expired, list by list. -/
def allDue (now : Int) (u : CTimerUnit) : List Nat := u.pending ++ u.next.flatMap (due now · u)

theorem Ordered.allDue_nodup (H : u.Ordered) (now : Int) : (allDue now u).Nodup := by
  rw [allDue, List.nodup_append]
  refine ⟨H.ready, List.nodup_flatMap.mpr ⟨fun t _ => (H.nodup t).filter _, ?_⟩, ?_⟩
  · refine H.distinct.imp fun hne o ho ho' => hne ?_
    exact H.once _ _ o (List.mem_of_mem_filter ho) (List.mem_of_mem_filter ho')
  · rintro o ho o' hmem rfl
    obtain ⟨t, -, ht⟩ := List.mem_flatMap.mp hmem
    exact H.apart t o (List.mem_of_mem_filter ht) ho

theorem checkExpired_spec (hpos : PositiveTimeouts notify) {u : CTimerUnit} (H : u.Ordered) (hnext : ∀ t ∈ u.next, 0 < t)
    (hnow : now ≤ u.nowTime) {fuel : Nat} (hfuel : (allDue (if now = 0 then u.nowTime else now) u).length < fuel) :
    ∃ u' trace, checkExpired notify now fuel u = some (u', trace) ∧ u'.Ordered ∧
      Served (allDue (if now = 0 then u.nowTime else now) u) trace [] ∧
      u'.pending = [] ∧ ∀ t, 0 < t → due (if now = 0 then u.nowTime else now) t u' = [] := by
  generalize heff : (if now = 0 then u.nowTime else now) = eff at hfuel ⊢
  have hle : eff ≤ u.nowTime := by
    rw [← heff]
    split <;> omega
  have hzero : eff = 0 → u.nowTime = 0 := by
    rw [← heff]
    split
    · exact id
    · next h => exact fun h' => absurd h' h
  rw [allDue, List.length_append] at hfuel
  obtain ⟨u₁, trace₁, h₁, hs₁⟩ := notifyLoop_spec hpos (isQueue_pending eff) (fun _ _ => rfl) fuel u H hle (by omega)
  obtain ⟨new, hnext₁, hnew⟩ := hs₁.next
  have hnone : ∀ t, t ∉ u.next → due eff t u = [] := by
    intro t ht
    have hnil : u.tlist t = [] := by
      by_contra hne
      exact ht (H.listed t hne)
    simp [due, hnil]
  have hpositive : ∀ t ∈ u₁.next, 0 < t := by
    intro t ht
    rw [hnext₁] at ht
    rcases List.mem_append.mp ht with ht | ht
    · exact (hnew t ht).1
    · exact hnext t ht
  have hless : ∀ t, due eff t u₁ = (due eff t u).filter (· ∉ attachedIn trace₁) := by
    intro t
    rw [hs₁.frame _ isQueue_due]
    apply List.filter_congr
    intro o ho
    have hnot : o ∉ trace₁.map Prod.fst := fun hin =>
      H.apart t o (List.mem_of_mem_filter ho) (((hs₁.served [] (by simp)).sublist _).subset hin)
    simp [hnot]
  have hflat : u₁.next.flatMap (due eff · u₁) = (u.next.flatMap (due eff · u)).filter (· ∉ attachedIn trace₁) := by
    have hempty : new.flatMap (due eff · u₁) = [] := by
      apply List.flatMap_eq_nil_iff.mpr
      intro t ht
      rw [hless, hnone t (hnew t ht).2]
      rfl
    rw [hnext₁, List.flatMap_append, hempty, List.nil_append, List.filter_flatMap]
    exact List.flatMap_congr fun t _ => hless t
  have hshort : ∀ t ∈ u₁.next, (due eff t u₁).length < fuel := by
    intro t ht
    have hsub : (due eff t u₁).length ≤ (u₁.next.flatMap (due eff · u₁)).length := by
      have hmem : due eff t u₁ ∈ u₁.next.map (due eff · u₁) := List.mem_map.mpr ⟨t, ht, rfl⟩
      rw [List.flatMap_def]
      exact (List.sublist_flatten_of_mem hmem).length_le
    have hfilter : (u₁.next.flatMap (due eff · u₁)).length ≤ (u.next.flatMap (due eff · u)).length := by
      rw [hflat]
      exact List.length_filter_le _ _
    omega
  obtain ⟨u', trace₂, h₂, H', hserved, hempty, hframe⟩ := checkLists_spec hpos u₁.next u₁ hs₁.ordered hs₁.ordered.distinct
    hpositive (by rw [hs₁.nowTime]; exact hle) (by rw [hs₁.nowTime]; exact hzero) hshort
  refine ⟨u', trace₁ ++ trace₂, by simp [checkExpired, heff, checkReady, h₁, h₂], H', ?_, ?_, ?_⟩
  · refine (hs₁.served [] (by simp)).append _ ?_
    have hrest := hserved (attachedIn trace₁) (fun t _ o ho => by
      rw [hless, List.mem_filter] at ho
      simpa using ho.2)
    rw [hflat] at hrest
    exact (served_filter _ (List.Subset.refl _)).mp hrest
  · exact hframe _ (isQueue_pending eff) hs₁.empty
  · intro t ht
    by_cases hin : t ∈ u₁.next
    · exact hempty t hin
    · apply hframe _ isQueue_due
      have hout : t ∉ u.next := fun h => hin (by rw [hnext₁]; exact List.mem_append_right _ h)
      rw [hless, hnone t hout]
      rfl

end Scan




/-! ## Runs -/

theorem notifyLoop_ordered (notify : Notification) (front : CTimerUnit → Option Nat) : ∀ (fuel : Nat) {u u' : CTimerUnit}
    {trace : List (Nat × List (Nat × Int))}, u.Ordered → notifyLoop notify front fuel u = some (u', trace) → u'.Ordered
  | 0, _, _, _, _, h => by cases h
  | fuel + 1, u, u', trace, H, h => by
    rw [notifyLoop] at h
    split at h
    · obtain ⟨rfl, -⟩ := Prod.mk.inj (Option.some.inj h)
      exact H
    · next o _ =>
      obtain ⟨⟨u'', trace'⟩, hloop, heq⟩ := Option.map_eq_some_iff.mp h
      obtain ⟨rfl, -⟩ := Prod.mk.inj heq
      exact notifyLoop_ordered notify front fuel ((H.listDel o).attachAll _) hloop

theorem checkLists_ordered (notify : Notification) (now : Int) (fuel : Nat) : ∀ (next : List Int) {u u' : CTimerUnit}
    {trace : List (Nat × List (Nat × Int))}, u.Ordered → checkLists notify now fuel next u = some (u', trace) → u'.Ordered
  | [], _, _, _, H, h => by
    obtain ⟨rfl, -⟩ := Prod.mk.inj (Option.some.inj h)
    exact H
  | t :: next, _, _, _, H, h => by
    obtain ⟨⟨u₁, trace₁⟩, h₁, hlists⟩ := Option.bind_eq_some_iff.mp h
    obtain ⟨⟨u₂, trace₂⟩, h₂, heq⟩ := Option.map_eq_some_iff.mp hlists
    obtain ⟨rfl, -⟩ := Prod.mk.inj heq
    exact checkLists_ordered notify now fuel next (notifyLoop_ordered notify _ fuel H h₁) h₂

inductive TimerAction where
  | updateNowTime (systemTime : Int) (maxWait : Nat) (interrupted : Bool)
  | getTimerList (timeout : Int)
  | attachTimer (o : Nat) (timeout : Int)
  | attachReadyTimer (o : Nat)
  | disableTimer (o : Nat)
  | checkReady (notify : Notification) (fuel : Nat)
  | checkExpired (notify : Notification) (now : Int) (fuel : Nat)

def step (u : CTimerUnit) : TimerAction → Option CTimerUnit
  | .updateNowTime systemTime maxWait interrupted => some (u.updateNowTime systemTime maxWait interrupted)
  | .getTimerList timeout => some (u.getTimerList timeout)
  | .attachTimer o timeout => some (u.attachTimer o timeout)
  | .attachReadyTimer o => some (u.attachReadyTimer o)
  | .disableTimer o => some (u.listDel o)
  | .checkReady notify fuel => (checkReady notify fuel u).map Prod.fst
  | .checkExpired notify now fuel => (checkExpired notify now fuel u).map Prod.fst

/-- A unit begins with the time of the system, and with the timers as their memory was. -/
def machine : Machine CTimerUnit TimerAction where
  start u := ∃ systemTime objexp, u = { systemTime, nowTime := systemTime, objexp }
  step := step

theorem Ordered.step (H : u.Ordered) {a : TimerAction} {u' : CTimerUnit} (h : u.step a = some u') : u'.Ordered := by
  cases a with
  | updateNowTime systemTime maxWait interrupted =>
    obtain rfl := Option.some.inj h
    exact H.updateNowTime systemTime (Int.natCast_nonneg maxWait) interrupted
  | getTimerList timeout =>
    obtain rfl := Option.some.inj h
    refine ⟨?_, ?_, ?_, ?_, ?_, ?_, ?_, H.getTimerList timeout⟩
    · simpa using H.sorted
    · simpa using H.bounded
    · simpa using H.nodup
    · simpa using H.once
    · simpa using H.ready
    · simpa using H.apart
    · intro t ht
      rw [getTimerList_tlist] at ht
      exact (mem_getTimerList u timeout t).mpr (.inr (H.listed t ht))
  | attachTimer o timeout =>
    obtain rfl := Option.some.inj h
    exact H.attachTimer o timeout
  | attachReadyTimer o =>
    obtain rfl := Option.some.inj h
    exact H.attachReadyTimer o
  | disableTimer o =>
    obtain rfl := Option.some.inj h
    exact H.listDel o
  | checkReady notify fuel =>
    obtain ⟨⟨u₁, trace⟩, hready, rfl⟩ := Option.map_eq_some_iff.mp h
    exact notifyLoop_ordered notify _ fuel H hready
  | checkExpired notify now fuel =>
    obtain ⟨⟨u₂, trace⟩, hexpired, rfl⟩ := Option.map_eq_some_iff.mp h
    obtain ⟨⟨u₁, trace₁⟩, h₁, hlists⟩ := Option.bind_eq_some_iff.mp hexpired
    obtain ⟨⟨u₃, trace₃⟩, h₂, heq⟩ := Option.map_eq_some_iff.mp hlists
    obtain ⟨rfl, -⟩ := Prod.mk.inj heq
    exact checkLists_ordered notify _ fuel u₁.next (notifyLoop_ordered notify _ fuel H h₁) h₂

theorem ordered_of_reachable (h : machine.Reachable u) : u.Ordered := by
  refine @Machine.reachable_induct _ _ machine Ordered ?_ (fun u a u' H h => Ordered.step H h) _ h
  rintro u ⟨systemTime, objexp, rfl⟩
  constructor <;> simp

/-- **The timers of a unit**, after any calls: the clock does not go back and goes on by less than the wait and the delay that is
allowed; every list of a positive timeout is ordered by expiry; and a `CheckExpired`, of one list or of all, comes to an end when
it has notified, once each, the timers that had expired and were not attached again by then, and leaves none. -/
theorem machine_timers (h : machine.Reachable u) :
    (∀ (systemTime : Int) (maxWait : Nat) (interrupted : Bool),
      u.nowTime ≤ (u.updateNowTime systemTime maxWait interrupted).nowTime ∧
        (u.updateNowTime systemTime maxWait interrupted).nowTime < u.nowTime + maxWait * perMSec + maxDelay) ∧
      (∀ t, 0 < t → (u.tlist t).Pairwise (fun o o' => u.objexp o ≤ u.objexp o')) ∧
      ∀ notify, PositiveTimeouts notify → ∀ now, now ≤ u.nowTime →
        (∀ t, 0 < t → ∀ fuel, (due (if now = 0 then u.nowTime else now) t u).length < fuel →
          ∃ u' trace, checkExpiredList notify t now fuel u = some (u', trace) ∧
            Served (due (if now = 0 then u.nowTime else now) t u) trace [] ∧ (trace.map Prod.fst).Nodup ∧
            ∀ o ∈ u'.tlist t, (if now = 0 then u.nowTime else now) < u'.objexp o) ∧
        ((∀ t ∈ u.next, 0 < t) → ∀ fuel, (allDue (if now = 0 then u.nowTime else now) u).length < fuel →
          ∃ u' trace, checkExpired notify now fuel u = some (u', trace) ∧
            Served (allDue (if now = 0 then u.nowTime else now) u) trace [] ∧ (trace.map Prod.fst).Nodup ∧
            u'.pending = [] ∧ ∀ t, 0 < t → ∀ o ∈ u'.tlist t, (if now = 0 then u.nowTime else now) < u'.objexp o) := by
  have H := ordered_of_reachable h
  have hlate : ∀ {now t : Int} {u' : CTimerUnit}, due now t u' = [] → ∀ o ∈ u'.tlist t, now < u'.objexp o := by
    intro now t u' hnil o ho
    have hnot := List.filter_eq_nil_iff.mp hnil o ho
    simp only [decide_eq_true_eq] at hnot
    omega
  refine ⟨fun systemTime maxWait interrupted => updateNowTime_bounds u systemTime (Int.natCast_nonneg maxWait) interrupted,
    H.sorted, fun notify hpos now hnow => ⟨fun t ht fuel hfuel => ?_, fun hnext fuel hfuel => ?_⟩⟩
  · obtain ⟨u', trace, hcheck, hs⟩ := checkExpiredList_spec hpos ht H hnow hfuel
    have hserved := hs.served [] (by simp)
    exact ⟨u', trace, hcheck, hserved, (hserved.sublist _).nodup ((H.nodup t).filter _), hlate hs.empty⟩
  · obtain ⟨u', trace, hcheck, -, hserved, hpending, hempty⟩ := checkExpired_spec hpos H hnext hnow hfuel
    exact ⟨u', trace, hcheck, hserved, (hserved.sublist _).nodup (H.allDue_nodup _), hpending,
      fun t ht => hlate (hempty t ht)⟩

def started : CTimerUnit := { systemTime := 0, nowTime := 0, objexp := fun _ => 0 }

/-- The timer 1 comes back, as one that is notified again and again; the timer 2 takes the timer 3 along. -/
def takeAlong : Notification := fun _ o => if o = 1 then [(1, 1000)] else if o = 2 then [(3, 1000)] else []

theorem takeAlong_positive : PositiveTimeouts takeAlong := by
  intro u o c hc
  unfold takeAlong at hc
  split_ifs at hc
  · rw [List.mem_singleton.mp hc]
    decide
  · rw [List.mem_singleton.mp hc]
    decide
  · cases hc

theorem machine_timers_three : ∃ u, machine.run started [.attachTimer 1 1000, .attachTimer 2 1000, .attachTimer 3 1000,
      .updateNowTime 1000000 1000 false] = some u ∧
    ∃ u' trace, checkExpired takeAlong 0 4 u = some (u', trace) ∧ Served [1, 2, 3] trace [] ∧ trace.map Prod.fst = [1, 2] := by
  refine ⟨_, rfl, ?_⟩
  have hreach : machine.Reachable _ := ⟨started, [.attachTimer 1 1000, .attachTimer 2 1000, .attachTimer 3 1000,
    .updateNowTime 1000000 1000 false], ⟨0, fun _ => 0, rfl⟩, rfl⟩
  obtain ⟨-, -, hscan⟩ := machine_timers hreach
  obtain ⟨u', trace, hcheck, hserved, -⟩ := (hscan takeAlong takeAlong_positive 0 (by decide)).2 (by decide) 4 (by decide)
  refine ⟨u', trace, hcheck, hserved, ?_⟩
  have heval := congrArg (Option.map fun r => r.2.map Prod.fst) hcheck
  exact Option.some.inj (heval.symm.trans (by decide))

theorem attachTimer_again :
    ((started.attachTimer 1 1000).listDel 1).attachAll [(1, 1000)] = started.attachTimer 1 1000 := by
  have hexp : (((started.attachTimer 1 1000).listDel 1).attachTimer 1 1000).objexp = (started.attachTimer 1 1000).objexp := by
    rw [attachTimer_objexp]
    simp [listDel, attachTimer_objexp]
  have hlist : (((started.attachTimer 1 1000).listDel 1).attachTimer 1 1000).tlist = (started.attachTimer 1 1000).tlist := by
    funext t
    rw [attachTimer_tlist, attachTimer_tlist]
    by_cases ht : t = 1000 <;> simp [listDel, attachTimer_tlist, started, ht]
  change (⟨0, 0, 0, [], [1000], (((started.attachTimer 1 1000).listDel 1).attachTimer 1 1000).tlist,
    (((started.attachTimer 1 1000).listDel 1).attachTimer 1 1000).objexp⟩ : CTimerUnit) = _
  rw [hexp, hlist]
  rfl

/-- **Three limits**: the ready timers are not ordered by expiry; a timer that another one attaches again before its turn is
not notified, although it had expired; and at a time that is later than the clock's, a timer that attaches itself again is
notified without end. -/
theorem checkExpired_limits :
    (∃ u, machine.run started [.attachTimer 1 2000, .attachTimer 2 1000, .attachReadyTimer 1, .attachReadyTimer 2] = some u ∧
      u.pending = [1, 2] ∧ u.objexp 2 < u.objexp 1) ∧
    (∃ u, machine.run started [.attachTimer 2 1000, .attachTimer 3 1000, .updateNowTime 1000000 1000 false] = some u ∧
      u.objexp 3 ≤ u.nowTime ∧ (checkExpired takeAlong 0 3 u).map (fun r => r.2.map Prod.fst) = some [2]) ∧
    ∃ u, machine.run started [.attachTimer 1 1000] = some u ∧
      ∀ fuel, checkExpiredList takeAlong 1000 1000000 fuel u = none := by
  refine ⟨⟨_, rfl, by decide, by decide⟩, ⟨_, rfl, by decide, by decide⟩, ⟨_, rfl, fun fuel => ?_⟩⟩
  show notifyLoop takeAlong (expiredFront 1000 1000000) fuel (started.attachTimer 1 1000) = none
  induction fuel with
  | zero => rfl
  | succ fuel ih =>
    have hfront : expiredFront 1000 1000000 (started.attachTimer 1 1000) = some 1 := by decide
    rw [notifyLoop, hfront]
    dsimp only
    rw [show takeAlong ((started.attachTimer 1 1000).listDel 1) 1 = [(1, 1000)] from rfl, attachTimer_again, ih]
    rfl

end CTimerUnit

end Dtc
