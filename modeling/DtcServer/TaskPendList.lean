import DtcServer.Machine
import Mathlib.Data.List.Perm.Basic
import Mathlib.Data.List.Range
/-!
# TaskPendList — requests that wait for what is not there yet (`task_pendlist`)

A waiting task is dispatched again when the list is woken up, or answered when it has waited too long.  `TimerNotify`
walks over a copy of the list; the owner's code, which it calls, may add tasks and wake the list up in the middle of the
walk.  So the walk is cut into its steps here, and what the owner does stands between them.
-/
namespace Dtc

/-- `slot_t`; `serial` is the number of the addition. -/
structure PendingSlot (Task : Type) where
  serial : Nat
  task : Task
  time : Int
  deriving DecidableEq, Repr

/-- Where the list is as a `CTimerObject`. -/
inductive PendingTimer where
  | detached | ready | timelist
  deriving DecidableEq, Repr

/-- How a task leaves the list. -/
inductive PendingEnd where
  | dispatched | timedOut
  deriving DecidableEq, Repr

/-- A `TimerNotify` that has begun: its branch, its `now` and what is left of its copy. -/
structure PendingWalk (Task : Type) where
  woken : Bool
  now : Int
  copy : List (PendingSlot Task)
  deriving DecidableEq, Repr

/-- `CTaskPendingList`, with the number of the additions and how the tasks have left. -/
structure CTaskPendingList (Task : Type) where
  pendlist : List (PendingSlot Task) := []
  wakeup : Bool := false
  timer : PendingTimer := .detached
  walk : Option (PendingWalk Task) := none
  destroyed : Bool := false
  added : Nat := 0
  left : List (Nat × PendingEnd) := []
  deriving DecidableEq, Repr

/-- What happens to a list: `add2List` at a time, with a null pointer too; `wakeup`; the timer fires; the walk's next
step; the destructor. -/
inductive PendingAct (Task : Type) where
  | add (task : Option Task) (time : Int)
  | wakeup
  | fire (now : Int)
  | next
  | destroy
  deriving DecidableEq, Repr

namespace CTaskPendingList

variable {Task : Type} (s : CTaskPendingList Task)

def add2List (task : Task) (time : Int) : CTaskPendingList Task :=
  { s with
    timer := if s.pendlist = [] then .timelist else s.timer
    pendlist := s.pendlist ++ [⟨s.added, task, time⟩]
    added := s.added + 1 }

def wake : CTaskPendingList Task := { s with wakeup := true, timer := .ready }

/-- The beginning of `TimerNotify`, which the timer's list calls when it has taken the object out. -/
def timerNotify (now : Int) : CTaskPendingList Task :=
  { s with timer := .detached, pendlist := [], walk := some ⟨s.wakeup, now, s.pendlist⟩ }

def leave (n : Nat) (e : PendingEnd) : CTaskPendingList Task := { s with left := s.left ++ [(n, e)] }

/-- The next step of a walk: a slot, or what is behind the loop. -/
def walkStep (timeout : Int) (w : PendingWalk Task) : CTaskPendingList Task :=
  match w.copy with
  | x :: copy =>
    let s := { s with walk := some { w with copy } }
    if w.woken then s.leave x.serial .dispatched
    else if x.time + timeout ≥ w.now then { s with pendlist := s.pendlist ++ [x] }
    else s.leave x.serial .timedOut
  | [] =>
    let s := { s with walk := none }
    if w.woken then { s with wakeup := false }
    else if s.pendlist ≠ [] then { s with timer := .timelist }
    else s

def destroy : CTaskPendingList Task :=
  { s with
    timer := .detached
    pendlist := []
    left := s.left ++ s.pendlist.map (fun x => (x.serial, .timedOut))
    destroyed := true }

end CTaskPendingList

/-- The list in the server: one thread calls it, so the timer does not fire and nobody destroys it during a walk. -/
def pendingMachine (Task : Type) (timeout : Int) : Machine (CTaskPendingList Task) (PendingAct Task) where
  start s := s = {}
  step s a :=
    if s.destroyed then none
    else
      match a, s.walk with
      | .add task time, _ => some (match task with | some task => s.add2List task time | none => s)
      | .wakeup, _ => some s.wake
      | .fire now, none => if s.timer ≠ .detached then some (s.timerNotify now) else none
      | .next, some w => some (s.walkStep timeout w)
      | .destroy, none => some s.destroy
      | _, _ => none

namespace CTaskPendingList

variable {Task : Type} (s : CTaskPendingList Task)

/-- The slots that wait: those of the list and those a walk has not come to. -/
def waiting : List (PendingSlot Task) := s.pendlist ++ (s.walk.elim [] PendingWalk.copy)

/-- The numbers of the additions, of what waits and of what has left. -/
def serials : List Nat := s.waiting.map PendingSlot.serial ++ s.left.map Prod.fst

/-- **Every addition is at one place**: it waits, or it has left once. -/
def AtOnePlace : Prop := s.serials.Perm (List.range s.added)

/-- **What waits has a timer**, unless the walk that is going on will attach it. -/
def Armed : Prop := s.pendlist ≠ [] → s.timer ≠ .detached ∨ ∃ w, s.walk = some w ∧ w.woken = false

/-- The slot of an addition has left the list that a walk took, or it is still before the walk. -/
def Passing (x : PendingSlot Task) (woken : Bool) (now : Int) (e : PendingEnd) : Prop :=
  (∃ w, s.walk = some w ∧ w.woken = woken ∧ w.now = now ∧ x ∈ w.copy) ∨ (x.serial, e) ∈ s.left

variable {s} {timeout : Int}

theorem add_serials (task : Task) (time : Int) : (s.add2List task time).serials.Perm (s.serials ++ [s.added]) := by
  have h : ∀ (a b c : List Nat) (n : Nat), (a ++ [n] ++ b ++ c).Perm (a ++ b ++ c ++ [n]) := by
    intro a b c n
    simp only [List.append_assoc]
    exact List.Perm.append_left a (List.perm_append_comm.trans (by simp))
  have hs := h (s.pendlist.map PendingSlot.serial) ((s.walk.elim [] PendingWalk.copy).map PendingSlot.serial)
    (s.left.map Prod.fst) s.added
  simpa [serials, waiting, add2List] using hs

theorem walkStep_serials {w : PendingWalk Task} (hw : s.walk = some w) : (s.walkStep timeout w).serials.Perm s.serials := by
  unfold walkStep
  cases hc : w.copy with
  | nil =>
    have hsame : ∀ s' : CTaskPendingList Task, s'.pendlist = s.pendlist → s'.walk = none → s'.left = s.left →
        s'.serials.Perm s.serials := by
      intro s' hp hn hl
      simp [serials, waiting, hp, hn, hl, hw, hc]
    dsimp only
    split
    · exact hsame _ rfl rfl rfl
    · split <;> exact hsame _ rfl rfl rfl
  | cons x copy =>
    have hleft : ∀ (a b c : List Nat) (n : Nat), (a ++ b ++ (c ++ [n])).Perm (a ++ (n :: b) ++ c) := by
      intro a b c n
      rw [← List.append_assoc]
      refine List.perm_append_comm.trans ?_
      simp [List.perm_middle.symm]
    have hl := hleft (s.pendlist.map PendingSlot.serial) (copy.map PendingSlot.serial) (s.left.map Prod.fst) x.serial
    dsimp only
    split
    · simpa [serials, waiting, leave, hw, hc] using hl
    · split
      · simp [serials, waiting, hw, hc]
      · simpa [serials, waiting, leave, hw, hc] using hl

theorem walkStep_armed {w : PendingWalk Task} (hw : s.walk = some w) (h : s.Armed) : (s.walkStep timeout w).Armed := by
  unfold walkStep
  cases hc : w.copy with
  | nil =>
    dsimp only
    split
    · next hwoken =>
      intro hp
      rcases h hp with ht | ⟨w', hw', hfalse⟩
      · exact Or.inl ht
      · rw [hw] at hw'
        obtain rfl := Option.some.inj hw'
        exact absurd hwoken (by simp [hfalse])
    · split
      · exact fun _ => Or.inl (by simp)
      · next hempty => exact fun hp => absurd hp hempty
  | cons x copy =>
    have hsame : ∀ s' : CTaskPendingList Task, s'.pendlist = s.pendlist → s'.timer = s.timer →
        s'.walk = some { w with copy } → s'.Armed := by
      intro s' hp ht hn hne
      rcases h (hp ▸ hne) with h | ⟨w', hw', hfalse⟩
      · exact Or.inl (ht ▸ h)
      · rw [hw] at hw'
        obtain rfl := Option.some.inj hw'
        exact Or.inr ⟨_, hn, hfalse⟩
    dsimp only
    split
    · exact hsame _ rfl rfl rfl
    · next hfalse =>
      split
      · exact fun _ => Or.inr ⟨_, rfl, by simpa using hfalse⟩
      · exact hsame _ rfl rfl rfl

theorem walkStep_passing {w : PendingWalk Task} (hw : s.walk = some w) {x : PendingSlot Task} {woken : Bool} {now : Int}
    {e : PendingEnd} (he : (woken = true ∧ e = .dispatched) ∨ (woken = false ∧ x.time + timeout < now ∧ e = .timedOut))
    (h : s.Passing x woken now e) : (s.walkStep timeout w).Passing x woken now e := by
  rcases h with ⟨w', hw', hwoken, hnow, hx⟩ | hleft
  · rw [hw] at hw'
    obtain rfl := Option.some.inj hw'
    unfold walkStep
    cases hc : w.copy with
    | nil =>
      rw [hc] at hx
      cases hx
    | cons y copy =>
      rw [hc] at hx
      rcases List.mem_cons.mp hx with rfl | hx
      · rcases he with ⟨rfl, rfl⟩ | ⟨rfl, hlate, rfl⟩
        · dsimp only
          rw [if_pos hwoken]
          exact Or.inr (by simp [leave])
        · have hkeep : ¬ x.time + timeout ≥ w.now := by omega
          dsimp only
          rw [if_neg (by simp [hwoken]), if_neg hkeep]
          exact Or.inr (by simp [leave])
      · dsimp only
        split
        · exact Or.inl ⟨_, rfl, hwoken, hnow, hx⟩
        · split <;> exact Or.inl ⟨_, rfl, hwoken, hnow, hx⟩
  · refine Or.inr ?_
    unfold walkStep
    cases w.copy with
    | nil =>
      dsimp only
      split
      · exact hleft
      · split <;> exact hleft
    | cons y copy =>
      dsimp only
      split
      · exact List.mem_append_left _ hleft
      · split
        · exact hleft
        · exact List.mem_append_left _ hleft

end CTaskPendingList

/-! ## Every run -/

section Run

open CTaskPendingList

variable {Task : Type} {timeout : Int} {s s' : CTaskPendingList Task}

theorem pendingMachine_step {a : PendingAct Task} (h : (pendingMachine Task timeout).step s a = some s') :
    s.destroyed = false ∧ ((∃ task time, a = .add (some task) time ∧ s' = s.add2List task time) ∨
      (∃ time, a = .add none time ∧ s' = s) ∨ (a = .wakeup ∧ s' = s.wake) ∨
      (∃ now, a = .fire now ∧ s.walk = none ∧ s.timer ≠ .detached ∧ s' = s.timerNotify now) ∨
      (∃ w, a = .next ∧ s.walk = some w ∧ s' = s.walkStep timeout w) ∨
      (a = .destroy ∧ s.walk = none ∧ s' = s.destroy)) := by
  have hd : s.destroyed = false := by
    cases hd : s.destroyed with
    | false => rfl
    | true => simp [pendingMachine, hd] at h
  refine ⟨hd, ?_⟩
  simp only [pendingMachine, hd] at h
  cases a with
  | add task time =>
    cases task with
    | none => exact Or.inr (Or.inl ⟨time, rfl, by simpa using h.symm⟩)
    | some task => exact Or.inl ⟨task, time, rfl, by simpa using h.symm⟩
  | wakeup => exact Or.inr (Or.inr (Or.inl ⟨rfl, by simpa using h.symm⟩))
  | fire now =>
    cases hw : s.walk with
    | some w => simp [hw] at h
    | none =>
      by_cases ht : s.timer = .detached
      · simp [hw, ht] at h
      · exact Or.inr (Or.inr (Or.inr (Or.inl ⟨now, rfl, rfl, ht, by simpa [hw, ht] using h.symm⟩)))
  | next =>
    cases hw : s.walk with
    | none => simp [hw] at h
    | some w => exact Or.inr (Or.inr (Or.inr (Or.inr (Or.inl ⟨w, rfl, rfl, by simpa [hw] using h.symm⟩))))
  | destroy =>
    cases hw : s.walk with
    | some w => simp [hw] at h
    | none => exact Or.inr (Or.inr (Or.inr (Or.inr (Or.inr ⟨rfl, rfl, by simpa [hw] using h.symm⟩))))

structure CTaskPendingList.Inv (s : CTaskPendingList Task) : Prop where
  places : s.AtOnePlace
  armed : s.Armed
  idle : s.destroyed = true → s.walk = none
  empty : s.destroyed = true → s.pendlist = []

theorem walkStep_destroyed (s : CTaskPendingList Task) (w : PendingWalk Task) :
    (s.walkStep timeout w).destroyed = s.destroyed ∧ (s.walkStep timeout w).added = s.added := by
  unfold walkStep
  split
  · dsimp only
    split
    · exact ⟨rfl, rfl⟩
    · split <;> exact ⟨rfl, rfl⟩
  · dsimp only
    split
    · exact ⟨rfl, rfl⟩
    · split <;> exact ⟨rfl, rfl⟩

theorem pendingMachine_inv_step {a : PendingAct Task} (hi : s.Inv)
    (h : (pendingMachine Task timeout).step s a = some s') : s'.Inv := by
  obtain ⟨hd, ⟨task, time, rfl, rfl⟩ | ⟨time, rfl, rfl⟩ | ⟨rfl, rfl⟩ | ⟨now, rfl, hw, ht, rfl⟩ | ⟨w, rfl, hw, rfl⟩ |
    ⟨rfl, hw, rfl⟩⟩ := pendingMachine_step h
  · refine ⟨?_, fun _ => ?_, hi.idle, fun h => absurd h (by simp [add2List, hd])⟩
    · rw [AtOnePlace, add2List, List.range_succ]
      exact (add_serials task time).trans (hi.places.append_right [s.added])
    · by_cases hp : s.pendlist = []
      · exact Or.inl (by simp [add2List, hp])
      · simpa [add2List, hp] using hi.armed hp
  · exact hi
  · exact ⟨hi.places, fun _ => Or.inl (by simp [wake]), hi.idle, hi.empty⟩
  · refine ⟨?_, fun hp => absurd rfl hp, fun hdes => absurd hdes (by simp [timerNotify, hd]), fun _ => rfl⟩
    have hplaces := hi.places
    simpa [AtOnePlace, CTaskPendingList.serials, CTaskPendingList.waiting, timerNotify, hw] using hplaces
  · obtain ⟨hdes, hadd⟩ := @walkStep_destroyed Task timeout s w
    refine ⟨?_, walkStep_armed hw hi.armed, fun h => absurd h (by simp [hdes, hd]), fun h => absurd h (by simp [hdes, hd])⟩
    rw [AtOnePlace, hadd]
    exact (walkStep_serials hw).trans hi.places
  · refine ⟨?_, fun hp => absurd rfl hp, fun _ => hw, fun _ => rfl⟩
    have hplaces := hi.places
    simp only [AtOnePlace, CTaskPendingList.serials, CTaskPendingList.waiting, hw, Option.elim_none, List.append_nil] at hplaces
    simp only [AtOnePlace, CTaskPendingList.serials, CTaskPendingList.waiting, destroy, hw, Option.elim_none,
      List.append_nil, List.map_nil, List.nil_append, List.map_append, List.map_map, Function.comp_def]
    exact List.perm_append_comm.trans hplaces

theorem pendingMachine_inv (hs : (pendingMachine Task timeout).Reachable s) : s.Inv := by
  refine Machine.reachable_induct _ ?_ (fun s a s' hi h => pendingMachine_inv_step hi h) hs
  rintro s rfl
  exact ⟨List.Perm.refl _, fun hp => absurd rfl hp, fun h => absurd h (by simp), fun _ => rfl⟩

theorem pendingMachine_passing_step {a : PendingAct Task} {x : PendingSlot Task} {woken : Bool} {now : Int}
    {e : PendingEnd} (he : (woken = true ∧ e = .dispatched) ∨ (woken = false ∧ x.time + timeout < now ∧ e = .timedOut))
    (hi : s.Passing x woken now e) (ha : ∀ t, a ≠ .fire t) (h : (pendingMachine Task timeout).step s a = some s') :
    s'.Passing x woken now e := by
  obtain ⟨-, ⟨task, time, rfl, rfl⟩ | ⟨time, rfl, rfl⟩ | ⟨rfl, rfl⟩ | ⟨t, rfl, -, -, -⟩ | ⟨w, rfl, hw, rfl⟩ |
    ⟨rfl, hw, rfl⟩⟩ := pendingMachine_step h
  · exact hi
  · exact hi
  · exact hi
  · exact absurd rfl (ha t)
  · exact walkStep_passing hw he hi
  · rcases hi with ⟨w, hw', -⟩ | hleft
    · rw [hw] at hw'
      cases hw'
    · exact Or.inr (List.mem_append_left _ hleft)

theorem pendingMachine_passes {x : PendingSlot Task} {woken : Bool} {now : Int} {e : PendingEnd}
    (he : (woken = true ∧ e = .dispatched) ∨ (woken = false ∧ x.time + timeout < now ∧ e = .timedOut)) :
    ∀ (as : List (PendingAct Task)) (s s' : CTaskPendingList Task), s.Passing x woken now e →
      (∀ a ∈ as, ∀ t, a ≠ .fire t) → (pendingMachine Task timeout).run s as = some s' → s'.Passing x woken now e
  | [], s, s', hi, _, hr => by
    obtain rfl : s = s' := Option.some.inj hr
    exact hi
  | a :: as, s, s', hi, has, hr => by
    obtain ⟨t, ht, hr'⟩ := Machine.run_cons _ hr
    have hstep := pendingMachine_passing_step he hi (has a List.mem_cons_self) ht
    exact pendingMachine_passes he as t s' hstep (fun b hb => has b (List.mem_cons_of_mem a hb)) hr'

theorem pendingMachine_walk_ends : ∀ (copy : List (PendingSlot Task)) (s : CTaskPendingList Task) (w : PendingWalk Task),
    s.destroyed = false → s.walk = some w → w.copy = copy → ∃ s',
      (pendingMachine Task timeout).run s (List.replicate (copy.length + 1) .next) = some s' ∧ s'.walk = none
  | copy, s, w, hd, hw, hc => by
    have hstep : (pendingMachine Task timeout).step s .next = some (s.walkStep timeout w) := by
      simp [pendingMachine, hd, hw]
    rw [List.replicate_succ, Machine.run, hstep]
    cases copy with
    | nil =>
      refine ⟨_, rfl, ?_⟩
      unfold walkStep
      rw [hc]
      dsimp only
      split
      · rfl
      · split <;> rfl
    | cons x copy =>
      obtain ⟨w', hw', hc'⟩ : ∃ w', (s.walkStep timeout w).walk = some w' ∧ w'.copy = copy := by
        unfold walkStep
        rw [hc]
        dsimp only
        split
        · exact ⟨_, rfl, rfl⟩
        · split <;> exact ⟨_, rfl, rfl⟩
      exact pendingMachine_walk_ends copy _ w' ((walkStep_destroyed s w).1.trans hd) hw' hc'

/-- **Every task that is added is dispatched again or answered, once**: in every state of a run each addition waits or
has left once; what waits has a timer or is walked over, and a walk ends; and a notification, whatever is added and
notified while it walks, dispatches all that waited when the list was woken up, and answers what has waited too long
otherwise. -/
theorem pendingMachine_exactlyOnce (timeout : Int) (s : CTaskPendingList Task)
    (hs : (pendingMachine Task timeout).Reachable s) :
    s.AtOnePlace ∧ s.Armed ∧
    (s.walk = none → s.pendlist ≠ [] → ∀ now, ((pendingMachine Task timeout).step s (.fire now)).isSome) ∧
    (∀ w, s.walk = some w → ∃ s', (pendingMachine Task timeout).run s (List.replicate (w.copy.length + 1) .next) = some s' ∧
      s'.walk = none) ∧
    ∀ (now : Int) (as : List (PendingAct Task)) (s' : CTaskPendingList Task),
      (pendingMachine Task timeout).run s (.fire now :: as) = some s' → (∀ a ∈ as, ∀ t, a ≠ .fire t) → s'.walk = none →
      ∀ x ∈ s.pendlist, (s.wakeup = true → (x.serial, .dispatched) ∈ s'.left) ∧
        (s.wakeup = false → x.time + timeout < now → (x.serial, .timedOut) ∈ s'.left) := by
  have hi := pendingMachine_inv hs
  refine ⟨hi.places, hi.armed, fun hw hp now => ?_, fun w hw => ?_, ?_⟩
  · have ht : s.timer ≠ .detached := by
      rcases hi.armed hp with ht | ⟨w, hw', -⟩
      · exact ht
      · rw [hw] at hw'
        cases hw'
    have hd : s.destroyed = false := by
      cases hd : s.destroyed with
      | false => rfl
      | true => exact absurd (hi.empty hd) hp
    simp [pendingMachine, hd, hw, ht]
  · have hd : s.destroyed = false := by
      cases hd : s.destroyed with
      | false => rfl
      | true =>
        rw [hi.idle hd] at hw
        cases hw
    exact pendingMachine_walk_ends w.copy s w hd hw rfl
  · intro now as s' hr has hend x hx
    obtain ⟨t, ht, hr'⟩ := Machine.run_cons _ hr
    obtain ⟨-, ⟨task, time, h, -⟩ | ⟨time, h, -⟩ | ⟨h, -⟩ | ⟨now', h, -, -, rfl⟩ | ⟨w, h, -⟩ | ⟨h, -⟩⟩ :=
      pendingMachine_step ht
    all_goals cases h
    have hpass : ∀ e, (s.wakeup = true ∧ e = PendingEnd.dispatched) ∨
        (s.wakeup = false ∧ x.time + timeout < now ∧ e = .timedOut) → (x.serial, e) ∈ s'.left := by
      intro e he
      rcases pendingMachine_passes he as _ s' (Or.inl ⟨_, rfl, rfl, rfl, hx⟩) has hr' with ⟨w, hw, -⟩ | hleft
      · rw [hend] at hw
        cases hw
      · exact hleft
    exact ⟨fun hwake => hpass _ (Or.inl ⟨hwake, rfl⟩), fun hwake hlate => hpass _ (Or.inr ⟨hwake, hlate, rfl⟩)⟩

/-- A task that is added again by its own dispatch waits for the next notification. -/
theorem pendingMachine_readded : ∃ s : CTaskPendingList Nat, (pendingMachine Nat 5).Reachable s ∧
    s.left = [(0, .dispatched)] ∧ s.pendlist = [⟨1, 7, 1⟩] ∧ s.AtOnePlace ∧ s.Armed := by
  have hrun : ((pendingMachine Nat 5).run {}
      [.add (some 7) 0, .wakeup, .fire 1, .next, .add (some 7) 1, .next]).map (fun s => (s.left, s.pendlist)) =
        some ([(0, .dispatched)], [⟨1, 7, 1⟩]) := by
    decide
  obtain ⟨s, hr, hs⟩ := Option.map_eq_some_iff.mp hrun
  obtain ⟨hleft, hpend⟩ := Prod.mk.inj hs
  have hreach : (pendingMachine Nat 5).Reachable s := ⟨{}, _, rfl, hr⟩
  obtain ⟨hplaces, harmed, -⟩ := pendingMachine_exactlyOnce 5 s hreach
  exact ⟨s, hreach, hleft, hpend, hplaces, harmed⟩

end Run

end Dtc
