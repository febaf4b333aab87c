import DtcServer.Protocol
import Mathlib.Data.List.Nodup
import Mathlib.Data.List.Perm.Subperm
/-!
# Multiplexer — a batch request through `CTaskMultiplexer` and `CMultiRequest`

One batch request from `TaskNotify` to its reply.  The fast path hands the whole batch downstream, which serves some of
its keys; what is left is split into a task for each key.  A sub-task may complete at any time after it was handed out,
also inside the call that hands it out (`PushTaskQueue`), so the loop of `SplitTask` is a step for each of its
statements that other code can run in.
-/
namespace Dtc

/-- What the multiplexer reads of the request, and what `DecodeKeyList` returns for it. -/
structure BatchInput where
  requestCode : RequestCode
  hasAutoIncrement : Bool := false
  limitStart : Nat := 0
  limitCount : Nat := 0
  fastUpdate : Bool := false
  decodeKeyList : Int
  deriving DecidableEq, Repr

/-- Where control is: `pushed i` is inside the `PushTaskQueue` of key `i`. -/
inductive BatchPc where
  | entry
  | fast
  | split (i : Nat)
  | pushed (i : Nat)
  | waiting
  | done
  deriving DecidableEq, Repr

/-- The request (`result`, and what became of it) and its `CMultiRequest`. -/
structure BatchState where
  pc : BatchPc := .entry
  result : ResultInfo := {}
  replies : List ResultInfo := []
  /-- the request was touched after a reply -/
  usedAfterReply : Bool := false
  created : Bool := false
  deleted : Nat := 0
  /-- `wait != NULL` -/
  wait : Bool := false
  /-- the keys of `keyMask` -/
  completed : List Nat := []
  doneReq : Int := 0
  totalReq : Int := 0
  subReq : Int := 0
  firstPass : Bool := true
  /-- the sub-tasks that have not come back, by key -/
  outstanding : List Nat := []
  /-- the keys that were served or handed out, in order -/
  executed : List Nat := []
  splitFailed : Bool := false
  deriving DecidableEq, Repr

inductive BatchAction where
  | notify
  /-- downstream serves a key of the whole batch (`DoneBatchCursor`) -/
  | serve (i : Nat)
  /-- downstream replies the whole batch -/
  | batchReply (r : ResultInfo)
  /-- the next round of `SplitTask`; `copyOk` says how `Copy` ends -/
  | advance (copyOk : Bool)
  /-- `PushTaskQueue` returns -/
  | resume
  /-- a sub-task comes back; `mergeRet` is what `MergeResult` returns -/
  | complete (i : Nat) (r : ResultInfo) (mergeRet : Int)
  deriving DecidableEq, Repr

namespace BatchState

def touch (s : BatchState) : BatchState := { s with usedAfterReply := s.usedAfterReply || !s.replies.isEmpty }

def setError (s : BatchState) (err : Int) (errFrom msg : String) : BatchState :=
  { s.touch with result := ⟨err, errFrom, msg⟩ }

def replyNotify (s : BatchState) : BatchState := { s.touch with replies := s.replies ++ [s.result] }

def completeWaiter (s : BatchState) : BatchState := if s.wait then { s.replyNotify with wait := false } else s

/-- `delete` of the `CMultiRequest`, whose destructor replies a request that still waits. -/
def delete (s : BatchState) : BatchState := { s.completeWaiter with deleted := s.deleted + 1, pc := .done }

def secondPass (s : BatchState) (err : Int) : BatchState :=
  let s := { s with firstPass := false }
  if s.subReq = 0 then s.completeWaiter.delete
  else if err ≠ 0 then { ({ s with doneReq := s.totalReq - s.subReq }).completeWaiter with pc := .waiting }
  else { s with pc := .waiting }

/-- `CReplyMultiplexer::ReplyNotify`, up to the loop of `SplitTask`. -/
def replyMultiplexer (s : BatchState) : BatchState :=
  let s := s.touch
  if s.result.resultCode < 0 then s.secondPass (-1)
  else if s.totalReq - s.doneReq ≤ 0 then s.secondPass 0
  else { s with pc := .split 0 }

def setKeyCompleted (s : BatchState) (i : Nat) : BatchState :=
  { s with completed := s.completed ++ [i], doneReq := s.doneReq + 1 }

/-- One round of `SplitTask` at key `i`; a `Copy` that fails ends it. -/
def splitTask (s : BatchState) (i : Nat) (copyOk : Bool) : BatchState :=
  if s.totalReq ≤ i then s.secondPass 0
  else if i ∈ s.completed then { s with pc := .split (i + 1) }
  else if copyOk then
    { s.touch with outstanding := s.outstanding ++ [i], executed := s.executed ++ [i], pc := .pushed i }
  else
    { s.touch.setError (-enomem) "ReplyNotify" "split task error" with splitFailed := true }.secondPass (-1)

/-- What `CompleteTask` makes of a sub-task's result: the first error, and a merge that fails, become the request's. -/
def mergeResult (s : BatchState) (r : ResultInfo) (mergeRet : Int) : BatchState :=
  if s.wait then
    let s := if s.result.resultCode ≥ 0 ∧ r.resultCode < 0 then { s.touch with result := r } else s.touch
    if mergeRet ≠ 0 then s.setError mergeRet "multi_request" "merge result error" else s
  else s

def completeTask (s : BatchState) (i : Nat) (r : ResultInfo) (mergeRet : Int) : BatchState :=
  let s := { s.mergeResult r mergeRet with outstanding := s.outstanding.erase i }
  let s := s.setKeyCompleted i
  let s := { s with subReq := s.subReq - 1 }
  if s.firstPass = false ∧ s.subReq = 0 then s.completeWaiter.delete else s

end BatchState

namespace BatchInput

variable (inp : BatchInput)

/-- The requests `TaskNotify` turns away, with the text of the error. -/
def rejects : Option String :=
  match inp.requestCode with
  | .insert | .replace =>
    if inp.hasAutoIncrement then some "table has autoincrement field, multi-insert/replace not support" else none
  | .get => if inp.limitStart ≠ 0 ∨ inp.limitCount ≠ 0 then some "multi-task not support Limit()" else none
  | .delete | .purge | .update | .flush => none
  | _ => some "bad batch request type"

/-- `CTaskMultiplexer::TaskNotify` of a batch request. -/
def taskNotify (s : BatchState) : BatchState :=
  match inp.rejects with
  | some msg => { (s.setError (-ecTooManyKeyValue) "TaskNotify" msg).replyNotify with pc := .done }
  | none =>
    let s := { s with created := true, wait := true }
    if inp.decodeKeyList ≤ 0 then s.replyNotify.delete
    else
      let s := { s with totalReq := inp.decodeKeyList }
      if inp.fastUpdate ∨ inp.requestCode = .get then { s with pc := .fast } else s.replyMultiplexer

def step (s : BatchState) : BatchAction → Option BatchState
  | .notify => if s.pc = .entry then some (inp.taskNotify s) else none
  | .serve i =>
    if s.pc = .fast ∧ i < s.totalReq ∧ i ∉ s.completed then
      some { s.setKeyCompleted i with executed := s.executed ++ [i] }
    else none
  | .batchReply r => if s.pc = .fast then some { s with result := r }.replyMultiplexer else none
  | .advance copyOk => match s.pc with
    | .split i => some (s.splitTask i copyOk)
    | _ => none
  | .resume => match s.pc with
    | .pushed i => some { s with subReq := s.subReq + 1, pc := .split (i + 1) }
    | _ => none
  | .complete i r mergeRet => if i ∈ s.outstanding then some (s.completeTask i r mergeRet) else none

end BatchInput

def batchMachine (inp : BatchInput) : Machine BatchState BatchAction where
  start s := s = {}
  step := inp.step

/-- **The contract of a batch request**, in one state of a run. -/
structure BatchOnce (inp : BatchInput) (s : BatchState) : Prop where
  repliedOnce : s.replies.length ≤ 1
  unused : s.usedAfterReply = false
  keysOnce : s.executed.Nodup
  /-- the `CMultiRequest` goes once, and after its last sub-task -/
  deletedLast : s.deleted ≤ 1 ∧ (s.deleted = 1 → s.outstanding = [])
  /-- a reply ahead of the last sub-task is the error of a failed split -/
  early : s.replies ≠ [] → s.outstanding ≠ [] → s.splitFailed = true
  finished : s.pc = .done →
    s.replies.length = 1 ∧ s.outstanding = [] ∧ s.deleted = if s.created then 1 else 0
  /-- there is a step to go until the end -/
  progress : s.pc ≠ .done → ∃ a s', inp.step s a = some s'
  notSuccess : inp.decodeKeyList < 0 → ∀ r ∈ s.replies, r.resultCode < 0

/-! ## The invariant -/

/-- What holds of the counters and of the request at each place of control. -/
def BatchPlace (inp : BatchInput) (s : BatchState) : Prop :=
  match s.pc with
  | .entry => s = {}
  | .fast => s.created ∧ s.wait ∧ s.replies = [] ∧ s.deleted = 0 ∧ s.firstPass = true ∧ s.outstanding = [] ∧
      s.subReq = 0 ∧ s.totalReq = inp.decodeKeyList
  | .split i => s.created ∧ s.wait ∧ s.replies = [] ∧ s.deleted = 0 ∧ s.firstPass = true ∧
      s.subReq = s.outstanding.length ∧ s.totalReq = inp.decodeKeyList ∧ ∀ k ∈ s.outstanding, k < i
  | .pushed i => s.created ∧ s.wait ∧ s.replies = [] ∧ s.deleted = 0 ∧ s.firstPass = true ∧
      s.subReq + 1 = s.outstanding.length ∧ s.totalReq = inp.decodeKeyList ∧ (∀ k ∈ s.outstanding, k < i + 1) ∧
      i ∈ s.executed
  | .waiting => s.created ∧ s.deleted = 0 ∧ s.firstPass = false ∧ s.outstanding ≠ [] ∧
      s.subReq = s.outstanding.length ∧
      (s.wait = true ∧ s.replies = [] ∨ s.wait = false ∧ s.replies.length = 1 ∧ s.splitFailed = true)
  | .done => s.replies.length = 1 ∧ s.outstanding = [] ∧ s.deleted = if s.created then 1 else 0

structure BatchInv (inp : BatchInput) (s : BatchState) : Prop where
  unused : s.usedAfterReply = false
  keysOnce : s.executed.Nodup
  executed : ∀ k, k ∈ s.executed ↔ k ∈ s.completed ∨ k ∈ s.outstanding
  bounded : ∀ k ∈ s.executed, (k : Int) < inp.decodeKeyList
  accepted : s.created = true → 0 < inp.decodeKeyList
  turnedAway : s.created = false → ∀ r ∈ s.replies, r.resultCode < 0
  place : BatchPlace inp s

theorem BatchInv.once {inp : BatchInput} {s : BatchState} (h : BatchInv inp s) : BatchOnce inp s := by
  have hpl := h.place
  unfold BatchPlace at hpl
  have hnot : inp.decodeKeyList < 0 → ∀ r ∈ s.replies, r.resultCode < 0 := fun hneg => by
    cases hc : s.created with
    | true =>
      have := h.accepted hc
      omega
    | false => exact h.turnedAway hc
  cases hpc : s.pc with
  | entry =>
    rw [hpc] at hpl
    dsimp only at hpl
    subst hpl
    exact ⟨by decide, rfl, List.nodup_nil, by decide, by decide, by decide,
      fun _ => ⟨.notify, _, rfl⟩, by simp⟩
  | fast =>
    rw [hpc] at hpl
    obtain ⟨-, -, hr, hd, -, ho, -, -⟩ := hpl
    exact ⟨by simp [hr], h.unused, h.keysOnce, by simp [hd], by simp [hr], by simp [hpc],
      fun _ => ⟨.batchReply {}, _, by simp only [BatchInput.step, hpc, if_true]; rfl⟩, hnot⟩
  | split i =>
    rw [hpc] at hpl
    obtain ⟨-, -, hr, hd, -⟩ := hpl
    exact ⟨by simp [hr], h.unused, h.keysOnce, by simp [hd], by simp [hr], by simp [hpc],
      fun _ => ⟨.advance true, _, by simp only [BatchInput.step, hpc]; rfl⟩, hnot⟩
  | pushed i =>
    rw [hpc] at hpl
    obtain ⟨-, -, hr, hd, -⟩ := hpl
    exact ⟨by simp [hr], h.unused, h.keysOnce, by simp [hd], by simp [hr], by simp [hpc],
      fun _ => ⟨.resume, _, by simp only [BatchInput.step, hpc]; rfl⟩, hnot⟩
  | waiting =>
    rw [hpc] at hpl
    obtain ⟨-, hd, -, hne, -, hw⟩ := hpl
    refine ⟨?_, h.unused, h.keysOnce, by simp [hd], fun hr _ => ?_, by simp [hpc], fun _ => ?_, hnot⟩
    · rcases hw with ⟨-, hr⟩ | ⟨-, hr, -⟩
      · simp [hr]
      · omega
    · rcases hw with ⟨-, hr'⟩ | ⟨-, -, hs⟩
      · exact absurd hr' hr
      · exact hs
    · obtain ⟨k, hk⟩ := List.exists_mem_of_ne_nil _ hne
      exact ⟨.complete k {} 0, _, by simp only [BatchInput.step, hk, if_true]; rfl⟩
  | done =>
    rw [hpc] at hpl
    obtain ⟨hr, ho, hd⟩ := hpl
    refine ⟨by omega, h.unused, h.keysOnce, ⟨?_, fun _ => ho⟩, fun _ hne => absurd ho hne, fun _ => ⟨hr, ho, hd⟩,
      fun hne => absurd hpc hne, hnot⟩
    rw [hd]
    split <;> omega

/-! ## One step -/

section Step

variable {inp : BatchInput} {s : BatchState}

theorem nodup_snoc {l : List Nat} {i : Nat} (hl : l.Nodup) (hi : i ∉ l) : (l ++ [i]).Nodup := by
  rw [List.nodup_append]
  refine ⟨hl, List.nodup_singleton i, ?_⟩
  rintro a ha b hb rfl
  exact hi (List.mem_singleton.mp hb ▸ ha)

theorem bounded_snoc {l : List Nat} {i : Nat} {n : Int} (hl : ∀ k ∈ l, (k : Int) < n) (hi : (i : Int) < n) :
    ∀ k ∈ l ++ [i], (k : Int) < n := by
  intro k hk
  rcases List.mem_append.mp hk with hk | hk
  · exact hl k hk
  · rw [List.mem_singleton.mp hk]
    exact hi

theorem batchInv_finish (hu : s.usedAfterReply = false) (hk : s.executed.Nodup)
    (he : ∀ k, k ∈ s.executed ↔ k ∈ s.completed ∨ k ∈ s.outstanding)
    (hb : ∀ k ∈ s.executed, (k : Int) < inp.decodeKeyList) (ha : s.created = true → 0 < inp.decodeKeyList)
    (hc : s.created = true) (ho : s.outstanding = []) (hd : s.deleted = 0)
    (hw : s.wait = true ∧ s.replies = [] ∨ s.wait = false ∧ s.replies.length = 1) :
    BatchInv inp s.completeWaiter.delete := by
  rcases hw with ⟨hw, hr⟩ | ⟨hw, hr⟩
  · have hs : s.completeWaiter = { s with wait := false, replies := [s.result] } := by
      simp [BatchState.completeWaiter, BatchState.replyNotify, BatchState.touch, hw, hr, hu]
    have hs' : s.completeWaiter.delete = { s with wait := false, replies := [s.result], deleted := 1, pc := .done } := by
      rw [hs]
      simp [BatchState.delete, BatchState.completeWaiter, hd]
    rw [hs']
    exact ⟨hu, hk, he, hb, ha, by simp [hc], ⟨rfl, ho, by simp [hc]⟩⟩
  · have hs : s.completeWaiter = s := by simp [BatchState.completeWaiter, hw]
    have hs' : s.completeWaiter.delete = { s with deleted := 1, pc := .done } := by
      rw [hs]
      simp only [BatchState.delete, hs, hd]
    rw [hs']
    exact ⟨hu, hk, he, hb, ha, by simp [hc], ⟨hr, ho, by simp [hc]⟩⟩

theorem batchInv_secondPass {err : Int} (hu : s.usedAfterReply = false) (hk : s.executed.Nodup)
    (he : ∀ k, k ∈ s.executed ↔ k ∈ s.completed ∨ k ∈ s.outstanding)
    (hb : ∀ k ∈ s.executed, (k : Int) < inp.decodeKeyList) (ha : s.created = true → 0 < inp.decodeKeyList)
    (hc : s.created = true) (hw : s.wait = true) (hr : s.replies = []) (hd : s.deleted = 0)
    (hs : s.subReq = s.outstanding.length) (hf : err = 0 ∨ s.outstanding = [] ∨ s.splitFailed = true) :
    BatchInv inp (s.secondPass err) := by
  unfold BatchState.secondPass
  dsimp only
  split
  · rename_i h0
    have ho : s.outstanding = [] := List.length_eq_zero_iff.mp (by omega)
    exact batchInv_finish hu hk he hb ha hc ho hd (.inl ⟨hw, hr⟩)
  · rename_i h0
    have hne : s.outstanding ≠ [] := fun ho => h0 (by rw [hs, ho]; rfl)
    split
    · rename_i herr
      have hsf : s.splitFailed = true := (hf.resolve_left herr).resolve_left hne
      simp only [BatchState.completeWaiter, BatchState.replyNotify, BatchState.touch, hw, hr, hu, if_true,
        List.isEmpty_nil, Bool.not_true, Bool.or_self, List.nil_append]
      exact ⟨rfl, hk, he, hb, ha, by simp [hc], ⟨hc, hd, rfl, hne, hs, .inr ⟨rfl, rfl, hsf⟩⟩⟩
    · exact ⟨hu, hk, he, hb, ha, by simp [hc], ⟨hc, hd, rfl, hne, hs, .inl ⟨hw, hr⟩⟩⟩

theorem batchInv_replyMultiplexer (hu : s.usedAfterReply = false) (hk : s.executed.Nodup)
    (he : ∀ k, k ∈ s.executed ↔ k ∈ s.completed ∨ k ∈ s.outstanding)
    (hb : ∀ k ∈ s.executed, (k : Int) < inp.decodeKeyList) (ha : s.created = true → 0 < inp.decodeKeyList)
    (hc : s.created = true) (hw : s.wait = true) (hr : s.replies = []) (hd : s.deleted = 0) (hs : s.subReq = 0)
    (ho : s.outstanding = []) (ht : s.totalReq = inp.decodeKeyList) (hfp : s.firstPass = true) :
    BatchInv inp s.replyMultiplexer := by
  have hu' : s.touch.usedAfterReply = false := by simp [BatchState.touch, hu, hr]
  have hs' : s.touch.subReq = s.touch.outstanding.length := by simp [BatchState.touch, hs, ho]
  unfold BatchState.replyMultiplexer
  dsimp only
  split
  · exact batchInv_secondPass hu' hk he hb ha hc hw hr hd hs' (.inr (.inl ho))
  · split
    · exact batchInv_secondPass hu' hk he hb ha hc hw hr hd hs' (.inl rfl)
    · refine ⟨hu', hk, he, hb, ha, by simp [BatchState.touch, hr], ?_⟩
      exact ⟨hc, hw, hr, hd, hfp, hs', ht, by simp [BatchState.touch, ho]⟩

theorem batchInv_notify (hin : inp.rejects ≠ none ∨ 0 < inp.decodeKeyList) : BatchInv inp (inp.taskNotify {}) := by
  unfold BatchInput.taskNotify
  cases hrej : inp.rejects with
  | some msg =>
    refine ⟨rfl, List.nodup_nil, by simp [BatchState.setError, BatchState.replyNotify, BatchState.touch],
      by simp [BatchState.setError, BatchState.replyNotify, BatchState.touch], fun h => Bool.noConfusion h, fun _ => ?_,
      by simp [BatchPlace, BatchState.setError, BatchState.replyNotify, BatchState.touch]⟩
    simp [BatchState.setError, BatchState.replyNotify, BatchState.touch, ecTooManyKeyValue]
  | none =>
    have hpos : 0 < inp.decodeKeyList := hin.resolve_left (by simp [hrej])
    dsimp only
    rw [if_neg (by omega)]
    split
    · exact ⟨rfl, List.nodup_nil, by simp, by simp, fun _ => hpos, by simp, by simp [BatchPlace]⟩
    · exact batchInv_replyMultiplexer rfl List.nodup_nil (by simp) (by simp) (fun _ => hpos) rfl rfl rfl rfl rfl rfl
        rfl rfl

theorem BatchInv.serve (h : BatchInv inp s) {i : Nat} (hpc : s.pc = .fast) (hlt : i < s.totalReq)
    (hi : i ∉ s.completed) :
    BatchInv inp { s.setKeyCompleted i with executed := s.executed ++ [i] } := by
  have hpl := h.place
  unfold BatchPlace at hpl
  rw [hpc] at hpl
  obtain ⟨hc, hw, hr, hd, hf, ho, hs, ht⟩ := hpl
  have hnew : i ∉ s.executed := fun hmem => by
    rcases (h.executed i).mp hmem with h' | h'
    · exact hi h'
    · simp [ho] at h'
  refine ⟨h.unused, nodup_snoc h.keysOnce hnew, fun k => ?_, bounded_snoc h.bounded (by omega), h.accepted,
    h.turnedAway, ?_⟩
  · simp only [BatchState.setKeyCompleted, List.mem_append, h.executed k, ho]
    simp
  · unfold BatchPlace
    simp only [BatchState.setKeyCompleted, hpc]
    exact ⟨hc, hw, hr, hd, hf, ho, hs, ht⟩

theorem BatchInv.batchReply (h : BatchInv inp s) (hpc : s.pc = .fast) (r : ResultInfo) :
    BatchInv inp { s with result := r }.replyMultiplexer := by
  have hpl := h.place
  unfold BatchPlace at hpl
  rw [hpc] at hpl
  obtain ⟨hc, hw, hr, hd, hf, ho, hs, ht⟩ := hpl
  exact batchInv_replyMultiplexer h.unused h.keysOnce h.executed h.bounded h.accepted hc hw hr hd hs ho ht hf

theorem BatchInv.splitTask (h : BatchInv inp s) {i : Nat} (hpc : s.pc = .split i) (copyOk : Bool) :
    BatchInv inp (s.splitTask i copyOk) := by
  have hpl := h.place
  unfold BatchPlace at hpl
  rw [hpc] at hpl
  obtain ⟨hc, hw, hr, hd, hf, hs, ht, ho⟩ := hpl
  have hu : s.touch.usedAfterReply = false := by simp [BatchState.touch, h.unused, hr]
  unfold BatchState.splitTask
  split
  · exact batchInv_secondPass h.unused h.keysOnce h.executed h.bounded h.accepted hc hw hr hd hs (.inl rfl)
  · rename_i hlt
    split
    · refine ⟨h.unused, h.keysOnce, h.executed, h.bounded, h.accepted, h.turnedAway, ?_⟩
      exact ⟨hc, hw, hr, hd, hf, hs, ht, fun k hk => Nat.lt_succ_of_lt (ho k hk)⟩
    · rename_i hi
      have hnew : i ∉ s.executed := fun hmem => by
        rcases (h.executed i).mp hmem with h' | h'
        · exact hi h'
        · exact Nat.lt_irrefl i (ho i h')
      split
      · refine ⟨hu, nodup_snoc h.keysOnce hnew, fun k => ?_, bounded_snoc h.bounded (by omega), h.accepted,
          h.turnedAway, ?_⟩
        · simp only [BatchState.touch, List.mem_append, h.executed k, or_assoc]
        · refine ⟨hc, hw, hr, hd, hf, by simp [BatchState.touch, hs], ht, fun k hk => ?_, by simp⟩
          rcases List.mem_append.mp hk with hk | hk
          · exact Nat.lt_succ_of_lt (ho k hk)
          · rw [List.mem_singleton.mp hk]
            exact Nat.lt_succ_self i
      · refine batchInv_secondPass ?_ h.keysOnce h.executed h.bounded h.accepted hc hw hr hd hs (.inr (.inr rfl))
        simp [BatchState.setError, BatchState.touch, h.unused, hr]

theorem BatchInv.resume (h : BatchInv inp s) {i : Nat} (hpc : s.pc = .pushed i) :
    BatchInv inp { s with subReq := s.subReq + 1, pc := .split (i + 1) } := by
  have hpl := h.place
  unfold BatchPlace at hpl
  rw [hpc] at hpl
  obtain ⟨hc, hw, hr, hd, hf, hs, ht, ho, -⟩ := hpl
  exact ⟨h.unused, h.keysOnce, h.executed, h.bounded, h.accepted, h.turnedAway, ⟨hc, hw, hr, hd, hf, hs, ht, ho⟩⟩

theorem mergeResult_eq (hu : s.usedAfterReply = false) (hw : s.wait = true → s.replies = []) (r : ResultInfo)
    (mergeRet : Int) : ∃ res, s.mergeResult r mergeRet = { s with result := res } := by
  unfold BatchState.mergeResult
  by_cases hwait : s.wait = true
  · have htouch : ∀ res, BatchState.touch { s with result := res } = { s with result := res } := fun res => by
      simp only [BatchState.touch, hu, hw hwait, List.isEmpty_nil, Bool.not_true, Bool.or_self]
    have hself : s.touch = s := htouch s.result
    rw [if_pos hwait]
    simp only [hself]
    by_cases herr : s.result.resultCode ≥ 0 ∧ r.resultCode < 0
    · rw [if_pos herr]
      by_cases hm : mergeRet ≠ 0
      · exact ⟨_, by rw [if_pos hm, BatchState.setError, htouch]⟩
      · exact ⟨r, by rw [if_neg hm]⟩
    · rw [if_neg herr]
      by_cases hm : mergeRet ≠ 0
      · exact ⟨_, by rw [if_pos hm, BatchState.setError, hself]⟩
      · exact ⟨s.result, by rw [if_neg hm]⟩
  · exact ⟨s.result, by rw [if_neg hwait]⟩

theorem mem_complete {i : Nat} (hi : i ∈ s.outstanding)
    (he : ∀ k, k ∈ s.executed ↔ k ∈ s.completed ∨ k ∈ s.outstanding) (k : Nat) :
    k ∈ s.executed ↔ k ∈ s.completed ++ [i] ∨ k ∈ s.outstanding.erase i := by
  rw [he k, List.mem_append, List.mem_singleton]
  by_cases hk : k = i
  · subst hk
    simp [hi]
  · rw [List.mem_erase_of_ne hk]
    simp [hk]

theorem BatchInv.completeTask (h : BatchInv inp s) {i : Nat} (hi : i ∈ s.outstanding) (r : ResultInfo)
    (mergeRet : Int) : BatchInv inp (s.completeTask i r mergeRet) := by
  have hpl := h.place
  unfold BatchPlace at hpl
  have hexec := mem_complete hi h.executed
  have hlen : (s.outstanding.erase i).length = s.outstanding.length - 1 := List.length_erase_of_mem hi
  have hpos : 0 < s.outstanding.length := List.length_pos_of_mem hi
  have hsub : ∀ k ∈ s.outstanding.erase i, k ∈ s.outstanding := fun k hk => List.mem_of_mem_erase hk
  cases hpc : s.pc with
  | entry =>
    rw [hpc] at hpl
    dsimp only at hpl
    simp [hpl] at hi
  | fast =>
    rw [hpc] at hpl
    simp [hpl.2.2.2.2.2.1] at hi
  | done =>
    rw [hpc] at hpl
    simp [hpl.2.1] at hi
  | split m =>
    rw [hpc] at hpl
    obtain ⟨hc, hw, hr, hd, hf, hs, ht, ho⟩ := hpl
    obtain ⟨res, hres⟩ := mergeResult_eq h.unused (fun _ => hr) r mergeRet
    unfold BatchState.completeTask
    simp only [hres, BatchState.setKeyCompleted, hf]
    rw [if_neg (by simp)]
    refine ⟨h.unused, h.keysOnce, hexec, h.bounded, h.accepted, h.turnedAway, ?_⟩
    simp only [BatchPlace, hpc]
    exact ⟨hc, hw, hr, hd, trivial, by omega, ht, fun k hk => ho k (hsub k hk)⟩
  | pushed m =>
    rw [hpc] at hpl
    obtain ⟨hc, hw, hr, hd, hf, hs, ht, ho, hm⟩ := hpl
    obtain ⟨res, hres⟩ := mergeResult_eq h.unused (fun _ => hr) r mergeRet
    unfold BatchState.completeTask
    simp only [hres, BatchState.setKeyCompleted, hf]
    rw [if_neg (by simp)]
    refine ⟨h.unused, h.keysOnce, hexec, h.bounded, h.accepted, h.turnedAway, ?_⟩
    simp only [BatchPlace, hpc]
    exact ⟨hc, hw, hr, hd, trivial, by omega, ht, fun k hk => ho k (hsub k hk), hm⟩
  | waiting =>
    rw [hpc] at hpl
    obtain ⟨hc, hd, hf, hne, hs, hw⟩ := hpl
    have hwr : s.wait = true → s.replies = [] := fun hwt => by
      rcases hw with ⟨-, hr⟩ | ⟨hwf, -⟩
      · exact hr
      · rw [hwt] at hwf
        cases hwf
    obtain ⟨res, hres⟩ := mergeResult_eq h.unused hwr r mergeRet
    unfold BatchState.completeTask
    simp only [hres, BatchState.setKeyCompleted, hf]
    split
    · rename_i hlast
      refine batchInv_finish h.unused h.keysOnce hexec h.bounded h.accepted hc ?_ hd ?_
      · exact List.length_eq_zero_iff.mp (by dsimp only; omega)
      · rcases hw with hw | ⟨hwf, hr, -⟩
        · exact .inl hw
        · exact .inr ⟨hwf, hr⟩
    · rename_i hmore
      refine ⟨h.unused, h.keysOnce, hexec, h.bounded, h.accepted, h.turnedAway, ?_⟩
      simp only [BatchPlace, hpc]
      refine ⟨hc, hd, trivial, fun hnil => ?_, by omega, hw⟩
      rw [hnil, List.length_nil] at hlen
      simp only [true_and] at hmore
      omega

end Step

theorem batchInv_step {inp : BatchInput} (hin : inp.rejects ≠ none ∨ 0 < inp.decodeKeyList) {s s' : BatchState}
    {a : BatchAction} (h : BatchInv inp s) (hs : inp.step s a = some s') : BatchInv inp s' := by
  cases a with
  | notify =>
    simp only [BatchInput.step] at hs
    split at hs
    · rename_i hpc
      have hpl := h.place
      unfold BatchPlace at hpl
      rw [hpc] at hpl
      dsimp only at hpl
      rw [← Option.some.inj hs, hpl]
      exact batchInv_notify hin
    · cases hs
  | serve i =>
    simp only [BatchInput.step] at hs
    split at hs
    · rename_i hc
      rw [← Option.some.inj hs]
      exact h.serve hc.1 hc.2.1 hc.2.2
    · cases hs
  | batchReply r =>
    simp only [BatchInput.step] at hs
    split at hs
    · rename_i hpc
      rw [← Option.some.inj hs]
      exact h.batchReply hpc r
    · cases hs
  | advance copyOk =>
    simp only [BatchInput.step] at hs
    split at hs
    · rename_i i hpc
      rw [← Option.some.inj hs]
      exact h.splitTask hpc copyOk
    · cases hs
  | resume =>
    simp only [BatchInput.step] at hs
    split at hs
    · rename_i i hpc
      rw [← Option.some.inj hs]
      exact h.resume hpc
    · cases hs
  | complete i r mergeRet =>
    simp only [BatchInput.step] at hs
    split at hs
    · rename_i hi
      rw [← Option.some.inj hs]
      exact h.completeTask hi r mergeRet
    · cases hs

theorem batchInv_init (inp : BatchInput) : BatchInv inp {} :=
  ⟨rfl, List.nodup_nil, by simp, by simp, fun h => Bool.noConfusion h, by simp, rfl⟩

theorem batchInv_reachable {inp : BatchInput} (hin : inp.rejects ≠ none ∨ 0 < inp.decodeKeyList) {s : BatchState}
    (h : (batchMachine inp).Reachable s) : BatchInv inp s :=
  (batchMachine inp).reachable_induct (fun _ h0 => h0 ▸ batchInv_init inp) (fun _ _ _ hs ht => batchInv_step hin hs ht) h

/-! ## The runs end -/

def batchMeasure (inp : BatchInput) (s : BatchState) : Nat :=
  let n := inp.decodeKeyList.toNat
  (match s.pc with
    | .entry => 5 * n + 4
    | .fast => 5 * n + 3 - s.executed.length
    | .split i => 4 * (n - i) + 2
    | .pushed i => 4 * (n - i) - 1
    | .waiting => 0
    | .done => 0) + s.outstanding.length

theorem completeWaiter_frame (s : BatchState) :
    s.completeWaiter.pc = s.pc ∧ s.completeWaiter.outstanding = s.outstanding := by
  unfold BatchState.completeWaiter BatchState.replyNotify BatchState.touch
  split <;> exact ⟨rfl, rfl⟩

theorem batchMeasure_secondPass (inp : BatchInput) (s : BatchState) (err : Int) :
    batchMeasure inp (s.secondPass err) = s.outstanding.length := by
  unfold BatchState.secondPass
  dsimp only
  split
  · simp [batchMeasure, BatchState.delete, completeWaiter_frame]
  · split <;> simp [batchMeasure, completeWaiter_frame]

theorem batchMeasure_replyMultiplexer (inp : BatchInput) (s : BatchState) :
    batchMeasure inp s.replyMultiplexer ≤ 4 * inp.decodeKeyList.toNat + 2 + s.outstanding.length := by
  unfold BatchState.replyMultiplexer
  dsimp only
  split
  · rw [batchMeasure_secondPass]
    simp only [BatchState.touch]
    omega
  · split
    · rw [batchMeasure_secondPass]
      simp only [BatchState.touch]
      omega
    · simp [batchMeasure, BatchState.touch]

theorem BatchInv.executed_length {inp : BatchInput} {s : BatchState} (h : BatchInv inp s) :
    s.executed.length ≤ inp.decodeKeyList.toNat := by
  have hsub : s.executed ⊆ List.range inp.decodeKeyList.toNat := fun k hk => by
    have := h.bounded k hk
    exact List.mem_range.mpr (by omega)
  have := (List.subperm_of_subset h.keysOnce hsub).length_le
  rwa [List.length_range] at this

theorem batchMeasure_complete (inp : BatchInput) {s : BatchState} {i : Nat}
    (hi : i ∈ s.outstanding) (r : ResultInfo) (mergeRet : Int) :
    batchMeasure inp (s.completeTask i r mergeRet) < batchMeasure inp s := by
  have hlen : (s.outstanding.erase i).length = s.outstanding.length - 1 := List.length_erase_of_mem hi
  have hpos : 0 < s.outstanding.length := List.length_pos_of_mem hi
  have hframe : ∀ t : BatchState, t.pc = s.pc → t.executed = s.executed → t.outstanding = s.outstanding.erase i →
      batchMeasure inp t < batchMeasure inp s := by
    intro t hpc hex hout
    simp only [batchMeasure, hpc, hex, hout, hlen]
    omega
  have hm : ∀ res : BatchState, (∃ x u, res = { s with result := x, usedAfterReply := u }) →
      res.pc = s.pc ∧ res.executed = s.executed := by
    rintro res ⟨x, u, rfl⟩
    exact ⟨rfl, rfl⟩
  have hmerge : ∃ x u, s.mergeResult r mergeRet = { s with result := x, usedAfterReply := u } := by
    unfold BatchState.mergeResult BatchState.setError BatchState.touch
    dsimp only
    split
    · split
      · split <;> exact ⟨_, _, rfl⟩
      · split <;> exact ⟨_, _, rfl⟩
    · exact ⟨_, _, rfl⟩
  obtain ⟨hpc, hex⟩ := hm _ hmerge
  unfold BatchState.completeTask
  dsimp only
  split
  · simp only [batchMeasure, BatchState.delete, completeWaiter_frame, BatchState.setKeyCompleted, hlen]
    omega
  · exact hframe _ hpc hex rfl

theorem batchMeasure_step {inp : BatchInput} {s s' : BatchState} {a : BatchAction} (h : BatchInv inp s)
    (hs : inp.step s a = some s') : batchMeasure inp s' < batchMeasure inp s := by
  have hpl := h.place
  unfold BatchPlace at hpl
  cases a with
  | notify =>
    simp only [BatchInput.step] at hs
    split at hs
    · rename_i hpc
      rw [hpc] at hpl
      dsimp only at hpl
      rw [← Option.some.inj hs, hpl]
      unfold BatchInput.taskNotify
      cases inp.rejects with
      | some msg => simp [batchMeasure, BatchState.setError, BatchState.replyNotify, BatchState.touch]
      | none =>
        dsimp only
        split
        · simp [batchMeasure, BatchState.delete, completeWaiter_frame, BatchState.replyNotify, BatchState.touch]
        · split
          · simp [batchMeasure]
          · refine Nat.lt_of_le_of_lt (batchMeasure_replyMultiplexer inp _) ?_
            simp [batchMeasure]
            omega
    · cases hs
  | serve i =>
    simp only [BatchInput.step] at hs
    split at hs
    · rename_i hc
      have hle := h.executed_length
      rw [← Option.some.inj hs]
      simp only [batchMeasure, BatchState.setKeyCompleted, hc.1, List.length_append, List.length_singleton]
      omega
    · cases hs
  | batchReply r =>
    simp only [BatchInput.step] at hs
    split at hs
    · rename_i hpc
      have hle := h.executed_length
      have hm := batchMeasure_replyMultiplexer inp { s with result := r }
      rw [← Option.some.inj hs]
      simp only [batchMeasure, hpc] at hm ⊢
      omega
    · cases hs
  | advance copyOk =>
    simp only [BatchInput.step] at hs
    split at hs
    · rename_i i hpc
      rw [hpc] at hpl
      obtain ⟨-, -, -, -, -, -, ht, -⟩ := hpl
      rw [← Option.some.inj hs]
      unfold BatchState.splitTask
      split
      · rw [batchMeasure_secondPass]
        simp only [batchMeasure, hpc]
        omega
      · split
        · simp only [batchMeasure, hpc]
          omega
        · split
          · simp only [batchMeasure, hpc, List.length_append, List.length_singleton]
            omega
          · rw [batchMeasure_secondPass]
            simp only [batchMeasure, hpc, BatchState.setError, BatchState.touch]
            omega
    · cases hs
  | resume =>
    simp only [BatchInput.step] at hs
    split at hs
    · rename_i i hpc
      rw [hpc] at hpl
      have hlt := h.bounded i hpl.2.2.2.2.2.2.2.2
      rw [← Option.some.inj hs]
      simp only [batchMeasure, hpc]
      omega
    · cases hs
  | complete i r mergeRet =>
    simp only [BatchInput.step] at hs
    split at hs
    · rename_i hi
      rw [← Option.some.inj hs]
      exact batchMeasure_complete inp hi r mergeRet
    · cases hs

theorem batchTwice (inp : BatchInput) (hrej : inp.rejects = none) (hdec : inp.decodeKeyList ≤ 0) :
    (batchMachine inp).Reachable (inp.taskNotify {}) ∧ (inp.taskNotify {}).replies = [{}, {}] ∧
      (inp.taskNotify {}).usedAfterReply = true := by
  refine ⟨⟨{}, [.notify], rfl, rfl⟩, ?_, ?_⟩
  · simp [BatchInput.taskNotify, hrej, hdec, BatchState.delete, BatchState.completeWaiter, BatchState.replyNotify,
      BatchState.touch]
  · simp [BatchInput.taskNotify, hrej, hdec, BatchState.delete, BatchState.completeWaiter, BatchState.replyNotify,
      BatchState.touch]

/-- **A batch request is replied once, and its keys executed once, exactly when it is turned away before the key list is
decoded or the list has a key**: in every state of every run, and the runs end. -/
theorem batchMachine_once_iff (inp : BatchInput) :
    ((∀ s, (batchMachine inp).Reachable s → BatchOnce inp s) ∧
      ∃ bound, ∀ as s, (batchMachine inp).run {} as = some s → as.length ≤ bound) ↔
      inp.rejects ≠ none ∨ 0 < inp.decodeKeyList := by
  constructor
  · rintro ⟨h, -⟩
    by_contra hcon
    rw [not_or, not_not] at hcon
    obtain ⟨hreach, hrep, -⟩ := batchTwice inp hcon.1 (by omega)
    have hone := (h _ hreach).repliedOnce
    rw [hrep] at hone
    simp at hone
  · intro hin
    refine ⟨fun s hs => (batchInv_reachable hin hs).once, batchMeasure inp {}, fun as s hr => ?_⟩
    exact (batchMachine inp).run_length_le (fun _ _ _ h ht => batchInv_step hin h ht)
      (fun _ _ _ h ht => batchMeasure_step h ht) as {} s (batchInv_init inp) hr

/-- **A batch read whose key list does not decode** is replied as a success, twice. -/
theorem undecodableGet_repliedTwice :
    ∃ s, (batchMachine { requestCode := .get, decodeKeyList := -1 }).Reachable s ∧ s.replies = [{}, {}] ∧
      ¬ BatchOnce { requestCode := .get, decodeKeyList := -1 } s := by
  refine ⟨_, ⟨{}, [.notify], rfl, rfl⟩, by decide, fun h => ?_⟩
  have hone := h.repliedOnce
  revert hone
  decide

end Dtc
