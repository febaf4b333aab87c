import DtcServer.CachePool
/-!
# CacheData — the rows of a node and what `CRawDataProcess` does to them

A chunk is read here as the list of its rows; of a row's flags only `OPER_DIRTY` matters.  Every operation reports, with
the rows it leaves, by how much the numbers of rows and of dirty rows changed (`m_llRowsInc`, `m_llDirtyRowsInc`): what
it reports is the source's own arithmetic.  Where a chunk cannot be attached, a row not decoded or not stored, the
operation stops and leaves the rows it had worked on; these places are in the task.
-/
namespace Dtc

/-- A row of a chunk; `dirty` says that one of the flags of `OPER_DIRTY` is set. -/
structure CacheRow (ρ : Type) where
  dirty : Bool
  value : ρ
  deriving DecidableEq, Repr

/-- A node that has a chunk, with the hash table its key is in, its dirty bit and its LRU list. -/
structure CacheNode (κ ρ : Type) where
  key : κ
  newhash : Bool
  rows : List (CacheRow ρ) := []
  dirty : Bool := false
  lru : LruList := .clean
  deriving DecidableEq, Repr

def dirtyRows {ρ : Type} (rows : List (CacheRow ρ)) : Nat := rows.countP (·.dirty)

inductive CacheCmd
  | get | insert | update | delete | replace | purge | flush
  deriving DecidableEq, Repr

/-- Where a data operation ends with an error: at `Attach`, at a row (by number), when the new row is inserted, or when the
inserted row is moved to the front. -/
structure DataFaults where
  attach : Bool := false
  row : Nat → Bool := fun _ => false
  insert : Bool := false
  moveFirst : Bool := false

/-- What the handlers read of a `CTaskRequest`, and how the calls they make turn out. -/
structure CacheTask (κ ρ : Type) where
  cmd : CacheCmd
  key : κ
  /-- the key `UpdatePackedKey` makes of the insert id -/
  insertKey : Option κ := none
  /-- `ISSET` of the key in the empty-node filter -/
  isset : Bool := false
  blackHole : Bool := false
  passThru : Bool := false
  blacklisted : Bool := false
  /-- a count-only request with a limit -/
  badLimit : Bool := false
  allRows : Bool := false
  affectedRows : Nat := 0
  /-- `RequestOperation()` is there, and `HasTypeCommit()` of it -/
  operation : Bool := true
  typeCommit : Bool := true
  /-- `HasTypeTimestamp()` and `HasTypeRW()` of the condition -/
  timestampCondition : Bool := false
  rwCondition : Bool := false
  compareRow : ρ → Bool := fun _ => true
  updateRow : ρ → ρ := fun r => r
  /-- the default row, and what `UpdateRow` makes of it -/
  defaultRow : ρ
  newRow : ρ
  sameUniq : ρ → ρ → Bool := fun _ _ => false
  /-- the rows of `result` -/
  result : List ρ := []
  /-- the result exceeds `nodeSizeLimit` or `nodeRowsLimit` -/
  tooLarge : Bool := false
  /-- `CacheAllocate` has a node, if need be after `TryPurgeSize` -/
  allocates : Bool := true
  /-- the chunk of a new node, or the one that replaces a node's, cannot be made -/
  chunkFails : Bool := false
  faults : DataFaults := {}
  /-- the sub-tasks of a flush that completed inside `PushFlushQueue` -/
  completed : Nat := 0

/-- What a data operation leaves: the rows, the increments it reports, the rows it affected and whether it returned 0. -/
structure DataResult (ρ : Type) where
  rows : List (CacheRow ρ)
  rowsInc : Int := 0
  dirtyRowsInc : Int := 0
  affected : Nat := 0
  ok : Bool := true
  deriving DecidableEq, Repr

/-- `AppendData`: -1062, another error with the rows it leaves, or the row is there. -/
inductive AppendResult (ρ : Type)
  | duplicate
  | failed (rows : List (CacheRow ρ))
  | done (d : DataResult ρ)
  deriving DecidableEq, Repr

namespace CacheTask

variable {κ ρ : Type} (t : CacheTask κ ρ)

/-- The rows that are read before the one where the operation ends. -/
def reached : Nat → List (CacheRow ρ) → List (CacheRow ρ)
  | _, [] => []
  | i, r :: rows => if t.faults.row i then [] else r :: reached (i + 1) rows

/-- The loop of `UpdateData`.  `ReplaceCurRow` keeps the flags of a row that is not written dirty. -/
def updateLoop (async : Bool) : Nat → List (CacheRow ρ) → DataResult ρ
  | _, [] => { rows := [] }
  | i, r :: rows =>
    if t.faults.row i then { rows := r :: rows, ok := false }
    else
      let d := updateLoop async (i + 1) rows
      if t.compareRow r.value then
        { d with
          rows := ⟨r.dirty || async, t.updateRow r.value⟩ :: d.rows
          dirtyRowsInc := d.dirtyRowsInc - r.dirty.toNat + async.toNat
          affected := d.affected + 1 }
      else { d with rows := r :: d.rows }

def updateData (async : Bool) (rows : List (CacheRow ρ)) : DataResult ρ :=
  if t.faults.attach then { rows := rows, ok := false } else t.updateLoop async 0 rows

def deleteLoop : Nat → List (CacheRow ρ) → DataResult ρ
  | _, [] => { rows := [] }
  | i, r :: rows =>
    if t.faults.row i then { rows := r :: rows, ok := false }
    else
      let d := deleteLoop (i + 1) rows
      if t.compareRow r.value then
        { d with rowsInc := d.rowsInc - 1, dirtyRowsInc := d.dirtyRowsInc - r.dirty.toNat, affected := d.affected + 1 }
      else { d with rows := r :: d.rows }

def deleteData (rows : List (CacheRow ρ)) : DataResult ρ :=
  if t.faults.attach then { rows := rows, ok := false } else t.deleteLoop 0 rows

def conflicts (keyAsUniq : Bool) (r : CacheRow ρ) : Bool := keyAsUniq || t.sameUniq t.newRow r.value

/-- The loop of `ReplaceRows`, with `ullAffectedrows`: the first conflicting row is replaced, the others are deleted. -/
def replaceLoop (keyAsUniq async : Bool) : Nat → Nat → List (CacheRow ρ) → DataResult ρ
  | _, affected, [] => { rows := [], affected := affected }
  | i, affected, r :: rows =>
    if t.faults.row i then { rows := r :: rows, affected := affected, ok := false }
    else if t.conflicts keyAsUniq r then
      let d := replaceLoop keyAsUniq async (i + 1) (if affected = 0 then 2 else affected + 1) rows
      { d with
        rows := if affected = 0 then ⟨r.dirty || async, t.newRow⟩ :: d.rows else d.rows
        dirtyRowsInc := d.dirtyRowsInc - r.dirty.toNat + async.toNat }
    else
      let d := replaceLoop keyAsUniq async (i + 1) affected rows
      { d with rows := r :: d.rows }

def replaceRows (keyAsUniq async : Bool) (rows : List (CacheRow ρ)) : DataResult ρ :=
  if t.faults.attach then { rows := rows, ok := false }
  else
    let d := t.replaceLoop keyAsUniq async 0 0 rows
    if d.ok && d.affected == 0 then
      -- no row to replace: the new one is inserted
      if t.faults.insert then { d with ok := false }
      else
        { d with
          rows := d.rows ++ [⟨async, t.newRow⟩], rowsInc := d.rowsInc + 1, affected := 1
          dirtyRowsInc := d.dirtyRowsInc + async.toNat }
    else d

/-- The search for a row with the new one's unique fields: an error where a row is not decoded. -/
def uniqScan : Nat → List (CacheRow ρ) → Option Bool
  | _, [] => some false
  | i, r :: rows =>
    if t.faults.row i then none else if t.sameUniq t.newRow r.value then some true else uniqScan (i + 1) rows

/-- `AppendData`, with `InsertRow` at the front or at the end. -/
def appendData (keyAsUniq keyPartOfUniq first async setrows : Bool) (rows : List (CacheRow ρ)) : AppendResult ρ :=
  if t.faults.attach then .failed rows
  else if !rows.isEmpty && (async || setrows) && keyAsUniq then .duplicate
  else
    match if !rows.isEmpty && setrows && keyPartOfUniq then t.uniqScan 0 rows else some false with
    | none => .failed rows
    | some true => .duplicate
    | some false =>
      if t.faults.insert then .failed rows
      -- `InsertRowFlag` has no memory for the move and returns, with the row stored at the end
      else if first && !rows.isEmpty && t.faults.moveFirst then .failed (rows ++ [⟨async, t.newRow⟩])
      else
        .done {
          rows := if first then ⟨async, t.newRow⟩ :: rows else rows ++ [⟨async, t.newRow⟩]
          rowsInc := 1, dirtyRowsInc := async.toNat, affected := 1 }

/-- The loop of `FlushData`; `affected` is the number of rows that are flushed. -/
def flushLoop : Nat → List (CacheRow ρ) → DataResult ρ
  | _, [] => { rows := [] }
  | i, r :: rows =>
    if t.faults.row i then { rows := r :: rows, ok := false }
    else
      let d := flushLoop (i + 1) rows
      { d with
        rows := { r with dirty := false } :: d.rows
        dirtyRowsInc := d.dirtyRowsInc - r.dirty.toNat, affected := d.affected + r.dirty.toNat }

/-- `FlushData`: the rows of a node that is not dirty are left alone. -/
def flushData (node : CacheNode κ ρ) : DataResult ρ :=
  if t.faults.attach then { rows := node.rows, ok := false }
  else if node.dirty then t.flushLoop 0 node.rows else { rows := node.rows }

end CacheTask

/-! ## What the operations report

The rows an operation works on are those it reaches and that match.  What it leaves and what it reports are compared
with these. -/

section Reports

variable {ρ : Type}

@[simp] theorem dirtyRows_nil : dirtyRows ([] : List (CacheRow ρ)) = 0 := rfl

@[simp] theorem dirtyRows_cons (r : CacheRow ρ) (rows : List (CacheRow ρ)) :
    dirtyRows (r :: rows) = dirtyRows rows + r.dirty.toNat := by
  unfold dirtyRows
  cases h : r.dirty <;> simp [h]

@[simp] theorem dirtyRows_append (rows rows' : List (CacheRow ρ)) :
    dirtyRows (rows ++ rows') = dirtyRows rows + dirtyRows rows' := by
  unfold dirtyRows
  rw [List.countP_append]

theorem dirtyRows_le_length (rows : List (CacheRow ρ)) : dirtyRows rows ≤ rows.length := List.countP_le_length

@[simp] theorem dirtyRows_result (vs : List ρ) : dirtyRows (vs.map (fun v => (⟨false, v⟩ : CacheRow ρ))) = 0 := by
  induction vs with
  | nil => rfl
  | cons v vs ih => simp [ih]

end Reports

namespace CacheTask

variable {κ ρ : Type} (t : CacheTask κ ρ)

def worked (sel : CacheRow ρ → Bool) (rows : List (CacheRow ρ)) : List (CacheRow ρ) :=
  if t.faults.attach then [] else (t.reached 0 rows).filter sel

theorem updateLoop_spec (async : Bool) : ∀ (i : Nat) (rows : List (CacheRow ρ)),
    let d := t.updateLoop async i rows
    let m := (t.reached i rows).filter (fun r => t.compareRow r.value)
    d.rows.length = rows.length ∧
      dirtyRows d.rows + (if async then dirtyRows m else 0) = dirtyRows rows + (if async then m.length else 0) ∧
      d.dirtyRowsInc = (if async then (m.length : Int) else 0) - dirtyRows m ∧ d.affected = m.length
  | _, [] => by simp [updateLoop, reached]
  | i, r :: rows => by
    obtain ⟨h1, h2, h3, h4⟩ := updateLoop_spec async (i + 1) rows
    unfold updateLoop reached
    by_cases hf : t.faults.row i = true
    · simp [hf]
    · by_cases hc : t.compareRow r.value = true
      · cases async <;> cases hr : r.dirty <;> simp_all <;> omega
      · simp_all
        omega

theorem deleteLoop_spec : ∀ (i : Nat) (rows : List (CacheRow ρ)),
    let d := t.deleteLoop i rows
    let m := (t.reached i rows).filter (fun r => t.compareRow r.value)
    d.rows.length + m.length = rows.length ∧ dirtyRows d.rows + dirtyRows m = dirtyRows rows ∧
      d.rowsInc = -(m.length : Int) ∧ d.dirtyRowsInc = -(dirtyRows m : Int)
  | _, [] => by simp [deleteLoop, reached]
  | i, r :: rows => by
    obtain ⟨h1, h2, h3, h4⟩ := deleteLoop_spec (i + 1) rows
    unfold deleteLoop reached
    by_cases hf : t.faults.row i = true
    · simp [hf]
    · by_cases hc : t.compareRow r.value = true
      · simp_all
        omega
      · simp_all
        omega

theorem flushLoop_spec : ∀ (i : Nat) (rows : List (CacheRow ρ)),
    let d := t.flushLoop i rows
    let m := t.reached i rows
    d.rows.length = rows.length ∧ dirtyRows d.rows + dirtyRows m = dirtyRows rows ∧
      d.dirtyRowsInc = -(dirtyRows m : Int) ∧ d.affected = dirtyRows m ∧ (d.ok = true → dirtyRows d.rows = 0)
  | _, [] => by simp [flushLoop, reached]
  | i, r :: rows => by
    obtain ⟨h1, h2, h3, h4, h5⟩ := flushLoop_spec (i + 1) rows
    unfold flushLoop reached
    by_cases hf : t.faults.row i = true
    · simp [hf]
    · simp_all
      omega

theorem replaceLoop_skip (keyAsUniq async : Bool) : ∀ (i a : Nat) (rows : List (CacheRow ρ)),
    (t.reached i rows).filter (t.conflicts keyAsUniq) = [] →
      let d := t.replaceLoop keyAsUniq async i a rows
      d.rows = rows ∧ d.rowsInc = 0 ∧ d.dirtyRowsInc = 0 ∧ d.affected = a
  | _, _, [], _ => by simp [replaceLoop]
  | i, a, r :: rows, h => by
    unfold replaceLoop
    unfold reached at h
    by_cases hf : t.faults.row i = true
    · simp [hf]
    · have hc : t.conflicts keyAsUniq r = false := by
        simp only [hf] at h
        by_contra hc
        simp [hc] at h
      have hrest : (t.reached (i + 1) rows).filter (t.conflicts keyAsUniq) = [] := by simpa [hf, hc] using h
      obtain ⟨h1, h2, h3, h4⟩ := replaceLoop_skip keyAsUniq async (i + 1) a rows hrest
      simp_all

theorem replaceLoop_one (keyAsUniq async : Bool) {c : CacheRow ρ} : ∀ (i : Nat) (rows : List (CacheRow ρ)),
    (t.reached i rows).filter (t.conflicts keyAsUniq) = [c] →
      let d := t.replaceLoop keyAsUniq async i 0 rows
      d.rows.length = rows.length ∧ dirtyRows d.rows + c.dirty.toNat = dirtyRows rows + (c.dirty || async).toNat ∧
        d.rowsInc = 0 ∧ d.dirtyRowsInc = async.toNat - c.dirty.toNat ∧ d.affected ≠ 0
  | _, [], h => by simp [reached] at h
  | i, r :: rows, h => by
    unfold replaceLoop
    unfold reached at h
    by_cases hf : t.faults.row i = true
    · simp [hf] at h
    · by_cases hc : t.conflicts keyAsUniq r = true
      · obtain ⟨rfl, hrest⟩ : r = c ∧ (t.reached (i + 1) rows).filter (t.conflicts keyAsUniq) = [] := by
          simpa [hf, hc] using h
        obtain ⟨h1, h2, h3, h4⟩ := t.replaceLoop_skip keyAsUniq async (i + 1) 2 rows hrest
        simp_all
        omega
      · have hrest : (t.reached (i + 1) rows).filter (t.conflicts keyAsUniq) = [c] := by simpa [hf, hc] using h
        obtain ⟨h1, h2, h3, h4, h5⟩ := replaceLoop_one keyAsUniq async (i + 1) rows hrest
        simp_all
        omega

theorem replaceLoop_sync (keyAsUniq : Bool) : ∀ (i a : Nat) (rows : List (CacheRow ρ)),
    dirtyRows (t.replaceLoop keyAsUniq false i a rows).rows ≤ dirtyRows rows
  | _, _, [] => by simp [replaceLoop]
  | i, a, r :: rows => by
    unfold replaceLoop
    split
    · exact Nat.le_refl _
    split
    · dsimp only
      split
      · have ih := replaceLoop_sync keyAsUniq (i + 1) 2 rows
        rw [dirtyRows_cons, dirtyRows_cons, Bool.or_false]
        dsimp only
        omega
      · have ih := replaceLoop_sync keyAsUniq (i + 1) (a + 1) rows
        rw [dirtyRows_cons]
        omega
    · have ih := replaceLoop_sync keyAsUniq (i + 1) a rows
      dsimp only
      rw [dirtyRows_cons, dirtyRows_cons]
      omega

theorem updateData_spec (async : Bool) (rows : List (CacheRow ρ)) :
    let d := t.updateData async rows
    let m := t.worked (fun r => t.compareRow r.value) rows
    d.rows.length = rows.length ∧
      dirtyRows d.rows + (if async then dirtyRows m else 0) = dirtyRows rows + (if async then m.length else 0) ∧
      d.dirtyRowsInc = (if async then (m.length : Int) else 0) - dirtyRows m ∧ d.affected = m.length := by
  unfold updateData worked
  split
  · simp
  · exact t.updateLoop_spec async 0 rows

theorem deleteData_spec (rows : List (CacheRow ρ)) :
    let d := t.deleteData rows
    let m := t.worked (fun r => t.compareRow r.value) rows
    d.rows.length + m.length = rows.length ∧ dirtyRows d.rows + dirtyRows m = dirtyRows rows ∧
      d.rowsInc = -(m.length : Int) ∧ d.dirtyRowsInc = -(dirtyRows m : Int) := by
  unfold deleteData worked
  split
  · simp
  · exact t.deleteLoop_spec 0 rows

/-- **A replace that meets at most one conflicting row** reports what it does, but for the flag of a dirty row that is
not written dirty. -/
theorem replaceRows_spec (keyAsUniq async : Bool) (rows : List (CacheRow ρ))
    (h : (t.worked (t.conflicts keyAsUniq) rows).length ≤ 1) :
    let d := t.replaceRows keyAsUniq async rows
    let m := t.worked (t.conflicts keyAsUniq) rows
    (d.rows.length : Int) = rows.length + d.rowsInc ∧
      (dirtyRows d.rows : Int) = dirtyRows rows + d.dirtyRowsInc + (if async then 0 else dirtyRows m) ∧
      (d.ok = false → d.rowsInc = 0 ∧ dirtyRows d.rows + (if async then dirtyRows m else 0) = dirtyRows rows +
        (if async then m.length else 0)) := by
  unfold replaceRows worked
  unfold worked at h
  by_cases ha : t.faults.attach = true
  · simp [ha]
  · simp only [ha, Bool.false_eq_true, if_false] at h ⊢
    cases hm : (t.reached 0 rows).filter (t.conflicts keyAsUniq) with
    | nil =>
      obtain ⟨h1, h2, h3, h4⟩ := t.replaceLoop_skip keyAsUniq async 0 0 rows hm
      generalize t.replaceLoop keyAsUniq async 0 0 rows = d at h1 h2 h3 h4
      by_cases hok : d.ok = true
      · by_cases hi : t.faults.insert = true
        · simp [*]
        · simp [*]
      · simp [*]
    | cons c m =>
      obtain rfl : m = [] := by
        rw [hm] at h
        exact List.eq_nil_of_length_eq_zero (by simpa using h)
      obtain ⟨h1, h2, h3, h4, h5⟩ := t.replaceLoop_one keyAsUniq async 0 rows hm
      generalize t.replaceLoop keyAsUniq async 0 0 rows = d at h1 h2 h3 h4 h5
      have hne : (d.ok && d.affected == 0) = false := by simp [h5]
      rw [hne, if_neg (by decide)]
      refine ⟨by omega, ?_, fun _ => ⟨h3, ?_⟩⟩
      · cases async <;> cases hc : c.dirty <;> simp_all
      · cases async <;> cases hc : c.dirty <;> simp_all

theorem replaceRows_sync (keyAsUniq : Bool) (rows : List (CacheRow ρ)) :
    dirtyRows (t.replaceRows keyAsUniq false rows).rows ≤ dirtyRows rows := by
  have hloop := t.replaceLoop_sync keyAsUniq 0 0 rows
  unfold replaceRows
  split
  · exact Nat.le_refl _
  dsimp only
  split
  · split
    · exact hloop
    · simpa using hloop
  · exact hloop

theorem replaceRows_failed (keyAsUniq async : Bool) (rows : List (CacheRow ρ))
    (h : t.worked (t.conflicts keyAsUniq) rows = []) (hbad : (t.replaceRows keyAsUniq async rows).ok = false) :
    (t.replaceRows keyAsUniq async rows).rows = rows := by
  unfold worked at h
  unfold replaceRows at hbad ⊢
  split at h
  · next ha => rw [if_pos ha]
  · next ha =>
    obtain ⟨h1, -, -, -⟩ := t.replaceLoop_skip keyAsUniq async 0 0 rows h
    rw [if_neg ha] at hbad ⊢
    dsimp only at hbad ⊢
    split
    · next hc =>
      rw [if_pos hc] at hbad
      split
      · exact h1
      · next hi =>
        rw [if_neg hi] at hbad
        rw [Bool.and_eq_true] at hc
        exact absurd hc.1 (Bool.eq_false_iff.mp hbad)
    · exact h1

theorem appendData_spec {keyAsUniq keyPart first async setrows : Bool} {rows : List (CacheRow ρ)} {d : DataResult ρ}
    (h : t.appendData keyAsUniq keyPart first async setrows rows = .done d) :
    d.rows.length = rows.length + 1 ∧ dirtyRows d.rows = dirtyRows rows + async.toNat ∧ d.rowsInc = 1 ∧
      d.dirtyRowsInc = async.toNat := by
  unfold appendData at h
  split at h
  · cases h
  split at h
  · cases h
  split at h
  · cases h
  · cases h
  split at h
  · cases h
  split at h
  · cases h
  obtain rfl := AppendResult.done.inj h
  cases first <;> simp

/-- An `AppendData` that fails leaves the rows, or it has stored the new one behind them. -/
theorem appendData_failed {keyAsUniq keyPart first async setrows : Bool} {rows rows' : List (CacheRow ρ)}
    (h : t.appendData keyAsUniq keyPart first async setrows rows = .failed rows') :
    rows' = rows ∨ rows ≠ [] ∧ rows' = rows ++ [⟨async, t.newRow⟩] := by
  unfold appendData at h
  split at h
  · exact .inl (AppendResult.failed.inj h).symm
  split at h
  · cases h
  split at h
  · exact .inl (AppendResult.failed.inj h).symm
  · cases h
  split at h
  · exact .inl (AppendResult.failed.inj h).symm
  split at h
  · next hmove =>
    simp only [Bool.and_eq_true, Bool.not_eq_true', List.isEmpty_eq_false_iff] at hmove
    exact .inr ⟨hmove.1.2, (AppendResult.failed.inj h).symm⟩
  · cases h

theorem flushData_spec (n : CacheNode κ ρ) :
    let d := t.flushData n
    d.rows.length = n.rows.length ∧ (dirtyRows d.rows : Int) = dirtyRows n.rows + d.dirtyRowsInc ∧
      d.dirtyRowsInc = -(d.affected : Int) ∧ d.affected ≤ dirtyRows (t.worked (fun _ => true) n.rows) ∧
      (n.dirty = true → d.ok = true → dirtyRows d.rows = 0) := by
  unfold flushData worked
  split
  · simp
  split
  · obtain ⟨h1, h2, h3, h4, h5⟩ := t.flushLoop_spec 0 n.rows
    refine ⟨h1, ?_, ?_, ?_, fun _ => h5⟩
    · omega
    · omega
    · rw [List.filter_true, h4]
  · next hd => exact ⟨rfl, by simp, rfl, Nat.zero_le _, fun h => absurd h hd⟩

end CacheTask

end Dtc
