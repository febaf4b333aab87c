import Mathlib.Data.List.Flatten
/-!
# Defragment — the scan of the heap for small runs of used chunks (`CDefragMemAlgo`)

The chunks come in the order of their addresses, each with whether it is in use.  The used chunks behind a free one gather in
a queue, and are processed when the next free chunk comes; a run that is longer than the queue is given up.
-/
namespace Dtc

/-- `_status` -/
inductive DefragStatus where
  | search | matching
  deriving DecidableEq, Repr

/-- `CDefragMemAlgo`; `processed` are the handles that `Proccess` was called with. -/
structure CDefragMemAlgo where
  level : Int
  queue : List UInt64 := []
  status : DefragStatus := .search
  processed : List UInt64 := []
  deriving DecidableEq, Repr

namespace CDefragMemAlgo

/-- `Push`, with what it returns. -/
def push (a : CDefragMemAlgo) (handle : UInt64) (used : Int) : Int × CDefragMemAlgo :=
  if used ≠ 0 ∧ used ≠ 1 then (-1, a)
  else
    match a.status with
    | .search => if used = 1 then (0, a) else (0, { a with status := .matching })
    | .matching =>
      if used = 1 then
        if (a.queue.length : Int) < a.level then (0, { a with queue := a.queue ++ [handle] })
        else (0, { a with queue := [], status := .search })
      else if a.queue = [] then (-1, a)
      else (0, { a with queue := [], processed := a.processed ++ a.queue })

/-- A chunk of the heap: its handle, and whether it is in use. -/
abbrev HeapChunk := UInt64 × Bool

def usedFlag (c : HeapChunk) : Int := if c.2 then 1 else 0

/-- The chunks of a heap, one after another; what `Push` returns is only logged. -/
def pushAll (a : CDefragMemAlgo) (chunks : List HeapChunk) : CDefragMemAlgo :=
  chunks.foldl (fun a c => (a.push c.1 (usedFlag c)).2) a

/-! ## The runs between free chunks -/

def isFree (c : HeapChunk) : Bool := !c.2

/-- The runs of used chunks, empty ones too: the first and the last are at an end of the heap, the others stand between two
free chunks. -/
def usedRuns (chunks : List HeapChunk) : List (List HeapChunk) := chunks.splitOnP isFree

def fits (level : Int) (run : List HeapChunk) : Bool := decide (1 ≤ run.length ∧ (run.length : Int) ≤ level)

def selectedRuns (level : Int) (chunks : List HeapChunk) : List (List HeapChunk) :=
  (usedRuns chunks).tail.dropLast.filter (fits level)

theorem usedRuns_ne_nil (chunks : List HeapChunk) : usedRuns chunks ≠ [] := List.splitOnP_ne_nil _ _

theorem usedRuns_free (h : UInt64) (chunks : List HeapChunk) : usedRuns ((h, false) :: chunks) = [] :: usedRuns chunks := by
  simp [usedRuns, List.splitOnP_cons_eq_if_modifyHead, isFree]

theorem usedRuns_used (h : UInt64) (chunks : List HeapChunk) :
    usedRuns ((h, true) :: chunks) = (usedRuns chunks).modifyHead ((h, true) :: ·) := by
  simp [usedRuns, List.splitOnP_cons_eq_if_modifyHead, isFree]

theorem filter_long {level : Int} {run : List HeapChunk} (hlong : level < run.length) :
    ∀ {runs : List (List HeapChunk)}, runs ≠ [] →
      (runs.modifyHead (run ++ ·)).dropLast.filter (fits level) = runs.tail.dropLast.filter (fits level)
  | [], h => absurd rfl h
  | [_], _ => rfl
  | r :: r' :: runs, _ => by
    have hno : fits level (run ++ r) = false := by
      simp only [fits, List.length_append, decide_eq_false_iff_not]
      omega
    simp [hno]

/-- **The scan**, from any state: in a search what comes before the first free chunk is passed over; in a match the queue is
the beginning of the run. -/
theorem pushAll_spec : ∀ (chunks : List HeapChunk) (a : CDefragMemAlgo) (run : List HeapChunk),
    a.queue = run.map Prod.fst → (∀ c ∈ run, c.2 = true) → run.length ≤ a.level.toNat →
    (a.status = .search → run = []) →
    (a.pushAll chunks).processed = a.processed ++
      ((match a.status with
        | .search => (usedRuns chunks).tail
        | .matching => (usedRuns chunks).modifyHead (run ++ ·)).dropLast.filter (fits a.level)).flatten.map Prod.fst
  | [], a, run, _, _, _, _ => by
    cases a.status <;> simp [pushAll, usedRuns]
  | (h, used) :: chunks, a, run, hqueue, hused, hlevel, hsearch => by
    rw [pushAll, List.foldl_cons, ← pushAll]
    cases hstatus : a.status with
    | search =>
      have hnil : run = [] := hsearch hstatus
      subst hnil
      cases used with
      | true =>
        have hpush : (a.push h (usedFlag (h, true))).2 = a := by simp [push, usedFlag, hstatus]
        rw [hpush, pushAll_spec chunks a [] hqueue (by simp) hlevel (fun _ => rfl), hstatus, usedRuns_used]
        cases usedRuns chunks <;> rfl
      | false =>
        have hpush : (a.push h (usedFlag (h, false))).2 = { a with status := .matching } := by
          simp [push, usedFlag, hstatus]
        rw [hpush, pushAll_spec chunks { a with status := .matching } [] hqueue (by simp) hlevel (fun _ => rfl),
          usedRuns_free]
        cases usedRuns chunks <;> rfl
    | matching =>
      cases used with
      | true =>
        by_cases hroom : (a.queue.length : Int) < a.level
        · have hpush : (a.push h (usedFlag (h, true))).2 = { a with queue := a.queue ++ [h] } := by
            simp [push, usedFlag, hstatus, hroom]
          have hlen : a.queue.length = run.length := by rw [hqueue, List.length_map]
          have hspec := pushAll_spec chunks { a with queue := a.queue ++ [h] } (run ++ [(h, true)])
            (by simp [hqueue]) (by simpa using hused) (by simp; omega) (by simp [hstatus])
          rw [hpush, hspec, usedRuns_used]
          simp only [hstatus]
          cases usedRuns chunks with
          | nil => rfl
          | cons r runs => simp
        · have hpush : (a.push h (usedFlag (h, true))).2 = { a with queue := [], status := .search } := by
            simp [push, usedFlag, hstatus, hroom]
          have hlong : a.level < (run ++ [(h, true)]).length := by
            rw [hqueue, List.length_map] at hroom
            simp
            omega
          rw [hpush, pushAll_spec chunks { a with queue := [], status := .search } [] rfl (by simp) (by simp) (fun _ => rfl),
            usedRuns_used, ← filter_long hlong (usedRuns_ne_nil chunks)]
          cases usedRuns chunks with
          | nil => rfl
          | cons r runs => simp
      | false =>
        by_cases hempty : a.queue = []
        · have hpush : (a.push h (usedFlag (h, false))).2 = a := by simp [push, usedFlag, hstatus, hempty]
          have hnil : run = [] := by simpa [hempty] using hqueue
          subst hnil
          rw [hpush, pushAll_spec chunks a [] hqueue (by simp) hlevel (fun _ => rfl), hstatus, usedRuns_free]
          cases hruns : usedRuns chunks with
          | nil => exact absurd hruns (usedRuns_ne_nil chunks)
          | cons r runs => simp [fits]
        · have hpush : (a.push h (usedFlag (h, false))).2 = { a with queue := [], processed := a.processed ++ a.queue } := by
            simp [push, usedFlag, hstatus, hempty]
          have hfits : fits a.level run = true := by
            have hpos : run ≠ [] := fun hnil => hempty (by rw [hqueue, hnil]; rfl)
            have hlen := List.length_pos_iff.mpr hpos
            simp only [fits, decide_eq_true_eq]
            omega
          rw [hpush, pushAll_spec chunks { a with queue := [], processed := a.processed ++ a.queue } [] rfl (by simp) (by simp)
            (fun _ => rfl), usedRuns_free]
          simp only [hstatus]
          cases hruns : usedRuns chunks with
          | nil => exact absurd hruns (usedRuns_ne_nil chunks)
          | cons r runs => simp [hfits, hqueue]

theorem push_queue_le {a : CDefragMemAlgo} (hlevel : a.queue.length ≤ a.level.toNat) (handle : UInt64) (used : Int) :
    (a.push handle used).2.queue.length ≤ a.level.toNat ∧ (a.push handle used).2.level = a.level := by
  unfold push
  split
  · exact ⟨hlevel, rfl⟩
  cases a.status with
  | search =>
    dsimp only
    split <;> exact ⟨hlevel, rfl⟩
  | matching =>
    dsimp only
    split
    · split
      · next hroom =>
        refine ⟨?_, rfl⟩
        simp only [List.length_append, List.length_singleton]
        omega
      · exact ⟨Nat.zero_le _, rfl⟩
    · split
      · exact ⟨hlevel, rfl⟩
      · exact ⟨Nat.zero_le _, rfl⟩

theorem pushAll_queue_le : ∀ (chunks : List HeapChunk) (a : CDefragMemAlgo), a.queue.length ≤ a.level.toNat →
    (a.pushAll chunks).queue.length ≤ a.level.toNat
  | [], _, h => h
  | c :: chunks, a, h => by
    obtain ⟨hqueue, hlevel⟩ := push_queue_le h c.1 (usedFlag c)
    rw [← hlevel] at hqueue ⊢
    exact pushAll_queue_le chunks _ hqueue

/-! ## What the selected runs are -/

theorem usedRuns_append {run : List HeapChunk} (hused : ∀ c ∈ run, c.2 = true) (h : UInt64) (chunks : List HeapChunk) :
    usedRuns (run ++ (h, false) :: chunks) = run :: usedRuns chunks :=
  List.splitOnP_append_cons_of_forall_mem (fun c hc => by simp [isFree, hused c hc]) _ rfl _

theorem flatten_usedRuns : ∀ chunks : List HeapChunk, (usedRuns chunks).flatten = chunks.filter Prod.snd
  | [] => rfl
  | (h, false) :: chunks => by
    rw [usedRuns_free, List.flatten_cons, flatten_usedRuns chunks]
    rfl
  | (h, true) :: chunks => by
    have ih := flatten_usedRuns chunks
    rw [usedRuns_used, List.filter_cons_of_pos rfl, ← ih]
    cases hruns : usedRuns chunks with
    | nil => exact absurd hruns (usedRuns_ne_nil chunks)
    | cons r runs => simp

theorem used_of_mem_usedRuns {run : List HeapChunk} {chunks : List HeapChunk} (h : run ∈ usedRuns chunks) :
    ∀ c ∈ run, c.2 = true := by
  intro c hc
  have hflat : c ∈ (usedRuns chunks).flatten := List.mem_flatten.mpr ⟨run, h, hc⟩
  rw [flatten_usedRuns] at hflat
  exact (List.mem_filter.mp hflat).2

theorem usedRuns_cons {run : List HeapChunk} {runs : List (List HeapChunk)} (hruns : runs ≠ []) :
    ∀ {chunks : List HeapChunk}, usedRuns chunks = run :: runs →
      ∃ g after, chunks = run ++ (g, false) :: after ∧ usedRuns after = runs
  | [], h => by
    obtain ⟨-, hnil⟩ := List.cons.inj h
    exact absurd hnil.symm hruns
  | (h, false) :: chunks, heq => by
    rw [usedRuns_free] at heq
    obtain ⟨rfl, hrest⟩ := List.cons.inj heq
    exact ⟨h, chunks, rfl, hrest⟩
  | (h, true) :: chunks, heq => by
    rw [usedRuns_used] at heq
    cases hc : usedRuns chunks with
    | nil => exact absurd hc (usedRuns_ne_nil chunks)
    | cons r rs =>
      rw [hc, List.modifyHead_cons] at heq
      obtain ⟨rfl, hrest⟩ := List.cons.inj heq
      subst hrest
      obtain ⟨g, after, rfl, hafter⟩ := usedRuns_cons hruns hc
      exact ⟨g, after, rfl, hafter⟩

theorem mem_dropLast_usedRuns {run : List HeapChunk} : ∀ (runs : List (List HeapChunk)) {chunks : List HeapChunk}
    (f : UInt64), usedRuns chunks = runs → run ∈ runs.dropLast →
      ∃ before f' g after, (f, false) :: chunks = before ++ (f', false) :: run ++ (g, false) :: after
  | [], _, _, _, h => by cases h
  | [_], _, _, _, h => by cases h
  | r :: r' :: runs, chunks, f, heq, h => by
    obtain ⟨g, after, rfl, hafter⟩ := usedRuns_cons (List.cons_ne_nil _ _) heq
    rcases List.mem_cons.mp h with rfl | h
    · exact ⟨[], f, g, after, rfl⟩
    · obtain ⟨before, f', g', after', heq'⟩ := mem_dropLast_usedRuns (r' :: runs) g hafter h
      refine ⟨(f, false) :: r ++ before, f', g', after', ?_⟩
      rw [heq']
      simp

theorem mem_inner_usedRuns {run : List HeapChunk} {chunks : List HeapChunk} :
    run ∈ (usedRuns chunks).tail.dropLast ↔
      (∀ c ∈ run, c.2 = true) ∧ ∃ before f g after, chunks = before ++ (f, false) :: run ++ (g, false) :: after := by
  constructor
  · intro h
    refine ⟨used_of_mem_usedRuns (List.mem_of_mem_tail (List.dropLast_subset _ h)), ?_⟩
    cases hruns : usedRuns chunks with
    | nil => exact absurd hruns (usedRuns_ne_nil chunks)
    | cons r runs =>
      rw [hruns, List.tail_cons] at h
      have hne : runs ≠ [] := by
        rintro rfl
        cases h
      obtain ⟨g, after, rfl, hafter⟩ := usedRuns_cons hne hruns
      obtain ⟨before, f', g', after', heq⟩ := mem_dropLast_usedRuns runs g hafter h
      refine ⟨r ++ before, f', g', after', ?_⟩
      rw [heq]
      simp
  · rintro ⟨hused, before, f, g, after, rfl⟩
    have hsplit : usedRuns (before ++ (f, false) :: run ++ (g, false) :: after) =
        usedRuns before ++ run :: usedRuns after := by
      rw [List.append_assoc, List.cons_append, ← usedRuns_append hused g after]
      exact List.splitOnP_append_cons _ _ rfl
    cases hbefore : usedRuns before with
    | nil => exact absurd hbefore (usedRuns_ne_nil before)
    | cons r runs =>
      rw [hsplit, hbefore, List.cons_append, List.tail_cons, List.dropLast_append_of_ne_nil (List.cons_ne_nil _ _),
        List.dropLast_cons_of_ne_nil (usedRuns_ne_nil after)]
      simp

theorem mem_selectedRuns {level : Int} {run : List HeapChunk} {chunks : List HeapChunk} :
    run ∈ selectedRuns level chunks ↔ (1 ≤ run.length ∧ (run.length : Int) ≤ level) ∧ (∀ c ∈ run, c.2 = true) ∧
      ∃ before f g after, chunks = before ++ (f, false) :: run ++ (g, false) :: after := by
  rw [selectedRuns, List.mem_filter, mem_inner_usedRuns, fits, decide_eq_true_iff, and_comm]

theorem selectedRuns_sublist (level : Int) (chunks : List HeapChunk) : (selectedRuns level chunks).flatten.Sublist chunks := by
  have hruns : (selectedRuns level chunks).Sublist (usedRuns chunks) :=
    List.filter_sublist.trans ((List.dropLast_sublist _).trans (List.tail_sublist _))
  refine hruns.flatten.trans ?_
  rw [flatten_usedRuns]
  exact List.filter_sublist

/-- **The scan processes exactly the runs of at most `level` used chunks between two free ones**, in their order and each
chunk once, and the queue stays within its level at every chunk. -/
theorem pushAll_selects (level : Int) (chunks : List HeapChunk) :
    (({ level := level } : CDefragMemAlgo).pushAll chunks).processed = (selectedRuns level chunks).flatten.map Prod.fst ∧
      (∀ run, run ∈ selectedRuns level chunks ↔ (1 ≤ run.length ∧ (run.length : Int) ≤ level) ∧ (∀ c ∈ run, c.2 = true) ∧
        ∃ before f g after, chunks = before ++ (f, false) :: run ++ (g, false) :: after) ∧
      (selectedRuns level chunks).flatten.Sublist chunks ∧
      ∀ n, (({ level := level } : CDefragMemAlgo).pushAll (chunks.take n)).queue.length ≤ level.toNat := by
  refine ⟨?_, fun run => mem_selectedRuns, selectedRuns_sublist level chunks, fun n => ?_⟩
  · rw [pushAll_spec chunks { level := level } [] rfl (by simp) (Nat.zero_le _) (fun _ => rfl)]
    rfl
  · exact pushAll_queue_le (chunks.take n) { level := level } (Nat.zero_le _)

/-- Two runs share the free chunk between them; a run that is longer than the level is passed over, and the runs at the ends
of the heap are. -/
example : (({ level := 2 } : CDefragMemAlgo).pushAll [(0, true), (1, false), (2, true), (3, false), (4, true), (5, true),
    (6, false), (7, true), (8, true), (9, true), (10, false), (11, true)]).processed = [2, 4, 5] := by decide

end CDefragMemAlgo

end Dtc
