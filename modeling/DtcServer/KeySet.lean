import DtcServer.CacheHash
import Mathlib.Logic.Function.Basic
/-!
# KeySet — `CFileBackedKeySet`: the keys that were migrated

The keys are records in a mapped file, one after another, and an index in memory has their offsets in chains of a hash. How
long a record is follows from the key size alone, or from its first byte.
-/
namespace Dtc

/-- The mapped file: its size, and the records behind its `meta_info`. -/
structure KeyFile where
  size : Nat := 4096 * 1024
  records : List UInt8 := []

namespace KeyFile

def metaInfoSize : Nat := 16

def writePos (f : KeyFile) : Nat := metaInfoSize + f.records.length

/-- The memory at an offset of the mapping.  A comparison never gets behind the last record with all bytes equal, because the
first byte of a record says how long it is, or all have one length. -/
def memory (f : KeyFile) (offset n : Nat) : List UInt8 := (f.records.drop (offset - metaInfoSize)).take n

def growFileSize : Nat := 1024 * 1024

/-- `insert_to_file`: the file with the bytes, and their offset. -/
def insertToFile (f : KeyFile) (bytes : List UInt8) : KeyFile × Nat :=
  ({ size := if f.size < f.writePos + bytes.length then f.size + growFileSize else f.size
     records := f.records ++ bytes }, f.writePos)

end KeyFile

/-- The index in memory: the offsets of the keys in a chain for every bucket. -/
structure CFileBackedKeySet where
  keySize : Nat
  buckets : Nat → List Nat := fun _ => []

namespace CFileBackedKeySet

def bucketSize : Nat := 1024 * 1024

def bucket (bytes : List UInt8) : Nat := (newHash bytes).toNat % bucketSize

variable (s : CFileBackedKeySet) (f : KeyFile)

/-- The length of the key at a pointer; what is there is given from its first byte on. -/
def keyLen (key : List UInt8) : Nat := if s.keySize = 0 then (key.headD 0).toNat + 1 else s.keySize

def contains (key : List UInt8) : Bool :=
  (s.buckets (bucket (key.take (s.keyLen key)))).any
    (fun offset => decide (f.memory offset (s.keyLen key) = key.take (s.keyLen key)))

def insertToSet (bytes : List UInt8) (offset : Nat) : CFileBackedKeySet :=
  { s with buckets := Function.update s.buckets (bucket bytes) (offset :: s.buckets (bucket bytes)) }

def insert (key : List UInt8) : CFileBackedKeySet × KeyFile :=
  if s.contains f key then (s, f)
  else
    let file := f.insertToFile (key.take (s.keyLen key))
    (s.insertToSet (key.take (s.keyLen key)) file.2, file.1)

/-- The loops of `Load`: each turn goes on by at least one byte. -/
def loadLoop : Nat → Nat → CFileBackedKeySet → CFileBackedKeySet
  | 0, _, s => s
  | n + 1, start, s =>
    if start < f.writePos then
      let len := s.keyLen (f.memory start (f.writePos - start))
      loadLoop n (start + len) (s.insertToSet (f.memory start len) start)
    else s

def load (keySize : Nat) : CFileBackedKeySet := loadLoop f f.records.length KeyFile.metaInfoSize { keySize }

/-! ## The set of a list of keys -/

def IsKey (bytes : List UInt8) : Prop := bytes ≠ [] ∧ s.keyLen bytes = bytes.length

/-- The keys, put into the index one after another from an offset on. -/
def insertAll (s : CFileBackedKeySet) : Nat → List (List UInt8) → CFileBackedKeySet
  | _, [] => s
  | start, k :: ks => (s.insertToSet k start).insertAll (start + k.length) ks

/-- The set and its file hold these keys. -/
structure Holds (ks : List (List UInt8)) : Prop where
  keys : ∀ k ∈ ks, s.IsKey k
  records : f.records = ks.flatten
  index : s = insertAll { keySize := s.keySize } KeyFile.metaInfoSize ks

variable {s f} {start : Nat} {ks : List (List UInt8)} {key : List UInt8}

theorem keyLen_pos (key : List UInt8) : 0 < s.keyLen key := by
  unfold keyLen
  split
  · exact Nat.succ_pos _
  · omega

theorem keyLen_head {key' : List UInt8} (h : key'.head? = key.head?) : s.keyLen key' = s.keyLen key := by
  unfold keyLen
  rw [List.headD_eq_head?_getD, List.headD_eq_head?_getD, h]

theorem keyLen_append {k : List UInt8} (hk : k ≠ []) (rest : List UInt8) : s.keyLen (k ++ rest) = s.keyLen k :=
  keyLen_head (List.head?_append_of_ne_nil _ hk)

theorem isKey_take (h : s.keyLen key ≤ key.length) : s.IsKey (key.take (s.keyLen key)) := by
  have hpos := s.keyLen_pos key
  have hlen : (key.take (s.keyLen key)).length = s.keyLen key := by rw [List.length_take, Nat.min_eq_left h]
  refine ⟨List.ne_nil_of_length_pos (by omega), ?_⟩
  rw [hlen]
  exact keyLen_head (List.head?_take.trans (if_neg (by omega)))

theorem insertAll_append (k : List UInt8) : ∀ (ks : List (List UInt8)) (s : CFileBackedKeySet) (start : Nat),
    s.insertAll start (ks ++ [k]) = (s.insertAll start ks).insertToSet k (start + ks.flatten.length)
  | [], _, _ => rfl
  | k' :: ks, s, start => by
    rw [List.cons_append, insertAll, insertAll_append k ks, insertAll, List.flatten_cons, List.length_append, Nat.add_assoc]

theorem mem_insertAll {h offset : Nat} : ∀ {ks : List (List UInt8)} {s : CFileBackedKeySet} {start : Nat},
    offset ∈ (s.insertAll start ks).buckets h ↔
      offset ∈ s.buckets h ∨ ∃ pre k post, ks = pre ++ k :: post ∧ offset = start + pre.flatten.length ∧ bucket k = h
  | [], s, start => by
    refine ⟨.inl, fun hor => hor.resolve_right ?_⟩
    rintro ⟨pre, k, post, he, -⟩
    exact absurd he.symm (List.append_ne_nil_of_right_ne_nil _ (List.cons_ne_nil _ _))
  | k :: ks, s, start => by
    rw [insertAll, mem_insertAll]
    have hone : offset ∈ (s.insertToSet k start).buckets h ↔ offset ∈ s.buckets h ∨ offset = start ∧ bucket k = h := by
      unfold insertToSet
      dsimp only
      by_cases hb : bucket k = h
      · rw [hb, Function.update_self, List.mem_cons]
        exact ⟨fun hor => hor.symm.imp_right (⟨·, rfl⟩), fun hor => (hor.imp_right (·.1)).symm⟩
      · rw [Function.update_of_ne (Ne.symm hb)]
        exact ⟨.inl, fun hor => hor.resolve_right (fun hand => hb hand.2)⟩
    rw [hone, or_assoc]
    refine or_congr_right ⟨?_, ?_⟩
    · rintro (⟨rfl, hb⟩ | ⟨pre, k', post, rfl, rfl, hb⟩)
      · exact ⟨[], k, ks, rfl, rfl, hb⟩
      · refine ⟨k :: pre, k', post, rfl, ?_, hb⟩
        rw [List.flatten_cons, List.length_append, Nat.add_assoc]
    · rintro ⟨pre, k', post, he, rfl, hb⟩
      cases pre with
      | nil =>
        obtain ⟨rfl, rfl⟩ := List.cons.inj he
        exact .inl ⟨rfl, hb⟩
      | cons p pre =>
        obtain ⟨rfl, rfl⟩ := List.cons.inj he
        refine .inr ⟨pre, k', post, rfl, ?_, hb⟩
        rw [List.flatten_cons, List.length_append, Nat.add_assoc]

theorem Holds.contains_iff (h : s.Holds f ks) (hkey : s.keyLen key ≤ key.length) :
    s.contains f key = true ↔ key.take (s.keyLen key) ∈ ks := by
  have hmem : ∀ {offset b : Nat}, offset ∈ s.buckets b ↔ ∃ pre k post, ks = pre ++ k :: post ∧
      offset = KeyFile.metaInfoSize + pre.flatten.length ∧ bucket k = b := by
    intro offset b
    have hm := @mem_insertAll b offset ks { keySize := s.keySize } KeyFile.metaInfoSize
    rw [← h.index] at hm
    exact hm.trans (or_iff_right List.not_mem_nil)
  have hat : ∀ {pre post : List (List UInt8)} {k : List UInt8} (n : Nat), ks = pre ++ k :: post →
      f.memory (KeyFile.metaInfoSize + pre.flatten.length) n = (k ++ post.flatten).take n := by
    rintro pre post k n rfl
    unfold KeyFile.memory
    rw [Nat.add_sub_cancel_left, h.records, List.flatten_append, List.drop_left, List.flatten_cons]
  unfold contains
  rw [List.any_eq_true]
  constructor
  · rintro ⟨offset, hoff, heq⟩
    obtain ⟨pre, k, post, hks, rfl, -⟩ := hmem.mp hoff
    have hk := h.keys k (hks ▸ List.mem_append_right _ List.mem_cons_self)
    have heq' := of_decide_eq_true heq
    rw [hat _ hks] at heq'
    -- the first bytes are the same, so are the lengths
    have hpos := s.keyLen_pos key
    have hhead : (k ++ post.flatten).head? = key.head? := by
      have he := congrArg List.head? heq'
      rwa [List.head?_take, List.head?_take, if_neg (by omega), if_neg (by omega)] at he
    have hlen : s.keyLen key = k.length := by
      rw [← hk.2, ← keyLen_append hk.1 post.flatten]
      exact (keyLen_head hhead).symm
    rw [← heq', hlen, List.take_left' rfl, hks]
    exact List.mem_append_right _ List.mem_cons_self
  · intro hin
    obtain ⟨pre, post, hks⟩ := List.append_of_mem hin
    refine ⟨_, hmem.mpr ⟨pre, _, post, hks, rfl, rfl⟩, decide_eq_true ?_⟩
    rw [hat _ hks]
    exact List.take_left' (by rw [List.length_take, Nat.min_eq_left hkey])

theorem Holds.insert (h : s.Holds f ks) (hkey : s.keyLen key ≤ key.length) :
    (s.insert f key).1.Holds (s.insert f key).2
      (if key.take (s.keyLen key) ∈ ks then ks else ks ++ [key.take (s.keyLen key)]) := by
  have hc := h.contains_iff hkey
  unfold CFileBackedKeySet.insert
  by_cases hin : key.take (s.keyLen key) ∈ ks
  · rw [if_pos (hc.mpr hin), if_pos hin]
    exact h
  · rw [if_neg (fun ht => hin (hc.mp ht)), if_neg hin]
    refine ⟨fun k hk => ?_, ?_, ?_⟩
    · rcases List.mem_append.mp hk with hk | hk
      · exact h.keys k hk
      · rw [List.mem_singleton.mp hk]
        exact isKey_take hkey
    · show f.records ++ _ = _
      rw [List.flatten_append, List.flatten_singleton, h.records]
    · show s.insertToSet _ f.writePos = insertAll { keySize := s.keySize } _ _
      rw [insertAll_append, ← h.index, KeyFile.writePos, h.records]

theorem loadLoop_records : ∀ {ks : List (List UInt8)} {s : CFileBackedKeySet} {pre : List UInt8} {n : Nat},
    (∀ k ∈ ks, s.IsKey k) → f.records = pre ++ ks.flatten → ks.flatten.length ≤ n →
      loadLoop f n (KeyFile.metaInfoSize + pre.length) s = s.insertAll (KeyFile.metaInfoSize + pre.length) ks
  | [], s, pre, n, _, hr, _ => by
    have hend : ¬ KeyFile.metaInfoSize + pre.length < f.writePos := by
      unfold KeyFile.writePos
      rw [hr, List.flatten_nil, List.append_nil]
      exact Nat.lt_irrefl _
    cases n with
    | zero => rfl
    | succ n =>
      rw [loadLoop, if_neg hend]
      rfl
  | k :: ks, s, pre, n, hk, hr, hn => by
    obtain ⟨hne, hlen⟩ := hk k List.mem_cons_self
    have hpos := List.length_pos_iff.mpr hne
    rw [List.flatten_cons, List.length_append] at hn
    obtain ⟨n, rfl⟩ : ∃ m, n = m + 1 := ⟨n - 1, by omega⟩
    have hwrite : f.writePos = KeyFile.metaInfoSize + pre.length + (k.length + ks.flatten.length) := by
      unfold KeyFile.writePos
      rw [hr, List.length_append, List.flatten_cons, List.length_append, Nat.add_assoc]
    have hmem : ∀ m, f.memory (KeyFile.metaInfoSize + pre.length) m = (k ++ ks.flatten).take m := by
      intro m
      unfold KeyFile.memory
      rw [Nat.add_sub_cancel_left, hr, List.drop_left, List.flatten_cons]
    rw [loadLoop, if_pos (by omega), hwrite, Nat.add_sub_cancel_left, hmem, ← List.length_append, List.take_length]
    dsimp only
    rw [keyLen_append hne, hlen, hmem, List.take_left' rfl, insertAll, Nat.add_assoc, ← List.length_append]
    refine loadLoop_records (fun k' hk' => hk k' (List.mem_cons_of_mem _ hk')) ?_ (by omega)
    rw [hr, List.flatten_cons, List.append_assoc]

theorem Holds.load (h : s.Holds f ks) : CFileBackedKeySet.load f s.keySize = s := by
  have hr : f.records = [] ++ ks.flatten := by rw [h.records, List.nil_append]
  have hn : ks.flatten.length ≤ f.records.length := Nat.le_of_eq (by rw [h.records])
  have hl := @loadLoop_records f ks { keySize := s.keySize } [] f.records.length h.keys hr hn
  exact hl.trans h.index.symm

theorem holds_nil (keySize size : Nat) : Holds { keySize } { size } [] :=
  ⟨fun _ hk => absurd hk List.not_mem_nil, rfl, rfl⟩

end CFileBackedKeySet

end Dtc
