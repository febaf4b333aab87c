import DtcServer.DbRoute
import DtcServer.Machine
/-!
# KeyGuard — the keys that were written lately, and the reads that may go to a slave (`CKeyGuard`)

A key is remembered when its write is answered; a read asks whether its key is remembered.
-/
namespace Dtc

structure KeySlot where
  timestamp : UInt32 := 0
  data : List UInt8 := []
  deriving DecidableEq, Repr

/-- `CKeyGuard`: the slots by their numbers, `size` of them, in chains by the hash and in one list. -/
structure CKeyGuard where
  keySize : Nat
  timeout : UInt32
  slot : Nat → KeySlot := fun _ => {}
  size : Nat := 0
  hashList : Nat → List Nat := fun _ => []
  lru : List Nat := []

namespace CKeyGuard

def hashBase : Nat := 65536

def bucket (barHash : UInt64) : Nat := barHash.toNat % hashBase

/-- `memcmp(a, b, ks) == 0` -/
def keycmpN (a b : List UInt8) (ks : Nat) : Bool := a.take ks == b.take ks

/-- The comparison of two keys.  Every case of the switch in the constructor goes on to the next one, so that for all sizes the
last assignment stays, which is `keycmp_n`. -/
def keycmp (g : CKeyGuard) (a b : List UInt8) : Bool := keycmpN a b g.keySize

/-- The first slot of the chain that the key compares equal to. -/
def find (g : CKeyGuard) (barHash : UInt64) (ptrKey : List UInt8) : Option Nat :=
  (g.hashList (bucket barHash)).find? (fun k => g.keycmp ptrKey (g.slot k).data)

def addKey (g : CKeyGuard) (barHash : UInt64) (ptrKey : List UInt8) (now : UInt32) : CKeyGuard :=
  match g.find barHash ptrKey with
  | some k =>
    { g with
      slot := Function.update g.slot k { g.slot k with timestamp := now }
      lru := g.lru.erase k ++ [k] }
  | none =>
    { g with
      slot := Function.update g.slot g.size ⟨now, ptrKey.take (packedKeySize g.keySize ptrKey)⟩
      size := g.size + 1
      hashList := Function.update g.hashList (bucket barHash) (g.size :: g.hashList (bucket barHash))
      lru := g.size :: g.lru }

def inSet (g : CKeyGuard) (barHash : UInt64) (ptrKey : List UInt8) : Bool := (g.find barHash ptrKey).isSome

def Holds (g : CKeyGuard) (k : Nat) : Prop := ∃ h, k ∈ g.hashList h

end CKeyGuard

/-! ## The dispatcher -/

/-- What of `CGroupCollect` the guard needs, with the clock, and the writes that were answered. -/
structure GuardedCollect (tdef : TableDef) where
  guard : CKeyGuard
  now : Nat
  writes : List (PackedKey tdef.keyFormat × Nat) := []

/-- The clock shows another time, a write of a key is answered, or a read is dispatched. -/
inductive GuardAction (tdef : TableDef) where
  | clock (now : Nat)
  | replyNotify (key : PackedKey tdef.keyFormat) (resultCode : Int)
  | read (key : PackedKey tdef.keyFormat)

namespace GuardedCollect

variable {tdef : TableDef}

def barrierKey (key : PackedKey tdef.keyFormat) : UInt64 := TaskPackedKey.calculateBarrierKey tdef key.bytes

def replyNotify (s : GuardedCollect tdef) (key : PackedKey tdef.keyFormat) (resultCode : Int) : GuardedCollect tdef :=
  if 0 ≤ resultCode then
    { s with
      guard := s.guard.addKey (barrierKey key) key.bytes (UInt32.ofNat s.now)
      writes := s.writes ++ [(key, s.now)] }
  else s

def step (s : GuardedCollect tdef) : GuardAction tdef → Option (GuardedCollect tdef)
  | .clock now => some { s with now }
  | .replyNotify key resultCode => some (s.replyNotify key resultCode)
  | .read _ => some s

/-- The dispatcher of a table with `SlaveGuardTime`. -/
def machine (tdef : TableDef) (timeout : UInt32) : Machine (GuardedCollect tdef) (GuardAction tdef) where
  start s := s.guard = { keySize := tdef.keyFormat, timeout } ∧ s.writes = []
  step := step

/-- The read of a key as `SelectGroup` sees it. -/
def readTask (s : GuardedCollect tdef) (key : PackedKey tdef.keyFormat) (value : KeyValue) : RouteTask where
  key := value
  type := .read
  isGet := true
  inGuard := s.guard.inSet (barrierKey key) key.bytes
  barrierKey := barrierKey key

/-- The key was written within the last `timeout` seconds. -/
def Recent (s : GuardedCollect tdef) (key : PackedKey tdef.keyFormat) : Prop :=
  ∃ t, (key, t) ∈ s.writes ∧ s.now ≤ t + s.guard.timeout.toNat

/-- **The guard is right about a key**: it is in the set if it was written lately, and its read goes to the slave of a machine
if not. -/
def Guards (s : GuardedCollect tdef) (key : PackedKey tdef.keyFormat) : Prop :=
  (s.guard.inSet (barrierKey key) key.bytes = true ↔ s.Recent key) ∧
    ∀ (m : MachineConfig) (machine : Nat) (value : KeyValue), m.mode = .slave → m.gprocs 3 ≠ 0 →
      (pickGroup m machine (s.readTask key value) = .group machine 3 ↔ ¬ s.Recent key)

/-- **Memory is held only for keys that were written lately.** -/
def Frugal (s : GuardedCollect tdef) : Prop :=
  ∀ k, s.guard.Holds k → ∃ key, s.Recent key ∧ (s.guard.slot k).data = key.bytes

/-! ## Keys that share a slot -/

def SharesSlot (key key' : PackedKey tdef.keyFormat) : Prop :=
  CKeyGuard.bucket (barrierKey key) = CKeyGuard.bucket (barrierKey key') ∧
    CKeyGuard.keycmpN key.bytes key'.bytes tdef.keyFormat = true

instance (key key' : PackedKey tdef.keyFormat) : Decidable (SharesSlot key key') := inferInstanceAs (Decidable (_ ∧ _))

theorem packedKey_ext {n : Nat} {key key' : PackedKey n} (h : key.bytes = key'.bytes) : key = key' := by
  cases key
  cases key'
  cases h
  rfl

theorem SharesSlot.refl (key : PackedKey tdef.keyFormat) : SharesSlot key key := ⟨rfl, by simp [CKeyGuard.keycmpN]⟩

theorem SharesSlot.trans {key key' key'' : PackedKey tdef.keyFormat} (h : SharesSlot key key') (h' : SharesSlot key' key'') :
    SharesSlot key key'' := by
  refine ⟨h.1.trans h'.1, ?_⟩
  exact beq_iff_eq.mpr ((beq_iff_eq.mp h.2).trans (beq_iff_eq.mp h'.2))

/-- The keys that get a slot of their own: those that share none with an earlier one. -/
def keep (kept : List (PackedKey tdef.keyFormat)) (key : PackedKey tdef.keyFormat) : List (PackedKey tdef.keyFormat) :=
  if kept.any (fun key' => decide (SharesSlot key key')) then kept else kept ++ [key]

def kept (s : GuardedCollect tdef) : List (PackedKey tdef.keyFormat) := (s.writes.map Prod.fst).foldl keep []

theorem subset_keep (kept : List (PackedKey tdef.keyFormat)) (key : PackedKey tdef.keyFormat) : kept ⊆ keep kept key := by
  unfold keep
  split
  · exact List.Subset.refl _
  · exact List.subset_append_left _ _

theorem keep_shares (kept : List (PackedKey tdef.keyFormat)) (key : PackedKey tdef.keyFormat) :
    ∃ key' ∈ keep kept key, SharesSlot key key' := by
  unfold keep
  split
  · next h => simpa using h
  · exact ⟨key, by simp, .refl key⟩

theorem mem_keep {kept : List (PackedKey tdef.keyFormat)} {key key' : PackedKey tdef.keyFormat} (h : key' ∈ keep kept key) :
    key' ∈ kept ∨ key' = key := by
  unfold keep at h
  split at h
  · exact .inl h
  · simpa using h

theorem foldl_keep : ∀ (keys kept : List (PackedKey tdef.keyFormat)),
    kept ⊆ keys.foldl keep kept ∧ (∀ key ∈ keys, ∃ key' ∈ keys.foldl keep kept, SharesSlot key key') ∧
      ∀ key ∈ keys.foldl keep kept, key ∈ kept ∨ key ∈ keys
  | [], kept => ⟨List.Subset.refl _, by simp, fun key h => .inl h⟩
  | key :: keys, kept => by
    obtain ⟨hsub, hshares, hmem⟩ := foldl_keep keys (keep kept key)
    refine ⟨fun key' h => hsub (subset_keep kept key h), ?_, fun key' h => ?_⟩
    · intro key' h
      rcases List.mem_cons.mp h with rfl | h
      · obtain ⟨key'', hkept, hs⟩ := keep_shares kept key'
        exact ⟨key'', hsub hkept, hs⟩
      · exact hshares key' h
    · rcases hmem key' h with h | h
      · rcases mem_keep h with h | rfl
        · exact .inl h
        · exact .inr (by simp)
      · exact .inr (by simp [h])

theorem kept_shares {s : GuardedCollect tdef} {key : PackedKey tdef.keyFormat} :
    (∃ key' ∈ s.kept, SharesSlot key key') ↔ ∃ w ∈ s.writes, SharesSlot key w.1 := by
  obtain ⟨-, hshares, hmem⟩ := foldl_keep (s.writes.map Prod.fst) []
  constructor
  · rintro ⟨key', hkept, h⟩
    rcases hmem key' hkept with h' | h'
    · cases h'
    · obtain ⟨w, hw, rfl⟩ := List.mem_map.mp h'
      exact ⟨w, hw, h⟩
  · rintro ⟨w, hw, h⟩
    obtain ⟨key', hkept, h'⟩ := hshares w.1 (List.mem_map_of_mem hw)
    exact ⟨key', hkept, h.trans h'⟩

/-! ## The slots along a run -/

/-- **The invariant**: there is a slot for every kept key, in its chain, and no other. -/
structure SlotsOk (s : GuardedCollect tdef) (timeout : UInt32) : Prop where
  keySize : s.guard.keySize = tdef.keyFormat
  timeout : s.guard.timeout = timeout
  fresh : ∀ h, ∀ k ∈ s.guard.hashList h, k < s.guard.size
  data : ∀ h, ∀ k ∈ s.guard.hashList h,
    ∃ key ∈ s.kept, CKeyGuard.bucket (barrierKey key) = h ∧ (s.guard.slot k).data = key.bytes
  all : ∀ key ∈ s.kept, ∃ k ∈ s.guard.hashList (CKeyGuard.bucket (barrierKey key)), (s.guard.slot k).data = key.bytes

variable {s : GuardedCollect tdef} {timeout : UInt32}

theorem SlotsOk.find_isSome (H : s.SlotsOk timeout) (key : PackedKey tdef.keyFormat) :
    (s.guard.find (barrierKey key) key.bytes).isSome = true ↔ ∃ key' ∈ s.kept, SharesSlot key key' := by
  rw [CKeyGuard.find, List.find?_isSome]
  constructor
  · rintro ⟨k, hk, hcmp⟩
    obtain ⟨key', hkept, hbucket, hdata⟩ := H.data _ k hk
    rw [CKeyGuard.keycmp, H.keySize, hdata] at hcmp
    exact ⟨key', hkept, hbucket.symm, hcmp⟩
  · rintro ⟨key', hkept, hbucket, hcmp⟩
    obtain ⟨k, hk, hdata⟩ := H.all key' hkept
    refine ⟨k, by rwa [hbucket], ?_⟩
    rwa [CKeyGuard.keycmp, H.keySize, hdata]

theorem SlotsOk.inSet (H : s.SlotsOk timeout) (key : PackedKey tdef.keyFormat) :
    s.guard.inSet (barrierKey key) key.bytes = true ↔ ∃ w ∈ s.writes, SharesSlot key w.1 := by
  rw [CKeyGuard.inSet, H.find_isSome, kept_shares]

theorem SlotsOk.replyNotify (H : s.SlotsOk timeout) (key : PackedKey tdef.keyFormat) (resultCode : Int) :
    (s.replyNotify key resultCode).SlotsOk timeout := by
  unfold GuardedCollect.replyNotify
  split
  case isFalse => exact H
  have hkept : ∀ guard, kept (⟨guard, s.now, s.writes ++ [(key, s.now)]⟩ : GuardedCollect tdef) = keep s.kept key := by
    intro guard
    simp [kept]
  have hfind := H.find_isSome key
  cases hslot : s.guard.find (barrierKey key) key.bytes with
  | some k =>
    have hold : keep s.kept key = s.kept := by
      rw [hslot] at hfind
      rw [keep, if_pos (by simpa using hfind.mp rfl)]
    have hdata : ∀ j, ((s.guard.addKey (barrierKey key) key.bytes (UInt32.ofNat s.now)).slot j).data = (s.guard.slot j).data := by
      intro j
      simp only [CKeyGuard.addKey, hslot]
      by_cases hj : j = k
      · simp [hj]
      · simp [hj]
    have hlists : (s.guard.addKey (barrierKey key) key.bytes (UInt32.ofNat s.now)).hashList = s.guard.hashList := by
      simp [CKeyGuard.addKey, hslot]
    refine ⟨?_, ?_, ?_, ?_, ?_⟩
    · simpa [CKeyGuard.addKey, hslot] using H.keySize
    · simpa [CKeyGuard.addKey, hslot] using H.timeout
    · simpa [CKeyGuard.addKey, hslot] using H.fresh
    · intro h j hj
      rw [hkept, hold, hdata]
      exact H.data h j (hlists ▸ hj)
    · intro key' hkey'
      rw [hkept, hold] at hkey'
      rw [hlists]
      obtain ⟨j, hj, hjdata⟩ := H.all key' hkey'
      exact ⟨j, hj, by rw [hdata, hjdata]⟩
  | none =>
    have hnew : keep s.kept key = s.kept ++ [key] := by
      rw [hslot] at hfind
      refine if_neg fun hany => ?_
      have hshares : ∃ key' ∈ s.kept, SharesSlot key key' := by simpa using hany
      cases hfind.mpr hshares
    have hbytes : key.bytes.take (packedKeySize s.guard.keySize key.bytes) = key.bytes := by
      rw [H.keySize, ← key.size, List.take_length]
    have hslots : (s.guard.addKey (barrierKey key) key.bytes (UInt32.ofNat s.now)).slot =
        Function.update s.guard.slot s.guard.size ⟨UInt32.ofNat s.now, key.bytes⟩ := by
      simp [CKeyGuard.addKey, hslot, hbytes]
    have hlists : (s.guard.addKey (barrierKey key) key.bytes (UInt32.ofNat s.now)).hashList =
        Function.update s.guard.hashList (CKeyGuard.bucket (barrierKey key))
          (s.guard.size :: s.guard.hashList (CKeyGuard.bucket (barrierKey key))) := by
      simp [CKeyGuard.addKey, hslot]
    have hmem : ∀ h k, k ∈ (s.guard.addKey (barrierKey key) key.bytes (UInt32.ofNat s.now)).hashList h ↔
        k ∈ s.guard.hashList h ∨ h = CKeyGuard.bucket (barrierKey key) ∧ k = s.guard.size := by
      intro h k
      rw [hlists]
      by_cases hh : h = CKeyGuard.bucket (barrierKey key)
      · subst hh
        simp [or_comm]
      · simp [hh]
    refine ⟨?_, ?_, ?_, ?_, ?_⟩
    · simpa [CKeyGuard.addKey, hslot] using H.keySize
    · simpa [CKeyGuard.addKey, hslot] using H.timeout
    · intro h k hk
      have hsize : (s.guard.addKey (barrierKey key) key.bytes (UInt32.ofNat s.now)).size = s.guard.size + 1 := by
        simp [CKeyGuard.addKey, hslot]
      rw [hsize]
      rcases (hmem h k).mp hk with hk | ⟨-, rfl⟩
      · exact Nat.lt_succ_of_lt (H.fresh h k hk)
      · exact Nat.lt_succ_self _
    · intro h k hk
      rw [hkept, hnew, hslots]
      rcases (hmem h k).mp hk with hk | ⟨rfl, rfl⟩
      · obtain ⟨key', hkey', hbucket, hdata⟩ := H.data h k hk
        refine ⟨key', List.mem_append_left _ hkey', hbucket, ?_⟩
        rw [Function.update_of_ne (Nat.ne_of_lt (H.fresh h k hk)), hdata]
      · exact ⟨key, by simp, rfl, by simp⟩
    · intro key' hkey'
      rw [hkept, hnew] at hkey'
      rw [hslots]
      rcases List.mem_append.mp hkey' with hkey' | hkey'
      · obtain ⟨k, hk, hdata⟩ := H.all key' hkey'
        refine ⟨k, (hmem _ k).mpr (.inl hk), ?_⟩
        rw [Function.update_of_ne (Nat.ne_of_lt (H.fresh _ k hk)), hdata]
      · obtain rfl := List.mem_singleton.mp hkey'
        exact ⟨s.guard.size, (hmem _ _).mpr (.inr ⟨rfl, rfl⟩), by simp⟩

theorem SlotsOk.step (H : s.SlotsOk timeout) {a : GuardAction tdef} {s' : GuardedCollect tdef} (h : s.step a = some s') :
    s'.SlotsOk timeout := by
  cases a with
  | clock now =>
    obtain rfl := Option.some.inj h
    exact ⟨H.keySize, H.timeout, H.fresh, H.data, H.all⟩
  | replyNotify key resultCode =>
    obtain rfl := Option.some.inj h
    exact H.replyNotify key resultCode
  | read key =>
    obtain rfl := Option.some.inj h
    exact H

theorem slotsOk_of_reachable (h : (machine tdef timeout).Reachable s) : s.SlotsOk timeout := by
  refine @Machine.reachable_induct _ _ (machine tdef timeout) (fun s => s.SlotsOk timeout) ?_
    (fun s a s' H h => SlotsOk.step H h) _ h
  rintro s ⟨hguard, hwrites⟩
  constructor <;> simp [hguard, kept, hwrites]

/-! ## When the guard is right -/

theorem Recent.shares {key : PackedKey tdef.keyFormat} (h : s.Recent key) : ∃ w ∈ s.writes, SharesSlot key w.1 := by
  obtain ⟨t, hwrite, -⟩ := h
  exact ⟨(key, t), hwrite, .refl key⟩

theorem pickGroup_readTask {m : MachineConfig} (hmode : m.mode = .slave) (hslave : m.gprocs 3 ≠ 0) (s : GuardedCollect tdef)
    (machine : Nat) (key : PackedKey tdef.keyFormat) (value : KeyValue) :
    pickGroup m machine (s.readTask key value) = .group machine 3 ↔
      ¬ s.guard.inSet (barrierKey key) key.bytes = true := by
  unfold pickGroup readTask
  cases s.guard.inSet (barrierKey key) key.bytes with
  | false => simp [hmode, hslave]
  | true =>
    simp only [Bool.true_eq_false, and_false, if_false, not_true_eq_false, iff_false]
    unfold TaskType.code lastGroup
    split_ifs <;> simp [lastGroup]

/-- **When the guard is right.**  About a key: if the key was written lately, or no key that shares its slot was ever written.
About the memory: if every key with a slot was written lately.  Nothing is ever forgotten. -/
theorem machine_guards (h : (machine tdef timeout).Reachable s) :
    (∀ key, s.Guards key ↔ s.Recent key ∨ ∀ w ∈ s.writes, ¬ SharesSlot key w.1) ∧
      (s.Frugal ↔ ∀ key ∈ s.kept, s.Recent key) := by
  have H := slotsOk_of_reachable h
  constructor
  · intro key
    have hset : s.Guards key ↔ (s.guard.inSet (barrierKey key) key.bytes = true ↔ s.Recent key) := by
      refine ⟨And.left, fun hset => ⟨hset, fun m machine value hmode hslave => ?_⟩⟩
      rw [pickGroup_readTask hmode hslave, hset]
    rw [hset, H.inSet]
    constructor
    · intro hiff
      by_cases hrecent : s.Recent key
      · exact .inl hrecent
      · exact .inr fun w hw hshares => hrecent (hiff.mp ⟨w, hw, hshares⟩)
    · rintro (hrecent | hnone)
      · exact ⟨fun _ => hrecent, fun _ => hrecent.shares⟩
      · exact ⟨fun ⟨w, hw, hshares⟩ => absurd hshares (hnone w hw), Recent.shares⟩
  · constructor
    · intro hfrugal key hkey
      obtain ⟨k, hk, hdata⟩ := H.all key hkey
      obtain ⟨key', hrecent, hdata'⟩ := hfrugal k ⟨_, hk⟩
      rwa [packedKey_ext (hdata.symm.trans hdata')]
    · rintro hrecent k ⟨h, hk⟩
      obtain ⟨key, hkey, -, hdata⟩ := H.data h k hk
      exact ⟨key, hrecent key hkey, hdata⟩

/-- A table with one key: an unsigned integer of four bytes (format 4), or a text (format 0). -/
def oneKey (keyFormat : Nat) : TableDef where
  fieldList := [{ fieldName := [107]
                  fieldType := if keyFormat = 0 then .string else .unsigned
                  fieldSize := if keyFormat = 0 then 16 else 4 }]
  keyFields := 1
  keyFormat := keyFormat

def fresh (tdef : TableDef) (timeout : UInt32) : GuardedCollect tdef where
  guard := { keySize := tdef.keyFormat, timeout }
  now := 0

/-- The integer key 7, and the texts `p` and `pc`, which are in one chain. -/
def keySeven : PackedKey (oneKey 4).keyFormat := ⟨[7, 0, 0, 0], by decide⟩

def textP : PackedKey (oneKey 0).keyFormat := ⟨[1, 112], by decide⟩

def textPc : PackedKey (oneKey 0).keyFormat := ⟨[2, 112, 99], by decide⟩

theorem machine_guards_seven : ∃ s, (machine (oneKey 4) 15).run (fresh (oneKey 4) 15) [.clock 50, .replyNotify keySeven 0] = some s ∧
    s.Guards keySeven ∧ s.Frugal := by
  refine ⟨_, rfl, ?_⟩
  have hreach : (machine (oneKey 4) 15).Reachable _ := ⟨fresh (oneKey 4) 15, [.clock 50, .replyNotify keySeven 0], ⟨rfl, rfl⟩, rfl⟩
  obtain ⟨hguards, hfrugal⟩ := machine_guards hreach
  refine ⟨(hguards keySeven).mpr (.inl ⟨50, ?_, ?_⟩), hfrugal.mpr ?_⟩
  · exact List.mem_singleton.mpr rfl
  · decide
  · intro key hkey
    obtain rfl : key = keySeven := List.mem_singleton.mp hkey
    exact ⟨50, List.mem_singleton.mpr rfl, by decide⟩

/-- **Two failures**: the key 7 is written at the time 0 and is still in the set at the time 100; the text `pc` was never
written and is in the set after a write of `p`. -/
theorem machine_neverForgets :
    (∃ s, (machine (oneKey 4) 15).run (fresh (oneKey 4) 15) [.replyNotify keySeven 0, .clock 100] = some s ∧
      s.guard.inSet (barrierKey keySeven) keySeven.bytes = true ∧ ¬ s.Recent keySeven) ∧
    ∃ s, (machine (oneKey 0) 15).run (fresh (oneKey 0) 15) [.replyNotify textP 0] = some s ∧
      s.guard.inSet (barrierKey textPc) textPc.bytes = true ∧ ¬ s.Recent textPc := by
  refine ⟨⟨_, rfl, by decide, ?_⟩, ⟨_, rfl, by decide, ?_⟩⟩
  · rintro ⟨t, hwrite, hle⟩
    obtain ⟨-, rfl⟩ := Prod.mk.inj (List.mem_singleton.mp hwrite)
    exact absurd hle (by decide)
  · rintro ⟨t, hwrite, -⟩
    obtain ⟨hkey, -⟩ := Prod.mk.inj (List.mem_singleton.mp hwrite)
    exact absurd (congrArg PackedKey.bytes hkey) (by decide)

end GuardedCollect

end Dtc
