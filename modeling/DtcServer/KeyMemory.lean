import DtcServer.KeyBuilders
/-!
# KeyMemory — the memory of a request's key (`packedKey`, `packedKeyBuf`, `multiKey`)

A request keeps its packed key in a buffer of eight bytes that is part of it, or in a block of its own; a request object is
used again and again, and each builder decides by itself whether the block that is there is released.
-/
namespace Dtc

/-- A pointer to a key: null, `packedKeyBuf`, a block from the allocator, or a key in the list of a batch. -/
inductive KeyPtr where
  | null
  | inline
  | block (b : Nat)
  | list (index : Nat)
  deriving DecidableEq, Repr

/-- The two pointers, the sizes of the blocks that are not released yet, and what went wrong: what was released that is no
such block, and what was written beyond its end. -/
structure KeyMem where
  packedKey : KeyPtr := .null
  multiKey : KeyPtr := .null
  blocks : Nat → Option Nat := fun _ => none
  next : Nat := 0
  badFrees : List KeyPtr := []
  overruns : List KeyPtr := []

/-- `str.len` of a value; an integer has its low half there. -/
def DataValue.strLen : DataValue → Int
  | .bin bytes => bytes.length
  | .word w => (w.setWidth 32).toInt
  | .unset => 0

/-- A length as `memcpy` takes it. -/
def sizeT (n : Int) : Nat := (n % 2 ^ 64).toNat

/-- The check of `StoreValue`. -/
def KeyTask.Storable (t : KeyTask) (v : DataValue) (i : Nat) : Prop :=
  (TaskPackedKey.storeValue [] 0 (TaskPackedKey.keyWord v) (t.tdef.fieldType i) (t.tdef.fieldSize i)).isSome = true

instance (t : KeyTask) (v : DataValue) (i : Nat) : Decidable (t.Storable v i) := by unfold KeyTask.Storable; infer_instance

/-- **The packed key may be replaced where it is**: a builder that releases it does not find the buffer, and takes no integer
for a text of length -1. -/
def KeyTask.Replaceable (t : KeyTask) (packedKey : KeyPtr) : Prop :=
  if t.tdef.keyFormat = 0 then
    (t.key.getD (.bin [])).strLen ≤ t.tdef.fieldSize 0 → packedKey ≠ .inline ∧ (t.key.getD (.bin [])).strLen ≠ -1
  else 8 < t.tdef.keyFormat → packedKey ≠ .inline

/-- **A migration fits**: a key that is kept in the buffer has a length, and a key of the table has room there, too. -/
def KeyTask.MigrationFits (t : KeyTask) : Prop :=
  ∀ condition, t.conditionInfo = some [condition] → condition.val.strLen ≤ 8 →
    0 ≤ condition.val.strLen ∧ t.tdef.keyFormat ≤ 8

/-- Whether the allocator has memory for the packed key, and for the fields of a key. -/
structure Granted where
  packed : Bool
  multi : Bool
  deriving DecidableEq, Repr

/-- **The key of a batch can be packed**: there is memory for it, and its values pass the checks. -/
def KeyTask.Packs (t : KeyTask) (granted : Granted) : Prop :=
  if t.tdef.keyFormat = 0 then
    0 ≤ (t.key.getD (.bin [])).strLen ∧ (t.key.getD (.bin [])).strLen ≤ t.tdef.fieldSize 0 ∧ granted.packed = true
  else
    (8 < t.tdef.keyFormat → granted.packed = true) ∧ (∃ key, t.key = some key ∧ t.Storable key 0) ∧
      ∀ i ∈ List.range' 1 (t.tdef.keyFields - 1), t.Storable (t.multiKey.getD i .unset) i

namespace KeyMem

open TaskPackedKey

variable (m : KeyMem)

/-! ## The allocator -/

def size : KeyPtr → Option Nat
  | .inline => some 8
  | .block b => m.blocks b
  | .null | .list _ => none

/-- `FREE_IF`, which leaves the pointer as it is. -/
def free (p : KeyPtr) : KeyMem :=
  match p with
  | .null => m
  | .block b =>
    if (m.blocks b).isSome then { m with blocks := Function.update m.blocks b none }
    else { m with badFrees := p :: m.badFrees }
  | .inline | .list _ => { m with badFrees := p :: m.badFrees }

/-- `malloc`; there is no block of a negative size. -/
def alloc (granted : Bool) (n : Int) : KeyPtr × KeyMem :=
  if granted = true ∧ 0 ≤ n then
    (.block m.next, { m with blocks := Function.update m.blocks m.next (some n.toNat), next := m.next + 1 })
  else (.null, m)

def newPackedKey (granted : Bool) (n : Int) : KeyMem := { (m.alloc granted n).2 with packedKey := (m.alloc granted n).1 }

def newMultiKey (granted : Bool) (n : Int) : KeyMem := { (m.alloc granted n).2 with multiKey := (m.alloc granted n).1 }

/-- Bytes are written through `packedKey`, up to the offset `stop`. -/
def write (stop : Nat) : KeyMem :=
  if (m.size m.packedKey).any (fun size => stop ≤ size) then m else { m with overruns := m.packedKey :: m.overruns }

/-! ## The builders -/

section Build

variable (t : KeyTask) (granted : Granted)

/-- `BuildSingleStringKey`: whether it succeeds, and what it leaves. -/
def buildSingleStringKey : Bool × KeyMem :=
  let len := (t.key.getD (.bin [])).strLen
  if t.tdef.fieldSize 0 < len then (false, m)
  else
    let m := (m.free m.packedKey).newPackedKey granted.packed (len + 1)
    if m.packedKey = .null then (false, m)
    else
      let m := m.write 1
      if t.tdef.fieldType 0 = .string then (true, m.write (1 + len.toNat))
      else (true, m.write (1 + sizeT len))

def buildSingleIntKey : Bool × KeyMem :=
  let m :=
    if 8 < t.tdef.keyFormat then (m.free m.packedKey).newPackedKey granted.packed t.tdef.keyFormat
    else { m with packedKey := .inline : KeyMem }.write t.tdef.keyFormat
  if m.packedKey = .null then (false, m)
  else
    match t.key with
    | some key => if t.Storable key 0 then (true, m.write (t.tdef.fieldSize 0)) else (false, m)
    | none => (decide (t.tdef.hasAutoInc = 0 ∧ t.requestCode = .insert), m)

/-- `BuildMultiKeyValues`: the fields, when it succeeds; a `CValue` has 16 bytes. -/
def buildMultiKeyValues : Option (List DataValue) × KeyMem :=
  let m := (m.free m.multiKey).newMultiKey granted.multi (16 * t.tdef.keyFields)
  if m.multiKey = .null then (none, m)
  else
    match t.buildMultiKeyValues with
    | .error _ => (none, m)
    | .ok multiKey => (some multiKey, m)

/-- The fields of a key are stored, until one is out of range. -/
def storeFields (multiKey : List DataValue) : List Nat → KeyMem → Bool × KeyMem
  | [], m => (true, m)
  | i :: is, m =>
    if t.Storable (multiKey.getD i .unset) i then
      storeFields multiKey is (m.write (t.tdef.fieldOffset i + t.tdef.fieldSize i))
    else (false, m)

def buildMultiIntKey : Bool × KeyMem :=
  match m.buildSingleIntKey t granted with
  | (false, m) => (false, m)
  | (true, m) =>
    match if t.flagMultiKeyVal then (some t.multiKey, m) else m.buildMultiKeyValues t granted with
    | (none, m) => (false, m)
    | (some multiKey, m) => storeFields t multiKey (List.range' 1 (t.tdef.keyFields - 1)) m

def buildPackedKey : Bool × KeyMem :=
  if t.tdef.keyFormat = 0 then m.buildSingleStringKey t granted
  else if t.tdef.keyFields = 1 then m.buildSingleIntKey t granted
  else m.buildMultiIntKey t granted

/-- The branch of `PrepareProcess` for a migration: the key comes packed, as the one value of the condition. -/
def migrate : Bool × KeyMem :=
  match t.conditionInfo with
  | some [condition] =>
    let len := condition.val.strLen
    if 8 < len then
      let m :=
        if m.packedKey ≠ .inline ∧ m.packedKey ≠ .null then { m.free m.packedKey with packedKey := .null } else m
      let m := m.newPackedKey granted.packed len
      if m.packedKey = .null then (false, m) else (true, m.write (sizeT len))
    else
      let m := { m with packedKey := .inline : KeyMem }.write t.tdef.keyFormat
      (true, m.write (sizeT len))
  | _ => (false, m)

end Build

def freePackedKey : KeyMem :=
  let m := if m.packedKey ≠ .null ∧ m.packedKey ≠ .inline then { m.free m.packedKey with packedKey := .null } else m
  m.free m.multiKey

/-! ## What a request owns -/

/-- The packed key is null, the buffer or a block that is not released; so is `multiKey` when it is a block, and it is
another one.  Nothing went wrong. -/
structure Sound (m : KeyMem) : Prop where
  packed : m.packedKey = .null ∨ m.packedKey = .inline ∨ ∃ b, m.packedKey = .block b ∧ (m.blocks b).isSome
  multi : ∀ b, m.multiKey = .block b → (m.blocks b).isSome
  apart : ∀ b, m.packedKey = .block b → m.multiKey ≠ .block b
  fresh : ∀ b, m.next ≤ b → m.blocks b = none
  badFrees : m.badFrees = []
  overruns : m.overruns = []

/-- `multiKey` is null or a block that is not released. -/
def OwnsMulti (m : KeyMem) : Prop := m.multiKey = .null ∨ ∃ b, m.multiKey = .block b ∧ (m.blocks b).isSome

section Sound

theorem newPackedKey_setPackedKey (m : KeyMem) (p : KeyPtr) (granted : Bool) (n : Int) :
    { m with packedKey := p : KeyMem }.newPackedKey granted n = m.newPackedKey granted n := by
  unfold newPackedKey alloc
  split <;> rfl

variable {m : KeyMem}

theorem write_of_size {size stop : Nat} (hsize : m.size m.packedKey = some size) (h : stop ≤ size) : m.write stop = m := by
  rw [write, hsize]
  exact if_pos (decide_eq_true h)

/-- A block is released, and another one allocated: the others stay what they are. -/
structure Reallocated (m m' : KeyMem) (p q : KeyPtr) (granted : Bool) (n : Int) : Prop where
  packedKey : m'.packedKey = m.packedKey
  multiKey : m'.multiKey = m.multiKey
  badFrees : m'.badFrees = m.badFrees
  overruns : m'.overruns = m.overruns
  fresh : ∀ b, m'.next ≤ b → m'.blocks b = none
  kept : ∀ b, p ≠ .block b → (m.blocks b).isSome → m'.blocks b = m.blocks b ∧ q ≠ .block b
  new : q = .null ∧ ¬ (granted = true ∧ 0 ≤ n) ∨
    (granted = true ∧ 0 ≤ n) ∧ ∃ b, q = .block b ∧ m'.blocks b = some n.toNat

theorem free_spec {p : KeyPtr} (hp : p = .null ∨ ∃ b, p = .block b ∧ (m.blocks b).isSome) :
    (m.free p).packedKey = m.packedKey ∧ (m.free p).multiKey = m.multiKey ∧ (m.free p).badFrees = m.badFrees ∧
      (m.free p).overruns = m.overruns ∧ (m.free p).next = m.next ∧
      (∀ b, m.blocks b = none → (m.free p).blocks b = none) ∧ ∀ b, p ≠ .block b → (m.free p).blocks b = m.blocks b := by
  rcases hp with rfl | ⟨b, rfl, hlive⟩
  · exact ⟨rfl, rfl, rfl, rfl, rfl, fun _ h => h, fun _ _ => rfl⟩
  · rw [free, if_pos hlive]
    refine ⟨rfl, rfl, rfl, rfl, rfl, fun c hc => ?_, fun c hc => ?_⟩
    · by_cases hcb : c = b
      · rw [hcb]
        exact Function.update_self ..
      · exact (Function.update_of_ne hcb ..).trans hc
    · exact Function.update_of_ne (fun hcb => hc (congrArg KeyPtr.block hcb.symm)) ..

theorem reallocated (hfresh : ∀ b, m.next ≤ b → m.blocks b = none) {p : KeyPtr}
    (hp : p = .null ∨ ∃ b, p = .block b ∧ (m.blocks b).isSome) (granted : Bool) (n : Int) :
    Reallocated m ((m.free p).alloc granted n).2 p ((m.free p).alloc granted n).1 granted n := by
  obtain ⟨hpacked, hmulti, hbad, hover, hnext, hnone, hother⟩ := free_spec hp
  generalize m.free p = m' at hpacked hmulti hbad hover hnext hnone hother
  rw [alloc]
  split
  · next hgot =>
    refine ⟨hpacked, hmulti, hbad, hover, fun b hb => ?_, fun b hb hlive => ?_,
      Or.inr ⟨hgot, m'.next, rfl, Function.update_self ..⟩⟩
    · have hb : m'.next + 1 ≤ b := hb
      exact (Function.update_of_ne (by omega) ..).trans (hnone b (hfresh b (by omega)))
    · have hne : b ≠ m'.next := by
        rintro rfl
        rw [hfresh _ (Nat.le_of_eq hnext.symm)] at hlive
        cases hlive
      exact ⟨(Function.update_of_ne hne ..).trans (hother b hb), fun h => hne (KeyPtr.block.inj h).symm⟩
  · next hgot =>
    exact ⟨hpacked, hmulti, hbad, hover, fun b hb => hnone b (hfresh b (hnext ▸ hb)),
      fun b hb _ => ⟨hother b hb, KeyPtr.noConfusion⟩, Or.inl ⟨rfl, hgot⟩⟩

theorem Sound.packed_block (h : m.Sound) (hne : m.packedKey ≠ .inline) :
    m.packedKey = .null ∨ ∃ b, m.packedKey = .block b ∧ (m.blocks b).isSome :=
  h.packed.imp_right fun hp => hp.resolve_left hne

theorem Sound.replacePacked (h : m.Sound) (hne : m.packedKey ≠ .inline) (granted : Bool) (n : Int) :
    ((m.free m.packedKey).newPackedKey granted n).Sound ∧
      ((m.free m.packedKey).newPackedKey granted n).multiKey = m.multiKey ∧
      (((m.free m.packedKey).newPackedKey granted n).packedKey = .null ∧ ¬ (granted = true ∧ 0 ≤ n) ∨
        (granted = true ∧ 0 ≤ n) ∧ ∃ b, ((m.free m.packedKey).newPackedKey granted n).packedKey = .block b ∧
          ((m.free m.packedKey).newPackedKey granted n).blocks b = some n.toNat) := by
  obtain ⟨-, hmulti, hbad, hover, hfresh, hkept, hnew⟩ := reallocated h.fresh (h.packed_block hne) granted n
  unfold newPackedKey
  generalize ((m.free m.packedKey).alloc granted n).2 = m', ((m.free m.packedKey).alloc granted n).1 = q at *
  refine ⟨⟨?_, fun b hb => ?_, fun b hb hmb => ?_, hfresh, hbad.trans h.badFrees, hover.trans h.overruns⟩, hmulti, hnew⟩
  · rcases hnew with ⟨hq, -⟩ | ⟨-, b, hq, hb⟩
    · exact Or.inl hq
    · exact Or.inr (Or.inr ⟨b, hq, by rw [hb]; rfl⟩)
  · have hb : m.multiKey = .block b := hmulti ▸ hb
    have hlive := h.multi b hb
    dsimp only
    rw [(hkept b (fun hp => h.apart b hp hb) hlive).1]
    exact hlive
  · have hmb : m.multiKey = .block b := hmulti ▸ hmb
    exact (hkept b (fun hp => h.apart b hp hmb) (h.multi b hmb)).2 hb

theorem Sound.replaceMulti (h : m.Sound) (howns : m.OwnsMulti) (granted : Bool) (n : Int) :
    ((m.free m.multiKey).newMultiKey granted n).Sound ∧ ((m.free m.multiKey).newMultiKey granted n).OwnsMulti ∧
      ((m.free m.multiKey).newMultiKey granted n).packedKey = m.packedKey ∧
      ((m.free m.multiKey).newMultiKey granted n).size m.packedKey = m.size m.packedKey := by
  obtain ⟨hpacked, -, hbad, hover, hfresh, hkept, hnew⟩ := reallocated h.fresh howns granted n
  unfold newMultiKey
  generalize ((m.free m.multiKey).alloc granted n).2 = m', ((m.free m.multiKey).alloc granted n).1 = q at *
  have hsize : m'.size m.packedKey = m.size m.packedKey := by
    rcases h.packed with hp | hp | ⟨b, hp, hlive⟩
    · rw [hp]
      rfl
    · rw [hp]
      rfl
    · rw [hp]
      exact (hkept b (h.apart b hp) hlive).1
  refine ⟨⟨?_, fun b hb => ?_, fun b hb => ?_, hfresh, hbad.trans h.badFrees, hover.trans h.overruns⟩, ?_, hpacked, hsize⟩
  · refine h.packed.imp hpacked.trans (Or.imp hpacked.trans ?_)
    rintro ⟨b, hp, hlive⟩
    refine ⟨b, hpacked.trans hp, ?_⟩
    dsimp only
    rw [(hkept b (h.apart b hp) hlive).1]
    exact hlive
  · rcases hnew with ⟨hq, -⟩ | ⟨-, c, hq, hc⟩
    · exact KeyPtr.noConfusion (hq.symm.trans hb)
    · obtain rfl := KeyPtr.block.inj (hq.symm.trans hb)
      dsimp only
      rw [hc]
      rfl
  · have hp : m.packedKey = .block b := hpacked ▸ hb
    rcases h.packed with hp' | hp' | ⟨c, hc, hlive⟩
    · exact KeyPtr.noConfusion (hp'.symm.trans hp)
    · exact KeyPtr.noConfusion (hp'.symm.trans hp)
    · obtain rfl := KeyPtr.block.inj (hc.symm.trans hp)
      exact (hkept c (h.apart c hp) hlive).2
  · rcases hnew with ⟨hq, -⟩ | ⟨-, c, hq, hc⟩
    · exact Or.inl hq
    · refine Or.inr ⟨c, hq, ?_⟩
      dsimp only
      rw [hc]
      rfl

theorem Sound.useBuffer (h : m.Sound) : { m with packedKey := .inline : KeyMem }.Sound :=
  ⟨Or.inr (Or.inl rfl), h.multi, fun _ hb => KeyPtr.noConfusion hb, h.fresh, h.badFrees, h.overruns⟩

theorem OwnsMulti.of_eq {m' : KeyMem} (howns : m.OwnsMulti) (hmulti : m'.multiKey = m.multiKey) (h : m'.Sound) :
    m'.OwnsMulti := by
  rcases howns with hnull | ⟨b, hb, -⟩
  · exact Or.inl (hmulti.trans hnull)
  · exact Or.inr ⟨b, hmulti.trans hb, h.multi b (hmulti.trans hb)⟩

theorem sizeT_le {n : Int} (h : 0 ≤ n) : sizeT n ≤ n.toNat := by
  unfold sizeT
  omega

end Sound

/-! ## What the builders do -/

section Builders

variable {m : KeyMem} {t : KeyTask} (granted : Granted)

theorem fields_fit {tdef : TableDef} (hlaid : tdef.LaidOut) (hkey : tdef.IntKey ∨ tdef.TextKey) (hformat : tdef.keyFormat ≠ 0) :
    1 ≤ tdef.keyFields ∧ tdef.fieldSize 0 ≤ tdef.keyFormat ∧
      ∀ i < tdef.keyFields, tdef.fieldOffset i + tdef.fieldSize i ≤ tdef.keyFormat := by
  have hint : tdef.IntKey := hkey.resolve_right fun htext => hformat (hlaid.text htext)
  have h8 := (hint.keyOffset_le _ (Nat.le_refl _)).2
  have h32 := tdef.keyFields_le
  have hsize : tdef.keyFormat = tdef.keyOffset tdef.keyFields := by
    have h := hlaid.format hint
    omega
  have hfit : ∀ i < tdef.keyFields, tdef.fieldOffset i + tdef.fieldSize i ≤ tdef.keyFormat := by
    intro i hi
    have hend := tdef.keyOffset_mono (Nat.succ_le_of_lt hi)
    rw [Nat.succ_eq_add_one, tdef.keyOffset_succ] at hend
    have hoffset := hlaid.offset hint i hi
    omega
  refine ⟨hint.1, ?_, hfit⟩
  exact Nat.le_trans (Nat.le_add_left ..) (hfit 0 hint.1)

theorem Sound.buildSingleStringKey (h : m.Sound)
    (hrep : (t.key.getD (.bin [])).strLen ≤ t.tdef.fieldSize 0 →
      m.packedKey ≠ .inline ∧ (t.key.getD (.bin [])).strLen ≠ -1) :
    (m.buildSingleStringKey t granted).2.Sound ∧ (m.buildSingleStringKey t granted).2.multiKey = m.multiKey := by
  unfold KeyMem.buildSingleStringKey
  generalize (t.key.getD (.bin [])).strLen = len at hrep
  dsimp only
  split
  · exact ⟨h, rfl⟩
  · next hlen =>
    obtain ⟨hne, hminus⟩ := hrep (Int.not_lt.mp hlen)
    obtain ⟨hsound, hmulti, hnew⟩ := h.replacePacked hne granted.packed (len + 1)
    generalize (m.free m.packedKey).newPackedKey granted.packed (len + 1) = m' at hsound hmulti hnew
    rcases hnew with ⟨hnull, -⟩ | ⟨⟨-, hpos⟩, b, hb, hsize⟩
    · rw [if_pos hnull]
      exact ⟨hsound, hmulti⟩
    · have hsize' : m'.size m'.packedKey = some (len + 1).toNat := by
        rw [hb]
        exact hsize
      have hpos : 0 ≤ len := by omega
      have hmem := sizeT_le hpos
      rw [if_neg (by rw [hb]; exact KeyPtr.noConfusion), write_of_size hsize' (by omega)]
      split
      · rw [write_of_size hsize' (by omega)]
        exact ⟨hsound, hmulti⟩
      · rw [write_of_size hsize' (by omega)]
        exact ⟨hsound, hmulti⟩

theorem Sound.buildSingleIntKey (h : m.Sound) (hfirst : t.tdef.fieldSize 0 ≤ t.tdef.keyFormat)
    (hrep : 8 < t.tdef.keyFormat → m.packedKey ≠ .inline) :
    (m.buildSingleIntKey t granted).2.Sound ∧ (m.buildSingleIntKey t granted).2.multiKey = m.multiKey ∧
      ((m.buildSingleIntKey t granted).1 = true → ∃ size,
        (m.buildSingleIntKey t granted).2.size (m.buildSingleIntKey t granted).2.packedKey = some size ∧
          t.tdef.keyFormat ≤ size) := by
  -- the memory the fields are stored into
  obtain ⟨m', hm', hsound, hmulti, hsize⟩ : ∃ m', m' = (if 8 < t.tdef.keyFormat then
      (m.free m.packedKey).newPackedKey granted.packed t.tdef.keyFormat
      else { m with packedKey := .inline : KeyMem }.write t.tdef.keyFormat) ∧ m'.Sound ∧ m'.multiKey = m.multiKey ∧
      (m'.packedKey ≠ .null → ∃ size, m'.size m'.packedKey = some size ∧ t.tdef.keyFormat ≤ size) := by
    refine ⟨_, rfl, ?_⟩
    split
    · next h8 =>
      obtain ⟨hsound, hmulti, hnew⟩ := h.replacePacked (hrep h8) granted.packed t.tdef.keyFormat
      refine ⟨hsound, hmulti, fun hne => ?_⟩
      rcases hnew with ⟨hnull, -⟩ | ⟨-, b, hb, hsize⟩
      · exact absurd hnull hne
      · exact ⟨_, by rw [hb]; exact hsize, by omega⟩
    · next h8 =>
      rw [write_of_size rfl (Nat.not_lt.mp h8)]
      exact ⟨h.useBuffer, rfl, fun _ => ⟨8, rfl, Nat.not_lt.mp h8⟩⟩
  unfold KeyMem.buildSingleIntKey
  dsimp only
  rw [← hm']
  split
  · exact ⟨hsound, hmulti, fun h => absurd h Bool.false_ne_true⟩
  · next hne =>
    obtain ⟨size, hsize, hle⟩ := hsize hne
    split
    · split
      · rw [write_of_size hsize (Nat.le_trans hfirst hle)]
        exact ⟨hsound, hmulti, fun _ => ⟨size, hsize, hle⟩⟩
      · exact ⟨hsound, hmulti, fun h => absurd h Bool.false_ne_true⟩
    · exact ⟨hsound, hmulti, fun _ => ⟨size, hsize, hle⟩⟩

theorem storeFields_mem {size stop : Nat} (hsize : m.size m.packedKey = some size) (hstop : stop ≤ size)
    (multiKey : List DataValue) : ∀ is : List Nat, (∀ i ∈ is, t.tdef.fieldOffset i + t.tdef.fieldSize i ≤ stop) →
    (storeFields t multiKey is m).2 = m
  | [], _ => rfl
  | i :: is, hfit => by
    rw [storeFields, write_of_size hsize (Nat.le_trans (hfit i (List.mem_cons_self ..)) hstop)]
    split
    · exact storeFields_mem hsize hstop multiKey is fun j hj => hfit j (List.mem_cons_of_mem _ hj)
    · rfl

theorem storeFields_ok (multiKey : List DataValue) : ∀ (is : List Nat) (m : KeyMem),
    (storeFields t multiKey is m).1 = true ↔ ∀ i ∈ is, t.Storable (multiKey.getD i .unset) i
  | [], m => by simp [storeFields]
  | i :: is, m => by
    rw [storeFields, List.forall_mem_cons]
    split
    · next hi =>
      rw [storeFields_ok multiKey is]
      exact ⟨fun h => ⟨hi, h⟩, fun h => h.2⟩
    · next hi => exact ⟨fun h => absurd h Bool.false_ne_true, fun h => absurd h.1 hi⟩

theorem Sound.buildMultiKeyValues (t : KeyTask) (granted : Granted) (h : m.Sound) (howns : m.OwnsMulti) :
    (m.buildMultiKeyValues t granted).2.Sound ∧ (m.buildMultiKeyValues t granted).2.OwnsMulti ∧
      (m.buildMultiKeyValues t granted).2.size (m.buildMultiKeyValues t granted).2.packedKey =
        m.size m.packedKey := by
  obtain ⟨hsound, hmulti, hpacked, hsize⟩ := h.replaceMulti howns granted.multi (16 * t.tdef.keyFields)
  have hmem : (m.buildMultiKeyValues t granted).2 =
      (m.free m.multiKey).newMultiKey granted.multi (16 * t.tdef.keyFields) := by
    unfold KeyMem.buildMultiKeyValues
    dsimp only
    split
    · rfl
    · cases t.buildMultiKeyValues <;> rfl
  rw [hmem, hpacked]
  exact ⟨hsound, hmulti, hsize⟩

theorem Sound.buildMultiIntKey (h : m.Sound) (hlaid : t.tdef.LaidOut) (hkey : t.tdef.IntKey ∨ t.tdef.TextKey)
    (hformat : t.tdef.keyFormat ≠ 0) (hrep : 8 < t.tdef.keyFormat → m.packedKey ≠ .inline)
    (howns : t.flagMultiKeyVal = true ∨ m.OwnsMulti) :
    (m.buildMultiIntKey t granted).2.Sound ∧ (m.OwnsMulti → (m.buildMultiIntKey t granted).2.OwnsMulti) := by
  obtain ⟨h1, hfirst, hfit⟩ := fields_fit hlaid hkey hformat
  obtain ⟨hsound, hmulti, hsize⟩ := h.buildSingleIntKey granted hfirst hrep
  unfold KeyMem.buildMultiIntKey
  generalize m.buildSingleIntKey t granted = r at hsound hmulti hsize
  obtain ⟨ok, m'⟩ := r
  have hkeep : m.OwnsMulti → m'.OwnsMulti := fun howns => howns.of_eq hmulti hsound
  have hfields : ∀ i ∈ List.range' 1 (t.tdef.keyFields - 1),
      t.tdef.fieldOffset i + t.tdef.fieldSize i ≤ t.tdef.keyFormat := by
    intro i hi
    rw [List.mem_range'_1] at hi
    exact hfit i (by omega)
  cases ok with
  | false => exact ⟨hsound, hkeep⟩
  | true =>
    obtain ⟨size, hsize, hle⟩ := hsize rfl
    dsimp only
    by_cases hbatch : t.flagMultiKeyVal = true
    · rw [if_pos hbatch]
      dsimp only
      rw [storeFields_mem hsize hle _ _ hfields]
      exact ⟨hsound, hkeep⟩
    · rw [if_neg hbatch]
      obtain ⟨hsound', hmulti', hsame⟩ :=
        hsound.buildMultiKeyValues t granted (hkeep (howns.resolve_left hbatch))
      generalize m'.buildMultiKeyValues t granted = r at hsound' hmulti' hsame
      obtain ⟨fields, m''⟩ := r
      cases fields with
      | none => exact ⟨hsound', fun _ => hmulti'⟩
      | some multiKey =>
        dsimp only
        rw [storeFields_mem (hsame.trans hsize) hle _ _ hfields]
        exact ⟨hsound', fun _ => hmulti'⟩

theorem Sound.buildPackedKey (h : m.Sound) (hlaid : t.tdef.LaidOut) (hkey : t.tdef.IntKey ∨ t.tdef.TextKey)
    (hrep : t.Replaceable m.packedKey) (howns : t.flagMultiKeyVal = true ∨ m.OwnsMulti) :
    (m.buildPackedKey t granted).2.Sound ∧ (m.OwnsMulti → (m.buildPackedKey t granted).2.OwnsMulti) := by
  unfold KeyTask.Replaceable at hrep
  unfold KeyMem.buildPackedKey
  split
  · next hformat =>
    rw [if_pos hformat] at hrep
    obtain ⟨hsound, hmulti⟩ := h.buildSingleStringKey granted hrep
    exact ⟨hsound, fun howns => howns.of_eq hmulti hsound⟩
  · next hformat =>
    rw [if_neg hformat] at hrep
    split
    · obtain ⟨hsound, hmulti, -⟩ := h.buildSingleIntKey granted (fields_fit hlaid hkey hformat).2.1 hrep
      exact ⟨hsound, fun howns => howns.of_eq hmulti hsound⟩
    · exact h.buildMultiIntKey granted hlaid hkey hformat hrep howns

theorem Sound.migrateKey (h : m.Sound) (granted : Bool) (n : Int) :
    ∃ m', m' = (if m.packedKey ≠ .inline ∧ m.packedKey ≠ .null then { m.free m.packedKey with packedKey := .null }
        else m).newPackedKey granted n ∧ m'.Sound ∧ m'.multiKey = m.multiKey ∧
      (m'.packedKey = .null ∧ ¬ (granted = true ∧ 0 ≤ n) ∨
        (granted = true ∧ 0 ≤ n) ∧ ∃ b, m'.packedKey = .block b ∧ m'.blocks b = some n.toNat) := by
  refine ⟨_, rfl, ?_⟩
  by_cases hbuffer : m.packedKey = .inline
  · have hdrop : { m with packedKey := .null : KeyMem }.Sound :=
      ⟨Or.inl rfl, h.multi, fun _ hb => KeyPtr.noConfusion hb, h.fresh, h.badFrees, h.overruns⟩
    rw [if_neg (fun hne => hne.1 hbuffer), ← newPackedKey_setPackedKey m .null]
    exact hdrop.replacePacked KeyPtr.noConfusion granted n
  · have hfree : (if m.packedKey ≠ .inline ∧ m.packedKey ≠ .null then { m.free m.packedKey with packedKey := .null }
        else m).newPackedKey granted n = (m.free m.packedKey).newPackedKey granted n := by
      by_cases hnull : m.packedKey = .null
      · rw [if_neg (fun hne => hne.2 hnull), hnull, free]
      · rw [if_pos ⟨hbuffer, hnull⟩, newPackedKey_setPackedKey]
    rw [hfree]
    exact h.replacePacked hbuffer granted n

theorem Sound.migrate (h : m.Sound) (hfits : t.MigrationFits) :
    (m.migrate t granted).2.Sound ∧ (m.migrate t granted).2.multiKey = m.multiKey := by
  unfold KeyMem.migrate
  split
  · next condition hcond =>
    dsimp only
    split
    · next h8 =>
      obtain ⟨m', hm', hsound, hmulti, hnew⟩ := h.migrateKey granted.packed condition.val.strLen
      rw [← hm']
      rcases hnew with ⟨hnull, -⟩ | ⟨⟨-, hpos⟩, b, hb, hsize⟩
      · rw [if_pos hnull]
        exact ⟨hsound, hmulti⟩
      · have hsize' : m'.size m'.packedKey = some condition.val.strLen.toNat := by
          rw [hb]
          exact hsize
        rw [if_neg (by rw [hb]; exact KeyPtr.noConfusion), write_of_size hsize' (sizeT_le hpos)]
        exact ⟨hsound, hmulti⟩
    · next h8 =>
      obtain ⟨hpos, hformat⟩ := hfits condition hcond (Int.not_lt.mp h8)
      have hmem := sizeT_le hpos
      rw [write_of_size rfl hformat, write_of_size rfl (by omega)]
      exact ⟨h.useBuffer, rfl⟩
  · exact ⟨h, rfl⟩

theorem Sound.freePackedKey (h : m.Sound) (howns : m.OwnsMulti) :
    m.freePackedKey.badFrees = [] ∧ m.freePackedKey.overruns = [] := by
  obtain ⟨m', hm', hmulti, hbad, hover⟩ : ∃ m', m' = (if m.packedKey ≠ .null ∧ m.packedKey ≠ .inline then
      { m.free m.packedKey with packedKey := .null } else m) ∧
      (m'.multiKey = .null ∨ ∃ b, m'.multiKey = .block b ∧ (m'.blocks b).isSome) ∧ m'.badFrees = [] ∧
      m'.overruns = [] := by
    refine ⟨_, rfl, ?_⟩
    split
    · next hne =>
      obtain ⟨-, hmulti, hbad, hover, -, -, hother⟩ := free_spec (h.packed_block hne.2)
      refine ⟨?_, hbad.trans h.badFrees, hover.trans h.overruns⟩
      rcases howns with hnull | ⟨b, hb, hlive⟩
      · exact Or.inl (hmulti.trans hnull)
      · refine Or.inr ⟨b, hmulti.trans hb, ?_⟩
        dsimp only
        rw [hother b fun hp => h.apart b hp hb]
        exact hlive
    · exact ⟨howns, h.badFrees, h.overruns⟩
  obtain ⟨-, -, hbad', hover', -⟩ := free_spec hmulti
  unfold KeyMem.freePackedKey
  rw [← hm']
  exact ⟨hbad'.trans hbad, hover'.trans hover⟩

theorem newPackedKey_ne_null (m : KeyMem) {n : Int} (hn : 0 ≤ n) : (m.newPackedKey true n).packedKey ≠ .null := by
  rw [newPackedKey, alloc, if_pos ⟨rfl, hn⟩]
  exact KeyPtr.noConfusion

theorem storable_iff (v : DataValue) (i : Nat) (buf : List UInt8) (p : Nat) :
    t.Storable v i ↔
      ∃ buf', storeValue buf p (keyWord v) (t.tdef.fieldType i) (t.tdef.fieldSize i) = some buf' := by
  rw [KeyTask.Storable, Option.isSome_iff_exists]
  unfold storeValue
  split
  · exact ⟨fun ⟨_, h⟩ => (by cases h), fun ⟨_, h⟩ => (by cases h)⟩
  · exact ⟨fun _ => ⟨_, rfl⟩, fun _ => ⟨_, rfl⟩⟩

theorem buildSingleIntKey_ok (hgranted : 8 < t.tdef.keyFormat → granted.packed = true) :
    (m.buildSingleIntKey t granted).1 = true ↔ ∃ bytes, t.buildSingleIntKey = .ok bytes := by
  have hne : ¬ (if 8 < t.tdef.keyFormat then (m.free m.packedKey).newPackedKey granted.packed t.tdef.keyFormat
      else { m with packedKey := .inline : KeyMem }.write t.tdef.keyFormat).packedKey = .null := by
    split
    · next h8 =>
      rw [hgranted h8]
      exact newPackedKey_ne_null _ (by omega)
    · next h8 =>
      rw [write_of_size rfl (Nat.not_lt.mp h8)]
      exact KeyPtr.noConfusion
  unfold KeyMem.buildSingleIntKey KeyTask.buildSingleIntKey
  dsimp only
  rw [if_neg hne]
  cases t.key with
  | some key =>
    dsimp only
    split
    · next hstore =>
      obtain ⟨buf, hbuf⟩ := (storable_iff key 0 (List.replicate t.tdef.keyFormat 0) 0).mp hstore
      rw [hbuf]
      exact ⟨fun _ => ⟨buf, rfl⟩, fun _ => rfl⟩
    · next hstore =>
      cases hbuf : storeValue (List.replicate t.tdef.keyFormat 0) 0 (keyWord key) (t.tdef.fieldType 0) (t.tdef.fieldSize 0) with
      | some buf => exact absurd ((storable_iff key 0 _ 0).mpr ⟨buf, hbuf⟩) hstore
      | none => exact ⟨fun h => absurd h Bool.false_ne_true, fun ⟨_, h⟩ => by cases h⟩
  | none =>
    dsimp only
    split
    · next hassign => exact ⟨fun _ => ⟨_, rfl⟩, fun _ => decide_eq_true hassign⟩
    · next hassign => exact ⟨fun h => absurd (of_decide_eq_true h) hassign, fun ⟨_, h⟩ => by cases h⟩

theorem storeLoop_ok (vals : List DataValue) : ∀ (is : List Nat) (packKey : List UInt8),
    (∃ bytes, storeLoop t.tdef vals is packKey = some bytes) ↔ ∀ i ∈ is, t.Storable (vals.getD i .unset) i
  | [], packKey => ⟨fun _ _ h => absurd h List.not_mem_nil, fun _ => ⟨packKey, rfl⟩⟩
  | i :: is, packKey => by
    rw [storeLoop, List.forall_mem_cons, storable_iff (vals.getD i .unset) i packKey (t.tdef.fieldOffset i)]
    cases hstore : storeValue packKey (t.tdef.fieldOffset i) (keyWord (vals.getD i .unset)) (t.tdef.fieldType i)
        (t.tdef.fieldSize i) with
    | none =>
      constructor
      · rintro ⟨_, h⟩
        cases h
      · rintro ⟨⟨_, h⟩, _⟩
        cases h
    | some packKey' =>
      dsimp only
      rw [storeLoop_ok vals is packKey']
      exact ⟨fun h => ⟨⟨_, rfl⟩, h⟩, fun h => h.2⟩

/-- **With memory for the blocks the key is built exactly when its bytes are**. -/
theorem buildPackedKey_ok (misread : BitVec 64 → List UInt8) (m : KeyMem)
    (htext : t.tdef.keyFormat = 0 → ∀ w, t.key ≠ some (.word w)) :
    (m.buildPackedKey t ⟨true, true⟩).1 = true ↔ ∃ bytes, t.buildPackedKey misread = .ok bytes := by
  unfold KeyMem.buildPackedKey KeyTask.buildPackedKey
  split
  · next hformat =>
    have hlen : (t.key.getD (.bin [])).strLen = (keyText misread (t.key.getD (.bin []))).length := by
      cases hkey : t.key with
      | none => rfl
      | some v =>
        cases v with
        | word w => exact absurd hkey (htext hformat w)
        | unset => rfl
        | bin bytes => rfl
    unfold KeyMem.buildSingleStringKey KeyTask.buildSingleStringKey
    dsimp only
    rw [hlen]
    by_cases hbig : t.tdef.fieldSize 0 < (keyText misread (t.key.getD (.bin []))).length
    · rw [if_pos hbig, if_pos (by omega)]
      exact ⟨fun h => absurd h Bool.false_ne_true, by rintro ⟨_, ⟨⟩⟩⟩
    · rw [if_neg hbig, if_neg (by omega), if_neg (newPackedKey_ne_null _ (by omega))]
      refine ⟨fun _ => ⟨_, rfl⟩, fun _ => ?_⟩
      split <;> rfl
  · split
    · exact buildSingleIntKey_ok _ fun _ => rfl
    · have hsingle := @buildSingleIntKey_ok m t ⟨true, true⟩ fun _ => rfl
      unfold KeyMem.buildMultiIntKey KeyTask.buildMultiIntKey
      generalize m.buildSingleIntKey t ⟨true, true⟩ = r at hsingle
      obtain ⟨ok, m'⟩ := r
      cases hbytes : t.buildSingleIntKey with
      | error e =>
        have hfalse : ok = false := Bool.eq_false_iff.mpr fun h => by
          obtain ⟨_, h⟩ := hsingle.mp h
          rw [hbytes] at h
          cases h
        rw [hfalse]
        exact ⟨fun h => absurd h Bool.false_ne_true, by rintro ⟨_, ⟨⟩⟩⟩
      | ok bytes =>
        have htrue : ok = true := hsingle.mpr ⟨bytes, hbytes⟩
        -- the fields behind the first, in the order they are stored in
        have hstore : ∀ (multiKey : List DataValue) (m : KeyMem),
            (storeFields t multiKey (List.range' 1 (t.tdef.keyFields - 1)) m).1 = true ↔
              ∃ bytes', storeLoop t.tdef multiKey (List.range' 1 (t.tdef.keyFields - 1)) bytes = some bytes' := by
          intro multiKey m
          rw [storeFields_ok, ← storeLoop_ok multiKey _ bytes]
        rw [htrue]
        dsimp only
        by_cases hbatch : t.flagMultiKeyVal = true
        · rw [if_pos hbatch, if_pos hbatch, hstore]
          dsimp only
          cases storeLoop t.tdef t.multiKey (List.range' 1 (t.tdef.keyFields - 1)) bytes <;> simp
        · have hmulti : ((m'.free m'.multiKey).newMultiKey true (16 * t.tdef.keyFields)).multiKey ≠ .null := by
            rw [newMultiKey, alloc, if_pos ⟨rfl, by omega⟩]
            exact KeyPtr.noConfusion
          rw [if_neg hbatch, if_neg hbatch, KeyMem.buildMultiKeyValues]
          dsimp only
          rw [if_neg hmulti]
          cases t.buildMultiKeyValues with
          | error e => exact ⟨fun h => absurd h Bool.false_ne_true, by rintro ⟨_, ⟨⟩⟩⟩
          | ok multiKey =>
            rw [hstore]
            dsimp only
            cases storeLoop t.tdef multiKey (List.range' 1 (t.tdef.keyFields - 1)) bytes <;> simp

theorem buildPackedKey_ok_text :
    (({ packedKey := .block 0, blocks := fun b => if b = 0 then some 5 else none, next := 1 } : KeyMem).buildPackedKey
      { tdef := longTextKey, requestCode := .get, key := some (.bin [97, 98]) } ⟨true, true⟩).1 = true :=
  (buildPackedKey_ok (fun _ => []) _ fun _ w h => by cases h).mpr ⟨_, rfl⟩

theorem buildPackedKey_of_packs (m : KeyMem) (hbatch : t.flagMultiKeyVal = true) (hpacks : t.Packs granted) :
    (m.buildPackedKey t granted).1 = true := by
  unfold KeyTask.Packs at hpacks
  unfold KeyMem.buildPackedKey
  split
  · next hformat =>
    rw [if_pos hformat] at hpacks
    obtain ⟨hpos, hle, hgranted⟩ := hpacks
    unfold KeyMem.buildSingleStringKey
    dsimp only
    rw [hgranted, if_neg (Int.not_lt.mpr hle), if_neg (newPackedKey_ne_null _ (by omega))]
    split <;> rfl
  · next hformat =>
    rw [if_neg hformat] at hpacks
    obtain ⟨hgranted, ⟨key, hk, hstore⟩, hrest⟩ := hpacks
    have hsingle : (m.buildSingleIntKey t granted).1 = true := by
      obtain ⟨buf, hbuf⟩ := (storable_iff key 0 (List.replicate t.tdef.keyFormat 0) 0).mp hstore
      refine (buildSingleIntKey_ok granted hgranted).mpr ⟨buf, ?_⟩
      rw [KeyTask.buildSingleIntKey, hk]
      dsimp only
      rw [hbuf]
    split
    · exact hsingle
    · unfold KeyMem.buildMultiIntKey
      generalize m.buildSingleIntKey t granted = r at hsingle
      obtain ⟨ok, m'⟩ := r
      obtain rfl : ok = true := hsingle
      dsimp only
      rw [if_pos hbatch]
      exact (storeFields_ok t.multiKey _ m').mpr hrest

end Builders

end KeyMem

end Dtc
