import DtcServer.KeyPacking
/-!
# KeyBuilders — the key of a request (`CTaskRequest::BuildPackedKey`)

A request packs its own key: its first field is the key of the request, the others are fields of an insert or of the
condition.  The index of nodes finds a key by its bytes, so they must be those of `CTaskPackedKey::BuildPackedKey`.
-/
namespace Dtc

def ecKeyOverflow : Int := 2035

/-- `CTaskRequest`, the part its key is built from.  In a batch, `multiKey` is the key that `SetBatchCursor` chose. -/
structure KeyTask where
  tdef : TableDef
  requestCode : RequestCode
  key : Option DataValue := none
  updateInfo : Option (List SFieldValue) := none
  conditionInfo : Option (List SFieldValue) := none
  flagMultiKeyVal : Bool := false
  multiKey : List DataValue := []
  deriving DecidableEq, Repr

namespace KeyTask

open TaskPackedKey

section Build

variable (misread : BitVec 64 → List UInt8) (t : KeyTask)

def buildSingleStringKey : Except ResultInfo (List UInt8) :=
  let text := keyText misread (t.key.getD (.bin []))
  if t.tdef.fieldSize 0 < text.length then .error ⟨-ecKeyNeeded, "key verify", "string key size overflow"⟩
  else .ok (UInt8.ofNat text.length :: normalText t.tdef text)

/-- `BuildSingleIntKey`: an insert whose key is assigned leaves it 0. -/
def buildSingleIntKey : Except ResultInfo (List UInt8) :=
  let packedKey := List.replicate t.tdef.keyFormat 0
  match t.key with
  | some key =>
    match storeValue packedKey 0 (keyWord key) (t.tdef.fieldType 0) (t.tdef.fieldSize 0) with
    | none => .error ⟨-ecKeyNeeded, "key verify", "int key value overflow"⟩
    | some packedKey => .ok packedKey
  | none =>
    if t.tdef.hasAutoInc = 0 ∧ t.requestCode = .insert then .ok packedKey
    else .error ⟨-ecKeyNeeded, "key verify", "No Key Sepcified"⟩

/-- The fields of the key behind the first: those of an insert or replace, of the condition otherwise. -/
def keyOperation : Option (List SFieldValue) :=
  if t.requestCode = .insert ∨ t.requestCode = .replace then t.updateInfo else t.conditionInfo

/-- A value that changes when it is taken for the type of its field. -/
def SignMismatch (f : SFieldValue) : Prop :=
  t.tdef.fieldSize f.id.toNat < 8 ∧ (keyWord f.val).toBitVec.toInt < 0 ∧
    (t.tdef.fieldType f.id.toNat = .unsigned ∧ f.type = FieldType.signed.code ∨
      t.tdef.fieldType f.id.toNat = .signed ∧ f.type = FieldType.unsigned.code)

instance (f : SFieldValue) : Decidable (t.SignMismatch f) := by unfold SignMismatch; infer_instance

/-- The loop of `BuildMultiKeyValues`, with the fields that are there in `keymask`. -/
def multiKeyLoop : List SFieldValue → BitVec 32 → List DataValue → Except ResultInfo (BitVec 32 × List DataValue)
  | [], keymask, multiKey => .ok (keymask, multiKey)
  | f :: kop, keymask, multiKey =>
    if t.tdef.keyFields ≤ f.id.toNat then multiKeyLoop kop keymask multiKey
    else if keymask &&& 1#32 <<< f.id.toNat ≠ 0 then .error ⟨-ecBadMultikey, "key verify", "duplicate key field"⟩
    else if t.SignMismatch f then .error ⟨-ecKeyOverflow, "key verify", "int key value overflow"⟩
    else multiKeyLoop kop (keymask ||| 1#32 <<< f.id.toNat) (multiKey.set f.id.toNat f.val)

/-- `AutoIncrementFieldId` of an insert is a field of the key. -/
def AssignsKey (i : Nat) : Prop := t.requestCode = .insert ∧ i < t.tdef.keyFields ∧ t.tdef.hasAutoInc = i

instance (i : Nat) : Decidable (t.AssignsKey i) := by unfold AssignsKey; infer_instance

def buildMultiKeyValues : Except ResultInfo (List DataValue) :=
  let multiKey := List.replicate t.tdef.keyFields .unset
  let (keymask, multiKey) :=
    match t.key with
    | some key => (1#32, multiKey.set 0 key)
    | none => (0#32, multiKey)
  match t.keyOperation with
  | none => .error ⟨-ecKeyNeeded, "key verify", "Missing Key Component"⟩
  | some kop =>
    match t.multiKeyLoop kop keymask multiKey with
    | .error e => .error e
    | .ok (keymask, multiKey) =>
      let keymask :=
        if t.AssignsKey t.tdef.hasAutoInc.toNat then keymask ||| 1#32 <<< t.tdef.hasAutoInc.toNat else keymask
      -- the machine shifts by the low five bits of the count
      if keymask + 1 ≠ 1#32 <<< (t.tdef.keyFields % 32) then .error ⟨-ecKeyNeeded, "key verify", "Missing Key Component"⟩
      else .ok multiKey

def buildMultiIntKey : Except ResultInfo (List UInt8) :=
  match t.buildSingleIntKey with
  | .error e => .error e
  | .ok packedKey =>
    match if t.flagMultiKeyVal then .ok t.multiKey else t.buildMultiKeyValues with
    | .error e => .error e
    | .ok multiKey =>
      match storeLoop t.tdef multiKey (List.range' 1 (t.tdef.keyFields - 1)) packedKey with
      | none => .error ⟨-ecKeyOverflow, "key verify", "int key value overflow"⟩
      | some packedKey => .ok packedKey

def buildPackedKey : Except ResultInfo (List UInt8) :=
  if t.tdef.keyFormat = 0 then t.buildSingleStringKey misread
  else if t.tdef.keyFields = 1 then t.buildSingleIntKey
  else t.buildMultiIntKey

end Build

/-- **The request asks for the key `vals`**: its key is the first of them, the fields of its insert or condition are the
others, each once and with its field's sign; an insert may leave out the field that is assigned, which is 0 then. -/
structure Carries (t : KeyTask) (vals : List DataValue) : Prop where
  key : ∀ v, t.key = some v → v = vals.getD 0 .unset
  text : t.tdef.TextKey → t.key = none → (vals.getD 0 .unset).str = []
  assigned : t.tdef.IntKey → t.key = none → t.AssignsKey 0 ∧ (t.tdef.keyFields = 1 → vals.getD 0 .unset = .word 0)
  batch : t.flagMultiKeyVal = true → t.key ≠ none ∧ (t.tdef.keyFields ≠ 1 → t.multiKey = vals)
  fields : t.flagMultiKeyVal = false → t.tdef.keyFields ≠ 1 → ∃ kop, t.keyOperation = some kop ∧
    kop.Pairwise (fun f g => f.id.toNat < t.tdef.keyFields → f.id ≠ g.id) ∧
    (∀ f ∈ kop, f.id.toNat < t.tdef.keyFields →
      f.val = vals.getD f.id.toNat .unset ∧ ¬ t.SignMismatch f ∧ (t.key ≠ none → f.id.toNat ≠ 0)) ∧
    ∀ i < t.tdef.keyFields, (i ≠ 0 ∨ t.key = none) →
      (∃ f ∈ kop, f.id.toNat = i) ∨ t.AssignsKey i ∧ vals.getD i .unset = .word 0

/-- **The request's key has the bytes** that `CTaskPackedKey` gives it. -/
def Agrees (misread : BitVec 64 → List UInt8) (t : KeyTask) (vals : List DataValue) : Prop :=
  ∃ packedKey, t.buildPackedKey misread = .ok packedKey ∧
    ∀ packKey : List UInt8, keyRoom t.tdef vals ≤ packKey.length →
      ∃ buf, TaskPackedKey.buildPackedKey t.tdef misread vals packKey = .ok buf ∧ packedBytes t.tdef buf = packedKey

/-! ## The mask of the fields -/

section Mask

theorem getLsbD_or_oneBit {k : Nat} (hk : k < 32) (keymask : BitVec 32) (i : Nat) :
    (keymask ||| 1#32 <<< k).getLsbD i = true ↔ keymask.getLsbD i = true ∨ i = k := by
  rw [Bits.getLsbD_set hk, Bool.or_eq_true, decide_eq_true_eq]

theorem succ_eq_fieldBit_iff {keymask : BitVec 32} {n : Nat} (hn : 1 ≤ n) (h32 : n ≤ 32)
    (hbits : ∀ i < 32, keymask.getLsbD i = true ↔ i < n) : keymask + 1 = 1#32 <<< (n % 32) ↔ n ≤ 31 := by
  obtain rfl := Bits.eq_lowBits hbits
  clear hbits
  interval_cases n <;> decide

end Mask

section Loop

variable {t : KeyTask}

theorem multiKeyLoop_ok : ∀ (kop : List SFieldValue) (keymask : BitVec 32) (multiKey : List DataValue),
    multiKey.length = t.tdef.keyFields →
    kop.Pairwise (fun f g => f.id.toNat < t.tdef.keyFields → f.id ≠ g.id) →
    (∀ f ∈ kop, f.id.toNat < t.tdef.keyFields → ¬ t.SignMismatch f ∧ keymask.getLsbD f.id.toNat = false) →
    ∃ keymask' multiKey', t.multiKeyLoop kop keymask multiKey = .ok (keymask', multiKey') ∧
      (∀ i, keymask'.getLsbD i = true ↔
        keymask.getLsbD i = true ∨ i < t.tdef.keyFields ∧ ∃ f ∈ kop, f.id.toNat = i) ∧
      (∀ f ∈ kop, f.id.toNat < t.tdef.keyFields → multiKey'.getD f.id.toNat .unset = f.val) ∧
      ∀ i, (∀ f ∈ kop, f.id.toNat ≠ i) → multiKey'.getD i .unset = multiKey.getD i .unset
  | [], keymask, multiKey, _, _, _ => ⟨keymask, multiKey, rfl, by simp, by simp, fun _ _ => rfl⟩
  | f :: kop, keymask, multiKey, hlen, hnodup, hgood => by
    obtain ⟨hf, hnodup⟩ := List.pairwise_cons.mp hnodup
    have hrest : ∀ g ∈ kop, g.id.toNat < t.tdef.keyFields → ¬ t.SignMismatch g ∧ keymask.getLsbD g.id.toNat = false :=
      fun g hg => hgood g (List.mem_cons_of_mem _ hg)
    rw [multiKeyLoop]
    by_cases hkey : t.tdef.keyFields ≤ f.id.toNat
    · -- a field behind the key
      rw [if_pos hkey]
      obtain ⟨keymask', multiKey', hloop, hmask, hset, hsame⟩ := multiKeyLoop_ok kop keymask multiKey hlen hnodup hrest
      refine ⟨keymask', multiKey', hloop, fun i => ?_, fun g hg hlt => ?_, fun i hi => ?_⟩
      · rw [hmask, List.exists_mem_cons_iff]
        constructor
        · rintro (h | ⟨hi, h⟩)
          · exact Or.inl h
          · exact Or.inr ⟨hi, Or.inr h⟩
        · rintro (h | ⟨hi, rfl | h⟩)
          · exact Or.inl h
          · exact absurd hi (Nat.not_lt.mpr hkey)
          · exact Or.inr ⟨hi, h⟩
      · rcases List.mem_cons.mp hg with rfl | hg
        · exact absurd hlt (Nat.not_lt.mpr hkey)
        · exact hset g hg hlt
      · exact hsame i fun g hg => hi g (List.mem_cons_of_mem _ hg)
    · have hlt : f.id.toNat < t.tdef.keyFields := Nat.not_le.mp hkey
      have h32 : f.id.toNat < 32 := Nat.lt_of_lt_of_le hlt t.tdef.keyFields_le
      obtain ⟨hsign, hbit⟩ := hgood f (List.mem_cons_self ..) hlt
      have hother : ∀ g ∈ kop, g.id.toNat ≠ f.id.toNat := fun g hg he => hf g hg hlt (UInt8.toNat_inj.mp he.symm)
      have hfree : ¬ keymask &&& 1#32 <<< f.id.toNat ≠ 0 := fun h => by
        rw [(Bits.and_oneBit_ne_zero h32 keymask).mp h] at hbit
        cases hbit
      rw [if_neg hkey, if_neg hfree, if_neg hsign]
      obtain ⟨keymask', multiKey', hloop, hmask, hset, hsame⟩ := multiKeyLoop_ok kop (keymask ||| 1#32 <<< f.id.toNat)
        (multiKey.set f.id.toNat f.val) (by rw [List.length_set, hlen]) hnodup (fun g hg hk => by
          refine ⟨(hrest g hg hk).1, Bool.eq_false_iff.mpr fun h => ?_⟩
          rcases (getLsbD_or_oneBit h32 _ _).mp h with h | h
          · rw [(hrest g hg hk).2] at h
            cases h
          · exact hother g hg h)
      refine ⟨keymask', multiKey', hloop, fun i => ?_, fun g hg hk => ?_, fun i hi => ?_⟩
      · rw [hmask, getLsbD_or_oneBit h32, List.exists_mem_cons_iff]
        constructor
        · rintro ((h | rfl) | ⟨hi, h⟩)
          · exact Or.inl h
          · exact Or.inr ⟨hlt, Or.inl rfl⟩
          · exact Or.inr ⟨hi, Or.inr h⟩
        · rintro (h | ⟨hi, rfl | h⟩)
          · exact Or.inl (Or.inl h)
          · exact Or.inl (Or.inr rfl)
          · exact Or.inr ⟨hi, h⟩
      · rcases List.mem_cons.mp hg with rfl | hg
        · rw [hsame _ hother, List.getD_eq_getElem?_getD, List.getElem?_set_self (by omega)]
          rfl
        · exact hset g hg hk
      · have hne := hi f (List.mem_cons_self ..)
        rw [hsame i fun g hg => hi g (List.mem_cons_of_mem _ hg), List.getD_eq_getElem?_getD, List.getElem?_set_ne hne,
          ← List.getD_eq_getElem?_getD]

end Loop

section Builders

theorem inField_zero {type : FieldType} (h : isIntType type = true) (size : Nat) : InField type size (fieldInt type 0) := by
  have hpow : (0 : Int) < 2 ^ (8 * size - 1) := Int.pow_pos (by decide)
  have hpow' : (0 : Int) < 2 ^ (8 * size) := Int.pow_pos (by decide)
  cases type with
  | signed => exact ⟨by show -2 ^ (8 * size - 1) ≤ (0 : Int); omega, by show (0 : Int) ≤ 2 ^ (8 * size - 1) - 1; omega⟩
  | unsigned => exact ⟨Int.le_refl 0, by show (0 : Int) ≤ 2 ^ (8 * size) - 1; omega⟩
  | none | float | string | binary => exact absurd h (by decide)

variable {t : KeyTask} {vals : List DataValue}

theorem Carries.multiKeyValues (hcarries : t.Carries vals) (hint : t.tdef.IntKey) (hbatch : t.flagMultiKeyVal = false)
    (hmulti : t.tdef.keyFields ≠ 1) :
    if t.tdef.keyFields ≤ 31 then
      ∃ multiKey, t.buildMultiKeyValues = .ok multiKey ∧
        ∀ i < t.tdef.keyFields, i ≠ 0 → multiKey.getD i .unset = vals.getD i .unset ∨
          multiKey.getD i .unset = .unset ∧ vals.getD i .unset = .word 0
    else ∃ e, t.buildMultiKeyValues = .error e := by
  obtain ⟨kop, hkop, hnodup, hgood, hall⟩ := hcarries.fields hbatch hmulti
  have hpos := hint.1
  -- the state before the loop has the bit of the first field when the request has a key
  obtain ⟨keymask, multiKey, hstart, hlen, hmask, hmulti0⟩ : ∃ keymask multiKey,
      (match t.key with
        | some key => (1#32, (List.replicate t.tdef.keyFields DataValue.unset).set 0 key)
        | none => (0#32, List.replicate t.tdef.keyFields DataValue.unset)) = (keymask, multiKey) ∧
      multiKey.length = t.tdef.keyFields ∧ (∀ i, keymask.getLsbD i = true ↔ i = 0 ∧ t.key ≠ none) ∧
      ∀ i ≠ 0, multiKey.getD i .unset = .unset := by
    have hunset : ∀ i, (List.replicate t.tdef.keyFields DataValue.unset).getD i .unset = .unset := by
      intro i
      rw [List.getD_eq_getElem?_getD, List.getElem?_replicate]
      split <;> rfl
    cases t.key with
    | some key =>
      refine ⟨_, _, rfl, by simp, fun i => ?_, fun i hi => ?_⟩
      · rw [BitVec.getLsbD_one]
        simp
      · rw [List.getD_eq_getElem?_getD, List.getElem?_set_ne (Ne.symm hi), ← List.getD_eq_getElem?_getD, hunset]
    | none => exact ⟨_, _, rfl, by simp, fun i => by simp, fun i _ => hunset i⟩
  obtain ⟨keymask', multiKey', hloop, hbits, hset, hsame⟩ := t.multiKeyLoop_ok kop keymask multiKey hlen hnodup
    (fun f hf hlt => by
      obtain ⟨-, hsign, hfirst⟩ := hgood f hf hlt
      refine ⟨hsign, Bool.eq_false_iff.mpr fun h => ?_⟩
      obtain ⟨h0, hkey⟩ := (hmask _).mp h
      exact hfirst hkey h0)
  -- with the assigned field, every field has its bit
  have hfull : ∀ i < 32, (if t.AssignsKey t.tdef.hasAutoInc.toNat then keymask' ||| 1#32 <<< t.tdef.hasAutoInc.toNat
      else keymask').getLsbD i = true ↔ i < t.tdef.keyFields := by
    intro i _
    have hassign : (if t.AssignsKey t.tdef.hasAutoInc.toNat then keymask' ||| 1#32 <<< t.tdef.hasAutoInc.toNat
        else keymask').getLsbD i = true ↔ keymask'.getLsbD i = true ∨ t.AssignsKey i := by
      split
      · next h =>
        rw [getLsbD_or_oneBit (Nat.lt_of_lt_of_le h.2.1 t.tdef.keyFields_le)]
        refine or_congr_right ⟨?_, fun hi => ?_⟩
        · rintro rfl
          exact h
        · rw [hi.2.2, Int.toNat_natCast]
      · next h =>
        refine ⟨Or.inl, fun hi => hi.resolve_right fun hi => h ?_⟩
        rw [hi.2.2, Int.toNat_natCast]
        exact hi
    rw [hassign, hbits, hmask]
    constructor
    · rintro ((⟨rfl, -⟩ | ⟨hi, -⟩) | hi)
      · exact hpos
      · exact hi
      · exact hi.2.1
    · intro hi
      by_cases hkey : i ≠ 0 ∨ t.key = none
      · rcases hall i hi hkey with h | h
        · exact Or.inl (Or.inr ⟨hi, h⟩)
        · exact Or.inr h.1
      · rw [not_or, not_not] at hkey
        exact Or.inl (Or.inl hkey)
  have hcheck := succ_eq_fieldBit_iff hpos t.tdef.keyFields_le hfull
  have hbuild : t.buildMultiKeyValues =
      if t.tdef.keyFields ≤ 31 then .ok multiKey' else .error ⟨-ecKeyNeeded, "key verify", "Missing Key Component"⟩ := by
    rw [buildMultiKeyValues, hkop]
    dsimp only
    rw [hstart]
    dsimp only
    rw [hloop]
    dsimp only
    by_cases h31 : t.tdef.keyFields ≤ 31
    · rw [if_pos h31, if_neg (not_not.mpr (hcheck.mpr h31))]
    · rw [if_neg h31, if_pos (fun h => h31 (hcheck.mp h))]
  rw [hbuild]
  split
  · refine ⟨multiKey', rfl, fun i hi h0 => ?_⟩
    by_cases hmem : ∃ f ∈ kop, f.id.toNat = i
    · obtain ⟨f, hf, rfl⟩ := hmem
      exact Or.inl ((hset f hf hi).trans (hgood f hf hi).1)
    · rw [hsame i fun f hf he => hmem ⟨f, hf, he⟩, hmulti0 i h0]
      exact Or.inr ⟨rfl, ((hall i hi (Or.inl h0)).resolve_left hmem).2⟩
  · exact ⟨_, rfl⟩

/-- The values as the request packs them: without a key of its own, its first field is 0. -/
def packedVals (t : KeyTask) (vals : List DataValue) : List DataValue :=
  match t.key with
  | some _ => vals
  | none => vals.set 0 (.word 0)

theorem keyInRange_packedVals (hint : t.tdef.IntKey) (hrange : KeyInRange t.tdef vals) :
    KeyInRange t.tdef (t.packedVals vals) := by
  unfold packedVals
  cases t.key with
  | some key => exact hrange
  | none =>
    refine ⟨by rw [List.length_set, hrange.length], fun _ i hi => ?_, fun h => absurd h (not_textKey_of_intKey hint)⟩
    by_cases h0 : i = 0
    · subst h0
      have hlen := hrange.length
      have h1 := hint.1
      refine ⟨0, ?_, ?_⟩
      · rw [List.getD_eq_getElem?_getD, List.getElem?_set_self (by omega), Option.getD_some]
      · exact inField_zero (hint.2 0 hi).1 _
    · obtain ⟨w, hw, hin⟩ := hrange.int hint i hi
      refine ⟨w, ?_, hin⟩
      rw [List.getD_eq_getElem?_getD, List.getElem?_set_ne (Ne.symm h0), ← List.getD_eq_getElem?_getD, hw]

theorem storeLoop_congr {tdef : TableDef} (vals vals' : List DataValue) : ∀ (is : List Nat) (packKey : List UInt8),
    (∀ i ∈ is, keyWord (vals.getD i .unset) = keyWord (vals'.getD i .unset)) →
    storeLoop tdef vals is packKey = storeLoop tdef vals' is packKey
  | [], _, _ => rfl
  | i :: is, packKey, h => by
    rw [storeLoop, storeLoop, h i (List.mem_cons_self ..)]
    split
    · rfl
    · exact storeLoop_congr vals vals' is _ fun j hj => h j (List.mem_cons_of_mem _ hj)

theorem valueBytes_zero (size : Nat) : valueBytes 0 size = List.replicate size 0 := by
  rw [valueBytes, List.eq_replicate_iff]
  refine ⟨by simp, fun b hb => ?_⟩
  obtain ⟨i, -, rfl⟩ := List.mem_map.mp hb
  simp

theorem Carries.singleIntKey (hcarries : t.Carries vals) (hlaid : t.tdef.LaidOut) (hint : t.tdef.IntKey)
    (hfits : KeyFits t.tdef vals) (hrange : KeyInRange t.tdef vals) :
    t.buildSingleIntKey = .ok (valueBytes (keyWord ((t.packedVals vals).getD 0 .unset)) (t.tdef.fieldSize 0) ++
      List.replicate (t.tdef.keyOffset t.tdef.keyFields - t.tdef.fieldSize 0) 0) := by
  have hpos := hint.1
  have hformat := (hlaid.keyFormat_eq hint (hfits.1 hint)).1
  have hfirst := t.tdef.keyOffset_mono hpos
  rw [TableDef.keyOffset_one] at hfirst
  have hsplit : List.replicate t.tdef.keyFormat (0 : UInt8) = List.replicate (t.tdef.fieldSize 0) 0 ++
      List.replicate (t.tdef.keyOffset t.tdef.keyFields - t.tdef.fieldSize 0) 0 := by
    rw [List.replicate_append_replicate, hformat]
    congr 1
    omega
  rw [buildSingleIntKey, hsplit]
  cases hkey : t.key with
  | some key =>
    have hstore := hrange.storeValue hint hpos (List.replicate (t.tdef.fieldSize 0) 0 ++
      List.replicate (t.tdef.keyOffset t.tdef.keyFields - t.tdef.fieldSize 0) 0) 0
    rw [packedVals, hkey, hcarries.key key hkey]
    dsimp only
    rw [hstore, writeBytes, length_valueBytes, List.take_zero, List.nil_append, Nat.zero_add,
      List.drop_left' (List.length_replicate)]
  | none =>
    obtain ⟨⟨hinsert, -, hassign⟩, -⟩ := hcarries.assigned hint hkey
    have hlen := hrange.length
    rw [packedVals, hkey]
    dsimp only
    rw [if_pos ⟨hassign, hinsert⟩, List.getD_eq_getElem?_getD, List.getElem?_set_self (by omega), Option.getD_some]
    have hword : keyWord (.word 0) = 0 := rfl
    rw [hword, valueBytes_zero]

theorem Carries.buildPackedKey_int (misread : BitVec 64 → List UInt8) (hcarries : t.Carries vals) (hlaid : t.tdef.LaidOut)
    (hint : t.tdef.IntKey) (hfits : KeyFits t.tdef vals) (hrange : KeyInRange t.tdef vals)
    (h31 : t.tdef.keyFields ≤ 31 ∨ t.flagMultiKeyVal = true) :
    t.buildPackedKey misread = .ok (keyImage t.tdef (t.packedVals vals)) := by
  have hrange' := keyInRange_packedVals hint hrange
  have hpos := hint.1
  have hsum := hfits.1 hint
  have hsingle := hcarries.singleIntKey hlaid hint hfits hrange
  have hone := t.tdef.keyOffset_one
  rw [(keyImage_int hint hrange').2, buildPackedKey, if_neg (hlaid.keyFormat_eq hint hsum).2]
  split
  · next hk =>
    rw [hsingle, hk, hone, Nat.sub_self, packInts, packInts, List.replicate_zero]
  · next hk =>
    obtain ⟨multiKey, hmulti, hvals⟩ : ∃ multiKey,
        (if t.flagMultiKeyVal then .ok t.multiKey else t.buildMultiKeyValues) = Except.ok multiKey ∧
        ∀ i < t.tdef.keyFields, i ≠ 0 →
          keyWord (multiKey.getD i .unset) = keyWord ((t.packedVals vals).getD i .unset) := by
      have hrest : ∀ i ≠ 0, (t.packedVals vals).getD i .unset = vals.getD i .unset := by
        intro i h0
        unfold packedVals
        split
        · rfl
        · rw [List.getD_eq_getElem?_getD, List.getElem?_set_ne (Ne.symm h0), ← List.getD_eq_getElem?_getD]
      by_cases hbatch : t.flagMultiKeyVal = true
      · refine ⟨t.multiKey, if_pos hbatch, fun i _ h0 => ?_⟩
        rw [(hcarries.batch hbatch).2 hk, hrest i h0]
      · have hfields := hcarries.multiKeyValues hint (Bool.eq_false_iff.mpr hbatch) hk
        rw [if_pos (h31.resolve_right hbatch)] at hfields
        obtain ⟨multiKey, hbuild, hvals⟩ := hfields
        refine ⟨multiKey, (if_neg hbatch).trans hbuild, fun i hi h0 => ?_⟩
        rw [hrest i h0]
        rcases hvals i hi h0 with h | ⟨h, h'⟩
        · rw [h]
        · rw [h, h']
          rfl
    have hlen := @packInts_length t.tdef (t.packedVals vals) (t.tdef.keyFields - 1) 1
    rw [Nat.add_sub_cancel' hpos, hone] at hlen
    have hloop := storeLoop_int hlaid hint hsum hrange' (t.tdef.keyFields - 1) 1
      (valueBytes (keyWord ((t.packedVals vals).getD 0 .unset)) (t.tdef.fieldSize 0))
      (List.replicate (t.tdef.keyOffset t.tdef.keyFields - t.tdef.fieldSize 0) 0) (by omega)
      (by rw [length_valueBytes, hone]) (by rw [List.length_replicate]; omega)
    rw [List.drop_eq_nil_of_le (by rw [List.length_replicate]; omega), List.append_nil] at hloop
    have hall : packInts t.tdef (t.packedVals vals) t.tdef.keyFields 0 =
        valueBytes (keyWord ((t.packedVals vals).getD 0 .unset)) (t.tdef.fieldSize 0) ++
          packInts t.tdef (t.packedVals vals) (t.tdef.keyFields - 1) 1 := by
      conv => lhs; rw [← Nat.sub_add_cancel hpos]
      rw [packInts]
    rw [buildMultiIntKey, hsingle]
    dsimp only
    rw [hmulti]
    dsimp only
    rw [storeLoop_congr multiKey (t.packedVals vals) _ _ (fun i hi => by
      rw [List.mem_range'_1] at hi
      exact hvals i (by omega) (by omega)), hloop, hall]

theorem Carries.buildPackedKey_text (misread : BitVec 64 → List UInt8) (hcarries : t.Carries vals) (hlaid : t.tdef.LaidOut)
    (htext : t.tdef.TextKey) (hrange : KeyInRange t.tdef vals) :
    t.buildPackedKey misread = .ok (keyImage t.tdef vals) := by
  obtain ⟨hword, hsize⟩ := hrange.text htext
  have hkey : keyText misread (t.key.getD (.bin [])) = (vals.getD 0 .unset).str := by
    cases hkey : t.key with
    | none =>
      rw [hcarries.text htext hkey]
      rfl
    | some v =>
      rw [Option.getD_some, ← hcarries.key v hkey]
      have hv := hcarries.key v hkey
      cases v with
      | word w => exact absurd hv.symm (hword w)
      | unset => rfl
      | bin bytes => rfl
  rw [buildPackedKey, if_pos (hlaid.text htext), buildSingleStringKey, hkey, if_neg (Nat.not_lt.mpr hsize),
    (keyImage_text hword).2]

theorem Carries.buildPackedKey_wide (misread : BitVec 64 → List UInt8) (hcarries : t.Carries vals)
    (hlaid : t.tdef.LaidOut) (hint : t.tdef.IntKey) (hfits : KeyFits t.tdef vals) (hrange : KeyInRange t.tdef vals)
    (hwide : ¬ t.tdef.keyFields ≤ 31) (hbatch : t.flagMultiKeyVal = false) :
    ∃ e, t.buildPackedKey misread = .error e := by
  have hne := (hlaid.keyFormat_eq hint (hfits.1 hint)).2
  have hk : t.tdef.keyFields ≠ 1 := by omega
  have hfields := hcarries.multiKeyValues hint hbatch hk
  rw [if_neg hwide] at hfields
  obtain ⟨e, he⟩ := hfields
  have hnot : ¬ t.flagMultiKeyVal = true := by rw [hbatch]; exact Bool.false_ne_true
  refine ⟨e, ?_⟩
  rw [buildPackedKey, if_neg hne, if_neg hk, buildMultiIntKey, hcarries.singleIntKey hlaid hint hfits hrange]
  dsimp only
  rw [if_neg hnot, he]

end Builders

/-- What the request's own builders need: fewer than 32 fields outside a batch, and 0 in a first field that is assigned. -/
def Buildable (t : KeyTask) (vals : List DataValue) : Prop :=
  (t.tdef.keyFields ≤ 31 ∨ t.flagMultiKeyVal = true) ∧ (t.tdef.IntKey → t.key = none → vals.getD 0 .unset = .word 0)

theorem agrees_iff {t : KeyTask} {vals : List DataValue} (misread : BitVec 64 → List UInt8) (hlaid : t.tdef.LaidOut)
    (hkey : t.tdef.IntKey ∨ t.tdef.TextKey) (hrange : KeyInRange t.tdef vals) (hcarries : t.Carries vals)
    (hfits : KeyFits t.tdef vals) : t.Agrees misread vals ↔ t.Buildable vals := by
  obtain ⟨hlen, hbuild, hback⟩ := hfits.image misread hlaid hkey hrange
  have hpacked : ∀ packKey : List UInt8,
      packedBytes t.tdef (keyImage t.tdef vals ++ packKey.drop (keyRoom t.tdef vals)) = keyImage t.tdef vals := by
    intro packKey
    rw [packedBytes, (hback _).1, List.take_left' hlen]
  have hsame : t.buildPackedKey misread = .ok (keyImage t.tdef vals) → t.Agrees misread vals :=
    fun h => ⟨_, h, fun packKey hroom => ⟨_, hbuild packKey hroom, hpacked packKey⟩⟩
  rcases hkey with hint | htext
  · have hlenvals := hrange.length
    have hpos := hint.1
    constructor
    · rintro ⟨packedKey, htask, hstatic⟩
      have h31 : t.tdef.keyFields ≤ 31 ∨ t.flagMultiKeyVal = true := by
        by_contra hnot
        rw [not_or] at hnot
        obtain ⟨e, he⟩ := hcarries.buildPackedKey_wide misread hlaid hint hfits hrange hnot.1
          (Bool.eq_false_iff.mpr hnot.2)
        rw [he] at htask
        cases htask
      refine ⟨h31, fun _ hnone => ?_⟩
      -- the request's bytes are read back as its values, with 0 in the first field
      obtain ⟨buf, hbuf, himage⟩ := hstatic (List.replicate (keyRoom t.tdef vals) 0) (by rw [List.length_replicate])
      obtain rfl := Except.ok.inj ((hbuild _ (by rw [List.length_replicate])).symm.trans hbuf)
      rw [hpacked] at himage
      obtain rfl := Except.ok.inj ((hcarries.buildPackedKey_int misread hlaid hint hfits hrange h31).symm.trans htask)
      have hrange' := keyInRange_packedVals hint hrange
      have hfits' : KeyFits t.tdef (t.packedVals vals) := ⟨hfits.1, fun h => absurd h (not_textKey_of_intKey hint)⟩
      have hvals : t.packedVals vals = vals := by
        calc t.packedVals vals = unpackKey t.tdef (keyImage t.tdef (t.packedVals vals) ++ []) := by
              rw [((hfits'.image misread hlaid (Or.inl hint) hrange').2.2 []).2, normalKey_int hint hrange']
          _ = unpackKey t.tdef (keyImage t.tdef vals ++ []) := by rw [himage]
          _ = vals := by rw [(hback []).2, normalKey_int hint hrange]
      rw [packedVals, hnone] at hvals
      rw [← hvals, List.getD_eq_getElem?_getD, List.getElem?_set_self (by omega), Option.getD_some]
    · rintro ⟨h31, hzero⟩
      apply hsame
      rw [hcarries.buildPackedKey_int misread hlaid hint hfits hrange h31, packedVals]
      cases hnone : t.key with
      | some v => rfl
      | none =>
        have hset : vals.set 0 (.word 0) = vals := by
          have h0 := hzero hint hnone
          cases vals with
          | nil => rfl
          | cons v vals => exact congrArg (· :: vals) h0.symm
        dsimp only
        rw [hset]
  · refine ⟨fun _ => ⟨Or.inl (by have := htext.1; omega), fun hint => absurd htext (not_textKey_of_intKey hint)⟩,
      fun _ => hsame ?_⟩
    exact hcarries.buildPackedKey_text misread hlaid htext hrange

end KeyTask

/-! ## The assigned field -/

section Assigned

open TaskPackedKey

variable {tdef : TableDef} {vals : List DataValue}

theorem packInts_add : ∀ a b i, packInts tdef vals (a + b) i = packInts tdef vals a i ++ packInts tdef vals b (i + a)
  | 0, b, i => by rw [Nat.zero_add, Nat.add_zero, packInts, List.nil_append]
  | a + 1, b, i => by
    rw [Nat.add_right_comm, packInts, packInts, packInts_add a b (i + 1), List.append_assoc, Nat.add_assoc i, Nat.add_comm 1]

theorem packInts_congr {vals' : List DataValue} : ∀ n i, (∀ j, i ≤ j → j < i + n → vals.getD j .unset = vals'.getD j .unset) →
    packInts tdef vals n i = packInts tdef vals' n i
  | 0, _, _ => rfl
  | n + 1, i, h => by
    rw [packInts, packInts, h i (Nat.le_refl _) (by omega), packInts_congr n (i + 1) fun j h1 h2 => h j (by omega) (by omega)]

/-- **The packed key follows the assigned value**: it stays the bytes of the key, now with the value in the field. -/
theorem updatePackedKey_image {t : TaskRequest} (hlaid : t.tdef.LaidOut) (hint : t.tdef.IntKey)
    (hfits : t.tdef.keyOffset t.tdef.keyFields ≤ 255) (hrange : KeyInRange t.tdef vals)
    (hkey : t.packedKey = keyImage t.tdef vals) {i : Nat} (hassign : t.tdef.hasAutoInc = i) (hi : i < t.tdef.keyFields)
    {val : UInt64} (hval : InField (t.tdef.fieldType i) (t.tdef.fieldSize i) (fieldInt (t.tdef.fieldType i) val.toBitVec)) :
    (t.updatePackedKey val).packedKey = keyImage t.tdef (vals.set i (.word val.toBitVec)) := by
  have hlenvals := hrange.length
  have hget : ∀ j, (vals.set i (.word val.toBitVec)).getD j .unset =
      if j = i then .word val.toBitVec else vals.getD j .unset := by
    intro j
    rw [List.getD_eq_getElem?_getD]
    by_cases hj : j = i
    · rw [if_pos hj, hj, List.getElem?_set_self (by omega), Option.getD_some]
    · rw [if_neg hj, List.getElem?_set_ne (Ne.symm hj), ← List.getD_eq_getElem?_getD]
  have hrange' : KeyInRange t.tdef (vals.set i (.word val.toBitVec)) := by
    refine ⟨by rw [List.length_set, hlenvals], fun _ j hj => ?_, fun htext => absurd htext (not_textKey_of_intKey hint)⟩
    by_cases hji : j = i
    · exact ⟨val.toBitVec, by rw [hget, if_pos hji], by rw [hji]; exact hval⟩
    · obtain ⟨w, hw, hin⟩ := hrange.int hint j hj
      exact ⟨w, by rw [hget, if_neg hji, hw], hin⟩
  -- the bytes in front of the field and those behind it stay
  have hsplit : ∀ vals : List DataValue, packInts t.tdef vals t.tdef.keyFields 0 =
      packInts t.tdef vals i 0 ++ (valueBytes (keyWord (vals.getD i .unset)) (t.tdef.fieldSize i) ++
        packInts t.tdef vals (t.tdef.keyFields - i - 1) (i + 1)) := by
    intro vals
    have hsum : t.tdef.keyFields = i + (t.tdef.keyFields - i - 1 + 1) := by omega
    conv => lhs; rw [hsum]
    rw [packInts_add, Nat.zero_add, packInts]
  have hoffset : t.tdef.fieldOffset i = t.tdef.keyOffset i := by
    have hle := t.tdef.keyOffset_mono (Nat.le_of_lt hi)
    rw [hlaid.offset hint i hi, Nat.mod_eq_of_lt (by omega)]
  have hfront : (packInts t.tdef vals i 0).length = t.tdef.keyOffset i := by
    have h := @packInts_length t.tdef vals i 0
    rw [Nat.zero_add] at h
    exact h
  have hstore := hrange'.storeValue hint hi t.packedKey (t.tdef.fieldOffset i)
  have hword : keyWord (.word val.toBitVec) = val := UInt64.toBitVec_inj.mp (keyWord_word _)
  rw [hget, if_pos rfl, hword, hkey, (keyImage_int hint hrange).2, hsplit vals, hoffset,
    writeBytes_append hfront (by rw [length_valueBytes, length_valueBytes])] at hstore
  have hbefore : packInts t.tdef (vals.set i (.word val.toBitVec)) i 0 = packInts t.tdef vals i 0 :=
    packInts_congr i 0 fun j _ hj => by rw [hget, if_neg (by omega)]
  have hbehind : packInts t.tdef (vals.set i (.word val.toBitVec)) (t.tdef.keyFields - i - 1) (i + 1) =
      packInts t.tdef vals (t.tdef.keyFields - i - 1) (i + 1) :=
    packInts_congr _ (i + 1) fun j hj _ => by rw [hget, if_neg (by omega)]
  have hid : (0 : Int) ≤ t.tdef.hasAutoInc ∧ t.tdef.hasAutoInc < t.tdef.keyFields := by omega
  rw [(keyImage_int hint hrange').2, hsplit, hget, if_pos rfl, hword, hbefore, hbehind]
  unfold TaskRequest.updatePackedKey
  dsimp only
  rw [if_pos hid, hassign, Int.toNat_natCast, hkey, (keyImage_int hint hrange).2, hsplit vals, hoffset, hstore]

end Assigned

/-! ## Packed keys -/

section PackedKeys

variable (misread : BitVec 64 → List UInt8)

/-- Distinct keys have distinct bytes, each in a buffer with room for it. -/
def BytesTell (tdef : TableDef) (vals vals' : List DataValue) : Prop :=
  ∀ packKey packKey' buf buf' : List UInt8, keyRoom tdef vals ≤ packKey.length → keyRoom tdef vals' ≤ packKey'.length →
    TaskPackedKey.buildPackedKey tdef misread vals packKey = .ok buf →
    TaskPackedKey.buildPackedKey tdef misread vals' packKey' = .ok buf' →
    normalKey tdef vals ≠ normalKey tdef vals' → packedBytes tdef buf ≠ packedBytes tdef buf'

/-- **Packed keys**: two keys in range come back from their bytes, have distinct bytes unless they are one key, and a request
for one has its bytes, exactly when both fit into the 255 bytes that a format and a length can say and the request's
builders can build it. -/
theorem packedKeys {tdef : TableDef} {maxKeySize n : Nat} {vals vals' : List DataValue} {t : KeyTask}
    (hset : tdef.setKeyFields maxKeySize n = some t.tdef) (hkey : t.tdef.IntKey ∨ t.tdef.TextKey)
    (hrange : KeyInRange t.tdef vals) (hrange' : KeyInRange t.tdef vals') (hcarries : t.Carries vals) :
    RoundTrips misread t.tdef vals ∧ RoundTrips misread t.tdef vals' ∧ BytesTell misread t.tdef vals vals' ∧
        t.Agrees misread vals ↔
      KeyFits t.tdef vals ∧ KeyFits t.tdef vals' ∧ t.Buildable vals := by
  have hlaid := TableDef.setKeyFields_laidOut hset
  rw [roundTrips_iff misread hlaid hkey hrange, roundTrips_iff misread hlaid hkey hrange']
  constructor
  · rintro ⟨hfits, hfits', -, hagrees⟩
    exact ⟨hfits, hfits', (KeyTask.agrees_iff misread hlaid hkey hrange hcarries hfits).mp hagrees⟩
  · rintro ⟨hfits, hfits', hbuildable⟩
    refine ⟨hfits, hfits', ?_, (KeyTask.agrees_iff misread hlaid hkey hrange hcarries hfits).mpr hbuildable⟩
    intro packKey packKey' buf buf' hroom hroom' hbuild hbuild' hne hsame
    exact hne (normalKey_eq_of_packedBytes misread hlaid hkey hrange hrange' hfits hfits' hroom hroom' hbuild hbuild' hsame)

/-- A text of up to 300 bytes as the key, in either case. -/
def longTextKey : TableDef where
  fieldList := [{ fieldName := [], fieldType := .string, fieldSize := 300 }]
  keyFields := 1
  keyFormat := 0

def longText : List DataValue := [.bin (List.replicate 256 0x61)]

/-- The length of a text of 256 bytes is 0 in its key. -/
theorem packedKeys_longText :
    longTextKey.setKeyFields 0 1 = some longTextKey ∧ longTextKey.TextKey ∧ KeyInRange longTextKey longText ∧
      ∀ misread, ¬ RoundTrips misread longTextKey longText := by
  have htext : longTextKey.TextKey := ⟨rfl, Or.inl rfl, by decide⟩
  have hset : longTextKey.setKeyFields 0 1 = some longTextKey := by decide
  have hlen : (longText.getD 0 .unset).str.length = 256 := List.length_replicate
  have hword : ∀ w, longText.getD 0 .unset ≠ .word w := fun w => DataValue.noConfusion
  have hrange : KeyInRange longTextKey longText :=
    ⟨rfl, fun h => absurd htext (not_textKey_of_intKey h), fun _ => ⟨hword, by rw [hlen]; decide⟩⟩
  refine ⟨hset, htext, hrange, fun misread htrip => ?_⟩
  have hfits := (roundTrips_iff misread (TableDef.setKeyFields_laidOut hset) (Or.inr htext) hrange).mp htrip
  have hle := hfits.2 htext
  rw [hlen] at hle
  exact absurd hle (by decide)

def pairKey : TableDef where
  fieldList := [{ fieldName := [], fieldType := .unsigned, fieldSize := 4 },
    { fieldName := [], fieldType := .signed, fieldSize := 2, offset := 4 }]
  keyFields := 2
  keyFormat := 6

def pairInsert : KeyTask where
  tdef := pairKey
  requestCode := .insert
  key := some (.word 7)
  updateInfo := some [⟨1, 1, FieldType.signed.code, .word (-1)⟩]

theorem packedKeys_pair :
    RoundTrips (fun _ => []) pairKey [.word 7, .word (-1)] ∧ RoundTrips (fun _ => []) pairKey [.word 7, .word 1] ∧
      BytesTell (fun _ => []) pairKey [.word 7, .word (-1)] [.word 7, .word 1] ∧
      pairInsert.Agrees (fun _ => []) [.word 7, .word (-1)] := by
  have hint : pairKey.IntKey := ⟨by decide, by decide⟩
  have htext : ¬ pairKey.TextKey := not_textKey_of_intKey hint
  have hrange : ∀ w : BitVec 64, InField .signed 2 (fieldInt .signed w) → KeyInRange pairKey [.word 7, .word w] := by
    intro w hw
    refine ⟨rfl, fun _ i hi => ?_, fun h => absurd h htext⟩
    match i, hi with
    | 0, _ => exact ⟨7, rfl, by decide, by decide⟩
    | 1, _ => exact ⟨w, rfl, hw⟩
  have hcarries : pairInsert.Carries [.word 7, .word (-1)] := by
    refine ⟨by decide, fun h => absurd h htext, fun _ h => absurd h (by decide), fun h => absurd h (by decide), fun _ _ => ?_⟩
    refine ⟨_, rfl, by decide, by decide, fun i hi hne => ?_⟩
    match i, hi, hne with
    | 0, _, h => exact absurd h (by decide)
    | 1, _, _ => exact Or.inl ⟨_, List.mem_singleton_self _, rfl⟩
  have hfits : ∀ w : BitVec 64, KeyFits pairKey [.word 7, .word w] := fun w => ⟨fun _ => by decide, fun h => absurd h htext⟩
  have hset : pairKey.setKeyFields 0 2 = some pairInsert.tdef := by decide
  exact (packedKeys (fun _ => []) hset (Or.inl hint) (hrange (-1) ⟨by decide, by decide⟩) (hrange 1 ⟨by decide, by decide⟩)
    hcarries).mpr ⟨hfits _, hfits _, Or.inl (by decide), fun _ h => absurd h (by decide)⟩

/-- The pair -1 behind the assigned field, whose value 7 comes from the database. -/
def autoPair : TaskRequest where
  tdef := { pairKey with hasAutoInc := 0 }
  requestCode := .insert
  packedKey := [0, 0, 0, 0, 255, 255]

theorem updatePackedKey_image_pair : (autoPair.updatePackedKey 7).packedKey = [7, 0, 0, 0, 255, 255] := by
  have hint : autoPair.tdef.IntKey := ⟨by decide, by decide⟩
  have htext : ¬ autoPair.tdef.TextKey := not_textKey_of_intKey hint
  have hrange : KeyInRange autoPair.tdef [.word 0, .word (-1)] := by
    refine ⟨rfl, fun _ i hi => ?_, fun h => absurd h htext⟩
    obtain rfl | rfl := Nat.le_one_iff_eq_zero_or_eq_one.mp (Nat.le_of_lt_succ hi)
    · exact ⟨0, rfl, by decide, by decide⟩
    · exact ⟨-1, rfl, by decide, by decide⟩
  exact updatePackedKey_image ⟨by decide, fun _ => by decide, fun _ => by decide, fun h => absurd h htext⟩ hint (by decide)
    hrange rfl rfl (by decide) ⟨by decide, by decide⟩

end PackedKeys

end Dtc
