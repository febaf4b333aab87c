import DtcServer.RequestDecode
import DtcServer.SectionCodec
/-!
# FieldListCodec — field sets and field values as they are written (`EncodeFieldSet`, `EncodeFieldValue`), and read back

Both are a count of one byte and the entries.  A field is written as its id; the id 0 has an empty name behind it, for 0
alone announces a name.  The reader looks each entry's operation and type up in its tables.
-/
namespace Dtc

open Decoding

/-! ## Field sets, as they are built -/

namespace CFieldSet

variable (f : CFieldSet)

def ofSize (n : Nat) : CFieldSet where
  maxFields := UInt8.ofNat (min n 255)
  room := min n 255
  ids := []
  fieldMask := fun _ => false
  max_le := toNat_min_le n

def fieldPresent (id : UInt8) : Bool := if id < 255 then f.fieldMask id else false

def addField (id : UInt8) : CFieldSet :=
  if f.maxFields.toNat ≤ f.ids.length then f
  else { f with ids := f.ids ++ [id], fieldMask := fun i => f.fieldMask i || i == id }

/-- `Copy`, of the ids that the names of a request have. -/
def copy (fids : List UInt8) : CFieldSet :=
  fids.foldl (fun f id => if id < 255 ∧ f.fieldPresent id = false then f.addField id else f) f

/-- **It is a set**: no id twice, and the mask is that of the ids. -/
structure IsSet : Prop where
  nodup : f.ids.Nodup
  mask : ∀ id, f.fieldMask id = true ↔ id ∈ f.ids
  count : f.ids.length ≤ 255

variable {f}

theorem ofSize_isSet (n : Nat) : (ofSize n).IsSet := ⟨List.nodup_nil, fun _ => by simp [ofSize], Nat.zero_le _⟩

theorem clean_isSet : f.clean.IsSet := ⟨List.nodup_nil, fun _ => by simp [clean], Nat.zero_le _⟩

theorem IsSet.addField (h : f.IsSet) {id : UInt8} (hlt : id < 255) (hid : f.fieldPresent id = false) :
    (f.addField id).IsSet := by
  unfold CFieldSet.addField
  split
  · exact h
  next hroom =>
  rw [fieldPresent, if_pos hlt] at hid
  have hnot : id ∉ f.ids := fun hmem => by simp [(h.mask id).mpr hmem] at hid
  refine ⟨?_, fun i => ?_, ?_⟩
  · refine List.nodup_append.mpr ⟨h.nodup, List.nodup_singleton id, fun a ha b hb => ?_⟩
    rw [List.mem_singleton.mp hb]
    rintro rfl
    exact hnot ha
  · rw [Bool.or_eq_true, h.mask, beq_iff_eq, List.mem_append, List.mem_singleton]
  · have hmax := f.maxFields.toNat_lt
    rw [List.length_append, List.length_singleton]
    omega

theorem IsSet.copy (h : f.IsSet) (fids : List UInt8) : (f.copy fids).IsSet := by
  induction fids generalizing f with
  | nil => exact h
  | cons id fids ih =>
    have hstep : (if id < 255 ∧ f.fieldPresent id = false then f.addField id else f).IsSet := by
      split
      · next hid => exact h.addField hid.1 hid.2
      · exact h
    exact ih hstep

theorem IsSet.length_eq_zero_iff (h : f.IsSet) : UInt8.ofNat f.ids.length = 0 ↔ f.ids = [] := by
  have hcount := h.count
  rw [← List.length_eq_zero_iff, ← UInt8.toNat_inj, toNat_ofNat_of_lt (by omega)]
  rfl

end CFieldSet

/-! ## What is written -/

def FieldType.ofCode : Nat → FieldType
  | 1 => .signed
  | 2 => .unsigned
  | 3 => .float
  | 4 => .string
  | 5 => .binary
  | _ => .none

theorem FieldType.code_ofCode {n : Nat} (h : n < totalType) : (FieldType.ofCode n).code = n := by
  unfold totalType at h
  interval_cases n <;> rfl

def encodeFieldId (id : UInt8) : List UInt8 := if id = 0 then [id, 0] else [id]

def encodeFieldSet (fs : CFieldSet) : List UInt8 :=
  if fs.ids.length = 0 then [] else UInt8.ofNat fs.ids.length :: fs.ids.flatMap encodeFieldId

def encodedBytesFieldSet (fs : CFieldSet) : Nat :=
  if fs.ids.length = 0 then 0
  else if fs.fieldPresent 0 then fs.ids.length + 2
  else fs.ids.length + 1

section Encode

variable (printFloat : BitVec 64 → List UInt8)

/-- A value of a type that is a number; nothing is written for a number that is no type. -/
def encodeTyped (v : DataValue) (type : Nat) : List UInt8 :=
  if totalType ≤ type then [] else encodeDataValue printFloat v (FieldType.ofCode type)

def encodedBytesTyped (v : DataValue) (type : Nat) : Nat :=
  if totalType ≤ type then 0 else encodedBytesDataValue printFloat v (FieldType.ofCode type)

/-- An entry as it is written, the operation and the type in one byte. -/
def encodeEntry (e : SFieldValue) : List UInt8 :=
  UInt8.ofNat (e.oper * 16 + e.type) :: (encodeFieldId e.id ++ encodeTyped printFloat e.val e.type)

def encodeFieldValue (fv : CFieldValue) : List UInt8 :=
  if fv.fields.length = 0 then [] else UInt8.ofNat fv.fields.length :: fv.fields.flatMap (encodeEntry printFloat)

def encodedBytesFieldValue (fv : CFieldValue) : Nat :=
  if fv.fields.length = 0 then 0
  else 1 + (fv.fields.map fun e => (if e.id = 0 then 1 else 0) + (2 + encodedBytesTyped printFloat e.val e.type)).sum

theorem counted_eq_nil {α : Type} (l : List α) (num : UInt8) (entries : List UInt8) :
    (if l.length = 0 then [] else num :: entries) = [] ↔ l = [] := by
  rw [← List.length_eq_zero_iff (l := l)]
  split
  · next h => exact ⟨fun _ => h, fun _ => rfl⟩
  · next h => exact ⟨fun hnil => absurd hnil (List.cons_ne_nil _ _), fun hnil => absurd hnil h⟩

theorem encodeTyped_length (v : DataValue) (type : Nat) :
    (encodeTyped printFloat v type).length = encodedBytesTyped printFloat v type := by
  unfold encodeTyped encodedBytesTyped
  split
  · rfl
  · exact encodeDataValue_length v _

theorem encodeFieldId_length (id : UInt8) : (encodeFieldId id).length = (if id = 0 then 1 else 0) + 1 := by
  unfold encodeFieldId
  split <;> rfl

theorem encodeFieldValue_length (fv : CFieldValue) :
    (encodeFieldValue printFloat fv).length = encodedBytesFieldValue printFloat fv := by
  unfold encodeFieldValue encodedBytesFieldValue
  split
  · rfl
  rw [List.length_cons, List.length_flatMap, Nat.add_comm]
  congr 2
  apply List.map_congr_left
  intro e _
  rw [encodeEntry, List.length_cons, List.length_append, encodeFieldId_length, encodeTyped_length]
  omega

theorem encodeFieldIds_length {ids : List UInt8} (h : ids.Nodup) :
    (ids.flatMap encodeFieldId).length = ids.length + if 0 ∈ ids then 1 else 0 := by
  induction ids with
  | nil => rfl
  | cons id ids ih =>
    obtain ⟨hnot, hnodup⟩ := List.nodup_cons.mp h
    rw [List.flatMap_cons, List.length_append, ih hnodup, encodeFieldId_length, List.length_cons]
    by_cases hid : id = 0
    · subst hid
      simp [hnot]
      omega
    · have hmem : 0 ∈ id :: ids ↔ 0 ∈ ids := by simp [Ne.symm hid]
      rw [if_neg hid, if_congr hmem rfl rfl]
      omega

theorem encodeFieldSet_length {fs : CFieldSet} (h : fs.IsSet) : (encodeFieldSet fs).length = encodedBytesFieldSet fs := by
  unfold encodeFieldSet encodedBytesFieldSet
  split
  · rfl
  have hpresent : fs.fieldPresent 0 = true ↔ 0 ∈ fs.ids := by
    rw [CFieldSet.fieldPresent, if_pos (by decide), h.mask]
  rw [List.length_cons, encodeFieldIds_length h.nodup, ← if_congr hpresent rfl rfl]
  split <;> omega

end Encode

/-! ## Field sets are read back -/

namespace DecodeTask

variable {t : DecodeTask}

theorem decodeFieldId_written (id : UInt8) (rest : List UInt8) :
    t.decodeFieldId (encodeFieldId id ++ rest) = .ok (id, false, rest) := by
  unfold encodeFieldId decodeFieldId
  split
  · next hid =>
    subst hid
    rfl
  · next hid => simp [hid]

theorem fieldSetLoop_written : ∀ (ids idtab : List UInt8) (mask : UInt8 → Bool), ids.Nodup →
    (∀ id ∈ ids, mask id = false) →
    t.fieldSetLoop ids.length (ids.flatMap encodeFieldId) idtab mask false = .ok (idtab ++ ids, false, [])
  | [], idtab, mask, _, _ => by simp [fieldSetLoop]
  | id :: ids, idtab, mask, hnodup, hmask => by
    obtain ⟨hnot, hnodup'⟩ := List.nodup_cons.mp hnodup
    rw [List.length_cons, List.flatMap_cons, fieldSetLoop, decodeFieldId_written, ok_bind]
    dsimp only
    rw [hmask id (List.mem_cons_self ..), if_neg Bool.false_ne_true, Bool.or_false, fieldSetLoop_written ids _ _ hnodup' ?_,
      List.append_assoc, List.singleton_append]
    intro i hi
    have hne : i ≠ id := fun h => hnot (h ▸ hi)
    simp [hmask i (List.mem_cons_of_mem _ hi), hne]

theorem decodeFieldSet_written {fs : CFieldSet} (hset : fs.IsSet) (hids : fs.ids ≠ []) :
    ∃ f, t.decodeFieldSet (encodeFieldSet fs) = .ok (some f, false) ∧ f.ids = fs.ids := by
  have hcount := hset.count
  have hlen : fs.ids.length ≠ 0 := fun h => hids (List.length_eq_zero_iff.mp h)
  have hnum : UInt8.ofNat fs.ids.length ≠ 0 := fun h => hids (hset.length_eq_zero_iff.mp h)
  have htoNat : (UInt8.ofNat fs.ids.length).toNat = fs.ids.length := toNat_ofNat_of_lt (by omega)
  have htake : fs.ids.take 255 = fs.ids := List.take_of_length_le hcount
  rw [encodeFieldSet, if_neg hlen, decodeFieldSet, if_neg (List.cons_ne_nil _ _), next_cons, ok_bind]
  dsimp only
  rw [if_neg hnum, htoNat, fieldSetLoop_written fs.ids [] _ hset.nodup (fun _ _ => rfl), ok_bind]
  dsimp only
  rw [if_neg (fun h => h rfl)]
  cases t.fieldList with
  | none => exact ⟨_, rfl, htake⟩
  | some g => exact ⟨_, rfl, htake⟩

theorem fieldSetLoop_nodup : ∀ (n : Nat) (bin idtab : List UInt8) (mask : UInt8 → Bool) (need : Bool)
    (r : List UInt8 × Bool × List UInt8), idtab.Nodup → (∀ id, mask id = true ↔ id ∈ idtab) →
    t.fieldSetLoop n bin idtab mask need = .ok r → r.1.Nodup ∧ r.1.length ≤ idtab.length + n
  | 0, bin, idtab, mask, need, r, hnodup, _, h => by
    obtain rfl := Except.ok.inj h
    exact ⟨hnodup, Nat.le_refl _⟩
  | n + 1, bin, idtab, mask, need, r, hnodup, hmask, h => by
    rw [fieldSetLoop] at h
    cases hid : t.decodeFieldId bin with
    | error e =>
      rw [hid] at h
      cases h
    | ok a =>
      obtain ⟨id, nd, bin'⟩ := a
      rw [hid, ok_bind] at h
      dsimp only at h
      split at h
      · have ih := fieldSetLoop_nodup n bin' idtab mask need r hnodup hmask h
        exact ⟨ih.1, by omega⟩
      · next hnew =>
        have hnot : id ∉ idtab := fun hmem => hnew ((hmask id).mpr hmem)
        have hnodup' : (idtab ++ [id]).Nodup := by
          refine List.nodup_append.mpr ⟨hnodup, List.nodup_singleton id, fun a ha b hb => ?_⟩
          rw [List.mem_singleton.mp hb]
          rintro rfl
          exact hnot ha
        have ih := fieldSetLoop_nodup n bin' _ _ _ r hnodup' (fun i => ?_) h
        · rw [List.length_append, List.length_singleton] at ih
          exact ⟨ih.1, by omega⟩
        · rw [Bool.or_eq_true, hmask, beq_iff_eq, List.mem_append, List.mem_singleton]

theorem decodeFieldSet_isSet {bin : List UInt8} {f : CFieldSet} {need : Bool}
    (hclean : ∀ g, t.fieldList = some g → g = g.clean) (h : t.decodeFieldSet bin = .ok (some f, need)) : f.IsSet := by
  unfold decodeFieldSet at h
  split at h
  · cases h
  next hbin =>
  obtain ⟨num, bin', rfl⟩ := List.exists_cons_of_ne_nil hbin
  rw [next_cons, ok_bind] at h
  dsimp only at h
  split at h
  · obtain ⟨hf, -⟩ := Prod.mk.inj (Except.ok.inj h)
    rw [hclean f hf]
    exact CFieldSet.clean_isSet
  cases hloop : t.fieldSetLoop num.toNat bin' [] (fun _ => false) false with
  | error e =>
    rw [hloop] at h
    cases h
  | ok r =>
    obtain ⟨idtab, need', rest⟩ := r
    obtain ⟨hnodup, hlen⟩ := fieldSetLoop_nodup _ _ _ _ _ _ List.nodup_nil (fun id => by simp) hloop
    have hlt := num.toNat_lt
    have htake : idtab.take 255 = idtab := List.take_of_length_le (by simp at hlen; omega)
    rw [hloop, ok_bind] at h
    dsimp only at h
    split at h
    · cases h
    split at h
    · obtain ⟨hf, -⟩ := Prod.mk.inj (Except.ok.inj h)
      obtain rfl := Option.some.inj hf
      refine ⟨?_, fun id => ?_, ?_⟩
      · exact hnodup.sublist (List.take_sublist _ _)
      · simp [CFieldSet.make, CFieldSet.buildFieldMask]
      · exact List.length_take_le _ _
    · next g hg =>
      obtain ⟨hf, -⟩ := Prod.mk.inj (Except.ok.inj h)
      obtain rfl := Option.some.inj hf
      have hmask : ∀ id, (if g.maxFields.toNat < t.tableDef.tdef.numFields + 1 then
          g.realloc (t.tableDef.tdef.numFields + 1) else g).fieldMask id = false := by
        intro id
        have hg0 : g.fieldMask id = false := by
          rw [hclean g hg]
          rfl
        split <;> exact hg0
      refine ⟨?_, fun id => ?_, ?_⟩
      · exact hnodup.sublist (List.take_sublist _ _)
      · simp only [CFieldSet.set, CFieldSet.buildFieldMask, hmask, Bool.false_or, List.contains_iff_mem]
      · exact List.length_take_le _ _

/-! ## Field values are read back -/

/-- The operation, or the comparison, and the type of the value are ones that the tables have for the field. -/
def Accepts (t : DecodeTask) (mode : FieldValueMode) (e : SFieldValue) : Prop :=
  e.id.toNat ≤ t.tableDef.tdef.numFields ∧ e.type < totalType ∧
  match mode with
  | .condition =>
    e.oper < totalComparison ∧ ((CTask.validcomps.getD (t.tableDef.fieldTypeCode e.id.toNat) []).getD e.oper 0) ≠ 0 ∧
    (e.id.toNat < t.tableDef.tdef.keyFields → e.oper = 0) ∧
    (((CTask.validxtype.getD 0 []).getD (t.tableDef.fieldTypeCode e.id.toNat) []).getD e.type 0) ≠ 0
  | .insert =>
    e.oper = 0 ∧ (((CTask.validxtype.getD 0 []).getD (t.tableDef.fieldTypeCode e.id.toNat) []).getD e.type 0) ≠ 0
  | .update =>
    t.tableDef.isReadOnly e.id.toNat = false ∧ e.oper < totalOperation ∧
    (((CTask.validxtype.getD e.oper []).getD (t.tableDef.fieldTypeCode e.id.toNat) []).getD e.type 0) ≠ 0

theorem lookup_getD {α : Type} {table : List α} {i : Nat} (d : α) (h : i < table.length) :
    (lookup table i : Decoding Int α) = .ok (table.getD i d) := by
  rw [lookup, List.getElem?_eq_getElem h, List.getD_eq_getElem?_getD, List.getElem?_eq_getElem h]
  rfl

theorem fieldTypeCode_lt (id : Nat) : t.tableDef.fieldTypeCode id < 6 := by
  unfold CTableDefinition.fieldTypeCode
  cases t.tableDef.tdef.fieldType id <;> decide

theorem lookup_validxtype {op ft vt : Nat} (hop : op < totalOperation) (hft : ft < 6) (hvt : vt < totalType) :
    (do
      let types ← lookup CTask.validxtype op
      let row ← lookup types ft
      let valid ← lookup row vt
      if valid = 0 then fail (-ecBadOperator) else pure () : Decoding Int Unit) =
      if ((CTask.validxtype.getD op []).getD ft []).getD vt 0 = 0 then fail (-ecBadOperator) else pure () := by
  unfold totalOperation at hop
  unfold totalType at hvt
  interval_cases op <;> interval_cases ft <;> interval_cases vt <;> rfl

theorem checkType_accepts {mode : FieldValueMode} {e : SFieldValue} (h : t.Accepts mode e) :
    t.checkType mode e.id e.oper e.type = .ok () := by
  obtain ⟨-, htype, h⟩ := h
  have hvalid : (if mode = .condition then 0 else e.oper) < totalOperation ∧
      ((CTask.validxtype.getD (if mode = .condition then 0 else e.oper) []).getD
        (t.tableDef.fieldTypeCode e.id.toNat) []).getD e.type 0 ≠ 0 := by
    cases mode with
    | condition => exact ⟨(by decide : 0 < totalOperation), h.2.2.2⟩
    | insert =>
      show e.oper < totalOperation ∧ ((CTask.validxtype.getD e.oper []).getD _ []).getD e.type 0 ≠ 0
      rw [h.1]
      exact ⟨by decide, h.2⟩
    | update => exact h.2
  exact (lookup_validxtype hvalid.1 (t.fieldTypeCode_lt e.id.toNat) htype).trans (if_neg hvalid.2)

theorem checkOperation_accepts {mode : FieldValueMode} {e : SFieldValue} (h : t.Accepts mode e) :
    t.checkOperation mode e.id e.oper = .ok () := by
  obtain ⟨-, -, h⟩ := h
  cases mode with
  | condition =>
    obtain ⟨hoper, hcomp, hkey, -⟩ := h
    have hft := t.fieldTypeCode_lt e.id.toNat
    unfold checkOperation
    generalize t.tableDef.fieldTypeCode e.id.toNat = ft at hcomp hft ⊢
    have hrow : e.oper < (CTask.validcomps.getD ft []).length := by
      unfold totalComparison at hoper
      interval_cases ft <;> exact hoper
    dsimp only
    rw [if_neg (Nat.not_le.mpr hoper), lookup_getD [] hft, ok_bind, lookup_getD 0 hrow, ok_bind, if_neg hcomp,
      if_neg (fun hbad => hbad.2 (hkey hbad.1))]
    rfl
  | insert =>
    unfold checkOperation
    exact if_neg (fun hne => hne h.1)
  | update =>
    unfold checkOperation
    dsimp only
    rw [h.1, if_neg Bool.false_ne_true, if_neg (Nat.not_le.mpr h.2.1)]
    rfl

section FieldValue

variable {scanFloat : List UInt8 → Option (BitVec 64)} {printFloat : BitVec 64 → List UInt8} {mode : FieldValueMode}

@[simp] theorem fieldValue_setFieldValue (fv : CFieldValue) : (t.setFieldValue fv mode).fieldValue mode = fv := by
  cases mode <;> rfl

@[simp] theorem setFieldValue_tableDef (fv : CFieldValue) : (t.setFieldValue fv mode).tableDef = t.tableDef := by
  cases mode <;> rfl

theorem fieldValue_allRows (b : Bool) : ({ t with allRows := b } : DecodeTask).fieldValue mode = t.fieldValue mode := by
  cases mode <;> rfl

variable (scanFloat printFloat) in
def entryReadBack (e : SFieldValue) : SFieldValue :=
  { e with val := (readBack scanFloat printFloat e.val (FieldType.ofCode e.type)).getD .unset }

theorem decodeEntry_written {e : SFieldValue} (haccept : t.Accepts mode e)
    (hread : (readBack scanFloat printFloat e.val (FieldType.ofCode e.type)).isSome) {keymask : UInt8 → Bool}
    (hkey : e.id.toNat < t.tableDef.tdef.keyFields → keymask e.id = false) (rest : List UInt8) :
    ∃ t', t.decodeEntry scanFloat mode keymask (encodeEntry printFloat e ++ rest) =
        .ok (t', if e.id.toNat < t.tableDef.tdef.keyFields then fun i => keymask i || i == e.id else keymask, rest) ∧
      t'.tableDef = t.tableDef ∧
      (t'.fieldValue mode).fields = (t.fieldValue mode).fields ++ [entryReadBack scanFloat printFloat e] := by
  obtain ⟨hid, htype, htables⟩ := haccept
  have hop : e.oper < 16 := by
    cases mode with
    | condition => exact Nat.lt_trans htables.1 (by decide)
    | insert => exact htables.1 ▸ (by decide)
    | update => exact Nat.lt_trans htables.2.1 (by decide)
  have htype6 : e.type < 6 := htype
  have hbyte : (UInt8.ofNat (e.oper * 16 + e.type)).toNat = e.oper * 16 + e.type := toNat_ofNat_of_lt (by omega)
  have hvt : (e.oper * 16 + e.type) % 16 = e.type := by omega
  have hdiv : (e.oper * 16 + e.type) / 16 = e.oper := by omega
  obtain ⟨v', hv'⟩ := Option.isSome_iff_exists.mp hread
  have hback : decodeDataValue scanFloat (encodeDataValue printFloat e.val (FieldType.ofCode e.type) ++ rest)
      (FieldType.ofCode e.type).code = .ok (v', rest) := encodeDataValue_readsBack hv' rest
  rw [FieldType.code_ofCode htype] at hback
  have hvalue : entryReadBack scanFloat printFloat e = ⟨e.id, e.oper, e.type, v'⟩ := by
    rw [entryReadBack, hv']
    rfl
  have hbytes : encodeEntry printFloat e ++ rest = UInt8.ofNat (e.oper * 16 + e.type) ::
      (encodeFieldId e.id ++ (encodeDataValue printFloat e.val (FieldType.ofCode e.type) ++ rest)) := by
    rw [encodeEntry, encodeTyped, if_neg (Nat.not_le.mpr htype), List.cons_append, List.append_assoc]
  rw [hbytes, hvalue, decodeEntry, if_neg (List.cons_ne_nil _ _), next_cons, ok_bind]
  dsimp only
  rw [hbyte, hvt, hdiv, decodeFieldId_written, leaving, ok_bind]
  dsimp only
  rw [if_neg (Nat.not_lt.mpr hid), if_neg (Nat.not_le.mpr htype), checkOperation_accepts ⟨hid, htype, htables⟩, leaving,
    ok_bind]
  set t₁ : DecodeTask := if mode = .condition ∧ ¬ decide (e.id.toNat < t.tableDef.tdef.keyFields) = true then
    { t with allRows := false } else t with ht₁
  have htable : t₁.tableDef = t.tableDef := by
    rw [ht₁]
    split <;> rfl
  have hfields : t₁.fieldValue mode = t.fieldValue mode := by
    rw [ht₁]
    split
    · exact fieldValue_allRows false
    · rfl
  have haccept : t₁.Accepts mode e := by
    unfold Accepts
    rw [htable]
    exact ⟨hid, htype, htables⟩
  rw [checkType_accepts haccept, leaving, ok_bind, hback, leaving, ok_bind]
  dsimp only
  rw [if_neg Bool.false_ne_true, hfields]
  by_cases hk : e.id.toNat < t.tableDef.tdef.keyFields
  · rw [if_pos (decide_eq_true hk), hkey hk, if_neg Bool.false_ne_true, if_pos hk]
    exact ⟨_, rfl, by simp [htable], by simp⟩
  · rw [if_neg (by simp [hk]), if_neg hk]
    exact ⟨_, rfl, by simp [htable], by simp [updateTypeMask]⟩

def KeysOnce (keyFields : Nat) (fields : List SFieldValue) : Prop :=
  ((fields.filter fun e => e.id.toNat < keyFields).map (·.id)).Nodup

instance (keyFields : Nat) (fields : List SFieldValue) : Decidable (KeysOnce keyFields fields) :=
  inferInstanceAs (Decidable (List.Nodup _))

theorem fieldValueLoop_written : ∀ (fields : List SFieldValue) (t : DecodeTask) (keymask : UInt8 → Bool),
    (∀ e ∈ fields, t.Accepts mode e) →
    (∀ e ∈ fields, (readBack scanFloat printFloat e.val (FieldType.ofCode e.type)).isSome) →
    KeysOnce t.tableDef.tdef.keyFields fields →
    (∀ e ∈ fields, e.id.toNat < t.tableDef.tdef.keyFields → keymask e.id = false) →
    ∃ t', fieldValueLoop scanFloat mode fields.length t keymask (fields.flatMap (encodeEntry printFloat)) = .ok t' ∧
      t'.tableDef = t.tableDef ∧
      (t'.fieldValue mode).fields = (t.fieldValue mode).fields ++ fields.map (entryReadBack scanFloat printFloat)
  | [], t, keymask, _, _, _, _ => ⟨t, rfl, rfl, (List.append_nil _).symm⟩
  | e :: fields, t, keymask, haccept, hread, honce, hkey => by
    obtain ⟨t₁, hentry, htable, hfields⟩ := decodeEntry_written (haccept e (List.mem_cons_self ..))
      (hread e (List.mem_cons_self ..)) (hkey e (List.mem_cons_self ..)) (fields.flatMap (encodeEntry printFloat))
    have honce' : KeysOnce t₁.tableDef.tdef.keyFields fields := by
      rw [htable]
      exact honce.sublist ((List.Sublist.filter _ (List.sublist_cons_self e fields)).map _)
    have hkey' : ∀ e' ∈ fields, e'.id.toNat < t₁.tableDef.tdef.keyFields →
        (if e.id.toNat < t.tableDef.tdef.keyFields then fun i => keymask i || i == e.id else keymask) e'.id = false := by
      intro e' he' hlt
      rw [htable] at hlt
      have hmask := hkey e' (List.mem_cons_of_mem _ he') hlt
      split
      · next hk =>
        have hne : e'.id ≠ e.id := by
          intro heq
          unfold KeysOnce at honce
          rw [List.filter_cons_of_pos (by simpa using hk), List.map_cons, List.nodup_cons] at honce
          exact honce.1 (heq ▸ List.mem_map_of_mem (List.mem_filter.mpr ⟨he', by simpa using hlt⟩))
        simp [hmask, hne]
      · exact hmask
    obtain ⟨t₂, hloop, htable₂, hfields₂⟩ := fieldValueLoop_written fields t₁ _
      (fun e' he' => by
        have h := haccept e' (List.mem_cons_of_mem _ he')
        unfold Accepts at h ⊢
        rw [htable]
        exact h)
      (fun e' he' => hread e' (List.mem_cons_of_mem _ he')) honce' hkey'
    refine ⟨t₂, ?_, htable₂.trans htable, ?_⟩
    · rw [List.length_cons, List.flatMap_cons, fieldValueLoop, hentry, ok_bind]
      exact hloop
    · rw [hfields₂, hfields, List.append_assoc, List.singleton_append, List.map_cons]

theorem decodeFieldValue_written {fv : CFieldValue} (hfresh : (t.fieldValue mode).fields = []) (hfields : fv.fields ≠ [])
    (hcount : fv.fields.length ≤ 255) (haccept : ∀ e ∈ fv.fields, t.Accepts mode e)
    (hread : ∀ e ∈ fv.fields, (readBack scanFloat printFloat e.val (FieldType.ofCode e.type)).isSome)
    (honce : KeysOnce t.tableDef.tdef.keyFields fv.fields) :
    ∃ t', t.decodeFieldValue scanFloat mode (encodeFieldValue printFloat fv) = .ok t' ∧
      (t'.fieldValue mode).fields = fv.fields.map (entryReadBack scanFloat printFloat) := by
  have hlen : fv.fields.length ≠ 0 := fun h => hfields (List.length_eq_zero_iff.mp h)
  have htoNat : (UInt8.ofNat fv.fields.length).toNat = fv.fields.length := toNat_ofNat_of_lt (by omega)
  have hnum : UInt8.ofNat fv.fields.length ≠ 0 := by
    intro h
    rw [h] at htoNat
    exact hlen htoNat.symm
  have htable := @setFieldValue_tableDef t mode (t.fieldValue mode)
  obtain ⟨t', hloop, -, hfields'⟩ := @fieldValueLoop_written scanFloat printFloat mode fv.fields
    (t.setFieldValue (t.fieldValue mode) mode) (fun _ => false)
    (fun e he => by
      have h := haccept e he
      unfold Accepts at h ⊢
      rw [htable]
      exact h)
    hread (htable ▸ honce) (fun _ _ _ => rfl)
  refine ⟨t', ?_, ?_⟩
  · rw [encodeFieldValue, if_neg hlen, decodeFieldValue, if_neg (List.cons_ne_nil _ _), next_cons, ok_bind]
    dsimp only
    rw [if_neg hnum, htoNat]
    exact hloop
  · rw [hfields', fieldValue_setFieldValue, hfresh, List.nil_append]

end FieldValue

end DecodeTask

open DecodeTask

/-- **The codec of field lists**: a field set, as a request builds it or decodes it, is decoded as the same ids in the same
order; field values that the tables accept, none of the key twice, are decoded as the same fields in the same order with
their operations, types and the values they are read back as; and both take as many bytes as were announced. -/
theorem fieldListCodec (scanFloat : List UInt8 → Option (BitVec 64)) (printFloat : BitVec 64 → List UInt8) :
    (∀ (n : Nat) (fids : List UInt8), ((CFieldSet.ofSize n).copy fids).IsSet) ∧
    (∀ (t : DecodeTask) (bin : List UInt8) (f : CFieldSet) (need : Bool), (∀ g, t.fieldList = some g → g = g.clean) →
      t.decodeFieldSet bin = .ok (some f, need) → f.IsSet) ∧
    (∀ (t : DecodeTask) (fs : CFieldSet), fs.IsSet → fs.ids ≠ [] → (∀ id ∈ fs.ids, id.toNat ≤ t.tableDef.tdef.numFields) →
      ∃ f, t.decodeFieldSet (encodeFieldSet fs) = .ok (some f, false) ∧ f.ids = fs.ids) ∧
    (∀ fs : CFieldSet, fs.IsSet → (encodeFieldSet fs).length = encodedBytesFieldSet fs) ∧
    (∀ fs : CFieldSet, encodeFieldSet fs = [] ↔ fs.ids = []) ∧
    (∀ (t : DecodeTask) (mode : FieldValueMode) (fv : CFieldValue), (t.fieldValue mode).fields = [] → fv.fields ≠ [] →
      fv.fields.length ≤ 255 → (∀ e ∈ fv.fields, t.Accepts mode e) →
      (∀ e ∈ fv.fields, (readBack scanFloat printFloat e.val (FieldType.ofCode e.type)).isSome) →
      KeysOnce t.tableDef.tdef.keyFields fv.fields →
      ∃ t', t.decodeFieldValue scanFloat mode (encodeFieldValue printFloat fv) = .ok t' ∧
        (t'.fieldValue mode).fields = fv.fields.map (entryReadBack scanFloat printFloat)) ∧
    (∀ fv : CFieldValue, (encodeFieldValue printFloat fv).length = encodedBytesFieldValue printFloat fv) ∧
    ∀ fv : CFieldValue, encodeFieldValue printFloat fv = [] ↔ fv.fields = [] := by
  refine ⟨fun n fids => (CFieldSet.ofSize_isSet n).copy fids, fun t bin f need hclean h => decodeFieldSet_isSet hclean h,
    fun t fs hset hids _ => decodeFieldSet_written hset hids, fun fs hset => encodeFieldSet_length hset, fun fs => ?_,
    fun t mode fv hfresh hfields hcount haccept hread honce =>
      decodeFieldValue_written hfresh hfields hcount haccept hread honce,
    encodeFieldValue_length printFloat, fun fv => ?_⟩
  · exact counted_eq_nil fs.ids _ _
  · exact counted_eq_nil fv.fields _ _

def noteTable : CTableDefinition where
  tdef := { fieldList := [⟨[107], .signed, 4, 0, false⟩, ⟨[116], .string, 50, 0, false⟩], keyFields := 1, keyFormat := 4 }

def noteTask : DecodeTask where
  tableDef := noteTable

def noteCondition : CFieldValue := { fields := [⟨0, 0, 1, .word 5⟩, ⟨1, 0, 4, .bin [97]⟩] }

theorem fieldListCodec_note :
    (∃ f, noteTask.decodeFieldSet (encodeFieldSet ((CFieldSet.ofSize 2).copy [1, 0, 1])) = .ok (some f, false) ∧
      f.ids = [1, 0]) ∧
    (encodeFieldSet ((CFieldSet.ofSize 2).copy [1, 0, 1])).length = 4 ∧
    (∀ f need, noteTask.decodeFieldSet [1, 1] = .ok (some f, need) → f.IsSet) ∧
    ∃ t', noteTask.decodeFieldValue (fun _ => none) .condition (encodeFieldValue (fun _ => []) noteCondition) = .ok t' ∧
      (t'.fieldValue .condition).fields = noteCondition.fields := by
  obtain ⟨hcopy, hdecoded, hset, hlength, -, hvalues, -, -⟩ := fieldListCodec (fun _ => none) (fun _ => [])
  have hids : ∀ id ∈ ([1, 0] : List UInt8), id.toNat ≤ noteTable.tdef.numFields :=
    List.forall_mem_cons.mpr ⟨by decide, List.forall_mem_cons.mpr ⟨by decide, fun _ h => nomatch h⟩⟩
  refine ⟨hset noteTask _ (hcopy 2 [1, 0, 1]) (by decide) hids, hlength _ (hcopy 2 [1, 0, 1]),
    fun f need => hdecoded noteTask [1, 1] f need (fun g h => by cases h),
    hvalues noteTask .condition noteCondition rfl (by decide) (by decide) (fun e he => ?_) (fun e he => ?_) (by decide)⟩
  · obtain rfl | rfl : e = ⟨0, 0, 1, .word 5⟩ ∨ e = ⟨1, 0, 4, .bin [97]⟩ := by simpa [noteCondition] using he
    · exact ⟨by decide, by decide, by decide, by decide, fun _ => rfl, by decide⟩
    · exact ⟨by decide, by decide, by decide, by decide, fun _ => rfl, by decide⟩
  · obtain rfl | rfl : e = ⟨0, 0, 1, .word 5⟩ ∨ e = ⟨1, 0, 4, .bin [97]⟩ := by simpa [noteCondition] using he
    · rfl
    · rfl

/-- A key that is given twice is refused, a null text comes back as an empty one, and of a list of 256 entries none. -/
theorem fieldListCodec_exceptions :
    (∀ t', noteTask.decodeFieldValue (fun _ => none) .condition
      (encodeFieldValue (fun _ => []) { fields := [⟨0, 0, 1, .word 5⟩, ⟨0, 0, 1, .word 5⟩] }) ≠ .ok t') ∧
    (∃ t', noteTask.decodeFieldValue (fun _ => none) .insert
        (encodeFieldValue (fun _ => []) { fields := [⟨1, 0, 4, .unset⟩] }) = .ok t' ∧
      (t'.fieldValue .insert).fields = [⟨1, 0, 4, .bin []⟩]) ∧
    noteTask.decodeFieldValue (fun _ => none) .insert
      (encodeFieldValue (fun _ => []) { fields := List.replicate 256 ⟨1, 0, 4, .bin [97]⟩ }) = .ok noteTask := by
  refine ⟨fun t' h => ?_, ⟨_, rfl, rfl⟩, ?_⟩
  · cases h
  · rw [encodeFieldValue, List.length_replicate, if_neg (by decide)]
    rfl

end Dtc
