import DtcServer.FieldListCodec
import Mathlib.Algebra.Order.BigOperators.Group.List
import Mathlib.Algebra.Order.Group.Nat
import Mathlib.Data.List.TakeWhile
/-!
# TableDefinition — the fields of a table (`CTableDefinition`)

The server builds its definition field by field and writes it once (`BuildInfoCache`); the client reads it into a fresh object
(`Unpack`), where the number of fields is the room of the list that the field ids index.
-/
namespace Dtc

open Decoding

def ecTableRedefined : Int := 2018

def maxFieldsPerTable : Int := 255

/-- `CFieldDefinition`, as far as it is exchanged. -/
structure FieldDefinition where
  fieldName : List UInt8
  fieldType : UInt8
  fieldSize : Nat
  deriving DecidableEq, Repr

/-- A digest of 16 bytes. -/
structure Digest where
  bytes : List UInt8
  length_eq : bytes.length = 16

/-- `CTableDefinition`: the fields by their ids, and the chains of ids, the last field first. -/
structure TableDefinition where
  maxFields : Nat
  usedFields : Nat := 0
  numFields : Nat := 0
  keyFields : Nat := 0
  fieldList : List (Option FieldDefinition)
  nameHash : Nat → List Nat := fun _ => []
  attr : SimpleSection := { definition := tableAttributeDefinition }
  tableName : List UInt8 := []
  hash : List UInt8 := []

def signedChar (c : UInt8) : Int := if c.toNat < 128 then c.toNat else (c.toNat : Int) - 256

def nameChain (name : List UInt8) : Nat :=
  (name.foldl (fun h c => h * 11 + BitVec.ofInt 32 (signedChar c * 16) + BitVec.ofInt 32 (signedChar c / 16)) (0 : BitVec 32)).toNat %
    256

namespace TableDefinition

variable (t : TableDefinition)

/-- `CTableDefinition(m)`; `m = 0` is a client's. -/
def construct (m : Nat) : TableDefinition where
  maxFields := m
  fieldList := List.replicate m none

def field (id : Nat) : Option FieldDefinition := t.fieldList.getD id none

def named (name : List UInt8) (id : Nat) : Bool := (t.field id).any fun f => f.fieldName == name

def fieldId (name : List UInt8) : Int :=
  match (t.nameHash (nameChain name)).find? (t.named name) with
  | some id => id
  | none => -1

/-- The switch of `AddField`. -/
def checkField (type : UInt8) (size : Int) : Except Int Unit :=
  match FieldType.ofCode type.toNat with
  | .signed | .unsigned => if 8 < size then .error (-ecBadFieldSize) else .ok ()
  | .float => if size ≠ 8 ∧ size ≠ 4 then .error (-ecBadFieldSize) else .ok ()
  | .string | .binary => if (maxPacketSize : Int) < size then .error (-ecBadFieldSize) else .ok ()
  | .none => .error (-ecBadFieldType)

def enterField (id : Nat) (f : FieldDefinition) : TableDefinition :=
  { t with
    fieldList := t.fieldList.set id (some f)
    nameHash := Function.update t.nameHash (nameChain f.fieldName) (id :: t.nameHash (nameChain f.fieldName))
    numFields := if t.numFields < id then id else t.numFields
    usedFields := if id ≠ 0 then t.usedFields + 1 else t.usedFields }

def addField (id : Int) (name : List UInt8) (type : UInt8) (size : Int) : Decoding Int TableDefinition :=
  if id < 0 ∨ maxFieldsPerTable < id ∨ (t.maxFields : Int) ≤ id then fail (-ecBadFieldId)
  else do
    let old ← lookup t.fieldList id.toNat
    if old.isSome then fail (-ecBadFieldId)
    else if size ≤ 0 then fail (-ecBadFieldSize)
    else do
      lift (checkField type size)
      let name := cString name
      if name.length = 0 ∨ 255 < name.length then fail (-ecBadFieldName)
      else pure (t.enterField id.toNat ⟨name, type, size.toNat⟩)

def setTableName (name : List UInt8) : TableDefinition := { t with tableName := cString name }

/-- `SetKeyFields`, as far as it is exchanged. -/
def setKeyFields (n : Int) : TableDefinition :=
  let n := if n < 0 then 1 else n
  if n ≤ 0 then t
  else if 32 < n then t
  else
    let n := if (t.numFields : Int) + 1 < n then t.numFields + 1 else n.toNat
    { t with keyFields := n, attr := t.attr.setThisTag 3 (.word (BitVec.ofNat 64 n)) }

def keyFieldCount : Nat := if t.attr.tagPresent 3 then (t.attr.tagValue 3).u64 else 0

/-! ## `BuildInfoCache` -/

section Pack

variable (printFloat : BitVec 64 → List UInt8) (md5 : List UInt8 → Digest)

def fieldIds : List Nat := (List.range (t.numFields + 1)).filter fun id => (t.field id).isSome

def encodeField (id : Nat) (f : FieldDefinition) : List UInt8 :=
  UInt8.ofNat id :: f.fieldType :: (encodeLength f.fieldSize ++ UInt8.ofNat f.fieldName.length :: f.fieldName)

def fields : List (Nat × FieldDefinition) := t.fieldIds.filterMap fun id => (t.field id).map (id, ·)

def packedBody : List UInt8 :=
  1 :: UInt8.ofNat t.tableName.length :: (t.tableName ++ UInt8.ofNat t.fieldIds.length ::
    (t.fields.flatMap (fun f => encodeField f.1 f.2) ++ encodeSimpleSection printFloat t.attr .none))

def packedRoom : Nat :=
  16 + 1 + 1 + 1 + t.tableName.length + (t.fields.map fun f => 1 + 1 + 5 + 1 + f.2.fieldName.length).sum +
    encodedBytesSimpleSection printFloat t.attr .none

/-- `packedTableDefinition`, empty where there is no field behind the first. -/
def packedTableDefinition : List UInt8 :=
  if t.numFields = 0 then [] else (md5 (t.packedBody printFloat)).bytes ++ t.packedBody printFloat

/-- `packedFullFieldSet` and `packedFieldSet` -/
def packedFullFieldSet : List UInt8 :=
  let ids := t.fieldIds.filter (· ≠ 0)
  UInt8.ofNat (ids.length + 1) :: 0 :: 0 :: ids.map UInt8.ofNat

def packedFieldSet : List UInt8 :=
  let ids := t.fieldIds.filter (· ≠ 0)
  UInt8.ofNat ids.length :: ids.map UInt8.ofNat

/-- `BuildInfoCache` takes the digest for the table's hash. -/
def buildInfoCache : TableDefinition :=
  if t.numFields = 0 then t else { t with hash := (md5 (t.packedBody printFloat)).bytes }

end Pack

/-! ## `Unpack` -/

section Unpack

variable (scanFloat : List UInt8 → Option (BitVec 64)) (md5 : List UInt8 → Digest)

def unpackFields : Nat → TableDefinition → List UInt8 → Decoding Int (TableDefinition × List UInt8)
  | 0, t, b => pure (t, b)
  | n + 1, t, b =>
    if b.length < 5 then fail (-ecBadSectionLength)
    else do
      let (id, b) ← next b
      let (type, b) ← next b
      let (size, b) ← decodeLength b
      if b.length < 2 then fail (-ecBadSectionLength)
      else do
        let (len, b) ← next b
        if len = 0 ∨ b.length < len.toNat then fail (-ecBadSectionLength)
        else do
          let name ← bytes b len.toNat
          let b ← skip b len.toNat
          let t ← t.addField id.toNat name type size
          unpackFields n t b

def unpack (bin : List UInt8) : Decoding Int TableDefinition :=
  if t.numFields ≠ 0 ∨ t.maxFields ≠ 0 then fail (-ecTableRedefined)
  else if bin.length < 24 then fail (-ecBadSectionLength)
  else do
    let h ← bytes bin 16
    let b ← skip bin 16
    if (md5 b).bytes ≠ h then fail (-ecVersionMismatch)
    else do
      let (version, b) ← next b
      if version ≠ 1 then fail (-ecVersionMismatch)
      else do
        let (n, b) ← next b
        if n = 0 ∨ b.length < n.toNat + 1 then fail (-ecBadSectionLength)
        else do
          let name ← bytes b n.toNat
          let b ← skip b n.toNat
          let (nf, b) ← next b
          if nf = 0 then fail (-ecBadSectionLength)
          else do
            let (t, b) ← unpackFields nf.toNat
              { t with tableName := name, hash := h, maxFields := nf.toNat, fieldList := List.replicate nf.toNat none } b
            handle (decodeSimpleSection scanFloat b t.attr FieldType.none.code) (fun e => fail e.1)
              (fun attr => pure { t with attr := attr })

end Unpack

/-! ## Tables that are built -/

/-- What a table definition is built with; `setFlags` is any of the attributes' first tag. -/
inductive BuildAct where
  | addField (id : Int) (name : List UInt8) (type : UInt8) (size : Int)
  | setKeyFields (n : Int)
  | setTableName (name : List UInt8)
  | setFlags (flags : BitVec 64)

def act (t : TableDefinition) : BuildAct → TableDefinition
  | .addField id name type size =>
    match t.addField id name type size with
    | .ok t' => t'
    | .error _ => t
  | .setKeyFields n => t.setKeyFields n
  | .setTableName name => t.setTableName name
  | .setFlags flags => { t with attr := t.attr.setThisTag 1 (.word flags) }

def build (m : Nat) (acts : List BuildAct) : TableDefinition := acts.foldl act (construct m)

/-- A field that `AddField` takes. -/
structure FieldOk (f : FieldDefinition) : Prop where
  name_pos : 0 < f.fieldName.length
  name_le : f.fieldName.length ≤ 255
  name_null : 0 ∉ f.fieldName
  size_pos : 0 < f.fieldSize
  checked : checkField f.fieldType f.fieldSize = .ok ()

/-- **What every table keeps.** -/
structure Sound (t : TableDefinition) : Prop where
  room : t.fieldList.length = t.maxFields
  fieldOk : ∀ id f, t.field id = some f → id ≤ 255 ∧ id ≤ t.numFields ∧ FieldOk f
  top : t.numFields ≠ 0 → (t.field t.numFields).isSome
  used : ∀ ids : List Nat, ids.Nodup → (∀ id ∈ ids, id ≠ 0 ∧ (t.field id).isSome) → ids.length ≤ t.usedFields
  chained : ∀ id f, t.field id = some f → id ∈ t.nameHash (nameChain f.fieldName)
  attrs : t.attr.definition = tableAttributeDefinition ∧
    ∀ id, t.attr.tagPresent id = true → (id = 1 ∨ id = 3) ∧ ∃ w, t.attr.tagValue id = .word w

section Enter

variable {t : TableDefinition} {id : Nat} {f : FieldDefinition}

theorem field_enterField (hid : id < t.fieldList.length) (j : Nat) :
    (t.enterField id f).field j = if j = id then some f else t.field j := by
  unfold field enterField
  rw [List.getD_eq_getElem?_getD, List.getD_eq_getElem?_getD, List.getElem?_set]
  by_cases hj : j = id
  · rw [if_pos hj, if_pos hj.symm, if_pos hid]
    rfl
  · rw [if_neg hj, if_neg (Ne.symm hj)]

theorem field_construct (m j : Nat) : (construct m).field j = none := by
  unfold field construct
  rw [List.getD_eq_getElem?_getD, List.getElem?_replicate]
  split_ifs <;> rfl

theorem construct_sound (m : Nat) : (construct m).Sound where
  room := List.length_replicate
  fieldOk j f h := by
    rw [field_construct] at h
    cases h
  top h := absurd rfl h
  used ids _ h := by
    cases ids with
    | nil => exact Nat.le_refl _
    | cons j ids =>
      have hsome := (h j (List.mem_cons_self ..)).2
      rw [field_construct] at hsome
      cases hsome
  chained j f h := by
    rw [field_construct] at h
    cases h
  attrs := ⟨rfl, fun id h => by
    unfold SimpleSection.tagPresent at h
    split_ifs at h
    cases h⟩

theorem Sound.enterField (h : t.Sound) (hid : id < t.fieldList.length) (h255 : id ≤ 255) (hnew : t.field id = none)
    (hf : FieldOk f) : (t.enterField id f).Sound where
  room := by
    unfold TableDefinition.enterField
    rw [List.length_set]
    exact h.room
  fieldOk j g hj := by
    rw [field_enterField hid] at hj
    unfold TableDefinition.enterField
    dsimp only
    split_ifs at hj with heq
    · obtain rfl := Option.some.inj hj
      subst heq
      refine ⟨h255, ?_, hf⟩
      split_ifs <;> omega
    · obtain ⟨h1, h2, h3⟩ := h.fieldOk j g hj
      refine ⟨h1, ?_, h3⟩
      split_ifs <;> omega
  top hne := by
    rw [field_enterField hid]
    unfold TableDefinition.enterField at hne ⊢
    dsimp only at hne ⊢
    split_ifs at hne ⊢ with h1 h2 h3
    · rfl
    · exact absurd rfl h2
    · rfl
    · exact h.top hne
  used ids hnodup hids := by
    have hold : ∀ j ∈ ids.erase id, j ≠ 0 ∧ (t.field j).isSome := by
      intro j hj
      obtain ⟨hne, hmem⟩ := (List.Nodup.mem_erase_iff hnodup).mp hj
      have hj' := hids j hmem
      rw [field_enterField hid, if_neg hne] at hj'
      exact hj'
    have hle := h.used (ids.erase id) (hnodup.erase id) hold
    unfold TableDefinition.enterField
    dsimp only
    by_cases hmem : id ∈ ids
    · have hne := (hids id hmem).1
      rw [List.length_erase_of_mem hmem] at hle
      rw [if_pos hne]
      omega
    · rw [List.erase_of_not_mem hmem] at hle
      split_ifs <;> omega
  chained j g hj := by
    rw [field_enterField hid] at hj
    unfold TableDefinition.enterField
    dsimp only
    split_ifs at hj with heq
    · obtain rfl := Option.some.inj hj
      rw [Function.update_self, heq]
      exact List.mem_cons_self ..
    · have hmem := h.chained j g hj
      by_cases hchain : nameChain g.fieldName = nameChain f.fieldName
      · rw [hchain, Function.update_self, ← hchain]
        exact List.mem_cons_of_mem _ hmem
      · rw [Function.update_of_ne hchain]
        exact hmem
  attrs := h.attrs

theorem addField_ok {t' : TableDefinition} {i : Int} {name : List UInt8} {type : UInt8} {size : Int} (hroom : t.fieldList.length = t.maxFields)
    (h : t.addField i name type size = .ok t') : ∃ id f, id < t.fieldList.length ∧ id ≤ 255 ∧ t.field id = none ∧ FieldOk f ∧
      t' = t.enterField id f := by
  unfold addField at h
  by_cases hi : i < 0 ∨ maxFieldsPerTable < i ∨ (t.maxFields : Int) ≤ i
  · rw [if_pos hi] at h
    cases h
  rw [if_neg hi] at h
  obtain ⟨old, hold, h⟩ := bind_eq_ok h
  by_cases hsome : old.isSome = true
  · rw [if_pos hsome] at h
    cases h
  rw [if_neg hsome] at h
  by_cases hsize : size ≤ 0
  · rw [if_pos hsize] at h
    cases h
  rw [if_neg hsize] at h
  obtain ⟨⟨⟩, hcheck, h⟩ := bind_eq_ok h
  dsimp only at h
  by_cases hname : (cString name).length = 0 ∨ 255 < (cString name).length
  · rw [if_pos hname] at h
    cases h
  rw [if_neg hname] at h
  unfold maxFieldsPerTable at hi
  have hlt : i.toNat < t.fieldList.length := by omega
  refine ⟨i.toNat, ⟨cString name, type, size.toNat⟩, hlt, by omega, ?_, ?_, (Except.ok.inj h).symm⟩
  · unfold lookup at hold
    rw [List.getElem?_eq_getElem hlt] at hold
    obtain rfl := Except.ok.inj hold
    unfold field
    rw [List.getD_eq_getElem?_getD, List.getElem?_eq_getElem hlt]
    exact Option.not_isSome_iff_eq_none.mp hsome
  · refine ⟨by dsimp only; omega, by dsimp only; omega, ?_, by dsimp only; omega, ?_⟩
    · intro h0
      exact absurd (List.mem_takeWhile_imp h0) Bool.false_ne_true
    · have hsz : ((size.toNat : Nat) : Int) = size := by omega
      dsimp only
      rw [hsz]
      cases hc : checkField type size with
      | ok u => rfl
      | error e =>
        rw [hc] at hcheck
        cases hcheck

theorem Sound.setTag (h : t.Sound) {i : Nat} (hi : i = 1 ∨ i = 3) (w : BitVec 64) {n : Nat} :
    ({ t with keyFields := n, attr := t.attr.setThisTag i (.word w) } : TableDefinition).Sound :=
  { h with
    attrs := by
      refine ⟨h.attrs.1, fun j hj => ?_⟩
      unfold SimpleSection.setThisTag SimpleSection.tagPresent at hj
      dsimp only at hj
      by_cases hji : j = i
      · subst hji
        exact ⟨hi, w, Function.update_self ..⟩
      · rw [Function.update_of_ne hji] at hj
        obtain ⟨h1, w', hw'⟩ := h.attrs.2 j hj
        exact ⟨h1, w', (Function.update_of_ne hji ..).trans hw'⟩ }

theorem Sound.act (h : t.Sound) (a : BuildAct) : (t.act a).Sound := by
  cases a with
  | addField i name type size =>
    unfold TableDefinition.act
    dsimp only
    split
    · next t' hadd =>
      obtain ⟨id, f, hid, h255, hnew, hf, rfl⟩ := addField_ok h.room hadd
      exact h.enterField hid h255 hnew hf
    · exact h
  | setKeyFields n =>
    unfold TableDefinition.act setKeyFields
    dsimp only
    by_cases h0 : (if n < 0 then 1 else n) ≤ 0
    · rw [if_pos h0]
      exact h
    · rw [if_neg h0]
      by_cases h32 : 32 < if n < 0 then 1 else n
      · rw [if_pos h32]
        exact h
      · rw [if_neg h32]
        exact h.setTag (.inr rfl) _
  | setTableName name => exact { h with }
  | setFlags flags => exact h.setTag (.inl rfl) flags

theorem build_sound (m : Nat) (acts : List BuildAct) : (build m acts).Sound := by
  unfold build
  induction acts using List.reverseRecOn with
  | nil => exact construct_sound m
  | append_singleton acts a ih =>
    rw [List.foldl_append]
    exact ih.act a

end Enter

/-! ## What is written stays in its room -/

section Packed

variable {t : TableDefinition} (printFloat : BitVec 64 → List UInt8) (md5 : List UInt8 → Digest)

theorem mem_fieldIds (h : t.Sound) {id : Nat} : id ∈ t.fieldIds ↔ (t.field id).isSome := by
  unfold fieldIds
  rw [List.mem_filter, List.mem_range]
  refine ⟨And.right, fun hsome => ⟨?_, hsome⟩⟩
  obtain ⟨f, hf⟩ := Option.isSome_iff_exists.mp hsome
  exact Nat.lt_succ_of_le (h.fieldOk id f hf).2.1

theorem fieldIds_nodup : t.fieldIds.Nodup := List.nodup_range.filter _

theorem mem_fields (h : t.Sound) {id : Nat} {f : FieldDefinition} : (id, f) ∈ t.fields ↔ t.field id = some f := by
  unfold fields
  rw [List.mem_filterMap]
  constructor
  · rintro ⟨j, -, hj⟩
    obtain ⟨g, hg, he⟩ := Option.map_eq_some_iff.mp hj
    obtain ⟨rfl, rfl⟩ := Prod.mk.inj he
    exact hg
  · intro hf
    exact ⟨id, (mem_fieldIds h).mpr (by rw [hf]; rfl), by rw [hf]; rfl⟩

theorem map_fst_fields (h : t.Sound) : t.fields.map Prod.fst = t.fieldIds := by
  have hall : ∀ ids : List Nat, (∀ id ∈ ids, (t.field id).isSome) →
      (ids.filterMap fun id => (t.field id).map (id, ·)).map Prod.fst = ids := by
    intro ids
    induction ids with
    | nil => exact fun _ => rfl
    | cons id ids ih =>
      intro hsome
      rw [List.forall_mem_cons] at hsome
      obtain ⟨f, hf⟩ := Option.isSome_iff_exists.mp hsome.1
      rw [List.filterMap_cons, hf]
      exact congrArg (id :: ·) (ih hsome.2)
  exact hall t.fieldIds fun id hid => (mem_fieldIds h).mp hid

theorem length_fieldIds_filter (h : t.Sound) : (t.fieldIds.filter (· ≠ 0)).length ≤ t.usedFields := by
  refine h.used _ (fieldIds_nodup.filter _) fun id hid => ?_
  obtain ⟨hmem, hne⟩ := List.mem_filter.mp hid
  exact ⟨of_decide_eq_true hne, (mem_fieldIds h).mp hmem⟩

theorem encodedBytesLength_le (n : Nat) : encodedBytesLength n ≤ 5 := by
  unfold encodedBytesLength
  split_ifs <;> decide

theorem encodeField_length (id : Nat) (f : FieldDefinition) :
    (encodeField id f).length = 3 + encodedBytesLength f.fieldSize + f.fieldName.length := by
  unfold encodeField
  simp only [List.length_cons, List.length_append, encodeLength_length]
  omega

theorem packedTableDefinition_length : (t.packedTableDefinition printFloat md5).length ≤ t.packedRoom printFloat := by
  unfold packedTableDefinition
  split_ifs
  · exact Nat.zero_le _
  have hfields : ∀ fs : List (Nat × FieldDefinition), (fs.flatMap fun f => encodeField f.1 f.2).length ≤
      (fs.map fun f => 1 + 1 + 5 + 1 + f.2.fieldName.length).sum := by
    intro fs
    rw [List.length_flatMap]
    refine List.sum_le_sum fun f _ => ?_
    have hle := encodedBytesLength_le f.2.fieldSize
    rw [encodeField_length]
    omega
  have hle := hfields t.fields
  rw [List.length_append, (md5 _).length_eq]
  unfold packedBody packedRoom
  simp only [List.length_cons, List.length_append, encodeSimpleSection_length]
  omega

theorem packedFieldSets_length (h : t.Sound) :
    t.packedFullFieldSet.length ≤ 1 + t.usedFields + 2 ∧ t.packedFieldSet.length ≤ 1 + t.usedFields := by
  have hle := length_fieldIds_filter h
  unfold packedFullFieldSet packedFieldSet
  simp only [List.length_cons, List.length_map]
  omega

end Packed

/-! ## Reading stays within bounds -/

section Unpacked

variable {t : TableDefinition} (scanFloat : List UInt8 → Option (BitVec 64)) (md5 : List UInt8 → Digest)

theorem addField_ends (hroom : t.fieldList.length = t.maxFields) (id : Int) (name : List UInt8) (type : UInt8) (size : Int) :
    Ends (t.addField id name type size) (fun t' => ∃ id f, id < t.fieldList.length ∧ t' = t.enterField id f) (fun _ => True) := by
  unfold addField
  split
  · exact ends_fail trivial
  next hid =>
  have hlt : id.toNat < t.fieldList.length := by omega
  refine (ends_lookup hlt).bind fun old _ => ?_
  split
  · exact ends_fail trivial
  split
  · exact ends_fail trivial
  refine (ends_lift fun _ _ => trivial).bind fun _ _ => ?_
  dsimp only
  split
  · exact ends_fail trivial
  · exact ⟨id.toNat, _, hlt, rfl⟩

/-- What reading the fields leaves as it is. -/
structure Reads (t t' : TableDefinition) : Prop where
  room : t'.fieldList.length = t'.maxFields
  tableName : t'.tableName = t.tableName
  keyFields : t'.keyFields = t.keyFields

theorem unpackFields_ends : ∀ (n : Nat) {t : TableDefinition} (b : List UInt8), t.fieldList.length = t.maxFields →
    Ends (unpackFields n t b) (fun r => t.Reads r.1) (fun _ => True)
  | 0, _, _, hroom => ⟨hroom, rfl, rfl⟩
  | n + 1, t, b, hroom => by
    unfold unpackFields
    split
    · exact ends_fail trivial
    next h5 =>
    refine (ends_next (List.ne_nil_of_length_pos (by omega))).bind ?_
    rintro ⟨id, b⟩ rfl
    rw [List.length_cons] at h5
    dsimp only at h5 ⊢
    refine (ends_next (List.ne_nil_of_length_pos (by omega))).bind ?_
    rintro ⟨type, b⟩ -
    dsimp only
    obtain ⟨r, hr, -⟩ | ⟨e, he, -⟩ := (@decodeLength_ends b).ok_or_fail
    case inr =>
      rw [he]
      exact ends_fail trivial
    rw [hr, ok_bind]
    split
    · exact ends_fail trivial
    next h2 =>
    refine (ends_next (List.ne_nil_of_length_pos (by omega))).bind ?_
    rintro ⟨len, b⟩ -
    dsimp only
    split
    · exact ends_fail trivial
    next hlen =>
    have hle : len.toNat ≤ b.length := by omega
    refine (ends_bytes hle).bind fun name _ => (ends_skip hle).bind fun b' _ => ?_
    refine (addField_ends hroom ..).bind ?_
    rintro t' ⟨id, f, hid, rfl⟩
    refine (unpackFields_ends n b' ((List.length_set ..).trans hroom)).mono fun r hr => ?_
    exact ⟨hr.room, hr.tableName, hr.keyFields⟩

theorem unpack_ends (bin : List UInt8) :
    Ends (unpack (construct 0) scanFloat md5 bin)
      (fun t' => 0 < t'.tableName.length ∧ t'.tableName.length ≤ 255 ∧ t'.keyFields = 0) (fun _ => True) := by
  unfold unpack
  split
  · exact ends_fail trivial
  split
  · exact ends_fail trivial
  next h24 =>
  refine (ends_bytes (by omega)).bind fun h _ => (ends_skip (by omega)).bind ?_
  rintro b rfl
  split
  · exact ends_fail trivial
  refine (ends_next (List.ne_nil_of_length_pos (by rw [List.length_drop]; omega))).bind ?_
  rintro ⟨version, b⟩ hb
  have hblen := congrArg List.length hb
  rw [List.length_drop, List.length_cons] at hblen
  dsimp only at hblen ⊢
  split
  · exact ends_fail trivial
  refine (ends_next (List.ne_nil_of_length_pos (by omega))).bind ?_
  rintro ⟨n, b⟩ -
  dsimp only
  split
  · exact ends_fail trivial
  next hn =>
  have hpos : 0 < n.toNat := by
    rcases Nat.eq_zero_or_pos n.toNat with h0 | h0
    · exact absurd (.inl (UInt8.toNat_inj.mp h0)) hn
    · exact h0
  have hlt := n.toNat_lt
  refine (ends_bytes (by omega)).bind ?_
  rintro name rfl
  refine (ends_skip (by omega)).bind ?_
  rintro b' rfl
  refine (ends_next (List.ne_nil_of_length_pos (by rw [List.length_drop]; omega))).bind ?_
  rintro ⟨nf, b''⟩ -
  dsimp only
  split
  · exact ends_fail trivial
  refine (unpackFields_ends nf.toNat b'' List.length_replicate).bind fun r hr => ?_
  have hname : r.1.tableName.length = n.toNat := by
    rw [hr.tableName, List.length_take]
    omega
  have hread : 0 < r.1.tableName.length ∧ r.1.tableName.length ≤ 255 ∧ r.1.keyFields = 0 :=
    ⟨by omega, by omega, hr.keyFields⟩
  obtain ⟨attr, hattr, -⟩ | ⟨e, he, -⟩ := (@decodeSimpleSection_ends r.2 scanFloat r.1.attr FieldType.none.code).ok_or_fail
  · rw [hattr]
    exact hread
  · rw [he]
    exact ends_fail trivial

end Unpacked

end TableDefinition

end Dtc
