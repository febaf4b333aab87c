import DtcServer.TableDefinition
import Mathlib.Tactic.IntervalCases
import Mathlib.Tactic.Set
import Mathlib.Tactic.Push
/-!
# TableExchange — a table definition from the server to the client (`BuildInfoCache`, `Unpack`)

The client enters the fields in the order of their ids, into a list that has room for as many ids as there are fields.  So
the exchange succeeds where the ids have no gap.
-/
namespace Dtc

open Decoding

namespace TableDefinition

/-! ## Fields are read back -/

section Written

variable {t : TableDefinition}

def enterFields (t : TableDefinition) (fs : List (Nat × FieldDefinition)) : TableDefinition :=
  fs.foldl (fun t f => t.enterField f.1 f.2) t

theorem addField_written {id : Nat} {f : FieldDefinition} (hroom : t.fieldList.length = t.maxFields) (h255 : id ≤ 255)
    (hnew : t.field id = none) (hf : FieldOk f) :
    t.addField ((UInt8.ofNat id).toNat : Nat) f.fieldName f.fieldType (f.fieldSize : Nat) =
      if id < t.maxFields then .ok (t.enterField id f) else fail (-ecBadFieldId) := by
  have hid : (UInt8.ofNat id).toNat = id := toNat_ofNat_of_lt (by omega)
  have hname : cString f.fieldName = f.fieldName :=
    List.takeWhile_eq_self_iff.mpr fun c hc => decide_eq_true fun h0 => hf.name_null (h0 ▸ hc)
  unfold addField
  rw [hid]
  by_cases hlt : id < t.maxFields
  · have hlist : id < t.fieldList.length := by omega
    have hold : (lookup t.fieldList ((id : Int)).toNat : Decoding Int _) = .ok none := by
      unfold lookup
      rw [Int.toNat_natCast, List.getElem?_eq_getElem hlist]
      unfold field at hnew
      rw [List.getD_eq_getElem?_getD, List.getElem?_eq_getElem hlist] at hnew
      exact congrArg Except.ok hnew
    have hsize : ¬ ((f.fieldSize : Int) ≤ 0) := by
      have := hf.size_pos
      omega
    have hlen : ¬ (f.fieldName.length = 0 ∨ 255 < f.fieldName.length) := by
      have := hf.name_pos
      have := hf.name_le
      omega
    have hlift : (lift (.ok () : Except Int Unit) : Decoding Int Unit) = .ok () := rfl
    rw [if_neg (by unfold maxFieldsPerTable; omega), if_pos hlt, hold, ok_bind, Option.isSome_none, if_neg Bool.false_ne_true,
      if_neg hsize, hf.checked, hlift, ok_bind, hname, if_neg hlen]
    rfl
  · rw [if_pos (by omega), if_neg hlt]

theorem encodeField_readsBack {id : Nat} {f : FieldDefinition} (hf : FieldOk f) (n : Nat) (rest : List UInt8)
    (hsize : f.fieldSize ≤ maxPacketSize) :
    unpackFields (n + 1) t (encodeField id f ++ rest) =
      t.addField ((UInt8.ofNat id).toNat : Nat) f.fieldName f.fieldType (f.fieldSize : Nat) >>=
        fun t' => unpackFields n t' rest := by
  have hpos := hf.name_pos
  have hle := hf.name_le
  have hlen : (UInt8.ofNat f.fieldName.length).toNat = f.fieldName.length := toNat_ofNat_of_lt (by omega)
  have hlen0 : ¬ (UInt8.ofNat f.fieldName.length = 0 ∨ (f.fieldName ++ rest).length < (UInt8.ofNat f.fieldName.length).toNat) := by
    rw [hlen, List.length_append, ← UInt8.toNat_inj, hlen]
    rintro (h0 | h0)
    · have hzero : f.fieldName.length = 0 := h0
      omega
    · omega
  have hread := encodeLength_readsBack hsize (UInt8.ofNat f.fieldName.length :: (f.fieldName ++ rest))
  have hroom : ¬ (encodeField id f ++ rest).length < 5 := by
    have hfirst : 1 ≤ encodedBytesLength f.fieldSize := by
      unfold encodedBytesLength
      split_ifs <;> decide
    rw [List.length_append, encodeField_length]
    omega
  have hroom2 : ¬ (UInt8.ofNat f.fieldName.length :: (f.fieldName ++ rest)).length < 2 := by
    rw [List.length_cons, List.length_append]
    omega
  rw [unpackFields, if_neg hroom]
  unfold encodeField
  simp only [List.cons_append, List.append_assoc, next_cons, ok_bind, hread, if_neg hroom2, if_neg hlen0,
    bytes_append hlen.symm, skip_append hlen.symm]

theorem FieldOk.size_le {f : FieldDefinition} (hf : FieldOk f) : f.fieldSize ≤ maxPacketSize := by
  have hcheck := hf.checked
  have hmax : maxPacketSize = 67108864 := rfl
  unfold checkField at hcheck
  split at hcheck
  case h_6 => cases hcheck
  all_goals
    split_ifs at hcheck
    all_goals omega

theorem unpackFields_written : ∀ {fs : List (Nat × FieldDefinition)} {t : TableDefinition} {rest : List UInt8},
    t.fieldList.length = t.maxFields → (∀ f ∈ fs, f.1 ≤ 255 ∧ FieldOk f.2 ∧ t.field f.1 = none) → (fs.map Prod.fst).Nodup →
    (∀ f ∈ fs, f.1 < t.maxFields) →
    unpackFields fs.length t ((fs.flatMap fun f => encodeField f.1 f.2) ++ rest) = .ok (t.enterFields fs, rest)
  | [], _, _, _, _, _, _ => rfl
  | f :: fs, t, rest, hroom, hfs, hnodup, hlt => by
    rw [List.forall_mem_cons] at hfs hlt
    rw [List.map_cons, List.nodup_cons] at hnodup
    obtain ⟨h255, hok, hnew⟩ := hfs.1
    rw [List.flatMap_cons, List.append_assoc, List.length_cons, encodeField_readsBack hok _ _ hok.size_le,
      addField_written hroom h255 hnew hok, if_pos hlt.1, ok_bind]
    have hlist : f.1 < t.fieldList.length := by
      rw [hroom]
      exact hlt.1
    refine unpackFields_written ?_ (fun g hg => ?_) hnodup.2 hlt.2
    · exact (List.length_set ..).trans hroom
    · obtain ⟨hg255, hgok, hgnew⟩ := hfs.2 g hg
      have hne : g.1 ≠ f.1 := fun he => hnodup.1 (he ▸ List.mem_map_of_mem hg)
      refine ⟨hg255, hgok, ?_⟩
      rw [field_enterField hlist, if_neg hne]
      exact hgnew

theorem unpackFields_noRoom : ∀ {fs : List (Nat × FieldDefinition)} {t : TableDefinition} {rest : List UInt8},
    t.fieldList.length = t.maxFields → (∀ f ∈ fs, f.1 ≤ 255 ∧ FieldOk f.2 ∧ t.field f.1 = none) → (fs.map Prod.fst).Nodup →
    (∃ f ∈ fs, t.maxFields ≤ f.1) →
    ∃ e, unpackFields fs.length t ((fs.flatMap fun f => encodeField f.1 f.2) ++ rest) = fail e
  | [], _, _, _, _, _, h => by
    obtain ⟨f, hf, -⟩ := h
    cases hf
  | f :: fs, t, rest, hroom, hfs, hnodup, h => by
    rw [List.forall_mem_cons] at hfs
    rw [List.map_cons, List.nodup_cons] at hnodup
    obtain ⟨h255, hok, hnew⟩ := hfs.1
    rw [List.flatMap_cons, List.append_assoc, List.length_cons, encodeField_readsBack hok _ _ hok.size_le,
      addField_written hroom h255 hnew hok]
    by_cases hlt : f.1 < t.maxFields
    · have hlist : f.1 < t.fieldList.length := by
        rw [hroom]
        exact hlt
      rw [if_pos hlt, ok_bind]
      refine unpackFields_noRoom ((List.length_set ..).trans hroom) (fun g hg => ?_) hnodup.2 ?_
      · obtain ⟨hg255, hgok, hgnew⟩ := hfs.2 g hg
        have hne : g.1 ≠ f.1 := fun he => hnodup.1 (he ▸ List.mem_map_of_mem hg)
        refine ⟨hg255, hgok, ?_⟩
        rw [field_enterField hlist, if_neg hne]
        exact hgnew
      · obtain ⟨g, hg, hge⟩ := h
        rcases List.mem_cons.mp hg with rfl | hg
        · exact absurd hlt (Nat.not_lt.mpr hge)
        · exact ⟨g, hg, hge⟩
    · exact ⟨_, by rw [if_neg hlt]; rfl⟩

theorem enterFields_sound : ∀ {fs : List (Nat × FieldDefinition)} {t : TableDefinition}, t.Sound →
    (∀ f ∈ fs, f.1 ≤ 255 ∧ FieldOk f.2 ∧ t.field f.1 = none ∧ f.1 < t.maxFields) → (fs.map Prod.fst).Nodup →
    (t.enterFields fs).Sound ∧ ∀ id g, (t.enterFields fs).field id = some g ↔ (id, g) ∈ fs ∨ t.field id = some g
  | [], _, h, _, _ => ⟨h, fun id g => by simp [enterFields]⟩
  | f :: fs, t, h, hfs, hnodup => by
    rw [List.forall_mem_cons] at hfs
    rw [List.map_cons, List.nodup_cons] at hnodup
    obtain ⟨h255, hok, hnew, hlt⟩ := hfs.1
    have hlist : f.1 < t.fieldList.length := by
      rw [h.room]
      exact hlt
    have hnext := enterFields_sound (h.enterField hlist h255 hnew hok) (fun g hg => ?_) hnodup.2
    · refine ⟨hnext.1, fun id g => (hnext.2 id g).trans ?_⟩
      rw [field_enterField hlist, List.mem_cons]
      by_cases hid : id = f.1
      · subst hid
        rw [if_pos rfl, hnew]
        have hnot : (f.1, g) ∉ fs := fun hmem => hnodup.1 (List.mem_map.mpr ⟨(f.1, g), hmem, rfl⟩)
        simp [hnot, Prod.ext_iff, eq_comm]
      · rw [if_neg hid]
        simp [Prod.ext_iff, hid]
    · obtain ⟨hg255, hgok, hgnew, hglt⟩ := hfs.2 g hg
      have hne : g.1 ≠ f.1 := fun he => hnodup.1 (he ▸ List.mem_map_of_mem hg)
      refine ⟨hg255, hgok, ?_, hglt⟩
      rw [field_enterField hlist, if_neg hne]
      exact hgnew

def Descending (t : TableDefinition) : Prop := ∀ h, (t.nameHash h).Pairwise (· > ·)

theorem enterFields_descending : ∀ {fs : List (Nat × FieldDefinition)} {t : TableDefinition}, t.Descending →
    (∀ h, ∀ id ∈ t.nameHash h, ∀ f ∈ fs, id < f.1) → (fs.map Prod.fst).Pairwise (· < ·) → (t.enterFields fs).Descending
  | [], _, h, _, _ => h
  | f :: fs, t, h, hbelow, hsorted => by
    rw [List.map_cons, List.pairwise_cons] at hsorted
    refine @enterFields_descending fs (t.enterField f.1 f.2) (fun c => ?_) (fun c id hid g hg => ?_) hsorted.2
    · unfold enterField
      dsimp only
      by_cases hc : c = nameChain f.2.fieldName
      · subst hc
        rw [Function.update_self, List.pairwise_cons]
        exact ⟨fun id hid => hbelow _ id hid f (List.mem_cons_self ..), h _⟩
      · rw [Function.update_of_ne hc]
        exact h c
    · unfold enterField at hid
      dsimp only at hid
      by_cases hc : c = nameChain f.2.fieldName
      · subst hc
        rw [Function.update_self] at hid
        rcases List.mem_cons.mp hid with rfl | hid
        · exact hsorted.1 g.1 (List.mem_map_of_mem hg)
        · exact hbelow _ id hid g (List.mem_cons_of_mem _ hg)
      · rw [Function.update_of_ne hc] at hid
        exact hbelow c id hid g (List.mem_cons_of_mem _ hg)

end Written

/-! ## Names -/

section Names

variable {t t' : TableDefinition}

theorem named_iff {name : List UInt8} {id : Nat} : t.named name id = true ↔ ∃ f, t.field id = some f ∧ f.fieldName = name := by
  unfold named
  rw [Option.any_eq_true]
  simp only [beq_iff_eq]

theorem Sound.mem_chain (h : t.Sound) {name : List UInt8} {id : Nat} (hid : t.named name id = true) :
    id ∈ t.nameHash (nameChain name) := by
  obtain ⟨f, hf, rfl⟩ := named_iff.mp hid
  exact h.chained id f hf

theorem Sound.fieldId_cases (h : t.Sound) (name : List UInt8) :
    (t.fieldId name = -1 ∧ ∀ id, t.named name id = false) ∨ ∃ id : Nat, t.fieldId name = id ∧ t.named name id = true := by
  unfold fieldId
  cases hfind : (t.nameHash (nameChain name)).find? (t.named name) with
  | some id => exact .inr ⟨id, rfl, List.find?_some hfind⟩
  | none =>
    refine .inl ⟨rfl, fun id => ?_⟩
    by_contra hid
    rw [Bool.not_eq_false] at hid
    exact List.find?_eq_none.mp hfind id (h.mem_chain hid) hid

theorem Sound.le_fieldId (h : t.Sound) (hd : t.Descending) (id : Nat) (f : FieldDefinition) (hf : t.field id = some f) :
    (id : Int) ≤ t.fieldId f.fieldName := by
  have hnamed : t.named f.fieldName id = true := named_iff.mpr ⟨f, hf, rfl⟩
  have hfirst : ∀ ids : List Nat, ids.Pairwise (· > ·) → id ∈ ids → ∃ j, ids.find? (t.named f.fieldName) = some j ∧ id ≤ j := by
    intro ids
    induction ids with
    | nil =>
      intro _ hmem
      cases hmem
    | cons j ids ih =>
      intro hpair hmem
      rw [List.pairwise_cons] at hpair
      by_cases hj : t.named f.fieldName j = true
      · refine ⟨j, List.find?_cons_of_pos hj, ?_⟩
        rcases List.mem_cons.mp hmem with rfl | hmem
        · exact Nat.le_refl _
        · exact Nat.le_of_lt (hpair.1 id hmem)
      · rw [List.find?_cons_of_neg hj]
        rcases List.mem_cons.mp hmem with rfl | hmem
        · exact absurd hnamed hj
        · exact ih hpair.2 hmem
  obtain ⟨j, hj, hle⟩ := hfirst _ (hd _) (h.chained id f hf)
  unfold fieldId
  rw [hj]
  exact Int.ofNat_le.mpr hle

theorem fieldId_eq (h : t.Sound) (h' : t'.Sound) (hfield : ∀ id, t'.field id = t.field id)
    (hlast : ∀ id f, t.field id = some f → (id : Int) ≤ t.fieldId f.fieldName)
    (hlast' : ∀ id f, t'.field id = some f → (id : Int) ≤ t'.fieldId f.fieldName) (name : List UInt8) :
    t'.fieldId name = t.fieldId name := by
  have hnamed : ∀ id, t'.named name id = t.named name id := by
    intro id
    unfold named
    rw [hfield]
  obtain ⟨hid, hnone⟩ | ⟨id, hid, hsome⟩ := h.fieldId_cases name <;>
    obtain ⟨hid', hnone'⟩ | ⟨id', hid', hsome'⟩ := h'.fieldId_cases name
  · rw [hid, hid']
  · rw [hnamed, hnone] at hsome'
    cases hsome'
  · rw [← hnamed, hnone'] at hsome
    cases hsome
  · obtain ⟨f, hf, hname⟩ := named_iff.mp hsome
    obtain ⟨f', hf', hname'⟩ := named_iff.mp hsome'
    have hle' := hlast' id f ((hfield id).trans hf)
    have hle := hlast id' f' ((hfield id').symm.trans hf')
    rw [hname] at hle'
    rw [hname'] at hle
    omega

theorem numFields_le (h : t.Sound) (h' : t'.Sound) (hfield : ∀ id, t'.field id = t.field id) : t.numFields ≤ t'.numFields := by
  rcases Nat.eq_zero_or_pos t.numFields with h0 | hpos
  · omega
  · obtain ⟨f, hf⟩ := Option.isSome_iff_exists.mp (h.top (by omega))
    exact (h'.fieldOk t.numFields f ((hfield _).trans hf)).2.1

end Names

/-! ## The exchange -/

section Exchange

variable (scanFloat : List UInt8 → Option (BitVec 64)) (printFloat : BitVec 64 → List UInt8) (md5 : List UInt8 → Digest)
  (t t' : TableDefinition)

/-- **The definitions are the same to those who use them**: the name, the fields by id and by name, the attributes with the
number of key fields, and the hash. -/
structure Same : Prop where
  tableName : t'.tableName = t.tableName
  field : ∀ id, t'.field id = t.field id
  numFields : t'.numFields = t.numFields
  fieldId : ∀ name, t'.fieldId name = t.fieldId name
  attr : ∀ id, t'.attr.tagPresent id = t.attr.tagPresent id ∧
    (t.attr.tagPresent id = true → t'.attr.tagValue id = t.attr.tagValue id)
  keyFieldCount : t'.keyFieldCount = t.keyFieldCount
  hash : t'.hash = (t.buildInfoCache printFloat md5).hash

/-- **The client gets the definition** that the server has packed. -/
def Exchanged : Prop :=
  ∃ t', unpack (construct 0) scanFloat md5 (t.packedTableDefinition printFloat md5) = .ok t' ∧ Same printFloat md5 t t'

/-- **What the exchange asks of a definition**: a name of 1 to 255 bytes; a field behind the first, at most 255 fields in all
and no gap between their ids; and of the fields with one name, the last is the one that is found. -/
structure Exchangeable : Prop where
  name_pos : 0 < t.tableName.length
  name_le : t.tableName.length ≤ 255
  fields_pos : 0 < t.numFields
  fields_le : t.numFields ≤ 254
  noGap : ∀ id ≤ t.numFields, (t.field id).isSome
  names : ∀ id f, t.field id = some f → (id : Int) ≤ t.fieldId f.fieldName

end Exchange

section Read

variable {scanFloat : List UInt8 → Option (BitVec 64)} {printFloat : BitVec 64 → List UInt8} {md5 : List UInt8 → Digest}
  {t : TableDefinition}

/-- A client's table with room for `nf` fields. -/
def receiver (nf : Nat) (name hash : List UInt8) : TableDefinition := { construct nf with tableName := name, hash := hash }

theorem receiver_sound (nf : Nat) (name hash : List UInt8) : (receiver nf name hash).Sound := { construct_sound nf with }

theorem enterFields_keeps (fs : List (Nat × FieldDefinition)) (t : TableDefinition) :
    (t.enterFields fs).tableName = t.tableName ∧ (t.enterFields fs).hash = t.hash ∧ (t.enterFields fs).attr = t.attr ∧
      (t.enterFields fs).keyFields = t.keyFields := by
  unfold enterFields
  induction fs generalizing t with
  | nil => exact ⟨rfl, rfl, rfl, rfl⟩
  | cons f fs ih => exact ih (t.enterField f.1 f.2)

theorem attr_readsBack (h : t.Sound) :
    ∃ attr, decodeSimpleSection scanFloat (encodeSimpleSection printFloat t.attr .none) { definition := tableAttributeDefinition }
        FieldType.none.code = .ok attr ∧
      ∀ id, attr.tagPresent id = t.attr.tagPresent id ∧ (t.attr.tagPresent id = true → attr.tagValue id = t.attr.tagValue id) := by
  rw [← h.attrs.1]
  refine decodeSimpleSection_written fun id hid => ?_
  obtain ⟨hid, w, hw⟩ := h.attrs.2 id hid
  unfold SimpleSection.fieldTypeOf
  rw [hw, h.attrs.1]
  rcases hid with rfl | rfl
  · rfl
  · rfl

theorem fields_length (h : t.Sound) : t.fields.length = t.fieldIds.length := by
  rw [← map_fst_fields h, List.length_map]

theorem fieldIds_length_le : t.fieldIds.length ≤ t.numFields + 1 := by
  unfold fieldIds
  exact (List.length_filter_le ..).trans_eq List.length_range

theorem numFields_le_255 (h : t.Sound) : t.numFields ≤ 255 := by
  by_cases h0 : t.numFields = 0
  · omega
  · obtain ⟨f, hf⟩ := Option.isSome_iff_exists.mp (h.top h0)
    exact (h.fieldOk _ f hf).1

theorem unpack_packed (h : t.Sound) (hpos : 0 < t.tableName.length) (hle : t.tableName.length ≤ 255) (hfields : t.numFields ≠ 0) :
    unpack (construct 0) scanFloat md5 (t.packedTableDefinition printFloat md5) =
      if UInt8.ofNat t.fieldIds.length = 0 then fail (-ecBadSectionLength)
      else unpackFields (UInt8.ofNat t.fieldIds.length).toNat
        (receiver (UInt8.ofNat t.fieldIds.length).toNat t.tableName (md5 (t.packedBody printFloat)).bytes)
        (t.fields.flatMap (fun f => encodeField f.1 f.2) ++ encodeSimpleSection printFloat t.attr .none) >>= fun r =>
          handle (decodeSimpleSection scanFloat r.2 r.1.attr FieldType.none.code) (fun e => fail e.1)
            (fun attr => pure { r.1 with attr := attr }) := by
  have hlen : (UInt8.ofNat t.tableName.length).toNat = t.tableName.length := toNat_ofNat_of_lt (by omega)
  have hlen0 : UInt8.ofNat t.tableName.length ≠ 0 := by
    intro h0
    rw [h0] at hlen
    exact absurd hlen (Nat.ne_of_lt hpos)
  obtain ⟨f, hf⟩ := Option.isSome_iff_exists.mp (h.top hfields)
  have hok := (h.fieldOk _ f hf).2.2
  have hfirst : 5 ≤ (t.fields.flatMap fun f => encodeField f.1 f.2).length := by
    have hmem : encodeField t.numFields f ∈ t.fields.map fun f => encodeField f.1 f.2 :=
      List.mem_map.mpr ⟨_, (mem_fields h).mpr hf, rfl⟩
    have hinfix := (List.infix_of_mem_flatten hmem).length_le
    have hsize : 1 ≤ encodedBytesLength f.fieldSize := by
      unfold encodedBytesLength
      split_ifs <;> decide
    have hname := hok.name_pos
    rw [encodeField_length] at hinfix
    rw [List.flatMap_def]
    omega
  have hroom : ¬ ((md5 (t.packedBody printFloat)).bytes ++ t.packedBody printFloat).length < 24 := by
    rw [List.length_append, (md5 _).length_eq]
    unfold packedBody
    simp only [List.length_cons, List.length_append]
    omega
  have hbytes : (bytes ((md5 (t.packedBody printFloat)).bytes ++ t.packedBody printFloat) 16 : Decoding Int _) =
      .ok (md5 (t.packedBody printFloat)).bytes := bytes_append (md5 _).length_eq
  have hskip : (skip ((md5 (t.packedBody printFloat)).bytes ++ t.packedBody printFloat) 16 : Decoding Int _) =
      .ok (t.packedBody printFloat) := skip_append (md5 _).length_eq
  unfold packedTableDefinition unpack
  rw [if_neg hfields, if_neg (by rintro (h0 | h0) <;> exact h0 rfl), if_neg hroom, hbytes, hskip]
  simp only [ok_bind]
  rw [if_neg fun hne => hne rfl]
  generalize (md5 (t.packedBody printFloat)).bytes = digest
  unfold packedBody
  have hmore : ¬ (UInt8.ofNat t.tableName.length = 0 ∨
      (t.tableName ++ UInt8.ofNat t.fieldIds.length :: ((t.fields.flatMap fun f => encodeField f.1 f.2) ++
        encodeSimpleSection printFloat t.attr .none)).length < (UInt8.ofNat t.tableName.length).toNat + 1) := by
    rw [hlen, List.length_append, List.length_cons]
    rintro (h0 | h0)
    · exact hlen0 h0
    · omega
  simp only [next_cons, ok_bind, if_neg hmore, bytes_append hlen.symm, skip_append hlen.symm, ne_eq, not_true_eq_false, if_false]
  rfl

theorem fields_new (h : t.Sound) (nf : Nat) (name hash : List UInt8) :
    ∀ f ∈ t.fields, f.1 ≤ 255 ∧ FieldOk f.2 ∧ (receiver nf name hash).field f.1 = none := by
  intro f hf
  obtain ⟨h255, -, hok⟩ := h.fieldOk f.1 f.2 ((mem_fields h).mp hf)
  exact ⟨h255, hok, field_construct nf f.1⟩

theorem fields_nodup (h : t.Sound) : (t.fields.map Prod.fst).Nodup := by
  rw [map_fst_fields h]
  exact fieldIds_nodup

theorem fieldIds_sorted : t.fieldIds.Pairwise (· < ·) := List.pairwise_lt_range.filter _

theorem entered_spec (h : t.Sound) (name hash : List UInt8) (hlt : ∀ f ∈ t.fields, f.1 < t.fields.length) :
    (enterFields (receiver t.fields.length name hash) t.fields).Sound ∧
      (∀ id, (enterFields (receiver t.fields.length name hash) t.fields).field id = t.field id) ∧
      (enterFields (receiver t.fields.length name hash) t.fields).Descending := by
  have hnew := fields_new h t.fields.length name hash
  obtain ⟨hsound, hentered⟩ := enterFields_sound (receiver_sound t.fields.length name hash)
    (fun f hf => ⟨(hnew f hf).1, (hnew f hf).2.1, (hnew f hf).2.2, hlt f hf⟩) (fields_nodup h)
  refine ⟨hsound, fun id => Option.ext fun f => (hentered id f).trans ?_, ?_⟩
  · have hnone : (receiver t.fields.length name hash).field id = none := field_construct _ id
    rw [mem_fields h, hnone]
    exact or_iff_left fun hf => by cases hf
  · refine enterFields_descending (fun _ => List.Pairwise.nil) (fun _ id hid => by cases hid) ?_
    rw [map_fst_fields h]
    exact fieldIds_sorted

theorem Exchangeable.fieldIds_eq (hx : t.Exchangeable) : t.fieldIds = List.range (t.numFields + 1) := by
  unfold fieldIds
  exact List.filter_eq_self.mpr fun id hid => hx.noGap id (Nat.le_of_lt_succ (List.mem_range.mp hid))

theorem Exchangeable.exchanged (h : t.Sound) (hx : t.Exchangeable) :
    ∃ t', unpack (construct 0) scanFloat md5 (t.packedTableDefinition printFloat md5) = .ok t' ∧ Same printFloat md5 t t' := by
  have hids : t.fieldIds.length = t.numFields + 1 := by
    rw [hx.fieldIds_eq, List.length_range]
  have hfields := hx.fields_le
  have hnf : (UInt8.ofNat t.fieldIds.length).toNat = t.fields.length := by
    rw [fields_length h]
    exact toNat_ofNat_of_lt (by omega)
  have hnf0 : UInt8.ofNat t.fieldIds.length ≠ 0 := by
    intro h0
    rw [h0, fields_length h, hids] at hnf
    exact absurd hnf (Nat.succ_ne_zero _).symm
  have hlt : ∀ f ∈ t.fields, f.1 < t.fields.length := by
    intro f hf
    have hle := (h.fieldOk f.1 f.2 ((mem_fields h).mp hf)).2.1
    rw [fields_length h]
    omega
  set digest := (md5 (t.packedBody printFloat)).bytes
  have hnew := fields_new h t.fields.length t.tableName digest
  obtain ⟨hsound, hfield, hdesc⟩ := entered_spec h t.tableName digest hlt
  obtain ⟨hname, hhash, hattr, -⟩ := enterFields_keeps t.fields (receiver t.fields.length t.tableName digest)
  obtain ⟨attr, hread, htags⟩ := @attr_readsBack scanFloat printFloat t h
  have hnum := Nat.le_antisymm (numFields_le hsound h fun id => (hfield id).symm) (numFields_le h hsound hfield)
  have hfind := fieldId_eq h hsound hfield hx.names (hsound.le_fieldId hdesc)
  refine ⟨{ enterFields (receiver t.fields.length t.tableName digest) t.fields with attr := attr }, ?_, ?_⟩
  · rw [unpack_packed h hx.name_pos hx.name_le (Nat.ne_of_gt hx.fields_pos), if_neg hnf0, hnf,
      unpackFields_written List.length_replicate hnew (fields_nodup h) hlt, ok_bind]
    dsimp only
    rw [hattr]
    exact congrArg (handle · _ _) hread
  · exact
      { tableName := hname
        field := hfield
        numFields := hnum
        fieldId := hfind
        attr := htags
        keyFieldCount := by
          unfold keyFieldCount
          dsimp only
          rw [(htags 3).1]
          split_ifs with h3
          · rw [(htags 3).2 h3]
          · rfl
        hash := by
          unfold buildInfoCache
          rw [if_neg (Nat.ne_of_gt hx.fields_pos)]
          exact hhash }

theorem unpackFields_of_ok (h : t.Sound) (hpos : 0 < t.tableName.length) (hle : t.tableName.length ≤ 255)
    (hfields : t.numFields ≠ 0) {t' : TableDefinition}
    (hok : unpack (construct 0) scanFloat md5 (t.packedTableDefinition printFloat md5) = .ok t') :
    t.fieldIds.length ≤ 255 ∧ (∀ f ∈ t.fields, f.1 < t.fields.length) ∧ ∃ attr,
      t' = { enterFields (receiver t.fields.length t.tableName (md5 (t.packedBody printFloat)).bytes) t.fields with attr := attr } := by
  rw [unpack_packed h hpos hle hfields] at hok
  split_ifs at hok with hnf0
  · cases hok
  have hnum := numFields_le_255 h
  have hlen := @fieldIds_length_le t
  have h255 : t.fieldIds.length ≤ 255 := by
    by_contra hgt
    have h256 : t.fieldIds.length = 256 := by omega
    exact hnf0 (by rw [h256]; rfl)
  have hnf : (UInt8.ofNat t.fieldIds.length).toNat = t.fields.length := by
    rw [fields_length h]
    exact toNat_ofNat_of_lt (by omega)
  rw [hnf] at hok
  have hnew := fields_new h t.fields.length t.tableName (md5 (t.packedBody printFloat)).bytes
  have hlt : ∀ f ∈ t.fields, f.1 < t.fields.length := by
    by_contra hgap
    push Not at hgap
    obtain ⟨e, he⟩ := @unpackFields_noRoom t.fields _ (encodeSimpleSection printFloat t.attr .none) List.length_replicate hnew
      (fields_nodup h) hgap
    rw [he] at hok
    cases hok
  refine ⟨h255, hlt, ?_⟩
  rw [unpackFields_written List.length_replicate hnew (fields_nodup h) hlt, ok_bind] at hok
  obtain ⟨attr, hattr, -⟩ | ⟨e, he, -⟩ := (@decodeSimpleSection_ends (encodeSimpleSection printFloat t.attr .none) scanFloat
    (enterFields (receiver t.fields.length t.tableName (md5 (t.packedBody printFloat)).bytes) t.fields).attr
    FieldType.none.code).ok_or_fail
  · dsimp only at hok
    rw [hattr] at hok
    exact ⟨attr, (Except.ok.inj hok).symm⟩
  · dsimp only at hok
    rw [he] at hok
    cases hok

theorem exchangeable_of_exchanged (h : t.Sound) (hx : t.Exchanged scanFloat printFloat md5) : t.Exchangeable := by
  obtain ⟨t', hok, hsame⟩ := hx
  have hends := unpack_ends scanFloat md5 (t.packedTableDefinition printFloat md5)
  rw [hok] at hends
  obtain ⟨hpos, hle, -⟩ := hends
  rw [hsame.tableName] at hpos hle
  have hfields : t.numFields ≠ 0 := by
    intro h0
    unfold packedTableDefinition at hok
    rw [if_pos h0] at hok
    cases hok
  obtain ⟨h255, hlt, attr, rfl⟩ := unpackFields_of_ok h hpos hle hfields hok
  obtain ⟨f, hf⟩ := Option.isSome_iff_exists.mp (h.top hfields)
  have htop := hlt (t.numFields, f) ((mem_fields h).mpr hf)
  have hlen := @fieldIds_length_le t
  rw [fields_length h] at htop
  dsimp only at htop
  have hall : ∀ id ∈ List.range (t.numFields + 1), (t.field id).isSome = true := by
    refine List.length_filter_eq_length_iff.mp ?_
    rw [List.length_range]
    exact Nat.le_antisymm hlen htop
  exact
    { name_pos := hpos
      name_le := hle
      fields_pos := Nat.pos_of_ne_zero hfields
      fields_le := by omega
      noGap := fun id hid => hall id (List.mem_range.mpr (Nat.lt_succ_of_le hid))
      names := fun id f hf => by
        have hfind := hsame.fieldId f.fieldName
        obtain ⟨hsound, hfield, hdesc⟩ := entered_spec h t.tableName (md5 (t.packedBody printFloat)).bytes hlt
        exact (hsound.le_fieldId hdesc id f ((hfield id).trans hf)).trans_eq hfind }

end Read

/-- **Exactly the exchangeable definitions reach the client**, of all that are built; the member for the number of key fields is
not set there.  What is written stays in its room, and any bytes are read within bounds. -/
theorem build_exchanged (scanFloat : List UInt8 → Option (BitVec 64)) (printFloat : BitVec 64 → List UInt8)
    (md5 : List UInt8 → Digest) (m : Nat) (acts : List BuildAct) :
    let t := build m acts
    ((t.packedTableDefinition printFloat md5).length ≤ t.packedRoom printFloat ∧
      t.packedFullFieldSet.length ≤ 1 + t.usedFields + 2 ∧ t.packedFieldSet.length ≤ 1 + t.usedFields) ∧
    (t.Exchanged scanFloat printFloat md5 ↔ t.Exchangeable) ∧
    ((∃ t', unpack (construct 0) scanFloat md5 (t.packedTableDefinition printFloat md5) = .ok t' ∧ Same printFloat md5 t t' ∧
      t'.keyFields = t.keyFields) ↔ t.Exchangeable ∧ t.keyFields = 0) ∧
    ∀ bin, Ends (unpack (construct 0) scanFloat md5 bin) (fun _ => True) (fun _ => True) := by
  intro t
  have h : t.Sound := build_sound m acts
  have hkey : ∀ {t'}, unpack (construct 0) scanFloat md5 (t.packedTableDefinition printFloat md5) = .ok t' → t'.keyFields = 0 := by
    intro t' hok
    have hends := unpack_ends scanFloat md5 (t.packedTableDefinition printFloat md5)
    rw [hok] at hends
    exact hends.2.2
  refine ⟨⟨packedTableDefinition_length printFloat md5, packedFieldSets_length h⟩, ⟨exchangeable_of_exchanged h, fun hx => hx.exchanged h⟩,
    ⟨?_, ?_⟩, fun bin => (unpack_ends scanFloat md5 bin).mono fun _ _ => trivial⟩
  · rintro ⟨t', hok, hsame, hkeys⟩
    exact ⟨exchangeable_of_exchanged h ⟨t', hok, hsame⟩, hkeys.symm.trans (hkey hok)⟩
  · rintro ⟨hx, h0⟩
    obtain ⟨t', hok, hsame⟩ := @Exchangeable.exchanged scanFloat printFloat md5 t h hx
    exact ⟨t', hok, hsame, (hkey hok).trans h0.symm⟩

/-- A table of a key and the field 1. -/
example : (build 2 [.setTableName [116], .addField 0 [107] 2 4, .addField 1 [118] 4 255, .setKeyFields 1]).Exchangeable where
  name_pos := by decide
  name_le := by decide
  fields_pos := by decide
  fields_le := by decide
  noGap := by decide
  names id f hf := by
    have hle := ((build_sound 2 _).fieldOk id f hf).2.1
    have h1 : id ≤ 1 := hle
    interval_cases id
    · obtain rfl := Option.some.inj hf
      decide
    · obtain rfl := Option.some.inj hf
      decide

def gapActs : List BuildAct := [.setTableName [116], .addField 0 [107] 2 4, .addField 2 [118] 4 255, .setKeyFields 1]

theorem build_notExchanged : ¬ (build 3 gapActs).Exchanged (fun _ => none) (fun _ => []) (fun _ => ⟨List.replicate 16 0, rfl⟩) := by
  rintro ⟨t', hok, -⟩
  have hfail : unpack (construct 0) (fun _ => none) (fun _ => ⟨List.replicate 16 0, rfl⟩)
      ((build 3 gapActs).packedTableDefinition (fun _ => []) (fun _ => ⟨List.replicate 16 0, rfl⟩)) = fail (-ecBadFieldId) := rfl
  rw [hfail] at hok
  cases hok

end TableDefinition

end Dtc
