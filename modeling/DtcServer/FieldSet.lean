import DtcServer.Protocol
import Mathlib.Data.List.Perm.Subperm
import Mathlib.Data.List.Nodup
/-!
# FieldSet — the field set of a request (`CFieldSet`, `DecodeFieldId`, `CTask::DecodeFieldSet`)

The section lists the fields a request asks for, by id or by name.  An id that is listed twice is stored once; the array that
the ids are stored in is allocated for the fields of the table.
-/
namespace Dtc

def ecBadSectionLength : Int := 2006
def ecExtraSectionData : Int := 2011

/-- `NumFields`: the last field id. -/
def TableDef.numFields (tdef : TableDef) : Nat := tdef.fieldList.length - 1

/-- `CFieldSet`: `maxFields` is the byte `fieldId[-2]`, `ids` are the first `fieldId[-1]` bytes behind it, and `room` is the
number of bytes that are allocated for them. -/
structure CFieldSet where
  maxFields : UInt8
  room : Nat
  ids : List UInt8
  fieldMask : UInt8 → Bool
  max_le : maxFields.toNat ≤ room

namespace CFieldSet

def buildFieldMask (ids : List UInt8) (mask : UInt8 → Bool) : UInt8 → Bool := fun id => mask id || ids.contains id

theorem toNat_min_le (n : Nat) : (UInt8.ofNat (min n 255)).toNat ≤ min n 255 := by
  rw [UInt8.toNat_ofNat']
  exact Nat.mod_le _ _

/-- The constructor with a total; `memcpy` writes the ids whether they fit or not. -/
def make (idtab : List UInt8) (total : Nat) : CFieldSet where
  maxFields := UInt8.ofNat (min total 255)
  room := min total 255
  ids := idtab.take 255
  fieldMask := buildFieldMask (idtab.take 255) (fun _ => false)
  max_le := toNat_min_le total

def clean (f : CFieldSet) : CFieldSet := { f with ids := [], fieldMask := fun _ => false }

def set (f : CFieldSet) (idtab : List UInt8) : CFieldSet :=
  { f with ids := idtab.take 255, fieldMask := buildFieldMask (idtab.take 255) f.fieldMask }

/-- `Realloc`: the byte of the total wraps. -/
def realloc (f : CFieldSet) (total : Nat) : CFieldSet where
  maxFields := UInt8.ofNat total
  room := total
  ids := f.ids
  fieldMask := f.fieldMask
  max_le := by
    rw [UInt8.toNat_ofNat']
    exact Nat.mod_le _ _

end CFieldSet

/-- `DecodeFieldId`: the id, whether it was given by name, and what is left of the section. -/
def decodeFieldId (tdef : TableDef) : List UInt8 → Except Int (UInt8 × Bool × List UInt8)
  | [] => .error (-ecBadSectionLength)
  | n :: bin =>
    if n ≠ 0 then .ok (n, false, bin)
    else
      match bin with
      | [] => .error (-ecBadSectionLength)
      | n :: bin =>
        if n = 0 then .ok (n, false, bin)
        else if bin.length < n.toNat then .error (-ecBadSectionLength)
        else if tdef.fieldId (bin.take n.toNat) < 0 then .error (-ecBadFieldName)
        else .ok (UInt8.ofNat (tdef.fieldId (bin.take n.toNat)).toNat, true, bin.drop n.toNat)

/-- The loop of `DecodeFieldSet` behind `idtab` and `mask`; the last part says whether the table definition is needed. -/
def fieldSetLoop (tdef : TableDef) : Nat → List UInt8 → List UInt8 → (UInt8 → Bool) → Bool →
    Except Int (List UInt8 × Bool × List UInt8)
  | 0, bin, idtab, _, need => .ok (idtab, need, bin)
  | n + 1, bin, idtab, mask, need =>
    match decodeFieldId tdef bin with
    | .error err => .error err
    | .ok (id, nd, bin) =>
      if mask id then fieldSetLoop tdef n bin idtab mask need
      else fieldSetLoop tdef n bin (idtab ++ [id]) (fun i => mask i || i == id) (need || nd)

/-- `DecodeFieldSet` of a task with the field set `fieldList`: the field set of the task then, and whether the table
definition is needed. -/
def decodeFieldSet (tdef : TableDef) (fieldList : Option CFieldSet) : List UInt8 → Except Int (Option CFieldSet × Bool)
  | [] => .error (-ecBadSectionLength)
  | num :: bin =>
    if num = 0 then .ok (fieldList, false)
    else
      match fieldSetLoop tdef num.toNat bin [] (fun _ => false) false with
      | .error err => .error err
      | .ok (idtab, need, bin) =>
        if bin ≠ [] then .error (-ecExtraSectionData)
        else
          match fieldList with
          | none => .ok (some (CFieldSet.make idtab (tdef.numFields + 1)), need)
          | some f =>
            let f := if f.maxFields.toNat < tdef.numFields + 1 then f.realloc (tdef.numFields + 1) else f
            .ok (some (f.set idtab), need)

def listedIds (tdef : TableDef) : Nat → List UInt8 → Except Int (List UInt8 × List UInt8)
  | 0, bin => .ok ([], bin)
  | n + 1, bin =>
    match decodeFieldId tdef bin with
    | .error err => .error err
    | .ok (id, _, bin) =>
      match listedIds tdef n bin with
      | .error err => .error err
      | .ok (ids, bin) => .ok (id :: ids, bin)

/-- **Every field that a well-formed section lists is one of the table.** -/
def ListsOwnFields (tdef : TableDef) : List UInt8 → Prop
  | [] => True
  | num :: bin => ∀ ids, listedIds tdef num.toNat bin = .ok (ids, []) → ∀ id ∈ ids, id.toNat ≤ tdef.numFields

/-- The field set is one of the table's fields, and its ids are inside the array, where `AddField` stays too. -/
structure CFieldSet.Contained (tdef : TableDef) (f : CFieldSet) : Prop where
  fields : ∀ id ∈ f.ids, id.toNat ≤ tdef.numFields
  fits : f.ids.length ≤ f.room
  grows : f.maxFields.toNat ≤ f.room

/-- What the loop stores of the ids that are listed: each once, in the order of their first entries. -/
def distinct (idtab : List UInt8) : List UInt8 → List UInt8
  | [] => idtab
  | id :: ids => if id ∈ idtab then distinct idtab ids else distinct (idtab ++ [id]) ids

theorem mem_distinct {id : UInt8} : ∀ (ids idtab : List UInt8), id ∈ distinct idtab ids ↔ id ∈ idtab ∨ id ∈ ids
  | [], idtab => by simp [distinct]
  | j :: ids, idtab => by
    rw [distinct]
    split
    · next hj =>
      rw [mem_distinct ids idtab, List.mem_cons]
      constructor
      · exact fun h => h.imp_right .inr
      · rintro (h | rfl | h)
        · exact .inl h
        · exact .inl hj
        · exact .inr h
    · rw [mem_distinct ids _, List.mem_append, List.mem_singleton, List.mem_cons, or_assoc]

theorem nodup_distinct : ∀ (ids idtab : List UInt8), idtab.Nodup → (distinct idtab ids).Nodup
  | [], _, h => h
  | j :: ids, idtab, h => by
    rw [distinct]
    split
    · exact nodup_distinct ids idtab h
    · next hj =>
      refine nodup_distinct ids _ (List.nodup_append.mpr ⟨h, List.nodup_singleton j, fun a ha b hb => ?_⟩)
      rw [List.mem_singleton.mp hb]
      rintro rfl
      exact hj ha

theorem length_distinct : ∀ (ids idtab : List UInt8), (distinct idtab ids).length ≤ idtab.length + ids.length
  | [], idtab => Nat.le_refl _
  | j :: ids, idtab => by
    rw [distinct, List.length_cons]
    split
    · exact Nat.le_succ_of_le (length_distinct ids idtab)
    · have h := length_distinct ids (idtab ++ [j])
      rw [List.length_append, List.length_singleton] at h
      omega

theorem fieldSetLoop_eq (tdef : TableDef) : ∀ (n : Nat) (bin idtab : List UInt8) (mask : UInt8 → Bool) (need : Bool),
    (∀ id, mask id = true ↔ id ∈ idtab) →
      match listedIds tdef n bin with
      | .error err => fieldSetLoop tdef n bin idtab mask need = .error err
      | .ok (ids, rest) => ∃ need', fieldSetLoop tdef n bin idtab mask need = .ok (distinct idtab ids, need', rest)
  | 0, bin, idtab, mask, need, _ => ⟨need, rfl⟩
  | n + 1, bin, idtab, mask, need, hmask => by
    rw [listedIds, fieldSetLoop]
    cases decodeFieldId tdef bin with
    | error err => rfl
    | ok r =>
      obtain ⟨id, nd, bin'⟩ := r
      dsimp only
      by_cases hid : id ∈ idtab
      · rw [if_pos ((hmask id).mpr hid)]
        have ih := fieldSetLoop_eq tdef n bin' idtab mask need hmask
        cases hl : listedIds tdef n bin' with
        | error err =>
          rw [hl] at ih
          exact ih
        | ok r =>
          rw [hl] at ih
          obtain ⟨need', h⟩ := ih
          refine ⟨need', ?_⟩
          rw [h, distinct, if_pos hid]
      · rw [if_neg (fun h => hid ((hmask id).mp h))]
        have hmask' : ∀ i, (mask i || i == id) = true ↔ i ∈ idtab ++ [id] := by
          intro i
          rw [Bool.or_eq_true, hmask, beq_iff_eq, List.mem_append, List.mem_singleton]
        have ih := fieldSetLoop_eq tdef n bin' (idtab ++ [id]) (fun i => mask i || i == id) (need || nd) hmask'
        cases hl : listedIds tdef n bin' with
        | error err =>
          rw [hl] at ih
          exact ih
        | ok r =>
          rw [hl] at ih
          obtain ⟨need', h⟩ := ih
          refine ⟨need', ?_⟩
          rw [h, distinct, if_neg hid]

theorem listedIds_length (tdef : TableDef) : ∀ (n : Nat) (bin ids rest : List UInt8),
    listedIds tdef n bin = .ok (ids, rest) → ids.length = n
  | 0, bin, ids, rest, h => by
    obtain ⟨rfl, -⟩ := Prod.mk.inj (Except.ok.inj h)
    rfl
  | n + 1, bin, ids, rest, h => by
    rw [listedIds] at h
    split at h
    · cases h
    · next id nd bin' hid =>
      split at h
      · cases h
      · next ids' rest' hl =>
        obtain ⟨rfl, -⟩ := Prod.mk.inj (Except.ok.inj h)
        rw [List.length_cons, listedIds_length tdef n bin' ids' rest' hl]

theorem length_le_of_fields {ids : List UInt8} {n : Nat} (hnd : ids.Nodup) (h : ∀ id ∈ ids, id.toNat ≤ n) :
    ids.length ≤ n + 1 := by
  have hmap : (ids.map UInt8.toNat).Nodup := hnd.map (fun _ _ h => UInt8.toNat_inj.mp h)
  have hsub : ids.map UInt8.toNat ⊆ List.range (n + 1) := by
    intro k hk
    obtain ⟨id, hid, rfl⟩ := List.mem_map.mp hk
    exact List.mem_range.mpr (Nat.lt_succ_of_le (h id hid))
  have hle := (hmap.subperm hsub).length_le
  rw [List.length_map, List.length_range] at hle
  exact hle

theorem decodeFieldSet_ok {tdef : TableDef} (fieldList : Option CFieldSet) {num : UInt8} {bin ids : List UInt8}
    (hnum : num ≠ 0) (h : listedIds tdef num.toNat bin = .ok (ids, [])) :
    ∃ f need, decodeFieldSet tdef fieldList (num :: bin) = .ok (some f, need) ∧ f.ids = distinct [] ids ∧
      min (tdef.numFields + 1) 255 ≤ f.room := by
  have hloop := fieldSetLoop_eq tdef num.toNat bin [] (fun _ => false) false (fun id => by simp)
  rw [h] at hloop
  obtain ⟨need, hloop⟩ := hloop
  have htake : (distinct [] ids).take 255 = distinct [] ids := by
    refine List.take_of_length_le (Nat.le_trans (length_distinct ids []) ?_)
    rw [List.length_nil, Nat.zero_add, listedIds_length tdef _ _ _ _ h]
    exact Nat.le_of_lt_succ num.toNat_lt
  rw [decodeFieldSet, if_neg hnum, hloop]
  dsimp only
  rw [if_neg (fun h => h rfl)]
  cases fieldList with
  | none => exact ⟨_, need, rfl, htake, Nat.le_refl _⟩
  | some g =>
    refine ⟨_, need, rfl, htake, Nat.le_trans (Nat.min_le_left _ _) ?_⟩
    show _ ≤ (if g.maxFields.toNat < tdef.numFields + 1 then g.realloc (tdef.numFields + 1) else g).room
    split
    · exact Nat.le_refl _
    · next hge => exact Nat.le_trans (Nat.not_lt.mp hge) g.max_le

theorem decodeFieldSet_error {tdef : TableDef} (fieldList : Option CFieldSet) {num : UInt8} {bin : List UInt8}
    (hnum : num ≠ 0) (h : ∀ ids, listedIds tdef num.toNat bin ≠ .ok (ids, [])) :
    ∃ err, decodeFieldSet tdef fieldList (num :: bin) = .error err := by
  have hloop := fieldSetLoop_eq tdef num.toNat bin [] (fun _ => false) false (fun id => by simp)
  rw [decodeFieldSet, if_neg hnum]
  cases hl : listedIds tdef num.toNat bin with
  | error err =>
    rw [hl] at hloop
    rw [hloop]
    exact ⟨err, rfl⟩
  | ok r =>
    obtain ⟨ids, rest⟩ := r
    rw [hl] at hloop
    obtain ⟨need, hloop⟩ := hloop
    rw [hloop]
    dsimp only
    rw [if_pos (fun hrest => h ids (by rw [hl, hrest]))]
    exact ⟨_, rfl⟩

/-- **A field set stays inside its array exactly for the sections that list fields of the table.**  The task is new, or one
from the pool that was cleaned. -/
theorem decodeFieldSet_contained_iff (tdef : TableDef) (pooled : Option CFieldSet) (d : List UInt8) :
    (∀ f need, decodeFieldSet tdef (pooled.map CFieldSet.clean) d = .ok (some f, need) → f.Contained tdef) ↔
      ListsOwnFields tdef d := by
  have hclean : ∀ f, pooled.map CFieldSet.clean = some f → f.Contained tdef := by
    intro f hf
    obtain ⟨g, -, rfl⟩ := Option.map_eq_some_iff.mp hf
    exact ⟨fun id hid => absurd hid List.not_mem_nil, Nat.zero_le _, g.max_le⟩
  cases d with
  | nil => exact ⟨fun _ => trivial, fun _ f need h => by cases h⟩
  | cons num bin =>
    by_cases hnum : num = 0
    · subst hnum
      refine ⟨fun _ ids hids id hid => ?_, fun _ f need h => ?_⟩
      · obtain ⟨rfl, -⟩ := Prod.mk.inj (Except.ok.inj hids)
        exact absurd hid List.not_mem_nil
      · exact hclean f (Prod.mk.inj (Except.ok.inj h)).1
    · constructor
      · intro hall ids hids id hid
        obtain ⟨f, need, hf, hfids, -⟩ := decodeFieldSet_ok (pooled.map CFieldSet.clean) hnum hids
        refine (hall f need hf).fields id ?_
        rw [hfids, mem_distinct]
        exact .inr hid
      · intro hown f need hf
        by_cases hok : ∃ ids, listedIds tdef num.toNat bin = .ok (ids, [])
        · obtain ⟨ids, hids⟩ := hok
          obtain ⟨g, need', hg, hgids, hroom⟩ := decodeFieldSet_ok (pooled.map CFieldSet.clean) hnum hids
          obtain ⟨rfl, -⟩ : g = f ∧ need' = need := by
            rw [hg] at hf
            obtain ⟨h1, h2⟩ := Prod.mk.inj (Except.ok.inj hf)
            exact ⟨Option.some.inj h1, h2⟩
          have hfields : ∀ id ∈ g.ids, id.toNat ≤ tdef.numFields := by
            intro id hid
            rw [hgids, mem_distinct] at hid
            exact hown ids hids id (hid.resolve_left List.not_mem_nil)
          have hnd : g.ids.Nodup := by
            rw [hgids]
            exact nodup_distinct ids [] List.nodup_nil
          have hlen : g.ids.length ≤ 255 := by
            rw [hgids]
            have h := length_distinct ids []
            rw [List.length_nil, Nat.zero_add, listedIds_length tdef _ _ _ _ hids] at h
            exact Nat.le_trans h (Nat.le_of_lt_succ num.toNat_lt)
          exact ⟨hfields, Nat.le_trans (Nat.le_min.mpr ⟨length_le_of_fields hnd hfields, hlen⟩) hroom, g.max_le⟩
        · obtain ⟨err, herr⟩ := decodeFieldSet_error (pooled.map CFieldSet.clean) hnum
            (fun ids hids => hok ⟨ids, hids⟩)
          rw [herr] at hf
          cases hf

def twoFields : TableDef where
  fieldList := [⟨[107], .signed, 4, 0, false⟩, ⟨[118], .signed, 4, 0, false⟩]
  keyFields := 1
  keyFormat := 4

/-- **Four ids are written into room for two.** -/
theorem decodeFieldSet_overflow : ∃ f, decodeFieldSet twoFields none [4, 1, 2, 3, 200] = .ok (some f, false) ∧
    f.ids = [1, 2, 3, 200] ∧ f.room = 2 ∧ ¬ f.Contained twoFields := by
  refine ⟨CFieldSet.make [1, 2, 3, 200] 2, rfl, rfl, rfl, fun h => ?_⟩
  exact absurd h.fits (by decide)

end Dtc
