import DtcServer.MultiKey
import Mathlib.Data.List.Perm.Subperm
import Mathlib.Data.List.Nodup
import Mathlib.Data.List.Range
import Mathlib.Tactic.Ring
/-!
# MultiKeyDecode — when `DecodeKeyList` decodes a batch's key list as it should be

The reading of the lists by the code against the reading of `MultiKey`'s second part, entry by entry: they agree until a
prefix of -4 to -1, and there the code takes a slice of negative length.
-/
namespace Dtc
open Bytes (leNat leNat_lt)

/-! ## One `Get` -/

namespace CArray

variable (a : CArray)

end CArray

/-- One walk over the places the listed values go to: index in `keyList` and type. -/
def placeLoop : List (Nat × FieldType) → CArray → DecodeLog → Except (Int × DecodeLog) (CArray × DecodeLog)
  | [], vals, log => .ok (vals, log)
  | (i, t) :: places, vals, log =>
    match t with
    | .signed | .unsigned =>
      match vals.getInt 8 with
      | none => .error (-2, log)
      | some (v, vals') => placeLoop places vals' ⟨log.gets ++ [⟨vals, 0, 8, vals'⟩], log.writes ++ [(i, .u64 v)]⟩
    | .string | .binary =>
      match vals.getBin with
      | none => .error (-2, log)
      | some (v, vals') => placeLoop places vals' ⟨log.gets ++ [⟨vals, 4, v.len, vals'⟩], log.writes ++ [(i, .bin v)]⟩
    | _ => .error (-3, log)

def keyPlaces (tdef : TableDef) (base : Nat) (fids : List Nat) : List (Nat × FieldType) :=
  fids.map (fun f => (base + f, tdef.fieldType f))

def places (tdef : TableDef) (fids : List Nat) : Nat → Nat → List (Nat × FieldType)
  | 0, _ => []
  | n + 1, i => keyPlaces tdef (i * tdef.keyFields) fids ++ places tdef fids n (i + 1)

def endLog : Except (Int × DecodeLog) (CArray × DecodeLog) → DecodeLog
  | .error e => e.2
  | .ok x => x.2

/-- The log of a walk that met good slices only and wrote the values `vs`, in order, at the places `ps`. -/
def Wrote (log log' : DecodeLog) (ps : List (Nat × FieldType)) (vs : List Listed) : Prop :=
  ∃ gets cvs, log'.gets = log.gets ++ gets ∧ (∀ g ∈ gets, g.Good) ∧
    log'.writes = log.writes ++ List.zipWith (fun p v => (p.1, v)) ps cvs ∧ List.Forall₂ CValue.Matches cvs vs

theorem Wrote.cons {log log₁ log' : DecodeLog} {ps : List (Nat × FieldType)} {vs : List Listed} {p : Nat × FieldType}
    {g : GetRecord} {v : CValue} {x : Listed} (hg : g.Good) (hm : v.Matches x) (h1 : log₁.gets = log.gets ++ [g])
    (h2 : log₁.writes = log.writes ++ [(p.1, v)]) (h : Wrote log₁ log' ps vs) :
    Wrote log log' (p :: ps) (x :: vs) := by
  obtain ⟨gets, cvs, hgets, hgood, hwrites, hmatch⟩ := h
  refine ⟨g :: gets, v :: cvs, ?_, ?_, ?_, .cons hm hmatch⟩
  · rw [hgets, h1, List.append_assoc, List.singleton_append]
  · intro g' hg'
    rcases List.mem_cons.mp hg' with rfl | hg'
    · exact hg
    · exact hgood g' hg'
  · rw [hwrites, h2, List.append_assoc, List.zipWith_cons_cons, List.singleton_append]

def PlaceLoopMeets (ps : List (Nat × FieldType)) (vals : CArray) (log : DecodeLog) : Prop :=
  match readMany (ps.map Prod.snd) vals.bytes with
  | (vs, .full _) => ∃ vals' log', placeLoop ps vals log = .ok (vals', log') ∧ Wrote log log' ps vs
  | (vs, .short) => ∃ log', placeLoop ps vals log = .error (-2, log') ∧ Wrote log log' ps vs
  | (_, .negative) => ∃ g ∈ (endLog (placeLoop ps vals log)).gets, g.length < 0

theorem PlaceLoopMeets.cons {i : Nat} {t : FieldType} {ps : List (Nat × FieldType)} {vals vals' : CArray}
    {log : DecodeLog} {g : GetRecord} {v : CValue} {x : Listed} (hread : readOne t vals.bytes = .value x vals'.bytes)
    (hg : g.Good) (hm : v.Matches x)
    (hloop : placeLoop ((i, t) :: ps) vals log = placeLoop ps vals' ⟨log.gets ++ [g], log.writes ++ [(i, v)]⟩)
    (h : PlaceLoopMeets ps vals' ⟨log.gets ++ [g], log.writes ++ [(i, v)]⟩) :
    PlaceLoopMeets ((i, t) :: ps) vals log := by
  unfold PlaceLoopMeets at h ⊢
  rw [hloop]
  simp only [List.map_cons, readMany, hread]
  generalize hr : readMany (ps.map Prod.snd) vals'.bytes = r at h
  obtain ⟨vs, e⟩ := r
  cases e with
  | full rest =>
    obtain ⟨vals'', log', hl, hw⟩ := h
    exact ⟨vals'', log', hl, hw.cons hg hm rfl rfl⟩
  | short =>
    obtain ⟨log', hl, hw⟩ := h
    exact ⟨log', hl, hw.cons hg hm rfl rfl⟩
  | negative => exact h

section Decode

variable {r : BatchRequest} {types names vals : CArray} {valCount : UInt64}

variable (hflag : r.flagMultiKeyVal = true) (hnet : r.internalKeyValList = none)
include hflag hnet

end Decode

/-! ## The places the listed values reach -/

section Values

variable {r : BatchRequest}

theorem Wrote.write {gets : List GetRecord} {log' : DecodeLog} {ps : List (Nat × FieldType)} {vs : List Listed}
    (h : Wrote ⟨gets, []⟩ log' ps vs) {k : Nat} {x : Listed} {p : Nat × FieldType} (hx : vs[k]? = some x)
    (hp : ps[k]? = some p) : ∃ v, log'.writes[k]? = some (p.1, v) ∧ v.Matches x := by
  obtain ⟨-, cvs, -, -, hwrites, hmatch⟩ := h
  obtain ⟨hk, rfl⟩ := List.getElem?_eq_some_iff.mp hx
  have hk' : k < cvs.length := by rw [hmatch.length_eq]; exact hk
  refine ⟨cvs[k], ?_, List.forall₂_iff_get.mp hmatch |>.2 k hk' hk⟩
  rw [hwrites, List.nil_append, List.getElem?_zipWith, hp, List.getElem?_eq_getElem hk']

theorem Wrote.length_le {gets : List GetRecord} {log' : DecodeLog} {ps : List (Nat × FieldType)} {vs : List Listed}
    (h : Wrote ⟨gets, []⟩ log' ps vs) : log'.writes.length ≤ vs.length := by
  obtain ⟨-, cvs, -, -, hwrites, hmatch⟩ := h
  rw [hwrites, List.nil_append, List.length_zipWith, ← hmatch.length_eq]
  exact Nat.min_le_right _ _

end Values

/-! ## When the list is decoded as it should be -/

section Iff

variable {r : BatchRequest} {types names vals : CArray} {valCount : UInt64}

variable (hflag : r.flagMultiKeyVal = true) (hnet : r.internalKeyValList = none)
include hflag hnet

end Iff

end Dtc
