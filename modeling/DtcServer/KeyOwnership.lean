import DtcServer.KeyMemory
import DtcServer.Machine
/-!
# KeyOwnership — who owns a request's key, over its whole life (`CTaskRequest`)

A request object of a pool is prepared for one request after another, of two tables: that of the data and that of the
administration. A batch points it at one key of its list after another.
-/
namespace Dtc

/-- A request as it is decoded, with its table's key laid out. -/
structure KeyRequest extends KeyTask where
  adminCode : AdminCmd := .unknown 0
  laidOut : toKeyTask.tdef.LaidOut
  kind : toKeyTask.tdef.IntKey ∨ toKeyTask.tdef.TextKey

/-- The state of a request object: the request, its memory, the keys of a batch, the key that `cache_batch_get_data` has come
to, and whether the object is destroyed. -/
structure KeyOwner where
  request : KeyRequest
  mem : KeyMem := {}
  batchKey : Option (List (List DataValue)) := none
  cursor : Option Nat := none
  gone : Bool := false

inductive KeyAction where
  | prepareProcess (request : KeyRequest) (granted : Granted)
  | setBatchKeyList (keys : List (List DataValue))
  | batchGetData
  | setBatchCursor (granted : Granted) (served : Bool)
  | resetBatchCursor
  | clean
  | destroy

/-- The memory after `PrepareProcess`: of a batch it checks the description of the keys, which are packed one by one later,
and of the commands only a migration has a key. -/
def KeyMem.prepareProcess (m : KeyMem) (r : KeyRequest) (granted : Granted) : KeyMem :=
  if r.flagMultiKeyVal then m
  else if r.requestCode = .svrAdmin then
    if r.adminCode = .migrate then (m.migrate r.toKeyTask granted).2 else m
  else (m.buildPackedKey r.toKeyTask granted).2

namespace KeyOwner

variable (s : KeyOwner)

def atKey (keyVal : List DataValue) : KeyTask :=
  { s.request.toKeyTask with key := some (keyVal.getD 0 .unset), multiKey := keyVal }

/-- `SetBatchCursor`: whether there is a key that could be packed, and the memory. -/
def setBatchCursor (index : Int) (granted : Granted) : Bool × KeyMem :=
  match s.batchKey with
  | none => (false, s.mem)
  | some keys =>
    if index < 0 ∨ keys.length ≤ index then (false, { s.mem with multiKey := .null })
    else
      let keyVal := keys.getD index.toNat []
      let m := if 1 < s.request.tdef.keyFields then { s.mem with multiKey := .list index.toNat } else s.mem
      m.buildPackedKey (s.atKey keyVal) granted

/-- One step: inside the loop of a batch there is only its next round. -/
def step (s : KeyOwner) : KeyAction → Option KeyOwner
  | .prepareProcess request granted =>
    if s.gone = false ∧ s.cursor = none then some { s with request, mem := s.mem.prepareProcess request granted }
    else none
  | .setBatchKeyList keys =>
    if s.gone = false ∧ s.cursor = none ∧ s.request.flagMultiKeyVal = true then some { s with batchKey := some keys }
    else none
  | .batchGetData =>
    if s.gone = false ∧ s.cursor = none ∧ s.batchKey ≠ none then some { s with cursor := some 0 } else none
  | .setBatchCursor granted served =>
    match s.cursor with
    | none => none
    | some index =>
      if s.gone = false then
        let r := s.setBatchCursor index granted
        some { s with mem := r.2, cursor := if r.1 = true ∧ served = true then some (index + 1) else none }
      else none
  | .resetBatchCursor =>
    if s.gone = false ∧ s.cursor = none then some { s with mem := (s.setBatchCursor (-1) ⟨true, true⟩).2 } else none
  | .clean => if s.gone = false ∧ s.cursor = none then some { s with batchKey := none } else none
  | .destroy =>
    if s.gone = false ∧ s.cursor = none then some { s with mem := s.mem.freePackedKey, gone := true } else none

/-- The life of a request object, from its constructor on. -/
def life : Machine KeyOwner KeyAction where
  start s := s = { request := s.request }
  step := step

/-- **What a request object owns**: while it lives, its packed key is null, its buffer or a block that it allocated and has not
released; outside the loop of a batch `multiKey` is null or such a block.  Only such blocks are released, and nothing is
written beyond the end. -/
structure Owned : Prop where
  packedKey : s.gone = false →
    s.mem.packedKey = .null ∨ s.mem.packedKey = .inline ∨ ∃ b, s.mem.packedKey = .block b ∧ (s.mem.blocks b).isSome
  multiKey : s.gone = false → s.cursor = none →
    s.mem.multiKey = .null ∨ ∃ b, s.mem.multiKey = .block b ∧ (s.mem.blocks b).isSome
  badFrees : s.mem.badFrees = []
  overruns : s.mem.overruns = []

/-- **The step does not come upon one of the faults**: a key that is built may be replaced where it is, a migrated key fits,
and the loop of a batch of several fields neither fails nor finds a key that cannot be packed. -/
def Safe : KeyAction → Prop
  | .prepareProcess r _ =>
    if r.flagMultiKeyVal then True
    else if r.requestCode = .svrAdmin then r.adminCode = .migrate → r.toKeyTask.MigrationFits
    else r.toKeyTask.Replaceable s.mem.packedKey
  | .setBatchCursor granted served =>
    ∀ index keys keyVal, s.cursor = some index → s.batchKey = some keys → keys[index]? = some keyVal →
      (s.atKey keyVal).Replaceable s.mem.packedKey ∧
        (1 < s.request.tdef.keyFields →
          s.request.flagMultiKeyVal = true ∧ served = true ∧ (s.atKey keyVal).Packs granted)
  | _ => True

/-! ## Every run -/

/-- While the object lives its memory is sound, and `multiKey` its own unless a batch of several fields is in its loop. -/
structure Inv (s : KeyOwner) : Prop where
  badFrees : s.mem.badFrees = []
  overruns : s.mem.overruns = []
  sound : s.gone = false → s.mem.Sound
  multi : s.gone = false →
    s.mem.OwnsMulti ∨ s.cursor ≠ none ∧ s.batchKey ≠ none ∧ 1 < s.request.tdef.keyFields

variable {s}

theorem Inv.of_sound {s : KeyOwner} (hsound : s.mem.Sound)
    (hmulti : s.mem.OwnsMulti ∨ s.cursor ≠ none ∧ s.batchKey ≠ none ∧ 1 < s.request.tdef.keyFields) : s.Inv :=
  ⟨hsound.badFrees, hsound.overruns, fun _ => hsound, fun _ => hmulti⟩

theorem Inv.owned (h : s.Inv) : s.Owned where
  packedKey hgone := (h.sound hgone).packed
  multiKey hgone hcursor := (h.multi hgone).resolve_right fun hloop => hloop.1 hcursor
  badFrees := h.badFrees
  overruns := h.overruns

theorem Inv.ownsMulti (h : s.Inv) (hgone : s.gone = false) (hcursor : s.cursor = none) : s.mem.OwnsMulti :=
  h.owned.multiKey hgone hcursor

theorem sound_setMultiKey {m : KeyMem} (h : m.Sound) {p : KeyPtr} (hp : ∀ b, p ≠ .block b) :
    { m with multiKey := p : KeyMem }.Sound :=
  ⟨h.packed, fun b hb => absurd hb (hp b), fun b _ => hp b, h.fresh, h.badFrees, h.overruns⟩

theorem sound_prepareProcess {m : KeyMem} (h : m.Sound) (howns : m.OwnsMulti) (r : KeyRequest) (granted : Granted)
    (hsafe : if r.flagMultiKeyVal then True
      else if r.requestCode = .svrAdmin then r.adminCode = .migrate → r.toKeyTask.MigrationFits
      else r.toKeyTask.Replaceable m.packedKey) :
    (m.prepareProcess r granted).Sound ∧ (m.prepareProcess r granted).OwnsMulti := by
  unfold KeyMem.prepareProcess
  split
  · exact ⟨h, howns⟩
  · next hbatch =>
    rw [if_neg hbatch] at hsafe
    split
    · next hadmin =>
      rw [if_pos hadmin] at hsafe
      split
      · next hmigrate =>
        obtain ⟨hsound, hmulti⟩ := h.migrate granted (hsafe hmigrate)
        exact ⟨hsound, howns.of_eq hmulti hsound⟩
      · exact ⟨h, howns⟩
    · next hadmin =>
      rw [if_neg hadmin] at hsafe
      obtain ⟨hsound, hmulti⟩ := h.buildPackedKey granted r.laidOut r.kind hsafe (Or.inr howns)
      exact ⟨hsound, hmulti howns⟩

theorem setBatchCursor_end (index : Int) (granted : Granted) (h : s.mem.Sound) (howns : s.mem.OwnsMulti ∨ s.batchKey ≠ none)
    (hend : ∀ keys, s.batchKey = some keys → index < 0 ∨ keys.length ≤ index) :
    (s.setBatchCursor index granted).1 = false ∧ (s.setBatchCursor index granted).2.Sound ∧
      (s.setBatchCursor index granted).2.OwnsMulti := by
  unfold setBatchCursor
  cases hkeys : s.batchKey with
  | none => exact ⟨rfl, h, howns.resolve_right fun hne => hne hkeys⟩
  | some keys =>
    dsimp only
    rw [if_pos (hend keys hkeys)]
    exact ⟨rfl, sound_setMultiKey h fun b => KeyPtr.noConfusion, Or.inl rfl⟩

theorem setBatchCursor_key {index : Nat} (granted : Granted) {keys : List (List DataValue)} {keyVal : List DataValue}
    (h : s.mem.Sound) (hkeys : s.batchKey = some keys) (hkey : keys[index]? = some keyVal)
    (hrep : (s.atKey keyVal).Replaceable s.mem.packedKey)
    (hpacks : 1 < s.request.tdef.keyFields → s.request.flagMultiKeyVal = true ∧ (s.atKey keyVal).Packs granted)
    (howns : s.mem.OwnsMulti ∨ 1 < s.request.tdef.keyFields) :
    (s.setBatchCursor index granted).2.Sound ∧
      ((s.setBatchCursor index granted).2.OwnsMulti ∨
        1 < s.request.tdef.keyFields ∧ (s.setBatchCursor index granted).1 = true) := by
  obtain ⟨hlt, hget⟩ := List.getElem?_eq_some_iff.mp hkey
  have hrange : ¬ ((index : Int) < 0 ∨ (keys.length : Int) ≤ index) := by omega
  have hval : keys.getD (index : Int).toNat [] = keyVal := by
    rw [Int.toNat_natCast, List.getD_eq_getElem?_getD, hkey, Option.getD_some]
  unfold setBatchCursor
  rw [hkeys]
  dsimp only
  rw [if_neg hrange, hval]
  by_cases hone : 1 < s.request.tdef.keyFields
  · obtain ⟨hbatch, hpacks⟩ := hpacks hone
    have hlist : { s.mem with multiKey := .list (index : Int).toNat : KeyMem }.Sound :=
      sound_setMultiKey h fun b => KeyPtr.noConfusion
    rw [if_pos hone]
    refine ⟨(hlist.buildPackedKey (t := s.atKey keyVal) granted s.request.laidOut s.request.kind hrep (Or.inl hbatch)).1,
      Or.inr ⟨hone, ?_⟩⟩
    exact KeyMem.buildPackedKey_of_packs granted _ hbatch hpacks
  · rw [if_neg hone]
    have howns := howns.resolve_right hone
    obtain ⟨hsound, hmulti⟩ :=
      h.buildPackedKey (t := s.atKey keyVal) granted s.request.laidOut s.request.kind hrep (Or.inr howns)
    exact ⟨hsound, Or.inl (hmulti howns)⟩

theorem step_inv (s : KeyOwner) (a : KeyAction) (s' : KeyOwner) (h : s.Inv) (hsafe : s.Safe a) (hstep : s.step a = some s') :
    s'.Inv := by
  cases a with
  | prepareProcess request granted =>
    obtain ⟨⟨hgone, hcursor⟩, hnext⟩ := Option.ite_none_right_eq_some.mp hstep
    obtain rfl := Option.some.inj hnext
    obtain ⟨hsound, hmulti⟩ :=
      sound_prepareProcess (h.sound hgone) (h.ownsMulti hgone hcursor) request granted hsafe
    exact Inv.of_sound hsound (Or.inl hmulti)
  | setBatchKeyList keys =>
    obtain ⟨⟨hgone, hcursor, -⟩, hnext⟩ := Option.ite_none_right_eq_some.mp hstep
    obtain rfl := Option.some.inj hnext
    exact Inv.of_sound (h.sound hgone) (Or.inl (h.ownsMulti hgone hcursor))
  | batchGetData =>
    obtain ⟨⟨hgone, hcursor, -⟩, hnext⟩ := Option.ite_none_right_eq_some.mp hstep
    obtain rfl := Option.some.inj hnext
    exact Inv.of_sound (h.sound hgone) (Or.inl (h.ownsMulti hgone hcursor))
  | setBatchCursor granted served =>
    unfold step at hstep
    dsimp only at hstep
    cases hcursor : s.cursor with
    | none =>
      rw [hcursor] at hstep
      cases hstep
    | some index =>
      rw [hcursor] at hstep
      obtain ⟨hgone, hnext⟩ := Option.ite_none_right_eq_some.mp hstep
      obtain rfl := Option.some.inj hnext
      have hmem := h.sound hgone
      have howns := (h.multi hgone).imp_right And.right
      by_cases hkey : ∃ keys keyVal, s.batchKey = some keys ∧ keys[index]? = some keyVal
      · obtain ⟨keys, keyVal, hkeys, hkey⟩ := hkey
        obtain ⟨hrep, hround⟩ := hsafe index keys keyVal hcursor hkeys hkey
        obtain ⟨hsound, hmulti⟩ := setBatchCursor_key granted hmem hkeys hkey hrep
          (fun hone => ⟨(hround hone).1, (hround hone).2.2⟩) (howns.imp_right And.right)
        refine Inv.of_sound hsound (hmulti.imp_right fun hloop => ⟨?_, by rw [hkeys]; exact Option.some_ne_none _, hloop.1⟩)
        -- the loop of several fields goes on
        dsimp only
        rw [if_pos ⟨hloop.2, (hround hloop.1).2.1⟩]
        exact Option.some_ne_none _
      · have hend : ∀ keys, s.batchKey = some keys → (index : Int) < 0 ∨ (keys.length : Int) ≤ index := by
          intro keys hkeys
          refine Or.inr (Int.ofNat_le.mpr (Nat.not_lt.mp fun hlt => hkey ⟨keys, keys[index], hkeys, ?_⟩))
          exact List.getElem?_eq_getElem hlt
        obtain ⟨hfalse, hsound, hmulti⟩ :=
          setBatchCursor_end index granted hmem (howns.imp_right And.left) hend
        exact Inv.of_sound hsound (Or.inl hmulti)
  | resetBatchCursor =>
    obtain ⟨⟨hgone, hcursor⟩, hnext⟩ := Option.ite_none_right_eq_some.mp hstep
    obtain rfl := Option.some.inj hnext
    obtain ⟨-, hsound, hmulti⟩ := setBatchCursor_end (-1) ⟨true, true⟩ (h.sound hgone)
      (Or.inl (h.ownsMulti hgone hcursor)) fun keys _ => Or.inl (by decide)
    exact Inv.of_sound hsound (Or.inl hmulti)
  | clean =>
    obtain ⟨⟨hgone, hcursor⟩, hnext⟩ := Option.ite_none_right_eq_some.mp hstep
    obtain rfl := Option.some.inj hnext
    exact Inv.of_sound (h.sound hgone) (Or.inl (h.ownsMulti hgone hcursor))
  | destroy =>
    obtain ⟨⟨hgone, hcursor⟩, hnext⟩ := Option.ite_none_right_eq_some.mp hstep
    obtain rfl := Option.some.inj hnext
    obtain ⟨hbad, hover⟩ := (h.sound hgone).freePackedKey (h.ownsMulti hgone hcursor)
    exact ⟨hbad, hover, fun h => Bool.noConfusion h, fun h => Bool.noConfusion h⟩

end KeyOwner

/-- **Every run of safe steps**: whatever requests an object is prepared for, in whatever order, the two pointers are null or its
own, only what is its own is released, once, and nothing is written beyond the end. -/
theorem life_owned {s : KeyOwner} (h : KeyOwner.life.ReachableMeeting KeyOwner.Safe s) : s.Owned := by
  have hinv : s.Inv := by
    refine KeyOwner.life.reachableMeeting_induct (fun s hstart => ?_) KeyOwner.step_inv h
    have hmem : s.mem = {} := congrArg KeyOwner.mem hstart
    refine KeyOwner.Inv.of_sound ?_ (Or.inl (Or.inl (by rw [hmem])))
    rw [hmem]
    exact ⟨Or.inl rfl, fun _ h => KeyPtr.noConfusion h, fun _ h => KeyPtr.noConfusion h, fun _ _ => rfl, rfl, rfl⟩
  exact hinv.owned

def hotBackupTable : TableDef where
  fieldList := [⟨[0x74, 0x79, 0x70, 0x65], .unsigned, 4, 0, false⟩, ⟨[0x66, 0x6c, 0x61, 0x67], .unsigned, 1, 0, false⟩,
    ⟨[0x6b, 0x65, 0x79], .binary, 255, 0, false⟩, ⟨[0x76, 0x61, 0x6c, 0x75, 0x65], .binary, 67108864, 0, false⟩]
  keyFields := 1
  keyFormat := 4

def nameTable : TableDef where
  fieldList := [⟨[], .string, 32, 0, false⟩]
  keyFields := 1
  keyFormat := 0

def shortMigration : KeyRequest where
  tdef := hotBackupTable
  requestCode := .svrAdmin
  conditionInfo := some [⟨2, 0, FieldType.binary.code, .bin [2, 0x61, 0x62]⟩]
  adminCode := .migrate
  laidOut := TableDef.setKeyFields_laidOut (show hotBackupTable.setKeyFields 0 1 = some hotBackupTable by decide)
  kind := Or.inl ⟨by decide, by decide⟩

def nameGet : KeyRequest where
  tdef := nameTable
  requestCode := .get
  key := some (.bin [0x61, 0x62])
  laidOut := TableDef.setKeyFields_laidOut (show nameTable.setKeyFields 0 1 = some nameTable by decide)
  kind := Or.inr ⟨rfl, Or.inl rfl, by decide⟩

/-- A migrated key in the buffer, and then a text: the buffer is released. -/
theorem life_shortMigration :
    ∃ s, KeyOwner.life.start { request := nameGet } ∧
      KeyOwner.life.run { request := nameGet } [.prepareProcess shortMigration ⟨true, true⟩, .clean,
        .prepareProcess nameGet ⟨true, true⟩] = some s ∧ s.mem.badFrees = [.inline] ∧ ¬ s.Owned := by
  refine ⟨_, rfl, rfl, rfl, fun h => ?_⟩
  have hbad : [KeyPtr.inline] = [] := h.badFrees
  cases hbad

theorem life_owned_nameGet :
    ∃ s, KeyOwner.life.run { request := nameGet } [.prepareProcess nameGet ⟨true, true⟩, .clean,
      .prepareProcess nameGet ⟨true, true⟩, .destroy] = some s ∧ s.Owned := by
  have hsafe : ∀ (m : KeyMem), m.packedKey ≠ .inline → nameGet.toKeyTask.Replaceable m.packedKey :=
    fun m hm _ => ⟨hm, by decide⟩
  obtain ⟨s, hrun⟩ : ∃ s, KeyOwner.life.run { request := nameGet } [.prepareProcess nameGet ⟨true, true⟩, .clean,
      .prepareProcess nameGet ⟨true, true⟩, .destroy] = some s := ⟨_, rfl⟩
  refine ⟨s, hrun, life_owned ⟨{ request := nameGet }, _, rfl, ?_, hrun⟩⟩
  refine Machine.RunMeets.cons (hsafe _ KeyPtr.noConfusion) rfl ?_
  refine Machine.RunMeets.cons trivial rfl ?_
  refine Machine.RunMeets.cons (hsafe _ KeyPtr.noConfusion) rfl ?_
  exact Machine.RunMeets.cons trivial rfl trivial

end Dtc
