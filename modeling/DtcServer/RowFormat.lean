import DtcServer.RawDataCursor
/-!
# RowFormat — the walks over a row's bytes, of a row that was encoded and of any bytes

`CalcRowSize`, `EncodeRow`, `DecodeRow`, `SkipRow` and `GetLastcmod` each walk the fields of a row on their own.  They
agree on every row that `EncodeRow` wrote.  On bytes from elsewhere a length is an `int` that is added to an offset of
32 bits: a negative one leads the walk back.
-/
namespace Dtc

open Bytes

namespace RowLayout

variable (l : RowLayout)

/-- The loop of `GetLastcmod`: the offset, whether the fields are inside the chunk, and `lastcmod`. -/
def lastcmodFields (content : List UInt8) (lcmodId : Int) : List Nat → Nat → Nat → Nat × Bool × Nat
  | [], off, lastcmod => (off, true, lastcmod)
  | j :: js, off, lastcmod =>
    let lastcmod := if (j : Int) = lcmodId then leNat 4 (slice content off 4) else lastcmod
    let r := skipField content (l.tdef.field j) off
    if r.2 then lastcmodFields content lcmodId js r.1 lastcmod else (r.1, false, lastcmod)

/-- **Every value fits into its field.** -/
def Representable (row : RowValue) : Prop := ∀ j ∈ l.storedIds, l.narrow (l.tdef.field j) (row j) = row j

theorem lastcmodFields_walk (content : List UInt8) (lcmodId : Int) : ∀ (js : List Nat) (off lastcmod : Nat),
    ((l.lastcmodFields content lcmodId js off lastcmod).1, (l.lastcmodFields content lcmodId js off lastcmod).2.1) =
      l.skipFields content js off
  | [], off, lastcmod => rfl
  | j :: js, off, lastcmod => by
    rw [lastcmodFields, skipFields]
    cases hr : (skipField content (l.tdef.field j) off).2 with
    | false =>
      rw [if_neg Bool.false_ne_true, if_neg Bool.false_ne_true]
      exact Prod.ext rfl hr.symm
    | true =>
      rw [if_pos rfl, if_pos rfl]
      exact lastcmodFields_walk content lcmodId js _ _

theorem Representable.storedRow {row : RowValue} (h : l.Representable row) (flag : UInt8) :
    l.storedRow (flag, row) = (flag, l.storedIds.map row) :=
  Prod.ext rfl (List.map_congr_left h)

end RowLayout

namespace RawData

variable {l : RowLayout} {b : RawData}

/-- `GetLastcmod` for the field `lcmodId`: also `lastcmod`. -/
def getLastcmod (l : RowLayout) (b : RawData) (lcmodId : Int) : Int × RawData × Nat :=
  if !b.handle then (-1, b, 0)
  else
    let b := { b with rowOffset := b.offset }
    if b.offset + 1 > b.content.length then (-100, b, 0)
    else
      let r := l.lastcmodFields b.content lcmodId l.storedIds (b.offset + 1) 0
      (if r.2.1 then 0 else -100, { b with offset := r.1 }, r.2.2)

theorem getLastcmod_of_skipRow {off n : Nat} (lcmodId : Int)
    (h : { b with rowOffset := off }.skipRow l = (0, { b with rowOffset := off, offset := n })) :
    ∃ lastcmod, { b with offset := off }.getLastcmod l lcmodId = (0, { b with rowOffset := off, offset := n }, lastcmod) := by
  unfold skipRow at h
  unfold getLastcmod
  dsimp only at h ⊢
  split at h
  · cases (Prod.mk.inj h).1
  · rename_i hh
    rw [if_neg hh]
    split at h
    · cases (Prod.mk.inj h).1
    · split at h
      · cases (Prod.mk.inj h).1
      · rename_i hin
        rw [if_neg hin]
        have hwalk := l.lastcmodFields_walk b.content lcmodId l.storedIds (off + 1) 0
        rw [← hwalk] at h
        obtain ⟨hret, hb⟩ := Prod.mk.inj h
        have hoff := congrArg RawData.offset hb
        dsimp only at hret hoff
        refine ⟨(l.lastcmodFields b.content lcmodId l.storedIds (off + 1) 0).2.2, ?_⟩
        rw [hret, hoff]

/-- **The row format**: what `EncodeRow` wrote is decoded to the same flag and values, and its five walks agree on the
number of bytes. -/
theorem encodeRow_roundTrip {rows : List (UInt8 × RowValue)} (hb : b.Holds l rows) (ho : b.offset = b.dataSize)
    {row : RowValue} {flag : UInt8} {alloc : Alloc} (hrep : l.Representable row) {b' : RawData}
    (hr : b.encodeRow l row flag alloc = (0, b')) (lcmodId : Int) :
    b'.offset = b.offset + l.calcRowSize row ∧
      { b' with offset := b.offset }.decodeRow l false =
        (0, { b' with rowOffset := b.offset, offset := b.offset + l.calcRowSize row },
          some (flag, l.storedIds.map row)) ∧
      { b' with rowOffset := b.offset }.skipRow l =
        (0, { b' with rowOffset := b.offset, offset := b.offset + l.calcRowSize row }) ∧
      ∃ lastcmod, { b' with offset := b.offset }.getLastcmod l lcmodId =
        (0, { b' with rowOffset := b.offset, offset := b.offset + l.calcRowSize row }, lastcmod) := by
  have hok := hb.encodeRow_ok ho (show (b.encodeRow l row flag alloc).1 = 0 by rw [hr])
  rw [hr] at hok
  obtain ⟨hb', hstart, -, hend⟩ := hok
  dsimp only at hb' hstart hend
  obtain ⟨hsize, hle, hlt, -⟩ := hb'.sizes
  have hdata := hb.dataSize
  rw [RowLayout.encodeRows_nil, List.length_nil, Nat.add_zero] at hsize
  dsimp only at hsize
  have hcalc : l.calcRowSize row = l.rowSize row := l.calcRowSize_of_lt row (by omega)
  rw [hcalc]
  have hskip : { b' with rowOffset := b.offset }.skipRow l =
      (0, { b' with rowOffset := b.offset, offset := b.offset + l.rowSize row }) :=
    (hb'.setOffset b.offset b'.offset).skipRow_eq (show b.offset = b'.dataStart + _ by omega)
  refine ⟨by omega, ?_, hskip, getLastcmod_of_skipRow lcmodId hskip⟩
  have hdecode := (hb'.setOffset b'.rowOffset b.offset).decodeRow_eq (show b.offset = b'.dataStart + _ by omega) false
  rw [hrep.storedRow] at hdecode
  exact hdecode

def formatLayout : RowLayout where
  tdef := { fieldList := [⟨[107], .unsigned, 4, 0, false⟩, ⟨[110], .signed, 8, 0, false⟩, ⟨[100], .float, 8, 0, true⟩,
                          ⟨[116], .string, 100, 0, false⟩]
            keyFields := 1
            keyFormat := 4 }
  keyIdx := 0
  keySize := 4
  toFloat := fun w => w.setWidth 32
  toDouble := fun w => w.setWidth 64

def formatRow : RowValue := fun j => if j = 1 then { word := BitVec.ofInt 64 (-7) } else { bin := [104, 105] }

def formatBuffer : RawData where
  handle := true
  content := rawHeader 20 0 [1, 0, 0, 0, 0, 0, 0, 5, 0, 0, 0]
  dataSize := 20
  dataStart := 20
  rowOffset := 20
  offset := 20

theorem encodeRow_roundTrip_sixteen : ∃ b', formatBuffer.encodeRow formatLayout formatRow operInsert (some []) = (0, b') ∧
    b'.offset = 35 ∧ { b' with offset := 20 }.decodeRow formatLayout false =
      (0, { b' with rowOffset := 20, offset := 35 }, some (operInsert, [formatRow 1, formatRow 3])) := by
  have hholds : formatBuffer.Holds formatLayout [] :=
    ⟨rfl, rfl, by decide, ⟨[1, 0, 0, 0, 0, 0, 0, 5, 0, 0, 0], [], ⟨[1, 0, 0, 0, 0, 0, 0], [5, 0, 0, 0], rfl, rfl, rfl, rfl⟩,
      rfl⟩, rfl, rfl⟩
  have hrep : formatLayout.Representable formatRow := by
    unfold RowLayout.Representable
    decide
  have hr : formatBuffer.encodeRow formatLayout formatRow operInsert (some []) = (0, _) := rfl
  obtain ⟨h1, h2, -⟩ := encodeRow_roundTrip hholds rfl hrep hr (-1)
  exact ⟨_, hr, h1, h2⟩

end RawData

/-! ## Bytes from elsewhere -/

namespace RowLayout

variable (l : RowLayout)

/-- The `bin` that `DecodeRow` sets for a field at an offset: where it points and its length, an `int`. -/
def binSlice (content : List UInt8) (f : FieldDef) (off : Nat) : List (Nat × Int) :=
  match f.fieldType with
  | .signed | .unsigned | .float => []
  | _ => [(off + 4, toInt32 (leNat 4 (slice content off 4)))]

/-- The slices that `DecodeRow` returns. -/
def rowSlices (content : List UInt8) : List Nat → Nat → List (Nat × Int)
  | [], _ => []
  | j :: js, off =>
    binSlice content (l.tdef.field j) off ++ rowSlices content js (skipField content (l.tdef.field j) off).1

/-- The length of a field at an offset, if it has one, is no negative number and ends inside the chunk. -/
def LengthOk (content : List UInt8) (f : FieldDef) (off : Nat) : Prop :=
  match f.fieldType with
  | .signed | .unsigned | .float => True
  | _ => leNat 4 (slice content off 4) < 2 ^ 31 ∧ off + 4 + leNat 4 (slice content off 4) ≤ content.length

/-- **The walk is misled**: some length on its way is negative or reaches behind the chunk, and it still gets to the end
of the row. -/
def Misled (content : List UInt8) : List Nat → Nat → Prop
  | [], _ => False
  | j :: js, off =>
    let next := skipField content (l.tdef.field j) off
    next.2 = true ∧ ((¬ LengthOk content (l.tdef.field j) off ∧ (l.skipFields content js next.1).2 = true) ∨
      Misled content js next.1)

instance (content : List UInt8) (f : FieldDef) (off : Nat) : Decidable (LengthOk content f off) := by
  unfold LengthOk
  split <;> infer_instance

instance decidableMisled (content : List UInt8) : ∀ (js : List Nat) (off : Nat), Decidable (l.Misled content js off)
  | [], _ => isFalse id
  | j :: js, off =>
    have : Decidable (l.Misled content js (skipField content (l.tdef.field j) off).1) := decidableMisled content js _
    inferInstanceAs (Decidable (_ ∧ ((¬ _ ∧ _) ∨ _)))

def SliceOk (content : List UInt8) (s : Nat × Int) : Prop := 0 ≤ s.2 ∧ s.1 + s.2 ≤ content.length

variable {content : List UInt8}

theorem decodeFields_walk : ∀ (js : List Nat) (off : Nat),
    (l.decodeFields content js off).1 = (l.skipFields content js off).1 ∧
      (l.decodeFields content js off).2.isSome = (l.skipFields content js off).2
  | [], off => ⟨rfl, rfl⟩
  | j :: js, off => by
    rw [decodeFields, skipFields]
    cases hr : (skipField content (l.tdef.field j) off).2 with
    | false =>
      rw [if_neg Bool.false_ne_true, if_neg Bool.false_ne_true]
      exact ⟨rfl, hr.symm⟩
    | true =>
      rw [if_pos rfl, if_pos rfl, Option.isSome_map]
      exact decodeFields_walk js _

theorem skipField_of_lengthOk {f : FieldDef} {off : Nat} (hlt : content.length < 2 ^ 32) (hlen : LengthOk content f off)
    (hok : (skipField content f off).2 = true) :
    off ≤ (skipField content f off).1 ∧ (skipField content f off).1 ≤ content.length ∧
      ∀ s ∈ binSlice content f off, SliceOk content s := by
  unfold LengthOk at hlen
  unfold skipField at hok ⊢
  unfold binSlice
  have hnum : (if off + width f > content.length then (off, false) else (off + width f, true)).2 = true →
      off ≤ (if off + width f > content.length then (off, false) else (off + width f, true)).1 ∧
        (if off + width f > content.length then (off, false) else (off + width f, true)).1 ≤ content.length := by
    intro h
    split at h
    · cases h
    · rename_i hw
      rw [if_neg hw]
      exact ⟨Nat.le_add_right _ _, Nat.le_of_not_lt hw⟩
  cases hf : f.fieldType with
  | signed | unsigned | float =>
    rw [hf] at hok
    obtain ⟨h1, h2⟩ := hnum hok
    exact ⟨h1, h2, fun s hs => absurd hs List.not_mem_nil⟩
  | none | string | binary =>
    rw [hf] at hok hlen
    dsimp only at hok hlen ⊢
    obtain ⟨hpos, hend⟩ := hlen
    split at hok
    · cases hok
    · rename_i h4
      rw [if_neg h4, Nat.mod_eq_of_lt (by omega), if_neg (by omega)]
      refine ⟨by dsimp only; omega, hend, fun s hs => ?_⟩
      obtain rfl := List.mem_singleton.mp hs
      unfold SliceOk toInt32
      dsimp only
      rw [Nat.mod_eq_of_lt (by omega), if_pos hpos]
      omega

theorem exists_badSlice {f : FieldDef} {off : Nat} (hlen : ¬ LengthOk content f off) :
    ∃ s ∈ binSlice content f off, ¬ SliceOk content s := by
  have hword := leNat_lt 4 (slice content off 4)
  unfold LengthOk at hlen
  unfold binSlice
  cases hf : f.fieldType with
  | signed | unsigned | float =>
    rw [hf] at hlen
    exact absurd trivial hlen
  | none | string | binary =>
    rw [hf] at hlen
    dsimp only at hlen ⊢
    refine ⟨_, List.mem_singleton_self _, fun hs => hlen ?_⟩
    unfold SliceOk toInt32 at hs
    dsimp only at hs
    rw [Nat.mod_eq_of_lt (by omega)] at hs
    split at hs
    · rename_i hpos
      exact ⟨hpos, by omega⟩
    · omega

theorem walk_contained (hlt : content.length < 2 ^ 32) : ∀ (js : List Nat) (off : Nat), off ≤ content.length →
    (l.skipFields content js off).2 = true → ¬ l.Misled content js off →
    off ≤ (l.skipFields content js off).1 ∧ (l.skipFields content js off).1 ≤ content.length ∧
      ∀ s ∈ l.rowSlices content js off, SliceOk content s
  | [], off, hle, _, _ => ⟨Nat.le_refl off, hle, fun s hs => absurd hs List.not_mem_nil⟩
  | j :: js, off, hle, hok, hm => by
    rw [skipFields] at hok ⊢
    cases hr : (skipField content (l.tdef.field j) off).2 with
    | false =>
      rw [hr, if_neg Bool.false_ne_true, hr] at hok
      cases hok
    | true =>
      rw [hr, if_pos rfl] at hok
      rw [if_pos rfl]
      rw [Misled] at hm
      have hlen : LengthOk content (l.tdef.field j) off := by
        by_contra hlen
        exact hm ⟨hr, .inl ⟨hlen, hok⟩⟩
      obtain ⟨h1, h2, h3⟩ := skipField_of_lengthOk hlt hlen hr
      obtain ⟨h4, h5, h6⟩ := walk_contained hlt js _ h2 hok (fun hm' => hm ⟨hr, .inr hm'⟩)
      refine ⟨Nat.le_trans h1 h4, h5, fun s hs => ?_⟩
      rw [rowSlices] at hs
      rcases List.mem_append.mp hs with hs | hs
      · exact h3 s hs
      · exact h6 s hs

theorem Misled.walk : ∀ (js : List Nat) (off : Nat), l.Misled content js off →
    (l.skipFields content js off).2 = true ∧ ∃ s ∈ l.rowSlices content js off, ¬ SliceOk content s
  | [], _, hm => absurd hm id
  | j :: js, off, hm => by
    rw [Misled] at hm
    obtain ⟨hr, hcase⟩ := hm
    rw [skipFields, rowSlices, hr, if_pos rfl]
    rcases hcase with ⟨hlen, hok⟩ | hm
    · obtain ⟨s, hs, hbad⟩ := exists_badSlice hlen
      exact ⟨hok, s, List.mem_append_left _ hs, hbad⟩
    · obtain ⟨hok, s, hs, hbad⟩ := Misled.walk js _ hm
      exact ⟨hok, s, List.mem_append_right _ hs, hbad⟩

theorem Misled.inside {js : List Nat} {off : Nat} (hm : l.Misled content js off) : off ≤ content.length := by
  cases js with
  | nil => exact absurd hm id
  | cons j js =>
    have hr : (skipField content (l.tdef.field j) off).2 = true := hm.1
    by_contra hout
    have hw : off + width (l.tdef.field j) > content.length := by omega
    have h4 : off + 4 > content.length := by omega
    unfold skipField at hr
    dsimp only at hr
    rw [if_pos hw, if_pos h4] at hr
    split at hr <;> cases hr

end RowLayout

namespace RawData

variable {l : RowLayout} {b : RawData}

def seek (b : RawData) (off : Nat) : RawData := { b with offset := off }

/-- **The reads at the cursor are contained**: a `DecodeRow` or `SkipRow` that returns 0 moves the offset on, inside the
chunk, and the slices it returns are inside the chunk. -/
structure Contained (l : RowLayout) (b : RawData) : Prop where
  decode : ∀ b' row, b.decodeRow l false = (0, b', row) → b.offset < b'.offset ∧ b'.offset ≤ b.content.length ∧
    ∀ s ∈ l.rowSlices b.content l.storedIds (b.offset + 1), RowLayout.SliceOk b.content s
  skip : ∀ b', { b with rowOffset := b.offset }.skipRow l = (0, b') → b.offset < b'.offset ∧
    b'.offset ≤ b.content.length

theorem contained_of_not_misled (hlt : b.content.length < 2 ^ 32)
    (hm : ¬ l.Misled b.content l.storedIds (b.offset + 1)) : b.Contained l := by
  refine ⟨fun b' row hdec => ?_, fun b' hskip => ?_⟩
  · unfold decodeRow at hdec
    dsimp only at hdec
    split at hdec
    · cases (Prod.mk.inj hdec).1
    · split at hdec
      · cases (Prod.mk.inj hdec).1
      · rename_i hin
        obtain ⟨hoff, hsome⟩ := @RowLayout.decodeFields_walk l b.content l.storedIds (b.offset + 1)
        split at hdec
        · cases (Prod.mk.inj hdec).1
        · rename_i values hvalues
          rw [hvalues] at hsome
          obtain ⟨h1, h2, h3⟩ := l.walk_contained hlt l.storedIds (b.offset + 1) (by omega) hsome.symm hm
          have hb' := congrArg RawData.offset (Prod.mk.inj (Prod.mk.inj hdec).2).1
          dsimp only at hb'
          rw [if_neg Bool.false_ne_true, hoff] at hb'
          rw [← hb']
          exact ⟨by omega, h2, h3⟩
  · unfold skipRow at hskip
    dsimp only at hskip
    split at hskip
    · cases (Prod.mk.inj hskip).1
    · split at hskip
      · cases (Prod.mk.inj hskip).1
      · split at hskip
        · cases (Prod.mk.inj hskip).1
        · rename_i hin
          obtain ⟨hret, hb'⟩ := Prod.mk.inj hskip
          have hok : (l.skipFields b.content l.storedIds (b.offset + 1)).2 = true := by
            by_contra hne
            rw [if_neg hne] at hret
            cases hret
          obtain ⟨h1, h2, -⟩ := l.walk_contained hlt l.storedIds (b.offset + 1) (by omega) hok hm
          have hoff := congrArg RawData.offset hb'
          dsimp only at hoff
          rw [← hoff]
          exact ⟨by omega, h2⟩

theorem not_misled_of_contained (hh : b.handle = true) (hc : b.Contained l) :
    ¬ l.Misled b.content l.storedIds (b.offset + 1) := by
  intro hm
  have hin := hm.inside
  obtain ⟨hok, s, hs, hbad⟩ := hm.walk
  obtain ⟨-, hsome⟩ := @RowLayout.decodeFields_walk l b.content l.storedIds (b.offset + 1)
  rw [hok] at hsome
  obtain ⟨values, hvalues⟩ := Option.isSome_iff_exists.mp hsome
  have hdec : (b.decodeRow l false).1 = 0 := by
    unfold decodeRow
    rw [if_neg (by simp [hh]), if_neg (by omega)]
    dsimp only
    rw [hvalues]
  obtain ⟨-, -, hslices⟩ := hc.decode _ _ (Prod.ext hdec rfl)
  exact hbad (hslices s hs)

theorem attach_frame : (b.attach l).2.content = b.content ∧ (b.attach l).2.handle = b.handle := by
  unfold attach
  dsimp only
  split
  · exact ⟨rfl, rfl⟩
  · split
    · exact ⟨rfl, rfl⟩
    · split
      · exact ⟨rfl, rfl⟩
      · split
        · exact ⟨rfl, rfl⟩
        · split
          · exact ⟨rfl, rfl⟩
          · exact ⟨rfl, rfl⟩

/-- **Malformed data is contained exactly where the walk is not misled**, at every offset of every chunk, whether
`Attach` accepts it or not. -/
theorem attach_contained_iff (hh : b.handle = true) (hlt : b.content.length < 2 ^ 32) (off : Nat) :
    ((b.attach l).2.seek off).Contained l ↔ ¬ l.Misled b.content l.storedIds (off + 1) := by
  obtain ⟨hcontent, hhandle⟩ := @attach_frame l b
  constructor
  · intro hc
    have hm := not_misled_of_contained (show ((b.attach l).2.seek off).handle = true from hhandle.trans hh) hc
    unfold seek at hm
    dsimp only at hm
    rwa [hcontent] at hm
  · intro hm
    refine contained_of_not_misled ?_ ?_
    · unfold seek
      rw [hcontent]
      exact hlt
    · unfold seek
      dsimp only
      rw [hcontent]
      exact hm

/-- A chunk with one row, whose text has the length `len`. -/
def networkChunk (len : UInt8) : RawData where
  handle := true
  content := rawHeader 35 1 [1, 0, 0, 0, 0, 0, 0, 5, 0, 0, 0] ++
    [0x30, 7, 0, 0, 0, 0, 0, 0, 0, len, if len < 128 then 0 else 255, if len < 128 then 0 else 255,
      if len < 128 then 0 else 255, 104, 105]

theorem attach_contained_iff_two : ((networkChunk 2).attach formatLayout).1 = 0 ∧
    (((networkChunk 2).attach formatLayout).2.seek 20).Contained formatLayout :=
  ⟨by decide, (attach_contained_iff rfl (by decide) 20).mpr (by decide)⟩

/-- **A length of -13 leads `DecodeRow` back to where the row begins**, and it returns 0. -/
theorem negativeLength_not_contained : ((networkChunk 243).attach formatLayout).1 = 0 ∧
    ((((networkChunk 243).attach formatLayout).2.seek 20).decodeRow formatLayout false).1 = 0 ∧
      ((((networkChunk 243).attach formatLayout).2.seek 20).decodeRow formatLayout false).2.1.offset = 20 ∧
      ¬ (((networkChunk 243).attach formatLayout).2.seek 20).Contained formatLayout := by
  refine ⟨by decide, by decide, by decide, fun hc => ?_⟩
  obtain ⟨hlt, -⟩ := hc.decode _ _ (Prod.ext (show _ = (0 : Int) by decide) rfl)
  exact absurd hlt (by decide)

end RawData

end Dtc
