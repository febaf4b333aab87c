import DtcServer.ValueEncode
/-!
# SectionCodec — simple sections as they are written (`EncodeSimpleSection`), and read back

A section is written tag by tag, each present one as its id and its value; the reader looks the type up by the id.
-/
namespace Dtc

open Decoding

/-- `MAX_STATIC_SECTION`, the number of values a section has room for. -/
def maxStaticSection : Nat := 20

namespace SimpleSection

variable (ss : SimpleSection)

def maxTags : Nat := ss.definition.tagTypes.length

def tagPresent (id : Nat) : Bool := if id ≥ maxStaticSection then false else ss.present id

/-- The type of a tag for the encoder; `kt` is that of the key. -/
def fieldTypeOf (kt : FieldType) (id : Nat) : FieldType := if id = 0 then kt else ss.definition.tagTypes.getD id .none

theorem typeOf_code (kt : FieldType) (id : Nat) : ss.typeOf kt.code id = (ss.fieldTypeOf kt id).code := by
  unfold typeOf fieldTypeOf SectionDefinition.tagType
  split <;> rfl

end SimpleSection

/-! ## What is written -/

section Encode

variable (printFloat : BitVec 64 → List UInt8) (ss : SimpleSection) (kt : FieldType)

def encodeTag (i : Nat) : List UInt8 := UInt8.ofNat i :: encodeDataValue printFloat (ss.tagValue i) (ss.fieldTypeOf kt i)

def encodeSimpleSection : List UInt8 :=
  (List.range (ss.maxTags + 1)).flatMap fun i => if ss.tagPresent i = false then [] else encodeTag printFloat ss kt i

def encodedBytesSimpleSection : Nat :=
  ((List.range (ss.maxTags + 1)).map fun i =>
    if ss.tagPresent i = false then 0 else 1 + encodedBytesDataValue printFloat (ss.tagValue i) (ss.fieldTypeOf kt i)).sum

theorem encodeSimpleSection_length :
    (encodeSimpleSection printFloat ss kt).length = encodedBytesSimpleSection printFloat ss kt := by
  unfold encodeSimpleSection encodedBytesSimpleSection
  rw [List.length_flatMap]
  congr 1
  apply List.map_congr_left
  intro i _
  split
  · rfl
  · rw [encodeTag, List.length_cons, encodeDataValue_length, Nat.add_comm]

def writtenTags : List Nat := (List.range (ss.maxTags + 1)).filter ss.tagPresent

theorem encodeSimpleSection_eq : encodeSimpleSection printFloat ss kt = (writtenTags ss).flatMap (encodeTag printFloat ss kt) := by
  unfold encodeSimpleSection writtenTags
  induction List.range (ss.maxTags + 1) with
  | nil => rfl
  | cons i is ih =>
    rw [List.flatMap_cons, ih, List.filter_cons]
    cases ss.tagPresent i <;> simp

end Encode

/-! ## Tags that are set one after another -/

namespace SimpleSection

def setTags (s : SimpleSection) (tags : List (Nat × DataValue)) : SimpleSection :=
  tags.foldl (fun s t => s.setThisTag t.1 t.2) s

variable {s : SimpleSection} {tags : List (Nat × DataValue)} {id : Nat}

@[simp] theorem setTags_nil : s.setTags [] = s := rfl

@[simp] theorem setTags_cons (t : Nat × DataValue) : s.setTags (t :: tags) = (s.setThisTag t.1 t.2).setTags tags := rfl

@[simp] theorem setTags_definition : (s.setTags tags).definition = s.definition := by
  induction tags generalizing s with
  | nil => rfl
  | cons t tags ih => exact ih

theorem setTags_present : (s.setTags tags).present id = (decide (id ∈ tags.map (·.1)) || s.present id) := by
  induction tags generalizing s with
  | nil => rfl
  | cons t tags ih =>
    rw [setTags_cons, ih, Bool.eq_iff_iff]
    by_cases hi : id = t.1
    · simp [setThisTag, hi]
    · simp [setThisTag, hi, Function.update_of_ne]

theorem setTags_tagValue_of_not_mem (h : id ∉ tags.map (·.1)) : (s.setTags tags).tagValue id = s.tagValue id := by
  induction tags generalizing s with
  | nil => rfl
  | cons t tags ih =>
    rw [List.map_cons, List.mem_cons, not_or] at h
    rw [setTags_cons, ih h.2]
    exact Function.update_of_ne h.1 ..

theorem setTags_tagValue {v : DataValue} (hnodup : (tags.map (·.1)).Nodup) (h : (id, v) ∈ tags) :
    (s.setTags tags).tagValue id = v := by
  induction tags generalizing s with
  | nil => cases h
  | cons t tags ih =>
    obtain ⟨hnot, hnodup'⟩ := List.nodup_cons.mp hnodup
    rw [setTags_cons]
    obtain rfl | htail := List.mem_cons.mp h
    · rw [setTags_tagValue_of_not_mem hnot]
      exact Function.update_self ..
    · exact ih hnodup' htail

end SimpleSection

/-! ## What was written is read back -/

section Content

variable (scanFloat : List UInt8 → Option (BitVec 64)) (printFloat : BitVec 64 → List UInt8)

/-- What a value of a type is read back as, when the reader can take it: an integer as itself, a text that fits into a
packet too, the null text as the empty one, and a float as what its text stands for. -/
def readBack (v : DataValue) : FieldType → Option DataValue
  | .none => none
  | .signed | .unsigned =>
    match v with
    | .word w => some (.word w)
    | _ => none
  | .float =>
    match v with
    | .word w =>
      let text := floatText printFloat w
      if 2 ≤ text.length ∧ 0 ∉ text then (floatOfText scanFloat text).map .word else none
    | _ => none
  | .string | .binary =>
    match v with
    | .bin bytes => if bytes.length + 1 ≤ maxPacketSize then some (.bin bytes) else none
    | .unset => some (.bin [])
    | .word _ => none

theorem floatText_length (w : BitVec 64) : (floatText printFloat w).length < 40 := by
  unfold floatText
  split
  · decide
  · omega

variable {scanFloat printFloat}

theorem cString_append_null {text : List UInt8} (h : 0 ∉ text) : cString (text ++ [0]) = text := by
  unfold cString
  have hall : ∀ b ∈ text, decide (b ≠ 0) = true := by
    rintro b hb
    apply decide_eq_true
    rintro rfl
    exact h hb
  rw [List.takeWhile_append_of_pos hall]
  simp

theorem encodeFloat_readsBack {w w' : BitVec 64} (h2 : 2 ≤ (floatText printFloat w).length)
    (h0 : 0 ∉ floatText printFloat w) (hscan : floatOfText scanFloat (floatText printFloat w) = some w') :
    ReadsBack (encodeDataValue printFloat (.word w) .float) (fun bin => decodeDataValue scanFloat bin 3) (.word w') := by
  have hword : BitVec.ofNat 64 (DataValue.word w).u64 = w := BitVec.eq_of_toNat_eq (by simp [DataValue.u64])
  have hlt := floatText_length printFloat w
  have hbytes : encodeDataValue printFloat (.word w) .float =
      encodeLength ((floatText printFloat w).length + 1) ++ (floatText printFloat w ++ [0]) := by
    rw [encodeDataValue, hword, encodeLength, if_pos (by omega)]
    rfl
  rw [hbytes]
  apply decodeDataValue_eq
  · rw [List.length_append, List.length_singleton]
    exact encodeLength_readsBack (by unfold maxPacketSize; omega)
  · intro rest
    have htake : bytes (floatText printFloat w ++ [0] ++ rest) ((floatText printFloat w).length + 1) =
        (.ok (floatText printFloat w ++ [0]) : Decoding Int _) := bytes_append (by simp)
    have hfloat : decodeFloat scanFloat (floatText printFloat w ++ [0] ++ rest) ((floatText printFloat w).length + 1) =
        .ok (.word w') := by
      rw [decodeFloat, if_neg (by omega), Nat.add_sub_cancel, htake, List.append_assoc, List.singleton_append,
        byteAt_append rfl, ok_bind, if_neg (by decide), ok_bind, cString_append_null h0, hscan]
      rfl
    rw [List.length_append, List.length_singleton]
    exact hfloat

theorem encodeDataValue_readsBack {v v' : DataValue} {type : FieldType} (h : readBack scanFloat printFloat v type = some v') :
    ReadsBack (encodeDataValue printFloat v type) (fun bin => decodeDataValue scanFloat bin type.code) v' := by
  have hint : ∀ w, isIntType type = true → v = .word w → v' = .word w →
      ReadsBack (encodeDataValue printFloat v type) (fun bin => decodeDataValue scanFloat bin type.code) v' := by
    rintro w htype rfl rfl
    have hword : BitVec.ofNat 64 (DataValue.word w).u64 = w := BitVec.eq_of_toNat_eq (by simp [DataValue.u64])
    have hw := @encodeInteger_readsBack scanFloat w _ htype
    cases type <;> first | exact absurd htype (by decide) | simpa [encodeDataValue, hword] using hw
  have htext : type = .string ∨ type = .binary →
      (v = .unset ∧ v' = .bin [] ∨ ∃ b, v = .bin b ∧ v' = .bin b ∧ b.length + 1 ≤ maxPacketSize) →
      ReadsBack (encodeDataValue printFloat v type) (fun bin => decodeDataValue scanFloat bin type.code) v' := by
    rintro htype (⟨rfl, rfl⟩ | ⟨b, rfl, rfl, hlen⟩)
    · exact encodeNull_readsBack htype
    · exact encodeString_readsBack hlen htype
  cases type with
  | none => cases h
  | signed | unsigned =>
    cases v with
    | word w => exact hint w rfl rfl (Option.some.inj h).symm
    | unset => cases h
    | bin bytes => cases h
  | float =>
    cases v with
    | word w =>
      dsimp only [readBack] at h
      split at h
      · next hok =>
        obtain ⟨w', hscan, rfl⟩ := Option.map_eq_some_iff.mp h
        exact encodeFloat_readsBack hok.1 hok.2 hscan
      · cases h
    | unset => cases h
    | bin bytes => cases h
  | string | binary =>
    cases v with
    | word w => cases h
    | unset => exact htext (by simp) (Or.inl ⟨rfl, (Option.some.inj h).symm⟩)
    | bin bytes =>
      dsimp only [readBack] at h
      split at h
      · next hlen => exact htext (by simp) (Or.inr ⟨bytes, rfl, (Option.some.inj h).symm, hlen⟩)
      · cases h

end Content

section Loop

variable {scanFloat : List UInt8 → Option (BitVec 64)} {printFloat : BitVec 64 → List UInt8} {ss : SimpleSection}
  {kt : FieldType} {v' : Nat → DataValue}

theorem encodeTags_length_le (ids : List Nat) : ids.length ≤ (ids.flatMap (encodeTag printFloat ss kt)).length := by
  induction ids with
  | nil => exact Nat.zero_le _
  | cons id ids ih =>
    rw [List.flatMap_cons, List.length_append, encodeTag, List.length_cons, List.length_cons]
    omega

theorem simpleSectionLoop_written : ∀ (ids : List Nat) (n : Nat) (s : SimpleSection) (mask : UInt8 → Bool),
    ids.length ≤ n → ids.Nodup → (∀ id ∈ ids, id < 256 ∧ mask (UInt8.ofNat id) = false) →
    (∀ id ∈ ids, readBack scanFloat printFloat (ss.tagValue id) (ss.fieldTypeOf kt id) = some (v' id)) →
    s.definition = ss.definition →
    simpleSectionLoop scanFloat kt.code n (ids.flatMap (encodeTag printFloat ss kt)) s mask =
      .ok (s.setTags (ids.map fun id => (id, v' id)))
  | [], n, s, mask, _, _, _, _, _ => by cases n <;> simp [simpleSectionLoop]
  | id :: ids, n + 1, s, mask, hn, hnodup, hids, hread, hdef => by
    obtain ⟨hnot, hnodup'⟩ := List.nodup_cons.mp hnodup
    obtain ⟨hlt, hmask⟩ := hids id (List.mem_cons_self ..)
    have hid : (UInt8.ofNat id).toNat = id := toNat_ofNat_of_lt hlt
    have htype : s.typeOf kt.code id = (ss.fieldTypeOf kt id).code := by
      rw [← ss.typeOf_code, SimpleSection.typeOf, hdef]
      rfl
    have hv := hread id (List.mem_cons_self ..)
    have hback : decodeDataValue scanFloat (encodeDataValue printFloat (ss.tagValue id) (ss.fieldTypeOf kt id) ++
        ids.flatMap (encodeTag printFloat ss kt)) (ss.fieldTypeOf kt id).code =
          .ok (v' id, ids.flatMap (encodeTag printFloat ss kt)) := encodeDataValue_readsBack hv _
    have hsome : (ss.fieldTypeOf kt id).code ≠ 0 := by
      generalize ss.fieldTypeOf kt id = type at hv
      cases type with
      | none => cases hv
      | signed | unsigned | float | string | binary => decide
    have htail := simpleSectionLoop_written ids n (s.setThisTag id (v' id)) (fun i => mask i || i == UInt8.ofNat id)
      (Nat.le_of_succ_le_succ hn) hnodup' ?_ (fun i hi => hread i (List.mem_cons_of_mem _ hi)) hdef
    · rw [List.flatMap_cons, encodeTag, List.cons_append, simpleSectionLoop, if_neg (List.cons_ne_nil _ _), next_cons,
        ok_bind]
      dsimp only
      rw [hmask, if_neg Bool.false_ne_true, hid, htype, hback, leaving, ok_bind]
      dsimp only
      rw [if_pos hsome, htail]
      rfl
    · intro i hi
      obtain ⟨hlti, hmaski⟩ := hids i (List.mem_cons_of_mem _ hi)
      refine ⟨hlti, ?_⟩
      have hne : UInt8.ofNat i ≠ UInt8.ofNat id := by
        intro heq
        have h := congrArg UInt8.toNat heq
        rw [hid, toNat_ofNat_of_lt hlti] at h
        exact hnot (h ▸ hi)
      simp [hmaski, hne]

theorem mem_writtenTags {id : Nat} (htyped : ∀ id, ss.tagPresent id = true → id ≤ ss.maxTags) :
    id ∈ writtenTags ss ↔ ss.tagPresent id = true := by
  unfold writtenTags
  rw [List.mem_filter, List.mem_range]
  exact ⟨fun h => h.2, fun h => ⟨Nat.lt_succ_of_le (htyped id h), h⟩⟩

theorem lt_of_tagPresent {id : Nat} (h : ss.tagPresent id = true) : id < maxStaticSection := by
  unfold SimpleSection.tagPresent at h
  split at h
  · cases h
  · omega

theorem decodeSimpleSection_written
    (hread : ∀ id, ss.tagPresent id = true →
      readBack scanFloat printFloat (ss.tagValue id) (ss.fieldTypeOf kt id) = some (v' id)) :
    ∃ ss', decodeSimpleSection scanFloat (encodeSimpleSection printFloat ss kt) { definition := ss.definition } kt.code =
        .ok ss' ∧
      ∀ id, ss'.tagPresent id = ss.tagPresent id ∧ (ss.tagPresent id = true → ss'.tagValue id = v' id) := by
  have htyped : ∀ id, ss.tagPresent id = true → id ≤ ss.maxTags := by
    intro id hid
    by_contra hgt
    have hv := hread id hid
    have hnone : ss.fieldTypeOf kt id = .none := by
      unfold SimpleSection.fieldTypeOf
      rw [if_neg (by omega), List.getD_eq_getElem?_getD, List.getElem?_eq_none (by unfold SimpleSection.maxTags at hgt; omega)]
      rfl
    rw [hnone] at hv
    cases hv
  have hmem : ∀ id, id ∈ writtenTags ss ↔ ss.tagPresent id = true := fun id => mem_writtenTags htyped
  have hloop := simpleSectionLoop_written (writtenTags ss) (encodeSimpleSection printFloat ss kt).length
    { definition := ss.definition } (fun _ => false) ?_ (List.nodup_range.filter _) ?_
    (fun id hid => hread id ((hmem id).mp hid)) rfl
  · rw [← encodeSimpleSection_eq] at hloop
    refine ⟨_, hloop, fun id => ?_⟩
    have hids : ((writtenTags ss).map fun id => (id, v' id)).map (·.1) = writtenTags ss := by
      rw [List.map_map]
      exact List.map_id _
    refine ⟨?_, fun hid => ?_⟩
    swap
    · apply SimpleSection.setTags_tagValue
      · rw [hids]
        exact List.nodup_range.filter _
      · exact List.mem_map_of_mem ((hmem id).mpr hid)
    rw [Bool.eq_iff_iff, ← hmem]
    unfold SimpleSection.tagPresent
    split
    · next hge => exact ⟨fun h => absurd h Bool.false_ne_true, fun h => absurd (lt_of_tagPresent ((hmem id).mp h)) (by omega)⟩
    · rw [SimpleSection.setTags_present, hids]
      simp
  · rw [encodeSimpleSection_eq]
    exact encodeTags_length_le _
  · intro id hid
    have hlt := lt_of_tagPresent ((hmem id).mp hid)
    exact ⟨by unfold maxStaticSection at hlt; omega, rfl⟩

end Loop

/-! ## What a section that is accepted holds -/

section Accepted

variable (scanFloat : List UInt8 → Option (BitVec 64)) (typeOf : Nat → Nat)

/-- The tags a whole section is made of, each an id and the value that is read at the id's type. -/
inductive TagsRead : List UInt8 → List (Nat × DataValue) → Prop
  | nil : TagsRead [] []
  | cons {id : UInt8} {bin rest : List UInt8} {v : DataValue} {tags : List (Nat × DataValue)}
      (hvalue : decodeDataValue scanFloat bin (typeOf id.toNat) = .ok (v, rest)) (htail : TagsRead rest tags) :
      TagsRead (id :: bin) ((id.toNat, v) :: tags)

def typedTags (tags : List (Nat × DataValue)) : List (Nat × DataValue) := tags.filter fun t => typeOf t.1 ≠ 0

variable {scanFloat}

/-- **A section that is accepted was read to its end**, no tag with a type twice, and holds these tags with their values
over what it held before. -/
theorem simpleSectionLoop_accepts {kt : Nat} : ∀ (n : Nat) (bin : List UInt8) (s ss' : SimpleSection)
    (mask : UInt8 → Bool), bin.length ≤ n → simpleSectionLoop scanFloat kt n bin s mask = .ok ss' →
    ∃ tags, TagsRead scanFloat (s.typeOf kt) bin tags ∧
      ((typedTags (s.typeOf kt) tags).map (·.1)).Nodup ∧
      (∀ i : UInt8, mask i = true → i.toNat ∉ (typedTags (s.typeOf kt) tags).map (·.1)) ∧
      ss' = s.setTags (typedTags (s.typeOf kt) tags)
  | n, [], s, ss', mask, _, h => by
    have hnil : simpleSectionLoop scanFloat kt n [] s mask = .ok s := by cases n <;> simp [simpleSectionLoop]
    rw [hnil] at h
    refine ⟨[], .nil, ?_, fun i _ => ?_, (Except.ok.inj h).symm⟩ <;> simp [typedTags]
  | n + 1, id :: bin, s, ss', mask, hn, h => by
    rw [simpleSectionLoop, if_neg (List.cons_ne_nil _ _), next_cons, ok_bind] at h
    dsimp only at h
    split at h
    · cases h
    next hmask =>
    have hshort := @decodeDataValue_ends bin scanFloat (s.typeOf kt id.toNat)
    generalize hv : decodeDataValue scanFloat bin (s.typeOf kt id.toNat) = r at h hshort
    obtain (e | _ | _) | ⟨val, rest⟩ := r
    · cases h
    · cases h
    · cases h
    rw [leaving, ok_bind] at h
    have hlen : rest.length ≤ n := by
      have h1 : rest.length < bin.length := hshort.2
      rw [List.length_cons] at hn
      omega
    dsimp only at h
    split at h
    · next htyped =>
      obtain ⟨tags, hread, hnodup, hfree, rfl⟩ := simpleSectionLoop_accepts n rest _ _ _ hlen h
      have hcons : typedTags (s.typeOf kt) ((id.toNat, val) :: tags) = (id.toNat, val) :: typedTags (s.typeOf kt) tags := by
        simp [typedTags, htyped]
      refine ⟨(id.toNat, val) :: tags, .cons hv hread, ?_, fun i hi => ?_, ?_⟩
      · rw [hcons, List.map_cons, List.nodup_cons]
        exact ⟨hfree id (by simp), hnodup⟩
      · rw [hcons, List.map_cons, List.mem_cons, not_or]
        refine ⟨fun heq => ?_, hfree i (by simp [hi])⟩
        rw [UInt8.toNat_inj] at heq
        exact hmask (heq ▸ hi)
      · rw [hcons]
        rfl
    · next hnone =>
      obtain ⟨tags, hread, hnodup, hfree, rfl⟩ := simpleSectionLoop_accepts n rest _ _ _ hlen h
      have hcons : typedTags (s.typeOf kt) ((id.toNat, val) :: tags) = typedTags (s.typeOf kt) tags := by
        simp [typedTags, Classical.not_not.mp hnone]
      refine ⟨(id.toNat, val) :: tags, .cons hv hread, ?_, fun i hi => ?_, ?_⟩
      · rw [hcons]
        exact hnodup
      · rw [hcons]
        exact hfree i hi
      · rw [hcons]

theorem decodeSimpleSection_accepts {bin : List UInt8} {d : SectionDefinition} {kt : Nat} {ss' : SimpleSection}
    (h : decodeSimpleSection scanFloat bin { definition := d } kt = .ok ss') :
    ∃ tags, TagsRead scanFloat (ss'.typeOf kt) bin tags ∧ ss'.definition = d ∧
      ((typedTags (ss'.typeOf kt) tags).map (·.1)).Nodup ∧
      (∀ id, ss'.present id = true ↔ id ∈ (typedTags (ss'.typeOf kt) tags).map (·.1)) ∧
      ∀ id v, (id, v) ∈ typedTags (ss'.typeOf kt) tags → ss'.tagValue id = v := by
  obtain ⟨tags, hread, hnodup, -, rfl⟩ := simpleSectionLoop_accepts _ _ _ _ _ (Nat.le_refl _) h
  generalize htype : SimpleSection.typeOf { definition := d } kt = typeOf at hread hnodup
  have htypes : ∀ s : SimpleSection, s.definition = d → s.typeOf kt = typeOf := by
    intro s hs
    rw [← htype]
    funext id
    rw [SimpleSection.typeOf, SimpleSection.typeOf, hs]
  rw [htypes _ SimpleSection.setTags_definition]
  refine ⟨tags, hread, SimpleSection.setTags_definition, hnodup, fun id => ?_, fun id v hmem => ?_⟩
  · rw [SimpleSection.setTags_present, Bool.or_false, decide_eq_true_iff]
  · exact SimpleSection.setTags_tagValue hnodup hmem

end Accepted

/-- **The codec of sections**: a section whose values can be read back is decoded with the same tags present, each with the
value it is read back as, from as many bytes as were announced; and a section that is accepted was read to its end, the tags
with a type once each, and it is these that are present. -/
theorem sectionCodec (scanFloat : List UInt8 → Option (BitVec 64)) (printFloat : BitVec 64 → List UInt8) :
    (∀ (ss : SimpleSection) (kt : FieldType) (v' : Nat → DataValue),
      (∀ id, ss.tagPresent id = true →
        readBack scanFloat printFloat (ss.tagValue id) (ss.fieldTypeOf kt id) = some (v' id)) →
      ∃ ss', decodeSimpleSection scanFloat (encodeSimpleSection printFloat ss kt) { definition := ss.definition } kt.code =
          .ok ss' ∧
        ∀ id, ss'.tagPresent id = ss.tagPresent id ∧ (ss.tagPresent id = true → ss'.tagValue id = v' id)) ∧
    (∀ (ss : SimpleSection) (kt : FieldType),
      (encodeSimpleSection printFloat ss kt).length = encodedBytesSimpleSection printFloat ss kt) ∧
    ∀ (bin : List UInt8) (d : SectionDefinition) (kt : Nat) (ss' : SimpleSection),
      decodeSimpleSection scanFloat bin { definition := d } kt = .ok ss' →
      ∃ tags, TagsRead scanFloat (ss'.typeOf kt) bin tags ∧ ss'.definition = d ∧
        ((typedTags (ss'.typeOf kt) tags).map (·.1)).Nodup ∧
        (∀ id, ss'.present id = true ↔ id ∈ (typedTags (ss'.typeOf kt) tags).map (·.1)) ∧
        ∀ id v, (id, v) ∈ typedTags (ss'.typeOf kt) tags → ss'.tagValue id = v :=
  ⟨fun _ _ _ hread => decodeSimpleSection_written hread, encodeSimpleSection_length printFloat,
    fun _ _ _ _ h => decodeSimpleSection_accepts h⟩

def keyedInfo : SimpleSection :=
  SimpleSection.setTags { definition := requestInfoDefinition } [(0, .word 5), (1, .word 300)]

theorem sectionCodec_keyed :
    (∃ ss', decodeSimpleSection (fun _ => none) (encodeSimpleSection (fun _ => []) keyedInfo .signed)
        { definition := requestInfoDefinition } 1 = .ok ss' ∧
      ∀ id, ss'.tagPresent id = keyedInfo.tagPresent id ∧
        (keyedInfo.tagPresent id = true → ss'.tagValue id = keyedInfo.tagValue id)) ∧
    ∃ tags, TagsRead (fun _ => none) (keyedInfo.typeOf 1) [0, 1, 5, 1, 2, 1, 44] tags ∧
      ((typedTags (keyedInfo.typeOf 1) tags).map (·.1)).Nodup := by
  have hwritten := (sectionCodec (fun _ => none) fun _ => []).1 keyedInfo .signed keyedInfo.tagValue
  have haccepted := (sectionCodec (fun _ => none) fun _ => []).2.2 [0, 1, 5, 1, 2, 1, 44] requestInfoDefinition 1 keyedInfo rfl
  refine ⟨hwritten fun id hid => ?_, ?_⟩
  · have hlt := lt_of_tagPresent hid
    unfold maxStaticSection at hlt
    revert hid
    interval_cases id <;> decide
  · obtain ⟨tags, hread, -, hnodup, -⟩ := haccepted
    exact ⟨tags, hread, hnodup⟩

theorem encodeLength_tooLong {len : Nat} (h : maxPacketSize < len) (hlt : len < 2 ^ 32) (rest : List UInt8) :
    decodeLength (encodeLength len ++ rest) = fail (-ecBadValueLength) := by
  have hmax : 67108864 < len := h
  have hlen : 16777216 * (len / 16777216 % 256) + 65536 * (len / 65536 % 256) + 256 * (len / 256 % 256) + len % 256 =
      len := by omega
  have hroom : ¬ rest.length + 1 + 1 + 1 + 1 < 4 := by omega
  unfold encodeLength
  rw [if_neg (by omega), if_neg (by omega), if_neg (by omega), if_neg (by omega)]
  simp [decodeLength, hlen, hroom, h]

def textInfo (key : DataValue) : SimpleSection := SimpleSection.setTags { definition := requestInfoDefinition } [(0, key)]

theorem decodeSimpleSection_tooLong {text : List UInt8} (h : maxPacketSize ≤ text.length) (hlt : text.length + 1 < 2 ^ 32)
    (scanFloat : List UInt8 → Option (BitVec 64)) (printFloat : BitVec 64 → List UInt8) :
    decodeSimpleSection scanFloat (encodeSimpleSection printFloat (textInfo (.bin text)) .string)
        { definition := requestInfoDefinition } FieldType.string.code =
      fail (-ecBadValueLength, { definition := requestInfoDefinition }) := by
  have hbytes : encodeSimpleSection printFloat (textInfo (.bin text)) .string =
      0 :: (encodeLength (text.length + 1) ++ (text ++ [0])) := by
    have h : encodeSimpleSection printFloat (textInfo (.bin text)) .string =
        0 :: (encodeLength (text.length + 1) ++ text ++ [0]) ++ [] := rfl
    rw [h, List.append_nil, List.append_assoc]
  have hvalue : decodeDataValue scanFloat (encodeLength (text.length + 1) ++ (text ++ [0]))
      (SimpleSection.typeOf { definition := requestInfoDefinition } FieldType.string.code 0) = fail (-ecBadValueLength) := by
    rw [decodeDataValue, encodeLength_tooLong (Nat.lt_succ_of_le h) hlt]
    rfl
  rw [hbytes, decodeSimpleSection, List.length_cons, simpleSectionLoop, if_neg (List.cons_ne_nil _ _), next_cons, ok_bind]
  dsimp only
  rw [if_neg Bool.false_ne_true, UInt8.toNat_zero, hvalue]
  rfl

/-- Tags without a type may come twice, a null text comes back as an empty one, and a text that does not fit into a packet
is written and not read. -/
theorem sectionCodec_exceptions :
    decodeSimpleSection (fun _ => none) [19, 0, 19, 0] { definition := versionInfoDefinition } 0 =
      .ok { definition := versionInfoDefinition } ∧
    decodeSimpleSection (fun _ => none) (encodeSimpleSection (fun _ => []) (textInfo .unset) .string)
        { definition := requestInfoDefinition } FieldType.string.code =
      .ok (textInfo (.bin [])) ∧
    decodeSimpleSection (fun _ => none)
        (encodeSimpleSection (fun _ => []) (textInfo (.bin (List.replicate maxPacketSize 0))) .string)
        { definition := requestInfoDefinition } FieldType.string.code =
      fail (-ecBadValueLength, { definition := requestInfoDefinition }) := by
  have hlength : (List.replicate maxPacketSize (0 : UInt8)).length = 67108864 := List.length_replicate
  refine ⟨rfl, rfl, decodeSimpleSection_tooLong ?_ ?_ _ _⟩
  · exact hlength.ge
  · rw [hlength]
    decide

end Dtc
