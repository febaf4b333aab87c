import DtcServer.BinlogRead
/-!
# BinlogTorn — a record cut off at the end of a file

The writer was killed in the middle of a write, and a new one went on with the next file. A reader that meets the record reads
its length, and then looks for the rest of the record in its file.
-/
namespace Dtc

open Bytes Segments

namespace BinlogReader

variable {d : LogDir} {b : BinlogReader} {v : View UInt8} {rs rs' : List (List UInt8)} {e : List UInt8}

/-- **Calls of `Read` give these records**, one after another and no others, whatever calls fail between them. -/
def Delivers (d : LogDir) (b : BinlogReader) (rs : List (List UInt8)) : Prop :=
  (∀ n, b.records d n <+: rs) ∧ ∃ n, b.records d n = rs

theorem records_succ (n : Nat) : b.records d (n + 1) = (b.next d).2.toList ++ (b.next d).1.records d n := rfl

theorem Delivers.unique (h : Delivers d b rs) (h' : Delivers d b rs') : rs = rs' := by
  obtain ⟨n, hn⟩ := h.2
  obtain ⟨m, hm⟩ := h'.2
  have h1 := h'.1 n
  have h2 := h.1 m
  rw [hn] at h1
  rw [hm] at h2
  exact h1.eq_of_length_le h2.length_le

theorem delivers_of_none (hnext : (b.next d).2 = none) : Delivers d b rs ↔ Delivers d (b.next d).1 rs := by
  have hsucc : ∀ n, b.records d (n + 1) = (b.next d).1.records d n := by
    intro n
    rw [records_succ, hnext]
    rfl
  constructor
  · rintro ⟨h1, n, hn⟩
    refine ⟨fun m => hsucc m ▸ h1 (m + 1), ?_⟩
    cases n with
    | zero =>
      obtain rfl : [] = rs := hn
      exact ⟨0, rfl⟩
    | succ n => exact ⟨n, (hsucc n).symm.trans hn⟩
  · rintro ⟨h1, n, hn⟩
    refine ⟨fun m => ?_, n + 1, (hsucc n).trans hn⟩
    cases m with
    | zero => exact List.nil_prefix
    | succ m =>
      rw [hsucc]
      exact h1 m

theorem delivers_of_some (hnext : (b.next d).2 = some e) :
    Delivers d b rs ↔ ∃ rs', rs = e :: rs' ∧ Delivers d (b.next d).1 rs' := by
  have hsucc : ∀ n, b.records d (n + 1) = e :: (b.next d).1.records d n := by
    intro n
    rw [records_succ, hnext]
    rfl
  constructor
  · rintro ⟨h1, n, hn⟩
    obtain ⟨rest, hrest⟩ := h1 1
    have hrs : rs = e :: rest := by
      rw [← hrest]
      exact congrArg (· ++ rest) (hsucc 0)
    subst hrs
    refine ⟨rest, rfl, fun m => ?_, ?_⟩
    · have h := h1 (m + 1)
      rw [hsucc] at h
      exact (List.cons_prefix_cons.mp h).2
    · cases n with
      | zero => cases hn
      | succ n => exact ⟨n, (List.cons.inj ((hsucc n).symm.trans hn)).2⟩
  · rintro ⟨rs', rfl, h1, n, hn⟩
    refine ⟨fun m => ?_, n + 1, by rw [hsucc, hn]⟩
    cases m with
    | zero => exact List.nil_prefix
    | succ m =>
      rw [hsucc]
      exact List.cons_prefix_cons.mpr ⟨rfl, h1 m⟩

theorem delivers_aligned (hd : d.maxSerial < 2 ^ 32) : ∀ {rs : List BinlogRecord} {b : BinlogReader} {v : View UInt8},
    LogReader.At d b.logReader v → (∀ r ∈ rs, r.Fits) → Aligned v (rs.map BinlogRecord.encode) →
      Delivers d b (rs.map BinlogRecord.encode)
  | [], b, v, h, _, ha => by
    have hnil : ∀ (n : Nat) {b : BinlogReader} {v : View UInt8}, LogReader.At d b.logReader v → Aligned v [] →
        b.records d n = [] := by
      intro n
      induction n with
      | zero => exact fun _ _ => rfl
      | succ n ih =>
        intro b v h ha
        obtain ⟨h1, -, v', h2, ha'⟩ := next_aligned_nil hd h ha
        rw [records_succ, h1, ih h2 ha']
        rfl
    exact ⟨fun n => (hnil n h ha).symm ▸ List.nil_prefix, 0, rfl⟩
  | r :: rs, b, v, h, hfit, ha => by
    obtain ⟨h1, -, v', h2, ha'⟩ := next_aligned hd h (hfit r List.mem_cons_self) ha
    rw [List.map_cons, delivers_of_some h1]
    exact ⟨_, rfl, delivers_aligned hd h2 (fun x hx => hfit x (List.mem_cons_of_mem _ hx)) ha'⟩

end BinlogReader

open BinlogReader

/-- **A journal with a record cut off** at the end of a file, with well-formed files behind it, and a reader at a record in
front of it: in the same file or in an earlier one. -/
structure TornJournal where
  dir : LogDir
  reader : BinlogReader
  /-- the records from the reader's position on, file by file, up to the file of the cut -/
  before : List (List BinlogRecord)
  /-- the complete records of the file of the cut, those behind the reader's position only -/
  complete : List BinlogRecord
  cut : BinlogRecord
  torn : List UInt8
  after : List (List BinlogRecord)
  serials : dir.maxSerial < 2 ^ 32
  view : View UInt8
  position : LogReader.At dir reader.logReader view
  files : view.rest :: view.later = before.map fileOf ++ (fileOf complete ++ torn) :: after.map fileOf
  cutOff : torn <+: cut.encode ∧ torn ≠ cut.encode
  followed : after ≠ []
  fits : cut.Fits ∧ ∀ r ∈ before.flatten ++ complete ++ after.flatten, r.Fits

namespace TornJournal

variable (j : TornJournal)

/-- The reader delivers every complete record and nothing else. -/
def Recovers : Prop :=
  j.reader.Delivers j.dir ((j.before.flatten ++ j.complete ++ j.after.flatten).map BinlogRecord.encode)

/-- The length itself is cut off; or no later file is as long as the rest of the record should be, and none but the last has
records. -/
def PassedOver : Prop :=
  j.torn.length < 4 ∨
    (∀ file ∈ j.after, (fileOf file).length < j.cut.encodeRest.length) ∧ ∀ file ∈ j.after.dropLast, file = []

end TornJournal

section

variable {d : LogDir} {b : BinlogReader} {v : View UInt8} {torn : List UInt8} {after : List (List BinlogRecord)}
  {cut : BinlogRecord}

theorem delivers_alignedTo (hd : d.maxSerial < 2 ^ 32) : ∀ {rs : List BinlogRecord} {b : BinlogReader} {v : View UInt8},
    LogReader.At d b.logReader v → (∀ r ∈ rs, r.Fits) →
    AlignedTo v (rs.map BinlogRecord.encode) torn (after.map fileOf) →
    ∃ b' v', LogReader.At d b'.logReader v' ∧ AlignedTo v' [] torn (after.map fileOf) ∧
      ∀ more, Delivers d b (rs.map BinlogRecord.encode ++ more) ↔ Delivers d b' more
  | [], b, v, h, _, ha => ⟨b, v, h, ha, fun _ => Iff.rfl⟩
  | r :: rs, b, v, h, hfit, ⟨pre, now, hv, he⟩ => by
    obtain ⟨w, hw, ha⟩ := frame_alignedTo (k := 4) (by decide) (hfit r List.mem_cons_self).isFrame he hv
    obtain ⟨h1, h2, -⟩ := next_some hd h hw
    obtain ⟨b', v', h3, ha', hiff⟩ := delivers_alignedTo hd h2 (fun x hx => hfit x (List.mem_cons_of_mem _ hx)) ha
    refine ⟨b', v', h3, ha', fun more => ?_⟩
    rw [List.map_cons, List.cons_append, delivers_of_some h1, ← hiff]
    constructor
    · rintro ⟨rs', he, hdel⟩
      rw [(List.cons.inj he).2]
      exact hdel
    · exact fun hdel => ⟨_, rfl, hdel⟩

theorem later_ne_nil (ha : AlignedTo v [] torn (after.map fileOf)) (hafter : after ≠ []) : v.later ≠ [] := by
  obtain ⟨pre, now, hv, -⟩ := ha
  intro h0
  have hlen := congrArg List.length hv
  rw [h0, List.length_append, List.length_cons, List.length_cons, List.length_map, List.length_map, List.length_nil] at hlen
  have hpos := List.length_pos_iff.mpr hafter
  omega

theorem delivers_of_short (hd : d.maxSerial < 2 ^ 32) (h : LogReader.At d b.logReader v)
    (ha : AlignedTo v [] torn (after.map fileOf)) (hafter : after ≠ []) (hfit : ∀ r ∈ after.flatten, r.Fits)
    (hshort : torn.length < 4) : Delivers d b (after.flatten.map BinlogRecord.encode) := by
  obtain ⟨file, after, rfl⟩ := List.exists_cons_of_ne_nil hafter
  have htake : take 4 v = take 4 ⟨fileOf file, after.map fileOf⟩ := by
    rw [ha.take_nil (by decide), List.map_cons, take_next hshort]
  have halign : Aligned ⟨fileOf file, after.map fileOf⟩ ((file :: after).flatten.map BinlogRecord.encode) := by
    refine ⟨file.map BinlogRecord.encode, after.map (List.map BinlogRecord.encode), rfl, ?_, ?_⟩
    · rw [List.map_map]
      rfl
    · rw [List.flatten_cons, List.map_append, List.map_flatten]
  obtain ⟨now, next, hrest, hlater, he⟩ := halign
  generalize hall : (file :: after).flatten = all at he hfit
  dsimp only at hrest hlater
  rw [hrest, hlater] at htake
  cases all with
  | cons r rs =>
    obtain ⟨w, hw, ha'⟩ := frame_aligned (k := 4) (by decide) (hfit r List.mem_cons_self).isFrame he
    rw [← frame_congr htake] at hw
    obtain ⟨h1, h2, -⟩ := next_some hd h hw
    rw [List.map_cons, delivers_of_some h1]
    exact ⟨_, rfl, delivers_aligned hd h2 (fun x hx => hfit x (List.mem_cons_of_mem _ hx)) ha'⟩
  | nil =>
    obtain ⟨rfl, hnext⟩ := List.append_eq_nil_iff.mp he
    rw [List.flatten_nil, take_aligned_nil (by decide) hnext] at htake
    obtain ⟨h1, h2, -⟩ := next_at hd h (fun h0 => absurd h0 (later_ne_nil ha hafter)) (fun head w n ht => by
      rw [htake] at ht
      cases ht)
    rw [frame_of_take_none htake] at h1 h2
    rw [delivers_of_none h1]
    exact delivers_aligned hd h2 hfit ⟨[], [], rfl, rfl, rfl⟩

section

variable (hcut : torn <+: cut.encode ∧ torn ≠ cut.encode) (hlen : 4 ≤ torn.length)
include hcut hlen

theorem take_torn (ha : AlignedTo v [] torn (after.map fileOf)) :
    take 4 v = (some (leBytes 4 cut.encodeRest.length), ⟨torn.drop 4, after.map fileOf⟩) ∧
      (torn.drop 4).length < cut.encodeRest.length := by
  obtain ⟨⟨back, hback⟩, hne⟩ := hcut
  have hhead : torn.take 4 = leBytes 4 cut.encodeRest.length := by
    have htake := congrArg (List.take 4) hback
    rw [List.take_append_of_le_length hlen, BinlogRecord.encode, List.take_left' (length_leBytes 4 _)] at htake
    exact htake
  have hpos : back ≠ [] := by
    rintro rfl
    exact hne (by rw [← hback, List.append_nil])
  refine ⟨?_, ?_⟩
  · rw [ha.take_nil (by decide), take_of_le hlen, hhead]
  · have hall := congrArg List.length hback
    rw [List.length_append, BinlogRecord.length_encode] at hall
    have hback0 := List.length_pos_iff.mpr hpos
    rw [List.length_drop]
    omega

theorem not_delivers_of_long (hd : d.maxSerial < 2 ^ 32) (h : LogReader.At d b.logReader v)
    (ha : AlignedTo v [] torn (after.map fileOf)) (hfits : cut.Fits)
    (hlong : ∃ file ∈ after, cut.encodeRest.length ≤ (fileOf file).length) {rs : List BinlogRecord} :
    ¬ Delivers d b (rs.map BinlogRecord.encode) := by
  obtain ⟨htake, hrest⟩ := take_torn hcut hlen ha
  obtain ⟨file, hfile, hle⟩ := hlong
  obtain ⟨s, hs, w, hsle, hw⟩ := take_first hrest ⟨fileOf file, List.mem_map_of_mem hfile, hle⟩
  have hframe : frame 4 recordRest v = (some (leBytes 4 cut.encodeRest.length ++ s.take cut.encodeRest.length), w) := by
    unfold frame
    rw [htake]
    dsimp only
    rw [hfits.recordRest]
    dsimp only
    rw [hw]
  obtain ⟨h1, -, -⟩ := next_some hd h hframe
  intro hdel
  rw [delivers_of_some h1] at hdel
  obtain ⟨rs', he, -⟩ := hdel
  -- its ninth byte is the version of the file's first record
  obtain ⟨r, -, hr⟩ := List.mem_map.mp (he ▸ List.mem_cons_self)
  have hzero := (BinlogRecord.getElem?_encode r).2
  have h16 := cut.length_encodeRest
  rw [hr, List.getElem?_append_right (by rw [length_leBytes]; decide), length_leBytes, List.getElem?_take_of_lt (by omega)]
    at hzero
  obtain ⟨f, -, rfl⟩ := List.mem_map.mp hs
  cases f with
  | nil =>
    rw [show fileOf [] = [] from rfl, List.length_nil] at hsle
    omega
  | cons r₀ f =>
    have htwo := (BinlogRecord.getElem?_encode r₀).1
    have hr₀ := r₀.length_encodeRest
    rw [fileOf, List.map_cons, List.flatten_cons, List.getElem?_append_left (by rw [r₀.length_encode]; omega), htwo] at hzero
    cases hzero

theorem delivers_of_all_short (hd : d.maxSerial < 2 ^ 32) (h : LogReader.At d b.logReader v)
    (ha : AlignedTo v [] torn (after.map fileOf)) (hafter : after ≠ []) (hfits : cut.Fits)
    (hfit : ∀ r ∈ after.flatten, r.Fits) (hall : ∀ file ∈ after, (fileOf file).length < cut.encodeRest.length) :
    Delivers d b (after.flatten.map BinlogRecord.encode) ↔ ∀ file ∈ after.dropLast, file = [] := by
  obtain ⟨htake, hrest⟩ := take_torn hcut hlen ha
  have hlast : after.dropLast ++ [after.getLast hafter] = after := List.dropLast_append_getLast hafter
  have hnone : take cut.encodeRest.length ⟨torn.drop 4, after.map fileOf⟩ = (none, ⟨fileOf (after.getLast hafter), []⟩) := by
    rw [take_none hrest (fun s hs => by
      obtain ⟨file, hfile, rfl⟩ := List.mem_map.mp hs
      exact hall file hfile), List.getLast_cons (by rwa [ne_eq, List.map_eq_nil_iff]), List.getLast_map]
  have hframe : frame 4 recordRest v = (none, ⟨fileOf (after.getLast hafter), []⟩) := by
    unfold frame
    rw [htake]
    dsimp only
    rw [hfits.recordRest]
    dsimp only
    rw [hnone]
  obtain ⟨h1, h2, -⟩ := next_at hd h (fun h0 => absurd h0 (later_ne_nil ha hafter)) (fun head w n ht _ h0 => by
    rw [htake] at ht
    obtain ⟨-, rfl⟩ := Prod.mk.inj ht
    exact absurd (List.map_eq_nil_iff.mp h0) hafter)
  rw [hframe] at h1 h2
  have hdel := delivers_aligned hd h2 (fun r hr => hfit r (List.mem_flatten.mpr ⟨_, List.getLast_mem hafter, hr⟩))
    ⟨_, [], rfl, rfl, by rw [List.flatten_nil, List.append_nil]⟩
  rw [delivers_of_none h1]
  have hflat : after.flatten = after.dropLast.flatten ++ after.getLast hafter := by
    rw [← List.flatten_concat, hlast]
  rw [← List.flatten_eq_nil_iff]
  constructor
  · intro hall'
    have heq := congrArg List.length (hall'.unique hdel)
    rw [hflat, List.length_map, List.length_map, List.length_append] at heq
    exact List.length_eq_zero_iff.mp (by omega)
  · intro hnil
    rw [hflat, hnil, List.nil_append]
    exact hdel

end

end

/-- **Exactly when the torn record is passed over**, with every complete record delivered once and in its order. -/
theorem tornJournal_recovers_iff (j : TornJournal) : j.Recovers ↔ j.PassedOver := by
  have hfits := j.fits.2
  have halign : AlignedTo j.view ((j.before.flatten ++ j.complete).map BinlogRecord.encode) j.torn (j.after.map fileOf) := by
    refine ⟨j.before.map (List.map BinlogRecord.encode), j.complete.map BinlogRecord.encode, ?_, ?_⟩
    · rw [j.files, List.map_map]
      rfl
    · rw [List.map_append, List.map_flatten]
  obtain ⟨b, v, hat, ha, hiff⟩ := delivers_alignedTo j.serials j.position
    (fun r hr => hfits r (List.mem_append_left _ hr)) halign
  have hafter : ∀ r ∈ j.after.flatten, r.Fits := fun r hr => hfits r (List.mem_append_right _ hr)
  unfold TornJournal.Recovers TornJournal.PassedOver
  rw [List.map_append, hiff]
  by_cases hshort : j.torn.length < 4
  · exact iff_of_true (delivers_of_short j.serials hat ha j.followed hafter hshort) (.inl hshort)
  · have hlen := Nat.le_of_not_lt hshort
    by_cases hall : ∀ file ∈ j.after, (fileOf file).length < j.cut.encodeRest.length
    · rw [delivers_of_all_short j.cutOff hlen j.serials hat ha j.followed j.fits.1 hafter hall]
      exact ⟨fun h => .inr ⟨hall, h⟩, fun h => (h.resolve_left hshort).2⟩
    · refine iff_of_false ?_ (fun h => hall (h.resolve_left hshort).1)
      simp only [not_forall, Nat.not_lt] at hall
      obtain ⟨file, hfile, hle⟩ := hall
      exact not_delivers_of_long j.cutOff hlen j.serials hat ha j.fits.1 ⟨file, hfile, hle⟩

def emptyRecord (operater : UInt8) : BinlogRecord := ⟨2, operater, 0, 0, []⟩

/-- The second record of the first file is cut off behind its length; the reader is at the first. -/
def tornAfterLength : TornJournal where
  dir := [(1, fileOf [emptyRecord 1] ++ leBytes 4 16 ++ [0x02, 2]), (2, fileOf [emptyRecord 3])]
  reader := ⟨⟨1, 2, 1, 0, some (1, 0)⟩, []⟩
  before := []
  complete := [emptyRecord 1]
  cut := emptyRecord 2
  torn := leBytes 4 16 ++ [0x02, 2]
  after := [[emptyRecord 3]]
  serials := by decide
  view := ⟨fileOf [emptyRecord 1] ++ (leBytes 4 16 ++ [0x02, 2]), [fileOf [emptyRecord 3]]⟩
  position := ⟨_, rfl, rfl, Nat.zero_le _, rfl⟩
  files := by decide
  cutOff := by decide
  followed := by decide
  fits := by decide

/-- The second `Read` gives the length of the torn record with the first bytes of the next file. -/
theorem tornAfterLength_mixes : ¬ tornAfterLength.Recovers ∧
    tornAfterLength.reader.records tornAfterLength.dir 2 =
      [(emptyRecord 1).encode, leBytes 4 16 ++ (fileOf [emptyRecord 3]).take 16] := by
  have hrecords : tornAfterLength.reader.records tornAfterLength.dir 2 =
      [(emptyRecord 1).encode, leBytes 4 16 ++ (fileOf [emptyRecord 3]).take 16] := by decide
  refine ⟨fun hrec => ?_, hrecords⟩
  have hle := hrec.1 2
  rw [hrecords] at hle
  revert hle
  decide

end Dtc
