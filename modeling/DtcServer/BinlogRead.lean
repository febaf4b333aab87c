import DtcServer.Binlog
import DtcServer.Segments
/-!
# BinlogRead — what a reader of the journal has in front of it

The reader of a directory is a reader of segments: the rest of its file, then the files with larger serial numbers. So what
`Read` gives follows from how the files are made up of records.
-/
namespace Dtc

open Bytes Segments

namespace LogDir

variable {d : LogDir} {serial v : Nat} {bytes : List UInt8}

theorem content_deleteFile (hv : v ≠ serial) : ∀ d : LogDir, (d.deleteFile serial).content v = d.content v
  | [] => rfl
  | file :: d => by
    have ih := content_deleteFile hv d
    unfold content deleteFile at ih ⊢
    rw [List.filter_cons]
    by_cases hf : file.1 = serial
    · rw [if_neg (by simpa using hf), ih, List.lookup_cons, beq_eq_false_iff_ne.mpr (fun he => hv (he.trans hf))]
    · rw [if_pos (by simpa using hf), List.lookup_cons, List.lookup_cons, ih]

theorem content_put (d : LogDir) (serial : Nat) (bytes : List UInt8) (v : Nat) :
    (d.put serial bytes).content v = if v = serial then some bytes else d.content v := by
  by_cases hv : v = serial
  · rw [hv, if_pos rfl]
    exact List.lookup_cons_self
  · rw [if_neg hv, ← content_deleteFile hv d]
    unfold content put
    rw [List.lookup_cons, beq_eq_false_iff_ne.mpr hv]
    rfl

theorem mem_of_content (h : d.content v = some bytes) : v ∈ d.map Prod.fst := by
  unfold content at h
  obtain ⟨l₁, l₂, rfl, -⟩ := List.lookup_eq_some_iff.mp h
  simp

theorem content_of_mem (h : v ∈ d.map Prod.fst) : ∃ bytes, d.content v = some bytes := by
  obtain ⟨file, hfile, rfl⟩ := List.mem_map.mp h
  cases hc : d.content file.1 with
  | some bytes => exact ⟨bytes, rfl⟩
  | none =>
    unfold content at hc
    rw [List.lookup_eq_none_iff] at hc
    have hne := hc file hfile
    rw [bne_self_eq_false] at hne
    cases hne

theorem scanOne_fold : ∀ (l : List Nat) (acc : Nat × Nat), acc.2 ≤ (l.foldl scanOne acc).2 ∧
    (∀ v ∈ l, v ≤ (l.foldl scanOne acc).2) ∧ ((l.foldl scanOne acc).2 = acc.2 ∨ (l.foldl scanOne acc).2 ∈ l)
  | [], acc => ⟨Nat.le_refl _, fun _ hv => absurd hv List.not_mem_nil, .inl rfl⟩
  | v :: l, acc => by
    obtain ⟨h1, h2, h3⟩ := scanOne_fold l (scanOne acc v)
    have hacc : acc.2 ≤ (scanOne acc v).2 ∧ v ≤ (scanOne acc v).2 ∧ ((scanOne acc v).2 = acc.2 ∨ (scanOne acc v).2 = v) := by
      unfold scanOne
      split
      · dsimp only
        split
        · exact ⟨by omega, Nat.le_refl _, .inr rfl⟩
        · exact ⟨Nat.le_refl _, by omega, .inl rfl⟩
      · exact ⟨Nat.le_refl _, by omega, .inl rfl⟩
    rw [List.foldl_cons]
    refine ⟨Nat.le_trans hacc.1 h1, fun x hx => ?_, ?_⟩
    · rcases List.mem_cons.mp hx with rfl | hx
      · exact Nat.le_trans hacc.2.1 h1
      · exact h2 x hx
    · rcases h3 with h3 | h3
      · rw [h3]
        exact hacc.2.2.imp_right (fun he => List.mem_cons.mpr (.inl he))
      · exact .inr (List.mem_cons_of_mem _ h3)

theorem maxSerial_spec (d : LogDir) : (∀ v bytes, d.content v = some bytes → v ≤ d.maxSerial) ∧
    (d.maxSerial = 0 ∨ ∃ bytes, d.content d.maxSerial = some bytes) := by
  unfold maxSerial scanSerial
  by_cases hd : d = []
  · subst hd
    exact ⟨fun v bytes h => (by cases h), .inl rfl⟩
  · rw [if_neg hd]
    obtain ⟨-, h2, h3⟩ := scanOne_fold (d.map Prod.fst) (2 ^ 32 - 1, 0)
    exact ⟨fun v bytes h => h2 v (mem_of_content h), h3.imp_right content_of_mem⟩

theorem maxSerial_eq (h : d.content serial = some bytes) (hmax : ∀ v c, d.content v = some c → v ≤ serial) :
    d.maxSerial = serial := by
  obtain ⟨h1, h2⟩ := d.maxSerial_spec
  have hle := h1 serial bytes h
  rcases h2 with h2 | ⟨c, hc⟩
  · omega
  · exact Nat.le_antisymm (hmax _ c hc) hle

/-! ## Files behind a file -/

/-- The files from a serial number on, of so many numbers. -/
def filesFrom (d : LogDir) : Nat → Nat → List (List UInt8)
  | 0, _ => []
  | n + 1, cur => (d.content cur).toList ++ filesFrom d n (cur + 1)

def later (d : LogDir) (serial : Nat) : List (List UInt8) := d.filesFrom (d.maxSerial - serial) (serial + 1)

theorem filesFrom_add (d : LogDir) : ∀ (m n cur : Nat), d.filesFrom (m + n) cur = d.filesFrom m cur ++ d.filesFrom n (cur + m)
  | 0, n, cur => by rw [Nat.zero_add, Nat.add_zero, filesFrom, List.nil_append]
  | m + 1, n, cur => by
    rw [Nat.succ_add, filesFrom, filesFrom, filesFrom_add d m n (cur + 1), List.append_assoc, Nat.add_assoc, Nat.add_comm 1]

theorem filesFrom_congr {d' : LogDir} : ∀ {n cur : Nat}, (∀ v, cur ≤ v → v < cur + n → d'.content v = d.content v) →
    d'.filesFrom n cur = d.filesFrom n cur
  | 0, _, _ => rfl
  | n + 1, cur, h => by
    rw [filesFrom, filesFrom, h cur (Nat.le_refl _) (by omega), filesFrom_congr (fun v h1 h2 => h v (by omega) (by omega))]

theorem skipMissing_spec {max : Nat} {last : List UInt8} (hmax : d.content max = some last) : ∀ {n cur : Nat}, cur + n = max →
    ∃ c, d.content (LogReader.skipMissing d max n cur) = some c ∧ cur ≤ LogReader.skipMissing d max n cur ∧
      LogReader.skipMissing d max n cur ≤ max ∧
      d.filesFrom (n + 1) cur = c :: d.filesFrom (max - LogReader.skipMissing d max n cur) (LogReader.skipMissing d max n cur + 1)
  | 0, cur, h => by
    obtain rfl : cur = max := h
    refine ⟨last, hmax, Nat.le_refl _, Nat.le_refl _, ?_⟩
    rw [LogReader.skipMissing, Nat.sub_self]
    change (d.content cur).toList ++ [] = [last]
    rw [hmax]
    rfl
  | n + 1, cur, h => by
    rw [LogReader.skipMissing]
    cases hc : d.content cur with
    | none =>
      rw [if_pos ⟨rfl, by omega⟩]
      obtain ⟨c, h1, h2, h3, h4⟩ := skipMissing_spec hmax (show cur + 1 + n = max by omega)
      refine ⟨c, h1, by omega, h3, ?_⟩
      rw [filesFrom, hc, h4]
      rfl
    | some c =>
      rw [if_neg (fun h0 => Option.some_ne_none c h0.1)]
      refine ⟨c, hc, Nat.le_refl _, by omega, ?_⟩
      rw [filesFrom, hc, show max - cur = n + 1 by omega]
      rfl

theorem later_cons (h : serial < d.maxSerial) :
    ∃ c, d.content (LogReader.skipMissing d d.maxSerial (d.maxSerial - (serial + 1)) (serial + 1)) = some c ∧
      serial < LogReader.skipMissing d d.maxSerial (d.maxSerial - (serial + 1)) (serial + 1) ∧
      d.later serial = c :: d.later (LogReader.skipMissing d d.maxSerial (d.maxSerial - (serial + 1)) (serial + 1)) := by
  obtain ⟨last, hlast⟩ := (d.maxSerial_spec.2).resolve_left (Nat.ne_of_gt (Nat.lt_of_le_of_lt (Nat.zero_le _) h))
  obtain ⟨c, h1, h2, -, h4⟩ := skipMissing_spec hlast (show serial + 1 + (d.maxSerial - (serial + 1)) = d.maxSerial by omega)
  refine ⟨c, h1, h2, ?_⟩
  rw [show d.maxSerial - (serial + 1) + 1 = d.maxSerial - serial by omega] at h4
  exact h4

theorem later_nil (h : ¬ serial < d.maxSerial) : d.later serial = [] := by
  unfold later
  rw [Nat.sub_eq_zero_of_le (Nat.le_of_not_lt h)]
  rfl

end LogDir

/-! ## The reader as one of segments -/

namespace LogReader

variable {d : LogDir} {r : LogReader} {v : View UInt8} {n : Nat}

/-- The reader's position is that of its open file, and this is what is in front of it. -/
def At (d : LogDir) (r : LogReader) (v : View UInt8) : Prop :=
  ∃ bytes, d.content r.curSerial = some bytes ∧ r.fd = some (r.curSerial, r.curOffset) ∧ r.curOffset ≤ bytes.length ∧
    v = ⟨bytes.drop r.curOffset, d.later r.curSerial⟩

theorem seek_back {bytes : List UInt8} (hd : d.maxSerial < 2 ^ 32) (hc : d.content r.curSerial = some bytes) {pos : Nat}
    (hfd : r.fd = some (r.curSerial, pos)) (h0 : r.curOffset = 0) :
    (r.seek d (.of r.curSerial r.curOffset)).1 = { r with fd := some (r.curSerial, r.curOffset) } := by
  have hserial : r.curSerial % 2 ^ 32 = r.curSerial :=
    Nat.mod_eq_of_lt (Nat.lt_of_le_of_lt (d.maxSerial_spec.1 _ bytes hc) hd)
  have hof : JournalID.of r.curSerial r.curOffset = ⟨r.curSerial, r.curOffset⟩ := by
    unfold JournalID.of
    rw [hserial, h0, Nat.zero_mod]
  rw [hof]
  unfold seek
  dsimp only
  rw [if_neg (by rw [hc]; exact Option.some_ne_none _), if_neg (by rw [h0]; exact Nat.not_lt_zero _),
    if_neg (fun hne => hne rfl), hfd, Option.map_some]

def goneTo (d : LogDir) (r : LogReader) (serial : Nat) : LogReader :=
  { r.refresh d with curSerial := serial, curOffset := 0, fd := openFile d serial }

section

variable {bytes : List UInt8} (hc : d.content r.curSerial = some bytes) (hfd : r.fd = some (r.curSerial, r.curOffset))
include hc hfd

theorem readLoop_enough (hn : n ≤ (bytes.drop r.curOffset).length) (fuel : Nat) :
    readLoop d n fuel r = ({ r with curOffset := r.curOffset + n, fd := some (r.curSerial, r.curOffset + n) },
      some ((bytes.drop r.curOffset).take n)) := by
  have hlen : ((bytes.drop r.curOffset).take n).length = n := by rw [List.length_take, Nat.min_eq_left hn]
  unfold readLoop
  rw [hfd]
  dsimp only
  rw [hc, Option.getD_some, if_pos hlen, hlen]

theorem readLoop_next (hn : (bytes.drop r.curOffset).length < n) (hmax : r.curSerial < d.maxSerial) (fuel : Nat) :
    ∃ serial c, readLoop d n (fuel + 1) r = readLoop d n fuel (r.goneTo d serial) ∧ r.curSerial < serial ∧
      d.later r.curSerial = c :: d.later serial ∧ At d (r.goneTo d serial) ⟨c, d.later serial⟩ := by
  have hlen : ¬ ((bytes.drop r.curOffset).take n).length = n := by
    rw [List.length_take]
    omega
  obtain ⟨c, h1, h2, h3⟩ := LogDir.later_cons hmax
  refine ⟨_, c, ?_, h2, h3, c, h1, ?_, Nat.zero_le _, rfl⟩
  · rw [readLoop, hfd]
    dsimp only
    rw [hc, Option.getD_some, if_neg hlen]
    exact if_pos hmax
  · unfold goneTo openFile
    dsimp only
    rw [h1, Option.map_some]

theorem readLoop_last (hd : d.maxSerial < 2 ^ 32) (hn : (bytes.drop r.curOffset).length < n)
    (hmax : ¬ r.curSerial < d.maxSerial)
    (hback : bytes.drop r.curOffset = [] ∨ r.curOffset = 0) (fuel : Nat) :
    readLoop d n fuel r = (r.refresh d, none) := by
  have hlen : ¬ ((bytes.drop r.curOffset).take n).length = n := by
    rw [List.length_take]
    omega
  have hsame : { r.refresh d with fd := some (r.curSerial, r.curOffset) } = r.refresh d := by
    rw [← hfd]
    rfl
  unfold readLoop
  rw [hfd]
  dsimp only
  rw [hc, Option.getD_some, if_neg hlen]
  refine (if_neg hmax).trans ?_
  by_cases h0 : ((bytes.drop r.curOffset).take n).length > 0
  · rw [if_pos h0]
    have hoff := hback.resolve_left (fun he => by rw [he, List.take_nil] at h0; exact absurd h0 (Nat.lt_irrefl 0))
    refine Prod.ext ?_ rfl
    have hseek := seek_back (r := { r.refresh d with fd := some (r.curSerial,
      r.curOffset + ((bytes.drop r.curOffset).take n).length) }) hd hc rfl hoff
    exact hseek.trans hsame
  · rw [if_neg h0, Nat.eq_zero_of_not_pos h0]
    exact Prod.ext hsame rfl

theorem readLoop_at_enough (hoff : r.curOffset ≤ bytes.length) (hn : n ≤ (bytes.drop r.curOffset).length) (fuel : Nat) :
    (readLoop d n fuel r).2 = (take n ⟨bytes.drop r.curOffset, d.later r.curSerial⟩).1 ∧
      At d (readLoop d n fuel r).1 (take n ⟨bytes.drop r.curOffset, d.later r.curSerial⟩).2 ∧
        r.curSerial ≤ (readLoop d n fuel r).1.curSerial := by
  rw [readLoop_enough hc hfd hn, take_of_le hn]
  refine ⟨rfl, ⟨bytes, hc, rfl, ?_, ?_⟩, Nat.le_refl _⟩
  · rw [List.length_drop] at hn
    change r.curOffset + n ≤ bytes.length
    omega
  · rw [List.drop_drop]

theorem readLoop_at_last (hd : d.maxSerial < 2 ^ 32) (hoff : r.curOffset ≤ bytes.length)
    (hn : (bytes.drop r.curOffset).length < n) (hmax : ¬ r.curSerial < d.maxSerial)
    (hlast : d.later r.curSerial = [] → (bytes.drop r.curOffset).length < n → bytes.drop r.curOffset = [] ∨ r.curOffset = 0)
    (fuel : Nat) :
    (readLoop d n fuel r).2 = (take n ⟨bytes.drop r.curOffset, d.later r.curSerial⟩).1 ∧
      At d (readLoop d n fuel r).1 (take n ⟨bytes.drop r.curOffset, d.later r.curSerial⟩).2 ∧
        r.curSerial ≤ (readLoop d n fuel r).1.curSerial := by
  have hlater := LogDir.later_nil hmax
  rw [readLoop_last hc hfd hd hn hmax (hlast hlater hn), hlater, take_last hn]
  refine ⟨rfl, ⟨bytes, hc, hfd, hoff, ?_⟩, Nat.le_refl _⟩
  rw [← hlater]
  rfl

end

theorem readLoop_at (hd : d.maxSerial < 2 ^ 32) : ∀ {fuel : Nat} {r : LogReader} {v : View UInt8}, At d r v →
    d.maxSerial - r.curSerial ≤ fuel → (v.later = [] → v.rest.length < n → v.rest = [] ∨ r.curOffset = 0) →
      (readLoop d n fuel r).2 = (take n v).1 ∧ At d (readLoop d n fuel r).1 (take n v).2 ∧
        r.curSerial ≤ (readLoop d n fuel r).1.curSerial := by
  intro fuel
  induction fuel with
  | zero =>
    rintro r v ⟨bytes, hc, hfd, hoff, rfl⟩ hfuel hlast
    by_cases hn : n ≤ (bytes.drop r.curOffset).length
    · exact readLoop_at_enough hc hfd hoff hn 0
    · exact readLoop_at_last hc hfd hd hoff (Nat.lt_of_not_le hn) (by omega) hlast 0
  | succ fuel ih =>
    rintro r v ⟨bytes, hc, hfd, hoff, rfl⟩ hfuel hlast
    by_cases hn : n ≤ (bytes.drop r.curOffset).length
    · exact readLoop_at_enough hc hfd hoff hn (fuel + 1)
    · by_cases hmax : r.curSerial < d.maxSerial
      · obtain ⟨serial, c, e, hlt, hlater, hat⟩ := readLoop_next hc hfd (Nat.lt_of_not_le hn) hmax fuel
        obtain ⟨h1, h2, h3⟩ := ih hat (by change d.maxSerial - serial ≤ fuel; omega) (fun _ _ => .inr rfl)
        rw [e, hlater, take_next (Nat.lt_of_not_le hn)]
        exact ⟨h1, h2, Nat.le_trans (Nat.le_of_lt hlt) h3⟩
      · exact readLoop_at_last hc hfd hd hoff (Nat.lt_of_not_le hn) hmax hlast (fuel + 1)

theorem read_at (hd : d.maxSerial < 2 ^ 32) (h : At d r v)
    (hlast : v.later = [] → v.rest.length < n → v.rest = [] ∨ r.curOffset = 0) :
    (r.read d n).2 = (take n v).1 ∧ At d (r.read d n).1 (take n v).2 ∧ r.curSerial ≤ (r.read d n).1.curSerial :=
  readLoop_at hd h (Nat.le_refl _) hlast

end LogReader

/-! ## Records -/

namespace BinlogRecord

variable {r : BinlogRecord}

theorem length_encodeRest (r : BinlogRecord) : 16 ≤ r.encodeRest.length := by
  unfold encodeRest
  simp only [List.length_append, List.length_cons, List.length_nil, length_leBytes]
  omega

theorem length_encode (r : BinlogRecord) : r.encode.length = 4 + r.encodeRest.length := by
  rw [encode, List.length_append, length_leBytes]

theorem recordRest_leBytes {n : Nat} (h8 : 8 ≤ n) (hn : n < 2 ^ 20) : recordRest (leBytes 4 n) = some n := by
  have hnat : leNat 4 (leBytes 4 n) = n := by
    rw [leNat_leBytes]
    exact Nat.mod_eq_of_lt (Nat.lt_trans hn (by decide))
  unfold recordRest
  rw [hnat, if_neg (by omega)]

theorem Fits.recordRest (h : r.Fits) : recordRest (leBytes 4 r.encodeRest.length) = some r.encodeRest.length :=
  recordRest_leBytes (Nat.le_trans (by decide) r.length_encodeRest) h

theorem Fits.isFrame (h : r.Fits) : IsFrame 4 Dtc.recordRest r.encode :=
  ⟨_, _, rfl, length_leBytes 4 _, h.recordRest⟩

theorem getElem?_encode (r : BinlogRecord) : r.encode[4]? = some 0x02 ∧ r.encode[8]? = some 0 := by
  unfold encode encodeRest
  constructor
  · rw [List.getElem?_append_right (Nat.le_of_eq (length_leBytes 4 _)), length_leBytes]
    rfl
  · rw [List.getElem?_append_right (by rw [length_leBytes]; decide), length_leBytes]
    rfl

end BinlogRecord

namespace BinlogReader

variable {d : LogDir} {b : BinlogReader} {v : View UInt8}

theorem next_at (hd : d.maxSerial < 2 ^ 32) (h : LogReader.At d b.logReader v)
    (hhead : v.later = [] → v.rest.length < 4 → v.rest = [])
    (hbody : ∀ head v' n, take 4 v = (some head, v') → recordRest head = some n → v'.later = [] → v'.rest.length < n →
      v'.rest = []) :
    (b.next d).2 = (frame 4 recordRest v).1 ∧ LogReader.At d (b.next d).1.logReader (frame 4 recordRest v).2 ∧
      b.logReader.curSerial ≤ (b.next d).1.logReader.curSerial := by
  obtain ⟨h1, h2, h3⟩ := LogReader.read_at hd h (fun hl hs => .inl (hhead hl hs))
  unfold next read frame
  generalize hr : b.logReader.read d 4 = r at h1 h2 h3
  obtain ⟨r, o⟩ := r
  generalize ht : take 4 v = t at h1 h2
  obtain ⟨o', v'⟩ := t
  dsimp only at h1 h2 h3
  subst h1
  cases o with
  | none => exact ⟨rfl, h2, h3⟩
  | some head =>
    dsimp only
    cases hrest : recordRest head with
    | none => exact ⟨rfl, h2, h3⟩
    | some n =>
      obtain ⟨g1, g2, g3⟩ := LogReader.read_at hd h2 (fun hl hs => .inl (hbody head v' n ht hrest hl hs))
      dsimp only
      generalize r.read d n = r' at g1 g2 g3
      obtain ⟨r', o'⟩ := r'
      generalize take n v' = t at g1 g2
      obtain ⟨o'', v''⟩ := t
      dsimp only at g1 g2 g3
      subst g1
      cases o' with
      | none => exact ⟨rfl, g2, Nat.le_trans h3 g3⟩
      | some body => exact ⟨rfl, g2, Nat.le_trans h3 g3⟩

def fileOf (rs : List BinlogRecord) : List UInt8 := (rs.map BinlogRecord.encode).flatten

theorem next_some (hd : d.maxSerial < 2 ^ 32) (h : LogReader.At d b.logReader v) {r : List UInt8} {v' : View UInt8}
    (hf : frame 4 recordRest v = (some r, v')) :
    (b.next d).2 = some r ∧ LogReader.At d (b.next d).1.logReader v' ∧
      b.logReader.curSerial ≤ (b.next d).1.logReader.curSerial := by
  have hshort : ∀ {n : Nat} {w w' : View UInt8} {bytes : List UInt8}, take n w = (some bytes, w') → w.later = [] →
      ¬ w.rest.length < n := by
    rintro n ⟨rest, later⟩ w' bytes ht rfl hlt
    rw [take_last hlt] at ht
    cases ht
  have hat := next_at hd h (fun h0 hlt => by
    cases ht : take 4 v with
    | mk o w =>
      cases o with
      | none =>
        rw [frame_of_take_none ht] at hf
        cases hf
      | some head => exact absurd hlt (hshort ht h0)) (fun head w n ht hn h0 hlt => by
    unfold frame at hf
    rw [ht] at hf
    dsimp only at hf
    rw [hn] at hf
    dsimp only at hf
    cases ht' : take n w with
    | mk o w' =>
      cases o with
      | none =>
        rw [ht'] at hf
        cases hf
      | some body => exact absurd hlt (hshort ht' h0))
  rw [hf] at hat
  exact hat

theorem next_aligned (hd : d.maxSerial < 2 ^ 32) (h : LogReader.At d b.logReader v) {r : BinlogRecord} {rs : List (List UInt8)}
    (hr : r.Fits) (ha : Aligned v (r.encode :: rs)) :
    (b.next d).2 = some r.encode ∧ b.logReader.curSerial ≤ (b.next d).1.logReader.curSerial ∧
      ∃ v', LogReader.At d (b.next d).1.logReader v' ∧ Aligned v' rs := by
  obtain ⟨now, next, hrest, hlater, he⟩ := ha
  obtain ⟨v', e, ha'⟩ := frame_aligned (k := 4) (by decide) hr.isFrame he
  rw [← hrest, ← hlater] at e
  obtain ⟨h1, h2, h3⟩ := next_some hd h e
  exact ⟨h1, h3, v', h2, ha'⟩

theorem next_aligned_nil (hd : d.maxSerial < 2 ^ 32) (h : LogReader.At d b.logReader v) (ha : Aligned v []) :
    (b.next d).2 = none ∧ b.logReader.curSerial ≤ (b.next d).1.logReader.curSerial ∧
      ∃ v', LogReader.At d (b.next d).1.logReader v' ∧ Aligned v' [] := by
  obtain ⟨now, next, hrest, hlater, he⟩ := ha
  obtain ⟨rfl, hnext⟩ := List.append_eq_nil_iff.mp he
  have ht := take_aligned_nil (k := 4) (by decide) hnext
  have hv : v = ⟨[], next.map List.flatten⟩ := by
    rw [← hlater, ← List.flatten_nil, ← hrest]
  rw [← hv] at ht
  obtain ⟨h1, h2, h3⟩ := next_at hd h (fun _ _ => hrest) (fun head w n ht' => by
    rw [ht] at ht'
    cases ht')
  rw [frame_of_take_none ht] at h1 h2
  exact ⟨h1, h3, _, h2, [], [], rfl, rfl, rfl⟩

end BinlogReader

end Dtc
