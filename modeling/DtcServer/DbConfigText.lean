import Mathlib.Algebra.GroupWithZero.Nat
import Mathlib.Algebra.Order.BigOperators.Group.List
import Mathlib.Algebra.Order.Group.Nat
import Mathlib.Algebra.Ring.Int.Defs
import Mathlib.Data.List.Basic
import Mathlib.Data.List.Nodup
import Mathlib.Logic.Basic
import Mathlib.Tactic.SplitIfs
/-!
# DbConfigText — default values and database indices in the configuration (`CDbConfig::ParseDbConfig`, `ParseDbLine`)

Both are texts of the configuration file that are scanned by hand.
-/
namespace Dtc

namespace CDbConfig

/-! ## Default values -/

def hexDigit (c : UInt8) : Option Nat :=
  if 48 ≤ c ∧ c ≤ 57 then some (c.toNat - 48)
  else if 97 ≤ c ∧ c ≤ 102 then some (c.toNat - 97 + 10)
  else if 65 ≤ c ∧ c ≤ 70 then some (c.toNat - 65 + 10)
  else none

/-- What becomes of a default value; `fault` where the code leaves its buffers. -/
inductive DefaultValue where
  | value (bytes : List UInt8)
  | error
  | fault
  deriving DecidableEq, Repr

/-- `sizeof(buf)` -/
def bufSize : Nat := 1024

/-- The loop over the digits, with what is in `buf`; a dash is left where it is. -/
def hexLoop : Nat → List UInt8 → List UInt8 → Option DefaultValue
  | 0, _, _ => none
  | _ + 1, [], buf => some (.value buf)
  | fuel + 1, [c], buf => if c = 45 then hexLoop fuel [c] buf else some .error
  | fuel + 1, c :: d :: rest, buf =>
    if c = 45 then hexLoop fuel (c :: d :: rest) buf
    else
      match hexDigit c, hexDigit d with
      | some hi, some lo =>
        if buf.length < bufSize then hexLoop fuel rest (buf ++ [UInt8.ofNat (hi * 16 + lo)]) else some .fault
      | _, _ => some .error

/-- The end of the case: `len` bytes of `cp` are copied. -/
def storeDefault (size : Int) (cp : List UInt8) (len : Int) : DefaultValue :=
  if size < len then .error
  else if len = 0 then .value []
  else if len < 0 then .fault
  else .value (cp.take len.toNat)

/-- What is stored when the loop has ended: `cp` still is the text. -/
def hexStored (size : Int) (cp : List UInt8) : DefaultValue → DefaultValue
  | .value buf => storeDefault size cp buf.length
  | out => out

/-- The default value of a field of type `String` or `Binary`; `none` while the loop has not ended. -/
def parseDefault (fuel : Nat) (size : Int) : List UInt8 → Option DefaultValue
  | [] => some (.value [])
  | c :: cp =>
    if c = 34 then
      -- where nothing is behind the quote, `cp[len-1]` is the quote
      if (c :: cp).getLast? = some 34 then some (storeDefault size cp ((cp.length : Int) - 1)) else some .error
    else
      match cp with
      | x :: digits =>
        if c = 48 ∧ x ||| 0x20 = 0x78 then (hexLoop fuel digits []).map (hexStored size (c :: cp)) else some .error
      | [] => some .error

/-- The bytes that hexadecimal digits denote; dashes may stand between bytes. -/
def hexBytes : List UInt8 → Option (List UInt8)
  | [] => some []
  | [c] => if c = 45 then some [] else none
  | c :: d :: rest =>
    if c = 45 then hexBytes (d :: rest)
    else
      match hexDigit c, hexDigit d with
      | some hi, some lo => (hexBytes rest).map (UInt8.ofNat (hi * 16 + lo) :: ·)
      | _, _ => none

/-- **What a default value denotes**: nothing, the bytes between quotes, or those of the digits behind `0x`. -/
def Denotes (text bytes : List UInt8) : Prop :=
  text = [] ∧ bytes = [] ∨ text = 34 :: (bytes ++ [34]) ∨
    ∃ x digits, text = 48 :: x :: digits ∧ (x = 88 ∨ x = 120) ∧ hexBytes digits = some bytes

/-- The bytes that the text denotes, or an error where it denotes none that fit. -/
def DefaultRight (size : Int) (text : List UInt8) : DefaultValue → Prop
  | .value bytes => Denotes text bytes ∧ (text = [] ∨ (bytes.length : Int) ≤ size)
  | .error => ∀ bytes, Denotes text bytes → size < bytes.length
  | .fault => False

/-- **The scanner of default values ends, and is right.** -/
def ReadsDefault (size : Int) (text : List UInt8) : Prop :=
  ∃ fuel out, parseDefault fuel size text = some out ∧ DefaultRight size text out

/-- No dash stands where a pair of digits is to be read, and there is room for the byte of each, up to what is no pair. -/
def HexFits : Nat → List UInt8 → Prop
  | _, [] => True
  | _, [c] => c ≠ 45
  | room, c :: d :: rest => c ≠ 45 ∧ ((hexDigit c).isSome → (hexDigit d).isSome → 0 < room ∧ HexFits (room - 1) rest)

def hexResult (digits buf : List UInt8) : DefaultValue :=
  match hexBytes digits with
  | some bytes => .value (buf ++ bytes)
  | none => .error

theorem hexLoop_fits : ∀ {room : Nat} {digits buf : List UInt8}, buf.length + room = bufSize → HexFits room digits →
    ∃ fuel, hexLoop fuel digits buf = some (hexResult digits buf)
  | _, [], buf, _, _ => ⟨1, by simp [hexLoop, hexResult, hexBytes]⟩
  | _, [c], buf, _, h => ⟨1, by simp [hexLoop, hexResult, hexBytes, show c ≠ 45 from h]⟩
  | room, c :: d :: rest, buf, hroom, h => by
    obtain ⟨hc, hpair⟩ := h
    unfold hexResult hexBytes
    rw [if_neg hc]
    cases hhi : hexDigit c with
    | none => exact ⟨1, by simp [hexLoop, hc, hhi]⟩
    | some hi =>
      cases hlo : hexDigit d with
      | none => exact ⟨1, by simp [hexLoop, hc, hhi, hlo]⟩
      | some lo =>
        obtain ⟨hpos, hrest⟩ := hpair (by rw [hhi]; rfl) (by rw [hlo]; rfl)
        have hroom' : (buf ++ [UInt8.ofNat (hi * 16 + lo)]).length + (room - 1) = bufSize := by
          rw [List.length_append, List.length_singleton]
          omega
        obtain ⟨fuel, hfuel⟩ := hexLoop_fits hroom' hrest
        refine ⟨fuel + 1, ?_⟩
        have hlt : buf.length < bufSize := by omega
        simp only [hexLoop, if_neg hc, hhi, hlo, if_pos hlt]
        rw [hfuel, hexResult]
        cases hexBytes rest <;> simp

theorem hexLoop_right : ∀ {fuel room : Nat} {digits buf : List UInt8} {out : DefaultValue}, buf.length + room = bufSize →
    hexLoop fuel digits buf = some out → out = hexResult digits buf ∧ HexFits room digits ∨ out = .fault
  | 0, _, _, _, _, _, h => by cases h
  | fuel + 1, _, [], buf, out, _, h => by
    obtain rfl := Option.some.inj h
    exact .inl ⟨by simp [hexResult, hexBytes], trivial⟩
  | fuel + 1, room, [c], buf, out, hroom, h => by
    rw [hexLoop] at h
    split_ifs at h with hc
    · rcases hexLoop_right hroom h with ⟨-, hfits⟩ | hfault
      · exact absurd hc hfits
      · exact .inr hfault
    · obtain rfl := Option.some.inj h
      exact .inl ⟨by simp [hexResult, hexBytes, hc], hc⟩
  | fuel + 1, room, c :: d :: rest, buf, out, hroom, h => by
    rw [hexLoop] at h
    by_cases hc : c = 45
    · rw [if_pos hc] at h
      rcases hexLoop_right hroom h with ⟨-, hfits⟩ | hfault
      · exact absurd hc hfits.1
      · exact .inr hfault
    · rw [if_neg hc] at h
      unfold hexResult hexBytes
      rw [if_neg hc]
      cases hhi : hexDigit c with
      | none =>
        rw [hhi] at h
        obtain rfl := Option.some.inj h
        exact .inl ⟨rfl, hc, fun hs => by rw [hhi] at hs; cases hs⟩
      | some hi =>
        cases hlo : hexDigit d with
        | none =>
          rw [hhi, hlo] at h
          obtain rfl := Option.some.inj h
          exact .inl ⟨rfl, hc, fun _ hs => by rw [hlo] at hs; cases hs⟩
        | some lo =>
          rw [hhi, hlo] at h
          dsimp only at h
          split_ifs at h with hlt
          · have hroom' : (buf ++ [UInt8.ofNat (hi * 16 + lo)]).length + (room - 1) = bufSize := by
              rw [List.length_append, List.length_singleton]
              omega
            rcases hexLoop_right hroom' h with ⟨hout, hfits⟩ | hfault
            · refine .inl ⟨?_, hc, fun _ _ => ⟨by omega, hfits⟩⟩
              rw [hout, hexResult]
              cases hexBytes rest <;> simp
            · exact .inr hfault
          · exact .inr (Option.some.inj h).symm

/-- **When the scanner of default values is right**: the text is not a single quote, and if it is hexadecimal, no dash is read,
`buf` is large enough, and the bytes it denotes, where they fit the field, happen to be the first ones of the text. -/
def DefaultFits (size : Int) (text : List UInt8) : Prop :=
  (text = [34] → size < -1) ∧
    ∀ x digits, text = 48 :: x :: digits → x = 88 ∨ x = 120 →
      HexFits bufSize digits ∧ ∀ bytes, hexBytes digits = some bytes → (bytes.length : Int) ≤ size → bytes <+: text

theorem or_space_eq {x : UInt8} : x ||| 0x20 = 0x78 ↔ x = 88 ∨ x = 120 := by
  have hall : ∀ n < 256, (UInt8.ofNat n ||| 0x20 = 0x78 ↔ UInt8.ofNat n = 88 ∨ UInt8.ofNat n = 120) := by decide +kernel
  have hx := hall x.toNat x.toNat_lt
  rwa [UInt8.ofNat_toNat] at hx

theorem denotes_quoted {cp bytes : List UInt8} : Denotes (34 :: cp) bytes ↔ cp = bytes ++ [34] := by
  simp [Denotes]

theorem denotes_hex {x : UInt8} {digits bytes : List UInt8} (hx : x = 88 ∨ x = 120) :
    Denotes (48 :: x :: digits) bytes ↔ hexBytes digits = some bytes := by
  simp [Denotes, hx]

theorem readsDefault_quoted (size : Int) (cp : List UInt8) :
    ReadsDefault size (34 :: cp) ↔ DefaultFits size (34 :: cp) := by
  have hfits : DefaultFits size (34 :: cp) ↔ (cp = [] → size < -1) := by simp [DefaultFits]
  have hparse : ∀ fuel, parseDefault fuel size (34 :: cp) =
      if (34 :: cp).getLast? = some 34 then some (storeDefault size cp ((cp.length : Int) - 1)) else some .error :=
    fun _ => rfl
  simp only [ReadsDefault, hparse, hfits]
  rcases List.eq_nil_or_concat cp with rfl | ⟨bytes, q, rfl⟩
  · simp only [List.getLast?_singleton, if_true, Option.some.injEq, forall_const]
    unfold storeDefault
    constructor
    · rintro ⟨-, out, rfl, hright⟩
      by_contra hlt
      rw [List.length_nil, if_neg (by omega), if_neg (by omega), if_pos (by omega)] at hright
      exact hright
    · intro hlt
      refine ⟨0, _, rfl, ?_⟩
      rw [List.length_nil, if_pos (by omega)]
      intro bytes hbytes
      exact absurd (denotes_quoted.mp hbytes) (by simp)
  · refine iff_of_true ⟨0, ?_⟩ (by simp)
    have hlast : (34 :: bytes.concat q).getLast? = some q := by
      rw [List.concat_eq_append, ← List.cons_append, List.getLast?_append]
      rfl
    rw [hlast, List.concat_eq_append]
    have hlen : ((bytes ++ [q]).length : Int) - 1 = bytes.length := by
      rw [List.length_append, List.length_singleton]
      omega
    by_cases hq : q = 34
    · subst hq
      rw [if_pos rfl, hlen]
      unfold storeDefault
      split_ifs with hsize hzero
      · refine ⟨_, rfl, fun bytes' hbytes' => ?_⟩
        rw [denotes_quoted, List.append_left_inj] at hbytes'
        rwa [← hbytes']
      · have hnil : bytes = [] := List.length_eq_zero_iff.mp (by omega)
        subst hnil
        exact ⟨_, rfl, denotes_quoted.mpr rfl, .inr (by simpa using hsize)⟩
      · omega
      · refine ⟨_, rfl, denotes_quoted.mpr ?_, .inr ?_⟩
        · simp
        · simp
          omega
    · rw [if_neg (fun h => hq (Option.some.inj h))]
      refine ⟨_, rfl, fun bytes' hbytes' => ?_⟩
      rw [denotes_quoted] at hbytes'
      exact absurd (List.append_inj_right' hbytes' rfl) (by simpa using hq)

theorem readsDefault_hex (size : Int) {x : UInt8} (hx : x = 88 ∨ x = 120) (digits : List UInt8) :
    ReadsDefault size (48 :: x :: digits) ↔ DefaultFits size (48 :: x :: digits) := by
  have hparse : ∀ fuel, parseDefault fuel size (48 :: x :: digits) =
      (hexLoop fuel digits []).map (hexStored size (48 :: x :: digits)) := by
    intro fuel
    simp [parseDefault, or_space_eq, hx]
  have hfits : DefaultFits size (48 :: x :: digits) ↔ HexFits bufSize digits ∧
      ∀ bytes, hexBytes digits = some bytes → (bytes.length : Int) ≤ size → bytes <+: 48 :: x :: digits := by
    constructor
    · intro h
      exact h.2 x digits rfl hx
    · intro h
      refine ⟨fun he => by simp at he, fun x' digits' he _ => ?_⟩
      obtain ⟨-, hrest⟩ := List.cons.inj he
      obtain ⟨-, rfl⟩ := List.cons.inj hrest
      exact h
  have hright : DefaultRight size (48 :: x :: digits) (hexStored size (48 :: x :: digits) (hexResult digits [])) ↔
      ∀ bytes, hexBytes digits = some bytes → (bytes.length : Int) ≤ size → bytes <+: 48 :: x :: digits := by
    unfold hexResult
    cases hbytes : hexBytes digits with
    | none =>
      refine iff_of_true (fun bytes hden => ?_) (fun bytes h => by cases h)
      rw [denotes_hex hx, hbytes] at hden
      cases hden
    | some bytes =>
      have hden : ∀ bytes', Denotes (48 :: x :: digits) bytes' ↔ bytes' = bytes := by
        intro bytes'
        rw [denotes_hex hx, hbytes, Option.some.injEq, eq_comm]
      simp only [hexStored, List.nil_append, Option.some.injEq, forall_eq']
      unfold storeDefault
      split_ifs with hsize hzero
      · simp only [DefaultRight, hden, forall_eq, hsize, true_iff]
        omega
      · have hnil : bytes = [] := List.length_eq_zero_iff.mp (by omega)
        subst hnil
        simp [DefaultRight, hden]
        simpa using hsize
      · omega
      · simp only [DefaultRight, hden, Int.toNat_natCast, List.prefix_iff_eq_take]
        constructor
        · rintro ⟨h, -⟩ -
          exact h.symm
        · intro h
          have htake := h (by omega)
          exact ⟨htake.symm, .inr (by rw [← htake]; omega)⟩
  rw [hfits, ← hright]
  constructor
  · rintro ⟨fuel, out, hout, hr⟩
    rw [hparse] at hout
    obtain ⟨out', hloop, rfl⟩ := Option.map_eq_some_iff.mp hout
    rcases hexLoop_right (Nat.zero_add bufSize) hloop with ⟨rfl, hf⟩ | rfl
    · exact ⟨hf, hr⟩
    · exact hr.elim
  · rintro ⟨hf, hr⟩
    obtain ⟨fuel, hloop⟩ := hexLoop_fits (show ([] : List UInt8).length + bufSize = bufSize from Nat.zero_add _) hf
    exact ⟨fuel, _, by rw [hparse, hloop]; rfl, hr⟩

theorem readsDefault_iff (size : Int) (text : List UInt8) : ReadsDefault size text ↔ DefaultFits size text := by
  match text with
  | [] =>
    exact iff_of_true ⟨0, _, rfl, .inl ⟨rfl, rfl⟩, .inl rfl⟩ ⟨fun h => by simp at h, fun x digits h => by simp at h⟩
  | c :: cp =>
    by_cases hquote : c = 34
    · subst hquote
      exact readsDefault_quoted size cp
    by_cases hhex : ∃ x digits, c :: cp = 48 :: x :: digits ∧ (x = 88 ∨ x = 120)
    · obtain ⟨x, digits, he, hx⟩ := hhex
      rw [he]
      exact readsDefault_hex size hx digits
    · have hparse : parseDefault 0 size (c :: cp) = some .error := by
        cases cp with
        | nil => simp [parseDefault, hquote]
        | cons x digits =>
          have hnot : ¬ (c = 48 ∧ x ||| 0x20 = 0x78) := fun h => hhex ⟨x, digits, by rw [h.1], or_space_eq.mp h.2⟩
          simp [parseDefault, hquote, hnot]
      refine iff_of_true ⟨0, _, hparse, fun bytes hden => ?_⟩ ⟨fun h => ?_, fun x digits h hx => absurd ⟨x, digits, h, hx⟩ hhex⟩
      · rcases hden with ⟨h, -⟩ | h | ⟨x, digits, h, hx, -⟩
        · cases h
        · exact absurd (List.cons.inj h).1 hquote
        · exact absurd ⟨x, digits, h, hx⟩ hhex
      · exact absurd (List.cons.inj h).1 hquote

/-! ## Database indices -/

/-- `isdigit(p[0])` -/
def startsDigit : List UInt8 → Bool
  | c :: _ => decide (48 ≤ c ∧ c ≤ 57)
  | [] => false

/-- The digits of a base at the beginning of a text, behind a number that was read, and what is left. -/
def scanDigits (base : Nat) : Nat → List UInt8 → Nat × List UInt8
  | n, [] => (n, [])
  | n, c :: rest =>
    match hexDigit c with
    | some v => if v < base then scanDigits base (n * base + v) rest else (n, c :: rest)
    | none => (n, c :: rest)

/-- `x` and a hexadecimal digit. -/
def hexPrefix : List UInt8 → Bool
  | x :: d :: _ => decide (x = 88 ∨ x = 120) && (hexDigit d).isSome
  | _ => false

/-- `strtol(p, &p, 0)` of a text that begins with a digit: `0x` and a digit begin a hexadecimal number, `0` an octal one. -/
def strtol : List UInt8 → Nat × List UInt8
  | [] => (0, [])
  | c :: rest =>
    if c = 48 then
      if hexPrefix rest then scanDigits 16 0 rest.tail else scanDigits 8 0 rest
    else scanDigits 10 0 (c :: rest)

/-- The `int` that is made of the number: a `long` at most, cut to 32 bits. -/
def toInt (n : Nat) : Int := (BitVec.ofNat 32 (min n (2 ^ 63 - 1))).toInt

/-- A number or a range, and what is left; none where a dash has no number behind it. -/
def scanItem (p : List UInt8) : Option (Nat × Nat) × List UInt8 :=
  let (begin, q) := strtol p
  if q.head? = some 45 then
    if startsDigit q.tail then (some (begin, (strtol q.tail).1), (strtol q.tail).2) else (none, q.tail)
  else (some (begin, begin), q)

/-- `MAXDB_ON_MACHINE`, the room of `dbIdx`. -/
def maxDbOnMachine : Nat := 1000

def intMax : Int := 2 ^ 31 - 1

/-- `begin++` of an `int`, which wraps. -/
def succ32 (n : Int) : Int := if n = intMax then -2 ^ 31 else n + 1

/-- `while(begin <= end) dbIdx[n++] = begin++`, with the room there is; `none` where it is left. -/
def storeRange : Nat → Int → Int → List UInt16 → Option (List UInt16)
  | 0, first, last, dbIdx => if first ≤ last then none else some dbIdx
  | room + 1, first, last, dbIdx =>
    if first ≤ last then storeRange room (succ32 first) last (dbIdx ++ [UInt16.ofNat (first % 65536).toNat]) else some dbIdx

/-- The loop of `ParseDbLine`: what was stored, and where it ends. -/
def itemLoop : Nat → List UInt8 → List UInt16 → Option (List UInt16 × List UInt8)
  | 0, p, dbIdx => some (dbIdx, p)
  | fuel + 1, p, dbIdx =>
    if startsDigit p then
      match scanItem p with
      | (none, q) => some (dbIdx, q)
      | (some item, q) =>
        match storeRange (maxDbOnMachine - dbIdx.length) (toInt item.1) (toInt item.2) dbIdx with
        | none => none
        | some dbIdx => if q.head? = some 44 then itemLoop fuel q.tail dbIdx else some (dbIdx, q)
    else some (dbIdx, p)

inductive DbLine where
  | stored (dbIdx : List UInt16)
  | refused
  | fault
  deriving DecidableEq, Repr

def parseDbLine : List UInt8 → DbLine
  | [] => .refused
  | c :: p =>
    if c = 91 then
      match itemLoop (p.length + 1) p [] with
      | none => .fault
      | some (dbIdx, q) => if q.head? = some 93 then .stored dbIdx else .refused
    else .refused

/-! ### The lists that are meant -/

/-- The number that the digits of a base make behind another one. -/
def digitsValue (base : Nat) : Nat → List UInt8 → Option Nat
  | n, [] => some n
  | n, c :: ds =>
    match hexDigit c with
    | some v => if v < base then digitsValue base (n * base + v) ds else none
    | none => none

/-- A number as C writes it: decimal, octal behind a `0`, or hexadecimal behind `0x`. -/
def Numeral (t : List UInt8) (n : Nat) : Prop :=
  (t ≠ [] ∧ t.head? ≠ some 48 ∧ digitsValue 10 0 t = some n) ∨
    (∃ ds, t = 48 :: ds ∧ digitsValue 8 0 ds = some n) ∨
    ∃ x ds, t = 48 :: x :: ds ∧ (x = 88 ∨ x = 120) ∧ ds ≠ [] ∧ digitsValue 16 0 ds = some n

def ItemText (t : List UInt8) (item : Nat × Nat) : Prop :=
  (Numeral t item.1 ∧ item.2 = item.1) ∨ ∃ t1 t2, t = t1 ++ 45 :: t2 ∧ Numeral t1 item.1 ∧ Numeral t2 item.2

def ItemsText : List UInt8 → List (Nat × Nat) → Prop
  | t, [] => t = []
  | t, [item] => ItemText t item
  | t, item :: next :: items => ∃ t1 t2, t = t1 ++ 44 :: t2 ∧ ItemText t1 item ∧ ItemsText t2 (next :: items)

/-- **A bracketed list of numbers and ranges.** -/
def ListText (line : List UInt8) (items : List (Nat × Nat)) : Prop := ∃ t, line = 91 :: (t ++ [93]) ∧ ItemsText t items

def indices (items : List (Nat × Nat)) : List Nat := items.flatMap fun item => List.range' item.1 (item.2 + 1 - item.1)

/-- The indices are different ones that the array can hold. -/
def Storable (is : List Nat) : Prop := is.Nodup ∧ is.length ≤ maxDbOnMachine ∧ ∀ i ∈ is, i < 65536

/-- **The line is read right**: it is accepted when it is such a list, with each index of it stored once and in order, and
otherwise refused. -/
def ReadsDbLine (line : List UInt8) : Prop :=
  match parseDbLine line with
  | .stored dbIdx => ∃ items, ListText line items ∧ dbIdx.map UInt16.toNat = indices items ∧ Storable (indices items)
  | .refused => ∀ items, ListText line items → ¬ Storable (indices items)
  | .fault => False

/-! ### What is stored -/

/-- How many numbers a range has as 32-bit integers; one up to `INT_MAX` does not end, and has more than the array. -/
def count32 (item : Nat × Nat) : Nat :=
  if toInt item.2 = intMax then maxDbOnMachine + 1 else (toInt item.2 + 1 - toInt item.1).toNat

def entries (item : Nat × Nat) : List UInt16 :=
  (List.range (count32 item)).map fun (k : Nat) => UInt16.ofNat ((toInt item.1 + k) % 65536).toNat

def storeItems : List UInt16 → List (Nat × Nat) → Option (List UInt16)
  | dbIdx, [] => some dbIdx
  | dbIdx, item :: items =>
    (storeRange (maxDbOnMachine - dbIdx.length) (toInt item.1) (toInt item.2) dbIdx).bind fun dbIdx => storeItems dbIdx items

theorem toInt_le (n : Nat) : toInt n ≤ intMax := Int.le_sub_one_of_lt BitVec.toInt_lt

theorem storeRange_max : ∀ (room : Nat) (first : Int) (dbIdx : List UInt16), first ≤ intMax →
    storeRange room first intMax dbIdx = none
  | 0, _, _, h => if_pos h
  | room + 1, first, dbIdx, h => by
    unfold storeRange
    rw [if_pos h]
    refine storeRange_max room _ _ ?_
    unfold succ32
    split_ifs with hmax
    · decide
    · omega

theorem storeRange_eq : ∀ (room : Nat) (first last : Int) (dbIdx : List UInt16), last < intMax →
    storeRange room first last dbIdx =
      if (last + 1 - first).toNat ≤ room then
        some (dbIdx ++ (List.range (last + 1 - first).toNat).map fun (k : Nat) => UInt16.ofNat ((first + k) % 65536).toNat)
      else none
  | 0, first, last, dbIdx, _ => by
    unfold storeRange
    by_cases h : first ≤ last
    · rw [if_pos h, if_neg (by omega)]
    · have hzero : (last + 1 - first).toNat = 0 := by omega
      rw [if_neg h, if_pos (by omega), hzero]
      simp
  | room + 1, first, last, dbIdx, hlast => by
    unfold storeRange
    by_cases h : first ≤ last
    · have hsucc : (last + 1 - first).toNat = (last + 1 - (first + 1)).toNat + 1 := by omega
      have hshift : ∀ k : Nat, first + 1 + k = first + (k + 1 : Nat) := by
        intro k
        omega
      have hnext : succ32 first = first + 1 := if_neg (by omega)
      rw [if_pos h, hnext, storeRange_eq room _ _ _ hlast, hsucc, List.range_succ_eq_map]
      simp only [Nat.add_le_add_iff_right, List.map_cons, List.map_map, List.append_assoc, List.singleton_append, hshift]
      simp [Function.comp_def]
    · have hzero : (last + 1 - first).toNat = 0 := by omega
      rw [if_neg h, hzero]
      simp

theorem storeRange_item (item : Nat × Nat) {room : Nat} (hroom : room ≤ maxDbOnMachine) (dbIdx : List UInt16) :
    storeRange room (toInt item.1) (toInt item.2) dbIdx =
      if count32 item ≤ room then some (dbIdx ++ entries item) else none := by
  by_cases hmax : toInt item.2 = intMax
  · have hcount : count32 item = maxDbOnMachine + 1 := if_pos hmax
    rw [hmax, storeRange_max room _ _ (toInt_le item.1), hcount, if_neg (by omega)]
  · have hcount : count32 item = (toInt item.2 + 1 - toInt item.1).toNat := if_neg hmax
    have hle := toInt_le item.2
    rw [storeRange_eq room _ _ _ (by omega), entries, hcount]

theorem storeItems_eq : ∀ (items : List (Nat × Nat)) {dbIdx : List UInt16}, dbIdx.length ≤ maxDbOnMachine →
    storeItems dbIdx items =
      if dbIdx.length + (items.map count32).sum ≤ maxDbOnMachine then some (dbIdx ++ items.flatMap entries) else none
  | [], dbIdx, h => by simp [storeItems, h]
  | item :: items, dbIdx, h => by
    have hrange := storeRange_item item (Nat.sub_le maxDbOnMachine dbIdx.length) dbIdx
    have hlen : (dbIdx ++ entries item).length = dbIdx.length + count32 item := by simp [entries]
    rw [storeItems, hrange, List.map_cons, List.sum_cons, List.flatMap_cons]
    by_cases hle : count32 item ≤ maxDbOnMachine - dbIdx.length
    · rw [if_pos hle, Option.bind_some, storeItems_eq items (by omega), hlen, List.append_assoc, Nat.add_assoc]
    · rw [if_neg hle, if_neg (by omega)]
      rfl

/-! ### What is read -/

/-- The items that the loop reads, whether it ends behind an item (or has none), and where. -/
def scanItems : Nat → Bool → List UInt8 → List (Nat × Nat) × Bool × List UInt8
  | 0, whole, p => ([], whole, p)
  | fuel + 1, whole, p =>
    if startsDigit p then
      match scanItem p with
      | (none, q) => ([], false, q)
      | (some item, q) =>
        if q.head? = some 44 then (item :: (scanItems fuel false q.tail).1, (scanItems fuel false q.tail).2)
        else ([item], true, q)
    else ([], whole, p)

theorem itemLoop_eq : ∀ (fuel : Nat) (whole : Bool) (p : List UInt8) (dbIdx : List UInt16),
    itemLoop fuel p dbIdx =
      (storeItems dbIdx (scanItems fuel whole p).1).map fun dbIdx => (dbIdx, (scanItems fuel whole p).2.2)
  | 0, _, _, _ => rfl
  | fuel + 1, whole, p, dbIdx => by
    unfold itemLoop scanItems
    split_ifs with hdigit
    · rcases scanItem p with ⟨item, q⟩
      cases item with
      | none => rfl
      | some item =>
        dsimp only
        split_ifs with hcomma
        · rw [storeItems]
          cases storeRange (maxDbOnMachine - dbIdx.length) (toInt item.1) (toInt item.2) dbIdx with
          | none => rfl
          | some dbIdx => exact itemLoop_eq fuel false q.tail dbIdx
        · rw [storeItems]
          cases storeRange (maxDbOnMachine - dbIdx.length) (toInt item.1) (toInt item.2) dbIdx <;> rfl
    · rfl

/-! ### The loop reads the lists that are meant -/

theorem hexDigit_lt {c : UInt8} {v : Nat} (h : hexDigit c = some v) : v < 16 := by
  unfold hexDigit at h
  split_ifs at h with h1 h2 h3 <;> obtain rfl := Option.some.inj h
  · have := UInt8.le_iff_toNat_le.mp h1.2
    simp at this
    omega
  · have := UInt8.le_iff_toNat_le.mp h2.2
    simp at this
    omega
  · have := UInt8.le_iff_toNat_le.mp h3.2
    simp at this
    omega

theorem hexDigit_decimal {c : UInt8} : (∃ v, hexDigit c = some v ∧ v < 10) ↔ 48 ≤ c ∧ c ≤ 57 := by
  unfold hexDigit
  constructor
  · rintro ⟨v, h, hv⟩
    split_ifs at h with h1 h2 h3
    · exact h1
    all_goals
      obtain rfl := Option.some.inj h
      omega
  · intro h
    rw [if_pos h]
    have := UInt8.le_iff_toNat_le.mp h.2
    simp at this
    exact ⟨_, rfl, by omega⟩

def Stops (base : Nat) (q : List UInt8) : Prop := ∀ c ∈ q.head?, ∀ v, hexDigit c = some v → base ≤ v

theorem scanDigits_append {base : Nat} {q : List UInt8} (hq : Stops base q) : ∀ {ds : List UInt8} {n m : Nat},
    digitsValue base n ds = some m → scanDigits base n (ds ++ q) = (m, q)
  | [], n, m, h => by
    obtain rfl := Option.some.inj h
    cases q with
    | nil => rfl
    | cons c q =>
      rw [List.nil_append, scanDigits]
      cases hc : hexDigit c with
      | none => rfl
      | some v => exact if_neg (Nat.not_lt.mpr (hq c rfl v hc))
  | d :: ds, n, m, h => by
    rw [digitsValue] at h
    rw [List.cons_append, scanDigits]
    cases hd : hexDigit d with
    | none =>
      rw [hd] at h
      cases h
    | some v =>
      rw [hd] at h
      dsimp only at h ⊢
      split_ifs at h with hlt
      rw [if_pos hlt]
      exact scanDigits_append hq h

theorem scanDigits_split (base : Nat) : ∀ (p : List UInt8) (n : Nat),
    ∃ ds, p = ds ++ (scanDigits base n p).2 ∧ digitsValue base n ds = some (scanDigits base n p).1 ∧
      Stops base (scanDigits base n p).2
  | [], n => ⟨[], rfl, rfl, fun c hc => by cases hc⟩
  | c :: p, n => by
    rw [scanDigits]
    cases hc : hexDigit c with
    | none =>
      refine ⟨[], rfl, rfl, fun c' hc' v hv => ?_⟩
      obtain rfl := Option.some.inj hc'
      rw [hc] at hv
      cases hv
    | some v =>
      dsimp only
      split_ifs with hlt
      · obtain ⟨ds, hp, hds, hstops⟩ := scanDigits_split base p (n * base + v)
        refine ⟨c :: ds, congrArg (c :: ·) hp, ?_, hstops⟩
        rw [digitsValue, hc]
        exact (if_pos hlt).trans hds
      · refine ⟨[], rfl, rfl, fun c' hc' v' hv' => ?_⟩
        obtain rfl := Option.some.inj hc'
        obtain rfl := Option.some.inj (hc.symm.trans hv')
        omega

/-- What may be behind a number: nothing, a comma, a dash or the bracket. -/
def Separated (q : List UInt8) : Prop := ∀ c ∈ q.head?, c = 44 ∨ c = 45 ∨ c = 93

theorem Separated.stops {q : List UInt8} (h : Separated q) (base : Nat) : Stops base q := by
  intro c hc v hv
  obtain rfl | rfl | rfl := h c hc <;> cases hv

theorem Numeral.startsDigit {t : List UInt8} {n : Nat} (h : Numeral t n) (q : List UInt8) :
    CDbConfig.startsDigit (t ++ q) = true := by
  rcases h with ⟨hne, -, hvalue⟩ | ⟨ds, rfl, -⟩ | ⟨x, ds, rfl, -⟩
  · cases t with
    | nil => exact absurd rfl hne
    | cons c t =>
      refine decide_eq_true (hexDigit_decimal.mp ?_)
      rw [digitsValue] at hvalue
      cases hc : hexDigit c with
      | none =>
        rw [hc] at hvalue
        cases hvalue
      | some v =>
        rw [hc] at hvalue
        dsimp only at hvalue
        split_ifs at hvalue with hlt
        exact ⟨v, rfl, hlt⟩
  · rfl
  · rfl

theorem hexPrefix_iff {p : List UInt8} : hexPrefix p = true ↔
    ∃ x d rest, p = x :: d :: rest ∧ (x = 88 ∨ x = 120) ∧ (hexDigit d).isSome := by
  match p with
  | [] => simp [hexPrefix]
  | [x] => simp [hexPrefix]
  | x :: d :: rest => simp [hexPrefix]

theorem strtol_append {t q : List UInt8} {n : Nat} (h : Numeral t n) (hq : Separated q) : strtol (t ++ q) = (n, q) := by
  rcases h with ⟨hne, h48, hvalue⟩ | ⟨ds, rfl, hvalue⟩ | ⟨x, ds, rfl, hx, hne, hvalue⟩
  · cases t with
    | nil => exact absurd rfl hne
    | cons c t =>
      rw [List.cons_append, strtol, if_neg (fun hc => h48 (by rw [hc]; rfl)), ← List.cons_append]
      exact scanDigits_append (hq.stops 10) hvalue
  · have hoctal : hexPrefix (ds ++ q) = false := by
      by_contra hprefix
      rw [Bool.not_eq_false] at hprefix
      obtain ⟨x, d, rest, he, hx, -⟩ := hexPrefix_iff.mp hprefix
      cases ds with
      | nil =>
        have hsep := hq x (congrArg List.head? he)
        rcases hx with rfl | rfl <;> revert hsep <;> decide
      | cons d' ds =>
        obtain ⟨rfl, -⟩ := List.cons.inj he
        have hnone : hexDigit d' = none := by rcases hx with rfl | rfl <;> decide
        rw [digitsValue, hnone] at hvalue
        cases hvalue
    rw [List.cons_append, strtol, if_pos rfl, hoctal]
    exact scanDigits_append (hq.stops 8) hvalue
  · have hhex : hexPrefix (x :: ds ++ q) = true := by
      cases ds with
      | nil => exact absurd rfl hne
      | cons d ds =>
        rw [digitsValue] at hvalue
        cases hd : hexDigit d with
        | none =>
          rw [hd] at hvalue
          cases hvalue
        | some v => simp [hexPrefix, hx, hd]
    rw [List.cons_append, strtol, if_pos rfl, if_pos hhex]
    exact scanDigits_append (hq.stops 16) hvalue

theorem strtol_split {p : List UInt8} (h : CDbConfig.startsDigit p = true) :
    ∃ t, p = t ++ (strtol p).2 ∧ Numeral t (strtol p).1 := by
  cases p with
  | nil => cases h
  | cons c rest =>
    rw [strtol]
    split_ifs with hc hprefix
    · subst hc
      obtain ⟨x, d, digits, rfl, hx, hd⟩ := hexPrefix_iff.mp hprefix
      obtain ⟨ds, hp, hds, hstops⟩ := scanDigits_split 16 (d :: digits) 0
      refine ⟨48 :: x :: ds, congrArg (fun l => 48 :: x :: l) hp, .inr (.inr ⟨x, ds, rfl, hx, ?_, hds⟩)⟩
      rintro rfl
      obtain ⟨v, hv⟩ := Option.isSome_iff_exists.mp hd
      have hle := hstops d (congrArg List.head? hp.symm) v hv
      have hlt := hexDigit_lt hv
      omega
    · subst hc
      obtain ⟨ds, hp, hds, -⟩ := scanDigits_split 8 rest 0
      exact ⟨48 :: ds, congrArg (48 :: ·) hp, .inr (.inl ⟨ds, rfl, hds⟩)⟩
    · obtain ⟨ds, hp, hds, hstops⟩ := scanDigits_split 10 (c :: rest) 0
      have hne : ds ≠ [] := by
        rintro rfl
        obtain ⟨v, hv, hlt⟩ := hexDigit_decimal.mpr (of_decide_eq_true h)
        have hle := hstops c (congrArg List.head? hp.symm) v hv
        omega
      refine ⟨ds, hp, .inl ⟨hne, fun h48 => hc ?_, hds⟩⟩
      cases ds with
      | nil => exact absurd rfl hne
      | cons d ds => exact (List.cons.inj hp).1.trans (Option.some.inj h48)

theorem scanItem_append {t q : List UInt8} {item : Nat × Nat} (h : ItemText t item) (hq : Separated q)
    (hdash : q.head? ≠ some 45) : scanItem (t ++ q) = (some item, q) ∧ CDbConfig.startsDigit (t ++ q) = true := by
  obtain ⟨begin, last⟩ := item
  unfold scanItem
  rcases h with ⟨hn, hlast⟩ | ⟨t1, t2, rfl, hn1, hn2⟩
  · obtain rfl : last = begin := hlast
    rw [strtol_append hn hq]
    exact ⟨if_neg hdash, hn.startsDigit q⟩
  · have hq1 : Separated (45 :: (t2 ++ q)) := by
      intro c hc
      obtain rfl := Option.some.inj hc
      exact .inr (.inl rfl)
    rw [List.append_assoc, List.cons_append, strtol_append hn1 hq1]
    dsimp only
    rw [List.head?_cons, if_pos rfl, List.tail_cons, if_pos (hn2.startsDigit q), strtol_append hn2 hq]
    exact ⟨rfl, hn1.startsDigit _⟩

theorem scanItem_split {p q : List UInt8} {item : Nat × Nat} (hp : CDbConfig.startsDigit p = true)
    (h : scanItem p = (some item, q)) : ∃ t, p = t ++ q ∧ ItemText t item := by
  obtain ⟨t1, hp1, hn1⟩ := strtol_split hp
  unfold scanItem at h
  dsimp only at h
  split_ifs at h with hdash hdigit
  · obtain ⟨t2, hp2, hn2⟩ := strtol_split hdigit
    obtain ⟨hitem, rfl⟩ := Prod.mk.inj h
    obtain rfl := Option.some.inj hitem
    refine ⟨t1 ++ 45 :: t2, ?_, .inr ⟨t1, t2, rfl, hn1, hn2⟩⟩
    rw [List.append_assoc, List.cons_append, ← hp2]
    have hcons : (strtol p).2 = 45 :: (strtol p).2.tail := (List.cons_head?_tail hdash).symm
    rw [← hcons]
    exact hp1
  · cases (Prod.mk.inj h).1
  · obtain ⟨hitem, rfl⟩ := Prod.mk.inj h
    obtain rfl := Option.some.inj hitem
    exact ⟨t1, hp1, .inl ⟨hn1, rfl⟩⟩

theorem scanItems_append : ∀ {fuel : Nat} {items : List (Nat × Nat)} {t : List UInt8} {whole : Bool}, t.length < fuel →
    ItemsText t items → (items = [] → whole = true) → scanItems fuel whole (t ++ [93]) = (items, true, [93])
  | fuel + 1, [], t, whole, _, h, hwhole => by
    obtain rfl : t = [] := h
    rw [hwhole rfl]
    rfl
  | fuel + 1, [item], t, whole, _, h, _ => by
    have hsep : Separated [93] := by
      intro c hc
      obtain rfl := Option.some.inj hc
      exact .inr (.inr rfl)
    obtain ⟨hscan, hdigit⟩ := scanItem_append h hsep (by decide)
    rw [scanItems, if_pos hdigit, hscan]
    rfl
  | fuel + 1, item :: next :: items, t, whole, hfuel, h, _ => by
    obtain ⟨t1, t2, rfl, h1, h2⟩ := h
    have hsep : Separated (44 :: (t2 ++ [93])) := by
      intro c hc
      obtain rfl := Option.some.inj hc
      exact .inl rfl
    obtain ⟨hscan, hdigit⟩ := scanItem_append h1 hsep (by simp)
    have hfuel' : t2.length < fuel := by
      rw [List.length_append, List.length_cons] at hfuel
      omega
    have ih := @scanItems_append fuel (next :: items) t2 false hfuel' h2 (fun hnil => by cases hnil)
    rw [List.append_assoc, List.cons_append, scanItems, if_pos hdigit, hscan]
    dsimp only
    rw [List.head?_cons, if_pos rfl, List.tail_cons, ih]

theorem scanItems_split : ∀ {fuel : Nat} {whole : Bool} {p q : List UInt8} {items : List (Nat × Nat)},
    scanItems fuel whole p = (items, true, q) → ∃ t, p = t ++ q ∧ ItemsText t items ∧ (items = [] → whole = true)
  | 0, whole, p, q, items, h => by
    obtain ⟨rfl, hrest⟩ := Prod.mk.inj h
    obtain ⟨rfl, rfl⟩ := Prod.mk.inj hrest
    exact ⟨[], rfl, rfl, fun _ => rfl⟩
  | fuel + 1, whole, p, q, items, h => by
    rw [scanItems] at h
    split_ifs at h with hdigit
    · rcases hscan : scanItem p with ⟨item, r⟩
      rw [hscan] at h
      cases item with
      | none => simp at h
      | some item =>
        obtain ⟨t1, hp, hitem⟩ := scanItem_split hdigit hscan
        dsimp only at h
        split_ifs at h with hcomma
        · rcases hrec : scanItems fuel false r.tail with ⟨items', whole', q'⟩
          rw [hrec] at h
          obtain ⟨rfl, hrest⟩ := Prod.mk.inj h
          obtain ⟨rfl, rfl⟩ := Prod.mk.inj hrest
          obtain ⟨t2, htail, hitems, hwhole⟩ := scanItems_split hrec
          have hcons : r = 44 :: r.tail := (List.cons_head?_tail hcomma).symm
          refine ⟨t1 ++ 44 :: t2, ?_, ?_, fun hnil => by cases hnil⟩
          · rw [List.append_assoc, List.cons_append, ← htail, ← hcons]
            exact hp
          · cases items' with
            | nil => exact absurd (hwhole rfl) Bool.false_ne_true
            | cons next items' => exact ⟨t1, t2, rfl, hitem, hitems⟩
        · obtain ⟨rfl, hrest⟩ := Prod.mk.inj h
          obtain ⟨-, rfl⟩ := Prod.mk.inj hrest
          exact ⟨t1, hp, hitem, fun hnil => by cases hnil⟩
    · obtain ⟨rfl, hrest⟩ := Prod.mk.inj h
      obtain ⟨rfl, rfl⟩ := Prod.mk.inj hrest
      exact ⟨[], rfl, rfl, fun _ => rfl⟩

theorem listText_iff {p : List UInt8} {items : List (Nat × Nat)} :
    ListText (91 :: p) items ↔ scanItems (p.length + 1) true p = (items, true, [93]) := by
  constructor
  · rintro ⟨t, he, h⟩
    obtain ⟨-, rfl⟩ := List.cons.inj he
    refine scanItems_append ?_ h (fun _ => rfl)
    rw [List.length_append, List.length_singleton]
    omega
  · intro h
    obtain ⟨t, rfl, hitems, -⟩ := scanItems_split h
    exact ⟨t, rfl, hitems⟩

/-! ### When a line is read right -/

theorem toInt_of_lt {n : Nat} (h : n < 65536) : toInt n = n := by
  have hnat : (BitVec.ofNat 32 n).toNat = n := (BitVec.toNat_ofNat n 32).trans (Nat.mod_eq_of_lt (by omega))
  rw [toInt, Nat.min_eq_left (by omega), BitVec.toInt_eq_toNat_cond, hnat, if_pos (by omega)]

/-- The range's indices are as they were written: below `2 ^ 16`, or there are none, also as 32-bit integers. -/
def ItemFits (item : Nat × Nat) : Prop := if item.1 ≤ item.2 then item.2 < 65536 else toInt item.2 < toInt item.1

theorem count32_of_lt {item : Nat × Nat} (h : toInt item.2 < intMax) :
    count32 item = (toInt item.2 + 1 - toInt item.1).toNat := if_neg (Int.ne_of_lt h)

theorem entries_of_fits {item : Nat × Nat} (h : ItemFits item) :
    (entries item).map UInt16.toNat = List.range' item.1 (item.2 + 1 - item.1) := by
  unfold ItemFits at h
  have hlast : toInt item.2 < intMax := by
    split_ifs at h with hle
    · rw [toInt_of_lt h, intMax]
      omega
    · exact Int.lt_of_lt_of_le h (toInt_le item.1)
  unfold entries
  rw [count32_of_lt hlast]
  split_ifs at h with hle
  · have hcount : ((item.2 : Int) + 1 - item.1).toNat = item.2 + 1 - item.1 := by omega
    rw [toInt_of_lt h, toInt_of_lt (Nat.lt_of_le_of_lt hle h), hcount, List.map_map, List.range'_eq_map_range]
    refine List.map_congr_left fun k hk => ?_
    have hk' := List.mem_range.mp hk
    have hmod : (((item.1 : Int) + k) % 65536).toNat = item.1 + k := by omega
    rw [Function.comp_apply, hmod]
    have hlt : item.1 + k < 65536 := by omega
    exact UInt16.toNat_ofNat_of_lt' hlt
  · have hcount : (toInt item.2 + 1 - toInt item.1).toNat = 0 := by omega
    have hnone : item.2 + 1 - item.1 = 0 := by omega
    rw [hcount, hnone]
    rfl

theorem length_indices (items : List (Nat × Nat)) :
    (indices items).length = (items.map fun item => item.2 + 1 - item.1).sum := by
  simp [indices, List.length_flatMap]

theorem length_entries (items : List (Nat × Nat)) : (items.flatMap entries).length = (items.map count32).sum := by
  simp [entries, List.length_flatMap]

theorem eq_of_sum_eq {β : Type} {f g : β → Nat} : ∀ {l : List β}, (∀ x ∈ l, f x ≤ g x) → (l.map f).sum = (l.map g).sum →
    ∀ x ∈ l, f x = g x
  | [], _, _ => fun x hx => by cases hx
  | y :: l, hle, hsum => by
    rw [List.forall_mem_cons] at hle ⊢
    rw [List.map_cons, List.sum_cons, List.map_cons, List.sum_cons] at hsum
    have hrest : (l.map f).sum ≤ (l.map g).sum := List.sum_le_sum hle.2
    have hy := hle.1
    exact ⟨by omega, eq_of_sum_eq hle.2 (by omega)⟩

theorem entries_eq_indices {items : List (Nat × Nat)} :
    ((items.flatMap entries).map UInt16.toNat = indices items ∧ ∀ i ∈ indices items, i < 65536) ↔
      ∀ item ∈ items, ItemFits item := by
  have hsmall : (∀ i ∈ indices items, i < 65536) ↔ ∀ item ∈ items, item.1 ≤ item.2 → item.2 < 65536 := by
    simp only [indices, List.mem_flatMap, List.mem_range'_1, forall_exists_index, and_imp]
    constructor
    · intro h item hitem hle
      exact h item.2 item hitem hle (by omega)
    · intro h i item hitem hi hlt
      have := h item hitem (by omega)
      omega
  constructor
  · rintro ⟨heq, hlt⟩
    have hle : ∀ item ∈ items, item.2 + 1 - item.1 ≤ count32 item := by
      intro item hitem
      by_cases h : item.1 ≤ item.2
      · have h2 := hsmall.mp hlt item hitem h
        have hlast : toInt item.2 < intMax := by
          rw [toInt_of_lt h2, intMax]
          omega
        rw [count32_of_lt hlast, toInt_of_lt h2, toInt_of_lt (Nat.lt_of_le_of_lt h h2)]
        omega
      · omega
    have hsum := congrArg List.length heq
    rw [List.length_map, length_entries, length_indices] at hsum
    have hcount := eq_of_sum_eq hle hsum.symm
    intro item hitem
    unfold ItemFits
    split_ifs with h
    · exact hsmall.mp hlt item hitem h
    · have hzero := hcount item hitem
      have hlast : toInt item.2 < intMax := by
        refine lt_of_le_of_ne (toInt_le item.2) (fun hmax => ?_)
        rw [count32, if_pos hmax] at hzero
        omega
      rw [count32_of_lt hlast] at hzero
      omega
  · intro h
    refine ⟨?_, hsmall.mpr fun item hitem hle => ?_⟩
    · rw [List.map_flatMap, indices]
      exact List.flatMap_congr fun item hitem => entries_of_fits (h item hitem)
    · have hfits := h item hitem
      rwa [ItemFits, if_pos hle] at hfits

/-- **When a line is read right**: the ranges that are read, as 32-bit integers, have room in the array; and where the reading
ends at a bracket, the bracket ends the line and stands behind an item, the ranges are as they were written, and no index is
listed twice. -/
def DbLineFits (line : List UInt8) : Prop :=
  ∀ p, line = 91 :: p → ∀ items whole q, scanItems (p.length + 1) true p = (items, whole, q) →
    (items.map count32).sum ≤ maxDbOnMachine ∧
      (q.head? = some 93 → whole = true ∧ q = [93] ∧ (∀ item ∈ items, ItemFits item) ∧ (indices items).Nodup)

theorem parseDbLine_eq (p : List UInt8) {items : List (Nat × Nat)} {whole : Bool} {q : List UInt8}
    (h : scanItems (p.length + 1) true p = (items, whole, q)) :
    parseDbLine (91 :: p) =
      if (items.map count32).sum ≤ maxDbOnMachine then
        if q.head? = some 93 then .stored (items.flatMap entries) else .refused
      else .fault := by
  rw [parseDbLine, if_pos rfl, itemLoop_eq _ true, h, storeItems_eq items (Nat.zero_le _), List.length_nil, Nat.zero_add]
  by_cases hroom : (items.map count32).sum ≤ maxDbOnMachine
  · rw [if_pos hroom, if_pos hroom]
    rfl
  · rw [if_neg hroom, if_neg hroom]
    rfl

theorem readsDbLine_iff (line : List UInt8) : ReadsDbLine line ↔ DbLineFits line := by
  by_cases hbracket : ∃ p, line = 91 :: p
  · obtain ⟨p, rfl⟩ := hbracket
    rcases hscan : scanItems (p.length + 1) true p with ⟨items, whole, q⟩
    have hfits : DbLineFits (91 :: p) ↔ (items.map count32).sum ≤ maxDbOnMachine ∧
        (q.head? = some 93 → whole = true ∧ q = [93] ∧ (∀ item ∈ items, ItemFits item) ∧ (indices items).Nodup) := by
      constructor
      · intro h
        exact h p rfl items whole q hscan
      · intro h p' he items' whole' q' hscan'
        obtain ⟨-, rfl⟩ := List.cons.inj he
        rw [hscan] at hscan'
        obtain ⟨rfl, hrest⟩ := Prod.mk.inj hscan'
        obtain ⟨rfl, rfl⟩ := Prod.mk.inj hrest
        exact h
    have hlist : ∀ items', ListText (91 :: p) items' ↔ items' = items ∧ whole = true ∧ q = [93] := by
      intro items'
      rw [listText_iff, hscan, Prod.mk.injEq, Prod.mk.injEq, eq_comm]
    rw [hfits, ReadsDbLine, parseDbLine_eq p hscan]
    by_cases hroom : (items.map count32).sum ≤ maxDbOnMachine
    · by_cases hend : q.head? = some 93
      · rw [if_pos hroom, if_pos hend]
        simp only [hlist, hroom, hend, true_and, forall_const]
        constructor
        · rintro ⟨items', ⟨rfl, hwhole, hq⟩, heq, hnodup, -, hlt⟩
          exact ⟨hwhole, hq, entries_eq_indices.mp ⟨heq, hlt⟩, hnodup⟩
        · rintro ⟨hwhole, hq, hitems, hnodup⟩
          obtain ⟨heq, hlt⟩ := entries_eq_indices.mpr hitems
          refine ⟨items, ⟨rfl, hwhole, hq⟩, heq, hnodup, ?_, hlt⟩
          rw [← heq, List.length_map, length_entries]
          exact hroom
      · rw [if_pos hroom, if_neg hend]
        refine iff_of_true (fun items' hitems' => ?_) ⟨hroom, fun h => absurd h hend⟩
        obtain ⟨-, -, rfl⟩ := (hlist items').mp hitems'
        exact absurd rfl hend
    · rw [if_neg hroom]
      exact iff_of_false id fun h => hroom h.1
  · have hparse : parseDbLine line = .refused := by
      cases line with
      | nil => rfl
      | cons c p => exact if_neg fun hc => hbracket ⟨p, by rw [hc]⟩
    rw [ReadsDbLine, hparse]
    refine iff_of_true (fun items h => ?_) (fun p hp => absurd ⟨p, hp⟩ hbracket)
    obtain ⟨t, rfl, -⟩ := h
    exact absurd ⟨_, rfl⟩ hbracket

/-- **Both scanners are right exactly where their conditions say.** -/
theorem configText_iff (size : Int) (text line : List UInt8) :
    (ReadsDefault size text ↔ DefaultFits size text) ∧ (ReadsDbLine line ↔ DbLineFits line) :=
  ⟨readsDefault_iff size text, readsDbLine_iff line⟩

/-- A dash between two bytes is scanned for ever; the bytes of `0x4142` are stored as `0x`.  Of the lines, `[1,1]` stores an
index twice, `[70000]` stores 4464, `[1]x` and `[1,]` are accepted, and `[0-1000` and `[2147483647` are written beyond the
array. -/
theorem configText_wrong :
    (∀ fuel, parseDefault fuel 100 [48, 120, 52, 49, 45, 52, 50] = none) ∧
    parseDefault 3 100 [48, 120, 52, 49, 52, 50] = some (.value [48, 120]) ∧
    ¬ ReadsDefault 100 [48, 120, 52, 49, 52, 50] ∧
    parseDbLine [91, 49, 44, 49, 93] = .stored [1, 1] ∧
    parseDbLine [91, 55, 48, 48, 48, 48, 93] = .stored [4464] ∧
    parseDbLine [91, 49, 93, 120] = .stored [1] ∧
    parseDbLine [91, 49, 44, 93] = .stored [1] ∧
    parseDbLine [91, 48, 45, 49, 48, 48, 48] = .fault ∧
    parseDbLine [91, 50, 49, 52, 55, 52, 56, 51, 54, 52, 55] = .fault ∧
    ¬ ReadsDbLine [91, 49, 93, 120] := by
  have hloop : ∀ fuel, hexLoop fuel [45, 52, 50] [65] = none := by
    intro fuel
    induction fuel with
    | zero => rfl
    | succ fuel ih => exact ih
  refine ⟨fun fuel => ?_, by decide, fun h => ?_, by decide, by decide, by decide, by decide, by decide +kernel,
    by decide +kernel, fun h => ?_⟩
  · cases fuel with
    | zero => rfl
    | succ fuel => exact congrArg (Option.map (hexStored 100 [48, 120, 52, 49, 45, 52, 50])) (hloop fuel)
  · have hprefix := (((readsDefault_iff _ _).mp h).2 120 [52, 49, 52, 50] rfl (.inr rfl)).2 [65, 66] (by decide) (by decide)
    exact absurd hprefix (by decide)
  · have hend := (((readsDbLine_iff _).mp h) [49, 93, 120] rfl [(1, 1)] true [93, 120] (by decide)).2 rfl
    exact absurd hend.2.1 (by decide)

end CDbConfig

end Dtc
