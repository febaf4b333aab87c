import DtcServer.BinMalloc
import DtcServer.Rings
/-!
# BinMallocBins — the bins are rings of the free chunks

The links of a bin are read with the invalid handle as the bin itself: then a bin and its chunks are a ring.  `UnlinkBin`
and `LinkBin` write link fields of free chunks, and nothing else of the memory.
-/
namespace Dtc

open Memory Rings

/-- Two chunks far enough from each other for their heads. -/
def Apart (y z : Nat) : Prop := y + 24 ≤ z ∨ z + 24 ≤ y

/-- What of the head no inner operation changes; they may move the top. -/
structure SameHead (h h' : CBinMalloc) : Prop where
  tSize : h'.tSize = h.tSize
  hBottom : h'.hBottom = h.hBottom
  userSize : h'.tUserAllocSize = h.tUserAllocSize
  userCnt : h'.tUserAllocChunkCnt = h.tUserAllocChunkCnt
  chunkTotal : h'.statChunkTotal = h.statChunkTotal
  dataSize : h'.statDataSize = h.statDataSize
  minChunkSize : h'.minChunkSize = h.minChunkSize

theorem SameHead.refl (h : CBinMalloc) : SameHead h h := ⟨rfl, rfl, rfl, rfl, rfl, rfl, rfl⟩

theorem SameHead.trans {h h' h'' : CBinMalloc} (a : SameHead h h') (b : SameHead h' h'') : SameHead h h'' :=
  ⟨b.1.trans a.1, b.2.trans a.2, b.3.trans a.3, b.4.trans a.4, b.5.trans a.5, b.6.trans a.6, b.7.trans a.7⟩

namespace CBinMalloc

variable {h : CBinMalloc} {i j y z v : Nat}

@[simp] theorem bin_putNextChunk : (h.putNextChunk y v).bin = h.bin := rfl
@[simp] theorem bin_putPreChunk : (h.putPreChunk y v).bin = h.bin := rfl

theorem hNextChunk_lt (h : CBinMalloc) (y : Nat) : h.hNextChunk y < 256 ^ 8 := readNat_lt ..

theorem hPreChunk_lt (h : CBinMalloc) (y : Nat) : h.hPreChunk y < 256 ^ 8 := readNat_lt ..

theorem hNextChunk_putNextChunk (hv : v < 256 ^ 8) : (h.putNextChunk y v).hNextChunk y = v := readNat_writeNat hv

theorem hNextChunk_putNextChunk_of_apart (hz : Apart y z) : (h.putNextChunk y v).hNextChunk z = h.hNextChunk z :=
  readNat_writeNat_of_disjoint (by unfold Apart at hz; omega)

theorem hPreChunk_putNextChunk (hz : y = z ∨ Apart y z) : (h.putNextChunk y v).hPreChunk z = h.hPreChunk z :=
  readNat_writeNat_of_disjoint (by unfold Apart at hz; omega)

theorem hPreChunk_putPreChunk (hv : v < 256 ^ 8) : (h.putPreChunk y v).hPreChunk y = v := readNat_writeNat hv

theorem hPreChunk_putPreChunk_of_apart (hz : Apart y z) : (h.putPreChunk y v).hPreChunk z = h.hPreChunk z :=
  readNat_writeNat_of_disjoint (by unfold Apart at hz; omega)

theorem hNextChunk_putPreChunk (hz : y = z ∨ Apart y z) : (h.putPreChunk y v).hNextChunk z = h.hNextChunk z :=
  readNat_writeNat_of_disjoint (by unfold Apart at hz; omega)

/-- The pointer behind a node of the ring of bin `i`, whose root is the bin. -/
def ringNext (h : CBinMalloc) (i y : Nat) : Nat := if y = invalidHandle then (h.bin i).hNextChunk else h.hNextChunk y

def ringPre (h : CBinMalloc) (i y : Nat) : Nat := if y = invalidHandle then (h.bin i).hPreChunk else h.hPreChunk y

/-- The pointer behind `u` is set: of the bin, or of a chunk. -/
def ringSetNext (h : CBinMalloc) (i u v : Nat) : CBinMalloc :=
  if u = invalidHandle then { h with bin := Function.update h.bin i { h.bin i with hNextChunk := v } }
  else h.putNextChunk u v

def ringSetPre (h : CBinMalloc) (i u v : Nat) : CBinMalloc :=
  if u = invalidHandle then { h with bin := Function.update h.bin i { h.bin i with hPreChunk := v } }
  else h.putPreChunk u v

def NodeApart (u z : Nat) : Prop := z = invalidHandle ∨ u = invalidHandle ∨ z = u ∨ Apart u z

variable {u : Nat}

theorem ringNext_ringSetNext (hz : NodeApart u z) (hv : v < 256 ^ 8) :
    (h.ringSetNext i u v).ringNext j z = if z = u ∧ (u = invalidHandle → j = i) then v else h.ringNext j z := by
  unfold ringSetNext ringNext
  by_cases hu : u = invalidHandle
  · simp only [hu, if_true, true_imp_iff]
    by_cases hz0 : z = invalidHandle
    · by_cases hj : j = i
      · simp only [hz0, hj, and_self, if_true, Function.update_self]
      · simp only [hz0, hj, and_false, if_true, if_false, Function.update_of_ne hj]
    · simp only [hz0, false_and, if_false]
      rfl
  · simp only [if_neg hu]
    by_cases hz0 : z = invalidHandle
    · have hne : ¬ z = u := fun he => hu (he ▸ hz0)
      simp only [if_pos hz0, hne, false_and, if_false, bin_putNextChunk]
    · simp only [if_neg hz0]
      rcases hz with hz | hz | rfl | hz
      · exact absurd hz hz0
      · exact absurd hz hu
      · simp only [true_and, hu, false_imp_iff, if_true]
        exact hNextChunk_putNextChunk hv
      · have hne : ¬ z = u := fun he => by unfold Apart at hz; omega
        simp only [hne, false_and, if_false]
        exact hNextChunk_putNextChunk_of_apart hz

theorem ringPre_ringSetNext (hz : NodeApart u z) : (h.ringSetNext i u v).ringPre j z = h.ringPre j z := by
  unfold ringSetNext ringPre
  by_cases hu : u = invalidHandle
  · simp only [hu, if_true]
    by_cases hz0 : z = invalidHandle
    · by_cases hj : j = i
      · simp only [hz0, hj, if_true, Function.update_self]
      · simp only [hz0, if_true, Function.update_of_ne hj]
    · simp only [hz0, if_false]
      rfl
  · simp only [if_neg hu]
    by_cases hz0 : z = invalidHandle
    · simp only [if_pos hz0, bin_putNextChunk]
    · simp only [if_neg hz0]
      refine hPreChunk_putNextChunk ?_
      rcases hz with hz | hz | rfl | hz
      · exact absurd hz hz0
      · exact absurd hz hu
      · exact .inl rfl
      · exact .inr hz

theorem ringPre_ringSetPre (hz : NodeApart u z) (hv : v < 256 ^ 8) :
    (h.ringSetPre i u v).ringPre j z = if z = u ∧ (u = invalidHandle → j = i) then v else h.ringPre j z := by
  unfold ringSetPre ringPre
  by_cases hu : u = invalidHandle
  · simp only [hu, if_true, true_imp_iff]
    by_cases hz0 : z = invalidHandle
    · by_cases hj : j = i
      · simp only [hz0, hj, and_self, if_true, Function.update_self]
      · simp only [hz0, hj, and_false, if_true, if_false, Function.update_of_ne hj]
    · simp only [hz0, false_and, if_false]
      rfl
  · simp only [if_neg hu]
    by_cases hz0 : z = invalidHandle
    · have hne : ¬ z = u := fun he => hu (he ▸ hz0)
      simp only [if_pos hz0, hne, false_and, if_false, bin_putPreChunk]
    · simp only [if_neg hz0]
      rcases hz with hz | hz | rfl | hz
      · exact absurd hz hz0
      · exact absurd hz hu
      · simp only [true_and, hu, false_imp_iff, if_true]
        exact hPreChunk_putPreChunk hv
      · have hne : ¬ z = u := fun he => by unfold Apart at hz; omega
        simp only [hne, false_and, if_false]
        exact hPreChunk_putPreChunk_of_apart hz

theorem ringNext_ringSetPre (hz : NodeApart u z) : (h.ringSetPre i u v).ringNext j z = h.ringNext j z := by
  unfold ringSetPre ringNext
  by_cases hu : u = invalidHandle
  · simp only [hu, if_true]
    by_cases hz0 : z = invalidHandle
    · by_cases hj : j = i
      · simp only [hz0, hj, if_true, Function.update_self]
      · simp only [hz0, if_true, Function.update_of_ne hj]
    · simp only [hz0, if_false]
      rfl
  · simp only [if_neg hu]
    by_cases hz0 : z = invalidHandle
    · simp only [if_pos hz0, bin_putPreChunk]
    · simp only [if_neg hz0]
      refine hNextChunk_putPreChunk ?_
      rcases hz with hz | hz | rfl | hz
      · exact absurd hz hz0
      · exact absurd hz hu
      · exact .inl rfl
      · exact .inr hz

theorem mem_ringSetNext {x : Nat} (hx : (h.ringSetNext i u v).mem x ≠ h.mem x) :
    u ≠ invalidHandle ∧ u + 8 ≤ x ∧ x < u + 24 := by
  unfold ringSetNext at hx
  split at hx
  · exact absurd rfl hx
  · rename_i hu
    refine ⟨hu, ?_⟩
    by_contra hout
    exact hx (writeNat_outside (by omega))

theorem mem_ringSetPre {x : Nat} (hx : (h.ringSetPre i u v).mem x ≠ h.mem x) :
    u ≠ invalidHandle ∧ u + 8 ≤ x ∧ x < u + 24 := by
  unfold ringSetPre at hx
  split at hx
  · exact absurd rfl hx
  · rename_i hu
    refine ⟨hu, ?_⟩
    by_contra hout
    exact hx (writeNat_outside (by omega))

theorem ringSetNext_head (h : CBinMalloc) (i u v : Nat) :
    SameHead h (h.ringSetNext i u v) ∧ (h.ringSetNext i u v).hTop = h.hTop := by
  unfold ringSetNext
  split <;> exact ⟨⟨rfl, rfl, rfl, rfl, rfl, rfl, rfl⟩, rfl⟩

theorem ringSetPre_head (h : CBinMalloc) (i u v : Nat) :
    SameHead h (h.ringSetPre i u v) ∧ (h.ringSetPre i u v).hTop = h.hTop := by
  unfold ringSetPre
  split <;> exact ⟨⟨rfl, rfl, rfl, rfl, rfl, rfl, rfl⟩, rfl⟩

end CBinMalloc

open CBinMalloc

/-- The chunks of `F`, with their sizes, have room for their links and do not overlap. -/
structure FreeChunks (F : List (Nat × Nat)) : Prop where
  pos : ∀ c ∈ F, 0 < c.1 ∧ c.1 < 256 ^ 8
  apart : ∀ c ∈ F, ∀ d ∈ F, c = d ∨ Apart c.1 d.1

/-- The bins hold the free chunks `F`, each in the bin of its size. -/
structure BinsRep (h : CBinMalloc) (bins : Nat → List Nat) (F : List (Nat × Nat)) : Prop where
  ring : ∀ i, Ring (h.ringNext i) (h.ringPre i) invalidHandle (bins i)
  nodup : ∀ i, (bins i).Nodup
  mem : ∀ i y, y ∈ bins i ↔ ∃ size, (y, size) ∈ F ∧ binIndex size = i

def binsWithout (bins : Nat → List Nat) (i y : Nat) : Nat → List Nat := Function.update bins i ((bins i).erase y)

/-- The bins with one more chunk in front of one of them. -/
def binsWith (bins : Nat → List Nat) (i y : Nat) : Nat → List Nat := Function.update bins i (y :: bins i)

/-- Only link fields of chunks of `F` differ. -/
def LinksOnly (F : List (Nat × Nat)) (m m' : Mem) : Prop := ∀ x, m' x ≠ m x → ∃ c ∈ F, c.1 + 8 ≤ x ∧ x < c.1 + 24

namespace BinsRep

variable {h : CBinMalloc} {bins : Nat → List Nat} {F : List (Nat × Nat)} {i j y z : Nat}

theorem pos (hb : BinsRep h bins F) (hF : FreeChunks F) (hy : y ∈ bins i) : 0 < y := by
  obtain ⟨size, hc, -⟩ := (hb.mem i y).mp hy
  exact (hF.pos _ hc).1

theorem same_or_apart (hb : BinsRep h bins F) (hF : FreeChunks F) (hy : y ∈ bins i) (hz : z ∈ bins j) :
    (y = z ∧ i = j) ∨ Apart y z := by
  obtain ⟨s, hs, rfl⟩ := (hb.mem i y).mp hy
  obtain ⟨t, ht, rfl⟩ := (hb.mem j z).mp hz
  rcases hF.apart _ hs _ ht with he | ha
  · rw [Prod.mk.injEq] at he
    exact .inl ⟨he.1, by rw [he.2]⟩
  · exact .inr ha

theorem root_nodup (hb : BinsRep h bins F) (hF : FreeChunks F) (i : Nat) : (invalidHandle :: bins i).Nodup :=
  List.nodup_cons.mpr ⟨fun h0 => Nat.lt_irrefl 0 (hb.pos hF h0), hb.nodup i⟩

theorem neighbours (hb : BinsRep h bins F) (hF : FreeChunks F) (hy : y ∈ bins i) :
    h.hPreChunk y ∈ invalidHandle :: bins i ∧ h.hNextChunk y ∈ invalidHandle :: bins i ∧
      h.hPreChunk y ≠ y ∧ h.hNextChunk y ≠ y := by
  have hn := (hb.ring i).neighbours (hb.root_nodup hF i) hy
  have hy0 : y ≠ invalidHandle := Nat.ne_of_gt (hb.pos hF hy)
  rwa [ringNext, ringPre, if_neg hy0, if_neg hy0] at hn

theorem bin_ne (hb : BinsRep h bins F) (hy : y ∈ bins i) :
    (h.bin i).hNextChunk ∈ bins i ∧ (h.bin i).hPreChunk ∈ bins i := by
  have hn := (hb.ring i).next_root
  have hp := (hb.ring i).prev_root
  rw [ringNext, if_pos rfl] at hn
  rw [ringPre, if_pos rfl] at hp
  rw [hn, hp]
  constructor
  · cases hbins : bins i with
    | nil => rw [hbins] at hy; cases hy
    | cons a as => exact List.mem_cons_self
  · rcases List.eq_nil_or_concat' (bins i) with hbins | ⟨l, x, hbins⟩
    · rw [hbins] at hy
      cases hy
    · rw [hbins, List.getLastD_concat]
      simp

theorem nodeApart (hb : BinsRep h bins F) (hF : FreeChunks F) (hy : y ∈ invalidHandle :: bins i)
    (hz : z ∈ invalidHandle :: bins j) : NodeApart y z := by
  rcases List.mem_cons.mp hy with rfl | hy
  · exact .inr (.inl rfl)
  · rcases List.mem_cons.mp hz with rfl | hz
    · exact .inl rfl
    · rcases hb.same_or_apart hF hy hz with ⟨rfl, -⟩ | ha
      · exact .inr (.inr (.inl rfl))
      · exact .inr (.inr (.inr ha))

theorem other_bin (hb : BinsRep h bins F) (hF : FreeChunks F) (hy : y ∈ invalidHandle :: bins i)
    (hz : z ∈ invalidHandle :: bins j) (hj : j ≠ i) : ¬ (z = y ∧ (y = invalidHandle → j = i)) := by
  rintro ⟨rfl, h0⟩
  rcases List.mem_cons.mp hy with rfl | hy
  · exact hj (h0 rfl)
  · have hpos := hb.pos hF hy
    rcases List.mem_cons.mp hz with rfl | hz
    · exact Nat.lt_irrefl 0 hpos
    · rcases hb.same_or_apart hF hz hy with ⟨-, he⟩ | ha
      · exact hj he
      · unfold Apart at ha
        omega

theorem unlinkBin_eq (hb : BinsRep h bins F) (hF : FreeChunks F) (hy : y ∈ bins i) :
    h.unlinkBin i y = (h.ringSetNext i (h.hPreChunk y) (h.hNextChunk y)).ringSetPre i (h.hNextChunk y) (h.hPreChunk y) := by
  have hy0 : y ≠ invalidHandle := Nat.ne_of_gt (hb.pos hF hy)
  obtain ⟨hu, hv, huy, hvy⟩ := hb.neighbours hF hy
  obtain ⟨hn, hp⟩ := hb.bin_ne hy
  have hempty : ¬ ((h.bin i).hNextChunk = invalidHandle ∨ (h.bin i).hPreChunk = invalidHandle) := by
    rintro (h0 | h0)
    · exact Nat.ne_of_gt (hb.pos hF hn) h0
    · exact Nat.ne_of_gt (hb.pos hF hp) h0
  have hap : NodeApart (h.hPreChunk y) y := hb.nodeApart hF hu (List.mem_cons_of_mem _ hy)
  have hnext : (h.ringSetNext i (h.hPreChunk y) (h.hNextChunk y)).hNextChunk y = h.hNextChunk y := by
    have hr := ringNext_ringSetNext (h := h) (i := i) (j := i) hap (hNextChunk_lt h y)
    rwa [if_neg (fun hc => huy hc.1.symm), ringNext, ringNext, if_neg hy0, if_neg hy0] at hr
  have hpre : (h.ringSetNext i (h.hPreChunk y) (h.hNextChunk y)).hPreChunk y = h.hPreChunk y := by
    have hr := ringPre_ringSetNext (h := h) (i := i) (j := i) (v := h.hNextChunk y) hap
    rwa [ringPre, ringPre, if_neg hy0, if_neg hy0] at hr
  have hdef : h.unlinkBin i y = (h.ringSetNext i (h.hPreChunk y) (h.hNextChunk y)).ringSetPre i
      ((h.ringSetNext i (h.hPreChunk y) (h.hNextChunk y)).hNextChunk y)
      ((h.ringSetNext i (h.hPreChunk y) (h.hNextChunk y)).hPreChunk y) := by
    unfold CBinMalloc.unlinkBin ringSetPre ringSetNext
    rw [if_neg hy0, if_neg hempty]
  rw [hdef, hnext, hpre]

theorem unlinkBin (hb : BinsRep h bins F) (hF : FreeChunks F) (hy : y ∈ bins i) {F' : List (Nat × Nat)}
    (hF' : ∀ c, c ∈ F' ↔ c ∈ F ∧ c.1 ≠ y) :
    BinsRep (h.unlinkBin i y) (Function.update bins i ((bins i).erase y)) F' ∧
      LinksOnly F' h.mem (h.unlinkBin i y).mem ∧
      SameHead h (h.unlinkBin i y) ∧ (h.unlinkBin i y).hTop = h.hTop := by
  have hy0 : y ≠ invalidHandle := Nat.ne_of_gt (hb.pos hF hy)
  obtain ⟨hu, hv, huy, hvy⟩ := hb.neighbours hF hy
  have hnode : ∀ u ∈ invalidHandle :: bins i, u ≠ invalidHandle → u ≠ y → ∃ c ∈ F', c.1 = u := by
    intro u hu hu0 huy
    obtain ⟨size, hc, -⟩ := (hb.mem i u).mp ((List.mem_cons.mp hu).resolve_left hu0)
    exact ⟨(u, size), (hF' _).mpr ⟨hc, huy⟩, rfl⟩
  rw [hb.unlinkBin_eq hF hy]
  have hNext : ∀ j, ∀ z ∈ invalidHandle :: bins j,
      ((h.ringSetNext i (h.hPreChunk y) (h.hNextChunk y)).ringSetPre i (h.hNextChunk y) (h.hPreChunk y)).ringNext j z =
        if z = h.hPreChunk y ∧ (h.hPreChunk y = invalidHandle → j = i) then h.hNextChunk y else h.ringNext j z := by
    intro j z hz
    rw [ringNext_ringSetPre (hb.nodeApart hF hv hz), ringNext_ringSetNext (hb.nodeApart hF hu hz) (hNextChunk_lt h y)]
  have hPre : ∀ j, ∀ z ∈ invalidHandle :: bins j,
      ((h.ringSetNext i (h.hPreChunk y) (h.hNextChunk y)).ringSetPre i (h.hNextChunk y) (h.hPreChunk y)).ringPre j z =
        if z = h.hNextChunk y ∧ (h.hNextChunk y = invalidHandle → j = i) then h.hPreChunk y else h.ringPre j z := by
    intro j z hz
    rw [ringPre_ringSetPre (hb.nodeApart hF hv hz) (hPreChunk_lt h y), ringPre_ringSetNext (hb.nodeApart hF hu hz)]
  refine ⟨⟨fun j => ?_, fun j => ?_, fun j z => ?_⟩, fun x hx => ?_, ?_, ?_⟩
  · by_cases hj : j = i
    · subst hj
      rw [Function.update_self]
      obtain ⟨l, r, hlr⟩ := List.append_of_mem hy
      have hnd := hb.root_nodup hF j
      have hring := hb.ring j
      have hnotl : y ∉ l := by
        have hndj := hb.nodup j
        rw [hlr] at hndj
        exact fun hm => (List.nodup_append.mp hndj).2.2 y hm y List.mem_cons_self rfl
      have herase : (bins j).erase y = l ++ r := by
        rw [hlr, List.erase_append_right _ hnotl, List.erase_cons_head]
      rw [herase]
      rw [hlr] at hring hnd
      have hun := hring.unlink hnd
      rw [ringNext, ringPre, if_neg hy0, if_neg hy0] at hun
      have hsub : ∀ z ∈ invalidHandle :: (l ++ r), z ∈ invalidHandle :: bins j := by
        intro z hz
        rw [hlr]
        simp only [List.mem_cons, List.mem_append] at hz ⊢
        rcases hz with hz | hz | hz
        · exact .inl hz
        · exact .inr (.inl hz)
        · exact .inr (.inr (.inr hz))
      have hat : ∀ z ∈ invalidHandle :: (l ++ r), _ = _ ∧ _ = _ := fun z hz => ⟨hNext j z (hsub z hz), hPre j z (hsub z hz)⟩
      refine hun.congr ?_ (fun z hz => ?_)
      · obtain ⟨e1, e2⟩ := hat invalidHandle List.mem_cons_self
        rw [e1, e2]
        simp [Function.update_apply]
      · obtain ⟨e1, e2⟩ := hat z (List.mem_cons_of_mem _ hz)
        rw [e1, e2]
        simp [Function.update_apply]
    · rw [Function.update_of_ne hj]
      have hsame : ∀ z ∈ invalidHandle :: bins j, _ = _ ∧ _ = _ := fun z hz => by
        have e1 := hNext j z hz
        have e2 := hPre j z hz
        rw [if_neg (hb.other_bin hF hu hz hj)] at e1
        rw [if_neg (hb.other_bin hF hv hz hj)] at e2
        exact ⟨e1, e2⟩
      exact (hb.ring j).congr (hsame _ List.mem_cons_self) (fun z hz => hsame z (List.mem_cons_of_mem _ hz))
  · by_cases hj : j = i
    · rw [hj, Function.update_self]
      exact (hb.nodup i).erase y
    · rw [Function.update_of_ne hj]
      exact hb.nodup j
  · have hiff : z ∈ Function.update bins i ((bins i).erase y) j ↔ z ∈ bins j ∧ z ≠ y := by
      by_cases hj : j = i
      · rw [hj, Function.update_self, (hb.nodup i).mem_erase_iff]
        exact and_comm
      · rw [Function.update_of_ne hj]
        refine ⟨fun hz => ⟨hz, ?_⟩, And.left⟩
        rintro rfl
        rcases hb.same_or_apart hF hz hy with ⟨-, he⟩ | ha
        · exact hj he
        · unfold Apart at ha
          omega
    rw [hiff, hb.mem]
    constructor
    · rintro ⟨⟨size, hc, hi⟩, hne⟩
      exact ⟨size, (hF' _).mpr ⟨hc, hne⟩, hi⟩
    · rintro ⟨size, hc, hi⟩
      obtain ⟨hc, hne⟩ := (hF' _).mp hc
      exact ⟨⟨size, hc, hi⟩, hne⟩
  · by_cases hx1 : (h.ringSetNext i (h.hPreChunk y) (h.hNextChunk y)).mem x = h.mem x
    · rw [← hx1] at hx
      obtain ⟨h0, hlo, hhi⟩ := mem_ringSetPre hx
      obtain ⟨c, hc, hcv⟩ := hnode _ hv h0 hvy
      exact ⟨c, hc, by omega, by omega⟩
    · obtain ⟨h0, hlo, hhi⟩ := mem_ringSetNext hx1
      obtain ⟨c, hc, hcu⟩ := hnode _ hu h0 huy
      exact ⟨c, hc, by omega, by omega⟩
  · exact (ringSetNext_head h _ _ _).1.trans (ringSetPre_head _ _ _ _).1
  · rw [(ringSetPre_head _ _ _ _).2, (ringSetNext_head h _ _ _).2]

theorem linkBin_eq (hb : BinsRep h bins F) (hF : FreeChunks F) (hy0 : y ≠ invalidHandle) (i : Nat) :
    h.linkBin i y = (((h.ringSetNext i y (h.bin i).hNextChunk).ringSetPre i y invalidHandle).ringSetPre i
      (h.bin i).hNextChunk y).ringSetNext i invalidHandle y := by
  have hbin : ((h.putNextChunk y (h.bin i).hNextChunk).putPreChunk y invalidHandle).bin = h.bin := rfl
  have hsetNext : h.ringSetNext i y (h.bin i).hNextChunk = h.putNextChunk y (h.bin i).hNextChunk := if_neg hy0
  have hsetPre : (h.putNextChunk y (h.bin i).hNextChunk).ringSetPre i y invalidHandle =
      (h.putNextChunk y (h.bin i).hNextChunk).putPreChunk y invalidHandle := if_neg hy0
  rw [hsetNext, hsetPre]
  unfold CBinMalloc.linkBin
  rw [if_neg hy0]
  simp only [hbin]
  by_cases hn : (h.bin i).hNextChunk = invalidHandle
  · have hnil : bins i = [] := by
      rw [List.eq_nil_iff_forall_not_mem]
      intro z hz
      exact Nat.ne_of_gt (hb.pos hF (hb.bin_ne hz).1) hn
    have hp : (h.bin i).hPreChunk = invalidHandle := by
      have hr := (hb.ring i).prev_root
      rwa [hnil, ringPre, if_pos rfl] at hr
    rw [if_neg (by simp [hn]), if_neg (by simp [hp])]
    simp only [ringSetPre, ringSetNext, hn, if_true, Function.update_self, Function.update_idem, bin_putPreChunk,
      bin_putNextChunk]
  · have hmem : bins i ≠ [] := by
      intro hnil
      have hr := (hb.ring i).next_root
      rw [hnil, ringNext, if_pos rfl] at hr
      exact hn hr
    obtain ⟨z, hz⟩ := List.exists_mem_of_ne_nil _ hmem
    have hp : (h.bin i).hPreChunk ≠ invalidHandle := Nat.ne_of_gt (hb.pos hF (hb.bin_ne hz).2)
    rw [if_pos hn]
    simp only [ringSetPre, ringSetNext, hn, hp, if_true, if_false, bin_putPreChunk, bin_putNextChunk]

theorem linkBin (hb : BinsRep h bins F) {size : Nat} (hF : FreeChunks ((y, size) :: F)) (hy : ∀ c ∈ F, c.1 ≠ y)
    {F' : List (Nat × Nat)} (hF' : ∀ c, c ∈ F' ↔ c = (y, size) ∨ c ∈ F) :
    BinsRep (h.linkBin (binIndex size) y) (Function.update bins (binIndex size) (y :: bins (binIndex size))) F' ∧
      LinksOnly F' h.mem (h.linkBin (binIndex size) y).mem ∧
      SameHead h (h.linkBin (binIndex size) y) ∧ (h.linkBin (binIndex size) y).hTop = h.hTop := by
  have hFF : FreeChunks F := ⟨fun c hc => hF.pos c (List.mem_cons_of_mem _ hc),
    fun c hc d hd => hF.apart c (List.mem_cons_of_mem _ hc) d (List.mem_cons_of_mem _ hd)⟩
  obtain ⟨hypos, hylt⟩ := hF.pos _ List.mem_cons_self
  have hy0 : y ≠ invalidHandle := Nat.ne_of_gt hypos
  generalize hi : binIndex size = i
  have hnot : ∀ j, y ∉ bins j := by
    intro j hm
    obtain ⟨s, hc, -⟩ := (hb.mem j y).mp hm
    exact hy _ hc rfl
  have hyz : ∀ j, ∀ z ∈ bins j, Apart y z := by
    intro j z hz
    obtain ⟨s, hc, -⟩ := (hb.mem j z).mp hz
    rcases hF.apart _ List.mem_cons_self _ (List.mem_cons_of_mem _ hc) with he | ha
    · exact absurd (congrArg Prod.fst he).symm (hy _ hc)
    · exact ha
  have hn : (h.bin i).hNextChunk ∈ invalidHandle :: bins i := by
    have hr := (hb.ring i).next_root
    rw [ringNext, if_pos rfl] at hr
    rw [hr]
    cases bins i with
    | nil => exact List.mem_cons_self
    | cons a as => exact List.mem_cons_of_mem _ List.mem_cons_self
  have hnlt : (h.bin i).hNextChunk < 256 ^ 8 := by
    rcases List.mem_cons.mp hn with he | hm
    · rw [he]
      decide
    · obtain ⟨s, hc, -⟩ := (hb.mem i _).mp hm
      exact (hFF.pos _ hc).2
  -- a node of a ring after the link: a root, the new member, or an old one
  have hyapart : ∀ j, ∀ z ∈ invalidHandle :: y :: bins j, NodeApart y z := by
    intro j z hz
    simp only [List.mem_cons] at hz
    rcases hz with rfl | rfl | hz
    · exact .inl rfl
    · exact .inr (.inr (.inl rfl))
    · exact .inr (.inr (.inr (hyz j z hz)))
  have hnapart : ∀ j, ∀ z ∈ invalidHandle :: y :: bins j, NodeApart (h.bin i).hNextChunk z := by
    intro j z hz
    simp only [List.mem_cons] at hz
    rcases hz with rfl | rfl | hz
    · exact .inl rfl
    · rcases List.mem_cons.mp hn with he | hm
      · exact .inr (.inl he)
      · exact .inr (.inr (.inr (Or.symm (hyz i _ hm))))
    · exact hb.nodeApart hFF hn (List.mem_cons_of_mem _ hz)
  rw [hb.linkBin_eq hFF hy0 i]
  have hNext : ∀ j, ∀ z ∈ invalidHandle :: y :: bins j,
      ((((h.ringSetNext i y (h.bin i).hNextChunk).ringSetPre i y invalidHandle).ringSetPre i
        (h.bin i).hNextChunk y).ringSetNext i invalidHandle y).ringNext j z =
        if z = invalidHandle ∧ (invalidHandle = invalidHandle → j = i) then y
        else if z = y ∧ (y = invalidHandle → j = i) then (h.bin i).hNextChunk else h.ringNext j z := by
    intro j z hz
    rw [ringNext_ringSetNext (.inr (.inl rfl)) hylt, ringNext_ringSetPre (hnapart j z hz),
      ringNext_ringSetPre (hyapart j z hz), ringNext_ringSetNext (hyapart j z hz) hnlt]
  have hPre : ∀ j, ∀ z ∈ invalidHandle :: y :: bins j,
      ((((h.ringSetNext i y (h.bin i).hNextChunk).ringSetPre i y invalidHandle).ringSetPre i
        (h.bin i).hNextChunk y).ringSetNext i invalidHandle y).ringPre j z =
        if z = (h.bin i).hNextChunk ∧ ((h.bin i).hNextChunk = invalidHandle → j = i) then y
        else if z = y ∧ (y = invalidHandle → j = i) then invalidHandle else h.ringPre j z := by
    intro j z hz
    rw [ringPre_ringSetNext (.inr (.inl rfl)), ringPre_ringSetPre (hnapart j z hz) hylt,
      ringPre_ringSetPre (hyapart j z hz) (by decide), ringPre_ringSetNext (hyapart j z hz)]
  refine ⟨⟨fun j => ?_, fun j => ?_, fun j z => ?_⟩, fun x hx => ?_, ?_, ?_⟩
  · by_cases hj : j = i
    · subst hj
      rw [Function.update_self]
      have hnew : y ∉ invalidHandle :: bins j := fun hm => (List.mem_cons.mp hm).elim hy0 (hnot j)
      have hlink := (hb.ring j).link (hb.root_nodup hFF j) hnew
      have hroot : h.ringNext j invalidHandle = (h.bin j).hNextChunk := if_pos rfl
      rw [hroot] at hlink
      have hat : ∀ z ∈ invalidHandle :: y :: bins j, _ = _ ∧ _ = _ := fun z hz => ⟨hNext j z hz, hPre j z hz⟩
      refine hlink.congr ?_ (fun z hz => ?_)
      · obtain ⟨e1, e2⟩ := hat invalidHandle List.mem_cons_self
        rw [e1, e2]
        simp [Function.update_apply]
      · obtain ⟨e1, e2⟩ := hat z (List.mem_cons_of_mem _ hz)
        rw [e1, e2]
        simp [Function.update_apply]
    · rw [Function.update_of_ne hj]
      have hsame : ∀ z ∈ invalidHandle :: bins j, _ = _ ∧ _ = _ := fun z hz => by
        have hz' : z ∈ invalidHandle :: y :: bins j := by
          rcases List.mem_cons.mp hz with rfl | hz
          · exact List.mem_cons_self
          · exact List.mem_cons_of_mem _ (List.mem_cons_of_mem _ hz)
        have hzy : ¬ (z = y ∧ (y = invalidHandle → j = i)) := by
          rintro ⟨rfl, -⟩
          exact (List.mem_cons.mp hz).elim hy0 (hnot j)
        have e1 := hNext j z hz'
        have e2 := hPre j z hz'
        rw [if_neg (fun hc => hj (hc.2 rfl)), if_neg hzy] at e1
        rw [if_neg (hb.other_bin hFF hn hz hj), if_neg hzy] at e2
        exact ⟨e1, e2⟩
      exact (hb.ring j).congr (hsame _ List.mem_cons_self) (fun z hz => hsame z (List.mem_cons_of_mem _ hz))
  · by_cases hj : j = i
    · rw [hj, Function.update_self]
      exact List.nodup_cons.mpr ⟨hnot i, hb.nodup i⟩
    · rw [Function.update_of_ne hj]
      exact hb.nodup j
  · have hiff : z ∈ Function.update bins i (y :: bins i) j ↔ (z = y ∧ j = i) ∨ z ∈ bins j := by
      by_cases hj : j = i
      · simp [hj]
      · simp [hj]
    rw [hiff, hb.mem]
    constructor
    · rintro (⟨rfl, rfl⟩ | ⟨s, hc, hs⟩)
      · exact ⟨size, (hF' _).mpr (.inl rfl), hi⟩
      · exact ⟨s, (hF' _).mpr (.inr hc), hs⟩
    · rintro ⟨s, hc, rfl⟩
      rcases (hF' _).mp hc with he | hc
      · rw [Prod.mk.injEq] at he
        exact .inl ⟨he.1, by rw [he.2, hi]⟩
      · exact .inr ⟨s, hc, rfl⟩
  · have hin : ∀ u ∈ invalidHandle :: y :: bins i, u ≠ invalidHandle → u + 8 ≤ x → x < u + 24 →
        ∃ c ∈ F', c.1 + 8 ≤ x ∧ x < c.1 + 24 := by
      intro u hu hu0 hlo hhi
      rcases List.mem_cons.mp ((List.mem_cons.mp hu).resolve_left hu0) with rfl | hm
      · exact ⟨(u, size), (hF' _).mpr (.inl rfl), hlo, hhi⟩
      · obtain ⟨s, hc, -⟩ := (hb.mem i u).mp hm
        exact ⟨(u, s), (hF' _).mpr (.inr hc), hlo, hhi⟩
    have hymem : y ∈ invalidHandle :: y :: bins i := List.mem_cons_of_mem _ List.mem_cons_self
    have hnmem : (h.bin i).hNextChunk ∈ invalidHandle :: y :: bins i := by
      rcases List.mem_cons.mp hn with he | hm
      · rw [he]
        exact List.mem_cons_self
      · exact List.mem_cons_of_mem _ (List.mem_cons_of_mem _ hm)
    by_cases h1 : (h.ringSetNext i y (h.bin i).hNextChunk).mem x = h.mem x
    · by_cases h2 : ((h.ringSetNext i y (h.bin i).hNextChunk).ringSetPre i y invalidHandle).mem x = h.mem x
      · by_cases h3 : (((h.ringSetNext i y (h.bin i).hNextChunk).ringSetPre i y invalidHandle).ringSetPre i
            (h.bin i).hNextChunk y).mem x = h.mem x
        · rw [← h3] at hx
          exact absurd rfl (mem_ringSetNext hx).1
        · rw [← h2] at h3
          obtain ⟨h0, hlo, hhi⟩ := mem_ringSetPre h3
          exact hin _ hnmem h0 hlo hhi
      · rw [← h1] at h2
        obtain ⟨h0, hlo, hhi⟩ := mem_ringSetPre h2
        exact hin _ hymem h0 hlo hhi
    · obtain ⟨h0, hlo, hhi⟩ := mem_ringSetNext h1
      exact hin _ hymem h0 hlo hhi
  · exact (((ringSetNext_head h _ _ _).1.trans (ringSetPre_head _ _ _ _).1).trans (ringSetPre_head _ _ _ _).1).trans
      (ringSetNext_head _ _ _ _).1
  · rw [(ringSetNext_head _ _ _ _).2, (ringSetPre_head _ _ _ _).2, (ringSetPre_head _ _ _ _).2,
      (ringSetNext_head h _ _ _).2]

end BinsRep

end Dtc
