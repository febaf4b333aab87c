import DtcServer.HelperPool
import DtcServer.Places
/-!
# HelperPoolSpec — a group in order, and the tasks by their places

What the operations of a group do to one helper (`Changes`), and where the tasks of all groups are (`TaskBook`).
-/
namespace Dtc

section Groups

theorem countP_range_change {p q : Nat → Bool} {k : Nat} (h : ∀ x, x ≠ k → q x = p x) : ∀ {n : Nat}, k < n →
    (List.range n).countP q + (if p k then 1 else 0) = (List.range n).countP p + (if q k then 1 else 0)
  | 0, hk => absurd hk (Nat.not_lt_zero k)
  | n + 1, hk => by
    rw [List.range_succ, List.countP_append, List.countP_append, List.countP_singleton, List.countP_singleton]
    rcases Nat.lt_succ_iff_lt_or_eq.mp hk with hlt | rfl
    · rw [h n (by omega)]
      have ih := countP_range_change h hlt
      omega
    · have hsame : (List.range k).countP q = (List.range k).countP p := by
        refine List.countP_congr (fun x hx => ?_)
        rw [h x (Nat.ne_of_lt (List.mem_range.mp hx))]
      omega

/-- **A group in order**: the free list has exactly the idle helpers, and the ready helpers are counted. -/
structure CHelperGroup.Ok (G : CHelperGroup) : Prop where
  free : ∀ h, h ∈ G.freeHelper ↔ h < G.helperMax ∧ (G.helperList h).stage = .idle
  nodup : G.freeHelper.Nodup
  ready : G.readyHelperCnt = (List.range G.helperMax).countP (fun h => (G.helperList h).ready)

/-- Only the helper `h` changes, to `c`; the group stays in order. -/
structure Changes (h : Nat) (G G' : CHelperGroup) (stage : HelperStage) (task : Option HelperTask) : Prop where
  ok : G'.Ok
  queue : G'.queue = G.queue
  helperMax : G'.helperMax = G.helperMax
  others : ∀ x, x ≠ h → G'.helperList x = G.helperList x
  stage : (G'.helperList h).stage = stage
  task : (G'.helperList h).task = task

variable {G G' G'' : CHelperGroup} {h : Nat} {stage stage' : HelperStage} {task task' : Option HelperTask}

theorem Changes.trans (h1 : Changes h G G' stage task) (h2 : Changes h G' G'' stage' task') :
    Changes h G G'' stage' task' :=
  ⟨h2.ok, h2.queue.trans h1.queue, h2.helperMax.trans h1.helperMax,
    fun x hx => (h2.others x hx).trans (h1.others x hx), h2.stage, h2.task⟩

theorem Changes.refl (hG : G.Ok) (h : Nat) : Changes h G G (G.helperList h).stage (G.helperList h).task :=
  ⟨hG, rfl, rfl, fun _ _ => rfl, rfl, rfl⟩

theorem changes_of (free : List Nat) (cnt : Nat) (hG : G.Ok) {c : CHelperClient} (hh : h < G.helperMax)
    (hfree : ∀ x, x ∈ free ↔ if x = h then c.stage = .idle else x ∈ G.freeHelper) (hnodup : free.Nodup)
    (hcnt : cnt + (if (G.helperList h).ready then 1 else 0) = G.readyHelperCnt + (if c.ready then 1 else 0)) :
    Changes h G { G.setHelper h c with freeHelper := free, readyHelperCnt := cnt } c.stage c.task := by
  have hself : (Function.update G.helperList h c) h = c := Function.update_self ..
  have hother : ∀ x, x ≠ h → (Function.update G.helperList h c) x = G.helperList x :=
    fun x hx => Function.update_of_ne hx _ _
  refine ⟨⟨?_, hnodup, ?_⟩, rfl, rfl, hother, congrArg CHelperClient.stage hself, congrArg CHelperClient.task hself⟩
  · intro x
    change x ∈ free ↔ x < G.helperMax ∧ ((Function.update G.helperList h c) x).stage = .idle
    rw [hfree]
    by_cases hx : x = h
    · rw [if_pos hx, hx, hself]
      exact ⟨fun hc => ⟨hh, hc⟩, fun hc => hc.2⟩
    · rw [if_neg hx, hother x hx]
      exact hG.free x
  · change cnt = (List.range G.helperMax).countP (fun x => ((Function.update G.helperList h c) x).ready)
    have hcount := countP_range_change (p := fun x => (G.helperList x).ready)
      (q := fun x => ((Function.update G.helperList h c) x).ready) (fun x hx => congrArg CHelperClient.ready (hother x hx)) hh
    rw [hself] at hcount
    have := hG.ready
    omega

theorem Changes.setHelper (hG : G.Ok) (hh : h < G.helperMax) {c : CHelperClient}
    (hidle : c.stage = .idle ↔ (G.helperList h).stage = .idle) (hready : c.ready = (G.helperList h).ready) :
    Changes h G (G.setHelper h c) c.stage c.task := by
  refine changes_of G.freeHelper G.readyHelperCnt hG hh (fun x => ?_) hG.nodup (by rw [hready])
  by_cases hx : x = h
  · rw [if_pos hx, hx, hG.free h, hidle]
    exact ⟨fun hc => hc.2, fun hc => ⟨hh, hc⟩⟩
  · rw [if_neg hx]

theorem Changes.ready (hG : G.Ok) (hh : h < G.helperMax) :
    Changes h G (G.ready h) (G.helperList h).stage (G.helperList h).task := by
  have hfree : ∀ x, x ∈ G.freeHelper ↔ if x = h then (G.helperList h).stage = .idle else x ∈ G.freeHelper := by
    intro x
    by_cases hx : x = h
    · rw [if_pos hx, hx, hG.free h]
      exact ⟨fun hc => hc.2, fun hc => ⟨hh, hc⟩⟩
    · rw [if_neg hx]
  unfold CHelperGroup.ready
  cases hr : (G.helperList h).ready with
  | true => exact changes_of _ G.readyHelperCnt hG hh hfree hG.nodup (by rw [hr])
  | false =>
    have hlt : G.readyHelperCnt < G.helperMax := by
      rw [hG.ready]
      have hcount := countP_range_change (p := fun x => (G.helperList x).ready)
          (q := fun x => x == h || (G.helperList x).ready)
        (fun x hx => by simp [hx]) hh
      have hle := List.countP_le_length (p := fun x => x == h || (G.helperList x).ready) (l := List.range G.helperMax)
      rw [List.length_range] at hle
      simp only [hr, Bool.false_eq_true, if_false, beq_self_eq_true, Bool.true_or, if_true] at hcount
      omega
    dsimp only
    rw [if_neg Bool.false_ne_true, CHelperGroup.addReadyHelper, if_pos hlt]
    exact changes_of _ (G.readyHelperCnt + 1) hG hh hfree hG.nodup (by rw [hr]; rfl)

theorem Changes.connectError (hG : G.Ok) (hh : h < G.helperMax) :
    Changes h G (G.connectError h) (G.helperList h).stage (G.helperList h).task := by
  have hfree : ∀ x, x ∈ G.freeHelper ↔ if x = h then (G.helperList h).stage = .idle else x ∈ G.freeHelper := by
    intro x
    by_cases hx : x = h
    · rw [if_pos hx, hx, hG.free h]
      exact ⟨fun hc => hc.2, fun hc => ⟨hh, hc⟩⟩
    · rw [if_neg hx]
  unfold CHelperGroup.connectError
  dsimp only
  split
  · rename_i hc
    have hpos : 0 < G.readyHelperCnt := by
      rw [hG.ready]
      exact List.countP_pos_iff.mpr ⟨h, List.mem_range.mpr hh, hc.2⟩
    rw [CHelperGroup.decReadyHelper, if_pos hpos]
    exact changes_of _ (G.readyHelperCnt - 1) hG hh hfree hG.nodup (by rw [hc.2]; simp; omega)
  · exact changes_of _ G.readyHelperCnt hG hh hfree hG.nodup rfl

theorem Changes.toIdle (hG : G.Ok) (hh : h < G.helperMax) {c : CHelperClient} (hidle : c.stage = .idle)
    (hready : c.ready = (G.helperList h).ready) (hbusy : (G.helperList h).stage ≠ .idle) :
    Changes h G ((G.setHelper h c).requestCompleted h) .idle c.task := by
  have hnot : h ∉ G.freeHelper := fun hmem => hbusy ((hG.free h).mp hmem).2
  unfold CHelperGroup.requestCompleted
  rw [if_neg (show h ∉ (G.setHelper h c).freeHelper from hnot), ← hidle]
  refine changes_of (h :: G.freeHelper) G.readyHelperCnt hG hh (fun x => ?_)
    (List.nodup_cons.mpr ⟨hnot, hG.nodup⟩) (by rw [hready])
  by_cases hx : x = h
  · rw [if_pos hx, hx]
    exact ⟨fun _ => hidle, fun _ => List.mem_cons_self⟩
  · rw [if_neg hx, List.mem_cons]
    exact ⟨fun hm => hm.resolve_left hx, .inr⟩

theorem Changes.fromIdle (hG : G.Ok) {rest : List Nat} (hf : G.freeHelper = h :: rest) {c : CHelperClient}
    (hbusy : c.stage ≠ .idle) (hready : c.ready = (G.helperList h).ready) :
    h < G.helperMax ∧ Changes h G { G.setHelper h c with freeHelper := rest } c.stage c.task := by
  have hmem : h ∈ G.freeHelper := by
    rw [hf]
    exact List.mem_cons_self
  have hnodup := hG.nodup
  rw [hf, List.nodup_cons] at hnodup
  have hh := ((hG.free h).mp hmem).1
  refine ⟨hh, changes_of rest G.readyHelperCnt hG hh (fun x => ?_) hnodup.2 (by rw [hready])⟩
  by_cases hx : x = h
  · rw [if_pos hx, hx]
    exact ⟨fun hm => absurd hm hnodup.1, fun hc => absurd hc hbusy⟩
  · rw [if_neg hx, hf, List.mem_cons]
    exact ⟨.inr, fun hm => hm.resolve_left hx⟩

theorem Changes.resetRest (hG : G.Ok) (hh : h < G.helperMax) : Changes h G (G.resetRest h) .disconnected none := by
  unfold CHelperGroup.resetRest
  dsimp only
  split
  · refine changes_of (G.freeHelper.filter (fun x => x != h)) G.readyHelperCnt hG hh (fun x => ?_)
      (hG.nodup.filter _) rfl
    rw [List.mem_filter]
    by_cases hx : x = h
    · simp [hx]
    · simp [hx]
  · rename_i hbusy
    refine changes_of G.freeHelper G.readyHelperCnt hG hh (fun x => ?_) hG.nodup rfl
    by_cases hx : x = h
    · rw [if_pos hx, hx, hG.free h]
      exact ⟨fun hc => absurd hc.2 hbusy, nofun⟩
    · rw [if_neg hx]

def CHelperClient.Fits (c : CHelperClient) : Prop :=
  match c.stage with
  | .disconnected | .connecting | .idle | .sendVerify => c.task = none
  | .recvVerify => c.task = some .verify
  | .recvRep | .sendReq => ∃ t, c.task = some (.request t)

/-- The task of the group that a helper's pointer is at. -/
def CHelperClient.request (c : CHelperClient) : Option Nat :=
  match c.task with
  | some (.request t) => some t
  | _ => none

/-- The helper's stage and task fit, and it holds no task of the group. -/
def Vacant (stage : HelperStage) (task : Option HelperTask) : Prop :=
  (stage = .recvVerify ∧ task = some .verify) ∨
    ((stage = .disconnected ∨ stage = .connecting ∨ stage = .idle ∨ stage = .sendVerify) ∧ task = none)

theorem CHelperClient.fits_of_vacant {c : CHelperClient} (hv : Vacant c.stage c.task) : c.Fits ∧ c.request = none := by
  unfold Fits request
  rcases hv with ⟨h1, h2⟩ | ⟨h1 | h1 | h1 | h1, h2⟩ <;> rw [h1, h2] <;> exact ⟨rfl, rfl⟩

/-- Only the helper `h` changes, and it ends without a task of the group. -/
def Frees (h : Nat) (G G' : CHelperGroup) : Prop := ∃ stage task, Vacant stage task ∧ Changes h G G' stage task

theorem Frees.sendVerify (hG : G.Ok) (hh : h < G.helperMax) (hst : (G.helperList h).stage ≠ .idle)
    (htask : (G.helperList h).task = none) (sent : Bool) : Frees h G (G.sendVerify h sent) := by
  unfold CHelperGroup.sendVerify
  cases sent with
  | true => exact ⟨_, _, .inl ⟨rfl, rfl⟩, .setHelper hG hh ⟨nofun, fun hc => absurd hc hst⟩ rfl⟩
  | false =>
    refine ⟨_, _, .inr ⟨.inr (.inr (.inr rfl)), ?_⟩, .setHelper hG hh ⟨nofun, fun hc => absurd hc hst⟩ rfl⟩
    exact htask

theorem Frees.connectServer (hG : G.Ok) (hh : h < G.helperMax) (hst : (G.helperList h).stage = .disconnected)
    (htask : (G.helperList h).task = none) (r : CHelperGroup.ConnectResult) : Frees h G (G.connectServer h r) := by
  have hne : (G.helperList h).stage ≠ .idle := by
    rw [hst]
    nofun
  have hstay : Frees h G G := ⟨_, _, .inr ⟨.inl hst, htask⟩, .refl hG h⟩
  unfold CHelperGroup.connectServer
  cases r with
  | connected attached sent =>
    cases attached with
    | true => exact .sendVerify hG hh hne htask sent
    | false => exact hstay
  | inProgress =>
    refine ⟨_, _, .inr ⟨.inr (.inl rfl), ?_⟩, .setHelper hG hh ⟨nofun, fun hc => absurd hc hne⟩ rfl⟩
    exact htask
  | failed => exact hstay

theorem Changes.frees (h1 : Changes h G G' stage task) (h2 : Frees h G' G'') : Frees h G G'' := by
  obtain ⟨stage', task', hv, hc⟩ := h2
  exact ⟨stage', task', hv, h1.trans hc⟩

theorem Frees.reset (hG : G.Ok) (hh : h < G.helperMax) (r : Option CHelperGroup.ConnectResult) :
    Frees h G (match r with
      | some r => (G.resetRest h).connectServer h r
      | none => G.resetRest h) := by
  have hreset := Changes.resetRest hG hh
  cases r with
  | some r => exact hreset.frees (.connectServer hreset.ok (by rw [hreset.helperMax]; exact hh) hreset.stage hreset.task r)
  | none => exact ⟨_, _, .inr ⟨.inl rfl, rfl⟩, hreset⟩

end Groups

/-- Where a task can be. -/
inductive TaskPlace (ι : Type) where
  /-- not given yet -/
  | outside
  /-- in a call of `TaskNotify` -/
  | entering
  | queued (g : ι)
  | helper (g : ι) (h : Nat)
  | replied

structure TaskBook (ι : Type) where
  given : List Nat
  entering : List Nat
  queue : ι → List Nat
  held : ι × Nat → Option Nat
  replied : List Nat

namespace TaskBook

variable {ι : Type} {b : TaskBook ι} {t : Nat} {g : ι} {h : Nat}

def At (b : TaskBook ι) (t : Nat) : TaskPlace ι → Prop
  | .outside => t ∉ b.given
  | .entering => t ∈ b.entering
  | .queued g => t ∈ b.queue g
  | .helper g h => b.held (g, h) = some t
  | .replied => t ∈ b.replied

/-- The lists have no task twice. -/
structure Lists (b : TaskBook ι) : Prop where
  entering : b.entering.Nodup
  queue : ∀ g, (b.queue g).Nodup
  replied : b.replied.Nodup

/-- **Every task is in one place**, and once there. -/
def Ok (b : TaskBook ι) : Prop := Places.Once b.At ∧ b.Lists

/-- All tasks but `t`, which is on its way. -/
def OkBut (b : TaskBook ι) (t : Nat) : Prop := Places.But b.At t ∧ b.Lists

theorem mem_snoc_iff {l : List Nat} {y : Nat} (h : y ≠ t) : y ∈ l ++ [t] ↔ y ∈ l := by
  rw [List.mem_append, List.mem_singleton]
  exact ⟨fun hm => hm.resolve_right h, .inl⟩

theorem mem_cons_iff {l : List Nat} {y : Nat} (h : y ≠ t) : y ∈ t :: l ↔ y ∈ l := by
  rw [List.mem_cons]
  exact ⟨fun hm => hm.resolve_left h, .inr⟩

theorem nodup_snoc {l : List Nat} (h : l.Nodup) (ht : t ∉ l) : (l ++ [t]).Nodup := by
  rw [List.nodup_append]
  refine ⟨h, List.pairwise_singleton _ t, fun a ha b hb => ?_⟩
  rw [List.mem_singleton.mp hb]
  exact fun he => ht (he ▸ ha)

theorem Ok.arrive (hb : b.Ok) (hnew : t ∉ b.given) :
    Ok { b with given := t :: b.given, entering := t :: b.entering } := by
  have hout : b.At t .outside := hnew
  have hbut : Places.But (At { b with given := t :: b.given }) t := by
    refine hb.1.take hout (fun hn => hn List.mem_cons_self) (fun r hr hat => ?_) (fun y r hy => ?_)
    · cases r with
      | outside => exact absurd rfl hr
      | entering | queued | helper | replied => exact hat
    · cases r with
      | outside => exact not_congr (mem_cons_iff hy)
      | entering | queued | helper | replied => exact Iff.rfl
  refine ⟨hbut.put (q := .entering) List.mem_cons_self (fun r hr hat => ?_) (fun y r hy => ?_),
    ⟨List.nodup_cons.mpr ⟨hbut.1 .entering, hb.2.entering⟩, hb.2.queue, hb.2.replied⟩⟩
  · cases r with
    | entering => exact absurd rfl hr
    | outside | queued | helper | replied => exact hat
  · cases r with
    | entering => exact mem_cons_iff hy
    | outside | queued | helper | replied => exact Iff.rfl

theorem Ok.enter {rest : List Nat} (hb : b.Ok) (he : b.entering = t :: rest) : OkBut { b with entering := rest } t := by
  have hnodup := hb.2.entering
  rw [he, List.nodup_cons] at hnodup
  have hat : b.At t .entering := by
    change t ∈ b.entering
    rw [he]
    exact List.mem_cons_self
  refine ⟨hb.1.take hat hnodup.1 (fun r hr hat => ?_) (fun y r hy => ?_), ⟨hnodup.2, hb.2.queue, hb.2.replied⟩⟩
  · cases r with
    | entering => exact absurd rfl hr
    | outside | queued | helper | replied => exact hat
  · cases r with
    | entering =>
      change y ∈ rest ↔ y ∈ b.entering
      rw [he, mem_cons_iff hy]
    | outside | queued | helper | replied => exact Iff.rfl

theorem OkBut.reply (hb : b.OkBut t) : Ok { b with replied := b.replied ++ [t] } := by
  refine ⟨hb.1.put (q := .replied) (List.mem_append_right _ List.mem_cons_self) (fun r hr hat => ?_) (fun y r hy => ?_),
    ⟨hb.2.entering, hb.2.queue, nodup_snoc hb.2.replied (hb.1.1 .replied)⟩⟩
  · cases r with
    | replied => exact absurd rfl hr
    | outside | entering | queued | helper => exact hat
  · cases r with
    | replied => exact mem_snoc_iff hy
    | outside | entering | queued | helper => exact Iff.rfl

variable [DecidableEq ι]

theorem mem_update_queue {q : List Nat} {y : Nat} (h : y ∈ q ↔ y ∈ b.queue g) (x : ι) :
    y ∈ Function.update b.queue g q x ↔ y ∈ b.queue x := by
  by_cases hx : x = g
  · rw [hx, Function.update_self]
    exact h
  · rw [Function.update_of_ne hx]

theorem nodup_update_queue {q : List Nat} (hb : ∀ x, (b.queue x).Nodup) (hq : q.Nodup) (x : ι) :
    (Function.update b.queue g q x).Nodup := by
  by_cases hx : x = g
  · rw [hx, Function.update_self]
    exact hq
  · rw [Function.update_of_ne hx]
    exact hb x

theorem Ok.pop {rest : List Nat} (hb : b.Ok) (hq : b.queue g = t :: rest) :
    OkBut { b with queue := Function.update b.queue g rest } t := by
  have hnodup := hb.2.queue g
  rw [hq, List.nodup_cons] at hnodup
  have hat : b.At t (.queued g) := by
    change t ∈ b.queue g
    rw [hq]
    exact List.mem_cons_self
  refine ⟨hb.1.take hat ?_ (fun r hr hat => ?_) (fun y r hy => ?_),
    ⟨hb.2.entering, nodup_update_queue hb.2.queue hnodup.2, hb.2.replied⟩⟩
  · change t ∉ Function.update b.queue g rest g
    rw [Function.update_self]
    exact hnodup.1
  · cases r with
    | queued x =>
      have hx : x ≠ g := fun he => hr (by rw [he])
      change t ∈ Function.update b.queue g rest x at hat
      rw [Function.update_of_ne hx] at hat
      exact hat
    | outside | entering | helper | replied => exact hat
  · cases r with
    | queued x => exact mem_update_queue (by rw [hq, mem_cons_iff hy]) x
    | outside | entering | helper | replied => exact Iff.rfl

theorem Ok.release (hb : b.Ok) (hh : b.held (g, h) = some t) :
    OkBut { b with held := Function.update b.held (g, h) none } t := by
  have hat : b.At t (.helper g h) := hh
  refine ⟨hb.1.take hat ?_ (fun r hr hat => ?_) (fun y r hy => ?_), ⟨hb.2.entering, hb.2.queue, hb.2.replied⟩⟩
  · change Function.update b.held (g, h) none (g, h) ≠ some t
    rw [Function.update_self]
    nofun
  · cases r with
    | helper x k =>
      have hx : (x, k) ≠ (g, h) := fun he => hr (by rw [(Prod.mk.inj he).1, (Prod.mk.inj he).2])
      change Function.update b.held (g, h) none (x, k) = some t at hat
      rw [Function.update_of_ne hx] at hat
      exact hat
    | outside | entering | queued | replied => exact hat
  · cases r with
    | helper x k =>
      change Function.update b.held (g, h) none (x, k) = some y ↔ b.held (x, k) = some y
      by_cases hx : (x, k) = (g, h)
      · rw [hx, Function.update_self, hh]
        exact ⟨nofun, fun he => absurd (Option.some.inj he).symm hy⟩
      · rw [Function.update_of_ne hx]
    | outside | entering | queued | replied => exact Iff.rfl

theorem OkBut.enqueue (hb : b.OkBut t) {q : List Nat} (hnodup : t ∉ b.queue g → q.Nodup) (hmem : t ∈ q)
    (hq : ∀ y, y ≠ t → (y ∈ q ↔ y ∈ b.queue g)) : Ok { b with queue := Function.update b.queue g q } := by
  refine ⟨hb.1.put (q := .queued g) ?_ (fun r hr hat => ?_) (fun y r hy => ?_),
    ⟨hb.2.entering, nodup_update_queue hb.2.queue (hnodup (hb.1.1 (.queued g))), hb.2.replied⟩⟩
  · change t ∈ Function.update b.queue g q g
    rwa [Function.update_self]
  · cases r with
    | queued x =>
      have hx : x ≠ g := fun he => hr (by rw [he])
      change t ∈ Function.update b.queue g q x at hat
      rw [Function.update_of_ne hx] at hat
      exact hat
    | outside | entering | helper | replied => exact hat
  · cases r with
    | queued x => exact mem_update_queue (hq y hy) x
    | outside | entering | helper | replied => exact Iff.rfl

theorem OkBut.hold (hb : b.OkBut t) (hnone : b.held (g, h) = none) :
    Ok { b with held := Function.update b.held (g, h) (some t) } := by
  refine ⟨hb.1.put (q := .helper g h) ?_ (fun r hr hat => ?_) (fun y r hy => ?_), ⟨hb.2.entering, hb.2.queue, hb.2.replied⟩⟩
  · exact Function.update_self ..
  · cases r with
    | helper x k =>
      have hx : (x, k) ≠ (g, h) := fun he => hr (by rw [(Prod.mk.inj he).1, (Prod.mk.inj he).2])
      change Function.update b.held (g, h) (some t) (x, k) = some t at hat
      rw [Function.update_of_ne hx] at hat
      exact hat
    | outside | entering | queued | replied => exact hat
  · cases r with
    | helper x k =>
      change Function.update b.held (g, h) (some t) (x, k) = some y ↔ b.held (x, k) = some y
      by_cases hx : (x, k) = (g, h)
      · rw [hx, Function.update_self, hnone]
        exact ⟨fun he => absurd (Option.some.inj he).symm hy, nofun⟩
      · rw [Function.update_of_ne hx]
    | outside | entering | queued | replied => exact Iff.rfl

end TaskBook

end Dtc
