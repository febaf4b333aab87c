import DtcServer.FilterRun
/-!
# PurgeRequest — what `cache_purge_data` leaves of a key

A purge request of a key that is not dirty discards the node at once. A dirty node is flushed first, and discarded when
`cache_flush_data` reports that rows are on their way; where it has sent none it reports success, and `cache_purge_data`
returns with the node in its place.
-/
namespace Dtc

open Tally

namespace CacheProcess

variable {κ ρ : Type} [DecidableEq κ]

section Defs

variable (p : CacheProcess κ ρ) (t : CacheTask κ ρ)

def keyWeight (key : κ) (n : CacheNode κ ρ) : Nat := (decide (n.key = key)).toNat

def keyCount (key : κ) : Nat := total (keyWeight key) p.nodes

/-- **A key has one node**, in a hash table in which it is looked for. -/
structure KeysUnique : Prop where
  one : ∀ key, p.keyCount key ≤ 1
  hash : ∀ n ∈ p.nodes, p.conf.hash.allows n.newhash

/-- What `cache_purge_data` returns. -/
def purgeDataResult : CacheResult :=
  match p.stNode with
  | none => .ok
  | some n => if p.conf.updateMode ≠ .sync ∧ n.dirty = true then (p.cacheFlushData t).2 else .ok

/-- A dirty node of which `cache_flush_data` leaves no row on its way. -/
def flushesNothing (n : CacheNode κ ρ) : Bool :=
  decide (p.conf.updateMode ≠ .sync) && n.dirty && (p.conf.nodbMode || decide (dirtyRows n.rows ≤ t.completed))

/-- **The purge leaves no node of the key**: the filter hides none, and the one that is found is flushed if it is dirty. -/
def purgeOk : Bool :=
  if p.conf.emptyFilter && t.isset then p.keyCount t.key == 0 else (p.findNode t.key).all (fun r => !p.flushesNothing t r.1)

def makesNode : CacheWork → Bool
  | .insertRow _ _ | .updateRows _ _ | .replaceResult => true
  | .none | .getData | .replaceRows _ | .deleteRows | .purgeData | .flushData | .flushBeforeDelete => false

/-- Where a node is made for a key that the filter calls empty, the key has none. -/
def workKeysOk (w : CacheWork) : Bool := !makesNode w || decide (p.nodeStat ≠ .empty) || p.keyCount (p.key t) == 0

/-- **The step makes no second node of a key.** -/
def stepKeysOk : CacheAction κ ρ → Bool
  | .request t => (p.handles t).1.workKeysOk (p.marked t) (p.handles t).2
  | .reply t => (p.cacheProcessReply t).1.workKeysOk t (p.cacheProcessReply t).2
  | .error t code => (p.cacheProcessError t code).1.workKeysOk t (p.cacheProcessError t code).2
  -- the hash tables stay as they are until all nodes are in the one that is left
  | .configure hash => hash.hashChanging || p.nodes.all (fun n => n.newhash == hash.targetNewHash)
  | .begin | .finish | .batchGet _ | .purgeClean _ | .purgeEmpty _ | .flushTimer _ _ | .purgeKey _ | .replaceRaw _ _ _ _
  | .migrate _ _ _ _ _ | .migrated _ | .touch _ | .adjustLru _ => true

def decidedKey (r : CacheProcess κ ρ × CacheWork) : Option κ := if r.2 = .none then none else r.1.ptrKey

def workedKey : CacheAction κ ρ → Option κ
  | .request t => decidedKey (p.handles t)
  | .reply t => decidedKey (p.cacheProcessReply t)
  | .error t code => decidedKey (p.cacheProcessError t code)
  | .replaceRaw key _ _ _ | .migrate key _ _ _ _ => some key
  | _ => none

end Defs

section Keys

variable {p : CacheProcess κ ρ} {t : CacheTask κ ρ} {key k : κ} {n : CacheNode κ ρ} {rest : List (CacheNode κ ρ)}

theorem keyWeight_eq_zero : keyWeight key n = 0 ↔ n.key ≠ key := by
  unfold keyWeight
  by_cases h : n.key = key <;> simp [h]

theorem keyWeight_le : keyWeight key n ≤ 1 := Bool.toNat_le _

theorem keyWeight_self (h : n.key = key) : keyWeight key n = 1 := by
  unfold keyWeight
  rw [decide_eq_true h]
  rfl

theorem keyCount_eq_zero : p.keyCount key = 0 ↔ ∀ n ∈ p.nodes, n.key ≠ key := by
  unfold keyCount
  rw [total_eq_zero]
  exact forall₂_congr (fun _ _ => keyWeight_eq_zero)

theorem steady_keyWeight {target : Bool} : Steady target (keyWeight key : CacheNode κ ρ → Nat) := by
  intro m n hkey _ _
  unfold keyWeight
  rw [hkey]

theorem takeOut_none {newhash : Bool} : ∀ {nodes : List (CacheNode κ ρ)}, takeOut key newhash nodes = none →
    ∀ n ∈ nodes, n.key = key → n.newhash ≠ newhash
  | [], _, n, hn => absurd hn List.not_mem_nil
  | m :: nodes, h, n, hn => by
    unfold takeOut at h
    split at h
    · cases h
    · next hm =>
      have hrest := takeOut_none (Option.map_eq_none_iff.mp h)
      rcases List.mem_cons.mp hn with rfl | hn
      · exact fun hkey hnew => hm ⟨hkey, hnew⟩
      · exact hrest n hn

theorem findNode_none (h : ∀ n ∈ p.nodes, p.conf.hash.allows n.newhash) (hf : p.findNode key = none) :
    p.keyCount key = 0 := by
  refine keyCount_eq_zero.mpr (fun n hn hkey => ?_)
  unfold findNode at hf
  dsimp only at hf
  by_cases hc : p.conf.hash.hashChanging = true
  · rw [if_pos hc] at hf
    split at hf
    · cases hf
    · next hold =>
      have h1 := takeOut_none hold n hn hkey
      have h2 := takeOut_none hf n hn hkey
      generalize p.conf.hash.targetNewHash = b at h1 h2
      cases hb : n.newhash <;> cases b <;> simp_all
  · rw [if_neg hc] at hf
    exact takeOut_none hf n hn hkey ((h n hn).resolve_left hc)

theorem findNode_keyCount (hf : p.findNode key = some (n, rest)) : p.keyCount k = keyWeight k n + total (keyWeight k) rest := by
  obtain ⟨n₀, hperm, -, hn⟩ := findNode_cases hf
  unfold keyCount
  rw [total_perm hperm, total_cons]
  rcases hn with rfl | rfl <;> rfl

theorem found_hash (h : ∀ m ∈ p.nodes, p.conf.hash.allows m.newhash) (hf : p.findNode key = some (n, rest)) :
    ∀ m ∈ n :: rest, p.conf.hash.allows m.newhash := by
  obtain ⟨n₀, hperm, -, hn⟩ := findNode_cases hf
  have hall : ∀ m ∈ n₀ :: rest, p.conf.hash.allows m.newhash := fun m hm => h m (hperm.mem_iff.mpr hm)
  obtain ⟨hfirst, hrest⟩ := List.forall_mem_cons.mp hall
  refine List.forall_mem_cons.mpr ⟨?_, hrest⟩
  rcases hn with rfl | rfl
  · exact hfirst
  · exact .inr rfl

end Keys

/-! ## A key has one node -/

section Unique

variable {p q : CacheProcess κ ρ} {t u : CacheTask κ ρ} {key k : κ} {n : CacheNode κ ρ} {rest : List (CacheNode κ ρ)}

/-- Whether a node is in a hash table in which it is not looked for. -/
def lostWeight (c : HashConfig) (n : CacheNode κ ρ) : Nat := (!(c.hashChanging || n.newhash == c.targetNewHash)).toNat

omit [DecidableEq κ] in
theorem lostWeight_eq_zero {c : HashConfig} : lostWeight c n = 0 ↔ c.allows n.newhash := by
  unfold lostWeight HashConfig.allows
  cases c.hashChanging <;> simp

omit [DecidableEq κ] in
theorem steady_lostWeight {c : HashConfig} : Steady c.targetNewHash (lostWeight c : CacheNode κ ρ → Nat) := by
  rintro m n - - (hnew | hnew)
  · unfold lostWeight
    rw [hnew]
  · rw [lostWeight_eq_zero.mpr (.inr hnew)]
    exact Nat.zero_le _

def Placed (w : CacheNode κ ρ → Nat) : Prop := ∀ m n, m.key = n.key → m.newhash = n.newhash → w m = w n

theorem placed_keyWeight : Placed (keyWeight key : CacheNode κ ρ → Nat) := by
  intro m n hkey _
  unfold keyWeight
  rw [hkey]

omit [DecidableEq κ] in
theorem placed_lostWeight {c : HashConfig} : Placed (lostWeight c : CacheNode κ ρ → Nat) := by
  intro m n _ hnew
  unfold lostWeight
  rw [hnew]

theorem KeysUnique.of_le (h : p.KeysUnique) (hconf : q.conf = p.conf)
    (hle : ∀ w, Steady p.conf.hash.targetNewHash w → Placed w → total w q.nodes ≤ total w p.nodes) : q.KeysUnique where
  one key := Nat.le_trans (hle _ steady_keyWeight placed_keyWeight) (h.one key)
  hash := by
    have hlost : total (lostWeight p.conf.hash) p.nodes = 0 :=
      total_eq_zero.mpr (fun n hn => lostWeight_eq_zero.mpr (h.hash n hn))
    have hzero := Nat.eq_zero_of_le_zero (hlost ▸ hle _ steady_lostWeight placed_lostWeight)
    rw [hconf]
    exact fun n hn => lostWeight_eq_zero.mp (total_eq_zero.mp hzero n hn)

theorem KeysUnique.find {isset : Bool} (h : p.KeysUnique) : (p.transationFindNode key isset).KeysUnique :=
  h.of_le find_conf (fun _ hw _ => find_total hw)

theorem nodes_keyCount (hn : p.stNode = some n) : p.keyCount key = keyWeight key n + total (keyWeight key) p.pool := by
  unfold keyCount
  rw [nodes_eq_cons hn, total_cons]

omit [DecidableEq κ] in
theorem nodes_none (hn : p.stNode = none) : p.nodes = p.pool := by
  unfold nodes
  rw [hn]
  rfl

theorem find_missing {isset : Bool} (h : p.KeysUnique) (hn : (p.transationFindNode key isset).stNode = none)
    (hs : (p.transationFindNode key isset).nodeStat ≠ .empty) : (p.transationFindNode key isset).keyCount key = 0 := by
  unfold transationFindNode at hn hs ⊢
  split at hs
  · exact absurd rfl hs
  · next hfilter =>
    rw [if_neg hfilter] at hn ⊢
    split at hn
    · next hf => exact findNode_none h.hash hf
    · cases hn

theorem perform_noNode {w : CacheWork} (hn : p.stNode = none) (hw : makesNode w = false) : p.perform t w = p := by
  cases w with
  | insertRow | updateRows | replaceResult => cases hw
  | none => rfl
  | getData =>
    show p.transationUpdateLRU false lruRead = p
    unfold CacheProcess.transationUpdateLRU
    rw [hn]
  | replaceRows async =>
    show p.cacheReplaceRows t async = p
    unfold CacheProcess.cacheReplaceRows
    rw [hn]
  | deleteRows =>
    show p.cacheDeleteRows t = p
    unfold CacheProcess.cacheDeleteRows
    rw [hn]
  | purgeData =>
    show p.cachePurgeData t = p
    unfold CacheProcess.cachePurgeData
    rw [hn]
  | flushData =>
    show (p.cacheFlushData t).1 = p
    unfold CacheProcess.cacheFlushData
    rw [hn]
  | flushBeforeDelete =>
    show p.cacheFlushDataBeforeDelete t = p
    unfold CacheProcess.cacheFlushDataBeforeDelete
    rw [hn]

theorem OwnNodeOf.keysUnique (h : OwnNodeOf (fun k b => k = key ∧ p.conf.hash.allows b) p q) (hp : p.KeysUnique)
    (hpool : total (keyWeight key) p.pool = 0) : q.KeysUnique := by
  obtain ⟨hconf, hsub, hst⟩ := h
  have hle : ∀ k, total (keyWeight k) q.pool ≤ total (keyWeight k) p.pool := fun k => total_sublist hsub
  have hone : ∀ k, total (keyWeight k) p.pool ≤ 1 := fun k =>
    Nat.le_trans (total_sublist (List.sublist_append_right _ _)) (hp.one k)
  have hhash : ∀ m ∈ q.pool, p.conf.hash.allows m.newhash := fun m hm =>
    hp.hash m (List.mem_append_right _ (hsub.subset hm))
  rcases hq : q.stNode with _ | n
  · refine ⟨fun k => ?_, ?_⟩
    · unfold keyCount
      rw [nodes_none hq]
      exact Nat.le_trans (hle k) (hone k)
    · rw [nodes_none hq, hconf]
      exact hhash
  · obtain ⟨hkey, hallows⟩ := hst n hq
    refine ⟨fun k => ?_, ?_⟩
    · rw [nodes_keyCount hq]
      by_cases hk : n.key = k
      · have hzero := hle k
        rw [← hk, hkey, hpool] at hzero
        rw [← hk, hkey]
        have hnode : keyWeight key n ≤ 1 := keyWeight_le
        omega
      · rw [keyWeight_eq_zero.mpr hk, Nat.zero_add]
        exact Nat.le_trans (hle k) (hone k)
    · rw [nodes_eq_cons hq, hconf]
      exact List.forall_mem_cons.mpr ⟨hallows, hhash⟩

theorem find_node_hash {isset : Bool} (h : p.KeysUnique) (hn : (p.transationFindNode key isset).stNode = some n) :
    n.key = key ∧ p.conf.hash.allows n.newhash := by
  have hfound : (p.transationFindNode key isset).KeysUnique := h.find
  have hall := hfound.hash
  rw [find_conf] at hall
  refine ⟨find_key hn, hall n ?_⟩
  rw [nodes_eq_cons hn]
  exact List.mem_cons_self

theorem KeysUnique.performed {r : CacheProcess κ ρ × CacheWork} (h : p.KeysUnique) (hd : Handled p t r)
    (ok : r.1.workKeysOk u r.2 = true) : (r.1.perform u r.2).KeysUnique := by
  rcases hd with rfl | ⟨key, w, rfl, -⟩
  · exact h
  · dsimp only at ok ⊢
    have hq : (p.transationFindNode key t.isset).KeysUnique := h.find
    have hconf : (p.transationFindNode key t.isset).conf = p.conf := find_conf
    have hkey : (p.transationFindNode key t.isset).key u = key := find_ptrKey
    have hnode := fun n => @find_node_hash κ ρ _ p key n t.isset h
    have hmiss := @find_missing κ ρ _ p key t.isset h
    generalize p.transationFindNode key t.isset = q at *
    by_cases hdone : q.stNode = none ∧ makesNode w = false
    · rw [perform_noNode hdone.1 hdone.2]
      exact hq
    · have hpool : total (keyWeight key) q.pool = 0 := by
        rcases hst : q.stNode with _ | n
        · have hw : makesNode w = true := by
            by_contra hw
            exact hdone ⟨hst, Bool.eq_false_iff.mpr hw⟩
          have hzero : q.keyCount key = 0 := by
            by_cases he : q.nodeStat = .empty
            · unfold workKeysOk at ok
              rw [hw, hkey, decide_eq_false (not_not.mpr he)] at ok
              exact beq_iff_eq.mp ok
            · exact hmiss hst he
          unfold keyCount at hzero
          rw [nodes_none hst] at hzero
          exact hzero
        · have hone := hq.one key
          rw [nodes_keyCount hst, keyWeight_self (hnode n hst).1] at hone
          omega
      refine OwnNodeOf.keysUnique (OwnNodeOf.perform ⟨rfl, List.Sublist.refl _, fun n hn => ?_⟩ ?_) hq hpool
      · rw [hconf]
        exact hnode n hn
      · rw [hkey]
        exact ⟨rfl, .inr rfl⟩

theorem replaceRawNode_nodes {rows : List (CacheRow ρ)} {lru : LruList} {allocates chunkFails : Bool} :
    (∃ n rest, p.findNode key = some (n, rest) ∧ ((p.replaceRawNode key rows lru allocates chunkFails).nodes = rest ∨
      ∃ m, m.key = n.key ∧ m.newhash = n.newhash ∧ (p.replaceRawNode key rows lru allocates chunkFails).nodes = m :: rest)) ∨
    p.findNode key = none ∧ ((p.replaceRawNode key rows lru allocates chunkFails).nodes = p.nodes ∨
      ∃ m, m.key = key ∧ m.newhash = p.conf.hash.targetNewHash ∧
        (p.replaceRawNode key rows lru allocates chunkFails).nodes = m :: p.nodes) := by
  unfold CacheProcess.replaceRawNode
  rcases p.findNode key with _ | ⟨n, rest⟩
  · refine .inr ⟨rfl, ?_⟩
    dsimp only
    by_cases ha : allocates = true
    · rw [if_pos ha]
      by_cases hc : chunkFails = true
      · rw [if_pos hc]
        split
        · exact .inr ⟨{ key := key, newhash := p.conf.hash.targetNewHash, lru := lru }, rfl, rfl, rfl⟩
        · exact .inl rfl
      · rw [if_neg hc]
        exact .inr ⟨{ key := key, newhash := p.conf.hash.targetNewHash, lru := lru, rows := rows }, rfl, rfl, rfl⟩
    · rw [if_neg ha]
      exact .inl rfl
  · refine .inl ⟨n, rest, rfl, ?_⟩
    dsimp only
    by_cases hc : chunkFails = true
    · rw [if_pos hc]
      split
      · exact .inr ⟨{ n with lru := lru }, rfl, rfl, rfl⟩
      · exact .inl rfl
    · rw [if_neg hc]
      exact .inr ⟨{ n with lru := lru, rows := rows }, rfl, rfl, rfl⟩

theorem KeysUnique.replaceRawNode {rows : List (CacheRow ρ)} {lru : LruList} {allocates chunkFails : Bool}
    (h : p.KeysUnique) : (p.replaceRawNode key rows lru allocates chunkFails).KeysUnique := by
  rcases @replaceRawNode_nodes κ ρ _ p key rows lru allocates chunkFails
    with ⟨n, rest, hf, hnodes⟩ | ⟨hf, hnodes⟩
  · refine h.of_le replaceRawNode_conf (fun w hw hplaced => Nat.le_trans ?_ (found_total hw hf))
    rcases hnodes with hnodes | ⟨m, hkey, hnew, hnodes⟩ <;> rw [hnodes]
    · exact total_sublist (List.sublist_cons_self _ _)
    · rw [total_cons, total_cons, hplaced m n hkey hnew]
  · rcases hnodes with hnodes | ⟨m, hkey, hnew, hnodes⟩
    · refine h.of_le replaceRawNode_conf (fun w _ _ => ?_)
      rw [hnodes]
    · refine ⟨fun k => ?_, ?_⟩
      · unfold keyCount
        rw [hnodes, total_cons]
        by_cases hk : m.key = k
        · have hzero : p.keyCount k = 0 := hk ▸ hkey ▸ findNode_none h.hash hf
          unfold keyCount at hzero
          rw [hzero]
          exact keyWeight_le
        · rw [keyWeight_eq_zero.mpr hk, Nat.zero_add]
          exact h.one k
      · rw [hnodes, replaceRawNode_conf]
        exact List.forall_mem_cons.mpr ⟨.inr hnew, h.hash⟩

theorem KeysUnique.step {a : CacheAction κ ρ} (h : p.KeysUnique) (ok : p.stepKeysOk a = true) :
    (p.cacheStep a).KeysUnique := by
  cases a with
  | request t => exact h.performed handled_handles ok
  | reply t => exact h.performed handled_reply ok
  | error t code => exact h.performed handled_error ok
  | replaceRaw key rows allocates chunkFails => exact h.replaceRawNode
  | migrate key rows dirty allocates chunkFails => exact h.replaceRawNode
  | configure hash =>
    refine ⟨h.one, fun n hn => ?_⟩
    rcases Bool.or_eq_true_iff.mp ok with hc | hall
    · exact .inl hc
    · exact .inr (beq_iff_eq.mp (List.all_eq_true.mp hall n hn))
  | begin | finish | batchGet | purgeClean | purgeEmpty | flushTimer | purgeKey | migrated | touch | adjustLru =>
    exact h.of_le (cacheStep_conf nofun) (fun w hw _ => plain_total hw trivial)

theorem find_decidedKey {isset : Bool} {w : CacheWork} (hw : w ≠ .none) :
    decidedKey (p.transationFindNode key isset, w) = some key := by
  unfold decidedKey transationFindNode
  dsimp only
  rw [if_neg hw]
  split
  · rfl
  · split <;> rfl

theorem OwnNodeOf.keyCount_le (h : OwnNodeOf (fun j _ => j = k) p q) (hne : k ≠ key) : q.keyCount key ≤ p.keyCount key := by
  have hpool : total (keyWeight key) q.pool ≤ total (keyWeight key) p.nodes :=
    total_sublist (h.2.1.trans (List.sublist_append_right _ _))
  rcases hq : q.stNode with _ | n
  · unfold keyCount
    rw [nodes_none hq]
    exact hpool
  · rw [nodes_keyCount hq, keyWeight_eq_zero.mpr (h.2.2 n hq ▸ hne), Nat.zero_add]
    exact hpool

theorem replaceRawNode_keyCount {rows : List (CacheRow ρ)} {lru : LruList} {allocates chunkFails : Bool} (hne : k ≠ key) :
    (p.replaceRawNode k rows lru allocates chunkFails).keyCount key ≤ p.keyCount key := by
  unfold keyCount
  rcases @replaceRawNode_nodes κ ρ _ p k rows lru allocates chunkFails
    with ⟨n, rest, hf, hnodes⟩ | ⟨-, hnodes⟩
  · refine Nat.le_trans ?_ (found_total steady_keyWeight hf)
    rcases hnodes with hnodes | ⟨m, hkey, hnew, hnodes⟩ <;> rw [hnodes]
    · exact total_sublist (List.sublist_cons_self _ _)
    · rw [total_cons, total_cons, placed_keyWeight m n hkey hnew]
  · rcases hnodes with hnodes | ⟨m, hkey, -, hnodes⟩ <;> rw [hnodes]
    rw [total_cons, keyWeight_eq_zero.mpr (hkey ▸ hne), Nat.zero_add]

theorem cacheStep_keyCount {a : CacheAction κ ρ} (hk : p.workedKey a ≠ some key) :
    (p.cacheStep a).keyCount key ≤ p.keyCount key := by
  have hperform : ∀ {t u : CacheTask κ ρ} {r : CacheProcess κ ρ × CacheWork}, Handled p t r → decidedKey r ≠ some key →
      (r.1.perform u r.2).keyCount key ≤ p.keyCount key := by
    rintro t u r (rfl | ⟨k, w, rfl, -⟩) hne
    · exact Nat.le_refl _
    · have hfound : (p.transationFindNode k t.isset).keyCount key ≤ p.keyCount key := find_total steady_keyWeight
      by_cases hw : w = .none
      · rw [hw]
        exact hfound
      · rw [find_decidedKey hw] at hne
        refine Nat.le_trans (OwnNodeOf.keyCount_le (k := k) ?_ (fun he => hne (congrArg some he))) hfound
        exact OwnNodeOf.perform ⟨rfl, List.Sublist.refl _, fun n hn => find_key hn⟩ find_ptrKey
  cases a with
  | request t => exact hperform handled_handles hk
  | reply t => exact hperform handled_reply hk
  | error t code => exact hperform handled_error hk
  | replaceRaw k rows allocates chunkFails => exact replaceRawNode_keyCount (fun he => hk (congrArg some he))
  | migrate k rows dirty allocates chunkFails => exact replaceRawNode_keyCount (fun he => hk (congrArg some he))
  | begin | finish | batchGet | purgeClean | purgeEmpty | flushTimer | purgeKey | migrated | touch | adjustLru | configure =>
    exact plain_total steady_keyWeight trivial

end Unique

/-! ## The purge -/

section Purge

variable {p q : CacheProcess κ ρ} {t : CacheTask κ ρ} {key : κ} {n : CacheNode κ ρ} {rest : List (CacheNode κ ρ)}

theorem takeOut_of_noKey {newhash : Bool} : ∀ {nodes : List (CacheNode κ ρ)}, (∀ n ∈ nodes, n.key ≠ key) →
    takeOut key newhash nodes = none
  | [], _ => rfl
  | m :: nodes, h => by
    obtain ⟨hm, hrest⟩ := List.forall_mem_cons.mp h
    unfold takeOut
    rw [if_neg (fun hc => hm hc.1), takeOut_of_noKey hrest]
    rfl

theorem cachePurge_keyCount (hn : q.stNode = some n) (hkey : n.key = key) (hhash : q.conf.hash.allows n.newhash)
    (hpool : total (keyWeight key) q.pool = 0) : (q.cachePurge key).keyCount key = 0 := by
  have hnone : takeOut key false q.pool = none :=
    takeOut_of_noKey (fun m hm => keyWeight_eq_zero.mp (total_eq_zero.mp hpool m hm))
  have hst : q.purgesStNode key = true := by
    unfold purgesStNode purgeHash holds
    rw [hn, hnone]
    dsimp only
    by_cases hc : q.conf.hash.hashChanging = true
    · rw [if_pos hc]
      cases hb : n.newhash <;> simp [hkey]
    · rw [if_neg hc]
      exact decide_eq_true ⟨hkey, hhash.resolve_left hc⟩
  unfold CacheProcess.cachePurge
  rw [if_pos hst]
  exact hpool

omit [DecidableEq κ] in
theorem cacheFlushData_ok (hn : q.stNode = some n) (hd : n.dirty = true) (hres : (q.cacheFlushData t).2 ≠ .error) :
    (q.cacheFlushData t).2 = .ok ∧ (q.conf.nodbMode || decide (dirtyRows n.rows ≤ t.completed)) = true ∨
      (q.cacheFlushData t).2 = .pending ∧ (q.conf.nodbMode || decide (dirtyRows n.rows ≤ t.completed)) = false := by
  obtain ⟨-, hrows, hinc, -, hclean⟩ := t.flushData_spec n
  unfold CacheProcess.cacheFlushData at hres ⊢
  rw [hn] at hres ⊢
  dsimp only at hres ⊢
  by_cases herr : (!(t.flushData n).ok && !q.conf.nodbMode) = true
  · rw [if_pos herr] at hres
    exact absurd rfl hres
  · rw [if_neg herr]
    dsimp only
    cases hdb : q.conf.nodbMode with
    | true => exact .inl ⟨rfl, rfl⟩
    | false =>
      have hok : (t.flushData n).ok = true := by simpa [hdb] using herr
      have hzero := hclean hd hok
      have haff : (t.flushData n).affected = dirtyRows n.rows := by omega
      rw [haff, Bool.false_or]
      by_cases hle : dirtyRows n.rows ≤ t.completed
      · exact .inl ⟨if_pos (Nat.sub_eq_zero_of_le hle), decide_eq_true hle⟩
      · exact .inr ⟨if_neg (fun hc => hle (Nat.le_of_sub_eq_zero hc)), decide_eq_false hle⟩

theorem cacheFlushData_keyCount : (q.cacheFlushData t).1.keyCount key = q.keyCount key := by
  unfold CacheProcess.cacheFlushData
  rcases hn : q.stNode with _ | n
  · rfl
  · rw [nodes_keyCount hn]
    dsimp only
    split
    · rfl
    · refine transationUpdateLRU_total.trans ?_
      unfold CacheProcess.clrDirty
      split <;> rfl

theorem cachePurgeData_keyCount (hst : q.stNode = some n) (hkey : n.key = q.key t)
    (hhash : q.conf.hash.allows n.newhash) (hpool : total (keyWeight (q.key t)) q.pool = 0)
    (hres : q.purgeDataResult t ≠ .error) :
    (q.cachePurgeData t).keyCount (q.key t) = 0 ↔ q.flushesNothing t n = false := by
  unfold purgeDataResult at hres
  unfold CacheProcess.cachePurgeData flushesNothing
  rw [hst] at hres ⊢
  dsimp only at hres ⊢
  by_cases hdirty : q.conf.updateMode ≠ .sync ∧ n.dirty = true
  · rw [if_pos hdirty] at hres ⊢
    rw [decide_eq_true hdirty.1, hdirty.2, Bool.true_and, Bool.true_and]
    rcases cacheFlushData_ok hst hdirty.2 hres with ⟨hok, hnothing⟩ | ⟨hpend, hsent⟩
    · -- the flush reports success, and the node stays
      rw [if_neg (by rw [hok]; decide), cacheFlushData_keyCount, nodes_keyCount hst, keyWeight_self hkey, hnothing]
      refine iff_of_false ?_ Bool.noConfusion
      omega
    · obtain ⟨hst', hpool', hconf', -⟩ := cacheFlushData_pending hst hdirty.2 hpend
      rw [if_pos hpend]
      exact iff_of_true (cachePurge_keyCount hst' hkey (hconf' ▸ hhash) (hpool' ▸ hpool)) hsent
  · rw [if_neg hdirty]
    refine iff_of_true (cachePurge_keyCount (q := q.incTotalRow (0 - n.rows.length)) hst hkey hhash hpool) ?_
    by_cases hmode : q.conf.updateMode = .sync
    · simp [hmode]
    · have hclean : n.dirty = false := Bool.eq_false_iff.mpr (fun hd => hdirty ⟨hmode, hd⟩)
      simp [hclean]

theorem cachePurgeData_none (hn : q.stNode = none) : q.cachePurgeData t = q := by
  unfold CacheProcess.cachePurgeData
  rw [hn]

theorem purge_keyCount (h : p.KeysUnique) (hres : (p.find t).purgeDataResult t ≠ .error) :
    ((p.find t).cachePurgeData t).keyCount t.key = 0 ↔ p.purgeOk t = true := by
  unfold purgeOk
  by_cases hfilter : (p.conf.emptyFilter && t.isset) = true
  · have hfind : (p.find t).stNode = none ∧ (p.find t).keyCount t.key = p.keyCount t.key := by
      unfold CacheProcess.find transationFindNode
      rw [if_pos hfilter]
      exact ⟨rfl, rfl⟩
    rw [if_pos hfilter, cachePurgeData_none hfind.1, hfind.2, beq_iff_eq]
  · rw [if_neg hfilter]
    rcases hf : p.findNode t.key with _ | ⟨n, rest⟩
    · have hfind : (p.find t).stNode = none ∧ (p.find t).keyCount t.key = p.keyCount t.key := by
        unfold CacheProcess.find transationFindNode
        rw [if_neg hfilter, hf]
        exact ⟨rfl, rfl⟩
      rw [cachePurgeData_none hfind.1, hfind.2]
      exact iff_of_true (findNode_none h.hash hf) rfl
    · have hfind : (p.find t).stNode = some n ∧ (p.find t).pool = rest := by
        unfold CacheProcess.find transationFindNode
        rw [if_neg hfilter, hf]
        exact ⟨rfl, rfl⟩
      have hptr : (p.find t).key t = t.key := find_ptrKey
      have hconf : (p.find t).conf = p.conf := find_conf
      have hkey : n.key = t.key := findNode_key hf
      have hrest : total (keyWeight t.key) rest = 0 := by
        have hone := h.one t.key
        rw [findNode_keyCount hf, keyWeight_self hkey] at hone
        omega
      have hnothing : (p.find t).flushesNothing t n = p.flushesNothing t n := by
        unfold flushesNothing
        rw [hconf]
      have hpurge := cachePurgeData_keyCount (t := t) hfind.1 (hkey.trans hptr.symm)
        (hconf.symm ▸ found_hash h.hash hf n List.mem_cons_self) (hptr.symm ▸ hfind.2.symm ▸ hrest) hres
      rw [hptr, hnothing] at hpurge
      rw [hpurge, Option.all_some, Bool.not_eq_true']

end Purge

end CacheProcess

open CacheProcess

theorem cacheMachine_keysUnique {κ ρ : Type} [DecidableEq κ] {p : CacheProcess κ ρ}
    (h : (cacheMachine κ ρ).ReachableMeeting (fun p a => p.stepKeysOk a = true) p) : p.KeysUnique := by
  refine Machine.reachableMeeting_induct (cacheMachine κ ρ) ?_ ?_ h
  · rintro p ⟨conf, rfl⟩
    exact ⟨fun _ => Nat.zero_le _, fun n hn => absurd hn List.not_mem_nil⟩
  · intro p a p' hp ok hst
    obtain rfl := Option.some.inj hst
    exact hp.step ok

/-- **After a purge that reports success the key has no node, and gets none until a step works on it**, exactly where the
purge meets its condition. -/
theorem cacheMachine_purges {κ ρ : Type} [DecidableEq κ] {p : CacheProcess κ ρ} {t : CacheTask κ ρ}
    (h : (cacheMachine κ ρ).ReachableMeeting (fun p a => p.stepKeysOk a = true) p)
    (hres : (p.find t).purgeDataResult t ≠ .error) :
    (∀ as q, (cacheMachine κ ρ).RunMeets (fun p a => p.workedKey a ≠ some t.key) ((p.find t).cachePurgeData t) as →
      (cacheMachine κ ρ).run ((p.find t).cachePurgeData t) as = some q → ∀ n ∈ q.nodes, n.key ≠ t.key) ↔
    p.purgeOk t = true := by
  rw [← purge_keyCount (cacheMachine_keysUnique h) hres]
  constructor
  · intro hall
    exact keyCount_eq_zero.mpr (hall [] _ trivial rfl)
  · intro hzero as q hmeets hrun
    have hstep : ∀ p a p', p.keyCount t.key = 0 → p.workedKey a ≠ some t.key → (cacheMachine κ ρ).step p a = some p' →
        p'.keyCount t.key = 0 := by
      intro p a p' hp hk hst
      obtain rfl := Option.some.inj hst
      exact Nat.eq_zero_of_le_zero (hp ▸ cacheStep_keyCount hk)
    exact keyCount_eq_zero.mp ((cacheMachine κ ρ).run_preserves hstep as _ q hzero hmeets hrun)

/-- A node with a dirty row is flushed and discarded, and another key's node is none of this one. -/
theorem cacheMachine_purges_mixedRun : ∃ p q, (cacheMachine Nat Nat).run { conf := asyncConf } mixedRun = some p ∧
    p.keyCount 1 = 1 ∧ (p.find (numberTask .purge)).purgeDataResult (numberTask .purge) = .pending ∧
    (cacheMachine Nat Nat).run ((p.find (numberTask .purge)).cachePurgeData (numberTask .purge))
      [.finish, .begin, .reply { numberTask .get with key := 2, result := [3] }, .finish] = some q ∧
    q.nodes ≠ [] ∧ ∀ n ∈ q.nodes, n.key ≠ 1 := by
  have hrun : ((cacheMachine Nat Nat).run { conf := asyncConf } mixedRun).map (fun p =>
      (p.keyCount 1, (p.find (numberTask .purge)).purgeDataResult (numberTask .purge), p.purgeOk (numberTask .purge),
        decide ((cacheMachine Nat Nat).RunMeets (fun p a => p.workedKey a ≠ some 1)
          ((p.find (numberTask .purge)).cachePurgeData (numberTask .purge))
          [.finish, .begin, .reply { numberTask .get with key := 2, result := [3] }, .finish]),
        ((cacheMachine Nat Nat).run ((p.find (numberTask .purge)).cachePurgeData (numberTask .purge))
          [.finish, .begin, .reply { numberTask .get with key := 2, result := [3] }, .finish]).map (·.nodes.length))) =
      some (1, .pending, true, true, some 1) := by decide
  obtain ⟨p, hp, he⟩ := Option.map_eq_some_iff.mp hrun
  obtain ⟨hone, he⟩ := Prod.mk.inj he
  obtain ⟨hpend, he⟩ := Prod.mk.inj he
  obtain ⟨hok, he⟩ := Prod.mk.inj he
  obtain ⟨hmeets, hlen⟩ := Prod.mk.inj he
  obtain ⟨q, hq, hlen⟩ := Option.map_eq_some_iff.mp hlen
  have hkeys : (cacheMachine Nat Nat).RunMeets (fun p a => p.stepKeysOk a = true) { conf := asyncConf } mixedRun := by
    decide
  have hpurge := cacheMachine_purges (t := numberTask .purge) ⟨_, _, ⟨_, rfl⟩, hkeys, hp⟩ (by rw [hpend]; decide)
  refine ⟨p, q, hp, hone, hpend, hq, ?_, hpurge.mpr hok _ q (of_decide_eq_true hmeets) hq⟩
  intro hnil
  rw [hnil] at hlen
  cases hlen

/-- `cache_replace_raw_data` stores a clean row in a node that was dirty: the purge of the key reports success, and the node
stays. -/
theorem cacheMachine_purge_replaceRaw : ∃ p, (cacheMachine Nat Nat).Reachable p ∧
    (p.find (numberTask .purge)).purgeDataResult (numberTask .purge) = .ok ∧
    ((p.find (numberTask .purge)).cachePurgeData (numberTask .purge)).nodes.map (fun n => (n.key, n.rows.map (·.value))) =
      [(1, [7])] := by
  have hrun : ((cacheMachine Nat Nat).run { conf := asyncConf } (mixedRun ++ [.replaceRaw 1 [⟨false, 7⟩] true false])).map
      (fun p => ((p.find (numberTask .purge)).purgeDataResult (numberTask .purge),
        ((p.find (numberTask .purge)).cachePurgeData (numberTask .purge)).nodes.map (fun n => (n.key, n.rows.map (·.value))))) =
      some (.ok, [(1, [7])]) := by decide
  obtain ⟨p, hp, he⟩ := Option.map_eq_some_iff.mp hrun
  obtain ⟨hok, hnodes⟩ := Prod.mk.inj he
  exact ⟨p, ⟨_, _, ⟨_, rfl⟩, hp⟩, hok, hnodes⟩

end Dtc
