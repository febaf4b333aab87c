import DtcServer.NcPoolSpec
import Mathlib.Data.List.Perm.Subperm
/-!
# NcPoolMoves — how the slots of the client's pool move

One lemma for each way a slot moves: it is added, scheduled, sent, finished or collected.  The handlers of the connections
are made of these moves and of changes that touch no slot.
-/
namespace Dtc
namespace NCPool

variable {s s' s'' : NCPool} {t u c i n : Nat} {l : PoolList} {x : NCTransation} {err : Int} {r : NCResult}

theorem Inv.of_conns (I : s.Inv) (hT : s'.transList = s.transList) (hL : s'.lists = s.lists)
    (hmax : s'.maxRequests = s.maxRequests) (hnum : s'.numRequests = s.numRequests) (hissued : s'.issued = s.issued)
    (hhist : s'.history = s.history) (hcoll : s'.collected = s.collected)
    (hserver : ∀ c i, s.connServer c = some i → (∃ u, u < s.maxRequests ∧ (s.transList u).conn = some c) →
      s'.connServer c = some i)
    (hsreq : ∀ c, s'.sreqOf c = s.sreqOf c) (hidle : s'.IdleOk) : s'.Inv := by
  refine ⟨⟨I.wired.lists.of_eq hL (fun u => by rw [hT]), fun u hu => ?_, fun u hu => ?_, fun c u hu => ?_, ?_⟩, hidle,
    ⟨fun u v m hu hv => ?_, fun u m hu => ?_, fun m hm => ?_, fun m => ?_, ?_, fun e he => ?_⟩, hmax ▸ I.size⟩
  · have hf := I.wired.slots u (hmax ▸ hu)
    rw [Fits] at hf ⊢
    rw [hT]
    cases hst : (s.transList u).state with
    | idle =>
      rw [hst] at hf
      exact hf
    | wait =>
      rw [hst] at hf
      exact hf
    | send =>
      rw [hst] at hf
      obtain ⟨h1, h2, h3, i, c, h4, h5, h6, h7⟩ := hf
      exact ⟨h1, h2, h3, i, c, h4, h5, hserver c i h6 ⟨u, hmax ▸ hu, h5⟩, (hsreq c).trans h7⟩
    | recv =>
      rw [hst] at hf
      obtain ⟨h1, h2, i, c, h4, h5, h6, h7⟩ := hf
      exact ⟨h1, h2, i, c, h4, h5, hserver c i h6 ⟨u, hmax ▸ hu, h5⟩, h7⟩
    | done =>
      rw [hst] at hf
      exact hf
  · rw [hT]
    exact I.wired.beyond u (hmax ▸ hu)
  · rw [hT, hmax]
    exact I.wired.sreq c u ((hsreq c).symm.trans hu)
  · rw [hL, hnum, hmax]
    exact I.wired.free
  · rw [hT] at hu hv
    exact I.booked.inj u v m hu hv
  · rw [hT] at hu
    obtain ⟨q, h1, h2, h3, h4, h5, h6, h7⟩ := I.booked.slot u m hu
    refine ⟨q, ?_⟩
    rw [hT, hissued, hmax, hhist, maxRequestId, hmax]
    exact ⟨h1, h2, h3, h4, h5, h6, h7⟩
  · rw [hhist, hissued]
    exact I.booked.gone m (fun u => by rw [← hT]; exact hm u)
  · rw [hcoll, hhist]
    exact I.booked.taken m
  · rw [hcoll]
    exact I.booked.once
  · rw [hcoll] at he
    rw [hissued]
    exact I.booked.entry e he

/-- The slot `t` with the result `r` enters `doneList`; a connection that was sending it does not any more. -/
structure Finishes (s s' : NCPool) (t : Nat) (r : NCResult) : Prop where
  trans : s'.transList = Function.update s.transList t { s.transList t with
    conn := none, link := some .done, server := none, result := some r, state := .done }
  lists : s'.ListsOk
  free : s'.lists .free = s.lists .free
  history : ∀ n, (s.transList t).packet = some n → s'.history = (n, .finish) :: s.history
  server : ∀ c, s'.connServer c = s.connServer c
  sreq : ∀ c, s'.sreqOf c = if s.sreqOf c = some t then none else s.sreqOf c
  idle : ∀ i, (s'.serverList i).idleList = (s.serverList i).idleList
  max : s'.maxRequests = s.maxRequests
  issued : s'.issued = s.issued
  collected : s'.collected = s.collected
  numRequests : s'.numRequests = s.numRequests

theorem IdleOk.of_eq (h : s.IdleOk) (hserver : ∀ c, s'.connServer c = s.connServer c)
    (hidle : ∀ i, (s'.serverList i).idleList = (s.serverList i).idleList) : s'.IdleOk :=
  ⟨fun i c hc => (hserver c).trans (h.conn i c (hidle i ▸ hc)), fun i => hidle i ▸ h.nodup i⟩

def Opened (x : NCTransation) : Prop := x.state = .wait ∨ x.state = .send ∨ x.state = .recv

theorem Inv.packet (I : s.Inv) (ht : t < s.maxRequests) (hst : (s.transList t).state ≠ .idle) :
    ∃ n, (s.transList t).packet = some n := by
  have hf := I.wired.slots t ht
  rw [Fits] at hf
  have hne : (s.transList t).packet ≠ none := by
    cases h : (s.transList t).state with
    | idle => exact absurd h hst
    | wait =>
      rw [h] at hf
      exact hf.1
    | send =>
      rw [h] at hf
      exact hf.1
    | recv =>
      rw [h] at hf
      exact hf.1
    | done =>
      rw [h] at hf
      exact hf.1
  exact Option.ne_none_iff_exists'.mp hne

theorem Opened.ne (h : Opened x) : x.state ≠ .idle ∧ x.state ≠ .done := by
  rcases h with h | h | h
  · rw [h]
    exact ⟨TransState.noConfusion, TransState.noConfusion⟩
  · rw [h]
    exact ⟨TransState.noConfusion, TransState.noConfusion⟩
  · rw [h]
    exact ⟨TransState.noConfusion, TransState.noConfusion⟩

theorem Inv.finishes (I : s.Inv) (ht : t < s.maxRequests) (hopen : Opened (s.transList t)) (h : Finishes s s' t r)
    (hr : ∀ k, r = .arrived k → k = (s.transList t).sn) : s'.Inv := by
  obtain ⟨n, hn⟩ := I.packet ht hopen.ne.1
  have hself := congrFun h.trans t
  rw [Function.update_self] at hself
  have hother : ∀ u, u ≠ t → s'.transList u = s.transList u := by
    intro u hu
    rw [h.trans, Function.update_of_ne hu]
  refine ⟨I.wired.move ht h.lists h.max hother (fun c i hc => (h.server c).trans hc) (fun c u hu => ?_)
    (fun c hc => ?_) ?_ ?_,
    I.idle.of_eq h.server h.idle, I.booked.move hn ?_ hother h.max h.issued h.collected (fun m hm => ?_) ?_, h.max ▸ I.size⟩
  · rw [h.sreq]
    split
    · next hc =>
      rw [hc]
      exact ⟨fun h => (by cases h), fun h => absurd (Option.some.inj h).symm hu⟩
    · exact Iff.rfl
  · rw [h.sreq] at hc
    split at hc
    · cases hc
    · next hne => exact absurd hc hne
  · rw [Fits, hself]
    have hpacket : (s.transList t).packet ≠ none := by
      rw [hn]
      exact Option.some_ne_none n
    exact ⟨hpacket, rfl, rfl, Option.some_ne_none r⟩
  · rw [h.free, h.numRequests, h.max]
    exact I.wired.free
  · rw [hself]
    exact hn
  · rw [h.history n hn, reqLife_ne _ hm]
  · obtain ⟨q, h1, h2, h3, h4, h5, -, h7⟩ := I.booked.slot t n hn
    refine ⟨q, ?_⟩
    rw [hself, h.issued, h.max, h.history n hn, maxRequestId, h.max, reqLife_self, h7, if_neg hopen.ne.2]
    exact ⟨h1, h2, h3, h4, h5, fun k hk => hr k (Option.some.inj hk), rfl⟩

theorem sreqOf_ne (I : s.Inv) (hst : (s.transList t).state ≠ .send) (c : Nat) : s.sreqOf c ≠ some t :=
  fun h => hst (I.wired.sreq c t h).2.1

theorem finishes_abort (L : s.ListsOk) (hs : (s.transList t).server = some i)
    (hlink : (s.transList t).link ≠ some .free)
    (hr : (if err = 0 then (s.transList t).result else some (.aborted err)) = some r)
    (hsreq : ∀ c, s.sreqOf c ≠ some t) : Finishes s (s.abort t err) t r := by
  have hq := abort_quiet s t err
  refine ⟨?_, L.abort t err, abort_list_ne PoolList.noConfusion hlink,
    fun n hn => abort_history hs hn, fun c => ?_, fun c => ?_,
    hq.idle, hq.max, hq.issued, hq.collected, hq.numRequests⟩
  · rw [abort_trans hs, finished, hr]
  · rw [connServer, connServer, hq.conns]
  · rw [if_neg (hsreq c), sreqOf, sreqOf, hq.conns]

theorem Inv.waiting (I : s.Inv) (ht : t < s.maxRequests)
    (hst : (s.transList t).state = .wait ∨ (s.transList t).state = .recv) :
    (∃ i, (s.transList t).server = some i) ∧ (s.transList t).link ≠ some .free := by
  have hf := I.wired.slots t ht
  rw [Fits] at hf
  rcases hst with hst | hst
  · rw [hst] at hf
    obtain ⟨-, -, -, i, h1, h2⟩ := hf
    exact ⟨⟨i, h1⟩, fun h => by rw [h2] at h; cases h⟩
  · rw [hst] at hf
    obtain ⟨-, -, i, c, h1, -, -, h2⟩ := hf
    exact ⟨⟨i, h1⟩, fun h => by rw [h2] at h; cases h⟩

theorem Inv.abort (I : s.Inv) (ht : t < s.maxRequests)
    (hst : (s.transList t).state = .wait ∨ (s.transList t).state = .recv) (herr : err ≠ 0) : (s.abort t err).Inv := by
  obtain ⟨⟨i, hs⟩, hlink⟩ := I.waiting ht hst
  have hopen : Opened (s.transList t) := hst.elim .inl (fun h => .inr (.inr h))
  have hne : (s.transList t).state ≠ .send := by
    rcases hst with h | h
    · rw [h]
      exact TransState.noConfusion
    · rw [h]
      exact TransState.noConfusion
  exact I.finishes ht hopen (finishes_abort I.wired.lists hs hlink (if_neg herr) (sreqOf_ne I hne)) (fun k hk => by cases hk)

/-- What the aborts on a connection leave alone. -/
structure Kept (s s' : NCPool) : Prop where
  server : ∀ c, s'.connServer c = s.connServer c
  idle : ∀ i, (s'.serverList i).idleList = (s.serverList i).idleList
  mode : ∀ i, (s'.serverList i).mode = (s.serverList i).mode
  max : s'.maxRequests = s.maxRequests

theorem Kept.refl (s : NCPool) : Kept s s := ⟨fun _ => rfl, fun _ => rfl, fun _ => rfl, rfl⟩

theorem Kept.trans (h : Kept s s') (h' : Kept s' s'') : Kept s s'' :=
  ⟨fun c => (h'.server c).trans (h.server c), fun i => (h'.idle i).trans (h.idle i),
    fun i => (h'.mode i).trans (h.mode i), h'.max.trans h.max⟩

theorem Quiet.kept (h : Quiet s s') : Kept s s' :=
  ⟨fun c => by rw [connServer, connServer, h.conns], h.idle, h.mode, h.max⟩

theorem setSreq_eq {y : NCConnection} {o : Option Nat} (h : s.conns c = some y) :
    s.setSreq c o = s.setConn c { y with sreq := o } := by
  unfold setSreq
  rw [h]

theorem connServer_setConn (s : NCPool) (c d : Nat) (y : NCConnection) :
    (s.setConn c y).connServer d = if d = c then some y.serverInfo else s.connServer d := by
  show (Function.update s.conns c (some y) d).map _ = _
  rw [Function.update_apply]
  split <;> rfl

theorem sreqOf_setConn (s : NCPool) (c d : Nat) (y : NCConnection) :
    (s.setConn c y).sreqOf d = if d = c then y.sreq else s.sreqOf d := by
  show (Function.update s.conns c (some y) d).bind _ = _
  rw [Function.update_apply]
  split <;> rfl

theorem exists_of_sreqOf (h : s.sreqOf c = some t) : ∃ y, s.conns c = some y ∧ y.sreq = some t :=
  Option.bind_eq_some_iff.mp h

theorem connServer_some {y : NCConnection} (h : s.conns c = some y) : s.connServer c = some y.serverInfo := by
  rw [connServer, h]
  rfl

theorem abortSreq_eq {y : NCConnection} (h : s.conns c = some y) (ht : y.sreq = some t) :
    s.abortSreq c err = (s.abort t err).setConn c { y with sreq := none } := by
  have hsreq : (s.conns c).bind (fun x => x.sreq) = some t := by
    rw [h]
    exact ht
  unfold abortSreq
  rw [hsreq]
  exact setSreq_eq (by rw [(abort_quiet s t err).conns]; exact h)

theorem abortSreq_none (h : s.sreqOf c = none) : s.abortSreq c err = s := by
  unfold abortSreq
  rw [show (s.conns c).bind _ = none from h]

theorem abortSreq_kept (s : NCPool) (c : Nat) (err : Int) : Kept s (s.abortSreq c err) := by
  cases h : s.sreqOf c with
  | none =>
    rw [abortSreq_none h]
    exact Kept.refl s
  | some t =>
    obtain ⟨y, hy, hyt⟩ := exists_of_sreqOf h
    rw [abortSreq_eq hy hyt]
    have hq := (abort_quiet s t err).kept
    refine hq.trans ⟨fun d => ?_, fun _ => rfl, fun _ => rfl, rfl⟩
    rw [connServer_setConn]
    split
    · next hd => rw [hd, hq.server, connServer_some hy]
    · rfl

theorem Inv.abortSreq (I : s.Inv) (c : Nat) (herr : err ≠ 0) :
    (s.abortSreq c err).Inv ∧ (s.abortSreq c err).sreqOf c = none := by
  cases h : s.sreqOf c with
  | none =>
    rw [abortSreq_none h]
    exact ⟨I, h⟩
  | some t =>
    obtain ⟨y, hy, hyt⟩ := exists_of_sreqOf h
    obtain ⟨ht, hst, hconn⟩ := I.wired.sreq c t h
    have hf := I.wired.slots t ht
    rw [Fits, hst] at hf
    obtain ⟨-, hlink, -, i, -, hs, -⟩ := hf
    have hq := abort_quiet s t err
    have hkept := abortSreq_kept s c err
    have hfin : Finishes s (s.abortSreq c err) t (.aborted err) := by
      refine ⟨?_, ?_, ?_, fun n hn => ?_, hkept.server, fun d => ?_, hkept.idle, hkept.max, ?_, ?_, ?_⟩
      · rw [abortSreq_eq hy hyt]
        show (s.abort t err).transList = _
        rw [abort_trans hs, finished, if_neg herr]
      · rw [abortSreq_eq hy hyt]
        exact (I.wired.lists.abort t err).of_eq rfl (fun _ => rfl)
      · rw [abortSreq_eq hy hyt]
        refine abort_list_ne PoolList.noConfusion ?_
        rw [hlink]
        exact fun h => by cases h
      · rw [abortSreq_eq hy hyt]
        exact abort_history hs hn
      · rw [abortSreq_eq hy hyt, sreqOf_setConn]
        by_cases hd : d = c
        · rw [if_pos hd, if_pos (hd ▸ h)]
        · have hne : s.sreqOf d ≠ some t := by
            intro hdt
            have hconn' := (I.wired.sreq d t hdt).2.2
            rw [hconn] at hconn'
            exact hd (Option.some.inj hconn').symm
          rw [if_neg hd, if_neg hne, sreqOf, sreqOf, hq.conns]
      · rw [abortSreq_eq hy hyt]
        exact hq.issued
      · rw [abortSreq_eq hy hyt]
        exact hq.collected
      · rw [abortSreq_eq hy hyt]
        exact hq.numRequests
    refine ⟨I.finishes ht (.inr (.inl hst)) hfin (fun k hk => by cases hk), ?_⟩
    rw [hfin.sreq, if_pos h]

theorem Inv.lt_of_link (I : s.Inv) (h : (s.transList t).link = some l) : t < s.maxRequests := by
  by_contra hge
  rw [(I.wired.beyond t (Nat.not_lt.mp hge)).1] at h
  cases h

theorem Inv.state_of_link (I : s.Inv) (h : (s.transList t).link = some l) :
    (∀ c, l = .conn c → (s.transList t).state = .recv ∧ (s.transList t).conn = some c) ∧
      (∀ i, l = .server i → (s.transList t).state = .wait ∧ (s.transList t).server = some i) := by
  have hf := I.wired.slots t (I.lt_of_link h)
  rw [Fits] at hf
  cases hst : (s.transList t).state with
  | idle =>
    rw [hst] at hf
    obtain rfl := Option.some.inj (h.symm.trans hf.1)
    exact ⟨fun _ h => (by cases h), fun _ h => (by cases h)⟩
  | wait =>
    rw [hst] at hf
    obtain ⟨-, -, -, i, hs, hl⟩ := hf
    obtain rfl := Option.some.inj (h.symm.trans hl)
    refine ⟨fun _ h => (by cases h), fun j hj => ⟨rfl, ?_⟩⟩
    rw [hs, PoolList.server.inj hj]
  | send =>
    rw [hst] at hf
    rw [hf.2.1] at h
    cases h
  | recv =>
    rw [hst] at hf
    obtain ⟨-, -, i, c, -, hc, -, hl⟩ := hf
    obtain rfl := Option.some.inj (h.symm.trans hl)
    refine ⟨fun d hd => ⟨rfl, ?_⟩, fun _ h => by cases h⟩
    rw [hc, PoolList.conn.inj hd]
  | done =>
    rw [hst] at hf
    obtain rfl := Option.some.inj (h.symm.trans hf.2.1)
    exact ⟨fun _ h => (by cases h), fun _ h => (by cases h)⟩

theorem Inv.abortList (herr : err ≠ 0) (hl : (∃ c, l = .conn c) ∨ ∃ i, l = .server i) :
    ∀ (ts : List Nat) (s : NCPool), s.Inv → ts.Nodup → (∀ t ∈ ts, (s.transList t).link = some l) →
      (ts.foldl (fun s t => s.abort t err) s).Inv ∧ Quiet s (ts.foldl (fun s t => s.abort t err) s) ∧
        ∀ u, ((ts.foldl (fun s t => s.abort t err) s).transList u).link = some l →
          u ∉ ts ∧ (s.transList u).link = some l
  | [], s, I, _, _ => ⟨I, Quiet.refl s, fun _ hu => ⟨List.not_mem_nil, hu⟩⟩
  | t :: ts, s, I, hnd, hlink => by
    have ht := hlink t (List.mem_cons_self ..)
    have hst : (s.transList t).state = .wait ∨ (s.transList t).state = .recv := by
      rcases hl with ⟨c, rfl⟩ | ⟨i, rfl⟩
      · exact .inr ((I.state_of_link ht).1 c rfl).1
      · exact .inl ((I.state_of_link ht).2 i rfl).1
    obtain ⟨⟨i, hs⟩, -⟩ := I.waiting (I.lt_of_link ht) hst
    have I' := I.abort (I.lt_of_link ht) hst herr
    have htrans : (s.abort t err).transList = _ := abort_trans hs
    have hnd' := List.nodup_cons.mp hnd
    obtain ⟨I2, hq, hrest⟩ := Inv.abortList herr hl ts (s.abort t err) I' hnd'.2 (fun u hu => by
      have hut : u ≠ t := fun he => hnd'.1 (he ▸ hu)
      rw [htrans, Function.update_of_ne hut]
      exact hlink u (List.mem_cons_of_mem _ hu))
    refine ⟨I2, (abort_quiet s t err).trans hq, fun u hu => ?_⟩
    obtain ⟨hnot, hlu⟩ := hrest u hu
    by_cases hut : u = t
    · subst hut
      rw [htrans, Function.update_self] at hlu
      have hdone : some PoolList.done = some l := hlu
      rcases hl with ⟨c, rfl⟩ | ⟨i, rfl⟩
      · cases hdone
      · cases hdone
    · rw [htrans, Function.update_of_ne hut] at hlu
      exact ⟨fun hm => (List.mem_cons.mp hm).elim hut hnot, hlu⟩

theorem Inv.abortRequests (I : s.Inv) (c : Nat) (herr : err ≠ 0) :
    (s.abortRequests c err).Inv ∧ Kept s (s.abortRequests c err) ∧ (s.abortRequests c err).sreqOf c = none ∧
      (s.abortRequests c err).lists (.conn c) = [] := by
  obtain ⟨I1, hnone⟩ := I.abortSreq c herr
  have hk := abortSreq_kept s c err
  obtain ⟨I2, hq, hrest⟩ := Inv.abortList herr (.inl ⟨c, rfl⟩) ((s.abortSreq c err).lists (.conn c)) (s.abortSreq c err) I1
    (I1.wired.lists.nodup _) (fun t ht => (I1.wired.lists.mem _ t).mp ht)
  refine ⟨I2, hk.trans hq.kept, ?_, ?_⟩
  · show sreqOf _ c = none
    rw [← hnone, sreqOf, sreqOf]
    exact congrArg (fun f => Option.bind (f c) _) hq.conns
  · rw [List.eq_nil_iff_forall_not_mem]
    intro u hu
    obtain ⟨hnot, hl⟩ := hrest u ((I2.wired.lists.mem _ u).mp hu)
    exact hnot ((I1.wired.lists.mem _ u).mpr hl)

theorem setServer_idle (s : NCPool) (i j : Nat) (v : NCServerInfo) :
    ((s.setServer i v).serverList j).idleList = if j = i then v.idleList else (s.serverList j).idleList := by
  show (Function.update s.serverList i v j).idleList = _
  rw [Function.update_apply]
  split <;> rfl

theorem IdleOk.setServer (h : s.IdleOk) {v : NCServerInfo} (hc : ∀ c ∈ v.idleList, s.connServer c = some i)
    (hnd : v.idleList.Nodup) : (s.setServer i v).IdleOk := by
  refine ⟨fun j c hj => ?_, fun j => ?_⟩
  · rw [setServer_idle] at hj
    split at hj
    · next hji =>
      rw [hji]
      exact hc c hj
    · exact h.conn j c hj
  · rw [setServer_idle]
    split
    · exact hnd
    · exact h.nodup j

theorem Inv.setServer (I : s.Inv) {v : NCServerInfo} (hc : ∀ c ∈ v.idleList, s.connServer c = some i)
    (hnd : v.idleList.Nodup) : (s.setServer i v).Inv :=
  I.of_conns rfl rfl rfl rfl rfl rfl rfl (fun _ _ h _ => h) (fun _ => rfl) (I.idle.setServer hc hnd)

theorem Inv.setCounters (I : s.Inv) {v : NCServerInfo} (hv : v.idleList = (s.serverList i).idleList) :
    (s.setServer i v).Inv := by
  refine I.setServer (fun c hc => ?_) ?_
  · rw [hv] at hc
    exact I.idle.conn i c hc
  · rw [hv]
    exact I.idle.nodup i

theorem dropConn_idle (v : NCServerInfo) (c : Nat) : (dropConn v c).idleList = v.idleList.erase c := rfl

theorem Inv.forget (I : s.Inv) (hsreq : s.sreqOf c = none) (hlist : s.lists (.conn c) = [])
    (hidle : ∀ i, c ∉ (s.serverList i).idleList) : Inv { s with conns := Function.update s.conns c none } := by
  have hserver : ∀ d, d ≠ c → connServer { s with conns := Function.update s.conns c none } d = s.connServer d := by
    intro d hd
    show (Function.update s.conns c none d).map _ = _
    rw [Function.update_of_ne hd]
    rfl
  refine I.of_conns rfl rfl rfl rfl rfl rfl rfl (fun d i hd hu => ?_) (fun d => ?_) ⟨fun i d hd => ?_, I.idle.nodup⟩
  · rw [hserver d ?_, hd]
    rintro rfl
    obtain ⟨u, hlt, hu⟩ := hu
    -- a slot with this connection would be in its list, or be sent on it
    have hf := I.wired.slots u hlt
    rw [Fits] at hf
    cases hst : (s.transList u).state with
    | idle =>
      rw [hst] at hf
      rw [hf.2.2.2.1] at hu
      cases hu
    | wait =>
      rw [hst] at hf
      rw [hf.2.1] at hu
      cases hu
    | send =>
      rw [hst] at hf
      obtain ⟨-, -, -, i, e, -, he, -, hs⟩ := hf
      obtain rfl := Option.some.inj (hu.symm.trans he)
      rw [hsreq] at hs
      cases hs
    | recv =>
      rw [hst] at hf
      obtain ⟨-, -, i, e, -, he, -, hl⟩ := hf
      obtain rfl := Option.some.inj (hu.symm.trans he)
      have hm := (I.wired.lists.mem _ u).mpr hl
      rw [hlist] at hm
      exact absurd hm List.not_mem_nil
    | done =>
      rw [hst] at hf
      rw [hf.2.2.1] at hu
      cases hu
  · by_cases hd : d = c
    · subst hd
      show (Function.update s.conns d none d).bind _ = _
      rw [Function.update_self, hsreq]
      rfl
    · show (Function.update s.conns c none d).bind _ = _
      rw [Function.update_of_ne hd]
      rfl
  · rw [hserver d (fun he => hidle i (he ▸ hd))]
    exact I.idle.conn i d hd

theorem Inv.setConn (I : s.Inv) {y z : NCConnection} (hy : s.conns c = some y) (hserver : z.serverInfo = y.serverInfo)
    (hsreq : z.sreq = y.sreq) : (s.setConn c z).Inv := by
  have hs : ∀ d, (s.setConn c z).connServer d = s.connServer d := by
    intro d
    rw [connServer_setConn]
    split
    · next hd => rw [hd, hserver, connServer_some hy]
    · rfl
  refine I.of_conns rfl rfl rfl rfl rfl rfl rfl (fun d i hd _ => (hs d).trans hd) (fun d => ?_)
    (I.idle.of_eq hs (fun _ => rfl))
  rw [sreqOf_setConn]
  split
  · next hd =>
    rw [hd, hsreq, sreqOf, hy]
    rfl
  · rfl

theorem Inv.dropIdle (I : s.Inv) {v : NCServerInfo} (hv : v.idleList = (s.serverList i).idleList.erase c) :
    (s.setServer i v).Inv := by
  refine I.setServer (fun d hd => ?_) ?_
  · rw [hv] at hd
    exact I.idle.conn i d (List.mem_of_mem_erase hd)
  · rw [hv]
    exact (I.idle.nodup i).erase c

theorem Inv.deleteConn (I : s.Inv) (c : Nat) : (s.deleteConn c).Inv := by
  unfold NCPool.deleteConn
  split
  · exact I
  · next y hy =>
    dsimp only
    generalize hv : (if y.state = .connecting then
      { s.serverList y.serverInfo with connConnecting := (s.serverList y.serverInfo).connConnecting - 1 }
      else s.serverList y.serverInfo) = v
    have hvi : (dropConn v c).idleList = (s.serverList y.serverInfo).idleList.erase c := by
      rw [dropConn_idle, ← hv]
      split <;> rfl
    have I1 : (s.setServer y.serverInfo (dropConn v c)).Inv := I.dropIdle hvi
    have herr : -ecRequestAborted ≠ 0 := by decide
    obtain ⟨I2, hk, hsreq, hlist⟩ := I1.abortRequests c herr
    apply Inv.forget
    · exact I2.setCounters rfl
    · exact hsreq
    · exact hlist
    · intro j hj
      rw [setServer_idle] at hj
      have hj' : c ∈ ((s.setServer y.serverInfo (dropConn v c)).serverList j).idleList := by
        rw [← hk.idle j]
        split at hj
        · next h =>
          rw [h]
          exact hj
        · exact hj
      rw [setServer_idle] at hj'
      split at hj'
      · rw [hvi] at hj'
        exact (I.idle.nodup _).not_mem_erase hj'
      · next hne =>
        have hc := I.idle.conn j c hj'
        rw [connServer_some hy] at hc
        exact hne (Option.some.inj hc).symm

theorem Inv.close (I : s.Inv) (c : Nat) (herr : err ≠ 0) : (s.close c err).Inv := by
  unfold NCPool.close
  dsimp only
  split
  · exact (I.abortRequests c herr).1
  · exact (I.abortRequests c herr).1.deleteConn c

theorem Inv.abortSendSide (I : s.Inv) (c : Nat) (herr : err ≠ 0) : (s.abortSendSide c err).Inv := by
  have I1 := (I.abortSreq c herr).1
  unfold NCPool.abortSendSide
  dsimp only
  split
  · exact I1.close c herr
  · split
    · exact I1
    · next y hy =>
      have I2 : Inv ((s.abortSreq c err).setServer y.serverInfo
          { dropConn ((s.abortSreq c err).serverList y.serverInfo) c with
            busyList := c :: (dropConn ((s.abortSreq c err).serverList y.serverInfo) c).busyList }) := I1.dropIdle rfl
      exact I2.setConn hy rfl rfl

theorem Inv.switchToIdle (I : s.Inv) (c : Nat) : (s.switchToIdle c).Inv := by
  unfold NCPool.switchToIdle
  split
  · exact I
  · next y hy =>
    dsimp only
    generalize hv : (if y.state = .connecting then
      { dropConn (s.serverList y.serverInfo) c with
        connConnecting := (dropConn (s.serverList y.serverInfo) c).connConnecting - 1 }
      else dropConn (s.serverList y.serverInfo) c) = v
    have hvi : v.idleList = (s.serverList y.serverInfo).idleList.erase c := by
      rw [← hv]
      split <;> rfl
    have I1 : (s.setServer y.serverInfo { v with idleList := c :: v.idleList }).Inv := by
      refine I.setServer (fun d hd => ?_) ?_
      · rcases List.mem_cons.mp hd with rfl | hd
        · exact connServer_some hy
        · rw [hvi] at hd
          exact I.idle.conn _ d (List.mem_of_mem_erase hd)
      · show (c :: v.idleList).Nodup
        rw [hvi]
        exact List.nodup_cons.mpr ⟨(I.idle.nodup _).not_mem_erase, (I.idle.nodup _).erase c⟩
    exact I1.setConn hy rfl rfl

theorem Inv.sendOK (I : s.Inv) {y : NCConnection} (hy : s.conns c = some y) (ht : y.sreq = some t) :
    (s.sendOK c t y).Inv := by
  have hsr : s.sreqOf c = some t := by
    rw [sreqOf, hy]
    exact ht
  obtain ⟨hlt, hst, hconn⟩ := I.wired.sreq c t hsr
  have hf := I.wired.slots t hlt
  rw [Fits, hst] at hf
  obtain ⟨hp, hlink, hres, i, d, hs, hd, hcs, -⟩ := hf
  obtain rfl := Option.some.inj (hconn.symm.trans hd)
  obtain ⟨n, hn⟩ := Option.ne_none_iff_exists'.mp hp
  -- the slot is put into the list of the connection, which is sending nothing then
  have I1 : Inv (((s.setTrans t { s.transList t with state := .recv }).listAddTail t (.conn c)).setConn c
      { y with sreq := none }) := by
    have htrans : (((s.setTrans t { s.transList t with state := .recv }).listAddTail t (.conn c)).setConn c
        { y with sreq := none }).transList =
        Function.update s.transList t { s.transList t with state := .recv, link := some (.conn c) } := by
      show Function.update (Function.update s.transList t _) t { Function.update s.transList t _ t with link := _ } = _
      rw [Function.update_idem, Function.update_self]
    have hself := congrFun htrans t
    rw [Function.update_self] at hself
    have hother : ∀ u, u ≠ t → (((s.setTrans t { s.transList t with state := .recv }).listAddTail t (.conn c)).setConn c
        { y with sreq := none }).transList u = s.transList u := by
      intro u hu
      rw [htrans, Function.update_of_ne hu]
    have hserver : ∀ d, (((s.setTrans t { s.transList t with state := .recv }).listAddTail t (.conn c)).setConn c
        { y with sreq := none }).connServer d = s.connServer d := by
      intro d
      rw [connServer_setConn]
      split
      · next hd => rw [hd, connServer_some hy]
      · rfl
    have hlists : (((s.setTrans t { s.transList t with state := .recv }).listAddTail t (.conn c)).setConn c
        { y with sreq := none }).ListsOk := by
      have h1 : (s.setTrans t { s.transList t with state := .recv }).ListsOk := I.wired.lists.setTrans rfl
      refine (h1.listAddTail ?_ (.conn c)).of_eq rfl (fun _ => rfl)
      show (Function.update s.transList t _ t).link = none
      rw [Function.update_self]
      exact hlink
    refine ⟨I.wired.move hlt hlists rfl hother (fun d i hd => (hserver d).trans hd) (fun d u hu => ?_) (fun d hd => ?_) ?_
      I.wired.free, I.idle.of_eq hserver (fun _ => rfl), I.booked.move hn ?_ hother rfl rfl rfl (fun _ _ => rfl) ?_, I.size⟩
    · rw [sreqOf_setConn]
      split
      · next hdc =>
        rw [hdc, hsr]
        exact ⟨fun h => (by cases h), fun h => absurd (Option.some.inj h).symm hu⟩
      · exact Iff.rfl
    · rw [sreqOf_setConn] at hd
      split at hd
      · cases hd
      · next hdc =>
        have hconn' := (I.wired.sreq d t hd).2.2
        rw [hconn] at hconn'
        exact absurd (Option.some.inj hconn').symm hdc
    · rw [Fits, hself]
      exact ⟨hp, hres, i, c, hs, hconn, (hserver c).trans hcs, rfl⟩
    · rw [hself]
      exact hn
    · obtain ⟨q, h1, h2, h3, h4, h5, h6, h7⟩ := I.booked.slot t n hn
      refine ⟨q, ?_⟩
      rw [hself]
      refine ⟨h1, h2, h3, h4, h5, h6, ?_⟩
      show reqLife s.history n = _
      rw [h7, hst]
      rfl
  unfold NCPool.sendOK
  dsimp only
  split
  · exact I1.setCounters rfl
  · refine I1.setServer (fun d hd => ?_) ?_
    · rcases List.mem_append.mp hd with hd | hd
      · exact I1.idle.conn _ d (List.mem_of_mem_erase hd)
      · rw [List.mem_singleton.mp hd, connServer_setConn, if_pos rfl]
    · refine List.nodup_append.mpr ⟨(I1.idle.nodup _).erase c, List.nodup_singleton c, fun a ha b hb => ?_⟩
      rw [List.mem_singleton.mp hb]
      rintro rfl
      exact (I1.idle.nodup _).not_mem_erase ha

theorem Inv.sendRequest (I : s.Inv) (c : Nat) (q : SendResult) (h : s.sendRequest c q = some s') : s'.Inv := by
  unfold NCPool.sendRequest at h
  split at h
  · cases h
  · next y hy =>
    split at h
    · cases h
    · next t ht =>
      cases q with
      | moreData =>
        obtain rfl := Option.some.inj h
        exact I
      | done =>
        obtain rfl := Option.some.inj h
        exact I.sendOK hy ht
      | error =>
        obtain rfl := Option.some.inj h
        exact I.abortSendSide c (by decide)

theorem Inv.schedule (I : s.Inv) {v : NCServerInfo} {y : NCConnection} (hlink : (s.transList t).link = some (.server i))
    (hy : s.conns c = some y) (hyi : y.serverInfo = i) (hnone : y.sreq = none)
    (hv : v.idleList = (s.serverList i).idleList) :
    ((((s.listDel t).setServer i v).setTrans t
      { ((s.listDel t).setServer i v).transList t with state := .send, conn := some c }).setConn c
      { y with sreq := some t }).Inv := by
  have hlt := I.lt_of_link hlink
  obtain ⟨hst, hs⟩ := (I.state_of_link hlink).2 i rfl
  have hf := I.wired.slots t hlt
  rw [Fits, hst] at hf
  obtain ⟨hp, -, hres, -⟩ := hf
  obtain ⟨n, hn⟩ := Option.ne_none_iff_exists'.mp hp
  have hq := listDel_quiet s t
  generalize hs' : ((((s.listDel t).setServer i v).setTrans t
      { ((s.listDel t).setServer i v).transList t with state := .send, conn := some c }).setConn c
      { y with sreq := some t }) = s'
  have htrans : s'.transList = Function.update s.transList t
      { s.transList t with link := none, state := .send, conn := some c } := by
    rw [← hs']
    show Function.update (s.listDel t).transList t { (s.listDel t).transList t with state := .send, conn := some c } = _
    rw [listDel_trans, Function.update_idem, Function.update_self]
  have hself := congrFun htrans t
  rw [Function.update_self] at hself
  have hother : ∀ u, u ≠ t → s'.transList u = s.transList u := by
    intro u hu
    rw [htrans, Function.update_of_ne hu]
  have hserver : ∀ d, s'.connServer d = s.connServer d := by
    intro d
    rw [← hs', connServer_setConn]
    split
    · next hd => rw [hd, connServer_some hy]
    · show ((s.listDel t).conns d).map _ = _
      rw [hq.conns]
      rfl
  have hsreq : ∀ d, s'.sreqOf d = if d = c then some t else s.sreqOf d := by
    intro d
    rw [← hs', sreqOf_setConn]
    split
    · rfl
    · show ((s.listDel t).conns d).bind _ = _
      rw [hq.conns]
      rfl
  have hnoneOf : s.sreqOf c = none := by
    rw [sreqOf, hy]
    exact hnone
  have hlists : s'.ListsOk := by
    have h1 := I.wired.lists.listDel t
    refine h1.of_eq (by rw [← hs']; rfl) (fun u => ?_)
    rw [htrans, listDel_trans, Function.update_apply, Function.update_apply]
    split
    · rfl
    · rfl
  have hfree : s'.lists .free = s.lists .free := by
    rw [← hs']
    refine listDel_list_ne ?_
    rw [hlink]
    exact fun h => by cases h
  have hidle : ∀ j, (s'.serverList j).idleList = (s.serverList j).idleList := by
    intro j
    rw [← hs']
    show (Function.update (s.listDel t).serverList i v j).idleList = _
    rw [Function.update_apply, listDel_serverList]
    split
    · next hj => rw [hj, hv]
    · rfl
  have hmax : s'.maxRequests = s.maxRequests := by
    rw [← hs']
    exact hq.max
  have hissued : s'.issued = s.issued := by
    rw [← hs']
    exact hq.issued
  have hcoll : s'.collected = s.collected := by
    rw [← hs']
    exact hq.collected
  have hnum : s'.numRequests = s.numRequests := by
    rw [← hs']
    exact hq.numRequests
  have hhist : s'.history = s.history := by
    rw [← hs']
    exact listDel_history s t
  refine ⟨I.wired.move hlt hlists hmax hother (fun d j hd => (hserver d).trans hd) (fun d u hu => ?_) (fun d hd => ?_) ?_ ?_,
    I.idle.of_eq hserver hidle, I.booked.move hn ?_ hother hmax hissued hcoll (fun _ _ => by rw [hhist]) ?_, hmax ▸ I.size⟩
  · rw [hsreq]
    split
    · next hd =>
      rw [hd, hnoneOf]
      exact ⟨fun h => absurd (Option.some.inj h).symm hu, fun h => by cases h⟩
    · exact Iff.rfl
  · rw [hsreq] at hd
    split at hd
    · next hdc =>
      rw [hself, hdc]
      exact ⟨rfl, rfl⟩
    · have hsend := (I.wired.sreq d t hd).2.1
      rw [hst] at hsend
      cases hsend
  · rw [Fits, hself]
    refine ⟨hp, rfl, hres, i, c, hs, rfl, ?_, ?_⟩
    · rw [hserver, connServer_some hy, hyi]
    · rw [hsreq, if_pos rfl]
  · rw [hfree, hnum, hmax]
    exact I.wired.free
  · rw [hself]
    exact hn
  · obtain ⟨q, h1, h2, h3, h4, h5, h6, h7⟩ := I.booked.slot t n hn
    refine ⟨q, ?_⟩
    rw [hself, hissued, hmax, hhist, maxRequestId, hmax]
    refine ⟨h1, h2, h3, h4, h5, h6, ?_⟩
    rw [h7, hst]
    rfl

theorem Inv.arrived (I : s.Inv) (hlink : (s.transList t).link = some (.conn c)) {serial : Nat}
    (hsn : (s.transList t).sn = serial) :
    ((s.setTrans t { s.transList t with result := some (.arrived serial) }).abort t 0).Inv := by
  have hlt := I.lt_of_link hlink
  obtain ⟨hst, -⟩ := (I.state_of_link hlink).1 c rfl
  obtain ⟨⟨i, hs⟩, hfree⟩ := I.waiting hlt (.inr hst)
  have hself : (s.setTrans t { s.transList t with result := some (.arrived serial) }).transList t =
      { s.transList t with result := some (.arrived serial) } := Function.update_self ..
  have hL : (s.setTrans t { s.transList t with result := some (.arrived serial) }).ListsOk := I.wired.lists.setTrans rfl
  have hne : ∀ d, s.sreqOf d ≠ some t := sreqOf_ne I (by rw [hst]; exact TransState.noConfusion)
  have hfin : Finishes (s.setTrans t { s.transList t with result := some (.arrived serial) })
      ((s.setTrans t { s.transList t with result := some (.arrived serial) }).abort t 0) t (.arrived serial) :=
    finishes_abort hL (by rw [hself]; exact hs) (by rw [hself]; exact hfree) (by rw [if_pos rfl, hself]) hne
  refine I.finishes (r := .arrived serial) hlt (.inr (.inr hst)) ⟨?_, hfin.lists, hfin.free, fun n hn => ?_, hfin.server,
    hfin.sreq, hfin.idle, hfin.max, hfin.issued, hfin.collected, hfin.numRequests⟩ (fun k hk => ?_)
  · rw [hfin.trans, hself]
    show Function.update (Function.update s.transList t _) t _ = _
    rw [Function.update_idem]
  · exact hfin.history n (by rw [hself]; exact hn)
  · rw [hsn]
    exact (NCResult.arrived.inj hk).symm

theorem Inv.doneResult (I : s.Inv) (c serial : Nat) : (s.doneResult c serial).Inv := by
  have hrest : ∀ s : NCPool, s.Inv → (if s.mode c = .sync then s.switchToIdle c
      else if (s.conns c).map (fun x => x.state) = some .linger ∧ s.lists (.conn c) = [] then s.deleteConn c
      else s).Inv := by
    intro s I
    split
    · exact I.switchToIdle c
    · split
      · exact I.deleteConn c
      · exact I
  unfold NCPool.doneResult
  apply hrest
  split
  · exact I
  · next t ht =>
    have hmem := List.mem_of_find?_eq_some ht
    have hsn := List.find?_some ht
    rw [beq_iff_eq] at hsn
    exact I.arrived ((I.wired.lists.mem _ t).mp hmem) hsn

theorem Inv.recvResult (I : s.Inv) (c : Nat) (e : RecvEnd) : (s.recvResult c e).Inv := by
  cases e with
  | fatalError => exact I.close c (by decide)
  | waitData => exact I
  | result serial => exact I.doneResult c serial

theorem Inv.inputNotify (I : s.Inv) (c : Nat) (y : NCConnection) (e : RecvEnd) : (s.inputNotify c y e).Inv := by
  unfold NCPool.inputNotify
  split
  · exact I.recvResult c e
  · split
    · exact I
    · exact I.recvResult c e
  · exact I

theorem Inv.outputNotify (I : s.Inv) (c : Nat) (y : NCConnection) (q : SendResult)
    (h : s.outputNotify c y q = some s') : s'.Inv := by
  unfold NCPool.outputNotify at h
  split at h
  · obtain rfl := Option.some.inj h
    exact I.switchToIdle c
  · exact I.sendRequest c q h
  · obtain rfl := Option.some.inj h
    exact I

theorem Inv.hangupNotify (I : s.Inv) (c : Nat) : (s.hangupNotify c).Inv :=
  (I.abortRequests c (show (-104 : Int) ≠ 0 by decide)).1.deleteConn c

theorem Inv.timerNotify (I : s.Inv) (c : Nat) (y : NCConnection) : (s.timerNotify c y).Inv := by
  unfold NCPool.timerNotify
  split
  · exact I.close c (by decide)
  · exact I

theorem Inv.newConn (I : s.Inv) (hc : s.conns c = none) {y : NCConnection} (hy : y.sreq = none) : (s.setConn c y).Inv := by
  have hnone : s.connServer c = none := by
    rw [connServer, hc]
    rfl
  refine I.of_conns rfl rfl rfl rfl rfl rfl rfl (fun d i hd _ => ?_) (fun d => ?_) ⟨fun i d hd => ?_, I.idle.nodup⟩
  · rw [connServer_setConn, if_neg, hd]
    rintro rfl
    rw [hnone] at hd
    cases hd
  · rw [sreqOf_setConn]
    split
    · next hdc =>
      rw [hdc, hy, sreqOf, hc]
      rfl
    · rfl
  · have hcs := I.idle.conn i d hd
    rw [connServer_setConn, if_neg, hcs]
    rintro rfl
    rw [hnone] at hcs
    cases hcs

theorem Inv.connect (I : s.Inv) (hc : s.conns c = none) (i : Nat) (q : AsyncConnect) : (s.connect i c q).1.Inv := by
  have I1 : ((s.setConn c { serverInfo := i }).setServer i
      { s.serverList i with connRemain := (s.serverList i).connRemain - 1 }).Inv := by
    have h := I.newConn hc (y := { serverInfo := i }) rfl
    exact h.setCounters rfl
  have hfail : ∀ s : NCPool, s.Inv →
      ((s.setServer i { s.serverList i with connRemain := (s.serverList i).connRemain + 1 }).deleteConn c).Inv := by
    intro s I
    have h : (s.setServer i { s.serverList i with connRemain := (s.serverList i).connRemain + 1 }).Inv := I.setCounters rfl
    exact h.deleteConn c
  unfold NCPool.connect
  dsimp only
  split
  · split
    · exact I1.switchToIdle c
    · exact hfail _ (I1.switchToIdle c)
  · have I2 := I1.setCounters (i := i) (v := { ((s.setConn c { serverInfo := i }).setServer i
        { s.serverList i with connRemain := (s.serverList i).connRemain - 1 }).serverList i with
      busyList := c :: (((s.setConn c { serverInfo := i }).setServer i
        { s.serverList i with connRemain := (s.serverList i).connRemain - 1 }).serverList i).busyList }) rfl
    have I3 := I2.setConn (c := c) (y := { serverInfo := i }) (z := { serverInfo := i, state := .connecting })
      (Function.update_self ..) rfl rfl
    split
    · exact I3.setCounters rfl
    · exact hfail _ I3
  · exact hfail _ I1

theorem Inv.abortWaitQueue (I : s.Inv) (i : Nat) (herr : err ≠ 0) : (s.abortWaitQueue i err).Inv :=
  (Inv.abortList herr (.inr ⟨i, rfl⟩) (s.lists (.server i)) s I (I.wired.lists.nodup _)
    (fun t ht => (I.wired.lists.mem _ t).mp ht)).1

/-- No request is scheduled on an idle connection that is still sending one. -/
def ScheduleOk (s : NCPool) (i : Nat) : Prop :=
  s.lists (.server i) ≠ [] → 0 < (s.serverList i).reqRemain → (s.serverList i).idleList.head?.bind s.sreqOf = none

theorem Inv.serverTimer (I : s.Inv) (hc : s.conns c = none) (hok : s.ScheduleOk i) (send : SendResult) (q : AsyncConnect)
    (h : s.serverTimer i c send q = some s') : s'.Inv := by
  unfold NCPool.serverTimer at h
  dsimp only at h
  split at h
  · obtain rfl := Option.some.inj h
    exact I
  · next t ts hts =>
    split at h
    · next hremain =>
      split at h
      · next d rest hd =>
        have hdi := I.idle.conn i d (by rw [hd]; exact List.mem_cons_self ..)
        obtain ⟨y, hy, hyi⟩ := Option.map_eq_some_iff.mp hdi
        have hnone : y.sreq = none := by
          have hs := hok (by rw [hts]; exact List.cons_ne_nil t ts) hremain
          rw [hd] at hs
          have hs' : s.sreqOf d = none := hs
          rw [sreqOf, hy] at hs'
          exact hs'
        have hlink : (s.transList t).link = some (.server i) :=
          (I.wired.lists.mem _ t).mp (by rw [hts]; exact List.mem_cons_self ..)
        have I1 := I.schedule (v := { s.serverList i with reqWait := (s.serverList i).reqWait - 1 }) hlink hy hyi hnone rfl
        unfold NCPool.processRequest at h
        have hy' : ((s.listDel t).setServer i
            { s.serverList i with reqWait := (s.serverList i).reqWait - 1 }).conns d = some y := by
          show (s.listDel t).conns d = some y
          rw [(listDel_quiet s t).conns]
          exact hy
        rw [hy'] at h
        dsimp only at h
        refine Inv.sendRequest ?_ d send h
        exact I1.dropIdle rfl
      · split at h
        · obtain rfl := Option.some.inj h
          exact I
        · have I1 := I.connect hc i q
          split at h
          · next herr =>
            obtain rfl := Option.some.inj h
            exact I1.abortWaitQueue i herr.1
          · obtain rfl := Option.some.inj h
            exact I1
    · obtain rfl := Option.some.inj h
      exact I

theorem Inv.addServer (I : s.Inv) (dgram : Bool) (mReq mConn : Nat) : (s.addServer dgram mReq mConn).Inv := by
  have hset : ∀ v : NCServerInfo, v.idleList = [] →
      Inv { s.setServer s.numServers v with numServers := s.numServers + 1 } := by
    intro v hv
    have h : (s.setServer s.numServers v).Inv := by
      refine I.setServer (fun c hc => ?_) ?_
      · rw [hv] at hc
        exact absurd hc List.not_mem_nil
      · rw [hv]
        exact List.nodup_nil
    exact h.of_conns rfl rfl rfl rfl rfl rfl rfl (fun _ _ h _ => h) (fun _ => rfl) (h.idle.of_eq (fun _ => rfl) (fun _ => rfl))
  unfold NCPool.addServer
  split
  · exact I
  · dsimp only
    split
    · exact I
    · exact hset _ rfl

theorem Inv.idle_of_free (I : s.Inv) (hlink : (s.transList t).link = some .free) :
    (s.transList t).state = .idle ∧ (s.transList t).packet = none ∧ (s.transList t).conn = none := by
  have hf := I.wired.slots t (I.lt_of_link hlink)
  rw [Fits] at hf
  cases h : (s.transList t).state with
  | idle =>
    rw [h] at hf
    exact ⟨rfl, hf.2.1, hf.2.2.2.1⟩
  | wait =>
    rw [h, FitsAs, hlink] at hf
    obtain ⟨-, -, -, i, -, hl⟩ := hf
    cases hl
  | send =>
    rw [h, FitsAs, hlink] at hf
    cases hf.2.1
  | recv =>
    rw [h, FitsAs, hlink] at hf
    obtain ⟨-, -, i, c, -, -, -, hl⟩ := hf
    cases hl
  | done =>
    rw [h, FitsAs, hlink] at hf
    cases hf.2.1

theorem Inv.added (I : s.Inv) {rest : List Nat} {q : NCIssued} (hfree : s.lists .free = t :: rest)
    (hother : ∀ u, u ≠ t → s'.transList u = s.transList u) (hpacket : (s'.transList t).packet = some s.issued.length)
    (hst : (s'.transList t).state ≠ .send) (hlists : s'.ListsOk) (hfree' : s'.lists .free = rest)
    (hnum : s'.numRequests = s.numRequests + 1) (hmax : s'.maxRequests = s.maxRequests) (hconns : s'.conns = s.conns)
    (hidle : ∀ i, (s'.serverList i).idleList = (s.serverList i).idleList) (hissued : s'.issued = s.issued ++ [q])
    (hcoll : s'.collected = s.collected)
    (hlife : ∀ m, m ≠ s.issued.length → reqLife s'.history m = reqLife s.history m) (hfit : s'.Fits t)
    (hslot : s'.SlotBooked t s.issued.length) : s'.Inv := by
  have hlink : (s.transList t).link = some .free :=
    (I.wired.lists.mem _ t).mp (by rw [hfree]; exact List.mem_cons_self ..)
  have hlt := I.lt_of_link hlink
  have hserver : ∀ c, s'.connServer c = s.connServer c := fun c => by rw [connServer, connServer, hconns]
  have hsreq : ∀ c, s'.sreqOf c = s.sreqOf c := fun c => by rw [sreqOf, sreqOf, hconns]
  obtain ⟨hidleState, hidlePacket, -⟩ := I.idle_of_free hlink
  have hold : ∀ u m, (s.transList u).packet = some m → m < s.issued.length := by
    intro u m hu
    obtain ⟨p, hp, -⟩ := I.booked.slot u m hu
    exact (List.getElem?_eq_some_iff.mp hp).1
  have hmore : ∀ (m : Nat) (p : NCIssued), s.issued[m]? = some p → s'.issued[m]? = some p := by
    intro m p hp
    rw [hissued, List.getElem?_append_left (List.getElem?_eq_some_iff.mp hp).1]
    exact hp
  have hnot : reqLife s'.history s.issued.length ≠ some .collected := by
    obtain ⟨p, -, -, -, -, -, -, h⟩ := hslot
    rw [h]
    split
    · exact fun h => by cases h
    · exact fun h => by cases h
  have hentry : ∀ e ∈ s.collected, e.req < s.issued.length := by
    intro e he
    obtain ⟨p, hp, -⟩ := I.booked.entry e he
    exact (List.getElem?_eq_some_iff.mp hp).1
  refine ⟨I.wired.move hlt hlists hmax hother (fun c i hc => (hserver c).trans hc) (fun c u _ => by rw [hsreq c])
      (fun c hc => ?_) hfit ?_, I.idle.of_eq hserver hidle, ⟨fun u v m hu hv => ?_, fun u m hu => ?_, fun m hm => ?_,
      fun m => ?_, ?_, fun e he => ?_⟩, hmax ▸ I.size⟩
  · rw [hsreq] at hc
    have hsend := (I.wired.sreq c t hc).2.1
    rw [hidleState] at hsend
    cases hsend
  · have h := I.wired.free
    rw [hfree, List.length_cons] at h
    rw [hfree', hnum, hmax]
    omega
  · by_cases hut : u = t
    · by_cases hvt : v = t
      · rw [hut, hvt]
      · rw [hother v hvt] at hv
        rw [hut, hpacket] at hu
        have hlt' := hold v m hv
        rw [← Option.some.inj hu] at hlt'
        exact absurd hlt' (Nat.lt_irrefl _)
    · rw [hother u hut] at hu
      by_cases hvt : v = t
      · rw [hvt, hpacket] at hv
        have hlt' := hold u m hu
        rw [← Option.some.inj hv] at hlt'
        exact absurd hlt' (Nat.lt_irrefl _)
      · rw [hother v hvt] at hv
        exact I.booked.inj u v m hu hv
  · by_cases hut : u = t
    · subst hut
      rw [hpacket] at hu
      obtain rfl := Option.some.inj hu
      exact hslot
    · rw [hother u hut] at hu
      obtain ⟨p, h1, h2, h3, h4, h5, h6, h7⟩ := I.booked.slot u m hu
      refine ⟨p, ?_⟩
      rw [hother u hut, hmax, hlife m (Nat.ne_of_lt (hold u m hu)), maxRequestId, hmax]
      exact ⟨hmore m p h1, h2, h3, h4, h5, h6, h7⟩
  · have hmn : m ≠ s.issued.length := by
      rintro rfl
      exact hm t hpacket
    have hgone := I.booked.gone m (fun u hu => by
      by_cases hut : u = t
      · subst hut
        rw [hidlePacket] at hu
        cases hu
      · exact hm u (by rw [hother u hut]; exact hu))
    rw [hlife m hmn, hgone, hissued, List.length_append, List.length_singleton]
    by_cases hlt' : m < s.issued.length
    · rw [if_pos hlt', if_pos (Nat.lt_succ_of_lt hlt')]
    · rw [if_neg hlt', if_neg (by omega)]
  · rw [hcoll]
    by_cases hmn : m = s.issued.length
    · subst hmn
      refine ⟨fun h => ?_, fun h => absurd h hnot⟩
      obtain ⟨e, he, hreq⟩ := List.mem_map.mp h
      have hlt' := hentry e he
      rw [hreq] at hlt'
      exact absurd hlt' (Nat.lt_irrefl _)
    · rw [hlife m hmn]
      exact I.booked.taken m
  · rw [hcoll]
    exact I.booked.once
  · rw [hcoll] at he
    obtain ⟨p, h1, h2⟩ := I.booked.entry e he
    exact ⟨p, hmore _ p h1, h2⟩

theorem clear_trans (s : NCPool) (t : Nat) : (s.clear t).transList = Function.update s.transList t
    { s.transList t with
      link := none, genId := (s.transList t).genId + 1, state := .idle, reqTag := 0, server := none, packet := none,
      result := none } := by
  show Function.update (s.listDel t).transList t _ = _
  rw [listDel_trans, Function.update_idem]
  show Function.update s.transList t { Function.update s.transList t _ t with
    genId := (Function.update s.transList t _ t).genId + 1, state := .idle, reqTag := 0, server := none, packet := none,
    result := none } = _
  rw [Function.update_self]

theorem ListsOk.clear (h : s.ListsOk) (t : Nat) : (s.clear t).ListsOk := (h.listDel t).setTrans rfl

/-- The slot of a new request, and what `GetTransationSlot` and `AttachRequest` leave alone. -/
structure Attached (s s' : NCPool) (t i : Nat) (tag : Int) (encoded : Except Int Nat) : Prop where
  trans : s'.transList = Function.update s.transList t
    { s.transList t with
      link := none
      genId := if s.maxRequestId ≤ (s.transList t).genId + 1 then 0 else (s.transList t).genId + 1
      state := .wait
      reqTag := tag
      server := some i
      packet := some s.issued.length
      sn := match encoded with
        | .ok sn => sn
        | .error _ => (s.transList t).sn
      result := match encoded with
        | .ok _ => none
        | .error err => some (.aborted err) }
  lists : s'.ListsOk
  free : ∀ rest, s.lists .free = t :: rest → s'.lists .free = rest
  conns : s'.conns = s.conns
  idle : ∀ i, (s'.serverList i).idleList = (s.serverList i).idleList
  max : s'.maxRequests = s.maxRequests
  issued : s'.issued = s.issued
  history : s'.history = s.history
  collected : s'.collected = s.collected
  numRequests : s'.numRequests = s.numRequests + 1

theorem attached_of_slot (L : s.ListsOk) (hs : s.getTransationSlot = some (s', t)) (tag : Int) (encoded : Except Int Nat) :
    (∃ rest, s.lists .free = t :: rest) ∧
      Attached s (s'.attachRequest t i tag s'.issued.length encoded) t i tag encoded := by
  unfold getTransationSlot at hs
  split at hs
  · cases hs
  · next u rest hfree =>
    dsimp only at hs
    obtain ⟨rfl, rfl⟩ := Prod.mk.inj (Option.some.inj hs)
    have hlink : (s.transList u).link = some .free :=
      (L.mem _ u).mp (by rw [hfree]; exact List.mem_cons_self ..)
    have hq := listDel_quiet s u
    have hlists : (s.listDel u).lists .free = rest := by
      rw [listDel_list hlink, hfree, List.erase_cons_head]
    have hmaxId : (s.clear u).maxRequestId = s.maxRequestId := by
      show maxReqId / (s.listDel u).maxRequests = _
      rw [hq.max]
      rfl
    have hissued : (s.clear u).issued.length = s.issued.length := by
      show (s.listDel u).issued.length = _
      rw [hq.issued]
    refine ⟨⟨rest, hfree⟩, ?_, ?_, fun rest' h => ?_, ?_, ?_, ?_, ?_, ?_, ?_, ?_⟩
    · cases encoded with
      | ok sn =>
        show Function.update (Function.update (s.clear u).transList u _) u
          { Function.update (s.clear u).transList u _ u with
            state := .wait, reqTag := tag, server := some i, packet := some (s.clear u).issued.length, sn := sn } = _
        rw [Function.update_idem, Function.update_self, hmaxId, hissued, clear_trans, Function.update_idem,
          Function.update_self]
      | error err =>
        show Function.update (Function.update (s.clear u).transList u _) u
          { Function.update (s.clear u).transList u _ u with
            state := .wait, reqTag := tag, server := some i, packet := some (s.clear u).issued.length,
            result := some (.aborted err) } = _
        rw [Function.update_idem, Function.update_self, hmaxId, hissued, clear_trans, Function.update_idem,
          Function.update_self]
    · have h1 := L.clear u
      have h2 : ((s.clear u).setTrans u { (s.clear u).transList u with
          genId := if (s.clear u).maxRequestId ≤ ((s.clear u).transList u).genId then 0
            else ((s.clear u).transList u).genId }).ListsOk := h1.setTrans rfl
      have h3 : ListsOk { (s.clear u).setTrans u { (s.clear u).transList u with
          genId := if (s.clear u).maxRequestId ≤ ((s.clear u).transList u).genId then 0
            else ((s.clear u).transList u).genId } with
          numRequests := (s.clear u).numRequests + 1 } := h2.of_eq rfl (fun _ => rfl)
      cases encoded with
      | ok sn => exact h3.setTrans rfl
      | error err => exact h3.setTrans rfl
    · rw [hfree] at h
      obtain rfl := (List.cons.inj h).2
      cases encoded with
      | ok sn => exact hlists
      | error err => exact hlists
    · cases encoded with
      | ok sn => exact hq.conns
      | error err => exact hq.conns
    · cases encoded with
      | ok sn => exact hq.idle
      | error err => exact hq.idle
    · cases encoded with
      | ok sn => exact hq.max
      | error err => exact hq.max
    · cases encoded with
      | ok sn => exact hq.issued
      | error err => exact hq.issued
    · cases encoded with
      | ok sn => exact listDel_history s u
      | error err => exact listDel_history s u
    · cases encoded with
      | ok sn => exact hq.collected
      | error err => exact hq.collected
    · cases encoded with
      | ok sn => exact congrArg (fun k => k + 1) hq.numRequests
      | error err => exact congrArg (fun k => k + 1) hq.numRequests

theorem Inv.maxRequestId_pos (I : s.Inv) : 0 < s.maxRequestId := by
  refine Nat.div_pos (Nat.le_trans I.size.2 (by decide)) I.size.1

theorem Inv.attached (I : s.Inv) {s₂ : NCPool} {rest : List Nat} {tag : Int} {encoded : Except Int Nat} {q : NCIssued}
    {st : TransState} (hfree : s.lists .free = t :: rest) (A : Attached s s₂ t i tag encoded)
    (hq : q = ⟨t + (s₂.transList t).genId * s₂.maxRequests + 1, tag, (s₂.transList t).sn⟩)
    (htrans : s'.transList = Function.update s₂.transList t { s₂.transList t with state := st, link := some l })
    (hlists : s'.ListsOk) (hkeep : s'.lists .free = s₂.lists .free) (hconns : s'.conns = s₂.conns)
    (hidle : ∀ i, (s'.serverList i).idleList = (s₂.serverList i).idleList) (hmax : s'.maxRequests = s₂.maxRequests)
    (hnum : s'.numRequests = s₂.numRequests) (hissued : s'.issued = s₂.issued ++ [q])
    (hcoll : s'.collected = s₂.collected)
    (hlife : ∀ m, m ≠ s.issued.length → reqLife s'.history m = reqLife s.history m)
    (hself : reqLife s'.history s.issued.length = some (if st = .done then .done else .opened)) (hst : st ≠ .send)
    (hfit : s'.Fits t) : s'.Inv := by
  have htrans' := htrans.trans (by rw [A.trans, Function.update_idem, Function.update_self])
  have hslot := congrFun htrans' t
  rw [Function.update_self] at hslot
  have hgen : (s'.transList t).genId < s'.maxRequestId := by
    rw [hslot]
    show (if s.maxRequestId ≤ (s.transList t).genId + 1 then 0 else (s.transList t).genId + 1) < maxReqId / s'.maxRequests
    rw [hmax, A.max]
    split
    · exact I.maxRequestId_pos
    · next hlt => exact Nat.not_le.mp hlt
  have hsame : (s'.transList t).genId = (s₂.transList t).genId ∧ (s'.transList t).sn = (s₂.transList t).sn ∧
      (s'.transList t).reqTag = (s₂.transList t).reqTag ∧ (s'.transList t).result = (s₂.transList t).result := by
    rw [htrans, Function.update_self]
    exact ⟨rfl, rfl, rfl, rfl⟩
  have hs₂ := congrFun A.trans t
  rw [Function.update_self] at hs₂
  refine I.added (q := q) hfree (fun u hu => ?_) ?_ ?_ hlists (hkeep.trans (A.free rest hfree)) (hnum.trans A.numRequests)
    (hmax.trans A.max) (hconns.trans A.conns) (fun i => (hidle i).trans (A.idle i)) ?_ (hcoll.trans A.collected) hlife hfit
    ⟨q, ?_, ?_, hgen, ?_, ?_, fun k hk => ?_, ?_⟩
  · rw [htrans', Function.update_of_ne hu]
  · rw [hslot]
  · rw [hslot]
    exact hst
  · rw [hissued, A.issued]
  · rw [hissued, A.issued, List.getElem?_append_right (Nat.le_refl _), Nat.sub_self]
    rfl
  · rw [hsame.1, hmax, hq]
  · rw [hsame.2.2.1, hq, hs₂]
  · rw [hsame.2.1, hq]
  · rw [hsame.2.2.2, hs₂] at hk
    cases encoded with
    | ok sn => cases hk
    | error err => cases hk
  · rw [hself, hslot]

theorem Inv.reqLife_new (I : s.Inv) : reqLife s.history s.issued.length = some .new := by
  have hgone := I.booked.gone s.issued.length (fun u hu => by
    obtain ⟨q, hq, -⟩ := I.booked.slot u _ hu
    exact absurd (List.getElem?_eq_some_iff.mp hq).1 (Nat.lt_irrefl _))
  rwa [if_neg (Nat.lt_irrefl _)] at hgone

theorem Inv.addRequest (I : s.Inv) {server : Option Nat} {tag k : Int} {encoded : Except Int Nat}
    (h : s.addRequest server tag encoded = some (s', k)) : s'.Inv := by
  unfold NCPool.addRequest at h
  split at h
  · obtain ⟨rfl, -⟩ := Prod.mk.inj (Option.some.inj h)
    exact I
  split at h
  · obtain ⟨rfl, -⟩ := Prod.mk.inj (Option.some.inj h)
    exact I
  · next i =>
    split at h
    · obtain ⟨rfl, -⟩ := Prod.mk.inj (Option.some.inj h)
      exact I
    split at h
    · cases h
    · next s₁ t hslot =>
      dsimp only at h
      obtain ⟨⟨rest, hfree⟩, A⟩ := attached_of_slot (i := i) I.wired.lists hslot tag encoded
      generalize hs₂ : s₁.attachRequest t i tag s₁.issued.length encoded = s₂ at h A
      have hlen : s₁.issued.length = s.issued.length := by
        have h1 := A.issued
        rw [← hs₂] at h1
        cases encoded with
        | ok sn => exact congrArg List.length h1
        | error err => exact congrArg List.length h1
      rw [hlen] at h
      have hself := congrFun A.trans t
      rw [Function.update_self] at hself
      have hlink : (s.transList t).link = some .free :=
        (I.wired.lists.mem _ t).mp (by rw [hfree]; exact List.mem_cons_self ..)
      have hconn : (s₂.transList t).conn = none := by
        rw [hself]
        exact (I.idle_of_free hlink).2.2
      have hlink₂ : (s₂.transList t).link = none := by rw [hself]
      have hpacket : (s₂.transList t).packet ≠ none := by
        rw [hself]
        exact Option.some_ne_none _
      have hlife : ∀ m, m ≠ s.issued.length →
          reqLife ((s.issued.length, ReqAct.add) :: s₂.history) m = reqLife s.history m := by
        intro m hm
        rw [reqLife_ne _ hm, A.history]
      have hopened : reqLife ((s.issued.length, ReqAct.add) :: s₂.history) s.issued.length = some .opened := by
        rw [reqLife_self, A.history, I.reqLife_new]
        rfl
      generalize hq : (⟨t + (s₂.transList t).genId * s₂.maxRequests + 1, tag, (s₂.transList t).sn⟩ : NCIssued) = q at h
      cases encoded with
      | ok sn =>
        obtain ⟨rfl, -⟩ := Prod.mk.inj (Option.some.inj h)
        have htrans : (({ s₂ with issued := s₂.issued ++ [q] }.note s.issued.length .add).queueRequest t i).transList =
            Function.update s₂.transList t { s₂.transList t with state := .wait, link := some (.server i) } := by
          show Function.update s₂.transList t { s₂.transList t with link := some (.server i) } = _
          rw [hself]
        refine I.attached hfree A hq.symm htrans ?_ ?_ rfl (fun j => ?_) rfl rfl rfl rfl hlife hopened TransState.noConfusion ?_
        · exact (A.lists.listAddTail hlink₂ (.server i)).of_eq rfl (fun _ => rfl)
        · show Function.update s₂.lists (.server i) (s₂.lists (.server i) ++ [t]) .free = _
          exact Function.update_of_ne PoolList.noConfusion ..
        · show (Function.update s₂.serverList i _ j).idleList = _
          rw [Function.update_apply]
          split
          · next hj => rw [hj]; rfl
          · rfl
        · rw [Fits, htrans, Function.update_self]
          refine ⟨hpacket, hconn, ?_, i, ?_, rfl⟩
          · show (s₂.transList t).result = none
            rw [hself]
          · show (s₂.transList t).server = some i
            rw [hself]
      | error err =>
        obtain ⟨rfl, -⟩ := Prod.mk.inj (Option.some.inj h)
        have hquiet := transationFinished_quiet ({ s₂ with issued := s₂.issued ++ [q] }.note s.issued.length .add) t
        have htrans := transationFinished_trans ({ s₂ with issued := s₂.issued ++ [q] }.note s.issued.length .add) t
        have hhist : (({ s₂ with issued := s₂.issued ++ [q] }.note s.issued.length .add).transationFinished t).history =
            (s.issued.length, .finish) :: (s.issued.length, .add) :: s₂.history :=
          transationFinished_history (show (s₂.transList t).packet = _ by rw [hself])
        refine I.attached hfree A hq.symm htrans ?_ ?_ hquiet.conns hquiet.idle hquiet.max hquiet.numRequests hquiet.issued
          hquiet.collected (fun m hm => ?_) ?_ TransState.noConfusion ?_
        · refine ListsOk.transationFinished ?_ hlink₂
          exact A.lists.of_eq rfl (fun _ => rfl)
        · exact transationFinished_list_ne _ _ PoolList.noConfusion
        · rw [hhist, reqLife_ne _ hm]
          exact hlife m hm
        · rw [hhist, reqLife_self, hopened]
          rfl
        · rw [Fits, htrans, Function.update_self]
          refine ⟨hpacket, rfl, hconn, ?_⟩
          show (s₂.transList t).result ≠ none
          rw [hself]
          exact Option.some_ne_none _

/-- What the aborts do to the slots: a slot stays as it is, or is done and keeps its request. -/
structure Ages (s s' : NCPool) : Prop where
  issued : s'.issued = s.issued
  max : s'.maxRequests = s.maxRequests
  mode : ∀ i, (s'.serverList i).mode = (s.serverList i).mode
  slot : ∀ u, s'.transList u = s.transList u ∨ ((s'.transList u).state = .done ∧ (s'.transList u).server = none ∧
    (s'.transList u).packet = (s.transList u).packet ∧ (s'.transList u).genId = (s.transList u).genId)

theorem Ages.refl (s : NCPool) : Ages s s := ⟨rfl, rfl, fun _ => rfl, fun _ => .inl rfl⟩

theorem Ages.trans (h : Ages s s') (h' : Ages s' s'') : Ages s s'' := by
  refine ⟨h'.issued.trans h.issued, h'.max.trans h.max, fun i => (h'.mode i).trans (h.mode i), fun u => ?_⟩
  rcases h'.slot u with h2 | ⟨h2, h3, h4, h5⟩
  · rw [h2]
    exact h.slot u
  · rcases h.slot u with h1 | ⟨-, -, h6, h7⟩
    · rw [h1] at h4 h5
      exact .inr ⟨h2, h3, h4, h5⟩
    · exact .inr ⟨h2, h3, h4.trans h6, h5.trans h7⟩

theorem ages_abort (s : NCPool) (t : Nat) (err : Int) : Ages s (s.abort t err) := by
  have hq := abort_quiet s t err
  refine ⟨hq.issued, hq.max, hq.mode, fun u => ?_⟩
  cases hs : (s.transList t).server with
  | none =>
    rw [abort_none hs]
    exact .inl rfl
  | some i =>
    rw [abort_trans hs, Function.update_apply]
    split
    · next hu =>
      rw [hu]
      exact .inr ⟨rfl, rfl, rfl, rfl⟩
    · exact .inl rfl

theorem ages_setServer (s : NCPool) {v : NCServerInfo} (hv : v.mode = (s.serverList i).mode) : Ages s (s.setServer i v) := by
  refine ⟨rfl, rfl, fun j => ?_, fun _ => .inl rfl⟩
  show (Function.update s.serverList i v j).mode = _
  rw [Function.update_apply]
  split
  · next hj => rw [hj, hv]
  · rfl

structure AbortFrame (R : NCPool → NCPool → Prop) : Prop where
  refl : ∀ s, R s s
  trans : ∀ {s s' s''}, R s s' → R s' s'' → R s s''
  abort : ∀ s t err, R s (s.abort t err)
  setServer : ∀ (s : NCPool) {i : Nat} {v : NCServerInfo}, v.mode = (s.serverList i).mode → R s (s.setServer i v)
  setConns : ∀ (s : NCPool) f, R s { s with conns := f }

namespace AbortFrame

variable {R : NCPool → NCPool → Prop}

theorem abortSreq (F : AbortFrame R) (s : NCPool) (c : Nat) (err : Int) : R s (s.abortSreq c err) := by
  cases h : s.sreqOf c with
  | none =>
    rw [abortSreq_none h]
    exact F.refl s
  | some t =>
    obtain ⟨y, hy, hyt⟩ := exists_of_sreqOf h
    rw [abortSreq_eq hy hyt]
    exact F.trans (F.abort s t err) (F.setConns _ _)

theorem abortList (F : AbortFrame R) (err : Int) :
    ∀ (ts : List Nat) (s : NCPool), R s (ts.foldl (fun s t => s.abort t err) s)
  | [], s => F.refl s
  | t :: ts, s => F.trans (F.abort s t err) (F.abortList err ts (s.abort t err))

theorem abortRequests (F : AbortFrame R) (s : NCPool) (c : Nat) (err : Int) : R s (s.abortRequests c err) :=
  F.trans (F.abortSreq s c err) (F.abortList err _ _)

theorem deleteConn (F : AbortFrame R) (s : NCPool) (c : Nat) : R s (s.deleteConn c) := by
  unfold NCPool.deleteConn
  split
  · exact F.refl s
  · next y hy =>
    dsimp only
    generalize hv : (if y.state = .connecting then
      { s.serverList y.serverInfo with connConnecting := (s.serverList y.serverInfo).connConnecting - 1 }
      else s.serverList y.serverInfo) = v
    have hmode : (dropConn v c).mode = (s.serverList y.serverInfo).mode := by
      show v.mode = _
      rw [← hv]
      split <;> rfl
    have h := F.trans (F.setServer s hmode) (F.abortRequests _ c (-ecRequestAborted))
    generalize (s.setServer y.serverInfo (dropConn v c)).abortRequests c (-ecRequestAborted) = s₂ at h
    have h2 : R s₂ (s₂.setServer y.serverInfo
        { s₂.serverList y.serverInfo with connRemain := (s₂.serverList y.serverInfo).connRemain + 1 }) := F.setServer s₂ rfl
    exact F.trans (F.trans h h2) (F.setConns _ _)

theorem close (F : AbortFrame R) (s : NCPool) (c : Nat) (err : Int) : R s (s.close c err) := by
  unfold NCPool.close
  dsimp only
  split
  · exact F.abortRequests s c err
  · exact F.trans (F.abortRequests s c err) (F.deleteConn _ c)

theorem abortSendSide (F : AbortFrame R) (s : NCPool) (c : Nat) (err : Int) : R s (s.abortSendSide c err) := by
  have h := F.abortSreq s c err
  unfold NCPool.abortSendSide
  dsimp only
  generalize s.abortSreq c err = s₁ at h
  split
  · exact F.trans h (F.close s₁ c err)
  · split
    · exact h
    · next y hy =>
      have h1 : R s₁ (s₁.setServer y.serverInfo
          { dropConn (s₁.serverList y.serverInfo) c with
            busyList := c :: (dropConn (s₁.serverList y.serverInfo) c).busyList }) := F.setServer s₁ rfl
      exact F.trans (F.trans h h1) (F.setConns _ _)

theorem abortRequest (F : AbortFrame R) (h : s.abortRequest t = some s') : R s s' := by
  unfold NCPool.abortRequest at h
  dsimp only at h
  split at h
  · split at h
    · cases h
    · split at h
      · obtain rfl := Option.some.inj h
        exact F.close s _ _
      · split at h
        · obtain rfl := Option.some.inj h
          exact F.abortSendSide s _ _
        · obtain rfl := Option.some.inj h
          exact F.abort s t _
      · obtain rfl := Option.some.inj h
        exact F.abort s t _
  · cases h
  · obtain rfl := Option.some.inj h
    exact F.abort s t _
  · obtain rfl := Option.some.inj h
    exact F.refl s

end AbortFrame

theorem ages_frame : AbortFrame Ages :=
  ⟨Ages.refl, Ages.trans, ages_abort, fun s _ _ hv => ages_setServer s hv, fun _ _ => ⟨rfl, rfl, fun _ => rfl, fun _ => .inl rfl⟩⟩

/-- **A slot that may be aborted**: neither a request that was done without ever being queued, nor one that a datagram
connection is sending. -/
def Abortable (s : NCPool) (t : Nat) : Prop :=
  ¬ ((s.transList t).state = .done ∧ (s.transList t).server ≠ none) ∧
    ¬ ((s.transList t).state = .send ∧ (s.transList t).server.map (fun i => (s.serverList i).mode) = some .dgram)

theorem Inv.abortRequest (I : s.Inv) (ht : t < s.maxRequests) (hok : s.Abortable t) (h : s.abortRequest t = some s') :
    s'.Inv := by
  have herr : -ecRequestAborted ≠ 0 := by decide
  have hf := I.wired.slots t ht
  rw [Fits] at hf
  unfold NCPool.abortRequest at h
  dsimp only at h
  split at h
  · next c i hc hs =>
    have hst : (s.transList t).state = .send ∨ (s.transList t).state = .recv := by
      cases hst : (s.transList t).state with
      | idle =>
        rw [hst] at hf
        rw [hf.2.2.2.1] at hc
        cases hc
      | wait =>
        rw [hst] at hf
        rw [hf.2.1] at hc
        cases hc
      | send => exact .inl rfl
      | recv => exact .inr rfl
      | done =>
        rw [hst] at hf
        rw [hf.2.2.1] at hc
        cases hc
    split at h
    · cases h
    · split at h
      · obtain rfl := Option.some.inj h
        exact I.close c herr
      · split at h
        · obtain rfl := Option.some.inj h
          exact I.abortSendSide c herr
        · next hne =>
          obtain rfl := Option.some.inj h
          exact I.abort ht (.inr (hst.resolve_left hne)) herr
      · next hmode =>
        obtain rfl := Option.some.inj h
        refine I.abort ht (.inr (hst.resolve_left (fun hsend => hok.2 ⟨hsend, ?_⟩))) herr
        rw [hs]
        exact congrArg some hmode
  · cases h
  · next i hc hs =>
    obtain rfl := Option.some.inj h
    refine I.abort ht (.inl ?_) herr
    cases hst : (s.transList t).state with
    | idle =>
      rw [hst] at hf
      rw [hf.2.2.1] at hs
      cases hs
    | wait => rfl
    | send =>
      rw [hst] at hf
      obtain ⟨-, -, -, i, c, -, hc', -⟩ := hf
      rw [hc'] at hc
      cases hc
    | recv =>
      rw [hst] at hf
      obtain ⟨-, -, i, c, -, hc', -⟩ := hf
      rw [hc'] at hc
      cases hc
    | done => exact absurd ⟨hst, by rw [hs]; exact Option.some_ne_none i⟩ hok.1
  · obtain rfl := Option.some.inj h
    exact I

theorem Inv.done_of_result (I : s.Inv) (ht : t < s.maxRequests) (hr : (s.transList t).result = some r) :
    (s.transList t).state = .done := by
  have hf := I.wired.slots t ht
  rw [Fits] at hf
  cases hst : (s.transList t).state with
  | idle =>
    rw [hst, FitsAs, hr] at hf
    cases hf.2.2.2.2
  | wait =>
    rw [hst, FitsAs, hr] at hf
    cases hf.2.2.1
  | send =>
    rw [hst, FitsAs, hr] at hf
    cases hf.2.2.1
  | recv =>
    rw [hst, FitsAs, hr] at hf
    cases hf.2.1
  | done => rfl

theorem Inv.numRequests_pos (I : s.Inv) (ht : t < s.maxRequests) (hlink : (s.transList t).link ≠ some .free) :
    0 < s.numRequests := by
  have hnd : (t :: s.lists .free).Nodup :=
    List.nodup_cons.mpr ⟨fun hm => hlink ((I.wired.lists.mem _ t).mp hm), I.wired.lists.nodup _⟩
  have hsub : t :: s.lists .free ⊆ List.range s.maxRequests := by
    intro u hu
    rw [List.mem_range]
    rcases List.mem_cons.mp hu with rfl | hu
    · exact ht
    · exact I.lt_of_link ((I.wired.lists.mem _ u).mp hu)
  have hle := (hnd.subperm hsub).length_le
  rw [List.length_cons, List.length_range] at hle
  have hfree := I.wired.free
  omega

theorem collected_trans (s : NCPool) (t : Nat) : ((s.clear t).listAdd t .free).transList = Function.update s.transList t
    { s.transList t with
      link := some .free, genId := (s.transList t).genId + 1, state := .idle, reqTag := 0, server := none, packet := none,
      result := none } := by
  show Function.update (s.clear t).transList t { (s.clear t).transList t with link := some .free } = _
  rw [clear_trans, Function.update_idem, Function.update_self]

theorem id_range {g : Nat} (ht : t < s.maxRequests) (hg : g < s.maxRequestId) :
    (0 : Int) < t + g * s.maxRequests + 1 ∧ (t + g * s.maxRequests + 1 : Int) ≤ maxReqId := by
  have h1 : (g + 1) * s.maxRequests ≤ s.maxRequestId * s.maxRequests := Nat.mul_le_mul_right _ hg
  have h2 : s.maxRequestId * s.maxRequests ≤ maxReqId := Nat.div_mul_le_self _ _
  rw [Nat.add_mul, Nat.one_mul] at h1
  have h3 : t + g * s.maxRequests + 1 ≤ maxReqId := by omega
  constructor
  · exact_mod_cast Nat.succ_pos _
  · exact_mod_cast h3

theorem getTransationResult_rest {asked : Int} (h : s.getTransationResult t asked = some s') :
    s'.maxRequests = s.maxRequests ∧ s'.serverList = s.serverList ∧ s'.conns = s.conns ∧
      (s'.transList t).state = .idle ∧ ∀ u, u ≠ t → s'.transList u = s.transList u := by
  have hq := listDel_quiet s t
  have hslot : (((s.clear t).listAdd t .free).transList t).state = .idle := by
    rw [collected_trans, Function.update_self]
  have hother : ∀ u, u ≠ t → ((s.clear t).listAdd t .free).transList u = s.transList u := by
    intro u hu
    rw [collected_trans, Function.update_of_ne hu]
  unfold NCPool.getTransationResult at h
  dsimp only at h
  split at h
  · cases h
  · split at h
    · obtain rfl := Option.some.inj h
      exact ⟨hq.max, listDel_serverList s t, hq.conns, hslot, hother⟩
    · obtain rfl := Option.some.inj h
      exact ⟨hq.max, listDel_serverList s t, hq.conns, hslot, hother⟩

theorem Inv.getTransationResult (I : s.Inv) (ht : t < s.maxRequests) {asked : Int}
    (hasked : asked = 0 ∨ asked = t + (s.transList t).genId * s.maxRequests + 1)
    (h : s.getTransationResult t asked = some s') : s'.Inv := by
  unfold NCPool.getTransationResult at h
  dsimp only at h
  split at h
  · cases h
  next r hr =>
  have hst := I.done_of_result ht hr
  obtain ⟨n, hn⟩ := I.packet ht (by rw [hst]; exact TransState.noConfusion)
  rw [hn] at h
  obtain ⟨hp, hlink, hconn, -⟩ : (s.transList t).packet ≠ none ∧ (s.transList t).link = some .done ∧
      (s.transList t).conn = none ∧ (s.transList t).result ≠ none := by
    have hf := I.wired.slots t ht
    rw [Fits, hst] at hf
    exact hf
  have hlinkne : (s.transList t).link ≠ some .free := by
    rw [hlink]
    exact fun h => by cases h
  have hq := listDel_quiet s t
  have hctrans := collected_trans s t
  have hclists : ((s.clear t).listAdd t .free).ListsOk := by
    refine (I.wired.lists.clear t).listAdd ?_ .free
    rw [clear_trans, Function.update_self]
  have hcfree : ((s.clear t).listAdd t .free).lists .free = t :: s.lists .free := by
    show Function.update (s.listDel t).lists .free (t :: (s.listDel t).lists .free) .free = _
    rw [Function.update_self, listDel_list_ne hlinkne]
  obtain ⟨q, hb1, hb2, hb3, hb4, hb5, hb6, hb7⟩ := I.booked.slot t n hn
  rw [hst, if_pos rfl] at hb7
  generalize hs₁ : (s.clear t).listAdd t .free = s₁ at h hctrans hclists hcfree
  obtain rfl := Option.some.inj h
  have hc1 : s₁.conns = s.conns := by rw [← hs₁]; exact hq.conns
  have hc2 : ∀ i, (s₁.serverList i).idleList = (s.serverList i).idleList := by rw [← hs₁]; exact hq.idle
  have hc4 : s₁.maxRequests = s.maxRequests := by rw [← hs₁]; exact hq.max
  have hc5 : s₁.issued = s.issued := by rw [← hs₁]; exact hq.issued
  have hc6 : s₁.collected = s.collected := by rw [← hs₁]; exact hq.collected
  have hc7 : s₁.numRequests = s.numRequests := by rw [← hs₁]; exact hq.numRequests
  have hc8 : s₁.history = s.history := by rw [← hs₁]; exact listDel_history s t
  have hself := congrFun hctrans t
  rw [Function.update_self] at hself
  have hother : ∀ u, u ≠ t → s₁.transList u = s.transList u := by
    intro u hu
    rw [hctrans, Function.update_of_ne hu]
  have hserver : ∀ c, s₁.connServer c = s.connServer c := fun c => by rw [connServer, connServer, hc1]
  have hsreq : ∀ c, s₁.sreqOf c = s.sreqOf c := fun c => by rw [sreqOf, sreqOf, hc1]
  have hnself : reqLife ((n, ReqAct.collect) :: s₁.history) n = some .collected := by
    rw [reqLife_self, hc8, hb7]
    rfl
  have hnother : ∀ m, m ≠ n → reqLife ((n, ReqAct.collect) :: s₁.history) m = reqLife s.history m := by
    intro m hm
    rw [reqLife_ne _ hm, hc8]
  have hnotin : n ∉ s.collected.map (fun e => e.req) := by
    rw [I.booked.taken, hb7]
    exact fun h => by cases h
  have hsn : ∀ k, r = .arrived k → k = q.sn := by
    intro k hk
    rw [hb5]
    exact hb6 k (hk ▸ hr)
  have hask : asked = 0 ∨ asked = q.id := by
    rw [hb2]
    exact hasked
  refine ⟨I.wired.move ht (hclists.of_eq rfl (fun _ => rfl)) hc4 hother (fun c i hc => (hserver c).trans hc)
      (fun c u _ => (by rw [← hsreq c]; exact Iff.rfl)) (fun c hc => ?_) ?_ ?_, I.idle.of_eq hserver hc2,
      ⟨fun u v m hu hv => ?_, fun u m hu => ?_, fun m hm => ?_, fun m => ?_, ?_, fun e he => ?_⟩, hc4 ▸ I.size⟩
  · have hsend := (I.wired.sreq c t ((hsreq c).symm.trans hc)).2.1
    rw [hst] at hsend
    cases hsend
  · rw [Fits]
    show FitsAs _ t (s₁.transList t) (s₁.transList t).state
    rw [hself]
    exact ⟨rfl, rfl, rfl, hconn, rfl⟩
  · show s₁.numRequests - 1 + (s₁.lists .free).length = s₁.maxRequests
    rw [hcfree, hc7, hc4, List.length_cons]
    have hpos := I.numRequests_pos ht hlinkne
    have hfree := I.wired.free
    omega
  · have hne : ∀ w, (s₁.transList w).packet = some m → w ≠ t := by
      rintro w hw rfl
      rw [hself] at hw
      cases hw
    have hu' : (s₁.transList u).packet = some m := hu
    have hv' : (s₁.transList v).packet = some m := hv
    have h1 := hne u hu'
    have h2 := hne v hv'
    rw [hother u h1] at hu'
    rw [hother v h2] at hv'
    exact I.booked.inj u v m hu' hv'
  · have hu' : (s₁.transList u).packet = some m := hu
    have hut : u ≠ t := by
      rintro rfl
      rw [hself] at hu'
      cases hu'
    rw [hother u hut] at hu'
    have hmn : m ≠ n := by
      rintro rfl
      exact hut (I.booked.inj u t m hu' hn)
    obtain ⟨p, h1, h2, h3, h4, h5, h6, h7⟩ := I.booked.slot u m hu'
    refine ⟨p, ?_⟩
    show s₁.issued[m]? = some p ∧ p.id = u + (s₁.transList u).genId * s₁.maxRequests + 1 ∧
      (s₁.transList u).genId < maxReqId / s₁.maxRequests ∧ p.tag = (s₁.transList u).reqTag ∧
      p.sn = (s₁.transList u).sn ∧ (∀ k, (s₁.transList u).result = some (.arrived k) → k = (s₁.transList u).sn) ∧
      reqLife ((n, ReqAct.collect) :: s₁.history) m = some (if (s₁.transList u).state = .done then .done else .opened)
    rw [hother u hut, hc5, hc4, hnother m hmn]
    exact ⟨h1, h2, h3, h4, h5, h6, h7⟩
  · show reqLife ((n, ReqAct.collect) :: s₁.history) m = some (if m < s₁.issued.length then _ else _)
    rw [hc5]
    by_cases hmn : m = n
    · rw [hmn, hnself, if_pos (List.getElem?_eq_some_iff.mp hb1).1]
    · rw [hnother m hmn]
      refine I.booked.gone m (fun u hu => ?_)
      by_cases hut : u = t
      · rw [hut, hn] at hu
        exact hmn (Option.some.inj hu).symm
      · exact hm u (by rw [← hother u hut] at hu; exact hu)
  · show m ∈ (s₁.collected ++ [_]).map (fun e : NCCollected => e.req) ↔ reqLife ((n, ReqAct.collect) :: s₁.history) m = _
    rw [hc6, List.map_append, List.mem_append]
    by_cases hmn : m = n
    · rw [hmn, hnself]
      exact ⟨fun _ => rfl, fun _ => .inr (List.mem_singleton_self n)⟩
    · rw [hnother m hmn, I.booked.taken]
      exact ⟨fun h => h.resolve_right (fun h => hmn (List.mem_singleton.mp h)), .inl⟩
  · show ((s₁.collected ++ [_]).map (fun e : NCCollected => e.req)).Nodup
    rw [hc6, List.map_append, List.nodup_append]
    refine ⟨I.booked.once, List.nodup_singleton n, fun a ha b hb => ?_⟩
    rw [List.mem_singleton.mp hb]
    rintro rfl
    exact hnotin ha
  · show ∃ p, s₁.issued[e.req]? = some p ∧ _
    have he' : e ∈ s₁.collected ++ [⟨n, asked, (s.transList t).reqTag, r⟩] := he
    rw [hc6] at he'
    rw [hc5]
    rcases List.mem_append.mp he' with he' | he'
    · exact I.booked.entry e he'
    · rw [List.mem_singleton.mp he']
      exact ⟨q, hb1, hb4.symm, hask, hsn, hb2 ▸ id_range ht hb3⟩

end NCPool
end Dtc
