import DtcServer.NcPoolCounts
/-!
# NcPoolAccounts — the counters of the client's pool are right in every run

Every event leaves each counter at the number it stands for, unless a connect fails, a request is aborted that was done
without ever being queued, or one that a datagram connection is sending.
-/
namespace Dtc
namespace NCPool

variable {s s' s'' : NCPool} {t u c i j n : Nat} {l : PoolList} {x : NCTransation} {st : TransState} {err : Int}

theorem Tied.taken (T : s.Tied) (hlink : (s.transList t).link = some (.server i)) (hpos : 0 < (s.serverList i).reqRemain) :
    Goes s (((s.listDel t).setServer i { s.serverList i with
      reqWait := (s.serverList i).reqWait - 1
      reqRemain := (s.serverList i).reqRemain - 1
      reqSend := (s.serverList i).reqSend + 1 }).setTrans t
        { (s.listDel t).transList t with state := .send, conn := some c }) := by
  have hlt := T.lt_of_link hlink
  obtain ⟨hst, hs⟩ := (T.state_of_link hlink).2.1 i rfl
  have hf := T.slots t hlt
  rw [hst] at hf
  obtain ⟨hres, i', hi, hs', -⟩ := hf
  obtain rfl := Option.some.inj (hs.symm.trans hs')
  have hq := listDel_quiet s t
  have hnum : (s.listDel t).numServers = s.numServers ∧ (s.listDel t).maxServers = s.maxServers := by
    unfold listDel
    split
    · exact ⟨rfl, rfl⟩
    · exact ⟨rfl, rfl⟩
  have hdone : (s.listDel t).doneRequests = s.doneRequests := by
    unfold listDel
    split <;> rfl
  generalize hp : ((s.listDel t).setServer i { s.serverList i with
      reqWait := (s.serverList i).reqWait - 1
      reqRemain := (s.serverList i).reqRemain - 1
      reqSend := (s.serverList i).reqSend + 1 }).setTrans t
        { (s.listDel t).transList t with state := .send, conn := some c } = p
  have htrans : p.transList = Function.update s.transList t
      { s.transList t with link := none, state := .send, conn := some c } := by
    rw [← hp]
    show Function.update (s.listDel t).transList t { (s.listDel t).transList t with state := .send, conn := some c } = _
    rw [listDel_trans, Function.update_idem, Function.update_self]
  have hself := congrFun htrans t
  rw [Function.update_self] at hself
  have hother : ∀ u, u ≠ t → p.transList u = s.transList u := by
    intro u hu
    rw [htrans, Function.update_of_ne hu]
  have hserver : ∀ j, p.serverList j = if j = i then { s.serverList i with
      reqWait := (s.serverList i).reqWait - 1
      reqRemain := (s.serverList i).reqRemain - 1
      reqSend := (s.serverList i).reqSend + 1 } else s.serverList j := by
    intro j
    rw [← hp]
    show Function.update (s.listDel t).serverList i _ j = _
    rw [Function.update_apply, listDel_serverList]
  have hmax : p.maxRequests = s.maxRequests := by
    rw [← hp]
    exact hq.max
  have hlists : p.lists = (s.listDel t).lists := by rw [← hp]; rfl
  constructor
  · refine T.slot hlt (by rw [← hp]; exact hq.conns) hmax (by rw [← hp]; exact hnum.1) (fun j => ?_) hother ?_ ?_
      (fun d hd => ?_) (T.sreqOf_ne (by rw [hst]; exact TransState.noConfusion)) ?_ (fun j => ?_)
    · rw [hserver]
      split
      · next hj => rw [hj]
      · rfl
    · refine (T.lists.listDel t).of_eq hlists (fun u => ?_)
      rw [htrans, listDel_trans, Function.update_apply, Function.update_apply]
      split <;> rfl
    · rw [hself]
      exact ⟨hres, rfl, i, hi, hs⟩
    · rw [hself] at hd
      cases hd
    · have hfree : p.lists .free = s.lists .free := by
        rw [hlists]
        refine listDel_list_ne ?_
        rw [hlink]
        exact fun h => by cases h
      rw [hfree, hmax, show p.numRequests = s.numRequests by rw [← hp]; exact hq.numRequests]
      exact T.free
    · rw [hserver]
      split
      · exact ⟨Int.le_sub_one_of_lt hpos, (T.remain i).2⟩
      · exact T.remain j
  · refine Steady.slot (t := t) (by rw [← hp]; exact hnum) (by rw [← hp]; exact hq.conns) hmax hother
      (fun j st hst' => ?_) (fun j => ?_) (fun j => ?_) ?_
    · obtain ⟨h1, h2⟩ := unit_shift p .send hlt hmax ⟨hs, hst⟩
        ⟨by rw [hself]; exact hs, by rw [hself]⟩ j st
      rw [h1, h2, hserver]
      by_cases hj : j = i
      · subst hj
        rw [if_pos rfl]
        rcases hst' with rfl | rfl | rfl
        · simp [reqCount]
        · simp [reqCount]
        · simp [reqCount]
      · rw [if_neg hj, if_neg (fun h => hj h.1), if_neg (fun h => hj h.1), sub_zero, add_zero]
    · rw [hserver]
      split
      · next hj =>
        rw [hj]
        show _ - 1 + (_ + 1) + _ = _ + _ + _
        ring
      · rfl
    · rw [hserver]
      split
      · next hj =>
        rw [hj]
        rfl
      · rfl
    · have hd : p.lists .done = s.lists .done := by
        rw [hlists]
        refine listDel_list_ne ?_
        rw [hlink]
        exact fun h => by cases h
      rw [hd, show p.doneRequests = s.doneRequests by rw [← hp]; exact hdone]

theorem Tied.arrived (T : s.Tied) (hlink : (s.transList t).link = some (.conn c)) (r : NCResult) :
    Goes s ((s.setTrans t { s.transList t with result := some r }).abort t 0) := by
  have hlt := T.lt_of_link hlink
  have hst := (T.state_of_link hlink).1 c rfl
  have G := T.abort hlt (.inr (.inr hst)) (T.sreqOf_ne (by rw [hst]; exact TransState.noConfusion)) 0
  obtain ⟨⟨i, -, hs⟩, hfree, hdone⟩ := T.opened hlt (.inr (.inr hst))
  -- the result is the only difference to an abort of the slot as it is
  have hself : (s.setTrans t { s.transList t with result := some r }).transList t =
      { s.transList t with result := some r } := Function.update_self ..
  have hs₁ : ((s.setTrans t { s.transList t with result := some r }).transList t).server = some i := by rw [hself]; exact hs
  have hdone₁ : ((s.setTrans t { s.transList t with result := some r }).transList t).link ≠ some .done := by
    rw [hself]
    exact hdone
  have htrans : (s.abort t 0).transList = _ := abort_trans hs
  have htrans₁ : ((s.setTrans t { s.transList t with result := some r }).abort t 0).transList = _ := abort_trans hs₁
  obtain ⟨k1, k2, k3, k4, k5⟩ := abort_counts 0 hs hdone
  obtain ⟨m1, m2, m3, m4, m5⟩ := abort_counts 0 hs₁ hdone₁
  have hq := abort_quiet s t 0
  have hq₁ := abort_quiet (s.setTrans t { s.transList t with result := some r }) t 0
  generalize hp : (s.setTrans t { s.transList t with result := some r }).abort t 0 = p at htrans₁ m1 m2 m3 m4 m5 hq₁
  have hother : ∀ u, u ≠ t → p.transList u = (s.abort t 0).transList u := by
    intro u hu
    rw [htrans₁, htrans, Function.update_of_ne hu, Function.update_of_ne hu]
    exact Function.update_of_ne hu ..
  have hslot : p.transList t = { (s.abort t 0).transList t with result := some r } := by
    rw [htrans₁, htrans, Function.update_self, Function.update_self, hself]
    rfl
  have hlink' : ∀ u, (p.transList u).link = ((s.abort t 0).transList u).link := by
    intro u
    by_cases hu : u = t
    · rw [hu, hslot]
    · rw [hother u hu]
  have hservers : p.serverList = (s.abort t 0).serverList := by
    rw [m1, k1, hself]
    rfl
  have hL : p.ListsOk := by
    have h : (s.setTrans t { s.transList t with result := some r }).ListsOk := T.lists.setTrans rfl
    rw [← hp]
    exact h.abort t 0
  have hdoneList : p.lists .done = (s.abort t 0).lists .done := by
    rw [m5, k5]
    rfl
  have hconns : p.conns = (s.abort t 0).conns := hq₁.conns.trans hq.conns.symm
  have hmax : p.maxRequests = (s.abort t 0).maxRequests := hq₁.max.trans hq.max.symm
  have ht' : t < (s.abort t 0).maxRequests := hq.max.symm ▸ hlt
  have hstate : ((s.abort t 0).transList t).state = .done := by
    rw [htrans, Function.update_self]
    rfl
  refine G.trans ⟨?_, ?_⟩
  · refine G.tied.slot ht' hconns hmax (m2.trans k2.symm) (fun j => by rw [hservers]) hother hL ?_ (fun d hd => ?_)
      (G.tied.sreqOf_ne (by rw [hstate]; exact TransState.noConfusion)) ?_ (fun j => by rw [hservers]; exact G.tied.remain j)
    · have hf := G.tied.slots t ht'
      rw [hstate] at hf
      rw [hslot, hstate]
      exact hf
    · rw [hlink'] at hd
      exact G.tied.recv t d hd
    · have hfreeList : p.lists .free = s.lists .free := by
        rw [← hp]
        refine abort_list_ne PoolList.noConfusion ?_
        rw [hself]
        exact hfree
      rw [hfreeList, hq₁.numRequests, hq₁.max]
      exact T.free
  · refine Steady.slot (t := t) ⟨m2.trans k2.symm, m3.trans k3.symm⟩ hconns hmax hother
      (fun j st _ => ?_) (fun j => by rw [hservers])
      (fun j => by rw [hservers]) ?_
    · have hsame : Tally.unit (p.slotsIn j st) t = Tally.unit ((s.abort t 0).slotsIn j st) t := by
        rw [unit_slotsIn ht', unit_slotsIn (hmax.symm ▸ ht'), hslot]
      rw [hsame, hservers]
      ring
    · rw [hdoneList, m4, k4]
      rfl

theorem Tied.doneResult (T : s.Tied) (c serial : Nat) : Goes s (s.doneResult c serial) := by
  have hrest : ∀ p : NCPool, Goes s p → Goes s (if p.mode c = .sync then p.switchToIdle c
      else if (p.conns c).map (fun x => x.state) = some .linger ∧ p.lists (.conn c) = [] then p.deleteConn c
      else p) := by
    intro p G
    split
    · exact G.trans (G.tied.switchToIdle c)
    · split
      · exact G.trans (G.tied.deleteConn c)
      · exact G
  unfold NCPool.doneResult
  apply hrest
  split
  · exact T.goes
  · next t ht => exact T.arrived ((T.lists.mem _ t).mp (List.mem_of_find?_eq_some ht)) _

theorem Tied.recvResult (T : s.Tied) (c : Nat) (e : RecvEnd) : Goes s (s.recvResult c e) := by
  cases e with
  | fatalError => exact T.close c _
  | waitData => exact T.goes
  | result serial => exact T.doneResult c serial

theorem Tied.inputNotify (T : s.Tied) (c : Nat) (y : NCConnection) (e : RecvEnd) : Goes s (s.inputNotify c y e) := by
  unfold NCPool.inputNotify
  split
  · exact T.recvResult c e
  · split
    · exact T.goes
    · exact T.recvResult c e
  · exact T.goes

theorem Tied.outputNotify (T : s.Tied) (c : Nat) (y : NCConnection) (q : SendResult)
    (h : s.outputNotify c y q = some s') : Goes s s' := by
  unfold NCPool.outputNotify at h
  split at h
  · obtain rfl := Option.some.inj h
    exact T.switchToIdle c
  · exact T.sendRequest c q h
  · obtain rfl := Option.some.inj h
    exact T.goes

theorem Tied.hangupNotify (T : s.Tied) (c : Nat) : Goes s (s.hangupNotify c) := by
  have G := (T.abortRequests c (-104)).1
  exact G.trans (G.tied.deleteConn c)

theorem Tied.timerNotify (T : s.Tied) (c : Nat) (y : NCConnection) : Goes s (s.timerNotify c y) := by
  unfold NCPool.timerNotify
  split
  · exact T.close c _
  · exact T.goes

/-- The ends of `AsyncConnect` after which the connection stays. -/
def AsyncConnect.Stays : AsyncConnect → Prop
  | .connected attached => attached = true
  | .inProgress attached => attached = true
  | .failed _ => False

theorem Tied.newConn (T : s.Tied) (hc : s.conns c = none) (hi : i < s.numServers) {v : NCServerInfo} {y : NCConnection}
    (hyi : y.serverInfo = i) (hyn : y.sreq = none) (hreq : reqCounts v = reqCounts (s.serverList i))
    (htotal : v.connTotal = (s.serverList i).connTotal) (hremain : v.connRemain = (s.serverList i).connRemain - 1)
    (hpos : 0 < (s.serverList i).connRemain) (hidle : v.idleList = (s.serverList i).idleList)
    (hconnecting : v.connConnecting = (s.serverList i).connConnecting + if y.state = .connecting then 1 else 0) :
    Goes s ((s.setConn c y).setServer i v) := by
  have hnone : s.connServer c = none := by
    rw [connServer, hc]
    rfl
  have hnot : ¬ s.Ready c := by
    rintro ⟨z, hz, -⟩
    rw [hc] at hz
    cases hz
  have hother : ∀ d, d ≠ c → ((s.setConn c y).setServer i v).conns d = s.conns d := fun d hd => Function.update_of_ne hd ..
  have hself : ((s.setConn c y).setServer i v).conns c = some y := Function.update_self ..
  have hserver : ∀ d j, s.connServer d = some j → ((s.setConn c y).setServer i v).connServer d = some j := by
    intro d j hd
    have hdc : d ≠ c := by
      rintro rfl
      rw [hnone] at hd
      cases hd
    rw [connServer, hother d hdc]
    exact hd
  have hready : ∀ d, s.Ready d → ((s.setConn c y).setServer i v).Ready d := by
    intro d hd
    rw [Ready, hother d (fun he => hnot (he ▸ hd))]
    exact hd
  have hreqRemain : v.reqRemain = (s.serverList i).reqRemain := congrArg (fun p => p.2.2.2) hreq
  constructor
  · refine T.of_conns rfl rfl rfl rfl rfl (fun d t hd => ?_) (fun t d hd => hready d (T.recv t d hd)) (fun j d hd => ?_)
      (fun j => ?_) (fun d j hd => ?_) ?_ (fun j => ?_)
    · have hdc : d ≠ c := by
        rintro rfl
        rw [sreqOf, hself] at hd
        have hd' : y.sreq = some t := hd
        rw [hyn] at hd'
        cases hd'
      rw [sreqOf, hother d hdc] at hd
      obtain ⟨h1, h2, h3, h4, h5⟩ := T.sreq d t hd
      rw [connServer, hother d hdc]
      exact ⟨h1, h2, h3, h4, hready d h5⟩
    · have hd' : d ∈ (s.serverList j).idleList := by
        rw [setServer_apply] at hd
        split at hd
        · next hj =>
          rw [hj, ← hidle]
          exact hd
        · exact hd
      exact ⟨hserver d j (T.idle j d hd').1, hready d (T.idle j d hd').2⟩
    · rw [setServer_apply]
      split
      · rw [hidle]
        exact T.once i
      · exact T.once j
    · by_cases hdc : d = c
      · rw [hdc, connServer_some hself, hyi] at hd
        exact Option.some.inj hd ▸ hi
      · rw [connServer, hother d hdc] at hd
        exact T.owners d j hd
    · refine (T.finite.insert c).subset (fun d hd => ?_)
      by_cases hdc : d = c
      · exact Set.mem_insert_iff.mpr (.inl hdc)
      · refine Set.mem_insert_of_mem c ?_
        show s.conns d ≠ none
        rw [← hother d hdc]
        exact hd
    · rw [setServer_apply]
      split
      · rw [hreqRemain, hremain]
        exact ⟨(T.remain i).1, Int.le_sub_one_of_lt hpos⟩
      · exact T.remain j
  · refine Steady.conn (c := c) T ⟨rfl, rfl⟩ rfl rfl rfl rfl hother (fun j => ?_) (fun j => ?_) (fun j => ?_) (fun j => ?_)
    · rw [setServer_apply]
      split
      · next hj => rw [hj, hreq]
      · rfl
    · rw [setServer_apply]
      split
      · next hj => rw [hj, htotal]
      · rfl
    · rw [(unit_conns_none hc j).1, unit_connsOf hself, hyi, setServer_apply, add_zero]
      split
      · next hj => rw [hj, hremain]
      · exact (sub_zero _).symm
    · rw [(unit_conns_none hc j).2, unit_connectingOf hself, hyi, setServer_apply, sub_zero]
      by_cases hj : j = i
      · rw [if_pos hj, hj, hconnecting]
        refine congrArg _ (if_congr ?_ rfl rfl)
        exact ⟨fun h => ⟨rfl, h⟩, fun h => h.2⟩
      · rw [if_neg hj, if_neg (fun h => hj h.1), add_zero]
        rfl

theorem Tied.connect (T : s.Tied) (hc : s.conns c = none) (hi : i < s.numServers) (hpos : 0 < (s.serverList i).connRemain)
    {r : AsyncConnect} (hr : r.Stays) : Goes s (s.connect i c r).1 ∧ (s.connect i c r).2 = 0 := by
  unfold NCPool.connect
  dsimp only
  cases r with
  | connected attached =>
    obtain rfl : attached = true := hr
    have G : Goes s ((s.setConn c { serverInfo := i }).setServer i
        { s.serverList i with connRemain := (s.serverList i).connRemain - 1 }) :=
      T.newConn hc hi rfl rfl rfl rfl rfl hpos rfl (add_zero _).symm
    exact ⟨G.trans (G.tied.switchToIdle c), rfl⟩
  | inProgress attached =>
    obtain rfl : attached = true := hr
    have G : Goes s ((s.setConn c { serverInfo := i, state := .connecting }).setServer i
        { s.serverList i with
          connRemain := (s.serverList i).connRemain - 1
          busyList := c :: (s.serverList i).busyList
          connConnecting := (s.serverList i).connConnecting + 1 }) :=
      T.newConn hc hi rfl rfl rfl rfl rfl hpos rfl rfl
    refine ⟨?_, rfl⟩
    simp only [NCPool.setServer, NCPool.setConn, Function.update_idem, Function.update_self] at G ⊢
    exact G
  | failed err => exact hr.elim

def ConnectOk (s : NCPool) (i : Nat) (r : AsyncConnect) : Prop :=
  s.lists (.server i) ≠ [] → 0 < (s.serverList i).reqRemain → (s.serverList i).idleList = [] →
    (s.serverList i).connRemain ≠ 0 → (s.serverList i).connConnecting < (s.serverList i).reqWait → r.Stays

theorem Tied.serverTimer (T : s.Tied) (hc : s.conns c = none) {q : AsyncConnect} (hok : s.ConnectOk i q) (send : SendResult)
    (h : s.serverTimer i c send q = some s') : Goes s s' := by
  unfold NCPool.serverTimer at h
  dsimp only at h
  split at h
  · obtain rfl := Option.some.inj h
    exact T.goes
  · next t ts hts =>
    have hne : s.lists (.server i) ≠ [] := by
      rw [hts]
      exact List.cons_ne_nil t ts
    have hlink : (s.transList t).link = some (.server i) :=
      (T.lists.mem _ t).mp (by rw [hts]; exact List.mem_cons_self ..)
    split at h
    · next hremain =>
      split at h
      · next d rest hd =>
        obtain ⟨hdi, hready⟩ := T.idle i d (by rw [hd]; exact List.mem_cons_self ..)
        obtain ⟨y, hy, hyi⟩ := Option.map_eq_some_iff.mp hdi
        have hst : y.state ≠ .connecting := by
          obtain ⟨z, hz, hst⟩ := hready
          obtain rfl := Option.some.inj (hy.symm.trans hz)
          exact hst
        have hs := ((T.state_of_link hlink).2.1 i rfl).2
        have G1 := T.taken (c := d) hlink hremain
        generalize hp : ((s.listDel t).setServer i { s.serverList i with
            reqWait := (s.serverList i).reqWait - 1
            reqRemain := (s.serverList i).reqRemain - 1
            reqSend := (s.serverList i).reqSend + 1 }).setTrans t
              { (s.listDel t).transList t with state := .send, conn := some d } = p at G1
        have hpy : p.conns d = some y := by
          rw [← hp]
          show (s.listDel t).conns d = some y
          rw [(listDel_quiet s t).conns]
          exact hy
        have hself : p.transList t = { (s.listDel t).transList t with state := .send, conn := some d } := by
          rw [← hp]
          exact Function.update_self ..
        have hpmax : p.maxRequests = s.maxRequests := by
          rw [← hp]
          exact (listDel_quiet s t).max
        have G2 : Goes p (p.setConn d { y with sreq := some t }) := by
          refine G1.tied.setConn hpy rfl Iff.rfl (fun u hu => ?_)
          obtain rfl := Option.some.inj hu
          rw [hself, hpmax, listDel_trans, Function.update_self]
          refine ⟨T.lt_of_link hlink, rfl, rfl, ?_, hst⟩
          show (s.transList t).server = _
          rw [hs, hyi]
        have hpserver : p.serverList i = { s.serverList i with
            reqWait := (s.serverList i).reqWait - 1
            reqRemain := (s.serverList i).reqRemain - 1
            reqSend := (s.serverList i).reqSend + 1 } := by
          rw [← hp]
          exact Function.update_self ..
        have G3 : Goes (p.setConn d { y with sreq := some t }) ((p.setConn d { y with sreq := some t }).setServer i
            { dropConn (p.serverList i) d with busyList := (dropConn (p.serverList i) d).busyList ++ [d] }) :=
          ⟨G2.tied.drop rfl (G2.tied.remain i), Steady.setServer G2.tied rfl rfl⟩
        have G := (G1.trans G2).trans G3
        -- the scheduling as `ProcessRequest` writes it
        unfold NCPool.processRequest at h
        have hy' : ((s.listDel t).setServer i
            { s.serverList i with reqWait := (s.serverList i).reqWait - 1 }).conns d = some y := by
          show (s.listDel t).conns d = some y
          rw [(listDel_quiet s t).conns]
          exact hy
        rw [hy'] at h
        dsimp only at h
        refine G.trans (Tied.sendRequest G.tied d send ?_)
        rw [← h, hpserver, ← hp, hyi]
        unfold NCPool.setServer NCPool.setTrans NCPool.setConn
        dsimp only
        rw [Function.update_idem, Function.update_idem, Function.update_self]
        rfl
      · next hidle =>
        split at h
        · obtain rfl := Option.some.inj h
          exact T.goes
        · next hfull =>
          rw [not_or, Int.not_le] at hfull
          have hpos : 0 < (s.serverList i).connRemain := lt_of_le_of_ne (T.remain i).2 (Ne.symm hfull.1)
          have hi : i < s.numServers := by
            have hf := T.slots t (T.lt_of_link hlink)
            rw [((T.state_of_link hlink).2.1 i rfl).1] at hf
            obtain ⟨-, i', hi', hs', -⟩ := hf
            obtain rfl := Option.some.inj (((T.state_of_link hlink).2.1 i rfl).2.symm.trans hs')
            exact hi'
          obtain ⟨G, hzero⟩ := T.connect hc hi hpos (hok hne hremain hidle hfull.1 hfull.2)
          rw [hzero, if_neg (fun h => h.1 rfl)] at h
          obtain rfl := Option.some.inj h
          exact G
    · obtain rfl := Option.some.inj h
      exact T.goes

theorem attached_counts (L : s.ListsOk) (hs : s.getTransationSlot = some (s', t)) (i : Nat) (tag : Int)
    (encoded : Except Int Nat) :
    (s'.attachRequest t i tag s'.issued.length encoded).serverList = s.serverList ∧
      (s'.attachRequest t i tag s'.issued.length encoded).numServers = s.numServers ∧
      (s'.attachRequest t i tag s'.issued.length encoded).maxServers = s.maxServers ∧
      (s'.attachRequest t i tag s'.issued.length encoded).doneRequests = s.doneRequests ∧
      (s'.attachRequest t i tag s'.issued.length encoded).lists .done = s.lists .done := by
  have hattach : ∀ p : NCPool, (p.attachRequest t i tag p.issued.length encoded).serverList = p.serverList ∧
      (p.attachRequest t i tag p.issued.length encoded).numServers = p.numServers ∧
      (p.attachRequest t i tag p.issued.length encoded).maxServers = p.maxServers ∧
      (p.attachRequest t i tag p.issued.length encoded).doneRequests = p.doneRequests ∧
      (p.attachRequest t i tag p.issued.length encoded).lists = p.lists := by
    intro p
    cases encoded with
    | ok sn => exact ⟨rfl, rfl, rfl, rfl, rfl⟩
    | error err => exact ⟨rfl, rfl, rfl, rfl, rfl⟩
  obtain ⟨h1, h2, h3, h4, h5⟩ := hattach s'
  rw [h1, h2, h3, h4, h5]
  unfold getTransationSlot at hs
  split at hs
  · cases hs
  · next u rest hfree =>
    obtain ⟨rfl, rfl⟩ := Prod.mk.inj (Option.some.inj hs)
    have hlink : (s.transList u).link = some .free := (L.mem _ u).mp (by rw [hfree]; exact List.mem_cons_self ..)
    have hdel : (s.listDel u).numServers = s.numServers ∧ (s.listDel u).maxServers = s.maxServers ∧
        (s.listDel u).doneRequests = s.doneRequests := by
      unfold listDel
      split
      · exact ⟨rfl, rfl, rfl⟩
      · exact ⟨rfl, rfl, rfl⟩
    refine ⟨listDel_serverList s u, hdel.1, hdel.2.1, hdel.2.2, listDel_list_ne ?_⟩
    rw [hlink]
    exact fun h => by cases h

theorem Tied.addRequest (T : s.Tied) {server : Option Nat} {tag k : Int} {encoded : Except Int Nat}
    (h : s.addRequest server tag encoded = some (s', k)) : Goes s s' := by
  unfold NCPool.addRequest at h
  split at h
  · obtain ⟨rfl, -⟩ := Prod.mk.inj (Option.some.inj h)
    exact T.goes
  split at h
  · obtain ⟨rfl, -⟩ := Prod.mk.inj (Option.some.inj h)
    exact T.goes
  · next i =>
    split at h
    · obtain ⟨rfl, -⟩ := Prod.mk.inj (Option.some.inj h)
      exact T.goes
    next hi =>
    split at h
    · cases h
    · next s₁ t hslot =>
      dsimp only at h
      obtain ⟨⟨rest, hfree⟩, A⟩ := attached_of_slot (i := i) T.lists hslot tag encoded
      obtain ⟨m1, m2, m3, m4, m5⟩ := attached_counts T.lists hslot i tag encoded
      generalize hs₂ : s₁.attachRequest t i tag s₁.issued.length encoded = s₂ at h A m1 m2 m3 m4 m5
      have hself := congrFun A.trans t
      rw [Function.update_self] at hself
      have hlink : (s.transList t).link = some .free :=
        (T.lists.mem _ t).mp (by rw [hfree]; exact List.mem_cons_self ..)
      have hlt := T.lt_of_link hlink
      have hst := (T.state_of_link hlink).2.2.2 rfl
      have hlink₂ : (s₂.transList t).link = none := by rw [hself]
      have hother₂ : ∀ u, u ≠ t → s₂.transList u = s.transList u := by
        intro u hu
        rw [A.trans, Function.update_of_ne hu]
      have hfree₂ : s₂.numRequests + (s₂.lists .free).length = s₂.maxRequests := by
        have hf := T.free
        rw [hfree, List.length_cons] at hf
        rw [A.free rest hfree, A.numRequests, A.max]
        omega
      have hsreq := T.sreqOf_ne (t := t) (by rw [hst]; exact TransState.noConfusion)
      have hzero : ∀ j st, Live st → Tally.unit (s.slotsIn j st) t = 0 := by
        intro j st hlive
        refine Tally.unit_of_notMem (fun hm => ?_)
        rw [← hm.2.2, hst] at hlive
        rcases hlive with h | h | h <;> cases h
      generalize hq : (⟨t + (s₂.transList t).genId * s₂.maxRequests + 1, tag, (s₂.transList t).sn⟩ : NCIssued) = q at h
      cases encoded with
      | ok sn =>
        obtain ⟨rfl, -⟩ := Prod.mk.inj (Option.some.inj h)
        generalize hp : (({ s₂ with issued := s₂.issued ++ [q] }.note s₁.issued.length .add).queueRequest t i) = p
        have hpt : p.transList t = { s₂.transList t with link := some (.server i) } := by
          rw [← hp]
          exact Function.update_self ..
        have hother : ∀ u, u ≠ t → p.transList u = s.transList u := by
          intro u hu
          rw [← hother₂ u hu, ← hp]
          exact Function.update_of_ne hu ..
        have hserver : ∀ j, p.serverList j = if j = i then
            { s.serverList i with reqWait := (s.serverList i).reqWait + 1 } else s.serverList j := by
          intro j
          rw [← hp]
          show Function.update s₂.serverList i { s₂.serverList i with reqWait := (s₂.serverList i).reqWait + 1 } j = _
          rw [Function.update_apply, m1]
        have hpmax : p.maxRequests = s.maxRequests := by
          rw [← hp]
          exact A.max
        constructor
        · refine T.slot hlt (by rw [← hp]; exact A.conns) hpmax (by rw [← hp]; exact m2) (fun j => ?_) hother ?_ ?_
            (fun d hd => ?_) hsreq ?_ (fun j => ?_)
          · rw [hserver]
            split
            · next hj => rw [hj]
            · rfl
          · rw [← hp]
            exact (A.lists.listAddTail hlink₂ (.server i)).of_eq rfl (fun _ => rfl)
          · rw [hpt, hself]
            exact ⟨rfl, i, Nat.lt_of_not_le hi, rfl, rfl⟩
          · rw [hpt] at hd
            cases hd
          · have hpfree : p.lists .free = s₂.lists .free := by
              rw [← hp]
              show Function.update s₂.lists (.server i) (s₂.lists (.server i) ++ [t]) .free = _
              exact Function.update_of_ne PoolList.noConfusion ..
            rw [hpfree, ← hp]
            exact hfree₂
          · rw [hserver]
            split
            · exact T.remain i
            · exact T.remain j
        · refine Steady.slot (t := t) (by rw [← hp]; exact ⟨m2, m3⟩) (by rw [← hp]; exact A.conns) hpmax hother
            (fun j st hlive => ?_) (fun j => ?_) (fun j => ?_) ?_
          · rw [hzero j st hlive, unit_slotsIn (hpmax.symm ▸ hlt), hpt, hself, hserver, sub_zero]
            by_cases hj : j = i
            · subst hj
              rw [if_pos rfl]
              rcases hlive with rfl | rfl | rfl
              · simp [reqCount]
              · simp [reqCount]
              · simp [reqCount]
            · rw [if_neg hj, if_neg (fun h => hj (Option.some.inj h.1).symm), add_zero]
          · rw [hserver]
            split
            · next hj =>
              rw [hj]
              rfl
            · rfl
          · rw [hserver]
            split
            · next hj =>
              rw [hj]
              rfl
            · rfl
          · have hpdone : p.lists .done = s₂.lists .done := by
              rw [← hp]
              show Function.update s₂.lists (.server i) (s₂.lists (.server i) ++ [t]) .done = _
              exact Function.update_of_ne PoolList.noConfusion ..
            rw [hpdone, m5, ← hp]
            exact congrArg (fun k => k - ((s.lists .done).length : Int)) m4
      | error err =>
        obtain ⟨rfl, -⟩ := Prod.mk.inj (Option.some.inj h)
        have hquiet := transationFinished_quiet ({ s₂ with issued := s₂.issued ++ [q] }.note s₁.issued.length .add) t
        have htrans := transationFinished_trans ({ s₂ with issued := s₂.issued ++ [q] }.note s₁.issued.length .add) t
        obtain ⟨k1, k2, k3, k4, k5⟩ :=
          transationFinished_rest ({ s₂ with issued := s₂.issued ++ [q] }.note s₁.issued.length .add) t
        have hlists : (({ s₂ with issued := s₂.issued ++ [q] }.note s₁.issued.length .add).transationFinished t).ListsOk := by
          refine ListsOk.transationFinished ?_ hlink₂
          exact A.lists.of_eq rfl (fun _ => rfl)
        have hpfree : (({ s₂ with issued := s₂.issued ++ [q] }.note s₁.issued.length .add).transationFinished t).lists .free =
            s₂.lists .free := transationFinished_list_ne _ _ PoolList.noConfusion
        generalize (({ s₂ with issued := s₂.issued ++ [q] }.note s₁.issued.length .add).transationFinished t) = p at *
        have hpt : p.transList t = { s₂.transList t with state := .done, link := some .done } := by
          rw [htrans, Function.update_self]
          rfl
        have hother : ∀ u, u ≠ t → p.transList u = s.transList u := by
          intro u hu
          rw [← hother₂ u hu, htrans]
          exact Function.update_of_ne hu ..
        have hservers : p.serverList = s.serverList := k1.trans m1
        have hpmax : p.maxRequests = s.maxRequests := hquiet.max.trans A.max
        constructor
        · refine T.slot hlt (hquiet.conns.trans A.conns) hpmax (k2.trans m2) (fun j => by rw [hservers]) hother hlists ?_
            (fun d hd => ?_) hsreq ?_ (fun j => by rw [hservers]; exact T.remain j)
          · rw [hpt]
            exact rfl
          · rw [hpt] at hd
            cases hd
          · rw [hpfree, hquiet.numRequests, hquiet.max]
            exact hfree₂
        · refine Steady.slot (t := t) ⟨k2.trans m2, k3.trans m3⟩ (hquiet.conns.trans A.conns) hpmax hother
            (fun j st hlive => ?_) (fun j => by rw [hservers]) (fun j => by rw [hservers]) ?_
          · have hzero' : Tally.unit (p.slotsIn j st) t = 0 := by
              refine Tally.unit_of_notMem (fun hm => ?_)
              have hdone := hm.2.2
              rw [hpt] at hdone
              rw [← hdone] at hlive
              rcases hlive with h | h | h <;> cases h
            rw [hzero j st hlive, hzero', hservers]
            ring
          · rw [k4, k5]
            show s₂.doneRequests + 1 - ((s₂.lists .done ++ [t]).length : Int) = _
            rw [m4, m5, List.length_append, List.length_singleton]
            push_cast
            ring

theorem Tied.done_of_result (T : s.Tied) (ht : t < s.maxRequests) (hr : (s.transList t).result ≠ none) :
    (s.transList t).state = .done := by
  have hf := T.slots t ht
  cases hst : (s.transList t).state with
  | idle =>
    rw [hst] at hf
    exact absurd hf.2.2 hr
  | wait =>
    rw [hst] at hf
    exact absurd hf.1 hr
  | send =>
    rw [hst] at hf
    exact absurd hf.1 hr
  | recv =>
    rw [hst] at hf
    exact absurd hf.1 hr
  | done => rfl

theorem Tied.numRequests_pos (T : s.Tied) (ht : t < s.maxRequests) (hlink : (s.transList t).link ≠ some .free) :
    0 < s.numRequests := by
  have hnd : (t :: s.lists .free).Nodup :=
    List.nodup_cons.mpr ⟨fun hm => hlink ((T.lists.mem _ t).mp hm), T.lists.nodup _⟩
  have hsub : t :: s.lists .free ⊆ List.range s.maxRequests := by
    intro u hu
    rw [List.mem_range]
    rcases List.mem_cons.mp hu with rfl | hu
    · exact ht
    · exact T.lt_of_link ((T.lists.mem _ u).mp hu)
  have hle := (hnd.subperm hsub).length_le
  rw [List.length_cons, List.length_range] at hle
  have hfree := T.free
  omega

theorem Tied.getTransationResult (T : s.Tied) (ht : t < s.maxRequests) {asked : Int}
    (h : s.getTransationResult t asked = some s') : Goes s s' := by
  obtain ⟨hmax, hservers, hconns, -, hother⟩ := getTransationResult_rest h
  unfold NCPool.getTransationResult at h
  dsimp only at h
  split at h
  · cases h
  next r hr =>
  have hst := T.done_of_result ht (by rw [hr]; exact Option.some_ne_none r)
  have hlink : (s.transList t).link = some .done := by
    have hf := T.slots t ht
    rw [hst] at hf
    exact hf
  have hfree : (s.transList t).link ≠ some .free := by
    rw [hlink]
    exact fun h => by cases h
  have hq := listDel_quiet s t
  have hL : ((s.clear t).listAdd t .free).ListsOk := by
    refine (T.lists.clear t).listAdd ?_ .free
    rw [clear_trans, Function.update_self]
  have hfreeList : ((s.clear t).listAdd t .free).lists .free = t :: s.lists .free := by
    show Function.update (s.listDel t).lists .free (t :: (s.listDel t).lists .free) .free = _
    rw [Function.update_self, listDel_list_ne hfree]
  have hdoneList : ((s.clear t).listAdd t .free).lists .done = (s.lists .done).erase t := by
    show Function.update (s.listDel t).lists .free (t :: (s.listDel t).lists .free) .done = _
    rw [Function.update_of_ne PoolList.noConfusion, listDel_list hlink]
  have hdel : (s.listDel t).numServers = s.numServers ∧ (s.listDel t).maxServers = s.maxServers ∧
      (s.listDel t).doneRequests = s.doneRequests := by
    unfold listDel
    split
    · exact ⟨rfl, rfl, rfl⟩
    · exact ⟨rfl, rfl, rfl⟩
  -- with and without a packet the slots and the counters are the same
  obtain ⟨k1, k2, k3, k4, k5⟩ : s'.transList = ((s.clear t).listAdd t .free).transList ∧
      s'.lists = ((s.clear t).listAdd t .free).lists ∧ s'.doneRequests = s.doneRequests - 1 ∧
      s'.numRequests = s.numRequests - 1 ∧ (s'.numServers = s.numServers ∧ s'.maxServers = s.maxServers) := by
    have h3 : (s.listDel t).doneRequests - 1 = s.doneRequests - 1 := by rw [hdel.2.2]
    have h4 : (s.listDel t).numRequests - 1 = s.numRequests - 1 := by rw [hq.numRequests]
    split at h
    · obtain rfl := Option.some.inj h
      exact ⟨rfl, rfl, h3, h4, hdel.1, hdel.2.1⟩
    · obtain rfl := Option.some.inj h
      exact ⟨rfl, rfl, h3, h4, hdel.1, hdel.2.1⟩
  have hslot : s'.transList t = { s.transList t with
      link := some .free, genId := (s.transList t).genId + 1, state := .idle, reqTag := 0, server := none, packet := none,
      result := none } := by
    rw [k1, collected_trans, Function.update_self]
  constructor
  · refine T.slot ht hconns hmax k5.1 (fun j => by rw [hservers]) hother (hL.of_eq k2 (fun u => by rw [k1])) ?_
      (fun d hd => ?_) (T.sreqOf_ne (by rw [hst]; exact TransState.noConfusion)) ?_
      (fun j => by rw [hservers]; exact T.remain j)
    · rw [hslot]
      exact ⟨rfl, rfl, rfl⟩
    · rw [hslot] at hd
      cases hd
    · rw [k2, hfreeList, k4, hmax, List.length_cons]
      have hpos := T.numRequests_pos ht hfree
      have hf := T.free
      omega
  · refine Steady.slot (t := t) k5 hconns hmax hother (fun j st hlive => ?_) (fun j => by rw [hservers])
      (fun j => by rw [hservers]) ?_
    · have hzero : Tally.unit (s.slotsIn j st) t = 0 := by
        refine Tally.unit_of_notMem (fun hm => ?_)
        rw [← hm.2.2, hst] at hlive
        rcases hlive with h | h | h <;> cases h
      have hzero' : Tally.unit (s'.slotsIn j st) t = 0 := by
        refine Tally.unit_of_notMem (fun hm => ?_)
        have hserver := hm.2.1
        rw [hslot] at hserver
        cases hserver
      rw [hzero, hzero', hservers]
      ring
    · have hmem : t ∈ s.lists .done := (T.lists.mem _ t).mpr hlink
      have hpos := List.length_pos_of_mem hmem
      rw [k2, hdoneList, k3, List.length_erase_of_mem hmem]
      omega

theorem Tied.abortRequest (T : s.Tied) (ht : t < s.maxRequests) (hok : s.Abortable t) (h : s.abortRequest t = some s') :
    Goes s s' := by
  -- a slot with a server that may be aborted is counted by the server
  have hopened : ∀ i, (s.transList t).server = some i → Opened (s.transList t) := by
    intro i hs
    cases hst : (s.transList t).state with
    | idle =>
      have hf := T.slots t ht
      rw [hst] at hf
      rw [hf.2.1] at hs
      cases hs
    | wait => exact .inl hst
    | send => exact .inr (.inl hst)
    | recv => exact .inr (.inr hst)
    | done => exact absurd ⟨hst, by rw [hs]; exact Option.some_ne_none i⟩ hok.1
  unfold NCPool.abortRequest at h
  dsimp only at h
  split at h
  · next c i hc hs =>
    split at h
    · cases h
    · split at h
      · obtain rfl := Option.some.inj h
        exact T.close c _
      · split at h
        · obtain rfl := Option.some.inj h
          exact T.abortSendSide c _
        · next hne =>
          obtain rfl := Option.some.inj h
          exact T.abort ht (hopened i hs) (T.sreqOf_ne hne) _
      · next hmode =>
        obtain rfl := Option.some.inj h
        refine T.abort ht (hopened i hs) (T.sreqOf_ne (fun hsend => hok.2 ⟨hsend, ?_⟩)) _
        rw [hs]
        exact congrArg some hmode
  · cases h
  · next i hc hs =>
    obtain rfl := Option.some.inj h
    refine T.abort ht (hopened i hs) (fun d hd => ?_) _
    rw [(T.sreq d t hd).2.2.1] at hc
    cases hc
  · obtain rfl := Option.some.inj h
    exact T.goes

theorem Tied.cancelSlot (T : s.Tied) (ht : t < s.maxRequests) (hok : s.Abortable t) {asked : Int}
    (h : s.cancelSlot t asked = some s') : Goes s s' := by
  obtain ⟨s₁, h1, h2⟩ := Option.bind_eq_some_iff.mp h
  have G := T.abortRequest ht hok h1
  exact G.trans (G.tied.getTransationResult ((ages_frame.abortRequest h1).max ▸ ht) h2)

theorem Tied.getResult (T : s.Tied) {reqId : Int} (h : s.getResult reqId = some s') : Goes s s' := by
  unfold NCPool.getResult at h
  split at h
  · split at h
    · obtain rfl := Option.some.inj h
      exact T.goes
    · next t ts hts =>
      have hlink := (T.lists.mem .done t).mp (by rw [hts]; exact List.mem_cons_self ..)
      exact T.getTransationResult (T.lt_of_link hlink) h
  · split at h
    · obtain rfl := Option.some.inj h
      exact T.goes
    · next t ht =>
      split at h
      · exact T.getTransationResult (id2Req_spec T.size ht).1 h
      · obtain rfl := Option.some.inj h
        exact T.goes

/-- The limits of the servers, for requests and for connections, after one more event. -/
def limitsAdd (maxServers : Nat) (ls : List (Nat × Nat)) : PoolEvent → List (Nat × Nat)
  | .addServer dgram mReq mConn =>
    if maxServers ≤ ls.length then ls
    else if dgram then (if mConn ≤ 1 then ls ++ [(mReq, 1)] else ls)
    else if mConn = 0 then ls ++ [(mReq, mReq)]
    else if mReq < mConn then ls
    else ls ++ [(mReq, mConn)]
  | _ => ls

/-- The limits that `AddServer` was given in a run. -/
def limits (maxServers : Nat) (as : List PoolEvent) : List (Nat × Nat) := as.foldl (limitsAdd maxServers) []

/-- **The counters of a server** with the limits `mReq` and `mConn`. -/
structure ServerAccounts (s : NCPool) (i mReq mConn : Nat) : Prop where
  reqWait : (s.serverList i).reqWait = (s.slotsIn i .wait).ncard
  reqSend : (s.serverList i).reqSend = (s.slotsIn i .send).ncard
  reqRecv : (s.serverList i).reqRecv = (s.slotsIn i .recv).ncard
  reqRemain : (s.serverList i).reqRemain = mReq - (s.serverList i).reqSend - (s.serverList i).reqRecv
  connTotal : (s.serverList i).connTotal = mConn
  connRemain : (s.serverList i).connRemain = (s.serverList i).connTotal - (s.connsOf i).ncard
  connConnecting : (s.serverList i).connConnecting = (s.connectingOf i).ncard
  requests : (s.slotsIn i .send).ncard + (s.slotsIn i .recv).ncard ≤ mReq
  connections : (s.connsOf i).ncard ≤ mConn

/-- **The accounts of the pool**, with the limits of its servers. -/
structure Accounts (ls : List (Nat × Nat)) (s : NCPool) : Prop where
  numServers : s.numServers = ls.length
  numRequests : s.numRequests = {t | t < s.maxRequests ∧ t ∉ s.lists .free}.ncard
  doneRequests : s.doneRequests = (s.lists .done).length
  servers : ∀ i mReq mConn, ls[i]? = some (mReq, mConn) → s.ServerAccounts i mReq mConn

/-- Every counter is at its number. -/
structure Level (ls : List (Nat × Nat)) (s : NCPool) : Prop where
  tied : s.Tied
  servers : s.numServers = ls.length
  requests : ∀ i st, Live st → reqCount (s.serverList i) st = (s.slotsIn i st).ncard
  load : ∀ i, reqLoad (s.serverList i) = (ls.getD i (0, 0)).1
  conns : ∀ i, (s.serverList i).connRemain + (s.connsOf i).ncard = (ls.getD i (0, 0)).2
  connecting : ∀ i, (s.serverList i).connConnecting = (s.connectingOf i).ncard
  total : ∀ i, (s.serverList i).connTotal = (ls.getD i (0, 0)).2
  done : s.doneRequests = (s.lists .done).length

variable {ls : List (Nat × Nat)}

theorem Level.goes (h : Level ls s) (G : Goes s s') : Level ls s' := by
  refine ⟨G.tied, G.steady.servers.1.trans h.servers, fun i st hst => ?_, fun i => (G.steady.load i).trans (h.load i),
    fun i => (G.steady.conns i).trans (h.conns i), fun i => ?_, fun i => (G.steady.total i).trans (h.total i), ?_⟩
  · have hsame := G.steady.requests i st hst
    rw [h.requests i st hst, sub_self] at hsame
    exact sub_eq_zero.mp hsame
  · have hsame := G.steady.connecting i
    rw [h.connecting i, sub_self] at hsame
    exact sub_eq_zero.mp hsame
  · have hsame := G.steady.done
    rw [h.done, sub_self] at hsame
    exact sub_eq_zero.mp hsame

theorem Level.newServer (h : Level ls s) (mode : ServerMode) (mReq m : Nat) :
    Level (ls ++ [(mReq, m)]) { s.setServer s.numServers { mode := mode, reqRemain := mReq, connRemain := m, connTotal := m }
      with numServers := s.numServers + 1 } := by
  generalize hp : ({ s.setServer s.numServers { mode := mode, reqRemain := mReq, connRemain := m, connTotal := m }
    with numServers := s.numServers + 1 } : NCPool) = p
  have hserver : ∀ j, p.serverList j = if j = s.numServers then
      { mode := mode, reqRemain := mReq, connRemain := m, connTotal := m } else s.serverList j := by
    intro j
    rw [← hp]
    exact setServer_apply ..
  have hlast : (ls ++ [(mReq, m)]).getD s.numServers (0, 0) = (mReq, m) := by
    rw [h.servers, List.getD_eq_getElem?_getD, List.getElem?_concat_length]
    rfl
  have hold : ∀ j, j ≠ s.numServers → (ls ++ [(mReq, m)]).getD j (0, 0) = ls.getD j (0, 0) := by
    intro j hj
    rw [h.servers] at hj
    rw [List.getD_eq_getElem?_getD, List.getD_eq_getElem?_getD]
    rcases Nat.lt_or_gt_of_ne hj with hlt | hgt
    · rw [List.getElem?_append_left hlt]
    · rw [List.getElem?_eq_none (Nat.le_of_lt hgt), List.getElem?_eq_none]
      rw [List.length_append, List.length_singleton]
      exact hgt
  have hslots : ∀ j st, p.slotsIn j st = s.slotsIn j st := by
    intro j st
    rw [← hp]
    rfl
  have hsets : ∀ j, p.connsOf j = s.connsOf j ∧ p.connectingOf j = s.connectingOf j := by
    intro j
    rw [← hp]
    exact ⟨rfl, rfl⟩
  -- nothing belongs to a server that is not there yet
  have hnoSlot : ∀ st, Live st → s.slotsIn s.numServers st = ∅ := by
    intro st hst
    refine Set.eq_empty_of_forall_notMem (fun t ht => ?_)
    obtain ⟨hlt, hs, hstate⟩ := ht
    rw [← hstate] at hst
    obtain ⟨⟨i, hi, hs'⟩, -⟩ := h.tied.opened hlt hst
    rw [hs] at hs'
    exact absurd hi (Option.some.inj hs' ▸ Nat.lt_irrefl _)
  have hnoConn : s.connsOf s.numServers = ∅ :=
    Set.eq_empty_of_forall_notMem (fun c hc => absurd (h.tied.owners c _ hc) (Nat.lt_irrefl _))
  have hnoConnecting : s.connectingOf s.numServers = ∅ :=
    Set.eq_empty_of_forall_notMem (fun c hc => absurd (h.tied.owners c _ hc.1) (Nat.lt_irrefl _))
  refine ⟨?_, ?_, fun j st hst => ?_, fun j => ?_, fun j => ?_, fun j => ?_, fun j => ?_, ?_⟩
  · have hstands : ∀ (x : NCTransation) (st : TransState), Stands s.numServers x st → Stands (s.numServers + 1) x st := by
      intro x st hx
      cases st with
      | idle => exact hx
      | wait =>
        obtain ⟨h1, i, hi, h2⟩ := hx
        exact ⟨h1, i, Nat.lt_succ_of_lt hi, h2⟩
      | send =>
        obtain ⟨h1, h2, i, hi, h3⟩ := hx
        exact ⟨h1, h2, i, Nat.lt_succ_of_lt hi, h3⟩
      | recv =>
        obtain ⟨h1, h2, i, hi, h3⟩ := hx
        exact ⟨h1, h2, i, Nat.lt_succ_of_lt hi, h3⟩
      | done => exact hx
    have T : (s.setServer s.numServers { mode := mode, reqRemain := mReq, connRemain := m, connTotal := m }).Tied :=
      h.tied.setServer (fun c hc => absurd hc List.not_mem_nil) List.nodup_nil ⟨Int.natCast_nonneg _, Int.natCast_nonneg _⟩
    rw [← hp]
    exact ⟨T.lists.of_eq rfl (fun _ => rfl), fun t ht => hstands _ _ (T.slots t ht),
      T.beyond, T.sreq, T.recv, T.idle, T.once, T.free,
      fun c i hc => Nat.lt_succ_of_lt (T.owners c i hc), T.finite, T.remain, T.size⟩
  · rw [← hp, List.length_append, List.length_singleton]
    exact congrArg (fun k => k + 1) h.servers
  · rw [hserver, hslots]
    split
    · next hj =>
      rw [hj, hnoSlot st hst, Set.ncard_empty]
      rcases hst with rfl | rfl | rfl <;> rfl
    · exact h.requests j st hst
  · rw [hserver]
    split
    · next hj =>
      rw [hj, hlast]
      exact (add_zero _).trans (add_zero _)
    · next hj =>
      rw [hold j hj]
      exact h.load j
  · rw [hserver, (hsets j).1]
    split
    · next hj =>
      rw [hj, hlast, hnoConn, Set.ncard_empty]
      exact add_zero _
    · next hj =>
      rw [hold j hj]
      exact h.conns j
  · rw [hserver, (hsets j).2]
    split
    · next hj =>
      rw [hj, hnoConnecting, Set.ncard_empty]
      rfl
    · exact h.connecting j
  · rw [hserver]
    split
    · next hj => rw [hj, hlast]
    · next hj =>
      rw [hold j hj]
      exact h.total j
  · rw [← hp]
    exact h.done

theorem Level.addServer (h : Level ls s) (dgram : Bool) (mReq mConn : Nat) :
    Level (limitsAdd s.maxServers ls (.addServer dgram mReq mConn)) (s.addServer dgram mReq mConn) ∧
      (s.addServer dgram mReq mConn).maxServers = s.maxServers := by
  unfold NCPool.addServer limitsAdd
  dsimp only
  rw [h.servers]
  split
  · exact ⟨h, rfl⟩
  · cases dgram with
    | true =>
      by_cases hm : mConn ≤ 1
      · rw [if_pos rfl, if_pos rfl, if_pos hm, if_pos hm, ← h.servers]
        exact ⟨h.newServer _ mReq 1, rfl⟩
      · rw [if_pos rfl, if_pos rfl, if_neg hm, if_neg hm]
        exact ⟨h, rfl⟩
    | false =>
      rw [if_neg Bool.false_ne_true, if_neg Bool.false_ne_true]
      by_cases hz : mConn = 0
      · rw [if_pos hz, if_pos hz, ← h.servers]
        exact ⟨h.newServer _ mReq mReq, rfl⟩
      · rw [if_neg hz, if_neg hz]
        by_cases hm : mReq < mConn
        · rw [if_pos hm, if_pos hm]
          exact ⟨h, rfl⟩
        · rw [if_neg hm, if_neg hm, ← h.servers]
          exact ⟨h.newServer _ mReq mConn, rfl⟩

/-- **The condition on an event**, read before it: no connect fails, and the requests that are aborted may be. -/
def AccountOk (s : NCPool) : PoolEvent → Prop
  | .serverTimer i _ _ r => s.ConnectOk i r
  | .abortRequest reqId => s.AbortableId reqId
  | .cancelRequest reqId => s.AbortableId reqId
  | .abortAllRequest type => type < 16 → s.AllAbortable (type &&& 7)
  | .cancelAllRequest type => type < 16 → s.AllAbortable type
  | _ => True

theorem Tied.orCrash (T : s.Tied) {o : Option NCPool} (h : ∀ p, o = some p → Goes s p) : Goes s (s.orCrash o) := by
  cases o with
  | none =>
    refine ⟨?_, fun _ _ _ => rfl, fun _ => rfl, fun _ => rfl, fun _ => rfl, fun _ => rfl, rfl, rfl, rfl⟩
    exact T.of_conns rfl rfl rfl rfl rfl T.sreq T.recv T.idle T.once T.owners T.finite T.remain
  | some p => exact h p rfl

theorem Level.step {a : PoolEvent} (h : Level ls s) (hok : s.AccountOk a) (hstep : s.step a = some s') :
    Level (limitsAdd s.maxServers ls a) s' ∧ s'.maxServers = s.maxServers := by
  have T := h.tied
  have hgoes : Goes s s' → Level ls s' ∧ s'.maxServers = s.maxServers := fun G => ⟨h.goes G, G.steady.servers.2⟩
  unfold NCPool.step at hstep
  split at hstep
  · cases hstep
  cases a with
  | addServer dgram mReq mConn =>
    obtain rfl := Option.some.inj hstep
    exact h.addServer dgram mReq mConn
  | addRequest server tag encoded =>
    obtain rfl := Option.some.inj hstep
    refine hgoes (T.orCrash (fun p hp => ?_))
    obtain ⟨⟨s₁, k⟩, h1, rfl⟩ := Option.map_eq_some_iff.mp hp
    exact T.addRequest h1
  | serverTimer i c send r =>
    dsimp only at hstep
    split at hstep
    · next hc =>
      obtain rfl := Option.some.inj hstep
      exact hgoes (T.orCrash (fun p hp => T.serverTimer hc hok send hp))
    · cases hstep
  | input c e =>
    obtain ⟨y, -, rfl⟩ := Option.map_eq_some_iff.mp hstep
    exact hgoes (T.inputNotify c y e)
  | output c r =>
    obtain ⟨y, -, rfl⟩ := Option.map_eq_some_iff.mp hstep
    exact hgoes (T.orCrash (fun p hp => T.outputNotify c y r hp))
  | hangup c =>
    obtain ⟨y, -, rfl⟩ := Option.map_eq_some_iff.mp hstep
    exact hgoes (T.hangupNotify c)
  | timer c =>
    obtain ⟨y, -, rfl⟩ := Option.map_eq_some_iff.mp hstep
    exact hgoes (T.timerNotify c y)
  | abortRequest reqId =>
    obtain rfl := Option.some.inj hstep
    refine hgoes (T.orCrash (fun p hp => ?_))
    unfold NCPool.abortRequestId at hp
    split at hp
    · obtain rfl := Option.some.inj hp
      exact T.goes
    · next t ht =>
      have hlt := (id2Req_spec T.size ht).1
      exact T.abortRequest hlt (hok t hlt ht) hp
  | cancelRequest reqId =>
    obtain rfl := Option.some.inj hstep
    refine hgoes (T.orCrash (fun p hp => ?_))
    unfold NCPool.cancelRequest at hp
    split at hp
    · obtain rfl := Option.some.inj hp
      exact T.goes
    · next t ht =>
      have hlt := (id2Req_spec T.size ht).1
      exact T.cancelSlot hlt (hok t hlt ht) hp
  | abortAllRequest type =>
    obtain rfl := Option.some.inj hstep
    exact hgoes (T.orCrash (fun p hp => abortAllRequest_induct (P := Goes s) T.goes hok
      (fun _ _ _ G ht hab h => G.trans (G.tied.abortRequest ht hab h)) hp))
  | cancelAllRequest type =>
    obtain rfl := Option.some.inj hstep
    exact hgoes (T.orCrash (fun p hp => cancelAllRequest_induct (P := Goes s) T.goes hok
      (fun _ _ _ G ht hab h => G.trans (G.tied.cancelSlot ht hab h)) hp))
  | getResult reqId =>
    obtain rfl := Option.some.inj hstep
    exact hgoes (T.orCrash (fun p hp => T.getResult hp))

theorem Level.run : ∀ (as : List PoolEvent) (ls : List (Nat × Nat)) (s s' : NCPool), Level ls s →
    ncPoolMachine.RunMeets AccountOk s as → ncPoolMachine.run s as = some s' →
      Level (as.foldl (limitsAdd s.maxServers) ls) s'
  | [], ls, s, s', h, _, hr => by
    obtain rfl : s = s' := Option.some.inj hr
    exact h
  | a :: as, ls, s, s', h, hok, hr => by
    obtain ⟨p, hp, hr'⟩ := ncPoolMachine.run_cons hr
    obtain ⟨h', hmax⟩ := h.step hok.1 hp
    have hrest := Level.run as _ p s' h' (hok.2 p hp) hr'
    rw [hmax] at hrest
    exact hrest

theorem level_create {ms mr : Nat} (hmr : 0 < mr) : Level [] (create ms mr) := by
  have I : (create ms mr).Inv := inv_create hmr
  have hslot : ∀ t, (create ms mr).transList t = if t < min mr (2 ^ 20) then { link := some .free } else {} := fun _ => rfl
  have hserver : ∀ t, ((create ms mr).transList t).server = none := by
    intro t
    rw [hslot]
    split <;> rfl
  have hslots : ∀ i st, (create ms mr).slotsIn i st = ∅ := by
    intro i st
    refine Set.eq_empty_of_forall_notMem (fun t ht => ?_)
    have hs := ht.2.1
    rw [hserver] at hs
    cases hs
  have hconns : ∀ i, (create ms mr).connsOf i = ∅ ∧ (create ms mr).connectingOf i = ∅ := by
    intro i
    refine ⟨Set.eq_empty_of_forall_notMem (fun c hc => ?_), Set.eq_empty_of_forall_notMem (fun c hc => ?_)⟩
    · have hs : (none : Option Nat) = some i := hc
      cases hs
    · have hs : (none : Option Nat) = some i := hc.1
      cases hs
  have T : (create ms mr).Tied := by
    refine ⟨I.wired.lists, fun t ht => ?_, fun t ht => (I.wired.beyond t ht).1, fun c t h => (by cases h), fun t c h => ?_,
      fun i c h => absurd h List.not_mem_nil, fun i => List.nodup_nil, I.wired.free, fun c i h => (by cases h), ?_,
      fun i => ⟨le_refl _, le_refl _⟩, I.size.1⟩
    · rw [hslot, if_pos (show t < min mr (2 ^ 20) from ht)]
      exact ⟨rfl, rfl, rfl⟩
    · rw [hslot] at h
      split at h
      · cases h
      · cases h
    · refine Set.finite_empty.subset (fun c hc => hc rfl)
  refine ⟨T, rfl, fun i st hst => ?_, fun i => rfl, fun i => ?_, fun i => ?_, fun i => rfl, rfl⟩
  · rw [hslots, Set.ncard_empty]
    rcases hst with rfl | rfl | rfl <;> rfl
  · rw [(hconns i).1, Set.ncard_empty]
    rfl
  · rw [(hconns i).2, Set.ncard_empty]
    rfl

theorem Tied.ncard_used (T : s.Tied) : s.numRequests = {t | t < s.maxRequests ∧ t ∉ s.lists .free}.ncard := by
  have hset : {t | t < s.maxRequests ∧ t ∉ s.lists .free} =
      ((Finset.range s.maxRequests \ (s.lists .free).toFinset : Finset Nat) : Set Nat) := by
    ext t
    simp
  have hsub : (s.lists .free).toFinset ⊆ Finset.range s.maxRequests := by
    intro t ht
    rw [Finset.mem_range]
    exact T.lt_of_link ((T.lists.mem _ t).mp (List.mem_toFinset.mp ht))
  rw [hset, Set.ncard_coe_finset, Finset.card_sdiff_of_subset hsub, Finset.card_range,
    List.toFinset_card_of_nodup (T.lists.nodup _), ← T.free]
  exact (Nat.add_sub_cancel ..).symm

theorem Level.accounts (h : Level ls s) : Accounts ls s := by
  refine ⟨h.servers, h.tied.ncard_used, h.done, fun i mReq mConn hi => ?_⟩
  have hd : ls.getD i (0, 0) = (mReq, mConn) := by
    rw [List.getD_eq_getElem?_getD, hi]
    rfl
  have hwait := h.requests i .wait (.inl rfl)
  have hsend := h.requests i .send (.inr (.inl rfl))
  have hrecv := h.requests i .recv (.inr (.inr rfl))
  have hload := h.load i
  have hconns := h.conns i
  have htotal := h.total i
  have hremain := h.tied.remain i
  rw [hd] at hload hconns htotal
  dsimp only [reqCount, reqLoad] at hwait hsend hrecv hload hconns htotal
  exact ⟨hwait, hsend, hrecv, by omega, htotal, by omega, h.connecting i, by omega, by omega⟩

instance decidableStays : ∀ r : AsyncConnect, Decidable r.Stays
  | .connected attached => inferInstanceAs (Decidable (attached = true))
  | .inProgress attached => inferInstanceAs (Decidable (attached = true))
  | .failed _ => isFalse id

instance decidableAccountOk (s : NCPool) : ∀ a, Decidable (s.AccountOk a)
  | .serverTimer i _ _ r =>
    inferInstanceAs (Decidable (s.lists (.server i) ≠ [] → 0 < (s.serverList i).reqRemain →
      (s.serverList i).idleList = [] → (s.serverList i).connRemain ≠ 0 →
      (s.serverList i).connConnecting < (s.serverList i).reqWait → r.Stays))
  | .abortRequest reqId => inferInstanceAs (Decidable (s.StepOk (.abortRequest reqId)))
  | .cancelRequest reqId => inferInstanceAs (Decidable (s.StepOk (.cancelRequest reqId)))
  | .abortAllRequest type => inferInstanceAs (Decidable (s.StepOk (.abortAllRequest type)))
  | .cancelAllRequest type => inferInstanceAs (Decidable (s.StepOk (.cancelAllRequest type)))
  | .addServer .. => isTrue trivial
  | .addRequest .. => isTrue trivial
  | .input .. => isTrue trivial
  | .output .. => isTrue trivial
  | .hangup .. => isTrue trivial
  | .timer .. => isTrue trivial
  | .getResult .. => isTrue trivial

/-- **Every counter is the number it stands for**, and no server has more connections or requests than its limits, in every
run in which no connect fails and every request that is aborted may be. -/
theorem ncPoolMachine_accounts {ms mr : Nat} {as : List PoolEvent} (hmr : 0 < mr)
    (hok : ncPoolMachine.RunMeets AccountOk (create ms mr) as) (hrun : ncPoolMachine.run (create ms mr) as = some s) :
    Accounts (limits (min ms (2 ^ 20)) as) s :=
  (Level.run as [] (create ms mr) s (level_create hmr) hok hrun).accounts

theorem ncPoolMachine_accounts_twoResults : ∃ s, ncPoolMachine.run (create 1 2) twoResults = some s ∧
    Accounts [(2, 1)] s ∧ s.numRequests = 1 ∧ (s.serverList 0).connRemain = 0 := by
  have hmeets : ncPoolMachine.RunMeets AccountOk (create 1 2) twoResults := by decide
  have hrun : (ncPoolMachine.run (create 1 2) twoResults).map (fun s => (s.numRequests, (s.serverList 0).connRemain)) =
      some (1, 0) := by decide
  obtain ⟨s, hs, hval⟩ := Option.map_eq_some_iff.mp hrun
  obtain ⟨h1, h2⟩ := Prod.mk.inj hval
  exact ⟨s, hs, ncPoolMachine_accounts (by decide) hmeets hs, h1, h2⟩

/-- **A connect that fails counts its connection out twice**: by the error path of `Connect` and by the destructor. -/
theorem ncPoolMachine_connectFails : ∃ s, ncPoolMachine.run (create 1 1)
    [.addServer false 1 1, .addRequest (some 0) 7 (.ok 5), .serverTimer 0 9 .done (.failed (-111))] = some s ∧
      (s.serverList 0).connRemain = 2 ∧ (s.serverList 0).connTotal = 1 ∧ ¬ Accounts [(1, 1)] s := by
  have hrun : (ncPoolMachine.run (create 1 1)
      [.addServer false 1 1, .addRequest (some 0) 7 (.ok 5), .serverTimer 0 9 .done (.failed (-111))]).map
        (fun s => ((s.serverList 0).connRemain, (s.serverList 0).connTotal)) = some (2, 1) := by decide
  obtain ⟨s, hs, hval⟩ := Option.map_eq_some_iff.mp hrun
  obtain ⟨h1, h2⟩ := Prod.mk.inj hval
  refine ⟨s, hs, h1, h2, fun hacc => ?_⟩
  have hserver := (hacc.servers 0 1 1 rfl).connRemain
  rw [h1, h2] at hserver
  omega

end NCPool
end Dtc
