import DtcServer.NcPoolRun
/-!
# NcPoolStale — ids of the client's pool that stand for no request

An id is the place of its slot and the generation of the slot.  A slot without a request has a generation as well, and
`Id2Req` does not look at anything else.
-/
namespace Dtc
namespace NCPool

variable {s s' s'' : NCPool} {t u c i n : Nat} {l : PoolList} {x : NCTransation} {err : Int} {reqId : Int}

/-! ## What the calls return -/

def requestState (s : NCPool) (reqId : Int) : Int :=
  match s.id2Req reqId with
  | none => -22
  | some t => (s.transList t).state.code

/-- What `AbortRequest` of a slot returns: 1 when it follows the connection or the server. -/
def abortRequestCode (s : NCPool) (t : Nat) : Int :=
  match (s.transList t).conn, (s.transList t).server with
  | none, none => 0
  | _, _ => 1

/-- `AbortRequest` of an id, with what it returns. -/
def abortRequestIdRet (s : NCPool) (reqId : Int) : Option (NCPool × Int) :=
  match s.id2Req reqId with
  | none => some (s, -22)
  | some t => (s.abortRequest t).map (fun s' => (s', s.abortRequestCode t))

/-- `CancelRequest`, with what it returns. -/
def cancelRequestRet (s : NCPool) (reqId : Int) : Option (NCPool × Int) :=
  match s.id2Req reqId with
  | none => some (s, -22)
  | some t => (s.cancelSlot t reqId).map (fun s' => (s', 1))

/-- `GetTransationResult`, with the result. -/
def takeResult (s : NCPool) (t : Nat) (asked : Int) : Option (NCPool × Except Int NCResult) :=
  (s.transList t).result.bind (fun r => (s.getTransationResult t asked).map (fun s' => (s', .ok r)))

/-- `GetResult`, with the result or the number in the place of the pointer to one. -/
def getResultRet (s : NCPool) (reqId : Int) : Option (NCPool × Except Int NCResult) :=
  if reqId = 0 then
    match s.lists .done with
    | [] => some (s, .error (-11))
    | t :: _ => s.takeResult t 0
  else
    match s.id2Req reqId with
    | none => some (s, .error (-22))
    | some t =>
      if (s.transList t).state = .done then s.takeResult t reqId else some (s, .error (s.transList t).state.code)

theorem abortRequestIdRet_fst (s : NCPool) (reqId : Int) :
    (s.abortRequestIdRet reqId).map Prod.fst = s.abortRequestId reqId := by
  unfold abortRequestIdRet abortRequestId
  cases s.id2Req reqId with
  | none => rfl
  | some t =>
    dsimp only
    rw [Option.map_map]
    exact Option.map_id_apply

theorem cancelRequestRet_fst (s : NCPool) (reqId : Int) :
    (s.cancelRequestRet reqId).map Prod.fst = s.cancelRequest reqId := by
  unfold cancelRequestRet cancelRequest
  cases s.id2Req reqId with
  | none => rfl
  | some t =>
    dsimp only
    rw [Option.map_map]
    exact Option.map_id_apply

theorem takeResult_fst (s : NCPool) (t : Nat) (asked : Int) :
    (s.takeResult t asked).map Prod.fst = s.getTransationResult t asked := by
  cases hr : (s.transList t).result with
  | none =>
    unfold takeResult getTransationResult
    dsimp only
    rw [hr]
    rfl
  | some r =>
    unfold takeResult
    rw [hr, Option.bind_some, Option.map_map]
    exact Option.map_id_apply

theorem getResultRet_fst (s : NCPool) (reqId : Int) : (s.getResultRet reqId).map Prod.fst = s.getResult reqId := by
  unfold getResultRet getResult
  by_cases h0 : reqId = 0
  · rw [if_pos h0, if_pos h0]
    cases s.lists .done with
    | nil => rfl
    | cons t ts => exact takeResult_fst ..
  · rw [if_neg h0, if_neg h0]
    cases s.id2Req reqId with
    | none => rfl
    | some t =>
      dsimp only
      by_cases hst : (s.transList t).state = .done
      · rw [if_pos hst, if_pos hst]
        exact takeResult_fst ..
      · rw [if_neg hst, if_neg hst]
        rfl

/-- **The four calls refuse an id**: each returns an error, and the pool stays as it is. -/
structure Refuses (s : NCPool) (reqId : Int) : Prop where
  cancel : ∃ e < 0, s.cancelRequestRet reqId = some (s, e)
  abort : ∃ e < 0, s.abortRequestIdRet reqId = some (s, e)
  state : s.requestState reqId < 0
  get : ∃ e < 0, s.getResultRet reqId = some (s, .error e)

/-! ## What most operations leave alone -/

/-- The requests stay in their slots, the slots keep their generation, and nothing is collected. -/
structure Stays (s s' : NCPool) : Prop where
  max : s'.maxRequests = s.maxRequests
  issued : s'.issued = s.issued
  packet : ∀ t, (s'.transList t).packet = (s.transList t).packet
  genId : ∀ t, (s'.transList t).genId = (s.transList t).genId
  collect : ∀ n, (n, .collect) ∈ s'.history → (n, .collect) ∈ s.history

theorem Stays.refl (s : NCPool) : Stays s s := ⟨rfl, rfl, fun _ => rfl, fun _ => rfl, fun _ h => h⟩

theorem Stays.trans (h : Stays s s') (h' : Stays s' s'') : Stays s s'' :=
  ⟨h'.max.trans h.max, h'.issued.trans h.issued, fun t => (h'.packet t).trans (h.packet t),
    fun t => (h'.genId t).trans (h.genId t), fun n hn => h.collect n (h'.collect n hn)⟩

theorem Stays.of_update (h : s'.transList = Function.update s.transList t x) (hp : x.packet = (s.transList t).packet)
    (hg : x.genId = (s.transList t).genId) (hmax : s'.maxRequests = s.maxRequests) (hissued : s'.issued = s.issued)
    (hcollect : ∀ n, (n, .collect) ∈ s'.history → (n, .collect) ∈ s.history) : Stays s s' := by
  refine ⟨hmax, hissued, fun u => ?_, fun u => ?_, hcollect⟩
  · rw [h, Function.update_apply]
    split
    · next hu => rw [hu, hp]
    · rfl
  · rw [h, Function.update_apply]
    split
    · next hu => rw [hu, hg]
    · rfl

theorem stays_setTrans (hp : x.packet = (s.transList t).packet) (hg : x.genId = (s.transList t).genId) :
    Stays s (s.setTrans t x) :=
  .of_update rfl hp hg rfl rfl (fun _ h => h)

theorem stays_setList (s : NCPool) (l : PoolList) (ts : List Nat) : Stays s (s.setList l ts) :=
  ⟨rfl, rfl, fun _ => rfl, fun _ => rfl, fun _ h => h⟩

theorem stays_setConn (s : NCPool) (c : Nat) (y : NCConnection) : Stays s (s.setConn c y) :=
  ⟨rfl, rfl, fun _ => rfl, fun _ => rfl, fun _ h => h⟩

theorem stays_setServer (s : NCPool) (i : Nat) (v : NCServerInfo) : Stays s (s.setServer i v) :=
  ⟨rfl, rfl, fun _ => rfl, fun _ => rfl, fun _ h => h⟩

theorem stays_listDel (s : NCPool) (t : Nat) : Stays s (s.listDel t) := by
  unfold listDel
  split
  · exact Stays.refl s
  · exact (stays_setList s _ _).trans (stays_setTrans rfl rfl)

theorem stays_listAdd (s : NCPool) (t : Nat) (l : PoolList) : Stays s (s.listAdd t l) :=
  (stays_setList s _ _).trans (stays_setTrans rfl rfl)

theorem stays_listAddTail (s : NCPool) (t : Nat) (l : PoolList) : Stays s (s.listAddTail t l) :=
  (stays_setList s _ _).trans (stays_setTrans rfl rfl)

theorem stays_transationFinished (s : NCPool) (t : Nat) : Stays s (s.transationFinished t) := by
  have hq := transationFinished_quiet s t
  refine .of_update (transationFinished_trans s t) rfl rfl hq.max hq.issued (fun n hn => ?_)
  unfold transationFinished at hn
  dsimp only at hn
  split at hn
  · exact hn
  · rcases List.mem_cons.mp hn with he | hn
    · cases he
    · exact hn

theorem stays_abort (s : NCPool) (t : Nat) (err : Int) : Stays s (s.abort t err) := by
  cases h : (s.transList t).server with
  | none =>
    rw [abort_none h]
    exact Stays.refl s
  | some i =>
    have hq := aborting_quiet s t i err
    have h1 : Stays s (s.aborting t i err) := by
      refine .of_update (aborting_trans s t i err) rfl rfl hq.max hq.issued (fun n hn => ?_)
      rw [aborting_history] at hn
      exact hn
    rw [abort_eq h]
    exact h1.trans (stays_transationFinished _ t)

theorem stays_frame : AbortFrame Stays :=
  ⟨Stays.refl, Stays.trans, stays_abort, fun s _ _ _ => stays_setServer s _ _,
    fun _ _ => ⟨rfl, rfl, fun _ => rfl, fun _ => rfl, fun _ h => h⟩⟩

theorem stays_switchToIdle (s : NCPool) (c : Nat) : Stays s (s.switchToIdle c) := by
  unfold switchToIdle
  split
  · exact Stays.refl s
  · exact (stays_setServer ..).trans (stays_setConn ..)

theorem stays_sendOK (s : NCPool) (c t : Nat) (y : NCConnection) : Stays s (s.sendOK c t y) := by
  have h1 : Stays s (s.setTrans t { s.transList t with state := .recv }) := stays_setTrans rfl rfl
  have h2 := (h1.trans (stays_listAddTail _ t (.conn c))).trans (stays_setConn _ c { y with sreq := none })
  unfold sendOK
  dsimp only
  split
  · exact h2.trans (stays_setServer ..)
  · exact h2.trans (stays_setServer ..)

theorem stays_sendRequest {r : SendResult} (h : s.sendRequest c r = some s') : Stays s s' := by
  unfold sendRequest at h
  split at h
  · cases h
  · split at h
    · cases h
    · split at h
      · obtain rfl := Option.some.inj h
        exact Stays.refl s
      · obtain rfl := Option.some.inj h
        exact stays_sendOK ..
      · obtain rfl := Option.some.inj h
        exact stays_frame.abortSendSide ..

theorem stays_processRequest {r : SendResult} (h : s.processRequest c t r = some s') : Stays s s' := by
  unfold processRequest at h
  split at h
  · cases h
  · next y _ =>
    have h1 : Stays s (s.setTrans t { s.transList t with state := .send, conn := some c }) := stays_setTrans rfl rfl
    exact ((h1.trans (stays_setConn ..)).trans (stays_setServer ..)).trans (stays_sendRequest h)

theorem stays_resultRead (s : NCPool) (c : Nat) : Stays s (if s.mode c = .sync then s.switchToIdle c
    else if (s.conns c).map (fun x => x.state) = some .linger ∧ s.lists (.conn c) = [] then s.deleteConn c else s) := by
  split
  · exact stays_switchToIdle s c
  · split
    · exact stays_frame.deleteConn s c
    · exact Stays.refl s

theorem stays_doneResult (s : NCPool) (c serial : Nat) : Stays s (s.doneResult c serial) := by
  unfold doneResult
  dsimp only
  cases (s.lists (.conn c)).find? (fun t => (s.transList t).sn == serial) with
  | none => exact stays_resultRead s c
  | some t =>
    have h : Stays s (s.setTrans t { s.transList t with result := some (.arrived serial) }) := stays_setTrans rfl rfl
    exact (h.trans (stays_abort ..)).trans (stays_resultRead _ c)

theorem stays_recvResult (s : NCPool) (c : Nat) (e : RecvEnd) : Stays s (s.recvResult c e) := by
  cases e with
  | fatalError => exact stays_frame.close ..
  | waitData => exact Stays.refl s
  | result serial => exact stays_doneResult ..

theorem stays_inputNotify (s : NCPool) (c : Nat) (y : NCConnection) (e : RecvEnd) : Stays s (s.inputNotify c y e) := by
  unfold inputNotify
  split
  · exact stays_recvResult ..
  · split
    · exact Stays.refl s
    · exact stays_recvResult ..
  · exact Stays.refl s

theorem stays_outputNotify {y : NCConnection} {r : SendResult} (h : s.outputNotify c y r = some s') : Stays s s' := by
  unfold outputNotify at h
  split at h
  · obtain rfl := Option.some.inj h
    exact stays_switchToIdle ..
  · exact stays_sendRequest h
  · obtain rfl := Option.some.inj h
    exact Stays.refl s

theorem stays_hangupNotify (s : NCPool) (c : Nat) : Stays s (s.hangupNotify c) :=
  (stays_frame.abortRequests ..).trans (stays_frame.deleteConn ..)

theorem stays_timerNotify (s : NCPool) (c : Nat) (y : NCConnection) : Stays s (s.timerNotify c y) := by
  unfold timerNotify
  split
  · exact stays_frame.close ..
  · exact Stays.refl s

theorem stays_connect (s : NCPool) (i c : Nat) (r : AsyncConnect) : Stays s (s.connect i c r).1 := by
  have h1 := (stays_setConn s c { serverInfo := i }).trans (stays_setServer _ i
    { s.serverList i with connRemain := (s.serverList i).connRemain - 1 })
  unfold connect
  dsimp only
  split
  · have h2 := h1.trans (stays_switchToIdle _ c)
    split
    · exact h2
    · exact (h2.trans (stays_setServer ..)).trans (stays_frame.deleteConn ..)
  · split
    · exact ((h1.trans (stays_setServer ..)).trans (stays_setConn ..)).trans (stays_setServer ..)
    · exact (((h1.trans (stays_setServer ..)).trans (stays_setConn ..)).trans (stays_setServer ..)).trans
        (stays_frame.deleteConn ..)
  · exact (h1.trans (stays_setServer ..)).trans (stays_frame.deleteConn ..)

theorem stays_serverTimer {send : SendResult} {r : AsyncConnect} (h : s.serverTimer i c send r = some s') : Stays s s' := by
  unfold serverTimer at h
  dsimp only at h
  split at h
  · obtain rfl := Option.some.inj h
    exact Stays.refl s
  · split at h
    · split at h
      · exact ((stays_listDel ..).trans (stays_setServer ..)).trans (stays_processRequest h)
      · split at h
        · obtain rfl := Option.some.inj h
          exact Stays.refl s
        · split at h
          · obtain rfl := Option.some.inj h
            exact (stays_connect s i c r).trans (stays_frame.abortList ..)
          · obtain rfl := Option.some.inj h
            exact stays_connect s i c r
    · obtain rfl := Option.some.inj h
      exact Stays.refl s

theorem stays_addServer (s : NCPool) (dgram : Bool) (mReq mConn : Nat) : Stays s (s.addServer dgram mReq mConn) := by
  unfold addServer
  split
  · exact Stays.refl s
  · dsimp only
    split
    · exact Stays.refl s
    · exact ⟨rfl, rfl, fun _ => rfl, fun _ => rfl, fun _ h => h⟩

/-! ## The numbers of the slots -/

def slotId (s : NCPool) (t : Nat) : Int := t + (s.transList t).genId * s.maxRequests + 1

/-- **A request that was added and not yet collected or cancelled has the id.** -/
def Outstanding (s : NCPool) (reqId : Int) : Prop :=
  ∃ n q, s.issued[n]? = some q ∧ q.id = reqId ∧ (n, .collect) ∉ s.history

/-- **A slot with a request goes by the id of the request.** -/
structure Numbered (s : NCPool) : Prop where
  pos : 0 < s.maxRequests
  inj : ∀ t u n, (s.transList t).packet = some n → (s.transList u).packet = some n → t = u
  slot : ∀ t n, (s.transList t).packet = some n → ∃ q, s.issued[n]? = some q ∧ q.id = s.slotId t
  held : ∀ t n, (s.transList t).packet = some n → (n, .collect) ∉ s.history
  past : ∀ n, (n, .collect) ∈ s.history → n < s.issued.length

theorem Numbered.lt (h : s.Numbered) (hp : (s.transList t).packet = some n) : n < s.issued.length := by
  obtain ⟨q, hq, -⟩ := h.slot t n hp
  exact (List.getElem?_eq_some_iff.mp hq).1

theorem Stays.slotId (h : Stays s s') (t : Nat) : s'.slotId t = s.slotId t := by
  unfold NCPool.slotId
  rw [h.genId, h.max]

theorem Numbered.stays (h : s.Numbered) (h' : Stays s s') : s'.Numbered := by
  refine ⟨h'.max ▸ h.pos, fun t u n ht hu => ?_, fun t n hp => ?_, fun t n hp hn => ?_, fun n hn => ?_⟩
  · rw [h'.packet] at ht hu
    exact h.inj t u n ht hu
  · rw [h'.packet] at hp
    obtain ⟨q, hq, hid⟩ := h.slot t n hp
    exact ⟨q, by rw [h'.issued]; exact hq, by rw [h'.slotId]; exact hid⟩
  · rw [h'.packet] at hp
    exact h.held t n hp (h'.collect n hn)
  · rw [h'.issued]
    exact h.past n (h'.collect n hn)

theorem Numbered.clear (h : s.Numbered) (t : Nat) :
    (s.clear t).Numbered ∧ (s.clear t).maxRequests = s.maxRequests ∧ (s.clear t).issued = s.issued ∧
      (s.clear t).history = s.history := by
  have hq := listDel_quiet s t
  have hmax : (s.clear t).maxRequests = s.maxRequests := hq.max
  have hissued : (s.clear t).issued = s.issued := hq.issued
  have hhistory : (s.clear t).history = s.history := listDel_history s t
  have hpacket : ∀ u n, ((s.clear t).transList u).packet = some n →
      u ≠ t ∧ (s.clear t).transList u = s.transList u ∧ (s.transList u).packet = some n := by
    intro u n hp
    rw [clear_trans] at hp ⊢
    by_cases hu : u = t
    · rw [hu, Function.update_self] at hp
      cases hp
    · rw [Function.update_of_ne hu] at hp ⊢
      exact ⟨hu, rfl, hp⟩
  refine ⟨⟨hmax ▸ h.pos, fun u v n hu hv => ?_, fun u n hp => ?_, fun u n hp => ?_, fun n hn => ?_⟩, hmax, hissued, hhistory⟩
  · exact h.inj u v n (hpacket u n hu).2.2 (hpacket v n hv).2.2
  · obtain ⟨-, hsame, hp⟩ := hpacket u n hp
    obtain ⟨q, hq, hid⟩ := h.slot u n hp
    refine ⟨q, by rw [hissued]; exact hq, ?_⟩
    rw [hid]
    unfold NCPool.slotId
    rw [hsame, hmax]
  · rw [hhistory]
    exact h.held u n (hpacket u n hp).2.2
  · rw [hhistory] at hn
    rw [hissued]
    exact h.past n hn

theorem Numbered.getTransationResult (h : s.Numbered) {asked : Int} (hr : s.getTransationResult t asked = some s') :
    s'.Numbered := by
  unfold NCPool.getTransationResult at hr
  dsimp only at hr
  obtain ⟨hc, -, hissued, hhistory⟩ := h.clear t
  have h1 := hc.stays (stays_listAdd (s.clear t) t .free)
  split at hr
  · cases hr
  · split at hr
    · obtain rfl := Option.some.inj hr
      exact ⟨h1.pos, h1.inj, h1.slot, h1.held, h1.past⟩
    · next n hp =>
      obtain rfl := Option.some.inj hr
      refine ⟨h1.pos, h1.inj, h1.slot, fun u m hm hcol => ?_, fun m hcol => ?_⟩
      · rcases List.mem_cons.mp hcol with he | hcol
        · obtain rfl : m = n := congrArg Prod.fst he
          have hu : ((s.clear t).transList u).packet = some m :=
            ((stays_listAdd (s.clear t) t .free).packet u).symm.trans hm
          rw [clear_trans] at hu
          by_cases hut : u = t
          · rw [hut, Function.update_self] at hu
            cases hu
          · rw [Function.update_of_ne hut] at hu
            exact hut (h.inj u t m hu hp)
        · exact h1.held u m hm hcol
      · rcases List.mem_cons.mp hcol with he | hcol
        · obtain rfl : m = n := congrArg Prod.fst he
          show m < (s.clear t).issued.length
          rw [hissued]
          exact h.lt hp
        · exact h1.past m hcol

theorem Numbered.cancelSlot (h : s.Numbered) {asked : Int} (hr : s.cancelSlot t asked = some s') : s'.Numbered := by
  obtain ⟨s₁, h1, h2⟩ := Option.bind_eq_some_iff.mp hr
  exact (h.stays (stays_frame.abortRequest h1)).getTransationResult h2

theorem Numbered.forStates {type : Nat} {f : NCPool → Nat → Option NCPool}
    (hf : ∀ s t s', s.Numbered → f s t = some s' → s'.Numbered) : ∀ (ts : List Nat) (s : NCPool), s.Numbered →
      NCPool.forStates type f ts s = some s' → s'.Numbered
  | [], s, h, hr => by
    obtain rfl := Option.some.inj hr
    exact h
  | t :: ts, s, h, hr => by
    rw [NCPool.forStates] at hr
    split at hr
    · exact Numbered.forStates hf ts s h hr
    · obtain ⟨s₁, h1, h2⟩ := Option.bind_eq_some_iff.mp hr
      exact Numbered.forStates hf ts s₁ (hf s t s₁ h h1) h2

theorem Numbered.attach (h : s.Numbered) {q : NCIssued} (hother : ∀ u, u ≠ t → s'.transList u = s.transList u)
    (hself : (s'.transList t).packet = some s.issued.length) (hissued : s'.issued = s.issued ++ [q])
    (hq : q.id = s'.slotId t) (hmax : s'.maxRequests = s.maxRequests)
    (hcollect : ∀ n, (n, .collect) ∈ s'.history → (n, .collect) ∈ s.history) : s'.Numbered := by
  have hnew : ∀ u n, u ≠ t → (s'.transList u).packet = some n → (s.transList u).packet = some n ∧ n ≠ s.issued.length := by
    intro u n hu hp
    rw [hother u hu] at hp
    exact ⟨hp, Nat.ne_of_lt (h.lt hp)⟩
  have htself : ∀ n, (s'.transList t).packet = some n → n = s.issued.length := by
    intro n hp
    rw [hself] at hp
    exact (Option.some.inj hp).symm
  refine ⟨hmax ▸ h.pos, fun u v n hu hv => ?_, fun u n hp => ?_, fun u n hp hcol => ?_, fun n hcol => ?_⟩
  · by_cases hut : u = t
    · by_cases hvt : v = t
      · rw [hut, hvt]
      · rw [hut] at hu
        exact absurd (htself n hu) (hnew v n hvt hv).2
    · by_cases hvt : v = t
      · rw [hvt] at hv
        exact absurd (htself n hv) (hnew u n hut hu).2
      · exact h.inj u v n (hnew u n hut hu).1 (hnew v n hvt hv).1
  · rw [hissued]
    by_cases hut : u = t
    · subst hut
      obtain rfl := htself n hp
      exact ⟨q, List.getElem?_concat_length, hq⟩
    · obtain ⟨p, hp1, hp2⟩ := h.slot u n (hnew u n hut hp).1
      refine ⟨p, ?_, ?_⟩
      · rw [List.getElem?_append_left (h.lt (hnew u n hut hp).1)]
        exact hp1
      · rw [hp2]
        unfold NCPool.slotId
        rw [hother u hut, hmax]
  · by_cases hut : u = t
    · subst hut
      obtain rfl := htself n hp
      exact absurd (h.past _ (hcollect _ hcol)) (Nat.lt_irrefl _)
    · exact h.held u n (hnew u n hut hp).1 (hcollect n hcol)
  · rw [hissued, List.length_append]
    exact Nat.lt_add_right _ (h.past n (hcollect n hcol))

theorem Numbered.addRequest (h : s.Numbered) {server : Option Nat} {tag k : Int} {encoded : Except Int Nat}
    (hr : s.addRequest server tag encoded = some (s', k)) : s'.Numbered := by
  unfold NCPool.addRequest at hr
  split at hr
  · obtain rfl := congrArg Prod.fst (Option.some.inj hr)
    exact h
  split at hr
  · obtain rfl := congrArg Prod.fst (Option.some.inj hr)
    exact h
  next i =>
  split at hr
  · obtain rfl := congrArg Prod.fst (Option.some.inj hr)
    exact h
  split at hr
  · cases hr
  next s₁ t hslot =>
  unfold getTransationSlot at hslot
  split at hslot
  · cases hslot
  next u rest _ =>
  dsimp only at hslot
  obtain ⟨rfl, rfl⟩ := Prod.mk.inj (Option.some.inj hslot)
  have hc := (h.clear u).1
  generalize s.clear u = p at hc hr
  have hcol : ∀ (m n : Nat) (h : List (Nat × ReqAct)), (n, ReqAct.collect) ∈ (m, ReqAct.add) :: h →
      (n, ReqAct.collect) ∈ h := by
    intro m n h hm
    rcases List.mem_cons.mp hm with he | hm
    · cases he
    · exact hm
  cases encoded with
  | error err =>
    obtain rfl := congrArg Prod.fst (Option.some.inj hr)
    refine Numbered.stays ?_ (stays_transationFinished _ u)
    refine hc.attach (t := u) (fun v hv => ?_) ?_ rfl rfl rfl (fun n hn => hcol _ n _ hn)
    · exact (Function.update_of_ne hv ..).trans (Function.update_of_ne hv ..)
    · dsimp only [note, attachRequest, setTrans]
      rw [Function.update_self]
  | ok sn =>
    obtain rfl := congrArg Prod.fst (Option.some.inj hr)
    refine Numbered.stays ?_ ((stays_listAddTail _ u (.server i)).trans (stays_setServer ..))
    refine hc.attach (t := u) (fun v hv => ?_) ?_ rfl rfl rfl (fun n hn => hcol _ n _ hn)
    · exact (Function.update_of_ne hv ..).trans (Function.update_of_ne hv ..)
    · dsimp only [note, attachRequest, setTrans]
      rw [Function.update_self]

theorem Numbered.orCrash (h : s.Numbered) {o : Option NCPool} (ho : ∀ s', o = some s' → s'.Numbered) :
    (s.orCrash o).Numbered := by
  cases o with
  | none => exact ⟨h.pos, h.inj, h.slot, h.held, h.past⟩
  | some s' => exact ho s' rfl

theorem Numbered.step {a : PoolEvent} (h : s.Numbered) (hstep : s.step a = some s') : s'.Numbered := by
  unfold NCPool.step at hstep
  split at hstep
  · cases hstep
  cases a with
  | addServer dgram mReq mConn =>
    obtain rfl := Option.some.inj hstep
    exact h.stays (stays_addServer s dgram mReq mConn)
  | addRequest server tag encoded =>
    obtain rfl := Option.some.inj hstep
    refine h.orCrash (fun s' hs' => ?_)
    obtain ⟨⟨s₁, k⟩, h1, rfl⟩ := Option.map_eq_some_iff.mp hs'
    exact h.addRequest h1
  | serverTimer i c send r =>
    dsimp only at hstep
    split at hstep
    · obtain rfl := Option.some.inj hstep
      exact h.orCrash (fun s' hs' => h.stays (stays_serverTimer hs'))
    · cases hstep
  | input c e =>
    obtain ⟨y, -, rfl⟩ := Option.map_eq_some_iff.mp hstep
    exact h.stays (stays_inputNotify s c y e)
  | output c r =>
    obtain ⟨y, -, rfl⟩ := Option.map_eq_some_iff.mp hstep
    exact h.orCrash (fun s' hs' => h.stays (stays_outputNotify hs'))
  | hangup c =>
    obtain ⟨y, -, rfl⟩ := Option.map_eq_some_iff.mp hstep
    exact h.stays (stays_hangupNotify s c)
  | timer c =>
    obtain ⟨y, -, rfl⟩ := Option.map_eq_some_iff.mp hstep
    exact h.stays (stays_timerNotify s c y)
  | abortRequest reqId =>
    obtain rfl := Option.some.inj hstep
    refine h.orCrash (fun s' hs' => ?_)
    unfold abortRequestId at hs'
    split at hs'
    · obtain rfl := Option.some.inj hs'
      exact h
    · exact h.stays (stays_frame.abortRequest hs')
  | cancelRequest reqId =>
    obtain rfl := Option.some.inj hstep
    refine h.orCrash (fun s' hs' => ?_)
    unfold NCPool.cancelRequest at hs'
    split at hs'
    · obtain rfl := Option.some.inj hs'
      exact h
    · exact h.cancelSlot hs'
  | abortAllRequest type =>
    obtain rfl := Option.some.inj hstep
    refine h.orCrash (fun s' hs' => ?_)
    unfold NCPool.abortAllRequest at hs'
    split at hs'
    · obtain rfl := Option.some.inj hs'
      exact h
    · exact Numbered.forStates (fun _ _ _ h ha => h.stays (stays_frame.abortRequest ha)) _ s h hs'
  | cancelAllRequest type =>
    obtain rfl := Option.some.inj hstep
    refine h.orCrash (fun s' hs' => ?_)
    unfold NCPool.cancelAllRequest at hs'
    split at hs'
    · obtain rfl := Option.some.inj hs'
      exact h
    · exact Numbered.forStates (fun _ _ _ h hc => h.cancelSlot hc) _ s h hs'
  | getResult reqId =>
    obtain rfl := Option.some.inj hstep
    refine h.orCrash (fun s' hs' => ?_)
    unfold NCPool.getResult at hs'
    split at hs'
    · split at hs'
      · obtain rfl := Option.some.inj hs'
        exact h
      · exact h.getTransationResult hs'
    · split at hs'
      · obtain rfl := Option.some.inj hs'
        exact h
      · split at hs'
        · exact h.getTransationResult hs'
        · obtain rfl := Option.some.inj hs'
          exact h

theorem numbered_create {ms mr : Nat} (hmr : 0 < mr) : (create ms mr).Numbered := by
  have hpacket : ∀ t, ((create ms mr).transList t).packet = none := by
    intro t
    show (if t < min mr (2 ^ 20) then ({ link := some .free } : NCTransation) else {}).packet = none
    split <;> rfl
  refine ⟨Nat.lt_min.mpr ⟨hmr, by decide⟩, fun t u n ht => ?_, fun t n ht => ?_, fun t n ht => ?_, fun n hn => ?_⟩
  · rw [hpacket] at ht
    cases ht
  · rw [hpacket] at ht
    cases ht
  · rw [hpacket] at ht
    cases ht
  · cases hn

theorem numbered_of_reachable (h : ncPoolMachine.Reachable s) : s.Numbered :=
  ncPoolMachine.reachable_induct (fun _ ⟨_, _, hmr, he⟩ => he ▸ numbered_create hmr) (fun _ _ _ h hs => h.step hs) h

/-! ## Which ids are refused -/

theorem id2Req_eq_some_iff (hpos : 0 < s.maxRequests) :
    s.id2Req reqId = some t ↔ t < s.maxRequests ∧ reqId = s.slotId t ∧ reqId ≤ maxReqId := by
  constructor
  · intro h
    obtain ⟨hlt, hid⟩ := id2Req_spec hpos h
    refine ⟨hlt, hid, ?_⟩
    unfold id2Req at h
    split at h
    · cases h
    · next hrange => omega
  · rintro ⟨hlt, hid, hmax⟩
    have hnat : reqId = ((t + (s.transList t).genId * s.maxRequests : Nat) : Int) + 1 := by
      rw [hid]
      unfold slotId
      push_cast
      rfl
    have hr : reqId.toNat - 1 = t + (s.transList t).genId * s.maxRequests := by omega
    unfold id2Req
    rw [if_neg (by omega)]
    dsimp only
    rw [hr, Nat.add_mul_mod_self_right, Nat.mod_eq_of_lt hlt, Nat.add_mul_div_right _ _ hpos, Nat.div_eq_of_lt hlt,
      Nat.zero_add, if_neg (not_not.mpr rfl)]

/-- **No slot goes by the id but one that has a request, and the id is not 0** (which asks for any result) while a request is
done. -/
structure Unknown (s : NCPool) (reqId : Int) : Prop where
  slots : ∀ t, t < s.maxRequests → (s.transList t).packet = none → reqId = s.slotId t → (maxReqId : Int) < reqId
  any : reqId = 0 → s.lists .done = []

theorem refuses_of_id2Req (h : s.id2Req reqId = none) (hany : reqId = 0 → s.lists .done = []) : s.Refuses reqId := by
  refine ⟨⟨-22, by decide, ?_⟩, ⟨-22, by decide, ?_⟩, ?_, ?_⟩
  · unfold cancelRequestRet
    rw [h]
  · unfold abortRequestIdRet
    rw [h]
  · unfold requestState
    rw [h]
    exact Int.negSucc_lt_zero 21
  · unfold getResultRet
    by_cases h0 : reqId = 0
    · rw [if_pos h0, hany h0]
      exact ⟨-11, by decide, rfl⟩
    · rw [if_neg h0, h]
      exact ⟨-22, by decide, rfl⟩

theorem Refuses.id2Req (h : s.Refuses reqId) : s.id2Req reqId = none := by
  have hstate := h.state
  unfold requestState at hstate
  split at hstate
  · next he => exact he
  · exact absurd hstate (Int.not_lt.mpr (Int.natCast_nonneg _))

theorem Refuses.any (h : s.Refuses reqId) (h0 : reqId = 0) : s.lists .done = [] := by
  obtain ⟨e, -, hget⟩ := h.get
  unfold getResultRet at hget
  rw [if_pos h0] at hget
  split at hget
  · next he => exact he
  · unfold takeResult at hget
    obtain ⟨r, -, hr⟩ := Option.bind_eq_some_iff.mp hget
    obtain ⟨_, -, he⟩ := Option.map_eq_some_iff.mp hr
    cases congrArg Prod.snd he

theorem Numbered.refuses_iff (h : s.Numbered) (hstale : ¬ s.Outstanding reqId) : s.Refuses reqId ↔ s.Unknown reqId := by
  constructor
  · intro hr
    refine ⟨fun t ht _ hid => ?_, hr.any⟩
    by_contra hle
    have hsome := (id2Req_eq_some_iff h.pos).mpr ⟨ht, hid, Int.not_lt.mp hle⟩
    rw [hr.id2Req] at hsome
    cases hsome
  · intro hu
    refine refuses_of_id2Req ?_ hu.any
    cases hreq : s.id2Req reqId with
    | none => rfl
    | some t =>
      obtain ⟨ht, hid, hmax⟩ := (id2Req_eq_some_iff h.pos).mp hreq
      cases hp : (s.transList t).packet with
      | none => exact absurd (hu.slots t ht hp hid) (Int.not_lt.mpr hmax)
      | some n =>
        obtain ⟨q, hq, hqid⟩ := h.slot t n hp
        exact absurd ⟨n, q, hq, hqid.trans hid.symm, h.held t n hp⟩ hstale

/-! ## A request that is done -/

theorem Inv.conn_of_done (I : s.Inv) (hreq : s.id2Req reqId = some t) (hst : (s.transList t).state = .done) :
    (s.transList t).conn = none := by
  have hf := I.wired.slots t (id2Req_spec I.size.1 hreq).1
  rw [Fits, hst] at hf
  exact hf.2.2.1

theorem abort_unlinked_iff (hreq : s.id2Req reqId = some t) (hconn : (s.transList t).conn = none) :
    s.abortRequestId reqId = some s ↔ (s.transList t).server = none := by
  unfold NCPool.abortRequestId NCPool.abortRequest
  rw [hreq]
  dsimp only
  rw [hconn]
  cases hs : (s.transList t).server with
  | none => exact iff_of_true rfl rfl
  | some i =>
    refine iff_of_false (fun he => ?_) (Option.some_ne_none i)
    have hsame : (s.abort t (-ecRequestAborted)).transList t = s.transList t := by rw [Option.some.inj he]
    rw [abort_trans hs, Function.update_self] at hsame
    have hserver := congrArg NCTransation.server hsame
    rw [hs] at hserver
    cases hserver

/-- **Which ids of no request are refused, in every reachable state**: those that no slot without a request goes by.  And
`AbortRequest` leaves a done request that has no connection alone if and only if its slot has no server any more; in every
run that delivers each result once a done request has no connection. -/
theorem ncPoolMachine_refuses (s : NCPool) (reqId : Int) :
    (ncPoolMachine.Reachable s → ¬ s.Outstanding reqId → (s.Refuses reqId ↔ s.Unknown reqId)) ∧
      ∀ t, s.id2Req reqId = some t → (s.transList t).state = .done →
        ((s.transList t).conn = none → (s.abortRequestId reqId = some s ↔ (s.transList t).server = none)) ∧
          (ncPoolMachine.ReachableMeeting StepOk s → (s.transList t).conn = none) :=
  ⟨fun hs hstale => (numbered_of_reachable hs).refuses_iff hstale, fun _ hreq hst =>
    ⟨abort_unlinked_iff hreq, fun hs => (inv_of_reachableMeeting hs).conn_of_done hreq hst⟩⟩

def failedEncode : List PoolEvent := [.addServer false 1 1, .addRequest (some 0) 9 (.error (-5))]

theorem ncPoolMachine_refuses_failedEncode : ∃ s, ncPoolMachine.ReachableMeeting StepOk s ∧ ¬ s.Outstanding 7 ∧
    s.Refuses 7 ∧ s.abortRequestId 2 ≠ some s := by
  have hmeets : ncPoolMachine.RunMeets StepOk (create 1 1) failedEncode :=
    ⟨trivial, fun _ _ => ⟨trivial, fun _ _ => trivial⟩⟩
  have hpool : ncPoolMachine.start (create 1 1) := ⟨1, 1, by decide, rfl⟩
  obtain ⟨s, hs⟩ : ∃ s, ncPoolMachine.run (create 1 1) failedEncode = some s := ⟨_, rfl⟩
  have hmeeting : ncPoolMachine.ReachableMeeting StepOk s := ⟨_, failedEncode, hpool, hmeets, hs⟩
  have hissued : s.issued = [⟨2, 9, 0⟩] ∧ s.maxRequests = 1 ∧ (s.transList 0).packet = some 0 ∧ s.id2Req 2 = some 0 ∧
      (s.transList 0).state = .done ∧ (s.transList 0).server = some 0 := by
    obtain rfl := Option.some.inj hs
    decide
  obtain ⟨hissued, hmax, hpacket, hreq, hst, hserver⟩ := hissued
  have hstale : ¬ s.Outstanding 7 := by
    rintro ⟨n, q, hq, hid, -⟩
    rw [hissued] at hq
    have hmem := List.mem_singleton.mp (List.mem_of_getElem? hq)
    rw [hmem] at hid
    exact absurd hid (by decide)
  refine ⟨s, hmeeting, hstale, ?_, fun he => ?_⟩
  · refine ((ncPoolMachine_refuses s 7).1 ⟨_, failedEncode, hpool, hs⟩ hstale).mpr ⟨fun t ht hp => ?_, fun h0 => ?_⟩
    · obtain rfl : t = 0 := by omega
      rw [hpacket] at hp
      cases hp
    · exact absurd h0 (by decide)
  · obtain ⟨hiff, hconn⟩ := (ncPoolMachine_refuses s 2).2 0 hreq hst
    have hnone := (hiff (hconn hmeeting)).mp he
    rw [hserver] at hnone
    cases hnone

/-- **A pool that has had no request takes 1 for the id of one**: `CancelRequest` follows the result that is not there. -/
theorem ncPoolMachine_cancelsNothing : ∃ s, ncPoolMachine.Reachable s ∧ ¬ s.Outstanding 1 ∧ s.requestState 1 = 0 ∧
    s.abortRequestIdRet 1 = some (s, 0) ∧ s.cancelRequestRet 1 = none := by
  refine ⟨create 1 1, ⟨_, [], ⟨1, 1, by decide, rfl⟩, rfl⟩, ?_, by decide +kernel, ?_, by decide +kernel⟩
  · rintro ⟨n, q, hq, -⟩
    cases hq
  · rfl

end NCPool
end Dtc
