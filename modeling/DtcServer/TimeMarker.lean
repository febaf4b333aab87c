import DtcServer.Machine
import DtcServer.NodeList
import Mathlib.Data.List.Basic
/-!
# TimeMarker — the time markers on the dirty LRU list

Between the dirty nodes stand nodes that hold a time (`CCachePool::InsertTimeMarker`): what is behind a marker became dirty
before its time.  A flush takes nodes off the tail and removes the markers it meets there, but never the newest one.  The
list is here the list of its nodes, the head's side first, and the server is in asynchronous mode.
-/
namespace Dtc

/-- The data of a node by which a marker is recognised, and which holds its time. -/
structure DirtyNode where
  nextNodeId : Nat
  vdHandle : Nat
  deriving DecidableEq, Repr

def DirtyNode.isTimeMarker (n : DirtyNode) : Bool := n.nextNodeId = timeMarkerNextNodeId

/-- `CNode::Time`, the handle as an `unsigned int`. -/
def DirtyNode.time (n : DirtyNode) : Nat := n.vdHandle % 2 ^ 32

/-- The dirty LRU list, and the times that `CCachePool` keeps. -/
structure DirtyLru where
  nodes : List DirtyNode
  firstMarkerTime : Nat := 0
  lastMarkerTime : Nat := 0
  deriving DecidableEq, Repr

namespace DirtyLru

variable (d : DirtyLru)

def firstTimeMarker : Option DirtyNode := d.nodes.find? DirtyNode.isTimeMarker

def lastTimeMarker : Option DirtyNode := d.nodes.reverse.find? DirtyNode.isTimeMarker

/-- `FirstTimeMarkerTime`, which keeps what it returns. -/
def firstTimeMarkerTime : DirtyLru :=
  if d.firstMarkerTime = 0 then { d with firstMarkerTime := (d.firstTimeMarker.map DirtyNode.time).getD 0 } else d

def lastTimeMarkerTime : DirtyLru :=
  if d.lastMarkerTime = 0 then { d with lastMarkerTime := (d.lastTimeMarker.map DirtyNode.time).getD 0 } else d

/-- `InsertTimeMarker`, with a node for it. -/
def insertTimeMarker (t : Nat) : DirtyLru :=
  let d := { d with nodes := ⟨timeMarkerNextNodeId, t % 2 ^ 32⟩ :: d.nodes, firstMarkerTime := t % 2 ^ 32 }
  if d.lastMarkerTime = 0 then d.lastTimeMarkerTime else d

/-- `RemoveTimeMarker` of a node of the list. -/
def removeTimeMarker (i : Nat) : DirtyLru :=
  match d.nodes[i]? with
  | none => d
  | some n =>
    if n.isTimeMarker then
      let d := { d with nodes := d.nodes.eraseIdx i }
      { d with
        lastMarkerTime :=
          match d.lastTimeMarker with
          | none => d.firstMarkerTime
          | some n => n.time }
    else d

/-- Where the loop of `FlushNextNode` stops: at the only marker, at the head, or at a node of a key. -/
inductive Tail
  | onlyMarker | head | node
  deriving DecidableEq, Repr

/-- The loop of `FlushNextNode`.  The nodes behind the one it is at were removed, so it is at the tail. -/
def removeMarkers : Nat → DirtyLru → Option (DirtyLru × Tail)
  | 0, _ => none
  | fuel + 1, d =>
    match d.nodes.getLast? with
    | none => some (d, .head)
    | some n =>
      if n.isTimeMarker then
        let d := d.firstTimeMarkerTime
        if d.firstMarkerTime = n.time then some (d, .onlyMarker)
        else removeMarkers fuel (d.removeTimeMarker (d.nodes.length - 1))
      else some (d, .node)

/-- `FlushNextNode`, and what it returns; `code` is the result of `cache_flush_data_timer`, which moves the node to the
clean list where it is 1 or 2. -/
def flushNextNode (fuel : Nat) (code : Int) : Option (DirtyLru × Int) :=
  (removeMarkers fuel d).map fun r =>
    match r.2 with
    | .onlyMarker => (r.1, -1)
    | .head => (r.1, 2)
    | .node =>
      let d := if code = 1 ∨ code = 2 then { r.1 with nodes := r.1.nodes.dropLast } else r.1
      (d, if code = -1 ∨ code = -2 ∨ code = -3 ∨ code = 1 then -2 else 0)

def deleteTailTimeMarkers : Nat → DirtyLru → Option DirtyLru
  | 0, _ => none
  | fuel + 1, d =>
    match d.nodes.getLast? with
    | none => some d
    | some n =>
      let d := d.firstTimeMarkerTime
      if d.firstMarkerTime = n.time then some d
      else if n.isTimeMarker ∧ d.nodes.dropLast.getLast?.any DirtyNode.isTimeMarker then
        deleteTailTimeMarkers fuel (d.removeTimeMarker (d.nodes.length - 1))
      else some d

/-- `SetFlushParameter`: there is a marker, and the times are known. -/
def setFlushParameter (now : Nat) : DirtyLru :=
  let d := if d.firstTimeMarker = none then d.insertTimeMarker now else d
  d.firstTimeMarkerTime.lastTimeMarkerTime

end DirtyLru

/-- A node of a key comes to the list or leaves it or moves to its head; the rest is the timer's. -/
inductive DirtyEvent
  | insert2DirtyLru (n : DirtyNode)
  | removeFromLru (i : Nat)
  | moveToHead (i : Nat)
  | insertTimeMarker (t : Nat)
  | flushNextNode (code : Int)
  | deleteTailTimeMarkers
  deriving DecidableEq, Repr

namespace DirtyLru

def keyNode (d : DirtyLru) (i : Nat) : Option DirtyNode := d.nodes[i]?.filter (fun n => !n.isTimeMarker)

def step (d : DirtyLru) : DirtyEvent → Option DirtyLru
  | .insert2DirtyLru n => if n.isTimeMarker then none else some { d with nodes := n :: d.nodes }
  | .removeFromLru i => (d.keyNode i).map fun _ => { d with nodes := d.nodes.eraseIdx i }
  | .moveToHead i => (d.keyNode i).map fun n => { d with nodes := n :: d.nodes.eraseIdx i }
  | .insertTimeMarker t => some (d.insertTimeMarker t)
  | .flushNextNode code => (d.flushNextNode (d.nodes.length + 1) code).map (·.1)
  | .deleteTailTimeMarkers => deleteTailTimeMarkers (d.nodes.length + 1) d

def markerTimes (d : DirtyLru) : List Nat := (d.nodes.filter DirtyNode.isTimeMarker).map DirtyNode.time

end DirtyLru

/-- The server runs on a new memory or on the list that a run before it left. -/
def dirtyMachine : Machine DirtyLru DirtyEvent where
  start d := ∃ nodes now, d = ({ nodes := nodes } : DirtyLru).setFlushParameter now
  step := DirtyLru.step

namespace DirtyLru

variable {d d' : DirtyLru}

/-- **The times that are kept** are those of the newest and the oldest marker; so there is one. -/
structure Marked (d : DirtyLru) : Prop where
  first : d.markerTimes.head? = some d.firstMarkerTime
  last : d.markerTimes.getLast? = some d.lastMarkerTime

theorem firstTimeMarker_time (d : DirtyLru) : d.firstTimeMarker.map DirtyNode.time = d.markerTimes.head? := by
  unfold firstTimeMarker markerTimes
  rw [List.head?_map, List.head?_filter]

theorem lastTimeMarker_time (d : DirtyLru) : d.lastTimeMarker.map DirtyNode.time = d.markerTimes.getLast? := by
  unfold lastTimeMarker markerTimes
  rw [List.getLast?_map, List.getLast?_eq_head?_reverse, ← List.filter_reverse, List.head?_filter]

theorem Marked.firstTimeMarkerTime (h : d.Marked) : d.firstTimeMarkerTime = d := by
  unfold DirtyLru.firstTimeMarkerTime
  split
  · rw [firstTimeMarker_time, h.first]
    rfl
  · rfl

theorem markerTimes_marker (n : DirtyNode) (hn : n.isTimeMarker = true) (f l : Nat) :
    markerTimes ⟨n :: d.nodes, f, l⟩ = n.time :: d.markerTimes := by
  unfold markerTimes
  rw [List.filter_cons_of_pos hn, List.map_cons]

theorem insertTimeMarker_eq (d : DirtyLru) (t : Nat) :
    d.insertTimeMarker t =
      { nodes := ⟨timeMarkerNextNodeId, t % 2 ^ 32⟩ :: d.nodes, firstMarkerTime := t % 2 ^ 32
        lastMarkerTime :=
          if d.lastMarkerTime = 0 then ((t % 2 ^ 32 :: d.markerTimes).getLast?).getD 0 else d.lastMarkerTime } := by
  unfold insertTimeMarker
  dsimp only
  split
  · next h =>
    unfold lastTimeMarkerTime
    rw [if_pos h, lastTimeMarker_time, markerTimes_marker _ (decide_eq_true rfl)]
    congr 3
    unfold DirtyNode.time
    rw [Nat.mod_mod]
  · rfl

theorem markerTimes_insertTimeMarker (d : DirtyLru) (t : Nat) :
    (d.insertTimeMarker t).markerTimes = t % 2 ^ 32 :: d.markerTimes := by
  rw [insertTimeMarker_eq, markerTimes_marker _ (decide_eq_true rfl)]
  unfold DirtyNode.time
  rw [Nat.mod_mod]

theorem Marked.insertTimeMarker (h : d.Marked) (t : Nat) : (d.insertTimeMarker t).Marked := by
  refine ⟨?_, ?_⟩
  · rw [markerTimes_insertTimeMarker, insertTimeMarker_eq]
    rfl
  · have hlast : (t % 2 ^ 32 :: d.markerTimes).getLast? = some d.lastMarkerTime := by
      rw [List.getLast?_cons, h.last]
      rfl
    rw [markerTimes_insertTimeMarker, insertTimeMarker_eq, hlast]
    dsimp only
    split
    · rfl
    · rfl

theorem Marked.congr (h : d.Marked) (hm : d'.markerTimes = d.markerTimes) (hf : d'.firstMarkerTime = d.firstMarkerTime)
    (hl : d'.lastMarkerTime = d.lastMarkerTime) : d'.Marked := by
  refine ⟨?_, ?_⟩
  · rw [hm, hf]
    exact h.first
  · rw [hm, hl]
    exact h.last

theorem Marked.removeTail {nodes : List DirtyNode} {n : DirtyNode} {f l : Nat} (h : Marked ⟨nodes ++ [n], f, l⟩)
    (hn : n.isTimeMarker = true) (hother : markerTimes ⟨nodes, f, l⟩ ≠ []) :
    ∃ l', removeTimeMarker ⟨nodes ++ [n], f, l⟩ ((nodes ++ [n]).length - 1) = ⟨nodes, f, l'⟩ ∧ Marked ⟨nodes, f, l'⟩ := by
  have hidx : (nodes ++ [n]).length - 1 = nodes.length := by
    rw [List.length_append, List.length_singleton, Nat.add_sub_cancel]
  have htimes : markerTimes ⟨nodes ++ [n], f, l⟩ = markerTimes ⟨nodes, f, l⟩ ++ [n.time] := by
    unfold markerTimes
    rw [List.filter_append, List.filter_cons_of_pos hn, List.filter_nil, List.map_append]
    rfl
  have hget : (nodes ++ [n])[nodes.length]? = some n := by
    rw [List.getElem?_append_right (Nat.le_refl _), Nat.sub_self]
    rfl
  have herase : (nodes ++ [n]).eraseIdx nodes.length = nodes := by
    rw [List.eraseIdx_append_of_length_le (Nat.le_refl _), Nat.sub_self, List.eraseIdx_cons_zero, List.append_nil]
  obtain ⟨t, ht⟩ : ∃ t, (markerTimes ⟨nodes, f, l⟩).getLast? = some t := by
    rcases List.eq_nil_or_concat' (markerTimes ⟨nodes, f, l⟩) with hnil | ⟨ts, t, hts⟩
    · exact absurd hnil hother
    · exact ⟨t, by rw [hts, List.getLast?_concat]⟩
  refine ⟨t, ?_, ?_, ht⟩
  · unfold removeTimeMarker
    rw [hidx]
    dsimp only
    rw [hget]
    dsimp only
    rw [if_pos hn, herase]
    have hmap := lastTimeMarker_time ⟨nodes, f, l⟩
    rw [ht] at hmap
    obtain ⟨m, hm, htime⟩ := Option.map_eq_some_iff.mp hmap
    rw [hm]
    dsimp only
    rw [htime]
  · have hfirst := h.first
    rw [htimes, List.head?_append_of_ne_nil _ hother] at hfirst
    exact hfirst

theorem removeMarkers_spec : ∀ (fuel : Nat) {d : DirtyLru}, d.Marked → d.nodes.length < fuel →
    ∃ d' stop removed, removeMarkers fuel d = some (d', stop) ∧ d'.Marked ∧ d'.firstMarkerTime = d.firstMarkerTime ∧
      d.nodes = d'.nodes ++ removed ∧ (∀ n ∈ removed, n.isTimeMarker = true) ∧
      (stop = .node → ∃ n, d'.nodes.getLast? = some n ∧ n.isTimeMarker = false)
  | 0, _, _, hfuel => absurd hfuel (Nat.not_lt_zero _)
  | fuel + 1, d, h, hfuel => by
    rw [removeMarkers]
    rcases List.eq_nil_or_concat' d.nodes with hnil | ⟨nodes, n, hnodes⟩
    · have hfirst := h.first
      unfold markerTimes at hfirst
      rw [hnil] at hfirst
      cases hfirst
    · rw [hnodes, List.getLast?_concat]
      dsimp only
      by_cases hn : n.isTimeMarker = true
      · rw [if_pos hn, h.firstTimeMarkerTime]
        by_cases hfirst : d.firstMarkerTime = n.time
        · rw [if_pos hfirst]
          exact ⟨d, _, [], rfl, h, rfl, by rw [hnodes, List.append_nil], fun _ hm => absurd hm List.not_mem_nil,
            fun hstop => by cases hstop⟩
        · rw [if_neg hfirst]
          obtain ⟨ns, f, l⟩ := d
          obtain rfl : ns = nodes ++ [n] := hnodes
          have hother : markerTimes ⟨nodes, f, l⟩ ≠ [] := by
            intro hnone
            have hf := h.first
            unfold markerTimes at hf hnone
            rw [List.filter_append, List.map_append, hnone, List.filter_cons_of_pos hn] at hf
            exact hfirst (Option.some.inj hf).symm
          obtain ⟨l', heq, h'⟩ := h.removeTail hn hother
          rw [heq]
          have hlen : nodes.length < fuel := by
            have := hfuel
            dsimp only at this
            rw [List.length_append, List.length_singleton] at this
            exact Nat.lt_of_succ_lt_succ this
          obtain ⟨d', stop, removed, hloop, hm, hf, hsplit, hall, hstop⟩ := removeMarkers_spec fuel h' hlen
          refine ⟨d', stop, removed ++ [n], hloop, hm, hf, ?_, fun m hm => ?_, hstop⟩
          · dsimp only at hsplit ⊢
            rw [hsplit, List.append_assoc]
          · rcases List.mem_append.mp hm with hm | hm
            · exact hall m hm
            · rw [List.mem_singleton.mp hm]
              exact hn
      · rw [if_neg hn]
        refine ⟨d, _, [], rfl, h, rfl, by rw [hnodes, List.append_nil], fun _ hm => absurd hm List.not_mem_nil, fun _ => ⟨n, ?_, ?_⟩⟩
        · rw [hnodes, List.getLast?_concat]
        · exact Bool.not_eq_true _ ▸ hn

theorem deleteTailTimeMarkers_spec : ∀ (fuel : Nat) {d : DirtyLru}, d.Marked → d.nodes.length < fuel →
    ∃ d' removed, deleteTailTimeMarkers fuel d = some d' ∧ d'.Marked ∧ d'.firstMarkerTime = d.firstMarkerTime ∧
      d.nodes = d'.nodes ++ removed ∧ ∀ n ∈ removed, n.isTimeMarker = true
  | 0, _, _, hfuel => absurd hfuel (Nat.not_lt_zero _)
  | fuel + 1, d, h, hfuel => by
    have hstop : ∃ d' removed, some d = some d' ∧ d'.Marked ∧ d'.firstMarkerTime = d.firstMarkerTime ∧
        d.nodes = d'.nodes ++ removed ∧ ∀ n ∈ removed, n.isTimeMarker = true :=
      ⟨d, [], rfl, h, rfl, (List.append_nil _).symm, fun _ hm => absurd hm List.not_mem_nil⟩
    rw [deleteTailTimeMarkers]
    rcases List.eq_nil_or_concat' d.nodes with hnil | ⟨nodes, n, hnodes⟩
    · rw [hnil, List.getLast?_nil]
      exact hnil ▸ hstop
    · rw [hnodes, List.getLast?_concat]
      dsimp only
      rw [h.firstTimeMarkerTime]
      by_cases hfirst : d.firstMarkerTime = n.time
      · rw [if_pos hfirst]
        exact hnodes ▸ hstop
      · rw [if_neg hfirst]
        split
        · next hboth =>
          obtain ⟨hn, hpre⟩ := hboth
          obtain ⟨ns, f, l⟩ := d
          obtain rfl : ns = nodes ++ [n] := hnodes
          rw [List.dropLast_concat] at hpre
          have hother : markerTimes ⟨nodes, f, l⟩ ≠ [] := by
            rcases hlast : nodes.getLast? with _ | m
            · rw [hlast] at hpre
              cases hpre
            · rw [hlast] at hpre
              have hmarker : m.isTimeMarker = true := hpre
              have hm := List.mem_filter.mpr ⟨List.mem_of_getLast? hlast, hmarker⟩
              exact List.ne_nil_of_mem (List.mem_map_of_mem hm)
          obtain ⟨l', heq, h'⟩ := h.removeTail hn hother
          rw [heq]
          have hlen : nodes.length < fuel := by
            have := hfuel
            dsimp only at this
            rw [List.length_append, List.length_singleton] at this
            exact Nat.lt_of_succ_lt_succ this
          obtain ⟨d', removed, hloop, hm, hf, hsplit, hall⟩ := deleteTailTimeMarkers_spec fuel h' hlen
          refine ⟨d', removed ++ [n], hloop, hm, hf, ?_, fun m hm => ?_⟩
          · dsimp only at hsplit ⊢
            rw [hsplit, List.append_assoc]
          · rcases List.mem_append.mp hm with hm | hm
            · exact hall m hm
            · rw [List.mem_singleton.mp hm]
              exact hn
        · exact hnodes ▸ hstop

def newMarkers : DirtyEvent → List DirtyNode
  | .insertTimeMarker t => [⟨timeMarkerNextNodeId, t % 2 ^ 32⟩]
  | _ => []

/-- The markers that are gone were at the tail of the list, with no node of a key among them. -/
def OnlyTail (d : DirtyLru) (e : DirtyEvent) (d' : DirtyLru) : Prop :=
  ∃ rest removed, d.nodes = rest ++ removed ∧ (∀ n ∈ removed, n.isTimeMarker = true) ∧
    d'.nodes.filter DirtyNode.isTimeMarker = newMarkers e ++ rest.filter DirtyNode.isTimeMarker

theorem onlyTail_keep {e : DirtyEvent} (he : newMarkers e = [])
    (h : d'.nodes.filter DirtyNode.isTimeMarker = d.nodes.filter DirtyNode.isTimeMarker) : OnlyTail d e d' :=
  ⟨d.nodes, [], (List.append_nil _).symm, fun _ hn => absurd hn List.not_mem_nil, by rw [he, List.nil_append, h]⟩

theorem filter_eraseIdx_key {i : Nat} {n : DirtyNode} (hn : d.keyNode i = some n) :
    (d.nodes.eraseIdx i).filter DirtyNode.isTimeMarker = d.nodes.filter DirtyNode.isTimeMarker := by
  obtain ⟨hi, hkey⟩ := Option.filter_eq_some_iff.mp hn
  obtain ⟨hlt, rfl⟩ := List.getElem?_eq_some_iff.mp hi
  have hsplit : d.nodes = d.nodes.take i ++ d.nodes[i] :: d.nodes.drop (i + 1) := by
    rw [List.getElem_cons_drop, List.take_append_drop]
  have hneg : ¬ (d.nodes[i]).isTimeMarker = true := by simpa using hkey
  rw [List.eraseIdx_eq_take_drop_succ]
  conv_rhs => rw [hsplit]
  rw [List.filter_append, List.filter_append, List.filter_cons_of_neg hneg]

theorem marked_step {e : DirtyEvent} (h : d.Marked) (hs : d.step e = some d') : d'.Marked ∧ OnlyTail d e d' := by
  have hkeep : ∀ nodes, nodes.filter DirtyNode.isTimeMarker = d.nodes.filter DirtyNode.isTimeMarker →
      Marked { d with nodes := nodes } := by
    intro nodes hnodes
    refine h.congr ?_ rfl rfl
    unfold markerTimes
    rw [hnodes]
  cases e with
  | insert2DirtyLru n =>
    unfold step at hs
    dsimp only at hs
    split at hs
    · cases hs
    · next hn =>
      obtain rfl := Option.some.inj hs
      have hfilter := List.filter_cons_of_neg (l := d.nodes) hn
      exact ⟨hkeep _ hfilter, onlyTail_keep rfl hfilter⟩
  | removeFromLru i =>
    obtain ⟨n, hn, rfl⟩ := Option.map_eq_some_iff.mp hs
    have hfilter := filter_eraseIdx_key hn
    exact ⟨hkeep _ hfilter, onlyTail_keep rfl hfilter⟩
  | moveToHead i =>
    obtain ⟨n, hn, rfl⟩ := Option.map_eq_some_iff.mp hs
    have hkey : ¬ n.isTimeMarker = true := by simpa using (Option.filter_eq_some_iff.mp hn).2
    have hfilter := (List.filter_cons_of_neg (l := d.nodes.eraseIdx i) hkey).trans (filter_eraseIdx_key hn)
    exact ⟨hkeep _ hfilter, onlyTail_keep rfl hfilter⟩
  | insertTimeMarker t =>
    obtain rfl := Option.some.inj hs
    refine ⟨h.insertTimeMarker t, d.nodes, [], (List.append_nil _).symm, fun _ hn => absurd hn List.not_mem_nil, ?_⟩
    rw [insertTimeMarker_eq]
    exact List.filter_cons_of_pos (decide_eq_true rfl)
  | flushNextNode code =>
    obtain ⟨⟨d₂, ret⟩, hflush, rfl⟩ := Option.map_eq_some_iff.mp hs
    obtain ⟨⟨d₁, stop⟩, hloop, hret⟩ := Option.map_eq_some_iff.mp hflush
    obtain ⟨d', stop', removed, hloop', hmarked, hfirst, hsplit, hall, hnode⟩ :=
      removeMarkers_spec _ h (Nat.lt_succ_self d.nodes.length)
    rw [hloop'] at hloop
    obtain ⟨rfl, rfl⟩ := Prod.mk.inj (Option.some.inj hloop)
    have hsame : d'.Marked ∧ OnlyTail d (.flushNextNode code) d' :=
      ⟨hmarked, d'.nodes, removed, hsplit, hall, rfl⟩
    cases stop' with
    | onlyMarker =>
      obtain ⟨rfl, -⟩ := Prod.mk.inj hret
      exact hsame
    | head =>
      obtain ⟨rfl, -⟩ := Prod.mk.inj hret
      exact hsame
    | node =>
      obtain ⟨rfl, -⟩ := Prod.mk.inj hret
      dsimp only
      split
      · obtain ⟨n, hlast, hn⟩ := hnode rfl
        obtain ⟨nodes, hnodes⟩ := List.getLast?_eq_some_iff.mp hlast
        have hfilter : d'.nodes.dropLast.filter DirtyNode.isTimeMarker = d'.nodes.filter DirtyNode.isTimeMarker := by
          rw [hnodes, List.dropLast_concat, List.filter_append, List.filter_cons_of_neg (Bool.not_eq_true _ ▸ hn),
            List.filter_nil, List.append_nil]
        refine ⟨hmarked.congr ?_ rfl rfl, d'.nodes, removed, hsplit, hall, hfilter⟩
        unfold markerTimes
        rw [hfilter]
      · exact hsame
  | deleteTailTimeMarkers =>
    obtain ⟨d₁, removed, hloop, hmarked, hfirst, hsplit, hall⟩ :=
      deleteTailTimeMarkers_spec _ h (Nat.lt_succ_self d.nodes.length)
    obtain rfl := Option.some.inj (hloop.symm.trans hs)
    exact ⟨hmarked, d₁.nodes, removed, hsplit, hall, rfl⟩

theorem marked_known {nodes : List DirtyNode} (h : markerTimes ⟨nodes, 0, 0⟩ ≠ []) :
    (firstTimeMarkerTime ⟨nodes, 0, 0⟩).lastTimeMarkerTime.Marked ∧
      (firstTimeMarkerTime ⟨nodes, 0, 0⟩).lastTimeMarkerTime.markerTimes = markerTimes ⟨nodes, 0, 0⟩ := by
  have hfirst := firstTimeMarker_time ⟨nodes, 0, 0⟩
  have hlast := lastTimeMarker_time ⟨nodes, 0, 0⟩
  unfold firstTimeMarkerTime lastTimeMarkerTime
  rw [if_pos rfl, if_pos rfl]
  refine ⟨⟨?_, ?_⟩, rfl⟩
  · dsimp only
    rw [hfirst]
    obtain ⟨t, ts, hts⟩ := List.exists_cons_of_ne_nil h
    change (markerTimes ⟨nodes, 0, 0⟩).head? = _
    rw [hts]
    rfl
  · change (markerTimes ⟨nodes, 0, 0⟩).getLast? = some (((lastTimeMarker ⟨nodes, 0, 0⟩).map DirtyNode.time).getD 0)
    rw [hlast]
    rcases List.eq_nil_or_concat' (markerTimes ⟨nodes, 0, 0⟩) with hnil | ⟨ts, t, hts⟩
    · exact absurd hnil h
    · rw [hts, List.getLast?_concat]
      rfl

theorem Marked.lastTimeMarkerTime (h : d.Marked) : d.lastTimeMarkerTime = d := by
  unfold DirtyLru.lastTimeMarkerTime
  split
  · rw [lastTimeMarker_time, h.last]
    rfl
  · rfl

theorem marked_start (h : dirtyMachine.start d) : d.Marked := by
  obtain ⟨nodes, now, rfl⟩ := h
  unfold setFlushParameter
  have hfirst := firstTimeMarker_time ⟨nodes, 0, 0⟩
  dsimp only
  split
  · next hnone =>
    rw [hnone, Option.map_none] at hfirst
    have hempty := List.head?_eq_none_iff.mp hfirst.symm
    have htimes := markerTimes_insertTimeMarker ⟨nodes, 0, 0⟩ now
    rw [hempty] at htimes
    have hmarked : (insertTimeMarker ⟨nodes, 0, 0⟩ now).Marked := by
      refine ⟨?_, ?_⟩
      · rw [htimes, insertTimeMarker_eq]
        rfl
      · rw [htimes, insertTimeMarker_eq, hempty]
        rfl
    rwa [hmarked.firstTimeMarkerTime, hmarked.lastTimeMarkerTime]
  · next hsome =>
    have hne : markerTimes ⟨nodes, 0, 0⟩ ≠ [] := by
      intro hnil
      rw [hnil, List.head?_nil] at hfirst
      exact hsome (Option.map_eq_none_iff.mp hfirst)
    exact (marked_known hne).1

/-- No marker is inserted with a time before that of the newest. -/
def InTime (d : DirtyLru) : DirtyEvent → Prop
  | .insertTimeMarker t => d.firstMarkerTime ≤ t % 2 ^ 32
  | _ => True

theorem sorted_step {e : DirtyEvent} (h : d.Marked ∧ d.markerTimes.Pairwise (· ≥ ·)) (hok : InTime d e)
    (hs : d.step e = some d') : d'.Marked ∧ d'.markerTimes.Pairwise (· ≥ ·) := by
  obtain ⟨hmarked, rest, removed, hsplit, hall, hfilter⟩ := marked_step h.1 hs
  refine ⟨hmarked, ?_⟩
  have htimes : d.markerTimes =
      (rest.filter DirtyNode.isTimeMarker).map DirtyNode.time ++ (removed.filter DirtyNode.isTimeMarker).map DirtyNode.time := by
    unfold markerTimes
    rw [hsplit, List.filter_append, List.map_append]
  have hrest : ((rest.filter DirtyNode.isTimeMarker).map DirtyNode.time).Pairwise (· ≥ ·) :=
    (htimes ▸ h.2).sublist (List.sublist_append_left _ _)
  have hnew : d'.markerTimes = (newMarkers e).map DirtyNode.time ++ (rest.filter DirtyNode.isTimeMarker).map DirtyNode.time := by
    unfold markerTimes
    rw [hfilter, List.map_append]
  rw [hnew]
  cases e with
  | insertTimeMarker t =>
    refine List.pairwise_cons.mpr ⟨fun x hx => ?_, hrest⟩
    have hx' : x ∈ d.markerTimes := by
      rw [htimes]
      exact List.mem_append_left _ hx
    have hle : x ≤ d.firstMarkerTime := by
      have hfirst := h.1.first
      have hsorted := h.2
      rcases hts : d.markerTimes with _ | ⟨y, ys⟩
      · rw [hts] at hx'
        exact absurd hx' List.not_mem_nil
      · rw [hts] at hx' hfirst hsorted
        obtain rfl := Option.some.inj hfirst
        rcases List.mem_cons.mp hx' with rfl | hx'
        · exact Nat.le_refl _
        · exact (List.pairwise_cons.mp hsorted).1 x hx'
    change (t % 2 ^ 32) % 2 ^ 32 ≥ x
    rw [Nat.mod_mod]
    exact Nat.le_trans hle hok
  | insert2DirtyLru n => exact hrest
  | removeFromLru i => exact hrest
  | moveToHead i => exact hrest
  | flushNextNode code => exact hrest
  | deleteTailTimeMarkers => exact hrest

end DirtyLru

/-- **The time markers of a state**: there is one; the times that are kept are those of the newest and the oldest; a step
removes markers from the tail only; the loops end. -/
structure TimeMarkers (d : DirtyLru) : Prop where
  exists_marker : ∃ n ∈ d.nodes, n.isTimeMarker = true
  first : d.markerTimes.head? = some d.firstMarkerTime
  last : d.markerTimes.getLast? = some d.lastMarkerTime
  onlyTail : ∀ e d', d.step e = some d' → d.OnlyTail e d'
  flushEnds : ∀ code fuel, d.nodes.length < fuel → (d.flushNextNode fuel code).isSome
  deleteEnds : ∀ fuel, d.nodes.length < fuel → (DirtyLru.deleteTailTimeMarkers fuel d).isSome

/-- **The time markers** in every run, and their order in every run that begins with it and whose clock does not go back. -/
theorem dirtyMachine_timeMarkers (d : DirtyLru) :
    (dirtyMachine.Reachable d → TimeMarkers d) ∧
      ∀ d₀ events, dirtyMachine.start d₀ → d₀.markerTimes.Pairwise (· ≥ ·) → dirtyMachine.RunMeets DirtyLru.InTime d₀ events →
        dirtyMachine.run d₀ events = some d → d.markerTimes.Pairwise (· ≥ ·) := by
  refine ⟨fun h => ?_, fun d₀ events hstart hsorted hmeets hrun => ?_⟩
  · have hmarked : d.Marked :=
      dirtyMachine.reachable_induct (fun _ => DirtyLru.marked_start) (fun _ _ _ hd hs => (DirtyLru.marked_step hd hs).1) h
    refine ⟨?_, hmarked.first, hmarked.last, fun e d' hs => (DirtyLru.marked_step hmarked hs).2, fun code fuel hfuel => ?_,
      fun fuel hfuel => ?_⟩
    · have hmem : d.firstMarkerTime ∈ d.markerTimes := List.mem_of_mem_head? (Option.mem_def.mpr hmarked.first)
      obtain ⟨n, hn, -⟩ := List.mem_map.mp hmem
      exact ⟨n, List.mem_filter.mp hn⟩
    · obtain ⟨d', stop, removed, hloop, -⟩ := DirtyLru.removeMarkers_spec fuel hmarked hfuel
      unfold DirtyLru.flushNextNode
      rw [hloop]
      rfl
    · obtain ⟨d', removed, hloop, -⟩ := DirtyLru.deleteTailTimeMarkers_spec fuel hmarked hfuel
      rw [hloop]
      rfl
  · exact (dirtyMachine.run_preserves (fun _ _ _ => DirtyLru.sorted_step) events d₀ d ⟨DirtyLru.marked_start hstart, hsorted⟩
      hmeets hrun).2

/-- A node becomes dirty before the time 12 and is flushed at 15, with the marker behind it. -/
theorem dirtyMachine_timeMarkers_flushed :
    ∃ d, dirtyMachine.run (({ nodes := [] } : DirtyLru).setFlushParameter 10)
        [.insert2DirtyLru ⟨invalidNodeId, 4096⟩, .insertTimeMarker 12, .insertTimeMarker 15, .flushNextNode 1] = some d ∧
      d.markerTimes = [15, 12] ∧ TimeMarkers d ∧ d.markerTimes.Pairwise (· ≥ ·) := by
  have hstart : dirtyMachine.start (({ nodes := [] } : DirtyLru).setFlushParameter 10) := ⟨[], 10, rfl⟩
  have hrun : dirtyMachine.run (({ nodes := [] } : DirtyLru).setFlushParameter 10)
      [.insert2DirtyLru ⟨invalidNodeId, 4096⟩, .insertTimeMarker 12, .insertTimeMarker 15, .flushNextNode 1] =
        some ⟨[⟨timeMarkerNextNodeId, 15⟩, ⟨timeMarkerNextNodeId, 12⟩], 15, 12⟩ := by
    decide
  refine ⟨_, hrun, by decide, (dirtyMachine_timeMarkers _).1 ⟨_, _, hstart, hrun⟩,
    (dirtyMachine_timeMarkers _).2 _ _ hstart (by decide) ?_ hrun⟩
  refine Machine.RunMeets.cons trivial rfl (Machine.RunMeets.cons ?_ rfl (Machine.RunMeets.cons ?_ rfl
    (Machine.RunMeets.cons trivial rfl trivial)))
  · change (10 : Nat) ≤ 12 % 2 ^ 32
    decide
  · change (12 : Nat) ≤ 15 % 2 ^ 32
    decide

theorem dirtyMachine_clockBack :
    ∃ d, dirtyMachine.run (({ nodes := [] } : DirtyLru).setFlushParameter 10) [.insertTimeMarker 9] = some d ∧
      dirtyMachine.Reachable d ∧ ¬ d.markerTimes.Pairwise (· ≥ ·) := by
  refine ⟨_, rfl, ⟨_, [.insertTimeMarker 9], ⟨[], 10, rfl⟩, rfl⟩, ?_⟩
  decide

end Dtc
