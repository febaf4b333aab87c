import DtcServer.TaskKey
import DtcServer.HashRing
/-!
# KeyRoute — which node of a cluster has a key (`CKeyRoute`, and `CModule` of the agent)

The agent hashes the key as it is in the packet, an integer always as eight bytes; the server hashes its packed key, whose
width is the table's.  Both look the hash up in a ring of a hundred virtual nodes for every node.
-/
namespace Dtc

/-- A byte as `char`, which is signed, converted to `unsigned int`. -/
def charU4 (k : UInt8) : UInt32 := if k < 128 then k.toUInt32 else k.toUInt32 + 0xFFFFFF00

/-- The macro `mix` of `chash.cc`. -/
def chashMix (a b c : UInt32) : UInt32 × UInt32 × UInt32 :=
  let a := (a - b - c) ^^^ (c >>> 13)
  let b := (b - c - a) ^^^ (a <<< 8)
  let c := (c - a - b) ^^^ (b >>> 13)
  let a := (a - b - c) ^^^ (c >>> 12)
  let b := (b - c - a) ^^^ (a <<< 16)
  let c := (c - a - b) ^^^ (b >>> 5)
  let a := (a - b - c) ^^^ (c >>> 3)
  let b := (b - c - a) ^^^ (a <<< 10)
  let c := (c - a - b) ^^^ (b >>> 15)
  (a, b, c)

/-- Four bytes from `i` on; a byte behind the end adds nothing. -/
def chashWord (k : List UInt8) (i : Nat) : UInt32 :=
  charU4 (k.getD i 0) + (charU4 (k.getD (i + 1) 0) <<< 8) + (charU4 (k.getD (i + 2) 0) <<< 16) +
    (charU4 (k.getD (i + 3) 0) <<< 24)

/-- The loop of `chash` over blocks of twelve bytes and its last block; `length` is that of the whole key. -/
def chashBlocks (length : UInt32) : Nat → List UInt8 → UInt32 → UInt32 → UInt32 → UInt32
  | n + 1, k, a, b, c =>
    if 12 ≤ k.length then
      let m := chashMix (a + chashWord k 0) (b + chashWord k 4) (c + chashWord k 8)
      chashBlocks length n (k.drop 12) m.1 m.2.1 m.2.2
    else
      -- the lowest byte of `c` is the length's
      let last := (charU4 (k.getD 8 0) <<< 8) + (charU4 (k.getD 9 0) <<< 16) + (charU4 (k.getD 10 0) <<< 24)
      (chashMix (a + chashWord k 0) (b + chashWord k 4) (c + length + last)).2.2
  | 0, _, _, _, c => c

def chash (k : List UInt8) : UInt32 :=
  chashBlocks (UInt32.ofNat k.length) (k.length / 12 + 1) k 0x9e3779b9 0x9e3779b9 0x544D4A52

abbrev NodeName := List UInt8

/-- `name#i`, the name of a virtual node. -/
def virtualName (name : NodeName) (i : Nat) : List UInt8 :=
  name ++ 35 :: (Nat.toDigits 10 i).map (fun c => UInt8.ofNat c.toNat)

/-- `CACHE_POINTERS_PER_CACHE` of the agent and `VIRTUAL_NODE_COUNT` of the server -/
abbrev virtualNodeCount : Nat := 100

/-! The agent. -/

/-- `CModule` of one thread: the ring of the servers' names, the servers that lost a point, and the percentage of the
requests that go to another agent. -/
structure CModule where
  selector : List (UInt32 × NodeName) := []
  duplicateKeys : List (UInt32 × NodeName) := []
  darkLaunchPercentage : UInt32 := 0

/-- The end of a request in the agent. -/
inductive Dispatched where
  | agentServer
  | noServer
  | cacheServer (name : NodeName)
  deriving DecidableEq, Repr

namespace CModule

def hash (name : NodeName) (virtualNode : Nat) : UInt32 := chash (virtualName name virtualNode)

def addVirtualNode (m : CModule) (name : NodeName) (virtualNode : Nat) : CModule :=
  let hash := hash name virtualNode
  match HashRing.find hash m.selector with
  | some first =>
    if first < name then { m with duplicateKeys := m.duplicateKeys ++ [(hash, name)] }
    else { m with
      duplicateKeys := m.duplicateKeys ++ [(hash, first)]
      selector := HashRing.insert hash name m.selector }
  | none => { m with selector := HashRing.insert hash name m.selector }

def addCacheServer (m : CModule) (name : NodeName) : CModule :=
  (List.range virtualNodeCount).foldl (fun m i => m.addVirtualNode name i) m

def dispatchRequest (m : CModule) (packedKey : List UInt8) : Dispatched :=
  let hash := chash packedKey
  if m.darkLaunchPercentage ≠ 0 ∧ hash % 100 < m.darkLaunchPercentage then .agentServer
  else
    match HashRing.select hash m.selector with
    | some name => .cacheServer name
    | none => .noServer

end CModule

/-- A decoded key: an integer, or the bytes of a string or a binary. -/
inductive KeyValue where
  | int (u64 : UInt64)
  | str (bytes : List UInt8)
  deriving DecidableEq, Repr

/-- What the agent reads of a request: the client's key type, the tag of its key field count, and the key. -/
structure FrontRequest where
  cmd : RequestCode
  multiKeyValue : Bool := false
  keyFieldCount : Option Nat := none
  keyType : FieldType
  key : Option KeyValue

def internalToLower (c : UInt8) : UInt8 := if 65 ≤ c ∧ c ≤ 90 then c + 32 else c

/-- A string key with its length in front: the length is stored in one byte. -/
def packString (bytes : List UInt8) : List UInt8 := UInt8.ofNat bytes.length :: bytes

/-- `ExtractPackedKey`; `none` where the request gets an error reply.  `seed` is the counter for requests without a key. -/
def extractPackedKey (seed : UInt64) (r : FrontRequest) : Option (List UInt8) :=
  if r.cmd = .nop then some (valueBytes seed 8)
  else if r.multiKeyValue then none
  else if (r.keyFieldCount.getD 0) > 1 then none
  else
    match r.keyType, r.key with
    | .signed, some (.int v) => some (valueBytes v 8)
    | .unsigned, some (.int v) => some (valueBytes v 8)
    | .signed, none => if r.cmd = .insert then some (valueBytes 1 8) else none
    | .unsigned, none => if r.cmd = .insert then some (valueBytes 1 8) else none
    | .string, some (.str bytes) => some (packString (bytes.map internalToLower))
    | .binary, some (.str bytes) => some (packString bytes)
    | _, _ => none

/-! The server. -/

/-- `CConsistentHashSelector`: the ring has the places of the nodes in the list of their names. -/
structure CConsistentHashSelector where
  nodes : List (UInt32 × Nat) := []
  nodeNames : List NodeName := []

namespace CConsistentHashSelector

/-- `Select`: without a node it is the empty name. -/
def select (s : CConsistentHashSelector) (key : List UInt8) : NodeName :=
  ((HashRing.select (chash key) s.nodes).map (fun index => s.nodeNames.getD index [])).getD []

def addVirtual (s : CConsistentHashSelector) (name : NodeName) (index i : Nat) : CConsistentHashSelector :=
  let value := chash (virtualName name i)
  match HashRing.find value s.nodes with
  | some first =>
    if s.nodeNames.getD first [] < name then s else { s with nodes := HashRing.insert value index s.nodes }
  | none => { s with nodes := HashRing.insert value index s.nodes }

/-- `AddNode`: `none` where the server aborts, for a name that is there. -/
def addNode (s : CConsistentHashSelector) (name : NodeName) : Option CConsistentHashSelector :=
  if name ∈ s.nodeNames then none
  else
    let index := s.nodeNames.length
    some ((List.range virtualNodeCount).foldl (fun s i => s.addVirtual name index i)
      { s with nodeNames := s.nodeNames ++ [name] })

end CConsistentHashSelector

/-- The bytes of a packed key that `SelectNode` hashes. -/
def routeBytes (keyFormat : Nat) (packedKey : List UInt8) : List UInt8 :=
  let keyLen := if 0 < keyFormat then keyFormat else (packedKey.headD 0).toNat + 1
  -- "agent don't know how long the key is, so use u64 always"
  if keyFormat = 4 then packedKey.take 4 ++ [0, 0, 0, 0] else packedKey.take keyLen

def selectNode (keyFormat : Nat) (s : CConsistentHashSelector) (packedKey : List UInt8) : NodeName :=
  s.select (routeBytes keyFormat packedKey)

def validKeyType (client server : FieldType) : Bool :=
  match client, server with
  | .signed, .signed | .signed, .unsigned | .unsigned, .signed | .unsigned, .unsigned => true
  | .string, .string | .string, .binary | .binary, .string | .binary, .binary => true
  | _, _ => false

theorem validKeyType_class : ∀ {client server : FieldType}, validKeyType client server = true →
    ((client = .signed ∨ client = .unsigned) ∧ (server = .signed ∨ server = .unsigned)) ∨
      ((client = .string ∨ client = .binary) ∧ (server = .string ∨ server = .binary)) := by
  intro client server
  cases client <;> cases server <;> decide

/-- `BuildPackedKey` of a table with one key field; `none` is an error. -/
def buildSingleKey (type : FieldType) (size : Nat) (key : KeyValue) : Option (List UInt8) :=
  match key with
  | .int v => TaskPackedKey.storeValue (List.replicate size 0) 0 v type size
  | .str bytes =>
    if size < bytes.length then none
    else some (packString (if type = .string then bytes.map internalToLower else bytes))

/-- A table's only key field, as `AddField` admits it. -/
structure SingleKey where
  type : FieldType
  size : Nat
  valid : (type = .signed ∨ type = .unsigned) ∧ 1 ≤ size ∧ size ≤ 8 ∨ (type = .string ∨ type = .binary) ∧ 1 ≤ size

def SingleKey.keyFormat (t : SingleKey) : Nat := if t.type = .signed ∨ t.type = .unsigned then t.size else 0

def KeyValue.HasType : KeyValue → FieldType → Prop
  | .int _, type => type = .signed ∨ type = .unsigned
  | .str _, type => type = .string ∨ type = .binary

/-- **The agent and the server hash the same bytes**: an integer of eight bytes, or of four bytes and not negative; a
string whose length fits in a byte and whose case is changed by both or by none. -/
def KeyValue.SameBytes (t : SingleKey) (keyType : FieldType) : KeyValue → Prop
  | .int v => t.size = 8 ∨ t.size = 4 ∧ v.toNat < 2 ^ 32
  | .str bytes => bytes.length ≤ 255 ∧ (keyType = t.type ∨ bytes.map internalToLower = bytes)

def FrontRequest.Keyed (r : FrontRequest) (key : KeyValue) : Prop :=
  r.cmd ≠ .nop ∧ r.multiKeyValue = false ∧ r.keyFieldCount.getD 0 ≤ 1 ∧ r.key = some key ∧ key.HasType r.keyType

section Bytes

theorem length_valueBytes (v : UInt64) (size : Nat) : (valueBytes v size).length = size := by
  rw [valueBytes, List.length_map, List.length_range]

theorem valueBytes_eight (v : UInt64) : valueBytes v 8 = valueBytes v 4 ++ [0, 0, 0, 0] ↔ v.toNat < 2 ^ 32 := by
  have hb : ∀ n : Nat, n < 64 → ((v >>> UInt64.ofNat n).toUInt8 = 0 ↔ v.toNat / 2 ^ n % 256 = 0) := by
    intro n hn
    rw [← UInt8.toNat_inj, UInt64.toNat_toUInt8, UInt64.toNat_shiftRight,
      UInt64.toNat_ofNat_of_lt' (Nat.lt_trans hn (by decide)),
      Nat.mod_eq_of_lt hn, Nat.shiftRight_eq_div_pow]
    rfl
  have h8 : valueBytes v 8 = valueBytes v 4 ++ [(v >>> UInt64.ofNat 32).toUInt8, (v >>> UInt64.ofNat 40).toUInt8,
      (v >>> UInt64.ofNat 48).toUInt8, (v >>> UInt64.ofNat 56).toUInt8] := rfl
  have hlt : v.toNat < 2 ^ 64 := v.toNat_lt
  rw [h8, List.append_cancel_left_eq]
  simp only [List.cons.injEq, hb 32 (by decide), hb 40 (by decide), hb 48 (by decide), hb 56 (by decide)]
  constructor
  · rintro ⟨h1, h2, h3, h4, -⟩
    omega
  · intro h
    exact ⟨by omega, by omega, by omega, by omega, trivial⟩

theorem storeValue_zeros {v : UInt64} {type : FieldType} {size : Nat} {pk : List UInt8}
    (h : TaskPackedKey.storeValue (List.replicate size 0) 0 v type size = some pk) : pk = valueBytes v size := by
  unfold TaskPackedKey.storeValue at h
  split at h
  · cases h
  · rw [← Option.some.inj h, writeBytes, List.take_zero, List.nil_append, Nat.zero_add, length_valueBytes,
      List.drop_replicate, Nat.sub_self, List.replicate_zero, List.append_nil]

theorem routeBytes_int {t : SingleKey} (ht : t.type = .signed ∨ t.type = .unsigned) (hsize : 1 ≤ t.size) (v : UInt64) :
    routeBytes t.keyFormat (valueBytes v t.size) =
      if t.size = 4 then valueBytes v 4 ++ [0, 0, 0, 0] else valueBytes v t.size := by
  unfold routeBytes SingleKey.keyFormat
  rw [if_pos ht]
  dsimp only
  have htake : ∀ n, (valueBytes v n).take n = valueBytes v n :=
    fun n => List.take_of_length_le (Nat.le_of_eq (length_valueBytes v n))
  split
  · rename_i h4
    rw [h4, htake 4]
  · rw [if_pos (by omega), htake t.size]

theorem routeBytes_str {t : SingleKey} (ht : ¬ (t.type = .signed ∨ t.type = .unsigned)) (bytes : List UInt8) :
    routeBytes t.keyFormat (packString bytes) = UInt8.ofNat bytes.length :: bytes.take (bytes.length % 256) := by
  unfold routeBytes SingleKey.keyFormat
  rw [if_neg ht]
  dsimp only
  rw [if_neg (by decide), if_neg (by decide), packString, List.headD_cons, UInt8.toNat_ofNat', List.take_succ_cons]

theorem packString_eq_route {a b : List UInt8} (hlen : a.length = b.length) :
    packString a = UInt8.ofNat b.length :: b.take (b.length % 256) ↔ b.length ≤ 255 ∧ a = b := by
  unfold packString
  rw [hlen, List.cons.injEq]
  constructor
  · rintro ⟨-, h⟩
    have hl : a.length ≤ 255 := by
      rw [h, List.length_take]
      omega
    rw [Nat.mod_eq_of_lt (by omega), List.take_length] at h
    exact ⟨by omega, h⟩
  · rintro ⟨hb, rfl⟩
    rw [Nat.mod_eq_of_lt (by omega), List.take_length]
    exact ⟨rfl, rfl⟩

theorem extract_eq_route {t : SingleKey} {r : FrontRequest} {key : KeyValue} {pk : List UInt8} (seed : UInt64)
    (hr : r.Keyed key) (ht : validKeyType r.keyType t.type = true) (hpk : buildSingleKey t.type t.size key = some pk) :
    ∃ a, extractPackedKey seed r = some a ∧ (a = routeBytes t.keyFormat pk ↔ key.SameBytes t r.keyType) := by
  obtain ⟨hcmd, hmulti, hcount, hkey, htype⟩ := hr
  unfold extractPackedKey
  rw [if_neg hcmd, hmulti, if_neg Bool.false_ne_true, if_neg (by omega), hkey]
  cases key with
  | int v =>
    have htt : t.type = .signed ∨ t.type = .unsigned := by
      rcases validKeyType_class ht with ⟨-, h⟩ | ⟨h, -⟩
      · exact h
      · rcases htype with h1 | h1 <;> rw [h1] at h <;> rcases h with h | h <;> cases h
    have hsize : 1 ≤ t.size ∧ t.size ≤ 8 := by
      rcases t.valid with ⟨-, h⟩ | ⟨h, -⟩
      · exact h
      · rcases htt with h1 | h1 <;> rw [h1] at h <;> rcases h with h | h <;> cases h
    have hpk' : pk = valueBytes v t.size := storeValue_zeros hpk
    refine ⟨valueBytes v 8, by rcases htype with h | h <;> rw [h], ?_⟩
    rw [hpk', routeBytes_int htt hsize.1, KeyValue.SameBytes]
    by_cases h4 : t.size = 4
    · rw [if_pos h4, valueBytes_eight]
      omega
    · rw [if_neg h4]
      constructor
      · intro h
        have hl := congrArg List.length h
        rw [length_valueBytes, length_valueBytes] at hl
        exact .inl hl.symm
      · rintro (h | h)
        · rw [h]
        · exact absurd h.1 h4
  | str bytes =>
    have htt : t.type = .string ∨ t.type = .binary := by
      rcases validKeyType_class ht with ⟨h, -⟩ | ⟨-, h⟩
      · rcases htype with h1 | h1 <;> rw [h1] at h <;> rcases h with h | h <;> cases h
      · exact h
    have hni : ¬ (t.type = .signed ∨ t.type = .unsigned) := by
      rcases htt with h | h <;> rw [h] <;> rintro (h | h) <;> cases h
    have hpk' : pk = packString (if t.type = .string then bytes.map internalToLower else bytes) := by
      rw [buildSingleKey] at hpk
      split at hpk
      · cases hpk
      · exact (Option.some.inj hpk).symm
    have hlower : (bytes.map internalToLower).length = bytes.length := List.length_map _
    rw [hpk', routeBytes_str hni, KeyValue.SameBytes]
    rcases htype with h | h <;> rcases htt with h1 | h1 <;> rw [h, h1]
    · refine ⟨_, rfl, ?_⟩
      rw [if_pos rfl, packString_eq_route rfl, hlower]
      simp
    · refine ⟨_, rfl, ?_⟩
      rw [if_neg (by decide), packString_eq_route hlower]
      simp
    · refine ⟨_, rfl, ?_⟩
      rw [if_pos rfl, packString_eq_route hlower.symm, hlower]
      simp [eq_comm]
    · refine ⟨_, rfl, ?_⟩
      rw [if_neg (by decide), packString_eq_route rfl]
      simp

end Bytes

/-- The points of the nodes, in the order in which they are placed. -/
def ringPoints (names : List NodeName) : List (UInt32 × NodeName) :=
  names.flatMap (fun name => (List.range virtualNodeCount).map (fun i => (chash (virtualName name i), name)))

def ringPointsBy (hash : List UInt8 → UInt32) (names : List NodeName) : List (UInt32 × NodeName) :=
  names.flatMap (fun name => (List.range virtualNodeCount).map (fun i => (hash (virtualName name i), name)))

theorem ringPointsBy_cons (hash : List UInt8 → UInt32) (name : NodeName) (names : List NodeName) :
    ringPointsBy hash (name :: names) =
      (List.range virtualNodeCount).map (fun i => (hash (virtualName name i), name)) ++ ringPointsBy hash names :=
  List.flatMap_cons

theorem ringPoints_cons (name : NodeName) (names : List NodeName) : ringPoints (name :: names) =
    (List.range virtualNodeCount).map (fun i => (chash (virtualName name i), name)) ++ ringPoints names :=
  List.flatMap_cons

/-- The agent's module with all virtual nodes of the servers. -/
def CModule.ofServers (darkLaunchPercentage : UInt32) (names : List NodeName) : CModule :=
  names.foldl CModule.addCacheServer { darkLaunchPercentage }

def CConsistentHashSelector.ofNodes (names : List NodeName) : Option CConsistentHashSelector :=
  names.foldlM CConsistentHashSelector.addNode {}

namespace CModule

theorem addVirtualNode_spec (m : CModule) (name : NodeName) (i : Nat) :
    (m.addVirtualNode name i).selector = HashRing.place m.selector (chash (virtualName name i), name) ∧
      (m.addVirtualNode name i).darkLaunchPercentage = m.darkLaunchPercentage := by
  unfold addVirtualNode HashRing.place hash
  dsimp only
  cases HashRing.find (chash (virtualName name i)) m.selector with
  | none => exact ⟨rfl, rfl⟩
  | some first =>
    dsimp only
    split
    · exact ⟨rfl, rfl⟩
    · exact ⟨rfl, rfl⟩

theorem addVirtualNodes_spec (name : NodeName) : ∀ (is : List Nat) (m : CModule),
    (is.foldl (fun m i => m.addVirtualNode name i) m).selector =
        (is.map (fun i => (chash (virtualName name i), name))).foldl HashRing.place m.selector ∧
      (is.foldl (fun m i => m.addVirtualNode name i) m).darkLaunchPercentage = m.darkLaunchPercentage
  | [], _ => ⟨rfl, rfl⟩
  | i :: is, m => by
    obtain ⟨h1, h2⟩ := addVirtualNode_spec m name i
    obtain ⟨h3, h4⟩ := addVirtualNodes_spec name is (m.addVirtualNode name i)
    rw [List.foldl_cons, List.map_cons, List.foldl_cons, h3, h4, h1, h2]
    exact ⟨rfl, rfl⟩

theorem addCacheServers_spec : ∀ (names : List NodeName) (m : CModule),
    (names.foldl addCacheServer m).selector = (ringPoints names).foldl HashRing.place m.selector ∧
      (names.foldl addCacheServer m).darkLaunchPercentage = m.darkLaunchPercentage
  | [], _ => ⟨rfl, rfl⟩
  | name :: names, m => by
    obtain ⟨h1, h2⟩ := addVirtualNodes_spec name (List.range virtualNodeCount) m
    obtain ⟨h3, h4⟩ := addCacheServers_spec names (m.addCacheServer name)
    rw [List.foldl_cons, h3, h4, ringPoints_cons, List.foldl_append]
    unfold addCacheServer
    rw [h1, h2]
    exact ⟨rfl, rfl⟩

end CModule

namespace CConsistentHashSelector

/-! The selector with any hash function in the place of `chash`. -/

section AnyHash

variable (hash : List UInt8 → UInt32)

def selectHash (s : CConsistentHashSelector) (value : UInt32) : NodeName :=
  ((HashRing.select value s.nodes).map (fun index => s.nodeNames.getD index [])).getD []

def addVirtualBy (s : CConsistentHashSelector) (name : NodeName) (index i : Nat) : CConsistentHashSelector :=
  let value := hash (virtualName name i)
  match HashRing.find value s.nodes with
  | some first =>
    if s.nodeNames.getD first [] < name then s else { s with nodes := HashRing.insert value index s.nodes }
  | none => { s with nodes := HashRing.insert value index s.nodes }

def addNodeBy (s : CConsistentHashSelector) (name : NodeName) : Option CConsistentHashSelector :=
  if name ∈ s.nodeNames then none
  else
    let index := s.nodeNames.length
    some ((List.range virtualNodeCount).foldl (fun s i => s.addVirtualBy hash name index i)
      { s with nodeNames := s.nodeNames ++ [name] })

def ofNodesBy (names : List NodeName) : Option CConsistentHashSelector :=
  names.foldlM (addNodeBy hash) {}

end AnyHash

/-- The ring with the names for the places of the nodes. -/
def ring (s : CConsistentHashSelector) : List (UInt32 × NodeName) :=
  s.nodes.map (Prod.map id (fun index => s.nodeNames.getD index []))

section AnyHash

variable (hash : List UInt8 → UInt32)

theorem addVirtualBy_spec (s : CConsistentHashSelector) {name : NodeName} {index : Nat}
    (hname : s.nodeNames.getD index [] = name) (i : Nat) :
    (s.addVirtualBy hash name index i).nodeNames = s.nodeNames ∧
      (s.addVirtualBy hash name index i).ring = HashRing.place s.ring (hash (virtualName name i), name) := by
  have hfind := HashRing.find_map (fun index => s.nodeNames.getD index []) (hash (virtualName name i)) s.nodes
  have hins := HashRing.insert_map (fun index => s.nodeNames.getD index []) (hash (virtualName name i)) index s.nodes
  unfold addVirtualBy HashRing.place ring
  dsimp only
  rw [hfind]
  rw [hname] at hins
  cases HashRing.find (hash (virtualName name i)) s.nodes with
  | none => exact ⟨rfl, hins.symm⟩
  | some first =>
    dsimp only [Option.map_some]
    split
    · exact ⟨rfl, rfl⟩
    · exact ⟨rfl, hins.symm⟩

theorem addVirtualsBy_spec {name : NodeName} {index : Nat} : ∀ (is : List Nat) (s : CConsistentHashSelector),
    s.nodeNames.getD index [] = name →
    (is.foldl (fun s i => s.addVirtualBy hash name index i) s).nodeNames = s.nodeNames ∧
      (is.foldl (fun s i => s.addVirtualBy hash name index i) s).ring =
        (is.map (fun i => (hash (virtualName name i), name))).foldl HashRing.place s.ring
  | [], _, _ => ⟨rfl, rfl⟩
  | i :: is, s, hname => by
    obtain ⟨h1, h2⟩ := s.addVirtualBy_spec hash hname i
    obtain ⟨h3, h4⟩ := addVirtualsBy_spec is (s.addVirtualBy hash name index i) (by rw [h1, hname])
    rw [List.foldl_cons, List.map_cons, List.foldl_cons, h3, h4, h1, h2]
    exact ⟨rfl, rfl⟩

def Indexed (s : CConsistentHashSelector) : Prop := ∀ x ∈ s.nodes, x.2 < s.nodeNames.length

theorem indexed_addVirtualBy {s : CConsistentHashSelector} (h : s.Indexed) (name : NodeName) {index : Nat} (i : Nat)
    (hi : index < s.nodeNames.length) : (s.addVirtualBy hash name index i).Indexed := by
  have hins : ∀ x ∈ HashRing.insert (hash (virtualName name i)) index s.nodes, x.2 < s.nodeNames.length := by
    intro x hx
    rcases HashRing.mem_insert hx with rfl | hx
    · exact hi
    · exact h x hx
  unfold addVirtualBy
  dsimp only
  split
  · split
    · exact h
    · exact hins
  · exact hins

theorem indexed_addVirtualsBy (name : NodeName) {index : Nat} : ∀ (is : List Nat) {s : CConsistentHashSelector}, s.Indexed →
    index < s.nodeNames.length → s.nodeNames.getD index [] = name →
    (is.foldl (fun s i => s.addVirtualBy hash name index i) s).Indexed
  | [], _, h, _, _ => h
  | i :: is, s, h, hi, hname => by
    have h1 := (s.addVirtualBy_spec hash hname i).1
    exact indexed_addVirtualsBy name is (indexed_addVirtualBy hash h name i hi) (by rw [h1]; exact hi) (by rw [h1, hname])

theorem addNodeBy_spec {s s' : CConsistentHashSelector} (h : s.Indexed) {name : NodeName} (ha : s.addNodeBy hash name = some s') :
    s'.Indexed ∧ s'.nodeNames = s.nodeNames ++ [name] ∧
      s'.ring = ((List.range virtualNodeCount).map (fun i => (hash (virtualName name i), name))).foldl HashRing.place
        s.ring := by
  unfold addNodeBy at ha
  split at ha
  · cases ha
  · obtain rfl := Option.some.inj ha
    have hname : (s.nodeNames ++ [name]).getD s.nodeNames.length [] = name := by
      rw [List.getD_eq_getElem?_getD, List.getElem?_append_right (Nat.le_refl _), Nat.sub_self]
      rfl
    have hidx : Indexed { s with nodeNames := s.nodeNames ++ [name] } := by
      intro x hx
      have := h x hx
      dsimp only
      rw [List.length_append]
      omega
    -- a longer list has the same names at the old places
    have hring : ring { s with nodeNames := s.nodeNames ++ [name] } = s.ring := by
      refine List.map_congr_left (fun x hx => ?_)
      have hlt := h x hx
      rw [Prod.map, Prod.map, List.getD_eq_getElem?_getD, List.getD_eq_getElem?_getD, List.getElem?_append_left hlt]
    obtain ⟨h1, h2⟩ := addVirtualsBy_spec hash (List.range virtualNodeCount) { s with nodeNames := s.nodeNames ++ [name] } hname
    refine ⟨indexed_addVirtualsBy hash name _ hidx ?_ hname, h1, ?_⟩
    · dsimp only
      rw [List.length_append, List.length_singleton]
      omega
    · rw [h2, hring]

theorem ofNodesBy_spec : ∀ (names : List NodeName) {s s' : CConsistentHashSelector}, s.Indexed →
    names.foldlM (addNodeBy hash) s = some s' → s'.ring = (ringPointsBy hash names).foldl HashRing.place s.ring
  | [], _, _, _, h => by
    obtain rfl := Option.some.inj h
    rfl
  | name :: names, s, s', hs, h => by
    rw [List.foldlM_cons] at h
    obtain ⟨s₁, h1, h2⟩ := Option.bind_eq_some_iff.mp h
    obtain ⟨hs₁, -, hring⟩ := addNodeBy_spec hash hs h1
    rw [ofNodesBy_spec names hs₁ h2, hring, ringPointsBy_cons, List.foldl_append]

end AnyHash

theorem addNode_spec {s s' : CConsistentHashSelector} (h : s.Indexed) {name : NodeName} (ha : s.addNode name = some s') :
    s'.Indexed ∧ s'.nodeNames = s.nodeNames ++ [name] ∧
      s'.ring = ((List.range virtualNodeCount).map (fun i => (chash (virtualName name i), name))).foldl HashRing.place
        s.ring :=
  addNodeBy_spec chash h ha

theorem ofNodes_spec (names : List NodeName) {s s' : CConsistentHashSelector} (h : s.Indexed)
    (ha : names.foldlM addNode s = some s') : s'.ring = (ringPoints names).foldl HashRing.place s.ring :=
  ofNodesBy_spec chash names h ha

theorem ofNodes_isSome : ∀ (names : List NodeName) {s : CConsistentHashSelector}, s.Indexed → (s.nodeNames ++ names).Nodup →
    (names.foldlM addNode s).isSome
  | [], _, _, _ => rfl
  | name :: names, s, h, hnodup => by
    have hnew : name ∉ s.nodeNames := fun hmem =>
      (List.nodup_append.mp hnodup).2.2 name hmem name (List.mem_cons_self ..) rfl
    obtain ⟨s₁, hs₁⟩ : ∃ s₁, s.addNode name = some s₁ := ⟨_, if_neg hnew⟩
    obtain ⟨hidx, hnames, -⟩ := addNode_spec h hs₁
    rw [List.foldlM_cons, hs₁]
    refine ofNodes_isSome names hidx ?_
    rw [hnames, List.append_assoc]
    exact hnodup

theorem select_eq (s : CConsistentHashSelector) (key : List UInt8) :
    s.select key = (HashRing.select (chash key) s.ring).getD [] := by
  rw [ring, HashRing.select_map]
  rfl

end CConsistentHashSelector

theorem ring_ne_nil {names : List NodeName} (hne : names ≠ []) : (ringPoints names).foldl HashRing.place [] ≠ [] := by
  cases names with
  | nil => exact absurd rfl hne
  | cons name names =>
    rw [ringPoints_cons, List.range_succ_eq_map, List.map_cons, List.cons_append, List.foldl_cons]
    exact HashRing.foldl_place_ne_nil _ (HashRing.place_ne_nil _ _)

theorem dispatchRequest_select {names names' : List NodeName} (hp : names.Perm names') (hne : names ≠ [])
    {s : CConsistentHashSelector} (hs : CConsistentHashSelector.ofNodes names = some s) (darkLaunchPercentage : UInt32)
    (a : List UInt8) : (CModule.ofServers darkLaunchPercentage names').dispatchRequest a =
      if darkLaunchPercentage ≠ 0 ∧ chash a % 100 < darkLaunchPercentage then .agentServer else .cacheServer (s.select a) := by
  have hdark : (CModule.ofServers darkLaunchPercentage names').darkLaunchPercentage = darkLaunchPercentage :=
    (CModule.addCacheServers_spec names' _).2
  have hring : s.ring = (ringPoints names).foldl HashRing.place [] :=
    CConsistentHashSelector.ofNodes_spec names (fun x hx => absurd hx List.not_mem_nil) hs
  have hsel : (CModule.ofServers darkLaunchPercentage names').selector = s.ring := by
    rw [hring]
    refine ((CModule.addCacheServers_spec names' _).1).trans ?_
    exact (HashRing.foldl_place_perm (hp.flatMap_right _) List.Pairwise.nil).symm
  obtain ⟨name, hname⟩ := HashRing.select_isSome (chash a) (r := s.ring) (by rw [hring]; exact ring_ne_nil hne)
  have hnode : s.select a = name := by
    rw [CConsistentHashSelector.select_eq, hname, Option.getD_some]
  unfold CModule.dispatchRequest
  dsimp only
  rw [hdark, hsel, hname, hnode]

/-- **The agent and the server choose the same node** for a key whose bytes both hash; which keys these are is exact. -/
theorem dispatchRequest_selectNode {names names' : List NodeName} (hp : names.Perm names') (hne : names ≠ [])
    {s : CConsistentHashSelector} (hs : CConsistentHashSelector.ofNodes names = some s) (darkLaunchPercentage : UInt32)
    {t : SingleKey} {r : FrontRequest} {key : KeyValue} {pk : List UInt8} (seed : UInt64) (hr : r.Keyed key)
    (ht : validKeyType r.keyType t.type = true) (hpk : buildSingleKey t.type t.size key = some pk) :
    ∃ a, extractPackedKey seed r = some a ∧ (a = routeBytes t.keyFormat pk ↔ key.SameBytes t r.keyType) ∧
      (key.SameBytes t r.keyType → (CModule.ofServers darkLaunchPercentage names').dispatchRequest a =
        if darkLaunchPercentage ≠ 0 ∧ chash a % 100 < darkLaunchPercentage then .agentServer
        else .cacheServer (selectNode t.keyFormat s pk)) := by
  obtain ⟨a, ha, hbytes⟩ := extract_eq_route seed hr ht hpk
  refine ⟨a, ha, hbytes, fun hsame => ?_⟩
  rw [dispatchRequest_select hp hne hs darkLaunchPercentage a, selectNode, ← hbytes.mpr hsame]

/-- A four-byte key 7 in a cluster of two nodes, which the agent has in another order. -/
theorem dispatchRequest_selectNode_seven : ∃ s, CConsistentHashSelector.ofNodes [[49], [50]] = some s ∧
    ∃ a, extractPackedKey 1 ⟨.get, false, none, .signed, some (.int 7)⟩ = some a ∧
      (CModule.ofServers 0 [[50], [49]]).dispatchRequest a = .cacheServer (selectNode 4 s [7, 0, 0, 0]) := by
  obtain ⟨s, hs⟩ := Option.isSome_iff_exists.mp
    (@CConsistentHashSelector.ofNodes_isSome [[49], [50]] {} (fun x hx => absurd hx List.not_mem_nil) (by decide))
  obtain ⟨a, ha, -, hnode⟩ := dispatchRequest_selectNode
    (show List.Perm [[49], [50]] [[50], [49]] from List.Perm.swap _ _ _) (by decide) hs 0 (t := ⟨.signed, 4, by decide⟩)
    (r := ⟨.get, false, none, .signed, some (.int 7)⟩) 1
    (show FrontRequest.Keyed _ (.int 7) from ⟨by decide, rfl, by decide, rfl, .inl rfl⟩) rfl
    (show _ = some [7, 0, 0, 0] by decide +kernel)
  exact ⟨s, hs, a, ha, (hnode (.inr ⟨rfl, by decide⟩)).trans (if_neg fun h => h.1 rfl)⟩

/-- **The key -1 of a four-byte signed field**: the agent hashes eight bytes of ones, the server four and four zeros. -/
theorem dispatchRequest_negative : ∃ s, CConsistentHashSelector.ofNodes [[49], [50]] = some s ∧
    buildSingleKey .signed 4 (.int 0xFFFFFFFFFFFFFFFF) = some [255, 255, 255, 255] ∧
    selectNode 4 s [255, 255, 255, 255] = [49] ∧
    (extractPackedKey 1 ⟨.get, false, none, .signed, some (.int 0xFFFFFFFFFFFFFFFF)⟩).map
      (CModule.ofServers 0 [[49], [50]]).dispatchRequest = some (.cacheServer [50]) := by
  -- one ring, asked for the bytes of both
  have hsel : (CConsistentHashSelector.ofNodes [[49], [50]]).map (fun s => (selectNode 4 s [255, 255, 255, 255],
      s.select [255, 255, 255, 255, 255, 255, 255, 255])) = some ([49], [50]) := by decide +kernel
  obtain ⟨s, hs, hnode⟩ := Option.map_eq_some_iff.mp hsel
  obtain ⟨hserver, hagent⟩ := Prod.mk.inj hnode
  refine ⟨s, hs, by decide +kernel, hserver, ?_⟩
  have hbytes : extractPackedKey 1 ⟨.get, false, none, .signed, some (.int 0xFFFFFFFFFFFFFFFF)⟩ =
      some [255, 255, 255, 255, 255, 255, 255, 255] := by decide +kernel
  rw [hbytes, Option.map_some, dispatchRequest_select (List.Perm.refl _) (by decide) hs, hagent, if_neg fun h => h.1 rfl]

end Dtc
