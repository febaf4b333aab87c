import DtcServer.Bytes
/-!
# Memory — bytes by address

A memory gives every address a byte.  Numbers of some width are read and written lowest byte first.  What a write leaves
is said by the addresses it does not touch; a read depends on the addresses it passes.
-/
namespace Memory

open Bytes

abbrev Mem := Nat → UInt8

/-- The bytes from `a` on. -/
def readBytes (m : Mem) (a : Nat) : Nat → List UInt8
  | 0 => []
  | n + 1 => m a :: readBytes m (a + 1) n

/-- The memory with `bytes` written from `a` on. -/
def writeBytes (m : Mem) (a : Nat) (bytes : List UInt8) : Mem :=
  fun x => if a ≤ x then (bytes[x - a]?).getD (m x) else m x

/-- The number in `k` bytes. -/
def readNat (m : Mem) (a k : Nat) : Nat := leNat k (readBytes m a k)

def writeNat (m : Mem) (a k v : Nat) : Mem := writeBytes m a (leBytes k v)

@[simp] theorem length_readBytes (m : Mem) : ∀ (n a : Nat), (readBytes m a n).length = n
  | 0, _ => rfl
  | n + 1, a => by rw [readBytes, List.length_cons, length_readBytes m n (a + 1)]

theorem readBytes_congr {m m' : Mem} : ∀ {n a : Nat}, (∀ x, a ≤ x → x < a + n → m' x = m x) →
    readBytes m' a n = readBytes m a n
  | 0, _, _ => rfl
  | n + 1, a, h => by
    rw [readBytes, readBytes, h a (Nat.le_refl a) (by omega),
      readBytes_congr (fun x h1 h2 => h x (by omega) (by omega))]

theorem take_readBytes (m : Mem) : ∀ (n k a : Nat), k ≤ n → (readBytes m a n).take k = readBytes m a k
  | n, 0, a, _ => by rw [List.take_zero, readBytes]
  | 0, k + 1, a, h => absurd h (Nat.not_succ_le_zero k)
  | n + 1, k + 1, a, h => by
    rw [readBytes, List.take_succ_cons, take_readBytes m n k (a + 1) (Nat.le_of_succ_le_succ h), readBytes]

theorem getElem?_readBytes (m : Mem) : ∀ (n a i : Nat), i < n → (readBytes m a n)[i]? = some (m (a + i))
  | 0, _, i, h => absurd h (Nat.not_lt_zero i)
  | n + 1, a, 0, _ => rfl
  | n + 1, a, i + 1, h => by
    rw [readBytes, List.getElem?_cons_succ, getElem?_readBytes m n (a + 1) i (Nat.lt_of_succ_lt_succ h)]
    congr 2
    omega

theorem readBytes_eq_of_agree {m m' : Mem} : ∀ {n a b : Nat}, (∀ i, i < n → m' (b + i) = m (a + i)) →
    readBytes m' b n = readBytes m a n
  | 0, _, _, _ => rfl
  | n + 1, a, b, h => by
    have hhead : m' b = m a := h 0 (Nat.succ_pos n)
    rw [readBytes, readBytes, hhead, readBytes_eq_of_agree (fun i hi => ?_)]
    have hi' := h (i + 1) (by omega)
    rwa [show b + 1 + i = b + (i + 1) by omega, show a + 1 + i = a + (i + 1) by omega]

theorem eq_of_readBytes_eq {m m' : Mem} {a b n : Nat} (h : readBytes m' b n = readBytes m a n) {i : Nat} (hi : i < n) :
    m' (b + i) = m (a + i) := by
  have hl := getElem?_readBytes m' n b i hi
  rw [h, getElem?_readBytes m n a i hi] at hl
  exact (Option.some.inj hl).symm

theorem writeBytes_outside {m : Mem} {a x : Nat} {bytes : List UInt8} (h : x < a ∨ a + bytes.length ≤ x) :
    writeBytes m a bytes x = m x := by
  unfold writeBytes
  by_cases hx : a ≤ x
  · rw [if_pos hx, List.getElem?_eq_none (by omega), Option.getD_none]
  · rw [if_neg hx]

theorem readBytes_writeBytes (m : Mem) : ∀ (bytes : List UInt8) (a : Nat),
    readBytes (writeBytes m a bytes) a bytes.length = bytes
  | [], _ => rfl
  | b :: bytes, a => by
    have hhead : writeBytes m a (b :: bytes) a = b := by
      unfold writeBytes
      rw [if_pos (Nat.le_refl a), Nat.sub_self]
      rfl
    have htail : readBytes (writeBytes m a (b :: bytes)) (a + 1) bytes.length =
        readBytes (writeBytes m (a + 1) bytes) (a + 1) bytes.length := by
      refine readBytes_congr (fun x h1 _ => ?_)
      unfold writeBytes
      rw [if_pos (by omega), if_pos h1, show x - a = x - (a + 1) + 1 by omega, List.getElem?_cons_succ]
    rw [List.length_cons, readBytes, hhead, htail, readBytes_writeBytes m bytes (a + 1)]

theorem readNat_lt (m : Mem) (a k : Nat) : readNat m a k < 256 ^ k := leNat_lt k _

theorem readNat_congr {m m' : Mem} {a k : Nat} (h : ∀ x, a ≤ x → x < a + k → m' x = m x) :
    readNat m' a k = readNat m a k := by
  unfold readNat
  rw [readBytes_congr h]

theorem writeNat_outside {m : Mem} {a k v x : Nat} (h : x < a ∨ a + k ≤ x) : writeNat m a k v x = m x :=
  writeBytes_outside (by rwa [length_leBytes])

theorem readNat_writeNat {m : Mem} {a k v : Nat} (h : v < 256 ^ k) : readNat (writeNat m a k v) a k = v := by
  have hb := readBytes_writeBytes m (leBytes k v) a
  rw [length_leBytes] at hb
  unfold readNat writeNat
  rw [hb, leNat_leBytes, Nat.mod_eq_of_lt h]

theorem readNat_writeNat_of_disjoint {m : Mem} {a k v b j : Nat} (h : b + j ≤ a ∨ a + k ≤ b) :
    readNat (writeNat m a k v) b j = readNat m b j :=
  readNat_congr (fun _ _ _ => writeNat_outside (by omega))

theorem writeNat_readNat (m : Mem) (a k x : Nat) : writeNat m a k (readNat m a k) x = m x := by
  by_cases hx : x < a ∨ a + k ≤ x
  · exact writeNat_outside hx
  · have hb := readBytes_writeBytes m (readBytes m a k) a
    rw [length_readBytes] at hb
    have he := eq_of_readBytes_eq hb (show x - a < k by omega)
    rw [show a + (x - a) = x by omega] at he
    unfold writeNat readNat
    rw [leBytes_leNat (length_readBytes m k a)]
    exact he

end Memory
