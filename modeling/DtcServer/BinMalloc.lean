import DtcServer.Memory
import Mathlib.Logic.Function.Basic
/-!
# BinMalloc — `CBinMalloc`, the allocator of the shared memory

A handle is an offset in the memory; the head with its bins is a record beside it.  A chunk begins with the size of the
chunk before it and its own size, whose lowest bit (`PREV_INUSE`) says that the chunk before it is in use; a free chunk
has its bin's links after them.  The memory handle of a chunk is eight bytes behind its own, and what its user may write
reaches four bytes into the next chunk.
-/
namespace Dtc

open Memory

abbrev minSize : Nat := 24

abbrev maxAllocSize : Nat := 2 ^ 32 - 8

abbrev nBins : Nat := 128

abbrev invalidHandle : Nat := 0

def allocSize (n : Nat) : Nat := n % 2 ^ 32

def interSize (n : Int) : Nat := (n % 2 ^ 64).toNat

def statItem (n : Int) : Nat := (n % 2 ^ 32).toNat

def realSize (n : Nat) : Nat := n / 8 * 8

def sizeBits (n : Nat) : Nat := n % 8

/-- `size | PREV_INUSE` -/
def setPrevInuse (n : Nat) : Nat := n / 2 * 2 + 1

/-- `size & ~PREV_INUSE` -/
def clearPrevInuse (n : Nat) : Nat := n / 2 * 2

def requestOutOfRange (req : Nat) : Bool := decide (2 ^ 32 - 2 * minSize ≤ req)

/-- `request2size`: room for both sizes, rounded up to eight. -/
def request2size (req : Nat) : Nat := if req + 15 < minSize then minSize else (req + 15) / 8 * 8

def inSmallbinRange (sz : Nat) : Bool := decide (sz < 512)

def smallbinIndex (sz : Nat) : Nat := sz / 8

def largebinIndex (sz : Nat) : Nat :=
  if sz / 2 ^ 6 ≤ 32 then 56 + sz / 2 ^ 6
  else if sz / 2 ^ 9 ≤ 20 then 91 + sz / 2 ^ 9
  else if sz / 2 ^ 12 ≤ 10 then 110 + sz / 2 ^ 12
  else if sz / 2 ^ 15 ≤ 4 then 119 + sz / 2 ^ 15
  else if sz / 2 ^ 18 ≤ 2 then 124 + sz / 2 ^ 18
  else 126

def binIndex (sz : Nat) : Nat := if inSmallbinRange sz then smallbinIndex sz else largebinIndex sz

def canCombile (size add : Nat) : Bool := decide (size + add ≤ maxAllocSize)

/-- `MALLOC_ALIGN_MASK` rounding of a handle. -/
def alignUp (n : Nat) : Nat := (n + 7) / 8 * 8

structure CBin where
  hPreChunk : Nat := invalidHandle
  hNextChunk : Nat := invalidHandle
  deriving DecidableEq, Repr

/-- The allocator: the memory, the fields of `CMemHead`, the bins and the statistics the split of a chunk looks at. -/
structure CBinMalloc where
  mem : Mem
  tSize : Nat
  tUserAllocSize : Nat
  tUserAllocChunkCnt : Nat
  hBottom : Nat
  hReserveZone : Nat
  hTop : Nat
  tLastFreeChunkSize : Nat
  /-- the words from `m_auiBinBitMap` on; the fifth and later ones are not of the map -/
  auiBinBitMap : Nat → Nat
  bin : Nat → CBin
  statChunkTotal : Nat
  statDataSize : Nat
  minChunkSize : Nat

namespace CBinMalloc

variable (h : CBinMalloc)

/-! The fields of the `CMallocChunk` at `p`. -/

def tPreSize (p : Nat) : Nat := readNat h.mem p 4
def tChunkField (p : Nat) : Nat := readNat h.mem (p + 4) 4
def hPreChunk (p : Nat) : Nat := readNat h.mem (p + 8) 8
def hNextChunk (p : Nat) : Nat := readNat h.mem (p + 16) 8

def putPreSize (p v : Nat) : CBinMalloc := { h with mem := writeNat h.mem p 4 v }
def putChunkField (p v : Nat) : CBinMalloc := { h with mem := writeNat h.mem (p + 4) 4 v }
def putPreChunk (p v : Nat) : CBinMalloc := { h with mem := writeNat h.mem (p + 8) 8 v }
def putNextChunk (p v : Nat) : CBinMalloc := { h with mem := writeNat h.mem (p + 16) 8 v }

/-- `CHUNK_SIZE` -/
def chunkField (p : Nat) : Nat := realSize (h.tChunkField p)

def prevInuse (p : Nat) : Bool := h.tChunkField p % 2 == 1

def inuseBitAtOffset (p offset : Nat) : Bool := h.prevInuse (p + offset)

def setInuseBitAtOffset (p s : Nat) : CBinMalloc := h.putChunkField (p + s) (setPrevInuse (h.tChunkField (p + s)))

def clearInuseBitAtOffset (p s : Nat) : CBinMalloc := h.putChunkField (p + s) (clearPrevInuse (h.tChunkField (p + s)))

def setSizeAtOffset (p offset size : Nat) : CBinMalloc :=
  h.putChunkField (p + offset) (realSize size + sizeBits (h.tChunkField (p + offset)))

def setPresizeAtOffset (p offset size : Nat) : CBinMalloc := h.putPreSize (p + offset) (realSize size)

def setBinBitMap (i : Nat) : CBinMalloc :=
  { h with auiBinBitMap := Function.update h.auiBinBitMap (i / 32) (h.auiBinBitMap (i / 32) ||| 2 ^ (i % 32)) }

def clearBinBitMap (i : Nat) : CBinMalloc :=
  let word := h.auiBinBitMap (i / 32) &&& (2 ^ 32 - 1 - 2 ^ (i % 32))
  { h with auiBinBitMap := Function.update h.auiBinBitMap (i / 32) word }

def emptyBin (i : Nat) : Bool := (h.bin i).hNextChunk == invalidHandle

def getMinChunkSize : Nat :=
  allocSize (if h.minChunkSize = 1 then (if h.statChunkTotal = 0 then minSize else h.statDataSize / h.statChunkTotal)
    else h.minChunkSize)

def setMinChunkSize (size : Nat) : CBinMalloc :=
  { h with minChunkSize := if size = 1 then 1 else if size < minSize then minSize else size }

/-- A pointer is its offset; `NULL` and what is behind the memory have no handle. -/
def ptr2Handle (p : Nat) : Nat := if p < h.tSize then p else invalidHandle

def chunk2mem (p : Nat) : Nat := p + 8
def mem2chunk (p : Nat) : Nat := p - 8

def atTop (p sz : Nat) : Bool := p + sz == h.hTop

/-- `UnlinkBin` of the bin `i`; its return value is not looked at. -/
def unlinkBin (i handle : Nat) : CBinMalloc :=
  if handle = invalidHandle then h
  else if (h.bin i).hNextChunk = invalidHandle ∨ (h.bin i).hPreChunk = invalidHandle then h
  else
    let h := if h.hPreChunk handle = invalidHandle then
        { h with bin := Function.update h.bin i { h.bin i with hNextChunk := h.hNextChunk handle } }
      else h.putNextChunk (h.hPreChunk handle) (h.hNextChunk handle)
    if h.hNextChunk handle = invalidHandle then
      { h with bin := Function.update h.bin i { h.bin i with hPreChunk := h.hPreChunk handle } }
    else h.putPreChunk (h.hNextChunk handle) (h.hPreChunk handle)

def linkBin (i handle : Nat) : CBinMalloc :=
  if handle = invalidHandle then h
  else
    let h := h.putNextChunk handle (h.bin i).hNextChunk
    let h := h.putPreChunk handle invalidHandle
    if (h.bin i).hNextChunk ≠ invalidHandle then
      let h := h.putPreChunk (h.bin i).hNextChunk handle
      if (h.bin i).hPreChunk = invalidHandle then h
      else { h with bin := Function.update h.bin i { h.bin i with hNextChunk := handle } }
    else if (h.bin i).hPreChunk ≠ invalidHandle then h
    else { h with bin := Function.update h.bin i { hPreChunk := handle, hNextChunk := handle } }

/-- `UnlinkBin`, and the bit of a bin that is empty now is cleared. -/
def unlinkClear (i handle : Nat) : CBinMalloc :=
  let h := h.unlinkBin i handle
  if h.emptyBin i then h.clearBinBitMap i else h

/-- `CheckInuseChunk` returns 0. -/
def checkInuseChunk (p : Nat) : Bool :=
  h.inuseBitAtOffset p (h.chunkField p) &&
    (h.prevInuse p ||
      (decide (h.hBottom ≤ h.ptr2Handle (p - h.tPreSize p)) && h.chunkField (p - h.tPreSize p) == h.tPreSize p)) &&
    (h.atTop (p + h.chunkField p) 0 || decide (minSize ≤ h.chunkField (p + h.chunkField p)))

/-- `Init` of a memory with a head of `headSize` bytes; `none` when the memory is too small. -/
def init (headSize : Nat) (mem : Mem) (tSize : Nat) : Option CBinMalloc :=
  if tSize < headSize + 16 * (nBins + 64 + 1) + 4096 + minSize then none
  else
    let hReserveZone := alignUp (headSize + 16 * (nBins + 64 + 1))
    let hBottom := alignUp (hReserveZone + 4096)
    let h : CBinMalloc := {
      mem := mem
      tSize := tSize
      tUserAllocSize := hBottom
      tUserAllocChunkCnt := 0
      hBottom := hBottom
      hReserveZone := hReserveZone
      hTop := hBottom
      tLastFreeChunkSize := if hBottom + minSize < tSize then tSize - hBottom - minSize else 0
      auiBinBitMap := fun _ => 0
      bin := fun _ => {}
      statChunkTotal := 0
      statDataSize := hBottom
      minChunkSize := minSize }
    some ((h.putPreSize h.hTop 0).putChunkField h.hTop 1)

/-- `InterFree` joins the free chunk in front: the state, the chunk and its size. -/
def freeCombinePre (p size : Nat) : CBinMalloc × Nat × Nat :=
  if !h.prevInuse p && canCombile size (h.tPreSize p) then
    let preSize := h.tPreSize p
    let size := allocSize (size + preSize)
    let p := p - preSize
    let h := h.unlinkClear (binIndex preSize) (h.ptr2Handle p)
    ((h.setSizeAtOffset p 0 size).setPresizeAtOffset p size size, p, size)
  else (h, p, size)

/-- `InterFree` joins the free chunk behind, if the chunk is not the last one. -/
def freeCombineNext (p size : Nat) : CBinMalloc × Nat :=
  if h.atTop p size then (h, size)
  else
    let next := p + size
    let nextSize := h.chunkField next
    if !h.inuseBitAtOffset next nextSize && canCombile size nextSize then
      let size := allocSize (size + nextSize)
      let h := h.unlinkClear (binIndex nextSize) (h.ptr2Handle next)
      ((h.setSizeAtOffset p 0 size).setPresizeAtOffset p size size, size)
    else (h, size)

/-- The sizes of a freed chunk in its head and behind it, with the bit behind it set. -/
def setFreeTags (p size : Nat) : CBinMalloc :=
  ((h.setSizeAtOffset p 0 size).setPresizeAtOffset p size size).setInuseBitAtOffset p size

/-- `m_tLastFreeChunkSize`, if this one is larger. -/
def noteFreeSize (size : Nat) : CBinMalloc := { h with tLastFreeChunkSize := max h.tLastFreeChunkSize size }

def moveTop (hTop : Nat) : CBinMalloc := { h with hTop := hTop }

/-- `InterFree` puts the joined chunk into its bin, or gives it back to the top. -/
def freePlace (p size : Nat) : CBinMalloc :=
  let h := (h.setFreeTags p size).noteFreeSize size
  if h.atTop p size then
    let h := (h.moveTop (h.hTop - size)).putChunkField p 1
    h.noteFreeSize (h.tSize - h.hTop - minSize)
  else
    let h := h.clearInuseBitAtOffset p size
    (h.linkBin (binIndex size) (h.ptr2Handle p)).setBinBitMap (binIndex size)

/-- `InterFree`: the state, the return value and `tMemSize`. -/
def interFree (handle : Nat) : CBinMalloc × Int × Nat :=
  if handle = invalidHandle then (h, 0, 0)
  else if h.tSize ≤ handle then (h, -1, 0)
  else
    let p := mem2chunk handle
    let size := h.chunkField p
    if h.tSize ≤ p + size then (h, -2, size)
    else if !h.inuseBitAtOffset p size then (h, -3, size)
    else if p % 8 ≠ 0 then (h, 0, size) -- `return(INVALID_HANDLE)`
    else if !h.checkInuseChunk p then (h, 0, size)
    else
      let pre := h.freeCombinePre p size
      if !pre.1.atTop pre.2.1 pre.2.2 && decide (pre.1.chunkField (pre.2.1 + pre.2.2) < minSize) then (pre.1, -4, size)
      else
        let next := pre.1.freeCombineNext pre.2.1 pre.2.2
        (next.1.freePlace pre.2.1 next.2, 0, size)

/-- `BinMalloc`: the first chunk of a bin. -/
def binMalloc (i : Nat) : CBinMalloc × Nat :=
  let p := (h.bin i).hNextChunk
  if p = invalidHandle then (h, 0)
  else ((h.setInuseBitAtOffset p (realSize (h.tChunkField p))).unlinkBin i p, p)

def smallBinMalloc (size : Nat) : CBinMalloc × Nat :=
  let i := smallbinIndex size
  let r := h.binMalloc i
  (if r.1.emptyBin i then r.1.clearBinBitMap i else r.1, r.2)

/-- `TopAlloc`: the chunk's user pointer, `NULL` when the memory is used up. -/
def topAlloc (size : Nat) : CBinMalloc × Nat :=
  if h.tSize ≤ h.hTop + size + minSize then (h, 0)
  else
    let p := h.hTop
    let h := h.putChunkField p (sizeBits (h.tChunkField p) + realSize size)
    let h := h.putPreSize (p + size) (realSize size)
    let h := h.putChunkField (p + size) 1
    (h.moveTop (h.hTop + size), chunk2mem p)

/-- The search for a large enough chunk from `v` on, over at most `n` chunks. -/
def searchBin (size : Nat) : Nat → Nat → Nat
  | 0, _ => invalidHandle
  | n + 1, v => if v = invalidHandle then invalidHandle
    else if size ≤ h.chunkField v then v else searchBin size n (h.hNextChunk v)

/-- The words of the bit map from `i` on that are 0 are skipped. -/
def skipWords : Nat → Nat → Nat
  | 0, i => i
  | n + 1, i => if h.auiBinBitMap i = 0 then skipWords n (i + 1) else i

/-- The first bin from `i` on that is not empty. -/
def firstBin : Nat → Nat → Nat
  | 0, i => i
  | n + 1, i => if i < nBins ∧ h.emptyBin i then firstBin n (i + 1) else i

def searchNextBin (i : Nat) : Nat :=
  let i := i + 1
  -- the bound of the loop is the size of the map in bytes
  let i := if h.auiBinBitMap (i / 32) = 0 then 32 * h.skipWords (16 - (i / 32 + 1)) (i / 32 + 1) else i
  h.firstBin nBins i

/-- The last chunk of a bin that is large enough; the loop has no end of its own. -/
def tailFit (size : Nat) : Nat → Nat → Option Nat
  | 0, _ => none
  | n + 1, p => if p = invalidHandle then none
    else if h.chunkField p < size then tailFit size n (h.hPreChunk p) else some p

/-- An unlinked chunk is taken whole, or its end is freed again. -/
def takeChunk (p size : Nat) : CBinMalloc :=
  let remainSize := h.chunkField p - size
  if remainSize < h.getMinChunkSize then h.setInuseBitAtOffset p (h.chunkField p)
  else
    let h := h.putChunkField p (size + sizeBits (h.tChunkField p))
    let next := p + size
    let h := h.putChunkField next remainSize
    let h := h.putPreSize next size
    let h := h.setInuseBitAtOffset next 0
    let h := h.putPreSize (p + size + remainSize) remainSize
    let h := h.setInuseBitAtOffset next remainSize
    (h.interFree (h.ptr2Handle next + 8)).1

/-- The chunk `v` of the bin `i` is unlinked and taken: the state and its handle. -/
def takeFrom (i v size : Nat) : CBinMalloc × Nat :=
  let h := (h.unlinkClear i (h.ptr2Handle v)).takeChunk v size
  (h, h.ptr2Handle (chunk2mem v))

/-- The loop of `InterMalloc`: a chunk of the size's own bin if that is a large one, else of the next bin that has one,
else the top; `none` where a loop does not end. -/
def mallocFromBins (size : Nat) : Option (CBinMalloc × Nat) :=
  let i := binIndex size
  let v := if inSmallbinRange size then invalidHandle else h.searchBin size 99 (h.bin i).hNextChunk
  if v ≠ invalidHandle then some (h.takeFrom i v size)
  else
    let i := h.searchNextBin i
    if nBins ≤ i then
      let r := h.topAlloc size
      some (r.1, r.1.ptr2Handle r.2)
    else (h.tailFit size h.tSize (h.bin i).hPreChunk).map (fun p => h.takeFrom i p size)

def interMalloc (req : Nat) : Option (CBinMalloc × Nat) :=
  if requestOutOfRange req then some (h, invalidHandle)
  else
    let size := request2size req
    let small := if inSmallbinRange size then h.smallBinMalloc size else (h, 0)
    if small.2 ≠ 0 then some (small.1, small.1.ptr2Handle (chunk2mem small.2))
    else small.1.mallocFromBins size

def malloc (req : Nat) : Option (CBinMalloc × Nat) :=
  let h := { h with tLastFreeChunkSize := 0 }
  (h.interMalloc req).map (fun r =>
    let h := r.1
    if r.2 ≠ invalidHandle then
      let size := interSize (h.tUserAllocSize + h.chunkField (mem2chunk r.2))
      ({ h with
          tUserAllocSize := size
          tUserAllocChunkCnt := interSize (h.tUserAllocChunkCnt + 1)
          statChunkTotal := statItem (h.statChunkTotal + 1)
          statDataSize := size }, r.2)
    else r)

def calloc (req : Nat) : Option (CBinMalloc × Nat) :=
  (h.malloc req).map (fun r =>
    if r.2 ≠ invalidHandle then ({ r.1 with mem := writeBytes r.1.mem r.2 (List.replicate req 0) }, r.2) else r)

/-- The loop of `InterReAlloc` that frees the rest, in pieces of at most `MAX_ALLOC_SIZE`. -/
def freeRemain : Nat → CBinMalloc → Nat → Nat → Option CBinMalloc
  | 0, _, _, _ => none
  | n + 1, h, p, remainder =>
    let size :=
      if maxAllocSize < remainder then
        if minSize ≤ remainder - maxAllocSize then realSize maxAllocSize else realSize (allocSize (remainder - minSize))
      else allocSize remainder
    let h := h.putChunkField p (realSize size + 1)
    let next := p + realSize size
    let h := h.putPreSize next (realSize size)
    let h := h.putChunkField next (setPrevInuse (h.tChunkField next))
    let h := h.setInuseBitAtOffset p size
    let h := (h.interFree (h.ptr2Handle (chunk2mem p))).1
    if 0 < remainder - size then freeRemain n h (p + realSize size) (remainder - size) else some h

/-- The end of `InterReAlloc`: what the chunk has too much is freed, and its head is written. -/
def reAllocFinish (new newSize size : Nat) (preInUse : Bool) (preSize : Nat) : Option (CBinMalloc × Nat) :=
  let remainder := newSize - size
  let head (h : CBinMalloc) (newSize : Nat) : CBinMalloc × Nat :=
    let h := h.putChunkField new (if preInUse then setPrevInuse (realSize newSize) else realSize newSize)
    let h := h.putPreSize new preSize
    (h, h.ptr2Handle (chunk2mem new))
  if h.getMinChunkSize ≤ remainder then
    (freeRemain (h.tSize + 1) h (new + size) remainder).map (fun h => head h size)
  else
    let next := new + realSize newSize
    some (head (h.putChunkField next (setPrevInuse (h.tChunkField next))) newSize)

/-- `InterReAlloc`: the state, the new handle and `tOldMemSize`. -/
def interReAlloc (handle req : Nat) : Option (CBinMalloc × Nat × Nat) :=
  if handle = invalidHandle then (h.interMalloc req).map (fun r => (r.1, r.2, 0))
  else if req = 0 then
    let r := h.interFree handle
    some (r.1, invalidHandle, r.2.2)
  else if requestOutOfRange req then some (h, invalidHandle, 0)
  else
    let size := request2size req
    if h.hTop ≤ handle ∨ handle ≤ h.hBottom then some (h, invalidHandle, 0)
    else
      let p := mem2chunk handle
      let oldSize := h.chunkField p
      if h.hTop < p + oldSize then some (h, invalidHandle, 0)
      else if p % 8 ≠ 0 then some (h, invalidHandle, 0)
      else if oldSize < minSize then some (h, invalidHandle, 0)
      else if !h.checkInuseChunk p then some (h, invalidHandle, 0)
      else
        let preInUse := h.prevInuse p
        let preSize := h.tPreSize p
        let next := p + oldSize
        let done (r : CBinMalloc × Nat) : CBinMalloc × Nat × Nat := (r.1, r.2, oldSize)
        if size ≤ oldSize then (h.reAllocFinish p oldSize size preInUse preSize).map done
        else if h.atTop p oldSize && decide (h.hTop + (size - oldSize) + minSize < h.tSize) then
          let h := h.putChunkField p (realSize size + sizeBits (h.tChunkField p))
          let next := h.hTop + (size - oldSize)
          let h := h.putPreSize next (realSize size)
          let h := h.putChunkField next 1
          let h := h.moveTop (h.hTop + (size - oldSize))
          some (h, h.ptr2Handle (chunk2mem p), oldSize)
        else if !h.atTop p oldSize && !h.inuseBitAtOffset next (h.chunkField next)
            && decide (size ≤ oldSize + h.chunkField next) then
          let newSize := oldSize + h.chunkField next
          let h := h.unlinkBin (binIndex (h.chunkField next)) (h.ptr2Handle next)
          (h.reAllocFinish p newSize size preInUse preSize).map done
        else if !h.prevInuse p && decide (size ≤ allocSize (oldSize + h.tPreSize p)) then
          let new := p - h.tPreSize p
          let preInUse := h.prevInuse new
          let preSize := h.tPreSize new
          let newSize := oldSize + h.tPreSize p
          let h := h.unlinkBin (binIndex (h.tPreSize p)) new
          let h := { h with mem := writeBytes h.mem (chunk2mem new) (readBytes h.mem (chunk2mem p) (oldSize - 4)) }
          (h.reAllocFinish new newSize size preInUse preSize).map done
        else
          (h.interMalloc req).map (fun r =>
            let h := r.1
            if r.2 = invalidHandle then (h, invalidHandle, oldSize)
            else
              let h := { h with mem := writeBytes h.mem r.2 (readBytes h.mem (chunk2mem p) (oldSize - 4)) }
              ((h.interFree handle).1, r.2, oldSize))

def reAlloc (handle req : Nat) : Option (CBinMalloc × Nat) :=
  let h := { h with tLastFreeChunkSize := 0 }
  (h.interReAlloc handle req).map (fun r =>
    let h := r.1
    if r.2.1 ≠ invalidHandle then
      let size := interSize (h.tUserAllocSize + h.chunkField (mem2chunk r.2.1) - r.2.2)
      let h := { h with tUserAllocSize := size, statDataSize := size }
      if handle = invalidHandle then
        ({ h with
            tUserAllocChunkCnt := interSize (h.tUserAllocChunkCnt + 1)
            statChunkTotal := statItem (h.statChunkTotal + 1) }, r.2.1)
      else (h, r.2.1)
    else if req = 0 then
      let size := interSize (h.tUserAllocSize - r.2.2)
      ({ h with
          tUserAllocSize := size
          tUserAllocChunkCnt := interSize (h.tUserAllocChunkCnt - 1)
          statChunkTotal := statItem (h.statChunkTotal - 1)
          statDataSize := size }, invalidHandle)
    else (h, invalidHandle))

def free (handle : Nat) : CBinMalloc × Int :=
  let r := h.interFree handle
  let h := r.1
  if r.2.1 = 0 then
    let size := interSize (h.tUserAllocSize - r.2.2)
    ({ h with
        tUserAllocSize := size
        tUserAllocChunkCnt := interSize (h.tUserAllocChunkCnt - 1)
        statChunkTotal := statItem (h.statChunkTotal - 1)
        statDataSize := size }, 0)
  else (h, r.2.1)

/-- `ChunkSize`: what the user of a handle may write, 0 for a handle that is not one. -/
def chunkSize (handle : Nat) : Nat :=
  if h.hTop ≤ handle ∨ handle ≤ h.hBottom then 0
  else if !h.checkInuseChunk (mem2chunk handle) then 0
  else h.chunkField (mem2chunk handle) - 4

end CBinMalloc

end Dtc
