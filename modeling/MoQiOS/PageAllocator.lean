import MoQiOS.WordBits

/-!
# The physical page allocator

Frames are tracked by a byte bitmap whose set bits are the free frames, a
sixteen-bit reference count per frame, a free counter and a moving hint. The
allocator is initialised from the boot memory map or over a compact arena.
Integer overflow stops the kernel, so an entry point that can overflow is
partial. Frame contents, the serial log and the frame descriptors are not
part of the state.
-/

namespace MoQiOS.PageAllocator
open WordBits

def pageSize : ℕ := 4096

def word64 : ℕ := 2^64

def refSaturated : ℕ := 65535

structure Pmm where
  bitmap : Bytes
  bitmapSize : ℕ
  totalPages : ℕ
  freePages : ℕ
  refCounts : ℕ → ℕ
  reclaimFloorPages : ℕ
  minAllocPage : ℕ
  arenaMode : Bool
  arenaBase : ℕ
  nextFreeHint : ℕ

variable (s : Pmm) (page : ℕ)

def physFromPage : ℕ :=
  if s.arenaMode then s.arenaBase+page*pageSize else page*pageSize

variable (phys : ℕ)

def pageFromPhys : ℕ :=
  if s.arenaMode then
    if phys < s.arenaBase then s.totalPages else (phys-s.arenaBase)/pageSize
  else phys/pageSize

def isBitSet : Bool := test s.bitmap page

def setBit : Pmm := { s with bitmap := set s.bitmap page }

def clearBit : Pmm := { s with bitmap := clear s.bitmap page }

def setRef (page n : ℕ) : Pmm :=
  { s with refCounts := fun p => if p = page then n else s.refCounts p }

inductive MemmapKind where
  | usable
  | reserved
  | acpiReclaimable
  | acpiNvs
  | badMemory
  | bootloaderReclaimable
  | kernelAndModules
  | framebuffer
  deriving DecidableEq, Repr

structure MemmapEntry where
  base : ℕ
  length : ℕ
  kind : MemmapKind
  deriving DecidableEq, Repr

def ramLike (k : MemmapKind) : Bool :=
  k = .usable || k = .bootloaderReclaimable || k = .kernelAndModules || k = .acpiReclaimable

variable (entries : List MemmapEntry)

def highestPhys : ℕ :=
  entries.foldl (fun top e => if ramLike e.kind && top < e.base+e.length then e.base+e.length else top) 0

/-- Size of a page frame descriptor: a packed sixteen-bit count and eight flag
bits, stored in four bytes. -/
def pageFrameSize : ℕ := 4

def metadataSize (totalPages : ℕ) : ℕ :=
  ((totalPages+7)/8+7)/8*8+totalPages*2+3+totalPages*pageFrameSize

def markFree : Pmm → ℕ → ℕ → Pmm
  | s, _, 0 => s
  | s, p, n+1 =>
    if s.totalPages ≤ p then s
    else markFree { setBit s p with freePages := s.freePages+1 } (p+1) n

def takePage : Pmm :=
  if isBitSet s page then
    { clearBit s page with freePages := if 0 < s.freePages then s.freePages-1 else s.freePages }
  else s

def markUsed : Pmm → ℕ → ℕ → Pmm
  | s, _, 0 => s
  | s, p, n+1 => markUsed (if p < s.totalPages then takePage s p else s) (p+1) n

variable (e : MemmapEntry)

def freeUsable : Pmm :=
  if e.kind = .usable then markFree s (e.base/pageSize) (e.length/pageSize) else s

def takeKernel : Pmm :=
  if e.kind = .kernelAndModules then markUsed s (e.base/pageSize) (e.length/pageSize) else s

def blank (totalPages minAllocPage : ℕ) : Pmm where
  bitmap := fun _ => 0#8
  bitmapSize := (totalPages+7)/8
  totalPages := totalPages
  freePages := 0
  refCounts := fun _ => 0
  reclaimFloorPages := 0
  minAllocPage := minAllocPage
  arenaMode := false
  arenaBase := 0
  nextFreeHint := 0

/-- No result when an entry's end overflows or no usable region can hold the
metadata; the kernel does not run with such a map. -/
def init : Option Pmm :=
  if entries.any (fun e => word64 ≤ e.base+e.length) then none
  else
    let total := highestPhys entries/pageSize
    let metadata := metadataSize total
    match entries.find? (fun e => e.kind = .usable && metadata ≤ e.length) with
    | none => none
    | some home =>
      let s := entries.foldl freeUsable (blank total 512)
      let s := markUsed s (home.base/pageSize) ((metadata+pageSize-1)/pageSize)
      let s := entries.foldl takeKernel s
      some { s with nextFreeHint := s.minAllocPage }

def initArena (physBase length : ℕ) : Option Pmm :=
  if word64 ≤ physBase+length then none
  else
    let total := length/pageSize
    if total = 0 then none
    else
      let metadata := metadataSize total
      if length < metadata+pageSize then none
      else
        let s := markFree { blank total 0 with arenaMode := true, arenaBase := physBase } 0 total
        let s := markUsed s 0 ((metadata+pageSize-1)/pageSize)
        some { s with nextFreeHint := 0 }

def grantPage : Pmm :=
  { setRef (clearBit s page) page 1 with
    freePages := s.freePages-1
    nextFreeHint := page+1 }

inductive Scan where
  | found (page : ℕ) (s : Pmm)
  | halted (s : Pmm)
  | next (s : Pmm)

/-- Visit the set bits of one bitmap word from the lowest up. A stale bit is
dropped from the bitmap as well as from the local copy of the word. -/
def scanWord (s : Pmm) (w : ℕ) (word : BitVec 64) : Scan :=
  if h : word = 0#64 then .next s
  else
    let page := w*64+word.ctz.toNat
    if s.totalPages ≤ page then .halted s
    else if s.minAllocPage ≤ page ∧ s.refCounts page = 0 then .found page (grantPage s page)
    else scanWord (clearBit s page) w (dropLowest word)
termination_by word.toNat
decreasing_by exact dropLowest_lt word h

def scanWords (s : Pmm) (w : ℕ) : ℕ → Scan
  | 0 => .next s
  | n+1 =>
    match scanWord s w (word s.bitmap w) with
    | .next s' => scanWords s' (w+1) n
    | r => r

def allocPageLocked : Option ℕ × Pmm :=
  let totalWords := s.bitmapSize/8
  let startWord := s.nextFreeHint/64
  match scanWords s startWord (totalWords-startWord) with
  | .found page s' => (some (physFromPage s page), s')
  | .halted s' => (none, s')
  | .next s' =>
    let first := s'.minAllocPage/64
    match scanWords s' first (min (startWord+1) totalWords-first) with
    | .found page s'' => (some (physFromPage s page), s'')
    | .halted s'' => (none, s'')
    | .next s'' => (none, { s'' with nextFreeHint := s''.minAllocPage })

def dropRefLocked : Pmm :=
  if s.refCounts page = refSaturated then s
  else
    let s' := setRef s page (s.refCounts page-1)
    if s'.refCounts page = 0 then
      { setBit s' page with
        freePages := s.freePages+1
        nextFreeHint := if page < s.nextFreeHint then page else s.nextFreeHint }
    else s'

def freeAt : Pmm :=
  if s.totalPages ≤ page then s
  else if s.refCounts page = 0 then s
  else dropRefLocked s page

variable (addr : ℕ)

def freePage : Pmm := freeAt s (pageFromPhys s addr)

variable (addrs : List ℕ)

def freePageBatch : Pmm := addrs.foldl freePage s

/-- What the out-of-memory path of an allocation finds: no reclaim can run, or
the current address space swaps out the frames at the listed addresses, each
released by `freePage`. -/
inductive Reclaim where
  | unavailable
  | swapped (addrs : List ℕ)

def floorTriggered : Bool :=
  s.reclaimFloorPages != 0 && s.freePages ≤ s.reclaimFloorPages

def firstAttempt : Option ℕ × Pmm :=
  if floorTriggered s then (none, s) else allocPageLocked s

variable (x86 : Bool) (r : Reclaim)

def allocPage (s : Pmm) : Option ℕ × Pmm :=
  match firstAttempt s with
  | (some addr, s') => (some addr, s')
  | (none, s') =>
    if x86 then
      match r with
      | .swapped addrs => allocPageLocked (freePageBatch s' addrs)
      | .unavailable => if floorTriggered s then allocPageLocked s' else (none, s')
    else (none, s')

def grantRun (start count : ℕ) : Pmm :=
  (List.range count).foldl (fun t j => setRef (clearBit t (start+j)) (start+j) 1) s

def firstBusy (start count : ℕ) : Option ℕ :=
  ((List.range count).map (start+·)).find? (fun page => !isBitSet s page || 0 < s.refCounts page)

lemma firstBusy_ge (start count page : ℕ) (h : firstBusy s start count = some page) :
    start ≤ page := by
  have hm := List.mem_of_find?_eq_some h
  obtain ⟨j,_,rfl⟩ := List.mem_map.mp hm
  omega

def tryAllocContiguousAt (start count : ℕ) : ℕ ⊕ (ℕ × Pmm) :=
  match firstBusy s start count with
  | some page => .inl (page+1)
  | none => .inr (start, { grantRun s start count with
      freePages := s.freePages-count
      nextFreeHint := start+count })

lemma skip_gt (start count next : ℕ)
    (h : tryAllocContiguousAt s start count = .inl next) : start < next := by
  unfold tryAllocContiguousAt at h
  cases hb : firstBusy s start count with
  | none => simp [hb] at h
  | some page =>
    have hge := firstBusy_ge s start count page hb
    simp only [hb,Sum.inl.injEq] at h
    omega

def alignUp (start alignment : ℕ) : ℕ :=
  if alignment ≤ 1 then start else (start+alignment-1)/alignment*alignment

lemma alignUp_ge (start alignment : ℕ) : start ≤ alignUp start alignment := by
  unfold alignUp
  split_ifs with h
  · exact le_refl _
  have hd := Nat.div_add_mod (start+alignment-1) alignment
  have hm := Nat.mod_lt (start+alignment-1) (show alignment > 0 by omega)
  rw [Nat.mul_comm] at hd
  omega

/-- One pass of the contiguous search below `limit`. The outer option is the
overflow stop, the inner one the end of the pass without a run. -/
def searchRun (s : Pmm) (count alignment limit start : ℕ) : Option (Option (ℕ × Pmm)) :=
  if word64 ≤ start+count then none
  else if _hl : start+count ≤ limit then
    if 1 < alignment ∧ word64 ≤ start+alignment then none
    else
      let candidate := alignUp start alignment
      if word64 ≤ candidate+count then none
      else if limit < candidate+count then some none
      else
        match _ht : tryAllocContiguousAt s candidate count with
        | .inr run => some (some run)
        | .inl next => searchRun s count alignment limit next
  else some none
termination_by limit+1-start
decreasing_by
  have hs := skip_gt s _ count next _ht
  have hg := alignUp_ge start alignment
  omega

def allocContiguousAligned (s : Pmm) (count alignPages : ℕ) :
    Option (Option ℕ × Pmm) :=
  if count = 0 then some (none, s)
  else if count = 1 then some (allocPage x86 r s)
  else
    let alignment := max alignPages 1
    if s.minAllocPage ≤ s.nextFreeHint ∧ word64 ≤ s.nextFreeHint+count then none
    else
      let first := if s.minAllocPage ≤ s.nextFreeHint ∧ s.nextFreeHint+count ≤ s.totalPages
        then s.nextFreeHint else s.minAllocPage
      match searchRun s count alignment s.totalPages first with
      | none => none
      | some (some run) => some (some (physFromPage s run.1), run.2)
      | some none =>
        match searchRun s count alignment first s.minAllocPage with
        | none => none
        | some (some run) => some (some (physFromPage s run.1), run.2)
        | some none => some (none, s)

def freeContiguous (phys count : ℕ) : Pmm :=
  if count = 0 then s
  else if count = 1 then freePage s phys
  else (List.range count).foldl (fun t j => freeAt t (pageFromPhys s phys+j)) s

def reservePage : Pmm :=
  let page := pageFromPhys s phys
  if s.totalPages ≤ page then s else takePage s page

def addRef : Pmm :=
  let page := pageFromPhys s addr
  if page < s.totalPages then setRef s page (min (s.refCounts page+1) refSaturated) else s

def addRefBatch : Pmm := addrs.foldl addRef s

def decRef : ℕ × Pmm :=
  let page := pageFromPhys s addr
  if s.totalPages ≤ page then (0, s)
  else
    let s' := if 0 < s.refCounts page ∧ s.refCounts page ≠ refSaturated
      then setRef s page (s.refCounts page-1) else s
    (s'.refCounts page, s')

def decRefNoFree : Option ℕ × Pmm :=
  let page := pageFromPhys s addr
  if s.totalPages ≤ page ∨ s.refCounts page = 0 then (none, s)
  else
    let s' := if s.refCounts page ≠ refSaturated then setRef s page (s.refCounts page-1) else s
    (some (s'.refCounts page), s')

def setReclaimFloor (pages : ℕ) : ℕ × Pmm :=
  (s.reclaimFloorPages, { s with reclaimFloorPages := pages })

end MoQiOS.PageAllocator
