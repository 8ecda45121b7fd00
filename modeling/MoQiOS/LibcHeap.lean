import MoQiOS.WordArith
import MoQiOS.Tilings

/-!
# The first-fit heap of the C library

The heap is an address-ordered list of blocks, each a thirty-two byte header
and a payload. Fresh regions come from the system through `grow` and are
appended as one free block. The list node a C pointer designates is found by
walking the list. Frees that arrive while the calling thread already holds
the heap lock are parked and drained by the next release. Payload contents
and the debug counters are not modelled.
-/

namespace MoQiOS.LibcHeap
open WordArith Tilings

def headerSize : ℕ := 32
def alignment : ℕ := 16
def minSplit : ℕ := headerSize+alignment
def growChunk : ℕ := 4096
def blockMagic : ℕ := 0x4d6f5169
def sizeLimit : ℕ := wordSize-1-(alignment-1)-headerSize
def deferredMax : ℕ := 8

inductive Errno where
  | enomem
  | einval
  deriving DecidableEq, Repr

structure Block where
  addr : ℕ
  size : ℕ
  free : Bool
  magic : ℕ
  deriving DecidableEq, Repr

structure Heap where
  blocks : List Block
  regions : List Piece
  deferred : List ℕ

def empty : Heap := ⟨[], [], []⟩

/-- The system's side of heap growth: the answer to a request, given all regions
handed out so far. A region is aligned, lies behind the earlier ones and ends
at an address a pointer can hold. -/
structure HeapGrow where
  grow : List Piece → ℕ → Option ℕ
  aligned : ∀ regions bytes a, grow regions bytes = some a → alignment ∣ a
  nonnull : ∀ regions bytes a, grow regions bytes = some a → a ≠ 0
  behind : ∀ regions bytes a, grow regions bytes = some a → ∀ r ∈ regions, r.1+r.2 ≤ a
  fits : ∀ regions bytes a, grow regions bytes = some a → a+bytes < wordSize

section
variable (A : Arith) (b : Block)

def payload : ℕ := A.add b.addr headerSize

def alignUp (n : ℕ) : ℕ := A.add n (alignment-1)/alignment*alignment

def fresh (addr size : ℕ) : Block := ⟨addr,size,true,blockMagic⟩

def askFor (need : ℕ) : ℕ := if need < growChunk then growChunk else alignUp A need

def grow (os : HeapGrow) (h : Heap) (size : ℕ) : Option (Block × Heap) :=
  let ask := askFor A (A.add size headerSize)
  match os.grow h.regions ask with
  | none => none
  | some mem =>
    let b := fresh mem (A.sub ask headerSize)
    some (b, { h with blocks := h.blocks++[b], regions := h.regions++[(mem,ask)] })

/-- The block cut down to `size`, followed by the free remainder if it is
large enough to stand alone. -/
def split (size : ℕ) : List Block :=
  if b.size < A.add size minSplit then [b]
  else [{ b with size := size },
    fresh (A.add (payload A b) size) (A.sub (A.sub b.size size) headerSize)]

def use : List Block → List Block
  | [] => []
  | b::rest => { b with free := false }::rest

/-- Walk the list to the first block at which `f` acts; `f` rewrites the list
from that block on. -/
def walk {α : Type} (f : Block → List Block → Option (List Block × α)) :
    List Block → Option (List Block × α)
  | [] => none
  | b::rest =>
    match f b rest with
    | some out => some out
    | none => (walk f rest).map (fun out => (b::out.1, out.2))

variable (os : HeapGrow)

def mallocLocked (h : Heap) (want : ℕ) : Option (ℕ × Heap) :=
  match walk (fun b rest =>
      if b.free && want ≤ b.size then some (use (split A b want)++rest, payload A b) else none)
      h.blocks with
  | some (blocks, p) => some (p, { h with blocks := blocks })
  | none =>
    match grow A os h want with
    | none => none
    | some (b, h') => some (payload A b, { h' with blocks := h.blocks++use (split A b want) })

def adjacent (a b : Block) : Bool := A.add (payload A a) a.size = b.addr

def merge (b gone : Block) : Block := { b with size := A.add b.size (A.add headerSize gone.size) }

def coalesce : List Block → List Block
  | [] => []
  | [b] => [b]
  | b::n::rest =>
    if b.free && n.free && adjacent A b n then coalesce (merge A b n::rest)
    else b::coalesce (n::rest)
termination_by l => l.length

variable (h : Heap)

/-- Mark the live block at `ptr` free. The walk stops at the first block at
this address, even if it is already free or its header is damaged. -/
def freeLocked (ptr : ℕ) : Heap :=
  match walk (fun b rest =>
      if payload A b = ptr then
        if b.magic ≠ blockMagic || b.free then some (b::rest, false)
        else some ({ b with free := true }::rest, true)
      else none) h.blocks with
  | some (blocks, true) => { h with blocks := coalesce A blocks }
  | _ => h

def heapRelease : Heap := h.deferred.foldl (freeLocked A) { h with deferred := [] }

def deferFree (ptr : ℕ) : Heap :=
  if h.deferred.length < deferredMax then { h with deferred := h.deferred++[ptr] } else h

structure Reply where
  ptr : Option ℕ
  err : Option Errno
  deriving DecidableEq, Repr

def refuse (e : Errno) (h : Heap) : Reply × Heap := (⟨none, some e⟩, h)

def malloc (h : Heap) (size : ℕ) : Reply × Heap :=
  if sizeLimit < size then refuse .enomem h
  else
    match mallocLocked A os h (alignUp A (if size = 0 then 1 else size)) with
    | none => refuse .enomem (heapRelease A h)
    | some (p, h') => (⟨some p, none⟩, heapRelease A h')

def free (ptr : ℕ) : Heap :=
  if ptr = 0 then h else heapRelease A (freeLocked A h ptr)

def calloc (h : Heap) (nmemb size : ℕ) : Reply × Heap :=
  let total := A.mul nmemb size
  if size ≠ 0 ∧ total/size ≠ nmemb then refuse .enomem h else malloc A os h total

/-- The live block whose payload is `ptr`, between the blocks before and behind
it. The search stops at the first block at this address. -/
def findLive (ptr : ℕ) : List Block → Option (List Block × Block × List Block)
  | [] => none
  | b::rest =>
    if payload A b = ptr then
      if b.magic ≠ blockMagic || b.free then none else some ([], b, rest)
    else (findLive ptr rest).map (fun found => (b::found.1, found.2))

/-- Bytes the block could reach by swallowing the free blocks right behind it,
and whether the heap ends there. -/
def available (want avail : ℕ) (last : Block) : List Block → ℕ × Bool
  | [] => (avail, true)
  | n::rest =>
    if n.free && adjacent A last n && avail < want
      then available want (A.add avail (A.add headerSize n.size)) n rest
    else (avail, false)

def swallow (want : ℕ) (b : Block) : List Block → Block × List Block
  | [] => (b, [])
  | gone::rest => if b.size < want then swallow want (merge A b gone) rest else (b, gone::rest)

/-- Grow a block in place: at most two tries, the second after fresh heap was
appended behind a block that reaches the end. -/
def growInPlace (h : Heap) (want : ℕ) (b : Block) (rest : List Block) :
    Heap × Block × List Block :=
  let first := available A want b.size b rest
  if want ≤ first.1 then (h, swallow A want b rest)
  else if first.2 then
    match grow A os h (A.sub want first.1) with
    | none => (h, b, rest)
    | some (n, h') =>
      if want ≤ (available A want b.size b (rest++[n])).1
        then (h', swallow A want b (rest++[n]))
      else (h', b, rest++[n])
  else (h, b, rest)

def reallocLocked (h : Heap) (ptr want : ℕ) : Reply × Heap :=
  match findLive A ptr h.blocks with
  | none => refuse .einval h
  | some (pre, b, rest) =>
    let grown := if b.size < want then growInPlace A os h want b rest else (h, b, rest)
    if want ≤ grown.2.1.size then
      (⟨some ptr, none⟩,
        { grown.1 with blocks := coalesce A (pre++split A grown.2.1 want++grown.2.2) })
    else
      let h' := { grown.1 with blocks := pre++grown.2.1::grown.2.2 }
      match mallocLocked A os h' want with
      | none => refuse .enomem h'
      | some (np, h'') => (⟨some np, none⟩, freeLocked A h'' ptr)

def realloc (h : Heap) (ptr size : ℕ) : Reply × Heap :=
  if ptr = 0 then malloc A os h size
  else if size = 0 then (⟨none, none⟩, free A h ptr)
  else if sizeLimit < size then refuse .enomem h
  else
    let out := reallocLocked A os h ptr (alignUp A size)
    (out.1, heapRelease A out.2)

def reallocarray (h : Heap) (ptr nmemb size : ℕ) : Reply × Heap :=
  let total := A.mul nmemb size
  if size ≠ 0 ∧ total/size ≠ nmemb then refuse .enomem h else realloc A os h ptr total

/-- The first multiple of `align` from `p` on that is `p` itself or leaves room
for a header before it. -/
def alignedStart (align p : ℕ) : ℕ :=
  let a := A.sub (A.add p align) 1/align*align
  if a ≠ p ∧ A.sub a p < headerSize then A.add a align else a

def alignedFit (align want : ℕ) (b : Block) : Option ℕ :=
  let p := payload A b
  let a := alignedStart A align p
  if a < p ∨ b.size < A.sub a p ∨ A.sub b.size (A.sub a p) < want then none else some a

def carveAligned (want a : ℕ) (b : Block) : List Block :=
  if a = payload A b then use (split A b want)
  else
    let lead := A.sub a (payload A b)
    { b with size := A.sub lead headerSize }::
      use (split A (fresh (A.sub a headerSize) (A.sub b.size lead)) want)

def searchAligned (align want : ℕ) (blocks : List Block) : Option (List Block × ℕ) :=
  walk (fun b rest =>
    if b.free then (alignedFit A align want b).map (fun a => (carveAligned A want a b++rest, a))
    else none) blocks

def alignedLocked (h : Heap) (align want : ℕ) : Option ℕ × Heap :=
  match searchAligned A align want h.blocks with
  | some (blocks, a) => (some a, { h with blocks := blocks })
  | none =>
    match grow A os h (A.add (A.add want align) headerSize) with
    | none => (none, h)
    | some (_, h') =>
      match searchAligned A align want h'.blocks with
      | some (blocks, a) => (some a, { h' with blocks := blocks })
      | none => (none, h')

/-- Here `align` is already known to be a power of two. -/
def alignedAllocImpl (h : Heap) (align size : ℕ) : Reply × Heap :=
  if align ≤ alignment then malloc A os h size
  else if sizeLimit-headerSize < align ∨ sizeLimit-headerSize-align < size then refuse .enomem h
  else
    let out := alignedLocked A os h align (alignUp A (if size = 0 then 1 else size))
    match out.1 with
    | none => refuse .enomem (heapRelease A out.2)
    | some a => (⟨some a, none⟩, heapRelease A out.2)

def isPow2 (n : ℕ) : Bool := n ≠ 0 && n &&& (n-1) = 0

def alignedAlloc (h : Heap) (align size : ℕ) : Reply × Heap :=
  if isPow2 align then alignedAllocImpl A os h align size else refuse .einval h

def posixMemalign (h : Heap) (align size : ℕ) : Reply × Heap :=
  if !isPow2 align || align%8 ≠ 0 then refuse .einval h else alignedAllocImpl A os h align size

/-- Double `up` until it reaches `n`; sixty-four doublings reach every word. -/
def roundPow2 (n : ℕ) : ℕ → ℕ → ℕ
  | 0, up => up
  | k+1, up => if up < n then roundPow2 n k (A.mul up 2) else up

def memalign (h : Heap) (align size : ℕ) : Reply × Heap :=
  let align := if align = 0 then 1 else align
  if isPow2 align then alignedAllocImpl A os h align size
  else if 2^63 < align then refuse .einval h
  else alignedAllocImpl A os h (roundPow2 A align 64 1) size

end

/-- Arguments are machine words. The last two labels are calls from a signal
handler that interrupted the heap's own critical section. -/
inductive Call where
  | malloc (size : UInt64)
  | calloc (nmemb size : UInt64)
  | free (ptr : UInt64)
  | realloc (ptr size : UInt64)
  | reallocarray (ptr nmemb size : UInt64)
  | alignedAlloc (align size : UInt64)
  | posixMemalign (align size : UInt64)
  | memalign (align size : UInt64)
  | reenteredFree (ptr : UInt64)
  | reenteredAlloc

def perform (A : Arith) (os : HeapGrow) (h : Heap) : Call → Reply × Heap
  | .malloc size => malloc A os h size.toNat
  | .calloc nmemb size => calloc A os h nmemb.toNat size.toNat
  | .free ptr => (⟨none, none⟩, free A h ptr.toNat)
  | .realloc ptr size => realloc A os h ptr.toNat size.toNat
  | .reallocarray ptr nmemb size => reallocarray A os h ptr.toNat nmemb.toNat size.toNat
  | .alignedAlloc align size => alignedAlloc A os h align.toNat size.toNat
  | .posixMemalign align size => posixMemalign A os h align.toNat size.toNat
  | .memalign align size => memalign A os h align.toNat size.toNat
  | .reenteredFree ptr => (⟨none, none⟩, if ptr = 0 then h else deferFree h ptr.toNat)
  | .reenteredAlloc => refuse .enomem h

end MoQiOS.LibcHeap
