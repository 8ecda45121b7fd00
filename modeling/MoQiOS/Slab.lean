import MoQiOS.SlotTables

/-!
# The slab allocator

Each size class has a pool: pages cut into slots, a list of the free ones and
a count of those given out. Every processor keeps, for every class, a magazine
of at most eight slots that it alone touches, with interrupts off; the pool is
touched under its lock, by a batch that fills an empty magazine or drains a
full one. A header in front of the payload names the class, and for an
allocation of whole pages the number of pages. A free slot's first word is the
link of the free list, so it lies over the header.
-/

namespace MoQiOS.Slab
open SlotTables

def sizeClasses : List ℕ := [32,64,128,256,512,1024]

def numClasses : ℕ := 6

variable (size : ℕ)

def findPool : Option ℕ := sizeClasses.findIdx? (fun c => size ≤ c)

variable (k : ℕ)

/-- The header and the payload, rounded up to eight bytes. -/
def objectSize : ℕ := (8+sizeClasses.getD k 0+7)/8*8

def magSize : ℕ := 8

def refillBatch : ℕ := 4

def flushBatch : ℕ := 4

def largeAllocMarker : ℕ := 255

structure Header where
  poolIdx : ℕ
  pad : ℕ
deriving DecidableEq

structure Pool where
  freeList : List ℕ
  allocatedCount : ℕ

structure Mag where
  cls : ℕ
  slots : List ℕ

inductive Pc where
  | idle
  | refilling (k : ℕ)
  | popping (k : ℕ)
  | flushing (k a : ℕ)
  | pushing (k a : ℕ)
deriving DecidableEq

/-- `pages` lists the pages cut into slots with their class, `large` the first
page and the length of each whole-page allocation, `users` the live objects
with their class. -/
structure State where
  pools : List Pool
  mags : List Mag
  pcs : List Pc
  users : List (ℕ × ℕ)
  mem : ℕ → Header
  pages : List (ℕ × ℕ)
  large : List (ℕ × ℕ)

def State.init (cpus : ℕ) : State where
  pools := List.replicate numClasses ⟨[],0⟩
  mags := (List.range (cpus*numClasses)).map fun i => ⟨i%numClasses,[]⟩
  pcs := List.replicate cpus .idle
  users := []
  mem := fun _ => ⟨0,0⟩
  pages := []
  large := []

def Mag.pop (m : Mag) : Option (ℕ × Mag) :=
  match m.slots with
  | [] => none
  | a :: rest => some (a,{ m with slots := rest })

def Mag.push (m : Mag) (a : ℕ) : Option Mag :=
  if m.slots.length ≥ magSize then none else some { m with slots := a :: m.slots }

/-- The bytes of a link read as a header. -/
def linkHeader (next : Option ℕ) : Header := ⟨next.getD 0%256,next.getD 0/65536%65536⟩

def setHeader (mem : ℕ → Header) (a : ℕ) (h : Header) : ℕ → Header :=
  fun b => if b = a then h else mem b

/-- What a batch works on: a pool of class `k`, a magazine, the memory, the
pages cut so far and the pages the physical allocator will give. -/
structure Batch where
  pool : Pool
  mag : Mag
  mem : ℕ → Header
  pages : List (ℕ × ℕ)
  supply : List ℕ

def carve (page k : ℕ) : List ℕ :=
  (List.range (4096/objectSize k)).map fun i => page*4096+i*objectSize k

variable (b : Batch)

def pushNode (a : ℕ) : Batch :=
  { b with pool := { b.pool with freeList := a :: b.pool.freeList }
           mem := setHeader b.mem a (linkHeader b.pool.freeList.head?) }

def refillPoolLocked (b : Batch) : Batch :=
  match b.supply with
  | [] => b
  | page :: rest =>
    { (carve page k).foldl pushNode b with pages := (page,k) :: b.pages, supply := rest }

def popFree (b : Batch) : Option (ℕ × Batch) :=
  let b := if b.pool.freeList = [] then refillPoolLocked k b else b
  match b.pool.freeList with
  | [] => none
  | a :: rest => some (a,{ b with pool := ⟨rest,b.pool.allocatedCount+1⟩ })

def pushFree (a : ℕ) : Batch :=
  let b := pushNode b a
  { b with pool := { b.pool with allocatedCount := b.pool.allocatedCount-1 } }

def refillOne (b : Batch) : Batch :=
  if b.mag.slots.length ≥ magSize then b
  else match popFree k b with
    | none => b
    | some (a,b') => { b' with mag := { b'.mag with slots := a :: b'.mag.slots } }

def flushOne : Batch :=
  match b.mag.slots with
  | [] => b
  | a :: rest => pushFree { b with mag := { b.mag with slots := rest } } a

def refill (b : Batch) : Batch := (refillOne k)^[refillBatch] b

def flush : Batch := flushOne^[flushBatch] b

inductive Call where
  | kmalloc (cpu size : ℕ)
  | refill (cpu k : ℕ) (supply : List ℕ)
  | retry (cpu k : ℕ)
  | kfree (cpu a : ℕ)
  | flush (cpu k a : ℕ)
  | repush (cpu k a : ℕ)
  | allocLarge (size page : ℕ)

def magIndex (cpu k : ℕ) : ℕ := cpu*numClasses+k

variable (s : State)

def takeSlot (cpu k : ℕ) (empty : Pc) : State :=
  match s.mags[magIndex cpu k]? with
  | none => s
  | some m =>
    match m.pop with
    | none => { s with pcs := s.pcs.set cpu empty }
    | some (a,m') =>
      { s with
        mags := s.mags.set (magIndex cpu k) m'
        users := (k,a) :: s.users
        mem := setHeader s.mem a ⟨k,(s.mem a).pad⟩
        pcs := s.pcs.set cpu .idle }

def runBatch (cpu k : ℕ) (supply : List ℕ) (f : Batch → Batch) (next : Pc) : State :=
  match s.pools[k]?, s.mags[magIndex cpu k]? with
  | some p, some m =>
    let b := f ⟨p,m,s.mem,s.pages,supply⟩
    { s with
      pools := s.pools.set k b.pool
      mags := s.mags.set (magIndex cpu k) b.mag
      mem := b.mem
      pages := b.pages
      pcs := s.pcs.set cpu next }
  | _, _ => s

/-- A slot that does not fit waits with the processor; the second attempt
drops it if it still does not fit. -/
def giveSlot (cpu k a : ℕ) (full : Pc) : State :=
  match s.mags[magIndex cpu k]? with
  | none => s
  | some m =>
    match m.push a with
    | none => { s with pcs := s.pcs.set cpu full }
    | some m' => { s with mags := s.mags.set (magIndex cpu k) m', pcs := s.pcs.set cpu .idle }

def pagesNeeded : ℕ := (size+8+4096-1)/4096

def largeRun (l : ℕ × ℕ) : List ℕ := (List.range l.2).map (l.1+·)

def largePages (page : ℕ) : List ℕ :=
  let count := (s.mem (page*4096)).pad
  if count ≤ 1 then [page] else (List.range count).map (page+·)

def kfree (cpu a : ℕ) : State :=
  let k := (s.mem a).poolIdx
  if k = largeAllocMarker then
    { s with large := s.large.filter (fun l => largeRun l ≠ largePages s (a/4096)) }
  else if k ≥ numClasses then s
  else giveSlot { s with users := s.users.erase (k,a) } cpu k a (.flushing k a)

def allocLarge (size page : ℕ) : State :=
  if pagesNeeded size > 65535 then s
  else { s with mem := setHeader s.mem (page*4096) ⟨largeAllocMarker,pagesNeeded size⟩
                large := (page,pagesNeeded size) :: s.large }

def Call.step : Call → State
  | .kmalloc cpu size =>
    match findPool size with
    | none => s
    | some k => takeSlot s cpu k (.refilling k)
  | .refill cpu k supply => runBatch s cpu k supply (Slab.refill k) (.popping k)
  | .retry cpu k => takeSlot s cpu k .idle
  | .kfree cpu a => Slab.kfree s cpu a
  | .flush cpu k a => runBatch s cpu k [] Slab.flush (.pushing k a)
  | .repush cpu k a => giveSlot s cpu k a .idle
  | .allocLarge size page => Slab.allocLarge s size page

def State.taken : List ℕ := s.pages.map Prod.fst++s.large.flatMap largeRun

/-- A call starts on a processor that is in no other call and goes on where it
stands, a free names a live object, and the physical allocator gives pages
nobody holds. -/
def Call.ready : Call → Prop
  | .kmalloc cpu size => s.pcs[cpu]? = some .idle ∧ (findPool size).isSome
  | .refill cpu k supply =>
    s.pcs[cpu]? = some (.refilling k) ∧ supply.Nodup ∧ ∀ p ∈ supply, p ∉ s.taken
  | .retry cpu k => s.pcs[cpu]? = some (.popping k)
  | .kfree cpu a => s.pcs[cpu]? = some .idle ∧
      ((∃ u ∈ s.users, u.2 = a) ∨ ∃ l ∈ s.large, l.1*4096 = a)
  | .flush cpu k a => s.pcs[cpu]? = some (.flushing k a)
  | .repush cpu k a => s.pcs[cpu]? = some (.pushing k a)
  | .allocLarge size page => (findPool size).isNone ∧
      ∀ p ∈ largeRun (page,pagesNeeded size), p ∉ s.taken

end MoQiOS.Slab
