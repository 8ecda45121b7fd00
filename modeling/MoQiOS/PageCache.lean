import MoQiOS.Chains

/-!
# The page cache

Slots hold cached pages; hash chains, per-inode lists and the free list run
through link tables. A section under the cache lock is one step, and so is a
device write. A section has no result when one of its walks does not end. The
frames of the page allocator, reference counts and device outcomes come from
outside. `stored` is what was last put under a key; `version`, `newest` and
`device` number the writes and follow them to the device.
-/

namespace MoQiOS.PageCache
open Chains Function

def pageSize : ℕ := 4096
def cacheSlots : ℕ := 512
def maxPages : ℕ := 1024
def inodeListSlots : ℕ := 256

structure CacheKey where
  inodeId : UInt64
  pageOffset : UInt64
  deriving DecidableEq

/-- `data` is the frame that the data pointer of the slot addresses. -/
structure CachedPage where
  key : CacheKey
  phys : ℕ
  data : ℕ
  dirty : Bool
  referenced : Bool
  valid : Bool

abbrev Bytes := List UInt8

inductive FlushMode where
  | inode (inodeId : UInt64)
  | range (inodeId : UInt64) (first last : ℕ)
  | all
  deriving DecidableEq

structure Snapshot where
  slot : ℕ
  key : CacheKey
  tmp : Bytes
  version : ℕ

inductive Flusher where
  | idle
  | scanning (mode : FlushMode) (flushed : ℕ)
  | writing (mode : FlushMode) (flushed : ℕ) (snap : Snapshot)
  | completing (mode : FlushMode) (flushed : ℕ) (snap : Snapshot) (ok : Bool)

def Flusher.isIdle : Flusher → Bool
  | .idle => true
  | _ => false

structure FlushResult where
  flushed : ℕ
  failed : Bool

structure State where
  pages : ℕ → CachedPage
  pageCount : ℕ
  dirtyBm : ℕ → Bool
  hashBuckets : ℕ → Option ℕ
  inodeListHeads : ℕ → Option ℕ
  hashNext : ℕ → Option ℕ
  inodeNext : ℕ → Option ℕ
  lruNext : ℕ → Option ℕ
  clockHand : ℕ
  freeHead : Option ℕ
  memory : ℕ → Bytes
  flushers : ℕ → Flusher
  results : ℕ → FlushResult
  stored : CacheKey → Bytes
  version : ℕ → ℕ
  writes : ℕ
  newest : CacheKey → Option (ℕ×Bytes)
  device : CacheKey → Option (ℕ×Bytes)

structure Env where
  allocPage : Option ℕ
  refCount : ℕ → ℕ
  deviceOk : Bool

def hashKey (key : CacheKey) : ℕ :=
  let h := key.inodeId
  let h := h ^^^ (key.pageOffset*0x9E3779B97F4A7C15)
  let h := h ^^^ (h >>> 33)
  let h := h*0xFF51AFD7ED558CCD
  let h := h ^^^ (h >>> 33)
  let h := h*0xC4CEB9FE1A85EC53
  let h := h ^^^ (h >>> 33)
  h.toNat%cacheSlots

def inodeListSlot (inodeId : UInt64) : ℕ := inodeId.toNat%inodeListSlots

variable (s : State)

def State.setPage (i : ℕ) (p : CachedPage) : State :=
  { s with pages := update s.pages i p }

def State.dirtySet (i : ℕ) : State := { s with dirtyBm := update s.dirtyBm i true }

def State.dirtyClr (i : ℕ) : State := { s with dirtyBm := update s.dirtyBm i false }

def holds (key : CacheKey) (i : ℕ) : Bool :=
  (s.pages i).valid && decide ((s.pages i).key = key)

def find (key : CacheKey) : Option (Option ℕ) :=
  search s.hashNext (holds s key) maxPages (s.hashBuckets (hashKey key))

def touch (i : ℕ) : State := s.setPage i { s.pages i with referenced := true }

def lookup {β : Type} (key : CacheKey) (hit : CachedPage → β) : Option (State×Option β) :=
  match find s key with
  | none => none
  | some none => some (s,none)
  | some (some i) => some (touch s i,some (hit (s.pages i)))

def readPage (key : CacheKey) : Option (State×Option ℕ) :=
  lookup s key (fun p => p.data)

def copyPage (key : CacheKey) (pageOff len : ℕ) : Option (State×Option Bytes) :=
  lookup s key (fun p => ((s.memory p.data).drop pageOff).take len)

def getPageFrame (key : CacheKey) : Option (State×Option ℕ) :=
  lookup s key (fun p => p.phys)

def getPageFramePinned (key : CacheKey) : Option (State×Option ℕ) :=
  lookup s key (fun p => p.phys)

def isCached (key : CacheKey) : Option Bool := (find s key).map Option.isSome

def inodeListInsert (slot : ℕ) : State :=
  let ls := inodeListSlot (s.pages slot).key.inodeId
  { s with
    inodeNext := update s.inodeNext slot (s.inodeListHeads ls)
    inodeListHeads := update s.inodeListHeads ls (some slot) }

def inodeListRemove (slot : ℕ) : Option State :=
  let ls := inodeListSlot (s.pages slot).key.inodeId
  match unlink s.inodeNext slot maxPages (s.inodeListHeads ls) with
  | none => none
  | some none => some s
  | some (some (next,head)) => some { s with
      inodeNext := update next slot none
      inodeListHeads := update s.inodeListHeads ls head }

def hashRemove (slot : ℕ) : Option State :=
  let bucket := hashKey (s.pages slot).key
  match unlink s.hashNext slot maxPages (s.hashBuckets bucket) with
  | none => none
  | some none => some s
  | some (some (next,head)) => some { s with
      hashNext := next
      hashBuckets := update s.hashBuckets bucket head }

/-- What both removals have in common: the slot leaves its chains and is no
longer valid. -/
def detach (slot : ℕ) : Option State :=
  match hashRemove s slot with
  | none => none
  | some s =>
    match inodeListRemove s slot with
    | none => none
    | some s => some
        { (s.setPage slot { s.pages slot with valid := false, dirty := false }).dirtyClr slot with
          hashNext := update s.hashNext slot none
          pageCount := s.pageCount-1 }

def removePageKeepPhys (slot : ℕ) : Option State :=
  if !(s.pages slot).valid then some s else detach s slot

def removePage (slot : ℕ) : Option State :=
  if !(s.pages slot).valid then some s
  else
    match detach s slot with
    | none => none
    | some s => some { s.setPage slot { s.pages slot with phys := 0 } with
        lruNext := update s.lruNext slot s.freeHead
        freeHead := some slot }

/-- The clock. No slot means that every attempt was used up. -/
def clockScan (refCount : ℕ → ℕ) : ℕ → State → State×Option ℕ
  | 0, s => (s,none)
  | attempts+1, s =>
    let i := if maxPages ≤ s.clockHand then 0 else s.clockHand
    let s := { s with clockHand := i+1 }
    if !(s.pages i).valid then clockScan refCount attempts s
    else if (s.pages i).referenced then
      clockScan refCount attempts (s.setPage i { s.pages i with referenced := false })
    else if s.dirtyBm i then clockScan refCount attempts s
    else if 1 < refCount (s.pages i).phys then clockScan refCount attempts s
    else (s,some i)

def takeFree (slot phys : ℕ) : State :=
  { s.setPage slot { s.pages slot with phys := phys, data := phys } with freeHead := s.lruNext slot }

variable (env : Env)

def allocSlot (s : State) : Option (State×Option ℕ) :=
  match s.freeHead with
  | some slot =>
    match env.allocPage with
    | none => some (s,none)
    | some phys => some (takeFree s slot phys,some slot)
  | none =>
    match clockScan env.refCount (maxPages*2) s with
    | (s,none) => some (s,none)
    | (s,some i) =>
      match removePageKeepPhys s i with
      | none => none
      | some s => some (s,some i)

def allocSlotOwned (s : State) (phys : ℕ) : Option (State×Option ℕ) :=
  match s.freeHead with
  | some slot => some (takeFree s slot phys,some slot)
  | none =>
    match clockScan env.refCount (maxPages*2) s with
    | (s,none) => some (s,none)
    | (s,some i) =>
      match removePageKeepPhys s i with
      | none => none
      | some s => some (s.setPage i { s.pages i with phys := phys, data := phys },some i)

def install (slot : ℕ) (key : CacheKey) (dirty : Bool) : State :=
  let bucket := hashKey key
  let s := s.setPage slot { s.pages slot with key := key, valid := true, dirty := dirty, referenced := true }
  let s := { s with
    hashNext := update s.hashNext slot (s.hashBuckets bucket)
    hashBuckets := update s.hashBuckets bucket (some slot) }
  let s := inodeListInsert s slot
  { s with pageCount := s.pageCount+1 }

def store (slot : ℕ) (key : CacheKey) (bytes : Bytes) : State :=
  { s with
    memory := update s.memory (s.pages slot).data bytes
    stored := update s.stored key bytes }

def number (slot : ℕ) (key : CacheKey) (bytes : Bytes) : State :=
  { s with
    version := update s.version slot (s.writes+1)
    writes := s.writes+1
    newest := update s.newest key (some (s.writes+1,bytes)) }

def fill (bytes : Bytes) (dataLen : ℕ) : Bytes :=
  bytes.take dataLen++List.replicate (pageSize-dataLen) 0

def overwrite (i : ℕ) (key : CacheKey) (src : Bytes) : State :=
  let s := number (store s i key src) i key src
  (s.setPage i { s.pages i with dirty := true, referenced := true }).dirtySet i

def writePage (s : State) (key : CacheKey) (src : Bytes) : Option (State×Option ℕ) :=
  match find s key with
  | none => none
  | some (some i) => some (overwrite s i key src,some (s.pages i).data)
  | some none =>
    match allocSlot env s with
    | none => none
    | some (s,none) => some (s,none)
    | some (s,some slot) =>
      let s := number (store s slot key src) slot key src
      some ((install s slot key true).dirtySet slot,some (s.pages slot).data)

def updateIfCached (key : CacheKey) (src : Bytes) : Option (State×Bool) :=
  match find s key with
  | none => none
  | some (some i) => some (overwrite s i key src,true)
  | some none => some (s,false)

def insertClean (slot : ℕ) (key : CacheKey) (bytes : Bytes) : State :=
  install { store s slot key bytes with version := update s.version slot 0 } slot key false

/-- The inserts: a key that is cached is left as it is, otherwise a clean page
goes into the slot that the allocation gives. -/
def insertWith {β : Type} (key : CacheKey) (alloc : Option (State×Option ℕ))
    (bytes : State → Bytes) (existing : CachedPage → β) (full : β) (inserted : CachedPage → β) :
    Option (State×β) :=
  match find s key with
  | none => none
  | some (some i) => some (touch s i,existing (s.pages i))
  | some none =>
    match alloc with
    | none => none
    | some (s,none) => some (s,full)
    | some (s,some slot) => some (insertClean s slot key (bytes s),inserted (s.pages slot))

def insertPage (s : State) (key : CacheKey) (data : Bytes) (dataLen : ℕ) :
    Option (State×Option ℕ) :=
  insertWith s key (allocSlot env s) (fun _ => fill data dataLen) (fun p => some p.data) none
    (fun p => some p.data)

def insertPageOwned (s : State) (key : CacheKey) (phys dataLen : ℕ) :
    Option (State×Option ℕ) :=
  insertWith s key (allocSlotOwned env s phys) (fun s => fill (s.memory phys) dataLen)
    (fun _ => none) none (fun p => some p.data)

inductive OwnedInsertResult where
  | full
  | inserted (phys : ℕ)
  | existing (phys : ℕ)

def insertPageOwnedOrGet (s : State) (key : CacheKey) (phys dataLen : ℕ) :
    Option (State×OwnedInsertResult) :=
  insertWith s key (allocSlotOwned env s phys) (fun s => fill (s.memory phys) dataLen)
    (fun p => .existing p.phys) .full (fun _ => .inserted phys)

def markDirty (key : CacheKey) : Option State :=
  match find s key with
  | none => none
  | some none => some s
  | some (some i) => some ((s.setPage i { s.pages i with dirty := true }).dirtySet i)

def invalidateLoop (inodeId : UInt64) : ℕ → Option ℕ → State → Option State
  | _, none, s => some s
  | 0, some _, _ => none
  | fuel+1, some i, s =>
    let next := s.inodeNext i
    if (s.pages i).valid && decide ((s.pages i).key.inodeId = inodeId) then
      match removePage s i with
      | none => none
      | some s => invalidateLoop inodeId fuel next s
    else invalidateLoop inodeId fuel next s

def invalidateInode (inodeId : UInt64) : Option State :=
  invalidateLoop inodeId maxPages (s.inodeListHeads (inodeListSlot inodeId)) s

def invalidatePage (key : CacheKey) : Option State :=
  match find s key with
  | none => none
  | some none => some s
  | some (some i) => if !(s.pages i).dirty then removePage s i else some s

def select : FlushMode → Option (Option ℕ)
  | .inode inodeId =>
    search s.inodeNext (fun i => (s.pages i).valid && (s.pages i).dirty &&
      decide ((s.pages i).key.inodeId = inodeId)) maxPages (s.inodeListHeads (inodeListSlot inodeId))
  | .range inodeId first last =>
    search s.inodeNext (fun i => (s.pages i).valid && (s.pages i).dirty &&
      decide ((s.pages i).key.inodeId = inodeId) &&
      decide (first ≤ (s.pages i).key.pageOffset.toNat%2^63) &&
      decide ((s.pages i).key.pageOffset.toNat%2^63 ≤ last)) maxPages
      (s.inodeListHeads (inodeListSlot inodeId))
  | .all => some ((List.range maxPages).find? (fun i =>
      s.dirtyBm i && (s.pages i).valid && (s.pages i).dirty))

def State.setFlusher (f : ℕ) (x : Flusher) : State :=
  { s with flushers := update s.flushers f x }

def State.endFlush (f : ℕ) (r : FlushResult) : State :=
  { s.setFlusher f .idle with results := update s.results f r }

def takeSnapshot (f : ℕ) (mode : FlushMode) (flushed i : ℕ) : State :=
  let snap : Snapshot := ⟨i,(s.pages i).key,s.memory (s.pages i).data,s.version i⟩
  let s := (s.setPage i { s.pages i with dirty := false, referenced := true }).dirtyClr i
  s.setFlusher f (.writing mode flushed snap)

/-- A failed flush restores the dirty bit if the slot still holds the page. -/
def restore (snap : Snapshot) : State :=
  if holds s snap.key snap.slot then
    (s.setPage snap.slot { s.pages snap.slot with dirty := true }).dirtySet snap.slot
  else s

def flushStep (s : State) (f : ℕ) : Option State :=
  match s.flushers f with
  | .idle => some s
  | .scanning mode flushed =>
    match select s mode with
    | none => none
    | some none => some (s.endFlush f ⟨flushed,false⟩)
    | some (some i) => some (takeSnapshot s f mode flushed i)
  | .writing mode flushed snap =>
    let s := if env.deviceOk then
        { s with device := update s.device snap.key (some (snap.version,snap.tmp)) }
      else s
    some (s.setFlusher f (.completing mode flushed snap env.deviceOk))
  | .completing mode flushed _ true => some (s.setFlusher f (.scanning mode (flushed+1)))
  | .completing _ flushed snap false => some ((restore s snap).endFlush f ⟨flushed,true⟩)

def flushInode (f : ℕ) (inodeId : UInt64) : State :=
  s.setFlusher f (.scanning (.inode inodeId) 0)

def flushInodeRange (f : ℕ) (inodeId : UInt64) (first count : ℕ) : State :=
  if count = 0 then s.endFlush f ⟨0,false⟩
  else s.setFlusher f (.scanning (.range inodeId first (first+count-1)) 0)

def flushAll (f : ℕ) : State := s.setFlusher f (.scanning .all 0)

inductive Op where
  | readPage (key : CacheKey)
  | copyPage (key : CacheKey) (pageOff len : ℕ)
  | getPageFrame (key : CacheKey)
  | getPageFramePinned (key : CacheKey)
  | writePage (key : CacheKey) (src : Bytes)
  | updateIfCached (key : CacheKey) (src : Bytes)
  | insertPage (key : CacheKey) (data : Bytes) (dataLen : ℕ)
  | insertPageOwned (key : CacheKey) (phys dataLen : ℕ)
  | insertPageOwnedOrGet (key : CacheKey) (phys dataLen : ℕ)
  | markDirty (key : CacheKey)
  | invalidateInode (inodeId : UInt64)
  | invalidatePage (key : CacheKey)
  | flushInode (f : ℕ) (inodeId : UInt64)
  | flushInodeRange (f : ℕ) (inodeId : UInt64) (first count : ℕ)
  | flushAll (f : ℕ)
  | flushStep (f : ℕ)

def step (s : State) : Op → Option State
  | .readPage key => (readPage s key).map Prod.fst
  | .copyPage key pageOff len => (copyPage s key pageOff len).map Prod.fst
  | .getPageFrame key => (getPageFrame s key).map Prod.fst
  | .getPageFramePinned key => (getPageFramePinned s key).map Prod.fst
  | .writePage key src => (writePage env s key src).map Prod.fst
  | .updateIfCached key src => (updateIfCached s key src).map Prod.fst
  | .insertPage key data dataLen => (insertPage env s key data dataLen).map Prod.fst
  | .insertPageOwned key phys dataLen => (insertPageOwned env s key phys dataLen).map Prod.fst
  | .insertPageOwnedOrGet key phys dataLen =>
    (insertPageOwnedOrGet env s key phys dataLen).map Prod.fst
  | .markDirty key => markDirty s key
  | .invalidateInode inodeId => invalidateInode s inodeId
  | .invalidatePage key => invalidatePage s key
  | .flushInode f inodeId => some (flushInode s f inodeId)
  | .flushInodeRange f inodeId first count => some (flushInodeRange s f inodeId first count)
  | .flushAll f => some (flushAll s f)
  | .flushStep f => flushStep env s f

def FreeFrame (phys : ℕ) : Prop :=
  ∀ i, i < maxPages → (s.pages i).valid = true → (s.pages i).phys ≠ phys

/-- The allocator and the callers hand over frames that the cache does not
hold, and a flusher starts only when it is idle. -/
def Ready (s : State) : Op → Prop
  | .writePage _ _ => ∀ phys, env.allocPage = some phys → FreeFrame s phys
  | .insertPage _ _ dataLen =>
    dataLen ≤ pageSize ∧ ∀ phys, env.allocPage = some phys → FreeFrame s phys
  | .insertPageOwned _ phys dataLen | .insertPageOwnedOrGet _ phys dataLen =>
    dataLen ≤ pageSize ∧ FreeFrame s phys
  | .copyPage _ pageOff len => pageOff+len ≤ pageSize
  | .flushInode f _ | .flushAll f => (s.flushers f).isIdle = true
  | .flushInodeRange f _ first count => (s.flushers f).isIdle = true ∧ first+count < 2^64
  | _ => True

/-- `init`. -/
def start (memory : ℕ → Bytes) : State where
  pages := fun _ => ⟨⟨0,0⟩,0,0,false,true,false⟩
  pageCount := 0
  dirtyBm := fun _ => false
  hashBuckets := fun _ => none
  inodeListHeads := fun _ => none
  hashNext := fun _ => none
  inodeNext := fun _ => none
  lruNext := fun i => if i+1 < maxPages then some (i+1) else none
  clockHand := 0
  freeHead := some 0
  memory := memory
  flushers := fun _ => .idle
  results := fun _ => ⟨0,false⟩
  stored := fun _ => []
  version := fun _ => 0
  writes := 0
  newest := fun _ => none
  device := fun _ => none

end MoQiOS.PageCache
