import MoQiOS.SlotTables

/-!
# The table of tracked mappings

An address space records its mappings in sixty-four region slots, an occupancy
bitmap with one bit a slot, kept here beside the slot it speaks about, and a
count. Tracking merges an anonymous range into a neighbour or takes a free
slot. Untracking, changing a protection and cutting a range out for a move
replace a region by pieces: the first stays in its slot and the others go to
free ones. A page has 4096 bytes and a huge block 512 pages.
-/

namespace MoQiOS.Vma

inductive FsKind where
  | none | ramdisk | tmpfs | ext2 | fat32
deriving DecidableEq

structure MmapRegion where
  base : ℕ := 0
  numPages : ℕ := 0
  active : Bool := false
  locked : Bool := false
  hugePages : ℕ := 0
  fileKind : FsKind := .none
  prot : ℕ := 0
  shared : Bool := false
  mayWrite : Bool := true
  fileOffset : ℕ := 0
  fileSize : ℕ := 0
  fileIdx : ℕ := 0
  fileData : ℕ := 0
  inodeId : ℕ := 0
  noFree : Bool := false
deriving DecidableEq

variable (r : MmapRegion)

def MmapRegion.fin : ℕ := r.base+r.numPages*4096

def MmapRegion.writablePrivate : Bool := r.prot.testBit 1 && !r.shared

structure Slot where
  region : MmapRegion := {}
  bit : Bool := false
deriving DecidableEq

@[irreducible] def maxRegions : ℕ := 64

@[irreducible] def userAddrMax : ℕ := 2^47

/-- The part of an address space that its region table and its two resource
ledgers make up, with the reference counts of the open file slots. -/
structure Mm where
  slots : List Slot
  count : ℕ
  asUsed : ℕ
  dataUsed : ℕ
  refCount : FsKind → ℕ → ℕ

def Mm.empty (refCount : FsKind → ℕ → ℕ) : Mm where
  slots := List.replicate maxRegions {}
  count := 0
  asUsed := 0
  dataUsed := 0
  refCount := refCount

variable (m : Mm)

def retainFile (kind : FsKind) (idx : ℕ) : Mm :=
  { m with refCount := fun k i => if k = kind ∧ i = idx then m.refCount k i+1 else m.refCount k i }

def closeFile (kind : FsKind) (idx : ℕ) : Mm :=
  { m with refCount := fun k i => if k = kind ∧ i = idx then m.refCount k i-1 else m.refCount k i }

def FsKind.counted : FsKind → Bool
  | .ext2 | .fat32 => true
  | _ => false

def freeSlot : Option ℕ := m.slots.findIdx? (fun s => !s.bit && !s.region.active)

def inactiveSlot : Option ℕ := m.slots.findIdx? (fun s => !s.region.active)

def Mm.put (i : ℕ) (r : MmapRegion) : Mm :=
  match m.slots[i]? with
  | none => m
  | some s => { m with slots := m.slots.set i { s with region := r } }

def Mm.fill (i : ℕ) (r : MmapRegion) : Mm :=
  { m with slots := m.slots.set i ⟨r,true⟩, count := m.count+1 }

/-- The slot of a region that is gone as a whole; `releaseRegionBacking` drops
its file reference. -/
def Mm.clear (i : ℕ) : Mm :=
  match m.slots[i]? with
  | none => m
  | some s =>
    let r := s.region
    let m := if r.fileKind.counted then closeFile m r.fileKind r.fileIdx else m
    { m with slots := m.slots.set i ⟨{ r with fileKind := .none, shared := false, active := false },false⟩
             count := m.count-1 }

variable (find : Mm → Option ℕ)

def insertPiece (retained : FsKind → Bool) (m : Mm) (p : MmapRegion) :
    Option Mm :=
  (find m).map fun i =>
    if retained p.fileKind then retainFile (m.fill i p) p.fileKind p.fileIdx else m.fill i p

/-- The pieces of the region in slot `i`: none frees the slot, the first stays
in it and each of the others takes a slot of its own. -/
def place (retained : FsKind → Bool) (m : Mm) (i : ℕ) :
    List MmapRegion → Option Mm
  | [] => some (m.clear i)
  | p :: ps => ps.foldlM (insertPiece find retained) (m.put i p)

def freeSlots : ℕ := m.slots.length-m.slots.countP (·.bit)

structure RegionFileMeta where
  kind : FsKind
  shared : Bool
  mayWrite : Bool := true
  prot : ℕ
  offset : ℕ
  size : ℕ
  idx : ℕ
  data : ℕ
  inode : ℕ
deriving DecidableEq

inductive MergeSide where
  | none | after | before
deriving DecidableEq

def anonMergeSide (base numPages prot : ℕ) (shared : Bool) : MergeSide :=
  if !r.active || r.hugePages != 0 || r.noFree || r.fileKind != .none then .none
  else if r.prot != prot || r.shared != shared then .none
  else if r.fin = base then .after
  else if base+numPages*4096 = r.base then .before
  else .none

def rangesOverlap (aBase aPages bBase bPages : ℕ) : Bool :=
  aBase < bBase+bPages*4096 && bBase < aBase+aPages*4096

def hasMmapOverlap (base numPages : ℕ) : Bool :=
  m.slots.any fun s => s.bit && rangesOverlap base numPages s.region.base s.region.numPages

def canTrackMmapRegion (base numPages : ℕ) (anonymous : Bool) (prot : ℕ) (shared : Bool) :
    Bool :=
  m.count < m.slots.length ||
    (anonymous && m.slots.any fun s => s.bit && anonMergeSide s.region base numPages prot shared != .none)

def piecesOutside (base fin : ℕ) (r : MmapRegion) : ℕ :=
  if r.base ≥ fin ∨ r.fin ≤ base then 1
  else (if r.base < base then 1 else 0)+(if r.fin > fin then 1 else 0)

def canTrackReplacement (base numPages : ℕ) : Bool :=
  ((m.slots.filter (·.bit)).map fun s => piecesOutside base (base+numPages*4096) s.region).sum+1
    ≤ m.slots.length

def merged (base numPages : ℕ) : MergeSide → MmapRegion
  | .before => { r with base := base, numPages := r.numPages+numPages }
  | _ => { r with numPages := r.numPages+numPages }

def newRegion (base numPages : ℕ) (md : Option RegionFileMeta) (prot : ℕ) (shared : Bool)
    (hugePages : ℕ) : MmapRegion :=
  match md with
  | none => { base := base, numPages := numPages, active := true, hugePages := hugePages,
              prot := prot, shared := shared }
  | some f => { base := base, numPages := numPages, active := true, hugePages := hugePages,
                prot := prot, shared := shared, fileKind := f.kind, mayWrite := f.mayWrite,
                fileOffset := f.offset, fileSize := f.size, fileIdx := f.idx, fileData := f.data,
                inodeId := f.inode }

def Mm.charge (pages : ℕ) (writablePrivate : Bool) : Mm :=
  { m with asUsed := m.asUsed+pages*4096
           dataUsed := if writablePrivate then m.dataUsed+pages*4096 else m.dataUsed }

def mergeSlot (base numPages prot : ℕ) (shared : Bool) : Option ℕ :=
  m.slots.findIdx? fun s => anonMergeSide s.region base numPages prot shared != .none

/-- No value means that neither a merge nor a free slot was found, which the
code takes to be unreachable. -/
def trackMmapRegion (base numPages : ℕ) (md : Option RegionFileMeta) (prot : ℕ)
    (shared : Bool) (hugePages : ℕ) : Option Mm :=
  let m := m.charge numPages (prot.testBit 1 && !shared)
  let target := if md.isNone && hugePages == 0 then mergeSlot m base numPages prot shared else none
  match target with
  | some i =>
    (m.slots[i]?).map fun s =>
      m.put i (merged s.region base numPages (anonMergeSide s.region base numPages prot shared))
  | none =>
    insertPiece freeSlot (fun _ => false) m (newRegion base numPages md prot shared hugePages)

def trackNoFreeRegion (base numPages : ℕ) : Option Mm :=
  insertPiece inactiveSlot (fun _ => false) (m.charge numPages false)
    { base := base, numPages := numPages, active := true, locked := true, noFree := true }

def advanceFileOffset (fileOffset deltaPages : ℕ) : ℕ := fileOffset+deltaPages*4096

def untrackPieces (base fin : ℕ) (r : MmapRegion) : List MmapRegion :=
  if r.base ≥ fin ∨ r.fin ≤ base then [r]
  else if base ≤ r.base ∧ fin ≥ r.fin then []
  else if base ≤ r.base ∧ fin < r.fin then
    let removed := (fin-r.base)/4096
    [{ r with
      base := fin
      numPages := r.numPages-removed
      hugePages := if removed%512 = 0 then r.hugePages-min r.hugePages (removed/512) else 0
      fileOffset := advanceFileOffset r.fileOffset removed }]
  else if base > r.base ∧ fin ≥ r.fin then
    let kept := (base-r.base)/4096
    [{ r with numPages := kept, hugePages := min r.hugePages (kept/512) }]
  else
    let kept := (base-r.base)/4096
    let off := (fin-r.base)/4096
    [{ r with numPages := kept, hugePages := min r.hugePages (kept/512) },
     { r with
      base := fin
      numPages := (r.fin-fin)/4096
      hugePages := if off%512 = 0 then r.hugePages-min r.hugePages (off/512) else 0
      fileOffset := advanceFileOffset r.fileOffset off }]

structure Untracking where
  mm : Mm
  refunded : ℕ
  dataRefunded : ℕ

def overlapPages (base fin : ℕ) (r : MmapRegion) : ℕ :=
  if r.base ≥ fin ∨ r.fin ≤ base then 0 else (min fin r.fin-max base r.base)/4096

/-- A tail piece that finds no free slot is dropped. -/
def untrackSlot (base fin : ℕ) (u : Untracking) (i : ℕ) : Untracking :=
  match u.mm.slots[i]? with
  | none => u
  | some s =>
    let r := s.region
    if !r.active then u
    else
      let pieces := untrackPieces base fin r
      { mm := (place freeSlot FsKind.counted u.mm i pieces).getD (u.mm.put i (pieces.headD r))
        refunded := u.refunded+overlapPages base fin r
        dataRefunded := u.dataRefunded+if r.writablePrivate then overlapPages base fin r else 0 }

def untrackMmapRange (base numPages : ℕ) : Mm :=
  let u := (List.range maxRegions).foldl (untrackSlot base (base+numPages*4096)) ⟨m,0,0⟩
  { u.mm with asUsed := u.mm.asUsed-u.refunded*4096
              dataUsed := u.mm.dataUsed-u.dataRefunded*4096 }

def needsSplitSlot (rBase rPages base numPages : ℕ) : Bool :=
  base > rBase && base+numPages*4096 < rBase+rPages*4096

def canUntrack (base numPages : ℕ) : Bool :=
  m.slots.countP (fun s => s.bit && needsSplitSlot s.region.base s.region.numPages base numPages)
    ≤ freeSlots m

inductive Overlap where
  | none | cover | head | tail | middle
deriving DecidableEq

structure ProtPlan where
  overlap : Overlap
  headPages : ℕ := 0
  midPages : ℕ := 0
  tailPages : ℕ := 0
  slotsNeeded : ℕ := 0
deriving DecidableEq

def planProtUpdate (rBase rPages base pages : ℕ) : ProtPlan :=
  let rEnd := rBase+rPages*4096
  let fin := base+pages*4096
  if rBase ≥ fin ∨ rEnd ≤ base then { overlap := .none }
  else if base ≤ rBase ∧ fin ≥ rEnd then { overlap := .cover, midPages := rPages }
  else if base ≤ rBase then
    let mid := (fin-rBase)/4096
    { overlap := .head, midPages := mid, tailPages := rPages-mid, slotsNeeded := 1 }
  else if fin ≥ rEnd then
    let head := (base-rBase)/4096
    { overlap := .tail, headPages := head, midPages := rPages-head, slotsNeeded := 1 }
  else
    let head := (base-rBase)/4096
    let mid := (fin-base)/4096
    { overlap := .middle, headPages := head, midPages := mid, tailPages := rPages-head-mid,
      slotsNeeded := 2 }

/-- A region cloned by `insertRegionPiece`, which does not copy the number of
huge blocks. -/
def clonedPiece (base numPages prot fileOffset : ℕ) : MmapRegion :=
  { r with base := base, numPages := numPages, prot := prot, fileOffset := fileOffset, hugePages := 0 }

def protectPieces (addr pages newProt : ℕ) (r : MmapRegion) : List MmapRegion :=
  if r.fileKind = .none then [r]
  else
    let plan := planProtUpdate r.base r.numPages addr pages
    match plan.overlap with
    | .none => [r]
    | .cover => [{ r with prot := newProt }]
    | .head =>
      [{ r with numPages := plan.midPages, prot := newProt },
       clonedPiece r (r.base+plan.midPages*4096) plan.tailPages r.prot
         (advanceFileOffset r.fileOffset plan.midPages)]
    | .tail =>
      [{ r with numPages := plan.headPages },
       clonedPiece r (r.base+plan.headPages*4096) plan.midPages newProt
         (advanceFileOffset r.fileOffset plan.headPages)]
    | .middle =>
      [{ r with numPages := plan.headPages },
       clonedPiece r (addr+plan.midPages*4096) plan.tailPages r.prot
         (advanceFileOffset r.fileOffset (plan.headPages+plan.midPages)),
       clonedPiece r addr plan.midPages newProt
         (advanceFileOffset r.fileOffset plan.headPages)]

def protectSlot (addr pages newProt : ℕ) (m : Mm) (i : ℕ) : Option Mm :=
  match m.slots[i]? with
  | none => some m
  | some s =>
    if !s.region.active then some m
    else place inactiveSlot (· == .ext2) m i (protectPieces addr pages newProt s.region)

/-- The metadata pass of `sysMprotect`; no value is `insertRegionPiece`
reaching its `unreachable`. -/
def protectRegions (addr pages newProt : ℕ) : Option Mm :=
  (List.range maxRegions).foldlM (protectSlot addr pages newProt) m

def protectSlotsNeeded (addr pages : ℕ) : ℕ :=
  ((m.slots.filter fun s => s.bit && s.region.fileKind != .none).map fun s =>
    (planProtUpdate s.region.base s.region.numPages addr pages).slotsNeeded).sum

structure Plan where
  headPages : ℕ
  midPages : ℕ
  tailPages : ℕ
  headHuge : ℕ
  midHuge : ℕ
  tailHuge : ℕ
deriving DecidableEq

variable (p : Plan)

def Plan.needed : Bool := p.headPages != 0 || p.tailPages != 0

def Plan.extraSlots : ℕ :=
  (if p.headPages ≠ 0 then 1 else 0)+(if p.tailPages ≠ 0 then 1 else 0)

def plan (regionBase regionPages regionHuge start pages : ℕ) : Option Plan :=
  if pages = 0 then none
  else if regionBase+regionPages ≥ 2^64 ∨ start+pages ≥ 2^64 then none
  else if start < regionBase ∨ start+pages > regionBase+regionPages then none
  else
    let head := start-regionBase
    some
      { headPages := head
        midPages := pages
        tailPages := regionBase+regionPages-(start+pages)
        headHuge := min regionHuge (head/512)
        midHuge := if head = 0 then min regionHuge (pages/512) else 0
        tailHuge := 0 }

def anonPiece (proto : MmapRegion) (base pages huge : ℕ) : MmapRegion :=
  { base := base, numPages := pages, active := true, locked := proto.locked, hugePages := huge,
    noFree := proto.noFree, shared := proto.shared, mayWrite := proto.mayWrite, prot := proto.prot }

def splitPieces (oldAddr : ℕ) (r : MmapRegion) : List MmapRegion :=
  let tail := if p.tailPages ≠ 0 then
    [anonPiece r (oldAddr+p.midPages*4096) p.tailPages p.tailHuge] else []
  if p.headPages ≠ 0 then
    { r with numPages := p.headPages, hugePages := p.headHuge } ::
      anonPiece r oldAddr p.midPages p.midHuge :: tail
  else
    { r with numPages := p.midPages, hugePages := p.midHuge } :: tail

def splitRegionForRange (idx : ℕ) (p : Plan) (oldAddr : ℕ) : Option Mm :=
  match m.slots[idx]? with
  | none => some m
  | some s => place freeSlot (fun _ => false) m idx (splitPieces p oldAddr s.region)

def canCoalesce (a b : MmapRegion) : Bool :=
  a.fileKind == .none && b.fileKind == .none && !a.noFree && !b.noFree && !a.locked && !b.locked &&
    a.hugePages == 0 && b.hugePages == 0 &&
    a.prot == b.prot && a.shared == b.shared && a.mayWrite == b.mayWrite

def mergeIfAdjacent (a b : ℕ) : Mm :=
  match m.slots[a]?, m.slots[b]? with
  | some sa, some sb =>
    if a = b || !sa.region.active || !sb.region.active then m
    else if sa.region.fin ≠ sb.region.base then m
    else if !canCoalesce sa.region sb.region then m
    else
      let m := m.put a { sa.region with numPages := sa.region.numPages+sb.region.numPages }
      { m with slots := m.slots.set b ⟨{ sb.region with active := false },false⟩, count := m.count-1 }
  | _, _ => m

end MoQiOS.Vma
