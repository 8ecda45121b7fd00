import MoQiOS.Fat32Disk
import MoQiOS.Chains

/-!
# The FAT32 driver

The file table, the allocator and the calls on files. The root directory is
kept as the first clusters of its live short entries; long names, time stamps
and the name cache do not reach the clusters and are left out. A call gives no
result when it traps on an overflow or walks round a closed chain.
-/

namespace MoQiOS.Fat32

open ByteImages Function

def maxFiles : ℕ := 64
def maxFilename : ℕ := 256
/-- Bound on the walks that are guarded against closed chains. -/
@[irreducible] def safetyLimit : ℕ := 65536

structure FileInfo where
  name : List UInt8
  size : ℕ
  firstCluster : ℕ
  lastCluster : ℕ
  lastWalkCluster : ℕ
  lastWalkIdx : ℕ
  isDir : Bool
  active : Bool
  refCount : ℕ
  unlinkPending : Bool

def freeSlot : FileInfo := ⟨[],0,0,0,0,0,false,false,0,false⟩

/-- A cached page is filed under the first cluster of its file and the cluster
it holds. -/
structure State where
  disk : Disk
  files : ℕ → FileInfo
  fileCount : ℕ
  dir : List ℕ
  lastFreeCluster : ℕ
  cache : ℕ → ℕ → Option (ℕ → UInt8)

def State.setFile (s : State) (i : ℕ) (fi : FileInfo) : State :=
  { s with files := update s.files i fi }

def invalidateInode (s : State) (firstCluster : ℕ) : State :=
  { s with cache := update s.cache firstCluster fun _ => none }

section
variable (g : Geometry)

def scanFree (d : Disk) : ℕ → ℕ → Option ℕ
  | 0, _ => none
  | n+1, c =>
    let c := if maxCluster g ≤ c then 2 else c
    match getFATEntry g d c with
    | none => none
    | some e => if e = 0 then some c else scanFree d n (c+1)

def allocCluster (s : State) : Option (ℕ×State) :=
  (scanFree g s.disk (maxCluster g) s.lastFreeCluster).map fun c =>
    (c,{ s with disk := setFATEntry g s.disk c endMark, lastFreeCluster := c+1 })

def allocZeroed (s : State) : Option (ℕ×State) :=
  (allocCluster g s).map fun (c,s) => (c,{ s with disk := zeroCluster g s.disk c })

def release (s : State) (c : ℕ) : State := { s with disk := setFATEntry g s.disk c 0 }

/-- The last cluster of a chain. No answer at all means that the walk does not end. -/
def findLast (d : Disk) : ℕ → ℕ → ℕ → Option (Option ℕ)
  | 0, c, last => if IsData c then none else some (some last)
  | n+1, c, last =>
    if IsData c then
      match getFATEntry g d c with
      | none => some none
      | some e => findLast d n e c
    else some (some last)

def forward (d : Disk) : ℕ → ℕ → ℕ → Option (ℕ×ℕ)
  | 0, c, ci => some (c,ci)
  | n+1, c, ci =>
    if IsData c then
      match getFATEntry g d c with
      | none => none
      | some e => forward d n e (ci+1)
    else some (c,ci)

/-- Where a walk to the given index starts: at the place the last one came to,
if that is not behind it. -/
def resume (fi : FileInfo) (start : ℕ) : ℕ×ℕ :=
  if IsData fi.lastWalkCluster ∧ fi.lastWalkIdx ≤ start then (fi.lastWalkCluster,fi.lastWalkIdx)
  else (fi.firstCluster,0)

def noteWalk (s : State) (i c ci : ℕ) : State :=
  if IsData c then s.setFile i { s.files i with lastWalkCluster := c, lastWalkIdx := ci } else s

/-- The shared shape of the loops that run down a chain and check or free it. -/
def sweepChain (ok : ℕ → ℕ → Bool) (visit : Disk → ℕ → Disk) : ℕ → ℕ → Disk → Bool×Disk
  | 0, _, d => (false,d)
  | n+1, c, d =>
    if IsData c then
      match getFATEntry g d c with
      | none => (false,d)
      | some e => if ok c e then sweepChain ok visit n e (visit d c) else (false,d)
    else (true,d)

def linkOk (c e : ℕ) : Bool :=
  let limit := g.totalDataClusters+2
  decide (c < limit) && !(decide (e ≠ 0) && (decide (e < 2) || (decide (limit ≤ e) && decide (e < endOfChain))))

def validateChain (d : Disk) (c : ℕ) : Bool :=
  (sweepChain g (linkOk g) (fun d _ => d) safetyLimit c d).1

def freeChain (d : Disk) (c : ℕ) : Bool×Disk :=
  sweepChain g (linkOk g) (fun d c => setFATEntry g d c 0) safetyLimit c d

def freeTail (d : Disk) (c : ℕ) : Bool×Disk :=
  sweepChain g (fun _ _ => true) (fun d c => setFATEntry g d c 0) safetyLimit c d

def updateDirEntry (s : State) (i : ℕ) : Bool :=
  decide (i < s.fileCount) && decide ((s.files i).firstCluster ∈ s.dir)

def rootLast (d : Disk) : ℕ → ℕ → ℕ → Option ℕ
  | 0, _, last => some last
  | n+1, c, last =>
    if IsData c then
      match getFATEntry g d c with
      | none => none
      | some e => rootLast d n e c
    else some last

def growRootDir (s : State) : Bool×State :=
  match rootLast g s.disk safetyLimit g.rootCluster g.rootCluster with
  | none => (false,s)
  | some last =>
    match allocZeroed g s with
    | none => (false,s)
    | some (nc,s) => (true,{ s with disk := setFATEntry g s.disk last nc })

def isRootName (name : List UInt8) : Bool := !name.isEmpty && !name.tail.contains 47

/-- What creating a name meets in the directory: whether a short name is left,
and whether there is room before and after the directory has grown. -/
structure Placing where
  shortName : Bool
  room : Bool
  roomAfterGrow : Bool

def placeEntry (p : Placing) (s : State) : Bool×State :=
  if p.room then (true,s)
  else
    let r := growRootDir g s
    (r.1 && p.roomAfterGrow,r.2)

def createFile (s : State) (name : List UInt8) (p : Placing) : ℤ×State :=
  if !isRootName name || decide (maxFilename ≤ name.length) then (-1,s)
  else
    match (List.range s.fileCount).find?
      (fun i => (s.files i).active && decide ((s.files i).name = name) && !(s.files i).unlinkPending) with
    | some i => (i,s)
    | none =>
      let slot := (List.range s.fileCount).find? fun i => !(s.files i).active
      if slot = none ∧ maxFiles ≤ s.fileCount then (-1,s)
      else
        match allocZeroed g s with
        | none => (-1,s)
        | some (nc,s) =>
          if !p.shortName then (-1,release g s nc)
          else
            match placeEntry g p s with
            | (false,s) => (-1,release g s nc)
            | (true,s) =>
              let idx := slot.getD s.fileCount
              let s := s.setFile idx
                ⟨name,0,nc,nc,0,0,false,true,0,false⟩
              (idx,{ s with dir := nc :: s.dir,
                            fileCount := if idx = s.fileCount then s.fileCount+1 else s.fileCount })

def ownedClusters (size clusterSize : ℕ) (hasFirst : Bool) : ℕ :=
  if clusterSize = 0 then 0
  else
    let bySize := (size+clusterSize-1)/clusterSize
    if bySize = 0 ∧ hasFirst then 1 else bySize

def lastCluster (d : Disk) (fi : FileInfo) : Option (Option ℕ) :=
  if IsData fi.lastCluster then some (some fi.lastCluster)
  else findLast g d (maxCluster g) fi.firstCluster fi.firstCluster

def extendRound (s : State) (i : ℕ) : Option (Bool×State) :=
  if IsData (s.files i).firstCluster then
    match lastCluster g s.disk (s.files i) with
    | none => none
    | some none => some (false,s)
    | some (some last) =>
      match allocZeroed g s with
      | none => some (false,s)
      | some (nc,s) =>
        some (true,State.setFile { s with disk := setFATEntry g s.disk last nc } i
          { s.files i with lastCluster := nc })
  else
    match allocZeroed g s with
    | none => some (false,s)
    | some (nc,s) =>
      some (true,s.setFile i { s.files i with firstCluster := nc, lastCluster := nc })

def extendFile (i : ℕ) : ℕ → State → Option (Bool×State)
  | 0, s => some (true,s)
  | n+1, s =>
    match extendRound g s i with
    | none => none
    | some (false,s) => some (false,s)
    | some (true,s) => extendFile i n s

def writeSector (lba overlapStart overlapEnd : ℕ) (buf : List UInt8) (r : Disk×ℕ) (sec : ℕ) : Disk×ℕ :=
  let secStart := sec*sectorSize
  let secEnd := secStart+sectorSize
  if secEnd ≤ overlapStart ∨ overlapEnd ≤ secStart then r
  else
    let modStart := overlapStart-secStart
    let modEnd := if overlapEnd < secEnd then overlapEnd-secStart else sectorSize
    let data := (buf.drop r.2).take (modEnd-modStart)
    let wbuf := if modStart = 0 ∧ modEnd = sectorSize then data
      else splice (readSectors r.1 (lba+sec) 1) modStart data
    (writeSectors r.1 (lba+sec) wbuf,r.2+(modEnd-modStart))

def writeCluster (d : Disk) (lba overlapStart overlapEnd : ℕ) (buf : List UInt8) (written : ℕ) : Disk×ℕ :=
  let data := (buf.drop written).take (overlapEnd-overlapStart)
  if overlapStart = 0 ∧ overlapEnd = g.clusterSize ∧ g.sectorsPerCluster ≤ 8 then
    (writeSectors d lba data,written+g.clusterSize)
  else if g.sectorsPerCluster ≤ 8 then
    (writeSectors d lba (splice (readSectors d lba g.sectorsPerCluster) overlapStart data),
      written+(overlapEnd-overlapStart))
  else (List.range g.sectorsPerCluster).foldl (writeSector lba overlapStart overlapEnd buf) (d,written)

/-- Every round writes at least a byte, so there are at most as many as bytes. The
offset of the cluster in the file moves with its index. -/
def writeLoop (i offset : ℕ) (buf : List UInt8) : ℕ → State → ℕ → ℕ → ℕ → State×ℕ
  | 0, s, _, _, written => (s,written)
  | n+1, s, c, ci, written =>
    if written < buf.length ∧ IsData c then
      let fileOffset := ci*g.clusterSize
      let r :=
        if offset < fileOffset+g.clusterSize ∧ fileOffset < offset+buf.length then
          writeCluster g s.disk (clusterToLBA g c) (offset-fileOffset)
            (if offset+buf.length < fileOffset+g.clusterSize then offset+buf.length-fileOffset
              else g.clusterSize) buf written
        else (s.disk,written)
      let s := { s with disk := r.1 }
      match getFATEntry g s.disk c with
      | none => (s,r.2)
      | some e => writeLoop i offset buf n (noteWalk s i e (ci+1)) e (ci+1) r.2
    else (s,written)

def finishWrite (i offset written : ℕ) (s : State) : ℤ×State :=
  let fi := s.files i
  let s := if fi.size < offset+written then s.setFile i { fi with size := offset+written } else s
  if fi.size < offset+written ∧ updateDirEntry s i = false then (-1,s)
  else (written,if 0 < written then invalidateInode s fi.firstCluster else s)

def writeFile (s : State) (i offset : ℕ) (buf : List UInt8) : Option (ℤ×State) :=
  if s.fileCount ≤ i ∨ (s.files i).active = false then some (-1,s)
  else if 2^32 ≤ offset+buf.length+g.clusterSize ∨ 2^32 ≤ (s.files i).size+g.clusterSize then none
  else
    let needed := max 1 ((offset+buf.length+g.clusterSize-1)/g.clusterSize)
    let current := ownedClusters (s.files i).size g.clusterSize (IsData (s.files i).firstCluster)
    match extendFile g i (needed-current) s with
    | none => none
    | some (false,s) => some (-1,s)
    | some (true,s) =>
      let from_ := resume (s.files i) (offset/g.clusterSize)
      match forward g s.disk (offset/g.clusterSize-from_.2) from_.1 from_.2 with
      | none => some (-1,s)
      | some (c,ci) =>
        let r := writeLoop g i offset buf buf.length (noteWalk s i c ci) c ci 0
        some (finishWrite i offset r.2 r.1)

/-- The bytes one round copies, and the cache after it. `keep` tells which pages
are in the cache after an insertion. -/
def fetch (s : State) (firstCluster c cur toRead total : ℕ) (keep : ℕ → ℕ → Bool) : List UInt8×State :=
  let clip := fun avail => if toRead < total+avail then toRead-total else avail
  match s.cache firstCluster c with
  | some page => (window page cur (clip (g.clusterSize-cur)),s)
  | none =>
    let lba := clusterToLBA g c
    if g.sectorsPerCluster ≤ 8 then
      let tmp := readSectors s.disk lba g.sectorsPerCluster
      let filled := update s.cache firstCluster
        (update (s.cache firstCluster) c (some fun k => (tmp[k]?).getD 0))
      ((tmp.drop cur).take (clip (g.clusterSize-cur)),
        { s with cache := fun f c => if keep f c then filled f c else none })
    else
      let sectors := min (g.sectorsPerCluster-cur/sectorSize) 8
      let avail := min (g.clusterSize-cur) (sectors*sectorSize-cur%sectorSize)
      (((readSectors s.disk (lba+cur/sectorSize) sectors).drop (cur%sectorSize)).take (clip avail),s)

def readLoop (firstCluster toRead : ℕ) (keep : ℕ → ℕ → ℕ → Bool) :
    ℕ → State → ℕ → ℕ → List UInt8 → Option (List UInt8×State)
  | 0, s, _, _, out => some (out,s)
  | n+1, s, c, cur, out =>
    if out.length < toRead ∧ IsData c then
      if 2^32 ≤ out.length+(g.clusterSize-cur) then none
      else
        let r := fetch g s firstCluster c cur toRead out.length (keep n)
        if g.clusterSize ≤ cur+r.1.length then
          match getFATEntry g s.disk c with
          | none => some (out++r.1,r.2)
          | some e => readLoop firstCluster toRead keep n r.2 e 0 (out++r.1)
        else readLoop firstCluster toRead keep n r.2 c (cur+r.1.length) (out++r.1)
    else some (out,s)

/-- The count returned, and the bytes copied. -/
def readFile (s : State) (i offset count : ℕ) (keep : ℕ → ℕ → ℕ → Bool) :
    Option (ℤ×List UInt8×State) :=
  if s.fileCount ≤ i ∨ (s.files i).active = false then some (-1,[],s)
  else if (s.files i).size ≤ offset then some (0,[],s)
  else
    let toRead := min count ((s.files i).size-offset)
    if toRead = 0 then some (0,[],s)
    else
      let from_ := resume (s.files i) (offset/g.clusterSize)
      match forward g s.disk (offset/g.clusterSize-from_.2) from_.1 from_.2 with
      | none => some (-1,[],s)
      | some (c,ci) =>
        let s := noteWalk s i c ci
        if IsData c then
          match readLoop g (s.files i).firstCluster toRead keep toRead s c (offset%g.clusterSize) [] with
          | none => none
          | some (out,s) => some (out.length,out,s)
        else some (-1,[],s)

structure Extent where
  fileIdx : ℕ
  offset : ℕ
  data : List UInt8

def stagedEnd (staged : List Extent) : ℕ :=
  staged.foldl (fun m e => max m (e.offset+e.data.length)) 0

def flushStaged : List Extent → State → Option (Bool×State)
  | [], s => some (true,s)
  | e :: rest, s =>
    match writeFile g s e.fileIdx e.offset e.data with
    | none => none
    | some (n,s) =>
      match flushStaged rest s with
      | none => none
      | some (ok,s) => some (decide (n = e.data.length) && ok,s)

def cutWalk (d : Disk) (keep : ℕ) : ℕ → ℕ → ℕ → ℕ → ℕ → Option (ℕ×ℕ)
  | 0, _, _, _, _ => none
  | n+1, c, ci, lastKept, tailStart =>
    if IsData c then
      match getFATEntry g d c with
      | none => none
      | some e =>
        cutWalk d keep n e (ci+1) (if ci < keep then c else lastKept)
          (if ci+1 = keep then e else tailStart)
    else some (lastKept,tailStart)

def tailCluster (d : Disk) : ℕ → ℕ → Option ℕ
  | 0, c => some c
  | n+1, c =>
    match getFATEntry g d c with
    | none => none
    | some e => if IsData e then tailCluster d n e else none

def zeroFileTail (d : Disk) (firstCluster offset : ℕ) : Option Disk :=
  let inCluster := offset%g.clusterSize
  if inCluster = 0 ∧ offset ≠ 0 then some d
  else
    match tailCluster g d (offset/g.clusterSize) firstCluster with
    | none => none
    | some c =>
      let lba := clusterToLBA g c
      if g.sectorsPerCluster ≤ 8 then
        some (writeSectors d lba (splice (readSectors d lba g.sectorsPerCluster) inCluster
          (List.replicate (g.clusterSize-inCluster) 0)))
      else
        let tailSector := inCluster/sectorSize
        let inSector := inCluster%sectorSize
        let d := writeSectors d (lba+tailSector) (splice (readSectors d (lba+tailSector) 1) inSector
          (List.replicate (sectorSize-inSector) 0))
        some (zeroSectors d lba (tailSector+1) (g.sectorsPerCluster-(tailSector+1)))

def cutFile (s : State) (i newSize lastKept tailStart : ℕ) : Bool×State :=
  let fi := s.files i
  let t := s.setFile i
    { fi with size := newSize, lastCluster := if 2 ≤ lastKept then lastKept else fi.lastCluster,
              lastWalkCluster := 0, lastWalkIdx := 0 }
  if !updateDirEntry t i then (false,s)
  else
    let d := if 2 ≤ lastKept then setFATEntry g t.disk lastKept endMark else t.disk
    match freeTail g d tailStart with
    | (false,d) => (false,{ t with disk := d })
    | (true,d) => (true,invalidateInode { t with disk := d } fi.firstCluster)

def shrinkFile (s : State) (i newSize : ℕ) : Bool×State :=
  let fi := s.files i
  let keep := max 1 ((newSize+g.clusterSize-1)/g.clusterSize)
  match cutWalk g s.disk keep safetyLimit fi.firstCluster 0 0 0 with
  | none => (false,s)
  | some (lastKept,tailStart) =>
    match zeroFileTail g s.disk fi.firstCluster newSize with
    | none => (false,s)
    | some d => cutFile g { s with disk := d } i newSize lastKept tailStart

def truncateFile (s : State) (i newSize : ℕ) (staged : List Extent) : Option (Bool×State) :=
  if s.fileCount ≤ i ∨ (s.files i).active = false then some (false,s)
  else
    let fi := s.files i
    if max fi.size (stagedEnd staged) ≤ newSize then
      if fi.size < newSize then
        let s := s.setFile i { fi with size := newSize }
        some (updateDirEntry s i,s)
      else some (true,s)
    else
      match flushStaged g staged s with
      | none => none
      | some (false,s) => some (false,s)
      | some (true,s) =>
        if (s.files i).active = false ∨ (s.files i).firstCluster ≠ fi.firstCluster then some (false,s)
        else if (s.files i).size ≤ newSize then some (true,s)
        else some (shrinkFile g s i newSize)

def reclaim (s : State) (i : ℕ) : Bool×State :=
  let first := (s.files i).firstCluster
  if !validateChain g s.disk first then (false,s)
  else
    match freeChain g s.disk first with
    | (false,d) => (false,{ s with disk := d })
    | (true,d) => (true,(invalidateInode { s with disk := d } first).setFile i freeSlot)

def deleteFileInternal (s : State) (i : ℕ) (allowPending : Bool) (staged : List Extent) :
    Option (Bool×State) :=
  let fi := s.files i
  if s.fileCount ≤ i ∨ fi.active = false ∨ (allowPending = false ∧ fi.unlinkPending) ∨ fi.isDir then
    some (false,s)
  else if allowPending = false ∧ fi.firstCluster ∉ s.dir then some (false,s)
  else
    let s := if allowPending then s else { s with dir := s.dir.erase fi.firstCluster }
    if fi.refCount ≠ 0 then some (true,s.setFile i { fi with unlinkPending := true })
    else
      match flushStaged g staged s with
      | none => none
      | some (ok,s) =>
        let same := (s.files i).active && decide ((s.files i).firstCluster = fi.firstCluster)
        if !ok then
          some (false,if same then s.setFile i { s.files i with unlinkPending := true } else s)
        else if !same then some (false,s)
        else some (reclaim g s i)

def deleteFile (s : State) (i : ℕ) (staged : List Extent) : Option (Bool×State) :=
  deleteFileInternal g s i
    (decide (i < s.fileCount) && (s.files i).unlinkPending && decide ((s.files i).refCount = 0)) staged

def retainFile (s : State) (i : ℕ) : State :=
  if i < s.fileCount ∧ (s.files i).active then
    s.setFile i { s.files i with refCount := ((s.files i).refCount+1)%2^32 }
  else s

def closeFile (s : State) (i : ℕ) (staged : List Extent) : Option State :=
  let fi := s.files i
  if s.fileCount ≤ i ∨ fi.active = false ∨ fi.refCount = 0 then some s
  else
    let s := s.setFile i { fi with refCount := fi.refCount-1 }
    if fi.unlinkPending ∧ fi.refCount-1 = 0 then
      (deleteFileInternal g s i true staged).map Prod.snd
    else some s

end

end MoQiOS.Fat32
