import MoQiOS.ByteImages

/-!
# The writeback cache

Staged extents, the overlay that reads see and the flush to disk. The bytes of
a buffer behind its `data_len` are never read, so a buffer holds a list. The
ghost image of a file takes every accepted extent in the order of the calls.
-/

namespace MoQiOS.Writeback
open ByteImages Function

@[irreducible] def bufferCount : ℕ := 512
def pageSize : ℕ := 4096

inductive FsType where
  | none | ext2 | fat32
  deriving DecidableEq

abbrev Bytes := List UInt8

structure File where
  fsType : FsType
  inodeId : UInt64
  deriving DecidableEq

structure DirtyBuffer where
  file : File
  fileIdx : ℕ
  byteOffset : ℕ
  data : Bytes
  dirty : Bool
  dirtyTime : ℕ

structure State where
  buffers : ℕ → DirtyBuffer
  inUseBm : ℕ → Bool
  dirtyBm : ℕ → Bool
  wbTick : ℕ
  opened : FsType → ℕ → UInt64
  disk : File → ℕ → UInt8
  written : File → ℕ → UInt8

variable (s : State)

def State.setBuffer (i : ℕ) (b : DirtyBuffer) : State :=
  { s with buffers := update s.buffers i b }

def State.setDirty (i : ℕ) (dirty : Bool) : State :=
  { s with
    buffers := update s.buffers i { s.buffers i with dirty := dirty }
    dirtyBm := update s.dirtyBm i dirty }

def State.writeOut (b : DirtyBuffer) : State :=
  let file : File := ⟨b.file.fsType,s.opened b.file.fsType b.fileIdx⟩
  { s with disk := update s.disk file (overwrite (s.disk file) b.byteOffset b.data) }

def findBufferLocked (file : File) (byteOffset : ℕ) : Option ℕ :=
  (List.range bufferCount).find? fun i => s.inUseBm i && decide ((s.buffers i).file = file) &&
    decide ((s.buffers i).byteOffset = byteOffset)

def freeSlot : Option ℕ := (List.range bufferCount).find? fun i => !s.inUseBm i

def oldestDirty : ℕ :=
  ((List.range bufferCount).foldl (fun best i =>
    if s.dirtyBm i ∧ (s.buffers i).dirtyTime < best.2 then (i,(s.buffers i).dirtyTime) else best)
    (0,2^63)).1

def claim (i : ℕ) (file : File) (fileIdx byteOffset : ℕ) : State :=
  { s.setBuffer i ⟨file,fileIdx,byteOffset,[],false,0⟩ with
    inUseBm := update s.inUseBm i true }

variable (flushOk : Bool)

/-- A free slot, or the slot of the oldest dirty buffer once it is flushed. -/
def findOrAllocBufferLocked (s : State) (file : File) (fileIdx byteOffset : ℕ) :
    State×Option ℕ :=
  match freeSlot s with
  | some i => (claim s i file fileIdx byteOffset,some i)
  | none =>
    let i := oldestDirty s
    let evict := s.buffers i
    let s := s.setDirty i false
    if flushOk then (claim (s.writeOut evict) i file fileIdx byteOffset,some i)
    else (s.setDirty i true,none)

/-- The first bytes of a buffer are replaced; a longer tail stays. -/
def fill (i : ℕ) (data : Bytes) : State :=
  let b := s.buffers i
  { s with
    buffers := update s.buffers i
      { b with data := data++b.data.drop data.length, dirty := true, dirtyTime := s.wbTick }
    dirtyBm := update s.dirtyBm i true
    written := update s.written b.file (overwrite (s.written b.file) b.byteOffset data) }

def writeExtentLocked (s : State) (file : File) (fileIdx byteOffset : ℕ)
    (data : Bytes) : State×Bool :=
  match findBufferLocked s file byteOffset with
  | some i => (fill s i data,true)
  | none =>
    match findOrAllocBufferLocked flushOk s file fileIdx byteOffset with
    | (s,some i) => (fill s i data,true)
    | (s,none) => (s,false)

def writeLoop (flushOk : Bool) (file : File) (fileIdx : ℕ) : ℕ → State → ℕ → Bytes → State×ℕ
  | 0, s, _, _ => (s,0)
  | fuel+1, s, byteOffset, data =>
    if data = [] then (s,0)
    else
      let chunk := data.take pageSize
      match writeExtentLocked flushOk s file fileIdx byteOffset chunk with
      | (s,false) => (s,0)
      | (s,true) =>
        let (s,done) := writeLoop flushOk file fileIdx fuel s (byteOffset+chunk.length)
          (data.drop pageSize)
        (s,done+chunk.length)

def writeBuffered (s : State) (file : File) (fileIdx byteOffset : ℕ)
    (data : Bytes) : State×ℕ := writeLoop flushOk file fileIdx data.length s byteOffset data

structure Hit where
  skip : ℕ
  copy : ℕ
  dst : ℕ

def saturate (n : ℕ) : ℕ := min n (2^64-1)

def overlap (offset len readOff readLen : ℕ) : Option Hit :=
  if readLen = 0 ∨ len = 0 then none
  else
    let lo := max offset readOff
    let hi := min (saturate (offset+len)) (saturate (readOff+readLen))
    if hi ≤ lo then none else some ⟨lo-offset,hi-lo,lo-readOff⟩

def overlaySlot (file : File) (byteOffset : ℕ) (acc : Bytes×ℕ) (i : ℕ) : Bytes×ℕ :=
  let b := s.buffers i
  if s.inUseBm i ∧ b.file = file then
    match overlap b.byteOffset b.data.length byteOffset acc.1.length with
    | none => acc
    | some hit =>
      (acc.1.take hit.dst++(b.data.drop hit.skip).take hit.copy++acc.1.drop (hit.dst+hit.copy),
        max acc.2 (hit.dst+hit.copy))
  else acc

def overlayStaged (file : File) (byteOffset : ℕ) (buf : Bytes) : Bytes×ℕ :=
  (List.range bufferCount).foldl (overlaySlot s file byteOffset) (buf,0)

variable (writeOk : ℕ → Bool)

def flushSlot (file : File) (acc : State×Bool) (i : ℕ) : State×Bool :=
  let s := acc.1
  let b := s.buffers i
  if s.dirtyBm i ∧ b.file = file ∧ b.dirty then
    let s := s.setDirty i false
    if writeOk i then ({ s.writeOut b with inUseBm := update s.inUseBm i false },acc.2)
    else (s.setDirty i true,false)
  else acc

def flushFile (s : State) (file : File) : State×Bool :=
  (List.range bufferCount).foldl (flushSlot writeOk file) (s,true)

inductive Op where
  | write (file : File) (fileIdx byteOffset : ℕ) (data : Bytes)
  | flush (file : File)
  | tick

/-- Writes go through. -/
def step : Op → State
  | .write file fileIdx byteOffset data => (writeBuffered true s file fileIdx byteOffset data).1
  | .flush file => (flushFile (fun _ => true) s file).1
  | .tick => { s with wbTick := s.wbTick+1 }

def start (opened : FsType → ℕ → UInt64) (disk : File → ℕ → UInt8) : State where
  buffers := fun _ => ⟨⟨.none,0⟩,0,0,[],false,0⟩
  inUseBm := fun _ => false
  dirtyBm := fun _ => false
  wbTick := 0
  opened := opened
  disk := disk
  written := disk

end MoQiOS.Writeback
