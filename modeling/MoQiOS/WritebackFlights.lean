import MoQiOS.Writeback
import MoQiOS.Runs

/-!
# Writeback with device writes under way

The lock is dropped during a device write, so other tasks stage, flush, evict
and invalidate while the copy of a buffer is under way. Each staged byte has
the number of its write beside it, and the log lists the device writes that
went through in the order in which they reached the disk.
-/

namespace MoQiOS.WritebackFlights
open Writeback Runs Function

/-- A byte with the number of the write that staged it. -/
abbrev Cell := ℕ×UInt8

def content (b : DirtyBuffer) (tags : ℕ → ℕ) (k : ℕ) : Option Cell :=
  if b.byteOffset ≤ k then (b.data[k-b.byteOffset]?).map fun v => (tags k,v) else none

structure Request where
  file : File
  fileIdx : ℕ
  byteOffset : ℕ
  data : Bytes

variable (r : Request)

def Request.covers (k : ℕ) : Prop := r.byteOffset ≤ k ∧ k < r.byteOffset+r.data.length

instance (r : Request) (k : ℕ) : Decidable (r.covers k) := inferInstanceAs (Decidable (_ ∧ _))

def Request.cell (n k : ℕ) : Option Cell := (r.data[k-r.byteOffset]?).map fun v => (n,v)

/-- A device write: the copy of a slot, what the slot is evicted for and the
answer of the device. -/
structure Flight where
  slot : ℕ
  copy : DirtyBuffer
  tags : ℕ → ℕ
  request : Option Request
  result : Option Bool

structure Landed where
  copy : DirtyBuffer
  tags : ℕ → ℕ

structure Live where
  cache : State
  tags : ℕ → ℕ → ℕ
  tasks : ℕ
  flights : ℕ → Option Flight
  clock : ℕ
  accepted : File → ℕ → Option Cell
  log : List Landed

variable (s : Live)

def Live.cell (i k : ℕ) : Option Cell := content (s.cache.buffers i) (s.tags i) k

def Flight.cell (f : Flight) (k : ℕ) : Option Cell := content f.copy f.tags k

def Landed.cell (e : Landed) (k : ℕ) : Option Cell := content e.copy e.tags k

variable (i : ℕ)

/-- `fill` under the key of the slot, with the numbers of the bytes. -/
def put (r : Request) : Live :=
  { s with
    cache := fill s.cache i r.data
    tags := update s.tags i fun k => if r.covers k then s.clock else s.tags i k
    clock := s.clock+1
    accepted := update s.accepted r.file
      fun k => if r.covers k then r.cell s.clock k else s.accepted r.file k }

def claimFor (r : Request) : Live :=
  put { s with cache := claim s.cache i r.file r.fileIdx r.byteOffset } i r

def depart (task i : ℕ) (request : Option Request) : Live :=
  { s with
    cache := s.cache.setDirty i false
    flights := update s.flights task
      (some ⟨i,s.cache.buffers i,s.tags i,request,none⟩) }

variable (task : ℕ)

/-- `writeExtentLocked` up to the point where it is done or evicts a slot. -/
def stage (r : Request) : Live :=
  match findBufferLocked s.cache r.file r.byteOffset with
  | some i => put s i r
  | none =>
    match freeSlot s.cache with
    | some i => claimFor s i r
    | none => depart s task (oldestDirty s.cache) (some r)

def reach (f : Flight) (ok : Bool) : Live :=
  { s with
    cache := if ok then s.cache.writeOut f.copy else s.cache
    flights := update s.flights task (some { f with result := some ok })
    log := if ok then s.log++[⟨f.copy,f.tags⟩] else s.log }

def land (ok : Bool) : Live :=
  match s.flights task with
  | some f => reach s task f ok
  | none => s

def release : Live :=
  { s with cache := { s.cache with inUseBm := update s.cache.inUseBm i false } }

def settle (f : Flight) (ok : Bool) : Live :=
  let s := { s with flights := update s.flights task none }
  if !ok then { s with cache := s.cache.setDirty f.slot true }
  else if (s.cache.buffers f.slot).dirty then s
  else
    match f.request with
    | none => release s f.slot
    | some r => claimFor s f.slot r

def finish : Live :=
  match s.flights task with
  | some f =>
    match f.result with
    | some ok => settle s task f ok
    | none => s
  | none => s

variable (file : File)

def dropped (i : ℕ) : Prop :=
  i < bufferCount ∧ s.cache.inUseBm i = true ∧ (s.cache.buffers i).file = file ∧
    (s.cache.buffers i).dirty = false

instance (s : Live) (file : File) (i : ℕ) : Decidable (dropped s file i) :=
  inferInstanceAs (Decidable (_ ∧ _ ∧ _ ∧ _))

def drop : Live :=
  { s with
    cache := { s.cache with
      buffers := fun i => if dropped s file i then ⟨⟨.none,0⟩,0,0,[],false,0⟩ else s.cache.buffers i
      inUseBm := fun i => if dropped s file i then false else s.cache.inUseBm i
      dirtyBm := fun i => if dropped s file i then false else s.cache.dirtyBm i } }

inductive Op where
  | stage (task : ℕ) (r : Request)
  | flush (task slot : ℕ)
  | land (task : ℕ) (ok : Bool)
  | finish (task : ℕ)
  | drop (file : File)

def step : Op → Live
  | .stage task r => stage s task r
  | .flush task i => depart s task i none
  | .land task ok => land s task ok
  | .finish task => finish s task
  | .drop file => drop s file

/-- A task does one thing at a time; a flush takes a dirty buffer. -/
def Ready : Op → Prop
  | .stage task _ => task < s.tasks ∧ (s.flights task).isNone
  | .flush task i => task < s.tasks ∧ (s.flights task).isNone ∧ i < bufferCount ∧
      s.cache.inUseBm i ∧ (s.cache.buffers i).dirty
  | .land task _ => ∃ f ∈ s.flights task, f.result = none
  | .finish task => ∃ f ∈ s.flights task, f.result.isSome
  | .drop _ => True

def start (tasks : ℕ) (opened : FsType → ℕ → UInt64) (disk : File → ℕ → UInt8) : Live where
  cache := Writeback.start opened disk
  tags := fun _ _ => 0
  tasks := tasks
  flights := fun _ => none
  clock := 0
  accepted := fun _ _ => none
  log := []

def Grounded : Prop := ∀ t < s.tasks, ∀ f ∈ s.flights t, f.slot ≠ i

def Apart (r : Request) : Prop :=
  ∀ j < bufferCount, j ≠ i → s.cache.inUseBm j = true → (s.cache.buffers j).file = r.file →
    r.byteOffset+r.data.length ≤ (s.cache.buffers j).byteOffset ∨
      (s.cache.buffers j).byteOffset+(s.cache.buffers j).data.length ≤ r.byteOffset

/-- A slot has one device write at a time and is not dropped meanwhile, and
the buffers of a file do not overlap. -/
def Serial : Op → Prop
  | .stage _ r =>
    match findBufferLocked s.cache r.file r.byteOffset, freeSlot s.cache with
    | some i, _ => Apart s i r
    | none, some i => Apart s i r
    | none, none => Grounded s (oldestDirty s.cache)
  | .flush _ i => Grounded s i
  | .land _ _ => True
  | .finish task => ∀ f ∈ s.flights task, ∀ r ∈ f.request, Apart s f.slot r
  | .drop file => ∀ t < s.tasks, ∀ f ∈ s.flights t, (s.cache.buffers f.slot).file ≠ file

def SerialNext : Live → Op → Live → Prop := Guarded (fun s op => Ready s op ∧ Serial s op) step

structure Live.Holds (s : Live) (i : ℕ) (file : File) (k : ℕ) (x : Cell) : Prop where
  lt : i < bufferCount
  used : s.cache.inUseBm i = true
  file : (s.cache.buffers i).file = file
  cell : s.cell i k = some x

def InOrder (e e' : Landed) : Prop :=
  e.copy.file = e'.copy.file → ∀ k x y, e.cell k = some x → e'.cell k = some y → x.1 ≤ y.1

structure Sound (s : Live) : Prop where
  bounded : ∀ t f, s.flights t = some f → t < s.tasks
  single : ∀ t t' f f', s.flights t = some f → s.flights t' = some f' → f.slot = f'.slot → t = t'
  slot : ∀ t f, s.flights t = some f → f.slot < bufferCount ∧ s.cache.inUseBm f.slot = true ∧
    (s.cache.buffers f.slot).file = f.copy.file
  same : ∀ t f, s.flights t = some f → (s.cache.buffers f.slot).dirty = false →
    ∀ k, s.cell f.slot k = f.cell k
  newer : ∀ t f, s.flights t = some f → ∀ k x, f.cell k = some x →
    ∃ y, s.cell f.slot k = some y ∧ x.1 ≤ y.1
  idle : ∀ i < bufferCount, s.cache.inUseBm i = true → (s.cache.buffers i).dirty = false →
    ∃ t f, s.flights t = some f ∧ f.slot = i
  apart : ∀ i j file k x y, s.Holds i file k x → s.Holds j file k y → i = j
  kept : ∀ file k x, s.accepted file k = some x →
    (∃ i, s.Holds i file k x) ∨ ∃ e ∈ s.log, e.copy.file = file ∧ e.cell k = some x
  recent : ∀ i file k x, s.Holds i file k x → x.1 < s.clock
  logged : ∀ e ∈ s.log, ∀ k x, e.cell k = some x → x.1 < s.clock
  behind : ∀ e ∈ s.log, ∀ i k x y, e.cell k = some x → s.Holds i e.copy.file k y → x.1 ≤ y.1
  pending : ∀ e ∈ s.log, ∀ t f, s.flights t = some f → f.result = none → InOrder e ⟨f.copy,f.tags⟩
  arrived : ∀ t f, s.flights t = some f → f.result = some true → ⟨f.copy,f.tags⟩ ∈ s.log
  ordered : s.log.Pairwise InOrder

lemma start_sound (tasks : ℕ) (opened : FsType → ℕ → UInt64) (disk : File → ℕ → UInt8) :
    Sound (start tasks opened disk) := by
  have hunused : ∀ i file k x, ¬(start tasks opened disk).Holds i file k x := by
    intro i file k x h
    cases h.used
  constructor
  case apart => exact fun i j file k x y h => absurd h (hunused i file k x)
  case recent => exact fun i file k x h => absurd h (hunused i file k x)
  case ordered => exact List.Pairwise.nil
  all_goals simp [start,Writeback.start]

end MoQiOS.WritebackFlights
