import MoQiOS.Runs
import MoQiOS.RingMemory

/-!
# Pipes

A pipe is a ring of 4096 bytes that keeps at most 4095. Every section under the
pipe lock is a function here. A read reservation copies the bytes at the head
and keeps other readers away until it is committed or released. The bytes
accepted and the bytes consumed are recorded in order; the source keeps neither
record.
-/

namespace MoQiOS.Pipes
open RingMemory List Nat

def pipeBufSize : ℕ := 4096

structure Pipe where
  buf : ℕ → UInt8
  head : ℕ
  tail : ℕ
  refCount : ℕ
  readRefs : ℕ
  writeRefs : ℕ
  generation : ℕ
  readReservation : ℕ
  accepted : List UInt8
  consumed : List UInt8

def allocPipe (refCount readRefs writeRefs generation : ℕ) : Pipe :=
  ⟨fun _ => 0,0,0,refCount,readRefs,writeRefs,generation,0,[],[]⟩

def Pipe.used (p : Pipe) : ℕ :=
  if p.tail ≥ p.head then p.tail-p.head else pipeBufSize-p.head+p.tail

def Pipe.room (p : Pipe) : ℕ := pipeBufSize-1-p.used

def Pipe.put (p : Pipe) (b : UInt8) : Pipe :=
  { p with
    buf := Function.update p.buf p.tail b
    tail := (p.tail+1)%pipeBufSize
    accepted := p.accepted++[b] }

def Pipe.fill (p : Pipe) : List UInt8 → Pipe×ℕ
  | [] => (p,0)
  | b::rest =>
    if (p.tail+1)%pipeBufSize = p.head then (p,0)
    else (((p.put b).fill rest).1,((p.put b).fill rest).2+1)

def Pipe.get (p : Pipe) : Pipe :=
  { p with head := (p.head+1)%pipeBufSize, consumed := p.consumed++[p.buf p.head] }

def Pipe.drain (p : Pipe) : ℕ → Pipe
  | 0 => p
  | n+1 => p.get.drain n

/-- One section of a write of `data` of which `n` bytes are already in. A
write that fits into an empty pipe goes in whole or not at all. -/
def pipeWrite (p : Pipe) (data : List UInt8) (n : ℕ) : Pipe×ℕ :=
  if p.refCount = 0 ∨ p.readRefs = 0 then (p,n)
  else if pipeBufSize-1 < data.length ∨ data.length ≤ p.room then
    ((p.fill (data.drop n)).1,n+(p.fill (data.drop n)).2)
  else (p,n)

def pipeRead (p : Pipe) (count : ℕ) : Pipe :=
  if p.refCount = 0 ∨ p.readReservation ≠ 0 ∨ p.used = 0 then p
  else p.drain (min count p.used)

def pipeReserveRead (p : Pipe) (count : ℕ) : Option (Pipe×List UInt8) :=
  if p.refCount = 0 ∨ p.readReservation ≠ 0 then none
  else some ({ p with readReservation := min count p.used },
    held p.buf pipeBufSize p.head (min count p.used))

/-- The waiting variant hands out no empty reservation. -/
def pipeReserveReadWait (p : Pipe) (count : ℕ) : Option (Pipe×List UInt8) :=
  if p.used = 0 then none else pipeReserveRead p count

/-- `copied` is what the reservation put into the caller's buffer: its
accepted prefix is what the commit consumes. -/
def pipeCommitRead (p : Pipe) (generation : ℕ) (copied : List UInt8) (count : ℕ) : Pipe :=
  if p.refCount = 0 ∨ p.generation ≠ generation then p
  else { p with
    head := (p.head+min count p.readReservation)%pipeBufSize
    readReservation := p.readReservation-min count p.readReservation
    consumed := p.consumed++copied.take (min count p.readReservation) }

def pipeReleaseRead (p : Pipe) (generation : ℕ) : Pipe :=
  if p.refCount ≠ 0 ∧ p.generation = generation then { p with readReservation := 0 } else p

def pipeTransfer (src dst : Pipe) (count : ℕ) : Pipe×Pipe :=
  if src.refCount = 0 ∨ dst.refCount = 0 ∨ src.readReservation ≠ 0 ∨ dst.readRefs = 0 ∨
      dst.writeRefs = 0 then (src,dst)
  else
    let n := min count (min src.used dst.room)
    (src.drain n,(held src.buf pipeBufSize src.head n).foldl Pipe.put dst)

structure Pipe.Bounded (p : Pipe) : Prop where
  head : p.head < pipeBufSize
  tail : p.tail < pipeBufSize

def Pipe.content (p : Pipe) : List UInt8 := held p.buf pipeBufSize p.head p.used

variable {p : Pipe} (h : p.Bounded)
include h

lemma Pipe.Bounded.used_eq : p.used = (p.tail+(4096-p.head))%4096 := by
  have h1 := h.head
  have h2 := h.tail
  unfold Pipe.used
  simp only [pipeBufSize] at *
  split_ifs <;> omega

lemma Pipe.Bounded.used_lt : p.used < pipeBufSize := by
  rw [h.used_eq]
  exact mod_lt _ (by decide)

lemma Pipe.Bounded.used_room : p.used+p.room = 4095 := by
  have hlt := h.used_lt
  unfold Pipe.room
  simp only [pipeBufSize] at *
  omega

lemma Pipe.Bounded.tail_eq : p.tail = (p.head+p.used)%pipeBufSize := by
  have h1 := h.head
  have h2 := h.tail
  unfold Pipe.used
  simp only [pipeBufSize] at *
  split_ifs <;> omega

omit h

lemma content_length (p : Pipe) : p.content.length = p.used := held_length _ _ _ _

include h

lemma Pipe.Bounded.put (b : UInt8) : (p.put b).Bounded :=
  ⟨h.head,mod_lt _ (by decide)⟩

lemma Pipe.Bounded.full_iff : (p.tail+1)%pipeBufSize = p.head ↔ p.used = pipeBufSize-1 := by
  have h1 := h.head
  have h2 := h.tail
  unfold Pipe.used
  simp only [pipeBufSize] at *
  split_ifs <;> omega

lemma Pipe.Bounded.put_used (hroom : p.used < pipeBufSize-1) (b : UInt8) :
    (p.put b).used = p.used+1 := by
  have h1 := h.head
  have h2 := h.tail
  rw [(h.put b).used_eq]
  rw [h.used_eq] at hroom ⊢
  simp only [Pipe.put,pipeBufSize] at *
  omega

lemma Pipe.Bounded.put_content (hroom : p.used < pipeBufSize-1) (b : UInt8) :
    (p.put b).content = p.content++[b] := by
  have hw := written_one p.buf h.tail b
  rw [h.tail_eq] at hw
  unfold Pipe.content
  rw [h.put_used hroom b]
  change held (Function.update p.buf p.tail b) pipeBufSize p.head (p.used+1) = _
  rw [h.tail_eq]
  exact held_written hw (by simp; omega)

lemma Pipe.Bounded.get : p.get.Bounded := ⟨mod_lt _ (by decide),h.tail⟩

omit h

variable {n : ℕ}

include h

lemma Pipe.Bounded.advance_used (hn : n ≤ p.used) :
    {p with head := (p.head+n)%pipeBufSize}.used = p.used-n := by
  have h1 := h.head
  have h2 := h.tail
  have hb : {p with head := (p.head+n)%pipeBufSize}.Bounded := ⟨mod_lt _ (by decide),h.tail⟩
  rw [hb.used_eq]
  rw [h.used_eq] at hn ⊢
  simp only [pipeBufSize] at *
  omega

lemma Pipe.Bounded.advance_content (hn : n ≤ p.used) :
    {p with head := (p.head+n)%pipeBufSize}.content = p.content.drop n := by
  unfold Pipe.content
  rw [h.advance_used hn]
  exact held_drop p.buf pipeBufSize p.head hn

lemma Pipe.Bounded.content_cons (hn : 0 < p.used) : p.content = p.buf p.head::p.get.content := by
  have hget : p.get.content = p.content.drop 1 := h.advance_content hn
  have hone : held p.buf pipeBufSize p.head 1 = [p.buf p.head] := by
    simp [held,mod_eq_of_lt h.head]
  have htake := held_take p.buf pipeBufSize p.head (n := p.used) (k := 1) hn
  rw [hone] at htake
  rw [hget]
  change p.content = [p.buf p.head]++p.content.drop 1
  rw [htake]
  exact (take_append_drop 1 p.content).symm

omit h

/-- The bytes accepted are the bytes consumed and those still in the ring. -/
structure Sound (p : Pipe) : Prop where
  bounded : p.Bounded
  stream : p.accepted = p.consumed++p.content

lemma alloc_sound (refCount readRefs writeRefs generation : ℕ) :
    Sound (allocPipe refCount readRefs writeRefs generation) :=
  ⟨⟨zero_lt_succ 4095,zero_lt_succ 4095⟩,rfl⟩

lemma Sound.put (h : Sound p) (hroom : p.used < pipeBufSize-1) (b : UInt8) : Sound (p.put b) := by
  refine ⟨h.bounded.put b,?_⟩
  rw [h.bounded.put_content hroom b]
  change p.accepted++[b] = p.consumed++(p.content++[b])
  rw [h.stream,append_assoc]

lemma Pipe.Bounded.fill (h : p.Bounded) (data : List UInt8) : (p.fill data).1.Bounded := by
  induction data generalizing p with
  | nil => exact h
  | cons b rest ih =>
    unfold Pipe.fill
    split_ifs
    · exact h
    · exact ih (h.put b)

lemma Sound.fill (h : Sound p) (data : List UInt8) : Sound (p.fill data).1 := by
  induction data generalizing p with
  | nil => exact h
  | cons b rest ih =>
    unfold Pipe.fill
    split_ifs with hfull
    · exact h
    have hlt := h.bounded.used_lt
    rw [h.bounded.full_iff] at hfull
    exact ih (h.put (by omega) b)

lemma Pipe.Bounded.fill_all (h : p.Bounded) (data : List UInt8)
    (hroom : p.used+data.length ≤ pipeBufSize-1) :
    (p.fill data).1.accepted = p.accepted++data ∧ (p.fill data).2 = data.length := by
  induction data generalizing p with
  | nil => exact ⟨(append_nil _).symm,rfl⟩
  | cons b rest ih =>
    simp only [length_cons] at hroom
    have hne : ¬(p.tail+1)%pipeBufSize = p.head := by
      rw [h.full_iff]
      omega
    have hused := h.put_used (by omega) b
    obtain ⟨ha,hn⟩ := ih (h.put b) (by omega)
    unfold Pipe.fill
    rw [if_neg hne]
    refine ⟨?_,by rw [hn]; rfl⟩
    rw [ha]
    change p.accepted++[b]++rest = _
    rw [append_assoc]
    rfl

lemma Sound.get (h : Sound p) (hn : 0 < p.used) : Sound p.get := by
  refine ⟨h.bounded.get,?_⟩
  change p.accepted = p.consumed++[p.buf p.head]++p.get.content
  rw [h.stream,h.bounded.content_cons hn,append_assoc]
  rfl

lemma Pipe.Bounded.drain_used (h : p.Bounded) (hn : n ≤ p.used) :
    (p.drain n).used = p.used-n := by
  induction n generalizing p with
  | zero => rfl
  | succ n ih =>
    have hused : p.get.used = p.used-1 := h.advance_used (by omega)
    change (p.get.drain n).used = _
    rw [ih h.get (by omega)]
    omega

lemma fill_none (data : List UInt8) (h : (p.fill data).2 = 0) : (p.fill data).1 = p := by
  cases data with
  | nil => rfl
  | cons b rest =>
    unfold Pipe.fill at h ⊢
    split_ifs at h ⊢
    rfl

lemma Sound.drain (h : Sound p) (hn : n ≤ p.used) : Sound (p.drain n) := by
  induction n generalizing p with
  | zero => exact h
  | succ n ih =>
    have hused : p.get.used = p.used-1 := h.bounded.advance_used (by omega)
    exact ih (h.get (by omega)) (by omega)

lemma Sound.putAll (h : Sound p) (bytes : List UInt8)
    (hroom : p.used+bytes.length ≤ pipeBufSize-1) : Sound (bytes.foldl Pipe.put p) := by
  induction bytes generalizing p with
  | nil => exact h
  | cons b rest ih =>
    simp only [length_cons] at hroom
    have hused := h.bounded.put_used (by omega) b
    exact ih (h.put (by omega) b) (by omega)

lemma Sound.write (h : Sound p) (data : List UInt8) (n : ℕ) : Sound (pipeWrite p data n).1 := by
  unfold pipeWrite
  split_ifs
  · exact h
  · exact h.fill _
  · exact h

lemma Sound.read (h : Sound p) (count : ℕ) : Sound (pipeRead p count) := by
  unfold pipeRead
  split_ifs
  · exact h
  · exact h.drain (Nat.min_le_right _ _)

lemma Sound.transfer {src dst : Pipe} (hs : Sound src) (hd : Sound dst) (count : ℕ) :
    Sound (pipeTransfer src dst count).1 ∧ Sound (pipeTransfer src dst count).2 := by
  unfold pipeTransfer
  split_ifs
  · exact ⟨hs,hd⟩
  have hlt := hd.bounded.used_lt
  refine ⟨hs.drain (by omega),hd.putAll _ ?_⟩
  rw [held_length,Pipe.room]
  omega

/-- A write of at most 4095 bytes enters whole or not at all. -/
lemma write_whole_or_nothing (h : p.Bounded) {data : List UInt8} (hlen : data.length ≤ 4095) :
    (pipeWrite p data 0 = (p,0)) ∨
    ((pipeWrite p data 0).1.accepted = p.accepted++data ∧ (pipeWrite p data 0).2 = data.length) := by
  have hlt := h.used_lt
  unfold pipeWrite
  split_ifs with h1 h2
  · exact .inl rfl
  · right
    rw [drop_zero,Nat.zero_add]
    apply h.fill_all
    rcases h2 with h2 | h2
    · simp only [pipeBufSize] at h2
      omega
    · unfold Pipe.room at h2
      omega
  · exact .inl rfl

end MoQiOS.Pipes
