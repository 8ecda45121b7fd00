import MoQiOS.PipeRuns
import MoQiOS.WaitQueue

/-!
# Readers of a pipe

Any number of readers and writers share one pipe. A reader that finds the pipe
empty links itself on the read wait queue in the same section. A write that
stores bytes wakes the oldest reader, closing an end wakes all of them, and a
signal may wake any. A woken reader first takes its node off the queue and then
looks at the pipe again.
-/

namespace MoQiOS.PipeReaders
open Runs WaitQueue Pipes

/-- A `kicked` reader was made runnable by a signal and is still linked, a
`woken` one was taken off the queue, and `recheck` stands before the section
that looks at the pipe again. -/
inductive Pc where
  | outside
  | asleep
  | kicked
  | woken
  | recheck
  deriving DecidableEq, Repr

def Pc.pending : Pc → Bool
  | .kicked | .woken | .recheck => true
  | _ => false

structure State (τ : Type*) where
  pipe : Pipe
  waiters : List τ
  pc : τ → Pc

variable {τ : Type*}

def start (readRefs writeRefs generation : ℕ) : State τ :=
  ⟨allocPipe (readRefs+writeRefs) readRefs writeRefs generation,[],fun _ => .outside⟩

section
variable [DecidableEq τ]

def State.goto (s : State τ) (t : τ) (p : Pc) : State τ := { s with pc := Function.update s.pc t p }

/-- A read of `count` bytes up to its return or to its sleep. `leave` stands
for a non-blocking descriptor or a signal that ends the call or the task. -/
def check (s : State τ) (t : τ) (count : ℕ) (leave : Bool) : State τ :=
  if count = 0 ∨ s.pipe.refCount = 0 ∨ s.pipe.readReservation ≠ 0 then s.goto t .outside
  else if s.pipe.used = 0 then
    if s.pipe.writeRefs = 0 ∨ leave then s.goto t .outside
    else { s.goto t .asleep with waiters := blockOn s.waiters t }
  else { s.goto t .outside with pipe := pipeRead s.pipe count }

def cleanup (s : State τ) (t : τ) : State τ :=
  { s.goto t .recheck with waiters := unlink s.waiters t }

def wakeReader (s : State τ) : State τ :=
  match (wakeOne s.waiters).1 with
  | none => s
  | some u => { s.goto u .woken with waiters := (wakeOne s.waiters).2 }

def write (s : State τ) (data : List UInt8) (n : ℕ) : State τ :=
  let r := pipeWrite s.pipe data n
  if n < r.2 then wakeReader { s with pipe := r.1 } else { s with pipe := r.1 }

def wakeReaders (s : State τ) : State τ :=
  { s with waiters := [], pc := fun u => if u ∈ s.waiters then .woken else s.pc u }

def pipeRetain (p : Pipe) (writeEnd : Bool) : Pipe :=
  if p.refCount = 0 then p
  else { p with
    refCount := p.refCount+1
    writeRefs := if writeEnd then p.writeRefs+1 else p.writeRefs
    readRefs := if writeEnd then p.readRefs else p.readRefs+1 }

/-- The last reference clears the slot and keeps its generation. -/
def pipeClose (p : Pipe) (writeEnd : Bool) : Pipe :=
  if p.refCount = 0 then p
  else if p.refCount = 1 then allocPipe 0 0 0 p.generation
  else { p with
    refCount := p.refCount-1
    writeRefs := if writeEnd then p.writeRefs-1 else p.writeRefs
    readRefs := if writeEnd then p.readRefs else p.readRefs-1 }

inductive Op (τ : Type*) where
  | check (t : τ) (count : ℕ) (leave : Bool)
  | cleanup (t : τ)
  | kick (t : τ)
  | write (data : List UInt8) (n : ℕ)
  | retain (writeEnd : Bool)
  | close (writeEnd : Bool)

def Ready (s : State τ) : Op τ → Prop
  | .check t _ _ => s.pc t = .outside ∨ s.pc t = .recheck
  | .cleanup t => s.pc t = .kicked ∨ s.pc t = .woken
  | .kick t => s.pc t = .asleep
  | .write _ _ | .retain _ | .close _ => True

instance (s : State τ) (c : Op τ) : Decidable (Ready s c) := by
  cases c <;> dsimp only [Ready] <;> infer_instance

def step (s : State τ) : Op τ → State τ
  | .check t count leave => check s t count leave
  | .cleanup t => cleanup s t
  | .kick t => s.goto t .kicked
  | .write data n => write s data n
  | .retain writeEnd => { s with pipe := pipeRetain s.pipe writeEnd }
  | .close writeEnd => wakeReaders { s with pipe := pipeClose s.pipe writeEnd }

def Next : State τ → Op τ → State τ → Prop := Guarded Ready step

/-- Every read asks for all the pipe has. -/
def Thirsty : State τ → Op τ → State τ → Prop := Guarded (fun s c => Ready s c ∧ match c with
  | .check _ count _ => s.pipe.used ≤ count
  | _ => True) step

end

structure Inv (s : State τ) : Prop where
  bounded : s.pipe.Bounded
  unreserved : s.pipe.readReservation = 0
  closed : s.pipe.refCount = 0 → s.pipe.used = 0
  attended : 0 < s.pipe.used → s.waiters ≠ [] → ∃ t, (s.pc t).pending = true

lemma start_inv (readRefs writeRefs generation : ℕ) :
    Inv (start readRefs writeRefs generation : State τ) :=
  ⟨(alloc_sound _ _ _ _).bounded,rfl,fun _ => rfl,fun h => absurd h (lt_irrefl 0)⟩

section
variable [DecidableEq τ] {s s' : State τ} {t : τ}

lemma goto_pc (s : State τ) (t u : τ) (p : Pc) :
    (s.goto t p).pc u = if u = t then p else s.pc u := by
  simp [State.goto,Function.update_apply]

lemma goto_pending (s : State τ) (t : τ) {p : Pc} (hp : p.pending = true) :
    ∃ u, ((s.goto t p).pc u).pending = true :=
  ⟨t,by rw [goto_pc,if_pos rfl,hp]⟩

variable (h : Inv s)
include h

lemma Inv.check {count : ℕ} (leave : Bool) (hc : s.pipe.used ≤ count) :
    Inv (check s t count leave) := by
  unfold PipeReaders.check
  split_ifs with h1 h2 h3
  · have hempty : s.pipe.used = 0 := by
      rcases h1 with h1 | h1 | h1
      · omega
      · exact h.closed h1
      · exact absurd h.unreserved h1
    exact ⟨h.bounded,h.unreserved,h.closed,fun hd => absurd hempty (Nat.pos_iff_ne_zero.mp hd)⟩
  · exact ⟨h.bounded,h.unreserved,h.closed,fun hd => absurd h2 (Nat.pos_iff_ne_zero.mp hd)⟩
  · exact ⟨h.bounded,h.unreserved,h.closed,fun hd => absurd h2 (Nat.pos_iff_ne_zero.mp hd)⟩
  have hk := read_kept s.pipe count
  have hdrain : pipeRead s.pipe count = s.pipe.drain (min count s.pipe.used) := by
    unfold pipeRead
    rw [if_neg]
    simp only [not_or] at h1 ⊢
    exact ⟨h1.2.1,h1.2.2,h2⟩
  have hzero : (pipeRead s.pipe count).used = 0 := by
    rw [hdrain,h.bounded.drain_used (Nat.min_le_right _ _)]
    omega
  refine ⟨?_,hk.window.trans h.unreserved,fun _ => hzero,
    fun hd => absurd hzero (Nat.pos_iff_ne_zero.mp hd)⟩
  change (pipeRead s.pipe count).Bounded
  rw [hdrain]
  exact drain_bounded h.bounded _

lemma Inv.cleanup : Inv (cleanup s t) :=
  ⟨h.bounded,h.unreserved,h.closed,fun _ _ => goto_pending s t rfl⟩

lemma Inv.kick : Inv (s.goto t .kicked) :=
  ⟨h.bounded,h.unreserved,h.closed,fun _ _ => goto_pending s t rfl⟩

omit h

variable {p : Pipe}

lemma Inv.wakeReader (hb : p.Bounded) (hr : p.readReservation = 0)
    (hc : p.refCount = 0 → p.used = 0) : Inv (wakeReader {s with pipe := p}) := by
  unfold PipeReaders.wakeReader
  dsimp only
  cases hw : (wakeOne s.waiters).1 with
  | none => exact ⟨hb,hr,hc,fun _ hne => absurd (wakeOne_none.mp hw) hne⟩
  | some u => exact ⟨hb,hr,hc,fun _ _ => goto_pending {s with pipe := p} u rfl⟩

lemma write_bounded (h : p.Bounded) (data : List UInt8) (n : ℕ) :
    (pipeWrite p data n).1.Bounded := by
  unfold pipeWrite
  split_ifs
  · exact h
  · exact h.fill _
  · exact h

lemma write_closed (hb : p.Bounded) (h : p.refCount = 0 → p.used = 0) (data : List UInt8) (n : ℕ) :
    (pipeWrite p data n).1.refCount = 0 → (pipeWrite p data n).1.used = 0 := by
  intro hz
  rw [(write_kept hb data n).refs] at hz
  have hsame : pipeWrite p data n = (p,n) := if_pos (.inl hz)
  rw [hsame]
  exact h hz

lemma write_none (data : List UInt8) {n : ℕ} (h : ¬n < (pipeWrite p data n).2) :
    (pipeWrite p data n).1 = p := by
  unfold pipeWrite at h ⊢
  split_ifs at h ⊢
  · rfl
  · exact fill_none _ (by dsimp only at h; omega)
  · rfl

include h

lemma Inv.write (data : List UInt8) (n : ℕ) : Inv (write s data n) := by
  have hk := write_kept h.bounded data n
  unfold PipeReaders.write
  dsimp only
  split_ifs with hn
  · apply Inv.wakeReader
    · exact write_bounded h.bounded data n
    · exact hk.window.trans h.unreserved
    · exact write_closed h.bounded h.closed data n
  · rw [write_none data hn]
    exact h

omit [DecidableEq τ] in
lemma Inv.retain (writeEnd : Bool) : Inv {s with pipe := pipeRetain s.pipe writeEnd} := by
  unfold pipeRetain
  by_cases hz : s.pipe.refCount = 0
  · rw [if_pos hz]
    exact h
  rw [if_neg hz]
  exact ⟨⟨h.bounded.head,h.bounded.tail⟩,h.unreserved,fun hc => absurd hc (Nat.succ_ne_zero _),
    h.attended⟩

lemma Inv.close (writeEnd : Bool) :
    Inv (wakeReaders {s with pipe := pipeClose s.pipe writeEnd}) := by
  have hnone : ∀ {P : Prop}, ([] : List τ) ≠ [] → P := fun hne => absurd rfl hne
  unfold pipeClose
  by_cases h0 : s.pipe.refCount = 0
  · rw [if_pos h0]
    exact ⟨h.bounded,h.unreserved,h.closed,fun _ => hnone⟩
  by_cases h1 : s.pipe.refCount = 1
  · rw [if_neg h0,if_pos h1]
    exact ⟨(alloc_sound _ _ _ _).bounded,rfl,fun _ => rfl,fun _ => hnone⟩
  rw [if_neg h0,if_neg h1]
  refine ⟨⟨h.bounded.head,h.bounded.tail⟩,h.unreserved,fun hc => ?_,fun _ => hnone⟩
  change s.pipe.refCount-1 = 0 at hc
  omega

lemma Inv.thirsty {c : Op τ} (hn : Thirsty s c s') : Inv s' := by
  obtain ⟨⟨hr,hc⟩,rfl⟩ := hn
  cases c with
  | check t count leave => exact h.check leave hc
  | cleanup t => exact h.cleanup
  | kick t => exact h.kick
  | write data n => exact h.write data n
  | retain writeEnd => exact h.retain writeEnd
  | close writeEnd => exact h.close writeEnd

omit h

theorem no_reader_sleeps_over_data {readRefs writeRefs generation : ℕ}
    (h : Reaches Thirsty (start readRefs writeRefs generation) s) (hd : 0 < s.pipe.used)
    (hl : t ∈ s.waiters) : ∃ u, (s.pc u).pending = true := by
  have hinv := invariant (I := Inv) (fun _ _ _ hi hn => hi.thirsty hn) h (start_inv _ _ _)
  exact hinv.attended hd (List.ne_nil_of_mem hl)

/-- Two readers sleep, two bytes arrive, and the reader that is woken takes
one of them. -/
def partialRead : List (Op Bool) :=
  [.check false 1 false,.check true 1 false,.write [65,66] 0,.cleanup false,.check false 1 false]

theorem reader_stranded_over_data :
    Reaches Next (start 1 1 0) (run step (start 1 1 0) partialRead) ∧
    (run step (start 1 1 0) partialRead).pipe.used = 1 ∧
    (run step (start 1 1 0) partialRead).pipe.readReservation = 0 ∧
    (run step (start 1 1 0) partialRead).waiters = [true] ∧
    ∀ u, ((run step (start 1 1 0) partialRead).pc u).pending = false := by
  refine ⟨run_reaches (Reaches.start _ _) (by decide),?_⟩
  decide

theorem no_reader_sleeps_over_data_woken :
    0 < (run step (start 1 1 0) (partialRead.take 3)).pipe.used ∧
    true ∈ (run step (start 1 1 0) (partialRead.take 3)).waiters ∧
    ∃ u, ((run step (start 1 1 0) (partialRead.take 3)).pc u).pending = true := by
  have hr : Reaches Thirsty (start 1 1 0) (run step (start 1 1 0) (partialRead.take 3)) := by
    apply run_reaches (Reaches.start _ _)
    exact ⟨⟨.inl rfl,by decide⟩,⟨.inl rfl,by decide⟩,⟨trivial,trivial⟩,trivial⟩
  have hd : 0 < (run step (start 1 1 0) (partialRead.take 3)).pipe.used := by decide
  have hl : true ∈ (run step (start 1 1 0) (partialRead.take 3)).waiters := by decide
  exact ⟨hd,hl,no_reader_sleeps_over_data hr hd hl⟩

end

end MoQiOS.PipeReaders
