import MoQiOS.Runs

/-!
# The three-state mutex

The word is 0 when the mutex is free, 1 when it is held and 2 when it is held
and somebody may sleep. Every atomic operation of `pthread_mutex_lock` and
`pthread_mutex_unlock` is a step of its thread, and so are the two halves of a
futex call that the kernel makes atomic. Only the thread that holds the mutex
unlocks it.
-/

namespace MoQiOS.PthreadMutex
open Runs

/-- Where a thread stands. `retry` and `woken` both lead to the exchange at
the end of the loop; a thread is `woken` when a wake let it out of the futex. -/
inductive Pc where
  | outside
  | contend
  | wait
  | asleep
  | retry
  | woken
  | owner
  | wake
  deriving DecidableEq, Repr

structure State (τ : Type*) where
  f : ℕ
  pc : τ → Pc

variable {τ : Type*}

def pthreadMutexInit : State τ := ⟨0,fun _ => .outside⟩

section
variable [DecidableEq τ]

def State.goto (s : State τ) (t : τ) (p : Pc) : State τ := { s with pc := Function.update s.pc t p }

def lockCmpxchg (s : State τ) (t : τ) : State τ :=
  if s.f = 0 then { s.goto t .owner with f := 1 }
  else if s.f ≠ 2 then s.goto t .contend
  else s.goto t .wait

def lockExchange (s : State τ) (t : τ) : State τ :=
  if s.f = 0 then { s.goto t .owner with f := 2 } else { s.goto t .wait with f := 2 }

def futexWait (s : State τ) (t : τ) : State τ :=
  if s.f = 2 then s.goto t .asleep else s.goto t .retry

def unlockExchange (s : State τ) (t : τ) : State τ :=
  if s.f = 2 then { s.goto t .wake with f := 0 } else { s.goto t .outside with f := 0 }

def futexWake (s : State τ) (t : τ) : Option τ → State τ
  | none => s.goto t .outside
  | some u => (s.goto u .woken).goto t .outside

inductive Op (τ : Type*) where
  | cmpxchg (t : τ)
  | exchange (t : τ)
  | wait (t : τ)
  | spurious (t : τ)
  | unlock (t : τ)
  | wake (t : τ) (sleeper : Option τ)

def Ready (s : State τ) : Op τ → Prop
  | .cmpxchg t => s.pc t = .outside
  | .exchange t => s.pc t = .contend ∨ s.pc t = .retry ∨ s.pc t = .woken
  | .wait t => s.pc t = .wait
  | .spurious t => s.pc t = .asleep
  | .unlock t => s.pc t = .owner
  | .wake t none => s.pc t = .wake ∧ ∀ u, s.pc u ≠ .asleep
  | .wake t (some u) => s.pc t = .wake ∧ s.pc u = .asleep

def step (s : State τ) : Op τ → State τ
  | .cmpxchg t => lockCmpxchg s t
  | .exchange t => lockExchange s t
  | .wait t => futexWait s t
  | .spurious t => s.goto t .retry
  | .unlock t => unlockExchange s t
  | .wake t u => futexWake s t u

def Next : State τ → Op τ → State τ → Prop := Guarded Ready step

end

def Attended (s : State τ) : Prop :=
  s.f = 2 ∨ (∃ u, s.pc u = .wake) ∨ ∃ u, s.pc u = .woken

structure Inv (s : State τ) : Prop where
  free : s.f = 0 → ∀ t, s.pc t ≠ .owner
  one : ∀ t u, s.pc t = .owner → s.pc u = .owner → t = u
  attended : ∀ t, s.pc t = .asleep → Attended s

lemma init_inv : Inv (pthreadMutexInit : State τ) :=
  ⟨fun _ _ h => Pc.noConfusion h,fun _ _ h => Pc.noConfusion h,fun _ h => Pc.noConfusion h⟩

variable {s s' : State τ}

/-- A thread that sleeps stays attended while the word 2 and the threads with a
wake to give or to act on stay as they are. -/
lemma Attended.kept (h : Attended s) (hf : s.f = 2 → s'.f = 2)
    (hp : ∀ u, s.pc u = .wake ∨ s.pc u = .woken → s'.pc u = s.pc u) : Attended s' := by
  rcases h with h | ⟨u,hu⟩ | ⟨u,hu⟩
  · exact .inl (hf h)
  · exact .inr (.inl ⟨u,(hp u (.inl hu)).trans hu⟩)
  · exact .inr (.inr ⟨u,(hp u (.inr hu)).trans hu⟩)

lemma Inv.move (h : Inv s) (hf : s'.f = 0 → s.f = 0)
    (ho : ∀ u, s'.pc u = .owner → s.pc u = .owner)
    (ha : ∀ u, s'.pc u = .asleep → Attended s') : Inv s' :=
  ⟨fun hz u hu => h.free (hf hz) u (ho u hu),fun u w hu hw => h.one u w (ho u hu) (ho w hw),ha⟩

variable {t : τ}

lemma Inv.take (h : Inv s) (hf : s.f = 0) (hv : s'.f ≠ 0)
    (ho : ∀ u, s'.pc u = .owner → u = t ∨ s.pc u = .owner)
    (ha : ∀ u, s'.pc u = .asleep → Attended s') : Inv s' := by
  have hself : ∀ u, s'.pc u = .owner → u = t :=
    fun u hu => (ho u hu).resolve_right (h.free hf u)
  exact ⟨fun hz => absurd hz hv,fun u w hu hw => (hself u hu).trans (hself w hw).symm,ha⟩

section
variable [DecidableEq τ]

@[simp] lemma goto_pc (s : State τ) (t u : τ) (p : Pc) :
    (s.goto t p).pc u = if u = t then p else s.pc u := by
  simp [State.goto,Function.update_apply]

variable {s : State τ} (h : Inv s)
include h

lemma Inv.goto {p : Pc} (hp : p ≠ .owner)
    (ha : ∀ u, (s.goto t p).pc u = .asleep → Attended (s.goto t p)) : Inv (s.goto t p) := by
  apply h.move
  · exact id
  · grind [goto_pc]
  · exact ha

lemma Inv.goto_quiet {p : Pc} (hp : p ≠ .owner)
    (hp' : p ≠ .asleep) (ht : s.pc t ≠ .wake) (ht' : s.pc t ≠ .woken) : Inv (s.goto t p) := by
  apply h.goto hp
  intro u hu
  have hold : s.pc u = .asleep := by grind [goto_pc]
  exact (h.attended u hold).kept id (by grind [goto_pc])

lemma Inv.lockCmpxchg (ht : s.pc t = .outside) : Inv (lockCmpxchg s t) := by
  unfold PthreadMutex.lockCmpxchg
  split_ifs with h0 h2
  · apply h.take (t := t) h0 Nat.one_ne_zero
    · grind [goto_pc]
    · intro u hu
      have hold : s.pc u = .asleep := by grind [goto_pc]
      exact (h.attended u hold).kept (by omega) (by grind [goto_pc])
  · exact h.goto_quiet (by decide) (by decide) (by simp [ht]) (by simp [ht])
  · exact h.goto_quiet (by decide) (by decide) (by simp [ht]) (by simp [ht])

lemma Inv.lockExchange : Inv (lockExchange s t) := by
  unfold PthreadMutex.lockExchange
  split_ifs with h0
  · exact h.take (t := t) h0 (by simp) (by grind [goto_pc]) (fun _ _ => .inl rfl)
  · exact h.move (by simp) (by grind [goto_pc]) (fun _ _ => .inl rfl)

lemma Inv.futexWait (ht : s.pc t = .wait) : Inv (futexWait s t) := by
  unfold PthreadMutex.futexWait
  split_ifs with h2
  · exact h.goto (by decide) (fun _ _ => .inl h2)
  · exact h.goto_quiet (by decide) (by decide) (by simp [ht]) (by simp [ht])

lemma Inv.unlockExchange (ht : s.pc t = .owner) : Inv (unlockExchange s t) := by
  have hgone : ∀ u, s.pc u = .owner → u = t := fun u hu => h.one u t hu ht
  unfold PthreadMutex.unlockExchange
  split_ifs with h2
  · constructor
    · grind [goto_pc]
    · grind [goto_pc]
    · intro u hu
      exact .inr (.inl ⟨t,by simp⟩)
  constructor
  · grind [goto_pc]
  · grind [goto_pc]
  · intro u hu
    have hold : s.pc u = .asleep := by grind [goto_pc]
    exact (h.attended u hold).kept (fun h => absurd h h2) (by grind [goto_pc])

/-- A wake hands the care for the sleepers to the thread it wakes; without a
sleeper there is nothing to hand over. -/
lemma Inv.futexWake {sleeper : Option τ}
    (hr : Ready s (.wake t sleeper)) : Inv (futexWake s t sleeper) := by
  cases sleeper with
  | none =>
    obtain ⟨ht,hnone⟩ := hr
    apply h.goto (by decide)
    intro u hu
    have hold : s.pc u = .asleep := by grind [goto_pc]
    exact absurd hold (hnone u)
  | some v =>
    obtain ⟨ht,hv⟩ := hr
    have hwoken : ((s.goto v .woken).goto t .outside).pc v = .woken := by grind [goto_pc]
    apply h.move
    · exact id
    · grind [goto_pc,PthreadMutex.futexWake]
    · exact fun _ _ => .inr (.inr ⟨v,hwoken⟩)

lemma Inv.next {c : Op τ} (hn : Next s c s') : Inv s' := by
  obtain ⟨hr,rfl⟩ := hn
  cases c with
  | cmpxchg t => exact h.lockCmpxchg hr
  | exchange t => exact h.lockExchange
  | wait t => exact h.futexWait hr
  | spurious t =>
    have ht : s.pc t = .asleep := hr
    exact h.goto_quiet (by decide) (by decide) (by simp [ht]) (by simp [ht])
  | unlock t => exact h.unlockExchange hr
  | wake t sleeper => exact h.futexWake hr

omit h

theorem mutex_excludes_and_attends {s : State τ} (h : Reaches Next pthreadMutexInit s) :
    (∀ t u, s.pc t = .owner → s.pc u = .owner → t = u) ∧ ∀ t, s.pc t = .asleep →
      s.f = 2 ∨ (∃ u, s.pc u = .wake) ∨ ∃ u, s.pc u = .woken := by
  have hinv := invariant (I := Inv) (fun _ _ _ hi hn => hi.next hn) h init_inv
  exact ⟨hinv.one,hinv.attended⟩

/-- One thread slept on the mutex and the other has stored 0 without having
issued its wake. -/
def handover : List (Op Bool) :=
  [.cmpxchg true,.cmpxchg false,.exchange false,.wait false,.unlock true]

theorem mutex_excludes_and_attends_handover :
    Reaches Next pthreadMutexInit (run step pthreadMutexInit handover) ∧
    (run step pthreadMutexInit handover).pc false = .asleep ∧
    (run step pthreadMutexInit handover).f = 0 ∧ ((run step pthreadMutexInit handover).f = 2 ∨
      (∃ u, (run step pthreadMutexInit handover).pc u = .wake) ∨
      ∃ u, (run step pthreadMutexInit handover).pc u = .woken) := by
  have hr : Reaches Next (pthreadMutexInit : State Bool) (run step pthreadMutexInit handover) :=
    run_reaches (Reaches.start _ _) ⟨rfl,rfl,.inl rfl,rfl,rfl,trivial⟩
  exact ⟨hr,rfl,rfl,(mutex_excludes_and_attends hr).2 false rfl⟩

end

end MoQiOS.PthreadMutex
