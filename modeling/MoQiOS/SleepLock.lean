import MoQiOS.Runs
import MoQiOS.WaitQueue

/-!
# The sleeping lock

Every section under the guard is one step. A task whose lock call has linked
its node sleeps until `unlock` grants it the lock or a signal kicks it; the
kicked task unlinks its node and tries again. Before the scheduler exists a
lock call repeats the section of `tryLock`. Only the owner unlocks.
-/

namespace MoQiOS.SleepLock
open Runs WaitQueue List

inductive Pc where
  | outside
  | waiting
  | owner
  deriving DecidableEq, Repr

/-- `kicked` tells that the call was woken without a grant and `arrival` is
the number of the call; the source keeps neither. -/
structure Local where
  pc : Pc
  granted : Bool
  ready : Bool
  kicked : Bool
  arrival : ℕ
  deriving DecidableEq, Repr

structure State (τ : Type*) where
  held : Bool
  waiters : List τ
  tasks : τ → Local
  arrivals : ℕ

variable {τ : Type*}

def start : State τ := ⟨false,[],fun _ => ⟨.outside,false,false,false,0⟩,0⟩

section
variable [DecidableEq τ]

def State.set (s : State τ) (t : τ) (me : Local) : State τ :=
  { s with tasks := Function.update s.tasks t me }

def State.attempt (s : State τ) (t : τ) (me : Local) : State τ :=
  if !s.held then { s.set t { me with pc := .owner } with held := true }
  else { s.set t { me with pc := .waiting, granted := false, ready := false } with
    waiters := blockOn s.waiters t }

def lock (s : State τ) (t : τ) : State τ :=
  { s with arrivals := s.arrivals+1 }.attempt t ⟨.outside,false,false,false,s.arrivals⟩

def resume (s : State τ) (t : τ) : State τ :=
  if (s.tasks t).granted then s.set t { s.tasks t with pc := .owner }
  else { s with waiters := unlink s.waiters t }.attempt t (s.tasks t)

/-- A stopped task is granted the lock without being made runnable. -/
def unlock (s : State τ) (t : τ) (stopped : Bool) : State τ :=
  let s := s.set t { s.tasks t with pc := .outside }
  match (wakeOne s.waiters).1 with
  | none => { s with held := false }
  | some u => { s.set u { s.tasks u with granted := true, ready := (s.tasks u).ready || !stopped } with
      waiters := (wakeOne s.waiters).2 }

def tryLock (s : State τ) (t : τ) : State τ :=
  if s.held then s
  else { s.set t ⟨.owner,false,false,false,s.arrivals⟩ with held := true, arrivals := s.arrivals+1 }

def kick (s : State τ) (t : τ) : State τ :=
  s.set t { s.tasks t with
    ready := true, kicked := (s.tasks t).kicked || !(s.tasks t).granted }

inductive Op (τ : Type*) where
  | lock (t : τ)
  | resume (t : τ)
  | unlock (t : τ) (stopped : Bool)
  | tryLock (t : τ)
  | kick (t : τ)

def Ready (s : State τ) : Op τ → Prop
  | .lock t => (s.tasks t).pc = .outside
  | .resume t => (s.tasks t).pc = .waiting ∧ (s.tasks t).ready = true
  | .unlock t _ => (s.tasks t).pc = .owner
  | .tryLock t => (s.tasks t).pc = .outside
  | .kick t => (s.tasks t).pc = .waiting

instance (s : State τ) (c : Op τ) : Decidable (Ready s c) := by
  cases c <;> dsimp only [Ready] <;> infer_instance

def step (s : State τ) : Op τ → State τ
  | .lock t => lock s t
  | .resume t => resume s t
  | .unlock t stopped => unlock s t stopped
  | .tryLock t => tryLock s t
  | .kick t => kick s t

def Next : State τ → Op τ → State τ → Prop := Guarded Ready step

end

/-- The task owns the lock or has been handed it in its sleep. -/
def Handed (s : State τ) (t : τ) : Prop :=
  (s.tasks t).pc = .owner ∨ (s.tasks t).pc = .waiting ∧ (s.tasks t).granted = true

def Sooner (s : State τ) (t u : τ) : Prop :=
  (s.tasks t).kicked = false → (s.tasks u).kicked = false →
    (s.tasks t).arrival < (s.tasks u).arrival

structure Inv (s : State τ) : Prop where
  one : ∀ t u, Handed s t → Handed s u → t = u
  free : s.held = false → ∀ t, ¬Handed s t
  busy : ∀ t ∈ s.waiters, s.held = true
  linked : ∀ t, t ∈ s.waiters ↔ (s.tasks t).pc = .waiting ∧ (s.tasks t).granted = false
  nodup : s.waiters.Nodup
  order : s.waiters.Pairwise (fun a b => Sooner s b a)
  front : ∀ u, Handed s u → ∀ t ∈ s.waiters, Sooner s u t
  kicked : ∀ t ∈ s.waiters, (s.tasks t).ready = true → (s.tasks t).kicked = true
  past : ∀ t, (s.tasks t).pc ≠ .outside → (s.tasks t).arrival < s.arrivals

lemma start_inv : Inv (start : State τ) := by
  constructor <;> simp [start,Handed]

lemma Inv.none_waiting {s : State τ} (h : Inv s) (hf : s.held = false) : s.waiters = [] := by
  apply eq_nil_iff_forall_not_mem.mpr
  intro t ht
  have := h.busy t ht
  rw [hf] at this
  cases this

section
variable [DecidableEq τ] {s : State τ} {t : τ}

@[simp] lemma set_tasks (s : State τ) (t u : τ) (me : Local) :
    (s.set t me).tasks u = if u = t then me else s.tasks u := by
  simp [State.set,Function.update_apply]

@[simp] lemma set_held (s : State τ) (t : τ) (me : Local) : (s.set t me).held = s.held := rfl

@[simp] lemma set_waiters (s : State τ) (t : τ) (me : Local) :
    (s.set t me).waiters = s.waiters := rfl

@[simp] lemma set_arrivals (s : State τ) (t : τ) (me : Local) :
    (s.set t me).arrivals = s.arrivals := rfl

variable (h : Inv s)
include h

lemma Inv.take (hf : s.held = false) {me : Local} (hp : me.pc = .owner)
    (ha : me.arrival = s.arrivals) :
    Inv {s.set t me with held := true, arrivals := s.arrivals+1} := by
  have hnone := h.free hf
  have hempty := h.none_waiting hf
  have hlinked := h.linked
  have hpast := h.past
  simp only [Handed] at hnone
  constructor <;> simp only [Handed,Sooner,set_tasks,set_waiters,hempty] at * <;> grind

lemma Inv.enqueue (hh : s.held = true) (ho : (s.tasks t).pc = .outside) :
    Inv {s.set t ⟨.waiting,false,false,false,s.arrivals⟩ with
      waiters := blockOn s.waiters t, arrivals := s.arrivals+1} := by
  have hnot : t ∉ s.waiters := by
    intro hc
    have := (h.linked t).mp hc
    rw [ho] at this
    cases this.1
  have hpast := h.past
  have hlinked := h.linked
  have hold : ∀ u, u ∈ s.waiters → u ≠ t := fun u hu hc => hnot (hc ▸ hu)
  constructor
  · have := h.one
    simp only [Handed,set_tasks] at *
    grind
  · simp [hh]
  · simp [hh]
  · simp only [blockOn,set_tasks,mem_cons]
    grind
  · exact nodup_cons.mpr ⟨hnot,h.nodup⟩
  · refine pairwise_cons.mpr ⟨?_,?_⟩
    · intro u hu
      simp only [Sooner,set_tasks]
      grind
    · apply h.order.imp_of_mem
      intro a b ha hb hab
      simp only [Sooner,set_tasks,if_neg (hold a ha),if_neg (hold b hb)]
      exact hab
  · have := h.front
    simp only [Handed,Sooner,blockOn,set_tasks,mem_cons] at *
    grind
  · have := h.kicked
    simp only [blockOn,set_tasks,mem_cons] at *
    grind
  · simp only [set_tasks]
    grind

lemma Inv.lock (ho : (s.tasks t).pc = .outside) : Inv (lock s t) := by
  unfold SleepLock.lock State.attempt
  by_cases hh : s.held = true
  · rw [if_neg (by simp [hh])]
    exact h.enqueue hh ho
  · rw [if_pos (by simpa using hh)]
    exact h.take (Bool.eq_false_iff.mpr hh) rfl rfl

lemma Inv.tryLock : Inv (tryLock s t) := by
  unfold SleepLock.tryLock
  split_ifs with hh
  · exact h
  · exact h.take (Bool.eq_false_iff.mpr hh) rfl rfl

lemma Inv.resume_granted (hw : (s.tasks t).pc = .waiting)
    (hg : (s.tasks t).granted = true) : Inv (s.set t {s.tasks t with pc := .owner}) := by
  have hhanded : ∀ u, Handed (s.set t {s.tasks t with pc := .owner}) u ↔ Handed s u := by
    intro u
    simp only [Handed,set_tasks]
    grind
  have hlinked := h.linked
  have hnot : t ∉ s.waiters := by
    rw [h.linked t,hg]
    simp
  have hold : ∀ u, u ∈ s.waiters → u ≠ t := fun u hu hc => hnot (hc ▸ hu)
  have hsooner : ∀ u v, Sooner (s.set t {s.tasks t with pc := .owner}) u v ↔ Sooner s u v := by
    intro u v
    simp only [Sooner,set_tasks]
    grind
  constructor
  · simpa only [hhanded] using h.one
  · simpa only [hhanded,set_held] using h.free
  · exact h.busy
  · simp only [set_tasks,set_waiters]
    grind
  · exact h.nodup
  · simpa only [hsooner,set_waiters] using h.order
  · simpa only [hhanded,hsooner,set_waiters] using h.front
  · have := h.kicked
    simp only [set_tasks,set_waiters]
    grind
  · have := h.past
    simp only [set_tasks,set_arrivals]
    grind

lemma Inv.requeue (ht : t ∈ s.waiters) (hk : (s.tasks t).kicked = true) :
    Inv {s.set t {s.tasks t with pc := .waiting, granted := false, ready := false} with
      waiters := blockOn (unlink s.waiters t) t} := by
  have hmem : ∀ u, u ∈ blockOn (unlink s.waiters t) t ↔ u ∈ s.waiters := by
    intro u
    rw [blockOn,unlink,mem_cons,h.nodup.mem_erase_iff]
    grind
  have hpc := (h.linked t).mp ht
  have hhanded : ∀ u, Handed {s.set t {s.tasks t with
      pc := .waiting, granted := false, ready := false} with
      waiters := blockOn (unlink s.waiters t) t} u ↔ Handed s u := by
    intro u
    simp only [Handed,set_tasks]
    grind
  have hsooner : ∀ u v, Sooner {s.set t {s.tasks t with
      pc := .waiting, granted := false, ready := false} with
      waiters := blockOn (unlink s.waiters t) t} u v ↔ Sooner s u v := by
    intro u v
    simp only [Sooner,set_tasks]
    grind
  constructor
  · simpa only [hhanded] using h.one
  · exact fun hf u hu => h.free hf u ((hhanded u).mp hu)
  · exact fun u hu => h.busy u ((hmem u).mp hu)
  · have := h.linked
    simp only [hmem,set_tasks]
    grind
  · exact nodup_cons.mpr ⟨h.nodup.not_mem_erase,h.nodup.erase t⟩
  · refine pairwise_cons.mpr ⟨?_,?_⟩
    · intro u _
      rw [hsooner]
      intro _ hc
      rw [hk] at hc
      cases hc
    · apply (h.order.sublist erase_sublist).imp
      exact fun hab => (hsooner _ _).mpr hab
  · simpa only [hhanded,hsooner,hmem] using h.front
  · have := h.kicked
    simp only [hmem,set_tasks]
    grind
  · have := h.past
    simp only [set_tasks,set_arrivals]
    grind

lemma Inv.resume (hr : Ready s (.resume t)) : Inv (resume s t) := by
  obtain ⟨hw,hready⟩ := hr
  unfold SleepLock.resume
  split_ifs with hg
  · exact h.resume_granted hw hg
  have ht : t ∈ s.waiters := (h.linked t).mpr ⟨hw,Bool.eq_false_iff.mpr hg⟩
  have hh := h.busy t ht
  unfold State.attempt
  rw [if_neg (by simp [hh])]
  exact h.requeue ht (h.kicked t ht hready)

lemma Inv.unlock_empty (ho : (s.tasks t).pc = .owner) (he : s.waiters = []) :
    Inv {s.set t {s.tasks t with pc := .outside} with held := false} := by
  have hgone : ∀ u, Handed s u → u = t := fun u hu => h.one u t hu (.inl ho)
  have hlinked := h.linked
  have hpast := h.past
  simp only [Handed] at hgone
  constructor <;> simp only [Handed,Sooner,set_tasks,set_waiters,set_arrivals,he] at * <;> grind

lemma Inv.unlock_hand (ho : (s.tasks t).pc = .owner) {u : τ} {rest : List τ}
    (hq : s.waiters = rest++[u]) (ready : Bool) :
    Inv {(s.set t {s.tasks t with pc := .outside}).set u
        {s.tasks u with granted := true, ready := ready} with waiters := rest} := by
  have hu : u ∈ s.waiters := by simp [hq]
  have hupc := (h.linked u).mp hu
  have hut : u ≠ t := by
    intro hc
    rw [hc,ho] at hupc
    cases hupc.1
  have hnd := h.nodup
  rw [hq,nodup_append] at hnd
  have hnotin : u ∉ rest := fun hc => hnd.2.2 u hc u (mem_singleton_self u) rfl
  have hrest : ∀ v, v ∈ rest ↔ v ∈ s.waiters ∧ v ≠ u := by
    intro v
    rw [hq,mem_append,mem_singleton]
    grind
  have hself : Handed s t := .inl ho
  have hone := h.one
  have horder := h.order
  rw [hq,pairwise_append] at horder
  have hlast : ∀ v ∈ rest, Sooner s u v :=
    fun v hv => horder.2.2 v hv u (mem_singleton_self u)
  have hlinked := h.linked
  constructor
  · simp only [Handed,set_tasks] at *
    grind
  · intro hc
    have := h.busy u hu
    simp only [set_held] at hc
    rw [this] at hc
    cases hc
  · intro v hv
    exact h.busy v ((hrest v).mp hv).1
  · simp only [set_tasks]
    grind
  · exact hnd.1
  · apply horder.1.imp
    intro a b hab
    simp only [Sooner,set_tasks] at *
    grind
  · simp only [Handed,Sooner,set_tasks] at *
    grind
  · have := h.kicked
    simp only [set_tasks]
    grind
  · have := h.past
    simp only [set_tasks,set_arrivals]
    grind

lemma Inv.unlock (ho : (s.tasks t).pc = .owner) (stopped : Bool) : Inv (unlock s t stopped) := by
  unfold SleepLock.unlock
  dsimp only [set_waiters]
  rcases hw : (wakeOne s.waiters).1 with _ | u
  · exact h.unlock_empty ho (wakeOne_none.mp hw)
  have hq := wakeOne_some hw
  have hut : u ≠ t := by
    intro hc
    have hu := (h.linked u).mp (by rw [hq]; simp)
    rw [hc,ho] at hu
    cases hu.1
  have hhand := h.unlock_hand ho hq ((s.tasks u).ready || !stopped)
  simpa only [set_tasks,if_neg hut] using hhand

lemma Inv.kick (hw : (s.tasks t).pc = .waiting) : Inv (kick s t) := by
  have hone := h.one
  have hfree := h.free
  have hlinked := h.linked
  have hfront := h.front
  have hkicked := h.kicked
  have hpast := h.past
  unfold SleepLock.kick
  constructor
  · simp only [Handed,set_tasks] at *
    grind
  · simp only [Handed,set_tasks,set_held] at *
    grind
  · exact h.busy
  · simp only [set_tasks,set_waiters]
    grind
  · exact h.nodup
  · apply h.order.imp
    intro a b hab
    simp only [Sooner,set_tasks] at *
    grind
  · simp only [Handed,Sooner,set_tasks,set_waiters] at *
    grind
  · simp only [set_tasks,set_waiters]
    grind
  · simp only [set_tasks,set_arrivals]
    grind

lemma Inv.next {s' : State τ} {c : Op τ} (hn : Next s c s') : Inv s' := by
  obtain ⟨hr,rfl⟩ := hn
  cases c with
  | lock t => exact h.lock hr
  | resume t => exact h.resume hr
  | unlock t stopped => exact h.unlock hr stopped
  | tryLock t => exact h.tryLock
  | kick t => exact h.kick hr

omit h

theorem sleep_lock_correct (h : Reaches Next start s) :
    (∀ t u, (s.tasks t).pc = .owner → (s.tasks u).pc = .owner → t = u) ∧
    (s.held = false → ∀ t, (s.tasks t).pc ≠ .owner ∧
      ¬((s.tasks t).pc = .waiting ∧ (s.tasks t).granted = true)) ∧
    (∀ t, (s.tasks t).pc ≠ .waiting → t ∉ s.waiters) ∧
    ∀ t u, (s.tasks t).pc = .owner → (s.tasks t).kicked = false →
      (s.tasks u).pc = .waiting → (s.tasks u).kicked = false →
      (s.tasks t).arrival < (s.tasks u).arrival := by
  have hinv := invariant (I := Inv) (fun _ _ _ hi hn => hi.next hn) h start_inv
  refine ⟨fun t u ht hu => hinv.one t u (.inl ht) (.inl hu),?_,?_,?_⟩
  · intro hf t
    exact not_or.mp (hinv.free hf t)
  · intro t hp ht
    exact hp ((hinv.linked t).mp ht).1
  · intro t u ht hkt hu hku
    have hungranted : (s.tasks u).granted = false := by
      by_contra hg
      rw [Bool.not_eq_false] at hg
      have htu := hinv.one t u (.inl ht) (.inr ⟨hu,hg⟩)
      rw [htu, hu] at ht
      cases ht
    exact hinv.front t (.inl ht) u ((hinv.linked u).mpr ⟨hu,hungranted⟩) hkt hku

def handover : List (Op ℕ) := [.lock 0,.lock 1,.lock 2,.unlock 0 false,.resume 1]

theorem sleep_lock_correct_handover : Reaches Next start (run step start handover) ∧
    ((run step start handover).tasks 1).pc = .owner ∧
    ((run step start handover).tasks 2).pc = .waiting ∧
    ((run step start handover).tasks 1).arrival < ((run step start handover).tasks 2).arrival := by
  have hr : Reaches Next start (run step start handover) :=
    run_reaches (Reaches.start _ _) (by decide)
  exact ⟨hr,by decide,by decide,
    (sleep_lock_correct hr).2.2.2 1 2 (by decide) (by decide) (by decide) (by decide)⟩

lemma owner_next {s' : State τ} {c : Op τ} (h : Inv s) (ho : s.held = true → ∃ u, Handed s u)
    (hn : Next s c s') (hh : s'.held = true) : ∃ u, Handed s' u := by
  obtain ⟨hr,rfl⟩ := hn
  have hkeep : ∀ t, ¬Handed s t → s.held = true → ∃ u, u ≠ t ∧ Handed s u := by
    intro t ht hs
    obtain ⟨u,hu⟩ := ho hs
    exact ⟨u,fun he => ht (he ▸ hu),hu⟩
  cases c with
  | lock t =>
    by_cases hs : s.held = true
    · obtain ⟨u,hne,hu⟩ := hkeep t (by grind [Handed,Ready]) hs
      exact ⟨u,by simpa [step,lock,State.attempt,hs,Handed,hne] using hu⟩
    · exact ⟨t,by simp [step,lock,State.attempt,hs,Handed]⟩
  | resume t =>
    by_cases hg : (s.tasks t).granted = true
    · exact ⟨t,by simp [step,resume,hg,Handed]⟩
    by_cases hs : s.held = true
    · obtain ⟨u,hne,hu⟩ := hkeep t (by grind [Handed,Ready]) hs
      exact ⟨u,by simpa [step,resume,hg,State.attempt,hs,Handed,hne,State.set] using hu⟩
    · exact ⟨t,by simp [step,resume,hg,State.attempt,hs,Handed]⟩
  | unlock t stopped =>
    simp only [step,unlock] at hh ⊢
    split at hh
    · cases hh
    · -- the lock stays held only when it goes to the longest waiting task
      rename_i u hu
      rw [set_waiters] at hu
      have hw := ((h.linked u).mp (wakeOne_some hu ▸ mem_append_right _ (mem_singleton_self u))).1
      have hne : u ≠ t := by
        rintro rfl
        cases hw.symm.trans hr
      exact ⟨u,.inr (by simp [hne,hw])⟩
  | tryLock t =>
    by_cases hs : s.held = true
    · simpa [step,tryLock,hs] using ho hs
    · exact ⟨t,by simp [step,tryLock,hs,Handed]⟩
  | kick t =>
    obtain ⟨u,hu⟩ := ho hh
    refine ⟨u,?_⟩
    by_cases hut : u = t <;> simpa [step,kick,Handed,hut] using hu

/-- While a call sleeps somebody owns the lock or has been handed it. -/
theorem nobody_waits_on_free_lock (h : Reaches Next start s) {t : τ}
    (hw : (s.tasks t).pc = .waiting) : ∃ u, Handed s u := by
  obtain ⟨hi,ho⟩ := invariant (I := fun s => Inv s ∧ (s.held = true → ∃ u, Handed s u))
    (fun _ _ _ hi hn => ⟨hi.1.next hn,owner_next hi.1 hi.2 hn⟩) h ⟨start_inv,fun hc => by cases hc⟩
  by_cases hg : (s.tasks t).granted = true
  · exact ⟨t,.inr ⟨hw,hg⟩⟩
  · exact ho (hi.busy t ((hi.linked t).mpr ⟨hw,Bool.eq_false_iff.mpr hg⟩))

theorem nobody_waits_on_free_lock_handover : ∃ u, Handed (run step start handover) u :=
  nobody_waits_on_free_lock (run_reaches (Reaches.start _ _) (by decide)) (t := 2) (by decide)

end

end MoQiOS.SleepLock
