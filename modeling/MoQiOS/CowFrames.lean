import MoQiOS.SlotTables
import MoQiOS.Runs

/-!
# Leaving a copy-on-write frame

A frame is shared by address spaces whose entries carry the copy-on-write
mark. A write fault and an `mprotect` that grants writing leave it the same
way: they read the reference count, and then either make the entry writable in
place or copy the frame, point the entry at the copy and drop the reference.
Each call into the physical allocator is one step, and the address spaces take
their steps in any order; inside one of them the virtual-memory lock keeps
them in sequence. Dropping a reference does not return the frame, so somebody
has to stay: a sharer that reads the count while all the others are already
leaving must not leave too.
-/

namespace MoQiOS.Cow
open SlotTables Runs

/-- Where a sharer stands: at rest on the shared frame, about to keep it or to
copy it, behind the switch of its entry, and at the end of either way. -/
inductive Sharer where
  | shared | keeping | copying | switched | sole | moved
deriving DecidableEq

def Sharer.maps : Sharer → Bool
  | .shared | .keeping | .copying | .sole => true
  | .switched | .moved => false

def refSaturated : ℕ := 65535

structure Frame where
  sharers : List Sharer
  refCount : ℕ
  free : Bool
  freed : ℕ
deriving DecidableEq

inductive Step where
  | getRefCount (i : ℕ)
  | makeWritable (i : ℕ)
  | giveUp (i : ℕ)
  | setEntry (i : ℕ)
  | decRef (i : ℕ)

variable (f : Frame)

def Frame.move (i : ℕ) (p : Sharer) : Frame := { f with sharers := f.sharers.set i p }

def Frame.decRef : Frame :=
  if f.refCount > 0 ∧ f.refCount ≠ refSaturated then { f with refCount := f.refCount-1 } else f

def Step.at : Step → Option Sharer
  | .getRefCount i | .makeWritable i | .giveUp i | .setEntry i | .decRef i => f.sharers[i]?

/-- A step is taken by a sharer that has come to it. Giving up is a failed
allocation of the fault, or `mprotect` leaving the page to the fault when its
reservation is used up. -/
def Step.ready (c : Step) : Prop :=
  match c with
  | .getRefCount _ => c.at f = some .shared
  | .makeWritable _ => c.at f = some .keeping
  | .giveUp _ => c.at f = some .copying
  | .setEntry _ => c.at f = some .copying
  | .decRef _ => c.at f = some .switched

def Step.step : Step → Frame
  | .getRefCount i => f.move i (if f.refCount > 1 then .copying else .keeping)
  | .makeWritable i => f.move i .sole
  | .giveUp i => f.move i .shared
  | .setEntry i => f.move i .switched
  | .decRef i => f.decRef.move i .moved

def Frame.start (n : ℕ) : Frame := ⟨List.replicate n .shared,min n refSaturated,false,0⟩

def Sharer.leaves : Sharer → ℕ
  | .copying | .switched => 1
  | _ => 0

def Sharer.stays : Sharer → ℕ
  | .shared | .keeping | .sole => 1
  | _ => 0

def Frame.leaving : ℕ := total Sharer.leaves f.sharers

def Frame.staying : ℕ := total Sharer.stays f.sharers

/-- No sharer decides while every other holder of the frame is on its way
out. -/
def Step.unraced : Step → Prop
  | .getRefCount _ => f.leaving = 0 ∨ f.leaving+2 ≤ f.refCount
  | _ => True

/-- Every sharer that has not dropped its reference is counted, and one of
them stays. -/
structure Counted (f : Frame) : Prop where
  refs : f.refCount = f.staying+f.leaving
  small : f.refCount < refSaturated
  stays : 0 < f.staying
  kept : f.free = false ∧ f.freed = 0

/-- A sharer that neither starts to leave nor drops its reference changes
nothing that is counted. -/
lemma Counted.move {f : Frame} (h : Counted f) {i : ℕ} {p q : Sharer} (hi : f.sharers[i]? = some p)
    (hs : p.stays ≤ q.stays) (hq : p.stays+p.leaves = q.stays+q.leaves) : Counted (f.move i q) := by
  have h1 : (f.move i q).staying+p.stays = f.staying+q.stays := total_set Sharer.stays q hi
  have h2 : (f.move i q).leaving+p.leaves = f.leaving+q.leaves := total_set Sharer.leaves q hi
  have hrefs := h.refs
  have hstay := h.stays
  exact ⟨by change f.refCount = _; omega,h.small,by omega,h.kept⟩

lemma step_counted {f : Frame} (h : Counted f) (c : Step) (hr : c.ready f) (hu : c.unraced f) :
    Counted (c.step f) := by
  cases c with
  | getRefCount i =>
    have hi : f.sharers[i]? = some .shared := hr
    by_cases hc : f.refCount > 1
    · simp only [Step.step,if_pos hc]
      have h1 : (f.move i .copying).staying+1 = f.staying+0 := total_set Sharer.stays .copying hi
      have h2 : (f.move i .copying).leaving+0 = f.leaving+1 := total_set Sharer.leaves .copying hi
      have hrefs := h.refs
      have hstay := h.stays
      -- with nobody leaving the count itself shows a second holder
      have htwo : 2 ≤ f.staying := by rcases hu with hu | hu <;> omega
      exact ⟨by change f.refCount = _; omega,h.small,by omega,h.kept⟩
    · simp only [Step.step,if_neg hc]
      exact h.move hi le_rfl rfl
  | makeWritable i => exact h.move hr le_rfl rfl
  | giveUp i => exact h.move hr (Nat.zero_le _) rfl
  | setEntry i => exact h.move hr le_rfl rfl
  | decRef i =>
    have hi : f.sharers[i]? = some .switched := hr
    have h1 : (f.move i .moved).staying+0 = f.staying+0 := total_set Sharer.stays .moved hi
    have h2 : (f.move i .moved).leaving+1 = f.leaving+0 := total_set Sharer.leaves .moved hi
    have hrefs := h.refs
    have hsmall := h.small
    have hdec : f.decRef = {f with refCount := f.refCount-1} :=
      if_pos ⟨by omega,by omega⟩
    simp only [Step.step,hdec]
    refine ⟨?_,?_,?_,h.kept⟩
    · change f.refCount-1 = (f.move i .moved).staying+(f.move i .moved).leaving
      omega
    · change f.refCount-1 < refSaturated
      omega
    · change 0 < (f.move i .moved).staying
      have := h.stays
      omega

lemma total_replicate (w : Sharer → ℕ) (n : ℕ) (p : Sharer) :
    total w (List.replicate n p) = n*w p := by
  simp [total]

lemma start_counted {n : ℕ} (hn : 0 < n) (hs : n < refSaturated) : Counted (Frame.start n) := by
  have hmin : min n refSaturated = n := min_eq_left hs.le
  refine ⟨?_,by simpa [Frame.start,hmin] using hs,?_,rfl,rfl⟩
  · simp [Frame.start,Frame.staying,Frame.leaving,total_replicate,hmin,Sharer.stays,Sharer.leaves]
  · simpa [Frame.start,Frame.staying,total_replicate,Sharer.stays] using hn

/-- In every interleaving without such a race the count is the number of
holders, some address space goes on mapping the frame, and the frame is not
freed; so it is never freed while mapped, nor left behind by all. -/
theorem reached_frame_kept (n : ℕ) (hn : 0 < n) (hs : n < refSaturated) (f : Frame)
    (h : Reaches (Guarded (fun f c => Step.ready f c ∧ Step.unraced f c) Step.step) (Frame.start n) f) :
    f.refCount = f.staying+f.leaving ∧ (∃ p ∈ f.sharers, p.maps) ∧
    ((∃ p ∈ f.sharers, p.maps) → f.free = false) ∧
    ((∀ p ∈ f.sharers, p = .moved) → f.refCount = 0 ∧ f.free = true ∧ f.freed = 1) := by
  have hc : Counted f := by
    refine invariant (I := Counted) ?_ h (start_counted hn hs)
    rintro s c t hs' ⟨⟨hr,hu⟩,rfl⟩
    exact step_counted hs' c hr hu
  have hex : ∃ p ∈ f.sharers, p.stays ≠ 0 := by
    by_contra hno
    have hz : f.staying = 0 := by
      refine List.sum_eq_zero ?_
      intro x hx
      obtain ⟨p,hp,rfl⟩ := List.mem_map.mp hx
      exact not_not.mp (fun hne => hno ⟨p,hp,hne⟩)
    have := hc.stays
    omega
  obtain ⟨p,hp,hpm⟩ := hex
  have hmaps : p.maps = true := by cases p <;> simp_all [Sharer.stays, Sharer.maps]
  refine ⟨hc.refs,⟨p,hp,hmaps⟩,fun _ => hc.kept.1,fun hall => ?_⟩
  rw [hall p hp] at hmaps
  exact absurd hmaps (by simp [Sharer.maps])

instance (f : Frame) (c : Step) : Decidable (c.ready f) := by
  cases c <;> dsimp only [Step.ready] <;> infer_instance

instance (f : Frame) (c : Step) : Decidable (c.unraced f) := by
  cases c <;> dsimp only [Step.unraced] <;> infer_instance

/-- Three sharers; two leave, the second while the first is still leaving, and
the last keeps the frame. -/
def leaveTwo : List Step :=
  [.getRefCount 0,.getRefCount 1,.setEntry 1,.setEntry 0,.decRef 0,.decRef 1,.getRefCount 2,
   .makeWritable 2]

theorem reached_frame_kept_leaveTwo : (run Step.step (Frame.start 3) leaveTwo).refCount = 1 ∧
    ∃ p ∈ (run Step.step (Frame.start 3) leaveTwo).sharers, p.maps := by
  have ha : Admissible (fun f c => Step.ready f c ∧ Step.unraced f c) Step.step (Frame.start 3)
      leaveTwo := by decide
  have h := reached_frame_kept 3 (by decide) (by decide) _ (run_reaches (Reaches.start _ _) ha)
  exact ⟨by decide,h.2.1⟩

/-- Both sharers read a count of two and leave: the frame has no reference and
no entry, and it is not free. -/
def leaveBoth : List Step :=
  [.getRefCount 0,.getRefCount 1,.setEntry 0,.decRef 0,.setEntry 1,.decRef 1]

theorem both_leave_frame_leaks : Admissible Step.ready Step.step (Frame.start 2) leaveBoth ∧
    (∀ p ∈ (run Step.step (Frame.start 2) leaveBoth).sharers, p = .moved) ∧
    (run Step.step (Frame.start 2) leaveBoth).refCount = 0 ∧
    (run Step.step (Frame.start 2) leaveBoth).free = false ∧
    (run Step.step (Frame.start 2) leaveBoth).freed = 0 := by
  decide

end MoQiOS.Cow
