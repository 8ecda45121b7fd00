import MoQiOS.EpollDelivery

/-!
# Edge-triggered items

A notification is suppressed for an edge-triggered item when the same events
were reported last. That is safe as long as every such item is queued or in the
snapshot of a running collection. A collection that finds the resource of the
item not ready drops it without taking the record back.
-/

namespace MoQiOS.Epoll
open Runs Function
set_option maxRecDepth 9000

variable {ρ γ : Type*}

def Item.edge (item : Item ρ) : Prop := item.reg.isEt = true ∧ item.isDisabled = false

/-- No collection drops an enabled edge-triggered item of its snapshot: it finds
the item registered and its resource ready. -/
def Delivering (s : State ρ γ) : Op ρ γ → Prop
  | .probe c found => ∀ k i rest, s.running c = some k → k.todo = i::rest →
    ((s.pool k.inst).items i).edge →
      found = true ∧ finalEvents s ((s.pool k.inst).items i).reg ≠ 0
  | .update c registered => ∀ k i rest, s.running c = some k → k.todo = i::rest →
    ((s.pool k.inst).items i).edge → registered = true
  | _ => True

def Gentle [DecidableEq ρ] [DecidableEq γ] : State ρ γ → Op ρ γ → State ρ γ → Prop :=
  Guarded (fun s c => Ready s c ∧ Delivering s c) step

def InSnapshot (running : γ → Option Collection) (e i : ℕ) : Prop :=
  ∃ c k, running c = some k ∧ k.inst = e ∧ i ∈ k.todo

def Inv (s : State ρ γ) : Prop := ∀ e, Armed (InSnapshot s.running e) (s.pool e)

lemma start_inv (regs : ℕ → ℕ → Registration ρ) (generation : ℕ → ℕ) (valid : List ℕ)
    (level : ρ → Events) : Inv (start regs generation valid level : State ρ γ) :=
  fun _ => ⟨fun _ h => absurd h Bool.false_ne_true,fun _ _ _ h => absurd rfl h⟩

lemma Inv.setInstance {s : State ρ γ} (h : Inv s) {e : ℕ} {inst : Instance ρ}
    (hi : Armed (InSnapshot s.running e) inst) (w : Option (Sweep ρ)) :
    Inv {s.setInstance e inst with sweep := w} := by
  intro e'
  change Armed _ (Function.update s.pool e inst e')
  by_cases he : e' = e
  · subst he
    rw [update_self]
    exact hi
  · rw [update_of_ne he]
    exact h e'

section
variable [DecidableEq γ] {running : γ → Option Collection} {c : γ} {k : Collection} {e j : ℕ}

lemma snapshot_replace (hc : running c = some k) (k' : Collection) (hinst : k'.inst = k.inst)
    (ht : e = k.inst → j ∈ k.todo → j ∈ k'.todo) (h : InSnapshot running e j) :
    InSnapshot (Function.update running c (some k')) e j := by
  obtain ⟨d,m,hd,he,hm⟩ := h
  by_cases hdc : d = c
  · subst hdc
    rw [hc] at hd
    obtain rfl := Option.some.inj hd
    exact ⟨d,k',update_self _ _ _,hinst.trans he,ht he.symm hm⟩
  · exact ⟨d,m,(update_of_ne hdc _ _).trans hd,he,hm⟩

lemma snapshot_other (hc : ∀ k, running c = some k → k.todo = []) (o : Option Collection)
    (h : InSnapshot running e j) : InSnapshot (Function.update running c o) e j := by
  obtain ⟨d,m,hd,he,hm⟩ := h
  have hdc : d ≠ c := by
    rintro rfl
    rw [hc m hd] at hm
    exact absurd hm List.not_mem_nil
  exact ⟨d,m,(update_of_ne hdc _ _).trans hd,he,hm⟩

end

section
variable [DecidableEq γ] {s : State ρ γ} {c : γ} {k : Collection} {i : ℕ} {rest : List ℕ}

lemma Inv.setRunning (h : Inv s) {o : Option Collection} (w : Option (Sweep ρ))
    (hk : ∀ e j, InSnapshot s.running e j → InSnapshot (Function.update s.running c o) e j) :
    Inv {s.setRunning c o with sweep := w} :=
  fun e => (h e).mono (hk e)

lemma Inv.beginCollect (h : Inv s) (hc : s.running c = none) (e maxOut : ℕ) :
    Inv (beginCollect s c e maxOut) := by
  have hnone : ∀ k, s.running c = some k → k.todo = [] := by
    intro k hk
    rw [hc] at hk
    exact absurd hk (by nofun)
  intro e'
  change Armed _ (Function.update s.pool e (collectSnapshot (s.pool e)).1 e')
  by_cases he : e' = e
  · subst he
    rw [update_self]
    apply (h e').take.mono
    rintro j (hj | hj)
    · exact snapshot_other hnone _ hj
    · exact ⟨c,_,update_self _ _ _,rfl,hj⟩
  · rw [update_of_ne he]
    exact (h e').mono (fun _ => snapshot_other hnone _)

lemma todo_rest (ht : k.todo = i::rest) {j : ℕ} (hji : j ≠ i) (hj : j ∈ k.todo) : j ∈ rest := by
  rw [ht] at hj
  exact (List.mem_cons.mp hj).resolve_left hji

variable (h : Inv s)
include h

lemma Inv.drop (hc : s.running c = some k) (ht : k.todo = i::rest)
    (hi : ((s.pool k.inst).items i).edge → False) (final : Option Events) :
    Inv (s.setRunning c (some {k with todo := rest, final := final})) := by
  intro e
  by_cases he : e = k.inst
  · subst he
    apply (h k.inst).forget (i := i)
    · intro j hji hj
      exact snapshot_replace hc _ rfl (fun _ hm => todo_rest ht hji hm) hj
    · intro het
      by_contra hen
      exact hi ⟨het,Bool.eq_false_iff.mpr hen⟩
  · apply (h e).mono
    intro j hj
    exact snapshot_replace hc _ rfl (fun hek => absurd hek he) hj

lemma Inv.probe (hc : s.running c = some k) (ht : k.todo = i::rest) {found : Bool}
    (hd : ((s.pool k.inst).items i).edge →
      found = true ∧ finalEvents s ((s.pool k.inst).items i).reg ≠ 0) :
    Inv (probe s c k i rest found) := by
  unfold Epoll.probe
  dsimp only
  split_ifs with hdrop
  · apply h.drop hc ht
    intro hedge
    obtain ⟨hf,hz⟩ := hd hedge
    rcases hdrop with hn | hn
    · rw [hf] at hn
      exact absurd hn (by simp)
    · exact hz hn
  · apply h.setRunning s.sweep
    intro e j hj
    exact snapshot_replace hc _ rfl (fun _ hm => hm) hj

lemma Inv.update (hc : s.running c = some k) (ht : k.todo = i::rest)
    (final : Events) {registered : Bool} (hd : ((s.pool k.inst).items i).edge → registered = true) :
    Inv (update s c k i rest final registered) := by
  unfold Epoll.update
  split_ifs with hreg
  · intro e
    change Armed _ (Function.update s.pool k.inst _ e)
    by_cases he : e = k.inst
    · subst he
      rw [update_self]
      apply (h k.inst).collectUpdate
      intro j hji hj
      exact snapshot_replace hc _ rfl (fun _ hm => todo_rest ht hji hm) hj
    · rw [update_of_ne he]
      apply (h e).mono
      intro j hj
      exact snapshot_replace hc _ rfl (fun hek => absurd hek he) hj
  · exact h.drop hc ht (fun hedge => hreg (hd hedge)) none

lemma Inv.leave (hc : s.running c = some k) (ht : k.todo = [])
    (w : Option (Sweep ρ)) : Inv {s.setRunning c none with sweep := w} := by
  apply h.setRunning w
  intro e j hj
  apply snapshot_other _ none hj
  intro k' hk
  rw [hc] at hk
  exact Option.some.inj hk ▸ ht

lemma Inv.endCollect (hc : s.running c = some k) (ht : k.todo = []) : Inv (endCollect s c k) := by
  unfold Epoll.endCollect
  split_ifs
  · apply h.setRunning s.sweep
    intro e j hj
    exact snapshot_replace hc _ rfl (fun _ hm => hm) hj
  · exact h.leave hc ht s.sweep

omit [DecidableEq γ] in
lemma Inv.advanceSweep [DecidableEq ρ] (w : Sweep ρ) : Inv (advanceSweep s w) := by
  cases w with
  | scan target ready todo newlyReady =>
    cases todo with
    | nil => exact h
    | cons e todo => exact h.setInstance ((h e).sweepInstance _) _
  | nested pending visited child =>
    cases child with
    | none =>
      simp only [Epoll.advanceSweep]
      split
      · exact h
      · split_ifs <;> exact h
    | some p =>
      obtain ⟨child,todo⟩ := p
      cases todo with
      | nil => exact h
      | cons parent todo => exact h.setInstance ((h parent).sweepInstance _) _
  | reset child generation todo =>
    cases todo with
    | nil => exact h
    | cons parent todo => exact h.setInstance ((h parent).reset child generation) _

lemma Inv.resetNested (hc : s.running c = some k) (ht : k.todo = []) :
    Inv (resetNestedEdgeState s c k) := by
  unfold resetNestedEdgeState
  split_ifs
  · exact h.leave hc ht s.sweep
  · exact h.leave hc ht _

lemma Inv.gentle [DecidableEq ρ] {s' : State ρ γ} {o : Op ρ γ}
    (hn : Gentle s o s') : Inv s' := by
  obtain ⟨⟨hr,hd⟩,rfl⟩ := hn
  cases o with
  | change r events => exact h
  | notify target ready => exact h
  | sweep =>
    simp only [step]
    split
    · exact h
    · exact h.advanceSweep _
  | begin c e maxOut => exact h.beginCollect (Option.isNone_iff_eq_none.mp hr) e maxOut
  | probe c found =>
    simp only [step]
    split
    · exact h
    next k hc =>
      split
      next i rest ht _ => exact h.probe hc ht (hd k i rest hc ht)
      · exact h
  | update c registered =>
    simp only [step]
    split
    · exact h
    next k hc =>
      split
      next i rest final ht _ => exact h.update hc ht final (hd k i rest hc ht)
      · exact h
  | finish c =>
    simp only [step]
    split
    · exact h
    next k hc =>
      split_ifs with ht
      · exact h.endCollect hc ht.1
      · exact h
  | reset c =>
    simp only [step]
    split
    · exact h
    next k hc =>
      split_ifs with ht
      · exact h.resetNested hc ht.1
      · exact h

omit h

def Kept (s : State ρ γ) (e i : ℕ) : Prop := i ∈ (s.pool e).ready ∨ InSnapshot s.running e i

omit [DecidableEq γ] in
lemma kept_setInstance {e : ℕ} {inst : Instance ρ} (w : Option (Sweep ρ))
    (h : i ∈ inst.ready ∨ InSnapshot s.running e i) :
    Kept {s.setInstance e inst with sweep := w} e i := by
  change i ∈ (Function.update s.pool e inst e).ready ∨ _
  rw [update_self]
  exact h

/-- An enabled edge-triggered item is queued or in a snapshot after the section
of a notification that matches it, and after the section that tells its
instance of a child that became ready. Whenever it is queued and its resource
is ready, a collection with room for the queue reports it. -/
theorem no_edge_lost [DecidableEq ρ] {regs : ℕ → ℕ → Registration ρ} {generation : ℕ → ℕ}
    {valid : List ℕ} {level : ρ → Events}
    (h : Reaches Gentle (start regs generation valid level) s) {e : ℕ} (hi : i < maxEpollItems)
    (hu : ((s.pool e).items i).reg.inUse = true) (hedge : ((s.pool e).items i).edge) :
    (∀ ready todo newlyReady,
      s.sweep = some (.scan ((s.pool e).items i).reg.target ready (e::todo) newlyReady) →
      notifyMatch ready ((s.pool e).items i).reg.interest ≠ 0 → Kept (step s .sweep) e i) ∧
    (∀ pending visited child todo,
      s.sweep = some (.nested pending visited (some (child,e::todo))) →
      ((s.pool e).items i).reg.target = .epoll child →
      ((s.pool e).items i).reg.targetGeneration = (s.pool child).generation →
      ((s.pool e).items i).reg.events &&& epollIn ≠ 0 → Kept (step s .sweep) e i) ∧
    (∀ c maxOut, i ∈ (s.pool e).ready → (s.pool e).ready.length ≤ maxOut →
      ((s.pool e).items i).reg.target ≠ .epoll e →
      finalEvents s ((s.pool e).items i).reg ≠ 0 →
      ∃ k, (run step s (.begin c e maxOut::looks c (collectSnapshot (s.pool e)).2.length)).running c =
          some k ∧
        (finalEvents s ((s.pool e).items i).reg,((s.pool e).items i).reg.data) ∈ k.out) := by
  have hinv : Inv s := invariant (I := Inv) (fun _ _ _ hi hn => hi.gentle hn) h (start_inv _ _ _ _)
  obtain ⟨het,hen⟩ := hedge
  refine ⟨?_,?_,?_⟩
  · intro ready todo newlyReady hs hm
    have hp : notified ((s.pool e).items i).reg.target ready ((s.pool e).items i).reg
        ((s.pool e).items i).isDisabled =
        some (notifyMatch ready ((s.pool e).items i).reg.interest) := by
      unfold notified
      rw [if_neg]
      rintro (hn | hn | hn | hn)
      · simp [hu] at hn
      · simp [hen] at hn
      · exact hn rfl
      · exact hm hn
    simp only [step, hs, advanceSweep, notifyInstance]
    exact kept_setInstance _ ((hinv e).swept _ hi hp hm het hen)
  · intro pending visited child todo hs ht hg hin
    have hp : childReady child (s.pool child).generation ((s.pool e).items i).reg
        ((s.pool e).items i).isDisabled = some epollIn := by
      unfold childReady
      rw [if_neg]
      rintro (hn | hn | hn | hn | hn)
      · simp [hu] at hn
      · simp [hen] at hn
      · exact hn ht
      · exact hn hg
      · exact hin hn
    simp only [step, hs, advanceSweep, propagateInstance]
    exact kept_setInstance _ ((hinv e).swept _ hi hp (by decide) het hen)
  · intro c maxOut hq hroom hself hready
    have hmem : i ∈ (collectSnapshot (s.pool e)).2 :=
      List.mem_filter.mpr ⟨hq,by rw [hen]; rfl⟩
    exact collection_reports hmem ((List.length_filter_le _ _).trans hroom) hself hready

end

def oneItem (e i : ℕ) : Registration Unit :=
  if e = 0 ∧ i = 0 then ⟨true,.resource (),0,epollIn ||| epollEt,7⟩ else ⟨false,.resource (),0,0,0⟩

def idle : State Unit Unit := start oneItem (fun _ => 0) [0] (fun _ => 0)

def told : List (Op Unit Unit) :=
  [.change () epollIn,.notify (.resource ()) epollIn,.sweep,.sweep,.sweep,.sweep,.sweep]

def drainedElsewhere : List (Op Unit Unit) :=
  [.change () 0,.begin () 0 8,.probe () true,.finish (),.reset (),.sweep]

def readyAgain : State Unit Unit :=
  run step idle (told++drainedElsewhere++[.change () epollIn,.notify (.resource ()) epollIn])

theorem second_edge_suppressed : Reaches Next idle readyAgain ∧
    readyAgain.sweep = some (.scan (.resource ()) epollIn [0] []) ∧
    readyAgain.level () = epollIn ∧ ((readyAgain.pool 0).items 0).reg.isEt = true ∧
    ((readyAgain.pool 0).items 0).isDisabled = false ∧
    0 ∉ ((step readyAgain .sweep).pool 0).ready ∧ (step readyAgain .sweep).running () = none := by
  refine ⟨run_reaches (.start _ _) (by decide),?_⟩
  decide

def toldTwice : State Unit Unit := run step idle (told++[.notify (.resource ()) epollIn])

theorem no_edge_lost_toldTwice :
    toldTwice.sweep = some (.scan ((toldTwice.pool 0).items 0).reg.target epollIn [0] []) ∧
    Kept (step toldTwice .sweep) 0 0 := by
  have hr : Reaches Gentle idle toldTwice := by
    apply run_reaches (.start _ _)
    exact ⟨⟨trivial,trivial⟩,⟨rfl,trivial⟩,⟨trivial,trivial⟩,⟨trivial,trivial⟩,⟨trivial,trivial⟩,
      ⟨trivial,trivial⟩,⟨trivial,trivial⟩,⟨by decide,trivial⟩,trivial⟩
  have hs : toldTwice.sweep =
      some (.scan ((toldTwice.pool 0).items 0).reg.target epollIn [0] []) := by decide
  exact ⟨hs,(no_edge_lost hr (by decide) (by decide)
    ⟨by decide,by decide⟩).1 epollIn [] [] hs (by decide)⟩

end MoQiOS.Epoll
