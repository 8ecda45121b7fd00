import MoQiOS.EpollSystem

/-!
# A collection that runs alone

`collectEvents` from its first to its last look, with nothing else in between:
every enabled slot of the ready list whose resource is ready is reported while
there is room.
-/

namespace MoQiOS.Epoll
open Runs List Function

variable {ρ γ : Type*}

lemma add_reg (inst : Instance ρ) (i j : ℕ) :
    ((addToReadyListLocked inst i).items j).reg = (inst.items j).reg := by
  rw [add_items]
  split_ifs with hji
  · rw [hji]
  · rfl

lemma collectUpdate_reg (inst : Instance ρ) (i j : ℕ) (delivered : Bool) :
    ((collectUpdate inst i delivered).items j).reg = (inst.items j).reg := by
  by_cases hji : j = i
  · subst hji
    unfold collectUpdate
    dsimp only
    split_ifs <;> simp [set_items,add_reg]
  · rw [collectUpdate_other inst hji]

lemma take_reg (inst : Instance ρ) (j : ℕ) :
    ((collectSnapshot inst).1.items j).reg = (inst.items j).reg := by
  unfold collectSnapshot
  dsimp only
  split_ifs <;> rfl

section
variable [DecidableEq ρ] [DecidableEq γ] {s t : State ρ γ} {c : γ} {e i : ℕ} {k : Collection}

def looks (c : γ) : ℕ → List (Op ρ γ)
  | 0 => []
  | n+1 => .probe c true::.update c true::looks c n

/-- `t` is a state inside a collection of `c` that began in `s`. -/
structure Alone (s t : State ρ γ) (c : γ) (e : ℕ) (k : Collection) : Prop where
  running : t.running c = some k
  inst : k.inst = e
  final : k.final = none
  level : t.level = s.level
  valid : t.valid = s.valid
  pool : ∀ e', e' ≠ e → t.pool e' = s.pool e'
  regs : ∀ j, ((t.pool e).items j).reg = ((s.pool e).items j).reg

omit [DecidableEq ρ] [DecidableEq γ] in
lemma Alone.finalEvents (h : Alone s t c e k)
    (hself : ((s.pool e).items i).reg.target ≠ .epoll e) :
    finalEvents t ((t.pool e).items i).reg = finalEvents s ((s.pool e).items i).reg := by
  rw [h.regs]
  unfold Epoll.finalEvents computeCurrentEvents
  cases htarget : ((s.pool e).items i).reg.target with
  | resource r => rw [h.level]
  | epoll child =>
    have hne : child ≠ e := by
      rintro rfl
      exact hself htarget
    dsimp only
    rw [h.valid,h.pool child hne]

variable {rest : List ℕ} (hr : t.running c = some k)
include hr

lemma step_probe (ht : k.todo = i::rest)
    (hf : k.final = none) : step t (.probe c true) = probe t c k i rest true := by
  simp only [step,hr,ht,hf]

lemma step_update_none (hf : k.final = none) : step t (.update c true) = t := by
  simp only [step,hr,hf]
  split <;> trivial

lemma step_update (ht : k.todo = i::rest)
    {final : Events} (hf : k.final = some final) :
    step t (.update c true) = update t c k i rest final true := by
  simp only [step,hr,ht,hf]

omit hr

structure Looked (k k' : Collection) (x : Events×ℕ) : Prop where
  room : k'.maxOut = k.maxOut
  grows : ∀ y ∈ k.out, y ∈ k'.out
  length : k'.out.length ≤ k.out.length+1
  reports : x.1 ≠ 0 → k.out.length < k.maxOut → x ∈ k'.out

variable (h : Alone s t c e k)
include h

lemma Alone.look_drop (ht : k.todo = i::rest)
    (hz : Epoll.finalEvents t ((t.pool e).items i).reg = 0) (data : ℕ) :
    ∃ k', Alone s (step (step t (.probe c true)) (.update c true)) c e k' ∧ k'.todo = rest ∧
      Looked k k' (Epoll.finalEvents t ((t.pool e).items i).reg,data) := by
  obtain rfl := h.inst
  have hprobe : step t (.probe c true) = t.setRunning c (some {k with todo := rest}) := by
    rw [step_probe h.running ht h.final]
    unfold probe
    exact if_pos (.inr hz)
  have hrun : (t.setRunning c (some {k with todo := rest})).running c =
      some {k with todo := rest} := update_self _ _ _
  rw [hprobe,step_update_none hrun h.final]
  refine ⟨{k with todo := rest},⟨hrun,rfl,h.final,h.level,h.valid,h.pool,h.regs⟩,rfl,rfl,
    fun _ hy => hy,Nat.le_succ _,fun hn => absurd hz hn⟩

lemma Alone.look (ht : k.todo = i::rest) :
    ∃ k', Alone s (step (step t (.probe c true)) (.update c true)) c e k' ∧ k'.todo = rest ∧
      Looked k k' (Epoll.finalEvents t ((t.pool e).items i).reg,((t.pool e).items i).reg.data) := by
  by_cases hz : Epoll.finalEvents t ((t.pool e).items i).reg = 0
  · exact h.look_drop ht hz _
  obtain rfl := h.inst
  have hprobe : step t (.probe c true) = t.setRunning c
      (some {k with final := some (Epoll.finalEvents t ((t.pool k.inst).items i).reg)}) := by
    rw [step_probe h.running ht h.final]
    unfold probe
    apply if_neg
    rintro (hn | hn)
    · exact absurd hn (by decide)
    · exact hz hn
  have hrun : (t.setRunning c (some {k with
      final := some (Epoll.finalEvents t ((t.pool k.inst).items i).reg)})).running c =
      some {k with final := some (Epoll.finalEvents t ((t.pool k.inst).items i).reg)} :=
    update_self _ _ _
  rw [hprobe,step_update hrun ht rfl]
  refine ⟨_,⟨update_self _ _ _,rfl,rfl,h.level,h.valid,?_,?_⟩,rfl,rfl,?_,?_,?_⟩
  · intro e' he
    exact (update_of_ne he _ _).trans (h.pool e' he)
  · intro j
    change ((Function.update t.pool k.inst _ k.inst).items j).reg = _
    rw [update_self,collectUpdate_reg]
    exact h.regs j
  · intro y hy
    dsimp only
    split_ifs
    · exact mem_append_left _ hy
    · exact hy
  · dsimp only
    split_ifs
    · rw [length_append]
      exact le_rfl
    · exact Nat.le_succ _
  · intro _ hroom
    dsimp only
    rw [if_pos (decide_eq_true hroom)]
    exact mem_append_right _ (mem_singleton_self _)

/-- The looks at a whole snapshot keep what was reported and report every slot
that is ready. -/
lemma Alone.looks (hroom : k.out.length+k.todo.length ≤ k.maxOut)
    (hself : ((s.pool e).items i).reg.target ≠ .epoll e)
    (hready : Epoll.finalEvents s ((s.pool e).items i).reg ≠ 0) (hi : i ∈ k.todo ∨
      (Epoll.finalEvents s ((s.pool e).items i).reg,((s.pool e).items i).reg.data) ∈ k.out) :
    ∃ k', (run step t (looks c k.todo.length)).running c = some k' ∧
      (Epoll.finalEvents s ((s.pool e).items i).reg,((s.pool e).items i).reg.data) ∈ k'.out := by
  induction htodo : k.todo generalizing t k with
  | nil =>
    rw [htodo] at hi
    exact ⟨k,h.running,hi.resolve_left not_mem_nil⟩
  | cons j rest ih =>
    obtain ⟨k',hk,htodo',hl⟩ := h.look htodo
    have hlen : k.todo.length = rest.length+1 := by rw [htodo,length_cons]
    have hlen' := hl.length
    have hmax := hl.room
    have hnext := ih hk (by rw [htodo']; omega) ?_ htodo'
    · exact hnext
    rcases hi with hi | hi
    · rw [htodo] at hi
      rcases mem_cons.mp hi with rfl | hi
      · right
        have hrep := hl.reports
        rw [h.finalEvents hself,h.regs] at hrep
        exact hrep hready (by omega)
      · exact .inl (htodo' ▸ hi)
    · exact .inr (hl.grows _ hi)

omit h

/-- A collection that runs alone reports a queued item whose resource is ready
when it starts. -/
lemma collection_reports (hi : i ∈ (collectSnapshot (s.pool e)).2) {maxOut : ℕ}
    (hroom : (collectSnapshot (s.pool e)).2.length ≤ maxOut)
    (hself : ((s.pool e).items i).reg.target ≠ .epoll e)
    (hready : Epoll.finalEvents s ((s.pool e).items i).reg ≠ 0) :
    ∃ k, (run step s (.begin c e maxOut::looks c (collectSnapshot (s.pool e)).2.length)).running c =
        some k ∧
      (Epoll.finalEvents s ((s.pool e).items i).reg,((s.pool e).items i).reg.data) ∈ k.out := by
  have halone : Alone s (beginCollect s c e maxOut) c e
      ⟨e,(s.pool e).ready ≠ [],(collectSnapshot (s.pool e)).2,none,maxOut,[],false⟩ := by
    refine ⟨update_self _ _ _,rfl,rfl,rfl,rfl,?_,?_⟩
    · intro e' he
      exact update_of_ne he _ _
    · intro j
      change ((Function.update s.pool e _ e).items j).reg = _
      rw [update_self,take_reg]
  exact halone.looks (by simpa using hroom) hself hready (.inl hi)

end

end MoQiOS.Epoll
