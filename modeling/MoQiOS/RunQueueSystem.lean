import MoQiOS.RunQueueRuns

/-!
# Several run queues

Queues are pushed to, popped and stolen from in any order, and the task fields
may change between any two calls. What counts are the entries whose incarnation
is current at the call.
-/

namespace MoQiOS.RunQueue
open Runs Function List

variable {τ : Type*}

section
variable {info : τ → Task} {self target : PerCpuRunQueue τ} {own : List (Entry τ)}

lemma Holds.putBack {q : PerCpuRunQueue τ} {l : List (Entry τ)} (h : Holds q l)
    (hroom : l.length < queueSize) (e : Entry τ) : Holds (putBack q e) (l++[e]) := by
  rw [RunQueue.putBack,if_pos (by rw [h.count]; exact hroom)]
  exact h.insert hroom e

/-- What a steal has done: entries went from the victim's list to the end of
the thief's, all of them current and free to run there. -/
structure Stolen (info : τ → Task) (cpuId : ℕ) (own left left' moved : List (Entry τ))
    (self' target' : PerCpuRunQueue τ) : Prop where
  thief : Holds self' (own++moved)
  victim : Holds target' left'
  same : (left.filter (tokenMatches info)).Perm (left'.filter (tokenMatches info)++moved)
  free : ∀ e ∈ moved, tokenMatches info e ∧ pinnedElsewhere info cpuId e.task = false

lemma perm_putBack (info : τ → Task) (e : Entry τ) (l : List (Entry τ)) :
    ((e::l).filter (tokenMatches info)).Perm ((l++[e]).filter (tokenMatches info)) :=
  (show ([e]++l).Perm (l++[e]) from perm_append_comm).filter _

variable {left : List (Entry τ)}

variable (info)

lemma Holds.steals_none (hs : Holds self own) (ht : Holds target left) :
    Stolen info self.cpuId own left left [] self target :=
  ⟨by rwa [append_nil],ht,by rw [append_nil],nofun⟩

lemma Holds.stealLoop (hs : Holds self own) (ht : Holds target left)
    (want fuel stolen attempts : ℕ) : ∃ left' moved, Stolen info self.cpuId own left left' moved
        (stealLoop info want fuel self target stolen attempts).2.1
        (stealLoop info want fuel self target stolen attempts).2.2 ∧
      (stealLoop info want fuel self target stolen attempts).1 = stolen+moved.length := by
  induction fuel generalizing self target own left stolen attempts with
  | zero =>
    exact ⟨left,[],hs.steals_none info ht,rfl⟩
  | succ fuel ih =>
    have hstop : ∃ left' moved, Stolen info self.cpuId own left left' moved self target ∧
        stolen = stolen+moved.length :=
      ⟨left,[],hs.steals_none info ht,rfl⟩
    rw [RunQueue.stealLoop]
    by_cases hc : (!(decide (stolen < want) && decide (attempts < target.nrRunning)) ||
        decide (target.nrRunning = 0)) = true
    · rw [if_pos hc]
      exact hstop
    rw [if_neg hc]
    rcases left with _ | ⟨e,left⟩
    · have hz : target.nrRunning = 0 := ht.count
      simp [hz] at hc
    have hfit := ht.fits
    have hroom : left.length < queueSize := hfit
    have hback : Holds (RunQueue.putBack target.advance e) (left++[e]) :=
      ht.advance.putBack hroom e
    rw [ht.oldest]
    dsimp only
    by_cases hm : tokenMatches info e
    · rw [hm,Bool.not_true,if_neg Bool.false_ne_true]
      by_cases hpin : pinnedElsewhere info self.cpuId e.task
      · rw [if_pos hpin]
        obtain ⟨left',moved,hst,hn⟩ := ih hs hback stolen (attempts+1)
        exact ⟨left',moved,⟨hst.thief,hst.victim,(perm_putBack info e left).trans hst.same,
          hst.free⟩,hn⟩
      rw [if_neg hpin]
      by_cases hfull : self.nrRunning ≥ queueSize
      · rw [if_pos hfull]
        dsimp only
        exact ⟨left++[e],[],⟨by rw [append_nil]; exact hs,hback,
          by rw [append_nil]; exact perm_putBack info e left, nofun⟩,rfl⟩
      rw [if_neg hfull]
      have hroom' : own.length < queueSize := by
        rw [← hs.count]
        exact Nat.lt_of_not_le hfull
      obtain ⟨left',moved,hst,hn⟩ := ih (hs.insert hroom' e) ht.advance (stolen+1) (attempts+1)
      refine ⟨left',e::moved,⟨?_,hst.victim,?_,?_⟩,?_⟩
      · have := hst.thief
        rwa [append_assoc] at this
      · rw [filter_cons_of_pos hm]
        exact (hst.same.cons e).trans perm_middle.symm
      · intro x hx
        rcases mem_cons.mp hx with rfl | hx
        · exact ⟨hm,Bool.eq_false_iff.mpr hpin⟩
        · exact hst.free x hx
      · rw [hn,length_cons]
        omega
    · rw [Bool.not_eq_true] at hm
      rw [hm,Bool.not_false,if_pos rfl]
      obtain ⟨left',moved,hst,hn⟩ := ih hs ht.advance stolen (attempts+1)
      refine ⟨left',moved,⟨hst.thief,hst.victim,?_,hst.free⟩,hn⟩
      rw [filter_cons_of_neg (by rw [hm]; exact Bool.false_ne_true)]
      exact hst.same

/-- The counter at the start is fuel enough: further rounds change nothing. -/
lemma Holds.stealLoop_enough (ht : Holds target left)
    {want fuel stolen attempts : ℕ} (hf : left.length ≤ attempts+fuel) :
    RunQueue.stealLoop info want (fuel+1) self target stolen attempts =
      RunQueue.stealLoop info want fuel self target stolen attempts := by
  induction fuel generalizing self target left stolen attempts with
  | zero =>
    have hstop : ¬attempts < target.nrRunning := by
      rw [ht.count]
      omega
    simp [RunQueue.stealLoop,hstop]
  | succ fuel ih =>
    rw [RunQueue.stealLoop]
    conv_rhs => rw [RunQueue.stealLoop]
    rcases left with _ | ⟨e,left⟩
    · have hz : target.nrRunning = 0 := ht.count
      simp [hz]
    have hroom : left.length < queueSize := ht.fits
    have hback : Holds (RunQueue.putBack target.advance e) (left++[e]) :=
      ht.advance.putBack hroom e
    have hlen : (left++[e]).length ≤ attempts+1+fuel := by
      simp only [length_append,length_cons,length_nil] at hf ⊢
      omega
    have hlen' : left.length ≤ attempts+1+fuel := by
      simp only [length_cons] at hf
      omega
    rw [ht.oldest]
    dsimp only
    rw [ih ht.advance hlen',ih hback hlen,ih ht.advance hlen']

lemma Holds.stealHalf (hs : Holds self own) (ht : Holds target left) :
    ∃ left' moved, Stolen info self.cpuId own left left' moved (stealHalf info self target).2.1
        (stealHalf info self target).2.2 ∧ (stealHalf info self target).1 = moved.length := by
  have hstop : ∃ left' moved, Stolen info self.cpuId own left left' moved self target ∧
      0 = moved.length :=
    ⟨left,[],hs.steals_none info ht,rfl⟩
  unfold RunQueue.stealHalf
  split_ifs with h1 h2
  · exact hstop
  · exact hstop
  · have h := hs.stealLoop info ht (target.nrRunning/2) target.nrRunning 0 0
    simpa only [Nat.zero_add] using h

end

lemma popped_perm (info : τ → Task) (l : List (Entry τ)) :
    match (popped info l).1 with
    | none => l.filter (tokenMatches info) = [] ∧ (popped info l).2 = []
    | some e => l.filter (tokenMatches info) = e::(popped info l).2.filter (tokenMatches info) := by
  induction l with
  | nil => exact ⟨rfl,rfl⟩
  | cons e l ih =>
    by_cases hm : tokenMatches info e
    · rw [popped,if_pos hm]
      exact filter_cons_of_pos hm
    · rw [popped,if_neg hm,filter_cons_of_neg hm]
      exact ih

def current (info : τ → Task) (q : PerCpuRunQueue τ) : Multiset (Entry τ) :=
  ↑(q.entries.filter (tokenMatches info))

lemma Holds.current_eq {q : PerCpuRunQueue τ} {l : List (Entry τ)} (h : Holds q l)
    (info : τ → Task) : current info q = ↑(l.filter (tokenMatches info)) := by
  rw [current,h.entries_eq]

lemma update_other {ι α : Type*} [DecidableEq ι] (s : ι → α) (i : ι) (x : α) :
    ∀ k, k ≠ i → update s i x k = s k :=
  fun _ hk => update_of_ne hk x s

def Sound {ι : Type*} (s : ι → PerCpuRunQueue τ) : Prop := ∀ i, ∃ l, Holds (s i) l

lemma Sound.update {ι : Type*} [DecidableEq ι] {s : ι → PerCpuRunQueue τ} (h : Sound s) (i : ι)
    {q : PerCpuRunQueue τ} {l : List (Entry τ)} (hq : Holds q l) : Sound (update s i q) := by
  intro k
  by_cases hk : k = i
  · subst hk
    rw [update_self]
    exact ⟨l,hq⟩
  · rw [update_of_ne hk]
    exact h k

section
variable {ι : Type*} [DecidableEq ι] [DecidableEq τ]

inductive Call (ι τ : Type*) where
  | push (i : ι) (t : τ)
  | pop (i : ι)
  | popRtAware (i : ι)
  | stealHalf (thief victim : ι)

def perform (s : ι → PerCpuRunQueue τ) (info : τ → Task) : Call ι τ → ι → PerCpuRunQueue τ
  | .push i t => update s i (push info (s i) t).2
  | .pop i => update s i (pop info (s i)).2
  | .popRtAware i => update s i (popRtAware info (s i)).2
  | .stealHalf i j =>
    update (update s i (stealHalf info (s i) (s j)).2.1) j
      (stealHalf info (s i) (s j)).2.2

def Called (s : ι → PerCpuRunQueue τ) (c : (τ → Task)×Call ι τ) (s' : ι → PerCpuRunQueue τ) :
    Prop :=
  s' = perform s c.1 c.2

/-- How a call may change the current entries of the queues. -/
def Accounted (s : ι → PerCpuRunQueue τ) (info : τ → Task) : Call ι τ → Prop
  | .push i t =>
    (∀ k, k ≠ i → perform s info (.push i t) k = s k) ∧
    if (∃ e ∈ (s i).entries, e.task = t ∧ e.incarnation = (info t).incarnation) ∨
        256 ≤ (s i).nrRunning then perform s info (.push i t) i = s i
    else current info (perform s info (.push i t) i) =
      ⟨t,(info t).incarnation,(s i).pushes⟩ ::ₘ current info (s i)
  | .pop i =>
    (∀ k, k ≠ i → perform s info (.pop i) k = s k) ∧
    match (pop info (s i)).1 with
    | none => current info (s i) = 0 ∧ current info (perform s info (.pop i) i) = 0
    | some e => current info (s i) = e ::ₘ current info (perform s info (.pop i) i)
  | .popRtAware i =>
    (∀ k, k ≠ i → perform s info (.popRtAware i) k = s k) ∧
    match (popRtAware info (s i)).1 with
    | none => current info (s i) = 0 ∧ current info (perform s info (.popRtAware i) i) = 0
    | some e => current info (s i) = e ::ₘ current info (perform s info (.popRtAware i) i)
  | .stealHalf i j =>
    (∀ k, k ≠ i → k ≠ j → perform s info (.stealHalf i j) k = s k) ∧
    ∃ moved : Multiset (Entry τ),
      current info (perform s info (.stealHalf i j) i) = current info (s i)+moved ∧
      current info (s j) = current info (perform s info (.stealHalf i j) j)+moved ∧
      Multiset.card moved = (stealHalf info (s i) (s j)).1 ∧
      ∀ e ∈ moved, pinnedElsewhere info (s i).cpuId e.task = false

variable {s : ι → PerCpuRunQueue τ} {info : τ → Task}

lemma push_accounted {i : ι} {l : List (Entry τ)} (h : Holds (s i) l) (t : τ) :
    Accounted s info (.push i t) := by
  refine ⟨update_other s i _,?_⟩
  have hself : perform s info (.push i t) i = (push info (s i) t).2 := update_self ..
  have hcond : ((∃ e ∈ (s i).entries, e.task = t ∧ e.incarnation = (info t).incarnation) ∨
      256 ≤ (s i).nrRunning) ↔ (l.any (sameEntry info t) = true ∨ l.length ≥ queueSize) := by
    rw [h.entries_eq,h.count,any_eq_true]
    simp only [sameEntry,Bool.and_eq_true,decide_eq_true_eq]
    rfl
  have hnew := h.push info t
  rw [hself]
  split_ifs with hc
  · rw [hcond] at hc
    rw [h.push_eq info t]
    rcases hc with hc | hc
    · rw [if_pos hc]
    · rw [if_pos hc]
      split_ifs <;> rfl
  rw [hcond] at hc
  rw [pushed,if_neg hc] at hnew
  rw [hnew.current_eq,h.current_eq,filter_append,filter_singleton]
  have hm : tokenMatches info ⟨t,(info t).incarnation,(s i).pushes⟩ = true := by
    simp [tokenMatches]
  rw [hm,← Multiset.coe_add,add_comm]
  rfl

lemma pop_accounted {i : ι} {l : List (Entry τ)} (h : Holds (s i) l) :
    Accounted s info (.pop i) := by
  refine ⟨update_other s i _,?_⟩
  have hself : perform s info (.pop i) i = (pop info (s i)).2 := update_self ..
  obtain ⟨hres,hrest⟩ := h.pop info
  have hperm := popped_perm info l
  rw [hself,hres,hrest.current_eq,h.current_eq]
  cases hp : (popped info l).1 with
  | none =>
    rw [hp] at hperm
    rw [hperm.1,hperm.2]
    exact ⟨rfl,rfl⟩
  | some e =>
    rw [hp] at hperm
    rw [hperm]
    rfl

lemma popRtAware_accounted {i : ι} {l : List (Entry τ)} (h : Holds (s i) l) :
    Accounted s info (.popRtAware i) := by
  refine ⟨update_other s i _,?_⟩
  have hself : perform s info (.popRtAware i) i = (popRtAware info (s i)).2 :=
    update_self ..
  rw [hself,h.current_eq]
  by_cases he : l.filter (tokenMatches info) = []
  · obtain ⟨hnone,hrest⟩ := h.popRtAware_none info he
    rw [hnone,hrest.current_eq,he]
    exact ⟨rfl,rfl⟩
  obtain ⟨p,hp,-,hsome,hrest⟩ := h.popRtAware info he
  have hperm := without_perm hp
  have hall : ∀ x ∈ without (l.filter (tokenMatches info)) p, tokenMatches info x :=
    fun x hx => (mem_filter.mp (hperm.symm.subset (mem_cons_of_mem _ hx))).2
  rw [hsome,hrest.current_eq,filter_eq_self.mpr hall]
  exact Multiset.coe_eq_coe.mpr hperm

lemma stealHalf_accounted {i j : ι} {own left : List (Entry τ)} (hs : Holds (s i) own)
    (ht : Holds (s j) left) : Accounted s info (.stealHalf i j) := by
  refine ⟨fun k hi hj => (update_other _ j _ k hj).trans (update_other s i _ k hi),?_⟩
  by_cases hij : i = j
  · subst hij
    have hnone : stealHalf info (s i) (s i) = (0,s i,s i) := if_pos rfl
    have hsame : perform s info (.stealHalf i i) i = s i := by
      simp [perform,hnone]
    refine ⟨0,?_,?_,?_,fun _ he => absurd he (Multiset.notMem_zero _)⟩
    · rw [hsame,add_zero]
    · rw [hsame,add_zero]
    · rw [hnone]
      rfl
  obtain ⟨left',moved,hst,hn⟩ := hs.stealHalf info ht
  have hi : perform s info (.stealHalf i j) i = (stealHalf info (s i) (s j)).2.1 :=
    (update_other _ j _ i hij).trans (update_self ..)
  have hj : perform s info (.stealHalf i j) j = (stealHalf info (s i) (s j)).2.2 :=
    update_self ..
  have hall : moved.filter (tokenMatches info) = moved :=
    filter_eq_self.mpr (fun e he => (hst.free e he).1)
  refine ⟨moved,?_,?_,hn.symm,fun e he => (hst.free e he).2⟩
  · rw [hi,hst.thief.current_eq,hs.current_eq,filter_append,hall]
    rfl
  · rw [hj,hst.victim.current_eq,ht.current_eq,Multiset.coe_add]
    exact Multiset.coe_eq_coe.mpr hst.same

lemma Sound.call (h : Sound s) (info : τ → Task) (c : Call ι τ) :
    Sound (perform s info c) ∧ Accounted s info c := by
  cases c with
  | push i t =>
    obtain ⟨l,hl⟩ := h i
    exact ⟨h.update i (hl.push info t),push_accounted hl t⟩
  | pop i =>
    obtain ⟨l,hl⟩ := h i
    exact ⟨h.update i (hl.pop info).2,pop_accounted hl⟩
  | popRtAware i =>
    obtain ⟨l,hl⟩ := h i
    refine ⟨?_,popRtAware_accounted hl⟩
    by_cases he : l.filter (tokenMatches info) = []
    · exact h.update i (hl.popRtAware_none info he).2
    · obtain ⟨p,_,_,_,hrest⟩ := hl.popRtAware info he
      exact h.update i hrest
  | stealHalf i j =>
    obtain ⟨own,hown⟩ := h i
    obtain ⟨left,hleft⟩ := h j
    obtain ⟨left',moved,hst,-⟩ := hown.stealHalf info hleft
    exact ⟨(h.update i hst.thief).update j hst.victim,stealHalf_accounted hown hleft⟩

theorem run_queues_lose_and_duplicate_nothing {cpuId : ι → ℕ}
    (h : Reaches Called (fun i => fresh (cpuId i)) s) :
    (∀ i, (s i).nrRunning = ((s i).head+(2^32-(s i).tail))%2^32 ∧ (s i).nrRunning ≤ 256) ∧
    ∀ (info : τ → Task) (c : Call ι τ), Accounted s info c := by
  have hsound : Sound s := invariant (I := Sound)
    (fun s c t hi hn => by obtain rfl := hn; exact (hi.call c.1 c.2).1) h
    (fun i => ⟨[],fresh_holds (cpuId i)⟩)
  refine ⟨fun i => ?_,fun info c => (hsound.call info c).2⟩
  obtain ⟨l,hl⟩ := hsound i
  exact hl.counters

end

def bothQueues : Bool → PerCpuRunQueue ℕ :=
  perform (perform (fun i => fresh i.toNat) mixed (.push true 0)) mixed (.push true 1)

theorem run_queues_lose_and_duplicate_nothing_bothQueues :
    (stealHalf mixed (bothQueues false) (bothQueues true)).1 = 1 ∧
    Accounted bothQueues mixed (.stealHalf false true) := by
  have hr : Reaches Called (fun i => fresh i.toNat) bothQueues :=
    Reaches.snoc (c := (mixed,.push true 1)) (Reaches.snoc (c := (mixed,.push true 0))
      (Reaches.start _ _) rfl) rfl
  exact ⟨by decide,(run_queues_lose_and_duplicate_nothing hr).2 mixed _⟩

end MoQiOS.RunQueue
