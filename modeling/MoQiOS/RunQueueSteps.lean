import MoQiOS.RunQueue

/-!
# Run queues as lists

`Holds q l` says that the ring of `q` keeps exactly the entries of `l`, oldest
first. Every operation on the ring is an operation on the list.
-/

namespace MoQiOS.RunQueue
open Function List Nat

variable {τ : Type*}

structure Holds (q : PerCpuRunQueue τ) (l : List (Entry τ)) : Prop where
  count : q.nrRunning = l.length
  fits : l.length ≤ queueSize
  tail : q.tail < 2^32
  head : q.head = (q.tail+l.length)%2^32
  cells : ∀ i (h : i < l.length), q.tasks (q.slot i) = some l[i]

lemma fresh_holds (cpuId : ℕ) : Holds (fresh cpuId : PerCpuRunQueue τ) [] :=
  ⟨rfl,Nat.zero_le _,Nat.two_pow_pos 32,rfl,nofun⟩

variable {q : PerCpuRunQueue τ} {l : List (Entry τ)} {e : Entry τ}

lemma Holds.unique {l' : List (Entry τ)} (h : Holds q l) (h' : Holds q l') : l = l' := by
  have hlen : l.length = l'.length := h.count.symm.trans h'.count
  apply ext_getElem hlen
  intro i hi hi'
  exact Option.mem_unique (h.cells i hi) (h'.cells i hi')

lemma Holds.counters (h : Holds q l) :
    q.nrRunning = (q.head+(2^32-q.tail))%2^32 ∧ q.nrRunning ≤ 256 := by
  have ht := h.tail
  have hf := h.fits
  have hh := h.head
  have hc := h.count
  simp only [queueSize] at hf
  omega

lemma slot_ne (q : PerCpuRunQueue τ) {i j : ℕ} (hi : i < queueSize) (hj : j < queueSize)
    (hne : i ≠ j) : q.slot i ≠ q.slot j := by
  simp only [PerCpuRunQueue.slot,queueSize] at *
  omega

lemma Holds.head_slot (h : Holds q l) : q.head%queueSize = q.slot l.length := by
  rw [h.head]
  rfl

lemma Holds.tail_slot (h : Holds q l) : q.tail%queueSize = q.slot 0 := by
  rw [PerCpuRunQueue.slot,Nat.add_zero,mod_eq_of_lt h.tail]

lemma Holds.insert (h : Holds q l) (hroom : l.length < queueSize) (e : Entry τ) :
    Holds (q.insert e) (l++[e]) := by
  have hsize : queueSize = 256 := rfl
  constructor
  · simp only [PerCpuRunQueue.insert,h.count,length_append,length_singleton]
    omega
  · simp only [length_append,length_singleton]
    omega
  · exact h.tail
  · simp only [PerCpuRunQueue.insert,h.head,length_append,length_singleton,
      mod_add_mod,Nat.add_assoc]
  · intro i hi
    simp only [length_append,length_singleton] at hi
    change update q.tasks (q.head%queueSize) (some e) (q.slot i) = _
    rw [h.head_slot]
    by_cases hlast : i = l.length
    · subst hlast
      rw [update_self,getElem_concat_length rfl]
    · have hlt : i < l.length := by omega
      rw [update_of_ne (slot_ne q (by omega) hroom hlast),h.cells i hlt,getElem_append_left hlt]

lemma Holds.oldest (h : Holds q (e::l)) : q.tasks (q.tail%queueSize) = some e := by
  rw [h.tail_slot]
  exact h.cells 0 (zero_lt_succ _)

lemma Holds.advance (h : Holds q (e::l)) : Holds q.advance l := by
  have hsize : queueSize = 256 := rfl
  have hc := h.count
  have hf := h.fits
  simp only [length_cons] at hc hf
  have hslot : ∀ i, q.advance.slot i = q.slot (i+1) := by
    intro i
    simp only [PerCpuRunQueue.slot,PerCpuRunQueue.advance,mod_add_mod]
    rw [Nat.add_assoc,Nat.add_comm 1 i]
  constructor
  · simp only [PerCpuRunQueue.advance,hc]
    omega
  · omega
  · exact mod_lt _ (by decide)
  · simp only [PerCpuRunQueue.advance,h.head,length_cons,mod_add_mod]
    omega
  · intro i hi
    rw [hslot]
    change update q.tasks (q.tail%queueSize) none (q.slot (i+1)) = _
    rw [h.tail_slot,update_of_ne (slot_ne q (by omega) (by omega) (by omega)),
      h.cells (i+1) (succ_lt_succ hi)]
    rfl

lemma Holds.any_eq (h : Holds q l) (p : Entry τ → Bool) :
    (List.range q.nrRunning).any (fun i => (q.tasks (q.slot i)).any p) = l.any p := by
  rw [h.count,Bool.eq_iff_iff,any_eq_true,any_eq_true]
  constructor
  · rintro ⟨i,hi,hp⟩
    rw [mem_range] at hi
    rw [h.cells i hi] at hp
    exact ⟨l[i],getElem_mem hi,hp⟩
  · rintro ⟨x,hx,hp⟩
    obtain ⟨i,hi,rfl⟩ := mem_iff_getElem.mp hx
    refine ⟨i,mem_range.mpr hi,?_⟩
    rw [h.cells i hi]
    exact hp

section
variable [DecidableEq τ] (info : τ → Task)

def sameEntry (t : τ) (e : Entry τ) : Bool := e.task = t && e.incarnation = (info t).incarnation

lemma Holds.push_eq (h : Holds q l) (t : τ) :
    push info q t = if l.any (sameEntry info t) then (true,q)
      else if l.length ≥ queueSize then (false,q)
      else (true,{q.insert ⟨t,(info t).incarnation,q.pushes⟩ with pushes := q.pushes+1}) := by
  have hany := h.any_eq (sameEntry info t)
  rw [push,← h.count,← hany]
  rfl

def pushed (q : PerCpuRunQueue τ) (l : List (Entry τ)) (t : τ) : List (Entry τ) :=
  if l.any (sameEntry info t) ∨ l.length ≥ queueSize then l
  else l++[⟨t,(info t).incarnation,q.pushes⟩]

lemma Holds.push (h : Holds q l) (t : τ) : Holds (push info q t).2 (pushed info q l t) := by
  rw [h.push_eq info t,pushed]
  by_cases ha : l.any (sameEntry info t)
  · rw [if_pos ha,if_pos (.inl ha)]
    exact h
  by_cases hfull : l.length ≥ queueSize
  · rw [if_neg ha,if_pos hfull,if_pos (.inr hfull)]
    exact h
  rw [if_neg ha,if_neg hfull,if_neg (not_or.mpr ⟨ha,hfull⟩)]
  have hin := h.insert (Nat.lt_of_not_le hfull) ⟨t,(info t).incarnation,q.pushes⟩
  exact ⟨hin.count,hin.fits,hin.tail,hin.head,hin.cells⟩

end

section
variable (info : τ → Task)

/-- What a pop leaves: everything behind the entry it returns. -/
def popped : List (Entry τ) → Option (Entry τ)×List (Entry τ)
  | [] => (none,[])
  | e::l => if tokenMatches info e then (some e,l) else popped l

lemma Holds.popLoop (h : Holds q l) : (popLoop info l.length q).1 = (popped info l).1 ∧
      Holds (popLoop info l.length q).2 (popped info l).2 := by
  induction l generalizing q with
  | nil => exact ⟨rfl,h⟩
  | cons e l ih =>
    have hpos : q.nrRunning ≠ 0 := by
      rw [h.count]
      exact succ_ne_zero _
    rw [length_cons,RunQueue.popLoop,if_neg hpos,h.oldest,popped]
    dsimp only
    by_cases hm : tokenMatches info e
    · rw [if_pos hm,if_pos hm]
      exact ⟨rfl,h.advance⟩
    · rw [if_neg hm,if_neg hm]
      exact ih h.advance

lemma Holds.pop (h : Holds q l) :
    (pop info q).1 = (popped info l).1 ∧ Holds (pop info q).2 (popped info l).2 := by
  rw [RunQueue.pop,h.count]
  exact h.popLoop info

/-- After the first `r` entries: those kept stand at the front in their order
and the unread ones are untouched. -/
structure Purged (q : PerCpuRunQueue τ) (l : List (Entry τ)) (r : ℕ)
    (st : (ℕ → Option (Entry τ))×ℕ) : Prop where
  kept : st.2 = ((l.take r).filter (tokenMatches info)).length
  front : ∀ i (h : i < ((l.take r).filter (tokenMatches info)).length),
    st.1 (q.slot i) = some ((l.take r).filter (tokenMatches info))[i]
  unread : ∀ i (h : i < l.length), r ≤ i → st.1 (q.slot i) = some l[i]

variable {info}

variable (info) in
lemma kept_le (l : List (Entry τ)) (r : ℕ) : ((l.take r).filter (tokenMatches info)).length ≤ r :=
  (length_filter_le _ _).trans (length_take_le _ _)

variable {st : (ℕ → Option (Entry τ))×ℕ}

variable {r : ℕ}

lemma purgeStep_stale {e : Entry τ}
    (hread : st.1 (q.slot r) = some e) (hm : tokenMatches info e = false) :
    purgeStep info q st r = (update st.1 (q.slot r) none,st.2) := by
  rw [purgeStep,hread]
  dsimp only
  rw [hm,Bool.not_false,if_pos rfl]

/-- A matching entry is written at the front. Its old slot is cleared unless the
two are the same. -/
lemma purgeStep_matching {e : Entry τ}
    (hread : st.1 (q.slot r) = some e) (hm : tokenMatches info e) (hkept : st.2 < queueSize)
    (hr : r < queueSize) :
    (purgeStep info q st r).2 = st.2+1 ∧ ∀ i < queueSize, (purgeStep info q st r).1 (q.slot i) =
      if i = st.2 then some e else if i = r then none else st.1 (q.slot i) := by
  rw [purgeStep,hread]
  dsimp only
  rw [hm,Bool.not_true,if_neg Bool.false_ne_true]
  refine ⟨rfl,fun i hi => ?_⟩
  dsimp only
  by_cases hsame : st.2 = r
  · rw [hsame,if_neg (not_not.mpr rfl)]
    by_cases hir : i = r
    · rw [hir,update_self,if_pos rfl]
    · rw [update_of_ne (slot_ne q hi hr hir),if_neg hir,if_neg hir]
  rw [if_pos (slot_ne q hkept hr hsame)]
  by_cases hir : i = r
  · rw [hir,update_self,if_neg (Ne.symm hsame),if_pos rfl]
  rw [update_of_ne (slot_ne q hi hr hir)]
  by_cases hik : i = st.2
  · rw [hik,update_self,if_pos rfl]
  · rw [update_of_ne (slot_ne q hi hkept hik),if_neg hik,if_neg hir]

lemma purgeStep_purged (hfit : l.length ≤ queueSize) (hr : r < l.length)
    (h : Purged info q l r st) : Purged info q l (r+1) (purgeStep info q st r) := by
  have hle := kept_le info l r
  have hread := h.unread r hr le_rfl
  have htake : l.take (r+1) = l.take r++[l[r]] := (take_concat_get' l r hr).symm
  by_cases hm : tokenMatches info l[r]
  · have hf : (l.take (r+1)).filter (tokenMatches info) =
        (l.take r).filter (tokenMatches info)++[l[r]] := by
      rw [htake,filter_append,filter_singleton,hm]
      rfl
    have hkept : st.2 < queueSize := by
      rw [h.kept]
      omega
    obtain ⟨hcount,hcell⟩ := purgeStep_matching hread hm hkept (by omega)
    constructor
    · rw [hcount,hf,length_append,← h.kept]
      rfl
    · intro i hi
      rw [hf,length_append,length_singleton] at hi
      rw [hcell i (by omega)]
      simp only [hf]
      by_cases hik : i = ((l.take r).filter (tokenMatches info)).length
      · rw [if_pos (hik.trans h.kept.symm),getElem_append_right (by omega)]
        simp [hik]
      have hlt : i < ((l.take r).filter (tokenMatches info)).length := by omega
      rw [if_neg (fun hc => hik (hc.trans h.kept)),if_neg (by omega),h.front i hlt,
        getElem_append_left hlt]
    · intro i hi hri
      rw [hcell i (by omega),if_neg (by rw [h.kept]; omega),if_neg (by omega)]
      exact h.unread i hi (by omega)
  · rw [Bool.not_eq_true] at hm
    have hf : (l.take (r+1)).filter (tokenMatches info) =
        (l.take r).filter (tokenMatches info) := by
      rw [htake,filter_append,filter_singleton,hm]
      exact append_nil _
    rw [purgeStep_stale hread hm]
    constructor
    · rw [hf]
      exact h.kept
    · intro i hi
      simp only [hf] at hi ⊢
      rw [update_of_ne (slot_ne q (by omega) (by omega) (by omega))]
      exact h.front i hi
    · intro i hi hri
      dsimp only
      rw [update_of_ne (slot_ne q (by omega) (by omega) (by omega))]
      exact h.unread i hi (by omega)

variable (info) in
lemma Holds.purged (h : Holds q l) (hr : r ≤ l.length) :
    Purged info q l r ((List.range r).foldl (purgeStep info q) (q.tasks,0)) := by
  induction r with
  | zero => exact ⟨rfl,nofun,fun i hi _ => h.cells i hi⟩
  | succ r ih =>
    rw [range_succ,foldl_append]
    exact purgeStep_purged h.fits hr (ih (le_of_succ_le hr))

variable (info) in
lemma Holds.purgeStaleLocked (h : Holds q l) :
    Holds (purgeStaleLocked info q) (l.filter (tokenMatches info)) := by
  have hp := h.purged info le_rfl
  have hkept := hp.kept
  have hfront := hp.front
  simp only [take_length] at hkept hfront
  constructor
  · exact (congrArg (fun n => ((List.range n).foldl (purgeStep info q) (q.tasks,0)).2) h.count).trans hkept
  · exact (length_filter_le _ _).trans h.fits
  · exact h.tail
  · change (q.tail+((List.range q.nrRunning).foldl (purgeStep info q) (q.tasks,0)).2)%2^32 = _
    rw [h.count,hkept]
    rfl
  · intro i hi
    change ((List.range q.nrRunning).foldl (purgeStep info q) (q.tasks,0)).1 (q.slot i) = _
    rw [h.count]
    exact hfront i hi

end

end MoQiOS.RunQueue
