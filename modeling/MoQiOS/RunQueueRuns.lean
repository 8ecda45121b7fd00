import MoQiOS.RunQueueChoice

/-!
# Runs of the run queues

One queue: every pop returns an entry of the best grade. The oldest entry of a
grade comes first as long as no pop moves the oldest entry of the ring past an
entry of its own grade. Any number of queues: no current entry is lost or
duplicated.
-/

namespace MoQiOS.RunQueue
open Runs Scans List

variable {τ : Type*}

def PerCpuRunQueue.entries (q : PerCpuRunQueue τ) : List (Entry τ) :=
  (List.range q.nrRunning).filterMap (fun i => q.tasks (q.slot i))

lemma Holds.entries_eq {q : PerCpuRunQueue τ} {l : List (Entry τ)} (h : Holds q l) :
    q.entries = l := by
  have hmap : ∀ i ∈ List.range l.length, q.tasks (q.slot i) = l[i]? := by
    intro i hi
    rw [mem_range] at hi
    rw [h.cells i hi,getElem?_eq_getElem hi]
  rw [PerCpuRunQueue.entries,h.count,filterMap_congr hmap]
  apply ext_getElem?
  intro i
  clear h hmap
  induction l generalizing i with
  | nil => rfl
  | cons e l ih =>
    rw [length_cons,range_succ_eq_map,filterMap_cons_some (f := getElem? (e::l)) (b := e) rfl,
      filterMap_map]
    cases i with
    | zero => rfl
    | succ i => exact ih i

section
variable (info : τ → Task)

def gradeOf (e : Entry τ) : ℕ := grade (keyOf info e)

/-- Both realtime with the same key, or both normal. -/
def Peers (e e' : Entry τ) : Prop := gradeOf info e = gradeOf info e' ∧ gradeOf info e ≤ otherKeyBase

instance (e e' : Entry τ) : Decidable (Peers info e e') := inferInstanceAs (Decidable (_ ∧ _))

def Live (q : PerCpuRunQueue τ) (l : List (Entry τ)) : Prop :=
  Holds q l ∧ ∀ e ∈ l, tokenMatches info e

def Aged (l : List (Entry τ)) : Prop := l.Pairwise (fun a b => Peers info a b → a.stamp < b.stamp)

variable {info} {q : PerCpuRunQueue τ} {l : List (Entry τ)}

lemma popRtAware_live (hl : Live info q l) (hne : l ≠ []) : ∃ p, ∃ hp : p < l.length,
      FirstBest (fun i => some (grade (keyAt info l i))) l.length p (grade (keyAt info l p)) ∧
      (popRtAware info q).1 = some l[p] ∧ Holds (popRtAware info q).2 (without l p) := by
  have hfilter : l.filter (tokenMatches info) = l := filter_eq_self.mpr hl.2
  have h := hl.1.popRtAware info (by rw [hfilter]; exact hne)
  simpa only [hfilter] using h

lemma keyAt_getElem {i : ℕ} (hi : i < l.length) : grade (keyAt info l i) = gradeOf info l[i] := by
  rw [keyAt,getElem?_eq_getElem hi]
  rfl

section
variable {p : ℕ} (hp : p < l.length)
  (hb : FirstBest (fun i => some (grade (keyAt info l i))) l.length p (grade (keyAt info l p)))
include hb

lemma best_grade : ∀ e ∈ l, gradeOf info l[p] ≤ gradeOf info e := by
  intro e he
  obtain ⟨j,hj,rfl⟩ := mem_iff_getElem.mp he
  have := hb.least j hj _ rfl
  rwa [keyAt_getElem hp,keyAt_getElem hj] at this

lemma Aged.best_oldest (ha : Aged info l) :
    ∀ e ∈ l, Peers info l[p] e → e ≠ l[p] → l[p].stamp < e.stamp := by
  intro e he hpeer hne
  obtain ⟨j,hj,rfl⟩ := mem_iff_getElem.mp he
  rcases Nat.lt_trichotomy p j with hlt | rfl | hlt
  · exact pairwise_iff_getElem.mp ha p j hp hj hlt hpeer
  · exact absurd rfl hne
  have := hb.first j hlt _ rfl
  rw [keyAt_getElem hp,keyAt_getElem hj,hpeer.1] at this
  exact absurd this (lt_irrefl _)

end

lemma Peers.symm {e e' : Entry τ} (h : Peers info e e') : Peers info e' e :=
  ⟨h.1.symm,h.1 ▸ h.2⟩

lemma Aged.without (ha : Aged info l) {p : ℕ} (hp : p < l.length)
    (hgentle : ∀ d m r, l = d::(m++l[p]::r) → ∀ x ∈ m, ¬Peers info d x) :
    Aged info (without l p) := by
  rcases l with _ | ⟨d,rest⟩
  · exact absurd hp (Nat.not_lt_zero p)
  obtain ⟨hd,hrest⟩ := pairwise_cons.mp ha
  cases p with
  | zero => exact hrest
  | succ p =>
    have hp' : p < rest.length := Nat.lt_of_succ_lt_succ hp
    change Aged info (rest.set p d)
    have hsplit := set_eq_take_append_cons_drop (l := rest) (i := p) (a := d)
    rw [if_pos hp'] at hsplit
    have hwhole : rest = rest.take p++rest[p]::rest.drop (p+1) := by
      rw [← drop_eq_getElem_cons hp',take_append_drop]
    have hpass := hgentle d (rest.take p) (rest.drop (p+1)) (congrArg (d::·) hwhole)
    have hsub : (rest.take p++rest.drop (p+1)).Sublist rest := by
      conv => rhs; rw [hwhole]
      exact List.Sublist.append_left (sublist_cons_self _ _) _
    have hkeep := hrest.sublist hsub
    rw [pairwise_append] at hkeep
    rw [hsplit,Aged,pairwise_append]
    refine ⟨hkeep.1,pairwise_cons.mpr ⟨fun y hy => ?_,hkeep.2.1⟩,fun x hx y hy => ?_⟩
    · exact hd y (drop_subset _ _ hy)
    · rcases mem_cons.mp hy with rfl | hy
      · exact fun hpeer => absurd hpeer.symm (hpass x hx)
      · exact hkeep.2.2 x hx y hy

lemma popRtLoop_pushes (fuel : ℕ) (q : PerCpuRunQueue τ) :
    (popRtLoop info fuel q).2.pushes = q.pushes := by
  induction fuel generalizing q with
  | zero => rfl
  | succ fuel ih =>
    have hrest : ∀ (q : PerCpuRunQueue τ) b, (q.displace b).advance.pushes = q.pushes := by
      intro q b
      unfold PerCpuRunQueue.displace
      split_ifs <;> rfl
    rw [popRtLoop]
    dsimp only
    split_ifs with h0
    · rfl
    split
    · rw [ih,hrest]
      rfl
    split_ifs
    · exact hrest _ _
    · rw [ih,hrest]
      rfl

structure Ordered (info : τ → Task) (q : PerCpuRunQueue τ) (l : List (Entry τ)) : Prop where
  live : Live info q l
  aged : Aged info l
  past : ∀ e ∈ l, e.stamp < q.pushes

end

section
variable [DecidableEq τ] (info : τ → Task)

inductive Op (τ : Type*) where
  | push (t : τ)
  | popRtAware

def step (q : PerCpuRunQueue τ) : Op τ → PerCpuRunQueue τ
  | .push t => (push info q t).2
  | .popRtAware => (popRtAware info q).2

def Next (q : PerCpuRunQueue τ) (c : Op τ) (q' : PerCpuRunQueue τ) : Prop := q' = step info q c

/-- The oldest entry is never swapped past a peer. -/
def Gentle (q : PerCpuRunQueue τ) (c : Op τ) (q' : PerCpuRunQueue τ) : Prop :=
  Next info q c q' ∧ match c with
    | .push _ => True
    | .popRtAware => ∀ d m e r, q.entries = d::(m++e::r) → (popRtAware info q).1 = some e →
        ∀ x ∈ m, ¬Peers info d x

variable {info} {q q' : PerCpuRunQueue τ} {l : List (Entry τ)}

lemma pushed_live (h : ∀ e ∈ l, tokenMatches info e) (t : τ) :
    ∀ e ∈ pushed info q l t, tokenMatches info e := by
  intro e he
  unfold pushed at he
  split_ifs at he with hc
  · exact h e he
  rcases mem_append.mp he with he | he
  · exact h e he
  · rw [mem_singleton.mp he]
    simp [tokenMatches]

lemma Live.step (hl : Live info q l) (c : Op τ) : ∃ l', Live info (step info q c) l' := by
  cases c with
  | push t => exact ⟨_,hl.1.push info t,pushed_live hl.2 t⟩
  | popRtAware =>
    by_cases hne : l = []
    · have hnone := hl.1.popRtAware_none info (by rw [hne]; rfl)
      exact ⟨[],hnone.2,nofun⟩
    · obtain ⟨p,hp,-,-,hh⟩ := popRtAware_live hl hne
      exact ⟨_,hh,fun e he => hl.2 e ((without_perm hp).symm.subset (mem_cons_of_mem _ he))⟩

lemma Ordered.push (h : Ordered info q l) (t : τ) :
    Ordered info (push info q t).2 (pushed info q l t) := by
  have hlive : Live info (RunQueue.push info q t).2 (pushed info q l t) :=
    ⟨h.live.1.push info t,pushed_live h.live.2 t⟩
  rw [h.live.1.push_eq info t] at hlive ⊢
  unfold pushed at hlive ⊢
  by_cases hc : l.any (sameEntry info t) = true ∨ l.length ≥ queueSize
  · simp only [if_pos hc] at hlive ⊢
    refine ⟨hlive,h.aged,?_⟩
    rcases hc with hc | hc
    · simpa only [if_pos hc] using h.past
    split_ifs
    · exact h.past
    · exact h.past
  simp only [if_neg hc] at hlive ⊢
  rw [not_or] at hc
  refine ⟨hlive,?_,?_⟩
  · refine pairwise_append.mpr ⟨h.aged,pairwise_singleton _ _,?_⟩
    intro a ha b hb _
    rw [mem_singleton.mp hb]
    exact h.past a ha
  · simp only [if_neg hc.1,if_neg hc.2]
    intro e he
    rcases mem_append.mp he with he | he
    · exact Nat.lt_succ_of_lt (h.past e he)
    · rw [mem_singleton.mp he]
      exact Nat.lt_succ_self _

lemma Ordered.gentle (h : Ordered info q l) {c : Op τ} (hn : Gentle info q c q') :
    ∃ l', Ordered info q' l' := by
  obtain ⟨rfl,hg⟩ := hn
  cases c with
  | push t => exact ⟨_,h.push t⟩
  | popRtAware =>
    have hpast : (step info q .popRtAware).pushes = q.pushes := popRtLoop_pushes _ _
    by_cases hne : l = []
    · have hnone := h.live.1.popRtAware_none info (by rw [hne]; rfl)
      exact ⟨[],⟨hnone.2,nofun⟩,List.Pairwise.nil, nofun⟩
    obtain ⟨p,hp,-,hpop,hh⟩ := popRtAware_live h.live hne
    have hmem : ∀ e ∈ without l p, e ∈ l :=
      fun e he => (without_perm hp).symm.subset (mem_cons_of_mem _ he)
    refine ⟨_,⟨hh,fun e he => h.live.2 e (hmem e he)⟩,?_,?_⟩
    · apply h.aged.without hp
      intro d m r hl
      exact hg d m l[p] r (h.live.1.entries_eq.trans hl) hpop
    · intro e he
      rw [hpast]
      exact h.past e (hmem e he)

theorem pops_best_grade_oldest_first {cpuId : ℕ} (h : Reaches (Next info) (fresh cpuId) q)
    (hne : q.entries ≠ []) : ∃ e, (popRtAware info q).1 = some e ∧ e ∈ q.entries ∧
      (∀ e' ∈ q.entries, gradeOf info e ≤ gradeOf info e') ∧
      (Reaches (Gentle info) (fresh cpuId) q →
        ∀ e' ∈ q.entries, Peers info e e' → e' ≠ e → e.stamp < e'.stamp) := by
  obtain ⟨l,hl⟩ := invariant (I := fun q => ∃ l, Live info q l)
    (fun s c t hi hn => by obtain ⟨l,hl⟩ := hi; obtain rfl := hn; exact hl.step c) h
    ⟨[],fresh_holds cpuId,nofun⟩
  have hent := hl.1.entries_eq
  rw [hent] at hne ⊢
  obtain ⟨p,hp,hb,hpop,-⟩ := popRtAware_live hl hne
  refine ⟨l[p],hpop,getElem_mem hp,best_grade hp hb,fun hg => ?_⟩
  obtain ⟨l',ho⟩ := invariant (I := fun q => ∃ l, Ordered info q l)
    (fun s c t hi hn => by obtain ⟨l,hl⟩ := hi; exact hl.gentle hn) hg
    ⟨[],⟨fresh_holds cpuId,nofun⟩,List.Pairwise.nil,
      nofun⟩
  obtain rfl := hl.1.unique ho.live.1
  exact ho.aged.best_oldest hp hb

end

def mixed (t : ℕ) : Task := ⟨0,if t = 2 then schedFifo else 0,10,-1⟩

def swapped : PerCpuRunQueue ℕ :=
  run (step mixed) (fresh 0) [.push 0,.push 1,.push 2,.popRtAware]

theorem later_peer_popped_first : Reaches (Next mixed) (fresh 0) swapped ∧
    (popRtAware mixed swapped).1 = some ⟨1,0,1⟩ ∧ ⟨0,0,0⟩ ∈ swapped.entries ∧
    Peers mixed ⟨1,0,1⟩ ⟨0,0,0⟩ := by
  refine ⟨?_,by decide,by decide,by decide⟩
  exact Reaches.snoc (c := .popRtAware) (Reaches.snoc (c := .push 2)
    (Reaches.snoc (c := .push 1) (Reaches.snoc (c := .push 0)
      (Reaches.start _ _) rfl) rfl) rfl) rfl

def twoNormal : PerCpuRunQueue ℕ := run (step mixed) (fresh 0) [.push 0,.push 1]

theorem pops_best_grade_oldest_first_twoNormal : ∃ e, (popRtAware mixed twoNormal).1 = some e ∧
      ∀ e' ∈ twoNormal.entries, Peers mixed e e' → e' ≠ e → e.stamp < e'.stamp := by
  have hnext : Reaches (Next mixed) (fresh 0) twoNormal :=
    Reaches.snoc (c := .push 1) (Reaches.snoc (c := .push 0) (Reaches.start _ _) rfl) rfl
  have hgentle : Reaches (Gentle mixed) (fresh 0) twoNormal :=
    Reaches.snoc (c := .push 1) (Reaches.snoc (c := .push 0) (Reaches.start _ _)
      ⟨rfl,trivial⟩) ⟨rfl,trivial⟩
  have hne : twoNormal.entries ≠ [] := by decide
  obtain ⟨e,he,-,-,hfirst⟩ := pops_best_grade_oldest_first hnext hne
  exact ⟨e,he,hfirst hgentle⟩

end MoQiOS.RunQueue
