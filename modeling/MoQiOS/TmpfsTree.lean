import MoQiOS.Chains
import MoQiOS.Tmpfs

/-!
# The tree of names

What the table keeps, and the four ways an operation changes it: a name goes,
a new one comes, one moves, or two change places.
-/

namespace MoQiOS.Tmpfs
open Chains List Option

def Named (s : State) (i : ℕ) : Prop :=
  (s.entries i).active = true ∧ (s.entries i).deleted = false

def up (s : State) (i : ℕ) : Option ℕ := if i = 0 then none else some (s.entries i).parentIdx

structure Tree (s : State) : Prop where
  bitmap : ∀ i, s.activeBm i = (s.entries i).active
  bound : ∀ i, (s.entries i).active = true → i < maxFiles
  root : Named s 0 ∧ (s.entries 0).isDir = true ∧ (s.entries 0).parentIdx = noParent
  parent : ∀ i, Named s i → i ≠ 0 →
    Named s (s.entries i).parentIdx ∧ (s.entries (s.entries i).parentIdx).isDir = true
  apart : ∀ i j, Named s i → Named s j → (s.entries i).parentIdx = (s.entries j).parentIdx →
    (s.entries i).name = (s.entries j).name → i = j
  short : ∀ i, Named s i → (s.entries i).name.length ≤ maxNameLen
  climbs : ∀ i, Named s i → ∃ l, Chain (up s) (some i) l

lemma start_tree : Tree start := by
  have hactive : ∀ i, (start.entries i).active = decide (i = 0) := by
    intro i
    by_cases hi : i = 0
    · rw [hi]
      rfl
    · simp [start,hi]
  have hnamed : ∀ i, Named start i → i = 0 := by
    intro i hi
    have ha := hi.1
    rw [hactive] at ha
    exact of_decide_eq_true ha
  refine ⟨fun i => (hactive i).symm,?_,⟨⟨rfl,rfl⟩,rfl,rfl⟩,?_,?_,?_,?_⟩
  · intro i hi
    rw [hactive] at hi
    rw [of_decide_eq_true hi]
    with_unfolding_all decide
  · intro i hi h0
    exact absurd (hnamed i hi) h0
  · intro i j hi hj _ _
    rw [hnamed i hi,hnamed j hj]
  · intro i hi
    rw [hnamed i hi]
    decide
  · intro i hi
    rw [hnamed i hi]
    exact ⟨[0],rfl,rfl⟩

section
variable {s : State} (h : Tree s)
include h

variable {i : ℕ}

lemma Tree.named_lt (hi : Named s i) : i < maxFiles := h.bound i hi.1

lemma Tree.parent_ne_zero {i p : ℕ} (hp : Named s p) (hi : (s.entries i).parentIdx = p) :
    i ≠ 0 := by
  rintro rfl
  rw [h.root.2.2] at hi
  have hlt := h.named_lt hp
  rw [← hi] at hlt
  exact absurd hlt (by with_unfolding_all decide)

variable {l : List ℕ}

lemma Tree.climb (hi : Named s i) (hl : Chain (up s) (some i) l) :
    ∀ j ∈ l, Named s j ∧ ((s.entries i).isDir = true → (s.entries j).isDir = true) := by
  induction l generalizing i with
  | nil => cases hl
  | cons a rest ih =>
    obtain rfl : i = a := some.inj hl.1
    intro j hj
    rcases mem_cons.mp hj with rfl | hj
    · exact ⟨hi,id⟩
    have hrest := hl.2
    by_cases h0 : i = 0
    · rw [up,if_pos h0] at hrest
      cases rest with
      | nil => cases hj
      | cons b rest => cases hrest.1
    rw [up,if_neg h0] at hrest
    obtain ⟨hp,hpd⟩ := h.parent i hi h0
    obtain ⟨hn,hd⟩ := ih hp hrest j hj
    exact ⟨hn,fun _ => hd hpd⟩

lemma Tree.climb_named (hi : Named s i) (hl : Chain (up s) (some i) l) :
    ∀ j ∈ l, Named s j := fun j hj => (h.climb hi hl j hj).1

lemma Tree.climb_dirs (hi : Named s i) (hdir : (s.entries i).isDir = true)
    (hl : Chain (up s) (some i) l) : ∀ j ∈ l, (s.entries j).isDir = true :=
  fun j hj => (h.climb hi hl j hj).2 hdir

lemma Tree.climb_length (hi : Named s i) (hl : Chain (up s) (some i) l) :
    l.length ≤ maxFiles := by
  have hsub : l ⊆ List.range maxFiles := fun j hj =>
    mem_range.mpr (h.named_lt (h.climb_named hi hl j hj))
  have hle := (hl.nodup.subperm hsub).length_le
  rwa [length_range] at hle

lemma Tree.not_above_parent {i p : ℕ} (hp : Named s p)
    (hi : (s.entries i).parentIdx = p) (hl : Chain (up s) (some p) l) : i ∉ l := by
  have hchain : Chain (up s) (some i) (i::l) := by
    refine ⟨rfl,?_⟩
    rw [up,if_neg (h.parent_ne_zero hp hi),hi]
    exact hl
  exact (nodup_cons.mp hchain.nodup).1

lemma Tree.mem_slots (i : ℕ) : i ∈ slots s ↔ (s.entries i).active = true := by
  rw [slots,mem_filter,mem_range,h.bitmap]
  exact ⟨fun hi => hi.2,fun hi => ⟨h.bound i hi,hi⟩⟩

variable {name : Name}

lemma Tree.findEntry_some {p i : ℕ} (hf : findEntry s name p = some i) :
    Named s i ∧ (s.entries i).parentIdx = p ∧ (s.entries i).name = name := by
  have hmem := mem_of_find?_eq_some hf
  have htest := find?_some hf
  simp only [Bool.and_eq_true,Bool.not_eq_true',decide_eq_true_eq] at htest
  exact ⟨⟨(h.mem_slots i).mp hmem,htest.1.1⟩,htest.1.2,htest.2⟩

lemma Tree.findEntry_named {p i : ℕ} (hi : Named s i)
    (hp : (s.entries i).parentIdx = p) (hn : (s.entries i).name = name) :
    findEntry s name p = some i := by
  rcases hf : findEntry s name p with _ | j
  · have hnone := find?_eq_none.mp hf i ((h.mem_slots i).mpr hi.1)
    simp [hi.2,hp,hn] at hnone
  · obtain ⟨hj,hpj,hnj⟩ := h.findEntry_some hf
    rw [h.apart i j hi hj (hp.trans hpj.symm) (hn.trans hnj.symm)]

lemma Tree.findEntry_none {p : ℕ} (hf : findEntry s name p = none)
    (hi : Named s i) (hp : (s.entries i).parentIdx = p) : (s.entries i).name ≠ name := by
  intro hn
  rw [h.findEntry_named hi hp hn] at hf
  cases hf

lemma Tree.resolveLoop_spec {rest : Name} {p : ℕ} {comp : Name} {q : ℕ}
    (hp : Named s p) (hd : (s.entries p).isDir = true)
    (hr : resolveLoop s p comp rest = some (q,name)) :
    Named s q ∧ (s.entries q).isDir = true ∧ name.length ≤ maxNameLen := by
  induction rest generalizing p comp with
  | nil =>
    rw [resolveLoop] at hr
    split_ifs at hr with hcomp hlen
    cases hr
    exact ⟨hp,hd,not_lt.mp hlen⟩
  | cons c rest ih =>
    rw [resolveLoop] at hr
    split_ifs at hr with hc hcomp
    · exact ih hp hd hr
    · rcases hf : findEntry s comp p with _ | d
      · rw [hf] at hr
        cases hr
      rw [hf] at hr
      dsimp only at hr
      split_ifs at hr with hdir
      exact ih (h.findEntry_some hf).1 hdir hr
    · exact ih hp hd hr

lemma Tree.resolvePath_spec {path : Name} {q : ℕ} (hr : resolvePath s path = some (q,name)) :
    Named s q ∧ (s.entries q).isDir = true ∧ name.length ≤ maxNameLen := by
  simp only [resolvePath] at hr
  split_ifs at hr
  · cases hr
    exact ⟨h.root.1,h.root.2.1,by decide⟩
  · exact h.resolveLoop_spec h.root.1 h.root.2.1 hr

lemma Tree.ancestorLoop_spec {anc hops d : ℕ} (hd : Named s d)
    (hl : Chain (up s) (some d) l) (hlen : l.length ≤ hops) :
    ancestorLoop s anc hops d = true ↔ anc ∈ l := by
  induction l generalizing d hops with
  | nil => cases hl
  | cons a rest ih =>
    obtain rfl : d = a := some.inj hl.1
    obtain ⟨hops,rfl⟩ : ∃ k, hops = k+1 := ⟨hops-1,by simp at hlen; omega⟩
    have hrest := hl.2
    rw [ancestorLoop,mem_cons]
    by_cases heq : d = anc
    · simp [heq]
    rw [if_neg heq]
    by_cases h0 : d = 0
    · rw [up,if_pos h0] at hrest
      rw [if_pos (.inl h0)]
      cases rest with
      | nil => simp [Ne.symm heq]
      | cons b rest => cases hrest.1
    · rw [up,if_neg h0] at hrest
      rw [if_neg (not_or.mpr ⟨h0,not_le.mpr (h.named_lt hd)⟩),
        ih (h.parent d hd h0).1 hrest (by simpa using hlen)]
      simp [Ne.symm heq]

lemma Tree.isAncestorOrSelf_spec {anc d : ℕ} (hd : Named s d)
    (hl : Chain (up s) (some d) l) : isAncestorOrSelf s anc d = true ↔ anc ∈ l :=
  h.ancestorLoop_spec hd hl (Nat.le_succ_of_le (h.climb_length hd hl))

end

structure Agrees (s t : State) (i : ℕ) : Prop where
  active : (t.entries i).active = (s.entries i).active
  deleted : (t.entries i).deleted = (s.entries i).deleted
  name : (t.entries i).name = (s.entries i).name
  isDir : (t.entries i).isDir = (s.entries i).isDir
  parentIdx : (t.entries i).parentIdx = (s.entries i).parentIdx

variable {s t : State}

lemma Agrees.of_eq {i : ℕ} (h : t.entries i = s.entries i) : Agrees s t i := by
  constructor <;> rw [h]

lemma Agrees.named {i : ℕ} (h : Agrees s t i) : Named t i ↔ Named s i := by
  rw [Named,Named,h.active,h.deleted]

lemma Agrees.up {i : ℕ} (h : Agrees s t i) : up t i = up s i := by
  rw [Tmpfs.up,Tmpfs.up,h.parentIdx]

section
variable {s t : State} (h : Tree s) (hbm : ∀ i, t.activeBm i = (t.entries i).active)
include h hbm

/-- Entries lose their names, or get new places below directories that are not below them. -/
lemma Tree.relocate (moved : ℕ → Prop) (hzero : ¬moved 0) (hother : ∀ i, ¬moved i → Agrees s t i)
    (hself : ∀ i, moved i → ((t.entries i).active = true → i < maxFiles) ∧
      (Named t i → (t.entries i).name.length ≤ maxNameLen))
    (hplace : ∀ i, moved i → Named t i → ∃ l, Named s (t.entries i).parentIdx ∧
      (s.entries (t.entries i).parentIdx).isDir = true ∧
      Chain (up s) (some (t.entries i).parentIdx) l ∧ ∀ j ∈ l, ¬moved j)
    (hdir : ∀ i, moved i → ∀ j, Named s j → ¬moved j → (s.entries j).parentIdx = i →
      Named t i ∧ (t.entries i).isDir = true)
    (hapart : ∀ i j, moved i → Named t i → Named t j →
      (t.entries i).parentIdx = (t.entries j).parentIdx →
      (t.entries i).name = (t.entries j).name → i = j) : Tree t := by
  have h0 := hother 0 hzero
  have hfixed : ∀ p, ¬moved p → Named s p ∧ (s.entries p).isDir = true →
      Named t p ∧ (t.entries p).isDir = true := by
    intro p hp hps
    rw [(hother p hp).named,(hother p hp).isDir]
    exact hps
  have hparent : ∀ i, Named t i → i ≠ 0 →
      Named t (t.entries i).parentIdx ∧ (t.entries (t.entries i).parentIdx).isDir = true := by
    intro i hi hne
    by_cases hm : moved i
    · obtain ⟨l,hp,hpd,hl,hfree⟩ := hplace i hm hi
      refine hfixed _ (hfree _ ?_) ⟨hp,hpd⟩
      cases l with
      | nil => cases hl
      | cons a rest =>
        rw [some.inj hl.1]
        exact mem_cons_self
    have his := (hother i hm).named.mp hi
    rw [(hother i hm).parentIdx]
    by_cases hpm : moved (s.entries i).parentIdx
    · exact hdir _ hpm i his hm rfl
    · exact hfixed _ hpm (h.parent i his hne)
  refine ⟨hbm,?_,⟨h0.named.mpr h.root.1,?_,?_⟩,hparent,?_,?_,?_⟩
  · intro i hi
    by_cases hm : moved i
    · exact (hself i hm).1 hi
    · rw [(hother i hm).active] at hi
      exact h.bound i hi
  · rw [h0.isDir,h.root.2.1]
  · rw [h0.parentIdx,h.root.2.2]
  · intro i j hi hj hp hn
    by_cases hmi : moved i
    · exact hapart i j hmi hi hj hp hn
    by_cases hmj : moved j
    · exact (hapart j i hmj hj hi hp.symm hn.symm).symm
    rw [(hother i hmi).parentIdx,(hother j hmj).parentIdx] at hp
    rw [(hother i hmi).name,(hother j hmj).name] at hn
    exact h.apart i j ((hother i hmi).named.mp hi) ((hother j hmj).named.mp hj) hp hn
  · intro i hi
    by_cases hm : moved i
    · exact (hself i hm).2 hi
    · rw [(hother i hm).name]
      exact h.short i ((hother i hm).named.mp hi)
  -- From its new place the way up of an entry that moved is an old one.
  have hways : ∀ i, moved i → Named t i → ∃ l, Chain (up t) (some i) l := by
    intro i hm hi
    obtain ⟨l,-,-,hl,hfree⟩ := hplace i hm hi
    have hne : i ≠ 0 := by
      rintro rfl
      exact hzero hm
    refine ⟨i::l,rfl,?_⟩
    rw [up,if_neg hne]
    exact hl.frame fun j hj => (hother j (hfree j hj)).up
  intro i hi
  by_cases hm : moved i
  · exact hways i hm hi
  obtain ⟨l,hl⟩ := h.climbs i ((hother i hm).named.mp hi)
  refine hl.reroute (fun a ha => some.inj ha ▸ hi) (fun j hj => ?_)
  by_cases hm : moved j
  · exact .inl (hways j hm hj)
  refine .inr ⟨(hother j hm).up,fun p hp => ?_⟩
  rw [← (hother j hm).up,up] at hp
  split_ifs at hp with hne
  exact some.inj hp ▸ (hparent j hj hne).1

lemma Tree.forget {d : ℕ} (hd : d ≠ 0) (hother : ∀ i, i ≠ d → Agrees s t i)
    (hgone : ¬Named t d) (hbound : (t.entries d).active = true → d < maxFiles)
    (hchild : ∀ i, Named s i → (s.entries i).parentIdx ≠ d ∨ i = d) : Tree t := by
  refine h.relocate hbm (· = d) (Ne.symm hd) hother ?_ ?_ ?_ ?_
  · rintro i rfl
    exact ⟨hbound,fun hi => absurd hi hgone⟩
  · rintro i rfl hi
    exact absurd hi hgone
  · rintro i rfl j hj hne hp
    exact absurd hp ((hchild j hj).resolve_right hne)
  · rintro i j rfl hi
    exact absurd hi hgone

lemma Tree.agree (hsame : ∀ i, Agrees s t i) : Tree t :=
  h.relocate hbm (fun _ => False) id (fun i _ => hsame i) (fun _ hi => hi.elim)
    (fun _ hi => hi.elim) (fun _ hi => hi.elim) (fun _ _ hi => hi.elim)

end

end MoQiOS.Tmpfs
