import MoQiOS.RunQueueSteps
import MoQiOS.FirstBest

/-!
# The realtime-aware pop

The choice is the oldest entry of the best grade: a realtime entry by its key,
then any normal entry, then an idle one. It leaves the ring by a swap with the
oldest entry.
-/

namespace MoQiOS.RunQueue
open Scans Function List Option Nat

variable {τ : Type*}

/-- Realtime keys in their order, all normal keys alike, idle last. -/
def grade (key : ℕ) : ℕ :=
  if key < otherKeyBase then key else if key < maxPickKey then otherKeyBase else otherKeyBase+1

def rtKey (keys : ℕ → ℕ) (i : ℕ) : Option ℕ := if keys i < otherKeyBase then some (keys i) else none

def Normal (key : ℕ) : Prop := otherKeyBase ≤ key ∧ key < maxPickKey

structure Considered (keys : ℕ → ℕ) (n : ℕ) (c : PopChoice) : Prop where
  noRt : c.bestRt = none → c.bestRtKey = otherKeyBase ∧ Empty (rtKey keys) n
  rt : ∀ p, c.bestRt = some p → FirstBest (rtKey keys) n p c.bestRtKey
  noNormal : c.firstNormal = none → ∀ j, j < n → ¬Normal (keys j)
  normal : ∀ p, c.firstNormal = some p → p < n ∧ Normal (keys p) ∧ ∀ j, j < p → ¬Normal (keys j)
  any : c.firstAny = if n = 0 then none else some 0

lemma new_considered (keys : ℕ → ℕ) : Considered keys 0 .new :=
  ⟨fun _ => ⟨rfl,nofun⟩,nofun, nofun,nofun,rfl⟩

variable {keys : ℕ → ℕ} {n : ℕ} {c : PopChoice}

lemma Considered.rt_step (h : Considered keys n c) (hrt : keys n < otherKeyBase) :
    (keys n < c.bestRtKey → FirstBest (rtKey keys) (n+1) n (keys n)) ∧
    (¬keys n < c.bestRtKey → ∃ p, c.bestRt = some p ∧ FirstBest (rtKey keys) (n+1) p c.bestRtKey) := by
  have hkey : rtKey keys n = some (keys n) := if_pos hrt
  rcases hb : c.bestRt with _ | p
  · obtain ⟨hbase,hempty⟩ := h.noRt hb
    rw [hbase]
    exact ⟨fun _ => hempty.take hkey,fun hn => absurd hrt hn⟩
  have hf := h.rt p hb
  refine ⟨fun hlt => hf.take hkey hlt,fun hn => ⟨p,rfl,hf.skip ?_⟩⟩
  intro k hk
  rw [← Option.mem_unique hkey hk]
  exact Nat.le_of_not_lt hn

lemma Considered.consider (h : Considered keys n c) :
    Considered keys (n+1) (c.consider n (keys n)) := by
  have hany : (if c.firstAny.isNone then {c with firstAny := some n} else c) =
      {c with firstAny := some 0} := by
    have := h.any
    by_cases hn : n = 0
    · rw [if_pos hn] at this
      simp [this,hn]
    rw [if_neg hn] at this
    cases c
    simp_all
  have hsuc : (some 0 : Option ℕ) = if n+1 = 0 then none else some 0 := by simp
  have hnormal : ¬Normal (keys n) → ∀ j, (∀ j, j < n → ¬Normal (keys j)) → j < n+1 →
      ¬Normal (keys j) := by
    intro hn j hall hj
    rcases Nat.lt_succ_iff_lt_or_eq.mp hj with hlt | rfl
    · exact hall j hlt
    · exact hn
  unfold PopChoice.consider
  rw [hany]
  dsimp only
  by_cases hrt : keys n < otherKeyBase
  · have hnn : ¬Normal (keys n) := fun hc => absurd hrt (Nat.not_lt.mpr hc.1)
    obtain ⟨htake,hkeep⟩ := h.rt_step hrt
    rw [if_pos hrt]
    split_ifs with hlt
    · exact ⟨nofun,fun p hp => some.inj hp ▸ htake hlt,
        fun hc j hj => hnormal hnn j (h.noNormal hc) hj,
        fun p hp => ⟨lt_succ_of_lt (h.normal p hp).1,(h.normal p hp).2⟩,hsuc⟩
    obtain ⟨p,hp,hf⟩ := hkeep hlt
    refine ⟨fun hc => ?_,fun p' hp' => ?_,fun hc j hj => hnormal hnn j (h.noNormal hc) hj,
      fun p hp => ⟨lt_succ_of_lt (h.normal p hp).1,(h.normal p hp).2⟩,hsuc⟩
    · rw [hp] at hc
      cases hc
    · rw [hp] at hp'
      exact some.inj hp' ▸ hf
  have hkey : rtKey keys n = none := if_neg hrt
  have hrt' : ∀ p, c.bestRt = some p → FirstBest (rtKey keys) (n+1) p c.bestRtKey := by
    intro p hp
    apply (h.rt p hp).skip
    intro k hk
    rw [hkey] at hk
    cases hk
  have hno : c.bestRt = none → c.bestRtKey = otherKeyBase ∧ Empty (rtKey keys) (n+1) :=
    fun hc => ⟨(h.noRt hc).1,(h.noRt hc).2.skip hkey⟩
  rw [if_neg hrt]
  split_ifs with hnew
  · rw [Bool.and_eq_true,decide_eq_true_eq,isNone_iff_eq_none] at hnew
    refine ⟨hno,hrt',nofun,fun p hp => ?_,hsuc⟩
    obtain rfl := some.inj hp
    exact ⟨lt_succ_self _,⟨Nat.le_of_not_lt hrt,hnew.1⟩,h.noNormal hnew.2⟩
  refine ⟨hno,hrt',fun hc j hj => hnormal ?_ j (h.noNormal hc) hj,
    fun p hp => ⟨lt_succ_of_lt (h.normal p hp).1,(h.normal p hp).2⟩,hsuc⟩
  intro hcur
  apply hnew
  rw [Bool.and_eq_true,decide_eq_true_eq,isNone_iff_eq_none]
  exact ⟨hcur.2,hc⟩

variable {k : ℕ}

lemma grade_rt (h : k < otherKeyBase) : grade k = k := if_pos h

lemma grade_normal (h : Normal k) : grade k = otherKeyBase := by
  rw [grade,if_neg (Nat.not_lt.mpr h.1),if_pos h.2]

lemma grade_idle (h : ¬k < otherKeyBase) (h' : ¬Normal k) : grade k = otherKeyBase+1 := by
  rw [grade,if_neg h,if_neg (fun hc => h' ⟨Nat.le_of_not_lt h,hc⟩)]

lemma le_grade {b : ℕ} (hb : b ≤ otherKeyBase) (h : k < otherKeyBase → b ≤ k) : b ≤ grade k := by
  unfold grade
  split_ifs with h1 h2
  · exact h h1
  · exact hb
  · exact le_succ_of_le hb

lemma Considered.choice (h : Considered keys n c) (hn : 0 < n) :
    ∃ p, c.choice = some p ∧ FirstBest (fun i => some (grade (keys i))) n p (grade (keys p)) := by
  cases hb : c.bestRt with
  | some p =>
    have hf := h.rt p hb
    have hrt : keys p < otherKeyBase ∧ keys p = c.bestRtKey := by
      have hh := hf.here
      unfold rtKey at hh
      split_ifs at hh with hlt
      exact ⟨hlt,some.inj hh⟩
    refine ⟨p,by simp [PopChoice.choice,hb],hf.inside,rfl,?_,?_⟩
    · rintro j hj k' ⟨⟩
      rw [grade_rt hrt.1,hrt.2]
      exact le_grade (hrt.2 ▸ hrt.1.le) (fun hlt => hf.least j hj _ (if_pos hlt))
    · rintro j hj k' ⟨⟩
      rw [grade_rt hrt.1,hrt.2]
      by_cases hlt : keys j < otherKeyBase
      · rw [grade_rt hlt]
        exact hf.first j hj _ (if_pos hlt)
      · have : otherKeyBase ≤ grade (keys j) := le_grade le_rfl (fun hc => absurd hc hlt)
        omega
  | none =>
    have hno : ∀ j, j < n → ¬keys j < otherKeyBase := by
      intro j hj hlt
      have := (h.noRt hb).2 j hj
      rw [rtKey,if_pos hlt] at this
      cases this
    cases hm : c.firstNormal with
    | some p =>
      obtain ⟨hp,hnp,hfirst⟩ := h.normal p hm
      refine ⟨p,by simp [PopChoice.choice,hb,hm],hp,rfl,?_,?_⟩
      · rintro j hj k' ⟨⟩
        rw [grade_normal hnp]
        exact le_grade le_rfl (fun hc => absurd hc (hno j hj))
      · rintro j hj k' ⟨⟩
        rw [grade_normal hnp,grade_idle (hno j (hj.trans hp)) (hfirst j hj)]
        exact lt_succ_self _
    | none =>
      have hidle : ∀ j, j < n → grade (keys j) = otherKeyBase+1 :=
        fun j hj => grade_idle (hno j hj) (h.noNormal hm j hj)
      have hany : c.firstAny = some 0 := by
        rw [h.any,if_neg (Nat.pos_iff_ne_zero.mp hn)]
      refine ⟨0,by simp [PopChoice.choice,hb,hm,hany],hn,rfl,?_,?_⟩
      · rintro j hj k' ⟨⟩
        rw [hidle 0 hn,hidle j hj]
      · exact nofun

section
variable (info : τ → Task) {q : PerCpuRunQueue τ} {l : List (Entry τ)} {e : Entry τ}

def keyAt (l : List (Entry τ)) (i : ℕ) : ℕ := ((l[i]?).map (keyOf info)).getD 0

lemma Holds.pick_considered (h : Holds q l) {m : ℕ} (hm : m ≤ l.length) :
    Considered (keyAt info l) m ((List.range m).foldl (fun c i => match q.tasks (q.slot i) with
      | none => c
      | some e => c.consider i (keyOf info e)) .new) := by
  induction m with
  | zero => exact new_considered _
  | succ m ih =>
    have hkey : keyAt info l m = keyOf info l[m] := by
      rw [keyAt,getElem?_eq_getElem hm]
      rfl
    rw [range_succ,foldl_append,foldl_cons,foldl_nil,h.cells m hm]
    dsimp only
    rw [← hkey]
    exact (ih (le_of_succ_le hm)).consider

lemma Holds.displace (h : Holds q (e::l)) {p : ℕ} (hp : p < (e::l).length) :
    Holds (q.displace (q.slot p)) ((e::l).set p e) := by
  have hlen : ((e::l).set p e).length = (e::l).length := length_set
  have hfit := h.fits
  have hpos : 0 < (e::l).length := zero_lt_succ _
  unfold PerCpuRunQueue.displace
  rw [h.oldest,h.tail_slot]
  by_cases hz : p = 0
  · subst hz
    rw [if_neg (not_not.mpr rfl)]
    exact h
  rw [if_pos (slot_ne q (by omega) (by omega) hz)]
  refine ⟨h.count.trans hlen.symm,hlen ▸ h.fits,h.tail,by rw [hlen]; exact h.head,?_⟩
  intro i hi
  rw [hlen] at hi
  change update q.tasks (q.slot p) (some e) (q.slot i) = _
  rw [getElem_set]
  split_ifs with hip
  · rw [← hip,update_self]
  · rw [update_of_ne (slot_ne q (by omega) (by omega) (Ne.symm hip))]
    exact h.cells i hi

/-- What the pop leaves when it returns the entry at position `p`. -/
def without (l : List (Entry τ)) (p : ℕ) : List (Entry τ) :=
  match l with
  | [] => []
  | e::rest => ((e::rest).set p e).tail

lemma Holds.popRtAware (h : Holds q l) (hne : l.filter (tokenMatches info) ≠ []) :
    ∃ p, ∃ hp : p < (l.filter (tokenMatches info)).length,
      FirstBest (fun i => some (grade (keyAt info (l.filter (tokenMatches info)) i)))
        (l.filter (tokenMatches info)).length p
        (grade (keyAt info (l.filter (tokenMatches info)) p)) ∧
      (popRtAware info q).1 = some (l.filter (tokenMatches info))[p] ∧
      Holds (popRtAware info q).2 (without (l.filter (tokenMatches info)) p) := by
  have hpurge := h.purgeStaleLocked info
  have hall : ∀ x ∈ l.filter (tokenMatches info), tokenMatches info x :=
    fun x hx => (mem_filter.mp hx).2
  generalize l.filter (tokenMatches info) = live at *
  have hpos : 0 < live.length := length_pos_iff.mpr hne
  obtain ⟨p,hchoice,hbest⟩ := (hpurge.pick_considered info le_rfl).choice hpos
  rw [← hpurge.count] at hchoice
  have hp := hbest.inside
  have hcell := hpurge.cells p hp
  have hnz : (RunQueue.purgeStaleLocked info q).nrRunning ≠ 0 := by
    rw [hpurge.count]
    exact Nat.pos_iff_ne_zero.mp hpos
  have hpick : (pick info (RunQueue.purgeStaleLocked info q)).choice = some p := hchoice
  refine ⟨p,hp,hbest,?_⟩
  rw [RunQueue.popRtAware,popRtLoop]
  dsimp only
  rw [if_neg hnz,hpick,getD_some,hcell]
  dsimp only
  rw [if_pos (hall _ (getElem_mem hp))]
  refine ⟨rfl,?_⟩
  rcases live with _ | ⟨e,rest⟩
  · exact absurd rfl hne
  have hd := hpurge.displace hp
  rcases hset : (e::rest).set p e with _ | ⟨e',rest'⟩
  · simp at hset
  rw [hset] at hd
  have : without (e::rest) p = rest' := by
    rw [without,hset]
    rfl
  rw [this]
  exact hd.advance

lemma Holds.popRtAware_none (h : Holds q l) (he : l.filter (tokenMatches info) = []) :
    (RunQueue.popRtAware info q).1 = none ∧ Holds (RunQueue.popRtAware info q).2 [] := by
  have hpurge := h.purgeStaleLocked info
  rw [he] at hpurge
  have hz : (RunQueue.purgeStaleLocked info q).nrRunning = 0 := hpurge.count
  rw [RunQueue.popRtAware,popRtLoop]
  dsimp only
  rw [if_pos hz]
  exact ⟨rfl,hpurge⟩

lemma without_perm {l : List (Entry τ)} {p : ℕ} (hp : p < l.length) :
    l.Perm (l[p]::without l p) := by
  rcases l with _ | ⟨e,rest⟩
  · exact absurd hp (Nat.not_lt_zero p)
  cases p with
  | zero => exact List.Perm.refl _
  | succ p =>
    have hp' : p < rest.length := lt_of_succ_lt_succ hp
    change (e::rest).Perm (rest[p]::rest.set p e)
    have hsplit := set_eq_take_append_cons_drop (l := rest) (i := p) (a := e)
    rw [if_pos hp'] at hsplit
    have hrest : rest = rest.take p++rest[p]::rest.drop (p+1) := by
      rw [← drop_eq_getElem_cons hp',take_append_drop]
    rw [hsplit]
    calc (e::rest).Perm (e::(rest.take p++rest[p]::rest.drop (p+1))) := by rw [← hrest]
      _ |>.Perm (e::rest[p]::(rest.take p++rest.drop (p+1))) := perm_middle.cons e
      _ |>.Perm (rest[p]::e::(rest.take p++rest.drop (p+1))) := List.Perm.swap _ _ _
      _ |>.Perm (rest[p]::(rest.take p++e::rest.drop (p+1))) := perm_middle.symm.cons _

end

end MoQiOS.RunQueue
