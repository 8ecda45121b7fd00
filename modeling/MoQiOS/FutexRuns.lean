import MoQiOS.Futex
import MoQiOS.Runs

/-!
# Accounting of futex wakes

A node on a bucket belongs to a task that sleeps on it and is not granted.
Grants, timeouts and signals take a node off its bucket under the same lock,
so each wait ends in one way.
-/

namespace MoQiOS.Futex
open Runs Function List Nat

def inWait : Pc → Option ℕ
  | .user => none
  | .waiting node _ _ => some node
  | .leaving _ node _ => some node

def grants (s : State) : List ℕ := s.wakes.flatMap Prod.snd

def ended (s : State) : List ℕ := s.finished.map Prod.fst

structure Inv (s : State) : Prop where
  linked : ∀ b, ∀ n ∈ s.buckets b, n < s.nextNode ∧ (s.nodes n).granted = false ∧
    ∃ d, s.pc (s.nodes n).taskIdx = .waiting n b d
  nodup : ∀ b, (s.buckets b).Nodup
  owner : ∀ t n, inWait (s.pc t) = some n → n < s.nextNode ∧ (s.nodes n).taskIdx = t ∧ n ∉ ended s
  active : ∀ n, n < s.nextNode → n ∉ ended s → inWait (s.pc (s.nodes n).taskIdx) = some n
  leaving : ∀ t todo n code, s.pc t = .leaving todo n code →
    ((s.nodes n).granted = true ↔ code = some 0)
  finished : ∀ p ∈ s.finished, p.1 < s.nextNode ∧ ((s.nodes p.1).granted = true ↔ p.2 = some 0)
  once : (ended s).Nodup
  granted : ∀ n, n ∈ grants s ↔ n < s.nextNode ∧ (s.nodes n).granted = true
  grantsOnce : (grants s).Nodup
  counts : ∀ w ∈ s.wakes, w.1 = w.2.length

lemma start_inv : Inv start := by
  constructor <;> simp [start,inWait,grants,ended]

section
variable {s s' : State} (h : Inv s)
include h

lemma Inv.same (hs : (s'.buckets,s'.nodes,s'.nextNode,s'.pc,s'.wakes,s'.finished) =
    (s.buckets,s.nodes,s.nextNode,s.pc,s.wakes,s.finished)) : Inv s' := by
  obtain ⟨⟩ := s
  obtain ⟨⟩ := s'
  cases hs
  exact ⟨h.linked,h.nodup,h.owner,h.active,h.leaving,h.finished,h.once,h.granted,h.grantsOnce,
    h.counts⟩

lemma Inv.unlink (b : ℕ) {l : List ℕ} (hl : l.Sublist (s.buckets b)) :
    Inv {s with buckets := update s.buckets b l} := by
  refine ⟨?_,?_,h.owner,h.active,h.leaving,h.finished,h.once,h.granted,h.grantsOnce,h.counts⟩
  all_goals try dsimp only
  · intro c n hn
    rw [update_apply] at hn
    split_ifs at hn with hc
    · subst hc
      exact h.linked c n (hl.subset hn)
    · exact h.linked c n hn
  · intro c
    rw [update_apply]
    split_ifs with hc
    · subst hc
      exact (h.nodup c).sublist hl
    · exact h.nodup c

lemma Inv.disarmStore (idx : ℕ) (d : Disarm) : Inv (disarmStore s idx d) := by
  cases d <;> exact h.same rfl

lemma Inv.disarmWaitDeadline (idx : ℕ) : Inv (disarmWaitDeadline s idx) :=
  (((h.disarmStore idx .seq).disarmStore idx .deadline).disarmStore idx .bit).disarmStore idx .bucket

lemma Inv.timerTick (now : ℕ) : Inv (timerTick s now) := by
  rw [Futex.timerTick]
  split
  · exact h.same rfl
  · exact h

lemma Inv.timerStep : Inv (timerStep s) := by
  rw [Futex.timerStep]
  split
  · exact h
  · exact h.same rfl
  · exact h.same rfl
  · split_ifs <;> exact h.same rfl
  · split <;> exact h.same rfl
  rename_i now rest idx seq bucket _
  have ht : Inv {s with tick := .scan now rest} := h.same rfl
  dsimp only
  split_ifs
  · exact ht
  · exact (ht.unlink bucket eraseP_sublist).disarmWaitDeadline idx

end

lemma wakeLoop_perm (nodes : ℕ → WaitNode) (alive : ℕ → Bool) (key : Key) (count woken : ℕ)
    (l : List ℕ) :
    ((wakeLoop nodes alive key count woken l).1++(wakeLoop nodes alive key count woken l).2).Perm
      l := by
  induction l generalizing woken with
  | nil => exact .nil
  | cons n rest ih =>
    rw [wakeLoop]
    split_ifs
    · simp
    · exact (ih woken).cons n
    · exact perm_middle.trans ((ih (woken+1)).cons n)

lemma Inv.wakeN {s : State} (h : Inv s) (env : Env) (b : ℕ) (key : Key) (count : ℕ) :
    Inv (wakeN env s b key count).1 := by
  have hperm := wakeLoop_perm s.nodes env.alive key count 0 (s.buckets b)
  simp only [Futex.wakeN]
  generalize wakeLoop s.nodes env.alive key count 0 (s.buckets b) = r at hperm
  obtain ⟨kept,woken⟩ := r
  dsimp only at hperm ⊢
  obtain ⟨hkept,hwoken,hapart⟩ := nodup_append.mp (hperm.nodup_iff.mpr (h.nodup b))
  have hold : ∀ n ∈ woken, n ∈ s.buckets b :=
    fun n hn => hperm.subset (mem_append_right kept hn)
  have htask : ∀ n, (grant s.nodes woken n).taskIdx = (s.nodes n).taskIdx := by
    intro n
    rw [grant]
    split_ifs <;> rfl
  have hgrant : ∀ n, n ∉ woken → grant s.nodes woken n = s.nodes n := fun n hn => if_neg hn
  have hgranted : ∀ n, (grant s.nodes woken n).granted = true ↔
      n ∈ woken ∨ (s.nodes n).granted = true := by
    intro n
    rw [grant]
    split_ifs with hn
    · simp [hn]
    · simp [hn]
  -- A node that is granted now was linked, so its task sleeps on it.
  have hsleeps : ∀ n ∈ woken, (∀ t todo code, s.pc t ≠ .leaving todo n code) ∧ n ∉ ended s := by
    intro n hn
    obtain ⟨-,-,d,hd⟩ := h.linked b n (hold n hn)
    refine ⟨fun t todo code ht => ?_,(h.owner _ n (by rw [hd]; rfl)).2.2⟩
    obtain ⟨-,rfl,-⟩ := h.owner t n (by rw [ht]; rfl)
    rw [hd] at ht
    cases ht
  refine ⟨?_,?_,?_,?_,?_,?_,h.once,?_,?_,?_⟩
  all_goals try dsimp only
  · intro c n hn
    have hmem : n ∈ s.buckets c ∧ n ∉ woken := by
      rw [update_apply] at hn
      split_ifs at hn with hc
      · subst hc
        exact ⟨hperm.subset (mem_append_left woken hn),fun hw => hapart n hn n hw rfl⟩
      refine ⟨hn,fun hw => hc ?_⟩
      obtain ⟨-,-,d,hd⟩ := h.linked c n hn
      obtain ⟨-,-,d',hd'⟩ := h.linked b n (hold n hw)
      rw [hd] at hd'
      cases hd'
      rfl
    simp only [hgrant n hmem.2]
    exact h.linked c n hmem.1
  · intro c
    rw [update_apply]
    split_ifs with hc
    · exact hkept
    · exact h.nodup c
  · intro t n hn
    simp only [htask]
    exact h.owner t n hn
  · intro n hn hend
    simp only [htask]
    exact h.active n hn hend
  · intro t todo n code ht
    have hn : n ∉ woken := fun hn => (hsleeps n hn).1 t todo code ht
    simp only [hgrant n hn]
    exact h.leaving t todo n code ht
  · intro p hp
    have hn : p.1 ∉ woken := fun hn => (hsleeps p.1 hn).2 (mem_map_of_mem hp)
    simp only [hgrant p.1 hn]
    exact h.finished p hp
  · intro n
    have hlt : n ∈ woken → n < s.nextNode := fun hn => (h.linked b n (hold n hn)).1
    simp only [grants,flatMap_append,mem_append,flatMap_singleton,hgranted]
    have hg := h.granted n
    rw [grants] at hg
    tauto
  · simp only [grants,flatMap_append,flatMap_singleton]
    refine nodup_append.mpr ⟨h.grantsOnce,hwoken,fun n hn m hm hnm => ?_⟩
    subst hnm
    have hfree := (h.linked b n (hold n hm)).2.1
    rw [((h.granted n).mp hn).2] at hfree
    cases hfree
  · intro w hw
    rcases mem_append.mp hw with hw | hw
    · exact h.counts w hw
    · rw [mem_singleton.mp hw]

section
variable {s : State} (h : Inv s)
include h

lemma Inv.enqueue {t : ℕ} (ht : s.pc t = .user) (b : ℕ) (key : Key) (d : ℕ) :
    Inv (enqueue s t b key d) := by
  have hother : ∀ n, n < s.nextNode → n ∉ ended s → (s.nodes n).taskIdx ≠ t := by
    intro n hn hend heq
    have hin := h.active n hn hend
    rw [heq,ht] at hin
    cases hin
  have hfresh : ∀ n, n < s.nextNode → update s.nodes s.nextNode
      ⟨t,false,key.root,key.addr⟩ n = s.nodes n :=
    fun n hn => update_of_ne (by omega) _ _
  have hended : s.nextNode ∉ ended s := by
    intro hmem
    obtain ⟨p,hp,heq⟩ := mem_map.mp hmem
    exact absurd (h.finished p hp).1 (by omega)
  have hnew : Inv {s with
      nodes := update s.nodes s.nextNode ⟨t,false,key.root,key.addr⟩
      buckets := update s.buckets b (s.nextNode::s.buckets b)
      pc := update s.pc t (.waiting s.nextNode b d)
      nextNode := s.nextNode+1} := by
    refine ⟨?_,?_,?_,?_,?_,?_,h.once,?_,h.grantsOnce,h.counts⟩
    all_goals try dsimp only
    · intro c n hn
      by_cases hx : n = s.nextNode
      · subst hx
        simp only [update_self]
        by_cases hc : c = b
        · exact ⟨lt_succ_self _,trivial,d,by rw [hc]⟩
        · rw [update_of_ne hc] at hn
          exact absurd (h.linked c _ hn).1 (lt_irrefl _)
      have hmem : n ∈ s.buckets c := by
        rw [update_apply] at hn
        split_ifs at hn with hc
        · subst hc
          exact (mem_cons.mp hn).resolve_left hx
        · assumption
      obtain ⟨hlt,hg,d',hd'⟩ := h.linked c n hmem
      have hne : (s.nodes n).taskIdx ≠ t := fun heq => by rw [heq,ht] at hd'; cases hd'
      simp only [hfresh n hlt,update_of_ne hne]
      exact ⟨lt_succ_of_lt hlt,hg,d',hd'⟩
    · intro c
      rw [update_apply]
      split_ifs with hc
      · subst hc
        exact nodup_cons.mpr ⟨fun hmem => absurd (h.linked c _ hmem).1 (lt_irrefl _),h.nodup c⟩
      · exact h.nodup c
    · intro u n hn
      rw [update_apply] at hn
      split_ifs at hn with hu
      · subst hu
        cases hn
        simp only [update_self]
        exact ⟨lt_succ_self _,trivial,hended⟩
      · obtain ⟨hlt,htask,hend⟩ := h.owner u n hn
        simp only [hfresh n hlt]
        exact ⟨lt_succ_of_lt hlt,htask,hend⟩
    · intro n hn hend
      by_cases hx : n = s.nextNode
      · subst hx
        simp only [update_self]
        rfl
      · have hlt : n < s.nextNode := by omega
        simp only [hfresh n hlt,update_of_ne (hother n hlt hend)]
        exact h.active n hlt hend
    · intro u todo n code hu
      by_cases hut : u = t
      · rw [hut,update_self] at hu
        cases hu
      rw [update_of_ne hut] at hu
      simp only [hfresh n (h.owner u n (by rw [hu]; rfl)).1]
      exact h.leaving u todo n code hu
    · intro p hp
      obtain ⟨hlt,hiff⟩ := h.finished p hp
      simp only [hfresh p.1 hlt]
      exact ⟨lt_succ_of_lt hlt,hiff⟩
    · intro n
      refine (h.granted n).trans ⟨fun hn => ?_,fun hn => ?_⟩
      · simp only [hfresh n hn.1]
        exact ⟨lt_succ_of_lt hn.1,hn.2⟩
      · by_cases hx : n = s.nextNode
        · subst hx
          simp only [update_self] at hn
          exact absurd hn.2 (by simp)
        · have hlt : n < s.nextNode := by omega
          simp only [hfresh n hlt] at hn
          exact ⟨hlt,hn.2⟩
  rw [Futex.enqueue]
  split_ifs
  · exact hnew.same rfl
  · exact hnew

lemma Inv.leave {t b : ℕ} {l : List ℕ} {n : ℕ} (todo : List Disarm) {code : Option ℤ}
    (ht : inWait (s.pc t) = some n) (hl : l.Sublist (s.buckets b)) (hn : n ∉ l)
    (hb : ∀ c d, s.pc t = .waiting n c d → (s.nodes n).granted = false → c = b)
    (hcode : (s.nodes n).granted = true ↔ code = some 0) : Inv {s with
      buckets := update s.buckets b l
      pc := update s.pc t (.leaving todo n code)} := by
  have hu := h.unlink b hl
  obtain ⟨hlt,htask,hend⟩ := h.owner t n ht
  refine ⟨?_,hu.nodup,?_,?_,?_,h.finished,h.once,h.granted,h.grantsOnce,h.counts⟩
  all_goals try dsimp only
  · intro c m hm
    obtain ⟨hmlt,hg,d,hd⟩ := hu.linked c m hm
    refine ⟨hmlt,hg,d,?_⟩
    have hne : (s.nodes m).taskIdx ≠ t := by
      intro heq
      have hd' : s.pc t = .waiting m c d := heq ▸ hd
      rw [hd'] at ht
      cases ht
      have hc := hb c d hd' hg
      subst hc
      rw [update_self] at hm
      exact hn hm
    rw [update_of_ne hne]
    exact hd
  · intro u m hm
    rw [update_apply] at hm
    split_ifs at hm with hut
    · subst hut
      cases hm
      exact ⟨hlt,htask,hend⟩
    · exact h.owner u m hm
  · intro m hm hmend
    have hin := h.active m hm hmend
    by_cases hmt : (s.nodes m).taskIdx = t
    · rw [hmt,ht] at hin
      rw [hmt,update_self]
      exact hin
    · rw [update_of_ne hmt]
      exact hin
  · intro u todo' m code' hm
    rw [update_apply] at hm
    split_ifs at hm with hut
    · cases hm
      exact hcode
    · exact h.leaving u todo' m code' hm

lemma Inv.finish {t n : ℕ} {code : Option ℤ} (ht : s.pc t = .leaving [] n code) : Inv {s with
      pc := update s.pc t .user
      finished := s.finished++[(n,code)]} := by
  obtain ⟨hlt,htask,hend⟩ := h.owner t n (by rw [ht]; rfl)
  have hiff := h.leaving t [] n code ht
  have hended : ended {s with
      pc := update s.pc t .user
      finished := s.finished++[(n,code)]} = ended s++[n] := by simp [ended]
  refine ⟨?_,h.nodup,?_,?_,?_,?_,?_,h.granted,h.grantsOnce,h.counts⟩
  all_goals try dsimp only
  · intro c m hm
    obtain ⟨hmlt,hg,d,hd⟩ := h.linked c m hm
    have hne : (s.nodes m).taskIdx ≠ t := fun heq => by rw [heq,ht] at hd; cases hd
    rw [update_of_ne hne]
    exact ⟨hmlt,hg,d,hd⟩
  · intro u m hm
    rw [update_apply] at hm
    split_ifs at hm with hut
    · cases hm
    obtain ⟨hmlt,hmtask,hmend⟩ := h.owner u m hm
    refine ⟨hmlt,hmtask,?_⟩
    rw [hended,mem_append,mem_singleton]
    rintro (hmem | rfl)
    · exact hmend hmem
    · exact hut (hmtask.symm.trans htask)
  · intro m hm hmend
    rw [hended,mem_append,mem_singleton,not_or] at hmend
    have hin := h.active m hm hmend.1
    have hne : (s.nodes m).taskIdx ≠ t := by
      intro heq
      rw [heq,ht] at hin
      exact hmend.2 (Option.some.inj hin).symm
    rw [update_of_ne hne]
    exact hin
  · intro u todo m code' hm
    by_cases hut : u = t
    · rw [hut,update_self] at hm
      cases hm
    · rw [update_of_ne hut] at hm
      exact h.leaving u todo m code' hm
  · intro p hp
    rcases mem_append.mp hp with hp | hp
    · exact h.finished p hp
    · rw [mem_singleton.mp hp]
      exact ⟨hlt,hiff⟩
  · rw [hended]
    exact nodup_append.mpr ⟨h.once,nodup_singleton n,fun a ha c hc hac =>
      hend (mem_singleton.mp hc ▸ hac ▸ ha)⟩

lemma Inv.resume (env : Env) (t : ℕ) : Inv (resume env s t) := by
  rw [Futex.resume]
  split
  · exact h
  · rename_i n b d ht
    have hin : inWait (s.pc t) = some n := by rw [ht]; rfl
    dsimp only
    by_cases hg : (s.nodes n).granted = true
    · rw [if_pos hg]
      -- A granted node is on no bucket.
      have hfree : n ∉ s.buckets b := fun hmem => by
        rw [(h.linked b n hmem).2.1] at hg
        cases hg
      have hl := h.leave (if d ≠ 0 then disarmStores else []) hin
        (List.Sublist.refl (s.buckets b)) hfree (fun c d' _ hf => by rw [hg] at hf; cases hf)
        (iff_of_true hg (rfl : some (0 : ℤ) = some 0))
      rw [update_eq_self] at hl
      exact hl
    · rw [if_neg hg]
      split_ifs
      · exact h
      all_goals
        refine h.leave _ hin erase_sublist ((h.nodup b).not_mem_erase) ?_ (by simp [hg])
        intro c d' hc _
        rw [ht] at hc
        cases hc
        rfl
  · rename_i d todo n code ht
    have hin : inWait (s.pc t) = some n := by rw [ht]; rfl
    have hfree : n ∉ s.buckets 0 := by
      intro hmem
      obtain ⟨-,-,d',hd'⟩ := h.linked 0 n hmem
      rw [(h.owner t n hin).2.1,ht] at hd'
      cases hd'
    have hl := h.leave todo hin (List.Sublist.refl (s.buckets 0)) hfree
      (fun c d' hc _ => by rw [ht] at hc; cases hc) (h.leaving t _ n code ht)
    rw [update_eq_self] at hl
    cases d <;> exact hl.same rfl
  · exact h.finish (by assumption)

lemma Inv.futex (env : Env) {t : ℕ} (ht : s.pc t = .user) (addr : ℕ) (rawOp : BitVec 64)
    (val val2 : ℕ) : Inv (futex env s t addr rawOp val val2) := by
  have hfail : ∀ code, Inv (s.fail t code) := fun _ => h.same rfl
  simp only [Futex.futex]
  split
  · exact hfail _
  split
  · exact hfail _
  split
  · exact hfail _
  split
  · exact hfail _
  split
  · exact hfail _
  split
  · split
    · exact hfail _
    · exact hfail _
    split
    · exact hfail _
    split
    · exact hfail _
    split_ifs
    · exact hfail _
    · exact h.enqueue ht _ _ _
  · split
    · exact (h.wakeN env _ _ _).same rfl
    · exact hfail _

end

def perform (s : State) (c : Env×Op) : State := step c.1 s c.2

def Next : State → Env×Op → State → Prop := Guarded (fun s c => Ready s c.2) perform

lemma Inv.next {s s' : State} (h : Inv s) {c : Env×Op} (hn : Next s c s') : Inv s' := by
  obtain ⟨env,op⟩ := c
  obtain ⟨hready,rfl⟩ := hn
  cases op with
  | futex t addr rawOp val val2 => exact h.futex env hready addr rawOp val val2
  | wakePrivate root addr count => exact h.wakeN env _ _ count
  | resume t => exact h.resume env t
  | tickStart => exact h.timerTick env.nanos
  | tickStep => exact h.timerStep

def unresumed (s : State) : List ℕ :=
  (List.range s.nextNode).filter (fun n => (s.nodes n).granted && !(ended s).contains n)

structure Accounted (s : State) : Prop where
  linked : ∀ b, ∀ n ∈ s.buckets b, (s.nodes n).granted = false
  once : (grants s).Nodup
  counts : ∀ w ∈ s.wakes, w.1 = w.2.length
  total : (s.wakes.map Prod.fst).sum = s.finished.countP (fun p => p.2 = some 0)+(unresumed s).length
  sleeping : ∀ n ∈ unresumed s, inWait (s.pc (s.nodes n).taskIdx) = some n ∧
    ∀ todo code, s.pc (s.nodes n).taskIdx = .leaving todo n code → code = some 0
  earned : ∀ n, (n,some 0) ∈ s.finished → ∃ w ∈ s.wakes, n ∈ w.2

lemma counts_sum {l : List (ℕ×List ℕ)} (h : ∀ w ∈ l, w.1 = w.2.length) :
    (l.map Prod.fst).sum = (l.flatMap Prod.snd).length := by
  induction l with
  | nil => rfl
  | cons w rest ih =>
    rw [map_cons,sum_cons,flatMap_cons,length_append,
      h w mem_cons_self,ih (fun v hv => h v (mem_cons_of_mem w hv))]

section
variable {s : State} (h : Inv s)
include h

lemma Inv.mem_unresumed {n : ℕ} : n ∈ unresumed s ↔ n ∈ grants s ∧ n ∉ ended s := by
  rw [unresumed,mem_filter,mem_range,h.granted n]
  simp [and_assoc]

lemma Inv.returned_perm : ((s.finished.filter (fun p => p.2 = some 0)).map Prod.fst).Perm
    ((grants s).filter (fun n => (ended s).contains n)) := by
  refine (perm_ext_iff_of_nodup ?_ (h.grantsOnce.filter _)).mpr (fun n => ?_)
  · exact h.once.sublist (filter_sublist.map Prod.fst)
  rw [mem_map,mem_filter,contains_iff_mem]
  constructor
  · rintro ⟨p,hp,rfl⟩
    rw [mem_filter,decide_eq_true_eq] at hp
    obtain ⟨hlt,hiff⟩ := h.finished p hp.1
    exact ⟨(h.granted p.1).mpr ⟨hlt,hiff.mpr hp.2⟩,mem_map_of_mem hp.1⟩
  · rintro ⟨hg,hend⟩
    obtain ⟨p,hp,rfl⟩ := mem_map.mp hend
    refine ⟨p,?_,rfl⟩
    rw [mem_filter,decide_eq_true_eq]
    exact ⟨hp,(h.finished p hp).2.mp ((h.granted p.1).mp hg).2⟩

lemma Inv.unresumed_perm :
    (unresumed s).Perm ((grants s).filter (fun n => !(ended s).contains n)) := by
  refine (perm_ext_iff_of_nodup (nodup_range.filter _) (h.grantsOnce.filter _)).mpr
    (fun n => h.mem_unresumed.trans ?_)
  rw [mem_filter]
  simp

lemma Inv.accounted : Accounted s := by
  refine ⟨fun b n hn => (h.linked b n hn).2.1,h.grantsOnce,h.counts,?_,?_,?_⟩
  · rw [counts_sum h.counts,countP_eq_length_filter,h.unresumed_perm.length_eq,
      ← length_map Prod.fst,h.returned_perm.length_eq]
    exact length_eq_length_filter_add _
  · intro n hn
    obtain ⟨hg,hend⟩ := h.mem_unresumed.mp hn
    obtain ⟨hlt,hgranted⟩ := (h.granted n).mp hg
    exact ⟨h.active n hlt hend,fun todo code hc => (h.leaving _ todo n code hc).mp hgranted⟩
  · intro n hn
    obtain ⟨hlt,hiff⟩ := h.finished _ hn
    exact mem_flatMap.mp ((h.granted n).mpr ⟨hlt,hiff.mpr rfl⟩)

end

instance decidableReady (s : State) (op : Op) : Decidable (Ready s op) := by
  cases op <;> dsimp only [Ready] <;> infer_instance

/-- Three tasks sleep on one word, the third with a deadline that passes; a wake
for two counts the others, of which one has returned. -/
def threeSleepers : List (Env×Op) :=
  let env : Env := ⟨9,some 5,some 5,some 1,some 0,1000,false,false,fun _ => true⟩
  let late : Env := { env with nanos := 2000000000 }
  [(env,.futex 1 4096 128 5 0),(env,.futex 2 4096 128 5 0),(env,.futex 3 4096 128 5 8192),
    (late,.tickStart),(late,.tickStep),(late,.tickStep),(late,.tickStep),(late,.tickStep),
    (late,.futex 4 4096 129 2 0),(late,.resume 3),(late,.resume 1),(late,.resume 1)]

end MoQiOS.Futex
