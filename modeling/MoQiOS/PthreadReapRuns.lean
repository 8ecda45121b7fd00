import MoQiOS.PthreadReap

/-!
# Runs of join, detach, exit and create

In every run the block is freed at most once. That nobody touches it afterwards
needs more than the two rights: the exiting thread still uses the block after
it has published its end.
-/

namespace MoQiOS.PthreadReap
open Runs Function Bool

variable {τ : Type*}

section
variable [DecidableEq τ] {s : State τ} {j : Claim τ} {h : Place τ} {t : τ} {p q : Pc}

variable (ho : Owned s j h)
include ho

omit [DecidableEq τ] in
lemma Owned.otherPush (x : ℕ) : Owned {s with deadList := (x+1)::s.deadList} j h := by
  have hc : ((x+1)::s.deadList).count 0 = s.deadList.count 0 :=
    List.count_cons_of_ne (Nat.succ_ne_zero x)
  refine ⟨ho.threads,ho.claimed,ho.dead,?_,ho.placed,ho.freed⟩
  rw [hc]
  exact ho.listed

lemma Owned.joinClaimCas (hq : s.pc t = .joinClaim) : ∃ j', Owned (joinClaimCas s t) j' h := by
  unfold PthreadReap.joinClaimCas
  split_ifs with hc
  · exact ⟨j,ho.move hq (.inl rfl) rfl⟩
  · exact ⟨_,ho.join_claims (eq_false_iff.mpr hc) hq⟩

lemma Owned.joinRecheck (hq : s.pc t = .joinRecheck) :
    ∃ j', Owned (s.load t s.detached .idle .joinState) j' h := by
  unfold State.load
  split_ifs with hd
  · exact ⟨_,ho.join_loses hq⟩
  · exact ⟨_,ho.join_wins (eq_false_iff.mpr hd) hq⟩

lemma Owned.detachTas (hq : s.pc t = .detachTas) :
    Owned {s.load t s.detached .idle .detachJoin with detached := true} j h := by
  have hd : Owned {s with detached := true} j h := ho.detach
  unfold State.load
  split_ifs
  · exact hd.move hq (.inl rfl) rfl
  · exact hd.learns rfl hq rfl rfl rfl

lemma Owned.deadReapCas (hq : s.pc t = q) (hr : q.role = .passing)
    (hi : q.inHand = 0) (leaving : Bool) (hp : p.role = .outside) (hh : p.inHand = 0) :
    ∃ h', Owned (deadReapCas s t leaving p) j h' := by
  unfold PthreadReap.deadReapCas
  split_ifs with hc
  · exact ⟨h,ho.move hq (.inr ⟨hp,.inr hr⟩) (hh.trans hi.symm)⟩
  · exact ⟨_,ho.dead_claims (eq_false_iff.mpr hc) hq hr leaving⟩

lemma Owned.joinCheck (hq : s.pc t = q) (hr : q.role = .detaching)
    (hi : q.inHand = 0) {stop : Pc} (hs : stop.role = .outside) (hs' : stop.inHand = 0)
    (hp : p.role = .passing) (hh : p.inHand = 0) : Owned (s.load t s.joinClaimed stop p) j h := by
  unfold State.load
  split_ifs with hc
  · exact ho.move hq (.inr ⟨hs,.inl hr⟩) (hs'.trans hi.symm)
  · exact ho.passes (eq_false_iff.mpr hc) hq hr hp (hh.trans hi.symm)

lemma Owned.deadPushCas {leaving : Bool} {head : Option ℕ}
    (hq : s.pc t = .pushCas leaving head) : ∃ h', Owned (deadPushCas s t leaving head) j h' := by
  unfold PthreadReap.deadPushCas
  split_ifs
  · exact ⟨_,ho.pushes hq rfl rfl rfl⟩
  · exact ⟨_,ho.pushes hq rfl rfl rfl⟩
  · exact ⟨h,ho.move hq (.inl rfl) rfl⟩

lemma Owned.deadDrain {list : List ℕ} (hq : s.pc t = .drainFree list) :
    ∃ h', Owned (deadDrain s t list) j h' := by
  rcases list with _ | ⟨x,rest⟩
  · exact ⟨h,ho.move hq (.inl rfl) rfl⟩
  simp only [PthreadReap.deadDrain]
  split_ifs with hx
  · subst hx
    exact ⟨_,ho.drain_frees hq⟩
  · exact ⟨h,ho.move hq (.inl rfl) (List.count_cons_of_ne hx).symm⟩

lemma Owned.operate (t : τ) : ∃ j' h', Owned (operate s t) j' h' := by
  have hload : ∀ {q stop next : Pc} (flag : Bool), s.pc t = q → stop.role = q.role →
      stop.inHand = q.inHand → next.role = q.role → next.inHand = q.inHand →
      Owned (s.load t flag stop next) j h := by
    intro q stop next flag hq h1 h2 h3 h4
    unfold State.load
    split_ifs
    · exact ho.move hq (.inl h1) h2
    · exact ho.move hq (.inl h3) h4
  unfold PthreadReap.operate
  cases hq : s.pc t
  case idle | gone => exact ⟨j,h,ho⟩
  case joinDetached => exact ⟨j,h,hload s.detached hq rfl rfl rfl rfl⟩
  case joinClaim => exact (ho.joinClaimCas hq).imp fun _ hj => ⟨h,hj⟩
  case joinRecheck => exact (ho.joinRecheck hq).imp fun _ hj => ⟨h,hj⟩
  case joinState => exact ⟨j,h,hload s.state hq rfl rfl rfl rfl⟩
  case joinFree => exact ⟨_,h,ho.join_frees hq⟩
  case detachTas => exact ⟨j,h,ho.detachTas hq⟩
  case detachJoin | exitJoin => exact ⟨j,h,ho.joinCheck hq rfl rfl rfl rfl rfl rfl⟩
  case detachState =>
    refine ⟨j,h,?_⟩
    dsimp only
    unfold State.load
    split_ifs
    · exact ho.move hq (.inl rfl) rfl
    · exact ho.move hq (.inr ⟨rfl,.inr rfl⟩) rfl
  case detachClaim => exact ⟨j,ho.deadReapCas hq rfl rfl false rfl rfl⟩
  case storeState =>
    have hm : Owned (s.goto t .futexWake) j h := ho.move hq (.inl rfl) rfl
    exact ⟨j,h,hm.threads,hm.claimed,hm.dead,hm.listed,hm.placed,hm.freed⟩
  case exitDetached =>
    refine ⟨j,h,?_⟩
    dsimp only
    unfold State.load
    split_ifs with hd
    · exact ho.learns hd hq rfl rfl rfl
    · exact ho.move hq (.inl rfl) rfl
  case exitClaim => exact ⟨j,ho.deadReapCas hq rfl rfl true rfl rfl⟩
  case pushCas => exact ⟨j,ho.deadPushCas hq⟩
  case drainTake => exact ⟨j,ho.takes hq⟩
  case drainFree => exact ⟨j,ho.deadDrain hq⟩
  -- the others stay in their role
  all_goals exact ⟨j,h,ho.move hq (.inl rfl) rfl⟩

omit ho

def Settled (s : State τ) : Prop := ∃ j h, Owned s j h

variable {s' : State τ} {me : τ}

lemma Settled.next {c : Op τ} (hs : Settled s) (hn : Next me s c s') : Settled s' := by
  obtain ⟨j,h,ho⟩ := hs
  obtain ⟨hr,rfl⟩ := hn
  cases c with
  | call t c =>
    refine ⟨j,h,ho.move hr.1 (.inl ?_) ?_⟩ <;> cases c <;> rfl
  | step t =>
    obtain ⟨j',h',hd⟩ := ho.operate t
    exact ⟨j',h',hd.threads,hd.claimed,hd.dead,hd.listed,hd.placed,hd.freed⟩
  | otherPush x => exact ⟨j,h,ho.otherPush x⟩

omit [DecidableEq τ] in
lemma Settled.freed_le (hs : Settled s) : s.freed ≤ 1 := by
  obtain ⟨j,h,ho⟩ := hs
  rcases ho.freed with hf | hf
  · omega
  · exact hf.1.le

def Pc.away : Pc → Bool
  | .idle | .sysExit | .gone | .drainTake | .drainFree _ => true
  | _ => false

def Pc.frees : Pc → Bool
  | .joinFree | .drainFree (0::_) => true
  | _ => false

/-- The block is freed when the exiting thread has made its last access and no
other call on the thread is running, and no call on it starts later. -/
def Still (me : τ) (s : State τ) : Op τ → Prop
  | .call _ k => k = .create ∨ k = .exit ∨ s.freed = 0
  | .step t => (s.pc t).frees = true →
    (s.pc me = .sysExit ∨ s.pc me = .gone) ∧ ∀ u, u ≠ t → (s.pc u).away = true
  | .otherPush _ => True

instance [Fintype τ] (me : τ) (s : State τ) : ∀ c, Decidable (Still me s c)
  | .call _ _ => inferInstanceAs (Decidable (_ ∨ _ ∨ _))
  | .step t => inferInstanceAs (Decidable ((s.pc t).frees = true → _ ∧ ∀ u, u ≠ t → _))
  | .otherPush _ => inferInstanceAs (Decidable True)

def Quiet (me : τ) : State τ → Op τ → State τ → Prop :=
  Guarded (fun s c => Ready me s c ∧ Still me s c) (perform me)

structure Calm (me : τ) (s : State τ) : Prop where
  left : 0 < s.freed → s.pc me = .sysExit ∨ s.pc me = .gone
  away : 0 < s.freed → ∀ u, (s.pc u).away = true
  untouched : s.touched = false

/-- What a step of `t` can do, as far as freeing and accessing go. -/
structure Moves (s s' : State τ) (t : τ) (p : Pc) : Prop where
  pc : s'.pc = update s.pc t p
  freed : (s.pc t).frees = false → s'.freed = s.freed
  away : (s.pc t).away = true ∨ (s.pc t).frees = true → p.away = true
  gone : s.pc t = .sysExit ∨ s.pc t = .gone → p = .gone

lemma busy_moves (hq : s.pc t = q) (hb : (q.away || q.frees) = false)
    (hpc : s'.pc = update s.pc t p) (hf : s'.freed = s.freed) : ∃ p, Moves s s' t p := by
  subst hq
  refine ⟨p,hpc,fun _ => hf,?_,?_⟩
  · rintro (h | h) <;> simp [h] at hb
  · rintro (h | h) <;> rw [h] at hb <;> exact absurd hb Bool.noConfusion

lemma operate_moves (s : State τ) (t : τ) : ∃ p, Moves s (operate s t) t p := by
  have hself : ∀ q, s.pc t = q → s.pc = update s.pc t q := by
    rintro q rfl
    rw [update_eq_self]
  unfold operate
  cases hq : s.pc t
  case idle => exact ⟨.idle,hself _ hq,fun _ => rfl,fun _ => rfl,by simp [hq]⟩
  case gone => exact ⟨.gone,hself _ hq,fun _ => rfl,fun _ => rfl,fun _ => rfl⟩
  case joinClaim =>
    simp only [joinClaimCas]
    split_ifs <;> exact busy_moves hq rfl rfl rfl
  case joinFree => exact ⟨.idle,rfl,by simp [hq,Pc.frees],fun _ => rfl,by simp [hq]⟩
  case detachClaim | exitClaim =>
    simp only [deadReapCas]
    split_ifs <;> exact busy_moves hq rfl rfl rfl
  case pushCas =>
    simp only [deadPushCas]
    split <;> exact busy_moves hq rfl rfl rfl
  case sysExit => exact ⟨.gone,rfl,fun _ => rfl,fun _ => rfl,fun _ => rfl⟩
  case drainTake => exact ⟨_,rfl,fun _ => rfl,fun _ => rfl,by simp [hq]⟩
  case drainFree list =>
    rcases list with _ | ⟨x,rest⟩
    · exact ⟨.idle,rfl,fun _ => rfl,fun _ => rfl,by simp [hq]⟩
    simp only [deadDrain]
    split_ifs with hx
    · subst hx
      exact ⟨_,rfl,by simp [hq,Pc.frees],fun _ => rfl,by simp [hq]⟩
    · exact ⟨_,rfl,fun _ => rfl,fun _ => rfl,by simp [hq]⟩
  -- every other operation is an access that frees nothing
  all_goals exact busy_moves hq rfl rfl rfl

lemma away_touches (ha : p.away = true) (hm : t = me → p = .sysExit ∨ p = .gone) :
    touches me t p = false := by
  have hacc : p.accesses = false := by
    cases p <;> first | rfl | exact absurd ha Bool.noConfusion
  unfold touches
  rw [hacc]
  by_cases ht : t = me
  · rcases hm ht with rfl | rfl <;> simp
  · simp [ht]

lemma Calm.step (hc : Calm me s) (hq : Still me s (.step t)) : Calm me (perform me s (.step t)) := by
  obtain ⟨p,hm⟩ := operate_moves s t
  have hpc : ∀ u, (operate s t).pc u = if u = t then p else s.pc u := by
    intro u
    rw [hm.pc,update_apply]
  have hbefore : 0 < (operate s t).freed → (s.pc t).frees = true ∨ 0 < s.freed := by
    intro hpos
    cases hf : (s.pc t).frees with
    | true => exact .inl rfl
    | false =>
      rw [hm.freed hf] at hpos
      exact .inr hpos
  have hleft : 0 < (operate s t).freed → s.pc me = .sysExit ∨ s.pc me = .gone := fun hpos =>
    (hbefore hpos).elim (fun hf => (hq hf).1) hc.left
  constructor
  · intro hpos
    change (operate s t).pc me = .sysExit ∨ (operate s t).pc me = .gone
    rw [hpc]
    split_ifs with hu
    · subst hu
      exact .inr (hm.gone (hleft hpos))
    · exact hleft hpos
  · intro hpos u
    change ((operate s t).pc u).away = true
    rw [hpc]
    rcases hbefore hpos with hf | hs
    · split_ifs with hu
      · exact hm.away (.inr hf)
      · exact (hq hf).2 u hu
    · split_ifs
      · exact hm.away (.inl (hc.away hs t))
      · exact hc.away hs u
  · change (s.touched || (decide (0 < s.freed) && touches me t (s.pc t))) = false
    rw [hc.untouched,Bool.false_or]
    by_cases hs : 0 < s.freed
    · have hm : t = me → s.pc t = .sysExit ∨ s.pc t = .gone := by
        rintro rfl
        exact hc.left hs
      rw [away_touches (hc.away hs t) hm,Bool.and_false]
    · rw [decide_eq_false hs,Bool.false_and]

lemma Calm.next {c : Op τ} (hc : Calm me s) (hn : Quiet me s c s') : Calm me s' := by
  obtain ⟨⟨hr,hq⟩,rfl⟩ := hn
  cases c with
  | call t k =>
    have hidle : 0 < s.freed → t ≠ me := by
      rintro hs rfl
      rcases hc.left hs with h | h <;> rw [hr.1] at h <;> exact absurd h (by nofun)
    refine ⟨fun hs => ?_,fun hs u => ?_,hc.untouched⟩
    · change (s.goto t k.entry).pc me = _ ∨ (s.goto t k.entry).pc me = _
      rw [goto_pc,if_neg (hidle hs).symm]
      exact hc.left hs
    · change ((s.goto t k.entry).pc u).away = true
      rw [goto_pc]
      split_ifs
      · rcases hq with rfl | rfl | hz
        · rfl
        · exact absurd (hr.2 rfl) (hidle hs)
        · exact absurd hz (Nat.pos_iff_ne_zero.mp hs)
      · exact hc.away hs u
  | step t => exact hc.step hq
  | otherPush x => exact ⟨hc.left,hc.away,hc.untouched⟩

end

/-- Thread `true` joins `false`, which exits: the join finds the end published
and frees the block before the exiting thread has looked at `detached`. -/
def hastyJoin : List (Op Bool) :=
  [.call true .join,.step true,.step true,.step true,.call false .exit,.step false,.step false,
    .step true,.step true,.step true,.step false]

def patientJoin : List (Op Bool) :=
  [.call true .join,.step true,.step true,.step true,.call false .exit,.step false,.step false,
    .step false,.step false,.step false,.step true,.step true,.step true]

end MoQiOS.PthreadReap
