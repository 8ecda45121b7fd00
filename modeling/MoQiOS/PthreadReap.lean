import MoQiOS.Runs

/-!
# Who frees the block of a thread

`pthread_exit`, `pthread_join` and `pthread_detach` on one thread, and the
drain at the start of every `pthread_create`, with one step for each atomic
operation. Any number of threads make such calls; `me` is the thread the calls
are about, and its stack and control block are the block that is freed. Block 0
of the dead list is this one, the other blocks have other numbers. A freed
block keeps its contents.
-/

namespace MoQiOS.PthreadReap
open Runs

/-- The next operation of a thread. The three operations of `dead_push` know
whether the exiting thread runs them, and the later two the head they saw. -/
inductive Pc where
  | idle
  | joinDetached | joinClaim | joinRecheck | joinState | joinWait | joinRetval | joinFree
  | detachTas | detachJoin | detachState | detachClaim
  | storeRetval | storeState | futexWake | exitDetached | exitJoin | exitClaim
  | pushLoad (leaving : Bool)
  | pushStore (leaving : Bool) (head : Option ℕ)
  | pushCas (leaving : Bool) (head : Option ℕ)
  | sysExit | callExit | gone
  | drainTake
  | drainFree (list : List ℕ)
  deriving DecidableEq, Repr

structure State (τ : Type*) where
  state : Bool
  detached : Bool
  deadClaimed : Bool
  joinClaimed : Bool
  deadList : List ℕ
  freed : ℕ
  touched : Bool
  pc : τ → Pc

variable {τ : Type*}

def start : State τ := ⟨false,false,false,false,[],0,false,fun _ => .idle⟩

def Pc.accesses : Pc → Bool
  | .joinDetached | .joinClaim | .joinRecheck | .joinState | .joinWait | .joinRetval | .joinFree
  | .detachTas | .detachJoin | .detachState | .detachClaim
  | .storeRetval | .storeState | .exitDetached | .exitJoin | .exitClaim
  | .pushStore _ _ => true
  | _ => false

section
variable [DecidableEq τ]

/-- The exiting thread also runs on the stack of the block, up to its last
system call. -/
def touches (me t : τ) (p : Pc) : Bool :=
  p.accesses || (decide (t = me) && p != .sysExit && p != .gone)

def State.goto (s : State τ) (t : τ) (p : Pc) : State τ := { s with pc := Function.update s.pc t p }

/-- A load that ends the call with `stop` when the flag is up. -/
def State.load (s : State τ) (t : τ) (flag : Bool) (stop next : Pc) : State τ :=
  s.goto t (if flag then stop else next)

def joinClaimCas (s : State τ) (t : τ) : State τ :=
  if s.joinClaimed then s.goto t .idle else { s.goto t .joinRecheck with joinClaimed := true }

def deadReapCas (s : State τ) (t : τ) (leaving : Bool) (stop : Pc) : State τ :=
  if s.deadClaimed then s.goto t stop else { s.goto t (.pushLoad leaving) with deadClaimed := true }

def deadPushCas (s : State τ) (t : τ) (leaving : Bool) (head : Option ℕ) : State τ :=
  if s.deadList.head? = head then
    { s.goto t (if leaving then .sysExit else .idle) with deadList := 0::s.deadList }
  else s.goto t (.pushLoad leaving)

def deadDrain (s : State τ) (t : τ) : List ℕ → State τ
  | [] => s.goto t .idle
  | x::rest =>
    if x = 0 then { s.goto t (.drainFree rest) with freed := s.freed+1 }
    else s.goto t (.drainFree rest)

def operate (s : State τ) (t : τ) : State τ :=
  match s.pc t with
  | .idle | .gone => s
  | .joinDetached => s.load t s.detached .idle .joinClaim
  | .joinClaim => joinClaimCas s t
  | .joinRecheck => s.load t s.detached .idle .joinState
  | .joinState => s.load t s.state .joinRetval .joinWait
  | .joinWait => s.goto t .joinState
  | .joinRetval => s.goto t .joinFree
  | .joinFree => { s.goto t .idle with freed := s.freed+1 }
  | .detachTas => { s.load t s.detached .idle .detachJoin with detached := true }
  | .detachJoin => s.load t s.joinClaimed .idle .detachState
  | .detachState => s.load t s.state .detachClaim .idle
  | .detachClaim => deadReapCas s t false .idle
  | .storeRetval => s.goto t .storeState
  | .storeState => { s.goto t .futexWake with state := true }
  | .futexWake => s.goto t .exitDetached
  | .exitDetached => s.load t s.detached .exitJoin .callExit
  | .exitJoin => s.load t s.joinClaimed .callExit .exitClaim
  | .exitClaim => deadReapCas s t true .callExit
  | .pushLoad leaving => s.goto t (.pushStore leaving s.deadList.head?)
  | .pushStore leaving head => s.goto t (.pushCas leaving head)
  | .pushCas leaving head => deadPushCas s t leaving head
  | .sysExit | .callExit => s.goto t .gone
  | .drainTake => { s.goto t (.drainFree s.deadList) with deadList := [] }
  | .drainFree list => deadDrain s t list

inductive Call where
  | join
  | detach
  | create
  | exit
  deriving DecidableEq, Repr

def Call.entry : Call → Pc
  | .join => .joinDetached
  | .detach => .detachTas
  | .create => .drainTake
  | .exit => .storeRetval

inductive Op (τ : Type*) where
  | call (t : τ) (c : Call)
  | step (t : τ)
  | otherPush (x : ℕ)

def Ready (me : τ) (s : State τ) : Op τ → Prop
  | .call t c => s.pc t = .idle ∧ (c = .exit → t = me)
  | .step _ | .otherPush _ => True

instance (me : τ) (s : State τ) : ∀ c, Decidable (Ready me s c)
  | .call _ _ => inferInstanceAs (Decidable (_ ∧ (_ → _)))
  | .step _ | .otherPush _ => inferInstanceAs (Decidable True)

def perform (me : τ) (s : State τ) : Op τ → State τ
  | .call t c => s.goto t c.entry
  | .step t => { operate s t with
      touched := s.touched || (decide (0 < s.freed) && touches me t (s.pc t)) }
  | .otherPush x => { s with deadList := (x+1)::s.deadList }

def Next (me : τ) : State τ → Op τ → State τ → Prop := Guarded (Ready me) (perform me)

end

inductive Role where
  | outside
  | claimant
  | owner
  | detaching
  | passing
  | pusher
  deriving DecidableEq, Repr

/-- A thread is `detaching` once it knows the thread is detached and `passing`
once it found no join claim after that. -/
def Pc.role : Pc → Role
  | .joinRecheck => .claimant
  | .joinState | .joinWait | .joinRetval | .joinFree => .owner
  | .detachJoin | .exitJoin => .detaching
  | .detachState | .detachClaim | .exitClaim => .passing
  | .pushLoad _ | .pushStore _ _ | .pushCas _ _ => .pusher
  | _ => .outside

def Pc.inHand : Pc → ℕ
  | .drainFree list => list.count 0
  | _ => 0

/-- What became of the claim of a join. -/
inductive Claim (τ : Type*) where
  | none
  | claimant (t : τ)
  | owner (t : τ)
  | lost
  | freed

def Claim.won : Claim τ → Bool
  | .owner _ | .freed => true
  | _ => false

/-- Where the block is on its way through the dead list. -/
inductive Place (τ : Type*) where
  | none
  | pusher (t : τ)
  | listed
  | drainer (t : τ)
  | freed

/-- What a thread knows and holds agrees with the two rights. -/
structure Fits (j : Claim τ) (h : Place τ) (detached : Bool) (u : τ) (p : Pc) : Prop where
  claimant : p.role = .claimant ↔ j = .claimant u
  owner : p.role = .owner ↔ j = .owner u
  pusher : p.role = .pusher ↔ h = .pusher u
  drained : p.inHand = 1 ∧ h = .drainer u ∨ p.inHand = 0 ∧ h ≠ .drainer u
  detaching : p.role = .detaching → detached = true
  passing : p.role = .passing → detached = true ∧ j.won = false

structure Owned (s : State τ) (j : Claim τ) (h : Place τ) : Prop where
  threads : ∀ u, Fits j h s.detached u (s.pc u)
  claimed : s.joinClaimed = true ↔ j ≠ .none
  dead : s.deadClaimed = true ↔ h ≠ .none
  listed : s.deadList.count 0 = 1 ∧ h = .listed ∨ s.deadList.count 0 = 0 ∧ h ≠ .listed
  placed : h ≠ .none → s.detached = true ∧ j.won = false
  freed : s.freed = 0 ∧ h ≠ .freed ∧ j ≠ .freed ∨ s.freed = 1 ∧ (h = .freed ∨ j = .freed)

lemma start_owned : Owned (start : State τ) .none .none := by
  constructor
  · intro u
    constructor <;> simp [start,Pc.role,Pc.inHand]
  all_goals simp [start]

section
variable [DecidableEq τ] {s : State τ} {j j' : Claim τ} {h h' : Place τ} {t : τ} {p q : Pc}

lemma goto_pc (s : State τ) (t u : τ) (p : Pc) :
    (s.goto t p).pc u = if u = t then p else s.pc u := by
  simp [State.goto,Function.update_apply]

@[simp,grind =] lemma goto_detached : (s.goto t p).detached = s.detached := rfl

@[simp,grind =] lemma goto_joinClaimed : (s.goto t p).joinClaimed = s.joinClaimed := rfl

@[simp,grind =] lemma goto_deadClaimed : (s.goto t p).deadClaimed = s.deadClaimed := rfl

@[simp,grind =] lemma goto_deadList : (s.goto t p).deadList = s.deadList := rfl

@[simp,grind =] lemma goto_freed : (s.goto t p).freed = s.freed := rfl

attribute [local grind cases] Fits

variable (ho : Owned s j h)
include ho

lemma goto_threads {detached : Bool}
    (hself : Fits j h s.detached t (s.pc t) → Fits j' h' detached t p)
    (hothers : ∀ u q, u ≠ t → Fits j h s.detached u q → Fits j' h' detached u q) (u : τ) :
    Fits j' h' detached u ((s.goto t p).pc u) := by
  rw [goto_pc]
  split_ifs with hu
  · subst hu
    exact hself (ho.threads u)
  · exact hothers u _ hu (ho.threads u)

lemma Owned.move (hq : s.pc t = q)
    (hr : p.role = q.role ∨ (p.role = .outside ∧ (q.role = .detaching ∨ q.role = .passing)))
    (hh : p.inHand = q.inHand) : Owned (s.goto t p) j h := by
  refine ⟨goto_threads ho ?_ (fun _ _ _ hf => hf),ho.claimed,ho.dead,ho.listed,ho.placed,ho.freed⟩
  intro hf
  constructor <;> grind

omit [DecidableEq τ] in
lemma Owned.detach : Owned {s with detached := true} j h := by
  refine ⟨fun u => ?_,ho.claimed,ho.dead,ho.listed,fun hp => ⟨rfl,(ho.placed hp).2⟩,ho.freed⟩
  obtain ⟨h1,h2,h3,h4,-,h6⟩ := ho.threads u
  exact ⟨h1,h2,h3,h4,fun _ => rfl,fun hp => ⟨rfl,(h6 hp).2⟩⟩

/-! ### The claim of a join -/

omit [DecidableEq τ] in
lemma Owned.unclaimed (hn : s.joinClaimed = false) : j = .none := by
  by_contra hj
  rw [ho.claimed.mpr hj] at hn
  exact Bool.noConfusion hn

lemma Owned.join_claims (hn : s.joinClaimed = false)
    (hr : s.pc t = .joinClaim) :
    Owned {s.goto t .joinRecheck with joinClaimed := true} (.claimant t) h := by
  obtain rfl := ho.unclaimed hn
  refine ⟨goto_threads ho ?_ ?_,?_,ho.dead,ho.listed,fun hp => ⟨(ho.placed hp).1,rfl⟩,?_⟩
  · intro hf
    constructor <;> grind [Pc.role,Pc.inHand]
  · intro u q hu hf
    constructor <;> grind [Claim.won]
  · simp
  · have hf := ho.freed
    grind

lemma Owned.join_wins (hd : s.detached = false)
    (hr : s.pc t = .joinRecheck) : Owned (s.goto t .joinState) (.owner t) h := by
  have hj : j = .claimant t := (ho.threads t).claimant.mp (by rw [hr]; rfl)
  have hnone : h = .none := by
    by_contra hh
    rw [(ho.placed hh).1] at hd
    exact Bool.noConfusion hd
  subst hj hnone
  have hc := ho.claimed
  have hf := ho.freed
  refine ⟨goto_threads ho ?_ ?_,?_,ho.dead,ho.listed,fun hp => absurd rfl hp,?_⟩
  · intro hf
    constructor <;> grind [Pc.role,Pc.inHand]
  · intro u q hu hf
    constructor <;> grind
  all_goals grind

lemma Owned.join_loses (hr : s.pc t = .joinRecheck) : Owned (s.goto t .idle) .lost h := by
  have hj : j = .claimant t := (ho.threads t).claimant.mp (by rw [hr]; rfl)
  subst hj
  have hc := ho.claimed
  have hf := ho.freed
  refine ⟨goto_threads ho ?_ ?_,?_,ho.dead,ho.listed,fun hp => ⟨(ho.placed hp).1,rfl⟩,?_⟩
  · intro hf
    constructor <;> grind [Pc.role,Pc.inHand]
  · intro u q hu hf
    constructor <;> grind [Claim.won]
  all_goals grind

lemma Owned.join_frees (hr : s.pc t = .joinFree) :
    Owned {s.goto t .idle with freed := s.freed+1} .freed h := by
  have hj : j = .owner t := (ho.threads t).owner.mp (by rw [hr]; rfl)
  have hnone : h = .none := by
    by_contra hh
    rw [hj] at ho
    exact Bool.noConfusion (ho.placed hh).2
  subst hj hnone
  have hc := ho.claimed
  have hf := ho.freed
  refine ⟨goto_threads ho ?_ ?_,?_,ho.dead,ho.listed,fun hp => absurd rfl hp,?_⟩
  · intro hf
    constructor <;> grind [Pc.role,Pc.inHand]
  · intro u q hu hf
    constructor <;> grind [Claim.won]
  all_goals grind

/-! ### The way through the dead list -/

lemma Owned.learns (hd : s.detached = true) (hq : s.pc t = q)
    (hr : q.role = .outside) (hp : p.role = .detaching) (hh : p.inHand = q.inHand) : Owned (s.goto t p) j h := by
  refine ⟨goto_threads ho ?_ (fun _ _ _ hf => hf),ho.claimed,ho.dead,ho.listed,ho.placed,ho.freed⟩
  intro hf
  constructor <;> grind

lemma Owned.passes (hn : s.joinClaimed = false) (hq : s.pc t = q)
    (hr : q.role = .detaching) (hp : p.role = .passing) (hh : p.inHand = q.inHand) : Owned (s.goto t p) j h := by
  obtain rfl := ho.unclaimed hn
  refine ⟨goto_threads ho ?_ (fun _ _ _ hf => hf),ho.claimed,ho.dead,ho.listed,ho.placed,ho.freed⟩
  intro hf
  constructor <;> grind [Claim.won]

lemma Owned.dead_claims (hn : s.deadClaimed = false) (hq : s.pc t = q)
    (hr : q.role = .passing) (leaving : Bool) :
    Owned {s.goto t (.pushLoad leaving) with deadClaimed := true} j (.pusher t) := by
  have hnone : h = .none := by
    by_contra hh
    rw [ho.dead.mpr hh] at hn
    exact Bool.noConfusion hn
  subst hnone
  refine ⟨goto_threads ho ?_ ?_,ho.claimed,?_,?_,fun _ => (ho.threads t).passing (hq ▸ hr),?_⟩
  · intro hf
    constructor <;> grind [Pc.role,Pc.inHand]
  · intro u q hu hf
    constructor <;> grind
  · simp
  · have hl := ho.listed
    grind
  · have hf := ho.freed
    grind

lemma Owned.pushes (hq : s.pc t = q) (hr : q.role = .pusher)
    (hp : p.role = .outside) (hi : p.inHand = 0) :
    Owned {s.goto t p with deadList := 0::s.deadList} j .listed := by
  have hpl : h = .pusher t := (ho.threads t).pusher.mp (hq ▸ hr)
  subst hpl
  refine ⟨goto_threads ho ?_ ?_,ho.claimed,?_,?_,fun _ => ho.placed (by nofun),?_⟩
  · intro hf
    constructor <;> grind
  · intro u q hu hf
    constructor <;> grind
  · have hd := ho.dead
    grind
  · have hl := ho.listed
    simp only [List.count_cons_self]
    grind
  · have hf := ho.freed
    grind

lemma Owned.takes (hr : s.pc t = .drainTake) :
    ∃ h', Owned {s.goto t (.drainFree s.deadList) with deadList := []} j h' := by
  have hl := ho.listed
  have hf := ho.freed
  have hd := ho.dead
  by_cases hh : h = .listed
  · subst hh
    refine ⟨.drainer t,goto_threads ho ?_ ?_,ho.claimed,?_,?_,fun _ => ho.placed (by nofun),?_⟩
    · intro hf
      constructor <;> grind [Pc.role,Pc.inHand]
    · intro u q hu hf
      constructor <;> grind
    · grind
    · exact .inr ⟨rfl,by nofun⟩
    · grind
  · refine ⟨h,goto_threads ho ?_ (fun _ _ _ hf => hf),ho.claimed,ho.dead,.inr ⟨rfl,hh⟩,
      ho.placed,ho.freed⟩
    intro hf
    constructor <;> grind [Pc.role,Pc.inHand]

lemma Owned.drain_frees {rest : List ℕ} (hr : s.pc t = .drainFree (0::rest)) :
    Owned {s.goto t (.drainFree rest) with freed := s.freed+1} j .freed := by
  have hone : (s.pc t).inHand = rest.count 0+1 := by
    rw [hr]
    exact List.count_cons_self
  have hh : h = .drainer t := by
    have hd := (ho.threads t).drained
    grind
  subst hh
  have hj := (ho.placed (by nofun)).2
  refine ⟨goto_threads ho ?_ ?_,ho.claimed,?_,?_,fun _ => ho.placed (by nofun),?_⟩
  · intro hf
    constructor <;> grind [Pc.role,Pc.inHand]
  · intro u q hu hf
    constructor <;> grind
  · have hd := ho.dead
    grind
  · have hl := ho.listed
    grind
  · have hf := ho.freed
    grind [Claim.won]

end

end MoQiOS.PthreadReap
