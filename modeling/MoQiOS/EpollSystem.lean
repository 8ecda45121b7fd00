import MoQiOS.Epoll

/-!
# Notifications and collections

The holder of the pool lock is a notification on its way through the instances
and their parents, or a collection that resets the parents of an instance it
emptied. Any number of collections run beside it. Resources change as they
like: they become ready, and reads drain them.
-/

namespace MoQiOS.Epoll
open Runs

/-- What the holder of the pool lock still has to do. `nested` is
`propagateNestedReadyLocked`, with the child whose parents are being told. -/
inductive Sweep (ρ : Type*) where
  | scan (target : Target ρ) (ready : Events) (todo newlyReady : List ℕ)
  | nested (pending visited : List ℕ) (child : Option (ℕ×List ℕ))
  | reset (child generation : ℕ) (todo : List ℕ)
  deriving DecidableEq

/-- A running `collectEvents`. `final` holds the events found for the first
slot of `todo` until its section has run; `closing` waits for the pool lock. -/
structure Collection where
  inst : ℕ
  drained : Bool
  todo : List ℕ
  final : Option Events
  maxOut : ℕ
  out : List (Events×ℕ)
  closing : Bool
  deriving DecidableEq

structure State (ρ γ : Type*) where
  pool : ℕ → Instance ρ
  valid : List ℕ
  level : ρ → Events
  sweep : Option (Sweep ρ)
  running : γ → Option Collection

variable {ρ γ : Type*}

def start (regs : ℕ → ℕ → Registration ρ) (generation : ℕ → ℕ) (valid : List ℕ)
    (level : ρ → Events) : State ρ γ :=
  ⟨fun e => ⟨fun i => ⟨regs e i,false,false,0⟩,[],generation e⟩,valid,level,none,fun _ => none⟩

def computeCurrentEvents (s : State ρ γ) : Target ρ → Events
  | .resource r => s.level r
  | .epoll e =>
    if e ∉ s.valid then epollErr
    else if (s.pool e).ready = [] then epollOut else epollIn ||| epollOut

def finalEvents (s : State ρ γ) (reg : Registration ρ) : Events :=
  let current := computeCurrentEvents s reg.target
  (current &&& reg.interest) ||| (current &&& alwaysReported)

def lowest (pending : List ℕ) : Option ℕ :=
  (List.range maxEpollInstances).find? (fun e => e ∈ pending)

section
variable [DecidableEq ρ] [DecidableEq γ]

def State.setInstance (s : State ρ γ) (e : ℕ) (inst : Instance ρ) : State ρ γ :=
  { s with pool := Function.update s.pool e inst }

def State.setRunning (s : State ρ γ) (c : γ) (k : Option Collection) : State ρ γ :=
  { s with running := Function.update s.running c k }

def advanceSweep (s : State ρ γ) : Sweep ρ → State ρ γ
  | .scan _ _ [] newlyReady => { s with sweep := some (.nested newlyReady [] none) }
  | .scan target ready (e::todo) newlyReady =>
    let r := notifyInstance target ready (s.pool e)
    { s.setInstance e r.1 with
      sweep := some (.scan target ready todo (if r.2 then e::newlyReady else newlyReady)) }
  | .nested pending visited none =>
    match lowest pending with
    | none => { s with sweep := none }
    | some child =>
      let rest := pending.filter (· ≠ child)
      if child ∈ visited then { s with sweep := some (.nested rest visited none) }
      else { s with sweep := some (.nested rest (child::visited)
        (some (child,s.valid.filter (· ≠ child)))) }
  | .nested pending visited (some (_,[])) => { s with sweep := some (.nested pending visited none) }
  | .nested pending visited (some (child,parent::todo)) =>
    let r := propagateInstance child (s.pool child).generation (s.pool parent)
    { s.setInstance parent r.1 with
      sweep := some (.nested (if r.2 then parent::pending else pending) visited
        (some (child,todo))) }
  | .reset _ _ [] => { s with sweep := none }
  | .reset child generation (parent::todo) =>
    { s.setInstance parent (resetInstance child generation (s.pool parent)) with
      sweep := some (.reset child generation todo) }

def beginCollect (s : State ρ γ) (c : γ) (e maxOut : ℕ) : State ρ γ :=
  (s.setInstance e (collectSnapshot (s.pool e)).1).setRunning c
    (some ⟨e,(s.pool e).ready ≠ [],(collectSnapshot (s.pool e)).2,none,maxOut,[],false⟩)

/-- The look at the first resource of the snapshot. `found` is false when the
descriptor the registration probes through is gone. -/
def probe (s : State ρ γ) (c : γ) (k : Collection) (i : ℕ) (rest : List ℕ) (found : Bool) :
    State ρ γ :=
  let final := finalEvents s ((s.pool k.inst).items i).reg
  if !found ∨ final = 0 then s.setRunning c (some { k with todo := rest })
  else s.setRunning c (some { k with final := some final })

def update (s : State ρ γ) (c : γ) (k : Collection) (i : ℕ) (rest : List ℕ) (final : Events)
    (registered : Bool) : State ρ γ :=
  if registered then
    let delivered : Bool := k.out.length < k.maxOut
    let out := if delivered then k.out++[(final,((s.pool k.inst).items i).reg.data)] else k.out
    (s.setInstance k.inst (collectUpdate (s.pool k.inst) i delivered)).setRunning c
      (some { k with todo := rest, final := none, out := out })
  else s.setRunning c (some { k with todo := rest, final := none })

/-- The end of a collection: a queue that was emptied and is still empty is
reason to reset the parents. -/
def endCollect (s : State ρ γ) (c : γ) (k : Collection) : State ρ γ :=
  if k.drained ∧ (s.pool k.inst).ready = [] then s.setRunning c (some { k with closing := true })
  else s.setRunning c none

def resetNestedEdgeState (s : State ρ γ) (c : γ) (k : Collection) : State ρ γ :=
  if k.inst ∉ s.valid ∨ (s.pool k.inst).ready ≠ [] then s.setRunning c none
  else { s.setRunning c none with
    sweep := some (.reset k.inst (s.pool k.inst).generation (s.valid.filter (· ≠ k.inst))) }

inductive Op (ρ γ : Type*) where
  | change (r : ρ) (events : Events)
  | notify (target : Target ρ) (ready : Events)
  | sweep
  | begin (c : γ) (e maxOut : ℕ)
  | probe (c : γ) (found : Bool)
  | update (c : γ) (registered : Bool)
  | finish (c : γ)
  | reset (c : γ)

def Ready (s : State ρ γ) : Op ρ γ → Prop
  | .notify _ _ | .reset _ => s.sweep.isNone = true
  | .begin c _ _ => (s.running c).isNone = true
  | _ => True

instance (s : State ρ γ) (c : Op ρ γ) : Decidable (Ready s c) := by
  cases c <;> dsimp only [Ready] <;> infer_instance

/-- A section of a collection applies only where the collection stands. -/
def step (s : State ρ γ) : Op ρ γ → State ρ γ
  | .change r events => { s with level := Function.update s.level r events }
  | .notify target ready => { s with sweep := some (.scan target ready s.valid []) }
  | .sweep => match s.sweep with
    | none => s
    | some w => advanceSweep s w
  | .begin c e maxOut => beginCollect s c e maxOut
  | .probe c found => match s.running c with
    | none => s
    | some k => match k.todo, k.final with
      | i::rest, none => probe s c k i rest found
      | _, _ => s
  | .update c registered => match s.running c with
    | none => s
    | some k => match k.todo, k.final with
      | i::rest, some final => update s c k i rest final registered
      | _, _ => s
  | .finish c => match s.running c with
    | none => s
    | some k => if k.todo = [] ∧ !k.closing then endCollect s c k else s
  | .reset c => match s.running c with
    | none => s
    | some k => if k.todo = [] ∧ k.closing then resetNestedEdgeState s c k else s

def Next : State ρ γ → Op ρ γ → State ρ γ → Prop := Guarded Ready step

end

end MoQiOS.Epoll
