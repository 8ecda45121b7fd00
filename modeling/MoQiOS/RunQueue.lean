import MoQiOS.Runs

/-!
# Per-CPU run queues

A run queue is a ring of 256 entries between `tail` (oldest) and `head`, both
free-running 32-bit counters. An entry names a task and the incarnation it was
queued under; it is stale once the task has another incarnation. The task
fields the queue reads are a parameter, because others change them between the
calls.
-/

namespace MoQiOS.RunQueue
open Function

def queueSize : ℕ := 256

structure Task where
  incarnation : ℕ
  schedPolicy : ℕ
  priority : ℕ
  cpuAffinity : ℤ

/-- `stamp` is the number of the push; the source does not keep it. -/
structure Entry (τ : Type*) where
  task : τ
  incarnation : ℕ
  stamp : ℕ
  deriving DecidableEq, Repr

structure PerCpuRunQueue (τ : Type*) where
  tasks : ℕ → Option (Entry τ)
  head : ℕ
  tail : ℕ
  nrRunning : ℕ
  cpuId : ℕ
  pushes : ℕ

variable {τ : Type*}

def fresh (cpuId : ℕ) : PerCpuRunQueue τ := ⟨fun _ => none,0,0,0,cpuId,0⟩

def tokenMatches (info : τ → Task) (e : Entry τ) : Bool := e.incarnation = (info e.task).incarnation

def PerCpuRunQueue.slot (q : PerCpuRunQueue τ) (i : ℕ) : ℕ := (q.tail+i)%2^32%queueSize

/-- The store, `head +%= 1` and the atomic addition of an enqueue. -/
def PerCpuRunQueue.insert (q : PerCpuRunQueue τ) (e : Entry τ) : PerCpuRunQueue τ :=
  { q with
    tasks := update q.tasks (q.head%queueSize) (some e)
    head := (q.head+1)%2^32
    nrRunning := (q.nrRunning+1)%2^32 }

/-- The clearing store, `tail +%= 1` and the atomic subtraction of a dequeue. -/
def PerCpuRunQueue.advance (q : PerCpuRunQueue τ) : PerCpuRunQueue τ :=
  { q with
    tasks := update q.tasks (q.tail%queueSize) none
    tail := (q.tail+1)%2^32
    nrRunning := (q.nrRunning+(2^32-1))%2^32 }

def push [DecidableEq τ] (info : τ → Task) (q : PerCpuRunQueue τ) (t : τ) :
    Bool×PerCpuRunQueue τ :=
  if (List.range q.nrRunning).any (fun existing => (q.tasks (q.slot existing)).any
      (fun e => e.task = t && e.incarnation = (info t).incarnation)) then (true,q)
  else if q.nrRunning ≥ queueSize then (false,q)
  else (true,{ q.insert ⟨t,(info t).incarnation,q.pushes⟩ with pushes := q.pushes+1 })

/-- Every round takes one entry off, so the counter bounds the rounds. The
source returns the task of the entry. -/
def popLoop (info : τ → Task) : ℕ → PerCpuRunQueue τ → Option (Entry τ)×PerCpuRunQueue τ
  | 0, q => (none,q)
  | fuel+1, q =>
    if q.nrRunning = 0 then (none,q)
    else match q.tasks (q.tail%queueSize) with
      | none => popLoop info fuel q.advance
      | some e => if tokenMatches info e then (some e,q.advance) else popLoop info fuel q.advance

def pop (info : τ → Task) (q : PerCpuRunQueue τ) : Option (Entry τ)×PerCpuRunQueue τ :=
  popLoop info q.nrRunning q

def purgeStep (info : τ → Task) (q : PerCpuRunQueue τ) (r : (ℕ → Option (Entry τ))×ℕ) (read : ℕ) :
    (ℕ → Option (Entry τ))×ℕ :=
  match r.1 (q.slot read) with
  | none => r
  | some e =>
    if !tokenMatches info e then (update r.1 (q.slot read) none,r.2)
    else
      let tasks := update r.1 (q.slot r.2) (some e)
      (if q.slot r.2 ≠ q.slot read then update tasks (q.slot read) none else tasks,r.2+1)

def purgeStaleLocked (info : τ → Task) (q : PerCpuRunQueue τ) : PerCpuRunQueue τ :=
  let r := (List.range q.nrRunning).foldl (purgeStep info q) (q.tasks,0)
  { q with tasks := r.1, nrRunning := r.2, head := (q.tail+r.2)%2^32 }

def schedFifo : ℕ := 1
def schedRr : ℕ := 2
def otherKeyBase : ℕ := 100
def maxPickKey : ℕ := otherKeyBase+255

def isRtClass (policy : ℕ) : Bool := policy == schedFifo || policy == schedRr

def rankKey (policy kernelPriority : ℕ) : ℕ :=
  if isRtClass policy then kernelPriority else otherKeyBase+kernelPriority

structure PopChoice where
  bestRt : Option ℕ
  bestRtKey : ℕ
  firstNormal : Option ℕ
  firstAny : Option ℕ

def PopChoice.new : PopChoice := ⟨none,otherKeyBase,none,none⟩

def PopChoice.consider (c : PopChoice) (pos key : ℕ) : PopChoice :=
  let c := if c.firstAny.isNone then { c with firstAny := some pos } else c
  if key < otherKeyBase then
    if key < c.bestRtKey then { c with bestRtKey := key, bestRt := some pos } else c
  else if key < maxPickKey && c.firstNormal.isNone then { c with firstNormal := some pos }
  else c

def PopChoice.choice (c : PopChoice) : Option ℕ :=
  (c.bestRt.or c.firstNormal).or c.firstAny

def keyOf (info : τ → Task) (e : Entry τ) : ℕ :=
  rankKey (info e.task).schedPolicy (info e.task).priority

def pick (info : τ → Task) (q : PerCpuRunQueue τ) : PopChoice :=
  (List.range q.nrRunning).foldl (fun c i => match q.tasks (q.slot i) with
    | none => c
    | some e => c.consider i (keyOf info e)) .new

/-- The chosen entry leaves and the oldest one moves into its slot. -/
def PerCpuRunQueue.displace (q : PerCpuRunQueue τ) (bestSlot : ℕ) : PerCpuRunQueue τ :=
  if bestSlot ≠ q.tail%queueSize then
    { q with tasks := update q.tasks bestSlot (q.tasks (q.tail%queueSize)) }
  else q

def popRtLoop (info : τ → Task) : ℕ → PerCpuRunQueue τ → Option (Entry τ)×PerCpuRunQueue τ
  | 0, q => (none,q)
  | fuel+1, q =>
    let q := purgeStaleLocked info q
    if q.nrRunning = 0 then (none,q)
    else
      let bestSlot := q.slot ((pick info q).choice.getD 0)
      let rest := (q.displace bestSlot).advance
      match q.tasks bestSlot with
      | none => popRtLoop info fuel rest
      | some e => if tokenMatches info e then (some e,rest) else popRtLoop info fuel rest

def popRtAware (info : τ → Task) (q : PerCpuRunQueue τ) : Option (Entry τ)×PerCpuRunQueue τ :=
  popRtLoop info (q.nrRunning+1) q

def pinnedElsewhere (info : τ → Task) (cpuId : ℕ) (t : τ) : Bool :=
  0 ≤ (info t).cpuAffinity && (info t).cpuAffinity ≠ cpuId

def putBack (target : PerCpuRunQueue τ) (e : Entry τ) : PerCpuRunQueue τ :=
  if target.nrRunning < queueSize then target.insert e else target

/-- `fuel` counts the rounds that are left; `attempts` grows with every round
and the target's counter never does, so the counter at the start bounds them. -/
def stealLoop (info : τ → Task) (want : ℕ) : ℕ → PerCpuRunQueue τ → PerCpuRunQueue τ → ℕ → ℕ →
    ℕ×PerCpuRunQueue τ×PerCpuRunQueue τ
  | 0, self, target, stolen, _ => (stolen,self,target)
  | fuel+1, self, target, stolen, attempts =>
    if !(stolen < want && attempts < target.nrRunning) || target.nrRunning = 0 then
      (stolen,self,target)
    else
      match target.tasks (target.tail%queueSize) with
      | none => stealLoop info want fuel self target.advance stolen (attempts+1)
      | some e =>
        if !tokenMatches info e then
          stealLoop info want fuel self target.advance stolen (attempts+1)
        else if pinnedElsewhere info self.cpuId e.task then
          stealLoop info want fuel self (putBack target.advance e) stolen (attempts+1)
        else if self.nrRunning ≥ queueSize then (stolen,self,putBack target.advance e)
        else stealLoop info want fuel (self.insert e) target.advance (stolen+1) (attempts+1)

def stealHalf (info : τ → Task) (self target : PerCpuRunQueue τ) :
    ℕ×PerCpuRunQueue τ×PerCpuRunQueue τ :=
  if self.cpuId = target.cpuId then (0,self,target)
  else if target.nrRunning/2 = 0 then (0,self,target)
  else stealLoop info (target.nrRunning/2) target.nrRunning self target 0 0

end MoQiOS.RunQueue
