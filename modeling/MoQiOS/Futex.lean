import Mathlib

/-!
# Futex waits and wakes

The wait queues, the timed waits and the sections that run under a bucket
lock. The sleeping loop of a wait, its disarming and the reads of the timer
scan before it takes the lock are steps of their own, and a sleeping task may
come back at any moment. A node stands for one wait; `wakes` records what each
wake counted and granted and `finished` what each wait returned.
-/

namespace MoQiOS.Futex
open Function

def maxTasks : ℕ := 64
def futexHashBuckets : ℕ := 64

structure Key where
  root : ℕ
  addr : ℕ
  deriving DecidableEq

structure DecodedOp where
  base : BitVec 64
  priv : Bool

def privateFlag : BitVec 64 := 128
def baseMask : BitVec 64 := 0x7f

def privateOp (rawOp : BitVec 64) : Option DecodedOp :=
  if rawOp.slt 0 || rawOp &&& ~~~(baseMask ||| privateFlag) != 0 then none
  else some ⟨rawOp &&& baseMask,rawOp &&& privateFlag != 0⟩

variable (addr : ℕ)

def aligned : Bool := addr%4 == 0

def piUnsupported (base : BitVec 64) : Bool := [6,7,8,11,12].contains base

def futexWait : BitVec 64 := 0
def futexWake : BitVec 64 := 1

def hash : ℕ := addr/2^12%futexHashBuckets

structure WaitNode where
  taskIdx : ℕ
  granted : Bool
  futexRoot : ℕ
  futexAddr : ℕ

def WaitNode.key (n : WaitNode) : Key := ⟨n.futexRoot,n.futexAddr⟩

inductive Disarm where
  | seq
  | deadline
  | bit
  | bucket
  deriving DecidableEq

/-- A wait sleeps on its node, or is on its way out with a result; no result
means that the task exits. -/
inductive Pc where
  | user
  | waiting (node bucket deadline : ℕ)
  | leaving (todo : List Disarm) (node : ℕ) (result : Option ℤ)
  deriving DecidableEq

/-- Where the timer scan is; `rest` are the slots it has still to visit. -/
inductive Tick where
  | off
  | scan (now : ℕ) (rest : List ℕ)
  | gotSeq (now : ℕ) (rest : List ℕ) (idx seq : ℕ)
  | due (now : ℕ) (rest : List ℕ) (idx seq : ℕ)
  | locking (now : ℕ) (rest : List ℕ) (idx seq bucket : ℕ)

structure State where
  buckets : ℕ → List ℕ
  nodes : ℕ → WaitNode
  nextNode : ℕ
  waitDeadlines : ℕ → ℕ
  waitBuckets : ℕ → Option ℕ
  waitSeq : ℕ → ℕ
  waitBm : ℕ → Bool
  pc : ℕ → Pc
  tick : Tick
  result : ℕ → ℤ
  wakes : List (ℕ×List ℕ)
  finished : List (ℕ×Option ℤ)

/-- What a step finds outside: the address space of the task, the user words
it reads, the clock, pending signals and which tasks can be woken. -/
structure Env where
  root : ℕ
  early : Option ℕ
  word : Option ℕ
  sec : Option ℕ
  nsec : Option ℕ
  nanos : ℕ
  fatal : Bool
  actionable : Bool
  alive : ℕ → Bool

inductive TimeoutError where
  | fault
  | invalid

def saturate (n : ℕ) : ℕ := min n (2^64-1)

variable (env : Env)

def parseTimeout (val2 : ℕ) (absolute : Bool) : Except TimeoutError ℕ :=
  if val2 = 0 then .ok 0
  else
    match env.sec, env.nsec with
    | none, _ | _, none => .error .fault
    | some sec, some nsec =>
      if 1000000000 ≤ nsec then .error .invalid
      else
        let ns := saturate (saturate (sec*1000000000)+nsec)
        if absolute then .ok ns else .ok (saturate (env.nanos+ns))

variable (s : State)

def armWaitDeadline (idx bucket deadline : ℕ) : State :=
  { s with
    waitSeq := update s.waitSeq idx ((s.waitSeq idx+1)%2^64)
    waitBuckets := update s.waitBuckets idx (some bucket)
    waitDeadlines := update s.waitDeadlines idx deadline
    waitBm := update s.waitBm idx true }

def disarmStore (idx : ℕ) : Disarm → State
  | .seq => { s with waitSeq := update s.waitSeq idx ((s.waitSeq idx+1)%2^64) }
  | .deadline => { s with waitDeadlines := update s.waitDeadlines idx 0 }
  | .bit => { s with waitBm := update s.waitBm idx false }
  | .bucket => { s with waitBuckets := update s.waitBuckets idx none }

def disarmStores : List Disarm := [.seq,.deadline,.bit,.bucket]

def disarmWaitDeadline (idx : ℕ) : State :=
  disarmStores.foldl (fun s d => disarmStore s idx d) s

/-- One step of the timer scan. Its reads before the lock are apart. -/
def timerStep : State :=
  match s.tick with
  | .off => s
  | .scan _ [] => { s with tick := .off }
  | .scan now (idx :: rest) => { s with tick := .gotSeq now rest idx (s.waitSeq idx) }
  | .gotSeq now rest idx seq =>
    if s.waitDeadlines idx = 0 ∨ now < s.waitDeadlines idx then { s with tick := .scan now rest }
    else { s with tick := .due now rest idx seq }
  | .due now rest idx seq =>
    match s.waitBuckets idx with
    | none => { s with tick := .scan now rest }
    | some bucket => { s with tick := .locking now rest idx seq bucket }
  | .locking now rest idx seq bucket =>
    let s := { s with tick := .scan now rest }
    if s.waitSeq idx ≠ seq then s
    else
      let unlinked := (s.buckets bucket).eraseP (fun n => (s.nodes n).taskIdx == idx)
      disarmWaitDeadline { s with buckets := update s.buckets bucket unlinked } idx

def timerTick (now : ℕ) : State :=
  match s.tick with
  | .off => { s with tick := .scan now ((List.range maxTasks).filter s.waitBm) }
  | _ => s

/-- The walk over a bucket: the nodes that stay and those that are granted. -/
def wakeLoop (nodes : ℕ → WaitNode) (alive : ℕ → Bool) (key : Key) (count : ℕ) :
    ℕ → List ℕ → List ℕ×List ℕ
  | _, [] => ([],[])
  | woken, n :: rest =>
    if count ≤ woken then (n :: rest,[])
    else if (nodes n).key ≠ key ∨ alive (nodes n).taskIdx = false then
      let r := wakeLoop nodes alive key count woken rest
      (n :: r.1,r.2)
    else
      let r := wakeLoop nodes alive key count (woken+1) rest
      (r.1,n :: r.2)

def grant (nodes : ℕ → WaitNode) (woken : List ℕ) (n : ℕ) : WaitNode :=
  if n ∈ woken then { nodes n with granted := true } else nodes n

def wakeN (s : State) (bucket : ℕ) (key : Key) (count : ℕ) : State×ℕ :=
  let r := wakeLoop s.nodes env.alive key count 0 (s.buckets bucket)
  ({ s with
      buckets := update s.buckets bucket r.1
      nodes := grant s.nodes r.2
      wakes := s.wakes++[(r.2.length,r.2)] }, r.2.length)

def wakePrivate (s : State) (root addr count : ℕ) : State :=
  (wakeN env s (hash addr) ⟨root,addr⟩ count).1

def State.fail (idx : ℕ) (code : ℤ) : State :=
  { s with result := update s.result idx code }

def enqueue (idx bucket : ℕ) (key : Key) (deadline : ℕ) : State :=
  let s := { s with
    nodes := update s.nodes s.nextNode ⟨idx,false,key.root,key.addr⟩
    buckets := update s.buckets bucket (s.nextNode :: s.buckets bucket)
    pc := update s.pc idx (.waiting s.nextNode bucket deadline)
    nextNode := s.nextNode+1 }
  if deadline ≠ 0 then armWaitDeadline s idx bucket deadline else s

def futex (s : State) (idx addr : ℕ) (rawOp : BitVec 64) (val val2 : ℕ) : State :=
  match privateOp rawOp with
  | none => s.fail idx (-22)
  | some decoded =>
    if addr = 0 ∨ 0x0000800000000000 ≤ addr then s.fail idx (-14)
    else if !aligned addr then s.fail idx (-22)
    else if piUnsupported decoded.base then s.fail idx (-38)
    else if !decoded.priv then s.fail idx (-38)
    else if decoded.base = futexWait then
      match parseTimeout env val2 false with
      | .error .fault => s.fail idx (-14)
      | .error .invalid => s.fail idx (-22)
      | .ok deadline =>
        if env.early = none then s.fail idx (-14)
        else
          match env.word with
          | none => s.fail idx (-14)
          | some word =>
            if word ≠ val%2^32 then s.fail idx (-11)
            else enqueue s idx (hash addr) ⟨env.root,addr⟩ deadline
    else if decoded.base = futexWake then
      let r := wakeN env s (hash addr) ⟨env.root,addr⟩ (val%2^32)
      r.1.fail idx r.2
    else s.fail idx (-38)

def resume (s : State) (idx : ℕ) : State :=
  match s.pc idx with
  | .user => s
  | .waiting node bucket deadline =>
    let todo := if deadline ≠ 0 then disarmStores else []
    if (s.nodes node).granted then
      { s with pc := update s.pc idx (.leaving todo node (some 0)) }
    else
      let unlinkedByTimeout := decide (deadline ≠ 0) && !(s.buckets bucket).contains node
      let expired := unlinkedByTimeout || (decide (deadline ≠ 0) && decide (deadline ≤ env.nanos))
      if !expired && !env.fatal && !env.actionable then s
      else
        let code :=
          if expired then some (-110) else if env.fatal then none
          else if env.actionable then some (-4) else some (-11)
        { s with
          buckets := update s.buckets bucket ((s.buckets bucket).erase node)
          pc := update s.pc idx (.leaving todo node code) }
  | .leaving (d :: todo) node code =>
    { disarmStore s idx d with pc := update s.pc idx (.leaving todo node code) }
  | .leaving [] node code =>
    { s with pc := update s.pc idx .user, finished := s.finished++[(node,code)] }

inductive Op where
  | futex (idx addr : ℕ) (rawOp : BitVec 64) (val val2 : ℕ)
  | wakePrivate (root addr count : ℕ)
  | resume (idx : ℕ)
  | tickStart
  | tickStep

/-- A task calls only when it is in no wait. -/
def Ready : Op → Prop
  | .futex idx _ _ _ _ => s.pc idx = .user
  | _ => True

def step (s : State) : Op → State
  | .futex idx addr rawOp val val2 => futex env s idx addr rawOp val val2
  | .wakePrivate root addr count => wakePrivate env s root addr count
  | .resume idx => resume env s idx
  | .tickStart => timerTick s env.nanos
  | .tickStep => timerStep s

def start : State :=
  ⟨fun _ => [],fun _ => ⟨0,false,0,0⟩,0,fun _ => 0,fun _ => none,fun _ => 0,fun _ => false,
    fun _ => .user,.off,fun _ => 0,[],[]⟩

end MoQiOS.Futex
