import MoQiOS.Runs

/-!
# Job control

A stopped task keeps the flag `stopped`, and no wake makes it ready while the
flag is set. The senders clear the flag for SIGCONT, and for every signal whose
default action terminates, whatever the task does with that signal.
-/

namespace MoQiOS.JobControl
open Runs Function

def maxTasks : ℕ := 64
def maxSignal : ℕ := 64

def sigUsr1 : ℕ := 10
def sigChld : ℕ := 17
def sigCont : ℕ := 18
def sigStop : ℕ := 19
def sigTstp : ℕ := 20
def sigTtin : ℕ := 21
def sigTtou : ℕ := 22
def sigUrg : ℕ := 23
def sigWinch : ℕ := 28

inductive SigDefault where
  | terminate
  | ignore
  | stop
  | cont
  deriving DecidableEq, Repr

def defaultAction (signum : ℕ) : SigDefault :=
  if signum = sigChld ∨ signum = sigUrg ∨ signum = sigWinch then .ignore
  else if signum = sigCont then .cont
  else if signum = sigStop ∨ signum = sigTstp ∨ signum = sigTtin ∨ signum = sigTtou then .stop
  else .terminate

inductive TaskState where
  | ready
  | running
  | blocked
  | zombie
  deriving DecidableEq, Repr

/-- `handlers` has 0 for the default action and 1 for an ignored signal. Bit
`n-1` of a signal set stands for signal `n`. -/
structure Task where
  tid : ℕ
  pgid : ℕ
  state : TaskState
  stopped : Bool
  pending : BitVec 64
  mask : BitVec 64
  handlers : ℕ → ℕ

def Task.runnable (t : Task) : Bool := t.state = .ready || t.state = .running

def Task.post (t : Task) (signum : ℕ) : Task :=
  { t with pending := t.pending ||| BitVec.twoPow 64 (signum-1) }

def pendingActionable (t : Task) : Bool :=
  (List.range 64).any (fun bit => t.pending.getLsbD bit && !t.mask.getLsbD bit &&
    t.handlers bit ≠ 1 && (t.handlers bit ≠ 0 || defaultAction (bit+1) = .terminate))

/-- `readyFromBlockedLocked`, and the test `wakeOne` and `wakeAll` make. -/
def unblockTask (t : Task) : Task :=
  if t.state ≠ .blocked ∨ t.stopped then t else { t with state := .ready }

def kickIfBlocked (t : Task) : Task :=
  if t.state = .blocked && pendingActionable t then unblockTask t else t

def stopTask (t : Task) : Task :=
  if t.stopped then t
  else { t with
    stopped := true
    state := if t.state = .running ∨ t.state = .ready then .blocked else t.state }

def continueTask (t : Task) : Task :=
  if !t.stopped then t else unblockTask { t with stopped := false }

def clearFor (t : Task) (signum : ℕ) : Task :=
  if defaultAction signum = .terminate && t.stopped then { t with stopped := false } else t

def receiveOne (t : Task) (signum : ℕ) : Task :=
  kickIfBlocked ((clearFor (if signum = sigCont then continueTask t else t) signum).post signum)

def receiveGroup (t : Task) (signum : ℕ) : Task :=
  match defaultAction signum with
  | .stop =>
    let h := t.handlers (signum-1)
    if signum ≠ sigStop ∧ h = 1 then t
    else if signum ≠ sigStop ∧ h ≠ 0 then kickIfBlocked (t.post signum)
    else stopTask t
  | .cont => kickIfBlocked ((continueTask t).post signum)
  | _ => kickIfBlocked (clearFor (t.post signum) signum)

def Table : Type := ℕ → Option Task

def Table.set (tasks : Table) (i : ℕ) (t : Task) : Table := update tasks i (some t)

def Table.modify (tasks : Table) (i : ℕ) (f : Task → Task) : Table :=
  match tasks i with
  | none => tasks
  | some t => tasks.set i (f t)

def target (tasks : Table) (tid : ℕ) : Option ℕ :=
  (List.range maxTasks).find? (fun i =>
    (tasks i).any (fun t => t.tid = tid && t.state ≠ .zombie))

def sendSignalInfo (tasks : Table) (tid signum : ℕ) : Table :=
  if signum = 0 ∨ signum > maxSignal then tasks
  else match target tasks tid with
    | none => tasks
    | some i => tasks.modify i (fun t => receiveOne t signum)

def groupStep (pgid signum : ℕ) (may : ℕ → Bool) (tasks : Table) (i : ℕ) : Table :=
  tasks.modify i (fun t =>
    if t.pgid ≠ pgid ∨ t.state = .zombie ∨ may i = false then t else receiveGroup t signum)

/-- `may` tells which members the sender is permitted to signal. -/
def sendSignalToPgrpFiltered (tasks : Table) (pgid signum : ℕ) (may : ℕ → Bool) : Table :=
  if signum = 0 ∨ signum > maxSignal then tasks
  else (List.range maxTasks).foldl (groupStep pgid signum may) tasks

def dequeueSignal (t : Task) : Option ℕ :=
  ((List.range 64).find? (fun bit => t.pending.getLsbD bit && !t.mask.getLsbD bit)).map (·+1)

/-- A running task takes its lowest pending signal on the way to user mode. -/
def deliverSignal (t : Task) : Task :=
  match dequeueSignal t with
  | none => t
  | some signum =>
    let t := { t with pending := t.pending &&& ~~~BitVec.twoPow 64 (signum-1) }
    if signum ≠ sigStop ∧ t.handlers (signum-1) ≠ 0 then t
    else match defaultAction signum with
      | .terminate => { t with state := .zombie }
      | .ignore => t
      | .stop => stopTask t
      | .cont => continueTask t

inductive Op where
  | send (tid signum : ℕ)
  | sendGroup (pgid signum : ℕ) (may : ℕ → Bool)
  | wake (i : ℕ)
  | setHandler (i signum handler : ℕ)
  | setMask (i : ℕ) (mask : BitVec 64)
  | schedule (i : ℕ)
  | preempt (i : ℕ)
  | block (i : ℕ)
  | deliver (i : ℕ)

def moved (t : Task) (src dst : TaskState) : Task := if t.state = src then { t with state := dst } else t

def step (tasks : Table) : Op → Table
  | .send tid signum => sendSignalInfo tasks tid signum
  | .sendGroup pgid signum may => sendSignalToPgrpFiltered tasks pgid signum may
  | .wake i => tasks.modify i unblockTask
  | .setHandler i signum handler =>
    tasks.modify i (fun t => { t with handlers := update t.handlers (signum-1) handler })
  | .setMask i mask => tasks.modify i (fun t => { t with mask := mask })
  | .schedule i => tasks.modify i (fun t => moved t .ready .running)
  | .preempt i => tasks.modify i (fun t => moved t .running .ready)
  | .block i => tasks.modify i (fun t => moved t .running .blocked)
  | .deliver i => tasks.modify i (fun t => if t.state = .running then deliverSignal t else t)

def Suspended (t : Task) : Prop := t.stopped = true ∧ t.state = .blocked

variable {t : Task}

lemma stopTask_suspended (hz : t.state ≠ .zombie) (hs : t.stopped = false) :
    Suspended (stopTask t) := by
  unfold stopTask
  rw [if_neg (by simp [hs])]
  refine ⟨rfl,?_⟩
  cases h : t.state with
  | ready => simp
  | running => simp
  | blocked => simp
  | zombie => exact absurd h hz

variable (h : Suspended t)
include h

lemma Suspended.not_runnable : t.runnable = false := by
  simp [Task.runnable,h.2]

lemma Suspended.unblock : unblockTask t = t :=
  if_pos (.inr h.1)

lemma Suspended.kick : kickIfBlocked t = t := by
  unfold kickIfBlocked
  split_ifs
  · exact h.unblock
  · rfl

lemma Suspended.post (signum : ℕ) : Suspended (t.post signum) := h

omit h

/-- Neither SIGCONT nor a signal whose default action terminates. -/
def Harmless (signum : ℕ) : Prop := signum ≠ sigCont ∧ defaultAction signum ≠ .terminate

instance (signum : ℕ) : Decidable (Harmless signum) := inferInstanceAs (Decidable (_ ∧ _))

variable {signum : ℕ}

lemma Harmless.clear (h : Harmless signum) (t : Task) : clearFor t signum = t := by
  simp [clearFor,h.2]

include h

lemma Suspended.receiveOne (hs : Harmless signum) : receiveOne t signum = t.post signum := by
  rw [JobControl.receiveOne,if_neg hs.1,hs.clear,(h.post signum).kick]

lemma Suspended.stop : stopTask t = t := if_pos h.1

lemma Suspended.receiveGroup (hs : Harmless signum) :
    receiveGroup t signum = t ∨ receiveGroup t signum = t.post signum := by
  unfold JobControl.receiveGroup
  cases hd : defaultAction signum with
  | stop =>
    dsimp only
    split_ifs
    · exact .inl rfl
    · exact .inr (h.post signum).kick
    · exact .inl h.stop
  | cont =>
    have : signum = sigCont := by
      unfold defaultAction at hd
      split_ifs at hd with h1 h2
      exact h2
    exact absurd this hs.1
  | ignore =>
    dsimp only
    rw [hs.clear]
    exact .inr (h.post signum).kick
  | terminate => exact absurd hd hs.2

omit h

def SuspendedAt (i tid pgid : ℕ) (tasks : Table) : Prop :=
  ∃ t, tasks i = some t ∧ Suspended t ∧ t.tid = tid ∧ t.pgid = pgid

variable {i tid pgid : ℕ} {tasks tasks' : Table}

lemma SuspendedAt.modify (h : SuspendedAt i tid pgid tasks) (j : ℕ) {f : Task → Task}
    (hf : ∀ t, j = i → Suspended t → t.tid = tid → t.pgid = pgid →
      Suspended (f t) ∧ (f t).tid = t.tid ∧ (f t).pgid = t.pgid) :
    SuspendedAt i tid pgid (tasks.modify j f) := by
  obtain ⟨t,ht,hs,htid,hpgid⟩ := h
  unfold Table.modify
  by_cases hj : j = i
  · obtain ⟨hs',htid',hpgid'⟩ := hf t hj hs htid hpgid
    rw [hj,ht]
    exact ⟨f t,update_self ..,hs',htid'.trans htid,hpgid'.trans hpgid⟩
  · cases hother : tasks j with
    | none => exact ⟨t,ht,hs,htid,hpgid⟩
    | some u => exact ⟨t,(update_of_ne (Ne.symm hj) _ _).trans ht,hs,htid,hpgid⟩

/-- No signal that clears the flag is sent to the task. -/
def Spared (i tid pgid : ℕ) : Op → Prop
  | .send tid' signum => tid' = tid → Harmless signum
  | .sendGroup pgid' signum may => pgid' = pgid → may i = true → Harmless signum
  | _ => True

lemma SuspendedAt.send (h : SuspendedAt i tid pgid tasks) {tid' : ℕ}
    (hs : tid' = tid → Harmless signum) :
    SuspendedAt i tid pgid (sendSignalInfo tasks tid' signum) := by
  unfold sendSignalInfo
  split_ifs with hbad
  · exact h
  rcases htarget : target tasks tid' with _ | j
  · exact h
  apply h.modify j
  intro t hj hst htid _
  obtain ⟨t',ht',_,htid',_⟩ := h
  have hfound := List.find?_some htarget
  rw [hj,ht',Option.any_some,Bool.and_eq_true,decide_eq_true_eq,htid'] at hfound
  rw [hst.receiveOne (hs hfound.1.symm)]
  exact ⟨hst.post signum,rfl,rfl⟩

lemma SuspendedAt.group (h : SuspendedAt i tid pgid tasks) {pgid' : ℕ} {may : ℕ → Bool}
    (hs : pgid' = pgid → may i = true → Harmless signum) (slots : List ℕ) :
    SuspendedAt i tid pgid (slots.foldl (groupStep pgid' signum may) tasks) := by
  induction slots generalizing tasks with
  | nil => exact h
  | cons j slots ih =>
    apply ih
    apply h.modify j
    intro t hj hst _ hpgid
    split_ifs with hskip
    · exact ⟨hst,rfl,rfl⟩
    simp only [not_or,not_not] at hskip
    have hsafe := hs (hskip.1.symm.trans hpgid) (by simpa [hj] using hskip.2.2)
    rcases hst.receiveGroup hsafe with heq | heq
    · rw [heq]
      exact ⟨hst,rfl,rfl⟩
    · rw [heq]
      exact ⟨hst.post signum,rfl,rfl⟩

lemma Suspended.moved (h : Suspended t) {src dst : TaskState} (hne : src ≠ .blocked) :
    moved t src dst = t := by
  unfold JobControl.moved
  rw [if_neg]
  rw [h.2]
  exact Ne.symm hne

lemma SuspendedAt.step (h : SuspendedAt i tid pgid tasks) {c : Op} (hc : Spared i tid pgid c) :
    SuspendedAt i tid pgid (step tasks c) := by
  cases c with
  | send tid' signum => exact h.send hc
  | sendGroup pgid' signum may =>
    change SuspendedAt i tid pgid (sendSignalToPgrpFiltered tasks pgid' signum may)
    unfold sendSignalToPgrpFiltered
    split_ifs
    · exact h
    · exact h.group hc _
  | wake j =>
    apply h.modify j
    intro t _ hst _ _
    rw [hst.unblock]
    exact ⟨hst,rfl,rfl⟩
  | setHandler j signum handler => exact h.modify j (fun t _ hst _ _ => ⟨hst,rfl,rfl⟩)
  | setMask j mask => exact h.modify j (fun t _ hst _ _ => ⟨hst,rfl,rfl⟩)
  | schedule j =>
    apply h.modify j
    intro t _ hst _ _
    rw [hst.moved (by decide)]
    exact ⟨hst,rfl,rfl⟩
  | preempt j =>
    apply h.modify j
    intro t _ hst _ _
    rw [hst.moved (by decide)]
    exact ⟨hst,rfl,rfl⟩
  | block j =>
    apply h.modify j
    intro t _ hst _ _
    rw [hst.moved (by decide)]
    exact ⟨hst,rfl,rfl⟩
  | deliver j =>
    apply h.modify j
    intro t _ hst _ _
    rw [if_neg (by rw [hst.2]; decide)]
    exact ⟨hst,rfl,rfl⟩

def Next (i tid pgid : ℕ) : Table → Op → Table → Prop :=
  Guarded (fun _ c => Spared i tid pgid c) step

def shell : Task := ⟨7,7,.running,false,0,0,fun bit => if bit = 9 then 4096 else 0⟩

def alone (t : Task) : Table := fun i => if i = 0 then some t else none

end MoQiOS.JobControl
