import MoQiOS.TcpSendTraces

/-!
# Listeners and the accept queue

A listen slot keeps a ring of the connections its SYNs opened, half open ones
too, oldest first. `tcpAccept` takes entries off until it meets an established
connection; the ones it passes over are gone. A connection that dies in the
ring leaves a void entry and gives its slot back. `made` and `returned` record
for the connection in a slot which listener it belongs to and how often
`tcpAccept` has returned it.
-/

namespace MoQiOS.Tcp
open SerialNumbers Runs Function

def listenBacklog : ℕ := 32

/-- An entry `none` is the mark of a handshake that died. -/
structure ListenSlot where
  active : Bool
  pending : List (Option ℕ)

structure Stack where
  tcbs : List Tcb
  slots : List ListenSlot
  made : ℕ → Option ℕ
  returned : ℕ → ℕ

variable (s : Stack)

def Stack.setTcb (i : ℕ) (t : Tcb) : Stack := { s with tcbs := s.tcbs.set i t }

def Stack.setSlot (l : ℕ) (sl : ListenSlot) : Stack := { s with slots := s.slots.set l sl }

def Stack.begin (i : ℕ) (owner : Option ℕ) : Stack :=
  { s with made := update s.made i owner, returned := update s.returned i 0 }

def freeTcb : Option ℕ := s.tcbs.findIdx? (fun t => !t.active)

def releaseOrphanedBacklogTcb (i : ℕ) : Stack :=
  match s.slots.findIdx? (fun sl => sl.active && sl.pending.contains (some i)), s.tcbs[i]? with
  | some l, some t =>
    match s.slots[l]? with
    | some sl => (s.setSlot l { sl with pending := sl.pending.replace (some i) none }).setTcb i
        (deactivateTcb t)
    | none => s
  | _, _ => s

/-- An event of the connection in slot `i`; one that closes it from outside
releases its ring entry. -/
def event (i : ℕ) (gates : List Gate) (e : Event) : Stack :=
  match s.tcbs[i]? with
  | none => s
  | some t =>
    let t' := step (withGates gates t) e
    let s' := s.setTcb i t'
    if t.state ≠ .closed ∧ t'.state = .closed ∧ t'.refCount ≠ 0 then releaseOrphanedBacklogTcb s' i
    else s'

def incomingSyn (l : ℕ) (gates : List Gate) (iss : Serial) (p : Packet) : Stack :=
  match s.slots[l]? with
  | none => s
  | some sl =>
    if !sl.active then s
    else if sl.pending.length ≥ listenBacklog then s
    else
      match freeTcb s with
      | none => s
      | some i =>
        match s.tcbs[i]? with
        | none => s
        | some t =>
          ((s.setTcb i (handleIncomingSyn false (withGates gates t) iss p)).setSlot l
            { sl with pending := sl.pending++[some i] }).begin i (some l)

def reuseSyn (l i : ℕ) (gates : List Gate) (iss : Serial) (p : Packet) : Stack :=
  match s.tcbs[i]? with
  | none => s
  | some t => (s.setTcb i (handleIncomingSyn true (withGates gates t) iss p)).begin i (some l)

variable (tcbs : List Tcb)

def canAccept (i : ℕ) : Bool :=
  match tcbs[i]? with
  | none => false
  | some t => t.active && decide (t.state = .established)

/-- The loop of `tcpAccept`: what it returns and what is left of the ring. -/
def takePending (tcbs : List Tcb) : List (Option ℕ) → Option ℕ × List (Option ℕ)
  | [] => (none,[])
  | none :: rest => takePending tcbs rest
  | some i :: rest => if canAccept tcbs i then (some i,rest) else takePending tcbs rest

def tcpAccept (l : ℕ) : ℤ × Stack :=
  match s.slots[l]? with
  | none => (-1,s)
  | some sl =>
    if !sl.active then (-1,s)
    else
      match takePending s.tcbs sl.pending with
      | (none,rest) => (-11,s.setSlot l { sl with pending := rest })
      | (some i,rest) => (i,{ s.setSlot l { sl with pending := rest } with
          returned := update s.returned i (s.returned i+1) })

def dropUnacceptedChild (entry : Option ℕ) : Stack :=
  match entry with
  | none => s
  | some i =>
    match s.tcbs[i]? with
    | none => s
    | some t =>
      if !t.active then s
      else
        let tx := if t.state = .established ∨ t.state = .closeWait then
          (sendSegment t.tx .rstAck []).2 else t.tx
        s.setTcb i (deactivateTcb { t with state := .closed, tx := tx })

def stopListening (l : ℕ) : Stack :=
  match s.slots[l]? with
  | none => s
  | some sl =>
    if !sl.active then s else (sl.pending.foldl dropUnacceptedChild s).setSlot l ⟨false,[]⟩

def socket : Stack :=
  match freeTcb s with
  | none => s
  | some i =>
    match s.tcbs[i]? with
    | none => s
    | some t => (s.setTcb i { initTcbState t with active := true }).begin i none

def connect (i : ℕ) (gates : List Gate) (iss : Serial) : Stack :=
  match s.tcbs[i]? with
  | none => s
  | some t => s.setTcb i (tcpConnectSocket (withGates gates t) iss)

def tcpListen (l : ℕ) : Stack :=
  match s.slots[l]? with
  | none => s
  | some sl => if sl.active then s else s.setSlot l ⟨true,[]⟩

inductive StackOp where
  | listen (l : ℕ)
  | stop (l : ℕ)
  | socket
  | connect (i : ℕ) (gates : List Gate) (iss : Serial)
  | syn (l : ℕ) (gates : List Gate) (iss : Serial) (p : Packet)
  | reuse (l i : ℕ) (gates : List Gate) (iss : Serial) (p : Packet)
  | event (i : ℕ) (gates : List Gate) (e : Event)
  | accept (l : ℕ)

def StackOp.step : StackOp → Stack
  | .listen l => tcpListen s l
  | .stop l => stopListening s l
  | .socket => Tcp.socket s
  | .connect i gates iss => Tcp.connect s i gates iss
  | .syn l gates iss p => incomingSyn s l gates iss p
  | .reuse l i gates iss p => reuseSyn s l i gates iss p
  | .event i gates e => Tcp.event s i gates e
  | .accept l => (tcpAccept s l).2

/-- No process holds a descriptor of a connection that was not accepted yet. -/
def Unaccepted (i : ℕ) : Prop := s.made i ≠ none ∧ s.returned i = 0

instance (s : Stack) (i : ℕ) : Decidable (Unaccepted s i) := inferInstanceAs (Decidable (_ ∧ _))

def Event.external : Event → Bool
  | .segment _ _ | .tick _ => true
  | _ => false

/-- Socket calls need a descriptor, and TIME_WAIT is what a SYN may take over. -/
def StackOp.ready : StackOp → Prop
  | .connect i _ _ => ¬Unaccepted s i
  | .reuse _ i _ _ _ => ∀ t ∈ s.tcbs[i]?, t.state = .timeWait
  | .event i _ e => Unaccepted s i → e.external = true
  | _ => True

def Stack.init (listeners : ℕ) : Stack :=
  ⟨tcbs,List.replicate listeners ⟨false,[]⟩,fun _ => none,fun _ => 0⟩

variable (t : Tcb)

lemma external_attended (gates : List Gate) {e : Event} (h : e.external = true) :
    Attended t (step (withGates gates t) e) := by
  have hgates : Attended t (withGates gates t) := attended_of rfl rfl rfl
  cases e with
  | segment p re => exact hgates.trans (drive_heard _ re p).toAttended
  | tick k => exact hgates.trans (timerTickOne_passive k _).attended
  | _ => cases h

end MoQiOS.Tcp
