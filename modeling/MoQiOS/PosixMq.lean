import MoQiOS.Runs
import MoQiOS.FirstBest

/-!
# POSIX message queues

A queue keeps at most eight messages in a circular array of slots. A send
reserves a free slot from `tail` on, copies the payload without the lock and
commits; a receive reserves the best slot counted from `head` on, copies it out
and commits. Sends are numbered, so that an entry tells when it was sent.
-/

namespace MoQiOS.PosixMq
open Runs Scans Function List

def maxMsgs : ℕ := 8
def maxMsgSize : ℕ := 512

/-- `stamp` is the number of the send; the source does not keep it. -/
structure MsgEntry where
  data : List UInt8
  priority : ℕ
  used : Bool
  reserved : Bool
  stamp : ℕ
  deriving DecidableEq, Repr

structure MqQueue where
  msgs : ℕ → MsgEntry
  head : ℕ
  tail : ℕ
  count : ℕ
  maxMsg : ℕ
  msgSize : ℕ
  sends : ℕ

inductive MqError where
  | again
  | msgSize
  | fault
  deriving DecidableEq, Repr

structure Attr where
  maxMsg : ℕ
  msgSize : ℕ
  fits : maxMsg ≤ maxMsgs

def mqOpen (a : Attr) : MqQueue :=
  ⟨fun _ => ⟨[],0,false,false,0⟩,0,0,0,a.maxMsg,a.msgSize,0⟩

structure Slot where
  used : Bool
  priority : ℕ

def MqQueue.slots (q : MqQueue) (i : ℕ) : Slot :=
  ⟨(q.msgs i).used && !(q.msgs i).reserved,(q.msgs i).priority⟩

def considerSlot (slots : ℕ → Slot) (len head : ℕ) (best : Option (ℕ×ℕ)) (offset : ℕ) :
    Option (ℕ×ℕ) :=
  let index := (head+offset)%len
  if !(slots index).used then best
  else match best with
    | none => some (index,(slots index).priority)
    | some (selected,priority) =>
      if (slots index).priority > priority then some (index,(slots index).priority)
      else some (selected,priority)

def selectHighest (slots : ℕ → Slot) (len head : ℕ) : Option ℕ :=
  ((List.range len).foldl (considerSlot slots len head) none).map Prod.fst

def nextFree (slots : ℕ → Slot) (len start : ℕ) : Option ℕ :=
  ((List.range len).map (fun offset => (start+offset)%len)).find? (fun index => !(slots index).used)

def MqQueue.setMsg (q : MqQueue) (i : ℕ) (m : MsgEntry) : MqQueue :=
  { q with msgs := update q.msgs i m }

def sendReserve (q : MqQueue) (msgLen : ℕ) : Except MqError (MqQueue×ℕ) :=
  if msgLen > q.msgSize then .error .msgSize
  else if q.count ≥ q.maxMsg then .error .again
  else match nextFree q.slots maxMsgs q.tail with
    | none => .error .again
    | some i => .ok (q.setMsg i { q.msgs i with reserved := true },i)

/-- `payload` is what `copyFromUser` delivered. -/
def sendCommit (q : MqQueue) (i : ℕ) (payload : List UInt8) (copyLen msgPrio : ℕ) :
    Except MqError MqQueue :=
  if !(q.msgs i).reserved then .error .again
  else if payload.length ≠ copyLen then .error .fault
  else .ok { q.setMsg i ⟨payload,msgPrio,true,false,q.sends⟩ with
    tail := (i+1)%maxMsgs, count := q.count+1, sends := q.sends+1 }

def mqTimedSend (q : MqQueue) (msg : List UInt8) (msgPrio : ℕ) : Except MqError MqQueue := do
  let (q,i) ← sendReserve q msg.length
  let copyLen := min msg.length maxMsgSize
  sendCommit q i (msg.take copyLen) copyLen msgPrio

def receiveReserve (q : MqQueue) (msgLen : ℕ) : Except MqError (MqQueue×ℕ) :=
  if q.count = 0 then .error .again
  else match selectHighest q.slots maxMsgs q.head with
    | none => .error .again
    | some i =>
      if msgLen < (q.msgs i).data.length then .error .msgSize
      else .ok (q.setMsg i { q.msgs i with reserved := true },i)

/-- The loop over free slots; a used slot is met within one round. -/
def skipFree (msgs : ℕ → MsgEntry) (count : ℕ) : ℕ → ℕ → ℕ
  | 0, head => head
  | fuel+1, head =>
    if !(msgs head).used && 0 < count then skipFree msgs count fuel ((head+1)%maxMsgs) else head

def receiveCommit (q : MqQueue) (i : ℕ) : Except MqError MqQueue :=
  if !(q.msgs i).reserved then .error .again
  else
    let q := q.setMsg i { q.msgs i with data := [], used := false, reserved := false }
    .ok { q with
      count := q.count-1
      head := skipFree q.msgs (q.count-1) maxMsgs ((i+1)%maxMsgs) }

/-- A receive delivers the payload and the priority of the entry it returns. -/
def mqTimedReceive (q : MqQueue) (msgLen : ℕ) : Except MqError (MqQueue×MsgEntry) := do
  let (q',i) ← receiveReserve q msgLen
  let m := q.msgs i
  let q'' ← receiveCommit q' i
  return (q'',m)

def rank (slots : ℕ → Slot) (len head offset : ℕ) : Option ℕᵒᵈ :=
  let s := slots ((head+offset)%len)
  if s.used then some (OrderDual.toDual s.priority) else none

def Scanned (slots : ℕ → Slot) (len head n : ℕ) : Option (ℕ×ℕ) → Prop
  | none => Empty (rank slots len head) n
  | some (index,priority) => ∃ o, index = (head+o)%len ∧
      FirstBest (rank slots len head) n o (OrderDual.toDual priority)

variable {len : ℕ} {q q' : MqQueue} {m : MsgEntry} {slots : ℕ → Slot} {head : ℕ}

lemma considerSlot_scanned {n : ℕ} {best : Option (ℕ×ℕ)} (h : Scanned slots len head n best) :
    Scanned slots len head (n+1) (considerSlot slots len head best n) := by
  unfold considerSlot
  by_cases hu : (slots ((head+n)%len)).used
  · have hkey : rank slots len head n =
        some (OrderDual.toDual (slots ((head+n)%len)).priority) := by
      simp [rank,hu]
    simp only [hu,Bool.not_true,Bool.false_eq_true,if_false]
    match best, h with
    | none, h => exact ⟨n,rfl,Empty.take h hkey⟩
    | some (index,priority), ⟨o,hi,hb⟩ =>
      by_cases hp : (slots ((head+n)%len)).priority > priority
      · simp only [hp,if_true]
        exact ⟨n,rfl,hb.take hkey hp⟩
      simp only [hp,if_false]
      refine ⟨o,hi,hb.skip ?_⟩
      intro k hk
      rw [hkey] at hk
      obtain rfl := Option.some.inj hk
      exact Nat.le_of_not_lt hp
  · have hkey : rank slots len head n = none := by simp [rank,hu]
    simp only [hu,Bool.not_false,if_true]
    match best, h with
    | none, h => exact Empty.skip h hkey
    | some (index,priority), ⟨o,hi,hb⟩ =>
      refine ⟨o,hi,hb.skip ?_⟩
      intro k hk
      rw [hkey] at hk
      cases hk

lemma scan_scanned (slots : ℕ → Slot) (len head n : ℕ) :
    Scanned slots len head n ((List.range n).foldl (considerSlot slots len head) none) := by
  induction n with
  | zero => exact fun j hj => absurd hj (Nat.not_lt_zero j)
  | succ n ih =>
    rw [range_succ,foldl_append]
    exact considerSlot_scanned ih

variable {i : ℕ}

lemma selectHighest_some (h : selectHighest slots len head = some i) :
    ∃ o p, i = (head+o)%len ∧ FirstBest (rank slots len head) len o (OrderDual.toDual p) := by
  have hs := scan_scanned slots len head len
  unfold selectHighest at h
  obtain ⟨⟨index,priority⟩,hb,rfl⟩ := Option.map_eq_some_iff.mp h
  rw [hb] at hs
  obtain ⟨o,ho,hf⟩ := hs
  exact ⟨o,priority,ho,hf⟩

lemma nextFree_here {start : ℕ} (hs : start < len)
    (hu : (slots start).used = false) : nextFree slots len start = some start := by
  obtain ⟨n,rfl⟩ : ∃ n, len = n+1 := ⟨len-1,by omega⟩
  rw [nextFree,range_succ_eq_map,map_cons,Nat.add_zero,Nat.mod_eq_of_lt hs,
    find?_cons_of_pos (by simp [hu])]

lemma mqTimedSend_ok {msg : List UInt8} {prio : ℕ} (h : mqTimedSend q msg prio = .ok q') :
    q.count < q.maxMsg ∧ ∃ i, nextFree q.slots maxMsgs q.tail = some i ∧ q' = {q with
        msgs := update q.msgs i
          ⟨msg.take (min msg.length maxMsgSize),prio,true,false,q.sends⟩
        tail := (i+1)%maxMsgs, count := q.count+1, sends := q.sends+1} := by
  have hlen : (msg.take (min msg.length maxMsgSize)).length = min msg.length maxMsgSize := by
    rw [length_take]
    omega
  simp only [mqTimedSend,sendReserve,bind,Except.bind] at h
  split_ifs at h with h1 h2
  rcases hi : nextFree q.slots maxMsgs q.tail with _ | i
  · rw [hi] at h
    cases h
  rw [hi] at h
  simp only [sendCommit,MqQueue.setMsg,update_self,Bool.not_true,
    Bool.false_eq_true,if_false,hlen,ne_eq,not_true,update_idem] at h
  exact ⟨Nat.lt_of_not_le h2,i,rfl,(Except.ok.inj h).symm⟩

def taken (q : MqQueue) (i : ℕ) : ℕ → MsgEntry :=
  update q.msgs i { q.msgs i with data := [], used := false, reserved := false }

lemma mqTimedReceive_ok (h : mqTimedReceive q len = .ok (q',m)) :
    q.count ≠ 0 ∧ ∃ i, selectHighest q.slots maxMsgs q.head = some i ∧ m = q.msgs i ∧ q' = {q with
        msgs := taken q i
        count := q.count-1
        head := skipFree (taken q i) (q.count-1) maxMsgs ((i+1)%maxMsgs)} := by
  simp only [mqTimedReceive,receiveReserve,bind,Except.bind] at h
  split_ifs at h with h1
  rcases hi : selectHighest q.slots maxMsgs q.head with _ | i
  · rw [hi] at h
    cases h
  rw [hi] at h
  dsimp only at h
  split_ifs at h with h2
  simp only [receiveCommit,MqQueue.setMsg,update_self,Bool.not_true,
    Bool.false_eq_true,if_false,update_idem,pure,Except.pure] at h
  obtain ⟨rfl,rfl⟩ := Prod.mk.inj (Except.ok.inj h)
  exact ⟨h1,i,rfl,rfl,rfl⟩

inductive Op where
  | send (msg : List UInt8) (msgPrio : ℕ)
  | receive (msgLen : ℕ)

def perform (q : MqQueue) : Op → Except MqError MqQueue
  | .send msg msgPrio => mqTimedSend q msg msgPrio
  | .receive msgLen => (mqTimedReceive q msgLen).map Prod.fst

def Next (q : MqQueue) (c : Op) (q' : MqQueue) : Prop := perform q c = .ok q'

lemma next_receive : Next q (.receive len) q' ↔ ∃ m, mqTimedReceive q len = .ok (q',m) := by
  simp only [Next,perform]
  cases mqTimedReceive q len with
  | error e => simp [Except.map]
  | ok r => simp [Except.map,Prod.ext_iff]

lemma foldlM_reaches (labels : List Op) (h : labels.foldlM perform q = .ok q') :
    Reaches Next q q' := by
  induction labels generalizing q with
  | nil =>
    obtain rfl := Except.ok.inj h
    exact Reaches.start _ _
  | cons c rest ih =>
    rw [foldlM_cons] at h
    cases hc : perform q c with
    | error e =>
      rw [hc] at h
      cases h
    | ok q₁ =>
      rw [hc] at h
      exact Relation.ReflTransGen.head ⟨c,hc⟩ (ih h)

def Present (q : MqQueue) (m : MsgEntry) : Prop := m.used ∧ ∃ i, i < maxMsgs ∧ q.msgs i = m

/-- The receives of the run never pass over an older message: whenever one is
made, nothing present beats a message that was sent before all others. -/
def Patient (q : MqQueue) (c : Op) (q' : MqQueue) : Prop :=
  Next q c q' ∧ match c with
    | .send .. => True
    | .receive _ => ∀ m, Present q m → (∀ m', Present q m' → m.stamp ≤ m'.stamp) →
        ∀ m', Present q m' → m'.priority ≤ m.priority

def Settled (q : MqQueue) : Prop := ∀ i, (q.msgs i).reserved = false

variable (h : Settled q)
include h

lemma Settled.next {c : Op} (hn : Next q c q') : Settled q' := by
  cases c with
  | send msg prio =>
    obtain ⟨_,i,_,rfl⟩ := mqTimedSend_ok hn
    intro j
    by_cases hj : j = i
    · subst hj
      simp
    · simpa [update_of_ne hj] using h j
  | receive len =>
    obtain ⟨m,hm⟩ := next_receive.mp hn
    obtain ⟨_,i,_,_,rfl⟩ := mqTimedReceive_ok hm
    intro j
    by_cases hj : j = i
    · subst hj
      simp [taken]
    · simpa [taken,update_of_ne hj] using h j

lemma Settled.slots_used (i : ℕ) : (q.slots i).used = (q.msgs i).used := by
  simp [MqQueue.slots,h i]

lemma Settled.rank_eq (head o : ℕ) :
    rank q.slots maxMsgs head o = if (q.msgs ((head+o)%maxMsgs)).used
      then some (OrderDual.toDual (q.msgs ((head+o)%maxMsgs)).priority) else none := by
  simp only [rank,h.slots_used]
  rfl

omit h

lemma exists_offset (head : ℕ) (hi : i < maxMsgs) : ∃ o, o < maxMsgs ∧ i = (head+o)%maxMsgs := by
  refine ⟨(i+(maxMsgs-head%maxMsgs))%maxMsgs,Nat.mod_lt _ (by decide),?_⟩
  simp only [maxMsgs] at hi ⊢
  omega

include h

lemma Settled.receive_best (hr : mqTimedReceive q len = .ok (q',m)) :
    ∃ o, m = q.msgs ((q.head+o)%maxMsgs) ∧
      FirstBest (rank q.slots maxMsgs q.head) maxMsgs o (OrderDual.toDual m.priority) := by
  obtain ⟨_,i,hi,rfl,_⟩ := mqTimedReceive_ok hr
  obtain ⟨o,p,rfl,hb⟩ := selectHighest_some hi
  have hkey := hb.here
  rw [h.rank_eq] at hkey
  split_ifs at hkey with hu
  obtain rfl := Option.some.inj hkey
  exact ⟨o,rfl,hb⟩

lemma Settled.receive_present
    (hr : mqTimedReceive q len = .ok (q',m)) : Present q m := by
  obtain ⟨o,rfl,hb⟩ := h.receive_best hr
  have hkey := hb.here
  rw [h.rank_eq] at hkey
  split_ifs at hkey with hu
  exact ⟨hu,_,Nat.mod_lt _ (by decide),rfl⟩

lemma Settled.receive_highest (hr : mqTimedReceive q len = .ok (q',m)) :
    ∀ m', Present q m' → m'.priority ≤ m.priority := by
  obtain ⟨o,_,hb⟩ := h.receive_best hr
  rintro m' ⟨hu,i,hi,rfl⟩
  obtain ⟨o',ho',rfl⟩ := exists_offset q.head hi
  exact hb.least o' ho' (OrderDual.toDual _) (by rw [h.rank_eq,if_pos hu])

end MoQiOS.PosixMq
