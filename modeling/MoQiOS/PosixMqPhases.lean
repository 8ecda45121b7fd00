import MoQiOS.PosixMq
import MoQiOS.SlotTables

/-!
# Sends and receives in two phases

Between the reservation of a slot and its commit or roll-back the lock is free, and
other tasks may run either phase of their own calls. The world records, next to
the queue, which call each task is in, the messages whose send succeeded and the
messages that receives returned.
-/

namespace MoQiOS.PosixMq
open Runs SlotTables Function List Multiset Option Nat

structure Message where
  number : ℕ
  data : List UInt8
  priority : ℕ
  deriving DecidableEq, Repr

def MsgEntry.message (m : MsgEntry) : Message := ⟨m.stamp,m.data,m.priority⟩

/-- A call between its two phases. A receive has copied the message already. -/
inductive Pending where
  | send (slot copyLen msgPrio : ℕ)
  | receive (slot : ℕ) (msg : Message)

def Pending.slot : Pending → ℕ
  | .send slot _ _ => slot
  | .receive slot _ => slot

structure World where
  q : MqQueue
  pending : ℕ → Option Pending
  sent : List Message
  delivered : List Message

inductive Phase where
  | sendReserve (task msgLen msgPrio : ℕ)
  | sendCommit (task : ℕ) (payload : List UInt8)
  | receiveReserve (task msgLen : ℕ)
  | receiveCommit (task : ℕ) (written : Bool)

def rollBack (q : MqQueue) (i : ℕ) : MqQueue := q.setMsg i { q.msgs i with reserved := false }

def World.enter (w : World) (task : ℕ) (q : MqQueue) (p : Pending) : World :=
  { w with q := q, pending := update w.pending task (some p) }

def World.leave (w : World) (task : ℕ) (q : MqQueue) : World :=
  { w with q := q, pending := update w.pending task none }

/-- `payload` is what `copyFromUser` delivered; a short one is a fault. -/
def World.finishSend (w : World) (task i copyLen msgPrio : ℕ) (payload : List UInt8) : World :=
  match sendCommit w.q i payload copyLen msgPrio with
  | .ok q => { w.leave task q with sent := w.sent++[⟨w.q.sends,payload,msgPrio⟩] }
  | .error .fault => w.leave task (rollBack w.q i)
  | .error _ => w.leave task w.q

/-- `written` tells whether both copies to the user were complete. -/
def World.finishReceive (w : World) (task i : ℕ) (msg : Message) (written : Bool) : World :=
  if (w.q.msgs i).reserved && !written then w.leave task (rollBack w.q i)
  else match receiveCommit w.q i with
    | .ok q => { w.leave task q with delivered := w.delivered++[msg] }
    | .error _ => w.leave task w.q

/-- A call that fails in its first phase changes nothing. -/
def phase (w : World) : Phase → World
  | .sendReserve task msgLen msgPrio =>
    match w.pending task, sendReserve w.q msgLen with
    | none, .ok (q,i) => w.enter task q (.send i (min msgLen maxMsgSize) msgPrio)
    | _, _ => w
  | .sendCommit task payload =>
    match w.pending task with
    | some (.send i copyLen msgPrio) => w.finishSend task i copyLen msgPrio payload
    | _ => w
  | .receiveReserve task msgLen =>
    match w.pending task, receiveReserve w.q msgLen with
    | none, .ok (q,i) => w.enter task q (.receive i (w.q.msgs i).message)
    | _, _ => w
  | .receiveCommit task written =>
    match w.pending task with
    | some (.receive i msg) => w.finishReceive task i msg written
    | _ => w

/-- The slot that a send is about to reserve is not reserved by another call. -/
def unclaimed (w : World) : Phase → Bool
  | .sendReserve _ msgLen _ =>
    match sendReserve w.q msgLen with
    | .ok (_,i) => !(w.q.msgs i).reserved
    | .error _ => true
  | _ => true

def opened (a : Attr) : World := ⟨mqOpen a,fun _ => none,[],[]⟩

/-- A slot being filled is free, a slot being received holds what was copied. -/
def Pending.Fits : Pending → MsgEntry → Prop
  | .send .., m => m.used = false
  | .receive _ msg, m => m.used = true ∧ m.message = msg

/-- Every reserved slot belongs to one call, which finds it as it left it. -/
structure Claims (msgs : ℕ → MsgEntry) (pending : ℕ → Option Pending) : Prop where
  held : ∀ t p, pending t = some p →
    p.slot < maxMsgs ∧ (msgs p.slot).reserved = true ∧ p.Fits (msgs p.slot)
  own : ∀ t t' p p', pending t = some p → pending t' = some p' → p.slot = p'.slot → t = t'
  owned : ∀ i, (msgs i).reserved = true → ∃ t p, pending t = some p ∧ p.slot = i

variable {t i : ℕ} {p : Pending} {msgs : ℕ → MsgEntry} {pending : ℕ → Option Pending}

lemma update_some {u : ℕ} {v : Option Pending} (h : update pending t v u = some p) :
    u = t ∧ v = some p ∨ u ≠ t ∧ pending u = some p := by
  by_cases hu : u = t
  · rw [hu,update_self] at h
    exact .inl ⟨hu,h⟩
  · rw [update_of_ne hu] at h
    exact .inr ⟨hu,h⟩

lemma Claims.reserve (h : Claims msgs pending) (ht : pending t = none) (hi : p.slot < maxMsgs)
    (hr : (msgs p.slot).reserved = false) (hp : p.Fits {msgs p.slot with reserved := true}) :
    Claims (update msgs p.slot {msgs p.slot with reserved := true})
      (update pending t (some p)) := by
  -- a call under way holds another slot, since this one was not reserved
  have hother : ∀ u p', pending u = some p' → p'.slot ≠ p.slot := by
    intro u p' hu heq
    have := (h.held u p' hu).2.1
    rw [heq,hr] at this
    cases this
  refine ⟨fun u p' hu => ?_,fun u u' p' p'' hu hu' heq => ?_,fun i hres => ?_⟩
  · rcases update_some hu with ⟨-,heq⟩ | ⟨-,hu⟩
    · obtain rfl := some.inj heq
      rw [update_self]
      exact ⟨hi,rfl,hp⟩
    · rw [update_of_ne (hother u p' hu)]
      exact h.held u p' hu
  · rcases update_some hu with ⟨rfl,h1⟩ | ⟨-,h1⟩ <;>
      rcases update_some hu' with ⟨rfl,h2⟩ | ⟨-,h2⟩
    · rfl
    · obtain rfl := some.inj h1
      exact absurd heq.symm (hother u' p'' h2)
    · obtain rfl := some.inj h2
      exact absurd heq (hother u p' h1)
    · exact h.own u u' p' p'' h1 h2 heq
  · by_cases hip : i = p.slot
    · exact ⟨t,p,update_self ..,hip.symm⟩
    rw [update_of_ne hip] at hres
    obtain ⟨u,p',hu,hslot⟩ := h.owned i hres
    have hut : u ≠ t := by
      rintro rfl
      rw [ht] at hu
      cases hu
    exact ⟨u,p',by rw [update_of_ne hut]; exact hu,hslot⟩

variable {m : MsgEntry}

lemma Claims.release (h : Claims msgs pending)
    (ht : pending t = some p) (hm : m.reserved = false) :
    Claims (update msgs p.slot m) (update pending t none) := by
  have hother : ∀ u p', u ≠ t → pending u = some p' → p'.slot ≠ p.slot :=
    fun u p' hne hu heq => hne (h.own u t p' p hu ht heq)
  have hkept : ∀ u p', update pending t none u = some p' → u ≠ t ∧ pending u = some p' := by
    intro u p' hu
    rcases update_some hu with ⟨-,heq⟩ | hu
    · cases heq
    · exact hu
  refine ⟨fun u p' hu => ?_,fun u u' p' p'' hu hu' heq => ?_,fun i hres => ?_⟩
  · obtain ⟨hne,hu⟩ := hkept u p' hu
    rw [update_of_ne (hother u p' hne hu)]
    exact h.held u p' hu
  · exact h.own u u' p' p'' (hkept u p' hu).2 (hkept u' p'' hu').2 heq
  · by_cases hip : i = p.slot
    · rw [hip,update_self,hm] at hres
      cases hres
    rw [update_of_ne hip] at hres
    obtain ⟨u,p',hu,hslot⟩ := h.owned i hres
    have hut : u ≠ t := by
      rintro rfl
      rw [ht] at hu
      obtain rfl := some.inj hu
      exact hip hslot.symm
    exact ⟨u,p',by rw [update_of_ne hut]; exact hu,hslot⟩

def MsgEntry.worth (m : MsgEntry) : Multiset Message := if m.used then {m.message} else 0

def queued (msgs : ℕ → MsgEntry) : Multiset Message :=
  ∑ i ∈ Finset.range maxMsgs, (msgs i).worth

lemma queued_update (msgs : ℕ → MsgEntry) (hi : i < maxMsgs) (m : MsgEntry) :
    queued (update msgs i m)+(msgs i).worth = queued msgs+m.worth :=
  sum_exchange MsgEntry.worth msgs (Finset.mem_range.mpr hi) m

lemma queued_same (msgs : ℕ → MsgEntry) (hi : i < maxMsgs)
    (hm : m.worth = (msgs i).worth) : queued (update msgs i m) = queued msgs := by
  have h := queued_update msgs hi m
  rw [hm] at h
  exact add_right_cancel h

lemma exists_used (h : 0 < (queued msgs).card) : ∃ i, i < maxMsgs ∧ (msgs i).used = true := by
  obtain ⟨m,hm⟩ := card_pos_iff_exists_mem.mp h
  obtain ⟨i,hi,hmem⟩ := mem_sum.mp hm
  refine ⟨i,Finset.mem_range.mp hi,?_⟩
  by_contra hu
  rw [MsgEntry.worth,if_neg hu] at hmem
  exact notMem_zero m hmem

structure Conserved (w : World) : Prop where
  claims : Claims w.q.msgs w.pending
  count : w.q.count = (queued w.q.msgs).card
  messages : (w.delivered : Multiset Message)+queued w.q.msgs = w.sent
  numbers : w.sent.map Message.number = List.range w.q.sends

lemma opened_conserved (a : Attr) : Conserved (opened a) := by
  have hempty : queued (opened a).q.msgs = 0 := Finset.sum_eq_zero fun i _ => rfl
  have hnone : ∀ t p, (opened a).pending t ≠ some p := by
    rintro t p ⟨⟩
  refine ⟨⟨fun t p h => absurd h (hnone t p),fun t _ p _ h => absurd h (hnone t p),?_⟩,?_,?_,rfl⟩
  · rintro i ⟨⟩
  · rw [hempty]
    rfl
  · rw [hempty]
    rfl

variable {slots : ℕ → Slot}

lemma nextFree_lt {start : ℕ} (h : nextFree slots maxMsgs start = some i) :
    i < maxMsgs ∧ (slots i).used = false := by
  have hmem := mem_of_find?_eq_some h
  have hfree := List.find?_some h
  obtain ⟨o,-,rfl⟩ := List.mem_map.mp hmem
  exact ⟨mod_lt _ (by decide),by simpa using hfree⟩

variable {q q' : MqQueue} {len : ℕ}

lemma sendReserve_ok (h : sendReserve q len = .ok (q',i)) :
    i < maxMsgs ∧ (q.slots i).used = false ∧ q' = q.setMsg i {q.msgs i with reserved := true} := by
  unfold sendReserve at h
  split_ifs at h
  cases hi : nextFree q.slots maxMsgs q.tail with
  | none =>
    rw [hi] at h
    cases h
  | some j =>
    rw [hi] at h
    obtain ⟨rfl,rfl⟩ := Prod.mk.inj (Except.ok.inj h)
    exact ⟨(nextFree_lt hi).1,(nextFree_lt hi).2,rfl⟩

variable {head : ℕ}

lemma selectHighest_used
    (h : selectHighest slots maxMsgs head = some i) : i < maxMsgs ∧ (slots i).used = true := by
  obtain ⟨o,p,rfl,hb⟩ := selectHighest_some h
  refine ⟨mod_lt _ (by decide),?_⟩
  have hkey := hb.here
  simp only [rank] at hkey
  split_ifs at hkey with hu
  exact hu

lemma receiveReserve_ok (h : receiveReserve q len = .ok (q',i)) :
    i < maxMsgs ∧ (q.slots i).used = true ∧ q' = q.setMsg i {q.msgs i with reserved := true} := by
  unfold receiveReserve at h
  split_ifs at h
  rcases hi : selectHighest q.slots maxMsgs q.head with _ | j
  · rw [hi] at h
    cases h
  rw [hi] at h
  dsimp only at h
  split_ifs at h
  obtain ⟨rfl,rfl⟩ := Prod.mk.inj (Except.ok.inj h)
  exact ⟨(selectHighest_used hi).1,(selectHighest_used hi).2,rfl⟩

section
variable {w : World} (h : Conserved w)
include h

lemma Conserved.mark (hi : i < maxMsgs) (b : Bool)
    (hc : Claims (update w.q.msgs i {w.q.msgs i with reserved := b}) pending) :
    Conserved {w with q := w.q.setMsg i {w.q.msgs i with reserved := b}, pending := pending} := by
  have hq : queued (update w.q.msgs i {w.q.msgs i with reserved := b}) = queued w.q.msgs :=
    queued_same w.q.msgs hi rfl
  refine ⟨hc,?_,?_,h.numbers⟩
  · change w.q.count = (queued (update _ _ _)).card
    rw [hq]
    exact h.count
  · change (w.delivered : Multiset Message)+queued (update _ _ _) = w.sent
    rw [hq]
    exact h.messages

lemma Conserved.enter (ht : w.pending t = none)
    (hi : p.slot < maxMsgs) (hr : (w.q.msgs p.slot).reserved = false)
    (hp : p.Fits {w.q.msgs p.slot with reserved := true}) :
    Conserved (w.enter t (w.q.setMsg p.slot {w.q.msgs p.slot with reserved := true}) p) :=
  h.mark hi true (h.claims.reserve ht hi hr hp)

lemma Conserved.rollBack (ht : w.pending t = some p) :
    Conserved (w.leave t (rollBack w.q p.slot)) :=
  h.mark (h.claims.held t p ht).1 false (h.claims.release ht rfl)

lemma Conserved.finishSend {copyLen prio : ℕ}
    (ht : w.pending t = some (.send i copyLen prio)) (payload : List UInt8) :
    Conserved (w.finishSend t i copyLen prio payload) := by
  obtain ⟨hi,hres,hfree⟩ := h.claims.held t _ ht
  change i < maxMsgs at hi
  change (w.q.msgs i).reserved = true at hres
  change (w.q.msgs i).used = false at hfree
  simp only [World.finishSend,sendCommit,hres,Bool.not_true,Bool.false_eq_true,if_false]
  by_cases hlen : payload.length ≠ copyLen
  · rw [if_pos hlen]
    exact h.rollBack ht
  rw [if_neg hlen]
  set m : MsgEntry := ⟨payload,prio,true,false,w.q.sends⟩ with hm
  have hq : queued (update w.q.msgs i m) = queued w.q.msgs+{m.message} := by
    have hx := queued_update w.q.msgs hi m
    rw [MsgEntry.worth,hfree] at hx
    simpa [MsgEntry.worth,hm] using hx
  refine ⟨h.claims.release ht rfl,?_,?_,?_⟩
  · change w.q.count+1 = (queued (update w.q.msgs i m)).card
    rw [hq,card_add,card_singleton,h.count]
  · change (w.delivered : Multiset Message)+queued (update w.q.msgs i m) =
      ((w.sent++[m.message] : List Message) : Multiset Message)
    rw [hq,← add_assoc,h.messages,← coe_singleton,coe_add]
  · change (w.sent++[m.message]).map Message.number = List.range (w.q.sends+1)
    rw [map_append,h.numbers,List.range_succ]
    rfl

omit h

variable {msg : Message}

include h

lemma Conserved.taken
    (ht : w.pending t = some (.receive i msg)) : queued (taken w.q i)+{msg} = queued w.q.msgs := by
  obtain ⟨hi,-,hused,hmsg⟩ := h.claims.held t _ ht
  change i < maxMsgs at hi
  change (w.q.msgs i).used = true at hused
  change (w.q.msgs i).message = msg at hmsg
  have hx := queued_update w.q.msgs hi {w.q.msgs i with data := [], used := false, reserved := false}
  rw [MsgEntry.worth,hused,if_pos rfl,hmsg] at hx
  exact hx.trans (add_zero _)

lemma Conserved.finishReceive
    (ht : w.pending t = some (.receive i msg)) (written : Bool) :
    Conserved (w.finishReceive t i msg written) := by
  obtain ⟨-,hres,-⟩ := h.claims.held t _ ht
  change (w.q.msgs i).reserved = true at hres
  rcases written with _ | _
  · simp only [World.finishReceive,hres,Bool.not_false,Bool.and_self,if_true]
    exact h.rollBack ht
  simp only [World.finishReceive,receiveCommit,hres,Bool.not_true,Bool.and_false,
    Bool.false_eq_true,if_false]
  have hq := h.taken ht
  refine ⟨h.claims.release ht rfl,?_,?_,h.numbers⟩
  · change w.q.count-1 = (queued (PosixMq.taken w.q i)).card
    rw [h.count,← hq,card_add,card_singleton,Nat.add_sub_cancel]
  · change ((w.delivered++[msg] : List Message) : Multiset Message)+queued (PosixMq.taken w.q i) =
      w.sent
    rw [← coe_add,coe_singleton,add_assoc,add_comm ({msg} : Multiset Message),hq]
    exact h.messages

lemma Conserved.phase {c : Phase} (hc : unclaimed w c = true) : Conserved (phase w c) := by
  cases c with
  | sendReserve t len prio =>
    simp only [PosixMq.phase]
    cases ht : w.pending t with
    | some p => exact h
    | none =>
      rcases hs : sendReserve w.q len with e | r
      · exact h
      obtain ⟨q',i⟩ := r
      obtain ⟨hi,hfree,rfl⟩ := sendReserve_ok hs
      have hres : (w.q.msgs i).reserved = false := by simpa [unclaimed,hs] using hc
      have hused : (w.q.msgs i).used = false := by simpa [MqQueue.slots,hres] using hfree
      exact h.enter (p := .send i _ prio) ht hi hres hused
  | sendCommit t payload =>
    simp only [PosixMq.phase]
    cases ht : w.pending t with
    | none => exact h
    | some p =>
      cases p with
      | send i copyLen prio => exact h.finishSend ht payload
      | receive i msg => exact h
  | receiveReserve t len =>
    simp only [PosixMq.phase]
    cases ht : w.pending t with
    | some p => exact h
    | none =>
      rcases hs : receiveReserve w.q len with e | r
      · exact h
      obtain ⟨q',i⟩ := r
      obtain ⟨hi,hfound,rfl⟩ := receiveReserve_ok hs
      obtain ⟨hused,hres⟩ : (w.q.msgs i).used = true ∧ (w.q.msgs i).reserved = false := by
        simpa [MqQueue.slots] using hfound
      exact h.enter (p := .receive i _) ht hi hres ⟨hused,rfl⟩
  | receiveCommit t written =>
    simp only [PosixMq.phase]
    cases ht : w.pending t with
    | none => exact h
    | some p =>
      cases p with
      | send i copyLen prio => exact h
      | receive i msg => exact h.finishReceive ht written

end

lemma skipFree_stops {count fuel : ℕ} (hh : head < maxMsgs)
    (h : ∃ o, o < fuel ∧ (msgs ((head+o)%maxMsgs)).used = true) :
    (msgs (skipFree msgs count fuel head)).used = true ∨ count = 0 := by
  induction fuel generalizing head with
  | zero =>
    obtain ⟨o,ho,-⟩ := h
    omega
  | succ fuel ih =>
    rw [skipFree]
    by_cases hgo : (!(msgs head).used && decide (0 < count)) = true
    · rw [if_pos hgo]
      refine ih (mod_lt _ (by decide)) ?_
      obtain ⟨o,ho,hu⟩ := h
      obtain ⟨hfree,-⟩ : (msgs head).used = false ∧ 0 < count := by simpa using hgo
      cases o with
      | zero =>
        rw [Nat.add_zero,mod_eq_of_lt hh,hfree] at hu
        cases hu
      | succ o =>
        refine ⟨o,by omega,?_⟩
        rw [mod_add_mod,Nat.add_assoc,Nat.add_comm 1 o]
        exact hu
    · rw [if_neg hgo]
      by_cases hu : (msgs head).used = true
      · exact .inl hu
      right
      simp only [hu,Bool.not_false,Bool.true_and,decide_eq_true_eq] at hgo
      omega

lemma Conserved.stops {w : World} (h : Conserved w) {msg : Message}
    (ht : w.pending t = some (.receive i msg)) (hc : receiveCommit w.q i = .ok q') :
    (q'.msgs q'.head).used = true ∨ q'.count = 0 := by
  obtain ⟨-,hres,-⟩ := h.claims.held t _ ht
  change (w.q.msgs i).reserved = true at hres
  simp only [receiveCommit,hres,Bool.not_true,Bool.false_eq_true,if_false] at hc
  obtain rfl := Except.ok.inj hc
  by_cases hz : w.q.count-1 = 0
  · exact .inr hz
  have hq := h.taken ht
  have hcard : 0 < (queued (PosixMq.taken w.q i)).card := by
    have := h.count
    rw [← hq,card_add,card_singleton] at this
    omega
  obtain ⟨j,hj,hu⟩ := exists_used hcard
  obtain ⟨o,ho,rfl⟩ := exists_offset ((i+1)%maxMsgs) hj
  exact skipFree_stops (mod_lt _ (by decide)) ⟨o,ho,hu⟩

/-- While sends reserve slots that no call has reserved, no message is lost,
duplicated or overwritten, and the loop over free slots ends. -/
theorem two_phase_conservation (a : Attr) (w : World)
    (hr : Reaches (Guarded (fun w c => unclaimed w c = true) phase) (opened a) w) :
    Conserved w ∧ ∀ t i msg q', w.pending t = some (.receive i msg) →
      receiveCommit w.q i = .ok q' → (q'.msgs q'.head).used = true ∨ q'.count = 0 := by
  have h : Conserved w := invariant
    (fun _ _ _ hI hn => by obtain ⟨hc,rfl⟩ := hn; exact hI.phase hc) hr (opened_conserved a)
  exact ⟨h,fun _ _ _ _ ht hc => h.stops ht hc⟩

lemma eight_fits : 8 ≤ maxMsgs := by decide

def eight : Attr := ⟨8,512,eight_fits⟩

/-- A second send begins after the first has committed, while its message is being received. -/
def overlapping : List Phase :=
  [.sendReserve 1 1 4,.sendCommit 1 [65],.receiveReserve 2 512,.sendReserve 3 1 4,
    .receiveCommit 2 true,.sendCommit 3 [66]]

theorem two_phase_conservation_overlap :
    (run phase (opened eight) overlapping).delivered = [⟨0,[65],4⟩] ∧
      Conserved (run phase (opened eight) overlapping) :=
  ⟨by decide,(two_phase_conservation eight _ (run_reaches (.start _ _) (by decide))).1⟩

/-- Two sends reserve slot 0. The first commits, its message is being received when
the second commits over it. -/
def colliding : List Phase :=
  [.sendReserve 1 1 4,.sendReserve 2 1 4,.sendCommit 1 [65],.receiveReserve 3 512,
    .sendCommit 2 [66],.receiveCommit 3 true]

/-- The first message is gone, two messages are counted for one, and after the next
receive the loop over free slots would go on for ever. -/
theorem message_overwritten_in_flight : let w := run phase (opened eight) colliding
    w.sent = [⟨0,[65],4⟩,⟨1,[66],4⟩] ∧ w.delivered = [] ∧ queued w.q.msgs = {⟨1,[66],4⟩} ∧
      w.q.count = 2 ∧
      let w' := run phase w [.receiveReserve 1 512,.receiveCommit 1 true]
      w'.q.count = 1 ∧ ∀ i < maxMsgs, (w'.q.msgs i).used = false := by
  decide

end MoQiOS.PosixMq
