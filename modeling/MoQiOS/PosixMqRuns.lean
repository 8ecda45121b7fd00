import MoQiOS.PosixMq

/-!
# The order of messages

While every receive takes the oldest message, the messages stand from `head`
on in the order of their sends. A receive that passes over an older message
moves `head` behind it, and the next receive may return a later one first.
-/

namespace MoQiOS.PosixMq
open Runs Scans Function Nat

def MqQueue.nth (q : MqQueue) (o : ℕ) : MsgEntry := q.msgs ((q.head+o)%maxMsgs)

/-- The used slots are the `count` slots from `head` on, in the order of
their sends. -/
structure Lined (q : MqQueue) : Prop where
  settled : Settled q
  room : q.count ≤ q.maxMsg ∧ q.maxMsg ≤ maxMsgs
  tail : q.tail = (q.head+q.count)%maxMsgs
  used : ∀ o, o < maxMsgs → ((q.nth o).used ↔ o < q.count)
  order : ∀ o o', o < o' → o' < q.count → (q.nth o).stamp < (q.nth o').stamp
  past : ∀ o, o < q.count → (q.nth o).stamp < q.sends

lemma open_lined (a : Attr) : Lined (mqOpen a) :=
  ⟨fun _ => rfl,⟨Nat.zero_le _,a.fits⟩,rfl,
    fun _ _ => ⟨fun h => Bool.noConfusion h,fun h => absurd h (Nat.not_lt_zero _)⟩,
    fun _ _ _ h => absurd h (Nat.not_lt_zero _),fun _ h => absurd h (Nat.not_lt_zero _)⟩

variable {q q' : MqQueue} {m : MsgEntry}

lemma Lined.present (h : Lined q) (hm : Present q m) : ∃ o, o < q.count ∧ m = q.nth o := by
  obtain ⟨hu,i,hi,rfl⟩ := hm
  obtain ⟨o,ho,rfl⟩ := exists_offset q.head hi
  exact ⟨o,(h.used o ho).mp hu,rfl⟩

variable {o : ℕ}

lemma Lined.nth_present (h : Lined q) (ho : o < q.count) : Present q (q.nth o) := by
  have hlt : o < maxMsgs := lt_of_lt_of_le ho (h.room.1.trans h.room.2)
  exact ⟨(h.used o hlt).mpr ho,_,mod_lt _ (by decide),rfl⟩

variable {len : ℕ}

lemma Lined.receive_earliest (h : Lined q) (hr : mqTimedReceive q len = .ok (q',m)) :
    ∀ m', Present q m' → m'.priority = m.priority → m.stamp ≤ m'.stamp := by
  obtain ⟨o,hm,hb⟩ := h.settled.receive_best hr
  intro m' hm' hp
  obtain ⟨o',ho',rfl⟩ := h.present hm'
  have hkey : rank q.slots maxMsgs q.head o' = some (OrderDual.toDual m.priority) := by
    rw [h.settled.rank_eq,← hp]
    exact if_pos (h.nth_present ho').1
  have hle := hb.le_of_key hkey
  rcases Nat.lt_or_eq_of_le hle with hlt | rfl
  · rw [hm]
    exact (h.order o o' hlt ho').le
  · rw [hm]
    rfl

lemma offset_ne (head : ℕ) (o' : ℕ) (ho : o < maxMsgs) (ho' : o' < maxMsgs) (hne : o ≠ o') :
    (head+o)%maxMsgs ≠ (head+o')%maxMsgs := by
  simp only [maxMsgs] at *
  omega

lemma Lined.send (h : Lined q) {msg : List UInt8} {prio : ℕ}
    (hs : mqTimedSend q msg prio = .ok q') : Lined q' := by
  obtain ⟨hroom,i,hi,rfl⟩ := mqTimedSend_ok hs
  have hcount : q.count < maxMsgs := lt_of_lt_of_le hroom h.room.2
  have hfree : (q.slots q.tail).used = false := by
    rw [h.settled.slots_used,h.tail]
    exact Bool.eq_false_iff.mpr (fun hu => lt_irrefl _ ((h.used _ hcount).mp hu))
  have htail : q.tail < maxMsgs := h.tail ▸ mod_lt _ (by decide)
  rw [nextFree_here htail hfree] at hi
  obtain rfl := Option.some.inj hi
  constructor
  · exact h.settled.next (c := .send msg prio) hs
  · exact ⟨hroom,h.room.2⟩
  · change (q.tail+1)%maxMsgs = (q.head+(q.count+1))%maxMsgs
    rw [h.tail,mod_add_mod,Nat.add_assoc]
  all_goals simp only [MqQueue.nth,h.tail]
  · intro o ho
    by_cases hc : o = q.count
    · subst hc
      simp
    rw [update_of_ne (offset_ne _ _ ho hcount hc)]
    have := h.used o ho
    simp only [MqQueue.nth] at this
    rw [this]
    omega
  · intro o o' hlt ho'
    rw [update_of_ne (offset_ne _ _ (by omega) hcount (by omega))]
    by_cases hc : o' = q.count
    · subst hc
      rw [update_self]
      exact h.past o hlt
    · rw [update_of_ne (offset_ne _ _ (by omega) hcount hc)]
      exact h.order o o' hlt (by omega)
  · intro o ho
    by_cases hc : o = q.count
    · subst hc
      rw [update_self]
      exact lt_succ_self _
    · rw [update_of_ne (offset_ne _ _ (by omega) hcount hc)]
      exact lt_succ_of_lt (h.past o (by omega))

variable (h : Lined q) (hr : mqTimedReceive q len = .ok (q',m))
    (hp : ∀ m, Present q m → (∀ m', Present q m' → m.stamp ≤ m'.stamp) →
      ∀ m', Present q m' → m'.priority ≤ m.priority)
include h hr hp

lemma Lined.receive_head : q' = {q with
      msgs := taken q (q.head%maxMsgs)
      count := q.count-1
      head := (q.head+1)%maxMsgs} := by
  obtain ⟨hc,i,hi,-,rfl⟩ := mqTimedReceive_ok hr
  obtain ⟨o,p,rfl,hb⟩ := selectHighest_some hi
  have hpos : 0 < q.count := Nat.pos_of_ne_zero hc
  have hold : ∀ m', Present q m' → (q.nth 0).stamp ≤ m'.stamp := by
    intro m' hm'
    obtain ⟨o',ho',rfl⟩ := h.present hm'
    rcases Nat.eq_zero_or_pos o' with rfl | hpos'
    · exact le_rfl
    · exact (h.order 0 o' hpos' ho').le
  have hkey := hb.here
  rw [h.settled.rank_eq] at hkey
  split_ifs at hkey with hu
  have hmax := hp _ (h.nth_present hpos) hold _ ⟨hu,_,mod_lt _ (by decide),rfl⟩
  obtain rfl : o = 0 := by
    by_contra hne
    have hlt := hb.first 0 (Nat.pos_of_ne_zero hne) (OrderDual.toDual (q.nth 0).priority) (by
      rw [h.settled.rank_eq]
      exact if_pos (h.nth_present hpos).1)
    rw [← Option.some.inj hkey] at hlt
    exact absurd hmax (Nat.not_le_of_lt hlt)
  rw [Nat.add_zero]
  congr 1
  have hwrap : (q.head%maxMsgs+1)%maxMsgs = (q.head+1)%maxMsgs := mod_add_mod _ _ _
  rw [hwrap]
  change (if !(taken q (q.head%maxMsgs) ((q.head+1)%maxMsgs)).used && 0 < q.count-1 then _ else _) = _
  by_cases hone : 0 < q.count-1
  · have hne : (q.head+1)%maxMsgs ≠ q.head%maxMsgs :=
      offset_ne q.head (o := 1) 0 (by decide) (by decide) (by decide)
    have hnext : (taken q (q.head%maxMsgs) ((q.head+1)%maxMsgs)).used = true := by
      rw [taken,update_of_ne hne]
      exact (h.nth_present (o := 1) (by omega)).1
    simp [hnext]
  · simp [hone]

lemma Lined.receive : Lined q' := by
  have hset : Settled q' := h.settled.next (next_receive.mpr ⟨m,hr⟩)
  have hpos : q.count ≠ 0 := (mqTimedReceive_ok hr).1
  obtain rfl := h.receive_head hr hp
  have hcount : q.count ≤ maxMsgs := h.room.1.trans h.room.2
  have hnth : ∀ o, o+1 < maxMsgs →
      taken q (q.head%maxMsgs) (((q.head+1)%maxMsgs+o)%maxMsgs) = q.nth (o+1) := by
    intro o ho
    have hne : (q.head+(o+1))%maxMsgs ≠ q.head%maxMsgs :=
      offset_ne q.head 0 ho (by decide) (succ_ne_zero o)
    rw [mod_add_mod,Nat.add_assoc,Nat.add_comm 1 o,taken,update_of_ne hne]
    rfl
  constructor
  · exact hset
  · exact ⟨by have := h.room.1; dsimp only; omega,h.room.2⟩
  · change q.tail = ((q.head+1)%maxMsgs+(q.count-1))%maxMsgs
    rw [h.tail,mod_add_mod]
    congr 1
    omega
  all_goals simp only [MqQueue.nth]
  · intro o ho
    by_cases hlast : o+1 < maxMsgs
    · rw [hnth o hlast,h.used (o+1) hlast]
      omega
    obtain rfl : o = maxMsgs-1 := by omega
    have hback : ((q.head+1)%maxMsgs+(maxMsgs-1))%maxMsgs = q.head%maxMsgs := by
      simp only [maxMsgs]
      omega
    rw [hback,taken,update_self]
    constructor
    · intro hu
      cases hu
    · intro hlt
      omega
  · intro o o' hlt ho'
    rw [hnth o (by omega),hnth o' (by omega)]
    exact h.order (o+1) (o'+1) (by omega) (by omega)
  · intro o ho
    rw [hnth o (by omega)]
    exact h.past (o+1) (by omega)

omit h hr hp

lemma Lined.patient (h : Lined q) {c : Op} (hn : Patient q c q') : Lined q' := by
  cases c with
  | send msg prio => exact h.send hn.1
  | receive len =>
    obtain ⟨m,hm⟩ := next_receive.mp hn.1
    exact h.receive hm hn.2

theorem receives_highest_then_earliest {a : Attr} (hq : Reaches Next (mqOpen a) q) {len : ℕ}
    {m : MsgEntry} (hr : mqTimedReceive q len = .ok (q',m)) :
    Present q m ∧ (∀ m', Present q m' → m'.priority ≤ m.priority) ∧ (Reaches Patient (mqOpen a) q →
      ∀ m', Present q m' → m'.priority = m.priority → m.stamp ≤ m'.stamp) := by
  have hset : Settled q :=
    invariant (I := Settled) (fun _ _ _ hi hn => hi.next hn) hq (fun _ => rfl)
  refine ⟨hset.receive_present hr,hset.receive_highest hr,fun hp => ?_⟩
  have hlined := invariant (I := Lined) (fun _ _ _ hi hn => hi.patient hn) hp (open_lined a)
  exact hlined.receive_earliest hr

def standard : Attr := ⟨8,512,by decide⟩

/-- Two messages of one priority with an urgent one between them: taking the
urgent one moves `head` past the older of the two. -/
def overtaken : List Op := [.send [65] 1,.send [66] 5,.send [67] 1,.receive 512]

theorem later_message_returned_first :
    ∃ q q' m m', Reaches Next (mqOpen standard) q ∧ mqTimedReceive q 512 = .ok (q',m) ∧
      Present q m' ∧ m'.priority = m.priority ∧ m'.stamp < m.stamp := by
  refine ⟨_,_,_,⟨[65],1,true,false,0⟩,foldlM_reaches overtaken rfl,rfl,?_,rfl,?_⟩
  · exact ⟨rfl,0,by decide,rfl⟩
  · decide

def twoSent : MqQueue :=
  (([.send [65] 1,.send [66] 1].foldlM perform (mqOpen standard)).toOption).getD (mqOpen standard)

lemma twoSent_patient : Reaches Patient (mqOpen standard) twoSent := by
  have hone : Reaches Patient (mqOpen standard) _ :=
    (Reaches.start _ _).snoc (c := .send [65] 1) ⟨show perform _ _ = .ok _ from rfl,trivial⟩
  exact hone.snoc (c := .send [66] 1) ⟨show perform _ _ = .ok twoSent from rfl,trivial⟩

theorem receives_highest_then_earliest_pair :
    ∃ r, mqTimedReceive twoSent 512 = .ok r ∧ r.2.data = [65] ∧
      ∀ m', Present twoSent m' → m'.priority = r.2.priority → r.2.stamp ≤ m'.stamp := by
  have hnext : Reaches Next (mqOpen standard) twoSent :=
    foldlM_reaches [.send [65] 1,.send [66] 1] rfl
  have hfirst : (mqTimedReceive twoSent 512).map (fun r => r.2.data) = .ok [65] := rfl
  cases hr : mqTimedReceive twoSent 512 with
  | error e =>
    rw [hr] at hfirst
    cases hfirst
  | ok r =>
    rw [hr] at hfirst
    exact ⟨r,rfl,Except.ok.inj hfirst,
      (receives_highest_then_earliest hnext hr).2.2 twoSent_patient⟩

end MoQiOS.PosixMq
