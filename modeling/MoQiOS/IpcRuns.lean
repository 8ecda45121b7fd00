import MoQiOS.IpcSlots
import MoQiOS.Runs

/-!
# Runs of the message passing machine

What the slots, the received and the withdrawn messages have in common in
every state a run reaches.
-/

namespace MoQiOS.Ipc
open Runs List
set_option maxRecDepth 9000

def perform (s : State) (c : Env×Op) : State := step c.1 s c.2

def Next : State → Env×Op → State → Prop := Guarded (fun s c => Ready s c.2) perform

instance decidableReady (s : State) (op : Op) : Decidable (Ready s op) := by
  cases op <;> dsimp only [Ready] <;> infer_instance

/-- Tags name messages: the pending, the received and the withdrawn ones are
apart, and every tag was accepted. -/
structure History (s : State) : Prop where
  slots : ∀ i, SlotOk (s.endpoints i)
  pending : ∀ i, (s.endpoints i).pendingMsg.isSome = true → (s.endpoints i).pendingTag < s.accepted ∧
    (s.endpoints i).pendingTag ∉ s.received ∧ (s.endpoints i).pendingTag ∉ s.withdrawn
  distinct : ∀ i j, (s.endpoints i).pendingMsg.isSome = true →
    (s.endpoints j).pendingMsg.isSome = true →
    (s.endpoints i).pendingTag = (s.endpoints j).pendingTag → i = j
  received : ∀ tag ∈ s.received, tag < s.accepted
  withdrawn : ∀ tag ∈ s.withdrawn, tag < s.accepted
  once : s.received.Nodup
  apart : ∀ tag ∈ s.withdrawn, tag ∉ s.received

lemma start_history : History start :=
  ⟨fun _ => slotOk_empty,by simp [start,emptyEndpoint],by simp [start,emptyEndpoint],
    by simp [start],by simp [start],nodup_nil,by simp [start]⟩

section
variable {s s' : State} (h : History s)
include h

/-- Pending messages are received or withdrawn, and one slot may take a new one. -/
lemma History.pass (received withdrawn : List ℕ) (ep : ℕ)
    (hslots : ∀ i, SlotOk (s'.endpoints i)) (hacc : s.accepted ≤ s'.accepted)
    (hr : s'.received = s.received++received) (hw : s'.withdrawn = s.withdrawn++withdrawn)
    (honce : received.Nodup) (hapart : ∀ tag ∈ withdrawn, tag ∉ received)
    (hgone : ∀ tag ∈ received++withdrawn, ∃ i, (s.endpoints i).pendingMsg.isSome = true ∧
      (s.endpoints i).pendingTag = tag ∧ (s'.endpoints i).pendingMsg = none)
    (hkept : ∀ i, (s'.endpoints i).pendingMsg.isSome = true →
      SameSlot (s.endpoints i) (s'.endpoints i) ∨
      i = ep ∧ (s'.endpoints i).pendingTag = s.accepted ∧ s.accepted < s'.accepted) : History s' := by
  have htag : ∀ tag ∈ received++withdrawn,
      tag < s.accepted ∧ tag ∉ s.received ∧ tag ∉ s.withdrawn := by
    intro tag ht
    obtain ⟨i,hi,rfl,-⟩ := hgone tag ht
    exact h.pending i hi
  have hbelow : ∀ tag, tag ∈ s'.received ∨ tag ∈ s'.withdrawn → tag < s.accepted := by
    rw [hr,hw]
    intro tag ht
    simp only [mem_append] at ht
    rcases ht with (ht | ht) | (ht | ht)
    · exact h.received tag ht
    · exact (htag tag (mem_append_left _ ht)).1
    · exact h.withdrawn tag ht
    · exact (htag tag (mem_append_right _ ht)).1
  refine ⟨hslots,?_,?_,fun tag ht => (hbelow tag (.inl ht)).trans_le hacc,
    fun tag ht => (hbelow tag (.inr ht)).trans_le hacc,?_,?_⟩
  · intro i hi
    rcases hkept i hi with hk | ⟨-,hnew,hlt⟩
    · have hi' : (s.endpoints i).pendingMsg.isSome = true := hk.1 ▸ hi
      obtain ⟨hlt,hnr,hnw⟩ := h.pending i hi'
      have hstay : (s.endpoints i).pendingTag ∉ received++withdrawn := by
        intro hmem
        obtain ⟨j,hj,heq,hnone⟩ := hgone _ hmem
        obtain rfl := h.distinct j i hj hi' heq
        rw [hnone] at hi
        cases hi
      rw [mem_append,not_or] at hstay
      rw [hk.2,hr,hw,mem_append,mem_append]
      exact ⟨hlt.trans_le hacc,not_or.mpr ⟨hnr,hstay.1⟩,not_or.mpr ⟨hnw,hstay.2⟩⟩
    -- The new tag is above every tag that was given before.
    · rw [hnew]
      exact ⟨hlt,fun hmem => lt_irrefl _ (hbelow _ (.inl hmem)),
        fun hmem => lt_irrefl _ (hbelow _ (.inr hmem))⟩
  · intro i j hi hj hij
    rcases hkept i hi with hki | ⟨rfl,hti,-⟩ <;> rcases hkept j hj with hkj | ⟨rfl,htj,-⟩
    · rw [hki.2,hkj.2] at hij
      exact h.distinct i j (hki.1 ▸ hi) (hkj.1 ▸ hj) hij
    · rw [hki.2,htj] at hij
      exact absurd (h.pending i (hki.1 ▸ hi)).1 (by omega)
    · rw [hti,hkj.2] at hij
      exact absurd (h.pending j (hkj.1 ▸ hj)).1 (by omega)
    · rfl
  · rw [hr]
    exact nodup_append.mpr ⟨h.once,honce,fun a ha b hb hab =>
      (htag b (mem_append_left _ hb)).2.1 (hab ▸ ha)⟩
  · rw [hr,hw]
    intro tag ht hmem
    rcases mem_append.mp ht with ht | ht <;> rcases mem_append.mp hmem with hmem | hmem
    · exact h.apart tag ht hmem
    · exact (htag tag (mem_append_left _ hmem)).2.2 ht
    · exact (htag tag (mem_append_right _ ht)).2.1 hmem
    · exact hapart tag ht hmem

lemma History.shrinks (hm : Shrinks s s') : History s' := by
  obtain ⟨tags,heq,htags⟩ := hm.withdrawn
  refine h.pass [] tags 0 (fun i => hm.slots i (h.slots i)) hm.accepted.ge
    (by rw [hm.received,append_nil]) heq nodup_nil (fun _ _ => not_mem_nil) htags fun i hi => .inl ?_
  refine (hm.kept i).resolve_right fun hnone => ?_
  rw [hnone] at hi
  cases hi

lemma History.slots_but {ep : ℕ} (hslot : SlotOk (s'.endpoints ep))
    (hrest : ∀ i, i ≠ ep → s'.endpoints i = s.endpoints i) (i : ℕ) : SlotOk (s'.endpoints i) := by
  by_cases hi : i = ep
  · exact hi ▸ hslot
  · exact hrest i hi ▸ h.slots i

lemma History.stages {ep : ℕ} (hm : Stages ep s s') : History s' := by
  refine h.pass [] [] ep (h.slots_but hm.slot hm.rest) (hm.accepted ▸ Nat.le_succ _)
    (by rw [hm.received,append_nil]) (by rw [hm.withdrawn,append_nil]) nodup_nil nofun nofun
    fun i _ => ?_
  by_cases hi : i = ep
  · exact .inr ⟨hi,hi ▸ hm.tag,hm.accepted ▸ Nat.lt_succ_self _⟩
  · rw [hm.rest i hi]
    exact .inl ⟨rfl,rfl⟩

lemma History.takes {ep : ℕ} (hm : Takes ep s s') : History s' := by
  refine h.pass [_] [] ep (h.slots_but hm.slot hm.rest) hm.accepted.ge hm.received
    (by rw [hm.withdrawn,append_nil]) (nodup_singleton _) nofun (fun tag ht => ?_) fun i hi => .inl ?_
  · exact ⟨ep,hm.full,(mem_singleton.mp ht).symm,hm.free⟩
  have hne : i ≠ ep := by
    rintro rfl
    rw [hm.free] at hi
    cases hi
  rw [hm.rest i hne]
  exact ⟨rfl,rfl⟩

variable {c : Env×Op}

lemma History.next (hn : Next s c s') : History s' := by
  obtain ⟨-,rfl⟩ := hn
  rcases step_moves c.1 h.slots c.2 with hm | ⟨ep,hm⟩ | ⟨ep,hm⟩
  · exact h.shrinks hm
  · exact h.stages hm
  · exact h.takes hm

lemma History.kept (hn : Next s c s') {i : ℕ} (hi : (s.endpoints i).pendingMsg.isSome = true) :
    SameSlot (s.endpoints i) (s'.endpoints i) ∨ (s'.endpoints i).pendingMsg = none := by
  obtain ⟨-,rfl⟩ := hn
  rw [perform]
  rcases step_moves c.1 h.slots c.2 with hm | ⟨ep,hm⟩ | ⟨ep,hm⟩
  · exact hm.kept i
  · have hne : i ≠ ep := by
      rintro rfl
      rw [hm.free] at hi
      cases hi
    rw [hm.rest i hne]
    exact .inl ⟨rfl,rfl⟩
  · by_cases hie : i = ep
    · exact .inr (hie ▸ hm.free)
    · rw [hm.rest i hie]
      exact .inl ⟨rfl,rfl⟩

end

lemma History.withdrawn_next {s s' : State} (h : History s) {c : Env×Op} (hn : Next s c s')
    {tag : ℕ} (ht : tag ∈ s.withdrawn) : tag ∈ s'.withdrawn := by
  obtain ⟨-,rfl⟩ := hn
  rcases step_moves c.1 h.slots c.2 with hm | ⟨ep,hm⟩ | ⟨ep,hm⟩
  · obtain ⟨tags,heq,-⟩ := hm.withdrawn
    exact heq ▸ mem_append_left tags ht
  · exact hm.withdrawn ▸ ht
  · exact hm.withdrawn ▸ ht

lemma reached_history {s : State} (h : Reaches Next start s) : History s :=
  invariant (fun _ _ _ hs hn => hs.next hn) h start_history

/-- A pending message has one owner, the next step does not replace it, no
message is received twice and none is received that was withdrawn. -/
structure MessageSafe (s : State) : Prop where
  owner : ∀ i, (s.endpoints i).pendingMsg.isSome = true →
    ((s.endpoints i).waitingSender.isSome ^^ (s.endpoints i).deliveryReceiver.isSome) = true
  kept : ∀ c s', Next s c s' → ∀ i, (s.endpoints i).pendingMsg.isSome = true →
    SameSlot (s.endpoints i) (s'.endpoints i) ∨ (s'.endpoints i).pendingMsg = none
  once : s.received.Nodup
  withdrawn : ∀ s', Reaches Next s s' → ∀ tag ∈ s.withdrawn, tag ∉ s'.received

theorem reached_messages_safe {s : State} (h : Reaches Next start s) : MessageSafe s := by
  have hh := reached_history h
  refine ⟨?_,fun c s' hn i hi => hh.kept hn hi,hh.once,?_⟩
  · intro i hi
    have howned := (hh.slots i).owned
    have hsingle := (hh.slots i).single
    rw [hi] at howned
    generalize (s.endpoints i).waitingSender.isSome = a at *
    generalize (s.endpoints i).deliveryReceiver.isSome = b at *
    revert a b
    decide
  · intro s' hrun tag ht
    have hkept : History s' ∧ tag ∈ s'.withdrawn :=
      invariant (I := fun t => History t ∧ tag ∈ t.withdrawn)
        (fun _ _ _ ht hn => ⟨ht.1.next hn,ht.1.withdrawn_next hn ht.2⟩) hrun ⟨hh,ht⟩
    exact hkept.1.apart tag hkept.2

/-- Two tasks with an endpoint each; the first sends to the second, which takes
the message, and then sends again and times out. -/
def sendTwice : List (Env×Op) :=
  let env : Env := ⟨true,some 1,some 1,false,false,1⟩
  [(env,.create 1),(env,.create 2),(env,.send 1 2 ⟨0,0,[7]⟩ true),(env,.receive 2 2 true),
    (env,.resume 1),(env,.send 1 2 ⟨0,0,[8]⟩ true),({ env with now := 4000 },.tick (fun _ => .live))]

theorem reached_messages_safe_twice : let s := run perform start sendTwice
    s.received = [0] ∧ s.withdrawn = [1] ∧ MessageSafe s :=
  ⟨by decide,by decide,
    reached_messages_safe (run_reaches (.start Next start) (by decide))⟩

end MoQiOS.Ipc
