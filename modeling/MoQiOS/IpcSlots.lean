import MoQiOS.IpcCalls

/-!
# The message slot of an endpoint

Every section either leaves the slots alone or empties some of them, or stages
one message in an empty slot, or hands the message of one slot to a receiver.
Ownership of pending messages and their single delivery follow from that.
-/

namespace MoQiOS.Ipc

open List

/-- A pending message has a registered sender or a designated receiver, not
both, and nobody waits to receive while a sender is registered. -/
structure SlotOk (e : Endpoint) : Prop where
  owned : e.pendingMsg.isSome = (e.waitingSender.isSome || e.deliveryReceiver.isSome)
  single : (e.waitingSender.isSome && e.deliveryReceiver.isSome) = false
  waiting : (e.waitingReceiver.isSome && e.waitingSender.isSome) = false
  inactive : e.active = false → e.pendingMsg = none

def SameSlot (e e' : Endpoint) : Prop := e'.pendingMsg = e.pendingMsg ∧ e'.pendingTag = e.pendingTag

/-- Slots keep their message or lose it, and `withdrawn` gains only messages
that are lost. -/
structure Shrinks (s s' : State) : Prop where
  slots : ∀ i, SlotOk (s.endpoints i) → SlotOk (s'.endpoints i)
  kept : ∀ i, SameSlot (s.endpoints i) (s'.endpoints i) ∨ (s'.endpoints i).pendingMsg = none
  received : s'.received = s.received
  accepted : s'.accepted = s.accepted
  withdrawn : ∃ tags, s'.withdrawn = s.withdrawn++tags ∧ ∀ tag ∈ tags, ∃ i,
    (s.endpoints i).pendingMsg.isSome = true ∧ (s.endpoints i).pendingTag = tag ∧
    (s'.endpoints i).pendingMsg = none

structure Stages (ep : ℕ) (s s' : State) : Prop where
  free : (s.endpoints ep).pendingMsg = none
  full : (s'.endpoints ep).pendingMsg.isSome = true
  tag : (s'.endpoints ep).pendingTag = s.accepted
  slot : SlotOk (s'.endpoints ep)
  rest : ∀ i, i ≠ ep → s'.endpoints i = s.endpoints i
  accepted : s'.accepted = s.accepted+1
  received : s'.received = s.received
  withdrawn : s'.withdrawn = s.withdrawn

structure Takes (ep : ℕ) (s s' : State) : Prop where
  full : (s.endpoints ep).pendingMsg.isSome = true
  free : (s'.endpoints ep).pendingMsg = none
  slot : SlotOk (s'.endpoints ep)
  rest : ∀ i, i ≠ ep → s'.endpoints i = s.endpoints i
  accepted : s'.accepted = s.accepted
  received : s'.received = s.received++[(s.endpoints ep).pendingTag]
  withdrawn : s'.withdrawn = s.withdrawn

def Moves (s s' : State) : Prop :=
  Shrinks s s' ∨ (∃ ep, Stages ep s s') ∨ ∃ ep, Takes ep s s'

variable {s : State}

lemma Shrinks.of_eq {s' : State} (h : (s'.endpoints,s'.received,s'.accepted,s'.withdrawn) =
    (s.endpoints,s.received,s.accepted,s.withdrawn)) : Shrinks s s' := by
  simp only [Prod.mk.injEq] at h
  obtain ⟨he,hr,ha,hw⟩ := h
  refine ⟨fun i h => he ▸ h,fun i => .inl (he ▸ ⟨rfl,rfl⟩),hr,ha,[],?_,fun _ h => by cases h⟩
  rw [hw,append_nil]

lemma Shrinks.refl (s : State) : Shrinks s s := .of_eq rfl

variable {t u : State}

lemma Shrinks.trans (h : Shrinks s t) (h' : Shrinks t u) : Shrinks s u := by
  obtain ⟨tags,heq,htags⟩ := h.withdrawn
  obtain ⟨tags',heq',htags'⟩ := h'.withdrawn
  refine ⟨fun i hi => h'.slots i (h.slots i hi),?_,h'.received.trans h.received,
    h'.accepted.trans h.accepted,tags++tags',?_,?_⟩
  · intro i
    rcases h'.kept i with hk' | hnone
    · rcases h.kept i with hk | hnone
      · exact .inl ⟨hk'.1.trans hk.1,hk'.2.trans hk.2⟩
      · exact .inr (hk'.1.trans hnone)
    · exact .inr hnone
  · rw [heq',heq,append_assoc]
  · intro tag ht
    rcases mem_append.mp ht with ht | ht
    · obtain ⟨i,hsome,htag,hnone⟩ := htags tag ht
      refine ⟨i,hsome,htag,?_⟩
      rcases h'.kept i with hk | hk
      · exact hk.1.trans hnone
      · exact hk
    · obtain ⟨i,hsome,htag,hnone⟩ := htags' tag ht
      rcases h.kept i with hk | hk
      · exact ⟨i,hk.1 ▸ hsome,hk.2 ▸ htag,hnone⟩
      · rw [hk] at hsome
        cases hsome

lemma setEndpoint_self (s : State) (i : ℕ) (e : Endpoint) : (s.setEndpoint i e).endpoints i = e := by
  simp [State.setEndpoint]

variable {i : ℕ}

lemma setEndpoint_of_ne (s : State) {j : ℕ} (e : Endpoint) (h : j ≠ i) :
    (s.setEndpoint i e).endpoints j = s.endpoints j := by
  simp [State.setEndpoint,h]

/-- What a section that hands out nothing may do to one endpoint. -/
def Gentle (e e' : Endpoint) : Prop :=
  (SlotOk e → SlotOk e') ∧ (SameSlot e e' ∨ e'.pendingMsg = none)

lemma Gentle.refl (e : Endpoint) : Gentle e e := ⟨id,.inl ⟨rfl,rfl⟩⟩

variable {e : Endpoint}

lemma Shrinks.setEndpoint (h : Gentle (s.endpoints i) e) : Shrinks s (s.setEndpoint i e) := by
  refine ⟨?_,?_,rfl,rfl,[],(append_nil _).symm,fun _ h => by cases h⟩
  · intro j hj
    by_cases hij : j = i
    · subst hij
      rw [setEndpoint_self]
      exact h.1 hj
    · rw [setEndpoint_of_ne s e hij]
      exact hj
  · intro j
    by_cases hij : j = i
    · subst hij
      rw [setEndpoint_self]
      exact h.2
    · rw [setEndpoint_of_ne s e hij]
      exact .inl ⟨rfl,rfl⟩

lemma Gentle.of_eq {e' : Endpoint} (h : (e'.waitingSender,e'.waitingReceiver,e'.deliveryReceiver,
    e'.pendingMsg,e'.pendingTag,e'.active) = (e.waitingSender,e.waitingReceiver,e.deliveryReceiver,
    e.pendingMsg,e.pendingTag,e.active)) : Gentle e e' := by
  simp only [Prod.mk.injEq] at h
  obtain ⟨hs,hr,hd,hp,ht,ha⟩ := h
  refine ⟨fun h => ⟨?_,?_,?_,?_⟩,.inl ⟨hp,ht⟩⟩
  · rw [hp,hs,hd,h.owned]
  · rw [hs,hd,h.single]
  · rw [hr,hs,h.waiting]
  · rw [ha,hp]
    exact h.inactive

lemma Shrinks.update {s' : State}
    (hs : (s'.endpoints,s'.received,s'.accepted,s'.withdrawn) =
      ((s.setEndpoint i e).endpoints,s.received,s.accepted,s.withdrawn))
    (h : Gentle (s.endpoints i) e) : Shrinks s s' :=
  (Shrinks.setEndpoint h).trans (.of_eq hs)

variable {f g : Endpoint}

lemma Gentle.trans (h : Gentle e f) (h' : Gentle f g) : Gentle e g := by
  refine ⟨fun he => h'.1 (h.1 he),?_⟩
  rcases h'.2 with hk' | hnone
  · rcases h.2 with hk | hnone
    · exact .inl ⟨hk'.1.trans hk.1,hk'.2.trans hk.2⟩
    · exact .inr (hk'.1.trans hnone)
  · exact .inr hnone

def Cleared (e : Endpoint) : Prop := e.replyMsg = none ∧ e.replyToken = 0

/-- An outstanding token may be withdrawn. -/
structure Quiet (e e' : Endpoint) : Prop where
  active : e'.active = e.active
  owner : e'.ownerTaskIdx = e.ownerTaskIdx
  replyMsg : e'.replyMsg = e.replyMsg
  replyNo : e'.replyNo = e.replyNo
  callNo : e'.callNo = e.callNo
  token : e'.replyToken = e.replyToken ∨ e'.replyToken = 0

lemma Quiet.refl (e : Endpoint) : Quiet e e := ⟨rfl,rfl,rfl,rfl,rfl,.inl rfl⟩

lemma Quiet.trans (h : Quiet e f) (h' : Quiet f g) : Quiet e g := by
  refine ⟨h'.active.trans h.active,h'.owner.trans h.owner,h'.replyMsg.trans h.replyMsg,
    h'.replyNo.trans h.replyNo,h'.callNo.trans h.callNo,?_⟩
  rcases h'.token with ht | ht
  · rw [ht]
    exact h.token
  · exact .inr ht

lemma Quiet.cleared (h : Quiet e f) (hc : Cleared e) : Cleared f := by
  refine ⟨h.replyMsg.trans hc.1,?_⟩
  rcases h.token with ht | ht
  · exact ht.trans hc.2
  · exact ht

variable {p : Prop}

lemma Quiet.or_trans (h : Quiet e f ∨ (Cleared f ∧ p)) (h' : Quiet f g ∨ (Cleared g ∧ p)) :
    Quiet e g ∨ (Cleared g ∧ p) := by
  rcases h' with hq | hc
  · exact h.imp (fun h => h.trans hq) (fun h => ⟨hq.cleared h.1,h.2⟩)
  · exact .inr hc

/-- A section that touches no call, apart from clearing some endpoints. -/
structure Calm (free : ℕ → Prop) (s s' : State) : Prop where
  pc : s'.pc = s.pc
  depth : ∀ t, (s'.tasks t).callDepth = (s.tasks t).callDepth
  endpoints : ∀ i, Quiet (s.endpoints i) (s'.endpoints i) ∨ (Cleared (s'.endpoints i) ∧ free i)
  answered : s'.answered = s.answered
  trapped : s'.trapped = s.trapped

variable {ends : ℕ → Prop}

lemma Calm.refl (s : State) : Calm ends s s := ⟨rfl,fun _ => rfl,fun _ => .inl (.refl _),rfl,rfl⟩

lemma Calm.trans (h : Calm ends s t) (h' : Calm ends t u) : Calm ends s u :=
  ⟨h'.pc.trans h.pc,fun i => (h'.depth i).trans (h.depth i),
    fun i => Quiet.or_trans (h.endpoints i) (h'.endpoints i),h'.answered.trans h.answered,
    h'.trapped.trans h.trapped⟩

lemma Calm.cleared (h : Calm ends s t) (hc : Cleared (s.endpoints i)) : Cleared (t.endpoints i) := by
  rcases h.endpoints i with hq | hc'
  · exact hq.cleared hc
  · exact hc'.1

lemma Calm.setTask {w : TaskState} (hu : Calm ends s u)
    (h : w.callDepth = (u.tasks i).callDepth) : Calm ends s (u.setTask i w) := by
  refine hu.trans ⟨rfl,fun j => ?_,fun _ => .inl (.refl _),rfl,rfl⟩
  by_cases hj : j = i
  · subst hj
    simp [State.setTask,h]
  · simp [State.setTask,hj]

lemma Calm.setEndpoint (h : Quiet (s.endpoints i) e ∨ (Cleared e ∧ ends i)) :
    Calm ends s (s.setEndpoint i e) := by
  refine ⟨rfl,fun _ => rfl,?_,rfl,rfl⟩
  intro j
  by_cases hj : j = i
  · subst hj
    rw [setEndpoint_self]
    exact h
  · rw [setEndpoint_of_ne s e hj]
    exact .inl (.refl _)

/-- Both at one endpoint, which may be cleared under a condition. -/
def Edits (p : Prop) (e e' : Endpoint) : Prop := Gentle e e' ∧ (Quiet e e' ∨ (Cleared e' ∧ p))

lemma Edits.refl (e : Endpoint) : Edits p e e := ⟨.refl e,.inl (.refl e)⟩

lemma Edits.trans (h : Edits p e f) (h' : Edits p f g) : Edits p e g :=
  ⟨h.1.trans h'.1,Quiet.or_trans h.2 h'.2⟩

lemma Edits.ite (c : Prop) [Decidable c] (hf : c → Edits p e f)
    (hg : ¬c → Edits p e g) : Edits p e (if c then f else g) := by
  split_ifs with h
  · exact hf h
  · exact hg h

/-- A section that hands out nothing and touches no call. -/
structure Settles (free : ℕ → Prop) (s s' : State) : Prop extends Shrinks s s', Calm free s s'

lemma Settles.refl (s : State) : Settles ends s s := ⟨.refl s,.refl s⟩

lemma Settles.trans (h : Settles ends s t) (h' : Settles ends t u) : Settles ends s u :=
  ⟨h.toShrinks.trans h'.toShrinks,h.toCalm.trans h'.toCalm⟩

lemma Settles.setTask {w : TaskState} (hu : Settles ends s u)
    (h : w.callDepth = (u.tasks i).callDepth) : Settles ends s (u.setTask i w) :=
  ⟨hu.toShrinks.trans (.of_eq rfl),hu.toCalm.setTask h⟩

lemma Settles.setEndpoint (h : Edits (ends i) (s.endpoints i) e) :
    Settles ends s (s.setEndpoint i e) := ⟨.setEndpoint h.1,.setEndpoint h.2⟩

lemma Settles.sweep (s : State) {f : ℕ → Endpoint → Endpoint}
    (hf : ∀ i, Edits (ends i) (s.endpoints i) (f i (s.endpoints i))) :
    Settles ends s (s.sweep f) := by
  have heach : ∀ i, Edits (ends i) (s.endpoints i) ((s.sweep f).endpoints i) := by
    intro i
    simp only [State.sweep]
    split_ifs
    · exact hf i
    · exact .refl _
  refine ⟨⟨fun i => (heach i).1.1,fun i => (heach i).1.2,rfl,rfl,_,rfl,?_⟩,
    rfl,fun _ => rfl,fun i => (heach i).2,rfl,rfl⟩
  intro tag ht
  obtain ⟨i,hi,rfl⟩ := mem_map.mp ht
  have hcond := (mem_filter.mp hi).2
  rw [Bool.and_eq_true,Option.isNone_iff_eq_none] at hcond
  exact ⟨i,hcond.1,rfl,hcond.2⟩

lemma slotOk_empty : SlotOk emptyEndpoint := ⟨rfl,rfl,rfl,fun _ => rfl⟩

lemma clearCall_gentle (e : Endpoint) : Gentle e e.clearCall :=
  ⟨fun h => ⟨h.owned,h.single,h.waiting,h.inactive⟩,.inl ⟨rfl,rfl⟩⟩

lemma clearCall_edits (e : Endpoint) : Edits p e e.clearCall :=
  ⟨clearCall_gentle e,.inl ⟨rfl,rfl,rfl,rfl,rfl,.inr rfl⟩⟩

lemma empty_edits (e : Endpoint) (hp : p) : Edits p e emptyEndpoint :=
  ⟨⟨fun _ => slotOk_empty,.inr rfl⟩,.inr ⟨⟨rfl,rfl⟩,hp⟩⟩

variable {idx : ℕ}

lemma dropSender_edits (e : Endpoint) (hs : e.waitingSender = some idx) :
    Edits p e {e with waitingSender := none, pendingMsg := none} := by
  refine ⟨⟨fun h => ⟨?_,rfl,?_,fun _ => rfl⟩,.inr rfl⟩,.inl ⟨rfl,rfl,rfl,rfl,rfl,.inl rfl⟩⟩
  · have hsingle := h.single
    rw [hs] at hsingle
    simpa using hsingle
  · simp

lemma dropWaiting_edits (e : Endpoint) : Edits p e {e with waitingReceiver := none} :=
  ⟨⟨fun h => ⟨h.owned,h.single,rfl,h.inactive⟩,.inl ⟨rfl,rfl⟩⟩, .inl ⟨rfl,rfl,rfl,rfl,rfl,.inl rfl⟩⟩

lemma dropDelivery_edits (e : Endpoint) (hs : e.deliveryReceiver = some idx) :
    Edits p e {e with deliveryReceiver := none, pendingMsg := none} := by
  refine ⟨⟨fun h => ⟨?_,?_,h.waiting,fun _ => rfl⟩,.inr rfl⟩,.inl ⟨rfl,rfl,rfl,rfl,rfl,.inl rfl⟩⟩
  · have hsingle := h.single
    rw [hs] at hsingle
    simpa using hsingle
  · simp

lemma notify_edits (e : Endpoint) (n : ℕ) : Edits p e {e with pendingNotify := n} :=
  ⟨.of_eq rfl,.inl ⟨rfl,rfl,rfl,rfl,rfl,.inl rfl⟩⟩

lemma forgetTask_edits (idx : ℕ) (e : Endpoint) : Edits p e (forgetTask idx e) := by
  rw [forgetTask]
  apply Edits.ite _ (fun _ => .refl e)
  intro _
  extract_lets e1 e2 e3
  have h1 : Edits p e e1 := Edits.ite _ (dropSender_edits e) (fun _ => .refl e)
  have h2 : Edits p e1 e2 := Edits.ite _ (fun _ => dropWaiting_edits e1) (fun _ => .refl e1)
  have h3 : Edits p e2 e3 := Edits.ite _ (dropDelivery_edits e2) (fun _ => .refl e2)
  exact ((h1.trans h2).trans h3).trans
    (Edits.ite _ (fun _ => clearCall_edits e3) (fun _ => .refl e3))

variable (op : WaitOp)

lemma expireAt_edits (idx : ℕ) (e : Endpoint) : Edits p e (expireAt op idx e) := by
  simp only [expireAt]
  apply Edits.ite _ (fun _ => .refl e)
  intro _
  cases op with
  | none => exact .refl e
  | send => exact Edits.ite _ (dropSender_edits e) (fun _ => .refl e)
  | receive => exact Edits.ite _ (fun _ => dropWaiting_edits e) (fun _ => .refl e)
  | call => exact Edits.ite _ (fun _ => clearCall_edits e) (fun _ => .refl e)

lemma withdrawCall_edits (blockedOn idx i : ℕ) (e : Endpoint) :
    Edits p e (withdrawCall op blockedOn idx i e) := by
  rw [withdrawCall]
  exact Edits.ite _ (fun h => dropSender_edits e h.2.2.2.1) (fun _ => .refl e)

variable (err : IpcError)

lemma cancelWaits_settles (s : State) (idxs : List ℕ) :
    Settles ends s (cancelWaits err s idxs) := by
  induction idxs generalizing s with
  | nil => exact .refl s
  | cons idx rest ih =>
    apply Settles.trans _ (ih (cancelWaitLocked err s idx))
    rw [cancelWaitLocked]
    split_ifs
    · exact .refl s
    · exact .setTask (.refl s) rfl

lemma cancelWaits_endpoints (s : State) (idxs : List ℕ) :
    (cancelWaits err s idxs).endpoints = s.endpoints := by
  induction idxs generalizing s with
  | nil => rfl
  | cons idx rest ih =>
    apply (ih (cancelWaitLocked err s idx)).trans
    rw [cancelWaitLocked]
    split_ifs <;> rfl

variable (now : ℕ)

lemma timeoutTask_settles (live : ℕ → Liveness) (s : State) (idx : ℕ) :
    Settles ends s (timeoutTask now live s idx) := by
  have h1 : Settles ends s _ :=
    .sweep s (fun i => withdrawCall_edits (s.tasks idx).waitOp (s.tasks idx).blockedOn idx i _)
  have h2 := h1.trans (.sweep _ (fun _ => expireAt_edits (s.tasks idx).waitOp idx _))
  simp only [timeoutTask]
  split_ifs
  · exact .refl s
  · exact .refl s
  · exact .setTask (.refl s) rfl
  · exact .setTask h2 rfl
  · exact h2

lemma timeoutTick_settles (live : ℕ → Liveness) (s : State) :
    Settles ends s (timeoutTick now live s) := by
  rw [timeoutTick]
  induction List.range maxTasks generalizing s with
  | nil => exact .refl s
  | cons idx rest ih => exact (timeoutTask_settles now live s idx).trans (ih _)

variable (env : Env)

lemma destroyEndpoint_settles (s : State) (ep caller : ℕ) :
    Settles (fun i => (s.endpoints i).ownerTaskIdx = some caller) s
      (destroyEndpoint env s ep caller) := by
  simp only [destroyEndpoint]
  split
  · exact .refl s
  split
  · exact .refl s
  rename_i howner
  push Not at howner
  apply Settles.trans _ (cancelWaits_settles _ _ _)
  apply Settles.trans _
    (Settles.sweep _ (fun i => Edits.ite _ (fun _ => clearCall_edits _) (fun _ => .refl _)))
  apply Settles.trans (cancelWaits_settles _ s _)
  exact Settles.sweep _ (fun i =>
    Edits.ite _ (fun hi => empty_edits _ (hi ▸ howner.2.1)) (fun _ => .refl _))

lemma clearEndpointsForTask_settles (s : State) (idx : ℕ) : ∃ u,
    clearEndpointsForTask s idx = u.setTask idx noTask ∧
    Settles (fun i => (s.endpoints i).ownerTaskIdx = some idx) s u ∧
    ∀ i ∈ endpointIds, owns (s.endpoints i) idx = true → Cleared (u.endpoints i) := by
  refine ⟨_,rfl,?_,?_⟩
  · apply Settles.trans _ (cancelWaits_settles _ _ _)
    apply Settles.trans _ (Settles.sweep _ (fun i => forgetTask_edits idx _))
    apply Settles.trans (cancelWaits_settles _ s _)
    refine Settles.sweep _ (fun i => ?_)
    rw [cancelWaits_endpoints]
    refine Edits.ite _ (fun hi => empty_edits _ ?_) (fun _ => .refl _)
    rw [owns,Bool.and_eq_true,decide_eq_true_eq] at hi
    exact hi.2
  · intro i hmem hi
    apply @Calm.cleared _ _ _ (fun _ => False) (cancelWaits_settles _ _ _).toCalm
    apply @Calm.cleared _ _ _ (fun _ => False)
      (Settles.sweep _ (fun i => forgetTask_edits idx _)).toCalm
    simp only [State.sweep]
    rw [if_pos hmem,cancelWaits_endpoints,if_pos hi]
    exact ⟨rfl,rfl⟩

lemma createEndpoint_settles (s : State) (owner : ℕ) :
    Settles (fun i => (s.endpoints i).active = false) s (createEndpoint env s owner) := by
  rw [createEndpoint]
  split
  · exact .refl s
  split
  · exact .refl s
  rename_i tid _ _ i hfree
  have hi : (s.endpoints i).active = false := by simpa using List.find?_some hfree
  have hset : Settles (fun i => (s.endpoints i).active = false) s (s.setEndpoint i
      {emptyEndpoint with ownerTaskIdx := some owner, ownerTid := some tid, active := true}) :=
    .setEndpoint ⟨⟨fun _ => ⟨rfl,rfl,rfl,fun _ => rfl⟩,.inr rfl⟩,.inr ⟨⟨rfl,rfl⟩,hi⟩⟩
  exact ⟨hset.toShrinks.trans (.of_eq rfl),rfl,fun _ => rfl,hset.endpoints,rfl,rfl⟩

lemma SlotOk.free (h : SlotOk e) (hs : e.waitingSender = none)
    (hd : e.deliveryReceiver = none) : e.pendingMsg = none := by
  have howned := h.owned
  rw [hs,hd] at howned
  simpa using howned

variable (s' : State) {ep : ℕ}

lemma Stages.of_stage {msg : Message} (hfree : (s.endpoints ep).pendingMsg = none)
    (hslot : SlotOk {e with pendingMsg := some msg, pendingTag := s.accepted})
    (he : s'.endpoints = (stage s ep e msg).endpoints) (ha : s'.accepted = s.accepted+1)
    (hr : s'.received = s.received) (hw : s'.withdrawn = s.withdrawn) : Stages ep s s' := by
  have hself : s'.endpoints ep = {e with pendingMsg := some msg, pendingTag := s.accepted} := by
    rw [he]
    exact setEndpoint_self _ _ _
  refine ⟨hfree,?_,?_,hself ▸ hslot,?_,ha,hr,hw⟩
  · rw [hself]
    rfl
  · rw [hself]
  · intro i hi
    rw [he]
    exact setEndpoint_of_ne _ _ hi

lemma Takes.of_takePending
    (hfull : (s.endpoints ep).pendingMsg.isSome = true) (hs : e.waitingSender = none)
    (he : s'.endpoints = (takePending s ep e).endpoints) (ha : s'.accepted = s.accepted)
    (hr : s'.received = s.received++[(s.endpoints ep).pendingTag])
    (hw : s'.withdrawn = s.withdrawn) : Takes ep s s' := by
  have hself : s'.endpoints ep = {e with pendingMsg := none, deliveryReceiver := none} := by
    rw [he]
    exact setEndpoint_self _ _ _
  refine ⟨hfull,?_,?_,?_,ha,hr,hw⟩
  · rw [hself]
  · rw [hself]
    exact ⟨by simp [hs],by simp,by simp [hs],fun _ => rfl⟩
  · intro i hi
    rw [he]
    exact setEndpoint_of_ne _ _ hi

/-- A section that may hand out a message and touches no call. -/
def Handles (s s' : State) : Prop :=
  Calm (fun _ => False) s s' ∧ ((∀ i, SlotOk (s.endpoints i)) → Moves s s')

lemma Settles.handles (h : Settles (fun _ => False) s t) : Handles s t :=
  ⟨h.toCalm,fun _ => .inl h.toShrinks⟩

lemma Handles.refl (s : State) : Handles s s := (Settles.refl s).handles

lemma stage_calm (msg : Message) (he : Quiet (s.endpoints ep) e) :
    Calm ends s (stage s ep e msg) := by
  have hset : Calm ends s (s.setEndpoint ep
      {e with pendingMsg := some msg, pendingTag := s.accepted}) :=
    .setEndpoint (.inl (he.trans ⟨rfl,rfl,rfl,rfl,rfl,.inl rfl⟩))
  exact ⟨rfl,fun _ => rfl,hset.endpoints,rfl,rfl⟩

lemma takePending_calm (he : Quiet (s.endpoints ep) e) : Calm ends s (takePending s ep e) := by
  have hset : Calm ends s (s.setEndpoint ep {e with pendingMsg := none, deliveryReceiver := none}) :=
    .setEndpoint (.inl (he.trans ⟨rfl,rfl,rfl,rfl,rfl,.inl rfl⟩))
  exact ⟨rfl,fun _ => rfl,hset.endpoints,rfl,rfl⟩

lemma sendInternal_handles (s : State) (senderIdx targetEp : ℕ) (msg : Message)
    (requireCap : Bool) : Handles s (sendInternal env s senderIdx targetEp msg requireCap).1 := by
  simp only [sendInternal]
  split
  · exact .refl s
  split
  · exact .refl s
  rename_i hactive
  have hactive : (s.endpoints targetEp).active = true := by simpa using hactive
  split
  · exact .refl s
  split
  · exact .refl s
  split
  · exact .refl s
  split
  · exact .refl s
  split
  · exact .refl s
  rename_i hbusy
  split
  · exact .refl s
  rename_i hd
  have hd : (s.endpoints targetEp).deliveryReceiver = none := by simpa using hd
  split
  · rename_i recvIdx hrecv
    split
    · exact .refl s
    refine ⟨.setTask (stage_calm _ ⟨rfl,rfl,rfl,rfl,rfl,.inl rfl⟩) rfl,fun hs => ?_⟩
    have hsender : (s.endpoints targetEp).waitingSender = none := by
      have hwaiting := (hs targetEp).waiting
      rw [hrecv] at hwaiting
      simpa using hwaiting
    refine .inr (.inl ⟨targetEp,Stages.of_stage _ ((hs targetEp).free hsender hd) ?_ rfl rfl rfl rfl⟩)
    exact ⟨by simp,by simp [hsender],rfl,fun h => absurd (hactive.symm.trans h) (by decide)⟩
  · rename_i hrecv
    have hsender : (s.endpoints targetEp).waitingSender = none := by
      rw [sendAction,hrecv] at hbusy
      simpa using hbusy
    split
    · exact .refl s
    refine ⟨.setTask (stage_calm _ ⟨rfl,rfl,rfl,rfl,rfl,.inl rfl⟩) rfl,fun hs => ?_⟩
    refine .inr (.inl ⟨targetEp,Stages.of_stage _ ((hs targetEp).free hsender hd) ?_ rfl rfl rfl rfl⟩)
    exact ⟨by simp,by simp [hd],by simp [hrecv],fun h => absurd (hactive.symm.trans h) (by decide)⟩

lemma receiveInternal_handles (s : State) (callerIdx ep : ℕ) (requireCap : Bool) :
    Handles s (receiveInternal env s callerIdx ep requireCap).1 := by
  simp only [receiveInternal]
  split
  · exact .refl s
  split
  · exact .refl s
  split
  · exact .refl s
  split
  · exact .refl s
  split
  · exact .refl s
  split
  · rename_i senderIdx hsender
    split
    · exact .refl s
    refine ⟨Calm.setTask ?_ rfl,fun hs => ?_⟩
    · split
      · exact .setTask (takePending_calm ⟨rfl,rfl,rfl,rfl,rfl,.inl rfl⟩) rfl
      · exact .setEndpoint (.inl ⟨rfl,rfl,rfl,rfl,rfl,.inl rfl⟩)
    · have hfull : (s.endpoints ep).pendingMsg.isSome = true := by
        rw [(hs ep).owned,hsender]
        rfl
      rw [if_pos hfull]
      exact .inr (.inr ⟨ep,Takes.of_takePending _ hfull rfl rfl rfl rfl rfl⟩)
  · rename_i hsender
    split
    · exact .refl s
    refine Settles.handles (.setTask (.setEndpoint ⟨⟨fun h => ?_,.inl ⟨rfl,rfl⟩⟩,.inl ?_⟩) rfl)
    · exact ⟨h.owned,h.single,by simp [hsender],h.inactive⟩
    · exact ⟨rfl,rfl,rfl,rfl,rfl,.inl rfl⟩

lemma receiveWake_handles (s : State) (callerIdx ep : ℕ) :
    Handles s (receiveWake env s callerIdx ep).1 := by
  simp only [receiveWake]
  obtain ⟨e,he⟩ : ∃ e, e = if (s.endpoints ep).waitingReceiver = some callerIdx then
      {s.endpoints ep with waitingReceiver := none} else s.endpoints ep := ⟨_,rfl⟩
  have hedits : Edits False (s.endpoints ep) e :=
    he ▸ Edits.ite _ (fun _ => dropWaiting_edits _) (fun _ => .refl _)
  have hquiet := hedits.2.resolve_right And.right
  have hmsg : e.pendingMsg = (s.endpoints ep).pendingMsg := by
    rw [he]
    split_ifs <;> rfl
  rw [← he]
  split
  · exact Settles.handles (.setTask (.setEndpoint hedits) rfl)
  split
  · rename_i hdue
    refine ⟨.setTask (takePending_calm hquiet) rfl,fun hs => ?_⟩
    have hsender : e.waitingSender = none := by
      have hsingle := (hedits.1.1 (hs ep)).single
      rw [hdue.1] at hsingle
      simpa using hsingle
    exact .inr (.inr ⟨ep,Takes.of_takePending _ (hmsg ▸ hdue.2) hsender rfl rfl rfl rfl⟩)
  rename_i hdue
  by_cases hd : e.deliveryReceiver = some callerIdx
  · rw [if_pos hd]
    refine ⟨.setTask (.setEndpoint (.inl (hquiet.trans ⟨rfl,rfl,rfl,rfl,rfl,.inl rfl⟩))) rfl,
      fun hs => ?_⟩
    have hfull := (hedits.1.1 (hs ep)).owned
    rw [hd,Option.isSome_some,Bool.or_true] at hfull
    exact absurd ⟨hd,hfull⟩ hdue
  · rw [if_neg hd]
    exact Settles.handles (.setTask (.setEndpoint hedits) rfl)

lemma callInternal_shrinks (s : State) (callerIdx targetEp : ℕ) (msg : Message)
    (requireCap : Bool) : Shrinks s (callInternal env s callerIdx targetEp msg requireCap) := by
  simp only [callInternal]
  split
  · exact .of_eq rfl
  split
  · exact .of_eq rfl
  split
  · exact .of_eq rfl
  split_ifs
  iterate 5 exact .of_eq rfl
  exact .update rfl (.of_eq rfl)

lemma lowerDepth_shrinks (s : State) (idx : ℕ) : Shrinks s (lowerDepth s idx) := by
  rw [lowerDepth]
  split_ifs <;> exact .of_eq rfl

lemma rollback_shrinks (s : State) (callerIdx : ℕ) (c : Call) (err : IpcError) :
    Shrinks s (rollback s callerIdx c err) :=
  ((Shrinks.setEndpoint (clearCall_gentle _)).trans (lowerDepth_shrinks _ _)).trans
    (.of_eq rfl)

lemma postSend_shrinks (s : State) (callerIdx : ℕ) (c : Call) :
    Shrinks s (postSend env s callerIdx c) := by
  simp only [postSend]
  split
  · exact .update rfl (.of_eq rfl)
  split
  · exact .update rfl (clearCall_gentle _)
  split
  · exact ((Shrinks.setEndpoint (clearCall_gentle _)).trans (lowerDepth_shrinks _ _)).trans
      (.of_eq rfl)
  · exact .of_eq rfl

lemma takeReply_shrinks (s : State) (callerIdx : ℕ) (c : Call) (err : IpcError) :
    Shrinks s (takeReply env s callerIdx c err) := by
  simp only [takeReply]
  split
  · exact .update rfl (.of_eq rfl)
  · split_ifs <;> exact .of_eq rfl

lemma replyToken_shrinks (s : State) (calleeIdx : ℕ) (msg : Message) :
    Shrinks s (replyToken env s calleeIdx msg) := by
  simp only [replyToken]
  split
  · exact .refl s
  split
  · exact .refl s
  split
  · exact .refl s
  split
  · exact .refl s
  split
  · exact .refl s
  split_ifs
  · exact .refl s
  · exact .refl s
  · exact .update rfl (.of_eq rfl)

lemma notifyInternal_settles (s : State) (ep bits : ℕ) (requireCap : Bool) :
    Settles ends s (notifyInternal env s ep bits requireCap) := by
  simp only [notifyInternal]
  split
  · exact .refl s
  split
  · exact .refl s
  split
  · exact .refl s
  split
  · exact .setEndpoint (notify_edits _ _)
  split_ifs
  · exact .setEndpoint (notify_edits _ _)
  · exact .setTask (.setEndpoint (.trans (notify_edits _ (_ ||| bits)) (dropWaiting_edits _))) rfl

lemma getNotify_settles (s : State) (ep : ℕ) : Settles ends s (getNotify s ep) := by
  rw [getNotify]
  split_ifs
  · exact .refl s
  · exact .setEndpoint (notify_edits _ _)

lemma Moves.of_eq (h : Moves s t) (hu : (u.endpoints,u.received,u.accepted,u.withdrawn) =
    (t.endpoints,t.received,t.accepted,t.withdrawn)) : Moves s u := by
  have heq := hu
  simp only [Prod.mk.injEq] at heq
  obtain ⟨he,hr,ha,hw⟩ := heq
  rcases h with h | ⟨ep,h⟩ | ⟨ep,h⟩
  · exact .inl (h.trans (.of_eq hu))
  · exact .inr (.inl ⟨ep,h.free,he ▸ h.full,he ▸ h.tag,he ▸ h.slot,he ▸ h.rest,ha.trans h.accepted,
      hr.trans h.received,hw.trans h.withdrawn⟩)
  · exact .inr (.inr ⟨ep,h.full,he ▸ h.free,he ▸ h.slot,he ▸ h.rest,ha.trans h.accepted,
      hr.trans h.received,hw.trans h.withdrawn⟩)

variable (hs : ∀ i, SlotOk (s.endpoints i))
include hs

lemma resume_moves (idx : ℕ) : Moves s (resume env s idx) := by
  simp only [resume]
  split
  case h_1 => exact .inl (.refl s)
  case h_2 ctx _ =>
    cases ctx with
    | none => exact .inl (.of_eq rfl)
    | some c =>
      dsimp only
      split_ifs <;> exact .inl (.of_eq rfl)
  case h_3 ep _ => exact ((receiveWake_handles env s idx ep).2 hs).of_eq rfl
  case h_4 c _ =>
    have h := (sendInternal_handles env s idx c.targetEp c.msg c.requireCap).2 hs
    generalize sendInternal env s idx c.targetEp c.msg c.requireCap = r at h
    rcases r with ⟨t,_ | err⟩
    · exact h.of_eq rfl
    · dsimp only
      split_ifs <;> exact h.of_eq rfl
  case h_5 => exact .inl (rollback_shrinks _ _ _ _)
  case h_6 => exact .inl (postSend_shrinks _ _ _ _)
  case h_7 => exact .inl (.of_eq rfl)
  case h_8 => exact .inl (takeReply_shrinks _ _ _ _ _)
  case h_9 => exact .inl (.of_eq rfl)
  case h_10 => exact .inl (.update rfl (.of_eq rfl))

lemma step_moves (op : Op) : Moves s (step env s op) := by
  cases op with
  | create owner => exact .inl (createEndpoint_settles env s owner).toShrinks
  | destroy ep caller => exact .inl (destroyEndpoint_settles env s ep caller).toShrinks
  | exit idx =>
    obtain ⟨u,heq,hu,-⟩ := clearEndpointsForTask_settles s idx
    rw [step,heq]
    exact .inl (hu.toShrinks.trans (.of_eq rfl))
  | send caller ep msg requireCap =>
    have h := (sendInternal_handles env s caller ep msg requireCap).2 hs
    rw [step]
    generalize sendInternal env s caller ep msg requireCap = r at h
    rcases r with ⟨t,_ | err⟩ <;> exact h.of_eq rfl
  | receive caller ep requireCap =>
    have h := (receiveInternal_handles env s caller ep requireCap).2 hs
    rw [step]
    generalize receiveInternal env s caller ep requireCap = r at h
    rcases r with ⟨t,_ | err⟩ <;> exact h.of_eq rfl
  | call caller ep msg requireCap => exact .inl (callInternal_shrinks env s caller ep msg requireCap)
  | resume idx => exact resume_moves env hs idx
  | reply callee msg => exact .inl (replyToken_shrinks env s callee msg)
  | notify ep bits requireCap => exact (notifyInternal_settles env s ep bits requireCap).handles.2 hs
  | getNotify ep => exact (getNotify_settles s ep).handles.2 hs
  | tick live => exact (timeoutTick_settles env.now live s).handles.2 hs

end MoQiOS.Ipc
