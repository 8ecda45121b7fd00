import MoQiOS.Runs

/-!
# Epoll instances

An instance has 128 slots for registrations and a list of the slots that are
ready. `epollNotify` sweeps over the instances under the pool lock, one section
for each instance, and afterwards tells the parents of the instances that became
ready. `collectEvents` empties the ready list into a snapshot and then looks at
every resource without a lock. Registrations do not change here, so a snapshot
is a list of slots.
-/

namespace MoQiOS.Epoll

open List

abbrev Events := BitVec 32

def epollIn : Events := 0x001#32
def epollOut : Events := 0x004#32
def epollErr : Events := 0x008#32
def epollHup : Events := 0x010#32
def epollEt : Events := 0x80000000#32
def epollOneshot : Events := 0x40000000#32
def alwaysReported : Events := epollErr ||| epollHup

def maxEpollInstances : ℕ := 32
def maxEpollItems : ℕ := 128

/-- A registration watches another instance or a resource of another kind. -/
inductive Target (ρ : Type*) where
  | epoll (slot : ℕ)
  | resource (r : ρ)
  deriving DecidableEq

structure Registration (ρ : Type*) where
  inUse : Bool
  target : Target ρ
  targetGeneration : ℕ
  events : Events
  data : ℕ

structure Item (ρ : Type*) where
  reg : Registration ρ
  isDisabled : Bool
  onReady : Bool
  lastReported : Events

structure Instance (ρ : Type*) where
  items : ℕ → Item ρ
  ready : List ℕ
  generation : ℕ

variable {ρ : Type*}

def Registration.isEt (r : Registration ρ) : Bool := r.events &&& epollEt ≠ 0

def Registration.isOneshot (r : Registration ρ) : Bool := r.events &&& epollOneshot ≠ 0

def Registration.interest (r : Registration ρ) : Events :=
  r.events &&& ~~~epollEt &&& ~~~epollOneshot

def notifyMatch (ready interest : Events) : Events := ready &&& (interest ||| alwaysReported)

def Instance.set (inst : Instance ρ) (i : ℕ) (item : Item ρ) : Instance ρ :=
  { inst with items := Function.update inst.items i item }

def addToReadyListLocked (inst : Instance ρ) (i : ℕ) : Instance ρ :=
  if (inst.items i).onReady then inst
  else { inst.set i { inst.items i with onReady := true } with ready := inst.ready++[i] }

/-- A matching event for the item in slot `i`; the flag says whether the
instance became ready. An edge-triggered item is left alone when the same
events were reported last. -/
def report (st : Instance ρ×Bool) (i : ℕ) (matched : Events) : Instance ρ×Bool :=
  let item := st.1.items i
  if item.reg.isEt ∧ matched = item.lastReported then st
  else
    let inst := if item.reg.isEt then st.1.set i { item with lastReported := matched } else st.1
    if item.onReady then (inst,st.2) else (addToReadyListLocked inst i,true)

section
variable [DecidableEq ρ]

/-- The events `epollNotify` matches for an item. -/
def notified (target : Target ρ) (ready : Events) (reg : Registration ρ) (isDisabled : Bool) :
    Option Events :=
  if !reg.inUse ∨ isDisabled ∨ reg.target ≠ target ∨ notifyMatch ready reg.interest = 0 then none
  else some (notifyMatch ready reg.interest)

/-- The event a ready child is to an item of its parent. -/
def childReady (child generation : ℕ) (reg : Registration ρ) (isDisabled : Bool) : Option Events :=
  if !reg.inUse ∨ isDisabled ∨ reg.target ≠ .epoll child ∨ reg.targetGeneration ≠ generation ∨
      reg.events &&& epollIn = 0 then none
  else some epollIn

end

def sweepItem (pick : Registration ρ → Bool → Option Events) (st : Instance ρ×Bool) (i : ℕ) :
    Instance ρ×Bool :=
  match pick (st.1.items i).reg (st.1.items i).isDisabled with
  | none => st
  | some matched => report st i matched

def sweepInstance (pick : Registration ρ → Bool → Option Events) (inst : Instance ρ) :
    Instance ρ×Bool :=
  (List.range maxEpollItems).foldl (sweepItem pick) (inst,false)

/-- The section of `epollNotify` on one instance. -/
def notifyInstance [DecidableEq ρ] (target : Target ρ) (ready : Events) (inst : Instance ρ) :
    Instance ρ×Bool :=
  sweepInstance (notified target ready) inst

/-- The section of `propagateNestedReadyLocked` on one parent. -/
def propagateInstance [DecidableEq ρ] (child generation : ℕ) (inst : Instance ρ) :
    Instance ρ×Bool :=
  sweepInstance (childReady child generation) inst

/-- The section of `resetNestedEdgeState` on one parent. -/
def resetInstance [DecidableEq ρ] (child generation : ℕ) (inst : Instance ρ) : Instance ρ :=
  { inst with items := fun i =>
      let item := inst.items i
      if item.reg.inUse ∧ item.reg.target = .epoll child ∧
          item.reg.targetGeneration = generation ∧ item.reg.isEt then
        { item with lastReported := 0 }
      else item }

/-- The first section of `collectEvents`; also the snapshot it takes. -/
def collectSnapshot (inst : Instance ρ) : Instance ρ×List ℕ :=
  ({ inst with
      items := fun i =>
        if i ∈ inst.ready then { inst.items i with onReady := false } else inst.items i
      ready := [] },
    inst.ready.filter (fun i => !(inst.items i).isDisabled))

/-- The section of `collectEvents` for an item that was found ready. -/
def collectUpdate (inst : Instance ρ) (i : ℕ) (delivered : Bool) : Instance ρ :=
  let item := inst.items i
  let queued :=
    if item.reg.isOneshot ∧ delivered then inst.set i { item with isDisabled := true }
    else if !item.reg.isEt ∨ !delivered then addToReadyListLocked inst i
    else inst
  if item.reg.isEt ∧ delivered then queued.set i { queued.items i with lastReported := 0 }
  else queued

/-! ## One instance

`snapshot` holds the slots that running calls of `collectEvents` still have to
look at. -/

structure Armed (snapshot : ℕ → Prop) (inst : Instance ρ) : Prop where
  listed : ∀ i, (inst.items i).onReady = true → i ∈ inst.ready
  covered : ∀ i, (inst.items i).reg.isEt = true → (inst.items i).isDisabled = false →
    (inst.items i).lastReported ≠ 0 → (inst.items i).onReady = true ∨ snapshot i

variable {snapshot : ℕ → Prop} {inst : Instance ρ}

lemma set_items (inst : Instance ρ) (i j : ℕ) (item : Item ρ) :
    (inst.set i item).items j = if j = i then item else inst.items j := by
  simp [Instance.set,Function.update_apply]

@[simp] lemma set_ready (inst : Instance ρ) (i : ℕ) (item : Item ρ) :
    (inst.set i item).ready = inst.ready := rfl

variable {snapshot' : ℕ → Prop}

lemma Armed.mono (h : Armed snapshot inst)
    (hs : ∀ i, snapshot i → snapshot' i) : Armed snapshot' inst :=
  ⟨h.listed,fun i he hd hl => (h.covered i he hd hl).imp id (hs i)⟩

variable {i : ℕ}

lemma Armed.set (h : Armed snapshot inst) {item : Item ρ}
    (hr : item.onReady = (inst.items i).onReady)
    (hc : item.reg.isEt = true → item.isDisabled = false → item.lastReported ≠ 0 →
      item.onReady = true ∨ snapshot i) : Armed snapshot (inst.set i item) := by
  constructor
  · intro j hj
    rw [set_items] at hj
    split_ifs at hj with hji
    · subst hji
      exact h.listed j (hr ▸ hj)
    · exact h.listed j hj
  · intro j
    rw [set_items]
    split_ifs with hji
    · subst hji
      exact hc
    · exact h.covered j

lemma add_items (inst : Instance ρ) (i j : ℕ) : (addToReadyListLocked inst i).items j =
      if j = i then {inst.items i with onReady := true} else inst.items j := by
  unfold addToReadyListLocked
  split_ifs with hr hji hji
  · subst hji
    rw [← hr]
  · rfl
  · subst hji
    exact (set_items _ _ _ _).trans (if_pos rfl)
  · exact (set_items _ _ _ _).trans (if_neg hji)

lemma mem_add (inst : Instance ρ) (i j : ℕ) : j ∈ (addToReadyListLocked inst i).ready ↔
      j ∈ inst.ready ∨ (j = i ∧ (inst.items i).onReady = false) := by
  unfold addToReadyListLocked
  cases hr : (inst.items i).onReady <;> simp

lemma Armed.add (hl : ∀ j, (inst.items j).onReady = true → j ∈ inst.ready)
    (hc : ∀ j, j ≠ i → (inst.items j).reg.isEt = true → (inst.items j).isDisabled = false →
      (inst.items j).lastReported ≠ 0 → (inst.items j).onReady = true ∨ snapshot j) :
    Armed snapshot (addToReadyListLocked inst i) := by
  constructor
  · intro j hj
    rw [add_items] at hj
    rw [mem_add]
    split_ifs at hj with hji
    · cases hr : (inst.items i).onReady with
      | true => exact .inl (hji ▸ hl i hr)
      | false => exact .inr ⟨hji,rfl⟩
    · exact .inl (hl j hj)
  · intro j
    rw [add_items]
    split_ifs with hji
    · exact fun _ _ _ => .inl rfl
    · exact hc j hji

lemma Armed.report {st : Instance ρ×Bool} (h : Armed snapshot st.1) (i : ℕ) (matched : Events) :
    Armed snapshot (report st i matched).1 := by
  unfold Epoll.report
  dsimp only
  split_ifs with hsame hr he he
  · exact h
  · exact h.set rfl (fun _ _ _ => .inl hr)
  · exact h
  · apply Armed.add
    · intro j hj
      rw [set_items] at hj
      split_ifs at hj with hji
      · exact absurd hj hr
      · exact h.listed j hj
    · intro j hji
      rw [set_items,if_neg hji]
      exact h.covered j
  · exact Armed.add h.listed (fun j _ => h.covered j)

variable {j : ℕ}

lemma report_other (st : Instance ρ×Bool) (hj : j ≠ i) (matched : Events) :
    (report st i matched).1.items j = st.1.items j := by
  unfold Epoll.report
  dsimp only
  split_ifs
  · rfl
  · rw [set_items,if_neg hj]
  · rfl
  · rw [add_items,if_neg hj,set_items,if_neg hj]
  · rw [add_items,if_neg hj]

lemma report_self (st : Instance ρ×Bool) (i : ℕ) (matched : Events) :
    ((report st i matched).1.items i).reg = (st.1.items i).reg ∧
    ((report st i matched).1.items i).isDisabled = (st.1.items i).isDisabled ∧
    ((st.1.items i).reg.isEt = true → ((report st i matched).1.items i).lastReported = matched) := by
  unfold Epoll.report
  dsimp only
  split_ifs with hsame hr he he
  · exact ⟨rfl,rfl,fun _ => hsame.2.symm⟩
  · rw [set_items,if_pos rfl]
    exact ⟨rfl,rfl,fun _ => rfl⟩
  · exact ⟨rfl,rfl,fun ht => absurd ht he⟩
  · rw [add_items,if_pos rfl,set_items,if_pos rfl]
    exact ⟨rfl,rfl,fun _ => rfl⟩
  · rw [add_items,if_pos rfl]
    exact ⟨rfl,rfl,fun ht => absurd ht he⟩

section
variable (pick : Registration ρ → Bool → Option Events)

lemma Armed.sweepItem {st : Instance ρ×Bool} (h : Armed snapshot st.1) (i : ℕ) :
    Armed snapshot (sweepItem pick st i).1 := by
  unfold Epoll.sweepItem
  cases pick (st.1.items i).reg (st.1.items i).isDisabled with
  | none => exact h
  | some matched => exact h.report i matched

lemma sweepItem_other (st : Instance ρ×Bool) (hj : j ≠ i) :
    (sweepItem pick st i).1.items j = st.1.items j := by
  unfold sweepItem
  cases pick (st.1.items i).reg (st.1.items i).isDisabled with
  | none => rfl
  | some matched => exact report_other st hj matched

lemma Armed.sweep (slots : List ℕ) (st : Instance ρ×Bool) (h : Armed snapshot st.1) :
    Armed snapshot (slots.foldl (Epoll.sweepItem pick) st).1 := by
  induction slots generalizing st with
  | nil => exact h
  | cons i rest ih => exact ih _ (h.sweepItem pick i)

lemma Armed.sweepInstance (h : Armed snapshot inst) :
    Armed snapshot (sweepInstance pick inst).1 :=
  Armed.sweep pick (List.range maxEpollItems) (inst,false) h

lemma sweep_unvisited (slots : List ℕ) (st : Instance ρ×Bool) (hj : j ∉ slots) :
    (slots.foldl (sweepItem pick) st).1.items j = st.1.items j := by
  induction slots generalizing st with
  | nil => rfl
  | cons i rest ih =>
    have hne : j ≠ i := fun h => hj (by simp [h])
    have hrest : j ∉ rest := fun h => hj (by simp [h])
    rw [foldl_cons,ih _ hrest,sweepItem_other pick st hne]

lemma sweep_visited (slots : List ℕ) (hn : slots.Nodup) (st : Instance ρ×Bool)
    (hj : j ∈ slots) {matched : Events}
    (hp : pick (st.1.items j).reg (st.1.items j).isDisabled = some matched)
    (he : (st.1.items j).reg.isEt = true) :
    ((slots.foldl (sweepItem pick) st).1.items j).reg = (st.1.items j).reg ∧
    ((slots.foldl (sweepItem pick) st).1.items j).isDisabled = (st.1.items j).isDisabled ∧
    ((slots.foldl (sweepItem pick) st).1.items j).lastReported = matched := by
  induction slots generalizing st with
  | nil => exact absurd hj not_mem_nil
  | cons i rest ih =>
    obtain ⟨hi,hr⟩ := nodup_cons.mp hn
    rw [foldl_cons]
    by_cases hji : j = i
    · subst hji
      have hstep : sweepItem pick st j = Epoll.report st j matched := by
        unfold sweepItem
        rw [hp]
      obtain ⟨h1,h2,h3⟩ := report_self st j matched
      rw [sweep_unvisited pick rest _ hi,hstep]
      exact ⟨h1,h2,h3 he⟩
    · have hmem : j ∈ rest := (mem_cons.mp hj).resolve_left hji
      have hsame := sweepItem_other pick st hji
      have hrest := ih hr (sweepItem pick st i) hmem (by rw [hsame]; exact hp)
        (by rw [hsame]; exact he)
      rw [hsame] at hrest
      exact hrest

lemma Armed.swept (h : Armed snapshot inst) (hj : j < maxEpollItems) {matched : Events}
    (hp : pick (inst.items j).reg (inst.items j).isDisabled = some matched) (hm : matched ≠ 0)
    (he : (inst.items j).reg.isEt = true) (hd : (inst.items j).isDisabled = false) :
    j ∈ (Epoll.sweepInstance pick inst).1.ready ∨ snapshot j := by
  have ha := h.sweepInstance pick
  obtain ⟨h1,h2,h3⟩ := sweep_visited pick (List.range maxEpollItems) nodup_range (inst,false)
    (mem_range.mpr hj) hp he
  have hcov := ha.covered j ((congrArg Registration.isEt h1).trans he) (h2.trans hd)
    (by rw [Epoll.sweepInstance,h3]; exact hm)
  exact hcov.imp (ha.listed j) id

end

variable (h : Armed snapshot inst)
include h

lemma Armed.reset [DecidableEq ρ] (child generation : ℕ) :
    Armed snapshot (resetInstance child generation inst) := by
  unfold resetInstance
  constructor
  · intro i hi
    dsimp only at hi
    split_ifs at hi
    · exact h.listed i hi
    · exact h.listed i hi
  · intro i
    dsimp only
    split_ifs
    · exact fun _ _ hl => absurd rfl hl
    · exact h.covered i

lemma Armed.take :
    Armed (fun i => snapshot i ∨ i ∈ (collectSnapshot inst).2) (collectSnapshot inst).1 := by
  unfold collectSnapshot
  constructor
  · intro i hi
    dsimp only at hi
    split_ifs at hi with hr
    exact absurd (h.listed i hi) hr
  · intro i
    dsimp only
    split_ifs with hr
    · intro _ hd _
      exact .inr (.inr (mem_filter.mpr ⟨hr,by rw [Bool.not_eq_true']; exact hd⟩))
    · intro he hd hl
      exact (h.covered i he hd hl).imp id .inl

omit h

lemma collectUpdate_other (inst : Instance ρ) (hj : j ≠ i) (delivered : Bool) :
    (collectUpdate inst i delivered).items j = inst.items j := by
  unfold collectUpdate
  dsimp only
  split_ifs <;> simp [set_items,add_items,hj]

lemma collectUpdate_self (inst : Instance ρ) (i : ℕ) (delivered : Bool)
    (he : ((collectUpdate inst i delivered).items i).reg.isEt = true)
    (hl : ((collectUpdate inst i delivered).items i).lastReported ≠ 0) :
    ((collectUpdate inst i delivered).items i).onReady = true := by
  unfold collectUpdate at *
  dsimp only at *
  split_ifs at * <;> simp_all [set_items,add_items]

lemma collectUpdate_listed (h : ∀ j, (inst.items j).onReady = true → j ∈ inst.ready) (i : ℕ)
    (delivered : Bool) (hj : ((collectUpdate inst i delivered).items j).onReady = true) :
    j ∈ (collectUpdate inst i delivered).ready := by
  unfold collectUpdate at *
  dsimp only at *
  split_ifs at * <;> grind [set_items,add_items,mem_add,set_ready]

include h

lemma Armed.collectUpdate (delivered : Bool) (hs : ∀ j, j ≠ i → snapshot j → snapshot' j) :
    Armed snapshot' (collectUpdate inst i delivered) := by
  constructor
  · intro j hj
    exact collectUpdate_listed h.listed i delivered hj
  · intro j he hd hl
    by_cases hji : j = i
    · subst hji
      exact .inl (collectUpdate_self inst j delivered he hl)
    · rw [collectUpdate_other inst hji] at he hd hl ⊢
      exact (h.covered j he hd hl).imp id (hs j hji)

lemma Armed.forget (hs : ∀ j, j ≠ i → snapshot j → snapshot' j)
    (hi : (inst.items i).reg.isEt = true → (inst.items i).isDisabled = true) :
    Armed snapshot' inst := by
  refine ⟨h.listed,fun j he hd hl => (h.covered j he hd hl).imp id (hs j ?_)⟩
  rintro rfl
  rw [hi he] at hd
  exact Bool.noConfusion hd

end MoQiOS.Epoll
