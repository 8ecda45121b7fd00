import MoQiOS.TcpAccept

/-!
# Established connections and the accept queue

As long as `tcpAccept` passes over no half open connection and no SYN takes
over a slot in TIME_WAIT, a connection a listener made stays in that
listener's ring, once, from the SYN until it closes or is returned.
-/

namespace MoQiOS.Tcp
open SerialNumbers Runs Function List Option

/-- A connection that can still be accepted. -/
def Awaited (t : Tcb) : Prop := t.state = .established ∨ t.state = .synReceived

instance (t : Tcb) : Decidable (Awaited t) := inferInstanceAs (Decidable (_ ∨ _))

variable (tcbs : List Tcb)

def awaitedEntry (entry : Option ℕ) : Bool :=
  match entry with
  | none => false
  | some i =>
    match tcbs[i]? with
    | none => false
    | some t => decide (Awaited t)

def acceptQueue (s : Stack) (l : ℕ) : List (Option ℕ) :=
  match s.slots[l]? with
  | none => []
  | some sl => sl.pending.filter (awaitedEntry s.tcbs)

def passedOver (tcbs : List Tcb) : List (Option ℕ) → List (Option ℕ)
  | [] => []
  | none :: rest => none :: passedOver tcbs rest
  | some i :: rest => if canAccept tcbs i then [] else some i :: passedOver tcbs rest

variable (pending : List (Option ℕ))

lemma takePending_spec :
    pending = passedOver tcbs pending++((takePending tcbs pending).1.map some).toList++
      (takePending tcbs pending).2 := by
  induction pending with
  | nil => rfl
  | cons entry rest ih =>
    rcases entry with _ | i
    · exact congrArg (none::·) ih
    by_cases hc : canAccept tcbs i = true
    · simp [takePending,passedOver,hc]
    · simp only [takePending,passedOver,if_neg hc]
      exact congrArg (some i::·) ih

variable {i : ℕ}

lemma takePending_some {tcbs : List Tcb} {pending : List (Option ℕ)}
    (h : (takePending tcbs pending).1 = some i) : canAccept tcbs i = true := by
  induction pending with
  | nil => cases h
  | cons entry rest ih =>
    rcases entry with _ | j
    · exact ih h
    by_cases hc : canAccept tcbs j = true
    · simp only [takePending,if_pos hc,Option.some.injEq] at h
      exact h ▸ hc
    · simp only [takePending,if_neg hc] at h
      exact ih h

variable {j : ℕ}

lemma count_replace {pending : List (Option ℕ)} : (pending.replace (some i) none).count (some j) =
      pending.count (some j)-(if i = j then 1 else 0) := by
  induction pending with
  | nil => simp
  | cons entry rest ih =>
    by_cases he : entry = some i
    · subst he
      by_cases hij : i = j <;> simp [hij]
    have hne : (some i == entry) = false := beq_eq_false_iff_ne.mpr (Ne.symm he)
    rw [replace_cons,hne]
    change (entry::rest.replace (some i) none).count (some j) = _
    rw [count_cons,count_cons,ih]
    by_cases hij : i = j
    · subst hij
      simp [he]
    · simp [hij]

structure Waiting (s : Stack) : Prop where
  entry : ∀ (l : ℕ) (sl : ListenSlot) (i : ℕ), s.slots[l]? = some sl → some i ∈ sl.pending →
    sl.active = true ∧ s.made i = some l ∧ s.returned i = 0 ∧
    ∃ t, s.tcbs[i]? = some t ∧ t.active = true ∧ t.refCount ≠ 0
  once : ∀ (l : ℕ) (sl : ListenSlot) (i : ℕ), s.slots[l]? = some sl →
    sl.pending.count (some i) ≤ 1
  child : ∀ (i : ℕ) (t : Tcb) (l : ℕ), s.tcbs[i]? = some t → s.made i = some l →
    s.returned i = 0 → t.state ≠ .synSent ∧
    (Awaited t → ∃ sl, s.slots[l]? = some sl ∧ some i ∈ sl.pending)
  single : ∀ i, s.returned i ≤ 1

lemma set_cases {α : Type*} {l : List α} {a b : α} (h : (l.set i a)[j]? = some b) :
    (j = i ∧ b = a) ∨ (j ≠ i ∧ l[j]? = some b) := by
  by_cases hij : i = j
  · subst hij
    rw [getElem?_set] at h
    simp only [if_true] at h
    split at h
    · exact .inl ⟨rfl,(some.inj h).symm⟩
    · cases h
  · rw [getElem?_set_ne hij] at h
    exact .inr ⟨Ne.symm hij,h⟩

variable {t : Tcb} {s : Stack}

lemma Waiting.setTcb {t' : Tcb} (h : Waiting s) (ht : s.tcbs[i]? = some t)
    (hqueued : ∀ (l : ℕ) (sl : ListenSlot), s.slots[l]? = some sl → some i ∈ sl.pending →
      t'.active = true ∧ t'.refCount ≠ 0)
    (hchild : ∀ l, s.made i = some l → s.returned i = 0 → t'.state ≠ .synSent ∧
      (Awaited t' → ∃ sl, s.slots[l]? = some sl ∧ some i ∈ sl.pending)) :
    Waiting (s.setTcb i t') := by
  have hi : i < s.tcbs.length := (List.getElem?_eq_some_iff.mp ht).1
  refine ⟨?_,h.once,?_,h.single⟩
  · intro l sl j hl hj
    obtain ⟨h1,h2,h3,u,hu,h4⟩ := h.entry l sl j hl hj
    refine ⟨h1,h2,h3,?_⟩
    by_cases hij : i = j
    · subst hij
      exact ⟨t',getElem?_set_self hi,hqueued l sl hl hj⟩
    · exact ⟨u,(getElem?_set_ne hij).trans hu,h4⟩
  · intro j u l hu hm hr
    rcases set_cases hu with ⟨rfl,rfl⟩ | ⟨_,hu⟩
    · exact hchild l hm hr
    · exact h.child j u l hu hm hr

variable {l : ℕ}

lemma Waiting.take {sl sl' : ListenSlot} {ret : ℕ → ℕ} (h : Waiting s)
    (hl : s.slots[l]? = some sl) (hact : sl'.active = sl.active)
    (hle : ∀ i, sl'.pending.count (some i) ≤ sl.pending.count (some i))
    (hret : ∀ i, ret i = s.returned i ∨ (some i ∈ sl.pending ∧ some i ∉ sl'.pending ∧ ret i = 1))
    (hkeep : ∀ (i : ℕ) (t : Tcb), s.tcbs[i]? = some t → Awaited t → ret i = 0 →
      some i ∈ sl.pending → some i ∈ sl'.pending) :
    Waiting {s.setSlot l sl' with returned := ret} := by
  have hlt : l < s.slots.length := (List.getElem?_eq_some_iff.mp hl).1
  have hsub : ∀ i, some i ∈ sl'.pending → some i ∈ sl.pending := by
    intro i hi
    exact count_pos_iff.mp (lt_of_lt_of_le (count_pos_iff.mpr hi) (hle i))
  refine ⟨?_,?_,?_,?_⟩
  · intro l' sl₁ i hl' hi
    rcases set_cases hl' with ⟨rfl,rfl⟩ | ⟨hll,hl'⟩
    · obtain ⟨h1,h2,h3,h4⟩ := h.entry l' sl i hl (hsub i hi)
      rcases hret i with hr | ⟨_,hnot,_⟩
      · exact ⟨hact.trans h1,h2,hr.trans h3,h4⟩
      · exact absurd hi hnot
    obtain ⟨h1,h2,h3,h4⟩ := h.entry l' sl₁ i hl' hi
    rcases hret i with hr | ⟨hmem,_,_⟩
    · exact ⟨h1,h2,hr.trans h3,h4⟩
    have := (h.entry l sl i hl hmem).2.1
    rw [h2] at this
    exact absurd (some.inj this) hll
  · intro l' sl₁ i hl'
    rcases set_cases hl' with ⟨rfl,rfl⟩ | ⟨_,hl'⟩
    · exact le_trans (hle i) (h.once l' sl i hl)
    · exact h.once l' sl₁ i hl'
  · intro i t l' ht hm hr
    have hold : s.returned i = 0 := by
      rcases hret i with hr' | ⟨_,_,hr'⟩
      · exact hr'.symm.trans hr
      · exact absurd (hr'.symm.trans hr) Nat.one_ne_zero
    obtain ⟨h1,h2⟩ := h.child i t l' ht hm hold
    refine ⟨h1,fun ha => ?_⟩
    obtain ⟨sl₁,hsl₁,hmem⟩ := h2 ha
    by_cases hll : l = l'
    · subst hll
      obtain rfl := Option.mem_unique hl hsl₁
      exact ⟨sl',getElem?_set_self hlt,hkeep i t ht ha hr hmem⟩
    · exact ⟨sl₁,(getElem?_set_ne hll).trans hsl₁,hmem⟩
  · intro i
    rcases hret i with hr | ⟨_,_,hr⟩
    · exact le_trans (le_of_eq hr) (h.single i)
    · exact le_of_eq hr

variable {sl : ListenSlot}

lemma Waiting.not_queued (h : Waiting s)
    (ht : s.tcbs[i]? = some t) (hi : t.active = false) (hl : s.slots[l]? = some sl) :
    some i ∉ sl.pending := by
  intro hmem
  obtain ⟨_,_,_,u,hu,ha,_⟩ := h.entry l sl i hl hmem
  obtain rfl := Option.mem_unique ht hu
  rw [hi] at ha
  cases ha

lemma freeTcb_inactive (h : freeTcb s = some i)
    (ht : s.tcbs[i]? = some t) : t.active = false := by
  obtain ⟨hi,hp,_⟩ := findIdx?_eq_some_iff_getElem.mp h
  rw [getElem?_eq_getElem hi] at ht
  obtain rfl := some.inj ht
  simpa using hp

variable (h : Waiting s)
include h

lemma Waiting.entry_begin {l j : ℕ}
    (hf : freeTcb s = some i) (ht : s.tcbs[i]? = some t) (t' : Tcb) (m : Option ℕ)
    (hl : s.slots[l]? = some sl) (hj : some j ∈ sl.pending) :
    sl.active = true ∧ update s.made i m j = some l ∧ update s.returned i 0 j = 0 ∧
      ∃ u, (s.tcbs.set i t')[j]? = some u ∧ u.active = true ∧ u.refCount ≠ 0 := by
  have hij : j ≠ i := by
    rintro rfl
    exact h.not_queued ht (freeTcb_inactive hf ht) hl hj
  obtain ⟨h1,h2,h3,u,hu,h4⟩ := h.entry l sl j hl hj
  exact ⟨h1,(update_of_ne hij _ _).trans h2,(update_of_ne hij _ _).trans h3,
    u,(getElem?_set_ne (Ne.symm hij)).trans hu,h4⟩

lemma Waiting.single_begin (i j : ℕ) : update s.returned i 0 j ≤ 1 := by
  by_cases hij : j = i
  · subst hij
    simp
  · exact le_trans (le_of_eq (update_of_ne hij _ _)) (h.single j)

lemma socket_waiting : Waiting (socket s) := by
  unfold socket
  rcases hf : freeTcb s with _ | i
  · exact h
  simp only
  rcases ht : s.tcbs[i]? with _ | t
  · exact h
  refine ⟨fun l sl j hl hj => h.entry_begin hf ht _ _ hl hj,h.once,?_,h.single_begin i⟩
  intro j u l hu hm hr
  have hij : j ≠ i := by
    rintro rfl
    simp [Stack.begin] at hm
  rcases set_cases hu with ⟨hji,_⟩ | ⟨_,hu⟩
  · exact absurd hji hij
  refine h.child j u l hu ?_ ?_
  · exact (update_of_ne hij _ _).symm.trans hm
  · exact (update_of_ne hij _ _).symm.trans hr

omit h

variable {gates : List Gate} {iss : Serial}

lemma syn_waiting {p : Packet} (h : Waiting s) : Waiting (incomingSyn s l gates iss p) := by
  unfold incomingSyn
  rcases hl : s.slots[l]? with _ | sl
  · exact h
  simp only
  by_cases hact : (!sl.active) = true
  · rw [if_pos hact]
    exact h
  rw [if_neg hact]
  by_cases hfull : sl.pending.length ≥ listenBacklog
  · rw [if_pos hfull]
    exact h
  rw [if_neg hfull]
  rcases hf : freeTcb s with _ | i
  · exact h
  simp only
  rcases ht : s.tcbs[i]? with _ | t
  · exact h
  have hi : i < s.tcbs.length := (List.getElem?_eq_some_iff.mp ht).1
  have hlt : l < s.slots.length := (List.getElem?_eq_some_iff.mp hl).1
  refine ⟨?_,?_,?_,h.single_begin i⟩
  · intro l' sl' j hl' hj
    rcases set_cases hl' with ⟨rfl,rfl⟩ | ⟨_,hl'⟩
    · rcases mem_append.mp hj with hj | hj
      · exact (h.entry_begin hf ht _ _ hl hj :)
      obtain rfl : j = i := by simpa using hj
      refine ⟨by simpa using hact,?_,?_,_,getElem?_set_self hi,rfl,?_⟩
      · exact update_self _ _ _
      · exact update_self _ _ _
      · exact Nat.one_ne_zero
    · exact h.entry_begin hf ht _ _ hl' hj
  · intro l' sl' j hl'
    rcases set_cases hl' with ⟨rfl,rfl⟩ | ⟨_,hl'⟩
    · simp only [count_append]
      by_cases hij : j = i
      · subst hij
        rw [count_eq_zero.mpr (h.not_queued ht (freeTcb_inactive hf ht) hl)]
        simp
      have hz : [some i].count (some j) = 0 := by
        rw [count_eq_zero]
        simp [hij]
      rw [hz]
      exact h.once l' sl j hl
    · exact h.once l' sl' j hl'
  · intro j u l' hu hm hr
    rcases set_cases hu with ⟨rfl,rfl⟩ | ⟨hij,hu⟩
    · have hll : l' = l := by simpa [Stack.begin] using hm.symm
      subst hll
      refine ⟨by simp [handleIncomingSyn],fun _ => ⟨_,getElem?_set_self hlt,by simp⟩⟩
    obtain ⟨h1,h2⟩ := h.child j u l' hu ((update_of_ne hij _ _).symm.trans hm)
      ((update_of_ne hij _ _).symm.trans hr)
    refine ⟨h1,fun ha => ?_⟩
    obtain ⟨sl',hsl',hmem⟩ := h2 ha
    by_cases hll : l = l'
    · subst hll
      obtain rfl := Option.mem_unique hl hsl'
      exact ⟨_,getElem?_set_self hlt,mem_append.mpr (.inl hmem)⟩
    · exact ⟨sl',(getElem?_set_ne hll).trans hsl',hmem⟩

lemma connect_waiting (h : Waiting s)
    (hr : ¬Unaccepted s i) : Waiting (connect s i gates iss) := by
  unfold connect
  rcases ht : s.tcbs[i]? with _ | t
  · exact h
  refine h.setTcb ht ?_ ?_
  · intro l sl hl hmem
    obtain ⟨_,h2,h3,_⟩ := h.entry l sl i hl hmem
    exact absurd ⟨by rw [h2]; simp,h3⟩ hr
  · intro l hm h0
    exact absurd ⟨by rw [hm]; simp,h0⟩ hr

structure Drops (entries : List (Option ℕ)) (s s' : Stack) : Prop where
  slots : s'.slots = s.slots
  made : s'.made = s.made
  returned : s'.returned = s.returned
  closed : ∀ (j : ℕ) (u : Tcb), s'.tcbs[j]? = some u →
    (s.tcbs[j]? = some u ∧ (some j ∈ entries → u.active = false)) ∨ u.state = .closed
  rest : ∀ j, some j ∉ entries → s'.tcbs[j]? = s.tcbs[j]?

lemma Drops.one (s : Stack) (entry : Option ℕ) : Drops [entry] s (dropUnacceptedChild s entry) := by
  unfold dropUnacceptedChild
  rcases entry with _ | i
  · exact ⟨rfl,rfl,rfl,fun j u hu => .inl ⟨hu,by simp⟩,fun _ _ => rfl⟩
  simp only
  cases ht : s.tcbs[i]? with
  | none =>
    refine ⟨rfl,rfl,rfl,fun j u hu => .inl ⟨hu,fun hj => ?_⟩,fun _ _ => rfl⟩
    obtain rfl := some.inj (mem_singleton.mp hj)
    rw [ht] at hu
    cases hu
  | some t =>
    simp only
    split_ifs with hact
    · refine ⟨rfl,rfl,rfl,fun j u hu => .inl ⟨hu,fun hj => ?_⟩,fun _ _ => rfl⟩
      obtain rfl := some.inj (mem_singleton.mp hj)
      obtain rfl := Option.mem_unique ht hu
      simpa using hact
    all_goals
      refine ⟨rfl,rfl,rfl,fun j u hu => ?_,fun j hj => getElem?_set_ne (fun he => hj (by simp [he]))⟩
      rcases set_cases hu with ⟨rfl,rfl⟩ | ⟨hij,hu⟩
      · exact .inr rfl
      · exact .inl ⟨hu,fun hj => absurd (some.inj (mem_singleton.mp hj)) hij⟩

lemma dropped_spec (s : Stack) : Drops pending s (pending.foldl dropUnacceptedChild s) := by
  induction pending generalizing s with
  | nil => exact ⟨rfl,rfl,rfl,fun j u hu => .inl ⟨hu,fun hj => absurd hj not_mem_nil⟩,fun _ _ => rfl⟩
  | cons entry rest ih =>
    have h := ih (dropUnacceptedChild s entry)
    have g := Drops.one s entry
    refine ⟨h.slots.trans g.slots,h.made.trans g.made,h.returned.trans g.returned,fun j u hu => ?_,
      fun j hj => ?_⟩
    · rcases h.closed j u hu with ⟨hu,hin⟩ | hc
      · rcases g.closed j u hu with ⟨hu,hin'⟩ | hc
        · refine .inl ⟨hu,fun hj => ?_⟩
          rcases mem_cons.mp hj with hj | hj
          · exact hin' (mem_singleton.mpr hj)
          · exact hin hj
        · exact .inr hc
      · exact .inr hc
    · rw [mem_cons,not_or] at hj
      exact (h.rest j hj.2).trans (g.rest j (mt mem_singleton.mp hj.1))

lemma Waiting.clear {s s' : Stack} {b : Bool} (h : Waiting s)
    (hl : s.slots[l]? = some sl) (hd : Drops sl.pending s s') : Waiting (s'.setSlot l ⟨b,[]⟩) := by
  obtain ⟨h1,h2,h3,h4,h5⟩ := hd
  refine ⟨?_,?_,?_,?_⟩
  · intro l' sl' i hl' hi
    rcases set_cases hl' with ⟨rfl,rfl⟩ | ⟨hll,hl'⟩
    · cases hi
    rw [h1] at hl'
    obtain ⟨e1,e2,e3,u,hu,hu'⟩ := h.entry l' sl' i hl' hi
    have hnot : some i ∉ sl.pending := by
      intro hmem
      have := (h.entry l sl i hl hmem).2.1
      rw [e2] at this
      exact hll (some.inj this)
    exact ⟨e1,h2 ▸ e2,h3 ▸ e3,u,(h5 i hnot).trans hu,hu'⟩
  · intro l' sl' i hl'
    rcases set_cases hl' with ⟨rfl,rfl⟩ | ⟨_,hl'⟩
    · exact Nat.zero_le _
    · exact h.once l' sl' i (h1 ▸ hl')
  · intro i u l' hu hm hr
    rcases h4 i u hu with ⟨hu',hin⟩ | hc
    · obtain ⟨c1,c2⟩ := h.child i u l' hu' (h2 ▸ hm) (h3 ▸ hr)
      refine ⟨c1,fun ha => ?_⟩
      obtain ⟨sl',hsl',hmem⟩ := c2 ha
      have hll : l ≠ l' := by
        rintro rfl
        obtain rfl := Option.mem_unique hl hsl'
        exact h.not_queued hu' (hin hmem) hl hmem
      exact ⟨sl',(getElem?_set_ne hll).trans (h1 ▸ hsl'),hmem⟩
    · refine ⟨by rw [hc]; simp,fun ha => ?_⟩
      rcases ha with ha | ha <;> rw [hc] at ha <;> cases ha
  · intro i
    exact le_trans (le_of_eq (congrFun h3 i)) (h.single i)

include h

lemma listen_waiting : Waiting (tcpListen s l) := by
  unfold tcpListen
  rcases hl : s.slots[l]? with _ | sl
  · exact h
  simp only
  split_ifs with hact
  · exact h
  · exact h.clear hl ⟨rfl,rfl,rfl,
      fun j u hu => .inl ⟨hu,fun hmem => absurd (h.entry l sl j hl hmem).1 hact⟩,fun _ _ => rfl⟩

lemma stop_waiting : Waiting (stopListening s l) := by
  unfold stopListening
  rcases hl : s.slots[l]? with _ | sl
  · exact h
  simp only
  split_ifs with hact
  · exact h
  exact h.clear hl (dropped_spec sl.pending s)

lemma release_waiting (ht : s.tcbs[i]? = some t)
    (hs : t.state = .closed) : Waiting (releaseOrphanedBacklogTcb s i) := by
  unfold releaseOrphanedBacklogTcb
  rw [ht]
  rcases hf : s.slots.findIdx? (fun sl => sl.active && sl.pending.contains (some i)) with _ | l
  · rw [hf]
    exact h
  rw [hf]
  simp only
  rcases hl : s.slots[l]? with _ | sl
  · exact h
  have hmem : some i ∈ sl.pending := by
    obtain ⟨hlt,hp,_⟩ := findIdx?_eq_some_iff_getElem.mp hf
    rw [getElem?_eq_getElem hlt] at hl
    obtain rfl := some.inj hl
    rw [Bool.and_eq_true] at hp
    simpa using hp.2
  have hslot : Waiting (s.setSlot l {sl with pending := sl.pending.replace (some i) none}) := by
    refine h.take hl rfl (fun j => ?_) (fun _ => .inl rfl) (fun j u hu ha hr hj => ?_)
    · rw [count_replace]
      exact Nat.sub_le _ _
    · have hij : i ≠ j := by
        rintro rfl
        obtain rfl := Option.mem_unique ht hu
        rcases ha with ha | ha <;> rw [hs] at ha <;> cases ha
      rw [← count_pos_iff,count_replace,if_neg hij]
      exact count_pos_iff.mpr hj
  refine hslot.setTcb ht ?_ ?_
  · intro l' sl' hl' hj
    rcases set_cases hl' with ⟨rfl,rfl⟩ | ⟨hll,hl'⟩
    · have hone := h.once l' sl i hl
      have : 0 < (sl.pending.replace (some i) none).count (some i) := count_pos_iff.mpr hj
      rw [count_replace,if_pos rfl] at this
      omega
    · have e := (h.entry l' sl' i hl' hj).2.1
      rw [(h.entry l sl i hl hmem).2.1] at e
      exact absurd (some.inj e).symm hll
  · intro l' _ _
    refine ⟨by simp [deactivateTcb,hs],fun ha => ?_⟩
    rcases ha with ha | ha <;> rw [deactivateTcb] at ha <;> simp [hs] at ha

lemma event_waiting {e : Event}
    (hr : Unaccepted s i → e.external = true) : Waiting (event s i gates e) := by
  unfold event
  rcases ht : s.tcbs[i]? with _ | t
  · exact h
  have hset : Waiting (s.setTcb i (step (withGates gates t) e)) := by
    refine h.setTcb ht ?_ ?_
    · intro l sl hl hmem
      obtain ⟨_,h2,h3,u,hu,ha,hc⟩ := h.entry l sl i hl hmem
      obtain rfl := Option.mem_unique ht hu
      have hatt := external_attended t gates (hr ⟨by rw [h2]; simp,h3⟩)
      exact ⟨(hatt.active hc).trans ha,by rw [hatt.refs]; exact hc⟩
    · intro l hm h0
      have hatt := external_attended t gates (hr ⟨by rw [hm]; simp,h0⟩)
      obtain ⟨h1,h2⟩ := h.child i t l ht hm h0
      rcases hatt.state with hst | ⟨hst,hfrom⟩ | ⟨n1,n2,n3⟩
      · refine ⟨by rw [hst]; exact h1,fun ha => h2 ?_⟩
        rw [Awaited,hst] at ha
        exact ha
      · refine ⟨by rw [hst]; simp,fun _ => h2 ?_⟩
        rcases hfrom with hf | hf
        · exact absurd hf h1
        · exact .inr hf
      · refine ⟨n3,fun ha => ?_⟩
        rcases ha with ha | ha
        · exact absurd ha n1
        · exact absurd ha n2
  simp only
  split_ifs with hc
  · refine release_waiting hset ?_ hc.2.1
    exact getElem?_set_self (List.getElem?_eq_some_iff.mp ht).1
  · exact hset

omit h

/-- `tcpAccept` passes over no half open connection, and no SYN takes over a
slot in TIME_WAIT. -/
def AcceptSteady (s : Stack) : StackOp → Prop
  | .accept l => ∀ sl ∈ s.slots[l]?, ∀ entry ∈ passedOver s.tcbs sl.pending,
      awaitedEntry s.tcbs entry = false
  | .reuse _ _ _ _ _ => False
  | _ => True

lemma awaited_entry {tcbs : List Tcb} (ht : tcbs[i]? = some t) :
    awaitedEntry tcbs (some i) = decide (Awaited t) := by
  simp [awaitedEntry,ht]

section
variable {s : Stack} {l : ℕ} {sl : ListenSlot}

lemma taken_count (i : ℕ) :
    (takePending tcbs pending).2.count (some i) ≤ pending.count (some i) := by
  conv_rhs => rw [takePending_spec tcbs pending]
  rw [count_append]
  exact Nat.le_add_left _ _

lemma taken_keeps (hsteady : ∀ entry ∈ passedOver s.tcbs sl.pending,
      awaitedEntry s.tcbs entry = false) (ht : s.tcbs[i]? = some t)
    (ha : Awaited t) (hne : (takePending s.tcbs sl.pending).1 ≠ some i)
    (hmem : some i ∈ sl.pending) : some i ∈ (takePending s.tcbs sl.pending).2 := by
  rw [takePending_spec s.tcbs sl.pending,mem_append,mem_append] at hmem
  rcases hmem with (hp | hr) | hrest
  · have := hsteady _ hp
    rw [awaited_entry ht,decide_eq_false_iff_not] at this
    exact absurd ha this
  · cases hc : (takePending s.tcbs sl.pending).1 with
    | none => rw [hc] at hr; cases hr
    | some j =>
      rw [hc] at hr
      obtain rfl : i = j := by simpa using hr
      exact absurd hc hne
  · exact hrest

lemma taken_once (h : Waiting s) (hl : s.slots[l]? = some sl)
    (hc : (takePending s.tcbs sl.pending).1 = some i) :
    some i ∈ sl.pending ∧ some i ∉ (takePending s.tcbs sl.pending).2 := by
  have hone := h.once l sl i hl
  have hspec := takePending_spec s.tcbs sl.pending
  rw [hc] at hspec
  constructor
  · rw [hspec]
    simp
  · intro hrest
    have hpos : 0 < (takePending s.tcbs sl.pending).2.count (some i) := count_pos_iff.mpr hrest
    rw [hspec] at hone
    simp only [count_append,map_some,toList_some,count_singleton_self] at hone
    omega

lemma accept_waiting (h : Waiting s) (hsteady : AcceptSteady s (.accept l)) :
    Waiting (tcpAccept s l).2 := by
  unfold tcpAccept
  rcases hl : s.slots[l]? with _ | sl
  · exact h
  simp only
  split_ifs with hact
  · exact h
  have hcount := taken_count s.tcbs sl.pending
  have hkeep := fun i t => taken_keeps (i := i) (t := t) (hsteady sl hl)
  have honce := fun i => taken_once (i := i) h hl
  generalize takePending s.tcbs sl.pending = r at hcount hkeep honce ⊢
  obtain ⟨c,rest⟩ := r
  rcases c with _ | i
  · exact h.take hl rfl hcount (fun _ => .inl rfl) (fun i t ht ha _ hmem => hkeep i t ht ha (by simp) hmem)
  obtain ⟨hin,hout⟩ := honce i rfl
  have h0 := (h.entry l sl i hl hin).2.2.1
  refine h.take hl rfl hcount (fun j => ?_) (fun j t ht ha hr hmem => ?_)
  · by_cases hij : j = i
    · subst hij
      refine .inr ⟨hin,hout,?_⟩
      rw [update_self,h0]
    · exact .inl (update_of_ne hij _ _)
  · refine hkeep j t ht ha ?_ hmem
    rintro hc
    obtain rfl := some.inj hc
    rw [update_self] at hr
    exact absurd hr (Nat.succ_ne_zero _)

end

def SteadyOp (s : Stack) (c : StackOp) : Prop := c.ready s ∧ AcceptSteady s c

lemma step_waiting (s : Stack) (c : StackOp) (s' : Stack) (h : Waiting s)
    (hn : Guarded SteadyOp StackOp.step s c s') : Waiting s' := by
  obtain ⟨⟨hr,hsteady⟩,rfl⟩ := hn
  cases c with
  | listen l => exact listen_waiting h
  | stop l => exact stop_waiting h
  | socket => exact socket_waiting h
  | connect i gates iss => exact connect_waiting h hr
  | syn l gates iss p => exact syn_waiting h
  | reuse l i gates iss p => exact hsteady.elim
  | event i gates e => exact event_waiting h hr
  | accept l => exact accept_waiting h hsteady

lemma init_waiting (listeners : ℕ) : Waiting (Stack.init tcbs listeners) := by
  have hslot : ∀ (l : ℕ) (sl : ListenSlot), (Stack.init tcbs listeners).slots[l]? = some sl →
      sl = ⟨false,[]⟩ := fun l sl hl => (mem_replicate.mp (mem_of_getElem? hl)).2
  refine ⟨?_,?_,?_,fun _ => Nat.zero_le _⟩
  · intro l sl i hl hi
    rw [hslot l sl hl] at hi
    cases hi
  · intro l sl i hl
    rw [hslot l sl hl]
    exact Nat.zero_le _
  · intro i t l _ hm _
    cases hm

lemma reached_waiting {tcbs : List Tcb} {listeners : ℕ}
    (hr : Reaches (Guarded SteadyOp StackOp.step) (Stack.init tcbs listeners) s) : Waiting s :=
  invariant (I := Waiting) step_waiting hr (init_waiting tcbs listeners)

lemma failed_accept (hsteady : AcceptSteady s (.accept l))
    (hfail : (tcpAccept s l).1 < 0) : acceptQueue (tcpAccept s l).2 l = acceptQueue s l := by
  unfold tcpAccept at hfail ⊢
  rcases hl : s.slots[l]? with _ | sl
  · rfl
  have hpass := hsteady sl hl
  have hspec := takePending_spec s.tcbs sl.pending
  simp only [hl] at hfail ⊢
  split_ifs with hact
  · rfl
  rw [if_neg hact] at hfail
  rcases htake : takePending s.tcbs sl.pending with ⟨c,rest⟩
  rw [htake] at hfail hspec
  cases c with
  | none =>
    have hlt : l < s.slots.length := (List.getElem?_eq_some_iff.mp hl).1
    have hnone : (passedOver s.tcbs sl.pending).filter (awaitedEntry s.tcbs) = [] := by
      rw [filter_eq_nil_iff]
      intro entry he
      rw [hpass entry he]
      simp
    simp only [acceptQueue,Stack.setSlot,getElem?_set_self hlt,hl]
    conv_rhs => rw [hspec]
    simp only [map_none,toList_none,append_nil,filter_append,hnone,nil_append]
  | some i => exact absurd hfail (by simp)

/-- In every run in which `tcpAccept` passes over no half open connection and
no SYN takes over a slot in TIME_WAIT: a connection established for a listener
and not yet accepted is in the ring of that listener, once, and in no other;
`tcpAccept` returns such a connection, which is then in no ring and will not
be returned again; and a call that fails leaves the accept queue as it was. -/
theorem established_waits_for_accept (tcbs : List Tcb) (listeners : ℕ) (s : Stack)
    (hr : Reaches (Guarded SteadyOp StackOp.step) (Stack.init tcbs listeners) s) :
    (∀ (i : ℕ) (t : Tcb) (l : ℕ), s.tcbs[i]? = some t → t.state = .established →
      s.made i = some l → s.returned i = 0 →
      ∃ sl, s.slots[l]? = some sl ∧ sl.active = true ∧ sl.pending.count (some i) = 1 ∧
        ∀ (l' : ℕ) (sl' : ListenSlot), s.slots[l']? = some sl' → l' ≠ l → some i ∉ sl'.pending) ∧
    (∀ i, s.returned i ≤ 1) ∧
    (∀ (l i : ℕ), (tcpAccept s l).1 = i → s.made i = some l ∧ s.returned i = 0 ∧
      (tcpAccept s l).2.returned i = 1 ∧ (∃ t, s.tcbs[i]? = some t ∧ t.state = .established) ∧
      ∀ (l' : ℕ) (sl' : ListenSlot), (tcpAccept s l).2.slots[l']? = some sl' → some i ∉ sl'.pending) ∧
    (∀ l, AcceptSteady s (.accept l) → (tcpAccept s l).1 < 0 →
      acceptQueue (tcpAccept s l).2 l = acceptQueue s l) := by
  have h := reached_waiting hr
  have hother : ∀ (i l l' : ℕ) (sl' : ListenSlot), s.made i = some l → s.slots[l']? = some sl' →
      l' ≠ l → some i ∉ sl'.pending := by
    intro i l l' sl' hm hl' hll hmem
    have := (h.entry l' sl' i hl' hmem).2.1
    rw [hm] at this
    exact hll (some.inj this).symm
  refine ⟨?_,h.single,?_,fun l => failed_accept⟩
  · intro i t l ht hs hm h0
    obtain ⟨sl,hsl,hmem⟩ := (h.child i t l ht hm h0).2 (.inl hs)
    have hpos := count_pos_iff.mpr hmem
    have hone := h.once l sl i hsl
    exact ⟨sl,hsl,(h.entry l sl i hsl hmem).1,by omega,fun l' sl' => hother i l l' sl' hm⟩
  · intro l i hi
    unfold tcpAccept at hi ⊢
    rcases hl : s.slots[l]? with _ | sl
    · simp [hl] at hi
    simp only [hl] at hi ⊢
    split_ifs at hi ⊢ with hact
    · simp at hi
    rcases htake : takePending s.tcbs sl.pending with ⟨c,rest⟩
    rw [htake] at hi
    rcases c with _ | j
    · simp at hi
    obtain rfl : j = i := by simpa using hi
    have hc : (takePending s.tcbs sl.pending).1 = some j := by rw [htake]
    obtain ⟨hin,hout⟩ := taken_once h hl hc
    have hacc := takePending_some hc
    obtain ⟨_,hm,h0,t,ht,_⟩ := h.entry l sl j hl hin
    rw [htake] at hout
    refine ⟨hm,h0,?_,⟨t,ht,?_⟩,?_⟩
    · simp [h0]
    · simp only [canAccept, ht, Bool.and_eq_true, decide_eq_true_eq] at hacc
      exact hacc.2
    · intro l' sl' hl'
      have hset : (s.slots.set l { sl with pending := rest })[l']? = some sl' := hl'
      rcases set_cases hset with ⟨rfl,rfl⟩ | ⟨hll,hl'⟩
      · exact hout
      · exact hother j l l' sl' hm hl' hll

instance (s : Stack) (c : StackOp) : Decidable (c.ready s) := by
  cases c <;> dsimp only [StackOp.ready] <;> infer_instance

instance (s : Stack) (c : StackOp) : Decidable (AcceptSteady s c) := by
  cases c <;> dsimp only [AcceptSteady] <;> infer_instance

instance (s : Stack) (c : StackOp) : Decidable (SteadyOp s c) := inferInstanceAs (Decidable (_ ∧ _))

def idleStack : Stack := Stack.init [{ freshSlot with active := false }] 1

def arrives : StackOp := .syn 0 openGates 500 synPacket

def completes : StackOp := .event 0 openGates (.segment handshakeAck ⟨.grow,.count,fun _ => false,1460⟩)

theorem established_waits_for_accept_served :
    (tcpAccept (Runs.run StackOp.step idleStack [.listen 0,arrives,completes]) 0).1 = 0 ∧
    ∃ sl, (Runs.run StackOp.step idleStack [.listen 0,arrives,completes]).slots[0]? = some sl ∧
      sl.pending.count (some 0) = 1 := by
  have ha : Runs.Admissible SteadyOp StackOp.step idleStack [.listen 0,arrives,completes] := by
    decide
  have hr := Runs.run_reaches (.start _ _) ha
  have hstate : ((Runs.run StackOp.step idleStack [.listen 0,arrives,completes]).tcbs[0]?).map
      Tcb.state = some .established := by with_unfolding_all decide
  obtain ⟨t,ht,hs⟩ := map_eq_some_iff.mp hstate
  obtain ⟨sl,hsl,_,hone,_⟩ := (established_waits_for_accept _ 1 _ hr).1 0 t 0 ht hs
    (by with_unfolding_all decide) (by with_unfolding_all decide)
  exact ⟨by with_unfolding_all decide,sl,hsl,hone⟩

/-- A call that fails takes a half open connection off the ring, and the
connection is then established and in no ring. -/
theorem accept_loses_half_open : Reaches (Guarded StackOp.ready StackOp.step) idleStack
      (Runs.run StackOp.step idleStack [.listen 0,arrives,.accept 0,completes]) ∧
    acceptQueue (Runs.run StackOp.step idleStack [.listen 0,arrives]) 0 = [some 0] ∧
    (tcpAccept (Runs.run StackOp.step idleStack [.listen 0,arrives]) 0).1 = -11 ∧
    acceptQueue (tcpAccept (Runs.run StackOp.step idleStack [.listen 0,arrives]) 0).2 0 = [] ∧
    ((Runs.run StackOp.step idleStack [.listen 0,arrives,.accept 0,completes]).tcbs[0]?).map
      Tcb.state = some .established ∧
    (Runs.run StackOp.step idleStack [.listen 0,arrives,.accept 0,completes]).made 0 = some 0 ∧
    (Runs.run StackOp.step idleStack [.listen 0,arrives,.accept 0,completes]).returned 0 = 0 ∧
    acceptQueue (Runs.run StackOp.step idleStack [.listen 0,arrives,.accept 0,completes]) 0 = [] := by
  have ha : Runs.Admissible StackOp.ready StackOp.step idleStack
      [.listen 0,arrives,.accept 0,completes] := by decide
  refine ⟨Runs.run_reaches (.start _ _) ha,?_,?_,?_,?_,?_,?_,?_⟩ <;>
    with_unfolding_all decide

end MoQiOS.Tcp
