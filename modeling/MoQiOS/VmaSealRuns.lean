import MoQiOS.VmaSeals

/-!
# Sealed pages through every run

A page that is mapped when `mseal` succeeds stays under the same region view,
and under the same entry of the page tables unless a file backs it. Each call
is refused on a sealed page or works on a range that the page is outside of:
a range that is free, or that the record of seals was asked about.
-/

namespace MoQiOS.Vma
open SlotTables Runs List Multiset
set_option maxRecDepth 9000

variable {m : Mm} {va page i : ℕ} {s t : Process}

lemma covering_slot {v : PageView} (h : v ∈ m.viewsAt va) :
    ∃ t ∈ m.slots, t.region.active ∧ t.region.base ≤ va ∧ va < t.region.fin ∧ v = t.region.view va := by
  obtain ⟨r,hr,hvr⟩ := mem_bind.mp h
  obtain ⟨t,ht,ha,rfl⟩ := slot_of_live hr
  unfold views at hvr
  split at hvr
  · next hc => exact ⟨t,ht,ha,hc.1,hc.2,Multiset.mem_singleton.mp hvr⟩
  · exact absurd hvr (notMem_zero v)

lemma covered_view {t : Slot} (ht : t ∈ m.slots) (ha : t.region.active)
    (hb : t.region.base ≤ va) (hf : va < t.region.fin) : t.region.view va ∈ m.viewsAt va := by
  refine mem_bind.mpr ⟨t.region,slot_live ht ha,?_⟩
  rw [views,if_pos ⟨hb,hf⟩]
  exact Multiset.mem_singleton_self _

lemma fileBacked_iff (m : Mm) (va : ℕ) :
    fileBacked m va = true ↔ ∃ v ∈ m.viewsAt va, v.backing.isSome = true := by
  simp only [fileBacked,any_eq_true,Bool.and_eq_true,bne_iff_ne,ne_eq,decide_eq_true_eq]
  constructor
  · rintro ⟨t,ht,⟨ha,hk⟩,hb,hf⟩
    exact ⟨_,covered_view ht ha hb hf,by simp [MmapRegion.view,hk]⟩
  · rintro ⟨v,hv,hback⟩
    obtain ⟨t,ht,ha,hb,hf,rfl⟩ := covering_slot hv
    refine ⟨t,ht,⟨ha,?_⟩,hb,hf⟩
    intro hk
    simp [MmapRegion.view,hk] at hback

lemma fileBacked_congr {m' : Mm} (h : m'.viewsAt va = m.viewsAt va) :
    fileBacked m' va = fileBacked m va := by
  rw [Bool.eq_iff_iff,fileBacked_iff,fileBacked_iff,h]

def Present (s : Process) (page : ℕ) : Prop :=
  s.entry page ≠ none ∨ s.space.mm.viewsAt (page*4096) ≠ 0

lemma mapped_iff (h : Ordered s.space.mm) (page : ℕ) : s.mapped page = true ↔ Present s page := by
  obtain ⟨hlay,top,-,hv⟩ := h
  rw [Process.mapped,Bool.or_eq_true,Option.isSome_iff_ne_none]
  refine or_congr_right ⟨?_,?_⟩
  · intro ho hz
    simp only [hasMmapOverlap,any_eq_true,Bool.and_eq_true] at ho
    obtain ⟨t,ht,hbit,hover⟩ := ho
    have ha : t.region.active := by
      rw [← hlay.bits t ht]
      exact hbit
    have hvt := hv _ (slot_live ht ha)
    have hal := hvt.aligned
    simp only [rangesOverlap,Bool.and_eq_true,decide_eq_true_eq] at hover
    have : t.region.view (page*4096) ∈ s.space.mm.viewsAt (page*4096) :=
      covered_view ht ha (by omega) (by simp only [MmapRegion.fin]; omega)
    rw [hz] at this
    exact notMem_zero _ this
  · intro hz
    by_contra ho
    exact hz (overlap_views hlay (Bool.not_eq_true _ ▸ ho) le_rfl (by omega))

lemma sealed_outside {t : List SealRange} {base len : ℕ} (h : sealed t base len = false)
    (hs : ∃ r ∈ t, r.base ≤ va ∧ va < r.base+r.len) (hlow : va < 2^64-1) :
    ¬(base ≤ va ∧ va < base+len) := by
  rintro ⟨h1,h2⟩
  obtain ⟨r,hr,h3,h4⟩ := hs
  simp only [sealed,Bool.and_eq_false_iff,bne_eq_false_iff_eq,any_eq_false,
    Bool.and_eq_true,decide_eq_true_eq,not_and] at h
  rcases h with h | h
  · omega
  · have := h r hr (by omega)
    omega

/-- What holds of a page from its sealing in `s` on. -/
structure Pinned (s : Process) (page : ℕ) (t : Process) : Prop where
  ordered : Ordered t.space.mm
  covered : ∃ r ∈ t.seals, r.base ≤ page*4096 ∧ page*4096 < r.base+r.len
  views : t.space.mm.viewsAt (page*4096) = s.space.mm.viewsAt (page*4096)
  entry : fileBacked s.space.mm (page*4096) = false → t.entry page = s.entry page

lemma Pinned.present (h : Pinned s page t) (hs : Present s page) : Present t page := by
  cases hf : fileBacked s.space.mm (page*4096) with
  | true =>
    obtain ⟨v,hv,-⟩ := (fileBacked_iff _ _).mp hf
    rw [← h.views] at hv
    exact .inr fun hz => notMem_zero v (hz ▸ hv)
  | false => rwa [Present,h.views,h.entry hf]

lemma inPages_iff {base n : ℕ} (hb : base%4096 = 0) :
    inPages base n page ↔ base ≤ page*4096 ∧ page*4096 < base+n*4096 := by
  rw [inPages]
  omega

lemma free_outside {base n : ℕ} (hp : Present t page) (hb : base%4096 = 0)
    (hfree : pagesFree t base n)
    (hviews : base ≤ page*4096 → page*4096 < base+n*4096 → t.space.mm.viewsAt (page*4096) = 0) :
    ¬(base ≤ page*4096 ∧ page*4096 < base+n*4096) := by
  rintro ⟨h1,h2⟩
  have := hfree (page-base/4096) (by omega)
  rw [show base/4096+(page-base/4096) = page by omega] at this
  exact hp.elim (fun h => h this) (fun h => h (hviews h1 h2))

lemma grown_views {newPages : ℕ} {t : Slot} (ht : m.slots[i]? = some t)
    (hother : ∀ j < m.slots.length, ∀ t' ∈ m.slots[j]?, j ≠ i → t'.region.active = true →
      t'.region.fin ≤ t.region.fin ∨ t.region.base+newPages*4096 ≤ t'.region.base) (h1 :
    t.region.fin ≤ va) (h2 : va < t.region.base+newPages*4096) : m.viewsAt va = 0 := by
  rw [eq_zero_iff_forall_notMem]
  intro v hv
  obtain ⟨t',ht',ha,hb,hf,-⟩ := covering_slot hv
  obtain ⟨j,hj⟩ := mem_iff_getElem?.mp ht'
  by_cases hij : j = i
  · subst hij
    obtain rfl := Option.mem_unique hj ht
    omega
  · have := hother j (List.getElem?_eq_some_iff.mp hj).1 t' hj hij ha
    omega

/-- What a call does. A page under a seal is spared when the call is. -/
structure Effect (touched : ℕ → Prop) (spares : Prop) (t t' : Process) : Prop where
  touches : Touches touched t.space.mm t'.space.mm
  seals : ∀ r ∈ t.seals, r ∈ t'.seals
  spared : spares → ∀ page, Present t page → page*4096 < 2^64-1 →
    (∃ r ∈ t.seals, r.base ≤ page*4096 ∧ page*4096 < r.base+r.len) →
    ¬touched (page*4096) ∧ (fileBacked t.space.mm (page*4096) = false → t'.entry page = t.entry page)

lemma Effect.refl {P : Prop} (h : Ordered t.space.mm) : Effect (fun _ => False) P t t :=
  ⟨Touches.refl h,fun _ hr => hr,fun _ _ _ _ _ => ⟨id,fun _ => rfl⟩⟩

section
variable (h : Ordered t.space.mm)
include h

lemma replace_effect {prot asLimit dataLimit : ℕ} (hr : Call.ready t (.replace i prot asLimit dataLimit)) :
    ∃ touched, Effect touched True t (Call.step t (.replace i prot asLimit dataLimit)) := by
  simp only [Call.step,replaceFixed]
  split
  · exact ⟨_,.refl h⟩
  next u hu =>
  split
  · exact ⟨_,.refl h⟩
  next hseal =>
  refine ⟨_,replace_touches h hu hr,fun _ hr => hr,fun _ page _ hlow hs => ?_⟩
  have hout := sealed_outside (Bool.not_eq_true _ ▸ hseal) hs hlow
  obtain ⟨-,u',hu',ha,-⟩ := hr
  obtain rfl := Option.mem_unique hu hu'
  exact ⟨hout,fun _ => if_neg (mt (inPages_iff (h.aligned hu ha)).mp hout)⟩

lemma grow_effect {oldPages newPages : ℕ} (hr : Call.ready t (.grow i oldPages newPages)) :
    ∃ touched, Effect touched (Call.spares t (.grow i oldPages newPages)) t
      (Call.step t (.grow i oldPages newPages)) := by
  simp only [Call.step,mremapGrow]
  split
  · exact ⟨_,.refl h⟩
  next u hu =>
  split
  · exact ⟨_,.refl h⟩
  obtain ⟨hr,hrange⟩ := hr
  refine ⟨_,grow_touches h hu hr,fun _ hr => hr,fun hspare page hp _ _ => ?_⟩
  obtain ⟨hfree,hother⟩ := hrange u hu
  obtain ⟨hlt,u',hu',ha,-⟩ := hr
  obtain rfl := Option.mem_unique hu hu'
  have hal := h.aligned hu ha
  have hold : oldPages = u.region.numPages := hspare u hu
  have hfin : u.region.fin = u.region.base+oldPages*4096 := by rw [hold]; rfl
  rw [← hfin] at hother hfree
  have hout := free_outside hp (by omega) hfree
    (fun h1 h2 => grown_views hu hother h1 (by omega))
  refine ⟨by omega,fun _ => ?_⟩
  simp only
  split
  · rw [← hfin]
    exact if_neg (mt (inPages_iff (by omega)).mp hout)
  · rfl

lemma move_effect {newBase oldPages newPages : ℕ} (hr : Call.ready t (.move i newBase oldPages newPages)) :
    ∃ touched, Effect touched True t (Call.step t (.move i newBase oldPages newPages)) := by
  simp only [Call.step,mremapMove]
  split
  · exact ⟨_,.refl h⟩
  next u hu =>
  split
  · exact ⟨_,.refl h⟩
  next hseal =>
  obtain ⟨hr,hrange,hfree⟩ := hr
  refine ⟨_,move_touches h hu hr,fun _ hr => hr,fun _ page hp hlow hs => ?_⟩
  obtain ⟨hb,-,u',hu',ha,-,hold⟩ := hr
  obtain rfl := Option.mem_unique hu hu'
  have hal := h.aligned hu ha
  have hfrom := sealed_outside (Bool.not_eq_true _ ▸ hseal) hs hlow
  have hto := free_outside hp hb hfree (overlap_views h.1 hrange.2.2.2)
  have hfin : u.region.fin = u.region.base+oldPages*4096 := by rw [hold]; rfl
  refine ⟨by omega,fun _ => ?_⟩
  simp only [inPages_iff hb,inPages_iff hal,hto,hfrom,if_false]

lemma Call.effect (c : Call) (hr : c.ready t) : ∃ touched, Effect touched (c.spares t) t (c.step t) := by
  cases c with
  | mseal addr len flags =>
    refine ⟨fun _ => False,?_⟩
    simp only [Call.step,Vma.mseal,addSeal]
    split_ifs
    case neg =>
      exact ⟨Touches.refl h,fun r hr => mem_append_left _ hr,fun _ _ _ _ _ => ⟨id,fun _ => rfl⟩⟩
    all_goals exact .refl h
  | munmap base n =>
    simp only [Call.step,Vma.munmap]
    split
    · exact ⟨_,.refl h⟩
    next hseal =>
    refine ⟨_,table_touches h (.untrack base n) hr,fun _ hr => hr,fun _ page _ hlow hs => ?_⟩
    have hout := sealed_outside (Bool.not_eq_true _ ▸ hseal) hs hlow
    exact ⟨hout,fun _ => if_neg (mt (inPages_iff hr.1).mp hout)⟩
  | mmap base n md prot shared huge anonymous =>
    obtain ⟨hr,hfree⟩ := hr
    refine ⟨_,table_touches h (.track base n md prot shared huge anonymous) hr,fun _ hr => hr,
      fun _ page hp _ _ => ?_⟩
    have hout := free_outside hp hr.1.1 hfree (overlap_views h.1 hr.1.2.2.2)
    refine ⟨hout,fun _ => ?_⟩
    simp only [Call.step,Vma.mmap]
    split
    · exact if_neg (mt (inPages_iff hr.1.1).mp hout)
    · rfl
  | mprotect addr n prot =>
    simp only [Call.step,Vma.mprotect]
    split
    · exact ⟨_,.refl h⟩
    next hseal =>
    refine ⟨_,table_touches h (.protect addr n prot) hr,fun _ hr => hr,fun _ page _ hlow hs => ?_⟩
    have hout := sealed_outside (Bool.not_eq_true _ ▸ hseal) hs hlow
    exact ⟨hout,fun _ => if_neg (mt (inPages_iff hr.1).mp hout)⟩
  | split idx oldAddr pages =>
    exact ⟨_,table_touches h (.split idx oldAddr pages) hr,fun _ hr => hr,
      fun _ _ _ _ _ => ⟨id,fun _ => rfl⟩⟩
  | merge a b =>
    exact ⟨_,table_touches h (.merge a b) hr,fun _ hr => hr,fun _ _ _ _ _ => ⟨id,fun _ => rfl⟩⟩
  | replace i prot asLimit dataLimit => exact replace_effect h hr
  | grow i oldPages newPages => exact grow_effect h hr
  | move i newBase oldPages newPages => exact move_effect h hr
  | brk addr granted =>
    refine ⟨_,brk_touches h addr granted,fun _ hr => hr,fun hspare page hp hlow hs => ⟨id,fun _ => ?_⟩⟩
    simp only [Call.step,sysBrk]
    split_ifs with h1 h2
    · have := hr page h1.2 h1.1
      rw [(mapped_iff h page).mpr hp] at this
      exact absurd this (by simp)
    · have hout := sealed_outside hspare hs hlow
      omega
    · rfl
  | madvise base n =>
    simp only [Call.step,madviseDontneed]
    split
    · exact ⟨_,.refl h⟩
    · refine ⟨fun _ => False,Touches.refl h,fun _ hr => hr,fun _ page _ _ _ => ⟨id,fun hf => ?_⟩⟩
      exact if_neg fun hc => by simp [hf] at hc
  | fault p prot =>
    obtain ⟨-,u,hu,ha,hk,hb,hf,-⟩ := hr
    refine ⟨fun _ => False,Touches.refl h,fun _ hr => hr,fun _ page _ _ _ => ⟨id,fun hnot => if_neg ?_⟩⟩
    rintro rfl
    have := (fileBacked_iff t.space.mm (page*4096)).mpr
      ⟨_,covered_view hu ha hb hf,by simp [MmapRegion.view,hk]⟩
    rw [hnot] at this
    exact absurd this (by simp)

end

lemma step_pinned (hs : Present s page) (hlow : page*4096 < 2^64-1)
    (t : Process) (c : Call) (t' : Process) (h : Pinned s page t)
    (hn : Guarded (fun s c => Call.ready s c ∧ Call.spares s c) Call.step t c t') : Pinned s page t' := by
  obtain ⟨⟨hr,hspare⟩,rfl⟩ := hn
  obtain ⟨touched,he⟩ := c.effect h.ordered hr
  obtain ⟨hout,hentry⟩ := he.spared hspare page (h.present hs) hlow h.covered
  obtain ⟨r,hr,hcov⟩ := h.covered
  refine ⟨he.touches.ordered,⟨r,he.seals r hr,hcov⟩,(he.touches.views _ hout).trans h.views,?_⟩
  intro hf
  rw [hentry (by rw [fileBacked_congr h.views]; exact hf),h.entry hf]

def started (refs : FsKind → ℕ → ℕ) (start : ℕ) (entry : ℕ → Option ℕ) : Process :=
  ⟨loaded refs start,entry,[]⟩

lemma started_ordered (refs : FsKind → ℕ → ℕ) (start : ℕ) (entry : ℕ → Option ℕ) :
    Ordered (started refs start entry).space.mm :=
  ⟨(loaded_exact refs start).layout,(loaded_exact refs start).valid⟩

lemma mseal_pinned {s' : Process} {addr len flags : ℕ} (h : Ordered s.space.mm)
    (hs : mseal s addr len flags = some s') (hb : addr ≤ page*4096) (hf : page*4096 < addr+roundLen len) :
    Present s page ∧ page*4096 < 2^64-1 ∧ Pinned s page s' := by
  have hmax : userAddrMax = 2^47 := by unfold userAddrMax; rfl
  simp only [mseal] at hs
  split_ifs at hs with h1 h2 h3 h4
  · subst h2
    simp only [roundLen] at hf
    omega
  simp only [not_or,not_not] at h1 h3
  rw [all_eq_true] at h4
  have hround : roundLen len%4096 = 0 := by simp [roundLen]
  have hm := h4 (page-addr/4096) (List.mem_range.mpr (by omega))
  rw [show addr/4096+(page-addr/4096) = page by omega,mapped_iff h] at hm
  refine ⟨hm,by omega,?_⟩
  simp only [Option.map_eq_some_iff,addSeal] at hs
  obtain ⟨l,hl,rfl⟩ := hs
  refine ⟨h,?_,rfl,fun _ => rfl⟩
  split_ifs at hl with h5 h6
  · obtain rfl := Option.some.inj hl
    simp only [any_eq_true,Bool.and_eq_true,decide_eq_true_eq] at h5
    obtain ⟨r,hr,h7,h8⟩ := h5
    exact ⟨r,hr,by omega,by omega⟩
  · obtain rfl := Option.some.inj hl
    exact ⟨_,mem_append_right _ (List.mem_singleton_self _),hb,hf⟩

/-- From a successful `mseal` on, the table says the same about a sealed page
and, unless a file backs it, so do the page tables: in every run in which the
break gives back no sealed page and `mremap` is given the whole region it
grows. -/
theorem sealed_page_stays (refs : FsKind → ℕ → ℕ) (start : ℕ) (entry : ℕ → Option ℕ) (s s' t : Process)
    (addr len flags page : ℕ) (hs : Reaches (Guarded Call.ready Call.step) (started refs start entry) s)
    (hseal : mseal s addr len flags = some s') (hb : addr ≤ page*4096)
    (hf : page*4096 < addr+roundLen len)
    (ht : Reaches (Guarded (fun s c => Call.ready s c ∧ Call.spares s c) Call.step) s' t) :
    t.space.mm.viewsAt (page*4096) = s.space.mm.viewsAt (page*4096) ∧
    (fileBacked s.space.mm (page*4096) = false → t.entry page = s.entry page) := by
  have ho : Ordered s.space.mm := by
    refine invariant (I := fun p : Process => Ordered p.space.mm) ?_ hs (started_ordered refs start entry)
    rintro p c _ h ⟨hr,rfl⟩
    obtain ⟨_,he⟩ := c.effect h hr
    exact he.touches.ordered
  obtain ⟨hp,hlow,hpin⟩ := mseal_pinned ho hseal hb hf
  have h := invariant (I := Pinned s page) (step_pinned hp hlow) ht hpin
  exact ⟨h.views,h.entry⟩

instance (s : Process) (base n : ℕ) : Decidable (pagesFree s base n) :=
  inferInstanceAs (Decidable (∀ k < n, s.entry (base/4096+k) = none))

instance (s : Process) (c : Call) : Decidable (c.ready s) := by
  cases c <;> dsimp only [Call.ready] <;> infer_instance

instance (s : Process) (c : Call) : Decidable (c.spares s) := by
  cases c <;> dsimp only [Call.spares] <;> infer_instance

def furnished : Process :=
  run Call.step (started (fun _ _ => 0) 65536 fun _ => none)
    [.mmap 1048576 8 none 3 false 0 true,
     .mmap 2097152 5 (some ⟨.ext2,false,true,1,4096,40960,3,0,77⟩) 1 false 0 false,
     .brk 77824 true]

lemma furnished_reached :
    Reaches (Guarded Call.ready Call.step) (started (fun _ _ => 0) 65536 fun _ => none) furnished :=
  run_reaches (.start _ _) (by with_unfolding_all decide)

def partlySealed : Process := (mseal furnished 1052672 8192 0).getD furnished

def harmless : List Call :=
  [.munmap 1048576 1,.munmap 1052672 1,.mprotect 1056768 4 1,.mprotect 1060864 4 1,.fault 512 1,
   .madvise 2097152 5,.brk 65536 true,.grow 1 5 6]

theorem sealed_page_stays_harmless : (run Call.step partlySealed harmless).entry 257 = some 3 := by
  have ha : Admissible (fun s c => Call.ready s c ∧ Call.spares s c) Call.step partlySealed harmless := by
    with_unfolding_all decide
  have hsome : (mseal furnished 1052672 8192 0).isSome = true := by with_unfolding_all decide
  obtain ⟨s',hs'⟩ := Option.isSome_iff_exists.mp hsome
  have hp : partlySealed = s' := by rw [partlySealed, hs']; rfl
  have h := sealed_page_stays (fun _ _ => 0) 65536 (fun _ => none) furnished partlySealed _ 1052672 8192 0 257
    furnished_reached (hp ▸ hs') (by decide) (by decide) (run_reaches (.start _ _) ha)
  exact (h.2 (by with_unfolding_all decide)).trans (by with_unfolding_all decide)

/-- A sealed heap page goes when the break shrinks; sealed file pages lose
their region when `mremap` resizes it through its first two pages. -/
theorem brk_and_mremap_drop_sealed_pages : let heap := (mseal furnished 73728 4096 0).getD furnished
    let file := (mseal furnished 2113536 4096 0).getD furnished
    (mseal furnished 73728 4096 0).isSome = true ∧ (mseal furnished 2113536 4096 0).isSome = true ∧
    Admissible Call.ready Call.step heap [.brk 69632 true] ∧
    heap.entry 18 = some 3 ∧ (run Call.step heap [.brk 69632 true]).entry 18 = none ∧
    Admissible Call.ready Call.step file [.grow 1 2 3] ∧
    Multiset.card (file.space.mm.viewsAt 2113536) = 1 ∧
    (run Call.step file [.grow 1 2 3]).space.mm.viewsAt 2113536 = 0 ∧
    (run Call.step file [.grow 1 2 3]).mapped 516 = false := by
  with_unfolding_all decide

end MoQiOS.Vma
