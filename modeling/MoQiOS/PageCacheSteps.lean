import MoQiOS.PageCacheSlots

/-!
# The operations of the page cache

What each operation does to the slots, and that it keeps the invariant. The
clock takes only clean pages whose frame has no other reference.
-/

namespace MoQiOS.PageCache
open Chains Function

def SamePage (p p' : CachedPage) : Prop := p' = { p with referenced := p'.referenced }

lemma SamePage.trans {p q r : CachedPage} (h : SamePage p q) (h' : SamePage q r) :
    SamePage p r := by
  rw [SamePage] at *
  rw [h',h]

structure Still (s s' : State) : Prop where
  memory : s'.memory = s.memory
  stored : s'.stored = s.stored
  flushers : s'.flushers = s.flushers
  version : s'.version = s.version
  writes : s'.writes = s.writes
  newest : s'.newest = s.newest
  device : s'.device = s.device

variable {s t u : State}

lemma Still.trans (h : Still s t) (h' : Still t u) : Still s u :=
  ⟨h'.memory.trans h.memory,h'.stored.trans h.stored,h'.flushers.trans h.flushers,
    h'.version.trans h.version,h'.writes.trans h.writes,h'.newest.trans h.newest,
    h'.device.trans h.device⟩

structure Quiet (s s' : State) : Prop where
  page : ∀ i, SamePage (s.pages i) (s'.pages i)
  soft : Soft s s'
  dirtyBm : s'.dirtyBm = s.dirtyBm
  still : Still s s'

lemma Quiet.refl (s : State) : Quiet s s :=
  ⟨fun _ => rfl,.of_eq rfl,rfl,rfl,rfl,rfl,rfl,rfl,rfl,rfl⟩

lemma Quiet.trans (h : Quiet s t) (h' : Quiet t u) : Quiet s u :=
  ⟨fun i => (h.page i).trans (h'.page i),h.soft.trans h'.soft,h'.dirtyBm.trans h.dirtyBm,
    h.still.trans h'.still⟩

lemma SamePage.dirty {p p' : CachedPage} (h : SamePage p p') : p'.dirty = p.dirty := by rw [h]

lemma Cache.quiet {out : Option ℕ} {s s' : State} (h : Cache out s) (hq : Quiet s s') :
    Cache out s' := by
  refine h.soft hq.soft (fun i => ?_) (fun i hi => ?_)
  · rw [hq.dirtyBm,h.dirty,hq.soft.valid,(hq.page i).dirty]
  · rw [hq.still.stored,hq.still.memory]
    exact h.stored i hi

lemma quiet_referenced (s : State) (i : ℕ) (b : Bool) :
    Quiet s (s.setPage i {s.pages i with referenced := b}) := by
  refine ⟨fun j => ?_,.setPage rfl rfl rfl rfl,rfl,rfl,rfl,rfl,rfl,rfl,rfl,rfl⟩
  by_cases hj : j = i
  · subst hj
    rw [setPage_self]
    rfl
  · rw [setPage_of_ne s _ hj]
    rfl

lemma clockScan_spec (refCount : ℕ → ℕ) (attempts : ℕ) (s : State) :
    let r := clockScan refCount attempts s
    Quiet s r.1 ∧ ∀ i, r.2 = some i → (r.1.pages i).valid = true ∧ r.1.dirtyBm i = false ∧
      refCount (r.1.pages i).phys ≤ 1 := by
  induction attempts generalizing s with
  | zero => exact ⟨.refl s,fun i hi => by cases hi⟩
  | succ attempts ih =>
    simp only [clockScan]
    generalize (if maxPages ≤ s.clockHand then 0 else s.clockHand) = k
    have ht : Quiet s {s with clockHand := k+1} :=
      ⟨fun _ => rfl,.of_eq rfl,rfl,rfl,rfl,rfl,rfl,rfl,rfl,rfl⟩
    -- A turn of the hand that takes nothing goes on from a state like this one.
    have hgo : ∀ t, Quiet s t → Quiet s (clockScan refCount attempts t).1 ∧
        ∀ i, (clockScan refCount attempts t).2 = some i → _ :=
      fun t hq => ⟨hq.trans (ih t).1,(ih t).2⟩
    split_ifs with hv hr hd hc
    · exact hgo _ ht
    · exact hgo _ (ht.trans (quiet_referenced {s with clockHand := k+1} k false))
    · exact hgo _ ht
    · exact hgo _ ht
    · refine ⟨ht,?_⟩
      rintro i ⟨⟩
      exact ⟨by simpa using hv,by simpa using hd,by simpa using hc⟩

/-- A slot has been taken in hand; if it held a page, that one was clean and
its frame had no other reference. -/
structure Vacated (refCount : ℕ → ℕ) (s t : State) (i : ℕ) : Prop where
  other : ∀ j, j ≠ i → SamePage (s.pages j) (t.pages j)
  evicted : (s.pages i).valid = true → s.dirtyBm i = false ∧ refCount (s.pages i).phys ≤ 1
  still : Still s t

variable {refCount : ℕ → ℕ}

lemma Cache.removeKeepPhys {s t : State} {i : ℕ} (h : Cache none s)
    (hq : Quiet s t) (hv : (t.pages i).valid = true) (hd : t.dirtyBm i = false)
    (hc : refCount (t.pages i).phys ≤ 1) :
    ∃ u, removePageKeepPhys t i = some u ∧ Cache (some i) u ∧ Vacated refCount s u i := by
  obtain ⟨free,hash,inode,hl⟩ := (h.quiet hq).layout
  obtain ⟨u,hu,hcache,hdet,-⟩ := (h.quiet hq).detach hl hv
  refine ⟨u,?_,hcache,fun j hj => ?_,fun _ => ?_,?_⟩
  · rw [removePageKeepPhys,hv]
    exact hu
  · rw [hdet.other j hj]
    exact hq.page j
  · rw [hq.dirtyBm] at hd
    rw [hq.soft.phys] at hc
    exact ⟨hd,hc⟩
  · exact hq.still.trans ⟨hdet.memory,hdet.stored,hdet.flushers,hdet.version,hdet.writes,hdet.newest,
      hdet.device⟩

variable {s : State}

lemma Vacated.takeFree {i phys : ℕ}
    (hv : (s.pages i).valid = false) : Vacated refCount s (takeFree s i phys) i := by
  refine ⟨fun j hj => ?_,fun hi => ?_,rfl,rfl,rfl,rfl,rfl,rfl,rfl⟩
  · have hpage : (PageCache.takeFree s i phys).pages j = s.pages j := setPage_of_ne s _ hj
    rw [hpage]
    rfl
  · rw [hv] at hi
    cases hi

lemma Cache.free_head (h : Cache none s) {i : ℕ} (hi : s.freeHead = some i) :
    (s.pages i).valid = false := by
  obtain ⟨free,hash,inode,hl⟩ := h.layout
  have hchain := hl.free_chain
  rw [hi] at hchain
  cases free with
  | nil => cases hchain
  | cons k rest =>
    cases Option.some.inj hchain.1
    exact ((hl.free_mem i).mp List.mem_cons_self).2.1

/-- The clock finds no victim, or one whose slot can be vacated. -/
lemma Cache.evict (refCount : ℕ → ℕ) (h : Cache none s) :
    (∃ t, clockScan refCount (maxPages*2) s = (t,none) ∧ Quiet s t) ∨
    ∃ t i u, clockScan refCount (maxPages*2) s = (t,some i) ∧ removePageKeepPhys t i = some u ∧
      Cache (some i) u ∧ Vacated refCount s u i := by
  obtain ⟨hq,hclean⟩ := clockScan_spec refCount (maxPages*2) s
  generalize clockScan refCount (maxPages*2) s = r at hq hclean
  obtain ⟨t,_ | i⟩ := r
  · exact .inl ⟨t,rfl,hq⟩
  obtain ⟨hv,hd,hc⟩ := hclean i rfl
  obtain ⟨u,hu,hcache,hvac⟩ := h.removeKeepPhys hq hv hd hc
  exact .inr ⟨t,i,u,rfl,hu,hcache,hvac⟩

lemma allocSlot_spec (env : Env) (h : Cache none s)
    (hf : ∀ phys, env.allocPage = some phys → FreeFrame s phys) :
    (∃ t, allocSlot env s = some (t,none) ∧ Quiet s t) ∨
    ∃ t i, allocSlot env s = some (t,some i) ∧ Cache (some i) t ∧ Vacated env.refCount s t i := by
  rw [allocSlot]
  split
  · rename_i slot hslot
    split
    · exact .inl ⟨s,rfl,.refl s⟩
    · rename_i phys hphys
      exact .inr ⟨_,slot,rfl,h.takeFree hslot (hf phys hphys),.takeFree (h.free_head hslot)⟩
  rcases h.evict env.refCount with ⟨t,hscan,hq⟩ | ⟨t,i,u,hscan,hu,hcache,hvac⟩
  · rw [hscan]
    exact .inl ⟨t,rfl,hq⟩
  rw [hscan]
  dsimp only
  rw [hu]
  exact .inr ⟨u,i,rfl,hcache,hvac⟩

lemma allocSlotOwned_spec (env : Env) (h : Cache none s) {phys : ℕ} (hf : FreeFrame s phys) :
    (∃ t, allocSlotOwned env s phys = some (t,none) ∧ Quiet s t) ∨
    ∃ t i, allocSlotOwned env s phys = some (t,some i) ∧ Cache (some i) t ∧
      Vacated env.refCount s t i := by
  rw [allocSlotOwned]
  split
  · rename_i slot hslot
    exact .inr ⟨_,slot,rfl,h.takeFree hslot hf,.takeFree (h.free_head hslot)⟩
  rcases h.evict env.refCount with ⟨t,hscan,hq⟩ | ⟨t,i,u,hscan,hu,hcache,hvac⟩
  · rw [hscan]
    exact .inl ⟨t,rfl,hq⟩
  rw [hscan]
  dsimp only
  rw [hu]
  refine .inr ⟨_,i,rfl,hcache.reframe (fun j hj hjv => ?_),fun j hj => ?_,hvac.evicted,
    hvac.still.trans ⟨rfl,rfl,rfl,rfl,rfl,rfl,rfl⟩⟩
  · -- A slot that is still valid was valid before the eviction.
    have hne : j ≠ i := by
      rintro rfl
      rw [(hcache.hand j rfl).2.1] at hjv
      cases hjv
    have hsame := hvac.other j hne
    rw [hsame] at hjv ⊢
    exact hf j hj hjv
  · rw [setPage_of_ne u _ hj]
    exact hvac.other j hj

structure Placed (refCount : ℕ → ℕ) (s s' : State) (i : ℕ) (key : CacheKey) (bytes : Bytes)
    (dirty : Bool) : Prop where
  valid : (s'.pages i).valid = true
  keyed : (s'.pages i).key = key
  dirty : (s'.pages i).dirty = dirty
  bytes : s'.memory (s'.pages i).data = bytes
  other : ∀ j, j ≠ i → SamePage (s.pages j) (s'.pages j)
  kept : ∀ j, j ≠ i → (s.pages j).valid = true →
    s'.memory (s.pages j).data = s.memory (s.pages j).data
  version : ∀ j, j ≠ i → s'.version j = s.version j
  evicted : (s.pages i).valid = true → s.dirtyBm i = false ∧ refCount (s.pages i).phys ≤ 1
  fresh : ∀ j, (s.pages j).valid = true → (s.pages j).key ≠ key
  flushers : s'.flushers = s.flushers
  device : s'.device = s.device

lemma Vacated.place {i : ℕ} {key : CacheKey} {bytes : Bytes}
    {dirty : Bool} (hv : Vacated refCount s t i) (hc : Cache (some i) t)
    (hfresh : ∀ j, (s.pages j).valid = true → (s.pages j).key ≠ key)
    (hs : Installed (store t i key bytes) u i key dirty)
    (hmem : u.memory = (store t i key bytes).memory) (hst : u.stored = (store t i key bytes).stored)
    (hver : ∀ j, j ≠ i → u.version j = t.version j) (hfl : u.flushers = t.flushers)
    (hdev : u.device = t.device) : Cache none u ∧ Placed refCount s u i key bytes dirty := by
  have hold : ∀ j, (t.pages j).valid = true → j ≠ i ∧ SamePage (s.pages j) (t.pages j) := by
    intro j hj
    have hne : j ≠ i := by
      rintro rfl
      rw [(hc.hand j rfl).2.1] at hj
      cases hj
    exact ⟨hne,hv.other j hne⟩
  have hfresh' : ∀ j, (t.pages j).valid = true → (t.pages j).key ≠ key := by
    intro j hj
    obtain ⟨-,hsame⟩ := hold j hj
    rw [hsame] at hj ⊢
    exact hfresh j hj
  have hbytes : (store t i key bytes).memory ((store t i key bytes).pages i).data = bytes :=
    update_self _ _ _
  have hstored : (store t i key bytes).stored key = bytes := update_self _ _ _
  refine ⟨(hc.store hfresh' bytes).of_installed hs hfresh' hmem hst (hstored.trans hbytes.symm),
    ?_,?_,?_,?_,?_,?_,?_,hv.evicted,hfresh,hfl.trans hv.still.flushers,hdev.trans hv.still.device⟩
  · rw [hs.self]
  · rw [hs.self]
  · rw [hs.self]
  · rw [hs.self,hmem]
    exact hbytes
  · intro j hj
    rw [hs.other j hj]
    exact hv.other j hj
  · intro j hj hvj
    have hsame := hv.other j hj
    have hvt : (t.pages j).valid = true := by rw [hsame]; exact hvj
    have hdata : (s.pages j).data = (t.pages j).data := by rw [hsame]
    have hne : (t.pages j).data ≠ (t.pages i).data := by
      rw [hc.data j hvt,(hc.hand i rfl).2.2.1]
      exact (hc.hand i rfl).2.2.2 j (hc.inRange j hvt) hvt
    rw [hmem,hdata,← hv.still.memory]
    exact update_of_ne hne _ _
  · intro j hj
    rw [hver j hj,hv.still.version]

lemma install_inodeNext (s : State) (i : ℕ) (key : CacheKey) (dirty : Bool) :
    (install s i key dirty).inodeNext =
      update s.inodeNext i (s.inodeListHeads (inodeListSlot key.inodeId)) := by
  simp [install,inodeListInsert,State.setPage]

lemma install_inodeListHeads (s : State) (i : ℕ) (key : CacheKey) (dirty : Bool) :
    (install s i key dirty).inodeListHeads =
      update s.inodeListHeads (inodeListSlot key.inodeId) (some i) := by
  simp [install,inodeListInsert,State.setPage]

section
variable {s t : State} {i : ℕ} {key : CacheKey}

variable (hv : Vacated refCount s t i) (hc : Cache (some i) t)
    (hfresh : ∀ j, (s.pages j).valid = true → (s.pages j).key ≠ key)
include hv hc hfresh

lemma insertClean_spec (bytes : Bytes) : Cache none (insertClean t i key bytes) ∧
      Placed refCount s (insertClean t i key bytes) i key bytes false := by
  have hclean : t.dirtyBm i = false := by
    rw [hc.dirty,(hc.hand i rfl).2.1]
    rfl
  refine hv.place hc hfresh ⟨fun j hj => setPage_of_ne _ _ hj,setPage_self _ _ _,rfl,rfl,
    install_inodeNext _ _ _ _,install_inodeListHeads _ _ _ _,rfl,rfl,rfl,?_⟩ rfl rfl
    (fun j hj => update_of_ne hj _ _) rfl rfl
  exact (Function.update_eq_self_iff.mpr hclean.symm).symm

lemma writeNew_spec (src : Bytes) :
    let u := (install (number (store t i key src) i key src) i key true).dirtySet i
    Cache none u ∧ Placed refCount s u i key src true := by
  exact hv.place hc hfresh ⟨fun j hj => setPage_of_ne _ _ hj,setPage_self _ _ _,rfl,rfl,
    install_inodeNext _ _ _ _,install_inodeListHeads _ _ _ _,rfl,rfl,rfl,rfl⟩ rfl rfl
    (fun j hj => update_of_ne hj _ _) rfl rfl

end

end MoQiOS.PageCache
