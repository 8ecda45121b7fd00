import MoQiOS.PageCacheChains

/-!
# Slots leaving and joining the chains

A removed slot is in hand until it goes to the free list or becomes a page
under a new key.
-/

namespace MoQiOS.PageCache
open Chains Function List

structure Detached (s s' : State) (i : ℕ) : Prop where
  other : ∀ j, j ≠ i → s'.pages j = s.pages j
  self : s'.pages i = { s.pages i with valid := false, dirty := false }
  dirtyBm : s'.dirtyBm = update s.dirtyBm i false
  memory : s'.memory = s.memory
  stored : s'.stored = s.stored
  lruNext : s'.lruNext = s.lruNext
  freeHead : s'.freeHead = s.freeHead
  flushers : s'.flushers = s.flushers
  version : s'.version = s.version
  writes : s'.writes = s.writes
  newest : s'.newest = s.newest
  device : s'.device = s.device

variable {s s' : State} {i : ℕ} {out : Option ℕ} {free : List ℕ} {hash inode : ℕ → List ℕ}

lemma validSlots_clear (hi : (s.pages i).valid = true)
    (hlt : i < maxPages) (hother : ∀ j, j ≠ i → s'.pages j = s.pages j)
    (hself : (s'.pages i).valid = false) : (validSlots s').card = (validSlots s).card-1 := by
  have herase : validSlots s' = (validSlots s).erase i := by
    ext j
    rw [Finset.mem_erase,validSlots,validSlots,Finset.mem_filter,Finset.mem_filter]
    by_cases hj : j = i
    · simp [hj,hself]
    · simp [hj,hother j hj]
  have hmem : i ∈ validSlots s := by
    rw [validSlots,Finset.mem_filter,Finset.mem_range]
    exact ⟨hlt,hi⟩
  rw [herase,Finset.card_erase_of_mem hmem]

lemma Layout.hash_disjoint
    (h : Layout out s free hash inode) (b c i : ℕ) (hb : i ∈ hash b) (hc : i ∈ hash c) : b = c :=
  ((h.hash_mem b i).mp hb).2.2.symm.trans ((h.hash_mem c i).mp hc).2.2

lemma Layout.inode_disjoint
    (h : Layout out s free hash inode) (b c i : ℕ) (hb : i ∈ inode b) (hc : i ∈ inode c) : b = c :=
  ((h.inode_mem b i).mp hb).2.2.symm.trans ((h.inode_mem c i).mp hc).2.2

lemma Layout.detach
    (h : Layout none s free hash inode) (hd : Detached s s' i) (hi : (s.pages i).valid = true)
    (hhash : ∀ b, Chain s'.hashNext (s'.hashBuckets b) ((hash b).erase i))
    (hinode : ∀ j, Chain s'.inodeNext (s'.inodeListHeads j) ((inode j).erase i)) :
    Layout (some i) s' free (fun b => (hash b).erase i) (fun j => (inode j).erase i) := by
  have hself : (s'.pages i).valid = false := by rw [hd.self]
  refine ⟨?_,h.free_nodup,?_,hhash,fun b => (h.hash_nodup b).erase i,?_,hinode,
    fun j => (h.inode_nodup j).erase i,?_⟩
  · rw [hd.lruNext,hd.freeHead]
    exact h.free_chain
  · intro j
    rw [h.free_mem]
    by_cases hj : j = i
    · simp [hj,hi]
    · rw [hd.other j hj]
      simp [Ne.symm hj]
  · intro b j
    rw [(h.hash_nodup b).mem_erase_iff,h.hash_mem]
    by_cases hj : j = i
    · simp [hj,hself]
    · rw [hd.other j hj]
      simp [hj]
  · intro b j
    rw [(h.inode_nodup b).mem_erase_iff,h.inode_mem]
    by_cases hj : j = i
    · simp [hj,hself]
    · rw [hd.other j hj]
      simp [hj]

lemma Cache.of_fewer {out' : Option ℕ} (h : Cache out s)
    (hold : ∀ j, (s'.pages j).valid = true → s'.pages j = s.pages j)
    (hmem : s'.memory = s.memory) (hstored : s'.stored = s.stored)
    (hl : ∃ free hash inode, Layout out' s' free hash inode)
    (hhand : ∀ k, out' = some k → k < maxPages ∧ (s'.pages k).valid = false ∧
      (s'.pages k).data = (s'.pages k).phys ∧ FreeFrame s' (s'.pages k).phys)
    (hcount : s'.pageCount = (validSlots s').card)
    (hdirty : ∀ j, s'.dirtyBm j = ((s'.pages j).valid && (s'.pages j).dirty)) : Cache out' s' := by
  refine ⟨hl,fun j hj => h.inRange j (hold j hj ▸ hj),hhand,?_,hcount,hdirty,?_,?_,?_⟩
  · intro j k hj hk hkey
    have hj' := hold j hj
    have hk' := hold k hk
    rw [hj'] at hj hkey
    rw [hk'] at hk hkey
    exact h.keys j k hj hk hkey
  · intro j k hj hk hphys
    have hj' := hold j hj
    have hk' := hold k hk
    rw [hj'] at hj hphys
    rw [hk'] at hk hphys
    exact h.frames j k hj hk hphys
  · intro j hj
    have hj' := hold j hj
    rw [hj'] at hj ⊢
    exact h.data j hj
  · intro j hj
    have hj' := hold j hj
    rw [hj'] at hj ⊢
    rw [hstored,hmem]
    exact h.stored j hj

lemma Cache.of_detached (h : Cache none s) (hi : (s.pages i).valid = true)
    (hd : Detached s s' i) (hcount : s'.pageCount = s.pageCount-1)
    (hl : ∃ free hash inode, Layout (some i) s' free hash inode) : Cache (some i) s' := by
  have hself : (s'.pages i).valid = false := by rw [hd.self]
  have hlt := h.inRange i hi
  have hold : ∀ j, (s'.pages j).valid = true → j ≠ i ∧ s'.pages j = s.pages j := by
    intro j hj
    have hne : j ≠ i := by
      rintro rfl
      rw [hself] at hj
      cases hj
    exact ⟨hne,hd.other j hne⟩
  refine h.of_fewer (fun j hj => (hold j hj).2) hd.memory hd.stored hl ?_ ?_ ?_
  · rintro j ⟨⟩
    refine ⟨hlt,hself,?_,?_⟩
    · rw [hd.self]
      exact h.data i hi
    · intro j hj hv hphys
      obtain ⟨hne,heq⟩ := hold j hv
      rw [heq,hd.self] at hphys
      exact hne (h.frames j i (heq ▸ hv) hi hphys)
  · rw [hcount,h.count,validSlots_clear hi hlt hd.other hself]
  · intro j
    rw [hd.dirtyBm]
    by_cases hj : j = i
    · rw [hj,update_self,hself]
      rfl
    · rw [update_of_ne hj,hd.other j hj]
      exact h.dirty j

lemma Cache.detach (h : Cache none s)
    (hl : Layout none s free hash inode) (hi : (s.pages i).valid = true) :
    ∃ s', detach s i = some s' ∧ Cache (some i) s' ∧ Detached s s' i ∧
      Layout (some i) s' free (fun b => (hash b).erase i) (fun j => (inode j).erase i) := by
  have hlt := h.inRange i hi
  obtain ⟨hnext,hhead,hun,hchain⟩ := unlink_family hl.hash_chain hl.hash_nodup hl.hash_disjoint
    ((hl.hash_mem _ i).mpr ⟨hlt,hi,rfl⟩) (hl.hash_length _)
  obtain ⟨inext,ihead,iun,ichain⟩ := unlink_family hl.inode_chain hl.inode_nodup hl.inode_disjoint
    ((hl.inode_mem _ i).mpr ⟨hlt,hi,rfl⟩) (hl.inode_length _)
  simp only [PageCache.detach,hashRemove,hun,inodeListRemove,iun]
  refine ⟨_,rfl,(and_iff_right_of_imp fun hd => ?_).mpr ((and_iff_left_of_imp fun hd => ?_).mpr ?_)⟩
  · exact h.of_detached hi hd.1 rfl ⟨_,_,_,hd.2⟩
  · exact hl.detach hd hi hchain ichain
  · exact ⟨fun j hj => setPage_of_ne _ _ hj,setPage_self _ _ _,rfl,rfl,rfl,rfl,rfl,rfl,rfl,rfl,rfl,rfl⟩

variable {out' : Option ℕ}

lemma Cache.rehand (h : Cache out s) (hl : Layout out s free hash inode)
    (hi : (s.pages i).valid = false) {phys data : ℕ} {free' : List ℕ}
    (hp : s'.pages = (s.setPage i {s.pages i with phys := phys, data := data}).pages)
    (hx : (s'.pageCount,s'.hashBuckets,s'.inodeListHeads,s'.hashNext,s'.inodeNext,s'.dirtyBm,s'.memory,
      s'.stored) = (s.pageCount,s.hashBuckets,s.inodeListHeads,s.hashNext,s.inodeNext,s.dirtyBm,s.memory,
      s.stored))
    (hc : Chain s'.lruNext s'.freeHead free') (hn : free'.Nodup)
    (hm : ∀ j, j ∈ free' ↔ j < maxPages ∧ (s.pages j).valid = false ∧ out' ≠ some j)
    (hhand : ∀ k, out' = some k → k < maxPages ∧ k = i ∧ data = phys ∧ FreeFrame s phys) :
    Cache out' s' ∧ Layout out' s' free' hash inode := by
  simp only [Prod.mk.injEq] at hx
  obtain ⟨hcount,hhb,hih,hhn,hin,hdirty,hmem,hstored⟩ := hx
  have hother : ∀ j, j ≠ i → s'.pages j = s.pages j := fun j hj => by rw [hp,setPage_of_ne _ _ hj]
  have hself : s'.pages i = {s.pages i with phys := phys, data := data} := by rw [hp,setPage_self]
  have hsame : ∀ j, (s'.pages j).valid = (s.pages j).valid ∧ (s'.pages j).key = (s.pages j).key := by
    intro j
    by_cases hj : j = i
    · rw [hj,hself]
      exact ⟨rfl,rfl⟩
    · rw [hother j hj]
      exact ⟨rfl,rfl⟩
  have hold : ∀ j, (s'.pages j).valid = true → s'.pages j = s.pages j := by
    intro j hj
    refine hother j ?_
    rintro rfl
    rw [(hsame j).1,hi] at hj
    cases hj
  refine (and_iff_right_of_imp fun hlay => ?_).mpr ?_
  · refine h.of_fewer hold hmem hstored ⟨_,_,_,hlay⟩ (fun k hk => ?_) ?_ (fun j => ?_)
    · obtain ⟨hlt,rfl,hd,hf⟩ := hhand k hk
      rw [hself]
      refine ⟨hlt,hi,hd,fun j hj hjv => ?_⟩
      have hj' := hold j hjv
      rw [hj'] at hjv ⊢
      exact hf j hj hjv
    · rw [hcount,h.count]
      exact congrArg Finset.card (Finset.filter_congr fun j _ => by rw [(hsame j).1])
    · rw [hdirty,h.dirty j]
      by_cases hji : j = i
      · rw [hji,(hsame i).1,hi,Bool.false_and,Bool.false_and]
      · rw [hother j hji]
  · refine ⟨hc,hn,fun j => ?_,?_,hl.hash_nodup,fun b j => ?_,?_,hl.inode_nodup,fun b j => ?_⟩
    · rw [(hsame j).1]
      exact hm j
    · rw [hhb,hhn]
      exact hl.hash_chain
    · rw [(hsame j).1,(hsame j).2]
      exact hl.hash_mem b j
    · rw [hih,hin]
      exact hl.inode_chain
    · rw [(hsame j).1,(hsame j).2]
      exact hl.inode_mem b j

lemma Cache.release (h : Cache (some i) s) (hl : Layout (some i) s free hash inode) :
    let t := {s.setPage i {s.pages i with phys := 0} with
      lruNext := update s.lruNext i s.freeHead
      freeHead := some i}
    Cache none t ∧ Layout none t (i::free) hash inode := by
  obtain ⟨hlt,hi,-,-⟩ := h.hand i rfl
  have hfree : i ∉ free := fun hmem => ((hl.free_mem i).mp hmem).2.2 rfl
  refine h.rehand hl hi rfl rfl (hl.free_chain.push hfree) (nodup_cons.mpr ⟨hfree,hl.free_nodup⟩)
    (fun j => ?_) (fun k hk => by cases hk)
  rw [mem_cons,hl.free_mem]
  by_cases hj : j = i
  · simp [hj,hlt,hi]
  · simp [hj,Ne.symm hj]

lemma Cache.removePage (h : Cache none s)
    (hl : Layout none s free hash inode) (hi : (s.pages i).valid = true) :
    ∃ s', removePage s i = some s' ∧ Cache none s' ∧
      Layout none s' (i::free) (fun b => (hash b).erase i) (fun j => (inode j).erase i) := by
  obtain ⟨t,ht,hcache,-,hlay⟩ := h.detach hl hi
  obtain ⟨hcache',hlay'⟩ := hcache.release hlay
  refine ⟨_,?_,hcache',hlay'⟩
  rw [PageCache.removePage,hi,ht]
  rfl

variable {phys : ℕ}

lemma Cache.takeFree (h : Cache none s) (hi : s.freeHead = some i)
    (hf : FreeFrame s phys) : Cache (some i) (takeFree s i phys) := by
  obtain ⟨free,hash,inode,hl⟩ := h.layout
  have hchain := hl.free_chain
  rw [hi] at hchain
  rcases free with _ | ⟨k,rest⟩
  · cases hchain
  obtain ⟨hk,hrest⟩ := hchain
  cases Option.some.inj hk
  have hn := nodup_cons.mp hl.free_nodup
  obtain ⟨hlt,hv,-⟩ := (hl.free_mem i).mp mem_cons_self
  refine And.left (b := Layout (some i) (PageCache.takeFree s i phys) rest hash inode)
    (h.rehand hl hv rfl rfl hrest hn.2 (fun j => ?_) ?_)
  · have hmem := hl.free_mem j
    rw [mem_cons] at hmem
    by_cases hj : j = i
    · simp [hj,hn.1]
    · simpa [hj,Ne.symm hj] using hmem
  · rintro j ⟨⟩
    exact ⟨hlt,rfl,rfl,hf⟩

lemma Cache.reframe (h : Cache (some i) s) (hf : FreeFrame s phys) :
    Cache (some i) (s.setPage i {s.pages i with phys := phys, data := phys}) := by
  obtain ⟨free,hash,inode,hl⟩ := h.layout
  obtain ⟨hlt,hv,-,-⟩ := h.hand i rfl
  refine (h.rehand hl hv rfl rfl hl.free_chain hl.free_nodup hl.free_mem ?_).1
  rintro j ⟨⟩
  exact ⟨hlt,rfl,rfl,hf⟩

variable {lists : ℕ → List ℕ} {b : ℕ}

lemma mem_push_family {P : ℕ → ℕ → Prop}
    (hm : ∀ c j, j ≠ i → (j ∈ lists c ↔ P c j)) (hi : ∀ c, i ∉ lists c) (hP : ∀ c, P c i ↔ b = c)
    (c j : ℕ) : j ∈ update lists b (i::lists b) c ↔ P c j := by
  by_cases hj : j = i
  · rw [hj,hP]
    by_cases hc : c = b
    · rw [hc,update_self]
      simp
    · rw [update_of_ne hc]
      simp [hi c,Ne.symm hc]
  · rw [← hm c j hj]
    by_cases hc : c = b
    · rw [hc,update_self]
      simp [hj]
    · rw [update_of_ne hc]

lemma nodup_push_family (hn : ∀ c, (lists c).Nodup)
    (hi : ∀ c, i ∉ lists c) (c : ℕ) : (update lists b (i::lists b) c).Nodup := by
  by_cases hc : c = b
  · rw [hc,update_self]
    exact nodup_cons.mpr ⟨hi b,hn b⟩
  · rw [update_of_ne hc]
    exact hn c

structure Installed (s s' : State) (i : ℕ) (key : CacheKey) (dirty : Bool) : Prop where
  other : ∀ j, j ≠ i → s'.pages j = s.pages j
  self : s'.pages i = { s.pages i with key := key, valid := true, dirty := dirty, referenced := true }
  hashNext : s'.hashNext = update s.hashNext i (s.hashBuckets (hashKey key))
  hashBuckets : s'.hashBuckets = update s.hashBuckets (hashKey key) (some i)
  inodeNext : s'.inodeNext =
    update s.inodeNext i (s.inodeListHeads (inodeListSlot key.inodeId))
  inodeListHeads : s'.inodeListHeads =
    update s.inodeListHeads (inodeListSlot key.inodeId) (some i)
  lruNext : s'.lruNext = s.lruNext
  freeHead : s'.freeHead = s.freeHead
  count : s'.pageCount = s.pageCount+1
  dirtyBm : s'.dirtyBm = update s.dirtyBm i dirty

variable {key : CacheKey} {dirty : Bool}

lemma Layout.install (h : Layout (some i) s free hash inode) (hlt : i < maxPages)
    (hv : (s.pages i).valid = false) (hs : Installed s s' i key dirty) : Layout none s' free
      (update hash (hashKey key) (i::hash (hashKey key)))
      (update inode (inodeListSlot key.inodeId) (i::inode (inodeListSlot key.inodeId))) := by
  have hih : ∀ c, i ∉ hash c := fun c hmem => by
    have := ((h.hash_mem c i).mp hmem).2.1
    rw [hv] at this
    cases this
  have hii : ∀ c, i ∉ inode c := fun c hmem => by
    have := ((h.inode_mem c i).mp hmem).2.1
    rw [hv] at this
    cases this
  refine ⟨?_,h.free_nodup,?_,?_,nodup_push_family h.hash_nodup hih,mem_push_family ?_ hih ?_,?_,
    nodup_push_family h.inode_nodup hii,mem_push_family ?_ hii ?_⟩
  · rw [hs.lruNext,hs.freeHead]
    exact h.free_chain
  · intro j
    rw [h.free_mem]
    by_cases hj : j = i
    · simp [hj,hs.self]
    · simp [hs.other j hj,Ne.symm hj]
  · intro b
    rw [hs.hashNext,hs.hashBuckets]
    exact push_family h.hash_chain hih b
  · intro c j hj
    rw [hs.other j hj]
    exact h.hash_mem c j
  · intro c
    simp [hs.self,hlt]
  · intro b
    rw [hs.inodeNext,hs.inodeListHeads]
    exact push_family h.inode_chain hii b
  · intro c j hj
    rw [hs.other j hj]
    exact h.inode_mem c j
  · intro c
    simp [hs.self,hlt]

lemma validSlots_set (hi : (s.pages i).valid = false) (hlt : i < maxPages)
    (hother : ∀ j, j ≠ i → s'.pages j = s.pages j) (hself : (s'.pages i).valid = true) :
    (validSlots s').card = (validSlots s).card+1 := by
  have hinsert : validSlots s' = insert i (validSlots s) := by
    ext j
    rw [Finset.mem_insert,validSlots,validSlots,Finset.mem_filter,Finset.mem_filter]
    by_cases hj : j = i
    · simp [hj,hself,hlt]
    · simp [hj,hother j hj]
  have hmem : i ∉ validSlots s := by
    rw [validSlots,Finset.mem_filter,hi]
    simp
  rw [hinsert,Finset.card_insert_of_notMem hmem]

lemma Cache.of_installed (h : Cache (some i) s) (hs : Installed s s' i key dirty)
    (hnew : ∀ j, (s.pages j).valid = true → (s.pages j).key ≠ key)
    (hmem : s'.memory = s.memory) (hstored : s'.stored = s.stored)
    (hbytes : s.stored key = s.memory (s.pages i).data) : Cache none s' := by
  obtain ⟨free,hash,inode,hl⟩ := h.layout
  obtain ⟨hlt,hv,hdata,hfree⟩ := h.hand i rfl
  have hself : (s'.pages i).valid = true := by rw [hs.self]
  -- Facts about pairs of slots: the new slot differs from every old one.
  have hpair : ∀ {β : Type} (f : CachedPage → β), (∀ j k, (s.pages j).valid = true →
      (s.pages k).valid = true → f (s.pages j) = f (s.pages k) → j = k) →
      (∀ j, (s.pages j).valid = true → f (s.pages j) ≠ f (s'.pages i)) →
      ∀ j k, (s'.pages j).valid = true → (s'.pages k).valid = true →
      f (s'.pages j) = f (s'.pages k) → j = k := by
    intro β f hinj hdiff j k hj hk hf
    by_cases hji : j = i
    · by_cases hki : k = i
      · rw [hji,hki]
      · rw [hs.other k hki] at hk hf
        exact absurd (hji ▸ hf).symm (hdiff k hk)
    rw [hs.other j hji] at hj hf
    by_cases hki : k = i
    · exact absurd (hki ▸ hf) (hdiff j hj)
    · rw [hs.other k hki] at hk hf
      exact hinj j k hj hk hf
  refine ⟨⟨_,_,_,hl.install hlt hv hs⟩,?_,(fun k hk => by cases hk),?_,?_,?_,?_,?_,?_⟩
  · intro j hj
    by_cases hji : j = i
    · exact hji ▸ hlt
    · rw [hs.other j hji] at hj
      exact h.inRange j hj
  · refine hpair CachedPage.key h.keys (fun j hj => ?_)
    rw [hs.self]
    exact hnew j hj
  · rw [hs.count,h.count,validSlots_set hv hlt hs.other hself]
  · intro j
    rw [hs.dirtyBm]
    by_cases hji : j = i
    · rw [hji,update_self,hs.self]
      rfl
    · rw [update_of_ne hji,hs.other j hji]
      exact h.dirty j
  · refine hpair CachedPage.phys h.frames (fun j hj => ?_)
    rw [hs.self]
    exact hfree j (h.inRange j hj) hj
  · intro j hj
    by_cases hji : j = i
    · rw [hji,hs.self]
      exact hdata
    · rw [hs.other j hji] at hj ⊢
      exact h.data j hj
  · intro j hj
    rw [hstored,hmem]
    by_cases hji : j = i
    · rw [hji,hs.self]
      exact hbytes
    · rw [hs.other j hji] at hj ⊢
      exact h.stored j hj

lemma Cache.store (h : Cache (some i) s)
    (hnew : ∀ j, (s.pages j).valid = true → (s.pages j).key ≠ key) (bytes : Bytes) :
    Cache (some i) (store s i key bytes) := by
  obtain ⟨-,-,hdata,hfree⟩ := h.hand i rfl
  refine h.soft (.of_eq rfl) h.dirty (fun j hj => ?_)
  have hd : (s.pages j).data ≠ (s.pages i).data := by
    rw [h.data j hj,hdata]
    exact hfree j (h.inRange j hj) hj
  dsimp only [PageCache.store]
  rw [update_of_ne (hnew j hj),update_of_ne hd]
  exact h.stored j hj

end MoQiOS.PageCache
