import MoQiOS.PageCacheSteps

/-!
# Effects of the operations

Every operation ends, keeps the invariant and has one of a few effects on the
pages: it leaves them alone, puts one page in, overwrites one, or marks one.
-/

namespace MoQiOS.PageCache
open Chains Function List

structure Marked (s s' : State) (i : ℕ) (dirty : Bool) : Prop where
  self : ∃ referenced, s'.pages i = { s.pages i with dirty := dirty, referenced := referenced }
  other : ∀ j, j ≠ i → s'.pages j = s.pages j
  dirtyBm : s'.dirtyBm = update s.dirtyBm i dirty

variable {s' : State} {i : ℕ}

lemma Marked.soft {s : State} {dirty : Bool} (h : Marked s s' i dirty)
    (hx : s'.index = s.index) : Soft s s' := by
  obtain ⟨referenced,hself⟩ := h.self
  refine ⟨?_,?_,?_,?_,hx⟩
  all_goals
    intro j
    by_cases hj : j = i
    · rw [hj,hself]
    · rw [h.other j hj]

lemma Marked.dirty_agrees {out : Option ℕ} {s : State} {dirty : Bool}
    (h : Marked s s' i dirty) (hc : Cache out s) (hi : (s.pages i).valid = true) (j : ℕ) :
    s'.dirtyBm j = ((s'.pages j).valid && (s'.pages j).dirty) := by
  obtain ⟨referenced,hself⟩ := h.self
  rw [h.dirtyBm]
  by_cases hj : j = i
  · rw [hj,update_self,hself,hi]
    rfl
  · rw [update_of_ne hj,h.other j hj]
    exact hc.dirty j

structure Overwritten (s s' : State) (i : ℕ) (src : Bytes) : Prop where
  valid : (s.pages i).valid = true
  marked : Marked s s' i true
  bytes : s'.memory (s.pages i).data = src
  kept : ∀ j, j ≠ i → (s.pages j).valid = true →
    s'.memory (s.pages j).data = s.memory (s.pages j).data
  version : s'.version = update s.version i (s.writes+1)
  writes : s'.writes = s.writes+1
  newest : s'.newest = update s.newest (s.pages i).key (some (s.writes+1,src))
  flushers : s'.flushers = s.flushers
  device : s'.device = s.device

lemma marked_setPage (s : State) (i : ℕ) (p : CachedPage) (b : Bool)
    (hp : p = {s.pages i with dirty := b, referenced := p.referenced})
    (hpages : s'.pages = (s.setPage i p).pages) (hbm : s'.dirtyBm = update s.dirtyBm i b) :
    Marked s s' i b := by
  refine ⟨⟨p.referenced,?_⟩,fun j hj => ?_,hbm⟩
  · rw [hpages,setPage_self]
    exact hp
  · rw [hpages,setPage_of_ne s p hj]

lemma takeSnapshot_marked (s : State) (f : ℕ) (mode : FlushMode) (flushed i : ℕ) :
    Marked s (takeSnapshot s f mode flushed i) i false :=
  marked_setPage s i {s.pages i with dirty := false, referenced := true} false rfl rfl rfl

lemma Cache.overwrite {s : State} (h : Cache none s) {key : CacheKey}
    (hi : (s.pages i).valid = true) (hk : (s.pages i).key = key) (src : Bytes) :
    Cache none (overwrite s i key src) ∧ Overwritten s (overwrite s i key src) i src := by
  subst hk
  have hm : Marked s (PageCache.overwrite s i (s.pages i).key src) i true :=
    marked_setPage s i {s.pages i with dirty := true, referenced := true} true rfl rfl rfl
  have hdata : ∀ j, j ≠ i → (s.pages j).valid = true → (s.pages j).data ≠ (s.pages i).data := by
    intro j hj hv hd
    rw [h.data j hv,h.data i hi] at hd
    exact hj (h.frames j i hv hi hd)
  have hkept : ∀ j, j ≠ i → (s.pages j).valid = true →
      update s.memory (s.pages i).data src (s.pages j).data = s.memory (s.pages j).data :=
    fun j hj hv => update_of_ne (hdata j hj hv) _ _
  refine ⟨h.soft (hm.soft rfl) (hm.dirty_agrees h hi) (fun j hj => ?_),
    hi,hm,update_self _ _ _,hkept,rfl,rfl,rfl,rfl,rfl⟩
  show update s.stored (s.pages i).key src (s.pages j).key =
    update s.memory (s.pages i).data src (s.pages j).data
  by_cases hji : j = i
  · rw [hji,update_self,update_self]
  have hkey : (s.pages j).key ≠ (s.pages i).key := fun heq => hji (h.keys j i hj hi heq)
  rw [hkept j hji hj,update_of_ne hkey]
  exact h.stored j hj

/-- What an operation that adds or overwrites pages may do. -/
inductive Effect (refCount : ℕ → ℕ) (s s' : State) : Prop
  | quiet (hq : Quiet s s')
  | clean (i : ℕ) (key : CacheKey) (bytes : Bytes) (hp : Placed refCount s s' i key bytes false)
      (hn : s'.newest = s.newest) (hw : s'.writes = s.writes)
  | fresh (i : ℕ) (key : CacheKey) (src : Bytes) (hp : Placed refCount s s' i key src true)
      (hv : s'.version i = s.writes+1) (hw : s'.writes = s.writes+1)
      (hn : s'.newest = update s.newest key (some (s.writes+1,src)))
  | wrote (i : ℕ) (src : Bytes) (ho : Overwritten s s' i src)

section
variable {env : Env} {s : State} (h : Cache none s)
include h

variable (key : CacheKey)

lemma Cache.lookup {β : Type} (hit : CachedPage → β) :
    ∃ t r, lookup s key hit = some (t,r) ∧ Quiet s t ∧ ∀ x, r = some x →
      ∃ i, (s.pages i).valid = true ∧ (s.pages i).key = key ∧ x = hit (s.pages i) := by
  rw [PageCache.lookup]
  rcases h.find key with ⟨i,hf,hv,hk⟩ | ⟨hf,-⟩
  · rw [hf]
    refine ⟨_,_,rfl,quiet_referenced s i true,?_⟩
    rintro x ⟨⟩
    exact ⟨i,hv,hk,rfl⟩
  · rw [hf]
    exact ⟨_,_,rfl,.refl s,fun x hx => by cases hx⟩

lemma Cache.writePage (hf : ∀ phys, env.allocPage = some phys → FreeFrame s phys) (key : CacheKey)
    (src : Bytes) :
    ∃ t r, writePage env s key src = some (t,r) ∧ Cache none t ∧ Effect env.refCount s t := by
  rw [PageCache.writePage]
  rcases h.find key with ⟨i,hfind,hv,hk⟩ | ⟨hfind,hfresh⟩
  · rw [hfind]
    obtain ⟨hc,ho⟩ := h.overwrite hv hk src
    exact ⟨_,_,rfl,hc,.wrote i src ho⟩
  rw [hfind]
  rcases allocSlot_spec env h hf with ⟨t,ht,hq⟩ | ⟨t,i,ht,hc,hvac⟩
  · dsimp only
    rw [ht]
    exact ⟨_,_,rfl,h.quiet hq,.quiet hq⟩
  dsimp only
  rw [ht]
  obtain ⟨hc',hp⟩ := writeNew_spec hvac hc hfresh src
  refine ⟨_,_,rfl,hc',.fresh i key src hp ?_ ?_ ?_⟩
  · rw [← hvac.still.writes]
    exact update_self _ _ _
  · rw [← hvac.still.writes]
    rfl
  · rw [← hvac.still.writes,← hvac.still.newest]
    rfl

variable (env) in
lemma Cache.updateIfCached (src : Bytes) :
    ∃ t r, updateIfCached s key src = some (t,r) ∧ Cache none t ∧ Effect env.refCount s t := by
  rw [PageCache.updateIfCached]
  rcases h.find key with ⟨i,hfind,hv,hk⟩ | ⟨hfind,-⟩
  · rw [hfind]
    obtain ⟨hc,ho⟩ := h.overwrite hv hk src
    exact ⟨_,_,rfl,hc,.wrote i src ho⟩
  · rw [hfind]
    exact ⟨_,_,rfl,h,.quiet (.refl s)⟩

lemma Cache.insertWith {β : Type} {refCount : ℕ → ℕ} {alloc : Option (State×Option ℕ)}
    (ha : (∃ t, alloc = some (t,none) ∧ Quiet s t) ∨
      ∃ t i, alloc = some (t,some i) ∧ Cache (some i) t ∧ Vacated refCount s t i)
    (key : CacheKey) (bytes : State → Bytes) (existing : CachedPage → β) (full : β)
    (inserted : CachedPage → β) :
    ∃ t r, insertWith s key alloc bytes existing full inserted = some (t,r) ∧ Cache none t ∧
      Effect refCount s t := by
  simp only [PageCache.insertWith]
  rcases h.find key with ⟨i,hfind,-,-⟩ | ⟨hfind,hfresh⟩
  · rw [hfind]
    have hq := quiet_referenced s i true
    exact ⟨_,_,rfl,h.quiet hq,.quiet hq⟩
  rw [hfind]
  rcases ha with ⟨t,rfl,hq⟩ | ⟨t,i,rfl,hc,hvac⟩
  · exact ⟨_,_,rfl,h.quiet hq,.quiet hq⟩
  · obtain ⟨hc',hp⟩ := insertClean_spec hvac hc hfresh (bytes t)
    exact ⟨_,_,rfl,hc',.clean i key (bytes t) hp hvac.still.newest hvac.still.writes⟩

lemma Cache.marked {b : Bool} (hi : (s.pages i).valid = true)
    (hm : Marked s s' i b) (hs : Soft s s') (hmem : s'.memory = s.memory)
    (hst : s'.stored = s.stored) : Cache none s' := by
  refine h.soft hs (hm.dirty_agrees h hi) (fun j hj => ?_)
  rw [hst,hmem]
  exact h.stored j hj

lemma Cache.markDirty : ∃ t, markDirty s key = some t ∧ Cache none t ∧
    (t = s ∨ ∃ i, (s.pages i).valid = true ∧ Marked s t i true) := by
  rw [PageCache.markDirty]
  rcases h.find key with ⟨i,hfind,hv,-⟩ | ⟨hfind,-⟩
  · rw [hfind]
    have hm : Marked s ((s.setPage i {s.pages i with dirty := true}).dirtySet i) i true :=
      marked_setPage s i {s.pages i with dirty := true} true rfl rfl rfl
    exact ⟨_,rfl,h.marked hv hm (hm.soft rfl) rfl rfl,.inr ⟨i,hv,hm⟩⟩
  · rw [hfind]
    exact ⟨s,rfl,h,.inl rfl⟩

lemma Cache.select (mode : FlushMode) : ∃ o, select s mode = some o ∧
    ∀ i, o = some i → (s.pages i).valid = true ∧ (s.pages i).dirty = true := by
  obtain ⟨free,hash,inode,hl⟩ := h.layout
  cases mode with
  | inode inodeId =>
    refine ⟨_,search_chain _ (hl.inode_chain _) (hl.inode_length _),fun i hi => ?_⟩
    have hp := find?_some hi
    simp only [Bool.and_eq_true] at hp
    exact hp.1
  | range inodeId first last =>
    refine ⟨_,search_chain _ (hl.inode_chain _) (hl.inode_length _),fun i hi => ?_⟩
    have hp := find?_some hi
    simp only [Bool.and_eq_true] at hp
    exact hp.1.1.1
  | all =>
    refine ⟨_,rfl,fun i hi => ?_⟩
    have hp := find?_some hi
    simp only [Bool.and_eq_true] at hp
    exact ⟨hp.1.2,hp.2⟩

variable (f : ℕ)

lemma Cache.takeSnapshot (mode : FlushMode) (flushed : ℕ)
    (hi : (s.pages i).valid = true) : Cache none (takeSnapshot s f mode flushed i) := by
  have hm := takeSnapshot_marked s f mode flushed i
  exact h.marked hi hm (hm.soft rfl) rfl rfl

lemma Cache.restore (snap : Snapshot) : Cache none (restore s snap) ∧ Soft s (restore s snap) := by
  rw [PageCache.restore]
  split_ifs with hh
  · rw [holds,Bool.and_eq_true] at hh
    have hm : Marked s ((s.setPage snap.slot {s.pages snap.slot with dirty := true}).dirtySet
        snap.slot) snap.slot true :=
      marked_setPage s snap.slot {s.pages snap.slot with dirty := true} true rfl rfl rfl
    have hs := hm.soft rfl
    exact ⟨h.marked hh.1 hm hs rfl rfl,hs⟩
  · exact ⟨h,.of_eq rfl⟩

lemma Cache.outside (hs : Soft s s') (hp : s'.pages = s.pages)
    (hd : s'.dirtyBm = s.dirtyBm) (hmem : s'.memory = s.memory) (hst : s'.stored = s.stored) :
    Cache none s' := by
  refine h.soft hs (fun i => ?_) (fun i hi => ?_)
  · rw [hd,hp]
    exact h.dirty i
  · rw [hst,hmem]
    exact h.stored i hi

lemma Cache.setFlusher (x : Flusher) : Cache none (s.setFlusher f x) :=
  h.outside (.of_eq rfl) rfl rfl rfl rfl

lemma Cache.endFlush (r : FlushResult) : Cache none (s.endFlush f r) :=
  h.outside (.of_eq rfl) rfl rfl rfl rfl

variable (env) in
lemma Cache.flushStep : ∃ t, flushStep env s f = some t ∧ Cache none t ∧ Soft s t := by
  rw [PageCache.flushStep]
  split
  · exact ⟨s,rfl,h,.of_eq rfl⟩
  · rename_i mode flushed _
    obtain ⟨o,ho,hsel⟩ := h.select mode
    rw [ho]
    cases o with
    | none => exact ⟨_,rfl,h.endFlush f _,.of_eq rfl⟩
    | some i =>
      exact ⟨_,rfl,h.takeSnapshot f mode flushed (hsel i rfl).1,
        (takeSnapshot_marked s f mode flushed i).soft rfl⟩
  · refine ⟨_,rfl,?_⟩
    split_ifs
    · exact ⟨h.outside (.of_eq rfl) rfl rfl rfl rfl, .of_eq rfl⟩
    · exact ⟨h.setFlusher f _,.of_eq rfl⟩
  · exact ⟨_,rfl,h.setFlusher f _,.of_eq rfl⟩
  · rename_i snap _
    obtain ⟨hc,hs⟩ := h.restore snap
    exact ⟨_,rfl,hc.endFlush f _,hs.trans (.of_eq rfl)⟩

variable (inodeId : UInt64)

lemma Cache.invalidateLoop {fuel j : ℕ} (passed : List ℕ) {rest : List ℕ}
    {free : List ℕ} {hash inode : ℕ → List ℕ} (hl : Layout none s free hash inode)
    (hj : inode j = passed++rest) (hlen : rest.length ≤ fuel) :
    ∃ t, invalidateLoop inodeId fuel rest.head? s = some t ∧ Cache none t := by
  induction rest generalizing s fuel passed free hash inode with
  | nil => exact ⟨s,by cases fuel <;> rfl,h⟩
  | cons i rest ih =>
    obtain ⟨fuel,rfl⟩ : ∃ k, fuel = k+1 := ⟨fuel-1,by simp at hlen; omega⟩
    have hlen' : rest.length ≤ fuel := by simpa using hlen
    have hchain := hl.inode_chain j
    rw [hj] at hchain
    have hnext : s.inodeNext i = rest.head? := hchain.suffix.2.head_eq
    have hi := ((hl.inode_mem j i).mp (by rw [hj]; simp)).2.1
    rw [head?_cons,PageCache.invalidateLoop,hnext]
    split_ifs
    · obtain ⟨t,ht,hc,hl'⟩ := h.removePage hl hi
      rw [ht]
      refine ih hc passed hl' ?_ hlen'
      have hnot : i ∉ passed := fun hmem => by
        have hn := hl.inode_nodup j
        rw [hj] at hn
        exact disjoint_of_nodup_append hn hmem mem_cons_self
      rw [hj,erase_append_right _ hnot,erase_cons_head]
    · exact ih h (passed++[i]) hl (by rw [hj]; simp) hlen'

lemma Cache.invalidateInode : ∃ t, invalidateInode s inodeId = some t ∧ Cache none t := by
  obtain ⟨free,hash,inode,hl⟩ := h.layout
  rw [PageCache.invalidateInode,(hl.inode_chain _).head_eq]
  exact h.invalidateLoop inodeId [] hl rfl (hl.inode_length _)

lemma Cache.invalidatePage : ∃ t, invalidatePage s key = some t ∧ Cache none t := by
  rw [PageCache.invalidatePage]
  rcases h.find key with ⟨i,hfind,hv,-⟩ | ⟨hfind,-⟩
  · rw [hfind]
    dsimp only
    split_ifs
    · obtain ⟨free,hash,inode,hl⟩ := h.layout
      obtain ⟨t,ht,hc,-⟩ := h.removePage hl hv
      exact ⟨t,ht,hc⟩
    · exact ⟨s,rfl,h⟩
  · rw [hfind]
    exact ⟨s,rfl,h⟩

end

end MoQiOS.PageCache
