import MoQiOS.PageCacheEffects
import MoQiOS.Runs

/-!
# Runs of the page cache

The invariant from `init` on, and what lookups and evictions can rely on.
-/

namespace MoQiOS.PageCache
open Chains Runs List
set_option maxRecDepth 9000

lemma chain_range' (n : ℕ) (m k : ℕ) (h : k+m = n) :
    Chain (fun i => if i+1 < n then some (i+1) else none) (if k < n then some k else none)
      (List.range' k m) := by
  induction m generalizing k with
  | zero =>
    rw [if_neg (by omega)]
    rfl
  | succ m ih =>
    rw [if_pos (by omega),range'_succ]
    exact ⟨rfl,ih (k+1) (by omega)⟩

lemma start_cache (memory : ℕ → Bytes) : Cache none (start memory) := by
  refine ⟨⟨List.range maxPages,fun _ => [],fun _ => [],?_⟩,?_,?_,?_,?_,?_,?_,?_,?_⟩
  · refine ⟨?_,nodup_range,?_,fun _ => rfl,fun _ => nodup_nil,?_,fun _ => rfl,
      fun _ => nodup_nil,?_⟩
    · have hchain := chain_range' maxPages maxPages 0 (by simp)
      rw [range_eq_range']
      exact hchain
    · simp [start]
    · simp [start]
    · simp [start]
  · simp [start]
  · simp
  · simp [start]
  · simp [start,validSlots]
  · simp [start]
  · simp [start]
  · simp [start]
  · simp [start]

def Op.invalidates : Op → Bool
  | .invalidateInode _ | .invalidatePage _ => true
  | _ => false

/-- A page leaves its slot only if it is clean and its frame is not shared. -/
def Spares (refCount : ℕ → ℕ) (s t : State) : Prop :=
  ∀ i, (s.pages i).valid = true →
    ((t.pages i).valid = true ∧ (t.pages i).key = (s.pages i).key) ∨
    (s.dirtyBm i = false ∧ refCount (s.pages i).phys ≤ 1)

variable {t : State} {s : State}

lemma Soft.spares (h : Soft s t) (refCount : ℕ → ℕ) : Spares refCount s t :=
  fun i hi => .inl ⟨(h.valid i).trans hi,h.key i⟩

variable {i : ℕ}

lemma Marked.spares {b : Bool} (h : Marked s t i b) (refCount : ℕ → ℕ) : Spares refCount s t := by
  obtain ⟨referenced,hself⟩ := h.self
  intro j hj
  by_cases hji : j = i
  · subst hji
    rw [hself]
    exact .inl ⟨hj,rfl⟩
  · rw [h.other j hji]
    exact .inl ⟨hj,rfl⟩

variable {refCount : ℕ → ℕ} {key : CacheKey}

lemma Placed.spares {bytes : Bytes}
    {dirty : Bool} (h : Placed refCount s t i key bytes dirty) : Spares refCount s t := by
  intro j hj
  by_cases hji : j = i
  · subst hji
    exact .inr (h.evicted hj)
  · rw [h.other j hji]
    exact .inl ⟨hj,rfl⟩

lemma Effect.spares (h : Effect refCount s t) : Spares refCount s t := by
  cases h with
  | quiet hq => exact hq.soft.spares refCount
  | clean i key bytes hp _ _ => exact hp.spares
  | fresh i key src hp _ _ _ => exact hp.spares
  | wrote i src ho => exact ho.marked.spares refCount

def Op.adds : Op → Bool
  | .readPage _ | .copyPage _ _ _ | .getPageFrame _ | .getPageFramePinned _ | .writePage _ _
  | .updateIfCached _ _ | .insertPage _ _ _ | .insertPageOwned _ _ _ | .insertPageOwnedOrGet _ _ _ =>
    true
  | _ => false

section
variable {s : State} (h : Cache none s) {env : Env} {op : Op} (hr : Ready env s op)
include h hr

lemma Cache.effect (ha : op.adds = true) :
    ∃ t, step env s op = some t ∧ Cache none t ∧ Effect env.refCount s t := by
  have hlook : ∀ {β : Type} (key : CacheKey) (hit : CachedPage → β), ∃ t,
      (PageCache.lookup s key hit).map Prod.fst = some t ∧ Cache none t ∧
        Effect env.refCount s t := by
    intro β key hit
    obtain ⟨t,r,ht,hq,-⟩ := h.lookup key hit
    exact ⟨t,by rw [ht]; rfl,h.quiet hq,.quiet hq⟩
  cases op with
  | readPage key => exact hlook key _
  | copyPage key pageOff len => exact hlook key _
  | getPageFrame key => exact hlook key _
  | getPageFramePinned key => exact hlook key _
  | writePage key src =>
    obtain ⟨t,r,ht,hc,he⟩ := h.writePage hr key src
    exact ⟨t,by rw [PageCache.step,ht]; rfl,hc,he⟩
  | updateIfCached key src =>
    obtain ⟨t,r,ht,hc,he⟩ := h.updateIfCached env key src
    exact ⟨t,by rw [PageCache.step,ht]; rfl,hc,he⟩
  | insertPage key data dataLen =>
    obtain ⟨t,r,ht,hc,he⟩ := h.insertWith (allocSlot_spec env h hr.2) key (fun _ => fill data dataLen)
      (fun p => some p.data) none (fun p => some p.data)
    exact ⟨t,by rw [PageCache.step,insertPage,ht]; rfl,hc,he⟩
  | insertPageOwned key phys dataLen =>
    obtain ⟨t,r,ht,hc,he⟩ := h.insertWith (allocSlotOwned_spec env h hr.2) key
      (fun s => fill (s.memory phys) dataLen) (fun _ => none) none (fun p => some p.data)
    exact ⟨t,by rw [PageCache.step,insertPageOwned,ht]; rfl,hc,he⟩
  | insertPageOwnedOrGet key phys dataLen =>
    obtain ⟨t,r,ht,hc,he⟩ := h.insertWith (allocSlotOwned_spec env h hr.2) key
      (fun s => fill (s.memory phys) dataLen) (fun p => OwnedInsertResult.existing p.phys) .full
      (fun _ => .inserted phys)
    exact ⟨t,by rw [PageCache.step,insertPageOwnedOrGet,ht]; rfl,hc,he⟩
  | _ => cases ha

lemma Cache.step : ∃ t, step env s op = some t ∧ Cache none t ∧
    (op.invalidates = false → Spares env.refCount s t) := by
  rcases hadds : op.adds with _ | _
  · cases op with
    | markDirty key =>
      obtain ⟨t,ht,hc,hm⟩ := h.markDirty key
      refine ⟨t,ht,hc,fun _ => ?_⟩
      rcases hm with rfl | ⟨i,-,hm⟩
      · exact Soft.spares (.of_eq rfl) _
      · exact hm.spares _
    | invalidateInode inodeId =>
      obtain ⟨t,ht,hc⟩ := h.invalidateInode inodeId
      exact ⟨t,ht,hc,fun hi => by cases hi⟩
    | invalidatePage key =>
      obtain ⟨t,ht,hc⟩ := h.invalidatePage key
      exact ⟨t,ht,hc,fun hi => by cases hi⟩
    | flushInode f inodeId =>
      exact ⟨_,rfl,h.setFlusher f _,fun _ => Soft.spares (.of_eq rfl) _⟩
    | flushInodeRange f inodeId first count =>
      refine ⟨_,rfl,?_⟩
      rw [flushInodeRange]
      split_ifs
      · exact ⟨h.endFlush f _,fun _ => Soft.spares (.of_eq rfl) _⟩
      · exact ⟨h.setFlusher f _,fun _ => Soft.spares (.of_eq rfl) _⟩
    | flushAll f =>
      exact ⟨_,rfl,h.setFlusher f _,fun _ => Soft.spares (.of_eq rfl) _⟩
    | flushStep f =>
      obtain ⟨t,ht,hc,hs⟩ := h.flushStep env f
      exact ⟨t,ht,hc,fun _ => hs.spares _⟩
    | _ => cases hadds
  · obtain ⟨t,ht,hc,he⟩ := h.effect hr hadds
    exact ⟨t,ht,hc,fun _ => he.spares⟩

end

def perform (s : State) (c : Env×Op) : State := (step c.1 s c.2).getD s

def Next : State → Env×Op → State → Prop :=
  Guarded (fun s c => Ready c.1 s c.2 ∧ (step c.1 s c.2).isSome = true) perform

lemma Cache.next (h : Cache none s) {c : Env×Op} (hn : Next s c t) : Cache none t := by
  obtain ⟨⟨hr,-⟩,rfl⟩ := hn
  obtain ⟨t,ht,hc,-⟩ := h.step hr
  rw [perform,ht]
  exact hc

/-- Slots are in the free list or in both of their chains, keys, frames, the
count and the dirty marks agree; lookups return what was stored last, and every
operation ends without evicting a page that is dirty or shared. -/
structure CacheSafe (s : State) : Prop where
  layout : ∃ free hash inode, Layout none s free hash inode
  keys : ∀ i j, (s.pages i).valid = true → (s.pages j).valid = true →
    (s.pages i).key = (s.pages j).key → i = j
  count : s.pageCount = (validSlots s).card
  dirty : ∀ i, s.dirtyBm i = ((s.pages i).valid && (s.pages i).dirty)
  frames : ∀ i j, (s.pages i).valid = true → (s.pages j).valid = true →
    (s.pages i).phys = (s.pages j).phys → i = j
  copies : ∀ key pageOff len t bytes, copyPage s key pageOff len = some (t,some bytes) →
    bytes = ((s.stored key).drop pageOff).take len
  reads : ∀ key t frame, (readPage s key = some (t,some frame) ∨
    getPageFrame s key = some (t,some frame) ∨ getPageFramePinned s key = some (t,some frame)) →
    s.memory frame = s.stored key
  ends : ∀ env op, Ready env s op → ∃ t, step env s op = some t ∧
    (op.invalidates = false → Spares env.refCount s t)

lemma Cache.hit (h : Cache none s) {β : Type}
    {f : CachedPage → β} {x : β} (hl : PageCache.lookup s key f = some (t,some x)) :
    ∃ p : CachedPage, x = f p ∧ s.memory p.data = s.stored key ∧ p.data = p.phys := by
  obtain ⟨u,r,hu,-,hr⟩ := h.lookup key f
  rw [hu] at hl
  cases hl
  obtain ⟨i,hv,rfl,rfl⟩ := hr x rfl
  exact ⟨s.pages i,rfl,(h.stored i hv).symm,h.data i hv⟩

lemma Cache.safe (h : Cache none s) : CacheSafe s := by
  refine ⟨h.layout,h.keys,h.count,h.dirty,h.frames,?_,?_,?_⟩
  · intro key pageOff len t bytes hcopy
    obtain ⟨p,rfl,hmem,-⟩ := h.hit hcopy
    rw [hmem]
  · rintro key t frame (hread | hread | hread)
    · obtain ⟨p,rfl,hmem,-⟩ := h.hit hread
      exact hmem
    · obtain ⟨p,rfl,hmem,hdata⟩ := h.hit hread
      rw [← hdata]
      exact hmem
    · obtain ⟨p,rfl,hmem,hdata⟩ := h.hit hread
      rw [← hdata]
      exact hmem
  · intro env op hr
    obtain ⟨t,ht,-,hs⟩ := h.step hr
    exact ⟨t,ht,hs⟩

instance decidableFreeFrame (s : State) (phys : ℕ) : Decidable (FreeFrame s phys) :=
  inferInstanceAs (Decidable (∀ i, i < maxPages → (s.pages i).valid = true → (s.pages i).phys ≠ phys))

instance decidableAlloc (env : Env) (s : State) :
    Decidable (∀ phys, env.allocPage = some phys → FreeFrame s phys) :=
  match h : env.allocPage with
  | none => .isTrue (by simp)
  | some phys => decidable_of_iff (FreeFrame s phys) (by simp)

instance decidableReady (env : Env) (s : State) (op : Op) : Decidable (Ready env s op) := by
  cases op <;> dsimp only [Ready] <;> infer_instance

def writeFlushRemove : List (Env×Op) :=
  let env : Env := ⟨some 4096,fun _ => 1,true⟩
  [(env,.writePage ⟨3,0⟩ [1,2,3]),({ env with allocPage := some 8192 },.insertPage ⟨4,1⟩ [5] 1),
    (env,.flushInode 0 3),(env,.flushStep 0),(env,.flushStep 0),(env,.flushStep 0),
    (env,.invalidateInode 3)]

end MoQiOS.PageCache
