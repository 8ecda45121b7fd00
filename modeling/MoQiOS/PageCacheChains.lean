import MoQiOS.PageCache

/-!
# The chains of the page cache

Each valid slot is on its hash chain and its inode list, each other slot is on
the free list, except for the one slot that an operation has in hand.
-/

namespace MoQiOS.PageCache
open Chains

structure Layout (out : Option ℕ) (s : State) (free : List ℕ) (hash inode : ℕ → List ℕ) : Prop where
  free_chain : Chain s.lruNext s.freeHead free
  free_nodup : free.Nodup
  free_mem : ∀ i, i ∈ free ↔ i < maxPages ∧ (s.pages i).valid = false ∧ out ≠ some i
  hash_chain : ∀ b, Chain s.hashNext (s.hashBuckets b) (hash b)
  hash_nodup : ∀ b, (hash b).Nodup
  hash_mem : ∀ b i, i ∈ hash b ↔
    i < maxPages ∧ (s.pages i).valid = true ∧ hashKey (s.pages i).key = b
  inode_chain : ∀ j, Chain s.inodeNext (s.inodeListHeads j) (inode j)
  inode_nodup : ∀ j, (inode j).Nodup
  inode_mem : ∀ j i, i ∈ inode j ↔
    i < maxPages ∧ (s.pages i).valid = true ∧ inodeListSlot (s.pages i).key.inodeId = j

def validSlots (s : State) : Finset ℕ :=
  (Finset.range maxPages).filter (fun i => (s.pages i).valid = true)

/-- The invariant, with at most one slot `out` that is in no structure. -/
structure Cache (out : Option ℕ) (s : State) : Prop where
  layout : ∃ free hash inode, Layout out s free hash inode
  inRange : ∀ i, (s.pages i).valid = true → i < maxPages
  hand : ∀ i, out = some i → i < maxPages ∧ (s.pages i).valid = false ∧
    (s.pages i).data = (s.pages i).phys ∧ FreeFrame s (s.pages i).phys
  keys : ∀ i j, (s.pages i).valid = true → (s.pages j).valid = true →
    (s.pages i).key = (s.pages j).key → i = j
  count : s.pageCount = (validSlots s).card
  dirty : ∀ i, s.dirtyBm i = ((s.pages i).valid && (s.pages i).dirty)
  frames : ∀ i j, (s.pages i).valid = true → (s.pages j).valid = true →
    (s.pages i).phys = (s.pages j).phys → i = j
  data : ∀ i, (s.pages i).valid = true → (s.pages i).data = (s.pages i).phys
  stored : ∀ i, (s.pages i).valid = true → s.stored (s.pages i).key = s.memory (s.pages i).data

lemma length_le_of_lt {l : List ℕ} {n : ℕ} (hn : l.Nodup) (h : ∀ a ∈ l, a < n) : l.length ≤ n := by
  have hsub : l.Subperm (List.range n) :=
    List.subperm_of_subset hn (fun a ha => List.mem_range.mpr (h a ha))
  simpa using hsub.length_le

section
variable {out : Option ℕ} {s : State} {free : List ℕ} {hash inode : ℕ → List ℕ}

lemma Layout.hash_length (h : Layout out s free hash inode) (b : ℕ) : (hash b).length ≤ maxPages :=
  length_le_of_lt (h.hash_nodup b) (fun i hi => ((h.hash_mem b i).mp hi).1)

lemma Layout.inode_length (h : Layout out s free hash inode) (j : ℕ) :
    (inode j).length ≤ maxPages :=
  length_le_of_lt (h.inode_nodup j) (fun i hi => ((h.inode_mem j i).mp hi).1)

lemma Cache.find (h : Cache out s) (key : CacheKey) :
    (∃ i, find s key = some (some i) ∧ (s.pages i).valid = true ∧ (s.pages i).key = key) ∨
    (find s key = some none ∧ ∀ i, (s.pages i).valid = true → (s.pages i).key ≠ key) := by
  obtain ⟨free,hash,inode,hl⟩ := h.layout
  rw [PageCache.find,search_chain (holds s key) (hl.hash_chain _) (hl.hash_length _)]
  rcases hf : (hash (hashKey key)).find? (holds s key) with _ | i
  · refine .inr ⟨rfl,fun i hi hk => ?_⟩
    have hmem : i ∈ hash (hashKey key) := (hl.hash_mem _ i).mpr ⟨h.inRange i hi,hi,by rw [hk]⟩
    have hno := List.find?_eq_none.mp hf i hmem
    simp [holds,hi,hk] at hno
  · have hi := List.find?_some hf
    rw [holds,Bool.and_eq_true,decide_eq_true_eq] at hi
    exact .inl ⟨i,rfl,hi.1,hi.2⟩

end

def State.index (s : State) :=
  (s.pageCount,s.hashBuckets,s.inodeListHeads,s.hashNext,s.inodeNext,s.lruNext,s.freeHead)

/-- Slots keep what they hold; dirty marks, reference marks and bytes may change. -/
structure Soft (s s' : State) : Prop where
  valid : ∀ i, (s'.pages i).valid = (s.pages i).valid
  key : ∀ i, (s'.pages i).key = (s.pages i).key
  phys : ∀ i, (s'.pages i).phys = (s.pages i).phys
  data : ∀ i, (s'.pages i).data = (s.pages i).data
  index : s'.index = s.index

variable {s s' : State}

lemma Soft.of_eq (h : (s'.pages,s'.index) = (s.pages,s.index)) : Soft s s' := by
  obtain ⟨hp,hx⟩ := Prod.mk.injEq .. ▸ h
  exact ⟨fun _ => by rw [hp],fun _ => by rw [hp],fun _ => by rw [hp],fun _ => by rw [hp],hx⟩

lemma Soft.trans {s t u : State} (h : Soft s t) (h' : Soft t u) : Soft s u :=
  ⟨fun i => (h'.valid i).trans (h.valid i),fun i => (h'.key i).trans (h.key i),
    fun i => (h'.phys i).trans (h.phys i),fun i => (h'.data i).trans (h.data i),
    h'.index.trans h.index⟩

@[simp] lemma setPage_self (s : State) (i : ℕ) (p : CachedPage) : (s.setPage i p).pages i = p := by
  simp [State.setPage]

lemma setPage_of_ne (s : State) {i j : ℕ} (p : CachedPage) (h : j ≠ i) :
    (s.setPage i p).pages j = s.pages j := by
  simp [State.setPage,h]

lemma Soft.setPage {s : State} {i : ℕ} {p : CachedPage} (hv : p.valid = (s.pages i).valid)
    (hk : p.key = (s.pages i).key) (hp : p.phys = (s.pages i).phys)
    (hd : p.data = (s.pages i).data) : Soft s (s.setPage i p) := by
  refine ⟨?_,?_,?_,?_,rfl⟩
  all_goals
    intro j
    by_cases hj : j = i
    · subst hj
      rw [setPage_self]
      assumption
    · rw [setPage_of_ne s p hj]

lemma Layout.soft {out : Option ℕ} {free : List ℕ} {hash inode : ℕ → List ℕ}
    (h : Layout out s free hash inode) (hs : Soft s s') : Layout out s' free hash inode := by
  have hx := hs.index
  simp only [State.index,Prod.mk.injEq] at hx
  obtain ⟨-,hhb,hih,hhn,hin,hl,hf⟩ := hx
  refine ⟨?_,h.free_nodup,?_,?_,h.hash_nodup,?_,?_,h.inode_nodup,?_⟩
  · rw [hl,hf]
    exact h.free_chain
  · intro i
    rw [hs.valid]
    exact h.free_mem i
  · rw [hhn,hhb]
    exact h.hash_chain
  · intro b i
    rw [hs.valid,hs.key]
    exact h.hash_mem b i
  · rw [hin,hih]
    exact h.inode_chain
  · intro j i
    rw [hs.valid,hs.key]
    exact h.inode_mem j i

lemma Cache.soft {out : Option ℕ} (h : Cache out s) (hs : Soft s s')
    (hdirty : ∀ i, s'.dirtyBm i = ((s'.pages i).valid && (s'.pages i).dirty))
    (hstored : ∀ i, (s.pages i).valid = true →
      s'.stored (s.pages i).key = s'.memory (s.pages i).data) : Cache out s' := by
  obtain ⟨free,hash,inode,hl⟩ := h.layout
  refine ⟨⟨free,hash,inode,hl.soft hs⟩,?_,?_,?_,?_,hdirty,?_,?_,?_⟩
  · intro i hi
    exact h.inRange i (hs.valid i ▸ hi)
  · intro i hi
    obtain ⟨hlt,hv,hd,hf⟩ := h.hand i hi
    rw [hs.valid,hs.data,hs.phys]
    refine ⟨hlt,hv,hd,fun j hj hjv => ?_⟩
    rw [hs.phys]
    exact hf j hj (hs.valid j ▸ hjv)
  · intro i j hi hj hk
    rw [hs.key,hs.key] at hk
    exact h.keys i j (hs.valid i ▸ hi) (hs.valid j ▸ hj) hk
  · have hc : s'.pageCount = s.pageCount := congrArg Prod.fst hs.index
    rw [hc,h.count,validSlots,validSlots]
    simp only [hs.valid]
  · intro i j hi hj hp
    rw [hs.phys,hs.phys] at hp
    exact h.frames i j (hs.valid i ▸ hi) (hs.valid j ▸ hj) hp
  · intro i hi
    rw [hs.data,hs.phys]
    exact h.data i (hs.valid i ▸ hi)
  · intro i hi
    rw [hs.key,hs.data]
    exact hstored i (hs.valid i ▸ hi)

end MoQiOS.PageCache
