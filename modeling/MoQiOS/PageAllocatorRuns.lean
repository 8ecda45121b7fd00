import MoQiOS.PageAllocatorSearch
import MoQiOS.PageAllocatorBoot

/-!
# Whole runs of the page allocator

Calls are the public entry points. A permitted call drops only references its
caller holds, each at most as often as it is held, and shares only live
frames. Frames that an allocation's own reclaim swaps out count as dropped by
that call, before its second search.
-/

namespace MoQiOS.PageAllocator
open WordBits Runs List Option
set_option maxRecDepth 9000

inductive Call where
  | allocPage (r : Reclaim)
  | allocPageNoReclaim
  | allocContiguousAligned (r : Reclaim) (count alignPages : ℕ)
  | freePage (addr : ℕ)
  | freePageBatch (addrs : List ℕ)
  | freeContiguous (phys count : ℕ)
  | reservePage (phys : ℕ)
  | addRef (addr : ℕ)
  | addRefBatch (addrs : List ℕ)
  | decRef (addr : ℕ)
  | decRefNoFree (addr : ℕ)
  | setReclaimFloor (pages : ℕ)

variable (x86 : Bool)

def perform (s : Pmm) : Call → Option (Option (ℕ × ℕ) × Pmm)
  | .allocPage r => some ((allocPage x86 r s).1.map (·, 1), (allocPage x86 r s).2)
  | .allocPageNoReclaim => some ((allocPageLocked s).1.map (·, 1), (allocPageLocked s).2)
  | .allocContiguousAligned r count alignPages =>
    (allocContiguousAligned x86 r s count alignPages).map
      (fun out => (out.1.map (·, count), out.2))
  | .freePage addr => some (none, freePage s addr)
  | .freePageBatch addrs => some (none, freePageBatch s addrs)
  | .freeContiguous phys count => some (none, freeContiguous s phys count)
  | .reservePage phys => some (none, reservePage s phys)
  | .addRef addr => some (none, addRef s addr)
  | .addRefBatch addrs => some (none, addRefBatch s addrs)
  | .decRef addr => some (none, (decRef s addr).2)
  | .decRefNoFree addr => some (none, (decRefNoFree s addr).2)
  | .setReclaimFloor pages => some (none, (setReclaimFloor s pages).2)

def grantedPages (s : Pmm) : Option (ℕ × ℕ) → List ℕ
  | none => []
  | some (addr, count) => (List.range count).map (pageFromPhys s addr+·)

variable (r : Reclaim)

def reclaimed (s : Pmm) : List ℕ :=
  match x86, firstAttempt s, r with
  | true, (none, _), .swapped addrs => addrs
  | _, _, _ => []

def dropped (s : Pmm) : Call → List ℕ
  | .allocPage r => (reclaimed x86 r s).map (pageFromPhys s)
  | .allocContiguousAligned r count _ =>
    if count = 1 then (reclaimed x86 r s).map (pageFromPhys s) else []
  | .freePage addr => [pageFromPhys s addr]
  | .freePageBatch addrs => addrs.map (pageFromPhys s)
  | .freeContiguous phys count => (List.range count).map (pageFromPhys s phys+·)
  | .decRef addr => [pageFromPhys s addr]
  | .decRefNoFree addr => [pageFromPhys s addr]
  | _ => []

def shared (s : Pmm) : Call → List ℕ
  | .addRef addr => [pageFromPhys s addr]
  | .addRefBatch addrs => addrs.map (pageFromPhys s)
  | _ => []

def Held (total : ℕ) : List ℕ → (ℕ → ℕ) → Prop
  | [], _ => True
  | p::ps, holders => (p < total → 0 < holders p) ∧ Held total ps (loss total holders p)

variable (w : World)

def Permitted (call : Call) : Prop :=
  Held w.pmm.totalPages (dropped x86 w.pmm call) w.holders ∧
    ∀ p ∈ shared w.pmm call, 0 < w.pmm.refCounts p

def step (call : Call) : Option (World × List ℕ) :=
  (perform x86 w.pmm call).map (fun out =>
    let left := (dropped x86 w.pmm call).foldl (loss w.pmm.totalPages) w.holders
    let granted := grantedPages w.pmm out.1
    (⟨out.2, (granted ++ shared w.pmm call).foldl gain left⟩, granted))

def Next (call : Call) (w' : World) : Prop :=
  Permitted x86 w call ∧ ∃ granted, step x86 w call = some (w', granted)

/-- The world in which a call's granting search runs: the one before the call,
less the references its own reclaim has dropped. -/
def beforeGrant (call : Call) : World :=
  match call with
  | .allocPage r => afterReclaim r
  | .allocContiguousAligned r count _ => if count = 1 then afterReclaim r else w
  | _ => w
where
  afterReclaim (r : Reclaim) : World :=
    let pages := (reclaimed x86 r w.pmm).map (pageFromPhys w.pmm)
    ⟨pages.foldl freeAt w.pmm, pages.foldl (loss w.pmm.totalPages) w.holders⟩

structure SameLayout (s t : Pmm) : Prop where
  total : t.totalPages = s.totalPages
  mode : t.arenaMode = s.arenaMode
  base : t.arenaBase = s.arenaBase

lemma SameLayout.page {s t : Pmm} (h : SameLayout s t) (addr : ℕ) :
    pageFromPhys t addr = pageFromPhys s addr := by
  simp only [pageFromPhys,h.total,h.mode,h.base]

lemma SameLayout.trans {s t u : Pmm} (h : SameLayout s t) (h' : SameLayout t u) :
    SameLayout s u :=
  ⟨h'.total.trans h.total,h'.mode.trans h.mode,h'.base.trans h.base⟩

lemma page_of_phys (s : Pmm) (page : ℕ) : pageFromPhys s (physFromPage s page) = page := by
  unfold pageFromPhys physFromPage pageSize
  split_ifs <;> omega

lemma dropRef_layout (s : Pmm) (page : ℕ) : SameLayout s (dropRefLocked s page) := by
  by_cases hs : s.refCounts page = refSaturated
  · rw [dropRefLocked,if_pos hs]
    exact ⟨rfl,rfl,rfl⟩
  rw [dropRefLocked,if_neg hs]
  by_cases hz : (setRef s page (s.refCounts page-1)).refCounts page = 0
  · simp only [if_pos hz]
    exact ⟨rfl,rfl,rfl⟩
  · simp only [if_neg hz]
    exact ⟨rfl,rfl,rfl⟩

lemma freeAt_layout (s : Pmm) (page : ℕ) : SameLayout s (freeAt s page) := by
  unfold freeAt
  split_ifs
  · exact ⟨rfl,rfl,rfl⟩
  · exact ⟨rfl,rfl,rfl⟩
  · exact dropRef_layout s page

lemma freeAll_layout (s : Pmm) (pages : List ℕ) : SameLayout s (pages.foldl freeAt s) := by
  induction pages generalizing s with
  | nil => exact ⟨rfl,rfl,rfl⟩
  | cons p ps ih => exact (freeAt_layout s p).trans (ih (freeAt s p))

lemma freePageBatch_pages (s t : Pmm) (h : SameLayout s t) (addrs : List ℕ) :
    freePageBatch t addrs = (addrs.map (pageFromPhys s)).foldl freeAt t := by
  induction addrs generalizing t with
  | nil => rfl
  | cons a as ih =>
    simp only [freePageBatch,foldl_cons,map_cons]
    rw [freePage,h.page]
    exact ih _ (h.trans (freeAt_layout t _))

lemma freeContiguous_pages (s : Pmm) (phys count : ℕ) : freeContiguous s phys count =
      ((List.range count).map (pageFromPhys s phys+·)).foldl freeAt s := by
  unfold freeContiguous
  split_ifs with h0 h1
  · simp [h0]
  · simp [h1,freePage]
  · rw [foldl_map]

section
variable {s : Pmm} {holders : ℕ → ℕ}

lemma loss_outside (total page : ℕ) (h : total ≤ page) : loss total holders page = holders := by
  funext p
  rw [loss,if_neg (by omega)]

variable (h : Inv s holders)
include h

lemma freeAt_inv (page : ℕ) (hh : page < s.totalPages → 0 < holders page) :
    Inv (freeAt s page) (loss s.totalPages holders page) := by
  unfold freeAt
  split_ifs with ht hr
  · rw [loss_outside _ _ ht]
    exact h
  · have hp := hh (by omega)
    rcases h.ref_holders page with hs | hs
    · rw [hr] at hs
      exact absurd hs (by decide)
    · omega
  · exact drop_inv h page (by omega) hr

lemma freeAll_inv (pages : List ℕ) (hh : Held s.totalPages pages holders) :
    Inv (pages.foldl freeAt s) (pages.foldl (loss s.totalPages) holders) := by
  induction pages generalizing s holders with
  | nil => exact h
  | cons p ps ih =>
    have hl := (freeAt_layout s p).total
    have hi := freeAt_inv h p hh.1
    simp only [foldl_cons]
    have hrest := ih hi (by rw [hl]; exact hh.2)
    rw [hl] at hrest
    exact hrest

omit h

lemma addRef_layout (s : Pmm) (addr : ℕ) : SameLayout s (addRef s addr) := by
  unfold addRef
  simp only
  split_ifs <;> exact ⟨rfl,rfl,rfl⟩

lemma addRef_inv (h : Inv s holders) (addr : ℕ) (hl : 0 < s.refCounts (pageFromPhys s addr)) :
    Inv (addRef s addr) (gain holders (pageFromPhys s addr)) := by
  have hlt : pageFromPhys s addr < s.totalPages := by
    by_contra hge
    have := h.managed _ (Nat.le_of_not_lt hge)
    omega
  simp only [addRef,hlt,if_true]
  exact raise_inv h _ hl

lemma addRef_live (s : Pmm) (addr p : ℕ) (h : 0 < s.refCounts p) :
    0 < (addRef s addr).refCounts p := by
  unfold addRef
  simp only
  split_ifs
  · simp only [setRef]
    split_ifs
    · simp [refSaturated]
    · exact h
  · exact h

include h

lemma addRefBatch_inv (addrs : List ℕ)
    (hl : ∀ a ∈ addrs, 0 < s.refCounts (pageFromPhys s a)) :
    Inv (addRefBatch s addrs) ((addrs.map (pageFromPhys s)).foldl gain holders) := by
  induction addrs generalizing s holders with
  | nil => exact h
  | cons a as ih =>
    have hlay := addRef_layout s a
    have hi := addRef_inv h a (hl a (by simp))
    have hrest := ih hi (fun b hb => by
      rw [hlay.page]
      exact addRef_live s a _ (hl b (by simp [hb])))
    have hmap : as.map (pageFromPhys (addRef s a)) = as.map (pageFromPhys s) :=
      map_congr_left (fun b _ => hlay.page b)
    rw [hmap] at hrest
    exact hrest

lemma lower_at (page : ℕ) (hp : page < s.totalPages) :
    Inv (if 0 < s.refCounts page ∧ s.refCounts page ≠ refSaturated
      then setRef s page (s.refCounts page-1) else s) (loss s.totalPages holders page) := by
  split_ifs with hc
  · exact lower_inv h page hp hc.2
  by_cases hs : s.refCounts page = refSaturated
  · exact pinned_inv h page hs
  have hz : s.refCounts page = 0 := by
    by_contra hne
    exact hc ⟨Nat.pos_of_ne_zero hne,hs⟩
  have hl := lower_inv h page hp hs
  have he : setRef s page (s.refCounts page-1) = s := by
    have hf : (fun p => if p = page then s.refCounts page-1 else s.refCounts p) = s.refCounts := by
      funext p
      split_ifs with hpp
      · rw [hpp,hz]
      · rfl
    rw [setRef,hf]
  rw [he] at hl
  exact hl

lemma decRef_inv (addr : ℕ) :
    Inv (decRef s addr).2 (loss s.totalPages holders (pageFromPhys s addr)) := by
  unfold decRef
  simp only
  by_cases ht : s.totalPages ≤ pageFromPhys s addr
  · rw [if_pos ht,loss_outside _ _ ht]
    exact h
  · rw [if_neg ht]
    exact lower_at h _ (by omega)

lemma decRefNoFree_inv (addr : ℕ) :
    Inv (decRefNoFree s addr).2 (loss s.totalPages holders (pageFromPhys s addr)) := by
  have hd := decRef_inv h addr
  unfold decRef at hd
  unfold decRefNoFree
  simp only at hd ⊢
  by_cases ht : s.totalPages ≤ pageFromPhys s addr
  · rw [if_pos ht] at hd
    rw [if_pos (.inl ht)]
    exact hd
  rw [if_neg ht] at hd
  by_cases hz : s.refCounts (pageFromPhys s addr) = 0
  · rw [if_pos (.inr hz)]
    simpa [hz] using hd
  rw [if_neg (by tauto)]
  have hpos := Nat.pos_of_ne_zero hz
  simpa [hpos] using hd

lemma floor_inv (pages : ℕ) : Inv {s with reclaimFloorPages := pages} holders :=
  ⟨⟨h.bits_lt,h.size,h.free_count⟩,h.free_ref,h.managed,h.ref_le,h.ref_holders,h.low,h.hint,
    h.aligned⟩

omit h

/-- What a search may do: leave the references alone and return nothing, or
hand out free frames with one reference each. -/
structure Grants (s : Pmm) (holders : ℕ → ℕ) (out : Option (ℕ × ℕ)) (s' : Pmm) : Prop where
  free : ∀ p ∈ grantedPages s out, Free s holders p
  nodup : (grantedPages s out).Nodup
  inv : Inv s' ((grantedPages s out).foldl gain holders)

lemma granted_run (s : Pmm) (start count : ℕ) :
    grantedPages s (some (physFromPage s start, count)) = (List.range count).map (start+·) := by
  simp [grantedPages,page_of_phys]

lemma gain_range (holders : ℕ → ℕ) (start count : ℕ) :
    ((List.range count).map (start+·)).foldl gain holders = gainRun holders start count := by
  induction count with
  | zero =>
    funext p
    rw [gainRun,if_neg (by omega)]
    rfl
  | succ n ih =>
    rw [range_succ,map_append,foldl_append,ih]
    funext p
    simp only [map_cons,map_nil,foldl_cons,foldl_nil,gain,gainRun]
    split_ifs <;> omega

include h

lemma run_grants (start count : ℕ) (hm : s.minAllocPage ≤ start)
    (hb : ∀ p, start ≤ p → p < start+count → isBitSet s p = true) :
    Grants s holders (some (physFromPage s start, count)) {grantRun s start count with
      freePages := s.freePages-count, nextFreeHint := start+count} := by
  have hg := granted_run s start count
  refine ⟨?_,?_,?_⟩
  · intro p hp
    rw [hg] at hp
    obtain ⟨j,hj,rfl⟩ := mem_map.mp hp
    exact free_of_bit h (hb _ (by omega) (by have := mem_range.mp hj; omega))
  · rw [hg]
    exact List.Nodup.map (fun i j hij => by simpa using hij) nodup_range
  · rw [hg,gain_range]
    exact run_inv h start count hm hb

lemma allocPageLocked_grants :
    Grants s holders ((allocPageLocked s).1.map (·, 1)) (allocPageLocked s).2 := by
  rcases allocPageLocked_cases h with ⟨_,hn⟩ | ⟨page,hb,hm,hf⟩
  · rw [hn]
    exact ⟨by simp [grantedPages],by simp [grantedPages],hint_inv h⟩
  rw [hf]
  exact run_grants h page 1 hm (fun p hl hr => by rwa [show p = page by omega])

/-- No page of the whole words of the bitmap is left to an allocation. -/
def Spent (s : Pmm) : Prop :=
  ∀ p, s.minAllocPage ≤ p → p < 64*(s.bitmapSize/8) → isBitSet s p = false

lemma allocPageLocked_spent (hn : (allocPageLocked s).1 = none) :
    Spent (allocPageLocked s).2 := by
  rcases allocPageLocked_cases h with ⟨hz,he⟩ | ⟨page,_,_,hf⟩
  · rw [he]
    exact hz
  · rw [hf] at hn
    cases hn

lemma searchRun_grants (count alignment limit start : ℕ) (run : ℕ×Pmm)
    (hm : s.minAllocPage ≤ start) (hs : searchRun s count alignment limit start = some (some run)) :
    Grants s holders (some (physFromPage s run.1, count)) run.2 := by
  obtain ⟨hge,he,hb⟩ := searchRun_run count alignment limit start run hs
  rw [congrArg Prod.snd he]
  exact run_grants h run.1 count (by omega) hb

omit h

lemma no_grant (s' : Pmm) (h' : Inv s' holders) : Grants s holders none s' :=
  ⟨by simp [grantedPages],by simp [grantedPages],h'⟩

variable (hint : ℕ) (pages : List ℕ)

/-- Only the hint moves when a search fails, so what the next one may grant is
decided by the frames that were free before the first. -/
lemma hint_irrelevant (p : ℕ) : isBitSet (pages.foldl freeAt {s with nextFreeHint := hint}) p =
      isBitSet (pages.foldl freeAt s) p ∧
    (pages.foldl freeAt {s with nextFreeHint := hint}).refCounts =
      (pages.foldl freeAt s).refCounts := by
  have hone : ∀ (t : Pmm) (n q : ℕ), ∃ m,
      freeAt {t with nextFreeHint := n} q = {freeAt t q with nextFreeHint := m} := by
    intro t n q
    unfold freeAt
    by_cases ht : t.totalPages ≤ q
    · exact ⟨n,by simp [ht]⟩
    by_cases hr : t.refCounts q = 0
    · exact ⟨n,by simp [hr]⟩
    rw [if_neg ht,if_neg hr,if_neg ht,if_neg hr]
    by_cases hs : t.refCounts q = refSaturated
    · exact ⟨n,by simp [dropRefLocked,hs]⟩
    by_cases hz : t.refCounts q-1 = 0
    · exact ⟨_,by simp [dropRefLocked,hs,setRef,setBit,hz]; rfl⟩
    · exact ⟨n,by simp [dropRefLocked,hs,setRef,hz]⟩
  induction pages generalizing s hint with
  | nil => exact ⟨rfl,rfl⟩
  | cons q qs ih =>
    obtain ⟨m,hm⟩ := hone s hint q
    simp only [foldl_cons,hm]
    exact ih m

lemma granted_layout {t : Pmm} (h : SameLayout s t) (out : Option (ℕ×ℕ)) :
    grantedPages t out = grantedPages s out := by
  cases out with
  | none => rfl
  | some run => simp only [grantedPages,h.page]

lemma grants_hint (out : Option (ℕ×ℕ)) (s' : Pmm)
    (h : Grants (pages.foldl freeAt {s with nextFreeHint := hint}) holders out s') :
    Grants (pages.foldl freeAt s) holders out s' := by
  have hl : SameLayout (pages.foldl freeAt s) (pages.foldl freeAt {s with nextFreeHint := hint}) := by
    have ha := freeAll_layout s pages
    have hb := freeAll_layout {s with nextFreeHint := hint} pages
    exact ⟨hb.total.trans ha.total.symm,hb.mode.trans ha.mode.symm,hb.base.trans ha.base.symm⟩
  have hg := granted_layout hl out
  refine ⟨?_,hg ▸ h.nodup,hg ▸ h.inv⟩
  intro p hp
  obtain ⟨hbit,href⟩ := hint_irrelevant (s := s) hint pages p
  have hf := h.free p (hg ▸ hp)
  rw [Free,hbit,href] at hf
  exact hf

include h

/-- An allocation ends with a search over the bitmap as its own reclaim left
it, unless the floor has stopped it on a machine without reclaim. -/
lemma allocPage_searches : (x86 = false ∧ floorTriggered s = true ∧ reclaimed x86 r s = [] ∧
      allocPage x86 r s = (none, s)) ∨
    ∃ hint, Inv {s with nextFreeHint := hint} holders ∧ allocPage x86 r s =
      allocPageLocked (((reclaimed x86 r s).map (pageFromPhys s)).foldl freeAt
        {s with nextFreeHint := hint}) := by
  cases hq : floorTriggered s with
  | true =>
    have hf : firstAttempt s = (none, s) := if_pos hq
    cases x86 with
    | false => exact .inl ⟨rfl,rfl,rfl,by simp [allocPage,hf]⟩
    | true =>
      refine .inr ⟨s.nextFreeHint,h,?_⟩
      cases r with
      | unavailable => simp [allocPage,reclaimed,hf,hq]
      | swapped addrs =>
        simp only [allocPage,reclaimed,hf,if_true]
        rw [freePageBatch_pages s s ⟨rfl,rfl,rfl⟩]
  | false =>
    have hf : firstAttempt s = allocPageLocked s := if_neg (by simp [hq])
    refine .inr ?_
    rcases allocPageLocked_cases h with ⟨_,hn⟩ | ⟨page,_,_,hp⟩
    · rw [hn] at hf
      cases x86 with
      | false => exact ⟨s.nextFreeHint,h,by simp [allocPage,reclaimed,hf,hn]⟩
      | true =>
        cases r with
        | unavailable => exact ⟨s.nextFreeHint,h,by simp [allocPage,reclaimed,hf,hn,hq]⟩
        | swapped addrs =>
          refine ⟨s.minAllocPage,hint_inv h,?_⟩
          simp only [allocPage,reclaimed,hf,if_true]
          rw [freePageBatch_pages s {s with nextFreeHint := s.minAllocPage} ⟨rfl,rfl,rfl⟩]
    · rw [hp] at hf
      refine ⟨s.nextFreeHint,h,?_⟩
      simp only [allocPage,reclaimed,hf]
      cases x86 <;> cases r <;> exact hp.symm

lemma allocPage_grants
    (hh : Held s.totalPages ((reclaimed x86 r s).map (pageFromPhys s)) holders) :
    Grants (((reclaimed x86 r s).map (pageFromPhys s)).foldl freeAt s)
      (((reclaimed x86 r s).map (pageFromPhys s)).foldl (loss s.totalPages) holders)
      ((allocPage x86 r s).1.map (·, 1)) (allocPage x86 r s).2 := by
  rcases allocPage_searches x86 r h with ⟨_,_,hr,ha⟩ | ⟨hint,hi,ha⟩
  · rw [hr,ha]
    exact no_grant _ h
  · rw [ha]
    exact grants_hint hint _ _ _ (allocPageLocked_grants (freeAll_inv hi _ hh))

lemma allocPage_spent
    (hh : Held s.totalPages ((reclaimed x86 r s).map (pageFromPhys s)) holders)
    (hfloor : floorTriggered s = true → x86 = true) (hn : (allocPage x86 r s).1 = none) :
    Spent (allocPage x86 r s).2 := by
  rcases allocPage_searches x86 r h with ⟨hx,hq,_,_⟩ | ⟨hint,hi,ha⟩
  · cases hx.symm.trans (hfloor hq)
  · rw [ha] at hn ⊢
    exact allocPageLocked_spent (freeAll_inv hi _ hh) hn

omit h

lemma allocContiguous_grants (count alignPages : ℕ) (h : Inv s holders)
    (hc : count ≠ 1) (out : Option ℕ×Pmm)
    (ho : allocContiguousAligned x86 r s count alignPages = some out) :
    Grants s holders (out.1.map (·, count)) out.2 := by
  unfold allocContiguousAligned at ho
  rw [if_neg hc] at ho
  by_cases h0 : count = 0
  · rw [if_pos h0] at ho
    rw [← some.inj ho]
    exact no_grant _ h
  rw [if_neg h0] at ho
  simp only at ho
  have hfirst : s.minAllocPage ≤ (if s.minAllocPage ≤ s.nextFreeHint ∧
      s.nextFreeHint+count ≤ s.totalPages then s.nextFreeHint else s.minAllocPage) := by
    split_ifs with hc'
    · exact hc'.1
    · exact le_refl _
  by_cases hov : s.minAllocPage ≤ s.nextFreeHint ∧ word64 ≤ s.nextFreeHint+count
  · rw [if_pos hov] at ho
    exact absurd ho (by simp)
  rw [if_neg hov] at ho
  split at ho
  · exact absurd ho (by simp)
  · next run hs =>
    rw [← some.inj ho]
    exact searchRun_grants h _ _ _ _ run hfirst hs
  split at ho
  · exact absurd ho (by simp)
  · next run hs =>
    rw [← some.inj ho]
    exact searchRun_grants h _ _ _ _ run le_rfl hs
  · rw [← some.inj ho]
    exact no_grant _ h

end

/-- What a call leaves: the invariant, and distinct frames that were free. -/
def Served (w : World) (call : Call) (w' : World) (granted : List ℕ) : Prop :=
  Inv w'.pmm w'.holders ∧ granted.Nodup ∧
    ∀ p ∈ granted, Free (beforeGrant x86 w call).pmm (beforeGrant x86 w call).holders p

section
variable {x86 : Bool} {w w' : World} {call : Call} {granted : List ℕ} {s : Pmm}
  (hs : step x86 w call = some (w', granted))
include hs

lemma step_quiet (hq : perform x86 w.pmm call = some (none, s))
    (hi : Inv s ((shared w.pmm call).foldl gain
      ((dropped x86 w.pmm call).foldl (loss w.pmm.totalPages) w.holders))) :
    Served x86 w call w' granted := by
  rw [step,hq] at hs
  cases hs
  exact ⟨hi,nodup_nil,nofun⟩

lemma step_search {out : Option (ℕ×ℕ)} (hq : perform x86 w.pmm call = some (out, s))
    (hn : shared w.pmm call = []) (hl : SameLayout w.pmm (beforeGrant x86 w call).pmm)
    (hd : (dropped x86 w.pmm call).foldl (loss w.pmm.totalPages) w.holders =
      (beforeGrant x86 w call).holders)
    (hg : Grants (beforeGrant x86 w call).pmm (beforeGrant x86 w call).holders out s) :
    Served x86 w call w' granted := by
  rw [step,hq] at hs
  cases hs
  have hsame := granted_layout hl out
  refine ⟨?_,hsame ▸ hg.nodup,fun p hp => hg.free p (hsame ▸ hp)⟩
  simp only [hn,append_nil,hd]
  exact hsame ▸ hg.inv

end

lemma step_grants (w w' : World) (call : Call) (granted : List ℕ)
    (h : Inv w.pmm w.holders) (hp : Permitted x86 w call)
    (hs : step x86 w call = some (w', granted)) : Served x86 w call w' granted := by
  obtain ⟨hheld,hlive⟩ := hp
  cases call with
  | allocPage r => exact step_search hs rfl rfl (freeAll_layout _ _) rfl (allocPage_grants x86 r h hheld)
  | allocPageNoReclaim => exact step_search hs rfl rfl ⟨rfl,rfl,rfl⟩ rfl (allocPageLocked_grants h)
  | allocContiguousAligned r count alignPages =>
    by_cases hc : count = 1
    · subst hc
      exact step_search hs rfl rfl (freeAll_layout _ _) rfl (allocPage_grants x86 r h hheld)
    rcases ho : allocContiguousAligned x86 r w.pmm count alignPages with _ | out
    · simp [step,perform,ho] at hs
    have hb : beforeGrant x86 w (.allocContiguousAligned r count alignPages) = w := if_neg hc
    refine step_search hs (congrArg (Option.map _) ho) rfl ?_ ?_ ?_
    · rw [hb]
      exact ⟨rfl,rfl,rfl⟩
    · rw [hb,dropped,if_neg hc]
      rfl
    · rw [hb]
      exact allocContiguous_grants x86 r count alignPages h hc out ho
  | freePage addr => exact step_quiet hs rfl (freeAll_inv h _ hheld)
  | freePageBatch addrs =>
    refine step_quiet hs rfl ?_
    rw [freePageBatch_pages w.pmm w.pmm ⟨rfl,rfl,rfl⟩]
    exact freeAll_inv h _ hheld
  | freeContiguous phys count =>
    refine step_quiet hs rfl ?_
    rw [freeContiguous_pages]
    exact freeAll_inv h _ hheld
  | reservePage phys =>
    refine step_quiet hs rfl ?_
    simp only [reservePage]
    split_ifs
    · exact h
    · exact take_inv h _
  | addRef addr => exact step_quiet hs rfl (addRef_inv h addr (hlive _ (by simp [shared])))
  | addRefBatch addrs =>
    exact step_quiet hs rfl
      (addRefBatch_inv h addrs fun a ha => hlive _ (mem_map.mpr ⟨a,ha,rfl⟩))
  | decRef addr => exact step_quiet hs rfl (decRef_inv h addr)
  | decRefNoFree addr => exact step_quiet hs rfl (decRefNoFree_inv h addr)
  | setReclaimFloor pages => exact step_quiet hs rfl (floor_inv h pages)

lemma run_inv_all {s : Pmm} (hb : Booted s) {w : World}
    (hr : Reaches (Next x86) ⟨s, fun _ => 0⟩ w) : Inv w.pmm w.holders :=
  invariant (I := fun v => Inv v.pmm v.holders)
    (fun v call v' hi hn => by
      obtain ⟨hp,granted,hs⟩ := hn
      exact (step_grants x86 v v' call granted hi hp hs).1)
    hr (booted_inv hb)

/-- Along every permitted run from boot a free frame has no reference, the
counter is the population of the bitmap, a held frame is not free, and a call
hands out distinct frames that were free when its granting search began. -/
theorem reached_frames_safe (x86 : Bool) {s : Pmm} (hb : Booted s) {w : World}
    (hr : Reaches (Next x86) ⟨s, fun _ => 0⟩ w) :
    (∀ p, isBitSet w.pmm p = true → w.pmm.refCounts p = 0) ∧
    w.pmm.freePages = population w.pmm.bitmap (8*w.pmm.bitmapSize) ∧
    (∀ p, 0 < w.holders p → isBitSet w.pmm p = false ∧ 0 < w.pmm.refCounts p) ∧
    ∀ call w' granted, Permitted x86 w call → step x86 w call = some (w', granted) →
      granted.Nodup ∧ ∀ p ∈ granted, isBitSet (beforeGrant x86 w call).pmm p = true ∧
        (beforeGrant x86 w call).pmm.refCounts p = 0 ∧ (beforeGrant x86 w call).holders p = 0 := by
  have hi := run_inv_all x86 hb hr
  refine ⟨hi.free_ref,hi.free_count,?_,?_⟩
  · intro p hp
    have hpos : 0 < w.pmm.refCounts p := by
      rcases hi.ref_holders p with hs | hs
      · rw [hs]
        decide
      · omega
    refine ⟨?_,hpos⟩
    by_contra hbit
    have hz := hi.free_ref p (by simpa using hbit)
    omega
  · intro call w' granted hp hs
    exact (step_grants x86 w w' call granted hi hp hs).2

def smallMap : List MemmapEntry :=
  [⟨0x1000,0xff000,.usable⟩,⟨0x200000,0x1000,.usable⟩,⟨0x201000,0x3f000,.kernelAndModules⟩]

lemma smallMap_ok : MemmapOk smallMap := by
  refine ⟨?_,?_⟩
  · decide
  · decide

lemma smallMap_boots : (init smallMap).isSome = true := by decide

def smallPmm : Pmm := (init smallMap).get smallMap_boots

lemma smallPmm_booted : Booted smallPmm :=
  .limine smallMap smallPmm smallMap_ok (some_get smallMap_boots).symm

def smallWorld : World := ⟨smallPmm, fun _ => 0⟩

lemma first_alloc_runs : (step true smallWorld (.allocPage .unavailable)).isSome = true := rfl

def fullWorld : World := ((step true smallWorld (.allocPage .unavailable)).get first_alloc_runs).1

lemma fullWorld_reached : Reaches (Next true) smallWorld fullWorld := by
  refine (Reaches.start _ _).snoc (c := .allocPage .unavailable) ⟨⟨?_,by simp [shared]⟩,_,
    (some_get first_alloc_runs).symm⟩
  have hr : reclaimed true .unavailable smallWorld.pmm = [] := by simp [reclaimed]
  simp [dropped,hr,Held]

def swapCall : Call := .allocPage (.swapped [0x200000])

-- all that is evaluated about this state
lemma fullWorld_facts : let r := allocPage true .unavailable fullWorld.pmm
    let p := pageFromPhys fullWorld.pmm 0x200000
    (reclaimed true (.swapped [0x200000]) fullWorld.pmm = [0x200000] ∧
        (p < fullWorld.pmm.totalPages → 0 < fullWorld.holders p)) ∧
      (isBitSet fullWorld.pmm 512 = false ∧ fullWorld.holders 512 = 1) ∧
      (r.1 = none ∧ r.2.minAllocPage ≤ 512 ∧ 512 < r.2.totalPages ∧ 512 < 64*(r.2.bitmapSize/8)) ∧
      (step true fullWorld swapCall).any (fun n => decide (512 ∈ n.2)) = true := by
  with_unfolding_all decide

lemma swapCall_permitted : Permitted true fullWorld swapCall := by
  refine ⟨?_,by simp [shared,swapCall]⟩
  simp only [dropped,swapCall,fullWorld_facts.1.1,map_cons,map_nil,Held,and_true]
  exact fullWorld_facts.1.2

/-- Out of memory, an allocation swaps out a frame of its own caller and hands
that frame out: it was held, not free, before the call. -/
theorem reclaim_grants_held_frame :
    ¬∀ (x86 : Bool) (s : Pmm), Booted s → ∀ w, Reaches (Next x86) ⟨s, fun _ => 0⟩ w →
      ∀ call w' granted, Permitted x86 w call → step x86 w call = some (w', granted) →
        ∀ p ∈ granted, isBitSet w.pmm p = true := by
  intro hall
  obtain ⟨⟨w',granted⟩,hs,hmem⟩ := (Option.any_eq_true _ _).mp fullWorld_facts.2.2.2
  have hbit := hall true smallPmm smallPmm_booted fullWorld fullWorld_reached swapCall w' granted
    swapCall_permitted hs 512 (of_decide_eq_true hmem)
  rw [fullWorld_facts.2.1.1] at hbit
  exact Bool.noConfusion hbit

theorem reached_frames_safe_full :
    fullWorld.pmm.freePages = population fullWorld.pmm.bitmap (8*fullWorld.pmm.bitmapSize) ∧
      fullWorld.holders 512 = 1 :=
  ⟨(reached_frames_safe true smallPmm_booted fullWorld_reached).2.1,fullWorld_facts.2.1.2⟩

/-- Memory ends one page past the last whole bitmap word. -/
def tailMap : List MemmapEntry := [⟨0x1000,0xff000,.usable⟩,⟨0x200000,0x1000,.usable⟩]

lemma tailMap_facts : (init tailMap).any (fun s => let r := allocPage true .unavailable s
    decide (r.1 = none ∧ s.minAllocPage ≤ 512 ∧ 512 < s.totalPages ∧ isBitSet r.2 512 = true)) = true := by
  decide

end MoQiOS.PageAllocator
