import MoQiOS.Slab
import MoQiOS.Runs

/-!
# Slab ownership

Of the slots of a class, those in the free list and those outside it, in a
magazine, with a user or in a free that is under way, are together the slots
cut from the pages of the class, each once, and the pool's count is the number
of those outside. Every window of `kmalloc` and `kfree` keeps this whatever
the other processors do, because a batch moves slots between the pool and one
magazine and a magazine has one owner.
-/

namespace MoQiOS.Slab
open SlotTables Runs List Multiset Option Nat

def magSlots (k : ℕ) (m : Mag) : Multiset ℕ := if m.cls = k then (m.slots : Multiset ℕ) else 0

def userSlots (k : ℕ) (u : ℕ × ℕ) : Multiset ℕ := if u.1 = k then {u.2} else 0

def pcSlots (k : ℕ) : Pc → Multiset ℕ
  | .flushing k' a | .pushing k' a => if k' = k then {a} else 0
  | _ => 0

def State.out (s : State) (k : ℕ) : Multiset ℕ :=
  total (magSlots k) s.mags+total (userSlots k) s.users+total (pcSlots k) s.pcs

def pageSlots (k : ℕ) (pg : ℕ × ℕ) : Multiset ℕ := if pg.2 = k then (carve pg.1 k : Multiset ℕ) else 0

def made (k : ℕ) (pages : List (ℕ × ℕ)) : Multiset ℕ := total (pageSlots k) pages

lemma objectSize_pos (k : ℕ) : 0 < objectSize k := by
  unfold objectSize
  omega

variable {a cpu i : ℕ} {s : State} {m : Mag} {u l : ℕ × ℕ} {pc : Pc} {page : ℕ} {k : ℕ}

lemma carve_page (h : a ∈ carve page k) : a/4096 = page := by
  simp only [carve,List.mem_map,List.mem_range] at h
  obtain ⟨i,hi,rfl⟩ := h
  have hs := objectSize_pos k
  have h1 : (i+1)*objectSize k ≤ 4096 := by
    calc (i+1)*objectSize k ≤ 4096/objectSize k*objectSize k := mul_le_mul_right _ hi
      _ ≤ 4096 := div_mul_le_self _ _
  rw [add_mul,one_mul] at h1
  omega

lemma carve_nodup (page k : ℕ) : (carve page k).Nodup := by
  refine List.nodup_range.map ?_
  intro i j hij
  exact eq_of_mul_eq_mul_right (objectSize_pos k) (add_left_cancel hij)

variable {pages : List (ℕ × ℕ)}

lemma mem_made (h : a ∈ made k pages) : (a/4096,k) ∈ pages := by
  obtain ⟨pg,hpg,ha⟩ := mem_total (pageSlots k) h
  unfold pageSlots at ha
  split at ha
  · next hk =>
    rw [carve_page (by simpa using ha),← hk]
    exact hpg
  · exact absurd ha (notMem_zero a)

lemma made_nodup (h : (pages.map Prod.fst).Nodup) : (made k pages).Nodup := by
  induction pages with
  | nil => exact nodup_zero
  | cons pg pages ih =>
    rw [List.map_cons,List.nodup_cons] at h
    have hone : (pageSlots k pg).Nodup := by
      unfold pageSlots
      split
      · exact coe_nodup.mpr (carve_nodup pg.1 k)
      · exact nodup_zero
    refine nodup_add.mpr ⟨hone,ih h.2,?_⟩
    rw [Multiset.disjoint_left]
    intro a ha hm
    have h1 := mem_made hm
    unfold pageSlots at ha
    split at ha
    · rw [carve_page (by simpa using ha)] at h1
      exact h.1 (List.mem_map.mpr ⟨_,h1,rfl⟩)
    · exact notMem_zero a ha

variable {k' : ℕ}

lemma made_class (hd : (pages.map Prod.fst).Nodup)
    (h : a ∈ made k pages) (h' : a ∈ made k' pages) : k = k' :=
  congrArg Prod.snd (List.inj_on_of_nodup_map hd (mem_made h) (mem_made h') rfl)

/-- `rest` are the slots of the class outside the pool and this magazine. -/
structure BatchOk (k : ℕ) (rest : Multiset ℕ) (b : Batch) : Prop where
  share : (b.pool.freeList : Multiset ℕ)+((b.mag.slots : Multiset ℕ)+rest) = made k b.pages
  alloc : b.pool.allocatedCount = Multiset.card ((b.mag.slots : Multiset ℕ)+rest)
  fits : b.mag.slots.length ≤ magSize

/-- What a batch leaves alone: headers at addresses it does not write, other
classes, and the sum of the pages cut and those to come. -/
structure BatchFrame (W : ℕ → Prop) (k : ℕ) (b b' : Batch) : Prop where
  cls : b'.mag.cls = b.mag.cls
  mem : ∀ a, ¬ W a → b'.mem a = b.mem a
  other : ∀ k' ≠ k, made k' b'.pages = made k' b.pages
  pages : (b'.pages.map Prod.fst : Multiset ℕ)+b'.supply = b.pages.map Prod.fst+b.supply

lemma BatchFrame.refl (W : ℕ → Prop) (k : ℕ) (b : Batch) : BatchFrame W k b b :=
  ⟨rfl,fun _ _ => rfl,fun _ _ => rfl,rfl⟩

lemma BatchFrame.trans {W : ℕ → Prop} {b b' b'' : Batch} (h : BatchFrame W k b b')
    (h' : BatchFrame W k b' b'') : BatchFrame W k b b'' :=
  ⟨h'.cls.trans h.cls,fun a ha => (h'.mem a ha).trans (h.mem a ha),
    fun k' hk => (h'.other k' hk).trans (h.other k' hk),h'.pages.trans h.pages⟩

lemma pushNodes (l : List ℕ) (b : Batch) :
    (l.foldl pushNode b).pool = ⟨l.reverse++b.pool.freeList,b.pool.allocatedCount⟩ ∧
    (l.foldl pushNode b).mag = b.mag ∧ (l.foldl pushNode b).pages = b.pages ∧
    ∀ a ∉ l, (l.foldl pushNode b).mem a = b.mem a := by
  induction l generalizing b with
  | nil => exact ⟨rfl,rfl,rfl,fun _ _ => rfl⟩
  | cons x l ih =>
    obtain ⟨h1,h2,h3,h4⟩ := ih (pushNode b x)
    rw [List.foldl_cons]
    refine ⟨by rw [h1]; simp [pushNode],h2,h3,fun a ha => ?_⟩
    rw [List.mem_cons,not_or] at ha
    rw [h4 a ha.2]
    exact if_neg ha.1

section
variable {W : ℕ → Prop} {k : ℕ} {rest : Multiset ℕ} {b : Batch} (h : BatchOk k rest b)
include h

lemma refillPool_ok (hW : ∀ a, a/4096 ∈ b.supply → W a) :
    BatchOk k rest (refillPoolLocked k b) ∧ BatchFrame W k b (refillPoolLocked k b) ∧
      (refillPoolLocked k b).supply ⊆ b.supply := by
  unfold refillPoolLocked
  rcases hs : b.supply with _ | ⟨page,rest'⟩
  · exact ⟨h,BatchFrame.refl W k b,by simp [hs]⟩
  obtain ⟨h1,h2,h3,h4⟩ := pushNodes (carve page k) b
  refine ⟨⟨?_,?_,?_⟩,⟨?_,?_,?_,?_⟩,by simp⟩
  · simp only [h1,h2]
    change _ = pageSlots k (page,k)+made k b.pages
    rw [← h.share,pageSlots,if_pos rfl,← coe_add,coe_reverse]
    abel
  · simp only [h1,h2]
    exact h.alloc
  · simp only [h2]
    exact h.fits
  · simp only [h2]
  · intro a ha
    refine h4 a (fun hc => ha (hW a ?_))
    rw [carve_page hc,hs]
    simp
  · intro k' hk'
    change pageSlots k' (page,k)+made k' b.pages = _
    rw [pageSlots,if_neg (Ne.symm hk'),zero_add]
  · simp only [List.map_cons,hs]
    rw [← cons_coe,← cons_coe,cons_add,add_cons]

lemma refillOne_ok (hW : ∀ a, a/4096 ∈ b.supply → W a) :
    BatchOk k rest (refillOne k b) ∧ BatchFrame W k b (refillOne k b) ∧
      (refillOne k b).supply ⊆ b.supply := by
  unfold refillOne
  by_cases hfull : b.mag.slots.length ≥ magSize
  · rw [if_pos hfull]
    exact ⟨h,BatchFrame.refl W k b,List.Subset.refl _⟩
  rw [if_neg hfull]
  have hfilled : ∃ b₁, (if b.pool.freeList = [] then refillPoolLocked k b else b) = b₁ ∧
      BatchOk k rest b₁ ∧ BatchFrame W k b b₁ ∧ b₁.supply ⊆ b.supply ∧ b₁.mag = b.mag := by
    by_cases he : b.pool.freeList = []
    · rw [if_pos he]
      obtain ⟨h1,h2,h3⟩ := refillPool_ok h hW
      refine ⟨_,rfl,h1,h2,h3,?_⟩
      unfold refillPoolLocked
      cases b.supply with
      | nil => rfl
      | cons page rest' => exact (pushNodes (carve page k) b).2.1
    · rw [if_neg he]
      exact ⟨b,rfl,h,BatchFrame.refl W k b,List.Subset.refl _,rfl⟩
  obtain ⟨b₁,hb₁,hok,hfr,hsup,hmag⟩ := hfilled
  simp only [popFree,hb₁]
  rcases hl : b₁.pool.freeList with _ | ⟨a,l⟩
  · exact ⟨h,BatchFrame.refl W k b,List.Subset.refl _⟩
  refine ⟨⟨?_,?_,?_⟩,⟨hfr.cls,hfr.mem,hfr.other,hfr.pages⟩,hsup⟩
  · have := hok.share
    rw [hl,← cons_coe] at this
    rw [← this,← cons_coe,cons_add,cons_add,add_cons]
  · have := hok.alloc
    simp only [this,← cons_coe,cons_add,card_cons]
  · simp only [length_cons,hmag]
    omega

lemma refill_ok (hW : ∀ a, a/4096 ∈ b.supply → W a) :
    BatchOk k rest (refill k b) ∧ BatchFrame W k b (refill k b) := by
  have hall : ∀ n, BatchOk k rest ((refillOne k)^[n] b) ∧ BatchFrame W k b ((refillOne k)^[n] b) ∧
      ((refillOne k)^[n] b).supply ⊆ b.supply := by
    intro n
    induction n with
    | zero => exact ⟨h,BatchFrame.refl W k b,List.Subset.refl _⟩
    | succ n ih =>
      rw [Function.iterate_succ_apply']
      obtain ⟨h1,h2,h3⟩ := refillOne_ok ih.1 (fun a ha => hW a (ih.2.2 ha))
      exact ⟨h1,ih.2.1.trans h2,fun _ hp => ih.2.2 (h3 hp)⟩
  exact ⟨(hall refillBatch).1,(hall refillBatch).2.1⟩

lemma flushOne_ok (hW : ∀ a ∈ b.mag.slots, W a) :
    BatchOk k rest (flushOne b) ∧ BatchFrame W k b (flushOne b) ∧
      (flushOne b).mag.slots = b.mag.slots.tail := by
  unfold flushOne
  rcases hm : b.mag.slots with _ | ⟨a,l⟩
  · exact ⟨h,BatchFrame.refl W k b,by simp [hm]⟩
  have hal := h.alloc
  rw [hm,← cons_coe,cons_add,card_cons] at hal
  refine ⟨⟨?_,?_,?_⟩,⟨rfl,?_,fun _ _ => rfl,rfl⟩,rfl⟩
  · have := h.share
    rw [hm,← cons_coe,cons_add,add_cons] at this
    change ((a::b.pool.freeList : List ℕ) : Multiset ℕ)+((l : Multiset ℕ)+rest) = made k b.pages
    rw [← this,← cons_coe,cons_add]
  · change b.pool.allocatedCount-1 = Multiset.card ((l : Multiset ℕ)+rest)
    omega
  · have := h.fits
    rw [hm,length_cons] at this
    change l.length ≤ magSize
    omega
  · intro c hc
    refine if_neg (fun he => hc (hW c ?_))
    rw [he,hm]
    simp

lemma flush_ok (hW : ∀ a ∈ b.mag.slots, W a) :
    BatchOk k rest (flush b) ∧ BatchFrame W k b (flush b) ∧ (flush b).mag.slots.length < magSize := by
  have hall : ∀ n, BatchOk k rest (flushOne^[n] b) ∧ BatchFrame W k b (flushOne^[n] b) ∧
      (flushOne^[n] b).mag.slots = b.mag.slots.drop n := by
    intro n
    induction n with
    | zero => exact ⟨h,BatchFrame.refl W k b,rfl⟩
    | succ n ih =>
      rw [Function.iterate_succ_apply']
      obtain ⟨h1,h2,h3⟩ := flushOne_ok ih.1 (W := W) (fun a ha => by
        rw [ih.2.2] at ha
        exact hW a (mem_of_mem_drop ha))
      exact ⟨h1,ih.2.1.trans h2,by rw [h3,ih.2.2,tail_drop]⟩
  refine ⟨(hall flushBatch).1,(hall flushBatch).2.1,?_⟩
  have := h.fits
  rw [flush,(hall flushBatch).2.2,length_drop]
  simp only [magSize,flushBatch] at this ⊢
  omega

end

def Pc.cls : Pc → Option ℕ
  | .idle => none
  | .refilling k | .popping k | .flushing k _ | .pushing k _ => some k

/-- After a flush there is room for the slot that waits. -/
def Pc.fits (m : Mag) : Pc → Prop
  | .pushing _ _ => m.slots.length < magSize
  | _ => True

structure Seats (s : State) : Prop where
  mag : ∀ cpu < s.pcs.length, ∀ k < numClasses, ∃ m, s.mags[magIndex cpu k]? = some m ∧
    m.cls = k ∧ m.slots.length ≤ magSize
  pc : ∀ (cpu : ℕ) (pc : Pc), s.pcs[cpu]? = some pc → ∀ k ∈ pc.cls, k < numClasses ∧
    ∃ m, s.mags[magIndex cpu k]? = some m ∧ pc.fits m

/-- Slots, counts, headers and pages agree. -/
structure Books (s : State) : Prop where
  pools : s.pools.length = numClasses
  share : ∀ (k : ℕ) (p : Pool), s.pools[k]? = some p →
    (p.freeList : Multiset ℕ)+s.out k = made k s.pages ∧ p.allocatedCount = Multiset.card (s.out k)
  taken : s.taken.Nodup
  user : ∀ u ∈ s.users, u.1 < numClasses ∧ (s.mem u.2).poolIdx = u.1
  large : ∀ l ∈ s.large, 1 ≤ l.2 ∧ s.mem (l.1*4096) = ⟨largeAllocMarker,l.2⟩

structure Owned (s : State) : Prop extends Seats s, Books s

lemma magIndex_inj {cpu' k : ℕ} (hk : k < numClasses) (hk' : k' < numClasses)
    (h : magIndex cpu k = magIndex cpu' k') : cpu = cpu' ∧ k = k' := by
  simp only [magIndex,numClasses] at *
  omega

variable {s' : State} {m' : Mag}

lemma Seats.update (h : Seats s) (pc : Pc)
    (hk : k < numClasses) (hm : s.mags[magIndex cpu k]? = some m)
    (hmags : s'.mags = s.mags.set (magIndex cpu k) m') (hcls : m'.cls = m.cls)
    (hfit : m'.slots.length ≤ magSize) (hpcs : s'.pcs = s.pcs.set cpu pc)
    (hpc : ∀ k' ∈ pc.cls, k' = k ∧ pc.fits m') : Seats s' := by
  have hi : magIndex cpu k < s.mags.length := (List.getElem?_eq_some_iff.mp hm).1
  have hat : s'.mags[magIndex cpu k]? = some m' := by rw [hmags,getElem?_set_self hi]
  constructor
  · intro c hc k' hk'
    rw [hpcs,length_set] at hc
    obtain ⟨n,hn,hcn,hln⟩ := h.mag c hc k' hk'
    by_cases he : magIndex cpu k = magIndex c k'
    · rw [← he] at hn ⊢
      rw [hm] at hn
      obtain rfl := some.inj hn
      exact ⟨m',hat,hcls.trans hcn,hfit⟩
    · exact ⟨n,by rw [hmags,getElem?_set_ne he,hn],hcn,hln⟩
  · intro c q hq k' hk'
    rw [hpcs] at hq
    by_cases hc : cpu = c
    · subst hc
      rw [getElem?_set] at hq
      simp only [if_true] at hq
      split at hq
      · obtain rfl := some.inj hq
        obtain ⟨rfl,hf⟩ := hpc k' hk'
        exact ⟨hk,m',hat,hf⟩
      · cases hq
    · rw [getElem?_set_ne hc] at hq
      obtain ⟨h1,n,hn,hf⟩ := h.pc c q hq k' hk'
      refine ⟨h1,n,?_,hf⟩
      rw [hmags,getElem?_set_ne (fun he => hc (magIndex_inj hk h1 he).1),hn]

lemma Books.keep (h : Books s) (hpools : s'.pools = s.pools)
    (hpages : s'.pages = s.pages) (hlarge : s'.large = s.large) (hout : ∀ k, s'.out k = s.out k)
    (huser : ∀ u ∈ s'.users, u.1 < numClasses ∧ (s'.mem u.2).poolIdx = u.1)
    (hmem : ∀ l ∈ s.large, s'.mem (l.1*4096) = s.mem (l.1*4096)) : Books s' := by
  constructor
  · rw [hpools]; exact h.pools
  · rw [hpools,hpages]
    intro k p hp
    rw [hout]
    exact h.share k p hp
  · rw [State.taken,hpages,hlarge]
    exact h.taken
  · exact huser
  · rw [hlarge]
    intro l hl
    rw [hmem l hl]
    exact h.large l hl

lemma Books.pages_nodup (h : Books s) : (s.pages.map Prod.fst).Nodup :=
  (nodup_append.mp h.taken).1

lemma Books.out_made (h : Books s) (hk : k < numClasses)
    (ha : a ∈ s.out k) : a ∈ made k s.pages := by
  have hp : k < s.pools.length := by rw [h.pools]; exact hk
  rw [← (h.share k s.pools[k] (getElem?_eq_getElem hp)).1]
  exact Multiset.mem_add.mpr (.inr ha)

lemma Books.out_nodup (h : Books s) (hk : k < numClasses) : (s.out k).Nodup := by
  have hp : k < s.pools.length := by rw [h.pools]; exact hk
  have hn := made_nodup (k := k) h.pages_nodup
  rw [← (h.share k s.pools[k] (getElem?_eq_getElem hp)).1] at hn
  exact (nodup_add.mp hn).2.1

lemma mem_total_of {α σ : Type*} (w : σ → Multiset α) {l : List σ} {s : σ} {a : α} (hs : s ∈ l)
    (ha : a ∈ w s) : a ∈ total w l := by
  refine mem_of_le ?_ ha
  exact List.single_le_sum (fun _ _ => Multiset.zero_le _) _ (List.mem_map_of_mem hs)

lemma user_out (hu : u ∈ s.users) : u.2 ∈ s.out u.1 := by
  refine Multiset.mem_add.mpr (.inl (Multiset.mem_add.mpr (.inr ?_)))
  exact mem_total_of _ hu (by simp [userSlots])

lemma mag_out (hm : s.mags[i]? = some m) (ha : a ∈ m.slots) : a ∈ s.out m.cls := by
  refine Multiset.mem_add.mpr (.inl (Multiset.mem_add.mpr (.inl ?_)))
  exact mem_total_of _ (mem_of_getElem? hm) (by simpa [magSlots] using ha)

lemma Books.large_page (h : Books s) (hl : l ∈ s.large)
    (ha : a ∈ made k s.pages) : a ≠ l.1*4096 := by
  rintro rfl
  have hpage : l.1 ∈ s.pages.map Prod.fst := by
    have := mem_made ha
    rw [Nat.mul_div_cancel _ (by norm_num)] at this
    exact List.mem_map.mpr ⟨_,this,rfl⟩
  have hrun : l.1 ∈ s.large.flatMap largeRun := by
    refine mem_flatMap.mpr ⟨l,hl,List.mem_map.mpr ⟨0,?_,rfl⟩⟩
    exact List.mem_range.mpr (h.large l hl).1
  exact (nodup_append.mp h.taken).2.2 l.1 hpage l.1 hrun rfl

lemma set_same {α : Type} {l : List α} {x : α} (h : l[i]? = some x) : l.set i x = l := by
  obtain ⟨hi,rfl⟩ := List.getElem?_eq_some_iff.mp h
  exact set_getElem_self hi

/-- A window that moves slots between a magazine, the users and its own
processor leaves the slots outside the pools what they were. -/
lemma out_swap {pc' : Pc}
    (hm : s.mags[i]? = some m) (hpc : s.pcs[cpu]? = some pc) (hmags : s'.mags = s.mags.set i m')
    (hpcs : s'.pcs = s.pcs.set cpu pc') (k : ℕ)
    (hsum : magSlots k m'+total (userSlots k) s'.users+pcSlots k pc' =
      magSlots k m+total (userSlots k) s.users+pcSlots k pc) : s'.out k = s.out k := by
  have h1 := total_set (magSlots k) m' hm
  have h2 := total_set (pcSlots k) pc' hpc
  refine add_right_cancel (b := magSlots k m+pcSlots k pc) ?_
  rw [State.out,hmags,hpcs]
  calc _ = (total (magSlots k) (s.mags.set i m')+magSlots k m)+total (userSlots k) s'.users+
        (total (pcSlots k) (s.pcs.set cpu pc')+pcSlots k pc) := by abel
    _ = total (magSlots k) s.mags+total (pcSlots k) s.pcs+
        (magSlots k m'+total (userSlots k) s'.users+pcSlots k pc') := by rw [h1,h2]; abel
    _ = _ := by rw [hsum,State.out]; abel

lemma takeSlot_owned {empty : Pc} (h : Owned s)
    (hpc : s.pcs[cpu]? = some pc) (hz : ∀ k', pcSlots k' pc = 0) (hk : k < numClasses)
    (he : ∀ k' ∈ empty.cls, k' = k) (hf : ∀ m, empty.fits m) (hez : ∀ k', pcSlots k' empty = 0) :
    Owned (takeSlot s cpu k empty) := by
  obtain ⟨m,hm,hcls,hlen⟩ := h.mag cpu (List.getElem?_eq_some_iff.mp hpc).1 k hk
  simp only [takeSlot,hm,Mag.pop]
  cases hs : m.slots with
  | nil =>
    have hmags := (set_same hm).symm
    refine ⟨h.toSeats.update _ hk hm hmags rfl hlen rfl (fun k' hk' => ⟨he k' hk',hf m⟩),
      h.toBooks.keep rfl rfl rfl ?_ h.user (fun _ _ => rfl)⟩
    intro k'
    exact out_swap hm hpc (by exact hmags) rfl k' (by rw [hez,hz])
  | cons a rest =>
    have ha : a ∈ s.out k := by
      rw [← hcls]
      exact mag_out hm (by rw [hs]; simp)
    have hmade := h.out_made hk ha
    refine ⟨h.toSeats.update .idle hk hm rfl rfl ?_ rfl (by simp [Pc.cls]),
      h.toBooks.keep rfl rfl rfl ?_ ?_ ?_⟩
    · simp only [hs,length_cons] at hlen ⊢
      omega
    · intro k'
      refine out_swap hm hpc rfl rfl k' ?_
      rw [hz,total_cons]
      by_cases hkk : k = k'
      · simp only [magSlots,userSlots,pcSlots,hcls,hs,hkk,if_true,← cons_coe, ← singleton_add]
        abel
      · simp only [magSlots,userSlots,pcSlots,hcls,hkk,if_false,zero_add]
    · intro u hu
      simp only [setHeader]
      rcases List.mem_cons.mp hu with rfl | hu
      · exact ⟨hk,by simp⟩
      obtain ⟨h1,h2⟩ := h.user u hu
      refine ⟨h1,?_⟩
      split
      · next hua =>
        exact made_class h.pages_nodup hmade (hua ▸ h.out_made h1 (user_out hu))
      · exact h2
    · intro l hl
      exact if_neg (fun hla => h.large_page hl hmade hla.symm)

lemma giveSlot_owned {s₀ : State} {full : Pc} (h : Owned s₀)
    (hs : s = {s₀ with users := s.users}) (hpc : s₀.pcs[cpu]? = some pc) (hk : k < numClasses)
    (hfull : ∀ m : Mag, m.slots.length ≥ magSize → s₀.mags[magIndex cpu k]? = some m →
      (∀ k' ∈ full.cls, k' = k ∧ full.fits m) ∧ ∀ k', total (userSlots k') s.users+pcSlots k' full =
        total (userSlots k') s₀.users+pcSlots k' pc)
    (hsub : ∀ u ∈ s.users, u ∈ s₀.users)
    (hsum : ∀ k', (if k = k' then {a} else 0)+total (userSlots k') s.users =
      total (userSlots k') s₀.users+pcSlots k' pc) : Owned (giveSlot s cpu k a full) := by
  obtain ⟨m,hm,hcls,hlen⟩ := h.mag cpu (List.getElem?_eq_some_iff.mp hpc).1 k hk
  rw [hs]
  simp only [giveSlot,hm,Mag.push]
  by_cases hroom : m.slots.length ≥ magSize
  · rw [if_pos hroom]
    obtain ⟨hf,hsame⟩ := hfull m hroom hm
    have hmags := (set_same hm).symm
    refine ⟨h.toSeats.update _ hk hm hmags rfl hlen rfl hf,
      h.toBooks.keep rfl rfl rfl ?_ (fun u hu => h.user u (hsub u hu)) (fun _ _ => rfl)⟩
    intro k'
    refine out_swap hm hpc (by exact hmags) rfl k' ?_
    rw [add_assoc,hsame k',add_assoc]
  rw [if_neg hroom]
  refine ⟨h.toSeats.update .idle hk hm rfl rfl ?_ rfl (by simp [Pc.cls]),
    h.toBooks.keep rfl rfl rfl ?_ (fun u hu => h.user u (hsub u hu)) (fun _ _ => rfl)⟩
  · simp only [length_cons]
    omega
  · intro k'
    refine out_swap hm hpc rfl rfl k' ?_
    rw [add_assoc (magSlots k' m),← hsum k']
    by_cases hkk : k = k'
    · simp only [magSlots,pcSlots,hcls,hkk,if_true,← cons_coe,← singleton_add]
      abel
    · simp only [magSlots,pcSlots,hcls,hkk,if_false,zero_add,add_zero]

lemma taken_coe (s : State) :
    (s.taken : Multiset ℕ) = s.pages.map Prod.fst+total (fun l => (largeRun l : Multiset ℕ)) s.large := by
  have hflat : ∀ large : List (ℕ×ℕ), (large.flatMap largeRun : Multiset ℕ) =
      total (fun l => (largeRun l : Multiset ℕ)) large := by
    intro large
    induction large with
    | nil => rfl
    | cons l large ih => rw [flatMap_cons,← coe_add,ih,total_cons]
  rw [State.taken,← coe_add,hflat]

lemma total_mag_set {mags : List Mag} (hm : mags[i]? = some m)
    (hcls : m.cls = k) (hcls' : m'.cls = k) :
    total (magSlots k) (mags.set i m') = m'.slots+total (magSlots k) (mags.set i ⟨k,[]⟩) := by
  have h1 := total_set (magSlots k) m' hm
  have h2 := total_set (magSlots k) ⟨k,[]⟩ hm
  simp only [magSlots,hcls,hcls',if_true,coe_nil,add_zero] at h1 h2
  refine add_right_cancel (b := (m.slots : Multiset ℕ)) ?_
  rw [h1,← h2]
  abel

lemma runBatch_owned {supply : List ℕ} {f : Batch → Batch} {next : Pc}
    {W : ℕ → Prop} (h : Owned s) (hpc : s.pcs[cpu]? = some pc) (hk : k < numClasses)
    (hsup : supply.Nodup) (hfresh : ∀ p ∈ supply, p ∉ s.taken)
    (hsame : ∀ k', pcSlots k' next = pcSlots k' pc)
    (hf : ∀ p m rest, s.mags[magIndex cpu k]? = some m → BatchOk k rest ⟨p,m,s.mem,s.pages,supply⟩ →
      BatchOk k rest (f ⟨p,m,s.mem,s.pages,supply⟩) ∧
      BatchFrame W k ⟨p,m,s.mem,s.pages,supply⟩ (f ⟨p,m,s.mem,s.pages,supply⟩) ∧
      ∀ k' ∈ next.cls, k' = k ∧ next.fits (f ⟨p,m,s.mem,s.pages,supply⟩).mag)
    (huser : ∀ u ∈ s.users, ¬ W u.2) (hlarge : ∀ l ∈ s.large, ¬ W (l.1*4096)) :
    Owned (runBatch s cpu k supply f next) := by
  obtain ⟨m,hm,hcls,hlen⟩ := h.mag cpu (List.getElem?_eq_some_iff.mp hpc).1 k hk
  have hkp : k < s.pools.length := by rw [h.pools]; exact hk
  obtain ⟨p,hp⟩ : ∃ p, s.pools[k]? = some p := ⟨_,getElem?_eq_getElem hkp⟩
  have hpcs : ∀ k', total (pcSlots k') (s.pcs.set cpu next) = total (pcSlots k') s.pcs := by
    intro k'
    have := total_set (pcSlots k') next hpc
    rw [hsame k'] at this
    exact add_right_cancel this
  have hout : ∀ m' : Mag, m'.cls = k → total (magSlots k) (s.mags.set (magIndex cpu k) m')+
      total (userSlots k) s.users+total (pcSlots k) s.pcs = m'.slots+
      (total (magSlots k) (s.mags.set (magIndex cpu k) ⟨k,[]⟩)+
      total (userSlots k) s.users+total (pcSlots k) s.pcs) := by
    intro m' hm'
    rw [total_mag_set hm hcls hm',add_assoc,add_assoc,add_assoc]
  have hb := h.share k p hp
  have hm0 := hout m hcls
  rw [set_same hm] at hm0
  rw [State.out,hm0] at hb
  obtain ⟨hok,hfr,hnext⟩ := hf p m _ hm ⟨hb.1,hb.2,hlen⟩
  have hcls' := hfr.cls.trans hcls
  simp only [runBatch,hp,hm]
  refine ⟨h.toSeats.update _ hk hm rfl hfr.cls hok.fits rfl hnext,⟨?_,?_,?_,?_,?_⟩⟩
  · rw [length_set,h.pools]
  · intro k' p' hp'
    by_cases hkk : k = k'
    · subst hkk
      rw [getElem?_set_self hkp] at hp'
      obtain rfl := some.inj hp'
      simp only [State.out,hpcs]
      rw [hout _ hcls']
      exact ⟨hok.share,hok.alloc⟩
    rw [getElem?_set_ne hkk] at hp'
    have h1 := total_set (magSlots k') (f ⟨p,m,s.mem,s.pages,supply⟩).mag hm
    simp only [magSlots,hcls,hcls',hkk,if_false,add_zero] at h1
    have h2 := h.share k' p' hp'
    simp only [State.out,hpcs,hfr.other k' (Ne.symm hkk)] at h2 ⊢
    rw [h1]
    exact h2
  · have hpg := hfr.pages
    rw [← coe_nodup,taken_coe]
    have hn : ((s.taken : Multiset ℕ)+supply).Nodup := by
      refine nodup_add.mpr ⟨coe_nodup.mpr h.taken,coe_nodup.mpr hsup,?_⟩
      rw [Multiset.disjoint_left]
      exact fun ha hs => hfresh _ hs ha
    rw [taken_coe,add_right_comm,← hpg,add_right_comm] at hn
    exact (nodup_add.mp hn).1
  · intro u hu
    simp only [hfr.mem u.2 (huser u hu)]
    exact h.user u hu
  · intro l hl
    simp only [hfr.mem _ (hlarge l hl)]
    exact h.large l hl

lemma Owned.user_page (h : Owned s) (hu : u ∈ s.users) : u.2/4096 ∈ s.taken := by
  have := mem_made (h.out_made (h.user u hu).1 (user_out hu))
  exact mem_append.mpr (.inl (List.mem_map.mpr ⟨_,this,rfl⟩))

lemma Owned.large_page_taken (h : Owned s) (hl : l ∈ s.large) : l.1*4096/4096 ∈ s.taken := by
  rw [Nat.mul_div_cancel _ (by norm_num)]
  refine mem_append.mpr (.inr (mem_flatMap.mpr ⟨l,hl,List.mem_map.mpr ⟨0,?_,rfl⟩⟩))
  exact List.mem_range.mpr (h.large l hl).1

lemma Owned.mag_not_user (h : Owned s)
    (hk : k < numClasses) (hm : s.mags[i]? = some m) (hcls : m.cls = k) (hu : u ∈ s.users) :
    u.2 ∉ m.slots := by
  intro ha
  have hku : u.1 = k := made_class h.pages_nodup (h.out_made (h.user u hu).1 (user_out hu))
    (h.out_made hk (hcls ▸ mag_out hm ha))
  have hn := h.out_nodup hk
  have h1 := (nodup_add.mp hn).1
  have hmag : u.2 ∈ total (magSlots k) s.mags :=
    mem_total_of _ (mem_of_getElem? hm) (by simpa [magSlots,hcls] using ha)
  have huser : u.2 ∈ total (userSlots k) s.users := mem_total_of _ hu (by simp [userSlots,hku])
  exact Multiset.disjoint_left.mp (nodup_add.mp h1).2.2 hmag huser

variable {size : ℕ}

lemma findPool_lt (h : findPool size = some k) : k < numClasses :=
  (findIdx?_eq_some_iff_findIdx_eq.mp h).1

lemma largePages_run (h : Owned s) (hl : l ∈ s.large) : largePages s l.1 = largeRun l := by
  obtain ⟨h1,h2⟩ := h.large l hl
  simp only [largePages,h2,largeRun]
  split
  · have : l.2 = 1 := by omega
    simp [this]
  · rfl

lemma filter_large (h : Owned s) (hl : l ∈ s.large) :
    s.large.filter (fun l' => largeRun l' ≠ largeRun l) = s.large.erase l := by
  have hinj : ∀ l' ∈ s.large, largeRun l' = largeRun l → l' = l := by
    intro l' hl' he
    have hlen : l'.2 = l.2 := by simpa [largeRun] using congrArg List.length he
    have hhead := congrArg List.head? he
    have hne : l.2 ≠ 0 := by have := (h.large l hl).1; omega
    rw [largeRun,largeRun,hlen,head?_map,head?_map,head?_range,if_neg hne] at hhead
    exact Prod.ext (by simpa using hhead) hlen
  have hnodup : s.large.Nodup := by
    have hflat := (nodup_append.mp h.taken).2.1
    have hne : ∀ l' ∈ s.large, largeRun l' ≠ [] := by
      intro l' hl' he
      have := (h.large l' hl').1
      have : l'.2 = 0 := by simpa [largeRun] using he
      omega
    have hpair := (nodup_flatMap.mp hflat).2
    refine hpair.imp_of_mem ?_
    intro x y hx _ hd he
    subst he
    obtain ⟨p,hp⟩ := exists_mem_of_ne_nil _ (hne x hx)
    exact hd hp hp
  rw [hnodup.erase_eq_filter]
  refine List.filter_congr ?_
  intro l' hl'
  by_cases he : l' = l
  · simp [he]
  · simp [he,mt (hinj l' hl') he]

lemma kfree_large (h : Owned s) (hl : l ∈ s.large) :
    kfree s cpu (l.1*4096) = {s with large := s.large.erase l} := by
  obtain ⟨_,h2⟩ := h.large l hl
  have hdiv : l.1*4096/4096 = l.1 := Nat.mul_div_cancel _ (by norm_num)
  simp only [kfree,h2,if_true,hdiv,largePages_run h hl]
  rw [filter_large h hl]

lemma kfree_small (h : Owned s) (hu : u ∈ s.users) : kfree s cpu u.2 =
      giveSlot {s with users := s.users.erase u} cpu u.1 u.2 (.flushing u.1 u.2) := by
  obtain ⟨h1,h2⟩ := h.user u hu
  have hne : u.1 ≠ largeAllocMarker := by
    have : largeAllocMarker = 255 := rfl
    simp only [numClasses] at h1
    omega
  simp only [kfree,h2,if_neg hne,if_neg (not_le.mpr h1)]

lemma total_user_erase (hu : u ∈ s.users) (k : ℕ) :
    total (userSlots k) (s.users.erase u)+(if u.1 = k then {u.2} else 0) =
      total (userSlots k) s.users := total_erase (userSlots k) hu

lemma kfree_owned (h : Owned s) (hr : Call.ready s (.kfree cpu a)) : Owned (kfree s cpu a) := by
  obtain ⟨hpc,⟨u,hu,rfl⟩ | ⟨l,hl,rfl⟩⟩ := hr
  · rw [kfree_small h hu]
    refine giveSlot_owned h rfl hpc (h.user u hu).1 ?_ ?_ ?_
    · intro m _ _
      refine ⟨fun k' hk' => ⟨(some.inj hk').symm,trivial⟩,fun k' => ?_⟩
      rw [← total_user_erase hu k']
      simp only [pcSlots,add_zero]
    · exact fun v hv => List.mem_of_mem_erase hv
    · intro k'
      rw [← total_user_erase hu k',add_comm]
      simp only [pcSlots,add_zero]
  · rw [kfree_large h hl]
    refine ⟨⟨h.mag,h.pc⟩,⟨h.pools,h.share,?_,h.user,fun l' hl' => h.large l' (List.mem_of_mem_erase hl')⟩⟩
    refine h.taken.sublist (List.Sublist.append (List.Sublist.refl _) ?_)
    exact erase_sublist.flatMap _

lemma allocLarge_owned (h : Owned s)
    (hr : Call.ready s (.allocLarge size page)) : Owned (allocLarge s size page) := by
  unfold allocLarge
  split
  · exact h
  have hpos : 1 ≤ pagesNeeded size := by
    unfold pagesNeeded
    omega
  have hfirst : page ∉ s.taken := hr.2 page (List.mem_map.mpr ⟨0,List.mem_range.mpr hpos,rfl⟩)
  have hother : ∀ a, a/4096 ∈ s.taken →
      setHeader s.mem (page*4096) ⟨largeAllocMarker,pagesNeeded size⟩ a = s.mem a := by
    intro a ha
    refine if_neg (fun he => hfirst ?_)
    rw [he,Nat.mul_div_cancel _ (by norm_num)] at ha
    exact ha
  refine ⟨⟨h.mag,h.pc⟩,⟨h.pools,h.share,?_,?_,?_⟩⟩
  · have hrun : (largeRun (page,pagesNeeded size)).Nodup :=
      List.nodup_range.map (fun i j hij => add_left_cancel hij)
    have hperm : (s.pages.map Prod.fst++((page,pagesNeeded size)::s.large).flatMap largeRun).Perm
        (largeRun (page,pagesNeeded size)++s.taken) := by
      rw [flatMap_cons,State.taken,← append_assoc,← append_assoc]
      exact perm_append_comm.append_right _
    refine hperm.nodup_iff.mpr (nodup_append.mpr ⟨hrun,h.taken,?_⟩)
    rintro p hp q hq rfl
    exact hr.2 p hp hq
  · intro u hu
    simp only [hother u.2 (h.user_page hu)]
    exact h.user u hu
  · intro l hl
    rcases List.mem_cons.mp hl with rfl | hl
    · exact ⟨hpos,if_pos rfl⟩
    · simp only [hother _ (h.large_page_taken hl)]
      exact h.large l hl

lemma step_owned (s : State) (c : Call) (s' : State) (h : Owned s)
    (hn : Guarded Call.ready Call.step s c s') : Owned s' := by
  obtain ⟨hr,rfl⟩ := hn
  cases c with
  | kmalloc cpu size =>
    obtain ⟨k,hk⟩ := isSome_iff_exists.mp hr.2
    simp only [Call.step,hk]
    exact takeSlot_owned h hr.1 (fun _ => rfl) (findPool_lt hk)
      (fun k' hk' => (some.inj hk').symm) (fun _ => trivial) (fun _ => rfl)
  | refill cpu k supply =>
    obtain ⟨hpc,hsup,hfresh⟩ := hr
    have hk := (h.pc cpu _ hpc k rfl).1
    refine runBatch_owned (W := fun a => a/4096 ∈ supply) h hpc hk hsup hfresh (fun _ => rfl) ?_
      (fun u hu hs => hfresh _ hs (h.user_page hu)) (fun l hl hs => hfresh _ hs (h.large_page_taken hl))
    intro p m rest _ hb
    obtain ⟨h1,h2⟩ := refill_ok hb (fun _ ha => ha)
    exact ⟨h1,h2,fun k' hk' => ⟨(some.inj hk').symm,trivial⟩⟩
  | retry cpu k =>
    exact takeSlot_owned h hr (fun _ => rfl) (h.pc cpu _ hr k rfl).1 (by simp [Pc.cls])
      (fun _ => trivial) (fun _ => rfl)
  | kfree cpu a => exact kfree_owned h hr
  | flush cpu k a =>
    have hk := (h.pc cpu _ hr k rfl).1
    obtain ⟨m,hm,hcls,_⟩ := h.mag cpu (List.getElem?_eq_some_iff.mp hr).1 k hk
    refine runBatch_owned (W := fun b => b ∈ m.slots) h hr hk nodup_nil (by simp) (fun _ => rfl) ?_
      (fun u hu => h.mag_not_user hk hm hcls hu) ?_
    · intro p m' rest hm' hb
      obtain rfl := Option.mem_unique hm hm'
      obtain ⟨h1,h2,h3⟩ := flush_ok hb (fun _ ha => ha)
      exact ⟨h1,h2,fun k' hk' => ⟨(some.inj hk').symm,h3⟩⟩
    · intro l hl hs
      exact h.large_page hl (h.out_made hk (hcls ▸ mag_out hm hs)) rfl
  | repush cpu k a =>
    obtain ⟨hk,m,hm,hfit⟩ := h.pc cpu _ hr k rfl
    refine giveSlot_owned h rfl hr hk ?_ (fun _ hu => hu) (fun k' => add_comm _ _)
    intro m' hfull hm'
    obtain rfl := Option.mem_unique hm hm'
    exact absurd hfit (not_lt.mpr hfull)
  | allocLarge size page => exact allocLarge_owned h hr

lemma init_owned (cpus : ℕ) : Owned (State.init cpus) := by
  have hzero : ∀ k, (State.init cpus).out k = 0 := by
    intro k
    have h1 : total (magSlots k) (State.init cpus).mags = 0 := by
      refine List.sum_eq_zero ?_
      simp [State.init,magSlots]
    have h2 : total (pcSlots k) (State.init cpus).pcs = 0 := by
      refine List.sum_eq_zero ?_
      simp [State.init,pcSlots]
    rw [State.out,h1,h2]
    rfl
  refine ⟨⟨?_,?_⟩,⟨by simp [State.init],?_,?_,?_,?_⟩⟩
  · intro cpu hcpu k hk
    have hcpu : cpu < cpus := by simpa [State.init] using hcpu
    have hi : magIndex cpu k < cpus*numClasses := by
      simp only [magIndex,numClasses] at hk ⊢
      omega
    have hmod : magIndex cpu k%numClasses = k := by
      simp only [magIndex,numClasses] at hk ⊢
      omega
    simp [State.init,hi,hmod]
  · intro cpu pc hpc k hk
    have : pc = .idle := by
      have := mem_of_getElem? hpc
      simpa [State.init] using (List.mem_replicate.mp this).2
    subst this
    simp [Pc.cls] at hk
  · intro k p hp
    rw [hzero]
    have : p = ⟨[],0⟩ := (List.mem_replicate.mp (mem_of_getElem? hp)).2
    subst this
    exact ⟨rfl,rfl⟩
  · simp [State.taken,State.init]
  · simp [State.init]
  · simp [State.init]

lemma reached_owned {cpus : ℕ}
    (h : Reaches (Guarded Call.ready Call.step) (State.init cpus) s) : Owned s :=
  invariant (I := Owned) step_owned h (init_owned cpus)

/-- In every interleaving the slots of a class are each in one place: the free
list, a magazine, a user, or the processor that is freeing it. The count is
that of the slots outside the free list, a free puts its slot into a magazine
at once or after the flush, and a whole-page free returns the run it was given. -/
theorem reached_slots_in_one_place (cpus : ℕ) (s : State)
    (h : Reaches (Guarded Call.ready Call.step) (State.init cpus) s) :
    (∀ (k : ℕ) (p : Pool), s.pools[k]? = some p →
      (p.freeList : Multiset ℕ)+total (magSlots k) s.mags+
        (total (userSlots k) s.users+total (pcSlots k) s.pcs) = made k s.pages ∧
      (made k s.pages).Nodup ∧
      p.allocatedCount = Multiset.card (total (userSlots k) s.users+total (pcSlots k) s.pcs)+
        Multiset.card (total (magSlots k) s.mags)) ∧
    (∀ u ∈ s.users, ∀ cpu, s.pcs[cpu]? = some .idle →
      (kfree s cpu u.2).pcs[cpu]? = some (.flushing u.1 u.2) ∨
      ∃ m, (kfree s cpu u.2).mags[magIndex cpu u.1]? = some m ∧ m.cls = u.1 ∧ u.2 ∈ m.slots) ∧
    (∀ cpu k a, s.pcs[cpu]? = some (.pushing k a) →
      ∃ m, (giveSlot s cpu k a .idle).mags[magIndex cpu k]? = some m ∧ m.cls = k ∧ a ∈ m.slots) ∧
    (∀ l ∈ s.large, ∀ cpu, largePages s l.1 = largeRun l ∧
      ((kfree s cpu (l.1*4096)).taken : Multiset ℕ)+largeRun l = s.taken) := by
  have hs := reached_owned h
  refine ⟨?_,?_,?_,?_⟩
  · intro k p hp
    obtain ⟨h1,h2⟩ := hs.share k p hp
    rw [State.out] at h1 h2
    refine ⟨?_,made_nodup hs.pages_nodup,?_⟩
    · rw [← h1]
      abel
    · rw [h2, ← card_add]
      congr 1
      abel
  · intro u hu cpu hpc
    rw [kfree_small hs hu]
    obtain ⟨m,hm,hcls,_⟩ := hs.mag cpu (List.getElem?_eq_some_iff.mp hpc).1 u.1 (hs.user u hu).1
    simp only [giveSlot, hm, Mag.push]
    by_cases hroom : m.slots.length ≥ magSize
    · rw [if_pos hroom]
      exact .inl (getElem?_set_self (List.getElem?_eq_some_iff.mp hpc).1)
    · rw [if_neg hroom]
      exact .inr ⟨_,getElem?_set_self (List.getElem?_eq_some_iff.mp hm).1,hcls,by simp⟩
  · intro cpu k a hpc
    obtain ⟨hk,m,hm,hfit⟩ := hs.pc cpu _ hpc k rfl
    obtain ⟨m',hm',hcls,_⟩ := hs.mag cpu (List.getElem?_eq_some_iff.mp hpc).1 k hk
    obtain rfl := Option.mem_unique hm hm'
    simp only [giveSlot, hm, Mag.push, if_neg (not_le.mpr hfit)]
    exact ⟨_,getElem?_set_self (List.getElem?_eq_some_iff.mp hm).1,hcls,by simp⟩
  · intro l hl cpu
    refine ⟨largePages_run hs hl,?_⟩
    rw [kfree_large hs hl, taken_coe, taken_coe]
    rw [add_assoc, total_erase (fun l => (largeRun l : Multiset ℕ)) hl]

instance (s : State) (c : Call) : Decidable (Call.ready s c) := by
  cases c <;> dsimp only [Call.ready] <;> infer_instance

/-- Two processors allocate, the second frees what the first got, and a
whole-page allocation comes and goes. -/
def exchange : List Call :=
  [.kmalloc 0 100,.refill 0 2 [7],.retry 0 2,.kmalloc 0 128,.allocLarge 5000 20,.kfree 1 32344,
   .kmalloc 1 40,.refill 1 1 [8],.retry 1 1,.kfree 0 81920]

theorem reached_slots_in_one_place_exchange :
    (run Call.step (State.init 2) exchange).users.length = 2 ∧
    ∀ p, (run Call.step (State.init 2) exchange).pools[2]? = some p →
      p.allocatedCount = Multiset.card (total (userSlots 2) (run Call.step (State.init 2) exchange).users+
        total (pcSlots 2) (run Call.step (State.init 2) exchange).pcs)+
        Multiset.card (total (magSlots 2) (run Call.step (State.init 2) exchange).mags) := by
  have ha : Admissible Call.ready Call.step (State.init 2) exchange := by decide
  refine ⟨by decide,fun p hp => ?_⟩
  exact ((reached_slots_in_one_place 2 _ (run_reaches (Reaches.start _ _) ha)).1 2 p hp).2.2

lemma made_place (h : a ∈ made k pages) :
    ∃ i, a = a/4096*4096+i*objectSize k ∧ (i+1)*objectSize k ≤ 4096 := by
  obtain ⟨pg,_,ha⟩ := mem_total (pageSlots k) h
  unfold pageSlots at ha
  split at ha
  · rw [Multiset.mem_coe] at ha
    rw [carve_page ha]
    simp only [carve,List.mem_map,List.mem_range] at ha
    obtain ⟨i,hi,rfl⟩ := ha
    exact ⟨i,rfl,(mul_le_mul_right _ hi).trans (div_mul_le_self _ _)⟩
  · exact absurd ha (notMem_zero a)

lemma made_apart {b : ℕ} (hd : (pages.map Prod.fst).Nodup) (ha : a ∈ made k pages)
    (hb : b ∈ made k' pages) (hne : a ≠ b) : a+objectSize k ≤ b ∨ b+objectSize k' ≤ a := by
  obtain ⟨i,hi,hi'⟩ := made_place ha
  obtain ⟨j,hj,hj'⟩ := made_place hb
  rw [succ_mul] at hi' hj'
  by_cases hpage : a/4096 = b/4096
  · obtain rfl : k = k' :=
      congrArg Prod.snd (List.inj_on_of_nodup_map hd (mem_made ha) (mem_made hb) hpage)
    have hstep : ∀ {i j}, i < j → i*objectSize k+objectSize k ≤ j*objectSize k := fun hij =>
      succ_mul _ _ ▸ Nat.mul_le_mul_right _ hij
    rcases lt_trichotomy i j with hij | rfl | hij
    · have := hstep hij
      omega
    · omega
    · have := hstep hij
      omega
  · omega

/-- No two live allocations overlap. -/
theorem live_blocks_apart (cpus : ℕ) (s : State)
    (h : Reaches (Guarded Call.ready Call.step) (State.init cpus) s) :
    s.users.Pairwise (fun u v => u.2+objectSize u.1 ≤ v.2 ∨ v.2+objectSize v.1 ≤ u.2) ∧
    (∀ u ∈ s.users, ∀ l ∈ s.large, u.2/4096 ∉ largeRun l) ∧
    s.large.Pairwise fun l l' => ∀ p ∈ largeRun l, p ∉ largeRun l' := by
  have hs := reached_owned h
  have htaken := nodup_append.mp hs.taken
  have hmade : ∀ u ∈ s.users, u.2 ∈ made u.1 s.pages :=
    fun u hu => hs.out_made (hs.user u hu).1 (user_out hu)
  refine ⟨pairwise_iff_forall_sublist.mpr fun {u v} hsub => ?_,?_,?_⟩
  · have hu := hsub.subset (mem_cons_self ..)
    have hv := hmade v (hsub.subset (mem_cons_of_mem _ (mem_cons_self ..)))
    refine made_apart hs.pages_nodup (hmade u hu) hv fun heq => ?_
    -- both would be the same slot of the same class, held twice
    have hcls := made_class hs.pages_nodup (hmade u hu) (heq ▸ hv)
    have hle : total (userSlots u.1) [u,v] ≤ total (userSlots u.1) s.users :=
      (hsub.map _).sum_le_sum fun _ _ => Multiset.zero_le _
    have hn := (nodup_add.mp (nodup_add.mp (hs.out_nodup (hs.user u hu).1)).1).2.1
    have := nodup_of_le hle hn
    simp [total,userSlots,← hcls,← heq] at this
  · intro u hu l hl hp
    have hpage := List.mem_map_of_mem (f := Prod.fst) (mem_made (hmade u hu))
    exact htaken.2.2 _ hpage _ (mem_flatMap.mpr ⟨l,hl,hp⟩) rfl
  · exact (nodup_flatMap.mp htaken.2.1).2.imp fun hd p hp hp' => hd hp hp'

theorem live_blocks_apart_exchange :
    (run Call.step (State.init 2) exchange).users.Pairwise
      fun u v => u.2+objectSize u.1 ≤ v.2 ∨ v.2+objectSize v.1 ≤ u.2 :=
  (live_blocks_apart 2 _ (run_reaches (.start _ _) (by decide))).1

end MoQiOS.Slab
