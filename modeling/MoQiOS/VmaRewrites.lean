import MoQiOS.VmaTable

/-!
# Replacing regions by pieces

The table stands for the multiset of its active regions. Placing the pieces
of one region exchanges it for them in that multiset, and a pass over all
slots replaces every region by its pieces, although the pieces land in slots
the pass has yet to visit: a piece is left alone when it is met again. The
capacity a preflight reserves is enough, and reference counts stay balanced
when every inserted piece takes its reference.
-/

namespace MoQiOS.Vma
open SlotTables List Multiset

def held (s : Slot) : Multiset MmapRegion := if s.region.active then {s.region} else 0

def Mm.live (m : Mm) : Multiset MmapRegion := total held m.slots

structure Layout (m : Mm) : Prop where
  length : m.slots.length = maxRegions
  bits : ∀ s ∈ m.slots, s.bit = s.region.active
  count : m.count = Multiset.card m.live

/-- The address space and `others` hold all references between them, and the
address space holds one for each region. -/
def Balanced (others : FsKind → ℕ → ℕ) (m : Mm) : Prop :=
  ∀ k i, k.counted → m.refCount k i =
    others k i+m.live.countP (fun r => r.fileKind = k ∧ r.fileIdx = i)

def SameBacking (p r : MmapRegion) : Prop :=
  p.fileKind = r.fileKind ∧ (p.fileKind.counted → p.fileIdx = r.fileIdx)

variable {p r : MmapRegion}

lemma SameBacking.backs_iff (h : SameBacking p r) {k : FsKind} (hk : k.counted)
    (i : ℕ) : (p.fileKind = k ∧ p.fileIdx = i) ↔ (r.fileKind = k ∧ r.fileIdx = i) := by
  obtain ⟨h1,h2⟩ := h
  constructor
  · rintro ⟨rfl,rfl⟩
    exact ⟨h1.symm,(h2 hk).symm⟩
  · rintro ⟨rfl,rfl⟩
    exact ⟨h1,h2 (h1 ▸ hk)⟩

def AllBelow (n : ℕ) (P : MmapRegion → Prop) (slots : List Slot) : Prop :=
  ∀ j < n, ∀ s, slots[j]? = some s → s.region.active → P s.region

lemma live_weight (w : MmapRegion → ℕ) (m : Mm) :
    (m.live.map w).sum = total (fun s => if s.region.active then w s.region else 0) m.slots := by
  let g : Multiset MmapRegion →+ ℕ := (Multiset.sumAddMonoidHom).comp (Multiset.mapAddMonoidHom w)
  have := total_map g held m.slots
  rw [show (m.live.map w).sum = g (total held m.slots) from rfl,this]
  congr 1
  funext s
  unfold held
  split
  · simp [g]
  · simp [g]

lemma card_live (m : Mm) :
    Multiset.card m.live = total (fun s => if s.region.active then 1 else 0) m.slots := by
  rw [← live_weight (fun _ => 1)]
  simp

variable {l : List Slot}

lemma findIdx_congr {p q : Slot → Bool} (h : ∀ s ∈ l, p s = q s) :
    l.findIdx? p = l.findIdx? q := by
  induction l with
  | nil => rfl
  | cons c l ih =>
    rw [findIdx?_cons,findIdx?_cons,h c (by simp),ih (fun s hs => h s (by simp [hs]))]

variable {m : Mm}

lemma freeSlot_eq (h : Layout m) : freeSlot m = inactiveSlot m := by
  apply findIdx_congr
  intro s hs
  rw [h.bits s hs,Bool.and_self]

lemma inactiveSlot_room (h : Layout m) (room : Multiset.card m.live < maxRegions) :
    ∃ i s, inactiveSlot m = some i ∧ m.slots[i]? = some s ∧ s.region.active = false := by
  apply free_slot (fun s => s.region.active) m.slots
  rw [← card_live,h.length]
  exact room

/-- Both searches for a slot find the first inactive one. -/
def Finds (find : Mm → Option ℕ) : Prop := ∀ m, Layout m → find m = inactiveSlot m

lemma finds_freeSlot : Finds freeSlot := fun _ h => freeSlot_eq h

lemma finds_inactiveSlot : Finds inactiveSlot := fun _ _ => rfl

section
variable {m : Mm} {i : ℕ} {s : Slot}

lemma live_set {b : Bool} (hs : m.slots[i]? = some s) (m' : Mm)
    (hm : m'.slots = m.slots.set i ⟨r,b⟩) : m'.live+held s = m.live+held ⟨r,b⟩ := by
  rw [Mm.live,Mm.live,hm]
  exact total_set held _ hs

lemma bits_set {b : Bool} (h : ∀ s ∈ m.slots, s.bit = s.region.active)
    (hb : b = r.active) : ∀ s ∈ m.slots.set i ⟨r,b⟩, s.bit = s.region.active := by
  intro s hs
  rcases mem_or_eq_of_mem_set hs with hs | rfl
  · exact h s hs
  · exact hb

lemma getElem_set_cases {t u : Slot} {j : ℕ} (h : (l.set i t)[j]? = some u) :
    (i = j ∧ t = u) ∨ (i ≠ j ∧ l[j]? = some u) := by
  rcases eq_or_ne i j with rfl | hne
  · rw [getElem?_set_self'] at h
    cases hm : l[i]? with
    | none => simp [hm] at h
    | some _ => exact .inl ⟨rfl,by simpa [hm] using h⟩
  · rw [getElem?_set_ne hne] at h
    exact .inr ⟨hne,h⟩

variable {P : MmapRegion → Prop}

lemma allBelow_set {n : ℕ} {t : Slot} (h : AllBelow n P m.slots)
    (ht : t.region.active → P t.region) : AllBelow n P (m.slots.set i t) := by
  intro j hj u hu ha
  rcases getElem_set_cases hu with ⟨-,rfl⟩ | ⟨-,hu⟩
  · exact ht ha
  · exact h j hj u hu ha

lemma allBelow_snoc {t : Slot} (h : AllBelow i P m.slots)
    (ht : t.region.active → P t.region) : AllBelow (i+1) P (m.slots.set i t) := by
  intro j hj u hu ha
  rcases getElem_set_cases hu with ⟨-,rfl⟩ | ⟨hne,hu⟩
  · exact ht ha
  · exact h j (by omega) u hu ha

lemma held_active (ha : s.region.active) : held s = {s.region} := by
  simp [held,ha]

lemma held_inactive (ha : s.region.active = false) : held s = 0 := by
  simp [held,ha]

lemma live_mem (hs : m.slots[i]? = some s) (ha : s.region.active) : s.region ∈ m.live := by
  have hmem : s ∈ m.slots := mem_of_getElem? hs
  have : held s ≤ m.live := List.single_le_sum (by simp) _ (List.mem_map_of_mem hmem)
  rw [held_active ha] at this
  exact singleton_le.mp this

lemma slot_of_live (h : r ∈ m.live) : ∃ s ∈ m.slots, s.region.active ∧ s.region = r := by
  obtain ⟨s,hs,hr⟩ := mem_total held h
  unfold held at hr
  split at hr
  · next ha => exact ⟨s,hs,ha,(Multiset.mem_singleton.mp hr).symm⟩
  · exact absurd hr (notMem_zero r)

end

structure Inserted (retained : FsKind → Bool) (m : Mm) (p : MmapRegion) (m' : Mm) : Prop where
  layout : Layout m'
  live : m'.live = p ::ₘ m.live
  below : ∀ n P, AllBelow n P m.slots → P p → AllBelow n P m'.slots
  asUsed : m'.asUsed = m.asUsed
  dataUsed : m'.dataUsed = m.dataUsed
  refs : m'.refCount =
    if retained p.fileKind then (retainFile m p.fileKind p.fileIdx).refCount else m.refCount

variable {find : Mm → Option ℕ}

lemma insertPiece_inserted (hf : Finds find) (retained : FsKind → Bool)
    (h : Layout m) (hp : p.active) (room : Multiset.card m.live < maxRegions) :
    ∃ m', insertPiece find retained m p = some m' ∧ Inserted retained m p m' := by
  obtain ⟨i,s,hi,hs,ha⟩ := inactiveSlot_room h room
  have hlive : (m.fill i p).live = p ::ₘ m.live := by
    have := live_set hs (m.fill i p) rfl
    rw [held_inactive ha,add_zero,held_active (s := ⟨p,true⟩) hp] at this
    rw [this,add_comm,singleton_add]
  have hlay : Layout (m.fill i p) := by
    refine ⟨by simp [Mm.fill,h.length],bits_set h.bits hp.symm,?_⟩
    rw [hlive,card_cons,← h.count]
    rfl
  have hbelow : ∀ n P, AllBelow n P m.slots → P p → AllBelow n P (m.fill i p).slots :=
    fun n P hb hP => allBelow_set hb (fun _ => hP)
  rw [insertPiece,hf m h,hi,Option.map_some]
  by_cases hr : retained p.fileKind
  · rw [if_pos hr]
    exact ⟨_,rfl,⟨hlay.length,hlay.bits,hlay.count⟩,hlive,hbelow,rfl,rfl,by rw [if_pos hr]; rfl⟩
  · rw [if_neg hr]
    exact ⟨_,rfl,hlay,hlive,hbelow,rfl,rfl,by rw [if_neg hr]; rfl⟩

variable {m' : Mm} {retained : FsKind → Bool}

lemma Inserted.balanced
    (h : Inserted retained m p m') (hr : retained p.fileKind = p.fileKind.counted)
    {others : FsKind → ℕ → ℕ} (hb : Balanced others m) : Balanced others m' := by
  intro k i hk
  have hm := hb k i hk
  rw [h.refs,h.live,Multiset.countP_cons,hr]
  by_cases he : p.fileKind = k ∧ p.fileIdx = i
  · rw [if_pos he,he.1,if_pos hk,he.2]
    simp only [retainFile,and_self,if_true,hm]
    omega
  rw [if_neg he]
  have he' : ¬ (k = p.fileKind ∧ i = p.fileIdx) := fun hc => he ⟨hc.1.symm,hc.2.symm⟩
  split
  · simp only [retainFile,he',if_false,hm,add_zero]
  · rw [hm,add_zero]

structure Placed (retained : FsKind → Bool) (m : Mm) (i : ℕ) (r : MmapRegion)
    (pieces : List MmapRegion) (m' : Mm) : Prop where
  layout : Layout m'
  live : m'.live+{r} = m.live+pieces
  below : ∀ P, AllBelow i P m.slots → (∀ p ∈ pieces, P p) → AllBelow (i+1) P m'.slots
  asUsed : m'.asUsed = m.asUsed
  dataUsed : m'.dataUsed = m.dataUsed
  balanced : ∀ others, (∀ p ∈ pieces, SameBacking p r) →
    (retained r.fileKind = r.fileKind.counted ∨ pieces.length ≤ 1) →
    Balanced others m → Balanced others m'

variable {i : ℕ} {s : Slot}

lemma put_placed (retained : FsKind → Bool)
    (h : Layout m) (hs : m.slots[i]? = some s) (ha : s.region.active) (hp : p.active) :
    Placed retained m i s.region [p] (m.put i p) := by
  have hput : m.put i p = {m with slots := m.slots.set i {s with region := p}} := by
    simp only [Mm.put,hs]
  have hbit : s.bit = p.active := by
    rw [h.bits s (mem_of_getElem? hs),ha,hp]
  have hlive : (m.put i p).live+{s.region} = m.live+{p} := by
    have := live_set hs (m.put i p) (by rw [hput])
    rwa [held_active ha,held_active (s := ⟨p,s.bit⟩) hp] at this
  refine ⟨⟨?_,?_,?_⟩,hlive,?_,by rw [hput],by rw [hput],?_⟩
  · simp [hput,h.length]
  · rw [hput]
    exact bits_set h.bits hbit
  · have hcard := congrArg Multiset.card hlive
    simp only [card_add,card_singleton,add_left_inj] at hcard
    rw [hcard,← h.count,hput]
  · intro P hb hP
    rw [hput]
    exact allBelow_snoc hb (fun _ => hP p (by simp))
  · intro others hk _ hb k j hc
    have hcnt := congrArg (Multiset.countP (fun r => r.fileKind = k ∧ r.fileIdx = j)) hlive
    simp only [countP_add,← cons_zero,Multiset.countP_cons,countP_zero,
      (hk p (by simp)).backs_iff hc,add_left_inj] at hcnt
    rw [hcnt,← hb k j hc,hput]

lemma clear_placed (retained : FsKind → Bool) (h : Layout m)
    (hs : m.slots[i]? = some s) (ha : s.region.active) :
    Placed retained m i s.region [] (m.clear i) := by
  have hslots : (m.clear i).slots = m.slots.set i
      ⟨{s.region with fileKind := .none, shared := false, active := false},false⟩ := by
    simp only [Mm.clear,hs]
    split <;> rfl
  have hrefs : (m.clear i).refCount = if s.region.fileKind.counted
      then (closeFile m s.region.fileKind s.region.fileIdx).refCount else m.refCount := by
    simp only [Mm.clear,hs]
    split <;> rfl
  have hled : (m.clear i).asUsed = m.asUsed ∧ (m.clear i).dataUsed = m.dataUsed ∧
      (m.clear i).count = m.count-1 := by
    simp only [Mm.clear,hs]
    split <;> exact ⟨rfl,rfl,rfl⟩
  have hlive : (m.clear i).live+{s.region} = m.live := by
    have := live_set hs (m.clear i) hslots
    rwa [held_active ha,held_inactive rfl,add_zero] at this
  have hcard := congrArg Multiset.card hlive
  rw [card_add,card_singleton] at hcard
  refine ⟨⟨?_,?_,?_⟩,by simpa using hlive,?_,hled.1,hled.2.1,?_⟩
  · simp [hslots,h.length]
  · rw [hslots]
    exact bits_set h.bits rfl
  · have := h.count
    rw [hled.2.2]
    omega
  · intro P hb _
    rw [hslots]
    exact allBelow_snoc hb (by simp)
  · intro others _ _ hb k j hc
    have hcnt := congrArg (Multiset.countP (fun r => r.fileKind = k ∧ r.fileIdx = j)) hlive
    have hm := hb k j hc
    simp only [countP_add,← cons_zero,Multiset.countP_cons,countP_zero] at hcnt
    rw [hrefs]
    by_cases he : s.region.fileKind = k ∧ s.region.fileIdx = j
    · rw [if_pos he] at hcnt
      rw [he.1,if_pos hc,he.2]
      simp only [closeFile,and_self,if_true]
      omega
    rw [if_neg he] at hcnt
    have he' : ¬ (k = s.region.fileKind ∧ j = s.region.fileIdx) :=
      fun hq => he ⟨hq.1.symm,hq.2.symm⟩
    have hrc : (if s.region.fileKind.counted
        then (closeFile m s.region.fileKind s.region.fileIdx).refCount else m.refCount) k j =
        m.refCount k j := by
      split
      · simp only [closeFile,he',if_false]
      · rfl
    rw [hrc]
    omega

variable {pieces : List MmapRegion}

lemma Placed.insert {m m'' : Mm} (h : Placed retained m i r pieces m') (hne : pieces ≠ [])
    (hi : Inserted retained m' p m'') : Placed retained m i r (pieces++[p]) m'' where
  layout := hi.layout
  live := by
    rw [hi.live,← singleton_add,add_assoc,h.live,← coe_add,coe_singleton]
    abel
  below := by
    intro P hb hP
    exact hi.below _ P (h.below P hb (fun q hq => hP q (by simp [hq]))) (hP p (by simp))
  asUsed := hi.asUsed.trans h.asUsed
  dataUsed := hi.dataUsed.trans h.dataUsed
  balanced := by
    intro others hk hret hb
    have hpos := length_pos_iff.mpr hne
    have hret : retained r.fileKind = r.fileKind.counted := hret.resolve_right (by
      rw [length_append,length_singleton]
      omega)
    exact hi.balanced (by rw [(hk p (by simp)).1]; exact hret)
      (h.balanced others (fun q hq => hk q (by simp [hq])) (.inl hret) hb)

lemma inserts_placed (hf : Finds find) (retained : FsKind → Bool) (ps : List MmapRegion)
    (h : Placed retained m i r pieces m') (hne : pieces ≠ []) (hp : ∀ p ∈ ps, p.active)
    (room : Multiset.card m'.live+ps.length ≤ maxRegions) :
    ∃ m'', ps.foldlM (insertPiece find retained) m' = some m'' ∧
      Placed retained m i r (pieces++ps) m'' := by
  induction ps generalizing m' pieces with
  | nil => exact ⟨m',rfl,by simpa using h⟩
  | cons p ps ih =>
    obtain ⟨n,hn,hi⟩ := insertPiece_inserted hf retained h.layout (hp p (by simp))
      (by simp only [length_cons] at room; omega)
    obtain ⟨m'',hm,hP⟩ := ih (h.insert hne hi) (by simp) (fun q hq => hp q (by simp [hq])) (by
      rw [hi.live,card_cons]
      simp only [length_cons] at room
      omega)
    refine ⟨m'',?_,by simpa using hP⟩
    rw [foldlM_cons,hn]
    exact hm

lemma place_placed (hf : Finds find) (retained : FsKind → Bool)
    (h : Layout m) (hs : m.slots[i]? = some s) (ha : s.region.active)
    (pieces : List MmapRegion) (hp : ∀ p ∈ pieces, p.active)
    (room : Multiset.card m.live+(pieces.length-1) ≤ maxRegions) :
    ∃ m', place find retained m i pieces = some m' ∧ Placed retained m i s.region pieces m' := by
  rcases pieces with _ | ⟨p,ps⟩
  · exact ⟨_,rfl,clear_placed retained h hs ha⟩
  have hput := put_placed retained h hs ha (hp p (by simp))
  have hcard := congrArg Multiset.card hput.live
  simp only [card_add,card_singleton,coe_singleton,add_left_inj] at hcard
  exact inserts_placed hf retained ps hput (by simp) (fun q hq => hp q (by simp [hq]))
    (by rw [hcard]; simpa using room)

/-- Pieces are valid regions again and a second pass leaves them alone. -/
structure Rewriting (V : MmapRegion → Prop) (f : MmapRegion → List MmapRegion) : Prop where
  active : ∀ r, V r → r.active
  keeps : ∀ r, V r → ∀ p ∈ f r, V p
  settled : ∀ r, V r → ∀ p ∈ f r, f p = [p]

def piecesOf (f : MmapRegion → List MmapRegion) (r : MmapRegion) : Multiset MmapRegion := f r

def extraSlots (f : MmapRegion → List MmapRegion) (u : Multiset MmapRegion) : ℕ :=
  (u.map fun r => (f r).length-1).sum

structure Pass (V : MmapRegion → Prop) (f : MmapRegion → List MmapRegion)
    (retained : FsKind → Bool) (m₀ : Mm) (i : ℕ) (m : Mm) : Prop where
  layout : Layout m
  valid : ∀ r ∈ m.live, V r
  room : extraSlots f m.live+Multiset.card m.live ≤ maxRegions
  settled : AllBelow i (fun r => f r = [r]) m.slots
  whole : m.live.bind (piecesOf f) = m₀.live.bind (piecesOf f)
  asUsed : m.asUsed = m₀.asUsed
  dataUsed : m.dataUsed = m₀.dataUsed
  balanced : ∀ others, (∀ r, V r → ∀ p ∈ f r, SameBacking p r) →
    (∀ r, V r → retained r.fileKind = r.fileKind.counted ∨ (f r).length ≤ 1) →
    Balanced others m₀ → Balanced others m

section
variable {V : MmapRegion → Prop} {f : MmapRegion → List MmapRegion} {retained : FsKind → Bool}
  {find : Mm → Option ℕ} {m₀ m : Mm} {i : ℕ}

lemma Pass.start (h : Layout m) (hv : ∀ r ∈ m.live, V r)
    (room : extraSlots f m.live+Multiset.card m.live ≤ maxRegions) : Pass V f retained m 0 m :=
  ⟨h,hv,room,fun j hj => absurd hj (Nat.not_lt_zero j),rfl,rfl,rfl,fun _ _ _ hb => hb⟩

lemma Pass.skip (h : Pass V f retained m₀ i m)
    (hs : ∀ s, m.slots[i]? = some s → s.region.active = false) : Pass V f retained m₀ (i+1) m :=
  {h with
    settled := by
      intro j hj s hjs ha
      rcases Nat.lt_succ_iff_lt_or_eq.mp hj with hlt | rfl
      · exact h.settled j hlt s hjs ha
      · rw [hs s hjs] at ha
        exact absurd ha (by simp)}

lemma extraSlots_settled {l : List MmapRegion} (h : ∀ p ∈ l, f p = [p]) :
    extraSlots f (l : Multiset MmapRegion) = 0 := by
  simp only [extraSlots,map_coe,sum_coe]
  apply List.sum_eq_zero
  intro x hx
  obtain ⟨p,hp,rfl⟩ := List.mem_map.mp hx
  rw [h p hp]
  rfl

lemma Pass.step (hf : Finds find) (hR : Rewriting V f) (h : Pass V f retained m₀ i m)
    (hs : m.slots[i]? = some s) (ha : s.region.active) :
    ∃ m', place find retained m i (f s.region) = some m' ∧ Pass V f retained m₀ (i+1) m' ∧
      m'.live+{s.region} = m.live+(f s.region : Multiset MmapRegion) := by
  have hmem := live_mem hs ha
  have hV := h.valid _ hmem
  have hset := hR.settled _ hV
  obtain ⟨u,hu⟩ := exists_cons_of_mem hmem
  have hroom := h.room
  rw [hu] at hroom
  simp only [extraSlots,Multiset.map_cons,Multiset.sum_cons,card_cons] at hroom
  obtain ⟨m',hm',hP⟩ := place_placed hf retained h.layout hs ha (f s.region)
    (fun p hp => hR.active p (hR.keeps _ hV p hp)) (by
      rw [hu,card_cons]
      omega)
  have hlive : m'.live = u+(f s.region : Multiset MmapRegion) := by
    have := hP.live
    rw [hu,← singleton_add,add_assoc,add_comm] at this
    exact add_left_cancel this
  refine ⟨m',hm',⟨hP.layout,?_,?_,?_,?_,hP.asUsed.trans h.asUsed,hP.dataUsed.trans h.dataUsed,?_⟩,hP.live⟩
  · intro r hr
    rw [hlive] at hr
    rcases Multiset.mem_add.mp hr with hr | hr
    · exact h.valid r (by rw [hu]; exact Multiset.mem_cons_of_mem hr)
    · exact hR.keeps _ hV r (by simpa using hr)
  · have hz := extraSlots_settled hset
    simp only [extraSlots] at hz
    rw [hlive,extraSlots,Multiset.map_add,sum_add,hz,card_add,coe_card]
    omega
  · exact hP.below _ h.settled hset
  · rw [← h.whole]
    refine bind_exchange (piecesOf f) (r := s.region) ?_ hP.live
    intro p hp
    have := hset p (by simpa [piecesOf] using hp)
    simp [Settled,piecesOf,this]
  · intro others hsame hret hb
    exact hP.balanced others (hsame _ hV) (hret _ hV) (h.balanced others hsame hret hb)

lemma live_all {P : MmapRegion → Prop} (h : Layout m) (hP : AllBelow maxRegions P m.slots) :
    ∀ r ∈ m.live, P r := by
  intro r hr
  obtain ⟨s,hs,ha,rfl⟩ := slot_of_live hr
  obtain ⟨j,hj,rfl⟩ := getElem_of_mem hs
  exact hP j (by rw [← h.length]; exact hj) _ (getElem?_eq_getElem hj) ha

lemma Pass.finish (h : Pass V f retained m₀ maxRegions m) :
    m.live = m₀.live.bind (piecesOf f) := by
  rw [← h.whole]
  symm
  apply bind_settled
  intro r hr
  have := live_all h.layout h.settled r hr
  simp [Settled,piecesOf,this]

end

end MoQiOS.Vma
