import MoQiOS.VmaSplits
import MoQiOS.Runs

/-!
# The table over a whole life

From the empty table, every sequence of tracking, untracking, splitting and
merging steps keeps the table in order, provided each step comes after the
preflight its callers perform: the range is free, or the slots a split needs
are. Disjointness is carried as the statement that no page has two views.
-/

namespace MoQiOS.Vma
open SlotTables Runs List Multiset
set_option maxRecDepth 9000

inductive TableOp where
  | track (base numPages : ℕ) (md : Option RegionFileMeta) (prot : ℕ) (shared : Bool)
      (hugePages : ℕ) (anonymous : Bool)
  | trackNoFree (base numPages : ℕ)
  | untrack (base numPages : ℕ)
  | protect (addr pages newProt : ℕ)
  | split (idx oldAddr pages : ℕ)
  | merge (a b : ℕ)

def rangeFree (m : Mm) (base numPages : ℕ) : Prop :=
  base%4096 = 0 ∧ 0 < numPages ∧ base+numPages*4096 ≤ userAddrMax ∧ hasMmapOverlap m base numPages = false

def splitPlan (m : Mm) (idx oldAddr pages : ℕ) : Option Plan :=
  (m.slots[idx]?).bind fun s =>
    if s.region.active && s.region.fileKind == .none && !s.region.noFree && oldAddr%4096 == 0 then
      plan (s.region.base/4096) s.region.numPages s.region.hugePages (oldAddr/4096) pages
    else none

def TableOp.ready (m : Mm) : TableOp → Prop
  | .track base n md prot shared huge anonymous =>
    rangeFree m base n ∧ (anonymous = true → md = none ∧ huge = 0) ∧
      (canTrackMmapRegion m base n anonymous prot shared = true ∨ canTrackReplacement m base n = true)
  | .trackNoFree base n => rangeFree m base n ∧ canTrackMmapRegion m base n false 0 false = true
  | .untrack base n => base%4096 = 0 ∧ 0 < n ∧ canUntrack m base n = true
  | .protect addr pages _ => addr%4096 = 0 ∧ 0 < pages ∧ protectSlotsNeeded m addr pages ≤ freeSlots m
  | .split idx oldAddr pages => ∃ p ∈ splitPlan m idx oldAddr pages, p.extraSlots ≤ freeSlots m
  | .merge _ _ => True

/-- No value: a step ran out of slots. -/
def TableOp.step (m : Mm) : TableOp → Option Mm
  | .track base n md prot shared huge _ => trackMmapRegion m base n md prot shared huge
  | .trackNoFree base n => trackNoFreeRegion m base n
  | .untrack base n => some (untrackMmapRange m base n)
  | .protect addr pages newProt => protectRegions m addr pages newProt
  | .split idx oldAddr pages =>
    (splitPlan m idx oldAddr pages).bind fun p => splitRegionForRange m idx p oldAddr
  | .merge a b => some (mergeIfAdjacent m a b)

def TableOp.perform (m : Mm) (c : TableOp) : Mm := (c.step m).getD m

structure Sound (top : ℕ) (m : Mm) : Prop where
  layout : Layout m
  valid : ∀ r ∈ m.live, Valid top r
  single : ∀ va, Multiset.card (m.viewsAt va) ≤ 1

variable {top : ℕ} {m : Mm}

lemma splitPlan_some {idx oldAddr pages : ℕ} {p : Plan}
    (h : splitPlan m idx oldAddr pages = some p) :
    ∃ t, m.slots[idx]? = some t ∧ t.region.active = true ∧ t.region.fileKind = .none ∧
      oldAddr%4096 = 0 ∧ plan (t.region.base/4096) t.region.numPages t.region.hugePages
        (oldAddr/4096) pages = some p := by
  simp only [splitPlan,Option.bind_eq_some_iff] at h
  obtain ⟨t,ht,h⟩ := h
  split at h
  · next hcond =>
    simp only [Bool.and_eq_true,beq_iff_eq,Bool.not_eq_true'] at hcond
    obtain ⟨⟨⟨ha,hk⟩,-⟩,hb⟩ := hcond
    exact ⟨t,ht,ha,hk,hb,h⟩
  · cases h

lemma card_views_le (va : ℕ) (r : MmapRegion) : Multiset.card (views va r) ≤ 1 := by
  unfold views
  split <;> simp

variable {base n : ℕ}

lemma overlap_apart {s : Slot} (ho : hasMmapOverlap m base n = false) (hs : s ∈ m.slots)
    (hb : s.bit = true) : s.region.fin ≤ base ∨ base+n*4096 ≤ s.region.base := by
  simp only [hasMmapOverlap,any_eq_false,Bool.and_eq_true,not_and,Bool.not_eq_true] at ho
  have := ho s hs hb
  simp only [rangesOverlap,Bool.and_eq_false_iff,decide_eq_false_iff_not] at this
  simp only [MmapRegion.fin]
  omega

lemma overlap_views {va : ℕ} (h : Layout m)
    (ho : hasMmapOverlap m base n = false) (hb : base ≤ va) (hf : va < base+n*4096) :
    m.viewsAt va = 0 := by
  rw [Mm.viewsAt,eq_zero_iff_forall_notMem]
  intro v hv'
  obtain ⟨r,hr,hvr⟩ := mem_bind.mp hv'
  obtain ⟨s,hs,ha,rfl⟩ := slot_of_live hr
  have hapart := overlap_apart ho hs (by rw [h.bits s hs]; exact ha)
  rw [views,if_neg (by omega)] at hvr
  exact notMem_zero v hvr

lemma charge_live (m : Mm) (n : ℕ) (w : Bool) : (m.charge n w).live = m.live := rfl

lemma Layout.charge (h : Layout m) (n : ℕ) (w : Bool) : Layout (m.charge n w) :=
  ⟨h.length,h.bits,h.count⟩

variable {r : MmapRegion} {prot : ℕ} {shared : Bool}

lemma anonMergeSide_cases (hs : anonMergeSide r base n prot shared ≠ .none) :
    r.active ∧ r.fileKind = .none ∧ r.prot = prot ∧ r.shared = shared ∧
      ((anonMergeSide r base n prot shared = .after ∧ r.fin = base) ∨
        (anonMergeSide r base n prot shared = .before ∧ base+n*4096 = r.base)) := by
  unfold anonMergeSide at hs ⊢
  by_cases h1 : (!r.active || r.hugePages != 0 || r.noFree || r.fileKind != .none) = true
  · rw [if_pos h1] at hs
    exact absurd rfl hs
  by_cases h2 : (r.prot != prot || r.shared != shared) = true
  · rw [if_neg h1,if_pos h2] at hs
    exact absurd rfl hs
  rw [if_neg h1,if_neg h2] at hs ⊢
  simp only [Bool.or_eq_true,bne_iff_ne,ne_eq,Bool.not_eq_true',not_or,not_not,
    Bool.not_eq_false] at h1 h2
  refine ⟨h1.1.1.1,h1.2,h2.1,h2.2,?_⟩
  by_cases h3 : r.fin = base
  · exact .inl ⟨if_pos h3,h3⟩
  rw [if_neg h3] at hs ⊢
  by_cases h4 : base+n*4096 = r.base
  · exact .inr ⟨if_pos h4,h4⟩
  · exact absurd (if_neg h4) hs

variable {a b : ℕ}

lemma merged_facts (hv : Valid top r) (hb : base%4096 = 0) (hbd : base+n*4096 ≤ top)
    (hs : anonMergeSide r base n prot shared ≠ .none) :
    ∃ p, p = merged r base n (anonMergeSide r base n prot shared) ∧ Valid top p ∧ p.fileKind = .none ∧
      p.writablePrivate = r.writablePrivate ∧ p.numPages = r.numPages+n ∧
      ∀ va, ¬(base ≤ va ∧ va < base+n*4096) → views va p = views va r := by
  obtain ⟨ha,hal,hp,hbd'⟩ := hv
  have hfin : r.fin = r.base+r.numPages*4096 := rfl
  obtain ⟨-,hk,-,-,hside⟩ := anonMergeSide_cases hs
  have hview : ∀ side va, (merged r base n side).view va = r.view va := by
    intro side va
    cases side <;> simp [merged,MmapRegion.view,hk]
  rcases hside with ⟨he,hadj⟩ | ⟨he,hadj⟩
  · have hmf : (merged r base n .after).fin = base+n*4096 := by
      rw [← hadj]
      simp only [merged,MmapRegion.fin]
      ring
    refine ⟨_,rfl,?_⟩
    rw [he]
    refine ⟨⟨ha,hal,Nat.add_pos_left hp n,hmf ▸ hbd⟩,hk,rfl,rfl,fun va hva => ?_⟩
    have hbase : (merged r base n .after).base = r.base := rfl
    rw [views,views,hview,hmf,hbase]
    split_ifs <;> first | rfl | omega
  · have hmf : (merged r base n .before).fin = r.fin := by
      simp only [merged,MmapRegion.fin,← hadj]
      ring
    refine ⟨_,rfl,?_⟩
    rw [he]
    refine ⟨⟨ha,hb,Nat.add_pos_left hp n,hmf ▸ hbd'⟩,hk,rfl,rfl,fun va hva => ?_⟩
    have hbase : (merged r base n .before).base = base := rfl
    rw [views,views,hview,hmf,hbase]
    split_ifs <;> first | rfl | omega

variable {m' : Mm}

lemma exchange_valid {V : MmapRegion → Prop} {old new : Multiset MmapRegion}
    (hl : m'.live+old = m.live+new) (hv : ∀ r ∈ m.live, V r) (hn : ∀ p ∈ new, V p) :
    ∀ r ∈ m'.live, V r := by
  intro r hr
  have : r ∈ m.live+new := hl ▸ Multiset.mem_add.mpr (.inl hr)
  exact (Multiset.mem_add.mp this).elim (hv r) (hn r)

lemma live_count_lt (h : Layout m) (hc : m.count < m.slots.length) :
    Multiset.card m.live < maxRegions := by
  rw [← h.count,← h.length]
  exact hc

lemma canTrackReplacement_room (h : Layout m) (hfree : rangeFree m base n)
    (hc : canTrackReplacement m base n) : Multiset.card m.live < maxRegions := by
  simp only [canTrackReplacement,decide_eq_true_eq,h.length] at hc
  have hones : ((m.slots.filter (·.bit)).map fun s => piecesOutside base (base+n*4096) s.region).sum =
      m.slots.countP (·.bit) := by
    rw [countP_eq_length_filter]
    have : ∀ s ∈ m.slots.filter (·.bit), piecesOutside base (base+n*4096) s.region = 1 := by
      intro s hs
      obtain ⟨hm,hbit⟩ := List.mem_filter.mp hs
      have hapart := overlap_apart hfree.2.2.2 hm hbit
      rw [piecesOutside,if_pos]
      omega
    rw [map_congr_left this]
    simp
  have hfs := freeSlots_eq h
  have hle : m.slots.countP (·.bit) ≤ m.slots.length := countP_le_length
  rw [freeSlots,h.length] at hfs
  rw [hones] at hc
  rw [h.length] at hle
  omega

lemma newRegion_valid (md : Option RegionFileMeta) (prot huge : ℕ) (shared : Bool)
    (hb : base%4096 = 0) (hn : 0 < n) (hbd : base+n*4096 ≤ top) :
    Valid top (newRegion base n md prot shared huge) ∧
      (newRegion base n md prot shared huge).base = base ∧
      (newRegion base n md prot shared huge).numPages = n := by
  cases md <;> exact ⟨⟨rfl,hb,hn,hbd⟩,rfl,rfl⟩

lemma trackMmapRegion_cases (htop : userAddrMax ≤ top) (md : Option RegionFileMeta) (huge : ℕ) {anonymous : Bool} (h : Layout m)
    (hv : ∀ r ∈ m.live, Valid top r) (hfree : rangeFree m base n)
    (han : anonymous = true → md = none ∧ huge = 0)
    (hc : canTrackMmapRegion m base n anonymous prot shared = true ∨ canTrackReplacement m base n = true) :
    ∃ m', trackMmapRegion m base n md prot shared huge = some m' ∧
      ((∃ i s p, m.slots[i]? = some s ∧ s.region.active ∧ md = none ∧
        anonMergeSide s.region base n prot shared ≠ .none ∧
        p = merged s.region base n (anonMergeSide s.region base n prot shared) ∧
        Placed (fun _ => false) (m.charge n (prot.testBit 1 && !shared)) i s.region [p] m') ∨
      Inserted (fun _ => false) (m.charge n (prot.testBit 1 && !shared))
        (newRegion base n md prot shared huge) m') := by
  set m₁ := m.charge n (prot.testBit 1 && !shared) with hm₁
  have hlay : Layout m₁ := h.charge _ _
  have hslots : m₁.slots = m.slots := rfl
  rw [trackMmapRegion]
  cases htar : (if md.isNone && huge == 0 then mergeSlot m₁ base n prot shared else none) with
  | some i =>
    simp only [← hm₁]
    split at htar
    · next hcond =>
      obtain ⟨hi,hside,-⟩ := findIdx?_eq_some_iff_getElem.mp htar
      have hs : m₁.slots[i]? = some m₁.slots[i] := getElem?_eq_getElem hi
      have hne : anonMergeSide m₁.slots[i].region base n prot shared ≠ .none := by simpa using hside
      have ha := (anonMergeSide_cases hne).1
      have hmd : md = none := by
        simp only [Bool.and_eq_true,Option.isNone_iff_eq_none] at hcond
        exact hcond.1
      have hvs := hv _ (live_mem (m := m) hs ha)
      obtain ⟨p,hp,hpv,-⟩ := merged_facts hvs hfree.1 (hfree.2.2.1.trans htop) hne
      refine ⟨_,by rw [hs]; rfl,.inl ⟨i,_,_,hs,ha,hmd,hne,rfl,?_⟩⟩
      exact put_placed _ hlay hs ha (hp ▸ hpv.active)
    · exact absurd htar (by simp)
  | none =>
    simp only [← hm₁]
    have hroom : Multiset.card m₁.live < maxRegions := by
      change Multiset.card m.live < maxRegions
      rcases hc with hc | hc
      · simp only [canTrackMmapRegion,Bool.or_eq_true,decide_eq_true_eq,Bool.and_eq_true] at hc
        rcases hc with hc | ⟨hanon,hany⟩
        · exact live_count_lt h hc
        obtain ⟨hmd,hhuge⟩ := han hanon
        rw [hmd,hhuge] at htar
        simp only [Option.isNone_none,beq_self_eq_true,Bool.and_self,if_true,mergeSlot,
          findIdx?_eq_none_iff] at htar
        obtain ⟨s,hs,hside⟩ := any_eq_true.mp hany
        have := htar s hs
        simp only [Bool.and_eq_true] at hside
        rw [this] at hside
        exact absurd hside.2 (by simp)
      · exact canTrackReplacement_room h hfree hc
    obtain ⟨m',hm',hi⟩ := insertPiece_inserted finds_freeSlot (fun _ => false) hlay
      (newRegion_valid md prot huge shared hfree.1 hfree.2.1 hfree.2.2.1).1.active hroom
    exact ⟨m',hm',.inr hi⟩

lemma merged_fin {a b : MmapRegion} (h : a.fin = b.base) :
    ({a with numPages := a.numPages+b.numPages} : MmapRegion).fin = b.fin := by
  have hb : b.fin = b.base+b.numPages*4096 := rfl
  rw [hb,← h]
  simp only [MmapRegion.fin]
  ring

lemma merged_valid {a b : MmapRegion} (ha : Valid top a) (hb : Valid top b)
    (h : a.fin = b.base) :
    ∀ p ∈ ({{a with numPages := a.numPages+b.numPages}} : Multiset MmapRegion), Valid top p := by
  intro p hp
  rw [Multiset.mem_singleton] at hp
  rw [hp]
  exact ⟨ha.active,ha.aligned,Nat.add_pos_left ha.pages _,(merged_fin h).trans_le hb.bound⟩

lemma mergeIfAdjacent_cases (h : Layout m) : mergeIfAdjacent m a b = m ∨
    ∃ sa sb, m.slots[a]? = some sa ∧ m.slots[b]? = some sb ∧ a ≠ b ∧ sa.region.active ∧
      sb.region.active ∧ sa.region.fin = sb.region.base ∧ canCoalesce sa.region sb.region ∧
      Layout (mergeIfAdjacent m a b) ∧ (mergeIfAdjacent m a b).live+({sa.region}+{sb.region}) =
        m.live+{{sa.region with numPages := sa.region.numPages+sb.region.numPages}} ∧
      (mergeIfAdjacent m a b).asUsed = m.asUsed ∧ (mergeIfAdjacent m a b).dataUsed = m.dataUsed ∧
      (mergeIfAdjacent m a b).refCount = m.refCount := by
  rw [mergeIfAdjacent]
  rcases hsa : m.slots[a]? with _ | sa
  · exact .inl rfl
  rcases hsb : m.slots[b]? with _ | sb
  · exact .inl rfl
  by_cases h1 : (decide (a = b) || !sa.region.active || !sb.region.active) = true
  · exact .inl (if_pos h1)
  by_cases h2 : sa.region.fin ≠ sb.region.base
  · exact .inl ((if_neg h1).trans (if_pos h2))
  by_cases h3 : (!canCoalesce sa.region sb.region) = true
  · exact .inl ((if_neg h1).trans ((if_neg h2).trans (if_pos h3)))
  right
  simp only [h1,h2,h3,if_false,Bool.false_eq_true]
  simp only [Bool.or_eq_true,decide_eq_true_eq,Bool.not_eq_true',not_or, Bool.not_eq_false] at h1 h3
  obtain ⟨⟨hne,ha⟩,hb⟩ := h1
  refine ⟨sa,sb,rfl,rfl,hne,ha,hb,not_not.mp h2,h3,?_⟩
  set p := {sa.region with numPages := sa.region.numPages+sb.region.numPages} with hp
  have hput := put_placed (fun _ => false) (p := p) h hsa ha ha
  have hslots : (m.put a p).slots = m.slots.set a {sa with region := p} := by
    simp only [Mm.put,hsa]
  have hsb' : (m.put a p).slots[b]? = some sb := by
    rw [hslots,getElem?_set_ne hne,hsb]
  set m' : Mm := {m.put a p with
    slots := (m.put a p).slots.set b ⟨{sb.region with active := false},false⟩
    count := (m.put a p).count-1} with hm'
  have hlive' := live_set hsb' m' rfl
  rw [held_active hb,held_inactive rfl,add_zero] at hlive'
  have hlive : m'.live+({sa.region}+{sb.region}) = m.live+{p} := by
    rw [add_comm ({sa.region} : Multiset MmapRegion),← add_assoc,hlive']
    simpa using hput.live
  have hcard := congrArg Multiset.card hlive'
  rw [card_add,card_singleton] at hcard
  refine ⟨⟨?_,bits_set hput.layout.bits rfl,?_⟩,hlive,hput.asUsed,hput.dataUsed,?_⟩
  · rw [← hput.layout.length]
    exact length_set
  · have := hput.layout.count
    change (m.put a p).count-1 = _
    omega
  · simp only [Mm.put,hsa]

lemma trackNoFreeRegion_inserted (h : Layout m)
    (hc : canTrackMmapRegion m base n false 0 false = true) : ∃ m', trackNoFreeRegion m base n = some m' ∧
      Inserted (fun _ => false) (m.charge n false)
        {base := base, numPages := n, active := true, locked := true, noFree := true} m' := by
  simp only [canTrackMmapRegion,Bool.false_and,Bool.or_false,decide_eq_true_eq] at hc
  exact insertPiece_inserted finds_inactiveSlot _ (h.charge n false) rfl
    (live_count_lt (h.charge n false) hc)

lemma split_spec {idx oldAddr pages : ℕ} (h : Layout m) (hv : ∀ r ∈ m.live, Valid top r)
    (hr : (TableOp.split idx oldAddr pages).ready m) :
    ∃ r pieces m', (TableOp.split idx oldAddr pages).step m = some m' ∧ r.fileKind = .none ∧
      Placed (fun _ => false) m idx r pieces m' ∧
      (∀ q ∈ pieces, Valid top q ∧ q.fileKind = .none ∧ q.writablePrivate = r.writablePrivate) ∧
      (pieces.map (·.numPages)).sum = r.numPages ∧
      ∀ va, (pieces.map (views va)).sum = views va r := by
  obtain ⟨p,hp,hc⟩ := hr
  rw [Option.mem_def] at hp
  obtain ⟨t,ht,ha,hk,hb,hplan⟩ := splitPlan_some hp
  have hvt := hv _ (live_mem ht ha)
  obtain ⟨m',hm',hP⟩ := splitRegionForRange_placed h ht hvt hk hb hplan hc
  obtain ⟨hval,hsum,-,hviews⟩ := splitPieces_facts hvt hk hb hplan
  exact ⟨t.region,_,m',by simp only [TableOp.step,hp,Option.bind_some,hm'],hk,hP, hval,hsum,hviews⟩

section
variable (r : MmapRegion) (w : MmapRegion → ℕ) {old new : Multiset MmapRegion}
  {f : MmapRegion → List MmapRegion}

def dataPages : ℕ := if r.writablePrivate then r.numPages else 0

lemma dataPagesIn_eq (u : Multiset MmapRegion) : dataPagesIn u = (u.map dataPages).sum := rfl

lemma weight_exchange (h : m'.live+old = m.live+new) :
    (m'.live.map w).sum+(old.map w).sum = (m.live.map w).sum+(new.map w).sum := by
  have := congrArg (fun u => (u.map w).sum) h
  simpa using this

lemma weight_rewrite {u : Multiset MmapRegion} (h : ∀ r ∈ u, ((f r).map w).sum = w r) :
    ((u.bind (piecesOf f)).map w).sum = (u.map w).sum := by
  induction u using Multiset.induction_on with
  | empty => simp
  | cons r u ih =>
    rw [cons_bind,Multiset.map_add,sum_add,Multiset.map_cons,Multiset.sum_cons,
      ih (fun r hr => h r (Multiset.mem_cons_of_mem hr)),← h r (Multiset.mem_cons_self r u)]
    simp [piecesOf]

lemma dataPages_pieces {l : List MmapRegion} {r : MmapRegion}
    (hw : ∀ p ∈ l, p.writablePrivate = r.writablePrivate) (hn : (l.map (·.numPages)).sum = r.numPages) :
    (l.map dataPages).sum = dataPages r := by
  have := dataPagesIn_pieces hw
  rw [dataPagesIn_eq,map_coe,sum_coe,hn] at this
  exact this

lemma pagesIn_singleton : pagesIn {r} = r.numPages := by simp [pagesIn]

lemma dataPagesIn_singleton : dataPagesIn {r} = dataPages r := by
  simp [dataPagesIn_eq]

lemma charge_ledgers (m : Mm) (n : ℕ) (r r' : MmapRegion) (hw : r'.writablePrivate = r.writablePrivate)
    (hn : r'.numPages = r.numPages+n) :
    (m.charge n r.writablePrivate).asUsed+r.numPages*4096 = m.asUsed+r'.numPages*4096 ∧
    (m.charge n r.writablePrivate).dataUsed+dataPages r*4096 = m.dataUsed+dataPages r'*4096 := by
  simp only [Mm.charge,dataPages,hw,hn]
  cases r.writablePrivate <;> simp <;> omega

lemma ledger_follows {a a' p p' o n : ℕ} (h : a'+o*4096 = a+n*4096) (hp : p'+o = p+n) :
    a'+p*4096 = a+p'*4096 := by linarith

end

lemma views_outside {r : MmapRegion} {va : ℕ} (h : va < r.base ∨ r.fin ≤ va) : views va r = 0 := by
  rw [views,if_neg]
  omega

lemma sameBacking_none {p r : MmapRegion} (hp : p.fileKind = .none) (hr : r.fileKind = .none) :
    SameBacking p r :=
  ⟨hp.trans hr.symm,fun hc => absurd hc (by simp [hp,FsKind.counted])⟩

lemma inserted_balanced {others : FsKind → ℕ → ℕ} {p : MmapRegion}
    (h : Inserted (fun _ => false) m p m') (hb : Balanced
      (fun k i => others k i+if p.fileKind = k ∧ p.fileIdx = i then 1 else 0) m) : Balanced others m' := by
  intro k i hk
  rw [h.refs,if_neg (by simp),hb k i hk,h.live,Multiset.countP_cons]
  ring

def TableOp.touched : TableOp → ℕ → Prop
  | .track base n _ _ _ _ _, va | .trackNoFree base n, va | .untrack base n, va
  | .protect base n _, va => base ≤ va ∧ va < base+n*4096
  | .split _ _ _, _ | .merge _ _, _ => False

def TableOp.debit : TableOp → FsKind → ℕ → ℕ
  | .track base n md prot shared huge _, k, i =>
    let p := newRegion base n md prot shared huge
    if p.fileKind = k ∧ p.fileIdx = i then 1 else 0
  | _, _, _ => 0

/-- `mprotect` turns no region between charged and uncharged. -/
def TableOp.steady (m : Mm) : TableOp → Prop
  | .protect addr pages newProt => ∀ r ∈ m.live, ∀ p ∈ protectPieces addr pages newProt r,
      p.writablePrivate = r.writablePrivate
  | _ => True

structure Redone (top : ℕ) (c : TableOp) (m m' : Mm) : Prop where
  layout : Layout m'
  valid : ∀ r ∈ m'.live, Valid top r
  views : ∀ va, ¬c.touched va → m'.viewsAt va = m.viewsAt va
  single : ∀ va, Multiset.card (m.viewsAt va) ≤ 1 → Multiset.card (m'.viewsAt va) ≤ 1
  space : pagesIn m.live*4096 ≤ m.asUsed →
    m'.asUsed+pagesIn m.live*4096 = m.asUsed+pagesIn m'.live*4096
  data : c.steady m → dataPagesIn m.live*4096 ≤ m.dataUsed →
    m'.dataUsed+dataPagesIn m.live*4096 = m.dataUsed+dataPagesIn m'.live*4096
  balanced : (∀ addr pages prot, c ≠ .protect addr pages prot) → ∀ others,
    Balanced (fun k i => others k i+c.debit k i) m → Balanced others m'

section
variable {c : TableOp} {old new : Multiset MmapRegion} (h : Layout m) (hv : ∀ r ∈ m.live, Valid top r)
include hv

lemma Redone.of_exchange (hlay : Layout m') (hl : m'.live+old = m.live+new)
    (hnew : ∀ p ∈ new, Valid top p)
    (hviews : ∀ va, ¬c.touched va → new.bind (Vma.views va) = old.bind (Vma.views va))
    (hin : ∀ va, c.touched va → m.viewsAt va = 0 ∧ Multiset.card (new.bind (Vma.views va)) ≤ 1)
    (has : m'.asUsed+pagesIn old*4096 = m.asUsed+pagesIn new*4096)
    (hdata : m'.dataUsed+dataPagesIn old*4096 = m.dataUsed+dataPagesIn new*4096)
    (hbal : ∀ others, Balanced (fun k i => others k i+c.debit k i) m → Balanced others m') :
    Redone top c m m' := by
  have hbind : ∀ va, m'.viewsAt va+old.bind (Vma.views va) = m.viewsAt va+new.bind (Vma.views va) := by
    intro va
    rw [Mm.viewsAt,Mm.viewsAt,← add_bind,hl,add_bind]
  have hout : ∀ va, ¬c.touched va → m'.viewsAt va = m.viewsAt va := by
    intro va hva
    have := hbind va
    rw [hviews va hva] at this
    exact add_right_cancel this
  refine ⟨hlay,exchange_valid hl hv hnew,hout,fun va hs => ?_,
    fun _ => ledger_follows has (weight_exchange _ hl),
    fun _ _ => ledger_follows hdata (weight_exchange _ hl),fun _ => hbal⟩
  by_cases hva : c.touched va
  · obtain ⟨hz,hle⟩ := hin va hva
    have := congrArg Multiset.card (hbind va)
    rw [card_add,card_add,hz,card_zero] at this
    omega
  · rw [hout va hva]
    exact hs

include h

lemma Inserted.redone {p : MmapRegion} {w : Bool} (ho : hasMmapOverlap m base n = false)
    (hi : Inserted (fun _ => false) (m.charge n w) p m') (hb : p.base = base) (hn : p.numPages = n)
    (hw : p.writablePrivate = w) (hp : Valid top p)
    (hc : ∀ va, c.touched va ↔ base ≤ va ∧ va < base+n*4096)
    (hbal : ∀ others, Balanced (fun k i => others k i+c.debit k i) m → Balanced others m') :
    Redone top c m m' := by
  have hl : m'.live+0 = m.live+{p} := by
    rw [hi.live,add_zero,add_comm,singleton_add,charge_live]
  refine .of_exchange hv hi.layout hl (by simpa using hp) (fun va hva => ?_) (fun va hva => ?_) ?_ ?_ hbal
  · rw [hc] at hva
    have hout : va < p.base ∨ p.fin ≤ va := by
      rw [MmapRegion.fin,hb,hn]
      omega
    simp [views_outside hout]
  · obtain ⟨h1,h2⟩ := (hc va).mp hva
    exact ⟨overlap_views h ho h1 h2,by simpa using card_views_le va p⟩
  · rw [hi.asUsed,pagesIn_singleton,hn]
    simp [pagesIn,Mm.charge]
  · rw [hi.dataUsed,dataPagesIn_singleton,dataPages,hw,hn]
    cases w <;> simp [dataPagesIn,Mm.charge]

lemma TableOp.redone (htop : userAddrMax ≤ top) (hr : c.ready m) :
    ∃ m', c.step m = some m' ∧ Redone top c m m' := by
  cases c with
  | track base n md prot shared huge anonymous =>
    obtain ⟨hfree,han,hc⟩ := hr
    obtain ⟨m',hm',hcase⟩ := trackMmapRegion_cases htop md huge h hv hfree han hc
    refine ⟨m',hm',?_⟩
    have hbd := hfree.2.2.1.trans htop
    rcases hcase with ⟨i,t,p,ht,ha,rfl,hne,hp,hP⟩ | hi
    · obtain ⟨q,hq,hvq,hqk,hwq,hnq,hout⟩ := merged_facts (hv _ (live_mem ht ha)) hfree.1 hbd hne
      rw [← hq] at hp
      subst hp
      obtain ⟨-,hk,hprot,hshared,-⟩ := anonMergeSide_cases hne
      have hw : t.region.writablePrivate = (prot.testBit 1 && !shared) := by
        rw [MmapRegion.writablePrivate,hprot,hshared]
      obtain ⟨h1,h2⟩ := charge_ledgers m n _ _ hwq hnq
      refine .of_exchange hv hP.layout hP.live (by simpa using hvq) (fun va hva => ?_)
        (fun va hva => ⟨overlap_views h hfree.2.2.2 hva.1 hva.2,?_⟩) ?_ ?_ fun others hb => ?_
      · simpa using hout va hva
      · simpa using card_views_le va p
      · rw [hP.asUsed,← hw,pagesIn_singleton,coe_singleton,pagesIn_singleton]
        exact h1
      · rw [hP.dataUsed,← hw,dataPagesIn_singleton,coe_singleton,dataPagesIn_singleton]
        exact h2
      · refine hP.balanced others (by simpa using sameBacking_none hqk hk) (.inr (by simp)) ?_
        intro k j hk
        have hz : debit (.track base n none prot shared huge anonymous) k j = 0 := by
          refine if_neg ?_
          rintro ⟨rfl,-⟩
          exact absurd hk (by simp [newRegion,FsKind.counted])
        have := hb k j hk
        simp only [hz,add_zero] at this
        exact this
    · obtain ⟨hvn,hb,hn⟩ := newRegion_valid md prot huge shared hfree.1 hfree.2.1 hbd
      exact hi.redone h hv hfree.2.2.2 hb hn (by cases md <;> rfl) hvn (fun _ => Iff.rfl)
        fun _ hb => inserted_balanced hi hb
  | trackNoFree base n =>
    obtain ⟨hfree,hc⟩ := hr
    obtain ⟨m',hm',hi⟩ := trackNoFreeRegion_inserted h hc
    exact ⟨m',hm',hi.redone h hv hfree.2.2.2 rfl rfl (by simp [MmapRegion.writablePrivate])
      ⟨rfl,hfree.1,hfree.2.1,hfree.2.2.1.trans htop⟩ (fun _ => Iff.rfl) fun _ hb => hi.balanced rfl hb⟩
  | untrack base n =>
    obtain ⟨hb,hn,hc⟩ := hr
    obtain ⟨hlay,hloop⟩ := untrackMmapRange_spec h hv hb hn hc
    have hviews := splits_views_untrack h hv hb hn hc
    have h1 := hloop.refunded
    have h2 := hloop.dataRefunded
    refine ⟨_,rfl,hlay,hloop.pass.valid,fun va hva => ?_,fun va hs => ?_,fun hle => ?_,fun _ hle => ?_,
      fun _ others => ?_⟩
    · exact (hviews va).trans (if_neg hva)
    · rw [hviews]
      split
      · simp
      · exact hs
    · change _-_+_ = _+pagesIn (Untracking.mm _).live*4096
      rw [hloop.pass.asUsed]
      omega
    · change _-_+_ = _+dataPagesIn (Untracking.mm _).live*4096
      rw [hloop.pass.dataUsed]
      omega
    · exact hloop.pass.balanced others (fun r _ => untrackPieces_backing) (fun r _ => .inl rfl)
  | protect addr pages newProt =>
    obtain ⟨hb,hpg,hc⟩ := hr
    obtain ⟨m',hm',hp⟩ := protectRegions_pass newProt h hv hb hpg hc
    have hviews := splits_views_protect hv hb hpg hp
    have hn : ∀ r ∈ m.live, ((protectPieces addr pages newProt r).map (·.numPages)).sum = r.numPages :=
      fun r hr => protectPieces_pages hb hpg (hv r hr)
    refine ⟨m',hm',hp.layout,hp.valid,fun va hva => ?_,fun va hs => ?_,fun _ => ?_,fun hst _ => ?_,
      fun hc => absurd rfl (hc _ _ _)⟩
    · rw [hviews]
      simp only [show ¬(addr ≤ va ∧ va < addr+pages*4096) from hva,if_false,Multiset.map_id']
    · rw [hviews,card_map]
      exact hs
    · rw [hp.asUsed,pagesIn,pagesIn,hp.finish,weight_rewrite _ hn]
    · rw [hp.dataUsed,dataPagesIn_eq,dataPagesIn_eq,hp.finish,
        weight_rewrite _ fun r hr => dataPages_pieces (hst r hr) (hn r hr)]
  | split idx oldAddr pages =>
    obtain ⟨r,pieces,m',hm',hk,hP,hval,hsum,hviews⟩ := split_spec h hv hr
    refine ⟨m',hm',.of_exchange hv hP.layout hP.live (fun q hq => (hval q (by simpa using hq)).1)
      (fun va _ => ?_) (fun _ => False.elim) ?_ ?_ fun others => ?_⟩
    · rw [singleton_bind,← hviews va]
      simp [Multiset.bind,Multiset.join]
    · rw [hP.asUsed,pagesIn_singleton,pagesIn_coe,hsum]
    · rw [hP.dataUsed,dataPagesIn_singleton,dataPagesIn_eq,map_coe,sum_coe,
        dataPages_pieces (fun q hq => (hval q hq).2.2) hsum]
    · exact hP.balanced others (fun q hq => sameBacking_none (hval q hq).2.1 hk) (.inl (by rw [hk]; rfl))
  | merge a b =>
    refine ⟨_,rfl,?_⟩
    rcases mergeIfAdjacent_cases (a := a) (b := b) h with he |
        ⟨sa,sb,hsa,hsb,-,ha,hb,hadj,hcoal,hlay,hlive,has,hdata,hrefs⟩
    · rw [he]
      exact ⟨h,hv,fun _ _ => rfl,fun _ hs => hs,fun _ => rfl,fun _ _ => rfl,fun _ _ hb => hb⟩
    have hva := hv _ (live_mem hsa ha)
    have hvb := hv _ (live_mem hsb hb)
    have hsf : sb.region.fin = sb.region.base+sb.region.numPages*4096 := rfl
    have hsa' : sa.region.fin = sa.region.base+sa.region.numPages*4096 := rfl
    set p : MmapRegion := {sa.region with numPages := sa.region.numPages+sb.region.numPages} with hp
    have hfin : p.fin = sb.region.fin := merged_fin hadj
    simp only [canCoalesce,Bool.and_eq_true,beq_iff_eq,Bool.not_eq_true'] at hcoal
    have hw : sb.region.writablePrivate = sa.region.writablePrivate := by
      rw [MmapRegion.writablePrivate,MmapRegion.writablePrivate,hcoal.1.1.2,hcoal.1.2]
    have hwp : p.writablePrivate = sa.region.writablePrivate := rfl
    refine .of_exchange hv hlay hlive (merged_valid hva hvb hadj) (fun va _ => ?_) (fun _ => False.elim)
      ?_ ?_ fun others hbal k i hk => ?_
    · have hview : sb.region.view va = sa.region.view va := by
        simp [MmapRegion.view,hcoal]
      have hnew : p.view va = sa.region.view va := rfl
      have hbase : p.base = sa.region.base := rfl
      simp only [singleton_bind,add_bind,Vma.views,hfin,hview,hnew,hbase]
      split_ifs <;> first | rfl | (simp only [hsf,hsa'] at *; omega)
    · rw [has,pagesIn_singleton]
      simp [pagesIn,hp]
    · rw [hdata,dataPagesIn_singleton]
      simp only [dataPagesIn_eq,Multiset.map_add,Multiset.map_singleton,sum_add,
        Multiset.sum_singleton,dataPages,hw,hwp]
      cases sa.region.writablePrivate <;> simp [hp]
    · have hnone : ¬ (FsKind.none = k) := by
        rintro rfl
        exact absurd hk (by simp [FsKind.counted])
      obtain ⟨hka,hkb⟩ : sa.region.fileKind = .none ∧ sb.region.fileKind = .none := by tauto
      have hcnt := congrArg (Multiset.countP (fun r => r.fileKind = k ∧ r.fileIdx = i)) hlive
      simp only [countP_add,← cons_zero,Multiset.countP_cons,
        countP_zero,hka,hkb,hp,hnone,false_and,if_false,add_zero] at hcnt
      rw [hrefs,hcnt]
      exact hbal k i hk

end

lemma step_sound (htop : userAddrMax ≤ top) (h : Sound top m) (c : TableOp) (hr : c.ready m) :
    ∃ m', c.step m = some m' ∧ Sound top m' := by
  obtain ⟨m',hm',hx⟩ := TableOp.redone h.layout h.valid htop hr
  exact ⟨m',hm',hx.layout,hx.valid,fun va => hx.single va (h.single va)⟩

lemma empty_sound (top : ℕ) (refs : FsKind → ℕ → ℕ) : Sound top (Mm.empty refs) := by
  have hlive : (Mm.empty refs).live = 0 := by
    simp [Mm.live,Mm.empty,total,held]
  refine ⟨⟨by simp [Mm.empty],?_,by rw [hlive]; rfl⟩,?_,?_⟩
  · intro s hs
    rw [List.eq_of_mem_replicate hs]
  · intro r hr
    rw [hlive] at hr
    exact absurd hr (notMem_zero r)
  · intro va
    rw [Mm.viewsAt,hlive]
    simp

lemma reached_sound {refs : FsKind → ℕ → ℕ}
    (h : Reaches (Guarded (fun m c => TableOp.ready m c) TableOp.perform) (Mm.empty refs) m) :
    Sound userAddrMax m := by
  refine invariant (I := Sound userAddrMax) ?_ h (empty_sound _ refs)
  rintro s c t hs ⟨hr,rfl⟩
  obtain ⟨m',hm',hm⟩ := step_sound le_rfl hs c hr
  rw [TableOp.perform,hm']
  exact hm

lemma Sound.disjoint (h : Sound top m) {i j : ℕ} {s t : Slot} (hij : i ≠ j)
    (hs : m.slots[i]? = some s) (ht : m.slots[j]? = some t) (ha : s.region.active)
    (hb : t.region.active) : s.region.fin ≤ t.region.base ∨ t.region.fin ≤ s.region.base := by
  by_contra hc
  rw [not_or,not_le,not_le] at hc
  have hvs := h.valid _ (live_mem hs ha)
  have hvt := h.valid _ (live_mem ht hb)
  have hsf : s.region.fin = s.region.base+s.region.numPages*4096 := rfl
  have htf : t.region.fin = t.region.base+t.region.numPages*4096 := rfl
  have hps := hvs.pages
  have hpt := hvt.pages
  let va := max s.region.base t.region.base
  -- clearing slot i leaves the region of slot j, so both count at va
  let m' : Mm := {m with slots := m.slots.set i {}}
  have hx := live_set hs m' rfl
  rw [held_active ha,held_inactive rfl,add_zero] at hx
  have ht' : m'.slots[j]? = some t := by
    change (m.slots.set i {})[j]? = _
    rw [getElem?_set_ne hij,ht]
  obtain ⟨u,hu⟩ := exists_cons_of_mem (live_mem ht' hb)
  have h1 := h.single va
  rw [Mm.viewsAt,← hx,hu,add_bind,cons_bind,singleton_bind,
    card_add,card_add,views,views,if_pos (by omega),
    if_pos (by omega),card_singleton,card_singleton] at h1
  omega

/-- The preflights suffice in every table a life can produce, and the table is
in order: the bitmap and the count agree with the slots, and the active regions
are aligned, not empty, below the end of user space and pairwise disjoint. -/
theorem reached_tables_in_order (refs : FsKind → ℕ → ℕ) (m : Mm)
    (h : Reaches (Guarded (fun m c => TableOp.ready m c) TableOp.perform) (Mm.empty refs) m) :
    (∀ c : TableOp, c.ready m → (c.step m).isSome) ∧
    (∀ base n, (TableOp.untrack base n).ready m → (untrackMmapRange m base n).live =
      m.live.bind (piecesOf (untrackPieces base (base+n*4096)))) ∧
    m.slots.length = maxRegions ∧ (∀ s ∈ m.slots, s.bit = s.region.active) ∧
    m.count = m.slots.countP (·.region.active) ∧
    (∀ s ∈ m.slots, s.region.active → s.region.base%4096 = 0 ∧ 0 < s.region.numPages ∧
      s.region.fin ≤ userAddrMax) ∧
    (∀ (i j : ℕ) (s t : Slot), i ≠ j → m.slots[i]? = some s → m.slots[j]? = some t → s.region.active →
      t.region.active → s.region.fin ≤ t.region.base ∨ t.region.fin ≤ s.region.base) := by
  have hs := reached_sound h
  refine ⟨?_,?_,hs.layout.length,hs.layout.bits,?_,?_,?_⟩
  · intro c hr
    obtain ⟨m',hm',-⟩ := step_sound le_rfl hs c hr
    rw [hm']
    rfl
  · rintro base n ⟨hb,hn,hc⟩
    exact untrackMmapRange_live hs.layout hs.valid hb hn hc
  · rw [hs.layout.count, card_live, countP_total]
  · intro s hm ha
    have hv := hs.valid _ (slot_live hm ha)
    exact ⟨hv.aligned,hv.pages,hv.bound⟩
  · intro i j s t hij hi hj ha hb
    exact hs.disjoint hij hi hj ha hb

instance (m : Mm) (base n : ℕ) : Decidable (rangeFree m base n) :=
  inferInstanceAs (Decidable (_ ∧ _))

instance (m : Mm) (c : TableOp) : Decidable (c.ready m) := by
  cases c <;> dsimp only [TableOp.ready] <;> infer_instance

/-- Two anonymous ranges that merge, a file whose middle page changes its
protection, a cut for a move that is undone, and an unmapping across both. -/
def tableLife : List TableOp :=
  [.track 65536 4 none 3 false 0 true,
   .track 81920 4 none 3 false 0 true,
   .track 131072 5 (some ⟨.fat32,false,true,1,4096,40960,3,0,77⟩) 1 false 0 false,
   .protect 135168 1 3,
   .split 0 69632 2,
   .merge 0 4,
   .untrack 90112 11]

theorem reached_tables_in_order_tableLife :
    ((Runs.run TableOp.perform (Mm.empty fun _ _ => 0) tableLife).count = 4) ∧
    ∀ (i j : ℕ) (s t : Slot), i ≠ j →
      (Runs.run TableOp.perform (Mm.empty fun _ _ => 0) tableLife).slots[i]? = some s →
      (Runs.run TableOp.perform (Mm.empty fun _ _ => 0) tableLife).slots[j]? = some t →
      s.region.active → t.region.active →
      s.region.fin ≤ t.region.base ∨ t.region.fin ≤ s.region.base := by
  have ha : Admissible TableOp.ready TableOp.perform (Mm.empty fun _ _ => 0) tableLife := by
    with_unfolding_all decide
  have h := reached_tables_in_order (fun _ _ => 0) _ (run_reaches (.start _ _) ha)
  exact ⟨by with_unfolding_all decide,h.2.2.2.2.2.2⟩

abbrev Shown := Option Backing×ℕ×Bool

def PageView.shown (v : PageView) : Shown := (v.backing,v.prot,v.shared)

/-- What a page shows: its file and place there, its protection, its sharing. -/
def Mm.shownAt (m : Mm) (va : ℕ) : Multiset Shown := (m.viewsAt va).map PageView.shown

instance (c : TableOp) (va : ℕ) : Decidable (c.touched va) := by
  cases c <;> dsimp only [TableOp.touched] <;> infer_instance

/-- The page map: what a call makes of a page that showed `v`. -/
def TableOp.page (va : ℕ) (v : Multiset Shown) (c : TableOp) : Multiset Shown :=
  if c.touched va then
    match c with
    | .track base n md prot shared huge _ =>
      {((newRegion base n md prot shared huge).view va).shown}
    | .trackNoFree _ _ => {(none,0,false)}
    | .untrack _ _ => 0
    | .protect _ _ prot => v.map fun w => (w.1,if w.1.isSome then prot else w.2.1,w.2.2)
    | .split _ _ _ | .merge _ _ => v
  else v

section
variable {va : ℕ} {p : MmapRegion}

lemma shownAt_put {old : Multiset MmapRegion} (hz : m.viewsAt va = 0)
    (hl : m'.live+old = m.live+{p}) (hold : ∀ r ∈ old, r ∈ m.live) (hb : p.base ≤ va)
    (hf : va < p.fin) : m'.shownAt va = {(p.view va).shown} := by
  have hnone : old.bind (views va) = 0 := by
    refine eq_zero_of_forall_notMem fun v hv => ?_
    obtain ⟨r,hr,hvr⟩ := mem_bind.mp hv
    exact notMem_zero v (hz ▸ mem_bind.mpr ⟨r,hold r hr,hvr⟩)
  have hviews := congrArg (Multiset.bind · (views va)) hl
  rw [Mm.viewsAt] at hz
  simp only [add_bind,hnone,singleton_bind,hz,add_zero,zero_add] at hviews
  rw [Mm.shownAt,Mm.viewsAt,hviews,views,if_pos ⟨hb,hf⟩]
  rfl

lemma Inserted.shownAt {w : Bool} (hi : Inserted (fun _ => false) (m.charge n w) p m')
    (hz : m.viewsAt va = 0) (hb : p.base ≤ va) (hf : va < p.fin) :
    m'.shownAt va = {(p.view va).shown} := by
  have hl := hi.live
  rw [charge_live,← singleton_add,add_comm,← add_zero m'.live] at hl
  exact shownAt_put hz hl (fun r hr => absurd hr (notMem_zero r)) hb hf

lemma merged_shownAt {t : Slot} {i : ℕ} {w : Bool} (hz : m.viewsAt va = 0) (hb : base ≤ va)
    (hf : va < base+n*4096) (ht : m.slots[i]? = some t) (ha : t.region.active)
    (hne : anonMergeSide t.region base n prot shared ≠ .none)
    (hP : Placed (fun _ => false) (m.charge n w) i t.region
      [merged t.region base n (anonMergeSide t.region base n prot shared)] m') :
    m'.shownAt va = {(none,prot,shared)} := by
  -- the neighbour that grows is anonymous and has the same rights
  obtain ⟨-,hk,hprot,hshared,hside⟩ := anonMergeSide_cases hne
  have hl := hP.live
  rw [charge_live,coe_singleton] at hl
  rw [MmapRegion.fin] at hside
  rw [shownAt_put hz hl (by simpa using live_mem ht ha)] <;>
    rcases hside with ⟨he,_⟩ | ⟨he,_⟩ <;> simp only [he,merged,MmapRegion.fin]
  any_goals linarith
  all_goals simp [MmapRegion.view,PageView.shown,hk,hprot,hshared]

lemma TableOp.page_step {c : TableOp} (h : Sound userAddrMax m) (hr : c.ready m) (va : ℕ) :
    (c.perform m).shownAt va = c.page va (m.shownAt va) := by
  obtain ⟨m',hm',hx⟩ := TableOp.redone h.layout h.valid le_rfl hr
  rw [TableOp.perform,hm',Option.getD_some]
  unfold page
  split_ifs with hva
  swap
  · rw [Mm.shownAt,hx.views va hva,Mm.shownAt]
  cases c with
  | split | merge => exact hva.elim
  | untrack base n =>
    cases hm'
    rw [Mm.shownAt,splits_views_untrack h.layout h.valid hr.1 hr.2.1 hr.2.2]
    exact congrArg _ (if_pos hva)
  | protect addr pages newProt =>
    obtain ⟨m'',hm'',hp⟩ := protectRegions_pass newProt h.layout h.valid hr.1 hr.2.1 hr.2.2
    obtain rfl := Option.some.inj (hm''.symm.trans hm')
    dsimp only
    rw [Mm.shownAt,splits_views_protect h.valid hr.1 hr.2.1 hp,Mm.shownAt,Multiset.map_map,
      Multiset.map_map]
    refine map_congr rfl fun v _ => ?_
    obtain ⟨hb,hf⟩ := hva
    by_cases hfile : v.backing.isSome <;> simp [PageView.reprotect,PageView.shown,hb,hf,hfile]
  | trackNoFree base n =>
    obtain ⟨m'',hm'',hi⟩ := trackNoFreeRegion_inserted h.layout hr.2
    obtain rfl := Option.some.inj (hm''.symm.trans hm')
    exact hi.shownAt (overlap_views h.layout hr.1.2.2.2 hva.1 hva.2) hva.1 hva.2
  | track base n md prot shared huge anonymous =>
    obtain ⟨hfree,han,hc⟩ := hr
    obtain ⟨hb,hf⟩ := hva
    obtain ⟨m'',hm'',hcase⟩ := trackMmapRegion_cases le_rfl md huge h.layout h.valid hfree han hc
    obtain rfl := Option.some.inj (hm''.symm.trans hm')
    have hz := overlap_views h.layout hfree.2.2.2 hb hf
    rcases hcase with ⟨i,t,p,ht,ha,rfl,hne,rfl,hP⟩ | hi
    · exact merged_shownAt hz hb hf ht ha hne hP
    · obtain ⟨-,hbase,hn⟩ := newRegion_valid md prot huge shared hfree.1 hfree.2.1 hfree.2.2.1
      apply hi.shownAt hz (hbase.trans_le hb)
      rwa [MmapRegion.fin,hbase,hn]

end

lemma Sound.perform {c : TableOp} (h : Sound userAddrMax m) (hr : c.ready m) :
    Sound userAddrMax (c.perform m) := by
  obtain ⟨m',hm',hs⟩ := step_sound le_rfl h c hr
  rwa [TableOp.perform,hm']

lemma page_run (ops : List TableOp) (va : ℕ) (hs : Sound userAddrMax m)
    (ha : Admissible TableOp.ready TableOp.perform m ops) :
    (run TableOp.perform m ops).shownAt va = ops.foldl (TableOp.page va) (m.shownAt va) := by
  induction ops generalizing m with
  | nil => rfl
  | cons c ops ih =>
    rw [List.foldl_cons,← TableOp.page_step hs ha.1]
    exact ih (hs.perform ha.1) ha.2

/-- What a page shows follows from the calls that named it: how the table cuts,
joins and moves its regions shows nowhere. -/
theorem tables_refine_page_map (refs : FsKind → ℕ → ℕ) (ops : List TableOp)
    (h : Admissible TableOp.ready TableOp.perform (Mm.empty refs) ops) (va : ℕ) :
    (run TableOp.perform (Mm.empty refs) ops).shownAt va = ops.foldl (TableOp.page va) 0 := by
  rw [page_run ops va (empty_sound userAddrMax refs) h]
  simp [Mm.shownAt,Mm.viewsAt,Mm.live,Mm.empty,SlotTables.total,held]

theorem tables_refine_page_map_tableLife :
    (run TableOp.perform (Mm.empty fun _ _ => 0) tableLife).shownAt 135168 =
      {(some ⟨.fat32,3,77,0,40960,8192⟩,3,false)} := by
  rw [tables_refine_page_map _ _ (by with_unfolding_all decide)]
  decide

/-- Unmapping takes back a mapping, also where it had joined a neighbour. -/
theorem untrack_undoes_track {refs : FsKind → ℕ → ℕ} {md : Option RegionFileMeta} {huge : ℕ}
    {anon : Bool} (h : Reaches (Guarded TableOp.ready TableOp.perform) (Mm.empty refs) m)
    (ht : (TableOp.track base n md prot shared huge anon).ready m)
    (hu : (TableOp.untrack base n).ready ((TableOp.track base n md prot shared huge anon).perform m))
    (va : ℕ) : ((TableOp.untrack base n).perform
      ((TableOp.track base n md prot shared huge anon).perform m)).shownAt va = m.shownAt va := by
  have hs := reached_sound h
  rw [TableOp.page_step (hs.perform ht) hu,TableOp.page_step hs ht]
  unfold TableOp.page
  by_cases hva : base ≤ va ∧ va < base+n*4096
  · have hz := overlap_views hs.layout ht.1.2.2.2 hva.1 hva.2
    rw [Mm.shownAt,hz]
    exact if_pos hva
  · exact (if_neg hva).trans (if_neg hva)

theorem untrack_undoes_track_joined :
    let m := run TableOp.perform (Mm.empty fun _ _ => 0) (tableLife.take 1)
    ((TableOp.untrack 81920 4).perform ((TableOp.track 81920 4 none 3 false 0 true).perform m)).shownAt
      65536 = m.shownAt 65536 :=
  untrack_undoes_track (run_reaches (.start _ _) (by with_unfolding_all decide))
    (by with_unfolding_all decide) (by with_unfolding_all decide) _

end MoQiOS.Vma
