import MoQiOS.Fat32

/-!
# Cluster chains and their owners

The root directory and every live file own a chain of clusters. One rule gives
the chains after a change at a single owner; the allocator and the walks are
described by what they do to the table.
-/

namespace MoQiOS.Fat32

open ByteImages Chains List Option Function

def link (e : ℕ) : Option ℕ := if IsData e then some e else none

def Live (s : State) (i : ℕ) : Prop := i < s.fileCount ∧ (s.files i).active = true

instance (s : State) (i : ℕ) : Decidable (Live s i) := inferInstanceAs (Decidable (_ ∧ _))

section
variable (g : Geometry)

def next (d : Disk) (c : ℕ) : Option ℕ := link (entry g d c)

/-- Where the chain of an owner starts; `none` is the root directory. -/
def head (s : State) : Option ℕ → Option ℕ
  | none => link g.rootCluster
  | some i => if Live s i then link (s.files i).firstCluster else none

/-- The places a slot remembers are on its chain. -/
structure Slot (fi : FileInfo) (l : List ℕ) : Prop where
  last : IsData fi.lastCluster → l.getLast? = some fi.lastCluster
  walk : IsData fi.lastWalkCluster → l[fi.lastWalkIdx]? = some fi.lastWalkCluster

structure Owned (s : State) (chain : Option ℕ → List ℕ) : Prop where
  chained : ∀ o, Chain (next g s.disk) (head g s o) (chain o)
  inRange : ∀ o, ∀ c ∈ chain o, 2 ≤ c ∧ c < maxCluster g
  allocated : ∀ o, ∀ c ∈ chain o, entry g s.disk c ≠ 0
  disjoint : ∀ o o' c, c ∈ chain o → c ∈ chain o' → o = o'
  slot : ∀ i, Live s i → Slot (s.files i) (chain (some i))
  cursor : 2 ≤ s.lastFreeCluster

end

variable {c i n nc : ℕ} {l : List ℕ} {d : Disk}

lemma link_eq_some {e : ℕ} : link e = some c ↔ e = c ∧ IsData c := by
  rw [link]
  split_ifs with h
  · constructor
    · intro heq
      cases heq
      exact ⟨rfl,h⟩
    · rintro ⟨rfl,-⟩
      rfl
  · constructor
    · intro heq
      cases heq
    · rintro ⟨rfl,hd⟩
      exact absurd hd h

lemma link_of_data (h : IsData c) : link c = some c := if_pos h

lemma link_of_not (h : ¬IsData c) : link c = none := if_neg h

lemma endMark_not_data : ¬IsData endMark := by decide

variable {g : Geometry} {s t : State} {chain : Option ℕ → List ℕ}

lemma isData_of_lt (hlo : 2 ≤ c) (hhi : c < maxCluster g) : IsData c := by
  have hmax := (maxCluster_le g).1
  have hfit := g.clusters_fit
  exact ⟨hlo,by rw [endOfChain]; omega⟩

lemma lt_entries (h : c < maxCluster g) : c < g.fatSizeSectors*128 :=
  h.trans_le (maxCluster_le g).2

lemma getFATEntry_inRange (d : Disk) (hlo : 2 ≤ c) (hhi : c < maxCluster g) :
    getFATEntry g d c = some (entry g d c) :=
  getFATEntry_eq g d hlo (hhi.trans_le (maxCluster_le g).1)

variable (h : Owned g s chain)
include h

lemma Owned.update {o : Option ℕ}
    (hchain : Chain (next g t.disk) (head g t o) l)
    (hl : ∀ c ∈ l, 2 ≤ c ∧ c < maxCluster g ∧ entry g t.disk c ≠ 0)
    (hnew : ∀ c ∈ l, c ∈ chain o ∨ ∀ o', c ∉ chain o')
    (hsame : ∀ o' ≠ o, head g t o' = head g s o' ∧
      ∀ c ∈ chain o', entry g t.disk c = entry g s.disk c)
    (hslot : ∀ i, Live t i → Slot (t.files i) (update chain o l (some i)))
    (hcursor : 2 ≤ t.lastFreeCluster) : Owned g t (update chain o l) := by
  have hother : ∀ o' ≠ o, ∀ c ∈ chain o', c ∉ l := by
    intro o' ho' c hc hmem
    rcases hnew c hmem with hold | hfree
    · exact ho' (h.disjoint o' o c hc hold)
    · exact hfree o' hc
  constructor
  case chained =>
    intro o'
    rw [update_apply]
    split_ifs with ho
    · subst ho
      assumption
    rw [(hsame o' ho).1]
    refine (h.chained o').frame fun c hc => ?_
    rw [next,next,(hsame o' ho).2 c hc]
  case inRange =>
    intro o' c hc
    rw [update_apply] at hc
    split_ifs at hc with ho
    · exact ⟨(hl c hc).1,(hl c hc).2.1⟩
    · exact h.inRange o' c hc
  case allocated =>
    intro o' c hc
    rw [update_apply] at hc
    split_ifs at hc with ho
    · exact (hl c hc).2.2
    · rw [(hsame o' ho).2 c hc]
      exact h.allocated o' c hc
  case disjoint =>
    intro o₁ o₂ c h₁ h₂
    by_cases ho₁ : o₁ = o
    · by_cases ho₂ : o₂ = o
      · exact ho₁.trans ho₂.symm
      rw [ho₁,update_self] at h₁
      rw [update_of_ne ho₂] at h₂
      exact absurd h₁ (hother o₂ ho₂ c h₂)
    · rw [update_of_ne ho₁] at h₁
      rw [update_apply] at h₂
      split_ifs at h₂ with ho₂
      · exact absurd h₂ (hother o₁ ho₁ c h₁)
      · exact h.disjoint o₁ o₂ c h₁ h₂
  case slot => exact hslot
  case cursor => exact hcursor

lemma Owned.frame
    (hent : ∀ o, ∀ c ∈ chain o, entry g t.disk c = entry g s.disk c)
    (hlive : ∀ i, Live t i ↔ Live s i)
    (hfirst : ∀ i, (t.files i).firstCluster = (s.files i).firstCluster)
    (hslot : ∀ i, Live s i → Slot (t.files i) (chain (some i)))
    (hcursor : 2 ≤ t.lastFreeCluster) : Owned g t chain := by
  have hhead : ∀ o, head g t o = head g s o := by
    intro o
    cases o with
    | none => rfl
    | some i => simp only [head,hlive i,hfirst i]
  constructor
  case chained =>
    intro o
    rw [hhead]
    refine (h.chained o).frame fun c hc => ?_
    rw [next,next,hent o c hc]
  case inRange => exact h.inRange
  case allocated => exact fun o c hc => (hent o c hc).symm ▸ h.allocated o c hc
  case disjoint => exact h.disjoint
  case slot => exact fun i hi => hslot i ((hlive i).mp hi)
  case cursor => exact hcursor

lemma Owned.withDisk
    (hent : ∀ o, ∀ c ∈ chain o, entry g d c = entry g s.disk c) :
    Owned g {s with disk := d} chain :=
  h.frame hent (fun _ => Iff.rfl) (fun _ => rfl) h.slot h.cursor

lemma Owned.invalidateInode (c : ℕ) : Owned g (Fat32.invalidateInode s c) chain :=
  h.frame (fun _ _ _ => rfl) (fun _ => Iff.rfl) (fun _ => rfl) h.slot h.cursor

omit h

lemma setFile_cases (s : State) (i : ℕ) (fi : FileInfo) (j : ℕ) :
    j = i ∧ (s.setFile i fi).files j = fi ∨ j ≠ i ∧ (s.setFile i fi).files j = s.files j := by
  by_cases hj : j = i
  · subst hj
    exact .inl ⟨rfl,update_self ..⟩
  · exact .inr ⟨hj,update_of_ne hj ..⟩

lemma setFile_live (fi : FileInfo) (ha : fi.active = (s.files i).active) (j : ℕ) :
    Live (s.setFile i fi) j ↔ Live s j := by
  rcases setFile_cases s i fi j with ⟨rfl,hj⟩ | ⟨-,hj⟩
  · rw [Live,Live,hj,ha]
    rfl
  · rw [Live,Live,hj]
    rfl

lemma Owned.setFile (h : Owned g s chain) {fi : FileInfo}
    (ha : fi.active = (s.files i).active) (hf : fi.firstCluster = (s.files i).firstCluster)
    (hslot : Live s i → Slot fi (chain (some i))) : Owned g (s.setFile i fi) chain := by
  refine h.frame (fun _ _ _ => rfl) (setFile_live fi ha) (fun j => ?_) (fun j hj => ?_) h.cursor
  · rcases setFile_cases s i fi j with ⟨rfl,hj⟩ | ⟨-,hj⟩
    · rw [hj,hf]
    · rw [hj]
  · rcases setFile_cases s i fi j with ⟨rfl,heq⟩ | ⟨-,heq⟩
    · rw [heq]
      exact hslot hj
    · rw [heq]
      exact h.slot j hj

structure Fresh (g : Geometry) (s : State) (nc : ℕ) (t : State) : Prop where
  inRange : 2 ≤ nc ∧ nc < maxCluster g
  free : entry g s.disk nc = 0
  taken : entry g t.disk nc = endMark
  entries : ∀ c < g.fatSizeSectors*128, c ≠ nc → entry g t.disk c = entry g s.disk c
  zeros : ∀ k, clusterByte g nc ≤ k → k < clusterByte g nc+g.clusterSize → t.disk k = 0
  data : ∀ k, g.dataStart*sectorSize ≤ k →
    (k < clusterByte g nc ∨ clusterByte g nc+g.clusterSize ≤ k) → t.disk k = s.disk k
  rest : t = { s with disk := t.disk, lastFreeCluster := nc+1 }

lemma scanFree_spec (hmax : 2 < maxCluster g) (hc : 2 ≤ c) (h : scanFree g d n c = some nc) :
    2 ≤ nc ∧ nc < maxCluster g ∧ entry g d nc = 0 := by
  induction n generalizing c with
  | zero => cases h
  | succ n ih =>
    rw [scanFree] at h
    set c' := if maxCluster g ≤ c then 2 else c with hc'
    have hrange : 2 ≤ c' ∧ c' < maxCluster g := by
      rw [hc']
      split_ifs <;> omega
    rw [getFATEntry_inRange d hrange.1 hrange.2] at h
    dsimp only at h
    split_ifs at h with hzero
    · rw [← some.inj h]
      exact ⟨hrange.1,hrange.2,hzero⟩
    · exact ih (by omega) h

lemma clusterByte_data (hlo : 2 ≤ c) (hhi : c < maxCluster g) :
    g.dataStart*sectorSize ≤ clusterByte g c := by
  rw [clusterByte_eq g hlo (hhi.trans_le (maxCluster_le g).1)]
  omega

lemma allocZeroed_fresh (hmax : 2 < maxCluster g) (hcur : 2 ≤ s.lastFreeCluster)
    (h : allocZeroed g s = some (nc,t)) : Fresh g s nc t := by
  rw [allocZeroed,allocCluster,Option.map_map,map_eq_some_iff] at h
  obtain ⟨c,hscan,heq⟩ := h
  obtain ⟨hlo,hhi,hfree⟩ := scanFree_spec hmax hcur hscan
  simp only [comp_apply,Prod.mk.injEq] at heq
  obtain ⟨rfl,rfl⟩ := heq
  have hent := lt_entries hhi
  have hdata := clusterByte_data hlo hhi
  constructor
  case inRange => exact ⟨hlo,hhi⟩
  case free => exact hfree
  case taken =>
    dsimp only
    rw [zeroCluster_eq,entry_overwrite g _ _ hent hdata,
      entry_setFATEntry_self g _ hent (by decide)]
  case entries =>
    intro c' hc' hne
    dsimp only
    rw [zeroCluster_eq,entry_overwrite g _ _ hc' hdata,entry_setFATEntry_of_ne g _ _ hent hc' hne]
  case zeros =>
    intro k hk hk'
    dsimp only
    rw [zeroCluster_eq,overwrite_inside _ hk (by rw [length_replicate]; omega),getElem_replicate]
  case data =>
    intro k hk hout
    dsimp only
    rw [zeroCluster_eq,overwrite_outside _ (by rw [length_replicate]; exact hout),
      setFATEntry_data g _ _ hent hk]
  case rest => rfl

lemma Fresh.files (h : Fresh g s nc t) : t.files = s.files := by rw [h.rest]

lemma Fresh.fileCount (h : Fresh g s nc t) : t.fileCount = s.fileCount := by rw [h.rest]

include h

lemma Owned.root_mem : ∃ rest, chain none = g.rootCluster::rest := by
  have hroot : IsData g.rootCluster := by
    have hv := g.root_valid
    have hf := g.clusters_fit
    exact ⟨hv.1,by rw [endOfChain]; omega⟩
  have hc := h.chained none
  rw [head,link_of_data hroot] at hc
  cases hl : chain none with
  | nil =>
    rw [hl] at hc
    cases hc
  | cons c rest =>
    rw [hl] at hc
    obtain rfl := some.inj hc.1
    exact ⟨rest,rfl⟩

lemma Owned.max_gt : 2 < maxCluster g := by
  obtain ⟨rest,hrest⟩ := h.root_mem
  have hin := h.inRange none g.rootCluster (by rw [hrest]; exact mem_cons_self)
  omega

omit h

variable {start : Option ℕ}

lemma forward_chain (h : Chain (next g d) start l)
    (hr : ∀ c ∈ l, 2 ≤ c ∧ c < maxCluster g) {ci : ℕ} (hpos : link c = l[ci]?) :
    ∃ c' ci', forward g d n c ci = some (c',ci') ∧ link c' = l[ci']? ∧
      (IsData c' → ci' = ci+n) ∧ ci' ≤ ci+n := by
  induction n generalizing c ci with
  | zero => exact ⟨c,ci,rfl,hpos,fun _ => rfl,Nat.le_refl _⟩
  | succ n ih =>
    rw [forward]
    split_ifs with hc
    · rw [link_of_data hc] at hpos
      obtain ⟨hlo,hhi⟩ := hr c (mem_of_getElem? hpos.symm)
      rw [getFATEntry_inRange d hlo hhi]
      obtain ⟨c',ci',hfwd,hpos',hend,hle⟩ := ih (h.next_at hpos.symm)
      exact ⟨c',ci',hfwd,hpos',fun hd => by rw [hend hd]; omega,by omega⟩
    · exact ⟨c,ci,rfl,hpos,fun hd => absurd hd hc,Nat.le_add_right _ _⟩

lemma findLast_chain (h : Chain (next g d) (link c) l)
    (hr : ∀ x ∈ l, 2 ≤ x ∧ x < maxCluster g) {fuel last : ℕ} (hf : l.length ≤ fuel) :
    findLast g d fuel c last = some (some (l.getLast?.getD last)) := by
  induction l generalizing c fuel last with
  | nil =>
    have hc : ¬IsData c := fun hd => by
      rw [link_of_data hd] at h
      cases h
    cases fuel with
    | zero => exact if_neg hc
    | succ fuel => exact if_neg hc
  | cons a rest ih =>
    obtain ⟨rfl,hc⟩ := link_eq_some.mp h.1
    obtain ⟨fuel,rfl⟩ : ∃ k, fuel = k+1 := ⟨fuel-1,by simp at hf; omega⟩
    obtain ⟨hlo,hhi⟩ := hr c mem_cons_self
    rw [findLast,if_pos hc,getFATEntry_inRange d hlo hhi]
    dsimp only
    rw [ih h.2 (fun x hx => hr x (mem_cons_of_mem c hx)) (by simpa using hf),getLast?_cons]
    rfl

def extended (fi : FileInfo) (l : List ℕ) (nc : ℕ) : FileInfo :=
  { fi with firstCluster := (l.head?).getD nc, lastCluster := nc }

structure Appended (g : Geometry) (s : State) (i : ℕ) (l : List ℕ) (nc : ℕ) (t : State) : Prop where
  inRange : 2 ≤ nc ∧ nc < maxCluster g
  free : entry g s.disk nc = 0
  taken : entry g t.disk nc = endMark
  linked : ∀ last, l.getLast? = some last → entry g t.disk last = nc
  entries : ∀ c < g.fatSizeSectors*128, c ≠ nc → l.getLast? ≠ some c →
    entry g t.disk c = entry g s.disk c
  zeros : ∀ k, clusterByte g nc ≤ k → k < clusterByte g nc+g.clusterSize → t.disk k = 0
  data : ∀ k, g.dataStart*sectorSize ≤ k →
    (k < clusterByte g nc ∨ clusterByte g nc+g.clusterSize ≤ k) → t.disk k = s.disk k
  rest : t = { s with
    disk := t.disk
    lastFreeCluster := nc+1
    files := update s.files i (extended (s.files i) l nc) }

structure FileChain (g : Geometry) (s : State) (i : ℕ) (l : List ℕ) : Prop where
  chained : Chain (next g s.disk) (link (s.files i).firstCluster) l
  inRange : ∀ c ∈ l, 2 ≤ c ∧ c < maxCluster g
  allocated : ∀ c ∈ l, entry g s.disk c ≠ 0
  slot : Slot (s.files i) l

lemma FileChain.first_mem (h : FileChain g s i l) (hd : IsData (s.files i).firstCluster) :
    (s.files i).firstCluster ∈ l := by
  have hhead := h.chained.head_eq
  rw [link_of_data hd] at hhead
  exact mem_of_head? hhead.symm

lemma last_kept (hl : l ≠ []) (hn : 0 < n) : ∃ last, (l.take n).getLast? = some last :=
  ⟨_,getLast?_eq_some_getLast (by simp [hl]; omega)⟩

lemma FileChain.lastCluster_eq (h : FileChain g s i l) (hd : IsData (s.files i).firstCluster) :
    ∃ last, l.getLast? = some last ∧ lastCluster g s.disk (s.files i) = some (some last) := by
  have hc := h.chained
  rw [lastCluster]
  split_ifs with hl
  · exact ⟨_,h.slot.last hl,rfl⟩
  cases l with
  | nil =>
    rw [link_of_data hd] at hc
    cases hc
  | cons a rest =>
    have hlen := hc.length_le fun x hx => (h.inRange x hx).2
    rw [findLast_chain hc h.inRange hlen,getLast?_cons]
    exact ⟨_,rfl,rfl⟩

lemma extendRound_spec (h : FileChain g s i l) (hmax : 2 < maxCluster g)
    (hcur : 2 ≤ s.lastFreeCluster) : extendRound g s i = some (false,s) ∧ allocZeroed g s = none ∨
      ∃ nc t, extendRound g s i = some (true,t) ∧ Appended g s i l nc t := by
  have hhead := h.chained.head_eq
  rw [extendRound]
  cases ha : allocZeroed g s with
  | none =>
    left
    split_ifs with hd
    · obtain ⟨last,-,heq⟩ := h.lastCluster_eq hd
      rw [heq]
      exact ⟨rfl,rfl⟩
    · exact ⟨rfl,rfl⟩
  | some p =>
    obtain ⟨nc,u⟩ := p
    have hf := allocZeroed_fresh hmax hcur ha
    have hrest := hf.rest
    right
    split_ifs with hd
    · obtain ⟨last,hlast,heq⟩ := h.lastCluster_eq hd
      have hmem := mem_of_getLast? hlast
      have hent := lt_entries (h.inRange last hmem).2
      have hnew := lt_entries hf.inRange.2
      have hne : last ≠ nc := fun heq => h.allocated last hmem (heq ▸ hf.free)
      have hlt : nc < 2^28 := by
        have hfit := g.clusters_fit
        have hle := hf.inRange.2.trans_le (maxCluster_le g).1
        omega
      rw [heq]
      refine ⟨nc,_,rfl,⟨hf.inRange,hf.free,?_,?_,?_,?_,?_,?_⟩⟩
      · exact (entry_setFATEntry_of_ne g _ _ hent hnew hne.symm).trans hf.taken
      · intro last' hl'
        obtain rfl : last = last' := Option.mem_unique hlast hl'
        exact entry_setFATEntry_self g _ hent hlt
      · intro c hc hcn hcl
        have hcl' : c ≠ last := fun heq => hcl (heq ▸ hlast)
        exact (entry_setFATEntry_of_ne g _ _ hent hc hcl').trans (hf.entries c hc hcn)
      · intro k hk hk'
        have hdata := clusterByte_data hf.inRange.1 hf.inRange.2
        exact (setFATEntry_data g _ _ hent (hdata.trans hk)).trans (hf.zeros k hk hk')
      · intro k hk hout
        exact (setFATEntry_data g _ _ hent hk).trans (hf.data k hk hout)
      · rw [link_of_data hd] at hhead
        rw [hrest]
        simp only [State.setFile,extended,← hhead,getD_some]
    · rw [link_of_not hd] at hhead
      have hnil : l = [] := by simpa using hhead.symm
      subst hnil
      refine ⟨nc,_,rfl,⟨hf.inRange,hf.free,hf.taken,?_,?_,hf.zeros,hf.data,?_⟩⟩
      · intro last hl
        cases hl
      · exact fun c hc hcn _ => hf.entries c hc hcn
      · rw [hrest]
        rfl

lemma chain_linked {d' : Disk} {front rest : List ℕ} {last : ℕ}
    (h : Chain (next g d) start (front++last::rest))
    (hfront : ∀ c ∈ front, entry g d' c = entry g d c) (hlast : entry g d' last = nc)
    (hend : entry g d' nc = endMark) (hnc : IsData nc) :
    Chain (next g d') start (front++[last,nc]) := by
  refine h.divert (fun c hc => by rw [next,next,hfront c hc]) ?_
  rw [next,hlast]
  refine ⟨link_of_data hnc,?_⟩
  rw [next,hend,link_of_not endMark_not_data]
  rfl

lemma Appended.chained (h : FileChain g s i l) (ha : Appended g s i l nc t) :
    Chain (next g t.disk) (link (t.files i).firstCluster) (l++[nc]) := by
  have hfirst : (t.files i).firstCluster = (l.head?).getD nc := by
    rw [ha.rest]
    simp only [update_self,extended]
  have hnc := isData_of_lt ha.inRange.1 ha.inRange.2
  rcases eq_nil_or_concat l with rfl | ⟨front,last,rfl⟩
  · rw [hfirst]
    refine ⟨link_of_data hnc,?_⟩
    rw [next,ha.taken,link_of_not endMark_not_data]
    rfl
  rw [concat_eq_append] at h ha hfirst ⊢
  have hlast : (front++[last]).getLast? = some last := by simp
  have hsame : ∀ c ∈ front, entry g t.disk c = entry g s.disk c := by
    intro c hc
    have hmem : c ∈ front++[last] := mem_append_left _ hc
    refine ha.entries c (lt_entries (h.inRange c hmem).2) ?_ ?_
    · rintro rfl
      exact h.allocated c hmem ha.free
    · rw [hlast]
      rintro heq
      obtain rfl := some.inj heq
      exact disjoint_of_nodup_append h.chained.nodup hc mem_cons_self
  have hhead : link (t.files i).firstCluster = link (s.files i).firstCluster := by
    have hstart := h.chained.head_eq
    cases hx : (front++[last]).head? with
    | none => simp at hx
    | some x =>
      rw [hx] at hstart hfirst
      rw [hfirst,(link_eq_some.mp hstart).1]
      rfl
  rw [hhead,append_assoc]
  exact chain_linked h.chained hsame (ha.linked last hlast) ha.taken hnc

lemma Appended.fileChain (h : FileChain g s i l)
    (ha : Appended g s i l nc t) : FileChain g t i (l++[nc]) := by
  have hslot : t.files i = extended (s.files i) l nc := by
    rw [ha.rest]
    simp only [update_self]
  constructor
  case chained => exact ha.chained h
  case inRange =>
    intro c hc
    rcases mem_append.mp hc with hc | hc
    · exact h.inRange c hc
    · obtain rfl := mem_singleton.mp hc
      exact ha.inRange
  case allocated =>
    intro c hc
    by_cases hcn : c = nc
    · rw [hcn,ha.taken]
      decide
    have hmem : c ∈ l := by simpa [hcn] using hc
    by_cases hlast : l.getLast? = some c
    · rw [ha.linked c hlast]
      have hlo := ha.inRange.1
      omega
    · rw [ha.entries c (lt_entries (h.inRange c hmem).2) hcn hlast]
      exact h.allocated c hmem
  case slot =>
    rw [hslot]
    refine ⟨fun _ => by simp [extended],fun hw => ?_⟩
    have hold := h.slot.walk hw
    have hlt := (List.getElem?_eq_some_iff.mp hold).1
    exact (getElem?_append_left hlt).trans hold

include h

lemma Owned.file (hi : Live s i) : FileChain g s i (chain (some i)) := by
  have hc := h.chained (some i)
  rw [head,if_pos hi] at hc
  exact ⟨hc,h.inRange _,h.allocated _,h.slot i hi⟩

lemma Owned.setChain (hfiles : ∀ j ≠ i, t.files j = s.files j)
    (hcount : ∀ j ≠ i, j < t.fileCount ↔ j < s.fileCount)
    (hent : ∀ o ≠ some i, ∀ c ∈ chain o, entry g t.disk c = entry g s.disk c)
    (hnew : ∀ c ∈ l, c ∈ chain (some i) ∨ ∀ o, c ∉ chain o)
    (hfile : Live t i ∧ FileChain g t i l ∨ ¬Live t i ∧ l = []) (hcursor : 2 ≤ t.lastFreeCluster) :
    Owned g t (Function.update chain (some i) l) := by
  have hlive : ∀ j ≠ i, Live t j ↔ Live s j := by
    intro j hj
    rw [Live,Live,hfiles j hj,hcount j hj]
  have hown : Chain (next g t.disk) (head g t (some i)) l ∧
      (∀ c ∈ l, 2 ≤ c ∧ c < maxCluster g ∧ entry g t.disk c ≠ 0) ∧ (Live t i → Slot (t.files i) l) := by
    rcases hfile with ⟨hi,hf⟩ | ⟨hi,rfl⟩
    · rw [head,if_pos hi]
      exact ⟨hf.chained,fun c hc => ⟨(hf.inRange c hc).1,(hf.inRange c hc).2,hf.allocated c hc⟩,
        fun _ => hf.slot⟩
    · rw [head,if_neg hi]
      exact ⟨rfl,nofun,fun hlive => absurd hlive hi⟩
  refine h.update hown.1 hown.2.1 hnew (fun o ho => ⟨?_,hent o ho⟩) (fun j hj => ?_) hcursor
  · cases o with
    | none => rfl
    | some j =>
      have hj : j ≠ i := fun heq => ho (heq ▸ rfl)
      simp only [head,hlive j hj,hfiles j hj]
  · by_cases hji : j = i
    · subst hji
      rw [update_self]
      exact hown.2.2 hj
    · rw [update_of_ne (fun heq => hji (some.inj heq)),hfiles j hji]
      exact h.slot j ((hlive j hji).mp hj)

lemma Owned.append (hi : Live s i)
    (ha : Appended g s i (chain (some i)) nc t) :
    Owned g t (Function.update chain (some i) (chain (some i)++[nc])) ∧ ∀ j, Live t j ↔ Live s j := by
  have hlive : ∀ j, Live t j ↔ Live s j := by
    intro j
    rw [ha.rest]
    exact setFile_live (extended (s.files i) (chain (some i)) nc) rfl j
  refine ⟨h.setChain (fun j hj => ?_) (fun j _ => ?_) (fun o ho c hc => ?_) (fun c hc => ?_)
    (.inl ⟨(hlive i).mpr hi,ha.fileChain (h.file hi)⟩) ?_,hlive⟩
  · rw [ha.rest]
    exact update_of_ne hj ..
  · rw [ha.rest]
  · refine ha.entries c (lt_entries (h.inRange o c hc).2) ?_ ?_
    · rintro rfl
      exact h.allocated o c hc ha.free
    · intro hlast
      exact ho (h.disjoint o (some i) c hc (mem_of_getLast? hlast))
  · rcases mem_append.mp hc with hc | hc
    · exact .inl hc
    · obtain rfl := mem_singleton.mp hc
      exact .inr fun o hmem => h.allocated o c hmem ha.free
  · rw [ha.rest]
    exact Nat.le_succ_of_le ha.inRange.1

omit h

section
variable (ok : ℕ → ℕ → Bool) (visit : Disk → ℕ → Disk)
  (hvisit : ∀ d c c', c < maxCluster g → c' < maxCluster g → c' ≠ c →
    entry g (visit d c) c' = entry g d c')
include hvisit

lemma sweepChain_cons {rest : List ℕ}
    (h : Chain (next g d) (link c) (c::rest)) (hr : ∀ x ∈ c::rest, 2 ≤ x ∧ x < maxCluster g) :
    sweepChain g ok visit (n+1) c d =
        (if ok c (entry g d c) then sweepChain g ok visit n (entry g d c) (visit d c) else (false,d)) ∧
      (∀ x ∈ rest, entry g (visit d c) x = entry g d x) ∧
      Chain (next g (visit d c)) (link (entry g d c)) rest := by
  obtain ⟨hlo,hhi⟩ := hr c mem_cons_self
  have hnot : c ∉ rest := (nodup_cons.mp h.nodup).1
  have hkeep : ∀ x ∈ rest, entry g (visit d c) x = entry g d x := fun x hx =>
    hvisit d c x hhi (hr x (mem_cons_of_mem c hx)).2 (fun heq => hnot (heq ▸ hx))
  refine ⟨?_,hkeep,h.2.frame fun x hx => by rw [next,next,hkeep x hx]⟩
  rw [sweepChain,if_pos (isData_of_lt hlo hhi),getFATEntry_inRange d hlo hhi]

lemma sweepChain_chain (h : Chain (next g d) (link c) l)
    (hr : ∀ x ∈ l, 2 ≤ x ∧ x < maxCluster g) (hok : ∀ x ∈ l, ok x (entry g d x) = true)
    (hlen : l.length < n) : sweepChain g ok visit n c d = (true,l.foldl visit d) := by
  induction l generalizing c n d with
  | nil =>
    obtain ⟨n,rfl⟩ : ∃ k, n = k+1 := ⟨n-1,by simp at hlen; omega⟩
    refine if_neg fun hd => ?_
    rw [link_of_data hd] at h
    cases h
  | cons a rest ih =>
    obtain ⟨n,rfl⟩ : ∃ k, n = k+1 := ⟨n-1,by simp at hlen; omega⟩
    obtain ⟨rfl,-⟩ := link_eq_some.mp h.1
    obtain ⟨hunfold,hkeep,hrest⟩ := sweepChain_cons ok visit hvisit (n := n) h hr
    rw [hunfold,if_pos (hok c mem_cons_self)]
    exact ih hrest (fun x hx => hr x (mem_cons_of_mem c hx))
      (fun x hx => by rw [hkeep x hx]; exact hok x (mem_cons_of_mem c hx)) (by simpa using hlen)

lemma sweepChain_true (h : Chain (next g d) (link c) l)
    (hr : ∀ x ∈ l, 2 ≤ x ∧ x < maxCluster g) (ht : (sweepChain g ok visit n c d).1 = true) :
    l.length < n ∧ ∀ x ∈ l, ok x (entry g d x) = true := by
  induction l generalizing c n d with
  | nil =>
    cases n with
    | zero => cases ht
    | succ n => exact ⟨Nat.succ_pos n,fun x hx => absurd hx not_mem_nil⟩
  | cons a rest ih =>
    obtain ⟨rfl,-⟩ := link_eq_some.mp h.1
    cases n with
    | zero => cases ht
    | succ n =>
      obtain ⟨hunfold,hkeep,hrest⟩ := sweepChain_cons ok visit hvisit (n := n) h hr
      rw [hunfold] at ht
      split_ifs at ht with hok
      obtain ⟨hlen,hall⟩ := ih hrest (fun x hx => hr x (mem_cons_of_mem c hx)) ht
      refine ⟨by simpa using hlen,fun x hx => ?_⟩
      rcases mem_cons.mp hx with rfl | hx
      · exact hok
      · rw [← hkeep x hx]
        exact hall x hx

end

lemma setFATEntry_visit (value : ℕ) (d : Disk) (c c' : ℕ) (hc : c < maxCluster g)
    (hc' : c' < maxCluster g) (hne : c' ≠ c) :
    entry g (setFATEntry g d c value) c' = entry g d c' :=
  entry_setFATEntry_of_ne g d value (lt_entries hc) (lt_entries hc') hne

lemma entry_freed (hl : ∀ c ∈ l, c < maxCluster g) (d : Disk) (hc : c < maxCluster g) :
    entry g (l.foldl (fun d c => setFATEntry g d c 0) d) c = if c ∈ l then 0 else entry g d c := by
  induction l generalizing d with
  | nil => rfl
  | cons a rest ih =>
    rw [foldl_cons,ih (fun x hx => hl x (mem_cons_of_mem a hx))]
    by_cases hrest : c ∈ rest
    · rw [if_pos hrest,if_pos (mem_cons_of_mem a hrest)]
    by_cases hca : c = a
    · subst hca
      rw [if_neg hrest,if_pos mem_cons_self]
      exact entry_setFATEntry_self g d (lt_entries hc) (by decide)
    · rw [if_neg hrest,if_neg (by simp [hca,hrest])]
      exact setFATEntry_visit 0 d a c (hl a mem_cons_self) hc hca

lemma foldl_freed_data (hl : ∀ c ∈ l, c < maxCluster g) (d : Disk) {k : ℕ}
    (hk : g.dataStart*sectorSize ≤ k) : l.foldl (fun d c => setFATEntry g d c 0) d k = d k := by
  induction l generalizing d with
  | nil => rfl
  | cons a rest ih =>
    rw [foldl_cons,ih (fun x hx => hl x (mem_cons_of_mem a hx)),
      setFATEntry_data g d 0 (lt_entries (hl a mem_cons_self)) hk]

lemma cutWalk_chain (h : Chain (next g d) start l)
    (hr : ∀ c ∈ l, 2 ≤ c ∧ c < maxCluster g) (keep n lk ts : ℕ) {ci : ℕ}
    (hpos : link c = l[ci]?) (hci : ci ≤ l.length) (hlk : lk = (l.take (min ci keep)).getLast?.getD 0)
    (hts : link ts = if keep ≤ ci then l[keep]? else none) :
    (l.length < ci+n → ∃ ts', cutWalk g d keep n c ci lk ts =
        some ((l.take keep).getLast?.getD 0,ts') ∧ link ts' = l[keep]?) ∧
      (ci+n ≤ l.length → cutWalk g d keep n c ci lk ts = none) := by
  induction n generalizing c ci lk ts with
  | zero => exact ⟨fun hlt => absurd hlt (by omega),fun _ => rfl⟩
  | succ n ih =>
    by_cases hc : IsData c
    · rw [link_of_data hc] at hpos
      obtain ⟨hlt,-⟩ := List.getElem?_eq_some_iff.mp hpos.symm
      obtain ⟨hlo,hhi⟩ := hr c (mem_of_getElem? hpos.symm)
      rw [cutWalk,if_pos hc,getFATEntry_inRange d hlo hhi]
      dsimp only
      rw [show ci+(n+1) = ci+1+n by omega]
      refine ih _ _ (h.next_at hpos.symm) hlt ?_ ?_
      · split_ifs with hkeep
        · rw [Nat.min_eq_left (by omega),take_add_one,← hpos]
          simp
        · rw [hlk,Nat.min_eq_right (by omega),Nat.min_eq_right (by omega)]
      · by_cases hk : ci+1 = keep
        · rw [if_pos hk,if_pos (by omega),← hk]
          exact h.next_at hpos.symm
        rw [if_neg hk,hts]
        by_cases hle : keep ≤ ci
        · rw [if_pos hle,if_pos (by omega)]
        · rw [if_neg hle,if_neg (by omega)]
    · rw [link_of_not hc] at hpos
      have hend : l.length ≤ ci := List.getElem?_eq_none_iff.mp hpos.symm
      rw [cutWalk,if_neg hc]
      refine ⟨fun _ => ⟨ts,?_,?_⟩,fun hle => absurd hle (by omega)⟩
      · rw [hlk]
        by_cases hle : keep ≤ ci
        · rw [Nat.min_eq_right hle]
        · rw [Nat.min_eq_left (by omega),take_of_length_le hend,take_of_length_le (by omega)]
      · rw [hts]
        split_ifs with hle
        · rfl
        · exact (getElem?_eq_none (by omega)).symm

lemma rootLast_chain (h : Chain (next g d) (link c) l)
    (hr : ∀ x ∈ l, 2 ≤ x ∧ x < maxCluster g) {last : ℕ} :
    rootLast g d n c last = some ((l.take n).getLast?.getD last) := by
  induction l generalizing c n last with
  | nil =>
    have hc : ¬IsData c := fun hd => by
      rw [link_of_data hd] at h
      cases h
    cases n with
    | zero => rfl
    | succ n => exact if_neg hc
  | cons a rest ih =>
    obtain ⟨rfl,hc⟩ := link_eq_some.mp h.1
    obtain ⟨hlo,hhi⟩ := hr c mem_cons_self
    cases n with
    | zero => rfl
    | succ n =>
      rw [rootLast,if_pos hc,getFATEntry_inRange d hlo hhi,take_succ_cons,getLast?_cons]
      exact ih h.2 (fun x hx => hr x (mem_cons_of_mem c hx))

end MoQiOS.Fat32
