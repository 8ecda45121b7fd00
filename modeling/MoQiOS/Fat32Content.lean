import MoQiOS.Fat32Steps

/-!
# The contents of a FAT32 file

The clusters of a chain put one after the other make an image of the file. The
copy loops of the driver are read as one write to the image and one window of it.
-/

namespace MoQiOS.Fat32

open ByteImages Chains Function List Option Nat

def fileImage (g : Geometry) (d : Disk) (l : List ℕ) (k : ℕ) : UInt8 :=
  d (clusterByte g (l.getD (k/g.clusterSize) 0)+k%g.clusterSize)

variable {g : Geometry} {s t : State} {l : List ℕ}

lemma getElem?_of_lt_image {k : ℕ} (hk : k < l.length*g.clusterSize) :
    l[k/g.clusterSize]? = some (l.getD (k/g.clusterSize) 0) := by
  have hlt : k/g.clusterSize < l.length := Nat.div_lt_of_lt_mul (by rwa [Nat.mul_comm])
  rw [getD_eq_getElem _ _ hlt,getElem?_eq_getElem hlt]

lemma place_cases (g : Geometry) (k ci : ℕ) :
    k/g.clusterSize = ci ∧ k = ci*g.clusterSize+k%g.clusterSize ∨ k/g.clusterSize ≠ ci ∧
      (k < ci*g.clusterSize ∨ ci*g.clusterSize+g.clusterSize ≤ k) := by
  have hk := div_add_mod k g.clusterSize
  have hmod := mod_lt k (clusterSize_pos g)
  rw [Nat.mul_comm] at hk
  rcases Nat.lt_trichotomy (k/g.clusterSize) ci with hlt | heq | hgt
  · have hmul : (k/g.clusterSize+1)*g.clusterSize ≤ ci*g.clusterSize := Nat.mul_le_mul_right _ hlt
    rw [Nat.add_mul] at hmul
    exact .inr ⟨by omega,.inl (by omega)⟩
  · exact .inl ⟨heq,by rw [← heq]; omega⟩
  · have hmul : (ci+1)*g.clusterSize ≤ k/g.clusterSize*g.clusterSize := Nat.mul_le_mul_right _ hgt
    rw [Nat.add_mul] at hmul
    exact .inr ⟨by omega,.inr (by omega)⟩

variable {d : Disk}

lemma fileImage_overwrite (hr : ∀ c ∈ l, 2 ≤ c ∧ c < maxCluster g)
    (hn : l.Nodup) {ci c o : ℕ} (data : List UInt8) (hci : l[ci]? = some c)
    (ho : o+data.length ≤ g.clusterSize) {k : ℕ} (hk : k < l.length*g.clusterSize) :
    fileImage g (overwrite d (clusterByte g c+o) data) l k =
      overwrite (fileImage g d l) (ci*g.clusterSize+o) data k := by
  have hat := getElem?_of_lt_image hk
  have hmod := mod_lt k (clusterSize_pos g)
  rcases place_cases g k ci with ⟨hq,hplace⟩ | ⟨hq,hplace⟩
  · have hc : l.getD (k/g.clusterSize) 0 = c := by
      rw [hq] at hat ⊢
      exact Option.mem_unique hat hci
    simp only [fileImage,overwrite,hc]
    by_cases hle : o ≤ k%g.clusterSize
    · rw [if_pos (by omega),if_pos (by omega)]
      congr 2
      omega
    · rw [if_neg (by omega),if_neg (by omega)]
  have hne : l.getD (k/g.clusterSize) 0 ≠ c := by
    intro heq
    rw [heq] at hat
    have hlt := (List.getElem?_eq_some_iff.mp hci).1
    exact hq ((getElem?_inj hlt hn).mp (hci.trans hat.symm)).symm
  have hmax := (maxCluster_le g).1
  have hcr := hr c (mem_of_getElem? hci)
  have hkr := hr _ (mem_of_getElem? hat)
  have hapart := clusterByte_apart g hkr.1 (hkr.2.trans_le hmax) hcr.1 (hcr.2.trans_le hmax) hne
  rw [overwrite_outside _ (by omega)]
  simp only [fileImage]
  rw [overwrite_outside _ (by omega)]

variable {buf : List UInt8}

lemma writeSector_hit (r : Disk×ℕ) {lba os oe sec : ℕ}
    (hit : os < sec*sectorSize+sectorSize ∧ sec*sectorSize < oe) (hoe : os ≤ oe)
    (hlen : r.2+(min oe (sec*sectorSize+sectorSize)-max os (sec*sectorSize)) ≤ buf.length) :
    writeSector lba os oe buf r sec = (overwrite r.1 (lba*sectorSize+max os (sec*sectorSize))
          ((buf.drop r.2).take (min oe (sec*sectorSize+sectorSize)-max os (sec*sectorSize))),
        r.2+(min oe (sec*sectorSize+sectorSize)-max os (sec*sectorSize))) := by
  set modEnd := if oe < sec*sectorSize+sectorSize then oe-sec*sectorSize else sectorSize with hmod
  have hend : modEnd = min oe (sec*sectorSize+sectorSize)-sec*sectorSize := by
    rw [hmod]
    split_ifs <;> omega
  have hcount : modEnd-(os-sec*sectorSize) =
      min oe (sec*sectorSize+sectorSize)-max os (sec*sectorSize) := by omega
  set n := min oe (sec*sectorSize+sectorSize)-max os (sec*sectorSize) with hn
  have hdata : ((buf.drop r.2).take n).length = n := by
    rw [length_take,length_drop]
    omega
  have hstart : (lba+sec)*sectorSize = lba*sectorSize+sec*sectorSize := Nat.add_mul ..
  rw [writeSector,if_neg (by omega)]
  dsimp only
  rw [← hmod,hcount]
  refine Prod.ext ?_ rfl
  dsimp only
  split_ifs with hfull
  · rw [writeSectors,hstart]
    congr 1
    omega
  · rw [writeSectors,readSectors,Nat.one_mul,overwrite_splice r.1 (by rw [hdata]; omega),hstart]
    congr 1
    omega

lemma writeSector_foldl (d : Disk) {lba os oe w : ℕ} (hoe : os ≤ oe)
    (hw : w+(oe-os) ≤ buf.length) (m : ℕ) : (List.range m).foldl (writeSector lba os oe buf) (d,w) =
      (overwrite d (lba*sectorSize+os) ((buf.drop w).take (min oe (m*sectorSize)-os)),
        w+(min oe (m*sectorSize)-os)) := by
  induction m with
  | zero => simp
  | succ m ih =>
    have hsucc : (m+1)*sectorSize = m*sectorSize+sectorSize := Nat.add_one_mul m sectorSize
    rw [range_succ,foldl_append,ih,foldl_cons,foldl_nil,hsucc]
    by_cases hmiss : m*sectorSize+sectorSize ≤ os ∨ oe ≤ m*sectorSize
    · have hsame : min oe (m*sectorSize+sectorSize)-os = min oe (m*sectorSize)-os := by omega
      rw [writeSector,if_pos hmiss,hsame]
    set p := min oe (m*sectorSize)-os with hp
    set q := min oe (m*sectorSize+sectorSize)-max os (m*sectorSize) with hq
    have hpq : min oe (m*sectorSize+sectorSize)-os = p+q := by omega
    have hplace : lba*sectorSize+max os (m*sectorSize) =
        lba*sectorSize+os+((buf.drop w).take p).length := by
      rw [length_take,length_drop]
      omega
    rw [writeSector_hit _ (by omega) hoe (by dsimp only; omega),← hq,hpq]
    dsimp only
    rw [hplace,← overwrite_append,take_add,drop_drop,Nat.add_assoc]

lemma writeCluster_eq (d : Disk) {lba os oe w : ℕ} (hoe : os ≤ oe)
    (hend : oe ≤ g.clusterSize) (hw : w+(oe-os) ≤ buf.length) : writeCluster g d lba os oe buf w =
      (overwrite d (lba*sectorSize+os) ((buf.drop w).take (oe-os)),w+(oe-os)) := by
  have hdata : ((buf.drop w).take (oe-os)).length = oe-os := by
    rw [length_take,length_drop]
    omega
  rw [writeCluster]
  split_ifs with hfull hsmall
  · obtain ⟨rfl,rfl,-⟩ := hfull
    rfl
  · rw [writeSectors,readSectors,overwrite_splice d]
    rw [hdata]
    change _ ≤ g.clusterSize
    omega
  · have hmin : min oe (g.sectorsPerCluster*sectorSize) = oe := Nat.min_eq_left hend
    rw [writeSector_foldl d hoe hw,hmin]

structure Copied (g : Geometry) (s : State) (i : ℕ) (l : List ℕ) (t : State) : Prop where
  file : FileChain g t i l
  size : (t.files i).size = (s.files i).size
  first : (t.files i).firstCluster = (s.files i).firstCluster
  active : (t.files i).active = (s.files i).active
  rest : t.fileCount = s.fileCount ∧ t.dir = s.dir ∧ t.cache = s.cache ∧
    t.lastFreeCluster = s.lastFreeCluster

variable {i : ℕ}

lemma Copied.refl (h : FileChain g s i l) : Copied g s i l s :=
  ⟨h,rfl,rfl,rfl,rfl,rfl,rfl,rfl⟩

lemma Copied.trans {u : State} (h : Copied g s i l t) (h' : Copied g t i l u) :
    Copied g s i l u :=
  ⟨h'.file,h'.size.trans h.size,h'.first.trans h.first,h'.active.trans h.active,
    h'.rest.1.trans h.rest.1,h'.rest.2.1.trans h.rest.2.1,h'.rest.2.2.1.trans h.rest.2.2.1,
    h'.rest.2.2.2.trans h.rest.2.2.2⟩

lemma FileChain.withDisk (h : FileChain g s i l)
    (hent : ∀ c ∈ l, entry g d c = entry g s.disk c) : FileChain g {s with disk := d} i l := by
  refine ⟨h.chained.frame fun c hc => ?_,h.inRange,fun c hc => ?_,h.slot⟩
  · rw [next,next,hent c hc]
  · show entry g d c ≠ 0
    rw [hent c hc]
    exact h.allocated c hc

lemma noteWalk_copied {i c ci : ℕ} (h : FileChain g s i l) (hpos : link c = l[ci]?) :
    Copied g s i l (noteWalk s i c ci) := by
  rw [noteWalk]
  split_ifs with hc
  · have hself : (s.setFile i {s.files i with lastWalkCluster := c, lastWalkIdx := ci}).files i =
        {s.files i with lastWalkCluster := c, lastWalkIdx := ci} := update_self ..
    refine ⟨⟨?_,h.inRange,h.allocated,?_⟩,?_,?_,?_,rfl,rfl,rfl,rfl⟩
    · rw [hself]
      exact h.chained
    · rw [hself]
      exact ⟨h.slot.last,fun _ => hpos.symm.trans (link_of_data hc)⟩
    · rw [hself]
    · rw [hself]
    · rw [hself]
  · exact Copied.refl h

lemma noteWalk_disk (s : State) (i c ci : ℕ) : (noteWalk s i c ci).disk = s.disk := by
  rw [noteWalk]
  split_ifs
  · rfl
  · rfl

lemma FileChain.cluster_at {i c ci : ℕ} (h : FileChain g s i l)
    (hpos : link c = l[ci]?) (hci : ci < l.length) :
    l[ci]? = some c ∧ IsData c ∧ 2 ≤ c ∧ c < maxCluster g := by
  rw [getElem?_eq_getElem hci] at hpos
  obtain ⟨hc,hdata⟩ := link_eq_some.mp hpos
  have hmem : l[ci]? = some c := by rw [getElem?_eq_getElem hci,hc]
  exact ⟨hmem,hc ▸ hdata,h.inRange c (mem_of_getElem? hmem)⟩

lemma writeLoop_image {i offset n c ci w : ℕ} (h : FileChain g s i l) (hpos : link c = l[ci]?)
    (hfits : offset+buf.length ≤ l.length*g.clusterSize) (hw : w ≤ buf.length)
    (hplace : w = buf.length ∨ w = ci*g.clusterSize-offset ∧ offset < ci*g.clusterSize+g.clusterSize)
    (hfuel : buf.length-w ≤ n) : (writeLoop g i offset buf n s c ci w).2 = buf.length ∧
      Copied g s i l (writeLoop g i offset buf n s c ci w).1 ∧ ∀ k < l.length*g.clusterSize,
        fileImage g (writeLoop g i offset buf n s c ci w).1.disk l k =
          overwrite (fileImage g s.disk l) (offset+w) (buf.drop w) k := by
  induction n generalizing s c ci w with
  | zero =>
    obtain rfl : w = buf.length := by omega
    refine ⟨rfl,Copied.refl h,fun k _ => ?_⟩
    rw [drop_length,overwrite_nil]
    rfl
  | succ n ih =>
    rw [writeLoop]
    by_cases hdone : w = buf.length
    · rw [if_neg (by omega)]
      refine ⟨hdone,Copied.refl h,fun k _ => ?_⟩
      rw [hdone,drop_length,overwrite_nil]
    obtain ⟨hat,hbefore⟩ := hplace.resolve_left hdone
    have hci : ci < l.length := by
      refine Nat.lt_of_mul_lt_mul_right (a := g.clusterSize) ?_
      omega
    obtain ⟨hmem,hdata,hlo,hhi⟩ := h.cluster_at hpos hci
    rw [if_pos ⟨by omega,hdata⟩]
    dsimp only
    rw [if_pos ⟨hbefore,by omega⟩]
    set oe := if offset+buf.length < ci*g.clusterSize+g.clusterSize then
      offset+buf.length-ci*g.clusterSize else g.clusterSize with hoe
    have hoe' : oe = min (offset+buf.length-ci*g.clusterSize) g.clusterSize := by
      rw [hoe]
      split_ifs <;> omega
    have hpos₁ := clusterSize_pos g
    rw [writeCluster_eq s.disk (by omega) (by omega) (by omega)]
    dsimp only
    set os := offset-ci*g.clusterSize with hos
    set d := overwrite s.disk (clusterToLBA g c*sectorSize+os) ((buf.drop w).take (oe-os)) with hd
    have hent : ∀ x ∈ l, entry g d x = entry g s.disk x := fun x hx =>
      entry_overwrite g _ _ (lt_entries (h.inRange x hx).2)
        ((clusterByte_data hlo hhi).trans (Nat.le_add_right _ _))
    have hfile : FileChain g {s with disk := d} i l := h.withDisk hent
    have hnext : link (entry g d c) = l[ci+1]? := hfile.chained.next_at hmem
    have hnote := noteWalk_copied hfile hnext
    rw [getFATEntry_inRange d hlo hhi]
    dsimp only
    have hlen : ((buf.drop w).take (oe-os)).length = oe-os := by
      rw [length_take,length_drop]
      omega
    have hsucc : (ci+1)*g.clusterSize = ci*g.clusterSize+g.clusterSize := Nat.add_one_mul ..
    obtain ⟨hcount,hcopied,himage⟩ := ih (w := w+(oe-os)) hnote.file hnext (by omega)
      (by rw [hsucc]; omega) (by omega)
    have hself : Copied g s i l {s with disk := d} := ⟨hfile,rfl,rfl,rfl,rfl,rfl,rfl,rfl⟩
    refine ⟨hcount,(hself.trans hnote).trans hcopied,fun k hk => ?_⟩
    have hone : ∀ k < l.length*g.clusterSize, fileImage g d l k =
        overwrite (fileImage g s.disk l) (offset+w) ((buf.drop w).take (oe-os)) k := by
      intro k hk
      rw [hd]
      have hover := fileImage_overwrite (d := s.disk) (o := os)
        h.inRange h.chained.nodup ((buf.drop w).take (oe-os)) hmem (by omega) hk
      rw [show ci*g.clusterSize+os = offset+w by omega] at hover
      exact hover
    rw [himage k hk,noteWalk_disk]
    have hsplit : buf.drop w = (buf.drop w).take (oe-os)++buf.drop (w+(oe-os)) := by
      rw [← drop_drop,take_append_drop]
    conv_rhs => rw [hsplit,overwrite_append,hlen,Nat.add_assoc]
    simp only [overwrite]
    rw [hone k hk]
    rfl

def freeClusters (g : Geometry) (d : Disk) : Finset ℕ :=
  (Finset.Ico 2 (maxCluster g)).filter fun c => entry g d c = 0

lemma scanFree_ahead {n c x : ℕ} (hlo : 2 ≤ c) (hx : x < maxCluster g)
    (hcx : c ≤ x) (hn : x-c < n) (h : scanFree g d n c = none) : entry g d x ≠ 0 := by
  induction n generalizing c with
  | zero => omega
  | succ n ih =>
    rw [scanFree,if_neg (by omega),getFATEntry_inRange d hlo (by omega)] at h
    dsimp only at h
    split_ifs at h with hzero
    by_cases heq : c = x
    · exact heq ▸ hzero
    · exact ih (by omega) (by omega) (by omega) h

lemma scanFree_wrap {n c : ℕ} (hc : maxCluster g ≤ c) (hmax : 2 < maxCluster g) :
    scanFree g d n c = scanFree g d n 2 := by
  cases n with
  | zero => rfl
  | succ n => rw [scanFree,scanFree,if_pos hc,if_neg (by omega)]

lemma scanFree_rest {n c k : ℕ} (hlo : 2 ≤ c) (hk : c+k ≤ maxCluster g) (hn : k ≤ n)
    (h : scanFree g d n c = none) : scanFree g d (n-k) (c+k) = none := by
  induction k generalizing n c with
  | zero => exact h
  | succ k ih =>
    obtain ⟨n,rfl⟩ : ∃ m, n = m+1 := ⟨n-1,by omega⟩
    rw [scanFree,if_neg (by omega),getFATEntry_inRange d hlo (by omega)] at h
    dsimp only at h
    split_ifs at h
    have hrest := ih (n := n) (c := c+1) (by omega) (by omega) (by omega) h
    rw [Nat.add_sub_add_right,show c+(k+1) = c+1+k by omega]
    exact hrest

lemma allocZeroed_none (hmax : 2 < maxCluster g) (hcur : 2 ≤ s.lastFreeCluster)
    (h : allocZeroed g s = none) : freeClusters g s.disk = ∅ := by
  have hscan : scanFree g s.disk (maxCluster g) s.lastFreeCluster = none := by
    simpa [allocZeroed,allocCluster] using h
  refine Finset.filter_eq_empty_iff.mpr fun x hx => ?_
  obtain ⟨hlo,hhi⟩ := Finset.mem_Ico.mp hx
  by_cases hwrap : maxCluster g ≤ s.lastFreeCluster
  · rw [scanFree_wrap hwrap hmax] at hscan
    exact scanFree_ahead (Nat.le_refl 2) hhi hlo (by omega) hscan
  by_cases hahead : s.lastFreeCluster ≤ x
  · exact scanFree_ahead hcur hhi hahead (by omega) hscan
  have hrest := scanFree_rest (k := maxCluster g-s.lastFreeCluster) hcur (by omega) (by omega) hscan
  rw [scanFree_wrap (by omega) hmax] at hrest
  exact scanFree_ahead (Nat.le_refl 2) hhi hlo (by omega) hrest

structure Lengthened (g : Geometry) (s : State) (i : ℕ) (l : List ℕ) (t : State) (l' : List ℕ) :
    Prop where
  file : FileChain g t i l'
  pre : l <+: l'
  bytes : ∀ c ∈ l, ∀ k < g.clusterSize, t.disk (clusterByte g c+k) = s.disk (clusterByte g c+k)
  zeros : ∀ j c, l.length ≤ j → l'[j]? = some c → ∀ k < g.clusterSize, t.disk (clusterByte g c+k) = 0
  size : (t.files i).size = (s.files i).size
  first : (t.files i).firstCluster = (s.files i).firstCluster
  active : (t.files i).active = (s.files i).active
  rest : t.fileCount = s.fileCount ∧ t.dir = s.dir ∧ t.cache = s.cache
  cursor : 2 ≤ t.lastFreeCluster

lemma Appended.lengthened {i nc : ℕ} (h : FileChain g s i l)
    (hd : IsData (s.files i).firstCluster) (ha : Appended g s i l nc t) :
    Lengthened g s i l t (l++[nc]) := by
  have hself : t.files i = extended (s.files i) l nc := by
    rw [ha.rest]
    simp only [update_self]
  have hmax := (maxCluster_le g).1
  have hhead := h.chained.head_eq
  rw [link_of_data hd] at hhead
  constructor
  case file => exact ha.fileChain h
  case pre => exact prefix_append l [nc]
  case bytes =>
    intro c hc k hk
    obtain ⟨hlo,hhi⟩ := h.inRange c hc
    have hne : c ≠ nc := fun heq => h.allocated c hc (heq ▸ ha.free)
    have hdata := clusterByte_data hlo hhi
    have hapart := clusterByte_apart g hlo (hhi.trans_le hmax) ha.inRange.1
      (ha.inRange.2.trans_le hmax) hne
    exact ha.data _ (by omega) (by omega)
  case zeros =>
    intro j c hj hjc k hk
    rw [getElem?_append_right hj] at hjc
    have hc : c = nc := by
      have hmem := mem_of_getElem? hjc
      exact mem_singleton.mp hmem
    rw [hc]
    exact ha.zeros _ (by omega) (by omega)
  case size => rw [hself,extended]
  case first => rw [hself,extended,← hhead,getD_some]
  case active => rw [hself,extended]
  case rest =>
    rw [ha.rest]
    exact ⟨rfl,rfl,rfl⟩
  case cursor =>
    rw [ha.rest]
    have hlo := ha.inRange.1
    dsimp only
    omega

lemma Lengthened.trans {u : State} {l l' l'' : List ℕ} (h : Lengthened g s i l t l')
    (h' : Lengthened g t i l' u l'') : Lengthened g s i l u l'' := by
  constructor
  case file => exact h'.file
  case pre => exact h.pre.trans h'.pre
  case bytes =>
    intro c hc k hk
    rw [h'.bytes c (h.pre.subset hc) k hk,h.bytes c hc k hk]
  case zeros =>
    intro j c hj hjc k hk
    by_cases hlt : j < l'.length
    · have hjc' : l'[j]? = some c := by
        obtain ⟨rest,rfl⟩ := h'.pre
        rwa [getElem?_append_left hlt] at hjc
      rw [h'.bytes c (mem_of_getElem? hjc') k hk]
      exact h.zeros j c hj hjc' k hk
    · exact h'.zeros j c (by omega) hjc k hk
  case size => exact h'.size.trans h.size
  case first => exact h'.first.trans h.first
  case active => exact h'.active.trans h.active
  case rest => exact ⟨h'.rest.1.trans h.rest.1,h'.rest.2.1.trans h.rest.2.1,h'.rest.2.2.trans h.rest.2.2⟩
  case cursor => exact h'.cursor

lemma Appended.free_card {i nc : ℕ} (h : FileChain g s i l)
    (ha : Appended g s i l nc t) : (freeClusters g s.disk).card ≤ (freeClusters g t.disk).card+1 := by
  have hsub : (freeClusters g s.disk).erase nc ⊆ freeClusters g t.disk := by
    intro c hc
    obtain ⟨hne,hmem⟩ := Finset.mem_erase.mp hc
    obtain ⟨hin,hfree⟩ := Finset.mem_filter.mp hmem
    refine Finset.mem_filter.mpr ⟨hin,?_⟩
    rw [ha.entries c (lt_entries (Finset.mem_Ico.mp hin).2) hne]
    · exact hfree
    · exact fun hlast => h.allocated c (mem_of_getLast? hlast) hfree
  have hcard := Finset.card_le_card hsub
  have herase := Finset.pred_card_le_card_erase (s := freeClusters g s.disk) (a := nc)
  omega

lemma extendFile_lengthened {i n : ℕ} (h : FileChain g s i l)
    (hd : IsData (s.files i).firstCluster) (hmax : 2 < maxCluster g) (hcur : 2 ≤ s.lastFreeCluster)
    (hfree : n ≤ (freeClusters g s.disk).card) :
    ∃ t l', extendFile g i n s = some (true,t) ∧ Lengthened g s i l t l' ∧ l'.length = l.length+n := by
  induction n generalizing s l with
  | zero =>
    refine ⟨s,l,rfl,⟨h,prefix_refl l,fun _ _ _ _ => rfl,?_,rfl,rfl,rfl,⟨rfl,rfl,rfl⟩,hcur⟩,rfl⟩
    intro j c hj hjc
    rw [getElem?_eq_none hj] at hjc
    cases hjc
  | succ n ih =>
    rcases extendRound_spec h hmax hcur with ⟨-,hnone⟩ | ⟨nc,u,heq,ha⟩
    · rw [allocZeroed_none hmax hcur hnone] at hfree
      simp at hfree
    have hu := ha.lengthened h hd
    have hcard := ha.free_card h
    obtain ⟨t,l',hext,ht,hlen⟩ := ih hu.file (by rw [hu.first]; exact hd) hu.cursor (by omega)
    refine ⟨t,l',?_,hu.trans ht,?_⟩
    · rw [extendFile,heq]
      exact hext
    · rw [hlen,length_append]
      simp only [length_singleton]
      omega

lemma Lengthened.image {l l' : List ℕ} (h : Lengthened g s i l t l') {k : ℕ}
    (hk : k < l'.length*g.clusterSize) : fileImage g t.disk l' k =
      if k < l.length*g.clusterSize then fileImage g s.disk l k else 0 := by
  have hat := getElem?_of_lt_image hk
  have hmod := mod_lt k (clusterSize_pos g)
  split_ifs with hold
  · have hold' := getElem?_of_lt_image hold
    have hsame : l'.getD (k/g.clusterSize) 0 = l.getD (k/g.clusterSize) 0 := by
      obtain ⟨rest,rfl⟩ := h.pre
      rw [getElem?_append_left (List.getElem?_eq_some_iff.mp hold').1,hold'] at hat
      exact (some.inj hat).symm
    rw [fileImage,fileImage,hsame]
    exact h.bytes _ (mem_of_getElem? hold') _ hmod
  · refine h.zeros _ _ ?_ hat _ hmod
    exact (Nat.le_div_iff_mul_le (clusterSize_pos g)).mpr (by omega)

/-- Cached pages hold what the clusters of the file hold. -/
def Coherent (g : Geometry) (s : State) (firstCluster : ℕ) (l : List ℕ) : Prop :=
  ∀ c page, s.cache firstCluster c = some page →
    c ∈ l ∧ g.sectorsPerCluster ≤ 8 ∧ ∀ k < g.clusterSize, page k = s.disk (clusterByte g c+k)

lemma window_image {ci c cur n : ℕ} (hci : l[ci]? = some c) (hn : cur+n ≤ g.clusterSize) :
    window d (clusterByte g c+cur) n = window (fileImage g d l) (ci*g.clusterSize+cur) n := by
  refine map_congr_left fun k hk => ?_
  rw [mem_range] at hk
  have hpos := clusterSize_pos g
  have hdiv : (ci*g.clusterSize+cur+k)/g.clusterSize = ci := by
    rw [Nat.add_assoc,Nat.add_comm,add_mul_div_right _ _ hpos,div_eq_of_lt (by omega), Nat.zero_add]
  have hmod : (ci*g.clusterSize+cur+k)%g.clusterSize = cur+k := by
    rw [Nat.add_assoc,mul_add_mod_self_right,mod_eq_of_lt (by omega)]
  rw [fileImage,hdiv,hmod,getD_eq_getElem?_getD,hci,getD_some,Nat.add_assoc]

lemma fetch_spec {first c ci cur : ℕ} (toRead total : ℕ) (keep : ℕ → ℕ → Bool)
    (hcoh : Coherent g s first l) (hci : l[ci]? = some c) (hcur : cur < g.clusterSize)
    (htotal : total < toRead) : ∃ n, 0 < n ∧ n ≤ toRead-total ∧ cur+n ≤ g.clusterSize ∧
      (fetch g s first c cur toRead total keep).1 =
        window (fileImage g s.disk l) (ci*g.clusterSize+cur) n ∧
      Coherent g (fetch g s first c cur toRead total keep).2 first l ∧
      ∃ cache, (fetch g s first c cur toRead total keep).2 = {s with cache := cache} := by
  have hclip : ∀ avail, 0 < avail → 0 < (if toRead < total+avail then toRead-total else avail) ∧
      (if toRead < total+avail then toRead-total else avail) ≤ toRead-total ∧
      (if toRead < total+avail then toRead-total else avail) ≤ avail := by
    intro avail ha
    split_ifs <;> omega
  rw [fetch]
  cases hpage : s.cache first c with
  | some page =>
    obtain ⟨-,-,hbytes⟩ := hcoh c page hpage
    obtain ⟨h₁,h₂,h₃⟩ := hclip (g.clusterSize-cur) (by omega)
    refine ⟨_,h₁,h₂,by omega,?_,hcoh,s.cache,rfl⟩
    rw [← window_image hci (by omega)]
    refine map_congr_left fun k hk => ?_
    have hk' := (mem_range.mp hk).trans_le h₃
    rw [hbytes _ (by omega),Nat.add_assoc]
  | none =>
    by_cases hsmall : g.sectorsPerCluster ≤ 8
    · obtain ⟨h₁,h₂,h₃⟩ := hclip (g.clusterSize-cur) (by omega)
      dsimp only
      rw [if_pos hsmall]
      refine ⟨_,h₁,h₂,by omega,?_,?_,_,rfl⟩
      · rw [readSectors,drop_window,take_window _ _ _ _ (by
          change _ ≤ g.clusterSize-cur
          exact h₃),← window_image hci (by omega)]
        rfl
      · intro c' page' hc'
        dsimp only at hc'
        split_ifs at hc' with hkeep
        rw [update_self] at hc'
        by_cases heq : c' = c
        · subst heq
          rw [update_self] at hc'
          refine ⟨mem_of_getElem? hci,hsmall,fun k hk => ?_⟩
          have hlt : k < (readSectors s.disk (clusterToLBA g c') g.sectorsPerCluster).length := by
            rw [readSectors,window_length]
            exact hk
          rw [← some.inj hc']
          show ((readSectors s.disk (clusterToLBA g c') g.sectorsPerCluster)[k]?).getD 0 = _
          rw [getElem?_eq_getElem hlt]
          exact window_getElem ..
        · rw [update_of_ne heq] at hc'
          exact hcoh c' page' hc'
    · dsimp only
      rw [if_neg hsmall]
      have hsplit := div_add_mod cur sectorSize
      have hmod := mod_lt cur sectorSize_pos
      rw [Nat.mul_comm] at hsplit
      have hsec : cur/sectorSize < g.sectorsPerCluster :=
        Nat.div_lt_of_lt_mul (by rw [Nat.mul_comm]; exact hcur)
      set sectors := min (g.sectorsPerCluster-cur/sectorSize) 8 with hsectors
      have hone : sectorSize ≤ sectors*sectorSize := Nat.le_mul_of_pos_left _ (by omega)
      obtain ⟨h₁,h₂,h₃⟩ := hclip (min (g.clusterSize-cur) (sectors*sectorSize-cur%sectorSize)) (by omega)
      refine ⟨_,h₁,h₂,by omega,?_,hcoh,s.cache,rfl⟩
      have haddr : (clusterToLBA g c+cur/sectorSize)*sectorSize+cur%sectorSize =
          clusterByte g c+cur := by
        rw [Nat.add_mul,Nat.add_assoc,hsplit]
        rfl
      rw [readSectors,drop_window,take_window _ _ _ _ (by omega),haddr,window_image hci (by omega)]

lemma readLoop_image {i first c ci cur : ℕ} (toRead n : ℕ) (keep : ℕ → ℕ → ℕ → Bool)
    (out : List UInt8) (h : FileChain g s i l) (hcoh : Coherent g s first l) (hpos : link c = l[ci]?)
    (hcur : cur < g.clusterSize) (hout : out.length ≤ toRead)
    (hend : ci*g.clusterSize+cur+(toRead-out.length) ≤ l.length*g.clusterSize)
    (hsize : toRead+g.clusterSize < 2^32) (hfuel : toRead-out.length ≤ n) :
    ∃ cache, readLoop g first toRead keep n s c cur out =
        some (out++window (fileImage g s.disk l) (ci*g.clusterSize+cur) (toRead-out.length),
          {s with cache := cache}) ∧ Coherent g {s with cache := cache} first l := by
  induction n generalizing s c ci cur out with
  | zero =>
    refine ⟨s.cache,?_,hcoh⟩
    rw [show toRead-out.length = 0 by omega]
    simp [readLoop,window]
  | succ n ih =>
    rw [readLoop]
    by_cases hdone : out.length = toRead
    · rw [if_neg (by omega)]
      refine ⟨s.cache,?_,hcoh⟩
      rw [show toRead-out.length = 0 by omega]
      simp [window]
    have hci : ci < l.length := by
      refine Nat.lt_of_mul_lt_mul_right (a := g.clusterSize) ?_
      omega
    obtain ⟨hmem,hdata,hlo,hhi⟩ := h.cluster_at hpos hci
    rw [if_pos ⟨by omega,hdata⟩,if_neg (by omega)]
    obtain ⟨m,hm,hmle,hmfit,hbytes,hcoh',cache,hcache⟩ := fetch_spec toRead out.length
      (keep n) hcoh hmem hcur (by omega)
    dsimp only
    rw [hbytes,hcache,window_length]
    rw [hcache] at hcoh'
    have hfile : FileChain g {s with cache := cache} i l := ⟨h.chained,h.inRange,h.allocated,h.slot⟩
    have hlen : (out++window (fileImage g s.disk l) (ci*g.clusterSize+cur) m).length =
        out.length+m := by rw [length_append,window_length]
    have hjoin : ∀ start, start = ci*g.clusterSize+cur+m →
        out++window (fileImage g s.disk l) (ci*g.clusterSize+cur) m++
          window (fileImage g s.disk l) start (toRead-(out.length+m)) =
        out++window (fileImage g s.disk l) (ci*g.clusterSize+cur) (toRead-out.length) := by
      rintro start rfl
      rw [append_assoc,window_append,show m+(toRead-(out.length+m)) = toRead-out.length by omega]
    have hsucc : (ci+1)*g.clusterSize = ci*g.clusterSize+g.clusterSize := Nat.add_one_mul ..
    by_cases hover : g.clusterSize ≤ cur+m
    · rw [if_pos hover,getFATEntry_inRange s.disk hlo hhi]
      obtain ⟨cache',hread,hcoh''⟩ := @ih {s with cache := cache} _ (ci+1) 0
        (out++window (fileImage g s.disk l) (ci*g.clusterSize+cur) m) hfile hcoh'
        (h.chained.next_at hmem) (clusterSize_pos g) (by omega) (by omega) (by omega)
      refine ⟨cache',?_,hcoh''⟩
      dsimp only
      rw [hread,hlen,hjoin _ (by omega)]
    · rw [if_neg hover]
      obtain ⟨cache',hread,hcoh''⟩ := @ih {s with cache := cache} c ci (cur+m)
        (out++window (fileImage g s.disk l) (ci*g.clusterSize+cur) m) hfile hcoh'
        hpos (by omega) (by omega) (by omega) (by omega)
      refine ⟨cache',?_,hcoh''⟩
      rw [hread,hlen,hjoin _ (by omega)]

end MoQiOS.Fat32
