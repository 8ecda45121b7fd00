import MoQiOS.Fat32Runs
import MoQiOS.Fat32Content

/-!
# A FAT32 file as an array of bytes

Writing, truncating and reading a file give the answers of an array of bytes
that grows with zeros, as long as a truncation does not ask for more bytes than
the chain has room for: growing allots no clusters, and a later write takes the
size for the length of the chain.
-/

namespace MoQiOS.Fat32

open ByteImages Chains Runs Function List
set_option maxRecDepth 9000

inductive FileCall where
  | write (offset : ℕ) (buf : List UInt8)
  | truncate (newSize : ℕ)
  | read (offset count : ℕ) (keep : ℕ → ℕ → ℕ → Bool)

inductive Answer where
  | wrote (n : ℤ)
  | resized (ok : Bool)
  | got (n : ℤ) (bytes : List UInt8)
  deriving DecidableEq

def padded (bytes : List UInt8) : ℕ → UInt8 := fun k => bytes.getD k 0

def arrayStep (bytes : List UInt8) : FileCall → Answer×List UInt8
  | .write offset buf =>
    (.wrote buf.length,
      window (overwrite (padded bytes) offset buf) 0 (max bytes.length (offset+buf.length)))
  | .truncate newSize => (.resized true,window (padded bytes) 0 newSize)
  | .read offset count _ =>
    (.got ((bytes.drop offset).take count).length ((bytes.drop offset).take count),bytes)

section
variable (g : Geometry) (i : ℕ)

def fileStep (s : State) : FileCall → Option (Answer×State)
  | .write offset buf => (writeFile g s i offset buf).map fun r => (.wrote r.1,r.2)
  | .truncate newSize => (truncateFile g s i newSize []).map fun r => (.resized r.1,r.2)
  | .read offset count keep =>
    (readFile g s i offset count keep).map fun r => (.got r.1 r.2.1,r.2.2)

def clusters (s : State) : List ℕ :=
  nodes (next g s.disk) (maxCluster g) (link (s.files i).firstCluster)

/-- Cluster allocation succeeds and sizes stay a cluster below 4 GiB. A shorter
file has a chain within the limit of the walks, a longer one has room for it. -/
def FileReady (s : State) : FileCall → Prop
  | .write offset buf =>
    offset+buf.length+g.clusterSize < 2^32 ∧
      max 1 ((offset+buf.length+g.clusterSize-1)/g.clusterSize)-
        ownedClusters (s.files i).size g.clusterSize (IsData (s.files i).firstCluster) ≤
          (freeClusters g s.disk).card
  | .truncate newSize =>
    if newSize < (s.files i).size then (clusters g i s).length < safetyLimit
    else newSize ≤ (clusters g i s).length*g.clusterSize ∧ newSize+g.clusterSize < 2^32
  | .read .. => True

instance (s : State) : ∀ call, Decidable (FileReady g i s call)
  | .write .. => inferInstanceAs (Decidable (_ ∧ _))
  | .truncate n => inferInstanceAs (Decidable (if n < _ then _ else _))
  | .read .. => .isTrue trivial

end

/-- The file in a slot holds the bytes; what its clusters have left over is zero. -/
structure Stores (g : Geometry) (s : State) (i : ℕ) (l : List ℕ) (bytes : List UInt8) : Prop where
  live : Live s i
  file : FileChain g s i l
  first : IsData (s.files i).firstCluster
  entered : (s.files i).firstCluster ∈ s.dir
  size : (s.files i).size = bytes.length
  fits : bytes.length ≤ l.length*g.clusterSize
  content : ∀ k < l.length*g.clusterSize, fileImage g s.disk l k = padded bytes k
  coherent : Coherent g s (s.files i).firstCluster l
  small : bytes.length+g.clusterSize < 2^32
  cursor : 2 ≤ s.lastFreeCluster

variable {g : Geometry} {s t : State} {i : ℕ} {l : List ℕ} {bytes : List UInt8}

variable (h : Stores g s i l bytes)
include h

lemma Stores.max_gt : 2 < maxCluster g := by
  have hin := h.file.inRange _ (h.file.first_mem h.first)
  omega

lemma Stores.clusters_eq : clusters g i s = l :=
  nodes_chain h.file.chained (h.file.chained.length_le fun c hc => (h.file.inRange c hc).2)

omit h

variable {n k : ℕ}

lemma padded_window {f : ℕ → UInt8} : padded (window f 0 n) k = if k < n then f k else 0 := by
  rw [padded]
  split_ifs with hk
  · rw [getD_eq_getElem _ _ (by rwa [window_length]),window_getElem,Nat.zero_add]
  · rw [getD_eq_default _ _ (by rw [window_length]; omega)]

lemma padded_of_le (hk : bytes.length ≤ k) : padded bytes k = 0 :=
  getD_eq_default _ _ hk

variable {m : ℕ}

lemma le_ceil_mul (n : ℕ) (hm : 0 < m) : n ≤ (n+m-1)/m*m := by
  have hdiv := Nat.div_add_mod (n+m-1) m
  have hmod := Nat.mod_lt (n+m-1) hm
  rw [Nat.mul_comm] at hdiv
  omega

lemma ceil_le_of_le_mul (hm : 0 < m) (h : n ≤ k*m) : (n+m-1)/m ≤ k := by
  refine Nat.le_of_lt_succ (Nat.div_lt_of_lt_mul ?_)
  rw [Nat.mul_comm,Nat.add_one_mul]
  omega

lemma Stores.owned_le (h : Stores g s i l bytes) :
    ownedClusters (s.files i).size g.clusterSize (IsData (s.files i).firstCluster) ≤ l.length := by
  have hpos := clusterSize_pos g
  have hne := length_pos_of_mem (h.file.first_mem h.first)
  have hceil := ceil_le_of_le_mul hpos h.fits
  rw [ownedClusters,if_neg (by omega),h.size]
  dsimp only
  split_ifs <;> omega

variable {offset : ℕ}

lemma updateDirEntry_true (hi : i < t.fileCount) (hdir : (t.files i).firstCluster ∈ t.dir) :
    updateDirEntry t i = true := by
  simp [updateDirEntry,hi,hdir]

lemma FileChain.resized (h : FileChain g s i l) (hdisk : t.disk = s.disk)
    (hslot : t.files i = {s.files i with size := n}) : FileChain g t i l := by
  refine ⟨?_,h.inRange,?_,?_⟩
  · rw [hslot,hdisk]
    exact h.chained
  · rw [hdisk]
    exact h.allocated
  · rw [hslot]
    exact ⟨h.slot.last,h.slot.walk⟩

lemma finishWrite_eq (offset n : ℕ) (hlive : Live s i) (hdir : (s.files i).firstCluster ∈ s.dir) :
    ∃ t : State, finishWrite i offset n s = ((n : ℤ),t) ∧
      t.files i = {s.files i with size := max (s.files i).size (offset+n)} ∧
      t.fileCount = s.fileCount ∧ t.dir = s.dir ∧ t.disk = s.disk ∧
      t.lastFreeCluster = s.lastFreeCluster ∧
      t.cache = if 0 < n then update s.cache (s.files i).firstCluster (fun _ => none)
        else s.cache := by
  rw [finishWrite]
  by_cases hgrow : (s.files i).size < offset+n
  · have hmax : max (s.files i).size (offset+n) = offset+n := by omega
    have hself : (s.setFile i {s.files i with size := offset+n}).files i =
        {s.files i with size := offset+n} := update_self ..
    have hdir' : updateDirEntry (s.setFile i {s.files i with size := offset+n}) i = true :=
      updateDirEntry_true hlive.1 (by rw [hself]; exact hdir)
    rw [if_pos hgrow,if_neg (by rw [hdir']; simp),hmax]
    split_ifs
    · exact ⟨_,rfl,hself,rfl,rfl,rfl,rfl,rfl⟩
    · exact ⟨_,rfl,hself,rfl,rfl,rfl,rfl,rfl⟩
  · have hmax : max (s.files i).size (offset+n) = (s.files i).size := by omega
    rw [if_neg hgrow,if_neg (fun hand => hgrow hand.1),hmax]
    split_ifs
    · exact ⟨_,rfl,rfl,rfl,rfl,rfl,rfl,rfl⟩
    · exact ⟨_,rfl,rfl,rfl,rfl,rfl,rfl,rfl⟩

include h

lemma Stores.write {buf : List UInt8}
    (hready : FileReady g i s (.write offset buf)) :
    ∃ t l', writeFile g s i offset buf = some ((buf.length : ℤ),t) ∧
      Stores g t i l' (arrayStep bytes (.write offset buf)).2 := by
  obtain ⟨htrap,hfree⟩ := hready
  have hpos := clusterSize_pos g
  have hsmall := h.small
  obtain ⟨u,l',hext,hlong,hlen⟩ := extendFile_lengthened h.file h.first h.max_gt h.cursor hfree
  have howned := h.owned_le
  have hcover : offset+buf.length ≤ l'.length*g.clusterSize := by
    refine (le_ceil_mul _ hpos).trans (Nat.mul_le_mul_right _ ?_)
    omega
  obtain ⟨c,ci,hfwd,hat,hseek⟩ := hlong.file.seek offset
  have hnote := noteWalk_copied hlong.file hat
  have hplace : 0 = buf.length ∨ 0 = ci*g.clusterSize-offset ∧
      offset < ci*g.clusterSize+g.clusterSize := by
    by_cases hnil : buf.length = 0
    · exact .inl hnil.symm
    have hat' := (hseek buf.length (by omega) hcover).2
    have hmod := Nat.mod_lt offset hpos
    exact .inr ⟨by omega,by omega⟩
  obtain ⟨hcount,hcopied,himage⟩ := writeLoop_image (n := buf.length) hnote.file hat hcover
    (Nat.zero_le _) hplace (Nat.sub_le _ _)
  set w := writeLoop g i offset buf buf.length (noteWalk u i c ci) c ci 0 with hw
  have hall := hnote.trans hcopied
  have hfirst : (w.1.files i).firstCluster = (s.files i).firstCluster := hall.first.trans hlong.first
  have hsize : (w.1.files i).size = bytes.length := (hall.size.trans hlong.size).trans h.size
  have hdir : w.1.dir = s.dir := hall.rest.2.1.trans hlong.rest.2.1
  have hcache : w.1.cache = s.cache := hall.rest.2.2.1.trans hlong.rest.2.2
  have hlive : Live w.1 i := by
    refine ⟨?_,(hall.active.trans hlong.active).trans h.live.2⟩
    rw [hall.rest.1,hlong.rest.1]
    exact h.live.1
  obtain ⟨t,hfin,hslot,hfc,htd,hdisk,hcur,htc⟩ := finishWrite_eq offset buf.length
    hlive (by rw [hfirst,hdir]; exact h.entered)
  refine ⟨t,l',?_,?_⟩
  · rw [writeFile,if_neg (by rw [h.live.2]; have := h.live.1; simp; omega),
      if_neg (by rw [h.size]; omega)]
    dsimp only
    rw [hext]
    dsimp only
    rw [hfwd]
    dsimp only
    rw [← hw,hcount,hfin]
  · have hpad : ∀ k < l'.length*g.clusterSize,
        fileImage g t.disk l' k = overwrite (padded bytes) offset buf k := by
      intro k hk
      rw [hdisk,himage k hk,noteWalk_disk,drop_zero,Nat.add_zero]
      simp only [overwrite]
      rw [hlong.image hk]
      by_cases hold : k < l.length*g.clusterSize
      · rw [if_pos hold,h.content k hold]
      · have hfits := h.fits
        rw [if_neg hold,padded_of_le (by omega)]
    constructor
    case live => exact ⟨hfc.symm ▸ hlive.1,by rw [hslot]; exact hlive.2⟩
    case file => exact hall.file.resized hdisk hslot
    case first => rw [hslot,hfirst]; exact h.first
    case entered => rw [hslot,hfirst,htd,hdir]; exact h.entered
    case size => rw [hslot,hsize,arrayStep,window_length]
    case fits =>
      rw [arrayStep,window_length]
      have hfits := h.fits
      have hmono : l.length*g.clusterSize ≤ l'.length*g.clusterSize :=
        Nat.mul_le_mul_right _ hlong.pre.length_le
      omega
    case content =>
      intro k hk
      rw [hpad k hk,arrayStep,padded_window]
      split_ifs with hin
      · rfl
      · rw [overwrite_outside _ (by omega),padded_of_le (by omega)]
    case coherent =>
      intro c' page hpage
      rw [hslot,hfirst,htc,hfirst,hcache] at hpage
      by_cases hn : 0 < buf.length
      · rw [if_pos hn,update_self] at hpage
        cases hpage
      rw [if_neg hn] at hpage
      obtain ⟨hmem,hspc,hbytes⟩ := h.coherent c' page hpage
      refine ⟨hlong.pre.subset hmem,hspc,fun k hk => ?_⟩
      have hnil : buf = [] := eq_nil_of_length_eq_zero (by omega)
      have hsame : w.1 = noteWalk u i c ci := by
        rw [hw,hnil]
        rfl
      rw [hdisk,hsame,noteWalk_disk,hlong.bytes c' hmem k hk]
      exact hbytes k hk
    case small =>
      rw [arrayStep,window_length]
      omega
    case cursor =>
      rw [hcur,hall.rest.2.2.2]
      exact hlong.cursor

lemma Stores.zeroed (hn : n < bytes.length) :
    ∃ d, zeroFileTail g s.disk (s.files i).firstCluster n = some d ∧
      ∀ k < max 1 ((n+g.clusterSize-1)/g.clusterSize)*g.clusterSize,
        k < l.length*g.clusterSize → fileImage g d l k = if k < n then padded bytes k else 0 := by
  have hpos := clusterSize_pos g
  have hfits := h.fits
  have hdiv := Nat.div_add_mod n g.clusterSize
  have hmod := Nat.mod_lt n hpos
  rw [Nat.mul_comm] at hdiv
  rw [zeroFileTail_eq h.file h.first]
  by_cases hfull : n%g.clusterSize = 0 ∧ n ≠ 0
  · refine ⟨s.disk,if_pos hfull,fun k hk hkl => ?_⟩
    have hceil : (n+g.clusterSize-1)/g.clusterSize ≤ n/g.clusterSize :=
      ceil_le_of_le_mul hpos (by omega)
    have hone : 1 ≤ n/g.clusterSize := by
      refine Nat.div_pos ?_ hpos
      exact Nat.le_of_dvd (by omega) (Nat.dvd_of_mod_eq_zero hfull.1)
    have hkeep : max 1 ((n+g.clusterSize-1)/g.clusterSize)*g.clusterSize ≤ n/g.clusterSize*g.clusterSize :=
      Nat.mul_le_mul_right _ (by omega)
    rw [if_pos (by omega),h.content k hkl]
  have hat : n/g.clusterSize < l.length := Nat.div_lt_of_lt_mul (by rw [Nat.mul_comm]; omega)
  have hmem : l[n/g.clusterSize]? = some (l.getD (n/g.clusterSize) 0) :=
    getElem?_of_lt_image (by omega)
  set c := l.getD (n/g.clusterSize) 0 with hc
  refine ⟨overwrite s.disk (clusterByte g c+n%g.clusterSize)
    (List.replicate (g.clusterSize-n%g.clusterSize) 0),?_,?_⟩
  · rw [if_neg hfull,hmem]
    rfl
  · intro k hk hkl
    have hceil : max 1 ((n+g.clusterSize-1)/g.clusterSize) ≤ n/g.clusterSize+1 := by
      have hle := ceil_le_of_le_mul (n := n) (k := n/g.clusterSize+1) hpos
        (by rw [Nat.add_one_mul]; omega)
      exact max_le (Nat.le_add_left 1 _) hle
    have hkeep := Nat.mul_le_mul_right g.clusterSize hceil
    rw [Nat.add_one_mul] at hkeep
    rw [fileImage_overwrite h.file.inRange h.file.chained.nodup
      (List.replicate (g.clusterSize-n%g.clusterSize) 0) hmem
      (by rw [length_replicate]; omega) hkl,hdiv]
    split_ifs with hkn
    · rw [overwrite_outside _ (.inl hkn),h.content k hkl]
    · rw [overwrite_inside _ (by omega) (by rw [length_replicate]; omega),getElem_replicate]

lemma Stores.shrink (hn : n < bytes.length)
    (hlen : l.length < safetyLimit) :
    ∃ t l', shrinkFile g s i n = (true,t) ∧ Stores g t i l' (arrayStep bytes (.truncate n)).2 := by
  have hpos := clusterSize_pos g
  have hfits := h.fits
  have hsmall := h.small
  have hhead : link (s.files i).firstCluster = l[0]? :=
    h.file.chained.head_eq.trans head?_eq_getElem?
  have hnil := h.file.first_mem h.first
  have hone := length_pos_of_mem hnil
  set keep := max 1 ((n+g.clusterSize-1)/g.clusterSize) with hkeep
  have hkl : keep ≤ l.length := by
    have hceil := ceil_le_of_le_mul (n := n) (k := l.length) hpos (by omega)
    omega
  have hcover : n ≤ keep*g.clusterSize :=
    (le_ceil_mul n hpos).trans (Nat.mul_le_mul_right _ (by omega))
  have htake : (l.take keep).length = keep := by
    rw [length_take]
    omega
  obtain ⟨hwalk,-⟩ := cutWalk_chain h.file.chained h.file.inRange keep safetyLimit 0 0 hhead
    (Nat.zero_le _) (by simp) (by rw [if_neg (by omega)]; exact link_of_not (by decide))
  obtain ⟨ts,hcut,hts⟩ := hwalk (by omega)
  obtain ⟨last,hlast⟩ := last_kept (n := keep) (ne_nil_of_mem hnil) (by omega)
  obtain ⟨d,hzero,himage⟩ := h.zeroed hn
  have hfile : FileChain g {s with disk := d} i l :=
    h.file.withDisk fun c hc => zeroFileTail_entries h.file h.first hzero (h.file.inRange c hc).2
  have hdir : updateDirEntry {s with disk := d} i = true := updateDirEntry_true h.live.1 h.entered
  set t := cutState g {s with disk := d} i n l keep last with ht
  have hself : t.files i = cutSlot (s.files i) n last := update_self ..
  have hdata : ∀ k, g.dataStart*sectorSize ≤ k → t.disk k = d k := by
    intro k hk
    have hmem := mem_of_mem_take (mem_of_getLast? hlast)
    exact (foldl_freed_data (fun c hc => (h.file.inRange c (mem_of_mem_drop hc)).2) _ hk).trans
      (setFATEntry_data g d endMark (lt_entries (h.file.inRange last hmem).2) hk)
  refine ⟨t,l.take keep,?_,?_⟩
  · rw [shrinkFile,← hkeep,hcut]
    dsimp only
    rw [hzero]
    dsimp only
    rw [hlast,Option.getD_some,cutFile_eq hfile hlast hts hlen,if_pos hdir]
  · constructor
    case live => exact ⟨h.live.1,by rw [hself]; exact h.live.2⟩
    case file => exact cutState_fileChain hfile hlast
    case first => rw [hself]; exact h.first
    case entered => rw [hself]; exact h.entered
    case size => rw [hself,arrayStep,window_length,cutSlot]
    case fits =>
      rw [arrayStep,window_length,htake]
      exact hcover
    case content =>
      intro k hk
      rw [htake] at hk
      have hkl' : k < l.length*g.clusterSize := hk.trans_le (Nat.mul_le_mul_right _ hkl)
      have hat := getElem?_of_lt_image hkl'
      have hq : k/g.clusterSize < keep := Nat.div_lt_of_lt_mul (by rwa [Nat.mul_comm])
      have hcl : (l.take keep).getD (k/g.clusterSize) 0 = l.getD (k/g.clusterSize) 0 := by
        rw [getD_eq_getElem?_getD,getD_eq_getElem?_getD,getElem?_take_of_lt hq]
      obtain ⟨hlo,hhi⟩ := h.file.inRange _ (mem_of_getElem? hat)
      rw [arrayStep,padded_window,← himage k hk hkl',fileImage,hcl,
        hdata _ ((clusterByte_data hlo hhi).trans (Nat.le_add_right _ _))]
      rfl
    case coherent =>
      intro c page hpage
      have hgone : t.cache (t.files i).firstCluster c = none := by
        rw [hself]
        exact congrFun (update_self (f := s.cache) (s.files i).firstCluster (fun _ => none)) c
      rw [hgone] at hpage
      cases hpage
    case small =>
      rw [arrayStep,window_length]
      omega
    case cursor => exact h.cursor

lemma Stores.truncate (hready : FileReady g i s (.truncate n)) :
    ∃ t l', truncateFile g s i n [] = some (true,t) ∧
      Stores g t i l' (arrayStep bytes (.truncate n)).2 := by
  rw [FileReady,h.clusters_eq,h.size] at hready
  have hstaged : stagedEnd [] = 0 := rfl
  rw [truncateFile,if_neg (by rw [h.live.2]; have := h.live.1; simp; omega),hstaged]
  dsimp only
  rw [h.size]
  by_cases hshort : n < bytes.length
  · rw [if_pos hshort] at hready
    obtain ⟨t,l',hshrink,ht⟩ := h.shrink hshort hready
    refine ⟨t,l',?_,ht⟩
    rw [if_neg (by omega),flushStaged]
    dsimp only
    rw [if_neg (by rw [h.live.2]; simp),h.size,if_neg (by omega),hshrink]
  rw [if_neg hshort] at hready
  rw [if_pos (by omega)]
  have hpad : ∀ k, padded (window (padded bytes) 0 n) k = padded bytes k := by
    intro k
    rw [padded_window]
    split_ifs with hk
    · rfl
    · rw [padded_of_le (by omega)]
  by_cases hgrow : bytes.length < n
  · rw [if_pos hgrow]
    set t := s.setFile i {s.files i with size := n} with ht
    have hself : t.files i = {s.files i with size := n} := update_self ..
    have hdir : updateDirEntry t i = true :=
      updateDirEntry_true h.live.1 (by rw [hself]; exact h.entered)
    refine ⟨t,l,by rw [hdir],?_⟩
    constructor
    case live => exact ⟨h.live.1,by rw [hself]; exact h.live.2⟩
    case file => exact h.file.resized rfl hself
    case first => rw [hself]; exact h.first
    case entered => rw [hself]; exact h.entered
    case size => rw [hself,arrayStep,window_length]
    case fits => rw [arrayStep,window_length]; exact hready.1
    case content => exact fun k hk => (h.content k hk).trans (hpad k).symm
    case coherent => rw [hself]; exact h.coherent
    case small => rw [arrayStep,window_length]; exact hready.2
    case cursor => exact h.cursor
  · rw [if_neg hgrow]
    have hsame : window (padded bytes) 0 n = bytes := by
      refine ext_getElem (by rw [window_length]; omega) fun k _ hk => ?_
      rw [window_getElem,Nat.zero_add,padded,getD_eq_getElem _ _ hk]
    refine ⟨s,l,rfl,?_⟩
    rw [arrayStep,hsame]
    exact h

lemma Stores.withCache (hc : Copied g s i l t) (hd : t.disk = s.disk)
    {cache : ℕ → ℕ → Option (ℕ → UInt8)}
    (hcoh : Coherent g {t with cache := cache} (s.files i).firstCluster l) :
    Stores g {t with cache := cache} i l bytes := by
  constructor
  case live => exact ⟨by rw [hc.rest.1]; exact h.live.1,hc.active.trans h.live.2⟩
  case file => exact ⟨hc.file.chained,hc.file.inRange,hc.file.allocated,hc.file.slot⟩
  case first => exact hc.first.symm ▸ h.first
  case entered =>
    show (t.files i).firstCluster ∈ t.dir
    rw [hc.first,hc.rest.2.1]
    exact h.entered
  case size => exact hc.size.trans h.size
  case fits => exact h.fits
  case content =>
    intro k hk
    show fileImage g t.disk l k = _
    rw [hd]
    exact h.content k hk
  case coherent => exact hc.first.symm ▸ hcoh
  case small => exact h.small
  case cursor =>
    show 2 ≤ t.lastFreeCluster
    rw [hc.rest.2.2.2]
    exact h.cursor

lemma Stores.read (offset count : ℕ) (keep : ℕ → ℕ → ℕ → Bool) :
    ∃ t, readFile g s i offset count keep =
        some ((((bytes.drop offset).take count).length : ℤ),(bytes.drop offset).take count,t) ∧
      Stores g t i l bytes := by
  have hfits := h.fits
  have hsmall := h.small
  rw [readFile,if_neg (by rw [h.live.2]; have := h.live.1; simp; omega),h.size]
  by_cases hpast : bytes.length ≤ offset
  · rw [if_pos hpast,drop_of_length_le hpast]
    exact ⟨s,by simp,h⟩
  rw [if_neg hpast]
  dsimp only
  by_cases hzero : min count (bytes.length-offset) = 0
  · rw [if_pos hzero]
    refine ⟨s,?_,h⟩
    rw [show count = 0 by omega]
    simp
  rw [if_neg hzero]
  obtain ⟨c,ci,hfwd,hat,hseek⟩ := h.file.seek offset
  obtain ⟨hdata,hplace⟩ := hseek (min count (bytes.length-offset)) (by omega) (by omega)
  have hnote := noteWalk_copied h.file hat
  have hdisk := noteWalk_disk s i c ci
  have hcoh : Coherent g (noteWalk s i c ci) (s.files i).firstCluster l := by
    rw [Coherent,hnote.rest.2.2.1,hdisk]
    exact h.coherent
  obtain ⟨cache,hread,hcoh'⟩ := readLoop_image (min count (bytes.length-offset))
    (min count (bytes.length-offset)) keep [] hnote.file hcoh hat
    (Nat.mod_lt offset (clusterSize_pos g)) (Nat.zero_le _) (by rw [hplace]; simp; omega) (by omega)
    (by simp)
  have hbytes : window (fileImage g s.disk l) offset (min count (bytes.length-offset)) =
      (bytes.drop offset).take count := by
    refine ext_getElem (by simp) fun k hk _ => ?_
    rw [window_length] at hk
    rw [window_getElem,h.content _ (by omega),getElem_take,getElem_drop,padded,getD_eq_getElem]
  rw [hfwd]
  dsimp only
  rw [if_pos hdata,hnote.first,hread,hplace,hdisk,nil_append,length_nil,Nat.sub_zero,hbytes]
  have hst := h.withCache hnote hdisk hcoh'
  rw [hdisk] at hst
  exact ⟨_,rfl,hst⟩

omit h

section
variable (g : Geometry) (i : ℕ)

/-- A state with the answers given so far; `none` is a call that does not return. -/
structure Session (σ : Type) where
  state : σ
  answers : List (Option Answer)

def performFile (x : Session State) (call : FileCall) : Session State :=
  match fileStep g i x.state call with
  | none => ⟨x.state,x.answers++[none]⟩
  | some (a,t) => ⟨t,x.answers++[some a]⟩

def performArray (x : Session (List UInt8)) (call : FileCall) : Session (List UInt8) :=
  ⟨(arrayStep x.state call).2,x.answers++[some (arrayStep x.state call).1]⟩

end

lemma fileStep_array {call : FileCall} (h : Stores g s i l bytes) (hready : FileReady g i s call) :
    ∃ t l', fileStep g i s call = some ((arrayStep bytes call).1,t) ∧
      Stores g t i l' (arrayStep bytes call).2 := by
  cases call with
  | write offset buf =>
    obtain ⟨t,l',hw,ht⟩ := h.write hready
    exact ⟨t,l',by rw [fileStep,hw]; rfl,ht⟩
  | truncate n =>
    obtain ⟨t,l',hw,ht⟩ := h.truncate hready
    exact ⟨t,l',by rw [fileStep,hw]; rfl,ht⟩
  | read offset count keep =>
    obtain ⟨t,hr,ht⟩ := h.read offset count keep
    exact ⟨t,l,by rw [fileStep,hr]; rfl,ht⟩

/-- Every sequence of calls on a file gives the answers of the array. -/
theorem file_calls_refine_array (calls : List FileCall) (h : Stores g s i l bytes)
    (answers : List (Option Answer))
    (ha : Admissible (fun x call => FileReady g i x.state call) (performFile g i) ⟨s,answers⟩ calls) :
    (run (performFile g i) ⟨s,answers⟩ calls).answers =
      (run performArray ⟨bytes,answers⟩ calls).answers := by
  induction calls generalizing s l bytes answers with
  | nil => rfl
  | cons call rest ih =>
    obtain ⟨t,l',hstep,ht⟩ := fileStep_array h ha.1
    have hperform : performFile g i ⟨s,answers⟩ call =
        ⟨t,answers++[some (arrayStep bytes call).1]⟩ := by
      rw [performFile, hstep]
    have hrest := ha.2
    rw [hperform] at hrest
    have hih := ih ht _ hrest
    simp only [run, foldl_cons] at hih ⊢
    rw [hperform]
    exact hih

def oneFile : State :=
  ⟨tableDisk smallGeometry [2,3],fun i => if i = 0 then ⟨[97],0,3,3,0,0,false,true,0,false⟩ else freeSlot,
    1,[3],4,fun _ _ => none⟩

lemma tableDisk_data {taken : List ℕ} (hk : g.dataStart*sectorSize ≤ k) :
    tableDisk g taken k = 0 := if_neg (by omega)

lemma oneFile_stores : Stores smallGeometry oneFile 0 [3] [] := by
  constructor
  case live => exact ⟨Nat.one_pos,rfl⟩
  case file =>
    refine ⟨⟨rfl,show next smallGeometry oneFile.disk 3 = none by with_unfolding_all decide⟩,
      ?_,?_,?_,?_⟩
    · intro c hc
      obtain rfl := mem_singleton.mp hc
      decide
    · intro c hc
      obtain rfl := mem_singleton.mp hc
      with_unfolding_all decide
    · exact fun _ => rfl
    · exact fun hw => absurd hw (show ¬IsData 0 by decide)
  case first => exact show IsData 3 by decide
  case entered => exact mem_singleton.mpr rfl
  case size => rfl
  case fits => exact Nat.zero_le _
  case content =>
    intro k hk
    have hat := mem_of_getElem? (getElem?_of_lt_image hk)
    rw [fileImage,mem_singleton.mp hat]
    refine tableDisk_data ?_
    rw [clusterByte_eq smallGeometry (by decide) (by decide)]
    omega
  case coherent => exact fun _ _ hpage => by cases hpage
  case small => with_unfolding_all decide
  case cursor => decide

def gapCalls : List FileCall := [.write 600 [1,2,3],.truncate 601,.read 0 1000 fun _ _ _ => true]

theorem file_calls_refine_array_gap :
    (run (performFile smallGeometry 0) ⟨oneFile,[]⟩ gapCalls).answers =
      (run performArray ⟨[],[]⟩ gapCalls).answers :=
  file_calls_refine_array gapCalls oneFile_stores [] (by with_unfolding_all decide)

/-- A file that was made longer than its clusters cannot be read where it is longer. -/
theorem grown_file_unreadable : Stores smallGeometry oneFile 0 [3] [] ∧
      (run (performFile smallGeometry 0) ⟨oneFile,[]⟩ [.truncate 1000,.read 600 2 fun _ _ _ => true]).answers =
        [some (.resized true),some (.got (-1) [])] ∧
      (run performArray ⟨[],[]⟩ [.truncate 1000,.read 600 2 fun _ _ _ => true]).answers =
        [some (.resized true),some (.got 2 [0,0])] :=
  ⟨oneFile_stores,by with_unfolding_all decide⟩

end MoQiOS.Fat32
