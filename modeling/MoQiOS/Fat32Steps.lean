import MoQiOS.Fat32Chains

/-!
# Chains under the calls of the driver

Writing only lengthens chains, truncating and deleting shorten them and free
what they drop, creating adds one.
-/

namespace MoQiOS.Fat32

open ByteImages Chains Function List Option Nat

variable {g : Geometry} {s t : State} {chain : Option ℕ → List ℕ}

def Grown (g : Geometry) (s : State) (chain : Option ℕ → List ℕ) (t : State) : Prop :=
  ∃ chain', Owned g t chain' ∧ (∀ o, ∀ c ∈ chain o, c ∈ chain' o) ∧ ∀ i, Live t i ↔ Live s i

/-- What the files have lost is free. -/
def Stepped (g : Geometry) (chain : Option ℕ → List ℕ) (t : State) : Prop :=
  ∃ chain', Owned g t chain' ∧
    ∀ i, ∀ c ∈ chain (some i), (∃ j, c ∈ chain' (some j)) ∨ entry g t.disk c = 0

lemma Grown.refl (h : Owned g s chain) : Grown g s chain s :=
  ⟨chain,h,fun _ _ hc => hc,fun _ => Iff.rfl⟩

lemma Owned.stepped (h : Owned g t chain) : Stepped g chain t :=
  ⟨chain,h,fun i _ hc => .inl ⟨i,hc⟩⟩

lemma Grown.stepped (h : Grown g s chain t) : Stepped g chain t := by
  obtain ⟨chain',howned,hkeep,-⟩ := h
  exact ⟨chain',howned,fun i c hc => .inl ⟨i,hkeep _ c hc⟩⟩

variable {c ci : ℕ} {i : ℕ}

lemma Owned.noteWalk (h : Owned g s chain) (hi : Live s i)
    (hpos : link c = (chain (some i))[ci]?) : Owned g (noteWalk s i c ci) chain := by
  rw [Fat32.noteWalk]
  split_ifs with hc
  · refine h.setFile rfl rfl fun _ => ⟨(h.slot i hi).last,fun _ => ?_⟩
    rw [← hpos,link_of_data hc]
  · exact h

lemma noteWalk_live (j : ℕ) : Live (noteWalk s i c ci) j ↔ Live s j := by
  rw [noteWalk]
  split_ifs
  · exact setFile_live {s.files i with lastWalkCluster := c, lastWalkIdx := ci} rfl j
  · rfl

variable {ok : Bool} {i n : ℕ}

lemma extendFile_grown (h : Owned g s chain) (hi : Live s i)
    (he : extendFile g i n s = some (ok,t)) : Grown g s chain t := by
  induction n generalizing s chain with
  | zero =>
    cases he
    exact Grown.refl h
  | succ n ih =>
    rw [extendFile] at he
    rcases extendRound_spec (h.file hi) h.max_gt h.cursor with ⟨heq,-⟩ | ⟨nc,u,heq,ha⟩
    · rw [heq] at he
      cases he
      exact Grown.refl h
    rw [heq] at he
    obtain ⟨hu,hlive⟩ := h.append hi ha
    obtain ⟨chain',howned,hkeep,hall⟩ := ih hu ((hlive i).mpr hi) he
    refine ⟨chain',howned,fun o c hc => hkeep o c ?_,fun j => (hall j).trans (hlive j)⟩
    by_cases ho : o = some i
    · subst ho
      rw [update_self]
      exact mem_append_left _ hc
    · rwa [update_of_ne ho]

variable {d : Disk} {lba : ℕ}

lemma entry_writeSectors (buf : List UInt8) (hlba : g.dataStart ≤ lba)
    (hc : c < g.fatSizeSectors*128) : entry g (writeSectors d lba buf) c = entry g d c :=
  entry_overwrite g d buf hc (mul_le_mul_right _ hlba)

variable {buf : List UInt8}

lemma entry_writeCluster {os oe written : ℕ}
    (hlba : g.dataStart ≤ lba) (hc : c < g.fatSizeSectors*128) :
    entry g (writeCluster g d lba os oe buf written).1 c = entry g d c := by
  have hfold : ∀ (secs : List ℕ) (r : Disk×ℕ),
      entry g (secs.foldl (writeSector lba os oe buf) r).1 c = entry g r.1 c := by
    intro secs
    induction secs with
    | nil => exact fun _ => rfl
    | cons sec rest ih =>
      intro r
      rw [foldl_cons,ih,writeSector]
      split_ifs
      · rfl
      · exact entry_writeSectors _ (by omega) hc
      · exact entry_writeSectors _ (by omega) hc
  rw [writeCluster]
  split_ifs
  · exact entry_writeSectors _ hlba hc
  · exact entry_writeSectors _ hlba hc
  · exact hfold _ _

lemma clusterToLBA_data (hlo : 2 ≤ c) (hhi : c < maxCluster g) :
    g.dataStart ≤ clusterToLBA g c := by
  rw [clusterToLBA_eq g hlo (hhi.trans_le (maxCluster_le g).1)]
  omega

lemma writeLoop_owned (offset : ℕ) (buf : List UInt8) {n w : ℕ} (h : Owned g s chain)
    (hi : Live s i) (hpos : link c = (chain (some i))[ci]?) :
    Owned g (writeLoop g i offset buf n s c ci w).1 chain ∧
      ∀ j, Live (writeLoop g i offset buf n s c ci w).1 j ↔ Live s j := by
  induction n generalizing s c ci w with
  | zero => exact ⟨h,fun _ => Iff.rfl⟩
  | succ n ih =>
    rw [writeLoop]
    by_cases hgo : w < buf.length ∧ IsData c
    · rw [if_pos hgo]
      rw [link_of_data hgo.2] at hpos
      obtain ⟨hlo,hhi⟩ := h.inRange _ c (mem_of_getElem? hpos.symm)
      set r := (if offset < ci*g.clusterSize+g.clusterSize ∧ ci*g.clusterSize < offset+buf.length then
          writeCluster g s.disk (clusterToLBA g c) (offset-ci*g.clusterSize)
            (if offset+buf.length < ci*g.clusterSize+g.clusterSize then
              offset+buf.length-ci*g.clusterSize else g.clusterSize) buf w
        else (s.disk,w)) with hr
      have hent : ∀ x < g.fatSizeSectors*128, entry g r.1 x = entry g s.disk x := by
        intro x hx
        rw [hr]
        by_cases hover : offset < ci*g.clusterSize+g.clusterSize ∧
            ci*g.clusterSize < offset+buf.length
        · rw [if_pos hover]
          exact entry_writeCluster (clusterToLBA_data hlo hhi) hx
        · rw [if_neg hover]
      have hu : Owned g {s with disk := r.1} chain :=
        h.withDisk fun o x hx => hent x (lt_entries (h.inRange o x hx).2)
      have hui : Live {s with disk := r.1} i := hi
      dsimp only
      rw [getFATEntry_inRange _ hlo hhi]
      have hnext : link (entry g r.1 c) = (chain (some i))[ci+1]? :=
        (hu.chained (some i)).next_at hpos.symm
      obtain ⟨hown,hlive⟩ := ih (w := r.2) (hu.noteWalk hui hnext) ((noteWalk_live i).mpr hui) hnext
      exact ⟨hown,fun j => (hlive j).trans (noteWalk_live j)⟩
    · rw [if_neg hgo]
      exact ⟨h,fun _ => Iff.rfl⟩

lemma finishWrite_owned (i offset w : ℕ) (h : Owned g s chain) :
    Owned g (finishWrite i offset w s).2 chain ∧
      ∀ j, Live (finishWrite i offset w s).2 j ↔ Live s j := by
  have hsize : ∀ n, Owned g (s.setFile i {s.files i with size := n}) chain ∧
      ∀ j, Live (s.setFile i {s.files i with size := n}) j ↔ Live s j := by
    intro n
    exact ⟨h.setFile rfl rfl fun hi => ⟨(h.slot i hi).last,(h.slot i hi).walk⟩,setFile_live _ rfl⟩
  rw [finishWrite]
  by_cases hlt : (s.files i).size < offset+w
  · rw [if_pos hlt]
    split_ifs
    · exact hsize _
    · exact ⟨(hsize _).1.invalidateInode _,(hsize _).2⟩
    · exact hsize _
  · rw [if_neg hlt]
    split_ifs
    · exact ⟨h,fun _ => Iff.rfl⟩
    · exact ⟨h.invalidateInode _,fun _ => Iff.rfl⟩
    · exact ⟨h,fun _ => Iff.rfl⟩

variable {l : List ℕ}

lemma resume_chain (start : ℕ) (h : FileChain g s i l) :
    link (resume (s.files i) start).1 = l[(resume (s.files i) start).2]? ∧
      (resume (s.files i) start).2 ≤ start := by
  rw [resume]
  split_ifs with hw
  · exact ⟨(link_of_data hw.1).trans (h.slot.walk hw.1).symm,hw.2⟩
  · exact ⟨h.chained.head_eq.trans head?_eq_getElem?,zero_le _⟩

lemma FileChain.seek (h : FileChain g s i l) (offset : ℕ) : ∃ c ci,
    forward g s.disk (offset/g.clusterSize-(resume (s.files i) (offset/g.clusterSize)).2)
      (resume (s.files i) (offset/g.clusterSize)).1 (resume (s.files i) (offset/g.clusterSize)).2 =
        some (c,ci) ∧ link c = l[ci]? ∧ ∀ n, 0 < n → offset+n ≤ l.length*g.clusterSize →
      IsData c ∧ ci*g.clusterSize+offset%g.clusterSize = offset := by
  obtain ⟨hstart,hle⟩ := resume_chain (offset/g.clusterSize) h
  obtain ⟨c,ci,hfwd,hpos,hend,hbound⟩ := forward_chain h.chained h.inRange
    (n := offset/g.clusterSize-(resume (s.files i) (offset/g.clusterSize)).2) hstart
  refine ⟨c,ci,hfwd,hpos,fun n hn hcover => ?_⟩
  have hlt : offset/g.clusterSize < l.length :=
    Nat.div_lt_of_lt_mul (by rw [Nat.mul_comm]; omega)
  have hdata : IsData c := by
    by_contra hnot
    rw [link_of_not hnot,getElem?_eq_getElem (by omega)] at hpos
    cases hpos
  have hdiv := div_add_mod offset g.clusterSize
  have hci : ci = offset/g.clusterSize := by
    rw [hend hdata]
    omega
  rw [mul_comm,← hci] at hdiv
  exact ⟨hdata,hdiv⟩

lemma writeFile_grown {i offset : ℕ} {n : ℤ} (h : Owned g s chain)
    (hw : writeFile g s i offset buf = some (n,t)) : Grown g s chain t := by
  rw [writeFile] at hw
  split_ifs at hw with hbad htrap
  · cases hw
    exact Grown.refl h
  have hi : Live s i := by
    rw [not_or] at hbad
    exact ⟨by omega,by simpa using hbad.2⟩
  dsimp only at hw
  cases he : extendFile g i (max 1 ((offset+buf.length+g.clusterSize-1)/g.clusterSize)-
      ownedClusters (s.files i).size g.clusterSize (IsData (s.files i).firstCluster)) s with
  | none =>
    rw [he] at hw
    cases hw
  | some p =>
    obtain ⟨ok,u⟩ := p
    have hgrown := extendFile_grown h hi he
    rw [he] at hw
    rcases ok with _ | _
    · cases hw
      exact hgrown
    obtain ⟨chain',hu,hkeep,hlive⟩ := hgrown
    have hui := (hlive i).mpr hi
    obtain ⟨c,ci,hfwd,hpos',-⟩ := (hu.file hui).seek offset
    dsimp only at hw
    rw [hfwd] at hw
    dsimp only at hw
    obtain ⟨hloop,hlive'⟩ := writeLoop_owned offset buf (n := buf.length)
      (w := 0) (hu.noteWalk hui hpos') ((noteWalk_live i).mpr hui) hpos'
    have hend := finishWrite_owned i offset
      (writeLoop g i offset buf buf.length (noteWalk u i c ci) c ci 0).2 hloop
    have ht := congrArg Prod.snd (some.inj hw)
    dsimp only at ht
    rw [ht] at hend
    exact ⟨chain',hend.1,hkeep,fun j => (hend.2 j).trans ((hlive' j).trans
      ((noteWalk_live j).trans (hlive j)))⟩

variable {staged : List Extent}

lemma flushStaged_grown (h : Owned g s chain)
    (hf : flushStaged g staged s = some (ok,t)) : Grown g s chain t := by
  induction staged generalizing s t chain ok with
  | nil =>
    cases hf
    exact Grown.refl h
  | cons e rest ih =>
    rw [flushStaged] at hf
    rcases hw : writeFile g s e.fileIdx e.offset e.data with _ | p
    · rw [hw] at hf
      cases hf
    obtain ⟨n,u⟩ := p
    obtain ⟨chain₁,hu,hkeep₁,hlive₁⟩ := writeFile_grown h hw
    rw [hw] at hf
    dsimp only at hf
    rcases hr : flushStaged g rest u with _ | q
    · rw [hr] at hf
      cases hf
    obtain ⟨ok',v⟩ := q
    obtain ⟨chain₂,hv,hkeep₂,hlive₂⟩ := ih hu hr
    rw [hr] at hf
    cases hf
    exact ⟨chain₂,hv,fun o c hc => hkeep₂ o c (hkeep₁ o c hc),
      fun i => (hlive₂ i).trans (hlive₁ i)⟩

lemma tailCluster_chain {start : Option ℕ} (h : Chain (next g d) start l)
    (hr : ∀ c ∈ l, 2 ≤ c ∧ c < maxCluster g) {n : ℕ} (hpos : l[ci]? = some c) :
    tailCluster g d n c = l[ci+n]? := by
  induction n generalizing c ci with
  | zero => exact hpos.symm
  | succ n ih =>
    obtain ⟨hlo,hhi⟩ := hr c (mem_of_getElem? hpos)
    have hnext : link (entry g d c) = l[ci+1]? := h.next_at hpos
    rw [tailCluster,getFATEntry_inRange d hlo hhi]
    dsimp only
    split_ifs with he
    · rw [link_of_data he] at hnext
      rw [ih hnext.symm]
      congr 1
      omega
    · rw [link_of_not he] at hnext
      have hend := List.getElem?_eq_none_iff.mp hnext.symm
      exact (getElem?_eq_none (by omega)).symm

lemma zeroTail_large (d : Disk) {off : ℕ} (hoff : off < g.clusterSize) :
    zeroSectors (writeSectors d (lba+off/sectorSize)
        (splice (readSectors d (lba+off/sectorSize) 1) (off%sectorSize)
          (List.replicate (sectorSize-off%sectorSize) 0)))
        lba (off/sectorSize+1) (g.sectorsPerCluster-(off/sectorSize+1)) =
      overwrite d (lba*sectorSize+off) (List.replicate (g.clusterSize-off) 0) := by
  have hsplit := div_add_mod off sectorSize
  have hmod : off%sectorSize < sectorSize := mod_lt _ sectorSize_pos
  have hsec : off/sectorSize < g.sectorsPerCluster :=
    Nat.div_lt_of_lt_mul (by rw [Nat.mul_comm]; exact hoff)
  have hstart : (lba+off/sectorSize)*sectorSize+off%sectorSize = lba*sectorSize+off := by
    rw [add_mul,add_assoc,mul_comm (off/sectorSize),hsplit]
  have hnext : (lba+(off/sectorSize+1))*sectorSize =
      lba*sectorSize+off+(List.replicate (sectorSize-off%sectorSize) (0 : UInt8)).length := by
    rw [length_replicate,← hstart]
    simp only [add_mul]
    omega
  have hcount : sectorSize-off%sectorSize+(g.sectorsPerCluster-(off/sectorSize+1))*sectorSize =
      g.clusterSize-off := by
    obtain ⟨k,hk⟩ : ∃ k, g.sectorsPerCluster = off/sectorSize+1+k := ⟨_,(add_sub_of_le hsec).symm⟩
    rw [Geometry.clusterSize,hk,Nat.add_sub_cancel_left]
    simp only [add_mul,one_mul]
    rw [mul_comm (off/sectorSize)]
    omega
  rw [zeroSectors_eq,writeSectors,readSectors,one_mul,
    overwrite_splice d (by rw [length_replicate]; omega),hstart,hnext,← overwrite_append,
    ← replicate_add,hcount]

lemma zeroFileTail_eq (h : FileChain g s i l) (hd : IsData (s.files i).firstCluster) :
    zeroFileTail g s.disk (s.files i).firstCluster n =
      if n%g.clusterSize = 0 ∧ n ≠ 0 then some s.disk
      else (l[n/g.clusterSize]?).map fun c =>
        overwrite s.disk (clusterByte g c+n%g.clusterSize)
          (List.replicate (g.clusterSize-n%g.clusterSize) 0) := by
  have hhead : l[0]? = some (s.files i).firstCluster := by
    rw [← head?_eq_getElem?,← h.chained.head_eq,link_of_data hd]
  have hlt : n%g.clusterSize < g.clusterSize := mod_lt _ (clusterSize_pos g)
  rw [zeroFileTail,tailCluster_chain h.chained h.inRange hhead,zero_add]
  by_cases hfull : n%g.clusterSize = 0 ∧ n ≠ 0
  · rw [if_pos hfull,if_pos hfull]
  rw [if_neg hfull,if_neg hfull]
  rcases l[n/g.clusterSize]? with _ | c
  · rfl
  dsimp only [map_some]
  split_ifs
  · rw [writeSectors,readSectors,overwrite_splice s.disk]
    · rfl
    · rw [length_replicate]
      change _ ≤ g.clusterSize
      omega
  · rw [zeroTail_large s.disk hlt]
    rfl

lemma zeroFileTail_entries (h : FileChain g s i l) (hd : IsData (s.files i).firstCluster)
    (hz : zeroFileTail g s.disk (s.files i).firstCluster n = some d) (hc : c < maxCluster g) :
    entry g d c = entry g s.disk c := by
  rw [zeroFileTail_eq h hd] at hz
  split_ifs at hz
  · rw [← some.inj hz]
  obtain ⟨x,hx,rfl⟩ := map_eq_some_iff.mp hz
  obtain ⟨hlo,hhi⟩ := h.inRange x (mem_of_getElem? hx)
  exact entry_overwrite g _ _ (lt_entries hc)
    ((clusterByte_data hlo hhi).trans (le_add_right _ _))

def cutSlot (fi : FileInfo) (newSize lastKept : ℕ) : FileInfo :=
  { fi with size := newSize, lastCluster := lastKept, lastWalkCluster := 0, lastWalkIdx := 0 }

def cutDisk (g : Geometry) (d : Disk) (l : List ℕ) (keep last : ℕ) : Disk :=
  (l.drop keep).foldl (fun d c => setFATEntry g d c 0) (setFATEntry g d last endMark)

def cutState (g : Geometry) (s : State) (i n : ℕ) (l : List ℕ) (keep last : ℕ) : State :=
  invalidateInode { s.setFile i (cutSlot (s.files i) n last) with
    disk := cutDisk g s.disk l keep last } (s.files i).firstCluster

lemma cutFile_eq {i n keep ts last : ℕ} (h : FileChain g s i l)
    (hlast : (l.take keep).getLast? = some last) (hts : link ts = l[keep]?)
    (hlen : l.length < safetyLimit) : cutFile g s i n last ts =
      if updateDirEntry s i then (true,cutState g s i n l keep last) else (false,s) := by
  have hmem : last ∈ l := mem_of_mem_take (mem_of_getLast? hlast)
  have htwo : 2 ≤ last := (h.inRange last hmem).1
  have hdir : updateDirEntry (s.setFile i (cutSlot (s.files i) n last)) i = updateDirEntry s i := by
    simp only [updateDirEntry,State.setFile,update_self,cutSlot]
    rfl
  have hapart : ∀ c ∈ l.drop keep, c ≠ last := by
    rintro c hc rfl
    have hnodup := h.chained.nodup
    rw [← take_append_drop keep l] at hnodup
    exact disjoint_of_nodup_append hnodup (mem_of_getLast? hlast) hc
  have hrange : ∀ c ∈ l.drop keep, 2 ≤ c ∧ c < maxCluster g :=
    fun c hc => h.inRange c (mem_of_mem_drop hc)
  have htail : Chain (next g (setFATEntry g s.disk last endMark)) (link ts) (l.drop keep) := by
    have hsuffix := h.chained
    rw [← take_append_drop keep l] at hsuffix
    have hdrop := hsuffix.suffix
    rw [head?_drop,← hts] at hdrop
    refine hdrop.frame fun c hc => ?_
    rw [next,next,setFATEntry_visit endMark s.disk last c (h.inRange last hmem).2 (hrange c hc).2
      (hapart c hc)]
  have hsweep : freeTail g (setFATEntry g (s.setFile i (cutSlot (s.files i) n last)).disk last endMark) ts =
      (true,cutDisk g s.disk l keep last) :=
    sweepChain_chain _ _ (setFATEntry_visit 0) htail hrange (fun _ _ => rfl) (by
      rw [length_drop]
      omega)
  simp only [cutFile,if_pos htwo]
  rw [← cutSlot,hdir,hsweep]
  cases updateDirEntry s i with
  | false => rfl
  | true => rfl

section
variable {i n keep last : ℕ} {l : List ℕ} (h : FileChain g s i l)
  (hlast : (l.take keep).getLast? = some last)
include h hlast

lemma entry_cutDisk (hc : c < maxCluster g) : entry g (cutDisk g s.disk l keep last) c =
      if c ∈ l.drop keep then 0 else if c = last then endMark else entry g s.disk c := by
  have hmem : last ∈ l := mem_of_mem_take (mem_of_getLast? hlast)
  rw [cutDisk,entry_freed (fun c hc => (h.inRange c (mem_of_mem_drop hc)).2) _ hc]
  split_ifs with hdrop heq
  · rfl
  · rw [heq]
    exact entry_setFATEntry_self g _ (lt_entries (h.inRange last hmem).2) (by decide)
  · exact setFATEntry_visit endMark s.disk last c (h.inRange last hmem).2 hc heq

lemma cutState_fileChain : FileChain g (cutState g s i n l keep last) i (l.take keep) := by
  have hslot : (cutState g s i n l keep last).files i = cutSlot (s.files i) n last :=
    update_self ..
  have hdisk : (cutState g s i n l keep last).disk = cutDisk g s.disk l keep last := rfl
  have hin : ∀ c ∈ l.take keep, 2 ≤ c ∧ c < maxCluster g :=
    fun c hc => h.inRange c (mem_of_mem_take hc)
  have hnodup := h.chained.nodup
  rw [← take_append_drop keep l] at hnodup
  have hkept : ∀ c ∈ l.take keep, c ∉ l.drop keep :=
    fun c hc hdrop => disjoint_of_nodup_append hnodup hc hdrop
  constructor
  case chained =>
    obtain ⟨front,hfront⟩ : ∃ front, l.take keep = front++[last] :=
      getLast?_eq_some_iff.mp hlast
    have hwhole : l = front++last::l.drop keep := by
      conv_lhs => rw [← take_append_drop keep l,hfront,append_assoc]
      rfl
    have hc := h.chained
    rw [hwhole] at hc
    rw [hslot,hfront,hdisk]
    refine hc.divert (fun c hcf => ?_) ?_
    · have hct : c ∈ l.take keep := by
        rw [hfront]
        exact mem_append_left _ hcf
      have hne : c ≠ last := by
        rintro rfl
        rw [hfront] at hnodup
        exact disjoint_of_nodup_append hnodup.of_append_left hcf mem_cons_self
      rw [next,next,entry_cutDisk h hlast (hin c hct).2,if_neg (hkept c hct),if_neg hne]
    · have hlt := mem_of_getLast? hlast
      rw [next,entry_cutDisk h hlast (hin last hlt).2,if_neg (hkept last hlt),if_pos rfl,
        link_of_not endMark_not_data]
      rfl
  case inRange => exact hin
  case allocated =>
    intro c hc
    rw [hdisk,entry_cutDisk h hlast (hin c hc).2,if_neg (hkept c hc)]
    split_ifs
    · decide
    · exact h.allocated c (mem_of_mem_take hc)
  case slot =>
    rw [hslot]
    refine ⟨fun _ => hlast,fun hw => ?_⟩
    have hzero : ¬IsData 0 := by decide
    exact absurd hw hzero

end

lemma Owned.cut (h : Owned g s chain) {i n keep last : ℕ} (hi : Live s i)
    (hlast : ((chain (some i)).take keep).getLast? = some last) :
    Stepped g chain (cutState g s i n (chain (some i)) keep last) := by
  have hfile := h.file hi
  have hlive : Live (cutState g s i n (chain (some i)) keep last) i :=
    (setFile_live (cutSlot (s.files i) n last) rfl i).mpr hi
  have hmem : last ∈ chain (some i) := mem_of_mem_take (mem_of_getLast? hlast)
  have hent : ∀ o ≠ some i, ∀ c ∈ chain o,
      entry g (cutDisk g s.disk (chain (some i)) keep last) c = entry g s.disk c := by
    intro o ho c hc
    have hnot : c ∉ chain (some i) := fun hmem => ho (h.disjoint o (some i) c hc hmem)
    rw [entry_cutDisk hfile hlast (h.inRange o c hc).2,
      if_neg (fun hd => hnot (mem_of_mem_drop hd)),if_neg]
    rintro rfl
    exact hnot hmem
  refine ⟨_,h.setChain (fun j hj => update_of_ne hj ..) (fun _ _ => Iff.rfl) hent
    (fun c hc => .inl (mem_of_mem_take hc)) (.inl ⟨hlive,cutState_fileChain hfile hlast⟩) h.cursor,?_⟩
  intro j c hc
  by_cases hji : j = i
  · subst hji
    by_cases hdrop : c ∈ (chain (some j)).drop keep
    · right
      exact (entry_cutDisk hfile hlast (h.inRange _ c hc).2).trans (if_pos hdrop)
    left
    refine ⟨j,?_⟩
    rw [update_self]
    rw [← take_append_drop keep (chain (some j))] at hc
    exact (mem_append.mp hc).resolve_right hdrop
  · left
    refine ⟨j,?_⟩
    rwa [update_of_ne (fun heq => hji (some.inj heq))]

lemma shrinkFile_stepped (h : Owned g s chain) (hi : Live s i)
    (hd : IsData (s.files i).firstCluster) : Stepped g chain (shrinkFile g s i n).2 := by
  have hfile := h.file hi
  have hpos : link (s.files i).firstCluster = (chain (some i))[0]? :=
    hfile.chained.head_eq.trans head?_eq_getElem?
  set keep := max 1 ((n+g.clusterSize-1)/g.clusterSize) with hkeep
  obtain ⟨hshort,hlong⟩ := cutWalk_chain hfile.chained hfile.inRange keep safetyLimit 0 0
    hpos (zero_le _) (by simp)
    (by rw [if_neg (by omega)]; exact link_of_not (by decide))
  rw [shrinkFile,← hkeep]
  by_cases hlen : (chain (some i)).length < safetyLimit
  · obtain ⟨ts,hwalk,hts⟩ := hshort (by omega)
    rw [hwalk]
    dsimp only
    obtain ⟨last,hlast⟩ := last_kept (n := keep) (ne_nil_of_mem (hfile.first_mem hd)) (by omega)
    rw [hlast,getD_some]
    rcases hz : zeroFileTail g s.disk (s.files i).firstCluster n with _ | d
    · exact h.stepped
    dsimp only
    have hz' : Owned g {s with disk := d} chain :=
      h.withDisk fun o c hc => zeroFileTail_entries hfile hd hz (h.inRange o c hc).2
    have hzi : Live {s with disk := d} i := hi
    rw [cutFile_eq (hz'.file hzi) hlast hts hlen]
    split_ifs
    · exact hz'.cut hzi hlast
    · exact hz'.stepped
  · rw [hlong (by omega)]
    exact h.stepped

/-- The condition under which a truncation is safe: a file that is made shorter has a cluster. -/
def TruncateReady (s : State) (i n : ℕ) (staged : List Extent) : Prop :=
  IsData (s.files i).firstCluster ∨ max (s.files i).size (stagedEnd staged) ≤ n

instance (s : State) (i n : ℕ) (staged : List Extent) : Decidable (TruncateReady s i n staged) :=
  inferInstanceAs (Decidable (_ ∨ _))

lemma truncateFile_stepped (h : Owned g s chain)
    (hready : TruncateReady s i n staged) (ht : truncateFile g s i n staged = some (ok,t)) :
    Stepped g chain t := by
  rw [truncateFile] at ht
  by_cases hbad : s.fileCount ≤ i ∨ (s.files i).active = false
  · rw [if_pos hbad] at ht
    cases ht
    exact h.stepped
  rw [if_neg hbad] at ht
  have hi : Live s i := by
    rw [not_or] at hbad
    exact ⟨by omega,by simpa using hbad.2⟩
  dsimp only at ht
  by_cases hgrow : max (s.files i).size (stagedEnd staged) ≤ n
  · rw [if_pos hgrow] at ht
    split_ifs at ht
    · cases ht
      refine Owned.stepped (h.setFile rfl rfl fun hi => ?_)
      exact ⟨(h.slot i hi).last,(h.slot i hi).walk⟩
    · cases ht
      exact h.stepped
  rw [if_neg hgrow] at ht
  have hd := hready.resolve_right hgrow
  rcases hf : flushStaged g staged s with _ | p
  · rw [hf] at ht
    cases ht
  obtain ⟨flushed,u⟩ := p
  have hgrown := flushStaged_grown h hf
  rw [hf] at ht
  rcases flushed with _ | _
  · cases ht
    exact hgrown.stepped
  dsimp only at ht
  split_ifs at ht with hgone hsmall
  · cases ht
    exact hgrown.stepped
  · cases ht
    exact hgrown.stepped
  obtain ⟨chain',hu,hkeep,hlive⟩ := hgrown
  have hfirst : (u.files i).firstCluster = (s.files i).firstCluster :=
    not_not.mp (not_or.mp hgone).2
  obtain ⟨chain'',hv,hdrop⟩ := shrinkFile_stepped (n := n) hu ((hlive i).mpr hi)
    (hfirst ▸ hd)
  have heq := congrArg Prod.snd (some.inj ht)
  dsimp only at heq
  rw [heq] at hv hdrop
  exact ⟨chain'',hv,fun j c hc => hdrop j c (hkeep _ c hc)⟩

end MoQiOS.Fat32
