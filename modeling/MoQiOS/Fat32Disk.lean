import MoQiOS.ByteImages

/-!
# The FAT32 volume on the disk

The disk is an image of bytes. The file allocation table and the clusters are
parts of it, and sectors are read and written there. The driver's copy of one
table sector is written through on every change, so the table is read from the
disk here. Disk transfers do not fail.
-/

namespace MoQiOS.Fat32

open ByteImages List Nat

abbrev Disk := ℕ → UInt8

@[irreducible] def sectorSize : ℕ := 512
def endOfChain : ℕ := 0x0FFFFFF8
def endMark : ℕ := 0x0FFFFFFF

/-- What the boot sector says, with the checks made on it. Cluster numbers fit
into the 28 bits of a table entry, as on every FAT32 volume. -/
structure Geometry where
  fatStart : ℕ
  numFats : ℕ
  fatSizeSectors : ℕ
  dataStart : ℕ
  sectorsPerCluster : ℕ
  totalDataClusters : ℕ
  rootCluster : ℕ
  /-- First sector of another volume on the same disk, 0 for none. -/
  foreignLba : ℕ
  numFats_pos : 0 < numFats
  dataStart_eq : dataStart = fatStart+numFats*fatSizeSectors
  sectorsPerCluster_pos : 0 < sectorsPerCluster
  sectorsPerCluster_le : sectorsPerCluster ≤ 128
  data_fits : dataStart+totalDataClusters*sectorsPerCluster ≤ 2^32
  clusters_fit : totalDataClusters+2 ≤ 0x0FFFFFF7
  root_valid : 2 ≤ rootCluster ∧ rootCluster < totalDataClusters+2
  fat_fits : fatSizeSectors*128 < 2^32

def IsData (c : ℕ) : Prop := 2 ≤ c ∧ c < endOfChain

instance (c : ℕ) : Decidable (IsData c) := inferInstanceAs (Decidable (_ ∧ _))

def readSectors (d : Disk) (lba count : ℕ) : List UInt8 := window d (lba*sectorSize) (count*sectorSize)

def writeSectors (d : Disk) (lba : ℕ) (buf : List UInt8) : Disk := overwrite d (lba*sectorSize) buf

def zeroSectors (d : Disk) (lba first count : ℕ) : Disk :=
  (List.range' first count).foldl
    (fun d sec => writeSectors d (lba+sec) (List.replicate sectorSize 0)) d

section
variable (g : Geometry)

def Geometry.clusterSize : ℕ := g.sectorsPerCluster*sectorSize

def clusterToLBA (c : ℕ) : ℕ :=
  if c < 2 ∨ g.totalDataClusters+2 ≤ c then 0
  else if g.dataStart+(c-2)*g.sectorsPerCluster < 2^32 then g.dataStart+(c-2)*g.sectorsPerCluster
  else 0

def fatEntryLocation (c : ℕ) : ℕ×ℕ := (g.fatStart+4*c/sectorSize,4*c%sectorSize)

def fatEntryValue (sector : List UInt8) (offset : ℕ) : Option ℕ :=
  match sector.drop offset with
  | b₀ :: b₁ :: b₂ :: b₃ :: _ =>
    some ((b₀.toNat+2^8*b₁.toNat+2^16*b₂.toNat+2^24*b₃.toNat)%2^28)
  | _ => none

def getFATEntry (d : Disk) (c : ℕ) : Option ℕ :=
  if c < 2 ∨ g.totalDataClusters+2 ≤ c then none
  else
    let loc := fatEntryLocation g c
    some ((fatEntryValue (readSectors d loc.1 1) loc.2).getD 0)

def fatCopySectors (sector : ℕ) : List ℕ :=
  (List.range (min (max g.numFats 1) 4)).map fun i =>
    g.fatStart+i*g.fatSizeSectors+(sector-g.fatStart)

/-- The bytes of an entry; the upper half of the last one is kept. -/
def entryBytes (value : ℕ) (old : UInt8) : List UInt8 :=
  [.ofNat value,.ofNat (value/2^8),.ofNat (value/2^16),(old &&& 0xF0) ||| .ofNat (value/2^24)]

def setFATEntry (d : Disk) (c value : ℕ) : Disk :=
  let loc := fatEntryLocation g c
  let fbuf := readSectors d loc.1 1
  let fbuf := splice fbuf loc.2 (entryBytes value (fbuf.getD (loc.2+3) 0))
  (fatCopySectors g loc.1).foldl (fun d lba => writeSectors d lba fbuf) d

def allocLimitCluster : ℕ :=
  let own := g.totalDataClusters+2
  if g.foreignLba = 0 ∨ g.sectorsPerCluster = 0 then own
  else if g.foreignLba ≤ g.dataStart then 2
  else min own ((g.foreignLba-g.dataStart)/g.sectorsPerCluster+2)

def maxCluster : ℕ :=
  if allocLimitCluster g < g.fatSizeSectors*128 then allocLimitCluster g
  else g.fatSizeSectors*128

def zeroCluster (d : Disk) (c : ℕ) : Disk :=
  let lba := clusterToLBA g c
  if g.sectorsPerCluster ≤ 8 then writeSectors d lba (List.replicate g.clusterSize 0)
  else zeroSectors d lba 0 g.sectorsPerCluster

end

section
variable (g : Geometry)

def entry (d : Disk) (c : ℕ) : ℕ :=
  let a := g.fatStart*sectorSize+4*c
  ((d a).toNat+2^8*(d (a+1)).toNat+2^16*(d (a+2)).toNat+2^24*(d (a+3)).toNat)%2^28

lemma fatEntryLocation_byte (c : ℕ) :
    (fatEntryLocation g c).1*sectorSize+(fatEntryLocation g c).2 = g.fatStart*sectorSize+4*c ∧
      (fatEntryLocation g c).2+4 ≤ sectorSize := by
  simp only [fatEntryLocation,sectorSize]
  omega

lemma fatEntryValue_window (d : Disk) {base len off : ℕ} (h : off+4 ≤ len) :
    fatEntryValue (window d base len) off =
      some (((d (base+off)).toNat+2^8*(d (base+off+1)).toNat+2^16*(d (base+off+2)).toNat+
        2^24*(d (base+off+3)).toNat)%2^28) := by
  obtain ⟨k,hk⟩ : ∃ k, len-off = k+1+1+1+1 := ⟨len-off-4,by omega⟩
  rw [fatEntryValue,drop_window,hk,window_succ,window_succ,window_succ,window_succ]

variable {c : ℕ}

lemma getFATEntry_eq (d : Disk) (hlo : 2 ≤ c) (hhi : c < g.totalDataClusters+2) :
    getFATEntry g d c = some (entry g d c) := by
  obtain ⟨hbyte,hfit⟩ := fatEntryLocation_byte g c
  rw [getFATEntry,if_neg (by omega)]
  dsimp only [readSectors]
  rw [one_mul,fatEntryValue_window d hfit,hbyte]
  rfl

lemma maxCluster_le : maxCluster g ≤ g.totalDataClusters+2 ∧ maxCluster g ≤ g.fatSizeSectors*128 := by
  have hlimit : allocLimitCluster g ≤ g.totalDataClusters+2 := by
    simp only [allocLimitCluster]
    split_ifs
    · exact le_refl _
    · omega
    · exact min_le_left _ _
  rw [maxCluster]
  split_ifs with h
  · exact ⟨hlimit,le_of_lt h⟩
  · exact ⟨by omega,le_refl _⟩

lemma clusterToLBA_eq (hlo : 2 ≤ c) (hhi : c < g.totalDataClusters+2) :
    clusterToLBA g c = g.dataStart+(c-2)*g.sectorsPerCluster := by
  have hmul : (c-2+1)*g.sectorsPerCluster ≤ g.totalDataClusters*g.sectorsPerCluster :=
    mul_le_mul_right _ (by omega)
  have hfits := g.data_fits
  have hpos := g.sectorsPerCluster_pos
  rw [add_mul] at hmul
  rw [clusterToLBA,if_neg (by omega),if_pos (by omega)]

/-! ### A changed entry -/

@[simp] lemma entryBytes_length (value : ℕ) (old : UInt8) : (entryBytes value old).length = 4 := rfl

lemma writeSectors_foldl_outside (d : Disk) {buf : List UInt8} (hbuf : buf.length = sectorSize)
    {lbas : List ℕ} {k : ℕ} (h : ∀ lba ∈ lbas, k < lba*sectorSize ∨ (lba+1)*sectorSize ≤ k) :
    lbas.foldl (fun d lba => writeSectors d lba buf) d k = d k := by
  induction lbas generalizing d with
  | nil => rfl
  | cons lba rest ih =>
    have hlba := h lba mem_cons_self
    rw [foldl_cons,ih _ (fun l hl => h l (mem_cons_of_mem lba hl)),writeSectors]
    exact overwrite_outside d (by rw [hbuf]; rw [add_mul] at hlba; omega)

lemma setFATEntry_apply (d : Disk) (value : ℕ) (hc : c < g.fatSizeSectors*128) {k : ℕ}
    (hk : k < (g.fatStart+g.fatSizeSectors)*sectorSize ∨ g.dataStart*sectorSize ≤ k) :
    setFATEntry g d c value k = overwrite d (g.fatStart*sectorSize+4*c)
        (entryBytes value (d (g.fatStart*sectorSize+4*c+3))) k := by
  obtain ⟨hbyte,hfit⟩ := fatEntryLocation_byte g c
  have hrel : (fatEntryLocation g c).1-g.fatStart < g.fatSizeSectors ∧
      g.fatStart ≤ (fatEntryLocation g c).1 := by
    simp only [fatEntryLocation,sectorSize]
    omega
  set sector := (fatEntryLocation g c).1 with hsector
  set off := (fatEntryLocation g c).2 with hoff
  have hold : (readSectors d sector 1).getD (off+3) 0 = d (g.fatStart*sectorSize+4*c+3) := by
    rw [readSectors,one_mul,getD_eq_getElem _ _ (by simp; omega),window_getElem,← hbyte, add_assoc]
  have hlen : (splice (readSectors d sector 1) off
      (entryBytes value (d (g.fatStart*sectorSize+4*c+3)))).length = sectorSize := by
    simp only [splice,readSectors,length_append,length_take,length_drop,
      window_length,entryBytes_length]
    omega
  obtain ⟨m,hm⟩ : ∃ m, min (max g.numFats 1) 4 = m+1 := ⟨min (max g.numFats 1) 4-1,by omega⟩
  have hcopies : fatCopySectors g sector = sector::(List.range m).map fun i =>
      g.fatStart+(i+1)*g.fatSizeSectors+(sector-g.fatStart) := by
    rw [fatCopySectors,hm,range_succ_eq_map,map_cons,map_map]
    exact congrArg₂ _ (by omega) rfl
  have hmiss : ∀ lba ∈ (List.range m).map
      (fun i => g.fatStart+(i+1)*g.fatSizeSectors+(sector-g.fatStart)),
      k < lba*sectorSize ∨ (lba+1)*sectorSize ≤ k := by
    intro lba hlba
    obtain ⟨i,hi,rfl⟩ := mem_map.mp hlba
    rw [mem_range] at hi
    have hup : (i+1+1)*g.fatSizeSectors ≤ g.numFats*g.fatSizeSectors :=
      mul_le_mul_right _ (by omega)
    have hdata := g.dataStart_eq
    rw [add_mul] at hup
    have hlow : g.fatSizeSectors ≤ (i+1)*g.fatSizeSectors := Nat.le_mul_of_pos_left _ (by omega)
    rcases hk with hk | hk
    · exact .inl (hk.trans_le (mul_le_mul_right _ (by omega)))
    · exact .inr ((Nat.mul_le_mul_right _ (by omega)).trans hk)
  have hstep : setFATEntry g d c value k = writeSectors d sector
      (splice (readSectors d sector 1) off
        (entryBytes value (d (g.fatStart*sectorSize+4*c+3)))) k := by
    rw [setFATEntry,← hsector,← hoff,hold,hcopies,foldl_cons,writeSectors_foldl_outside _ hlen hmiss]
  rw [hstep,writeSectors,readSectors,one_mul,overwrite_splice d (by simpa using hfit),hbyte]

lemma table_end {k : ℕ} (hk : g.dataStart*sectorSize ≤ k) :
    (g.fatStart+g.fatSizeSectors)*sectorSize ≤ k := by
  have hdata := g.dataStart_eq
  have hone : g.fatSizeSectors ≤ g.numFats*g.fatSizeSectors :=
    Nat.le_mul_of_pos_left _ g.numFats_pos
  exact (Nat.mul_le_mul_right _ (by omega)).trans hk

lemma setFATEntry_data (d : Disk) (value : ℕ) (hc : c < g.fatSizeSectors*128) {k : ℕ}
    (hk : g.dataStart*sectorSize ≤ k) : setFATEntry g d c value k = d k := by
  have hend := table_end g hk
  rw [setFATEntry_apply g d value hc (.inr hk),overwrite_outside]
  rw [entryBytes_length]
  simp only [sectorSize] at hend ⊢
  omega

lemma entry_congr {d d' : Disk} (hc : c < g.fatSizeSectors*128)
    (h : ∀ k, k < (g.fatStart+g.fatSizeSectors)*sectorSize → g.fatStart*sectorSize+4*c ≤ k →
      k < g.fatStart*sectorSize+4*c+4 → d' k = d k) : entry g d' c = entry g d c := by
  have hend : g.fatStart*sectorSize+4*c+4 ≤ (g.fatStart+g.fatSizeSectors)*sectorSize := by
    simp only [sectorSize]
    omega
  simp only [entry]
  rw [h _ (by omega) (by omega) (by omega),h _ (by omega) (by omega) (by omega),
    h _ (by omega) (by omega) (by omega),h _ (by omega) (by omega) (by omega)]

lemma entry_setFATEntry_of_ne (d : Disk) {c c' : ℕ} (value : ℕ) (hc : c < g.fatSizeSectors*128)
    (hc' : c' < g.fatSizeSectors*128) (hne : c' ≠ c) :
    entry g (setFATEntry g d c value) c' = entry g d c' := by
  refine entry_congr g hc' fun k hk hlo hhi => ?_
  rw [setFATEntry_apply g d value hc (.inl hk)]
  exact overwrite_outside d (by rw [entryBytes_length]; omega)

lemma half_byte (old : UInt8) {v : UInt8} (hv : v.toNat < 2^4) :
    ((old &&& 0xF0) ||| v).toNat%2^4 = v.toNat := by
  rw [UInt8.toNat_or,UInt8.toNat_and,or_mod_two_pow,and_mod_two_pow,mod_eq_of_lt hv]
  simp

lemma entry_setFATEntry_self (d : Disk) {c value : ℕ} (hc : c < g.fatSizeSectors*128)
    (hv : value < 2^28) : entry g (setFATEntry g d c value) c = value := by
  have hend : g.fatStart*sectorSize+4*c+4 ≤ (g.fatStart+g.fatSizeSectors)*sectorSize := by
    simp only [sectorSize]
    omega
  set a := g.fatStart*sectorSize+4*c with ha
  set old := d (a+3) with hold
  have hbyte : ∀ k j, k = a+j → j < 4 → setFATEntry g d c value k =
      ((entryBytes value old)[j]?).getD (d k) := by
    rintro k j rfl hj
    rw [setFATEntry_apply g d value hc (.inl (by omega)),← ha,overwrite,if_pos (by omega),
      Nat.add_sub_cancel_left]
  have h₀ : setFATEntry g d c value a = .ofNat value := by
    rw [hbyte a 0 (add_zero a).symm (by omega)]
    rfl
  have h₁ : setFATEntry g d c value (a+1) = .ofNat (value/2^8) := by
    rw [hbyte (a+1) 1 rfl (by omega)]
    rfl
  have h₂ : setFATEntry g d c value (a+2) = .ofNat (value/2^16) := by
    rw [hbyte (a+2) 2 rfl (by omega)]
    rfl
  have h₃ : setFATEntry g d c value (a+3) = (old &&& 0xF0) ||| .ofNat (value/2^24) := by
    rw [hbyte (a+3) 3 rfl (by omega)]
    rfl
  have htop : (UInt8.ofNat (value/2^24)).toNat = value/2^24 := by
    rw [UInt8.toNat_ofNat']
    omega
  have hhalf := half_byte old (v := .ofNat (value/2^24)) (by rw [htop]; omega)
  rw [htop,← h₃] at hhalf
  simp only [entry]
  rw [← ha,h₀,h₁,h₂,UInt8.toNat_ofNat',UInt8.toNat_ofNat',UInt8.toNat_ofNat']
  omega

lemma entry_overwrite (d : Disk) {c off : ℕ} (data : List UInt8) (hc : c < g.fatSizeSectors*128)
    (hoff : g.dataStart*sectorSize ≤ off) : entry g (overwrite d off data) c = entry g d c := by
  have hend := table_end g hoff
  exact entry_congr g hc fun k hk _ _ => overwrite_outside d (.inl (by omega))

def clusterByte (c : ℕ) : ℕ := clusterToLBA g c*sectorSize

lemma clusterByte_eq (hlo : 2 ≤ c) (hhi : c < g.totalDataClusters+2) :
    clusterByte g c = g.dataStart*sectorSize+(c-2)*g.clusterSize := by
  rw [clusterByte,clusterToLBA_eq g hlo hhi,Geometry.clusterSize]
  ring

lemma sectorSize_pos : 0 < sectorSize := by
  rw [sectorSize]
  decide

lemma clusterSize_pos : 0 < g.clusterSize :=
  mul_pos g.sectorsPerCluster_pos sectorSize_pos

lemma clusterByte_apart {c c' : ℕ} (hlo : 2 ≤ c) (hhi : c < g.totalDataClusters+2) (hlo' : 2 ≤ c')
    (hhi' : c' < g.totalDataClusters+2) (hne : c ≠ c') :
    clusterByte g c+g.clusterSize ≤ clusterByte g c' ∨
      clusterByte g c'+g.clusterSize ≤ clusterByte g c := by
  rw [clusterByte_eq g hlo hhi,clusterByte_eq g hlo' hhi']
  rcases lt_or_gt_of_ne hne with hlt | hlt
  · have hmul : (c-2+1)*g.clusterSize ≤ (c'-2)*g.clusterSize := mul_le_mul_right _ (by omega)
    rw [add_mul] at hmul
    omega
  · have hmul : (c'-2+1)*g.clusterSize ≤ (c-2)*g.clusterSize := mul_le_mul_right _ (by omega)
    rw [add_mul] at hmul
    omega

lemma zeroSectors_eq (d : Disk) (lba first count : ℕ) : zeroSectors d lba first count =
      overwrite d ((lba+first)*sectorSize) (List.replicate (count*sectorSize) 0) := by
  have hrun := overwrite_run d (lba*sectorSize) sectorSize first count 0
  simp only [zeroSectors,writeSectors,add_mul]
  exact hrun

lemma zeroCluster_eq (d : Disk) (c : ℕ) :
    zeroCluster g d c = overwrite d (clusterByte g c) (List.replicate g.clusterSize 0) := by
  rw [zeroCluster]
  split_ifs
  · rfl
  · rw [zeroSectors_eq]
    rfl

end

end MoQiOS.Fat32
