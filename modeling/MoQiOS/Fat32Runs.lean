import MoQiOS.Runs
import MoQiOS.Fat32Names

/-!
# Runs of FAT32 calls

From a consistent volume every sequence of calls keeps the chains apart, in
range and allocated, and frees what it drops, as long as no file without a
cluster is made shorter: that call writes zeros from the first sector of the
disk on, and the table may lie there.
-/

namespace MoQiOS.Fat32

open Runs Chains Option
set_option maxRecDepth 9000

inductive Call where
  | create (name : List UInt8) (place : Placing)
  | write (i offset : ℕ) (buf : List UInt8)
  | truncate (i newSize : ℕ) (staged : List Extent)
  | delete (i : ℕ) (staged : List Extent)
  | read (i offset count : ℕ) (keep : ℕ → ℕ → ℕ → Bool)
  | retain (i : ℕ)
  | close (i : ℕ) (staged : List Extent)

section
variable (g : Geometry)

def step (s : State) : Call → Option State
  | .create name place => some (createFile g s name place).2
  | .write i offset buf => (writeFile g s i offset buf).map Prod.snd
  | .truncate i newSize staged => (truncateFile g s i newSize staged).map Prod.snd
  | .delete i staged => (deleteFile g s i staged).map Prod.snd
  | .read i offset count keep => (readFile g s i offset count keep).map fun r => r.2.2
  | .retain i => some (retainFile s i)
  | .close i staged => closeFile g s i staged

def perform (s : State) (call : Call) : State := (step g s call).getD s

def truncateReady (s : State) : Call → Prop
  | .truncate i newSize staged => TruncateReady s i newSize staged
  | _ => True

instance (s : State) (call : Call) : Decidable (truncateReady s call) := by
  cases call <;> dsimp only [truncateReady] <;> infer_instance

/-- The call returns, and it does not make a file without a cluster shorter. -/
def Ready (s : State) (call : Call) : Prop := (step g s call).isSome ∧ truncateReady s call

instance (s : State) (call : Call) : Decidable (Ready g s call) := inferInstanceAs (Decidable (_ ∧ _))

def Consistent (s : State) : Prop := ∃ chain, Owned g s chain

/-- Clusters on the chain of a file before and on none afterwards are free. -/
def DroppedFree (s t : State) : Prop :=
  ∀ chain chain', Owned g s chain → Owned g t chain' →
    ∀ i, ∀ c ∈ chain (some i), (∀ j, c ∉ chain' (some j)) → entry g t.disk c = 0

end

variable {g : Geometry} {s t : State} {chain : Option ℕ → List ℕ}

lemma fetch_cache (g : Geometry) (s : State) (first c cur toRead total : ℕ) (keep : ℕ → ℕ → Bool) :
    ∃ cache, (fetch g s first c cur toRead total keep).2 = {s with cache := cache} := by
  rw [fetch]
  cases s.cache first c with
  | some page => exact ⟨s.cache,rfl⟩
  | none =>
    by_cases hsmall : g.sectorsPerCluster ≤ 8
    · exact ⟨_,congrArg Prod.snd (if_pos hsmall)⟩
    · exact ⟨s.cache,congrArg Prod.snd (if_neg hsmall)⟩

variable {keep : ℕ → ℕ → ℕ → Bool} {out : List UInt8}

lemma readLoop_cache {first toRead n c cur : ℕ} {out' : List UInt8}
    (h : readLoop g first toRead keep n s c cur out = some (out',t)) :
    ∃ cache, t = {s with cache := cache} := by
  induction n generalizing s c cur out with
  | zero => exact ⟨s.cache,(congrArg Prod.snd (some.inj h)).symm⟩
  | succ n ih =>
    rw [readLoop] at h
    obtain ⟨cache,hfetch⟩ := fetch_cache g s first c cur toRead out.length (keep n)
    split_ifs at h with hgo htrap
    · dsimp only at h
      rw [hfetch] at h
      split_ifs at h
      · cases hget : getFATEntry g s.disk c with
        | none =>
          rw [hget] at h
          cases h
          exact ⟨cache,rfl⟩
        | some e =>
          rw [hget] at h
          obtain ⟨cache',rfl⟩ := ih h
          exact ⟨cache',rfl⟩
      · obtain ⟨cache',rfl⟩ := ih h
        exact ⟨cache',rfl⟩
    · exact ⟨s.cache,(congrArg Prod.snd (some.inj h)).symm⟩

lemma readFile_owned {i offset count : ℕ} {n : ℤ}
    (h : Owned g s chain) (hr : readFile g s i offset count keep = some (n,out,t)) :
    Owned g t chain := by
  rw [readFile] at hr
  by_cases hbad : s.fileCount ≤ i ∨ (s.files i).active = false
  · rw [if_pos hbad] at hr
    cases hr
    exact h
  rw [if_neg hbad] at hr
  have hi : Live s i := by
    rw [not_or] at hbad
    exact ⟨by omega,by simpa using hbad.2⟩
  dsimp only at hr
  split_ifs at hr
  · cases hr
    exact h
  · cases hr
    exact h
  obtain ⟨c,ci,hfwd,hpos',-⟩ := (h.file hi).seek offset
  rw [hfwd] at hr
  dsimp only at hr
  have hwalk := h.noteWalk hi hpos'
  split_ifs at hr
  · cases hloop : readLoop g ((noteWalk s i c ci).files i).firstCluster
        (min count ((s.files i).size-offset)) keep (min count ((s.files i).size-offset))
        (noteWalk s i c ci) c (offset%g.clusterSize) [] with
    | none =>
      rw [hloop] at hr
      cases hr
    | some p =>
      obtain ⟨out',u⟩ := p
      obtain ⟨cache,rfl⟩ := readLoop_cache hloop
      rw [hloop] at hr
      cases hr
      exact hwalk.frame (fun _ _ _ => rfl) (fun _ => Iff.rfl) (fun _ => rfl) hwalk.slot hwalk.cursor
  · cases hr
    exact hwalk

variable {call : Call} (h : Owned g s chain)
include h

lemma step_stepped (hready : truncateReady s call)
    (hs : step g s call = some t) : Stepped g chain t := by
  cases call with
  | create name place =>
    cases hs
    exact createFile_stepped h
  | write i offset buf =>
    obtain ⟨⟨n,u⟩,hw,rfl⟩ := map_eq_some_iff.mp hs
    exact (writeFile_grown h hw).stepped
  | truncate i newSize staged =>
    obtain ⟨⟨ok,u⟩,ht,rfl⟩ := map_eq_some_iff.mp hs
    exact truncateFile_stepped h hready ht
  | delete i staged =>
    obtain ⟨⟨ok,u⟩,hd,rfl⟩ := map_eq_some_iff.mp hs
    exact deleteFileInternal_stepped h hd
  | read i offset count keep =>
    obtain ⟨⟨n,out,u⟩,hr,rfl⟩ := map_eq_some_iff.mp hs
    exact (readFile_owned h hr).stepped
  | retain i =>
    cases hs
    exact (retainFile_owned h).stepped
  | close i staged => exact closeFile_stepped h hs

lemma perform_stepped (hready : Ready g s call) : Stepped g chain (perform g s call) := by
  obtain ⟨t,ht⟩ := isSome_iff_exists.mp hready.1
  rw [perform,ht]
  exact step_stepped h hready.2 ht

lemma Owned.unique {chain' : Option ℕ → List ℕ} (h' : Owned g s chain') : chain = chain' := by
  ext1 o
  exact (h.chained o).unique (h'.chained o)

lemma Stepped.dropped (hs : Stepped g chain t) : DroppedFree g s t := by
  obtain ⟨chain',ht,hdrop⟩ := hs
  intro chain₁ chain₂ h₁ h₂ i c hc hgone
  obtain rfl := h.unique h₁
  obtain rfl := ht.unique h₂
  rcases hdrop i c hc with ⟨j,hj⟩ | hfree
  · exact absurd hj (hgone j)
  · exact hfree

omit h

/-- In every state reached from a consistent volume the root directory and the
live files have chains that end, meet no cluster twice, share none, stay within
the range of the allocator and are marked in the table; and every further call
frees the clusters it drops. -/
theorem reached_chains_owned (hs : Consistent g s)
    (hr : Reaches (Guarded (Ready g) (perform g)) s t) :
    (∃ chain, Owned g t chain ∧ ∀ o, (chain o).Nodup) ∧
      ∀ call u, Guarded (Ready g) (perform g) t call u → DroppedFree g t u := by
  have hkeep : ∀ s call t, Consistent g s → Guarded (Ready g) (perform g) s call t →
      Consistent g t := by
    rintro s call t ⟨chain,h⟩ ⟨hready,rfl⟩
    obtain ⟨chain',h',-⟩ := perform_stepped h hready
    exact ⟨chain',h'⟩
  obtain ⟨chain,ht⟩ := invariant hkeep hr hs
  refine ⟨⟨chain,ht,fun o => (ht.chained o).nodup⟩,?_⟩
  rintro call u ⟨hready,rfl⟩
  exact (perform_stepped ht hready).dropped ht

/-- A disk whose tables have the given clusters as chains of one. -/
def tableDisk (g : Geometry) (taken : List ℕ) : Disk := fun k =>
  let j := (k-g.fatStart*sectorSize)%(g.fatSizeSectors*sectorSize)
  if g.fatStart*sectorSize ≤ k ∧ k < g.dataStart*sectorSize ∧ j/4 ∈ taken then
    if j%4 = 3 then 0x0F else 0xFF
  else 0

def smallGeometry : Geometry :=
  ⟨32,2,1,34,1,10,2,0,by decide,by decide,by decide,by decide,by decide,by decide,by decide,by decide⟩

def emptyVolume : State := ⟨tableDisk smallGeometry [2],fun _ => freeSlot,0,[],2,fun _ _ => none⟩

lemma consistent_of_single
    (hone : ∀ o c, head g s o = some c → 2 ≤ c ∧ c < maxCluster g ∧ entry g s.disk c = endMark)
    (hinj : ∀ o o' c, head g s o = some c → head g s o' = some c → o = o')
    (hslot : ∀ i, Live s i → (s.files i).lastCluster = 0 ∧ (s.files i).lastWalkCluster = 0)
    (hcursor : 2 ≤ s.lastFreeCluster) : Consistent g s := by
  have hmem : ∀ o c, c ∈ (head g s o).toList → head g s o = some c := fun o c hc => by simpa using hc
  have hzero : ¬IsData 0 := by decide
  refine ⟨fun o => (head g s o).toList,?_⟩
  constructor
  case chained =>
    intro o
    cases ho : head g s o with
    | none => rfl
    | some c =>
      refine ⟨rfl,?_⟩
      rw [next,(hone o c ho).2.2,link_of_not endMark_not_data]
      rfl
  case inRange => exact fun o c hc => ⟨(hone o c (hmem o c hc)).1,(hone o c (hmem o c hc)).2.1⟩
  case allocated =>
    intro o c hc
    rw [(hone o c (hmem o c hc)).2.2]
    decide
  case disjoint => exact fun o o' c hc hc' => hinj o o' c (hmem o c hc) (hmem o' c hc')
  case slot =>
    intro i hi
    refine ⟨fun hd => ?_,fun hd => ?_⟩
    · rw [(hslot i hi).1] at hd
      exact absurd hd hzero
    · rw [(hslot i hi).2] at hd
      exact absurd hd hzero
  case cursor => exact hcursor

lemma emptyVolume_consistent : Consistent smallGeometry emptyVolume := by
  have hdead : ∀ i, ¬Live emptyVolume i := fun i hi => absurd hi.1 (Nat.not_lt_zero i)
  have hhead : ∀ o c, head smallGeometry emptyVolume o = some c → o = none ∧ c = 2 := by
    intro o c ho
    cases o with
    | none => exact ⟨rfl,(some.inj ho).symm⟩
    | some i =>
      rw [head,if_neg (hdead i)] at ho
      cases ho
  refine consistent_of_single ?_ ?_ (fun i hi => absurd hi (hdead i)) (Nat.le_refl 2)
  · intro o c ho
    obtain ⟨-,rfl⟩ := hhead o c ho
    with_unfolding_all decide
  · exact fun o o' c ho ho' => (hhead o c ho).1.trans (hhead o' c ho').1.symm

def lifeOfFile : List Call :=
  [.create [97] ⟨true,true,true⟩,.write 0 600 [1,2,3],.truncate 0 1 [],.delete 0 []]

theorem reached_chains_owned_life :
    (∃ chain, Owned smallGeometry (run (perform smallGeometry) emptyVolume lifeOfFile) chain ∧
      ∀ o, (chain o).Nodup) :=
  (reached_chains_owned emptyVolume_consistent
    (run_reaches (.start _ _) (by with_unfolding_all decide))).1

/-- 32 GiB in clusters of 64 sectors, behind two tables that start at sector 32. -/
def largeGeometry : Geometry :=
  ⟨32,2,8193,16418,64,1048576,2,0,by decide,by decide,by decide,by decide,by decide,by decide,by decide,by decide⟩

/-- An empty file without a cluster, as other systems make them, and a file in cluster 200. -/
def sharedVolume : State :=
  ⟨tableDisk largeGeometry [2,200],fun i => if i = 0 then ⟨[97],0,0,0,0,0,false,true,0,false⟩ else
    if i = 1 then ⟨[98],5,200,0,0,0,false,true,0,false⟩ else freeSlot,2,[0,200],2,fun _ _ => none⟩

lemma sharedVolume_consistent : Consistent largeGeometry sharedVolume := by
  have hlive : ∀ i, Live sharedVolume i → i = 0 ∨ i = 1 := by
    rintro i ⟨hlt,-⟩
    have hlt' : i < 2 := hlt
    omega
  have hhead : ∀ o c, head largeGeometry sharedVolume o = some c →
      o = none ∧ c = 2 ∨ o = some 1 ∧ c = 200 := by
    intro o c ho
    rcases o with _ | i
    · exact .inl ⟨rfl,(some.inj ho).symm⟩
    rw [head] at ho
    split_ifs at ho with hi
    rcases hlive i hi with rfl | rfl
    · cases ho
    · exact .inr ⟨rfl,(some.inj ho).symm⟩
  refine consistent_of_single ?_ ?_ ?_ (Nat.le_refl 2)
  · intro o c ho
    rcases hhead o c ho with ⟨-,rfl⟩ | ⟨-,rfl⟩
    · with_unfolding_all decide
    · with_unfolding_all decide
  · intro o o' c ho ho'
    rcases hhead o c ho with ⟨rfl,hc⟩ | ⟨rfl,hc⟩ <;> rcases hhead o' c ho' with ⟨rfl,hc'⟩ | ⟨rfl,hc'⟩
    · rfl
    · omega
    · omega
    · rfl
  · intro i hi
    rcases hlive i hi with rfl | rfl
    · exact ⟨rfl,rfl⟩
    · exact ⟨rfl,rfl⟩

/-- Growing the empty file and making it shorter again erases the table entry of the other. -/
theorem shrunk_empty_file_erases_table : Consistent largeGeometry sharedVolume ∧
      Admissible (fun s call => (step largeGeometry s call).isSome) (perform largeGeometry)
        sharedVolume [.truncate 0 100 [],.truncate 0 0 []] ∧
      ¬Consistent largeGeometry
        (run (perform largeGeometry) sharedVolume [.truncate 0 100 [],.truncate 0 0 []]) := by
  refine ⟨sharedVolume_consistent,by decide,?_⟩
  set t := run (perform largeGeometry) sharedVolume [.truncate 0 100 [],.truncate 0 0 []] with ht
  have hhead : head largeGeometry t (some 1) = some 200 := by
    rw [ht]
    with_unfolding_all decide
  have hfree : entry largeGeometry t.disk 200 = 0 := by
    rw [ht]
    with_unfolding_all decide
  rintro ⟨chain,h⟩
  have hstart := (h.chained (some 1)).head_eq
  rw [hhead] at hstart
  exact h.allocated (some 1) 200 (List.mem_of_head? hstart.symm) hfree

end MoQiOS.Fat32
