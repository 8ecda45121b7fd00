import Mathlib

/-!
# Slots of the root directory

The 32-byte slots of the root directory in the order a scan meets them. A file
is looked up by its first cluster, both when its size is published and when it
is deleted.
-/

namespace MoQiOS.Fat32.Directory

open List

abbrev Slot := ℕ → UInt8

variable (attr : UInt8)

def isLfnAttr : Bool := attr = 0x0F
def isVolumeLabelAttr : Bool := attr = 0x08

inductive SlotKind where
  | fin | deleted | lfn | label | short
  deriving DecidableEq

variable (e : Slot)

def kind : SlotKind :=
  if e 0 = 0 then .fin
  else if e 0 = 0xE5 then .deleted
  else if isLfnAttr (e 11) then .lfn
  else if isVolumeLabelAttr (e 11) then .label
  else .short

def dirEntryFirstCluster : ℕ :=
  (e 26).toNat+2^8*(e 27).toNat+2^16*(e 20).toNat+2^24*(e 21).toNat

def setDirEntrySize (size : ℕ) : Slot := fun k =>
  if 28 ≤ k ∧ k < 32 then .ofNat (size/2^(8*(k-28))) else e k

structure DosStamp where
  date : ℕ
  time : ℕ

/-- The date of the last change is also the date of the last access. -/
def setDirEntryMtime (s : DosStamp) : Slot := fun k =>
  if k = 22 then .ofNat s.time
  else if k = 23 then .ofNat (s.time/2^8)
  else if k = 24 ∨ k = 18 then .ofNat s.date
  else if k = 25 ∨ k = 19 then .ofNat (s.date/2^8)
  else e k

def maxLfnSlots : ℕ := 20

def lfnChecksum (short : Slot) : UInt8 :=
  (List.range 11).foldl (fun sum k => ((sum &&& 1) <<< 7)+(sum >>> 1)+short k) 0

variable (first : UInt8)

def lfnSequence : ℕ := (first &&& 0x1F).toNat
def isLastLfnSlot : Bool := first &&& 0x40 ≠ 0

def pushLfn (run : List (ℕ×Slot)) (p : ℕ×Slot) : List (ℕ×Slot) :=
  if isLastLfnSlot (p.2 0) ∨ maxLfnSlots ≤ run.length then [p] else run++[p]

def ownedLoop (sum : UInt8) : List Slot → ℕ → ℕ → ℕ
  | [], _, _ => 0
  | e :: rest, k, expectSeq =>
    if e 13 ≠ sum ∨ lfnSequence (e 0) ≠ expectSeq then 0
    else if isLastLfnSlot (e 0) then k+1
    else if maxLfnSlots < expectSeq+1 then 0
    else ownedLoop sum rest (k+1) (expectSeq+1)

def ownedLfnRun (slots : List Slot) (short : Slot) : ℕ :=
  ownedLoop (lfnChecksum short) slots.reverse 0 1

/-- The first live short entry with the given first cluster, and the slots of a
long name right before it. -/
def scanRoot (first : ℕ) : List Slot → ℕ → List (ℕ×Slot) → Option (ℕ×Slot×List (ℕ×Slot))
  | [], _, _ => none
  | e :: rest, i, run =>
    match kind e with
    | .fin => none
    | .deleted => scanRoot first rest (i+1) []
    | .lfn => scanRoot first rest (i+1) (pushLfn run (i,e))
    | .label => scanRoot first rest (i+1) []
    | .short => if dirEntryFirstCluster e = first then some (i,e,run) else scanRoot first rest (i+1) []

variable (dir : List Slot)

def rewrite (hit : List ℕ) (f : Slot → Slot) : List ℕ×List Slot :=
  (hit,hit.foldl (fun d i => d.modify i f) dir)

/-- The slots written, none if the file has no entry, and the directory then. -/
def updateSlots (first size : ℕ) (stamp : DosStamp) : List ℕ×List Slot :=
  match scanRoot first dir 0 [] with
  | none => ([],dir)
  | some (i,_,_) => rewrite dir [i] fun e => setDirEntryMtime (setDirEntrySize e size) stamp

def deleteSlots (first : ℕ) : List ℕ×List Slot :=
  match scanRoot first dir 0 [] with
  | none => ([],dir)
  | some (i,e,run) =>
    let owned := ownedLfnRun (run.map Prod.snd) e
    rewrite dir (i :: (run.drop (run.length-owned)).map Prod.fst) fun e => Function.update e 0 0xE5

variable {j : ℕ}

lemma rewrite_other (hit : List ℕ) (f : Slot → Slot) (hj : j ∉ hit) :
    (rewrite dir hit f).2[j]? = dir[j]? := by
  rw [rewrite]
  induction hit generalizing dir with
  | nil => rfl
  | cons i hit ih =>
    rw [mem_cons,not_or] at hj
    rw [foldl_cons]
    exact (ih (dir.modify i f) hj.2).trans (getElem?_modify_ne f dir (Ne.symm hj.1))

structure Trail (pre : List Slot) (run : List (ℕ×Slot)) : Prop where
  slots : ∃ front, pre = front++run.map Prod.snd ∧
    run.map Prod.fst = List.range' front.length run.length
  lfn : ∀ p ∈ run, kind p.2 = .lfn

lemma Trail.nil (pre : List Slot) : Trail pre [] := ⟨⟨pre,by simp⟩,by simp⟩

variable {pre : List Slot} {run : List (ℕ×Slot)}

lemma Trail.push (h : Trail pre run) {e : Slot}
    (he : kind e = .lfn) : Trail (pre++[e]) (pushLfn run (pre.length,e)) := by
  obtain ⟨front,hpre,hidx⟩ := h.slots
  rw [pushLfn]
  split_ifs
  · exact ⟨⟨pre,by simp⟩,by simp [he]⟩
  refine ⟨⟨front,by simp [hpre],?_⟩,?_⟩
  · rw [map_append,hidx,length_append,range'_append_1.symm]
    simp [hpre]
  · intro p hp
    rcases mem_append.mp hp with hp | hp
    · exact h.lfn p hp
    · rw [mem_singleton.mp hp,he]

def NoneOf (first : ℕ) (pre : List Slot) : Prop :=
  ∀ d ∈ pre, kind d = .short → dirEntryFirstCluster d ≠ first

lemma NoneOf.snoc {first : ℕ} (h : NoneOf first pre) {e : Slot}
    (he : kind e = .short → dirEntryFirstCluster e ≠ first) : NoneOf first (pre++[e]) := by
  intro d hd
  rcases mem_append.mp hd with hd | hd
  · exact h d hd
  · rw [mem_singleton.mp hd]
    exact he

lemma scanRoot_spec {first : ℕ} {rest : List Slot} (ht : Trail pre run)
    (hn : NoneOf first pre) {i : ℕ} {e : Slot} {run' : List (ℕ×Slot)}
    (hs : scanRoot first rest pre.length run = some (i,e,run')) :
    ∃ pre' rest', pre++rest = pre'++e::rest' ∧ i = pre'.length ∧ Trail pre' run' ∧
      kind e = .short ∧ dirEntryFirstCluster e = first ∧ NoneOf first pre' := by
  induction rest generalizing pre run with
  | nil => cases hs
  | cons d rest ih =>
    have hlen : (pre++[d]).length = pre.length+1 := by simp
    rw [scanRoot] at hs
    rw [append_cons]
    have hmiss : ∀ run, Trail (pre++[d]) run → (kind d = .short → dirEntryFirstCluster d ≠ first) →
        scanRoot first rest (pre.length+1) run = some (i,e,run') →
        ∃ pre' rest', pre++[d]++rest = pre'++e::rest' ∧ i = pre'.length ∧ Trail pre' run' ∧
          kind e = .short ∧ dirEntryFirstCluster e = first ∧ NoneOf first pre' :=
      fun run ht hd hs => ih ht (hn.snoc hd) (hlen ▸ hs)
    rcases hk : kind d with _ | _ | _ | _ | _ <;> rw [hk] at hs hmiss <;> dsimp only at hs
    · cases hs
    · exact hmiss [] (.nil _) nofun hs
    · exact hmiss _ (ht.push hk) nofun hs
    · exact hmiss [] (.nil _) nofun hs
    · split_ifs at hs with heq
      · cases hs
        exact ⟨pre,rest,by simp,rfl,ht,hk,heq,hn⟩
      · exact hmiss [] (.nil _) (fun _ => heq) hs

variable {k : ℕ}

lemma scanRoot_some (first : ℕ) {dir : List Slot} {e : Slot} (he : dir[k]? = some e)
    (hk : kind e = .short) (hf : dirEntryFirstCluster e = first)
    (hfin : ∀ j < k, ∀ d, dir[j]? = some d → kind d ≠ .fin) (i : ℕ) (run : List (ℕ×Slot)) :
    (scanRoot first dir i run).isSome := by
  induction dir generalizing k i run with
  | nil => cases he
  | cons d rest ih =>
    rw [scanRoot]
    cases k with
    | zero =>
      cases he
      rw [hk]
      simp [hf]
    | succ k =>
      have hrest := ih he fun j hj => hfin (j+1) (Nat.succ_lt_succ hj)
      have hd := hfin 0 (Nat.succ_pos k) d rfl
      rcases hkd : kind d with _ | _ | _ | _ | _ <;> dsimp only
      · exact absurd hkd hd
      · exact hrest (i+1) []
      · exact hrest (i+1) _
      · exact hrest (i+1) []
      · split_ifs
        · rfl
        · exact hrest (i+1) []

lemma ownedLoop_spec (sum : UInt8) (l : List Slot) (k expect : ℕ) :
    ownedLoop sum l k expect = 0 ∨ ∃ m, ownedLoop sum l k expect = k+m ∧
      ∀ d ∈ l.take m, d 13 = sum := by
  induction l generalizing k expect with
  | nil => exact .inl rfl
  | cons e rest ih =>
    rw [ownedLoop]
    split_ifs with hbad
    · exact .inl rfl
    · exact .inr ⟨1,rfl,by simpa using (not_or.mp hbad).1⟩
    · exact .inl rfl
    rcases ih (k+1) (expect+1) with hzero | ⟨m,hm,hsum⟩
    · exact .inl hzero
    refine .inr ⟨m+1,by rw [hm]; omega,?_⟩
    rw [take_succ_cons]
    intro d hd
    rcases mem_cons.mp hd with rfl | hd
    · exact not_not.mp (not_or.mp hbad).1
    · exact hsum d hd

structure LiveAt (dir : List Slot) (k : ℕ) (e : Slot) : Prop where
  slot : dir[k]? = some e
  short : kind e = .short
  before : ∀ j < k, ∀ d, dir[j]? = some d → kind d ≠ .fin

/-- The short entry, or a long-name slot joined to it with its checksum. -/
def OwnSlot (k : ℕ) (e : Slot) (j : ℕ) : Prop :=
  j = k ∨ j < k ∧ ∀ m, j ≤ m → m < k → ∃ d, dir[m]? = some d ∧ kind d = .lfn ∧ d 13 = lfnChecksum e

lemma Trail.owned (h : Trail pre run) (e : Slot) (rest : List Slot)
    (hj : j ∈ (run.drop (run.length-ownedLfnRun (run.map Prod.snd) e)).map Prod.fst) :
    OwnSlot (pre++e::rest) pre.length e j := by
  obtain ⟨front,hpre,hidx⟩ := h.slots
  have hlen : pre.length = front.length+run.length := by simp [hpre]
  rw [map_drop,hidx,drop_range',mem_range'_1] at hj
  refine .inr ⟨by omega,fun m hm hmk => ?_⟩
  have hin : m-front.length < run.length := by omega
  refine ⟨(run.get ⟨m-front.length,hin⟩).2,?_,h.lfn _ (get_mem _ _),?_⟩
  · rw [getElem?_append_left hmk,hpre,getElem?_append_right (by omega)]
    simp [hin]
  · rcases ownedLoop_spec (lfnChecksum e) (run.map Prod.snd).reverse 0 1 with h0 | ⟨n,hn,hsum⟩
    · rw [ownedLfnRun,h0] at hj
      omega
    rw [ownedLfnRun,hn] at hj
    refine hsum _ ?_
    rw [take_reverse,mem_reverse,mem_iff_getElem?,length_map]
    refine ⟨m-front.length-(run.length-n),?_⟩
    rw [getElem?_drop,show run.length-n+(m-front.length-(run.length-n)) = m-front.length by omega]
    simp [hin]

/-- Publishing a size and deleting stay within the slots of the file. -/
def Stays (k : ℕ) (e : Slot) (size : ℕ) (stamp : DosStamp) : Prop :=
  let first := dirEntryFirstCluster e
  (∀ j ∈ (updateSlots dir first size stamp).1++(deleteSlots dir first).1, OwnSlot dir k e j) ∧
  ∀ j, ¬OwnSlot dir k e j →
    (updateSlots dir first size stamp).2[j]? = dir[j]? ∧ (deleteSlots dir first).2[j]? = dir[j]?

lemma Trail.stays (ht : Trail pre run) {e : Slot} (rest : List Slot)
    (hs : scanRoot (dirEntryFirstCluster e) (pre++e::rest) 0 [] = some (pre.length,e,run))
    (size : ℕ) (stamp : DosStamp) : Stays (pre++e::rest) pre.length e size stamp := by
  rw [Stays,updateSlots,deleteSlots,hs]
  have hone : ∀ j ∈ [pre.length], OwnSlot (pre++e::rest) pre.length e j :=
    fun j hj => .inl (mem_singleton.mp hj)
  have hall : ∀ j ∈ pre.length ::
      (run.drop (run.length-ownedLfnRun (run.map Prod.snd) e)).map Prod.fst,
      OwnSlot (pre++e::rest) pre.length e j := by
    intro j hj
    rcases mem_cons.mp hj with rfl | hj
    · exact .inl rfl
    · exact ht.owned e rest hj
  refine ⟨fun j hj => (mem_append.mp hj).elim (hone j) (hall j),fun j hj => ⟨?_,?_⟩⟩
  · exact rewrite_other _ _ _ fun hmem => hj (hone j hmem)
  · exact rewrite_other _ _ _ fun hmem => hj (hall j hmem)

theorem stays_iff_cluster_first {dir : List Slot} {e : Slot} (h : LiveAt dir k e)
    (size : ℕ) (stamp : DosStamp) :
    Stays dir k e size stamp ↔ ∀ j < k, ∀ d, dir[j]? = some d → kind d = .short →
      dirEntryFirstCluster d ≠ dirEntryFirstCluster e := by
  obtain ⟨⟨i,e',run⟩,hs⟩ := Option.isSome_iff_exists.mp
    (scanRoot_some _ h.slot h.short rfl h.before 0 [])
  obtain ⟨pre,rest,hdir,rfl,ht,hk,hf,hn⟩ := @scanRoot_spec [] _ _ _ (.nil _) nofun _ _ _ hs
  rw [nil_append] at hdir
  have hhere : dir[pre.length]? = some e' := by simp [hdir]
  constructor
  · intro hown j hj d hd hshort heq
    rw [Stays, updateSlots, deleteSlots, hs] at hown
    have hjn : j < pre.length → False := fun hjp => by
      rw [hdir, getElem?_append_left hjp] at hd
      exact hn d (mem_of_getElem? hd) hshort heq
    rcases hown.1 pre.length (by simp [rewrite]) with hpk | ⟨hlt,hlfn⟩
    · exact hjn (hpk ▸ hj)
    obtain ⟨d',hd',hlfn',-⟩ := hlfn _ le_rfl hlt
    rw [hhere] at hd'
    cases hd'
    rw [hk] at hlfn'
    cases hlfn'
  · intro hfirst
    have hpk : pre.length = k := by
      rcases lt_trichotomy pre.length k with hlt | heq | hgt
      · exact absurd hf (hfirst _ hlt e' hhere hk)
      · exact heq
      have hslot := h.slot
      rw [hdir, getElem?_append_left hgt] at hslot
      exact absurd rfl (hn e (mem_of_getElem? hslot) h.short)
    subst hpk
    obtain rfl : e = e' := Option.mem_unique h.slot hhere
    subst hdir
    exact ht.stays rest hs size stamp

def emptyFile (name : UInt8) : Slot := fun k => if k = 0 then name else if k < 11 then 32 else 0

theorem stays_iff_cluster_first_alone :
    LiveAt [emptyFile 65] 0 (emptyFile 65) ∧ Stays [emptyFile 65] 0 (emptyFile 65) 512 ⟨0,0⟩ := by
  have hlive : LiveAt [emptyFile 65] 0 (emptyFile 65) := ⟨rfl,by decide,nofun⟩
  exact ⟨hlive,(stays_iff_cluster_first hlive 512 ⟨0,0⟩).mpr nofun⟩

/-- Of two empty files the first is deleted in place of the second. -/
theorem empty_file_deleted_for_another : let dir := [emptyFile 65,emptyFile 66]
    LiveAt dir 1 (emptyFile 66) ∧ (deleteSlots dir (dirEntryFirstCluster (emptyFile 66))).1 = [0] ∧
    (updateSlots dir (dirEntryFirstCluster (emptyFile 66)) 512 ⟨0,0⟩).1 = [0] ∧
    ((deleteSlots dir (dirEntryFirstCluster (emptyFile 66))).2[0]?.map kind) = some .deleted ∧
    ((deleteSlots dir (dirEntryFirstCluster (emptyFile 66))).2[1]?.map kind) = some .short := by
  refine ⟨⟨rfl,by decide,fun j hj d hd => ?_⟩,by decide,by decide,by decide,by decide⟩
  obtain rfl : j = 0 := by omega
  cases hd
  decide

end MoQiOS.Fat32.Directory
