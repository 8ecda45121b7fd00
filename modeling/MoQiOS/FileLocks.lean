import MoQiOS.Runs
import MoQiOS.CheckedWords

/-!
# File locks

One table of 64 records holds the locks of `flock` and of `fcntl`. A record
names its owner by the low 16 bits of the task id. An attempt is one pass of the
retry loop under the table lock; a sum that leaves 64 bits is a trap.
-/

namespace MoQiOS.FileLocks
open Runs CheckedWords List

def lockSh : ℕ := 1
def lockEx : ℕ := 2
def lockNb : ℕ := 4
def lockUn : ℕ := 8

def fRdlck : ℤ := 0
def fWrlck : ℤ := 1
def fUnlck : ℤ := 2

def maxLocks : ℕ := 64

/-- `holder` is the task the lock was granted to; the source does not keep it. -/
structure FileLock where
  active : Bool
  inode : ℕ
  lockType : ℕ
  ownerPid : ℕ
  start : ℕ
  len : ℕ
  holder : UInt32
  deriving DecidableEq

abbrev Table := List FileLock

inductive Outcome where
  | ok (t : Table)
  | conflict
  | full
  | trap
  deriving DecidableEq

def truncTid (tid : UInt32) : ℕ := tid.toNat%2^16

def mine (inode : ℕ) (tid : UInt32) (l : FileLock) : Bool :=
  l.active && l.inode == inode && l.ownerPid == truncTid tid

def foreign (inode : ℕ) (tid : UInt32) (l : FileLock) : Bool :=
  l.active && l.inode == inode && !(l.ownerPid == truncTid tid)

def dropOwned (t : Table) (inode : ℕ) (tid : UInt32) : Table := t.filter fun l => !mine inode tid l

def granted (inode : ℕ) (tid : UInt32) (lockType start len : ℕ) : FileLock :=
  ⟨true,inode,lockType,truncTid tid,start,len,tid⟩

def updateFirst (inode : ℕ) (tid : UInt32) (lockType start len : ℕ) : Table → Option Table
  | [] => none
  | l :: rest =>
    if mine inode tid l then
      some ({ l with lockType := lockType, start := start, len := len, holder := tid } :: rest)
    else (updateFirst inode tid lockType start len rest).map (l :: ·)

/-- The part after the conflict check, the same in both system calls. -/
def place (t : Table) (inode : ℕ) (tid : UInt32) (lockType start len : ℕ) : Outcome :=
  match updateFirst inode tid lockType start len t with
  | some t' => .ok t'
  | none =>
    if t.length ≥ maxLocks then .full else .ok (t++[granted inode tid lockType start len])

def flockConflict (lockType : ℕ) (l : FileLock) : Bool :=
  lockType == lockEx || (lockType == lockSh && l.lockType == lockEx)

def sysFlock (t : Table) (inode : ℕ) (tid : UInt32) (op : ℕ) : Outcome :=
  let lockType := op &&& (lockSh ||| lockEx ||| lockUn)
  if lockType = lockUn then .ok (dropOwned t inode tid)
  else if t.any (fun l => foreign inode tid l && flockConflict lockType l) then .conflict
  else place t inode tid lockType 0 0

def rangeOverlap (lStart lLen : ℕ) (l : FileLock) : Option Bool :=
  if lLen = 0 ∨ l.len = 0 then some true
  else do
    let lEnd ← add64 lStart lLen
    if l.start < lEnd then
      let recEnd ← add64 l.start l.len
      return decide (recEnd > lStart)
    else return false

def setConflict (inode : ℕ) (tid : UInt32) (reqLockType lStart lLen : ℕ) : Table → Option Bool
  | [] => some false
  | l :: rest =>
    if foreign inode tid l then do
      let overlap ← rangeOverlap lStart lLen l
      if overlap && (reqLockType == lockEx || l.lockType == lockEx) then return true
      else setConflict inode tid reqLockType lStart lLen rest
    else setConflict inode tid reqLockType lStart lLen rest

def reqLockType (lType : ℤ) : ℕ := if lType = fWrlck then lockEx else lockSh

/-- `F_SETLK` and one pass of `F_SETLKW`. -/
def setLock (t : Table) (inode : ℕ) (tid : UInt32) (lType : ℤ) (lStart lLen : ℕ) : Outcome :=
  if lType = fUnlck then .ok (dropOwned t inode tid)
  else match setConflict inode tid (reqLockType lType) lStart lLen t with
    | none => .trap
    | some true => .conflict
    | some false => place t inode tid (reqLockType lType) lStart lLen

/-- A length of zero reaches to the end of the file. -/
def Covers (start len b : ℕ) : Prop := start ≤ b ∧ (len = 0 ∨ b < start+len)

def Overlap (start len start' len' : ℕ) : Prop := ∃ b, Covers start len b ∧ Covers start' len' b

variable {l : FileLock} {ty start len : ℕ} {t t' : Table}

lemma rangeOverlap_false {lStart lLen : ℕ}
    (h : rangeOverlap lStart lLen l = some false) : ¬Overlap lStart lLen l.start l.len := by
  unfold rangeOverlap at h
  split_ifs at h with hz
  · cases h
  rintro ⟨b,⟨h1,h2⟩,h3,h4⟩
  rcases he : add64 lStart lLen with _ | e
  · simp [he] at h
  obtain ⟨-,rfl⟩ := add64_some he
  rw [he] at h
  simp only [Option.bind_eq_bind,Option.bind_some] at h
  split_ifs at h with hlt
  · rcases he' : add64 l.start l.len with _ | e'
    · simp [he'] at h
    obtain ⟨-,rfl⟩ := add64_some he'
    rw [he'] at h
    simp only [Option.bind_some,pure,Option.some.injEq,decide_eq_false_iff_not] at h
    omega
  · omega

section
variable {inode : ℕ} {tid : UInt32}

lemma setConflict_false {lStart lLen : ℕ}
    (h : setConflict inode tid ty lStart lLen t = some false) (hl : l ∈ t)
    (hf : foreign inode tid l = true) (ho : Overlap lStart lLen l.start l.len) :
    ty ≠ lockEx ∧ l.lockType ≠ lockEx := by
  induction t with
  | nil => cases hl
  | cons q t ih =>
    rw [setConflict] at h
    by_cases hq : foreign inode tid q = true
    · rw [if_pos hq] at h
      rcases hr : rangeOverlap lStart lLen q with _ | overlap
      · simp [hr] at h
      rw [hr] at h
      simp only [Option.bind_eq_bind,Option.bind_some] at h
      split_ifs at h with hx
      · cases h
      rcases mem_cons.mp hl with rfl | hl
      · cases overlap with
        | false => exact absurd ho (rangeOverlap_false hr)
        | true => simpa using hx
      · exact ih h hl
    · rw [if_neg hq] at h
      rcases mem_cons.mp hl with rfl | hl
      · exact absurd hf hq
      · exact ih h hl

lemma mine_eq (h : mine inode tid l = true) :
    l.active = true ∧ l.inode = inode ∧ l.ownerPid = truncTid tid := by
  simpa [mine,and_assoc] using h

lemma mine_granted (inode : ℕ) (tid : UInt32) (ty start len : ℕ) :
    mine inode tid (granted inode tid ty start len) = true := by
  simp [mine,granted]

lemma updated_eq (h : mine inode tid l = true) (ty start len : ℕ) :
    {l with lockType := ty, start := start, len := len, holder := tid} =
      granted inode tid ty start len := by
  obtain ⟨h1,h2,h3⟩ := mine_eq h
  cases l
  simp_all [granted]

lemma updateFirst_none
    (h : updateFirst inode tid ty start len t = none) : t.filter (mine inode tid) = [] := by
  induction t with
  | nil => rfl
  | cons l t ih =>
    rw [updateFirst] at h
    split_ifs at h with hm
    rw [filter_cons_of_neg hm]
    exact ih (Option.map_eq_none_iff.mp h)

lemma updateFirst_some
    (h : updateFirst inode tid ty start len t = some t') : t'.filter (mine inode tid) =
        granted inode tid ty start len::(t.filter (mine inode tid)).tail ∧
      t'.filter (fun l => !mine inode tid l) = t.filter (fun l => !mine inode tid l) := by
  induction t generalizing t' with
  | nil => cases h
  | cons l t ih =>
    rw [updateFirst] at h
    split_ifs at h with hm
    · obtain rfl := Option.some.inj h
      rw [updated_eq hm]
      simp [mine_granted,hm]
    · obtain ⟨u,hu,rfl⟩ := Option.map_eq_some_iff.mp h
      obtain ⟨h1,h2⟩ := ih hu
      simp [hm,h1,h2]

lemma place_ok (h : place t inode tid ty start len = .ok t') : t'.filter (mine inode tid) =
        granted inode tid ty start len::(t.filter (mine inode tid)).tail ∧
      t'.filter (fun l => !mine inode tid l) = t.filter (fun l => !mine inode tid l) := by
  unfold place at h
  cases hu : updateFirst inode tid ty start len t with
  | some u =>
    rw [hu] at h
    obtain rfl := Outcome.ok.inj h
    exact updateFirst_some hu
  | none =>
    rw [hu] at h
    dsimp only at h
    split_ifs at h
    obtain rfl := Outcome.ok.inj h
    simp [updateFirst_none hu,mine_granted]

lemma mem_of_place
    (h : place t inode tid ty start len = .ok t') (hl : l ∈ t') :
    l = granted inode tid ty start len ∨ l ∈ t := by
  obtain ⟨h1,h2⟩ := place_ok h
  by_cases hm : mine inode tid l = true
  · have hmem : l ∈ t'.filter (mine inode tid) := mem_filter.mpr ⟨hl,hm⟩
    rw [h1] at hmem
    rcases mem_cons.mp hmem with rfl | hmem
    · exact .inl rfl
    · exact .inr (mem_filter.mp (mem_of_mem_tail hmem)).1
  · have hmem : l ∈ t'.filter (fun l => !mine inode tid l) :=
      mem_filter.mpr ⟨hl,by simpa using hm⟩
    rw [h2] at hmem
    exact .inr (mem_filter.mp hmem).1

end

inductive FlockOp where
  | shared
  | exclusive
  | unlock
  deriving DecidableEq

def FlockOp.word (o : FlockOp) (nb : Bool) : ℕ :=
  (match o with
    | .shared => lockSh
    | .exclusive => lockEx
    | .unlock => lockUn) ||| (if nb then lockNb else 0)

inductive Call where
  | flock (tid : UInt32) (inode : ℕ) (op : FlockOp) (nb : Bool)
  | setlk (tid : UInt32) (inode : ℕ) (lType : ℤ) (lStart lLen : UInt64)
  deriving DecidableEq

def Call.tid : Call → UInt32
  | .flock tid .. => tid
  | .setlk tid .. => tid

def Call.inode : Call → ℕ
  | .flock _ inode .. => inode
  | .setlk _ inode .. => inode

def Call.wanted : Call → Option (ℕ×ℕ×ℕ)
  | .flock _ _ op _ =>
    match op with
    | .shared => some (lockSh,0,0)
    | .exclusive => some (lockEx,0,0)
    | .unlock => none
  | .setlk _ _ lType lStart lLen =>
    if lType = fUnlck then none else some (reqLockType lType,lStart.toNat,lLen.toNat)

def attempt (t : Table) : Call → Outcome
  | .flock tid inode op nb => sysFlock t inode tid (op.word nb)
  | .setlk tid inode lType lStart lLen => setLock t inode tid lType lStart.toNat lLen.toNat

/-- Only granted attempts change the table. -/
def Next (t : Table) (c : Call) (t' : Table) : Prop := attempt t c = .ok t'

instance (t : Table) (c : Call) (t' : Table) : Decidable (Next t c t') :=
  inferInstanceAs (Decidable (_ = _))

lemma word_unlock (nb : Bool) :
    FlockOp.unlock.word nb &&& (lockSh ||| lockEx ||| lockUn) = lockUn := by
  cases nb <;> decide

lemma word_shared (nb : Bool) :
    FlockOp.shared.word nb &&& (lockSh ||| lockEx ||| lockUn) = lockSh := by
  cases nb <;> decide

lemma word_exclusive (nb : Bool) :
    FlockOp.exclusive.word nb &&& (lockSh ||| lockEx ||| lockUn) = lockEx := by
  cases nb <;> decide

variable {inode : ℕ} {tid : UInt32}

lemma sysFlock_lock {op : ℕ}
    (hop : op &&& (lockSh ||| lockEx ||| lockUn) = ty) (hty : ty ≠ lockUn)
    (h : sysFlock t inode tid op = .ok t') : place t inode tid ty 0 0 = .ok t' ∧
      ∀ l ∈ t, foreign inode tid l = true → flockConflict ty l = false := by
  rw [sysFlock,hop,if_neg hty] at h
  split_ifs at h with hc
  refine ⟨h,fun l hl hf => ?_⟩
  rw [Bool.not_eq_true,any_eq_false] at hc
  simpa [hf] using hc l hl

variable {c : Call}

/-- An unlock drops the owner's records. A lock is placed, and no foreign record
that overlaps the range stands against it. -/
lemma next_cases (h : Next t c t') : c.wanted = none ∧ t' = dropOwned t c.inode c.tid ∨
    ∃ ty start len, c.wanted = some (ty,start,len) ∧ place t c.inode c.tid ty start len = .ok t' ∧
      ∀ l ∈ t, foreign c.inode c.tid l = true → Overlap start len l.start l.len →
        ty ≠ lockEx ∧ l.lockType ≠ lockEx := by
  cases c with
  | flock tid inode op nb =>
    change sysFlock t inode tid (op.word nb) = .ok t' at h
    cases op with
    | unlock =>
      rw [sysFlock,word_unlock] at h
      exact .inl ⟨rfl,(Outcome.ok.inj h).symm⟩
    | shared =>
      obtain ⟨hp,hn⟩ := sysFlock_lock (word_shared nb) (by decide) h
      refine .inr ⟨lockSh,0,0,rfl,hp,fun l hl hf _ => ⟨by decide,?_⟩⟩
      have hno := hn l hl hf
      simpa [flockConflict,lockSh,lockEx] using hno
    | exclusive =>
      obtain ⟨hp,hn⟩ := sysFlock_lock (word_exclusive nb) (by decide) h
      refine .inr ⟨lockEx,0,0,rfl,hp,fun l hl hf _ => ?_⟩
      have hno := hn l hl hf
      simp [flockConflict] at hno
  | setlk tid inode lType lStart lLen =>
    change setLock t inode tid lType lStart.toNat lLen.toNat = .ok t' at h
    rw [setLock] at h
    by_cases hu : lType = fUnlck
    · rw [if_pos hu] at h
      exact .inl ⟨if_pos hu,(Outcome.ok.inj h).symm⟩
    rw [if_neg hu] at h
    refine .inr ⟨reqLockType lType,lStart.toNat,lLen.toNat,if_neg hu,?_⟩
    rcases hc : setConflict inode tid (reqLockType lType) lStart.toNat lLen.toNat t with _ | b
    · rw [hc] at h; cases h
    rw [hc] at h
    cases b with
    | true => cases h
    | false => exact ⟨h,fun l hl hf ho => setConflict_false hc hl hf ho⟩

/-- On the file of the call no other task with the same low 16 bits has a record. -/
def Solo (t : Table) (c : Call) (t' : Table) : Prop :=
  Next t c t' ∧ ∀ l ∈ t, l.inode = c.inode → l.ownerPid = truncTid c.tid → l.holder = c.tid

/-- Records of different tasks whose bytes meet are both shared. -/
def Compatible (t : Table) : Prop :=
  ∀ r ∈ t, ∀ q ∈ t, r.holder ≠ q.holder → r.inode = q.inode →
    Overlap r.start r.len q.start q.len → r.lockType ≠ lockEx ∧ q.lockType ≠ lockEx

structure Inv (t : Table) : Prop where
  owner : ∀ l ∈ t, l.active = true ∧ l.ownerPid = truncTid l.holder
  compatible : Compatible t

def GrantedSafely (t : Table) (c : Call) : Prop :=
  ∀ ty start len, c.wanted = some (ty,start,len) → ∀ l ∈ t, l.holder ≠ c.tid →
    l.inode = c.inode → Overlap start len l.start l.len → ty ≠ lockEx ∧ l.lockType ≠ lockEx

lemma Inv.foreign (h : Inv t)
    (hs : ∀ l ∈ t, l.inode = c.inode → l.ownerPid = truncTid c.tid → l.holder = c.tid) (hl : l ∈ t)
    (hh : l.holder ≠ c.tid) (hi : l.inode = c.inode) : foreign c.inode c.tid l = true := by
  have hne : l.ownerPid ≠ truncTid c.tid := fun heq => hh (hs l hl hi heq)
  simp [FileLocks.foreign,(h.owner l hl).1,hi,hne]

lemma Inv.granted_safely (h : Inv t) (hs : Solo t c t') : GrantedSafely t c := by
  intro ty start len hw l hl hh hi ho
  have hf := h.foreign hs.2 hl hh hi
  rcases next_cases hs.1 with ⟨hn,_⟩ | ⟨ty',start',len',hw',_,hsafe⟩
  · rw [hn] at hw
    cases hw
  rw [hw] at hw'
  obtain ⟨rfl,rfl,rfl⟩ : ty = ty' ∧ start = start' ∧ len = len' := by simpa using hw'
  exact hsafe l hl hf ho

lemma Overlap.symm {a n b m : ℕ} (h : Overlap a n b m) : Overlap b m a n := by
  obtain ⟨x,h1,h2⟩ := h
  exact ⟨x,h2,h1⟩

lemma Inv.next (h : Inv t) (hs : Solo t c t') : Inv t' := by
  rcases next_cases hs.1 with ⟨_,rfl⟩ | ⟨ty,start,len,hw,hp,_⟩
  · have hsub : ∀ l ∈ dropOwned t c.inode c.tid, l ∈ t := fun l hl => (mem_filter.mp hl).1
    exact ⟨fun l hl => h.owner l (hsub l hl),
      fun r hr q hq => h.compatible r (hsub r hr) q (hsub q hq)⟩
  have hsafe := h.granted_safely hs ty start len hw
  constructor
  · intro l hl
    rcases mem_of_place hp hl with rfl | hl
    · exact ⟨rfl,rfl⟩
    · exact h.owner l hl
  · intro r hr q hq hh hi ho
    rcases mem_of_place hp hr with rfl | hr
    · rcases mem_of_place hp hq with rfl | hq
      · exact absurd rfl hh
      · exact hsafe q hq (Ne.symm hh) hi.symm ho
    · rcases mem_of_place hp hq with rfl | hq
      · exact (hsafe r hr hh hi ho.symm).symm
      · exact h.compatible r hr q hq hh hi ho

lemma dropOwned_others
    (hs : ∀ l ∈ t, l.inode = inode → l.ownerPid = truncTid tid → l.holder = tid) :
    (dropOwned t inode tid).filter (fun l => l.holder ≠ tid) =
      t.filter (fun l => l.holder ≠ tid) := by
  rw [dropOwned,filter_filter]
  refine filter_congr fun l hl => ?_
  by_cases hh : l.holder = tid
  · simp [hh]
  have hm : mine inode tid l = false := by
    rw [← Bool.not_eq_true]
    intro hm
    obtain ⟨-,hi,ho⟩ := mine_eq hm
    exact hh (hs l hl hi ho)
  simp [hh,hm]

/-- No request is granted against a record of another task, and an unlock
leaves the records of the other tasks. -/
theorem lock_exclusion {t : Table} (h : Reaches Solo [] t) :
    Compatible t ∧ ∀ (c : Call) (t' : Table), Solo t c t' → GrantedSafely t c ∧
      (c.wanted = none →
        t'.filter (fun l => l.holder ≠ c.tid) = t.filter (fun l => l.holder ≠ c.tid)) := by
  have hinv : Inv t := invariant (I := Inv) (fun _ _ _ hi hn => hi.next hn) h
    ⟨by simp,by simp [Compatible]⟩
  refine ⟨hinv.compatible,fun c t' hs => ⟨hinv.granted_safely hs,fun hw => ?_⟩⟩
  rcases next_cases hs.1 with ⟨_,rfl⟩ | ⟨ty,start,len,hw',_⟩
  · exact dropOwned_others hs.2
  · rw [hw] at hw'
    cases hw'

/-- Two tasks share bytes of a file and one of them unlocks. -/
theorem lock_exclusion_shared :
    Solo [granted 5 1 lockSh 0 10,granted 5 2 lockSh 5 0] (.flock 1 5 .unlock false)
      [granted 5 2 lockSh 5 0] ∧
    Compatible [granted 5 1 lockSh 0 10,granted 5 2 lockSh 5 0] ∧
    [granted 5 2 lockSh 5 0].filter (fun l => l.holder ≠ 1) =
      [granted 5 1 lockSh 0 10,granted 5 2 lockSh 5 0].filter (fun l => l.holder ≠ 1) := by
  have h1 : Solo [] (.setlk 1 5 fRdlck 0 10) [granted 5 1 lockSh 0 10] :=
    ⟨by decide,by simp⟩
  have h2 : Solo [granted 5 1 lockSh 0 10] (.setlk 2 5 fRdlck 5 0)
      [granted 5 1 lockSh 0 10,granted 5 2 lockSh 5 0] := ⟨by decide,by decide⟩
  have h3 : Solo [granted 5 1 lockSh 0 10,granted 5 2 lockSh 5 0] (.flock 1 5 .unlock false)
      [granted 5 2 lockSh 5 0] := ⟨by decide,by decide⟩
  have hr := ((Reaches.start Solo []).snoc h1).snoc h2
  exact ⟨h3,(lock_exclusion hr).1,((lock_exclusion hr).2 _ _ h3).2 rfl⟩

/-- Task 7 holds a file exclusively. Task 65543 is granted the same lock, and then its
unlock leaves nothing of the record of task 7. -/
theorem alias_granted_and_unlocked : Next [] (.flock 7 5 .exclusive true) [granted 5 7 lockEx 0 0] ∧
    (∃ t', Next [granted 5 7 lockEx 0 0] (.flock 65543 5 .exclusive true) t') ∧
    ¬GrantedSafely [granted 5 7 lockEx 0 0] (.flock 65543 5 .exclusive true) ∧
    Next [granted 5 7 lockEx 0 0] (.flock 65543 5 .unlock true) [] := by
  refine ⟨by decide,⟨[granted 5 65543 lockEx 0 0],by decide⟩,fun h => ?_,
    by decide⟩
  refine (h lockEx 0 0 rfl (granted 5 7 lockEx 0 0) mem_cons_self (by decide) rfl ?_).1 rfl
  exact ⟨0,⟨le_rfl,.inl rfl⟩,le_rfl,.inl rfl⟩

def Held (t : Table) (o inode b ty : ℕ) : Prop :=
  ∃ l ∈ t, l.active = true ∧ l.inode = inode ∧ l.ownerPid = o ∧ Covers l.start l.len b ∧
    l.lockType = ty

/-- The request changes the bytes of its range for its owner and nothing else. -/
structure PerByte (t t' : Table) (o inode start len : ℕ) (want : Option ℕ) : Prop where
  inside : ∀ b, Covers start len b → ∀ ty, Held t' o inode b ty ↔ want = some ty
  outside : ∀ b, ¬Covers start len b → ∀ ty, Held t' o inode b ty ↔ Held t o inode b ty
  others : ∀ o' inode', (o',inode') ≠ (o,inode) → ∀ b ty,
    Held t' o' inode' b ty ↔ Held t o' inode' b ty

/-- An unlock range has every byte the owner holds. -/
def UnlocksWhole (t : Table) (inode : ℕ) (tid : UInt32) (start len : ℕ) : Prop :=
  ∀ l ∈ t, mine inode tid l = true → ∀ b, Covers l.start l.len b → Covers start len b

/-- A lock range has every byte of the owner's first record that no other record
of the owner holds with that type, and the other records that meet the range have
the type asked for. -/
def LocksWhole (t : Table) (inode : ℕ) (tid : UInt32) (ty start len : ℕ) : Prop :=
  match t.filter (mine inode tid) with
  | [] => True
  | first :: rest =>
    (∀ l ∈ rest, Overlap start len l.start l.len → l.lockType = ty) ∧
    ∀ b, Covers first.start first.len b → ¬Covers start len b →
      ∃ l ∈ rest, Covers l.start l.len b ∧ l.lockType = first.lockType

def SetsWhole (t : Table) (inode : ℕ) (tid : UInt32) (lType : ℤ) (start len : ℕ) : Prop :=
  if lType = fUnlck then UnlocksWhole t inode tid start len
  else LocksWhole t inode tid (reqLockType lType) start len

def wantedType (lType : ℤ) : Option ℕ := if lType = fUnlck then none else some (reqLockType lType)

lemma held_own (t : Table) (inode : ℕ) (tid : UInt32) (b ty : ℕ) :
    Held t (truncTid tid) inode b ty ↔
      ∃ l ∈ t.filter (mine inode tid), Covers l.start l.len b ∧ l.lockType = ty := by
  simp only [Held,mem_filter,mine,Bool.and_eq_true,beq_iff_eq]
  constructor
  · rintro ⟨l,hl,ha,hi,ho,hc⟩
    exact ⟨l,⟨hl,⟨ha,hi⟩,ho⟩,hc⟩
  · rintro ⟨l,⟨hl,⟨ha,hi⟩,ho⟩,hc⟩
    exact ⟨l,hl,ha,hi,ho,hc⟩

lemma held_other
    (h : t'.filter (fun l => !mine inode tid l) = t.filter (fun l => !mine inode tid l))
    {o' inode' : ℕ} (hne : (o',inode') ≠ (truncTid tid,inode)) (b ty : ℕ) :
    Held t' o' inode' b ty ↔ Held t o' inode' b ty := by
  have hrest : ∀ u : Table, Held u o' inode' b ty ↔
      Held (u.filter (fun l => !mine inode tid l)) o' inode' b ty := by
    intro u
    constructor
    · rintro ⟨l,hl,ha,hi,ho,hc⟩
      refine ⟨l,mem_filter.mpr ⟨hl,?_⟩,ha,hi,ho,hc⟩
      rw [Bool.not_eq_true',← Bool.not_eq_true]
      intro hm
      obtain ⟨-,hi',ho'⟩ := mine_eq hm
      exact hne (by rw [← hi,← ho,hi',ho'])
    · rintro ⟨l,hl,hc⟩
      exact ⟨l,(mem_filter.mp hl).1,hc⟩
  rw [hrest t',hrest t,h]

lemma unlock_perByte : PerByte t (dropOwned t inode tid) (truncTid tid) inode start len none ↔
      UnlocksWhole t inode tid start len := by
  have hnone : ∀ b ty, ¬Held (dropOwned t inode tid) (truncTid tid) inode b ty := by
    intro b ty hh
    obtain ⟨l,hl,_⟩ := (held_own _ _ _ _ _).mp hh
    simp [dropOwned] at hl
  constructor
  · intro h l hl hm b hb
    by_contra hout
    refine hnone b l.lockType ((h.outside b hout l.lockType).mpr ?_)
    exact (held_own _ _ _ _ _).mpr ⟨l,mem_filter.mpr ⟨hl,hm⟩,hb,rfl⟩
  · intro h
    refine ⟨fun b _ ty => ⟨fun hh => absurd hh (hnone b ty),fun hh => nomatch hh⟩,
      fun b hb ty => ⟨fun hh => absurd hh (hnone b ty),fun hh => ?_⟩,
      fun o' inode' hne b ty => held_other ?_ hne b ty⟩
    · obtain ⟨l,hl,hc,_⟩ := (held_own _ _ _ _ _).mp hh
      obtain ⟨hl,hm⟩ := mem_filter.mp hl
      exact absurd (h l hl hm b hc) hb
    · rw [dropOwned,filter_filter]
      simp

lemma place_perByte (hp : place t inode tid ty start len = .ok t') :
    PerByte t t' (truncTid tid) inode start len (some ty) ↔
      LocksWhole t inode tid ty start len := by
  obtain ⟨hown,hothers⟩ := place_ok hp
  have hother : ∀ o' inode', (o',inode') ≠ (truncTid tid,inode) → ∀ b ty,
      Held t' o' inode' b ty ↔ Held t o' inode' b ty :=
    fun o' inode' hne b ty => held_other hothers hne b ty
  have hafter : ∀ b ty', Held t' (truncTid tid) inode b ty' ↔ (Covers start len b ∧ ty = ty') ∨
        ∃ l ∈ (t.filter (mine inode tid)).tail, Covers l.start l.len b ∧ l.lockType = ty' := by
    intro b ty'
    rw [held_own,hown]
    simp [granted]
  have hbefore : ∀ b ty', Held t (truncTid tid) inode b ty' ↔
      ∃ l ∈ t.filter (mine inode tid), Covers l.start l.len b ∧ l.lockType = ty' :=
    fun b ty' => held_own t inode tid b ty'
  rw [LocksWhole]
  cases hf : t.filter (mine inode tid) with
  | nil =>
    rw [hf] at hafter hbefore
    refine ⟨fun _ => trivial,fun _ => ⟨fun b hb ty' => ?_,fun b hb ty' => ?_,hother⟩⟩
    · rw [hafter]
      simp [hb]
    · rw [hafter,hbefore]
      simp [hb]
  | cons first rest =>
    rw [hf] at hafter hbefore
    simp only [tail_cons] at hafter
    constructor
    · intro h
      refine ⟨fun l hl ho => ?_,fun b hb hout => ?_⟩
      · obtain ⟨b,h1,h2⟩ := ho
        have hh := (h.inside b h1 l.lockType).mp ((hafter b _).mpr (.inr ⟨l,hl,h2,rfl⟩))
        exact (Option.some.inj hh).symm
      · have hh := (h.outside b hout first.lockType).mpr
          ((hbefore b _).mpr ⟨first,mem_cons_self,hb,rfl⟩)
        rcases (hafter b _).mp hh with ⟨hin,_⟩ | hl
        · exact absurd hin hout
        · exact hl
    · rintro ⟨hrest,hfirst⟩
      refine ⟨fun b hb ty' => ?_,fun b hb ty' => ?_,hother⟩
      · rw [hafter]
        constructor
        · rintro (⟨_,rfl⟩ | ⟨l,hl,hc,rfl⟩)
          · rfl
          · rw [hrest l hl ⟨b,hb,hc⟩]
        · intro hh
          exact .inl ⟨hb,Option.some.inj hh⟩
      · rw [hafter,hbefore]
        constructor
        · rintro (⟨hin,_⟩ | ⟨l,hl,hc⟩)
          · exact absurd hin hb
          · exact ⟨l,mem_cons_of_mem _ hl,hc⟩
        · rintro ⟨l,hl,hc,rfl⟩
          rcases mem_cons.mp hl with rfl | hl
          · exact .inr (hfirst b hc hb)
          · exact .inr ⟨l,hl,hc,rfl⟩

/-- A request that succeeds treats the locks byte by byte exactly when its range
takes in what the owner's record held. -/
theorem setLock_perByte_iff {t t' : Table} {inode : ℕ} {tid : UInt32} {lType : ℤ}
    {lStart lLen : ℕ} (h : setLock t inode tid lType lStart lLen = .ok t') :
    PerByte t t' (truncTid tid) inode lStart lLen (wantedType lType) ↔
      SetsWhole t inode tid lType lStart lLen := by
  rw [setLock] at h
  by_cases hu : lType = fUnlck
  · rw [if_pos hu] at h
    obtain rfl := Outcome.ok.inj h
    rw [wantedType, if_pos hu, SetsWhole, if_pos hu]
    exact unlock_perByte
  rw [if_neg hu] at h
  rw [wantedType, if_neg hu, SetsWhole, if_neg hu]
  rcases hc : setConflict inode tid (reqLockType lType) lStart lLen t with _ | b
  · rw [hc] at h; cases h
  rw [hc] at h
  cases b with
  | true => cases h
  | false => exact place_perByte h

theorem setLock_perByte_iff_widened :
    setLock [granted 5 1 lockSh 2 3] 5 1 fWrlck 0 10 = .ok [granted 5 1 lockEx 0 10] ∧
    PerByte [granted 5 1 lockSh 2 3] [granted 5 1 lockEx 0 10] (truncTid 1) 5 0 10
      (wantedType fWrlck) := by
  have h : setLock [granted 5 1 lockSh 2 3] 5 1 fWrlck 0 10 = .ok [granted 5 1 lockEx 0 10] := by
    decide
  have hf : [granted 5 1 lockSh 2 3].filter (mine 5 1) = [granted 5 1 lockSh 2 3] := by
    decide
  refine ⟨h,(setLock_perByte_iff h).mpr ?_⟩
  rw [SetsWhole, if_neg (by decide), LocksWhole, hf]
  refine ⟨by simp,fun b hb hout => absurd ⟨Nat.zero_le b,.inr ?_⟩ hout⟩
  obtain ⟨_,hz | hlt⟩ := hb
  · cases hz
  · simp only [granted] at hlt
    omega

/-- Ten bytes are locked and the first five unlocked: byte 7 is not held any more. -/
theorem unlock_drops_the_rest : setLock [granted 5 1 lockEx 0 10] 5 1 fUnlck 0 5 = .ok [] ∧
    ¬PerByte [granted 5 1 lockEx 0 10] [] (truncTid 1) 5 0 5 (wantedType fUnlck) := by
  refine ⟨by decide,fun h => ?_⟩
  have hout : ¬Covers 0 5 7 := by
    rintro ⟨_,hz | hlt⟩ <;> omega
  have hheld : Held [granted 5 1 lockEx 0 10] (truncTid 1) 5 7 lockEx :=
    ⟨granted 5 1 lockEx 0 10,mem_cons_self,rfl,rfl,rfl,⟨by decide,.inr (by decide)⟩,rfl⟩
  obtain ⟨l,hl,_⟩ := (h.outside 7 hout lockEx).mpr hheld
  cases hl

end MoQiOS.FileLocks
