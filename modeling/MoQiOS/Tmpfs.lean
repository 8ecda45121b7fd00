import Mathlib

/-!
# The tmpfs namespace

The entry table, the walk over a path and the operations on names. File pages,
sizes and seals take no part in the namespace and are left out; the bitmap of
active slots is a test on slot numbers.
-/

namespace MoQiOS.Tmpfs
open Function

@[irreducible] def maxFiles : ℕ := 512
def noParent : ℕ := 0xFFFF
def maxNameLen : ℕ := 60
def slash : UInt8 := 47

abbrev Name := List UInt8

structure Entry where
  active : Bool
  name : Name
  isDir : Bool
  parentIdx : ℕ
  mode : UInt32
  uid : UInt32
  gid : UInt32
  ctime : UInt64
  openCount : ℕ
  deleted : Bool

structure State where
  entries : ℕ → Entry
  activeBm : ℕ → Bool
  nextCtime : UInt64

variable (s : State)

def State.setEntry (i : ℕ) (e : Entry) : State :=
  { s with entries := update s.entries i e }

def slots : List ℕ := (List.range maxFiles).filter s.activeBm

def allocEntry : Option (State×ℕ) :=
  ((List.range maxFiles).find? (fun i => decide (1 ≤ i) && !s.activeBm i)).map
    fun i => ({ s with activeBm := update s.activeBm i true },i)

def freeEntryPages (i : ℕ) : State :=
  { s with activeBm := update s.activeBm i false }

def dropEntry (i : ℕ) : State :=
  (freeEntryPages s i).setEntry i { s.entries i with active := false, deleted := false }

def tombstone (i : ℕ) : State :=
  if (s.entries i).openCount = 0 then dropEntry s i
  else s.setEntry i { s.entries i with deleted := true }

def retained (i : ℕ) : State :=
  s.setEntry i { s.entries i with openCount := min ((s.entries i).openCount+1) 0xFFFF }

def findEntry (name : Name) (parent : ℕ) : Option ℕ :=
  (slots s).find? fun i => !(s.entries i).deleted && decide ((s.entries i).parentIdx = parent) &&
    decide ((s.entries i).name = name)

def tmpPrefix : Name := [47,116,109,112]

def stripPrefix (path : Name) : Name :=
  if path.take 4 = tmpPrefix ∧ (path.length = 4 ∨ path[4]? = some slash) then
    if path.length = 4 then [slash] else path.drop 4
  else path

def resolveLoop (s : State) (parent : ℕ) (comp : Name) : Name → Option (ℕ×Name)
  | [] => if comp = [] then none else if maxNameLen < comp.length then none else some (parent,comp)
  | c :: rest =>
    if c = slash then
      if comp = [] then resolveLoop s parent [] rest
      else match findEntry s comp parent with
        | some dir => if (s.entries dir).isDir then resolveLoop s dir [] rest else none
        | none => none
    else resolveLoop s parent (comp++[c]) rest

def skipSlash (inner : Name) : Name := if inner.head? = some slash then inner.drop 1 else inner

def resolvePath (path : Name) : Option (ℕ×Name) :=
  let inner := stripPrefix path
  if inner = [] ∨ inner = [slash] then some (0,[slash])
  else resolveLoop s 0 [] (skipSlash inner)

def resolveErrnoLoop (s : State) (parent : ℕ) (comp : Name) : Name → ℤ
  | [] => if comp = [] then -2 else if maxNameLen < comp.length then -36 else -2
  | c :: rest =>
    if c = slash then
      if comp = [] then resolveErrnoLoop s parent [] rest
      else match findEntry s comp parent with
        | some dir => if (s.entries dir).isDir then resolveErrnoLoop s dir [] rest else -20
        | none => -2
    else resolveErrnoLoop s parent (comp++[c]) rest

def resolveErrno (path : Name) : ℤ :=
  resolveErrnoLoop s 0 [] (skipSlash (stripPrefix path))

def lookupLocked (path : Name) : Option ℕ :=
  match resolvePath s path with
  | none => none
  | some (parent,name) => if name = [slash] then some 0 else findEntry s name parent

structure Access where
  readBit : Bool
  writeBit : Bool
  executeBit : Bool

def Access.writeSearch : Access := ⟨false,true,true⟩

structure Caller where
  euid : UInt32
  egid : UInt32
  capDacOverride : Bool
  capFowner : Bool
  groups : List UInt32

def accessForOpen (flags : UInt32) : Access :=
  let access : Access :=
    if flags &&& 3 = 0 then ⟨true,false,false⟩
    else if flags &&& 3 = 1 then ⟨false,true,false⟩
    else ⟨true,true,false⟩
  if flags &&& 0x200 ≠ 0 then { access with writeBit := true } else access

def allows (e : Entry) (who : Caller) (access : Access) : Bool :=
  if who.capDacOverride then true
  else
    let shift : UInt32 :=
      if who.euid = e.uid then 6
      else if who.egid = e.gid ∨ e.gid ∈ who.groups then 3
      else 0
    let classBits := (e.mode >>> shift) &&& 7
    if access.readBit ∧ classBits &&& 4 = 0 then false
    else if access.writeBit ∧ classBits &&& 2 = 0 then false
    else if access.executeBit ∧ classBits &&& 1 = 0 then false
    else true

def mayRemoveEntry (dir : Entry) (victimUid : UInt32) (who : Caller) : Bool :=
  if !allows dir who .writeSearch then false
  else if dir.mode &&& 0o1000 = 0 then true
  else who.capFowner || decide (who.euid = victimUid) || decide (who.euid = dir.uid)

def exclusiveCreateRejectsExisting (create : Bool) (flags : UInt32) : Bool :=
  create && decide (flags &&& 0x80 ≠ 0)

variable (isDir : Bool)

def openExisting (flags : UInt32) : ℤ :=
  if flags &&& 0x40 ≠ 0 ∧ flags &&& 0x80 ≠ 0 then -17
  else if isDir then if flags &&& 3 ≠ 0 ∨ flags &&& 0x200 ≠ 0 then -21 else 0
  else if flags &&& 0x10000 ≠ 0 then -20 else 0

def hasTrailingSlash (name : Name) : Bool :=
  decide (1 < name.length) && decide (name.getLast? = some slash)

def openExistingNamed (flags : UInt32) (trailingSlash : Bool) : ℤ :=
  if trailingSlash ∧ !isDir ∧ ¬(flags &&& 0x40 ≠ 0 ∧ flags &&& 0x80 ≠ 0) then -20
  else openExisting isDir flags

def createEntryLocked (name : Name) (parent : ℕ) (isDir : Bool)
    (requestedMode : Option UInt32) (umask euid egid : UInt32) : Option (State×ℕ) :=
  match allocEntry s with
  | none => none
  | some (s,i) =>
    let requested := requestedMode.getD (if isDir then 0o777 else 0o666)
    let e : Entry := {
      active := true, name := name, isDir := isDir, parentIdx := parent
      mode := (requested &&& 0o777) &&& ~~~(umask &&& 0o777), uid := euid, gid := egid
      ctime := s.nextCtime, openCount := 1, deleted := false }
    some ({ s.setEntry i e with nextCtime := s.nextCtime+1 },i)

def tmpfsOpenAuthorized (path : Name) (create isDir : Bool) (who : Caller)
    (flags : UInt32) (requestedMode : Option UInt32) (umask : UInt32) : State×ℤ :=
  match resolvePath s path with
  | none => (s,resolveErrno s path)
  | some (parent,name) =>
    if name = [slash] then
      if exclusiveCreateRejectsExisting create flags then (s,-17)
      else if openExisting true flags ≠ 0 then (s,openExisting true flags)
      else (retained s 0,0)
    else match findEntry s name parent with
      | some i =>
        let e := s.entries i
        if exclusiveCreateRejectsExisting create flags then (s,-17)
        else if openExistingNamed e.isDir flags (hasTrailingSlash path) ≠ 0 then
          (s,openExistingNamed e.isDir flags (hasTrailingSlash path))
        else if !e.isDir && !allows e who (accessForOpen flags) then (s,-13)
        else (retained s i,i)
      | none =>
        if create then
          if !allows (s.entries parent) who .writeSearch then (s,-13)
          else match createEntryLocked s name parent isDir requestedMode umask who.euid who.egid with
            | none => (s,-28)
            | some (s,i) => (s,i)
        else (s,-2)

def tmpfsClose (i : ℕ) : State :=
  if maxFiles ≤ i then s
  else if !(s.entries i).active || decide ((s.entries i).openCount = 0) then s
  else
    let count := (s.entries i).openCount-1
    let s := s.setEntry i { s.entries i with openCount := count }
    if count = 0 ∧ (s.entries i).deleted then dropEntry s i else s

def tmpfsCreateAnonymous (euid egid : UInt32) : Option (State×ℕ) :=
  (createEntryLocked s [] 0 false (some 0o777) 0 euid egid).map fun (s,i) =>
    (s.setEntry i { s.entries i with deleted := true },i)

def tmpfsRetain (i : ℕ) : State :=
  if maxFiles ≤ i then s else if (s.entries i).active then retained s i else s

def tmpfsMkdirAuthorized (path : Name) (requestedMode umask : UInt32) (who : Caller) :
    State×ℤ :=
  let (s,probe) := tmpfsOpenAuthorized s path false false who 0 (some requestedMode) umask
  if 0 ≤ probe then (tmpfsClose s probe.toNat,-17)
  else
    let (s,result) := tmpfsOpenAuthorized s path true true who 0 (some requestedMode) umask
    if result < 0 then (s,result) else (tmpfsClose s result.toNat,0)

inductive RemoveKind where
  | any | file | dir
  deriving DecidableEq

def tmpfsRemove (path : Name) (who : Option Caller) (want : RemoveKind) : State×ℤ :=
  match resolvePath s path with
  | none => (s,-2)
  | some (parent,name) =>
    if name = [slash] then (s,-16)
    else match findEntry s name parent with
      | none => (s,-2)
      | some i =>
        let e := s.entries i
        if want = .file ∧ e.isDir then (s,-21)
        else if want = .dir ∧ !e.isDir then (s,-20)
        else if who.any (fun w => !mayRemoveEntry (s.entries parent) e.uid w) then (s,-13)
        else if e.isDir && (slots s).any (fun c => !(s.entries c).deleted &&
            decide ((s.entries c).parentIdx = i)) then (s,-39)
        else (tombstone s i,0)

def hasChildren (dir : ℕ) : Bool :=
  (slots s).any fun c => !(s.entries c).deleted && decide (c ≠ dir) &&
    decide ((s.entries c).parentIdx = dir)

def ancestorLoop (s : State) (anc : ℕ) : ℕ → ℕ → Bool
  | 0, _ => false
  | hops+1, d =>
    if d = anc then true
    else if d = 0 ∨ maxFiles ≤ d then false
    else ancestorLoop s anc hops (s.entries d).parentIdx

def isAncestorOrSelf (anc dir : ℕ) : Bool := ancestorLoop s anc (maxFiles+1) dir

def mayDetach (parent victim : ℕ) : Option Caller → ℤ
  | none => 0
  | some w =>
    if !allows (s.entries parent) w .writeSearch then -13
    else if !mayRemoveEntry (s.entries parent) (s.entries victim).uid w then -1
    else 0

inductive RenameMode where
  | replace | noreplace | exchange
  deriving DecidableEq

structure Target where
  isDir : Bool
  empty : Bool

/-- `checkTarget`, with no target if the new name is free. -/
def checkTarget (m : RenameMode) (srcIsDir : Bool) : Option Target → ℤ
  | none => if m = .exchange then -2 else 0
  | some target =>
    if m = .exchange then 0
    else if m = .noreplace then -17
    else if srcIsDir ∧ !target.isDir then -20
    else if !srcIsDir ∧ target.isDir then -21
    else if target.isDir ∧ !target.empty then -39
    else 0

def mayArrive (newParent : ℕ) (dst : Option ℕ) (who : Option Caller) : ℤ :=
  match dst with
  | some d => mayDetach s newParent d who
  | none => if who.any (fun w => !allows (s.entries newParent) w .writeSearch) then -13 else 0

def place (i : ℕ) (name : Name) (parent : ℕ) : State :=
  s.setEntry i { s.entries i with name := name, parentIdx := parent }

def renameExchange (src d oldParent newParent : ℕ) : State :=
  let name := (s.entries d).name
  place (place s d (s.entries src).name oldParent) src name newParent

def renameReplace (src : ℕ) (dst : Option ℕ) (newName : Name) (newParent : ℕ) : State :=
  place (match dst with | some d => tombstone s d | none => s) src newName newParent

def tmpfsRename (oldPath newPath : Name) (m : RenameMode) (who : Option Caller) :
    State×ℤ :=
  match resolvePath s oldPath, resolvePath s newPath with
  | none, _ => (s,resolveErrno s oldPath)
  | some _, none => (s,resolveErrno s newPath)
  | some (oldParent,oldName), some (newParent,newName) =>
    if oldName = [slash] ∨ newName = [slash] then (s,-16)
    else match findEntry s oldName oldParent with
      | none => (s,-2)
      | some src =>
        let dst := findEntry s newName newParent
        let srcIsDir := (s.entries src).isDir
        let rule := checkTarget m srcIsDir (dst.map fun d =>
          ⟨(s.entries d).isDir,!(s.entries d).isDir || !hasChildren s d⟩)
        if dst = some src then (s,0)
        else if rule ≠ 0 then (s,rule)
        else if srcIsDir && isAncestorOrSelf s src newParent then (s,-22)
        else if decide (m = .exchange) && dst.any (fun d => (s.entries d).isDir &&
            isAncestorOrSelf s d oldParent) then (s,-22)
        else if mayDetach s oldParent src who ≠ 0 then (s,mayDetach s oldParent src who)
        else if mayArrive s newParent dst who ≠ 0 then (s,mayArrive s newParent dst who)
        else match m, dst with
          | .exchange, some d => (renameExchange s src d oldParent newParent,0)
          | _, _ => (renameReplace s src dst newName newParent,0)

inductive Op where
  | openFile (path : Name) (create isDir : Bool) (who : Caller) (flags : UInt32)
      (requestedMode : Option UInt32) (umask : UInt32)
  | mkdir (path : Name) (requestedMode umask : UInt32) (who : Caller)
  | close (i : ℕ)
  | createAnonymous (euid egid : UInt32)
  | retain (i : ℕ)
  | remove (path : Name) (who : Option Caller) (want : RemoveKind)
  | rename (oldPath newPath : Name) (m : RenameMode) (who : Option Caller)

def step : Op → State
  | .openFile path create isDir who flags requestedMode umask =>
    (tmpfsOpenAuthorized s path create isDir who flags requestedMode umask).1
  | .mkdir path requestedMode umask who =>
    (tmpfsMkdirAuthorized s path requestedMode umask who).1
  | .close i => tmpfsClose s i
  | .createAnonymous euid egid => (tmpfsCreateAnonymous s euid egid).elim s Prod.fst
  | .retain i => tmpfsRetain s i
  | .remove path who want => (tmpfsRemove s path who want).1
  | .rename oldPath newPath m who => (tmpfsRename s oldPath newPath m who).1

/-- `init`. -/
def start : State where
  entries := update (fun _ => ⟨false,[],false,noParent,0,0,0,0,0,false⟩) 0
    ⟨true,[slash],true,noParent,0o1777,0,0,0,0,false⟩
  activeBm := fun i => decide (i = 0)
  nextCtime := 1

end MoQiOS.Tmpfs
