import MoQiOS.Runs

/-!
# Credentials

A task has a real, an effective and a saved user ID, the same for its group,
and a permitted and an effective set of capabilities. With the set-ID
capability it may take any ID, without it only one of those it has. No call
enlarges the permitted set, and the effective set stays inside it.
-/

namespace MoQiOS.Credentials
open Runs

def KEEP : UInt32 := 0xFFFFFFFF

structure Ids where
  r : UInt32
  e : UInt32
  s : UInt32
deriving DecidableEq

structure Caps where
  effective : BitVec 32
  permitted : BitVec 32
deriving DecidableEq

variable (cur : Ids)

def isCurrent (v : UInt32) : Prop := v = cur.r ∨ v = cur.e ∨ v = cur.s

instance (v : UInt32) : Decidable (isCurrent cur v) := inferInstanceAs (Decidable (_ ∨ _))

def setres (r e s : UInt32) (privileged : Bool) : Option Ids :=
  if privileged = false ∧ ∃ v ∈ [r,e,s], v ≠ KEEP ∧ ¬isCurrent cur v then none
  else some ⟨if r ≠ KEEP then r else cur.r,if e ≠ KEEP then e else cur.e,if s ≠ KEEP then s else cur.s⟩

def setre (r e : UInt32) (privileged : Bool) : Option Ids :=
  if privileged = false ∧
      (r ≠ KEEP ∧ r ≠ cur.r ∧ r ≠ cur.e ∨ e ≠ KEEP ∧ ¬isCurrent cur e) then none
  else
    let newE := if e ≠ KEEP then e else cur.e
    some ⟨if r ≠ KEEP then r else cur.r,newE,if r ≠ KEEP ∨ e ≠ KEEP ∧ e ≠ cur.r then newE else cur.s⟩

def setOne (v : UInt32) (privileged : Bool) : Option Ids :=
  if v = KEEP then none
  else if privileged then some ⟨v,v,v⟩
  else if v ≠ cur.r ∧ v ≠ cur.s then none
  else some ⟨cur.r,v,cur.s⟩

def capsAfterUidChange (old new : Ids) (caps : Caps) : Caps :=
  if isCurrent old 0 ∧ ¬isCurrent new 0 then ⟨0,0⟩
  else if old.e = 0 ∧ new.e ≠ 0 then { caps with effective := 0 }
  else if old.e ≠ 0 ∧ new.e = 0 then { caps with effective := caps.permitted }
  else caps

structure ExecCreds where
  uid : Ids
  gid : Ids
  caps : Caps

def afterExec (uid gid : Ids) (caps : Caps) : ExecCreds where
  uid := { uid with s := uid.e }
  gid := { gid with s := gid.e }
  caps :=
    if uid.r = 0 ∨ uid.e = 0 then { caps with effective := if uid.e = 0 then caps.permitted else 0 }
    else ⟨0,0⟩

structure Task where
  uid : Ids
  gid : Ids
  caps : Caps
deriving DecidableEq

variable (t : Task)

def Task.capSetuid : Bool := t.caps.effective.getLsbD 5

def Task.capSetgid : Bool := t.caps.effective.getLsbD 6

def applyUids (new : Ids) : Task := { t with uid := new, caps := capsAfterUidChange t.uid new t.caps }

def applyGids (new : Ids) : Task := { t with gid := new }

/-- A refused call answers with an error and changes nothing. -/
def install (apply : Ids → Task) (error : ℤ) : Option Ids → ℤ×Task
  | none => (error,t)
  | some new => (0,apply new)

def setuid (uid : UInt32) : ℤ×Task :=
  install t (applyUids t) (if uid = KEEP then -22 else -1) (setOne t.uid uid t.capSetuid)

def setgid (gid : UInt32) : ℤ×Task :=
  install t (applyGids t) (if gid = KEEP then -22 else -1) (setOne t.gid gid t.capSetgid)

def setreuid (ruid euid : UInt32) : ℤ×Task :=
  install t (applyUids t) (-1) (setre t.uid ruid euid t.capSetuid)

def setregid (rgid egid : UInt32) : ℤ×Task :=
  install t (applyGids t) (-1) (setre t.gid rgid egid t.capSetgid)

def setresuid (ruid euid suid : UInt32) : ℤ×Task :=
  install t (applyUids t) (-1) (setres t.uid ruid euid suid t.capSetuid)

def setresgid (rgid egid sgid : UInt32) : ℤ×Task :=
  install t (applyGids t) (-1) (setres t.gid rgid egid sgid t.capSetgid)

def applyExec : Task :=
  let ec := afterExec t.uid t.gid t.caps
  ⟨{ t.uid with s := ec.uid.s },{ t.gid with s := ec.gid.s },ec.caps⟩

inductive Call where
  | setuid (uid : UInt32)
  | setgid (gid : UInt32)
  | setreuid (ruid euid : UInt32)
  | setregid (rgid egid : UInt32)
  | setresuid (ruid euid suid : UInt32)
  | setresgid (rgid egid sgid : UInt32)
  | execve

def step : Call → Task
  | .setuid uid => (setuid t uid).2
  | .setgid gid => (setgid t gid).2
  | .setreuid ruid euid => (setreuid t ruid euid).2
  | .setregid rgid egid => (setregid t rgid egid).2
  | .setresuid ruid euid suid => (setresuid t ruid euid suid).2
  | .setresgid rgid egid sgid => (setresgid t rgid egid sgid).2
  | .execve => applyExec t

def Ids.Among (new old : Ids) : Prop := isCurrent old new.r ∧ isCurrent old new.e ∧ isCurrent old new.s

variable {cur : Ids}

lemma Ids.Among.refl : Ids.Among cur cur := ⟨.inl rfl,.inr (.inl rfl),.inr (.inr rfl)⟩

lemma Ids.Among.mem {new : Ids} (h : new.Among cur) {v : UInt32} (hv : isCurrent new v) :
    isCurrent cur v := by
  rcases hv with rfl | rfl | rfl
  · exact h.1
  · exact h.2.1
  · exact h.2.2

lemma Ids.Among.trans {mid new : Ids} (h : mid.Among cur) (h' : new.Among mid) : new.Among cur :=
  ⟨h.mem h'.1,h.mem h'.2.1,h.mem h'.2.2⟩

lemma isCurrent_kept {v w : UInt32} (hv : v ≠ KEEP → isCurrent cur v) (hw : isCurrent cur w) :
    isCurrent cur (if v ≠ KEEP then v else w) := by
  split
  · next h => exact hv h
  · exact hw

variable {new : Ids}

lemma setres_among {r e s : UInt32} (h : setres cur r e s false = some new) : new.Among cur := by
  unfold setres at h
  split at h
  · cases h
  next hc =>
    obtain rfl := Option.some.inj h
    have hv : ∀ v ∈ [r,e,s], v ≠ KEEP → isCurrent cur v := by
      intro v hm hk
      by_contra hn
      exact hc ⟨rfl,v,hm,hk,hn⟩
    exact ⟨isCurrent_kept (hv r (by simp)) Ids.Among.refl.1,isCurrent_kept (hv e (by simp)) Ids.Among.refl.2.1,
      isCurrent_kept (hv s (by simp)) Ids.Among.refl.2.2⟩

lemma setre_among {r e : UInt32} (h : setre cur r e false = some new) : new.Among cur := by
  unfold setre at h
  split at h
  · cases h
  next hc =>
    obtain rfl := Option.some.inj h
    have hr : r ≠ KEEP → isCurrent cur r := by
      intro hk
      by_contra hn
      exact hc ⟨rfl,.inl ⟨hk,fun h => hn (.inl h),fun h => hn (.inr (.inl h))⟩⟩
    have he : isCurrent cur (if e ≠ KEEP then e else cur.e) := by
      refine isCurrent_kept (fun hk => ?_) Ids.Among.refl.2.1
      by_contra hn
      exact hc ⟨rfl,.inr ⟨hk,hn⟩⟩
    refine ⟨isCurrent_kept hr Ids.Among.refl.1,he,?_⟩
    dsimp only
    split
    · exact he
    · exact Ids.Among.refl.2.2

lemma setOne_among {v : UInt32} (h : setOne cur v false = some new) : new.Among cur := by
  unfold setOne at h
  split at h
  · cases h
  rw [if_neg (by decide)] at h
  split at h
  · cases h
  next hc =>
    obtain rfl := Option.some.inj h
    rw [not_and_or,not_not,not_not] at hc
    exact ⟨Ids.Among.refl.1,hc.imp_right .inr,Ids.Among.refl.2.2⟩

/-- No new capability is permitted and the effective ones stay permitted. -/
structure Narrows (old new : Caps) : Prop where
  permitted : new.permitted &&& old.permitted = new.permitted
  effective : old.effective &&& old.permitted = old.effective →
    new.effective &&& new.permitted = new.effective

variable {caps : Caps}

lemma Narrows.refl : Narrows caps caps := ⟨BitVec.and_self,id⟩

lemma Narrows.trans {mid new : Caps} (h : Narrows caps mid) (h' : Narrows mid new) : Narrows caps new := by
  refine ⟨?_,fun he => h'.effective (h.effective he)⟩
  rw [← h'.permitted,BitVec.and_assoc,h.permitted]

lemma capsAfterUidChange_narrows (old new : Ids) : Narrows caps (capsAfterUidChange old new caps) := by
  unfold capsAfterUidChange
  split_ifs <;> exact ⟨by simp,by simp⟩

structure Confined (t t' : Task) : Prop where
  caps : Narrows t.caps t'.caps
  uid : t.capSetuid = false → t'.uid.Among t.uid
  gid : t.capSetgid = false → t'.gid.Among t.gid

variable {t : Task} {error : ℤ} {ids : Option Ids}

lemma installUids_confined (h : t.capSetuid = false → ∀ new, ids = some new → new.Among t.uid) :
    Confined t (install t (applyUids t) error ids).2 := by
  cases ids with
  | none => exact ⟨.refl,fun _ => .refl,fun _ => .refl⟩
  | some new => exact ⟨capsAfterUidChange_narrows _ _,fun hp => h hp new rfl,fun _ => .refl⟩

lemma installGids_confined (h : t.capSetgid = false → ∀ new, ids = some new → new.Among t.gid) :
    Confined t (install t (applyGids t) error ids).2 := by
  cases ids with
  | none => exact ⟨.refl,fun _ => .refl,fun _ => .refl⟩
  | some new => exact ⟨.refl,fun _ => .refl,fun hp => h hp new rfl⟩

lemma applyExec_confined : Confined t (applyExec t) := by
  refine ⟨?_,fun _ => ⟨.inl rfl,.inr (.inl rfl),.inr (.inl rfl)⟩,
    fun _ => ⟨.inl rfl,.inr (.inl rfl),.inr (.inl rfl)⟩⟩
  simp only [applyExec,afterExec]
  split_ifs <;> exact ⟨by simp,by simp⟩

lemma step_confined (t : Task) (c : Call) : Confined t (step t c) := by
  cases c with
  | setuid uid => exact installUids_confined fun hp new h => setOne_among (hp ▸ h)
  | setgid gid => exact installGids_confined fun hp new h => setOne_among (hp ▸ h)
  | setreuid ruid euid => exact installUids_confined fun hp new h => setre_among (hp ▸ h)
  | setregid rgid egid => exact installGids_confined fun hp new h => setre_among (hp ▸ h)
  | setresuid ruid euid suid => exact installUids_confined fun hp new h => setres_among (hp ▸ h)
  | setresgid rgid egid sgid => exact installGids_confined fun hp new h => setres_among (hp ▸ h)
  | execve => exact applyExec_confined

lemma run_narrows (t : Task) (calls : List Call) : Narrows t.caps (run step t calls).caps := by
  induction calls generalizing t with
  | nil => exact .refl
  | cons c calls ih => exact (step_confined t c).caps.trans (ih _)

lemma run_among {cap : Task → Bool} {ids : Task → Ids}
    (hstep : ∀ t c, cap t = false → (ids (step t c)).Among (ids t)) (t : Task) (calls : List Call)
    (h : Admissible (fun t _ => cap t = false) step t calls) : (ids (run step t calls)).Among (ids t) := by
  induction calls generalizing t with
  | nil => exact .refl
  | cons c calls ih => exact (hstep t c h.1).trans (ih _ h.2)

/-- At every point of a run the permitted set is inside what it was before and
the effective set inside the permitted one, and calls made without the set-ID
capability leave only IDs that the task had after the last call made with it. -/
theorem credentials_never_escalate (t : Task) (h : t.caps.effective &&& t.caps.permitted = t.caps.effective)
    (before after : List Call) :
    let t₁ := run step t before
    let t₂ := run step t₁ after
    t₂.caps.permitted &&& t₁.caps.permitted = t₂.caps.permitted ∧
    t₂.caps.effective &&& t₂.caps.permitted = t₂.caps.effective ∧
    (Admissible (fun t _ => t.capSetuid = false) step t₁ after → t₂.uid.Among t₁.uid) ∧
    (Admissible (fun t _ => t.capSetgid = false) step t₁ after → t₂.gid.Among t₁.gid) := by
  intro t₁ t₂
  have hn : Narrows t₁.caps t₂.caps := run_narrows t₁ after
  exact ⟨hn.permitted,hn.effective ((run_narrows t before).effective h),
    run_among (fun t c => (step_confined t c).uid) t₁ after,
    run_among (fun t c => (step_confined t c).gid) t₁ after⟩

def rootTask : Task := ⟨⟨0,0,0⟩,⟨0,0,0⟩,⟨0x7FFFF,0x7FFFF⟩⟩

/-- A root program keeps a saved ID, drops to a user and executes another. -/
theorem credentials_never_escalate_dropped :
    let t₁ := run step rootTask [.setresuid 1000 1000 2000]
    let t₂ := run step t₁ [.setresuid KEEP 2000 KEEP,.setuid 0,.execve]
    t₂.uid = ⟨1000,2000,2000⟩ ∧ t₂.uid.Among t₁.uid := by
  have h := credentials_never_escalate rootTask (by decide) [.setresuid 1000 1000 2000]
    [.setresuid KEEP 2000 KEEP,.setuid 0,.execve]
  exact ⟨by decide,h.2.2.1 (by decide)⟩

/-- The call that gives the capability up may choose IDs the task did not
have. -/
theorem privileged_drop_takes_new_ids :
    let t := step rootTask (.setresuid 1000 1000 1000)
    rootTask.capSetuid = true ∧ t.capSetuid = false ∧ ¬t.uid.Among rootTask.uid := by
  unfold Ids.Among
  decide

end MoQiOS.Credentials
