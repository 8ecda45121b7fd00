import MoQiOS.TmpfsRuns

/-!
# Concurrent mkdir calls

Making a directory takes the lock several times: for the lookup, for the
creation, and for the close after each. The calls here all name one path, and
any of them may take its next turn at the lock.
-/

namespace MoQiOS.Tmpfs
open Runs Function
set_option maxRecDepth 9000

def Grown (s t : State) : Prop :=
  ∀ name p i, findEntry s name p = some i →
    findEntry t name p = some i ∧ (t.entries i).isDir = (s.entries i).isDir

variable {t : State} {s : State}

lemma Tree.grown (hs : Tree s) (ht : Tree t) (h : ∀ i, Named s i → Agrees s t i) : Grown s t := by
  intro name p i hf
  obtain ⟨hi,hp,hn⟩ := hs.findEntry_some hf
  have ha := h i hi
  exact ⟨ht.findEntry_named (ha.named.mpr hi) (ha.parentIdx.trans hp) (ha.name.trans hn),ha.isDir⟩

lemma Grown.refl (s : State) : Grown s s := fun _ _ _ hf => ⟨hf,rfl⟩

variable {p : ℕ} {r : ℕ×Name}

lemma Grown.resolveLoop (h : Grown s t) {rest : Name} {comp : Name} (hr : resolveLoop s p comp rest = some r) : resolveLoop t p comp rest = some r := by
  induction rest generalizing p comp with
  | nil => exact hr
  | cons c rest ih =>
    rw [Tmpfs.resolveLoop] at hr ⊢
    split_ifs at hr ⊢ with hc hcomp
    · exact ih hr
    · rcases hf : findEntry s comp p with _ | d
      · rw [hf] at hr
        cases hr
      obtain ⟨hft,hdir⟩ := h comp p d hf
      rw [hf] at hr
      rw [hft]
      dsimp only at hr ⊢
      rw [hdir]
      split_ifs at hr ⊢
      exact ih hr
    · exact ih hr

variable {path : Name}

lemma Grown.resolvePath (h : Grown s t)
    (hr : resolvePath s path = some r) : resolvePath t path = some r := by
  simp only [Tmpfs.resolvePath] at hr ⊢
  split_ifs at hr ⊢
  · exact hr
  · exact h.resolveLoop hr

lemma lookup_of_resolve {path name : Name} {i : ℕ}
    (hr : resolvePath s path = some (p,name)) (hf : name ≠ [slash] → findEntry s name p = some i) :
    (lookupLocked s path).isSome := by
  rw [lookupLocked,hr]
  dsimp only
  split_ifs with hroot
  · rfl
  · rw [hf hroot]
    rfl

lemma Grown.lookup (h : Grown s t)
    (hl : (lookupLocked s path).isSome) : (lookupLocked t path).isSome := by
  rcases hr : Tmpfs.resolvePath s path with _ | ⟨p,name⟩
  · rw [lookupLocked,hr] at hl
    cases hl
  rw [lookupLocked,hr] at hl
  dsimp only at hl
  rcases hf : findEntry s name p with _ | i
  · rw [hf] at hl
    split_ifs at hl with hroot
    · exact lookup_of_resolve (i := 0) (h.resolvePath hr) fun hne => absurd hroot hne
    · cases hl
  · exact lookup_of_resolve (h.resolvePath hr) fun _ => (h name p i hf).1

lemma resolveErrnoLoop_neg (s : State) (rest : Name) (p : ℕ) (comp : Name) :
    resolveErrnoLoop s p comp rest < 0 ∧ resolveErrnoLoop s p comp rest ≠ -17 := by
  fun_induction resolveErrnoLoop s p comp rest <;> simp_all

section
variable {s : State} (h : Tree s)
include h

lemma Tree.grown_retained (i : ℕ) : Grown s (Tmpfs.retained s i) :=
  h.grown (h.retained i) fun j _ => .setCount s i _ j

lemma Tree.grown_close (i : ℕ) : Grown s (tmpfsClose s i) := by
  refine h.grown (h.close i) fun j hj => ?_
  have hcount := Agrees.setCount s i ((s.entries i).openCount-1) j
  simp only [tmpfsClose]
  split_ifs with hi hoff hlast
  · exact .of_eq rfl
  · exact .of_eq rfl
  · -- Only an unlinked entry is dropped.
    have hji : j ≠ i := by
      rintro rfl
      rw [setEntry_self] at hlast
      exact absurd hlast.2 (by simp [hj.2])
    refine .of_eq ?_
    rw [Tmpfs.dropEntry,setEntry_of_ne _ _ hji]
    exact setEntry_of_ne s _ hji
  · exact hcount

/-- The lookup or creation of a call: nothing found before is lost, a result that
is no error is found from then on, and no error is `EEXIST`. -/
lemma Tree.open_spec (path : Name) (create isDir : Bool) (who : Caller) (mode : Option UInt32)
    (umask : UInt32) : let r := tmpfsOpenAuthorized s path create isDir who 0 mode umask
    Grown s r.1 ∧ (0 ≤ r.2 → (lookupLocked r.1 path).isSome) ∧ r.2 ≠ -17 := by
  have hexcl : exclusiveCreateRejectsExisting create 0 = false := by
    simp [exclusiveCreateRejectsExisting]
  have hfail : ∀ e : ℤ, e < 0 ∧ e ≠ -17 →
      Grown s s ∧ (0 ≤ e → (lookupLocked s path).isSome) ∧ e ≠ -17 :=
    fun e he => ⟨.refl s,fun hnn => absurd hnn (not_le.mpr he.1),he.2⟩
  rw [tmpfsOpenAuthorized]
  rcases hr : resolvePath s path with _ | ⟨p,name⟩
  · exact hfail _ (resolveErrnoLoop_neg s _ 0 [])
  dsimp only
  by_cases hroot : name = [slash]
  · rw [if_pos hroot,hexcl]
    have hg := h.grown_retained 0
    exact ⟨hg,fun _ => lookup_of_resolve (i := 0) (hg.resolvePath hr) fun hne => absurd hroot hne,
      by simp [openExisting]⟩
  rw [if_neg hroot]
  rcases hf : findEntry s name p with _ | i
  · dsimp only
    split_ifs
    · exact hfail (-13) (by decide)
    · rcases hc : createEntryLocked s name p isDir mode umask who.euid who.egid with _ | ⟨t,i⟩
      · exact hfail (-28) (by decide)
      obtain ⟨hp,hd,hlen⟩ := h.resolvePath_spec hr
      obtain ⟨-,-,hun,hother,-,hnamed,hname,hparent⟩ := h.createEntry_spec hc
      have ht := h.create hc hp hd hlen hf
      have hg : Grown s t := by
        refine h.grown ht fun j hj => .of_eq (hother j ?_)
        rintro rfl
        exact hun hj
      exact ⟨hg,fun _ => lookup_of_resolve (hg.resolvePath hr) fun _ =>
        ht.findEntry_named hnamed hparent hname,by rintro ⟨⟩⟩
    · exact hfail (-2) (by decide)
  · have hfound : (lookupLocked s path).isSome := lookup_of_resolve hr fun _ => hf
    dsimp only
    rw [hexcl,if_neg Bool.false_ne_true]
    split_ifs
    · refine ⟨.refl s,fun _ => hfound,?_⟩
      dsimp only
      cases (s.entries i).isDir <;> cases hasTrailingSlash path <;> decide
    · exact hfail (-13) (by decide)
    · exact ⟨h.grown_retained i,fun _ => (h.grown_retained i).lookup hfound,by omega⟩

end

structure Request where
  requestedMode : UInt32
  umask : UInt32
  who : Caller

/-- Between two turns a call holds what its last one gave. -/
inductive Phase where
  | idle
  | probed (i : ℕ)
  | missed
  | made (i : ℕ)
  | done (result : ℤ)
  deriving DecidableEq

structure Calls where
  fs : State
  phase : ℕ → Phase

section
variable (path : Name) (req : ℕ → Request)

def turn (s : Calls) (c : ℕ) : Calls :=
  let opened := fun create isDir => tmpfsOpenAuthorized s.fs path create isDir (req c).who 0
    (some (req c).requestedMode) (req c).umask
  match s.phase c with
  | .idle =>
    let r := opened false false
    ⟨r.1,update s.phase c (if 0 ≤ r.2 then .probed r.2.toNat else .missed)⟩
  | .probed i => ⟨tmpfsClose s.fs i,update s.phase c (.done (-17))⟩
  | .missed =>
    let r := opened true true
    ⟨r.1,update s.phase c (if r.2 < 0 then .done r.2 else .made r.2.toNat)⟩
  | .made i => ⟨tmpfsClose s.fs i,update s.phase c (.done 0)⟩
  | .done _ => s

/-- A call whose turns are not interrupted is the whole function. -/
lemma turns_eq_mkdir (s : Calls) (c : ℕ) (hc : s.phase c = .idle) :
    let r := tmpfsMkdirAuthorized s.fs path (req c).requestedMode (req c).umask (req c).who
    run (turn path req) s [c,c,c] = ⟨r.1,update s.phase c (.done r.2)⟩ := by
  simp only [tmpfsMkdirAuthorized,run,List.foldl_cons,List.foldl_nil]
  by_cases hp : 0 ≤ (tmpfsOpenAuthorized s.fs path false false (req c).who 0
      (some (req c).requestedMode) (req c).umask).2
  · simp [turn,hc,hp]
  · simp only [turn,hc,hp,if_false,update_self]
    split_ifs <;> simp

end

def Phase.won : Phase → Bool
  | .made _ => true
  | .done r => r = 0
  | _ => false

def Phase.met : Phase → Bool
  | .made _ => true
  | .probed _ => true
  | .done r => r = 0 || r = -17
  | _ => false

variable {ph : Phase}

lemma Phase.won_met (h : ph.won = true) : ph.met = true := by
  cases ph <;> simp_all [won,met]

/-- A call that makes the directory does so while the path leads nowhere. -/
def Unraced (path : Name) (s : Calls) (c : ℕ) : Prop :=
  s.phase c = .missed → lookupLocked s.fs path = none

structure Single (path : Name) (s : Calls) : Prop where
  tree : Tree s.fs
  one : ∀ c d, (s.phase c).won = true → (s.phase d).won = true → c = d
  there : ∀ c, (s.phase c).met = true → (lookupLocked s.fs path).isSome

section
variable {path : Name} {s : Calls} (h : Single path s)
include h

lemma Single.move (c : ℕ) (ht : Tree t) (hg : Grown s.fs t)
    (hmet : ph.met = true → (lookupLocked t path).isSome)
    (hwon : ph.won = true → ∀ d, (s.phase d).won = true → d = c) :
    Single path ⟨t,update s.phase c ph⟩ := by
  refine ⟨ht,fun a b ha hb => ?_,fun a ha => ?_⟩
  · dsimp only at ha hb
    rw [update_apply] at ha hb
    split_ifs at ha hb with hac hbc hbc
    · rw [hac,hbc]
    · rw [hac]
      exact (hwon ha b hb).symm
    · rw [hbc]
      exact hwon hb a ha
    · exact h.one a b ha hb
  · dsimp only at ha
    rw [update_apply] at ha
    split_ifs at ha
    · exact hmet ha
    · exact hg.lookup (h.there a ha)

lemma Single.turn {req : ℕ → Request} {c : ℕ} (hu : Unraced path s c) :
    Single path (turn path req s c) := by
  have hopen := fun create isDir => h.tree.openFile path create isDir (req c).who 0
    (some (req c).requestedMode) (req c).umask
  have hspec := fun create isDir => h.tree.open_spec path create isDir (req c).who
    (some (req c).requestedMode) (req c).umask
  have hclose := fun i => h.tree.grown_close i
  rw [Tmpfs.turn]
  split
  · refine h.move c (hopen _ _) (hspec _ _).1 (fun hm => ?_) fun hw => ?_
    · split_ifs at hm with hnn
      · exact (hspec _ _).2.1 hnn
      · cases hm
    · split_ifs at hw <;> cases hw
  · next i hc =>
    refine h.move c (h.tree.close i) (hclose i) (fun _ => ?_) fun hw => by simp [Phase.won] at hw
    exact (hclose i).lookup (h.there c (by rw [hc]; rfl))
  · next hc =>
    -- The path led nowhere, so no call has won before this one.
    have hnone := hu hc
    refine h.move c (hopen _ _) (hspec _ _).1 (fun hm => ?_) fun _ d hd => ?_
    · split_ifs at hm with hneg
      · simp only [Phase.met,Bool.or_eq_true,decide_eq_true_eq] at hm
        rcases hm with hm | hm
        · exact absurd hneg (not_lt.mpr hm.ge)
        · exact absurd hm (hspec _ _).2.2
      · exact (hspec _ _).2.1 (not_lt.mp hneg)
    · have hfound := h.there d (Phase.won_met hd)
      rw [hnone] at hfound
      cases hfound
  · next i hc =>
    refine h.move c (h.tree.close i) (hclose i) (fun _ => ?_) fun _ d hd => ?_
    · exact (hclose i).lookup (h.there c (by rw [hc]; rfl))
    · exact h.one d c hd (by rw [hc]; rfl)
  · exact h

end

/-- The path names a directory's entry, and no other entry there has its name. -/
def NamesOne (s : State) (path : Name) : Prop :=
  ∃ p name, resolvePath s path = some (p,name) ∧ (name = [slash] ∨
    ∃! i, Named s i ∧ (s.entries i).parentIdx = p ∧ (s.entries i).name = name)

lemma Tree.names_one (h : Tree s) (hl : (lookupLocked s path).isSome) : NamesOne s path := by
  rw [lookupLocked] at hl
  rcases hr : resolvePath s path with _ | ⟨p,name⟩
  · rw [hr] at hl
    cases hl
  refine ⟨p,name,hr,?_⟩
  rw [hr] at hl
  dsimp only at hl
  split_ifs at hl with hroot
  · exact .inl hroot
  obtain ⟨i,hi⟩ := Option.isSome_iff_exists.mp hl
  obtain ⟨hn,hp,hname⟩ := h.findEntry_some hi
  refine .inr ⟨i,⟨hn,hp,hname⟩,fun j hj => ?_⟩
  exact h.apart j i hj.1 hn (hj.2.1.trans hp.symm) (hj.2.2.trans hname.symm)

def atRest (s : State) : Calls := ⟨s,fun _ => .idle⟩

/-- From every table reached, with any number of calls on one path. -/
theorem mkdir_exclusive {s₀ : State} (h₀ : Reaches Next start s₀) {req : ℕ → Request}
    {s : Calls} (hr : Reaches (Guarded (Unraced path) (turn path req)) (atRest s₀) s) :
    (∀ c d, s.phase c = .done 0 → s.phase d = .done 0 → c = d) ∧
    ∀ c, s.phase c = .done 0 ∨ s.phase c = .done (-17) → NamesOne s.fs path := by
  have htree : Tree s₀ := invariant (fun s op t hs => by rintro ⟨-,rfl⟩; exact hs.step op) h₀ start_tree
  have hidle : Single path (atRest s₀) :=
    ⟨htree,nofun,nofun⟩
  have hs : Single path s := invariant (fun s c t hs => by rintro ⟨hu,rfl⟩; exact hs.turn hu) hr hidle
  refine ⟨fun c d hc hd => hs.one c d (by rw [hc]; rfl) (by rw [hd]; rfl),fun c hc => ?_⟩
  refine hs.tree.names_one (hs.there c ?_)
  rcases hc with hc | hc <;> rw [hc] <;> rfl

instance (path : Name) (s : Calls) (c : ℕ) : Decidable (Unraced path s c) :=
  inferInstanceAs (Decidable (_ → _))

def byOperator : ℕ → Request := fun _ => ⟨0o777,0o022,operator⟩

/-- One call makes `/tmp/a`, the other finds it. -/
theorem mkdir_exclusive_in_turn : let path : Name := [47,116,109,112,47,97]
    let s := run (turn path byOperator) (atRest start) [0,0,0,1,1]
    s.phase 0 = .done 0 ∧ s.phase 1 = .done (-17) ∧ NamesOne s.fs path := by
  refine ⟨by with_unfolding_all decide,by with_unfolding_all decide,?_⟩
  exact (mkdir_exclusive (.start _ _) (run_reaches (.start _ _) (by with_unfolding_all decide))).2 1
    (.inr (by with_unfolding_all decide))

/-- Both calls look before either creates: both report that they made `/tmp/a`. -/
theorem two_calls_make_one_directory : let path : Name := [47,116,109,112,47,97]
    let s := run (turn path byOperator) (atRest start) [0,1,0,1,0,1]
    Reaches (Guarded (fun _ _ => True) (turn path byOperator)) (atRest start) s ∧
    s.phase 0 = .done 0 ∧ s.phase 1 = .done 0 :=
  ⟨run_reaches (.start _ _) ⟨trivial,trivial,trivial,trivial,trivial,trivial,trivial⟩,
    by with_unfolding_all decide⟩

end MoQiOS.Tmpfs
