import MoQiOS.PageCacheWriteback

/-!
# Runs with flushers

Flushes that leave each other's keys alone, and whose pages the clock spares,
lose no write.
-/

namespace MoQiOS.PageCache
open Runs Function
set_option maxRecDepth 9000

@[simp] lemma setFlusher_self (s : State) (f : ℕ) (x : Flusher) :
    (s.setFlusher f x).flushers f = x := update_self _ _ _

variable {f g : ℕ}

lemma setFlusher_of_ne (s : State) (x : Flusher) (hg : g ≠ f) :
    (s.setFlusher f x).flushers g = s.flushers g := update_of_ne hg _ _

variable {x : Flusher}

lemma idle_holding (h : x.isIdle = true) : x.holding = none := by
  cases x <;> first | rfl | cases h

variable {t : State} {snap : Snapshot} {s : State}

lemma held_elsewhere (hgone : (t.flushers f).holding = none)
    (hold : ∀ g, g ≠ f → t.flushers g = s.flushers g)
    (hg : (t.flushers g).holding = some snap) : g ≠ f ∧ (s.flushers g).holding = some snap := by
  have hgf : g ≠ f := by
    rintro rfl
    rw [hgone] at hg
    cases hg
  rw [hold g hgf] at hg
  exact ⟨hgf,hg⟩

section
variable {s : State} (h : Flow s)
include h

lemma Flow.setFlusher (hx : x.holding = (s.flushers f).holding) : Flow (s.setFlusher f x) := by
  refine h.refile (h.cache.setFlusher f x) (.of_eq rfl) (fun _ => rfl)
    rfl rfl rfl rfl rfl fun g => ?_
  by_cases hg : g = f
  · rw [hg,setFlusher_self,hx]
  · rw [setFlusher_of_ne s x hg]

lemma Flow.endFlush (hx : (s.flushers f).holding = none) (r : FlushResult) :
    Flow (s.endFlush f r) :=
  (h.setFlusher (x := .idle) hx.symm).refile (h.cache.endFlush f r)
    (.of_eq rfl) (fun _ => rfl) rfl rfl rfl rfl rfl fun _ => rfl

lemma Flow.takeSnapshot {i : ℕ} (mode : FlushMode) (flushed : ℕ)
    (hf : (s.flushers f).holding = none) (hv : (s.pages i).valid = true)
    (hd : (s.pages i).dirty = true)
    (hfree : ∀ g snap, (s.flushers g).holding = some snap → snap.key ≠ (s.pages i).key) :
    Flow (takeSnapshot s f mode flushed i) := by
  have hm := takeSnapshot_marked s f mode flushed i
  have hs := hm.soft rfl
  obtain ⟨referenced,hself⟩ := hm.self
  have hnew : ((PageCache.takeSnapshot s f mode flushed i).flushers f).holding =
      some ⟨i,(s.pages i).key,s.memory (s.pages i).data,s.version i⟩ := by
    rw [PageCache.takeSnapshot,setFlusher_self]
    rfl
  have hold : ∀ g, g ≠ f → ((PageCache.takeSnapshot s f mode flushed i).flushers g) = s.flushers g :=
    fun g hg => update_of_ne hg _ _
  have hpage := (h.keys _).page i hv rfl hd
  have honly : ∀ g snap, ((PageCache.takeSnapshot s f mode flushed i).flushers g).holding = some snap →
      snap.key = (s.pages i).key →
      g = f ∧ snap = ⟨i,(s.pages i).key,s.memory (s.pages i).data,s.version i⟩ := by
    intro g snap hg hk
    by_cases hgf : g = f
    · rw [hgf,hnew] at hg
      exact ⟨hgf,(Option.some.inj hg).symm⟩
    · rw [hold g hgf] at hg
      exact absurd hk (hfree g snap hg)
  refine h.at_key (h.cache.takeSnapshot f mode flushed hv) (le_refl s.writes) (s.pages i).key
    (fun k hk => .of_soft hs rfl rfl rfl (fun j hj => ?_) (fun g snap hsk => ?_) rfl)
    ⟨(h.keys _).bound,?_,?_,?_,?_,?_⟩
  · rw [hm.other j fun heq => hk (by rw [← hj,heq])]
  · by_cases hgf : g = f
    · rw [hgf,hnew,hf]
      refine ⟨?_,nofun⟩
      rintro ⟨⟩
      exact absurd hsk.symm hk
    · rw [hold g hgf]
  · intro j hvj hkj hdj
    rw [hs.valid] at hvj
    rw [hs.key] at hkj
    rw [h.cache.keys j i hvj hv hkj,hself] at hdj
    cases hdj
  · intro g snap hg hk
    obtain ⟨-,rfl⟩ := honly g snap hg hk
    rw [hs.valid,hs.key,hs.data]
    exact ⟨hv,rfl,hpage,le_rfl,fun _ => ⟨rfl,rfl⟩⟩
  · intro g g' a b ha hb hka hkb
    exact (honly g a ha hka).1.trans (honly g' b hb hkb).1.symm
  · intro v bytes hk
    obtain ⟨⟨v',bytes',hv',hle⟩,-⟩ := (h.keys _).device v bytes hk
    refine ⟨⟨v',bytes',hv',hle⟩,fun g snap hg hkey => ?_⟩
    obtain ⟨-,rfl⟩ := honly g snap hg hkey
    rw [hpage] at hv'
    cases hv'
    exact hle
  · intro v bytes hk
    obtain ⟨⟩ := hpage.symm.trans hk
    exact .inr (.inl ⟨f,_,hnew,rfl,rfl,rfl⟩)

lemma Flow.settle (hhold : (s.flushers f).holding = some snap) (hc : Cache none t)
    (hgone : (t.flushers f).holding = none) (hold : ∀ g, g ≠ f → t.flushers g = s.flushers g)
    (hs : Soft s t) (hm : t.memory = s.memory) (hv : t.version = s.version)
    (hn : t.newest = s.newest) (hw : t.writes = s.writes)
    (hdirty : ∀ i, i ≠ snap.slot → (t.pages i).dirty = (s.pages i).dirty)
    (hdev : ∀ k, k ≠ snap.key → t.device k = s.device k)
    (hle : ∀ v bytes, t.device snap.key = some (v,bytes) → v ≤ s.version snap.slot)
    (hkept : (t.pages snap.slot).dirty = true ∨ t.device snap.key = s.newest snap.key) : Flow t := by
  obtain ⟨hvs,hks,hnew,-,-⟩ := (h.keys _).held f snap hhold rfl
  have hnone : ∀ g snap', (t.flushers g).holding = some snap' → snap'.key ≠ snap.key := by
    intro g snap' hg hk
    obtain ⟨hgf,hg⟩ := held_elsewhere hgone hold hg
    exact hgf ((h.keys _).alone g f snap' snap hg hhold hk rfl)
  refine h.at_key hc hw.ge snap.key
    (fun k hk => .of_soft hs hm hv hn (fun i hi => ?_) (fun g snap' hsk => ?_) (hdev k hk))
    ⟨?_,?_,fun g snap' hg hk => absurd hk (hnone g snap' hg),
      fun g g' a b ha _ hka _ => absurd hka (hnone g a ha),?_,?_⟩
  · exact hdirty i fun heq => hk (by rw [← hi,heq,hks])
  · by_cases hgf : g = f
    · rw [hgf,hgone,hhold]
      refine ⟨nofun,?_⟩
      rintro ⟨⟩
      exact absurd hsk.symm hk
    · rw [hold g hgf]
  · rw [hn,hw]
    exact (h.keys _).bound
  · intro j hvj hkj _
    rw [hs.valid] at hvj
    rw [hs.key] at hkj
    rw [h.cache.keys j snap.slot hvj hvs (hkj.trans hks.symm),hn,hv,hm,hs.data]
    exact hnew
  · intro v bytes hd
    rw [hn]
    exact ⟨⟨_,_,hnew,hle v bytes hd⟩,fun g snap' hg hk => absurd hk (hnone g snap' hg)⟩
  · intro v bytes hk
    rw [hn] at hk
    rcases hkept with hd | hd
    · obtain ⟨⟩ := hnew.symm.trans hk
      exact .inl ⟨snap.slot,(hs.valid _).trans hvs,(hs.key _).trans hks,hd,by rw [hv],
        by rw [hm,hs.data]⟩
    · exact .inr (.inr (hd.trans hk))

lemma Flow.deviceWrite {mode : FlushMode} {flushed : ℕ}
    (hf : s.flushers f = .writing mode flushed snap) (ht : t = {s with
      device := update s.device snap.key (some (snap.version,snap.tmp))
      flushers := update s.flushers f (.completing mode flushed snap true)})
    (hc : Cache none t) : Flow t ∧ DeviceForward s t := by
  have hhold : (s.flushers f).holding = some snap := by rw [hf]; rfl
  obtain ⟨-,-,hnew,hle,hsame⟩ := (h.keys _).held f snap hhold rfl
  subst ht
  refine ⟨h.settle hhold hc ?_ (fun g hg => update_of_ne hg _ _)
    (.of_eq rfl) rfl rfl rfl rfl (fun _ _ => rfl)
    (fun k hk => update_of_ne hk _ _) ?_ ?_,?_⟩
  · exact congrArg Flusher.holding (update_self f _ s.flushers)
  · intro v bytes hd
    obtain ⟨⟩ := (update_self snap.key _ s.device).symm.trans hd
    exact hle
  · rw [hnew]
    rcases hd : (s.pages snap.slot).dirty with _ | _
    · obtain ⟨h₁,h₂⟩ := hsame hd
      rw [← h₁,← h₂]
      exact .inr (update_self _ _ _)
    · exact .inl rfl
  · intro key v bytes hkey
    change ∃ v' bytes', update s.device snap.key (some (snap.version,snap.tmp)) key = some (v',bytes') ∧ v ≤ v'
    by_cases hkk : key = snap.key
    · rw [hkk,update_self]
      exact ⟨_,_,rfl,((h.keys key).device v bytes hkey).2 f snap hhold hkk.symm⟩
    · rw [update_of_ne hkk]
      exact ⟨v,bytes,hkey,le_refl v⟩

lemma Flow.restore (hhold : (s.flushers f).holding = some snap)
    {r : FlushResult} (ht : t = (restore s snap).endFlush f r) (hc : Cache none t) :
    Flow t ∧ t.device = s.device := by
  obtain ⟨hv,hk,-,hle,-⟩ := (h.keys _).held f snap hhold rfl
  have hholds : holds s snap.key snap.slot = true := by simp [holds,hv,hk]
  rw [PageCache.restore,if_pos hholds] at ht
  have hm : Marked s t snap.slot true := by
    rw [ht]
    exact marked_setPage s snap.slot {s.pages snap.slot with dirty := true} true rfl rfl rfl
  obtain ⟨referenced,hself⟩ := hm.self
  subst ht
  refine ⟨h.settle hhold hc ?_ (fun g hg => update_of_ne hg _ _) (hm.soft rfl)
    rfl rfl rfl rfl (fun i hi => by rw [hm.other i hi]) (fun _ _ => rfl) ?_ (.inl (by rw [hself])),rfl⟩
  · exact congrArg Flusher.holding (setFlusher_self _ f .idle)
  · intro v bytes hd
    exact (((h.keys _).device v bytes hd).2 f snap hhold rfl).trans hle

/-- No flusher holds the key of the page that this one takes up next. -/
def Apart (s : State) (f : ℕ) : Prop :=
  ∀ mode flushed i, s.flushers f = .scanning mode flushed → select s mode = some (some i) →
    ∀ g snap, (s.flushers g).holding = some snap → snap.key ≠ (s.pages i).key

lemma Flow.flushStep (env : Env) (ha : Apart s f) :
    ∃ t, flushStep env s f = some t ∧ Flow t ∧ DeviceForward s t := by
  obtain ⟨t,ht,hc,-⟩ := h.cache.flushStep env f
  refine ⟨t,ht,?_⟩
  rw [PageCache.flushStep] at ht
  split at ht
  · cases ht
    exact ⟨h,.of_eq rfl⟩
  · rename_i mode flushed hf
    have hnone : (s.flushers f).holding = none := by rw [hf]; rfl
    obtain ⟨o,ho,hsel⟩ := h.cache.select mode
    rw [ho] at ht
    cases o with
    | none =>
      cases ht
      exact ⟨h.endFlush hnone _,.of_eq rfl⟩
    | some i =>
      cases ht
      obtain ⟨hv,hd⟩ := hsel i rfl
      exact ⟨h.takeSnapshot mode flushed hnone hv hd (ha mode flushed i hf ho),.of_eq rfl⟩
  · rename_i mode flushed snap hf
    cases hok : env.deviceOk
    · rw [hok] at ht
      cases ht
      exact ⟨h.setFlusher (by rw [hf]; rfl),.of_eq rfl⟩
    · rw [hok] at ht
      exact h.deviceWrite hf (Option.some.inj ht).symm hc
  · rename_i mode flushed snap hf
    cases ht
    exact ⟨h.setFlusher (by rw [hf]; rfl),.of_eq rfl⟩
  · rename_i mode flushed snap hf
    obtain ⟨hflow,hdev⟩ := h.restore (by rw [hf]; rfl) (Option.some.inj ht).symm hc
    exact ⟨hflow,.of_eq hdev⟩

end

def Evicts (env : Env) (s : State) (op : Op) (i : ℕ) : Prop :=
  (s.pages i).valid = true ∧ holds (perform s (env,op)) (s.pages i).key i = false

/-- A flusher takes up no key that another one holds, and the clock takes no
page under flush. -/
def Calm (env : Env) (s : State) : Op → Prop
  | .flushStep f => Apart s f
  | op => ∀ g snap, (s.flushers g).holding = some snap → ¬Evicts env s op snap.slot

lemma calm_of_free (h : ∀ g, (s.flushers g).holding = none) (env : Env) (op : Op) :
    Calm env s op := by
  have hnone : ∀ g snap, (s.flushers g).holding ≠ some snap := fun g snap => by rw [h g]; simp
  cases op <;> first
    | exact fun g snap hg => absurd hg (hnone g snap)
    | exact fun _ _ _ _ _ g snap hg => absurd hg (hnone g snap)

def FlowReady (s : State) (c : Env×Op) : Prop :=
  (Ready c.1 s c.2 ∧ (step c.1 s c.2).isSome = true) ∧ c.2.flows = true

def FlowNext : State → Env×Op → State → Prop := Guarded FlowReady perform

def CalmNext : State → Env×Op → State → Prop :=
  Guarded (fun s c => FlowReady s c ∧ Calm c.1 s c.2) perform

variable {c : Env×Op}

lemma Flow.next (h : Flow s) (hn : CalmNext s c t) : Flow t ∧ DeviceForward s t := by
  obtain ⟨⟨⟨⟨hr,-⟩,hflows⟩,hcalm⟩,rfl⟩ := hn
  obtain ⟨env,op⟩ := c
  rcases hadds : op.adds with _ | _
  · cases op with
    | flushInode f inodeId =>
      exact ⟨h.setFlusher (by rw [idle_holding hr]; rfl),.of_eq rfl⟩
    | flushInodeRange f inodeId first count =>
      show Flow (flushInodeRange s f inodeId first count) ∧
        DeviceForward s (flushInodeRange s f inodeId first count)
      rw [flushInodeRange]
      split_ifs
      · exact ⟨h.endFlush (idle_holding hr.1) _,.of_eq rfl⟩
      · exact ⟨h.setFlusher (by rw [idle_holding hr.1]; rfl),.of_eq rfl⟩
    | flushAll f => exact ⟨h.setFlusher (by rw [idle_holding hr]; rfl),.of_eq rfl⟩
    | flushStep f =>
      obtain ⟨t,ht,hrest⟩ := h.flushStep env hcalm
      rw [perform,step,ht]
      exact hrest
    | markDirty | invalidateInode | invalidatePage => cases hflows
    | _ => cases hadds
  · obtain ⟨t,ht,hc,he⟩ := h.cache.effect hr hadds
    have hperform : perform s (env,op) = t := by rw [perform,ht]; rfl
    have hkeep : ∀ g snap, (s.flushers g).holding = some snap → ¬Evicts env s op snap.slot := by
      cases op <;> first | exact hcalm | cases hadds
    rw [hperform]
    have hflow := h.effect hc he fun g snap hg => by
      obtain ⟨hv,hk,-⟩ := (h.keys _).held g snap hg rfl
      by_contra hnot
      refine hkeep g snap hg ⟨hv,?_⟩
      rw [hperform,hk]
      exact Bool.eq_false_iff.mpr hnot
    exact ⟨hflow.1,.of_eq hflow.2⟩

def Op.flusher : Op → Option ℕ
  | .flushInode f _ | .flushInodeRange f _ _ _ | .flushAll f | .flushStep f => some f
  | _ => none

lemma Effect.flushers {refCount : ℕ → ℕ} (h : Effect refCount s t) : t.flushers = s.flushers := by
  cases h with
  | quiet hq => exact hq.still.flushers
  | clean i key bytes hp _ _ => exact hp.flushers
  | fresh i key src hp _ _ _ => exact hp.flushers
  | wrote i src ho => exact ho.flushers

lemma flushStep_elsewhere {env : Env} (h : flushStep env s f = some t)
    (hg : g ≠ f) : t.flushers g = s.flushers g := by
  rw [PageCache.flushStep] at h
  split at h
  · cases h
    rfl
  · split at h <;> cases h
    · exact setFlusher_of_ne s _ hg
    · exact setFlusher_of_ne _ _ hg
  · cases h
    rw [setFlusher_of_ne _ _ hg]
    split_ifs <;> rfl
  · cases h
    exact setFlusher_of_ne s _ hg
  · cases h
    rw [State.endFlush]
    refine (setFlusher_of_ne _ _ hg).trans ?_
    rw [PageCache.restore]
    split_ifs <;> rfl

lemma Cache.step_elsewhere (h : Cache none s) (hr : FlowReady s c) (hg : c.2.flusher ≠ some g) : (perform s c).flushers g = s.flushers g := by
  obtain ⟨env,op⟩ := c
  obtain ⟨⟨hr,-⟩,hflows⟩ := hr
  have hne : ∀ {f}, op.flusher = some f → g ≠ f := fun hf heq => hg (heq ▸ hf)
  rcases hadds : op.adds with _ | _
  · cases op with
    | flushInode f inodeId => exact setFlusher_of_ne s _ (hne rfl)
    | flushInodeRange f inodeId first count =>
      show (flushInodeRange s f inodeId first count).flushers g = s.flushers g
      rw [flushInodeRange]
      split_ifs <;> exact setFlusher_of_ne s _ (hne rfl)
    | flushAll f => exact setFlusher_of_ne s _ (hne rfl)
    | flushStep f =>
      obtain ⟨t,ht,-⟩ := h.flushStep env f
      rw [perform,PageCache.step,ht]
      exact flushStep_elsewhere ht (hne rfl)
    | markDirty | invalidateInode | invalidatePage => cases hflows
    | _ => cases hadds
  · obtain ⟨t,ht,-,he⟩ := h.effect hr hadds
    rw [perform,ht]
    exact congrFun he.flushers g

lemma Cache.run_elsewhere (h : Cache none s) {labels : List (Env×Op)}
    (hr : Admissible FlowReady perform s labels) (hg : ∀ c ∈ labels, c.2.flusher ≠ some g) :
    (run perform s labels).flushers g = s.flushers g := by
  induction labels generalizing s with
  | nil => rfl
  | cons c labels ih =>
    have hc : Cache none (perform s c) := h.next (c := c) ⟨hr.1.1,rfl⟩
    refine (ih hc hr.2 fun d hd => hg d (List.mem_cons_of_mem c hd)).trans ?_
    exact h.step_elsewhere hr.1 (hg c List.mem_cons_self)

/-- Writes are never lost while flushes stay apart and evictions spare the
pages under flush. -/
theorem flushed_writes_kept (memory : ℕ → Bytes) {s : State}
    (h : Reaches CalmNext (start memory) s) :
    WritesKept s ∧ ∀ c t, CalmNext s c t → DeviceForward s t := by
  have hstep : ∀ s c t, Flow s → CalmNext s c t → Flow t := fun _ _ _ hs hn => (hs.next hn).1
  have hflow : Flow s := invariant hstep h (start_flow memory)
  exact ⟨fun key => (hflow.keys key).kept,fun c t hn => (hflow.next hn).2⟩

instance decidableFlowReady (s : State) (c : Env×Op) : Decidable (FlowReady s c) :=
  inferInstanceAs (Decidable (_ ∧ _))

/-- Two flushers take up two writes of one page, and the device gets the older
write last. -/
def crossingFlushes : List (Env×Op) :=
  let env : Env := ⟨some 4096,fun _ => 1,true⟩
  [(env,.writePage ⟨3,0⟩ [1]),(env,.flushAll 0),(env,.flushStep 0),
    ({ env with allocPage := none },.writePage ⟨3,0⟩ [2]),(env,.flushAll 1),(env,.flushStep 1),
    (env,.flushStep 1),(env,.flushStep 0)]

theorem crossing_flushes_lose_write : let s := run perform (start (fun _ => [])) crossingFlushes
    Reaches FlowNext (start (fun _ => [])) s ∧ s.newest ⟨3,0⟩ = some (2,[2]) ∧
      s.device ⟨3,0⟩ = some (1,[1]) ∧ ¬WritesKept s := by
  intro s
  have hadm : Admissible FlowReady perform (start (fun _ => [])) crossingFlushes := by decide
  have hreach : Reaches FlowNext (start (fun _ => [])) s := run_reaches (.start FlowNext _) hadm
  have hnew : s.newest ⟨3,0⟩ = some (2,[2]) := by decide
  have hdev : s.device ⟨3,0⟩ = some (1,[1]) := by decide
  have hstep : ∀ s c t, Cache none s → FlowNext s c t → Cache none t :=
    fun _ _ _ hs hn => hs.next ⟨hn.1.1,hn.2⟩
  have hcache : Cache none s := invariant hstep hreach (start_cache _)
  refine ⟨hreach,hnew,hdev,fun hkept => ?_⟩
  rcases hkept _ _ _ hnew with ⟨i,hv,-,hd,-⟩ | ⟨f,snap,hf,-⟩ | hd
  · have hclean : ∀ i < maxPages, s.dirtyBm i = false := by decide
    have hbm := hcache.dirty i
    rw [hclean i (hcache.inRange i hv), hv, hd] at hbm
    cases hbm
  · have hnone : (s.flushers f).holding = none := by
      by_cases hfs : f = 0 ∨ f = 1
      · rcases hfs with rfl | rfl <;> decide
      push Not at hfs
      have hidle := (start_cache (fun _ => [])).run_elsewhere hadm (g := f) (by
        simp [crossingFlushes, Op.flusher, hfs.1.symm, hfs.2.symm])
      rw [hidle]
      rfl
    rw [hnone] at hf
    cases hf
  · rw [hdev] at hd
    cases hd

def writeAndFlush : List (Env×Op) :=
  let env : Env := ⟨some 4096,fun _ => 1,true⟩
  [(env,.writePage ⟨3,0⟩ [1]),(env,.flushAll 0),(env,.flushStep 0)]

theorem flushed_writes_kept_one : let s := run perform (start (fun _ => [])) writeAndFlush
    s.newest ⟨3,0⟩ = some (1,[1]) ∧ (s.flushers 0).holding.map Snapshot.version = some 1 ∧
      WritesKept s ∧ ∀ c t, CalmNext s c t → DeviceForward s t := by
  have hcalm : ∀ labels, Admissible FlowReady perform (start (fun _ => [])) labels →
      (∀ c ∈ labels, c.2.flusher ≠ none → c.2.flusher = some 0) →
      ((run perform (start (fun _ => [])) labels).flushers 0).holding = none →
      ∀ env op, Calm env (run perform (start (fun _ => [])) labels) op := by
    intro labels hadm honly hzero env op
    refine calm_of_free (fun g => ?_) env op
    by_cases hg : g = 0
    · rw [hg, hzero]
    rw [(start_cache _).run_elsewhere hadm fun c hc heq => hg ?_]
    · rfl
    · have hsome := honly c hc (by rw [heq]; simp)
      rw [heq] at hsome
      exact Option.some.inj hsome
  refine ⟨by decide,by decide,
    flushed_writes_kept _ (run_reaches (.start CalmNext _) ⟨⟨?_,?_⟩,⟨?_,?_⟩,⟨?_,?_⟩,trivial⟩)⟩
  · decide
  · exact hcalm [] (by decide) (by decide) (by decide) _ _
  · decide
  · exact hcalm (writeAndFlush.take 1) (by decide) (by decide) (by decide) _ _
  · decide
  · exact hcalm (writeAndFlush.take 2) (by decide) (by decide) (by decide) _ _

end MoQiOS.PageCache
