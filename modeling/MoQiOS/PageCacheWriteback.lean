import MoQiOS.PageCacheRuns

/-!
# Writes on their way to the device

A flusher marks its page clean before the device has the bytes. The newest
bytes of a key are safe as long as the page stays in its slot meanwhile and no
second flusher takes the same key.
-/

namespace MoQiOS.PageCache
open Runs Function

/-- The snapshot of a flusher whose device write has not succeeded. -/
def Flusher.holding : Flusher → Option Snapshot
  | .writing _ _ snap | .completing _ _ snap false => some snap
  | _ => none

def Op.flows : Op → Bool
  | .invalidateInode _ | .invalidatePage _ | .markDirty _ => false
  | _ => true

/-- Where the newest bytes of every key are. -/
def WritesKept (s : State) : Prop :=
  ∀ key v bytes, s.newest key = some (v,bytes) →
    (∃ i, (s.pages i).valid = true ∧ (s.pages i).key = key ∧ (s.pages i).dirty = true ∧
      s.version i = v ∧ s.memory (s.pages i).data = bytes) ∨
    (∃ f snap, (s.flushers f).holding = some snap ∧ snap.key = key ∧ snap.version = v ∧
      snap.tmp = bytes) ∨
    s.device key = some (v,bytes)

def DeviceForward (s t : State) : Prop :=
  ∀ key v bytes, s.device key = some (v,bytes) →
    ∃ v' bytes', t.device key = some (v',bytes') ∧ v ≤ v'

lemma DeviceForward.of_eq {s t : State} (h : t.device = s.device) : DeviceForward s t :=
  fun _ v bytes hd => ⟨v,bytes,by rw [h]; exact hd,le_refl v⟩

/-- Where a key stands. An operation disturbs one key at most. -/
structure KeyFlow (s : State) (key : CacheKey) : Prop where
  bound : ∀ v bytes, s.newest key = some (v,bytes) → v ≤ s.writes
  page : ∀ i, (s.pages i).valid = true → (s.pages i).key = key → (s.pages i).dirty = true →
    s.newest key = some (s.version i,s.memory (s.pages i).data)
  held : ∀ f snap, (s.flushers f).holding = some snap → snap.key = key →
    (s.pages snap.slot).valid = true ∧ (s.pages snap.slot).key = key ∧
    s.newest key = some (s.version snap.slot,s.memory (s.pages snap.slot).data) ∧
    snap.version ≤ s.version snap.slot ∧
    ((s.pages snap.slot).dirty = false →
      snap.version = s.version snap.slot ∧ snap.tmp = s.memory (s.pages snap.slot).data)
  alone : ∀ f g snap snap', (s.flushers f).holding = some snap →
    (s.flushers g).holding = some snap' → snap.key = key → snap'.key = key → f = g
  device : ∀ v bytes, s.device key = some (v,bytes) →
    (∃ v' bytes', s.newest key = some (v',bytes') ∧ v ≤ v') ∧
    ∀ f snap, (s.flushers f).holding = some snap → snap.key = key → v ≤ snap.version
  kept : ∀ v bytes, s.newest key = some (v,bytes) →
    (∃ i, (s.pages i).valid = true ∧ (s.pages i).key = key ∧ (s.pages i).dirty = true ∧
      s.version i = v ∧ s.memory (s.pages i).data = bytes) ∨
    (∃ f snap, (s.flushers f).holding = some snap ∧ snap.key = key ∧ snap.version = v ∧
      snap.tmp = bytes) ∨
    s.device key = some (v,bytes)

structure Flow (s : State) : Prop where
  cache : Cache none s
  keys : ∀ key, KeyFlow s key

lemma start_flow (memory : ℕ → Bytes) : Flow (start memory) := by
  refine ⟨start_cache memory,fun key => ⟨?_,?_,?_,?_,?_,?_⟩⟩ <;> simp [start,Flusher.holding]

structure Reads (s t : State) (j : ℕ) : Prop where
  valid : (t.pages j).valid = true
  key : (t.pages j).key = (s.pages j).key
  dirty : (t.pages j).dirty = (s.pages j).dirty
  version : t.version j = s.version j
  bytes : t.memory (t.pages j).data = s.memory (s.pages j).data

variable {refCount : ℕ → ℕ} {i : ℕ} {key : CacheKey} {bytes : Bytes} {dirty : Bool}

/-- The key is left alone, but for clean pages that nobody flushes. -/
structure KeyKept (s t : State) (key : CacheKey) : Prop where
  pages : ∀ i, (s.pages i).valid = true → (s.pages i).key = key → (s.pages i).dirty = true ∨
    (∃ f snap, (s.flushers f).holding = some snap ∧ snap.slot = i) → Reads s t i
  back : ∀ i, (t.pages i).valid = true → (t.pages i).key = key → (t.pages i).dirty = true →
    (s.pages i).valid = true ∧ (s.pages i).key = key ∧ (s.pages i).dirty = true
  flushers : ∀ f snap, snap.key = key →
    ((t.flushers f).holding = some snap ↔ (s.flushers f).holding = some snap)
  newest : t.newest key = s.newest key
  device : t.device key = s.device key

lemma KeyKept.of_soft {s t : State} {key : CacheKey} (hs : Soft s t) (hm : t.memory = s.memory)
    (hv : t.version = s.version) (hn : t.newest = s.newest)
    (hdirty : ∀ i, (s.pages i).key = key → (t.pages i).dirty = (s.pages i).dirty)
    (hf : ∀ f snap, snap.key = key →
      ((t.flushers f).holding = some snap ↔ (s.flushers f).holding = some snap))
    (hd : t.device key = s.device key) : KeyKept s t key := by
  refine ⟨?_,?_,hf,by rw [hn],hd⟩
  · intro i hvi hki _
    exact ⟨(hs.valid i).trans hvi,hs.key i,hdirty i hki,congrFun hv i,by rw [hm,hs.data]⟩
  · intro i hvi hki hdi
    have hks := (hs.key i).symm.trans hki
    exact ⟨(hs.valid i).symm.trans hvi,hks,(hdirty i hks).symm.trans hdi⟩

lemma KeyFlow.keep {s t : State} {key : CacheKey} (h : KeyFlow s key) (hk : KeyKept s t key)
    (hw : s.writes ≤ t.writes) : KeyFlow t key := by
  refine ⟨?_,?_,?_,?_,?_,?_⟩
  · intro v bytes hn
    rw [hk.newest] at hn
    exact (h.bound v bytes hn).trans hw
  · intro i hv hkey hd
    obtain ⟨hvs,hks,hds⟩ := hk.back i hv hkey hd
    obtain ⟨-,-,-,hver,hmem⟩ := hk.pages i hvs hks (.inl hds)
    rw [hk.newest,hver,hmem]
    exact h.page i hvs hks hds
  · rintro f snap hf rfl
    have hfs := (hk.flushers f snap rfl).mp hf
    obtain ⟨hv,hks,hnew,hle,hsame⟩ := h.held f snap hfs rfl
    obtain ⟨hvt,hkt,hdt,hver,hmem⟩ := hk.pages _ hv hks (.inr ⟨f,snap,hfs,rfl⟩)
    rw [hkt,hdt,hver,hmem,hk.newest]
    exact ⟨hvt,hks,hnew,hle,hsame⟩
  · intro f g a b ha hb hka hkb
    exact h.alone f g a b ((hk.flushers f a hka).mp ha) ((hk.flushers g b hkb).mp hb)
      hka hkb
  · intro v bytes hd
    rw [hk.device] at hd
    obtain ⟨hnew,hsnap⟩ := h.device v bytes hd
    rw [hk.newest]
    exact ⟨hnew,fun f snap hf hkey => hsnap f snap ((hk.flushers f snap hkey).mp hf) hkey⟩
  · intro v bytes hn
    rw [hk.newest] at hn
    rcases h.kept v bytes hn with ⟨j,hv,hkj,hd,hver,hmem⟩ | ⟨f,snap,hf,hks,hrest⟩ | hdev
    · obtain ⟨hvt,hkt,hdt,hvert,hmemt⟩ := hk.pages j hv hkj (.inl hd)
      exact .inl ⟨j,hvt,hkt.trans hkj,hdt.trans hd,hvert.trans hver,hmemt.trans hmem⟩
    · exact .inr (.inl ⟨f,snap,(hk.flushers f snap hks).mpr hf,hks,hrest⟩)
    · exact .inr (.inr (hk.device.trans hdev))

section
variable {s t : State} (h : Flow s)
include h

lemma Flow.at_key (hc : Cache none t) (hw : s.writes ≤ t.writes) (key : CacheKey)
    (hother : ∀ k, k ≠ key → KeyKept s t k) (hkey : KeyFlow t key) : Flow t := by
  refine ⟨hc,fun k => ?_⟩
  by_cases hk : k = key
  · rw [hk]
    exact hkey
  · exact (h.keys k).keep (hother k hk) hw

lemma Flow.refile (hc : Cache none t) (hs : Soft s t)
    (hdirty : ∀ i, (t.pages i).dirty = (s.pages i).dirty) (hm : t.memory = s.memory)
    (hv : t.version = s.version) (hw : t.writes = s.writes) (hn : t.newest = s.newest)
    (hd : t.device = s.device) (hf : ∀ g, (t.flushers g).holding = (s.flushers g).holding) : Flow t :=
  ⟨hc,fun key => (h.keys key).keep (.of_soft hs hm hv hn (fun i _ => hdirty i)
    (fun f snap _ => by rw [hf]) (by rw [hd])) hw.ge⟩

end

lemma Placed.reads {s t : State} (hp : Placed refCount s t i key bytes dirty) {j : ℕ} (hj : j ≠ i)
    (hv : (s.pages j).valid = true) : Reads s t j := by
  have hsame := hp.other j hj
  refine ⟨?_,?_,?_,hp.version j hj,?_⟩ <;> rw [hsame]
  · exact hv
  · exact hp.kept j hj hv

section
variable {s t : State} (h : Flow s)
include h

lemma Flow.placed (hp : Placed refCount s t i key bytes dirty)
    (hclear : ∀ f snap, (s.flushers f).holding = some snap → snap.slot ≠ i) {k : CacheKey}
    (hk : k ≠ key ∨ dirty = false) (hn : t.newest k = s.newest k) : KeyKept s t k := by
  refine ⟨?_,?_,fun f snap _ => by rw [hp.flushers],hn,by rw [hp.device]⟩
  · rintro j hv - (hd | ⟨f,snap,hf,rfl⟩)
    · refine hp.reads (fun hj => ?_) hv
      have hclean := (hp.evicted (hj ▸ hv)).1
      rw [← hj,h.cache.dirty,hv,hd] at hclean
      cases hclean
    · exact hp.reads (hclear f snap hf) hv
  · intro j hv hkj hd
    have hj : j ≠ i := by
      rintro rfl
      rcases hk with hk | rfl
      · exact hk (hkj.symm.trans hp.keyed)
      · rw [hp.dirty] at hd
        cases hd
    rw [hp.other j hj] at hv hkj hd
    exact ⟨hv,hkj,hd⟩

variable (hc : Cache none t)
include hc

lemma Flow.quiet (hq : Quiet s t) : Flow t :=
  h.refile hc hq.soft (fun i => (hq.page i).dirty) hq.still.memory hq.still.version hq.still.writes
    hq.still.newest hq.still.device fun g => by rw [hq.still.flushers]

lemma Flow.clean (hp : Placed refCount s t i key bytes false)
    (hclear : ∀ f snap, (s.flushers f).holding = some snap → snap.slot ≠ i)
    (hn : t.newest = s.newest) (hw : t.writes = s.writes) : Flow t :=
  ⟨hc,fun key => (h.keys key).keep (h.placed hp hclear (.inr rfl) (by rw [hn])) hw.ge⟩

variable {src : Bytes}

lemma Flow.written (i : ℕ)
    (hself : (t.pages i).valid = true ∧ (t.pages i).key = key ∧ (t.pages i).dirty = true ∧
      t.version i = s.writes+1 ∧ t.memory (t.pages i).data = src)
    (hother : ∀ k, k ≠ key → KeyKept s t k)
    (hslot : ∀ f snap, (s.flushers f).holding = some snap → snap.key = key → snap.slot = i)
    (hw : t.writes = s.writes+1) (hn : t.newest = update s.newest key (some (s.writes+1,src)))
    (hfl : t.flushers = s.flushers) (hdev : t.device = s.device) : Flow t := by
  obtain ⟨hvi,hki,hdi,hveri,hmemi⟩ := hself
  have hnew : t.newest key = some (s.writes+1,src) := by rw [hn,update_self]
  refine h.at_key hc (by omega) key hother ⟨?_,?_,?_,?_,?_,?_⟩
  · intro v b hk
    rw [hnew] at hk
    cases hk
    exact hw.ge
  · intro j hv hk _
    rw [hc.keys j i hv hvi (hk.trans hki.symm),hnew,hveri,hmemi]
  · intro f snap hf hk
    rw [hfl] at hf
    obtain ⟨-,-,hold,hle,-⟩ := (h.keys _).held f snap hf rfl
    have hbound := (h.keys _).bound _ _ hold
    rw [hslot f snap hf hk] at hle hbound ⊢
    rw [hvi,hki,hnew,hveri,hmemi,hdi]
    exact ⟨rfl,rfl,rfl,by omega,nofun⟩
  · intro f g a b ha hb hka hkb
    rw [hfl] at ha hb
    exact (h.keys key).alone f g a b ha hb hka hkb
  · intro v b hk
    rw [hdev] at hk
    rw [hfl,hnew]
    obtain ⟨⟨v',b',hold,hle⟩,hsnap⟩ := (h.keys key).device v b hk
    have hbound := (h.keys key).bound v' b' hold
    exact ⟨⟨_,_,rfl,by omega⟩,hsnap⟩
  · intro v b hk
    rw [hnew] at hk
    cases hk
    exact .inl ⟨i,hvi,hki,hdi,hveri,hmemi⟩

lemma Flow.fresh (hp : Placed refCount s t i key src true)
    (hclear : ∀ f snap, (s.flushers f).holding = some snap → snap.slot ≠ i)
    (hv : t.version i = s.writes+1) (hw : t.writes = s.writes+1)
    (hn : t.newest = update s.newest key (some (s.writes+1,src))) : Flow t := by
  refine h.written hc i ⟨hp.valid,hp.keyed,hp.dirty,hv,hp.bytes⟩
    (fun k hk => h.placed hp hclear (.inl hk) (by rw [hn,update_of_ne hk])) ?_ hw hn hp.flushers hp.device
  intro f snap hf hk
  obtain ⟨hvs,hks,-⟩ := (h.keys _).held f snap hf rfl
  exact absurd (hks.trans hk) (hp.fresh _ hvs)

lemma Flow.wrote (ho : Overwritten s t i src) : Flow t := by
  obtain ⟨referenced,hself⟩ := ho.marked.self
  refine h.written hc i ⟨?_,?_,?_,?_,?_⟩ (fun k hk => ?_) ?_ ho.writes ho.newest ho.flushers ho.device
  · rw [hself]
    exact ho.valid
  · rw [hself]
  · rw [hself]
  · rw [ho.version,update_self]
  · rw [hself]
    exact ho.bytes
  · refine ⟨?_,?_,fun f snap _ => by rw [ho.flushers],by rw [ho.newest,update_of_ne hk],by rw [ho.device]⟩
    · intro j hv hkj _
      have hj : j ≠ i := fun heq => hk (by rw [← hkj,heq])
      have hsame := ho.marked.other j hj
      refine ⟨?_,?_,?_,?_,?_⟩ <;> try rw [hsame]
      · exact hv
      · rw [ho.version,update_of_ne hj]
      · exact ho.kept j hj hv
    · intro j hv hkj hd
      have hj : j ≠ i := fun heq => hk (by rw [← hkj,heq,hself])
      rw [ho.marked.other j hj] at hv hkj hd
      exact ⟨hv,hkj,hd⟩
  · intro f snap hf hk
    obtain ⟨hv,hks,-⟩ := (h.keys _).held f snap hf rfl
    exact h.cache.keys _ i hv ho.valid (hks.trans hk)

lemma Flow.effect (he : Effect refCount s t)
    (hstay : ∀ f snap, (s.flushers f).holding = some snap → holds t snap.key snap.slot = true) :
    Flow t ∧ t.device = s.device := by
  have hclear : ∀ {i key bytes dirty}, Placed refCount s t i key bytes dirty →
      ∀ f snap, (s.flushers f).holding = some snap → snap.slot ≠ i := by
    intro i key bytes dirty hp f snap hf heq
    have hin := hstay f snap hf
    obtain ⟨hv,hk,-⟩ := (h.keys _).held f snap hf rfl
    rw [holds,heq,hp.keyed] at hin
    simp only [Bool.and_eq_true,decide_eq_true_eq] at hin
    exact hp.fresh _ hv (hk.trans hin.2.symm)
  cases he with
  | quiet hq => exact ⟨h.quiet hc hq,hq.still.device⟩
  | clean i key bytes hp hn hw => exact ⟨h.clean hc hp (hclear hp) hn hw,hp.device⟩
  | fresh i key src hp hv hw hn => exact ⟨h.fresh hc hp (hclear hp) hv hw hn,hp.device⟩
  | wrote i src ho => exact ⟨h.wrote hc ho,ho.device⟩

end

end MoQiOS.PageCache
