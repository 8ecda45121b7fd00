import MoQiOS.IpcReplies

/-!
# Every answer belongs to its call

The run invariant of calls, kept by every section as long as a failed send is
rolled back before the reply to its call is parked.
-/

namespace MoQiOS.Ipc
open Runs Function List Option

lemma setTask_tasks_of_ne (s : State) {i j : ℕ} (t : TaskState) (h : j ≠ i) :
    (s.setTask i t).tasks j = s.tasks j := by simp [State.setTask,h]

lemma goto_pc_self (s : State) (i : ℕ) (p : Pc) : (s.goto i p).pc i = p := by simp [State.goto]

lemma goto_pc_of_ne (s : State) {i j : ℕ} (p : Pc) (h : j ≠ i) : (s.goto i p).pc j = s.pc j := by
  simp [State.goto,h]

section
variable {s s' : State} (h : CallOk s)
include h

/-- Calls are continued or ended. What an ended call leaves is cleared, and no
call goes on at an endpoint that is cleared. -/
lemma CallOk.keep (hpc : ∀ t, s'.pc t = s.pc t ∨ inCall (s'.pc t) = none)
    (hdepth : ∀ t c, sending (s'.pc t) = some c → (s'.tasks t).callDepth = (s.tasks t).callDepth)
    (hend : ∀ t c, inCall (s.pc t) = some c → inCall (s'.pc t) = none →
      Cleared (s'.endpoints c.callerEp))
    (heps : ∀ i, Quiet (s.endpoints i) (s'.endpoints i) ∨ (Cleared (s'.endpoints i) ∧
      ∀ t c, inCall (s'.pc t) = some c → c.callerEp ≠ i))
    (hans : s'.answered = s.answered) (htrap : s'.trapped = s.trapped) : CallOk s' := by
  have hsame : ∀ t c, inCall (s'.pc t) = some c →
      s'.pc t = s.pc t ∧ Quiet (s.endpoints c.callerEp) (s'.endpoints c.callerEp) :=
    fun t c hc => ⟨(hpc t).resolve_right (by simp [hc]),
      (heps c.callerEp).resolve_right fun hq => hq.2 t c hc rfl⟩
  -- The call of a parked reply or an outstanding token has not ended.
  have hgoes : ∀ t c, inCall (s.pc t) = some c → ¬Cleared (s'.endpoints c.callerEp) →
      inCall (s'.pc t) = some c := by
    intro t c hc hopen
    rcases hpc t with hp | hp
    · rw [hp,hc]
    · exact absurd (hend t c hc hp) hopen
  refine ⟨?_,?_,?_,?_,?_,hans ▸ h.answered,htrap ▸ h.safe⟩
  · intro t c hc
    obtain ⟨hp,hq⟩ := hsame t c hc
    rw [hq.active,hq.owner]
    exact h.owner t c (hp ▸ hc)
  · intro i m hm
    have hopen : ¬Cleared (s'.endpoints i) := fun hc => by simp [hc.1] at hm
    have hq := (heps i).resolve_right (fun hc => hopen hc.1)
    obtain ⟨htoken,t,c,hc,rfl,hno,hto⟩ := h.reply i m (hq.replyMsg ▸ hm)
    refine ⟨?_,t,c,hgoes t c hc hopen,rfl,hq.replyNo.trans hno,hto⟩
    rcases hq.token with ht | ht
    · exact ht.trans htoken
    · exact ht
  · intro i hi
    have hopen : ¬Cleared (s'.endpoints i) := fun hc => hi hc.2
    have hq := (heps i).resolve_right (fun hc => hopen hc.1)
    have ht := hq.token.resolve_right hi
    obtain ⟨t,c,hc,rfl,htoken,hno⟩ := h.token i (ht ▸ hi)
    exact ⟨t,c,hgoes t c hc hopen,rfl,ht.trans htoken,hq.callNo.trans hno⟩
  · intro t c hc hnone
    obtain ⟨hp,hq⟩ := hsame t c (sending_inCall hc)
    rw [hdepth t c hc]
    exact h.depth t c (hp ▸ hc) (hq.replyMsg ▸ hnone)
  · intro t c m hc
    obtain ⟨hp,hq⟩ := hsame t c (by rw [hc]; rfl)
    exact hq.cleared (h.taken t c m (hp ▸ hc))

lemma CallOk.calm {free : ℕ → Prop} (hm : Calm free s s')
    (hfree : ∀ i, free i → ∀ t c, inCall (s.pc t) = some c → c.callerEp ≠ i) : CallOk s' := by
  refine h.keep (fun t => .inl (by rw [hm.pc])) (fun t _ _ => hm.depth t) ?_ ?_ hm.answered hm.trapped
  · intro t c hc hend
    rw [hm.pc,hc] at hend
    cases hend
  · intro i
    rw [hm.pc]
    exact (hm.endpoints i).imp_right fun hi => ⟨hi.1,hfree i hi.2⟩

lemma CallOk.calm_all (hm : Calm (fun _ => False) s s') : CallOk s' :=
  h.calm hm (fun _ hi => hi.elim)

variable {t : ℕ}

/-- A task that is in no call moves without entering one. -/
lemma CallOk.goto_outside {p : Pc} (ht : inCall (s.pc t) = none) (hp : inCall p = none) :
    CallOk (s.goto t p) := by
  refine h.keep ?_ (fun _ _ _ => rfl) ?_ (fun i => .inl (.refl _)) rfl rfl
  · intro u
    by_cases hu : u = t
    · exact .inr (by rw [hu,goto_pc_self,hp])
    · exact .inl (goto_pc_of_ne s p hu)
  · intro u c hc hend
    by_cases hu : u = t
    · rw [hu,ht] at hc
      cases hc
    · rw [goto_pc_of_ne s p hu,hc] at hend
      cases hend

lemma CallOk.finish_outside (ht : inCall (s.pc t) = none) (err : IpcError) :
    CallOk (s.finish t err) := by
  have hgo := h.goto_outside ht (p := .idle) rfl
  exact ⟨hgo.owner,hgo.reply,hgo.token,hgo.depth,hgo.taken,hgo.answered,hgo.safe⟩

variable {c : Call}

lemma CallOk.same_task {t u : ℕ} {c d : Call} (hc : inCall (s.pc t) = some c)
    (hd : inCall (s.pc u) = some d) (heq : d.callerEp = c.callerEp) : u = t := by
  have hits := (h.owner u d hd).2.2
  rw [heq,(h.owner t c hc).2.2] at hits
  exact (some.inj hits).symm

lemma CallOk.exchange {i : ℕ} {p : Pc} {e : Endpoint} (hpc : s'.pc = update s.pc t p)
    (heps : s'.endpoints = update s.endpoints i e) (htasks : ∀ u, u ≠ t → s'.tasks u = s.tasks u)
    (hans : s'.answered = s.answered) (htrap : s'.trapped = s.trapped)
    (howner : (s.endpoints i).ownerTaskIdx = some t)
    (hold : ∀ d, inCall (s.pc t) = some d → d.callerEp = i)
    (hnew : ∀ d, inCall p = some d → d.callerEp = i ∧ i ∈ endpointIds ∧ e.active = true ∧
      e.ownerTaskIdx = some t)
    (hreply : ∀ m, e.replyMsg = some m → e.replyToken = 0 ∧
      ∃ d, inCall p = some d ∧ e.replyNo = d.number ∧ m.replyTo = d.token)
    (htoken : e.replyToken ≠ 0 → ∃ d, inCall p = some d ∧ e.replyToken = d.token ∧ e.callNo = d.number)
    (hdepth : ∀ d, sending p = some d → e.replyMsg = none → 1 ≤ (s'.tasks t).callDepth)
    (htaken : ∀ d m, p = .callTaken d m → Cleared e) : CallOk s' := by
  have hself : s'.pc t = p := by rw [hpc,update_self]
  have hpcu : ∀ u, u ≠ t → s'.pc u = s.pc u := fun u hu => by rw [hpc,update_of_ne hu]
  have hei : s'.endpoints i = e := by rw [heps,update_self]
  have hne : ∀ j, j ≠ i → s'.endpoints j = s.endpoints j := fun j hj => by rw [heps,update_of_ne hj]
  have hfar : ∀ u d, u ≠ t → inCall (s.pc u) = some d → d.callerEp ≠ i := by
    rintro u d hu hd rfl
    have hits := (h.owner u d hd).2.2
    rw [howner] at hits
    exact hu (some.inj hits).symm
  have hkept : ∀ u d, inCall (s.pc u) = some d → d.callerEp ≠ i → inCall (s'.pc u) = some d := by
    intro u d hd hdi
    rw [hpcu u fun hu => hdi (hold d (hu ▸ hd)),hd]
  refine ⟨?_,?_,?_,?_,?_,hans ▸ h.answered,htrap ▸ h.safe⟩
  · intro u d hd
    by_cases hu : u = t
    · rw [hu,hself] at hd
      rw [(hnew d hd).1,hei,hu]
      exact (hnew d hd).2
    · rw [hpcu u hu] at hd
      rw [hne _ (hfar u d hu hd)]
      exact h.owner u d hd
  · intro j m hj
    by_cases hji : j = i
    · rw [hji,hei] at hj ⊢
      obtain ⟨hzero,d,hd,hrest⟩ := hreply m hj
      exact ⟨hzero,t,d,hself ▸ hd,(hnew d hd).1,hrest⟩
    · rw [hne j hji] at hj ⊢
      obtain ⟨hzero,u,d,hd,rfl,hrest⟩ := h.reply j m hj
      exact ⟨hzero,u,d,hkept u d hd hji,rfl,hrest⟩
  · intro j hj
    by_cases hji : j = i
    · rw [hji,hei] at hj ⊢
      obtain ⟨d,hd,hrest⟩ := htoken hj
      exact ⟨t,d,hself ▸ hd,(hnew d hd).1,hrest⟩
    · rw [hne j hji] at hj ⊢
      obtain ⟨u,d,hd,rfl,hrest⟩ := h.token j hj
      exact ⟨u,d,hkept u d hd hji,rfl,hrest⟩
  · intro u d hd hnone
    by_cases hu : u = t
    · rw [hu,hself] at hd
      rw [(hnew d (sending_inCall hd)).1,hei] at hnone
      exact hu ▸ hdepth d hd hnone
    · rw [hpcu u hu] at hd
      rw [hne _ (hfar u d hu (sending_inCall hd))] at hnone
      rw [htasks u hu]
      exact h.depth u d hd hnone
  · intro u d m hd
    by_cases hu : u = t
    · rw [hu,hself] at hd
      rw [(hnew d (by rw [hd]; rfl)).1,hei]
      exact htaken d m hd
    · rw [hpcu u hu] at hd
      rw [hne _ (hfar u d hu (by rw [hd]; rfl))]
      exact h.taken u d m hd

lemma CallOk.reply_matches (hc : inCall (s.pc t) = some c) {m : Message}
    (hm : (s.endpoints c.callerEp).replyMsg = some m) :
    (s.endpoints c.callerEp).replyNo = c.number ∧ m.replyTo = c.token := by
  obtain ⟨-,u,d,hd,hep,hno,hto⟩ := h.reply _ m hm
  rw [h.same_task hc hd hep,hc] at hd
  cases some.inj hd
  exact ⟨hno,hto⟩

lemma CallOk.onward {p : Pc} (hc : inCall (s.pc t) = some c) (hp : inCall p = some c)
    (hpc : s'.pc = update s.pc t p) (heps : s'.endpoints = s.endpoints)
    (htasks : ∀ u, u ≠ t → s'.tasks u = s.tasks u)
    (hans : s'.answered = s.answered) (htrap : s'.trapped = s.trapped)
    (hdepth : sending p = some c → (s.endpoints c.callerEp).replyMsg = none →
      1 ≤ (s'.tasks t).callDepth)
    (htaken : ∀ m, p = .callTaken c m → Cleared (s.endpoints c.callerEp)) : CallOk s' := by
  refine h.exchange hpc (heps.trans (update_eq_self c.callerEp _).symm) htasks hans htrap
    (h.owner t c hc).2.2 (fun d hd => ?_) (fun d hd => ?_)
    (fun m hm => ⟨(h.reply _ m hm).1,c,hp,h.reply_matches hc hm⟩) (fun hz => ?_)
    (fun d hd => ?_) (fun d m hd => ?_)
  · rw [hc] at hd
    rw [some.inj hd]
  · rw [hp] at hd
    cases hd
    exact ⟨rfl,h.owner t c hc⟩
  · obtain ⟨u,d,hd,hep,hrest⟩ := h.token _ hz
    rw [h.same_task hc hd hep,hc] at hd
    cases some.inj hd
    exact ⟨c,hp,hrest⟩
  · have hd' := sending_inCall hd
    rw [hp] at hd'
    cases hd'
    exact hdepth hd
  · rw [hd] at hp
    cases hp
    exact htaken m hd

lemma CallOk.advance {p : Pc} (hc : inCall (s.pc t) = some c)
    (hp : inCall p = some c) (hs : sending p = none ∨ sending p = sending (s.pc t))
    (hm : ∀ m, p = .callTaken c m → Cleared (s.endpoints c.callerEp)) : CallOk (s.goto t p) := by
  refine h.onward hc hp rfl rfl (fun _ _ => rfl) rfl rfl (fun hd => ?_) hm
  rcases hs with hs | hs
  · rw [hs] at hd
    cases hd
  · exact h.depth t c (hs ▸ hd)

variable (hc : inCall (s.pc t) = some c)
include hc

lemma CallOk.leave {e : Endpoint}
    (he : e.replyMsg = none ∧ e.replyToken = 0) (hend : s'.pc = update s.pc t .idle)
    (htasks : ∀ u, u ≠ t → s'.tasks u = s.tasks u)
    (heps : s'.endpoints = update s.endpoints c.callerEp e)
    (hans : s'.answered = s.answered) (htrap : s'.trapped = s.trapped) : CallOk s' := by
  refine h.exchange hend heps htasks hans htrap (h.owner t c hc).2.2 (fun d hd => ?_) nofun
    (fun m hm => ?_) (fun hz => absurd he.2 hz) nofun nofun
  · rw [hc] at hd
    rw [some.inj hd]
  · rw [he.1] at hm
    cases hm

lemma CallOk.answer {m : Message}
    (hm : (s.endpoints c.callerEp).replyMsg = some m) : CallOk (answer s c m) := by
  refine ⟨h.owner,h.reply,h.token,h.depth,h.taken,?_,h.safe⟩
  intro a ha
  rcases mem_append.mp ha with ha | ha
  · exact h.answered a ha
  obtain ⟨hno,hto⟩ := h.reply_matches hc hm
  rw [mem_singleton.mp ha]
  exact ⟨hto,hno⟩

omit hc

lemma CallOk.park {i owner : ℕ} {msg : Message} {t : TaskState} (hzero : msg.replyTo ≠ 0)
    (htoken : (s.endpoints i).replyToken = msg.replyTo)
    (howner : (s.endpoints i).ownerTaskIdx = some owner) :
    CallOk ((s.setTask owner t).setEndpoint i {(s.endpoints i).clearCall with
      replyMsg := some msg, replyNo := (s.endpoints i).callNo}) := by
  obtain ⟨u,c,hc,rfl,hto,hno⟩ := h.token i (htoken ▸ hzero)
  obtain ⟨-,-,hown⟩ := h.owner u c hc
  rw [howner] at hown
  cases some.inj hown
  refine h.exchange (p := s.pc owner) (update_eq_self _ _).symm rfl
    (fun v hv => setTask_tasks_of_ne s t hv) rfl rfl howner (fun d hd => ?_) (fun d hd => ?_)
    (fun m hm => ?_) (fun hz => absurd rfl hz) nofun (fun d m hd => ?_)
  · rw [hc] at hd
    rw [some.inj hd]
  · rw [hc] at hd
    cases some.inj hd
    exact ⟨rfl,h.owner owner c hc⟩
  · cases hm
    exact ⟨rfl,c,hc,hno,htoken ▸ hto⟩
  · have hclear := h.taken owner d m hd
    rw [hd] at hc
    cases hc
    exact absurd (htoken.symm.trans hclear.2) hzero

variable {err : IpcError}

lemma CallOk.rollback (hpc : s.pc t = .callRollback c err)
    (hnone : (s.endpoints c.callerEp).replyMsg = none) : CallOk (rollback s t c err) := by
  have hd := h.depth t c (by rw [hpc]; rfl) hnone
  rw [Ipc.rollback,lowerDepth,if_neg (by exact Nat.one_le_iff_ne_zero.mp hd)]
  exact h.leave (c := c) (by rw [hpc]; rfl) (e := (s.endpoints c.callerEp).clearCall) ⟨hnone,rfl⟩ rfl
    (fun u hu => setTask_tasks_of_ne _ _ hu) rfl rfl rfl

lemma CallOk.postSend (env : Env) (hpc : s.pc t = .callPost c) : CallOk (postSend env s t c) := by
  have hc : inCall (s.pc t) = some c := by rw [hpc]; rfl
  simp only [Ipc.postSend]
  split
  · rename_i reply hm
    exact (h.answer hc hm).leave (t := t) (c := c) hc
      (e := {(s.endpoints c.callerEp).clearCall with replyMsg := none}) ⟨rfl,rfl⟩ rfl
      (fun u hu => setTask_tasks_of_ne _ _ hu) rfl rfl rfl
  rename_i hnone
  have hd := h.depth t c (by rw [hpc]; rfl) hnone
  split
  · exact h.leave hc (e := (s.endpoints c.callerEp).clearCall) ⟨hnone,rfl⟩ rfl
      (fun u hu => setTask_tasks_of_ne _ _ hu) rfl rfl rfl
  split
  · rw [lowerDepth,if_neg (by exact Nat.one_le_iff_ne_zero.mp hd)]
    exact h.leave hc (e := (s.endpoints c.callerEp).clearCall) ⟨hnone,rfl⟩ rfl
      (fun u hu => setTask_tasks_of_ne _ _ hu) rfl rfl rfl
  · refine CallOk.advance (h.calm_all ?_) hc rfl (.inl rfl) (fun _ hm => by cases hm)
    exact .setTask (.refl s) rfl

lemma CallOk.callWake (hpc : s.pc t = .callBlocked c) : CallOk (callWake s t c) := by
  have hc : inCall (s.pc t) = some c := by rw [hpc]; rfl
  -- From here on the depth of the caller is lowered under a guard only.
  exact h.onward hc rfl rfl rfl (fun u hu => setTask_tasks_of_ne s _ hu) rfl rfl nofun nofun

lemma CallOk.takeReply (env : Env)
    (hpc : s.pc t = .callWoken c err) : CallOk (takeReply env s t c err) := by
  have hc : inCall (s.pc t) = some c := by rw [hpc]; rfl
  simp only [Ipc.takeReply]
  split
  · rename_i reply hm
    have htoken := (h.reply _ reply hm).1
    refine (h.answer hc hm).exchange rfl rfl (fun _ _ => rfl) rfl rfl (h.owner t c hc).2.2
      (fun d hd => ?_) (fun d hd => ?_) (fun _ hm => by cases hm) (fun hz => absurd htoken hz)
      (fun _ hd => by cases hd) (fun _ _ _ => ⟨rfl,htoken⟩)
    · rw [show (Ipc.answer s c reply).pc = s.pc from rfl,hc] at hd
      rw [some.inj hd]
    · cases hd
      exact ⟨rfl,h.owner t c hc⟩
  · split_ifs <;> exact h.advance hc rfl (.inl rfl) (fun _ hm => by cases hm)

lemma CallOk.finishCall {m : Message} (hpc : s.pc t = .callTaken c m) :
    CallOk (finishCall s t) := by
  have hc : inCall (s.pc t) = some c := by rw [hpc]; rfl
  refine h.leave hc (e := s.endpoints c.callerEp) (h.taken t c m hpc) rfl
    (fun u hu => setTask_tasks_of_ne _ _ hu) ?_ rfl rfl
  exact (update_eq_self _ _).symm

lemma CallOk.cancelCall {lower : Bool}
    (hpc : s.pc t = .callCancel c err lower) : CallOk (cancelCall s t c err lower) :=
  h.leave (c := c) (by rw [hpc]; rfl)
    (e := {(s.endpoints c.callerEp).clearCall with replyMsg := none}) ⟨rfl,rfl⟩ rfl
    (fun u hu => setTask_tasks_of_ne _ _ hu) rfl rfl rfl

lemma CallOk.callInternal (env : Env) (ht : inCall (s.pc t) = none) (targetEp : ℕ)
    (msg : Message) (requireCap : Bool) : CallOk (callInternal env s t targetEp msg requireCap) := by
  simp only [Ipc.callInternal]
  split
  · exact h.finish_outside ht _
  split
  · exact h.finish_outside ht _
  split
  · exact h.finish_outside ht _
  rename_i callerEp hfound
  split_ifs
  iterate 5 exact h.finish_outside ht _
  have hmem := mem_of_find?_eq_some hfound
  have hown := find?_some hfound
  rw [Bool.and_eq_true,decide_eq_true_eq] at hown
  refine h.exchange rfl rfl (fun u hu => setTask_tasks_of_ne _ _ hu) rfl rfl hown.2 (fun d hd => ?_)
    (fun d hd => ?_) (fun m hm => ?_) (fun _ => ⟨_,rfl,rfl,rfl⟩) (fun _ _ _ => ?_)
    (fun _ _ hd => by cases hd)
  · rw [ht] at hd
    cases hd
  · cases hd
    exact ⟨rfl,hmem,hown⟩
  · -- A reply there would belong to a call of this task.
    obtain ⟨-,u,d,hd,rfl,-⟩ := h.reply callerEp m hm
    have hits := (h.owner u d hd).2.2
    rw [hown.2] at hits
    rw [← some.inj hits,ht] at hd
    cases hd
  · simp [State.setTask,State.goto]

lemma CallOk.replyToken (env : Env) (callee : ℕ) (msg : Message) :
    CallOk (replyToken env s callee msg) := by
  simp only [Ipc.replyToken]
  split
  · exact h
  rename_i hzero
  split
  · exact h
  rename_i i hfound
  split
  · exact h
  split
  · exact h
  split
  · exact h
  rename_i owner howner
  split
  · exact h
  split
  · exact h
  have hsent := find?_some hfound
  rw [Bool.and_eq_true,decide_eq_true_eq] at hsent
  exact h.park hzero hsent.2 howner

end

end MoQiOS.Ipc
