import MoQiOS.IpcAnswers

/-!
# Runs with calls

A failed send is rolled back under no guard and leaves a parked reply where it
is. Without a reply parked at that moment every call gets its own reply.
-/

namespace MoQiOS.Ipc
open Runs

/-- No reply is parked when the send of its call is rolled back. -/
def RollbackClear (s : State) : Op → Prop
  | .resume idx =>
    match s.pc idx with
    | .callRollback c _ => (s.endpoints c.callerEp).replyMsg = none
    | _ => True
  | _ => True

def ClearNext : State → Env×Op → State → Prop :=
  Guarded (fun s c => Ready s c.2 ∧ RollbackClear s c.2) perform

section
variable {s : State} (h : CallOk s)
include h

lemma CallOk.sent {t : ℕ} {c : Call} (hc : inCall (s.pc t) = some c)
    (hs : sending (s.pc t) = some c) (err : IpcError) :
    CallOk (if err = .success then s.goto t (.callPost c) else s.goto t (.callRollback c err)) := by
  split_ifs
  · exact h.advance hc rfl (.inr hs.symm) (fun _ hp => by cases hp)
  · exact h.advance hc rfl (.inr hs.symm) (fun _ hp => by cases hp)

lemma CallOk.outside {t : ℕ} {r : State×Option IpcError} {p : Pc} (ht : s.pc t = .idle)
    (hp : inCall p = none) : Calm (fun _ => False) s r.1 →
    CallOk (match r with | (u,none) => u.goto t p | (u,some err) => u.finish t err) := by
  intro hcalm
  have hsent := h.calm_all hcalm
  have hpc : inCall (r.1.pc t) = none := by
    rw [hcalm.pc,ht]
    rfl
  rcases r with ⟨u,_ | err⟩
  · exact hsent.goto_outside hpc hp
  · exact hsent.finish_outside hpc err

lemma CallOk.resume (env : Env) (t : ℕ) (hclear : RollbackClear s (.resume t)) :
    CallOk (resume env s t) := by
  rw [RollbackClear] at hclear
  rw [Ipc.resume]
  rcases hpc : s.pc t with _ | ⟨ep,_ | c⟩ | ep | c | ⟨c,err⟩ | c | c | ⟨c,err⟩ | ⟨c,m⟩ | ⟨c,err,lower⟩
  · exact h
  · have hwake : CallOk (sendWake env s t).1 := h.calm_all (.setTask (.refl s) rfl)
    exact hwake.finish_outside (by rw [sendWake]; exact congrArg inCall hpc) _
  · have hwake : CallOk (sendWake env s t).1 := h.calm_all (.setTask (.refl s) rfl)
    exact hwake.sent (congrArg inCall hpc) (congrArg sending hpc) _
  · have hcalm : Calm (fun _ => False) s _ := (receiveWake_handles env s t ep).1
    refine (h.calm_all hcalm).finish_outside ?_ _
    rw [hcalm.pc,hpc]
    rfl
  · have hcalm : Calm (fun _ => False) s _ :=
      (sendInternal_handles env s t c.targetEp c.msg c.requireCap).1
    have hsent := h.calm_all hcalm
    have hpc' := hcalm.pc
    dsimp only
    generalize sendInternal env s t c.targetEp c.msg c.requireCap = r at hsent hpc'
    have hin : inCall (r.1.pc t) = some c := by rw [hpc',hpc]; rfl
    have hsend : sending (r.1.pc t) = some c := by rw [hpc',hpc]; rfl
    rcases r with ⟨u,_ | err⟩
    · exact hsent.advance hin rfl (.inr hsend.symm) (fun _ hp => by cases hp)
    · exact hsent.sent hin hsend err
  · rw [hpc] at hclear
    exact h.rollback hpc hclear
  · exact h.postSend env hpc
  · exact h.callWake hpc
  · exact h.takeReply env hpc
  · exact h.finishCall hpc
  · exact h.cancelCall hpc

lemma CallOk.exit (t : ℕ) : CallOk ((clearEndpointsForTask s t).goto t .idle) := by
  obtain ⟨u,heq,hcalm,hcleared⟩ := clearEndpointsForTask_settles s t
  rw [heq]
  have hother : ∀ v d, inCall (((u.setTask t noTask).goto t .idle).pc v) = some d →
      v ≠ t ∧ inCall (s.pc v) = some d := by
    intro v d hd
    by_cases hv : v = t
    · rw [hv,goto_pc_self] at hd
      cases hd
    · rw [goto_pc_of_ne _ _ hv] at hd
      exact ⟨hv,hcalm.pc ▸ hd⟩
  refine h.keep ?_ ?_ ?_ ?_ hcalm.answered hcalm.trapped
  · intro v
    by_cases hv : v = t
    · exact .inr (by rw [hv,goto_pc_self]; rfl)
    · exact .inl (by rw [goto_pc_of_ne _ _ hv]; exact congrFun hcalm.pc v)
  · intro v d hd
    have hv := (hother v d (sending_inCall hd)).1
    exact (congrArg TaskState.callDepth (setTask_tasks_of_ne u noTask hv)).trans (hcalm.depth v)
  · intro v d hd hend
    by_cases hv : v = t
    · obtain ⟨hmem,hactive,howner⟩ := h.owner v d hd
      exact hcleared _ hmem (by rw [owns,hactive,howner,hv]; simp)
    · rw [goto_pc_of_ne _ _ hv,State.setTask,hcalm.pc,hd] at hend
      cases hend
  · intro i
    rcases hcalm.endpoints i with hq | ⟨hc,howner⟩
    · exact .inl hq
    refine .inr ⟨hc,fun v d hd heq => ?_⟩
    obtain ⟨hv,hd⟩ := hother v d hd
    have hits := (h.owner v d hd).2.2
    rw [heq,howner] at hits
    exact hv (Option.some.inj hits).symm

lemma CallOk.step {c : Env×Op} (hready : Ready s c.2) (hclear : RollbackClear s c.2) :
    CallOk (step c.1 s c.2) := by
  obtain ⟨env,op⟩ := c
  cases op with
  | create owner =>
    refine h.calm (createEndpoint_settles env s owner).toCalm (fun i hi t c hc heq => ?_)
    have hactive := (h.owner t c hc).2.1
    rw [heq,hi] at hactive
    cases hactive
  | destroy ep caller =>
    refine h.calm (destroyEndpoint_settles env s ep caller).toCalm (fun i hi t c hc heq => ?_)
    have howner := (h.owner t c hc).2.2
    rw [heq,hi] at howner
    cases Option.some.inj howner
    rw [show s.pc caller = .idle from hready] at hc
    cases hc
  | exit t => exact h.exit t
  | send caller ep msg requireCap =>
    exact h.outside hready rfl (sendInternal_handles env s caller ep msg requireCap).1
  | receive caller ep requireCap =>
    exact h.outside hready rfl (receiveInternal_handles env s caller ep requireCap).1
  | call caller ep msg requireCap =>
    exact h.callInternal env (by rw [show s.pc caller = .idle from hready]; rfl) ep msg requireCap
  | resume t => exact h.resume env t hclear
  | reply callee msg => exact h.replyToken env callee msg
  | notify ep bits requireCap => exact h.calm_all (notifyInternal_settles env s ep bits requireCap).toCalm
  | getNotify ep => exact h.calm_all (getNotify_settles s ep).toCalm
  | tick live => exact h.calm_all (timeoutTick_settles env.now live s).toCalm

end

lemma reached_callOk {s : State} (h : Reaches ClearNext start s) : CallOk s := by
  refine invariant (fun u c v hu hn => ?_) h start_callOk
  obtain ⟨⟨hready,hclear⟩,rfl⟩ := hn
  exact hu.step hready hclear

/-- Calls that succeed return their own replies, and the depth never goes
below zero. -/
def CallsMatched (s : State) : Prop :=
  (∀ a ∈ s.answered, a.reply.replyTo = a.token ∧ a.replyNo = a.number) ∧ s.trapped = false

theorem calls_get_their_replies {s : State} (h : Reaches ClearNext start s) : CallsMatched s :=
  ⟨(reached_callOk h).answered,(reached_callOk h).safe⟩

instance decidableRollbackClear (s : State) : ∀ op, Decidable (RollbackClear s op)
  | .resume idx => by
    rw [RollbackClear]
    cases s.pc idx <;> infer_instance
  | .create _ | .destroy _ _ | .exit _ | .send _ _ _ _ | .receive _ _ _ | .call _ _ _ _
  | .reply _ _ | .notify _ _ _ | .getNotify _ | .tick _ => .isTrue trivial

def callAndReply : List (Env×Op) :=
  let env : Env := ⟨true,some 1,some 1,false,false,1⟩
  [(env,.create 1),(env,.create 2),(env,.call 1 2 ⟨0,0,[7]⟩ true),(env,.resume 1),
    (env,.receive 2 2 true),(env,.reply 2 ⟨2,1,[9]⟩)]

theorem calls_get_their_replies_once :
    let s := run perform start (callAndReply++[(⟨true,some 1,some 1,false,false,1⟩,.resume 1),
      (⟨true,some 1,some 1,false,false,1⟩,.resume 1)])
    (s.answered.map (fun a => (a.number,a.token,a.reply.body))) = [(0,1,[9])] ∧ CallsMatched s :=
  ⟨by decide,
    calls_get_their_replies (run_reaches (.start ClearNext start) (by decide))⟩

/-- The reply arrives while the caller is still in its send, and a signal makes
the send fail. -/
theorem late_rollback_underflows : ∃ s, Reaches Next start s ∧ ¬CallsMatched s :=
  ⟨run perform start (callAndReply++[(⟨true,some 1,some 1,false,true,1⟩,.resume 1),
      (⟨true,some 1,some 1,false,true,1⟩,.resume 1)]),
    run_reaches (.start Next start) (by decide),
    fun h => absurd h.2 (by decide)⟩

end MoQiOS.Ipc
