import MoQiOS.IpcRuns

/-!
# Calls and the replies they return

A task inside a call owns the endpoint its reply is parked at. A parked reply
or an outstanding token at an endpoint belongs to the call its owner is in.
-/

namespace MoQiOS.Ipc
open Runs

def inCall : Pc → Option Call
  | .sendBlocked _ ctx => ctx
  | .callSend c | .callRollback c _ | .callPost c | .callBlocked c | .callWoken c _ | .callTaken c _
  | .callCancel c _ _ => some c
  | .idle | .receiveBlocked _ => none

/-- The part of a call whose decrements of the depth are not guarded. -/
def sending : Pc → Option Call
  | .sendBlocked _ ctx => ctx
  | .callSend c | .callRollback c _ | .callPost c => some c
  | _ => none

structure CallOk (s : State) : Prop where
  owner : ∀ t c, inCall (s.pc t) = some c → c.callerEp ∈ endpointIds ∧
    (s.endpoints c.callerEp).active = true ∧ (s.endpoints c.callerEp).ownerTaskIdx = some t
  reply : ∀ i m, (s.endpoints i).replyMsg = some m → (s.endpoints i).replyToken = 0 ∧
    ∃ t c, inCall (s.pc t) = some c ∧ c.callerEp = i ∧ (s.endpoints i).replyNo = c.number ∧
      m.replyTo = c.token
  token : ∀ i, (s.endpoints i).replyToken ≠ 0 →
    ∃ t c, inCall (s.pc t) = some c ∧ c.callerEp = i ∧ (s.endpoints i).replyToken = c.token ∧
      (s.endpoints i).callNo = c.number
  depth : ∀ t c, sending (s.pc t) = some c → (s.endpoints c.callerEp).replyMsg = none →
    1 ≤ (s.tasks t).callDepth
  taken : ∀ t c m, s.pc t = .callTaken c m → Cleared (s.endpoints c.callerEp)
  answered : ∀ a ∈ s.answered, a.reply.replyTo = a.token ∧ a.replyNo = a.number
  safe : s.trapped = false

lemma start_callOk : CallOk start := by
  constructor <;> simp [start,inCall,sending,emptyEndpoint]

lemma sending_inCall {p : Pc} {c : Call} (h : sending p = some c) : inCall p = some c := by
  cases p <;> first | exact h | cases h

end MoQiOS.Ipc
