import Mathlib

/-!
# Programs over cells

Code with a control state that reads and writes the cells of a memory one at a
time. Code that reads only cells it has written cannot tell two memories apart.
-/

namespace MoQiOS.Cells
open Function

inductive Prog (C V S O : Type) where
  | done (state : S) (out : O)
  | read (cell : C) (next : V → Prog C V S O)
  | write (cell : C) (value : V) (next : Prog C V S O)

section
variable {C V S O I : Type} [DecidableEq C]

structure Outcome (C V S O : Type) where
  state : S
  out : O
  memory : C → V

def exec : Prog C V S O → (C → V) → Outcome C V S O
  | .done state out, memory => ⟨state,out,memory⟩
  | .read cell next, memory => exec (next (memory cell)) memory
  | .write cell value next, memory => exec next (update memory cell value)

def written : Prog C V S O → (C → V) → Set C → Set C
  | .done _ _, _, cells => cells
  | .read cell next, memory, cells => written (next (memory cell)) memory cells
  | .write cell value next, memory, cells =>
    written next (update memory cell value) (insert cell cells)

/-- Nothing is read but what was written. -/
def ReadsOwn : Prog C V S O → (C → V) → Set C → Prop
  | .done _ _, _, _ => True
  | .read cell next, memory, cells => cell ∈ cells ∧ ReadsOwn (next (memory cell)) memory cells
  | .write cell value next, memory, cells =>
    ReadsOwn next (update memory cell value) (insert cell cells)

lemma exec_agree (p : Prog C V S O) {memory memory' : C → V} {cells : Set C}
    (h : Set.EqOn memory memory' cells) (hown : ReadsOwn p memory cells) :
    (exec p memory').state = (exec p memory).state ∧ (exec p memory').out = (exec p memory).out ∧
      Set.EqOn (exec p memory).memory (exec p memory').memory (written p memory cells) := by
  induction p generalizing memory memory' cells with
  | done state out => exact ⟨rfl,rfl,h⟩
  | read cell next ih =>
    rw [exec,exec,written,← h hown.1]
    exact ih _ h hown.2
  | write cell value next ih =>
    -- the written cell joins those the two memories agree on
    refine ih (fun c hc => ?_) hown
    by_cases heq : c = cell
    · rw [heq,update_self,update_self]
    · rw [update_of_ne heq,update_of_ne heq]
      exact h (hc.resolve_left heq)

def outputs (code : S → I → Prog C V S O) : S → (C → V) → List I → List O
  | _, _, [] => []
  | state, memory, input::inputs =>
    let r := exec (code state input) memory
    r.out::outputs code r.state r.memory inputs

def RunReadsOwn (code : S → I → Prog C V S O) : S → (C → V) → Set C → List I → Prop
  | _, _, _, [] => True
  | state, memory, cells, input::inputs =>
    ReadsOwn (code state input) memory cells ∧
      let r := exec (code state input) memory
      RunReadsOwn code r.state r.memory (written (code state input) memory cells) inputs

lemma outputs_agree (code : S → I → Prog C V S O) (inputs : List I) {state : S} {memory memory' : C → V}
    {cells : Set C} (h : Set.EqOn memory memory' cells) (hown : RunReadsOwn code state memory cells inputs) :
    outputs code state memory' inputs = outputs code state memory inputs := by
  induction inputs generalizing state memory memory' cells with
  | nil => rfl
  | cons input inputs ih =>
    obtain ⟨hstate,hout,hmemory⟩ := exec_agree _ h hown.1
    rw [outputs,outputs,hout,hstate]
    exact congrArg _ (ih hmemory hown.2)

end

end MoQiOS.Cells
