import Mathlib

/-!
# Finite runs of a labelled transition relation

A machine is a relation between a state, a label and a next state. Guards
belong to the relation, so a run consists of permitted steps only. Outputs
that a property speaks about are recorded in the state.
-/

namespace MoQiOS.Runs

variable {σ κ : Type*}

def Reaches (next : σ → κ → σ → Prop) : σ → σ → Prop :=
  Relation.ReflTransGen (fun s t => ∃ c, next s c t)

lemma Reaches.start (next : σ → κ → σ → Prop) (s : σ) : Reaches next s s :=
  Relation.ReflTransGen.refl

variable {next : σ → κ → σ → Prop}

lemma Reaches.snoc {s t u : σ} {c : κ}
    (h : Reaches next s t) (hn : next t c u) : Reaches next s u :=
  Relation.ReflTransGen.tail h ⟨c,hn⟩

/-- A property of the first state that every permitted step keeps holds in
every state a run reaches. -/
lemma invariant {I : σ → Prop} (keep : ∀ s c t, I s → next s c t → I t) {s t : σ}
    (h : Reaches next s t) (hs : I s) : I t := by
  induction h with
  | refl => exact hs
  | tail _ hn ih =>
    obtain ⟨c,hc⟩ := hn
    exact keep _ c _ ih hc

section
variable (ready : σ → κ → Prop) (step : σ → κ → σ)

def Guarded (s : σ) (c : κ) (t : σ) : Prop := ready s c ∧ t = step s c

def run (s : σ) (labels : List κ) : σ := labels.foldl step s

/-- Every label of the list is permitted when its turn comes. -/
def Admissible : σ → List κ → Prop
  | _, [] => True
  | s, c :: rest => ready s c ∧ Admissible (step s c) rest

instance decidableAdmissible [∀ s c, Decidable (ready s c)] :
    ∀ (s : σ) (labels : List κ), Decidable (Admissible ready step s labels)
  | _, [] => .isTrue trivial
  | s, c :: rest =>
    haveI := decidableAdmissible (step s c) rest
    inferInstanceAs (Decidable (_ ∧ _))

variable {ready step}

lemma run_reaches {s t : σ} {labels : List κ} (h : Reaches (Guarded ready step) s t)
    (ha : Admissible ready step t labels) : Reaches (Guarded ready step) s (run step t labels) := by
  induction labels generalizing t with
  | nil => exact h
  | cons c rest ih => exact ih (h.snoc (c := c) ⟨ha.1,rfl⟩) ha.2

end

end MoQiOS.Runs
