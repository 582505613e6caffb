import Mathlib.Logic.Function.Basic

/-!
# Transactions that survive crashes

A store of blocks as its users see it. Agents read and write blocks inside operations, any number of which may be
open at once. What is stable survives a crash, and becomes what is current at moments when no operation is open, so
that of each operation a crash leaves all or nothing. `durable` is the notice that everything so far is stable.
-/

namespace Txn

variable {E B D : Type*}

/-- What a run shows. -/
inductive Event (E B D : Type*)
  | begin (e : E)
  | read (e : E) (b : B) (d : D)
  | write (e : E) (b : B) (d : D)
  | finish (e : E)
  | durable (e : E)
  | crash

/-- The contents of the store, and the agents with an open operation. -/
structure State (E B D : Type*) where
  stable : B → D
  current : B → D
  active : E → Prop

/-- A store that has these contents after a crash. -/
def State.after (stable : B → D) : State E B D where
  stable := stable
  current := stable
  active _ := False

section

variable [DecidableEq E] [DecidableEq B]

inductive Step : State E B D → List (Event E B D) → State E B D → Prop
  | begin {m : State E B D} {e : E} : ¬ m.active e →
      Step m [.begin e] { m with active := Function.update m.active e True }
  | read {m : State E B D} (e : E) (b : B) : Step m [.read e b (m.current b)] m
  | write {m : State E B D} {e : E} (b : B) (d : D) : m.active e →
      Step m [.write e b d] { m with current := Function.update m.current b d }
  | finish {m : State E B D} {e : E} : m.active e →
      Step m [.finish e] { m with active := Function.update m.active e False }
  | commit {m : State E B D} : (∀ e, ¬ m.active e) → Step m [] { m with stable := m.current }
  | durable {m : State E B D} (e : E) : m.stable = m.current → Step m [.durable e] m
  | crash {m : State E B D} : Step m [.crash] (.after m.stable)

/-- The runs from a state, with what they show. -/
inductive Run (m₀ : State E B D) : List (Event E B D) → State E B D → Prop
  | start : Run m₀ [] m₀
  | step {tr tr' : List (Event E B D)} {m m' : State E B D} : Run m₀ tr m → Step m tr' m' → Run m₀ (tr ++ tr') m'

namespace Run

variable {m m' m'' : State E B D} {tr tr' : List (Event E B D)}

theorem single (h : Step m tr m') : Run m tr m' := .step .start h

theorem trans (h : Run m tr m') (h' : Run m' tr' m'') : Run m (tr ++ tr') m'' := by
  induction h' with
  | start => rwa [List.append_nil]
  | step _ hs ih =>
    rw [← List.append_assoc]
    exact .step ih hs

end Run

end

end Txn
