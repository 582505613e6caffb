import Mathlib.Data.List.Basic

/-!
# Life cycles in histories

An object is created, used any number of times, retired, and deleted; then it may be created again. A
history of such operations is legal if each finds the object in the phase it needs. In a legal history a
creation lies between any two deletions, and between a retirement and the next use.

Histories are lists with the latest operation first.
-/

/-- The phases of an object. -/
inductive Life
  | absent
  | live
  | retired
deriving DecidableEq

/-- What may happen to an object. -/
inductive LifeOp
  | create
  | use
  | retire
  | delete
deriving DecidableEq

/-- The phase after an operation, if it is legal. -/
def Life.next : Life → LifeOp → Option Life
  | .absent, .create => some .live
  | .live, .use => some .live
  | .live, .retire => some .retired
  | .retired, .delete => some .absent
  | _, _ => none

/-- The phase after a history, if it is legal. -/
def lifeAfter : List LifeOp → Option Life
  | [] => some .absent
  | op :: ops => (lifeAfter ops).bind (Life.next · op)

namespace lifeAfter

variable {ops pre mid post : List LifeOp} {op : LifeOp} {x y : Life}

theorem cons_eq (h : lifeAfter ops = some x) : lifeAfter (op :: ops) = x.next op := by
  rw [lifeAfter, h, Option.bind_some]

/-- The past of a legal history is legal. -/
theorem past (h : lifeAfter (pre ++ post) = some x) : ∃ y, lifeAfter post = some y := by
  induction pre generalizing x with
  | nil => exact ⟨x, h⟩
  | cons op pre ih =>
    rw [List.cons_append, lifeAfter] at h
    obtain ⟨y, hy, -⟩ := Option.bind_eq_some_iff.mp h
    exact ih hy

end lifeAfter
