import Jos.Lib.Fallible

/-!
# While loops that may fail

A loop whose test and body may both fail, run for a bounded number of rounds. A loop that is still not done when the
rounds are used up fails with an error of its own, so success says that the loop ends by its test. The rule for total
correctness (`whileLoop_returns`) asks for an invariant and for a measure that every round makes smaller.
-/

namespace Except

universe u

variable {ε : Type*} {σ : Type u} {e : ε} {test : σ → Except ε Bool} {body : σ → Except ε σ} {fuel : ℕ} {s s' : σ}

/-- `while (test) body` for at most `fuel` rounds; `e` is the error of a loop that does not end in time. -/
def whileLoop (e : ε) (test : σ → Except ε Bool) (body : σ → Except ε σ) : ℕ → σ → Except ε σ
  | 0, _ => .error e
  | fuel + 1, s =>
    match test s with
    | .error e' => .error e'
    | .ok false => .ok s
    | .ok true =>
      match body s with
      | .error e' => .error e'
      | .ok s' => whileLoop e test body fuel s'

theorem whileLoop_done (h : test s = .ok false) : whileLoop e test body (fuel + 1) s = .ok s := by
  rw [whileLoop, h]

theorem whileLoop_round (h : test s = .ok true) (hb : body s = .ok s') :
    whileLoop e test body (fuel + 1) s = whileLoop e test body fuel s' := by
  rw [whileLoop, h, hb]

theorem whileLoop_test_error {e' : ε} (h : test s = .error e') :
    whileLoop e test body (fuel + 1) s = .error e' := by
  rw [whileLoop, h]

theorem whileLoop_body_error {e' : ε} (h : test s = .ok true) (hb : body s = .error e') :
    whileLoop e test body (fuel + 1) s = .error e' := by
  rw [whileLoop, h, hb]

/-- Total correctness: where the invariant holds neither the test nor the body fails, and a round keeps the invariant
and makes the measure smaller. -/
theorem whileLoop_returns (I : σ → Prop) (μ : σ → ℕ)
    (hround : ∀ s, I s → test s = .ok false ∨ test s = .ok true ∧ Returns (body s) fun s' => I s' ∧ μ s' < μ s)
    (h : I s) (hfuel : μ s < fuel) :
    Returns (whileLoop e test body fuel s) fun s' => I s' ∧ test s' = .ok false := by
  -- On the fuel: a round takes one unit of it and at least one of the measure.
  induction fuel generalizing s with
  | zero => omega
  | succ fuel ih =>
    rcases hround s h with hdone | ⟨hgo, s', hs', hI, hlt⟩
    · exact Returns.of_eq (whileLoop_done hdone) ⟨h, hdone⟩
    · rw [whileLoop_round hgo hs']
      exact ih hI (by omega)

end Except
