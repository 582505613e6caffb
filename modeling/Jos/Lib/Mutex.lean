import Mathlib.Logic.Function.Basic

/-!
# A lock bit with a recorded owner

Agents take a lock by setting a bit that was clear and release it by clearing the bit. Beside the bit there is a
field in which the owner writes its name after taking the lock, and which it clears before releasing it.
`held` is the history: the agents that have taken the lock and have not released it.
-/

namespace Mutex

variable {ι : Type*} {locked : Bool} {owner : Option ι} {held : ι → Bool}

/-- At most one agent holds the lock, the bit says whether there is one, and the field names no other. -/
structure Inv (locked : Bool) (owner : Option ι) (held : ι → Bool) : Prop where
  unique : ∀ i j, held i = true → held j = true → i = j
  locked_iff : locked = true ↔ ∃ i, held i = true
  owner_held : ∀ i, owner = some i → held i = true

namespace Inv

theorem free : Inv (ι := ι) false none fun _ => false where
  unique _ _ hi := absurd hi Bool.false_ne_true
  locked_iff := iff_of_false Bool.false_ne_true fun ⟨_, hi⟩ => Bool.false_ne_true hi
  owner_held _ hi := nomatch hi

/-- While the bit is clear, nobody holds the lock. -/
theorem not_held (h : Inv false owner held) (i : ι) : held i = false := by
  rw [Bool.eq_false_iff]
  intro hi
  exact absurd (h.locked_iff.mpr ⟨i, hi⟩) Bool.false_ne_true

variable {i : ι}

theorem setOwner (h : Inv locked owner held) (hi : held i = true) : Inv locked (some i) held where
  unique := h.unique
  locked_iff := h.locked_iff
  owner_held j hj := by
    obtain rfl := Option.some.inj hj
    exact hi

theorem clearOwner (h : Inv locked owner held) : Inv locked none held where
  unique := h.unique
  locked_iff := h.locked_iff
  owner_held _ hj := nomatch hj

/-- The field names nobody but the holder. -/
theorem owner_ne (h : Inv locked owner held) (hi : held i = false) : owner ≠ some i := by
  intro ho
  rw [h.owner_held i ho] at hi
  exact Bool.false_ne_true hi.symm

variable [DecidableEq ι]

theorem acquire (h : Inv false owner held) (i : ι) : Inv true owner (Function.update held i true) where
  unique j j' hj hj' := by
    have honly : ∀ j, Function.update held i true j = true → j = i := by
      intro j hj
      rw [Function.update_apply, h.not_held j] at hj
      by_contra hne
      rw [if_neg hne] at hj
      exact Bool.false_ne_true hj
    rw [honly j hj, honly j' hj']
  locked_iff := iff_of_true rfl ⟨i, Function.update_self ..⟩
  owner_held j hj := by
    have := h.owner_held j hj
    rw [h.not_held j] at this
    exact absurd this Bool.false_ne_true

theorem release (h : Inv locked owner held) (hi : held i = true) (hne : owner ≠ some i) :
    Inv false owner (Function.update held i false) := by
  have hnone : ∀ j, ¬ Function.update held i false j = true := by
    intro j hj
    rw [Function.update_apply] at hj
    split at hj
    · exact Bool.false_ne_true hj
    · next hji => exact hji (h.unique j i hj hi)
  refine ⟨fun j _ hj => absurd hj (hnone j),
    iff_of_false Bool.false_ne_true fun ⟨j, hj⟩ => hnone j hj, fun j hj => ?_⟩
  obtain rfl := h.unique j i (h.owner_held j hj) hi
  exact absurd hj hne

end Inv

end Mutex
