import Mathlib.Data.List.Rotate
import Mathlib.Data.List.Range
import Mathlib.Data.Nat.ModEq

/-!
# Going around in circles

The numbers below `n` in cyclic order from `s` on are `(List.range n).rotate s`. A search that takes the first
one with a property, and then goes on from just behind it, comes past all numbers with the property in turn:
each move rotates their list by one (`filter_rotate_succ`). `turn l j` is the element that is due at move `j`
of going around a list `l`, and any `l.length` consecutive moves visit each element as often as `l` has it.
-/

namespace List

variable {α : Type*} {n s a : ℕ} {p : ℕ → Bool}

theorem map_add_mod_range (n s : ℕ) : ((range n).map fun i => (s + i) % n) = (range n).rotate s := by
  apply List.ext_getElem
  · simp
  · intro i h₁ h₂
    rw [getElem_map, getElem_range, getElem_rotate, getElem_range, length_range, Nat.add_comm]

/-- In cyclic order the number behind `A` is determined by where the order starts. -/
theorem eq_mod_of_rotate_range {A B : List ℕ} (h : (range n).rotate s = A ++ a :: B) :
    a = (s + A.length) % n := by
  have hmap := map_add_mod_range n s
  rw [h] at hmap
  have hget := congrArg (·[A.length]?) hmap
  simp only [getElem?_map, getElem?_append_right (Nat.le_refl _), Nat.sub_self, getElem?_cons_zero] at hget
  obtain ⟨i, hi, hval⟩ := Option.map_eq_some_iff.mp hget
  have hidx : i = A.length := by
    rw [getElem?_eq_some_iff] at hi
    obtain ⟨hlt, hi⟩ := hi
    rw [getElem_range] at hi
    exact hi.symm
  rw [← hval, hidx]

/-- Going on from just behind `a` puts what came before it, and `a` itself, last. -/
theorem rotate_range_succ {A B : List ℕ} (h : (range n).rotate s = A ++ a :: B) :
    (range n).rotate (a + 1) = B ++ (A ++ [a]) := by
  have ha := eq_mod_of_rotate_range h
  have hstart : (range n).rotate (a + 1) = ((range n).rotate s).rotate (A.length + 1) := by
    rw [rotate_rotate, ← rotate_mod, ← rotate_mod (range n) (s + _), length_range, ha, Nat.mod_add_mod,
      Nat.add_assoc]
  have hsplit : A ++ a :: B = (A ++ [a]) ++ B := by simp
  have hlen : (A ++ [a]).length = A.length + 1 := by simp
  rw [hstart, h, hsplit, ← hlen, rotate_append_length_eq]

/-- The numbers with a property, in cyclic order: going on from just behind the first one rotates them by
one. -/
theorem filter_rotate_succ {t : List ℕ} (h : ((range n).rotate s).filter p = a :: t) :
    ((range n).rotate (a + 1)).filter p = t ++ [a] := by
  obtain ⟨A, B, hsplit, hA, ha, hB⟩ := filter_eq_cons_iff.mp h
  have hnone : A.filter p = [] := filter_eq_nil_iff.mpr hA
  rw [rotate_range_succ hsplit, filter_append, filter_append, hB, hnone, nil_append,
    filter_cons_of_pos ha, filter_nil]

/-- Starting just behind `a`, the order ends with `a`. -/
theorem rotate_range_last (ha : a < n) : ∃ A, (range n).rotate (a + 1) = A ++ [a] := by
  have htake : (range n).take (a + 1) = (range n).take a ++ [a] := by
    rw [take_add_one, getElem?_range ha]
    rfl
  refine ⟨(range n).drop (a + 1) ++ (range n).take a, ?_⟩
  rw [rotate_eq_drop_append_take (by rw [length_range]; omega), htake, append_assoc]

/-- The element that is due at move `j` of going around `l`. -/
def turn (l : List α) (j : ℕ) : Option α := l[j % l.length]?

/-- After `j` moves it is the first one. -/
theorem head?_rotate_eq_turn (l : List α) (j : ℕ) : (l.rotate j).head? = l.turn j := by
  cases l with
  | nil => simp [turn]
  | cons x l =>
    rw [turn, ← rotate_mod, head?_rotate (Nat.mod_lt _ (by simp))]

theorem turn_rotate (l : List α) (m j : ℕ) : (l.rotate m).turn j = l.turn (m + j) := by
  rw [← head?_rotate_eq_turn, ← head?_rotate_eq_turn, rotate_rotate]

/-- As many moves as `l` is long visit the elements of `l` in cyclic order, whenever they start. -/
theorem map_turn_range' (l : List α) (m : ℕ) : (range' m l.length).map l.turn = (l.rotate m).map some := by
  apply List.ext_getElem
  · simp
  · intro i h₁ h₂
    have hi : i < l.length := by simpa using h₁
    have hmod : (i + m) % l.length < l.length := Nat.mod_lt _ (by omega)
    rw [getElem_map, getElem_range', getElem_map, getElem_rotate, turn, Nat.one_mul, Nat.add_comm m i,
      getElem?_eq_getElem hmod]

end List
