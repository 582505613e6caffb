import Mathlib.Data.List.Basic
import Mathlib.Logic.Function.Basic

/-!
# Ring buffers with two positions

A ring of `n` slots is described by where the next element is read and where the next one is written. When the two
positions agree it is empty. Nothing else says how much it holds, so it cannot hold `n` elements: the one that fills
the last slot empties the ring (`Holds.put`).

`Ledger` keeps the accounts of a queue that loses `n` elements at a time: what was put in, what was taken out, what
is inside. Its operations say when a loss occurs, and that it is never made up for.
-/

variable {α : Type*} {n : Nat}

/-- A ring of `n` slots. -/
structure RingBuffer (α : Type*) (n : Nat) where
  buf : Fin n → α
  rpos : Fin n
  wpos : Fin n

namespace RingBuffer

/-- The slot behind. -/
def next (i : Fin n) : Fin n :=
  if h : i.val + 1 < n then ⟨i.val + 1, h⟩ else ⟨0, Nat.zero_lt_of_lt i.isLt⟩

def put (r : RingBuffer α n) (a : α) : RingBuffer α n :=
  { r with buf := Function.update r.buf r.wpos a, wpos := next r.wpos }

def get? (r : RingBuffer α n) : Option (α × RingBuffer α n) :=
  if r.rpos = r.wpos then none else some (r.buf r.rpos, { r with rpos := next r.rpos })

/-- The slot `k` places behind `i`. -/
def slot (i : Fin n) (k : Nat) : Nat :=
  if i.val + k < n then i.val + k else i.val + k - n

/-- The elements of `l` stand one behind the other from the read position on. -/
structure Holds (r : RingBuffer α n) (l : List α) : Prop where
  length : l.length < n
  wpos : r.wpos.val = slot r.rpos l.length
  buf : ∀ (k : Nat) (a : α), l[k]? = some a → ∀ j : Fin n, j.val = slot r.rpos k → r.buf j = a

variable {r : RingBuffer α n} {i : Fin n} {l : List α} {a : α} {k k' : Nat}

/-! ## Slots -/

theorem val_next (i : Fin n) : (next i).val = slot i 1 := by
  have hi := i.isLt
  unfold next slot
  split
  · rfl
  · change 0 = i.val + 1 - n
    omega

theorem slot_lt (hk : k < n) : slot i k < n := by
  have hi := i.isLt
  unfold slot
  split <;> omega

theorem slot_inj (hk : k < n) (hk' : k' < n) (h : slot i k = slot i k') : k = k' := by
  have hi := i.isLt
  unfold slot at h
  split at h <;> split at h <;> omega

theorem slot_next (hk : k + 1 < n) : slot (next i) k = slot i (k + 1) := by
  have hi := i.isLt
  have hnext := val_next i
  unfold slot at hnext ⊢
  split at hnext <;> split <;> split <;> omega

/-- Once around. -/
theorem slot_self (i : Fin n) : slot i n = i.val := by
  unfold slot
  split <;> omega

theorem next_slot (hk : k < n) {j : Fin n} (hj : j.val = slot i k) : (next j).val = slot i (k + 1) := by
  have hi := i.isLt
  rw [val_next]
  unfold slot at hj ⊢
  split at hj <;> split <;> split <;> omega

/-! ## The operations -/

theorem Holds.empty (b : Fin n → α) (i : Fin n) : Holds { buf := b, rpos := i, wpos := i } [] := by
  have hi := i.isLt
  refine ⟨Nat.zero_lt_of_lt hi, ?_, fun k a hk => ?_⟩
  · change i.val = slot i 0
    unfold slot
    split <;> omega
  · rw [List.getElem?_nil] at hk
    nomatch hk

/-- An element joins the others, or with it the ring counts as empty. -/
theorem Holds.put (h : r.Holds l) : (r.put a).Holds (if l.length + 1 < n then l ++ [a] else []) := by
  have hw := next_slot h.length h.wpos
  split
  next hroom =>
    refine ⟨by simpa using hroom, by simpa [RingBuffer.put] using hw, fun k b hk j hj => ?_⟩
    have hj' : j.val = slot r.rpos k := hj
    rcases Nat.lt_trichotomy k l.length with hlt | heq | hgt
    · -- another slot than the one written
      rw [List.getElem?_append_left hlt] at hk
      have hne : j ≠ r.wpos := by
        intro he
        rw [he, h.wpos] at hj'
        exact Nat.ne_of_lt hlt (slot_inj (by omega) (by omega) hj'.symm)
      exact (Function.update_of_ne hne ..).trans (h.buf k b hk j hj')
    · have hjw : j = r.wpos := Fin.ext (by rw [hj', heq, h.wpos])
      rw [heq, List.getElem?_concat_length, Option.some.injEq] at hk
      rw [hjw, ← hk]
      exact Function.update_self ..
    · rw [List.getElem?_eq_none (by rw [List.length_append, List.length_singleton]; omega)] at hk
      nomatch hk
  next hfull =>
    have hlen : l.length + 1 = n := by
      have hlt := h.length
      omega
    rw [hlen, slot_self] at hw
    have heq : (r.put a).wpos = r.rpos := Fin.ext hw
    have hput : r.put a = { buf := (r.put a).buf, rpos := r.rpos, wpos := (r.put a).wpos } := rfl
    rw [hput, heq]
    exact Holds.empty ..

theorem Holds.get?_nil (h : r.Holds []) : r.get? = none := by
  have hw := h.wpos
  have hi := r.rpos.isLt
  refine if_pos (Fin.ext ?_)
  rw [hw]
  change r.rpos.val = slot r.rpos 0
  unfold slot
  split <;> omega

theorem Holds.get?_cons (h : r.Holds (a :: l)) : ∃ r', r.get? = some (a, r') ∧ r'.Holds l := by
  have hlen : l.length + 1 < n := h.length
  have hw : r.wpos.val = slot r.rpos (l.length + 1) := h.wpos
  have hzero : r.rpos.val = slot r.rpos 0 := by
    have hi := r.rpos.isLt
    unfold slot
    split <;> omega
  have hne : r.rpos ≠ r.wpos := by
    intro he
    rw [← he, hzero] at hw
    exact absurd (slot_inj (by omega) hlen hw) (by omega)
  refine ⟨{ r with rpos := next r.rpos }, ?_, by omega, ?_, fun k b hk j hj => ?_⟩
  · rw [RingBuffer.get?, if_neg hne, h.buf 0 a rfl r.rpos hzero]
  · exact hw.trans (slot_next hlen).symm
  · have hk' : k < l.length := (List.getElem?_eq_some_iff.mp hk).1
    exact h.buf (k + 1) b hk j (hj.trans (slot_next (by omega)))

end RingBuffer

/-! ## Accounts -/

/-- `p` was put in and `g` taken out, `l` is inside, and the ring has come around `lost` times with all it held. -/
structure Ledger (n : Nat) (p g l : List α) (lost : Nat) : Prop where
  count : p.length = g.length + l.length + n * lost
  exact : lost = 0 → p = g ++ l

namespace Ledger

variable {p g l : List α} {a : α} {lost : Nat}

theorem put (h : Ledger n p g l lost) (hl : l.length < n) :
    Ledger n (p ++ [a]) g (if l.length + 1 < n then l ++ [a] else [])
      (if l.length + 1 < n then lost else lost + 1) := by
  have hcount := h.count
  split
  next hroom =>
    refine ⟨?_, fun h₀ => ?_⟩
    · rw [List.length_append, List.length_append, List.length_singleton]
      omega
    · rw [h.exact h₀, List.append_assoc]
  next hfull =>
    refine ⟨?_, fun h₀ => absurd h₀ (Nat.succ_ne_zero lost)⟩
    rw [List.length_append, List.length_singleton, List.length_nil, Nat.mul_succ]
    omega

theorem get (h : Ledger n p g (a :: l) lost) : Ledger n p (g ++ [a]) l lost := by
  have hcount := h.count
  refine ⟨?_, fun h₀ => ?_⟩
  · rw [List.length_append, List.length_singleton]
    rw [List.length_cons] at hcount
    omega
  · rw [h.exact h₀, List.append_assoc, List.singleton_append]

/-- As long as nothing was lost, the output is the first part of the input. -/
theorem isPrefix (h : Ledger n p g l 0) : g <+: p := ⟨l, (h.exact rfl).symm⟩

/-- After a loss, an empty queue does not mean that everything was taken out. -/
theorem ne_of_lost (h : Ledger n p g [] lost) (hn : 0 < n) (hlost : 0 < lost) : g ≠ p := by
  intro heq
  have hcount := h.count
  have hpos : 0 < n * lost := Nat.mul_pos hn hlost
  rw [heq, List.length_nil] at hcount
  omega

end Ledger
