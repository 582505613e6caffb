import Mathlib.Data.List.Nodup
import Mathlib.Data.List.Basic

/-!
# Singly linked lists in a store

A null-terminated list is threaded through a store by a partial map `next`: the head is an optional
cell and every cell names its successor. `Linked next h l` says that the chain from `h` visits exactly
the cells of `l`, in order, and then stops. A chain that stops cannot visit a cell twice, so `Linked`
alone already gives finiteness, acyclicity and absence of duplicates (`Linked.nodup`).
-/

variable {α : Type*}

/-- The chain of `next` from the head `h` is the list `l` and ends there. -/
def Linked (next : α → Option α) : Option α → List α → Prop
  | h, [] => h = none
  | h, a :: l => h = some a ∧ Linked next (next a) l

variable {next next' : α → Option α} {h : Option α} {l l' : List α} {a : α}

@[simp] theorem linked_nil : Linked next h [] ↔ h = none := Iff.rfl

@[simp] theorem linked_cons :
    Linked next h (a :: l) ↔ h = some a ∧ Linked next (next a) l := Iff.rfl

/-- Only the successors of the visited cells matter. -/
theorem Linked.congr (hl : Linked next h l) (heq : ∀ x ∈ l, next' x = next x) :
    Linked next' h l := by
  induction l generalizing h with
  | nil => exact hl
  | cons x xs ih =>
    obtain ⟨hh, hxs⟩ := hl
    have hx : next' x = next x := heq x (by simp)
    exact ⟨hh, hx ▸ ih hxs (fun y hy => heq y (by simp [hy]))⟩

/-- The chain from a given head is determined. -/
theorem Linked.unique (hl : Linked next h l) (hl' : Linked next h l') : l = l' := by
  induction l generalizing h l' with
  | nil =>
    cases l' with
    | nil => rfl
    | cons y ys =>
      rw [linked_nil] at hl
      rw [hl] at hl'
      exact absurd hl'.1 (by simp)
  | cons x xs ih =>
    obtain ⟨hh, hxs⟩ := hl
    cases l' with
    | nil =>
      rw [linked_nil, hh] at hl'
      exact absurd hl' (by simp)
    | cons y ys =>
      obtain ⟨hh', hys⟩ := hl'
      have hxy : x = y := by rw [hh] at hh'; exact Option.some.inj hh'
      subst hxy
      rw [ih hxs hys]

/-- The part of a chain after any of its cells is the chain from that cell's successor. -/
theorem Linked.suffix {l₁ l₂ : List α} (hl : Linked next h (l₁ ++ a :: l₂)) :
    Linked next (next a) l₂ := by
  induction l₁ generalizing h with
  | nil => exact hl.2
  | cons x xs ih => exact ih hl.2

/-- A chain that ends visits no cell twice: the two tails after a repeated cell would be equal. -/
theorem Linked.nodup (hl : Linked next h l) : l.Nodup := by
  induction l generalizing h with
  | nil => exact List.nodup_nil
  | cons x xs ih =>
    obtain ⟨-, hxs⟩ := hl
    refine List.nodup_cons.mpr ⟨fun hx => ?_, ih hxs⟩
    obtain ⟨l₁, l₂, hsplit⟩ := List.append_of_mem hx
    have htail : Linked next (next x) l₂ := by
      rw [hsplit] at hxs
      exact hxs.suffix
    have hlen := congrArg List.length (hxs.unique htail)
    rw [hsplit, List.length_append, List.length_cons] at hlen
    omega

/-- Only the last cell of a chain has no successor. -/
theorem Linked.next_eq_none_iff (hl : Linked next h l) (ha : a ∈ l) : next a = none ↔ l.getLast? = some a := by
  obtain ⟨l₁, l₂, rfl⟩ := List.append_of_mem ha
  have hsuffix := hl.suffix
  rw [List.getLast?_append_cons]
  cases l₂ with
  | nil =>
    rw [linked_nil] at hsuffix
    exact iff_of_true hsuffix rfl
  | cons b l₂ =>
    refine iff_of_false (fun hc => ?_) fun hc => ?_
    · rw [hsuffix.1] at hc
      cases hc
    · -- the last cell would come twice
      rw [List.getLast?_cons_cons] at hc
      have hmem : a ∈ b :: l₂ := List.mem_of_getLast? hc
      exact (List.nodup_cons.mp (List.nodup_append.mp hl.nodup).2.1).1 hmem

/-- Pushing a fresh cell: only its own successor changes. -/
theorem Linked.push [DecidableEq α] (hl : Linked next h l) (ha : a ∉ l) :
    Linked (fun x => if x = a then h else next x) (some a) (a :: l) := by
  have hself : (fun x => if x = a then h else next x) a = h := if_pos rfl
  refine ⟨rfl, ?_⟩
  rw [hself]
  refine hl.congr (fun x hx => if_neg ?_)
  rintro rfl
  exact ha hx
