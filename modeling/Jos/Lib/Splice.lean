import Jos.Lib.Linked
import Mathlib.Data.List.Basic
import Mathlib.Logic.Function.Basic

/-!
# Relinking a list through tail pointers

A pointer to a pointer is the address of a `Cell`: a variable, or the link of an element. A list can be taken apart in
place with one such pointer for each part, which is where the next element of the part is to be linked: an element is
stored in the cell of its part, and the cell moves to the element's own link (`Split.step`). Only the parts so far and
the rest of the list are chains meanwhile; the cells at the ends of the parts hold anything, at first also the variables.
In the end one part is terminated and put behind another (`Split.splice`).
-/

namespace Splice

variable {ι α : Type*}

/-- Where a pointer is stored. -/
inductive Cell (ι α : Type*)
  | var (i : ι)
  | link (a : α)
deriving DecidableEq

namespace Cell

/-- The cells that are read on the way from cell `c` through the elements of `l`. -/
def visited (c : Cell ι α) : List α → List (Cell ι α)
  | [] => []
  | a :: l => c :: visited (.link a) l

/-- The cell behind the last element. -/
def tail (c : Cell ι α) : List α → Cell ι α
  | [] => c
  | a :: l => tail (.link a) l

/-- The elements of `l` follow one another from cell `c` on. -/
def Chain (read : Cell ι α → Option α) (c : Cell ι α) : List α → Prop
  | [] => True
  | a :: l => read c = some a ∧ Chain read (.link a) l

variable {read read' : Cell ι α → Option α} {c : Cell ι α} {l l' : List α} {a : α}

theorem Chain.congr (h : Chain read c l) (heq : ∀ x ∈ visited c l, read' x = read x) : Chain read' c l := by
  induction l generalizing c with
  | nil => trivial
  | cons a l ih =>
    obtain ⟨hc, hrest⟩ := h
    refine ⟨?_, ih hrest fun x hx => heq x (List.mem_cons_of_mem _ hx)⟩
    rw [heq c (List.mem_cons_self ..), hc]

theorem Chain.snoc (h : Chain read c l) (ha : read (tail c l) = some a) : Chain read c (l ++ [a]) := by
  induction l generalizing c with
  | nil => exact ⟨ha, trivial⟩
  | cons b l ih => exact ⟨h.1, ih h.2 ha⟩

@[simp] theorem tail_snoc (c : Cell ι α) (l : List α) (a : α) : tail c (l ++ [a]) = .link a := by
  induction l generalizing c with
  | nil => rfl
  | cons b l ih => exact ih (.link b)

/-- What is linked behind the last element follows the chain. -/
theorem Chain.linked (h : Chain read c l) (hl : Linked (fun a => read (.link a)) (read (tail c l)) l') :
    Linked (fun a => read (.link a)) (read c) (l ++ l') := by
  induction l generalizing c with
  | nil => exact hl
  | cons a l ih => exact ⟨h.1, ih h.2 hl⟩

theorem tail_mem (c : Cell ι α) (l : List α) : tail c l = c ∨ ∃ a ∈ l, tail c l = .link a := by
  induction l generalizing c with
  | nil => exact Or.inl rfl
  | cons a l ih =>
    rcases ih (.link a) with h | ⟨b, hb, h⟩
    · exact Or.inr ⟨a, List.mem_cons_self .., h⟩
    · exact Or.inr ⟨b, List.mem_cons_of_mem a hb, h⟩

theorem mem_visited {x : Cell ι α} (hx : x ∈ visited c l) : x = c ∨ ∃ a ∈ l, x = .link a := by
  induction l generalizing c with
  | nil => cases hx
  | cons a l ih =>
    rw [visited, List.mem_cons] at hx
    rcases hx with hx | hx
    · exact Or.inl hx
    · rcases ih hx with h | ⟨b, hb, h⟩
      · exact Or.inr ⟨a, List.mem_cons_self .., h⟩
      · exact Or.inr ⟨b, List.mem_cons_of_mem a hb, h⟩

/-- The cell behind the last element is not one of those before it. -/
theorem tail_not_mem_visited (hc : ∀ a ∈ l, c ≠ .link a) (hl : l.Nodup) : tail c l ∉ visited c l := by
  induction l generalizing c with
  | nil => exact List.not_mem_nil
  | cons a l ih =>
    obtain ⟨ha, hl⟩ := List.nodup_cons.mp hl
    have hlink : ∀ b ∈ l, (Cell.link a : Cell ι α) ≠ .link b := fun b hb heq => ha (Cell.link.inj heq ▸ hb)
    rw [visited, List.mem_cons, not_or]
    refine ⟨?_, ih hlink hl⟩
    rw [tail]
    intro heq
    rcases tail_mem (.link a) l with h | ⟨b, hb, h⟩
    · exact hc a (List.mem_cons_self ..) (heq.symm.trans h)
    · exact hc b (List.mem_cons_of_mem a hb) (heq.symm.trans h)

end Cell

open Cell

section Split

variable [DecidableEq ι]

/-- The elements of `l` in part `i`. -/
def part (cls : α → ι) (i : ι) (l : List α) : List α := l.filter fun a => cls a = i

variable {cls : α → ι} {i j : ι} {a : α} {l : List α}

theorem mem_part : a ∈ part cls i l ↔ a ∈ l ∧ cls a = i := by
  rw [part, List.mem_filter, decide_eq_true_iff]

theorem part_snoc_self : part cls (cls a) (l ++ [a]) = part cls (cls a) l ++ [a] := by
  rw [part, part, List.filter_append]
  congr 1
  exact List.filter_cons_of_pos (decide_eq_true rfl)

theorem part_snoc_other (h : cls a ≠ i) : part cls i (l ++ [a]) = part cls i l := by
  rw [part, part, List.filter_append]
  have hnone : [a].filter (fun a => cls a = i) = [] := List.filter_cons_of_neg (by rwa [decide_eq_true_iff])
  rw [hnone, List.append_nil]

/-- The elements of `done` are in their parts, whose ends are the cells `tp`, and those of `rest` are linked from `h`. -/
structure Split (cls : α → ι) (read : Cell ι α → Option α) (tp : ι → Cell ι α) (done : List α) (h : Option α)
    (rest : List α) : Prop where
  nodup : (done ++ rest).Nodup
  chain : ∀ i, Chain read (.var i) (part cls i done)
  tp : ∀ i, tp i = tail (.var i) (part cls i done)
  rest : Linked (fun a => read (.link a)) h rest

namespace Split

variable {read : Cell ι α → Option α} {tp : ι → Cell ι α} {done rest : List α} {h : Option α}

theorem start (hl : Linked (fun a => read (.link a)) h rest) : Split cls read .var [] h rest where
  nodup := hl.nodup
  chain _ := trivial
  tp _ := rfl
  rest := hl

section Ends

variable (hs : Split cls read tp done h rest)
include hs

theorem nodup_part (i : ι) : (part cls i done).Nodup := (List.nodup_append.mp hs.nodup).1.filter _

/-- The end of a part is its variable or the link of one of its elements. -/
theorem tp_eq (i : ι) : tp i = .var i ∨ ∃ a ∈ done, cls a = i ∧ tp i = .link a := by
  rw [hs.tp]
  rcases tail_mem (.var i) (part cls i done) with heq | ⟨a, ha, heq⟩
  · exact Or.inl heq
  · obtain ⟨ha, hcls⟩ := mem_part.mp ha
    exact Or.inr ⟨a, ha, hcls, heq⟩

/-- The end of a part is not on the way through any part. -/
theorem tp_not_visited (i j : ι) : tp i ∉ visited (.var j) (part cls j done) := by
  by_cases hij : i = j
  · subst hij
    rw [hs.tp]
    exact tail_not_mem_visited (fun _ _ => nofun) (hs.nodup_part i)
  · intro hmem
    rcases mem_visited hmem with hj | ⟨b, hb, hj⟩
    · rcases hs.tp_eq i with hi | ⟨a, -, -, hi⟩
      · exact hij (Cell.var.inj (hi.symm.trans hj))
      · exact absurd (hi.symm.trans hj) nofun
    · rcases hs.tp_eq i with hi | ⟨a, -, hcls, hi⟩
      · exact absurd (hi.symm.trans hj) nofun
      · obtain rfl := Cell.link.inj (hi.symm.trans hj)
        exact hij (hcls.symm.trans (mem_part.mp hb).2)

/-- Nor is it the end of another part. -/
theorem tp_ne (hij : i ≠ j) : tp i ≠ tp j := by
  intro heq
  rcases hs.tp_eq i with hi | ⟨a, -, ha, hi⟩ <;> rcases hs.tp_eq j with hj | ⟨b, -, hb, hj⟩
  · exact hij (Cell.var.inj (hi.symm.trans (heq.trans hj)))
  · exact absurd (hi.symm.trans (heq.trans hj)) nofun
  · exact absurd (hi.symm.trans (heq.trans hj)) nofun
  · obtain rfl := Cell.link.inj (hi.symm.trans (heq.trans hj))
    exact hij (ha.symm.trans hb)

/-- Nor is it the link of an element that is still to be moved. -/
theorem tp_ne_link (i : ι) (ha : a ∈ rest) : tp i ≠ .link a := by
  intro heq
  rcases hs.tp_eq i with hi | ⟨b, hb, -, hi⟩
  · exact absurd (hi.symm.trans heq) nofun
  · obtain rfl := Cell.link.inj (hi.symm.trans heq)
    exact (List.nodup_append.mp hs.nodup).2.2 b hb b ha rfl

end Ends

variable [DecidableEq α]

/-- Moving an element: it is stored at the end of its part, and its link is the new end. -/
theorem step (hs : Split cls read tp done h (a :: rest)) :
    Split cls (Function.update read (tp (cls a)) (some a)) (Function.update tp (cls a) (.link a)) (done ++ [a])
      (Function.update read (tp (cls a)) (some a) (.link a)) rest := by
  have hnodup : (done ++ [a] ++ rest).Nodup := by
    rw [List.append_assoc]
    exact hs.nodup
  have hkeep : ∀ i, Chain (Function.update read (tp (cls a)) (some a)) (.var i) (part cls i done) := fun i =>
    (hs.chain i).congr fun x hx => Function.update_of_ne (fun heq => hs.tp_not_visited _ i (heq ▸ hx)) _ _
  refine ⟨hnodup, fun i => ?_, fun i => ?_, ?_⟩
  · by_cases hi : cls a = i
    · subst hi
      rw [part_snoc_self]
      refine (hkeep _).snoc ?_
      rw [← hs.tp, Function.update_self]
    · rw [part_snoc_other hi]
      exact hkeep i
  · by_cases hi : cls a = i
    · subst hi
      rw [part_snoc_self, tail_snoc, Function.update_self]
    · rw [part_snoc_other hi, Function.update_of_ne (Ne.symm hi), hs.tp]
  · rw [Function.update_of_ne (hs.tp_ne_link _ (List.mem_cons_self ..)).symm]
    refine hs.rest.2.congr fun b hb => ?_
    exact Function.update_of_ne (hs.tp_ne_link _ (List.mem_cons_of_mem a hb)).symm _ _

/-- Part `j` is terminated, and linked behind part `i`. -/
theorem splice (hs : Split cls read tp l h []) (hij : i ≠ j) {read₁ read₂ : Cell ι α → Option α}
    (h₁ : read₁ = Function.update read (tp j) none) (h₂ : read₂ = Function.update read₁ (tp i) (read₁ (.var j))) :
    Linked (fun a => read₂ (.link a)) (read₂ (.var i)) (part cls i l ++ part cls j l) := by
  have hkeep : ∀ k, ∀ x ∈ visited (.var k) (part cls k l), read₂ x = read x := by
    intro k x hx
    have hne : ∀ i, x ≠ tp i := fun i heq => hs.tp_not_visited i k (heq ▸ hx)
    rw [h₂, Function.update_of_ne (hne i), h₁, Function.update_of_ne (hne j)]
  have hend : read₂ (tp j) = none := by
    rw [h₂, Function.update_of_ne (hs.tp_ne hij.symm), h₁, Function.update_self]
  -- the variable of part `j` is not written, unless it is the end of the part
  have hvar : read₁ (.var j) = read₂ (.var j) := by
    rw [h₂, Function.update_of_ne]
    rcases hs.tp_eq i with hi | ⟨a, -, -, hi⟩ <;> rw [hi]
    · exact fun heq => hij (Cell.var.inj heq).symm
    · exact nofun
  refine ((hs.chain i).congr (hkeep i)).linked ?_
  have hlast : read₂ (tail (.var i) (part cls i l)) = read₂ (.var j) := by
    rw [← hs.tp, ← hvar, h₂, Function.update_self]
  rw [hlast]
  have hnil : Linked (fun a => read₂ (.link a)) (read₂ (tail (.var j) (part cls j l))) [] := by
    rw [linked_nil, ← hs.tp, hend]
  have hchain := ((hs.chain j).congr (hkeep j)).linked hnil
  rwa [List.append_nil] at hchain

end Split

end Split

end Splice
