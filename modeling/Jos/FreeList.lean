import Jos.Lib.Splice
import Jos.Lib.While
import Jos.PmapSpec
import Mathlib.Tactic.Tauto

/-!
# The free list

Two functions of `kern/pmap.c` that rely on how the free list is linked.

`check_page_free_list(1)` moves the pages that `entry_pgdir` maps to the front. It takes the list apart with two tail
pointers, `tp[0]` and `tp[1]`, which start out at the uninitialised variables `pp1` and `pp2`, and links the second part
behind the first (`reorderFreeList_partition`).

`page_free` takes a page for free if its link is not `NULL`. This finds every page on the list but the last, whose link
is `NULL` as well (`pageFree_detects_iff`).
-/

namespace Jos

open Pmap Except Splice

/-! ## Moving low pages first -/

/-- The variables of the block for `only_low_memory`; `vars` are `pp1` and `pp2`. -/
structure Reorder where
  pmap : Pmap
  pp : Option Nat
  vars : Fin 2 → Option Nat
  tp : Fin 2 → Cell (Fin 2) Nat

namespace Reorder

/-- What is stored in a pointer. -/
def read (σ : Reorder) : Cell (Fin 2) Nat → Option Nat
  | .var i => σ.vars i
  | .link p => (σ.pmap.pages p).ppLink

/-- `*c = v`. -/
def write (σ : Reorder) (c : Cell (Fin 2) Nat) (v : Option Nat) : Reorder :=
  match c with
  | .var i => { σ with vars := Function.update σ.vars i v }
  | .link p => { σ with pmap := σ.pmap.setLink p v }

/-- `PDX(page2pa(pp)) >= pdx_limit`. -/
def pagetype (pp : Nat) : Fin 2 := if 1 ≤ PDX (page2pa pp) then 1 else 0

/-- The loop goes on. -/
def more (σ : Reorder) : Except Panic Bool := return σ.pp.isSome

/-- The body of the loop, and `pp = pp->pp_link`. -/
def move (σ : Reorder) (pp : Nat) : Reorder :=
  let σ := σ.write (σ.tp (pagetype pp)) (some pp)
  let σ := { σ with tp := Function.update σ.tp (pagetype pp) (.link pp) }
  { σ with pp := (σ.pmap.pages pp).ppLink }

/-- A round of the loop. -/
def round (σ : Reorder) : Except Panic Reorder := return (σ.pp.map σ.move).getD σ

end Reorder

/-- The block `if (only_low_memory)` of `check_page_free_list`. What `pp1` and `pp2` hold at first is `vars`. A list
without a cycle has no more pages than there are. -/
def reorderFreeList (s : Pmap) (vars : Fin 2 → Option Nat) : Except Panic Pmap := do
  let σ ← whileLoop .diverges Reorder.more Reorder.round (s.npages + 1) ⟨s, s.pageFreeList, vars, .var⟩
  let σ := σ.write (σ.tp 1) none
  let σ := σ.write (σ.tp 0) (σ.vars 1)
  return { σ.pmap with pageFreeList := σ.vars 0 }

namespace Reorder

variable {σ : Reorder} {s : Pmap} {c : Cell (Fin 2) Nat} {v : Option Nat} {done rest l : List Nat} {p : Nat}

theorem read_write (σ : Reorder) (c : Cell (Fin 2) Nat) (v : Option Nat) :
    (σ.write c v).read = Function.update σ.read c v := by
  funext x
  rw [Function.update_apply]
  cases c with
  | var i =>
    cases x with
    | var j => simp only [write, read, Function.update_apply, Cell.var.injEq]
    | link p => rfl
  | link p =>
    cases x with
    | var j => rfl
    | link q =>
      simp only [write, read, setLink_pages, Cell.link.injEq]
      split <;> rfl

@[simp] theorem write_tp : (σ.write c v).tp = σ.tp := by cases c <;> rfl

@[simp] theorem write_pp : (σ.write c v).pp = σ.pp := by cases c <;> rfl

/-- Only links of pages in `l` have been written. -/
structure OnlyLinks (s : Pmap) (l : List Nat) (s' : Pmap) : Prop where
  rest : s' = { s with pages := s'.pages }
  ref : ∀ p, (s'.pages p).ppRef = (s.pages p).ppRef
  others : ∀ p, p ∉ l → s'.pages p = s.pages p

theorem OnlyLinks.setLink {s' : Pmap} (h : OnlyLinks s l s') (hp : p ∈ l) (v : Option Nat) :
    OnlyLinks s l (s'.setLink p v) where
  rest := by
    rw [Pmap.setLink, h.rest]
  ref q := by
    rw [setLink_pages, ← h.ref q]
    split
    · next hq => rw [hq]
    · rfl
  others q hq := by
    have hne : q ≠ p := by
      rintro rfl
      exact hq hp
    rw [setLink_pages, if_neg hne, h.others q hq]

theorem OnlyLinks.write (h : OnlyLinks s l σ.pmap) (hc : ∀ p, c = .link p → p ∈ l) :
    OnlyLinks s l (σ.write c v).pmap := by
  cases c with
  | var i => exact h
  | link p => exact h.setLink (hc p rfl) v

/-- The invariant of the loop on the list `l`: some of its pages have been moved. -/
structure Inv (s : Pmap) (l : List Nat) (σ : Reorder) (rest : List Nat) : Prop where
  moved : ∃ done, done ++ rest = l ∧ Split pagetype σ.read σ.tp done σ.pp rest
  onlyLinks : OnlyLinks s l σ.pmap

theorem Inv.round (h : Inv s l σ (p :: rest)) : Returns σ.round fun σ' => Inv s l σ' rest := by
  obtain ⟨⟨done, hl, hsplit⟩, hlinks⟩ := h
  have hpp : σ.pp = some p := hsplit.rest.1
  have hread := read_write σ (σ.tp (pagetype p)) (some p)
  have htp : (σ.write (σ.tp (pagetype p)) (some p)).tp = σ.tp := write_tp
  have hlinks' : OnlyLinks s l (σ.write (σ.tp (pagetype p)) (some p)).pmap := by
    refine hlinks.write fun q hq => ?_
    rcases hsplit.tp_eq (pagetype p) with heq | ⟨a, ha, -, heq⟩
    · exact absurd (hq.symm.trans heq) nofun
    · obtain rfl := Cell.link.inj (hq.symm.trans heq)
      rw [← hl]
      exact List.mem_append_left _ ha
  rw [Reorder.round, hpp, Option.map_some, Option.getD_some, move]
  generalize σ.write (σ.tp (pagetype p)) (some p) = σ₁ at hread htp hlinks'
  refine Returns.ok ⟨⟨done ++ [p], by rw [← hl, List.append_assoc]; rfl, ?_⟩, hlinks'⟩
  have hstep := hsplit.step
  rw [← hread, ← htp] at hstep
  exact hstep

/-- The loop moves all pages. -/
theorem loop_returns (hlist : Linked (fun p => (s.pages p).ppLink) s.pageFreeList l) (hlen : l.length ≤ s.npages)
    (vars : Fin 2 → Option Nat) :
    Returns (whileLoop .diverges more round (s.npages + 1) ⟨s, s.pageFreeList, vars, .var⟩) fun σ => Inv s l σ [] := by
  have hstart : Inv s l ⟨s, s.pageFreeList, vars, .var⟩ l :=
    ⟨⟨[], rfl, .start hlist⟩, rfl, fun _ => rfl, fun _ _ => rfl⟩
  -- on the pages that are left
  suffices hloop : ∀ rest fuel σ, Inv s l σ rest → rest.length < fuel →
      Returns (whileLoop .diverges more round fuel σ) fun σ => Inv s l σ [] from
    hloop l _ _ hstart (by omega)
  intro rest
  induction rest with
  | nil =>
    intro fuel σ h hfuel
    obtain ⟨done, -, hsplit⟩ := h.moved
    obtain ⟨fuel, rfl⟩ := Nat.exists_eq_succ_of_ne_zero (Nat.ne_zero_of_lt hfuel)
    refine Returns.of_eq (whileLoop_done ?_) h
    rw [more, linked_nil.mp hsplit.rest]
    rfl
  | cons p rest ih =>
    intro fuel σ h hfuel
    obtain ⟨fuel, rfl⟩ := Nat.exists_eq_succ_of_ne_zero (Nat.ne_zero_of_lt hfuel)
    obtain ⟨σ', hround, hinv⟩ := h.round
    obtain ⟨done, -, hsplit⟩ := h.moved
    rw [whileLoop_round (by rw [more, hsplit.rest.1]; rfl) hround]
    exact ih fuel σ' hinv (by rw [List.length_cons] at hfuel; omega)

end Reorder

/-- The pages that `entry_pgdir` maps. -/
def Low (p : Nat) : Prop := PDX (page2pa p) < 1

instance (p : Nat) : Decidable (Low p) := inferInstanceAs (Decidable (_ < _))

theorem part_pagetype (l : List Nat) : part Reorder.pagetype 0 l = l.filter (fun p => Low p) ∧
    part Reorder.pagetype 1 l = l.filter (fun p => ¬ Low p) := by
  have h : ∀ p, (Reorder.pagetype p = 0 ↔ Low p) ∧ (Reorder.pagetype p = 1 ↔ ¬ Low p) := by
    intro p
    unfold Reorder.pagetype Low
    split
    · exact ⟨iff_of_false (by decide) (by omega), iff_of_true rfl (by omega)⟩
    · exact ⟨iff_of_true rfl (by omega), iff_of_false (by decide) (by omega)⟩
  constructor
  · exact List.filter_congr fun p _ => decide_eq_decide.mpr (h p).1
  · exact List.filter_congr fun p _ => decide_eq_decide.mpr (h p).2

/-- Afterwards the list has the low pages first and then the others, both in their old order, and nothing else has
changed. What the variables hold at first does not matter. -/
theorem reorderFreeList_partition (s : Pmap) (vars : Fin 2 → Option Nat) (l : List Nat)
    (hlist : Linked (fun p => (s.pages p).ppLink) s.pageFreeList l) (hlt : ∀ p ∈ l, p < s.npages) :
    ∃ s', reorderFreeList s vars = .ok s' ∧
      Linked (fun p => (s'.pages p).ppLink) s'.pageFreeList
        (l.filter (fun p => Low p) ++ l.filter (fun p => ¬ Low p)) ∧
      s' = { s with pages := s'.pages, pageFreeList := s'.pageFreeList } ∧
      (∀ p, (s'.pages p).ppRef = (s.pages p).ppRef) ∧ ∀ p, p ∉ l → s'.pages p = s.pages p := by
  have hlen : l.length ≤ s.npages := by
    have hsub : l ⊆ List.range s.npages := fun p hp => List.mem_range.mpr (hlt p hp)
    have hle := (List.subperm_of_subset hlist.nodup hsub).length_le
    rwa [List.length_range] at hle
  obtain ⟨σ, hloop, ⟨done, hl, hsplit⟩, hlinks⟩ := Reorder.loop_returns hlist hlen vars
  rw [List.append_nil] at hl
  subst hl
  obtain ⟨hlow, hhigh⟩ := part_pagetype done
  rw [← hlow, ← hhigh]
  have hmem : ∀ i p, σ.tp i = .link p → p ∈ done := by
    intro i p hp
    rcases hsplit.tp_eq i with heq | ⟨a, ha, -, heq⟩
    · exact absurd (hp.symm.trans heq) nofun
    · obtain rfl := Cell.link.inj (hp.symm.trans heq)
      exact ha
  obtain ⟨σ₁, h₁⟩ : ∃ σ₁, σ₁ = σ.write (σ.tp 1) none := ⟨_, rfl⟩
  obtain ⟨σ₂, h₂⟩ : ∃ σ₂, σ₂ = σ₁.write (σ.tp 0) (σ₁.vars 1) := ⟨_, rfl⟩
  have hread₁ : σ₁.read = Function.update σ.read (σ.tp 1) none := by rw [h₁, Reorder.read_write]
  have hread₂ : σ₂.read = Function.update σ₁.read (σ.tp 0) (σ₁.read (.var 1)) := by
    rw [h₂, Reorder.read_write]
    rfl
  have hlinks₁ : Reorder.OnlyLinks s done σ₁.pmap := h₁ ▸ hlinks.write (hmem 1)
  have hlinks₂ : Reorder.OnlyLinks s done σ₂.pmap := h₂ ▸ hlinks₁.write (hmem 0)
  refine ⟨{ σ₂.pmap with pageFreeList := σ₂.vars 0 }, ?_, hsplit.splice (by decide) hread₁ hread₂, ?_, hlinks₂.ref,
    hlinks₂.others⟩
  · unfold reorderFreeList
    rw [hloop, Except.ok_bind, ← h₁]
    simp only [h₁, Reorder.write_tp]
    rw [← h₁, ← h₂]
    rfl
  · rw [hlinks₂.rest]

/-- Three pages on a list, the second of them a low one. -/
def mixedList : Pmap where
  npages := 2000
  pages p := if p = 1500 then ⟨some 3, 0#16⟩ else if p = 3 then ⟨some 1025, 0#16⟩ else ⟨none, 0#16⟩
  pageFreeList := some 1500
  kernPgdir := 0
  mmioBase := 0#32
  mem _ _ := 0#32

theorem mixedList_linked : Linked (fun p => (mixedList.pages p).ppLink) mixedList.pageFreeList [1500, 3, 1025] :=
  ⟨rfl, rfl, rfl, rfl⟩

/-- The low page comes first. -/
theorem reorderFreeList_mixed : ∃ s', reorderFreeList mixedList (fun _ => some 7) = .ok s' ∧
    Linked (fun p => (s'.pages p).ppLink) s'.pageFreeList [3, 1500, 1025] := by
  obtain ⟨s', hs', hlist, -⟩ := reorderFreeList_partition mixedList (fun _ => some 7) [1500, 3, 1025]
    mixedList_linked (by decide)
  exact ⟨s', hs', hlist⟩

/-! ## Freeing a page twice -/

/-- `page_free` detects that `p` is on the list `l`, and if it is not, and is as `page_alloc` leaves it, it puts it in
front, where `page_alloc` finds it and leaves everything as it was. -/
structure DetectsFree (s : Pmap) (l : List Nat) (p : Nat) : Prop where
  free : p ∈ l → pageFree s p = .error .pageFree
  allocated : p ∉ l → s.pages p = ⟨none, 0#16⟩ → p < s.npages → ∀ zero, ∃ s₁ s₂, pageFree s p = .ok s₁ ∧
    pageAlloc s₁ zero = .ok (some p, s₂) ∧ s₂.pages = s.pages ∧ s₂.pageFreeList = s.pageFreeList ∧
    Linked (fun p => (s₂.pages p).ppLink) s₂.pageFreeList l

theorem pageFree_error_iff (s : Pmap) (p : Nat) :
    pageFree s p = .error .pageFree ↔ (s.pages p).ppRef ≠ 0#16 ∨ (s.pages p).ppLink ≠ none := by
  unfold pageFree
  split
  · next h => exact iff_of_true rfl h
  · next h => exact iff_of_false nofun h

/-- Every page that is in memory has an address, if perhaps that of another. -/
theorem page2kva_returns {s : Pmap} {p : Nat} (hp : p < s.npages) : ∃ q, page2kva s p = .ok q := by
  have hle : PGNUM (page2pa p) ≤ p := by
    rw [PGNUM_eq, page2pa, BitVec.toNat_shiftLeft, BitVec.toNat_ofNat, Nat.shiftLeft_eq]
    omega
  exact ⟨_, kaddr_ok (hle.trans_lt hp)⟩

/-- Taking a page that has just been freed. -/
theorem pageAlloc_putFree {s : Pmap} {p : Nat} (hp : p < s.npages) (hpage : s.pages p = ⟨none, 0#16⟩) (zero : Bool) :
    ∃ s₂, pageAlloc (s.putFree p) zero = .ok (some p, s₂) ∧ s₂.pages = s.pages ∧ s₂.pageFreeList = s.pageFreeList := by
  have hpages : ((s.putFree p).takeFree p).pages = s.pages := by
    funext q
    rw [takeFree_pages, putFree_pages, putFree_pages, if_pos rfl]
    split
    · next hq => rw [hq, hpage]
    · rfl
  have hlist : ((s.putFree p).takeFree p).pageFreeList = s.pageFreeList := by
    rw [takeFree_pageFreeList, putFree_pages, if_pos rfl]
  obtain ⟨q, hq⟩ := page2kva_returns (s := (s.putFree p).takeFree p) hp
  unfold pageAlloc
  rw [putFree_pageFreeList]
  cases zero with
  | false => exact ⟨_, rfl, hpages, hlist⟩
  | true =>
    simp only [if_true]
    rw [← takeFree, hq]
    exact ⟨_, rfl, hpages, hlist⟩

/-- `page_free` detects a double free exactly when the page is not the last one on the list, or still has references. -/
theorem pageFree_detects_iff (s : Pmap) (l : List Nat) (p : Nat)
    (hlist : Linked (fun p => (s.pages p).ppLink) s.pageFreeList l) :
    DetectsFree s l p ↔ ¬ (l.getLast? = some p ∧ (s.pages p).ppRef = 0#16) := by
  have hallocated : p ∉ l → s.pages p = ⟨none, 0#16⟩ → p < s.npages → ∀ zero, ∃ s₁ s₂, pageFree s p = .ok s₁ ∧
      pageAlloc s₁ zero = .ok (some p, s₂) ∧ s₂.pages = s.pages ∧ s₂.pageFreeList = s.pageFreeList ∧
      Linked (fun p => (s₂.pages p).ppLink) s₂.pageFreeList l := by
    intro _ hpage hp zero
    obtain ⟨s₂, halloc, hpages, hhead⟩ := pageAlloc_putFree hp hpage zero
    refine ⟨s.putFree p, s₂, pageFree_ok (by rw [hpage]) (by rw [hpage]), halloc, hpages, hhead, ?_⟩
    rw [hpages, hhead]
    exact hlist
  have hiff : DetectsFree s l p ↔ (p ∈ l → pageFree s p = .error .pageFree) :=
    ⟨DetectsFree.free, fun h => ⟨h, hallocated⟩⟩
  rw [hiff, pageFree_error_iff]
  by_cases hp : p ∈ l
  · rw [← hlist.next_eq_none_iff hp]
    tauto
  · refine iff_of_true (fun h => absurd h hp) fun h => hp (List.mem_of_getLast? h.1)

/-- A second `page_free` of the last page on the list goes through, and makes a cycle of the list. -/
theorem pageFree_last : ¬ DetectsFree mixedList [1500, 3, 1025] 1025 := by
  intro h
  have hfree := h.free (by decide)
  rw [pageFree_error_iff] at hfree
  revert hfree
  decide

/-- One of the first page is detected. -/
theorem pageFree_first : DetectsFree mixedList [1500, 3, 1025] 1500 :=
  (pageFree_detects_iff mixedList [1500, 3, 1025] 1500 mixedList_linked).mpr (by decide)

end Jos
