import Mathlib.Data.Finset.Card
import Mathlib.Data.Finset.Basic
import Mathlib.Data.List.Nodup
import Mathlib.Logic.Function.Basic

/-!
# Reference-counted stores

A finite family of slots `i ∈ S` each name at most one cell. Every cell carries a count, and cells that
nobody names may sit on a free list. `Consistent` is the invariant of such a store: the count of every
managed cell is the number of slots that name it, free cells have count zero, and the slots marked
exclusive (`X`) name cells that no other slot names.

The operations are the ones an allocator with reference counts is built from: take a free cell
(`alloc`), give an unreferenced one back (`release`), let an empty slot name a cell (`link`), clear a
slot and free its cell if that was the last reference (`unlink`), and make a slot name another cell
(`relink`). Each keeps `Consistent` under the side condition its caller has to provide.
-/

variable {ι α : Type*} [DecidableEq ι] [DecidableEq α]

/-- The number of slots of `S` that name `a`. -/
def refCount (S : Finset ι) (f : ι → Option α) (a : α) : ℕ :=
  (S.filter fun i => f i = some a).card

section RefCount

variable {S : Finset ι} {f g : ι → Option α} {a b : α} {i j : ι}

omit [DecidableEq ι] in
theorem refCount_congr (h : ∀ i ∈ S, f i = g i) : refCount S f a = refCount S g a := by
  unfold refCount
  congr 1
  refine Finset.filter_congr (fun i hi => ?_)
  rw [h i hi]

omit [DecidableEq ι] in
theorem refCount_pos (hi : i ∈ S) (h : f i = some a) : 0 < refCount S f a :=
  Finset.card_pos.mpr ⟨i, Finset.mem_filter.mpr ⟨hi, h⟩⟩

omit [DecidableEq ι] in
theorem refCount_eq_zero : refCount S f a = 0 ↔ ∀ i ∈ S, f i ≠ some a := by
  rw [refCount, Finset.card_eq_zero, Finset.filter_eq_empty_iff]

/-- Two slots that name one cell count twice. -/
theorem two_le_refCount (hi : i ∈ S) (hj : j ∈ S) (hij : i ≠ j) (hfi : f i = some a)
    (hfj : f j = some a) : 2 ≤ refCount S f a := by
  have hsub : ({i, j} : Finset ι) ⊆ S.filter fun k => f k = some a := by
    intro k hk
    rcases Finset.mem_insert.mp hk with rfl | hk
    · exact Finset.mem_filter.mpr ⟨hi, hfi⟩
    · rw [Finset.mem_singleton.mp hk]
      exact Finset.mem_filter.mpr ⟨hj, hfj⟩
  calc 2 = ({i, j} : Finset ι).card := (Finset.card_pair hij).symm
    _ ≤ _ := Finset.card_le_card hsub

/-- Counts are additive in the slot that changes: what slot `i` named is lost, what it names now is
gained. -/
theorem refCount_update (hi : i ∈ S) (x : Option α) :
    refCount S (Function.update f i x) a + (if f i = some a then 1 else 0)
      = refCount S f a + (if x = some a then 1 else 0) := by
  have split : ∀ g : ι → Option α,
      refCount S g a = refCount (S.erase i) g a + (if g i = some a then 1 else 0) := by
    intro g
    have hSi : S = insert i (S.erase i) := (Finset.insert_erase hi).symm
    unfold refCount
    nth_rewrite 1 [hSi]
    rw [Finset.filter_insert]
    by_cases hg : g i = some a
    · rw [if_pos hg, if_pos hg, Finset.card_insert_of_notMem (by simp)]
    · rw [if_neg hg, if_neg hg, Nat.add_zero]
  have hrest : refCount (S.erase i) (Function.update f i x) a = refCount (S.erase i) f a :=
    refCount_congr fun k hk => Function.update_of_ne (Finset.ne_of_mem_erase hk) _ _
  rw [split (Function.update f i x), split f, hrest, Function.update_self]
  omega

end RefCount

/-- A store of counted cells: which cell each slot names, the count of each cell, the free list. -/
@[ext]
structure RefStore (ι α : Type*) where
  target : ι → Option α
  ref : α → ℕ
  free : List α

namespace RefStore

/-- The reference-count invariant over the slots `S`, with exclusive slots `X` and managed cells
`M`. -/
structure Consistent (S : Finset ι) (X : ι → Prop) (M : α → Prop) (r : RefStore ι α) : Prop where
  nodup : r.free.Nodup
  free_managed : ∀ a ∈ r.free, M a
  free_ref : ∀ a ∈ r.free, r.ref a = 0
  ref_eq : ∀ a, M a → r.ref a = refCount S r.target a
  target_managed : ∀ i ∈ S, ∀ a, r.target i = some a → M a
  excl : ∀ i ∈ S, X i → ∀ a, r.target i = some a → r.ref a = 1

/-- Give the unreferenced cell `a` back. -/
def release (a : α) (r : RefStore ι α) : RefStore ι α := { r with free := a :: r.free }

/-- Let the empty slot `i` name `a`. -/
def link (i : ι) (a : α) (r : RefStore ι α) : RefStore ι α :=
  { r with
    target := Function.update r.target i (some a)
    ref := Function.update r.ref a (r.ref a + 1) }

/-- Clear slot `i`, which names `a`, and free `a` if that was its last reference. -/
def unlink (i : ι) (a : α) (r : RefStore ι α) : RefStore ι α where
  target := Function.update r.target i none
  ref := Function.update r.ref a (r.ref a - 1)
  free := if r.ref a = 1 then a :: r.free else r.free

/-- Make slot `i` name `a`, whatever it named before. Naming the same cell again changes nothing; in
particular the cell is not freed on the way. -/
def relink (i : ι) (a : α) (r : RefStore ι α) : RefStore ι α :=
  match r.target i with
  | none => r.link i a
  | some b => if b = a then r else (r.unlink i b).link i a

variable {S : Finset ι} {X : ι → Prop} {M : α → Prop} {r : RefStore ι α} {i j : ι} {a b : α}

namespace Consistent

omit [DecidableEq ι] in
/-- A named cell has a positive count. -/
theorem ref_pos (h : Consistent S X M r) (hi : i ∈ S) (ht : r.target i = some a) : 0 < r.ref a := by
  rw [h.ref_eq a (h.target_managed i hi a ht)]
  exact refCount_pos hi ht

omit [DecidableEq ι] in
/-- A named cell is not free. -/
theorem notMem_free (h : Consistent S X M r) (hi : i ∈ S) (ht : r.target i = some a) :
    a ∉ r.free := by
  intro hfree
  have hpos := h.ref_pos hi ht
  rw [h.free_ref a hfree] at hpos
  exact Nat.lt_irrefl 0 hpos

omit [DecidableEq ι] in
/-- A free cell is named by no slot. -/
theorem target_ne_of_free (h : Consistent S X M r) (ha : a ∈ r.free) (hi : i ∈ S) :
    r.target i ≠ some a := fun ht => h.notMem_free hi ht ha

/-- An exclusively named cell is named by that slot only. -/
theorem excl_unique (h : Consistent S X M r) (hi : i ∈ S) (hX : X i) (ht : r.target i = some a)
    (hj : j ∈ S) (ht' : r.target j = some a) : i = j := by
  by_contra hne
  have hone := h.excl i hi hX a ht
  have htwo := two_le_refCount hi hj hne ht ht'
  rw [← h.ref_eq a (h.target_managed i hi a ht)] at htwo
  omega

omit [DecidableEq ι] in
/-- Taking the first free cell keeps the store consistent. -/
theorem alloc {l : List α} (h : Consistent S X M r) (hfree : r.free = a :: l) :
    Consistent S X M { r with free := l } where
  nodup := (List.nodup_cons.mp (hfree ▸ h.nodup)).2
  free_managed b hb := h.free_managed b (hfree ▸ List.mem_cons_of_mem a hb)
  free_ref b hb := h.free_ref b (hfree ▸ List.mem_cons_of_mem a hb)
  ref_eq := h.ref_eq
  target_managed := h.target_managed
  excl := h.excl

omit [DecidableEq ι] in
theorem release (h : Consistent S X M r) (hM : M a) (ha : a ∉ r.free) (href : r.ref a = 0) :
    Consistent S X M (r.release a) where
  nodup := List.nodup_cons.mpr ⟨ha, h.nodup⟩
  free_managed b hb := by
    rcases List.mem_cons.mp hb with rfl | hb
    · exact hM
    · exact h.free_managed b hb
  free_ref b hb := by
    rcases List.mem_cons.mp hb with rfl | hb
    · exact href
    · exact h.free_ref b hb
  ref_eq := h.ref_eq
  target_managed := h.target_managed
  excl := h.excl

theorem link (h : Consistent S X M r) (hi : i ∈ S) (ht : r.target i = none) (hM : M a)
    (ha : a ∉ r.free) (hshared : ∀ j ∈ S, X j → r.target j ≠ some a) (hX : X i → r.ref a = 0) :
    Consistent S X M (r.link i a) where
  nodup := h.nodup
  free_managed := h.free_managed
  free_ref b hb := by
    have hne : b ≠ a := fun hba => ha (hba ▸ hb)
    show Function.update r.ref a (r.ref a + 1) b = 0
    rw [Function.update_of_ne hne, h.free_ref b hb]
  ref_eq b hb := by
    show Function.update r.ref a (r.ref a + 1) b
      = refCount S (Function.update r.target i (some a)) b
    have hupd := refCount_update (f := r.target) (a := b) hi (some a)
    rw [ht, if_neg (by simp)] at hupd
    by_cases hba : b = a
    · subst hba
      rw [if_pos rfl] at hupd
      rw [Function.update_self, h.ref_eq b hb]
      omega
    · rw [if_neg (by simpa using fun hab => hba hab.symm)] at hupd
      rw [Function.update_of_ne hba, h.ref_eq b hb]
      omega
  target_managed j hj b hb := by
    change Function.update r.target i (some a) j = some b at hb
    by_cases hji : j = i
    · rw [hji, Function.update_self] at hb
      exact Option.some.inj hb ▸ hM
    · rw [Function.update_of_ne hji] at hb
      exact h.target_managed j hj b hb
  excl j hj hXj b hb := by
    change Function.update r.target i (some a) j = some b at hb
    show Function.update r.ref a (r.ref a + 1) b = 1
    by_cases hji : j = i
    · rw [hji, Function.update_self] at hb
      obtain rfl := Option.some.inj hb
      rw [Function.update_self, hX (hji ▸ hXj)]
    · rw [Function.update_of_ne hji] at hb
      have hba : b ≠ a := fun hba => hshared j hj hXj (hba ▸ hb)
      rw [Function.update_of_ne hba]
      exact h.excl j hj hXj b hb

theorem unlink (h : Consistent S X M r) (hi : i ∈ S) (ht : r.target i = some a) :
    Consistent S X M (r.unlink i a) := by
  have hM := h.target_managed i hi a ht
  have hpos := h.ref_pos hi ht
  have hcount : ∀ b, M b → Function.update r.ref a (r.ref a - 1) b
      = refCount S (Function.update r.target i none) b := by
    intro b hb
    have hupd := refCount_update (f := r.target) (a := b) hi none
    rw [ht, if_neg (by simp : ¬ (none : Option α) = some b)] at hupd
    by_cases hba : b = a
    · subst hba
      rw [if_pos rfl] at hupd
      rw [Function.update_self, h.ref_eq b hb]
      omega
    · rw [if_neg (by simpa using fun hab => hba hab.symm)] at hupd
      rw [Function.update_of_ne hba, h.ref_eq b hb]
      omega
  have htarget : ∀ j b, Function.update r.target i none j = some b →
      j ≠ i ∧ r.target j = some b := by
    intro j b hb
    by_cases hji : j = i
    · rw [hji, Function.update_self] at hb
      exact absurd hb (by simp)
    · rw [Function.update_of_ne hji] at hb
      exact ⟨hji, hb⟩
  have hfree : ∀ b ∈ (r.unlink i a).free, b ∈ r.free ∨ (b = a ∧ r.ref a = 1) := by
    intro b hb
    change b ∈ (if r.ref a = 1 then a :: r.free else r.free) at hb
    by_cases hone : r.ref a = 1
    · rw [if_pos hone] at hb
      rcases List.mem_cons.mp hb with hba | hb
      · exact Or.inr ⟨hba, hone⟩
      · exact Or.inl hb
    · rw [if_neg hone] at hb
      exact Or.inl hb
  refine ⟨?nodup, ?managed, ?ref0, hcount, ?tm, ?excl⟩
  case nodup =>
    show (if r.ref a = 1 then a :: r.free else r.free).Nodup
    by_cases hone : r.ref a = 1
    · rw [if_pos hone]
      exact List.nodup_cons.mpr ⟨h.notMem_free hi ht, h.nodup⟩
    · rw [if_neg hone]
      exact h.nodup
  case managed =>
    intro b hb
    rcases hfree b hb with hb | ⟨rfl, -⟩
    · exact h.free_managed b hb
    · exact hM
  case ref0 =>
    intro b hb
    show Function.update r.ref a (r.ref a - 1) b = 0
    rcases hfree b hb with hb | ⟨rfl, hone⟩
    · have hba : b ≠ a := fun hba => h.notMem_free hi ht (hba ▸ hb)
      rw [Function.update_of_ne hba, h.free_ref b hb]
    · rw [Function.update_self, hone]
  case tm => exact fun j hj b hb => h.target_managed j hj b (htarget j b hb).2
  case excl =>
    intro j hj hXj b hb
    obtain ⟨hji, hb⟩ := htarget j b hb
    -- an exclusively named cell is not the one slot `i` gives up
    have hba : b ≠ a := fun hba => hji (h.excl_unique hj hXj hb hi (hba ▸ ht))
    show Function.update r.ref a (r.ref a - 1) b = 1
    rw [Function.update_of_ne hba]
    exact h.excl j hj hXj b hb

theorem relink (h : Consistent S X M r) (hi : i ∈ S) (hXi : ¬ X i) (hM : M a) (ha : a ∉ r.free)
    (hshared : ∀ j ∈ S, X j → r.target j ≠ some a) : Consistent S X M (r.relink i a) := by
  unfold RefStore.relink
  split
  · next ht => exact h.link hi ht hM ha hshared (fun hX => absurd hX hXi)
  · next b ht =>
    by_cases hba : b = a
    · rw [if_pos hba]
      exact h
    · rw [if_neg hba]
      refine (h.unlink hi ht).link hi (Function.update_self ..) hM ?_ ?_ (fun hX => absurd hX hXi)
      · show a ∉ (if r.ref b = 1 then b :: r.free else r.free)
        split
        · exact fun hmem => (List.mem_cons.mp hmem).elim (fun hab => hba hab.symm) ha
        · exact ha
      · intro j hj hXj hbj
        change Function.update r.target i none j = some a at hbj
        have hji : j ≠ i := fun hji => hXi (hji ▸ hXj)
        rw [Function.update_of_ne hji] at hbj
        exact hshared j hj hXj hbj

end Consistent

/-! ### What `relink` does to the counts -/

/-- Naming the same cell again changes nothing. -/
theorem relink_of_named (ht : r.target i = some a) : r.relink i a = r := by
  rw [relink, ht]
  exact if_pos rfl

/-- The other slots keep their cells. -/
theorem relink_target_of_ne (hji : j ≠ i) : (r.relink i a).target j = r.target j := by
  unfold relink
  split
  · exact Function.update_of_ne hji ..
  · split
    · rfl
    · show Function.update (Function.update r.target i none) i (some a) j = r.target j
      rw [Function.update_of_ne hji, Function.update_of_ne hji]

/-- Any other cell gains a reference. -/
theorem relink_ref_new (ht : r.target i ≠ some a) : (r.relink i a).ref a = r.ref a + 1 := by
  unfold relink
  split
  · exact Function.update_self ..
  · next b hb =>
    have hba : b ≠ a := fun hba => ht (hba ▸ hb)
    rw [if_neg hba]
    show Function.update (Function.update r.ref b _) a _ a = _
    rw [Function.update_self]
    show Function.update r.ref b _ a + 1 = _
    rw [Function.update_of_ne hba.symm]

/-- The cell the slot named before loses one, -/
theorem relink_ref_old (ht : r.target i = some b) (hba : b ≠ a) :
    (r.relink i a).ref b = r.ref b - 1 := by
  rw [relink, ht]
  simp only [if_neg hba]
  show Function.update (Function.update r.ref b _) a _ b = _
  rw [Function.update_of_ne hba, Function.update_self]

/-- and is freed exactly when it was the last. -/
theorem mem_relink_free (ht : r.target i = some b) (hba : b ≠ a) (hb : b ∉ r.free) :
    b ∈ (r.relink i a).free ↔ r.ref b = 1 := by
  rw [relink, ht]
  simp only [if_neg hba]
  show b ∈ (if r.ref b = 1 then b :: r.free else r.free) ↔ _
  split
  · next hone => exact ⟨fun _ => hone, fun _ => List.mem_cons_self ..⟩
  · next hone => exact ⟨fun hmem => absurd hmem hb, fun h => absurd h hone⟩

/-- No cell gets lost: one that is free or referenced stays so. -/
theorem held_relink (i : ι) (a : α) (h : b ∈ r.free ∨ 0 < r.ref b) :
    b ∈ (r.relink i a).free ∨ 0 < (r.relink i a).ref b := by
  by_cases hba : b = a
  · subst hba
    by_cases ht : r.target i = some b
    · rw [relink_of_named ht]
      exact h
    · rw [relink_ref_new ht]
      exact Or.inr (Nat.succ_pos _)
  · unfold relink
    split
    · show b ∈ r.free ∨ 0 < Function.update r.ref a _ b
      rw [Function.update_of_ne hba]
      exact h
    · next c hc =>
      by_cases hca : c = a
      · rw [if_pos hca]
        exact h
      · rw [if_neg hca]
        show b ∈ (if r.ref c = 1 then c :: r.free else r.free) ∨
          0 < Function.update (Function.update r.ref c _) a _ b
        rw [Function.update_of_ne hba]
        by_cases hbc : b = c
        · subst hbc
          rw [Function.update_self]
          split
          · exact Or.inl (List.mem_cons_self ..)
          · exact h.imp_right fun hpos => by omega
        · rw [Function.update_of_ne hbc]
          refine h.imp_left fun hb => ?_
          split
          · exact List.mem_cons_of_mem c hb
          · exact hb

end RefStore
