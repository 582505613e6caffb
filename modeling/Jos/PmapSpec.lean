import Jos.Lib.Fallible
import Jos.Pmap

/-!
# What the functions of `pmap.c` compute

Each function that may panic is rewritten as a total state transformer under the condition that it does
not. Callers use these equations and never unfold the functions again.
-/

namespace Jos

/-- The directory entry of a fresh page table. -/
def freshPde (p : Nat) : Word := page2pa p ||| PTE_P ||| PTE_U ||| PTE_W

theorem ppn_freshPde {p : Nat} (h : p < 1048576) : ppn (freshPde p) = p := by
  rw [freshPde, ppn_or_flags _ (by decide), ppn_or_flags _ (by decide), ppn_or_flags _ (by decide),
    ppn_page2pa h]

theorem present_freshPde (p : Nat) : present (freshPde p) :=
  present_or_left _ (present_or_left _ (present_or_right _ (by decide)))

namespace Pmap

variable (s : Pmap) (p q : Nat) (r : BitVec 16) (k : Option Nat) (a : PtePtr) (w : Word)

@[simp] theorem setRef_npages : (s.setRef p r).npages = s.npages := rfl
@[simp] theorem setRef_mem : (s.setRef p r).mem = s.mem := rfl
@[simp] theorem setRef_pageFreeList : (s.setRef p r).pageFreeList = s.pageFreeList := rfl
@[simp] theorem setRef_kernPgdir : (s.setRef p r).kernPgdir = s.kernPgdir := rfl
@[simp] theorem setRef_mmioBase : (s.setRef p r).mmioBase = s.mmioBase := rfl
@[simp] theorem setLink_npages : (s.setLink p k).npages = s.npages := rfl
@[simp] theorem setLink_mem : (s.setLink p k).mem = s.mem := rfl
@[simp] theorem setLink_pageFreeList : (s.setLink p k).pageFreeList = s.pageFreeList := rfl
@[simp] theorem setLink_kernPgdir : (s.setLink p k).kernPgdir = s.kernPgdir := rfl
@[simp] theorem setLink_mmioBase : (s.setLink p k).mmioBase = s.mmioBase := rfl
@[simp] theorem store_npages : (s.store a w).npages = s.npages := rfl
@[simp] theorem store_pages : (s.store a w).pages = s.pages := rfl
@[simp] theorem store_pageFreeList : (s.store a w).pageFreeList = s.pageFreeList := rfl
@[simp] theorem store_kernPgdir : (s.store a w).kernPgdir = s.kernPgdir := rfl
@[simp] theorem store_mmioBase : (s.store a w).mmioBase = s.mmioBase := rfl
@[simp] theorem clearPage_npages : (s.clearPage p).npages = s.npages := rfl
@[simp] theorem clearPage_pages : (s.clearPage p).pages = s.pages := rfl
@[simp] theorem clearPage_pageFreeList : (s.clearPage p).pageFreeList = s.pageFreeList := rfl
@[simp] theorem clearPage_kernPgdir : (s.clearPage p).kernPgdir = s.kernPgdir := rfl
@[simp] theorem clearPage_mmioBase : (s.clearPage p).mmioBase = s.mmioBase := rfl

theorem setRef_pages :
    (s.setRef p r).pages q = if q = p then { s.pages p with ppRef := r } else s.pages q := by
  simp [setRef, Function.update_apply]

theorem setLink_pages :
    (s.setLink p k).pages q = if q = p then { s.pages p with ppLink := k } else s.pages q := by
  simp [setLink, Function.update_apply]

theorem store_mem (pg i : Nat) :
    (s.store a w).mem pg i = if pg = a.page ∧ i = a.idx then w else s.mem pg i := by
  simp only [store, Function.update_apply]
  by_cases hp : pg = a.page
  · subst hp
    by_cases hi : i = a.idx <;> simp [hi]
  · simp [hp]

/-- A store leaves every other page alone. -/
theorem store_mem_of_ne {pg : Nat} (h : pg ≠ a.page) : (s.store a w).mem pg = s.mem pg := by
  simp [store, Function.update_of_ne h]

theorem clearPage_mem_self (i : Nat) : (s.clearPage p).mem p i = 0#32 := by
  simp [clearPage]

theorem clearPage_mem_of_ne {pg : Nat} (h : pg ≠ p) : (s.clearPage p).mem pg = s.mem pg := by
  simp [clearPage, Function.update_of_ne h]

/-- Take the head `p` off the free list. -/
def takeFree (s : Pmap) (p : Nat) : Pmap :=
  ({ s with pageFreeList := (s.pages p).ppLink } : Pmap).setLink p none

@[simp] theorem takeFree_npages : (s.takeFree p).npages = s.npages := rfl
@[simp] theorem takeFree_mem : (s.takeFree p).mem = s.mem := rfl
@[simp] theorem takeFree_pageFreeList : (s.takeFree p).pageFreeList = (s.pages p).ppLink := rfl
@[simp] theorem takeFree_kernPgdir : (s.takeFree p).kernPgdir = s.kernPgdir := rfl
@[simp] theorem takeFree_mmioBase : (s.takeFree p).mmioBase = s.mmioBase := rfl

theorem takeFree_pages :
    (s.takeFree p).pages q = if q = p then { s.pages p with ppLink := none } else s.pages q := by
  rw [takeFree, setLink_pages]

/-- Push `p` onto the free list. -/
def putFree (s : Pmap) (p : Nat) : Pmap :=
  { s.setLink p s.pageFreeList with pageFreeList := some p }

@[simp] theorem putFree_npages : (s.putFree p).npages = s.npages := rfl
@[simp] theorem putFree_mem : (s.putFree p).mem = s.mem := rfl
@[simp] theorem putFree_pageFreeList : (s.putFree p).pageFreeList = some p := rfl
@[simp] theorem putFree_kernPgdir : (s.putFree p).kernPgdir = s.kernPgdir := rfl
@[simp] theorem putFree_mmioBase : (s.putFree p).mmioBase = s.mmioBase := rfl

theorem putFree_pages :
    (s.putFree p).pages q
      = if q = p then { s.pages p with ppLink := s.pageFreeList } else s.pages q := by
  show (s.setLink p s.pageFreeList).pages q = _
  rw [setLink_pages]

/-- The effect of `page_decref` when the page is not on the free list. -/
def decref (s : Pmap) (p : Nat) : Pmap :=
  if (s.pages p).ppRef - 1#16 = 0#16 then (s.setRef p ((s.pages p).ppRef - 1#16)).putFree p
  else s.setRef p ((s.pages p).ppRef - 1#16)

@[simp] theorem decref_npages : (s.decref p).npages = s.npages := by
  unfold decref; split <;> rfl

@[simp] theorem decref_mem : (s.decref p).mem = s.mem := by
  unfold decref; split <;> rfl

@[simp] theorem decref_kernPgdir : (s.decref p).kernPgdir = s.kernPgdir := by
  unfold decref; split <;> rfl

@[simp] theorem decref_mmioBase : (s.decref p).mmioBase = s.mmioBase := by
  unfold decref; split <;> rfl

/-- The state after `pgdir_walk` has made the fresh page `p` the page table of entry `i`. -/
def newTable (s : Pmap) (pgdir i p : Nat) : Pmap :=
  (((s.takeFree p).clearPage p).setRef p ((s.pages p).ppRef + 1#16)).store ⟨pgdir, i⟩
    (freshPde p)

theorem newTable_pages_of_ne {s : Pmap} {pgdir i p q : Nat} (h : q ≠ p) :
    (s.newTable pgdir i p).pages q = s.pages q := by
  rw [newTable, store_pages, setRef_pages, if_neg h, clearPage_pages, takeFree_pages, if_neg h]

end Pmap

open Pmap

/-! ## Translation macros -/

theorem kaddr_ok {s : Pmap} {pa : Word} (h : PGNUM pa < s.npages) : kaddr s pa = .ok (PGNUM pa) := by
  rw [kaddr, if_neg (Nat.not_le.mpr h)]
  rfl

theorem pa2page_ok {s : Pmap} {pa : Word} (h : PGNUM pa < s.npages) :
    pa2page s pa = .ok (PGNUM pa) := by
  rw [pa2page, if_neg (Nat.not_le.mpr h)]
  rfl

theorem PGNUM_page2pa {p : Nat} (h : p < 1048576) : PGNUM (page2pa p) = p := by
  rw [PGNUM_eq, toNat_page2pa h]
  omega

theorem page2kva_ok {s : Pmap} {p : Nat} (h : p < s.npages) (hn : s.npages ≤ 1048576) :
    page2kva s p = .ok p := by
  have hp : PGNUM (page2pa p) = p := PGNUM_page2pa (by omega)
  rw [page2kva, kaddr_ok (by omega), hp]

/-! ## Allocator -/

theorem pageAlloc_none {s : Pmap} (zero : Bool) (h : s.pageFreeList = none) :
    pageAlloc s zero = .ok (none, s) := by
  simp only [pageAlloc, h]
  rfl

theorem pageAlloc_some {s : Pmap} {p : Nat} (zero : Bool) (h : s.pageFreeList = some p)
    (hp : p < s.npages) (hn : s.npages ≤ 1048576) :
    pageAlloc s zero
      = .ok (some p, if zero then (s.takeFree p).clearPage p else s.takeFree p) := by
  have hkva : page2kva (s.takeFree p) p = .ok p := page2kva_ok hp hn
  unfold takeFree at hkva
  cases zero
  · simp [pageAlloc, h, takeFree]
  · simp [pageAlloc, h, takeFree, hkva]

theorem pageFree_ok {s : Pmap} {p : Nat} (href : (s.pages p).ppRef = 0#16)
    (hlink : (s.pages p).ppLink = none) : pageFree s p = .ok (s.putFree p) := by
  simp [pageFree, href, hlink, putFree]

theorem pageDecref_ok {s : Pmap} {p : Nat} (hlink : (s.pages p).ppLink = none) :
    pageDecref s p = .ok (s.decref p) := by
  have hpages : (s.setRef p ((s.pages p).ppRef - 1#16)).pages p
      = { s.pages p with ppRef := (s.pages p).ppRef - 1#16 } := by
    rw [setRef_pages, if_pos rfl]
  unfold pageDecref decref
  simp only [hpages]
  split
  · next hz => exact pageFree_ok (by rw [hpages]; exact hz) (by rw [hpages]; exact hlink)
  · rfl

/-! ## Walks -/

theorem pgdirWalk_present {s : Pmap} {pgdir : Nat} {va : Word} (create : Bool)
    (hP : present (s.mem pgdir (PDX va))) (hlt : ppn (s.mem pgdir (PDX va)) < s.npages) :
    pgdirWalk s pgdir va create = .ok (some ⟨ppn (s.mem pgdir (PDX va)), PTX va⟩, s) := by
  have hk : kaddr s (PTE_ADDR (s.mem pgdir (PDX va))) = .ok (ppn (s.mem pgdir (PDX va))) :=
    kaddr_ok hlt
  simp [pgdirWalk, load, hP, hk]

/-- `KADDR` panics on a page table outside of memory. -/
theorem pgdirWalk_far {s : Pmap} {pgdir : Nat} {va : Word} (create : Bool)
    (hP : present (s.mem pgdir (PDX va))) (hge : s.npages ≤ ppn (s.mem pgdir (PDX va))) :
    pgdirWalk s pgdir va create = .error .kaddr := by
  have hk : kaddr s (PTE_ADDR (s.mem pgdir (PDX va))) = .error .kaddr := if_pos hge
  simp [pgdirWalk, load, hP, hk]

theorem pgdirWalk_absent {s : Pmap} {pgdir : Nat} {va : Word}
    (hP : ¬ present (s.mem pgdir (PDX va))) : pgdirWalk s pgdir va false = .ok (none, s) := by
  simp [pgdirWalk, load, hP]

theorem pgdirWalk_noMem {s : Pmap} {pgdir : Nat} {va : Word}
    (hP : ¬ present (s.mem pgdir (PDX va))) (hfree : s.pageFreeList = none) :
    pgdirWalk s pgdir va true = .ok (none, s) := by
  simp [pgdirWalk, load, hP, pageAlloc_none _ hfree]

theorem pgdirWalk_create {s : Pmap} {pgdir p : Nat} {va : Word}
    (hP : ¬ present (s.mem pgdir (PDX va))) (hfree : s.pageFreeList = some p)
    (hp : p < s.npages) (hn : s.npages ≤ 1048576) :
    pgdirWalk s pgdir va true = .ok (some ⟨p, PTX va⟩, s.newTable pgdir (PDX va) p) := by
  have halloc := pageAlloc_some true hfree hp hn
  rw [if_pos rfl] at halloc
  have href : (((s.takeFree p).clearPage p).pages p).ppRef = (s.pages p).ppRef := by
    rw [clearPage_pages, takeFree_pages, if_pos rfl]
  have hload : (s.newTable pgdir (PDX va) p).load ⟨pgdir, PDX va⟩ = freshPde p := by
    rw [load, newTable, store_mem, if_pos ⟨rfl, rfl⟩]
  have hk : kaddr (s.newTable pgdir (PDX va) p) (PTE_ADDR (freshPde p)) = .ok p := by
    have hpp := ppn_freshPde (p := p) (by omega)
    rw [ppn] at hpp
    rw [kaddr_ok (by rw [hpp]; exact hp), hpp]
  have hstate : (((s.takeFree p).clearPage p).setRef p
      ((((s.takeFree p).clearPage p).pages p).ppRef + 1#16)).store ⟨pgdir, PDX va⟩
      (page2pa p ||| PTE_P ||| PTE_U ||| PTE_W) = s.newTable pgdir (PDX va) p := by
    rw [href, newTable, freshPde]
  have hnp : ¬ present (s.load ⟨pgdir, PDX va⟩) := hP
  simp only [pgdirWalk, hnp, not_false_eq_true, if_true, halloc, Except.ok_bind, hstate, hload, hk,
    Except.pure_eq]

/-! ## Lookup, removal, insertion -/

theorem pageLookup_absent {s : Pmap} {pgdir : Nat} {va : Word}
    (hP : ¬ present (s.mem pgdir (PDX va))) : pageLookup s pgdir va = .ok none := by
  simp [pageLookup, pgdirWalk_absent hP]

theorem pageLookup_zero {s : Pmap} {pgdir : Nat} {va : Word}
    (hP : present (s.mem pgdir (PDX va))) (hlt : ppn (s.mem pgdir (PDX va)) < s.npages)
    (hz : s.mem (ppn (s.mem pgdir (PDX va))) (PTX va) = 0#32) : pageLookup s pgdir va = .ok none := by
  simp [pageLookup, pgdirWalk_present false hP hlt, load, hz]

theorem pageLookup_some {s : Pmap} {pgdir : Nat} {va : Word}
    (hP : present (s.mem pgdir (PDX va))) (hlt : ppn (s.mem pgdir (PDX va)) < s.npages)
    (hnz : s.mem (ppn (s.mem pgdir (PDX va))) (PTX va) ≠ 0#32)
    (hlt' : ppn (s.mem (ppn (s.mem pgdir (PDX va))) (PTX va)) < s.npages) :
    pageLookup s pgdir va = .ok (some (ppn (s.mem (ppn (s.mem pgdir (PDX va))) (PTX va)),
      ⟨ppn (s.mem pgdir (PDX va)), PTX va⟩)) := by
  have hpp : pa2page s (PTE_ADDR (s.mem (ppn (s.mem pgdir (PDX va))) (PTX va)))
      = .ok (ppn (s.mem (ppn (s.mem pgdir (PDX va))) (PTX va))) := pa2page_ok hlt'
  simp [pageLookup, pgdirWalk_present false hP hlt, load, hnz, hpp]

theorem pageRemove_none {s : Pmap} {pgdir : Nat} {va : Word} (h : pageLookup s pgdir va = .ok none) :
    pageRemove s pgdir va = .ok s := by
  simp [pageRemove, h]

theorem pageRemove_some {s : Pmap} {pgdir p : Nat} {va : Word} {pte : PtePtr}
    (h : pageLookup s pgdir va = .ok (some (p, pte))) (hlink : (s.pages p).ppLink = none) :
    pageRemove s pgdir va = .ok ((s.decref p).store pte 0#32) := by
  simp [pageRemove, h, pageDecref_ok hlink]

end Jos
