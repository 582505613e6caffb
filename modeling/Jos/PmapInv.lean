import Mathlib.Data.Set.Basic
import Jos.PageTables

/-!
# The invariant of the page tables

`PmapInv R D l s` is what `pmap.c` maintains between calls: `R` are the pages boot code reserved, `D` the
page directories of environments and `l` the free list. It joins three parts: the free list is threaded
through `pp_link` and nothing else is (`FreeInv`), the counts are those of the references held below
`UTOP` (`RefStore.Consistent`), and the directories have the shape `env_setup_vm` gives them
(`MapInv`).

The second half of the module shows that the primitive steps keep the invariant: taking a page off the
free list, giving one back, writing to pages that hold no page tables, hanging a page table under a
directory, setting and clearing page table entries.
-/

namespace Jos

open Pmap

/-- The free list is `l`, and pages that are not on it have a null link. -/
structure FreeInv (s : Pmap) (l : List Nat) : Prop where
  linked : Linked (fun p => (s.pages p).ppLink) s.pageFreeList l
  unlinked : ∀ p < s.npages, p ∉ l → (s.pages p).ppLink = none

/-- The shape of the kernel's directory and of the directories of environments. -/
structure MapInv (R : Set Nat) (D : Finset Nat) (s : Pmap) : Prop where
  /-- Above `UTOP` every directory is a copy of the kernel's, -/
  upper : ∀ d ∈ D, ∀ i, NUPDE ≤ i → i < 1024 → i ≠ PDX UVPT → s.mem d i = s.mem s.kernPgdir i
  /-- except that `UVPT` maps the directory itself. -/
  self : ∀ d ∈ D, s.mem d (PDX UVPT) = page2pa d ||| PTE_P ||| PTE_U
  pde_perm : ∀ d ∈ D, ∀ i < NUPDE, present (s.mem d i) → userWritable (s.mem d i)
  /-- An entry that is not present is zero, which is what `page_lookup` relies on. -/
  pte_wf : ∀ d ∈ D, ∀ v < NUVPN, pteOf s d v = 0#32 ∨ present (pteOf s d v)
  kern_res : s.kernPgdir ∈ R ∧ s.kernPgdir < s.npages
  kern_user : ∀ i < NUPDE, s.mem s.kernPgdir i = 0#32
  kern_upper : ∀ i, NUPDE ≤ i → i < 1024 → present (s.mem s.kernPgdir i) →
    ppn (s.mem s.kernPgdir i) ∈ R ∧ ppn (s.mem s.kernPgdir i) < s.npages
  /-- User code may write through no entry above `UTOP`. -/
  kern_guard : ∀ i, NUPDE ≤ i → i < 1024 → i ≠ PDX UVPT → present (s.mem s.kernPgdir i) →
    ∀ j < 1024, ¬ userWritable (s.mem (ppn (s.mem s.kernPgdir i)) j)
  /-- `UENVS` is mapped, to a page boot code reserved. -/
  uenvs : present (s.mem s.kernPgdir NUPDE) ∧ present (s.mem (ppn (s.mem s.kernPgdir NUPDE)) 0) ∧
    ppn (s.mem (ppn (s.mem s.kernPgdir NUPDE)) 0) ∈ R ∧
    ppn (s.mem (ppn (s.mem s.kernPgdir NUPDE)) 0) < s.npages

/-- The invariant of `pmap.c` with reserved pages `R`, directories `D` and free list `l`. -/
structure PmapInv (R : Set Nat) (D : Finset Nat) (l : List Nat) (s : Pmap) : Prop where
  /-- `KERNBASE` leaves room for 256 MB of physical memory. -/
  npages_le : s.npages ≤ 65536
  dirs_lt : ∀ d ∈ D, d < s.npages
  free : FreeInv s l
  consistent : (absStore s D l).Consistent (slots s.npages) Slot.Excl (Managed s.npages R)
  map : MapInv R D s

variable {R : Set Nat} {D : Finset Nat} {l : List Nat} {s s' : Pmap}

/-! ## What the counts say about directories and tables -/

namespace PmapInv

section Facts

variable {d d' i i' v p q : Nat}

theorem dir_mem (h : PmapInv R D l s) (hd : d ∈ D) : Slot.dir d ∈ slots s.npages :=
  dir_mem_slots.mpr (h.dirs_lt d hd)

theorem pde_mem (h : PmapInv R D l s) (hd : d ∈ D) (hi : i < NUPDE) :
    Slot.pde d i ∈ slots s.npages := pde_mem_slots.mpr ⟨h.dirs_lt d hd, hi⟩

theorem pte_mem (h : PmapInv R D l s) (hd : d ∈ D) (hv : v < NUVPN) :
    Slot.pte d v ∈ slots s.npages := pte_mem_slots.mpr ⟨h.dirs_lt d hd, hv⟩

theorem target_dir (hd : d ∈ D) : (absStore s D l).target (.dir d) = some d := if_pos hd

theorem target_table (hd : d ∈ D) (hi : i < NUPDE) (hP : present (s.mem d i)) :
    (absStore s D l).target (.pde d i) = some (ppn (s.mem d i)) :=
  (target_pde hd hi).trans (named_present hP)

theorem target_page (hd : d ∈ D) (hv : v < NUVPN) (hP : present (pteOf s d v)) :
    (absStore s D l).target (.pte d v) = some (ppn (pteOf s d v)) :=
  (target_pte hd hv).trans (named_present hP)

theorem dir_managed (h : PmapInv R D l s) (hd : d ∈ D) : Managed s.npages R d :=
  h.consistent.target_managed _ (h.dir_mem hd) d (target_dir hd)

theorem table_managed (h : PmapInv R D l s) (hd : d ∈ D) (hi : i < NUPDE)
    (hP : present (s.mem d i)) : Managed s.npages R (ppn (s.mem d i)) :=
  h.consistent.target_managed _ (h.pde_mem hd hi) _ (target_table hd hi hP)

theorem page_managed (h : PmapInv R D l s) (hd : d ∈ D) (hv : v < NUVPN)
    (hP : present (pteOf s d v)) : Managed s.npages R (ppn (pteOf s d v)) :=
  h.consistent.target_managed _ (h.pte_mem hd hv) _ (target_page hd hv hP)

theorem dir_notMem_free (h : PmapInv R D l s) (hd : d ∈ D) : d ∉ l :=
  h.consistent.notMem_free (h.dir_mem hd) (target_dir hd)

theorem table_notMem_free (h : PmapInv R D l s) (hd : d ∈ D) (hi : i < NUPDE)
    (hP : present (s.mem d i)) : ppn (s.mem d i) ∉ l :=
  h.consistent.notMem_free (h.pde_mem hd hi) (target_table hd hi hP)

theorem page_notMem_free (h : PmapInv R D l s) (hd : d ∈ D) (hv : v < NUVPN)
    (hP : present (pteOf s d v)) : ppn (pteOf s d v) ∉ l :=
  h.consistent.notMem_free (h.pte_mem hd hv) (target_page hd hv hP)

theorem dir_ref (h : PmapInv R D l s) (hd : d ∈ D) : (s.pages d).ppRef.toNat = 1 :=
  h.consistent.excl _ (h.dir_mem hd) trivial d (target_dir hd)

theorem table_ref (h : PmapInv R D l s) (hd : d ∈ D) (hi : i < NUPDE)
    (hP : present (s.mem d i)) : (s.pages (ppn (s.mem d i))).ppRef.toNat = 1 :=
  h.consistent.excl _ (h.pde_mem hd hi) trivial _ (target_table hd hi hP)

theorem page_ref_pos (h : PmapInv R D l s) (hd : d ∈ D) (hv : v < NUVPN)
    (hP : present (pteOf s d v)) : 0 < (s.pages (ppn (pteOf s d v))).ppRef.toNat :=
  h.consistent.ref_pos (h.pte_mem hd hv) (target_page hd hv hP)

theorem sep (h : PmapInv R D l s) : Sep s D where
  table_ne_dir d hd d' hd' i hi hP he := by
    have hu := h.consistent.excl_unique (h.pde_mem hd hi) trivial (target_table hd hi hP)
      (h.dir_mem hd') (by rw [target_dir hd', he])
    exact Slot.noConfusion hu
  table_inj d hd d' hd' i hi i' hi' hP hP' he := by
    have hu := h.consistent.excl_unique (h.pde_mem hd hi) trivial (target_table hd hi hP)
      (h.pde_mem hd' hi') (by rw [target_table hd' hi' hP', he])
    exact Slot.pde.inj hu

/-- A page mapped below `UTOP` is not a directory. -/
theorem page_ne_dir (h : PmapInv R D l s) (hd : d ∈ D) (hv : v < NUVPN)
    (hP : present (pteOf s d v)) (hd' : d' ∈ D) : ppn (pteOf s d v) ≠ d' := by
  intro he
  have hu := h.consistent.excl_unique (h.dir_mem hd') trivial (target_dir hd')
    (h.pte_mem hd hv) (by rw [target_page hd hv hP, he])
  exact Slot.noConfusion hu

/-- A page mapped below `UTOP` is not a page table. -/
theorem page_ne_table (h : PmapInv R D l s) (hd : d ∈ D) (hv : v < NUVPN)
    (hP : present (pteOf s d v)) (hd' : d' ∈ D) (hi : i < NUPDE) (hP' : present (s.mem d' i)) :
    ppn (pteOf s d v) ≠ ppn (s.mem d' i) := by
  intro he
  have hu := h.consistent.excl_unique (h.pde_mem hd' hi) trivial (target_table hd' hi hP')
    (h.pte_mem hd hv) (by rw [target_page hd hv hP, he])
  exact Slot.noConfusion hu

/-- A free page holds no directory or page table and is mapped nowhere below `UTOP`. -/
theorem free_unnamed (h : PmapInv R D l s) (hp : p ∈ l) (x : Slot) (hx : x ∈ slots s.npages) :
    target s D x ≠ some p := h.consistent.target_ne_of_free hp hx

/-- A page with count zero is named by no slot. -/
theorem unnamed_of_ref_zero (h : PmapInv R D l s) (hp : Managed s.npages R p)
    (href : (s.pages p).ppRef.toNat = 0) (x : Slot) (hx : x ∈ slots s.npages) :
    target s D x ≠ some p := by
  have hcount := h.consistent.ref_eq p hp
  change (s.pages p).ppRef.toNat = _ at hcount
  rw [href] at hcount
  exact refCount_eq_zero.mp hcount.symm x hx

theorem dir_ne_of_unnamed (h : PmapInv R D l s)
    (hun : ∀ x ∈ slots s.npages, target s D x ≠ some p) (hd : d ∈ D) : d ≠ p := by
  rintro rfl
  exact hun _ (h.dir_mem hd) (if_pos hd)

theorem table_ne_of_unnamed (h : PmapInv R D l s)
    (hun : ∀ x ∈ slots s.npages, target s D x ≠ some p) (hd : d ∈ D) (hi : i < NUPDE)
    (hP : present (s.mem d i)) : ppn (s.mem d i) ≠ p := by
  rintro rfl
  exact hun _ (h.pde_mem hd hi) (target_table (l := l) hd hi hP)

/-- A mapped page is neither a directory nor a page table. -/
theorem page_shared (h : PmapInv R D l s) (hd : d ∈ D) (hv : v < NUVPN)
    (hP : present (pteOf s d v)) (x : Slot) (hx : x ∈ slots s.npages) (hX : x.Excl) :
    target s D x ≠ some (ppn (pteOf s d v)) := by
  intro ht
  have hu := h.consistent.excl_unique hx hX ht (h.pte_mem hd hv) (target_page hd hv hP)
  subst hu
  exact hX

/-- Pages that are not free have a null link. -/
theorem link_none (h : PmapInv R D l s) (hp : p < s.npages) (hfree : p ∉ l) :
    (s.pages p).ppLink = none := h.free.unlinked p hp hfree

theorem npages_le' (h : PmapInv R D l s) : s.npages ≤ 1048576 :=
  h.npages_le.trans (by norm_num)

/-- What an entry of the kernel's directory names. -/
theorem kern_table (h : PmapInv R D l s) (hi : i < 1024) (hP : present (s.mem s.kernPgdir i)) :
    ppn (s.mem s.kernPgdir i) ∈ R ∧ ppn (s.mem s.kernPgdir i) < s.npages := by
  by_cases hlow : i < NUPDE
  · rw [h.map.kern_user i hlow] at hP
    exact absurd hP not_present_zero
  · exact h.map.kern_upper i (not_lt.mp hlow) hi hP

/-- What a directory entry names: a page table of its own, the directory itself, or a page of the kernel. -/
theorem table_kinds (h : PmapInv R D l s) (hd : d ∈ D) (hi : i < 1024) (hP : present (s.mem d i)) :
    i < NUPDE ∨ ppn (s.mem d i) = d ∨ (ppn (s.mem d i) ∈ R ∧ ppn (s.mem d i) < s.npages) := by
  by_cases hlow : i < NUPDE
  · exact Or.inl hlow
  by_cases hself : i = PDX UVPT
  · refine Or.inr (Or.inl ?_)
    rw [hself, h.map.self d hd, ppn_or_flags _ (by decide), ppn_or_flags _ (by decide),
      ppn_page2pa ((h.dirs_lt d hd).trans_le h.npages_le')]
  · rw [h.map.upper d hd i (not_lt.mp hlow) hi hself] at hP ⊢
    exact Or.inr (Or.inr (h.kern_table hi hP))

end Facts

end PmapInv

/-! ## Free list steps -/

/-- The page is on the free list. -/
def OnFreeList (s : Pmap) (p : Nat) : Prop :=
  ∃ l, Linked (fun q => (s.pages q).ppLink) s.pageFreeList l ∧ p ∈ l

namespace FreeInv

theorem onFreeList_iff (h : FreeInv s l) {p : Nat} : OnFreeList s p ↔ p ∈ l := by
  constructor
  · rintro ⟨l', hl', hp⟩
    rwa [h.linked.unique hl']
  · exact fun hp => ⟨l, h.linked, hp⟩

theorem congr (h : FreeInv s l) (hn : s'.npages = s.npages)
    (hlink : ∀ p, (s'.pages p).ppLink = (s.pages p).ppLink)
    (hhead : s'.pageFreeList = s.pageFreeList) : FreeInv s' l where
  linked := by
    rw [hhead]
    exact h.linked.congr fun p _ => hlink p
  unlinked p hp hl := by
    rw [hlink p]
    exact h.unlinked p (hn ▸ hp) hl

theorem setRef (h : FreeInv s l) (p : Nat) (r : BitVec 16) : FreeInv (s.setRef p r) l :=
  h.congr rfl (fun q => by rw [setRef_pages]; split <;> simp_all) rfl

theorem takeFree {p : Nat} (h : FreeInv s (p :: l)) : FreeInv (s.takeFree p) l where
  linked := by
    have hnd := h.linked.nodup
    refine h.linked.2.congr fun q hq => ?_
    have hqp : q ≠ p := fun he => (List.nodup_cons.mp hnd).1 (he ▸ hq)
    rw [takeFree_pages, if_neg hqp]
  unlinked q hq hql := by
    rw [takeFree_pages]
    by_cases hqp : q = p
    · rw [if_pos hqp]
    · rw [if_neg hqp]
      exact h.unlinked q hq (by simp [hqp, hql])

theorem putFree {p : Nat} (h : FreeInv s l) (hp : p ∉ l) : FreeInv (s.putFree p) (p :: l) where
  linked := by
    refine (h.linked.push hp).congr fun q _ => ?_
    rw [putFree_pages]
    by_cases hqp : q = p
    · rw [if_pos hqp, if_pos hqp]
    · rw [if_neg hqp, if_neg hqp]
  unlinked q hq hql := by
    obtain ⟨hqp, hql⟩ := not_or.mp (fun hor => hql (List.mem_cons.mpr hor))
    rw [putFree_pages, if_neg hqp]
    exact h.unlinked q hq hql

/-- The head of the stored list. -/
theorem head_none (h : FreeInv s []) : s.pageFreeList = none := h.linked

theorem head_some {p : Nat} (h : FreeInv s (p :: l)) : s.pageFreeList = some p := h.linked.1

end FreeInv

/-! ## Counts -/

private theorem toNat_add_one {r : BitVec 16} (h : r.toNat ≠ 65535) :
    (r + 1#16).toNat = r.toNat + 1 := by
  have := r.isLt
  rw [BitVec.toNat_add]
  simp only [BitVec.toNat_ofNat]
  omega

private theorem toNat_sub_one {r : BitVec 16} (h : 0 < r.toNat) :
    (r - 1#16).toNat = r.toNat - 1 := by
  have := r.isLt
  rw [BitVec.toNat_sub]
  simp only [BitVec.toNat_ofNat]
  omega

private theorem sub_one_eq_zero {r : BitVec 16} : r - 1#16 = 0#16 ↔ r.toNat = 1 := by
  have := r.isLt
  constructor
  · intro h
    have h' := congrArg BitVec.toNat h
    rw [BitVec.toNat_sub] at h'
    simp only [BitVec.toNat_ofNat] at h'
    omega
  · intro h
    apply BitVec.eq_of_toNat_eq
    rw [toNat_sub_one (by omega), h]
    rfl

/-- `pp->pp_ref++` below the limit of the counter. -/
theorem ref_setRef_succ {p : Nat} (h : (s.pages p).ppRef.toNat ≠ 65535) :
    (fun q => ((s.setRef p ((s.pages p).ppRef + 1#16)).pages q).ppRef.toNat)
      = Function.update (fun q => (s.pages q).ppRef.toNat) p ((s.pages p).ppRef.toNat + 1) := by
  funext q
  rw [setRef_pages]
  by_cases hq : q = p
  · rw [if_pos hq, hq, Function.update_self, toNat_add_one h]
  · rw [if_neg hq, Function.update_of_ne hq]

theorem decref_ppRef (s : Pmap) (p q : Nat) : ((s.decref p).pages q).ppRef
    = if q = p then (s.pages p).ppRef - 1#16 else (s.pages q).ppRef := by
  unfold decref
  split
  · rw [putFree_pages]
    by_cases hq : q = p
    · subst hq
      simp [setRef_pages]
    · simp [hq, setRef_pages]
  · rw [setRef_pages]
    by_cases hq : q = p <;> simp [hq]

/-- `page_decref` takes one reference away. -/
theorem ref_decref {p : Nat} (h : 0 < (s.pages p).ppRef.toNat) :
    (fun q => ((s.decref p).pages q).ppRef.toNat)
      = Function.update (fun q => (s.pages q).ppRef.toNat) p ((s.pages p).ppRef.toNat - 1) := by
  funext q
  rw [decref_ppRef]
  by_cases hq : q = p
  · rw [if_pos hq, hq, Function.update_self, toNat_sub_one h]
  · rw [if_neg hq, Function.update_of_ne hq]

/-- `page_decref` frees the page when it takes the last reference away. -/
theorem FreeInv.decref {p : Nat} (h : FreeInv s l) (hp : p ∉ l) :
    FreeInv (s.decref p) (if (s.pages p).ppRef.toNat = 1 then p :: l else l) := by
  by_cases hone : (s.pages p).ppRef.toNat = 1
  · rw [if_pos hone, Pmap.decref, if_pos (sub_one_eq_zero.mpr hone)]
    exact (h.setRef _ _).putFree hp
  · rw [if_neg hone, Pmap.decref, if_neg fun hz => hone (sub_one_eq_zero.mp hz)]
    exact h.setRef _ _

/-- The pages `page_decref` frees are those whose count it makes zero. -/
theorem FreeInv.onFreeList_decref {p : Nat} (h : FreeInv s l) (hp : p ∉ l)
    (hpos : 0 < (s.pages p).ppRef.toNat) (q : Nat) : OnFreeList (s.decref p) q ↔
      OnFreeList s q ∨ (0 < (s.pages q).ppRef.toNat ∧ ((s.decref p).pages q).ppRef.toNat = 0) := by
  have href := congrFun (ref_decref hpos) q
  rw [(h.decref hp).onFreeList_iff, h.onFreeList_iff, href]
  by_cases hqp : q = p
  · subst hqp
    rw [Function.update_self, or_iff_right hp]
    by_cases hone : (s.pages q).ppRef.toNat = 1
    · rw [if_pos hone]
      exact iff_of_true (List.mem_cons_self ..) ⟨hpos, by omega⟩
    · rw [if_neg hone]
      exact iff_of_false hp fun hc => hone (by omega)
  · rw [Function.update_of_ne hqp]
    have hmem : q ∈ (if (s.pages p).ppRef.toNat = 1 then p :: l else l) ↔ q ∈ l := by
      split
      · rw [List.mem_cons, or_iff_right hqp]
      · rfl
    rw [hmem]
    exact (or_iff_left fun hc => by omega).symm

/-- `page_decref` touches one entry of `pages`. -/
theorem decref_pages_of_ne {p q : Nat} (h : q ≠ p) : (s.decref p).pages q = s.pages q := by
  unfold Pmap.decref
  split
  · rw [putFree_pages, if_neg h, setRef_pages, if_neg h]
  · rw [setRef_pages, if_neg h]

end Jos
