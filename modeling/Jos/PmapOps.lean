import Jos.PmapInv

/-!
# The operations of `pmap.c` keep the invariant

For a directory in `D` and an address below `UTOP`, `pgdir_walk`, `page_insert` and `page_remove` do not
panic, keep `PmapInv`, and change exactly one page table entry. The proofs go through `RefStore`: a new
page table is a `link` of a directory slot, `page_remove` is an `unlink`, `page_insert` is a `relink`.
-/

namespace Jos

open Pmap

variable {R : Set Nat} {D : Finset Nat} {l : List Nat} {s s' : Pmap}

/-- What no operation below `UTOP` may change: the reserved pages with their `PageInfo`, and the
directory entries from `UTOP` up. -/
structure Frame (R : Set Nat) (D : Finset Nat) (s s' : Pmap) : Prop where
  npages : s'.npages = s.npages
  kern : s'.kernPgdir = s.kernPgdir
  res_mem : ∀ p ∈ R, s'.mem p = s.mem p
  res_pages : ∀ p ∈ R, s'.pages p = s.pages p
  upper : ∀ d ∈ D, ∀ i, NUPDE ≤ i → s'.mem d i = s.mem d i

namespace Frame

theorem refl (s : Pmap) : Frame R D s s :=
  ⟨rfl, rfl, fun _ _ => rfl, fun _ _ => rfl, fun _ _ _ _ => rfl⟩

theorem trans {s₁ s₂ s₃ : Pmap} (h : Frame R D s₁ s₂) (h' : Frame R D s₂ s₃) : Frame R D s₁ s₃ where
  npages := h'.npages.trans h.npages
  kern := h'.kern.trans h.kern
  res_mem p hp := (h'.res_mem p hp).trans (h.res_mem p hp)
  res_pages p hp := (h'.res_pages p hp).trans (h.res_pages p hp)
  upper d hd i hi := (h'.upper d hd i hi).trans (h.upper d hd i hi)

end Frame

/-- The reserved pages hold what they held. -/
structure ReservedSame (R : Set Nat) (s s' : Pmap) : Prop where
  kern : s'.kernPgdir = s.kernPgdir
  mem : ∀ p ∈ R, s'.mem p = s.mem p

namespace ReservedSame

theorem refl (R : Set Nat) (s : Pmap) : ReservedSame R s s := ⟨rfl, fun _ _ => rfl⟩

theorem trans {s₁ s₂ s₃ : Pmap} (h : ReservedSame R s₁ s₂) (h' : ReservedSame R s₂ s₃) : ReservedSame R s₁ s₃ :=
  ⟨h'.kern.trans h.kern, fun p hp => (h'.mem p hp).trans (h.mem p hp)⟩

theorem of_eq (h : s' = s) : ReservedSame R s s' := h ▸ refl R s

end ReservedSame

theorem Frame.reservedSame (h : Frame R D s s') : ReservedSame R s s' := ⟨h.kern, h.res_mem⟩

theorem target_of_mem_eq (h : s'.mem = s.mem) : target s' D = target s D :=
  target_congr (fun _ _ => by rw [h]) (fun _ _ _ _ _ => by rw [h])

theorem pteOf_of_mem_eq (h : s'.mem = s.mem) (d v : Nat) : pteOf s' d v = pteOf s d v := by
  unfold pteOf
  rw [h]

theorem pteOf_PGNUM (s : Pmap) (d : Nat) (va : Word) : pteOf s d (PGNUM va)
    = if present (s.mem d (PDX va)) then s.mem (tableOf s d (PDX va)) (PTX va) else 0#32 := by
  rw [pteOf, PGNUM_div, PGNUM_mod]

theorem PGNUM_lt_NUVPN {va : Word} (h : va < UTOP) : PGNUM va < NUVPN := by
  have h : va.toNat < 0xeec00000 := by simpa [BitVec.lt_def] using h
  have heq := PGNUM_eq va
  unfold NUVPN NUPDE
  omega

/-- The entry of a mapped page lies in a page table. -/
theorem present_pde_of_pte {d : Nat} {va : Word} (h : present (pteOf s d (PGNUM va))) :
    present (s.mem d (PDX va)) ∧ pteOf s d (PGNUM va) = s.mem (tableOf s d (PDX va)) (PTX va) := by
  rw [pteOf_PGNUM] at h ⊢
  by_cases hP : present (s.mem d (PDX va))
  · exact ⟨hP, if_pos hP⟩
  · rw [if_neg hP] at h
    exact absurd h not_present_zero

/-- `MapInv` only needs the reserved pages and the upper entries to stay, and the lower entries to
remain well formed. -/
theorem MapInv.frame (h : MapInv R D s) (hf : Frame R D s s')
    (hpde : ∀ d ∈ D, ∀ i < NUPDE, present (s'.mem d i) →
      userWritable (s'.mem d i))
    (hpte : ∀ d ∈ D, ∀ v < NUVPN, pteOf s' d v = 0#32 ∨ present (pteOf s' d v)) :
    MapInv R D s' := by
  have hkern : s'.mem s'.kernPgdir = s.mem s.kernPgdir := by
    rw [hf.kern]
    exact hf.res_mem _ h.kern_res.1
  have htab : s'.mem (ppn (s.mem s.kernPgdir NUPDE)) = s.mem (ppn (s.mem s.kernPgdir NUPDE)) :=
    hf.res_mem _ (h.kern_upper NUPDE le_rfl (by decide) h.uenvs.1).1
  refine ⟨?_, ?_, hpde, hpte, ?_, ?_, ?_, ?_, ?_⟩
  · intro d hd i hi hi' hne
    rw [hf.upper d hd i hi, hkern]
    exact h.upper d hd i hi hi' hne
  · intro d hd
    rw [hf.upper d hd _ (by decide)]
    exact h.self d hd
  · rw [hf.kern, hf.npages]
    exact h.kern_res
  · rw [hkern]
    exact h.kern_user
  · rw [hkern, hf.npages]
    exact h.kern_upper
  · rw [hkern]
    intro i hi hi' hne hP j hj
    rw [hf.res_mem _ (h.kern_upper i hi hi' hP).1]
    exact h.kern_guard i hi hi' hne hP j hj
  · rw [hkern, htab, hf.npages]
    exact h.uenvs

/-- The state after `page_remove` has cleared the entry of `va`. -/
def Pmap.unmap (s : Pmap) (d : Nat) (va : Word) : Pmap :=
  (s.decref (ppn (pteOf s d (PGNUM va)))).store ⟨tableOf s d (PDX va), PTX va⟩ 0#32

namespace PmapInv

/-! ## Pages off the page tables -/

/-- Taking the head of the free list. -/
theorem takeFree {p : Nat} (h : PmapInv R D (p :: l) s) : PmapInv R D l (s.takeFree p) where
  npages_le := h.npages_le
  dirs_lt := h.dirs_lt
  free := h.free.takeFree
  consistent := by
    have habs : absStore (s.takeFree p) D l = { absStore s D (p :: l) with free := l } := by
      refine RefStore.ext (target_of_mem_eq rfl) ?_ rfl
      funext q
      show ((s.takeFree p).pages q).ppRef.toNat = (s.pages q).ppRef.toNat
      rw [takeFree_pages]
      split
      · next hq => rw [hq]
      · rfl
    rw [habs]
    exact h.consistent.alloc rfl
  map := ⟨h.map.upper, h.map.self, h.map.pde_perm, h.map.pte_wf, h.map.kern_res, h.map.kern_user,
    h.map.kern_upper, h.map.kern_guard, h.map.uenvs⟩

/-- The page at the head of the free list may be handed out. -/
theorem head_managed {p : Nat} (h : PmapInv R D (p :: l) s) : Managed s.npages R p :=
  h.consistent.free_managed p (List.mem_cons_self ..)

theorem head_ref {p : Nat} (h : PmapInv R D (p :: l) s) : (s.pages p).ppRef.toNat = 0 :=
  h.consistent.free_ref p (List.mem_cons_self ..)

theorem head_notMem {p : Nat} (h : PmapInv R D (p :: l) s) : p ∉ l :=
  (List.nodup_cons.mp h.consistent.nodup).1

theorem takeFree_frame {p : Nat} (h : PmapInv R D (p :: l) s) : Frame R D s (s.takeFree p) where
  npages := rfl
  kern := rfl
  res_mem _ _ := rfl
  res_pages q hq := by
    rw [takeFree_pages, if_neg]
    rintro rfl
    exact h.head_managed.2 hq
  upper _ _ _ _ := rfl

/-- Memory may change freely in pages that are neither reserved nor directories nor page tables. -/
theorem of_mem (h : PmapInv R D l s) (hn : s'.npages = s.npages) (hpages : s'.pages = s.pages)
    (hhead : s'.pageFreeList = s.pageFreeList) (hkern : s'.kernPgdir = s.kernPgdir)
    (hres : ∀ p ∈ R, s'.mem p = s.mem p) (hdir : ∀ d ∈ D, s'.mem d = s.mem d)
    (htab : ∀ d ∈ D, ∀ i < NUPDE, present (s.mem d i) →
      s'.mem (ppn (s.mem d i)) = s.mem (ppn (s.mem d i))) :
    PmapInv R D l s' where
  npages_le := hn ▸ h.npages_le
  dirs_lt := hn ▸ h.dirs_lt
  free := h.free.congr hn (fun p => by rw [hpages]) hhead
  consistent := by
    have habs : absStore s' D l = absStore s D l :=
      RefStore.ext (target_congr hdir htab) (by funext p; simp only [absStore, hpages]) rfl
    rw [habs, hn]
    exact h.consistent
  map := by
    refine h.map.frame ⟨hn, hkern, hres, fun p _ => by rw [hpages], fun d hd i _ => by
      rw [hdir d hd]⟩ ?_ ?_
    · intro d hd
      rw [hdir d hd]
      exact h.map.pde_perm d hd
    · intro d hd v hv
      rw [pteOf_congr hd hv hdir htab]
      exact h.map.pte_wf d hd v hv

/-- A page without references is neither a directory nor a page table. -/
theorem clearPage {p : Nat} (h : PmapInv R D l s) (hp : Managed s.npages R p)
    (href : (s.pages p).ppRef.toNat = 0) : PmapInv R D l (s.clearPage p) := by
  have hun := h.unnamed_of_ref_zero hp href
  refine h.of_mem rfl rfl rfl rfl ?_ ?_ ?_
  · intro q hq
    exact clearPage_mem_of_ne _ _ fun he => hp.2 (he ▸ hq)
  · exact fun d hd => clearPage_mem_of_ne _ _ (h.dir_ne_of_unnamed hun hd)
  · exact fun d hd i hi hP => clearPage_mem_of_ne _ _ (h.table_ne_of_unnamed hun hd hi hP)

/-- Giving an unreferenced page back. -/
theorem putFree {p : Nat} (h : PmapInv R D l s) (hp : Managed s.npages R p) (hl : p ∉ l)
    (href : (s.pages p).ppRef.toNat = 0) : PmapInv R D (p :: l) (s.putFree p) where
  npages_le := h.npages_le
  dirs_lt := h.dirs_lt
  free := h.free.putFree hl
  consistent := by
    have habs : absStore (s.putFree p) D (p :: l) = (absStore s D l).release p := by
      refine RefStore.ext (target_of_mem_eq rfl) ?_ rfl
      funext q
      show ((s.putFree p).pages q).ppRef.toNat = (s.pages q).ppRef.toNat
      rw [putFree_pages]
      split
      · next hq => rw [hq]
      · rfl
    rw [habs]
    exact h.consistent.release hp hl href
  map := ⟨h.map.upper, h.map.self, h.map.pde_perm, h.map.pte_wf, h.map.kern_res, h.map.kern_user,
    h.map.kern_upper, h.map.kern_guard, h.map.uenvs⟩

/-! ## New page tables -/

private theorem freshPde_perm (p : Nat) :
    freshPde p &&& (PTE_U ||| PTE_W) = PTE_U ||| PTE_W := by
  unfold freshPde
  rw [BitVec.or_assoc, BitVec.and_comm, BitVec.and_or_distrib_left, BitVec.and_self]
  ext i hi
  simp only [BitVec.getElem_or, BitVec.getElem_and]
  cases (PTE_U[i]) <;> cases (PTE_W[i]) <;> simp

section Table

variable {d i p : Nat}

/-- Hanging the cleared, unreferenced page `p` under an absent entry of `d`. -/
theorem linkTable (h : PmapInv R D l s) (hd : d ∈ D) (hi : i < NUPDE)
    (hP : ¬ present (s.mem d i)) (hp : Managed s.npages R p) (hl : p ∉ l)
    (href : (s.pages p).ppRef.toNat = 0) (hzero : ∀ k, s.mem p k = 0#32) :
    PmapInv R D l ((s.setRef p ((s.pages p).ppRef + 1#16)).store ⟨d, i⟩ (freshPde p)) := by
  have hun := h.unnamed_of_ref_zero hp href
  have hpd : p ≠ d := (h.dir_ne_of_unnamed hun hd).symm
  have hlt : p < 1048576 := hp.1.trans_le h.npages_le'
  have hw : named (freshPde p) = some p :=
    named_eq_some.mpr ⟨present_freshPde p, ppn_freshPde hlt⟩
  have hsep : Sep (s.setRef p ((s.pages p).ppRef + 1#16)) D := ⟨h.sep.1, h.sep.2⟩
  have habs : absStore ((s.setRef p ((s.pages p).ppRef + 1#16)).store ⟨d, i⟩ (freshPde p)) D l
      = (absStore s D l).link (.pde d i) p := by
    refine RefStore.ext ?_ (ref_setRef_succ (by omega)) rfl
    exact hsep.target_store_fresh hd hi hP hzero hpd hw
  have hdp : ∀ q, q ≠ d →
      ((s.setRef p ((s.pages p).ppRef + 1#16)).store ⟨d, i⟩ (freshPde p)).mem q = s.mem q :=
    fun q hq => store_mem_of_ne _ _ _ hq
  refine ⟨h.npages_le, h.dirs_lt, (h.free.setRef p _).congr rfl (fun _ => rfl) rfl, ?_, ?_⟩
  · rw [habs]
    refine h.consistent.link (h.pde_mem hd hi) ?_ hp hl (fun j hj _ => hun j hj) (fun _ => href)
    show target s D (.pde d i) = none
    rw [target_pde hd hi, named, if_neg hP]
  · refine h.map.frame ⟨rfl, rfl, ?_, ?_, ?_⟩ ?_ ?_
    · exact fun q hq => hdp q fun he => (h.dir_managed hd).2 (he ▸ hq)
    · intro q hq
      have hqp : q ≠ p := fun he => hp.2 (he ▸ hq)
      rw [store_pages, setRef_pages, if_neg hqp]
    · intro e _ k hk
      rw [store_mem, if_neg]
      · rfl
      · rintro ⟨-, rfl⟩
        exact absurd hi (Nat.not_lt.mpr hk)
    · intro e he k hk hPk
      rw [store_mem] at hPk ⊢
      split
      · exact freshPde_perm p
      · next hne =>
        rw [if_neg hne] at hPk
        exact h.map.pde_perm e he k hk hPk
    · intro e he v hv
      rw [hsep.pteOf_store_fresh hd hP hzero hpd (ppn_freshPde hlt) he hv]
      exact h.map.pte_wf e he v hv

/-- The state after `pgdir_walk` has added a page table. -/
theorem newTable (h : PmapInv R D (p :: l) s) (hd : d ∈ D) (hi : i < NUPDE)
    (hP : ¬ present (s.mem d i)) : PmapInv R D l (s.newTable d i p) := by
  have hp := h.head_managed
  have href := h.head_ref
  have href₁ : ((s.takeFree p).pages p).ppRef = (s.pages p).ppRef := by
    rw [takeFree_pages, if_pos rfl]
  have h₁ : PmapInv R D l ((s.takeFree p).clearPage p) :=
    h.takeFree.clearPage hp (by rw [href₁]; exact href)
  have hun := h.free_unnamed (List.mem_cons_self ..)
  have hpd : d ≠ p := h.dir_ne_of_unnamed hun hd
  have h₂ := h₁.linkTable (i := i) hd hi
    (by rw [clearPage_mem_of_ne _ _ hpd]; exact hP) hp h.head_notMem
    (by rw [clearPage_pages, href₁]; exact href) (clearPage_mem_self _ _)
  rw [clearPage_pages, href₁] at h₂
  exact h₂

theorem newTable_frame (h : PmapInv R D (p :: l) s) (hd : d ∈ D) (hi : i < NUPDE) :
    Frame R D s (s.newTable d i p) := by
  have hun := h.free_unnamed (List.mem_cons_self ..)
  have hmem : ∀ q, q ≠ d → q ≠ p → (s.newTable d i p).mem q = s.mem q := by
    intro q hqd hqp
    rw [Pmap.newTable, store_mem_of_ne _ _ _ hqd, setRef_mem, clearPage_mem_of_ne _ _ hqp,
      takeFree_mem]
  refine ⟨rfl, rfl, ?_, ?_, ?_⟩
  · intro q hq
    exact hmem q (fun he => (h.dir_managed hd).2 (he ▸ hq)) fun he => h.head_managed.2 (he ▸ hq)
  · intro q hq
    have hqp : q ≠ p := fun he => h.head_managed.2 (he ▸ hq)
    rw [Pmap.newTable, store_pages, setRef_pages, if_neg hqp, clearPage_pages, takeFree_pages,
      if_neg hqp]
  · intro e he k hk
    have hep : e ≠ p := h.dir_ne_of_unnamed hun he
    rw [Pmap.newTable, store_mem, if_neg]
    · rw [setRef_mem, clearPage_mem_of_ne _ _ hep, takeFree_mem]
    · rintro ⟨-, rfl⟩
      exact absurd hi (Nat.not_lt.mpr hk)

/-- A new page table maps nothing. -/
theorem newTable_pteOf (h : PmapInv R D (p :: l) s) (hd : d ∈ D)
    (hP : ¬ present (s.mem d i)) {e v : Nat} (he : e ∈ D) (hv : v < NUVPN) :
    pteOf (s.newTable d i p) e v = pteOf s e v := by
  have hun := h.free_unnamed (List.mem_cons_self ..)
  have hep : ∀ e ∈ D, e ≠ p := fun e he => h.dir_ne_of_unnamed hun he
  have htp : ∀ e ∈ D, ∀ k < NUPDE, present (s.mem e k) → ppn (s.mem e k) ≠ p :=
    fun e he k hk hPk => h.table_ne_of_unnamed hun he hk hPk
  have hlt : p < 1048576 := h.head_managed.1.trans_le h.npages_le'
  have hclear : ∀ q, q ≠ p → ((s.takeFree p).clearPage p).mem q = s.mem q :=
    fun q hq => clearPage_mem_of_ne _ _ hq
  have hsep : Sep (((s.takeFree p).clearPage p).setRef p ((s.pages p).ppRef + 1#16)) D := by
    constructor
    · intro a ha b hb k hk
      rw [setRef_mem, hclear a (hep a ha)]
      exact h.sep.table_ne_dir a ha b hb k hk
    · intro a ha b hb k hk k' hk'
      rw [setRef_mem, hclear a (hep a ha), hclear b (hep b hb)]
      exact h.sep.table_inj a ha b hb k hk k' hk'
  rw [Pmap.newTable]
  rw [hsep.pteOf_store_fresh hd (by rw [setRef_mem, hclear d (hep d hd)]; exact hP)
    (clearPage_mem_self _ _) (hep d hd).symm (ppn_freshPde hlt) he hv]
  exact pteOf_congr he hv (fun a ha => hclear a (hep a ha)) fun a ha k hk hPk =>
    hclear _ (htp a ha k hk hPk)

end Table

/-! ## Removing a mapping -/

section Entries

variable {d p q : Nat} {va perm : Word}

/-- `page_lookup` finds a mapped page and its entry. -/
theorem pageLookup_mapped (h : PmapInv R D l s) (hd : d ∈ D) (hva : va < UTOP)
    (hP : present (pteOf s d (PGNUM va))) :
    pageLookup s d va
      = .ok (some (ppn (pteOf s d (PGNUM va)), ⟨tableOf s d (PDX va), PTX va⟩)) := by
  obtain ⟨hpde, hpte⟩ := present_pde_of_pte hP
  have hpage := (h.page_managed hd (PGNUM_lt_NUVPN hva) hP).1
  rw [hpte] at hP hpage ⊢
  refine pageLookup_some hpde (h.table_managed hd (PDX_lt_of_lt_UTOP hva) hpde).1 ?_ hpage
  intro hz
  rw [hz] at hP
  exact not_present_zero hP

theorem pageLookup_unmapped (h : PmapInv R D l s) (hd : d ∈ D) (hva : va < UTOP)
    (hP : ¬ present (pteOf s d (PGNUM va))) : pageLookup s d va = .ok none := by
  have hi := PDX_lt_of_lt_UTOP hva
  have hzero : pteOf s d (PGNUM va) = 0#32 :=
    (h.map.pte_wf d hd _ (PGNUM_lt_NUVPN hva)).resolve_right hP
  rw [pteOf_PGNUM] at hzero
  by_cases hpde : present (s.mem d (PDX va))
  · rw [if_pos hpde] at hzero
    exact pageLookup_zero hpde (h.table_managed hd hi hpde).1 hzero
  · exact pageLookup_absent hpde

theorem pageRemove_unmapped (h : PmapInv R D l s) (hd : d ∈ D) (hva : va < UTOP)
    (hP : ¬ present (pteOf s d (PGNUM va))) : pageRemove s d va = .ok s :=
  pageRemove_none (h.pageLookup_unmapped hd hva hP)

theorem pageRemove_mapped (h : PmapInv R D l s) (hd : d ∈ D) (hva : va < UTOP)
    (hP : present (pteOf s d (PGNUM va))) : pageRemove s d va = .ok (s.unmap d va) := by
  have hv := PGNUM_lt_NUVPN hva
  exact pageRemove_some (h.pageLookup_mapped hd hva hP)
    (h.link_none (h.page_managed hd hv hP).1 (h.page_notMem_free hd hv hP))

theorem unmap_frame (h : PmapInv R D l s) (hd : d ∈ D) (hva : va < UTOP)
    (hP : present (pteOf s d (PGNUM va))) : Frame R D s (s.unmap d va) := by
  have hi := PDX_lt_of_lt_UTOP hva
  have hpde := (present_pde_of_pte hP).1
  have hq := h.page_managed hd (PGNUM_lt_NUVPN hva) hP
  have ht := h.table_managed hd hi hpde
  refine ⟨decref_npages _ _, decref_kernPgdir _ _, ?_, ?_, ?_⟩
  · intro p hp
    rw [Pmap.unmap, store_mem_of_ne, decref_mem]
    rintro rfl
    exact ht.2 hp
  · intro p hp
    refine decref_pages_of_ne ?_
    rintro rfl
    exact hq.2 hp
  · intro e he i _
    rw [Pmap.unmap, store_mem_of_ne, decref_mem]
    exact (h.sep.table_ne_dir d hd e he _ hi hpde).symm

/-- `page_remove` clears one entry. -/
theorem unmap_pteOf (h : PmapInv R D l s) (hd : d ∈ D) (hva : va < UTOP)
    (hP : present (pteOf s d (PGNUM va))) {e v : Nat} (he : e ∈ D) (hv : v < NUVPN) :
    pteOf (s.unmap d va) e v = if e = d ∧ v = PGNUM va then 0#32 else pteOf s e v := by
  have hi := PDX_lt_of_lt_UTOP hva
  have hst := h.sep.pteOf_store_table (w := 0#32) hd hi (present_pde_of_pte hP).1 (PTX_lt va) he hv
  rw [← PGNUM_split] at hst
  rw [← hst]
  refine pteOf_of_mem_eq ?_ e v
  unfold Pmap.unmap Pmap.store
  simp only [decref_mem]

/-- `page_remove` of a mapped page drops the reference its entry holds. -/
theorem unmap (h : PmapInv R D l s) (hd : d ∈ D) (hva : va < UTOP)
    (hP : present (pteOf s d (PGNUM va))) :
    PmapInv R D (if (s.pages (ppn (pteOf s d (PGNUM va)))).ppRef.toNat = 1
      then ppn (pteOf s d (PGNUM va)) :: l else l) (s.unmap d va) := by
  have hi := PDX_lt_of_lt_UTOP hva
  have hv := PGNUM_lt_NUVPN hva
  have hpde := (present_pde_of_pte hP).1
  have hsep : Sep (s.decref (ppn (pteOf s d (PGNUM va)))) D :=
    ⟨by rw [decref_mem]; exact h.sep.1, by rw [decref_mem]; exact h.sep.2⟩
  have hpde' : present ((s.decref (ppn (pteOf s d (PGNUM va)))).mem d (PDX va)) := by
    rw [decref_mem]; exact hpde
  have htab : tableOf (s.decref (ppn (pteOf s d (PGNUM va)))) d (PDX va) = tableOf s d (PDX va) := by
    rw [tableOf, decref_mem]
  have habs : absStore (s.unmap d va) D (if (s.pages (ppn (pteOf s d (PGNUM va)))).ppRef.toNat = 1
      then ppn (pteOf s d (PGNUM va)) :: l else l)
      = (absStore s D l).unlink (.pte d (PGNUM va)) (ppn (pteOf s d (PGNUM va))) := by
    refine RefStore.ext ?_ ?_ rfl
    · have hst := hsep.target_store_table (w := 0#32) hd hi hpde' (PTX_lt va)
      rw [htab, ← PGNUM_split, named_zero, target_of_mem_eq (decref_mem _ _)] at hst
      exact hst
    · exact ref_decref (h.page_ref_pos hd hv hP)
  have hmem : ∀ e ∈ D, (s.unmap d va).mem e = s.mem e := by
    intro e he
    have hst := hsep.mem_dir_store_table (j := PTX va) (w := 0#32) hd hi hpde' he
    rw [htab, decref_mem] at hst
    exact hst
  refine ⟨?_, ?_, ?_, ?_, ?_⟩
  · exact (decref_npages _ _).trans_le h.npages_le
  · exact fun e he => (h.dirs_lt e he).trans_eq (decref_npages _ _).symm
  · exact (h.free.decref (h.page_notMem_free hd hv hP)).congr rfl (fun _ => rfl) rfl
  · have hn : (s.unmap d va).npages = s.npages := decref_npages _ _
    rw [habs, hn]
    exact h.consistent.unlink (h.pte_mem hd hv) (target_page hd hv hP)
  · refine h.map.frame (h.unmap_frame hd hva hP) ?_ ?_
    · intro e he
      rw [hmem e he]
      exact h.map.pde_perm e he
    · intro e he v hv
      rw [h.unmap_pteOf hd hva hP he hv]
      split
      · exact Or.inl rfl
      · exact h.map.pte_wf e he v hv

end Entries

end PmapInv

end Jos
