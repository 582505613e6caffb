import Jos.Boot

/-!
# `page_insert` end to end

`page_insert` takes a reference to the new page, drops the old mapping and writes the entry, after
`pgdir_walk` has made a page table if there was none. The result, seen from outside, is one changed page
table entry and at most two changed counts. The directory may be an environment's or the kernel's own, which
holds no page table below `UTOP` between calls.
-/

namespace Jos

open Pmap

variable {R : Set Nat} {D : Finset Nat} {l : List Nat} {s s' : Pmap} {d pp : Nat} {va perm : Word}

/-- What a successful `page_insert` leaves. -/
structure PageInserted (D : Finset Nat) (l : List Nat) (s : Pmap) (d pp : Nat) (va perm : Word)
    (s' : Pmap) : Prop where
  mapped : pteOf s' d (PGNUM va) = mkPte pp perm
  /-- Every other address below `UTOP` keeps its entry, in every directory. -/
  others : ∀ e ∈ insert s.kernPgdir D, ∀ v < NUVPN, ¬ (e = d ∧ v = PGNUM va) →
    pteOf s' e v = pteOf s e v
  /-- The page that was mapped at `va` is freed exactly when it lost its last reference. -/
  old : ∀ q, named (pteOf s d (PGNUM va)) = some q → q ≠ pp →
    (s'.pages q).ppRef.toNat + 1 = (s.pages q).ppRef.toNat ∧
      (OnFreeList s' q ↔ (s.pages q).ppRef.toNat = 1)
  gained : named (pteOf s d (PGNUM va)) ≠ some pp →
    (s'.pages pp).ppRef.toNat = (s.pages pp).ppRef.toNat + 1
  /-- Mapping a page where it is already mapped keeps its count and the free list. -/
  again : named (pteOf s d (PGNUM va)) = some pp →
    (s'.pages pp).ppRef = (s.pages pp).ppRef ∧ FreeInv s' l

namespace PmapInv

/-- With the page table there. -/
theorem insertMapped_inserted (h : PmapInv R D l s) (hd : d ∈ D) (hva : va < UTOP)
    (hpde : present (s.mem d (PDX va))) (hperm : perm.toNat < 4096) (hM : Managed s.npages R pp)
    (hpp : pp ∉ l) (hshared : ∀ x ∈ slots s.npages, x.Excl → target s D x ≠ some pp)
    (href : (s.pages pp).ppRef.toNat ≠ 65535) :
    PageInserted D l s d pp va perm (s.insertMapped d pp va perm) := by
  have hv := PGNUM_lt_NUVPN hva
  obtain ⟨hinv, habs⟩ := h.insertMapped hd hva hpde hperm hM hpp hshared href
  have htgt : (absStore s D l).target (.pte d (PGNUM va)) = named (pteOf s d (PGNUM va)) :=
    target_pte hd hv
  have hrefs : ∀ q, ((s.insertMapped d pp va perm).pages q).ppRef.toNat
      = ((absStore s D l).relink (.pte d (PGNUM va)) pp).ref q :=
    fun q => congrFun (congrArg RefStore.ref habs) q
  refine ⟨?_, ?_, ?_, ?_, ?_⟩
  · rw [h.insertMapped_pteOf hd hva hpde hperm hd hv, if_pos ⟨rfl, rfl⟩]
  · intro e he v hv hne
    rcases Finset.mem_insert.mp he with rfl | he
    · have hkern : (s.insertMapped d pp va perm).kernPgdir = s.kernPgdir :=
        (h.insertMapped_frame hd hva hpde hM.2).kern
      rw [h.kern_pteOf hv, ← hkern, hinv.kern_pteOf hv]
    · rw [h.insertMapped_pteOf hd hva hpde hperm he hv, if_neg hne]
  · intro q hq hqp
    rw [← htgt] at hq
    have hpos := h.consistent.ref_pos (h.pte_mem hd hv) hq
    refine ⟨?_, ?_⟩
    · rw [hrefs, RefStore.relink_ref_old hq hqp]
      exact Nat.sub_add_cancel hpos
    · rw [hinv.free.onFreeList_iff]
      exact RefStore.mem_relink_free hq hqp (h.consistent.notMem_free (h.pte_mem hd hv) hq)
  · intro hne
    rw [← htgt] at hne
    rw [hrefs, RefStore.relink_ref_new hne]
    rfl
  · intro hsame
    rw [← htgt] at hsame
    have hfree := hinv.free
    have hrefpp := hrefs pp
    rw [RefStore.relink_of_named hsame] at hfree hrefpp
    exact ⟨BitVec.eq_of_toNat_eq hrefpp, hfree⟩

/-- After `pgdir_walk` has made the page table from the first free page. -/
theorem newTable_inserted {p : Nat} (h : PmapInv R D (p :: l) s) (hd : d ∈ D) (hva : va < UTOP)
    (hpde : ¬ present (s.mem d (PDX va))) (hpp : pp ≠ p)
    (hins : PageInserted D l (s.newTable d (PDX va) p) d pp va perm s') :
    PageInserted D (p :: l) s d pp va perm s' := by
  have hi := PDX_lt_of_lt_UTOP hva
  have hv := PGNUM_lt_NUVPN hva
  have hpte : ∀ e ∈ insert s.kernPgdir D, ∀ v < NUVPN,
      pteOf (s.newTable d (PDX va) p) e v = pteOf s e v := by
    intro e he v hv
    rcases Finset.mem_insert.mp he with rfl | he
    · rw [h.kern_pteOf hv]
      exact (h.newTable hd hi hpde).kern_pteOf hv
    · exact h.newTable_pteOf hd hpde he hv
  have hold := hpte d (Finset.mem_insert_of_mem hd) _ hv
  -- nothing is mapped where there was no page table
  have hnone : named (pteOf s d (PGNUM va)) = none := by
    rw [pteOf_PGNUM, if_neg hpde, named_zero]
  refine ⟨hins.mapped, ?_, ?_, ?_, ?_⟩
  · intro e he v hv hne
    rw [hins.others e he v hv hne, hpte e he v hv]
  · intro q hq
    rw [hnone] at hq
    cases hq
  · intro hne
    have hgained := hins.gained (by rw [hold]; exact hne)
    rwa [newTable_pages_of_ne hpp] at hgained
  · intro hsame
    rw [hnone] at hsame
    cases hsame

/-- The kernel's directory holds no page table below `UTOP`, so `page_insert` makes one. -/
theorem kern_inserted {p : Nat} (h : PmapInv R D (p :: l) s) (hva : va < UTOP)
    (hperm : perm.toNat < 4096) (hpp : pp ≠ p) (href : (s.pages pp).ppRef.toNat ≠ 65535) :
    ∃ s', pageInsert s s.kernPgdir pp va perm = .ok (0, s') ∧
      PageInserted D (p :: l) s s.kernPgdir pp va perm s' := by
  have hi := PDX_lt_of_lt_UTOP hva
  have hv := PGNUM_lt_NUVPN hva
  have hp := h.head_managed
  have hlt : p < 1048576 := hp.1.trans_le h.npages_le'
  have hkp : s.kernPgdir ≠ p := fun he => hp.2 (he ▸ h.map.kern_res.1)
  have hun := h.free_unnamed (List.mem_cons_self ..)
  have hpde : ¬ present (s.mem s.kernPgdir (PDX va)) := by
    rw [h.map.kern_user _ hi]
    exact not_present_zero
  obtain ⟨s₁, hs₁⟩ : ∃ s₁, s₁ = s.newTable s.kernPgdir (PDX va) p := ⟨_, rfl⟩
  have hentry : s₁.mem s.kernPgdir (PDX va) = freshPde p := by
    rw [hs₁, Pmap.newTable, store_mem, if_pos ⟨rfl, rfl⟩]
  have hpde₁ : present (s₁.mem s.kernPgdir (PDX va)) := by
    rw [hentry]
    exact present_freshPde p
  have htab : tableOf s₁ s.kernPgdir (PDX va) = p := by
    rw [tableOf, hentry, ppn_freshPde hlt]
  have hkern : ∀ j, j ≠ PDX va → s₁.mem s.kernPgdir j = s.mem s.kernPgdir j := by
    intro j hj
    rw [hs₁, Pmap.newTable, store_mem, if_neg fun hc => hj hc.2, setRef_mem,
      clearPage_mem_of_ne _ _ hkp, takeFree_mem]
  have hzero : ∀ j, s₁.mem p j = 0#32 := by
    intro j
    rw [hs₁, Pmap.newTable, store_mem_of_ne _ _ _ hkp.symm, setRef_mem, clearPage_mem_self]
  have hmem : ∀ q, q ≠ p → q ≠ s.kernPgdir → s₁.mem q = s.mem q := by
    intro q hq hqk
    rw [hs₁, Pmap.newTable, store_mem_of_ne _ _ _ hqk, setRef_mem, clearPage_mem_of_ne _ _ hq,
      takeFree_mem]
  have hpages : s₁.pages pp = s.pages pp := by
    rw [hs₁, newTable_pages_of_ne hpp]
  have hnone : ¬ present (pteOf s₁ s.kernPgdir (PGNUM va)) := by
    rw [pteOf_PGNUM, if_pos hpde₁, htab, hzero]
    exact not_present_zero
  have hcode : pageInsert s s.kernPgdir pp va perm
      = .ok (0, s₁.insertMapped s.kernPgdir pp va perm) := by
    rw [pageInsert_create hpde h.free.head_some hp.1 h.npages_le', ← hs₁]
    refine pageInsert_present hpde₁ ?_ ?_ fun hP => absurd hP hnone
    · rw [htab, hs₁]
      exact hp.1
    · rw [htab]
      exact hkp.symm
  -- the two words that are written
  have hkmem : ∀ j, (s₁.insertMapped s.kernPgdir pp va perm).mem s.kernPgdir j
      = if j = PDX va then freshPde p ||| perm else s₁.mem s.kernPgdir j := by
    intro j
    rw [insertMapped_mem, setPte, hentry, htab, store_mem]
    by_cases hj : j = PDX va
    · rw [if_pos ⟨rfl, hj⟩, if_pos hj]
    · rw [if_neg fun hc => hj hc.2, if_neg hj, store_mem_of_ne _ _ _ hkp]
  have hpmem : ∀ j, (s₁.insertMapped s.kernPgdir pp va perm).mem p j
      = if j = PTX va then mkPte pp perm else 0#32 := by
    intro j
    rw [insertMapped_mem, setPte, htab, store_mem_of_ne _ _ _ hkp.symm, store_mem, hzero]
    by_cases hj : j = PTX va
    · rw [if_pos ⟨rfl, hj⟩, if_pos hj]
    · rw [if_neg fun hc => hj hc.2, if_neg hj]
  have hothers : ∀ q, q ≠ p → q ≠ s.kernPgdir →
      (s₁.insertMapped s.kernPgdir pp va perm).mem q = s.mem q := by
    intro q hq hqk
    rw [insertMapped_mem_of_ne q hqk (by rw [htab]; exact hq), hmem q hq hqk]
  have hpte : ∀ v < NUVPN, pteOf (s₁.insertMapped s.kernPgdir pp va perm) s.kernPgdir v
      = if v = PGNUM va then mkPte pp perm else 0#32 := by
    intro v hv
    have hsplit := PGNUM_split va
    have hptx := PTX_lt va
    rw [pteOf, hkmem]
    by_cases hdiv : v / 1024 = PDX va
    · rw [if_pos hdiv, if_pos (present_or_left _ (present_freshPde p)), ppn_or_flags _ hperm,
        ppn_freshPde hlt, hpmem]
      by_cases hmod : v % 1024 = PTX va
      · rw [if_pos hmod, if_pos (by omega)]
      · rw [if_neg hmod, if_neg (by omega)]
    · rw [if_neg hdiv, hkern _ hdiv, h.map.kern_user _ (div_lt_NUPDE hv), if_neg not_present_zero,
        if_neg (by omega)]
  refine ⟨_, hcode, ?_, ?_, ?_, ?_, ?_⟩
  · rw [hpte _ hv, if_pos rfl]
  · intro e he v hv hne
    rcases Finset.mem_insert.mp he with rfl | he
    · rw [hpte v hv, if_neg fun hc => hne ⟨rfl, hc⟩, h.kern_pteOf hv]
    · refine pteOf_congr he hv (fun a ha => ?_) fun a ha i hi hP => ?_
      · refine hothers a (h.dir_ne_of_unnamed hun ha) fun hc => ?_
        exact (h.dir_managed ha).2 (hc ▸ h.map.kern_res.1)
      · refine hothers _ (h.table_ne_of_unnamed hun ha hi hP) fun hc => ?_
        exact (h.table_managed ha hi hP).2 (hc ▸ h.map.kern_res.1)
  · intro q hq
    rw [h.kern_pteOf hv] at hq
    cases hq
  · intro _
    have hswap : (s₁.insertMapped s.kernPgdir pp va perm).pages
        = (s₁.setRef pp ((s₁.pages pp).ppRef + 1#16)).pages := by
      show (s₁.swapRef pp (named (pteOf s₁ s.kernPgdir (PGNUM va)))).pages = _
      rw [named, if_neg hnone, swapRef]
    have hinc := congrFun (ref_setRef_succ (s := s₁) (p := pp) (by rw [hpages]; exact href)) pp
    rw [Function.update_self, hpages] at hinc
    rw [hswap, hpages, hinc]
  · intro hsame
    rw [h.kern_pteOf hv] at hsame
    cases hsame

end PmapInv

/-- `page_insert` of an allocated page that is neither page table nor directory. It fails only for want of a
page table page, and then changes nothing. -/
theorem pageInsert_endToEnd (h : PmapInv R D l s) (hd : d ∈ insert s.kernPgdir D)
    (hM : Managed s.npages R pp) (hpp : pp ∉ l) (htab : ¬ IsTable ⟨s, D⟩ pp) (hdir : pp ∉ D)
    (href : (s.pages pp).ppRef.toNat < 65535) (hva : va < UTOP)
    (hperm : perm &&& ~~~PTE_SYSCALL = 0#32) :
    (∃ s', pageInsert s d pp va perm = .ok (0, s') ∧ PageInserted D l s d pp va perm s') ∨
      (pageInsert s d pp va perm = .ok (-E_NO_MEM, s) ∧ ¬ present (s.mem d (PDX va)) ∧
        s.pageFreeList = none) := by
  have hi := PDX_lt_of_lt_UTOP hva
  have hperm := toNat_lt_of_syscall hperm
  have hshared := shared_of_not_table (m := ⟨s, D⟩) (n := s.npages) htab hdir
  rcases Finset.mem_insert.mp hd with rfl | hd
  · cases l with
    | nil =>
      have hpde : ¬ present (s.mem s.kernPgdir (PDX va)) := by
        rw [h.map.kern_user _ hi]
        exact not_present_zero
      exact Or.inr ⟨pageInsert_noMem hpde h.free.head_none, hpde, h.free.head_none⟩
    | cons p l => exact Or.inl (h.kern_inserted hva hperm (fun hc => hpp (by simp [hc])) href.ne)
  · by_cases hpde : present (s.mem d (PDX va))
    · exact Or.inl ⟨_, h.pageInsert_mapped hd hva hpde,
        h.insertMapped_inserted hd hva hpde hperm hM hpp hshared href.ne⟩
    · cases l with
      | nil => exact Or.inr ⟨pageInsert_noMem hpde h.free.head_none, hpde, h.free.head_none⟩
      | cons p l =>
        have hpne : pp ≠ p := fun he => hpp (by simp [he])
        have h₁ := h.newTable hd hi hpde
        have hpde₁ : present ((s.newTable d (PDX va) p).mem d (PDX va)) := h.newTable_present hd
        refine Or.inl ⟨(s.newTable d (PDX va) p).insertMapped d pp va perm, ?_, ?_⟩
        · rw [pageInsert_create hpde h.free.head_some h.head_managed.1 h.npages_le',
            h₁.pageInsert_mapped hd hva hpde₁]
        · refine h.newTable_inserted hd hva hpde hpne (h₁.insertMapped_inserted hd hva hpde₁ hperm hM
            (fun hmem => hpp (by simp [hmem])) (h.newTable_shared hd hi hpde hpne hshared) ?_)
          rw [newTable_pages_of_ne hpne]
          exact href.ne

/-- The first free page after boot, mapped at address 0 of the first environment of `demoSystem`. -/
theorem pageInsert_endToEnd_demoSystem : ∃ s₀ D l d k p, I386Init demoSystem k ∧ d ∈ D ∧
    OnFreeList k.pmap p ∧ PmapInv (notFree s₀) D l (k.pmap.takeFree p) ∧
    ((∃ s', pageInsert (k.pmap.takeFree p) d p 0#32 (PTE_U ||| PTE_W) = .ok (0, s') ∧
        PageInserted D l (k.pmap.takeFree p) d p 0#32 (PTE_U ||| PTE_W) s') ∨
      (pageInsert (k.pmap.takeFree p) d p 0#32 (PTE_U ||| PTE_W)
          = .ok (-E_NO_MEM, k.pmap.takeFree p) ∧
        ¬ present ((k.pmap.takeFree p).mem d (PDX 0#32)) ∧
        (k.pmap.takeFree p).pageFreeList = none)) := by
  obtain ⟨s₀, D, l, d₀, d₁, k, h⟩ := demoSystem_boots
  have hroom := h.room
  match l, h with
  | [], _ => exact absurd hroom (by simp)
  | p :: l, h =>
    have hinv := h.started.inv.pmap
    have htake := hinv.takeFree
    have hun := htake.unnamed_of_ref_zero hinv.head_managed (by
      rw [takeFree_pages, if_pos rfl]
      exact hinv.head_ref)
    have htab : ¬ IsTable ⟨k.pmap.takeFree p, D⟩ p := by
      rintro ⟨d, hd, i, hi, hn⟩
      exact hun (.pde d i) (htake.pde_mem hd hi) ((target_pde hd hi).trans hn)
    have hdir : p ∉ D := fun hd => hun (.dir p) (htake.dir_mem hd) (if_pos hd)
    refine ⟨s₀, D, l, d₀, k, p, h.init, h.dirs.1,
      hinv.free.onFreeList_iff.mpr (List.mem_cons_self ..), htake, ?_⟩
    refine pageInsert_endToEnd htake (Finset.mem_insert_of_mem h.dirs.1) hinv.head_managed
      hinv.head_notMem htab hdir ?_ (by decide) (by decide)
    rw [takeFree_pages, if_pos rfl]
    show (k.pmap.pages p).ppRef.toNat < 65535
    rw [hinv.head_ref]
    decide

end Jos
