import Jos.PmapInsert

/-!
# Setting up and tearing down address spaces

`env_setup_vm` adds a directory that maps nothing below `UTOP`. `env_free` walks the user part of a
directory, removes every mapping, frees every page table and at last the directory itself. Both keep
`PmapInv`, for the set of directories with the new one added or the old one taken out.
-/

namespace Jos

open Pmap

variable {R : Set Nat} {D : Finset Nat} {l : List Nat} {s s' : Pmap}

/-! ## `env_setup_vm` -/

/-- The state after `env_setup_vm` has turned the free page `p` into a directory. -/
def Pmap.newDir (s : Pmap) (p : Nat) : Pmap :=
  ({ ((s.takeFree p).clearPage p).setRef p ((s.pages p).ppRef + 1#16) with
    mem := Function.update ((s.takeFree p).clearPage p).mem p
      (((s.takeFree p).clearPage p).mem s.kernPgdir) } : Pmap).store ⟨p, PDX UVPT⟩
    (page2pa p ||| PTE_P ||| PTE_U)

theorem envSetupVm_none (h : s.pageFreeList = none) : envSetupVm s = .ok (none, s) := by
  simp [envSetupVm, pageAlloc_none _ h]

theorem envSetupVm_some {p : Nat} (h : s.pageFreeList = some p) (hp : p < s.npages)
    (hn : s.npages ≤ 1048576) : envSetupVm s = .ok (some p, s.newDir p) := by
  have halloc := pageAlloc_some true h hp hn
  rw [if_pos rfl] at halloc
  have href : (((s.takeFree p).clearPage p).pages p).ppRef = (s.pages p).ppRef := by
    rw [clearPage_pages, takeFree_pages, if_pos rfl]
  have hkva : page2kva (((s.takeFree p).clearPage p).setRef p
      ((((s.takeFree p).clearPage p).pages p).ppRef + 1#16)) p = .ok p := page2kva_ok hp hn
  simp only [envSetupVm, halloc, Except.ok_bind, hkva, Except.pure_eq]
  rw [href]
  rfl

section NewDir

variable {p : Nat}

theorem newDir_mem_self (hk : s.kernPgdir ≠ p) (i : Nat) : (s.newDir p).mem p i
    = if i = PDX UVPT then page2pa p ||| PTE_P ||| PTE_U else s.mem s.kernPgdir i := by
  rw [Pmap.newDir, store_mem]
  by_cases hi : i = PDX UVPT
  · rw [if_pos ⟨rfl, hi⟩, if_pos hi]
  · rw [if_neg fun h => hi h.2, if_neg hi]
    simp only [Function.update_self]
    rw [clearPage_mem_of_ne _ _ hk, takeFree_mem]

theorem newDir_mem_of_ne {q : Nat} (hq : q ≠ p) : (s.newDir p).mem q = s.mem q := by
  rw [Pmap.newDir, store_mem_of_ne _ _ _ hq]
  simp only [Function.update_of_ne hq]
  rw [clearPage_mem_of_ne _ _ hq, takeFree_mem]

theorem newDir_pages_of_ne {q : Nat} (hq : q ≠ p) : (s.newDir p).pages q = s.pages q := by
  show (((s.takeFree p).clearPage p).setRef p ((s.pages p).ppRef + 1#16)).pages q = s.pages q
  rw [setRef_pages, if_neg hq, clearPage_pages, takeFree_pages, if_neg hq]

namespace PmapInv

/-- The entries of existing address spaces are not affected by a new directory. -/
theorem newDir_pteOf_of_ne (h : PmapInv R D (p :: l) s) {e v : Nat} (he : e ∈ D)
    (hv : v < NUVPN) : pteOf (s.newDir p) e v = pteOf s e v := by
  have hun := h.free_unnamed (List.mem_cons_self ..)
  exact pteOf_congr he hv (fun a ha => newDir_mem_of_ne (h.dir_ne_of_unnamed hun ha))
    fun a ha i hi hP => newDir_mem_of_ne (h.table_ne_of_unnamed hun ha hi hP)

/-- A new directory maps nothing below `UTOP`. -/
theorem newDir_pde (h : PmapInv R D (p :: l) s) {i : Nat} (hi : i < NUPDE) :
    (s.newDir p).mem p i = 0#32 := by
  have hk : s.kernPgdir ≠ p := fun he => h.head_managed.2 (he ▸ h.map.kern_res.1)
  have hne : i ≠ PDX UVPT := by
    have : PDX UVPT = 957 := by decide
    unfold NUPDE at hi
    omega
  rw [newDir_mem_self hk, if_neg hne]
  exact h.map.kern_user i hi

theorem newDir_pteOf_self (h : PmapInv R D (p :: l) s) {v : Nat} (hv : v < NUVPN) :
    pteOf (s.newDir p) p v = 0#32 := by
  rw [pteOf, h.newDir_pde (div_lt_NUPDE hv), if_neg not_present_zero]

/-- The new directory is held by its environment and holds nothing. -/
theorem newDir_target (h : PmapInv R D (p :: l) s) : target (s.newDir p) (insert p D)
    = Function.update (target s D) (.dir p) (some p) := by
  have hpD : p ∉ D := fun hpD => h.dir_notMem_free hpD (List.mem_cons_self ..)
  funext x
  cases x with
  | dir e =>
    by_cases hep : e = p
    · subst hep
      rw [Function.update_self]
      exact if_pos (Finset.mem_insert_self ..)
    · rw [Function.update_of_ne (by simpa using hep)]
      simp [target, hep]
  | pde e i =>
    rw [Function.update_of_ne (by simp)]
    simp only [target]
    by_cases hep : e = p
    · subst hep
      have hold : ¬ (e ∈ D ∧ i < NUPDE) := fun hc => hpD hc.1
      rw [if_neg hold]
      split
      · next hc => rw [h.newDir_pde hc.2, named_zero]
      · rfl
    · rw [newDir_mem_of_ne hep]
      simp [hep]
  | pte e v =>
    rw [Function.update_of_ne (by simp)]
    simp only [target]
    by_cases hep : e = p
    · subst hep
      have hold : ¬ (e ∈ D ∧ v < NUVPN) := fun hc => hpD hc.1
      rw [if_neg hold]
      split
      · next hc => rw [h.newDir_pteOf_self hc.2, named_zero]
      · rfl
    · by_cases hev : e ∈ D ∧ v < NUVPN
      · rw [if_pos hev, if_pos ⟨Finset.mem_insert_of_mem hev.1, hev.2⟩,
          h.newDir_pteOf_of_ne hev.1 hev.2]
      · rw [if_neg hev, if_neg]
        exact fun hc => hev ⟨(Finset.mem_insert.mp hc.1).resolve_left hep, hc.2⟩

theorem newDir (h : PmapInv R D (p :: l) s) : PmapInv R (insert p D) l (s.newDir p) := by
  have hp := h.head_managed
  have hun := h.free_unnamed (List.mem_cons_self ..)
  have hpD : p ∉ D := fun hpD => h.dir_notMem_free hpD (List.mem_cons_self ..)
  have hk : s.kernPgdir ≠ p := fun he => hp.2 (he ▸ h.map.kern_res.1)
  have hkmem : (s.newDir p).mem s.kernPgdir = s.mem s.kernPgdir := newDir_mem_of_ne hk
  have hres : ∀ q ∈ R, (s.newDir p).mem q = s.mem q :=
    fun q hq => newDir_mem_of_ne fun he => hp.2 (he ▸ hq)
  have href₁ : ((s.takeFree p).pages p).ppRef = (s.pages p).ppRef := by
    rw [takeFree_pages, if_pos rfl]
  have hrefs : (fun q => ((s.newDir p).pages q).ppRef.toNat)
      = Function.update (fun q => (s.pages q).ppRef.toNat) p ((s.pages p).ppRef.toNat + 1) := by
    have hzero := h.head_ref
    have hinc := ref_setRef_succ (s := (s.takeFree p).clearPage p) (p := p)
      (by rw [clearPage_pages, href₁]; omega)
    rw [clearPage_pages, href₁] at hinc
    refine hinc.trans ?_
    congr 1
    funext q
    rw [takeFree_pages]
    split
    · next hq => rw [hq]
    · rfl
  have habs : absStore (s.newDir p) (insert p D) l
      = ({ absStore s D (p :: l) with free := l } : RefStore Slot Nat).link (.dir p) p :=
    RefStore.ext h.newDir_target hrefs rfl
  refine ⟨h.npages_le, ?_, ?_, ?_, ?_⟩
  · intro d hd
    rcases Finset.mem_insert.mp hd with rfl | hd
    · exact hp.1
    · exact h.dirs_lt d hd
  · exact (h.free.takeFree.setRef p ((s.pages p).ppRef + 1#16)).congr rfl (fun _ => rfl) rfl
  · rw [habs]
    refine (h.consistent.alloc rfl).link (dir_mem_slots.mpr hp.1) ?_ hp h.head_notMem
      (fun x hx _ => hun x hx) (fun _ => h.head_ref)
    exact if_neg hpD
  · refine ⟨?_, ?_, ?_, ?_, h.map.kern_res, ?_, ?_, ?_, ?_⟩
    · intro d hd i hi hi' hne
      show (s.newDir p).mem d i = (s.newDir p).mem s.kernPgdir i
      rw [hkmem]
      rcases Finset.mem_insert.mp hd with rfl | hd
      · rw [newDir_mem_self hk, if_neg hne]
      · rw [newDir_mem_of_ne (h.dir_ne_of_unnamed hun hd)]
        exact h.map.upper d hd i hi hi' hne
    · intro d hd
      rcases Finset.mem_insert.mp hd with rfl | hd
      · rw [newDir_mem_self hk, if_pos rfl]
      · rw [newDir_mem_of_ne (h.dir_ne_of_unnamed hun hd)]
        exact h.map.self d hd
    · intro d hd i hi hP
      rcases Finset.mem_insert.mp hd with rfl | hd
      · rw [h.newDir_pde hi] at hP
        exact absurd hP not_present_zero
      · rw [newDir_mem_of_ne (h.dir_ne_of_unnamed hun hd)] at hP ⊢
        exact h.map.pde_perm d hd i hi hP
    · intro d hd v hv
      rcases Finset.mem_insert.mp hd with rfl | hd
      · exact Or.inl (h.newDir_pteOf_self hv)
      · rw [h.newDir_pteOf_of_ne hd hv]
        exact h.map.pte_wf d hd v hv
    · show ∀ i < NUPDE, (s.newDir p).mem s.kernPgdir i = 0#32
      rw [hkmem]
      exact h.map.kern_user
    · show ∀ i, NUPDE ≤ i → i < 1024 → present ((s.newDir p).mem s.kernPgdir i) →
        ppn ((s.newDir p).mem s.kernPgdir i) ∈ R ∧ ppn ((s.newDir p).mem s.kernPgdir i) < s.npages
      rw [hkmem]
      exact h.map.kern_upper
    · show ∀ i, NUPDE ≤ i → i < 1024 → i ≠ PDX UVPT → present ((s.newDir p).mem s.kernPgdir i) →
        ∀ j < 1024, ¬ userWritable ((s.newDir p).mem (ppn ((s.newDir p).mem s.kernPgdir i)) j)
      rw [hkmem]
      intro i hi hi' hne hP j hj
      rw [hres _ (h.map.kern_upper i hi hi' hP).1]
      exact h.map.kern_guard i hi hi' hne hP j hj
    · have htab := hres _ (h.map.kern_upper NUPDE le_rfl (by decide) h.map.uenvs.1).1
      show present ((s.newDir p).mem s.kernPgdir NUPDE) ∧
        present ((s.newDir p).mem (ppn ((s.newDir p).mem s.kernPgdir NUPDE)) 0) ∧
        ppn ((s.newDir p).mem (ppn ((s.newDir p).mem s.kernPgdir NUPDE)) 0) ∈ R ∧
        ppn ((s.newDir p).mem (ppn ((s.newDir p).mem s.kernPgdir NUPDE)) 0) < s.npages
      rw [hkmem, htab]
      exact h.map.uenvs

theorem newDir_frame (h : PmapInv R D (p :: l) s) : Frame R D s (s.newDir p) where
  npages := rfl
  kern := rfl
  res_mem q hq := newDir_mem_of_ne fun he => h.head_managed.2 (he ▸ hq)
  res_pages q hq := newDir_pages_of_ne fun he => h.head_managed.2 (he ▸ hq)
  upper d hd i _ := by
    rw [newDir_mem_of_ne (h.dir_ne_of_unnamed (h.free_unnamed (List.mem_cons_self ..)) hd)]

end PmapInv

end NewDir

/-! ## `env_free` -/

theorem PDX_PGADDR {i j : Nat} (hi : i < NUPDE) (hj : j < 1024) :
    PGADDR i j 0 < UTOP ∧ PDX (PGADDR i j 0) = i ∧ PTX (PGADDR i j 0) = j := by
  unfold NUPDE at hi
  have hval : (PGADDR i j 0).toNat = i * 4194304 + j * 4096 := by
    have hor : i * 4194304 ||| j * 4096 = i * 4194304 + j * 4096 := by
      have hlt : j * 4096 < 2 ^ 22 := by omega
      have := Nat.two_pow_add_eq_or_of_lt hlt i
      rw [Nat.mul_comm (2 ^ 22) i] at this
      exact this.symm
    have h₁ : (i <<< 22) % 4294967296 = i * 4194304 := by
      rw [Nat.shiftLeft_eq]
      omega
    have h₂ : (j <<< 12) % 4294967296 = j * 4096 := by
      rw [Nat.shiftLeft_eq]
      omega
    unfold PGADDR
    simp only [BitVec.toNat_or, BitVec.toNat_shiftLeft, BitVec.toNat_ofNat, Nat.reducePow,
      Nat.zero_mod, Nat.or_zero]
    rw [Nat.mod_eq_of_lt (by omega : i < 4294967296), Nat.mod_eq_of_lt (by omega : j < 4294967296),
      h₁, h₂, hor]
  refine ⟨?_, ?_, ?_⟩
  · rw [BitVec.lt_def, hval, toNat_UTOP]
    omega
  · rw [PDX_eq, hval]
    omega
  · rw [PTX_eq, hval]
    omega

/-- What `env_free` keeps while it works on directory `d`: reserved pages, the upper half, and every
other address space. It writes to the directory and its page tables only, counts go down only, and the pages
it frees are those whose count becomes zero. -/
structure FreeFrame (R : Set Nat) (D : Finset Nat) (d : Nat) (s s' : Pmap) : Prop where
  frame : Frame R D s s'
  pte : ∀ e ∈ D, e ≠ d → ∀ v < NUVPN, pteOf s' e v = pteOf s e v
  pde : ∀ i < NUPDE, s'.mem d i = s.mem d i ∨ s'.mem d i = 0#32
  mem : ∀ p, p ≠ d → (∀ i < NUPDE, named (s.mem d i) ≠ some p) → s'.mem p = s.mem p
  ref_le : ∀ p, (s'.pages p).ppRef.toNat ≤ (s.pages p).ppRef.toNat
  freed : ∀ p, OnFreeList s' p ↔
    OnFreeList s p ∨ (0 < (s.pages p).ppRef.toNat ∧ (s'.pages p).ppRef.toNat = 0)

namespace FreeFrame

variable {d : Nat}

theorem refl (s : Pmap) : FreeFrame R D d s s where
  frame := Frame.refl s
  pte _ _ _ _ _ := rfl
  pde _ _ := Or.inl rfl
  mem _ _ _ := rfl
  ref_le _ := le_rfl
  freed _ := (or_iff_left fun hc => by omega).symm

theorem trans {s₁ s₂ s₃ : Pmap} (h : FreeFrame R D d s₁ s₂) (h' : FreeFrame R D d s₂ s₃) :
    FreeFrame R D d s₁ s₃ where
  frame := h.frame.trans h'.frame
  pte e he hne v hv := (h'.pte e he hne v hv).trans (h.pte e he hne v hv)
  pde i hi := by
    rcases h'.pde i hi with hsame | hzero
    · rw [hsame]
      exact h.pde i hi
    · exact Or.inr hzero
  mem p hp hnot := by
    refine (h'.mem p hp fun i hi => ?_).trans (h.mem p hp hnot)
    rcases h.pde i hi with hsame | hzero
    · rw [hsame]
      exact hnot i hi
    · rw [hzero]
      exact nofun
  ref_le p := (h'.ref_le p).trans (h.ref_le p)
  freed p := by
    have hle := h.ref_le p
    have hle' := h'.ref_le p
    rw [h'.freed p, h.freed p, or_assoc]
    refine or_congr_right ⟨?_, fun hc => ?_⟩
    · rintro (⟨hpos, hzero⟩ | ⟨hpos, hzero⟩)
      · exact ⟨hpos, by omega⟩
      · exact ⟨by omega, hzero⟩
    · by_cases hz : (s₂.pages p).ppRef.toNat = 0
      · exact Or.inl ⟨hc.1, hz⟩
      · exact Or.inr ⟨by omega, hc.2⟩

end FreeFrame

/-- Dropping a reference to `p`. -/
private theorem decref_ref_le {p : Nat} (hpos : 0 < (s.pages p).ppRef.toNat) (q : Nat) :
    ((s.decref p).pages q).ppRef.toNat ≤ (s.pages q).ppRef.toNat := by
  have href := congrFun (ref_decref hpos) q
  rw [href]
  by_cases hqp : q = p
  · rw [hqp, Function.update_self]
    omega
  · rw [Function.update_of_ne hqp]

namespace PmapInv

variable {d i : Nat}

/-- `page_remove` while an address space is torn down. -/
theorem unmap_freeFrame (h : PmapInv R D l s) (hd : d ∈ D) {va : Word} (hva : va < UTOP)
    (hP : present (pteOf s d (PGNUM va))) : FreeFrame R D d s (s.unmap d va) where
  frame := h.unmap_frame hd hva hP
  pte e he hne v hv := by
    rw [h.unmap_pteOf hd hva hP he hv, if_neg fun hc => hne hc.1]
  pde i _ := by
    have hpde := (present_pde_of_pte hP).1
    have htd := h.sep.table_ne_dir d hd d hd _ (PDX_lt_of_lt_UTOP hva) hpde
    rw [Pmap.unmap, store_mem_of_ne _ _ _ htd.symm, decref_mem]
    exact Or.inl rfl
  mem p _ hnot := by
    have hpde := (present_pde_of_pte hP).1
    rw [Pmap.unmap, store_mem_of_ne, decref_mem]
    rintro rfl
    exact hnot _ (PDX_lt_of_lt_UTOP hva) (named_present hpde)
  ref_le p := decref_ref_le (h.page_ref_pos hd (PGNUM_lt_NUVPN hva) hP) p
  freed p := h.free.onFreeList_decref (h.page_notMem_free hd (PGNUM_lt_NUVPN hva) hP)
    (h.page_ref_pos hd (PGNUM_lt_NUVPN hva) hP) p

/-- The inner loop empties one page table. -/
theorem envFreePtes_spec (h : PmapInv R D l s) (hd : d ∈ D) (hi : i < NUPDE)
    (hP : present (s.mem d i)) :
    ∃ s' l', envFreePtes s d i (tableOf s d i) = .ok s' ∧ PmapInv R D l' s' ∧
      FreeFrame R D d s s' ∧ (∀ e ∈ D, s'.mem e = s.mem e) ∧
      ∀ j < 1024, pteOf s' d (i * 1024 + j) = 0#32 := by
  let I : Nat → Pmap → Prop := fun n s' => ∃ l', PmapInv R D l' s' ∧ FreeFrame R D d s s' ∧
    (∀ e ∈ D, s'.mem e = s.mem e) ∧ ∀ j < n, pteOf s' d (i * 1024 + j) = 0#32
  have hloop := Except.foldlM_range_invariant (f := fun s' pteno =>
    if present (s'.mem (tableOf s d i) pteno) then pageRemove s' d (PGADDR i pteno 0) else pure s')
    I 1024 (s := s) ⟨l, h, FreeFrame.refl s, fun _ _ => rfl, fun _ hj => absurd hj (by omega)⟩ ?_
  · obtain ⟨s', hs', l', hinv, hff, hmem, hz⟩ := hloop
    exact ⟨s', l', hs', hinv, hff, hmem, hz⟩
  · intro j hj s₁ hI
    obtain ⟨l₁, h₁, hff, hmem, hz⟩ := hI
    obtain ⟨hva, hpdx, hptx⟩ := PDX_PGADDR hi hj
    have hnum : PGNUM (PGADDR i j 0) = i * 1024 + j := by rw [PGNUM_split, hpdx, hptx]
    have hv : i * 1024 + j < NUVPN := hnum ▸ PGNUM_lt_NUVPN hva
    have hP₁ : present (s₁.mem d i) := by rw [hmem d hd]; exact hP
    have hpte : pteOf s₁ d (i * 1024 + j) = s₁.mem (tableOf s d i) j := by
      rw [← hnum, pteOf_PGNUM, hpdx, hptx, if_pos hP₁]
      simp only [tableOf, hmem d hd]
    by_cases hpres : present (s₁.mem (tableOf s d i) j)
    · have hpp : present (pteOf s₁ d (PGNUM (PGADDR i j 0))) := by rw [hnum, hpte]; exact hpres
      refine ⟨s₁.unmap d (PGADDR i j 0), ?_, _, h₁.unmap hd hva hpp, ?_, ?_, ?_⟩
      · simp only [if_pos hpres]
        exact h₁.pageRemove_mapped hd hva hpp
      · exact hff.trans (h₁.unmap_freeFrame hd hva hpp)
      · intro e he
        have htd := h₁.sep.table_ne_dir d hd e he _ hi hP₁
        rw [← hmem e he, Pmap.unmap, store_mem_of_ne, decref_mem]
        rw [hpdx]
        exact htd.symm
      · intro k hk
        have hkv : i * 1024 + k < NUVPN := by
          unfold NUVPN at hv ⊢
          omega
        rw [h₁.unmap_pteOf hd hva hpp hd hkv, hnum]
        by_cases hkj : k = j
        · rw [if_pos ⟨rfl, by rw [hkj]⟩]
        · rw [if_neg fun hc => hkj (by omega)]
          exact hz k (by omega)
    · refine ⟨s₁, by simp only [if_neg hpres]; rfl, l₁, h₁, hff, hmem, ?_⟩
      intro k hk
      by_cases hkj : k = j
      · subst hkj
        refine (h₁.map.pte_wf d hd _ hv).resolve_right ?_
        rw [hpte]
        exact hpres
      · exact hz k (by omega)

/-- Clearing the directory entry of an empty page table and freeing the table. -/
theorem freeTable (h : PmapInv R D l s) (hd : d ∈ D) (hi : i < NUPDE) (hP : present (s.mem d i))
    (hempty : ∀ j < 1024, pteOf s d (i * 1024 + j) = 0#32) :
    pageDecref (s.store ⟨d, i⟩ 0#32) (tableOf s d i)
        = .ok ((s.store ⟨d, i⟩ 0#32).decref (tableOf s d i)) ∧
      PmapInv R D (tableOf s d i :: l) ((s.store ⟨d, i⟩ 0#32).decref (tableOf s d i)) ∧
      FreeFrame R D d s ((s.store ⟨d, i⟩ 0#32).decref (tableOf s d i)) := by
  have ht := h.table_managed hd hi hP
  have hone := h.table_ref hd hi hP
  have hfree := h.table_notMem_free hd hi hP
  have hmem : ((s.store ⟨d, i⟩ 0#32).decref (tableOf s d i)).mem = (s.store ⟨d, i⟩ 0#32).mem :=
    decref_mem _ _
  have hn : ((s.store ⟨d, i⟩ 0#32).decref (tableOf s d i)).npages = s.npages := decref_npages _ _
  have hframe : Frame R D s ((s.store ⟨d, i⟩ 0#32).decref (tableOf s d i)) := by
    refine ⟨decref_npages _ _, decref_kernPgdir _ _, ?_, ?_, ?_⟩
    · intro p hp
      rw [hmem, store_mem_of_ne]
      rintro rfl
      exact (h.dir_managed hd).2 hp
    · intro p hp
      refine decref_pages_of_ne ?_
      rintro rfl
      exact ht.2 hp
    · intro e _ k hk
      rw [hmem, store_mem, if_neg]
      rintro ⟨-, rfl⟩
      exact absurd hi (Nat.not_lt.mpr hk)
  have hpte : ∀ e ∈ D, ∀ v < NUVPN,
      pteOf ((s.store ⟨d, i⟩ 0#32).decref (tableOf s d i)) e v
        = if e = d ∧ v / 1024 = i then 0#32 else pteOf s e v := by
    intro e he v hv
    rw [pteOf_of_mem_eq hmem]
    unfold pteOf
    by_cases hc : e = d ∧ v / 1024 = i
    · have hz : (s.store ⟨d, i⟩ 0#32).mem e (v / 1024) = 0#32 := by rw [store_mem, if_pos hc]
      rw [hz, if_neg not_present_zero, if_pos hc]
    · have hs : (s.store ⟨d, i⟩ 0#32).mem e (v / 1024) = s.mem e (v / 1024) := by
        rw [store_mem, if_neg hc]
      rw [hs, if_neg hc]
      split
      · next hpe =>
        rw [store_mem_of_ne _ _ _ (h.sep.table_ne_dir e he d hd _ (div_lt_NUPDE hv) hpe)]
      · rfl
  have habs : absStore ((s.store ⟨d, i⟩ 0#32).decref (tableOf s d i)) D (tableOf s d i :: l)
      = (absStore s D l).unlink (.pde d i) (tableOf s d i) := by
    refine RefStore.ext ?_ ?_ ?_
    · show target _ D = Function.update (target s D) (.pde d i) none
      rw [target_of_mem_eq hmem]
      exact h.sep.target_store_clear hd hi hempty
    · exact ref_decref (s := s.store ⟨d, i⟩ 0#32)
        (by rw [store_pages]; exact Nat.lt_of_lt_of_eq one_pos hone.symm)
    · show _ = if (s.pages (tableOf s d i)).ppRef.toNat = 1 then _ else _
      rw [if_pos hone]
      rfl
  have hpos : 0 < ((s.store ⟨d, i⟩ 0#32).pages (tableOf s d i)).ppRef.toNat := by
    rw [store_pages]
    exact Nat.lt_of_lt_of_eq one_pos hone.symm
  have hfi : FreeInv (s.store ⟨d, i⟩ 0#32) l := h.free.congr rfl (fun _ => rfl) rfl
  refine ⟨pageDecref_ok (h.link_none ht.1 hfree), ⟨?_, ?_, ?_, ?_, ?_⟩, hframe, ?_, ?_, ?_, ?_, ?_⟩
  · rw [hn]
    exact h.npages_le
  · rw [hn]
    exact h.dirs_lt
  · have := hfi.decref hfree
    rwa [store_pages, if_pos hone] at this
  · rw [habs, decref_npages]
    exact h.consistent.unlink (h.pde_mem hd hi) (target_table hd hi hP)
  · refine h.map.frame hframe ?_ ?_
    · intro e he k hk hPk
      rw [hmem, store_mem] at hPk ⊢
      split
      · next hc =>
        rw [if_pos hc] at hPk
        exact absurd hPk not_present_zero
      · next hc =>
        rw [if_neg hc] at hPk
        exact h.map.pde_perm e he k hk hPk
    · intro e he v hv
      rw [hpte e he v hv]
      split
      · exact Or.inl rfl
      · exact h.map.pte_wf e he v hv
  · intro e he hne v hv
    rw [hpte e he v hv, if_neg fun hc => hne hc.1]
  · intro k _
    rw [hmem, store_mem]
    split
    · exact Or.inr rfl
    · exact Or.inl rfl
  · intro p hp _
    rw [hmem, store_mem_of_ne _ _ _ hp]
  · exact decref_ref_le hpos
  · exact hfi.onFreeList_decref hfree hpos

/-- One iteration of the outer loop leaves the directory entry absent. -/
theorem envFreePde_spec (h : PmapInv R D l s) (hd : d ∈ D) (hi : i < NUPDE) :
    ∃ s' l', envFreePde d s i = .ok s' ∧ PmapInv R D l' s' ∧ FreeFrame R D d s s' ∧
      ¬ present (s'.mem d i) ∧ ∀ k, k ≠ i → s'.mem d k = s.mem d k := by
  by_cases hP : present (s.mem d i)
  · have hlt := (h.table_managed hd hi hP).1
    have hk : kaddr s (PTE_ADDR (s.mem d i)) = .ok (tableOf s d i) := kaddr_ok hlt
    obtain ⟨s₁, l₁, hcode₁, h₁, hff₁, hmem₁, hz₁⟩ := h.envFreePtes_spec hd hi hP
    have htab : tableOf s₁ d i = tableOf s d i := by rw [tableOf, hmem₁ d hd]
    have hP₁ : present (s₁.mem d i) := by rw [hmem₁ d hd]; exact hP
    obtain ⟨hcode₂, h₂, hff₂⟩ := h₁.freeTable hd hi hP₁ hz₁
    rw [htab] at hcode₂ h₂ hff₂
    have hpp : pa2page (s₁.store ⟨d, i⟩ 0#32) (PTE_ADDR (s.mem d i)) = .ok (tableOf s d i) :=
      pa2page_ok (by rw [store_npages, hff₁.frame.npages]; exact hlt)
    have hdmem : ∀ k, ((s₁.store ⟨d, i⟩ 0#32).decref (tableOf s d i)).mem d k
        = if k = i then 0#32 else s.mem d k := by
      intro k
      rw [decref_mem, store_mem, hmem₁ d hd]
      simp
    refine ⟨_, _, ?_, h₂, hff₁.trans hff₂, ?_, ?_⟩
    · rw [envFreePde, if_neg (not_not.mpr hP)]
      simp only [hk, Except.ok_bind, hcode₁, hpp, hcode₂]
    · rw [hdmem, if_pos rfl]
      exact not_present_zero
    · intro k hki
      rw [hdmem, if_neg hki]
  · exact ⟨s, l, by rw [envFreePde, if_pos hP]; rfl, h, FreeFrame.refl s, hP, fun _ _ => rfl⟩

/-- A directory without page tables can be dropped. -/
theorem dropDir (h : PmapInv R D l s) (hd : d ∈ D) (hempty : ∀ i < NUPDE, ¬ present (s.mem d i)) :
    pageDecref s d = .ok (s.decref d) ∧ PmapInv R (D.erase d) (d :: l) (s.decref d) := by
  have hm := h.dir_managed hd
  have hone := h.dir_ref hd
  have hfree := h.dir_notMem_free hd
  have hmem : (s.decref d).mem = s.mem := decref_mem _ _
  have htarget : target (s.decref d) (D.erase d) = Function.update (target s D) (.dir d) none := by
    rw [target_of_mem_eq hmem]
    funext x
    cases x with
    | dir e =>
      by_cases hed : e = d
      · rw [hed, Function.update_self]
        exact if_neg (Finset.notMem_erase d D)
      · rw [Function.update_of_ne (by simpa using hed)]
        simp [target, hed]
    | pde e i =>
      rw [Function.update_of_ne (by simp)]
      simp only [target]
      by_cases hed : e = d
      · subst hed
        have hout : ¬ (e ∈ D.erase e ∧ i < NUPDE) := fun hc => Finset.notMem_erase e D hc.1
        rw [if_neg hout]
        split
        · next hc => rw [named, if_neg (hempty i hc.2)]
        · rfl
      · simp [hed]
    | pte e v =>
      rw [Function.update_of_ne (by simp)]
      simp only [target]
      by_cases hed : e = d
      · subst hed
        have hout : ¬ (e ∈ D.erase e ∧ v < NUVPN) := fun hc => Finset.notMem_erase e D hc.1
        rw [if_neg hout]
        split
        · next hc => rw [pteOf, if_neg (hempty _ (div_lt_NUPDE hc.2)), named_zero]
        · rfl
      · simp [hed]
  have habs : absStore (s.decref d) (D.erase d) (d :: l) = (absStore s D l).unlink (.dir d) d := by
    refine RefStore.ext htarget (ref_decref (Nat.lt_of_lt_of_eq one_pos hone.symm)) ?_
    show _ = if (s.pages d).ppRef.toNat = 1 then _ else _
    rw [if_pos hone]
    rfl
  have hkern : (s.decref d).kernPgdir = s.kernPgdir := decref_kernPgdir _ _
  have hnp : (s.decref d).npages = s.npages := decref_npages _ _
  have hsub : ∀ e ∈ D.erase d, e ∈ D := fun e he => Finset.mem_of_mem_erase he
  refine ⟨pageDecref_ok (h.link_none hm.1 hfree), ?_, ?_, ?_, ?_, ?_⟩
  · exact hnp.trans_le h.npages_le
  · exact fun e he => (h.dirs_lt e (hsub e he)).trans_eq hnp.symm
  · have := h.free.decref hfree
    rwa [if_pos hone] at this
  · rw [habs, hnp]
    exact h.consistent.unlink (h.dir_mem hd) (target_dir hd)
  · refine ⟨?_, ?_, ?_, ?_, ?_, ?_, ?_, ?_, ?_⟩
    · rw [hmem, hkern]
      exact fun e he => h.map.upper e (hsub e he)
    · rw [hmem]
      exact fun e he => h.map.self e (hsub e he)
    · rw [hmem]
      exact fun e he => h.map.pde_perm e (hsub e he)
    · intro e he v hv
      rw [pteOf_of_mem_eq hmem]
      exact h.map.pte_wf e (hsub e he) v hv
    · rw [hkern, hnp]
      exact h.map.kern_res
    · rw [hmem, hkern]
      exact h.map.kern_user
    · rw [hmem, hkern, hnp]
      exact h.map.kern_upper
    · rw [hmem, hkern]
      exact h.map.kern_guard
    · rw [hmem, hkern, hnp]
      exact h.map.uenvs

/-- `env_free` takes the directory out of the set of address spaces and touches no other one. -/
theorem envFreeVm_spec (h : PmapInv R D l s) (hd : d ∈ D) :
    ∃ s' l', envFreeVm s d = .ok s' ∧ PmapInv R (D.erase d) l' s' ∧ FreeFrame R D d s s' := by
  let I : Nat → Pmap → Prop := fun n s' => ∃ l', PmapInv R D l' s' ∧ FreeFrame R D d s s' ∧
    ∀ i < n, ¬ present (s'.mem d i)
  have hloop := Except.foldlM_range_invariant (f := envFreePde d) I NUPDE (s := s)
    ⟨l, h, FreeFrame.refl s, fun _ hi => absurd hi (by omega)⟩ ?_
  · obtain ⟨s₁, hcode, l₁, h₁, hff, hz⟩ := hloop
    obtain ⟨hcode₂, h₂⟩ := h₁.dropDir hd hz
    have hlt := h₁.dirs_lt d hd
    have hpp : pa2page s₁ (page2pa d) = .ok d := by
      have hnum : PGNUM (page2pa d) = d := PGNUM_page2pa (hlt.trans_le h₁.npages_le')
      rw [pa2page_ok (by rw [hnum]; exact hlt), hnum]
    refine ⟨s₁.decref d, d :: l₁, ?_, h₂, ?_⟩
    · simp only [envFreeVm, hcode, Except.ok_bind, hpp, hcode₂]
    · have hpos : 0 < (s₁.pages d).ppRef.toNat := Nat.lt_of_lt_of_eq one_pos (h₁.dir_ref hd).symm
      refine hff.trans ⟨⟨decref_npages _ _, decref_kernPgdir _ _, ?_, ?_, ?_⟩, ?_, ?_, ?_,
        decref_ref_le hpos, h₁.free.onFreeList_decref (h₁.dir_notMem_free hd) hpos⟩
      · exact fun p _ => by rw [decref_mem]
      · exact fun p hp => decref_pages_of_ne fun he => (h₁.dir_managed hd).2 (he ▸ hp)
      · exact fun e _ i _ => by rw [decref_mem]
      · exact fun e _ _ v _ => pteOf_of_mem_eq (decref_mem _ _) e v
      · exact fun i _ => Or.inl (by rw [decref_mem])
      · exact fun p _ _ => by rw [decref_mem]
  · intro i hi s₁ hI
    obtain ⟨l₁, h₁, hff, hz⟩ := hI
    obtain ⟨s₂, l₂, hcode, h₂, hff₂, habs, hrest⟩ := h₁.envFreePde_spec hd hi
    refine ⟨s₂, hcode, l₂, h₂, hff.trans hff₂, fun k hk => ?_⟩
    by_cases hki : k = i
    · rw [hki]
      exact habs
    · rw [hrest k hki]
      exact hz k (by omega)

end PmapInv

end Jos
