import Jos.KernelInv

/-!
# What the mapping system calls do

One lemma for each system call that edits page tables, over any state that satisfies the invariant: which
arguments it refuses, and what it has changed when it succeeds. The lemmas also cover the two calls that
get through to `page_insert` with an address of `UTOP` or more, and the calls whose page has a count of
65535; what follows from these is the subject of later modules.
-/

namespace Jos

open Pmap

variable {R : Set Nat} {D : Finset Nat} {l : List Nat} {s : Pmap} {k : Kernel} {c e cur d p : Nat}
  {va perm : Word}

/-! ## Arguments -/

theorem permOk.toNat_lt (h : permOk perm) : perm.toNat < 4096 := toNat_lt_of_syscall h.2

theorem aligned_iff : aligned va ↔ va = ROUNDDOWN va PGSIZE := by
  have hr := toNat_ROUNDDOWN va
  unfold aligned PGSIZE at *
  constructor
  · intro h
    apply BitVec.eq_of_toNat_eq
    omega
  · intro h
    have := congrArg BitVec.toNat h
    omega

theorem eq_UTOP (h : ¬ UTOP < va) (h' : ¬ va < UTOP) : va = UTOP := by
  apply BitVec.eq_of_toNat_eq
  rw [BitVec.lt_def] at h h'
  omega

/-! ## A fresh page -/

/-- The state after `page_alloc(ALLOC_ZERO)` has returned `p`. -/
def Pmap.fresh (s : Pmap) (p : Nat) : Pmap := (s.takeFree p).clearPage p

theorem fresh_pages_self : (s.fresh p).pages p = { s.pages p with ppLink := none } := by
  rw [fresh, clearPage_pages, takeFree_pages, if_pos rfl]

theorem fresh_mem_self (i : Nat) : (s.fresh p).mem p i = 0#32 := clearPage_mem_self _ _ i

theorem fresh_mem_of_ne {q : Nat} (h : q ≠ p) : (s.fresh p).mem q = s.mem q := by
  rw [fresh, clearPage_mem_of_ne _ _ h, takeFree_mem]

namespace PmapInv

theorem pageAlloc_fresh (h : PmapInv R D (p :: l) s) :
    pageAlloc s true = .ok (some p, s.fresh p) :=
  pageAlloc_some true h.free.head_some h.head_managed.1 h.npages_le'

theorem fresh_ref (h : PmapInv R D (p :: l) s) : ((s.fresh p).pages p).ppRef.toNat = 0 := by
  rw [fresh_pages_self]
  exact h.head_ref

theorem fresh (h : PmapInv R D (p :: l) s) : PmapInv R D l (s.fresh p) := by
  refine h.takeFree.clearPage h.head_managed ?_
  rw [takeFree_pages, if_pos rfl]
  exact h.head_ref

theorem fresh_unnamed (h : PmapInv R D (p :: l) s) (x : Slot) (hx : x ∈ slots (s.fresh p).npages) :
    target (s.fresh p) D x ≠ some p :=
  h.fresh.unnamed_of_ref_zero h.head_managed h.fresh_ref x hx

/-- Clearing a free page does not show in the page tables. -/
theorem clearPage_pteOf (h : PmapInv R D l s) (hp : p ∈ l) (hd : d ∈ D) {v : Nat}
    (hv : v < NUVPN) : pteOf (s.clearPage p) d v = pteOf s d v := by
  have hun := h.free_unnamed hp
  unfold pteOf
  rw [clearPage_mem_of_ne _ _ (h.dir_ne_of_unnamed hun hd)]
  split
  · next hP => rw [clearPage_mem_of_ne _ _ (h.table_ne_of_unnamed hun hd (div_lt_NUPDE hv) hP)]
  · rfl

theorem clearPage_frame (h : PmapInv R D l s) (hp : p ∈ l) : Frame R D s (s.clearPage p) where
  npages := rfl
  kern := rfl
  res_mem q hq := clearPage_mem_of_ne _ _ fun he =>
    (h.consistent.free_managed p hp).2 (he ▸ hq)
  res_pages _ _ := rfl
  upper d hd i _ := by rw [clearPage_mem_of_ne _ _ (h.dir_ne_of_unnamed (h.free_unnamed hp) hd)]

theorem fresh_pteOf (h : PmapInv R D (p :: l) s) (hd : d ∈ D) {v : Nat} (hv : v < NUVPN) :
    pteOf (s.fresh p) d v = pteOf s d v := by
  rw [← h.clearPage_pteOf (List.mem_cons_self ..) hd hv]
  exact pteOf_of_mem_eq rfl d v

theorem fresh_frame (h : PmapInv R D (p :: l) s) : Frame R D s (s.fresh p) where
  npages := rfl
  kern := rfl
  res_mem := (h.clearPage_frame (List.mem_cons_self ..)).res_mem
  res_pages := h.takeFree_frame.res_pages
  upper := (h.clearPage_frame (List.mem_cons_self ..)).upper

/-- Taking a page and giving it back only clears it. -/
theorem fresh_putFree (h : PmapInv R D (p :: l) s) :
    pageFree (s.fresh p) p = .ok (s.clearPage p) := by
  have href : ((s.fresh p).pages p).ppRef = 0#16 := BitVec.eq_of_toNat_eq h.fresh_ref
  rw [pageFree_ok href (by rw [fresh_pages_self])]
  congr 1
  refine Pmap.ext rfl ?_ h.free.head_some.symm rfl rfl rfl
  funext q
  rw [putFree_pages]
  split
  · next hq =>
    rw [hq, fresh_pages_self]
    exact PageInfo.ext rfl rfl
  · next hq => rw [Pmap.fresh, clearPage_pages, takeFree_pages, if_neg hq, clearPage_pages]

end PmapInv

/-! ## `sys_page_alloc` -/

/-- The arguments of `sys_page_alloc` pass its checks. Like the source, and unlike its comment, this lets
`UTOP` itself through. -/
def PageAllocArgs (k : Kernel) (cur e : Nat) (envid va perm : Word) : Prop :=
  envid2env k cur envid true = some e ∧ ¬ UTOP < va ∧ aligned va ∧ permOk perm

theorem sysPageAlloc_refused {envid : Word} (h : ∀ e, ¬ PageAllocArgs k cur e envid va perm) :
    ∃ r < 0, sysPageAlloc k cur envid va perm = .ok (r, k) := by
  unfold sysPageAlloc
  split
  · exact ⟨-E_BAD_ENV, by decide, rfl⟩
  · next e he =>
    split
    · exact ⟨-E_INVAL, by decide, rfl⟩
    · next hva =>
      split
      · exact ⟨-E_INVAL, by decide, rfl⟩
      · next hperm =>
        obtain ⟨h₁, h₂⟩ := not_or.mp hva
        exact absurd ⟨he, h₁, not_not.mp h₂, not_not.mp hperm⟩ (h e)

/-- Past the checks. -/
theorem sysPageAlloc_eq {envid : Word} (h : PageAllocArgs k cur e envid va perm)
    (hpg : (k.envs e).envPgdir = some d) (hp : pageAlloc k.pmap true = .ok (some p, s)) :
    sysPageAlloc k cur envid va perm = (do
      let (r, pmap) ← pageInsert s d p va perm
      if r ≠ 0 then
        let pmap ← pageFree pmap p
        return (-E_NO_MEM, { k with pmap })
      else
        return (0, { k with pmap })) := by
  obtain ⟨he, hva, hal, hperm⟩ := h
  have hdir := pgdirOf_some hpg
  rw [sysPageAlloc, he]
  simp only
  rw [if_neg (not_or.mpr ⟨hva, not_not.mpr hal⟩), if_neg (not_not.mpr hperm), hp]
  simp only [Except.ok_bind, hdir]

theorem MemInv.sysPageAlloc_noMem {envid : Word} (h : MemInv R D [] k)
    (ha : PageAllocArgs k cur e envid va perm) :
    sysPageAlloc k cur envid va perm = .ok (-E_NO_MEM, k) := by
  obtain ⟨he, hva, hal, hperm⟩ := ha
  have hp := pageAlloc_none true h.pmap.free.head_none
  rw [sysPageAlloc, he]
  simp only
  rw [if_neg (not_or.mpr ⟨hva, not_not.mpr hal⟩), if_neg (not_not.mpr hperm), hp]
  rfl

/-- Below `UTOP` the call maps a fresh page, unless it takes the last page and then needs another for
the page table. -/
theorem MemInv.sysPageAlloc_below {envid : Word} (h : MemInv R D (p :: l) k)
    (ha : PageAllocArgs k cur e envid va perm) (hd : d ∈ D) (hpg : (k.envs e).envPgdir = some d)
    (hva : va < UTOP) :
    (∃ s l', sysPageAlloc k cur envid va perm = .ok (0, { k with pmap := s }) ∧
      Inserted R D l (k.pmap.fresh p) d p va perm s ∧ PmapInv R D l' s) ∨
    (l = [] ∧ sysPageAlloc k cur envid va perm
      = .ok (-E_NO_MEM, { k with pmap := k.pmap.clearPage p })) := by
  have hfresh := h.pmap.fresh
  have href := h.pmap.fresh_ref
  have hcode := sysPageAlloc_eq ha hpg h.pmap.pageAlloc_fresh
  rcases hfresh.pageInsert_cases hd hva ha.2.2.2.toNat_lt h.pmap.head_managed h.pmap.head_notMem
    (fun x hx _ => h.pmap.fresh_unnamed x hx) with ⟨s, hins, hI, hinv⟩ | ⟨hins, -, rfl⟩
  · obtain ⟨l', hinv, -⟩ := hinv (by omega)
    refine Or.inl ⟨s, l', ?_, hI, hinv⟩
    rw [hcode, hins]
    rfl
  · refine Or.inr ⟨rfl, ?_⟩
    rw [hcode, hins]
    have hne : (-E_NO_MEM : Int) ≠ 0 := by decide
    simp only [Except.ok_bind]
    rw [if_pos hne, h.pmap.fresh_putFree]
    rfl

/-! ### The boundary -/

/-- In every directory `UENVS` is mapped through a page table that boot code reserved. -/
theorem PmapInv.uenvs_entry (h : PmapInv R D l s) (hd : d ∈ D) :
    s.mem d (PDX UTOP) = s.mem s.kernPgdir NUPDE ∧ present (s.mem d (PDX UTOP)) ∧
      tableOf s d (PDX UTOP) ∈ R ∧ tableOf s d (PDX UTOP) < s.npages ∧
      pteOf s d (PGNUM UTOP) = s.mem (tableOf s d (PDX UTOP)) 0 ∧
      present (pteOf s d (PGNUM UTOP)) ∧ ppn (pteOf s d (PGNUM UTOP)) ∈ R ∧
      ppn (pteOf s d (PGNUM UTOP)) < s.npages := by
  have hptx : PTX UTOP = 0 := by decide
  obtain ⟨hpde, hpte, hres, hlt⟩ := h.map.uenvs
  have heq : s.mem d (PDX UTOP) = s.mem s.kernPgdir NUPDE := by
    rw [PDX_UTOP]
    exact h.map.upper d hd NUPDE le_rfl (by decide) (by decide)
  have hP : present (s.mem d (PDX UTOP)) := by rw [heq]; exact hpde
  have htab : tableOf s d (PDX UTOP) = ppn (s.mem s.kernPgdir NUPDE) := by rw [tableOf, heq]
  obtain ⟨htR, htn⟩ := h.map.kern_upper NUPDE le_rfl (by decide) hpde
  have hpteOf : pteOf s d (PGNUM UTOP) = s.mem (tableOf s d (PDX UTOP)) 0 := by
    rw [pteOf_PGNUM, if_pos hP, hptx]
  rw [hpteOf, htab]
  exact ⟨heq, hP, htR, htn, rfl, hpte, hres, hlt⟩

/-- `page_insert` at `UTOP` goes through: it replaces the first page of the shared `UENVS` window. -/
theorem PmapInv.pageInsert_UTOP (h : PmapInv R D l s) (hd : d ∈ D) (pp : Nat) (perm : Word) :
    pageInsert s d pp UTOP perm = .ok (0, s.insertMapped d pp UTOP perm) := by
  obtain ⟨-, hP, htR, htn, -, -, hqR, hqn⟩ := h.uenvs_entry hd
  refine pageInsert_present hP htn ?_ fun _ => ⟨hqn, h.link_none hqn ?_⟩
  · intro he
    exact (h.dir_managed hd).2 (he ▸ htR)
  · intro hq
    exact (h.consistent.free_managed _ hq).2 hqR

/-- The page table is shared, so the new page shows in every address space. -/
theorem PmapInv.insertMapped_UTOP_pteOf (h : PmapInv R D l s) (hd : d ∈ D) {d' pp : Nat}
    (hd' : d' ∈ D) (hperm : perm.toNat < 4096) :
    pteOf (s.insertMapped d pp UTOP perm) d' (PGNUM UTOP) = mkPte pp perm := by
  obtain ⟨heq, hP, htR, -⟩ := h.uenvs_entry hd
  obtain ⟨heq', -⟩ := h.uenvs_entry hd'
  have hne : ∀ e ∈ D, tableOf s d (PDX UTOP) ≠ e := by
    rintro e he rfl
    exact (h.dir_managed he).2 htR
  have hpde : (s.insertMapped d pp UTOP perm).mem d' (PDX UTOP) = s.mem d (PDX UTOP) ∨
      (s.insertMapped d pp UTOP perm).mem d' (PDX UTOP) = (s.mem d (PDX UTOP) ||| perm) := by
    rw [insertMapped_mem, Pmap.setPte, store_mem]
    split
    · exact Or.inr rfl
    · rw [store_mem_of_ne _ _ _ (hne d' hd').symm, heq', heq]
      exact Or.inl rfl
  have hboth : present ((s.insertMapped d pp UTOP perm).mem d' (PDX UTOP)) ∧
      ppn ((s.insertMapped d pp UTOP perm).mem d' (PDX UTOP)) = tableOf s d (PDX UTOP) := by
    rcases hpde with hpde | hpde
    · rw [hpde]
      exact ⟨hP, rfl⟩
    · rw [hpde]
      exact ⟨present_or_left _ hP, ppn_or_flags _ hperm⟩
  rw [pteOf_PGNUM, if_pos hboth.1, tableOf, hboth.2, insertMapped_mem, Pmap.setPte,
    store_mem_of_ne _ _ _ (hne d hd), store_mem, if_pos ⟨rfl, rfl⟩]

theorem MemInv.sysPageAlloc_UTOP {envid : Word} (h : MemInv R D (p :: l) k)
    (ha : PageAllocArgs k cur e envid UTOP perm) (hd : d ∈ D)
    (hpg : (k.envs e).envPgdir = some d) :
    sysPageAlloc k cur envid UTOP perm
      = .ok (0, { k with pmap := (k.pmap.fresh p).insertMapped d p UTOP perm }) := by
  rw [sysPageAlloc_eq ha hpg h.pmap.pageAlloc_fresh, h.pmap.fresh.pageInsert_UTOP hd p perm]
  rfl

/-! ## Sharing a page -/

/-- A page is mapped at `va` under `d`, writable if `perm` asks for it. -/
def Shareable (s : Pmap) (d : Nat) (va perm : Word) : Prop :=
  present (pteOf s d (PGNUM va)) ∧
    (perm &&& PTE_W ≠ 0#32 → pteOf s d (PGNUM va) &&& PTE_W ≠ 0#32)

namespace PmapInv

variable {sd dd : Nat} {srcva dstva : Word}

/-- What `page_lookup` and the check of `PTE_W` find for a page that is not shareable. -/
theorem not_shareable (h : PmapInv R D l s) (hd : sd ∈ D) (hva : srcva < UTOP)
    (hs : ¬ Shareable s sd srcva perm) :
    pageLookup s sd srcva = .ok none ∨
      ∃ pp pte, pageLookup s sd srcva = .ok (some (pp, pte)) ∧
        perm &&& PTE_W ≠ 0#32 ∧ s.load pte &&& PTE_W = 0#32 := by
  by_cases hP : present (pteOf s sd (PGNUM srcva))
  · have hW : ¬ (perm &&& PTE_W ≠ 0#32 → pteOf s sd (PGNUM srcva) &&& PTE_W ≠ 0#32) :=
      fun hW => hs ⟨hP, hW⟩
    obtain ⟨hW₁, hW₂⟩ := Classical.not_imp.mp hW
    refine Or.inr ⟨_, _, h.pageLookup_mapped hd hva hP, hW₁, ?_⟩
    rw [load, ← (present_pde_of_pte hP).2]
    exact not_not.mp hW₂
  · exact Or.inl (h.pageLookup_unmapped hd hva hP)

theorem shareable (h : PmapInv R D l s) (hd : sd ∈ D) (hva : srcva < UTOP)
    (hs : Shareable s sd srcva perm) :
    ∃ pte, pageLookup s sd srcva = .ok (some (ppn (pteOf s sd (PGNUM srcva)), pte)) ∧
      ¬ (perm &&& PTE_W ≠ 0#32 ∧ s.load pte &&& PTE_W = 0#32) := by
  refine ⟨_, h.pageLookup_mapped hd hva hs.1, fun hW => hs.2 hW.1 ?_⟩
  rw [(present_pde_of_pte hs.1).2]
  exact hW.2

/-- `page_insert` of a page that is mapped somewhere below `UTOP`. -/
theorem pageInsert_shared (h : PmapInv R D l s) (hsd : sd ∈ D) (hsrc : srcva < UTOP)
    (hP : present (pteOf s sd (PGNUM srcva))) (hdd : dd ∈ D) (hdst : dstva < UTOP)
    (hperm : perm.toNat < 4096) :
    (∃ s', pageInsert s dd (ppn (pteOf s sd (PGNUM srcva))) dstva perm = .ok (0, s') ∧
      Inserted R D l s dd (ppn (pteOf s sd (PGNUM srcva))) dstva perm s' ∧
      ((s.pages (ppn (pteOf s sd (PGNUM srcva)))).ppRef.toNat ≠ 65535 → ∃ l', PmapInv R D l' s' ∧
        l.length ≤ l'.length + if present (s.mem dd (PDX dstva)) then 0 else 1)) ∨
    (pageInsert s dd (ppn (pteOf s sd (PGNUM srcva))) dstva perm = .ok (-E_NO_MEM, s) ∧
      ¬ present (s.mem dd (PDX dstva)) ∧ l = []) := by
  have hv := PGNUM_lt_NUVPN hsrc
  exact h.pageInsert_cases hdd hdst hperm (h.page_managed hsd hv hP) (h.page_notMem_free hsd hv hP)
    (h.page_shared hsd hv hP)

end PmapInv

/-! ## `sys_page_map` -/

/-- The arguments of `sys_page_map` pass its checks, and there is a page to map. -/
@[mk_iff]
structure PageMapArgs (k : Kernel) (cur src dst : Nat) (srcenvid srcva dstenvid dstva perm : Word)
    (sd dd : Nat) : Prop where
  srcenv : envid2env k cur srcenvid true = some src
  dstenv : envid2env k cur dstenvid true = some dst
  src_lt : srcva < UTOP
  dst_lt : dstva < UTOP
  src_aligned : aligned srcva
  dst_aligned : aligned dstva
  perm_ok : permOk perm
  srcdir : (k.envs src).envPgdir = some sd
  dstdir : (k.envs dst).envPgdir = some dd
  page : Shareable k.pmap sd srcva perm

section PageMap

variable {src dst sd dd : Nat} {srcenvid srcva dstenvid dstva : Word}

theorem MemInv.sysPageMap_ok (h : MemInv R D l k)
    (ha : PageMapArgs k cur src dst srcenvid srcva dstenvid dstva perm sd dd)
    (hsd : sd ∈ D) (hdd : dd ∈ D) :
    (∃ s, sysPageMap k cur srcenvid srcva dstenvid dstva perm = .ok (0, { k with pmap := s }) ∧
      Inserted R D l k.pmap dd (ppn (pteOf k.pmap sd (PGNUM srcva))) dstva perm s ∧
      ((k.pmap.pages (ppn (pteOf k.pmap sd (PGNUM srcva)))).ppRef.toNat ≠ 65535 →
        ∃ l', PmapInv R D l' s ∧
          l.length ≤ l'.length + if present (k.pmap.mem dd (PDX dstva)) then 0 else 1)) ∨
    (sysPageMap k cur srcenvid srcva dstenvid dstva perm = .ok (-E_NO_MEM, k) ∧
      ¬ present (k.pmap.mem dd (PDX dstva)) ∧ l = []) := by
  obtain ⟨pte, hlook, hW⟩ := h.pmap.shareable hsd ha.src_lt ha.page
  have hsrcdir := pgdirOf_some ha.srcdir
  have hdstdir := pgdirOf_some ha.dstdir
  have hcheck : ¬ (UTOP ≤ srcva ∨ ¬ aligned srcva ∨ UTOP ≤ dstva ∨ ¬ aligned dstva) := by
    rintro (hc | hc | hc | hc)
    · exact BitVec.not_le.mpr ha.src_lt hc
    · exact hc ha.src_aligned
    · exact BitVec.not_le.mpr ha.dst_lt hc
    · exact hc ha.dst_aligned
  have hcode : sysPageMap k cur srcenvid srcva dstenvid dstva perm = (do
      let (r, pmap) ← pageInsert k.pmap dd (ppn (pteOf k.pmap sd (PGNUM srcva))) dstva perm
      if r ≠ 0 then
        return (-E_NO_MEM, { k with pmap })
      else
        return (0, { k with pmap })) := by
    rw [sysPageMap, ha.srcenv, ha.dstenv]
    simp only
    rw [if_neg hcheck, if_neg (not_not.mpr ha.perm_ok)]
    simp only [Except.ok_bind, hsrcdir, hlook]
    rw [if_neg hW]
    simp only [Except.ok_bind, hdstdir]
  rcases h.pmap.pageInsert_shared hsd ha.src_lt ha.page.1 hdd ha.dst_lt ha.perm_ok.toNat_lt with
    ⟨s, hins, hI, hinv⟩ | ⟨hins, hpde, hl⟩
  · refine Or.inl ⟨s, ?_, hI, hinv⟩
    rw [hcode, hins]
    rfl
  · refine Or.inr ⟨?_, hpde, hl⟩
    rw [hcode, hins]
    rfl

theorem MemInv.sysPageMap_refused (h : MemInv R D l k)
    (hno : ∀ src dst sd dd,
      ¬ PageMapArgs k cur src dst srcenvid srcva dstenvid dstva perm sd dd) :
    (∃ r < 0, sysPageMap k cur srcenvid srcva dstenvid dstva perm = .ok (r, k)) ∨
      (Orphan k cur ∧
        sysPageMap k cur srcenvid srcva dstenvid dstva perm = .error .kernelFault) := by
  unfold sysPageMap
  split
  · next src dst hsrc hdst =>
    split
    · exact Or.inl ⟨-E_INVAL, by decide, rfl⟩
    · next hcheck =>
      split
      · exact Or.inl ⟨-E_INVAL, by decide, rfl⟩
      · next hperm =>
        obtain ⟨h₁, h₂, h₃, h₄⟩ : ¬ UTOP ≤ srcva ∧ ¬ ¬ aligned srcva ∧ ¬ UTOP ≤ dstva ∧
          ¬ ¬ aligned dstva := by
          simpa only [not_or] using hcheck
        cases hspg : (k.envs src).envPgdir with
        | none =>
          refine Or.inr ⟨⟨_, _, src, hsrc, hspg⟩, ?_⟩
          rw [pgdirOf_none hspg]
          rfl
        | some sd =>
          simp only [pgdirOf_some hspg, Except.ok_bind]
          by_cases hs : Shareable k.pmap sd srcva perm
          · obtain ⟨pte, hlook, hW⟩ := h.pmap.shareable (h.envs.dir _ _ hspg) (BitVec.not_le.mp h₁) hs
            cases hdpg : (k.envs dst).envPgdir with
            | none =>
              refine Or.inr ⟨⟨_, _, dst, hdst, hdpg⟩, ?_⟩
              simp only [hlook, Except.ok_bind]
              rw [if_neg hW, pgdirOf_none hdpg]
              rfl
            | some dd =>
              exact absurd ⟨hsrc, hdst, BitVec.not_le.mp h₁, BitVec.not_le.mp h₃, not_not.mp h₂,
                not_not.mp h₄, not_not.mp hperm, hspg, hdpg, hs⟩ (hno src dst sd dd)
          · refine Or.inl ⟨-E_INVAL, by decide, ?_⟩
            rcases h.pmap.not_shareable (h.envs.dir _ _ hspg) (BitVec.not_le.mp h₁) hs with
              hn | ⟨pp, pte, hn, hW⟩
            · simp only [hn, Except.ok_bind, Except.pure_eq]
            · simp only [hn, Except.ok_bind]
              rw [if_pos hW]
              rfl
  · exact Or.inl ⟨-E_BAD_ENV, by decide, rfl⟩

/-- `sys_page_map` either refuses and changes nothing, or maps the page, or dereferences a null
directory. -/
theorem MemInv.sysPageMap_cases (h : MemInv R D l k) (cur : Nat)
    (srcenvid srcva dstenvid dstva perm : Word) :
    (∃ r < 0, sysPageMap k cur srcenvid srcva dstenvid dstva perm = .ok (r, k)) ∨
    (∃ src dst sd dd s, PageMapArgs k cur src dst srcenvid srcva dstenvid dstva perm sd dd ∧
      sd ∈ D ∧ dd ∈ D ∧
      sysPageMap k cur srcenvid srcva dstenvid dstva perm = .ok (0, { k with pmap := s }) ∧
      Inserted R D l k.pmap dd (ppn (pteOf k.pmap sd (PGNUM srcva))) dstva perm s ∧
      ((k.pmap.pages (ppn (pteOf k.pmap sd (PGNUM srcva)))).ppRef.toNat ≠ 65535 →
        ∃ l', PmapInv R D l' s)) ∨
    (Orphan k cur ∧
      sysPageMap k cur srcenvid srcva dstenvid dstva perm = .error .kernelFault) := by
  by_cases hno : ∀ src dst sd dd,
      ¬ PageMapArgs k cur src dst srcenvid srcva dstenvid dstva perm sd dd
  · rcases h.sysPageMap_refused hno with href | horphan
    · exact Or.inl href
    · exact Or.inr (Or.inr horphan)
  · push Not at hno
    obtain ⟨src, dst, sd, dd, ha⟩ := hno
    have hsd := h.envs.dir _ _ ha.srcdir
    have hdd := h.envs.dir _ _ ha.dstdir
    rcases h.sysPageMap_ok ha hsd hdd with ⟨s, hcode, hI, hinv⟩ | ⟨hcode, -, -⟩
    · refine Or.inr (Or.inl ⟨src, dst, sd, dd, s, ha, hsd, hdd, hcode, hI, fun href => ?_⟩)
      obtain ⟨l', hinv, -⟩ := hinv href
      exact ⟨l', hinv⟩
    · exact Or.inl ⟨-E_NO_MEM, by decide, hcode⟩

end PageMap

/-! ## `sys_page_unmap` -/

theorem MemInv.sysPageUnmap_mapped (h : MemInv R D l k) {envid : Word}
    (he : envid2env k cur envid true = some e) (hva : va < UTOP) (hal : aligned va)
    (hpg : (k.envs e).envPgdir = some d) (hP : present (pteOf k.pmap d (PGNUM va))) :
    sysPageUnmap k cur envid va = .ok (0, { k with pmap := k.pmap.unmap d va }) := by
  rw [sysPageUnmap, he]
  simp only
  rw [if_neg (not_or.mpr ⟨BitVec.not_le.mpr hva, not_not.mpr hal⟩), pgdirOf_some hpg]
  simp only [h.pmap.pageRemove_mapped (h.envs.dir _ _ hpg) hva hP, Except.ok_bind, Except.pure_eq]

/-- `sys_page_unmap` refuses, finds nothing to unmap, unmaps a page below `UTOP`, or dereferences a null
directory. -/
theorem MemInv.sysPageUnmap_cases (h : MemInv R D l k) (cur : Nat) (envid va : Word) :
    (∃ r < 0, sysPageUnmap k cur envid va = .ok (r, k)) ∨
    (∃ e d, envid2env k cur envid true = some e ∧ va < UTOP ∧ aligned va ∧ d ∈ D ∧
      (k.envs e).envPgdir = some d ∧
      ((¬ present (pteOf k.pmap d (PGNUM va)) ∧ sysPageUnmap k cur envid va = .ok (0, k)) ∨
        (present (pteOf k.pmap d (PGNUM va)) ∧
          sysPageUnmap k cur envid va = .ok (0, { k with pmap := k.pmap.unmap d va })))) ∨
    (Orphan k cur ∧ sysPageUnmap k cur envid va = .error .kernelFault) := by
  unfold sysPageUnmap
  split
  · exact Or.inl ⟨-E_BAD_ENV, by decide, rfl⟩
  · next e he =>
    split
    · exact Or.inl ⟨-E_INVAL, by decide, rfl⟩
    · next hcheck =>
      obtain ⟨hva, hal⟩ := not_or.mp hcheck
      have hva := BitVec.not_le.mp hva
      cases hpg : (k.envs e).envPgdir with
      | none =>
        refine Or.inr (Or.inr ⟨⟨_, _, e, he, hpg⟩, ?_⟩)
        rw [pgdirOf_none hpg]
        rfl
      | some d =>
        have hd := h.envs.dir _ _ hpg
        refine Or.inr (Or.inl ⟨e, d, he, hva, not_not.mp hal, hd, hpg, ?_⟩)
        simp only [pgdirOf_some hpg, Except.ok_bind]
        by_cases hP : present (pteOf k.pmap d (PGNUM va))
        · refine Or.inr ⟨hP, ?_⟩
          simp only [h.pmap.pageRemove_mapped hd hva hP, Except.ok_bind, Except.pure_eq]
        · refine Or.inl ⟨hP, ?_⟩
          simp only [h.pmap.pageRemove_unmapped hd hva hP, Except.ok_bind, Except.pure_eq]

/-! ## `sys_ipc_try_send` -/

/-- A send that carries a page passes its checks. The address the receiver asked for is not among
them. -/
@[mk_iff]
structure SendPageArgs (k : Kernel) (cur e : Nat) (envid srcva perm : Word) (sd dd : Nat) : Prop where
  env : envid2env k cur envid false = some e
  recving : (k.envs e).envIpcRecving = true
  src_lt : srcva < UTOP
  src_aligned : aligned srcva
  perm_ok : permOk perm
  srcdir : (k.envs cur).envPgdir = some sd
  dstdir : (k.envs e).envPgdir = some dd
  page : Shareable k.pmap sd srcva perm

section Ipc

variable {sd dd : Nat} {envid value srcva : Word}

theorem sysIpcTrySend_noPage (he : envid2env k cur envid false = some e)
    (hr : (k.envs e).envIpcRecving = true) (hsrc : ¬ srcva < UTOP) :
    sysIpcTrySend k cur envid value srcva perm = .ok (0, deliver k cur e value 0#32) := by
  rw [sysIpcTrySend, he]
  simp only
  rw [if_neg (by rw [hr]; decide), if_neg hsrc]
  rfl

/-- Past the checks, the result is that of `page_insert`. -/
theorem MemInv.sysIpcTrySend_page (h : MemInv R D l k) (value : Word) (hsd : sd ∈ D)
    (ha : SendPageArgs k cur e envid srcva perm sd dd) :
    sysIpcTrySend k cur envid value srcva perm = (do
      let (r, pmap) ← pageInsert k.pmap dd (ppn (pteOf k.pmap sd (PGNUM srcva)))
        (k.envs e).envIpcDstva perm
      if r < 0 then
        return (-E_INVAL, { k with pmap })
      else
        return (0, deliver { k with pmap } cur e value perm)) := by
  obtain ⟨pte, hlook, hW⟩ := h.pmap.shareable hsd ha.src_lt ha.page
  rw [sysIpcTrySend, ha.env]
  simp only
  rw [if_neg (by rw [ha.recving]; decide), if_pos ha.src_lt,
    if_neg (not_not.mpr (aligned_iff.mp ha.src_aligned)), if_neg (not_not.mpr ha.perm_ok)]
  simp only [Except.ok_bind, pgdirOf_some ha.srcdir, hlook]
  rw [if_neg hW]
  simp only [Except.ok_bind, pgdirOf_some ha.dstdir]

theorem MemInv.sysIpcTrySend_refused (h : MemInv R D l k)
    (hno : ∀ e, envid2env k cur envid false = some e → (k.envs e).envIpcRecving = true →
      srcva < UTOP ∧ ∀ sd dd, ¬ SendPageArgs k cur e envid srcva perm sd dd) :
    (∃ r < 0, sysIpcTrySend k cur envid value srcva perm = .ok (r, k)) ∨
      (Orphan k cur ∧ sysIpcTrySend k cur envid value srcva perm = .error .kernelFault) := by
  unfold sysIpcTrySend
  split
  · exact Or.inl ⟨-E_BAD_ENV, by decide, rfl⟩
  · next e he =>
    split
    · exact Or.inl ⟨-E_IPC_NOT_RECV, by decide, rfl⟩
    · next hr =>
      have hr := Bool.eq_true_of_not_eq_false hr
      obtain ⟨hsrc, hno⟩ := hno e he hr
      rw [if_pos hsrc]
      split
      · exact Or.inl ⟨-E_INVAL, by decide, rfl⟩
      · next hal =>
        split
        · exact Or.inl ⟨-E_INVAL, by decide, rfl⟩
        · next hperm =>
          cases hspg : (k.envs cur).envPgdir with
          | none =>
            refine Or.inr ⟨⟨0#32, false, cur, rfl, hspg⟩, ?_⟩
            rw [pgdirOf_none hspg]
            rfl
          | some sd =>
            simp only [pgdirOf_some hspg, Except.ok_bind]
            by_cases hs : Shareable k.pmap sd srcva perm
            · obtain ⟨pte, hlook, hW⟩ := h.pmap.shareable (h.envs.dir _ _ hspg) hsrc hs
              cases hdpg : (k.envs e).envPgdir with
              | none =>
                refine Or.inr ⟨⟨_, _, e, he, hdpg⟩, ?_⟩
                simp only [hlook, Except.ok_bind]
                rw [if_neg hW, pgdirOf_none hdpg]
                rfl
              | some dd =>
                exact absurd ⟨he, hr, hsrc, aligned_iff.mpr (not_not.mp hal), not_not.mp hperm,
                  hspg, hdpg, hs⟩ (hno sd dd)
            · refine Or.inl ⟨-E_INVAL, by decide, ?_⟩
              rcases h.pmap.not_shareable (h.envs.dir _ _ hspg) hsrc hs with
                hn | ⟨pp, pte, hn, hW⟩
              · simp only [hn, Except.ok_bind, Except.pure_eq]
              · simp only [hn, Except.ok_bind]
                rw [if_pos hW]
                rfl

/-- A send of a page to a receiver that asked for one below `UTOP`. -/
theorem MemInv.sysIpcTrySend_below (h : MemInv R D l k) (value : Word) (hsd : sd ∈ D)
    (hdd : dd ∈ D) (ha : SendPageArgs k cur e envid srcva perm sd dd)
    (hdst : (k.envs e).envIpcDstva < UTOP) :
    (∃ s, sysIpcTrySend k cur envid value srcva perm
        = .ok (0, deliver { k with pmap := s } cur e value perm) ∧
      Inserted R D l k.pmap dd (ppn (pteOf k.pmap sd (PGNUM srcva))) (k.envs e).envIpcDstva perm s ∧
      ((k.pmap.pages (ppn (pteOf k.pmap sd (PGNUM srcva)))).ppRef.toNat ≠ 65535 →
        ∃ l', PmapInv R D l' s)) ∨
    (sysIpcTrySend k cur envid value srcva perm = .ok (-E_INVAL, k) ∧ l = []) := by
  have hcode := h.sysIpcTrySend_page value hsd ha
  rcases h.pmap.pageInsert_shared hsd ha.src_lt ha.page.1 hdd hdst ha.perm_ok.toNat_lt with
    ⟨s, hins, hI, hinv⟩ | ⟨hins, -, hl⟩
  · refine Or.inl ⟨s, ?_, hI, fun href => ?_⟩
    · rw [hcode, hins]
      rfl
    · obtain ⟨l', hinv, -⟩ := hinv href
      exact ⟨l', hinv⟩
  · refine Or.inr ⟨?_, hl⟩
    rw [hcode, hins]
    rfl

/-- A send of a page to a receiver whose address is `UTOP` or more: whatever `page_insert` does to the
memory, the receiver is told that it got a page. -/
theorem MemInv.sysIpcTrySend_above (h : MemInv R D l k) (hsd : sd ∈ D)
    (ha : SendPageArgs k cur e envid srcva perm sd dd) {r : Int} {k' : Kernel}
    (hcode : sysIpcTrySend k cur envid value srcva perm = .ok (r, k')) (hr : 0 ≤ r) :
    ∃ s, k' = deliver { k with pmap := s } cur e value perm := by
  rw [h.sysIpcTrySend_page value hsd ha] at hcode
  obtain ⟨⟨r', s⟩, -, hcode⟩ := Except.bind_eq_ok.mp hcode
  simp only at hcode
  split at hcode
  · simp only [Except.pure_eq, Except.ok.injEq, Prod.mk.injEq] at hcode
    exact absurd hr (by rw [← hcode.1]; decide)
  · simp only [Except.pure_eq, Except.ok.injEq, Prod.mk.injEq] at hcode
    exact ⟨s, hcode.2.symm⟩

/-- The ways a send can go. -/
theorem MemInv.sysIpcTrySend_cases (h : MemInv R D l k) (cur : Nat)
    (envid value srcva perm : Word) :
    (∃ r < 0, sysIpcTrySend k cur envid value srcva perm = .ok (r, k)) ∨
    (∃ e, envid2env k cur envid false = some e ∧ (k.envs e).envIpcRecving = true ∧
      ((¬ srcva < UTOP ∧
          sysIpcTrySend k cur envid value srcva perm = .ok (0, deliver k cur e value 0#32)) ∨
        ∃ sd ∈ D, ∃ dd ∈ D, SendPageArgs k cur e envid srcva perm sd dd ∧
          ((k.envs e).envIpcDstva < UTOP → ∃ s,
            sysIpcTrySend k cur envid value srcva perm
              = .ok (0, deliver { k with pmap := s } cur e value perm) ∧
            Inserted R D l k.pmap dd (ppn (pteOf k.pmap sd (PGNUM srcva)))
              (k.envs e).envIpcDstva perm s ∧
            ((k.pmap.pages (ppn (pteOf k.pmap sd (PGNUM srcva)))).ppRef.toNat ≠ 65535 →
              ∃ l', PmapInv R D l' s)))) ∨
    (Orphan k cur ∧ sysIpcTrySend k cur envid value srcva perm = .error .kernelFault) := by
  by_cases hno : ∀ e, envid2env k cur envid false = some e → (k.envs e).envIpcRecving = true →
      srcva < UTOP ∧ ∀ sd dd, ¬ SendPageArgs k cur e envid srcva perm sd dd
  · rcases h.sysIpcTrySend_refused hno with href | horphan
    · exact Or.inl href
    · exact Or.inr (Or.inr horphan)
  · push Not at hno
    obtain ⟨e, he, hr, hno⟩ := hno
    by_cases hsrc : srcva < UTOP
    · obtain ⟨sd, dd, ha⟩ := hno hsrc
      have hsd := h.envs.dir _ _ ha.srcdir
      have hdd := h.envs.dir _ _ ha.dstdir
      by_cases hdst : (k.envs e).envIpcDstva < UTOP
      · rcases h.sysIpcTrySend_below value hsd hdd ha hdst with hs | ⟨hcode, -⟩
        · exact Or.inr (Or.inl ⟨e, he, hr, Or.inr ⟨sd, hsd, dd, hdd, ha, fun _ => hs⟩⟩)
        · exact Or.inl ⟨-E_INVAL, by decide, hcode⟩
      · exact Or.inr (Or.inl ⟨e, he, hr,
          Or.inr ⟨sd, hsd, dd, hdd, ha, fun hc => absurd hc hdst⟩⟩)
    · exact Or.inr (Or.inl ⟨e, he, hr, Or.inl ⟨hsrc, sysIpcTrySend_noPage he hr hsrc⟩⟩)

end Ipc

end Jos
