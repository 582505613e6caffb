import Jos.BootSpec

/-!
# The page allocator from boot on

Every run from the state `mem_init` leaves keeps reference counts and free list consistent with the page
tables below `UTOP`. Above `UTOP` no such statement can hold: `KERNBASE` maps all of physical memory, free
pages included, and its entries are not counted.

`demoBoot` is a machine with 64 MB of memory on which `mem_init` succeeds.
-/

namespace Jos

open Pmap

/-- A machine with 64 MB of memory and a kernel image of 2.5 MB. -/
def demoBoot : BootInfo where
  npages := 16384
  kernEnd := 0xF0280000#32
  bootstack := 0xF0118000#32
  percpuKstacks i := 0xF0240000#32 + BitVec.ofNat 32 (i * KSTKSIZE)
  mem _ _ := 0#32
  end_ge := by decide
  bootstack_aligned := by decide
  kstacks_aligned := by decide

theorem paddr_of_le {kva : Word} (h : KERNBASE ≤ kva) : paddr kva = .ok (kva - KERNBASE) := by
  rw [paddr, if_neg (BitVec.not_lt.mpr h)]
  rfl

/-- `mem_init` gets to the end of `page_init` if the addresses that `boot_alloc` hands out do not wrap
around. -/
theorem memInitPages_ok {b : BootInfo} {a₁ a₂ a₃ : Word × Word}
    (h₁ : bootAlloc (ROUNDUP b.kernEnd PGSIZE) PGSIZE = a₁)
    (h₂ : bootAlloc a₁.2 (sizeofPageInfo * b.npages) = a₂) (h₃ : bootAlloc a₂.2 (sizeofEnv * NENV) = a₃)
    (hle : KERNBASE ≤ a₁.1 ∧ KERNBASE ≤ a₂.1 ∧ KERNBASE ≤ a₃.1 ∧ KERNBASE ≤ a₃.2) :
    ∃ s pages envs, memInitPages b = .ok (s, pages, envs) := by
  unfold memInitPages
  simp only [h₁, h₂, h₃, paddr_of_le hle.1, paddr_of_le hle.2.1, paddr_of_le hle.2.2.1,
    paddr_of_le hle.2.2.2, Except.ok_bind, Except.pure_eq]
  exact ⟨_, _, _, rfl⟩

theorem demoBoot_memInitPages : ∃ s pages envs, memInitPages demoBoot = .ok (s, pages, envs) :=
  memInitPages_ok rfl rfl rfl (by decide)

/-- Self-tests that happen to put every page back where it was. -/
theorem SelfTested.refl {s : Pmap} {l : List Nat} (h : FreeInv s l)
    (hlow : ∃ p ∈ l, p < EXTPHYSMEM / PGSIZE) (hhigh : ∃ p ∈ l, EXTPHYSMEM / PGSIZE ≤ p) :
    SelfTested s s where
  npages := rfl
  kern := rfl
  mmio := rfl
  free := ⟨l, l, h, h, List.Perm.refl l⟩
  ref _ := rfl
  mem _ _ := rfl
  basemem := by
    obtain ⟨p, hp, hlt⟩ := hlow
    exact ⟨p, h.onFreeList_iff.mpr hp, hlt⟩
  extmem := by
    obtain ⟨p, hp, hge⟩ := hhigh
    exact ⟨p, h.onFreeList_iff.mpr hp, hge⟩

/-- Taking fewer pages off the free list than `S` has leaves one of `S`. -/
theorem exists_mem_of_subset {l l' : List Nat} {n : Nat} (hsub : l' ⊆ l) (hnd : l'.Nodup)
    (hlen : l.length ≤ l'.length + n) {S : Finset Nat} (hS : S ⊆ l.toFinset) (hcard : n < S.card) :
    ∃ p ∈ l', p ∈ S := by
  by_contra hno
  push Not at hno
  have hdisj : Disjoint S l'.toFinset :=
    Finset.disjoint_right.mpr fun p hp => hno p (List.mem_toFinset.mp hp)
  have hle : (S ∪ l'.toFinset).card ≤ l.toFinset.card := by
    refine Finset.card_le_card (Finset.union_subset hS fun p hp => ?_)
    exact List.mem_toFinset.mpr (hsub (List.mem_toFinset.mp hp))
  rw [Finset.card_union_of_disjoint hdisj, List.toFinset_card_of_nodup hnd] at hle
  have := List.toFinset_card_le l
  omega

theorem demoBoot_memInit : ∃ s, MemInit demoBoot s := by
  have hio : IOPHYSMEM / PGSIZE = 160 := by decide
  have hmp : MPENTRY_PADDR / PGSIZE = 7 := by decide
  have hx : EXTPHYSMEM / PGSIZE = 256 := by decide
  obtain ⟨s₁, pages, envs, hp⟩ := demoBoot_memInitPages
  obtain ⟨ep, e, hlay, hk, -, -, -, m, hm, hs⟩ := memInitPages_layout (by decide) hp
  have he : 256 ≤ e ∧ e ≤ 800 := by
    have hkern : (demoBoot.kernEnd.toNat + 4095) / 4096 - 983040 = 640 := by decide
    have h₁ := hlay.envs
    have h₂ := hlay.size
    have h₃ := hlay.free
    omega
  have hinit : PageInitInv e m m.npages (pageInit m e) :=
    pageInit_inv (by rw [hm]; exact fun _ => rfl) (by rw [hm]; rfl)
  have hmn : m.npages = demoBoot.npages := by rw [hm]; rfl
  rw [← hs, hmn] at hinit
  obtain ⟨n, hn, hnp⟩ : ∃ n, n = demoBoot.npages ∧ n = 16384 := ⟨_, rfl, rfl⟩
  rw [← hn] at hinit
  have hfree : FreeInv s₁ (bootFree e n) := ⟨hinit.linked, fun p _ hp => hinit.unlinked p hp⟩
  have hlow : Finset.Ico 8 100 ⊆ (bootFree e n).toFinset := by
    intro p hp
    obtain ⟨h₁, h₂⟩ := Finset.mem_Ico.mp hp
    refine List.mem_toFinset.mpr (mem_bootFree.mpr ⟨by omega, ?_⟩)
    unfold bootReserved
    omega
  have hhigh : Finset.Ico 1000 1100 ⊆ (bootFree e n).toFinset := by
    intro p hp
    obtain ⟨h₁, h₂⟩ := Finset.mem_Ico.mp hp
    refine List.mem_toFinset.mpr (mem_bootFree.mpr ⟨by omega, ?_⟩)
    unfold bootReserved
    omega
  have ht : SelfTested s₁ s₁ := by
    refine .refl hfree ⟨8, ?_, by omega⟩ ⟨1000, ?_, by omega⟩
    · exact List.mem_toFinset.mp (hlow (by decide))
    · exact List.mem_toFinset.mp (hhigh (by decide))
  obtain ⟨ep', e', -, -, -, -, h₁, -, -, hb₁, -⟩ := memInitPages_inv (by decide) hp ht.extmem
  rw [← hn] at h₁
  have hl : bootFree e' n = bootFree e n := h₁.free.linked.unique hfree.linked
  rw [hl] at h₁
  have hlen := bootFree_length (e := e) (n := n) (by omega) (by omega)
  obtain ⟨s₃, hc⟩ := h₁.checkMmio_exists hb₁ (by omega)
  obtain ⟨l₃, h₃, hf₃, -, -⟩ := h₁.checkMmio_ok hb₁ hc
  have hstacks : ∀ i < NCPU, KERNBASE ≤ demoBoot.percpuKstacks i := by decide
  obtain ⟨s₄, hmap⟩ := h₃.memInitMap_exists (b := demoBoot)
    (by decide) hstacks (by rw [hf₃.npages, hinit.npages, hmn, ← hn]; omega) (by rw [hf₃.room]; omega)
  obtain ⟨l₄, h₄, hf₄, -, -, -, -, -⟩ := h₃.memInitMap_ok hmap
  have hf := hf₃.trans hf₄
  have hroom : (bootFree e n).length ≤ l₄.length + 69 := by
    have := hf.room
    have := kernTables_le s₄
    omega
  have hnd := h₄.free.linked.nodup
  have ht' : SelfTested s₄ s₄ := by
    refine .refl h₄.free ?_ ?_
    · obtain ⟨p, hp, hS⟩ := exists_mem_of_subset hf.sub hnd hroom hlow (by simp)
      exact ⟨p, hp, by have := Finset.mem_Ico.mp hS; omega⟩
    · obtain ⟨p, hp, hS⟩ := exists_mem_of_subset hf.sub hnd hroom hhigh (by simp)
      exact ⟨p, hp, by have := Finset.mem_Ico.mp hS; omega⟩
  exact ⟨s₄, s₁, s₁, s₃, s₄, pages, envs, hp, ht, hc, hmap, ht'⟩

/-- Most of the machine's memory is free. -/
theorem demoBoot_booted : ∃ s l ep, MemInit demoBoot s ∧ Booted l ep s ∧ 15584 ≤ l.length + kernTables s ∧
    s.npages = 16384 ∧ s.mmioBase = pageAddr 980995 := by
  obtain ⟨s, hmem⟩ := demoBoot_memInit
  obtain ⟨l, ep, hb, -, hn, hk, hbase⟩ := hmem.booted
  have hkern : (demoBoot.kernEnd.toNat + 4095) / 4096 - 983040 = 640 := by decide
  have hnp : demoBoot.npages = 16384 := rfl
  have hlen := hb.length
  exact ⟨s, l, ep, hmem, hb, by omega, hn.trans hnp, hbase⟩

end Jos
