import Jos.Access
import Jos.Allocator

/-!
# What user code sees above `UTOP`

`UENVS` and `UPAGES` are meant to be read-only copies of the `envs` and `pages` arrays, and `check_kern_pgdir`
looks at that much of them. `mem_init` maps a whole page table's worth of memory at each, and the memory behind
the arrays is what `page_init` makes free: the first free page behind the kernel is always mapped in the window
of `envs`, right after the array (`memInit_disclosesFree`).
-/

namespace Jos

open Pmap

variable {b : BootInfo} {s : Pmap}

/-- No page that `page_init` puts on `page_free_list` can be read by user code in [`UENVS`, `UVPT`). -/
def WindowsPrivate (b : BootInfo) (s : Pmap) : Prop :=
  ∀ s₁ pages envs, memInitPages b = .ok (s₁, pages, envs) → ∀ p, OnFreeList s₁ p →
    ∀ va, UENVS ≤ va → va < UVPT → translate s s.kernPgdir va USER_R ≠ some p

theorem or_readable (w : Word) : (w ||| PTE_P ||| PTE_U) &&& USER_R = USER_R := by
  rw [BitVec.or_assoc, USER_R]
  generalize PTE_P ||| PTE_U = m
  ext i hi
  simp only [BitVec.getElem_and, BitVec.getElem_or]
  cases m[i] <;> simp

private theorem readable_or {w : Word} (h : w &&& USER_R = USER_R) (x : Word) :
    (w ||| x) &&& USER_R = USER_R := by
  rw [BitVec.and_comm, BitVec.and_or_distrib_left, BitVec.and_comm _ w, h]
  generalize USER_R = m
  ext i hi
  simp only [BitVec.getElem_and, BitVec.getElem_or]
  cases m[i] <;> simp

/-- In the windows only the page table entry decides what user code can read. -/
theorem BootInv.translate_read {l : List Nat} {v : Nat} {w : Word} (h : BootInv l s) (hv : v < 1048576)
    (hkern : KernPde (v / 1024)) (hpte : pteOf s s.kernPgdir v = w) (hw : w &&& USER_R = USER_R) :
    translate s s.kernPgdir (pageAddr v) USER_R = some (ppn w) := by
  have hpde : present (s.mem s.kernPgdir (v / 1024)) := by
    by_contra hno
    rw [pteOf, if_neg hno] at hpte
    rw [← hpte] at hw
    exact not_present_zero (UserFlags.read.entry hw)
  have hflags : s.mem s.kernPgdir (v / 1024) &&& USER_R = USER_R := by
    rw [h.fresh _ hkern hpde]
    exact readable_or (or_readable _) _
  rw [pteOf, if_pos hpde] at hpte
  simp only [translate]
  rw [PDX_pageAddr hv, PTX_pageAddr hv, if_pos hflags, hpte, if_pos hw]

/-- The first page behind the `envs` array is free when `page_init` is done, and user code can read it. -/
theorem MemInit.discloses (h : MemInit b s) : ∃ s₁ pages envs p,
    memInitPages b = .ok (s₁, pages, envs) ∧ OnFreeList s₁ p ∧
      translate s s.kernPgdir (pageAddr (UENVSPN + 31)) USER_R = some p := by
  obtain ⟨s₁, s₂, s₃, s₄, pages, envs, hp, ht, hm, hmap, ht'⟩ := h
  have hn : b.npages ≤ 65536 := by
    obtain ⟨hn, hle⟩ := memInitMap_npages hmap
    rwa [hn, checkMmio_npages hm, ht.npages, memInitPages_npages hp] at hle
  obtain ⟨ep, e, hlay, -, -, rfl, h₁, -, -, hb₁, -⟩ := memInitPages_inv hn hp ht.extmem
  obtain ⟨l₂, -, h₂, -, -⟩ := h₁.selfTested ht
  obtain ⟨l₃, h₃, -, -, -⟩ := h₂.checkMmio_ok (ht.mmio.trans hb₁) hm
  obtain ⟨l₄, h₄, -, -, -, -, huenvs, -⟩ := h₃.memInitMap_ok hmap
  obtain ⟨l₅, -, h₅, hpte, -⟩ := h₄.selfTested ht'
  have himg := hlay.image
  have hep := hlay.envs
  have he := hlay.free
  -- `check_page_free_list` has found a free page behind the kernel, so the first one is free
  have hfree : OnFreeList s₁ e := by
    obtain ⟨p, hpfree, hext⟩ := ht.extmem
    obtain ⟨hlt, hres⟩ := mem_bootFree.mp (h₁.free.onFreeList_iff.mp hpfree)
    have hE : EXTPHYSMEM / PGSIZE = 256 := by decide
    have hio : IOPHYSMEM / PGSIZE = 160 := by decide
    have hmp : MPENTRY_PADDR / PGSIZE = 7 := by decide
    refine h₁.free.onFreeList_iff.mpr (mem_bootFree.mpr ?_)
    unfold bootReserved at hres ⊢
    omega
  have hv : UENVSPN + 31 < 1048576 := by decide
  have hkern : KernPde ((UENVSPN + 31) / 1024) := by decide
  have hentry : pteOf s s.kernPgdir (UENVSPN + 31) = page2pa e ||| PTE_P ||| PTE_U := by
    rw [hpte _ hkern, huenvs 31 (by omega), page2pa_eq, page2pa_eq, ← BitVec.ofNat_add, ← Nat.add_mul, he]
  have hread := h₅.translate_read hv hkern hentry (or_readable _)
  have hppn : ppn (page2pa e ||| PTE_P ||| PTE_U) = e := by
    rw [ppn_or_flags _ (by decide), ppn_or_flags _ (by decide), ppn_page2pa]
    have hlt := (h₁.free_lt e (h₁.free.onFreeList_iff.mp hfree))
    exact hlt.trans_le h₁.npages_le
  rw [hppn] at hread
  exact ⟨s₁, pages, page2pa ep, e, hp, hfree, hread⟩

/-- However much memory there is and wherever the kernel ends: when `mem_init` is done, user code can read a page
that will be handed out. -/
theorem memInit_disclosesFree (h : MemInit b s) : ¬ WindowsPrivate b s := by
  obtain ⟨s₁, pages, envs, p, hp, hfree, hread⟩ := h.discloses
  intro hprivate
  exact hprivate s₁ pages envs hp p hfree _ (by decide) (by decide) hread

/-- On the machine of `demoBoot`, the page at `UENVS + 31 * PGSIZE` is free. -/
theorem demoBoot_not_windowsPrivate : ¬ ∀ b s, MemInit b s → WindowsPrivate b s := by
  obtain ⟨s, h⟩ := demoBoot_memInit
  obtain ⟨s₁, pages, envs, p, hp, hfree, hread⟩ := h.discloses
  intro hprivate
  exact hprivate demoBoot s h s₁ pages envs hp p hfree 0xeec1f000#32 (by decide) (by decide) hread

theorem memInit_disclosesFree_demoBoot : ∃ s, MemInit demoBoot s ∧ ¬ WindowsPrivate demoBoot s := by
  obtain ⟨s, h⟩ := demoBoot_memInit
  exact ⟨s, h, memInit_disclosesFree h⟩

end Jos
