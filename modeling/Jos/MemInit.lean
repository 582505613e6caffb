import Jos.PmapRun

/-!
# `mem_init`

The state in which the kernel starts to hand out pages: `boot_alloc` places the kernel's directory and the
`pages` and `envs` arrays after the kernel image, `page_init` threads the free list through what is left,
and `boot_map_region` fills the part of `kern_pgdir` above `UTOP`.

Between these steps `mem_init` runs its self-tests. They put every page back, but in another order, and
overwrite free pages; `SelfTested` says this much about them and what they assert. The one test that leaves
something behind, the part of `check_page` that tries `mmio_map_region`, is modelled as it stands.
-/

namespace Jos

open Pmap

/-! ## The machine and the kernel image -/

/-- `sizeof(struct PageInfo)`. -/
def sizeofPageInfo : Nat := 8

/-- `sizeof(struct Env)`. -/
def sizeofEnv : Nat := 124

def NENV : Nat := 1024
def NCPU : Nat := 8

/-- What `mem_init` finds: the size and contents of memory and the addresses the linker chose. -/
structure BootInfo where
  npages : Nat
  /-- The linker's symbol `end`; the image starts at `KERNBASE + EXTPHYSMEM`. -/
  kernEnd : Word
  bootstack : Word
  percpuKstacks : Nat → Word
  mem : Nat → Nat → Word
  end_ge : 0xF0100000#32 ≤ kernEnd
  /-- The stacks are aligned to pages, by `.p2align PGSHIFT` in `entry.S` and `aligned(PGSIZE)` in
  `mpconfig.c`. -/
  bootstack_aligned : bootstack.toNat % PGSIZE = 0
  kstacks_aligned : ∀ i < NCPU, (percpuKstacks i).toNat % PGSIZE = 0

/-- `PADDR(kva)`. -/
def paddr (kva : Word) : Except Panic Word :=
  if kva < KERNBASE then throw .paddr else pure (kva - KERNBASE)

/-- `boot_alloc(n)` with the static variable `nextfree`: the address handed out and the next one. -/
def bootAlloc (nextfree : Word) (n : Nat) : Word × Word :=
  (nextfree, ROUNDUP (nextfree + BitVec.ofNat 32 n) PGSIZE)

/-! ## The free list -/

/-- The pages `page_init` marks as in use. -/
def bootReserved (kernelEndPage i : Nat) : Prop :=
  i = 0 ∨ (IOPHYSMEM / PGSIZE ≤ i ∧ i < kernelEndPage) ∨ i = MPENTRY_PADDR / PGSIZE

instance (e i : Nat) : Decidable (bootReserved e i) := inferInstanceAs (Decidable (_ ∨ _))

/-- The body of the loop of `page_init`. -/
def pageInitPage (kernelEndPage : Nat) (s : Pmap) (i : Nat) : Pmap :=
  if bootReserved kernelEndPage i then
    (s.setRef i 1#16).setLink i none
  else
    { (s.setRef i 0#16).setLink i s.pageFreeList with pageFreeList := some i }

/-- `page_init`. -/
def pageInit (s : Pmap) (kernelEndPage : Nat) : Pmap :=
  (List.range s.npages).foldl (pageInitPage kernelEndPage) s

/-- `mem_init` up to and including `page_init`; also returns `PADDR(pages)` and `PADDR(envs)`. -/
def memInitPages (b : BootInfo) : Except Panic (Pmap × Word × Word) := do
  let nextfree := ROUNDUP b.kernEnd PGSIZE
  let (kernPgdir, nextfree) := bootAlloc nextfree PGSIZE
  let pa ← paddr kernPgdir
  let s : Pmap := ⟨b.npages, fun _ => ⟨none, 0#16⟩, none, PGNUM pa, MMIOBASE, b.mem⟩
  let s := s.clearPage (PGNUM pa)
  let s := s.store ⟨PGNUM pa, PDX UVPT⟩ (pa ||| PTE_U ||| PTE_P)
  let (pages, nextfree) := bootAlloc nextfree (sizeofPageInfo * b.npages)
  let (envs, nextfree) := bootAlloc nextfree (sizeofEnv * NENV)
  let kernelEnd ← paddr nextfree
  let s := pageInit s (kernelEnd.toNat / PGSIZE)
  return (s, ← paddr pages, ← paddr envs)

/-! ## The self-tests -/

/-- What the self-tests of `mem_init` leave and assert: `check_page_free_list`, `check_page_alloc`,
`check_page` up to its last part, `check_page_installed_pgdir`. -/
structure SelfTested (s s' : Pmap) : Prop where
  npages : s'.npages = s.npages
  kern : s'.kernPgdir = s.kernPgdir
  mmio : s'.mmioBase = s.mmioBase
  /-- The pages that were taken are put back in another order. -/
  free : ∃ l l', FreeInv s l ∧ FreeInv s' l' ∧ l.Perm l'
  ref : ∀ p, (s'.pages p).ppRef = (s.pages p).ppRef
  /-- Only free pages are overwritten; the tables tried in `kern_pgdir[0]` and `kern_pgdir[1]` are taken
  out again. -/
  mem : ∀ p, ¬ OnFreeList s p → s'.mem p = s.mem p
  /-- `nfree_basemem > 0`. -/
  basemem : ∃ p, OnFreeList s p ∧ p < EXTPHYSMEM / PGSIZE
  /-- `nfree_extmem > 0`. -/
  extmem : ∃ p, OnFreeList s p ∧ EXTPHYSMEM / PGSIZE ≤ p

/-- `*pgdir_walk(kern_pgdir, va, 0) = 0`. -/
def clearKernPte (s : Pmap) (va : Word) : Except Panic Pmap := do
  match ← pgdirWalk s s.kernPgdir va false with
  -- a null pointer: the write would fault
  | (none, _) => throw .kernelFault
  | (some pte, s) => return s.store pte 0#32

/-- The last part of `check_page`. -/
def checkMmio (s : Pmap) : Except Panic Pmap := do
  let (mm1, s) ← mmioMapRegion s 0#32 4097#32
  let (mm2, s) ← mmioMapRegion s 0#32 4096#32
  let s ← clearKernPte s mm1
  let s ← clearKernPte s (mm1 + BitVec.ofNat 32 PGSIZE)
  clearKernPte s mm2

/-! ## The kernel's part of the address space -/

/-- `mem_init_mp`. -/
def memInitMp (b : BootInfo) (s : Pmap) : Except Panic Pmap :=
  (List.range NCPU).foldlM (fun s i => do
    let pa ← paddr (b.percpuKstacks i)
    bootMapRegion s s.kernPgdir
      (KSTACKTOP - BitVec.ofNat 32 KSTKSIZE - BitVec.ofNat 32 (i * (KSTKSIZE + KSTKGAP)))
      (BitVec.ofNat 32 KSTKSIZE) pa PTE_W) s

/-- The calls of `boot_map_region` in `mem_init`, and `check_kern_pgdir`'s test that all of physical
memory is mapped at `KERNBASE`. -/
def memInitMap (b : BootInfo) (s : Pmap) (pages envs : Word) : Except Panic Pmap := do
  let s ← bootMapRegion s s.kernPgdir UPAGES (BitVec.ofNat 32 PTSIZE) pages PTE_U
  let s ← bootMapRegion s s.kernPgdir UENVS (BitVec.ofNat 32 PTSIZE) envs PTE_U
  let bootstack ← paddr b.bootstack
  let s ← bootMapRegion s s.kernPgdir (KSTACKTOP - BitVec.ofNat 32 KSTKSIZE)
    (BitVec.ofNat 32 KSTKSIZE) bootstack PTE_W
  let s ← bootMapRegion s s.kernPgdir KERNBASE (0xffffffff#32 - KERNBASE) 0#32 PTE_W
  let s ← memInitMp b s
  if 65536 < s.npages then throw .assertion
  return s

/-- `mem_init` leaves the state `s`. -/
def MemInit (b : BootInfo) (s : Pmap) : Prop :=
  ∃ s₁ s₂ s₃ s₄ pages envs, memInitPages b = .ok (s₁, pages, envs) ∧ SelfTested s₁ s₂ ∧
    checkMmio s₂ = .ok s₃ ∧ memInitMap b s₃ pages envs = .ok s₄ ∧ SelfTested s₄ s

/-! ## `page_init` -/

section PageInit

variable {s : Pmap} {e : Nat}

/-- The free list after the first `n` iterations. -/
def bootFree (e n : Nat) : List Nat := ((List.range n).filter fun i => ¬ bootReserved e i).reverse

theorem mem_bootFree {e n p : Nat} : p ∈ bootFree e n ↔ p < n ∧ ¬ bootReserved e p := by
  simp [bootFree]

theorem bootFree_succ (e n : Nat) :
    bootFree e (n + 1) = if bootReserved e n then bootFree e n else n :: bootFree e n := by
  unfold bootFree
  rw [List.range_succ, List.filter_append, List.reverse_append]
  by_cases h : bootReserved e n
  · simp [h]
  · simp [h]

/-- The state of `page_init` after `n` iterations. -/
structure PageInitInv (e : Nat) (s₀ : Pmap) (n : Nat) (s : Pmap) : Prop where
  npages : s.npages = s₀.npages
  kern : s.kernPgdir = s₀.kernPgdir
  mmio : s.mmioBase = s₀.mmioBase
  mem : s.mem = s₀.mem
  linked : Linked (fun p => (s.pages p).ppLink) s.pageFreeList (bootFree e n)
  unlinked : ∀ p, p ∉ bootFree e n → (s.pages p).ppLink = none
  ref : ∀ p ∈ bootFree e n, (s.pages p).ppRef = 0#16

/-- An iteration of `page_init` writes the entry of its own page only. -/
theorem pageInitPage_pages (e : Nat) (s : Pmap) (n p : Nat) :
    (pageInitPage e s n).pages p =
      if p = n then if bootReserved e n then ⟨none, 1#16⟩ else ⟨s.pageFreeList, 0#16⟩ else s.pages p := by
  have hwrite : ∀ (r : BitVec 16) (l : Option Nat),
      ((s.setRef n r).setLink n l).pages p = if p = n then ⟨l, r⟩ else s.pages p := by
    intro r l
    rw [setLink_pages, setRef_pages]
    by_cases hp : p = n
    · rw [if_pos hp, if_pos hp, if_pos rfl]
    · rw [if_neg hp, if_neg hp, setRef_pages, if_neg hp]
  unfold pageInitPage
  split
  · exact hwrite 1#16 none
  · exact hwrite 0#16 s.pageFreeList

theorem pageInitPage_inv {s₀ : Pmap} {n : Nat} (h : PageInitInv e s₀ n s) :
    PageInitInv e s₀ (n + 1) (pageInitPage e s n) := by
  have hn : n ∉ bootFree e n := fun hc => absurd (mem_bootFree.mp hc).1 (Nat.lt_irrefl n)
  have hne : ∀ p ∈ bootFree e n, p ≠ n := fun p hp => fun he => hn (he ▸ hp)
  have hold : ∀ p ≠ n, (pageInitPage e s n).pages p = s.pages p := by
    intro p hp
    rw [pageInitPage_pages, if_neg hp]
  have hnew := (pageInitPage_pages e s n n).trans (if_pos rfl)
  have hframe : (pageInitPage e s n).npages = s.npages ∧ (pageInitPage e s n).kernPgdir = s.kernPgdir ∧
      (pageInitPage e s n).mmioBase = s.mmioBase ∧ (pageInitPage e s n).mem = s.mem ∧
      (pageInitPage e s n).pageFreeList = if bootReserved e n then s.pageFreeList else some n := by
    unfold pageInitPage
    split <;> exact ⟨rfl, rfl, rfl, rfl, rfl⟩
  obtain ⟨hnpages, hkern, hmmio, hmem, hhead⟩ := hframe
  by_cases hres : bootReserved e n
  · rw [if_pos hres] at hnew hhead
    have hfree : bootFree e (n + 1) = bootFree e n := by rw [bootFree_succ, if_pos hres]
    refine ⟨hnpages.trans h.npages, hkern.trans h.kern, hmmio.trans h.mmio, hmem.trans h.mem, ?_, ?_, ?_⟩
    · rw [hfree, hhead]
      refine h.linked.congr fun p hp => ?_
      rw [hold p (hne p hp)]
    · intro p hp
      by_cases hpn : p = n
      · rw [hpn, hnew]
      · rw [hold p hpn]
        exact h.unlinked p (hfree ▸ hp)
    · intro p hp
      rw [hfree] at hp
      rw [hold p (hne p hp)]
      exact h.ref p hp
  · rw [if_neg hres] at hnew hhead
    have hfree : bootFree e (n + 1) = n :: bootFree e n := by rw [bootFree_succ, if_neg hres]
    refine ⟨hnpages.trans h.npages, hkern.trans h.kern, hmmio.trans h.mmio, hmem.trans h.mem, ?_, ?_, ?_⟩
    · rw [hfree, hhead]
      refine (h.linked.push hn).congr fun p hp => ?_
      by_cases hpn : p = n
      · rw [hpn, hnew, if_pos rfl]
      · rw [hold p hpn, if_neg hpn]
    · intro p hp
      rw [hfree, List.mem_cons, not_or] at hp
      rw [hold p hp.1]
      exact h.unlinked p hp.2
    · intro p hp
      rw [hfree] at hp
      rcases List.mem_cons.mp hp with rfl | hp
      · rw [hnew]
      · rw [hold p (hne p hp)]
        exact h.ref p hp

theorem pageInit_inv {s₀ : Pmap} (hlink : ∀ p, (s₀.pages p).ppLink = none)
    (hhead : s₀.pageFreeList = none) : PageInitInv e s₀ s₀.npages (pageInit s₀ e) := by
  have hloop : ∀ n, PageInitInv e s₀ n ((List.range n).foldl (pageInitPage e) s₀) := by
    intro n
    induction n with
    | zero => exact ⟨rfl, rfl, rfl, rfl, hhead, fun p _ => hlink p, nofun⟩
    | succ n ih =>
      rw [List.range_succ, List.foldl_append]
      exact pageInitPage_inv ih
  exact hloop s₀.npages

end PageInit

end Jos
