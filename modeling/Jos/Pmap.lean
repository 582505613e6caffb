import Jos.Mmu

/-!
# Physical pages and page tables (`kern/pmap.c`)

The state is what `pmap.c` owns: the `pages` array with its free list threaded through `pp_link`, the
kernel's page directory, and the contents of physical memory, read in words because page directories and
page tables are arrays of words stored in ordinary pages. A `pde_t *` or `pte_t *` the kernel computes
is a physical page number together with a word index (`PtePtr`): kernel virtual addresses are physical
addresses plus `KERNBASE`, and `KADDR` refuses pages outside `pages`.

Functions follow the source statement by statement. `panic` is an exception; everything else returns the
new state. `tlb_invalidate` has no effect on this state and is left out.
-/

namespace Jos

/-- The places where the modelled code panics. -/
inductive Panic
  /-- `KADDR called with invalid pa`. -/
  | kaddr
  /-- `PADDR called with invalid kva`: the pointer is `NULL`. -/
  | paddr
  /-- `pa2page called with invalid pa`. -/
  | pa2page
  /-- `page_free: pp->pp_ref is nonzero or pp->pp_link is not NULL`. -/
  | pageFree
  /-- `boot_map_region(): out of memory`. -/
  | bootMapRegion
  /-- `mmio_map_region`: `not enough memory`. -/
  | mmioMapRegion
  /-- `region_alloc: page_alloc failed`. -/
  | regionAlloc
  /-- `load_icode: invalid ELF magic`. -/
  | elfMagic
  /-- `env_create: env_alloc failed`. -/
  | envCreate
  /-- `sys_exofork`: `env_alloc fail`. -/
  | envAlloc
  /-- `page_fault_handler():page fault in kernel mode!`. -/
  | kernelFault
  /-- `unhandled trap in kernel`. -/
  | unhandledTrap
  /-- A failed `assert`. -/
  | assertion
  /-- Not a panic of the source: a loop that never ends while the kernel lock is held. -/
  | diverges
deriving DecidableEq, Repr

/-! ## Error codes (`inc/error.h`) -/

def E_BAD_ENV : Int := 2
def E_INVAL : Int := 3
def E_NO_MEM : Int := 4
def E_NO_FREE_ENV : Int := 5
def E_FAULT : Int := 6
def E_IPC_NOT_RECV : Int := 7

/-! ## State -/

/-- `struct PageInfo`. -/
@[ext]
structure PageInfo where
  /-- Next page on the free list. -/
  ppLink : Option Nat
  /-- Number of references to the page; 16 bits wide. -/
  ppRef : BitVec 16
deriving DecidableEq

/-- A pointer to a word of physical memory: page number and word index. -/
structure PtePtr where
  page : Nat
  idx : Nat
deriving DecidableEq

/-- The state of `pmap.c`. -/
@[ext]
structure Pmap where
  npages : Nat
  pages : Nat → PageInfo
  pageFreeList : Option Nat
  /-- The page that holds `kern_pgdir`. -/
  kernPgdir : Nat
  /-- The static variable `base` of `mmio_map_region`. -/
  mmioBase : Word
  /-- Contents of physical memory: page number, then word index. -/
  mem : Nat → Nat → Word

namespace Pmap

/-- `pages[pp].pp_ref = r`. -/
def setRef (s : Pmap) (pp : Nat) (r : BitVec 16) : Pmap :=
  { s with pages := Function.update s.pages pp { s.pages pp with ppRef := r } }

/-- `pages[pp].pp_link = l`. -/
def setLink (s : Pmap) (pp : Nat) (l : Option Nat) : Pmap :=
  { s with pages := Function.update s.pages pp { s.pages pp with ppLink := l } }

/-- `*p`. -/
def load (s : Pmap) (p : PtePtr) : Word := s.mem p.page p.idx

/-- `*p = w`. -/
def store (s : Pmap) (p : PtePtr) (w : Word) : Pmap :=
  { s with mem := Function.update s.mem p.page (Function.update (s.mem p.page) p.idx w) }

/-- `memset(page2kva(pg), 0, PGSIZE)` once the address is known to be valid. -/
def clearPage (s : Pmap) (pg : Nat) : Pmap :=
  { s with mem := Function.update s.mem pg fun _ => 0#32 }

end Pmap

/-! ## Address translation macros (`kern/pmap.h`) -/

/-- `KADDR(pa)`: the page of a valid physical address. -/
def kaddr (s : Pmap) (pa : Word) : Except Panic Nat :=
  if s.npages ≤ PGNUM pa then throw .kaddr else pure (PGNUM pa)

/-- `pa2page(pa)`. -/
def pa2page (s : Pmap) (pa : Word) : Except Panic Nat :=
  if s.npages ≤ PGNUM pa then throw .pa2page else pure (PGNUM pa)

/-- `page2kva(pp)`. -/
def page2kva (s : Pmap) (pp : Nat) : Except Panic Nat := kaddr s (page2pa pp)

/-! ## The page allocator -/

/-- `page_alloc`; `zero` is `alloc_flags & ALLOC_ZERO`. -/
def pageAlloc (s : Pmap) (zero : Bool) : Except Panic (Option Nat × Pmap) :=
  match s.pageFreeList with
  | none => return (none, s)
  | some ret => do
    let s := { s with pageFreeList := (s.pages ret).ppLink }
    let s := s.setLink ret none
    if zero then
      let kva ← page2kva s ret
      return (some ret, s.clearPage kva)
    else
      return (some ret, s)

/-- `page_free`. -/
def pageFree (s : Pmap) (pp : Nat) : Except Panic Pmap :=
  if (s.pages pp).ppRef ≠ 0#16 ∨ (s.pages pp).ppLink ≠ none then
    throw .pageFree
  else
    let s := s.setLink pp s.pageFreeList
    return { s with pageFreeList := some pp }

/-- `page_decref`. -/
def pageDecref (s : Pmap) (pp : Nat) : Except Panic Pmap :=
  let s := s.setRef pp ((s.pages pp).ppRef - 1#16)
  if (s.pages pp).ppRef = 0#16 then pageFree s pp else return s

/-! ## Page tables -/

/-- `pgdir_walk`. -/
def pgdirWalk (s : Pmap) (pgdir : Nat) (va : Word) (create : Bool) :
    Except Panic (Option PtePtr × Pmap) := do
  let pde : PtePtr := ⟨pgdir, PDX va⟩
  if ¬ present (s.load pde) then
    if create then
      match ← pageAlloc s true with
      | (none, s) => return (none, s)
      | (some pp, s) =>
        let s := s.setRef pp ((s.pages pp).ppRef + 1#16)
        let s := s.store pde (page2pa pp ||| PTE_P ||| PTE_U ||| PTE_W)
        let pt ← kaddr s (PTE_ADDR (s.load pde))
        return (some ⟨pt, PTX va⟩, s)
    else
      return (none, s)
  else
    let pt ← kaddr s (PTE_ADDR (s.load pde))
    return (some ⟨pt, PTX va⟩, s)

/-- `page_lookup`: the page mapped at `va` and the entry that maps it. The source tests
`!(*pte) & PTE_P`, which parses as `(!*pte) & PTE_P`, so only a zero entry counts as unmapped. -/
def pageLookup (s : Pmap) (pgdir : Nat) (va : Word) : Except Panic (Option (Nat × PtePtr)) := do
  match ← pgdirWalk s pgdir va false with
  | (none, _) => return none
  | (some pte, _) =>
    if s.load pte = 0#32 then
      return none
    else
      let pp ← pa2page s (PTE_ADDR (s.load pte))
      return some (pp, pte)

/-- `page_remove`. -/
def pageRemove (s : Pmap) (pgdir : Nat) (va : Word) : Except Panic Pmap := do
  match ← pageLookup s pgdir va with
  | none => return s
  | some (pp, pte) =>
    let s ← pageDecref s pp
    return s.store pte 0#32

/-- `page_insert`. -/
def pageInsert (s : Pmap) (pgdir pp : Nat) (va perm : Word) : Except Panic (Int × Pmap) := do
  match ← pgdirWalk s pgdir va true with
  | (none, s) => return (-E_NO_MEM, s)
  | (some pte, s) =>
    let s := s.setRef pp ((s.pages pp).ppRef + 1#16)
    let s ← if present (s.load pte) then pageRemove s pgdir va else pure s
    let s := s.store pte (mkPte pp perm)
    let s := s.store ⟨pgdir, PDX va⟩ (s.load ⟨pgdir, PDX va⟩ ||| perm)
    return (0, s)

/-- The body of `boot_map_region` for the `n` remaining pages. -/
def bootMapPages (s : Pmap) (pgdir : Nat) (perm : Word) :
    Nat → Word → Word → Except Panic Pmap
  | 0, _, _ => return s
  | n + 1, va, pa => do
    match ← pgdirWalk s pgdir va true with
    | (none, _) => throw .bootMapRegion
    | (some pte, s) =>
      let s := s.store pte (pa ||| PTE_P ||| perm)
      bootMapPages s pgdir perm n (va + BitVec.ofNat 32 PGSIZE) (pa + BitVec.ofNat 32 PGSIZE)

/-- `boot_map_region`. -/
def bootMapRegion (s : Pmap) (pgdir : Nat) (va size pa perm : Word) : Except Panic Pmap :=
  let pgs := size.toNat / PGSIZE
  let pgs := if size.toNat % PGSIZE ≠ 0 then pgs + 1 else pgs
  bootMapPages s pgdir perm pgs va pa

/-- `mmio_map_region`. -/
def mmioMapRegion (s : Pmap) (pa size : Word) : Except Panic (Word × Pmap) := do
  let size := ROUNDUP (pa + size) PGSIZE
  let pa := ROUNDDOWN pa PGSIZE
  let size := size - pa
  if MMIOLIM ≤ s.mmioBase + size then throw .mmioMapRegion
  let s ← bootMapRegion s s.kernPgdir s.mmioBase size pa (PTE_PCD ||| PTE_PWT ||| PTE_W)
  let s := { s with mmioBase := s.mmioBase + size }
  return (s.mmioBase - size, s)

/-! ## Checking user memory -/

/-- What `user_mem_check` reports: `ok` is the return value 0, `fault a` is `-E_FAULT` with
`user_mem_check_addr` set to `a`. -/
inductive MemCheck
  | ok
  | fault (addr : Word)
deriving DecidableEq

/-- The loop of `user_mem_check` from the page at `i`, with fuel for the iterations left. -/
def userMemCheckFrom (s : Pmap) (pgdir : Nat) (va stop perm : Word) :
    Nat → Word → Except Panic MemCheck
  | 0, _ => return .ok
  | fuel + 1, i => do
    if i < stop then
      let (pte, _) ← pgdirWalk s pgdir i false
      let bad := match pte with
        | none => true
        | some pte => decide (¬ present (s.load pte) ∨ s.load pte &&& perm ≠ perm)
      if ULIM ≤ i ∨ bad = true then
        return .fault (if i < va then va else i)
      else
        userMemCheckFrom s pgdir va stop perm fuel (i + BitVec.ofNat 32 PGSIZE)
    else
      return .ok

/-- `user_mem_check`. One iteration for each page number is enough fuel. -/
def userMemCheck (s : Pmap) (pgdir : Nat) (va len perm : Word) : Except Panic MemCheck :=
  userMemCheckFrom s pgdir va (ROUNDUP (va + len) PGSIZE) perm (NPDENTRIES * NPTENTRIES)
    (ROUNDDOWN va PGSIZE)

/-! ## Address spaces of environments (`kern/env.c`) -/

/-- The part of `env_setup_vm` that allocates and fills the page directory. -/
def envSetupVm (s : Pmap) : Except Panic (Option Nat × Pmap) := do
  match ← pageAlloc s true with
  | (none, s) => return (none, s)
  | (some p, s) =>
    let s := s.setRef p ((s.pages p).ppRef + 1#16)
    let pgdir ← page2kva s p
    -- memcpy(e->env_pgdir, kern_pgdir, PGSIZE)
    let s := { s with mem := Function.update s.mem pgdir (s.mem s.kernPgdir) }
    let s := s.store ⟨pgdir, PDX UVPT⟩ (page2pa pgdir ||| PTE_P ||| PTE_U)
    return (some pgdir, s)

/-- The inner loop of `env_free`: unmap everything in the page table `pt` of entry `pdeno`. -/
def envFreePtes (s : Pmap) (pgdir pdeno pt : Nat) : Except Panic Pmap :=
  (List.range NPTENTRIES).foldlM (fun s pteno =>
    if present (s.mem pt pteno) then pageRemove s pgdir (PGADDR pdeno pteno 0) else pure s) s

/-- The body of the outer loop of `env_free`. -/
def envFreePde (pgdir : Nat) (s : Pmap) (pdeno : Nat) : Except Panic Pmap :=
  if ¬ present (s.mem pgdir pdeno) then
    return s
  else do
    let pa := PTE_ADDR (s.mem pgdir pdeno)
    let pt ← kaddr s pa
    let s ← envFreePtes s pgdir pdeno pt
    let s := s.store ⟨pgdir, pdeno⟩ 0#32
    let pp ← pa2page s pa
    pageDecref s pp

/-- The part of `env_free` that tears down the address space. -/
def envFreeVm (s : Pmap) (pgdir : Nat) : Except Panic Pmap := do
  let s ← (List.range NUPDE).foldlM (envFreePde pgdir) s
  let pp ← pa2page s (page2pa pgdir)
  pageDecref s pp

end Jos
