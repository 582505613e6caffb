import Jos.SyscallSpec

/-!
# Booting the kernel (`kern/init.c`, `kern/env.c`)

From the state `mem_init` leaves to the first environments: `env_init` threads the free list through
`envs`, `lapic_init` maps the local APIC once for each CPU, and `env_create` loads the programs linked into
the kernel. The programs are parameters: `user.ld` links them to user addresses, and that is all that is
asked of them (`Program.Ok`).

When `i386_init` calls the scheduler, the invariant of the kernel's data holds and no environment has run
(`I386Init.started`).
-/

namespace Jos

open Pmap

/-! ## Model -/

/-- A loadable segment: `p_va`, `p_memsz` and the `p_filesz` bytes in the file. -/
structure Segment where
  va : Word
  memsz : Word
  file : List (BitVec 8)

/-- The parts of a program image that `load_icode` reads. -/
structure Program where
  segments : List Segment
  entry : Word

/-- Programs are linked below `UTOP`, and a segment's file contents fit its memory. -/
def Program.Ok (b : Program) : Prop :=
  ∀ seg ∈ b.segments, seg.va.toNat + seg.memsz.toNat ≤ UTOP.toNat ∧
    seg.file.length ≤ seg.memsz.toNat

/-- The loop of `region_alloc` from `cva`, with fuel for the pages left. The result of `page_insert` is
ignored, as in the source. -/
def regionAllocFrom (d : Nat) (eva : Word) : Nat → Word → Pmap → Except Panic Pmap
  | 0, _, s => return s
  | fuel + 1, cva, s => do
    if cva < eva then
      match ← pageAlloc s false with
      | (none, _) => throw .regionAlloc
      | (some pp, s) =>
        let (_, s) ← pageInsert s d pp cva (PTE_U ||| PTE_W)
        regionAllocFrom d eva fuel (cva + BitVec.ofNat 32 PGSIZE) s
    else
      return s

/-- `region_alloc`. -/
def regionAlloc (s : Pmap) (d : Nat) (va len : Word) : Except Panic Pmap :=
  regionAllocFrom d (ROUNDUP (va + len) PGSIZE) (NPDENTRIES * NPTENTRIES) (ROUNDDOWN va PGSIZE) s

/-- The body of the loop of `load_icode`. -/
def loadSegment (d : Nat) (s : Pmap) (seg : Segment) : Except Panic Pmap := do
  let s ← regionAlloc s d seg.va seg.memsz
  let s ← copyTo d seg.file seg.va s
  copyTo d (List.replicate (seg.memsz.toNat - seg.file.length) 0#8)
    (seg.va + BitVec.ofNat 32 seg.file.length) s

/-- `load_icode`. -/
def loadIcode (k : Kernel) (e : Nat) (b : Program) : Except Panic Kernel := do
  let d ← pgdirOf k e
  let s ← b.segments.foldlM (loadSegment d) k.pmap
  let k := { k with pmap := s }
  let k := k.setEnv e { k.envs e with envTf := { (k.envs e).envTf with eip := b.entry } }
  let s ← regionAlloc k.pmap d (USTACKTOP - BitVec.ofNat 32 PGSIZE) (BitVec.ofNat 32 PGSIZE)
  return { k with pmap := s }

/-- `env_create`. -/
def envCreate (k : Kernel) (b : Program) : Except Panic Kernel := do
  match ← envAlloc k 0#32 with
  | (.error _, _) => throw .envCreate
  | (.ok e, k) => loadIcode (k.setEnv e { k.envs e with envParentId := 0#32 }) e b

/-- The body of the loop of `env_init`, for slot `i`. -/
def envInitSlot (k : Kernel) (i : Nat) : Kernel :=
  { k.setEnv i { k.envs i with
      envId := 0#32
      envStatus := .free
      envLink := k.envFreeList } with
    envFreeList := some i }

/-- `env_init`. -/
def envInit (k : Kernel) : Kernel :=
  (List.range NENV).foldl (fun k i => envInitSlot k (NENV - 1 - i)) k

/-- `lapic_init`. -/
def lapicInit (lapicaddr : Word) (s : Pmap) : Except Panic Pmap :=
  if lapicaddr = 0#32 then
    return s
  else do
    let (_, s) ← mmioMapRegion s lapicaddr 4096#32
    return s

/-- What `i386_init` finds: the machine, its CPUs and the programs linked into the kernel. -/
structure System where
  boot : BootInfo
  ncpu : Nat
  lapicaddr : Word
  fs : Program
  user : Program
  fs_ok : fs.Ok
  user_ok : user.Ok

/-- `i386_init` calls `sched_yield` in state `k`. Each CPU has called `lapic_init` once, and none but the
first has got past `lock_kernel`. -/
def I386Init (sys : System) (k : Kernel) : Prop :=
  ∃ s s', MemInit sys.boot s ∧
    (List.range sys.ncpu).foldlM (fun s _ => lapicInit sys.lapicaddr s) s = .ok s' ∧
    (do
      let k ← envCreate (envInit ⟨s', fun _ => {}, none, fun _ => {}, []⟩) sys.fs
      envCreate k sys.user) = .ok k

/-! ## `env_init` -/

/-- The state of `env_init` after `n` iterations. -/
structure EnvInitInv (k₀ : Kernel) (n : Nat) (k : Kernel) : Prop where
  pmap : k.pmap = k₀.pmap
  cpus : k.cpus = k₀.cpus
  log : k.log = k₀.log
  linked : Linked (fun e => (k.envs e).envLink) k.envFreeList (List.range' (NENV - n) n)
  status : ∀ e, (k₀.envs e).envStatus = .free → (k.envs e).envStatus = .free
  id : ∀ e, (k₀.envs e).envId = 0#32 → (k.envs e).envId = 0#32
  recving : ∀ e, (k.envs e).envIpcRecving = (k₀.envs e).envIpcRecving
  pgdir : ∀ e, (k.envs e).envPgdir = (k₀.envs e).envPgdir

theorem envInitSlot_inv {k₀ k : Kernel} {n : Nat} (hn : n < NENV) (h : EnvInitInv k₀ n k) :
    EnvInitInv k₀ (n + 1) (envInitSlot k (NENV - 1 - n)) := by
  have hhead : NENV - (n + 1) = NENV - 1 - n := by omega
  have hnext : NENV - (n + 1) + 1 = NENV - n := by omega
  have hnew : NENV - 1 - n ∉ List.range' (NENV - n) n := by
    rw [List.mem_range'_1]
    omega
  have henvs : ∀ e, (envInitSlot k (NENV - 1 - n)).envs e
      = if e = NENV - 1 - n then { k.envs (NENV - 1 - n) with
          envId := 0#32, envStatus := .free, envLink := k.envFreeList }
        else k.envs e := fun e => Kernel.setEnv_envs k _ _ e
  refine ⟨h.pmap, h.cpus, h.log, ?_, ?_, ?_, ?_, ?_⟩
  · rw [List.range'_succ, hnext, hhead]
    refine (h.linked.push hnew).congr fun e _ => ?_
    rw [henvs]
    split <;> rfl
  · intro e he
    rw [henvs]
    split
    · rfl
    · exact h.status e he
  · intro e he
    rw [henvs]
    split
    · rfl
    · exact h.id e he
  · intro e
    rw [henvs]
    split
    · next heq =>
      rw [heq]
      exact h.recving _
    · exact h.recving e
  · intro e
    rw [henvs]
    split
    · next heq =>
      rw [heq]
      exact h.pgdir _
    · exact h.pgdir e

theorem envInit_inv {k : Kernel} (hnone : k.envFreeList = none) :
    EnvInitInv k NENV (envInit k) := by
  have hloop : ∀ n ≤ NENV, EnvInitInv k n
      ((List.range n).foldl (fun k i => envInitSlot k (NENV - 1 - i)) k) := by
    intro n hn
    induction n with
    | zero => exact ⟨rfl, rfl, rfl, hnone, fun _ he => he, fun _ he => he, fun _ => rfl, fun _ => rfl⟩
    | succ n ih =>
      rw [List.range_succ, List.foldl_append]
      exact envInitSlot_inv hn (ih (Nat.le_of_succ_le hn))
  exact hloop NENV le_rfl

/-- After `env_init` every slot is free. -/
theorem envInit_kernelInv {R : Set Nat} {l : List Nat} {k : Kernel} (hp : PmapInv R ∅ l k.pmap)
    (hnone : k.envFreeList = none) (hfree : ∀ e, (k.envs e).envStatus = .free)
    (hdir : ∀ e, (k.envs e).envPgdir = none) : KernelInv R ∅ l (envInit k) := by
  have h := envInit_inv hnone
  have hst : ∀ e, ((envInit k).envs e).envStatus = .free := fun e => h.status e (hfree e)
  have hpg : ∀ e, ((envInit k).envs e).envPgdir = none := fun e => (h.pgdir e).trans (hdir e)
  refine ⟨⟨?_, ?_, ?_, ?_, nofun, ?_⟩, fun e => iff_of_true (hst e) (hpg e)⟩
  · rw [h.pmap]
    exact hp
  · intro e d hd
    rw [hpg] at hd
    cases hd
  · intro e d hd
    rw [hpg] at hd
    cases hd
  · intro e _ d hd
    rw [hpg] at hd
    cases hd
  · have hlinked := h.linked
    rw [Nat.sub_self] at hlinked
    refine ⟨_, hlinked, fun e => ?_⟩
    rw [List.mem_range'_1]
    exact ⟨fun he => ⟨by omega, hpg e⟩, fun he => ⟨Nat.zero_le e, by omega⟩⟩

/-! ## `lapic_init` -/

section Lapic

variable {l : List Nat} {s s' : Pmap} {ep : Nat}

/-- A region of 4096 bytes lies in one or two pages. -/
private theorem lapic_size (pa : Word) : ∃ n, 0 < n ∧ n ≤ 2 ∧
    ROUNDUP (pa + 4096#32) PGSIZE - ROUNDDOWN pa PGSIZE = BitVec.ofNat 32 (n * 4096) := by
  have hlt := pa.isLt
  have hup := toNat_ROUNDUP (pa + 4096#32)
  have hdown := toNat_ROUNDDOWN pa
  rw [BitVec.toNat_add, BitVec.toNat_ofNat] at hup
  have hsub : ∀ n, n ≤ 2 →
      (ROUNDUP (pa + 4096#32) PGSIZE).toNat
        = (pa.toNat - pa.toNat % 4096 + n * 4096) % 4294967296 →
      ROUNDUP (pa + 4096#32) PGSIZE - ROUNDDOWN pa PGSIZE = BitVec.ofNat 32 (n * 4096) := by
    intro n hn heq
    apply BitVec.eq_of_toNat_eq
    rw [BitVec.toNat_sub, heq, hdown, BitVec.toNat_ofNat]
    omega
  by_cases hr : pa.toNat % 4096 = 0
  · exact ⟨1, by omega, by omega, hsub 1 (by omega) (by omega)⟩
  · exact ⟨2, by omega, by omega, hsub 2 (by omega) (by omega)⟩

/-- What `mem_init` left is still there after `lapic_init`. -/
theorem Booted.lapicInit (h : Booted l ep s) {pa : Word} (hok : lapicInit pa s = .ok s') :
    ∃ l', Booted l' ep s' ∧ s'.npages = s.npages ∧ s'.kernPgdir = s.kernPgdir := by
  unfold Jos.lapicInit at hok
  split at hok
  · cases hok
    exact ⟨l, h, rfl, rfl⟩
  · obtain ⟨⟨r, s₁⟩, hmap, hret⟩ := Except.bind_eq_ok.mp hok
    cases hret
    obtain ⟨m, hm, hm', hbase⟩ := h.mmio
    obtain ⟨n, hn, hn', hsize⟩ := lapic_size pa
    have hwin := BootInv.mmioMapRegion_window hbase (by omega) hsize hmap
    obtain ⟨-, hbase', l', hinv, hf, hpte, -, hg, -⟩ := h.inv.mmioMapRegion_ok hbase hsize (by omega)
      hwin hmap
    refine ⟨l', ⟨hinv, ?_, ⟨m + n, by omega, hwin, hbase'⟩, ?_, ?_, ?_, ?_, hg h.guarded⟩,
      hf.npages, hf.kern⟩
    · exact hf.npages.trans_le h.npages_le
    · have hlen := h.length
      have hroom := hf.room
      rw [hf.npages, hf.kern]
      omega
    · intro j hj
      obtain ⟨hlt, hfree⟩ := h.envs j hj
      exact ⟨hlt.trans_eq hf.npages.symm, fun hc => hfree (hf.sub hc)⟩
    · intro j hj
      have hdiv : (UENVSPN + j) / 1024 = 955 := by
        unfold UENVSPN
        omega
      rw [hf.kern, hpte _ (by rw [hdiv]; decide), if_neg (by omega)]
      exact h.uenvs j hj
    · intro p hp
      have hdiv : 960 ≤ (KERNPN + p) / 1024 ∧ (KERNPN + p) / 1024 < 1024 := by
        unfold KERNPN
        omega
      have hk : KernPde ((KERNPN + p) / 1024) := by
        have huvpt : PDX UVPT = 957 := by decide
        unfold KernPde NUPDE
        omega
      rw [hf.kern, hpte _ hk, if_neg (by omega)]
      exact h.kernbase p hp

/-- There is room in the window of `MMIOBASE` for the local APIC of each CPU. -/
theorem Booted.lapicInit_exists (h : Booted l ep s) (pa : Word) {m : Nat}
    (hbase : s.mmioBase = pageAddr m) (hm : 980992 ≤ m) (hm' : m + 2 < 982016)
    (hroom : 69 ≤ l.length + kernTables s) :
    ∃ s' l' m', Jos.lapicInit pa s = .ok s' ∧ Booted l' ep s' ∧ s'.mmioBase = pageAddr m' ∧
      980992 ≤ m' ∧ m' ≤ m + 2 ∧ l'.length + kernTables s' = l.length + kernTables s := by
  unfold Jos.lapicInit
  split
  · exact ⟨s, l, m, rfl, h, hbase, hm, by omega, rfl⟩
  · next hpa =>
    obtain ⟨n, hn, hn', hsize⟩ := lapic_size pa
    obtain ⟨⟨r, s'⟩, hs'⟩ := h.inv.mmioMapRegion_exists _ _ hbase hsize hm (by omega) hroom
    obtain ⟨-, hbase', l', hinv, hf, -, -, -⟩ := h.inv.mmioMapRegion_ok hbase hsize hm (by omega) hs'
    have hcode : Jos.lapicInit pa s = .ok s' := by
      rw [Jos.lapicInit, if_neg hpa, hs']
      rfl
    obtain ⟨l'', hb, -, -⟩ := h.lapicInit hcode
    obtain rfl : l'' = l' := hb.inv.free.linked.unique hinv.free.linked
    exact ⟨s', l'', m + n, by rw [hs']; rfl, hb, hbase', by omega, by omega, hf.room⟩

theorem Booted.lapicInits_exists (h : Booted l ep s) (pa : Word) {m n : Nat}
    (hbase : s.mmioBase = pageAddr m) (hm : 980992 ≤ m) (hmn : m + 2 * n < 982016)
    (hroom : 69 ≤ l.length + kernTables s) :
    ∃ s' l', (List.range n).foldlM (fun s _ => Jos.lapicInit pa s) s = .ok s' ∧ Booted l' ep s' ∧
      l'.length + kernTables s' = l.length + kernTables s := by
  let I : Nat → Pmap → Prop := fun i t => ∃ l' m', Booted l' ep t ∧ t.mmioBase = pageAddr m' ∧
    980992 ≤ m' ∧ m' ≤ m + 2 * i ∧ l'.length + kernTables t = l.length + kernTables s
  obtain ⟨s', hs', l', -, hb, -, -, -, hlen⟩ := Except.foldlM_range_invariant
    (f := fun s _ => Jos.lapicInit pa s) I n (s := s) ⟨l, m, h, hbase, hm, by omega, rfl⟩ (by
      rintro i hi t ⟨l₁, m₁, hb₁, hbase₁, hlo, hhi, hlen₁⟩
      obtain ⟨t', l₂, m₂, hcode, hb₂, hbase₂, hlo₂, hhi₂, hlen₂⟩ :=
        hb₁.lapicInit_exists pa hbase₁ hlo (by omega) (by omega)
      exact ⟨t', hcode, l₂, m₂, hb₂, hbase₂, hlo₂, by omega, by omega⟩)
  exact ⟨s', l', hs', hb, hlen⟩

/-- All CPUs call `lapic_init`. -/
theorem Booted.lapicInits (h : Booted l ep s) {pa : Word} {n : Nat}
    (hok : (List.range n).foldlM (fun s _ => Jos.lapicInit pa s) s = .ok s') :
    ∃ l', Booted l' ep s' ∧ s'.npages = s.npages ∧ s'.kernPgdir = s.kernPgdir := by
  refine Except.foldlM_range_ok (fun _ t => ∃ l', Booted l' ep t ∧ t.npages = s.npages ∧
    t.kernPgdir = s.kernPgdir) n hok ⟨l, h, rfl, rfl⟩ ?_
  rintro i - s₁ s₂ ⟨l₁, h₁, hn₁, hk₁⟩ hstep
  obtain ⟨l₂, h₂, hn₂, hk₂⟩ := h₁.lapicInit hstep
  exact ⟨l₂, h₂, hn₂.trans hn₁, hk₂.trans hk₁⟩

end Lapic

/-! ## `load_icode` -/

section Load

variable {R : Set Nat} {D : Finset Nat} {l : List Nat} {s s' : Pmap} {d p : Nat}

/-- One page of `region_alloc`. -/
theorem PmapInv.regionPage (h : PmapInv R D (p :: l) s) (hd : d ∈ D) {cva : Word}
    (hva : cva < UTOP) :
    ∃ r s' l', pageInsert (s.takeFree p) d p cva (PTE_U ||| PTE_W) = .ok (r, s') ∧
      PmapInv R D l' s' ∧ Frame R D s s' ∧ l.length ≤ l'.length + 1 ∧
      (l ≠ [] → r = 0 ∧ ∀ e ∈ D, ∀ v < NUVPN, pteOf s' e v
        = if e = d ∧ v = PGNUM cva then mkPte p (PTE_U ||| PTE_W) else pteOf s e v) := by
  have hfree := h.takeFree
  have href : ((s.takeFree p).pages p).ppRef.toNat = 0 := by
    rw [takeFree_pages, if_pos rfl]
    exact h.head_ref
  have hperm : (PTE_U ||| PTE_W).toNat < 4096 := by decide
  rcases hfree.pageInsert_cases hd hva hperm h.head_managed
    h.head_notMem (fun x hx _ => hfree.unnamed_of_ref_zero h.head_managed href x hx) with
    ⟨s', hcode, hins, hinv⟩ | ⟨hcode, -, rfl⟩
  · obtain ⟨l', hinv, hlen⟩ := hinv (by omega)
    refine ⟨0, s', l', hcode, hinv, h.takeFree_frame.trans hins.frame, ?_, fun _ => ⟨rfl, hins.pte⟩⟩
    split at hlen <;> omega
  · exact ⟨_, _, [], hcode, hfree, h.takeFree_frame, by simp, fun hc => absurd rfl hc⟩

/-- `region_alloc` of a single page, with memory for it and for a page table. -/
theorem PmapInv.regionAlloc_page {q : Nat} (h : PmapInv R D (p :: q :: l) s) (hd : d ∈ D)
    (va : Word) (hva : va < UTOP) (hal : aligned va) :
    ∃ s' l', Jos.regionAlloc s d va (BitVec.ofNat 32 PGSIZE) = .ok s' ∧ PmapInv R D l' s' ∧
      l.length ≤ l'.length ∧ ∀ e ∈ D, ∀ v < NUVPN, pteOf s' e v
        = if e = d ∧ v = PGNUM va then mkPte p (PTE_U ||| PTE_W) else pteOf s e v := by
  obtain ⟨r, s', l', hcode, hinv, -, hlen, hpte⟩ := h.regionPage hd hva
  have hU : UTOP.toNat = 0xeec00000 := toNat_UTOP
  have hva' : va.toNat < 0xeec00000 := by
    rw [BitVec.lt_def] at hva
    omega
  have hstart : ROUNDDOWN va PGSIZE = va := (aligned_iff.mp hal).symm
  have hadd : (va + BitVec.ofNat 32 PGSIZE).toNat = va.toNat + 4096 := by
    rw [BitVec.toNat_add, BitVec.toNat_ofNat, PGSIZE]
    omega
  have hstop : (ROUNDUP (va + BitVec.ofNat 32 PGSIZE) PGSIZE).toNat = va.toNat + 4096 := by
    unfold aligned PGSIZE at hal
    rw [toNat_ROUNDUP, hadd]
    omega
  have hfirst : va < ROUNDUP (va + BitVec.ofNat 32 PGSIZE) PGSIZE := by
    rw [BitVec.lt_def]
    omega
  have hlast : ¬ va + BitVec.ofNat 32 PGSIZE < ROUNDUP (va + BitVec.ofNat 32 PGSIZE) PGSIZE := by
    rw [BitVec.lt_def]
    omega
  obtain ⟨n, hn⟩ : ∃ n, NPDENTRIES * NPTENTRIES = n + 2 := ⟨1048574, rfl⟩
  have halloc := pageAlloc_some false h.free.head_some h.head_managed.1 h.npages_le'
  refine ⟨s', l', ?_, hinv, ?_, (hpte (by simp)).2⟩
  · rw [Jos.regionAlloc, hstart, hn, Jos.regionAllocFrom, if_pos hfirst, halloc]
    simp only [Except.ok_bind, Bool.false_eq_true, if_false, hcode]
    rw [Jos.regionAllocFrom, if_neg hlast]
    rfl
  · rw [List.length_cons] at hlen
    omega

theorem PmapInv.regionAllocFrom (h : PmapInv R D l s) (hd : d ∈ D) {eva : Word} {fuel : Nat}
    {cva : Word} (heva : eva.toNat ≤ UTOP.toNat)
    (hok : Jos.regionAllocFrom d eva fuel cva s = .ok s') : ∃ l', PmapInv R D l' s' ∧ Frame R D s s' := by
  induction fuel generalizing s l cva with
  | zero =>
    cases hok
    exact ⟨l, h, .refl _⟩
  | succ fuel ih =>
    rw [Jos.regionAllocFrom] at hok
    split at hok
    · next hlt =>
      have hva : cva < UTOP := by
        rw [BitVec.lt_def] at hlt ⊢
        omega
      cases l with
      | nil =>
        rw [pageAlloc_none _ h.free.head_none] at hok
        cases hok
      | cons p l =>
        rw [pageAlloc_some false h.free.head_some h.head_managed.1 h.npages_le'] at hok
        obtain ⟨r, s₁, l₁, hcode, hinv, hframe, -, -⟩ := h.regionPage hd hva
        have hif : (if (false : Bool) then (s.takeFree p).clearPage p else s.takeFree p)
          = s.takeFree p := rfl
        simp only [Except.ok_bind, hif, hcode] at hok
        obtain ⟨l₂, hinv', hframe'⟩ := ih hinv hok
        exact ⟨l₂, hinv', hframe.trans hframe'⟩
    · cases hok
      exact ⟨l, h, .refl _⟩

theorem PmapInv.regionAlloc (h : PmapInv R D l s) (hd : d ∈ D) {va len : Word}
    (hva : va.toNat + len.toNat ≤ UTOP.toNat) (hok : Jos.regionAlloc s d va len = .ok s') :
    ∃ l', PmapInv R D l' s' ∧ Frame R D s s' := by
  refine h.regionAllocFrom hd ?_ hok
  have hU : UTOP.toNat = 0xeec00000 := toNat_UTOP
  rw [toNat_ROUNDUP, BitVec.toNat_add]
  omega

theorem PmapInv.loadSegment (h : PmapInv R D l s) (hd : d ∈ D) {seg : Segment}
    (hva : seg.va.toNat + seg.memsz.toNat ≤ UTOP.toNat)
    (hfile : seg.file.length ≤ seg.memsz.toNat) (hok : Jos.loadSegment d s seg = .ok s') :
    ∃ l', PmapInv R D l' s' ∧ Frame R D s s' := by
  obtain ⟨s₁, hs₁, hok⟩ := Except.bind_eq_ok.mp hok
  obtain ⟨s₂, hs₂, hok⟩ := Except.bind_eq_ok.mp hok
  obtain ⟨l₁, h₁, hf₁⟩ := h.regionAlloc hd hva hs₁
  obtain ⟨h₂, hf₂, -⟩ := h₁.copyTo_pteOf hd (by omega) hs₂
  have hzeros : (seg.va + BitVec.ofNat 32 seg.file.length).toNat
      + (List.replicate (seg.memsz.toNat - seg.file.length) 0#8).length ≤ UTOP.toNat := by
    have hU : UTOP.toNat = 0xeec00000 := toNat_UTOP
    rw [List.length_replicate, BitVec.toNat_add, BitVec.toNat_ofNat]
    omega
  obtain ⟨h₃, hf₃, -⟩ := h₂.copyTo_pteOf hd hzeros hok
  exact ⟨l₁, h₃, hf₁.trans (hf₂.trans hf₃)⟩

theorem PmapInv.loadSegments (hd : d ∈ D) {segs : List Segment} :
    ∀ {l : List Nat} {s : Pmap}, PmapInv R D l s → (∀ seg ∈ segs,
      seg.va.toNat + seg.memsz.toNat ≤ UTOP.toNat ∧ seg.file.length ≤ seg.memsz.toNat) →
    segs.foldlM (Jos.loadSegment d) s = .ok s' → ∃ l', PmapInv R D l' s' ∧ Frame R D s s' := by
  induction segs with
  | nil =>
    intro l s h _ hok
    cases hok
    exact ⟨l, h, .refl _⟩
  | cons seg segs ih =>
    intro l s h hsegs hok
    rw [List.foldlM_cons] at hok
    obtain ⟨s₁, hs₁, hok⟩ := Except.bind_eq_ok.mp hok
    obtain ⟨hva, hfile⟩ := hsegs seg (List.mem_cons_self ..)
    obtain ⟨l₁, h₁, hf₁⟩ := h.loadSegment hd hva hfile hs₁
    obtain ⟨l₂, h₂, hf₂⟩ := ih h₁ (fun x hx => hsegs x (List.mem_cons_of_mem _ hx)) hok
    exact ⟨l₂, h₂, hf₁.trans hf₂⟩

end Load

/-! ## `env_create` -/

/-- What `env_create` has done when it made environment `e`. -/
structure Created (k : Kernel) (e : Nat) (k' : Kernel) : Prop where
  head : k.envFreeList = some e
  list : k'.envFreeList = (k.envs e).envLink
  lt : e < NENV
  free : (k.envs e).envStatus = .free
  cpus : k'.cpus = k.cpus
  log : k'.log = .alloc e :: k.log
  others : ∀ i, i ≠ e → k'.envs i = k.envs i
  status : (k'.envs e).envStatus = .runnable
  recving : (k'.envs e).envIpcRecving = false
  id : (k'.envs e).envId = nextEnvId (k.envs e).envId e
  parent : (k'.envs e).envParentId = 0#32

section Create

variable {R : Set Nat} {D : Finset Nat} {l : List Nat} {k k' : Kernel} {b : Program} {e d p : Nat}
  {s : Pmap}

/-- The new environment as `load_icode` finds it. -/
private def Kernel.newRoot (k : Kernel) (e d : Nat) (s : Pmap) : Kernel :=
  (k.newEnv e d s 0#32).setEnv e { (k.newEnv e d s 0#32).envs e with envParentId := 0#32 }

private theorem newRoot_eq : k.newRoot e d s = k.newEnv e d s 0#32 := by
  unfold Kernel.newRoot Kernel.setEnv
  have hsame : ({ (k.newEnv e d s 0#32).envs e with envParentId := 0#32 } : Env)
      = (k.newEnv e d s 0#32).envs e := by
    rw [newEnv_envs_self]
  rw [hsame, Function.update_eq_self]

private theorem envCreate_eq
    (halloc : envAlloc k 0#32 = .ok (.ok e, k.newEnv e p (k.pmap.newDir p) 0#32)) :
    envCreate k b = loadIcode (k.newEnv e p (k.pmap.newDir p) 0#32) e b := by
  rw [envCreate, halloc]
  exact congrArg (fun k => loadIcode k e b) newRoot_eq

/-- The state after `load_icode` has filled memory and set the entry point. -/
private def Kernel.loaded (k : Kernel) (e : Nat) (entry : Word) (s : Pmap) : Kernel :=
  ({ k with pmap := s } : Kernel).setEnv e { k.envs e with
    envTf := { (k.envs e).envTf with eip := entry } }

private theorem KernelInv.loaded (h : KernelInv R D l k) (hst : (k.envs e).envStatus ≠ .free)
    (entry : Word) {l' : List Nat} (hp : PmapInv R D l' s) :
    KernelInv R D l' (k.loaded e entry s) :=
  (h.withPmap hp).congr (.setEnv (k := { k with pmap := s }) hst rfl rfl hst) rfl

theorem KernelInv.envCreate_ok (h : KernelInv R D l k) (hb : b.Ok)
    (hok : envCreate k b = .ok k') :
    ∃ e D' l', Created k e k' ∧ KernelInv R D' l' k' ∧ ReservedSame R k.pmap k'.pmap := by
  rcases h.envAlloc_cases 0#32 with ⟨e, p, l', hhead, hlt, hfree, rfl, halloc, hinv⟩ | ⟨-, err, halloc⟩
  · rw [envCreate_eq halloc] at hok
    unfold loadIcode at hok
    have hpg : ((k.newEnv e p (k.pmap.newDir p) 0#32).envs e).envPgdir = some p := by
      rw [newEnv_envs_self]
    rw [pgdirOf_some hpg] at hok
    simp only [Except.ok_bind] at hok
    obtain ⟨s₁, hs₁, hok⟩ := Except.bind_eq_ok.mp hok
    obtain ⟨s₂, hs₂, hok⟩ := Except.bind_eq_ok.mp hok
    replace hok : (k.newEnv e p (k.pmap.newDir p) 0#32).loaded e b.entry s₂ = k' :=
      Except.ok.inj hok
    have hpD : p ∈ insert p D := Finset.mem_insert_self ..
    obtain ⟨l₁, h₁, hf₁⟩ := PmapInv.loadSegments hpD hinv.pmap hb hs₁
    obtain ⟨l₂, h₂, hf₂⟩ := h₁.regionAlloc hpD (by decide) hs₂
    have hst : ((k.newEnv e p (k.pmap.newDir p) 0#32).envs e).envStatus ≠ .free := by
      rw [newEnv_envs_self]
      exact nofun
    subst hok
    refine ⟨e, insert p D, l₂, ?_, hinv.loaded hst b.entry h₂,
      h.pmap.newDir_frame.reservedSame.trans (hf₁.trans hf₂).reservedSame⟩
    refine ⟨hhead, rfl, hlt, hfree, rfl, rfl, fun i hi => ?_, ?_, ?_, ?_, ?_⟩
    · rw [Kernel.loaded, Kernel.setEnv_envs, if_neg hi]
      exact newEnv_envs_of_ne hi
    all_goals
      rw [Kernel.loaded, Kernel.setEnv_envs, if_pos rfl, newEnv_envs_self]
  · rw [envCreate, halloc] at hok
    cases hok

/-- A program without segments gets a stack and nothing else. -/
theorem KernelInv.envCreate_exists {q r : Nat} (h : KernelInv R D (p :: q :: r :: l) k)
    (hhead : k.envFreeList = some e) (hb : b.segments = []) :
    ∃ k' l', envCreate k b = .ok k' ∧ KernelInv R (insert p D) l' k' ∧ l.length ≤ l'.length ∧
      p ∉ D ∧ (k'.envs e).envPgdir = some p ∧
      (∀ d ∈ D, ∀ v < NUVPN, pteOf k'.pmap d v = pteOf k.pmap d v) ∧
      ∀ v < NUVPN, pteOf k'.pmap p v
        = if v = PGNUM (USTACKTOP - BitVec.ofNat 32 PGSIZE) then mkPte q (PTE_U ||| PTE_W)
          else 0#32 := by
  rcases h.envAlloc_cases 0#32 with ⟨e', p', l', hhead', hlt, hfree, hl, halloc, hinv⟩ | ⟨hno, -, -⟩
  · obtain rfl : e' = e := Option.some.inj (hhead'.symm.trans hhead)
    obtain ⟨rfl, rfl⟩ := List.cons.inj hl
    have hpD : p ∉ D := fun hpD => h.pmap.dir_notMem_free hpD (List.mem_cons_self ..)
    have hmem : p ∈ insert p D := Finset.mem_insert_self ..
    obtain ⟨s', l', hcode, hinv', hlen, hpte⟩ := hinv.pmap.regionAlloc_page hmem
      (USTACKTOP - BitVec.ofNat 32 PGSIZE) (by decide) (by decide)
    have hpg : ((k.newEnv e' p (k.pmap.newDir p) 0#32).envs e').envPgdir = some p := by
      rw [newEnv_envs_self]
    have hst : ((k.newEnv e' p (k.pmap.newDir p) 0#32).envs e').envStatus ≠ .free := by
      rw [newEnv_envs_self]
      exact nofun
    refine ⟨_, l', ?_, hinv.loaded hst b.entry hinv', hlen, hpD, ?_, fun d hd v hv => ?_,
      fun v hv => ?_⟩
    · rw [envCreate_eq halloc, loadIcode, pgdirOf_some hpg, hb]
      simp only [Except.ok_bind, List.foldlM_nil, Except.pure_eq]
      rw [Kernel.setEnv_pmap, hcode]
      rfl
    · rw [Kernel.loaded, Kernel.setEnv_envs, if_pos rfl]
      exact hpg
    · have hne : d ≠ p := fun he => hpD (he ▸ hd)
      show pteOf s' d v = _
      rw [hpte d (Finset.mem_insert_of_mem hd) v hv, if_neg fun hc => hne hc.1]
      exact h.pmap.newDir_pteOf_of_ne hd hv
    · show pteOf s' p v = _
      rw [hpte p hmem v hv]
      by_cases hv' : v = PGNUM (USTACKTOP - BitVec.ofNat 32 PGSIZE)
      · rw [if_pos ⟨rfl, hv'⟩, if_pos hv']
      · rw [if_neg fun hc => hv' hc.2, if_neg hv']
        exact h.pmap.newDir_pteOf_self hv
  · rcases hno with hno | hno
    · rw [hhead] at hno
      cases hno
    · cases hno

end Create

/-! ## `i386_init` -/

/-- The state in which `i386_init` calls the scheduler. -/
structure Started (R : Set Nat) (D : Finset Nat) (l : List Nat) (k : Kernel) : Prop where
  inv : KernelInv R D l k
  cpus : ∀ c, k.cpus c = {}
  status : ∀ e, (k.envs e).envStatus = if e < 2 then .runnable else .free
  recving : ∀ e, (k.envs e).envIpcRecving = false
  id : ∀ e < 2, (k.envs e).envId = nextEnvId 0#32 e
  parent : ∀ e < 2, (k.envs e).envParentId = 0#32
  log : k.log = [.alloc 1, .alloc 0]

/-- The first two environments take the first two slots. -/
private theorem created_started {R : Set Nat} {D : Finset Nat} {l : List Nat} {s : Pmap}
    {k k' : Kernel} {e e' : Nat}
    (h : Created (envInit ⟨s, fun _ => {}, none, fun _ => {}, []⟩) e k) (h' : Created k e' k')
    (hinv : KernelInv R D l k') : Started R D l k' := by
  have hinit := envInit_inv (k := ⟨s, fun _ => {}, none, fun _ => {}, []⟩) rfl
  generalize envInit ⟨s, fun _ => {}, none, fun _ => {}, []⟩ = k₀ at h hinit
  obtain ⟨n, hn⟩ : ∃ n, NENV = n + 2 := ⟨1022, rfl⟩
  have hlinked := hinit.linked
  rw [Nat.sub_self, hn, List.range'_succ, List.range'_succ] at hlinked
  obtain rfl : e = 0 := Option.some.inj (h.head.symm.trans hlinked.1)
  obtain rfl : e' = 1 := by
    have hone : (k₀.envs 0).envLink = some (0 + 1) := hlinked.2.1
    exact Option.some.inj (h'.head.symm.trans (h.list.trans hone))
  refine ⟨hinv, fun c => ?_, fun e => ?_, fun e => ?_, fun e he => ?_, fun e he => ?_, ?_⟩
  · rw [h'.cpus, h.cpus, hinit.cpus]
  · by_cases he₁ : e = 1
    · subst he₁
      exact h'.status
    · rw [h'.others e he₁]
      by_cases he₀ : e = 0
      · subst he₀
        exact h.status
      · rw [h.others e he₀, hinit.status e rfl, if_neg (by omega)]
  · by_cases he₁ : e = 1
    · subst he₁
      exact h'.recving
    · rw [h'.others e he₁]
      by_cases he₀ : e = 0
      · subst he₀
        exact h.recving
      · rw [h.others e he₀, hinit.recving e]
  · by_cases he₁ : e = 1
    · subst he₁
      rw [h'.id, h.others 1 (by omega), hinit.id 1 rfl]
    · obtain rfl : e = 0 := by omega
      rw [h'.others 0 (by omega), h.id, hinit.id 0 rfl]
  · by_cases he₁ : e = 1
    · subst he₁
      exact h'.parent
    · obtain rfl : e = 0 := by omega
      rw [h'.others 0 (by omega), h.parent]
  · rw [h'.log, h.log, hinit.log]

/-- From `mem_init` to the scheduler, the reserved pages stay as they are. -/
theorem I386Init.booted {sys : System} {k : Kernel} (h : I386Init sys k) :
    ∃ s l₀ ep s₀ l₁ D l, MemInit sys.boot s ∧ Booted l₀ ep s ∧ Booted l₁ ep s₀ ∧
      Started (notFree s₀) D l k ∧ ReservedSame (notFree s₀) s₀ k.pmap := by
  obtain ⟨s, s', hmem, hlapic, hcreate⟩ := h
  obtain ⟨k₁, hk₁, hk⟩ := Except.bind_eq_ok.mp hcreate
  obtain ⟨l, ep, hb, -⟩ := hmem.booted
  obtain ⟨l', hb', -, -⟩ := hb.lapicInits hlapic
  have h₀ := envInit_kernelInv (k := ⟨s', fun _ => {}, none, fun _ => {}, []⟩) hb'.pmapInv rfl
    (fun _ => rfl) fun _ => rfl
  obtain ⟨e, D₁, l₁, hc₁, h₁, hr₁⟩ := h₀.envCreate_ok sys.fs_ok hk₁
  obtain ⟨e', D₂, l₂, hc₂, h₂, hr₂⟩ := h₁.envCreate_ok sys.user_ok hk
  have hpmap := (envInit_inv (k := ⟨s', fun _ => {}, none, fun _ => {}, []⟩) rfl).pmap
  rw [hpmap] at hr₁
  exact ⟨s, l, ep, s', l', D₂, l₂, hmem, hb, hb', created_started hc₁ hc₂ h₂, hr₁.trans hr₂⟩

theorem I386Init.started {sys : System} {k : Kernel} (h : I386Init sys k) :
    ∃ s₀ D l, Started (notFree s₀) D l k := by
  obtain ⟨-, -, -, s₀, -, D, l, -, -, -, hs, -⟩ := h.booted
  exact ⟨s₀, D, l, hs⟩

/-! ### A system that boots -/

/-- A program of which only the stack is in memory. -/
def demoProgram : Program := ⟨[], 0x800020#32⟩

theorem demoProgram_ok : demoProgram.Ok := nofun

/-- Two CPUs on the machine of `demoBoot`. -/
def demoSystem : System where
  boot := demoBoot
  ncpu := 2
  lapicaddr := 0xFEE00000#32
  fs := demoProgram
  user := demoProgram
  fs_ok := demoProgram_ok
  user_ok := demoProgram_ok

/-- The virtual page of the stack. -/
def STACKPN : Nat := PGNUM (USTACKTOP - BitVec.ofNat 32 PGSIZE)

/-- An address space that has a stack page and nothing else. -/
def StackOnly (s : Pmap) (d : Nat) : Prop :=
  ∃ q, ∀ v < NUVPN, pteOf s d v = if v = STACKPN then mkPte q (PTE_U ||| PTE_W) else 0#32

/-- The state `demoSystem` boots into: two environments, and most of memory free. -/
structure DemoBooted (R : Set Nat) (D : Finset Nat) (l : List Nat) (d₀ d₁ : Nat) (k : Kernel) :
    Prop where
  init : I386Init demoSystem k
  started : Started R D l k
  room : 15000 ≤ l.length
  dirs : d₀ ∈ D ∧ d₁ ∈ D
  ne : d₀ ≠ d₁
  pgdir₀ : (k.envs 0).envPgdir = some d₀
  pgdir₁ : (k.envs 1).envPgdir = some d₁
  stack₀ : StackOnly k.pmap d₀
  stack₁ : StackOnly k.pmap d₁

/-- With one CPU or two; the stacks are different pages. -/
theorem demoCpus_stacks {n : Nat} (hcpus : n ≤ 2) : ∃ s₀ D l d₀ d₁ k,
    (I386Init { demoSystem with ncpu := n } k ∧ Started (notFree s₀) D l k ∧ 15000 ≤ l.length ∧
      (d₀ ∈ D ∧ d₁ ∈ D) ∧ d₀ ≠ d₁ ∧ (k.envs 0).envPgdir = some d₀ ∧ (k.envs 1).envPgdir = some d₁ ∧
      StackOnly k.pmap d₀ ∧ StackOnly k.pmap d₁) ∧
    ppn (pteOf k.pmap d₀ STACKPN) ≠ ppn (pteOf k.pmap d₁ STACKPN) := by
  obtain ⟨s, l, ep, hmem, hb, hroom, hn, hbase⟩ := demoBoot_booted
  obtain ⟨s', l', hlapic, hb', hlen'⟩ := hb.lapicInits_exists 0xFEE00000#32 (n := n)
    hbase (by omega) (by omega) (by omega)
  have hroom' : 15515 ≤ l'.length := by
    have := kernTables_le s'
    omega
  obtain ⟨p, q, r, l₁, rfl⟩ : ∃ p q r l₁, l' = p :: q :: r :: l₁ := by
    match l' with
    | p :: q :: r :: l₁ => exact ⟨p, q, r, l₁, rfl⟩
    | [] | [_] | [_, _] => simp at hroom'
  have hinit := envInit_inv (k := ⟨s', fun _ => {}, none, fun _ => {}, []⟩) rfl
  have h₀ := envInit_kernelInv (k := ⟨s', fun _ => {}, none, fun _ => {}, []⟩) hb'.pmapInv rfl
    (fun _ => rfl) fun _ => rfl
  obtain ⟨m, hn2⟩ : ∃ m, NENV = m + 2 := ⟨1022, rfl⟩
  have hlinked := hinit.linked
  rw [Nat.sub_self, hn2, List.range'_succ, List.range'_succ] at hlinked
  obtain ⟨k₁, l₂, hc₁, h₁, hlen₁, -, hpg₀, -, hpte₀⟩ := h₀.envCreate_exists (b := demoProgram)
    hlinked.1 rfl
  obtain ⟨e, -, -, hcr₁, -⟩ := h₀.envCreate_ok demoProgram_ok hc₁
  obtain rfl : e = 0 := Option.some.inj (hcr₁.head.symm.trans hlinked.1)
  have hone : k₁.envFreeList = some 1 := hcr₁.list.trans hlinked.2.1
  obtain ⟨p', q', r', l₃, rfl⟩ : ∃ p q r l₁, l₂ = p :: q :: r :: l₁ := by
    simp only [List.length_cons] at hroom'
    match l₂ with
    | p :: q :: r :: l₁ => exact ⟨p, q, r, l₁, rfl⟩
    | [] | [_] | [_, _] =>
      simp only [List.length_cons, List.length_nil] at hlen₁
      omega
  obtain ⟨k₂, l₄, hc₂, h₂, hlen₂, hp', hpg₁, hpte, hpte₁⟩ := h₁.envCreate_exists (b := demoProgram)
    hone rfl
  obtain ⟨e', -, -, hcr₂, -⟩ := h₁.envCreate_ok demoProgram_ok hc₂
  obtain rfl : e' = 1 := Option.some.inj (hcr₂.head.symm.trans hone)
  have hpD : p ∈ insert p (∅ : Finset Nat) := Finset.mem_insert_self ..
  have hstack : STACKPN < NUVPN := by decide
  have hfree : q' ∈ p' :: q' :: r' :: l₃ := List.mem_cons_of_mem _ (List.mem_cons_self ..)
  have hused : ppn (pteOf k₁.pmap p STACKPN) ∉ p' :: q' :: r' :: l₃ := by
    refine h₁.pmap.page_notMem_free hpD hstack ?_
    rw [hpte₀ STACKPN hstack]
    exact (if_pos rfl).symm ▸ present_mkPte _ _
  have hq' : q' < 1048576 :=
    (h₁.pmap.consistent.free_managed q' hfree).1.trans_le h₁.pmap.npages_le'
  refine ⟨s', _, l₄, p, p', k₂, ⟨⟨s, s', hmem, hlapic, ?_⟩, created_started hcr₁ hcr₂ h₂, ?_, ?_,
    ?_, ?_, hpg₁, ⟨q, fun v hv => ?_⟩, ⟨q', hpte₁⟩⟩, fun hc => ?_⟩
  · exact Except.bind_eq_ok.mpr ⟨k₁, hc₁, hc₂⟩
  · simp only [List.length_cons] at hroom' hlen₁
    omega
  · exact ⟨Finset.mem_insert_of_mem hpD, Finset.mem_insert_self ..⟩
  · rintro rfl
    exact hp' hpD
  · rw [hcr₂.others 0 (by omega)]
    exact hpg₀
  · rw [hpte p hpD v hv]
    exact hpte₀ v hv
  · -- the second stack was free when the first one was mapped
    have hppn : ppn (pteOf k₂.pmap p' STACKPN) = q' := by
      rw [hpte₁ STACKPN hstack]
      exact (congrArg ppn (if_pos rfl)).trans (ppn_mkPte hq' (by decide))
    rw [hpte p hpD STACKPN hstack, hppn] at hc
    exact hused (hc ▸ hfree)

theorem demoCpus_boots {n : Nat} (hcpus : n ≤ 2) : ∃ s₀ D l d₀ d₁ k,
    I386Init { demoSystem with ncpu := n } k ∧ Started (notFree s₀) D l k ∧ 15000 ≤ l.length ∧
    (d₀ ∈ D ∧ d₁ ∈ D) ∧ d₀ ≠ d₁ ∧ (k.envs 0).envPgdir = some d₀ ∧ (k.envs 1).envPgdir = some d₁ ∧
    StackOnly k.pmap d₀ ∧ StackOnly k.pmap d₁ := by
  obtain ⟨s₀, D, l, d₀, d₁, k, h, -⟩ := demoCpus_stacks hcpus
  exact ⟨s₀, D, l, d₀, d₁, k, h⟩

theorem demoSystem_boots : ∃ s₀ D l d₀ d₁ k, DemoBooted (notFree s₀) D l d₀ d₁ k := by
  obtain ⟨s₀, D, l, d₀, d₁, k, hinit, hs, hroom, hdirs, hne, hpg₀, hpg₁, hst₀, hst₁⟩ :=
    demoCpus_boots (n := 2) le_rfl
  exact ⟨s₀, D, l, d₀, d₁, k, hinit, hs, hroom, hdirs, hne, hpg₀, hpg₁, hst₀, hst₁⟩

/-- The first free pages. -/
theorem DemoBooted.free {R : Set Nat} {D : Finset Nat} {l : List Nat} {d₀ d₁ : Nat} {k : Kernel}
    (h : DemoBooted R D l d₀ d₁ k) : ∃ p q r l', l = p :: q :: r :: l' := by
  have hroom := h.room
  clear h
  match l with
  | p :: q :: r :: l' => exact ⟨p, q, r, l', rfl⟩
  | [] | [_] | [_, _] => exact absurd hroom (by simp)

end Jos
