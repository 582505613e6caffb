import Jos.Boot

/-!
# The mapping system calls and `UTOP`

Everything above `UTOP` is shared by all address spaces, so no system call may edit it. `sys_page_map` and
`sys_page_unmap` refuse every address from `UTOP` on. `sys_page_alloc` tests `va > UTOP` and lets `UTOP`
itself through, which is `UENVS`: the call then replaces the first page of the window on the `envs` array in
every address space and drops the reference boot code took on the array. This is the only way the three
calls touch anything above `UTOP` (`mapCall_staysBelow_iff`).
-/

namespace Jos

open Pmap

/-- The system calls that edit page tables, with their arguments. -/
inductive MapCall
  | pageAlloc (envid va perm : Word)
  | pageMap (srcenvid srcva dstenvid dstva perm : Word)
  | pageUnmap (envid va : Word)
deriving DecidableEq

/-- The call made by environment `cur`. -/
def MapCall.exec (k : Kernel) (cur : Nat) : MapCall → Except Panic (Int × Kernel)
  | .pageAlloc envid va perm => sysPageAlloc k cur envid va perm
  | .pageMap srcenvid srcva dstenvid dstva perm =>
    sysPageMap k cur srcenvid srcva dstenvid dstva perm
  | .pageUnmap envid va => sysPageUnmap k cur envid va

/-- The virtual addresses among the arguments. -/
def MapCall.addrs : MapCall → List Word
  | .pageAlloc _ va _ => [va]
  | .pageMap _ srcva _ dstva _ => [srcva, dstva]
  | .pageUnmap _ va => [va]

/-- Everything that translates addresses from `UTOP` on is as it was, and so is the bookkeeping of the pages
`R` that boot code reserved. Under the entry of `UVPT` the directory serves as its own page table; its
entries below `UTOP` belong to the user and are not meant here. -/
structure UpperSame (R : Set Nat) (D : Finset Nat) (s s' : Pmap) : Prop where
  kern : s'.kernPgdir = s.kernPgdir
  pde : ∀ d ∈ insert s.kernPgdir D, ∀ i, NUPDE ≤ i → i < 1024 → s'.mem d i = s.mem d i
  pte : ∀ d ∈ insert s.kernPgdir D, ∀ i, NUPDE ≤ i → i < 1024 → i ≠ PDX UVPT →
    present (s.mem d i) → ∀ j, s'.mem (ppn (s.mem d i)) j = s.mem (ppn (s.mem d i)) j
  ref : ∀ p ∈ R, (s'.pages p).ppRef = (s.pages p).ppRef
  free : ∀ p ∈ R, OnFreeList s' p ↔ OnFreeList s p

/-- The call returns; it fails if an address is `UTOP` or more; and it changes nothing from `UTOP` on. -/
def StaysBelow (R : Set Nat) (D : Finset Nat) (k : Kernel) (cur : Nat) (call : MapCall) : Prop :=
  ∃ r k', call.exec k cur = .ok (r, k') ∧ ((∃ va ∈ call.addrs, UTOP ≤ va) → r < 0) ∧
    UpperSame R D k.pmap k'.pmap

/-- `sys_page_alloc` of the address `UTOP` itself, with arguments that pass the other checks and a page to
hand out. -/
def AllocAtUTOP (k : Kernel) (cur : Nat) (call : MapCall) : Prop :=
  ∃ envid perm, call = .pageAlloc envid UTOP perm ∧ envid2env k cur envid true ≠ none ∧
    permOk perm ∧ k.pmap.pageFreeList ≠ none

section

variable {R : Set Nat} {D : Finset Nat} {l : List Nat} {s s' : Pmap} {k : Kernel} {cur : Nat}

theorem UpperSame.refl (s : Pmap) : UpperSame R D s s :=
  ⟨rfl, fun _ _ _ _ _ => rfl, fun _ _ _ _ _ _ _ _ => rfl, fun _ _ => rfl, fun _ _ => Iff.rfl⟩

/-- A step that frames the reserved pages and frees none of them. -/
theorem PmapInv.upperSame (h : PmapInv R D l s) (hf : Frame R D s s') {l' : List Nat}
    (hl' : FreeInv s' l') (hfree : ∀ q ∈ l', q ∉ R) : UpperSame R D s s' where
  kern := hf.kern
  pde d hd i hi _ := by
    rcases Finset.mem_insert.mp hd with rfl | hd
    · rw [hf.res_mem _ h.map.kern_res.1]
    · exact hf.upper d hd i hi
  pte d hd i hi hi' hne hP j := by
    have hkern : s.mem d i = s.mem s.kernPgdir i := by
      rcases Finset.mem_insert.mp hd with rfl | hd
      · rfl
      · exact h.map.upper d hd i hi hi' hne
    rw [hkern] at hP ⊢
    rw [hf.res_mem _ (h.map.kern_upper i hi hi' hP).1]
  ref p hp := by rw [hf.res_pages p hp]
  free p hp := by
    rw [hl'.onFreeList_iff, h.free.onFreeList_iff]
    exact iff_of_false (fun hc => hfree p hc hp)
      fun hc => (h.consistent.free_managed p hc).2 hp

/-- A successful `page_insert` below `UTOP`, whatever the counts. -/
theorem PmapInv.inserted_upperSame {d pp : Nat} {va perm : Word} (h : PmapInv R D l s) (hd : d ∈ D)
    (hva : va < UTOP) (hI : Inserted R D l s d pp va perm s') : UpperSame R D s s' := by
  obtain ⟨l', hl', hsub⟩ := hI.free
  refine h.upperSame hI.frame hl' fun q hq => ?_
  rcases hsub q hq with hq | ⟨hP, rfl⟩
  · exact (h.consistent.free_managed q hq).2
  · exact (h.page_managed hd (PGNUM_lt_NUVPN hva) hP).2

theorem UpperSame.trans {s₁ s₂ s₃ : Pmap} (h : UpperSame R D s₁ s₂) (h' : UpperSame R D s₂ s₃) :
    UpperSame R D s₁ s₃ where
  kern := h'.kern.trans h.kern
  pde d hd i hi hi' := (h'.pde d (h.kern ▸ hd) i hi hi').trans (h.pde d hd i hi hi')
  pte d hd i hi hi' hne hP j := by
    have heq := h.pde d hd i hi hi'
    have hP' : present (s₂.mem d i) := by rw [heq]; exact hP
    have hstep := h'.pte d (h.kern ▸ hd) i hi hi' hne hP' j
    rw [heq] at hstep
    exact hstep.trans (h.pte d hd i hi hi' hne hP j)
  ref p hp := (h'.ref p hp).trans (h.ref p hp)
  free p hp := (h'.free p hp).trans (h.free p hp)

/-! ## The three calls -/

/-- A call that fails and leaves the memory as it is. -/
private theorem staysBelow_refused {call : MapCall} {r : Int} (hr : r < 0)
    (hcode : call.exec k cur = .ok (r, k)) : StaysBelow R D k cur call :=
  ⟨r, k, hcode, fun _ => hr, .refl _⟩

private theorem not_UTOP_le {va : Word} (h : va < UTOP) : ¬ UTOP ≤ va := BitVec.not_le.mpr h

theorem KernelInv.pageAlloc_staysBelow (h : KernelInv R D l k) (hcur : Live k cur)
    {envid va perm : Word} (hno : ¬ AllocAtUTOP k cur (.pageAlloc envid va perm)) :
    StaysBelow R D k cur (.pageAlloc envid va perm) := by
  by_cases harg : ∀ e, ¬ PageAllocArgs k cur e envid va perm
  · obtain ⟨r, hr, hcode⟩ := sysPageAlloc_refused harg
    exact staysBelow_refused hr hcode
  · push Not at harg
    obtain ⟨e, ha⟩ := harg
    obtain ⟨d, hd, hpg, -⟩ := h.pgdirOf (envid2env_live hcur ha.1)
    cases l with
    | nil => exact staysBelow_refused (by decide) (h.sysPageAlloc_noMem ha)
    | cons p l =>
      have hva : va < UTOP := by
        by_contra hva
        obtain rfl := eq_UTOP ha.2.1 hva
        refine hno ⟨envid, perm, rfl, ?_, ha.2.2.2, ?_⟩
        · rw [ha.1]
          exact nofun
        · rw [h.pmap.free.head_some]
          exact nofun
      have hnot : ¬ ∃ x ∈ (MapCall.pageAlloc envid va perm).addrs, UTOP ≤ x := by
        simpa [MapCall.addrs] using hva
      have hfresh := h.pmap.fresh
      rcases h.sysPageAlloc_below ha hd hpg hva with ⟨s, l', hcode, hI, -⟩ | ⟨rfl, hcode⟩
      · refine ⟨0, _, hcode, fun hc => absurd hc hnot, ?_⟩
        exact (h.pmap.upperSame h.pmap.fresh_frame hfresh.free fun q hq =>
          (hfresh.consistent.free_managed q hq).2).trans (hfresh.inserted_upperSame hd hva hI)
      · refine ⟨_, _, hcode, fun _ => by decide, ?_⟩
        have hmem : p ∈ [p] := List.mem_cons_self ..
        have hclear : PmapInv R D [p] (k.pmap.clearPage p) :=
          h.pmap.clearPage h.pmap.head_managed h.pmap.head_ref
        exact h.pmap.upperSame (h.pmap.clearPage_frame hmem) hclear.free fun q hq =>
          (hclear.consistent.free_managed q hq).2

theorem KernelInv.pageMap_staysBelow (h : KernelInv R D l k) (hcur : Live k cur)
    (srcenvid srcva dstenvid dstva perm : Word) :
    StaysBelow R D k cur (.pageMap srcenvid srcva dstenvid dstva perm) := by
  rcases h.sysPageMap_cases cur srcenvid srcva dstenvid dstva perm with
    ⟨r, hr, hcode⟩ | ⟨src, dst, sd, dd, s, ha, hsd, hdd, hcode, hI, -⟩ | ⟨horphan, -⟩
  · exact staysBelow_refused hr hcode
  · refine ⟨0, _, hcode, fun hc => ?_, h.pmap.inserted_upperSame hdd ha.dst_lt hI⟩
    obtain ⟨va, hva, hge⟩ := hc
    rcases List.mem_pair.mp hva with rfl | rfl
    · exact absurd hge (not_UTOP_le ha.src_lt)
    · exact absurd hge (not_UTOP_le ha.dst_lt)
  · exact absurd horphan (h.not_orphan hcur)

theorem KernelInv.pageUnmap_staysBelow (h : KernelInv R D l k) (hcur : Live k cur)
    (envid va : Word) : StaysBelow R D k cur (.pageUnmap envid va) := by
  rcases h.sysPageUnmap_cases cur envid va with
    ⟨r, hr, hcode⟩ | ⟨e, d, -, hva, -, hd, -, hcases⟩ | ⟨horphan, -⟩
  · exact staysBelow_refused hr hcode
  · have hnot : ¬ ∃ x ∈ (MapCall.pageUnmap envid va).addrs, UTOP ≤ x := by
      simpa [MapCall.addrs] using hva
    rcases hcases with ⟨-, hcode⟩ | ⟨hP, hcode⟩
    · exact ⟨0, k, hcode, fun hc => absurd hc hnot, .refl _⟩
    · refine ⟨0, _, hcode, fun hc => absurd hc hnot, ?_⟩
      have hinv := h.pmap.unmap hd hva hP
      exact h.pmap.upperSame (h.pmap.unmap_frame hd hva hP) hinv.free fun q hq =>
        (hinv.consistent.free_managed q hq).2
  · exact absurd horphan (h.not_orphan hcur)

/-- In any state that satisfies the kernel's invariant, for any caller and any arguments, a mapping call
stays below `UTOP` unless it is `sys_page_alloc` at `UTOP`. -/
theorem mapCall_staysBelow_iff (h : KernelInv R D l k) (hcur : Live k cur) (call : MapCall) :
    StaysBelow R D k cur call ↔ ¬ AllocAtUTOP k cur call := by
  constructor
  · rintro ⟨r, k', hcode, hr, -⟩ ⟨envid, perm, rfl, henv, hperm, hfree⟩
    obtain ⟨e, he⟩ := Option.ne_none_iff_exists'.mp henv
    obtain ⟨d, hd, hpg, -⟩ := h.pgdirOf (envid2env_live hcur he)
    have ha : PageAllocArgs k cur e envid UTOP perm := ⟨he, by decide, by decide, hperm⟩
    cases l with
    | nil => exact hfree h.pmap.free.head_none
    | cons p l =>
      have hzero := h.sysPageAlloc_UTOP ha hd hpg
      rw [MapCall.exec, hzero] at hcode
      have hr0 : (0 : Int) = r := by
        simp only [Except.ok.injEq, Prod.mk.injEq] at hcode
        exact hcode.1
      have := hr ⟨UTOP, List.mem_singleton.mpr rfl, by decide⟩
      omega
  · intro hno
    cases call with
    | pageAlloc envid va perm => exact h.pageAlloc_staysBelow hcur hno
    | pageMap srcenvid srcva dstenvid dstva perm =>
      exact h.pageMap_staysBelow hcur srcenvid srcva dstenvid dstva perm
    | pageUnmap envid va => exact h.pageUnmap_staysBelow hcur envid va

end

/-- The first environment of `demoSystem` unmaps its stack. -/
theorem mapCall_staysBelow_demoSystem : ∃ s₀ D l k, I386Init demoSystem k ∧
    KernelInv (notFree s₀) D l k ∧
    StaysBelow (notFree s₀) D k 0 (.pageUnmap 0#32 (USTACKTOP - BitVec.ofNat 32 PGSIZE)) := by
  obtain ⟨s₀, D, l, d₀, d₁, k, h⟩ := demoSystem_boots
  have hlive : Live k 0 := ⟨by decide, by rw [h.started.status 0]; decide⟩
  refine ⟨s₀, D, l, k, h.init, h.started.inv,
    (mapCall_staysBelow_iff h.started.inv hlive _).mpr ?_⟩
  rintro ⟨envid, perm, hcall, -⟩
  cases hcall

/-- The first environment of `demoSystem` calls `sys_page_alloc(0, UTOP, PTE_P | PTE_U | PTE_W)`: the call
returns 0, and the page table entry of `UENVS` has changed in the other environment's address space. -/
theorem sysPageAlloc_at_UTOP : ∃ s₀ D l d₁ k k', I386Init demoSystem k ∧
    KernelInv (notFree s₀) D l k ∧ Live k 0 ∧ (k.envs 1).envPgdir = some d₁ ∧
    sysPageAlloc k 0 0#32 UTOP (PTE_P ||| PTE_U ||| PTE_W) = .ok (0, k') ∧
    pteOf k'.pmap d₁ (PGNUM UENVS) ≠ pteOf k.pmap d₁ (PGNUM UENVS) ∧
    ¬ StaysBelow (notFree s₀) D k 0 (.pageAlloc 0#32 UTOP (PTE_P ||| PTE_U ||| PTE_W)) := by
  obtain ⟨s₀, D, l, d₀, d₁, k, h⟩ := demoSystem_boots
  have hinv := h.started.inv
  have hlive : Live k 0 := ⟨by decide, by rw [h.started.status 0]; decide⟩
  have ha : PageAllocArgs k 0 0 0#32 UTOP (PTE_P ||| PTE_U ||| PTE_W) :=
    ⟨rfl, by decide, by decide, by decide⟩
  obtain ⟨p, l, rfl⟩ : ∃ p l', l = p :: l' := by
    cases l with
    | nil => exact absurd h.room (by simp)
    | cons p l => exact ⟨p, l, rfl⟩
  refine ⟨s₀, D, p :: l, d₁, k, _, h.init, hinv, hlive, h.pgdir₁,
    hinv.sysPageAlloc_UTOP ha h.dirs.1 h.pgdir₀, ?_, ?_⟩
  · have hfresh := hinv.pmap.fresh
    obtain ⟨-, -, -, -, -, -, hres, -⟩ := hinv.pmap.uenvs_entry h.dirs.2
    have hp := hinv.pmap.head_managed
    intro hc
    have hnew : pteOf ((k.pmap.fresh p).insertMapped d₀ p UTOP (PTE_P ||| PTE_U ||| PTE_W)) d₁
        (PGNUM UTOP) = mkPte p (PTE_P ||| PTE_U ||| PTE_W) :=
      hfresh.insertMapped_UTOP_pteOf h.dirs.1 h.dirs.2 (by decide)
    have hppn := congrArg ppn (hnew.symm.trans hc)
    rw [ppn_mkPte (hp.1.trans_le hinv.pmap.npages_le') (by decide)] at hppn
    exact hp.2 (hppn ▸ hres)
  · refine fun hc => (mapCall_staysBelow_iff hinv hlive _).mp hc ⟨0#32, _, rfl, nofun, by decide, ?_⟩
    rw [hinv.pmap.free.head_some]
    exact nofun

end Jos
