import Jos.Effects

/-!
# Who may write to a page

What the system calls on pages do to page table entries below `UTOP`: each call leaves all of them alone or
rewrites one, in the address space of an environment that the caller may change or of a receiver. The new entry
is zero, maps a page that was free, or maps a page that is mapped already, and is writable only if that mapping
is (`MemInv.syscall_edit`). So nobody can write to a page that is mapped, but writable nowhere, before it has
been freed (`shareRun_notWritable`).
-/

namespace Jos

open Pmap Kernel Except

variable {R : Set Nat} {D : Finset Nat} {l : List Nat} {k k' : Kernel} {s s' s₁ : Pmap} {c cur e d v : Nat}

/-! ## Edits of page table entries -/

/-- Below `UTOP`, no entry under the directories `D` has changed. -/
def SamePtes (D : Finset Nat) (s s' : Pmap) : Prop := ∀ d ∈ D, ∀ v < NUVPN, pteOf s' d v = pteOf s d v

/-- The entry of page `v` under `d` has become `w`, and no other entry below `UTOP` has changed. -/
def PteSet (D : Finset Nat) (s s' : Pmap) (d v : Nat) (w : Word) : Prop :=
  ∀ d' ∈ D, ∀ v' < NUVPN, pteOf s' d' v' = if d' = d ∧ v' = v then w else pteOf s d' v'

theorem PteSet.of_same (h : SamePtes D s s₁) {w : Word} (hset : PteSet D s₁ s' d v w) :
    PteSet D s s' d v w := by
  intro d' hd' v' hv'
  rw [hset d' hd' v' hv', h d' hd' v' hv']

/-- The new entries that the calls of environment `cur` may write for environment `e`. -/
inductive Edit (k : Kernel) (cur : Nat) (l : List Nat) : Nat → Nat → Word → Prop
  /-- `sys_page_unmap` clears an entry. -/
  | clear {envid : Word} {e v : Nat} : envid2env k cur envid true = some e → Edit k cur l e v 0#32
  /-- `sys_page_alloc` maps a page from the free list. -/
  | fresh {envid perm : Word} {e v p : Nat} : envid2env k cur envid true = some e → p ∈ l →
      permOk perm → Edit k cur l e v (mkPte p perm)
  /-- `sys_page_map` maps a page of an environment that the caller may change. -/
  | share {srcenvid srcva dstenvid perm : Word} {src sd dst v : Nat} :
      envid2env k cur srcenvid true = some src → (k.envs src).envPgdir = some sd →
      envid2env k cur dstenvid true = some dst → srcva < UTOP → Shareable k.pmap sd srcva perm →
      permOk perm → Edit k cur l dst v (mkPte (ppn (pteOf k.pmap sd (PGNUM srcva))) perm)
  /-- `sys_ipc_try_send` maps a page of the caller, at the address the receiver asked for. -/
  | send {srcva perm : Word} {sd e : Nat} : (k.envs cur).envPgdir = some sd →
      (k.envs e).envIpcRecving = true → srcva < UTOP → Shareable k.pmap sd srcva perm →
      permOk perm →
      Edit k cur l e (PGNUM (k.envs e).envIpcDstva) (mkPte (ppn (pteOf k.pmap sd (PGNUM srcva))) perm)

/-- The call has left the entries below `UTOP` alone, or edited one of them. -/
def EditsOne (D : Finset Nat) (l : List Nat) (cur : Nat) (k k' : Kernel) : Prop :=
  SamePtes D k.pmap k'.pmap ∨ ∃ e d v w, Edit k cur l e v w ∧ (k.envs e).envPgdir = some d ∧
    v < NUVPN ∧ PteSet D k.pmap k'.pmap d v w

theorem EditsOne.refl (D : Finset Nat) (l : List Nat) (cur : Nat) (k : Kernel) : EditsOne D l cur k k :=
  Or.inl fun _ _ _ _ => rfl

namespace MemInv

variable {envid va perm srcenvid srcva dstenvid dstva value : Word} {r : Int}

theorem sysPageAlloc_edit (h : MemInv R D l k) (hno : ¬ AllocAtUTOP k cur (.pageAlloc envid va perm))
    (hok : sysPageAlloc k cur envid va perm = .ok (r, k')) : EditsOne D l cur k k' := by
  rcases h.sysPageAlloc_cases hno hok with
    ⟨-, rfl⟩ | ⟨-, p, rfl, rfl⟩ | ⟨e, d, p, l₁, l', s, ha, hpg, hva, rfl, hins, -, -, rfl⟩
  · exact .refl D l cur k'
  · exact Or.inl fun d' hd' v' hv' => h.pmap.clearPage_pteOf (List.mem_cons_self ..) hd' hv'
  · refine Or.inr ⟨e, d, PGNUM va, mkPte p perm, .fresh ha.1 (List.mem_cons_self ..) ha.2.2.2,
      hpg, PGNUM_lt_NUVPN hva, .of_same (fun d' hd' v' hv' => ?_) hins.pte⟩
    exact h.pmap.fresh_pteOf hd' hv'

theorem sysPageMap_edit (h : MemInv R D l k)
    (hok : sysPageMap k cur srcenvid srcva dstenvid dstva perm = .ok (r, k')) :
    EditsOne D l cur k k' := by
  rcases h.sysPageMap_cases cur srcenvid srcva dstenvid dstva perm with
    ⟨r', -, hcode⟩ | ⟨src, dst, sd, dd, s, ha, -, -, hcode, hins, -⟩ | ⟨-, hcode⟩
  · cases hcode.symm.trans hok
    exact .refl D l cur k
  · cases hcode.symm.trans hok
    exact Or.inr ⟨dst, dd, _, _,
      .share ha.srcenv ha.srcdir ha.dstenv ha.src_lt ha.page ha.perm_ok, ha.dstdir,
      PGNUM_lt_NUVPN ha.dst_lt, hins.pte⟩
  · rw [hcode] at hok
    cases hok

theorem sysPageUnmap_edit (h : MemInv R D l k)
    (hok : sysPageUnmap k cur envid va = .ok (r, k')) : EditsOne D l cur k k' := by
  rcases h.sysPageUnmap_cases cur envid va with
    ⟨r', -, hcode⟩ | ⟨e, d, he, hva, -, hd, hpg, ⟨-, hcode⟩ | ⟨hP, hcode⟩⟩ | ⟨-, hcode⟩
  · cases hcode.symm.trans hok
    exact .refl D l cur k
  · cases hcode.symm.trans hok
    exact .refl D l cur k
  · cases hcode.symm.trans hok
    exact Or.inr ⟨e, d, PGNUM va, 0#32, .clear he, hpg, PGNUM_lt_NUVPN hva,
      fun d' hd' v' hv' => h.pmap.unmap_pteOf hd hva hP hd' hv'⟩
  · rw [hcode] at hok
    cases hok

theorem sysIpcTrySend_edit (h : MemInv R D l k)
    (hbelow : ∀ e sd dd, SendPageArgs k cur e envid srcva perm sd dd →
      (k.envs e).envIpcDstva < UTOP)
    (hok : sysIpcTrySend k cur envid value srcva perm = .ok (r, k')) : EditsOne D l cur k k' := by
  rcases h.sysIpcTrySend_cases cur envid value srcva perm with
    ⟨r', -, hcode⟩ | ⟨e, he, hr, ⟨hsrc, hcode⟩ | ⟨sd, hsd, dd, hdd, ha, hins⟩⟩ | ⟨-, hcode⟩
  · cases hcode.symm.trans hok
    exact .refl D l cur k
  · cases hcode.symm.trans hok
    exact Or.inl fun _ _ _ _ => rfl
  · obtain ⟨s, hcode, hins, -⟩ := hins (hbelow e sd dd ha)
    cases hcode.symm.trans hok
    exact Or.inr ⟨e, dd, _, _, .send ha.srcdir hr ha.src_lt ha.page ha.perm_ok, ha.dstdir,
      PGNUM_lt_NUVPN (hbelow e sd dd ha), hins.pte⟩
  · rw [hcode] at hok
    cases hok

/-- Each safe call on pages edits at most one entry, and keeps the invariant. -/
theorem syscall_edit (h : MemInv R D l k) {call : Call} {input : Word}
    (hno : call.syscallno = SYS_page_alloc ∨ call.syscallno = SYS_page_map ∨
      call.syscallno = SYS_page_unmap ∨ call.syscallno = SYS_ipc_try_send)
    (hs : MemSafe k cur call)
    (hok : syscall k c cur input call.syscallno call.a1 call.a2 call.a3 call.a4 call.a5
      = .ok (.ret r k')) :
    EditsOne D l cur k k' ∧ SameDirs k k' ∧ ∃ l', MemInv R D l' k' := by
  have hpmap : PmapStep R D k k' → SameDirs k k' ∧ ∃ l', MemInv R D l' k' := by
    intro hstep
    refine ⟨.of_envs hstep.envs ?_, hstep.memInv h⟩
    rw [hstep.rest]
  rcases hno with hno | hno | hno | hno
  · rw [hno] at hok
    obtain ⟨⟨r', k₁⟩, hcall, hret⟩ := map_eq_ok.mp hok
    cases hret
    exact ⟨h.sysPageAlloc_edit (hs.alloc hno) hcall, hpmap (h.sysPageAlloc_step (hs.alloc hno) hcall)⟩
  · rw [hno] at hok
    obtain ⟨⟨r', k₁⟩, hcall, hret⟩ := map_eq_ok.mp hok
    cases hret
    exact ⟨h.sysPageMap_edit hcall, hpmap (h.sysPageMap_step (hs.map hno) hcall)⟩
  · rw [hno] at hok
    obtain ⟨⟨r', k₁⟩, hcall, hret⟩ := map_eq_ok.mp hok
    cases hret
    exact ⟨h.sysPageUnmap_edit hcall, hpmap (h.sysPageUnmap_step hcall)⟩
  · rw [hno] at hok
    obtain ⟨⟨r', k₁⟩, hcall, hret⟩ := map_eq_ok.mp hok
    cases hret
    refine ⟨h.sysIpcTrySend_edit (hs.below hno) hcall, ?_⟩
    rcases h.sysIpcTrySend_step (hs.below hno) (hs.send hno) hcall with
      rfl | ⟨e, k₁, perm', -, -, -, hstep, rfl⟩
    · exact ⟨.of_envs rfl rfl, l, h⟩
    · have hsame : SameDirs k k₁ := .of_envs hstep.envs (by rw [hstep.rest])
      have hdeliver : SameDirs k₁ (deliver k₁ cur e call.a2 perm') := .setEnv rfl rfl
      obtain ⟨l', hinv⟩ := hstep.memInv h
      exact ⟨hsame.trans hdeliver, l', hinv.congr hdeliver rfl⟩

end MemInv

/-! ## Write permission is not forged -/

/-- The entry maps page `p`. -/
def MapsTo (p : Nat) (pte : Word) : Prop := present pte ∧ ppn pte = p

/-- Page `p` is mapped below `UTOP` in some environment. -/
def Mapped (k : Kernel) (p : Nat) : Prop :=
  ∃ e d v, (k.envs e).envPgdir = some d ∧ v < NUVPN ∧ MapsTo p (pteOf k.pmap d v)

/-- No entry below `UTOP` of any environment that maps page `p` is writable. -/
def NotWritable (k : Kernel) (p : Nat) : Prop :=
  ∀ e d v, (k.envs e).envPgdir = some d → v < NUVPN → MapsTo p (pteOf k.pmap d v) →
    pteOf k.pmap d v &&& PTE_W = 0#32

/-- Runs of calls on pages by any environments, with all addresses below `UTOP` and no `pp_ref` beyond 65535,
in which page `p` is not freed. In between the kernel may do anything that leaves memory and page directories
alone. -/
inductive ShareRun (p : Nat) (k₀ : Kernel) : Kernel → Prop
  | refl : ShareRun p k₀ k₀
  | call {k k' : Kernel} {c cur : Nat} {call : Call} {input : Word} {r : Int} : ShareRun p k₀ k →
      call.syscallno = SYS_page_alloc ∨ call.syscallno = SYS_page_map ∨
        call.syscallno = SYS_page_unmap ∨ call.syscallno = SYS_ipc_try_send →
      MemSafe k cur call →
      syscall k c cur input call.syscallno call.a1 call.a2 call.a3 call.a4 call.a5
        = .ok (.ret r k') →
      ¬ OnFreeList k'.pmap p → ShareRun p k₀ k'
  | other {k k' : Kernel} : ShareRun p k₀ k → SameDirs k k' → k'.pmap = k.pmap → ShareRun p k₀ k'

/-- An edit does not map `p` writable if no entry did, unless `p` was free. -/
theorem Edit.notWritable {p : Nat} {w : Word} (h : MemInv R D l k) (hp : p ∉ l) (hk : NotWritable k p)
    (hedit : Edit k cur l e v w) (hw : MapsTo p w) : w &&& PTE_W = 0#32 := by
  have hn := h.pmap.npages_le
  -- an entry made from a mapping of `p` is as writable as that mapping, which is not
  have hshare : ∀ {src sd : Nat} {srcva perm : Word}, (k.envs src).envPgdir = some sd →
      srcva < UTOP → Shareable k.pmap sd srcva perm → permOk perm →
      MapsTo p (mkPte (ppn (pteOf k.pmap sd (PGNUM srcva))) perm) →
      mkPte (ppn (pteOf k.pmap sd (PGNUM srcva))) perm &&& PTE_W = 0#32 := by
    intro src sd srcva perm hsd hlt hs hperm hw
    have hv := PGNUM_lt_NUVPN hlt
    have hmanaged := (h.pmap.page_managed (h.envs.dir src sd hsd) hv hs.1).1
    have hpage : ppn (pteOf k.pmap sd (PGNUM srcva)) = p := by
      rw [← hw.2, ppn_mkPte (by omega) hperm.toNat_lt]
    have hro := hk src sd _ hsd hv ⟨hs.1, hpage⟩
    rw [mkPte_and_W (by omega)]
    by_contra hW
    exact hs.2 hW hro
  cases hedit with
  | clear => exact absurd hw.1 not_present_zero
  | fresh he hq hperm =>
    have hmanaged := (h.pmap.consistent.free_managed _ hq).1
    rw [MapsTo, ppn_mkPte (by omega) hperm.toNat_lt] at hw
    exact absurd (hw.2 ▸ hq) hp
  | share _ hsd _ hlt hs hperm => exact hshare hsd hlt hs hperm hw
  | send hsd _ hlt hs hperm => exact hshare hsd hlt hs hperm hw

/-- One call. -/
theorem EditsOne.notWritable {p : Nat} (h : MemInv R D l k) (hp : p ∉ l) (hk : NotWritable k p)
    (hdirs : ∀ e, (k'.envs e).envPgdir = (k.envs e).envPgdir) (hedits : EditsOne D l cur k k') :
    NotWritable k' p := by
  intro e d v hd hv hmaps
  rw [hdirs] at hd
  have hD := h.envs.dir e d hd
  rcases hedits with hsame | ⟨e', d', v', w, hedit, hd', hv', hset⟩
  · rw [hsame d hD v hv] at hmaps ⊢
    exact hk e d v hd hv hmaps
  · rw [hset d hD v hv] at hmaps ⊢
    split
    · next heq =>
      rw [if_pos heq] at hmaps
      exact hedit.notWritable h hp hk hmaps
    · next heq =>
      rw [if_neg heq] at hmaps
      exact hk e d v hd hv hmaps

theorem ShareRun.notWritable {p : Nat} {k₀ : Kernel} (h : MemInv R D l k₀) (hp : p ∉ l)
    (hk : NotWritable k₀ p) (hr : ShareRun p k₀ k) :
    NotWritable k p ∧ ∃ l', MemInv R D l' k ∧ p ∉ l' := by
  induction hr with
  | refl => exact ⟨hk, l, h, hp⟩
  | call _ hno hs hok hfree ih =>
    obtain ⟨hkeep, l₁, h₁, hp₁⟩ := ih
    obtain ⟨hedits, hsame, l₂, h₂⟩ := h₁.syscall_edit hno hs hok
    exact ⟨hedits.notWritable h₁ hp₁ hkeep hsame.pgdir, l₂, h₂,
      mt h₂.pmap.free.onFreeList_iff.mpr hfree⟩
  | other _ hsame hpmap ih =>
    obtain ⟨hkeep, l₁, h₁, hp₁⟩ := ih
    refine ⟨fun e d v hd hv hmaps => ?_, l₁, h₁.congr hsame hpmap, hp₁⟩
    rw [hsame.pgdir] at hd
    rw [hpmap] at hmaps ⊢
    exact hkeep e d v hd hv hmaps

/-- A page that is mapped but writable nowhere is writable nowhere until it is freed. -/
theorem shareRun_notWritable {p : Nat} {k₀ : Kernel} (h : MemInv R D l k₀) (hm : Mapped k₀ p)
    (hk : NotWritable k₀ p) (hr : ShareRun p k₀ k) : NotWritable k p := by
  obtain ⟨e, d, v, hd, hv, hmaps⟩ := hm
  have hp : p ∉ l := by
    rw [← hmaps.2]
    exact h.pmap.page_notMem_free (h.envs.dir e d hd) hv hmaps.1
  exact (hr.notWritable h hp hk).1

/-- A page that `sys_page_alloc` has just mapped read-only. -/
theorem NotWritable.fresh {p : Nat} {va perm : Word} (h : MemInv R D (p :: l) k)
    (hperm : perm &&& PTE_W = 0#32) (hs : Inserted R D l (k.pmap.fresh p) d p va perm s) :
    NotWritable { k with pmap := s } p := by
  intro e d' v hd' hv hmaps
  have hD := h.envs.dir e d' hd'
  have hn := h.pmap.npages_le
  have hp := h.pmap.head_managed.1
  have hpte : pteOf s d' v = _ := hs.pte d' hD v hv
  show pteOf s d' v &&& PTE_W = 0#32
  have hmaps' : MapsTo p (pteOf s d' v) := hmaps
  rw [hpte] at hmaps' ⊢
  split
  · rw [mkPte_and_W (by omega), hperm]
  · next hne =>
    rw [if_neg hne] at hmaps'
    refine absurd ?_ (h.pmap.fresh_unnamed (.pte d' v) (h.pmap.fresh.pte_mem hD hv))
    have htarget := PmapInv.target_page (l := l) hD hv hmaps'.1
    rw [hmaps'.2] at htarget
    exact htarget

/-- `sys_page_map(0, 0, 0, PGSIZE, PTE_P | PTE_U | PTE_W)`. -/
def forgeCall : Call := ⟨SYS_page_map, 0#32, 0#32, 0#32, 4096#32, PTE_P ||| PTE_U ||| PTE_W⟩

/-- The first environment of `demoSystem` allocates a read-only page at address 0, and tries to map it
writable at the next address. -/
theorem shareRun_notWritable_demoSystem : ∃ s₀ D l k k₀ p r, I386Init demoSystem k ∧
    sysPageAlloc k 0 0#32 0#32 (PTE_P ||| PTE_U) = .ok (0, k₀) ∧ MemInv (notFree s₀) D l k₀ ∧
    Mapped k₀ p ∧
    syscall k₀ 0 0 0#32 forgeCall.syscallno forgeCall.a1 forgeCall.a2 forgeCall.a3 forgeCall.a4
      forgeCall.a5 = .ok (.ret r k₀) ∧ r < 0 ∧ ShareRun p k₀ k₀ ∧ NotWritable k₀ p := by
  obtain ⟨s₀, D, l, d₀, d₁, k, h⟩ := demoSystem_boots
  have hroom := h.room
  obtain ⟨p, l₁, rfl⟩ : ∃ p l₁, l = p :: l₁ := by
    refine List.exists_cons_of_ne_nil ?_
    rintro rfl
    exact absurd hroom (by decide)
  have hinv := h.started.inv.toMemInv
  have hva : (0#32 : Word) < UTOP := by decide
  have ha : PageAllocArgs k 0 0 0#32 0#32 (PTE_P ||| PTE_U) :=
    ⟨rfl, by decide, by decide, by decide⟩
  rcases hinv.sysPageAlloc_below ha h.dirs.1 h.pgdir₀ hva with ⟨s, l', hcode, hI, hp⟩ | ⟨rfl, -⟩
  · have hk₀ : KernelInv (notFree s₀) D l' { k with pmap := s } := h.started.inv.withPmap hp
    have hro : NotWritable { k with pmap := s } p := .fresh hinv (by decide) hI
    have hv : PGNUM 0#32 < NUVPN := PGNUM_lt_NUVPN hva
    have hmanaged := hinv.pmap.head_managed.1
    have hn := hinv.pmap.npages_le
    have hpte : pteOf s d₀ (PGNUM 0#32) = mkPte p (PTE_P ||| PTE_U) := by
      rw [hI.pte d₀ h.dirs.1 _ hv, if_pos ⟨rfl, rfl⟩]
    have hmaps : MapsTo p (pteOf s d₀ (PGNUM 0#32)) := by
      rw [hpte]
      exact ⟨present_mkPte p _, ppn_mkPte (by omega) (by decide)⟩
    have hrefuse : ∀ src dst sd dd, ¬ PageMapArgs { k with pmap := s } 0 src dst 0#32 0#32 0#32 4096#32
        (PTE_P ||| PTE_U ||| PTE_W) sd dd := by
      intro src dst sd dd hargs
      obtain rfl : 0 = src := Option.some.inj hargs.srcenv
      obtain rfl : d₀ = sd := Option.some.inj (h.pgdir₀.symm.trans hargs.srcdir)
      exact hargs.page.2 (by decide) (hro 0 d₀ _ h.pgdir₀ hv hmaps)
    have hlive : Live { k with pmap := s } 0 := ⟨by decide, by rw [h.started.status 0]; decide⟩
    obtain ⟨r, hr, hcall⟩ := (hk₀.sysPageMap_refused hrefuse).resolve_right
      fun hc => hk₀.not_orphan hlive hc.1
    have hsys : syscall { k with pmap := s } 0 0 0#32 forgeCall.syscallno forgeCall.a1 forgeCall.a2
        forgeCall.a3 forgeCall.a4 forgeCall.a5 = .ok (.ret r { k with pmap := s }) := by
      show Flow.ofRet <$> sysPageMap _ 0 0#32 0#32 0#32 4096#32 (PTE_P ||| PTE_U ||| PTE_W) = _
      rw [hcall]
      rfl
    have hsafe : MemSafe { k with pmap := s } 0 forgeCall := by
      refine ⟨⟨fun _ src dst sd dd hargs => absurd hargs (hrefuse src dst sd dd), ?_⟩, ?_, ?_⟩
      · exact fun hc => absurd hc (by decide)
      · exact fun hc => absurd hc (by decide)
      · exact fun hc => absurd hc (by decide)
    have hfree : ¬ OnFreeList s p := by
      rw [hp.free.onFreeList_iff, ← hmaps.2]
      exact hp.page_notMem_free h.dirs.1 hv hmaps.1
    have hrun : ShareRun p { k with pmap := s } { k with pmap := s } :=
      ShareRun.refl.call (Or.inr (Or.inl rfl)) hsafe hsys hfree
    have hmapped : Mapped { k with pmap := s } p := ⟨0, d₀, _, h.pgdir₀, hv, hmaps⟩
    exact ⟨s₀, D, l', k, _, p, r, h.init, hcode, hk₀.toMemInv, hmapped, hsys, hr, hrun,
      shareRun_notWritable hk₀.toMemInv hmapped hro hrun⟩
  · rw [List.length_singleton] at hroom
    omega

end Jos
