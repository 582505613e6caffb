import Jos.SysInv
import Jos.KernelMap
import Jos.Windows

/-!
# The window on `envs`

The kernel's page tables lie in memory that boot code reserved. Safe steps write none of it (`SysInv.exec_reserved`),
so in every state that a run of safe steps reaches, `UENVS` shows the frames of the `envs` array to every
environment (`Reach.envsShown`).
-/

namespace Jos

open Pmap Kernel Except

variable {R : Set Nat} {D : Finset Nat} {l : List Nat} {k k' : Kernel} {s s' : Pmap} {c e cur d : Nat} {va : Word}

/-! ## Reserved memory -/

/-- What a part of the kernel that starts in `k` has left of the reserved pages when it stops. -/
def KeepsReserved (R : Set Nat) (k : Kernel) : Flow → Prop :=
  Flow.Sat (fun k' => ReservedSame R k.pmap k'.pmap) fun k' => ReservedSame R k.pmap k'.pmap

theorem KeepsReserved.after {f : Flow} (hk : ReservedSame R k.pmap k'.pmap) (hf : KeepsReserved R k' f) :
    KeepsReserved R k f := by
  cases f with
  | ret r k₁ => exact hk.trans hf
  | left k₁ => exact hk.trans hf
  | monitor k₁ => trivial

theorem schedHalt_reserved {f : Flow} (hf : schedHalt k c = f) : KeepsReserved R k f := by
  rw [← hf]
  unfold schedHalt
  generalize (List.range NENV).any _ = b
  cases b with
  | false => trivial
  | true => exact .refl R k.pmap

theorem envRun_reserved : Post (envRun k c e) (KeepsReserved R k) := by
  intro f hok
  obtain ⟨-, rfl⟩ := envRun_ok hok
  exact .refl R k.pmap

/-- Giving the CPU away does not touch memory. -/
theorem schedYield_reserved : Post (schedYield k c) (KeepsReserved R k) := by
  unfold schedYield
  generalize hf : schedHalt k c = f
  split
  · exact envRun_reserved
  split
  · split
    · exact envRun_reserved
    · exact .ok (schedHalt_reserved hf)
  · exact .ok (schedHalt_reserved hf)

theorem trapReturn_reserved : Post (trapReturn k c) (KeepsReserved R k) := by
  unfold trapReturn
  split
  · split
    · exact envRun_reserved
    · exact schedYield_reserved
  · exact schedYield_reserved

theorem KernelInv.envFree_reserved (h : KernelInv R D l k) (hlive : Live k e) :
    Post (envFree k c e) fun k' => ReservedSame R k.pmap k'.pmap := by
  intro k' hok
  obtain ⟨d, hd, s, l', -, hcode, -, hff⟩ := h.envFree_spec hlive c
  rw [hcode] at hok
  obtain rfl := Except.ok.inj hok
  exact hff.frame.reservedSame

theorem KernelInv.envDestroy_reserved (h : KernelInv R D l k) (hlive : Live k e) :
    Post (envDestroy k c e) (KeepsReserved R k) := by
  have hrec : KernelInv R D l (k.record (.destroy e)) := h.congr (.of_envs rfl rfl) rfl
  unfold envDestroy
  simp only
  split
  · exact .ok (.refl R k.pmap)
  · refine (hrec.envFree_reserved hlive).bind fun k' hk' => ?_
    split
    · exact schedYield_reserved.mono fun f hf => .after hk' hf
    · exact .ok hk'

/-! ## System calls -/

namespace MemInv

variable {r : Int} {envid perm srcenvid srcva dstenvid dstva value : Word}

theorem sysPageAlloc_reserved (h : MemInv R D l k) (hno : ¬ AllocAtUTOP k cur (.pageAlloc envid va perm))
    (hok : sysPageAlloc k cur envid va perm = .ok (r, k')) : ReservedSame R k.pmap k'.pmap := by
  rcases h.sysPageAlloc_cases hno hok with
    ⟨-, rfl⟩ | ⟨-, p, rfl, rfl⟩ | ⟨e, d, p, l₁, l', s, -, -, -, rfl, hins, -, -, rfl⟩
  · exact .refl R _
  · exact (h.pmap.clearPage_frame (List.mem_singleton_self p)).reservedSame
  · exact (h.pmap.fresh_frame.trans hins.frame).reservedSame

theorem sysPageMap_reserved (h : MemInv R D l k)
    (hok : sysPageMap k cur srcenvid srcva dstenvid dstva perm = .ok (r, k')) :
    ReservedSame R k.pmap k'.pmap := by
  rcases h.sysPageMap_cases cur srcenvid srcva dstenvid dstva perm with
    ⟨r', -, hcode⟩ | ⟨src, dst, sd, dd, s, -, -, -, hcode, hins, -⟩ | ⟨-, hcode⟩
  · cases hcode.symm.trans hok
    exact .refl R _
  · cases hcode.symm.trans hok
    exact hins.frame.reservedSame
  · rw [hcode] at hok
    cases hok

theorem sysPageUnmap_reserved (h : MemInv R D l k) (hok : sysPageUnmap k cur envid va = .ok (r, k')) :
    ReservedSame R k.pmap k'.pmap := by
  rcases h.sysPageUnmap_cases cur envid va with
    ⟨r', -, hcode⟩ | ⟨e, d, -, hva, -, hd, -, ⟨-, hcode⟩ | ⟨hP, hcode⟩⟩ | ⟨-, hcode⟩
  · cases hcode.symm.trans hok
    exact .refl R _
  · cases hcode.symm.trans hok
    exact .refl R _
  · cases hcode.symm.trans hok
    exact (h.pmap.unmap_frame hd hva hP).reservedSame
  · rw [hcode] at hok
    cases hok

theorem sysExofork_reserved (h : MemInv R D l k) (hok : sysExofork k cur = .ok (r, k')) :
    ReservedSame R k.pmap k'.pmap := by
  obtain ⟨e, p, l', -, -, -, rfl, rfl, -⟩ := h.sysExofork_step hok
  exact h.pmap.newDir_frame.reservedSame

theorem sysIpcTrySend_reserved (h : MemInv R D l k)
    (hbelow : ∀ e sd dd, SendPageArgs k cur e envid srcva perm sd dd → (k.envs e).envIpcDstva < UTOP)
    (hok : sysIpcTrySend k cur envid value srcva perm = .ok (r, k')) : ReservedSame R k.pmap k'.pmap := by
  rcases h.sysIpcTrySend_cases cur envid value srcva perm with
    ⟨r', -, hcode⟩ | ⟨e, -, -, ⟨-, hcode⟩ | ⟨sd, -, dd, -, ha, hins⟩⟩ | ⟨-, hcode⟩
  · cases hcode.symm.trans hok
    exact .refl R _
  · cases hcode.symm.trans hok
    exact .refl R _
  · obtain ⟨s, hcode, hins, -⟩ := hins (hbelow e sd dd ha)
    cases hcode.symm.trans hok
    exact hins.frame.reservedSame
  · rw [hcode] at hok
    cases hok

end MemInv

theorem sysEnvSetStatus_pmap (envid status : Word) : (sysEnvSetStatus k cur envid status).2.pmap = k.pmap := by
  unfold sysEnvSetStatus
  split
  · rfl
  split
  · rfl
  split
  · rfl
  · rfl

theorem sysEnvSetPgfaultUpcall_pmap (envid func : Word) :
    (sysEnvSetPgfaultUpcall k cur envid func).2.pmap = k.pmap := by
  unfold sysEnvSetPgfaultUpcall
  split
  · rfl
  · rfl

namespace SysInv

theorem sysCputs_reserved (h : SysInv R (some c) k) (hcur : k.curenv c = some cur) (str len : Word) :
    Post (Jos.sysCputs k c cur str len) (KeepsReserved R k) := by
  obtain ⟨D, l, hmem⟩ := h.mem
  refine .bind' fun b _ => ?_
  split
  · exact hmem.envDestroy_reserved (h.live_own hcur)
  refine .bind' fun b _ => ?_
  split
  · exact hmem.envDestroy_reserved (h.live_own hcur)
  · exact .bind' fun _ _ => .ok (.refl R k.pmap)

/-- A safe system call writes no reserved page. -/
theorem syscall_reserved (h : SysInv R (some c) k) (hcur : k.curenv c = some cur) {call : Call}
    (input : Word) (hm : MemSafe k cur call) :
    Post (Jos.syscall k c cur input call.syscallno call.a1 call.a2 call.a3 call.a4 call.a5)
      (KeepsReserved R k) := by
  obtain ⟨D, l, hmem⟩ := h.mem
  have hrefl : ReservedSame R k.pmap k.pmap := .refl R k.pmap
  have hno : ∀ w : Word, call.syscallno.toNat = w.toNat → call.syscallno = w :=
    fun w hw => BitVec.eq_of_toNat_eq hw
  unfold Jos.syscall
  split
  · exact h.sysCputs_reserved hcur _ _
  · exact .ok hrefl
  · exact .ok hrefl
  · unfold Jos.sysEnvDestroy
    split
    · exact .ok hrefl
    · next he => exact hmem.envDestroy_reserved (envid2env_live (h.live_own hcur) he)
  · next hn => exact .map fun x hx => hmem.sysPageAlloc_reserved (hm.alloc (hno SYS_page_alloc hn)) hx
  · exact .map fun x hx => hmem.sysPageMap_reserved hx
  · exact .map fun x hx => hmem.sysPageUnmap_reserved hx
  · exact .map fun x hx => hmem.sysExofork_reserved hx
  · exact .ok (.of_eq (sysEnvSetStatus_pmap _ _))
  · exact .ok (.of_eq (sysEnvSetPgfaultUpcall_pmap _ _))
  · exact schedYield_reserved
  · next hn => exact .map fun x hx => hmem.sysIpcTrySend_reserved (hm.below (hno SYS_ipc_try_send hn)) hx
  · unfold Jos.sysIpcRecv
    split
    · exact .ok hrefl
    · exact schedYield_reserved
  · exact .ok hrefl

/-! ## Traps -/

theorem pageFaultHandler_reserved (h : SysInv R (some c) k) {faultVa : Word} {tf : Trapframe} :
    Post (Jos.pageFaultHandler k c faultVa tf) (KeepsReserved R k) := by
  obtain ⟨D, l, hmem⟩ := h.mem
  unfold Jos.pageFaultHandler
  split
  · exact .error _
  split
  · exact .error _
  · next cur hcur =>
    have hlive := h.live_own hcur
    split
    · refine .bind' fun b _ => ?_
      split
      · exact hmem.envDestroy_reserved hlive
      · refine .bind' fun s hs => ?_
        have hd := hmem.envs.dir cur _ (h.cpus.cr3 c cur hcur)
        have hframe := (hmem.pmap.copyTo_pteOf hd (by rw [utrapframe_length]; exact utfAddr_le tf) hs).2.1
        exact envRun_reserved.mono fun f hf => .after hframe.reservedSame hf
    · exact hmem.envDestroy_reserved hlive

theorem trapBody_reserved (h : SysInv R (some c) k) {faultVa input : Word} {tf : Trapframe}
    (hs : tf.trapno = T_SYSCALL → ∀ cur, k.curenv c = some cur → MemSafe k cur (callOf tf.regs)) :
    Post (Jos.trapBody k c faultVa input tf) (KeepsReserved R k) := by
  have hrefl : ReservedSame R k.pmap k.pmap := .refl R k.pmap
  have hd : Post (Jos.trapDispatch k c faultVa input tf) (KeepsReserved R k) := by
    unfold Jos.trapDispatch
    split
    · exact h.pageFaultHandler_reserved
    split
    · exact .ok trivial
    split
    · next hno =>
      split
      · exact .error _
      · next cur hcur =>
        refine (h.syscall_reserved hcur input (hs hno cur hcur)).bind fun f hf => ?_
        cases f with
        | ret r k₁ => exact .ok hf
        | left k₁ => exact .ok hf
        | monitor k₁ => exact .ok trivial
    split
    · exact .ok hrefl
    split
    · exact schedYield_reserved
    split
    · exact .error _
    split
    · exact .error _
    · next cur hcur =>
      obtain ⟨D, l, hmem⟩ := h.mem
      exact hmem.envDestroy_reserved (h.live_own hcur)
  refine hd.bind fun f hf => ?_
  cases f with
  | ret r k₁ => exact trapReturn_reserved.mono fun f hf' => .after hf hf'
  | left k₁ => exact .ok hf
  | monitor k₁ => exact .ok trivial

theorem trap_reserved (h : SysInv R none k) {gate : Gate} {faultVa input : Word} {tf : Trapframe}
    (hs : tf.trapno = T_SYSCALL → ∀ cur, k.curenv c = some cur → MemSafe k cur (callOf tf.regs))
    (hkern : tf.cs &&& 3#32 ≠ 3#32 → k.curenv c = none) :
    Post (Jos.trap k c gate faultVa input tf) (KeepsReserved R k) := by
  unfold Jos.trap
  split
  · exact .error _
  split
  · split
    · exact .error _
    · next cur hcur =>
      split
      · obtain ⟨D, l, hmem⟩ := h.mem
        refine (hmem.envFree_reserved (h.live hcur)).bind fun k' hk' => ?_
        exact schedYield_reserved.mono fun f hf => .after hk' hf
      · next hdying =>
        have htf := OnlyTf.setEnv k cur tf
        have hown : OwnOk c k := by
          intro e he
          obtain rfl : cur = e := Option.some.inj (hcur.symm.trans he)
          exact ⟨hdying, (h.live hcur).2⟩
        have h₁ := (h.enter hown).onlyTf htf
        refine h₁.trapBody_reserved fun hno cur' hcur' => ?_
        exact htf.memSafe (hs hno cur' hcur')
  · next hcs => exact (h.enter (ownOk_none (hkern hcs))).trapBody_reserved hs

/-- A safe step writes no reserved page. -/
theorem exec_reserved {sys : System} {a : Action} (h : SysInv R none k) (hen : Enabled sys k a)
    (hs : Safe k a) (hx : Jos.exec k a = .ok (.left k')) : ReservedSame R k.pmap k'.pmap := by
  cases a with
  | store c va b =>
    obtain ⟨s, hs⟩ := Option.ne_none_iff_exists'.mp hen.2.2
    have hk' : Except.ok (.left { k with pmap := s }) = (.ok (.left k') : Except Panic Flow) := by
      rw [← hx, Jos.exec, hs]
      rfl
    obtain rfl := Flow.left.inj (Except.ok.inj hk')
    obtain ⟨D, l, hmem⟩ := h.mem
    obtain ⟨e, hcur⟩ := Option.ne_none_iff_exists'.mp ((h.cpus.mode c (by rintro ⟨⟩)).mp hen.2.1)
    have hd := hmem.envs.dir e _ (h.cpus.cr3 c e hcur)
    exact (hmem.pmap.userStore hd hs).2.1.reservedSame
  | trap c gate faultVa input tf =>
    have hcs : tf.cs &&& 3#32 = 3#32 := by
      rw [hen.2.2.2.cs]
      decide
    exact h.trap_reserved (fun hno cur hcur => (hs hno cur hcur).1) (fun hc => absurd hcs hc) _ hx
  | irq c gate trapno =>
    refine h.trap_reserved (fun hsys => absurd hsys hen.2.2.2) (fun _ => h.curenv_none ?_) _ hx
    rw [hen.2.1]
    rintro ⟨⟩
  | start c =>
    have hy : Jos.schedYield k c = .ok (.left k') := hx
    exact schedYield_reserved _ hy

end SysInv

/-! ## The window -/

/-- `PADDR(envs)`, as `mem_init` computes it. -/
def envsPaddr (b : BootInfo) : Word :=
  match memInitPages b with
  | .ok (_, _, envs) => envs
  | .error _ => 0#32

/-- `UENVS` shows the frames of the `envs` array. -/
def EnvsShown (b : BootInfo) (s : Pmap) : Prop :=
  ∀ j < 31, translate s s.kernPgdir (pageAddr (UENVSPN + j)) USER_R = some (PGNUM (envsPaddr b) + j)

/-- The kernel's part of the address space only depends on reserved pages. -/
theorem PmapInv.translate_kern (h : PmapInv R D l s) (hs : ReservedSame R s s') {flags : Word}
    (hf : UserFlags flags) (hva : KernPde (PDX va)) :
    translate s' s'.kernPgdir va flags = translate s s.kernPgdir va flags := by
  simp only [translate, hs.kern, hs.mem _ h.map.kern_res.1]
  by_cases hpde : s.mem s.kernPgdir (PDX va) &&& flags = flags
  · rw [hs.mem _ (h.map.kern_upper _ hva.1 hva.2.1 (hf.entry hpde)).1]
  · rw [if_neg hpde, if_neg hpde]

/-- Every directory has the kernel's part of the address space. -/
theorem PmapInv.translate_upper (h : PmapInv R D l s) (hd : d ∈ D) (flags : Word) (hva : KernPde (PDX va)) :
    translate s d va flags = translate s s.kernPgdir va flags := by
  simp only [translate, h.map.upper d hd _ hva.1 hva.2.1 hva.2.2]

theorem uenvs_kernPde {j : Nat} (hj : j < 31) : KernPde (PDX (pageAddr (UENVSPN + j))) := by
  have hv : UENVSPN + j < 1048576 := by
    unfold UENVSPN
    omega
  rw [PDX_pageAddr hv, kernPde_iff]
  unfold UENVSPN
  omega

theorem PmapInv.envsShown {b : BootInfo} (h : PmapInv R D l s) (hs : ReservedSame R s s') (hw : EnvsShown b s) :
    EnvsShown b s' := by
  intro j hj
  rw [h.translate_kern hs .read (uenvs_kernPde hj)]
  exact hw j hj

/-- `mem_init` maps the array at `UENVS`. -/
theorem Booted.translate_uenvs {ep : Nat} (h : Booted l ep s) {j : Nat} (hj : j < 31) :
    translate s s.kernPgdir (pageAddr (UENVSPN + j)) USER_R = some (ep + j) := by
  have hv : UENVSPN + j < 1048576 := by
    unfold UENVSPN
    omega
  have hkern : KernPde ((UENVSPN + j) / 1024) := by
    rw [← PDX_pageAddr hv]
    exact uenvs_kernPde hj
  have hlt : ep + j < 1048576 := by
    have := (h.envs j hj).1
    have := h.npages_le
    omega
  rw [h.inv.translate_read hv hkern (h.uenvs j (by omega)) (or_readable _), ppn_or_flags _ (by decide),
    ppn_or_flags _ (by decide), ppn_page2pa hlt]

/-- The pages that `mem_init` maps are those it has allocated for the array. -/
theorem MemInit.envs_page {b : BootInfo} {ep : Nat} (h : MemInit b s) (hb : Booted l ep s) :
    PGNUM (envsPaddr b) = ep := by
  obtain ⟨s₁, pages, envs, l', hp, -, -, -, hptes⟩ := h.kernPtes
  have hpaddr : envsPaddr b = envs := by
    unfold envsPaddr
    rw [hp]
  have hlt : ep + 0 < 1048576 := by
    have := (hb.envs 0 (by omega)).1
    have := hb.npages_le
    omega
  have hentry := congrArg ppn ((hb.uenvs 0 (by omega)).symm.trans (hptes.uenvs 0 (by omega)))
  rw [ppn_or_flags _ (by decide), ppn_or_flags _ (by decide), ppn_page2pa hlt, ppn_or_flags _ (by decide),
    ppn_or_flags _ (by decide), ppn_eq, Nat.zero_mul, BitVec.add_zero] at hentry
  rw [hpaddr, PGNUM_eq]
  exact hentry.symm

theorem I386Init.envsShown {sys : System} (h : I386Init sys k) :
    ∃ s₀ D l, Started (notFree s₀) D l k ∧ EnvsShown sys.boot k.pmap := by
  obtain ⟨s, l₀, ep, s₀, l₁, D, l, hmem, hb, hb', hs, hr⟩ := h.booted
  refine ⟨s₀, D, l, hs, hb'.pmapInv.envsShown hr fun j hj => ?_⟩
  rw [hmem.envs_page hb]
  exact hb'.translate_uenvs hj

/-- In a run of safe steps the invariant holds and `UENVS` shows the array. -/
theorem Reach.envsShown {sys : System} (h : Reach sys Safe k) :
    ∃ R, SysInv R none k ∧ EnvsShown sys.boot k.pmap := by
  induction h with
  | @boot k₀ k₁ hinit hy =>
    obtain ⟨s₀, D, l, hs, hw⟩ := hinit.envsShown
    have hnone : k₀.curenv 0 = none := by rw [Kernel.curenv, hs.cpus 0]
    refine ⟨notFree s₀, SysInv.schedYield (hs.sysInv.enter (SysInv.ownOk_none hnone)) _ hy, ?_⟩
    exact hs.inv.pmap.envsShown (schedYield_reserved _ hy) hw
  | step _ hen hP hx ih =>
    obtain ⟨R, hk, hw⟩ := ih
    obtain ⟨D, l, hmem⟩ := hk.mem
    exact ⟨R, hk.exec hen hP hx, hmem.pmap.envsShown (hk.exec_reserved hen hP hx) hw⟩

end Jos
