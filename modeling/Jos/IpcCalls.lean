import Jos.MapCalls
import Jos.SchedSpec

/-!
# Page transfer in messages

A receiver says with `dstva` whether it wants a page, and a sender with `srcva` whether it has one.
`sys_ipc_try_send` looks at `srcva` only. When the sender has a page and the receiver asked for none, the
page is mapped all the same, at whatever address the receiver passed, and the receiver is told that it got
one. With `dstva == UTOP` this remaps the shared window on `envs`. The call does what both sides asked for
exactly when this case does not arise (`sysIpcTrySend_transfers_iff`).
-/

namespace Jos

open Pmap Kernel

variable {R : Set Nat} {D : Finset Nat} {l : List Nat} {k k' : Kernel} {c e cur : Nat}
  {envid value srcva dstva perm : Word}

/-! ## Waiting for a message -/

/-- Environment `e` waits in `sys_ipc_recv(dstva)`. -/
structure Blocked (k : Kernel) (e : Nat) (dstva : Word) : Prop where
  recving : (k.envs e).envIpcRecving = true
  addr : (k.envs e).envIpcDstva = dstva
  page_aligned : dstva < UTOP → aligned dstva

/-- The caller of `sys_ipc_recv` before it gives up the CPU. -/
def Kernel.blocks (k : Kernel) (cur : Nat) (dstva : Word) : Kernel :=
  k.setEnv cur { k.envs cur with
    envIpcRecving := true
    envIpcDstva := dstva
    envStatus := .notRunnable }

theorem blocks_envs (i : Nat) : (k.blocks cur dstva).envs i
    = if i = cur then { k.envs cur with
        envIpcRecving := true
        envIpcDstva := dstva
        envStatus := .notRunnable }
      else k.envs i := setEnv_envs k cur _ i

theorem KernelInv.blocks (h : KernelInv R D l k) (hcur : Live k cur) (dstva : Word) :
    KernelInv R D l (k.blocks cur dstva) :=
  h.congr (.setEnv hcur.2 rfl rfl nofun) rfl

theorem sysIpcRecv_eq (hal : dstva < UTOP → aligned dstva) :
    sysIpcRecv k c cur dstva = schedYield (k.blocks cur dstva) c := by
  unfold sysIpcRecv
  rw [if_neg]
  · rfl
  · rintro ⟨hlt, hne⟩
    exact hne (aligned_iff.mp (hal hlt))

theorem sysIpcRecv_refused (hlt : dstva < UTOP) (hal : ¬ aligned dstva) :
    sysIpcRecv k c cur dstva = .ok (.ret (-E_INVAL) k) := by
  unfold sysIpcRecv
  rw [if_pos ⟨hlt, fun hc => hal (aligned_iff.mpr hc)⟩]
  rfl

/-- Whoever gets the CPU next, the caller of `sys_ipc_recv` is left waiting. -/
theorem KernelInv.sysIpcRecv_blocked (h : KernelInv R D l k) (hcur : Live k cur)
    (hc : k.curenv c = some cur) (hleft : sysIpcRecv k c cur dstva = .ok (.left k')) :
    Blocked k' cur dstva := by
  have hal : dstva < UTOP → aligned dstva := by
    intro hlt
    by_contra hal
    rw [sysIpcRecv_refused hlt hal] at hleft
    cases hleft
  rw [sysIpcRecv_eq hal] at hleft
  have hb : Blocked (k.blocks cur dstva) cur dstva := by
    refine ⟨?_, ?_, hal⟩
    · rw [blocks_envs, if_pos rfl]
    · rw [blocks_envs, if_pos rfl]
  have hinv := h.blocks hcur dstva
  have hlt : ∀ e, (k.blocks cur dstva).curenv c = some e → e < NENV := by
    intro e he
    obtain rfl : cur = e := Option.some.inj (hc.symm.trans he)
    exact hcur.1
  rcases hinv.schedYield_cases hlt with ⟨e, -, hy⟩ | ⟨-, -, -, hy⟩ | ⟨-, hy⟩
  · rw [hy] at hleft
    simp only [Except.ok.injEq, Flow.left.injEq] at hleft
    subst hleft
    have hs := runs_sameEnv (k := k.blocks cur dstva) (c := c) (e := e) cur
    exact ⟨hs.recving.trans hb.recving, hs.dstva.trans hb.addr, hal⟩
  · rw [hy] at hleft
    simp only [Except.ok.injEq, Flow.left.injEq] at hleft
    subst hleft
    exact ⟨hb.recving, hb.addr, hal⟩
  · rw [hy] at hleft
    cases hleft

/-! ## Sending -/

theorem deliver_envs (i : Nat) : (deliver k cur e value perm).envs i
    = if i = e then { k.envs e with
        envIpcPerm := perm
        envIpcRecving := false
        envIpcFrom := (k.envs cur).envId
        envIpcValue := value
        envStatus := .runnable
        envTf := { (k.envs e).envTf with
          regs := { (k.envs e).envTf.regs with eax := 0#32 } } }
      else k.envs i := setEnv_envs k e _ i

@[simp] theorem deliver_pmap : (deliver k cur e value perm).pmap = k.pmap := rfl

/-- What a successful send from `cur` to `e` owes to both sides. If both asked for a page, `dstva` maps the
sender's page with `perm`, every other mapping stays, and the receiver finds `perm`. Otherwise no page table
and no count changes, and the receiver finds 0. -/
def Transfers (D : Finset Nat) (k : Kernel) (cur e : Nat) (srcva dstva perm : Word) (k' : Kernel) :
    Prop :=
  if srcva < UTOP ∧ dstva < UTOP then
    (k'.envs e).envIpcPerm = perm ∧
      ∃ sd dd, (k.envs cur).envPgdir = some sd ∧ (k.envs e).envPgdir = some dd ∧
        ∀ d ∈ D, ∀ v < NUVPN, pteOf k'.pmap d v
          = if d = dd ∧ v = PGNUM dstva then mkPte (ppn (pteOf k.pmap sd (PGNUM srcva))) perm
            else pteOf k.pmap d v
  else
    (k'.envs e).envIpcPerm = 0#32 ∧ k'.pmap = k.pmap

theorem permOk.ne_zero (h : permOk perm) : perm ≠ 0#32 := by
  rintro rfl
  exact absurd h.1 (by decide)

/-- A send that went through either carried no page or passed the checks for one. -/
theorem MemInv.sysIpcTrySend_succeeds (h : MemInv R D l k)
    (he : envid2env k cur envid false = some e)
    (hcode : sysIpcTrySend k cur envid value srcva perm = .ok (0, k')) :
    (¬ srcva < UTOP ∧ k' = deliver k cur e value 0#32) ∨
      ∃ sd ∈ D, ∃ dd ∈ D, SendPageArgs k cur e envid srcva perm sd dd := by
  rcases h.sysIpcTrySend_cases cur envid value srcva perm with
    ⟨r, hr, hneg⟩ | ⟨e', he', -, ⟨hsrc, hzero⟩ | ⟨sd, hsd, dd, hdd, ha, -⟩⟩ | ⟨-, hfault⟩
  · rw [hneg] at hcode
    simp only [Except.ok.injEq, Prod.mk.injEq] at hcode
    omega
  · obtain rfl : e' = e := Option.some.inj (he'.symm.trans he)
    rw [hzero] at hcode
    simp only [Except.ok.injEq, Prod.mk.injEq, true_and] at hcode
    exact Or.inl ⟨hsrc, hcode.symm⟩
  · obtain rfl : e' = e := Option.some.inj (he'.symm.trans he)
    exact Or.inr ⟨sd, hsd, dd, hdd, ha⟩
  · rw [hfault] at hcode
    cases hcode

/-- For every receiver that waits with any `dstva`, every sender and all arguments with which the send
succeeds: the transfer is what both sides asked for, unless the sender has a page and the receiver wants
none. -/
theorem sysIpcTrySend_transfers_iff (h : MemInv R D l k)
    (hb : Blocked k e dstva) (he : envid2env k cur envid false = some e)
    (hcode : sysIpcTrySend k cur envid value srcva perm = .ok (0, k')) :
    Transfers D k cur e srcva dstva perm k' ↔ (srcva < UTOP → dstva < UTOP) := by
  unfold Transfers
  rcases h.sysIpcTrySend_succeeds he hcode with ⟨hsrc, rfl⟩ | ⟨sd, hsd, dd, hdd, ha⟩
  · rw [if_neg fun hc => hsrc hc.1, deliver_envs, if_pos rfl]
    exact iff_of_true ⟨rfl, rfl⟩ fun hc => absurd hc hsrc
  · have hsrc := ha.src_lt
    by_cases hdst : dstva < UTOP
    · rw [if_pos ⟨hsrc, hdst⟩]
      refine iff_of_true ?_ fun _ => hdst
      have hdst' : (k.envs e).envIpcDstva < UTOP := by rw [hb.addr]; exact hdst
      rcases h.sysIpcTrySend_below value hsd hdd ha hdst' with
        ⟨s, hzero, hI, -⟩ | ⟨hneg, -⟩
      · rw [hzero] at hcode
        simp only [Except.ok.injEq, Prod.mk.injEq, true_and] at hcode
        subst hcode
        rw [hb.addr] at hI
        refine ⟨?_, sd, dd, ha.srcdir, ha.dstdir, hI.pte⟩
        rw [deliver_envs, if_pos rfl]
      · rw [hneg] at hcode
        simp only [Except.ok.injEq, Prod.mk.injEq] at hcode
        exact absurd hcode.1 (by decide)
    · rw [if_neg fun hc => hdst hc.2]
      -- whatever `page_insert` did up there, the receiver is told about a page
      refine iff_of_false ?_ fun hc => hdst (hc hsrc)
      obtain ⟨s, rfl⟩ := h.sysIpcTrySend_above hsd ha hcode le_rfl
      rintro ⟨hperm, -⟩
      rw [deliver_envs, if_pos rfl] at hperm
      exact ha.perm_ok.ne_zero hperm

/-! ## A run -/

/-- The address of the stack page of a new environment. -/
def STACKVA : Word := USTACKTOP - BitVec.ofNat 32 PGSIZE

/-- `demoSystem` when the first CPU has picked the first environment. -/
structure DemoRunning (R : Set Nat) (D : Finset Nat) (l : List Nat) (d₀ d₁ : Nat) (k₀ k₁ : Kernel) :
    Prop where
  booted : DemoBooted R D l d₀ d₁ k₀
  first : schedYield k₀ 0 = .ok (.left k₁)
  inv : KernelInv R D l k₁
  status : ∀ i, (k₁.envs i).envStatus
    = if i = 0 then .running else if i = 1 then .runnable else .free
  same : ∀ i, SameEnv (k₀.envs i) (k₁.envs i)
  cpus : ∀ c, k₁.cpus c = if c = 0 then { mode := .user, cpuEnv := some 0, cr3 := d₀ } else {}
  pmap : k₁.pmap = k₀.pmap

theorem DemoBooted.running {R : Set Nat} {d₀ d₁ : Nat} {k₀ : Kernel} (h : DemoBooted R D l d₀ d₁ k₀) :
    DemoRunning R D l d₀ d₁ k₀ (k₀.runs 0 0) := by
  have hinv := h.started.inv
  have hst := h.started.status
  have hnone : k₀.curenv 0 = none := by rw [Kernel.curenv, h.started.cpus 0]
  have hstart : schedStart k₀ 0 = 0 := by rw [schedStart, hnone]
  refine ⟨h, hinv.schedYield_start (by decide) hstart (by rw [hst 0]; rfl), ?_, fun i => ?_,
    fun i => runs_sameEnv i, fun c => ?_, rfl⟩
  · refine hinv.runs ⟨by decide, by rw [hst 0]; exact nofun⟩ fun i hi => ?_
    rw [hnone] at hi
    cases hi
  · rw [runs_status, hnone, hst i, if_neg (c := none = some i ∧ _) (fun hc => nomatch hc.1)]
    by_cases hi₀ : i = 0
    · rw [if_pos hi₀, if_pos hi₀]
    · by_cases hi₁ : i = 1
      · rw [if_neg hi₀, if_neg hi₀, if_pos hi₁, if_pos (by omega)]
      · rw [if_neg hi₀, if_neg hi₀, if_neg hi₁, if_neg (by omega)]
  · rw [runs_cpus, h.pgdir₀, Option.getD_some, h.started.cpus c]

theorem demoSystem_runs : ∃ s₀ D l d₀ d₁ k₀ k₁, DemoRunning (notFree s₀) D l d₀ d₁ k₀ k₁ := by
  obtain ⟨s₀, D, l, d₀, d₁, k₀, h⟩ := demoSystem_boots
  exact ⟨s₀, D, l, d₀, d₁, k₀, _, h.running⟩

namespace DemoRunning

variable {d₀ d₁ : Nat} {k₀ k₁ : Kernel} (h : DemoRunning R D l d₀ d₁ k₀ k₁)
include h

theorem curenv : k₁.curenv 0 = some 0 := by rw [Kernel.curenv, h.cpus 0, if_pos rfl]

theorem live₀ : Live k₁ 0 := ⟨by decide, by rw [h.status 0]; exact nofun⟩

theorem pgdir₀ : (k₁.envs 0).envPgdir = some d₀ := (h.same 0).pgdir.trans h.booted.pgdir₀

theorem pgdir₁ : (k₁.envs 1).envPgdir = some d₁ := (h.same 1).pgdir.trans h.booted.pgdir₁

theorem id (e : Nat) (he : e < 2) : (k₁.envs e).envId = nextEnvId 0#32 e :=
  (h.same e).id.trans (h.booted.started.id e he)

end DemoRunning

/-- `demoSystem` after the first environment has called `sys_ipc_recv(dstva)` and the second one runs in
its place. -/
structure DemoWaiting (R : Set Nat) (D : Finset Nat) (l : List Nat) (d₀ d₁ : Nat) (dstva : Word)
    (k₀ k₁ k₂ : Kernel) : Prop where
  booted : DemoBooted R D l d₀ d₁ k₀
  first : schedYield k₀ 0 = .ok (.left k₁)
  recv : sysIpcRecv k₁ 0 0 dstva = .ok (.left k₂)
  inv : KernelInv R D l k₂
  curenv : k₂.curenv 0 = some 1
  live : Live k₂ 1
  blocked : Blocked k₂ 0 dstva
  receiver : envid2env k₂ 1 (nextEnvId 0#32 0) false = some 0
  pgdir₀ : (k₂.envs 0).envPgdir = some d₀
  pgdir₁ : (k₂.envs 1).envPgdir = some d₁
  stack : ∃ q, pteOf k₂.pmap d₁ (PGNUM STACKVA) = mkPte q (PTE_U ||| PTE_W)

theorem demoSystem_waits (dstva : Word) (hal : dstva < UTOP → aligned dstva) :
    ∃ s₀ D l d₀ d₁ k₀ k₁ k₂, DemoWaiting (notFree s₀) D l d₀ d₁ dstva k₀ k₁ k₂ := by
  obtain ⟨s₀, D, l, d₀, d₁, k₀, k₁, h⟩ := demoSystem_runs
  -- the first environment waits, which leaves the second as the only one to run
  have hinv₂ := h.inv.blocks h.live₀ dstva
  have hst₂ : ∀ i, ((k₁.blocks 0 dstva).envs i).envStatus
      = if i = 0 then .notRunnable else if i = 1 then .runnable else .free := by
    intro i
    rw [blocks_envs]
    by_cases hi₀ : i = 0
    · rw [if_pos hi₀, if_pos hi₀]
    · rw [if_neg hi₀, if_neg hi₀, h.status i, if_neg hi₀]
  have hcur₂ : (k₁.blocks 0 dstva).curenv 0 = some 0 := h.curenv
  have hsecond := hinv₂.schedYield_only (c := 0) (e := 1)
    (fun e he => by
      obtain rfl : 0 = e := Option.some.inj (hcur₂.symm.trans he)
      decide)
    (by decide) (by rw [hst₂ 1]; rfl)
    (fun i _ hi => by
      rw [hst₂ i] at hi
      split at hi
      · cases hi
      · split at hi
        · assumption
        · cases hi)
  have hrecv : sysIpcRecv k₁ 0 0 dstva = .ok (.left ((k₁.blocks 0 dstva).runs 0 1)) := by
    rw [sysIpcRecv_eq hal, hsecond]
  have hsame₂ := fun i => runs_sameEnv (k := k₁.blocks 0 dstva) (c := 0) (e := 1) i
  have hpg₂ : ∀ i, (((k₁.blocks 0 dstva).runs 0 1).envs i).envPgdir = (k₁.envs i).envPgdir := by
    intro i
    rw [(hsame₂ i).pgdir, blocks_envs]
    split
    · next hi => rw [hi]
    · rfl
  have hid₂ : (((k₁.blocks 0 dstva).runs 0 1).envs 0).envId = nextEnvId 0#32 0 := by
    rw [(hsame₂ 0).id, blocks_envs, if_pos rfl]
    exact h.id 0 (by decide)
  refine ⟨s₀, D, l, d₀, d₁, k₀, k₁, _, h.booted, h.first, hrecv, ?_, ?_, ?_, ?_, ?_, ?_, ?_, ?_⟩
  · refine hinv₂.runs ⟨by decide, by rw [hst₂ 1]; exact nofun⟩ fun i hi => ?_
    obtain rfl : 0 = i := Option.some.inj (hcur₂.symm.trans hi)
    exact ⟨by decide, by rw [hst₂ 0]; exact nofun⟩
  · rw [Kernel.curenv, runs_cpus, if_pos rfl]
  · exact ⟨by decide, by rw [runs_status, if_pos rfl]; exact nofun⟩
  · exact h.inv.sysIpcRecv_blocked h.live₀ h.curenv hrecv
  · have hx : ENVX (nextEnvId 0#32 0) = 0 := by decide
    have hne : nextEnvId 0#32 0 ≠ 0#32 := by decide
    have hst0 : (((k₁.blocks 0 dstva).runs 0 1).envs 0).envStatus ≠ .free := by
      rw [runs_status, if_neg (by decide)]
      split
      · exact nofun
      · rw [hst₂ 0]
        exact nofun
    unfold envid2env
    rw [if_neg hne]
    simp only [hx]
    rw [if_neg (not_or.mpr ⟨hst0, not_not.mpr hid₂⟩), if_neg fun hc => nomatch hc.1]
  · rw [hpg₂ 0, h.pgdir₀]
  · rw [hpg₂ 1, h.pgdir₁]
  · obtain ⟨q, hq⟩ := h.booted.stack₁
    refine ⟨q, ?_⟩
    show pteOf k₁.pmap d₁ (PGNUM STACKVA) = _
    rw [h.pmap, hq (PGNUM STACKVA) (by decide), if_pos (by rfl)]

section Demo

variable {d₀ d₁ : Nat} {k₀ k₁ k₂ : Kernel}

/-- The second environment may send its stack page. -/
theorem DemoWaiting.sendPageArgs (h : DemoWaiting R D l d₀ d₁ dstva k₀ k₁ k₂) :
    SendPageArgs k₂ 1 0 (nextEnvId 0#32 0) STACKVA (PTE_P ||| PTE_U) d₁ d₀ where
  env := h.receiver
  recving := h.blocked.recving
  src_lt := by decide
  src_aligned := by decide
  perm_ok := by decide
  srcdir := h.pgdir₁
  dstdir := h.pgdir₀
  page := by
    obtain ⟨q, hq⟩ := h.stack
    refine ⟨?_, fun hc => absurd (by decide) hc⟩
    rw [hq]
    exact present_mkPte q _

/-- Both sides ask for a page: the receiver gets the sender's stack in place of its own. -/
theorem sysIpcTrySend_transfers_demoSystem : ∃ s₀ D l d₀ d₁ k₀ k₁ k₂ k₃,
    DemoWaiting (notFree s₀) D l d₀ d₁ STACKVA k₀ k₁ k₂ ∧
    sysIpcTrySend k₂ 1 (nextEnvId 0#32 0) 7#32 STACKVA (PTE_P ||| PTE_U) = .ok (0, k₃) ∧
    Transfers D k₂ 1 0 STACKVA STACKVA (PTE_P ||| PTE_U) k₃ := by
  obtain ⟨s₀, D, l, d₀, d₁, k₀, k₁, k₂, h⟩ := demoSystem_waits STACKVA (by decide)
  have hdst : (k₂.envs 0).envIpcDstva < UTOP := by
    rw [h.blocked.addr]
    decide
  rcases h.inv.sysIpcTrySend_below 7#32 h.booted.dirs.2 h.booted.dirs.1 h.sendPageArgs
    hdst with ⟨s, hcode, -⟩ | ⟨-, rfl⟩
  · exact ⟨s₀, D, l, d₀, d₁, k₀, k₁, k₂, _, h, hcode,
      (sysIpcTrySend_transfers_iff h.inv.toMemInv h.blocked h.receiver hcode).mpr fun _ => by decide⟩
  · exact absurd h.booted.room (by simp)

/-- The first environment of `demoSystem` calls `sys_ipc_recv(UTOP)`, which asks for no page. The second one
sends its stack page: the call returns 0, the page now shows at `UENVS` in the receiver's address space, and
the receiver is told that it got a page. -/
theorem sysIpcTrySend_remaps_UENVS : ∃ s₀ D l d₀ d₁ k₀ k₁ k₂ k₃,
    I386Init demoSystem k₀ ∧ schedYield k₀ 0 = .ok (.left k₁) ∧
    sysIpcRecv k₁ 0 0 UTOP = .ok (.left k₂) ∧ KernelInv (notFree s₀) D l k₂ ∧ Live k₂ 1 ∧
    Blocked k₂ 0 UTOP ∧ envid2env k₂ 1 (nextEnvId 0#32 0) false = some 0 ∧
    sysIpcTrySend k₂ 1 (nextEnvId 0#32 0) 7#32 STACKVA (PTE_P ||| PTE_U) = .ok (0, k₃) ∧
    (k₂.envs 0).envPgdir = some d₀ ∧ (k₂.envs 1).envPgdir = some d₁ ∧
    ppn (pteOf k₃.pmap d₀ (PGNUM UENVS)) = ppn (pteOf k₂.pmap d₁ (PGNUM STACKVA)) ∧
    ¬ Transfers D k₂ 1 0 STACKVA UTOP (PTE_P ||| PTE_U) k₃ := by
  obtain ⟨s₀, D, l, d₀, d₁, k₀, k₁, k₂, h⟩ := demoSystem_waits UTOP
    fun hc => absurd hc (by decide)
  have ha := h.sendPageArgs
  generalize hs : k₂.pmap.insertMapped d₀ (ppn (pteOf k₂.pmap d₁ (PGNUM STACKVA))) UTOP
    (PTE_P ||| PTE_U) = s
  have hcode : sysIpcTrySend k₂ 1 (nextEnvId 0#32 0) 7#32 STACKVA (PTE_P ||| PTE_U)
      = .ok (0, deliver { k₂ with pmap := s } 1 0 7#32 (PTE_P ||| PTE_U)) := by
    subst hs
    rw [h.inv.sysIpcTrySend_page _ h.booted.dirs.2 ha, h.blocked.addr,
      h.inv.pmap.pageInsert_UTOP h.booted.dirs.1]
    rfl
  have hpage := h.inv.pmap.page_managed h.booted.dirs.2 (PGNUM_lt_NUVPN ha.src_lt) ha.page.1
  refine ⟨s₀, D, l, d₀, d₁, k₀, k₁, k₂, _, h.booted.init, h.first, h.recv, h.inv, h.live,
    h.blocked, h.receiver, hcode, h.pgdir₀, h.pgdir₁, ?_, fun hc => ?_⟩
  · have hperm : (PTE_P ||| PTE_U).toNat < 4096 := by decide
    subst hs
    exact (congrArg ppn (h.inv.pmap.insertMapped_UTOP_pteOf h.booted.dirs.1 h.booted.dirs.1 hperm)).trans
      (ppn_mkPte (hpage.1.trans_le h.inv.pmap.npages_le') hperm)
  · have := (sysIpcTrySend_transfers_iff h.inv.toMemInv h.blocked h.receiver hcode).mp hc (by decide)
    exact absurd this (by decide)

end Demo

end Jos
