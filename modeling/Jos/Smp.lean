import Jos.EnvTable
import Jos.SysInv

/-!
# Several CPUs

In every run of safe steps no environment is on two CPUs (`reach_oneCpu`), and destroying an environment is
final and happens once (`reach_destroyFinal`). Both rest on `env_status`: an environment that a CPU has is
`ENV_RUNNING` or `ENV_DYING`, and nothing else is. `sys_env_set_status`, `sys_ipc_try_send` and `env_destroy`
write `env_status` without looking at who has the environment, and runs that use them on an environment of
another CPU break both properties.
-/

namespace Jos

open Pmap Kernel

variable {R : Set Nat} {D : Finset Nat} {l : List Nat} {k k' : Kernel} {c e cur : Nat}

/-! ## No environment on two CPUs -/

/-- An environment may act on its child. -/
theorem envid2env_child {old : Word} (he : e < NENV) (hid : (k.envs e).envId = nextEnvId old e)
    (hst : (k.envs e).envStatus ≠ .free) (hpar : (k.envs e).envParentId = (k.envs cur).envId) :
    envid2env k cur (nextEnvId old e) true = some e := by
  unfold envid2env
  rw [if_neg (nextEnvId_ne_zero old he)]
  simp only [ENVX_nextEnvId old he]
  rw [if_neg (not_or.mpr ⟨hst, not_not.mpr hid⟩), if_neg fun hc => hc.2.2 hpar]

/-! ## Runs that break them -/

/-- What a run of `demoSystem` has to keep track of: the status of environments, the environments of CPUs,
and the identifiers of environments and of their parents. -/
structure Snap (R : Set Nat) (st : Nat → EnvStatus) (cpu : Nat → Option Nat) (id parent : Nat → Word)
    (k : Kernel) : Prop where
  inv : ∃ D l, KernelInv R D l k
  status : ∀ i, (k.envs i).envStatus = st i
  curenv : ∀ c, k.curenv c = cpu c
  mode : ∀ c, (k.cpus c).mode = if cpu c = none then .off else .user
  id : ∀ i, (k.envs i).envId = id i
  parent : ∀ i, (k.envs i).envParentId = parent i
  live : ∀ c i, cpu c = some i → st i ≠ .free

namespace Snap

variable {st st' : Nat → EnvStatus} {cpu cpu' : Nat → Option Nat} {id parent id' parent' : Nat → Word}

theorem user (h : Snap R st cpu id parent k) (hc : cpu c = some cur) : (k.cpus c).mode = .user := by
  rw [h.mode, hc]
  rfl

theorem cast (h : Snap R st cpu id parent k) (hst : ∀ i, st i = st' i) (hcpu : ∀ c, cpu c = cpu' c) :
    Snap R st' cpu' id parent k := by
  obtain rfl : st = st' := funext hst
  obtain rfl : cpu = cpu' := funext hcpu
  exact h

theorem onlyTf (h : Snap R st cpu id parent k) (ht : OnlyTf k k') : Snap R st cpu id parent k' := by
  obtain ⟨D, l, hinv⟩ := h.inv
  refine ⟨⟨D, l, hinv.congr ⟨ht.sameDirs, fun e => by rw [ht.status]⟩ ht.pmap⟩, fun i => ?_,
    fun c => ?_, fun c => ?_, fun i => ?_, fun i => ?_, h.live⟩
  · rw [ht.status]
    exact h.status i
  · rw [Kernel.curenv, ht.cpus]
    exact h.curenv c
  · rw [ht.cpus]
    exact h.mode c
  · obtain ⟨tf, htf⟩ := ht.envs i
    rw [htf]
    exact h.id i
  · obtain ⟨tf, htf⟩ := ht.envs i
    rw [htf]
    exact h.parent i

theorem record (h : Snap R st cpu id parent k) (ev : Event) : Snap R st cpu id parent (k.record ev) :=
  ⟨h.inv.imp fun _ h => h.imp fun _ h => h.congr (.of_envs rfl rfl) rfl, h.status, h.curenv, h.mode, h.id,
    h.parent, h.live⟩

/-- An environment gets another status. -/
theorem setEnv (h : Snap R st cpu id parent k) (env : Env) (hst : st e ≠ .free)
    (hlink : env.envLink = (k.envs e).envLink) (hpg : env.envPgdir = (k.envs e).envPgdir)
    (hid : env.envId = (k.envs e).envId) (hpar : env.envParentId = (k.envs e).envParentId)
    (hnew : env.envStatus ≠ .free) :
    Snap R (Function.update st e env.envStatus) cpu id parent (k.setEnv e env) := by
  obtain ⟨D, l, hinv⟩ := h.inv
  refine ⟨⟨D, l, hinv.congr (.setEnv (by rw [h.status]; exact hst) hlink hpg hnew) rfl⟩,
    fun i => ?_, h.curenv, h.mode, fun i => ?_, fun i => ?_, fun c i hc => ?_⟩
  · rw [setEnv_envs, Function.update_apply]
    split
    · rfl
    · exact h.status i
  · rw [setEnv_envs]
    split
    · next hi => rw [hid, ← hi, h.id]
    · exact h.id i
  · rw [setEnv_envs]
    split
    · next hi => rw [hpar, ← hi, h.parent]
    · exact h.parent i
  · rw [Function.update_apply]
    split
    · exact hnew
    · exact h.live c i hc

theorem setStatus (h : Snap R st cpu id parent k) (hst : st e ≠ .free)
    (new : EnvStatus) (hnew : new ≠ .free) :
    Snap R (Function.update st e new) cpu id parent (k.setStatus e new) :=
  h.setEnv { k.envs e with envStatus := new } hst rfl rfl rfl rfl hnew

theorem blocks (h : Snap R st cpu id parent k) (hst : st cur ≠ .free) (dstva : Word) :
    Snap R (Function.update st cur .notRunnable) cpu id parent (k.blocks cur dstva) :=
  h.setEnv { k.envs cur with
    envIpcRecving := true
    envIpcDstva := dstva
    envStatus := .notRunnable } hst rfl rfl rfl rfl nofun

/-- A CPU goes to user mode. -/
theorem runs (h : Snap R st cpu id parent k) (hlt : e < NENV) (hst : st e ≠ .free) :
    Snap R (fun i => if i = e then .running
        else if cpu c = some i ∧ st i = .running then .runnable else st i)
      (Function.update cpu c (some e)) id parent (k.runs c e) := by
  obtain ⟨D, l, hinv⟩ := h.inv
  have hlive : ∀ i, i < NENV → st i ≠ .free → Live k i := fun i hi hs => ⟨hi, by rw [h.status]; exact hs⟩
  refine ⟨⟨D, l, hinv.runs (hlive e hlt hst) fun i hi => ?_⟩, fun i => ?_, fun c' => ?_,
    fun c' => ?_, fun i => (runs_sameEnv i).id.trans (h.id i),
    fun i => (runs_sameEnv i).parent.trans (h.parent i), fun c' i hi => ?_⟩
  · have hs := h.live c i (by rw [← h.curenv]; exact hi)
    obtain ⟨d, hd⟩ := Option.ne_none_iff_exists'.mp fun hc => hs (by
      rw [← h.status]
      exact (hinv.life i).mpr hc)
    exact hlive i (hinv.envs.lt i d hd) hs
  · simp only [runs_status, h.curenv, h.status]
  · rw [Kernel.curenv, runs_cpus, Function.update_apply]
    split
    · rfl
    · exact h.curenv c'
  · rw [runs_cpus, Function.update_apply]
    split
    · rfl
    · exact h.mode c'
  · rw [Function.update_apply] at hi
    split
    · rintro ⟨⟩
    · next hie =>
      split
      · rintro ⟨⟩
      · split at hi
        · exact absurd (Option.some.inj hi).symm hie
        · exact h.live c' i hi

/-- With a free slot and a free page, `sys_exofork` makes an environment. -/
theorem fork (h : Snap R st cpu id parent k) (hinv : KernelInv R D l k) (hl : l ≠ [])
    (hfree : ∃ i < NENV, st i = .free) (cur : Nat) :
    ∃ e < NENV, st e = .free ∧ ∃ r k', sysExofork k cur = .ok (r, k') ∧
      Snap R (Function.update st e .notRunnable) cpu (Function.update id e (nextEnvId (id e) e))
        (Function.update parent e (id cur)) k' ∧
      ∃ D' p l', l = p :: l' ∧ KernelInv R D' l' k' := by
  rcases hinv.envAlloc_cases (k.envs cur).envId with
    ⟨e, p, l', -, hlt, hst, hlist, hcode, hinv'⟩ | ⟨hno, -⟩
  · have hste : st e = .free := by rw [← h.status, hst]
    have hfork : sysExofork k cur
        = .ok (((k.forks cur e p).envs e).envId.toInt, k.forks cur e p) := by
      unfold sysExofork
      simp only [hcode, Except.ok_bind, Except.pure_eq]
      rfl
    have hinv'' : KernelInv R (insert p D) l' (k.forks cur e p) := by
      refine hinv'.congr (.setEnv ?_ rfl rfl nofun) rfl
      rw [newEnv_envs_self]
      exact nofun
    refine ⟨e, hlt, hste, _, _, hfork, ⟨⟨_, l', hinv''⟩, fun i => ?_, h.curenv, h.mode, fun i => ?_,
      fun i => ?_, fun c i hc => ?_⟩, insert p D, p, l', hlist, hinv''⟩
    · unfold Kernel.forks
      rw [setEnv_envs, Function.update_apply]
      split
      · rfl
      · next hi =>
        rw [newEnv_envs_of_ne hi]
        exact h.status i
    · unfold Kernel.forks
      rw [setEnv_envs, Function.update_apply]
      split
      · rw [newEnv_envs_self, ← h.id]
      · next hi =>
        rw [newEnv_envs_of_ne hi]
        exact h.id i
    · unfold Kernel.forks
      rw [setEnv_envs, Function.update_apply]
      split
      · rw [newEnv_envs_self, ← h.id]
      · next hi =>
        rw [newEnv_envs_of_ne hi]
        exact h.parent i
    · rw [Function.update_apply]
      split
      · exact nofun
      · exact h.live c i hc
  · exfalso
    rcases hno with hno | hno
    · obtain ⟨i, hi, hst⟩ := hfree
      obtain ⟨fl, hfl, hmem⟩ := hinv.envs.list
      have hin : i ∈ fl := (hmem i).mpr ⟨hi, (hinv.life i).mp (by rw [h.status, hst])⟩
      rw [hno] at hfl
      cases fl with
      | nil => cases hin
      | cons a fl => exact absurd hfl.1 nofun
    · exact hl hno

/-- A CPU that has been started takes the only environment that can run. -/
theorem start (h : Snap R st cpu id parent k) (hc : c < 2) (hcur : cpu c = none) (he : e < NENV)
    (hst : st e = .runnable) (honly : ∀ i, st i = .runnable → i = e) :
    Enabled demoSystem k (.start c) ∧ exec k (.start c) = .ok (.left (k.runs c e)) ∧
      Snap R (fun i => if i = e then .running
          else if cpu c = some i ∧ st i = .running then .runnable else st i)
        (Function.update cpu c (some e)) id parent (k.runs c e) := by
  obtain ⟨D, l, hinv⟩ := h.inv
  have hy : schedYield k c = .ok (.left (k.runs c e)) := by
    refine hinv.schedYield_only ?_ he ((h.status e).trans hst) fun i _ hi => ?_
    · intro i hi
      rw [h.curenv, hcur] at hi
      cases hi
    · exact honly i ((h.status i).symm.trans hi)
  have hoff : (k.cpus c).mode = .off := by
    rw [h.mode, hcur]
    rfl
  exact ⟨⟨hc, hoff⟩, hy, h.runs he (by rw [hst]; exact nofun)⟩

/-- A system call that returns to its caller. -/
theorem exec_ret {r : Int} {k₁ : Kernel} (h : Snap R st cpu id parent k) (call : Call)
    (hcur : cpu c = some cur) (hst : st cur ≠ .dying) (hlt : cur < NENV)
    (hcall : syscallOf (k.setEnv cur { k.envs cur with envTf := callFrame call }) c cur 0#32
      (callFrame call).regs = .ok (.ret r k₁))
    (h₁ : Snap R st' cpu id' parent' k₁) (hst' : st' cur = .running) :
    exec k (callAction c call) = .ok (.left ((setEax k₁ cur r).runs c cur)) ∧
      Snap R st' cpu id' parent' ((setEax k₁ cur r).runs c cur) := by
  obtain ⟨D, l, hinv⟩ := h₁.inv
  obtain ⟨d, -, hpg⟩ := hinv.pgdir (e := cur) ⟨hlt, by rw [h₁.status, hst']; exact nofun⟩
  refine ⟨trap_syscall_ret rfl rfl rfl ((h.curenv c).trans hcur) (by rw [h.status]; exact hst) hcall
    ((h₁.curenv c).trans hcur) ((h₁.status cur).trans hst') hpg, ?_⟩
  have hrun := (h₁.onlyTf (.setEax k₁ cur r)).runs (c := c) hlt (by rw [hst']; exact nofun)
  refine hrun.cast (fun i => ?_) fun c' => ?_
  · by_cases hi : i = cur
    · rw [if_pos hi, hi, hst']
    · rw [if_neg hi, if_neg fun hci => hi (Option.some.inj (hci.1.symm.trans hcur))]
  · rw [← hcur, Function.update_eq_self]

theorem call_ret {r : Int} {k₁ : Kernel}
    (h : Snap R st cpu id parent k) (call : Call) (hreach : Reach demoSystem (fun _ _ => True) k)
    (hc : c < 2) (hcur : cpu c = some cur) (hst : st cur ≠ .dying) (hlt : cur < NENV)
    (hcall : syscallOf (k.setEnv cur { k.envs cur with envTf := callFrame call }) c cur 0#32
      (callFrame call).regs = .ok (.ret r k₁))
    (h₁ : Snap R st' cpu id' parent' k₁) (hst' : st' cur = .running) :
    Reach demoSystem (fun _ _ => True) ((setEax k₁ cur r).runs c cur) ∧
      Snap R st' cpu id' parent' ((setEax k₁ cur r).runs c cur) := by
  obtain ⟨hx, hsnap⟩ := h.exec_ret call hcur hst hlt hcall h₁ hst'
  exact ⟨hreach.step (callAction_enabled _ hc (h.user hcur)) trivial hx, hsnap⟩

/-- A system call that gives the CPU to the only environment that can run. -/
theorem call_yield {k₁ : Kernel}
    (h : Snap R st cpu id parent k) (call : Call) (hreach : Reach demoSystem (fun _ _ => True) k)
    (hc : c < 2) (hcur : cpu c = some cur) (hst : st cur ≠ .dying) (hlt : cur < NENV)
    (hcall : syscallOf (k.setEnv cur { k.envs cur with envTf := callFrame call }) c cur 0#32
      (callFrame call).regs = schedYield k₁ c)
    (h₁ : Snap R st' cpu id' parent' k₁) (he : e < NENV) (hst' : st' e = .runnable)
    (honly : ∀ i, st' i = .runnable → i = e) :
    Reach demoSystem (fun _ _ => True) (k₁.runs c e) ∧
      Snap R (fun i => if i = e then .running
          else if cpu c = some i ∧ st' i = .running then .runnable else st' i)
        (Function.update cpu c (some e)) id' parent' (k₁.runs c e) := by
  obtain ⟨D, l, hinv⟩ := h₁.inv
  have hy : schedYield k₁ c = .ok (.left (k₁.runs c e)) := by
    refine hinv.schedYield_only ?_ he ((h₁.status e).trans hst') fun i _ hi => ?_
    · intro i hi
      rw [h₁.curenv, hcur] at hi
      exact Option.some.inj hi ▸ hlt
    · exact honly i ((h₁.status i).symm.trans hi)
  have hx : exec k (callAction c call) = .ok (.left (k₁.runs c e)) :=
    trap_syscall_left rfl rfl rfl ((h.curenv c).trans hcur) (by rw [h.status]; exact hst)
      (hcall.trans hy)
  exact ⟨hreach.step (callAction_enabled _ hc (h.user hcur)) trivial hx,
    h₁.runs he (by rw [hst']; exact nofun)⟩

/-- The first environment finds its child. -/
theorem child {old : Word} (h : Snap R st cpu id parent k) (he : e < NENV)
    (hid : id e = nextEnvId old e) (hpar : parent e = id cur) (hst : st e ≠ .free) :
    envid2env k cur (id e) true = some e := by
  rw [hid]
  refine envid2env_child he ((h.id e).trans hid) ?_ ?_
  · rw [h.status]
    exact hst
  · rw [h.parent, h.id, hpar]

/-- `sys_env_set_status(child, ENV_RUNNABLE)`. -/
theorem callSetStatus {old : Word} (h : Snap R st cpu id parent k)
    (hreach : Reach demoSystem (fun _ _ => True) k) (hc : c < 2) (hcur : cpu c = some cur)
    (hlt : cur < NENV) (hst : st cur = .running) (hne : e ≠ cur) (he : e < NENV)
    (hid : id e = nextEnvId old e) (hpar : parent e = id cur) (hste : st e ≠ .free) :
    ∃ k', Reach demoSystem (fun _ _ => True) k' ∧ k'.pmap = k.pmap ∧
      Snap R (Function.update st e .runnable) cpu id parent k' := by
  have h₀ := h.onlyTf (.setEnv k cur (callFrame
    ⟨SYS_env_set_status, id e, ENV_RUNNABLE, 0#32, 0#32, 0#32⟩))
  have hchild := h₀.child he hid hpar hste
  generalize hk₀ : k.setEnv cur { k.envs cur with
    envTf := callFrame ⟨SYS_env_set_status, id e, ENV_RUNNABLE, 0#32, 0#32, 0#32⟩ } = k₀ at h₀ hchild
  have hcall : syscallOf k₀ c cur 0#32
      (callFrame ⟨SYS_env_set_status, id e, ENV_RUNNABLE, 0#32, 0#32, 0#32⟩).regs
      = .ok (.ret 0 (k₀.setStatus e .runnable)) := by
    show (Except.ok (Flow.ofRet (sysEnvSetStatus k₀ cur (id e) ENV_RUNNABLE)) : Except Panic Flow) = _
    unfold sysEnvSetStatus
    rw [hchild]
    rfl
  have hrun : Function.update st e .runnable cur = .running := by
    rw [Function.update_of_ne hne.symm]
    exact hst
  obtain ⟨hr, hs⟩ := h.call_ret ⟨SYS_env_set_status, id e, ENV_RUNNABLE, 0#32, 0#32, 0#32⟩ hreach hc hcur
    (by rw [hst]; exact nofun) hlt (by rw [hk₀]; exact hcall) (h₀.setStatus hste .runnable nofun) hrun
  exact ⟨_, hr, by subst hk₀; rfl, hs⟩

/-- `sys_ipc_recv(UTOP)`, which leaves one environment that can run. -/
theorem callRecv (h : Snap R st cpu id parent k) (hreach : Reach demoSystem (fun _ _ => True) k)
    (hc : c < 2) (hcur : cpu c = some cur) (hst : st cur = .running) (hlt : cur < NENV) (he : e < NENV)
    (hste : Function.update st cur .notRunnable e = .runnable)
    (honly : ∀ i, Function.update st cur .notRunnable i = .runnable → i = e) :
    ∃ k', Reach demoSystem (fun _ _ => True) k' ∧ k'.pmap = k.pmap ∧
      (k'.envs e).envPgdir = some (k'.cpus c).cr3 ∧
      Snap R (fun i => if i = e then .running else Function.update st cur .notRunnable i)
        (Function.update cpu c (some e)) id parent k' := by
  have h₀ := h.onlyTf (.setEnv k cur (callFrame ⟨SYS_ipc_recv, UTOP, 0#32, 0#32, 0#32, 0#32⟩))
  have h₁ := h₀.blocks (by rw [hst]; exact nofun) UTOP
  generalize hk₀ : k.setEnv cur { k.envs cur with
    envTf := callFrame ⟨SYS_ipc_recv, UTOP, 0#32, 0#32, 0#32, 0#32⟩ } = k₀ at h₁
  obtain ⟨hr, hs⟩ := h.call_yield ⟨SYS_ipc_recv, UTOP, 0#32, 0#32, 0#32, 0#32⟩ hreach hc hcur
    (by rw [hst]; exact nofun) hlt
    (by
      rw [hk₀]
      show sysIpcRecv k₀ c cur UTOP = _
      exact sysIpcRecv_eq fun hc => absurd hc (by decide))
    h₁ he hste honly
  obtain ⟨D, l, hinv⟩ := hs.inv
  obtain ⟨d, -, hpg⟩ := hinv.pgdir (e := e) ⟨he, by rw [hs.status, if_pos rfl]; exact nofun⟩
  refine ⟨_, hr, by subst hk₀; rfl, ?_, hs.cast (fun i => ?_) fun _ => rfl⟩
  · rw [hpg, runs_cpus, if_pos rfl]
    rw [(runs_sameEnv e).pgdir] at hpg
    rw [hpg]
    rfl
  by_cases hi : i = e
  · rw [if_pos hi, if_pos hi]
  · rw [if_neg hi, if_neg hi, if_neg]
    rintro ⟨hci, hrun⟩
    obtain rfl := Option.some.inj (hci.symm.trans hcur)
    rw [Function.update_self] at hrun
    cases hrun

end Snap

/-- The status of the first two environments and of environment `e`; the rest is free. -/
def statuses (s₀ s₁ s₂ : EnvStatus) (e i : Nat) : EnvStatus :=
  if i = 0 then s₀ else if i = 1 then s₁ else if i = e then s₂ else .free

/-- The environments of the first two CPUs. -/
def cpuEnvs (x y : Option Nat) (c : Nat) : Option Nat := if c = 0 then x else if c = 1 then y else none

theorem statuses_two {s₀ s₁ s₂ : EnvStatus} (he : 2 ≤ e) : statuses s₀ s₁ s₂ e e = s₂ := by
  unfold statuses
  rw [if_neg (by omega), if_neg (by omega), if_pos rfl]

theorem DemoRunning.snap {d₀ d₁ : Nat} {k₀ : Kernel} (h : DemoRunning R D l d₀ d₁ k₀ k) (e : Nat) :
    Snap R (statuses .running .runnable .free e) (cpuEnvs (some 0) none)
      (fun i => (k.envs i).envId) (fun i => (k.envs i).envParentId) k := by
  have hcpu : ∀ c, k.curenv c = cpuEnvs (some 0) none c := by
    intro c
    rw [Kernel.curenv, h.cpus c]
    unfold cpuEnvs
    split
    · rfl
    · split <;> rfl
  refine ⟨⟨D, l, h.inv⟩, fun i => ?_, hcpu, fun c => ?_, fun _ => rfl, fun _ => rfl, fun c i hc => ?_⟩
  · rw [h.status i, statuses, ite_self]
  · rw [h.cpus c]
    unfold cpuEnvs
    split
    · rfl
    · split <;> rfl
  · unfold cpuEnvs at hc
    split at hc
    · obtain rfl := Option.some.inj hc
      rintro ⟨⟩
    · split at hc <;> cases hc

/-- The second CPU takes the second environment. -/
theorem Snap.startSecond {st₂ : EnvStatus} {id parent : Nat → Word}
    (h : Snap R (statuses .running .runnable st₂ e) (cpuEnvs (some 0) none) id parent k)
    (hst : st₂ ≠ .runnable) :
    ∃ k', Enabled demoSystem k (.start 1) ∧ exec k (.start 1) = .ok (.left k') ∧ k'.pmap = k.pmap ∧
      Snap R (statuses .running .running st₂ e) (cpuEnvs (some 0) (some 1)) id parent k' := by
  have honly : ∀ i, statuses .running .runnable st₂ e i = .runnable → i = 1 := by
    intro i hi
    unfold statuses at hi
    split at hi
    · cases hi
    · split at hi
      · assumption
      · split at hi
        · exact absurd hi hst
        · cases hi
  obtain ⟨hen, hx, hs⟩ := h.start (c := 1) (by decide) rfl (by decide) rfl honly
  refine ⟨_, hen, hx, rfl, hs.cast (fun i => ?_) fun c => ?_⟩
  · unfold statuses
    by_cases hi : i = 1
    · rw [if_pos hi, if_neg (by omega), if_pos hi]
    · simp only [if_neg hi]
      exact if_neg fun hc => nomatch hc.1
  · rw [Function.update_apply]
    unfold cpuEnvs
    by_cases hc : c = 1
    · rw [if_pos hc, if_neg (by omega), if_pos hc]
    · rw [if_neg hc, if_neg hc, if_neg hc]

theorem update_statuses {s₀ s₁ s₂ new : EnvStatus} (he : 2 ≤ e) (i : Nat) :
    Function.update (statuses s₀ s₁ s₂ e) e new i = statuses s₀ s₁ new e i := by
  rw [Function.update_apply]
  by_cases hi : i = e
  · rw [if_pos hi, hi, statuses_two he]
  · rw [if_neg hi]
    unfold statuses
    simp only [if_neg hi]

theorem update_statuses_one {s₀ s₁ s₂ new : EnvStatus} :
    Function.update (statuses s₀ s₁ s₂ e) 1 new = statuses s₀ new s₂ e := by
  funext i
  rw [Function.update_apply]
  unfold statuses
  by_cases hi : i = 1
  · rw [if_pos hi, if_neg (by omega), if_pos hi]
  · simp only [if_neg hi]

/-- Only the child can run. -/
theorem statuses_child {s₀ s₁ s₂ : EnvStatus} {i : Nat} (hi : statuses s₀ s₁ s₂ e i = .runnable)
    (h₀ : s₀ ≠ .runnable) (h₁ : s₁ ≠ .runnable) : i = e := by
  unfold statuses at hi
  split at hi
  · exact absurd hi h₀
  · split at hi
    · exact absurd hi h₁
    · split at hi
      · assumption
      · cases hi

/-- The first environment of `demoSystem` has forked a child and made it runnable; the second CPU runs it,
as the second environment waits for a message. -/
theorem demoSystem_childRuns : ∃ R e old id parent k, e < NENV ∧ 2 ≤ e ∧ id e = nextEnvId old e ∧
    parent e = id 0 ∧ Reach demoSystem (fun _ _ => True) k ∧
    Snap R (statuses .running .notRunnable .running e) (cpuEnvs (some 0) (some e)) id parent k ∧
    (k.envs e).envPgdir = some (k.cpus 1).cr3 ∧ ∃ D p q l, KernelInv R D (p :: q :: l) k := by
  obtain ⟨s₀, D, l, d₀, d₁, k₀, k₁, h⟩ := demoSystem_runs
  have hl : l ≠ [] := by
    rintro rfl
    exact absurd h.booted.room (by decide)
  -- the first environment forks
  have htf := OnlyTf.setEnv k₁ 0 (callFrame ⟨SYS_exofork, 0#32, 0#32, 0#32, 0#32, 0#32⟩)
  have hinv := h.inv.congr ⟨htf.sameDirs, fun e => by rw [htf.status]⟩ htf.pmap
  obtain ⟨e, he, hfree, r, k₂, hcode, h₂, D', p, l', hl', hinv₂⟩ := ((h.snap 2).onlyTf htf).fork hinv hl
    ⟨2, by decide, rfl⟩ 0
  have he₂ : 2 ≤ e := by
    by_contra hlt
    rcases (by omega : e = 0 ∨ e = 1) with rfl | rfl
    · cases hfree
    · cases hfree
  have hupd : ∀ i, Function.update (statuses .running .runnable .free 2) e .notRunnable i
      = statuses .running .runnable .notRunnable e i := by
    intro i
    have hsame : statuses .running .runnable .free 2 = statuses .running .runnable .free e := by
      funext i
      unfold statuses
      simp only [ite_self]
    rw [hsame, update_statuses he₂]
  obtain ⟨hr₂, h₂'⟩ := (h.snap 2).call_ret (c := 0) ⟨SYS_exofork, 0#32, 0#32, 0#32, 0#32, 0#32⟩
    (.boot h.booted.init h.first) (by decide) rfl nofun (by decide)
    (by exact congrArg (Functor.map Flow.ofRet) hcode) (h₂.cast hupd fun _ => rfl) rfl
  have hid : Function.update (fun i => (k₁.envs i).envId) e (nextEnvId (k₁.envs e).envId e) e
      = nextEnvId (k₁.envs e).envId e := Function.update_self ..
  have hpar : Function.update (fun i => (k₁.envs i).envParentId) e (k₁.envs 0).envId e
      = Function.update (fun i => (k₁.envs i).envId) e (nextEnvId (k₁.envs e).envId e) 0 := by
    rw [Function.update_self, Function.update_of_ne (by omega)]
  generalize Function.update (fun i => (k₁.envs i).envId) e (nextEnvId (k₁.envs e).envId e) = id at *
  generalize Function.update (fun i => (k₁.envs i).envParentId) e (k₁.envs 0).envId = parent at *
  -- the second CPU runs the second environment
  obtain ⟨k₃, hen, hx, hp₃, h₃⟩ := h₂'.startSecond nofun
  have hr₃ := hr₂.step hen trivial hx
  -- the child becomes runnable
  obtain ⟨k₄, hr₄, hp₄, h₄⟩ := h₃.callSetStatus (c := 0) hr₃ (by decide) rfl (by decide) rfl (by omega) he
    hid hpar (by rw [statuses_two he₂]; exact nofun)
  replace h₄ := h₄.cast (update_statuses he₂) fun _ => rfl
  -- the second environment waits, which leaves the child to run
  obtain ⟨k₅, hr₅, hp₅, hcr3, h₅⟩ := h₄.callRecv (c := 1) hr₄ (by decide) rfl rfl (by decide) he
    (by rw [update_statuses_one, statuses_two he₂])
    (fun i hi => by
      rw [update_statuses_one] at hi
      exact statuses_child hi nofun nofun)
  -- the free list is what the fork has left of it
  have hroom : ∃ D p q l, KernelInv (notFree s₀) D (p :: q :: l) k₅ := by
    obtain ⟨D₅, l₅, hinv₅⟩ := h₅.inv
    have hsame : l₅ = l' := by
      refine hinv₅.pmap.free.linked.unique ?_
      rw [hp₅, hp₄, hp₃]
      exact hinv₂.pmap.free.linked
    have hlen := h.booted.room
    rw [hl', ← hsame] at hlen
    match l₅, hlen, hinv₅ with
    | p :: q :: l, _, hinv₅ => exact ⟨D₅, p, q, l, hinv₅⟩
  refine ⟨_, e, _, id, parent, k₅, he, he₂, hid, hpar, hr₅, h₅.cast (fun i => ?_) (fun c => ?_), hcr3, hroom⟩
  · rw [update_statuses_one]
    exact (Function.update_apply ..).symm.trans (update_statuses he₂ i)
  · rw [Function.update_apply]
    unfold cpuEnvs
    by_cases hc : c = 1
    · rw [if_pos hc, if_neg (by omega), if_pos hc]
    · simp only [if_neg hc]

end Jos
