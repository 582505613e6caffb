import Jos.CallFrame
import Jos.Effects

/-!
# One CPU

On a machine with one CPU the table of environments is in order whenever the kernel is left
(`reach_uniprocessor`): `env_free_list` has exactly the free slots, `curenv` is the only environment that is
`ENV_RUNNING`, none is `ENV_DYING`, and identifiers carry the numbers of their slots. No step of the machine is
excluded: none of the defects of the system calls reaches the table when there is no other CPU.
-/

namespace Jos

open Pmap Kernel Except

variable {k k' : Kernel} {c e cur : Nat} {h : List TableEvent}

/-! ## Steps that keep the table -/

namespace TableRun

theorem onlyTf (hr : TableRun h k) (ht : OnlyTf k k') : TableRun h k' := by
  refine hr.other ⟨ht.sameDirs, fun e => by rw [ht.status]⟩ fun e => ?_
  obtain ⟨tf, htf⟩ := ht.envs e
  rw [htf]

theorem onlyPmap (hr : TableRun h k) (hp : OnlyPmap k k') : TableRun h k' :=
  hr.other hp.sameLife fun e => by rw [hp.envs]

/-- An environment is overwritten by one with the same identifier, link, directory and life. -/
theorem setEnv (hr : TableRun h k) {env : Env} (hid : env.envId = (k.envs e).envId)
    (hlink : env.envLink = (k.envs e).envLink) (hpg : env.envPgdir = (k.envs e).envPgdir)
    (hst : env.envStatus = .free ↔ (k.envs e).envStatus = .free) : TableRun h (k.setEnv e env) := by
  refine hr.other ⟨.setEnv hlink hpg, fun i => ?_⟩ fun i => ?_
  · rw [setEnv_envs]
    split
    · next hi => rw [hi]; exact hst
    · rfl
  · rw [setEnv_envs]
    split
    · next hi => rw [hi]; exact hid
    · rfl

end TableRun

theorem loadIcode_table (hr : TableRun h k) (b : Program) :
    Post (loadIcode k e b) fun k' => TableRun h k' := by
  refine .bind' fun d _ => .bind' fun s _ => .bind' fun s' _ => .ok ?_
  have h₁ : TableRun h { k with pmap := s } := hr.onlyPmap ⟨s, rfl⟩
  have h₂ := h₁.onlyTf (.setEnv _ e { (k.envs e).envTf with eip := b.entry })
  exact h₂.onlyPmap ⟨s', rfl⟩

theorem envCreate_table (hr : TableRun h k) (b : Program) :
    Post (envCreate k b) fun k' => ∃ e id, TableRun (.alloc e id :: h) k' := by
  refine .bind' fun ⟨o, k₁⟩ halloc => ?_
  cases o with
  | error err => exact .error _
  | ok e =>
    have h₁ := hr.alloc halloc
    have h₂ : TableRun _ (k₁.setEnv e { k₁.envs e with envParentId := 0#32 }) :=
      h₁.setEnv rfl rfl rfl Iff.rfl
    exact (loadIcode_table h₂ b).mono fun k₂ hk₂ => ⟨e, _, hk₂⟩

/-- `i386_init` allocates two environments. -/
theorem I386Init.tableRun {sys : System} (hinit : I386Init sys k) :
    ∃ e id e' id', TableRun [.alloc e id, .alloc e' id'] k := by
  obtain ⟨s, s', -, -, hk⟩ := hinit
  obtain ⟨k₁, hk₁, hk⟩ := bind_eq_ok.mp hk
  obtain ⟨e', id', h₁⟩ := envCreate_table (.init rfl fun _ => rfl) sys.fs k₁ hk₁
  obtain ⟨e, id, h₂⟩ := envCreate_table h₁ sys.user k hk
  exact ⟨e, id, e', id', h₂⟩

/-! ## The invariant -/

/-- While the CPU is in the kernel. -/
structure UniMid (k : Kernel) : Prop where
  run : ∃ h, TableRun h k
  running : ∀ e, (k.envs e).envStatus = .running → k.curenv 0 = some e
  dying : ∀ e, (k.envs e).envStatus ≠ .dying
  cur : ∀ e, k.curenv 0 = some e → (k.envs e).envStatus ≠ .free

/-- While it is not. -/
structure UniOut (k : Kernel) : Prop where
  run : ∃ h, TableRun h k
  running : ∀ e, (k.envs e).envStatus = .running ↔ k.curenv 0 = some e
  dying : ∀ e, (k.envs e).envStatus ≠ .dying
  mode : (k.cpus 0).mode = .user ↔ k.curenv 0 ≠ none

theorem UniOut.enter (hk : UniOut k) : UniMid k where
  run := hk.run
  running e := (hk.running e).mp
  dying := hk.dying
  cur e he := by
    rw [(hk.running e).mpr he]
    exact nofun

namespace UniMid

theorem sameStatus (hk : UniMid k) (hr : ∃ h, TableRun h k') (hc : k'.curenv 0 = k.curenv 0)
    (hst : ∀ e, (k'.envs e).envStatus = (k.envs e).envStatus) : UniMid k' where
  run := hr
  running e := by
    rw [hst, hc]
    exact hk.running e
  dying e := by
    rw [hst]
    exact hk.dying e
  cur e := by
    rw [hst, hc]
    exact hk.cur e

theorem onlyTf (hk : UniMid k) (ht : OnlyTf k k') : UniMid k' := by
  obtain ⟨h, hr⟩ := hk.run
  exact hk.sameStatus ⟨h, hr.onlyTf ht⟩ (by rw [Kernel.curenv, ht.cpus]; rfl) ht.status

theorem onlyPmap (hk : UniMid k) (hp : OnlyPmap k k') : UniMid k' := by
  obtain ⟨h, hr⟩ := hk.run
  exact hk.sameStatus ⟨h, hr.onlyPmap hp⟩ (by rw [Kernel.curenv, hp.cpus]; rfl)
    fun e => by rw [hp.envs]

theorem record (hk : UniMid k) (ev : Event) : UniMid (k.record ev) := by
  obtain ⟨h, hr⟩ := hk.run
  exact hk.sameStatus ⟨h, hr.other (.of_envs rfl rfl) fun _ => rfl⟩ rfl fun _ => rfl

/-- A live environment becomes runnable or not runnable. -/
theorem setEnv (hk : UniMid k) {env : Env} (hlive : (k.envs e).envStatus ≠ .free)
    (hid : env.envId = (k.envs e).envId) (hlink : env.envLink = (k.envs e).envLink)
    (hpg : env.envPgdir = (k.envs e).envPgdir)
    (hst : env.envStatus = .runnable ∨ env.envStatus = .notRunnable) :
    UniMid (k.setEnv e env) := by
  obtain ⟨h, hr⟩ := hk.run
  have hne : env.envStatus ≠ .free ∧ env.envStatus ≠ .dying ∧ env.envStatus ≠ .running := by
    rcases hst with hst | hst <;> rw [hst] <;> exact ⟨nofun, nofun, nofun⟩
  have hstatus : ∀ i, ((k.setEnv e env).envs i).envStatus
      = if i = e then env.envStatus else (k.envs i).envStatus := by
    intro i
    rw [setEnv_envs]
    split <;> rfl
  refine ⟨⟨h, hr.setEnv hid hlink hpg (iff_of_false hne.1 hlive)⟩, fun i => ?_, fun i => ?_,
    fun i hi => ?_⟩
  · rw [hstatus]
    split
    · exact fun hc => absurd hc hne.2.2
    · exact hk.running i
  · rw [hstatus]
    split
    · exact hne.2.1
    · exact hk.dying i
  · rw [hstatus]
    split
    · exact hne.1
    · exact hk.cur i hi

/-! ## Leaving the kernel -/

theorem lt (hk : UniMid k) (he : (k.envs e).envPgdir ≠ none) : e < NENV := by
  obtain ⟨h, hr⟩ := hk.run
  exact hr.idsOk.table.lt e he

theorem runs (hk : UniMid k) (hcan : CanRun k 0 e) : UniOut (k.runs 0 e) := by
  have hcpu : (k.runs 0 e).cpus 0
      = { mode := .user, cpuEnv := some e, cr3 := (k.envs e).envPgdir.getD 0 } := by
    rw [runs_cpus, if_pos rfl]
  have hcur : (k.runs 0 e).curenv 0 = some e := by rw [Kernel.curenv, hcpu]
  have hlive : (k.envs e).envStatus ≠ .free := by
    rcases hcan.2 with hst | ⟨-, hst⟩ <;> rw [hst] <;> rintro ⟨⟩
  obtain ⟨h, hr⟩ := hk.run
  refine ⟨⟨h, hr.other ⟨runs_sameDirs, fun i => ?_⟩ fun i => (runs_sameEnv i).id⟩, fun i => ?_,
    fun i => ?_, ?_⟩
  · rw [runs_status]
    split
    · next hi =>
      rw [hi]
      exact iff_of_false (by rintro ⟨⟩) hlive
    · split
      · next hi => exact iff_of_false (by rintro ⟨⟩) (hk.cur i hi.1)
      · rfl
  · rw [runs_status, hcur]
    split
    · next hi => exact iff_of_true rfl (congrArg some hi.symm)
    · next hi =>
      refine iff_of_false ?_ fun hc => hi (Option.some.inj hc).symm
      split
      · rintro ⟨⟩
      · next hrun => exact fun hc => hrun ⟨hk.running i hc, hc⟩
  · rw [runs_status]
    split
    · rintro ⟨⟩
    · split
      · rintro ⟨⟩
      · exact hk.dying i
  · rw [hcur, hcpu]
    exact iff_of_true rfl (by rintro ⟨⟩)

theorem halts (hk : UniMid k) (hrun : ∀ e, k.curenv 0 = some e → (k.envs e).envStatus ≠ .running) :
    UniOut (k.halts 0) := by
  have hcpu : (k.halts 0).cpus 0 = { mode := .idle, cpuEnv := none, cr3 := k.pmap.kernPgdir } := by
    rw [Kernel.halts, setCpu_cpus, if_pos rfl]
  have hcur : (k.halts 0).curenv 0 = none := by rw [Kernel.curenv, hcpu]
  obtain ⟨h, hr⟩ := hk.run
  refine ⟨⟨h, hr.other (.of_envs rfl rfl) fun _ => rfl⟩, fun i => ?_, hk.dying, ?_⟩
  · rw [hcur]
    exact iff_of_false (fun hc => hrun i (hk.running i hc) hc) (by rintro ⟨⟩)
  · rw [hcur, hcpu]
    exact iff_of_false (by rintro ⟨⟩) fun hc => hc rfl

theorem leaveRules : LeaveRules 0 UniMid UniOut where
  lt _ hk _ he := hk.lt he
  onlyTf _ _ hk ht := hk.onlyTf ht
  run _ _ hk hcan := hk.runs hcan
  halt _ hk hrun := hk.halts hrun

theorem schedYield (hk : UniMid k) : Post (schedYield k 0) (Flow.Sat UniMid UniOut) :=
  leaveRules.schedYield hk

/-! ## Destroying environments -/

/-- `env_free` of the running environment, and `curenv = NULL`. -/
theorem freeOwn (hk : UniMid k) (hcur : k.curenv 0 = some e) (hok : envFree k 0 e = .ok k') :
    UniMid (k'.setCurenv 0 none) := by
  obtain ⟨h, hr⟩ := hk.run
  have hr' := hr.free hok
  obtain ⟨-, s, rfl⟩ := envFree_ok hok
  have hnone : ((k.freeEnv 0 e s).setCurenv 0 none).curenv 0 = none := by
    rw [Kernel.curenv, setCurenv_cpus, if_pos rfl]
  have hstatus : ∀ i st, st ≠ .free → ((k.freeEnv 0 e s).envs i).envStatus = st →
      i ≠ e ∧ (k.envs i).envStatus = st := by
    intro i st hst hi
    by_cases hie : i = e
    · rw [hie, freeEnv_envs_self] at hi
      exact absurd hi.symm hst
    · rw [freeEnv_envs_of_ne hie] at hi
      exact ⟨hie, hi⟩
  refine ⟨⟨_, hr'.other (.of_envs rfl rfl) fun _ => rfl⟩, fun i hi => ?_, fun i hi => ?_,
    fun i hi => ?_⟩
  · obtain ⟨hie, hi⟩ := hstatus i .running (by rintro ⟨⟩) hi
    exact absurd (Option.some.inj ((hk.running i hi).symm.trans hcur)) hie
  · exact hk.dying i (hstatus i .dying (by rintro ⟨⟩) hi).2
  · rw [hnone] at hi
    cases hi

/-- `env_free` of another environment. -/
theorem freeOther (hk : UniMid k) (hcur : k.curenv 0 ≠ some e) (hok : envFree k 0 e = .ok k') :
    UniMid k' := by
  obtain ⟨h, hr⟩ := hk.run
  have hr' := hr.free hok
  obtain ⟨-, s, rfl⟩ := envFree_ok hok
  refine ⟨⟨_, hr'⟩, fun i => ?_, fun i => ?_, fun i hi => ?_⟩
  · by_cases hie : i = e
    · rw [hie, freeEnv_envs_self]
      exact nofun
    · rw [freeEnv_envs_of_ne hie]
      exact hk.running i
  · by_cases hie : i = e
    · rw [hie, freeEnv_envs_self]
      exact nofun
    · rw [freeEnv_envs_of_ne hie]
      exact hk.dying i
  · have hie : i ≠ e := by
      rintro rfl
      exact hcur hi
    rw [freeEnv_envs_of_ne hie]
    exact hk.cur i hi

theorem envDestroy (hk : UniMid k) : Post (envDestroy k 0 e) (Flow.Sat UniMid UniOut) := by
  have hk₁ := hk.record (.destroy e)
  unfold Jos.envDestroy
  simp only
  split
  · next hrun => exact absurd (hk₁.running e hrun.1) hrun.2
  · refine .bind' fun k' hok => ?_
    have hcpus : k'.curenv 0 = (k.record (.destroy e)).curenv 0 := by
      obtain ⟨-, s, rfl⟩ := envFree_ok hok
      rfl
    rw [hcpus]
    split
    · next hcur => exact schedYield (hk₁.freeOwn hcur hok)
    · next hcur => exact .ok (hk₁.freeOther hcur hok)

/-! ## System calls -/

theorem sysExofork (hk : UniMid k) : Post (sysExofork k cur) fun x => UniMid x.2 := by
  rintro ⟨r, k'⟩ hok
  obtain ⟨e, k₁, halloc, rfl, -⟩ := sysExofork_ok hok
  obtain ⟨h, hr⟩ := hk.run
  have hr' := hr.alloc halloc
  obtain ⟨e', d, s, he, hhead, rfl⟩ | ⟨⟨err, he⟩, -⟩ := envAlloc_ok halloc
  · obtain rfl := Except.ok.inj he
    have hfree := (hr.idsOk.table.life e).mpr (hr.idsOk.table.slots.head hhead).2
    have hnew : ((k.newEnv e d s (k.envs cur).envId).envs e).envStatus ≠ .free := by
      rw [newEnv_envs_self]
      exact nofun
    have hmid : UniMid (k.newEnv e d s (k.envs cur).envId) := by
      refine ⟨⟨_, hr'⟩, fun i => ?_, fun i => ?_, fun i hi => ?_⟩
      · by_cases hie : i = e
        · rw [hie, newEnv_envs_self]
          exact nofun
        · rw [newEnv_envs_of_ne hie]
          exact hk.running i
      · by_cases hie : i = e
        · rw [hie, newEnv_envs_self]
          exact nofun
        · rw [newEnv_envs_of_ne hie]
          exact hk.dying i
      · have hie : i ≠ e := by
          rintro rfl
          exact hk.cur i hi hfree
        rw [newEnv_envs_of_ne hie]
        exact hk.cur i hi
    exact hmid.setEnv hnew rfl rfl rfl (Or.inr rfl)
  · cases he

/-- The environments that a system call may name are not free. -/
theorem envid2env_ne_free (hk : UniMid k) (hcur : k.curenv 0 = some cur) {envid : Word}
    {checkperm : Bool} (he : envid2env k cur envid checkperm = some e) :
    (k.envs e).envStatus ≠ .free := by
  obtain ⟨h, hr⟩ := hk.run
  have hlive := hk.cur cur hcur
  have hlt := hr.idsOk.table.lt cur (mt (hr.idsOk.table.life cur).mpr hlive)
  exact (envid2env_live ⟨hlt, hlive⟩ he).2

theorem sysEnvSetStatus (hk : UniMid k) (hcur : k.curenv 0 = some cur) (envid status : Word) :
    UniMid (sysEnvSetStatus k cur envid status).2 := by
  unfold Jos.sysEnvSetStatus
  split
  · exact hk
  · next e he =>
    have hlive := hk.envid2env_ne_free hcur he
    split
    · exact hk.setEnv hlive rfl rfl rfl (Or.inl rfl)
    · split
      · exact hk.setEnv hlive rfl rfl rfl (Or.inr rfl)
      · exact hk

theorem sysEnvSetPgfaultUpcall (hk : UniMid k) (envid func : Word) :
    UniMid (sysEnvSetPgfaultUpcall k cur envid func).2 := by
  unfold Jos.sysEnvSetPgfaultUpcall
  split
  · exact hk
  · next e _ =>
    obtain ⟨h, hr⟩ := hk.run
    refine hk.sameStatus ⟨h, hr.setEnv rfl rfl rfl Iff.rfl⟩ rfl fun i => ?_
    rw [setEnv_envs]
    split
    · next hi => rw [hi]
    · rfl

theorem sysCputs (hk : UniMid k) (s len : Word) :
    Post (sysCputs k 0 cur s len) (Flow.Sat UniMid UniOut) := by
  refine .bind' fun b _ => ?_
  split
  · exact hk.envDestroy
  refine .bind' fun b _ => ?_
  split
  · exact hk.envDestroy
  · exact .bind' fun _ _ => .ok hk

theorem sysIpcTrySend (hk : UniMid k) (hcur : k.curenv 0 = some cur) (envid value srcva perm : Word) :
    Post (sysIpcTrySend k cur envid value srcva perm) fun x => UniMid x.2 := by
  refine (sysIpcTrySend_ok envid value srcva perm).mono ?_
  rintro x (⟨-, hp⟩ | ⟨e, k₁, perm', he, -, hp, rfl⟩)
  · exact hk.onlyPmap hp
  · refine (hk.onlyPmap hp).setEnv ?_ rfl rfl rfl (Or.inl rfl)
    rw [hp.envs]
    exact hk.envid2env_ne_free hcur he

theorem sysIpcRecv (hk : UniMid k) (hcur : k.curenv 0 = some cur) (dstva : Word) :
    Post (sysIpcRecv k 0 cur dstva) (Flow.Sat UniMid UniOut) := by
  unfold Jos.sysIpcRecv
  split
  · exact .ok hk
  · exact schedYield (hk.setEnv (hk.cur cur hcur) rfl rfl rfl (Or.inr rfl))

/-- Every system call keeps the table in order. -/
theorem syscallOf (hk : UniMid k) (hcur : k.curenv 0 = some cur) (input : Word) (regs : PushRegs) :
    Post (syscallOf k 0 cur input regs) (Flow.Sat UniMid UniOut) := by
  unfold Jos.syscallOf syscall
  split
  · exact hk.sysCputs _ _
  · exact .ok hk
  · exact .ok hk
  · unfold sysEnvDestroy
    split
    · exact .ok hk
    · exact hk.envDestroy
  · exact .map ((sysPageAlloc_onlyPmap _ _ _).mono fun _ hp => hk.onlyPmap hp)
  · exact .map ((sysPageMap_onlyPmap _ _ _ _ _).mono fun _ hp => hk.onlyPmap hp)
  · exact .map ((sysPageUnmap_onlyPmap _ _).mono fun _ hp => hk.onlyPmap hp)
  · exact .map hk.sysExofork
  · exact .ok (hk.sysEnvSetStatus hcur _ _)
  · exact .ok (hk.sysEnvSetPgfaultUpcall _ _)
  · exact hk.schedYield
  · exact .map (hk.sysIpcTrySend hcur _ _ _ _)
  · exact hk.sysIpcRecv hcur _
  · exact .ok hk

/-! ## Traps -/

theorem pageFaultHandler (hk : UniMid k) {faultVa : Word} {tf : Trapframe}
    (hrun : ∀ e, k.curenv 0 = some e → (k.envs e).envStatus = .running) :
    Post (pageFaultHandler k 0 faultVa tf) (Flow.Sat UniMid UniOut) := by
  unfold Jos.pageFaultHandler
  split
  · exact .error _
  split
  · exact .error _
  · next cur hcur =>
    split
    · refine .bind' fun b _ => ?_
      split
      · exact hk.envDestroy
      · refine .bind' fun s _ => ?_
        have hk₁ : UniMid { k with pmap := s } := hk.onlyPmap ⟨s, rfl⟩
        have htf := OnlyTf.setEnv { k with pmap := s } cur
          { (k.envs cur).envTf with eip := (k.envs cur).envPgfaultUpcall, esp := utfAddr tf }
        exact leaveRules.envRun (hk₁.onlyTf htf) hcur ((htf.status cur).trans (hrun cur hcur))
    · exact hk.envDestroy

theorem trapDispatch (hk : UniMid k) {faultVa input : Word} {tf : Trapframe}
    (hrun : ∀ e, k.curenv 0 = some e → (k.envs e).envStatus = .running) :
    Post (trapDispatch k 0 faultVa input tf) (Flow.Sat UniMid UniOut) :=
  leaveRules.trapDispatch hk (fun _ => hk.pageFaultHandler hrun)
    (fun _ _ hcur => hk.syscallOf hcur _ _) fun _ _ _ => hk.envDestroy

end UniMid

namespace UniOut

theorem trap (hk : UniOut k) {gate : Gate} {faultVa input : Word} {tf : Trapframe} :
    Post (trap k 0 gate faultVa input tf) (Flow.Sat UniMid UniOut) := by
  have hrun : ∀ e, k.curenv 0 = some e → (k.envs e).envStatus = .running :=
    fun e => (hk.running e).mpr
  unfold Jos.trap
  split
  · exact .error _
  split
  · split
    · exact .error _
    · next cur hcur =>
      split
      · next hdying => exact absurd hdying (hk.dying cur)
      · have htf := OnlyTf.setEnv k cur tf
        refine UniMid.leaveRules.trapBody ((hk.enter.onlyTf htf).trapDispatch fun e he => ?_)
        exact (htf.status e).trans (hrun e he)
  · exact UniMid.leaveRules.trapBody (hk.enter.trapDispatch hrun)

/-- Every step of the only CPU keeps the table in order. -/
theorem exec {sys : System} {a : Action} (hone : sys.ncpu = 1) (hk : UniOut k)
    (hen : Enabled sys k a) (hx : exec k a = .ok (.left k')) : UniOut k' := by
  have hzero : ∀ c, c < sys.ncpu → c = 0 := by
    intro c hc
    omega
  cases a with
  | store c va b =>
    obtain rfl := Flow.left.inj (Except.ok.inj hx)
    obtain ⟨h, hr⟩ := hk.run
    exact ⟨⟨h, hr.onlyPmap ⟨_, rfl⟩⟩, hk.running, hk.dying, hk.mode⟩
  | trap c gate faultVa input tf =>
    obtain rfl := hzero c hen.1
    exact hk.trap _ hx
  | irq c gate trapno =>
    obtain rfl := hzero c hen.1
    exact hk.trap _ hx
  | start c =>
    obtain rfl := hzero c hen.1
    exact hk.enter.schedYield _ hx

end UniOut

/-- Two environments have been made in a system that boots. -/
theorem tableRun_ids_demoSystem : ∃ h k e id e' id', h = [.alloc e id, .alloc e' id'] ∧
    TableRun h k ∧ IdsDistinct h k := by
  obtain ⟨s₀, D, l, d₀, d₁, k, hbooted⟩ := demoSystem_boots
  obtain ⟨e, id, e', id', hr⟩ := hbooted.init.tableRun
  exact ⟨_, k, e, id, e', id', rfl, hr, tableRun_ids hr⟩

end Jos
