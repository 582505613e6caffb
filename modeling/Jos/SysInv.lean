import Jos.CpuInv

/-!
# The invariant of the whole system

`SysInv` joins the invariants of memory, CPUs and history. Every step that satisfies `Safe` keeps it, so it
holds in every state that a run of safe steps reaches (`Reach.sysInv`).
-/

namespace Jos

open Pmap Kernel Except

variable {R : Set Nat} {D : Finset Nat} {l : List Nat} {k k' : Kernel} {c e cur : Nat}
  {own : Option Nat}

/-- The invariant of the system, while the CPU `own`, if any, is in the kernel. -/
structure SysInv (R : Set Nat) (own : Option Nat) (k : Kernel) : Prop where
  mem : ∃ D l, KernelInv R D l k
  cpus : CpusOk own k
  log : LogOk k
  ownOk : ∀ c, some c = own → OwnOk c k

namespace SysInv

/-! ## Changes of the state -/

theorem sameStatus (h : SysInv R own k) (hmem : ∃ D l, KernelInv R D l k') (hc : k'.cpus = k.cpus)
    (hlog : k'.log = k.log) (hst : ∀ e, (k'.envs e).envStatus = (k.envs e).envStatus)
    (hpg : ∀ e, (k'.envs e).envPgdir = (k.envs e).envPgdir) : SysInv R own k' where
  mem := hmem
  cpus := h.cpus.congr hc hst hpg
  log := h.log.congr hlog fun e => by rw [hst]
  ownOk c ho e he := by
    rw [hst]
    exact h.ownOk c ho e (by rw [Kernel.curenv, ← hc]; exact he)

theorem onlyTf (h : SysInv R own k) (ht : OnlyTf k k') : SysInv R own k' := by
  obtain ⟨D, l, hmem⟩ := h.mem
  refine h.sameStatus ⟨D, l, hmem.congr ⟨ht.sameDirs, fun e => by rw [ht.status]⟩ ht.pmap⟩ ht.cpus
    ht.log ht.status ht.pgdir

theorem withPmap (h : SysInv R own k) {s : Pmap}
    (hs : ∀ D l, KernelInv R D l k → ∃ l', PmapInv R D l' s) :
    SysInv R own { k with pmap := s } := by
  obtain ⟨D, l, hmem⟩ := h.mem
  obtain ⟨l', hp⟩ := hs D l hmem
  exact h.sameStatus ⟨D, l', hmem.withPmap hp⟩ rfl rfl (fun _ => rfl) fun _ => rfl

theorem pmapStep (h : SysInv R own k) (hs : ∀ D l, MemInv R D l k → PmapStep R D k k') :
    SysInv R own k' := by
  obtain ⟨D, l, hmem⟩ := h.mem
  have hstep := hs D l hmem.toMemInv
  obtain ⟨l', hp⟩ := hstep.inv
  rw [hstep.rest]
  exact h.withPmap fun D' l'' hmem' => by
    have hstep' := hs D' l'' hmem'.toMemInv
    exact hstep'.inv

/-- CPU `c` gives an environment that no other CPU has another status among those of live environments. -/
theorem setEnv (h : SysInv R (some c) k) {env : Env} (hlive : (k.envs e).envStatus ≠ .free)
    (helse : ¬ RunsElsewhere k c e) (hlink : env.envLink = (k.envs e).envLink)
    (hpg : env.envPgdir = (k.envs e).envPgdir)
    (hst : env.envStatus = .runnable ∨ env.envStatus = .notRunnable) :
    SysInv R (some c) (k.setEnv e env) := by
  have hfree : env.envStatus ≠ .free := by rcases hst with hst | hst <;> rw [hst] <;> exact nofun
  have hdying : env.envStatus ≠ .dying := by rcases hst with hst | hst <;> rw [hst] <;> exact nofun
  have hrun : env.envStatus ≠ .running := by rcases hst with hst | hst <;> rw [hst] <;> exact nofun
  have hstatus : ∀ i, ((k.setEnv e env).envs i).envStatus
      = if i = e then env.envStatus else (k.envs i).envStatus := by
    intro i
    rw [setEnv_envs]
    split <;> rfl
  obtain ⟨D, l, hmem⟩ := h.mem
  have hsame := SameLife.setEnv (k := k) hlive hlink hpg hfree
  refine ⟨⟨D, l, hmem.congr hsame rfl⟩, ?_, ?_, ?_⟩
  · refine h.cpus.withStatus rfl hstatus hsame.pgdir (fun hc => absurd hc helse) ?_
    rintro (hc | hc)
    · exact absurd hc hrun
    · exact absurd hc hdying
  · refine h.log.withStatus rfl hstatus ?_
    rw [lifeOf_live hfree hdying, lifeOf_live hlive (h.cpus.not_dying (h.ownOk c rfl) helse)]
  · intro c' hc' i hi
    rw [hstatus]
    split
    · exact ⟨hdying, hfree⟩
    · exact h.ownOk c' hc' i hi

theorem enter (h : SysInv R none k) (hown : OwnOk c k) : SysInv R (some c) k where
  mem := h.mem
  cpus := h.cpus.enter c
  log := h.log
  ownOk := by
    rintro c' hc'
    obtain rfl := Option.some.inj hc'
    exact hown

theorem live (h : SysInv R none k) (hcur : k.curenv c = some e) : Live k e := by
  obtain ⟨D, l, hmem⟩ := h.mem
  have hpg := h.cpus.cr3 c e hcur
  refine ⟨hmem.envs.lt e _ hpg, fun hc => ?_⟩
  rw [(hmem.life e).mp hc] at hpg
  cases hpg

theorem live_own (h : SysInv R (some c) k) (hcur : k.curenv c = some e) : Live k e := by
  obtain ⟨D, l, hmem⟩ := h.mem
  have hpg := h.cpus.cr3 c e hcur
  exact ⟨hmem.envs.lt e _ hpg, (h.ownOk c rfl e hcur).2⟩

theorem not_elsewhere (h : SysInv R (some c) k) (hcur : k.curenv c = some e) :
    ¬ RunsElsewhere k c e := by
  rintro ⟨c', hc', hcur'⟩
  exact hc' (h.cpus.inj c' c e hcur' hcur)

/-! ## Leaving the kernel -/

theorem leaveRules (R : Set Nat) (c : Nat) :
    LeaveRules c (SysInv R (some c)) (SysInv R none) where
  lt k h e he := by
    obtain ⟨D, l, hmem⟩ := h.mem
    obtain ⟨d, hd⟩ := Option.ne_none_iff_exists'.mp he
    exact hmem.envs.lt e d hd
  onlyTf _ _ h ht := h.onlyTf ht
  run k e h hr := by
    obtain ⟨D, l, hmem⟩ := h.mem
    have hlive : Live k e := by
      refine ⟨hr.1, ?_⟩
      rcases hr.2 with hst | ⟨-, hst⟩ <;> rw [hst] <;> exact nofun
    have hpg : (k.envs e).envPgdir ≠ none := fun hc => hlive.2 ((hmem.life e).mpr hc)
    exact ⟨⟨D, l, hmem.runs hlive fun i hi => h.live_own hi⟩, h.cpus.runs (h.ownOk c rfl) hr hpg,
      h.log.runs hr, nofun⟩
  halt k h hrun := by
    obtain ⟨D, l, hmem⟩ := h.mem
    exact ⟨⟨D, l, hmem.congr (.of_envs rfl rfl) rfl⟩, h.cpus.halts (h.ownOk c rfl) hrun,
      h.log.congr rfl fun _ => rfl, nofun⟩

theorem schedYield (h : SysInv R (some c) k) :
    Post (schedYield k c) (Flow.Sat (SysInv R (some c)) (SysInv R none)) :=
  (leaveRules R c).schedYield h

/-! ## Destroying environments -/

/-- The history of an environment that is destroyed and freed at once. -/
private theorem log_destroyFree {s : Pmap} (h : LogOk k) (h₁ : (k.envs e).envStatus ≠ .free)
    (h₂ : (k.envs e).envStatus ≠ .dying) (helse : ¬ RunsElsewhere k c e) :
    LogOk ((k.record (.destroy e)).freeEnv c e s) := by
  -- in between, it is as if the environment had become `ENV_DYING`
  have hmid : LogOk ((k.record (.destroy e)).setStatus e .dying) := by
    refine h.destroy h₁ h₂ rfl fun i => ?_
    rw [setStatus_envs]
    split <;> rfl
  have hst : (((k.record (.destroy e)).setStatus e .dying).envs e).envStatus = .dying := by
    rw [setStatus_envs, if_pos rfl]
  refine (hmid.freeEnv (s := s) hst helse).congr rfl fun i => ?_
  by_cases hi : i = e
  · subst hi
    rw [freeEnv_envs_self, freeEnv_envs_self]
  · rw [freeEnv_envs_of_ne hi, freeEnv_envs_of_ne hi, setStatus_envs, if_neg hi]

/-- `env_free` and, if need be, `curenv = NULL`. -/
private theorem free_own {s : Pmap} {k₁ : Kernel} (hmem : ∃ D l, KernelInv R D l (k₁.freeEnv c e s))
    (hcpus : CpusOk (some c) k₁) (hlog : LogOk (k₁.freeEnv c e s)) (hcur : k₁.curenv c = some e) :
    SysInv R (some c) ((k₁.freeEnv c e s).setCurenv c none) := by
  obtain ⟨D, l, hmem⟩ := hmem
  refine ⟨⟨D, l, hmem.congr (.of_envs rfl rfl) rfl⟩, hcpus.freeOwn hcur,
    hlog.congr rfl fun _ => rfl, ?_⟩
  rintro c' hc' i hi
  obtain rfl := Option.some.inj hc'
  rw [Kernel.curenv, setCurenv_cpus, if_pos rfl] at hi
  cases hi

/-- The zombie of this CPU is freed. -/
theorem reap (h : SysInv R none k) (hcur : k.curenv c = some e)
    (hst : (k.envs e).envStatus = .dying) :
    Post (envFree k c e) fun k' => SysInv R (some c) (k'.setCurenv c none) := by
  intro k' hok
  obtain ⟨D, l, hmem⟩ := h.mem
  obtain ⟨d, hd, s, l', -, hcode, hinv, -⟩ := hmem.envFree_spec (h.live hcur) c
  rw [hcode] at hok
  obtain rfl := Except.ok.inj hok
  refine free_own ⟨_, l', hinv⟩ (h.cpus.enter c) (h.log.freeEnv hst ?_) hcur
  rintro ⟨c', hc', hcur'⟩
  exact hc' (h.cpus.inj c' c e hcur' hcur)

theorem envDestroy (h : SysInv R (some c) k) (hlive : Live k e)
    (hst : (k.envs e).envStatus ≠ .dying) :
    Post (envDestroy k c e) (Flow.Sat (SysInv R (some c)) (SysInv R none)) := by
  obtain ⟨D, l, hmem⟩ := h.mem
  have hmem₁ : KernelInv R D l (k.record (.destroy e)) := hmem.congr (.of_envs rfl rfl) rfl
  have hcpus₁ : CpusOk (some c) (k.record (.destroy e)) :=
    h.cpus.congr rfl (fun _ => rfl) fun _ => rfl
  unfold Jos.envDestroy
  simp only
  split
  · next hrun =>
    -- the environment runs elsewhere and is only marked
    have hstatus : ∀ i, (((k.record (.destroy e)).setStatus e .dying).envs i).envStatus
        = if i = e then .dying else (k.envs i).envStatus := by
      intro i
      rw [setStatus_envs]
      split <;> rfl
    have hsame : SameLife (k.record (.destroy e)) ((k.record (.destroy e)).setStatus e .dying) :=
      .setStatus (k := k.record (.destroy e)) hlive.2 nofun
    refine .ok ⟨⟨D, l, hmem₁.congr hsame rfl⟩, ?_, ?_, ?_⟩
    · exact hcpus₁.withStatus rfl hstatus hsame.pgdir (fun _ => Or.inr rfl) fun _ =>
        h.cpus.busy e (Or.inl hrun.1)
    · exact h.log.destroy hlive.2 hst rfl hstatus
    · intro c' hc' i hi
      obtain rfl := Option.some.inj hc'
      rw [hstatus, if_neg]
      · exact h.ownOk c' rfl i hi
      · rintro rfl
        exact hrun.2 hi
  · next hrun =>
    have helse : ¬ RunsElsewhere k c e := by
      rintro ⟨c', hc', hcur'⟩
      rcases h.cpus.status c' e (fun hc => hc' (Option.some.inj hc)) hcur' with hst' | hst'
      · exact hrun ⟨hst', fun hc => hc' (h.cpus.inj c' c e hcur' hc)⟩
      · exact hst hst'
    intro f hf
    obtain ⟨k', hok, hf⟩ := bind_eq_ok.mp hf
    obtain ⟨d, hd, s, l', -, hcode, hinv, -⟩ := hmem₁.envFree_spec hlive c
    rw [hcode] at hok
    obtain rfl := Except.ok.inj hok
    have hlog := log_destroyFree (s := s) h.log hlive.2 hst helse
    split at hf
    · next hcur =>
      exact schedYield (free_own ⟨_, l', hinv⟩ hcpus₁ hlog hcur) f hf
    · next hcur =>
      obtain rfl := Except.ok.inj hf
      refine ⟨⟨_, l', hinv⟩, hcpus₁.freeOther ?_, hlog, ?_⟩
      · intro c' hc'
        by_cases hcc : c' = c
        · subst hcc
          exact hcur hc'
        · exact helse ⟨c', hcc, hc'⟩
      · intro c' hc' i hi
        obtain rfl := Option.some.inj hc'
        have hie : i ≠ e := by
          rintro rfl
          exact hcur hi
        rw [freeEnv_envs_of_ne hie]
        exact h.ownOk c' rfl i hi

/-! ## System calls -/

theorem sysExofork (h : SysInv R (some c) k) :
    Post (sysExofork k cur) fun x => SysInv R (some c) x.2 := by
  rintro ⟨r, k'⟩ hok
  obtain ⟨D, l, hmem⟩ := h.mem
  obtain ⟨e, p, l', -, -, hpg, -, rfl, hmem'⟩ := hmem.sysExofork_step hok
  have henvs : ∀ i, i ≠ e → (k.forks cur e p).envs i = k.envs i := by
    intro i hi
    unfold Kernel.forks
    rw [setEnv_envs, if_neg hi, newEnv_envs_of_ne hi]
  refine ⟨⟨_, l', hmem', fun i => ?_⟩, h.cpus.forks hpg, h.log.forks ((hmem.life e).mpr hpg), ?_⟩
  · by_cases hi : i = e
    · subst hi
      unfold Kernel.forks
      rw [setEnv_envs, if_pos rfl, newEnv_envs_self]
      exact iff_of_false nofun nofun
    · rw [henvs i hi]
      exact hmem.life i
  · intro c' hc' i hi
    have hie : i ≠ e := by
      rintro rfl
      exact h.cpus.ne_of_pgdir hpg c' hi
    rw [henvs i hie]
    exact h.ownOk c' hc' i hi

theorem sysEnvSetStatus (h : SysInv R (some c) k) (hcur : k.curenv c = some cur) {call : Call}
    (hno : call.syscallno = SYS_env_set_status) (hs : StatusSafe k c cur call) :
    SysInv R (some c) (sysEnvSetStatus k cur call.a1 call.a2).2 := by
  unfold Jos.sysEnvSetStatus
  split
  · exact h
  · next e he =>
    have hlive := envid2env_live (h.live_own hcur) he
    split
    · next hst =>
      exact h.setEnv hlive.2 (hs.setStatus hno (Or.inl hst) e he) rfl rfl (Or.inl rfl)
    · split
      · next hst =>
        exact h.setEnv hlive.2 (hs.setStatus hno (Or.inr hst) e he) rfl rfl (Or.inr rfl)
      · exact h

theorem sysEnvSetPgfaultUpcall (h : SysInv R (some c) k) (envid func : Word) :
    SysInv R (some c) (sysEnvSetPgfaultUpcall k cur envid func).2 := by
  unfold Jos.sysEnvSetPgfaultUpcall
  split
  · exact h
  · next e _ =>
    have hst : ∀ i, ((k.setEnv e { k.envs e with envPgfaultUpcall := func }).envs i).envStatus
        = (k.envs i).envStatus := by
      intro i
      rw [setEnv_envs]
      split
      · next hi => rw [hi]
      · rfl
    obtain ⟨D, l, hmem⟩ := h.mem
    have hsame : SameDirs k (k.setEnv e { k.envs e with envPgfaultUpcall := func }) :=
      .setEnv rfl rfl
    exact h.sameStatus ⟨D, l, hmem.congr ⟨hsame, fun i => by rw [hst]⟩ rfl⟩ rfl rfl hst hsame.pgdir

theorem sysEnvDestroy (h : SysInv R (some c) k) (hcur : k.curenv c = some cur) {call : Call}
    (hno : call.syscallno = SYS_env_destroy) (hs : StatusSafe k c cur call) :
    Post (sysEnvDestroy k c cur call.a1) (Flow.Sat (SysInv R (some c)) (SysInv R none)) := by
  unfold Jos.sysEnvDestroy
  split
  · exact .ok h
  · next e he => exact h.envDestroy (envid2env_live (h.live_own hcur) he) (hs.destroy hno e he)

/-- A CPU destroys the environment it has. -/
theorem envDestroy_own (h : SysInv R (some c) k) (hcur : k.curenv c = some cur) :
    Post (Jos.envDestroy k c cur) (Flow.Sat (SysInv R (some c)) (SysInv R none)) :=
  h.envDestroy (h.live_own hcur) (h.ownOk c rfl cur hcur).1

theorem sysCputs (h : SysInv R (some c) k) (hcur : k.curenv c = some cur) (s len : Word) :
    Post (sysCputs k c cur s len) (Flow.Sat (SysInv R (some c)) (SysInv R none)) := by
  refine .bind' fun b _ => ?_
  split
  · exact h.envDestroy_own hcur
  · refine .bind' fun b _ => ?_
    split
    · exact h.envDestroy_own hcur
    · exact .bind' fun _ _ => .ok h

theorem sysIpcTrySend (h : SysInv R (some c) k) (hcur : k.curenv c = some cur) {call : Call}
    (hno : call.syscallno = SYS_ipc_try_send) (hm : MemSafe k cur call)
    (hs : StatusSafe k c cur call) :
    Post (sysIpcTrySend k cur call.a1 call.a2 call.a3 call.a4)
      fun x => SysInv R (some c) x.2 := by
  rintro ⟨r, k'⟩ hok
  obtain ⟨D, l, hmem⟩ := h.mem
  rcases hmem.sysIpcTrySend_step (hm.below hno) (hm.send hno) hok with
    rfl | ⟨e, k₁, perm, he, hr, hargs, hstep, rfl⟩
  · exact h
  · have helse := hs.send hno e he hr hargs
    have hlive := envid2env_live (h.live_own hcur) he
    have h₁ : SysInv R (some c) k₁ := by
      obtain ⟨l', hp⟩ := hstep.inv
      have hmem₁ : KernelInv R D l' k₁ := by
        rw [hstep.rest]
        exact hmem.withPmap hp
      exact h.sameStatus ⟨D, l', hmem₁⟩ hstep.cpus hstep.log (fun i => by rw [hstep.envs])
        fun i => by rw [hstep.envs]
    refine h₁.setEnv ?_ ?_ rfl rfl (Or.inl rfl)
    · rw [hstep.envs]
      exact hlive.2
    · rintro ⟨c', hc', hcur'⟩
      rw [Kernel.curenv, hstep.cpus] at hcur'
      exact helse ⟨c', hc', hcur'⟩

theorem sysIpcRecv (h : SysInv R (some c) k) (hcur : k.curenv c = some cur) (dstva : Word) :
    Post (sysIpcRecv k c cur dstva) (Flow.Sat (SysInv R (some c)) (SysInv R none)) := by
  unfold Jos.sysIpcRecv
  split
  · exact .ok h
  · exact schedYield (h.setEnv (h.live_own hcur).2 (h.not_elsewhere hcur) rfl rfl (Or.inr rfl))

/-- Every safe system call keeps the invariant. -/
theorem syscall (h : SysInv R (some c) k) (hcur : k.curenv c = some cur) {call : Call}
    (input : Word) (hm : MemSafe k cur call) (hs : StatusSafe k c cur call) :
    Post (syscall k c cur input call.syscallno call.a1 call.a2 call.a3 call.a4 call.a5)
      (Flow.Sat (SysInv R (some c)) (SysInv R none)) := by
  have hno : ∀ w : Word, call.syscallno.toNat = w.toNat → call.syscallno = w :=
    fun w hw => BitVec.eq_of_toNat_eq hw
  unfold Jos.syscall
  split
  · exact h.sysCputs hcur call.a1 call.a2
  · exact .ok h
  · exact .ok h
  · next hn => exact h.sysEnvDestroy hcur (hno SYS_env_destroy hn) hs
  · next hn =>
    refine .map fun x hx => h.pmapStep fun D l hmem => ?_
    exact hmem.sysPageAlloc_step (hm.alloc (hno SYS_page_alloc hn)) hx
  · next hn =>
    refine .map fun x hx => h.pmapStep fun D l hmem => ?_
    exact hmem.sysPageMap_step (hm.map (hno SYS_page_map hn)) hx
  · refine .map fun x hx => h.pmapStep fun D l hmem => ?_
    exact hmem.sysPageUnmap_step hx
  · exact .map h.sysExofork
  · next hn => exact .ok (h.sysEnvSetStatus hcur (hno SYS_env_set_status hn) hs)
  · exact .ok (h.sysEnvSetPgfaultUpcall call.a1 call.a2)
  · exact h.schedYield
  · next hn => exact .map (h.sysIpcTrySend hcur (hno SYS_ipc_try_send hn) hm hs)
  · exact h.sysIpcRecv hcur call.a1
  · exact .ok h

/-! ## Traps -/

theorem utrapframe_length (faultVa : Word) (tf : Trapframe) :
    (utrapframe faultVa tf).length = 52 := rfl

/-- The frame lies on the page below `UXSTACKTOP` or on the one below that. -/
theorem utfAddr_le (tf : Trapframe) : (utfAddr tf).toNat + 52 ≤ UTOP.toNat := by
  have hU : UXSTACKTOP.toNat = 0xeec00000 := by decide
  have hU' : UTOP.toNat = 0xeec00000 := toNat_UTOP
  have hlow : (UXSTACKTOP - BitVec.ofNat 32 PGSIZE).toNat = 0xeebff000 := by decide
  have hsize : UTF_SIZE.toNat = 56 := by decide
  simp only [utfAddr, BitVec.toNat_sub, hsize]
  split
  · next hesp =>
    have h₁ := BitVec.lt_def.mp hesp.1
    have h₂ := BitVec.lt_def.mp hesp.2
    omega
  · omega

theorem pageFaultHandler (h : SysInv R (some c) k) {faultVa : Word} {tf : Trapframe}
    (hrun : ∀ e, k.curenv c = some e → (k.envs e).envStatus = .running) :
    Post (pageFaultHandler k c faultVa tf) (Flow.Sat (SysInv R (some c)) (SysInv R none)) := by
  unfold Jos.pageFaultHandler
  split
  · exact .error _
  · split
    · exact .error _
    · next cur hcur =>
      split
      · refine .bind' fun b _ => ?_
        split
        · exact h.envDestroy_own hcur
        · refine .bind' fun s hs => ?_
          have h₁ : SysInv R (some c) { k with pmap := s } := by
            refine h.withPmap fun D l hmem => ⟨l, hmem.pmap.copyTo ?_ ?_ hs⟩
            · exact hmem.envs.dir cur _ (h.cpus.cr3 c cur hcur)
            · rw [utrapframe_length]
              exact utfAddr_le tf
          have htf := OnlyTf.setEnv { k with pmap := s } cur
            { (k.envs cur).envTf with eip := (k.envs cur).envPgfaultUpcall, esp := utfAddr tf }
          refine (leaveRules R c).envRun (h₁.onlyTf htf) hcur ?_
          exact (htf.status cur).trans (hrun cur hcur)
      · exact h.envDestroy_own hcur

theorem trapDispatch (h : SysInv R (some c) k) {faultVa input : Word} {tf : Trapframe}
    (hrun : ∀ e, k.curenv c = some e → (k.envs e).envStatus = .running)
    (hs : tf.trapno = T_SYSCALL → ∀ cur, k.curenv c = some cur →
      MemSafe k cur (callOf tf.regs) ∧ StatusSafe k c cur (callOf tf.regs)) :
    Post (trapDispatch k c faultVa input tf) (Flow.Sat (SysInv R (some c)) (SysInv R none)) := by
  refine (leaveRules R c).trapDispatch h (fun _ => h.pageFaultHandler hrun) ?_
    fun _ cur hcur => h.envDestroy_own hcur
  intro hsys cur hcur
  obtain ⟨hm, hst⟩ := hs hsys cur hcur
  exact h.syscall hcur input hm hst

theorem trap (h : SysInv R none k) {gate : Gate} {faultVa input : Word} {tf : Trapframe}
    (hs : tf.trapno = T_SYSCALL → ∀ cur, k.curenv c = some cur →
      MemSafe k cur (callOf tf.regs) ∧ StatusSafe k c cur (callOf tf.regs))
    (hkern : tf.cs &&& 3#32 ≠ 3#32 → k.curenv c = none) :
    Post (trap k c gate faultVa input tf) (Flow.Sat (SysInv R (some c)) (SysInv R none)) := by
  unfold Jos.trap
  split
  · exact .error _
  · split
    · split
      · exact .error _
      · next cur hcur =>
        split
        · next hdying =>
          exact (h.reap hcur hdying).bind fun k' hk' => SysInv.schedYield hk'
        · next hdying =>
          have hrun : (k.envs cur).envStatus = .running :=
            (h.cpus.status c cur nofun hcur).resolve_right hdying
          have hown : OwnOk c k := by
            intro e he
            obtain rfl : cur = e := Option.some.inj (hcur.symm.trans he)
            exact ⟨hdying, (h.live hcur).2⟩
          have htf := OnlyTf.setEnv k cur tf
          have h₁ := (h.enter hown).onlyTf htf
          refine (leaveRules R c).trapBody (h₁.trapDispatch ?_ ?_)
          · intro e he
            obtain rfl : cur = e := Option.some.inj (hcur.symm.trans he)
            exact (htf.status cur).trans hrun
          · intro hsys cur' hcur'
            obtain ⟨hm, hst⟩ := hs hsys cur' hcur'
            exact ⟨htf.memSafe hm, htf.statusSafe hst⟩
    · next hcs =>
      have hnone := hkern hcs
      have hown : OwnOk c k := fun e he => by
        rw [hnone] at he
        cases he
      refine (leaveRules R c).trapBody ((h.enter hown).trapDispatch ?_ hs)
      intro e he
      rw [hnone] at he
      cases he

/-! ## Runs -/

theorem curenv_none (h : SysInv R none k) (hmode : (k.cpus c).mode ≠ .user) : k.curenv c = none := by
  by_contra hc
  exact hmode ((h.cpus.mode c nofun).mpr hc)

theorem ownOk_none (hnone : k.curenv c = none) : OwnOk c k := by
  intro e he
  rw [hnone] at he
  cases he

/-- A store by user code hits memory of its own environment. -/
theorem store (h : SysInv R none k) (hmode : (k.cpus c).mode = .user) {va : Word} {b : BitVec 8}
    {s : Pmap} (hs : storeByte k.pmap (k.cpus c).cr3 va USER_W b = some s) :
    SysInv R none { k with pmap := s } := by
  obtain ⟨e, hcur⟩ := Option.ne_none_iff_exists'.mp ((h.cpus.mode c nofun).mp hmode)
  refine h.withPmap fun D l hmem => ⟨l, ?_⟩
  exact (hmem.pmap.userStore (hmem.envs.dir e _ (h.cpus.cr3 c e hcur)) hs).1

/-- A safe step keeps the invariant. -/
theorem exec {sys : System} {a : Action} (h : SysInv R none k) (hen : Enabled sys k a)
    (hs : Safe k a) (hx : exec k a = .ok (.left k')) : SysInv R none k' := by
  cases a with
  | store c va b =>
    obtain ⟨s, hs⟩ := Option.ne_none_iff_exists'.mp hen.2.2
    have hk' : Except.ok (.left { k with pmap := s }) = (.ok (.left k') : Except Panic Flow) := by
      rw [← hx, Jos.exec, hs]
      rfl
    obtain rfl := Flow.left.inj (Except.ok.inj hk')
    exact h.store hen.2.1 hs
  | trap c gate faultVa input tf =>
    have hcs : tf.cs &&& 3#32 = 3#32 := by
      rw [hen.2.2.2.cs]
      decide
    exact h.trap hs (fun hc => absurd hcs hc) _ hx
  | irq c gate trapno =>
    refine h.trap (fun hsys => absurd hsys hen.2.2.2) (fun _ => h.curenv_none ?_) _ hx
    rw [hen.2.1]
    exact nofun
  | start c =>
    have hnone := h.curenv_none (c := c) (by rw [hen.2]; exact nofun)
    exact SysInv.schedYield (h.enter (ownOk_none hnone)) _ hx

end SysInv

/-- The invariant holds when the first environments have been made. -/
theorem Started.sysInv (h : Started R D l k) : SysInv R none k := by
  have hnone : ∀ c, k.curenv c = none := fun c => by rw [Kernel.curenv, h.cpus c]
  refine ⟨⟨D, l, h.inv⟩, ⟨?_, ?_, ?_, ?_, ?_⟩, ⟨fun e => ?_, ?_⟩, fun c hc => by cases hc⟩
  · intro c _ e he
    rw [hnone] at he
    cases he
  · intro c e _ he
    rw [hnone] at he
    cases he
  · intro e he
    rw [h.status e] at he
    split at he <;> rcases he with he | he <;> cases he
  · intro c _
    rw [hnone, h.cpus c]
    exact iff_of_false (by rintro ⟨⟩) fun hc => hc rfl
  · intro c e he
    rw [hnone] at he
    cases he
  · rw [h.log, h.status e]
    rcases e with _ | _ | e <;> rfl
  · intro c e cpuEnv hmem
    rw [h.log] at hmem
    rcases List.mem_pair.mp hmem with hc | hc <;> cases hc

/-- The invariant holds in every state that a run of safe steps reaches. -/
theorem Reach.sysInv {sys : System} (h : Reach sys Safe k) : ∃ R, SysInv R none k := by
  induction h with
  | @boot k₀ _ hinit hy =>
    obtain ⟨s₀, D, l, hs⟩ := hinit.started
    have hnone : k₀.curenv 0 = none := by rw [Kernel.curenv, hs.cpus 0]
    exact ⟨notFree s₀, SysInv.schedYield (hs.sysInv.enter (SysInv.ownOk_none hnone)) _ hy⟩
  | step _ hen hP hx ih =>
    obtain ⟨R, hk⟩ := ih
    exact ⟨R, hk.exec hen hP hx⟩

end Jos
