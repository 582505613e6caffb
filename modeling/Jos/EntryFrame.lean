import Jos.CallFrame

/-!
# What one kernel entry is made of

A trap runs through a handful of changes of the state: memory and registers of the current environment change,
environments are freed, marked, dispatched, and four system calls do something of their own to an environment.
A relation between states that holds across each of these holds across the whole entry (`EntryRel.trap`), however
it ends.
-/

namespace Jos

open Pmap Kernel Except

variable {k k' : Kernel} {c e cur : Nat} {Rel : Kernel → Kernel → Prop}

/-- An interrupt in `sched_halt` does not come from user mode. -/
theorem idleFrame_kern (trapno : Nat) : (idleFrame trapno).cs &&& 3#32 ≠ 3#32 := by
  rw [idleFrame_cs]
  decide

/-- CPU `c` may go on with `e`: it is waiting for a CPU, or this one has it. -/
def MayRun (k : Kernel) (c e : Nat) : Prop :=
  (k.envs e).envStatus = .runnable ∨ (k.curenv c = some e ∧ (k.envs e).envStatus = .running)

/-- The changes that entries on CPU `c` for environment `cur` have in common keep `Rel`. -/
structure EntryRel (c cur : Nat) (Rel : Kernel → Kernel → Prop) : Prop where
  refl : ∀ k, Rel k k
  trans : ∀ k k' k'', Rel k k' → Rel k' k'' → Rel k k''
  memory : ∀ k s, Rel k { k with pmap := s }
  record : ∀ k ev, Rel k (k.record ev)
  save : ∀ k tf, UserFrame tf → Rel k (k.setEnv cur { k.envs cur with envTf := tf })
  eax : ∀ k r, Rel k (setEax k cur r)
  handler : ∀ k eip esp, Rel k (k.setEnv cur { k.envs cur with envTf := { (k.envs cur).envTf with eip, esp } })
  upcall : ∀ k e func, Rel k (k.setEnv e { k.envs e with envPgfaultUpcall := func })
  dying : ∀ k e, (k.envs e).envStatus = .running → Rel k (k.setStatus e .dying)
  free : ∀ k e s, Rel k (k.freeEnv c e s)
  drop : ∀ k, Rel k (k.setCurenv c none)
  run : ∀ k e, MayRun k c e → Rel k (k.runs c e)
  halt : ∀ k, Rel k (k.halts c)

/-- The system calls that change environments in their own way keep `Rel` from state `k` on. -/
structure CallRel (cur : Nat) (Rel : Kernel → Kernel → Prop) (k : Kernel) (call : Call) : Prop where
  fork : call.syscallno = SYS_exofork → ∀ e d s, k.envFreeList = some e →
    Rel k ((k.newEnv e d s (k.envs cur).envId).child cur e)
  status : call.syscallno = SYS_env_set_status → ∀ e st, envid2env k cur call.a1 true = some e →
    st = .runnable ∨ st = .notRunnable → Rel k (k.setStatus e st)
  send : call.syscallno = SYS_ipc_try_send → ∀ e k₁ perm, envid2env k cur call.a1 false = some e →
    (k.envs e).envIpcRecving = true → OnlyPmap k k₁ → Rel k (deliver k₁ cur e call.a2 perm)
  recv : call.syscallno = SYS_ipc_recv → Rel k (k.blocks cur call.a1)

namespace EntryRel

variable (h : EntryRel c cur Rel)
include h

/-- A part of the kernel that starts where another has stopped. -/
theorem after {x : Except Panic Flow} (hk : Rel k k') (hx : Post x (Flow.Sat (Rel k') (Rel k'))) :
    Post x (Flow.Sat (Rel k) (Rel k)) := by
  refine hx.mono fun f hf => ?_
  cases f with
  | ret r k₁ => exact h.trans _ _ _ hk hf
  | left k₁ => exact h.trans _ _ _ hk hf
  | monitor k₁ => trivial

theorem onlyPmap (hp : OnlyPmap k k') : Rel k k' := by
  obtain ⟨s, rfl⟩ := hp
  exact h.memory k s

/-! ## Leaving the kernel -/

theorem envRun (he : MayRun k c e) : Post (envRun k c e) (Flow.Sat (Rel k) (Rel k)) := by
  intro f hok
  obtain ⟨-, rfl⟩ := envRun_ok hok
  exact h.run k e he

theorem schedHalt {f : Flow} (hf : schedHalt k c = f) : Flow.Sat (Rel k) (Rel k) f := by
  rw [← hf]
  unfold Jos.schedHalt
  generalize (List.range NENV).any _ = b
  cases b with
  | false => trivial
  | true => exact h.halt k

theorem schedYield : Post (schedYield k c) (Flow.Sat (Rel k) (Rel k)) := by
  unfold Jos.schedYield
  generalize hf : Jos.schedHalt k c = f
  split
  · next e hpick => exact h.envRun (Or.inl (schedPick_some hpick).2)
  split
  · next cur hcur =>
    split
    · next hst => exact h.envRun (Or.inr ⟨hcur, hst⟩)
    · exact .ok (h.schedHalt hf)
  · exact .ok (h.schedHalt hf)

theorem trapReturn : Post (trapReturn k c) (Flow.Sat (Rel k) (Rel k)) := by
  unfold Jos.trapReturn
  split
  · next cur hcur =>
    split
    · next hst => exact h.envRun (Or.inr ⟨hcur, hst⟩)
    · exact h.schedYield
  · exact h.schedYield

/-! ## Destroying environments -/

theorem envFree : Post (envFree k c e) (Rel k) := by
  intro k' hok
  obtain ⟨-, s, rfl⟩ := envFree_ok hok
  exact h.free k e s

theorem envDestroy : Post (envDestroy k c e) (Flow.Sat (Rel k) (Rel k)) := by
  unfold Jos.envDestroy
  refine h.after (h.record k (.destroy e)) ?_
  simp only
  split
  · next hst => exact .ok (h.dying _ e hst.1)
  · refine h.envFree.bind fun k' hk' => h.after hk' ?_
    split
    · exact h.after (h.drop k') h.schedYield
    · exact .ok (h.refl k')

/-! ## System calls -/

theorem sysCputs (s len : Word) : Post (sysCputs k c cur s len) (Flow.Sat (Rel k) (Rel k)) := by
  refine .bind' fun b _ => ?_
  split
  · exact h.envDestroy
  refine .bind' fun b _ => ?_
  split
  · exact h.envDestroy
  · exact .bind' fun _ _ => .ok (h.refl k)

omit h in
theorem sysExofork {call : Call} (hc : CallRel cur Rel k call) (hno : call.syscallno = SYS_exofork) :
    Post (sysExofork k cur) fun x => Rel k x.2 := by
  rintro ⟨r, k'⟩ hok
  obtain ⟨e, k₁, halloc, rfl, -⟩ := sysExofork_ok hok
  obtain ⟨e', d, s, he, hfree, rfl⟩ | ⟨⟨err, herr⟩, -⟩ := envAlloc_ok halloc
  · cases he
    exact hc.fork hno e d s hfree
  · cases herr

theorem sysEnvSetStatus {call : Call} (hc : CallRel cur Rel k call)
    (hno : call.syscallno = SYS_env_set_status) : Rel k (sysEnvSetStatus k cur call.a1 call.a2).2 := by
  unfold Jos.sysEnvSetStatus
  split
  · exact h.refl k
  · next e he =>
    split
    · exact hc.status hno e _ he (Or.inl rfl)
    split
    · exact hc.status hno e _ he (Or.inr rfl)
    · exact h.refl k

theorem sysEnvSetPgfaultUpcall (envid func : Word) :
    Rel k (sysEnvSetPgfaultUpcall k cur envid func).2 := by
  unfold Jos.sysEnvSetPgfaultUpcall
  split
  · exact h.refl k
  · next e _ => exact h.upcall k e func

theorem sysIpcTrySend {call : Call} (hc : CallRel cur Rel k call)
    (hno : call.syscallno = SYS_ipc_try_send) :
    Post (sysIpcTrySend k cur call.a1 call.a2 call.a3 call.a4) fun x => Rel k x.2 := by
  refine (sysIpcTrySend_ok call.a1 call.a2 call.a3 call.a4).mono ?_
  rintro x (⟨-, hp⟩ | ⟨e, k₁, perm, he, hr, hp, rfl⟩)
  · exact h.onlyPmap hp
  · exact hc.send hno e k₁ perm he hr hp

theorem sysIpcRecv {call : Call} (hc : CallRel cur Rel k call) (hno : call.syscallno = SYS_ipc_recv) :
    Post (sysIpcRecv k c cur call.a1) (Flow.Sat (Rel k) (Rel k)) := by
  unfold Jos.sysIpcRecv
  split
  · exact .ok (h.refl k)
  · exact h.after (hc.recv hno) h.schedYield

theorem syscall {call : Call} (hc : CallRel cur Rel k call) (input : Word) :
    Post (syscall k c cur input call.syscallno call.a1 call.a2 call.a3 call.a4 call.a5)
      (Flow.Sat (Rel k) (Rel k)) := by
  have hno : ∀ w : Word, call.syscallno.toNat = w.toNat → call.syscallno = w :=
    fun w hw => BitVec.eq_of_toNat_eq hw
  unfold Jos.syscall
  split
  · exact h.sysCputs _ _
  · exact .ok (h.refl k)
  · exact .ok (h.refl k)
  · unfold sysEnvDestroy
    split
    · exact .ok (h.refl k)
    · exact h.envDestroy
  · exact .map ((sysPageAlloc_onlyPmap _ _ _).mono fun _ hp => h.onlyPmap hp)
  · exact .map ((sysPageMap_onlyPmap _ _ _ _ _).mono fun _ hp => h.onlyPmap hp)
  · exact .map ((sysPageUnmap_onlyPmap _ _).mono fun _ hp => h.onlyPmap hp)
  · next hn => exact .map (sysExofork hc (hno SYS_exofork hn))
  · next hn => exact .ok (h.sysEnvSetStatus hc (hno SYS_env_set_status hn))
  · exact .ok (h.sysEnvSetPgfaultUpcall _ _)
  · exact h.schedYield
  · next hn => exact .map (h.sysIpcTrySend hc (hno SYS_ipc_try_send hn))
  · next hn => exact h.sysIpcRecv hc (hno SYS_ipc_recv hn)
  · exact .ok (h.refl k)

/-! ## Traps -/

/-- An environment that CPU `c` has is `cur`, and it is running. -/
def OwnRuns (k : Kernel) (c cur : Nat) : Prop :=
  ∀ e, k.curenv c = some e → e = cur ∧ (k.envs e).envStatus = .running

theorem pageFaultHandler {faultVa : Word} {tf : Trapframe} (hown : OwnRuns k c cur) :
    Post (pageFaultHandler k c faultVa tf) (Flow.Sat (Rel k) (Rel k)) := by
  unfold Jos.pageFaultHandler
  split
  · exact .error _
  split
  · exact .error _
  · next e he =>
    obtain ⟨rfl, hrun⟩ := hown e he
    split
    · refine .bind' fun b _ => ?_
      split
      · exact h.envDestroy
      · refine .bind' fun s _ => h.after (h.memory k s) (h.after (h.handler _ _ _) (h.envRun (Or.inr ⟨he, ?_⟩)))
        rw [setEnv_envs, if_pos rfl]
        exact hrun
    · exact h.envDestroy

theorem trapDispatch {faultVa input : Word} {tf : Trapframe} (hown : OwnRuns k c cur)
    (hc : tf.trapno = T_SYSCALL → CallRel cur Rel k (callOf tf.regs)) :
    Post (trapDispatch k c faultVa input tf) (Flow.Sat (Rel k) (Rel k)) := by
  unfold Jos.trapDispatch
  split
  · exact h.pageFaultHandler hown
  split
  · exact .ok trivial
  split
  · next hno =>
    split
    · exact .error _
    · next e he =>
      obtain ⟨rfl, -⟩ := hown e he
      refine (h.syscall (hc hno) input).bind fun f hf => ?_
      cases f with
      | ret r k₁ => exact .ok (h.trans _ _ _ hf (h.eax _ r))
      | left k₁ => exact .ok hf
      | monitor k₁ => exact .ok trivial
  split
  · exact .ok (h.refl k)
  split
  · exact h.schedYield
  split
  · exact .error _
  split
  · exact .error _
  · exact h.envDestroy

theorem trapBody {faultVa input : Word} {tf : Trapframe} (hown : OwnRuns k c cur)
    (hc : tf.trapno = T_SYSCALL → CallRel cur Rel k (callOf tf.regs)) :
    Post (trapBody k c faultVa input tf) (Flow.Sat (Rel k) (Rel k)) := by
  refine (h.trapDispatch hown hc).bind fun f hf => ?_
  cases f with
  | ret r k₁ => exact h.after hf h.trapReturn
  | left k₁ => exact .ok hf
  | monitor k₁ => exact .ok trivial

/-- An interrupt or exception other than a page fault, which does nothing for `cur` in particular. -/
theorem interrupt {faultVa input : Word} {tf : Trapframe} (hpf : tf.trapno ≠ T_PGFLT) (hno : tf.trapno ≠ T_SYSCALL) :
    Post (Jos.trapBody k c faultVa input tf) (Flow.Sat (Rel k) (Rel k)) := by
  have hdispatch : Post (Jos.trapDispatch k c faultVa input tf) (Flow.Sat (Rel k) (Rel k)) := by
    unfold Jos.trapDispatch
    rw [if_neg hpf]
    split
    · exact .ok trivial
    split
    · exact .ok (h.refl k)
    split
    · exact h.schedYield
    split
    · exact .error _
    split
    · exact .error _
    · exact h.envDestroy
  refine hdispatch.bind fun f hf => ?_
  cases f with
  | ret r k₁ => exact h.after hf h.trapReturn
  | left k₁ => exact .ok hf
  | monitor k₁ => exact .ok trivial

/-- An entry from user mode, or an interrupt of a halted CPU. -/
theorem trap {gate : Gate} {faultVa input : Word} {tf : Trapframe}
    (huser : tf.cs &&& 3#32 = 3#32 → UserFrame tf)
    (hown : ∀ e, k.curenv c = some e → e = cur ∧
      ((k.envs e).envStatus = .running ∨ (k.envs e).envStatus = .dying))
    (hkern : tf.cs &&& 3#32 ≠ 3#32 → k.curenv c = none ∧ tf.trapno ≠ T_SYSCALL)
    (hc : tf.trapno = T_SYSCALL →
      CallRel cur Rel (k.setEnv cur { k.envs cur with envTf := tf }) (callOf tf.regs)) :
    Post (trap k c gate faultVa input tf) (Flow.Sat (Rel k) (Rel k)) := by
  unfold Jos.trap
  split
  · exact .error _
  split
  · next hcs =>
    split
    · exact .error _
    · next e he =>
      obtain ⟨rfl, hst⟩ := hown e he
      split
      · refine h.envFree.bind fun k' hk' => ?_
        exact h.after hk' (h.after (h.drop k') h.schedYield)
      · next hdying =>
        refine h.after (h.save k tf (huser hcs)) (h.trapBody (fun i hi => ?_) hc)
        obtain rfl : e = i := Option.some.inj (he.symm.trans hi)
        refine ⟨rfl, ?_⟩
        rw [setEnv_envs, if_pos rfl]
        exact hst.resolve_right hdying
  · next hcs =>
    obtain ⟨hnone, hno⟩ := hkern hcs
    refine h.trapBody (fun i hi => ?_) fun hsys => absurd hsys hno
    rw [hnone] at hi
    cases hi

end EntryRel

/-! ## Facts about single environments -/

/-- A fact `Q e env` about the contents of slot `e` that the changes entries have in common keep. -/
structure EnvRules (cur : Nat) (Q : Nat → Env → Prop) : Prop where
  save : ∀ env tf, UserFrame tf → Q cur env → Q cur { env with envTf := tf }
  eax : ∀ env w, Q cur env →
    Q cur { env with envTf := { env.envTf with regs := { env.envTf.regs with eax := w } } }
  handler : ∀ env eip esp, Q cur env → Q cur { env with envTf := { env.envTf with eip, esp } }
  upcall : ∀ e env func, Q e env → Q e { env with envPgfaultUpcall := func }
  dying : ∀ e env, env.envStatus = .running → Q e env → Q e { env with envStatus := .dying }
  free : ∀ e env link, Q e env → Q e { env with envPgdir := none, envStatus := .free, envLink := link }
  run : ∀ e env runs cpu, env.envStatus = .runnable ∨ env.envStatus = .running → Q e env →
    Q e { env with envStatus := .running, envRuns := runs, envCpunum := cpu }
  preempt : ∀ e env, env.envStatus = .running → Q e env → Q e { env with envStatus := .runnable }

/-- If it held of all slots, it still does. -/
def Keeps (Q : Nat → Env → Prop) (k k' : Kernel) : Prop := (∀ e, Q e (k.envs e)) → ∀ e, Q e (k'.envs e)

variable {Q : Nat → Env → Prop}

theorem Keeps.of_envs (h : k'.envs = k.envs) : Keeps Q k k' := by
  intro hk
  rw [h]
  exact hk

theorem Keeps.setEnv {env : Env} (h : Q e (k.envs e) → Q e env) : Keeps Q k (k.setEnv e env) := by
  intro hk i
  rw [setEnv_envs]
  split
  · next hi =>
    subst hi
    exact h (hk i)
  · exact hk i

theorem EnvRules.entryRel (h : EnvRules cur Q) (c : Nat) : EntryRel c cur (Keeps Q) where
  refl k := .of_envs rfl
  trans _ _ _ h₁ h₂ hk := h₂ (h₁ hk)
  memory k s := .of_envs rfl
  record k ev := .of_envs rfl
  save k tf htf := .setEnv (h.save _ tf htf)
  eax k r := .setEnv (h.eax _ _)
  handler k eip esp := .setEnv (h.handler _ eip esp)
  upcall k e func := .setEnv (h.upcall e _ func)
  dying k e hst := .setEnv (h.dying e _ hst)
  free k e s hk i := by
    by_cases hi : i = e
    · subst hi
      rw [freeEnv_envs_self]
      exact h.free i _ _ (hk i)
    · rw [freeEnv_envs_of_ne hi]
      exact hk i
  drop k := .of_envs rfl
  run k e he hk i := by
    simp only [Kernel.runs]
    split
    · next hi =>
      subst hi
      exact h.run i _ _ _ (he.imp_right And.right) (hk i)
    split
    · next hi => exact h.preempt i _ hi.2 (hk i)
    · exact hk i
  halt k := .of_envs rfl

end Jos
