import Jos.Effects
import Jos.EnvTable

/-!
# What system calls change

The effects of system calls outside memory, whatever state memory is in. The calls on pages change nothing
else, `sys_ipc_try_send` writes into one receiver, and `sys_exofork` fills the slot that `env_alloc` took.
-/

namespace Jos

open Pmap Kernel Except

variable {k k' : Kernel} {c e cur : Nat}

/-- Only memory has changed. -/
def OnlyPmap (k k' : Kernel) : Prop := ∃ s, k' = { k with pmap := s }

namespace OnlyPmap

theorem refl (k : Kernel) : OnlyPmap k k := ⟨k.pmap, rfl⟩

theorem envs (h : OnlyPmap k k') : k'.envs = k.envs := by
  obtain ⟨s, rfl⟩ := h
  rfl

theorem cpus (h : OnlyPmap k k') : k'.cpus = k.cpus := by
  obtain ⟨s, rfl⟩ := h
  rfl

theorem sameLife (h : OnlyPmap k k') : SameLife k k' := by
  obtain ⟨s, rfl⟩ := h
  exact .of_envs rfl rfl

end OnlyPmap

/-! ## Calls on pages -/

theorem sysPageAlloc_onlyPmap (envid va perm : Word) :
    Post (sysPageAlloc k cur envid va perm) fun x => OnlyPmap k x.2 := by
  unfold sysPageAlloc
  split
  · exact .ok (.refl k)
  split
  · exact .ok (.refl k)
  split
  · exact .ok (.refl k)
  refine .bind' fun ⟨p, s⟩ _ => ?_
  cases p with
  | none => exact .ok ⟨s, rfl⟩
  | some p =>
    refine .bind' fun d _ => .bind' fun ⟨r, s'⟩ _ => ?_
    simp only
    split
    · exact .bind' fun s'' _ => .ok ⟨s'', rfl⟩
    · exact .ok ⟨s', rfl⟩

theorem sysPageMap_onlyPmap (srcenvid srcva dstenvid dstva perm : Word) :
    Post (sysPageMap k cur srcenvid srcva dstenvid dstva perm) fun x => OnlyPmap k x.2 := by
  unfold sysPageMap
  split
  · split
    · exact .ok (.refl k)
    split
    · exact .ok (.refl k)
    refine .bind' fun sd _ => .bind' fun o _ => ?_
    cases o with
    | none => exact .ok (.refl k)
    | some p =>
      simp only
      split
      · exact .ok (.refl k)
      refine .bind' fun dd _ => .bind' fun ⟨r, s⟩ _ => ?_
      simp only
      split
      · exact .ok ⟨s, rfl⟩
      · exact .ok ⟨s, rfl⟩
  · exact .ok (.refl k)

theorem sysPageUnmap_onlyPmap (envid va : Word) :
    Post (sysPageUnmap k cur envid va) fun x => OnlyPmap k x.2 := by
  unfold sysPageUnmap
  split
  · exact .ok (.refl k)
  split
  · exact .ok (.refl k)
  · exact .bind' fun d _ => .bind' fun s _ => .ok ⟨s, rfl⟩

/-! ## Messages and new environments -/

/-- The errors of `sys_ipc_try_send`. -/
def SendError (r : Int) : Prop := r = -E_BAD_ENV ∨ r = -E_IPC_NOT_RECV ∨ r = -E_INVAL

/-- A send changes only memory, or writes into the receiver it was meant for. -/
theorem sysIpcTrySend_ok (envid value srcva perm : Word) :
    Post (sysIpcTrySend k cur envid value srcva perm) fun x =>
      (SendError x.1 ∧ OnlyPmap k x.2) ∨ ∃ e k₁ perm', envid2env k cur envid false = some e ∧
        (k.envs e).envIpcRecving = true ∧ OnlyPmap k k₁ ∧ x = (0, deliver k₁ cur e value perm') := by
  have hinval : SendError (-E_INVAL) := Or.inr (Or.inr rfl)
  unfold sysIpcTrySend
  split
  · exact .ok (Or.inl ⟨Or.inl rfl, .refl k⟩)
  · next e he =>
    split
    · exact .ok (Or.inl ⟨Or.inr (Or.inl rfl), .refl k⟩)
    · next hrecv =>
      have hrecv' : (k.envs e).envIpcRecving = true := Bool.eq_true_of_not_eq_false hrecv
      split
      · split
        · exact .ok (Or.inl ⟨hinval, .refl k⟩)
        split
        · exact .ok (Or.inl ⟨hinval, .refl k⟩)
        refine .bind' fun sd _ => .bind' fun o _ => ?_
        cases o with
        | none => exact .ok (Or.inl ⟨hinval, .refl k⟩)
        | some p =>
          simp only
          split
          · exact .ok (Or.inl ⟨hinval, .refl k⟩)
          refine .bind' fun dd _ => .bind' fun ⟨r, s⟩ _ => ?_
          simp only
          split
          · exact .ok (Or.inl ⟨hinval, s, rfl⟩)
          · exact .ok (Or.inr ⟨e, { k with pmap := s }, perm, he, hrecv', ⟨s, rfl⟩, rfl⟩)
      · exact .ok (Or.inr ⟨e, k, 0#32, he, hrecv', .refl k, rfl⟩)

/-- The child of `cur`, once `env_alloc` has made it: it is not runnable yet and returns 0. -/
def Kernel.child (k : Kernel) (cur e : Nat) : Kernel :=
  let tf := (k.envs cur).envTf
  k.setEnv e { k.envs e with
    envStatus := .notRunnable
    envTf := { tf with regs := { tf.regs with eax := 0#32 } } }

/-- `sys_exofork` panics or makes an environment. -/
theorem sysExofork_ok {r : Int} (h : sysExofork k cur = .ok (r, k')) :
    ∃ e k₁, envAlloc k (k.envs cur).envId = .ok (.ok e, k₁) ∧ k' = k₁.child cur e ∧
      r = (k₁.envs e).envId.toInt := by
  unfold sysExofork at h
  obtain ⟨⟨o, k₁⟩, halloc, h⟩ := bind_eq_ok.mp h
  cases o with
  | error err => cases h
  | ok e =>
    obtain ⟨rfl, rfl⟩ := Prod.mk.inj (Except.ok.inj h)
    refine ⟨e, k₁, halloc, rfl, ?_⟩
    rw [setEnv_envs, if_pos rfl]

/-! ## The other CPUs -/

/-- Nothing has changed about the CPUs other than `c`. -/
def OtherCpus (c : Nat) (k k' : Kernel) : Prop := ∀ c', c' ≠ c → k'.cpus c' = k.cpus c'

namespace OtherCpus

theorem of_cpus (h : k'.cpus = k.cpus) : OtherCpus c k k' := fun _ _ => by rw [h]

theorem setCpu (k : Kernel) (c : Nat) (cpu : Cpu) : OtherCpus c k (k.setCpu c cpu) :=
  fun _ hne => Function.update_of_ne hne ..

theorem trans {k'' : Kernel} (h : OtherCpus c k k') (h' : OtherCpus c k' k'') : OtherCpus c k k'' :=
  fun c' hne => (h' c' hne).trans (h c' hne)

/-- A part of the kernel that starts where another has stopped. -/
theorem after {x : Except Panic Flow} (h : OtherCpus c k k')
    (hx : Post x (Flow.Sat (OtherCpus c k') (OtherCpus c k'))) :
    Post x (Flow.Sat (OtherCpus c k) (OtherCpus c k)) := by
  refine hx.mono fun f hf => ?_
  cases f with
  | ret r k₁ => exact h.trans hf
  | left k₁ => exact h.trans hf
  | monitor k₁ => trivial

theorem envRun : Post (envRun k c e) (Flow.Sat (OtherCpus c k) (OtherCpus c k)) := by
  intro f hok
  obtain ⟨-, rfl⟩ := envRun_ok hok
  exact fun c' hne => by rw [runs_cpus, if_neg hne]

theorem schedHalt {f : Flow} (hf : schedHalt k c = f) :
    Flow.Sat (OtherCpus c k) (OtherCpus c k) f := by
  rw [← hf]
  unfold Jos.schedHalt
  generalize (List.range NENV).any _ = b
  cases b with
  | false => trivial
  | true => exact setCpu k c _

theorem schedYield : Post (schedYield k c) (Flow.Sat (OtherCpus c k) (OtherCpus c k)) := by
  unfold Jos.schedYield
  generalize hf : Jos.schedHalt k c = f
  split
  · exact envRun
  split
  · split
    · exact envRun
    · exact .ok (schedHalt hf)
  · exact .ok (schedHalt hf)

theorem envDestroy : Post (envDestroy k c e) (Flow.Sat (OtherCpus c k) (OtherCpus c k)) := by
  unfold Jos.envDestroy
  simp only
  split
  · exact .ok (of_cpus rfl)
  · refine .bind' fun k' hok => ?_
    have hcpus : OtherCpus c k k' := by
      obtain ⟨-, s, rfl⟩ := envFree_ok hok
      exact of_cpus rfl
    split
    · exact (hcpus.trans (setCpu k' c _)).after schedYield
    · exact .ok hcpus

theorem sysExofork : Post (sysExofork k cur) fun x => OtherCpus c k x.2 := by
  rintro ⟨r, k'⟩ hok
  obtain ⟨e, k₁, halloc, rfl, -⟩ := sysExofork_ok hok
  obtain ⟨e', d, s, -, -, rfl⟩ | ⟨-, rfl⟩ := envAlloc_ok halloc
  · exact of_cpus rfl
  · exact of_cpus rfl

theorem sysIpcTrySend (envid value srcva perm : Word) :
    Post (sysIpcTrySend k cur envid value srcva perm) fun x => OtherCpus c k x.2 := by
  refine (sysIpcTrySend_ok envid value srcva perm).mono ?_
  rintro x (⟨-, hp⟩ | ⟨e, k₁, perm', -, -, hp, rfl⟩)
  · exact of_cpus hp.cpus
  · exact of_cpus hp.cpus

theorem sysEnvSetStatus (envid status : Word) :
    OtherCpus c k (sysEnvSetStatus k cur envid status).2 := by
  unfold Jos.sysEnvSetStatus
  split
  · exact of_cpus rfl
  split
  · exact of_cpus rfl
  split
  · exact of_cpus rfl
  · exact of_cpus rfl

theorem sysEnvSetPgfaultUpcall (envid func : Word) :
    OtherCpus c k (sysEnvSetPgfaultUpcall k cur envid func).2 := by
  unfold Jos.sysEnvSetPgfaultUpcall
  split
  · exact of_cpus rfl
  · exact of_cpus rfl

theorem sysCputs (s len : Word) :
    Post (sysCputs k c cur s len) (Flow.Sat (OtherCpus c k) (OtherCpus c k)) := by
  refine .bind' fun b _ => ?_
  split
  · exact envDestroy
  refine .bind' fun b _ => ?_
  split
  · exact envDestroy
  · exact .bind' fun _ _ => .ok (of_cpus rfl)

theorem syscallOf (input : Word) (regs : PushRegs) :
    Post (syscallOf k c cur input regs) (Flow.Sat (OtherCpus c k) (OtherCpus c k)) := by
  have hrefl : OtherCpus c k k := of_cpus rfl
  unfold Jos.syscallOf syscall
  split
  · exact sysCputs _ _
  · exact .ok hrefl
  · exact .ok hrefl
  · unfold sysEnvDestroy
    split
    · exact .ok hrefl
    · exact envDestroy
  · exact .map ((sysPageAlloc_onlyPmap _ _ _).mono fun _ hp => of_cpus hp.cpus)
  · exact .map ((sysPageMap_onlyPmap _ _ _ _ _).mono fun _ hp => of_cpus hp.cpus)
  · exact .map ((sysPageUnmap_onlyPmap _ _).mono fun _ hp => of_cpus hp.cpus)
  · exact .map sysExofork
  · exact .ok (sysEnvSetStatus _ _)
  · exact .ok (sysEnvSetPgfaultUpcall _ _)
  · exact schedYield
  · exact .map (sysIpcTrySend _ _ _ _)
  · unfold sysIpcRecv
    split
    · exact .ok hrefl
    · exact after (of_cpus rfl) schedYield
  · exact .ok hrefl

theorem pageFaultHandler {faultVa : Word} {tf : Trapframe} :
    Post (pageFaultHandler k c faultVa tf) (Flow.Sat (OtherCpus c k) (OtherCpus c k)) := by
  unfold Jos.pageFaultHandler
  split
  · exact .error _
  split
  · exact .error _
  · split
    · refine .bind' fun b _ => ?_
      split
      · exact envDestroy
      · exact .bind' fun s _ => after (of_cpus rfl) envRun
    · exact envDestroy

theorem trapDispatch {faultVa input : Word} {tf : Trapframe} :
    Post (trapDispatch k c faultVa input tf) (Flow.Sat (OtherCpus c k) (OtherCpus c k)) := by
  have hrefl : OtherCpus c k k := of_cpus rfl
  unfold Jos.trapDispatch
  split
  · exact pageFaultHandler
  split
  · exact .ok trivial
  split
  · split
    · exact .error _
    · refine (syscallOf input _).bind fun f hf => ?_
      cases f with
      | ret r k₁ => exact .ok (hf.trans (of_cpus rfl))
      | left k₁ => exact .ok hf
      | monitor k₁ => exact .ok trivial
  split
  · exact .ok hrefl
  split
  · exact schedYield
  split
  · exact .error _
  split
  · exact .error _
  · exact envDestroy

theorem trapBody {faultVa input : Word} {tf : Trapframe} :
    Post (trapBody k c faultVa input tf) (Flow.Sat (OtherCpus c k) (OtherCpus c k)) := by
  refine trapDispatch.bind fun f hf => ?_
  cases f with
  | ret r k₁ =>
    refine hf.after ?_
    simp only [trapReturn]
    split
    · split
      · exact envRun
      · exact schedYield
    · exact schedYield
  | left k₁ => exact .ok hf
  | monitor k₁ => exact .ok trivial

/-- A kernel entry on one CPU leaves the others where they are. -/
theorem trap {gate : Gate} {faultVa input : Word} {tf : Trapframe} :
    Post (trap k c gate faultVa input tf) (Flow.Sat (OtherCpus c k) (OtherCpus c k)) := by
  unfold Jos.trap
  split
  · exact .error _
  split
  · split
    · exact .error _
    · split
      · refine .bind' fun k' hok => ?_
        obtain ⟨-, s, rfl⟩ := envFree_ok hok
        refine after ?_ schedYield
        exact setCpu _ c _
      · exact after (of_cpus rfl) trapBody
  · exact trapBody

end OtherCpus

/-! ## Ending the current environment -/

/-- After `env_destroy(curenv)` the environment is gone, whatever the CPU does next. -/
theorem envDestroy_self {D : Finset Nat} {f : Flow} (h : EnvsOk D k) (hcur : k.curenv c = some cur)
    (hok : envDestroy k c cur = .ok f) :
    ∃ k', (f = .left k' ∨ f = .monitor k') ∧ (k'.envs cur).envStatus = .free := by
  unfold envDestroy at hok
  have hself : ¬ (((k.record (.destroy cur)).envs cur).envStatus = .running ∧
      (k.record (.destroy cur)).curenv c ≠ some cur) := fun hc => hc.2 hcur
  simp only at hok
  rw [if_neg hself] at hok
  obtain ⟨k₁, hfree, hok⟩ := Except.bind_eq_ok.mp hok
  obtain ⟨-, s, rfl⟩ := envFree_ok hfree
  have hcur' : ((k.record (.destroy cur)).freeEnv c cur s).curenv c = some cur := hcur
  obtain ⟨k₁, hk₁⟩ : ∃ k₁, k₁ = (k.record (.destroy cur)).freeEnv c cur s := ⟨_, rfl⟩
  have hst : (k₁.envs cur).envStatus = .free := by
    rw [hk₁, freeEnv_envs_self]
  have hlt : ∀ e, (k₁.envs e).envPgdir ≠ none → e < NENV := by
    intro e he
    by_cases hec : e = cur
    · rw [hec, hk₁, freeEnv_envs_self] at he
      exact absurd rfl he
    · rw [hk₁, freeEnv_envs_of_ne hec] at he
      obtain ⟨d, hd⟩ := Option.ne_none_iff_exists'.mp he
      exact h.lt e d hd
  rw [← hk₁] at hok hcur'
  rw [if_pos hcur'] at hok
  have hnone : (k₁.setCurenv c none).curenv c = none := by
    rw [Kernel.curenv, setCurenv_cpus, if_pos rfl]
  rcases schedYield_ok (k := k₁.setCurenv c none) hlt hok with ⟨e, ⟨-, hd⟩, rfl⟩ | ⟨-, -, rfl⟩ | rfl
  · refine ⟨_, Or.inl rfl, ?_⟩
    rw [hnone] at hd
    have hec : cur ≠ e := by
      rintro rfl
      rcases hd with hd | ⟨hc, -⟩
      · rw [setCurenv_envs, hst] at hd
        cases hd
      · cases hc
    rw [runs_status, if_neg hec, hnone, if_neg fun hc => by cases hc.1]
    exact hst
  · exact ⟨_, Or.inl rfl, hst⟩
  · exact ⟨_, Or.inr rfl, hst⟩

end Jos
