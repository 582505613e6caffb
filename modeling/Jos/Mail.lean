import Jos.EntryFrame
import Jos.SysInv

/-!
# The mail fields of an environment

`env_ipc_recving`, `env_ipc_from` and `env_ipc_value` are the mailbox of an environment, and `reg_eax` in its saved
registers is where its pending system call will return. Only a send to the environment and its own
`sys_ipc_recv` change its mailbox, and other environments change its `reg_eax` only with a send. While it
waits, it stays `ENV_NOT_RUNNABLE` unless it is destroyed or somebody calls `sys_env_set_status` on it.
-/

namespace Jos

open Pmap Kernel Except

variable {R : Set Nat} {k k' k₁ : Kernel} {c e cur : Nat}

/-- Between `k` and `k'`, entries for `cur` have left the mail fields of `e` alone. -/
structure MailKept (cur e : Nat) (k k' : Kernel) : Prop where
  id : (k'.envs e).envId = (k.envs e).envId
  recving : (k'.envs e).envIpcRecving = (k.envs e).envIpcRecving
  sender : (k'.envs e).envIpcFrom = (k.envs e).envIpcFrom
  value : (k'.envs e).envIpcValue = (k.envs e).envIpcValue
  eax : e ≠ cur → (k'.envs e).envTf.regs.eax = (k.envs e).envTf.regs.eax
  blocked : (k.envs e).envIpcRecving = true → (k.envs e).envStatus = .notRunnable →
    (k'.envs e).envStatus = .notRunnable ∨ (k'.envs e).envStatus = .free
  gone : (k.envs e).envStatus = .free → (k'.envs e).envStatus = .free

namespace MailKept

theorem of_env (h : k'.envs e = k.envs e) : MailKept cur e k k' := by
  refine ⟨?_, ?_, ?_, ?_, fun _ => ?_, fun _ hst => Or.inl ?_, fun hst => ?_⟩
  all_goals rw [h]
  · exact hst
  · exact hst

theorem trans {k'' : Kernel} (h : MailKept cur e k k') (h' : MailKept cur e k' k'') : MailKept cur e k k'' where
  id := h'.id.trans h.id
  recving := h'.recving.trans h.recving
  sender := h'.sender.trans h.sender
  value := h'.value.trans h.value
  eax hne := (h'.eax hne).trans (h.eax hne)
  blocked hr hst := by
    rcases h.blocked hr hst with hst' | hst'
    · exact h'.blocked (h.recving.trans hr) hst'
    · exact Or.inr (h'.gone hst')
  gone hst := h'.gone (h.gone hst)

theorem congr (h : MailKept cur e k k') (henvs : k₁.envs = k'.envs) : MailKept cur e k k₁ :=
  h.trans (of_env (congrFun henvs e))

/-- A change to environment `i` that keeps the mail fields, and the registers unless it is `cur`. -/
theorem setEnv {i : Nat} {env : Env} (hid : env.envId = (k.envs i).envId)
    (hr : env.envIpcRecving = (k.envs i).envIpcRecving) (hf : env.envIpcFrom = (k.envs i).envIpcFrom)
    (hv : env.envIpcValue = (k.envs i).envIpcValue) (ht : i ≠ cur → env.envTf = (k.envs i).envTf)
    (hb : (k.envs i).envIpcRecving = true → (k.envs i).envStatus = .notRunnable →
      env.envStatus = .notRunnable ∨ env.envStatus = .free)
    (hg : (k.envs i).envStatus = .free → env.envStatus = .free) : MailKept cur e k (k.setEnv i env) := by
  by_cases hei : e = i
  · subst hei
    have henv : (k.setEnv e env).envs e = env := by rw [setEnv_envs, if_pos rfl]
    refine ⟨?_, ?_, ?_, ?_, fun hne => ?_, fun h₁ h₂ => ?_, fun h₁ => ?_⟩
    all_goals rw [henv]
    · exact hid
    · exact hr
    · exact hf
    · exact hv
    · rw [ht hne]
    · exact hb h₁ h₂
    · exact hg h₁
  · exact of_env (by rw [setEnv_envs, if_neg hei])

theorem runs {i : Nat} (hi : MayRun k c i) : MailKept cur e k (k.runs c i) := by
  have hs := runs_sameEnv (k := k) (c := c) (e := i) e
  have hst := runs_status (k := k) (c := c) (e := i) e
  have hne : ∀ st, (k.envs e).envStatus = st → st ≠ .runnable → st ≠ .running →
      ((k.runs c i).envs e).envStatus = st := by
    intro st hst' h₁ h₂
    have hei : e ≠ i := by
      rintro rfl
      rcases hi with hi | ⟨-, hi⟩
      · exact h₁ (hst'.symm.trans hi)
      · exact h₂ (hst'.symm.trans hi)
    rw [hst, if_neg hei, if_neg, hst']
    rintro ⟨-, hrun⟩
    exact h₂ (hst'.symm.trans hrun)
  refine ⟨hs.id, hs.recving, hs.sender, hs.value, fun _ => by rw [hs.tf], fun _ h₁ => Or.inl ?_, fun h₁ => ?_⟩
  · exact hne _ h₁ nofun nofun
  · exact hne _ h₁ nofun nofun

/-- The changes that entries have in common do not touch mailboxes. -/
theorem entryRel (c cur e : Nat) : EntryRel c cur (MailKept cur e) where
  refl k := of_env rfl
  trans _ _ _ h h' := h.trans h'
  memory k s := of_env rfl
  record k ev := of_env rfl
  save k tf _ := setEnv rfl rfl rfl rfl (fun hne => absurd rfl hne) (fun _ hst => Or.inl hst) fun hst => hst
  eax k r := setEnv rfl rfl rfl rfl (fun hne => absurd rfl hne) (fun _ hst => Or.inl hst) fun hst => hst
  handler k eip esp :=
    setEnv rfl rfl rfl rfl (fun hne => absurd rfl hne) (fun _ hst => Or.inl hst) fun hst => hst
  upcall k i func := setEnv rfl rfl rfl rfl (fun _ => rfl) (fun _ hst => Or.inl hst) fun hst => hst
  dying k i hrun := by
    refine setEnv rfl rfl rfl rfl (fun _ => rfl) (fun _ hst => ?_) fun hst => ?_
    · rw [hrun] at hst
      cases hst
    · rw [hrun] at hst
      cases hst
  free k i s := by
    have hfreed : MailKept cur e k
        (k.setEnv i { k.envs i with envPgdir := none, envStatus := .free, envLink := k.envFreeList }) :=
      setEnv rfl rfl rfl rfl (fun _ => rfl) (fun _ _ => Or.inr rfl) fun _ => rfl
    exact hfreed.congr rfl
  drop k := of_env rfl
  run k i hi := runs hi
  halt k := of_env rfl

end MailKept

/-- The call leaves the mailbox of environment `e` alone. -/
structure SparesMail (k : Kernel) (cur e : Nat) (call : Call) : Prop where
  status : call.syscallno = SYS_env_set_status → envid2env k cur call.a1 true = some e →
    (k.envs e).envIpcRecving = false
  send : call.syscallno = SYS_ipc_try_send → envid2env k cur call.a1 false = some e →
    (k.envs e).envIpcRecving = false
  recv : call.syscallno = SYS_ipc_recv → e ≠ cur

namespace SparesMail

variable {call : Call}

theorem callRel {own : Option Nat} (h : SysInv R own k) (hlive : Live k e)
    (hs : SparesMail k cur e call) : CallRel cur (MailKept cur e) k call where
  fork _ i d s hfree := by
    obtain ⟨D, l, hmem⟩ := h.mem
    have hei : e ≠ i := by
      rintro rfl
      exact hlive.2 ((hmem.life e).mpr (FreeSlots.head hmem.envs.list hfree).2)
    refine .of_env ?_
    unfold Kernel.child
    rw [setEnv_envs, if_neg hei, newEnv_envs_of_ne hei]
  status hno i st hi hst := by
    by_cases hei : e = i
    · subst hei
      refine .setEnv rfl rfl rfl rfl (fun _ => rfl) (fun hr => ?_) fun hfree => absurd hfree hlive.2
      rw [hs.status hno hi] at hr
      cases hr
    · refine .of_env ?_
      rw [setStatus_envs, if_neg hei]
  send hno i k₁ perm hi hr hp := by
    have hei : e ≠ i := by
      rintro rfl
      rw [hs.send hno hi] at hr
      cases hr
    refine .of_env ?_
    rw [deliver_envs, if_neg hei, hp.envs]
  recv hno := .of_env (by rw [blocks_envs, if_neg (hs.recv hno)])

theorem onlyTf (ht : OnlyTf k k') (hs : SparesMail k cur e call) : SparesMail k' cur e call where
  status hno he := by
    rw [ht.envid2env] at he
    rw [ht.recving]
    exact hs.status hno he
  send hno he := by
    rw [ht.envid2env] at he
    rw [ht.recving]
    exact hs.send hno he
  recv := hs.recv

end SparesMail

theorem OnlyTf.live (ht : OnlyTf k k') (h : Live k e) : Live k' e := ⟨h.1, by rw [ht.status]; exact h.2⟩

/-! ## Interrupts and the calls about mail -/

section Traps

variable {gate : Gate} {faultVa input : Word} {tf : Trapframe}

/-- Nothing about the mail of `e` has changed, its registers included. -/
def MailSame (e : Nat) (k k' : Kernel) : Prop := MailKept (e + 1) e k k'

theorem MailKept.same (h : MailKept cur e k k') (hne : e ≠ cur) : MailSame e k k' :=
  ⟨h.id, h.recving, h.sender, h.value, fun _ => h.eax hne, h.blocked, h.gone⟩

theorem MailSame.eax (h : MailSame e k k') : (k'.envs e).envTf.regs.eax = (k.envs e).envTf.regs.eax :=
  MailKept.eax h e.succ_ne_self.symm

theorem mailSame_trapReturn (h : trapReturn k c = .ok (.left k')) (e : Nat) : MailSame e k k' :=
  (MailKept.entryRel c (e + 1) e).trapReturn _ h

/-- An interrupt saves the registers, and touches no mailbox. -/
theorem trap_interrupt (hg : gate.istrap = false) (htf : UserFrame tf) (hcur : k.curenv c = some cur)
    (hst : (k.envs cur).envStatus ≠ .dying) (hpf : tf.trapno ≠ T_PGFLT) (hno : tf.trapno ≠ T_SYSCALL)
    (hx : trap k c gate faultVa input tf = .ok (.left k')) (e : Nat) :
    MailSame e (k.setEnv cur { k.envs cur with envTf := tf }) k' := by
  have hcs : tf.cs &&& 3#32 = 3#32 := by
    rw [htf.cs]
    decide
  unfold trap at hx
  rw [if_neg (not_not.mpr (Gate.eflags_if hg tf)), if_pos hcs, hcur] at hx
  simp only at hx
  rw [if_neg hst] at hx
  exact (MailKept.entryRel c (e + 1) e).interrupt hpf hno _ hx

/-- A send returns to the sender with its result. -/
theorem trap_ipcTrySend (hg : gate.istrap = false) (htf : UserFrame tf) (hno : tf.trapno = T_SYSCALL)
    (hcur : k.curenv c = some cur) (hst : (k.envs cur).envStatus ≠ .dying)
    (hcall : (callOf tf.regs).syscallno = SYS_ipc_try_send)
    (hx : trap k c gate faultVa input tf = .ok (.left k')) :
    ∃ r k₁, sysIpcTrySend (k.setEnv cur { k.envs cur with envTf := tf }) cur (callOf tf.regs).a1
        (callOf tf.regs).a2 (callOf tf.regs).a3 (callOf tf.regs).a4 = .ok (r, k₁) ∧
      ∀ e, MailSame e (setEax k₁ cur r) k' := by
  rw [trap_syscall hg htf.cs hno hcur hst] at hx
  obtain ⟨f, hf, hx⟩ := bind_eq_ok.mp hx
  have heax : tf.regs.eax = SYS_ipc_try_send := hcall
  unfold syscallOf at hf
  rw [heax] at hf
  obtain ⟨⟨r, k₁⟩, hsend, hf⟩ := bind_eq_ok.mp hf
  cases hf
  exact ⟨r, k₁, hsend, mailSame_trapReturn hx⟩

theorem schedYield_ne_ret (r : Int) (k₁ : Kernel) : schedYield k c ≠ .ok (.ret r k₁) := by
  have hrun : ∀ e, envRun k c e ≠ .ok (.ret r k₁) := fun e hok => nomatch (envRun_ok hok).2
  have hhalt : schedHalt k c ≠ .ret r k₁ := by
    unfold schedHalt
    generalize (List.range NENV).any _ = b
    cases b <;> exact nofun
  unfold schedYield
  generalize schedHalt k c = f at hhalt
  split
  · exact hrun _
  split
  · split
    · exact hrun _
    · exact fun hok => hhalt (Except.ok.inj hok)
  · exact fun hok => hhalt (Except.ok.inj hok)

/-- A wait leaves the CPU, or fails at once. -/
theorem trap_ipcRecv (hg : gate.istrap = false) (htf : UserFrame tf) (hno : tf.trapno = T_SYSCALL)
    (hcur : k.curenv c = some cur) (hst : (k.envs cur).envStatus ≠ .dying)
    (hcall : (callOf tf.regs).syscallno = SYS_ipc_recv)
    (hx : trap k c gate faultVa input tf = .ok (.left k')) (e : Nat) :
    MailSame e (setEax (k.setEnv cur { k.envs cur with envTf := tf }) cur (-E_INVAL)) k' ∨
      MailSame e ((k.setEnv cur { k.envs cur with envTf := tf }).blocks cur (callOf tf.regs).a1) k' := by
  rw [trap_syscall hg htf.cs hno hcur hst] at hx
  obtain ⟨f, hf, hx⟩ := bind_eq_ok.mp hx
  have heax : tf.regs.eax = SYS_ipc_recv := hcall
  unfold syscallOf at hf
  rw [heax] at hf
  have hf' : sysIpcRecv (k.setEnv cur { k.envs cur with envTf := tf }) c cur (callOf tf.regs).a1 = .ok f := hf
  unfold sysIpcRecv at hf'
  split at hf'
  · cases hf'
    exact Or.inl (mailSame_trapReturn hx e)
  · have hy := (MailKept.entryRel c (e + 1) e).schedYield _ hf'
    cases f with
    | ret r k₁ => exact absurd hf' (schedYield_ne_ret r k₁)
    | left k₁ =>
      cases hx
      exact Or.inr hy
    | monitor k₁ => cases hx

end Traps

section Steps

variable {sys : System} {a : Action}

/-- If the step is a trap, it is one of environment `own`. -/
def TrapOf (k : Kernel) (a : Action) (own : Nat) : Prop :=
  ∀ c gate faultVa input tf, a = .trap c gate faultVa input tf → k.curenv c = some own

theorem SysInv.exists_trapOf (h : SysInv R none k) (hen : Enabled sys k a) : ∃ own, TrapOf k a own := by
  cases a with
  | trap c gate faultVa input tf =>
    obtain ⟨cur, hcur⟩ := Option.ne_none_iff_exists'.mp ((h.cpus.mode c nofun).mp hen.2.1)
    refine ⟨cur, fun c' gate' faultVa' input' tf' heq => ?_⟩
    cases heq
    exact hcur
  | store c va b => exact ⟨0, nofun⟩
  | irq c gate trapno => exact ⟨0, nofun⟩
  | start c => exact ⟨0, nofun⟩

/-- A relation that all changes keep holds across every step. -/
theorem SysInv.exec_rel {own : Nat} {Rel : Kernel → Kernel → Prop} (h : SysInv R none k) (hen : Enabled sys k a)
    (hown : TrapOf k a own) (hrel : ∀ c, EntryRel c own Rel)
    (hcall : ∀ c gate faultVa input tf, a = .trap c gate faultVa input tf → tf.trapno = T_SYSCALL →
      CallRel own Rel (k.setEnv own { k.envs own with envTf := tf }) (callOf tf.regs))
    (hx : Jos.exec k a = .ok (.left k')) : Rel k k' := by
  cases a with
  | store c va b =>
    obtain rfl := Flow.left.inj (Except.ok.inj hx)
    exact (hrel c).memory k _
  | trap c gate faultVa input tf =>
    have hcur := hown c gate faultVa input tf rfl
    have hcs : tf.cs &&& 3#32 = 3#32 := by
      rw [hen.2.2.2.cs]
      decide
    refine (hrel c).trap (fun _ => hen.2.2.2) (fun i hi => ?_) (fun hc => absurd hcs hc)
      (fun hno => hcall c gate faultVa input tf rfl hno) _ hx
    obtain rfl : own = i := Option.some.inj (hcur.symm.trans hi)
    exact ⟨rfl, h.cpus.status c own nofun hcur⟩
  | irq c gate trapno =>
    have hnone : k.curenv c = none := h.curenv_none (by rw [hen.2.1]; exact nofun)
    refine (hrel c).trap (fun hc => absurd hc (idleFrame_kern trapno)) (fun i hi => ?_)
      (fun _ => ⟨hnone, hen.2.2.2⟩) (fun hno => absurd hno hen.2.2.2) _ hx
    rw [hnone] at hi
    cases hi
  | start c =>
    have hy : Jos.schedYield k c = .ok (.left k') := hx
    exact (hrel c).schedYield _ hy

/-- A step that is not a call about the mail of `e`. -/
theorem SysInv.exec_mailKept {own : Nat} (h : SysInv R none k) (hlive : Live k e) (hen : Enabled sys k a)
    (hown : TrapOf k a own)
    (hs : ∀ c gate faultVa input tf, a = .trap c gate faultVa input tf → tf.trapno = T_SYSCALL →
      SparesMail k own e (callOf tf.regs))
    (hx : Jos.exec k a = .ok (.left k')) : MailKept own e k k' := by
  refine h.exec_rel hen hown (fun c => MailKept.entryRel c own e) (fun c gate faultVa input tf ha hno => ?_) hx
  have htf := OnlyTf.setEnv k own tf
  exact ((hs c gate faultVa input tf ha hno).onlyTf htf).callRel (h.onlyTf htf) (htf.live hlive)

/-! ## Identifiers -/

/-- The identifier of an environment tells its slot. -/
def Indexed (e : Nat) (env : Env) : Prop := env.envStatus ≠ .free → env.envId ≠ 0#32 ∧ ENVX env.envId = e

/-- `envid2env` finds an environment by its identifier. -/
theorem Indexed.envid2env (h : Indexed e (k.envs e)) (hst : (k.envs e).envStatus ≠ .free) (cur : Nat) :
    envid2env k cur (k.envs e).envId false = some e := by
  obtain ⟨hne, hx⟩ := h hst
  unfold Jos.envid2env
  rw [if_neg hne]
  simp only [hx]
  rw [if_neg (not_or.mpr ⟨hst, not_not.mpr rfl⟩), if_neg fun hc => nomatch hc.1]

theorem indexed_nextEnvId (old : Word) (he : e < NENV) : nextEnvId old e ≠ 0#32 ∧ ENVX (nextEnvId old e) = e :=
  ⟨nextEnvId_ne_zero old he, ENVX_nextEnvId old he⟩

theorem indexed_rules (cur : Nat) : EnvRules cur Indexed where
  save _ _ _ h := h
  eax _ _ h := h
  handler _ _ _ h := h
  upcall _ _ _ h := h
  dying e env hst h _ := h (by rw [hst]; exact nofun)
  free _ _ _ _ hne := absurd rfl hne
  run e env _ _ hst h _ := h (by rcases hst with hst | hst <;> rw [hst] <;> exact nofun)
  preempt e env hst h _ := h (by rw [hst]; exact nofun)

theorem SysInv.indexed_calls {own : Option Nat} (h : SysInv R own k) (hcur : Live k cur) (call : Call) :
    CallRel cur (Keeps Indexed) k call where
  fork _ i d s hfree hk j := by
    obtain ⟨D, l, hmem⟩ := h.mem
    have hlt := (FreeSlots.head hmem.envs.list hfree).1
    unfold Kernel.child
    rw [setEnv_envs]
    split
    · next hji =>
      subst hji
      intro _
      rw [newEnv_envs_self]
      exact indexed_nextEnvId _ hlt
    · next hji =>
      rw [newEnv_envs_of_ne hji]
      exact hk j
  status _ i st hi _ := .setEnv fun hk _ => hk (envid2env_live hcur hi).2
  send _ i k₁ perm hi _ hp hk j := by
    rw [deliver_envs, hp.envs]
    split
    · next hji =>
      subst hji
      exact fun _ => hk j (envid2env_live hcur hi).2
    · exact hk j
  recv _ := .setEnv fun hk _ => hk hcur.2

/-- Identifiers go on to tell slots. -/
theorem SysInv.exec_indexed (h : SysInv R none k) (hen : Enabled sys k a) (hx : Jos.exec k a = .ok (.left k')) :
    Keeps Indexed k k' := by
  obtain ⟨own, hown⟩ := h.exists_trapOf hen
  refine h.exec_rel hen hown (fun c => (indexed_rules own).entryRel c)
    (fun c gate faultVa input tf ha _ => ?_) hx
  have htf := OnlyTf.setEnv k own tf
  exact (h.onlyTf htf).indexed_calls (htf.live (h.live (hown c gate faultVa input tf ha))) _

/-- Identifiers tell slots in every run of safe steps. -/
theorem Reach.indexed (h : Reach sys Safe k) : ∀ e, Indexed e (k.envs e) := by
  induction h with
  | @boot k₀ k₁ hinit hy =>
    obtain ⟨s₀, D, l, hs⟩ := hinit.started
    refine ((indexed_rules 0).entryRel 0).schedYield _ hy fun e hne => ?_
    rw [hs.status] at hne
    split at hne
    · next he =>
      rw [hs.id e he]
      exact indexed_nextEnvId _ (by unfold NENV; omega)
    · exact absurd rfl hne
  | step hr hen _ hx ih =>
    obtain ⟨R, hk⟩ := hr.sysInv
    exact hk.exec_indexed hen hx ih

/-- Environment `e` keeps its identifier as long as it lives. -/
theorem SysInv.exec_id (h : SysInv R none k) (hlive : Live k e) (hen : Enabled sys k a)
    (hx : Jos.exec k a = .ok (.left k')) : (k'.envs e).envId = (k.envs e).envId := by
  obtain ⟨own, hown⟩ := h.exists_trapOf hen
  -- the fact about slot `e` is that its identifier is this one
  have hrules : EnvRules own fun i env => i = e → env.envId = (k.envs e).envId :=
    ⟨fun _ _ _ h => h, fun _ _ h => h, fun _ _ _ h => h, fun _ _ _ h => h, fun _ _ _ h => h, fun _ _ _ h => h,
      fun _ _ _ _ _ h => h, fun _ _ _ h => h⟩
  refine h.exec_rel hen hown (fun c => hrules.entryRel c) (fun c gate faultVa input tf ha _ => ?_) hx
    (fun i hi => by rw [hi]) e rfl
  have htf := OnlyTf.setEnv k own tf
  have h' := h.onlyTf htf
  have hlive' := htf.live hlive
  generalize k.setEnv own { k.envs own with envTf := tf } = k₁ at h' hlive'
  refine ⟨fun _ i d s hfree hk j => ?_, fun _ i st _ _ => .setEnv id, fun _ i k₂ perm _ _ hp hk j => ?_,
    fun _ => .setEnv id⟩
  · obtain ⟨D, l, hmem⟩ := h'.mem
    rintro rfl
    have hne : j ≠ i := by
      rintro rfl
      exact hlive'.2 ((hmem.life j).mpr (FreeSlots.head hmem.envs.list hfree).2)
    unfold Kernel.child
    rw [setEnv_envs, if_neg hne, newEnv_envs_of_ne hne]
    exact hk j rfl
  · rw [deliver_envs, hp.envs]
    split
    · next hji =>
      subst hji
      exact hk j
    · exact hk j

/-! ## Waiting environments -/

/-- An environment that waits for a message is `ENV_NOT_RUNNABLE`, unless it has been freed. -/
def WaitsBlocked (env : Env) : Prop :=
  env.envIpcRecving = true → env.envStatus = .notRunnable ∨ env.envStatus = .free

theorem waitsBlocked_rules (cur : Nat) : EnvRules cur fun _ => WaitsBlocked where
  save _ _ _ h := h
  eax _ _ h := h
  handler _ _ _ h := h
  upcall _ _ _ h := h
  dying _ env hst h hr := by
    rcases h hr with hc | hc <;> rw [hst] at hc <;> cases hc
  free _ _ _ _ _ := Or.inr rfl
  run _ env _ _ hst h hr := by
    rcases h hr with hc | hc <;> rcases hst with hst | hst <;> rw [hst] at hc <;> cases hc
  preempt _ env hst h hr := by
    rcases h hr with hc | hc <;> rw [hst] at hc <;> cases hc

/-- Waiting environments stay blocked if nobody sets their status. -/
theorem SysInv.exec_waitsBlocked (h : SysInv R none k) (hen : Enabled sys k a)
    (hs : ∀ c gate faultVa input tf cur, a = .trap c gate faultVa input tf → k.curenv c = some cur →
      tf.trapno = T_SYSCALL → (callOf tf.regs).syscallno = SYS_env_set_status →
      ∀ i, envid2env k cur (callOf tf.regs).a1 true = some i → (k.envs i).envIpcRecving = false)
    (hx : Jos.exec k a = .ok (.left k')) : Keeps (fun _ => WaitsBlocked) k k' := by
  obtain ⟨own, hown⟩ := h.exists_trapOf hen
  refine h.exec_rel hen hown (fun c => (waitsBlocked_rules own).entryRel c)
    (fun c gate faultVa input tf ha hno => ?_) hx
  have htf := OnlyTf.setEnv k own tf
  have hs' : (callOf tf.regs).syscallno = SYS_env_set_status →
      ∀ i, envid2env (k.setEnv own { k.envs own with envTf := tf }) own (callOf tf.regs).a1 true = some i →
        ((k.setEnv own { k.envs own with envTf := tf }).envs i).envIpcRecving = false := by
    intro hset i hi
    rw [htf.envid2env] at hi
    rw [htf.recving]
    exact hs c gate faultVa input tf own ha (hown c gate faultVa input tf ha) hno hset i hi
  generalize k.setEnv own { k.envs own with envTf := tf } = k₁ at hs'
  refine ⟨fun _ i d s _ hk j => ?_, fun hset i st hi _ => .setEnv fun _ hr => ?_, fun _ i k₂ perm _ _ hp hk j => ?_,
    fun _ => .setEnv fun _ _ => Or.inl rfl⟩
  · unfold Kernel.child
    rw [setEnv_envs]
    split
    · next hji =>
      subst hji
      rw [newEnv_envs_self]
      exact nofun
    · next hji =>
      rw [newEnv_envs_of_ne hji]
      exact hk j
  · have hr' := hs' hset i hi
    rw [hr'] at hr
    cases hr
  · rw [deliver_envs, hp.envs]
    split
    · exact nofun
    · exact hk j

end Steps

end Jos
