import Jos.Lib.Mailbox
import Jos.Ipc

/-!
# Every message once and in order

The environments that call `ipc_send` and `ipc_recv` are the parties of a mailbox: the fields of the receiver in
`struct Env` are its slot, and `env_ipc_recving` says whether it is open. Each step of the system is a step of the
mailbox or changes nothing of it (`IpcInv.step`), as long as no step triggers one of the defects of the system calls.
So messages arrive once and in order (`ipcRun_delivered`). One of the defects is that a page can be sent to a
receiver that asks for none. The page replaces the first page of the window at `UENVS`, and `ipc_recv` returns what it
finds there (`ipcRun_misdelivers`).
-/

namespace Jos

open Pmap Kernel Except

variable {sys : System} {r c e : Nat} {σ σ' : IpcState} {k k' : Kernel} {a : Action}

/-! ## The mailbox -/

/-- Where a sender is, when the result of its system call is in `eax`. -/
def sendingOf (p : SendPoint) (eax : Word) : Mailbox.Sending Word :=
  match p with
  | .out => .idle
  | .retry m | .panicked m => .trying m.val
  | .tried m => if eax = 0#32 then .accepted m.val else .trying m.val
  | .checked m ret | .yielded m ret => if ret = 0#32 then .accepted m.val else .trying m.val

/-- The message that the receiver has been given and that `ipc_recv` has not returned yet. -/
def slotOf (p : RecvPoint) (env : Env) : Option (Word × Word) :=
  match p with
  | .called _ =>
    if env.envIpcRecving = false ∧ env.envTf.regs.eax = 0#32 then some (env.envIpcFrom, env.envIpcValue) else none
  | .loadFrom _ | .loadPerm _ | .loadValue _ => some (env.envIpcFrom, env.envIpcValue)
  | _ => none

instance (k : Kernel) (e : Nat) : Decidable (Live k e) := inferInstanceAs (Decidable (_ ∧ _))

/-- The sender with identifier `w`. -/
def IpcState.sending (σ : IpcState) (w : Word) : Mailbox.Sending Word :=
  if Live σ.kernel (ENVX w) ∧ (σ.kernel.envs (ENVX w)).envId = w then
    sendingOf (σ.send (ENVX w)) (σ.ret (ENVX w))
  else .idle

/-- The system as a mailbox. -/
def IpcState.mailbox (r : Nat) (σ : IpcState) : Mailbox.State Word Word where
  sending := σ.sending
  waiting := (σ.kernel.envs r).envIpcRecving
  slot := slotOf σ.recv (σ.kernel.envs r)
  calls := σ.calls
  returned := σ.returned
  accepted := σ.accepted
  received := σ.received

/-- What holds of the receiver at each point of `ipc_recv`. -/
def RecvOk (p : RecvPoint) (env : Env) : Prop :=
  match p with
  | .called _ => env.envIpcRecving = true ∨ env.envTf.regs.eax = 0#32 ∨
      env.envTf.regs.eax = BitVec.ofInt 32 (-E_INVAL)
  | .loadPerm sender | .loadValue sender => env.envIpcRecving = false ∧ sender = env.envIpcFrom
  | _ => env.envIpcRecving = false

/-- What holds in every state of a run. -/
structure IpcInv (sys : System) (r : Nat) (σ : IpcState) : Prop where
  reach : Reach sys Safe σ.kernel
  live : Live σ.kernel r
  undestroyed : ∀ e, (σ.kernel.envs e).envStatus ≠ .dying
  blocked : ∀ e, WaitsBlocked (σ.kernel.envs e)
  recv : RecvOk σ.recv (σ.kernel.envs r)
  sender : ∀ e, σ.send e ≠ .out → Live σ.kernel e ∧ e ≠ r
  tried : ∀ e m, σ.send e = .tried m → (σ.kernel.envs e).envIpcRecving = false

/-- The senders after a step in which only the one in slot `e` has gone on. -/
theorem sending_update (hid : ∀ e, Indexed e (σ.kernel.envs e))
    (hlive : ∀ i, Live σ.kernel i → Live σ'.kernel i)
    (hsame : ∀ i, Live σ.kernel i → (σ'.kernel.envs i).envId = (σ.kernel.envs i).envId)
    (hsend : ∀ i ≠ e, σ'.send i = σ.send i) (hin : ∀ i ≠ e, σ.send i ≠ .out → Live σ.kernel i)
    (heax : ∀ i ≠ e, ∀ m, σ.send i = .tried m → σ'.ret i = σ.ret i) (he : Live σ.kernel e) :
    σ'.sending = Function.update σ.sending (σ.kernel.envs e).envId (sendingOf (σ'.send e) (σ'.ret e)) := by
  funext w
  by_cases hw : w = (σ.kernel.envs e).envId
  · have hx : ENVX w = e := hw ▸ (hid e he.2).2
    rw [hw, Function.update_self, IpcState.sending, ← hw, hx, if_pos ⟨hlive e he, (hsame e he).trans hw.symm⟩]
  · rw [Function.update_of_ne hw, IpcState.sending, IpcState.sending]
    by_cases hx : ENVX w = e
    · rw [hx, if_neg fun hc => hw ((hsame e he).symm.trans hc.2).symm, if_neg fun hc => hw hc.2.symm]
    · by_cases hl : Live σ.kernel (ENVX w)
      · have hret : sendingOf (σ'.send (ENVX w)) (σ'.ret (ENVX w))
            = sendingOf (σ.send (ENVX w)) (σ.ret (ENVX w)) := by
          rw [hsend _ hx]
          cases hs : σ.send (ENVX w) with
          | tried m => rw [heax _ hx m hs]
          | _ => rfl
        rw [hret, hsame _ hl]
        exact if_congr (and_congr_left' (iff_of_true (hlive _ hl) hl)) rfl rfl
      · have hout : σ.send (ENVX w) = .out := by
          by_contra hne
          exact hl (hin _ hx hne)
        have hneg : ¬ (Live σ.kernel (ENVX w) ∧ (σ.kernel.envs (ENVX w)).envId = w) := fun hc => hl hc.1
        rw [hsend _ hx, hout, if_neg hneg]
        exact ite_self _

/-! ## Steps of the machine -/

/-- Nothing has changed for a party that has made a system call or waits. -/
structure MailFixed (i : Nat) (k k' : Kernel) : Prop where
  recving : (k'.envs i).envIpcRecving = (k.envs i).envIpcRecving
  sender : (k'.envs i).envIpcFrom = (k.envs i).envIpcFrom
  value : (k'.envs i).envIpcValue = (k.envs i).envIpcValue
  eax : (k'.envs i).envTf.regs.eax = (k.envs i).envTf.regs.eax

theorem MailKept.fixed {cur i : Nat} (h : MailKept cur i k k') (hne : i ≠ cur) : MailFixed i k k' :=
  ⟨h.recving, h.sender, h.value, h.eax hne⟩

theorem MailSame.fixed {i : Nat} {k₁ : Kernel} (h : MailSame i k₁ k') (henv : k₁.envs i = k.envs i) :
    MailFixed i k k' :=
  ⟨by rw [h.recving, henv], by rw [h.sender, henv], by rw [h.value, henv], by rw [h.eax, henv]⟩

namespace IpcInv

variable {call : Call} {i : Nat} {m : Msg}

theorem indexed (h : IpcInv sys r σ) : ∀ e, Indexed e (σ.kernel.envs e) := h.reach.indexed

theorem live_of_curenv (h : IpcInv sys r σ) (hcur : σ.kernel.curenv c = some e) : Live σ.kernel e := by
  obtain ⟨R, hs⟩ := h.reach.sysInv
  exact hs.live hcur

/-- Whoever executes does not wait. -/
theorem recving_of_curenv (h : IpcInv sys r σ) (hcur : σ.kernel.curenv c = some e) :
    (σ.kernel.envs e).envIpcRecving = false := by
  obtain ⟨R, hs⟩ := h.reach.sysInv
  by_contra hrecv
  rcases h.blocked e (Bool.eq_true_of_not_eq_false hrecv) with hst | hst
  · rcases hs.cpus.status c e nofun hcur with hrun | hrun <;> rw [hst] at hrun <;> cases hrun
  · exact (hs.live hcur).2 hst

theorem id_step (h : IpcInv sys r σ) (hk : KernelStep sys Safe σ.kernel a k') (hl : Live σ.kernel e) :
    (k'.envs e).envId = (σ.kernel.envs e).envId := by
  obtain ⟨R, hs⟩ := h.reach.sysInv
  exact hs.exec_id hl hk.enabled hk.exec

/-- A step that sets no status of an environment that waits. -/
theorem blocked_step (h : IpcInv sys r σ) (hk : KernelStep sys Safe σ.kernel a k')
    (hset : ∀ c gate faultVa input tf cur, a = .trap c gate faultVa input tf → σ.kernel.curenv c = some cur →
      tf.trapno = T_SYSCALL → (callOf tf.regs).syscallno = SYS_env_set_status →
      ∀ i, envid2env σ.kernel cur (callOf tf.regs).a1 true = some i → (σ.kernel.envs i).envIpcRecving = false) :
    ∀ e, WaitsBlocked (k'.envs e) := by
  obtain ⟨R, hs⟩ := h.reach.sysInv
  exact hs.exec_waitsBlocked hk.enabled hset hk.exec h.blocked

theorem blocked_call (h : IpcInv sys r σ) (hk : KernelStep sys Safe σ.kernel a k') (hcall : IsCall c call a)
    (hno : call.syscallno ≠ SYS_env_set_status) : ∀ e, WaitsBlocked (k'.envs e) := by
  refine h.blocked_step hk fun c' gate faultVa input tf cur ha _ _ hset => ?_
  subst ha
  obtain ⟨-, -, rfl⟩ := hcall
  exact absurd hset hno

/-- A step that is none of `ipc_send` or `ipc_recv`. -/
theorem other_fixed (h : IpcInv sys r σ) (hk : KernelStep sys Safe σ.kernel a k') (ho : Other r σ a)
    (hl : Live σ.kernel i) (hi : i = r ∨ ∃ m, σ.send i = .tried m) :
    ∃ own, MailKept own i σ.kernel k' ∧ (Awaits r σ i → MailFixed i σ.kernel k') := by
  obtain ⟨R, hs⟩ := h.reach.sysInv
  have huser : (∀ c gate faultVa input tf, a ≠ .trap c gate faultVa input tf) →
      ∃ own, MailKept own i σ.kernel k' ∧ (Awaits r σ i → MailFixed i σ.kernel k') := by
    intro ha
    have hkept : MailKept (i + 1) i σ.kernel k' :=
      hs.exec_mailKept hl hk.enabled (fun c gate faultVa input tf heq => absurd heq (ha c gate faultVa input tf))
        (fun c gate faultVa input tf heq => absurd heq (ha c gate faultVa input tf)) hk.exec
    exact ⟨i + 1, hkept, fun _ => hkept.fixed i.succ_ne_self.symm⟩
  cases a with
  | trap c gate faultVa input tf =>
    obtain ⟨cur, hcur⟩ := Option.ne_none_iff_exists'.mp ((hs.cpus.mode c nofun).mp hk.enabled.2.1)
    have hother : OtherTrap r σ cur tf := ho cur hcur
    have hspares : tf.trapno = T_SYSCALL → SparesMail σ.kernel cur i (callOf tf.regs) := by
      intro hno
      refine ⟨fun hset he => hother.status hno hset i he, fun hsend he => ?_, fun hrecv => ?_⟩
      · obtain rfl | ⟨m, hm⟩ := hi
        · exact absurd he (hother.send hno hsend)
        · exact h.tried i m hm
      · rintro rfl
        obtain rfl | ⟨m, hm⟩ := hi
        · exact hother.recv hno hrecv rfl
        · exact (hother.awaits (Or.inr ⟨m, hm⟩)).1 hno
    have hkept : MailKept cur i σ.kernel k' := by
      refine hs.exec_mailKept hl hk.enabled (fun c' gate' faultVa' input' tf' heq => ?_)
        (fun c' gate' faultVa' input' tf' heq => ?_) hk.exec
      · cases heq
        exact hcur
      · cases heq
        exact hspares
    refine ⟨cur, hkept, fun haw => ?_⟩
    by_cases hne : i = cur
    · subst hne
      obtain ⟨hno, hpf, heax⟩ := hother.awaits haw
      have hx : trap σ.kernel c gate faultVa input tf = .ok (.left k') := hk.exec
      have htf := hk.enabled.2.2.2
      have hsame := trap_interrupt (trap_interruptGate htf hx) htf hcur (h.undestroyed i) hpf hno hx i
      refine ⟨hkept.recving, hkept.sender, hkept.value, ?_⟩
      rw [hsame.eax, setEnv_envs, if_pos rfl]
      exact heax
    · exact hkept.fixed hne
  | store c va b => exact huser nofun
  | irq c gate trapno => exact huser nofun
  | start c => exact huser nofun

theorem envid2env_receiver (h : IpcInv sys r σ) (cur : Nat) :
    envid2env σ.kernel cur (σ.kernel.envs r).envId false = some r :=
  (h.indexed r).envid2env h.live.2 cur

/-- `sys_yield` of environment `e`. -/
theorem yield_kept (h : IpcInv sys r σ) (hk : KernelStep sys Safe σ.kernel a k') (hcur : σ.kernel.curenv c = some e)
    (hcall : IsCall c yieldCall a) (hl : Live σ.kernel i) : MailKept e i σ.kernel k' := by
  obtain ⟨R, hs⟩ := h.reach.sysInv
  obtain ⟨gate, faultVa, input, tf, rfl, -, -, -, htf, -⟩ := hk.isCall hcall
  refine hs.exec_mailKept hl hk.enabled (fun c' gate' faultVa' input' tf' heq => ?_)
    (fun c' gate' faultVa' input' tf' heq _ => ?_) hk.exec
  · cases heq
    exact hcur
  · cases heq
    rw [htf]
    refine ⟨fun hc => ?_, fun hc => ?_, fun hc => ?_⟩ <;> exact absurd hc (by decide)

/-- The call of `ipc_send`: the message is accepted, or nothing has happened to the receiver. -/
theorem trySend_mail (h : IpcInv sys r σ) (hk : KernelStep sys Safe σ.kernel a k')
    (hcur : σ.kernel.curenv c = some e) (her : e ≠ r) (hcall : IsCall c (sendCall (σ.kernel.envs r).envId m) a) :
    (∀ i, i ≠ e → i ≠ r → MailFixed i σ.kernel k') ∧ (k'.envs e).envIpcRecving = false ∧
      ((σ.kernel.envs r).envIpcRecving = true ∧ (k'.envs r).envIpcRecving = false ∧
          (k'.envs r).envIpcFrom = (σ.kernel.envs e).envId ∧ (k'.envs r).envIpcValue = m.val ∧
          (k'.envs r).envTf.regs.eax = 0#32 ∧ (k'.envs e).envTf.regs.eax = 0#32 ∨
        (k'.envs e).envTf.regs.eax ≠ 0#32 ∧ MailFixed r σ.kernel k') := by
  obtain ⟨gate, faultVa, input, tf, rfl, hg, htf, hno, hregs, hx⟩ := hk.isCall hcall
  have hsys : (callOf tf.regs).syscallno = SYS_ipc_try_send := by rw [hregs]; rfl
  obtain ⟨res, k₁, hsend, hsame⟩ := trap_ipcTrySend hg htf hno hcur (h.undestroyed e) hsys hx
  rw [hregs] at hsend
  change sysIpcTrySend _ e (σ.kernel.envs r).envId m.val (pageArg m.pg) m.perm = _ at hsend
  have hmeant : envid2env (σ.kernel.setEnv e { σ.kernel.envs e with envTf := tf }) e (σ.kernel.envs r).envId false
      = some r := by
    rw [(OnlyTf.setEnv σ.kernel e tf).envid2env]
    exact h.envid2env_receiver e
  have hself : ∀ {k₂ : Kernel}, k₂.envs e = { σ.kernel.envs e with envTf := tf } → k₁.envs e = k₂.envs e →
      (k'.envs e).envIpcRecving = false ∧ (k'.envs e).envTf.regs.eax = BitVec.ofInt 32 res := by
    intro k₂ h₂ h₁
    have henv : (setEax k₁ e res).envs e = _ := (setEnv_envs ..).trans (if_pos rfl)
    refine ⟨?_, ?_⟩
    · rw [(hsame e).recving, henv, h₁, h₂]
      exact h.recving_of_curenv hcur
    · rw [(hsame e).eax, henv]
  have hrest : ∀ i, i ≠ e → k₁.envs i = σ.kernel.envs i → MailFixed i σ.kernel k' := by
    intro i hi h₁
    refine (hsame i).fixed (Eq.trans ?_ h₁)
    exact (setEnv_envs ..).trans (if_neg hi)
  have hsaved : ∀ i, i ≠ e → (σ.kernel.setEnv e { σ.kernel.envs e with envTf := tf }).envs i = σ.kernel.envs i :=
    fun i hi => by rw [setEnv_envs, if_neg hi]
  have hsender : (σ.kernel.setEnv e { σ.kernel.envs e with envTf := tf }).envs e
      = { σ.kernel.envs e with envTf := tf } := by rw [setEnv_envs, if_pos rfl]
  rcases sysIpcTrySend_ok _ _ _ _ _ hsend with ⟨herr, hp⟩ | ⟨i, k₂, perm', hi, hwaits, hp, heq⟩
  · obtain ⟨hrecv, heax⟩ := hself hsender (congrFun hp.envs e)
    refine ⟨fun i hi _ => hrest i hi ((congrFun hp.envs i).trans (hsaved i hi)), hrecv, Or.inr ⟨?_, ?_⟩⟩
    · rw [heax]
      rcases herr with herr | herr | herr <;> rw [show res = _ from herr] <;> decide
    · exact hrest r her.symm ((congrFun hp.envs r).trans (hsaved r her.symm))
  · obtain ⟨rfl, rfl⟩ := Prod.mk.inj heq
    obtain rfl : r = i := Option.some.inj (hmeant.symm.trans hi)
    have hdeliver : ∀ j, j ≠ r → (deliver k₂ e r m.val perm').envs j = k₂.envs j := fun j hj => by
      rw [deliver_envs, if_neg hj]
    have hsender₂ := (congrFun hp.envs e).trans hsender
    obtain ⟨hrecv, heax⟩ := hself hsender₂ (hdeliver e her)
    refine ⟨fun i hi hir => hrest i hi ?_, hrecv, Or.inl ?_⟩
    · exact (hdeliver i hir).trans ((congrFun hp.envs i).trans (hsaved i hi))
    · have hreceiver : (deliver k₂ e r m.val perm').envs r = _ := (deliver_envs r).trans (if_pos rfl)
      have hset : (setEax (deliver k₂ e r m.val perm') e 0).envs r = (deliver k₂ e r m.val perm').envs r :=
        (setEnv_envs ..).trans (if_neg her.symm)
      rw [hsaved r her.symm] at hwaits
      refine ⟨hwaits, ?_, ?_, ?_, ?_, heax⟩
      · rw [(hsame r).recving, hset, hreceiver]
      · rw [(hsame r).sender, hset, hreceiver, hsender₂]
      · rw [(hsame r).value, hset, hreceiver]
      · rw [(hsame r).eax, hset, hreceiver]

/-- The call of `ipc_recv` fails at once, or the receiver waits. -/
theorem recv_mail (h : IpcInv sys r σ) (hk : KernelStep sys Safe σ.kernel a k') (hcur : σ.kernel.curenv c = some r)
    {pg : Word} (hcall : IsCall c (recvCall pg) a) : (∀ i, i ≠ r → MailFixed i σ.kernel k') ∧
      ((k'.envs r).envIpcRecving = false ∧ (k'.envs r).envTf.regs.eax = BitVec.ofInt 32 (-E_INVAL) ∨
        (k'.envs r).envIpcRecving = true) := by
  obtain ⟨gate, faultVa, input, tf, rfl, hg, htf, hno, hregs, hx⟩ := hk.isCall hcall
  have hsys : (callOf tf.regs).syscallno = SYS_ipc_recv := by rw [hregs]; rfl
  have hmail := trap_ipcRecv hg htf hno hcur (h.undestroyed r) hsys hx
  have hsaved : ∀ i, i ≠ r → (σ.kernel.setEnv r { σ.kernel.envs r with envTf := tf }).envs i = σ.kernel.envs i :=
    fun i hi => by rw [setEnv_envs, if_neg hi]
  have hown : (σ.kernel.setEnv r { σ.kernel.envs r with envTf := tf }).envs r
      = { σ.kernel.envs r with envTf := tf } := by rw [setEnv_envs, if_pos rfl]
  constructor
  · intro i hi
    rcases hmail i with hsame | hsame
    · refine hsame.fixed (Eq.trans ?_ (hsaved i hi))
      exact (setEnv_envs ..).trans (if_neg hi)
    · refine hsame.fixed (Eq.trans ?_ (hsaved i hi))
      exact (blocks_envs i).trans (if_neg hi)
  · rcases hmail r with hsame | hsame
    · have henv : (setEax (σ.kernel.setEnv r { σ.kernel.envs r with envTf := tf }) r (-E_INVAL)).envs r = _ :=
        (setEnv_envs ..).trans (if_pos rfl)
      left
      constructor
      · rw [hsame.recving, henv, hown]
        exact h.recving_of_curenv hcur
      · rw [hsame.eax, henv]
    · right
      rw [hsame.recving, blocks_envs, if_pos rfl]

end IpcInv

/-! ## Reading `thisenv` -/

/-- Translation only looks at the page. -/
theorem translate_page {s : Pmap} {d : Nat} {va va' flags : Word} (hva : PGNUM va = PGNUM va') :
    translate s d va flags = translate s d va' flags := by
  have hdir : PDX va = PDX va' := by rw [← PGNUM_div, ← PGNUM_div, hva]
  have htab : PTX va = PTX va' := by rw [← PGNUM_mod, ← PGNUM_mod, hva]
  rw [translate, translate, hdir, htab]

/-- The page of a field of `envs`. -/
theorem PGNUM_uenvAddr {off : Nat} (he : e < NENV) (hoff : off < ENV_SIZE) :
    (e * ENV_SIZE + off) / PGSIZE < 31 ∧ PGNUM (uenvAddr e off) = UENVSPN + (e * ENV_SIZE + off) / PGSIZE := by
  have hsize : e * ENV_SIZE + off < 126976 := by
    unfold NENV at he
    unfold ENV_SIZE at *
    omega
  have hbase : UENVS.toNat = 4005560320 := by decide
  refine ⟨by unfold PGSIZE; omega, ?_⟩
  rw [PGNUM_eq, uenvAddr, BitVec.toNat_add, BitVec.toNat_ofNat, hbase]
  unfold UENVSPN PGSIZE
  omega

/-- What user code reads in the window are the fields of `envs`. -/
theorem PmapInv.loadEnvField_eq {R : Set Nat} {D : Finset Nat} {l : List Nat} {b : BootInfo} {s : Pmap} {d off : Nat}
    (h : PmapInv R D l s) (hw : EnvsShown b s) (hd : d ∈ D) (he : e < NENV) (hoff : off < ENV_SIZE) (w : Word) :
    loadEnvField b s d e off w = some w := by
  obtain ⟨hj, hpage⟩ := PGNUM_uenvAddr he hoff
  have hv : UENVSPN + (e * ENV_SIZE + off) / PGSIZE < 1048576 := by
    unfold UENVSPN
    omega
  have htranslate : translate s d (uenvAddr e off) USER_R
      = some (PGNUM (envsPaddr b) + (e * ENV_SIZE + off) / PGSIZE) := by
    rw [translate_page (hpage.trans (PGNUM_pageAddr hv).symm), h.translate_upper hd _ (uenvs_kernPde hj)]
    exact hw _ hj
  rw [loadEnvField, htranslate, Option.map_some, if_pos rfl]

theorem IpcInv.loadEnvField_eq (h : IpcInv sys r σ) (hcur : σ.kernel.curenv c = some r) {off : Nat}
    (hoff : off < ENV_SIZE) (w : Word) :
    loadEnvField sys.boot σ.kernel.pmap (σ.kernel.cpus c).cr3 r off w = some w := by
  obtain ⟨R, hs, hshown⟩ := h.reach.envsShown
  obtain ⟨D, l, hmem⟩ := hs.mem
  exact hmem.pmap.loadEnvField_eq hshown (hmem.envs.dir r _ (hs.cpus.cr3 c r hcur)) h.live.1 hoff w

/-! ## The invariant -/

/-- The points of `ipc_recv` at which `eax` does not matter. -/
theorem recvOk_congr {p : RecvPoint} {env env' : Env} (h : RecvOk p env)
    (hrecv : env'.envIpcRecving = env.envIpcRecving) (hsender : env'.envIpcFrom = env.envIpcFrom)
    (heax : ∀ perm, p = .called perm → env'.envTf.regs.eax = env.envTf.regs.eax) : RecvOk p env' := by
  cases p with
  | called perm =>
    rw [RecvOk, hrecv, heax perm rfl]
    exact h
  | loadPerm sender =>
    rw [RecvOk, hrecv, hsender]
    exact h
  | loadValue sender =>
    rw [RecvOk, hrecv, hsender]
    exact h
  | _ => exact hrecv.trans h

theorem slotOf_congr {p : RecvPoint} {env env' : Env} (hrecv : env'.envIpcRecving = env.envIpcRecving)
    (hsender : env'.envIpcFrom = env.envIpcFrom) (hvalue : env'.envIpcValue = env.envIpcValue)
    (heax : ∀ perm, p = .called perm → env'.envTf.regs.eax = env.envTf.regs.eax) : slotOf p env' = slotOf p env := by
  cases p with
  | called perm => rw [slotOf, slotOf, hrecv, hsender, hvalue, heax perm rfl]
  | loadFrom perm => rw [slotOf, slotOf, hsender, hvalue]
  | loadPerm sender => rw [slotOf, slotOf, hsender, hvalue]
  | loadValue sender => rw [slotOf, slotOf, hsender, hvalue]
  | _ => rfl

/-- Only in `sys_ipc_recv` is the receiver waiting. -/
theorem RecvOk.called {p : RecvPoint} {env : Env} (h : RecvOk p env) (hrecv : env.envIpcRecving = true) :
    ∃ perm, p = .called perm := by
  cases p with
  | called perm => exact ⟨perm, rfl⟩
  | loadPerm sender => exact nomatch hrecv.symm.trans h.1
  | loadValue sender => exact nomatch hrecv.symm.trans h.1
  | _ => exact nomatch hrecv.symm.trans h

theorem acceptedBy_of_eq (hrecv : (k'.envs r).envIpcRecving = (k.envs r).envIpcRecving) : acceptedBy r k k' = [] := by
  refine if_neg fun hc => ?_
  rw [hrecv, hc.1] at hc
  exact nomatch hc.2

namespace IpcInv

variable {i : Nat} {m : Msg} {p : SendPoint}

theorem send_receiver (h : IpcInv sys r σ) : σ.send r = .out := by
  by_contra hne
  exact (h.sender r hne).2 rfl

theorem sending_at (h : IpcInv sys r σ) (hl : Live σ.kernel e) :
    σ.sending (σ.kernel.envs e).envId = sendingOf (σ.send e) (σ.ret e) := by
  have hx := (h.indexed e hl.2).2
  rw [IpcState.sending, hx, if_pos ⟨hl, rfl⟩]

/-- A sender goes on in user mode. -/
theorem of_send (h : IpcInv sys r σ) (hk : σ'.kernel = σ.kernel) (hr : σ'.recv = σ.recv)
    (hsend : σ'.send = Function.update σ.send e p) (hl : Live σ.kernel e) (her : e ≠ r) (hp : ∀ m, p ≠ .tried m) :
    IpcInv sys r σ' ∧ σ'.sending = Function.update σ.sending (σ.kernel.envs e).envId (sendingOf p (σ.ret e)) := by
  have hne : ∀ i ≠ e, σ'.send i = σ.send i := fun i hi => by rw [hsend, Function.update_of_ne hi]
  have hself : σ'.send e = p := by rw [hsend, Function.update_self]
  have hret : ∀ i, σ'.ret i = σ.ret i := fun i => by rw [IpcState.ret, IpcState.ret, hk]
  constructor
  · refine ⟨hk ▸ h.reach, hk ▸ h.live, hk ▸ h.undestroyed, hk ▸ h.blocked, ?_, fun i hi => ?_, fun i m hi => ?_⟩
    · rw [hk, hr]
      exact h.recv
    · rw [hk]
      by_cases hie : i = e
      · exact hie ▸ ⟨hl, her⟩
      · exact h.sender i (hne i hie ▸ hi)
    · rw [hk]
      by_cases hie : i = e
      · rw [hie, hself] at hi
        exact absurd hi (hp m)
      · exact h.tried i m (hne i hie ▸ hi)
  · have hupdate : σ'.sending
        = Function.update σ.sending (σ.kernel.envs e).envId (sendingOf (σ'.send e) (σ'.ret e)) :=
      sending_update h.indexed (fun i hi => hk ▸ hi) (fun i _ => by rw [hk]) hne (fun i _ hi => (h.sender i hi).1)
        (fun i _ m _ => hret i) hl
    rw [hupdate, hself, hret]

/-- The receiver goes on in user mode. -/
theorem of_recv (h : IpcInv sys r σ) (hk : σ'.kernel = σ.kernel) (hsend : σ'.send = σ.send)
    (hr : RecvOk σ'.recv (σ.kernel.envs r)) : IpcInv sys r σ' ∧ σ'.sending = σ.sending := by
  constructor
  · refine ⟨hk ▸ h.reach, hk ▸ h.live, hk ▸ h.undestroyed, hk ▸ h.blocked, hk ▸ hr, fun i hi => ?_, fun i m hi => ?_⟩
    · rw [hk]
      exact h.sender i (hsend ▸ hi)
    · rw [hk]
      exact h.tried i m (hsend ▸ hi)
  · funext w
    rw [IpcState.sending, IpcState.sending, IpcState.ret, IpcState.ret, hk, hsend]

/-- A step of the machine, in which the sender in slot `e` goes to `p`. -/
theorem of_step (h : IpcInv sys r σ) (hk : KernelStep sys Safe σ.kernel a k') (hσ : σ'.kernel = k')
    (hblocked : ∀ e, WaitsBlocked (k'.envs e)) (hsend : σ'.send = Function.update σ.send e p)
    (hr : RecvOk σ'.recv (k'.envs r)) (hl : Live σ.kernel e) (her : p ≠ .out → e ≠ r)
    (hp : ∀ m, p = .tried m → (k'.envs e).envIpcRecving = false)
    (hfixed : ∀ i ≠ e, ∀ m, σ.send i = .tried m → MailFixed i σ.kernel k') :
    IpcInv sys r σ' ∧ σ'.sending
      = Function.update σ.sending (σ.kernel.envs e).envId (sendingOf p (k'.envs e).envTf.regs.eax) := by
  subst hσ
  have hne : ∀ i ≠ e, σ'.send i = σ.send i := fun i hi => by rw [hsend, Function.update_of_ne hi]
  have hself : σ'.send e = p := by rw [hsend, Function.update_self]
  constructor
  · refine ⟨h.reach.step hk.enabled hk.cond hk.exec, hk.live h.live, hk.undestroyed, hblocked, hr, fun i hi => ?_,
      fun i m hi => ?_⟩
    · by_cases hie : i = e
      · rw [hie, hself] at hi
        exact hie ▸ ⟨hk.live hl, her hi⟩
      · obtain ⟨hlive, hir⟩ := h.sender i (hne i hie ▸ hi)
        exact ⟨hk.live hlive, hir⟩
    · by_cases hie : i = e
      · rw [hie, hself] at hi
        exact hie ▸ hp m hi
      · have hi' := (hne i hie).symm.trans hi
        rw [(hfixed i hie m hi').recving]
        exact h.tried i m hi'
  · have hupdate := sending_update h.indexed (fun i => hk.live) (fun i hi => h.id_step hk hi) hne
      (fun i _ hi => (h.sender i hi).1) (fun i hie m hi => (hfixed i hie m hi).eax) hl
    rw [hupdate, hself]
    rfl

/-! ## Every step -/

theorem sendingOf_afterTry (m : Msg) (ret eax : Word) :
    sendingOf (afterTry m ret) eax = sendingOf (.tried m) ret := by
  unfold afterTry
  split
  case isTrue h =>
    have hne : ret ≠ 0#32 := by
      rintro rfl
      exact absurd h.1 (by decide)
    exact (if_neg hne).symm
  case isFalse => rfl

theorem afterTry_ne (m m' : Msg) (ret : Word) : afterTry m ret ≠ .tried m' := by
  unfold afterTry
  split <;> exact nofun

/-- A sender goes on, and is as far with its message as before. -/
theorem sending_same (h : IpcInv sys r σ) (hl : Live σ.kernel e) {s : Mailbox.Sending Word}
    (hs : s = sendingOf (σ.send e) (σ.ret e))
    (hsending : σ'.sending = Function.update σ.sending (σ.kernel.envs e).envId s) :
    σ'.sending = σ.sending := by
  rw [hsending, hs, ← h.sending_at hl, Function.update_eq_self]

/-- A step of the machine that does nothing to the receiver. -/
theorem enter_same (h : IpcInv sys r σ) (hrecv : (k'.envs r).envIpcRecving = (σ.kernel.envs r).envIpcRecving)
    (hsender : (k'.envs r).envIpcFrom = (σ.kernel.envs r).envIpcFrom)
    (hvalue : (k'.envs r).envIpcValue = (σ.kernel.envs r).envIpcValue)
    (heax : ∀ perm, σ.recv = .called perm → (k'.envs r).envTf.regs.eax = (σ.kernel.envs r).envTf.regs.eax) :
    RecvOk σ.recv (k'.envs r) ∧ ∀ send : Nat → SendPoint,
      ({ σ.enter r k' with send := send } : IpcState).sending = σ.sending →
        ({ σ.enter r k' with send := send } : IpcState).mailbox r = σ.mailbox r := by
  refine ⟨recvOk_congr h.recv hrecv hsender heax, fun send hsending => ?_⟩
  refine Mailbox.State.ext hsending hrecv (slotOf_congr hrecv hsender hvalue heax) rfl rfl ?_ rfl
  show σ.accepted ++ acceptedBy r σ.kernel k' = σ.accepted
  rw [acceptedBy_of_eq hrecv, List.append_nil]

/-- Every step of the system is a step of the mailbox, or leaves it as it is. -/
theorem step (h : IpcInv sys r σ) (hs : IpcStep sys r Safe σ σ') : IpcInv sys r σ' ∧
    (σ'.mailbox r = σ.mailbox r ∨ Mailbox.Step (σ.mailbox r) (σ'.mailbox r)) := by
  cases hs with
  | @send c e m hex her hout =>
    have hl := h.live_of_curenv hex.1
    have hidle : σ.sending (σ.kernel.envs e).envId = .idle := by
      rw [h.sending_at hl, hout]
      rfl
    refine And.imp_right (fun hsending => Or.inr ?_) (h.of_send rfl rfl rfl hl her nofun)
    exact (Mailbox.Step.call m.val hidle).congr (Mailbox.State.ext hsending rfl rfl rfl rfl rfl rfl)
  | @trySend a k' c e m hk hcur hretry hcall =>
    obtain ⟨hl, her⟩ := h.sender e (by rw [hretry]; exact nofun)
    obtain ⟨hfixed, hown, hmail⟩ := h.trySend_mail hk hcur her hcall
    have htrying : σ.sending (σ.kernel.envs e).envId = .trying m.val := by
      rw [h.sending_at hl, hretry]
      rfl
    have hno : (sendCall (σ.kernel.envs r).envId m).syscallno ≠ SYS_env_set_status := by
      show SYS_ipc_try_send ≠ SYS_env_set_status
      decide
    have hblocked := h.blocked_call hk hcall hno
    have hothers : ∀ i ≠ e, ∀ m, σ.send i = .tried m → MailFixed i σ.kernel k' := fun i hi m hm =>
      hfixed i hi (h.sender i (by rw [hm]; exact nofun)).2
    rcases hmail with ⟨hwait, hrecving, hfrom, hvalue, heax, hret⟩ | ⟨hret, hreceiver⟩
    · -- the box was open, so the receiver is in its system call
      obtain ⟨perm, hcalled⟩ := h.recv.called hwait
      have hrecv : RecvOk σ.recv (k'.envs r) := by
        rw [hcalled]
        exact Or.inr (Or.inl heax)
      refine And.imp_right (fun hsending => Or.inr ?_)
        (h.of_step hk rfl hblocked rfl hrecv hl (fun _ => her) (fun _ _ => hown) hothers)
      refine (Mailbox.Step.accept htrying hwait).congr ?_
      refine Mailbox.State.ext (hsending.trans ?_) hrecving ?_ rfl rfl ?_ rfl
      · rw [sendingOf, if_pos hret]
        rfl
      · show slotOf σ.recv (k'.envs r) = _
        rw [hcalled, slotOf, if_pos ⟨hrecving, heax⟩, hfrom, hvalue]
      · show σ.accepted ++ acceptedBy r σ.kernel k' = _
        rw [acceptedBy, if_pos ⟨hwait, hrecving⟩, hfrom, hvalue]
        rfl
    · obtain ⟨hrecv, hbox⟩ := h.enter_same hreceiver.recving hreceiver.sender hreceiver.value fun _ _ => hreceiver.eax
      refine And.imp_right (fun hsending => Or.inl ?_)
        (h.of_step hk rfl hblocked rfl hrecv hl (fun _ => her) (fun _ _ => hown) hothers)
      refine hbox _ (h.sending_same hl ?_ hsending)
      rw [hretry]
      exact if_neg hret
  | @tried c e m hex htried =>
    obtain ⟨hl, her⟩ := h.sender e (by rw [htried]; exact nofun)
    refine And.imp_right (fun hsending => Or.inl ?_) (h.of_send rfl rfl rfl hl her (afterTry_ne m · _))
    refine Mailbox.State.ext (h.sending_same hl ?_ hsending) rfl rfl rfl rfl rfl rfl
    rw [sendingOf_afterTry, htried]
  | @yield a k' c e m ret hk hcur hchecked hcall =>
    obtain ⟨hl, her⟩ := h.sender e (by rw [hchecked]; exact nofun)
    have hreceiver := (h.yield_kept hk hcur hcall h.live).fixed her.symm
    obtain ⟨hrecv, hbox⟩ := h.enter_same hreceiver.recving hreceiver.sender hreceiver.value fun _ _ => hreceiver.eax
    refine And.imp_right (fun hsending => Or.inl ?_)
      (h.of_step hk rfl (h.blocked_call hk hcall (by decide)) rfl hrecv hl (fun _ => her) nofun fun i hi m hm => ?_)
    · refine hbox _ (h.sending_same hl ?_ hsending)
      rw [hchecked]
      rfl
    · exact (h.yield_kept hk hcur hcall (h.sender i (by rw [hm]; exact nofun)).1).fixed hi
  | @again c e m ret hex hyielded hret =>
    obtain ⟨hl, her⟩ := h.sender e (by rw [hyielded]; exact nofun)
    refine And.imp_right (fun hsending => Or.inl ?_) (h.of_send rfl rfl rfl hl her nofun)
    refine Mailbox.State.ext (h.sending_same hl ?_ hsending) rfl rfl rfl rfl rfl rfl
    rw [hyielded]
    exact (if_neg hret).symm
  | @sent c e m ret hex hyielded hret =>
    obtain ⟨hl, her⟩ := h.sender e (by rw [hyielded]; exact nofun)
    have haccepted : σ.sending (σ.kernel.envs e).envId = .accepted m.val := by
      rw [h.sending_at hl, hyielded]
      exact if_pos hret
    refine And.imp_right (fun hsending => Or.inr ?_) (h.of_send rfl rfl rfl hl her nofun)
    exact (Mailbox.Step.ret haccepted).congr (Mailbox.State.ext hsending rfl rfl rfl rfl rfl rfl)
  | @recv c pg perm hex hout =>
    have hrecv := h.recv
    rw [hout] at hrecv
    refine And.imp_right (fun hsending => Or.inl ?_) (h.of_recv rfl rfl hrecv)
    refine Mailbox.State.ext hsending rfl ?_ rfl rfl rfl rfl
    show slotOf (.call pg perm) (σ.kernel.envs r) = slotOf σ.recv (σ.kernel.envs r)
    rw [hout]
    rfl
  | @ipcRecv a k' c pg perm hk hcur hpoint hcall =>
    obtain ⟨hfixed, hmail⟩ := h.recv_mail hk hcur hcall
    have hwait := h.recving_of_curenv hcur
    have hslot : (σ.mailbox r).slot = none := by
      show slotOf σ.recv _ = _
      rw [hpoint]
      rfl
    have hrecv : RecvOk (.called perm) (k'.envs r) := by
      rcases hmail with ⟨-, heax⟩ | hrecving
      · exact Or.inr (Or.inr heax)
      · exact Or.inl hrecving
    have hslot' : slotOf (.called perm) (k'.envs r) = none := by
      refine if_neg fun hc => ?_
      rcases hmail with ⟨-, heax⟩ | hrecving
      · exact absurd (heax.symm.trans hc.2) (by decide)
      · exact nomatch hrecving.symm.trans hc.1
    have haccepted : σ.accepted ++ acceptedBy r σ.kernel k' = σ.accepted := by
      have hnone : acceptedBy r σ.kernel k' = [] := by
        refine if_neg fun hc => ?_
        rw [hwait] at hc
        exact nomatch hc.1
      rw [hnone, List.append_nil]
    have hno : (recvCall pg).syscallno ≠ SYS_env_set_status := by
      show SYS_ipc_recv ≠ SYS_env_set_status
      decide
    have hsend : σ.send = Function.update σ.send r .out := by
      rw [← h.send_receiver, Function.update_eq_self]
    refine And.imp_right (fun hsending => ?_)
      (h.of_step hk rfl (h.blocked_call hk hcall hno) hsend hrecv h.live (absurd rfl) nofun
        fun i hi m _ => hfixed i hi)
    have hsame : σ.sending = _ := (h.sending_same h.live (by rw [h.send_receiver]; rfl) hsending).symm
    rcases hmail with ⟨hrecving, -⟩ | hrecving
    · left
      exact Mailbox.State.ext hsame.symm (hrecving.trans hwait.symm) (hslot'.trans hslot.symm) rfl rfl haccepted rfl
    · right
      refine (Mailbox.Step.wait hslot).congr ?_
      exact Mailbox.State.ext hsame.symm hrecving (hslot'.trans hslot.symm) rfl rfl haccepted rfl
  | @called c perm hex hcalled =>
    have hrecving := h.recving_of_curenv hex.1
    have hrecv := h.recv
    rw [hcalled, RecvOk, hrecving] at hrecv
    have hslot : slotOf σ.recv (σ.kernel.envs r) = if σ.ret r = 0#32 then
        some ((σ.kernel.envs r).envIpcFrom, (σ.kernel.envs r).envIpcValue) else none := by
      rw [hcalled, slotOf]
      exact if_congr (and_iff_right hrecving) rfl rfl
    rcases hrecv with hrecv | hret | hret
    · cases hrecv
    · have hafter : afterRecv perm (σ.ret r) = .loadFrom perm := by
        rw [show σ.ret r = 0#32 from hret]
        rfl
      rw [hafter]
      refine And.imp_right (fun hsending => Or.inl ?_) (h.of_recv rfl rfl hrecving)
      refine Mailbox.State.ext hsending rfl ?_ rfl rfl rfl rfl
      exact (hslot.trans (if_pos hret)).symm
    · have hafter : afterRecv perm (σ.ret r) = .out := by
        rw [show σ.ret r = BitVec.ofInt 32 (-E_INVAL) from hret]
        rfl
      have hne : σ.ret r ≠ 0#32 := by
        rw [show σ.ret r = BitVec.ofInt 32 (-E_INVAL) from hret]
        decide
      rw [hafter]
      refine And.imp_right (fun hsending => Or.inl ?_) (h.of_recv rfl rfl hrecving)
      refine Mailbox.State.ext hsending rfl ?_ rfl rfl rfl rfl
      exact (hslot.trans (if_neg hne)).symm
  | @loadFrom c perm w hex hpoint hload =>
    obtain rfl := Option.some.inj ((h.loadEnvField_eq hex.1 (by decide) _).symm.trans hload)
    have hrecving := h.recving_of_curenv hex.1
    refine And.imp_right (fun hsending => Or.inl ?_) (h.of_recv rfl rfl ?_)
    · refine Mailbox.State.ext hsending rfl ?_ rfl rfl rfl rfl
      show slotOf (if perm then _ else _) _ = slotOf σ.recv _
      rw [hpoint]
      cases perm <;> rfl
    · show RecvOk (if perm then _ else _) _
      cases perm <;> exact ⟨hrecving, rfl⟩
  | @loadPerm c sender w hex hpoint hload =>
    have hrecv := h.recv
    rw [hpoint] at hrecv
    refine And.imp_right (fun hsending => Or.inl ?_) (h.of_recv rfl rfl hrecv)
    refine Mailbox.State.ext hsending rfl ?_ rfl rfl rfl rfl
    show slotOf (.loadValue sender) (σ.kernel.envs r) = slotOf σ.recv (σ.kernel.envs r)
    rw [hpoint]
    rfl
  | @loadValue c sender w hex hpoint hload =>
    obtain rfl := Option.some.inj ((h.loadEnvField_eq hex.1 (by decide) _).symm.trans hload)
    have hrecv := h.recv
    rw [hpoint] at hrecv
    obtain ⟨hrecving, rfl⟩ := hrecv
    have hslot : (σ.mailbox r).slot = some ((σ.kernel.envs r).envIpcFrom, (σ.kernel.envs r).envIpcValue) := by
      show slotOf σ.recv _ = _
      rw [hpoint]
      rfl
    refine And.imp_right (fun hsending => Or.inr ?_) (h.of_recv rfl rfl hrecving)
    exact (Mailbox.Step.receive hslot hrecving).congr (Mailbox.State.ext hsending rfl rfl rfl rfl rfl rfl)
  | @other a k' hk ho =>
    have hfixed : ∀ i m, σ.send i = .tried m → MailFixed i σ.kernel k' := fun i m hi =>
      (h.other_fixed hk ho (h.sender i (by rw [hi]; exact nofun)).1 (Or.inr ⟨m, hi⟩)).choose_spec.2 (Or.inr ⟨m, hi⟩)
    obtain ⟨own, hkept, hreceiver⟩ := h.other_fixed hk ho h.live (Or.inl rfl)
    have hblocked : ∀ e, WaitsBlocked (k'.envs e) := by
      refine h.blocked_step hk fun c gate faultVa input tf cur ha hcur hno hset i hi => ?_
      subst ha
      exact (ho cur hcur).status hno hset i hi
    obtain ⟨hrecv, hbox⟩ := h.enter_same hkept.recving hkept.sender hkept.value
      fun perm hp => (hreceiver (Or.inl ⟨rfl, perm, hp⟩)).eax
    have hsend : σ.send = Function.update σ.send r .out := by
      rw [← h.send_receiver, Function.update_eq_self]
    refine And.imp_right (fun hsending => Or.inl ?_)
      (h.of_step hk rfl hblocked hsend hrecv h.live (absurd rfl) nofun fun i _ m hi => hfixed i m hi)
    refine hbox σ.send (h.sending_same h.live ?_ hsending)
    rw [h.send_receiver]
    rfl

end IpcInv

/-! ## Whole runs -/

/-- Messages to `r` arrive once and in order. What `ipc_recv` has returned is, from each sender, the beginning of
what it was called to send; each send that has returned has had its message accepted, and at most one that has not;
and all that was accepted has been returned by `ipc_recv`, but for a message that is in the fields of `r`, where
nothing is accepted before it is read. -/
structure Delivered (r : Nat) (σ : IpcState) : Prop where
  order : ∀ w, Mailbox.of w σ.received <+: σ.calls w
  accepted : ∀ w, Mailbox.of w σ.accepted <+: σ.calls w
  returned : ∀ w, ∃ last : List Word, last.length ≤ 1 ∧ Mailbox.of w σ.accepted = σ.returned w ++ last
  kept : σ.accepted = σ.received ∨ (σ.kernel.envs r).envIpcRecving = false ∧
    σ.accepted = σ.received ++ [((σ.kernel.envs r).envIpcFrom, (σ.kernel.envs r).envIpcValue)]

theorem IpcStart.inv (h : IpcStart r k) (hreach : Reach sys Safe k) : IpcInv sys r (.start k) where
  reach := hreach
  live := h.live
  undestroyed := h.undestroyed
  blocked := h.blocked
  recv := h.idle
  sender _ hs := absurd rfl hs
  tried _ _ ht := nomatch ht

theorem IpcStart.mailbox (h : IpcStart r k) : (IpcState.start k).mailbox r = Mailbox.start := by
  refine Mailbox.State.ext (funext fun w => ?_) h.idle rfl rfl rfl rfl rfl
  exact ite_self _

/-- In every state of a run the system is a mailbox that has lost and duplicated nothing. -/
theorem IpcRun.inv (h : IpcRun sys r Safe σ) : IpcInv sys r σ ∧ Mailbox.Inv (σ.mailbox r) := by
  induction h with
  | start hreach hstart =>
    refine ⟨hstart.inv hreach, ?_⟩
    rw [hstart.mailbox]
    exact Mailbox.inv_start
  | step _ hs ih =>
    obtain ⟨hinv, hbox⟩ := ih
    obtain ⟨hinv', heq | hstep⟩ := hinv.step hs
    · exact ⟨hinv', heq ▸ hbox⟩
    · exact ⟨hinv', hbox.step hstep⟩

/-- The message in the box is in the fields of the receiver. -/
theorem RecvOk.slot {p : RecvPoint} {env : Env} {m : Word × Word} (h : RecvOk p env) (hs : slotOf p env = some m) :
    env.envIpcRecving = false ∧ m = (env.envIpcFrom, env.envIpcValue) := by
  cases p with
  | called perm =>
    rw [slotOf] at hs
    split at hs
    · next hc => exact ⟨hc.1, (Option.some.inj hs).symm⟩
    · cases hs
  | loadFrom perm => exact ⟨h, (Option.some.inj hs).symm⟩
  | loadPerm sender => exact ⟨h.1, (Option.some.inj hs).symm⟩
  | loadValue sender => exact ⟨h.1, (Option.some.inj hs).symm⟩
  | out => cases hs
  | call pg perm => cases hs
  | panicked => cases hs

theorem sending_taken_le (s : Mailbox.Sending Word) : s.taken.length ≤ 1 := by
  cases s with
  | accepted v => exact le_rfl
  | _ => exact Nat.zero_le 1

/-- Whatever the environments do, and however they are scheduled, every message is delivered exactly once and in
order, as long as no step triggers a defect of the system calls. -/
theorem ipcRun_delivered (h : IpcRun sys r Safe σ) : Delivered r σ := by
  obtain ⟨hinv, hbox⟩ := h.inv
  have hbox' : σ.accepted = σ.received ++ (slotOf σ.recv (σ.kernel.envs r)).toList := hbox.box
  have haccepted : ∀ w, Mailbox.of w σ.accepted <+: σ.calls w := fun w => ⟨_, (hbox.order w).symm⟩
  refine ⟨fun w => ?_, haccepted, fun w => ⟨_, sending_taken_le (σ.sending w), hbox.taken w⟩, ?_⟩
  · refine List.IsPrefix.trans ?_ (haccepted w)
    rw [hbox', Mailbox.of_append]
    exact List.prefix_append _ _
  · cases hs : slotOf σ.recv (σ.kernel.envs r) with
    | none =>
      rw [hs, Option.toList_none, List.append_nil] at hbox'
      exact Or.inl hbox'
    | some m =>
      rw [hs, Option.toList_some] at hbox'
      obtain ⟨hrecving, rfl⟩ := hinv.recv.slot hs
      exact Or.inr ⟨hrecving, hbox'⟩

/-! ## A page in the window -/

section Window

variable {R : Set Nat} {D : Finset Nat} {l : List Nat} {s : Pmap} {d d' pp : Nat} {va perm : Word} {b : BootInfo}

/-- The frames of the array are reserved. -/
theorem PmapInv.envs_reserved (h : PmapInv R D l s) (hd : d ∈ D) (hw : EnvsShown b s) : PGNUM (envsPaddr b) ∈ R := by
  obtain ⟨-, hP, -, -, hpte, -, hres, -⟩ := h.uenvs_entry hd
  have hshown : translate s d (pageAddr (UENVSPN + 0)) USER_R = some (PGNUM (envsPaddr b)) :=
    (h.translate_upper hd _ (uenvs_kernPde (by decide))).trans (hw 0 (by decide))
  rw [show pageAddr (UENVSPN + 0) = UTOP by decide] at hshown
  simp only [translate] at hshown
  split at hshown
  · split at hshown
    · rw [hpte, tableOf] at hres
      rw [← Option.some.inj hshown]
      exact hres
    · cases hshown
  · cases hshown

/-- When a page has been mapped at `UTOP`, user code finds it at `UENVS`. -/
theorem PmapInv.translate_insertMapped_UTOP (h : PmapInv R D l s) (hd : d ∈ D) (hpp : pp < 1048576)
    (hva : PGNUM va = PGNUM UTOP) :
    translate (s.insertMapped d pp UTOP (PTE_P ||| PTE_U)) d va USER_R = some pp := by
  have hpte : pteOf (s.insertMapped d pp UTOP (PTE_P ||| PTE_U)) d (PGNUM UTOP) = mkPte pp (PTE_P ||| PTE_U) :=
    h.insertMapped_UTOP_pteOf hd hd (by decide)
  have hpde : (s.insertMapped d pp UTOP (PTE_P ||| PTE_U)).mem d (PDX UTOP)
      = (s.mem d (PDX UTOP) ||| (PTE_P ||| PTE_U)) := by
    obtain ⟨-, -, htR, -⟩ := h.uenvs_entry hd
    rw [insertMapped_mem, Pmap.setPte, store_mem, if_pos ⟨rfl, rfl⟩]
  have hP : present ((s.insertMapped d pp UTOP (PTE_P ||| PTE_U)).mem d (PDX UTOP)) := by
    rw [hpde]
    exact present_or_right _ (by decide)
  rw [pteOf_PGNUM, if_pos hP, tableOf] at hpte
  rw [translate_page hva, translate]
  simp only [hpte]
  rw [if_pos, if_pos, ppn_mkPte hpp (by decide)]
  · rw [mkPte, BitVec.or_assoc, show (PTE_P ||| PTE_U) ||| PTE_P = PTE_P ||| PTE_U by decide, ← BitVec.or_assoc]
    exact or_readable _
  · rw [hpde, ← BitVec.or_assoc]
    exact or_readable _

/-- What user code then reads from the first page of `envs` is in the page. -/
theorem PmapInv.loadEnvField_insertMapped_UTOP (h : PmapInv R D l s) (hd : d ∈ D) (hw : EnvsShown b s)
    (hpp : Managed s.npages R pp) (he : e < NENV) {off : Nat} (hoff : off < ENV_SIZE)
    (hpage : e * ENV_SIZE + off < PGSIZE) (w : Word) :
    loadEnvField b (s.insertMapped d pp UTOP (PTE_P ||| PTE_U)) d e off w
      = some ((s.insertMapped d pp UTOP (PTE_P ||| PTE_U)).mem pp (wordOf (uenvAddr e off))) := by
  have hva : PGNUM (uenvAddr e off) = PGNUM UTOP := by
    rw [(PGNUM_uenvAddr he hoff).2, Nat.div_eq_of_lt hpage]
    decide
  have hne : pp ≠ PGNUM (envsPaddr b) + (e * ENV_SIZE + off) / PGSIZE := by
    rw [Nat.div_eq_of_lt hpage]
    rintro rfl
    exact hpp.2 (h.envs_reserved hd hw)
  rw [loadEnvField, h.translate_insertMapped_UTOP hd (hpp.1.trans_le h.npages_le') hva, Option.map_some,
    if_neg hne]

end Window

/-! ## A run -/

/-- The statuses of the two environments of `demoSystem`. -/
def demoStatus (a b : EnvStatus) (i : Nat) : EnvStatus := if i = 0 then a else if i = 1 then b else .free

/-- The first CPU runs one of the two environments, and the other CPU is off. -/
structure DemoTurn (d₀ d₁ : Nat) (a b : EnvStatus) (cur : Nat) (k : Kernel) : Prop where
  status : ∀ i, (k.envs i).envStatus = demoStatus a b i
  id : ∀ e < 2, (k.envs e).envId = nextEnvId 0#32 e
  pgdir₀ : (k.envs 0).envPgdir = some d₀
  pgdir₁ : (k.envs 1).envPgdir = some d₁
  curenv : ∀ c, k.curenv c = if c = 0 then some cur else none
  mode : (k.cpus 0).mode = .user
  lt : cur < 2

section Demo

variable {R : Set Nat} {D : Finset Nat} {l : List Nat} {d₀ d₁ cur : Nat} {a b a' b' : EnvStatus} {k₀ k₁ k₂ : Kernel}
  {call : Call} {P : Kernel → Action → Prop}

theorem DemoRunning.turn (h : DemoRunning R D l d₀ d₁ k₀ k₁) : DemoTurn d₀ d₁ .running .runnable 0 k₁ := by
  refine ⟨h.status, h.id, h.pgdir₀, h.pgdir₁, fun c => ?_, ?_, by decide⟩
  · rw [Kernel.curenv, h.cpus c]
    split <;> rfl
  · rw [h.cpus 0, if_pos rfl]

namespace DemoTurn

theorem onlyTf (h : DemoTurn d₀ d₁ a b cur k) (ht : OnlyTf k k') : DemoTurn d₀ d₁ a b cur k' := by
  refine ⟨fun i => (ht.status i).trans (h.status i), fun e he => ?_, (ht.pgdir 0).trans h.pgdir₀,
    (ht.pgdir 1).trans h.pgdir₁, fun c => ?_, ?_, h.lt⟩
  · obtain ⟨tf, htf⟩ := ht.envs e
    rw [htf]
    exact h.id e he
  · rw [Kernel.curenv, ht.cpus]
    exact h.curenv c
  · rw [ht.cpus]
    exact h.mode

/-- The first environment gets another status. -/
theorem setFirst {env : Env} (h : DemoTurn d₀ d₁ a b cur k)
    (henvs : ∀ i, k'.envs i = if i = 0 then env else k.envs i) (hcpus : k'.cpus = k.cpus)
    (hid : env.envId = (k.envs 0).envId) (hpg : env.envPgdir = (k.envs 0).envPgdir) :
    DemoTurn d₀ d₁ env.envStatus b cur k' := by
  refine ⟨fun i => ?_, fun e he => ?_, ?_, ?_, fun c => ?_, ?_, h.lt⟩
  · rw [henvs, demoStatus]
    split
    · rfl
    · next hi => rw [h.status i, demoStatus, if_neg hi]
  · rw [henvs]
    split
    · next he₀ =>
      rw [hid, he₀]
      exact h.id 0 (by decide)
    · exact h.id e he
  · rw [henvs, if_pos rfl, hpg]
    exact h.pgdir₀
  · rw [henvs, if_neg (by decide)]
    exact h.pgdir₁
  · rw [Kernel.curenv, hcpus]
    exact h.curenv c
  · rw [hcpus]
    exact h.mode

theorem withPmap (h : DemoTurn d₀ d₁ a b cur k) (s : Pmap) : DemoTurn d₀ d₁ a b cur { k with pmap := s } :=
  ⟨h.status, h.id, h.pgdir₀, h.pgdir₁, h.curenv, h.mode, h.lt⟩

theorem pgdir (h : DemoTurn d₀ d₁ a b cur k) (he : e < 2) :
    (k.envs e).envPgdir = some (if e = 0 then d₀ else d₁) := by
  obtain rfl | rfl : e = 0 ∨ e = 1 := by omega
  · exact h.pgdir₀
  · exact h.pgdir₁

theorem lt_of_live (h : DemoTurn d₀ d₁ a b cur k) (hl : Live k e) : e < 2 := by
  have hst := hl.2
  rw [h.status, demoStatus] at hst
  by_contra hge
  rw [if_neg (by omega), if_neg (by omega)] at hst
  exact hst rfl

/-- The CPU goes to user mode. -/
theorem runs (h : DemoTurn d₀ d₁ a b cur k) (he : e < 2)
    (ha : (if e = 0 then .running else if cur = 0 ∧ a = .running then .runnable else a) = a')
    (hb : (if e = 1 then .running else if cur = 1 ∧ b = .running then .runnable else b) = b') :
    DemoTurn d₀ d₁ a' b' e (k.runs 0 e) := by
  have hcur : ∀ i, k.curenv 0 = some i ↔ cur = i := fun i => by rw [h.curenv 0, if_pos rfl, Option.some_inj]
  refine ⟨fun i => ?_, fun i hi => (runs_sameEnv i).id.trans (h.id i hi), (runs_sameEnv 0).pgdir.trans h.pgdir₀,
    (runs_sameEnv 1).pgdir.trans h.pgdir₁, fun c => ?_, ?_, he⟩
  · simp only [runs_status, hcur, h.status i, demoStatus]
    by_cases hi₀ : i = 0
    · subst hi₀
      rw [if_pos rfl, if_pos rfl, ← ha]
      simp only [eq_comm]
    · by_cases hi₁ : i = 1
      · subst hi₁
        rw [if_neg hi₀, if_pos rfl, if_neg hi₀, if_pos rfl, ← hb]
        simp only [eq_comm]
      · rw [if_neg hi₀, if_neg hi₁, if_neg (by omega), if_neg fun hc => nomatch hc.2]
        rw [if_neg hi₀, if_neg hi₁]
  · rw [Kernel.curenv, runs_cpus]
    split
    · rfl
    · next hc =>
      have := h.curenv c
      rw [if_neg hc] at this
      exact this
  · rw [runs_cpus, if_pos rfl]

/-- The only environment that can run gets the CPU. -/
theorem schedYield (h : DemoTurn d₀ d₁ a b cur k) (he : e < 2) (hst : demoStatus a b e = .runnable)
    (honly : ∀ i < 2, demoStatus a b i = .runnable → i = e) : Jos.schedYield k 0 = .ok (.left (k.runs 0 e)) := by
  have hlt : ∀ i, i < 2 → i < NENV := fun i hi => hi.trans (by decide)
  have hcur : ∀ i, k.curenv 0 = some i → i < NENV := by
    intro i hi
    rw [h.curenv 0, if_pos rfl] at hi
    exact Option.some.inj hi ▸ hlt cur h.lt
  have hrun : (k.envs e).envStatus = .runnable := (h.status e).trans hst
  rcases schedYield_cases (fun i hi => ⟨_, h.pgdir (h.lt_of_live hi)⟩) hcur with
    ⟨i, ⟨hi, hdis⟩, hy⟩ | ⟨hno, -⟩ | ⟨hno, -⟩
  · rcases hdis with hdis | ⟨-, -, hno⟩
    · have hi₂ : i < 2 := h.lt_of_live ⟨hi, by rw [hdis]; exact nofun⟩
      rw [hy, honly i hi₂ ((h.status i).symm.trans hdis)]
    · exact absurd hrun (hno e (hlt e he))
  · exact absurd hrun (hno e (hlt e he))
  · exact absurd hrun (hno e (hlt e he)).1

theorem status_ne_dying (h : DemoTurn d₀ d₁ a b cur k) (ha : a ≠ .dying) (hb : b ≠ .dying) :
    (k.envs e).envStatus ≠ .dying := by
  rw [h.status, demoStatus]
  split
  · exact ha
  · split
    · exact hb
    · exact nofun

theorem curenv_self (h : DemoTurn d₀ d₁ a b cur k) : k.curenv 0 = some cur := (h.curenv 0).trans (if_pos rfl)

theorem executes (h : DemoTurn d₀ d₁ a b cur k) : Executes k 0 cur := ⟨h.curenv_self, h.mode⟩

theorem live (h : DemoTurn d₀ d₁ a b cur k) (ha : a ≠ .free) (hb : b ≠ .free) (he : e < 2) : Live k e := by
  refine ⟨he.trans (by decide), ?_⟩
  obtain rfl | rfl : e = 0 ∨ e = 1 := by omega
  · rw [h.status]
    exact ha
  · rw [h.status]
    exact hb

/-- A system call after which the CPU runs one of the two. -/
theorem kernelStep (h : DemoTurn d₀ d₁ a b cur k) (h' : DemoTurn d₀ d₁ a' b' e k')
    (ha : a' ≠ .free ∧ a' ≠ .dying) (hb : b' ≠ .free ∧ b' ≠ .dying) (hP : P k (callAction 0 call))
    (hx : exec k (callAction 0 call) = .ok (.left k')) : KernelStep demoSystem P k (callAction 0 call) k' where
  enabled := callAction_enabled call (by decide) h.mode
  cond := hP
  exec := hx
  undestroyed _ := h'.status_ne_dying ha.2 hb.2
  kept _ hl := (h'.live ha.1 hb.1 (h.lt_of_live hl)).2

/-- A system call that gives up the CPU. -/
theorem exec_left (h : DemoTurn d₀ d₁ a b cur k) (ha : a ≠ .dying) (hb : b ≠ .dying)
    (hcall : syscallOf (k.setEnv cur { k.envs cur with envTf := callFrame call }) 0 cur 0#32 (callFrame call).regs
      = .ok (.left k')) : exec k (callAction 0 call) = .ok (.left k') :=
  trap_syscall_left rfl rfl rfl h.curenv_self (h.status_ne_dying ha hb) hcall

end DemoTurn

/-- The first environment has the message `val` of the second. -/
structure DemoMail (val : Word) (k : Kernel) : Prop where
  recving : (k.envs 0).envIpcRecving = false
  sender : (k.envs 0).envIpcFrom = nextEnvId 0#32 1
  value : (k.envs 0).envIpcValue = val
  eax : (k.envs 0).envTf.regs.eax = 0#32

namespace DemoMail

variable {val : Word}

theorem runs (h : DemoMail val k) (e : Nat) : DemoMail val (k.runs 0 e) := by
  have hs := runs_sameEnv (k := k) (c := 0) (e := e) 0
  exact ⟨hs.recving.trans h.recving, hs.sender.trans h.sender, hs.value.trans h.value, by rw [hs.tf, h.eax]⟩

/-- The registers of the second environment are saved. -/
theorem setEnv (h : DemoMail val k) (env : Env) : DemoMail val (k.setEnv 1 env) := by
  have henv : (k.setEnv 1 env).envs 0 = k.envs 0 := (setEnv_envs ..).trans (if_neg (by decide))
  refine ⟨?_, ?_, ?_, ?_⟩
  · rw [henv, h.recving]
  · rw [henv, h.sender]
  · rw [henv, h.value]
  · rw [henv, h.eax]

theorem deliver (h : DemoTurn d₀ d₁ a b 1 k) (perm : Word) : DemoMail val (deliver k 1 0 val perm) := by
  have henv : (Jos.deliver k 1 0 val perm).envs 0 = _ := (deliver_envs 0).trans (if_pos rfl)
  refine ⟨?_, ?_, ?_, ?_⟩
  · rw [henv]
  · rw [henv]
    exact h.id 1 (by decide)
  · rw [henv]
  · rw [henv]

end DemoMail

/-- The first environment waits for a message and wants no page, and the second one runs. -/
structure DemoWaits (R : Set Nat) (D : Finset Nat) (l : List Nat) (d₀ d₁ : Nat) (s : Pmap) (k : Kernel) : Prop where
  turn : DemoTurn d₀ d₁ .notRunnable .running 1 k
  inv : KernelInv R D l k
  recving : (k.envs 0).envIpcRecving = true
  addr : (k.envs 0).envIpcDstva = UTOP
  pmap : k.pmap = s

theorem DemoWaits.onlyTf {s : Pmap} (h : DemoWaits R D l d₀ d₁ s k) (ht : OnlyTf k k') :
    DemoWaits R D l d₀ d₁ s k' := by
  obtain ⟨tf, htf⟩ := ht.envs 0
  refine ⟨h.turn.onlyTf ht, h.inv.congr ⟨ht.sameDirs, fun e => by rw [ht.status]⟩ ht.pmap, ?_, ?_,
    ht.pmap.trans h.pmap⟩
  · rw [htf]
    exact h.recving
  · rw [htf]
    exact h.addr

/-- `sys_ipc_recv` without a page. -/
theorem DemoRunning.recvCall_step (h : DemoRunning R D l d₀ d₁ k₀ k₁) (hP : P k₁ (callAction 0 (recvCall 0#32))) :
    ∃ k₂, KernelStep demoSystem P k₁ (callAction 0 (recvCall 0#32)) k₂ ∧ DemoWaits R D l d₀ d₁ k₁.pmap k₂ := by
  have htf := OnlyTf.setEnv k₁ 0 (callFrame (recvCall 0#32))
  have hturn := h.turn.onlyTf htf
  have hinv := h.inv.congr ⟨htf.sameDirs, fun e => by rw [htf.status]⟩ htf.pmap
  have hpmap := htf.pmap
  generalize hk : k₁.setEnv 0 { k₁.envs 0 with envTf := callFrame (recvCall 0#32) } = k at hturn hinv hpmap
  have hblocks : DemoTurn d₀ d₁ .notRunnable .runnable 0 (k.blocks 0 UTOP) :=
    hturn.setFirst blocks_envs rfl rfl rfl
  have hlive : ∀ e < 2, Live (k.blocks 0 UTOP) e := fun e he => hblocks.live nofun nofun he
  have hinv' : KernelInv R D l (k.blocks 0 UTOP) := hinv.blocks (hturn.live nofun nofun (by decide)) UTOP
  have hy : Jos.schedYield (k.blocks 0 UTOP) 0 = .ok (.left ((k.blocks 0 UTOP).runs 0 1)) := by
    refine hblocks.schedYield (by decide) rfl fun i hi hst => ?_
    obtain rfl | rfl : i = 0 ∨ i = 1 := by omega
    · cases hst
    · rfl
  have hcall : syscallOf k 0 0 0#32 (callFrame (recvCall 0#32)).regs = .ok (.left ((k.blocks 0 UTOP).runs 0 1)) := by
    show sysIpcRecv k 0 0 UTOP = _
    rw [sysIpcRecv_eq fun hc => absurd hc (by decide), hy]
  have hruns : DemoTurn d₀ d₁ .notRunnable .running 1 ((k.blocks 0 UTOP).runs 0 1) :=
    hblocks.runs (by decide) rfl rfl
  have hx := h.turn.exec_left nofun nofun (by rw [hk]; exact hcall)
  have hs := runs_sameEnv (k := k.blocks 0 UTOP) (c := 0) (e := 1) 0
  refine ⟨_, h.turn.kernelStep hruns ⟨nofun, nofun⟩ ⟨nofun, nofun⟩ hP hx, hruns, ?_, ?_, ?_, hpmap⟩
  · refine hinv'.runs (hlive 1 (by decide)) fun i hi => ?_
    rw [hblocks.curenv_self] at hi
    exact Option.some.inj hi ▸ hlive 0 (by decide)
  · rw [hs.recving, blocks_envs, if_pos rfl]
  · rw [hs.dstva, blocks_envs, if_pos rfl]

variable {m : Msg} {perm : Word} {s s' : Pmap}

/-- `sys_ipc_try_send`, which goes through. -/
theorem DemoWaits.sendCall_step (h : DemoWaits R D l d₀ d₁ s k)
    (htry : ∀ k, DemoWaits R D l d₀ d₁ s k → sysIpcTrySend k 1 (nextEnvId 0#32 0) m.val (pageArg m.pg) m.perm
      = .ok (0, deliver { k with pmap := s' } 1 0 m.val perm))
    (hP : P k (callAction 0 (sendCall (nextEnvId 0#32 0) m))) :
    ∃ k', KernelStep demoSystem P k (callAction 0 (sendCall (nextEnvId 0#32 0) m)) k' ∧
      DemoTurn d₀ d₁ .runnable .running 1 k' ∧ DemoMail m.val k' ∧ k'.pmap = s' ∧
      (k'.envs 1).envTf.regs.eax = 0#32 := by
  have hsaved := h.onlyTf (.setEnv k 1 (callFrame (sendCall (nextEnvId 0#32 0) m)))
  generalize hk : k.setEnv 1 { k.envs 1 with envTf := callFrame (sendCall (nextEnvId 0#32 0) m) } = k₁ at hsaved
  have hturn : DemoTurn d₀ d₁ .runnable .running 1 (deliver { k₁ with pmap := s' } 1 0 m.val perm) :=
    (hsaved.turn.withPmap s').setFirst deliver_envs rfl rfl rfl
  have hmail : DemoMail m.val (deliver { k₁ with pmap := s' } 1 0 m.val perm) :=
    .deliver (hsaved.turn.withPmap s') perm
  have hcall : syscallOf k₁ 0 1 0#32 (callFrame (sendCall (nextEnvId 0#32 0) m)).regs
      = .ok (.ret 0 (deliver { k₁ with pmap := s' } 1 0 m.val perm)) := by
    show Flow.ofRet <$> sysIpcTrySend k₁ 1 (nextEnvId 0#32 0) m.val (pageArg m.pg) m.perm = _
    rw [htry k₁ hsaved]
    rfl
  have hpmap : (deliver { k₁ with pmap := s' } 1 0 m.val perm).pmap = s' := rfl
  generalize deliver { k₁ with pmap := s' } 1 0 m.val perm = k₂ at hturn hmail hcall hpmap
  have hruns : DemoTurn d₀ d₁ .runnable .running 1 ((setEax k₂ 1 0).runs 0 1) :=
    (hturn.onlyTf (.setEax k₂ 1 0)).runs (by decide) rfl rfl
  have hx : exec k (callAction 0 (sendCall (nextEnvId 0#32 0) m)) = .ok (.left ((setEax k₂ 1 0).runs 0 1)) := by
    refine trap_syscall_ret rfl rfl rfl h.turn.curenv_self (h.turn.status_ne_dying nofun nofun) ?_ hturn.curenv_self
      (hturn.status 1) hturn.pgdir₁
    rw [hk]
    exact hcall
  refine ⟨_, h.turn.kernelStep hruns ⟨nofun, nofun⟩ ⟨nofun, nofun⟩ hP hx, hruns, (hmail.setEnv _).runs 1, hpmap, ?_⟩
  rw [(runs_sameEnv 1).tf, setEax, setEnv_envs, if_pos rfl]
  rfl

/-- `sys_yield`, which gives the CPU back to the first environment. -/
theorem DemoTurn.yieldCall_step (h : DemoTurn d₀ d₁ .runnable .running 1 k) {val : Word} (hmail : DemoMail val k)
    (hP : P k (callAction 0 yieldCall)) :
    ∃ k', KernelStep demoSystem P k (callAction 0 yieldCall) k' ∧ DemoTurn d₀ d₁ .running .runnable 0 k' ∧
      DemoMail val k' ∧ k'.pmap = k.pmap ∧ (k'.cpus 0).cr3 = d₀ := by
  have hturn := h.onlyTf (.setEnv k 1 (callFrame yieldCall))
  have hsaved := hmail.setEnv { k.envs 1 with envTf := callFrame yieldCall }
  have hpmap := (OnlyTf.setEnv k 1 (callFrame yieldCall)).pmap
  generalize hk : k.setEnv 1 { k.envs 1 with envTf := callFrame yieldCall } = k₁ at hturn hsaved hpmap
  have hy : Jos.schedYield k₁ 0 = .ok (.left (k₁.runs 0 0)) := by
    refine hturn.schedYield (by decide) rfl fun i hi hst => ?_
    obtain rfl | rfl : i = 0 ∨ i = 1 := by omega
    · rfl
    · cases hst
  have hruns : DemoTurn d₀ d₁ .running .runnable 0 (k₁.runs 0 0) := hturn.runs (by decide) rfl rfl
  have hx : exec k (callAction 0 yieldCall) = .ok (.left (k₁.runs 0 0)) :=
    h.exec_left nofun nofun (by rw [hk]; exact hy)
  refine ⟨_, h.kernelStep hruns ⟨nofun, nofun⟩ ⟨nofun, nofun⟩ hP hx, hruns, hsaved.runs 0, hpmap, ?_⟩
  rw [runs_cpus, if_pos rfl, hturn.pgdir₀]
  rfl

/-- A call that is none of those with defects. -/
theorem safe_callAction {c : Nat} (hmap : call.syscallno ≠ SYS_page_map) (hsend : call.syscallno ≠ SYS_ipc_try_send)
    (halloc : call.syscallno ≠ SYS_page_alloc) (hdestroy : call.syscallno ≠ SYS_env_destroy)
    (hset : call.syscallno ≠ SYS_env_set_status) : Safe k (callAction c call) := by
  refine fun _ cur _ => ⟨⟨⟨fun hc => ?_, fun hc => ?_⟩, fun hc => ?_, fun hc => ?_⟩, fun hc => ?_, fun hc => ?_,
    fun hc => ?_⟩
  · exact absurd hc hmap
  · exact absurd hc hsend
  · exact absurd hc halloc
  · exact absurd hc hsend
  · exact absurd hc hdestroy
  · exact absurd hc hset
  · exact absurd hc hsend

/-- A run in which the second environment has been called to send `vals`, is at `p` in `ipc_send`, and the first one
is at `q` in `ipc_recv`. -/
def DemoAt (P : Kernel → Action → Prop) (k : Kernel) (p : SendPoint) (q : RecvPoint) (vals : List Word) : Prop :=
  ∃ σ, IpcRun demoSystem 0 P σ ∧ σ.kernel = k ∧ σ.send 1 = p ∧ σ.recv = q ∧
    σ.calls = Function.update (fun _ => []) (nextEnvId 0#32 1) vals ∧ σ.received = []

/-- The first environment calls `ipc_recv` without a page. -/
theorem DemoRunning.ipcRecv (h : DemoRunning R D l d₀ d₁ k₀ k₁) (hsafe : ∀ k a, Safe k a → P k a) :
    ∃ k₂, DemoWaits R D l d₀ d₁ k₁.pmap k₂ ∧ DemoAt P k₂ .out (.called false) [] := by
  have hidle : ∀ e, (k₁.envs e).envIpcRecving = false :=
    fun e => (h.same e).recving.trans (h.booted.started.recving e)
  have hstart : IpcStart 0 k₁ := by
    refine ⟨h.live₀, hidle 0, fun e hr => ?_, fun e => h.turn.status_ne_dying nofun nofun⟩
    rw [hidle e] at hr
    cases hr
  obtain ⟨k₂, hrecv, hwaits⟩ := h.recvCall_step (P := P)
    (hsafe _ _ (safe_callAction (by decide) (by decide) (by decide) (by decide) (by decide)))
  have hrun : IpcRun demoSystem 0 P { IpcState.start k₁ with recv := .call 0#32 false } :=
    (IpcRun.start (.boot h.booted.init h.first) hstart).step (.recv 0#32 false h.turn.executes rfl)
  refine ⟨k₂, hwaits, _, hrun.step (.ipcRecv hrecv h.turn.curenv_self rfl ⟨rfl, rfl, rfl⟩), rfl, rfl, rfl, ?_, rfl⟩
  exact (Function.update_eq_self (nextEnvId 0#32 1) fun _ => ([] : List Word)).symm

/-- The second environment calls `ipc_send`, and the message is accepted. -/
theorem DemoWaits.ipcSend (h : DemoWaits R D l d₀ d₁ s k) (hat : DemoAt P k .out (.called false) [])
    (htry : ∀ k, DemoWaits R D l d₀ d₁ s k → sysIpcTrySend k 1 (nextEnvId 0#32 0) m.val (pageArg m.pg) m.perm
      = .ok (0, deliver { k with pmap := s' } 1 0 m.val perm))
    (hP : P k (callAction 0 (sendCall (nextEnvId 0#32 0) m))) :
    ∃ k', DemoTurn d₀ d₁ .runnable .running 1 k' ∧ DemoMail m.val k' ∧ k'.pmap = s' ∧
      DemoAt P k' (.checked m 0#32) (.called false) [m.val] := by
  obtain ⟨k', hsend, hturn, hmail, hpmap, heax⟩ := h.sendCall_step htry hP
  have hcalled : DemoAt P k (.retry m) (.called false) [m.val] := by
    obtain ⟨σ, hrun, rfl, hout, hq, hcalls, hnone⟩ := hat
    refine ⟨_, hrun.step (.send m h.turn.executes nofun hout), rfl, Function.update_self 1 _ σ.send, hq, ?_, hnone⟩
    rw [hcalls, h.turn.id 1 (by decide), Function.update_self, Function.update_idem]
    rfl
  have htried : DemoAt P k' (.tried m) (.called false) [m.val] := by
    obtain ⟨σ, hrun, rfl, hretry, hq, hcalls, hnone⟩ := hcalled
    refine ⟨_, hrun.step (.trySend hsend h.turn.curenv_self hretry ⟨rfl, rfl, ?_⟩), rfl,
      Function.update_self 1 _ σ.send, hq, hcalls, hnone⟩
    rw [h.turn.id 0 (by decide)]
    rfl
  refine ⟨k', hturn, hmail, hpmap, ?_⟩
  obtain ⟨σ, hrun, rfl, hp, hq, hcalls, hnone⟩ := htried
  refine ⟨_, hrun.step (.tried hturn.executes hp), rfl, (Function.update_self 1 _ σ.send).trans ?_, hq, hcalls, hnone⟩
  rw [IpcState.ret, heax]
  rfl

/-- The first environment gets the CPU back and returns from `ipc_recv` with what it reads. -/
theorem DemoTurn.ipcReturn (h : DemoTurn d₀ d₁ .runnable .running 1 k) (hmail : DemoMail m.val k)
    (hat : DemoAt P k (.checked m 0#32) (.called false) [m.val]) (hsafe : ∀ k a, Safe k a → P k a) {w₁ w₂ : Word}
    (h₁ : loadEnvField demoBoot k.pmap d₀ 0 ENV_IPC_FROM (nextEnvId 0#32 1) = some w₁)
    (h₂ : loadEnvField demoBoot k.pmap d₀ 0 ENV_IPC_VALUE m.val = some w₂) :
    ∃ σ, IpcRun demoSystem 0 P σ ∧ σ.calls = Function.update (fun _ => []) (nextEnvId 0#32 1) [m.val] ∧
      σ.received = [(w₁, w₂)] := by
  obtain ⟨k', hyield, hturn, hmail', hpmap, hcr3⟩ := h.yieldCall_step hmail (P := P)
    (hsafe _ _ (safe_callAction (by decide) (by decide) (by decide) (by decide) (by decide)))
  have hyielded : DemoAt P k' (.yielded m 0#32) (.called false) [m.val] := by
    obtain ⟨σ, hrun, rfl, hp, hq, hcalls, hnone⟩ := hat
    exact ⟨_, hrun.step (.yield hyield h.curenv_self hp ⟨rfl, rfl, rfl⟩), rfl, Function.update_self 1 _ σ.send, hq,
      hcalls, hnone⟩
  have hready : DemoAt P k' (.yielded m 0#32) (.loadFrom false) [m.val] := by
    obtain ⟨σ, hrun, rfl, hp, hq, hcalls, hnone⟩ := hyielded
    refine ⟨_, hrun.step (.called hturn.executes hq), rfl, hp, ?_, hcalls, hnone⟩
    show afterRecv false (σ.ret 0) = _
    rw [IpcState.ret, hmail'.eax]
    rfl
  have hfrom : DemoAt P k' (.yielded m 0#32) (.loadValue w₁) [m.val] := by
    obtain ⟨σ, hrun, rfl, hp, hq, hcalls, hnone⟩ := hready
    refine ⟨_, hrun.step (.loadFrom hturn.executes hq ?_), rfl, hp, rfl, hcalls, hnone⟩
    rw [hcr3, hpmap, hmail'.sender]
    exact h₁
  obtain ⟨σ, hrun, rfl, -, hq, hcalls, hnone⟩ := hfrom
  refine ⟨_, hrun.step (.loadValue hturn.executes hq ?_), hcalls, congrArg (· ++ [(w₁, w₂)]) hnone⟩
  rw [hcr3, hpmap, hmail'.value]
  exact h₂

/-- In `demoSystem` the first environment calls `ipc_recv` without a page, the second one `ipc_send`, and the first
one returns. -/
theorem DemoRunning.ipcRun (h : DemoRunning R D l d₀ d₁ k₀ k₁) (hsafe : ∀ k a, Safe k a → P k a)
    (htry : ∀ k, DemoWaits R D l d₀ d₁ k₁.pmap k → sysIpcTrySend k 1 (nextEnvId 0#32 0) m.val (pageArg m.pg) m.perm
      = .ok (0, deliver { k with pmap := s' } 1 0 m.val perm))
    (hP : ∀ k, DemoWaits R D l d₀ d₁ k₁.pmap k → P k (callAction 0 (sendCall (nextEnvId 0#32 0) m))) {w₁ w₂ : Word}
    (h₁ : loadEnvField demoBoot s' d₀ 0 ENV_IPC_FROM (nextEnvId 0#32 1) = some w₁)
    (h₂ : loadEnvField demoBoot s' d₀ 0 ENV_IPC_VALUE m.val = some w₂) :
    ∃ σ, IpcRun demoSystem 0 P σ ∧ σ.calls = Function.update (fun _ => []) (nextEnvId 0#32 1) [m.val] ∧
      σ.received = [(w₁, w₂)] := by
  obtain ⟨k₂, hwaits, hcalled⟩ := h.ipcRecv hsafe
  obtain ⟨k₃, hturn, hmail, rfl, hsent⟩ := hwaits.ipcSend hcalled htry (hP k₂ hwaits)
  exact hturn.ipcReturn hmail hsent hsafe h₁ h₂

theorem DemoRunning.envsShown (h : DemoRunning R D l d₀ d₁ k₀ k₁) : EnvsShown demoBoot k₁.pmap := by
  have hreach : Reach demoSystem Safe k₁ := .boot h.booted.init h.first
  obtain ⟨R, -, hshown⟩ := hreach.envsShown
  exact hshown

namespace DemoWaits

theorem receiver (h : DemoWaits R D l d₀ d₁ s k) : envid2env k 1 (nextEnvId 0#32 0) false = some 0 := by
  have hid := h.turn.id 0 (by decide)
  have hindexed : Indexed 0 (k.envs 0) := fun _ => hid ▸ indexed_nextEnvId 0#32 (by decide)
  rw [← hid]
  exact hindexed.envid2env (h.turn.live nofun nofun (by decide)).2 1

/-- A message without a page. -/
theorem trySend_noPage (h : DemoWaits R D l d₀ d₁ s k) (val perm : Word) :
    sysIpcTrySend k 1 (nextEnvId 0#32 0) val (pageArg 0#32) perm
      = .ok (0, deliver { k with pmap := s } 1 0 val 0#32) := by
  obtain rfl := h.pmap
  exact sysIpcTrySend_noPage h.receiver h.recving (by decide)

theorem safe_noPage (h : DemoWaits R D l d₀ d₁ s k) (val perm : Word) :
    Safe k (callAction 0 (sendCall (nextEnvId 0#32 0) ⟨val, 0#32, perm⟩)) := by
  have hpage : ∀ {cur e sd dd}, ¬ SendPageArgs k cur e (nextEnvId 0#32 0) (pageArg 0#32) perm sd dd :=
    fun ha => absurd ha.src_lt (by decide)
  refine fun _ cur _ => ⟨⟨⟨nofun, fun _ e sd dd ha => absurd ha hpage⟩, nofun, fun _ e sd dd ha => absurd ha hpage⟩,
    nofun, nofun, ?_⟩
  rintro - e - - - ⟨c, hc, hcur⟩
  rw [h.turn.curenv c, if_neg hc] at hcur
  cases hcur

/-- A message with the stack page of the second environment. -/
theorem trySend_stack (h : DemoWaits R D l d₀ d₁ s k) (hdirs : d₀ ∈ D ∧ d₁ ∈ D) {q : Nat}
    (hq : pteOf s d₁ (PGNUM STACKVA) = mkPte q (PTE_U ||| PTE_W)) (val : Word) :
    sysIpcTrySend k 1 (nextEnvId 0#32 0) val (pageArg STACKVA) (PTE_P ||| PTE_U)
      = .ok (0, deliver { k with pmap := s.insertMapped d₀ (ppn (pteOf s d₁ (PGNUM STACKVA))) UTOP (PTE_P ||| PTE_U) }
        1 0 val (PTE_P ||| PTE_U)) := by
  obtain rfl := h.pmap
  have ha : SendPageArgs k 1 0 (nextEnvId 0#32 0) STACKVA (PTE_P ||| PTE_U) d₁ d₀ := by
    refine ⟨h.receiver, h.recving, by decide, by decide, by decide, h.turn.pgdir₁, h.turn.pgdir₀, ?_,
      fun hc => absurd (by decide) hc⟩
    rw [hq]
    exact present_mkPte q _
  rw [show pageArg STACKVA = STACKVA by decide, h.inv.sysIpcTrySend_page val hdirs.2 ha, h.addr,
    h.inv.pmap.pageInsert_UTOP hdirs.1]
  rfl

end DemoWaits

/-- The second environment sends 7 to the first one, which returns it. -/
theorem ipcRun_delivered_demoSystem : ∃ σ, IpcRun demoSystem 0 Safe σ ∧
    σ.received = [(nextEnvId 0#32 1, 7#32)] ∧ Delivered 0 σ := by
  obtain ⟨s₀, D, l, d₀, d₁, k₀, k₁, h⟩ := demoSystem_runs
  have hload : ∀ {off : Nat}, off < ENV_SIZE → ∀ w, loadEnvField demoBoot k₁.pmap d₀ 0 off w = some w :=
    fun hoff => h.inv.pmap.loadEnvField_eq h.envsShown h.booted.dirs.1 (by decide) hoff
  obtain ⟨σ, hrun, -, hreceived⟩ := h.ipcRun (m := ⟨7#32, 0#32, 0#32⟩) (fun _ _ hs => hs)
    (fun k hk => hk.trySend_noPage _ _) (fun k hk => hk.safe_noPage _ _) (hload (by decide) _) (hload (by decide) _)
  exact ⟨σ, hrun, hreceived, ipcRun_delivered hrun⟩

/-- A value that was not sent. -/
theorem not_delivered {id val w₁ w₂ : Word} (hcalls : σ.calls = Function.update (fun _ => []) id [val])
    (hreceived : σ.received = [(w₁, w₂)]) (hne : w₂ ≠ val) : ¬ Delivered r σ := by
  intro hd
  have horder := hd.order w₁
  rw [hreceived, hcalls, Mailbox.of_self, Function.update_apply] at horder
  split at horder
  · exact hne (List.cons_prefix_cons.mp horder).1
  · exact nomatch List.prefix_nil.mp horder

/-- The first environment asks for no page, and the second one sends its stack page and a number that is not at the
offset of `env_ipc_value` in that page. The page comes to lie over `envs`, and `ipc_recv` returns what is in it. -/
theorem ipcRun_misdelivers : ∃ σ, ∃ val w₁ w₂ : Word, IpcRun demoSystem 0 (fun _ _ => True) σ ∧
    σ.calls = Function.update (fun _ => []) (nextEnvId 0#32 1) [val] ∧ σ.received = [(w₁, w₂)] ∧ w₂ ≠ val ∧
      ¬ Delivered 0 σ := by
  obtain ⟨s₀, D, l, d₀, d₁, k₀, k₁, h⟩ := demoSystem_runs
  obtain ⟨q, hq⟩ : ∃ q, pteOf k₁.pmap d₁ (PGNUM STACKVA) = mkPte q (PTE_U ||| PTE_W) := by
    obtain ⟨q, hq⟩ := h.booted.stack₁
    refine ⟨q, ?_⟩
    rw [h.pmap, hq (PGNUM STACKVA) (by decide), if_pos (by rfl)]
  have hpage : Managed k₁.pmap.npages (notFree s₀) (ppn (pteOf k₁.pmap d₁ (PGNUM STACKVA))) := by
    refine h.inv.pmap.page_managed h.booted.dirs.2 (by decide) ?_
    rw [hq]
    exact present_mkPte q _
  have hload : ∀ {off : Nat}, off < ENV_SIZE → ∀ w, _ := fun {off} hoff w =>
    h.inv.pmap.loadEnvField_insertMapped_UTOP h.booted.dirs.1 h.envsShown hpage (e := 0) (by decide) hoff
      (by unfold ENV_SIZE at hoff; unfold PGSIZE; omega) w
  obtain ⟨w, hw⟩ : ∃ w, ∀ val, loadEnvField demoBoot (k₁.pmap.insertMapped d₀
      (ppn (pteOf k₁.pmap d₁ (PGNUM STACKVA))) UTOP (PTE_P ||| PTE_U)) d₀ 0 ENV_IPC_VALUE val = some w :=
    ⟨_, hload (by decide)⟩
  have hne : w ≠ w + 1#32 := fun hc => absurd (left_eq_add.mp hc) (by decide)
  obtain ⟨σ, hrun, hcalls, hreceived⟩ := h.ipcRun (m := ⟨w + 1#32, STACKVA, PTE_P ||| PTE_U⟩) (fun _ _ _ => trivial)
    (fun k hk => hk.trySend_stack h.booted.dirs hq _) (fun _ _ => trivial) (hload (by decide) _) (hw _)
  exact ⟨σ, _, _, _, hrun, hcalls, hreceived, hne, not_delivered hcalls hreceived hne⟩

end Demo

end Jos
