import Jos.EnvsWindow
import Jos.Mail

/-!
# Messages between environments (`lib/ipc.c`)

`ipc_send` calls `sys_ipc_try_send` until it succeeds, with a `sys_yield` after each try, and `ipc_recv` waits in
`sys_ipc_recv` and then reads `thisenv`, which the kernel has written to, through the window at `UENVS`.

The system here is the machine with one receiver `r` that executes `ipc_recv` again and again; every other
environment may send to it with `ipc_send`. The points of the two functions at which other environments can come in
between are explicit. Whatever else the environments do, and interrupts at any point, are steps of the machine
(`IpcStep.other`).
-/

namespace Jos

open Pmap Kernel

/-! ## The functions -/

/-- The arguments of `ipc_send` other than the receiver. -/
structure Msg where
  val : Word
  pg : Word
  perm : Word
deriving DecidableEq

/-- `if (pg == NULL) pg = (void *)UTOP`. -/
def pageArg (pg : Word) : Word := if pg = 0#32 then UTOP else pg

/-- Where an environment is in `ipc_send`. -/
inductive SendPoint
  /-- Not in `ipc_send`. -/
  | out
  /-- At the top of the loop. -/
  | retry (m : Msg)
  /-- `sys_ipc_try_send` has been called, and the result will be in `eax`. -/
  | tried (m : Msg)
  /-- Before `sys_yield`. -/
  | checked (m : Msg) (ret : Word)
  /-- At the end of the loop. -/
  | yielded (m : Msg) (ret : Word)
  /-- In `panic`. -/
  | panicked (m : Msg)

/-- Where the receiver is in `ipc_recv`; `perm` tells whether `perm_store` is given. -/
inductive RecvPoint
  /-- Not in `ipc_recv`. -/
  | out
  /-- Before `sys_ipc_recv`. -/
  | call (pg : Word) (perm : Bool)
  /-- `sys_ipc_recv` has been called, and the result will be in `eax`. -/
  | called (perm : Bool)
  | loadFrom (perm : Bool)
  | loadPerm (sender : Word)
  | loadValue (sender : Word)
  /-- In the `panic` of the system call stub. -/
  | panicked

/-- `sys_ipc_try_send(to_env, val, pg, perm)`. -/
def sendCall (toEnv : Word) (m : Msg) : Call :=
  ⟨SYS_ipc_try_send, toEnv, m.val, pageArg m.pg, m.perm, 0#32⟩

/-- `sys_yield()`. -/
def yieldCall : Call := ⟨SYS_yield, 0#32, 0#32, 0#32, 0#32, 0#32⟩

/-- `sys_ipc_recv(pg)`. -/
def recvCall (pg : Word) : Call := ⟨SYS_ipc_recv, pageArg pg, 0#32, 0#32, 0#32, 0#32⟩

/-- `ipc_send` when `sys_ipc_try_send` has returned `ret`. -/
def afterTry (m : Msg) (ret : Word) : SendPoint :=
  if ret.toInt < 0 ∧ ret.toInt ≠ -E_IPC_NOT_RECV then .panicked m else .checked m ret

/-- `ipc_recv` when `sys_ipc_recv` has returned `ret`; the stub panics if this is positive. -/
def afterRecv (perm : Bool) (ret : Word) : RecvPoint :=
  if 0 < ret.toInt then .panicked else if ret.toInt < 0 then .out else .loadFrom perm

/-! ## `thisenv` -/

/-- `sizeof(struct Env)`. -/
def ENV_SIZE : Nat := 124

/-- The offsets of `env_ipc_value`, `env_ipc_from` and `env_ipc_perm` in `struct Env`. -/
def ENV_IPC_VALUE : Nat := 112
def ENV_IPC_FROM : Nat := 116
def ENV_IPC_PERM : Nat := 120

/-- The address of a field of `envs[e]` for user code. -/
def uenvAddr (e off : Nat) : Word := UENVS + BitVec.ofNat 32 (e * ENV_SIZE + off)

/-- What user code with directory `d` reads from the field of `envs[e]` at offset `off`, if the field is `w`. The
frames of the array show the array, and other frames what they hold; `none` is a page fault. -/
def loadEnvField (b : BootInfo) (s : Pmap) (d e off : Nat) (w : Word) : Option Word :=
  (translate s d (uenvAddr e off) USER_R).map fun p =>
    if p = PGNUM (envsPaddr b) + (e * ENV_SIZE + off) / PGSIZE then w else s.mem p (wordOf (uenvAddr e off))

/-! ## The system -/

/-- The machine with the points of `ipc_send` and `ipc_recv`, and the history: the values that `ipc_send` was called
with and those with which it has returned, by the sender's `env_id`, the messages that the kernel has accepted for
the receiver, and the pairs that `ipc_recv` has returned. -/
structure IpcState where
  kernel : Kernel
  send : Nat → SendPoint
  recv : RecvPoint
  calls : Word → List Word
  returned : Word → List Word
  accepted : List (Word × Word)
  received : List (Word × Word)

/-- Nobody has called `ipc_send` or `ipc_recv` yet. -/
def IpcState.start (k : Kernel) : IpcState where
  kernel := k
  send _ := .out
  recv := .out
  calls _ := []
  returned _ := []
  accepted := []
  received := []

/-- The message that the kernel accepts for `r` between `k` and `k'`: it ends the wait. -/
def acceptedBy (r : Nat) (k k' : Kernel) : List (Word × Word) :=
  if (k.envs r).envIpcRecving = true ∧ (k'.envs r).envIpcRecving = false then
    [((k'.envs r).envIpcFrom, (k'.envs r).envIpcValue)]
  else []

/-- The machine has gone to `k'`. -/
def IpcState.enter (σ : IpcState) (r : Nat) (k' : Kernel) : IpcState :=
  { σ with kernel := k', accepted := σ.accepted ++ acceptedBy r σ.kernel k' }

/-- Environment `e` executes user code on CPU `c`. -/
def Executes (k : Kernel) (c e : Nat) : Prop := k.curenv c = some e ∧ (k.cpus c).mode = .user

/-- The machine goes from `k` to `k'` with action `a`, and no environment is destroyed. -/
structure KernelStep (sys : System) (P : Kernel → Action → Prop) (k : Kernel) (a : Action) (k' : Kernel) : Prop where
  enabled : Enabled sys k a
  cond : P k a
  exec : exec k a = .ok (.left k')
  undestroyed : ∀ e, (k'.envs e).envStatus ≠ .dying
  kept : ∀ e, Live k e → (k'.envs e).envStatus ≠ .free

/-- User code on CPU `c` makes a system call. -/
def IsCall (c : Nat) (call : Call) : Action → Prop
  | .trap c' _ _ _ tf => c' = c ∧ tf.trapno = T_SYSCALL ∧ callOf tf.regs = call
  | _ => False

/-- Environment `e` has made the system call of its function and not looked at the result. -/
def Awaits (r : Nat) (σ : IpcState) (e : Nat) : Prop :=
  (e = r ∧ ∃ perm, σ.recv = .called perm) ∨ ∃ m, σ.send e = .tried m

/-- A trap that is no step of `ipc_send` or `ipc_recv`: it sends nothing to the receiver, is not a wait of the
receiver, and does not set the status of an environment that waits for a message. Until the result of a system
call has been looked at, there are only interrupts, and they save the registers as they are. -/
structure OtherTrap (r : Nat) (σ : IpcState) (e : Nat) (tf : Trapframe) : Prop where
  awaits : Awaits r σ e → tf.trapno ≠ T_SYSCALL ∧ tf.trapno ≠ T_PGFLT ∧
    tf.regs.eax = (σ.kernel.envs e).envTf.regs.eax
  send : tf.trapno = T_SYSCALL → (callOf tf.regs).syscallno = SYS_ipc_try_send →
    envid2env σ.kernel e (callOf tf.regs).a1 false ≠ some r
  recv : tf.trapno = T_SYSCALL → (callOf tf.regs).syscallno = SYS_ipc_recv → e ≠ r
  status : tf.trapno = T_SYSCALL → (callOf tf.regs).syscallno = SYS_env_set_status →
    ∀ i, envid2env σ.kernel e (callOf tf.regs).a1 true = some i → (σ.kernel.envs i).envIpcRecving = false

/-- An action of the machine that is no step of `ipc_send` or `ipc_recv`. -/
def Other (r : Nat) (σ : IpcState) : Action → Prop
  | .trap c _ _ _ tf => ∀ e, σ.kernel.curenv c = some e → OtherTrap r σ e tf
  | _ => True

/-- The result of the system call that environment `e` has made. -/
def IpcState.ret (σ : IpcState) (e : Nat) : Word := (σ.kernel.envs e).envTf.regs.eax

/-- The steps of the system with receiver `r`, for actions of the machine that satisfy `P`. -/
inductive IpcStep (sys : System) (r : Nat) (P : Kernel → Action → Prop) : IpcState → IpcState → Prop
  /-- `ipc_send` is called. -/
  | send {σ : IpcState} {c e : Nat} (m : Msg) : Executes σ.kernel c e → e ≠ r → σ.send e = .out →
      IpcStep sys r P σ { σ with
        send := Function.update σ.send e (.retry m)
        calls := Function.update σ.calls (σ.kernel.envs e).envId (σ.calls (σ.kernel.envs e).envId ++ [m.val]) }
  | trySend {σ : IpcState} {a : Action} {k' : Kernel} {c e : Nat} {m : Msg} : KernelStep sys P σ.kernel a k' →
      σ.kernel.curenv c = some e → σ.send e = .retry m → IsCall c (sendCall (σ.kernel.envs r).envId m) a →
      IpcStep sys r P σ { σ.enter r k' with send := Function.update σ.send e (.tried m) }
  | tried {σ : IpcState} {c e : Nat} {m : Msg} : Executes σ.kernel c e → σ.send e = .tried m →
      IpcStep sys r P σ { σ with send := Function.update σ.send e (afterTry m (σ.ret e)) }
  | yield {σ : IpcState} {a : Action} {k' : Kernel} {c e : Nat} {m : Msg} {ret : Word} :
      KernelStep sys P σ.kernel a k' → σ.kernel.curenv c = some e → σ.send e = .checked m ret →
      IsCall c yieldCall a →
      IpcStep sys r P σ { σ.enter r k' with send := Function.update σ.send e (.yielded m ret) }
  | again {σ : IpcState} {c e : Nat} {m : Msg} {ret : Word} : Executes σ.kernel c e →
      σ.send e = .yielded m ret → ret ≠ 0#32 →
      IpcStep sys r P σ { σ with send := Function.update σ.send e (.retry m) }
  /-- `ipc_send` returns. -/
  | sent {σ : IpcState} {c e : Nat} {m : Msg} {ret : Word} : Executes σ.kernel c e →
      σ.send e = .yielded m ret → ret = 0#32 →
      IpcStep sys r P σ { σ with
        send := Function.update σ.send e .out
        returned := Function.update σ.returned (σ.kernel.envs e).envId
          (σ.returned (σ.kernel.envs e).envId ++ [m.val]) }
  /-- `ipc_recv` is called. -/
  | recv {σ : IpcState} {c : Nat} (pg : Word) (perm : Bool) : Executes σ.kernel c r → σ.recv = .out →
      IpcStep sys r P σ { σ with recv := .call pg perm }
  | ipcRecv {σ : IpcState} {a : Action} {k' : Kernel} {c : Nat} {pg : Word} {perm : Bool} :
      KernelStep sys P σ.kernel a k' → σ.kernel.curenv c = some r → σ.recv = .call pg perm →
      IsCall c (recvCall pg) a → IpcStep sys r P σ { σ.enter r k' with recv := .called perm }
  | called {σ : IpcState} {c : Nat} {perm : Bool} : Executes σ.kernel c r → σ.recv = .called perm →
      IpcStep sys r P σ { σ with recv := afterRecv perm (σ.ret r) }
  | loadFrom {σ : IpcState} {c : Nat} {perm : Bool} {w : Word} : Executes σ.kernel c r → σ.recv = .loadFrom perm →
      loadEnvField sys.boot σ.kernel.pmap (σ.kernel.cpus c).cr3 r ENV_IPC_FROM (σ.kernel.envs r).envIpcFrom = some w →
      IpcStep sys r P σ { σ with recv := if perm then .loadPerm w else .loadValue w }
  | loadPerm {σ : IpcState} {c : Nat} {sender w : Word} : Executes σ.kernel c r → σ.recv = .loadPerm sender →
      loadEnvField sys.boot σ.kernel.pmap (σ.kernel.cpus c).cr3 r ENV_IPC_PERM (σ.kernel.envs r).envIpcPerm = some w →
      IpcStep sys r P σ { σ with recv := .loadValue sender }
  /-- `ipc_recv` returns. -/
  | loadValue {σ : IpcState} {c : Nat} {sender w : Word} : Executes σ.kernel c r → σ.recv = .loadValue sender →
      loadEnvField sys.boot σ.kernel.pmap (σ.kernel.cpus c).cr3 r ENV_IPC_VALUE (σ.kernel.envs r).envIpcValue
        = some w →
      IpcStep sys r P σ { σ with recv := .out, received := σ.received ++ [(sender, w)] }
  | other {σ : IpcState} {a : Action} {k' : Kernel} : KernelStep sys P σ.kernel a k' → Other r σ a →
      IpcStep sys r P σ (σ.enter r k')

/-- A state of the machine from which messages to `r` can be followed: `r` does not wait for one, and whoever does
is `ENV_NOT_RUNNABLE`. -/
structure IpcStart (r : Nat) (k : Kernel) : Prop where
  live : Live k r
  idle : (k.envs r).envIpcRecving = false
  blocked : ∀ e, WaitsBlocked (k.envs e)
  undestroyed : ∀ e, (k.envs e).envStatus ≠ .dying

/-- The states of the system in runs of actions that satisfy `P`. -/
inductive IpcRun (sys : System) (r : Nat) (P : Kernel → Action → Prop) : IpcState → Prop
  | start {k : Kernel} : Reach sys P k → IpcStart r k → IpcRun sys r P (.start k)
  | step {σ σ' : IpcState} : IpcRun sys r P σ → IpcStep sys r P σ σ' → IpcRun sys r P σ'

/-! ## Steps of the machine -/

variable {sys : System} {P : Kernel → Action → Prop} {k k' : Kernel} {a : Action} {c e : Nat}

/-- An interrupt gate is what the handler was entered through, or there was a panic. -/
theorem trap_interruptGate {gate : Gate} {faultVa input : Word} {tf : Trapframe} {f : Flow} (htf : UserFrame tf)
    (hx : trap k c gate faultVa input tf = .ok f) : gate.istrap = false := by
  by_contra hg
  have heflags : gate.eflags tf = tf.eflags := if_pos (Bool.eq_true_of_not_eq_false hg)
  unfold trap at hx
  rw [heflags, if_pos htf.eflags] at hx
  cases hx

namespace KernelStep

theorem live (hk : KernelStep sys P k a k') (hl : Live k e) : Live k' e := ⟨hl.1, hk.kept e hl⟩

/-- A step that is one system call. -/
theorem isCall {call : Call} (hk : KernelStep sys P k a k') (hcall : IsCall c call a) :
    ∃ gate faultVa input tf, a = .trap c gate faultVa input tf ∧ gate.istrap = false ∧ UserFrame tf ∧
      tf.trapno = T_SYSCALL ∧ callOf tf.regs = call ∧ trap k c gate faultVa input tf = .ok (.left k') := by
  cases a with
  | trap c' gate faultVa input tf =>
    obtain ⟨rfl, hno, rfl⟩ := hcall
    have hx : trap k c' gate faultVa input tf = .ok (.left k') := hk.exec
    have htf := hk.enabled.2.2.2
    exact ⟨gate, faultVa, input, tf, rfl, trap_interruptGate htf hx, htf, hno, rfl, hx⟩
  | store c va b => exact hcall.elim
  | irq c gate trapno => exact hcall.elim
  | start c => exact hcall.elim

end KernelStep

end Jos
