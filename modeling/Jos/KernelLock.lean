import Jos.Lib.Mutex
import Jos.CallFrame

/-!
# The big kernel lock (`kern/spinlock.c`, `kern/init.c`, `kern/trap.c`, `kern/sched.c`)

`Machine` takes a kernel entry to be one step. Here the CPUs run in small steps, between which any other CPU may
run: each read and each write of `kernel_lock`, of `cpu_status` and of `panicstr` is a step of its own. What the
kernel does while it holds the lock is still the one step `exec`; that no other CPU is in the kernel meanwhile
is what is proved (`smpReach_lockOk`).

Interrupts arrive in user mode and in the `hlt` of `sched_halt`, and the kernel may panic anywhere on its way
up. `held` is a history variable: the CPUs that have taken the lock and have not released it. Nothing reads it.
-/

namespace Jos

open Kernel Except

/-! ## States -/

/-- `cpu_status`. -/
inductive CpuStatus
  | unused
  | started
  | halted
deriving DecidableEq, Repr

/-- `struct spinlock`. -/
structure Spinlock where
  locked : Bool := false
  /-- The CPU holding the lock; `none` is the null pointer. -/
  cpu : Option Nat := none

/-- Why a CPU has called `panic`. -/
inductive Cause
  /-- `spin_lock`: already holding. -/
  | alreadyHolding
  /-- `spin_unlock`: cannot release. -/
  | cannotRelease
  /-- Everything else. -/
  | other
deriving DecidableEq, Repr

/-- Where `spin_lock` is; `holding` reads `locked` and then `cpu`. -/
inductive LockPoint
  | holdingLocked
  | holdingCpu
  | xchg
  | setCpu

/-- Where `spin_unlock` is. -/
inductive UnlockPoint
  | holdingLocked
  | holdingCpu
  | clearCpu
  | xchg

/-- What comes after `lock_kernel`. -/
inductive Resume
  /-- `boot_aps`, in `i386_init`. -/
  | bootAps
  /-- The rest of `trap`, on a CPU that was halted. -/
  | check (a : Action)
  /-- What the kernel does under the lock. -/
  | kernel (a : Action)

/-- Where a CPU is. -/
inductive Point
  /-- Not started. -/
  | off
  /-- `i386_init` before `lock_kernel`. -/
  | i386Init
  /-- The loop of `boot_aps`, at CPU `i`. -/
  | bootAps (i : Nat)
  /-- `boot_aps` waits for CPU `i`. -/
  | bootWait (i : Nat)
  /-- `mp_main` before the `xchg`. -/
  | mpMain
  | user
  /-- `hlt` in `sched_halt`. -/
  | idle
  /-- `trap` before it looks at `panicstr`. -/
  | trap (a : Action)
  /-- `hlt` in `trap`. -/
  | hlt (a : Action)
  /-- `trap` before the `xchg`. -/
  | swap (a : Action)
  /-- `trap` before the assertions. -/
  | check (a : Action)
  /-- The kernel under the lock. -/
  | kernel (a : Action)
  /-- `sched_halt` before the `xchg`. -/
  | halt
  | spinLock (at_ : LockPoint) (resume : Resume)
  | spinUnlock (at_ : UnlockPoint) (idle : Bool)
  /-- `sched_halt` stays in the monitor. -/
  | monitor
  | panicked (why : Cause)

def Resume.point : Resume → Point
  | .bootAps => .bootAps 0
  | .check a => .check a
  | .kernel a => .kernel a

/-- The state of the machine. -/
structure Smp where
  kernel : Kernel
  kernelLock : Spinlock
  cpuStatus : Nat → CpuStatus
  panicstr : Bool
  point : Nat → Point
  held : Nat → Bool

namespace Smp

def goto (s : Smp) (c : Nat) (p : Point) : Smp := { s with point := Function.update s.point c p }

/-- `xchg(&cpus[c].cpu_status, st)`. -/
def setStatus (s : Smp) (c : Nat) (st : CpuStatus) : Smp :=
  { s with cpuStatus := Function.update s.cpuStatus c st }

/-- `lock_kernel` on CPU `c`. -/
def lockKernel (s : Smp) (c : Nat) (resume : Resume) : Smp :=
  s.goto c (.spinLock .holdingLocked resume)

/-- `unlock_kernel` on CPU `c`, in `sched_halt` or else in `env_run`. -/
def unlockKernel (s : Smp) (c : Nat) (idle : Bool) : Smp :=
  s.goto c (.spinUnlock .holdingLocked idle)

def panic (s : Smp) (c : Nat) (why : Cause) : Smp :=
  { s with panicstr := true }.goto c (.panicked why)

end Smp

/-! ## Steps -/

/-- The frame that the processor pushes. -/
def frameOf : Action → Trapframe
  | .trap _ _ _ _ tf => tf
  | .irq _ _ trapno => idleFrame trapno
  | .store .. | .start _ => {}

/-- `read_eflags() & FL_IF` in the handler. -/
def interruptible : Action → Bool
  | .trap _ gate _ _ tf => gate.eflags tf &&& FL_IF ≠ 0#32
  | .irq _ gate trapno => gate.eflags (idleFrame trapno) &&& FL_IF ≠ 0#32
  | .store .. | .start _ => false

/-- `(tf->tf_cs & 3) == 3`. -/
def fromUser (a : Action) : Bool := (frameOf a).cs &&& 3#32 = 3#32

namespace Smp

/-- `spin_lock(&kernel_lock)` on CPU `c`. -/
def spinLock (s : Smp) (c : Nat) (resume : Resume) : LockPoint → Smp
  | .holdingLocked =>
    if s.kernelLock.locked then s.goto c (.spinLock .holdingCpu resume)
    else s.goto c (.spinLock .xchg resume)
  | .holdingCpu =>
    if s.kernelLock.cpu = some c then s.panic c .alreadyHolding
    else s.goto c (.spinLock .xchg resume)
  | .xchg =>
    if s.kernelLock.locked then s
    else
      { s with
        kernelLock := { s.kernelLock with locked := true }
        held := Function.update s.held c true }.goto c (.spinLock .setCpu resume)
  | .setCpu => { s with kernelLock := { s.kernelLock with cpu := some c } }.goto c resume.point

/-- `spin_unlock(&kernel_lock)` on CPU `c`. -/
def spinUnlock (s : Smp) (c : Nat) (idle : Bool) : UnlockPoint → Smp
  | .holdingLocked =>
    if s.kernelLock.locked then s.goto c (.spinUnlock .holdingCpu idle)
    else s.panic c .cannotRelease
  | .holdingCpu =>
    if s.kernelLock.cpu = some c then s.goto c (.spinUnlock .clearCpu idle)
    else s.panic c .cannotRelease
  | .clearCpu =>
    { s with kernelLock := { s.kernelLock with cpu := none } }.goto c (.spinUnlock .xchg idle)
  | .xchg =>
    { s with
      kernelLock := { s.kernelLock with locked := false }
      held := Function.update s.held c false }.goto c (if idle then .idle else .user)

/-- What the kernel does under the lock, up to `unlock_kernel` in `env_run` or to the `xchg` in `sched_halt`. -/
def runKernel (s : Smp) (c : Nat) (a : Action) : Smp :=
  match exec s.kernel a with
  | .ok (.left k) =>
    let s := { s with kernel := k }
    if (k.cpus c).mode = .user then s.unlockKernel c false else s.goto c .halt
  | .ok (.monitor k) | .ok (.ret _ k) => { s with kernel := k }.goto c .monitor
  | .error _ => s.panic c .other

/-- The next instruction of CPU `c`, if it is in the kernel and has one. -/
def advance (sys : System) (s : Smp) (c : Nat) : Option Smp :=
  match s.point c with
  | .i386Init => some (s.lockKernel c .bootAps)
  | .bootAps i =>
    if i < sys.ncpu then
      if i = c then some (s.goto c (.bootAps (i + 1)))
      -- lapic_startap
      else some ((s.goto c (.bootWait i)).goto i .mpMain)
    else
      some (s.goto c (.kernel (.start c)))
  | .bootWait i => if s.cpuStatus i = .started then some (s.goto c (.bootAps (i + 1))) else some s
  | .mpMain => some ((s.setStatus c .started).lockKernel c (.kernel (.start c)))
  | .trap a => some (if s.panicstr then s.goto c (.hlt a) else s.goto c (.swap a))
  | .swap a =>
    let status := s.cpuStatus c
    let s := s.setStatus c .started
    some (if status = .halted then s.lockKernel c (.check a) else s.goto c (.check a))
  | .check a =>
    if interruptible a then some (s.panic c .other)
    else if fromUser a then
      if s.kernel.curenv c = none then some (s.panic c .other)
      else some (s.lockKernel c (.kernel a))
    else some (s.goto c (.kernel a))
  | .kernel a => some (s.runKernel c a)
  | .halt => some ((s.setStatus c .halted).unlockKernel c true)
  | .spinLock at_ resume => some (s.spinLock c resume at_)
  | .spinUnlock at_ idle => some (s.spinUnlock c idle at_)
  | .off | .user | .idle | .hlt _ | .monitor | .panicked _ => none

end Smp

/-- On its way up, the kernel may panic. -/
def Point.booting : Point → Bool
  | .i386Init | .bootAps _ | .bootWait _ | .mpMain => true
  | _ => false

/-- What can happen next. -/
inductive SmpStep (sys : System) (s : Smp) : Smp → Prop
  | advance {s' : Smp} (c : Nat) : s.advance sys c = some s' → SmpStep sys s s'
  | store (c : Nat) (va : Word) (b : BitVec 8) (pmap : Pmap) : s.point c = .user →
      storeByte s.kernel.pmap (s.kernel.cpus c).cr3 va USER_W b = some pmap →
      SmpStep sys s { s with kernel := { s.kernel with pmap } }
  | trap (c : Nat) (gate : Gate) (faultVa input : Word) (tf : Trapframe) : s.point c = .user →
      idt tf.trapno = some gate → UserFrame tf →
      SmpStep sys s (s.goto c (.trap (.trap c gate faultVa input tf)))
  | irq (c : Nat) (gate : Gate) (trapno : Nat) : s.point c = .idle → idt trapno = some gate →
      trapno ≠ T_SYSCALL → SmpStep sys s (s.goto c (.trap (.irq c gate trapno)))
  | panic (c : Nat) : (s.point c).booting = true → SmpStep sys s (s.panic c .other)

variable {sys : System} {s s' : Smp} {b c : Nat} {p q : Point}

namespace Point

/-- Whether a CPU that is here holds the lock; a CPU that has panicked may. -/
def holds : Point → Option Bool
  | .bootAps _ | .bootWait _ | .kernel _ | .halt | .monitor | .spinUnlock _ _ | .spinLock .setCpu _ =>
    some true
  | .check a => some (!fromUser a)
  | .panicked _ => none
  | _ => some false

/-- Whether the lock names the CPU. -/
def recorded : Point → Option Bool
  | .spinUnlock .xchg _ => some false
  | .bootAps _ | .bootWait _ | .kernel _ | .halt | .monitor | .spinUnlock _ _ => some true
  | .check a => some (!fromUser a)
  | .panicked _ => none
  | _ => some false

/-- Whether `cpu_status` is `CPU_HALTED`, where that matters. -/
def halted : Point → Option Bool
  | .idle => some true
  | .spinUnlock _ toIdle => some toIdle
  | .trap a | .hlt a | .swap a => some (!fromUser a)
  | .off | .mpMain | .halt | .monitor | .panicked _ => none
  | _ => some false

/-- The number of CPUs that `boot_aps` has started or passed over. -/
def started : Point → Option Nat
  | .i386Init | .spinLock _ .bootAps => some 0
  | .bootAps i => some i
  | .bootWait i => some (i + 1)
  | _ => none

/-- Only an interrupted `hlt` takes the lock in the middle of `trap`, and no panic is that of a lock. -/
def ok : Point → Prop
  | .spinLock _ (.check a) => fromUser a = false
  | .panicked why => why = .other
  | _ => True

/-- A CPU may go from one point to the other without touching the lock and `cpu_status`. -/
structure Leads (q p : Point) : Prop where
  live : q ≠ .off
  holds : p.holds = none ∨ p.holds = q.holds
  recorded : p.recorded = none ∨ p.recorded = q.recorded
  halted : p.halted = none ∨ p.halted = q.halted
  started : ∀ n, p.started = some n → ∃ m, m ≤ n ∧ q.started = some m
  ok : p.ok

theorem Leads.panicked (hq : q ≠ .off) : Leads q (.panicked .other) :=
  ⟨hq, Or.inl rfl, Or.inl rfl, Or.inl rfl, nofun, rfl⟩

end Point

/-- What holds between any two steps; `b` is the CPU that runs `i386_init`. -/
structure LockInv (b : Nat) (s : Smp) : Prop where
  mutex : Mutex.Inv s.kernelLock.locked s.kernelLock.cpu s.held
  holds : ∀ c h, (s.point c).holds = some h → s.held c = h
  recorded : ∀ c r, (s.point c).recorded = some r → (s.kernelLock.cpu = some c ↔ r = true)
  halted : ∀ c h, (s.point c).halted = some h → (s.cpuStatus c = .halted ↔ h = true)
  /-- The CPUs that `boot_aps` has not come to are off. -/
  boot : ∀ c n, (s.point c).started = some n → c = b ∧ ∀ i, n ≤ i → i ≠ c → s.point i = .off
  ok : ∀ c, (s.point c).ok

/-- CPU `c` goes to `p`, and writes at most its own part of the state and the lock. -/
structure Moves (s s' : Smp) (c : Nat) (p : Point) : Prop where
  point : s'.point = Function.update s.point c p
  held : ∀ i, i ≠ c → s'.held i = s.held i
  cpuStatus : ∀ i, i ≠ c → s'.cpuStatus i = s.cpuStatus i

namespace LockInv

/-- The invariant after a CPU has moved: what is left to show is about that CPU. -/
theorem moves (h : LockInv b s) (hm : Moves s s' c p) (hlive : s.point c ≠ .off)
    (hmutex : Mutex.Inv s'.kernelLock.locked s'.kernelLock.cpu s'.held)
    (hcpu : ∀ i, i ≠ c → (s'.kernelLock.cpu = some i ↔ s.kernelLock.cpu = some i))
    (hholds : ∀ x, p.holds = some x → s'.held c = x)
    (hrec : ∀ x, p.recorded = some x → (s'.kernelLock.cpu = some c ↔ x = true))
    (hhalted : ∀ x, p.halted = some x → (s'.cpuStatus c = .halted ↔ x = true))
    (hstarted : ∀ n, p.started = some n → ∃ m, m ≤ n ∧ (s.point c).started = some m)
    (hok : p.ok) : LockInv b s' := by
  have hself : s'.point c = p := by
    rw [hm.point]
    exact Function.update_self ..
  have hother : ∀ i, i ≠ c → s'.point i = s.point i := by
    intro i hi
    rw [hm.point]
    exact Function.update_of_ne hi ..
  refine ⟨hmutex, fun i x hx => ?_, fun i x hx => ?_, fun i x hx => ?_, fun i n hn => ?_, fun i => ?_⟩
  · by_cases hi : i = c
    · subst hi
      rw [hself] at hx
      exact hholds x hx
    · rw [hother i hi] at hx
      rw [hm.held i hi]
      exact h.holds i x hx
  · by_cases hi : i = c
    · subst hi
      rw [hself] at hx
      exact hrec x hx
    · rw [hother i hi] at hx
      exact (hcpu i hi).trans (h.recorded i x hx)
  · by_cases hi : i = c
    · subst hi
      rw [hself] at hx
      exact hhalted x hx
    · rw [hother i hi] at hx
      rw [hm.cpuStatus i hi]
      exact h.halted i x hx
  · by_cases hi : i = c
    · subst hi
      rw [hself] at hn
      obtain ⟨m, hmn, hm'⟩ := hstarted n hn
      obtain ⟨hb, hoff⟩ := h.boot i m hm'
      refine ⟨hb, fun j hj hne => ?_⟩
      rw [hother j hne]
      exact hoff j (hmn.trans hj) hne
    · rw [hother i hi] at hn
      obtain ⟨hb, hoff⟩ := h.boot i n hn
      refine ⟨hb, fun j hj hne => ?_⟩
      -- the CPU that moves is on, so `boot_aps` has passed it
      have hjc : j ≠ c := by
        rintro rfl
        exact hlive (hoff j hj hne)
      rw [hother j hjc]
      exact hoff j hj hne
  · by_cases hi : i = c
    · rw [hi, hself]
      exact hok
    · rw [hother i hi]
      exact h.ok i

/-- A move that touches neither the lock nor `cpu_status`. -/
theorem leads (h : LockInv b s) (hp : s.point c = q) (hl : Point.Leads q p) : LockInv b (s.goto c p) := by
  subst hp
  refine h.moves ⟨rfl, fun _ _ => rfl, fun _ _ => rfl⟩ hl.live h.mutex (fun _ _ => Iff.rfl)
    (fun x hx => ?_) (fun x hx => ?_) (fun x hx => ?_) hl.started hl.ok
  · rcases hl.holds with hnone | heq
    · rw [hnone] at hx
      cases hx
    · exact h.holds c x (heq ▸ hx)
  · rcases hl.recorded with hnone | heq
    · rw [hnone] at hx
      cases hx
    · exact h.recorded c x (heq ▸ hx)
  · rcases hl.halted with hnone | heq
    · rw [hnone] at hx
      cases hx
    · exact h.halted c x (heq ▸ hx)

/-- The invariant says nothing about the rest of the state. -/
theorem rest (h : LockInv b s) (k : Kernel) (msg : Bool) :
    LockInv b { s with kernel := k, panicstr := msg } :=
  ⟨h.mutex, h.holds, h.recorded, h.halted, h.boot, h.ok⟩

theorem panic (h : LockInv b s) (hp : s.point c = q) (hq : q ≠ .off) : LockInv b (s.panic c .other) :=
  (h.rest s.kernel true).leads hp (.panicked hq)

/-- `boot_aps` starts a CPU. -/
theorem startap {i : Nat} (h : LockInv b s) (hoff : s.point i = .off)
    (hpast : ∀ c n, (s.point c).started = some n → i < n) : LockInv b (s.goto i .mpMain) := by
  have hother : ∀ j, j ≠ i → (s.goto i .mpMain).point j = s.point j :=
    fun j hj => Function.update_of_ne hj ..
  have hself : (s.goto i .mpMain).point i = .mpMain := Function.update_self ..
  have hheld : s.held i = false := h.holds i false (by rw [hoff]; rfl)
  refine ⟨h.mutex, fun j x hx => ?_, fun j x hx => ?_, fun j x hx => ?_, fun j n hn => ?_, fun j => ?_⟩
  · by_cases hj : j = i
    · rw [hj, hself] at hx
      rw [hj]
      exact hheld.trans (Option.some.inj hx)
    · rw [hother j hj] at hx
      exact h.holds j x hx
  · by_cases hj : j = i
    · rw [hj, hself] at hx
      rw [hj]
      exact h.recorded i x (by rw [hoff]; exact hx)
    · rw [hother j hj] at hx
      exact h.recorded j x hx
  · by_cases hj : j = i
    · rw [hj, hself] at hx
      cases hx
    · rw [hother j hj] at hx
      exact h.halted j x hx
  · by_cases hj : j = i
    · rw [hj, hself] at hn
      cases hn
    · rw [hother j hj] at hn
      obtain ⟨hb, hrest⟩ := h.boot j n hn
      refine ⟨hb, fun m hm hne => ?_⟩
      have hmi : m ≠ i := by
        rintro rfl
        exact absurd (hpast j n hn) (Nat.not_lt.mpr hm)
      rw [hother m hmi]
      exact hrest m hm hne
  · by_cases hj : j = i
    · rw [hj, hself]
      trivial
    · rw [hother j hj]
      exact h.ok j

/-! ## Taking and releasing the lock -/

/-- `spin_lock` returns to code that holds the lock. -/
theorem resume_point {at_ : LockPoint} {resume : Resume} (hok : (Point.spinLock at_ resume).ok) :
    resume.point.holds = some true ∧ resume.point.recorded = some true ∧
      resume.point.halted = some false ∧ resume.point.ok := by
  cases resume with
  | bootAps => exact ⟨rfl, rfl, rfl, trivial⟩
  | check a =>
    have hua : fromUser a = false := hok
    have hnot : some (!fromUser a) = some true := by rw [hua]; rfl
    exact ⟨hnot, hnot, rfl, trivial⟩
  | kernel a => exact ⟨rfl, rfl, rfl, trivial⟩

theorem spinLock (h : LockInv b s) {at_ : LockPoint} {resume : Resume}
    (hp : s.point c = .spinLock at_ resume) : LockInv b (s.spinLock c resume at_) := by
  have hok : (Point.spinLock at_ resume).ok := hp ▸ h.ok c
  have hlive : s.point c ≠ .off := by
    rw [hp]
    exact nofun
  have hstay : ∀ at' : LockPoint, (Point.spinLock at' resume).ok := by
    intro at'
    cases resume with
    | bootAps => trivial
    | check a => exact hok
    | kernel a => trivial
  have hboot : ∀ at' : LockPoint, ∀ n, (Point.spinLock at' resume).started = some n →
      ∃ m, m ≤ n ∧ (Point.spinLock at_ resume).started = some m := by
    intro at' n hn
    cases resume with
    | bootAps => exact ⟨n, le_rfl, hn⟩
    | check a => cases hn
    | kernel a => cases hn
  have hleads : ∀ at' : LockPoint, (Point.spinLock at' resume).holds = (Point.spinLock at_ resume).holds →
      Point.Leads (.spinLock at_ resume) (.spinLock at' resume) :=
    fun at' hh => ⟨nofun, Or.inr hh, Or.inr rfl, Or.inr rfl, hboot at', hstay at'⟩
  have hheld : ∀ x, (Point.spinLock at_ resume).holds = some x → s.held c = x :=
    fun x hx => h.holds c x (by rw [hp]; exact hx)
  have hhalted : s.cpuStatus c = .halted ↔ false = true := h.halted c false (by rw [hp]; rfl)
  cases at_ with
  | holdingLocked =>
    simp only [Smp.spinLock]
    split
    · exact h.leads hp (hleads .holdingCpu rfl)
    · exact h.leads hp (hleads .xchg rfl)
  | holdingCpu =>
    -- the CPU does not hold the lock here, so the lock does not name it
    simp only [Smp.spinLock]
    rw [if_neg (h.mutex.owner_ne (hheld false rfl))]
    exact h.leads hp (hleads .xchg rfl)
  | xchg =>
    simp only [Smp.spinLock]
    split
    · exact h
    · next hlocked =>
      have hfree : Mutex.Inv false s.kernelLock.cpu s.held := by
        have := h.mutex
        rw [Bool.eq_false_iff.mpr hlocked] at this
        exact this
      refine h.moves (p := .spinLock .setCpu resume)
        ⟨rfl, fun i hi => Function.update_of_ne hi .., fun _ _ => rfl⟩ hlive (hfree.acquire c)
        (fun _ _ => Iff.rfl) (fun x hx => ?_) (fun x hx => ?_) (fun x hx => ?_) ?_ (hstay .setCpu)
      · exact (Function.update_self ..).trans (Option.some.inj hx)
      · exact h.recorded c x (by rw [hp]; exact hx)
      · exact h.halted c x (by rw [hp]; exact hx)
      · rw [hp]
        exact hboot .setCpu
  | setCpu =>
    obtain ⟨hh, hr, hst, hok'⟩ := resume_point hok
    refine h.moves (p := resume.point) ⟨rfl, fun _ _ => rfl, fun _ _ => rfl⟩ hlive
      (h.mutex.setOwner (hheld true rfl)) (fun i hi => ?_) (fun x hx => ?_) (fun x hx => ?_)
      (fun x hx => ?_) (fun n hn => ?_) hok'
    · refine iff_of_false (fun heq => hi (Option.some.inj heq).symm) fun howner => ?_
      exact hi (h.mutex.unique i c (h.mutex.owner_held i howner) (hheld true rfl))
    · exact (hheld true rfl).trans (Option.some.inj (hh.symm.trans hx))
    · exact iff_of_true rfl (Option.some.inj (hr.symm.trans hx)).symm
    · rw [← Option.some.inj (hst.symm.trans hx)]
      exact hhalted
    · rw [hp]
      cases resume with
      | bootAps => exact ⟨0, Nat.zero_le n, rfl⟩
      | check a => cases hn
      | kernel a => cases hn

theorem spinUnlock (h : LockInv b s) {at_ : UnlockPoint} {idle : Bool}
    (hp : s.point c = .spinUnlock at_ idle) : LockInv b (s.spinUnlock c idle at_) := by
  have hheld : s.held c = true := h.holds c true (by rw [hp]; rfl)
  have hlive : s.point c ≠ .off := by
    rw [hp]
    exact nofun
  have hhalted : ∀ x, (Point.spinUnlock at_ idle).halted = some x →
      (s.cpuStatus c = .halted ↔ x = true) := fun x hx => h.halted c x (by rw [hp]; exact hx)
  cases at_ with
  | holdingLocked =>
    have hlocked : s.kernelLock.locked = true := h.mutex.locked_iff.mpr ⟨c, hheld⟩
    simp only [Smp.spinUnlock]
    rw [if_pos hlocked]
    exact h.leads hp ⟨nofun, Or.inr rfl, Or.inr rfl, Or.inr rfl, nofun, trivial⟩
  | holdingCpu =>
    have howner : s.kernelLock.cpu = some c := (h.recorded c true (by rw [hp]; rfl)).mpr rfl
    simp only [Smp.spinUnlock]
    rw [if_pos howner]
    exact h.leads hp ⟨nofun, Or.inr rfl, Or.inr rfl, Or.inr rfl, nofun, trivial⟩
  | clearCpu =>
    refine h.moves (p := .spinUnlock .xchg idle) ⟨rfl, fun _ _ => rfl, fun _ _ => rfl⟩ hlive
      h.mutex.clearOwner (fun i hi => ?_) (fun x hx => hheld.trans (Option.some.inj hx))
      (fun x hx => ?_) hhalted nofun trivial
    · refine iff_of_false nofun fun howner => ?_
      exact hi (h.mutex.unique i c (h.mutex.owner_held i howner) hheld)
    · rw [← Option.some.inj hx]
      exact iff_of_false nofun Bool.false_ne_true
  | xchg =>
    have howner : s.kernelLock.cpu ≠ some c :=
      fun heq => Bool.false_ne_true ((h.recorded c false (by rw [hp]; rfl)).mp heq)
    cases idle with
    | false =>
      refine h.moves (p := .user) ⟨rfl, fun i hi => Function.update_of_ne hi .., fun _ _ => rfl⟩ hlive
        (h.mutex.release hheld howner) (fun _ _ => Iff.rfl)
        (fun x hx => (Function.update_self ..).trans (Option.some.inj hx)) (fun x hx => ?_) hhalted
        nofun trivial
      exact h.recorded c x (by rw [hp]; exact hx)
    | true =>
      refine h.moves (p := .idle) ⟨rfl, fun i hi => Function.update_of_ne hi .., fun _ _ => rfl⟩ hlive
        (h.mutex.release hheld howner) (fun _ _ => Iff.rfl)
        (fun x hx => (Function.update_self ..).trans (Option.some.inj hx)) (fun x hx => ?_) hhalted
        nofun trivial
      exact h.recorded c x (by rw [hp]; exact hx)

/-! ## Every step -/

/-- `xchg(&thiscpu->cpu_status, st)`, at a point from which the CPU goes to `p`. -/
theorem setStatus (h : LockInv b s) (hp : s.point c = q) (st : CpuStatus) (hlive : q ≠ .off)
    (hholds : p.holds = q.holds) (hrec : p.recorded = q.recorded)
    (hhalted : ∀ x, p.halted = some x → (st = .halted ↔ x = true))
    (hstarted : ∀ n, p.started = some n → ∃ m, m ≤ n ∧ q.started = some m) (hok : p.ok) :
    LockInv b ((s.setStatus c st).goto c p) := by
  subst hp
  refine h.moves ⟨rfl, fun _ _ => rfl, fun i hi => Function.update_of_ne hi ..⟩ hlive h.mutex
    (fun _ _ => Iff.rfl) (fun x hx => h.holds c x (hholds ▸ hx)) (fun x hx => h.recorded c x (hrec ▸ hx))
    (fun x hx => ?_) hstarted hok
  have hst : ((s.setStatus c st).goto c p).cpuStatus c = st := Function.update_self ..
  rw [hst]
  exact hhalted x hx

theorem runKernel (h : LockInv b s) {a : Action} (hp : s.point c = .kernel a) :
    LockInv b (s.runKernel c a) := by
  unfold Smp.runKernel
  split
  · next k _ =>
    have hk := h.rest k s.panicstr
    simp only
    split
    · exact hk.leads hp ⟨nofun, Or.inr rfl, Or.inr rfl, Or.inr rfl, nofun, trivial⟩
    · exact hk.leads hp ⟨nofun, Or.inr rfl, Or.inr rfl, Or.inl rfl, nofun, trivial⟩
  · next k _ =>
    exact (h.rest k s.panicstr).leads hp ⟨nofun, Or.inr rfl, Or.inr rfl, Or.inl rfl, nofun, trivial⟩
  · next k _ =>
    exact (h.rest k s.panicstr).leads hp ⟨nofun, Or.inr rfl, Or.inr rfl, Or.inl rfl, nofun, trivial⟩
  · exact h.panic hp nofun

/-- `boot_aps` at CPU `i`. -/
theorem bootAps (h : LockInv b s) {i : Nat} (hp : s.point c = .bootAps i)
    (hx : s.advance sys c = some s') : LockInv b s' := by
  simp only [Smp.advance, hp] at hx
  split at hx
  · split at hx
    · cases hx
      refine h.leads hp ⟨nofun, Or.inr rfl, Or.inr rfl, Or.inr rfl, fun n hn => ?_, trivial⟩
      exact ⟨i, (Nat.le_succ i).trans (Option.some.inj hn).le, rfl⟩
    · next hne =>
      cases hx
      obtain ⟨hb, hoff⟩ := h.boot c i (by rw [hp]; rfl)
      have hwait : LockInv b (s.goto c (.bootWait i)) := by
        refine h.leads hp ⟨nofun, Or.inr rfl, Or.inr rfl, Or.inr rfl, fun n hn => ?_, trivial⟩
        exact ⟨i, (Nat.le_succ i).trans (Option.some.inj hn).le, rfl⟩
      refine hwait.startap ?_ fun c' n hn => ?_
      · have hsame : (s.goto c (.bootWait i)).point i = s.point i := Function.update_of_ne hne ..
        rw [hsame]
        exact hoff i le_rfl hne
      · -- no other CPU runs `boot_aps`
        obtain rfl : c' = c := (hwait.boot c' n hn).1.trans hb.symm
        have hself : (s.goto c' (.bootWait i)).point c' = .bootWait i := Function.update_self ..
        rw [hself] at hn
        exact Nat.lt_of_lt_of_le (Nat.lt_succ_self i) (Option.some.inj hn).le
  · cases hx
    exact h.leads hp ⟨nofun, Or.inr rfl, Or.inr rfl, Or.inr rfl, nofun, trivial⟩

theorem advance (h : LockInv b s) (hx : s.advance sys c = some s') : LockInv b s' := by
  cases hp : s.point c with
  | off | user | idle | hlt | monitor | panicked =>
    simp only [Smp.advance, hp] at hx
    cases hx
  | i386Init =>
    simp only [Smp.advance, hp] at hx
    cases hx
    exact h.leads hp ⟨nofun, Or.inr rfl, Or.inr rfl, Or.inr rfl, fun n hn => ⟨n, le_rfl, hn⟩, trivial⟩
  | bootAps i => exact h.bootAps hp hx
  | bootWait i =>
    simp only [Smp.advance, hp] at hx
    split at hx
    · cases hx
      exact h.leads hp
        ⟨nofun, Or.inr rfl, Or.inr rfl, Or.inr rfl, fun n hn => ⟨n, le_rfl, hn⟩, trivial⟩
    · cases hx
      exact h
  | mpMain =>
    simp only [Smp.advance, hp] at hx
    cases hx
    refine h.setStatus hp .started nofun rfl rfl (fun x hx => ?_) nofun trivial
    rw [← Option.some.inj hx]
    exact iff_of_false nofun Bool.false_ne_true
  | trap a =>
    simp only [Smp.advance, hp] at hx
    cases hx
    split
    · exact h.leads hp ⟨nofun, Or.inr rfl, Or.inr rfl, Or.inr rfl, nofun, trivial⟩
    · exact h.leads hp ⟨nofun, Or.inr rfl, Or.inr rfl, Or.inr rfl, nofun, trivial⟩
  | swap a =>
    -- `cpu_status` is `CPU_HALTED` just if the trap came from the kernel
    have hst := h.halted c _ (by rw [hp]; rfl)
    have hnot : ∀ x, some false = some x → (CpuStatus.started = .halted ↔ x = true) := by
      intro x hx
      rw [← Option.some.inj hx]
      exact iff_of_false nofun Bool.false_ne_true
    simp only [Smp.advance, hp] at hx
    cases hx
    split
    · next hhalted =>
      have hua : fromUser a = false := by simpa using hst.mp hhalted
      exact h.setStatus hp .started nofun rfl rfl hnot nofun hua
    · next hhalted =>
      have hua : fromUser a = true := by simpa using mt hst.mpr hhalted
      have hpt : some (!fromUser a) = some false := by rw [hua]; rfl
      exact h.setStatus hp .started nofun hpt hpt hnot nofun trivial
  | check a =>
    simp only [Smp.advance, hp] at hx
    split at hx
    · cases hx
      exact h.panic hp nofun
    split at hx
    · next hua =>
      have hpt : some false = some (!fromUser a) := by rw [hua]; rfl
      split at hx
      · cases hx
        exact h.panic hp nofun
      · cases hx
        exact h.leads hp ⟨nofun, Or.inr hpt, Or.inr hpt, Or.inr rfl, nofun, trivial⟩
    · next hua =>
      cases hx
      have hpt : some true = some (!fromUser a) := by rw [Bool.eq_false_iff.mpr hua]; rfl
      exact h.leads hp ⟨nofun, Or.inr hpt, Or.inr hpt, Or.inr rfl, nofun, trivial⟩
  | kernel a =>
    simp only [Smp.advance, hp] at hx
    cases hx
    exact h.runKernel hp
  | halt =>
    simp only [Smp.advance, hp] at hx
    cases hx
    refine h.setStatus hp .halted nofun rfl rfl (fun x hx => ?_) nofun trivial
    exact iff_of_true rfl (Option.some.inj hx).symm
  | spinLock at_ resume =>
    simp only [Smp.advance, hp] at hx
    cases hx
    exact h.spinLock hp
  | spinUnlock at_ idle =>
    simp only [Smp.advance, hp] at hx
    cases hx
    exact h.spinUnlock hp

theorem step (h : LockInv b s) (hs : SmpStep sys s s') : LockInv b s' := by
  cases hs with
  | advance c hx => exact h.advance hx
  | store c va x pmap hp hst => exact h.rest { s.kernel with pmap } s.panicstr
  | trap c gate faultVa input tf hp hgate htf =>
    have hua : fromUser (.trap c gate faultVa input tf) = true := by
      rw [fromUser, frameOf, htf.cs]
      decide
    have hpt : some (!fromUser (.trap c gate faultVa input tf)) = some false := by rw [hua]; rfl
    exact h.leads hp ⟨nofun, Or.inr rfl, Or.inr rfl, Or.inr hpt, nofun, trivial⟩
  | irq c gate trapno hp hgate hno =>
    have hua : fromUser (.irq c gate trapno) = false := by
      rw [fromUser, frameOf, idleFrame_cs]
      decide
    have hpt : some (!fromUser (.irq c gate trapno)) = some true := by rw [hua]; rfl
    exact h.leads hp ⟨nofun, Or.inr rfl, Or.inr rfl, Or.inr hpt, nofun, trivial⟩
  | panic c hp =>
    refine h.panic (c := c) rfl fun hoff => ?_
    rw [hoff] at hp
    exact Bool.false_ne_true hp

end LockInv

namespace Point

/-- A CPU in user mode, halted, or not started. -/
def outside : Point → Bool
  | .off | .user | .idle | .hlt _ => true
  | _ => false

/-- A CPU between `lock_kernel` and the end of `unlock_kernel` in the following `env_run` or `sched_halt`. In
`trap`, that begins with the assertions if the CPU was halted. -/
def inside : Point → Bool
  | .bootAps _ | .bootWait _ | .kernel _ | .halt | .monitor | .spinUnlock _ _ => true
  | .check a => !fromUser a
  | _ => false

end Point

end Jos
