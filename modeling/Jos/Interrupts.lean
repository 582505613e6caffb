import Jos.CallFrame
import Jos.NoPanic

/-!
# Interrupts of devices

An interrupt has nothing to do with the environment it arrives in, which should go on later as if nothing had
happened (`Unharmed`). `trap_dispatch` sees to that for the timer and for spurious interrupts. The others for which
`trap_init` has set a gate, keyboard and serial line among them, end in the default case of `trap_dispatch`, as if
the environment had done something wrong: it is destroyed, and a halted CPU panics.
-/

namespace Jos

open Pmap Kernel Except

variable {R : Set Nat} {D : Finset Nat} {l : List Nat} {k k' : Kernel} {c cur : Nat} {gate : Gate}
  {faultVa input : Word} {tf : Trapframe} {f : Flow}

/-- The interrupts for which `trap_init` sets a gate. -/
def deviceIrqs : List Nat :=
  [IRQ_TIMER, IRQ_KBD, IRQ_SERIAL, IRQ_SPURIOUS, IRQ_IDE, IRQ_ERROR].map (IRQ_OFFSET + ·)

/-- What CPU `c` is doing when an interrupt with the trap frame `tf` arrives. -/
inductive Interrupted (k : Kernel) (c : Nat) (tf : Trapframe) : Prop
  | user (cur : Nat) : (k.cpus c).mode = .user → k.curenv c = some cur → (k.envs cur).envStatus ≠ .dying →
      tf.cs &&& 3#32 = 3#32 → Interrupted k c tf
  | halted : (k.cpus c).mode = .idle → k.curenv c = none → tf.cs = GD_KT → Interrupted k c tf

/-- The state of the kernel when a function has returned or the CPU has left. -/
def Flow.kernel : Flow → Kernel
  | .ret _ k | .left k | .monitor k => k

/-- `ENV_RUNNABLE` or `ENV_RUNNING`. -/
def Ready (st : EnvStatus) : Prop := st = .runnable ∨ st = .running

/-- No environment has ended between `k` and `k'`, and the one that was interrupted can go on from `tf`. -/
structure Unharmed (k : Kernel) (c : Nat) (tf : Trapframe) (k' : Kernel) : Prop where
  alive : ∀ e, (k'.envs e).envStatus = .free ∨ (k'.envs e).envStatus = .dying →
    (k'.envs e).envStatus = (k.envs e).envStatus
  frame : ∀ cur, k.curenv c = some cur → (k'.envs cur).envTf = tf
  ready : ∀ cur, k.curenv c = some cur → Ready (k'.envs cur).envStatus

/-- The interrupt does not make the kernel panic and does no harm. -/
def IrqHarmless (k : Kernel) (c : Nat) (gate : Gate) (faultVa input : Word) (tf : Trapframe) : Prop :=
  ∃ f, trap k c gate faultVa input tf = .ok f ∧ Unharmed k c tf f.kernel

/-! ## Giving up the CPU -/

/-- What becomes of the environments when the CPU is given to one of them. -/
structure Rescheduled (k k' : Kernel) : Prop where
  tf : ∀ e, (k'.envs e).envTf = (k.envs e).envTf
  status : ∀ e, (k'.envs e).envStatus = (k.envs e).envStatus ∨
    Ready (k.envs e).envStatus ∧ Ready (k'.envs e).envStatus

namespace Rescheduled

theorem of_envs (h : k'.envs = k.envs) : Rescheduled k k' :=
  ⟨fun e => by rw [h], fun e => Or.inl (by rw [h])⟩

theorem runs {e : Nat} (he : Ready (k.envs e).envStatus) : Rescheduled k (k.runs c e) := by
  refine ⟨fun i => (runs_sameEnv i).tf, fun i => ?_⟩
  rw [runs_status]
  split
  · next hi =>
    subst hi
    exact Or.inr ⟨he, Or.inr rfl⟩
  · split
    · next hi => exact Or.inr ⟨Or.inr hi.2, Or.inl rfl⟩
    · exact Or.inl rfl

theorem schedYield (hlt : ∀ e, (k.envs e).envPgdir ≠ none → e < NENV) (hok : schedYield k c = .ok f) :
    Rescheduled k f.kernel ∧ ((∃ k', f = .left k') ∨ ∃ k', f = .monitor k') := by
  rcases schedYield_ok hlt hok with ⟨e, ⟨-, hd⟩, rfl⟩ | ⟨-, -, rfl⟩ | rfl
  · exact ⟨runs (hd.imp_right fun hd => hd.2.1), Or.inl ⟨_, rfl⟩⟩
  · exact ⟨of_envs rfl, Or.inl ⟨_, rfl⟩⟩
  · exact ⟨of_envs rfl, Or.inr ⟨_, rfl⟩⟩

theorem trapReturn (hlt : ∀ e, (k.envs e).envPgdir ≠ none → e < NENV) (hok : trapReturn k c = .ok f) :
    Rescheduled k f.kernel := by
  unfold Jos.trapReturn at hok
  split at hok
  · split at hok
    · next cur _ hst =>
      obtain ⟨-, rfl⟩ := envRun_ok hok
      exact runs (Or.inr hst)
    · exact (schedYield hlt hok).1
  · exact (schedYield hlt hok).1

/-- What this means for the environment that was interrupted. -/
theorem ready_iff (h : Rescheduled k k') (e : Nat) :
    Ready (k'.envs e).envStatus ↔ Ready (k.envs e).envStatus := by
  rcases h.status e with heq | hready
  · rw [heq]
  · exact iff_of_true hready.2 hready.1

theorem alive (h : Rescheduled k k') {e : Nat}
    (he : (k'.envs e).envStatus = .free ∨ (k'.envs e).envStatus = .dying) :
    (k'.envs e).envStatus = (k.envs e).envStatus := by
  refine (h.status e).resolve_right fun hready => ?_
  rcases hready.2 with hst | hst <;> rw [hst] at he <;> rcases he with he | he <;> cases he

end Rescheduled

/-! ## `trap_dispatch` for each interrupt -/

theorem trapBody_timer (hno : tf.trapno = IRQ_OFFSET + IRQ_TIMER) :
    trapBody k c faultVa input tf = do
      match ← schedYield k c with
      | .ret _ k => trapReturn k c
      | flow => return flow := by
  have hcase : tf.trapno ≠ T_PGFLT ∧ tf.trapno ≠ T_BRKPT ∧ tf.trapno ≠ T_SYSCALL ∧
      tf.trapno ≠ IRQ_OFFSET + IRQ_SPURIOUS := by
    rw [hno]
    decide
  have hdispatch : trapDispatch k c faultVa input tf = schedYield k c := by
    rw [trapDispatch, if_neg hcase.1, if_neg hcase.2.1, if_neg hcase.2.2.1, if_neg hcase.2.2.2, if_pos hno]
  exact congrArg (fun x => x >>= fun f => match f with | .ret _ k => trapReturn k c | flow => .ok flow) hdispatch

theorem trapBody_spurious (hno : tf.trapno = IRQ_OFFSET + IRQ_SPURIOUS) :
    trapBody k c faultVa input tf = trapReturn k c := by
  have hcase : tf.trapno ≠ T_PGFLT ∧ tf.trapno ≠ T_BRKPT ∧ tf.trapno ≠ T_SYSCALL := by
    rw [hno]
    decide
  unfold trapBody trapDispatch
  rw [if_neg hcase.1, if_neg hcase.2.1, if_neg hcase.2.2, if_pos hno]
  rfl

/-- The default case. -/
theorem trapDispatch_other (hirq : tf.trapno ∈ deviceIrqs) (htimer : tf.trapno ≠ IRQ_OFFSET + IRQ_TIMER)
    (hspurious : tf.trapno ≠ IRQ_OFFSET + IRQ_SPURIOUS) :
    trapDispatch k c faultVa input tf = if tf.cs = GD_KT then .error .unhandledTrap else
      match k.curenv c with
      | none => .error .kernelFault
      | some cur => envDestroy k c cur := by
  have hcase : tf.trapno ≠ T_PGFLT ∧ tf.trapno ≠ T_BRKPT ∧ tf.trapno ≠ T_SYSCALL := by
    generalize tf.trapno = n at hirq
    revert n
    decide
  unfold trapDispatch
  rw [if_neg hcase.1, if_neg hcase.2.1, if_neg hcase.2.2, if_neg hspurious, if_neg htimer]
  rfl

/-- The default case never lets the interrupted environment go on. -/
theorem trapBody_other (h : EnvsOk D k) (hirq : tf.trapno ∈ deviceIrqs)
    (htimer : tf.trapno ≠ IRQ_OFFSET + IRQ_TIMER) (hspurious : tf.trapno ≠ IRQ_OFFSET + IRQ_SPURIOUS)
    (hok : trapBody k c faultVa input tf = .ok f) :
    tf.cs ≠ GD_KT ∧ ∃ cur, k.curenv c = some cur ∧ (f.kernel.envs cur).envStatus = .free := by
  unfold trapBody at hok
  rw [trapDispatch_other hirq htimer hspurious] at hok
  split at hok
  · cases hok
  · next hcs =>
    obtain ⟨f', hf', hok⟩ := Except.bind_eq_ok.mp hok
    split at hf'
    · cases hf'
    · next cur hcur =>
      obtain ⟨k', rfl | rfl, hfree⟩ := envDestroy_self h hcur hf'
      · cases hok
        exact ⟨hcs, cur, hcur, hfree⟩
      · cases hok
        exact ⟨hcs, cur, hcur, hfree⟩

/-- For the timer and for a spurious interrupt the CPU is rescheduled, and nothing else. -/
theorem trapBody_handled (hlt : ∀ e, (k.envs e).envPgdir ≠ none → e < NENV)
    (hno : tf.trapno = IRQ_OFFSET + IRQ_TIMER ∨ tf.trapno = IRQ_OFFSET + IRQ_SPURIOUS)
    (hok : trapBody k c faultVa input tf = .ok f) : Rescheduled k f.kernel := by
  rcases hno with hno | hno
  · rw [trapBody_timer hno] at hok
    obtain ⟨f', hf', hok⟩ := Except.bind_eq_ok.mp hok
    obtain ⟨hres, ⟨k', rfl⟩ | ⟨k', rfl⟩⟩ := Rescheduled.schedYield hlt hf'
    · cases hok
      exact hres
    · cases hok
      exact hres
  · rw [trapBody_spurious hno] at hok
    exact Rescheduled.trapReturn hlt hok

theorem CanLeave.trapBody (h : CanLeave c k)
    (hno : tf.trapno = IRQ_OFFSET + IRQ_TIMER ∨ tf.trapno = IRQ_OFFSET + IRQ_SPURIOUS) :
    ∃ f, trapBody k c faultVa input tf = .ok f := by
  rcases hno with hno | hno
  · obtain ⟨f, hf, hexits⟩ := h.schedYield
    rw [trapBody_timer hno, hf, Except.ok_bind]
    cases f with
    | ret r k' =>
      obtain ⟨f', hf', -⟩ := CanLeave.trapReturn (k := k') hexits
      exact ⟨f', hf'⟩
    | left k' => exact ⟨_, rfl⟩
    | monitor k' => exact ⟨_, rfl⟩
  · obtain ⟨f, hf, -⟩ := h.trapReturn
    exact ⟨f, (trapBody_spurious hno).trans hf⟩

/-! ## `trap` -/

/-- The state in which `trap_dispatch` starts: the registers of the environment are saved. -/
def Kernel.saveTf (k : Kernel) (c : Nat) (tf : Trapframe) : Kernel :=
  match k.curenv c with
  | some cur => k.setEnv cur { k.envs cur with envTf := tf }
  | none => k

theorem trap_irq (hgate : idt tf.trapno = some gate) (hirq : tf.trapno ∈ deviceIrqs)
    (hat : Interrupted k c tf) :
    trap k c gate faultVa input tf = trapBody (k.saveTf c tf) c faultVa input tf := by
  -- all gates of devices are interrupt gates
  have hint : gate.istrap = false := by
    generalize tf.trapno = n at hgate hirq
    have hall : ∀ n ∈ deviceIrqs, (idt n).map Gate.istrap = some false := by decide
    have := hall n hirq
    rw [hgate] at this
    exact Option.some.inj this
  have hif : ¬ (gate.eflags tf &&& FL_IF ≠ 0#32) := by
    rw [Gate.eflags, hint, not_not]
    show tf.eflags &&& ~~~FL_IF &&& FL_IF = 0#32
    rw [BitVec.and_assoc, BitVec.and_comm (~~~FL_IF), BitVec.and_not_self]
    exact BitVec.and_zero
  unfold trap
  rw [if_neg hif]
  cases hat with
  | user cur _ hcur hst hcs =>
    rw [if_pos hcs, Kernel.saveTf]
    simp only [hcur]
    rw [if_neg hst]
  | halted _ hcur hcs =>
    have hkern : ¬ (GD_KT &&& 3#32 = 3#32) := by decide
    rw [hcs, if_neg hkern, Kernel.saveTf, hcur]

theorem saveTf_onlyTf : OnlyTf k (k.saveTf c tf) := by
  unfold Kernel.saveTf
  split
  · exact .setEnv _ _ _
  · exact ⟨fun i => ⟨(k.envs i).envTf, rfl⟩, rfl, rfl, rfl, rfl⟩

theorem saveTf_envTf (hcur : k.curenv c = some cur) : ((k.saveTf c tf).envs cur).envTf = tf := by
  simp only [Kernel.saveTf, hcur]
  rw [setEnv_envs, if_pos rfl]

/-- Any other interrupt destroys the environment or makes the kernel panic. -/
theorem not_irqHarmless (h : KernelInv R D l k) (hgate : idt tf.trapno = some gate)
    (hirq : tf.trapno ∈ deviceIrqs) (hat : Interrupted k c tf) (htimer : tf.trapno ≠ IRQ_OFFSET + IRQ_TIMER)
    (hspurious : tf.trapno ≠ IRQ_OFFSET + IRQ_SPURIOUS) : ¬ IrqHarmless k c gate faultVa input tf := by
  rintro ⟨f, hok, hun⟩
  rw [trap_irq hgate hirq hat] at hok
  have hsave : OnlyTf k (k.saveTf c tf) := saveTf_onlyTf
  have hinv : EnvsOk D (k.saveTf c tf) := h.envs.congr hsave.sameDirs
  obtain ⟨-, cur, hcur, hfree⟩ := trapBody_other hinv hirq htimer hspurious hok
  rw [Kernel.curenv, hsave.cpus] at hcur
  rcases hun.ready cur hcur with hst | hst <;> exact absurd (hfree.symm.trans hst) (by rintro ⟨⟩)

/-- Interrupts are harmless for the environment that is interrupted if they come from the timer or are spurious,
as long as no other CPU has taken it out of the schedule before. No other interrupt is. -/
theorem trap_irqHarmless (h : KernelInv R D l k) (hgate : idt tf.trapno = some gate)
    (hirq : tf.trapno ∈ deviceIrqs) (hat : Interrupted k c tf) (faultVa input : Word) :
    IrqHarmless k c gate faultVa input tf ↔
      (tf.trapno = IRQ_OFFSET + IRQ_TIMER ∨ tf.trapno = IRQ_OFFSET + IRQ_SPURIOUS) ∧
        ∀ cur, k.curenv c = some cur → Ready (k.envs cur).envStatus := by
  have hsave : OnlyTf k (k.saveTf c tf) := saveTf_onlyTf
  have hlt : ∀ e, ((k.saveTf c tf).envs e).envPgdir ≠ none → e < NENV := by
    intro e he
    rw [hsave.pgdir] at he
    obtain ⟨d, hd⟩ := Option.ne_none_iff_exists'.mp he
    exact h.envs.lt e d hd
  constructor
  · intro hharmless
    have hno : tf.trapno = IRQ_OFFSET + IRQ_TIMER ∨ tf.trapno = IRQ_OFFSET + IRQ_SPURIOUS := by
      by_contra hother
      rw [not_or] at hother
      exact not_irqHarmless h hgate hirq hat hother.1 hother.2 hharmless
    refine ⟨hno, fun cur hcur => ?_⟩
    obtain ⟨f, hok, hun⟩ := hharmless
    rw [trap_irq hgate hirq hat] at hok
    have hres := trapBody_handled hlt hno hok
    rw [← hsave.status, ← hres.ready_iff]
    exact hun.ready cur hcur
  · rintro ⟨hno, hready⟩
    have hleave : CanLeave c (k.saveTf c tf) := by
      refine (h.canLeave fun cur hcur => ?_).onlyTf hsave
      have hst := hready cur hcur
      have hlive : (k.envs cur).envPgdir ≠ none := fun hc => by
        rw [Ready, (h.life cur).mpr hc] at hst
        rcases hst with hst | hst <;> cases hst
      obtain ⟨d, hd⟩ := Option.ne_none_iff_exists'.mp hlive
      exact h.envs.lt cur d hd
    obtain ⟨f, hok⟩ : ∃ f, trapBody (k.saveTf c tf) c faultVa input tf = .ok f := hleave.trapBody hno
    have hres := trapBody_handled hlt hno hok
    refine ⟨f, (trap_irq hgate hirq hat).trans hok, fun e he => ?_, fun cur hcur => ?_, fun cur hcur => ?_⟩
    · rw [hres.alive he, hsave.status]
    · rw [hres.tf, saveTf_envTf hcur]
    · rw [hres.ready_iff, hsave.status]
      exact hready cur hcur

/-- The trap frame of an interrupt that arrives in user mode. -/
def irqFrame (irq : Nat) : Trapframe := { trapno := IRQ_OFFSET + irq, cs := 0x1b#32, eflags := FL_IF }

theorem irqFrame_interrupted {k₀ : Kernel} {d : Nat} (h : FirstRun R D l d k₀ k) (irq : Nat) :
    Interrupted k 0 (irqFrame irq) := by
  refine .user 0 (by rw [h.cpu]) (by rw [Kernel.curenv, h.cpu]) (by rw [h.status]; rintro ⟨⟩) ?_
  show 0x1b#32 &&& 3#32 = 3#32
  decide

/-- The clock ticks while environment 0 runs. -/
theorem trap_irqHarmless_demoSystem : ∃ s₀ D l d k k₁, I386Init demoSystem k ∧
    FirstRun (notFree s₀) D l d k k₁ ∧ IrqHarmless k₁ 0 ⟨false, 0⟩ 0#32 0#32 (irqFrame IRQ_TIMER) := by
  obtain ⟨s₀, D, l, d, d₁, k, h⟩ := demoSystem_boots
  obtain ⟨k₁, hrun⟩ : ∃ k₁, FirstRun (notFree s₀) D l d k k₁ := ⟨_, h.firstRun⟩
  refine ⟨s₀, D, l, d, k, k₁, h.init, hrun, (trap_irqHarmless hrun.inv (by decide) (by decide)
    (irqFrame_interrupted hrun _) 0#32 0#32).mpr ⟨Or.inl rfl, fun cur hcur => ?_⟩⟩
  rw [Kernel.curenv, hrun.cpu] at hcur
  obtain rfl := Option.some.inj hcur
  exact Or.inr hrun.status

/-- A key is pressed while environment 0 runs, and the environment is destroyed. -/
theorem trap_kbd_destroys : ∃ s₀ D l d k k₁, I386Init demoSystem k ∧ FirstRun (notFree s₀) D l d k k₁ ∧
    (k₁.envs 0).envStatus = .running ∧
    ¬ IrqHarmless k₁ 0 ⟨false, 0⟩ 0#32 0#32 (irqFrame IRQ_KBD) := by
  obtain ⟨s₀, D, l, d, d₁, k, h⟩ := demoSystem_boots
  obtain ⟨k₁, hrun⟩ : ∃ k₁, FirstRun (notFree s₀) D l d k k₁ := ⟨_, h.firstRun⟩
  exact ⟨s₀, D, l, d, k, k₁, h.init, hrun, hrun.status, not_irqHarmless hrun.inv (by decide) (by decide)
    (irqFrame_interrupted hrun _) (by decide) (by decide)⟩

end Jos
