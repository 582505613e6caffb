import Jos.Xv6.Ptable

/-!
# The invariant of the process table

Entries form a tree with init at its root: the parent of a process is there and has not exited, and has a smaller pid
(`PtInv`). A process that sleeps in `wait` has children, none of which has exited, and has not been killed
(`WaitInv`).
-/

namespace Jos.Xv6

open PtState

variable {σ σ' : PtState} {p q np : Fin NPROC} {c : ProcChan} {e : ProcEntry} {s : ProcState} {pc : ProcPc}

/-- The state without the difference that the scheduler makes. -/
def ProcState.kind : ProcState → ProcState
  | .SLEEPING | .RUNNABLE | .RUNNING => .RUNNING
  | s => s

/-- The process is there and has not exited. -/
def PtState.Alive (σ : PtState) (p : Fin NPROC) : Prop := (σ.proc p).state.kind = .RUNNING

instance (σ : PtState) (p : Fin NPROC) : Decidable (σ.Alive p) := inferInstanceAs (Decidable (_ = _))

/-- Process `p` is in `fork`, with the new process `np`. -/
def PtState.Forks (σ : PtState) (p np : Fin NPROC) : Prop := σ.pc p = .fork np ∨ σ.pc p = .forked np

/-- The tree, and the processes that are not in it yet. -/
structure PtInv (σ : PtState) : Prop where
  init : σ.Alive initproc
  parent : ∀ p q, (σ.proc p).parent = some q → σ.Alive q ∧ (σ.proc q).pid < (σ.proc p).pid
  orphan : ∀ p, p ≠ initproc → (σ.proc p).parent = none →
    (σ.proc p).state = .UNUSED ∨ (σ.proc p).state = .EMBRYO
  unused : ∀ p, (σ.proc p).state = .UNUSED → (σ.proc p).parent = none
  pid_init : (σ.proc initproc).pid = 1 ∧ (σ.proc initproc).parent = none
  pid_pos : ∀ p, (σ.proc p).state ≠ .UNUSED → 0 < (σ.proc p).pid
  pid_lt : ∀ p, (σ.proc p).pid < σ.nextpid
  pid_inj : ∀ p q, (σ.proc p).pid = (σ.proc q).pid → 0 < (σ.proc p).pid → p = q
  forks : ∀ p np, σ.Forks p np → σ.Alive p ∧ (σ.proc np).state = .EMBRYO ∧ (σ.proc p).pid < (σ.proc np).pid
  embryo : ∀ p np, σ.pc p = .fork np → (σ.proc np).parent = none
  forked : ∀ p np, σ.pc p = .forked np → (σ.proc np).parent = some p
  forks_one : ∀ p q np, σ.Forks p np → σ.Forks q np → p = q

/-- Processes that sleep in `wait`. -/
def WaitInv (σ : PtState) : Prop := ∀ p q, (σ.proc p).state = .SLEEPING → (σ.proc p).chan = some (.proc q) →
  q = p ∧ σ.pc p = .wait ∧ (σ.proc p).killed = false ∧ σ.HaveKids p ∧
    ∀ r, (σ.proc r).parent = some p → (σ.proc r).state ≠ .ZOMBIE

/-! ## Updates -/

namespace PtState

theorem set_proc (σ : PtState) (p q : Fin NPROC) (e : ProcEntry) :
    (σ.set p e).proc q = if q = p then e else σ.proc q := Function.update_apply ..

theorem goto_pc (σ : PtState) (p q : Fin NPROC) (pc : ProcPc) :
    (σ.goto p pc).pc q = if q = p then pc else σ.pc q := Function.update_apply ..

/-- What a step that changes one entry does to a field that it keeps. -/
theorem set_field {α : Type} (f : ProcEntry → α) (h : f e = f (σ.proc p)) (q : Fin NPROC) :
    f ((σ.set p e).proc q) = f (σ.proc q) := by
  rw [set_proc]
  split
  · next hq => rw [h, hq]
  · rfl

theorem wakeup1_field {α : Type} (f : ProcEntry → α) (hf : ∀ e s, f { e with state := s } = f e) (σ : PtState)
    (c : ProcChan) (q : Fin NPROC) : f ((σ.wakeup1 c).proc q) = f (σ.proc q) := by
  unfold wakeup1
  simp only
  split
  · exact hf ..
  · rfl

theorem wakeup1_kind (σ : PtState) (c : ProcChan) (q : Fin NPROC) :
    ((σ.wakeup1 c).proc q).state.kind = (σ.proc q).state.kind := by
  unfold wakeup1
  simp only
  split
  · next h =>
    rw [h.1]
    rfl
  · rfl

/-- A process that still sleeps has been sleeping on something else. -/
theorem wakeup1_sleeping (h : ((σ.wakeup1 c).proc q).state = .SLEEPING) :
    (σ.proc q).state = .SLEEPING ∧ (σ.proc q).chan ≠ some c := by
  unfold wakeup1 at h
  simp only at h
  split at h
  · cases h
  · next hne => exact ⟨h, fun hc => hne ⟨h, hc⟩⟩

theorem kind_eq_of_ne (hs : s ≠ .SLEEPING) (hr : s ≠ .RUNNABLE) : s.kind = s := by
  cases s with
  | SLEEPING => exact absurd rfl hs
  | RUNNABLE => exact absurd rfl hr
  | _ => rfl

theorem kind_unused : s.kind = .UNUSED ↔ s = .UNUSED := by cases s <;> simp [ProcState.kind]

theorem kind_embryo : s.kind = .EMBRYO ↔ s = .EMBRYO := by cases s <;> simp [ProcState.kind]

theorem kind_zombie : s.kind = .ZOMBIE ↔ s = .ZOMBIE := by cases s <;> simp [ProcState.kind]

end PtState

/-! ## Steps that keep the tree -/

/-- Nothing changes but who runs and who sleeps. -/
structure SameTree (σ σ' : PtState) : Prop where
  pid : ∀ p, (σ'.proc p).pid = (σ.proc p).pid
  parent : ∀ p, (σ'.proc p).parent = (σ.proc p).parent
  kind : ∀ p, (σ'.proc p).state.kind = (σ.proc p).state.kind
  nextpid : σ'.nextpid = σ.nextpid
  fork : ∀ p np, σ'.pc p = .fork np ↔ σ.pc p = .fork np
  forked : ∀ p np, σ'.pc p = .forked np ↔ σ.pc p = .forked np

namespace SameTree

theorem alive (h : SameTree σ σ') (p : Fin NPROC) : σ'.Alive p ↔ σ.Alive p := by
  unfold PtState.Alive
  rw [h.kind]

theorem unused (h : SameTree σ σ') (p : Fin NPROC) : (σ'.proc p).state = .UNUSED ↔ (σ.proc p).state = .UNUSED := by
  rw [← kind_unused, h.kind, kind_unused]

theorem embryo (h : SameTree σ σ') (p : Fin NPROC) : (σ'.proc p).state = .EMBRYO ↔ (σ.proc p).state = .EMBRYO := by
  rw [← kind_embryo, h.kind, kind_embryo]

theorem zombie (h : SameTree σ σ') (p : Fin NPROC) : (σ'.proc p).state = .ZOMBIE ↔ (σ.proc p).state = .ZOMBIE := by
  rw [← kind_zombie, h.kind, kind_zombie]

theorem forks (h : SameTree σ σ') (p np : Fin NPROC) : σ'.Forks p np ↔ σ.Forks p np :=
  or_congr (h.fork p np) (h.forked p np)

/-- One process changes its state, its channel and `killed`, and goes on from a point outside of `fork` to another. -/
theorem set (hpid : e.pid = (σ.proc p).pid) (hparent : e.parent = (σ.proc p).parent)
    (hkind : e.state.kind = (σ.proc p).state.kind) : SameTree σ (σ.set p e) :=
  ⟨set_field (·.pid) hpid, set_field (·.parent) hparent, set_field (·.state.kind) hkind, rfl, fun _ _ => Iff.rfl,
    fun _ _ => Iff.rfl⟩

theorem goto (hold : ∀ np, ¬ σ.Forks p np) (hnew : pc = .user ∨ pc = .exit ∨ pc = .wait) :
    SameTree σ (σ.goto p pc) := by
  refine ⟨fun _ => rfl, fun _ => rfl, fun _ => rfl, rfl, fun q np => ?_, fun q np => ?_⟩ <;>
    rw [goto_pc] <;> split
  · next hq =>
    refine iff_of_false ?_ fun hc => hold np (Or.inl (hq ▸ hc))
    rcases hnew with rfl | rfl | rfl <;> rintro ⟨⟩
  · exact Iff.rfl
  · next hq =>
    refine iff_of_false ?_ fun hc => hold np (Or.inr (hq ▸ hc))
    rcases hnew with rfl | rfl | rfl <;> rintro ⟨⟩
  · exact Iff.rfl

theorem wakeup1 (σ : PtState) (c : ProcChan) : SameTree σ (σ.wakeup1 c) :=
  ⟨wakeup1_field (·.pid) (fun _ _ => rfl) σ c, wakeup1_field (·.parent) (fun _ _ => rfl) σ c, wakeup1_kind σ c, rfl,
    fun _ _ => Iff.rfl, fun _ _ => Iff.rfl⟩

end SameTree

theorem PtInv.sameTree (h : PtInv σ) (hs : SameTree σ σ') : PtInv σ' where
  init := (hs.alive _).mpr h.init
  parent p q hp := by
    rw [hs.parent] at hp
    rw [hs.alive, hs.pid, hs.pid]
    exact h.parent p q hp
  orphan p hne hp := by
    rw [hs.parent] at hp
    rw [hs.unused, hs.embryo]
    exact h.orphan p hne hp
  unused p hp := by
    rw [hs.unused] at hp
    rw [hs.parent]
    exact h.unused p hp
  pid_init := by
    rw [hs.pid, hs.parent]
    exact h.pid_init
  pid_pos p hp := by
    rw [Ne, hs.unused] at hp
    rw [hs.pid]
    exact h.pid_pos p hp
  pid_lt p := by
    rw [hs.pid, hs.nextpid]
    exact h.pid_lt p
  pid_inj p q := by
    rw [hs.pid, hs.pid]
    exact h.pid_inj p q
  forks p np hp := by
    rw [hs.forks] at hp
    rw [hs.alive, hs.embryo, hs.pid, hs.pid]
    exact h.forks p np hp
  embryo p np hp := by
    rw [hs.fork] at hp
    rw [hs.parent]
    exact h.embryo p np hp
  forked p np hp := by
    rw [hs.forked] at hp
    rw [hs.parent]
    exact h.forked p np hp
  forks_one p q np hp hq := h.forks_one p q np ((hs.forks p np).mp hp) ((hs.forks q np).mp hq)

/-- Those that sleep in `wait` keep doing so, and no child of theirs exits or is lost. -/
theorem WaitInv.mono (h : WaitInv σ)
    (hsleep : ∀ p q, (σ'.proc p).state = .SLEEPING → (σ'.proc p).chan = some (.proc q) →
      (σ.proc p).state = .SLEEPING ∧ (σ.proc p).chan = some (.proc q) ∧ σ'.pc p = σ.pc p ∧
        (σ'.proc p).killed = (σ.proc p).killed ∧
        (∀ r, (σ.proc r).parent = some p → (σ'.proc r).parent = some p) ∧
        ∀ r, (σ'.proc r).parent = some p → (σ'.proc r).state = .ZOMBIE →
          (σ.proc r).parent = some p ∧ (σ.proc r).state = .ZOMBIE) : WaitInv σ' := by
  intro p q hp hq
  obtain ⟨hp', hq', hpc, hkilled, hkids, hzombie⟩ := hsleep p q hp hq
  obtain ⟨rfl, hwait, hnot, ⟨r, hr⟩, hnone⟩ := h p q hp' hq'
  refine ⟨rfl, hpc.trans hwait, hkilled.trans hnot, ⟨r, hkids r hr⟩, fun r hr hz => ?_⟩
  obtain ⟨hr', hz'⟩ := hzombie r hr hz
  exact hnone r hr' hz'

theorem WaitInv.sameTree (h : WaitInv σ) (hs : SameTree σ σ')
    (hsleep : ∀ p q, (σ'.proc p).state = .SLEEPING → (σ'.proc p).chan = some (.proc q) →
      (σ.proc p).state = .SLEEPING ∧ (σ.proc p).chan = some (.proc q) ∧ σ'.pc p = σ.pc p ∧
        (σ'.proc p).killed = (σ.proc p).killed) : WaitInv σ' := by
  refine h.mono fun p q hp hq => ?_
  obtain ⟨hp', hq', hpc, hkilled⟩ := hsleep p q hp hq
  refine ⟨hp', hq', hpc, hkilled, fun r hr => ?_, fun r hr hz => ?_⟩
  · rw [hs.parent]
    exact hr
  · rw [hs.parent] at hr
    rw [hs.zombie] at hz
    exact ⟨hr, hz⟩

end Jos.Xv6
