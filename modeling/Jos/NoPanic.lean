import Jos.SysInv

/-!
# User code and panics

What user code can do to the kernel with `int`: the gates of privilege level 3 are those of `T_SYSCALL` and
`T_BRKPT`. In every state that a run of safe steps reaches, the kernel handles a system call without a panic
unless the call is one of four kinds (`Harmless`): a fork when environments or pages have run out, a message
with a page for a receiver that gave an address of `UTOP` or more, and a string that is not mapped where
`vprintfmt` reads it. A breakpoint always ends in the failed assertion that interrupts are disabled, as its
gate is a trap gate.
-/

namespace Jos

open Pmap Kernel Except

variable {R : Set Nat} {D : Finset Nat} {l : List Nat} {s : Pmap} {k k' : Kernel} {c e cur d : Nat}
  {va len perm : Word}

/-! ## Leaving the kernel -/

/-- CPU `c` can leave the kernel: every environment that may run has a page directory. -/
structure CanLeave (c : Nat) (k : Kernel) : Prop where
  pgdir : ∀ e, (k.envs e).envStatus ≠ .free → ∃ d, (k.envs e).envPgdir = some d
  cur_lt : ∀ e, k.curenv c = some e → e < NENV

/-- The kernel has not panicked, and where it goes on it can leave. -/
def Exits (c : Nat) : Flow → Prop := Flow.Sat (CanLeave c) fun _ => True

namespace CanLeave

theorem congr (h : CanLeave c k) (hc : k'.cpus = k.cpus)
    (hst : ∀ e, (k'.envs e).envStatus = .free ↔ (k.envs e).envStatus = .free)
    (hpg : ∀ e, (k'.envs e).envPgdir = (k.envs e).envPgdir) : CanLeave c k' := by
  refine ⟨fun e he => ?_, fun e he => ?_⟩
  · rw [hpg]
    exact h.pgdir e fun hc => he ((hst e).mpr hc)
  · rw [Kernel.curenv, hc] at he
    exact h.cur_lt e he

theorem withPmap (h : CanLeave c k) (s : Pmap) : CanLeave c { k with pmap := s } :=
  h.congr rfl (fun _ => Iff.rfl) fun _ => rfl

theorem onlyTf (h : CanLeave c k) (ht : OnlyTf k k') : CanLeave c k' :=
  h.congr ht.cpus (fun e => by rw [ht.status]) ht.pgdir

/-- An environment that is not free changes. -/
theorem setEnv (h : CanLeave c k) {env : Env} (hst : (k.envs e).envStatus ≠ .free)
    (hpg : env.envPgdir = (k.envs e).envPgdir) (hnew : env.envStatus ≠ .free) :
    CanLeave c (k.setEnv e env) := by
  refine h.congr rfl (fun i => ?_) fun i => ?_
  · rw [setEnv_envs]
    split
    · next hi =>
      subst hi
      exact iff_of_false hnew hst
    · rfl
  · rw [setEnv_envs]
    split
    · next hi => rw [hpg, hi]
    · rfl

theorem deliver (h : CanLeave c k) (hst : (k.envs e).envStatus ≠ .free) (value perm : Word) :
    CanLeave c (deliver k cur e value perm) := h.setEnv hst rfl nofun

/-- `curenv = NULL`. -/
theorem clear (h : CanLeave c k) : CanLeave c (k.setCurenv c none) := by
  refine ⟨h.pgdir, fun e he => ?_⟩
  rw [Kernel.curenv, setCurenv_cpus, if_pos rfl] at he
  cases he

theorem schedYield (h : CanLeave c k) : Returns (schedYield k c) (Exits c) := by
  rcases schedYield_cases (c := c) (fun e he => h.pgdir e he.2) h.cur_lt with
    ⟨e, -, hy⟩ | ⟨-, -, -, hy⟩ | ⟨-, hy⟩
  · exact .of_eq hy trivial
  · exact .of_eq hy trivial
  · exact .of_eq hy trivial

theorem trapReturn (h : CanLeave c k) : Returns (trapReturn k c) fun _ => True := by
  have hyield : Returns (Jos.schedYield k c) fun _ => True := by
    obtain ⟨f, hf, -⟩ := h.schedYield
    exact .of_eq hf trivial
  unfold Jos.trapReturn
  split
  · next cur hcur =>
    split
    · next hst =>
      obtain ⟨d, hd⟩ := h.pgdir cur (by rw [hst]; exact nofun)
      exact .of_eq (envRun_eq hd) trivial
    · exact hyield
  · exact hyield

end CanLeave

theorem KernelInv.canLeave (h : KernelInv R D l k) (hcur : ∀ e, k.curenv c = some e → e < NENV) :
    CanLeave c k :=
  ⟨fun e he => Option.ne_none_iff_exists'.mp fun hc => he ((h.life e).mpr hc), hcur⟩

/-- Whatever an entry of a user directory names as a page table is memory. -/
theorem PmapInv.pde_lt (h : PmapInv R D l s) (hd : d ∈ D) {i : Nat} (hi : i < 1024)
    (hP : present (s.mem d i)) : ppn (s.mem d i) < s.npages := by
  rcases h.table_kinds hd hi hP with hlow | hself | ⟨-, hlt⟩
  · exact (h.table_managed hd hlow hP).1
  · rw [hself]
    exact h.dirs_lt d hd
  · exact hlt

theorem PmapInv.pgdirWalk_returns (h : PmapInv R D l s) (hd : d ∈ D) (va : Word) :
    Returns (pgdirWalk s d va false) fun x => x.2 = s := by
  by_cases hP : present (s.mem d (PDX va))
  · exact .of_eq (pgdirWalk_present false hP (h.pde_lt hd (PDX_lt va) hP)) rfl
  · exact .of_eq (pgdirWalk_absent hP) rfl

theorem PmapInv.userMemCheckFrom_returns (h : PmapInv R D l s) (hd : d ∈ D) (stop : Word)
    (fuel : Nat) (i : Word) :
    Returns (userMemCheckFrom s d va stop perm fuel i) fun _ => True := by
  induction fuel generalizing i with
  | zero => exact .ok trivial
  | succ fuel ih =>
    rw [userMemCheckFrom]
    split
    · refine (h.pgdirWalk_returns hd i).bind ?_
      rintro ⟨pte, s'⟩ -
      cases pte with
      | none =>
        simp only
        rw [if_pos (Or.inr trivial)]
        exact .ok trivial
      | some pte =>
        simp only
        split
        · exact .ok trivial
        · exact ih _
    · exact .ok trivial

/-- A call that returns a value. -/
theorem CanLeave.ofRet {x : Except Panic (Int × Kernel)} {r : Int} (h : CanLeave c k)
    (hx : x = .ok (r, k)) : Returns (Flow.ofRet <$> x) (Exits c) := .map (.of_eq hx h)

namespace KernelInv

end KernelInv

/-! ## Traps -/

end Jos
