import Jos.Xv6.PtableSpec
import Mathlib.Logic.Relation

/-!
# What `fork`, `exit`, `wait` and `kill` do over a run

The processes are a tree with init at its root (`proc_tree`), each exit is collected once (`wait_collects`), nobody
sleeps in `wait` for nothing (`wait_wakes`), and a process is killed only by its pid (`killed_by_pid`). The last needs
that `kill` is called with pids of processes: an entry that is not in use has pid 0, or that of a `fork` that failed,
and `kill` finds it too (`kill_unborn`).
-/

namespace Jos.Xv6

open PtState

variable {σ σ' : PtState} {p q np : Fin NPROC} {tr tr' : List PtEvent} {k : Nat}

/-! ## Invariants over runs -/

/-- Who goes to a point of the code, and who was there. -/
theorem goto_pc_eq {pc pc' : ProcPc} (h : (σ.goto q pc).pc p = pc') :
    (p = q ∧ pc = pc') ∨ (p ≠ q ∧ σ.pc p = pc') := by
  rw [goto_pc] at h
  split at h
  · next hp => exact Or.inl ⟨hp, h⟩
  · next hp => exact Or.inr ⟨hp, h⟩

theorem exit_ne_init (h : PtRun tr σ) (hp : σ.pc p = .exit) : p ≠ initproc := by
  induction h generalizing p with
  | start => cases hp
  | step _ hs ih =>
    have hmove : ∀ {σ : PtState} {q : Fin NPROC} {pc : ProcPc}, pc ≠ .exit → (∀ p, σ.pc p = .exit → p ≠ initproc) →
        ∀ p, (σ.goto q pc).pc p = .exit → p ≠ initproc := by
      intro σ q pc hne hσ p hp
      rcases goto_pc_eq hp with ⟨-, hpc⟩ | ⟨-, hpc⟩
      · exact absurd hpc hne
      · exact hσ p hpc
    have hih : ∀ p, _ → p ≠ initproc := fun p hp => ih (p := p) hp
    cases hs with
    | scheduler | yield | sleep | wakeup | waitSleep | kill | trap => exact ih hp
    | allocproc | forkFails | forkCopy | waitCall | wait | waitFails => exact hmove (by rintro ⟨⟩) hih p hp
    | fork => exact hmove (by rintro ⟨⟩) (hmove (by rintro ⟨⟩) hih) p hp
    | exitCall _ hne =>
      rcases goto_pc_eq hp with ⟨rfl, -⟩ | ⟨-, hpc⟩
      · exact hne
      · exact ih hpc
    | exit _ hpc =>
      rw [(exited (ih hpc) _).pc] at hp
      exact ih hp

theorem PtInv.start : PtInv userinit := by
  have hproc : ∀ p, userinit.proc p
      = if p = initproc then ⟨.RUNNABLE, 1, none, none, false⟩ else ⟨.UNUSED, 0, none, none, false⟩ := fun _ => rfl
  have hparent : ∀ p, (userinit.proc p).parent = none := fun p => by
    rw [hproc]
    split <;> rfl
  have hforks : ∀ p np, ¬ userinit.Forks p np := fun p np hf => by rcases hf with hf | hf <;> cases hf
  refine ⟨rfl, fun p q hp => ?_, fun p hp _ => ?_, fun p _ => hparent p, ⟨rfl, rfl⟩, fun p hp => ?_, fun p => ?_,
    fun p q hpq hpos => ?_, fun p np hf => absurd hf (hforks p np), fun p np hf => (by cases hf),
    fun p np hf => (by cases hf), fun p q np hf => absurd hf (hforks p np)⟩
  · rw [hparent] at hp
    cases hp
  · rw [hproc, if_neg hp]
    exact Or.inl rfl
  · rw [hproc] at hp ⊢
    split at hp
    · next h => rw [if_pos h]; exact Nat.one_pos
    · exact absurd rfl hp
  · rw [hproc]
    split <;> decide
  · rw [hproc p] at hpq hpos
    rw [hproc q] at hpq
    split at hpq
    · next hp =>
      split at hpq
      · next hq => rw [hp, hq]
      · cases hpq
    · next hp =>
      rw [if_neg hp] at hpos
      cases hpos

theorem PtInv.run (h : PtRun tr σ) : PtInv σ := by
  induction h with
  | start => exact .start
  | step hrun hs ih => exact ih.step (fun p hp => exit_ne_init hrun hp) hs

theorem WaitInv.run' (h : PtRun tr σ) : WaitInv σ := by
  induction h with
  | start =>
    intro p q hp
    have hp' : (if p = initproc then (⟨.RUNNABLE, 1, none, none, false⟩ : ProcEntry)
      else ⟨.UNUSED, 0, none, none, false⟩).state = .SLEEPING := hp
    split at hp' <;> cases hp'
  | step hrun hs ih => exact ih.step (.run hrun) (fun p hp => exit_ne_init hrun hp) hs

/-- Somebody is in `fork` with each new process. -/
theorem embryo_forks (h : PtRun tr σ) (hm : (σ.proc np).state = .EMBRYO) : ∃ q, σ.Forks q np := by
  induction h generalizing np with
  | start =>
    have hm' : (if np = initproc then (⟨.RUNNABLE, 1, none, none, false⟩ : ProcEntry)
      else ⟨.UNUSED, 0, none, none, false⟩).state = .EMBRYO := hm
    split at hm' <;> cases hm'
  | @step _ _ σ _ hrun hs ih =>
    have hinv := PtInv.run hrun
    -- others go on with the processes that they have
    have hother : ∀ {τ : PtState} {p m : Fin NPROC} {pc : ProcPc}, (σ.proc m).state = .EMBRYO → ¬ σ.Forks p m →
        (∀ q, q ≠ p → (σ.Forks q m → τ.Forks q m)) → ∃ q, (τ.goto p pc).Forks q m := by
      intro τ p m pc hm hp hτ
      obtain ⟨q, hq⟩ := ih hm
      have hqp : q ≠ p := by
        rintro rfl
        exact hp hq
      refine ⟨q, (hτ q hqp hq).imp (fun hf => ?_) fun hf => ?_⟩ <;> rwa [goto_pc, if_neg hqp]
    have hnot : ∀ {p m n : Fin NPROC}, σ.Forks p n → m ≠ n → ¬ σ.Forks p m := by
      rintro p m n (hn | hn) hmn (hm | hm) <;> rw [hn] at hm
      · exact hmn (ProcPc.fork.inj hm).symm
      · cases hm
      · cases hm
      · exact hmn (ProcPc.forked.inj hm).symm
    rcases hs.tree with ⟨hsame, -⟩ | htree
    · obtain ⟨q, hq⟩ := ih ((hsame.embryo np).mp hm)
      exact ⟨q, (hsame.forks q np).mpr hq⟩
    cases htree with
    | @allocproc p n hp hpc _ =>
      by_cases hn : np = n
      · exact ⟨p, Or.inl (by rw [goto_pc, if_pos rfl, hn])⟩
      · have hm' : ((σ.allocproc n).proc np).state = .EMBRYO := hm
        rw [PtState.allocproc, show PtState.proc _ np = (σ.set n _).proc np from rfl, set_proc, if_neg hn] at hm'
        exact hother hm' (not_forks hpc (Or.inl rfl) np) fun _ _ hq => hq
    | @forkFails p n hpc =>
      have hm' : ((σ.setState n .UNUSED).proc np).state = .EMBRYO := hm
      rw [setState, set_proc] at hm'
      split at hm'
      · cases hm'
      · next hn => exact hother hm' (hnot (Or.inl hpc) hn) fun _ _ hq => hq
    | @forkCopy p n hpc =>
      by_cases hn : np = n
      · exact ⟨p, Or.inr (by rw [goto_pc, if_pos rfl, hn])⟩
      · have hm' : ((σ.set n { σ.proc n with parent := some p }).proc np).state = .EMBRYO := hm
        rw [set_proc, if_neg hn] at hm'
        exact hother hm' (hnot (Or.inl hpc) hn) fun _ _ hq => hq
    | @fork p n hpc =>
      have hm' : ((σ.setState n .RUNNABLE).proc np).state = .EMBRYO := hm
      rw [setState, set_proc] at hm'
      split at hm'
      · cases hm'
      · next hn =>
        refine hother hm' (hnot (Or.inr hpc) hn) fun q _ hq => ?_
        have hqn : q ≠ n := by
          rintro rfl
          exact not_alive_of (Or.inr (Or.inl (hinv.forks p q (Or.inr hpc)).2.1)) (hinv.forks q np hq).1
        exact hq.imp (fun hf => by rwa [goto_pc, if_neg hqn]) fun hf => by rwa [goto_pc, if_neg hqn]
    | @exit p hp hpc =>
      have he := exited (exit_ne_init hrun hpc) σ
      have hne : np ≠ p := by
        rintro rfl
        rw [he.zombie] at hm
        cases hm
      rw [← kind_embryo, he.kind np hne, kind_embryo] at hm
      obtain ⟨q, hq⟩ := ih hm
      refine ⟨q, ?_⟩
      unfold PtState.Forks
      rwa [he.pc]
    | @wait p q hpc _ =>
      have hm' : ((σ.reap q).proc np).state = .EMBRYO := hm
      rw [reap, set_proc] at hm'
      split at hm'
      · cases hm'
      · exact hother hm' (not_forks hpc (Or.inr (Or.inr rfl)) np) fun _ _ hq => hq

/-! ## A `fork` that is not interrupted -/

/-- After a `fork` of process `p` into entry `np`. -/
def PtState.forkAll (σ : PtState) (p np : Fin NPROC) : PtState :=
  let σ := (σ.allocproc np).goto p (.fork np)
  let σ := (σ.set np { σ.proc np with parent := some p }).goto p (.forked np)
  ((σ.setState np .RUNNABLE).goto np .user).goto p .user

theorem forkAll_proc (σ : PtState) (p np q : Fin NPROC) : (σ.forkAll p np).proc q
    = if q = np then { σ.proc np with state := .RUNNABLE, pid := σ.nextpid, parent := some p } else σ.proc q := by
  unfold forkAll allocproc setState
  show (PtState.set _ _ _).proc q = _
  rw [set_proc]
  split
  · next hq =>
    subst hq
    show ({ (PtState.set _ _ _).proc q with state := .RUNNABLE } : ProcEntry) = _
    rw [set_proc, if_pos rfl]
    show ({ (PtState.set _ _ _).proc q with parent := some p, state := .RUNNABLE } : ProcEntry) = _
    rw [set_proc, if_pos rfl]
  · next hq =>
    show (PtState.set _ _ _).proc q = _
    rw [set_proc, if_neg hq]
    show (PtState.set _ _ _).proc q = _
    rw [set_proc, if_neg hq]

theorem PtRun.forkAll (h : PtRun tr σ) (hp : σ.RunsUser p) (hnp : σ.unused = some np) (hnext : σ.nextpid < INT_MAX) :
    PtRun (tr ++ [.fork σ.nextpid]) (σ.forkAll p np) := by
  have hne : p ≠ np := by
    rintro rfl
    have hstate := state_of_unused hnp
    rw [hp.1] at hstate
    cases hstate
  have hrun : ∀ e : ProcEntry, ((σ.set np e).proc p).state = .RUNNING := fun e => by
    rw [set_proc, if_neg hne]
    exact hp.1
  have h₁ := h.step (.allocproc hp hnp hnext)
  have h₂ := h₁.step (.forkCopy (hrun _) (by rw [goto_pc, if_pos rfl]))
  have h₃ := h₂.step (.fork (p := p) (by
    show (PtState.proc (PtState.set _ _ _) p).state = .RUNNING
    rw [set_proc, if_neg hne]
    exact hrun _) (by rw [goto_pc, if_pos rfl]))
  have hpid : (PtState.proc (PtState.goto (PtState.set ((σ.allocproc np).goto p (.fork np)) np
      { ((σ.allocproc np).goto p (.fork np)).proc np with parent := some p }) p (.forked np)) np).pid
      = σ.nextpid := by
    show (PtState.proc (PtState.set _ _ _) np).pid = σ.nextpid
    rw [set_proc, if_pos rfl]
    show (PtState.proc (PtState.set _ _ _) np).pid = σ.nextpid
    rw [set_proc, if_pos rfl]
  rw [hpid, List.append_nil, List.append_nil] at h₃
  exact h₃

/-- Init waits for its first child. -/
def waitingInit : PtState :=
  (((userinit.setState initproc .RUNNING).forkAll initproc ⟨1, by decide⟩).goto initproc .wait).sleep initproc
    (.proc initproc)

theorem waitingInit_run : PtRun [.fork 1, .fork 2] waitingInit := by
  have h₁ := PtRun.start.step (.scheduler (p := initproc) rfl)
  have hnp : (userinit.setState initproc .RUNNING).unused = some ⟨1, by decide⟩ := by decide
  have h₂ := h₁.forkAll (p := initproc) ⟨rfl, rfl⟩ hnp (by decide)
  have h₃ := h₂.step (.waitCall (p := initproc) ⟨by rw [forkAll_proc]; rfl, rfl⟩)
  have h₄ := h₃.step (.waitSleep (p := initproc) (by decide) rfl (by decide) ⟨⟨1, by decide⟩, by decide⟩ (by decide))
  exact h₄

/-! ## The tree of processes -/

/-- The process can run, has run or is running: `fork` has returned it. -/
def PtState.IsProc (σ : PtState) (p : Fin NPROC) : Prop :=
  (σ.proc p).state ≠ .UNUSED ∧ (σ.proc p).state ≠ .EMBRYO

/-- In every run of any processes, init never exits and all processes descend from it: each has a parent that has not
exited, and the parents lead to init. No two have the same pid. -/
theorem proc_tree (h : PtRun tr σ) :
    σ.Alive initproc ∧ ∀ p, σ.IsProc p →
      (p ≠ initproc → ∃ q, (σ.proc p).parent = some q ∧ σ.Alive q) ∧
      Relation.ReflTransGen (fun p q => (σ.proc p).parent = some q) p initproc ∧
      ∀ q, σ.IsProc q → (σ.proc q).pid = (σ.proc p).pid → q = p := by
  have hinv := PtInv.run h
  have hparent : ∀ p, σ.IsProc p → p ≠ initproc →
      ∃ q, (σ.proc p).parent = some q ∧ σ.Alive q ∧ (σ.proc q).pid < (σ.proc p).pid := by
    intro p hp hne
    cases hq : (σ.proc p).parent with
    | none => exact ((hinv.orphan p hne hq).elim hp.1 hp.2).elim
    | some q => exact ⟨q, rfl, hinv.parent p q hq⟩
  have halive : ∀ q, σ.Alive q → σ.IsProc q := fun q hq =>
    ⟨fun hc => not_alive_of (Or.inl hc) hq, fun hc => not_alive_of (Or.inr (Or.inl hc)) hq⟩
  refine ⟨hinv.init, fun p hp => ⟨fun hne => ?_, ?_, fun q hq hpid => ?_⟩⟩
  · obtain ⟨q, hq, halive, -⟩ := hparent p hp hne
    exact ⟨q, hq, halive⟩
  · -- parents are older
    obtain ⟨n, hn⟩ : ∃ n, (σ.proc p).pid = n := ⟨_, rfl⟩
    induction n using Nat.strong_induction_on generalizing p with
    | _ n ih =>
      by_cases hne : p = initproc
      · rw [hne]
      · obtain ⟨q, hq, hqalive, hlt⟩ := hparent p hp hne
        exact .head hq (ih _ (hn ▸ hlt) q (halive q hqalive) rfl)
  · exact hinv.pid_inj q p hpid (hinv.pid_pos q hq.1)

theorem proc_tree_waitingInit :
    waitingInit.Alive initproc ∧ ∀ p, waitingInit.IsProc p →
      (p ≠ initproc → ∃ q, (waitingInit.proc p).parent = some q ∧ waitingInit.Alive q) ∧
      Relation.ReflTransGen (fun p q => (waitingInit.proc p).parent = some q) p initproc ∧
      ∀ q, waitingInit.IsProc q → (waitingInit.proc q).pid = (waitingInit.proc p).pid → q = p :=
  proc_tree waitingInit_run

/-! ## `wait` -/

/-- No wakeup of a process in `wait` is lost: one that sleeps there has not been killed, and has children, none of
which has exited. -/
theorem wait_wakes (h : PtRun tr σ) (hs : (σ.proc p).state = .SLEEPING)
    (hc : (σ.proc p).chan = some (.proc q)) :
    q = p ∧ σ.pc p = .wait ∧ (σ.proc p).killed = false ∧ (∃ r, (σ.proc r).parent = some p) ∧
      ∀ r, (σ.proc r).parent = some p → σ.Alive r := by
  obtain ⟨rfl, hpc, hkilled, hkids, hnone⟩ := WaitInv.run' h p q hs hc
  have hinv := PtInv.run h
  refine ⟨rfl, hpc, hkilled, hkids, fun r hr => ?_⟩
  unfold PtState.Alive
  cases hstate : (σ.proc r).state with
  | UNUSED =>
    rw [hinv.unused r hstate] at hr
    cases hr
  | EMBRYO =>
    -- its parent is in `fork`
    obtain ⟨p, hp | hp⟩ := embryo_forks h hstate
    · rw [hinv.embryo p r hp] at hr
      cases hr
    · rw [hinv.forked p r hp] at hr
      obtain rfl := Option.some.inj hr
      rw [hp] at hpc
      cases hpc
  | ZOMBIE => exact absurd hstate (hnone r hr)
  | SLEEPING | RUNNABLE | RUNNING => rfl

theorem wait_wakes_waitingInit :
    initproc = initproc ∧ waitingInit.pc initproc = .wait ∧ (waitingInit.proc initproc).killed = false ∧
      (∃ r, (waitingInit.proc r).parent = some initproc) ∧
      ∀ r, (waitingInit.proc r).parent = some initproc → waitingInit.Alive r :=
  wait_wakes waitingInit_run (by decide) (by decide)

/-- How many entries of kind `s` have pid `k`: one or none. -/
def PtState.number (σ : PtState) (s : ProcState) (k : Nat) : Nat :=
  if ∃ p, (σ.proc p).state.kind = s ∧ (σ.proc p).pid = k then 1 else 0

theorem number_congr {s : ProcState}
    (h : ∀ p, (σ'.proc p).state.kind = s ∧ (σ'.proc p).pid = k ↔ (σ.proc p).state.kind = s ∧ (σ.proc p).pid = k) :
    σ'.number s k = σ.number s k := if_congr (exists_congr h) rfl rfl

/-- An entry that is the only one with its pid goes from one kind to another. -/
theorem number_move {s : ProcState} (hother : ∀ q, q ≠ p → (σ'.proc q).state.kind = (σ.proc q).state.kind ∧
      (σ'.proc q).pid = (σ.proc q).pid)
    (hpid : (σ'.proc p).state.kind = s → (σ'.proc p).pid = (σ.proc p).pid)
    (hone : ∀ q, (σ.proc q).pid = (σ.proc p).pid → q = p) (k : Nat) :
    σ'.number s k + (if (σ.proc p).state.kind = s ∧ (σ.proc p).pid = k then 1 else 0)
      = σ.number s k + (if (σ'.proc p).state.kind = s ∧ (σ.proc p).pid = k then 1 else 0) := by
  by_cases hk : (σ.proc p).pid = k
  · have hiff : ∀ {τ : PtState}, (∀ q, q ≠ p → (τ.proc q).pid = (σ.proc q).pid) →
        ((τ.proc p).state.kind = s → (τ.proc p).pid = (σ.proc p).pid) →
        τ.number s k = if (τ.proc p).state.kind = s then 1 else 0 := by
      intro τ hτ hp
      refine if_congr ⟨?_, fun hs => ⟨p, hs, (hp hs).trans hk⟩⟩ rfl rfl
      rintro ⟨q, hq, hqk⟩
      by_cases hqp : q = p
      · exact hqp ▸ hq
      · rw [hτ q hqp, ← hk] at hqk
        exact absurd (hone q hqk) hqp
    rw [hiff (fun q hq => (hother q hq).2) hpid, hiff (fun _ _ => rfl) fun _ => rfl]
    simp only [hk, and_true]
    omega
  · rw [if_neg fun hc => hk hc.2, if_neg fun hc => hk hc.2]
    refine congrArg (· + 0) (number_congr fun q => ?_)
    by_cases hqp : q = p
    · subst hqp
      refine iff_of_false ?_ fun hc => hk hc.2
      rintro ⟨hs, hqk⟩
      exact hk ((hpid hs).symm.trans hqk)
    · rw [(hother q hqp).1, (hother q hqp).2]

/-- What has been forked, has exited and has been waited for. -/
structure Collected (tr : List PtEvent) (σ : PtState) : Prop where
  fork_lt : ∀ k, .fork k ∈ tr → k < σ.nextpid
  embryo : ∀ p, (σ.proc p).state = .EMBRYO → .fork (σ.proc p).pid ∉ tr
  fork_one : ∀ k, tr.count (.fork k) ≤ 1
  alive : ∀ k, tr.count (.fork k) = tr.count (.exit k) + σ.number .RUNNING k
  zombie : ∀ k, tr.count (.exit k) = tr.count (.wait k) + σ.number .ZOMBIE k

namespace Collected

/-- A step that forks nothing, or the new process. -/
theorem of_counts (h : Collected tr σ) (hnext : σ.nextpid ≤ σ'.nextpid)
    (hembryo : ∀ p, (σ'.proc p).state = .EMBRYO → .fork (σ'.proc p).pid ∉ tr')
    (hnew : ∀ p, (σ'.proc p).state = .EMBRYO →
      ((σ.proc p).state = .EMBRYO ∧ (σ'.proc p).pid = (σ.proc p).pid) ∨ σ.nextpid ≤ (σ'.proc p).pid)
    (hfork : ∀ k, .fork k ∈ tr' → .fork k ∉ tr ∧ k < σ'.nextpid) (hone : ∀ k, tr'.count (.fork k) ≤ 1)
    (halive : ∀ k, σ.number .RUNNING k + tr'.count (.fork k) = tr'.count (.exit k) + σ'.number .RUNNING k)
    (hzombie : ∀ k, σ.number .ZOMBIE k + tr'.count (.exit k) = tr'.count (.wait k) + σ'.number .ZOMBIE k) :
    Collected (tr ++ tr') σ' := by
  refine ⟨fun k hk => ?_, fun p hp hk => ?_, fun k => ?_, fun k => ?_, fun k => ?_⟩
  · rcases List.mem_append.mp hk with hk | hk
    · exact (h.fork_lt k hk).trans_le hnext
    · exact (hfork k hk).2
  · rcases List.mem_append.mp hk with hk | hk
    · rcases hnew p hp with ⟨hold, hpid⟩ | hlt
      · rw [hpid] at hk
        exact h.embryo p hold hk
      · exact absurd (h.fork_lt _ hk) (Nat.not_lt.mpr hlt)
    · exact hembryo p hp hk
  · rw [List.count_append]
    by_cases hk : .fork k ∈ tr'
    · rw [List.count_eq_zero.mpr (hfork k hk).1]
      have := hone k
      omega
    · rw [List.count_eq_zero.mpr hk]
      exact h.fork_one k
  · have := h.alive k
    have := halive k
    rw [List.count_append, List.count_append]
    omega
  · have := h.zombie k
    have := hzombie k
    rw [List.count_append, List.count_append]
    omega

/-- A step that shows neither `fork` nor `exit` nor `wait`. -/
theorem quiet (h : Collected tr σ) (htr : ∀ e ∈ tr', ∃ k, e = .kill k ∨ e = .forkFails k)
    (hnext : σ.nextpid ≤ σ'.nextpid)
    (hnew : ∀ p, (σ'.proc p).state = .EMBRYO →
      ((σ.proc p).state = .EMBRYO ∧ (σ'.proc p).pid = (σ.proc p).pid) ∨ σ.nextpid ≤ (σ'.proc p).pid)
    (hsame : ∀ s, s = .RUNNING ∨ s = .ZOMBIE → ∀ p k, (σ'.proc p).state.kind = s ∧ (σ'.proc p).pid = k ↔
      (σ.proc p).state.kind = s ∧ (σ.proc p).pid = k) : Collected (tr ++ tr') σ' := by
  have hnone : ∀ e, (∀ k, e ≠ .kill k) → (∀ k, e ≠ .forkFails k) → e ∉ tr' := by
    intro e hk hf he
    obtain ⟨k, rfl | rfl⟩ := htr e he
    · exact hk k rfl
    · exact hf k rfl
  have hfork : ∀ k, .fork k ∉ tr' := fun k => hnone _ (by rintro _ ⟨⟩) (by rintro _ ⟨⟩)
  have hexit : ∀ k, .exit k ∉ tr' := fun k => hnone _ (by rintro _ ⟨⟩) (by rintro _ ⟨⟩)
  have hwait : ∀ k, .wait k ∉ tr' := fun k => hnone _ (by rintro _ ⟨⟩) (by rintro _ ⟨⟩)
  refine h.of_counts hnext (fun p _ => hfork _) hnew (fun k hk => absurd hk (hfork k)) (fun k => ?_) (fun k => ?_)
    fun k => ?_
  · rw [List.count_eq_zero.mpr (hfork k)]
    exact Nat.zero_le 1
  · rw [List.count_eq_zero.mpr (hfork k), List.count_eq_zero.mpr (hexit k),
      number_congr fun p => hsame _ (Or.inl rfl) p k, Nat.add_comm]
  · rw [List.count_eq_zero.mpr (hexit k), List.count_eq_zero.mpr (hwait k),
      number_congr fun p => hsame _ (Or.inr rfl) p k, Nat.add_comm]

theorem count_event {e : Nat → PtEvent} (he : Function.Injective e) (m k : Nat) :
    [e m].count (e k) = if m = k then 1 else 0 := by
  rw [List.count_singleton]
  exact if_congr (beq_iff_eq.trans he.eq_iff) rfl rfl

theorem step (h : Collected tr σ) (hinv : PtInv σ) (hexit : ∀ p, σ.pc p = .exit → p ≠ initproc)
    (hs : PtStep σ tr' σ') : Collected (tr ++ tr') σ' := by
  have hzero : ∀ {e : PtEvent} {l : List PtEvent}, e ∉ l → l.count e = 0 := List.count_eq_zero.mpr
  rcases hs.tree with ⟨hsame, htr, -⟩ | htree
  · refine h.quiet (fun e he => ?_) hsame.nextpid.ge (fun p hp => ?_) fun s _ p k => ?_
    · obtain ⟨k, hk⟩ := htr e he
      exact ⟨k, Or.inl hk⟩
    · exact Or.inl ⟨(hsame.embryo p).mp hp, hsame.pid p⟩
    · rw [hsame.kind, hsame.pid]
  cases htree with
  | @allocproc p np _ _ hnp =>
    have hproc : ∀ q, ((σ.allocproc np).goto p (.fork np)).proc q
        = if q = np then { σ.proc np with state := .EMBRYO, pid := σ.nextpid } else σ.proc q := fun q =>
      set_proc σ np q _
    refine h.quiet (fun e he => (by cases he)) (Nat.le_succ _) (fun q hq => ?_) fun s hs q k => ?_
    · rw [hproc] at hq ⊢
      split at hq
      · next hqn =>
        rw [if_pos hqn]
        exact Or.inr le_rfl
      · next hqn =>
        rw [if_neg hqn]
        exact Or.inl ⟨hq, rfl⟩
    · rw [hproc]
      split
      · next hqn =>
        rw [hqn, hnp]
        refine iff_of_false ?_ ?_ <;> rcases hs with rfl | rfl <;> rintro ⟨⟨⟩, -⟩
      · exact Iff.rfl
  | @forkFails p np hpc =>
    have hembryo := (hinv.forks p np (Or.inl hpc)).2.1
    have hproc : ∀ q, ((σ.setState np .UNUSED).goto p .user).proc q
        = if q = np then { σ.proc np with state := .UNUSED } else σ.proc q := fun q => set_proc σ np q _
    refine h.quiet (fun e he => ⟨_, Or.inr (List.mem_singleton.mp he)⟩) le_rfl (fun q hq => ?_) fun s hs q k => ?_
    · rw [hproc] at hq ⊢
      split at hq
      · cases hq
      · next hqn =>
        rw [if_neg hqn]
        exact Or.inl ⟨hq, rfl⟩
    · rw [hproc]
      split
      · next hqn =>
        rw [hqn, hembryo]
        refine iff_of_false ?_ ?_ <;> rcases hs with rfl | rfl <;> rintro ⟨⟨⟩, -⟩
      · exact Iff.rfl
  | @forkCopy p np hpc =>
    have hpid : ∀ q, ((σ.set np { σ.proc np with parent := some p }).proc q).pid = (σ.proc q).pid :=
      set_field (·.pid) rfl
    have hstate : ∀ q, ((σ.set np { σ.proc np with parent := some p }).proc q).state = (σ.proc q).state :=
      set_field (·.state) rfl
    refine h.quiet (fun e he => (by cases he)) le_rfl (fun q hq => Or.inl ⟨(hstate q).symm.trans hq, hpid q⟩)
      fun s _ q k => ?_
    exact and_congr (by rw [← hstate q]; rfl) (by rw [← hpid q]; rfl)
  | @fork p np hpc =>
    obtain ⟨-, hembryo, hlt⟩ := hinv.forks p np (Or.inr hpc)
    have hone : ∀ q, (σ.proc q).pid = (σ.proc np).pid → q = np := fun q hq =>
      hinv.pid_inj q np hq (hq ▸ Nat.zero_lt_of_lt hlt)
    have hproc : ∀ q, (((σ.setState np .RUNNABLE).goto np .user).goto p .user).proc q
        = if q = np then { σ.proc np with state := .RUNNABLE } else σ.proc q := fun q => set_proc σ np q _
    have hnext : (((σ.setState np .RUNNABLE).goto np .user).goto p .user).nextpid = σ.nextpid := rfl
    generalize ((σ.setState np .RUNNABLE).goto np .user).goto p .user = τ at hproc hnext ⊢
    have hnp : τ.proc np = { σ.proc np with state := .RUNNABLE } := by rw [hproc, if_pos rfl]
    have hother : ∀ q, q ≠ np → τ.proc q = σ.proc q := fun q hq => by rw [hproc, if_neg hq]
    have hmove : ∀ s k, _ := fun s k => number_move (s := s)
      (fun q hq => ⟨congrArg (·.state.kind) (hother q hq), congrArg (·.pid) (hother q hq)⟩)
      (fun _ => congrArg (·.pid) hnp) hone k
    have hne : ∀ q, (τ.proc q).state = .EMBRYO → q ≠ np := by
      rintro q hq rfl
      rw [hnp] at hq
      cases hq
    refine h.of_counts hnext.ge (fun q hq hf => ?_) (fun q hq => ?_) (fun k hk => ?_) (fun k => ?_) (fun k => ?_)
      fun k => ?_
    · have hqnp := PtEvent.fork.inj (List.mem_singleton.mp hf)
      rw [hother q (hne q hq)] at hqnp
      exact hne q hq (hone q hqnp)
    · have hold := hother q (hne q hq)
      rw [hold] at hq ⊢
      exact Or.inl ⟨hq, rfl⟩
    · obtain rfl := PtEvent.fork.inj (List.mem_singleton.mp hk)
      rw [hnext]
      exact ⟨h.embryo np hembryo, hinv.pid_lt np⟩
    · rw [count_event fun _ _ => PtEvent.fork.inj]
      split <;> omega
    · have hk := hmove .RUNNING k
      rw [hnp, hembryo] at hk
      rw [count_event fun _ _ => PtEvent.fork.inj, hzero (by simp)]
      simp only [ProcState.kind, reduceCtorEq, false_and, true_and, if_false] at hk
      omega
    · have hk := hmove .ZOMBIE k
      rw [hnp, hembryo] at hk
      rw [hzero (by simp), hzero (by simp)]
      simp only [ProcState.kind, reduceCtorEq, false_and, if_false] at hk
      omega
  | @exit p hp hpc =>
    have he := exited (hexit p hpc) σ
    have hpos := hinv.pid_pos p (by rw [hp]; rintro ⟨⟩)
    have hone : ∀ q, (σ.proc q).pid = (σ.proc p).pid → q = p := fun q hq => hinv.pid_inj q p hq (hq ▸ hpos)
    generalize σ.exit p = τ at he ⊢
    have hmove : ∀ s k, _ := fun s k => number_move (s := s) (fun q hq => ⟨he.kind q hq, he.pid q⟩)
      (fun _ => he.pid p) hone k
    have hembryo : ∀ q, (τ.proc q).state = .EMBRYO → (σ.proc q).state = .EMBRYO := by
      intro q hq
      by_cases hqp : q = p
      · rw [hqp, he.zombie] at hq
        cases hq
      · rwa [← kind_embryo, ← he.kind q hqp, kind_embryo]
    refine h.of_counts he.nextpid.ge (fun _ _ => by simp) (fun q hq => Or.inl ⟨hembryo q hq, he.pid q⟩)
      (fun k hk => absurd hk (by simp)) (fun k => ?_) (fun k => ?_) fun k => ?_
    · rw [hzero (by simp)]
      exact Nat.zero_le 1
    · have hk := hmove .RUNNING k
      rw [he.zombie, hp] at hk
      rw [count_event fun _ _ => PtEvent.exit.inj, hzero (by simp)]
      simp only [ProcState.kind, reduceCtorEq, false_and, true_and, if_false] at hk
      omega
    · have hk := hmove .ZOMBIE k
      rw [he.zombie, hp] at hk
      rw [count_event fun _ _ => PtEvent.exit.inj, hzero (by simp)]
      simp only [ProcState.kind, reduceCtorEq, false_and, true_and, if_false] at hk
      omega
  | @wait p x _ hx =>
    have hpos := hinv.pid_pos x (by rw [hx]; rintro ⟨⟩)
    have hone : ∀ q, (σ.proc q).pid = (σ.proc x).pid → q = x := fun q hq => hinv.pid_inj q x hq (hq ▸ hpos)
    have hproc : ∀ q, ((σ.reap x).goto p .user).proc q
        = if q = x then { σ.proc x with pid := 0, parent := none, killed := false, state := .UNUSED } else σ.proc q :=
      fun q => set_proc σ x q _
    have hnext : ((σ.reap x).goto p .user).nextpid = σ.nextpid := rfl
    generalize (σ.reap x).goto p .user = τ at hproc hnext ⊢
    have hunused : (τ.proc x).state = .UNUSED := by rw [hproc, if_pos rfl]
    have hother : ∀ q, q ≠ x → τ.proc q = σ.proc q := fun q hq => by rw [hproc, if_neg hq]
    have hmove : ∀ s : ProcState, s ≠ .UNUSED → ∀ k, _ := fun s hs k => number_move (s := s)
      (fun q hq => ⟨congrArg (·.state.kind) (hother q hq), congrArg (·.pid) (hother q hq)⟩)
      (fun hc => by rw [hunused] at hc; exact absurd hc.symm hs) hone k
    refine h.of_counts hnext.ge (fun _ _ => by simp) (fun q hq => ?_) (fun k hk => absurd hk (by simp)) (fun k => ?_)
      (fun k => ?_) fun k => ?_
    · have hqx : q ≠ x := by
        rintro rfl
        rw [hunused] at hq
        cases hq
      rw [hother q hqx] at hq ⊢
      exact Or.inl ⟨hq, rfl⟩
    · rw [hzero (by simp)]
      exact Nat.zero_le 1
    · have hk := hmove .RUNNING (by rintro ⟨⟩) k
      rw [hunused, hx] at hk
      rw [hzero (by simp), hzero (by simp)]
      simp only [ProcState.kind, reduceCtorEq, false_and, if_false] at hk
      omega
    · have hk := hmove .ZOMBIE (by rintro ⟨⟩) k
      rw [hunused, hx] at hk
      rw [count_event fun _ _ => PtEvent.wait.inj, hzero (by simp)]
      simp only [ProcState.kind, reduceCtorEq, false_and, true_and, if_false] at hk
      omega

theorem run (h : PtRun tr σ) : Collected tr σ := by
  induction h with
  | start =>
    have hproc : ∀ p, userinit.proc p
        = if p = initproc then ⟨.RUNNABLE, 1, none, none, false⟩ else ⟨.UNUSED, 0, none, none, false⟩ := fun _ => rfl
    refine ⟨fun k hk => ?_, fun p hp => ?_, fun k => ?_, fun k => ?_, fun k => ?_⟩
    · obtain rfl := PtEvent.fork.inj (List.mem_singleton.mp hk)
      decide
    · rw [hproc] at hp
      split at hp <;> cases hp
    · exact List.count_le_length
    · rw [count_event fun _ _ => PtEvent.fork.inj, List.count_eq_zero.mpr (by simp), Nat.zero_add]
      refine if_congr ⟨fun hk => ⟨initproc, rfl, hk⟩, ?_⟩ rfl rfl
      rintro ⟨p, hp, hk⟩
      rw [hproc] at hp hk
      split at hp
      · next hinit => rwa [if_pos hinit] at hk
      · cases hp
    · rw [List.count_eq_zero.mpr (by simp), List.count_eq_zero.mpr (by simp), Nat.zero_add]
      refine (if_neg ?_).symm
      rintro ⟨p, hp, -⟩
      rw [hproc] at hp
      split at hp <;> cases hp
  | step hrun hs ih => exact ih.step (.run hrun) (fun p hp => exit_ne_init hrun hp) hs

end Collected

/-- Every process that is forked is collected once: a pid is forked once at most, and has exited if and only if no
process that is running has it, and has been waited for if and only if no zombie has it either. -/
theorem wait_collects (h : PtRun tr σ) (k : Nat) :
    tr.count (.fork k) ≤ 1 ∧
    tr.count (.fork k) = tr.count (.exit k) + (if ∃ p, σ.Alive p ∧ (σ.proc p).pid = k then 1 else 0) ∧
    tr.count (.exit k)
      = tr.count (.wait k) + if ∃ p, (σ.proc p).state = .ZOMBIE ∧ (σ.proc p).pid = k then 1 else 0 := by
  have hc := Collected.run h
  refine ⟨hc.fork_one k, hc.alive k, (hc.zombie k).trans (congrArg _ (if_congr (exists_congr fun p => ?_) rfl rfl))⟩
  rw [kind_zombie]

theorem wait_collects_waitingInit :
    [PtEvent.fork 1, .fork 2].count (.fork 2) ≤ 1 ∧
    [PtEvent.fork 1, .fork 2].count (.fork 2) = [PtEvent.fork 1, .fork 2].count (.exit 2)
      + (if ∃ p, waitingInit.Alive p ∧ (waitingInit.proc p).pid = 2 then 1 else 0) ∧
    [PtEvent.fork 1, .fork 2].count (.exit 2) = [PtEvent.fork 1, .fork 2].count (.wait 2)
      + if ∃ p, (waitingInit.proc p).state = .ZOMBIE ∧ (waitingInit.proc p).pid = 2 then 1 else 0 :=
  wait_collects waitingInit_run 2

/-! ## `kill` -/

/-- Entries that are not in use have no pid that `kill` is called with. -/
structure KillInv (tr : List PtEvent) (σ : PtState) : Prop where
  unused : ∀ p, (σ.proc p).state = .UNUSED → (σ.proc p).pid = 0 ∨ .forkFails (σ.proc p).pid ∈ tr
  killed : ∀ p, (σ.proc p).killed = true → (σ.proc p).state ≠ .UNUSED ∧ .kill (σ.proc p).pid ∈ tr

theorem KillInv.step (h : KillInv tr σ) (hexit : ∀ p, σ.pc p = .exit → p ≠ initproc)
    (hzero : .kill 0 ∉ tr ++ tr') (hfails : ∀ k, .forkFails k ∈ tr ++ tr' → .kill k ∉ tr ++ tr')
    (hs : PtStep σ tr' σ') : KillInv (tr ++ tr') σ' := by
  have hunused : ∀ p, (σ.proc p).state = .UNUSED → (σ.proc p).pid = 0 ∨ .forkFails (σ.proc p).pid ∈ tr ++ tr' :=
    fun p hp => (h.unused p hp).imp_right (List.mem_append_left _)
  have hkilled : ∀ p, (σ.proc p).killed = true → (σ.proc p).state ≠ .UNUSED ∧ .kill (σ.proc p).pid ∈ tr ++ tr' :=
    fun p hp => (h.killed p hp).imp_right (List.mem_append_left _)
  rcases hs.tree with ⟨hsame, -, hkill⟩ | htree
  · refine ⟨fun p hp => ?_, fun p hp => ?_⟩
    · rw [hsame.unused] at hp
      rw [hsame.pid]
      exact hunused p hp
    · rw [Ne, hsame.unused, hsame.pid]
      rcases hkill p hp with hold | hk
      · exact hkilled p hold
      · have hk' := List.mem_append_right tr hk
        refine ⟨fun hc => ?_, hk'⟩
        rcases hunused p hc with hpid | hf
        · exact hzero (hpid ▸ hk')
        · exact hfails _ hf hk'
  -- the entry of a child changes, or those of a process that exits and of its children
  have hset : ∀ {x : Fin NPROC} {e : ProcEntry} {pc : Fin NPROC → ProcPc} {n : Nat},
      (e.state = .UNUSED → e.pid = 0 ∨ .forkFails e.pid ∈ tr ++ tr') →
      (e.killed = true → e.state ≠ .UNUSED ∧ .kill e.pid ∈ tr ++ tr') →
      KillInv (tr ++ tr') ⟨Function.update σ.proc x e, pc, n⟩ := by
    intro x e pc n hu hk
    refine ⟨fun q hq => ?_, fun q hq => ?_⟩
    · have hproc : Function.update σ.proc x e q = if q = x then e else σ.proc q := Function.update_apply ..
      have hq' : (Function.update σ.proc x e q).state = .UNUSED := hq
      show (Function.update σ.proc x e q).pid = 0 ∨ PtEvent.forkFails (Function.update σ.proc x e q).pid ∈ tr ++ tr'
      rw [hproc] at hq' ⊢
      split at hq' <;> rename_i hqx
      · rw [if_pos hqx]
        exact hu hq'
      · rw [if_neg hqx]
        exact hunused q hq'
    · have hproc : Function.update σ.proc x e q = if q = x then e else σ.proc q := Function.update_apply ..
      have hq' : (Function.update σ.proc x e q).killed = true := hq
      show (Function.update σ.proc x e q).state ≠ .UNUSED ∧
        PtEvent.kill (Function.update σ.proc x e q).pid ∈ tr ++ tr'
      rw [hproc] at hq' ⊢
      split at hq' <;> rename_i hqx
      · rw [if_pos hqx]
        exact hk hq'
      · rw [if_neg hqx]
        exact hkilled q hq'
  cases htree with
  | @allocproc p np _ _ hnp => exact hset (fun hc => (by cases hc)) fun hk => absurd hnp (h.killed np hk).1
  | @forkFails p np hpc =>
    have hmem : PtEvent.forkFails (σ.proc np).pid ∈ tr ++ [.forkFails (σ.proc np).pid] :=
      List.mem_append_right tr (List.mem_singleton.mpr rfl)
    exact hset (fun _ => Or.inr hmem) fun hk => absurd (hkilled np hk).2 (hfails _ hmem)
  | @forkCopy p np hpc => exact hset (hunused np) (hkilled np)
  | @fork p np hpc => exact hset (fun hc => (by cases hc)) fun hk => ⟨by rintro ⟨⟩, (hkilled np hk).2⟩
  | @exit p hp hpc =>
    have he := exited (hexit p hpc) σ
    have hstate : ∀ q, ((σ.exit p).proc q).state = .UNUSED ↔ (σ.proc q).state = .UNUSED := by
      intro q
      by_cases hqp : q = p
      · rw [hqp, he.zombie, hp]
        exact iff_of_false (by rintro ⟨⟩) (by rintro ⟨⟩)
      · rw [← kind_unused, he.kind q hqp, kind_unused]
    refine ⟨fun q hq => ?_, fun q hq => ?_⟩
    · rw [he.pid]
      exact hunused q ((hstate q).mp hq)
    · rw [he.killed] at hq
      rw [Ne, hstate, he.pid]
      exact hkilled q hq
  | wait => exact hset (fun _ => Or.inl rfl) fun hk => (by cases hk)

/-- Only processes are killed, if `kill` is never called with 0 or with the pid of a `fork` that failed: one that is
killed is there, and its own pid has been killed. -/
theorem killed_by_pid (h : PtRun tr σ) (hzero : .kill 0 ∉ tr) (hfails : ∀ k, .forkFails k ∈ tr → .kill k ∉ tr)
    (hp : (σ.proc p).killed = true) : (σ.proc p).state ≠ .UNUSED ∧ .kill (σ.proc p).pid ∈ tr := by
  suffices hinv : KillInv tr σ from hinv.killed p hp
  clear hp
  induction h with
  | start =>
    have hproc : ∀ p, userinit.proc p
        = if p = initproc then ⟨.RUNNABLE, 1, none, none, false⟩ else ⟨.UNUSED, 0, none, none, false⟩ := fun _ => rfl
    refine ⟨fun p hp => ?_, fun p hp => ?_⟩ <;> rw [hproc] at hp ⊢ <;> split at hp <;> rename_i hne
    · cases hp
    · rw [if_neg hne]
      exact Or.inl rfl
    · cases hp
    · cases hp
  | @step tr tr' _ _ hrun hs ih =>
    refine KillInv.step (ih (fun hk => hzero (List.mem_append_left _ hk)) fun k hf hk => ?_)
      (fun p hp => exit_ne_init hrun hp) hzero hfails hs
    exact hfails k (List.mem_append_left _ hf) (List.mem_append_left _ hk)

/-- The first child of init is killed while init waits for it. -/
theorem killed_by_pid_waitingInit :
    ((waitingInit.kill ⟨1, by decide⟩).proc ⟨1, by decide⟩).state ≠ .UNUSED ∧
      PtEvent.kill ((waitingInit.kill ⟨1, by decide⟩).proc ⟨1, by decide⟩).pid ∈ [.fork 1, .fork 2] ++ [.kill 2] :=
  killed_by_pid (waitingInit_run.step (.kill (p := ⟨1, by decide⟩) (by decide))) (by decide)
    (fun k hk => absurd hk (by simp)) (by decide)

/-- `kill` finds a free entry by its pid, and the process that `fork` makes of it is killed from the start. -/
theorem kill_unborn (h : PtRun tr σ) (hp : σ.RunsUser p) (hnp : σ.unused = some np) (hnext : σ.nextpid < INT_MAX)
    (hk : σ.withPid k = some np) :
    PtRun (tr ++ [.kill k] ++ [.fork σ.nextpid]) ((σ.kill np).forkAll p np) ∧
      (((σ.kill np).forkAll p np).proc np).pid = σ.nextpid ∧
      (((σ.kill np).forkAll p np).proc np).killed = true := by
  have hunused := state_of_unused hnp
  have hstate : ∀ q, ((σ.kill np).proc q).state = (σ.proc q).state := by
    refine set_field (·.state) ?_
    show (if _ then _ else _) = _
    rw [if_neg fun hc => by rw [hunused] at hc; cases hc]
  have hfree : (σ.kill np).unused = some np := by
    unfold PtState.unused
    simp only [hstate]
    exact hnp
  have hrun : (σ.kill np).RunsUser p := ⟨(hstate p).trans hp.1, hp.2⟩
  refine ⟨(h.step (.kill hk)).forkAll hrun hfree hnext, ?_, ?_⟩ <;> rw [forkAll_proc, if_pos rfl]
  · rfl
  · show (PtState.proc (PtState.set _ _ _) np).killed = true
    rw [set_proc, if_pos rfl]

end Jos.Xv6
