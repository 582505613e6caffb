import Jos.Lib.Cyclic
import Jos.SchedSpec

/-!
# Round-robin scheduling

What `sched_yield` is for: on one CPU, and as long as nothing else changes a status, the environments that can
run take turns in the cyclic order of their slots. `Kernel.ring` lists them in that order from just behind the
current one, which comes last. A call of `sched_yield` runs the first and thereby rotates the ring by one
(`RoundRobin.yield`); the order of any number of calls follows by induction.
-/

namespace Jos

open Kernel

variable {k k' : Kernel} {c cur e : Nat}

/-- The slots that take turns: the runnable environments and the running one. -/
def Kernel.takesTurns (k : Kernel) (i : Nat) : Bool :=
  (k.envs i).envStatus = .runnable ∨ (k.envs i).envStatus = .running

/-- The slots that take turns, in cyclic order from just behind `cur`. -/
def Kernel.ring (k : Kernel) (cur : Nat) : List Nat :=
  ((List.range NENV).rotate (cur + 1)).filter k.takesTurns

/-- One CPU runs environment `cur`, the only one that is running, and the table is well formed: identifiers
name their slots, and an environment has a page directory. -/
structure RoundRobin (k : Kernel) (c cur : Nat) : Prop where
  lt : cur < NENV
  curenv : k.curenv c = some cur
  running : (k.envs cur).envStatus = .running
  only : ∀ i < NENV, (k.envs i).envStatus = .running → i = cur
  envx : ∀ i < NENV, (k.envs i).envStatus ≠ .free → ENVX (k.envs i).envId = i
  pgdir : ∀ i < NENV, (k.envs i).envStatus ≠ .free → ∃ d, (k.envs i).envPgdir = some d

/-- The state in which a CPU leaves the kernel, if it does. -/
def leaves : Except Panic Flow → Option Kernel
  | .ok (.left k) => some k
  | _ => none

@[simp] theorem leaves_left : leaves (.ok (.left k)) = some k := rfl

/-- `sched_yield` on CPU `c`, `n` times in a row: the environments it dispatches and the state it leaves. -/
def yields (c : Nat) : Nat → Kernel → Option (List Nat × Kernel)
  | 0, k => some ([], k)
  | n + 1, k => do
    let k₁ ← leaves (schedYield k c)
    let e ← k₁.curenv c
    let r ← yields c n k₁
    return (e :: r.1, r.2)

/-! ## One call -/

/-- The search of `sched_yield` goes through the slots in cyclic order. -/
theorem schedPick_eq_find (k : Kernel) (start : Nat) : schedPick k start =
    ((List.range NENV).rotate start).find? fun i => (k.envs i).envStatus = .runnable := by
  rw [schedPick, ← List.map_add_mod_range, List.find?_map]
  rfl

namespace RoundRobin

/-- The ring ends with the current environment, and those before it are the runnable ones. -/
theorem ring_eq (h : RoundRobin k c cur) : ∃ A, (List.range NENV).rotate (cur + 1) = A ++ [cur] ∧
    k.ring cur = (A.filter fun i => (k.envs i).envStatus = .runnable) ++ [cur] := by
  obtain ⟨A, hA⟩ := List.rotate_range_last h.lt
  refine ⟨A, hA, ?_⟩
  have hnodup : (A ++ [cur]).Nodup := by
    rw [← hA]
    exact List.nodup_rotate.mpr List.nodup_range
  have hlt : ∀ i ∈ A, i < NENV := by
    intro i hi
    have hmem : i ∈ (List.range NENV).rotate (cur + 1) := by
      rw [hA]
      exact List.mem_append_left _ hi
    exact List.mem_range.mp (List.mem_rotate.mp hmem)
  have hne : ∀ i ∈ A, i ≠ cur := by
    rintro i hi rfl
    exact (List.nodup_append.mp hnodup).2.2 i hi i (List.mem_singleton_self i) rfl
  have hbefore : A.filter k.takesTurns = A.filter fun i => (k.envs i).envStatus = .runnable := by
    apply List.filter_congr
    intro i hi
    have hrun : (k.envs i).envStatus ≠ .running := fun hr => hne i hi (h.only i (hlt i hi) hr)
    simp [Kernel.takesTurns, hrun]
  have hcur : k.takesTurns cur = true := by
    simp [Kernel.takesTurns, h.running]
  rw [Kernel.ring, hA, List.filter_append, hbefore, List.filter_cons_of_pos hcur, List.filter_nil]

/-- What takes turns is a slot of the table that is not free. -/
theorem mem_ring {i : Nat} (hi : i ∈ k.ring cur) :
    i < NENV ∧ ((k.envs i).envStatus = .runnable ∨ (k.envs i).envStatus = .running) := by
  obtain ⟨hmem, hturn⟩ := List.mem_filter.mp hi
  exact ⟨List.mem_range.mp (List.mem_rotate.mp hmem), by simpa [Kernel.takesTurns] using hturn⟩

theorem envRun_ring (h : RoundRobin k c cur) (he : e ∈ k.ring cur) :
    envRun k c e = .ok (.left (k.runs c e)) := by
  obtain ⟨hlt, hst⟩ := mem_ring he
  obtain ⟨d, hd⟩ := h.pgdir e hlt (by rcases hst with hst | hst <;> rw [hst] <;> exact nofun)
  exact envRun_eq hd

/-- `sched_yield` runs the first of the ring. -/
theorem yield_eq (h : RoundRobin k c cur) {t : List Nat} (hring : k.ring cur = e :: t) :
    schedYield k c = .ok (.left (k.runs c e)) := by
  have hmem : e ∈ k.ring cur := by
    rw [hring]
    exact List.mem_cons_self
  have hrun := h.envRun_ring hmem
  obtain ⟨A, hA, hsplit⟩ := h.ring_eq
  have hstart : schedStart k c = cur + 1 := by
    simp only [schedStart, h.curenv]
    rw [h.envx cur h.lt (by rw [h.running]; exact nofun)]
  have hcur : ¬ (k.envs cur).envStatus = .runnable := by
    rw [h.running]
    exact nofun
  -- the current environment is not runnable, so the search is one through those before it
  have hpick : schedPick k (schedStart k c) = (A.filter fun i => (k.envs i).envStatus = .runnable).head? := by
    rw [hstart, schedPick_eq_find, hA, List.find?_append, List.head?_filter]
    simp [hcur]
  rw [hsplit] at hring
  unfold schedYield
  rw [hpick]
  cases hf : A.filter fun i => (k.envs i).envStatus = .runnable with
  | nil =>
    rw [hf, List.nil_append, List.cons.injEq] at hring
    simp only [List.head?_nil, h.curenv, h.running, if_true]
    rw [hring.1]
    exact hrun
  | cons x xs =>
    rw [hf, List.cons_append, List.cons.injEq] at hring
    simp only [List.head?_cons]
    rw [hring.1]
    exact hrun

/-- The statuses after it: the new environment runs and the old one is runnable. -/
theorem status_runs (h : RoundRobin k c cur) (i : Nat) : ((k.runs c e).envs i).envStatus =
    if i = e then .running else if i = cur then .runnable else (k.envs i).envStatus := by
  rw [runs_status, h.curenv]
  by_cases hie : i = e
  · rw [if_pos hie, if_pos hie]
  · rw [if_neg hie, if_neg hie]
    by_cases hic : i = cur
    · rw [if_pos hic, hic, if_pos ⟨rfl, h.running⟩]
    · rw [if_neg hic, if_neg fun hc => hic (Option.some.inj hc.1).symm]

/-- The same slots take turns. -/
theorem takesTurns_runs (h : RoundRobin k c cur) (he : e ∈ k.ring cur) :
    (k.runs c e).takesTurns = k.takesTurns := by
  funext i
  simp only [Kernel.takesTurns, h.status_runs]
  by_cases hie : i = e
  · subst hie
    have hst := (mem_ring he).2
    simp [hst]
  · rw [if_neg hie]
    by_cases hic : i = cur
    · simp [hic, h.running]
    · rw [if_neg hic]

/-- The table stays well formed, with the new environment as the only one that is running. -/
theorem runs (h : RoundRobin k c cur) (he : e ∈ k.ring cur) : RoundRobin (k.runs c e) c e := by
  have hlt := (mem_ring he).1
  have hfree : ∀ i, ((k.runs c e).envs i).envStatus ≠ .free → (k.envs i).envStatus ≠ .free := by
    intro i hi hfree
    rw [h.status_runs] at hi
    by_cases hie : i = e
    · subst hie
      rcases (mem_ring he).2 with hst | hst <;> rw [hst] at hfree <;> cases hfree
    · rw [if_neg hie] at hi
      by_cases hic : i = cur
      · rw [hic, h.running] at hfree
        cases hfree
      · rw [if_neg hic] at hi
        exact hi hfree
  exact {
    lt := hlt
    curenv := by rw [Kernel.curenv, runs_cpus, if_pos rfl]
    running := by rw [h.status_runs, if_pos rfl]
    only := by
      intro i hi hrun
      by_contra hie
      rw [h.status_runs, if_neg hie] at hrun
      by_cases hic : i = cur
      · rw [if_pos hic] at hrun
        cases hrun
      · rw [if_neg hic] at hrun
        exact hic (h.only i hi hrun)
    envx := by
      intro i hi hst
      rw [(runs_sameEnv i).id]
      exact h.envx i hi (hfree i hst)
    pgdir := by
      intro i hi hst
      rw [(runs_sameEnv i).pgdir]
      exact h.pgdir i hi (hfree i hst) }

/-- The ring turns by one place. -/
theorem ring_runs (h : RoundRobin k c cur) {t : List Nat} (hring : k.ring cur = e :: t) :
    (k.runs c e).ring e = t ++ [e] := by
  have hmem : e ∈ k.ring cur := by
    rw [hring]
    exact List.mem_cons_self
  rw [Kernel.ring] at hring
  rw [Kernel.ring, h.takesTurns_runs hmem, List.filter_rotate_succ hring]

/-- Only the environment that runs now counts one more run. -/
theorem envRuns_runs (i : Nat) : ((k.runs c e).envs i).envRuns =
    (k.envs i).envRuns + if i = e then 1#32 else 0#32 := by
  simp only [Kernel.runs]
  by_cases hie : i = e
  · rw [if_pos hie, if_pos hie, hie]
  · rw [if_neg hie, if_neg hie, BitVec.add_zero]
    split <;> rfl

end RoundRobin

/-! ## Any number of calls -/

/-- The current environment is in its ring. -/
theorem RoundRobin.ring_ne_nil (h : RoundRobin k c cur) : k.ring cur ≠ [] := by
  obtain ⟨A, -, hsplit⟩ := h.ring_eq
  rw [hsplit]
  exact List.append_ne_nil_of_right_ne_nil _ (List.cons_ne_nil _ _)

/-- `n` calls run the environments that are due at the moves `0` to `n - 1` around the ring, and every
environment counts its dispatches. -/
theorem RoundRobin.yields_spec (n : Nat) {ring : List Nat} (h : RoundRobin k c cur)
    (hring : k.ring cur = ring) :
    ∃ es k' cur', yields c n k = some (es, k') ∧ es.map some = (List.range n).map ring.turn ∧
      RoundRobin k' c cur' ∧ ∀ i, (k'.envs i).envRuns = (k.envs i).envRuns + BitVec.ofNat 32 (es.count i) := by
  induction n generalizing k cur ring with
  | zero => exact ⟨[], k, cur, rfl, rfl, h, fun i => (BitVec.add_zero _).symm⟩
  | succ n ih =>
    cases ring with
    | nil => exact absurd hring h.ring_ne_nil
    | cons e t =>
      have hmem : e ∈ k.ring cur := by
        rw [hring]
        exact List.mem_cons_self
      have h₁ := h.runs hmem
      have hrot : (k.runs c e).ring e = (e :: t).rotate 1 := by
        rw [h.ring_runs hring, List.rotate_cons_succ, List.rotate_zero]
      obtain ⟨es, k', cur', hyields, hseq, hrr, hruns⟩ := ih h₁ hrot
      refine ⟨e :: es, k', cur', ?_, ?_, hrr, ?_⟩
      · rw [yields, h.yield_eq hring, leaves_left]
        simp [h₁.curenv, hyields]
      · have hlater : ((List.range n).map ((e :: t).rotate 1).turn) =
            (List.range n).map fun j => (e :: t).turn (j + 1) := by
          apply List.map_congr_left
          intro j hj
          rw [List.turn_rotate, Nat.add_comm]
        rw [List.map_cons, hseq, hlater, List.range_succ_eq_map, List.map_cons, List.map_map]
        rfl
      · intro i
        rw [hruns, envRuns_runs, List.count_cons, BitVec.ofNat_add, BitVec.add_assoc]
        refine congrArg _ ?_
        rw [BitVec.add_comm]
        refine congrArg _ ?_
        by_cases hie : i = e
        · simp [hie]
        · simp [hie, Ne.symm hie]

/-- The environments that take turns. -/
def Kernel.turnSet (k : Kernel) : Finset Nat :=
  (Finset.range NENV).filter fun i => (k.envs i).envStatus = .runnable ∨ (k.envs i).envStatus = .running

theorem ring_nodup (k : Kernel) (cur : Nat) : (k.ring cur).Nodup :=
  List.Nodup.filter _ (List.nodup_rotate.mpr List.nodup_range)

theorem ring_toFinset (k : Kernel) (cur : Nat) : (k.ring cur).toFinset = k.turnSet := by
  ext i
  simp [Kernel.ring, Kernel.turnSet, Kernel.takesTurns]

theorem length_ring (k : Kernel) (cur : Nat) : (k.ring cur).length = k.turnSet.card := by
  rw [← ring_toFinset k cur, List.toFinset_card_of_nodup (ring_nodup k cur)]

/-- Round robin: on one CPU, `n` calls of `sched_yield` dispatch the environments that take turns in cyclic
order from just behind the current one. Among as many consecutive dispatches as there are such environments
each occurs once, exactly one environment is running after the calls, and each counts its dispatches. -/
theorem schedYield_roundRobin (k : Kernel) (c cur : Nat) (h : RoundRobin k c cur) (n : Nat) :
    ∃ es k', yields c n k = some (es, k') ∧ es.map some = (List.range n).map (k.ring cur).turn ∧
      (∀ m, m + k.turnSet.card ≤ n → ∀ e ∈ k.turnSet, ((es.drop m).take k.turnSet.card).count e = 1) ∧
      (∃ cur' < NENV, ∀ i < NENV, (k'.envs i).envStatus = .running ↔ i = cur') ∧
      ∀ i, (k'.envs i).envRuns = (k.envs i).envRuns + BitVec.ofNat 32 (es.count i) := by
  obtain ⟨es, k', cur', hyields, hseq, hrr, hruns⟩ := h.yields_spec n rfl
  refine ⟨es, k', hyields, hseq, ?_, ?_, hruns⟩
  · intro m hm e he
    have hwindow : (es.drop m).take k.turnSet.card = (k.ring cur).rotate m := by
      have hrange : ((List.range n).drop m).take k.turnSet.card = List.range' m k.turnSet.card := by
        rw [List.range_eq_range', List.drop_range', List.take_range'_of_length_ge (by omega), Nat.zero_add,
          Nat.mul_one]
      apply List.map_injective_iff.mpr (Option.some_injective Nat)
      rw [List.map_take, List.map_drop, hseq, ← List.map_drop, ← List.map_take, hrange,
        ← length_ring k cur, List.map_turn_range']
    rw [hwindow, List.count_eq_one_of_mem]
    · exact List.nodup_rotate.mpr (ring_nodup k cur)
    · rw [List.mem_rotate, ← List.mem_toFinset, ring_toFinset]
      exact he
  · refine ⟨cur', hrr.lt, fun i hi => ⟨hrr.only i hi, ?_⟩⟩
    rintro rfl
    exact hrr.running

/-- Environment 0 runs, and the environments 5 and 1023 can. -/
def threeEnvs : Kernel where
  pmap := ⟨0, fun _ => ⟨none, 0⟩, none, 0, 0, fun _ _ => 0⟩
  envs i :=
    { envId := BitVec.ofNat 32 i
      envPgdir := some 1
      envStatus := if i = 0 then .running else if i = 5 ∨ i = 1023 then .runnable else .free }
  envFreeList := none
  cpus _ := { mode := .user, cpuEnv := some 0, cr3 := 1 }
  log := []

/-- Four calls dispatch 5, 1023, 0 and 5. -/
theorem schedYield_roundRobin_threeEnvs :
    ∃ es k', yields 0 4 threeEnvs = some (es, k') ∧ es = [5, 1023, 0, 5] := by
  have h : RoundRobin threeEnvs 0 0 := {
    lt := by decide
    curenv := rfl
    running := rfl
    only := by
      intro i hi hrun
      by_contra h0
      simp only [threeEnvs, if_neg h0] at hrun
      split at hrun <;> cases hrun
    envx := by
      intro i hi hst
      simp only [threeEnvs] at hst ⊢
      split at hst
      · next h0 => rw [h0]; rfl
      · split at hst
        · next h5 => rcases h5 with h5 | h5 <;> rw [h5] <;> rfl
        · exact absurd rfl hst
    pgdir := fun i _ _ => ⟨1, rfl⟩ }
  obtain ⟨es, k', hyields, hseq, -⟩ := schedYield_roundRobin threeEnvs 0 0 h 4
  have hring : threeEnvs.ring 0 = [5, 1023, 0] := by decide +kernel
  refine ⟨es, k', hyields, ?_⟩
  rw [hring] at hseq
  exact List.map_injective_iff.mpr (Option.some_injective Nat) hseq

end Jos
