import Mathlib.Data.List.Basic

/-!
# Synchronous circuits

A circuit with one clock is a function `next` from its registers and the inputs of a cycle to its registers
after the clock edge. This module runs such a function over a list of input cycles, collects what an
observer sees on the way, and gives the rules for proofs about runs: an invariant that every edge
preserves, a simulation of an abstract machine that moves only on the cycles the observer reports, and a comparison
of two machines that agree as long as every cycle is good (`always_congr`).
-/

namespace Synchronous

variable {σ ι τ β γ : Type*} (next : σ → ι → σ)

/-- The registers after a list of cycles. -/
def run (s : σ) (is : List ι) : σ := is.foldl next s

/-- The registers before the first cycle and after each. -/
def states (s : σ) : List ι → List σ
  | [] => [s]
  | i :: is => s :: states (next s i) is

/-- What an observer of single cycles reports over a list of them. -/
def observe (out : σ → ι → Option β) (s : σ) : List ι → List β
  | [] => []
  | i :: is => (out s i).toList ++ observe out (next s i) is

/-- `P` is true of every cycle and the registers before it. -/
def Always (P : σ → ι → Prop) (s : σ) : List ι → Prop
  | [] => True
  | i :: is => P s i ∧ Always P (next s i) is

@[simp] theorem run_nil (s : σ) : run next s [] = s := rfl

@[simp] theorem run_cons (s : σ) (i : ι) (is : List ι) :
    run next s (i :: is) = run next (next s i) is := rfl

theorem run_append (s : σ) (is js : List ι) : run next s (is ++ js) = run next (run next s is) js := by
  simp [run]

theorem observe_append (out : σ → ι → Option β) (s : σ) (is js : List ι) :
    observe next out s (is ++ js) = observe next out s is ++ observe next out (run next s is) js := by
  induction is generalizing s with
  | nil => rfl
  | cons i is ih => simp only [List.cons_append, observe, run_cons, ih, List.append_assoc]

theorem run_mem_states (s : σ) (is : List ι) : run next s is ∈ states next s is := by
  induction is generalizing s with
  | nil => exact List.mem_singleton.mpr rfl
  | cons i is ih => exact List.mem_cons_of_mem s (ih (next s i))

variable {next}

/-- An invariant of every edge holds in every state of a run. -/
theorem states_inv {I : σ → Prop} {ok : ι → Prop} (hstep : ∀ s i, I s → ok i → I (next s i))
    {s : σ} {is : List ι} (hs : I s) (his : ∀ i ∈ is, ok i) : ∀ t ∈ states next s is, I t := by
  induction is generalizing s with
  | nil =>
    intro t ht
    rw [states, List.mem_singleton] at ht
    exact ht ▸ hs
  | cons i is ih =>
    intro t ht
    rw [states, List.mem_cons] at ht
    obtain rfl | ht := ht
    · exact hs
    · refine ih (hstep s i hs (his i (List.mem_cons_self ..))) ?_ t ht
      exact fun j hj => his j (List.mem_cons_of_mem i hj)

/-- A cycle is good for one machine exactly when it is for another, and good cycles keep the two in the relation
`R`. Then a run has only good cycles for one exactly when it has for the other. -/
theorem always_congr {next' : τ → ι → τ} {R : σ → τ → Prop} {P : σ → ι → Prop} {Q : τ → ι → Prop}
    (hgood : ∀ s t i, R s t → (P s i ↔ Q t i)) (hstep : ∀ s t i, R s t → P s i → R (next s i) (next' t i))
    {s : σ} {t : τ} (h : R s t) (is : List ι) : Always next P s is ↔ Always next' Q t is := by
  induction is generalizing s t with
  | nil => exact Iff.rfl
  | cons i is ih =>
    rw [Always, Always]
    constructor
    · rintro ⟨hp, hall⟩
      exact ⟨(hgood s t i h).mp hp, (ih (hstep s t i h hp)).mp hall⟩
    · rintro ⟨hq, hall⟩
      have hp := (hgood s t i h).mpr hq
      exact ⟨hp, (ih (hstep s t i h hp)).mpr hall⟩

/-- The abstract machine `step` moves on what the observer `out` reports and rests otherwise, and `log` is what
it has produced. If every edge keeps the two in the relation `R` and a second observer `out'` reports what the
log gains, the same is true of runs. -/
theorem run_simulates {R : τ → σ → Prop} {step : τ → β → τ} {log : τ → List γ} {out : σ → ι → Option β}
    {out' : σ → ι → Option γ} {ok : ι → Prop}
    (hstep : ∀ t s i, R t s → ok i → R ((out s i).toList.foldl step t) (next s i) ∧
      log ((out s i).toList.foldl step t) = log t ++ (out' s i).toList)
    {t : τ} {s : σ} {is : List ι} (hs : R t s) (his : ∀ i ∈ is, ok i) :
    R ((observe next out s is).foldl step t) (run next s is) ∧
      log ((observe next out s is).foldl step t) = log t ++ observe next out' s is := by
  induction is generalizing t s with
  | nil => exact ⟨hs, (List.append_nil _).symm⟩
  | cons i is ih =>
    obtain ⟨hrel, hlog⟩ := hstep t s i hs (his i (List.mem_cons_self ..))
    obtain ⟨hrun, hall⟩ := ih hrel fun j hj => his j (List.mem_cons_of_mem i hj)
    rw [observe, List.foldl_append, run_cons]
    refine ⟨hrun, ?_⟩
    rw [hall, hlog, List.append_assoc, observe]

end Synchronous
