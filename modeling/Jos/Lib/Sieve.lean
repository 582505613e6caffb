import Mathlib.Data.List.Sort
import Mathlib.Data.Nat.Nth
import Mathlib.Data.Nat.PrimeFin

/-!
# The sieve of primes

The numbers from 2 on pass filters one after the other, and each filter drops the multiples of one prime. The first
number that comes through the filters for the first `k` primes is the next prime (`Sieved.head`).
-/

namespace Sieve

/-- Those of `m` numbers from 2 on that come through the first `k` filters. -/
noncomputable def survivors (k m : Nat) : List Nat :=
  (List.range' 2 m).filter fun n => ∀ j < k, ¬ Nat.nth Nat.Prime j ∣ n

/-- The list is what comes through the first `k` filters first. -/
def Sieved (k : Nat) (l : List Nat) : Prop := ∃ m, l = survivors k m

theorem mem_survivors {k m n : Nat} :
    n ∈ survivors k m ↔ (2 ≤ n ∧ n < 2 + m) ∧ ∀ j < k, ¬ Nat.nth Nat.Prime j ∣ n := by
  rw [survivors, List.mem_filter, decide_eq_true_iff, List.mem_range'_1]

theorem sieved_range (m : Nat) : Sieved 0 (List.range' 2 m) := by
  refine ⟨m, (List.filter_eq_self.mpr fun n _ => decide_eq_true ?_).symm⟩
  intro j hj
  exact absurd hj (Nat.not_lt_zero j)

theorem sieved_nil (k : Nat) : Sieved k [] := ⟨0, rfl⟩

namespace Sieved

variable {k : Nat} {l l' : List Nat}

theorem anti (h : Sieved k l) (hl : l' <+: l) : Sieved k l' := by
  obtain ⟨m, rfl⟩ := h
  obtain ⟨l₀, hl₀, rfl⟩ := List.prefix_filter_iff.mp hl
  refine ⟨l₀.length, congrArg (List.filter _) ?_⟩
  have hlen : l₀.length ≤ m := by
    have hle := hl₀.length_le
    rwa [List.length_range'] at hle
  exact (List.prefix_iff_eq_take.mp hl₀).trans (List.take_range'_of_length_ge hlen)

/-- The next filter. -/
theorem filter (h : Sieved k l) : Sieved (k + 1) (l.filter fun n => ¬ Nat.nth Nat.Prime k ∣ n) := by
  obtain ⟨m, rfl⟩ := h
  refine ⟨m, ?_⟩
  rw [survivors, survivors, List.filter_filter]
  refine List.filter_congr fun n _ => ?_
  rw [← Bool.decide_and]
  refine decide_eq_decide.mpr ⟨fun ⟨hn, hlt⟩ j hj => ?_, fun hlt => ⟨hlt k (Nat.lt_succ_self k), fun j hj => ?_⟩⟩
  · rcases Nat.lt_succ_iff_lt_or_eq.mp hj with hj | rfl
    · exact hlt j hj
    · exact hn
  · exact hlt j (Nat.lt_succ_of_lt hj)

/-- The first number that comes through is the next prime. -/
theorem head {n : Nat} (h : Sieved k (n :: l)) : n = Nat.nth Nat.Prime k := by
  obtain ⟨m, hm⟩ := h
  have hinf := Nat.infinite_setOfPred_prime
  have hprime := Nat.nth_mem_of_infinite hinf
  have hn : n ∈ survivors k m := hm ▸ List.mem_cons_self
  obtain ⟨⟨htwo, hlt⟩, hdvd⟩ := mem_survivors.mp hn
  -- the smallest factor of `n` is none of the first `k` primes
  have hle : Nat.nth Nat.Prime k ≤ n := by
    have hfac : Nat.Prime n.minFac := Nat.minFac_prime (by omega)
    refine le_trans ?_ (Nat.minFac_le (by omega))
    by_contra hgt
    have hnth : Nat.nth Nat.Prime (Nat.count Nat.Prime n.minFac) = n.minFac := Nat.nth_count hfac
    refine hdvd (Nat.count Nat.Prime n.minFac) ((Nat.nth_strictMono hinf).lt_iff_lt.mp ?_) ?_
    · rw [hnth]
      exact Nat.not_le.mp hgt
    · rw [hnth]
      exact Nat.minFac_dvd n
  have hmem : Nat.nth Nat.Prime k ∈ survivors k m := by
    refine mem_survivors.mpr ⟨⟨(hprime k).two_le, hle.trans_lt hlt⟩, fun j hj hd => ?_⟩
    have heq := (Nat.prime_dvd_prime_iff_eq (hprime j) (hprime k)).mp hd
    exact Nat.ne_of_lt hj (Nat.nth_injective hinf heq)
  have hsorted : (survivors k m).Pairwise (· < ·) := (List.pairwise_lt_range' ..).filter _
  rw [← hm] at hmem hsorted
  rcases List.mem_cons.mp hmem with heq | hl
  · exact heq.symm
  · exact absurd (List.rel_of_pairwise_cons hsorted hl) (Nat.not_lt.mpr hle)

end Sieved

end Sieve
