import Mathlib.Data.List.Basic
import Mathlib.Data.List.Range

/-!
# Computations that may fail

Rules for programs in `Except ε`: how a successful step continues, what a successful sequence says about
its parts, the invariant rule for a loop over `List.range n` whose body may fail, postconditions of
programs that may fail (`Post`), and of programs that do not (`Returns`).
-/

namespace Except

universe u

variable {ε : Type*} {α β σ : Type u}

@[simp] theorem ok_bind (a : α) (f : α → Except ε β) : (Except.ok a >>= f) = f a := rfl

@[simp] theorem error_bind (e : ε) (f : α → Except ε β) :
    ((Except.error e : Except ε α) >>= f) = Except.error e := rfl

@[simp] theorem pure_eq (a : α) : (pure a : Except ε α) = Except.ok a := rfl

@[simp] theorem throw_eq (e : ε) : (throw e : Except ε α) = Except.error e := rfl

/-- A sequence succeeds exactly when its first part does and the rest does from there. -/
theorem bind_eq_ok {x : Except ε α} {f : α → Except ε β} {b : β} :
    (x >>= f) = .ok b ↔ ∃ a, x = .ok a ∧ f a = .ok b := by
  cases x with
  | ok a => simp
  | error e => simp

theorem map_eq_ok {x : Except ε α} {g : α → β} {b : β} :
    g <$> x = .ok b ↔ ∃ a, x = .ok a ∧ g a = b := by
  cases x with
  | ok a => simp [Functor.map, Except.map]
  | error e => simp [Functor.map, Except.map]

/-- The invariant rule for a counting loop: if every iteration succeeds and takes `I n` to `I (n + 1)`,
the loop succeeds and establishes `I` at its bound. -/
theorem foldlM_range_invariant {f : σ → ℕ → Except ε σ} (I : ℕ → σ → Prop) (n : ℕ) {s : σ}
    (h0 : I 0 s) (hstep : ∀ i < n, ∀ s, I i s → ∃ s', f s i = .ok s' ∧ I (i + 1) s') :
    ∃ s', (List.range n).foldlM f s = .ok s' ∧ I n s' := by
  induction n with
  | zero => exact ⟨s, rfl, h0⟩
  | succ n ih =>
    obtain ⟨s₁, hs₁, hI⟩ := ih fun i hi => hstep i (Nat.lt_succ_of_lt hi)
    obtain ⟨s₂, hs₂, hI₂⟩ := hstep n (Nat.lt_succ_self n) s₁ hI
    refine ⟨s₂, ?_, hI₂⟩
    rw [List.range_succ, List.foldlM_append, hs₁, ok_bind, List.foldlM_cons, hs₂, ok_bind]
    rfl

/-- The same for a loop that is known to succeed: then the body only has to preserve `I` when it
succeeds. -/
theorem foldlM_range_ok {f : σ → ℕ → Except ε σ} (I : ℕ → σ → Prop) (n : ℕ) {s s' : σ}
    (hok : (List.range n).foldlM f s = .ok s') (h0 : I 0 s)
    (hstep : ∀ i < n, ∀ s s', I i s → f s i = .ok s' → I (i + 1) s') : I n s' := by
  induction n generalizing s' with
  | zero =>
    cases hok
    exact h0
  | succ n ih =>
    rw [List.range_succ, List.foldlM_append] at hok
    obtain ⟨s₁, hs₁, hlast⟩ := bind_eq_ok.mp hok
    rw [List.foldlM_cons] at hlast
    obtain ⟨s₂, hs₂, hnil⟩ := bind_eq_ok.mp hlast
    cases hnil
    exact hstep n (Nat.lt_succ_self n) s₁ _
      (ih hs₁ fun i hi => hstep i (Nat.lt_succ_of_lt hi)) hs₂

/-! ## Postconditions -/

/-- If the program succeeds, its result satisfies `Q`. -/
def Post (x : Except ε α) (Q : α → Prop) : Prop := ∀ a, x = .ok a → Q a

namespace Post

variable {x : Except ε α} {f : α → Except ε β} {P Q : α → Prop} {S : β → Prop}

theorem ok {a : α} (h : Q a) : Post (.ok a : Except ε α) Q := by
  rintro b hb
  exact Except.ok.inj hb ▸ h

theorem error (e : ε) : Post (.error e : Except ε α) Q := nofun

theorem mono (h : Post x P) (hPQ : ∀ a, P a → Q a) : Post x Q := fun a ha => hPQ a (h a ha)

/-- The rule for sequences. -/
theorem bind (h : Post x P) (hf : ∀ a, P a → Post (f a) S) : Post (x >>= f) S := by
  intro b hb
  obtain ⟨a, ha, hfa⟩ := bind_eq_ok.mp hb
  exact hf a (h a ha) b hfa

/-- The rule for sequences whose first part only matters by its result. -/
theorem bind' (hf : ∀ a, x = .ok a → Post (f a) S) : Post (x >>= f) S :=
  bind (P := fun a => x = .ok a) (fun _ ha => ha) hf

theorem map {g : α → β} (h : Post x fun a => S (g a)) : Post (g <$> x) S := by
  cases x with
  | ok a => exact ok (h a rfl)
  | error e => exact error e

end Post

/-- A loop commutes with `φ` if its body does, in the states the loop can reach. -/
theorem foldlM_commutes {γ : Type*} {f : σ → γ → Except ε σ} {φ : σ → σ} (I : σ → Prop) {l : List γ} {s : σ}
    (h0 : I s) (hstep : ∀ a ∈ l, ∀ s, I s → f (φ s) a = φ <$> f s a ∧ Post (f s a) I) :
    l.foldlM f (φ s) = φ <$> l.foldlM f s := by
  induction l generalizing s with
  | nil => rfl
  | cons a l ih =>
    obtain ⟨heq, hpost⟩ := hstep a (List.mem_cons_self ..) s h0
    rw [List.foldlM_cons, List.foldlM_cons, heq]
    cases hs : f s a with
    | error e => rfl
    | ok s' => exact ih (hpost s' hs) fun b hb => hstep b (List.mem_cons_of_mem a hb)

/-- The program succeeds, and its result satisfies `Q`. -/
def Returns (x : Except ε α) (Q : α → Prop) : Prop := ∃ a, x = .ok a ∧ Q a

namespace Returns

variable {x : Except ε α} {f : α → Except ε β} {P Q : α → Prop} {S : β → Prop}

theorem ok {a : α} (h : Q a) : Returns (.ok a : Except ε α) Q := ⟨a, rfl, h⟩

theorem of_eq {a : α} (hx : x = .ok a) (h : Q a) : Returns x Q := ⟨a, hx, h⟩

theorem mono (h : Returns x P) (hPQ : ∀ a, P a → Q a) : Returns x Q := by
  obtain ⟨a, ha, hP⟩ := h
  exact ⟨a, ha, hPQ a hP⟩

/-- The rule for sequences. -/
theorem bind (h : Returns x P) (hf : ∀ a, P a → Returns (f a) S) : Returns (x >>= f) S := by
  obtain ⟨a, rfl, ha⟩ := h
  exact hf a ha

theorem map {g : α → β} (h : Returns x fun a => S (g a)) : Returns (g <$> x) S := by
  obtain ⟨a, rfl, ha⟩ := h
  exact ok ha

end Returns

end Except
