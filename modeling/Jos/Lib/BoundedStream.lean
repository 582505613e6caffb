import Mathlib.Data.BitVec
import Mathlib.Logic.Function.Basic

/-!
# Bounded streams

A stream of elements from writers to readers, at most `n` of which are under way. Either side can be closed for good:
without writers an empty stream is at its end, and without readers writing fails.

`CountingRing` is how it is stored: a ring of `n` slots and two counters of `w` bits of all elements that were read
and written. The counters wrap around. As `n` divides `2 ^ w` the slots do not notice, and as it is smaller a full
ring is told from an empty one.
-/

namespace BoundedStream

variable {P α : Type*}

/-- What a run shows: an element written or read, the end of the stream that a reader is told of, a writer that is
told that there are no readers, a writer or reader (`true` for a writer) that gives up, and a side that closes. -/
inductive Event (P α : Type*)
  | put (p : P) (a : α)
  | get (p : P) (a : α)
  | eof (p : P)
  | broken (p : P)
  | interrupted (p : P) (side : Bool)
  | close (side : Bool)

structure State (α : Type*) where
  queue : List α
  isOpen : Bool → Bool

/-- A stream with nothing in it. -/
def State.empty : State α := ⟨[], fun _ => true⟩

inductive Step (n : Nat) : State α → Event P α → State α → Prop
  | put {s : State α} (p : P) (a : α) : s.isOpen true = true → s.queue.length < n →
      Step n s (.put p a) { s with queue := s.queue ++ [a] }
  | get {s : State α} {a : α} {l : List α} (p : P) : s.queue = a :: l → Step n s (.get p a) { s with queue := l }
  | eof {s : State α} (p : P) : s.queue = [] → s.isOpen true = false → Step n s (.eof p) s
  | broken {s : State α} (p : P) : s.isOpen false = false → Step n s (.broken p) s
  | interrupted {s : State α} (p : P) (e : Bool) : Step n s (.interrupted p e) s
  | close {s : State α} (e : Bool) : s.isOpen e = true →
      Step n s (.close e) { s with isOpen := Function.update s.isOpen e false }

/-- The runs of a new stream. -/
inductive Run (n : Nat) : List (Event P α) → State α → Prop
  | start : Run n [] .empty
  | step {tr : List (Event P α)} {x : Event P α} {s s' : State α} : Run n tr s → Step n s x s' → Run n (tr ++ [x]) s'

/-- The elements written and read. -/
def puts : List (Event P α) → List α := List.filterMap fun
  | .put _ a => some a
  | _ => none

def gets : List (Event P α) → List α := List.filterMap fun
  | .get _ a => some a
  | _ => none

variable {n : Nat} {tr : List (Event P α)} {s : State α}

/-- What was read is what was written first, in its order, and the rest is under way. -/
theorem Run.fifo (h : Run n tr s) : puts tr = gets tr ++ s.queue ∧ s.queue.length ≤ n := by
  induction h with
  | start => exact ⟨rfl, Nat.zero_le n⟩
  | @step tr x s s' _ hs ih =>
    obtain ⟨hfifo, hlen⟩ := ih
    unfold puts gets at hfifo ⊢
    rw [List.filterMap_append, List.filterMap_append, hfifo]
    cases hs with
    | put p a _ hroom =>
      refine ⟨by simp, ?_⟩
      rw [List.length_append]
      exact hroom
    | get p hq =>
      refine ⟨by simp [hq], ?_⟩
      rw [hq, List.length_cons] at hlen
      exact Nat.le_of_succ_le hlen
    | eof | broken | interrupted | close => exact ⟨by simp, hlen⟩

end BoundedStream

/-- A ring of `n` slots with counters of `w` bits. -/
structure CountingRing (α : Type*) (n w : Nat) where
  data : Fin n → α
  nread : BitVec w
  nwrite : BitVec w

namespace CountingRing

variable {α : Type*} {n w : Nat}

/-- The slot of an element by its number. -/
def slotOf [NeZero n] (x : BitVec w) : Fin n := Fin.ofNat n x.toNat

def put [NeZero n] (r : CountingRing α n w) (a : α) : CountingRing α n w :=
  { r with data := Function.update r.data (slotOf r.nwrite) a, nwrite := r.nwrite + 1#w }

def skip (r : CountingRing α n w) : CountingRing α n w := { r with nread := r.nread + 1#w }

/-- The element that is read next. -/
def head [NeZero n] (r : CountingRing α n w) : α := r.data (slotOf r.nread)

def Empty (r : CountingRing α n w) : Prop := r.nread = r.nwrite

def Full (r : CountingRing α n w) : Prop := r.nwrite = r.nread + BitVec.ofNat w n

instance (r : CountingRing α n w) : Decidable r.Empty := inferInstanceAs (Decidable (_ = _))

instance (r : CountingRing α n w) : Decidable r.Full := inferInstanceAs (Decidable (_ = _))

/-- The ring holds the elements of `l`. -/
structure Holds [NeZero n] (r : CountingRing α n w) (l : List α) : Prop where
  length : l.length ≤ n
  nwrite : r.nwrite = r.nread + BitVec.ofNat w l.length
  data : ∀ k a, l[k]? = some a → r.data (slotOf (r.nread + BitVec.ofNat w k)) = a

section

variable [NeZero n] {r : CountingRing α n w} {l : List α} {a : α} {k k' : Nat} {x : BitVec w}

theorem slotOf_add (hn : n ∣ 2 ^ w) (x : BitVec w) (k : Nat) :
    ((slotOf (x + BitVec.ofNat w k) : Fin n) : Nat) = (x.toNat + k) % n := by
  rw [slotOf, Fin.val_ofNat, BitVec.toNat_add, BitVec.toNat_ofNat, Nat.mod_mod_of_dvd _ hn, Nat.add_mod,
    Nat.mod_mod_of_dvd _ hn, ← Nat.add_mod]

/-- Fewer than `n` elements in a row are in different slots. -/
theorem slotOf_inj (hn : n ∣ 2 ^ w) (hk : k < n) (hk' : k' < n)
    (h : (slotOf (x + BitVec.ofNat w k) : Fin n) = slotOf (x + BitVec.ofNat w k')) : k = k' := by
  have hval := congrArg Fin.val h
  rw [slotOf_add hn, slotOf_add hn] at hval
  have hmod : k ≡ k' [MOD n] := Nat.ModEq.add_left_cancel' x.toNat hval
  exact Nat.ModEq.eq_of_lt_of_lt hmod hk hk'

omit [NeZero n] in
/-- Counters that are at most `n` apart tell how far. -/
theorem add_ofNat_inj (hw : n < 2 ^ w) (hk : k ≤ n) (hk' : k' ≤ n)
    (h : x + BitVec.ofNat w k = x + BitVec.ofNat w k') : k = k' := by
  have hval := congrArg BitVec.toNat ((BitVec.add_right_inj x).mp h)
  rw [BitVec.toNat_ofNat, BitVec.toNat_ofNat, Nat.mod_eq_of_lt (by omega), Nat.mod_eq_of_lt (by omega)] at hval
  exact hval

theorem Holds.nil (d : Fin n → α) (x : BitVec w) : Holds { data := d, nread := x, nwrite := x } [] where
  length := Nat.zero_le n
  nwrite := (BitVec.add_zero x).symm
  data k a hk := by cases hk

theorem Holds.empty_iff (h : r.Holds l) (hw : n < 2 ^ w) : r.Empty ↔ l = [] := by
  have hzero : r.nread = r.nread + BitVec.ofNat w 0 := (BitVec.add_zero r.nread).symm
  unfold Empty
  rw [h.nwrite]
  constructor
  · intro heq
    exact List.eq_nil_of_length_eq_zero (add_ofNat_inj hw h.length (Nat.zero_le n) (heq.symm.trans hzero))
  · rintro rfl
    exact hzero

theorem Holds.full_iff (h : r.Holds l) (hw : n < 2 ^ w) : r.Full ↔ l.length = n := by
  unfold Full
  rw [h.nwrite]
  refine ⟨add_ofNat_inj hw h.length le_rfl, fun hlen => ?_⟩
  rw [hlen]

theorem Holds.put (h : r.Holds l) (hn : n ∣ 2 ^ w) (hlen : l.length < n) (a : α) : (r.put a).Holds (l ++ [a]) := by
  refine ⟨?_, ?_, fun k b hk => ?_⟩
  · rw [List.length_append]
    exact hlen
  · show r.nwrite + 1#w = _
    rw [h.nwrite, List.length_append, BitVec.add_assoc]
    congr 1
    rw [List.length_singleton]
    exact (BitVec.ofNat_add ..).symm
  · show Function.update r.data (slotOf r.nwrite) a (slotOf (r.nread + BitVec.ofNat w k)) = b
    rw [h.nwrite]
    rcases Nat.lt_or_ge k l.length with hlt | hge
    · rw [Function.update_of_ne fun hc => Nat.ne_of_lt hlt (slotOf_inj hn (by omega) hlen hc)]
      rw [List.getElem?_append_left hlt] at hk
      exact h.data k b hk
    · rw [List.getElem?_append_right hge, List.getElem?_singleton] at hk
      split at hk
      · next hzero =>
        obtain rfl : k = l.length := by omega
        rw [Function.update_self]
        exact Option.some.inj hk
      · cases hk

theorem Holds.head (h : r.Holds (a :: l)) : r.head = a := by
  have hzero := h.data 0 a rfl
  rwa [show BitVec.ofNat w 0 = 0#w from rfl, BitVec.add_zero] at hzero

theorem Holds.skip (h : r.Holds (a :: l)) : r.skip.Holds l := by
  have hadd : ∀ k, r.nread + 1#w + BitVec.ofNat w k = r.nread + BitVec.ofNat w (k + 1) := by
    intro k
    rw [BitVec.add_assoc, Nat.add_comm k 1, BitVec.ofNat_add]
  refine ⟨Nat.le_of_succ_le h.length, ?_, fun k b hk => ?_⟩
  · show r.nwrite = r.nread + 1#w + _
    rw [h.nwrite, hadd]
    rfl
  · show r.data (slotOf (r.nread + 1#w + BitVec.ofNat w k)) = b
    rw [hadd]
    exact h.data (k + 1) b hk

end

end CountingRing
