import Mathlib.Data.BitVec
import Mathlib.Logic.Function.Basic
import Mathlib.Tactic.IntervalCases

/-!
# Byte memory with 32-bit words

Memory is a function from addresses to bytes, and words are stored with their lowest byte first. Addresses wrap
around, and so does everything here: what lies `i` bytes behind `a` is the address `b` with `(b - a).toNat = i`.

With paging the addresses are virtual ones, and several of them may name the same byte. `storeThrough` writes
through such a mapping. Seen from an address that names none of the bytes written under another name, it is
`storeBytes`.
-/

namespace ByteMem

variable {n : Nat} {m m' : BitVec n → BitVec 8} {a b : BitVec n} {w : BitVec 32} {bs : List (BitVec 8)}

/-- Byte `i` of a word. -/
def byte (w : BitVec 32) (i : Nat) : BitVec 8 := (w >>> (8 * i)).setWidth 8

/-- The bytes of a word as they stand in memory. -/
def bytes (w : BitVec 32) : List (BitVec 8) := [byte w 0, byte w 1, byte w 2, byte w 3]

/-- The word at `a`. -/
def load (m : BitVec n → BitVec 8) (a : BitVec n) : BitVec 32 :=
  (m a).setWidth 32 ||| (m (a + 1#n)).setWidth 32 <<< 8 ||| (m (a + 2#n)).setWidth 32 <<< 16 |||
    (m (a + 3#n)).setWidth 32 <<< 24

/-- Write bytes from `a` on. -/
def storeBytes (m : BitVec n → BitVec 8) (a : BitVec n) (bs : List (BitVec 8)) : BitVec n → BitVec 8 :=
  fun b => bs[(b - a).toNat]?.getD (m b)

/-- Write a word at `a`. -/
def store (m : BitVec n → BitVec 8) (a : BitVec n) (w : BitVec 32) : BitVec n → BitVec 8 :=
  storeBytes m a (bytes w)

/-! ## Bytes -/

theorem storeBytes_of_le (h : bs.length ≤ (b - a).toNat) : storeBytes m a bs b = m b := by
  rw [storeBytes, List.getElem?_eq_none h, Option.getD_none]

theorem store_of_le (h : 4 ≤ (b - a).toNat) : store m a w b = m b := storeBytes_of_le h

theorem storeBytes_congr (h : m b = m' b) : storeBytes m a bs b = storeBytes m' a bs b := by
  rw [storeBytes, storeBytes, h]

/-- The first byte, and the others behind it. -/
theorem storeBytes_cons {x : BitVec 8} (hn : bs.length < 2 ^ n) :
    storeBytes m a (x :: bs) b = if b = a then x else storeBytes m (a + 1#n) bs b := by
  by_cases hba : b = a
  · rw [if_pos hba, hba, storeBytes, BitVec.sub_self]
    rfl
  · rw [if_neg hba, storeBytes, storeBytes]
    obtain ⟨d, hd⟩ : ∃ d, d = b - a := ⟨_, rfl⟩
    have hlt := d.isLt
    have hpos : d.toNat ≠ 0 := by
      intro hz
      have hzero : d = 0#n := BitVec.eq_of_toNat_eq (by rw [hz, BitVec.toNat_zero])
      exact hba (by rw [← BitVec.sub_add_cancel b a, ← hd, hzero, BitVec.zero_add])
    have hone : 0 < n := by
      rcases Nat.eq_zero_or_pos n with rfl | hpos
      · omega
      · exact hpos
    have hsub : (b - (a + 1#n)).toNat = d.toNat - 1 := by
      have hstep : b - (a + 1#n) = d - 1#n := by
        rw [hd, BitVec.sub_eq_add_neg, BitVec.neg_add, BitVec.sub_eq_add_neg, BitVec.sub_eq_add_neg,
          BitVec.sub_eq_add_neg, BitVec.add_assoc]
      rw [hstep, BitVec.toNat_sub, BitVec.toNat_one hone,
        show 2 ^ n - 1 + d.toNat = d.toNat - 1 + 2 ^ n by omega, Nat.add_mod_right,
        Nat.mod_eq_of_lt (by omega)]
    rw [hsub, ← hd]
    obtain ⟨i, hi⟩ := Nat.exists_eq_succ_of_ne_zero hpos
    rw [hi]
    rfl

/-! ## Words -/

theorem load_congr (h : ∀ i < 4, m (a + BitVec.ofNat n i) = m' (a + BitVec.ofNat n i)) :
    load m a = load m' a := by
  have h₀ := h 0 (by omega)
  rw [show BitVec.ofNat n 0 = 0#n from rfl, BitVec.add_zero] at h₀
  rw [load, load, h₀, h 1 (by omega), h 2 (by omega), h 3 (by omega)]

/-- The bytes of a word make it up. -/
theorem load_of_bytes (h : ∀ i < 4, m (a + BitVec.ofNat n i) = byte w i) : load m a = w := by
  have h₀ := h 0 (by omega)
  rw [show BitVec.ofNat n 0 = 0#n from rfl, BitVec.add_zero] at h₀
  rw [load, h₀, h 1 (by omega), h 2 (by omega), h 3 (by omega)]
  refine BitVec.eq_of_getLsbD_eq fun i hi => ?_
  simp only [byte, BitVec.getLsbD_or, BitVec.getLsbD_shiftLeft, BitVec.getLsbD_setWidth,
    BitVec.getLsbD_ushiftRight]
  interval_cases i <;> simp

theorem byte_load {i : Nat} (hi : i < 4) : byte (load m a) i = m (a + BitVec.ofNat n i) := by
  have h₀ : a + BitVec.ofNat n 0 = a := BitVec.add_zero a
  refine BitVec.eq_of_getLsbD_eq fun j hj => ?_
  simp only [byte, load, BitVec.getLsbD_or, BitVec.getLsbD_shiftLeft, BitVec.getLsbD_setWidth,
    BitVec.getLsbD_ushiftRight]
  interval_cases i <;> simp [h₀] <;> grind

theorem flatMap_bytes_getElem? (ws : List (BitVec 32)) (i : Nat) {j : Nat} (hj : j < 4) :
    (ws.flatMap bytes)[4 * i + j]? = ws[i]?.map fun w => byte w j := by
  induction ws generalizing i with
  | nil => rfl
  | cons w ws ih =>
    have hlen : (bytes w).length = 4 := rfl
    rw [List.flatMap_cons]
    cases i with
    | zero =>
      rw [List.getElem?_append_left (by omega)]
      interval_cases j <;> rfl
    | succ i =>
      have hidx : 4 * (i + 1) + j - (bytes w).length = 4 * i + j := by omega
      rw [List.getElem?_append_right (by omega), hidx, ih]
      rfl

/-- A list of words is read back word by word. -/
theorem load_storeBytes {ws : List (BitVec 32)} {i : Nat} (hw : ws[i]? = some w)
    (hn : 4 * ws.length ≤ 2 ^ n) :
    load (storeBytes m a (ws.flatMap bytes)) (a + BitVec.ofNat n (4 * i)) = w := by
  obtain ⟨hi, -⟩ := List.getElem?_eq_some_iff.mp hw
  refine load_of_bytes fun j hj => ?_
  have hoff : (a + BitVec.ofNat n (4 * i) + BitVec.ofNat n j - a).toNat = 4 * i + j := by
    rw [BitVec.add_assoc, BitVec.add_comm, BitVec.add_sub_cancel, ← BitVec.ofNat_add,
      BitVec.toNat_ofNat, Nat.mod_eq_of_lt (by omega)]
  rw [storeBytes, hoff, flatMap_bytes_getElem? ws i hj, hw]
  rfl

section Mapping

variable {P : Type} {f : BitVec n → P} {m : P → BitVec 8}

/-- Write bytes from `a` on, one after the other, where `f` says. -/
def storeThrough [DecidableEq P] (f : BitVec n → P) (m : P → BitVec 8) : BitVec n → List (BitVec 8) → P → BitVec 8
  | _, [] => m
  | a, b :: bs => storeThrough f (Function.update m (f a) b) (a + 1#n) bs

/-- No address among the `k` from `a` on is another name for the byte at `b`. -/
def Clear (f : BitVec n → P) (a : BitVec n) (k : Nat) (b : BitVec n) : Prop :=
  ∀ i < k, a + BitVec.ofNat n i ≠ b → f (a + BitVec.ofNat n i) ≠ f b

theorem Clear.tail {k : Nat} (h : Clear f a (k + 1) b) : Clear f (a + 1#n) k b := by
  intro i hi
  rw [BitVec.add_assoc, BitVec.add_comm 1#n, ← BitVec.ofNat_add]
  exact h (i + 1) (by omega)

/-- A part of the addresses. -/
theorem Clear.part {i k l : Nat} (h : Clear f a k b) (hil : i + l ≤ k) :
    Clear f (a + BitVec.ofNat n i) l b := by
  intro j hj
  rw [BitVec.add_assoc, ← BitVec.ofNat_add]
  exact h (i + j) (by omega)

/-- Where the bytes written have no other name, only the address counts. -/
theorem storeThrough_apply [DecidableEq P] (hclear : Clear f a bs.length b) (hn : bs.length ≤ 2 ^ n) :
    storeThrough f m a bs (f b) = storeBytes (fun c => m (f c)) a bs b := by
  induction bs generalizing m a with
  | nil => rfl
  | cons x bs ih =>
    rw [List.length_cons] at hclear hn
    rw [storeThrough, ih hclear.tail (by omega), storeBytes_cons (by omega)]
    by_cases hba : b = a
    · -- the bytes that follow do not come around to `a` again
      have hlast : (a - (a + 1#n)).toNat = 2 ^ n - 1 := by
        have hneg : a - (a + 1#n) = -1#n := by
          rw [BitVec.sub_eq_add_neg, BitVec.neg_add, BitVec.sub_eq_add_neg, ← BitVec.add_assoc,
            ← BitVec.sub_eq_add_neg a a, BitVec.sub_self, BitVec.zero_add]
        rw [hneg, BitVec.neg_one_eq_allOnes, BitVec.toNat_allOnes]
      rw [if_pos hba, hba, storeBytes_of_le (by omega), Function.update_self]
    · have hne : f a ≠ f b := by
        have h₀ := hclear 0 (by omega)
        rw [show BitVec.ofNat n 0 = 0#n from rfl, BitVec.add_zero] at h₀
        exact h₀ (Ne.symm hba)
      rw [if_neg hba]
      exact storeBytes_congr (Function.update_of_ne (Ne.symm hne) ..)

end Mapping

end ByteMem
