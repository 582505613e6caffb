import Mathlib.Data.BitVec

/-!
# The arithmetic unit of the teaching processor

`alu` is the combinational module of `edc/cpu/vsrc/alu.v`: one adder that adds or subtracts, the bitwise
operations, the shifts and a comparison, selected by the four bits `aluc`. Wires of one bit are `Bool`, wider
ones bit vectors of their width.

The comparison is unsigned when `aluc[3]` is set and is meant to be signed otherwise. The unsigned one reads
the borrow of the subtraction. The signed one combines the sign of `a - b` with an overflow flag that comes
from the other adder, which adds when `aluc[3]` is clear, and is not an overflow flag of either operation:
`alu_compares_iff` says exactly on which operands the result is right all the same. Of the other operations only the
arithmetic shift to the right is wrong for some operands (`alu_computes_iff`).
-/

namespace Jos.Edc

/-- The outputs of the module. -/
structure AluOut where
  out : BitVec 32
  zero : Bool
  less : Bool
deriving DecidableEq

/-- The adder: `a + b`, or `a + ~b + 1` when `aluc[3]` is set, with its carry. -/
def aluSum (a b : BitVec 32) (aluc : BitVec 4) : BitVec 33 :=
  let extend : BitVec 32 := BitVec.fill 32 (aluc.getLsbD 3)
  let xorb := b ^^^ extend
  a.setWidth 33 + xorb.setWidth 33 + (BitVec.ofBool (aluc.getLsbD 3)).setWidth 33

/-- The second subtractor, which only the signed comparison reads. -/
def aluLessm (a b : BitVec 32) : BitVec 33 :=
  let xor1 := BitVec.allOnes 32 ^^^ b
  a.setWidth 33 + xor1.setWidth 33 + 1

/-- The comparison wire. -/
def aluLess (a b : BitVec 32) (aluc : BitVec 4) : Bool :=
  let sum := aluSum a b aluc
  let carry := sum.getLsbD 32
  let overflow := sum.getLsbD 32 ^^ sum.getLsbD 31
  if aluc.getLsbD 3 = true then carry ^^ aluc.getLsbD 3 else overflow ^^ (aluLessm a b).getLsbD 31

/-- The module. Both operands of `>>>` are unsigned nets, so it shifts in zeros as `>>` does. -/
def alu (a b : BitVec 32) (aluc : BitVec 4) : AluOut :=
  let sum := aluSum a b aluc
  let distance := b.extractLsb' 0 5
  let leftshift := a <<< distance.toNat
  let rightlogicshift := a >>> distance.toNat
  let rightarithmeticshift := a >>> distance.toNat
  let rightshift := if aluc.getLsbD 3 = true then rightarithmeticshift else rightlogicshift
  let less := aluLess a b aluc
  { out :=
      if aluc.extractLsb' 0 3 = 0 then sum.setWidth 32
      else if aluc.extractLsb' 0 3 = 1 then leftshift
      else if aluc.extractLsb' 0 3 = 2 then (BitVec.ofBool less).setWidth 32
      else if aluc.extractLsb' 0 3 = 3 then b
      else if aluc.extractLsb' 0 3 = 4 then a ^^^ b
      else if aluc.extractLsb' 0 3 = 5 then rightshift
      else if aluc.extractLsb' 0 3 = 6 then a ||| b
      else if aluc.extractLsb' 0 3 = 7 then a &&& b
      else 0
    zero := sum.setWidth 32 = 0
    less := less }

/-! ## The comparison -/

/-- The comparison the module is for: unsigned when `aluc[3]` is set, signed otherwise. -/
def lessThan (a b : BitVec 32) (aluc : BitVec 4) : Bool :=
  if aluc.getLsbD 3 = true then a.ult b else a.slt b

/-- The outputs show the comparison: `less` always, `out` when the comparison is selected. -/
def Compares (a b : BitVec 32) (aluc : BitVec 4) : Prop :=
  (alu a b aluc).less = lessThan a b aluc ∧
    (aluc.extractLsb' 0 3 = 2 → (alu a b aluc).out = (BitVec.ofBool (lessThan a b aluc)).setWidth 32)

/-- The module compares right exactly when its `less` wire does. -/
theorem compares_iff (a b : BitVec 32) (aluc : BitVec 4) :
    Compares a b aluc ↔ aluLess a b aluc = lessThan a b aluc := by
  constructor
  · exact And.left
  · intro h
    refine ⟨h, fun hc => ?_⟩
    simp only [alu, hc, h]
    rfl

section Arithmetic

variable (a b : BitVec 32)

/-- The complement of `b`, as a number. -/
theorem toNat_compl : (BitVec.allOnes 32 ^^^ b).toNat = 2 ^ 32 - 1 - b.toNat := by
  rw [BitVec.allOnes_xor, BitVec.toNat_not]

theorem toNat_aluLessm : (aluLessm a b).toNat = a.toNat + 2 ^ 32 - b.toNat := by
  have hb := b.isLt
  have ha := a.isLt
  have hone : (1 : BitVec 33).toNat = 1 := rfl
  simp only [aluLessm, BitVec.toNat_add, BitVec.toNat_setWidth, toNat_compl, hone]
  omega

theorem aluSum_sub {aluc : BitVec 4} (h : aluc.getLsbD 3 = true) : aluSum a b aluc = aluLessm a b := by
  have hfill : BitVec.fill 32 true = BitVec.allOnes 32 := by decide
  simp only [aluSum, aluLessm, h, hfill, BitVec.xor_comm b]
  rfl

theorem toNat_aluSum_add {aluc : BitVec 4} (h : aluc.getLsbD 3 = false) :
    (aluSum a b aluc).toNat = a.toNat + b.toNat := by
  have ha := a.isLt
  have hb := b.isLt
  have hfill : BitVec.fill 32 false = 0 := by decide
  have hxor : b ^^^ (0 : BitVec 32) = b := BitVec.xor_zero
  have hcarry : ((BitVec.ofBool false).setWidth 33).toNat = 0 := by decide
  simp only [aluSum, h, hfill, hxor, BitVec.toNat_add, hcarry]
  rw [BitVec.toNat_setWidth, BitVec.toNat_setWidth]
  omega

end Arithmetic

/-- A bit of a wire, as a digit of its number. -/
theorem getLsbD_eq_div {w : Nat} (x : BitVec w) (k : Nat) :
    x.getLsbD k = decide (x.toNat / 2 ^ k % 2 = 1) := by
  rw [BitVec.getLsbD, Nat.testBit_eq_decide_div_mod_eq]

/-- The subtraction borrows exactly when the first operand is smaller: the unsigned comparison is right. -/
theorem aluLess_unsigned {a b : BitVec 32} {aluc : BitVec 4} (h : aluc.getLsbD 3 = true) :
    aluLess a b aluc = a.ult b := by
  have ha := a.isLt
  have hb := b.isLt
  simp only [aluLess, h, if_true, aluSum_sub a b h, Bool.xor_true]
  rw [getLsbD_eq_div, toNat_aluLessm, BitVec.ult, ← decide_not, decide_eq_decide]
  omega

/-- The operands on which the signed comparison is right: of one sign with a sum that is representable, or of
two signs with a difference that is not. -/
def SignedOk (a b : BitVec 32) : Prop :=
  (a.msb = b.msb ∧ -2 ^ 31 ≤ a.toInt + b.toInt ∧ a.toInt + b.toInt < 2 ^ 31) ∨
    (a.msb ≠ b.msb ∧ (a.toInt - b.toInt < -2 ^ 31 ∨ 2 ^ 31 ≤ a.toInt - b.toInt))

instance (a b : BitVec 32) : Decidable (SignedOk a b) :=
  inferInstanceAs (Decidable (_ ∨ _))

section Signed

variable {a b : BitVec 32} {aluc : BitVec 4}

/-- The overflow wire of the signed comparison, over the numbers that are added. -/
def addOverflow (a b : BitVec 32) : Bool :=
  decide ((a.toNat + b.toNat) / 2 ^ 32 % 2 = 1) ^^ decide ((a.toNat + b.toNat) / 2 ^ 31 % 2 = 1)

theorem aluLess_of_clear (h : aluc.getLsbD 3 = false) :
    aluLess a b aluc = (addOverflow a b ^^ decide ((a.toNat + 2 ^ 32 - b.toNat) / 2 ^ 31 % 2 = 1)) := by
  simp only [aluLess, h, Bool.false_eq_true, if_false, getLsbD_eq_div, toNat_aluSum_add a b h,
    toNat_aluLessm, addOverflow]

/-- On operands of one sign the wire is the overflow of their sum. -/
theorem addOverflow_of_same (h : a.msb = b.msb) :
    addOverflow a b = false ↔ -2 ^ 31 ≤ a.toInt + b.toInt ∧ a.toInt + b.toInt < 2 ^ 31 := by
  have ha := a.isLt
  have hb := b.isLt
  rw [BitVec.msb_eq_decide, BitVec.msb_eq_decide, decide_eq_decide] at h
  rw [addOverflow, bne_eq_false_iff_eq, decide_eq_decide, BitVec.toInt_eq_toNat_cond,
    BitVec.toInt_eq_toNat_cond]
  split <;> split <;> omega

/-- On operands of two signs the wire is always set. -/
theorem addOverflow_of_mixed (h : a.msb ≠ b.msb) : addOverflow a b = true := by
  have ha := a.isLt
  have hb := b.isLt
  rw [BitVec.msb_eq_decide, BitVec.msb_eq_decide, ne_eq, decide_eq_decide] at h
  rw [addOverflow, bne_iff_ne, ne_eq, decide_eq_decide]
  omega

/-- The sign of the difference is the comparison of operands of one sign. -/
theorem sub_sign_of_same (h : a.msb = b.msb) :
    decide ((a.toNat + 2 ^ 32 - b.toNat) / 2 ^ 31 % 2 = 1) = a.slt b := by
  have ha := a.isLt
  have hb := b.isLt
  rw [BitVec.msb_eq_decide, BitVec.msb_eq_decide, decide_eq_decide] at h
  rw [BitVec.slt, decide_eq_decide, BitVec.toInt_eq_toNat_cond, BitVec.toInt_eq_toNat_cond]
  split <;> split <;> omega

/-- It is the wrong answer exactly when the difference is not representable. -/
theorem sub_sign_eq_not_iff :
    decide ((a.toNat + 2 ^ 32 - b.toNat) / 2 ^ 31 % 2 = 1) = !a.slt b ↔
      a.toInt - b.toInt < -2 ^ 31 ∨ 2 ^ 31 ≤ a.toInt - b.toInt := by
  have ha := a.isLt
  have hb := b.isLt
  rw [BitVec.slt, ← decide_not, decide_eq_decide, BitVec.toInt_eq_toNat_cond, BitVec.toInt_eq_toNat_cond]
  split <;> split <;> omega

/-- With `aluc[3]` clear the adder adds, so its flags are those of `a + b` and not of `a - b`. -/
theorem aluLess_signed_iff (h : aluc.getLsbD 3 = false) : aluLess a b aluc = a.slt b ↔ SignedOk a b := by
  rw [aluLess_of_clear h, SignedOk]
  by_cases hm : a.msb = b.msb
  · have hxor : ∀ x y : Bool, (x ^^ y) = y ↔ x = false := by decide
    rw [sub_sign_of_same hm, hxor, addOverflow_of_same hm]
    simp only [hm, true_and, ne_eq, not_true_eq_false, false_and, or_false]
  · rw [addOverflow_of_mixed hm, Bool.true_xor, Bool.not_eq_eq_eq_not, sub_sign_eq_not_iff]
    simp only [hm, false_and, ne_eq, not_false_eq_true, true_and, false_or]

end Signed

/-- The module's comparison is right exactly when it is unsigned, or is signed and the operands have one sign
and a representable sum, or two signs and a difference that is not representable. -/
theorem alu_compares_iff (a b : BitVec 32) (aluc : BitVec 4) :
    Compares a b aluc ↔ aluc.getLsbD 3 = true ∨ SignedOk a b := by
  rw [compares_iff, lessThan]
  cases h : aluc.getLsbD 3 with
  | true =>
    rw [if_pos rfl, aluLess_unsigned h]
    simp only [true_or]
  | false =>
    rw [if_neg Bool.false_ne_true, aluLess_signed_iff h]
    simp only [Bool.false_eq_true, false_or]

/-- The signed comparison says that `1` is less than `-1`. -/
theorem alu_signed_wrong : ¬ Compares 1 (-1) 2 := by
  intro h
  have hless : (alu 1 (-1) 2).less = lessThan 1 (-1) 2 := h.1
  revert hless
  decide

/-! ## The operations -/

/-- The distance of the shifts, `b[4:0]`. -/
def distance (b : BitVec 32) : Nat := (b.extractLsb' 0 5).toNat

/-- The outputs are those of the operation that `aluc` selects. The comparison, with the low bits 2, is not among
them. -/
structure Computes (a b : BitVec 32) (aluc : BitVec 4) : Prop where
  add : aluc = 0b0000 → (alu a b aluc).out = a + b
  sub : aluc = 0b1000 → (alu a b aluc).out = a - b
  shiftLeft : aluc.extractLsb' 0 3 = 0b001 → (alu a b aluc).out = a <<< distance b
  passB : aluc.extractLsb' 0 3 = 0b011 → (alu a b aluc).out = b
  xor : aluc.extractLsb' 0 3 = 0b100 → (alu a b aluc).out = a ^^^ b
  shiftRight : aluc = 0b0101 → (alu a b aluc).out = a >>> distance b
  sshiftRight : aluc = 0b1101 → (alu a b aluc).out = a.sshiftRight (distance b)
  or : aluc.extractLsb' 0 3 = 0b110 → (alu a b aluc).out = a ||| b
  and : aluc.extractLsb' 0 3 = 0b111 → (alu a b aluc).out = a &&& b
  zero : aluc.getLsbD 3 = true → ((alu a b aluc).zero = true ↔ a = b)

section Operations

variable (a b : BitVec 32) {aluc : BitVec 4}

theorem aluSum_low_add (h : aluc.getLsbD 3 = false) : (aluSum a b aluc).setWidth 32 = a + b := by
  apply BitVec.eq_of_toNat_eq
  rw [BitVec.toNat_setWidth, toNat_aluSum_add a b h, BitVec.toNat_add]

theorem aluSum_low_sub (h : aluc.getLsbD 3 = true) : (aluSum a b aluc).setWidth 32 = a - b := by
  have ha := a.isLt
  have hb := b.isLt
  apply BitVec.eq_of_toNat_eq
  rw [BitVec.toNat_setWidth, aluSum_sub a b h, toNat_aluLessm, BitVec.toNat_sub]
  omega

/-- With `aluc[3]` set the adder subtracts, and the flag says whether the operands are equal. -/
theorem alu_zero_iff (h : aluc.getLsbD 3 = true) : (alu a b aluc).zero = true ↔ a = b := by
  have hzero : (alu a b aluc).zero = decide ((aluSum a b aluc).setWidth 32 = 0) := rfl
  rw [hzero, decide_eq_true_iff, aluSum_low_sub a b h]
  exact BitVec.sub_eq_iff_eq_add.trans (by rw [BitVec.ofNat_eq_ofNat, BitVec.zero_add])

/-- For both codes the right shift moves in zeros. -/
theorem alu_shiftRight (h : aluc.extractLsb' 0 3 = 0b101) : (alu a b aluc).out = a >>> distance b := by
  have hor : (if aluc.getLsbD 3 = true then a >>> distance b else a >>> distance b) = a >>> distance b := by
    split <;> rfl
  simp only [alu, h]
  exact hor

/-- Shifting in zeros and shifting in the sign agree when the sign is 0 or nothing is shifted. -/
theorem ushiftRight_eq_sshiftRight_iff {n : Nat} :
    a >>> n = a.sshiftRight n ↔ ¬ (a.msb = true ∧ n ≠ 0) := by
  constructor
  · rintro heq ⟨hmsb, hne⟩
    have hsign : (a.sshiftRight n).msb = a.msb := BitVec.msb_sshiftRight
    rw [← heq, hmsb, BitVec.msb_ushiftRight, decide_eq_true (Nat.pos_of_ne_zero hne)] at hsign
    cases hsign
  · intro h
    by_cases h0 : n = 0
    · rw [h0, BitVec.sshiftRight_zero, BitVec.ushiftRight_zero]
    · have hmsb : a.msb = false := Bool.eq_false_iff.mpr fun hm => h ⟨hm, h0⟩
      rw [BitVec.sshiftRight_eq_of_msb_false hmsb]

end Operations

/-- Every operation is right except for the arithmetic shift to the right: both operands of `>>>` are unsigned, so
of a negative number shifted by at least one place the module returns the logical shift. -/
theorem alu_computes_iff (a b : BitVec 32) (aluc : BitVec 4) :
    Computes a b aluc ↔ ¬ (aluc = 0b1101 ∧ a.msb = true ∧ distance b ≠ 0) := by
  constructor
  · rintro h ⟨rfl, hmsb, hne⟩
    have hout := h.sshiftRight rfl
    rw [alu_shiftRight a b rfl, ushiftRight_eq_sshiftRight_iff a] at hout
    exact hout ⟨hmsb, hne⟩
  · intro h
    refine ⟨fun hc => ?_, fun hc => ?_, fun hc => ?_, fun hc => ?_, fun hc => ?_, fun hc => ?_, fun hc => ?_,
      fun hc => ?_, fun hc => ?_, alu_zero_iff a b⟩
    · subst hc
      exact aluSum_low_add a b rfl
    · subst hc
      exact aluSum_low_sub a b rfl
    · simp only [alu, hc]
      rfl
    · simp only [alu, hc]
      rfl
    · simp only [alu, hc]
      rfl
    · subst hc
      exact alu_shiftRight a b rfl
    · subst hc
      rw [alu_shiftRight a b rfl, ushiftRight_eq_sshiftRight_iff a]
      exact fun hneg => h ⟨rfl, hneg⟩
    · simp only [alu, hc]
      rfl
    · simp only [alu, hc]
      rfl

/-- The smallest number shifted by one place to the right gives a positive one. -/
theorem alu_sra_wrong : ¬ Computes 0x80000000 1 0b1101 := by
  intro h
  have hout := h.sshiftRight rfl
  revert hout
  decide

end Jos.Edc
