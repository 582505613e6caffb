import Jos.Edc.Ps2keyboard
import Mathlib.Tactic.Tauto

/-!
# Counting key releases

The receiver counts how often each key is released: when a byte is stored and the FIFO entry before it holds
the release prefix `F0`, the count of that byte grows by one. The entry before the write pointer is read as
`fifo[w_ptr - 1]`. The literal makes that subtraction 32 bits wide, so at write pointer 0 the index is
`2^32 - 1`, which reads as unknown, and the release is not counted.

`Counts` is the invariant of `times` over a run: the releases at positions that are not multiples of eight.
`times_exact_iff` says when that is the number of all releases.
-/

namespace Jos.Edc

open Synchronous

/-! ## Releases in a byte sequence -/

/-- At position `j` the byte `k` follows the release prefix. -/
def releasedAt (bytes : List (BitVec 8)) (k : BitVec 8) (j : Nat) : Bool :=
  j != 0 && bytes[j - 1]? == some 0xf0 && bytes[j]? == some k

/-- The number of releases of the key `k`. -/
def releases (bytes : List (BitVec 8)) (k : BitVec 8) : Nat :=
  (List.range bytes.length).countP (releasedAt bytes k)

/-- Of these, the ones at which the write pointer is 0. -/
def wrapReleases (bytes : List (BitVec 8)) (k : BitVec 8) : Nat :=
  (List.range bytes.length).countP fun j => releasedAt bytes k j && j % 8 == 0

/-- And the others. -/
def countedReleases (bytes : List (BitVec 8)) (k : BitVec 8) : Nat :=
  (List.range bytes.length).countP fun j => releasedAt bytes k j && j % 8 != 0

section Releases

variable (bytes : List (BitVec 8)) (b k : BitVec 8)

theorem releases_eq : releases bytes k = countedReleases bytes k + wrapReleases bytes k := by
  rw [releases, countedReleases, wrapReleases]
  induction List.range bytes.length with
  | nil => rfl
  | cons j l ih =>
    simp only [List.countP_cons, ih]
    cases releasedAt bytes k j <;> cases h : (j % 8 == 0) <;> simp [bne, h] <;> omega

/-- One more byte does not change the positions before it. -/
theorem releasedAt_append {j : Nat} (hj : j < bytes.length) :
    releasedAt (bytes ++ [b]) k j = releasedAt bytes k j := by
  rw [releasedAt, releasedAt, List.getElem?_append_left hj, List.getElem?_append_left (by omega)]

/-- At the new position it is a release exactly when the prefix came before. -/
theorem releasedAt_last :
    releasedAt (bytes ++ [b]) k bytes.length = (bytes.getLast? == some 0xf0 && b == k) := by
  rw [releasedAt, List.getElem?_append_right (le_refl _), Nat.sub_self, List.getLast?_eq_getElem?]
  rcases Nat.eq_zero_or_pos bytes.length with h | h
  · simp [h]
  · rw [List.getElem?_append_left (by omega)]
    have hne : (bytes.length != 0) = true := bne_iff_ne.mpr (by omega)
    simp [hne]

/-- One more byte counts if it follows the prefix and its position is not a multiple of eight. -/
theorem countedReleases_append :
    countedReleases (bytes ++ [b]) k = countedReleases bytes k +
      if (bytes.getLast? == some 0xf0 && b == k) && bytes.length % 8 != 0 then 1 else 0 := by
  have hinit : (List.range bytes.length).countP (fun j => releasedAt (bytes ++ [b]) k j && j % 8 != 0) =
      countedReleases bytes k := by
    apply List.countP_congr
    intro j hj
    rw [releasedAt_append bytes b k (List.mem_range.mp hj)]
  rw [countedReleases, List.length_append, List.length_singleton, List.range_succ, List.countP_append, hinit,
    List.countP_singleton, releasedAt_last]

end Releases

/-! ## The counter -/

namespace Ps2keyboard

variable {s : Ps2keyboard} {i : Ps2Inputs} {bytes : List (BitVec 8)}

/-- The counter after a byte is stored. -/
theorem push_times (s n : Ps2keyboard) (hn : n.times = s.times) (k : BitVec 8) :
    (s.push n).times k = s.times k +
      if s.fifoAt (s.wPtr.setWidth 32 - 1) = some 0xf0 ∧ s.buffer.extractLsb' 1 8 = k then 1 else 0 := by
  simp only [push]
  by_cases hp : s.fifoAt (s.wPtr.setWidth 32 - 1) = some 0xf0
  · simp only [hp, if_true, true_and]
    by_cases hk : s.buffer.extractLsb' 1 8 = k
    · rw [if_pos hk, hk, Function.update_self]
    · rw [if_neg hk, Function.update_of_ne (Ne.symm hk), add_zero]
  · simp only [hp, if_false, false_and, add_zero, hn]

/-- The entry before the write pointer, out of range when the pointer is 0. -/
theorem fifoAt_pred (s : Ps2keyboard) :
    s.fifoAt (s.wPtr.setWidth 32 - 1) = if s.wPtr = 0 then none else s.fifo (s.wPtr - 1) := by
  have hrange : ∀ p : BitVec 3, (p.setWidth 32 - 1).toNat < 8 ↔ p ≠ 0 := by decide
  have hindex : ∀ p : BitVec 3, (p.setWidth 32 - 1).setWidth 3 = p - 1 := by decide
  rw [fifoAt, hindex]
  by_cases hw : s.wPtr = 0
  · rw [if_pos hw, if_neg (fun h => (hrange _).mp h hw)]
  · rw [if_neg hw, if_pos ((hrange _).mpr hw)]

/-- An edge stores nothing and leaves the FIFO and the counters, or it stores the byte in the buffer. -/
theorem next_stores (s : Ps2keyboard) (hc : i.clrn = true) :
    (s.stored i = none ∧ (s.next i).times = s.times ∧ (s.next i).fifo = s.fifo ∧ (s.next i).wPtr = s.wPtr) ∨
      (s.stored i = some (s.buffer.extractLsb' 1 8) ∧
        ∃ n : Ps2keyboard, n.times = s.times ∧ s.next i = { s.push n with count := 0 }) := by
  have hnext : s.next i = s.sample (s.pop (s.shiftClk i.ps2Clk)) i.ps2Data := by
    simp [next, hc, shiftClk]
  have hidle : (s.pop (s.shiftClk i.ps2Clk)).times = s.times ∧ (s.pop (s.shiftClk i.ps2Clk)).fifo = s.fifo ∧
      (s.pop (s.shiftClk i.ps2Clk)).wPtr = s.wPtr := by
    obtain ⟨_, _, _, hpop⟩ := pop_eq s (s.shiftClk i.ps2Clk)
    rw [hpop]
    exact ⟨rfl, rfl, rfl⟩
  rw [stored, hnext, sample]
  cases s.sampling with
  | false =>
    left
    exact ⟨if_pos hidle.2.2, hidle⟩
  | true =>
    cases s.count == 10 with
    | false =>
      left
      exact ⟨if_pos hidle.2.2, hidle⟩
    | true =>
      cases s.accepts i.ps2Data with
      | false =>
        left
        exact ⟨if_pos hidle.2.2, hidle⟩
      | true =>
        right
        have hmoves : ∀ p : BitVec 3, p + 1 ≠ p := by decide
        refine ⟨?_, _, hidle.1, rfl⟩
        simp only [if_true, push_wPtr, push_fifo, Function.update_self]
        rw [if_neg (hmoves s.wPtr)]

/-- The counters hold the releases at positions that are not multiples of eight, and the last byte is the
entry before the write pointer. -/
structure Counts (bytes : List (BitVec 8)) (s : Ps2keyboard) : Prop where
  times : ∀ k, s.times k = BitVec.ofNat 8 (countedReleases bytes k)
  last : ∀ b, bytes.getLast? = some b → s.fifo (s.wPtr - 1) = some b

/-- The circuit finds the prefix before the write pointer when it was the last byte and the pointer is not
0. -/
theorem Counts.fifoAt_pred_iff (h : Counts bytes s) (hw : s.wPtr = BitVec.ofNat 3 bytes.length) :
    s.fifoAt (s.wPtr.setWidth 32 - 1) = some 0xf0 ↔
      bytes.getLast? = some 0xf0 ∧ bytes.length % 8 ≠ 0 := by
  have hpos : s.wPtr = 0 ↔ bytes.length % 8 = 0 := by
    rw [hw, ← BitVec.toNat_inj, BitVec.toNat_ofNat]
    rfl
  rw [fifoAt_pred]
  by_cases h0 : s.wPtr = 0
  · rw [if_pos h0]
    simp [hpos.mp h0]
  · have hne : bytes.length % 8 ≠ 0 := fun he => h0 (hpos.mpr he)
    rw [if_neg h0]
    cases hl : bytes.getLast? with
    | none =>
      rw [List.getLast?_eq_none_iff] at hl
      exact absurd (by rw [hl]; rfl) hne
    | some b =>
      rw [h.last b hl]
      simp [hne]

/-- One edge counts the byte it stores, unless the write pointer is 0. -/
theorem Counts.next (h : Counts bytes s) (hw : s.wPtr = BitVec.ofNat 3 bytes.length) (hc : i.clrn = true) :
    Counts (bytes ++ (s.stored i).toList) (s.next i) := by
  obtain ⟨hstored, htimes, hfifo, hptr⟩ | ⟨hstored, n, hn, hnext⟩ := next_stores s hc
  · rw [hstored, Option.toList_none, List.append_nil]
    constructor
    · intro k
      rw [htimes, h.times]
    · intro b hb
      rw [hfifo, hptr]
      exact h.last b hb
  · rw [hstored, Option.toList_some, hnext]
    constructor
    · intro k
      have htimes : ({ s.push n with count := 0 } : Ps2keyboard).times k = (s.push n).times k := rfl
      rw [htimes, push_times s n hn, h.times, countedReleases_append, BitVec.ofNat_add,
        apply_ite (BitVec.ofNat 8)]
      congr 1
      refine if_congr ?_ rfl rfl
      rw [h.fifoAt_pred_iff hw]
      simp only [Bool.and_eq_true, beq_iff_eq, bne_iff_ne]
      tauto
    · intro b hb
      rw [List.getLast?_concat] at hb
      have hback : s.wPtr + 1 - 1 = s.wPtr := BitVec.add_sub_cancel ..
      simp only [push_wPtr, push_fifo, hback, Function.update_self]
      exact hb

variable {r : Ps2Receiver} {is : List Ps2Inputs}

/-- Over a run the counters count what the receiver gets from the bits taken. -/
theorem Counts.run (hr : Receives r s) (h : Counts r.bytes s) (his : ∀ i ∈ is, i.clrn = true) :
    Counts ((s.sampledBits is).foldl Ps2Receiver.bit r).bytes (Synchronous.run Ps2keyboard.next s is) := by
  have hstep : ∀ (r : Ps2Receiver) (s : Ps2keyboard) (i : Ps2Inputs), Receives r s ∧ Counts r.bytes s →
      i.clrn = true → (Receives ((s.sampled i).toList.foldl Ps2Receiver.bit r) (s.next i) ∧
        Counts ((s.sampled i).toList.foldl Ps2Receiver.bit r).bytes (s.next i)) ∧
        ((s.sampled i).toList.foldl Ps2Receiver.bit r).bytes = r.bytes ++ (s.stored i).toList := by
    intro r s i ⟨hr, hcount⟩ hi
    have hfollows := hr.follows hi
    refine ⟨⟨hfollows.receives, ?_⟩, hfollows.bytes⟩
    rw [hfollows.bytes]
    exact hcount.next hr.wPtr hi
  exact (run_simulates hstep ⟨hr, h⟩ his).1.2

/-- The reset leaves the counters, and nothing has been received. -/
theorem counts_reset (s : Ps2keyboard) (hzero : ∀ k, s.times k = 0) (hi : i.clrn = false) :
    Counts [] (s.next i) := by
  have htimes : (s.next i).times = s.times := by
    simp [Ps2keyboard.next, hi]
  refine ⟨fun k => ?_, fun b hb => absurd hb (by simp)⟩
  rw [htimes, hzero]
  rfl

end Ps2keyboard

/-- The bytes received in a sequence of frames. -/
def received (frames : List Ps2Frame) : List (BitVec 8) := (frames.filter Ps2Frame.valid).map Ps2Frame.data

namespace Ps2keyboard

variable {s : Ps2keyboard} {i₀ : Ps2Inputs} {is : List Ps2Inputs} {frames : List Ps2Frame}

/-- The counters after a run, for every key. -/
theorem times_run (hzero : ∀ k, s.times k = 0) (hreset : i₀.clrn = false) (his : ∀ i ∈ is, i.clrn = true)
    (hbits : (s.next i₀).sampledBits is = frames.flatMap Ps2Frame.bits) (k : BitVec 8) :
    (run next (s.next i₀) is).times k = BitVec.ofNat 8 (countedReleases (received frames) k) := by
  have hcount := Counts.run (receives_reset s hreset) (counts_reset s hzero hreset) his
  rw [hbits, Ps2Receiver.foldl_frames] at hcount
  exact hcount.times k

/-- The counters are the numbers of releases, modulo 256, exactly when for every key the number of its
releases at positions that are multiples of eight is a multiple of 256: these are the ones that are missed. -/
theorem times_exact_iff (s : Ps2keyboard) (i₀ : Ps2Inputs) (is : List Ps2Inputs) (frames : List Ps2Frame)
    (hzero : ∀ k, s.times k = 0) (hreset : i₀.clrn = false) (his : ∀ i ∈ is, i.clrn = true)
    (hbits : (s.next i₀).sampledBits is = frames.flatMap Ps2Frame.bits) :
    (∀ k, (run next (s.next i₀) is).times k = BitVec.ofNat 8 (releases (received frames) k)) ↔
      ∀ k, wrapReleases (received frames) k % 256 = 0 := by
  refine forall_congr' fun k => ?_
  rw [times_run hzero hreset his hbits k, releases_eq, ← BitVec.toNat_inj, BitVec.toNat_ofNat,
    BitVec.toNat_ofNat]
  omega

/-- A key is pressed seven times and released once. -/
def eightCodes : List Ps2Frame :=
  List.replicate 7 ⟨false, 0x1c, false, true⟩ ++ [⟨false, 0xf0, true, true⟩, ⟨false, 0x1c, false, true⟩]

/-- Its release is at position 8 and is not counted. -/
theorem times_wrap_missed :
    ∃ is, (∀ i ∈ is, i.clrn = true) ∧
      (powerUp.next resetCycle).sampledBits is = eightCodes.flatMap Ps2Frame.bits ∧
      (∀ f ∈ eightCodes, f.valid = true) ∧ releases (received eightCodes) 0x1c = 1 ∧
      (run next (powerUp.next resetCycle) is).times 0x1c = 0 := by
  have hbits := sampledBits_wave (eightCodes.flatMap Ps2Frame.bits) (powerUp.next resetCycle)
    (by rw [next_ps2ClkSync]; rfl)
  refine ⟨(eightCodes.flatMap Ps2Frame.bits).flatMap wave, fun i hi => clrn_wave hi, hbits, by decide,
    by decide, ?_⟩
  have htimes := times_run (s := powerUp) (fun _ => rfl) rfl (fun i hi => clrn_wave hi) hbits 0x1c
  rw [htimes]
  decide

/-- One press and one release are counted. -/
theorem times_exact_press :
    ∃ is, ∀ k, (run next (powerUp.next resetCycle) is).times k =
      BitVec.ofNat 8 (releases [0x1c, 0xf0, 0x1c] k) := by
  let frames : List Ps2Frame :=
    [⟨false, 0x1c, false, true⟩, ⟨false, 0xf0, true, true⟩, ⟨false, 0x1c, false, true⟩]
  have hbits := sampledBits_wave (frames.flatMap Ps2Frame.bits) (powerUp.next resetCycle)
    (by rw [next_ps2ClkSync]; rfl)
  have hreceived : received frames = [0x1c, 0xf0, 0x1c] := by decide
  have hexact := times_exact_iff powerUp resetCycle _ frames (fun _ => rfl) rfl (fun i hi => clrn_wave hi) hbits
  rw [hreceived] at hexact
  refine ⟨_, hexact.mpr fun k => ?_⟩
  have hnone : wrapReleases [0x1c, 0xf0, 0x1c] k = 0 := by
    simp [wrapReleases, releasedAt, List.range_succ]
  rw [hnone]

end Ps2keyboard

end Jos.Edc
