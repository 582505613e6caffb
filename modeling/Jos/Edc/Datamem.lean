import Jos.Lib.Synchronous
import Mathlib.Data.BitVec

/-!
# The data memory of the teaching processor

`datamem` of `edc/cpu/vsrc/datamem.v` is a memory of 64 words whose writes are meant to change only the bytes that
`byteena_a` selects. Two registers divide the clock, and both rise on the same edge of `clk`. On that edge one block
reads the word at the address into `tempout`, and the other writes the bytes of `tempout` back where the enable is
clear. All assignments are non-blocking, so the write uses the `tempout` from before the edge: the word that the last
write has replaced, at whatever address that was.

`always_preserves_iff` says when the bytes are preserved all the same.
-/

namespace Jos.Edc

open Synchronous

/-- The inputs at an edge of `clk`. -/
structure DatamemInputs where
  byteenaA : BitVec 4
  data : BitVec 32
  rdaddress : BitVec 15
  wraddress : BitVec 15
  wren : Bool

/-- The registers. -/
structure Datamem where
  q : BitVec 32
  tempout : BitVec 32
  ram : BitVec 6 → BitVec 32
  rdclock : Bool
  wrclock : Bool

/-- Byte `n` of a word. -/
def byteOf (w : BitVec 32) (n : Nat) : BitVec 8 := w.extractLsb' (8 * n) 8

/-- The word made of the enabled bytes of `data` and the others of `old`. -/
def mergeBytes (byteena : BitVec 4) (data old : BitVec 32) : BitVec 32 :=
  let byte (n : Nat) := if byteena.getLsbD n = true then byteOf data n else byteOf old n
  byte 3 ++ byte 2 ++ byte 1 ++ byte 0

/-- The word of the memory that the low six bits of an address select. -/
def cell (address : BitVec 15) : BitVec 6 := address.extractLsb' 0 6

namespace Datamem

/-- The wire `tempin`. -/
def tempin (s : Datamem) (i : DatamemInputs) : BitVec 32 := mergeBytes i.byteenaA i.data s.tempout

/-- The block on `posedge rdclock`. -/
def read (s : Datamem) (i : DatamemInputs) (n : Datamem) : Datamem :=
  if i.wren = true then { n with tempout := s.ram (cell i.wraddress) } else { n with q := s.ram (cell i.rdaddress) }

/-- The block on `posedge wrclock`. -/
def write (s : Datamem) (i : DatamemInputs) (n : Datamem) : Datamem :=
  if i.wren = true then { n with ram := Function.update s.ram (cell i.wraddress) (s.tempin i) } else n

/-- An edge of `clk`: the dividers change, and the blocks of those that rise see the registers as they were. -/
def next (s : Datamem) (i : DatamemInputs) : Datamem :=
  let n := { s with rdclock := !s.rdclock, wrclock := !s.wrclock }
  let n := if s.rdclock = false then s.read i n else n
  if s.wrclock = false then s.write i n else n

/-- If `wrclock` rises, a write changes the enabled bytes of its word and nothing else, and a read returns the word
at its address. -/
def Preserves (s : Datamem) (i : DatamemInputs) : Prop :=
  s.wrclock = false →
    (i.wren = true →
      (∀ n < 4, byteOf ((s.next i).ram (cell i.wraddress)) n =
        if i.byteenaA.getLsbD n = true then byteOf i.data n else byteOf (s.ram (cell i.wraddress)) n) ∧
      ∀ a ≠ cell i.wraddress, (s.next i).ram a = s.ram a) ∧
    (i.wren = false → (s.next i).ram = s.ram ∧ (s.next i).q = s.ram (cell i.rdaddress))

end Datamem

/-! ## A memory with byte enables -/

/-- A memory that keeps the other bytes, and the word that its last write has replaced. -/
structure ByteMemory where
  ram : BitVec 6 → BitVec 32
  replaced : BitVec 32
  wrclock : Bool

namespace ByteMemory

/-- A write on every second edge. -/
def next (m : ByteMemory) (i : DatamemInputs) : ByteMemory :=
  if m.wrclock = false ∧ i.wren = true then
    { ram := Function.update m.ram (cell i.wraddress)
        (mergeBytes i.byteenaA i.data (m.ram (cell i.wraddress)))
      replaced := m.ram (cell i.wraddress)
      wrclock := !m.wrclock }
  else { m with wrclock := !m.wrclock }

theorem next_wrclock (m : ByteMemory) (i : DatamemInputs) : (m.next i).wrclock = !m.wrclock := by
  unfold next
  split <;> rfl

/-- In the bytes that a write leaves out, its word and the word replaced by the write before are the same. -/
def Agrees (m : ByteMemory) (i : DatamemInputs) : Prop :=
  m.wrclock = false → i.wren = true →
    ∀ n < 4, i.byteenaA.getLsbD n = false → byteOf m.replaced n = byteOf (m.ram (cell i.wraddress)) n

end ByteMemory

/-! ## Bytes -/

section Bytes

variable (byteena : BitVec 4) (data old : BitVec 32)

theorem byteOf_mergeBytes {n : Nat} (hn : n < 4) : byteOf (mergeBytes byteena data old) n =
    if byteena.getLsbD n = true then byteOf data n else byteOf old n := by
  -- the four bytes of a concatenation, whatever they are
  have hparts : ∀ b₃ b₂ b₁ b₀ : BitVec 8, byteOf (b₃ ++ b₂ ++ b₁ ++ b₀) 0 = b₀ ∧ byteOf (b₃ ++ b₂ ++ b₁ ++ b₀) 1 = b₁ ∧
      byteOf (b₃ ++ b₂ ++ b₁ ++ b₀) 2 = b₂ ∧ byteOf (b₃ ++ b₂ ++ b₁ ++ b₀) 3 = b₃ := by
    intro b₃ b₂ b₁ b₀
    refine ⟨?_, ?_, ?_, ?_⟩ <;> ext k hk <;> simp [byteOf] <;> grind
  obtain ⟨h₀, h₁, h₂, h₃⟩ := hparts _ _ _ _
  obtain rfl | rfl | rfl | rfl : n = 0 ∨ n = 1 ∨ n = 2 ∨ n = 3 := by omega
  · exact h₀
  · exact h₁
  · exact h₂
  · exact h₃

/-- A word is its four bytes. -/
theorem eq_of_byteOf {w w' : BitVec 32} (h : ∀ n < 4, byteOf w n = byteOf w' n) : w = w' := by
  apply BitVec.eq_of_getLsbD_eq
  intro k hk
  have hbyte := congrArg (fun b => b.getLsbD (k % 8)) (h (k / 8) (by omega))
  simpa [byteOf, Nat.mod_lt, Nat.div_add_mod] using hbyte

end Bytes

/-! ## Preserving bytes -/

namespace Datamem

variable {s : Datamem} {i : DatamemInputs}

theorem next_clocks (s : Datamem) (i : DatamemInputs) :
    (s.next i).rdclock = !s.rdclock ∧ (s.next i).wrclock = !s.wrclock := by
  simp only [next, read, write]
  split_ifs <;> exact ⟨rfl, rfl⟩

/-- Without a rising edge nothing happens. -/
theorem next_falls (hr : s.rdclock = true) (hw : s.wrclock = true) :
    s.next i = { s with rdclock := !s.rdclock, wrclock := !s.wrclock } := by
  unfold next
  rw [if_neg (by rw [hw]; decide), if_neg (by rw [hr]; decide)]

theorem next_writes (hr : s.rdclock = false) (hw : s.wrclock = false) (hi : i.wren = true) :
    (s.next i).ram = Function.update s.ram (cell i.wraddress) (s.tempin i) ∧
      (s.next i).tempout = s.ram (cell i.wraddress) := by
  simp only [next, read, write, hr, hw, hi, if_true, and_self]

theorem next_reads (hr : s.rdclock = false) (hw : s.wrclock = false) (hi : i.wren = false) :
    (s.next i).ram = s.ram ∧ (s.next i).tempout = s.tempout ∧ (s.next i).q = s.ram (cell i.rdaddress) := by
  simp only [next, read, write, hr, hw, hi, if_true, Bool.false_eq_true, if_false, and_self]

/-- What `tempout` is: the word that the last write has replaced. -/
structure Holds (s : Datamem) (m : ByteMemory) : Prop where
  ram : m.ram = s.ram
  replaced : m.replaced = s.tempout
  wrclock : m.wrclock = s.wrclock
  clocks : s.rdclock = s.wrclock

variable {m : ByteMemory}

theorem Holds.preserves_iff (h : Holds s m) : s.Preserves i ↔ m.Agrees i := by
  unfold Preserves ByteMemory.Agrees
  rw [h.wrclock]
  refine forall_congr' fun hw => ?_
  have hr := h.clocks.trans hw
  cases hi : i.wren with
  | false =>
    obtain ⟨hram, -, hq⟩ := next_reads hr hw hi
    exact iff_of_true ⟨nofun, fun _ => ⟨hram, hq⟩⟩ nofun
  | true =>
    obtain ⟨hram, -⟩ := next_writes hr hw hi
    rw [hram, Function.update_self, h.ram, h.replaced]
    constructor
    · intro hp _ n hn hoff
      have hbyte := (hp.1 rfl).1 n hn
      rw [tempin, byteOf_mergeBytes _ _ _ hn, hoff] at hbyte
      exact hbyte
    · intro ha
      refine ⟨fun _ => ⟨fun n hn => ?_, fun a hne => Function.update_of_ne hne _ _⟩, nofun⟩
      rw [tempin, byteOf_mergeBytes _ _ _ hn]
      cases hon : i.byteenaA.getLsbD n with
      | true => rfl
      | false => exact ha rfl n hn hon

/-- As long as bytes are preserved, the memory is one with byte enables. -/
theorem Holds.next (h : Holds s m) (hp : s.Preserves i) : Holds (s.next i) (m.next i) := by
  obtain ⟨hrd, hwr⟩ := next_clocks s i
  have hwrclock : (m.next i).wrclock = (s.next i).wrclock := by rw [m.next_wrclock, hwr, h.wrclock]
  have hclocks : (s.next i).rdclock = (s.next i).wrclock := by rw [hrd, hwr, h.clocks]
  by_cases hrise : s.wrclock = false ∧ i.wren = true
  · obtain ⟨hw, hi⟩ := hrise
    obtain ⟨hram, hout⟩ := next_writes (h.clocks.trans hw) hw hi
    have hsame : s.tempin i = mergeBytes i.byteenaA i.data (s.ram (cell i.wraddress)) := by
      refine eq_of_byteOf fun n hn => ?_
      have hbyte := ((hp hw).1 hi).1 n hn
      rw [hram, Function.update_self] at hbyte
      rw [hbyte, byteOf_mergeBytes _ _ _ hn]
    refine ⟨?_, ?_, hwrclock, hclocks⟩
    all_goals rw [ByteMemory.next, if_pos ⟨h.wrclock.trans hw, hi⟩]
    · rw [hram, hsame, h.ram]
    · rw [hout, h.ram]
  · -- neither memory is written
    have hkept : (s.next i).ram = s.ram ∧ (s.next i).tempout = s.tempout := by
      cases hw : s.wrclock with
      | true =>
        rw [next_falls (h.clocks.trans hw) hw]
        exact ⟨rfl, rfl⟩
      | false =>
        have hi : i.wren = false := Bool.eq_false_iff.mpr fun hi => hrise ⟨hw, hi⟩
        obtain ⟨hram, hout, -⟩ := next_reads (h.clocks.trans hw) hw hi
        exact ⟨hram, hout⟩
    refine ⟨?_, ?_, hwrclock, hclocks⟩
    all_goals rw [ByteMemory.next, if_neg fun hc => hrise ⟨h.wrclock.symm.trans hc.1, hc.2⟩]
    · exact h.ram.trans hkept.1.symm
    · exact h.replaced.trans hkept.2.symm

/-- Writes preserve the bytes they leave out over a whole sequence of inputs exactly when, in a memory that does so,
each word written agrees in these bytes with the word replaced by the write before it. -/
theorem always_preserves_iff (s : Datamem) (is : List DatamemInputs) (hclocks : s.rdclock = s.wrclock) :
    Always next Preserves s is ↔ Always ByteMemory.next ByteMemory.Agrees ⟨s.ram, s.tempout, s.wrclock⟩ is := by
  refine always_congr (R := Holds) ?_ ?_ ⟨rfl, rfl, rfl, hclocks⟩ is
  · intro s m i h
    exact h.preserves_iff
  · intro s m i h hp
    exact h.next hp

/-- A memory of zeros. -/
def zeros : Datamem := ⟨0, 0, fun _ => 0, false, false⟩

/-- A write of a whole word and one of a byte, both to word 0, and an edge on which nothing is written. -/
def writeWord (data : BitVec 32) : DatamemInputs := ⟨0b1111, data, 0, 0, true⟩
def writeByte (data : BitVec 32) : DatamemInputs := ⟨0b0001, data, 0, 0, true⟩
def readWord : DatamemInputs := ⟨0b0000, 0, 0, 0, false⟩

/-- After two words have been written to the same address, a byte write brings back three bytes of the first. -/
theorem preserves_fails : ¬ Always next Preserves zeros
    [writeWord 0x11111111, readWord, writeWord 0x22222222, readWord, writeByte 0x33333333] := by
  rintro ⟨-, -, -, -, hbyte, -⟩
  have hbyte := ((hbyte rfl).1 rfl).1 1 (by decide)
  revert hbyte
  decide

/-- In a memory of zeros the first byte write leaves the other bytes. -/
theorem preserves_first : zeros.rdclock = zeros.wrclock ∧ Always next Preserves zeros [writeByte 0x33333333] := by
  refine ⟨rfl, (always_preserves_iff zeros [writeByte 0x33333333] rfl).mpr ⟨fun _ _ n _ _ => ?_, trivial⟩⟩
  rfl

end Datamem

end Jos.Edc
