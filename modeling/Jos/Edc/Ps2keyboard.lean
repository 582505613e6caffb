import Jos.Lib.Synchronous
import Mathlib.Data.BitVec
import Mathlib.Data.List.GetD

/-!
# The keyboard receiver

`Ps2keyboard` holds the registers of `edc/ps2fsm/vsrc/ps2keyboard.v` and `next` is one edge of its clock. The
module synchronises the keyboard's clock, takes one bit at each of its falling edges, and after eleven bits
stores the byte of a well-formed frame in a FIFO of eight entries. A stored byte raises `ready` and clears
`nextdata_n`, and the next edge consumes it again.

Non-blocking assignments read the registers as they were before the edge, and of two to one register the
later in the text wins: `pop` and `sample` read the old registers `s` and change the collected ones `n`. A FIFO
entry that was never written, or whose index is out of range, reads as unknown, `none`; a comparison with it
is not true. The other registers hold any value before the reset.

The displays that `trans` and `seg` drive from these registers are left out.
-/

namespace Jos.Edc

/-- The inputs of one clock cycle. -/
structure Ps2Inputs where
  clrn : Bool
  ps2Clk : Bool
  ps2Data : Bool
deriving DecidableEq

/-- The registers. -/
structure Ps2keyboard where
  times : BitVec 8 → BitVec 8
  buffer : BitVec 10
  fifo : BitVec 3 → Option (BitVec 8)
  wPtr : BitVec 3
  rPtr : BitVec 3
  count : BitVec 4
  nextdataN : Bool
  ps2ClkSync : BitVec 3
  ready : Bool
  overflow : Bool

/-- The exclusive or of all bits, `^x`. -/
def xorReduce {w : Nat} (x : BitVec w) : Bool :=
  (List.range w).foldl (fun p k => p ^^ x.getLsbD k) false

/-- `x[k] <= b`: a write outside the register has no effect. -/
def setBit {w : Nat} (x : BitVec w) (k : Nat) (b : Bool) : BitVec w :=
  if b then x ||| 1#w <<< k else x &&& ~~~(1#w <<< k)

namespace Ps2keyboard

variable (s : Ps2keyboard)

/-- A falling edge of the keyboard's clock has come through the synchroniser. -/
def sampling : Bool := s.ps2ClkSync.getLsbD 2 && !s.ps2ClkSync.getLsbD 1

/-- The byte at the read pointer. -/
def data : Option (BitVec 8) := s.fifo s.rPtr

/-- The count of the byte shown, `0` for the release prefix. -/
def counts : Option (BitVec 8) := s.data.map fun d => if d = 0xf0 then 0 else s.times d

/-- The lamps: whether the entry about to be written holds the release prefix. -/
def led : Option (BitVec 8) := (s.fifo s.wPtr).map fun d => if d = 0xf0 then 0xf0 else 0x0f

/-- `fifo[k]` for an index as wide as an integer literal. -/
def fifoAt (k : BitVec 32) : Option (BitVec 8) :=
  if k.toNat < 8 then s.fifo (k.setWidth 3) else none

/-- The buffer and the stop bit on the wire make a well-formed frame. -/
def accepts (ps2Data : Bool) : Bool :=
  s.buffer.getLsbD 0 == false && ps2Data && xorReduce (s.buffer.extractLsb' 1 9)

/-- A stored byte is consumed; `ready` falls when it was the last. -/
def pop (n : Ps2keyboard) : Ps2keyboard :=
  if s.ready then
    if s.nextdataN == false then
      let n := { n with rPtr := s.rPtr + 1 }
      if s.wPtr == s.rPtr + 1 then { n with nextdataN := true, ready := false } else n
    else n
  else n

/-- The byte in the buffer is stored, and counted if the entry before it is the release prefix. The literal
in `w_ptr - 1` makes the subtraction 32 bits wide. -/
def push (n : Ps2keyboard) : Ps2keyboard :=
  let byte := s.buffer.extractLsb' 1 8
  let n := { n with fifo := Function.update s.fifo s.wPtr (some byte) }
  let n :=
    if s.fifoAt (s.wPtr.setWidth 32 - 1) = some 0xf0 then
      { n with times := Function.update s.times byte (s.times byte + 1) }
    else n
  { n with
    wPtr := s.wPtr + 1
    ready := true
    nextdataN := false
    overflow := s.overflow || s.rPtr == s.wPtr + 1 }

/-- One bit is taken, or the eleventh ends the frame. -/
def sample (n : Ps2keyboard) (ps2Data : Bool) : Ps2keyboard :=
  if s.sampling then
    if s.count == 10 then
      let n := if s.accepts ps2Data then s.push n else n
      { n with count := 0 }
    else { n with buffer := setBit s.buffer s.count.toNat ps2Data, count := s.count + 1 }
  else n

/-- One clock edge. -/
def next (i : Ps2Inputs) : Ps2keyboard :=
  let n := { s with ps2ClkSync := s.ps2ClkSync.extractLsb' 0 2 ++ BitVec.ofBool i.ps2Clk }
  if i.clrn == false then
    { n with count := 0, wPtr := 0, rPtr := 0, overflow := false, ready := false }
  else s.sample (s.pop n) i.ps2Data

/-! ## What a run shows -/

/-- The bit taken in a cycle. -/
def sampled (i : Ps2Inputs) : Option Bool := if s.sampling then some i.ps2Data else none

/-- The byte stored in a cycle: the entry the write pointer moves past. -/
def stored (i : Ps2Inputs) : Option (BitVec 8) :=
  if (s.next i).wPtr = s.wPtr then none else (s.next i).fifo s.wPtr

/-- The byte shown while `ready` is set. -/
def shown : Option (Option (BitVec 8)) := if s.ready then some s.data else none

end Ps2keyboard

/-! ## Frames -/

/-- The eleven bits of a frame. -/
structure Ps2Frame where
  start : Bool
  data : BitVec 8
  parity : Bool
  stop : Bool
deriving DecidableEq

namespace Ps2Frame

/-- The bits in the order of the wire, the least significant data bit first. -/
def bits (f : Ps2Frame) : List Bool :=
  f.start :: ((List.range 8).map fun k => f.data.getLsbD k) ++ [f.parity, f.stop]

/-- The number of ones among the data and parity bits. -/
def ones (f : Ps2Frame) : Nat := (List.range 8).countP (fun k => f.data.getLsbD k) + f.parity.toNat

/-- Start bit 0, odd parity, stop bit 1. -/
def valid (f : Ps2Frame) : Bool := !f.start && f.ones % 2 == 1 && f.stop

/-- The frame with the given bits. -/
def ofBits (l : List Bool) : Ps2Frame where
  start := l.getD 0 false
  data := (BitVec.ofBoolListLE ((List.range 8).map fun k => l.getD (k + 1) false)).cast (by simp)
  parity := l.getD 9 false
  stop := l.getD 10 false

@[simp] theorem length_bits (f : Ps2Frame) : f.bits.length = 11 := by
  simp [bits]

theorem getLsbD_ofBits_data (l : List Bool) (k : Nat) (hk : k < 8) :
    (ofBits l).data.getLsbD k = l.getD (k + 1) false := by
  rw [ofBits, BitVec.getLsbD_cast, BitVec.getLsbD_ofBoolListLE]
  simp [hk]

theorem ofBits_bits (f : Ps2Frame) : ofBits f.bits = f := by
  obtain ⟨start, data, parity, stop⟩ := f
  have hdata : (ofBits (bits ⟨start, data, parity, stop⟩)).data = data := by
    apply BitVec.eq_of_getLsbD_eq
    intro k hk
    rw [getLsbD_ofBits_data _ k hk]
    simp [bits, List.getElem?_append, hk]
  simp only [ofBits, bits, mk.injEq] at hdata ⊢
  exact ⟨rfl, hdata, rfl, rfl⟩

end Ps2Frame

/-! ## The abstract receiver -/

/-- What has been received: the bits of the frame that is not complete, and the bytes of the accepted ones. -/
structure Ps2Receiver where
  part : List Bool
  bytes : List (BitVec 8)

namespace Ps2Receiver

/-- The receiver after one more bit. -/
def bit (r : Ps2Receiver) (b : Bool) : Ps2Receiver :=
  if r.part.length = 10 then
    let f := Ps2Frame.ofBits (r.part ++ [b])
    { part := [], bytes := r.bytes ++ if f.valid then [f.data] else [] }
  else { r with part := r.part ++ [b] }

theorem foldl_bit_lt (l : List Bool) (r : Ps2Receiver) (h : r.part.length + l.length ≤ 10) :
    l.foldl bit r = { r with part := r.part ++ l } := by
  induction l generalizing r with
  | nil => simp
  | cons b l ih =>
    rw [List.length_cons] at h
    have hne : r.part.length ≠ 10 := by omega
    rw [List.foldl_cons, bit, if_neg hne, ih _ (by simp only [List.length_append, List.length_singleton]; omega)]
    simp only [List.append_assoc, List.singleton_append]

/-- A whole frame adds its byte if it is valid. -/
theorem foldl_frame (f : Ps2Frame) (bytes : List (BitVec 8)) :
    f.bits.foldl bit ⟨[], bytes⟩ = ⟨[], bytes ++ if f.valid then [f.data] else []⟩ := by
  have hsplit : f.bits = f.bits.take 10 ++ [f.stop] := rfl
  have hlen : (f.bits.take 10).length = 10 := rfl
  have htake : (f.bits.take 10).foldl bit ⟨[], bytes⟩ = ⟨f.bits.take 10, bytes⟩ :=
    foldl_bit_lt _ _ (by rw [hlen]; rfl)
  have hlast : bit ⟨f.bits.take 10, bytes⟩ f.stop = ⟨[], bytes ++ if f.valid then [f.data] else []⟩ := by
    rw [bit, if_pos hlen, ← hsplit, Ps2Frame.ofBits_bits]
  rw [hsplit, List.foldl_append, htake, List.foldl_cons, List.foldl_nil, hlast]

/-- A sequence of frames adds the bytes of the valid ones, in order. -/
theorem foldl_frames (frames : List Ps2Frame) (bytes : List (BitVec 8)) :
    (frames.flatMap Ps2Frame.bits).foldl bit ⟨[], bytes⟩ =
      ⟨[], bytes ++ (frames.filter Ps2Frame.valid).map Ps2Frame.data⟩ := by
  induction frames generalizing bytes with
  | nil => simp
  | cons f frames ih =>
    rw [List.flatMap_cons, List.foldl_append, foldl_frame, ih, List.append_assoc]
    by_cases hf : f.valid
    · rw [if_pos hf, List.filter_cons_of_pos hf, List.map_cons, List.singleton_append]
    · rw [if_neg hf, List.filter_cons_of_neg hf, List.nil_append]

end Ps2Receiver

/-! ## The registers refine the receiver -/

/-- A chain of exclusive ors is the parity of the number of ones. -/
theorem foldl_xor_eq_odd (g : Nat → Bool) (l : List Nat) (p : Bool) :
    l.foldl (fun p k => p ^^ g k) p = (p ^^ (l.countP g % 2 == 1)) := by
  induction l generalizing p with
  | nil => simp
  | cons k l ih =>
    rw [List.foldl_cons, ih, List.countP_cons]
    cases g k with
    | false => simp
    | true =>
      have hodd : ((l.countP g + 1) % 2 == 1) = !(l.countP g % 2 == 1) := by
        rcases Nat.mod_two_eq_zero_or_one (l.countP g) with h | h <;> simp [Nat.add_mod, h]
      simp [hodd]

theorem getLsbD_setBit {w : Nat} (x : BitVec w) {k : Nat} (hk : k < w) (b : Bool) (j : Nat) :
    (setBit x k b).getLsbD j = if j = k then b else x.getLsbD j := by
  have hone : (1#w <<< k).getLsbD j = decide (j = k) := by
    rw [BitVec.getLsbD_shiftLeft, BitVec.getLsbD_one, Bool.eq_iff_iff]
    simp only [Bool.and_eq_true, decide_eq_true_eq, Bool.not_eq_true', decide_eq_false_iff_not]
    omega
  rw [setBit]
  cases b with
  | true =>
    rw [if_pos rfl, BitVec.getLsbD_or, hone]
    by_cases hj : j = k <;> simp [hj]
  | false =>
    rw [if_neg Bool.false_ne_true, BitVec.getLsbD_and, BitVec.getLsbD_not, hone]
    by_cases hj : j = k
    · simp [hj]
    · by_cases hw : j < w
      · simp [hj, hw]
      · simp [hj, BitVec.getLsbD_of_ge x j (by omega)]

namespace Ps2keyboard

/-- The FIFO is empty, or holds the last byte and the next edge, which takes no bit, consumes it. -/
inductive Handshake (s : Ps2keyboard) : Prop
  | empty (ready : s.ready = false) (ptr : s.rPtr = s.wPtr)
  | full (ready : s.ready = true) (nextdataN : s.nextdataN = false) (ptr : s.wPtr = s.rPtr + 1)
      (quiet : s.sampling = false)

/-- The registers hold what the receiver has received. -/
structure Receives (r : Ps2Receiver) (s : Ps2keyboard) : Prop where
  part_le : r.part.length ≤ 10
  count : s.count = BitVec.ofNat 4 r.part.length
  buffer : ∀ k, k < r.part.length → s.buffer.getLsbD k = r.part.getD k false
  overflow : s.overflow = false
  handshake : Handshake s
  wPtr : s.wPtr = BitVec.ofNat 3 r.bytes.length

variable {s : Ps2keyboard} {r : Ps2Receiver} {i : Ps2Inputs}

/-- The synchroniser after an edge. -/
def shiftClk (s : Ps2keyboard) (ps2Clk : Bool) : Ps2keyboard :=
  { s with ps2ClkSync := s.ps2ClkSync.extractLsb' 0 2 ++ BitVec.ofBool ps2Clk }

/-- A reset empties the FIFO and starts a frame, whatever the registers held. -/
theorem receives_reset (s : Ps2keyboard) (h : i.clrn = false) : Receives ⟨[], []⟩ (s.next i) := by
  have hnext : s.next i = { s.shiftClk i.ps2Clk with
      count := 0, wPtr := 0, rPtr := 0, overflow := false, ready := false } := by
    simp [next, h, shiftClk]
  rw [hnext]
  exact {
    part_le := by simp
    count := rfl
    buffer := fun k hk => absurd hk (Nat.not_lt_zero k)
    overflow := rfl
    handshake := .empty rfl rfl
    wPtr := rfl }

/-- The cycle after a bit takes none: the synchronised clock is still low. -/
theorem sampling_shiftClk (h : s.sampling = true) (b : Bool) : (s.shiftClk b).sampling = false := by
  simp only [sampling, Bool.and_eq_true, Bool.not_eq_true'] at h
  have htop : (s.shiftClk b).ps2ClkSync.getLsbD 2 = s.ps2ClkSync.getLsbD 1 := by
    simp only [shiftClk, BitVec.getLsbD_append, BitVec.getLsbD_extractLsb']
    rfl
  rw [sampling, htop, h.2, Bool.false_and]

/-! The five things an edge can do after the reset. -/

theorem next_idle (hc : i.clrn = true) (hs : s.sampling = false) (hr : s.ready = false) :
    s.next i = s.shiftClk i.ps2Clk := by
  simp [next, hc, sample, hs, pop, hr, shiftClk]

theorem next_pop (hc : i.clrn = true) (hs : s.sampling = false) (hr : s.ready = true)
    (hn : s.nextdataN = false) (hw : s.wPtr = s.rPtr + 1) :
    s.next i = { s.shiftClk i.ps2Clk with rPtr := s.rPtr + 1, nextdataN := true, ready := false } := by
  simp [next, hc, sample, hs, pop, hr, hn, hw, shiftClk]

theorem next_bit (hc : i.clrn = true) (hs : s.sampling = true) (hr : s.ready = false) (hk : s.count ≠ 10) :
    s.next i = { s.shiftClk i.ps2Clk with
      buffer := setBit s.buffer s.count.toNat i.ps2Data, count := s.count + 1 } := by
  have hk10 : (s.count == 10) = false := beq_eq_false_iff_ne.mpr hk
  simp only [next, hc, sample, hs, pop, hr, hk10, shiftClk]
  rfl

theorem next_reject (hc : i.clrn = true) (hs : s.sampling = true) (hr : s.ready = false) (hk : s.count = 10)
    (ha : s.accepts i.ps2Data = false) : s.next i = { s.shiftClk i.ps2Clk with count := 0 } := by
  simp [next, hc, sample, hs, pop, hr, hk, ha, shiftClk]

theorem next_push (hc : i.clrn = true) (hs : s.sampling = true) (hr : s.ready = false) (hk : s.count = 10)
    (ha : s.accepts i.ps2Data = true) :
    s.next i = { s.push (s.shiftClk i.ps2Clk) with count := 0 } := by
  simp [next, hc, sample, hs, pop, hr, hk, ha, shiftClk]

/-! ### The eleventh bit -/

/-- With ten bits in the buffer, the circuit accepts exactly the valid frames. -/
theorem accepts_eq (hb : ∀ k, k < 10 → s.buffer.getLsbD k = r.part.getD k false) (hl : r.part.length = 10)
    (b : Bool) : s.accepts b = (Ps2Frame.ofBits (r.part ++ [b])).valid := by
  have hpart : ∀ k, k < 10 → (r.part ++ [b]).getD k false = s.buffer.getLsbD k := by
    intro k hk
    rw [hb k hk, List.getD_append _ _ _ _ (by omega)]
  have hstop : (Ps2Frame.ofBits (r.part ++ [b])).stop = b := by
    simp [Ps2Frame.ofBits, hl]
  have hstart : (Ps2Frame.ofBits (r.part ++ [b])).start = s.buffer.getLsbD 0 := hpart 0 (by omega)
  have hparity : (Ps2Frame.ofBits (r.part ++ [b])).parity = s.buffer.getLsbD 9 := hpart 9 (by omega)
  have hones : (Ps2Frame.ofBits (r.part ++ [b])).ones =
      (List.range 9).countP (s.buffer.extractLsb' 1 9).getLsbD := by
    rw [List.range_succ, List.countP_append, Ps2Frame.ones, hparity]
    congr 1
    · apply List.countP_congr
      intro k hk
      have hk8 : k < 8 := List.mem_range.mp hk
      rw [Ps2Frame.getLsbD_ofBits_data _ k hk8, hpart (k + 1) (by omega), BitVec.getLsbD_extractLsb',
        Nat.add_comm 1 k]
      simp [show k < 9 by omega]
    · rw [List.countP_singleton, BitVec.getLsbD_extractLsb']
      cases s.buffer.getLsbD 9 <;> rfl
  rw [accepts, Ps2Frame.valid, xorReduce, foldl_xor_eq_odd, hstart, hones, hstop]
  generalize ((List.range 9).countP (s.buffer.extractLsb' 1 9).getLsbD % 2 == 1) = odd
  cases s.buffer.getLsbD 0 <;> cases b <;> simp

/-- The byte it stores is the frame's. -/
theorem byte_eq (hb : ∀ k, k < 10 → s.buffer.getLsbD k = r.part.getD k false) (hl : r.part.length = 10)
    (b : Bool) : s.buffer.extractLsb' 1 8 = (Ps2Frame.ofBits (r.part ++ [b])).data := by
  apply BitVec.eq_of_getLsbD_eq
  intro k hk
  rw [Ps2Frame.getLsbD_ofBits_data _ k hk, BitVec.getLsbD_extractLsb', List.getD_append _ _ _ _ (by omega),
    ← hb (k + 1) (by omega), Nat.add_comm 1 k]
  simp [hk]

/-! ### What storing a byte changes -/

section Push

variable (s n : Ps2keyboard)

@[simp] theorem push_wPtr : (s.push n).wPtr = s.wPtr + 1 := rfl

@[simp] theorem push_ready : (s.push n).ready = true := rfl

@[simp] theorem push_nextdataN : (s.push n).nextdataN = false := rfl

@[simp] theorem push_overflow : (s.push n).overflow = (s.overflow || s.rPtr == s.wPtr + 1) := rfl

@[simp] theorem push_fifo :
    (s.push n).fifo = Function.update s.fifo s.wPtr (some (s.buffer.extractLsb' 1 8)) := by
  simp only [push]
  split <;> rfl

@[simp] theorem push_rPtr : (s.push n).rPtr = n.rPtr := by
  simp only [push]
  split <;> rfl

@[simp] theorem push_ps2ClkSync : (s.push n).ps2ClkSync = n.ps2ClkSync := by
  simp only [push]
  split <;> rfl

/-- Taking a bit does not move the read pointer. -/
theorem sample_rPtr (b : Bool) : (s.sample n b).rPtr = n.rPtr := by
  simp only [sample]
  split
  · split
    · cases s.accepts b <;> simp
    · rfl
  · rfl

theorem sample_ps2ClkSync (b : Bool) : (s.sample n b).ps2ClkSync = n.ps2ClkSync := by
  simp only [sample]
  split
  · split
    · cases s.accepts b <;> simp
    · rfl
  · rfl

/-- The read side moves the read pointer and answers the reader; it changes nothing else. -/
theorem pop_eq (s n : Ps2keyboard) :
    ∃ rPtr nextdataN ready,
      s.pop n = { n with rPtr := rPtr, nextdataN := nextdataN, ready := ready } := by
  simp only [pop]
  split
  · split
    · split
      · exact ⟨_, _, _, rfl⟩
      · exact ⟨_, n.nextdataN, n.ready, rfl⟩
    · exact ⟨n.rPtr, n.nextdataN, n.ready, rfl⟩
  · exact ⟨n.rPtr, n.nextdataN, n.ready, rfl⟩

/-- The synchroniser shifts in the keyboard's clock at every edge, a reset included. -/
theorem next_ps2ClkSync (s : Ps2keyboard) (i : Ps2Inputs) :
    (s.next i).ps2ClkSync = s.ps2ClkSync.extractLsb' 0 2 ++ BitVec.ofBool i.ps2Clk := by
  simp only [next]
  split
  · rfl
  · obtain ⟨_, _, _, hpop⟩ := pop_eq s
      { s with ps2ClkSync := s.ps2ClkSync.extractLsb' 0 2 ++ BitVec.ofBool i.ps2Clk }
    rw [sample_ps2ClkSync, hpop]

end Push

/-! ### One edge -/

/-- What one edge does, seen from the receiver: `r'` is received, the byte it gained is the one stored, and
that byte is shown after the edge. -/
structure Follows (r : Ps2Receiver) (s : Ps2keyboard) (i : Ps2Inputs) (r' : Ps2Receiver) : Prop where
  receives : Receives r' (s.next i)
  bytes : r'.bytes = r.bytes ++ (s.stored i).toList
  shown : (s.next i).shown = (s.stored i).map some

/-- An edge that leaves the write pointer stores nothing. -/
theorem Follows.of_wPtr {r' : Ps2Receiver} (hr : Receives r' (s.next i)) (hb : r'.bytes = r.bytes)
    (hw : (s.next i).wPtr = s.wPtr) (hready : (s.next i).ready = false) : Follows r s i r' := by
  have hstored : s.stored i = none := if_pos hw
  refine ⟨hr, ?_, ?_⟩
  · rw [hb, hstored, Option.toList_none, List.append_nil]
  · rw [hstored, Ps2keyboard.shown, hready]
    rfl

namespace Receives

theorem count_toNat (h : Receives r s) : s.count.toNat = r.part.length := by
  have hle := h.part_le
  rw [h.count, BitVec.toNat_ofNat]
  omega

/-- A cycle without a falling edge at most consumes a byte. -/
theorem follows_quiet (h : Receives r s) (hc : i.clrn = true) (hs : s.sampling = false) :
    Follows r s i r := by
  obtain ⟨hready, hptr⟩ | ⟨hready, hn, hptr, -⟩ := h.handshake
  · have hnext := next_idle hc hs hready
    refine .of_wPtr ?_ rfl (by rw [hnext]; rfl) (by rw [hnext]; exact hready)
    rw [hnext]
    exact { h with handshake := .empty hready hptr }
  · have hnext := next_pop hc hs hready hn hptr
    refine .of_wPtr ?_ rfl (by rw [hnext]; rfl) (by rw [hnext])
    rw [hnext]
    exact { h with handshake := .empty rfl hptr.symm }

/-- A cycle that takes a bit finds the FIFO empty. -/
theorem empty_of_sampling (h : Receives r s) (hs : s.sampling = true) :
    s.ready = false ∧ s.rPtr = s.wPtr := by
  obtain ⟨hready, hptr⟩ | ⟨-, -, -, hq⟩ := h.handshake
  · exact ⟨hready, hptr⟩
  · exact absurd hs (by rw [hq]; exact Bool.false_ne_true)

/-- One of the first ten bits goes to the buffer. -/
theorem follows_bit (h : Receives r s) (hc : i.clrn = true) (hs : s.sampling = true)
    (hl : r.part.length ≠ 10) : Follows r s i (r.bit i.ps2Data) := by
  obtain ⟨hready, hptr⟩ := h.empty_of_sampling hs
  have hle := h.part_le
  have hcount := h.count_toNat
  have hk : s.count ≠ 10 := by
    intro he
    rw [he] at hcount
    exact hl hcount.symm
  have hnext := next_bit hc hs hready hk
  have hbit : r.bit i.ps2Data = { r with part := r.part ++ [i.ps2Data] } := if_neg hl
  have hlen : (r.bit i.ps2Data).part.length = r.part.length + 1 := by
    rw [hbit, List.length_append, List.length_singleton]
  refine .of_wPtr ?_ (by rw [hbit]) (by rw [hnext]; rfl) (by rw [hnext]; exact hready)
  exact {
    part_le := by omega
    count := by
      rw [hnext, hlen]
      apply BitVec.eq_of_toNat_eq
      simp only [BitVec.toNat_add, BitVec.toNat_ofNat, hcount]
      rfl
    buffer := by
      intro k hk'
      rw [hlen] at hk'
      rw [hnext, hbit]
      show (setBit s.buffer s.count.toNat i.ps2Data).getLsbD k = (r.part ++ [i.ps2Data]).getD k false
      rw [hcount, getLsbD_setBit _ (by omega)]
      by_cases he : k = r.part.length
      · rw [if_pos he, he, List.getD_append_right _ _ _ _ (le_refl _), Nat.sub_self]
        rfl
      · rw [if_neg he, List.getD_append _ _ _ _ (by omega), h.buffer k (by omega)]
    overflow := by rw [hnext]; exact h.overflow
    handshake := by rw [hnext]; exact .empty hready hptr
    wPtr := by rw [hnext, hbit]; exact h.wPtr }

/-- A valid frame stores its byte: the FIFO was empty, so there is room, and the byte is shown at once. -/
theorem follows_push (h : Receives r s) (hc : i.clrn = true) (hs : s.sampling = true) (hk : s.count = 10)
    (ha : s.accepts i.ps2Data = true) :
    Follows r s i ⟨[], r.bytes ++ [s.buffer.extractLsb' 1 8]⟩ := by
  obtain ⟨hready, hptr⟩ := h.empty_of_sampling hs
  have hnext := next_push hc hs hready hk ha
  -- an empty FIFO of eight entries is not one short of full
  have hroom : ∀ p : BitVec 3, p ≠ p + 1 := by decide
  have hstored : s.stored i = some (s.buffer.extractLsb' 1 8) := by
    rw [stored, hnext]
    simp only [push_wPtr, push_fifo, Function.update_self]
    rw [if_neg (hroom s.wPtr).symm]
  refine ⟨?_, by rw [hstored]; rfl, ?_⟩
  · rw [hnext]
    exact {
      part_le := Nat.zero_le _
      count := rfl
      buffer := fun k hk' => absurd hk' (Nat.not_lt_zero k)
      overflow := by
        simp only [push_overflow, h.overflow, Bool.false_or, hptr, beq_eq_false_iff_ne]
        exact hroom s.wPtr
      handshake := by
        refine .full rfl rfl ?_ ?_
        · simp only [push_wPtr, push_rPtr]
          rw [← hptr]
          rfl
        · have hquiet := sampling_shiftClk hs i.ps2Clk
          simp only [sampling, push_ps2ClkSync] at hquiet ⊢
          exact hquiet
      wPtr := by
        have hsucc : BitVec.ofNat 3 (r.bytes.length + 1) = BitVec.ofNat 3 r.bytes.length + 1 :=
          BitVec.ofNat_add ..
        simp only [push_wPtr, List.length_append, List.length_singleton]
        rw [h.wPtr, hsucc] }
  · have hdata : (s.next i).data = some (s.buffer.extractLsb' 1 8) := by
      rw [hnext, data]
      simp only [push_fifo, push_rPtr]
      rw [show (s.shiftClk i.ps2Clk).rPtr = s.wPtr from hptr, Function.update_self]
    have hset : (s.next i).ready = true := by rw [hnext]; rfl
    rw [Ps2keyboard.shown, hset, if_pos rfl, hdata, hstored, Option.map_some]

/-- The eleventh bit ends the frame, and stores its byte if it is valid. -/
theorem follows_stop (h : Receives r s) (hc : i.clrn = true) (hs : s.sampling = true)
    (hl : r.part.length = 10) : Follows r s i (r.bit i.ps2Data) := by
  obtain ⟨hready, hptr⟩ := h.empty_of_sampling hs
  have hk : s.count = 10 := by rw [h.count, hl]; rfl
  have hbuf : ∀ k, k < 10 → s.buffer.getLsbD k = r.part.getD k false := by
    intro k hk'
    exact h.buffer k (by omega)
  have hacc := accepts_eq hbuf hl i.ps2Data
  have hbit : r.bit i.ps2Data =
      ⟨[], r.bytes ++ if s.accepts i.ps2Data then [s.buffer.extractLsb' 1 8] else []⟩ := by
    rw [Ps2Receiver.bit, if_pos hl, hacc, byte_eq hbuf hl i.ps2Data]
  cases ha : s.accepts i.ps2Data with
  | false =>
    have hnext := next_reject hc hs hready hk ha
    have hbytes : r.bit i.ps2Data = ⟨[], r.bytes⟩ := by
      rw [hbit, ha, if_neg Bool.false_ne_true, List.append_nil]
    refine .of_wPtr ?_ (by rw [hbytes]) (by rw [hnext]; rfl) (by rw [hnext]; exact hready)
    rw [hnext, hbytes]
    exact {
      part_le := Nat.zero_le _
      count := rfl
      buffer := fun k hk' => absurd hk' (Nat.not_lt_zero k)
      overflow := h.overflow
      handshake := .empty hready hptr
      wPtr := h.wPtr }
  | true =>
    rw [hbit, ha, if_pos rfl]
    exact h.follows_push hc hs hk ha

/-- Every edge after the reset moves the receiver by the bit it takes, if it takes one. -/
theorem follows (h : Receives r s) (hc : i.clrn = true) :
    Follows r s i ((s.sampled i).toList.foldl Ps2Receiver.bit r) := by
  rw [sampled]
  cases hs : s.sampling with
  | false => exact h.follows_quiet hc hs
  | true =>
    by_cases hl : r.part.length = 10
    · exact h.follows_stop hc hs hl
    · exact h.follows_bit hc hs hl

end Receives

end Ps2keyboard

/-! ## Runs -/

section Runs

open Synchronous

namespace Ps2keyboard

/-- The bits taken in a run. -/
def sampledBits (s : Ps2keyboard) (is : List Ps2Inputs) : List Bool := observe next sampled s is

/-- The bytes stored in a run, in order. -/
def storedBytes (s : Ps2keyboard) (is : List Ps2Inputs) : List (BitVec 8) := observe next stored s is

/-- The data output in the cycles of a run in which `ready` is set, the state it ends in included. -/
def shownData (s : Ps2keyboard) (is : List Ps2Inputs) : List (Option (BitVec 8)) :=
  (states next s is).filterMap shown

variable {s : Ps2keyboard} {r : Ps2Receiver} {is : List Ps2Inputs}

/-- The bytes stored are those the receiver gains from the bits taken. -/
theorem Receives.bytes_run (h : Receives r s) (his : ∀ i ∈ is, i.clrn = true) :
    ((s.sampledBits is).foldl Ps2Receiver.bit r).bytes = r.bytes ++ s.storedBytes is := by
  have hstep : ∀ (r : Ps2Receiver) (s : Ps2keyboard) (i : Ps2Inputs), Receives r s → i.clrn = true →
      Receives ((s.sampled i).toList.foldl Ps2Receiver.bit r) (s.next i) ∧
        ((s.sampled i).toList.foldl Ps2Receiver.bit r).bytes = r.bytes ++ (s.stored i).toList := by
    intro r s i hr hi
    exact ⟨(hr.follows hi).receives, (hr.follows hi).bytes⟩
  exact (run_simulates hstep h his).2

/-- Every byte stored is shown, once and in order. -/
theorem Receives.shown_run (h : Receives r s) (his : ∀ i ∈ is, i.clrn = true) :
    s.shownData is = s.shown.toList ++ (s.storedBytes is).map some := by
  induction is generalizing r s with
  | nil =>
    rw [shownData, states, List.filterMap_cons, List.filterMap_nil]
    cases s.shown <;> rfl
  | cons i is ih =>
    have hstep := h.follows (his i (List.mem_cons_self ..))
    have hrest := ih hstep.receives fun j hj => his j (List.mem_cons_of_mem i hj)
    have hcons : s.shownData (i :: is) = s.shown.toList ++ (s.next i).shownData is := by
      rw [shownData, states, List.filterMap_cons]
      cases s.shown <;> rfl
    have hstored : s.storedBytes (i :: is) = (s.stored i).toList ++ (s.next i).storedBytes is := rfl
    rw [hcons, hrest, hstep.shown, hstored, List.map_append]
    cases s.stored i <;> rfl

/-- An edge consumes a byte exactly when one is shown. -/
def ConsumesShown (s : Ps2keyboard) : Prop :=
  ∀ i : Ps2Inputs, i.clrn = true → (s.next i).rPtr = if s.ready then s.rPtr + 1 else s.rPtr

theorem Receives.consumesShown (h : Receives r s) : ConsumesShown s := by
  intro i hc
  obtain ⟨hready, hptr⟩ | ⟨hready, hn, hptr, hq⟩ := h.handshake
  · have hnext : s.next i = s.sample (s.shiftClk i.ps2Clk) i.ps2Data := by
      simp [next, hc, pop, hready, shiftClk]
    rw [hnext, sample_rPtr, hready, if_neg Bool.false_ne_true]
    rfl
  · rw [next_pop hc hq hready hn hptr, hready, if_pos rfl]

/-- After a reset the receiver decodes every sequence of frames, whatever the timing of the keyboard's clock
and the values left in the registers: the valid frames' bytes are stored in order, each is shown in exactly
one cycle and consumed at its end, and the FIFO never overflows. -/
theorem ps2keyboard_decodes (s : Ps2keyboard) (i₀ : Ps2Inputs) (is : List Ps2Inputs)
    (frames : List Ps2Frame) (hreset : i₀.clrn = false) (his : ∀ i ∈ is, i.clrn = true)
    (hbits : (s.next i₀).sampledBits is = frames.flatMap Ps2Frame.bits) :
    (s.next i₀).storedBytes is = (frames.filter Ps2Frame.valid).map Ps2Frame.data ∧
      (s.next i₀).shownData is = ((s.next i₀).storedBytes is).map some ∧
      ∀ t ∈ states next (s.next i₀) is, t.overflow = false ∧ t.ConsumesShown := by
  have hrecv := receives_reset s hreset
  have hbytes := hrecv.bytes_run his
  have hshown := hrecv.shown_run his
  rw [hbits, Ps2Receiver.foldl_frames] at hbytes
  have hquiet : (s.next i₀).shown = none := by
    simp [shown, next, hreset]
  refine ⟨?_, ?_, ?_⟩
  · simpa using hbytes.symm
  · simpa [hquiet] using hshown
  · have hinv : ∀ t ∈ states next (s.next i₀) is, ∃ r, Receives r t :=
      states_inv (fun t i ⟨r, hr⟩ hi => ⟨_, (hr.follows hi).receives⟩) ⟨_, hrecv⟩ his
    intro t ht
    obtain ⟨r, hr⟩ := hinv t ht
    exact ⟨hr.overflow, hr.consumesShown⟩

/-! ### A keyboard that sends frames -/

/-- One bit: the clock is high for a cycle and low for three, in which the edge comes through. -/
def wave (b : Bool) : List Ps2Inputs :=
  [⟨true, true, b⟩, ⟨true, false, b⟩, ⟨true, false, b⟩, ⟨true, false, b⟩]

theorem clrn_wave {bits : List Bool} {i : Ps2Inputs} (h : i ∈ bits.flatMap wave) : i.clrn = true := by
  obtain ⟨b, -, hb⟩ := List.mem_flatMap.mp h
  simp only [wave, List.mem_cons, List.not_mem_nil, or_false] at hb
  obtain rfl | rfl | rfl | rfl := hb <;> rfl

/-- The bits a keyboard sends are the bits taken. -/
theorem sampledBits_wave (bits : List Bool) (s : Ps2keyboard) (hs : s.ps2ClkSync = 0) :
    s.sampledBits (bits.flatMap wave) = bits := by
  induction bits generalizing s with
  | nil => rfl
  | cons b bits ih =>
    have hrun : s.sampledBits (wave b) = [b] ∧ (run next s (wave b)).ps2ClkSync = 0 := by
      simp only [sampledBits, wave, observe, sampled, sampling, run_cons, run_nil, next_ps2ClkSync, hs]
      exact ⟨rfl, rfl⟩
    rw [List.flatMap_cons, sampledBits, observe_append]
    exact congrArg₂ (· ++ ·) hrun.1 (ih _ hrun.2)

/-- The registers at power-up, with one choice for those the reset leaves alone. -/
def powerUp : Ps2keyboard where
  times _ := 0
  buffer := 0
  fifo _ := none
  wPtr := 0
  rPtr := 0
  count := 0
  nextdataN := false
  ps2ClkSync := 0
  ready := false
  overflow := false

/-- A reset with the keyboard's clock low. -/
def resetCycle : Ps2Inputs := ⟨false, false, false⟩

/-- The key `1c` is pressed, and a frame with a wrong parity bit follows it. -/
theorem ps2keyboard_decodes_key :
    ∃ is, (powerUp.next resetCycle).storedBytes is = [0x1c] ∧
      (powerUp.next resetCycle).shownData is = [some 0x1c] := by
  let frames : List Ps2Frame := [⟨false, 0x1c, false, true⟩, ⟨false, 0x1c, true, true⟩]
  refine ⟨(frames.flatMap Ps2Frame.bits).flatMap wave, ?_⟩
  obtain ⟨hstored, hshown, -⟩ := ps2keyboard_decodes powerUp resetCycle
    ((frames.flatMap Ps2Frame.bits).flatMap wave) frames rfl (fun i hi => clrn_wave hi)
    (sampledBits_wave _ _ (by rw [next_ps2ClkSync]; rfl))
  have hbytes : (frames.filter Ps2Frame.valid).map Ps2Frame.data = [0x1c] := by decide
  rw [hbytes] at hstored
  rw [hstored] at hshown
  exact ⟨hstored, hshown⟩

end Ps2keyboard

end Runs

end Jos.Edc
