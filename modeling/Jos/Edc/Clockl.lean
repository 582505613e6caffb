import Jos.Lib.Synchronous
import Mathlib.Data.BitVec

/-!
# The clock

`clockl` of `edc/clock/vsrc/clockl.v` counts hours, minutes and seconds and keeps the six decimal digits it displays
in registers of their own. Two blocks write all of these: the stopwatch on `clk_m`, and the clock with its three
setting modes on `clk_c`. Their assignments are blocking, so a block is a function that goes through them in order. An
input of the model is a tick of one of the two, with the switches and the button as they are then.

Each branch refreshes the digits of what it changes, so in every state the display shows the counters
(`run_shown`). The time is another matter: the clock counts 61 minutes to the hour and never counts an hour, so it
is right in the first hour, and again only after 61 days (`run_keepsTime_iff`).
-/

namespace Jos.Edc

open Synchronous

/-- The clocks of the two blocks. -/
inductive ClockTick
  | clkC
  | clkM
deriving DecidableEq

structure ClocklInputs where
  tick : ClockTick
  sw : BitVec 3
  btnl : Bool

/-- The registers. -/
structure Clockl where
  hour : BitVec 7
  min : BitVec 7
  sec : BitVec 7
  temp : BitVec 7
  x : BitVec 4
  y : BitVec 4
  a : BitVec 4
  b : BitVec 4
  c : BitVec 4
  d : BitVec 4
  alarm : BitVec 24
  ledl : BitVec 16

namespace Clockl

/-- The `initial` block, which leaves out `temp` and `ledl`. -/
def initial (temp : BitVec 7) (ledl : BitVec 16) : Clockl :=
  { hour := 0, min := 0, sec := 0, temp, x := 0, y := 0, a := 0, b := 0, c := 0, d := 0, alarm := 0, ledl }

/-! ## Digits -/

/-- `temp[3:0]` for `temp = w % 10`. -/
def ones (w : BitVec 7) : BitVec 4 := (w % 10).setWidth 4

/-- `temp[3:0]` for `temp = w / 10`. -/
def tens (w : BitVec 7) : BitVec 4 := (w / 10).setWidth 4

/-- The assignments through `temp` that follow a change of the seconds, the minutes and the hours. -/
def showSec (s : Clockl) : Clockl := { s with x := ones s.sec, y := tens s.sec, temp := s.sec / 10 }
def showMin (s : Clockl) : Clockl := { s with a := ones s.min, b := tens s.min, temp := s.min / 10 }
def showHour (s : Clockl) : Clockl := { s with c := ones s.hour, d := tens s.hour, temp := s.hour / 10 }

/-! ## The blocks -/

/-- `min = 0; sec = 0; hour = 0` and all digits. -/
def clear (s : Clockl) : Clockl :=
  { s with min := 0, sec := 0, hour := 0, a := 0, b := 0, c := 0, d := 0, x := 0, y := 0 }

/-- `sec = 0; x = 0; y = 0; min = min + 1`. -/
def carryMin (s : Clockl) : Clockl := showMin { s with sec := 0, x := 0, y := 0, min := s.min + 1 }

/-- The branch for a full hour, which does not change `hour`. -/
def carryHour (s : Clockl) : Clockl := showHour { s with sec := 0, min := 0, x := 0, y := 0, a := 0, b := 0 }

/-- `ledl` is on when the digits are those of `alarm`. -/
def checkAlarm (s : Clockl) : Clockl :=
  { s with ledl :=
      if s.d = s.alarm.extractLsb' 20 4 ∧ s.c = s.alarm.extractLsb' 16 4 ∧ s.b = s.alarm.extractLsb' 12 4 ∧
          s.a = s.alarm.extractLsb' 8 4 ∧ s.y = s.alarm.extractLsb' 4 4 ∧ s.x = s.alarm.extractLsb' 0 4 then
        0xffff else 0 }

/-- The stopwatch, on `posedge clk_m`. -/
def stopwatch (s : Clockl) (sw : BitVec 3) : Clockl :=
  if sw = 0b001 then
    if s.sec ≤ 0b1100011 then showSec { s with sec := s.sec + 1 }
    else if s.min ≤ 0b0111011 then s.carryMin
    else if s.hour < 0b1100010 then s.carryHour
    else s.clear
  else if sw = 0b111 then s.clear
  else s

/-- The clock, on every change of `clk_c`. -/
def clock (s : Clockl) (sw : BitVec 3) (btnl : Bool) : Clockl :=
  if sw = 0b000 then
    if s.sec < 0b0111011 then checkAlarm (showSec { s with sec := s.sec + 1 })
    else if s.min ≤ 0b0111011 then s.carryMin
    else if s.hour < 0b0010111 then s.carryHour
    else s.clear
  else if sw = 0b010 then
    if btnl = true then
      if s.sec < 0b0111011 then showSec { s with sec := s.sec + 1 }
      else { s with sec := 0, x := 0, y := 0 }
    else s
  else if sw = 0b100 then
    if btnl = true then
      if s.min ≤ 0b0111011 then showMin { s with min := s.min + 1 }
      else { s with min := 0, a := 0, b := 0 }
    else s
  else
    if btnl = true then
      if s.hour < 0b0010111 then showHour { s with hour := s.hour + 1 }
      else { s with hour := 0, c := 0, d := 0 }
    else s

def next (s : Clockl) (i : ClocklInputs) : Clockl :=
  match i.tick with
  | .clkM => s.stopwatch i.sw
  | .clkC => s.clock i.sw i.btnl

/-! ## The display -/

/-- Two digits show a number. -/
structure Shows (lo hi : BitVec 4) (w : BitVec 7) : Prop where
  ones : lo.toNat = w.toNat % 10
  tens : hi.toNat = w.toNat / 10

theorem shows_digits (w : BitVec 7) : Shows (ones w) (tens w) w := by
  have hw := w.isLt
  constructor
  · rw [Clockl.ones, BitVec.toNat_setWidth, BitVec.toNat_umod, Nat.mod_eq_of_lt]
    · rfl
    · have : w.toNat % 10 < 10 := Nat.mod_lt _ (by decide)
      exact this.trans (by decide)
  · rw [Clockl.tens, BitVec.toNat_setWidth, BitVec.toNat_udiv, Nat.mod_eq_of_lt]
    · rfl
    · have : w.toNat / 10 < 16 := by omega
      exact this

theorem shows_zero : Shows 0 0 0 := ⟨rfl, rfl⟩

theorem toNat_succ {w : BitVec 7} (h : w.toNat < 127) : (w + 1).toNat = w.toNat + 1 := by
  rw [BitVec.toNat_add_of_lt]
  · rfl
  · exact Nat.succ_lt_succ h

/-- The display shows the counters, and these are in range: the stopwatch counts to 100 seconds and 60 minutes. -/
structure Shown (s : Clockl) : Prop where
  sec : Shows s.x s.y s.sec
  min : Shows s.a s.b s.min
  hour : Shows s.c s.d s.hour
  sec_le : s.sec.toNat ≤ 100
  min_le : s.min.toNat ≤ 60
  hour_le : s.hour.toNat ≤ 23

namespace Shown

variable {s : Clockl} (h : Shown s)
include h

theorem setSec {w : BitVec 7} (hw : w.toNat ≤ 100) : Shown (showSec { s with sec := w }) :=
  ⟨shows_digits w, h.min, h.hour, hw, h.min_le, h.hour_le⟩

theorem setMin {w : BitVec 7} (hw : w.toNat ≤ 60) : Shown (showMin { s with min := w }) :=
  ⟨h.sec, shows_digits w, h.hour, h.sec_le, hw, h.hour_le⟩

theorem setHour {w : BitVec 7} (hw : w.toNat ≤ 23) : Shown (showHour { s with hour := w }) :=
  ⟨h.sec, h.min, shows_digits w, h.sec_le, h.min_le, hw⟩

theorem zeroSec : Shown { s with sec := 0, x := 0, y := 0 } :=
  ⟨shows_zero, h.min, h.hour, Nat.zero_le _, h.min_le, h.hour_le⟩

theorem zeroMin : Shown { s with min := 0, a := 0, b := 0 } :=
  ⟨h.sec, shows_zero, h.hour, h.sec_le, Nat.zero_le _, h.hour_le⟩

theorem zeroHour : Shown { s with hour := 0, c := 0, d := 0 } :=
  ⟨h.sec, h.min, shows_zero, h.sec_le, h.min_le, Nat.zero_le _⟩

theorem carryMin (hmin : s.min.toNat ≤ 59) : Shown s.carryMin :=
  h.zeroSec.setMin (by rw [toNat_succ] <;> omega)

theorem carryHour : Shown s.carryHour := h.zeroSec.zeroMin.setHour h.hour_le

theorem clear : Shown s.clear := h.zeroSec.zeroMin.zeroHour

end Shown

theorem shown_initial (temp : BitVec 7) (ledl : BitVec 16) : Shown (initial temp ledl) :=
  ⟨shows_zero, shows_zero, shows_zero, Nat.zero_le _, Nat.zero_le _, Nat.zero_le _⟩

theorem Shown.stopwatch {s : Clockl} (h : Shown s) (sw : BitVec 3) : Shown (s.stopwatch sw) := by
  unfold Clockl.stopwatch
  split
  · split
    · next hsec =>
      have hle : s.sec.toNat ≤ 99 := hsec
      exact h.setSec (by rw [toNat_succ] <;> omega)
    split
    · next hmin => exact h.carryMin hmin
    split
    · exact h.carryHour
    · exact h.clear
  split
  · exact h.clear
  · exact h

theorem Shown.clock {s : Clockl} (h : Shown s) (sw : BitVec 3) (btnl : Bool) : Shown (s.clock sw btnl) := by
  -- the seconds are counted in two of the branches
  have hsec : s.sec < 0b0111011 → Shown (showSec { s with sec := s.sec + 1 }) := by
    intro hlt
    have hlt : s.sec.toNat < 59 := hlt
    exact h.setSec (by rw [toNat_succ] <;> omega)
  unfold Clockl.clock
  split
  · split
    · next hlt =>
      obtain ⟨h₁, h₂, h₃, h₄, h₅, h₆⟩ := hsec hlt
      exact ⟨h₁, h₂, h₃, h₄, h₅, h₆⟩
    split
    · next hmin => exact h.carryMin hmin
    split
    · exact h.carryHour
    · exact h.clear
  split
  · split
    · split
      · next hlt => exact hsec hlt
      · exact h.zeroSec
    · exact h
  split
  · split
    · split
      · next hmin =>
        have hle : s.min.toNat ≤ 59 := hmin
        exact h.setMin (by rw [toNat_succ] <;> omega)
      · exact h.zeroMin
    · exact h
  · split
    · split
      · next hhour =>
        have hlt : s.hour.toNat < 23 := hhour
        exact h.setHour (by rw [toNat_succ] <;> omega)
      · exact h.zeroHour
    · exact h

theorem Shown.next {s : Clockl} (h : Shown s) (i : ClocklInputs) : Shown (s.next i) := by
  unfold Clockl.next
  split
  · exact h.stopwatch i.sw
  · exact h.clock i.sw i.btnl

/-- The display shows the counters whatever the ticks so far. -/
theorem run_shown (temp : BitVec 7) (ledl : BitVec 16) (is : List ClocklInputs) :
    Shown (run next (initial temp ledl) is) := by
  have hany : ∀ i ∈ is, (fun _ : ClocklInputs => True) i := fun _ _ => trivial
  exact states_inv (fun _ i h _ => h.next i) (shown_initial temp ledl) hany _ (run_mem_states next _ is)

/-! ## The time -/

/-- The ticks of the clock with the switches at 0. -/
def clockTicks (btnl : List Bool) : List ClocklInputs := btnl.map fun b => ⟨.clkC, 0b000, b⟩

/-- The counters show that `n` seconds of a day have passed. -/
structure KeepsTime (n : Nat) (s : Clockl) : Prop where
  time : 3600 * s.hour.toNat + 60 * s.min.toNat + s.sec.toNat = n % 86400
  sec : s.sec.toNat < 60
  min : s.min.toNat < 60
  hour : s.hour.toNat < 24

/-- What the clock counts: hours of 61 minutes, and no hours. -/
structure Counted (n : Nat) (s : Clockl) : Prop where
  sec : s.sec.toNat = n % 60
  min : s.min.toNat = n / 60 % 61
  hour : s.hour = 0

theorem Counted.clock {n : Nat} {s : Clockl} (h : Counted n s) (btnl : Bool) :
    Counted (n + 1) (s.clock 0b000 btnl) := by
  obtain ⟨hsec, hmin, hhour⟩ := h
  unfold Clockl.clock
  rw [if_pos rfl]
  split
  · next hlt =>
    have hlt : s.sec.toNat < 59 := hlt
    have hsucc : (s.sec + 1).toNat = s.sec.toNat + 1 := toNat_succ (by omega)
    refine ⟨?_, ?_, hhour⟩
    · show (s.sec + 1).toNat = _
      omega
    · show s.min.toNat = _
      omega
  · next hge =>
    have hge : ¬ s.sec.toNat < 59 := hge
    split
    · next hle =>
      have hle : s.min.toNat ≤ 59 := hle
      have hsucc : (s.min + 1).toNat = s.min.toNat + 1 := toNat_succ (by omega)
      refine ⟨?_, ?_, hhour⟩
      · show 0 = _
        omega
      · show (s.min + 1).toNat = _
        omega
    · next hgt =>
      have hgt : ¬ s.min.toNat ≤ 59 := hgt
      have hlt : s.hour < 0b0010111 := by
        rw [hhour]
        decide
      rw [if_pos hlt]
      refine ⟨?_, ?_, hhour⟩
      · show 0 = _
        omega
      · show 0 = _
        omega

theorem run_counted (temp : BitVec 7) (ledl : BitVec 16) (btnl : List Bool) :
    Counted btnl.length (run next (initial temp ledl) (clockTicks btnl)) := by
  induction btnl using List.reverseRecOn with
  | nil => exact ⟨rfl, rfl, rfl⟩
  | append_singleton btnl b ih =>
    rw [clockTicks, List.map_append, run_append, List.length_append]
    exact ih.clock b

/-- After `n` ticks the clock shows the time exactly when these are less than an hour more than a multiple of 61
days. -/
theorem run_keepsTime_iff (temp : BitVec 7) (ledl : BitVec 16) (btnl : List Bool) :
    KeepsTime btnl.length (run next (initial temp ledl) (clockTicks btnl)) ↔
      btnl.length % (61 * 86400) < 3600 := by
  obtain ⟨hsec, hmin, hhour⟩ := run_counted temp ledl btnl
  generalize run next (initial temp ledl) (clockTicks btnl) = s at hsec hmin hhour
  have hzero : s.hour.toNat = 0 := congrArg BitVec.toNat hhour
  constructor
  · rintro ⟨htime, -, hlt, -⟩
    omega
  · intro h
    refine ⟨?_, ?_, ?_, ?_⟩ <;> omega

/-- After an hour the clock shows 60 minutes. -/
theorem clock_misses_hour :
    ¬ KeepsTime 3600 (run next (initial 0 0) (clockTicks (List.replicate 3600 false))) := by
  intro h
  have hcount := run_counted 0 0 (List.replicate 3600 false)
  rw [List.length_replicate] at hcount
  have hlt := h.min
  rw [hcount.min] at hlt
  exact absurd hlt (by decide)

end Clockl

end Jos.Edc
