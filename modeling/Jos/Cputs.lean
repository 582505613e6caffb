import Jos.Printfmt
import Jos.UpcallEntry

/-!
# `sys_cputs`

The kernel checks the range that the caller names and then prints it with `cprintf("%.*s", len, s)`. The loop of
`vprintfmt` reads a byte before it looks at the precision, so it touches the byte after the range unless there is a
NUL in it. What the call does is described by the bytes it prints (`Printed`), and it reads no more than it has
checked just if these end with a NUL of the range (`CputsOk`), apart from some marginal cases.
-/

namespace Jos

open Pmap Printfmt

/-- The kernel's memory, as `vprintfmt` reads it. -/
abbrev Bytes := Word → Option (BitVec 8)

variable {m : Bytes} {src : Src} {fuel off : Nat} {precision width s len : Word} {bs : List (BitVec 8)}

/-! ## The loop of `%s` -/

/-- The loop prints `bs`, from offset `off` on. -/
structure Printed (m : Bytes) (src : Src) (off : Nat) (precision : Word) (bs : List (BitVec 8)) : Prop where
  bytes : ∀ i < bs.length, src.read m (off + i) = .ok (bs.getD i 0#8) ∧ bs.getD i 0#8 ≠ 0#8
  le : 0 ≤ precision.toInt → bs.length ≤ precision.toNat
  /-- The byte after the last one is read, too. -/
  stop : ∃ b, src.read m (off + bs.length) = .ok b ∧
    (b = 0#8 ∨ 0 ≤ precision.toInt ∧ bs.length = precision.toNat)

/-- What the loop writes and reads. -/
def strOut (src : Src) (off : Nat) (bs : List (BitVec 8)) : Out where
  out := bs.map fun b => b.signExtend 32
  reads := (List.range (bs.length + 1)).flatMap fun i => src.trace (off + i)

/-- The byte that `putch` is called with. -/
theorem setWidth_signExtend (b : BitVec 8) : (b.signExtend 32).setWidth 8 = b := by
  revert b
  decide

theorem signExtend_eq_zero {b : BitVec 8} : b.signExtend 32 = 0#32 ↔ b = 0#8 := by
  constructor
  · intro h
    rw [← setWidth_signExtend b, h]
    rfl
  · rintro rfl
    rfl

theorem strOut_cons (b : BitVec 8) (bs : List (BitVec 8)) : strOut src off (b :: bs)
    = ({ reads := src.trace off } : Out) ++ { out := [b.signExtend 32] } ++ strOut src (off + 1) bs := by
  have hreads : ((List.range (bs.length + 1 + 1)).flatMap fun i => src.trace (off + i))
      = src.trace off ++ (List.range (bs.length + 1)).flatMap fun i => src.trace (off + 1 + i) := by
    rw [List.range_succ_eq_map, List.flatMap_cons, List.flatMap_map]
    refine congrArg (src.trace off ++ ·) (List.flatMap_congr fun i _ => ?_)
    rw [Nat.succ_eq_add_one, Nat.add_comm i, Nat.add_assoc]
  apply Out.ext
  · simp [strOut]
  · rw [strOut, List.length_cons, hreads]
    simp [strOut]

theorem toInt_nonneg {w : Word} : 0 ≤ w.toInt ↔ w.toNat < 2 ^ 31 := by
  have hlt := w.isLt
  rw [BitVec.toInt_eq_toNat_cond]
  split <;> omega

/-- A precision that is not used up, less 1. -/
theorem toNat_pred {w : Word} (hw : w ≠ 0#32) : (w - 1#32).toNat + 1 = w.toNat := by
  have hlt := w.isLt
  have hne : w.toNat ≠ 0 := fun hc => hw (BitVec.eq_of_toNat_eq hc)
  rw [BitVec.toNat_sub, BitVec.toNat_ofNat]
  omega

/-- The test `precision < 0 || --precision >= 0`. -/
theorem goes_on_iff : precision.toInt < 0 ∨ 0 ≤ (precision - 1#32).toInt ↔ precision ≠ 0#32 := by
  constructor
  · rintro hgo rfl
    revert hgo
    decide
  · intro hne
    have hpre := toNat_pred hne
    rw [← not_le, toInt_nonneg, toInt_nonneg]
    omega

theorem toInt_sub_one (hne : precision ≠ 0#32) (hpos : 0 ≤ precision.toInt) :
    0 < precision.toInt ∧ (precision - 1#32).toInt = precision.toInt - 1 := by
  have hpre := toNat_pred hne
  rw [toInt_nonneg] at hpos
  rw [BitVec.toInt_eq_toNat_of_lt (by omega), BitVec.toInt_eq_toNat_of_lt (by omega)]
  omega

/-- The precision for the rest of the string. -/
def nextPrecision (precision : Word) : Word := if precision.toInt < 0 then precision else precision - 1#32

theorem nextPrecision_nonneg (hne : precision ≠ 0#32) :
    0 ≤ (nextPrecision precision).toInt ↔ 0 ≤ precision.toInt := by
  unfold nextPrecision
  split
  · rfl
  · have hpre := toNat_pred hne
    rw [toInt_nonneg]
    rw [not_lt, toInt_nonneg] at *
    omega

theorem toNat_nextPrecision (hne : precision ≠ 0#32) (hpos : 0 ≤ precision.toInt) :
    (nextPrecision precision).toNat + 1 = precision.toNat := by
  rw [nextPrecision, if_neg (by omega)]
  exact toNat_pred hne

/-- One round of the loop without the flag `#`. -/
theorem putStr_succ (m : Bytes) (src : Src) (fuel off : Nat) (precision width : Word) :
    putStr m false src (fuel + 1) off precision width = do
      let b ← src.read m off
      if b = 0#8 ∨ precision = 0#32 then
        return ({ reads := src.trace off }, width)
      else
        let (o, width) ← putStr m false src fuel (off + 1) (nextPrecision precision) (width - 1#32)
        return (({ reads := src.trace off } : Out) ++ { out := [b.signExtend 32] } ++ o, width) := by
  rw [putStr]
  refine congrArg (src.read m off >>= ·) (funext fun b => ?_)
  by_cases hz : b = 0#8
  · rw [if_pos (signExtend_eq_zero.mpr hz), if_pos (Or.inl hz)]
  · rw [if_neg fun hc => hz (signExtend_eq_zero.mp hc)]
    by_cases hp : precision = 0#32
    · rw [if_neg fun hc => goes_on_iff.mp hc hp, if_pos (Or.inr hp)]
    · rw [if_pos (goes_on_iff.mpr hp), if_neg (not_or.mpr ⟨hz, hp⟩)]
      simp only [Bool.false_eq_true, false_and, if_false]
      rfl

theorem printed_nil : Printed m src off precision [] ↔
    ∃ b, src.read m off = .ok b ∧ (b = 0#8 ∨ precision = 0#32) := by
  have hzero : precision = 0#32 ↔ 0 ≤ precision.toInt ∧ 0 = precision.toNat := by
    constructor
    · rintro rfl
      exact ⟨by decide, rfl⟩
    · exact fun h => BitVec.eq_of_toNat_eq h.2.symm
  constructor
  · rintro ⟨-, -, b, hb, hstop⟩
    exact ⟨b, hb, hstop.imp_right hzero.mpr⟩
  · rintro ⟨b, hb, hstop⟩
    exact ⟨nofun, fun _ => Nat.zero_le _, b, hb, hstop.imp_right hzero.mp⟩

/-- What is left to print after the first byte. -/
theorem printed_cons {b : BitVec 8} : Printed m src off precision (b :: bs) ↔
    src.read m off = .ok b ∧ b ≠ 0#8 ∧ precision ≠ 0#32 ∧
      Printed m src (off + 1) (nextPrecision precision) bs := by
  have hshift : ∀ i, off + (i + 1) = off + 1 + i := fun i => by omega
  constructor
  · rintro ⟨hbytes, hle, b', hb', hstop⟩
    have hne : precision ≠ 0#32 := by
      rintro rfl
      exact absurd (hle (by decide)) (by simp)
    have hpre := toNat_nextPrecision hne
    rw [List.length_cons] at hle hb' hstop
    obtain ⟨hb, hbne⟩ := hbytes 0 (by simp)
    refine ⟨hb, hbne, hne, fun i hi => ?_, fun hpos => ?_, b', ?_, hstop.imp_right fun hend => ?_⟩
    · have h := hbytes (i + 1) (by simpa using hi)
      rwa [hshift, List.getD_cons_succ] at h
    · rw [nextPrecision_nonneg hne] at hpos
      have := hle hpos
      have := hpre hpos
      omega
    · rwa [hshift] at hb'
    · have := hpre hend.1
      exact ⟨(nextPrecision_nonneg hne).mpr hend.1, by omega⟩
  · rintro ⟨hb, hbne, hne, hbytes, hle, b', hb', hstop⟩
    have hpre := toNat_nextPrecision hne
    rw [nextPrecision_nonneg hne] at hle hstop
    refine ⟨fun i hi => ?_, fun hpos => ?_, b', ?_, hstop.imp_right fun hend => ⟨hend.1, ?_⟩⟩
    · cases i with
      | zero => exact ⟨hb, hbne⟩
      | succ i =>
        rw [hshift, List.getD_cons_succ]
        exact hbytes i (by simpa using hi)
    · have := hle hpos
      have := hpre hpos
      rw [List.length_cons]
      omega
    · rw [List.length_cons, hshift]
      exact hb'
    · have := hpre hend.1
      rw [List.length_cons]
      omega

/-- The loop in terms of the bytes it prints. -/
theorem putStr_iff {r : Out × Word} : putStr m false src fuel off precision width = .ok r ↔
    ∃ bs, bs.length < fuel ∧ Printed m src off precision bs ∧
      r = (strOut src off bs, width - BitVec.ofNat 32 bs.length) := by
  induction fuel generalizing off precision width r with
  | zero =>
    refine iff_of_false nofun ?_
    rintro ⟨bs, hlt, -⟩
    cases hlt
  | succ fuel ih =>
    have hnil : strOut src off [] = ({ reads := src.trace off } : Out) := by
      simp [strOut]
    have hzero : width - BitVec.ofNat 32 0 = width := BitVec.sub_zero width
    have hwidth : ∀ n, width - BitVec.ofNat 32 (n + 1) = width - 1#32 - BitVec.ofNat 32 n := fun n => by
      rw [BitVec.ofNat_add, BitVec.add_comm, ← BitVec.sub_sub]
    rw [putStr_succ, Except.bind_eq_ok]
    constructor
    · rintro ⟨b, hb, h⟩
      by_cases hstop : b = 0#8 ∨ precision = 0#32
      · rw [if_pos hstop] at h
        cases h
        refine ⟨[], by simp, printed_nil.mpr ⟨b, hb, hstop⟩, ?_⟩
        rw [hnil, List.length_nil, hzero]
      · rw [if_neg hstop] at h
        rw [not_or] at hstop
        obtain ⟨⟨o, w⟩, ho, h⟩ := Except.bind_eq_ok.mp h
        obtain ⟨bs, hlt, hp, hr⟩ := ih.mp ho
        obtain ⟨rfl, rfl⟩ := Prod.mk.inj hr
        cases h
        refine ⟨b :: bs, by simpa using hlt, printed_cons.mpr ⟨hb, hstop.1, hstop.2, hp⟩, ?_⟩
        rw [strOut_cons, List.length_cons, hwidth bs.length]
    · rintro ⟨bs, hlt, hp, rfl⟩
      cases bs with
      | nil =>
        obtain ⟨b, hb, hstop⟩ := printed_nil.mp hp
        refine ⟨b, hb, ?_⟩
        rw [if_pos hstop, hnil, List.length_nil, hzero]
        rfl
      | cons b bs =>
        obtain ⟨hb, hbne, hne, hp⟩ := printed_cons.mp hp
        refine ⟨b, hb, ?_⟩
        rw [if_neg (not_or.mpr ⟨hbne, hne⟩), ih.mpr ⟨bs, by simpa using hlt, hp, rfl⟩, strOut_cons,
          List.length_cons, hwidth bs.length]
        rfl

/-! ## `cprintf("%.*s", len, s)` -/

/-- The call in `sys_cputs`. -/
def cputs (m : Bytes) (s len : Word) : Except Fault Out :=
  cprintf m (['%', '.', '*', 's'].map chr) fun i => if i = 0 then len else s

/-- `"(null)"`. -/
def nullText : List (BitVec 8) := ['(', 'n', 'u', 'l', 'l', ')'].map chr

/-- What the call prints from. -/
def cputsSrc (s : Word) : Src := if s = 0#32 then .lit nullText else .mem s

theorem cputs_reswitch (s len : Word) :
    reswitch (['%', '.', '*', 's'].map chr) 6 1 {} (fun i => if i = 0 then len else s)
      = .ok (chr 's', 4, { width := 0#32, precision := len }, fun _ => s) := rfl

/-- The case `'s'` with a width of 0. -/
theorem cputs_convert (m : Bytes) (s len : Word) :
    convert m (chr 's') { width := 0#32, precision := len } (fun _ => s) = do
      let (o, width) ← putStr m false (cputsSrc s) STRFUEL 0 len 0#32
      return some (o ++ pad ((chr ' ').setWidth 32) width, fun _ => s) := by
  have hstr : convStr m (cputsSrc s) { width := 0#32, precision := len } = do
      let (o, width) ← putStr m false (cputsSrc s) STRFUEL 0 len 0#32
      return {} ++ o ++ pad ((chr ' ').setWidth 32) width := rfl
  have hcase : convert m (chr 's') { width := 0#32, precision := len } (fun _ => s) = do
      let o ← convStr m (cputsSrc s) { width := 0#32, precision := len }
      return some (o, fun _ => s) := rfl
  rw [hcase, hstr]
  cases putStr m false (cputsSrc s) STRFUEL 0 len 0#32 with
  | error e => rfl
  | ok r => rfl

theorem cputs_eq (m : Bytes) (s len : Word) : cputs m s len = do
    let (o, width) ← putStr m false (cputsSrc s) STRFUEL 0 len 0#32
    return o ++ pad ((chr ' ').setWidth 32) width := by
  have hend : ∀ o, (do
      let o' ← vprintfmt m (['%', '.', '*', 's'].map chr) 4 4 fun _ => s
      return o ++ o') = Except.ok (o ++ ({} : Out)) := fun _ => rfl
  have hnil : ∀ o : Out, o ++ ({} : Out) = o := fun o => by apply Out.ext <;> simp
  refine (vprintfmt_escape rfl (cputs_reswitch s len)).trans ?_
  rw [cputs_convert]
  cases putStr m false (cputsSrc s) STRFUEL 0 len 0#32 with
  | error e => rfl
  | ok r =>
    refine (hend _).trans ?_
    rw [hnil]
    rfl

/-- What the call does in terms of the bytes it prints; the width is counted down from 0. -/
theorem cputs_iff {o : Out} : cputs m s len = .ok o ↔ ∃ bs, bs.length < STRFUEL ∧
    Printed m (cputsSrc s) 0 len bs ∧
    o = strOut (cputsSrc s) 0 bs ++ pad ((chr ' ').setWidth 32) (0#32 - BitVec.ofNat 32 bs.length) := by
  rw [cputs_eq]
  constructor
  · intro h
    obtain ⟨r, hr, h⟩ := Except.bind_eq_ok.mp h
    obtain ⟨bs, hlt, hp, rfl⟩ := putStr_iff.mp hr
    exact ⟨bs, hlt, hp, (Except.ok.inj h).symm⟩
  · rintro ⟨bs, hlt, hp, rfl⟩
    rw [putStr_iff.mpr ⟨bs, hlt, hp, rfl⟩]
    rfl

/-- The width is negative, and nothing is padded, until the string is longer than `INT_MAX + 1`. -/
theorem pad_neg {c : Word} {n : Nat} (hn : n < STRFUEL) : pad c (0#32 - BitVec.ofNat 32 n)
    = if n ≤ 2 ^ 31 then {} else { out := List.replicate (2 ^ 32 - n) c } := by
  unfold STRFUEL at hn
  have hnat : (0#32 - BitVec.ofNat 32 n).toNat = (2 ^ 32 - n) % 2 ^ 32 := by
    rw [BitVec.toNat_sub, BitVec.toNat_ofNat, BitVec.toNat_ofNat]
    omega
  unfold pad
  rw [BitVec.toInt_eq_toNat_cond, hnat]
  by_cases hle : n ≤ 2 ^ 31
  · rw [if_neg (by split <;> omega), if_pos hle]
  · rw [if_pos (by split <;> omega), if_neg hle, Nat.mod_eq_of_lt (by omega)]

/-- In memory. -/
theorem read_mem {i : Nat} {b : BitVec 8} :
    (Src.mem s).read m i = .ok b ↔ m (s + BitVec.ofNat 32 i) = some b := by
  simp only [Src.read]
  cases m (s + BitVec.ofNat 32 i) with
  | none => exact iff_of_false nofun nofun
  | some b' => exact ⟨fun h => congrArg some (Except.ok.inj h), fun h => congrArg Except.ok (Option.some.inj h)⟩

theorem mem_reads {a : Word} : a ∈ (strOut (.mem s) 0 bs).reads ↔ ∃ i ≤ bs.length, a = s + BitVec.ofNat 32 i := by
  simp only [strOut, Src.trace, List.mem_flatMap, List.mem_range, List.mem_singleton, Nat.zero_add,
    Nat.lt_succ_iff]

theorem read_null {i : Nat} (hi : i ≤ 6) : (Src.lit nullText).read m i = .ok (nullText.getD i 0#8) := by
  have hlen : nullText.length = 6 := rfl
  simp only [Src.read, hlen]
  by_cases hlt : i < 6
  · rw [if_pos hlt]
    rfl
  · obtain rfl : i = 6 := by omega
    rfl

theorem nullText_ne {i : Nat} (hi : i < 6) : nullText.getD i 0#8 ≠ 0#8 := by
  have hall : ∀ i < 6, nullText.getD i 0#8 ≠ 0#8 := by decide
  exact hall i hi

/-- Of a null pointer the loop prints `"(null)"`, up to the precision. -/
theorem printed_null : Printed m (.lit nullText) 0 len bs ↔
    bs = nullText.take (if len.toInt < 0 then 6 else len.toNat) := by
  have hlen : nullText.length = 6 := rfl
  constructor
  · intro h
    have hread : ∀ i b, (Src.lit nullText).read m i = .ok b → i ≤ 6 := by
      intro i b hb
      by_contra hgt
      simp only [Src.read, hlen] at hb
      rw [if_neg (by omega), if_neg (by omega)] at hb
      cases hb
    obtain ⟨b, hb, hstop⟩ := h.stop
    rw [Nat.zero_add] at hb
    have hle := hread _ _ hb
    rw [read_null hle] at hb
    have htake : bs = nullText.take bs.length := by
      refine List.ext_getElem (by rw [List.length_take, hlen]; omega) fun i hi hi' => ?_
      have hbyte := (h.bytes i hi).1
      rw [Nat.zero_add, read_null (by omega)] at hbyte
      rw [List.getElem_take, ← List.getD_eq_getElem bs 0#8 hi,
        ← List.getD_eq_getElem nullText 0#8 (by rw [hlen]; omega)]
      exact (Except.ok.inj hbyte).symm
    have hend : bs.length = 6 ∨ 0 ≤ len.toInt ∧ bs.length = len.toNat := by
      refine hstop.imp_left fun hz => ?_
      by_contra hne
      exact nullText_ne (i := bs.length) (by omega) ((Except.ok.inj hb).trans hz)
    rw [htake]
    split
    · congr 1
      omega
    · next hpos =>
      have hle' := h.le (by omega)
      rcases hend with hsix | hend
      · rw [hsix, List.take_of_length_le (by rw [hlen]), List.take_of_length_le (by rw [hlen]; omega)]
      · rw [hend.2]
  · rintro rfl
    obtain ⟨n, hn⟩ : ∃ n, n = if len.toInt < 0 then 6 else len.toNat := ⟨_, rfl⟩
    rw [← hn]
    have hmin : (nullText.take n).length = min n 6 := by rw [List.length_take, hlen]
    refine ⟨fun i hi => ?_, fun hpos => ?_, nullText.getD (min n 6) 0#8, ?_, ?_⟩
    · rw [hmin] at hi
      rw [Nat.zero_add, read_null (by omega)]
      have hget : (nullText.take n).getD i 0#8 = nullText.getD i 0#8 := by
        rw [List.getD_eq_getElem _ 0#8 (by rw [hmin]; omega), List.getElem_take,
          List.getD_eq_getElem _ 0#8 (by rw [hlen]; omega)]
      rw [hget]
      exact ⟨rfl, nullText_ne (by omega)⟩
    · rw [if_neg (by omega)] at hn
      rw [hmin]
      omega
    · rw [hmin, Nat.zero_add, read_null (by omega)]
    · rw [hmin]
      split at hn
      · subst hn
        exact Or.inl rfl
      · by_cases hsix : 6 ≤ n
        · rw [Nat.min_eq_right hsix]
          exact Or.inl rfl
        · exact Or.inr ⟨by omega, by omega⟩

/-! ## Reading what was checked -/

/-- The bytes of `[s, s + len)` up to the first NUL. -/
structure UpToNul (m : Bytes) (s len : Word) (bs : List (BitVec 8)) : Prop where
  le : bs.length ≤ len.toNat
  bytes : ∀ i < bs.length, m (s + BitVec.ofNat 32 i) = some (bs.getD i 0#8) ∧ bs.getD i 0#8 ≠ 0#8
  nul : bs.length < len.toNat → m (s + BitVec.ofNat 32 bs.length) = some 0#8

/-- The call reads no user byte outside of `[s, s + len)` and prints the bytes of this range up to the first
NUL. -/
def CputsExact (m : Bytes) (s len : Word) : Prop :=
  ∃ o bs, cputs m s len = .ok o ∧ (∀ a ∈ o.reads, a < ULIM → (a - s).toNat < len.toNat) ∧
    UpToNul m s len bs ∧ o.out.map (fun c => c.setWidth 8) = bs

/-- There is a NUL in the range, not more than `2 ^ 31` bytes from its start. Otherwise, the byte after the range is
a byte of the kernel that can be read; or the pointer is null and what is at address 0 is what is printed
instead. -/
def CputsOk (m : Bytes) (s len : Word) : Prop :=
  ∃ bs, UpToNul m s len bs ∧ if s = 0#32 then bs = nullText.take (if len.toInt < 0 then 6 else len.toNat) else
    bs.length ≤ 2 ^ 31 ∧ (bs.length < len.toNat ∨
      ULIM ≤ s + len ∧ ∃ b, m (s + len) = some b ∧ (0 ≤ len.toInt ∨ b = 0#8))

theorem out_low (bs : List (BitVec 8)) :
    (bs.map fun b => b.signExtend 32).map (fun c : Word => c.setWidth 8) = bs := by
  rw [List.map_map]
  exact (List.map_congr_left fun b _ => setWidth_signExtend b).trans (List.map_id bs)

/-- A string that is printed as the range has it is not padded. -/
theorem Printed.eq_of_out (h : Printed m (.mem s) 0 len bs) (hlt : bs.length < STRFUEL) {bs' : List (BitVec 8)}
    (hup : UpToNul m s len bs') (hout : (strOut (.mem s) 0 bs ++ pad ((chr ' ').setWidth 32)
      (0#32 - BitVec.ofNat 32 bs.length)).out.map (fun c => c.setWidth 8) = bs') :
    bs = bs' ∧ bs.length ≤ 2 ^ 31 := by
  rw [Out.append_out, List.map_append, strOut, out_low, pad_neg hlt] at hout
  by_cases hle : bs.length ≤ 2 ^ 31
  · rw [if_pos hle, List.map_nil, List.append_nil] at hout
    exact ⟨hout, hle⟩
  · rw [if_neg hle, List.map_replicate] at hout
    exfalso
    unfold STRFUEL at hlt
    have hspace : bs'.getD bs.length 0#8 = chr ' ' := by
      rw [← hout, List.getD_append_right _ _ _ _ le_rfl, Nat.sub_self,
        List.getD_replicate _ (by omega)]
      decide
    have hidx : bs.length < bs'.length := by
      rw [← hout, List.length_append, List.length_replicate]
      omega
    obtain ⟨b, hb, hstop⟩ := h.stop
    rw [Nat.zero_add, read_mem, (hup.bytes _ hidx).1, hspace] at hb
    rcases hstop with rfl | ⟨hpos, hlen⟩
    · exact absurd (Option.some.inj hb) (by decide)
    · rw [toInt_nonneg] at hpos
      omega

/-- The case of a null pointer: nothing is read, and `"(null)"` is too short to be padded. -/
theorem cputs_null {o : Out} : cputs m 0#32 len = .ok o ↔
    o = { out := (nullText.take (if len.toInt < 0 then 6 else len.toNat)).map fun b => b.signExtend 32 } := by
  obtain ⟨bs, hbs⟩ : ∃ bs, bs = nullText.take (if len.toInt < 0 then 6 else len.toNat) := ⟨_, rfl⟩
  have hsix : bs.length ≤ 6 := by
    rw [hbs, List.length_take]
    exact Nat.min_le_right _ _
  have hlt : bs.length < STRFUEL := by
    unfold STRFUEL
    omega
  have hout : strOut (.lit nullText) 0 bs ++ pad ((chr ' ').setWidth 32) (0#32 - BitVec.ofNat 32 bs.length)
      = { out := bs.map fun b => b.signExtend 32 } := by
    rw [pad_neg hlt, if_pos (by omega)]
    apply Out.ext <;> simp [strOut, Src.trace]
  rw [← hbs, cputs_iff]
  constructor
  · rintro ⟨bs', -, hp, rfl⟩
    obtain rfl : bs' = bs := (printed_null.mp hp).trans hbs.symm
    exact hout
  · rintro rfl
    exact ⟨bs, hlt, printed_null.mpr hbs, hout.symm⟩

theorem cputs_null_exact_iff : CputsExact m 0#32 len ↔ CputsOk m 0#32 len := by
  constructor
  · rintro ⟨o, bs, hcall, -, hup, hout⟩
    rw [cputs_null.mp hcall, out_low] at hout
    exact ⟨bs, hup, by rw [if_pos rfl]; exact hout.symm⟩
  · rintro ⟨bs, hup, hbs⟩
    rw [if_pos rfl] at hbs
    refine ⟨_, bs, cputs_null.mpr rfl, nofun, hup, ?_⟩
    rw [out_low, hbs]

/-- Only the kernel's bytes may be read after the range, and there the loop reads one if it prints the whole
range. -/
theorem CputsExact.ok (hs : s ≠ 0#32) (h : CputsExact m s len) : CputsOk m s len := by
  obtain ⟨o, bs, hcall, hreads, hup, hout⟩ := h
  obtain ⟨bs', hlt, hp, rfl⟩ := cputs_iff.mp hcall
  rw [cputsSrc, if_neg hs] at hp hout hreads
  obtain ⟨rfl, hle⟩ := hp.eq_of_out hlt hup hout
  refine ⟨bs', hup, ?_⟩
  rw [if_neg hs]
  refine ⟨hle, ?_⟩
  by_cases hlen : bs'.length < len.toNat
  · exact Or.inl hlen
  · right
    have hlen : bs'.length = len.toNat := by
      have := hup.le
      omega
    have hofNat : BitVec.ofNat 32 bs'.length = len := by
      rw [hlen]
      exact BitVec.ofNat_toNat 32 len
    obtain ⟨b, hb, hstop⟩ := hp.stop
    rw [Nat.zero_add, read_mem, hofNat] at hb
    refine ⟨?_, b, hb, ?_⟩
    · by_contra hlow
      have hmem : s + len ∈ (strOut (.mem s) 0 bs' ++ pad ((chr ' ').setWidth 32)
          (0#32 - BitVec.ofNat 32 bs'.length)).reads := by
        rw [Out.append_reads, List.mem_append, mem_reads]
        exact Or.inl ⟨bs'.length, le_rfl, by rw [hofNat]⟩
      have h := hreads _ hmem (BitVec.not_le.mp hlow)
      rw [BitVec.add_comm, BitVec.add_sub_cancel] at h
      exact absurd h (lt_irrefl _)
    · rcases hstop with hz | hpos
      · exact Or.inr hz
      · exact Or.inl hpos.1

theorem CputsOk.exact (hs : s ≠ 0#32) (h : CputsOk m s len) : CputsExact m s len := by
  obtain ⟨bs, hup, hok⟩ := h
  rw [if_neg hs] at hok
  obtain ⟨hle, hend⟩ := hok
  have hlt : bs.length < STRFUEL := by
    unfold STRFUEL
    omega
  have hofNat : bs.length = len.toNat → BitVec.ofNat 32 bs.length = len := by
    intro hlen
    rw [hlen]
    exact BitVec.ofNat_toNat 32 len
  have hp : Printed m (.mem s) 0 len bs := by
    refine ⟨fun i hi => ?_, fun _ => hup.le, ?_⟩
    · rw [Nat.zero_add, read_mem]
      exact hup.bytes i hi
    · rw [Nat.zero_add]
      by_cases hlen : bs.length < len.toNat
      · exact ⟨0#8, read_mem.mpr (hup.nul hlen), Or.inl rfl⟩
      · obtain ⟨-, b, hb, hstop⟩ := hend.resolve_left hlen
        have hlen : bs.length = len.toNat := Nat.le_antisymm hup.le (not_lt.mp hlen)
        refine ⟨b, read_mem.mpr (by rw [hofNat hlen]; exact hb), ?_⟩
        rcases hstop with hpos | hz
        · exact Or.inr ⟨hpos, hlen⟩
        · exact Or.inl hz
  have hcall : cputs m s len = .ok (strOut (.mem s) 0 bs) := by
    refine cputs_iff.mpr ⟨bs, hlt, by rw [cputsSrc, if_neg hs]; exact hp, ?_⟩
    rw [cputsSrc, if_neg hs, pad_neg hlt, if_pos hle]
    apply Out.ext <;> simp
  refine ⟨_, bs, hcall, fun a ha hlow => ?_, hup, out_low bs⟩
  obtain ⟨i, hi, rfl⟩ := mem_reads.mp ha
  rw [BitVec.add_comm, BitVec.add_sub_cancel, BitVec.toNat_ofNat]
  have := len.isLt
  have hile := hup.le
  by_cases hlen : i < len.toNat
  · rwa [Nat.mod_eq_of_lt (by omega)]
  · -- the byte after the range, which belongs to the kernel
    exfalso
    obtain ⟨hhigh, -⟩ := hend.resolve_left (by omega)
    have hi : i = bs.length := by omega
    rw [hi, hofNat (by omega)] at hlow
    exact absurd hlow (BitVec.not_lt.mpr hhigh)

theorem cputs_exact_iff : CputsExact m s len ↔ CputsOk m s len := by
  by_cases hs : s = 0#32
  · subst hs
    exact cputs_null_exact_iff
  · exact ⟨CputsExact.ok hs, CputsOk.exact hs⟩

/-! ## The system call -/

variable {p : Pmap} {d : Nat}

/-- `printStr` is the loop of `%s` without its output. -/
theorem printStr_iff : printStr p d fuel precision.toInt (s + BitVec.ofNat 32 off) = .ok () ↔
    ∃ r, putStr (kernByte p d) false (.mem s) fuel off precision width = .ok r := by
  induction fuel generalizing off precision width with
  | zero => exact iff_of_false (by rintro ⟨⟩) (by rintro ⟨r, ⟨⟩⟩)
  | succ fuel ih =>
    have hnext : s + BitVec.ofNat 32 off + 1#32 = s + BitVec.ofNat 32 (off + 1) := by
      rw [BitVec.ofNat_add, BitVec.add_assoc]
    rw [printStr, putStr_succ]
    cases hb : kernByte p d (s + BitVec.ofNat 32 off) with
    | none =>
      refine iff_of_false (by rintro ⟨⟩) ?_
      rintro ⟨r, hr⟩
      obtain ⟨b, hb', -⟩ := Except.bind_eq_ok.mp hr
      rw [read_mem, hb] at hb'
      cases hb'
    | some b =>
      rw [read_mem.mpr hb, Except.ok_bind]
      by_cases hz : b = 0#8
      · rw [if_pos (Or.inl hz)]
        exact iff_of_true (if_pos hz) ⟨_, rfl⟩
      · by_cases hp : precision = 0#32
        · rw [if_pos (Or.inr hp)]
          subst hp
          exact iff_of_true (if_neg hz) ⟨_, rfl⟩
        · -- both go on with the next byte
          have hrest : printStr p d fuel (nextPrecision precision).toInt (s + BitVec.ofNat 32 (off + 1)) = .ok () ↔
              ∃ r, putStr (kernByte p d) false (.mem s) fuel (off + 1) (nextPrecision precision) (width - 1#32)
                = .ok r := ih
          rw [if_neg (not_or.mpr ⟨hz, hp⟩)]
          have hgo : (if b = 0#8 then pure () else if precision.toInt < 0 then
                printStr p d fuel precision.toInt (s + BitVec.ofNat 32 off + 1#32)
              else if 0 ≤ precision.toInt - 1 then
                printStr p d fuel (precision.toInt - 1) (s + BitVec.ofNat 32 off + 1#32)
              else pure ())
              = printStr p d fuel (nextPrecision precision).toInt (s + BitVec.ofNat 32 (off + 1)) := by
            rw [if_neg hz, hnext]
            unfold nextPrecision
            split
            · rfl
            · next hpos =>
              obtain ⟨hlt, hsub⟩ := toInt_sub_one hp (by omega)
              rw [hsub, if_pos (by omega)]
          refine (iff_of_eq (congrArg (· = Except.ok ()) hgo)).trans (hrest.trans ⟨?_, ?_⟩)
          · rintro ⟨r, hr⟩
            rw [hr]
            exact ⟨_, rfl⟩
          · rintro ⟨r, hr⟩
            obtain ⟨r, hr, -⟩ := Except.bind_eq_ok.mp hr
            exact ⟨r, hr⟩

/-- The kernel's `cprintf` faults just if this one does. -/
theorem cprintfStr_iff : cprintfStr p d s len = .ok () ↔ ∃ o, cputs (kernByte p d) s len = .ok o := by
  by_cases hs : s = 0#32
  · subst hs
    exact iff_of_true rfl ⟨_, cputs_null.mpr rfl⟩
  · have hloop : printStr p d STRFUEL len.toInt s = .ok () ↔
        ∃ r, putStr (kernByte p d) false (.mem s) STRFUEL 0 len 0#32 = .ok r := by
      refine Iff.trans (iff_of_eq ?_) printStr_iff
      rw [BitVec.add_zero]
    rw [cprintfStr, if_neg hs, cputs_eq, cputsSrc, if_neg hs]
    refine hloop.trans ⟨?_, ?_⟩
    · rintro ⟨r, hr⟩
      rw [hr]
      exact ⟨_, rfl⟩
    · rintro ⟨o, ho⟩
      obtain ⟨r, hr, -⟩ := Except.bind_eq_ok.mp ho
      exact ⟨r, hr⟩

/-! ## Checked ranges -/

/-- What a user may access, the kernel can read. -/
theorem Accessible.kernByte {a perm : Word} (h : Accessible p d perm a.toNat) : ∃ b, kernByte p d a = some b := by
  obtain ⟨-, -, pte, hwalk, hpres, -⟩ := h
  rw [BitVec.ofNat_toNat, BitVec.setWidth_eq] at hwalk
  by_cases hP : present (p.mem d (PDX a))
  · by_cases hlt : ppn (p.mem d (PDX a)) < p.npages
    · rw [pgdirWalk_present false hP hlt] at hwalk
      cases hwalk
      have htrans : translate p d a PTE_P = some (ppn (p.mem (ppn (p.mem d (PDX a))) (PTX a))) := by
        rw [translate, if_pos (present_iff.mp hP)]
        exact if_pos (present_iff.mp hpres)
      exact ⟨_, congrArg (Option.map fun q => byteOf (p.mem q (wordOf a)) (a.toNat % 4)) htrans⟩
    · rw [pgdirWalk_far false hP (not_lt.mp hlt)] at hwalk
      cases hwalk
  · rw [pgdirWalk_absent hP] at hwalk
    cases hwalk

/-- A range that passed the check and ends below the kernel. -/
theorem checked_readable {i : Nat} (hcheck : userMemCheck p d s len PTE_U = .ok .ok)
    (hend : s.toNat + len.toNat < ULIM.toNat) (hi : i < len.toNat) :
    ∃ b, kernByte p d (s + BitVec.ofNat 32 i) = some b := by
  rw [toNat_ULIM] at hend
  have hsum : (s + BitVec.ofNat 32 i).toNat = s.toNat + i := by
    rw [BitVec.toNat_add, BitVec.toNat_ofNat]
    omega
  have hall := (checksRange_of_le (by omega) (by omega)).1.mp hcheck
  have hacc : Accessible p d PTE_U (s + BitVec.ofNat 32 i).toNat := by
    rw [hsum]
    exact hall _ (by omega) (by omega)
  exact hacc.kernByte

/-- If the whole range can be read and ends below the kernel, there has to be a NUL in it. -/
theorem cputsOk_iff_nul (hs : s ≠ 0#32) (hend : s.toNat + len.toNat < ULIM.toNat)
    (hread : ∀ i < len.toNat, ∃ b, m (s + BitVec.ofNat 32 i) = some b) :
    CputsOk m s len ↔ ∃ n < len.toNat, n ≤ 2 ^ 31 ∧ m (s + BitVec.ofNat 32 n) = some 0#8 := by
  have hlow : ¬ ULIM ≤ s + len := by
    have := BitVec.toNat_add s len
    rw [BitVec.le_def]
    rw [toNat_ULIM] at hend ⊢
    omega
  constructor
  · rintro ⟨bs, hup, hok⟩
    rw [if_neg hs] at hok
    have hlt : bs.length < len.toNat := hok.2.resolve_right fun hc => hlow hc.1
    exact ⟨bs.length, hlt, hok.1, hup.nul hlt⟩
  · rintro ⟨n, hn, hle, hz⟩
    -- up to the first of them
    obtain ⟨j, hj, hmin⟩ : ∃ j, m (s + BitVec.ofNat 32 j) = some 0#8 ∧
        ∀ i < j, m (s + BitVec.ofNat 32 i) ≠ some 0#8 := by
      have hex : ∃ j, m (s + BitVec.ofNat 32 j) = some 0#8 := ⟨n, hz⟩
      exact ⟨Nat.find hex, Nat.find_spec hex, fun i hi => Nat.find_min hex hi⟩
    have hjn : j ≤ n := not_lt.mp fun hc => hmin n hc hz
    obtain ⟨bs, hlen, hbs⟩ : ∃ bs : List (BitVec 8), bs.length = j ∧
        ∀ i < j, bs.getD i 0#8 = (m (s + BitVec.ofNat 32 i)).getD 0#8 := by
      refine ⟨(List.range j).map fun i => (m (s + BitVec.ofNat 32 i)).getD 0#8, by simp, fun i hi => ?_⟩
      rw [List.getD_eq_getElem _ _ (by simpa using hi), List.getElem_map, List.getElem_range]
    refine ⟨bs, ⟨by omega, fun i hi => ?_, fun _ => by rw [hlen]; exact hj⟩, ?_⟩
    · obtain ⟨b, hb⟩ := hread i (by omega)
      have hne := hmin i (by omega)
      rw [hbs i (by omega)]
      rw [hb] at hne ⊢
      exact ⟨rfl, fun hc => hne (congrArg some hc)⟩
    · rw [if_neg hs]
      exact ⟨by omega, Or.inl (by omega)⟩

/-- `cprintf` of a checked range reads and prints this range just in the cases of `CputsOk`; below the kernel, just
if there is a NUL in it. -/
theorem sysCputs_exact_iff (hcheck : userMemCheck p d s len PTE_U = .ok .ok) :
    (CputsExact (kernByte p d) s len ↔ CputsOk (kernByte p d) s len) ∧
    (s ≠ 0#32 → s.toNat + len.toNat < ULIM.toNat → (CputsExact (kernByte p d) s len ↔
      ∃ n < len.toNat, n ≤ 2 ^ 31 ∧ kernByte p d (s + BitVec.ofNat 32 n) = some 0#8)) := by
  refine ⟨cputs_exact_iff, fun hs hend => ?_⟩
  rw [cputs_exact_iff]
  exact cputsOk_iff_nul hs hend fun i hi => checked_readable hcheck hend hi

/-- An address space with one page, at `PGSIZE`, that starts with the word `w`. -/
def onePage (w : Word) : Pmap where
  npages := 3
  pages _ := ⟨none, 0#16⟩
  pageFreeList := none
  kernPgdir := 0
  mmioBase := MMIOBASE
  mem p i := if p = 0 ∧ i = 0 then freshPde 1 else if p = 1 ∧ i = 1 then mkPte 2 PTE_U
    else if p = 2 ∧ i = 0 then w else 0#32

/-- The text `"hi"` with its NUL. -/
theorem sysCputs_exact_onePage : userMemCheck (onePage 0x6968#32) 0 0x1000#32 3#32 PTE_U = .ok .ok ∧
    CputsExact (kernByte (onePage 0x6968#32) 0) 0x1000#32 3#32 := by
  have hcheck : userMemCheck (onePage 0x6968#32) 0 0x1000#32 3#32 PTE_U = .ok .ok := by
    refine userMemCheck_ok_iff.mpr fun v hv hv' => ?_
    obtain rfl : v = 1 := by
      simp only [stopPage, BitVec.toNat_ofNat] at hv hv'
      omega
    exact ⟨by decide, ⟨1, 1⟩, rfl, by decide, by decide⟩
  refine ⟨hcheck, ((sysCputs_exact_iff hcheck).2 (by decide) (by decide)).mpr ⟨2, by decide, by decide, ?_⟩⟩
  decide

/-- A range of length 0 at an address that is not mapped passes the check, and the kernel faults on its first
byte. -/
theorem sysCputs_unmapped : ∃ s₀ D l d₀ d₁ k, DemoBooted (notFree s₀) D l d₀ d₁ k ∧
    userMemCheck k.pmap d₀ 0x1000#32 0#32 PTE_U = .ok .ok ∧ ¬ CputsExact (kernByte k.pmap d₀) 0x1000#32 0#32 ∧
    cprintfStr k.pmap d₀ 0x1000#32 0#32 = .error .kernelFault := by
  obtain ⟨s₀, D, l, d₀, d₁, k, h⟩ := demoSystem_boots
  refine ⟨s₀, D, l, d₀, d₁, k, h, ?_, fun hexact => ?_, ?_⟩
  · refine userMemCheck_ok_iff.mpr fun v hv hv' => ?_
    simp only [stopPage, BitVec.toNat_ofNat] at hv hv'
    omega
  · obtain ⟨bs, -, hok⟩ := cputs_exact_iff.mp hexact
    rw [if_neg (by decide)] at hok
    rcases hok.2 with hlt | ⟨hhigh, -⟩
    · exact absurd hlt (Nat.not_lt_zero _)
    · revert hhigh
      decide
  · have hnone : kernByte k.pmap d₀ 0x1000#32 = none := by
      obtain ⟨q, hq⟩ := h.stack₀
      have hpte : pteOf k.pmap d₀ (PGNUM 0x1000#32) = 0#32 := (hq _ (by decide)).trans (if_neg (by decide))
      have htrans : translate k.pmap d₀ 0x1000#32 PTE_P = none := by
        rw [h.started.inv.pmap.translate_below UserFlags.kern h.dirs.1 (by decide), hpte]
        decide
      rw [kernByte, loadByte, htrans]
      rfl
    have hstep : printStr k.pmap d₀ 4294967296 0 0x1000#32 = .error .kernelFault := by
      rw [printStr, hnone]
      rfl
    rw [cprintfStr, if_neg (by decide)]
    exact hstep

end Jos
