import Jos.Lib.Fallible
import Jos.Mmu

/-!
# Formatted output (`lib/printfmt.c`)

`vprintfmt` as the kernel uses it for `cprintf`. The format string and the strings of the program itself are
lists of bytes, without the terminating NUL; a string that an argument points to is read from memory byte by byte.
Each function returns what it writes together with the addresses it reads (`Out`). Arithmetic on `int` wraps
around.
-/

namespace Jos.Printfmt

/-- Why a call does not return. -/
inductive Fault
  /-- A byte of a string is not mapped. -/
  | memory
  /-- The format string or a table is read past one of its ends. -/
  | bounds
  | diverges
deriving DecidableEq

/-- The arguments of `putch`, and the addresses of the bytes read from memory. -/
@[ext]
structure Out where
  out : List Word := []
  reads : List Word := []
deriving DecidableEq

instance : Append Out := ⟨fun o o' => ⟨o.out ++ o'.out, o.reads ++ o'.reads⟩⟩

@[simp] theorem Out.append_out (o o' : Out) : (o ++ o').out = o.out ++ o'.out := rfl
@[simp] theorem Out.append_reads (o o' : Out) : (o ++ o').reads = o.reads ++ o'.reads := rfl

def chr (c : Char) : BitVec 8 := BitVec.ofNat 8 c.toNat

/-- `putch(c)` for each of these. -/
def text (bs : List (BitVec 8)) : Out := { out := bs.map fun b => b.setWidth 32 }

/-- `for (; width > 0; width--) putch(c)`. -/
def pad (c width : Word) : Out := if 0 < width.toInt then { out := List.replicate width.toNat c } else {}

/-! ## Strings -/

/-- What a `char *` points to: memory, or a string of the program. -/
inductive Src
  | mem (p : Word)
  | lit (bs : List (BitVec 8))

/-- `p[off]`. -/
def Src.read (m : Word → Option (BitVec 8)) (src : Src) (off : Nat) : Except Fault (BitVec 8) :=
  match src with
  | .mem p =>
    match m (p + BitVec.ofNat 32 off) with
    | some b => return b
    | none => throw .memory
  | .lit bs => if off < bs.length then return bs.getD off 0#8
    else if off = bs.length then return 0#8 else throw .bounds

/-- The addresses this reads. -/
def Src.trace (src : Src) (off : Nat) : List Word :=
  match src with
  | .mem p => [p + BitVec.ofNat 32 off]
  | .lit _ => []

/-- `strnlen`, from `s + off` on. -/
def strnlen (m : Word → Option (BitVec 8)) (src : Src) : Nat → Nat → Nat → Except Fault (Word × Out)
  | 0, _, _ => throw .diverges
  | fuel + 1, size, off => do
    if size = 0 then
      return (0#32, {})
    else
      let ch ← src.read m off
      if ch = 0#8 then
        return (0#32, { reads := src.trace off })
      else
        let (n, o) ← strnlen m src fuel (size - 1) (off + 1)
        return (n + 1#32, { reads := src.trace off } ++ o)

/-- The loop of `%s` that writes the string, from `p + off` on: the byte is read before `precision` is looked at.
The last component is what is left of `width`. -/
def putStr (m : Word → Option (BitVec 8)) (altflag : Bool) (src : Src) :
    Nat → Nat → Word → Word → Except Fault (Out × Word)
  | 0, _, _, _ => throw .diverges
  | fuel + 1, off, precision, width => do
    let b ← src.read m off
    -- `char` is signed
    let ch : Word := b.signExtend 32
    let read : Out := { reads := src.trace off }
    if ch = 0#32 then
      return (read, width)
    else if precision.toInt < 0 ∨ 0 ≤ (precision - 1#32).toInt then
      let precision := if precision.toInt < 0 then precision else precision - 1#32
      let c := if altflag ∧ (ch.toInt < 32 ∨ 126 < ch.toInt) then (chr '?').setWidth 32 else ch
      let (o, width) ← putStr m altflag src fuel (off + 1) precision (width - 1#32)
      return (read ++ { out := [c] } ++ o, width)
    else
      return (read, width)

/-! ## Conversions -/

/-- What the flags of an escape sequence set. -/
structure Spec where
  padc : BitVec 8 := chr ' '
  width : Word := -1#32
  precision : Word := -1#32
  lflag : Nat := 0
  altflag : Bool := false

/-- The arguments: `va_arg` takes the first and leaves the others. -/
def Args := Nat → Word

def Args.drop (ap : Args) (n : Nat) : Args := fun i => ap (i + n)

/-- No string in memory is longer. -/
def STRFUEL : Nat := 4294967296

/-- The case `'s'`. -/
def convStr (m : Word → Option (BitVec 8)) (src : Src) (sp : Spec) : Except Fault Out := do
  let (before, width) ←
    if 0 < sp.width.toInt ∧ sp.padc ≠ chr '-' then do
      let (n, o) ← strnlen m src STRFUEL sp.precision.toNat 0
      let width := sp.width - n
      pure (o ++ pad (sp.padc.signExtend 32) width, if 0 < width.toInt then 0#32 else width)
    else
      pure (({} : Out), sp.width)
  let (o, width) ← putStr m sp.altflag src STRFUEL 0 sp.precision width
  return before ++ o ++ pad ((chr ' ').setWidth 32) width

/-- `"0123456789abcdef"[n]`. -/
def digit (n : Nat) : BitVec 8 := BitVec.ofNat 8 (if n < 10 then 48 + n else 87 + n)

/-- `printnum`, with a level of recursion for each digit. -/
def printnum : Nat → Nat → Nat → Word → Word → Out
  | 0, _, _, _, _ => {}
  | fuel + 1, num, base, width, padc =>
    (if base ≤ num then printnum fuel (num / base) base (width - 1#32) padc else pad padc (width - 1#32)) ++
      text [digit (num % base)]

/-- The label `number`: a 64-bit number has no more than 64 digits. -/
def number (sp : Spec) (num : BitVec 64) (base : Nat) : Out :=
  printnum 64 num.toNat base sp.width (sp.padc.signExtend 32)

/-- `getuint`, and the arguments that are left. -/
def getuint (ap : Args) (lflag : Nat) : BitVec 64 × Args :=
  if 2 ≤ lflag then (ap 1 ++ ap 0, ap.drop 2) else ((ap 0).setWidth 64, ap.drop 1)

/-- `getint`. -/
def getint (ap : Args) (lflag : Nat) : BitVec 64 × Args :=
  if 2 ≤ lflag then (ap 1 ++ ap 0, ap.drop 2) else ((ap 0).signExtend 64, ap.drop 1)

/-- The case `'d'`. -/
def signed (sp : Spec) (num : BitVec 64) : Out :=
  if num.toInt < 0 then text [chr '-'] ++ number sp (-num) 10 else number sp num 10

/-- `error_string`, which has no entry 0. -/
def errorString : List String :=
  ["unspecified error",
    "bad environment",
    "invalid parameter",
    "out of memory",
    "out of environments",
    "segmentation fault",
    "env is not recving",
    "unexpected end of file",
    "no free space on disk",
    "too many files are open",
    "file or block not found",
    "invalid path",
    "file already exists",
    "file is not a valid executable",
    "operation not supported"]

/-- The case `'e'`: `printfmt` with `"%s"` and the message, or with `"error %d"`. -/
def convErr (m : Word → Option (BitVec 8)) (err : Word) : Except Fault Out :=
  let err := if err.toInt < 0 then -err else err
  if err.toInt < 0 then
    -- `-INT_MIN` is an index before the table
    throw .bounds
  else
    match err.toNat with
    | n + 1 =>
      match errorString[n]? with
      | some msg => convStr m (.lit (msg.toList.map chr)) {}
      | none => return text ("error ".toList.map chr) ++ signed {} (err.signExtend 64)
    | 0 => return text ("error ".toList.map chr) ++ signed {} (err.signExtend 64)

/-- The cases that end an escape sequence, and the arguments they leave; `none` is the default case. -/
def convert (m : Word → Option (BitVec 8)) (ch : BitVec 8) (sp : Spec) (ap : Args) :
    Except Fault (Option (Out × Args)) := do
  if ch = chr 'c' then
    return some ({ out := [ap 0] }, ap.drop 1)
  else if ch = chr 'e' then
    let o ← convErr m (ap 0)
    return some (o, ap.drop 1)
  else if ch = chr 's' then
    let src := if ap 0 = 0#32 then Src.lit (['(', 'n', 'u', 'l', 'l', ')'].map chr) else .mem (ap 0)
    let o ← convStr m src sp
    return some (o, ap.drop 1)
  else if ch = chr 'd' then
    let (num, ap) := getint ap sp.lflag
    return some (signed sp num, ap)
  else if ch = chr 'u' then
    let (num, ap) := getuint ap sp.lflag
    return some (number sp num 10, ap)
  else if ch = chr 'o' then
    let (num, ap) := getuint ap sp.lflag
    return some (number sp num 8, ap)
  else if ch = chr 'p' then
    return some (text [chr '0', chr 'x'] ++ number sp ((ap 0).setWidth 64) 16, ap.drop 1)
  else if ch = chr 'x' then
    let (num, ap) := getuint ap sp.lflag
    return some (number sp num 16, ap)
  else if ch = chr '%' then
    return some (text [ch], ap)
  else
    return none

/-! ## The format string -/

/-- `fmt[i]`, with the NUL at the end. -/
def fmtAt (fmt : List (BitVec 8)) (i : Nat) : Except Fault (BitVec 8) :=
  if i < fmt.length then return fmt.getD i 0#8
  else if i = fmt.length then return 0#8 else throw .bounds

/-- The loop of a width or a precision whose last digit so far is `ch`: the number, and where `fmt` is. -/
def digits (fmt : List (BitVec 8)) : Nat → Nat → Word → BitVec 8 → Except Fault (Word × Nat)
  | 0, _, _, _ => throw .diverges
  | fuel + 1, i, precision, ch => do
    let precision := precision * 10#32 + ch.setWidth 32 - (chr '0').setWidth 32
    let ch ← fmtAt fmt i
    if ch < chr '0' ∨ chr '9' < ch then
      return (precision, i)
    else
      digits fmt fuel (i + 1) precision ch

/-- The label `process_precision`. -/
def processPrecision (sp : Spec) (precision : Word) : Spec :=
  if sp.width.toInt < 0 then { sp with width := precision, precision := -1#32 }
  else { sp with precision }

/-- The label `reswitch`, up to a character that ends the escape sequence: that character, where `fmt` is, and
the arguments that are left. -/
def reswitch (fmt : List (BitVec 8)) : Nat → Nat → Spec → Args →
    Except Fault (BitVec 8 × Nat × Spec × Args)
  | 0, _, _, _ => throw .diverges
  | fuel + 1, i, sp, ap => do
    let ch ← fmtAt fmt i
    if ch = chr '-' then
      reswitch fmt fuel (i + 1) { sp with padc := chr '-' } ap
    else if ch = chr '0' then
      reswitch fmt fuel (i + 1) { sp with padc := chr '0' } ap
    else if chr '1' ≤ ch ∧ ch ≤ chr '9' then
      let (precision, i) ← digits fmt fuel (i + 1) 0#32 ch
      reswitch fmt fuel i (processPrecision sp precision) ap
    else if ch = chr '*' then
      reswitch fmt fuel (i + 1) (processPrecision sp (ap 0)) (ap.drop 1)
    else if ch = chr '.' then
      reswitch fmt fuel (i + 1) (if sp.width.toInt < 0 then { sp with width := 0#32 } else sp) ap
    else if ch = chr '#' then
      reswitch fmt fuel (i + 1) { sp with altflag := true } ap
    else if ch = chr 'l' then
      reswitch fmt fuel (i + 1) { sp with lflag := sp.lflag + 1 } ap
    else
      return (ch, i + 1, sp, ap)

/-- `while (fmt[-1] != '%') fmt--`: where `fmt` is afterwards. -/
def backScan (fmt : List (BitVec 8)) : Nat → Except Fault Nat
  | 0 => throw .bounds
  | i + 1 => do
    let ch ← fmtAt fmt i
    if ch = chr '%' then return i + 1 else backScan fmt i

/-- `vprintfmt` from `fmt + i` on. -/
def vprintfmt (m : Word → Option (BitVec 8)) (fmt : List (BitVec 8)) : Nat → Nat → Args → Except Fault Out
  | 0, _, _ => throw .diverges
  | fuel + 1, i, ap => do
    let ch ← fmtAt fmt i
    if ch ≠ chr '%' then
      if ch = 0#8 then
        return {}
      else
        let o ← vprintfmt m fmt fuel (i + 1) ap
        return text [ch] ++ o
    else
      let (ch, i, sp, ap) ← reswitch fmt (fmt.length + 2) (i + 1) {} ap
      match ← convert m ch sp ap with
      | some (o, ap) =>
        let o' ← vprintfmt m fmt fuel i ap
        return o ++ o'
      | none =>
        let i ← backScan fmt (i - 1)
        let o ← vprintfmt m fmt fuel i ap
        return text [chr '%'] ++ o

/-- The escape sequence at `i`. -/
theorem vprintfmt_escape {m : Word → Option (BitVec 8)} {fmt : List (BitVec 8)} {fuel i j : Nat} {ap ap' : Args}
    {ch : BitVec 8} {sp : Spec} (hi : fmtAt fmt i = .ok (chr '%'))
    (hsp : reswitch fmt (fmt.length + 2) (i + 1) {} ap = .ok (ch, j, sp, ap')) :
    vprintfmt m fmt (fuel + 1) i ap = do
      match ← convert m ch sp ap' with
      | some (o, ap) =>
        let o' ← vprintfmt m fmt fuel j ap
        return o ++ o'
      | none =>
        let i ← backScan fmt (j - 1)
        let o ← vprintfmt m fmt fuel i ap'
        return text [chr '%'] ++ o := by
  have hpct : ¬ chr '%' ≠ chr '%' := fun hc => hc rfl
  rw [vprintfmt, hi, hsp, Except.ok_bind, if_neg hpct, Except.ok_bind]

/-- `cprintf`: every round of the loop of `vprintfmt` gets further in `fmt`. -/
def cprintf (m : Word → Option (BitVec 8)) (fmt : List (BitVec 8)) (ap : Args) : Except Fault Out :=
  vprintfmt m fmt (fmt.length + 1) 0 ap

end Jos.Printfmt
