import Jos.Access
import Jos.StabSearch

/-!
# `debuginfo_eip`

The kernel looks up an instruction address in the debugging symbols of the running program. The program chooses these
symbols: a block at `USTABDATA` says where its tables are, `user_mem_assert` checks that the program may read them, and
then three searches, for a source file, a function in it and a line in that, feed each other's bounds.

The tables are read from memory as a whole (`userTables`), since `debuginfo_eip` writes to none of it. Every access to
them goes through `Tables.stab` and `Tables.char`, which fail outside of the table.
-/

namespace Jos.Kdebug

open Except (Returns whileLoop)
open Pmap

/-! ## The tables of a user program -/

/-- `USTABDATA`, the address of the block that `user/user.ld` puts there. -/
def USTABDATA : Word := BitVec.ofNat 32 (PTSIZE / 2)

/-- The block at `USTABDATA`. -/
structure UserStabData where
  stabs : Word
  stabEnd : Word
  stabstr : Word
  stabstrEnd : Word

/-- `sizeof(struct UserStabData)`. -/
def USDSIZE : Word := 16#32

/-- `stab_end - stabs`, a difference of pointers to entries. -/
def UserStabData.count (usd : UserStabData) : Int := ((usd.stabEnd.toNat : Int) - usd.stabs.toNat).tdiv STABSIZE

theorem UserStabData.count_fits (usd : UserStabData) : STABSIZE * usd.count.toNat < 2 ^ 32 := by
  have hend := usd.stabEnd.isLt
  unfold UserStabData.count STABSIZE
  by_cases h : 0 ≤ (usd.stabEnd.toNat : Int) - usd.stabs.toNat
  · rw [Int.tdiv_eq_ediv_of_nonneg h]
    omega
  · have hneg : 0 ≤ (-((usd.stabEnd.toNat : Int) - usd.stabs.toNat)).tdiv (12 : ℕ) :=
      Int.tdiv_nonneg (by omega) (by decide)
    rw [Int.neg_tdiv] at hneg
    omega

/-- The kernel reads a byte of the running program. -/
def load8 (s : Pmap) (d : Nat) (va : Word) : Except Stop (BitVec 8) :=
  match loadByte s d va PTE_P with
  | some b => .ok b
  | none => .error (.panic .kernelFault)

def load16 (s : Pmap) (d : Nat) (va : Word) : Except Stop (BitVec 16) := do
  let b₀ ← load8 s d va
  let b₁ ← load8 s d (va + 1#32)
  return b₁ ++ b₀

def load32 (s : Pmap) (d : Nat) (va : Word) : Except Stop Word := do
  let w₀ ← load16 s d va
  let w₁ ← load16 s d (va + 2#32)
  return w₁ ++ w₀

def loadStab (s : Pmap) (d : Nat) (va : Word) : Except Stop Stab := do
  let nStrx ← load32 s d va
  let nType ← load8 s d (va + 4#32)
  let nOther ← load8 s d (va + 5#32)
  let nDesc ← load16 s d (va + 6#32)
  let nValue ← load32 s d (va + 8#32)
  return { nStrx, nType, nOther, nDesc, nValue }

def loadUserStabData (s : Pmap) (d : Nat) (va : Word) : Except Stop UserStabData := do
  let stabs ← load32 s d va
  let stabEnd ← load32 s d (va + 4#32)
  let stabstr ← load32 s d (va + 8#32)
  let stabstrEnd ← load32 s d (va + 12#32)
  return { stabs, stabEnd, stabstr, stabstrEnd }

/-- The first `n` elements of an array. -/
def loadArray {α : Type} (load : Nat → Except Stop α) : (n : Nat) → Except Stop { l : List α // l.length = n }
  | 0 => return ⟨[], rfl⟩
  | n + 1 => do
    let l ← loadArray load n
    let a ← load n
    return ⟨l.val ++ [a], by rw [List.length_append, l.property, List.length_singleton]⟩

/-- `user_mem_assert(curenv, va, len, PTE_U)`. -/
def userMemAssert (s : Pmap) (d : Nat) (va len : Word) : Except Stop Unit :=
  match userMemCheck s d va len (PTE_U ||| PTE_U) with
  | .ok .ok => .ok ()
  | .ok (.fault _) => .error .destroyed
  | .error p => .error (.panic p)

/-- The tables of the program whose directory is `d`. An array with its end before its start is empty. -/
def userTables (s : Pmap) (d : Nat) : Except Stop Tables := do
  userMemAssert s d USTABDATA USDSIZE
  let usd ← loadUserStabData s d USTABDATA
  userMemAssert s d usd.stabs (BitVec.ofInt 32 (usd.count * STABSIZE))
  userMemAssert s d usd.stabstr (usd.stabstrEnd - usd.stabstr)
  let stabs ← loadArray (fun i => loadStab s d (usd.stabs + BitVec.ofNat 32 (STABSIZE * i))) usd.count.toNat
  let stabstr ← loadArray (fun i => load8 s d (usd.stabstr + BitVec.ofNat 32 i))
    (usd.stabstrEnd.toNat - usd.stabstr.toNat)
  return {
    stabs := stabs.val
    stabstr := stabstr.val
    stabs_fit := by
      rw [stabs.property]
      exact usd.count_fits
    stabstr_fits := by
      have hend := usd.stabstrEnd.isLt
      rw [stabstr.property]
      omega }

/-! ## The lookup -/

/-- A name that `debuginfo_eip` gives out: the text `<unknown>`, or a place in the string table. -/
inductive Name
  | unknown
  | str (off : Nat)
  deriving DecidableEq

/-- `struct Eipdebuginfo`. -/
structure Eipdebuginfo where
  eipFile : Name
  eipLine : Nat
  eipFnName : Name
  eipFnNamelen : Nat
  eipFnAddr : Word
  eipFnNarg : Nat
  deriving DecidableEq

/-- What `*info` is initialized to. -/
def Eipdebuginfo.init (addr : Word) : Eipdebuginfo where
  eipFile := .unknown
  eipLine := 0
  eipFnName := .unknown
  eipFnNamelen := 9
  eipFnAddr := addr
  eipFnNarg := 0

namespace Tables

/-- `stabstr[off]`. -/
def char (t : Tables) (off : Nat) : Except Stop (BitVec 8) :=
  if off < t.stabstr.length then .ok (t.stabstr.getD off 0#8) else .error (.beyond off)

/-- `stabstr + off`, which is going to be used as a string. -/
def name (t : Tables) (off : Nat) : Except Stop Name :=
  if off < t.stabstr.length then .ok (.str off) else .error (.beyond off)

/-- `stabstr_end <= stabstr || stabstr_end[-1] != 0`. -/
def strInvalid (t : Tables) : Except Stop Bool :=
  if t.stabstr.length = 0 then return true
  else do return (← t.char (t.stabstr.length - 1)) != 0#8

/-- `strfind(name, ':') - name`. -/
def namelen (t : Tables) : Name → Except Stop Nat
  | .unknown => return "<unknown>".length
  | .str off => do
    let stop ← whileLoop .diverges (fun i => do let c ← t.char i; return c != 0#8 && c != 0x3a#8)
      (fun i => return i + 1) (t.stabstr.length - off + 1) off
    return stop - off

/-- `stabstr + stabs[i].n_strx` if that lies in the table, else `old`. -/
def nameOf (t : Tables) (st : Stab) (old : Name) : Except Stop Name :=
  if st.nStrx.toNat < t.stabstr.length then t.name st.nStrx.toNat else return old

/-- The function that was found, or the whole file: `info`, `addr`, `lline` and `rline` afterwards. -/
def findFun (t : Tables) (info : Eipdebuginfo) (addr : Word) (lfile rfile lfun rfun : Int) :
    Except Stop (Eipdebuginfo × Word × Int × Int) :=
  if lfun ≤ rfun then do
    let st ← t.stab lfun
    let eipFnName ← t.nameOf st info.eipFnName
    return ({ info with eipFnName, eipFnAddr := st.nValue }, addr - st.nValue, lfun, rfun)
  else
    -- Couldn't find function stab! Search the whole file for the line number.
    return ({ info with eipFnAddr := addr }, addr, lfile, rfile)

/-- Search backwards from the line number for the relevant filename stab. -/
def findFile (t : Tables) (info : Eipdebuginfo) (lfile lline : Int) : Except Stop Eipdebuginfo := do
  let lline ← t.scanDown (fun st => st.nType != N_SOL && (st.nType != N_SO || st.nValue == 0#32)) lfile lline
  if lfile ≤ lline then
    let st ← t.stab lline
    let eipFile ← t.nameOf st info.eipFile
    return { info with eipFile }
  else
    return info

/-- The number of parameters that follow entry `lfun`. -/
def countArgs (t : Tables) (lfun rfun : Int) : Except Stop Nat :=
  if lfun < rfun then do
    let i ← whileLoop .diverges (fun i => if i < rfun then do return (← t.stab i).nType == N_PSYM else return false)
      (fun i => return i + 1) ((rfun - lfun).toNat + 1) (lfun + 1)
    return (i - (lfun + 1)).toNat
  else
    return 0

/-- `debuginfo_eip` from the validity check of the string table on: the value returned, and `*info`. -/
def lookup (t : Tables) (addr : Word) : Except Stop (Int × Eipdebuginfo) := do
  let info := Eipdebuginfo.init addr
  if ← t.strInvalid then
    return (-1, info)
  else
    -- Search the entire set of stabs for the source file.
    let (lfile, rfile) ← t.stabBinsearch N_SO addr 0 (t.count - 1)
    if lfile = 0 then
      return (-1, info)
    else
      -- Search within that file's stabs for the function definition.
      let (lfun, rfun) ← t.stabBinsearch N_FUN addr lfile rfile
      let (info, addr, lline, rline) ← t.findFun info addr lfile rfile lfun rfun
      -- Ignore stuff after the colon.
      let eipFnNamelen ← t.namelen info.eipFnName
      let info := { info with eipFnNamelen }
      let (lline, rline) ← t.stabBinsearch N_SLINE addr lline rline
      if lline ≤ rline then
        let st ← t.stab lline
        let info ← t.findFile { info with eipLine := st.nDesc.toNat } lfile lline
        let eipFnNarg ← t.countArgs lfun rfun
        return (0, { info with eipFnNarg })
      else
        return (-1, info)

end Tables

/-- `debuginfo_eip`; `kstabs` are the tables that the linker puts into the kernel. -/
def debuginfoEip (kstabs : Tables) (s : Pmap) (d : Nat) (addr : Word) : Except Stop (Int × Eipdebuginfo) := do
  if ULIM ≤ addr then
    kstabs.lookup addr
  else
    let t ← userTables s d
    t.lookup addr

end Jos.Kdebug
