import Jos.Lib.ByteMem
import Jos.Trap

/-!
# The processor in user mode

One environment while it runs: its registers, and physical memory as its page tables show it. Several addresses
may name the same byte, as an environment may map a page as often as it likes.

Only the instructions of `lib/pfentry.S` are given a meaning, with a page fault as the one thing that can go
wrong. An environment that runs with `FL_TF` or `FL_AC` set may be ended by a debug trap or an alignment check at
any instruction; these traps are left out.
-/

namespace Jos

open ByteMem

/-! ## Flags -/

def FL_CF : Word := 0x1#32
def FL_PF : Word := 0x4#32
def FL_AF : Word := 0x10#32
def FL_ZF : Word := 0x40#32
def FL_SF : Word := 0x80#32
def FL_TF : Word := 0x100#32
def FL_DF : Word := 0x400#32
def FL_OF : Word := 0x800#32
def FL_IOPL_MASK : Word := 0x3000#32
def FL_IOPL_3 : Word := 0x3000#32
def FL_NT : Word := 0x4000#32
def FL_RF : Word := 0x10000#32
def FL_AC : Word := 0x40000#32
def FL_ID : Word := 0x200000#32

/-- The flags that arithmetic sets. -/
def FL_STATUS : Word := FL_CF ||| FL_PF ||| FL_AF ||| FL_ZF ||| FL_SF ||| FL_OF

/-- The flags that code at privilege level 3 can set; `FL_IF` is among them if the I/O privilege level is 3. -/
def userFlags (eflags : Word) : Word :=
  let common := FL_STATUS ||| FL_TF ||| FL_DF ||| FL_NT ||| FL_AC ||| FL_ID
  if eflags &&& FL_IOPL_MASK = FL_IOPL_3 then common ||| FL_IF else common

/-- The flags that it cannot touch. -/
def kernelFlags (eflags : Word) : Word := ~~~(userFlags eflags ||| FL_RF)

/-- Code at privilege level 3 may turn the flags `eflags` into `eflags'`. -/
def KeepsFlags (eflags eflags' : Word) : Prop :=
  eflags' &&& kernelFlags eflags = eflags &&& kernelFlags eflags

/-- `popfl` at privilege level 3. -/
def popFlags (eflags new : Word) : Word :=
  (eflags &&& kernelFlags eflags) ||| (new &&& userFlags eflags)

def flagIf (b : Bool) (flag : Word) : Word := if b then flag else 0#32

/-- The flags that depend on the result alone. -/
def resultFlags (r : Word) : Word :=
  flagIf ((List.range 8).countP (fun i => r.getLsbD i) % 2 = 0) FL_PF ||| flagIf (r = 0#32) FL_ZF |||
    flagIf r.msb FL_SF

def addFlags (x y : Word) : Word :=
  resultFlags (x + y) ||| flagIf (x + y < x) FL_CF ||| ((x ^^^ y ^^^ (x + y)) &&& FL_AF) |||
    flagIf (~~~(x ^^^ y) &&& (x ^^^ (x + y))).msb FL_OF

def subFlags (x y : Word) : Word :=
  resultFlags (x - y) ||| flagIf (x < y) FL_CF ||| ((x ^^^ y ^^^ (x - y)) &&& FL_AF) |||
    flagIf ((x ^^^ y) &&& (x ^^^ (x - y))).msb FL_OF

def setStatusFlags (eflags flags : Word) : Word :=
  (eflags &&& ~~~FL_STATUS) ||| (flags &&& FL_STATUS)

/-! ## Registers and memory -/

inductive Reg
  | edi
  | esi
  | ebp
  | esp
  | ebx
  | edx
  | ecx
  | eax
deriving DecidableEq

/-- What user code may do with a byte of memory. -/
inductive Access
  | none
  | read
  | write
deriving DecidableEq

/-- User code can read `n` bytes from `a` on. -/
def canRead (access : Word → Access) (a : Word) (n : Nat) : Bool :=
  (List.range n).all fun i => access (a + BitVec.ofNat 32 i) ≠ .none

/-- User code can write `n` bytes from `a` on. -/
def canWrite (access : Word → Access) (a : Word) (n : Nat) : Bool :=
  (List.range n).all fun i => access (a + BitVec.ofNat 32 i) = .write

/-- Where the byte at `a` is: page number and offset. -/
def physAddr (page : Nat → Nat) (a : Word) : Nat × Nat := (page (PGNUM a), a.toNat % PGSIZE)

/-- An environment in user mode. -/
structure UserState where
  reg : Reg → Word
  eip : Word
  eflags : Word
  /-- Physical memory. -/
  mem : Nat × Nat → BitVec 8
  /-- The physical page of each virtual page. -/
  page : Nat → Nat
  access : Word → Access
  /-- No user code writes above `ULIM`. -/
  ulim : ∀ a, ULIM ≤ a → access a ≠ .write

namespace UserState

def esp (σ : UserState) : Word := σ.reg .esp

/-- Memory as the environment sees it. -/
def view (σ : UserState) (a : Word) : BitVec 8 := σ.mem (physAddr σ.page a)

def setReg (σ : UserState) (r : Reg) (w : Word) : UserState :=
  { σ with reg := Function.update σ.reg r w }

/-- Read a word; `none` is a page fault. -/
def load (σ : UserState) (a : Word) : Option Word :=
  if canRead σ.access a 4 then some (ByteMem.load σ.view a) else none

/-- Write a word; `none` is a page fault. -/
def store (σ : UserState) (a w : Word) : Option UserState :=
  if canWrite σ.access a 4 then
    some { σ with mem := storeThrough (physAddr σ.page) σ.mem a (bytes w) }
  else
    none

def push (σ : UserState) (w : Word) : Option UserState :=
  (σ.setReg .esp (σ.esp - 4#32)).store (σ.esp - 4#32) w

end UserState

/-! ## Instructions -/

/-- The instructions of `pfentry.S`. -/
inductive Instr
  /-- `pushl %r` -/
  | pushl (r : Reg)
  /-- `movl addr, %r` -/
  | movlFrom (addr : Word) (r : Reg)
  /-- `call *%r`; `next` is the address of the next instruction. -/
  | call (r : Reg) (next : Word)
  /-- `addl $n, %r` -/
  | addl (n : Word) (r : Reg)
  /-- `subl $n, off(%r)` -/
  | subl (n off : Word) (r : Reg)
  /-- `movl off(%r), %r'` -/
  | movlLoad (off : Word) (r r' : Reg)
  /-- `movl %r, (%r')` -/
  | movlStore (r r' : Reg)
  | popal
  | popfl
  /-- `popl %r` -/
  | popl (r : Reg)
  | ret

open UserState in
/-- Execute an instruction; `none` is a page fault. Only control transfers are followed in `eip`. -/
def Instr.exec (σ : UserState) : Instr → Option UserState
  | .pushl r => σ.push (σ.reg r)
  | .movlFrom addr r => do
    let w ← σ.load addr
    return σ.setReg r w
  | .call r next => do
    let σ' ← σ.push next
    return { σ' with eip := σ.reg r }
  | .addl n r =>
    some { σ.setReg r (σ.reg r + n) with eflags := setStatusFlags σ.eflags (addFlags (σ.reg r) n) }
  | .subl n off r => do
    let w ← σ.load (σ.reg r + off)
    let σ ← σ.store (σ.reg r + off) (w - n)
    return { σ with eflags := setStatusFlags σ.eflags (subFlags w n) }
  | .movlLoad off r r' => do
    let w ← σ.load (σ.reg r + off)
    return σ.setReg r' w
  | .movlStore r r' => σ.store (σ.reg r') (σ.reg r)
  | .popal => do
    let edi ← σ.load σ.esp
    let esi ← σ.load (σ.esp + 4#32)
    let ebp ← σ.load (σ.esp + 8#32)
    -- the word at `esp + 12` is skipped
    let ebx ← σ.load (σ.esp + 16#32)
    let edx ← σ.load (σ.esp + 20#32)
    let ecx ← σ.load (σ.esp + 24#32)
    let eax ← σ.load (σ.esp + 28#32)
    return { σ with reg := fun
      | .edi => edi
      | .esi => esi
      | .ebp => ebp
      | .esp => σ.esp + 32#32
      | .ebx => ebx
      | .edx => edx
      | .ecx => ecx
      | .eax => eax }
  | .popfl => do
    let w ← σ.load σ.esp
    return { σ.setReg .esp (σ.esp + 4#32) with eflags := popFlags σ.eflags w }
  | .popl r => do
    let w ← σ.load σ.esp
    return (σ.setReg .esp (σ.esp + 4#32)).setReg r w
  | .ret => do
    let w ← σ.load σ.esp
    return { σ.setReg .esp (σ.esp + 4#32) with eip := w }

/-- Execute a piece of code. -/
def Instr.run : List Instr → UserState → Option UserState
  | [], σ => some σ
  | i :: is, σ => i.exec σ >>= run is

/-! ## Access rights and addresses -/

variable {σ σ' : UserState} {access : Word → Access} {a b : Word}

theorem canWrite_iff {n : Nat} :
    canWrite access a n = true ↔ ∀ i < n, access (a + BitVec.ofNat 32 i) = .write := by
  simp [canWrite]

theorem canWrite_of_canWrite {n k l : Nat} (h : canWrite access a n = true) (hkl : k + l ≤ n) :
    canWrite access (a + BitVec.ofNat 32 k) l = true := by
  rw [canWrite_iff]
  intro i hi
  rw [BitVec.add_assoc, ← BitVec.ofNat_add]
  exact canWrite_iff.mp h (k + i) (by omega)

/-- Bytes that are less than a page apart are different ones. -/
theorem physAddr_clear (page : Nat → Nat) (a : Word) {i k : Nat} (hi : i < PGSIZE) (hk : k ≤ PGSIZE) :
    Clear (physAddr page) a k (a + BitVec.ofNat 32 i) := by
  intro j hj hne heq
  have hoff : (a + BitVec.ofNat 32 j).toNat % PGSIZE = (a + BitVec.ofNat 32 i).toNat % PGSIZE :=
    congrArg Prod.snd heq
  have hij : j = i := by
    unfold PGSIZE at *
    simp only [BitVec.toNat_add, BitVec.toNat_ofNat] at hoff
    omega
  exact hne (by rw [hij])

namespace KeepsFlags

variable {fl fl' fl'' new : Word}

theorem refl (fl : Word) : KeepsFlags fl fl := rfl

private theorem iopl_and (fl : Word) : kernelFlags fl &&& FL_IOPL_MASK = FL_IOPL_MASK := by
  unfold kernelFlags userFlags
  simp only
  split <;> decide

/-- The I/O privilege level stays, and with it what code may do. -/
theorem userFlags_eq (h : KeepsFlags fl fl') : userFlags fl' = userFlags fl := by
  have hiopl : fl' &&& FL_IOPL_MASK = fl &&& FL_IOPL_MASK := by
    rw [← iopl_and fl, ← BitVec.and_assoc, ← BitVec.and_assoc, h]
  unfold userFlags
  rw [hiopl]

theorem trans (h : KeepsFlags fl fl') (h' : KeepsFlags fl' fl'') : KeepsFlags fl fl'' := by
  have hk : kernelFlags fl' = kernelFlags fl := by rw [kernelFlags, kernelFlags, h.userFlags_eq]
  unfold KeepsFlags at h h' ⊢
  rw [hk] at h'
  rw [h', h]

theorem setStatusFlags (fl flags : Word) : KeepsFlags fl (setStatusFlags fl flags) := by
  have hmask : FL_STATUS &&& kernelFlags fl = 0#32 := by
    unfold kernelFlags userFlags
    simp only
    split <;> decide
  unfold KeepsFlags Jos.setStatusFlags
  generalize kernelFlags fl = K at hmask ⊢
  generalize FL_STATUS = S at hmask ⊢
  ext i hi
  have hbit := congrArg (fun w : Word => w[i]) hmask
  simp only [BitVec.getElem_and, BitVec.getElem_not, BitVec.getElem_or, BitVec.getElem_zero] at hbit ⊢
  cases hS : S[i] <;> cases hK : K[i] <;> simp_all

/-- `popfl` brings the flags back that were pushed. -/
theorem popFlags (h : KeepsFlags fl fl') (hnew : new &&& ~~~FL_RF = fl &&& ~~~FL_RF) :
    popFlags fl' new &&& ~~~FL_RF = fl &&& ~~~FL_RF := by
  have hu := h.userFlags_eq
  unfold KeepsFlags at h
  unfold Jos.popFlags
  rw [show kernelFlags fl' = kernelFlags fl by rw [kernelFlags, kernelFlags, hu], h, hu, kernelFlags]
  generalize userFlags fl = U
  generalize FL_RF = R at hnew ⊢
  ext i hi
  have hbit := congrArg (fun w : Word => w[i]) hnew
  simp only [BitVec.getElem_and, BitVec.getElem_not, BitVec.getElem_or] at hbit ⊢
  cases hR : R[i] <;> cases hU : U[i] <;> simp_all

end KeepsFlags

/-! ## What instructions do -/

theorem Instr.run_cons {i : Instr} (is : List Instr) (h : i.exec σ = some σ') :
    Instr.run (i :: is) σ = Instr.run is σ' := by
  rw [Instr.run, h]
  rfl

/-- Physical memory after a word was stored at `a`. -/
def stored (σ : UserState) (a w : Word) : Nat × Nat → BitVec 8 :=
  storeThrough (physAddr σ.page) σ.mem a (bytes w)

end Jos
