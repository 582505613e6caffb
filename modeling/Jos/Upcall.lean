import Jos.UserMode

/-!
# The page-fault upcall (`lib/pfentry.S`)

`page_fault_handler` puts a `struct UTrapframe` on the exception stack and lets the environment continue at
`_pgfault_upcall`, which calls a handler written in C and then goes back to where the fault was. There is no
kernel on that way back: the registers, the flags and the stack pointer are restored by the eleven instructions
of `pgfaultReturn`, with the instruction pointer pushed on the stack that was interrupted.

Handlers are arbitrary code, which may fault again, to any depth (`Runs`). All that is assumed of a handler is
that it returns like a C function and leaves its frame and what is above it alone (`Returned`).

An environment that maps a page of its exception stack a second time, as a page of the stack it runs on, makes the
kernel write into that stack. What is said about memory is therefore about the bytes that are not mapped a second
time among those that the upcall writes (`Apart`).
-/

namespace Jos

open ByteMem

/-! ## `_pgfault_upcall` -/

/-- The addresses that the linker chose. -/
structure UpcallCode where
  /-- `_pgfault_upcall` -/
  upcall : Word
  /-- `&_pgfault_handler` -/
  handler : Word
  /-- The address after `call *%eax`. -/
  next : Word

/-- From `_pgfault_upcall` to the call of the handler. -/
def callHandler (u : UpcallCode) : List Instr :=
  [.pushl .esp, .movlFrom u.handler .eax, .call .eax u.next]

/-- From the return of the handler on. -/
def pgfaultReturn : List Instr :=
  [.addl 4#32 .esp, .addl 8#32 .esp, .movlLoad 0x20#32 .esp .eax, .subl 4#32 0x28#32 .esp,
    .movlLoad 0x28#32 .esp .ebx, .movlStore .eax .ebx, .popal, .addl 4#32 .esp, .popfl, .popl .esp, .ret]

/-! ## Faults -/

/-- Strictly inside the page of the exception stack. -/
def OnXStack (esp : Word) : Prop := UXSTACKTOP - BitVec.ofNat 32 PGSIZE < esp ∧ esp < UXSTACKTOP

instance (esp : Word) : Decidable (OnXStack esp) := inferInstanceAs (Decidable (_ ∧ _))

/-- Outside the page of the exception stack. -/
def OffXStack (esp : Word) : Prop := esp < UXSTACKTOP - BitVec.ofNat 32 PGSIZE ∨ UXSTACKTOP ≤ esp

/-- The registers in a trap frame. -/
def Trapframe.reg (tf : Trapframe) : Reg → Word
  | .edi => tf.regs.edi
  | .esi => tf.regs.esi
  | .ebp => tf.regs.ebp
  | .esp => tf.esp
  | .ebx => tf.regs.ebx
  | .edx => tf.regs.edx
  | .ecx => tf.regs.ecx
  | .eax => tf.regs.eax

/-- The frame of a page fault in user mode. The processor sets `FL_RF` in the flags that it pushes. -/
structure Pushed (σ : UserState) (tf : Trapframe) : Prop where
  trapno : tf.trapno = T_PGFLT
  cs : tf.cs = GD_UT ||| 3#32
  reg : tf.reg = σ.reg
  eip : tf.eip = σ.eip
  eflags : tf.eflags &&& ~~~FL_RF = σ.eflags &&& ~~~FL_RF

/-- `page_fault_handler`, for an environment whose `env_pgfault_upcall` is `upcall`: where user code continues, if
the environment is not destroyed. -/
def enterUpcall (upcall faultVa : Word) (tf : Trapframe) (σ : UserState) : Option UserState :=
  if upcall ≠ 0#32 ∧ canWrite σ.access (utfAddr tf) UTF_SIZE.toNat then
    some { σ with
      reg := Function.update tf.reg .esp (utfAddr tf)
      eip := upcall
      eflags := tf.eflags
      mem := storeThrough (physAddr σ.page) σ.mem (utfAddr tf) (utrapframe faultVa tf) }
  else
    none

/-- A fault at `σ` has led to the call of the handler at `σ'`. -/
structure Upcalled (u : UpcallCode) (σ σ' : UserState) : Prop where
  path : ∃ tf faultVa σ₁, Pushed σ tf ∧ enterUpcall u.upcall faultVa tf σ = some σ₁ ∧
    Instr.run (callHandler u) σ₁ = some σ'

/-- What is assumed of the handler for a fault at `σ`, called at `σ₁` and done at `σ₂`: it returns with the stack
pointer it was called with, leaves its frame and what is above it alone, and the word below the stack pointer of
the fault can be written. -/
structure Returned (u : UpcallCode) (σ σ₁ σ₂ : UserState) : Prop where
  eip : σ₂.eip = u.next
  esp : σ₂.esp = σ₁.esp + 4#32
  frame : ∀ a, σ₁.esp + 8#32 ≤ a → a < UXSTACKTOP → σ₂.view a = σ₁.view a ∧ σ₂.access a = σ₁.access a
  word : canWrite σ₂.access (σ.esp - 4#32) 4 = true

/-- One instruction of user code, or one system call: anything may change but the flags of the kernel. -/
def UserStep (σ σ' : UserState) : Prop := KeepsFlags σ.eflags σ'.eflags

/-- A run of user code with the page faults in it, those in the handlers for them included: the states at the faults
and where they were resumed. -/
inductive Runs (u : UpcallCode) : UserState → List (UserState × UserState) → UserState → Prop
  | refl (σ : UserState) : Runs u σ [] σ
  | step {σ σ₁ σ₂ : UserState} {log : List (UserState × UserState)} :
      UserStep σ σ₁ → Runs u σ₁ log σ₂ → Runs u σ log σ₂
  | fault {σ σ₁ σ₂ σ₃ σ₄ : UserState} {log log' : List (UserState × UserState)} :
      OnXStack σ.esp → Upcalled u σ σ₁ → Runs u σ₁ log σ₂ → Returned u σ σ₁ σ₂ →
      Instr.run pgfaultReturn σ₂ = some σ₃ → Runs u σ₃ log' σ₄ → Runs u σ ((σ, σ₃) :: log ++ log') σ₄

/-! ## The frame in memory -/

variable {u : UpcallCode} {σ σ' σ₁ σ₂ σ₃ : UserState} {tf : Trapframe} {m m' : Word → BitVec 8}
  {access : Word → Access} {F e a : Word}

/-- The words of a `struct UTrapframe` at `F` that are read again. -/
structure HasFrame (m : Word → BitVec 8) (F : Word) (tf : Trapframe) : Prop where
  edi : load m (F + 8#32) = tf.regs.edi
  esi : load m (F + 12#32) = tf.regs.esi
  ebp : load m (F + 16#32) = tf.regs.ebp
  ebx : load m (F + 24#32) = tf.regs.ebx
  edx : load m (F + 28#32) = tf.regs.edx
  ecx : load m (F + 32#32) = tf.regs.ecx
  eax : load m (F + 36#32) = tf.regs.eax
  eip : load m (F + 40#32) = tf.eip
  eflags : load m (F + 44#32) = tf.eflags
  esp : load m (F + 48#32) = tf.esp

theorem utrapframe_length (faultVa : Word) (tf : Trapframe) : (utrapframe faultVa tf).length = 52 := rfl

/-- What `page_fault_handler` has written. -/
theorem HasFrame.storeBytes (m : Word → BitVec 8) (F faultVa : Word) (tf : Trapframe) :
    HasFrame (storeBytes m F (utrapframe faultVa tf)) F tf := by
  have hword : ∀ (i : Nat) (w : Word), [faultVa, tf.err, tf.regs.edi, tf.regs.esi, tf.regs.ebp,
      tf.regs.oesp, tf.regs.ebx, tf.regs.edx, tf.regs.ecx, tf.regs.eax, tf.eip, tf.eflags,
      tf.esp][i]? = some w →
      load (ByteMem.storeBytes m F (utrapframe faultVa tf)) (F + BitVec.ofNat 32 (4 * i)) = w :=
    fun i w hw => load_storeBytes hw (show 4 * 13 ≤ 2 ^ 32 by norm_num)
  exact ⟨hword 2 _ rfl, hword 3 _ rfl, hword 4 _ rfl, hword 6 _ rfl, hword 7 _ rfl, hword 8 _ rfl,
    hword 9 _ rfl, hword 10 _ rfl, hword 11 _ rfl, hword 12 _ rfl⟩

/-- The frame is still there if its bytes are. -/
theorem HasFrame.congr (h : HasFrame m F tf)
    (hm : ∀ k < 52, m' (F + BitVec.ofNat 32 k) = m (F + BitVec.ofNat 32 k)) : HasFrame m' F tf := by
  have hword : ∀ k, k + 4 ≤ 52 → load m' (F + BitVec.ofNat 32 k) = load m (F + BitVec.ofNat 32 k) := by
    intro k hk
    refine load_congr fun i hi => ?_
    rw [BitVec.add_assoc, ← BitVec.ofNat_add]
    exact hm (k + i) (by omega)
  exact ⟨(hword 8 (by omega)).trans h.edi, (hword 12 (by omega)).trans h.esi,
    (hword 16 (by omega)).trans h.ebp, (hword 24 (by omega)).trans h.ebx,
    (hword 28 (by omega)).trans h.edx, (hword 32 (by omega)).trans h.ecx,
    (hword 36 (by omega)).trans h.eax, (hword 40 (by omega)).trans h.eip,
    (hword 44 (by omega)).trans h.eflags, (hword 48 (by omega)).trans h.esp⟩

/-! ## Addresses -/

theorem toNat_UXSTACKTOP : UXSTACKTOP.toNat = 0xeec00000 := by decide

/-- Where the frame for a fault with the stack pointer `esp` lies. -/
structure FrameAt (esp F : Word) : Prop where
  top : F.toNat + 56 ≤ 0xeec00000
  bottom : 0xeebff000 ≤ F.toNat + 56
  on : OnXStack esp → F.toNat + 56 = esp.toNat
  off : OffXStack esp → F.toNat + 56 = 0xeec00000

theorem utfAddr_frameAt (tf : Trapframe) : FrameAt tf.esp (utfAddr tf) := by
  have hlt := tf.esp.isLt
  have hbot : (UXSTACKTOP - BitVec.ofNat 32 PGSIZE).toNat = 0xeebff000 := by decide
  have hsize : UTF_SIZE.toNat = 56 := by decide
  have hsub : ∀ x : Word, 56 ≤ x.toNat → (x - UTF_SIZE).toNat + 56 = x.toNat := by
    intro x hx
    have := x.isLt
    rw [BitVec.toNat_sub, hsize]
    omega
  unfold utfAddr
  by_cases hon : OnXStack tf.esp
  · have hesp := hon
    rw [OnXStack, BitVec.lt_def, BitVec.lt_def, hbot, toNat_UXSTACKTOP] at hesp
    simp only
    rw [if_pos (show _ ∧ _ from hon)]
    have hF := hsub tf.esp (by omega)
    refine ⟨by omega, by omega, fun _ => hF, fun hoff => ?_⟩
    rw [OffXStack, BitVec.lt_def, BitVec.le_def, hbot, toNat_UXSTACKTOP] at hoff
    omega
  · simp only
    rw [if_neg (show ¬ (_ ∧ _) from hon)]
    have hF := hsub UXSTACKTOP (by rw [toNat_UXSTACKTOP]; omega)
    rw [toNat_UXSTACKTOP] at hF
    exact ⟨by omega, by omega, fun h => absurd h hon, fun _ => hF⟩

namespace FrameAt

theorem toNat_add (h : FrameAt e F) {k : Nat} (hk : k ≤ 56) :
    (F + BitVec.ofNat 32 k).toNat = F.toNat + k := by
  have := h.top
  rw [BitVec.toNat_add, BitVec.toNat_ofNat]
  omega

theorem inside (h : FrameAt e F) {k : Nat} (hk : k < 56) :
    F ≤ F + BitVec.ofNat 32 k ∧ F + BitVec.ofNat 32 k < UXSTACKTOP := by
  have := h.top
  rw [BitVec.le_def, BitVec.lt_def, h.toNat_add (by omega), toNat_UXSTACKTOP]
  omega

/-- The word below the stack pointer does not overlap the frame. -/
theorem disjoint (h : FrameAt e F) (he : OnXStack e ∨ OffXStack e) {k : Nat} (hk : k ≤ 48) :
    4 ≤ (F + BitVec.ofNat 32 k - (e - 4#32)).toNat ∧ 4 ≤ (e - 4#32 - (F + BitVec.ofNat 32 k)).toNat := by
  have hbot : (UXSTACKTOP - BitVec.ofNat 32 PGSIZE).toNat = 0xeebff000 := by decide
  have hlt := e.isLt
  have htop := h.top
  have hlow := h.bottom
  have hword : (e - 4#32).toNat = (4294967292 + e.toNat) % 4294967296 := by
    rw [BitVec.toNat_sub]
    rfl
  generalize e - 4#32 = w at hword ⊢
  rw [BitVec.toNat_sub, BitVec.toNat_sub, h.toNat_add (by omega), hword]
  rcases he with hon | hoff
  · have hF := h.on hon
    omega
  · have hF := h.off hoff
    rw [OffXStack, BitVec.lt_def, BitVec.le_def, hbot, toNat_UXSTACKTOP] at hoff
    omega

end FrameAt

/-! ## The way to the handler -/

theorem Pushed.esp (h : Pushed σ tf) : tf.esp = σ.esp := congrFun h.reg .esp

/-- A byte at or above the stack pointer `esp`, of the stack that `esp` points to. -/
def AtOrAbove (esp a : Word) : Prop := esp ≤ a ∧ (OffXStack esp → OffXStack a)

/-- The kernel and the upcall have written below the bytes `a` that are not below `esp`. -/
theorem FrameAt.apart (h : FrameAt e F) (he : OnXStack e ∨ OffXStack e) (ha : AtOrAbove e a)
    (hword : 4 ≤ e.toNat ∨ OnXStack e) :
    52 ≤ (a - F).toNat ∧ 4 ≤ (a - (F - 4#32)).toNat ∧ 4 ≤ (a - (F - 8#32)).toNat ∧
      4 ≤ (a - (F + 48#32)).toNat ∧ 4 ≤ (a - (e - 4#32)).toNat := by
  have hbot : (UXSTACKTOP - BitVec.ofNat 32 PGSIZE).toNat = 0xeebff000 := by decide
  have hlt := e.isLt
  have halt := a.isLt
  have htop := h.top
  have hlow := h.bottom
  obtain ⟨hle, hoff'⟩ := ha
  rw [BitVec.le_def] at hle
  have hge : 4 ≤ e.toNat := by
    rcases hword with hge | hon
    · exact hge
    · have hF := h.on hon
      omega
  have h₁ : (F - 4#32).toNat = F.toNat - 4 := by
    rw [BitVec.toNat_sub, BitVec.toNat_ofNat]
    omega
  have h₂ : (F - 8#32).toNat = F.toNat - 8 := by
    rw [BitVec.toNat_sub, BitVec.toNat_ofNat]
    omega
  have h₃ : (F + 48#32).toNat = F.toNat + 48 := h.toNat_add (by omega)
  have h₄ : (e - 4#32).toNat = e.toNat - 4 := by
    rw [BitVec.toNat_sub, BitVec.toNat_ofNat]
    omega
  generalize F - 4#32 = b₁ at h₁ ⊢
  generalize F - 8#32 = b₂ at h₂ ⊢
  generalize F + 48#32 = b₃ at h₃ ⊢
  generalize e - 4#32 = b₄ at h₄ ⊢
  simp only [BitVec.toNat_sub, h₁, h₂, h₃, h₄]
  rcases he with hon | hoff
  · have hF := h.on hon
    omega
  · have hF := h.off hoff
    have hpage := hoff' hoff
    rw [OffXStack, BitVec.lt_def, BitVec.le_def, hbot, toNat_UXSTACKTOP] at hpage
    omega

end Jos