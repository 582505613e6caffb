import Jos.DetectMemory
import Jos.KernelLock
import Jos.IoPorts

/-!
# The multiprocessor configuration table

`kern/mpconfig.c`: the search for the table the firmware leaves in memory, its checks, and the loop of `mp_init` that
enters the processors into `cpus`. The loop guards the entry of a ninth processor, but not the assignment to `bootcpu`
before it. So `mp_init` stays inside `cpus` exactly as long as no processor after the first `NCPU` carries the flag
of the boot processor (`mpInit_inTable_iff`, `mpInit_bootcpu_outside`).

Memory is read at kernel addresses, as the code reads it. `KADDR` may panic.
-/

namespace Jos.Mp

/-! ## Reading memory -/

/-- Memory by kernel virtual addresses. -/
abbrev KernMem := Word → BitVec 8

/-- `*(uint16_t *) va`. -/
def KernMem.u16 (m : KernMem) (va : Word) : BitVec 16 := m (va + 1#32) ++ m va

/-- `*(uint32_t *) va`. -/
def KernMem.u32 (m : KernMem) (va : Word) : Word := m.u16 (va + 2#32) ++ m.u16 va

/-- `memcmp(va, bytes, n) == 0`. -/
def KernMem.memcmp (m : KernMem) (va : Word) (bytes : List (BitVec 8)) : Bool :=
  (List.range bytes.length).map (fun i => m (va + BitVec.ofNat 32 i)) == bytes

/-- `sum(addr, len)`. -/
def KernMem.sum (m : KernMem) (addr : Word) (len : Nat) : BitVec 8 :=
  (List.range len).foldl (fun sum i => sum + m (addr + BitVec.ofNat 32 i)) 0#8

/-! ## The search (`mpsearch`, `mpconfig`) -/

/-- `"_MP_"`. -/
def MP_SIGNATURE : List (BitVec 8) := [0x5F#8, 0x4D#8, 0x50#8, 0x5F#8]

/-- `"PCMP"`. -/
def PCMP_SIGNATURE : List (BitVec 8) := [0x50#8, 0x43#8, 0x4D#8, 0x50#8]

/-- `sizeof(struct mp)`. -/
def sizeofMp : Nat := 16

/-- `sizeof(struct mpproc)`. -/
def sizeofMpproc : Nat := 20

/-- `offsetof(struct mpconf, entries)`. -/
def mpconfEntries : Word := 44#32

def MPPROC_BOOT : BitVec 8 := 0x02#8

section Search

variable (s : Pmap) (m : KernMem)

/-- The test in the loop of `mpsearch1`. -/
def isMp (mp : Word) : Bool := m.memcmp mp MP_SIGNATURE && m.sum mp sizeofMp == 0#8

/-- `mpsearch1(a, len)`. The bounds of its callers are multiples of 16, so the pointer meets `end`. -/
def mpsearch1 (a len : Word) : Except Panic (Option Word) := do
  let mp ← KADDR s a
  let end' ← KADDR s (a + len)
  let structs := (List.range ((end'.toNat - mp.toNat) / sizeofMp)).map fun i => mp + BitVec.ofNat 32 (i * sizeofMp)
  return structs.find? (isMp m)

/-- `mpsearch()`. -/
def mpsearch : Except Panic (Option Word) := do
  let bda ← KADDR s 0x400#32
  let p := (m.u16 (bda + 0x0E#32)).setWidth 32
  let found ←
    if p ≠ 0#32 then mpsearch1 s m (p <<< 4) 1024#32
    else mpsearch1 s m ((m.u16 (bda + 0x13#32)).setWidth 32 * 1024#32 - 1024#32) 1024#32
  match found with
  | some mp => return some mp
  | none => mpsearch1 s m 0xF0000#32 0x10000#32

/-- `mpconfig(&mp)`: the addresses of the two structures, if the table is accepted. -/
def mpconfig : Except Panic (Option (Word × Word)) := do
  let some mp ← mpsearch s m | return none
  if m.u32 (mp + 4#32) = 0#32 ∨ m (mp + 11#32) ≠ 0#8 then return none
  let conf ← KADDR s (m.u32 (mp + 4#32))
  if !m.memcmp conf PCMP_SIGNATURE then return none
  let length := (m.u16 (conf + 4#32)).toNat
  if m.sum conf length ≠ 0#8 then return none
  let version := m (conf + 6#32)
  if version ≠ 1#8 ∧ version ≠ 4#8 then return none
  let xlength := (m.u16 (conf + 40#32)).toNat
  if m.sum (conf + BitVec.ofNat 32 length) xlength + m (conf + 42#32) ≠ 0#8 then return none
  return some (mp, conf)

end Search

/-! ## `mp_init` -/

/-- What `mp_init` sets of `struct CpuInfo`. -/
structure CpuInfo where
  cpuId : BitVec 8
  cpuStatus : CpuStatus

/-- The variables of `mpconfig.c`, and the writes to I/O ports. -/
structure MpState where
  cpus : Fin NCPU → CpuInfo
  /-- The pointer `bootcpu`, as an index of `cpus`. -/
  bootcpu : Nat
  ismp : Bool
  ncpu : Nat
  lapicaddr : Word
  outb : List (Nat × BitVec 8)

namespace MpState

/-- All is zero before the call; `mp_init` begins with `bootcpu = &cpus[0]`. -/
def start : MpState := ⟨fun _ => ⟨0#8, .unused⟩, 0, false, 0, 0#32, []⟩

/-- `if (proc->flags & MPPROC_BOOT) bootcpu = &cpus[ncpu]`. -/
def setBootcpu (σ : MpState) (flags : BitVec 8) : MpState :=
  if flags &&& MPPROC_BOOT ≠ 0#8 then { σ with bootcpu := σ.ncpu } else σ

/-- `if (ncpu < NCPU) { cpus[ncpu].cpu_id = ncpu; ncpu++; }`. -/
def addCpu (σ : MpState) : MpState :=
  if h : σ.ncpu < NCPU then
    { σ with
      cpus := Function.update σ.cpus ⟨σ.ncpu, h⟩ { σ.cpus ⟨σ.ncpu, h⟩ with cpuId := BitVec.ofNat 8 σ.ncpu }
      ncpu := σ.ncpu + 1 }
  else σ

/-- The case `MPPROC`. -/
def proc (σ : MpState) (flags : BitVec 8) : MpState := (σ.setBootcpu flags).addCpu

/-- `bootcpu->cpu_status = CPU_STARTED`. Past the end of `cpus` the write changes none of its entries. -/
def startBootcpu (σ : MpState) : MpState :=
  if h : σ.bootcpu < NCPU then
    { σ with cpus := Function.update σ.cpus ⟨σ.bootcpu, h⟩ { σ.cpus ⟨σ.bootcpu, h⟩ with cpuStatus := .started } }
  else σ

end MpState

/-- The loop over the remaining entries, the next one at `p`. -/
def mpEntries (m : KernMem) (p : Word) : Nat → MpState → MpState
  | 0, σ => σ
  | k + 1, σ =>
    match (m p).toNat with
    | 0 => mpEntries m (p + BitVec.ofNat 32 sizeofMpproc) k (σ.proc (m (p + 3#32)))
    | 1 | 2 | 3 | 4 => mpEntries m (p + 8#32) k σ
    | _ => { σ with ismp := false }

/-- `mp_init()`, where `imcr` is what `inb(0x23)` returns. -/
def mpInit (s : Pmap) (m : KernMem) (imcr : BitVec 8) : Except Panic MpState := do
  let some (mp, conf) ← mpconfig s m | return .start
  let σ : MpState := { MpState.start with ismp := true, lapicaddr := m.u32 (conf + 36#32) }
  let σ := mpEntries m (conf + mpconfEntries) (m.u16 (conf + 34#32)).toNat σ
  let σ := σ.startBootcpu
  if !σ.ismp then return { σ with ncpu := 1, lapicaddr := 0#32 }
  if m (mp + 12#32) ≠ 0#8 then return { σ with outb := [(0x22, 0x70#8), (0x23, imcr ||| 1#8)] }
  return σ

/-! ## What a processor entry does -/

namespace MpState

variable (σ : MpState) (flags : BitVec 8) (i : Fin NCPU)

theorem setBootcpu_cpus : (σ.setBootcpu flags).cpus = σ.cpus := by
  rw [setBootcpu]
  split <;> rfl

theorem setBootcpu_ncpu : (σ.setBootcpu flags).ncpu = σ.ncpu := by
  rw [setBootcpu]
  split <;> rfl

theorem addCpu_bootcpu : σ.addCpu.bootcpu = σ.bootcpu := by
  rw [addCpu]
  split <;> rfl

theorem addCpu_ncpu : σ.addCpu.ncpu = if σ.ncpu < NCPU then σ.ncpu + 1 else σ.ncpu := by
  rw [addCpu]
  split <;> rfl

/-- A change to one entry of the table. -/
theorem modify_cpu (cpus : Fin NCPU → CpuInfo) {k : Nat} (h : k < NCPU) (g : CpuInfo → CpuInfo) :
    Function.update cpus ⟨k, h⟩ (g (cpus ⟨k, h⟩)) i = if i.val = k then g (cpus i) else cpus i := by
  by_cases hi : i.val = k
  · obtain rfl : i = ⟨k, h⟩ := Fin.ext hi
    rw [if_pos rfl, Function.update_self]
  · rw [if_neg hi, Function.update_of_ne fun heq => hi (congrArg Fin.val heq)]

theorem addCpu_cpus : σ.addCpu.cpus i =
    if i.val = σ.ncpu then { σ.cpus i with cpuId := BitVec.ofNat 8 σ.ncpu } else σ.cpus i := by
  rw [addCpu]
  split
  case isTrue h => exact modify_cpu i σ.cpus h fun c => { c with cpuId := BitVec.ofNat 8 σ.ncpu }
  case isFalse h =>
    have hi : i.val ≠ σ.ncpu := fun heq => h (heq ▸ i.isLt)
    rw [if_neg hi]

theorem proc_bootcpu : (σ.proc flags).bootcpu = if flags &&& MPPROC_BOOT ≠ 0#8 then σ.ncpu else σ.bootcpu := by
  rw [proc, addCpu_bootcpu, setBootcpu]
  split <;> rfl

theorem proc_ncpu : (σ.proc flags).ncpu = if σ.ncpu < NCPU then σ.ncpu + 1 else σ.ncpu := by
  rw [proc, addCpu_ncpu, setBootcpu_ncpu]

theorem proc_cpus : (σ.proc flags).cpus i =
    if i.val = σ.ncpu then { σ.cpus i with cpuId := BitVec.ofNat 8 σ.ncpu } else σ.cpus i := by
  rw [proc, addCpu_cpus, setBootcpu_ncpu, setBootcpu_cpus]

theorem startBootcpu_bootcpu : (σ.startBootcpu).bootcpu = σ.bootcpu := by
  rw [startBootcpu]
  split <;> rfl

theorem startBootcpu_ncpu : (σ.startBootcpu).ncpu = σ.ncpu := by
  rw [startBootcpu]
  split <;> rfl

theorem startBootcpu_cpus : (σ.startBootcpu).cpus i =
    if i.val = σ.bootcpu then { σ.cpus i with cpuStatus := .started } else σ.cpus i := by
  rw [startBootcpu]
  split
  case isTrue h => exact modify_cpu i σ.cpus h fun c => { c with cpuStatus := .started }
  case isFalse h =>
    have hi : i.val ≠ σ.bootcpu := fun heq => h (heq ▸ i.isLt)
    rw [if_neg hi]

end MpState

/-! ## The table of processors -/

/-- The flags of the processor entries, up to the first entry of an unknown type. -/
def procFlags (m : KernMem) (p : Word) : Nat → List (BitVec 8)
  | 0 => []
  | k + 1 =>
    match (m p).toNat with
    | 0 => m (p + 3#32) :: procFlags m (p + BitVec.ofNat 32 sizeofMpproc) k
    | 1 | 2 | 3 | 4 => procFlags m (p + 8#32) k
    | _ => []

/-- The processor entries of an accepted table. -/
def confProcs (m : KernMem) (conf : Word) : List (BitVec 8) :=
  procFlags m (conf + mpconfEntries) (m.u16 (conf + 34#32)).toNat

/-- What `mp_init` is to leave of a table with the processors `procs`. -/
structure InTable (procs : List (BitVec 8)) (σ : MpState) : Prop where
  ncpu : (1 ≤ σ.ncpu ∧ σ.ncpu ≤ NCPU) ∨ procs = []
  bootcpu : σ.bootcpu < NCPU
  ids : ∀ i : Fin NCPU, i.val < σ.ncpu → (σ.cpus i).cpuId.toNat = i.val
  started : ∀ i : Fin NCPU, (σ.cpus i).cpuStatus = .started ↔ i.val = σ.bootcpu

/-- The loop has entered the processors `procs`. -/
structure Walked (procs : List (BitVec 8)) (σ : MpState) : Prop where
  ncpu : σ.ncpu = min procs.length NCPU
  bootcpu : σ.bootcpu < NCPU ↔ ∀ flags ∈ procs.drop NCPU, flags &&& MPPROC_BOOT = 0#8
  ids : ∀ i : Fin NCPU, (σ.cpus i).cpuId = if i.val < σ.ncpu then BitVec.ofNat 8 i.val else 0#8
  unused : ∀ i : Fin NCPU, (σ.cpus i).cpuStatus = .unused

namespace Walked

variable {procs : List (BitVec 8)} {σ : MpState} {m : KernMem}

theorem start (lapicaddr : Word) : Walked [] { MpState.start with ismp := true, lapicaddr := lapicaddr } where
  ncpu := rfl
  bootcpu := iff_of_true (Nat.zero_lt_succ 7) fun _ h => absurd h List.not_mem_nil
  ids _ := rfl
  unused _ := rfl

/-- One processor entry. -/
theorem proc (h : Walked procs σ) (flags : BitVec 8) : Walked (procs ++ [flags]) (σ.proc flags) := by
  have hncpu := h.ncpu
  have hlen : (procs ++ [flags]).length = procs.length + 1 := List.length_append
  refine ⟨?_, ?_, fun i => ?_, fun i => ?_⟩
  · rw [MpState.proc_ncpu, hlen]
    split <;> omega
  · rw [MpState.proc_bootcpu]
    by_cases hfull : procs.length < NCPU
    · have hnil : (procs ++ [flags]).drop NCPU = [] := List.drop_eq_nil_of_le (by omega)
      have hnil' : procs.drop NCPU = [] := List.drop_eq_nil_of_le (by omega)
      have hboot := h.bootcpu
      rw [hnil'] at hboot
      rw [hnil]
      refine iff_of_true ?_ fun _ hf => absurd hf List.not_mem_nil
      split
      · omega
      · exact hboot.mpr fun _ hf => absurd hf List.not_mem_nil
    · rw [List.drop_append_of_le_length (by omega), List.forall_mem_append, List.forall_mem_singleton]
      split
      case isTrue hflag => exact iff_of_false (by omega) fun hall => hflag hall.2
      case isFalse hflag =>
        rw [not_not] at hflag
        rw [h.bootcpu]
        exact (and_iff_left hflag).symm
  · have hi := i.isLt
    have hlt : i.val < (σ.proc flags).ncpu ↔ i.val = σ.ncpu ∨ i.val < σ.ncpu := by
      rw [MpState.proc_ncpu]
      split <;> omega
    rw [MpState.proc_cpus]
    by_cases heq : i.val = σ.ncpu
    · rw [if_pos heq, if_pos (hlt.mpr (Or.inl heq)), heq]
    · rw [if_neg heq, h.ids i]
      exact if_congr (hlt.trans (or_iff_right heq)).symm rfl rfl
  · rw [MpState.proc_cpus]
    split <;> exact h.unused i

/-- The loop, from where it is. -/
theorem mpEntries (h : Walked procs σ) (p : Word) (k : Nat) :
    Walked (procs ++ procFlags m p k) (mpEntries m p k σ) := by
  induction k generalizing procs σ p with
  | zero =>
    rw [procFlags, List.append_nil]
    exact h
  | succ k ih =>
    rw [procFlags, Mp.mpEntries]
    split
    case h_1 =>
      have hrest := ih (h.proc (m (p + 3#32))) (p + BitVec.ofNat 32 sizeofMpproc)
      rwa [List.append_assoc] at hrest
    case h_6 =>
      rw [List.append_nil]
      exact ⟨h.ncpu, h.bootcpu, h.ids, h.unused⟩
    all_goals exact ih h (p + 8#32)

/-- What `mp_init` does after the loop: it starts `*bootcpu`, and may fall back to one processor. -/
theorem inTable_iff (h : Walked procs σ) {τ : MpState} (hcpus : τ.cpus = σ.startBootcpu.cpus)
    (hboot : τ.bootcpu = σ.bootcpu) (hncpu : τ.ncpu = σ.ncpu ∨ τ.ncpu = 1) :
    InTable procs τ ↔ ∀ flags ∈ procs.drop NCPU, flags &&& MPPROC_BOOT = 0#8 := by
  have hwalked := h.ncpu
  have hN : NCPU = 8 := rfl
  rw [← h.bootcpu, ← hboot]
  refine ⟨InTable.bootcpu, fun hlt => ⟨?_, hlt, fun i hi => ?_, fun i => ?_⟩⟩
  · by_cases hnil : procs = []
    · exact Or.inr hnil
    · have hpos := List.length_pos_iff.mpr hnil
      exact Or.inl (by omega)
  · have hid : (τ.cpus i).cpuId = (σ.cpus i).cpuId := by
      rw [hcpus, MpState.startBootcpu_cpus]
      split <;> rfl
    have hsmall := i.isLt
    rw [hid, h.ids i]
    split
    · rw [BitVec.toNat_ofNat]
      omega
    · -- Only the fallback counts a processor that was not entered, the first.
      rw [BitVec.toNat_zero]
      omega
  · rw [hcpus, MpState.startBootcpu_cpus, hboot]
    split
    case isTrue hi => exact iff_of_true rfl hi
    case isFalse hi =>
      rw [h.unused i]
      exact iff_of_false (fun hs => nomatch hs) hi

end Walked

/-- `mp_init` on an accepted table: the loop, and what comes after it. -/
theorem mpInit_walked {s : Pmap} {m : KernMem} {mp conf : Word} (h : mpconfig s m = .ok (some (mp, conf)))
    (imcr : BitVec 8) : ∃ σ τ, mpInit s m imcr = .ok τ ∧ Walked (confProcs m conf) σ ∧
      τ.cpus = σ.startBootcpu.cpus ∧ τ.bootcpu = σ.bootcpu ∧ (τ.ncpu = σ.ncpu ∨ τ.ncpu = 1) := by
  have hwalked := (Walked.start (m.u32 (conf + 36#32))).mpEntries (m := m) (conf + mpconfEntries)
    (m.u16 (conf + 34#32)).toNat
  rw [List.nil_append, ← confProcs] at hwalked
  rw [mpInit, h]
  simp only [Except.ok_bind]
  generalize mpEntries m (conf + mpconfEntries) (m.u16 (conf + 34#32)).toNat _ = σ at hwalked ⊢
  refine ⟨σ, ?_⟩
  split
  · exact ⟨_, rfl, hwalked, rfl, σ.startBootcpu_bootcpu, Or.inr rfl⟩
  · split
    · exact ⟨_, rfl, hwalked, rfl, σ.startBootcpu_bootcpu, Or.inl σ.startBootcpu_ncpu⟩
    · exact ⟨_, rfl, hwalked, rfl, σ.startBootcpu_bootcpu, Or.inl σ.startBootcpu_ncpu⟩

/-- What the step `mpInit` of `TssRun` says about the table is what `mp_init` does to it. -/
theorem mpInit_tss {s : Pmap} {m : KernMem} {mp conf : Word} (h : mpconfig s m = .ok (some (mp, conf)))
    (imcr : BitVec 8) : ∃ τ, mpInit s m imcr = .ok τ ∧ ∃ found ≤ NCPU, τ.ncpu ≤ max found 1 ∧
      ∀ t : TssState, (∀ j, t.cpuId j = 0#8) →
        ∀ i : Fin NCPU, (τ.cpus i).cpuId = (Jos.mpInit t found τ.ncpu).cpuId i := by
  obtain ⟨σ, τ, hok, hwalked, hcpus, -, hncpu⟩ := mpInit_walked h imcr
  have hlen := hwalked.ncpu
  refine ⟨τ, hok, σ.ncpu, by omega, by omega, fun t ht i => ?_⟩
  have hid : (τ.cpus i).cpuId = (σ.cpus i).cpuId := by
    rw [hcpus, MpState.startBootcpu_cpus]
    split <;> rfl
  rw [hid, hwalked.ids i]
  exact if_congr Iff.rfl rfl (ht i).symm

/-- `mp_init` stays inside the table exactly when no processor after the first `NCPU` is the boot processor. -/
theorem mpInit_inTable_iff {s : Pmap} {m : KernMem} {mp conf : Word} (h : mpconfig s m = .ok (some (mp, conf)))
    (imcr : BitVec 8) : ∃ σ, mpInit s m imcr = .ok σ ∧
      (InTable (confProcs m conf) σ ↔ ∀ flags ∈ (confProcs m conf).drop NCPU, flags &&& MPPROC_BOOT = 0#8) := by
  obtain ⟨σ, τ, hok, hwalked, hcpus, hboot, hncpu⟩ := mpInit_walked h imcr
  exact ⟨τ, hok, hwalked.inTable_iff hcpus hboot hncpu⟩

/-! ## Two tables -/

/-- The entry of a processor. -/
def procEntry (flags : BitVec 8) : List (BitVec 8) := [0x00#8, 0x00#8, 0x14#8, flags] ++ List.replicate 16 0x00#8

/-- An MP structure and a table of processors behind it, at physical address `0x9FC00`. -/
def mpImage (length entry checksum : BitVec 8) (flags : List (BitVec 8)) : List (BitVec 8) :=
  MP_SIGNATURE ++ [0x10#8, 0xFC#8, 0x09#8, 0x00#8, 0x01#8, 0x04#8, 0x8B#8, 0x00#8] ++ List.replicate 4 0x00#8 ++
  PCMP_SIGNATURE ++ [length, 0x00#8, 0x04#8, checksum] ++ List.replicate 26 0x00#8 ++ [entry, 0x00#8] ++
  [0x00#8, 0x00#8, 0xE0#8, 0xFE#8] ++ List.replicate 4 0x00#8 ++ flags.flatMap procEntry

/-- Memory with the image in the EBDA, which the BIOS data area points to. -/
def mpMemory (image : List (BitVec 8)) : KernMem := fun va =>
  if va = 0xF000040E#32 then 0xC0#8
  else if va = 0xF000040F#32 then 0x9F#8
  else image.getD (va - 0xF009FC00#32).toNat 0x00#8

/-- Two processors, the boot processor first. -/
def twoCpus : KernMem := mpMemory (mpImage 84#8 2#8 0x6C#8 [0x03#8, 0x01#8])

/-- Nine processors, the boot processor last. -/
def nineCpus : KernMem := mpMemory (mpImage 224#8 9#8 0x46#8 (List.replicate 8 0x01#8 ++ [0x03#8]))

theorem mpInit_inTable_two : ∃ σ, mpInit pages64 twoCpus 0#8 = .ok σ ∧
    (InTable (confProcs twoCpus 0xF009FC10#32) σ ↔
      ∀ flags ∈ (confProcs twoCpus 0xF009FC10#32).drop NCPU, flags &&& MPPROC_BOOT = 0#8) := by
  have hconf : mpconfig pages64 twoCpus = .ok (some (0xF009FC00#32, 0xF009FC10#32)) := by decide +kernel
  exact mpInit_inTable_iff hconf 0#8

/-- With the boot processor in ninth place, `bootcpu` points behind the table. -/
theorem mpInit_bootcpu_outside : ¬ ∀ s m mp conf imcr, mpconfig s m = .ok (some (mp, conf)) →
    ∃ σ, mpInit s m imcr = .ok σ ∧ InTable (confProcs m conf) σ := by
  intro hall
  obtain ⟨σ, hok, htable⟩ := hall pages64 nineCpus 0xF009FC00#32 0xF009FC10#32 0#8 (by decide +kernel)
  have hboot : (mpInit pages64 nineCpus 0#8).map MpState.bootcpu = .ok NCPU := by decide +kernel
  rw [hok] at hboot
  have hout : σ.bootcpu = NCPU := by injection hboot
  exact absurd htable.bootcpu (by rw [hout]; exact lt_irrefl NCPU)

end Jos.Mp
