import Jos.KernelMap

/-!
# I/O ports and the task state segment

In user mode with `IOPL` 0 the processor looks up every I/O port in the bitmap that starts `ts_iomb` bytes into the
task state segment. `trap_init_percpu` leaves `ts_iomb` at 0, inside the segment, so the fields of
`struct Taskstate` themselves are taken for the bitmap. A port is denied if its bit there happens to be set, or
if its part of the bitmap is past the limit of the segment.
-/

namespace Jos

open Pmap

/-! ## Descriptors -/

/-- `struct Segdesc`. -/
structure Segdesc where
  sdLim15_0 : BitVec 16 := 0
  sdBase15_0 : BitVec 16 := 0
  sdBase23_16 : BitVec 8 := 0
  sdType : BitVec 4 := 0
  sdS : BitVec 1 := 0
  sdDpl : BitVec 2 := 0
  sdP : BitVec 1 := 0
  sdLim19_16 : BitVec 4 := 0
  sdAvl : BitVec 1 := 0
  sdRsv1 : BitVec 1 := 0
  sdDb : BitVec 1 := 0
  sdG : BitVec 1 := 0
  sdBase31_24 : BitVec 8 := 0

/-- `SEG16(type, base, lim, dpl)`. -/
def SEG16 (type : BitVec 4) (base lim : Word) (dpl : BitVec 2) : Segdesc where
  sdLim15_0 := lim.setWidth 16
  sdBase15_0 := base.setWidth 16
  sdBase23_16 := (base >>> 16).setWidth 8
  sdType := type
  sdS := 1
  sdDpl := dpl
  sdP := 1
  sdLim19_16 := (lim >>> 16).setWidth 4
  sdDb := 1
  sdBase31_24 := (base >>> 24).setWidth 8

def STS_T32A : BitVec 4 := 0x9
def STS_T32B : BitVec 4 := 0xB
def GD_KD : Nat := 0x10
def GD_TSS0 : Nat := 0x28

namespace Segdesc

/-- Where the segment starts. -/
def base (desc : Segdesc) : Word := desc.sdBase31_24 ++ desc.sdBase23_16 ++ desc.sdBase15_0

/-- The last offset in the segment. -/
def limit (desc : Segdesc) : Nat :=
  let lim := (desc.sdLim19_16 ++ desc.sdLim15_0).toNat
  if desc.sdG = 0 then lim else lim * 4096 + 4095

end Segdesc

/-! ## The task state segment -/

/-- `struct Taskstate`. -/
structure Taskstate where
  link : Word := 0
  esp0 : Word := 0
  ss0 : BitVec 16 := 0
  padding1 : BitVec 16 := 0
  esp1 : Word := 0
  ss1 : BitVec 16 := 0
  padding2 : BitVec 16 := 0
  esp2 : Word := 0
  ss2 : BitVec 16 := 0
  padding3 : BitVec 16 := 0
  cr3 : Word := 0
  eip : Word := 0
  eflags : Word := 0
  eax : Word := 0
  ecx : Word := 0
  edx : Word := 0
  ebx : Word := 0
  esp : Word := 0
  ebp : Word := 0
  esi : Word := 0
  edi : Word := 0
  es : BitVec 16 := 0
  padding4 : BitVec 16 := 0
  cs : BitVec 16 := 0
  padding5 : BitVec 16 := 0
  ss : BitVec 16 := 0
  padding6 : BitVec 16 := 0
  ds : BitVec 16 := 0
  padding7 : BitVec 16 := 0
  fs : BitVec 16 := 0
  padding8 : BitVec 16 := 0
  gs : BitVec 16 := 0
  padding9 : BitVec 16 := 0
  ldt : BitVec 16 := 0
  padding10 : BitVec 16 := 0
  t : BitVec 16 := 0
  iomb : BitVec 16 := 0

/-- The structure in memory, word by word. -/
def Taskstate.words (ts : Taskstate) : List Word :=
  [ts.link, ts.esp0, ts.padding1 ++ ts.ss0, ts.esp1, ts.padding2 ++ ts.ss1, ts.esp2, ts.padding3 ++ ts.ss2,
    ts.cr3, ts.eip, ts.eflags, ts.eax, ts.ecx, ts.edx, ts.ebx, ts.esp, ts.ebp, ts.esi, ts.edi,
    ts.padding4 ++ ts.es, ts.padding5 ++ ts.cs, ts.padding6 ++ ts.ss, ts.padding7 ++ ts.ds,
    ts.padding8 ++ ts.fs, ts.padding9 ++ ts.gs, ts.padding10 ++ ts.ldt, ts.iomb ++ ts.t]

/-- `sizeof(struct Taskstate)`. -/
def sizeofTaskstate : Nat := 104

/-- `sizeof(struct CpuInfo)`, of which `cpu_ts` is the end. -/
def sizeofCpuInfo : Nat := 12 + sizeofTaskstate

/-! ## `trap_init_percpu` -/

/-- The parts of `cpus` and of the processors that concern the task state segment. -/
structure TssState where
  cpuId : Nat → BitVec 8
  cpuTs : Nat → Taskstate
  ncpu : Nat
  gdt : Nat → Segdesc
  /-- The task register of each processor. -/
  tr : Nat → Option Nat

/-- `&cpus[i].cpu_ts`, for `cpus` at this address. -/
def cpuTsAddr (cpus : Word) (i : Nat) : Word := cpus + BitVec.ofNat 32 (i * sizeofCpuInfo + 12)

/-- Load the task register; the descriptor is marked busy. -/
def ltr (s : TssState) (i sel : Nat) : TssState :=
  { s with
    gdt := Function.update s.gdt (sel / 8) { s.gdt (sel / 8) with sdType := STS_T32B }
    tr := Function.update s.tr i (some sel) }

/-- `trap_init_percpu` on the processor with the number `i`. -/
def trapInitPercpu (cpus : Word) (s : TssState) (i : Nat) : TssState :=
  let cid := (s.cpuId i).toNat
  let s := { s with
    cpuTs := Function.update s.cpuTs i { s.cpuTs i with
      esp0 := KSTACKTOP - BitVec.ofNat 32 (cid * (KSTKSIZE + KSTKGAP))
      ss0 := BitVec.ofNat 16 GD_KD }
    gdt := Function.update s.gdt (GD_TSS0 / 8 + cid)
      { SEG16 STS_T32A (cpuTsAddr cpus i) (BitVec.ofNat 32 sizeofTaskstate) 0 with sdS := 0 } }
  ltr s i (GD_TSS0 + 8 * cid)

/-- What `mp_init` does to `cpus` and `ncpu`: it has found `found` processors, of which `n` are used. -/
def mpInit (s : TssState) (found n : Nat) : TssState :=
  { s with
    cpuId := fun j => if j < found then BitVec.ofNat 8 j else s.cpuId j
    ncpu := n }

/-- Booting: `cpus` is zero at first, and each processor that is started calls `trap_init_percpu`. Nothing
else writes to the task state segments and their descriptors. -/
inductive TssRun (cpus : Word) : TssState → Prop
  | boot (gdt : Nat → Segdesc) : TssRun cpus ⟨fun _ => 0, fun _ => {}, 0, gdt, fun _ => none⟩
  | mpInit {s : TssState} (found n : Nat) : TssRun cpus s → found ≤ NCPU → n ≤ max found 1 →
      TssRun cpus (mpInit s found n)
  | percpu {s : TssState} (i : Nat) : TssRun cpus s → i = 0 ∨ i < s.ncpu → TssRun cpus (trapInitPercpu cpus s i)

/-! ## The check of the processor -/

/-- A byte of memory: the task state segments in `cpus`, and something else around them. -/
def memByte (cpus : Word) (s : TssState) (other : Word → BitVec 8) (a : Word) : BitVec 8 :=
  let off := (a - cpus).toNat
  let field := off % sizeofCpuInfo
  if off / sizeofCpuInfo < NCPU ∧ 12 ≤ field then
    byteOf ((s.cpuTs (off / sizeofCpuInfo)).words.getD ((field - 12) / 4) 0) ((field - 12) % 4)
  else
    other a

/-- With `CPL` 3 and `IOPL` 0, the access to `port` is a general protection fault: the two bytes of the bitmap are
not both in the segment, or the bit is set. -/
def IoDenied (mem : Word → BitVec 8) (desc : Segdesc) (port : Nat) : Prop :=
  let iomb := (mem (desc.base + 103#32) ++ mem (desc.base + 102#32)).toNat
  let off := iomb + port / 8
  desc.limit < off + 1 ∨
    (mem (desc.base + BitVec.ofNat 32 (off + 1)) ++ mem (desc.base + BitVec.ofNat 32 off)).getLsbD (port % 8)

/-! ## What `trap_init_percpu` leaves -/

variable {cpus : Word} {s : TssState} {i port : Nat}

/-- The task state segment of CPU `i`. -/
def percpuTs (i : Nat) : Taskstate := { esp0 := kstacktop i, ss0 := BitVec.ofNat 16 GD_KD }

/-- Its descriptor. -/
def percpuDesc (cpus : Word) (i : Nat) : Segdesc :=
  { SEG16 STS_T32A (cpuTsAddr cpus i) (BitVec.ofNat 32 sizeofTaskstate) 0 with sdS := 0, sdType := STS_T32B }

structure TssInv (cpus : Word) (s : TssState) : Prop where
  ncpu : s.ncpu ≤ NCPU
  id : ∀ j, j = 0 ∨ j < s.ncpu → s.cpuId j = BitVec.ofNat 8 j
  /-- No field but `ts_esp0` and `ts_ss0` is ever written. -/
  rest : ∀ j, { s.cpuTs j with esp0 := 0, ss0 := 0 } = ({} : Taskstate)
  done : ∀ j sel, s.tr j = some sel → j < NCPU ∧ sel = GD_TSS0 + 8 * j ∧ s.cpuTs j = percpuTs j ∧
    s.gdt (GD_TSS0 / 8 + j) = percpuDesc cpus j

theorem trapInitPercpu_gdt (cpus : Word) (s : TssState) (i : Nat) : (trapInitPercpu cpus s i).gdt
    = Function.update s.gdt (GD_TSS0 / 8 + (s.cpuId i).toNat) (percpuDesc cpus i) := by
  have hslot : (GD_TSS0 + 8 * (s.cpuId i).toNat) / 8 = GD_TSS0 / 8 + (s.cpuId i).toNat := by
    unfold GD_TSS0
    omega
  simp only [trapInitPercpu, ltr, hslot, Function.update_self, Function.update_idem]
  rfl

theorem TssInv.percpu (h : TssInv cpus s) (hi : i = 0 ∨ i < s.ncpu) : TssInv cpus (trapInitPercpu cpus s i) := by
  have hlt : i < NCPU := by
    have hn := h.ncpu
    have hpos : 0 < NCPU := by decide
    omega
  have hid : (s.cpuId i).toNat = i := by
    have hle : i < 8 := hlt
    rw [h.id i hi, BitVec.toNat_ofNat]
    omega
  have htr : (trapInitPercpu cpus s i).tr = Function.update s.tr i (some (GD_TSS0 + 8 * i)) := by
    simp only [trapInitPercpu, ltr, hid]
  have hts : (trapInitPercpu cpus s i).cpuTs = Function.update s.cpuTs i (percpuTs i) := by
    simp only [trapInitPercpu, ltr, hid]
    exact congrArg (fun ts : Taskstate => Function.update s.cpuTs i { ts with
      esp0 := KSTACKTOP - BitVec.ofNat 32 (i * (KSTKSIZE + KSTKGAP))
      ss0 := BitVec.ofNat 16 GD_KD }) (h.rest i)
  refine ⟨h.ncpu, h.id, fun j => ?_, fun j sel hj => ?_⟩
  · rw [hts, Function.update_apply]
    split
    · rfl
    · exact h.rest j
  · rw [htr, Function.update_apply] at hj
    rw [hts, trapInitPercpu_gdt, hid, Function.update_apply, Function.update_apply]
    by_cases hji : j = i
    · rw [if_pos hji] at hj
      rw [hji, if_pos rfl, if_pos rfl]
      exact ⟨hlt, (Option.some.inj hj).symm, rfl, rfl⟩
    · rw [if_neg hji] at hj
      rw [if_neg hji, if_neg fun hc => hji (Nat.add_left_cancel hc)]
      exact h.done j sel hj

theorem TssRun.inv (h : TssRun cpus s) : TssInv cpus s := by
  induction h with
  | boot gdt =>
    refine ⟨Nat.zero_le _, fun j hj => ?_, fun _ => rfl, nofun⟩
    rcases hj with rfl | hj
    · rfl
    · cases hj
  | mpInit found n _ hfound hn ih =>
    have hpos : 1 ≤ NCPU := by decide
    refine ⟨by show n ≤ NCPU; omega, fun j hj => ?_, ih.rest, ih.done⟩
    show (if j < found then BitVec.ofNat 8 j else _) = BitVec.ofNat 8 j
    split
    · rfl
    · have hj' : j = 0 ∨ j < n := hj
      obtain rfl : j = 0 := by omega
      exact ih.id 0 (Or.inl rfl)
  | percpu i _ hi ih => exact ih.percpu hi

/-! ## Reading the descriptor and the segment -/

theorem percpuDesc_base (cpus : Word) (i : Nat) : (percpuDesc cpus i).base = cpuTsAddr cpus i := by
  show (cpuTsAddr cpus i >>> 24).setWidth 8 ++ (cpuTsAddr cpus i >>> 16).setWidth 8
    ++ (cpuTsAddr cpus i).setWidth 16 = cpuTsAddr cpus i
  generalize cpuTsAddr cpus i = b
  ext n hn
  simp only [BitVec.getElem_append, BitVec.getElem_setWidth, BitVec.getLsbD_ushiftRight]
  split
  · rw [BitVec.getLsbD_eq_getElem]
  · split
    · rw [← BitVec.getLsbD_eq_getElem]
      congr 1
      omega
    · rw [← BitVec.getLsbD_eq_getElem]
      congr 1
      omega

theorem percpuDesc_limit (cpus : Word) (i : Nat) : (percpuDesc cpus i).limit = 104 := by
  have hlim : ((BitVec.ofNat 32 sizeofTaskstate >>> 16).setWidth 4
      ++ (BitVec.ofNat 32 sizeofTaskstate).setWidth 16).toNat = 104 := by decide
  simp only [Segdesc.limit, percpuDesc, SEG16, hlim, if_true]

/-- The bytes of the task state segment of CPU `i`. -/
theorem memByte_cpuTs (other : Word → BitVec 8) {off : Nat} (hi : i < NCPU) (hoff : off < 104) :
    memByte cpus s other (cpuTsAddr cpus i + BitVec.ofNat 32 off)
      = byteOf ((s.cpuTs i).words.getD (off / 4) 0) (off % 4) := by
  have hdiff : (cpuTsAddr cpus i + BitVec.ofNat 32 off - cpus).toNat = i * 116 + 12 + off := by
    have hsum : cpuTsAddr cpus i + BitVec.ofNat 32 off - cpus = BitVec.ofNat 32 (i * 116 + 12 + off) := by
      rw [cpuTsAddr, BitVec.add_assoc, BitVec.add_comm cpus, BitVec.add_sub_cancel, ← BitVec.ofNat_add]
      rfl
    unfold NCPU at hi
    rw [hsum, BitVec.toNat_ofNat]
    omega
  have hdiv : (i * 116 + 12 + off) / 116 = i := by omega
  have hmod : (i * 116 + 12 + off) % 116 = 12 + off := by omega
  have hsize : sizeofCpuInfo = 116 := rfl
  simp only [memByte, hdiff, hsize, hdiv, hmod, Nat.add_sub_cancel_left]
  rw [if_pos ⟨hi, by omega⟩]

/-- The bit of a port in the segment, when the bitmap starts at 0. -/
theorem getLsbD_tss (w : Word) (port : Nat) :
    (byteOf w (port / 8 % 4)).getLsbD (port % 8) = w.getLsbD (port % 32) := by
  rw [byteOf, BitVec.getLsbD_setWidth, BitVec.getLsbD_ushiftRight, decide_eq_true (by omega), Bool.true_and]
  congr 1
  omega

/-- All but `ts_esp0` and `ts_ss0` is zero. -/
theorem percpuTs_words (i : Nat) :
    (percpuTs i).words = 0#32 :: kstacktop i :: 0x10#32 :: List.replicate 23 0#32 := by
  have hzero : (0 : BitVec 16) ++ (0 : BitVec 16) = 0#32 := by decide
  have hss : (0 : BitVec 16) ++ BitVec.ofNat 16 GD_KD = 0x10#32 := by decide
  simp only [Taskstate.words, percpuTs, hzero, hss]
  rfl

/-- The bit a port gets from the fields `ts_esp0` and `ts_ss0`; the others are zero. -/
def fieldBit (i port : Nat) : Prop :=
  (32 ≤ port ∧ port < 64 ∧ (kstacktop i).getLsbD (port - 32)) ∨ port = 68

theorem percpuTs_bit (i : Nat) (hport : port < 832) :
    ((percpuTs i).words.getD (port / 32) 0).getLsbD (port % 32) = true ↔ fieldBit i port := by
  rw [percpuTs_words, fieldBit]
  match hw : port / 32 with
  | 0 =>
    refine iff_of_false (by simp) ?_
    omega
  | 1 =>
    have hmod : port % 32 = port - 32 := by omega
    rw [hmod]
    exact ⟨fun hbit => Or.inl ⟨by omega, by omega, hbit⟩, fun hbit => (hbit.resolve_right (by omega)).2.2⟩
  | 2 =>
    have hbits : ∀ n < 32, (0x10#32).getLsbD n = true ↔ n = 4 := by decide
    refine (hbits (port % 32) (by omega)).trans ?_
    omega
  | w + 3 =>
    have hzero : (List.replicate 23 0#32).getD w 0 = 0#32 := by
      rw [List.getD_replicate _ (by omega)]
    refine iff_of_false ?_ (by omega)
    simp only [List.getD_cons_succ, hzero]
    simp

/-! ## The ports that are denied -/

/-- On a CPU that has executed `trap_init_percpu`, the ports denied to user code are those past the limit and
those whose bit in `ts_esp0` or `ts_ss0` is set. -/
theorem trapInitPercpu_ioDenied {sel : Nat} (h : TssRun cpus s) (htr : s.tr i = some sel)
    (other : Word → BitVec 8) (port : Nat) :
    IoDenied (memByte cpus s other) (s.gdt (sel / 8)) port ↔ 832 ≤ port ∨ fieldBit i port := by
  obtain ⟨hi, rfl, hts, hgdt⟩ := h.inv.done i sel htr
  have hslot : (GD_TSS0 + 8 * i) / 8 = GD_TSS0 / 8 + i := by
    unfold GD_TSS0
    omega
  have hbyte : ∀ off < 104, memByte cpus s other (cpuTsAddr cpus i + BitVec.ofNat 32 off)
      = byteOf ((percpuTs i).words.getD (off / 4) 0) (off % 4) := by
    intro off hoff
    rw [memByte_cpuTs other hi hoff, hts]
  have hiomb : (memByte cpus s other (cpuTsAddr cpus i + 103#32)
      ++ memByte cpus s other (cpuTsAddr cpus i + 102#32)).toNat = 0 := by
    have hlast : (percpuTs i).words.getD 25 0 = 0#32 := by rw [percpuTs_words]; rfl
    rw [hbyte 103 (by omega), hbyte 102 (by omega), show 103 / 4 = 25 by omega, hlast]
    decide
  rw [hslot, hgdt]
  simp only [IoDenied, percpuDesc_base, percpuDesc_limit, hiomb, Nat.zero_add]
  by_cases hport : port < 832
  · rw [BitVec.getLsbD_append, if_pos (by omega), hbyte _ (by omega), getLsbD_tss,
      show port / 8 / 4 = port / 32 by omega, percpuTs_bit i hport]
    exact or_congr_left (iff_of_false (by omega) (by omega))
  · exact iff_of_true (Or.inl (by omega)) (Or.inl (by omega))

/-- The boot processor after `trap_init`. -/
def demoTss : TssState := trapInitPercpu 0xf0250000#32 ⟨fun _ => 0, fun _ => {}, 0, fun _ => {}, fun _ => none⟩ 0

theorem trapInitPercpu_ioDenied_demoTss : TssRun 0xf0250000#32 demoTss ∧ demoTss.tr 0 = some GD_TSS0 ∧
    IoDenied (memByte 0xf0250000#32 demoTss fun _ => 0) (demoTss.gdt (GD_TSS0 / 8)) 0x3F8 :=
  have hrun : TssRun 0xf0250000#32 demoTss := .percpu 0 (.boot _) (Or.inl rfl)
  ⟨hrun, rfl, (trapInitPercpu_ioDenied (i := 0) hrun rfl _ _).mpr (Or.inl (by decide))⟩

/-- User code can talk to the keyboard controller. -/
theorem trapInitPercpu_port60 : TssRun 0xf0250000#32 demoTss ∧ demoTss.tr 0 = some GD_TSS0 ∧
    ¬ IoDenied (memByte 0xf0250000#32 demoTss fun _ => 0) (demoTss.gdt (GD_TSS0 / 8)) 0x60 := by
  refine ⟨.percpu 0 (.boot _) (Or.inl rfl), rfl, ?_⟩
  unfold IoDenied
  decide

end Jos
