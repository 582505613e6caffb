import Jos.CallFrame
import Jos.UpcallEntry

/-!
# The exception stack

`page_fault_handler` puts the frame for the upcall below the trap-time stack pointer if that points into the page
below `UXSTACKTOP`, and below `UXSTACKTOP` otherwise. What is on the exception stack already is kept, with two
exceptions (`Overwrites`). The range test is strict, so a stack pointer at the very bottom of the page is taken
for one outside of it, and the new frame goes over the oldest one. And with less than a frame left on the page,
the frame goes on below the page: nothing but the access check stops that, and the check passes if the
environment has mapped the guard page.
-/

namespace Jos

open Pmap ByteMem Kernel

variable {R : Set Nat} {D : Finset Nat} {l : List Nat} {k k' : Kernel} {c cur d : Nat} {faultVa esp : Word}
  {tf : Trapframe}

/-- The bottom of the exception stack. -/
def UXSTACKBASE : Word := UXSTACKTOP - BitVec.ofNat 32 PGSIZE

/-- The byte that directory `d` shows at `a`. -/
def userByte (s : Pmap) (d : Nat) (a : Word) : BitVec 8 := physBytes s (physAddr (pageOf s d) a)

/-- The frame at `F` is written between `s` and `s'`, and nothing on the exception stack is lost. -/
structure FrameKept (d : Nat) (faultVa : Word) (tf : Trapframe) (s s' : Pmap) (F : Word) : Prop where
  written : physBytes s' = storeThrough (physAddr (pageOf s d)) (physBytes s) F (utrapframe faultVa tf)
  inside : UXSTACKBASE ≤ F ∧ F.toNat + (utrapframe faultVa tf).length ≤ UXSTACKTOP.toNat
  below : UXSTACKBASE ≤ tf.esp → tf.esp < UXSTACKTOP →
    F.toNat + (utrapframe faultVa tf).length + 4 ≤ tf.esp.toNat
  kept : UXSTACKBASE ≤ tf.esp → ∀ a, tf.esp ≤ a → a < UXSTACKTOP → userByte s' d a = userByte s d a

/-- A page fault ends the environment, or leaves a frame for the upcall that keeps the exception stack. -/
def FaultKeepsStack (k : Kernel) (c cur d : Nat) (faultVa : Word) (tf : Trapframe) : Prop :=
  pageFaultHandler k c faultVa tf = envDestroy k c cur ∨
    ∃ k', pageFaultHandler k c faultVa tf = .ok (.left k') ∧
      FrameKept d faultVa tf k.pmap k'.pmap (k'.envs cur).envTf.esp

/-- The faults that overwrite the exception stack or the page below it: `esp` is at the bottom of the page, or
less than a frame above it with the guard page mapped. -/
def Overwrites (s : Pmap) (d : Nat) (esp : Word) : Prop :=
  accessOf s d UXSTACKBASE = .write ∧ (esp = UXSTACKBASE ∨
    UXSTACKBASE < esp ∧ esp < UXSTACKBASE + UTF_SIZE ∧ accessOf s d (UXSTACKBASE - 1#32) = .write)

/-! ## Where the frame goes -/

theorem toNat_UXSTACKBASE : UXSTACKBASE.toNat = 0xeebff000 := by decide

theorem toNat_utfAddr (tf : Trapframe) : (utfAddr tf).toNat + 56
    = if 0xeebff000 < tf.esp.toNat ∧ tf.esp.toNat < 0xeec00000 then tf.esp.toNat else 0xeec00000 := by
  have hbase : (UXSTACKTOP - BitVec.ofNat 32 PGSIZE).toNat = 0xeebff000 := by decide
  have htop := toNat_UXSTACKTOP
  have hsize : UTF_SIZE.toNat = 56 := by decide
  have hlt := tf.esp.isLt
  simp only [utfAddr, BitVec.lt_def, hbase, htop]
  split
  · rw [BitVec.toNat_sub, hsize]
    omega
  · decide

/-- Access is a matter of the page. -/
theorem accessOf_page {s : Pmap} {a b : Word} (h : PGNUM a = PGNUM b) : accessOf s d a = accessOf s d b := by
  have hdir : PDX a = PDX b := by
    rw [PGNUM_eq, PGNUM_eq] at h
    rw [PDX_eq, PDX_eq]
    omega
  have htab : PTX a = PTX b := by
    rw [PGNUM_eq, PGNUM_eq] at h
    rw [PTX_eq, PTX_eq]
    omega
  simp only [accessOf, translate, hdir, htab]

theorem PGNUM_eq_of {a b : Word} {n : Nat} (ha : n * 4096 ≤ a.toNat) (ha' : a.toNat < (n + 1) * 4096)
    (hb : n * 4096 ≤ b.toNat) (hb' : b.toNat < (n + 1) * 4096) : PGNUM a = PGNUM b := by
  rw [PGNUM_eq, PGNUM_eq]
  omega

/-- The page of the exception stack is page `977919`, the guard page is the one before. -/
theorem canWrite_utf (s : Pmap) (tf : Trapframe) : canWrite (accessOf s d) (utfAddr tf) UTF_SIZE.toNat = true ↔
    accessOf s d UXSTACKBASE = .write ∧ (UXSTACKBASE < tf.esp ∧ tf.esp < UXSTACKBASE + UTF_SIZE →
      accessOf s d (UXSTACKBASE - 1#32) = .write) := by
  have hF := toNat_utfAddr tf
  have hsize : UTF_SIZE.toNat = 56 := by decide
  have hbase := toNat_UXSTACKBASE
  have hnear : (UXSTACKBASE + UTF_SIZE).toNat = 0xeebff038 := by decide
  have hguard : (UXSTACKBASE - 1#32).toNat = 0xeebfefff := by decide
  have hbyte : ∀ i < 56, (utfAddr tf + BitVec.ofNat 32 i).toNat = (utfAddr tf).toNat + i := by
    intro i hi
    rw [BitVec.toNat_add, BitVec.toNat_ofNat]
    split at hF <;> omega
  rw [canWrite_iff, hsize, BitVec.lt_def, BitVec.lt_def, hbase, hnear]
  constructor
  · intro hall
    constructor
    · -- the last byte is on the page of the exception stack
      have hlast := hbyte 55 (by omega)
      rw [← hall 55 (by omega)]
      refine accessOf_page (PGNUM_eq_of (n := 977919) (by omega) (by omega) ?_ ?_) <;>
        split at hF <;> omega
    · rintro ⟨hlo, hhi⟩
      have hfirst := hbyte 0 (by omega)
      rw [← hall 0 (by omega)]
      rw [if_pos (by omega)] at hF
      exact accessOf_page (PGNUM_eq_of (n := 977918) (by omega) (by omega) (by omega) (by omega))
  · rintro ⟨hstack, hbelow⟩ i hi
    have hi' := hbyte i hi
    by_cases hpage : 0xeebff000 ≤ (utfAddr tf).toNat + i
    · rw [← hstack]
      refine accessOf_page (PGNUM_eq_of (n := 977919) ?_ ?_ (by omega) (by omega)) <;>
        split at hF <;> omega
    · have hon : 0xeebff000 < tf.esp.toNat ∧ tf.esp.toNat < 0xeec00000 := by
        by_contra hoff
        rw [if_neg hoff] at hF
        omega
      rw [if_pos hon] at hF
      rw [← hbelow (by omega)]
      exact accessOf_page (PGNUM_eq_of (n := 977918) (by omega) (by omega) (by omega) (by omega))

/-- The frame is in place just if the fault is none of those that overwrite something. -/
theorem placed_iff {s : Pmap} (hw : canWrite (accessOf s d) (utfAddr tf) UTF_SIZE.toNat = true) :
    (UXSTACKBASE ≤ utfAddr tf ∧ (UXSTACKBASE ≤ tf.esp → tf.esp < UXSTACKTOP →
      (utfAddr tf).toNat + 56 ≤ tf.esp.toNat)) ↔ ¬ Overwrites s d tf.esp := by
  obtain ⟨hstack, hguard⟩ := (canWrite_utf s tf).mp hw
  have hF := toNat_utfAddr tf
  have hbase := toNat_UXSTACKBASE
  have hnear : (UXSTACKBASE + UTF_SIZE).toNat = 0xeebff038 := by decide
  have heq : tf.esp = UXSTACKBASE ↔ tf.esp.toNat = 0xeebff000 := by
    rw [← hbase]
    exact BitVec.toNat_inj.symm
  rw [Overwrites, and_iff_right hstack, heq]
  rw [BitVec.lt_def, BitVec.lt_def, hbase, hnear] at hguard
  simp only [BitVec.lt_def, BitVec.le_def, hbase, hnear, toNat_UXSTACKTOP]
  split at hF
  · next hon =>
    constructor
    · rintro ⟨hlo, -⟩
      omega
    · intro hno
      have hfar : ¬ tf.esp.toNat < 0xeebff038 := fun hc =>
        hno (Or.inr ⟨hon.1, hc, hguard ⟨hon.1, hc⟩⟩)
      omega
  · omega

/-! ## `page_fault_handler` -/

/-- A frame at the right place covers nothing of what lies above `esp`. -/
theorem frame_kept {s s' : Pmap} {F a : Word}
    (hmem : physBytes s' = storeThrough (physAddr (pageOf s d)) (physBytes s) F (utrapframe faultVa tf))
    (hpage : pageOf s' d = pageOf s d) (hF : 0xeebff000 ≤ F.toNat) (hesp : F.toNat + 56 ≤ a.toNat)
    (ha : a < UXSTACKTOP) : userByte s' d a = userByte s d a := by
  rw [BitVec.lt_def, toNat_UXSTACKTOP] at ha
  have hlen := utrapframe_length faultVa tf
  have hdiff : (a - F).toNat = a.toNat - F.toNat := by
    rw [BitVec.toNat_sub]
    omega
  have haddr : a = F + BitVec.ofNat 32 (a.toNat - F.toNat) := by
    apply BitVec.eq_of_toNat_eq
    rw [BitVec.toNat_add, BitVec.toNat_ofNat]
    omega
  have hclear : Clear (physAddr (pageOf s d)) F (utrapframe faultVa tf).length a := by
    rw [haddr]
    exact physAddr_clear _ _ (by unfold PGSIZE; omega) (by rw [hlen]; decide)
  rw [userByte, userByte, hpage, hmem, storeThrough_apply hclear (by rw [hlen]; decide),
    storeBytes_of_le (by omega)]

section Handler

variable (h : KernelInv R D l k) (hcur : k.curenv c = some cur) (hdir : (k.envs cur).envPgdir = some d)
  (hcr3 : (k.cpus c).cr3 = d) (hcs : tf.cs &&& 3#32 ≠ 0#32)
  (hup : (k.envs cur).envPgfaultUpcall ≠ 0#32) (faultVa : Word)

include h hcur hdir hcr3 hcs hup

/-- What `page_fault_handler` leaves behind when the frame is writable. -/
theorem pageFaultHandler_frame (hw : canWrite (accessOf k.pmap d) (utfAddr tf) UTF_SIZE.toNat = true) :
    ∃ k', pageFaultHandler k c faultVa tf = .ok (.left k') ∧ (k'.envs cur).envTf.esp = utfAddr tf ∧
      (k'.envs cur).envStatus = .running ∧ pageOf k'.pmap d = pageOf k.pmap d ∧
      physBytes k'.pmap = storeThrough (physAddr (pageOf k.pmap d)) (physBytes k.pmap) (utfAddr tf)
        (utrapframe faultVa tf) := by
  have hstep := pageFaultHandler_enterUpcall h hcur hdir hcr3 hcs faultVa
  rw [enterUpcall, if_pos ⟨hup, hw⟩] at hstep
  obtain ⟨s, hs, hσ, hcode⟩ := hstep
  obtain ⟨k₁, hk₁⟩ : ∃ k₁, k₁ = Kernel.setEnv { k with pmap := s } cur { k.envs cur with
      envTf := { (k.envs cur).envTf with
        eip := (k.envs cur).envPgfaultUpcall, esp := utfAddr tf } } := ⟨_, rfl⟩
  have henv : k₁.envs cur = { k.envs cur with
      envTf := { (k.envs cur).envTf with
        eip := (k.envs cur).envPgfaultUpcall, esp := utfAddr tf } } := by
    rw [hk₁, setEnv_envs, if_pos rfl]
  have hpmap : k₁.pmap = s := by rw [hk₁]; rfl
  rw [← hk₁, envRun_eq (d := d) (by rw [henv]; exact hdir)] at hcode
  refine ⟨_, hcode, ?_, ?_, ?_, ?_⟩
  · rw [(runs_sameEnv cur).tf, henv]
  · rw [runs_status, if_pos rfl]
  · rw [runs_pmap, hpmap]
    exact (congrArg UserState.page hσ).symm
  · rw [runs_pmap, hpmap]
    exact (congrArg UserState.mem hσ).symm

theorem faultKeepsStack_of_placed (hno : ¬ Overwrites k.pmap d tf.esp) :
    FaultKeepsStack k c cur d faultVa tf := by
  have hF := toNat_utfAddr tf
  have hbase := toNat_UXSTACKBASE
  have hlen := utrapframe_length faultVa tf
  by_cases hw : canWrite (accessOf k.pmap d) (utfAddr tf) UTF_SIZE.toNat = true
  · obtain ⟨k', hcode, hesp, -, hpage, hmem⟩ := pageFaultHandler_frame h hcur hdir hcr3 hcs hup faultVa hw
    obtain ⟨hlo, hbelow⟩ := (placed_iff hw).mpr hno
    refine Or.inr ⟨k', hcode, ?_⟩
    rw [hesp]
    refine ⟨hmem, ⟨hlo, ?_⟩, ?_, ?_⟩
    · rw [hlen, toNat_UXSTACKTOP]
      split at hF <;> omega
    · rw [hlen]
      exact hbelow
    · intro hon a ha ha'
      rw [BitVec.le_def] at ha hlo
      have htop := ha'
      rw [BitVec.lt_def, toNat_UXSTACKTOP] at htop
      have hroom := hbelow hon (by rw [BitVec.lt_def, toNat_UXSTACKTOP]; omega)
      exact frame_kept hmem hpage (by omega) (by omega) ha'
  · have hstep := pageFaultHandler_enterUpcall h hcur hdir hcr3 hcs faultVa
    rw [enterUpcall, if_neg fun hc => hw hc.2] at hstep
    exact Or.inl hstep

theorem Overwrites.not_faultKeepsStack (hover : Overwrites k.pmap d tf.esp) :
    ¬ FaultKeepsStack k c cur d faultVa tf := by
  have hw : canWrite (accessOf k.pmap d) (utfAddr tf) UTF_SIZE.toNat = true := by
    refine (canWrite_utf k.pmap tf).mpr ⟨hover.1, ?_⟩
    rintro ⟨hlo, hhi⟩
    rcases hover.2 with heq | hbad
    · rw [heq] at hlo
      exact absurd hlo (BitVec.lt_irrefl _)
    · exact hbad.2.2
  obtain ⟨k₁, hcode, hesp, hrunning, -, -⟩ := pageFaultHandler_frame h hcur hdir hcr3 hcs hup faultVa hw
  rintro (hdest | ⟨k', hrun, hkept⟩)
  · -- the environment is running, so it was not destroyed
    obtain ⟨k', hk', hfree⟩ := envDestroy_self h.envs hcur (hdest.symm.trans hcode)
    rcases hk' with hk' | hk'
    · rw [← Flow.left.inj hk', hrunning] at hfree
      cases hfree
    · cases hk'
  · obtain rfl : k₁ = k' := Flow.left.inj (Except.ok.inj (hcode.symm.trans hrun))
    have hbelow := hkept.below
    have hinside := hkept.inside
    rw [hesp, utrapframe_length] at hbelow hinside
    exact (placed_iff hw).mp ⟨hinside.1, hbelow⟩ hover

/-- A page fault keeps what is on the exception stack, except in the two cases of `Overwrites`. -/
theorem pageFaultHandler_keepsStack :
    FaultKeepsStack k c cur d faultVa tf ↔ ¬ Overwrites k.pmap d tf.esp :=
  ⟨fun hkeeps hover => hover.not_faultKeepsStack h hcur hdir hcr3 hcs hup faultVa hkeeps,
    faultKeepsStack_of_placed h hcur hdir hcr3 hcs hup faultVa⟩

end Handler

/-! ## An environment with an upcall -/

/-- After booting, environment 0 runs, sets its upcall and allocates its exception stack. -/
structure UpcallSet (R : Set Nat) (D : Finset Nat) (l : List Nat) (d : Nat) (k k' : Kernel) : Prop where
  init : I386Init demoSystem k
  path : ∃ k₁ k₂ : Kernel, envRun k 0 0 = .ok (.left k₁) ∧
    sysEnvSetPgfaultUpcall k₁ 0 0#32 0x800020#32 = (0, k₂) ∧
    sysPageAlloc k₂ 0 0#32 UXSTACKBASE (PTE_P ||| PTE_U ||| PTE_W) = .ok (0, k')
  inv : KernelInv R D l k'
  cur : k'.curenv 0 = some 0
  dir : (k'.envs 0).envPgdir = some d
  cr3 : (k'.cpus 0).cr3 = d
  upcall : (k'.envs 0).envPgfaultUpcall ≠ 0#32
  access : accessOf k'.pmap d UXSTACKBASE = .write

theorem demoSystem_upcallSet : ∃ s₀ D l d k k', UpcallSet (notFree s₀) D l d k k' := by
  obtain ⟨s₀, D, l, d, d₁, k, h⟩ := demoSystem_boots
  obtain ⟨k₁, hrun⟩ : ∃ k₁, FirstRun (notFree s₀) D l d k k₁ := ⟨_, h.firstRun⟩
  obtain ⟨k₂, hk₂⟩ : ∃ k₂, k₂ = k₁.setEnv 0 { k₁.envs 0 with envPgfaultUpcall := 0x800020#32 } := ⟨_, rfl⟩
  have henv : k₂.envs 0 = { k₁.envs 0 with envPgfaultUpcall := 0x800020#32 } := by
    rw [hk₂, setEnv_envs, if_pos rfl]
  have hsame : SameLife k₁ k₂ := by
    have hfield : ∀ {α : Type} (f : Env → α), f { k₁.envs 0 with envPgfaultUpcall := 0x800020#32 }
        = f (k₁.envs 0) → ∀ e, f (k₂.envs e) = f (k₁.envs e) := by
      intro α f hf e
      rw [hk₂, setEnv_envs]
      split
      · next he => rw [hf, he]
      · rfl
    refine ⟨⟨hfield _ rfl, hfield _ rfl, by rw [hk₂]; rfl⟩, fun e => ?_⟩
    rw [hfield (fun env => env.envStatus) rfl e]
  have hinv : KernelInv (notFree s₀) D l k₂ := hrun.inv.congr hsame (by rw [hk₂]; rfl)
  have hpg : (k₂.envs 0).envPgdir = some d := by
    rw [henv]
    exact hrun.pgdir
  have hcpu : k₂.cpus 0 = { mode := .user, cpuEnv := some 0, cr3 := d } := by
    rw [hk₂, setEnv_cpus, hrun.cpu]
  obtain ⟨p, q, r, l, rfl⟩ := h.free
  have ha : PageAllocArgs k₂ 0 0 0#32 UXSTACKBASE (PTE_P ||| PTE_U ||| PTE_W) :=
    ⟨if_pos rfl, by decide, by decide, by decide⟩
  rcases hinv.toMemInv.sysPageAlloc_below ha h.dirs.1 hpg (by decide) with
    ⟨s, l', hcall, hins, hpmap⟩ | ⟨hnil, -⟩
  · refine ⟨s₀, D, l', d, k, { k₂ with pmap := s }, h.init, ⟨k₁, k₂, hrun.run, ?_, hcall⟩, hinv.withPmap hpmap, ?_,
      hpg, ?_, ?_, ?_⟩
    · rw [hk₂, sysEnvSetPgfaultUpcall, envid2env, if_pos rfl]
    · show (k₂.cpus 0).cpuEnv = some 0
      rw [hcpu]
    · show (k₂.cpus 0).cr3 = d
      rw [hcpu]
    · show (k₂.envs 0).envPgfaultUpcall ≠ 0#32
      rw [henv]
      show 0x800020#32 ≠ 0#32
      decide
    · rw [accessOf_eq_write, hpmap.translate_write_iff h.dirs.1 (by decide),
        hins.pte d h.dirs.1 _ (PGNUM_lt_NUVPN (by decide)), if_pos ⟨rfl, rfl⟩, mkPte]
      have hpa : page2pa p &&& USER_W = 0#32 := by
        refine and_flags ?_ (by decide)
        rw [toNat_page2pa (hinv.pmap.head_managed.1.trans_le hinv.pmap.npages_le')]
        omega
      rw [BitVec.and_or_distrib_right, BitVec.and_or_distrib_right, hpa]
      decide
  · cases hnil

/-- The trap frame of a fault in user mode with this stack pointer. -/
def userFault (esp : Word) : Trapframe := { esp, cs := 0x1b#32 }

/-- A fault on the regular stack keeps the exception stack. -/
theorem pageFaultHandler_keepsStack_demoSystem : ∃ s₀ D l d k k',
    UpcallSet (notFree s₀) D l d k k' ∧ FaultKeepsStack k' 0 0 d 0#32 (userFault (USTACKTOP - 4#32)) := by
  obtain ⟨s₀, D, l, d, k, k', h⟩ := demoSystem_upcallSet
  refine ⟨s₀, D, l, d, k, k', h, (pageFaultHandler_keepsStack h.inv h.cur h.dir h.cr3 (by decide) h.upcall
    0#32).mpr ?_⟩
  rintro ⟨-, heq | ⟨hlo, -⟩⟩
  · exact absurd heq (by decide)
  · exact absurd hlo (by decide)

/-- With the stack pointer at the bottom of the exception stack, the frame goes to its top. -/
theorem pageFaultHandler_overwrites : ∃ s₀ D l d k k', UpcallSet (notFree s₀) D l d k k' ∧
    ¬ FaultKeepsStack k' 0 0 d 0#32 (userFault UXSTACKBASE) := by
  obtain ⟨s₀, D, l, d, k, k', h⟩ := demoSystem_upcallSet
  have hover : Overwrites k'.pmap d (userFault UXSTACKBASE).esp := ⟨h.access, Or.inl rfl⟩
  exact ⟨s₀, D, l, d, k, k', h, hover.not_faultKeepsStack h.inv h.cur h.dir h.cr3 (by decide) h.upcall 0#32⟩

end Jos
