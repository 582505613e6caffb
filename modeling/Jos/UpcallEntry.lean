import Jos.NoPanic
import Jos.Upcall
import Jos.UserMem

/-!
# From `page_fault_handler` to the upcall

`Upcall` looks at an environment from user mode, where the kernel's part in a page fault is the one step
`enterUpcall`. Here the state in user mode is read off the page tables (`userOf`), and `page_fault_handler` is
shown to do just that step: it lets the environment continue in the state `enterUpcall` says, or destroys it if
there is none.
-/

namespace Jos

open Pmap ByteMem

/-! ## Memory as user code sees it -/

/-- The bytes of physical memory. -/
def physBytes (s : Pmap) (a : Nat × Nat) : BitVec 8 := byteOf (s.mem a.1 (a.2 / 4)) (a.2 % 4)

/-- The page that virtual page `v` is mapped to. -/
def pageOf (s : Pmap) (d v : Nat) : Nat := (translate s d (pageAddr v) PTE_P).getD 0

/-- What user code may do with the byte at `a`. -/
def accessOf (s : Pmap) (d : Nat) (a : Word) : Access :=
  if translate s d a USER_W ≠ none then .write
  else if translate s d a USER_R ≠ none then .read
  else .none

/-- An environment with the page directory `d` that is about to continue with the trap frame `tf`. -/
def userOf (s : Pmap) (d : Nat) (tf : Trapframe) (h : ∀ a, ULIM ≤ a → accessOf s d a ≠ .write) :
    UserState where
  reg := tf.reg
  eip := tf.eip
  eflags := tf.eflags
  mem := physBytes s
  page := pageOf s d
  access := accessOf s d
  ulim := h

variable {R : Set Nat} {D : Finset Nat} {l : List Nat} {s s' : Pmap} {d p : Nat} {va flags : Word}
  {k : Kernel} {c cur : Nat} {tf : Trapframe}

theorem accessOf_eq_write {a : Word} : accessOf s d a = .write ↔ translate s d a USER_W ≠ none := by
  unfold accessOf
  split
  · next h => exact iff_of_true rfl h
  · next h =>
    refine iff_of_false ?_ h
    split <;> rintro ⟨⟩

namespace PmapInv

theorem ulim (h : PmapInv R D l s) (hd : d ∈ D) (a : Word) (ha : ULIM ≤ a) : accessOf s d a ≠ .write := by
  rw [Ne, accessOf_eq_write, not_not]
  refine h.translate_above hd (BitVec.not_lt.mpr (BitVec.le_trans ?_ ha))
  decide

/-- Where the page tables are is not where user code can write. -/
theorem translate_storePage (h : PmapInv R D l s) {v : Nat} (hd : d ∈ D) (hv : v < NUVPN)
    (hP : present (pteOf s d v)) (j : Nat) (w : Word) (hf : UserFlags flags) (va : Word) :
    translate (s.store ⟨ppn (pteOf s d v), j⟩ w) d va flags = translate s d va flags := by
  obtain ⟨hres, hdir, htab⟩ := h.storePage_mem hd hv hP j w
  exact h.translate_congr hf hd hres (hdir d hd) (htab d hd) va

theorem pageOf_PGNUM (h : PmapInv R D l s) (hd : d ∈ D) (hva : va < UTOP)
    (hP : present (pteOf s d (PGNUM va))) : pageOf s d (PGNUM va) = ppn (pteOf s d (PGNUM va)) := by
  have hlt := hva
  have hv : PGNUM va < 1048576 := by
    have := va.isLt
    rw [PGNUM_eq]
    omega
  have hbelow : pageAddr (PGNUM va) < UTOP := by
    rw [BitVec.lt_def, toNat_UTOP] at hlt ⊢
    rw [toNat_pageAddr hv, PGNUM_eq]
    omega
  rw [pageOf, h.translate_below .kern hd hbelow, PGNUM_pageAddr hv, if_pos (present_iff.mp hP),
    Option.getD_some]

/-- A byte that the kernel or user code stores below `UTOP`. -/
theorem storeByte_phys (h : PmapInv R D l s) (hf : UserFlags flags) (hd : d ∈ D) (hva : va < UTOP) {b : BitVec 8}
    (hs : storeByte s d va flags b = some s') :
    physBytes s' = Function.update (physBytes s) (physAddr (pageOf s d) va) b := by
  obtain ⟨hP, -, rfl⟩ := h.storeByte_below hf hd hva hs
  have hpage := h.pageOf_PGNUM hd hva hP
  generalize ppn (pteOf s d (PGNUM va)) = p at hpage ⊢
  funext ⟨q, i⟩
  have hkey : (q, i) = physAddr (pageOf s d) va ↔ (q = p ∧ i / 4 = wordOf va) ∧ va.toNat % 4 = i % 4 := by
    rw [physAddr, hpage, Prod.mk.injEq, wordOf, PGSIZE]
    omega
  rw [Function.update_apply, physBytes, physBytes, store_mem]
  simp only
  by_cases hword : q = p ∧ i / 4 = wordOf va
  · rw [if_pos hword, byteOf_setByte (by omega)]
    by_cases hbyte : va.toNat % 4 = i % 4
    · rw [if_pos hbyte, if_pos (hkey.mpr ⟨hword, hbyte⟩)]
    · rw [if_neg hbyte, if_neg fun hc => hbyte (hkey.mp hc).2, hword.1, hword.2]
  · rw [if_neg hword, if_neg fun hc => hword (hkey.mp hc).1]

theorem storeByte_space (h : PmapInv R D l s) (hd : d ∈ D) (hva : va < UTOP) {b : BitVec 8}
    (hs : storeByte s d va KERN_W b = some s') :
    PmapInv R D l s' ∧ pageOf s' d = pageOf s d ∧ accessOf s' d = accessOf s d := by
  obtain ⟨hP, -, rfl⟩ := h.storeByte_below .kernWrite hd hva hs
  obtain ⟨w, hw⟩ : ∃ w, w = setByte (s.mem (ppn (pteOf s d (PGNUM va))) (wordOf va)) (va.toNat % 4) b :=
    ⟨_, rfl⟩
  have htr : ∀ {f : Word}, UserFlags f → ∀ a, translate
      (s.store ⟨ppn (pteOf s d (PGNUM va)), wordOf va⟩ w) d a f = translate s d a f := fun hf a =>
    h.translate_storePage hd (PGNUM_lt_NUVPN hva) hP (wordOf va) w hf a
  rw [← hw]
  refine ⟨(h.storePage hd (PGNUM_lt_NUVPN hva) hP _ _).1, funext fun v => ?_, funext fun a => ?_⟩
  · rw [pageOf, pageOf, htr .kern]
  · rw [accessOf, accessOf, htr .write, htr .read]

/-- `memcpy` to addresses below `UTOP`, as user code sees it. -/
theorem copyTo_phys (h : PmapInv R D l s) (hd : d ∈ D) {bs : List (BitVec 8)}
    (hva : va.toNat + bs.length ≤ UTOP.toNat) (hok : Jos.copyTo d bs va s = .ok s') :
    physBytes s' = storeThrough (physAddr (pageOf s d)) (physBytes s) va bs ∧
      pageOf s' d = pageOf s d ∧ accessOf s' d = accessOf s d := by
  induction bs generalizing s va with
  | nil =>
    cases hok
    exact ⟨rfl, rfl, rfl⟩
  | cons b bs ih =>
    rw [List.length_cons] at hva
    obtain ⟨hva', hnext⟩ := copyTo_bounds hva
    obtain ⟨s₁, hs₁, hok⟩ := copyTo_cons hok
    obtain ⟨h₁, hpage, haccess⟩ := h.storeByte_space hd hva' hs₁
    obtain ⟨hmem', hpage', haccess'⟩ := ih h₁ (by omega) hok
    refine ⟨?_, hpage'.trans hpage, haccess'.trans haccess⟩
    rw [hmem', hpage, h.storeByte_phys .kernWrite hd hva' hs₁]
    rfl

theorem translate_write_iff (h : PmapInv R D l s) (hd : d ∈ D) (hva : va < UTOP) :
    translate s d va USER_W ≠ none ↔ pteOf s d (PGNUM va) &&& USER_W = USER_W := by
  rw [h.translate_below .write hd hva]
  split
  · next hpte => exact iff_of_true nofun hpte
  · next hpte => exact iff_of_false (fun hc => hc rfl) hpte

/-- `memcpy` to memory that user code can write. -/
theorem copyTo_returns (h : PmapInv R D l s) (hd : d ∈ D) (bs : List (BitVec 8)) (va : Word)
    (hva : va.toNat + bs.length ≤ UTOP.toNat) (hw : canWrite (accessOf s d) va bs.length = true) :
    ∃ s', Jos.copyTo d bs va s = .ok s' := by
  induction bs generalizing s va with
  | nil => exact ⟨s, rfl⟩
  | cons b bs ih =>
    rw [List.length_cons] at hva hw
    obtain ⟨hva', hnext⟩ := copyTo_bounds hva
    have hpte : pteOf s d (PGNUM va) &&& USER_W = USER_W := by
      have hbyte := canWrite_iff.mp hw 0 (by omega)
      rw [show BitVec.ofNat 32 0 = 0#32 from rfl, BitVec.add_zero, accessOf_eq_write] at hbyte
      exact (h.translate_write_iff hd hva').mp hbyte
    have hkern : pteOf s d (PGNUM va) &&& KERN_W = KERN_W := by
      have hsub : USER_W &&& KERN_W = KERN_W := by decide
      rw [← hsub, ← BitVec.and_assoc, hpte]
    obtain ⟨s₁, hs₁⟩ : ∃ s₁, storeByte s d va KERN_W b = some s₁ := by
      rw [storeByte, h.translate_below .kernWrite hd hva', if_pos hkern]
      exact ⟨_, rfl⟩
    obtain ⟨h₁, -, haccess⟩ := h.storeByte_space hd hva' hs₁
    have hrest := canWrite_of_canWrite hw (k := 1) (l := bs.length) (by omega)
    rw [← haccess] at hrest
    rw [Jos.copyTo, hs₁]
    exact ih h₁ _ (by omega) hrest

/-- What `user_mem_check` looks for in an entry below `UTOP`. -/
theorem accessible_write_iff (h : PmapInv R D l s) (hd : d ∈ D) {a : Nat} (ha : a < UTOP.toNat) :
    Accessible s d (PTE_U ||| PTE_W ||| PTE_U) a ↔ accessOf s d (BitVec.ofNat 32 a) = .write := by
  have hU : UTOP.toNat = 0xeec00000 := toNat_UTOP
  have hof : (BitVec.ofNat 32 a).toNat = a := by
    rw [BitVec.toNat_ofNat]
    omega
  have hva : BitVec.ofNat 32 a < UTOP := by
    rw [BitVec.lt_def, hof]
    exact ha
  have hlim : a < ULIM.toNat ∧ BitVec.ofNat 32 a < ULIM := by
    rw [BitVec.lt_def, hof, toNat_ULIM]
    omega
  have hsplit : USER_W = PTE_P ||| (PTE_U ||| PTE_W ||| PTE_U) := by decide
  rw [accessOf_eq_write, h.translate_write_iff hd hva, Accessible, userPage, and_iff_right hlim.1,
    and_iff_right hlim.2]
  generalize BitVec.ofNat 32 a = va at hva
  by_cases hP : present (s.mem d (PDX va))
  · have hpte : s.load ⟨ppn (s.mem d (PDX va)), PTX va⟩ = pteOf s d (PGNUM va) := by
      rw [pteOf_PGNUM, if_pos hP]
      rfl
    constructor
    · rintro ⟨pte, hwalk, hpres, hperm⟩
      rw [pgdirWalk_present false hP (h.pde_lt hd (PDX_lt va) hP)] at hwalk
      cases hwalk
      rw [hpte] at hpres hperm
      rw [hsplit, BitVec.and_or_distrib_left, present_iff.mp hpres, hperm]
    · intro hw
      refine ⟨_, pgdirWalk_present false hP (h.pde_lt hd (PDX_lt va) hP), ?_, ?_⟩
      · rw [hpte]
        exact UserFlags.write.entry hw
      · have hsub : USER_W &&& (PTE_U ||| PTE_W ||| PTE_U) = PTE_U ||| PTE_W ||| PTE_U := by decide
        rw [hpte, ← hsub, ← BitVec.and_assoc, hw]
  · refine iff_of_false ?_ ?_
    · rintro ⟨pte, hwalk, -⟩
      rw [pgdirWalk_absent hP] at hwalk
      cases hwalk
    · rw [pteOf_PGNUM, if_neg hP]
      decide

/-- `user_mem_check` for a frame below `UTOP`. -/
theorem userMemCheck_write (h : PmapInv R D l s) (hd : d ∈ D) (va len : Word) (hlen : 1 ≤ len.toNat)
    (hva : va.toNat + len.toNat ≤ UTOP.toNat) :
    userMemCheck s d va len (PTE_U ||| PTE_W ||| PTE_U) = .ok .ok ↔
      canWrite (accessOf s d) va len.toNat = true := by
  have hU : UTOP.toNat = 0xeec00000 := toNat_UTOP
  have haddr : ∀ i < len.toNat, va + BitVec.ofNat 32 i = BitVec.ofNat 32 (va.toNat + i) := by
    intro i hi
    apply BitVec.eq_of_toNat_eq
    rw [BitVec.toNat_add, BitVec.toNat_ofNat, BitVec.toNat_ofNat]
    omega
  rw [(checksRange_of_le hlen (by omega)).1, canWrite_iff]
  constructor
  · intro hall i hi
    rw [haddr i hi]
    exact (h.accessible_write_iff hd (by omega)).mp (hall _ (by omega) (by omega))
  · intro hall a ha ha'
    refine (h.accessible_write_iff hd (by omega)).mpr ?_
    have hi := hall (a - va.toNat) (by omega)
    rwa [haddr _ (by omega), Nat.add_sub_cancel' ha] at hi

end PmapInv

/-! ## `page_fault_handler` -/

/-- Of a page fault in user mode, `page_fault_handler` makes the step to the upcall, with the new frame in memory
and the trap frame changed to match, or ends the environment. -/
theorem pageFaultHandler_enterUpcall (h : KernelInv R D l k) (hcur : k.curenv c = some cur)
    (hdir : (k.envs cur).envPgdir = some d) (hcr3 : (k.cpus c).cr3 = d) (hcs : tf.cs &&& 3#32 ≠ 0#32)
    (faultVa : Word) :
    match enterUpcall (k.envs cur).envPgfaultUpcall faultVa tf
      (userOf k.pmap d tf (h.pmap.ulim (h.envs.dir cur d hdir))) with
    | none => pageFaultHandler k c faultVa tf = envDestroy k c cur
    | some σ => ∃ s hs, σ = userOf s d
          { tf with eip := (k.envs cur).envPgfaultUpcall, esp := utfAddr tf } hs ∧
        pageFaultHandler k c faultVa tf = envRun (Kernel.setEnv { k with pmap := s } cur
          { k.envs cur with envTf := { (k.envs cur).envTf with
              eip := (k.envs cur).envPgfaultUpcall, esp := utfAddr tf } }) c cur := by
  have hd : d ∈ D := h.envs.dir cur d hdir
  have hulim := h.pmap.ulim hd
  have hsize : UTF_SIZE.toNat = 56 := by decide
  have htop := (utfAddr_frameAt tf).top
  have hU : UTOP.toNat = 0xeec00000 := toNat_UTOP
  have hcheck := h.pmap.userMemCheck_write hd (utfAddr tf) UTF_SIZE (by omega) (by omega)
  obtain ⟨r, hr, -⟩ : Except.Returns (userMemCheck k.pmap d (utfAddr tf) UTF_SIZE (PTE_U ||| PTE_W ||| PTE_U))
      fun _ => True := h.pmap.userMemCheckFrom_returns hd _ _ _
  have hfails : memCheckFails k cur (utfAddr tf) UTF_SIZE (PTE_U ||| PTE_W ||| PTE_U)
      = .ok (decide (r ≠ .ok)) := by
    simp only [memCheckFails, pgdirOf_some hdir, Except.ok_bind, hr]
    rfl
  rw [hr] at hcheck
  have hcond : (k.envs cur).envPgfaultUpcall ≠ 0#32 ∧
      canWrite (userOf k.pmap d tf hulim).access (utfAddr tf) UTF_SIZE.toNat = true ↔
      (k.envs cur).envPgfaultUpcall ≠ 0#32 ∧ r = .ok := by
    refine and_congr_right fun _ => hcheck.symm.trans ?_
    exact ⟨fun hc => Except.ok.inj hc, fun hc => congrArg Except.ok hc⟩
  by_cases hok : (k.envs cur).envPgfaultUpcall ≠ 0#32 ∧ r = .ok
  · have hwrite := (hcond.mpr hok).2
    have hlen := utrapframe_length faultVa tf
    obtain ⟨s, hs⟩ := h.pmap.copyTo_returns hd (utrapframe faultVa tf) (utfAddr tf)
      (by rw [hlen]; omega) (by rw [hlen, canWrite_iff]; exact fun i hi => canWrite_iff.mp hwrite i (by omega))
    obtain ⟨hmem, hpage, haccess⟩ := h.pmap.copyTo_phys hd (by rw [hlen]; omega) hs
    rw [enterUpcall, if_pos (hcond.mpr hok)]
    refine ⟨s, by rw [haccess]; exact hulim, ?_, ?_⟩
    · have hreg : Function.update tf.reg .esp (utfAddr tf)
          = Trapframe.reg { tf with eip := (k.envs cur).envPgfaultUpcall, esp := utfAddr tf } := by
        funext r
        cases r <;> rfl
      simp only [userOf, hmem, hpage, haccess, hreg]
    · unfold pageFaultHandler
      rw [if_neg hcs]
      simp only [hcur]
      rw [if_pos hok.1, hfails, hcr3]
      simp only [Except.ok_bind, hok.2, ne_eq, not_true_eq_false, decide_false, Bool.false_eq_true,
        if_false, hs]
  · rw [enterUpcall, if_neg fun hc => hok (hcond.mp hc)]
    show pageFaultHandler k c faultVa tf = envDestroy k c cur
    unfold pageFaultHandler
    rw [if_neg hcs]
    simp only [hcur]
    by_cases hup : (k.envs cur).envPgfaultUpcall ≠ 0#32
    · have hbad : r ≠ .ok := fun hc => hok ⟨hup, hc⟩
      rw [if_pos hup, hfails]
      simp only [Except.ok_bind, decide_eq_true_eq]
      rw [if_pos hbad]
    · rw [if_neg hup]

end Jos
