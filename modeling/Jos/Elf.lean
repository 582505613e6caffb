import Jos.LoadIcode

/-!
# ELF images

`load_icode` as the source has it: it checks the magic number of the image, walks the table of program headers and
loads those of type `ELF_PROG_LOAD`. What it reads of the image is a `Program` (`program`), so the results about
programs apply (`loadIcode_eq`).

The pages of a segment are those that `region_alloc` maps: from the page of `p_va` to the rounded end. These are the
pages that the segment touches, unless it is empty. An empty segment touches no page, but if `p_va` is not aligned, it
gets the one that `p_va` lies in.
-/

namespace Jos.Elf

open Pmap ByteMem

/-! ## The image (`inc/elf.h`) -/

/-- The bytes in memory from `binary` on. Offsets wrap, as pointers do. -/
abbrev Image := Word → BitVec 8

def ELF_MAGIC : Word := 0x464C457F#32
def ELF_PROG_LOAD : Word := 1#32

/-- The fields of `struct Elf` that `load_icode` uses. -/
structure Ehdr where
  eMagic : Word
  eEntry : Word
  ePhoff : Word
  ePhnum : BitVec 16

/-- The fields of `struct Proghdr` that `load_icode` uses. -/
structure Proghdr where
  pType : Word
  pOffset : Word
  pVa : Word
  pFilesz : Word
  pMemsz : Word

/-- `memcpy(&Ehdr, binary, sizeof(struct Elf))`. -/
def ehdr (binary : Image) : Ehdr where
  eMagic := load binary 0#32
  eEntry := load binary 24#32
  ePhoff := load binary 28#32
  ePhnum := binary 45#32 ++ binary 44#32

/-- `ph[i]`. -/
def proghdr (binary : Image) (i : Nat) : Proghdr :=
  let ph := (ehdr binary).ePhoff + BitVec.ofNat 32 (32 * i)
  { pType := load binary ph
    pOffset := load binary (ph + 4#32)
    pVa := load binary (ph + 8#32)
    pFilesz := load binary (ph + 16#32)
    pMemsz := load binary (ph + 20#32) }

/-- The `p_filesz` bytes from `binary + p_offset` on. -/
def fileBytes (binary : Image) (ph : Proghdr) : List (BitVec 8) :=
  (List.range ph.pFilesz.toNat).map fun i => binary (ph.pOffset + BitVec.ofNat 32 i)

/-! ## `load_icode` -/

/-- The body of the loop of `load_icode`. -/
def loadProghdr (d : Nat) (binary : Image) (s : Pmap) (ph : Proghdr) : Except Panic Pmap :=
  if ph.pType = ELF_PROG_LOAD then do
    let s ← regionAlloc s d ph.pVa ph.pMemsz
    let s ← copyTo d (fileBytes binary ph) ph.pVa s
    if ph.pFilesz < ph.pMemsz then
      copyTo d (List.replicate (ph.pMemsz - ph.pFilesz).toNat 0#8) (ph.pVa + ph.pFilesz) s
    else
      return s
  else
    return s

/-- `load_icode`. The directory of `e` is in force during the loop. -/
def loadIcode (k : Kernel) (e : Nat) (binary : Image) : Except Panic Kernel :=
  if (ehdr binary).eMagic ≠ ELF_MAGIC then
    throw .elfMagic
  else do
    let d ← pgdirOf k e
    let s ← (List.range (ehdr binary).ePhnum.toNat).foldlM (fun s i => loadProghdr d binary s (proghdr binary i))
      k.pmap
    let k := { k with pmap := s }
    let k := k.setEnv e { k.envs e with envTf := { (k.envs e).envTf with eip := (ehdr binary).eEntry } }
    let s ← regionAlloc k.pmap d (USTACKTOP - BitVec.ofNat 32 PGSIZE) (BitVec.ofNat 32 PGSIZE)
    return { k with pmap := s }

/-! ## Images as programs -/

/-- The loadable program headers, in the order of the table. -/
def loads (binary : Image) : List Proghdr :=
  ((List.range (ehdr binary).ePhnum.toNat).map (proghdr binary)).filter fun ph => ph.pType = ELF_PROG_LOAD

/-- What a program header describes. -/
def segment (binary : Image) (ph : Proghdr) : Segment := ⟨ph.pVa, ph.pMemsz, fileBytes binary ph⟩

/-- The program in an image. -/
def program (binary : Image) : Program := ⟨(loads binary).map (segment binary), (ehdr binary).eEntry⟩

/-- The pages that `region_alloc` maps for a program header. -/
def Proghdr.pages (ph : Proghdr) : Finset Nat := regionPages ph.pVa ph.pMemsz

variable {binary : Image} {ph : Proghdr} {R : Set Nat} {D : Finset Nat} {l : List Nat} {k k₁ : Kernel} {e : Nat}

@[simp] theorem fileBytes_length : (fileBytes binary ph).length = ph.pFilesz.toNat := by
  rw [fileBytes, List.length_map, List.length_range]

theorem fileBytes_getD (i : Nat) : (fileBytes binary ph).getD i 0#8
    = if i < ph.pFilesz.toNat then binary (ph.pOffset + BitVec.ofNat 32 i) else 0#8 := by
  by_cases hi : i < ph.pFilesz.toNat
  · rw [if_pos hi, List.getD_eq_getElem _ _ (by rwa [fileBytes_length])]
    simp only [fileBytes, List.getElem_map, List.getElem_range]
  · rw [if_neg hi, List.getD_eq_default _ _ (by rw [fileBytes_length]; omega)]

theorem loadProghdr_eq (d : Nat) (s : Pmap) (hload : ph.pType = ELF_PROG_LOAD) :
    loadProghdr d binary s ph = loadSegment d s (segment binary ph) := by
  rw [loadProghdr, if_pos hload, loadSegment]
  refine congrArg (regionAlloc s d ph.pVa ph.pMemsz >>= ·) (funext fun s₁ => ?_)
  refine congrArg (copyTo d (fileBytes binary ph) ph.pVa s₁ >>= ·) (funext fun s₂ => ?_)
  simp only [segment, fileBytes_length, BitVec.ofNat_toNat, BitVec.setWidth_eq]
  split
  · next hlt =>
    rw [BitVec.toNat_sub_of_le (BitVec.le_of_lt hlt)]
  · next hge =>
    rw [BitVec.lt_def] at hge
    rw [Nat.sub_eq_zero_of_le (by omega)]
    rfl

/-- An image with the right magic number is loaded as its program. -/
theorem loadIcode_eq (hmagic : (ehdr binary).eMagic = ELF_MAGIC) :
    loadIcode k e binary = Jos.loadIcode k e (program binary) := by
  have hloop : ∀ d s, (List.range (ehdr binary).ePhnum.toNat).foldlM
      (fun s i => loadProghdr d binary s (proghdr binary i)) s
      = (program binary).segments.foldlM (loadSegment d) s := by
    intro d s
    rw [program, loads, List.foldlM_map, List.foldlM_filter, List.foldlM_map]
    refine congrArg (fun f => List.foldlM f s _) (funext fun s => funext fun i => ?_)
    by_cases hload : (proghdr binary i).pType = ELF_PROG_LOAD
    · rw [if_pos (decide_eq_true hload), loadProghdr_eq d s hload]
    · rw [if_neg (by simpa using hload), loadProghdr, if_neg hload]
  rw [loadIcode, if_neg (not_not_intro hmagic), Jos.loadIcode]
  simp only [hloop]
  rfl

/-! ## Pages -/

/-- The page `v` has a byte of the segment. -/
def Proghdr.Touches (ph : Proghdr) (v : Nat) : Prop :=
  ∃ a, ph.pVa.toNat ≤ a ∧ a < ph.pVa.toNat + ph.pMemsz.toNat ∧ a / 4096 = v

/-- A segment gets the pages it touches, and an empty segment the page of an unaligned `p_va`. -/
theorem Proghdr.mem_pages {v : Nat} : v ∈ ph.pages ↔
    ph.Touches v ∨ (ph.pMemsz = 0#32 ∧ ¬ 4096 ∣ ph.pVa.toNat ∧ v = ph.pVa.toNat / 4096) := by
  have hzero : ph.pMemsz = 0#32 ↔ ph.pMemsz.toNat = 0 := by
    rw [← BitVec.toNat_inj]
    rfl
  rw [Proghdr.pages, regionPages, Finset.mem_Ico, hzero]
  constructor
  · rintro ⟨hlow, hhigh⟩
    by_cases hempty : ph.pMemsz.toNat = 0
    · exact Or.inr ⟨hempty, by omega, by omega⟩
    · exact Or.inl ⟨max ph.pVa.toNat (v * 4096), le_max_left .., by omega, by omega⟩
  · rintro (⟨a, hlow, hhigh, rfl⟩ | ⟨hempty, hal, rfl⟩)
    · omega
    · omega

/-- The pages of an image: those of its loadable segments, and one for the stack. -/
def pages (binary : Image) : Finset Nat := (program binary).pages

theorem mem_pages {v : Nat} : v ∈ pages binary ↔ (∃ ph ∈ loads binary, v ∈ ph.pages) ∨ v = STACKPN := by
  rw [pages, Program.pages, Finset.mem_union, Finset.mem_singleton, mem_segPages]
  refine or_congr_left ?_
  rw [program]
  simp only [List.mem_map, exists_exists_and_eq_and]
  rfl

/-! ## Loading an image -/

/-- An image that `load_icode` may be given: the magic number is right, and the loadable segments have
`p_filesz <= p_memsz`, lie below the stack and have no page in common. -/
structure Loadable (binary : Image) : Prop where
  magic : (ehdr binary).eMagic = ELF_MAGIC
  file : ∀ ph ∈ loads binary, ph.pFilesz ≤ ph.pMemsz
  below : ∀ ph ∈ loads binary, ph.pVa.toNat + ph.pMemsz.toNat ≤ (USTACKTOP - BitVec.ofNat 32 PGSIZE).toNat
  disjoint : (loads binary).Pairwise fun x y => Disjoint x.pages y.pages

theorem Loadable.program (h : Loadable binary) : (Elf.program binary).Loadable where
  below seg hseg := by
    obtain ⟨ph, hph, rfl⟩ := List.mem_map.mp hseg
    exact h.below ph hph
  file seg hseg := by
    obtain ⟨ph, hph, rfl⟩ := List.mem_map.mp hseg
    exact fileBytes_length.trans_le (h.file ph hph)
  disjoint := List.pairwise_map.mpr h.disjoint

/-- `load_icode` loads an image into the environment that `env_alloc` has just made, if there are enough free pages:
each loadable segment has its file contents and zeros after them; the pages of the segments and the page of the stack
are mapped for user code to write, and no others; the environment starts at `e_entry`; and neither the kernel's
directory nor any other environment has changed. -/
theorem loadIcode_faithful {pid : Word} (h : KernelInv R D l k) (halloc : envAlloc k pid = .ok (.ok e, k₁))
    (hbin : Loadable binary) (hroom : pagesFor (pages binary) < l.length) :
    ∃ d k₂, (k₁.envs e).envPgdir = some d ∧ loadIcode k₁ e binary = .ok k₂ ∧
      (∀ ph ∈ loads binary, ∀ i < ph.pMemsz.toNat,
        loadByte k₂.pmap d (ph.pVa + BitVec.ofNat 32 i) USER_R
          = some (if i < ph.pFilesz.toNat then binary (ph.pOffset + BitVec.ofNat 32 i) else 0#8)) ∧
      (∀ v < NUVPN, v ∈ pages binary → pteOf k₂.pmap d v &&& USER_W = USER_W) ∧
      (∀ v < NUVPN, v ∉ pages binary → ¬ present (pteOf k₂.pmap d v)) ∧
      (k₂.envs e).envTf.eip = (ehdr binary).eEntry ∧ Loaded k₁ e d (program binary) k₂ := by
  obtain ⟨d, k₂, hpg, hcode, hloaded⟩ := h.loadIcode_fresh halloc hbin.program hroom
  refine ⟨d, k₂, hpg, (loadIcode_eq hbin.magic).trans hcode, fun ph hph i hi => ?_, fun v _ => hloaded.mapped v,
    hloaded.unmapped, hloaded.eip, hloaded⟩
  rw [← fileBytes_getD]
  exact hloaded.segments (segment binary ph) (List.mem_map_of_mem hph) i hi

/-- An image with one loadable segment, with its bytes given as words. -/
def demoElf (va filesz memsz : Word) : Image := fun off =>
  byteOf ([ELF_MAGIC, 0#32, 0#32, 0#32, 0#32, 0#32, 0x800020#32, 52#32, 0#32, 0#32, 0#32, 1#32, 0#32,
    ELF_PROG_LOAD, 84#32, va, 0#32, filesz, memsz, 0#32, 0#32, 0x0000BEEF#32].getD (off.toNat / 4) 0#32) (off.toNat % 4)

/-- A kernel that has come to `env_init`, with memory to spare. -/
theorem demoBoot_envInit : ∃ s l k k₁, KernelInv (notFree s) ∅ l k ∧ 15000 ≤ l.length ∧
    envAlloc k 0#32 = .ok (.ok 0, k₁) := by
  obtain ⟨s, l, ep, -, hb, hroom, -, -⟩ := demoBoot_booted
  have hlen : 15000 ≤ l.length := by
    have := kernTables_le s
    omega
  have hinit := envInit_inv (k := ⟨s, fun _ => {}, none, fun _ => {}, []⟩) rfl
  have h := envInit_kernelInv (k := ⟨s, fun _ => {}, none, fun _ => {}, []⟩) hb.pmapInv rfl
    (fun _ => rfl) fun _ => rfl
  generalize envInit ⟨s, fun _ => {}, none, fun _ => {}, []⟩ = k at hinit h
  obtain ⟨m, hn⟩ : ∃ m, NENV = m + 1 := ⟨1023, rfl⟩
  have hlinked := hinit.linked
  rw [Nat.sub_self, hn, List.range'_succ] at hlinked
  rcases h.envAlloc_cases 0#32 with ⟨e, p, l', hhead, -, -, -, hcode, -⟩ | ⟨hno, -, -⟩
  · obtain rfl : e = 0 := Option.some.inj (hhead.symm.trans hlinked.1)
    exact ⟨s, l, k, _, h, hlen, hcode⟩
  · rcases hno with hno | rfl
    · rw [hlinked.1] at hno
      cases hno
    · exact absurd hlen (by decide)

/-- Two bytes of file contents and three zeros. -/
theorem loadIcode_faithful_demoBoot : ∃ k₁ d k₂, (k₁.envs 0).envPgdir = some d ∧
    loadIcode k₁ 0 (demoElf 0x800020#32 2#32 5#32) = .ok k₂ ∧
    loadByte k₂.pmap d 0x800020#32 USER_R = some 0xEF#8 ∧ loadByte k₂.pmap d 0x800021#32 USER_R = some 0xBE#8 ∧
    loadByte k₂.pmap d 0x800022#32 USER_R = some 0#8 ∧ (k₂.envs 0).envTf.eip = 0x800020#32 := by
  obtain ⟨s, l, k, k₁, h, hlen, halloc⟩ := demoBoot_envInit
  have hloads : loads (demoElf 0x800020#32 2#32 5#32) = [⟨ELF_PROG_LOAD, 84#32, 0x800020#32, 2#32, 5#32⟩] := by rfl
  have hbin : Loadable (demoElf 0x800020#32 2#32 5#32) := by
    refine ⟨by decide, ?_, ?_, ?_⟩
    · rw [hloads]
      decide
    · rw [hloads]
      decide
    · rw [hloads]
      exact List.pairwise_singleton ..
  have hroom : pagesFor (pages (demoElf 0x800020#32 2#32 5#32)) = 4 := by
    decide
  obtain ⟨d, k₂, hpg, hcode, hbytes, -, -, heip, -⟩ := loadIcode_faithful h halloc hbin (by omega)
  rw [hloads] at hbytes
  have hbyte := hbytes _ (List.mem_singleton_self _)
  exact ⟨k₁, d, k₂, hpg, hcode, hbyte 0 (by decide), hbyte 1 (by decide), hbyte 2 (by decide), heip⟩

/-- An empty segment at `0x800010` gets a page, which no segment touches. -/
theorem loadIcode_maps_untouched : ∃ R D l k k₁ d k₂, KernelInv R D l k ∧ envAlloc k 0#32 = .ok (.ok 0, k₁) ∧
    (k₁.envs 0).envPgdir = some d ∧ pagesFor (pages (demoElf 0x800010#32 0#32 0#32)) < l.length ∧
    (ehdr (demoElf 0x800010#32 0#32 0#32)).eMagic = ELF_MAGIC ∧
    (∀ ph ∈ loads (demoElf 0x800010#32 0#32 0#32), ph.pFilesz ≤ ph.pMemsz ∧
      ph.pVa.toNat + ph.pMemsz.toNat ≤ (USTACKTOP - BitVec.ofNat 32 PGSIZE).toNat) ∧
    (loads (demoElf 0x800010#32 0#32 0#32)).Pairwise (fun x y => ∀ v, ¬ (x.Touches v ∧ y.Touches v)) ∧
    loadIcode k₁ 0 (demoElf 0x800010#32 0#32 0#32) = .ok k₂ ∧ present (pteOf k₂.pmap d 0x800) ∧
    (∀ ph ∈ loads (demoElf 0x800010#32 0#32 0#32), ¬ ph.Touches 0x800) ∧ 0x800 ≠ STACKPN ∧ 0x800 < NUVPN := by
  obtain ⟨s, l, k, k₁, h, hlen, halloc⟩ := demoBoot_envInit
  have hloads : loads (demoElf 0x800010#32 0#32 0#32) = [⟨ELF_PROG_LOAD, 84#32, 0x800010#32, 0#32, 0#32⟩] := by rfl
  have hroom : pagesFor (pages (demoElf 0x800010#32 0#32 0#32)) = 4 := by decide
  have hmagic : (ehdr (demoElf 0x800010#32 0#32 0#32)).eMagic = ELF_MAGIC := by decide
  have hbounds : ∀ ph ∈ loads (demoElf 0x800010#32 0#32 0#32), ph.pFilesz ≤ ph.pMemsz ∧
      ph.pVa.toNat + ph.pMemsz.toNat ≤ (USTACKTOP - BitVec.ofNat 32 PGSIZE).toNat := by
    rw [hloads]
    decide
  have hbin : Loadable (demoElf 0x800010#32 0#32 0#32) := by
    refine ⟨hmagic, fun ph hph => (hbounds ph hph).1, fun ph hph => (hbounds ph hph).2, ?_⟩
    rw [hloads]
    exact List.pairwise_singleton ..
  obtain ⟨d, k₂, hpg, hcode, hloaded⟩ := h.loadIcode_fresh halloc hbin.program (by
    rw [pages] at hroom
    omega)
  have hpresent : present (pteOf k₂.pmap d 0x800) := UserFlags.write.entry (hloaded.mapped 0x800 (by decide))
  refine ⟨_, _, l, k, k₁, d, k₂, h, halloc, hpg, by omega, hmagic, hbounds, ?_,
    (loadIcode_eq hmagic).trans hcode, hpresent, ?_, by decide, by decide⟩
  · rw [hloads]
    exact List.pairwise_singleton ..
  · rw [hloads]
    intro ph hph
    rw [List.mem_singleton.mp hph]
    rintro ⟨a, hlow, hhigh, -⟩
    exact absurd (hlow.trans_lt hhigh) (Nat.lt_irrefl _)

end Jos.Elf
