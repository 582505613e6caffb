import Jos.Lib.Synchronous
import Jos.Allocator

/-!
# `boot_alloc`

The allocator of `kern/pmap.c` for the time before there is a free list. It keeps the address of the next free byte in a
static variable, and hands out one chunk behind the other. It is meant to panic when memory runs out, but compares the
address with nothing. So the chunks are right just as long as they fit into the memory there is, and into the 4 MB that
`entry_pgdir` maps (`bootAlloc_lawful_iff`). What `mem_init` asks for grows with the size of memory, and with 2 GB it
does not fit (`bootAlloc_overflows`).
-/

namespace Jos

open Synchronous

/-- A chunk that has been handed out: its address and the size asked for. -/
structure BootChunk where
  addr : Word
  size : Word

/-- The static variable of `boot_alloc`, and the chunks handed out so far. -/
structure BootHeap where
  nextfree : Word
  chunks : List BootChunk

namespace BootHeap

/-- Before the first call. -/
def start : BootHeap := ⟨0#32, []⟩

/-- `nextfree`, once it has been initialised. -/
def cursor (b : BootInfo) (σ : BootHeap) : Word :=
  if σ.nextfree = 0#32 then ROUNDUP b.kernEnd PGSIZE else σ.nextfree

/-- What `boot_alloc(n)` returns. It never panics. -/
def result (b : BootInfo) (σ : BootHeap) (n : Word) : Word := (bootAlloc (σ.cursor b) n.toNat).1

/-- `boot_alloc(n)`. -/
def next (b : BootInfo) (σ : BootHeap) (n : Word) : BootHeap where
  nextfree := (bootAlloc (σ.cursor b) n.toNat).2
  chunks := if n = 0#32 then σ.chunks else σ.chunks ++ [⟨σ.result b n, n⟩]

end BootHeap

/-! ## The law -/

/-- A number of bytes in whole pages. -/
def wholePages (n : Nat) : Nat := (n + 4095) / 4096 * 4096

/-- The end of the memory that can be handed out. -/
def bootLimit (b : BootInfo) : Nat := KERNBASE.toNat + min (b.npages * PGSIZE) PTSIZE

/-- The law of a call. A request for `n` bytes returns a chunk of whole pages in the memory that there is and that
`entry_pgdir` maps, outside the kernel image and the chunks before. A request for nothing returns the end of the last
chunk and changes nothing. -/
structure BootLawful (b : BootInfo) (σ : BootHeap) (n : Word) : Prop where
  aligned : n ≠ 0#32 → (σ.result b n).toNat % PGSIZE = 0
  image : n ≠ 0#32 → b.kernEnd.toNat ≤ (σ.result b n).toNat
  chunks : n ≠ 0#32 → ∀ c ∈ σ.chunks, c.addr.toNat + c.size.toNat ≤ (σ.result b n).toNat ∨
    (σ.result b n).toNat + n.toNat ≤ c.addr.toNat
  memory : n ≠ 0#32 → (σ.result b n).toNat + n.toNat ≤ KERNBASE.toNat + b.npages * PGSIZE
  mapped : n ≠ 0#32 → KERNBASE.toNat ≤ (σ.result b n).toNat ∧
    (σ.result b n).toNat + n.toNat ≤ KERNBASE.toNat + PTSIZE
  last : n = 0#32 → ∀ c, σ.chunks.getLast? = some c →
    (σ.result b n).toNat = wholePages (c.addr.toNat + c.size.toNat)
  unchanged : n = 0#32 → (σ.next b n).cursor b = σ.cursor b ∧ (σ.next b n).chunks = σ.chunks

/-! ## When it holds -/

/-- The heap has used the memory up to `τ`. -/
structure BootUsed (b : BootInfo) (σ : BootHeap) (τ : Nat) : Prop where
  cursor : (σ.cursor b).toNat = τ % 2 ^ 32
  ge : wholePages b.kernEnd.toNat ≤ τ
  aligned : τ % 4096 = 0
  chunks : ∀ c ∈ σ.chunks, c.addr.toNat + c.size.toNat ≤ τ
  last : ∀ c, σ.chunks.getLast? = some c → τ = wholePages (c.addr.toNat + c.size.toNat)
  empty : σ.chunks = [] → τ = wholePages b.kernEnd.toNat
  le : σ.chunks ≠ [] → τ ≤ bootLimit b

section Law

variable {b : BootInfo} {σ : BootHeap} {τ : Nat} {n : Word}

theorem bootUsed_start (b : BootInfo) : BootUsed b .start (wholePages b.kernEnd.toNat) where
  cursor := by
    show (ROUNDUP b.kernEnd PGSIZE).toNat = _
    rw [toNat_ROUNDUP]
    rfl
  ge := le_rfl
  aligned := Nat.mul_mod_left _ _
  chunks _ hc := absurd hc List.not_mem_nil
  last _ hc := nomatch hc
  empty _ := rfl
  le hne := absurd rfl hne

theorem bootLimit_bounds (b : BootInfo) : bootLimit b % 4096 = 0 ∧ bootLimit b ≤ 0xF0400000 ∧
    bootLimit b ≤ KERNBASE.toNat + b.npages * PGSIZE ∧ bootLimit b ≤ KERNBASE.toNat + PTSIZE ∧
    ∀ x, x ≤ KERNBASE.toNat + b.npages * PGSIZE → x ≤ KERNBASE.toNat + PTSIZE → x ≤ bootLimit b := by
  have hk : KERNBASE.toNat = 0xF0000000 := by decide
  have hp : PTSIZE = 4194304 := by decide
  have hs : PGSIZE = 4096 := rfl
  simp only [bootLimit, hk, hp, hs]
  refine ⟨?_, ?_, ?_, ?_, fun x hx hx' => ?_⟩ <;> omega

/-- The cursor moves to the end of the chunk, in whole pages. -/
theorem BootHeap.next_nextfree (b : BootInfo) (σ : BootHeap) (n : Word) :
    (σ.next b n).nextfree.toNat = wholePages (((σ.cursor b).toNat + n.toNat) % 2 ^ 32) % 2 ^ 32 := by
  have hadd : (σ.cursor b + BitVec.ofNat 32 n.toNat).toNat = ((σ.cursor b).toNat + n.toNat) % 2 ^ 32 := by
    rw [BitVec.toNat_add, BitVec.ofNat_toNat, BitVec.setWidth_eq]
  rw [BootHeap.next, bootAlloc, toNat_ROUNDUP, hadd, wholePages]
  norm_num

theorem BootHeap.cursor_of_ne {b : BootInfo} {σ : BootHeap} (h : σ.nextfree ≠ 0#32) : σ.cursor b = σ.nextfree :=
  if_neg h

theorem BootHeap.next_chunks_zero (b : BootInfo) (σ : BootHeap) : (σ.next b 0#32).chunks = σ.chunks := by
  rw [BootHeap.next, if_pos rfl]

namespace BootUsed

variable (h : BootUsed b σ τ)
include h

theorem le_size : τ ≤ 2 ^ 32 := by
  have hlimit := (bootLimit_bounds b).2.1
  by_cases hne : σ.chunks = []
  · have hend := b.kernEnd.isLt
    rw [h.empty hne, wholePages]
    omega
  · have := h.le hne
    omega

theorem result_toNat (n : Word) : (σ.result b n).toNat = τ % 2 ^ 32 := h.cursor

/-- A request for nothing leaves the cursor where it is. -/
theorem cursor_zero : (σ.next b 0#32).cursor b = σ.cursor b := by
  have hsame : (σ.next b 0#32).nextfree = σ.cursor b := by
    have haligned := h.aligned
    apply BitVec.eq_of_toNat_eq
    rw [BootHeap.next_nextfree, h.cursor, wholePages, BitVec.toNat_zero]
    omega
  rw [BootHeap.cursor, hsame]
  split
  case isTrue hzero =>
    -- The cursor is zero only if the image ends within the last page.
    rw [BootHeap.cursor] at hzero ⊢
    by_cases hfirst : σ.nextfree = 0#32
    · rw [if_pos hfirst]
    · rw [if_neg hfirst] at hzero
      exact absurd hzero hfirst
  case isFalse => rfl

/-- A call is lawful exactly when the memory it asks for is there. -/
theorem lawful_iff : BootLawful b σ n ↔ (n ≠ 0#32 → τ + n.toNat ≤ bootLimit b) := by
  obtain ⟨-, hlimit, hmem, hmap, hle⟩ := bootLimit_bounds b
  have hsize := h.le_size
  have hk : KERNBASE.toNat = 0xF0000000 := by decide
  constructor
  · intro hlaw hn
    have hmapped := hlaw.mapped hn
    have hmemory := hlaw.memory hn
    rw [h.result_toNat] at hmapped hmemory
    have hτ : τ % 2 ^ 32 = τ := by omega
    rw [hτ] at hmapped hmemory
    exact hle _ hmemory hmapped.2
  · intro hfit
    have hτ : n ≠ 0#32 → (σ.result b n).toNat = τ := by
      intro hn
      have := hfit hn
      rw [h.result_toNat]
      omega
    have hend : b.kernEnd.toNat ≤ τ ∧ KERNBASE.toNat ≤ τ := by
      have hge := h.ge
      have hstart : 0xF0100000 ≤ b.kernEnd.toNat := b.end_ge
      unfold wholePages at hge
      omega
    refine ⟨fun hn => ?_, fun hn => ?_, fun hn c hc => Or.inl ?_, fun hn => ?_, fun hn => ?_, fun hn c hc => ?_, ?_⟩
    · rw [hτ hn]
      exact h.aligned
    · rw [hτ hn]
      exact hend.1
    · rw [hτ hn]
      exact h.chunks c hc
    · rw [hτ hn]
      exact (hfit hn).trans hmem
    · rw [hτ hn]
      exact ⟨hend.2, (hfit hn).trans hmap⟩
    · have hne : σ.chunks ≠ [] := by
        intro hnil
        rw [hnil] at hc
        cases hc
      have := h.le hne
      rw [h.result_toNat, ← h.last c hc]
      omega
    · rintro rfl
      exact ⟨h.cursor_zero, σ.next_chunks_zero b⟩

/-- A lawful call uses up the pages of its request. -/
theorem next (hfit : n ≠ 0#32 → τ + n.toNat ≤ bootLimit b) :
    BootUsed b (σ.next b n) (τ + wholePages n.toNat) := by
  obtain ⟨hround, hlimit, -⟩ := bootLimit_bounds b
  have haligned := h.aligned
  by_cases hn : n = 0#32
  · subst hn
    have hchunks := σ.next_chunks_zero b
    have hτ : τ + wholePages (0#32 : Word).toNat = τ := rfl
    rw [hτ]
    refine ⟨?_, h.ge, haligned, ?_, ?_, ?_, ?_⟩
    · rw [h.cursor_zero, h.cursor]
    · rw [hchunks]
      exact h.chunks
    · rw [hchunks]
      exact h.last
    · rw [hchunks]
      exact h.empty
    · rw [hchunks]
      exact h.le
  · have hchunks : (σ.next b n).chunks = σ.chunks ++ [⟨σ.result b n, n⟩] := if_neg hn
    have hfit := hfit hn
    have hge := h.ge
    have hpos : 0 < n.toNat := by
      rw [Nat.pos_iff_ne_zero]
      exact fun hz => hn (BitVec.eq_of_toNat_eq hz)
    have hresult : (σ.result b n).toNat = τ := by
      rw [h.result_toNat]
      omega
    have hend : wholePages (τ + n.toNat) = τ + wholePages n.toNat := by
      unfold wholePages
      omega
    have hbound : τ + wholePages n.toNat ≤ bootLimit b := by
      unfold wholePages
      omega
    have hle : n.toNat ≤ wholePages n.toNat := by
      unfold wholePages
      omega
    have hnextfree : (σ.next b n).nextfree.toNat = τ + wholePages n.toNat := by
      have hτ : τ % 2 ^ 32 = τ := by omega
      have hsum : (τ + n.toNat) % 2 ^ 32 = τ + n.toNat := by omega
      rw [BootHeap.next_nextfree, h.cursor, hτ, hsum, hend]
      omega
    have hne : (σ.next b n).nextfree ≠ 0#32 := by
      intro hz
      rw [hz, BitVec.toNat_zero] at hnextfree
      omega
    refine ⟨?_, ?_, ?_, ?_, ?_, ?_, ?_⟩
    · rw [BootHeap.cursor_of_ne hne, hnextfree]
      omega
    · omega
    · unfold wholePages
      omega
    · intro c hc
      rw [hchunks, List.mem_append, List.mem_singleton] at hc
      obtain hc | rfl := hc
      · have := h.chunks c hc
        omega
      · show (σ.result b n).toNat + n.toNat ≤ _
        omega
    · intro c hc
      rw [hchunks, List.getLast?_concat, Option.some.injEq] at hc
      subst hc
      show _ = wholePages ((σ.result b n).toNat + n.toNat)
      rw [hresult, hend]
    · intro hnil
      rw [hchunks] at hnil
      exact absurd hnil (List.append_ne_nil_of_right_ne_nil _ (List.cons_ne_nil _ _))
    · exact fun _ => hbound

end BootUsed

end Law

/-- Every call of a sequence is lawful exactly when each request for a chunk fits into the memory that is left. -/
theorem bootAlloc_lawful_iff (b : BootInfo) (ns : List Word) :
    Always (BootHeap.next b) (BootLawful b) .start ns ↔
      Always (fun τ n => τ + wholePages n.toNat) (fun τ n => n ≠ 0#32 → τ + n.toNat ≤ bootLimit b)
        (wholePages b.kernEnd.toNat) ns := by
  refine always_congr (R := BootUsed b) ?_ ?_ (bootUsed_start b) ns
  · exact fun _ _ _ h => h.lawful_iff
  · exact fun _ _ _ h hlaw => h.next (h.lawful_iff.mp hlaw)

/-- What `mem_init` asks for: the page directory, `pages` and `envs`. -/
def memInitRequests (b : BootInfo) : List Word :=
  [BitVec.ofNat 32 PGSIZE, BitVec.ofNat 32 (sizeofPageInfo * b.npages), BitVec.ofNat 32 (sizeofEnv * NENV)]

/-- With 2 GB of memory, `pages` takes 4 MB, and ends after what `entry_pgdir` maps. -/
theorem bootAlloc_overflows : ¬ ∀ b, Always (BootHeap.next b) (BootLawful b) .start (memInitRequests b) := by
  intro hall
  obtain ⟨-, hpages, -⟩ := hall { demoBoot with npages := 524288 }
  have hmapped := (hpages.mapped (by decide)).2
  revert hmapped
  decide

end Jos
