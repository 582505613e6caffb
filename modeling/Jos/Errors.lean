import Jos.CallFrame
import Jos.Effects

/-!
# System calls that fail

A system call that returns a negative value has left everything as it was, except for the contents of free
pages (`syscall_failed`): `sys_page_alloc` clears a page before it finds out that there is none left for a page
table, and gives it back.

Which value it returns is the subject of the second half.
-/

namespace Jos

open Pmap Kernel Except

variable {R : Set Nat} {D : Finset Nat} {l : List Nat} {k k' : Kernel} {s s' : Pmap} {c cur d pp : Nat}
  {va perm : Word} {r : Int}

/-! ## Failures of `page_insert` -/

theorem pgdirWalk_fails (h : pgdirWalk s d va true = .ok (none, s')) :
    s' = s ∧ ¬ present (s.mem d (PDX va)) ∧ s.pageFreeList = none := by
  unfold pgdirWalk at h
  simp only at h
  split at h
  · next hP =>
    rw [if_pos trivial] at h
    obtain ⟨⟨p, s₁⟩, hp, hrest⟩ := bind_eq_ok.mp h
    cases p with
    | none =>
      obtain ⟨hs, hlist⟩ := pageAlloc_fails hp
      exact ⟨(Prod.mk.inj (Except.ok.inj hrest)).2.symm.trans hs, hP, hlist⟩
    | some p =>
      obtain ⟨pt, -, hrest⟩ := bind_eq_ok.mp hrest
      exact nomatch (Prod.mk.inj (Except.ok.inj hrest)).1
  · obtain ⟨pt, -, h⟩ := bind_eq_ok.mp h
    exact nomatch (Prod.mk.inj (Except.ok.inj h)).1

/-- `page_insert` returns 0, or finds no page for a page table before it has changed anything. -/
theorem pageInsert_fails (h : pageInsert s d pp va perm = .ok (r, s')) :
    r = 0 ∨ r = -E_NO_MEM ∧ s' = s ∧ ¬ present (s.mem d (PDX va)) ∧ s.pageFreeList = none := by
  unfold pageInsert at h
  obtain ⟨⟨pte, s₁⟩, hwalk, h⟩ := bind_eq_ok.mp h
  cases pte with
  | none =>
    obtain ⟨rfl, rfl⟩ := Prod.mk.inj (Except.ok.inj h)
    exact Or.inr ⟨rfl, pgdirWalk_fails hwalk⟩
  | some pte =>
    simp only at h
    split at h
    · obtain ⟨s₂, -, h⟩ := bind_eq_ok.mp h
      exact Or.inl (Prod.mk.inj (Except.ok.inj h)).1.symm
    · exact Or.inl (Prod.mk.inj (Except.ok.inj h)).1.symm

/-! ## Failed calls change nothing -/

/-- Everything but the contents of the pages in `l` is as it was. -/
structure SameBut (l : List Nat) (k k' : Kernel) : Prop where
  /-- Environments, CPUs and the history, -/
  rest : k' = { k with pmap := k'.pmap }
  /-- reference counts and the links of the free list, -/
  pages : k'.pmap.pages = k.pmap.pages
  list : k'.pmap.pageFreeList = k.pmap.pageFreeList
  npages : k'.pmap.npages = k.pmap.npages
  kern : k'.pmap.kernPgdir = k.pmap.kernPgdir
  mmio : k'.pmap.mmioBase = k.pmap.mmioBase
  /-- and memory. -/
  mem : ∀ p, p ∉ l → k'.pmap.mem p = k.pmap.mem p

theorem SameBut.refl (l : List Nat) (k : Kernel) : SameBut l k k :=
  ⟨rfl, rfl, rfl, rfl, rfl, rfl, fun _ _ => rfl⟩

theorem SameBut.clearPage {p : Nat} (hp : p ∈ l) : SameBut l k { k with pmap := k.pmap.clearPage p } := by
  refine ⟨rfl, rfl, rfl, rfl, rfl, rfl, fun q hq => clearPage_mem_of_ne _ _ ?_⟩
  rintro rfl
  exact hq hp

/-- `sys_page_alloc` may have cleared a free page. -/
theorem MemInv.sysPageAlloc_failed (h : MemInv R D l k) (envid va perm : Word) :
    Post (sysPageAlloc k cur envid va perm) fun x => x.1 < 0 → SameBut l k x.2 := by
  unfold sysPageAlloc
  split
  · exact .ok fun _ => .refl l k
  split
  · exact .ok fun _ => .refl l k
  split
  · exact .ok fun _ => .refl l k
  refine .bind' fun ⟨p, s⟩ hp => ?_
  cases p with
  | none =>
    obtain ⟨rfl, -⟩ := pageAlloc_fails hp
    exact .ok fun _ => .refl l k
  | some p =>
    obtain ⟨l', rfl, rfl⟩ : ∃ l', l = p :: l' ∧ s = k.pmap.fresh p := by
      cases l with
      | nil =>
        rw [pageAlloc_none true h.pmap.free.head_none] at hp
        cases hp
      | cons q l' =>
        rw [h.pmap.pageAlloc_fresh] at hp
        obtain ⟨hq, rfl⟩ := Prod.mk.inj (Except.ok.inj hp)
        obtain rfl := Option.some.inj hq
        exact ⟨l', rfl, rfl⟩
    refine .bind' fun d _ => .bind' fun ⟨r, s'⟩ hins => ?_
    simp only
    split
    · next hr =>
      obtain ⟨-, rfl, -⟩ := (pageInsert_fails hins).resolve_left hr
      rw [h.pmap.fresh_putFree]
      exact .ok fun _ => .clearPage (List.mem_cons_self ..)
    · exact .ok fun hc => absurd hc (lt_irrefl (0 : Int))

theorem sysPageMap_failed (srcenvid srcva dstenvid dstva perm : Word) :
    Post (sysPageMap k cur srcenvid srcva dstenvid dstva perm) fun x => x.1 < 0 → x.2 = k := by
  unfold sysPageMap
  split
  · split
    · exact .ok fun _ => rfl
    split
    · exact .ok fun _ => rfl
    refine .bind' fun sd _ => .bind' fun o _ => ?_
    cases o with
    | none => exact .ok fun _ => rfl
    | some p =>
      simp only
      split
      · exact .ok fun _ => rfl
      refine .bind' fun dd _ => .bind' fun ⟨r, s⟩ hins => ?_
      simp only
      split
      · next hr =>
        obtain ⟨-, rfl, -⟩ := (pageInsert_fails hins).resolve_left hr
        exact .ok fun _ => rfl
      · exact .ok fun hc => absurd hc (lt_irrefl (0 : Int))
  · exact .ok fun _ => rfl

theorem sysPageUnmap_failed (envid va : Word) :
    Post (sysPageUnmap k cur envid va) fun x => x.1 < 0 → x.2 = k := by
  unfold sysPageUnmap
  split
  · exact .ok fun _ => rfl
  split
  · exact .ok fun _ => rfl
  · exact .bind' fun d _ => .bind' fun s _ => .ok fun hc => absurd hc (lt_irrefl (0 : Int))

theorem sysIpcTrySend_failed (envid value srcva perm : Word) :
    Post (sysIpcTrySend k cur envid value srcva perm) fun x => x.1 < 0 → x.2 = k := by
  unfold sysIpcTrySend
  split
  · exact .ok fun _ => rfl
  split
  · exact .ok fun _ => rfl
  split
  · split
    · exact .ok fun _ => rfl
    split
    · exact .ok fun _ => rfl
    refine .bind' fun sd _ => .bind' fun o _ => ?_
    cases o with
    | none => exact .ok fun _ => rfl
    | some p =>
      simp only
      split
      · exact .ok fun _ => rfl
      refine .bind' fun dd _ => .bind' fun ⟨r, s⟩ hins => ?_
      simp only
      split
      · next hr =>
        obtain ⟨-, rfl, -⟩ := (pageInsert_fails hins).resolve_left hr.ne
        exact .ok fun _ => rfl
      · exact .ok fun hc => absurd hc (lt_irrefl (0 : Int))
  · exact .ok fun hc => absurd hc (lt_irrefl (0 : Int))

/-- `sys_exofork` does not return errors. -/
theorem MemInv.sysExofork_pos (h : MemInv R D l k) :
    Post (sysExofork k cur) fun x => 0 < x.1 := by
  rintro ⟨r, k'⟩ hok
  obtain ⟨e, k₁, halloc, -, rfl⟩ := sysExofork_ok hok
  obtain ⟨e', d, s, he, hhead, rfl⟩ | ⟨⟨err, he⟩, -⟩ := envAlloc_ok halloc
  · obtain rfl := Except.ok.inj he
    rw [newEnv_envs_self]
    exact nextEnvId_pos _ (FreeSlots.head h.envs.list hhead).1
  · cases he

/-- If the function returns an error, the state satisfies `Q`. -/
def Flow.Failed (Q : Kernel → Prop) : Flow → Prop
  | .ret r k => r < 0 → Q k
  | _ => True

section Flow

variable {Q : Kernel → Prop} {e : Nat}

theorem envRun_failed : Post (envRun k c e) (Flow.Failed Q) := by
  intro f hok
  obtain ⟨-, rfl⟩ := envRun_ok hok
  trivial

theorem schedHalt_failed : Post (pure (schedHalt k c) : Except Panic Flow) (Flow.Failed Q) := by
  unfold schedHalt
  generalize (List.range NENV).any _ = b
  cases b
  · exact .ok trivial
  · exact .ok trivial

theorem schedYield_failed : Post (schedYield k c) (Flow.Failed Q) := by
  unfold schedYield
  split
  · exact envRun_failed
  split
  · split
    · exact envRun_failed
    · exact schedHalt_failed
  · exact schedHalt_failed

theorem envDestroy_failed : Post (envDestroy k c e) (Flow.Failed Q) := by
  unfold envDestroy
  simp only
  split
  · exact .ok fun hc => absurd hc (lt_irrefl (0 : Int))
  refine .bind' fun k' _ => ?_
  split
  · exact schedYield_failed
  · exact .ok fun hc => absurd hc (lt_irrefl (0 : Int))

end Flow

theorem MemInv.syscall_sameBut (h : MemInv R D l k) (call : Call) (input : Word) :
    Post (syscall k c cur input call.syscallno call.a1 call.a2 call.a3 call.a4 call.a5)
      (Flow.Failed (SameBut l k)) := by
  have hsame : ∀ k', k' = k → SameBut l k k' := by
    rintro k' rfl
    exact .refl l k'
  unfold syscall
  split
  · refine .bind' fun b _ => ?_
    split
    · exact envDestroy_failed
    refine .bind' fun b _ => ?_
    split
    · exact envDestroy_failed
    · exact .bind' fun _ _ => .ok fun _ => .refl l k
  · exact .ok fun _ => .refl l k
  · exact .ok fun _ => .refl l k
  · unfold sysEnvDestroy
    split
    · exact .ok fun _ => .refl l k
    · exact envDestroy_failed
  · exact .map (h.sysPageAlloc_failed _ _ _)
  · exact .map ((sysPageMap_failed _ _ _ _ _).mono fun x hx hr => hsame x.2 (hx hr))
  · exact .map ((sysPageUnmap_failed _ _).mono fun x hx hr => hsame x.2 (hx hr))
  · exact .map (h.sysExofork_pos.mono fun x hx hr => absurd hr hx.not_gt)
  · refine .ok ?_
    unfold sysEnvSetStatus
    split
    · exact fun _ => .refl l k
    split
    · exact fun hc => absurd hc (lt_irrefl (0 : Int))
    split
    · exact fun hc => absurd hc (lt_irrefl (0 : Int))
    · exact fun _ => .refl l k
  · refine .ok ?_
    unfold sysEnvSetPgfaultUpcall
    split
    · exact fun _ => .refl l k
    · exact fun hc => absurd hc (lt_irrefl (0 : Int))
  · exact schedYield_failed
  · exact .map ((sysIpcTrySend_failed _ _ _ _).mono fun x hx hr => hsame x.2 (hx hr))
  · unfold sysIpcRecv
    split
    · exact .ok fun _ => .refl l k
    · exact schedYield_failed
  · exact .ok fun _ => .refl l k

/-- The page directory `d` and the page tables it holds are as they were. -/
def SameTables (k k' : Kernel) (d : Nat) : Prop :=
  k'.pmap.mem d = k.pmap.mem d ∧ ∀ i < 1024, present (k.pmap.mem d i) →
    k'.pmap.mem (ppn (k.pmap.mem d i)) = k.pmap.mem (ppn (k.pmap.mem d i))

/-- Page directories and page tables are not on the free list. -/
theorem MemInv.sameTables (h : MemInv R D l k) (hs : SameBut l k k')
    (hd : d = k.pmap.kernPgdir ∨ ∃ e, (k.envs e).envPgdir = some d) : SameTables k k' d := by
  have hR : ∀ p ∈ R, k'.pmap.mem p = k.pmap.mem p := fun p hp =>
    hs.mem p fun hc => (h.pmap.consistent.free_managed p hc).2 hp
  rcases hd with rfl | ⟨e, he⟩
  · exact ⟨hR _ h.pmap.map.kern_res.1, fun i hi hP => hR _ (h.pmap.kern_table hi hP).1⟩
  · have hD := h.envs.dir e d he
    refine ⟨hs.mem d (h.pmap.dir_notMem_free hD), fun i hi hP => ?_⟩
    rcases h.pmap.table_kinds hD hi hP with hlow | hself | ⟨hres, -⟩
    · exact hs.mem _ (h.pmap.table_notMem_free hD hlow hP)
    · rw [hself]
      exact hs.mem d (h.pmap.dir_notMem_free hD)
    · exact hR _ hres

/-- A system call that returns a negative value has changed nothing but the contents of free pages. -/
theorem syscall_failed (h : MemInv R D l k) (call : Call) (input : Word)
    (hok : syscall k c cur input call.syscallno call.a1 call.a2 call.a3 call.a4 call.a5
      = .ok (.ret r k')) (hr : r < 0) :
    SameBut l k k' ∧
      ∀ d, d = k.pmap.kernPgdir ∨ (∃ e, (k.envs e).envPgdir = some d) → SameTables k k' d := by
  have hs : SameBut l k k' := h.syscall_sameBut call input _ hok hr
  exact ⟨hs, fun d hd => h.sameTables hs hd⟩

/-- The second environment of `demoSystem` may not unmap anything at `UTOP`. -/
theorem syscall_failed_demoSystem : ∃ s₀ D l k, I386Init demoSystem k ∧ MemInv (notFree s₀) D l k ∧
    syscall k 0 1 0#32 SYS_page_unmap 0#32 UTOP 0#32 0#32 0#32 = .ok (.ret (-E_INVAL) k) ∧
    SameBut l k k := by
  obtain ⟨s₀, D, l, d₀, d₁, k, h⟩ := demoSystem_boots
  have hcode : syscall k 0 1 0#32 SYS_page_unmap 0#32 UTOP 0#32 0#32 0#32
      = .ok (.ret (-E_INVAL) k) := rfl
  have hinv := h.started.inv.toMemInv
  exact ⟨s₀, D, l, k, h.init, hinv, hcode,
    (syscall_failed hinv ⟨SYS_page_unmap, 0#32, UTOP, 0#32, 0#32, 0#32⟩ 0#32 hcode (by decide)).1⟩

/-! ## Documented errors -/

/-- The calls that map pages, with their arguments. -/
inductive ErrCall
  | pageAlloc (envid va perm : Word)
  | pageMap (srcenvid srcva dstenvid dstva perm : Word)
  | ipcTrySend (envid value srcva perm : Word)

/-- The call, made by environment `cur`. -/
def ErrCall.run (k : Kernel) (cur : Nat) : ErrCall → Except Panic (Int × Kernel)
  | .pageAlloc envid va perm => sysPageAlloc k cur envid va perm
  | .pageMap srcenvid srcva dstenvid dstva perm =>
    sysPageMap k cur srcenvid srcva dstenvid dstva perm
  | .ipcTrySend envid value srcva perm => sysIpcTrySend k cur envid value srcva perm

/-- The comments of the three functions, line by line: the errors they list and the conditions for them.
`l` is the free list. -/
inductive Listed (k : Kernel) (cur : Nat) (l : List Nat) : ErrCall → Int → Prop
  /-- `envid` does not exist, or the caller may not change it. -/
  | allocEnv {envid va perm : Word} : envid2env k cur envid true = none →
      Listed k cur l (.pageAlloc envid va perm) (-E_BAD_ENV)
  | allocVa {envid va perm : Word} : UTOP ≤ va ∨ ¬ aligned va →
      Listed k cur l (.pageAlloc envid va perm) (-E_INVAL)
  | allocPerm {envid va perm : Word} : ¬ permOk perm →
      Listed k cur l (.pageAlloc envid va perm) (-E_INVAL)
  /-- There is no memory for the new page, -/
  | allocPage {envid va perm : Word} : l = [] → Listed k cur l (.pageAlloc envid va perm) (-E_NO_MEM)
  /-- or for the page table that it needs. -/
  | allocTable {envid va perm : Word} {e d : Nat} : envid2env k cur envid true = some e →
      (k.envs e).envPgdir = some d → ¬ present (k.pmap.mem d (PDX va)) → l.length ≤ 1 →
      Listed k cur l (.pageAlloc envid va perm) (-E_NO_MEM)
  | mapEnv {srcenvid srcva dstenvid dstva perm : Word} :
      envid2env k cur srcenvid true = none ∨ envid2env k cur dstenvid true = none →
      Listed k cur l (.pageMap srcenvid srcva dstenvid dstva perm) (-E_BAD_ENV)
  | mapVa {srcenvid srcva dstenvid dstva perm : Word} :
      UTOP ≤ srcva ∨ ¬ aligned srcva ∨ UTOP ≤ dstva ∨ ¬ aligned dstva →
      Listed k cur l (.pageMap srcenvid srcva dstenvid dstva perm) (-E_INVAL)
  /-- `srcva` is not mapped in the address space of `srcenvid`. -/
  | mapSrc {srcenvid srcva dstenvid dstva perm : Word} {src sd : Nat} :
      envid2env k cur srcenvid true = some src → (k.envs src).envPgdir = some sd →
      ¬ present (pteOf k.pmap sd (PGNUM srcva)) →
      Listed k cur l (.pageMap srcenvid srcva dstenvid dstva perm) (-E_INVAL)
  | mapPerm {srcenvid srcva dstenvid dstva perm : Word} : ¬ permOk perm →
      Listed k cur l (.pageMap srcenvid srcva dstenvid dstva perm) (-E_INVAL)
  /-- It is read-only there. -/
  | mapWrite {srcenvid srcva dstenvid dstva perm : Word} {src sd : Nat} :
      envid2env k cur srcenvid true = some src → (k.envs src).envPgdir = some sd →
      perm &&& PTE_W ≠ 0#32 → present (pteOf k.pmap sd (PGNUM srcva)) →
      pteOf k.pmap sd (PGNUM srcva) &&& PTE_W = 0#32 →
      Listed k cur l (.pageMap srcenvid srcva dstenvid dstva perm) (-E_INVAL)
  | mapTable {srcenvid srcva dstenvid dstva perm : Word} {dst dd : Nat} :
      envid2env k cur dstenvid true = some dst → (k.envs dst).envPgdir = some dd →
      ¬ present (k.pmap.mem dd (PDX dstva)) → l = [] →
      Listed k cur l (.pageMap srcenvid srcva dstenvid dstva perm) (-E_NO_MEM)
  | sendEnv {envid value srcva perm : Word} : envid2env k cur envid false = none →
      Listed k cur l (.ipcTrySend envid value srcva perm) (-E_BAD_ENV)
  | sendRecv {envid value srcva perm : Word} {e : Nat} : envid2env k cur envid false = some e →
      (k.envs e).envIpcRecving = false →
      Listed k cur l (.ipcTrySend envid value srcva perm) (-E_IPC_NOT_RECV)
  | sendVa {envid value srcva perm : Word} : srcva < UTOP → ¬ aligned srcva →
      Listed k cur l (.ipcTrySend envid value srcva perm) (-E_INVAL)
  | sendPerm {envid value srcva perm : Word} : srcva < UTOP → ¬ permOk perm →
      Listed k cur l (.ipcTrySend envid value srcva perm) (-E_INVAL)
  | sendSrc {envid value srcva perm : Word} {sd : Nat} : srcva < UTOP →
      (k.envs cur).envPgdir = some sd → ¬ present (pteOf k.pmap sd (PGNUM srcva)) →
      Listed k cur l (.ipcTrySend envid value srcva perm) (-E_INVAL)
  | sendWrite {envid value srcva perm : Word} {sd : Nat} : srcva < UTOP →
      (k.envs cur).envPgdir = some sd → perm &&& PTE_W ≠ 0#32 →
      present (pteOf k.pmap sd (PGNUM srcva)) → pteOf k.pmap sd (PGNUM srcva) &&& PTE_W = 0#32 →
      Listed k cur l (.ipcTrySend envid value srcva perm) (-E_INVAL)
  /-- There is no memory to map the page where the receiver wants it. -/
  | sendTable {envid value srcva perm : Word} {e dd : Nat} : srcva < UTOP →
      envid2env k cur envid false = some e → (k.envs e).envPgdir = some dd →
      (k.envs e).envIpcDstva < UTOP → ¬ present (k.pmap.mem dd (PDX (k.envs e).envIpcDstva)) →
      l = [] → Listed k cur l (.ipcTrySend envid value srcva perm) (-E_NO_MEM)

/-- The result `r` is the documented one. -/
structure Reports (listed : Int → Prop) (r : Int) : Prop where
  /-- A negative result is listed, with a condition that holds. -/
  code : r < 0 → listed r
  /-- Zero is returned only if no listed condition holds. -/
  ok : r = 0 → ∀ err, ¬ listed err
  /-- If the only thing that is wrong is lack of memory, the result says so. -/
  noMem : listed (-E_NO_MEM) → (∀ err, listed err → err = -E_NO_MEM) → r = -E_NO_MEM

theorem Listed.neg {call : ErrCall} (h : Listed k cur l call r) : r < 0 := by
  cases h <;> decide

theorem Listed.reports {call : ErrCall} (h : Listed k cur l call r) :
    Reports (Listed k cur l call) r where
  code _ := h
  ok hz := absurd hz h.neg.ne
  noMem _ honly := honly r h

theorem Reports.zero {listed : Int → Prop} (h : ∀ err, ¬ listed err) : Reports listed 0 where
  code hc := absurd hc (lt_irrefl 0)
  ok _ := h
  noMem hc := absurd hc (h _)

/-- The calls whose result is not the documented one: `sys_page_alloc` at `UTOP` itself succeeds, and
`sys_ipc_try_send` calls a lack of memory an invalid argument. -/
def Misreported (k : Kernel) (cur : Nat) (l : List Nat) : ErrCall → Prop
  | .pageAlloc envid va perm => va = UTOP ∧ l ≠ [] ∧
      ∃ e d, PageAllocArgs k cur e envid va perm ∧ (k.envs e).envPgdir = some d
  | .pageMap .. => False
  | .ipcTrySend envid _ srcva perm => l = [] ∧
      ∃ e sd dd, SendPageArgs k cur e envid srcva perm sd dd ∧
        ¬ present (k.pmap.mem dd (PDX (k.envs e).envIpcDstva))

/-- Every result of the call is the documented one. -/
def ErrCall.Documented (k : Kernel) (cur : Nat) (l : List Nat) (call : ErrCall) : Prop :=
  Post (call.run k cur) fun x => Reports (Listed k cur l call) x.1

namespace MemInv

theorem list_none (h : MemInv R D l k) (hlist : k.pmap.pageFreeList = none) : l = [] := by
  cases l with
  | nil => rfl
  | cons p l =>
    rw [h.pmap.free.head_some] at hlist
    cases hlist

theorem pageAlloc_documented (h : MemInv R D l k) {envid va perm : Word}
    (hno : ¬ Misreported k cur l (.pageAlloc envid va perm)) :
    (ErrCall.pageAlloc envid va perm).Documented k cur l := by
  show Post (sysPageAlloc k cur envid va perm) _
  unfold sysPageAlloc
  split
  · next he => exact .ok (Listed.allocEnv he).reports
  · next e he =>
    split
    · next hva =>
      exact .ok (Listed.allocVa (hva.imp_left fun hlt => BitVec.le_of_lt hlt)).reports
    · next hva =>
      obtain ⟨hle, hal⟩ := not_or.mp hva
      split
      · next hperm => exact .ok (Listed.allocPerm hperm).reports
      · next hperm =>
        refine .bind' fun ⟨p, s⟩ hp => ?_
        cases p with
        | none =>
          have hnil := h.list_none (pageAlloc_fails hp).2
          exact .ok (Listed.allocPage hnil).reports
        | some p =>
          obtain ⟨q, l', rfl⟩ : ∃ q l', l = q :: l' := by
            cases l with
            | nil =>
              rw [pageAlloc_none true h.pmap.free.head_none] at hp
              cases hp
            | cons q l' => exact ⟨q, l', rfl⟩
          rw [h.pmap.pageAlloc_fresh] at hp
          obtain ⟨hq, rfl⟩ := Prod.mk.inj (Except.ok.inj hp)
          obtain rfl := Option.some.inj hq
          cases hpg : (k.envs e).envPgdir with
          | none =>
            simp only [pgdirOf_none hpg]
            exact .error _
          | some d =>
            have hd := h.envs.dir e d hpg
            have hmem : (k.pmap.fresh q).mem d = k.pmap.mem d :=
              fresh_mem_of_ne (h.pmap.dir_ne_of_unnamed
                (h.pmap.free_unnamed (List.mem_cons_self ..)) hd)
            simp only [pgdirOf_some hpg, ok_bind]
            refine .bind' fun ⟨r, s'⟩ hins => ?_
            simp only
            split
            · next hr =>
              obtain ⟨-, rfl, hP, hlist⟩ := (pageInsert_fails hins).resolve_left hr
              have hl' : l' = [] := by
                have hfresh : MemInv R D l' { k with pmap := k.pmap.fresh q } :=
                  h.withPmap h.pmap.fresh
                exact hfresh.list_none hlist
              rw [hmem] at hP
              refine .bind' fun s'' _ => .ok (Listed.allocTable he hpg hP ?_).reports
              rw [hl']
              exact le_rfl
            · next hr =>
              refine .ok (.zero fun err hlisted => ?_)
              cases hlisted with
              | allocEnv hc => rw [he] at hc; cases hc
              | allocVa hc =>
                rcases hc with hc | hc
                · have hUTOP : va = UTOP := eq_UTOP hle (BitVec.not_lt.mpr hc)
                  exact hno ⟨hUTOP, nofun, e, d, ⟨he, hle, not_not.mp hal, not_not.mp hperm⟩, hpg⟩
                · exact hal hc
              | allocPerm hc => exact hperm hc
              | allocPage hc => cases hc
              | allocTable he' hpg' hP hlen =>
                obtain rfl := Option.some.inj (he.symm.trans he')
                obtain rfl := Option.some.inj (hpg.symm.trans hpg')
                obtain rfl : l' = [] := by
                  rw [List.length_cons] at hlen
                  exact List.length_eq_zero_iff.mp (by omega)
                have hcode : pageInsert (k.pmap.fresh q) d q va perm = .ok (-E_NO_MEM, k.pmap.fresh q) :=
                  pageInsert_noMem (by rw [hmem]; exact hP) h.pmap.fresh.free.head_none
                rw [hcode] at hins
                obtain rfl := (Prod.mk.inj (Except.ok.inj hins)).1
                exact hr (by decide)

/-- What `page_lookup` finds at the source, below `UTOP`. -/
theorem pageLookup_cases (h : MemInv R D l k) {e : Nat} (hpg : (k.envs e).envPgdir = some d)
    (hva : va < UTOP) :
    (¬ present (pteOf k.pmap d (PGNUM va)) ∧ pageLookup k.pmap d va = .ok none) ∨
    (present (pteOf k.pmap d (PGNUM va)) ∧ ∃ pte,
      pageLookup k.pmap d va = .ok (some (ppn (pteOf k.pmap d (PGNUM va)), pte)) ∧
      k.pmap.load pte = pteOf k.pmap d (PGNUM va)) := by
  have hd := h.envs.dir e d hpg
  by_cases hP : present (pteOf k.pmap d (PGNUM va))
  · exact Or.inr ⟨hP, _, h.pmap.pageLookup_mapped hd hva hP, ((present_pde_of_pte hP).2).symm⟩
  · exact Or.inl ⟨hP, h.pmap.pageLookup_unmapped hd hva hP⟩

theorem pageMap_documented (h : MemInv R D l k) {srcenvid srcva dstenvid dstva perm : Word} :
    (ErrCall.pageMap srcenvid srcva dstenvid dstva perm).Documented k cur l := by
  show Post (sysPageMap k cur srcenvid srcva dstenvid dstva perm) _
  unfold sysPageMap
  split
  · next src dst hsrc hdst =>
    split
    · next hva => exact .ok (Listed.mapVa hva).reports
    · next hva =>
      have hlt : srcva < UTOP := BitVec.not_le.mp fun hc => hva (Or.inl hc)
      split
      · next hperm => exact .ok (Listed.mapPerm hperm).reports
      · next hperm =>
        cases hspg : (k.envs src).envPgdir with
        | none =>
          simp only [pgdirOf_none hspg]
          exact .error _
        | some sd =>
          rcases h.pageLookup_cases hspg hlt with ⟨hP, hlook⟩ | ⟨hP, pte, hlook, hload⟩
          · simp only [pgdirOf_some hspg, hlook, ok_bind]
            exact .ok (Listed.mapSrc hsrc hspg hP).reports
          · simp only [pgdirOf_some hspg, hlook, hload, ok_bind]
            split
            · next hW => exact .ok (Listed.mapWrite hsrc hspg hW.1 hP hW.2).reports
            · next hW =>
              cases hdpg : (k.envs dst).envPgdir with
              | none =>
                simp only [pgdirOf_none hdpg]
                exact .error _
              | some dd =>
                simp only [pgdirOf_some hdpg, ok_bind]
                refine .bind' fun ⟨r, s⟩ hins => ?_
                simp only
                split
                · next hr =>
                  obtain ⟨-, -, hpde, hlist⟩ := (pageInsert_fails hins).resolve_left hr
                  exact .ok (Listed.mapTable hdst hdpg hpde (h.list_none hlist)).reports
                · next hr =>
                  refine .ok (.zero fun err hlisted => ?_)
                  cases hlisted with
                  | mapEnv hc =>
                    rcases hc with hc | hc
                    · rw [hsrc] at hc; cases hc
                    · rw [hdst] at hc; cases hc
                  | mapVa hc => exact hva hc
                  | mapSrc hsrc' hspg' hP' =>
                    obtain rfl := Option.some.inj (hsrc.symm.trans hsrc')
                    obtain rfl := Option.some.inj (hspg.symm.trans hspg')
                    exact hP' hP
                  | mapPerm hc => exact hperm hc
                  | mapWrite hsrc' hspg' hW₁ _ hW₂ =>
                    obtain rfl := Option.some.inj (hsrc.symm.trans hsrc')
                    obtain rfl := Option.some.inj (hspg.symm.trans hspg')
                    exact hW ⟨hW₁, hW₂⟩
                  | mapTable hdst' hdpg' hpde hnil =>
                    obtain rfl := Option.some.inj (hdst.symm.trans hdst')
                    obtain rfl := Option.some.inj (hdpg.symm.trans hdpg')
                    subst hnil
                    rw [pageInsert_noMem hpde h.pmap.free.head_none] at hins
                    obtain rfl := (Prod.mk.inj (Except.ok.inj hins)).1
                    exact hr (by decide)
  · next hnone =>
    refine .ok (Listed.mapEnv ?_).reports
    by_contra hc
    obtain ⟨h₁, h₂⟩ := not_or.mp hc
    obtain ⟨src, hsrc⟩ := Option.ne_none_iff_exists'.mp h₁
    obtain ⟨dst, hdst⟩ := Option.ne_none_iff_exists'.mp h₂
    exact hnone src dst hsrc hdst

theorem ipcTrySend_documented (h : MemInv R D l k) {envid value srcva perm : Word}
    (hno : ¬ Misreported k cur l (.ipcTrySend envid value srcva perm)) :
    (ErrCall.ipcTrySend envid value srcva perm).Documented k cur l := by
  show Post (sysIpcTrySend k cur envid value srcva perm) _
  unfold sysIpcTrySend
  split
  · next he => exact .ok (Listed.sendEnv he).reports
  · next e he =>
    split
    · next hrecv => exact .ok (Listed.sendRecv he hrecv).reports
    · next hrecv =>
      have hrecv' : (k.envs e).envIpcRecving = true := Bool.eq_true_of_not_eq_false hrecv
      split
      · next hlt =>
        split
        · next hal => exact .ok (Listed.sendVa hlt (mt aligned_iff.mp hal)).reports
        · next hal =>
          split
          · next hperm => exact .ok (Listed.sendPerm hlt hperm).reports
          · next hperm =>
            cases hspg : (k.envs cur).envPgdir with
            | none =>
              simp only [pgdirOf_none hspg]
              exact .error _
            | some sd =>
              rcases h.pageLookup_cases hspg hlt with ⟨hP, hlook⟩ | ⟨hP, pte, hlook, hload⟩
              · simp only [pgdirOf_some hspg, hlook, ok_bind]
                exact .ok (Listed.sendSrc hlt hspg hP).reports
              · simp only [pgdirOf_some hspg, hlook, hload, ok_bind]
                split
                · next hW => exact .ok (Listed.sendWrite hlt hspg hW.1 hP hW.2).reports
                · next hW =>
                  cases hdpg : (k.envs e).envPgdir with
                  | none =>
                    simp only [pgdirOf_none hdpg]
                    exact .error _
                  | some dd =>
                    have ha : SendPageArgs k cur e envid srcva perm sd dd :=
                      ⟨he, hrecv', hlt, aligned_iff.mpr (not_not.mp hal), not_not.mp hperm, hspg, hdpg,
                        hP, fun hW₁ hW₂ => hW ⟨hW₁, hW₂⟩⟩
                    simp only [pgdirOf_some hdpg, ok_bind]
                    refine .bind' fun ⟨r, s⟩ hins => ?_
                    simp only
                    split
                    · next hr =>
                      -- `page_insert` has run out of memory
                      obtain ⟨-, -, hpde, hlist⟩ := (pageInsert_fails hins).resolve_left hr.ne
                      exact absurd ⟨h.list_none hlist, e, sd, dd, ha, hpde⟩ hno
                    · refine .ok (.zero fun err hlisted => ?_)
                      cases hlisted with
                      | sendEnv hc => rw [he] at hc; cases hc
                      | sendRecv he' hc =>
                        obtain rfl := Option.some.inj (he.symm.trans he')
                        exact hrecv hc
                      | sendVa _ hc => exact hc ha.src_aligned
                      | sendPerm _ hc => exact hperm hc
                      | sendSrc _ hspg' hP' =>
                        obtain rfl := Option.some.inj (hspg.symm.trans hspg')
                        exact hP' hP
                      | sendWrite _ hspg' hW₁ _ hW₂ =>
                        obtain rfl := Option.some.inj (hspg.symm.trans hspg')
                        exact hW ⟨hW₁, hW₂⟩
                      | sendTable _ he' hdpg' _ hpde hnil =>
                        obtain rfl := Option.some.inj (he.symm.trans he')
                        obtain rfl := Option.some.inj (hdpg.symm.trans hdpg')
                        exact hno ⟨hnil, e, sd, dd, ha, hpde⟩
      · next hlt =>
        refine .ok (.zero fun err hlisted => ?_)
        cases hlisted with
        | sendEnv hc => rw [he] at hc; cases hc
        | sendRecv he' hc =>
          obtain rfl := Option.some.inj (he.symm.trans he')
          exact hrecv hc
        | sendVa hc => exact hlt hc
        | sendPerm hc => exact hlt hc
        | sendSrc hc => exact hlt hc
        | sendWrite hc => exact hlt hc
        | sendTable hc => exact hlt hc

theorem not_documented (h : MemInv R D l k) {call : ErrCall} (hmis : Misreported k cur l call) :
    ¬ call.Documented k cur l := by
  intro hdoc
  cases call with
  | pageAlloc envid va perm =>
    obtain ⟨rfl, hl, e, d, ha, hpg⟩ := hmis
    obtain ⟨p, l', rfl⟩ := List.exists_cons_of_ne_nil hl
    have hrep := hdoc _ (h.sysPageAlloc_UTOP ha (h.envs.dir e d hpg) hpg)
    exact hrep.ok rfl (-E_INVAL) (.allocVa (Or.inl (BitVec.le_refl UTOP)))
  | pageMap => exact hmis
  | ipcTrySend envid value srcva perm =>
    obtain ⟨rfl, e, sd, dd, ha, hpde⟩ := hmis
    have hcode : sysIpcTrySend k cur envid value srcva perm = .ok (-E_INVAL, k) := by
      rw [h.sysIpcTrySend_page value (h.envs.dir _ _ ha.srcdir) ha,
        pageInsert_noMem hpde h.pmap.free.head_none]
      rfl
    have hneg : -E_INVAL < 0 := by decide
    cases (hdoc _ hcode).code hneg with
    | sendVa _ hc => exact hc ha.src_aligned
    | sendPerm _ hc => exact hc ha.perm_ok
    | sendSrc _ hspg hP =>
      obtain rfl := Option.some.inj (ha.srcdir.symm.trans hspg)
      exact hP ha.page.1
    | sendWrite _ hspg hW₁ _ hW₂ =>
      obtain rfl := Option.some.inj (ha.srcdir.symm.trans hspg)
      exact ha.page.2 hW₁ hW₂

end MemInv

/-- The results of the calls that map pages are the documented ones, but for the two exceptions. -/
theorem errCall_documented_iff (h : MemInv R D l k) (cur : Nat) (call : ErrCall) :
    call.Documented k cur l ↔ ¬ Misreported k cur l call := by
  refine ⟨fun hdoc hmis => h.not_documented hmis hdoc, fun hno => ?_⟩
  cases call with
  | pageAlloc => exact h.pageAlloc_documented hno
  | pageMap => exact h.pageMap_documented
  | ipcTrySend => exact h.ipcTrySend_documented hno

/-- The first environment of `demoSystem` sends no page. -/
theorem errCall_documented_demoSystem : ∃ s₀ D l k, I386Init demoSystem k ∧
    MemInv (notFree s₀) D l k ∧ (ErrCall.ipcTrySend 0#32 7#32 UTOP 0#32).Documented k 0 l := by
  obtain ⟨s₀, D, l, d₀, d₁, k, h⟩ := demoSystem_boots
  have hinv := h.started.inv.toMemInv
  refine ⟨s₀, D, l, k, h.init, hinv, (errCall_documented_iff hinv 0 _).mpr ?_⟩
  rintro ⟨-, e, sd, dd, ha, -⟩
  exact absurd ha.src_lt (by decide)

/-- `sys_page_alloc(0, UTOP, PTE_P | PTE_U)` by the first environment of `demoSystem` returns 0, although
`va >= UTOP` is among the listed errors. -/
theorem sysPageAlloc_UTOP_undocumented : ∃ s₀ D l k k', I386Init demoSystem k ∧
    MemInv (notFree s₀) D l k ∧ sysPageAlloc k 0 0#32 UTOP (PTE_P ||| PTE_U) = .ok (0, k') ∧
    ¬ (ErrCall.pageAlloc 0#32 UTOP (PTE_P ||| PTE_U)).Documented k 0 l := by
  obtain ⟨s₀, D, l, d₀, d₁, k, h⟩ := demoSystem_boots
  have hinv := h.started.inv.toMemInv
  have ha : PageAllocArgs k 0 0 0#32 UTOP (PTE_P ||| PTE_U) :=
    ⟨rfl, by decide, by decide, by decide⟩
  obtain ⟨p, l', rfl⟩ : ∃ p l', l = p :: l' := by
    refine List.exists_cons_of_ne_nil ?_
    rintro rfl
    exact absurd h.room (by decide)
  exact ⟨s₀, D, _, k, _, h.init, hinv, hinv.sysPageAlloc_UTOP ha h.dirs.1 h.pgdir₀,
    hinv.not_documented ⟨rfl, nofun, 0, d₀, ha, h.pgdir₀⟩⟩

end Jos
