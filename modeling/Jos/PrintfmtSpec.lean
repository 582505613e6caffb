import Jos.Lib.Fallible
import Jos.Cputs

/-!
# Format strings

What `vprintfmt` makes of a format string, whether it is well formed or not. `parse` splits the string into text, complete
escape sequences and sequences that have no known conversion. The code knows nothing of this. It reads one byte
after the other, and goes back to the last `%` when a sequence turns out to be none. On arguments that suit the string
it returns, without having left the string on either side, and has written text and unknown sequences
as they stand there (`cprintf_renders`).
-/

namespace Jos.Printfmt

/-! ## The parts of a format string -/

/-- The bytes between `%` and the conversion. -/
def isFlag (ch : BitVec 8) : Bool :=
  ch = chr '-' ∨ ch = chr '0' ∨ (chr '1' ≤ ch ∧ ch ≤ chr '9') ∨ ch = chr '*' ∨ ch = chr '.' ∨ ch = chr '#' ∨
    ch = chr 'l'

def isDigit (ch : BitVec 8) : Bool := chr '0' ≤ ch ∧ ch ≤ chr '9'

/-- The conversions there are. -/
def CONVERSIONS : List (BitVec 8) := ['c', 'e', 's', 'd', 'u', 'o', 'p', 'x', '%'].map chr

inductive Item
  | text (b : BitVec 8)
  /-- A complete escape sequence. -/
  | conv (flags : List (BitVec 8)) (ch : BitVec 8)
  /-- One with an unknown conversion, or with none. -/
  | literal (flags : List (BitVec 8)) (ch : Option (BitVec 8))
deriving DecidableEq

/-- Split a format string. After a `%`, the first argument has the flags so far. -/
def parse : Option (List (BitVec 8)) → List (BitVec 8) → List Item
  | none, [] => []
  | none, b :: rest => if b = chr '%' then parse (some []) rest else .text b :: parse none rest
  | some flags, [] => [.literal flags none]
  | some flags, ch :: rest =>
    if isFlag ch then parse (some (flags ++ [ch])) rest
    else if ch ∈ CONVERSIONS then .conv flags ch :: parse none rest
    else .literal flags (some ch) :: parse none rest

/-- What stands in the format string for an item. -/
def Item.source : Item → List (BitVec 8)
  | .text b => [b]
  | .conv flags ch => chr '%' :: (flags ++ [ch])
  | .literal flags ch => chr '%' :: (flags ++ ch.toList)

/-- The items are the whole string, in order. -/
theorem parse_source (open' : Option (List (BitVec 8))) (fmt : List (BitVec 8)) :
    (parse open' fmt).flatMap Item.source = (open'.elim [] fun flags => chr '%' :: flags) ++ fmt := by
  induction fmt generalizing open' with
  | nil =>
    cases open' with
    | none => rfl
    | some flags => simp [parse, Item.source]
  | cons ch rest ih =>
    cases open' with
    | none =>
      rw [parse]
      split
      case isTrue h =>
        rw [ih, h]
        rfl
      case isFalse => rw [List.flatMap_cons, ih]; rfl
    | some flags =>
      rw [parse]
      split
      · rw [ih]
        simp
      · split <;> simp [ih, Item.source]

/-! ## Arguments -/

/-- The number these digits denote. -/
def decimal (precision : Word) (digits : List (BitVec 8)) : Word :=
  digits.foldl (fun precision ch => precision * 10#32 + ch.setWidth 32 - (chr '0').setWidth 32) precision

/-- What the flags set, and the arguments they leave. `skip` is set behind the first digit of a number. -/
def applyFlags : Bool → List (BitVec 8) → Spec → Args → Spec × Args
  | _, [], sp, ap => (sp, ap)
  | skip, ch :: rest, sp, ap =>
    if skip ∧ isDigit ch then applyFlags true rest sp ap
    else if ch = chr '-' then applyFlags false rest { sp with padc := chr '-' } ap
    else if ch = chr '0' then applyFlags false rest { sp with padc := chr '0' } ap
    else if chr '1' ≤ ch ∧ ch ≤ chr '9' then
      applyFlags true rest (processPrecision sp (decimal 0#32 (ch :: rest.takeWhile isDigit))) ap
    else if ch = chr '*' then applyFlags false rest (processPrecision sp (ap 0)) (ap.drop 1)
    else if ch = chr '.' then
      applyFlags false rest (if sp.width.toInt < 0 then { sp with width := 0#32 } else sp) ap
    else if ch = chr '#' then applyFlags false rest { sp with altflag := true } ap
    else applyFlags false rest { sp with lflag := sp.lflag + 1 } ap

/-- How many words of arguments the conversion takes. -/
def argCount (sp : Spec) (ch : BitVec 8) : Nat :=
  if ch = chr '%' then 0
  else if ch ∈ ['d', 'u', 'o', 'x'].map chr ∧ 2 ≤ sp.lflag then 2
  else 1

/-- The argument suits the conversion: for `%s` there is a string, or a null pointer, and for `%e` the number can be
negated. -/
structure ArgOk (m : Bytes) (sp : Spec) (ch : BitVec 8) (arg : Word) : Prop where
  string : ch = chr 's' → arg ≠ 0#32 → ∃ bs, bs.length < STRFUEL ∧ Printed m (.mem arg) 0 sp.precision bs
  error : ch = chr 'e' → arg ≠ 0x80000000#32

/-- The arguments suit the format string. -/
def Suitable (m : Bytes) : List Item → Args → Prop
  | [], _ => True
  | .text _ :: items, ap => Suitable m items ap
  | .conv flags ch :: items, ap =>
    ArgOk m (applyFlags false flags {} ap).1 ch ((applyFlags false flags {} ap).2 0) ∧
      Suitable m items ((applyFlags false flags {} ap).2.drop (argCount (applyFlags false flags {} ap).1 ch))
  | .literal flags _ :: items, ap => Suitable m items (applyFlags false flags {} ap).2

/-- What is to be written for the items. -/
inductive Renders (m : Bytes) : List Item → Args → List Word → Prop
  | nil (ap : Args) : Renders m [] ap []
  | text {items : List Item} {ap : Args} {out : List Word} (b : BitVec 8) : Renders m items ap out →
      Renders m (.text b :: items) ap (b.setWidth 32 :: out)
  | conv {items : List Item} {ap ap' : Args} {out : List Word} {o : Out} {flags : List (BitVec 8)} {ch : BitVec 8} :
      convert m ch (applyFlags false flags {} ap).1 (applyFlags false flags {} ap).2 = .ok (some (o, ap')) →
      Renders m items ap' out → Renders m (.conv flags ch :: items) ap (o.out ++ out)
  | literal {items : List Item} {ap : Args} {out : List Word} (flags : List (BitVec 8)) (ch : Option (BitVec 8)) :
      Renders m items (applyFlags false flags {} ap).2 out →
      Renders m (.literal flags ch :: items) ap ((Item.literal flags ch).source.map (fun b => b.setWidth 32) ++ out)

/-! ## Conversions -/

section Conversions

variable {m : Bytes} {src : Src} {off : Nat} {precision : Word} {bs : List (BitVec 8)}

theorem putStr_returns (altflag : Bool) {fuel : Nat} (hlt : bs.length < fuel) (h : Printed m src off precision bs)
    (width : Word) : Except.Returns (putStr m altflag src fuel off precision width) fun _ => True := by
  induction bs generalizing fuel off precision width with
  | nil =>
    obtain ⟨fuel, rfl⟩ : ∃ f, fuel = f + 1 := ⟨fuel - 1, by rw [List.length_nil] at hlt; omega⟩
    obtain ⟨b, hb, hstop⟩ := printed_nil.mp h
    rw [putStr, hb, Except.ok_bind]
    by_cases hz : b.signExtend 32 = 0#32
    · rw [if_pos hz]
      exact ⟨_, rfl, trivial⟩
    · have hp := hstop.resolve_left fun hc => hz (signExtend_eq_zero.mpr hc)
      rw [if_neg hz, if_neg fun hc => goes_on_iff.mp hc hp]
      exact ⟨_, rfl, trivial⟩
  | cons b bs ih =>
    obtain ⟨fuel, rfl⟩ : ∃ f, fuel = f + 1 := ⟨fuel - 1, by omega⟩
    obtain ⟨hb, hbne, hne, hrest⟩ := printed_cons.mp h
    rw [putStr, hb, Except.ok_bind, if_neg fun hc => hbne (signExtend_eq_zero.mp hc),
      if_pos (goes_on_iff.mpr hne)]
    refine Except.Returns.bind (ih (Nat.lt_of_succ_lt_succ hlt) hrest (width - 1#32)) fun r _ => ?_
    exact ⟨_, rfl, trivial⟩

/-- `strnlen` stops at the end of the string, or before. -/
theorem strnlen_returns {fuel size : Nat} (hlt : bs.length < fuel)
    (hbytes : ∀ i < bs.length, ∃ b, src.read m (off + i) = .ok b)
    (hstop : size ≤ bs.length ∨ src.read m (off + bs.length) = .ok 0#8) :
    Except.Returns (strnlen m src fuel size off) fun _ => True := by
  induction bs generalizing fuel off size with
  | nil =>
    obtain ⟨fuel, rfl⟩ : ∃ f, fuel = f + 1 := ⟨fuel - 1, by rw [List.length_nil] at hlt; omega⟩
    rw [strnlen]
    by_cases hsize : size = 0
    · rw [if_pos hsize]
      exact ⟨_, rfl, trivial⟩
    · have hread : src.read m off = .ok 0#8 := hstop.resolve_left fun hle => hsize (Nat.le_zero.mp hle)
      rw [if_neg hsize, hread, Except.ok_bind, if_pos rfl]
      exact ⟨_, rfl, trivial⟩
  | cons b bs ih =>
    obtain ⟨fuel, rfl⟩ : ∃ f, fuel = f + 1 := ⟨fuel - 1, by omega⟩
    have hshift : ∀ i, off + 1 + i = off + (i + 1) := fun i => by omega
    rw [strnlen]
    by_cases hsize : size = 0
    · rw [if_pos hsize]
      exact ⟨_, rfl, trivial⟩
    · obtain ⟨b', hb'⟩ := hbytes 0 (Nat.zero_lt_succ _)
      rw [Nat.add_zero] at hb'
      rw [if_neg hsize, hb', Except.ok_bind]
      split
      · exact ⟨_, rfl, trivial⟩
      · refine Except.Returns.bind (P := fun _ => True) (ih (Nat.lt_of_succ_lt_succ hlt) (fun i hi => ?_) ?_) fun r _ => ?_
        · rw [hshift]
          exact hbytes (i + 1) (Nat.succ_lt_succ hi)
        · rw [hshift]
          rw [List.length_cons] at hstop
          exact hstop.imp_left fun hle => by omega
        · exact ⟨_, rfl, trivial⟩

/-- `%s` of a string that is there returns. -/
theorem convStr_returns {sp : Spec} (hlt : bs.length < STRFUEL) (h : Printed m src 0 sp.precision bs) :
    Except.Returns (convStr m src sp) fun _ => True := by
  have hlen : Except.Returns (strnlen m src STRFUEL sp.precision.toNat 0) fun _ => True := by
    obtain ⟨b, hb, hstop⟩ := h.stop
    refine strnlen_returns hlt (fun i hi => ⟨_, (h.bytes i hi).1⟩) ?_
    obtain rfl | ⟨-, hend⟩ := hstop
    · exact Or.inr hb
    · exact Or.inl hend.ge
  have hput := putStr_returns (m := m) sp.altflag hlt h
  rw [convStr]
  split
  · refine hlen.bind fun r _ => ?_
    exact (hput _).bind fun r _ => ⟨_, rfl, trivial⟩
  · exact (hput _).bind fun r _ => ⟨_, rfl, trivial⟩

/-- The strings of the program end where they end. -/
theorem printed_lit (hne : ∀ b ∈ bs, b ≠ 0#8) (k : Nat) (off : Nat) (hk : off + k = bs.length) (precision : Word) :
    ∃ cs, cs.length ≤ k ∧ Printed m (.lit bs) off precision cs := by
  induction k generalizing off precision with
  | zero =>
    refine ⟨[], le_rfl, printed_nil.mpr ⟨0#8, ?_, Or.inl rfl⟩⟩
    rw [Src.read, if_neg (by omega), if_pos (by omega)]
    rfl
  | succ k ih =>
    have hlt : off < bs.length := by omega
    have hread : (Src.lit bs).read m off = .ok (bs.getD off 0#8) := by
      rw [Src.read, if_pos hlt]
      rfl
    by_cases hp : precision = 0#32
    · exact ⟨[], Nat.zero_le _, printed_nil.mpr ⟨_, hread, Or.inr hp⟩⟩
    · obtain ⟨cs, hcs, hrest⟩ := ih (off + 1) (by omega) (nextPrecision precision)
      have hb : bs.getD off 0#8 ≠ 0#8 := by
        rw [List.getD_eq_getElem bs 0#8 hlt]
        exact hne _ (List.getElem_mem hlt)
      exact ⟨bs.getD off 0#8 :: cs, Nat.succ_le_succ hcs, printed_cons.mpr ⟨hread, hb, hp, hrest⟩⟩

theorem convLit_returns {sp : Spec} (hne : ∀ b ∈ bs, b ≠ 0#8) (hlt : bs.length < STRFUEL) :
    Except.Returns (convStr m (.lit bs) sp) fun _ => True := by
  obtain ⟨cs, hcs, hprinted⟩ := printed_lit (m := m) hne bs.length 0 (Nat.zero_add _) sp.precision
  exact convStr_returns (hcs.trans_lt hlt) hprinted

/-- The messages are short, and have no NUL. -/
theorem errorString_text {msg : String} (hmsg : msg ∈ errorString) :
    (msg.toList.map chr).length < STRFUEL ∧ ∀ b ∈ msg.toList.map chr, b ≠ 0#8 := by
  have hall : (errorString.all fun msg => msg.toList.length < 100 && msg.toList.all fun c => chr c ≠ 0#8) = true := by
    decide
  have htext := List.all_eq_true.mp hall msg hmsg
  rw [Bool.and_eq_true, decide_eq_true_eq, List.all_eq_true] at htext
  obtain ⟨hlen, hne⟩ := htext
  refine ⟨?_, List.forall_mem_map.mpr fun c hc => of_decide_eq_true (hne c hc)⟩
  rw [List.length_map]
  exact hlen.trans (by decide)

theorem neg_nonneg {w : Word} (hneg : w.toInt < 0) (hw : w ≠ 0x80000000#32) : 0 ≤ (-w).toInt := by
  have hlt := w.isLt
  have hne : w.toNat ≠ 2 ^ 31 := fun hc => hw (BitVec.eq_of_toNat_eq hc)
  rw [← not_le, toInt_nonneg] at hneg
  rw [toInt_nonneg, BitVec.toNat_neg]
  omega

/-- `%e` of a number that can be negated returns. -/
theorem convErr_returns {err : Word} (herr : err ≠ 0x80000000#32) :
    Except.Returns (convErr m err) fun _ => True := by
  have habs : ¬ (if err.toInt < 0 then -err else err).toInt < 0 := by
    split
    case isTrue hneg => exact not_lt.mpr (neg_nonneg hneg herr)
    case isFalse hpos => exact hpos
  rw [convErr]
  simp only [if_neg habs]
  split
  · split
    case h_1 msg hmsg =>
      obtain ⟨hlen, hne⟩ := errorString_text (List.mem_of_getElem? hmsg)
      exact convLit_returns hne hlen
    case h_2 => exact ⟨_, rfl, trivial⟩
  · exact ⟨_, rfl, trivial⟩

theorem getint_drop (ap : Args) (lflag : Nat) : (getint ap lflag).2 = ap.drop (if 2 ≤ lflag then 2 else 1) := by
  rw [getint]
  split <;> rfl

theorem getuint_drop (ap : Args) (lflag : Nat) : (getuint ap lflag).2 = ap.drop (if 2 ≤ lflag then 2 else 1) := by
  rw [getuint]
  split <;> rfl

theorem argCount_int {sp : Spec} {ch : BitVec 8} (hch : ch ∈ ['d', 'u', 'o', 'x'].map chr) :
    argCount sp ch = if 2 ≤ sp.lflag then 2 else 1 := by
  have hne : ch ≠ chr '%' := by
    rintro rfl
    revert hch
    decide
  rw [argCount, if_neg hne]
  exact if_congr (and_iff_right hch) rfl rfl

/-- A conversion returns, and takes its arguments. -/
theorem convert_returns {sp : Spec} {ap : Args} {ch : BitVec 8} (hch : ch ∈ CONVERSIONS) (h : ArgOk m sp ch (ap 0)) :
    ∃ o, convert m ch sp ap = .ok (some (o, ap.drop (argCount sp ch))) := by
  have hint : ∀ {c}, c ∈ ['d', 'u', 'o', 'x'].map chr → ap.drop (argCount sp c) = (getuint ap sp.lflag).2 :=
    fun hc => by rw [argCount_int hc, getuint_drop]
  simp only [CONVERSIONS, List.map_cons, List.map_nil, List.mem_cons, List.not_mem_nil, or_false] at hch
  obtain rfl | rfl | rfl | rfl | rfl | rfl | rfl | rfl | rfl := hch
  · exact ⟨_, rfl⟩
  · obtain ⟨o, ho, -⟩ := convErr_returns (m := m) (h.error rfl)
    refine ⟨o, ?_⟩
    show (convErr m (ap 0) >>= fun o => pure (some (o, ap.drop 1))) = _
    rw [ho]
    rfl
  · obtain ⟨o, ho, -⟩ : Except.Returns (convStr m (if ap 0 = 0#32 then Src.lit nullText else .mem (ap 0)) sp)
        fun _ => True := by
      split
      case isTrue => exact convLit_returns (by decide) (by decide)
      case isFalse hne =>
        obtain ⟨bs, hlt, hprinted⟩ := h.string rfl hne
        exact convStr_returns hlt hprinted
    refine ⟨o, ?_⟩
    show (convStr m (if ap 0 = 0#32 then Src.lit nullText else .mem (ap 0)) sp >>=
      fun o => pure (some (o, ap.drop 1))) = _
    rw [ho]
    rfl
  · rw [argCount_int (by decide), ← getint_drop]
    exact ⟨_, rfl⟩
  · rw [hint (by decide)]
    exact ⟨_, rfl⟩
  · rw [hint (by decide)]
    exact ⟨_, rfl⟩
  · exact ⟨_, rfl⟩
  · rw [hint (by decide)]
    exact ⟨_, rfl⟩
  · exact ⟨_, rfl⟩

/-- The default case. -/
theorem convert_none {sp : Spec} {ap : Args} {ch : BitVec 8} (hch : ch ∉ CONVERSIONS) :
    convert m ch sp ap = .ok none := by
  simp only [CONVERSIONS, List.map_cons, List.map_nil, List.mem_cons, List.not_mem_nil, or_false, not_or] at hch
  obtain ⟨hc, he, hs, hd, hu, ho, hp, hx, hpercent⟩ := hch
  rw [convert, if_neg hc, if_neg he, if_neg hs, if_neg hd, if_neg hu, if_neg ho, if_neg hp, if_neg hx,
    if_neg hpercent]
  rfl

end Conversions

/-! ## Positions in the format string -/

/-- What is left of `fmt` from index `i` on. -/
structure At (fmt : List (BitVec 8)) (i : Nat) (rest : List (BitVec 8)) : Prop where
  le : i ≤ fmt.length
  drop : fmt.drop i = rest

namespace At

variable {fmt rest : List (BitVec 8)} {i : Nat} {ch : BitVec 8}

theorem fmtAt (h : At fmt i rest) : Printfmt.fmtAt fmt i = .ok (rest.headD 0#8) := by
  obtain ⟨hle, rfl⟩ := h
  rw [Printfmt.fmtAt]
  by_cases hlt : i < fmt.length
  · rw [if_pos hlt, List.drop_eq_getElem_cons hlt, List.getD_eq_getElem _ _ hlt]
    rfl
  · obtain rfl : i = fmt.length := le_antisymm hle (not_lt.mp hlt)
    rw [if_neg hlt, if_pos rfl, List.drop_length]
    rfl

theorem skip {bs : List (BitVec 8)} (h : At fmt i (bs ++ rest)) : At fmt (i + bs.length) rest := by
  have hlen : (fmt.drop i).length = (bs ++ rest).length := congrArg List.length h.drop
  rw [List.length_drop, List.length_append] at hlen
  have hle := h.le
  refine ⟨by omega, ?_⟩
  rw [← List.drop_drop, h.drop, List.drop_left]

theorem next (h : At fmt i (ch :: rest)) : At fmt (i + 1) rest := by
  have hcons : At fmt i ([ch] ++ rest) := h
  exact hcons.skip

theorem length_le (h : At fmt i rest) : rest.length ≤ fmt.length := by
  rw [← h.drop, List.length_drop]
  exact Nat.sub_le ..

end At

/-- A list whose first byte, if there is one, does not satisfy `p`; nor does the NUL that follows the empty list. -/
def Stops (p : BitVec 8 → Bool) (rest : List (BitVec 8)) : Prop := p (rest.headD 0#8) = false

theorem stops_dropWhile {p : BitVec 8 → Bool} (hp : p 0#8 = false) (bs : List (BitVec 8)) :
    Stops p (bs.dropWhile p) := by
  rw [Stops]
  cases hbs : bs.dropWhile p with
  | nil => exact hp
  | cons b rest =>
    have hhead := List.head?_dropWhile_not p bs
    rw [hbs] at hhead
    simpa using hhead

section Escape

variable {fmt rest flags : List (BitVec 8)} {i fuel : Nat} {ch : BitVec 8}

theorem isDigit_isFlag : ∀ ch, isFlag ch = false → isDigit ch = false := by
  decide

theorem isDigit_iff : ∀ ch, isDigit ch = false ↔ ch < chr '0' ∨ chr '9' < ch := by
  decide

theorem digits_eq {ds : List (BitVec 8)} (hds : ∀ d ∈ ds, isDigit d = true) (hrest : Stops isDigit rest)
    (h : At fmt i (ds ++ rest)) (hfuel : ds.length < fuel) (precision : Word) :
    digits fmt fuel i precision ch = .ok (decimal precision (ch :: ds), i + ds.length) := by
  induction ds generalizing i ch fuel precision with
  | nil =>
    obtain ⟨fuel, rfl⟩ : ∃ f, fuel = f + 1 := ⟨fuel - 1, by rw [List.length_nil] at hfuel; omega⟩
    rw [digits, h.fmtAt, Except.ok_bind, List.nil_append, if_pos ((isDigit_iff _).mp hrest)]
    rfl
  | cons d ds ih =>
    obtain ⟨fuel, rfl⟩ : ∃ f, fuel = f + 1 := ⟨fuel - 1, by omega⟩
    have hd : ¬ (d < chr '0' ∨ chr '9' < d) := by
      rw [← isDigit_iff, hds d (List.mem_cons_self ..)]
      exact Bool.noConfusion
    have hlen : i + (d :: ds).length = i + 1 + ds.length := by
      rw [List.length_cons]
      omega
    rw [digits, h.fmtAt, Except.ok_bind, hlen]
    refine (if_neg hd).trans ?_
    exact ih (fun d' hd' => hds d' (List.mem_cons_of_mem d hd')) h.next (Nat.lt_of_succ_lt_succ hfuel) _

/-- A byte that is no further digit of a number. -/
theorem applyFlags_cons {skip : Bool} (hch : ¬ (skip = true ∧ isDigit ch = true)) (fs : List (BitVec 8)) (sp : Spec)
    (ap : Args) : applyFlags skip (ch :: fs) sp ap = applyFlags false (ch :: fs) sp ap := by
  have hfalse : ¬ (false = true ∧ isDigit ch = true) := fun hc => Bool.false_ne_true hc.1
  rw [applyFlags, if_neg hch, applyFlags, if_neg hfalse]

/-- Behind the first digit of a number the others do nothing. -/
theorem applyFlags_skip (fs : List (BitVec 8)) (sp : Spec) (ap : Args) :
    applyFlags true fs sp ap = applyFlags false (fs.dropWhile isDigit) sp ap := by
  induction fs with
  | nil => rfl
  | cons ch fs ih =>
    by_cases hd : isDigit ch = true
    · rw [applyFlags, if_pos ⟨rfl, hd⟩, ih, List.dropWhile_cons_of_pos hd]
    · rw [List.dropWhile_cons_of_neg hd, applyFlags_cons fun hc => hd hc.2]

theorem not_isFlag (hch : isFlag ch = false) : ch ≠ chr '-' ∧ ch ≠ chr '0' ∧ ¬ (chr '1' ≤ ch ∧ ch ≤ chr '9') ∧
    ch ≠ chr '*' ∧ ch ≠ chr '.' ∧ ch ≠ chr '#' ∧ ch ≠ chr 'l' := by
  simpa only [isFlag, decide_eq_false_iff_not, not_or] using hch

/-- The flags up to a byte that is none. -/
theorem reswitch_eq (hflags : ∀ ch ∈ flags, isFlag ch = true) (hrest : Stops isFlag rest)
    (h : At fmt i (flags ++ rest)) (hfuel : flags.length < fuel) (sp : Spec) (ap : Args) :
    reswitch fmt fuel i sp ap = .ok (rest.headD 0#8, i + flags.length + 1, applyFlags false flags sp ap) := by
  induction fuel generalizing flags i sp ap with
  | zero => cases hfuel
  | succ fuel ih =>
    cases flags with
    | nil =>
      obtain ⟨hminus, hzero, hnum, hstar, hdot, hhash, hl⟩ := not_isFlag hrest
      rw [reswitch, h.fmtAt, Except.ok_bind, List.nil_append, if_neg hminus, if_neg hzero, if_neg hnum,
        if_neg hstar, if_neg hdot, if_neg hhash, if_neg hl]
      rfl
    | cons ch fs =>
      have hfs : ∀ ch ∈ fs, isFlag ch = true := fun ch hch => hflags ch (List.mem_cons_of_mem _ hch)
      have hlt : fs.length < fuel := Nat.lt_of_succ_lt_succ hfuel
      have hlen : i + (ch :: fs).length + 1 = i + 1 + fs.length + 1 := by
        rw [List.length_cons]
        omega
      have hrec := ih hfs h.next hlt
      have hnumber : ∀ sp ap, (digits fmt fuel (i + 1) 0#32 ch >>= fun r =>
          reswitch fmt fuel r.2 (processPrecision sp r.1) ap) = .ok (rest.headD 0#8, i + 1 + fs.length + 1,
            applyFlags true fs (processPrecision sp (decimal 0#32 (ch :: fs.takeWhile isDigit))) ap) := by
        intro sp ap
        have hsplit : fs.takeWhile isDigit ++ fs.dropWhile isDigit = fs := List.takeWhile_append_dropWhile
        have hlens := congrArg List.length hsplit
        rw [List.length_append] at hlens
        have hat : At fmt (i + 1) (fs.takeWhile isDigit ++ (fs.dropWhile isDigit ++ rest)) := by
          rw [← List.append_assoc, hsplit]
          exact h.next
        have hstops : Stops isDigit (fs.dropWhile isDigit ++ rest) := by
          cases hd : fs.dropWhile isDigit with
          | nil => exact isDigit_isFlag _ hrest
          | cons d ds =>
            have hdrop := stops_dropWhile (p := isDigit) (by decide) fs
            rw [hd] at hdrop
            exact hdrop
        have hdigits : ∀ d ∈ fs.takeWhile isDigit, isDigit d = true :=
          List.all_eq_true.mp List.all_takeWhile
        have hdrop : ∀ ch ∈ fs.dropWhile isDigit, isFlag ch = true :=
          fun ch hch => hfs ch (List.dropWhile_subset isDigit hch)
        rw [digits_eq hdigits hstops hat (by omega), Except.ok_bind, ih hdrop hat.skip (by omega), applyFlags_skip]
        congr 3
        omega
      have hfalse : ¬ (false = true ∧ isDigit ch = true) := fun hc => Bool.false_ne_true hc.1
      have hhead : fmtAt fmt i = .ok ch := h.fmtAt
      rw [reswitch, hhead, Except.ok_bind, hlen, applyFlags, if_neg hfalse]
      by_cases hminus : ch = chr '-'
      · rw [if_pos hminus, if_pos hminus]
        exact hrec _ _
      rw [if_neg hminus, if_neg hminus]
      by_cases hzero : ch = chr '0'
      · rw [if_pos hzero, if_pos hzero]
        exact hrec _ _
      rw [if_neg hzero, if_neg hzero]
      by_cases hnum : chr '1' ≤ ch ∧ ch ≤ chr '9'
      · rw [if_pos hnum, if_pos hnum]
        exact hnumber _ _
      rw [if_neg hnum, if_neg hnum]
      by_cases hstar : ch = chr '*'
      · rw [if_pos hstar, if_pos hstar]
        exact hrec _ _
      rw [if_neg hstar, if_neg hstar]
      by_cases hdot : ch = chr '.'
      · rw [if_pos hdot, if_pos hdot]
        exact hrec _ _
      rw [if_neg hdot, if_neg hdot]
      by_cases hhash : ch = chr '#'
      · rw [if_pos hhash, if_pos hhash]
        exact hrec _ _
      rw [if_neg hhash, if_neg hhash]
      have hl : ch = chr 'l' := by
        have hflag := hflags ch (List.mem_cons_self ..)
        simp only [isFlag, decide_eq_true_eq] at hflag
        tauto
      rw [if_pos hl]
      exact hrec _ _

/-- Back to the byte behind the last `%`. -/
theorem backScan_eq {mid : List (BitVec 8)} (hmid : chr '%' ∉ mid) (h : At fmt i (chr '%' :: (mid ++ rest))) :
    backScan fmt (i + 1 + mid.length) = .ok (i + 1) := by
  have hback : ∀ k ≤ mid.length, backScan fmt (i + 1 + k) = .ok (i + 1) := by
    intro k hk
    induction k with
    | zero =>
      rw [backScan, h.fmtAt, Except.ok_bind]
      exact if_pos rfl
    | succ k ih =>
      have hlt : k < mid.length := hk
      have hat : At fmt (i + 1 + k) (mid.drop k ++ rest) := by
        have hsplit : mid ++ rest = mid.take k ++ (mid.drop k ++ rest) := by
          rw [← List.append_assoc, List.take_append_drop]
        have hnext := h.next
        rw [hsplit] at hnext
        have hskip := hnext.skip
        rwa [List.length_take, Nat.min_eq_left hlt.le] at hskip
      rw [List.drop_eq_getElem_cons hlt] at hat
      have hne : mid[k] ≠ chr '%' := fun hc => hmid (hc ▸ List.getElem_mem hlt)
      show backScan fmt (i + 1 + k + 1) = _
      rw [backScan, hat.fmtAt, Except.ok_bind]
      exact (if_neg hne).trans (ih hlt.le)
  exact hback mid.length le_rfl

end Escape

/-! ## The loop -/

section Loop

variable {m : Bytes} {fmt rest : List (BitVec 8)} {i fuel : Nat} {ap : Args} {items : List Item}

/-- The flags of a sequence. -/
theorem parse_flags {fs : List (BitVec 8)} (hfs : ∀ ch ∈ fs, isFlag ch = true) (flags rest : List (BitVec 8)) :
    parse (some flags) (fs ++ rest) = parse (some (flags ++ fs)) rest := by
  induction fs generalizing flags with
  | nil => rw [List.nil_append, List.append_nil]
  | cons ch fs ih =>
    rw [List.cons_append, parse, if_pos (hfs ch (List.mem_cons_self ..)),
      ih fun ch' hch' => hfs ch' (List.mem_cons_of_mem ch hch'), List.append_assoc, List.singleton_append]

/-- Without a `%` there is only text. -/
theorem parse_plain {bs : List (BitVec 8)} (hbs : chr '%' ∉ bs) (rest : List (BitVec 8)) :
    parse none (bs ++ rest) = bs.map Item.text ++ parse none rest := by
  induction bs with
  | nil => rfl
  | cons b bs ih =>
    rw [List.mem_cons, not_or] at hbs
    rw [List.cons_append, parse, if_neg fun hc => hbs.1 hc.symm, ih hbs.2]
    rfl

theorem suitable_plain (bs : List (BitVec 8)) : Suitable m (bs.map Item.text ++ items) ap ↔ Suitable m items ap := by
  induction bs with
  | nil => rfl
  | cons b bs ih => exact ih

/-- Text is written as it is. -/
theorem renders_plain {out : List Word} (bs : List (BitVec 8)) (h : Renders m (bs.map Item.text ++ items) ap out) :
    ∃ out', out = bs.map (fun b => b.setWidth 32) ++ out' ∧ Renders m items ap out' := by
  induction bs generalizing out with
  | nil => exact ⟨out, rfl, h⟩
  | cons b bs ih =>
    cases h with
    | text _ h =>
      obtain ⟨out', rfl, hout'⟩ := ih h
      exact ⟨out', rfl, hout'⟩

/-- A sequence that is none. The code prints its `%`, goes back to the byte behind, and then finds text only. -/
theorem renders_literal {flags : List (BitVec 8)} {ch : Option (BitVec 8)} {out : List Word}
    (h : Renders m ((flags ++ ch.toList).map Item.text ++ items) (applyFlags false flags {} ap).2 out) :
    Renders m (.literal flags ch :: items) ap (((chr '%').setWidth 32 : Word) :: out) := by
  obtain ⟨out', rfl, hout'⟩ := renders_plain _ h
  exact Renders.literal flags ch hout'

/-- What is left behind the flags of a sequence that is none. -/
theorem parse_unknown (flags : List (BitVec 8)) {after : List (BitVec 8)} (hafter : Stops isFlag after)
    (hch : after.headD 0#8 ∉ CONVERSIONS) : ∃ ch rest, after = Option.toList ch ++ rest ∧
      parse (some flags) after = .literal flags ch :: parse none rest ∧ chr '%' ∉ ch.toList := by
  cases after with
  | nil => exact ⟨none, [], rfl, rfl, List.not_mem_nil⟩
  | cons ch rest =>
    rw [List.headD_cons] at hch
    refine ⟨some ch, rest, rfl, ?_, ?_⟩
    · have hflag : ¬ isFlag ch = true := fun hc => Bool.false_ne_true (hafter.symm.trans hc)
      rw [parse, if_neg hflag, if_neg hch]
    · rw [Option.toList_some, List.mem_singleton]
      exact fun hc => hch (hc ▸ by decide)

/-- The loop from index `i` on. -/
theorem vprintfmt_renders (hnul : 0#8 ∉ fmt) (h : At fmt i rest) (hfuel : rest.length < fuel)
    (hs : Suitable m (parse none rest) ap) :
    Except.Returns (vprintfmt m fmt fuel i ap) fun o => Renders m (parse none rest) ap o.out := by
  induction fuel generalizing i rest ap with
  | zero => cases hfuel
  | succ fuel ih =>
    cases rest with
    | nil =>
      rw [vprintfmt, h.fmtAt, Except.ok_bind]
      exact ⟨{}, rfl, Renders.nil ap⟩
    | cons b rest =>
      have hlen : rest.length < fuel := Nat.lt_of_succ_lt_succ hfuel
      have hhead : fmtAt fmt i = .ok b := h.fmtAt
      have hb : b ≠ 0#8 := by
        rintro rfl
        have hmem : 0#8 ∈ fmt.drop i := h.drop ▸ List.mem_cons_self ..
        exact hnul (List.mem_of_mem_drop hmem)
      rw [vprintfmt, hhead, Except.ok_bind]
      rw [parse] at hs ⊢
      by_cases hpercent : b = chr '%'
      case neg =>
        rw [if_neg hpercent] at hs ⊢
        rw [if_pos hpercent, if_neg hb]
        refine (ih h.next hlen hs).bind fun o ho => ?_
        exact ⟨_, rfl, Renders.text b ho⟩
      case pos =>
        rw [if_pos hpercent] at hs ⊢
        rw [if_neg (not_not.mpr hpercent)]
        subst hpercent
        have hsplit : rest.takeWhile isFlag ++ rest.dropWhile isFlag = rest := List.takeWhile_append_dropWhile
        have hflags : ∀ ch ∈ rest.takeWhile isFlag, isFlag ch = true := List.all_eq_true.mp List.all_takeWhile
        have hafter : Stops isFlag (rest.dropWhile isFlag) := stops_dropWhile (by decide) rest
        have hparse := parse_flags hflags [] (rest.dropWhile isFlag)
        rw [hsplit, List.nil_append] at hparse
        rw [hparse] at hs ⊢
        have hat := h.next
        have hle := hat.length_le
        have hrest : Suitable m (parse none rest) (applyFlags false (rest.takeWhile isFlag) {} ap).2 → _ :=
          ih hat hlen
        rw [← hsplit, List.length_append] at hle hlen
        rw [← hsplit] at hat
        generalize rest.takeWhile isFlag = flags at *
        generalize rest.dropWhile isFlag = after at *
        subst hsplit
        rw [reswitch_eq hflags hafter hat (by omega), Except.ok_bind]
        by_cases hconv : after.headD 0#8 ∈ CONVERSIONS
        case pos =>
          obtain ⟨ch, rest', rfl⟩ : ∃ ch rest', after = ch :: rest' := by
            refine List.exists_cons_of_ne_nil ?_
            rintro rfl
            revert hconv
            decide
          rw [List.headD_cons] at hconv ⊢
          have hflag : ¬ isFlag ch = true := fun hc => Bool.false_ne_true (hafter.symm.trans hc)
          rw [parse, if_neg hflag, if_pos hconv] at hs ⊢
          obtain ⟨o, ho⟩ := convert_returns hconv hs.1
          rw [List.length_cons] at hlen
          simp only [ho, Except.ok_bind]
          refine (ih hat.skip.next (by omega) hs.2).bind fun o' ho' => ?_
          exact ⟨_, rfl, Renders.conv ho ho'⟩
        case neg =>
          obtain ⟨ch, rest', rfl, hitems, hplain⟩ := parse_unknown flags hafter hconv
          have hpercent : chr '%' ∉ flags := fun hmem => Bool.false_ne_true (hflags _ hmem)
          have hall : chr '%' ∉ flags ++ ch.toList := fun hmem =>
            (List.mem_append.mp hmem).elim hpercent hplain
          rw [hitems] at hs ⊢
          rw [← List.append_assoc, parse_plain hall, suitable_plain] at hrest
          simp only [convert_none hconv, Except.ok_bind]
          rw [Nat.add_sub_cancel, backScan_eq hpercent h, Except.ok_bind]
          refine (hrest hs).bind fun o ho => ?_
          exact ⟨_, rfl, renders_literal ho⟩

end Loop

/-- `vprintfmt` returns, has not read beyond either end of the format string, and has written what its parts ask for. -/
theorem cprintf_renders {m : Bytes} {fmt : List (BitVec 8)} {ap : Args} (hnul : 0#8 ∉ fmt)
    (hs : Suitable m (parse none fmt) ap) : ∃ o, cprintf m fmt ap = .ok o ∧ Renders m (parse none fmt) ap o.out :=
  vprintfmt_renders hnul ⟨Nat.zero_le _, rfl⟩ (Nat.lt_succ_self _) hs

/-- Memory with the string `"A"` at `0x1000`. -/
def demoStrings : Bytes := fun a => if a = 0x1000#32 then some (chr 'A') else some 0#8

/-- The format string `"v=%-3s%9y%0"`, with one escape sequence, one of an unknown kind and one that is cut off. -/
def demoFmt : List (BitVec 8) := ['v', '=', '%', '-', '3', 's', '%', '9', 'y', '%', '0'].map chr

theorem cprintf_renders_demo : ∃ o, cprintf demoStrings demoFmt (fun _ => 0x1000#32) = .ok o ∧
    Renders demoStrings (parse none demoFmt) (fun _ => 0x1000#32) o.out := by
  have hparse : parse none demoFmt = [.text (chr 'v'), .text (chr '='), .conv [chr '-', chr '3'] (chr 's'),
      .literal [chr '9'] (some (chr 'y')), .literal [chr '0'] none] := by
    decide
  have hprinted : Printed demoStrings (.mem 0x1000#32) 0 (-1#32) [chr 'A'] :=
    printed_cons.mpr ⟨rfl, by decide, by decide, printed_nil.mpr ⟨0#8, rfl, Or.inl rfl⟩⟩
  have hstring : ArgOk demoStrings (applyFlags false [chr '-', chr '3'] {} fun _ => 0x1000#32).1 (chr 's') 0x1000#32 :=
    ⟨fun _ _ => ⟨[chr 'A'], by decide, hprinted⟩, fun hc => absurd hc (by decide)⟩
  have hs : Suitable demoStrings (parse none demoFmt) fun _ => 0x1000#32 := by
    rw [hparse]
    exact ⟨hstring, trivial⟩
  exact cprintf_renders (by decide) hs

end Jos.Printfmt
