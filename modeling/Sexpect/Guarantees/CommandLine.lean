import Sexpect.Guarantees.OptionTables

/-!
# What becomes of the arguments

`TakesOption` is what one argument of a sub-command does to the list: it and the ones it
consumes are an option of the sub-command's table, and what remains is left for the next.
Every sub-command but `send` and `spawn` goes on from there to the end of the list;
`send` leaves its loop at `STRING`, and what is behind it is never looked at.
-/
namespace Sexpect.Guarantees
open Sexpect.Lib Sexpect.Source

section

variable {σ : Type} {t : OptionTable σ} {arg : Bytes} {rest : List Bytes} {st : σ}

/-- An option of the table, with or without a value, behind which the loop goes on. -/
structure TakesOption (t : OptionTable σ) (arg : Bytes) (rest : List Bytes) (st : σ)
    (p : Parsed σ) : Prop where
  goes : p.stop = false
  option : ∃ opt, arg :: rest = opt ++ p.rest ∧ t.Takes st opt p.st

theorem TakesOption.left {p : Parsed σ} (h : TakesOption t arg rest st p) : p.rest <:+ rest := by
  obtain ⟨opt, heq, htakes⟩ := h.option
  cases htakes with
  | flag =>
    obtain ⟨-, hrest⟩ := List.cons.inj heq
    exact ⟨[], hrest.symm⟩
  | @value _ _ next =>
    obtain ⟨-, hrest⟩ := List.cons.inj heq
    exact ⟨[next], hrest.symm⟩

/-- Row `i` of the table says what a flag does. -/
theorem flagArg_takes (i : Nat) (hi : i < t.rows.length) {st' : σ} {p : Parsed σ}
    (hvalued : t.rows[i].valued = false) (hname : t.rows[i].called arg = true)
    (heffect : t.rows[i].effect arg st = some st') (h : flagArg rest st' = .ok p) :
    TakesOption t arg rest st p := by
  cases h
  exact ⟨rfl, [arg], rfl, .flag (List.getElem_mem hi) hvalued hname heffect⟩

theorem valueArg_ok {f : Bytes → Except UsageError σ} {p : Parsed σ}
    (h : valueArg arg rest f = .ok p) :
    ∃ next rest' st', rest = next :: rest' ∧ f next = .ok st' ∧ p = { st := st', rest := rest' } := by
  obtain ⟨⟨next, rest'⟩, hnext, h⟩ := bind_ok h
  obtain ⟨st', hst, h⟩ := bind_ok h
  cases h
  exact ⟨next, rest', st', nextarg_ok hnext, hst, rfl⟩

theorem valueArg_takes (i : Nat) (hi : i < t.rows.length) {f : Bytes → Except UsageError σ}
    {p : Parsed σ} (hvalued : t.rows[i].valued = true) (hname : t.rows[i].called arg = true)
    (heffect : ∀ next st', f next = .ok st' → t.rows[i].effect next st = some st')
    (h : valueArg arg rest f = .ok p) : TakesOption t arg rest st p := by
  obtain ⟨next, rest', st', rfl, hst, rfl⟩ := valueArg_ok h
  exact ⟨rfl, [arg, next], rfl,
    .value (List.getElem_mem hi) hvalued hname (heffect next st' hst)⟩

theorem textRow_effect {names : List String} {effect : Bytes → σ → σ} {next : Bytes} {st' : σ}
    (h : (Except.ok (effect next st) : Except UsageError σ) = .ok st') :
    (textRow names effect).effect next st = some st' := by
  cases h
  rfl

/-- A value that has to be read has been. -/
theorem valueRow_effect {α : Type} {names : List String} {read : Bytes → Except UsageError α}
    {effect : α → σ → σ} {next : Bytes} {st' : σ}
    (h : (do let a ← read next; Except.ok (effect a st)) = .ok st') :
    (valueRow names read effect).effect next st = some st' := by
  obtain ⟨a, ha, h⟩ := bind_ok h
  cases h
  simp only [valueRow, ha, Except.toOption, Option.map_some]

end

/-! ## The sub-commands -/

section

variable {arg : Bytes} {rest : List Bytes}

theorem chkerrArg_takes {st : StChkerr} {p : Parsed StChkerr} (h : chkerrArg arg rest st = .ok p) :
    TakesOption chkerrTable arg rest st p := by
  unfold chkerrArg at h
  obtain ⟨hname, h⟩ | ⟨-, h⟩ := ite_eq_iff.mp h
  · exact valueArg_takes 0 (by decide) rfl hname (fun _ _ => valueRow_effect) h
  obtain ⟨hname, h⟩ | ⟨-, h⟩ := ite_eq_iff.mp h
  · exact valueArg_takes 1 (by decide) rfl hname (fun _ _ => textRow_effect) h
  · cases h

theorem expectOutArg_takes {index : Int} {p : Parsed Int} (h : expectOutArg arg rest index = .ok p) :
    TakesOption expectOutTable arg rest index p := by
  unfold expectOutArg at h
  obtain ⟨hname, h⟩ | ⟨-, h⟩ := ite_eq_iff.mp h
  · refine valueArg_takes 0 (by decide) rfl hname ?_ h
    intro next n hn
    simp [expectOutTable, valueRow, hn, Except.toOption]
  · cases h

theorem getArg_takes {st : StGet} {p : Parsed StGet} (h : getArg arg rest st = .ok p) :
    TakesOption getTable arg rest st p := by
  unfold getArg at h
  obtain ⟨-, h⟩ | ⟨hfirst, h⟩ := ite_eq_iff.mp h
  · cases h
  obtain ⟨hname, h⟩ | ⟨-, h⟩ := ite_eq_iff.mp h
  · exact flagArg_takes 0 (by decide) rfl hname (if_neg hfirst) h
  obtain ⟨hname, h⟩ | ⟨-, h⟩ := ite_eq_iff.mp h
  · exact flagArg_takes 1 (by decide) rfl hname (if_neg hfirst) h
  obtain ⟨hname, h⟩ | ⟨-, h⟩ := ite_eq_iff.mp h
  · exact flagArg_takes 2 (by decide) rfl hname (if_neg hfirst) h
  obtain ⟨hname, h⟩ | ⟨-, h⟩ := ite_eq_iff.mp h
  · exact flagArg_takes 3 (by decide) rfl hname (if_neg hfirst) h
  obtain ⟨hname, h⟩ | ⟨-, h⟩ := ite_eq_iff.mp h
  · exact flagArg_takes 4 (by decide) rfl hname (if_neg hfirst) h
  obtain ⟨hname, h⟩ | ⟨-, h⟩ := ite_eq_iff.mp h
  · exact flagArg_takes 5 (by decide) rfl hname (if_neg hfirst) h
  obtain ⟨hname, h⟩ | ⟨-, h⟩ := ite_eq_iff.mp h
  · exact flagArg_takes 6 (by decide) rfl hname (if_neg hfirst) h
  obtain ⟨hname, h⟩ | ⟨-, h⟩ := ite_eq_iff.mp h
  · exact flagArg_takes 7 (by decide) rfl hname (if_neg hfirst) h
  obtain ⟨hname, h⟩ | ⟨-, h⟩ := ite_eq_iff.mp h
  · exact flagArg_takes 8 (by decide) rfl hname (if_neg hfirst) h
  obtain ⟨hname, h⟩ | ⟨-, h⟩ := ite_eq_iff.mp h
  · refine valueArg_takes 9 (by decide) rfl hname ?_ h
    intro next st' hst
    obtain ⟨n, hn, hst⟩ := bind_ok hst
    obtain ⟨-, habsurd⟩ | ⟨hrange, hst⟩ := ite_eq_iff.mp hst
    · cases habsurd
    cases hst
    have hbounds : ¬ st.gotOne = true ∧ 1 ≤ n ∧ n ≤ maxExpbufPeek := ⟨hfirst, by omega, by omega⟩
    show peekRow.effect next st = _
    simp only [peekRow, hn, Except.toOption, Option.bind_some, if_pos hbounds]
  · cases h

theorem interactArg_takes {st : InteractArgs} {p : Parsed InteractArgs}
    (h : interactArg arg rest st = .ok p) : TakesOption interactTable arg rest st p := by
  unfold interactArg at h
  obtain ⟨hname, h⟩ | ⟨-, h⟩ := ite_eq_iff.mp h
  · exact valueArg_takes 0 (by decide) rfl hname (fun _ _ => textRow_effect) h
  obtain ⟨hname, h⟩ | ⟨-, h⟩ := ite_eq_iff.mp h
  · exact flagArg_takes 1 (by decide) rfl hname rfl h
  obtain ⟨hname, h⟩ | ⟨-, h⟩ := ite_eq_iff.mp h
  · exact flagArg_takes 2 (by decide) rfl hname rfl h
  obtain ⟨hname, h⟩ | ⟨-, h⟩ := ite_eq_iff.mp h
  · exact flagArg_takes 3 (by decide) rfl hname rfl h
  obtain ⟨hname, h⟩ | ⟨-, h⟩ := ite_eq_iff.mp h
  · exact valueArg_takes 4 (by decide) rfl hname (fun _ _ => valueRow_effect) h
  obtain ⟨hname, h⟩ | ⟨-, h⟩ := ite_eq_iff.mp h
  · exact flagArg_takes 5 (by decide) rfl hname rfl h
  obtain ⟨hname, h⟩ | ⟨-, h⟩ := ite_eq_iff.mp h
  · exact valueArg_takes 6 (by decide) rfl hname (fun _ _ => textRow_effect) h
  · cases h

theorem setArg_takes {st : StSet} {p : Parsed StSet} (h : setArg arg rest st = .ok p) :
    TakesOption setTable arg rest st p := by
  unfold setArg at h
  obtain ⟨hname, h⟩ | ⟨-, h⟩ := ite_eq_iff.mp h
  · exact valueArg_takes 0 (by decide) rfl hname (fun _ _ => valueRow_effect) h
  obtain ⟨hname, h⟩ | ⟨-, h⟩ := ite_eq_iff.mp h
  · exact valueArg_takes 1 (by decide) rfl hname (fun _ _ => valueRow_effect) h
  obtain ⟨hname, h⟩ | ⟨-, h⟩ := ite_eq_iff.mp h
  · exact valueArg_takes 2 (by decide) rfl hname (fun _ _ => valueRow_effect) h
  obtain ⟨hname, h⟩ | ⟨-, h⟩ := ite_eq_iff.mp h
  · exact valueArg_takes 3 (by decide) rfl hname (fun _ _ => valueRow_effect) h
  obtain ⟨hname, h⟩ | ⟨-, h⟩ := ite_eq_iff.mp h
  · exact valueArg_takes 4 (by decide) rfl hname (fun _ _ => valueRow_effect) h
  · cases h

theorem waitArg_takes {st : PassArgs} {p : Parsed PassArgs} (h : waitArg arg rest st = .ok p) :
    TakesOption waitTable arg rest st p := by
  unfold waitArg at h
  obtain ⟨hname, h⟩ | ⟨-, h⟩ := ite_eq_iff.mp h
  · exact valueArg_takes 0 (by decide) rfl hname (fun _ _ => valueRow_effect) h
  · cases h

/-- A name that is known, behind its dash: one of the table, with or without `SIG`. -/
theorem upper_of_longname {name : Bytes} {short : String} (hshort : (ascii short).length ≤ 27)
    (h : ascii "SIG" ++ ascii short = ((if (name.take 3).map toupper = ascii "SIG" then name
      else ascii "SIG" ++ name).take 31).map toupper) :
    name.map toupper = ascii short ∨ name.map toupper = ascii "SIG" ++ ascii short := by
  have hlen := congrArg List.length h
  have hsig : (ascii "SIG").length = 3 := by decide
  have hupper : (ascii "SIG").map toupper = ascii "SIG" := by decide
  simp only [List.length_append, List.length_map, List.length_take, hsig] at hlen
  split at h
  · rw [List.take_of_length_le (by rw [if_pos ‹_›] at hlen; omega)] at h
    exact .inr h.symm
  · rw [if_neg ‹_›, List.length_append, hsig] at hlen
    rw [List.take_of_length_le (by rw [List.length_append, hsig]; omega), List.map_append, hupper] at h
    exact .inl (List.append_cancel_left h).symm

theorem name2sig_row {name : Bytes} (h : ¬ name2sig name < 0) :
    ∃ (i : Nat) (hi : i < killTable.rows.length) (short : String),
      killTable.rows[i] = sigNameRow short (name2sig name) ∧
        (name.map toupper = ascii short ∨ name.map toupper = ascii "SIG" ++ ascii short) := by
  unfold name2sig at h ⊢
  simp only at h ⊢
  split at h
  · rename_i entry hfind
    have hname := List.find?_some hfind
    simp only [decide_eq_true_eq] at hname
    have hmem := List.mem_of_find?_eq_some hfind
    simp only [List.mem_cons, List.not_mem_nil, or_false] at hmem
    obtain rfl | rfl | rfl | rfl | rfl | rfl | rfl | rfl | rfl := hmem
    · exact ⟨1, by decide, "CONT", rfl, upper_of_longname (by decide) hname⟩
    · exact ⟨2, by decide, "HUP", rfl, upper_of_longname (by decide) hname⟩
    · exact ⟨3, by decide, "INT", rfl, upper_of_longname (by decide) hname⟩
    · exact ⟨4, by decide, "KILL", rfl, upper_of_longname (by decide) hname⟩
    · exact ⟨5, by decide, "QUIT", rfl, upper_of_longname (by decide) hname⟩
    · exact ⟨6, by decide, "STOP", rfl, upper_of_longname (by decide) hname⟩
    · exact ⟨7, by decide, "TERM", rfl, upper_of_longname (by decide) hname⟩
    · exact ⟨8, by decide, "USR1", rfl, upper_of_longname (by decide) hname⟩
    · exact ⟨9, by decide, "USR2", rfl, upper_of_longname (by decide) hname⟩
  · exact absurd (by decide) h

theorem killArg_takes {signal : Int} {p : Parsed Int} (h : killArg arg rest signal = .ok p) :
    TakesOption killTable arg rest signal p := by
  unfold killArg at h
  obtain ⟨hdigits, h⟩ | ⟨-, h⟩ := ite_eq_iff.mp h
  · obtain ⟨n, hn, h⟩ := bind_ok h
    refine flagArg_takes 0 (by decide) rfl ?_ ?_ h
    · simpa [killTable, sigNumRow, and_assoc] using hdigits
    · simp [killTable, sigNumRow, hn, Except.toOption]
  obtain ⟨hdash, h⟩ | ⟨-, h⟩ := ite_eq_iff.mp h
  · obtain ⟨-, habsurd⟩ | ⟨hknown, h⟩ := ite_eq_iff.mp h
    · cases habsurd
    obtain ⟨i, hi, short, hrow, hname⟩ := name2sig_row hknown
    refine flagArg_takes i hi (by rw [hrow]; rfl) ?_ (by rw [hrow]; rfl) h
    rw [hrow]
    simpa [sigNameRow, hdash] using hname
  · cases h

end

/-! ## The loop -/

section

variable {σ : Type} {step : Bytes → List Bytes → σ → Except UsageError (Parsed σ)}
  {t : OptionTable σ}

theorem argLoop_cons {n : Nat} {arg : Bytes} {rest : List Bytes} {st : σ} {p : Parsed σ}
    (h : argLoop step (n + 1) (arg :: rest) st = .ok p) :
    ∃ p₁, step arg rest st = .ok p₁ ∧
      (p₁.stop = true ∧ p = p₁ ∨ p₁.stop = false ∧ argLoop step n p₁.rest p₁.st = .ok p) := by
  obtain ⟨p₁, hstep, h⟩ := bind_ok h
  refine ⟨p₁, hstep, ?_⟩
  split at h
  · rename_i hstop
    cases h
    exact .inl ⟨hstop, rfl⟩
  · rename_i hstop
    exact .inr ⟨by simpa using hstop, h⟩

theorem TakesOption.reads {arg : Bytes} {rest : List Bytes} {st st' : σ} {p : Parsed σ} {free : Bool}
    (h : TakesOption t arg rest st p) (hrest : t.Reads free p.st p.rest st') :
    t.Reads free st (arg :: rest) st' := by
  obtain ⟨opt, heq, htakes⟩ := h.option
  rw [heq]
  exact .option htakes hrest

/-- A sub-command that goes on behind every argument reads all of them. -/
theorem argLoop_options
    (hstep : ∀ arg rest st p, step arg rest st = .ok p → TakesOption t arg rest st p)
    {n : Nat} {args : List Bytes} (hn : args.length ≤ n) {st : σ} {p : Parsed σ}
    (h : argLoop step n args st = .ok p) : p.rest = [] ∧ t.Reads true st args p.st := by
  induction n generalizing args st p with
  | zero =>
    obtain rfl := List.length_eq_zero_iff.mp (Nat.le_zero.mp hn)
    cases h
    exact ⟨rfl, .nil⟩
  | succ n ih =>
    cases args with
    | nil =>
      cases h
      exact ⟨rfl, .nil⟩
    | cons arg rest =>
      obtain ⟨p₁, hp, h⟩ := argLoop_cons h
      have htakes := hstep arg rest st p₁ hp
      have hshort := htakes.left.length_le
      simp only [List.length_cons] at hn
      obtain ⟨hstop, -⟩ | ⟨-, h⟩ := h
      · rw [htakes.goes] at hstop
        cases hstop
      · obtain ⟨hnil, hreads⟩ := ih (by omega) h
        exact ⟨hnil, htakes.reads hreads⟩

end

/-! ## `expect` -/

theorem expectStep_ok {arg : Bytes} {rest : List Bytes} {st : PassArgs} {p : Parsed PassArgs}
    (h : expectStep arg rest st = .ok p) : ExpectTakes st arg rest p.st p.rest ∧ p.stop = false := by
  obtain ⟨⟨st', rest'⟩, hstep, h⟩ := bind_ok h
  cases h
  exact ⟨expectArg_takes hstep, rfl⟩

theorem ExpectTakes.left {st st' : PassArgs} {arg : Bytes} {rest rest' : List Bytes}
    (h : ExpectTakes st arg rest st' rest') : rest' <:+ rest := by
  obtain rfl | ⟨next, rfl⟩ := h.rest
  · exact List.suffix_rfl
  · exact List.suffix_cons ..

/-- An option of the table, or a word, which sets a flag that a second word finds. -/
theorem ExpectTakes.reads {st st' : PassArgs} {arg : Bytes} {rest rest' : List Bytes}
    (h : ExpectTakes st arg rest st' rest') {b : ExpBits} (hb : st.opts.expflags = b.flags) :
    ∃ b' : ExpBits, st'.opts.expflags = b'.flags ∧
      ((b.exact = true → b'.exact = true) ∧
          (∃ opt, arg :: rest = opt ++ rest' ∧ expectTable.Takes st opt st') ∨
        b.exact = false ∧ b'.exact = true ∧ rest' = rest ∧ expectTable.Operand st [arg] st') := by
  obtain ⟨hexact, hglob, here, heof, hicase, hnewline, -⟩ := setFlag_bits b
  have hrow : ∀ i, (hi : i < expectTable.rows.length) → expectTable.rows[i] ∈ expectTable.rows :=
    fun i hi => List.getElem_mem hi
  cases h with
  | pattern next _ mask hname =>
    obtain ⟨hname, rfl⟩ | ⟨hname, rfl⟩ | ⟨hname, rfl⟩ := hname
    · refine ⟨{ b with exact := true }, ?_, .inl ⟨fun _ => rfl, [arg, next], rfl,
        .value (hrow 0 (by decide)) rfl hname rfl⟩⟩
      simp only [PassArgs.flag, PassArgs.withPattern, hb, hexact]
    · refine ⟨{ b with ere := true }, ?_, .inl ⟨id, [arg, next], rfl,
        .value (hrow 1 (by decide)) rfl hname rfl⟩⟩
      simp only [PassArgs.flag, PassArgs.withPattern, hb, here]
    · refine ⟨{ b with glob := true }, ?_, .inl ⟨id, [arg, next], rfl,
        .value (hrow 2 (by decide)) rfl hname rfl⟩⟩
      simp only [PassArgs.flag, PassArgs.withPattern, hb, hglob]
  | nocase _ hname =>
    refine ⟨{ b with icase := true }, ?_, .inl ⟨id, [arg], rfl,
      .flag (hrow 3 (by decide)) rfl hname rfl⟩⟩
    simp only [PassArgs.flag, hb, hicase]
  | anchor _ hname =>
    refine ⟨{ b with newline := true }, ?_, .inl ⟨id, [arg], rfl,
      .flag (hrow 4 (by decide)) rfl hname rfl⟩⟩
    simp only [PassArgs.flag, hb, hnewline]
  | cstring _ hname =>
    exact ⟨b, hb, .inl ⟨id, [arg], rfl, .flag (hrow 5 (by decide)) rfl hname rfl⟩⟩
  | eof _ hname =>
    refine ⟨{ b with eof := true }, ?_, .inl ⟨id, [arg], rfl,
      .flag (hrow 6 (by decide)) rfl hname rfl⟩⟩
    simp only [PassArgs.flag, hb, heof]
  | timeout next _ n hname hn =>
    exact ⟨b, hb, .inl ⟨id, [arg, next], rfl,
      .value (hrow 7 (by decide)) rfl hname (valueRow_effect (by rw [hn]; rfl))⟩⟩
  | lookback next _ n hname hn =>
    exact ⟨b, hb, .inl ⟨id, [arg, next], rfl,
      .value (hrow 8 (by decide)) rfl hname (valueRow_effect (by rw [hn]; rfl))⟩⟩
  | word _ hdash hne hclear =>
    rw [hb, (hasFlag_bits b).1] at hclear
    refine ⟨{ b with exact := true }, ?_, .inr ⟨hclear, rfl, rfl, .word hdash rfl⟩⟩
    simp only [PassArgs.flag, PassArgs.withPattern, hb, hexact]

theorem argLoop_expect {n : Nat} {args : List Bytes} (hn : args.length ≤ n) {st : PassArgs}
    {b : ExpBits} (hb : st.opts.expflags = b.flags) {free : Bool}
    (hfree : free = false → b.exact = true) {p : Parsed PassArgs}
    (h : argLoop expectStep n args st = .ok p) :
    p.rest = [] ∧ expectTable.Reads free st args p.st := by
  induction n generalizing args st p b free with
  | zero =>
    obtain rfl := List.length_eq_zero_iff.mp (Nat.le_zero.mp hn)
    cases h
    exact ⟨rfl, .nil⟩
  | succ n ih =>
    cases args with
    | nil =>
      cases h
      exact ⟨rfl, .nil⟩
    | cons arg rest =>
      obtain ⟨p₁, hp, h⟩ := argLoop_cons h
      obtain ⟨htakes, hgoes⟩ := expectStep_ok hp
      have hshort := htakes.left.length_le
      simp only [List.length_cons] at hn
      obtain ⟨hstop, -⟩ | ⟨-, h⟩ := h
      · rw [hgoes] at hstop
        cases hstop
      obtain ⟨b', hb', ⟨hkeep, opt, heq, hopt⟩ | ⟨hclear, hset, heq, hword⟩⟩ := htakes.reads hb
      · obtain ⟨hnil, hreads⟩ := ih (by omega) hb' (fun hused => hkeep (hfree hused)) h
        rw [heq]
        exact ⟨hnil, .option hopt hreads⟩
      · cases free with
        | false =>
          rw [hfree rfl] at hclear
          cases hclear
        | true =>
          obtain ⟨hnil, hreads⟩ := ih (by omega) hb' (fun _ => hset) h
          rw [heq] at hreads
          exact ⟨hnil, .operand hword hreads⟩

/-! ## `send` -/

/-- The options of `send` that stand for themselves. -/
def sendFlag (arg : Bytes) : Bool :=
  str1of arg ["-cstring", "-cstr", "-c", "-cr", "-enter", "-strip"]

/-- Those that take a value. -/
def sendValue (arg : Bytes) : Bool := str1of arg ["-env", "-var", "-file", "-f", "-fd", "-limit"]

/-- What an option of `send` does with its value. -/
inductive SendValue (st : StSend) (arg next : Bytes) : StSend → Prop
  | env : str1of arg ["-env", "-var"] = true →
      SendValue st arg next { st with sources := st.sources + 1, envvar := some next }
  | file : str1of arg ["-file", "-f"] = true →
      SendValue st arg next { st with sources := st.sources + 1, filename := some next }
  | fd (n : Int) : str1of arg ["-fd"] = true → arg2uint next = .ok n →
      SendValue st arg next { st with sources := st.sources + 1, hasFd := true, fd := n }
  | limit (n : Int) : str1of arg ["-limit"] = true → arg2uint next = .ok n → 0 < n →
      n ≤ passMaxSend → SendValue st arg next { st with limit := n }

/-- What an argument of `send` and the ones behind it do. -/
inductive SendTakes (st : StSend) : Bytes → List Bytes → Parsed StSend → Prop
  | flag (arg : Bytes) (rest : List Bytes) : sendFlag arg = true →
      SendTakes st arg rest
        { st := { st with
            cstring := st.cstring || str1of arg ["-cstring", "-cstr", "-c"]
            enter := st.enter || str1of arg ["-cr", "-enter"]
            strip := st.strip || str1of arg ["-strip"] }
          rest := rest }
  | value (arg next : Bytes) (rest : List Bytes) (st' : StSend) :
      sendValue arg = true → SendValue st arg next st' →
      SendTakes st arg (next :: rest) { st := st', rest := rest }
  | dashes : SendTakes st (ascii "--") []
      { st := { st with sources := st.sources + 1 }, rest := [], stop := true }
  | dashed (next : Bytes) : SendTakes st (ascii "--") [next]
      { st := { st with sources := st.sources + 1, data := some next }, rest := [], stop := true }
  | word (arg : Bytes) (rest : List Bytes) : isDash arg = false → st.data = none →
      SendTakes st arg rest
        { st := { st with sources := st.sources + 1, data := some arg }, rest := rest, stop := true }

theorem sendArg_takes {arg : Bytes} {rest : List Bytes} {st : StSend} {p : Parsed StSend}
    (h : sendArg arg rest st = .ok p) : SendTakes st arg rest p := by
  unfold sendArg at h
  obtain ⟨hname, h⟩ | ⟨-, h⟩ := ite_eq_iff.mp h
  · cases h
    have hother : str1of arg ["-cr", "-enter"] = false := str1of_others hname (by decide)
    have hother' : str1of arg ["-strip"] = false := str1of_others hname (by decide)
    have htakes := @SendTakes.flag st arg rest (str1of_more hname (by decide))
    simpa [hname, hother, hother'] using htakes
  obtain ⟨hname, h⟩ | ⟨-, h⟩ := ite_eq_iff.mp h
  · cases h
    have hother : str1of arg ["-cstring", "-cstr", "-c"] = false := str1of_others hname (by decide)
    have hother' : str1of arg ["-strip"] = false := str1of_others hname (by decide)
    have htakes := @SendTakes.flag st arg rest (str1of_more hname (by decide))
    simpa [hname, hother, hother'] using htakes
  obtain ⟨hname, h⟩ | ⟨-, h⟩ := ite_eq_iff.mp h
  · cases h
    have hother : str1of arg ["-cstring", "-cstr", "-c"] = false := str1of_others hname (by decide)
    have hother' : str1of arg ["-cr", "-enter"] = false := str1of_others hname (by decide)
    have htakes := @SendTakes.flag st arg rest (str1of_more hname (by decide))
    simpa [hname, hother, hother'] using htakes
  obtain ⟨hname, h⟩ | ⟨-, h⟩ := ite_eq_iff.mp h
  · obtain ⟨next, rest', st', rfl, hst, rfl⟩ := valueArg_ok h
    cases hst
    exact .value arg next rest' _ (str1of_more hname (by decide)) (.env hname)
  obtain ⟨hname, h⟩ | ⟨-, h⟩ := ite_eq_iff.mp h
  · obtain ⟨next, rest', st', rfl, hst, rfl⟩ := valueArg_ok h
    cases hst
    exact .value arg next rest' _ (str1of_more hname (by decide)) (.file hname)
  obtain ⟨hname, h⟩ | ⟨-, h⟩ := ite_eq_iff.mp h
  · obtain ⟨next, rest', st', rfl, hst, rfl⟩ := valueArg_ok h
    obtain ⟨n, hn, hst⟩ := bind_ok hst
    cases hst
    exact .value arg next rest' _ (str1of_more hname (by decide)) (.fd n hname hn)
  obtain ⟨hname, h⟩ | ⟨-, h⟩ := ite_eq_iff.mp h
  · obtain ⟨next, rest', st', rfl, hst, rfl⟩ := valueArg_ok h
    obtain ⟨n, hn, hst⟩ := bind_ok hst
    obtain ⟨-, habsurd⟩ | ⟨hrange, hst⟩ := ite_eq_iff.mp hst
    · cases habsurd
    cases hst
    rw [not_or, not_le, not_lt] at hrange
    exact .value arg next rest' _ (str1of_more hname (by decide)) (.limit n hname hn hrange.1 hrange.2)
  obtain ⟨hname, h⟩ | ⟨-, h⟩ := ite_eq_iff.mp h
  · obtain rfl : arg = ascii "--" := List.mem_singleton.mp (mem_of_str1of hname)
    cases rest with
    | nil =>
      cases h
      exact .dashes
    | cons next more =>
      cases more with
      | nil =>
        cases h
        exact .dashed next
      | cons extra more => cases h
  obtain ⟨-, habsurd⟩ | ⟨hdash, h⟩ := ite_eq_iff.mp h
  · cases habsurd
  obtain ⟨hdata, h⟩ | ⟨-, habsurd⟩ := ite_eq_iff.mp h
  · cases h
    exact .word arg rest (by simpa using hdash) hdata
  · cases habsurd

/-- Options of `send` with their values, and no `--`. -/
inductive SendOptions : List Bytes → Prop
  | nil : SendOptions []
  | flag {arg : Bytes} {rest : List Bytes} : sendFlag arg = true → SendOptions rest →
      SendOptions (arg :: rest)
  | value {arg next : Bytes} {rest : List Bytes} : sendValue arg = true → SendOptions rest →
      SendOptions (arg :: next :: rest)

/-- `STRING`, not behind `--`, with arguments behind it. -/
def Trailing (args : List Bytes) : Prop :=
  ∃ front word back, args = front ++ word :: back ∧ SendOptions front ∧ isDash word = false ∧
    back ≠ []

theorem SendTakes.left {st : StSend} {arg : Bytes} {rest : List Bytes} {p : Parsed StSend}
    (h : SendTakes st arg rest p) : p.rest <:+ rest := by
  cases h with
  | flag | dashes | word => exact List.suffix_rfl
  | value | dashed => exact List.suffix_cons ..

/-- The flags of `send` are in three rows of its table. -/
theorem sendFlag_takes (st : StSend) {arg : Bytes} (h : sendFlag arg = true) :
    sendTable.Takes st [arg] { st with
      cstring := st.cstring || str1of arg ["-cstring", "-cstr", "-c"]
      enter := st.enter || str1of arg ["-cr", "-enter"]
      strip := st.strip || str1of arg ["-strip"] } := by
  have hrow : ∀ i, (hi : i < sendTable.rows.length) → sendTable.rows[i] ∈ sendTable.rows :=
    fun i hi => List.getElem_mem hi
  have hone : str1of arg ["-cstring", "-cstr", "-c"] = true ∨ str1of arg ["-cr", "-enter"] = true ∨
      str1of arg ["-strip"] = true := by
    simp only [sendFlag, str1of, List.any_cons, List.any_nil, Bool.or_eq_true, Bool.or_false] at h ⊢
    tauto
  obtain hname | hname | hname := hone
  · have hother : str1of arg ["-cr", "-enter"] = false := str1of_others hname (by decide)
    have hother' : str1of arg ["-strip"] = false := str1of_others hname (by decide)
    refine .flag (hrow 0 (by decide)) rfl hname ?_
    simp [sendTable, flagRow, hname, hother, hother']
  · have hother : str1of arg ["-cstring", "-cstr", "-c"] = false := str1of_others hname (by decide)
    have hother' : str1of arg ["-strip"] = false := str1of_others hname (by decide)
    refine .flag (hrow 1 (by decide)) rfl hname ?_
    simp [sendTable, flagRow, hname, hother, hother']
  · have hother : str1of arg ["-cstring", "-cstr", "-c"] = false := str1of_others hname (by decide)
    have hother' : str1of arg ["-cr", "-enter"] = false := str1of_others hname (by decide)
    refine .flag (hrow 2 (by decide)) rfl hname ?_
    simp [sendTable, flagRow, hname, hother, hother']

theorem SendValue.takes {st st' : StSend} {arg next : Bytes} (h : SendValue st arg next st') :
    sendTable.Takes st [arg, next] st' := by
  have hrow : ∀ i, (hi : i < sendTable.rows.length) → sendTable.rows[i] ∈ sendTable.rows :=
    fun i hi => List.getElem_mem hi
  cases h with
  | env hname => exact .value (hrow 3 (by decide)) rfl hname rfl
  | file hname => exact .value (hrow 4 (by decide)) rfl hname rfl
  | fd n hname hn =>
    exact .value (hrow 5 (by decide)) rfl hname (valueRow_effect (by rw [hn]; rfl))
  | limit n hname hn hlo hhi =>
    refine .value (hrow 6 (by decide)) rfl hname ?_
    show limitRow.effect next st = _
    simp only [limitRow, hn, Except.toOption, Option.bind_some, if_pos (And.intro hlo hhi)]

/-- Where `send` goes on, it has read an option; where it stops with nothing left, the operand or
a `--` without one. -/
theorem SendTakes.reads {st : StSend} {arg : Bytes} {rest : List Bytes} {p : Parsed StSend}
    (h : SendTakes st arg rest p) :
    (p.stop = false → ∃ opt, arg :: rest = opt ++ p.rest ∧ sendTable.Takes st opt p.st) ∧
      (p.stop = true → p.rest = [] → sendTable.Reads true st (arg :: rest) p.st) := by
  cases h with
  | flag _ _ hflag => exact ⟨fun _ => ⟨[arg], rfl, sendFlag_takes st hflag⟩, by rintro ⟨⟩⟩
  | value _ next rest _ _ hvalue => exact ⟨fun _ => ⟨[arg, next], rfl, hvalue.takes⟩, by rintro ⟨⟩⟩
  | dashes =>
    have hflag : sendTable.Takes st [ascii "--"] { st with sources := st.sources + 1 } :=
      .flag (List.getElem_mem (by decide : 7 < sendTable.rows.length)) rfl (by decide) rfl
    exact ⟨by rintro ⟨⟩, fun _ _ => .option hflag .nil⟩
  | dashed next => exact ⟨by rintro ⟨⟩, fun _ _ => .operand (.dashed rfl rfl) .nil⟩
  | word _ _ hdash =>
    refine ⟨by rintro ⟨⟩, fun _ hnil => ?_⟩
    cases hnil
    exact .operand (.word hdash rfl) .nil

/-- Words, options and `--` are told apart. -/
theorem sendFlag_dash {arg : Bytes} (h : sendFlag arg = true) :
    isDash arg = true ∧ sendValue arg = false :=
  ⟨isDash_of_str1of h (by decide), str1of_others h (by decide)⟩

theorem sendValue_dash {arg : Bytes} (h : sendValue arg = true) :
    isDash arg = true ∧ sendFlag arg = false :=
  ⟨isDash_of_str1of h (by decide), str1of_others h (by decide)⟩

theorem trailing_flag {arg : Bytes} {rest : List Bytes} (h : sendFlag arg = true) :
    Trailing (arg :: rest) ↔ Trailing rest := by
  obtain ⟨hdash, hnovalue⟩ := sendFlag_dash h
  constructor
  · rintro ⟨front, word, back, heq, hfront, hword, hback⟩
    cases hfront with
    | nil =>
      obtain ⟨rfl, -⟩ := List.cons.inj heq
      rw [hdash] at hword
      cases hword
    | flag _ hrest => exact ⟨_, word, back, (List.cons.inj heq).2, hrest, hword, hback⟩
    | value hvalue _ =>
      obtain ⟨rfl, -⟩ := List.cons.inj heq
      rw [hnovalue] at hvalue
      cases hvalue
  · rintro ⟨front, word, back, rfl, hfront, hword, hback⟩
    exact ⟨arg :: front, word, back, rfl, .flag h hfront, hword, hback⟩

theorem trailing_value {arg next : Bytes} {rest : List Bytes} (h : sendValue arg = true) :
    Trailing (arg :: next :: rest) ↔ Trailing rest := by
  obtain ⟨hdash, hnoflag⟩ := sendValue_dash h
  constructor
  · rintro ⟨front, word, back, heq, hfront, hword, hback⟩
    cases hfront with
    | nil =>
      obtain ⟨rfl, -⟩ := List.cons.inj heq
      rw [hdash] at hword
      cases hword
    | flag hflag _ =>
      obtain ⟨rfl, -⟩ := List.cons.inj heq
      rw [hnoflag] at hflag
      cases hflag
    | value _ hrest =>
      obtain ⟨-, heq⟩ := List.cons.inj heq
      exact ⟨_, word, back, (List.cons.inj heq).2, hrest, hword, hback⟩
  · rintro ⟨front, word, back, rfl, hfront, hword, hback⟩
    exact ⟨arg :: next :: front, word, back, rfl, .value h hfront, hword, hback⟩

/-- Where the list begins with something else than an option, that is the word. -/
theorem trailing_other {arg : Bytes} {rest : List Bytes} (hflag : sendFlag arg = false)
    (hvalue : sendValue arg = false) :
    Trailing (arg :: rest) ↔ isDash arg = false ∧ rest ≠ [] := by
  constructor
  · rintro ⟨front, word, back, heq, hfront, hword, hback⟩
    cases hfront with
    | nil =>
      obtain ⟨rfl, rfl⟩ := List.cons.inj heq
      exact ⟨hword, hback⟩
    | flag hyes _ =>
      obtain ⟨rfl, -⟩ := List.cons.inj heq
      rw [hflag] at hyes
      cases hyes
    | value hyes _ =>
      obtain ⟨rfl, -⟩ := List.cons.inj heq
      rw [hvalue] at hyes
      cases hyes
  · rintro ⟨hword, hback⟩
    exact ⟨[], arg, rest, rfl, .nil, hword, hback⟩

/-- The loop of `send` leaves exactly what is behind `STRING`. -/
theorem argLoop_send {n : Nat} {args : List Bytes} (hn : args.length ≤ n) {st : StSend}
    {p : Parsed StSend} (h : argLoop sendArg n args st = .ok p) :
    (p.rest = [] ↔ ¬ Trailing args) ∧ (p.rest = [] → sendTable.Reads true st args p.st) := by
  have hempty : ¬ Trailing [] := by
    rintro ⟨front, word, back, heq, -⟩
    simp at heq
  induction n generalizing args st p with
  | zero =>
    obtain rfl := List.length_eq_zero_iff.mp (Nat.le_zero.mp hn)
    cases h
    exact ⟨⟨fun _ => hempty, fun _ => rfl⟩, fun _ => .nil⟩
  | succ n ih =>
    cases args with
    | nil =>
      cases h
      exact ⟨⟨fun _ => hempty, fun _ => rfl⟩, fun _ => .nil⟩
    | cons arg rest =>
      obtain ⟨p₁, hp, h⟩ := argLoop_cons h
      have hsend := sendArg_takes hp
      have hshort := hsend.left.length_le
      simp only [List.length_cons] at hn
      obtain ⟨hstop, rfl⟩ | ⟨hgoes, h⟩ := h
      · refine ⟨?_, hsend.reads.2 hstop⟩
        cases hsend with
        | flag => cases hstop
        | value => cases hstop
        | dashes =>
          rw [trailing_other (by decide) (by decide)]
          exact ⟨fun _ hand => hand.2 rfl, fun _ => rfl⟩
        | dashed next =>
          rw [trailing_other (by decide) (by decide)]
          exact ⟨fun _ hand => absurd hand.1 (by decide), fun _ => rfl⟩
        | word _ _ hdash =>
          rw [trailing_other (str1of_word hdash (by decide)) (str1of_word hdash (by decide))]
          exact ⟨fun hnil hand => hand.2 hnil, fun hnot => by_contra fun hne => hnot ⟨hdash, hne⟩⟩
      · obtain ⟨hiff, hreads⟩ := ih (by omega) h
        obtain ⟨opt, heq, hopt⟩ := hsend.reads.1 hgoes
        refine ⟨?_, fun hnil => by rw [heq]; exact .option hopt (hreads hnil)⟩
        cases hsend with
        | flag _ _ hflag =>
          rw [trailing_flag hflag]
          exact hiff
        | value _ next _ _ hvalue =>
          rw [trailing_value hvalue]
          exact hiff
        | dashes => cases hgoes
        | dashed => cases hgoes
        | word => cases hgoes

/-! ## The command line -/

/-- The program takes all arguments behind the name of the sub-command, leaves none, and goes on
with the options that the table of the sub-command gives for them: every argument is an option
of it, the value of one, or the single operand. -/
def AllRead (cmd : SubCmd) (args : List Bytes) : Prop :=
  ∃ p, subArgs cmd args = .ok p ∧ p.rest = [] ∧ Interpreted cmd args p.st

def UsageRejected (env : Env) (argv : List Bytes) : Prop :=
  ∃ e, getargs env argv = .error (.usage e)

theorem walk_ok {σ : Type} {step : Bytes → List Bytes → σ → Except UsageError (Parsed σ)} {init : σ}
    {f : σ → SubOpts} {args : List Bytes} {p : Parsed SubOpts} (h : walk step init f args = .ok p) :
    ∃ q, argLoop step args.length args init = .ok q ∧ p = q.map f := by
  obtain ⟨q, hq, h⟩ := bind_ok h
  cases h
  exact ⟨q, hq, rfl⟩

/-- A sub-command with nothing but options. -/
theorem walk_options {σ : Type} {step : Bytes → List Bytes → σ → Except UsageError (Parsed σ)}
    {t : OptionTable σ} {init : σ} {f : σ → SubOpts} {args : List Bytes} {p : Parsed SubOpts}
    (h : walk step init f args = .ok p)
    (hstep : ∀ arg rest st p, step arg rest st = .ok p → TakesOption t arg rest st p) :
    p.rest = [] ∧ ∃ st, p.st = f st ∧ t.Reads true init args st := by
  obtain ⟨q, hq, rfl⟩ := walk_ok h
  obtain ⟨hnil, hreads⟩ := argLoop_options hstep le_rfl hq
  exact ⟨hnil, q.st, rfl, hreads⟩

/-- One without any. -/
theorem walk_noArg {opts : SubOpts} {args : List Bytes} {p : Parsed SubOpts}
    (h : walk noArg () (fun _ => opts) args = .ok p) : args = [] ∧ p.rest = [] ∧ p.st = opts := by
  obtain ⟨q, hq, rfl⟩ := walk_ok h
  cases args with
  | nil =>
    cases hq
    exact ⟨rfl, rfl, rfl⟩
  | cons arg rest => cases hq

/-- Other sub-commands than `send` and `spawn` read all that they accept. -/
theorem subArgs_read {cmd : SubCmd} {args : List Bytes} {p : Parsed SubOpts}
    (h : subArgs cmd args = .ok p) (hnamed : ∀ name, cmd ≠ .unknown name) (hspawn : cmd ≠ .spawn)
    (hsend : cmd ≠ .send) : p.rest = [] ∧ Interpreted cmd args p.st := by
  cases cmd with
  | chkerr =>
    obtain ⟨hnil, st, hst, hreads⟩ := walk_options h fun _ _ _ _ => chkerrArg_takes
    exact ⟨hnil, hst ▸ .chkerr hreads⟩
  | close =>
    obtain ⟨rfl, hnil, hst⟩ := walk_noArg h
    exact ⟨hnil, hst ▸ .close⟩
  | expect =>
    obtain ⟨q, hq, rfl⟩ := walk_ok h
    obtain ⟨hnil, hreads⟩ := @argLoop_expect _ _ le_rfl _ {} rfl true (by rintro ⟨⟩) _ hq
    exact ⟨hnil, .expect hreads⟩
  | expectOut =>
    obtain ⟨hnil, st, hst, hreads⟩ := walk_options h fun _ _ _ _ => expectOutArg_takes
    exact ⟨hnil, hst ▸ .expectOut hreads⟩
  | get =>
    obtain ⟨hnil, st, hst, hreads⟩ := walk_options h fun _ _ _ _ => getArg_takes
    exact ⟨hnil, hst ▸ .get hreads⟩
  | help =>
    obtain ⟨rfl, hnil, hst⟩ := walk_noArg h
    exact ⟨hnil, hst ▸ .help⟩
  | interact =>
    obtain ⟨hnil, st, hst, hreads⟩ := walk_options h fun _ _ _ _ => interactArg_takes
    exact ⟨hnil, hst ▸ .interact hreads⟩
  | kill =>
    obtain ⟨hnil, st, hst, hreads⟩ := walk_options h fun _ _ _ _ => killArg_takes
    exact ⟨hnil, hst ▸ .kill hreads⟩
  | send => exact absurd rfl hsend
  | set =>
    obtain ⟨hnil, st, hst, hreads⟩ := walk_options h fun _ _ _ _ => setArg_takes
    exact ⟨hnil, hst ▸ .set hreads⟩
  | spawn => exact absurd rfl hspawn
  | version =>
    obtain ⟨rfl, hnil, hst⟩ := walk_noArg h
    exact ⟨hnil, hst ▸ .version⟩
  | wait =>
    obtain ⟨hnil, st, hst, hreads⟩ := walk_options h fun _ _ _ _ => waitArg_takes
    exact ⟨hnil, hst ▸ .wait hreads⟩
  | unknown name => exact absurd rfl (hnamed name)

/-- For every command line that names a sub-command other than `spawn` and is not
refused with a usage error: all arguments behind the name are read, unless `send` has
its `STRING` without `--` and in front of other arguments. -/
theorem allRead_iff (env : Env) (argv : List Bytes) (g : GlobalOpts) (cmd : SubCmd)
    (args : List Bytes) (hcmd : globalArgs argv {} = .ok (g, some (cmd, args)))
    (hnamed : ∀ name, cmd ≠ .unknown name) (hspawn : cmd ≠ .spawn)
    (haccept : ¬ UsageRejected env argv) :
    AllRead cmd args ↔ ¬ (cmd = .send ∧ Trailing args) := by
  have hok : ∃ p, subArgs cmd args = .ok p := by
    cases hsub : subArgs cmd args with
    | ok p => exact ⟨p, rfl⟩
    | error e =>
      refine absurd ⟨e, ?_⟩ haccept
      simp only [getargs, hcmd, Except.mapError, bind, Except.bind, hsub]
  obtain ⟨p, hp⟩ := hok
  by_cases hsend : cmd = .send
  · subst hsend
    obtain ⟨q, hq, rfl⟩ := walk_ok hp
    obtain ⟨hrest, hreads⟩ := argLoop_send le_rfl hq
    constructor
    · rintro ⟨p', hp', hnil, -⟩ ⟨-, htrail⟩
      rw [hp] at hp'
      cases hp'
      exact hrest.mp hnil htrail
    · intro hnot
      have hnil := hrest.mpr fun htrail => hnot ⟨rfl, htrail⟩
      exact ⟨_, hp, hnil, .send (hreads hnil)⟩
  · refine ⟨fun _ hboth => hsend hboth.1, fun _ => ⟨p, hp, ?_⟩⟩
    exact subArgs_read hp hnamed hspawn hsend

/-- An environment with a socket and nothing else. -/
def bareEnv : Env where
  getenv var := if var = ascii "SEXPECT_SOCKFILE" then some (ascii "s.sock") else none
  stat _ := none
  access _ := false
  file _ := none
  descriptor _ := none

theorem allRead_expect :
    AllRead .expect [ascii "-t", ascii "5", ascii "login:", ascii "-i"] := by
  refine (allRead_iff bareEnv [ascii "ex", ascii "-t", ascii "5", ascii "login:", ascii "-i"] {}
    .expect _ (by decide) (fun _ => nofun) nofun ?_).mpr (fun h => nomatch h.1)
  rintro ⟨e, he⟩
  have hok : getargs bareEnv [ascii "ex", ascii "-t", ascii "5", ascii "login:", ascii "-i"] =
      .ok (.command (.pass .expect { hasTimeout := true, timeout := 5, expflags := 33,
                                     pattern := some (ascii "login:") }) []) := by
    decide
  rw [hok] at he
  cases he

/-- `send STRING -enter` is accepted, and `-enter` is not looked at. -/
theorem send_ignores_enter :
    getargs bareEnv [ascii "send", ascii "ls", ascii "-enter"] =
        .ok (.command (.send (ascii "ls") false) []) ∧
      globalArgs [ascii "send", ascii "ls", ascii "-enter"] {} =
        .ok ({}, some (.send, [ascii "ls", ascii "-enter"])) ∧
      ¬ UsageRejected bareEnv [ascii "send", ascii "ls", ascii "-enter"] ∧
      ¬ AllRead .send [ascii "ls", ascii "-enter"] := by
  have hok : getargs bareEnv [ascii "send", ascii "ls", ascii "-enter"] =
      .ok (.command (.send (ascii "ls") false) []) := by decide
  refine ⟨hok, by decide, ?_, ?_⟩
  · rintro ⟨e, he⟩
    rw [hok] at he
    cases he
  · rintro ⟨p, hp, hnil, -⟩
    have hsub : subArgs .send [ascii "ls", ascii "-enter"] =
        .ok { st := .send { sources := 1, data := some (ascii "ls") }, rest := [ascii "-enter"],
              stop := true } := by
      decide
    rw [hsub] at hp
    cases hp
    cases hnil

end Sexpect.Guarantees
