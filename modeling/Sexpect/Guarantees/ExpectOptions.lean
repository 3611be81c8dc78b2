import Sexpect.Guarantees.GlobMeaning
import Sexpect.Guarantees.Requests
import Sexpect.Source.GetArgs

/-!
# The options of `expect`

`ExpectTakes` lists what one argument of `expect` can do.  The flag word is a set of
six bits while the arguments are read, `ExpBits`; `Noted` relates it to what the
arguments ask for, and from the checks behind the loop the request is in one of three
forms, unless `-nocase` is all there is.
-/
namespace Sexpect.Guarantees
open Sexpect.Lib Sexpect.Source

/-- Both halves of a sequence that succeeds do. -/
theorem bind_ok {ε α β : Type} {first : Except ε α} {second : α → Except ε β} {result : β}
    (h : (first >>= second) = .ok result) :
    ∃ mid, first = .ok mid ∧ second mid = .ok result := by
  cases hfirst : first with
  | error e =>
    rw [hfirst] at h
    cases h
  | ok mid =>
    rw [hfirst] at h
    exact ⟨mid, rfl, h⟩

theorem nextarg_ok {arg next : Bytes} {rest rest' : List Bytes}
    (h : nextarg arg rest = .ok (next, rest')) : rest = next :: rest' := by
  cases rest with
  | nil => cases h
  | cons a as =>
    cases h
    rfl

/-- An argument that is one of some names. -/
theorem mem_of_str1of {arg : Bytes} {names : List String} (h : str1of arg names = true) :
    arg ∈ names.map ascii := by
  obtain ⟨name, hmem, heq⟩ := List.any_eq_true.mp h
  rw [of_decide_eq_true heq]
  exact List.mem_map_of_mem hmem

theorem str1of_more {arg : Bytes} {names more : List String} (h : str1of arg names = true)
    (hmore : ∀ name ∈ names, str1of (ascii name) more = true) : str1of arg more = true := by
  obtain ⟨name, hmem, rfl⟩ := List.mem_map.mp (mem_of_str1of h)
  exact hmore name hmem

/-- It is not one of others. -/
theorem str1of_others {arg : Bytes} {names others : List String} (h : str1of arg names = true)
    (hothers : ∀ name ∈ names, str1of (ascii name) others = false) : str1of arg others = false := by
  obtain ⟨name, hmem, rfl⟩ := List.mem_map.mp (mem_of_str1of h)
  exact hothers name hmem

/-- The names of options all start with a dash. -/
theorem isDash_of_str1of {arg : Bytes} {names : List String} (h : str1of arg names = true)
    (hnames : ∀ name ∈ names, isDash (ascii name) = true) : isDash arg = true := by
  obtain ⟨name, hmem, rfl⟩ := List.mem_map.mp (mem_of_str1of h)
  exact hnames name hmem

theorem str1of_word {arg : Bytes} {names : List String} (h : isDash arg = false)
    (hnames : ∀ name ∈ names, isDash (ascii name) = true) : str1of arg names = false := by
  by_contra hone
  have hdash := isDash_of_str1of (by simpa using hone) hnames
  rw [h] at hdash
  cases hdash

/-! ## One argument -/

/-- The options that take a pattern, with the flag each sets. -/
def patternOption (arg : Bytes) (mask : Int) : Prop :=
  str1of arg ["-exact", "-ex"] = true ∧ mask = passExpectExact ∨
    str1of arg ["-re"] = true ∧ mask = passExpectEre ∨
    str1of arg ["-glob", "-gl"] = true ∧ mask = passExpectGlob

/-- What an argument of `expect` and the ones it consumes do. -/
inductive ExpectTakes (st : PassArgs) : Bytes → List Bytes → PassArgs → List Bytes → Prop
  | pattern (arg next : Bytes) (rest : List Bytes) (mask : Int) : patternOption arg mask →
      ExpectTakes st arg (next :: rest) ((st.withPattern next).flag mask) rest
  | nocase (arg : Bytes) (rest : List Bytes) : str1of arg ["-nocase", "-icase", "-i"] = true →
      ExpectTakes st arg rest (st.flag passExpectIcase) rest
  | anchor (arg : Bytes) (rest : List Bytes) : str1of arg ["-anchor-newline", "-anchor"] = true →
      ExpectTakes st arg rest (st.flag passExpectNewline) rest
  | cstring (arg : Bytes) (rest : List Bytes) : str1of arg ["-cstring", "-cstr", "-c"] = true →
      ExpectTakes st arg rest { st with cstring := true } rest
  | eof (arg : Bytes) (rest : List Bytes) : str1of arg ["-eof"] = true →
      ExpectTakes st arg rest (st.flag passExpectEof) rest
  | timeout (arg next : Bytes) (rest : List Bytes) (n : Int) :
      str1of arg ["-timeout", "-t"] = true → arg2int next = .ok n →
      ExpectTakes st arg (next :: rest)
        { st with opts := { st.opts with hasTimeout := true, timeout := if n < 0 then -1 else n } } rest
  | lookback (arg next : Bytes) (rest : List Bytes) (n : Int) :
      str1of arg ["-lookback", "-lb"] = true → arg2uint next = .ok n →
      ExpectTakes st arg (next :: rest) { st with opts := { st.opts with lookback := n } } rest
  | word (arg : Bytes) (rest : List Bytes) : isDash arg = false → arg ≠ [] →
      hasFlag st.opts.expflags passExpectExact = false →
      ExpectTakes st arg rest ((st.withPattern arg).flag passExpectExact) rest

theorem expectArg_takes {arg : Bytes} {rest rest' : List Bytes} {st st' : PassArgs}
    (h : expectArg arg rest st = .ok (st', rest')) : ExpectTakes st arg rest st' rest' := by
  unfold expectArg at h
  obtain ⟨hname, h⟩ | ⟨-, h⟩ := ite_eq_iff.mp h
  · obtain ⟨⟨next, rest₁⟩, hnext, h⟩ := bind_ok h
    obtain rfl := nextarg_ok hnext
    have hmem := mem_of_str1of hname
    obtain ⟨hexact, h⟩ | ⟨hexact, h⟩ := ite_eq_iff.mp h
    · cases h
      exact .pattern arg next _ _ (.inl ⟨hexact, rfl⟩)
    · obtain ⟨hre, h⟩ | ⟨hre, h⟩ := ite_eq_iff.mp h
      · cases h
        exact .pattern arg next _ _ (.inr (.inl ⟨hre, rfl⟩))
      · cases h
        refine .pattern arg next _ _ (.inr (.inr ⟨?_, rfl⟩))
        simp only [List.map_cons, List.map_nil, List.mem_cons, List.not_mem_nil, or_false] at hmem
        obtain rfl | rfl | rfl | rfl | rfl := hmem
        · exact absurd (by decide) hexact
        · exact absurd (by decide) hexact
        · exact absurd (by decide) hre
        · decide
        · decide
  obtain ⟨hname, h⟩ | ⟨-, h⟩ := ite_eq_iff.mp h
  · cases h
    exact .nocase arg _ hname
  obtain ⟨hname, h⟩ | ⟨-, h⟩ := ite_eq_iff.mp h
  · cases h
    exact .anchor arg _ hname
  obtain ⟨hname, h⟩ | ⟨-, h⟩ := ite_eq_iff.mp h
  · cases h
    exact .cstring arg _ hname
  obtain ⟨hname, h⟩ | ⟨-, h⟩ := ite_eq_iff.mp h
  · cases h
    exact .eof arg _ hname
  obtain ⟨hname, h⟩ | ⟨-, h⟩ := ite_eq_iff.mp h
  · obtain ⟨⟨next, rest₁⟩, hnext, hvalue⟩ := bind_ok h
    obtain rfl := nextarg_ok hnext
    obtain ⟨n, hn, hdone⟩ := bind_ok hvalue
    cases hdone
    exact .timeout arg next _ n hname hn
  obtain ⟨hname, h⟩ | ⟨-, h⟩ := ite_eq_iff.mp h
  · obtain ⟨⟨next, rest₁⟩, hnext, hvalue⟩ := bind_ok h
    obtain rfl := nextarg_ok hnext
    obtain ⟨n, hn, hdone⟩ := bind_ok hvalue
    cases hdone
    exact .lookback arg next _ n hname hn
  obtain ⟨-, h⟩ | ⟨hdash, h⟩ := ite_eq_iff.mp h
  · cases h
  obtain ⟨-, h⟩ | ⟨hempty, h⟩ := ite_eq_iff.mp h
  · cases h
  obtain ⟨-, h⟩ | ⟨hflag, h⟩ := ite_eq_iff.mp h
  · cases h
  cases h
  exact .word arg _ (decide_eq_false hdash) hempty (by simpa using hflag)

/-- The rest of the list behind an argument. -/
theorem ExpectTakes.rest {st st' : PassArgs} {arg : Bytes} {rest rest' : List Bytes}
    (h : ExpectTakes st arg rest st' rest') : rest' = rest ∨ ∃ next, rest = next :: rest' := by
  cases h with
  | pattern | timeout | lookback => exact .inr ⟨_, rfl⟩
  | nocase | anchor | cstring | eof | word => exact .inl rfl

/-! ## The flag word -/

/-- The flags that the options of `expect` set. -/
@[ext] structure ExpBits where
  exact : Bool := false
  glob : Bool := false
  ere : Bool := false
  eof : Bool := false
  icase : Bool := false
  newline : Bool := false
  deriving DecidableEq, Repr

def bit (b : Bool) (mask : Int) : Int := if b then mask else 0

def ExpBits.flags (b : ExpBits) : Int :=
  bit b.exact passExpectExact + bit b.glob passExpectGlob + bit b.ere passExpectEre +
    bit b.eof passExpectEof + bit b.icase passExpectIcase + bit b.newline passExpectNewline

/-- A pattern was given. -/
def ExpBits.hasPattern (b : ExpBits) : Bool := b.exact || b.glob || b.ere

section

variable (b : ExpBits)

/-- Each option adds its flag. -/
theorem setFlag_bits :
    setFlag b.flags passExpectExact = { b with exact := true }.flags ∧
      setFlag b.flags passExpectGlob = { b with glob := true }.flags ∧
      setFlag b.flags passExpectEre = { b with ere := true }.flags ∧
      setFlag b.flags passExpectEof = { b with eof := true }.flags ∧
      setFlag b.flags passExpectIcase = { b with icase := true }.flags ∧
      setFlag b.flags passExpectNewline = { b with newline := true }.flags ∧
      clearFlag b.flags passExpectGlob = { b with glob := false }.flags := by
  obtain ⟨exact, glob, ere, eof, icase, newline⟩ := b
  revert exact glob ere eof icase newline
  decide

/-- The flags are read back. -/
theorem hasFlag_bits :
    hasFlag b.flags passExpectExact = b.exact ∧ hasFlag b.flags passExpectGlob = b.glob ∧
      hasFlag b.flags passExpectEre = b.ere ∧ hasFlag b.flags passExpectEof = b.eof ∧
      hasFlag b.flags passExpectIcase = b.icase ∧ hasFlag b.flags passExpectNewline = b.newline := by
  obtain ⟨exact, glob, ere, eof, icase, newline⟩ := b
  revert exact glob ere eof icase newline
  decide

theorem flags_zero_iff : b.flags = 0 ↔ b = {} := by
  obtain ⟨exact, glob, ere, eof, icase, newline⟩ := b
  revert exact glob ere eof icase newline
  decide

theorem flags_range : 0 ≤ b.flags ∧ b.flags < 256 := by
  obtain ⟨exact, glob, ere, eof, icase, newline⟩ := b
  revert exact glob ere eof icase newline
  decide

end

/-! ## What the arguments ask for -/

structure ExpectGiven where
  pattern : Bool := false
  eof : Bool := false
  nocase : Bool := false
  deriving DecidableEq, Repr

def ExpectGiven.also (g h : ExpectGiven) : ExpectGiven :=
  { pattern := g.pattern || h.pattern, eof := g.eof || h.eof, nocase := g.nocase || h.nocase }

/-- Whether a list of arguments contains a pattern, `-eof` and `-nocase`; the value of
an option is none of them. -/
def expectGiven : List Bytes → ExpectGiven
  | [] => {}
  | arg :: rest =>
    if str1of arg ["-exact", "-ex", "-re", "-glob", "-gl"] then
      match rest with
      | [] => {}
      | _ :: rest => ExpectGiven.also { pattern := true } (expectGiven rest)
    else if str1of arg ["-timeout", "-t", "-lookback", "-lb"] then
      match rest with
      | [] => {}
      | _ :: rest => expectGiven rest
    else if str1of arg ["-nocase", "-icase", "-i"] then
      ExpectGiven.also { nocase := true } (expectGiven rest)
    else if str1of arg ["-eof"] then ExpectGiven.also { eof := true } (expectGiven rest)
    else if isDash arg then expectGiven rest
    else ExpectGiven.also { pattern := true } (expectGiven rest)

/-- The state of the loop behind arguments that ask for `g`. -/
structure Noted (g : ExpectGiven) (st : PassArgs) : Prop where
  bits : ∃ b : ExpBits, st.opts.expflags = b.flags ∧ b.eof = g.eof ∧ b.icase = g.nocase ∧
    b.hasPattern = g.pattern
  pattern : st.opts.pattern.isSome = g.pattern
  clean : ∀ p, st.opts.pattern = some p → (0 : UInt8) ∉ p

theorem Noted.start : Noted {} {} where
  bits := ⟨{}, rfl, rfl, rfl, rfl⟩
  pattern := rfl
  clean p hp := by cases hp

/-- A pattern is noted. -/
theorem Noted.withPattern {g : ExpectGiven} {st : PassArgs} (h : Noted g st) {next : Bytes}
    (hclean : (0 : UInt8) ∉ next) {mask : Int}
    (hmask : mask = passExpectExact ∨ mask = passExpectEre ∨ mask = passExpectGlob) :
    Noted (g.also { pattern := true }) ((st.withPattern next).flag mask) := by
  obtain ⟨b, hflags, heof, hicase, -⟩ := h.bits
  obtain ⟨hexact, hglob, here, -⟩ := setFlag_bits b
  refine ⟨?_, by simp [ExpectGiven.also, PassArgs.flag, PassArgs.withPattern], ?_⟩
  · obtain rfl | rfl | rfl := hmask
    · refine ⟨{ b with exact := true }, ?_, by simp [ExpectGiven.also, heof],
        by simp [ExpectGiven.also, hicase], by simp [ExpectGiven.also, ExpBits.hasPattern]⟩
      simp only [PassArgs.flag, PassArgs.withPattern, hflags, hexact]
    · refine ⟨{ b with ere := true }, ?_, by simp [ExpectGiven.also, heof],
        by simp [ExpectGiven.also, hicase], by simp [ExpectGiven.also, ExpBits.hasPattern]⟩
      simp only [PassArgs.flag, PassArgs.withPattern, hflags, here]
    · refine ⟨{ b with glob := true }, ?_, by simp [ExpectGiven.also, heof],
        by simp [ExpectGiven.also, hicase], by simp [ExpectGiven.also, ExpBits.hasPattern]⟩
      simp only [PassArgs.flag, PassArgs.withPattern, hflags, hglob]
  · rintro p hp
    obtain rfl := Option.some.inj hp
    exact hclean

/-- An option that touches neither the flags nor the pattern. -/
theorem Noted.frame {g : ExpectGiven} {st st' : PassArgs} (h : Noted g st)
    (hflags : st'.opts.expflags = st.opts.expflags) (hpattern : st'.opts.pattern = st.opts.pattern) :
    Noted g st' := by
  refine ⟨?_, ?_, ?_⟩
  · rw [hflags]
    exact h.bits
  · rw [hpattern]
    exact h.pattern
  · rw [hpattern]
    exact h.clean

theorem also_none (g : ExpectGiven) : g.also {} = g := by
  simp [ExpectGiven.also]

theorem also_assoc (g h k : ExpectGiven) : (g.also h).also k = g.also (h.also k) := by
  simp [ExpectGiven.also, Bool.or_assoc]

theorem Noted.withFlag {g : ExpectGiven} {st : PassArgs} (h : Noted g st) {asked : ExpectGiven}
    (hasked : asked.pattern = false) {mask : Int}
    (hmask : ∀ b : ExpBits, ∃ b' : ExpBits, setFlag b.flags mask = b'.flags ∧
      b'.eof = (b.eof || asked.eof) ∧ b'.icase = (b.icase || asked.nocase) ∧
      b'.hasPattern = b.hasPattern) :
    Noted (g.also asked) (st.flag mask) := by
  obtain ⟨b, hflags, heof, hicase, hpat⟩ := h.bits
  obtain ⟨b', hset, heof', hicase', hpat'⟩ := hmask b
  refine ⟨⟨b', ?_, ?_, ?_, ?_⟩, ?_, h.clean⟩
  · simp only [PassArgs.flag, hflags, hset]
  · simp only [ExpectGiven.also, heof', heof]
  · simp only [ExpectGiven.also, hicase', hicase]
  · simp only [ExpectGiven.also, hpat', hpat, hasked, Bool.or_false]
  · simp only [ExpectGiven.also, hasked, Bool.or_false]
    exact h.pattern

section

variable {arg next : Bytes} {rest : List Bytes}

theorem none_also (g : ExpectGiven) : ExpectGiven.also {} g = g := by
  simp [ExpectGiven.also]

theorem expectGiven_pattern (h : str1of arg ["-exact", "-ex", "-re", "-glob", "-gl"] = true) :
    expectGiven (arg :: next :: rest) = ExpectGiven.also { pattern := true } (expectGiven rest) := by
  simp only [expectGiven.eq_def (arg :: _), h, if_true]

/-- An option with a value that asks for nothing. -/
theorem expectGiven_value (h : str1of arg ["-timeout", "-t", "-lookback", "-lb"] = true) :
    expectGiven (arg :: next :: rest) = expectGiven rest := by
  have hpattern : str1of arg ["-exact", "-ex", "-re", "-glob", "-gl"] = false :=
    str1of_others h (by decide)
  simp only [expectGiven.eq_def (arg :: _), hpattern, h, if_true, Bool.false_eq_true, if_false]

/-- An option without a value. -/
theorem expectGiven_option (hdash : isDash arg = true)
    (hpattern : str1of arg ["-exact", "-ex", "-re", "-glob", "-gl"] = false)
    (hvalue : str1of arg ["-timeout", "-t", "-lookback", "-lb"] = false) :
    expectGiven (arg :: rest) = ExpectGiven.also
      { nocase := str1of arg ["-nocase", "-icase", "-i"], eof := str1of arg ["-eof"] }
      (expectGiven rest) := by
  simp only [expectGiven.eq_def (arg :: _), hpattern, hvalue, hdash, if_true, Bool.false_eq_true,
    if_false]
  cases hnocase : str1of arg ["-nocase", "-icase", "-i"] with
  | true =>
    have heof : str1of arg ["-eof"] = false := str1of_others hnocase (by decide)
    rw [heof]
    rfl
  | false =>
    cases heof : str1of arg ["-eof"] with
    | true => rfl
    | false => exact (none_also _).symm

theorem expectGiven_word (hdash : isDash arg = false) :
    expectGiven (arg :: rest) = ExpectGiven.also { pattern := true } (expectGiven rest) := by
  have hpattern : str1of arg ["-exact", "-ex", "-re", "-glob", "-gl"] = false :=
    str1of_word hdash (by decide)
  have hvalue : str1of arg ["-timeout", "-t", "-lookback", "-lb"] = false :=
    str1of_word hdash (by decide)
  have hnocase : str1of arg ["-nocase", "-icase", "-i"] = false := str1of_word hdash (by decide)
  have heof : str1of arg ["-eof"] = false := str1of_word hdash (by decide)
  simp only [expectGiven.eq_def (arg :: _), hpattern, hvalue, hnocase, heof, hdash,
    Bool.false_eq_true, if_false]

end

/-- An argument is noted for what it asks for. -/
theorem ExpectTakes.noted {st st' : PassArgs} {arg : Bytes} {rest rest' : List Bytes}
    (h : ExpectTakes st arg rest st' rest') (hclean : ∀ a ∈ arg :: rest, (0 : UInt8) ∉ a) :
    ∃ asked, expectGiven (arg :: rest) = asked.also (expectGiven rest') ∧
      ∀ g, Noted g st → Noted (g.also asked) st' := by
  cases h with
  | pattern next _ mask hname =>
    have hpattern : str1of arg ["-exact", "-ex", "-re", "-glob", "-gl"] = true := by
      obtain ⟨hname, -⟩ | ⟨hname, -⟩ | ⟨hname, -⟩ := hname
      all_goals exact str1of_more hname (by decide)
    refine ⟨{ pattern := true }, expectGiven_pattern hpattern, ?_⟩
    intro g hg
    refine hg.withPattern (hclean next (by simp)) ?_
    obtain ⟨-, rfl⟩ | ⟨-, rfl⟩ | ⟨-, rfl⟩ := hname
    · exact .inl rfl
    · exact .inr (.inl rfl)
    · exact .inr (.inr rfl)
  | nocase _ hname =>
    refine ⟨_, expectGiven_option (isDash_of_str1of hname (by decide)) (str1of_others hname (by decide))
      (str1of_others hname (by decide)), ?_⟩
    rw [hname, str1of_others hname (by decide)]
    intro g hg
    exact hg.withFlag rfl fun b =>
      ⟨{ b with icase := true }, (setFlag_bits b).2.2.2.2.1, by simp, by simp, rfl⟩
  | anchor _ hname =>
    refine ⟨_, expectGiven_option (isDash_of_str1of hname (by decide)) (str1of_others hname (by decide))
      (str1of_others hname (by decide)), ?_⟩
    rw [str1of_others hname (by decide), str1of_others hname (by decide)]
    intro g hg
    exact hg.withFlag rfl fun b =>
      ⟨{ b with newline := true }, (setFlag_bits b).2.2.2.2.2.1, by simp, by simp, rfl⟩
  | cstring _ hname =>
    refine ⟨_, expectGiven_option (isDash_of_str1of hname (by decide)) (str1of_others hname (by decide))
      (str1of_others hname (by decide)), ?_⟩
    rw [str1of_others hname (by decide), str1of_others hname (by decide)]
    intro g hg
    rw [also_none]
    exact hg.frame rfl rfl
  | eof _ hname =>
    refine ⟨_, expectGiven_option (isDash_of_str1of hname (by decide)) (str1of_others hname (by decide))
      (str1of_others hname (by decide)), ?_⟩
    rw [hname, str1of_others hname (by decide)]
    intro g hg
    exact hg.withFlag rfl fun b =>
      ⟨{ b with eof := true }, (setFlag_bits b).2.2.2.1, by simp, by simp, rfl⟩
  | timeout next _ n hname | lookback next _ n hname =>
    refine ⟨{}, ?_, ?_⟩
    · rw [none_also]
      exact expectGiven_value (str1of_more hname (by decide))
    · intro g hg
      rw [also_none]
      exact hg.frame rfl rfl
  | word _ hdash =>
    refine ⟨{ pattern := true }, expectGiven_word hdash, ?_⟩
    intro g hg
    exact hg.withPattern (hclean arg (by simp)) (.inl rfl)

/-- The loop notes what the arguments ask for. -/
theorem expectArgs_noted {n : Nat} {args : List Bytes} (hn : args.length ≤ n)
    (hclean : ∀ a ∈ args, (0 : UInt8) ∉ a) {st st' : PassArgs} {g : ExpectGiven} (hg : Noted g st)
    (h : expectArgs n args st = .ok st') : Noted (g.also (expectGiven args)) st' := by
  induction n generalizing args st g with
  | zero =>
    obtain rfl := List.length_eq_zero_iff.mp (Nat.le_zero.mp hn)
    cases h
    rw [expectGiven, also_none]
    exact hg
  | succ n ih =>
    cases args with
    | nil =>
      cases h
      rw [expectGiven, also_none]
      exact hg
    | cons arg rest =>
      obtain ⟨⟨st₁, rest₁⟩, hstep, hrun⟩ := bind_ok h
      have htakes := expectArg_takes hstep
      obtain ⟨asked, hasked, hnoted⟩ := htakes.noted hclean
      rw [hasked, ← also_assoc]
      simp only [List.length_cons] at hn
      obtain hsame | ⟨next, hnext⟩ := htakes.rest
      · subst hsame
        exact ih (by omega) (fun a ha => hclean a (List.mem_cons_of_mem _ ha)) (hnoted g hg) hrun
      · subst hnext
        simp only [List.length_cons] at hn
        refine ih (by omega) ?_ (hnoted g hg) hrun
        exact fun a ha => hclean a (List.mem_cons_of_mem _ (List.mem_cons_of_mem _ ha))

/-! ## The pattern -/

/-- A step of `glob2re` appends something and no zero octet. -/
theorem glob2reStep_clean {start : Bool} {c : UInt8} {inp text rest : Bytes}
    (hclean : (0 : UInt8) ∉ c :: inp) (h : glob2reStep start c inp = some (text, rest)) :
    text ≠ [] ∧ (0 : UInt8) ∉ text ∧ (0 : UInt8) ∉ rest := by
  have hinp : (0 : UInt8) ∉ inp := fun hin => hclean (List.mem_cons_of_mem _ hin)
  have hc : (0 : UInt8) ≠ c := fun heq => hclean (heq ▸ List.mem_cons_self)
  unfold glob2reStep at h
  obtain ⟨-, h⟩ | ⟨-, h⟩ := ite_eq_iff.mp h
  · cases h
    exact ⟨by simp, by decide, hinp⟩
  obtain ⟨-, h⟩ | ⟨-, h⟩ := ite_eq_iff.mp h
  · cases h
    exact ⟨by simp, by decide, hinp⟩
  obtain ⟨-, h⟩ | ⟨-, h⟩ := ite_eq_iff.mp h
  · cases h
    exact ⟨by simp, by decide, hinp⟩
  obtain ⟨-, h⟩ | ⟨-, h⟩ := ite_eq_iff.mp h
  · obtain ⟨negated, list, hb⟩ := globBracket_eq_some h
    rw [globBracket_of_bracket hb] at h
    obtain ⟨-, h⟩ | ⟨-, h⟩ := ite_eq_iff.mp h
    · cases h
    · cases h
      have hparts : (0 : UInt8) ∉ list ∧ (0 : UInt8) ∉ rest := by
        obtain ⟨-, -, ⟨-, rfl | rfl⟩ | ⟨-, rfl, -⟩⟩ := hb
        all_goals
          refine ⟨fun hin => hinp (by simp [hin]), fun hin => hinp (by simp [hin])⟩
      refine ⟨by simp, ?_, hparts.2⟩
      cases negated
      · simpa [hparts.1] using by decide
      · simpa [hparts.1] using by decide
  obtain ⟨-, h⟩ | ⟨-, h⟩ := ite_eq_iff.mp h
  · cases h
    cases start
    · exact ⟨by simp, by decide, hinp⟩
    · exact ⟨by simp, by decide, hinp⟩
  obtain ⟨-, h⟩ | ⟨-, h⟩ := ite_eq_iff.mp h
  · cases h
    refine ⟨?_, ?_, hinp⟩
    · split <;> simp
    · split <;> decide
  obtain ⟨-, h⟩ | ⟨-, h⟩ := ite_eq_iff.mp h
  · cases h
    refine ⟨by simp, ?_, hinp⟩
    simp only [List.mem_cons, List.not_mem_nil, or_false, not_or]
    exact ⟨by decide, hc, by decide⟩
  obtain ⟨-, h⟩ | ⟨-, h⟩ := ite_eq_iff.mp h
  · cases inp with
    | nil => cases h
    | cons c1 more =>
      have hmore : (0 : UInt8) ∉ more := fun hin => hinp (List.mem_cons_of_mem _ hin)
      have hc1 : (0 : UInt8) ≠ c1 := fun heq => hinp (heq ▸ List.mem_cons_self)
      obtain ⟨-, h⟩ | ⟨-, h⟩ := ite_eq_iff.mp h
      · cases h
        exact ⟨by simp, by decide, hmore⟩
      obtain ⟨-, h⟩ | ⟨-, h⟩ := ite_eq_iff.mp h
      · cases h
        refine ⟨by simp, ?_, hmore⟩
        simp only [List.mem_cons, List.not_mem_nil, or_false, not_or]
        exact ⟨by decide, hc1, by decide⟩
      · cases h
  · cases h
    exact ⟨by simp, by simpa using hc, hinp⟩

theorem glob2reLoop_clean {n : Nat} {start : Bool} {inp out : Bytes} (hclean : (0 : UInt8) ∉ inp)
    (h : glob2reLoop n start inp = some out) : (0 : UInt8) ∉ out ∧ (inp ≠ [] → out ≠ []) := by
  induction n generalizing start inp out with
  | zero =>
    cases inp with
    | nil =>
      cases h
      exact ⟨by simp, fun hne => absurd rfl hne⟩
    | cons c inp => cases h
  | succ n ih =>
    cases inp with
    | nil =>
      cases h
      exact ⟨by simp, fun hne => absurd rfl hne⟩
    | cons c inp =>
      simp only [glob2reLoop] at h
      split at h
      · cases h
      · rename_i text rest hstep
        obtain ⟨more, hmore, rfl⟩ := Option.map_eq_some_iff.mp h
        obtain ⟨hne, htext, hrest⟩ := glob2reStep_clean hclean hstep
        refine ⟨?_, fun _ => List.append_ne_nil_of_left_ne_nil hne _⟩
        intro hin
        obtain hin | hin := List.mem_append.mp hin
        · exact htext hin
        · exact (ih hrest hmore).1 hin

/-- The translation of a glob pattern is a pattern. -/
theorem glob2re_clean {pattern re : Bytes} (hclean : (0 : UInt8) ∉ pattern) (hne : pattern ≠ [])
    (h : glob2re pattern = some re) : re ≠ [] ∧ (0 : UInt8) ∉ re := by
  rw [glob2re, cstring_of_not_mem hclean] at h
  obtain ⟨hre, hnonempty⟩ := glob2reLoop_clean hclean h
  exact ⟨hnonempty hne, hre⟩

theorem usedPattern_ok {cstr : Bool} {pattern used : Bytes} (hclean : (0 : UInt8) ∉ pattern)
    (h : usedPattern cstr pattern = .ok used) : used ≠ [] ∧ (0 : UInt8) ∉ used := by
  have hnonempty : ∀ text : Bytes, (if text.length = 0 then
      Except.error (⟨"pattern cannot be empty", []⟩ : UsageError) else .ok text) = .ok used →
      text = used ∧ used ≠ [] := by
    intro text htext
    obtain ⟨-, habsurd⟩ | ⟨hlen, hok⟩ := ite_eq_iff.mp htext
    · cases habsurd
    · cases hok
      exact ⟨rfl, fun hnil => hlen (by rw [hnil, List.length_nil])⟩
  unfold usedPattern at h
  obtain ⟨-, h⟩ | ⟨-, h⟩ := ite_eq_iff.mp h
  · cases hunesc : strunesc pattern with
    | none =>
      rw [hunesc] at h
      cases h
    | some out =>
      rw [hunesc] at h
      obtain ⟨-, habsurd⟩ | ⟨hnul, h⟩ := ite_eq_iff.mp h
      · cases habsurd
      obtain ⟨rfl, hne⟩ := hnonempty out h
      -- as long as its C string, so it is its C string
      have hwhole : cstring out = out := by
        have hpre : cstring out <+: out := List.takeWhile_prefix _
        exact hpre.eq_of_length (not_not.mp hnul)
      refine ⟨hne, ?_⟩
      rw [← hwhole]
      exact zero_not_mem_cstring out
  · obtain ⟨rfl, hne⟩ := hnonempty pattern h
    exact ⟨hne, hclean⟩

/-! ## The request -/

/-- An `int` in range goes through its octets unchanged. -/
theorem int32_toInt {n : Int} (hlo : intMin ≤ n) (hhi : n ≤ intMax) : (int32 n).toInt = n := by
  have hmin : intMin = -2147483648 := rfl
  have hmax : intMax = 2147483647 := rfl
  rw [int32, BitVec.toInt_ofInt]
  apply Int.bmod_eq_of_le <;> omega

/-- The flags and the pattern a `PASS` request carries. -/
def requestFlags (m : Ttlv) : Int := (ttlvFindChild m Tag.expFlags).vInt

def requestPattern (m : Ttlv) : Option Bytes :=
  if ttlvFindChild m Tag.pattern = .null then none else some (ttlvFindChild m Tag.pattern).vRaw

theorem requestFlags_pass (subcmd : PassSubcmd) (opts : StPass) :
    requestFlags (passRequest subcmd opts) =
      (int32 (passDefaults subcmd opts).expflags).toInt := by
  simp [requestFlags, passRequest, findChild_struct, ttlvNewInt, findFrom_link, Tag.passSubcmd,
    Tag.expFlags, Ttlv.vInt, Ttlv.value]

theorem requestPattern_pass (subcmd : PassSubcmd) (opts : StPass) :
    requestPattern (passRequest subcmd opts) = (passDefaults subcmd opts).pattern := by
  generalize ho : passDefaults subcmd opts = o
  simp only [requestPattern, passRequest, ho, findChild_struct]
  rcases hp : o.pattern with _ | p <;> by_cases ht : o.hasTimeout <;> by_cases hl : o.lookback > 0 <;>
    simp [ht, hl, ttlvNewInt, ttlvNewText, findFrom_link, findFrom_nil, Tag.passSubcmd, Tag.expFlags,
      Tag.pattern, Tag.expTimeout, Tag.lookback, Ttlv.value, Ttlv.vRaw, TtlvValue.memory]

/-- Exactly one of `EXACT` and `ERE`, each with a pattern, and `EOF`, without one. -/
def NormalForm (flags : Int) (pattern : Option Bytes) : Prop :=
  hasFlag flags passExpectGlob = false ∧
    (hasFlag flags passExpectNewline = true → hasFlag flags passExpectEre = true) ∧
    (hasFlag flags passExpectExact = true ∧ hasFlag flags passExpectEre = false ∧
        hasFlag flags passExpectEof = false ∧ (∃ p, pattern = some p ∧ p ≠ [] ∧ (0 : UInt8) ∉ p) ∨
      hasFlag flags passExpectExact = false ∧ hasFlag flags passExpectEre = true ∧
        hasFlag flags passExpectEof = false ∧ (∃ p, pattern = some p ∧ p ≠ [] ∧ (0 : UInt8) ∉ p) ∨
      hasFlag flags passExpectExact = false ∧ hasFlag flags passExpectEre = false ∧
        hasFlag flags passExpectEof = true ∧ pattern = none)

/-- The request for a list of arguments is in normal form, and it is the documented
default when they ask for nothing. -/
def WellAsked (args : List Bytes) (m : Ttlv) : Prop :=
  NormalForm (requestFlags m) (requestPattern m) ∧
    ((expectGiven args).pattern = false → (expectGiven args).eof = false →
      hasFlag (requestFlags m) passExpectEre = true ∧ requestPattern m = some (ascii ".*"))

/-- What the checks behind the loop leave. -/
structure CheckedOpts (g : ExpectGiven) (opts : StPass) (b : ExpBits) : Prop where
  flags : opts.expflags = b.flags
  glob : b.glob = false
  newline : b.newline = true → b.ere = true
  single : (b.exact && b.ere || b.exact && b.eof || b.ere && b.eof) = false
  eof : b.eof = g.eof
  icase : b.icase = g.nocase
  asked : (b.exact || b.ere) = g.pattern
  absent : g.pattern = false → opts.pattern = none
  pattern : g.pattern = true → ∃ p, opts.pattern = some p ∧ p ≠ [] ∧ (0 : UInt8) ∉ p

theorem matchModes_bits (b : ExpBits) : matchModes b.flags ≤ 1 ↔
    (b.exact && b.ere || b.exact && b.eof || b.ere && b.eof || b.exact && b.glob ||
      b.ere && b.glob || b.eof && b.glob) = false := by
  obtain ⟨exact, glob, ere, eof, icase, newline⟩ := b
  revert exact glob ere eof icase newline
  decide

theorem expectPattern_checked {g : ExpectGiven} {st : PassArgs} (hg : Noted g st) {opts : StPass}
    (h : expectPattern st = .ok opts) : ∃ b, CheckedOpts g opts b := by
  obtain ⟨b, hflags, heof, hicase, hpat⟩ := hg.bits
  obtain ⟨-, hglob, here, -, -, hnewline⟩ := hasFlag_bits b
  unfold expectPattern at h
  rw [hflags, here, hnewline] at h
  obtain ⟨-, habsurd⟩ | ⟨hmodes, h⟩ := ite_eq_iff.mp h
  · cases habsurd
  obtain ⟨-, habsurd⟩ | ⟨hnl, h⟩ := ite_eq_iff.mp h
  · cases habsurd
  have hmodes := (matchModes_bits b).mp (not_lt.mp hmodes)
  have hnl : b.newline = true → b.ere = true := by simpa using hnl
  cases hp : st.opts.pattern with
  | none =>
    rw [hp] at h
    cases h
    have hnone : g.pattern = false := by
      rw [← hg.pattern, hp]
      rfl
    rw [hnone, ExpBits.hasPattern] at hpat
    have hbits : b.exact = false ∧ b.glob = false ∧ b.ere = false := by
      simpa [and_assoc] using hpat
    obtain ⟨hexact, hglob, here⟩ := hbits
    refine ⟨b, hflags, hglob, hnl, by simp [hexact, here], heof, hicase, ?_, fun _ => hp, ?_⟩
    · rw [hexact, here, hnone]
      rfl
    · intro hasked
      rw [hnone] at hasked
      cases hasked
  | some pattern =>
    rw [hp] at h
    obtain ⟨used, hused, h⟩ := bind_ok h
    obtain ⟨hne, hclean⟩ := usedPattern_ok (hg.clean pattern hp) hused
    have hsome : g.pattern = true := by
      rw [← hg.pattern, hp]
      rfl
    have habsent : g.pattern = false → opts.pattern = none := by
      intro hasked
      rw [hsome] at hasked
      cases hasked
    rw [hsome, ExpBits.hasPattern] at hpat
    obtain ⟨hwasglob, h⟩ | ⟨hwasglob, h⟩ := ite_eq_iff.mp h
    · rw [hglob] at hwasglob
      simp only [hwasglob, Bool.and_true, Bool.or_eq_false_iff] at hmodes
      obtain ⟨⟨⟨-, hexact⟩, here⟩, hnoeof⟩ := hmodes
      cases hre : glob2re used with
      | none =>
        rw [hre] at h
        cases h
      | some re =>
        rw [hre] at h
        cases h
        obtain ⟨-, -, hset, -⟩ := setFlag_bits { b with glob := false }
        obtain ⟨-, -, -, -, -, -, hclear⟩ := setFlag_bits b
        refine ⟨{ b with glob := false, ere := true }, ?_, rfl, fun _ => rfl, ?_, heof, hicase, ?_,
          habsent, fun _ => ⟨re, rfl, glob2re_clean hclean hne hre⟩⟩
        · simp only [hclear, hset]
        · simp [hexact, hnoeof]
        · simp [hsome]
    · rw [hglob, Bool.not_eq_true] at hwasglob
      cases h
      simp only [hwasglob, Bool.and_false, Bool.or_false] at hmodes hpat
      refine ⟨b, hflags, hwasglob, hnl, hmodes, heof, hicase, ?_, habsent,
        fun _ => ⟨used, rfl, hne, hclean⟩⟩
      rw [hsome]
      exact hpat

theorem getargsExpect_checked {args : List Bytes} (hclean : ∀ a ∈ args, (0 : UInt8) ∉ a)
    {opts : StPass} (h : getargsExpect args = .ok opts) :
    ∃ b, CheckedOpts (expectGiven args) opts b := by
  obtain ⟨st, hst, h⟩ := bind_ok h
  have hnoted := expectArgs_noted le_rfl hclean Noted.start hst
  rw [none_also] at hnoted
  exact expectPattern_checked hnoted h

/-- The request that goes out for the options. -/
theorem CheckedOpts.request {g : ExpectGiven} {opts : StPass} {b : ExpBits}
    (h : CheckedOpts g opts b) :
    requestFlags (passRequest .expect opts) = (if b = {} then passExpectEre else b.flags) ∧
      requestPattern (passRequest .expect opts) =
        if b = {} then some (ascii ".*") else opts.pattern := by
  have hrange := flags_range b
  have hint : (int32 b.flags).toInt = b.flags :=
    int32_toInt (le_trans (by decide) hrange.1) (le_trans hrange.2.le (by decide))
  rw [requestFlags_pass, requestPattern_pass, passDefaults]
  by_cases hzero : b = {}
  · have hflags : opts.expflags = 0 := by rw [h.flags, hzero]; rfl
    rw [if_pos ⟨rfl, hflags⟩, if_pos hzero, if_pos hzero]
    exact ⟨(by decide : (int32 passExpectEre).toInt = passExpectEre), rfl⟩
  · have hflags : ¬ opts.expflags = 0 := by
      rw [h.flags, flags_zero_iff]
      exact hzero
    rw [if_neg (fun hboth => hflags hboth.2), if_neg hzero, if_neg hzero, h.flags]
    exact ⟨hint, rfl⟩

/-- The flags of a request that is not the default one are read back. -/
theorem CheckedOpts.normalForm {g : ExpectGiven} {opts : StPass} {b : ExpBits}
    (h : CheckedOpts g opts b) : NormalForm b.flags opts.pattern ↔ g.pattern = true ∨ g.eof = true := by
  obtain ⟨hexact, hglob, here, heof, -, hnewline⟩ := hasFlag_bits b
  unfold NormalForm
  rw [hexact, hglob, here, heof, hnewline, ← h.eof]
  have hsingle := h.single
  have hasked := h.asked
  cases hg : g.pattern with
  | true =>
    have hsome := h.pattern hg
    rw [hg] at hasked
    refine ⟨fun _ => .inl rfl, fun _ => ⟨h.glob, h.newline, ?_⟩⟩
    cases hre : b.ere with
    | true =>
      simp only [hre, Bool.and_true, Bool.true_and, Bool.or_eq_false_iff] at hsingle
      exact .inr (.inl ⟨hsingle.1.1, rfl, hsingle.2, hsome⟩)
    | false =>
      rw [hre, Bool.or_false] at hasked
      simp only [hasked, hre, Bool.true_and, Bool.and_false, Bool.false_and, Bool.false_or,
        Bool.or_false] at hsingle
      exact .inl ⟨hasked, rfl, hsingle, hsome⟩
  | false =>
    rw [hg] at hasked
    obtain ⟨hnoexact, hnoere⟩ := Bool.or_eq_false_iff.mp hasked
    refine ⟨?_, ?_⟩
    · rintro ⟨-, -, ⟨hyes, -⟩ | ⟨-, hyes, -⟩ | ⟨-, -, hyes, -⟩⟩
      · rw [hnoexact] at hyes
        cases hyes
      · rw [hnoere] at hyes
        cases hyes
      · exact .inr hyes
    · rintro (hyes | hyes)
      · cases hyes
      · exact ⟨h.glob, h.newline, .inr (.inr ⟨hnoexact, hnoere, hyes, h.absent hg⟩)⟩

/-- For every list of arguments that is accepted: the request is as documented unless
`-nocase` is given with neither a pattern nor `-eof`. -/
theorem wellAsked_iff (args : List Bytes) (hclean : ∀ a ∈ args, (0 : UInt8) ∉ a) (opts : StPass)
    (h : getargsExpect args = .ok opts) :
    WellAsked args (passRequest .expect opts) ↔
      ¬ ((expectGiven args).nocase = true ∧ (expectGiven args).pattern = false ∧
        (expectGiven args).eof = false) := by
  obtain ⟨b, hb⟩ := getargsExpect_checked hclean h
  obtain ⟨hflags, hpattern⟩ := hb.request
  unfold WellAsked
  rw [hflags, hpattern]
  by_cases hzero : b = {}
  · -- nothing was asked for
    rw [if_pos hzero, if_pos hzero]
    have hnocase : (expectGiven args).nocase = false := by rw [← hb.icase, hzero]
    have hform : NormalForm passExpectEre (some (ascii ".*")) :=
      ⟨by decide, by decide, .inr (.inl ⟨by decide, by decide, by decide, _, rfl, by decide, by decide⟩)⟩
    refine ⟨?_, fun _ => ⟨hform, fun _ _ => ⟨by decide, rfl⟩⟩⟩
    rintro - ⟨hyes, -⟩
    rw [hnocase] at hyes
    cases hyes
  · rw [if_neg hzero, if_neg hzero, hb.normalForm]
    constructor
    · rintro ⟨hasked, -⟩ ⟨-, hnopattern, hnoeof⟩
      rw [hnopattern, hnoeof] at hasked
      obtain hyes | hyes := hasked <;> cases hyes
    · intro hnot
      have hasked : (expectGiven args).pattern = true ∨ (expectGiven args).eof = true := by
        by_contra hneither
        simp only [not_or, Bool.not_eq_true] at hneither
        -- then `-nocase` is not given either, and no flag is set
        have hnocase : (expectGiven args).nocase = false := by
          by_contra hyes
          exact hnot ⟨by simpa using hyes, hneither⟩
        have hbits := hb.asked
        rw [hneither.1, Bool.or_eq_false_iff] at hbits
        have hnonewline : b.newline = false := by
          by_contra hyes
          have here := hb.newline (by simpa using hyes)
          rw [hbits.2] at here
          cases here
        apply hzero
        have heof := hb.eof
        have hicase := hb.icase
        rw [hneither.2] at heof
        rw [hnocase] at hicase
        exact ExpBits.ext hbits.1 hb.glob hbits.2 heof hicase hnonewline
      refine ⟨hasked, ?_⟩
      intro hnopattern hnoeof
      rw [hnopattern, hnoeof] at hasked
      obtain hyes | hyes := hasked <;> cases hyes

theorem wellAsked_glob :
    ∃ opts, getargsExpect [ascii "-t", ascii "5", ascii "-i", ascii "-gl", ascii "a*"] = .ok opts ∧
      WellAsked [ascii "-t", ascii "5", ascii "-i", ascii "-gl", ascii "a*"]
        (passRequest .expect opts) :=
  ⟨_, rfl, (wellAsked_iff _ (by decide) _ rfl).mpr (by decide)⟩

/-- `expect -nocase` asks for nothing, and its request is not the default one. -/
theorem nocase_alone :
    ∃ opts, getargsExpect [ascii "-nocase"] = .ok opts ∧
      (∀ a ∈ [ascii "-nocase"], (0 : UInt8) ∉ a) ∧
      requestFlags (passRequest .expect opts) = passExpectIcase ∧
      requestPattern (passRequest .expect opts) = none ∧
      ¬ WellAsked [ascii "-nocase"] (passRequest .expect opts) := by
  refine ⟨{ expflags := passExpectIcase }, rfl, by decide, by decide, by decide, ?_⟩
  rintro ⟨⟨-, -, ⟨hyes, -⟩ | ⟨-, hyes, -⟩ | ⟨-, -, hyes, -⟩⟩, -⟩
  all_goals exact absurd hyes (by decide)

end Sexpect.Guarantees
