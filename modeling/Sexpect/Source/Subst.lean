import Sexpect.Source.Args

/-!
# Substitution in the output of `interact` (client.c:246-324, 530-659)

`cli_subst_compile` turns the `PATTERN::REPLACE` arguments into patterns and lists
of parts; `cli_subst` replaces matches in a C string.  Its loop has no bound, so
`cliSubst` takes a number of rounds and answers `none` when they do not suffice.
`substWrites` and `substRawWrites` are the same two functions with the descriptor
of every `write` they make.
-/
namespace Sexpect.Source
open Sexpect.Lib

/-- `Regex` with the verdict of `regcomp` on its own. -/
structure Regcomp extends Regex where
  regcomp (pattern : Bytes) (icase newline : Bool) : Bool

/-- `struct subst_repl_part`. -/
inductive ReplPart where
  | literal (str : Bytes)
  | group (index : Nat)
  deriving DecidableEq, Repr

/-- `struct subst_spec`: the pattern as compiled, and its replacement. -/
structure SubstSpec where
  pattern : Bytes
  icase : Bool := false
  newline : Bool := false
  repl : List ReplPart
  deriving DecidableEq, Repr

/-! ## `cli_subst_compile` -/

/-- The first match of `[(][0123456789][)]`: its offset and the digit. -/
def findGroup : Bytes → Option (Nat × Nat)
  | [] => none
  | c :: cs =>
    match c :: cs with
    | c0 :: c1 :: c2 :: _ =>
      if c0 = octet '(' ∧ isdigit c1 ∧ c2 = octet ')' then some (0, c1.toNat - 48)
      else (findGroup cs).map fun (so, digit) => (so + 1, digit)
    | _ => none

/-- The first loop of `cli_subst_parse_repl`; each match takes three octets. -/
def replParts : Nat → Bytes → List ReplPart
  | _, [] => []
  | 0, s => [.literal s]
  | n + 1, s =>
    match findGroup s with
    | none => [.literal s]
    | some (so, digit) =>
      (if so ≠ 0 then [.literal (s.take so)] else []) ++ .group digit :: replParts n (s.drop (so + 3))

/-- `-cstring` on a part. -/
def unescPart : ReplPart → Except UsageError ReplPart
  | .group index => .ok (.group index)
  | .literal str =>
    match strunesc str with
    | none => .error ⟨"invalid backslash escapes: %s", str⟩
    | some out =>
      if (cstring out).length ≠ out.length then .error ⟨"pattern cannot include NULL bytes", []⟩
      else .ok (.literal out)

def cliSubstParseRepl (cstr : Bool) (s : Bytes) : Except UsageError (List ReplPart) :=
  let parts := replParts s.length s
  if cstr then parts.mapM unescPart else .ok parts

/-- `PATTERN` behind `-cstring`. -/
def unescPattern (cstr : Bool) (pat : Bytes) : Except UsageError Bytes :=
  if cstr then
    match strunesc pat with
    | none => .error ⟨"invalid backslash escapes: %s", pat⟩
    | some out =>
      if (cstring out).length ≠ out.length then .error ⟨"pattern cannot include NULL bytes", []⟩
      else .ok out
  else .ok pat

/-- One argument of `-subst`. -/
def compileSpec (re : Regcomp) (icase newline cstr : Bool) (spec : Bytes) :
    Except UsageError SubstSpec :=
  match strstr spec (ascii "::") with
  | none => .error ⟨"format error: %s", spec⟩
  | some sep =>
    if sep = 0 then .error ⟨"pattern cannot be empty", []⟩
    else do
      let pat ← unescPattern cstr (spec.take sep)
      if ¬ re.regcomp pat icase newline then .error ⟨"invalid ERE pattern: %s", pat⟩
      else do
        let repl ← cliSubstParseRepl cstr (spec.drop (sep + 2))
        .ok { pattern := pat, icase := icase, newline := newline, repl := repl }

def cliSubstCompile (re : Regcomp) (icase newline cstr : Bool) (specs : List Bytes) :
    Except UsageError (List SubstSpec) :=
  specs.mapM (compileSpec re icase newline cstr)

/-- The two arrays of `MAX_SUBST` elements: `pass->subs` and the client's `g.subs`. -/
inductive SubsArray where
  | pass
  | client
  deriving DecidableEq, Repr

/-- Whether the round for an argument comes to `regcomp`, the first use of `g.subs[i]`. -/
def reachesRegcomp (cstr : Bool) (spec : Bytes) : Bool :=
  match strstr spec (ascii "::") with
  | none => false
  | some sep => sep ≠ 0 && (unescPattern cstr (spec.take sep)).isOk

/-- The arrays and the indices `cli_subst_compile` uses in them, from round `i` on. -/
def compileUses (re : Regcomp) (icase newline cstr : Bool) :
    Nat → List Bytes → List (SubsArray × Nat)
  | _, [] => []
  | i, spec :: specs =>
    (.pass, i) :: (if reachesRegcomp cstr spec then [(.client, i)] else []) ++
      match compileSpec re icase newline cstr spec with
      | .error _ => []
      | .ok _ => compileUses re icase newline cstr (i + 1) specs

/-! ## `cli_subst` -/

/-- The offsets of a match: the whole of it and the groups. -/
abbrev Matches := (Nat × Nat) × List (Option (Nat × Nat))

def SubstSpec.exec (re : Regex) (sub : SubstSpec) (s : Bytes) : Option Matches :=
  re.regexec sub.pattern sub.icase sub.newline s

/-- Lines 267-272: the first pattern that matches. -/
def substMatch (re : Regex) (s : Bytes) : List SubstSpec → Option (SubstSpec × Matches)
  | [] => none
  | sub :: subs =>
    match sub.exec re s with
    | some m => some (sub, m)
    | none => substMatch re s subs

/-- What the parts of a replacement emit. -/
def replText (s : Bytes) (m : Matches) : List ReplPart → Bytes
  | [] => []
  | .literal str :: parts => str ++ replText s m parts
  | .group index :: parts =>
    (match (some m.1 :: m.2)[index]? with
      | some (some (so, eo)) => (s.drop so).take (eo - so)
      | _ => []) ++ replText s m parts

/-- The loop of `cli_subst`: all that is written. -/
def cliSubst (re : Regex) (subs : List SubstSpec) : Nat → Bytes → Option Bytes
  | _, [] => some []
  | 0, _ :: _ => none
  | rounds + 1, c :: cs =>
    match substMatch re (c :: cs) subs with
    | none => some (c :: cs)
    | some (sub, m) =>
      (cliSubst re subs rounds ((c :: cs).drop m.1.2)).map fun more =>
        (c :: cs).take m.1.1 ++ replText (c :: cs) m sub.repl ++ more

/-- `cli_subst_raw` on a payload with the terminator `ttlv_decode` puts behind it. -/
def cliSubstRaw (re : Regex) (subs : List SubstSpec) (rounds : Nat) : Nat → Bytes → Option Bytes
  | _, [] => some []
  | 0, _ :: _ => none
  | n + 1, c :: cs =>
    let s := cstring (c :: cs)
    (cliSubst re subs rounds s).bind fun out =>
      match (c :: cs).drop s.length with
      | [] => some out
      | _ :: rest => (cliSubstRaw re subs rounds n rest).map fun more => out ++ 0 :: more

/-! ## The calls of `write` -/

def stdinFileno : Nat := 0

def stdoutFileno : Nat := 1

structure Write where
  fd : Nat
  bytes : Bytes
  deriving DecidableEq, Repr

/-- What arrives at a descriptor. -/
def writtenTo (fd : Nat) (ws : List Write) : Bytes := (ws.filter (·.fd = fd)).flatMap Write.bytes

/-- The writes for the parts of a replacement; a group that did not match has none. -/
def partWrites (fd : Nat) (s : Bytes) (m : Matches) : List ReplPart → List Write
  | [] => []
  | .literal str :: parts => ⟨fd, str⟩ :: partWrites fd s m parts
  | .group index :: parts =>
    (match (some m.1 :: m.2)[index]? with
      | some (some (so, eo)) => [⟨fd, (s.drop so).take (eo - so)⟩]
      | _ => []) ++ partWrites fd s m parts

/-- The writes of `cli_subst`, in the rounds of `cliSubst`; line 261 sets `fd`. -/
def substWrites (re : Regex) (subs : List SubstSpec) : Nat → Bytes → Option (List Write)
  | _, [] => some []
  | 0, _ :: _ => none
  | rounds + 1, c :: cs =>
    let fd := stdinFileno
    match substMatch re (c :: cs) subs with
    | none => some [⟨fd, c :: cs⟩]
    | some (sub, m) =>
      (substWrites re subs rounds ((c :: cs).drop m.1.2)).map fun more =>
        ⟨fd, (c :: cs).take m.1.1⟩ :: partWrites fd (c :: cs) m sub.repl ++ more

/-- The writes of `cli_subst_raw`; line 304 sets `fd`. -/
def substRawWrites (re : Regex) (subs : List SubstSpec) (rounds : Nat) :
    Nat → Bytes → Option (List Write)
  | _, [] => some []
  | 0, _ :: _ => none
  | n + 1, c :: cs =>
    let fd := stdinFileno
    let s := cstring (c :: cs)
    (substWrites re subs rounds s).bind fun out =>
      match (c :: cs).drop s.length with
      | [] => some out
      | _ :: rest => (substRawWrites re subs rounds n rest).map fun more => out ++ ⟨fd, [0]⟩ :: more

/-- The writes of `cli_loop` for the payload of a `TAG_OUTPUT` (lines 411-416). -/
def outputWrites (re : Regex) (subs : List SubstSpec) (rounds : Nat) (payload : Bytes) :
    Option (List Write) :=
  if subs.length > 0 then substRawWrites re subs rounds payload.length payload
  else some [⟨stdoutFileno, payload⟩]

end Sexpect.Source
