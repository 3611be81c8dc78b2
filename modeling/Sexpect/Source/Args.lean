import Sexpect.Source.Client
import Sexpect.Source.Escapes
import Sexpect.Source.Glob

/-!
# The options of `expect` (main.c:17-20, 172-217, 431-477, 756-806)

`getargs` walks over the arguments behind the sub-command and then checks and
translates the pattern.  Every failure is a `fatal(ERROR_USAGE, ...)` with a text
and the argument it names.
-/
namespace Sexpect.Source
open Sexpect.Lib

structure UsageError where
  text : String
  arg : Bytes := []
  deriving DecidableEq, Repr

/-- The value of the digits at the front of a string, and what follows them. -/
def strtolDigits : Nat → Bytes → Nat × Bytes
  | n, [] => (n, [])
  | n, c :: cs => if isdigit c then strtolDigits (n * 10 + (c.toNat - 48)) cs else (n, c :: cs)

def isspace (c : UInt8) : Bool := c = 32 || (9 ≤ c && c ≤ 13)

/-- `strtol` in base 10, before it is cut to the range of a `long`: the value and
the rest.  Without a digit nothing is consumed. -/
def strtol (s : Bytes) : Int × Bytes :=
  match s.dropWhile isspace with
  | [] => (0, s)
  | c :: cs =>
    let (negative, digits) :=
      if c = octet '-' then (true, cs) else if c = octet '+' then (false, cs) else (false, c :: cs)
    match digits with
    | [] => (0, s)
    | d :: _ =>
      if isdigit d then
        let (n, rest) := strtolDigits 0 digits
        (if negative then -n else n, rest)
      else (0, s)

def intMin : Int := -2 ^ 31

def intMax : Int := 2 ^ 31 - 1

/-- `arg2int`: a value beyond a `long` is beyond an `int` too. -/
def arg2int (s : Bytes) : Except UsageError Int :=
  if s = [] then .error ⟨"invalid number: %s", s⟩
  else
    let (lval, pend) := strtol s
    if pend ≠ [] then .error ⟨"invalid number: %s", s⟩
    else if lval < intMin ∨ lval > intMax then .error ⟨"out of range: %s", s⟩
    else .ok lval

def arg2uint (s : Bytes) : Except UsageError Int :=
  match arg2int s with
  | .error e => .error e
  | .ok n => if n < 0 then .error ⟨"out of range: %s", s⟩ else .ok n

def nextarg (prevArg : Bytes) (rest : List Bytes) : Except UsageError (Bytes × List Bytes) :=
  match rest with
  | [] => .error ⟨"%s requires an argument", prevArg⟩
  | arg :: rest => .ok (arg, rest)

def str1of (arg : Bytes) (names : List String) : Bool := names.any fun name => arg = ascii name

/-- `flags | mask` for a single-bit mask. -/
def setFlag (flags mask : Int) : Int := if hasFlag flags mask then flags else flags + mask

def clearFlag (flags mask : Int) : Int := if hasFlag flags mask then flags - mask else flags

/-- `struct st_pass` while the options are read. -/
structure PassArgs where
  opts : StPass := {}
  cstring : Bool := false
  deriving DecidableEq, Repr

def PassArgs.flag (mask : Int) (st : PassArgs) : PassArgs :=
  { st with opts := { st.opts with expflags := setFlag st.opts.expflags mask } }

def PassArgs.withPattern (pattern : Bytes) (st : PassArgs) : PassArgs :=
  { st with opts := { st.opts with pattern := some pattern } }

/-- One argument of `expect`, with the ones behind it. -/
def expectArg (arg : Bytes) (rest : List Bytes) (st : PassArgs) :
    Except UsageError (PassArgs × List Bytes) :=
  if str1of arg ["-exact", "-ex", "-re", "-glob", "-gl"] then do
    let (next, rest) ← nextarg arg rest
    let st := st.withPattern next
    if str1of arg ["-exact", "-ex"] then .ok (st.flag passExpectExact, rest)
    else if str1of arg ["-re"] then .ok (st.flag passExpectEre, rest)
    else .ok (st.flag passExpectGlob, rest)
  else if str1of arg ["-nocase", "-icase", "-i"] then .ok (st.flag passExpectIcase, rest)
  else if str1of arg ["-anchor-newline", "-anchor"] then .ok (st.flag passExpectNewline, rest)
  else if str1of arg ["-cstring", "-cstr", "-c"] then .ok ({ st with cstring := true }, rest)
  else if str1of arg ["-eof"] then .ok (st.flag passExpectEof, rest)
  else if str1of arg ["-timeout", "-t"] then do
    let (next, rest) ← nextarg arg rest
    let n ← arg2int next
    .ok ({ st with opts := { st.opts with hasTimeout := true, timeout := if n < 0 then -1 else n } },
      rest)
  else if str1of arg ["-lookback", "-lb"] then do
    let (next, rest) ← nextarg arg rest
    let n ← arg2uint next
    .ok ({ st with opts := { st.opts with lookback := n } }, rest)
  else if arg.head? = some (octet '-') then .error ⟨"unknown expect option: %s", arg⟩
  else if arg = [] then .error ⟨"pattern cannot be empty", []⟩
  else if hasFlag st.opts.expflags passExpectExact then .error ⟨"unexpected argument: %s", arg⟩
  else .ok ((st.withPattern arg).flag passExpectExact, rest)

/-- The loop over the arguments, each of which consumes at least itself. -/
def expectArgs : Nat → List Bytes → PassArgs → Except UsageError PassArgs
  | _, [], st => .ok st
  | 0, _ :: _, st => .ok st
  | n + 1, arg :: rest, st => do
    let (st, rest) ← expectArg arg rest st
    expectArgs n rest st

/-- `-cstring` and the check behind it (lines 779-793): the pattern to be used. -/
def usedPattern (cstr : Bool) (pattern : Bytes) : Except UsageError Bytes := do
  let used ←
    if cstr then
      match strunesc pattern with
      | none => .error ⟨"invalid backslash escapes: %s", pattern⟩
      | some out =>
        if (cstring out).length ≠ out.length then .error ⟨"pattern cannot include NULL bytes", []⟩
        else .ok out
    else .ok pattern
  if used.length = 0 then .error ⟨"pattern cannot be empty", []⟩ else .ok used

/-- The number of ways to match that were asked for. -/
def matchModes (flags : Int) : Nat :=
  ([passExpectEof, passExpectExact, passExpectEre, passExpectGlob].filter (hasFlag flags)).length

/-- Lines 766-806. -/
def expectPattern (st : PassArgs) : Except UsageError StPass :=
  if matchModes st.opts.expflags > 1 then .error ⟨"-eof, -exact, -glob and -re are exclusive", []⟩
  else if hasFlag st.opts.expflags passExpectNewline ∧
      ¬ hasFlag st.opts.expflags passExpectEre then
    .error ⟨"-anchor-newline is only for -re", []⟩
  else
    match st.opts.pattern with
    | none => .ok st.opts
    | some pattern => do
      let pattern ← usedPattern st.cstring pattern
      if hasFlag st.opts.expflags passExpectGlob then
        match glob2re pattern with
        | none => .error ⟨"invalid glob pattern: `%s'", pattern⟩
        | some re =>
          .ok { st.opts with
            pattern := some re
            expflags := setFlag (clearFlag st.opts.expflags passExpectGlob) passExpectEre }
      else .ok { st.opts with pattern := some pattern }

/-- `getargs` on the arguments behind `expect`. -/
def getargsExpect (args : List Bytes) : Except UsageError StPass := do
  let st ← expectArgs args.length args {}
  expectPattern st

end Sexpect.Source
