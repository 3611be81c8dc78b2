import Sexpect.Lib.Access
import Sexpect.Source.Escapes
import Sexpect.Source.Glob

/-!
# The translators with their memory (common.c:382-506, 537-694)

`strunesc` and `glob2re` once more, now with each octet of `in` they look at and each
octet of `out` they store.  `inp` is the offset of `in` from where it stood at the start,
`len` the counter of the source.  One iteration gives both behind it, or `none` where the
source frees `out` and returns `NULL`.

What an iteration compares several times with the same `in[k]` is read once, where the
first comparison stands.  `alloc` is whether `malloc` succeeds; the result is `*len_`.
-/
namespace Sexpect.Source.Cursor
open Sexpect.Lib

/-- `out[len++]` for each of the octets. -/
def append (len : Nat) : Bytes → Access UInt8 Unit
  | [] => pure ()
  | c :: cs => do
    poke len c
    append (len + 1) cs

/-- Octets stored, and the two counters behind them. -/
def emit (text : Bytes) (inp len : Nat) : Access UInt8 (Option (Nat × Nat)) := do
  append len text
  pure (some (inp, len + text.length))

/-! ## `strunesc` -/

/-- `\cx`. -/
def ctrlEscape (inp len : Nat) : Access UInt8 (Option (Nat × Nat)) := do
  let c2 ← peek (inp + 2)
  let c := toupper c2
  if c < octet 'A' ∨ c > octet '_' then pure none
  else emit [c - octet 'A' + 1] (inp + 3) len

/-- `\xHH` and `\xH`. -/
def hexEscape (inp len : Nat) : Access UInt8 (Option (Nat × Nat)) := do
  let c2 ← peek (inp + 2)
  if ¬ isxdigit c2 then pure none
  else do
    let c3 ← peek (inp + 3)
    if isxdigit c3 then emit [UInt8.ofNat (cH2 c2 c3)] (inp + 4) len
    else emit [UInt8.ofNat (cH1 c2)] (inp + 3) len

/-- `\o`, `\oo` and `\ooo`. -/
def octalEscape (c1 : UInt8) (inp len : Nat) : Access UInt8 (Option (Nat × Nat)) := do
  let c2 ← peek (inp + 2)
  if isodigit c2 then do
    let c3 ← peek (inp + 3)
    if isodigit c3 then
      if cO3 c1 c2 c3 > 0xff then emit [UInt8.ofNat (cO2 c1 c2)] (inp + 3) len
      else emit [UInt8.ofNat (cO3 c1 c2 c3)] (inp + 4) len
    else emit [UInt8.ofNat (cO2 c1 c2)] (inp + 3) len
  else emit [UInt8.ofNat (cO1 c1)] (inp + 2) len

/-- An iteration that starts at a backslash. -/
def strunescEscape (inp len : Nat) : Access UInt8 (Option (Nat × Nat)) := do
  let c1 ← peek (inp + 1)
  match letterEscape c1 with
  | some out => emit [out] (inp + 2) len
  | none =>
    if c1 = octet 'c' then ctrlEscape inp len
    else if c1 = octet 'x' then hexEscape inp len
    else if isodigit c1 then octalEscape c1 inp len
    else if c1 = 0 then emit [octet '\\'] (inp + 1) len
    else emit [c1] (inp + 2) len

def strunescStep (c : UInt8) (inp len : Nat) : Access UInt8 (Option (Nat × Nat)) :=
  if c = octet '\\' then strunescEscape inp len else emit [c] (inp + 1) len

/-! ## `glob2re` -/

/-- The loop over `in[0..l - 1)` that looks for `[:`, `[.` and `[=`. -/
def classInside : Nat → Nat → Access UInt8 Bool
  | 0, _ => pure false
  | n + 1, inp => do
    let c ← peek inp
    if c = octet '[' then do
      let c2 ← peek (inp + 1)
      if c2 = octet ':' ∨ c2 = octet '.' ∨ c2 = octet '=' then pure true
      else classInside n (inp + 1)
    else classInside n (inp + 1)

/-- From the search for the next `]` on. -/
def globList (rounds inp len : Nat) : Access UInt8 (Option (Nat × Nat)) := do
  let found ← Access.strchr (octet ']') rounds inp
  match found with
  | none => pure none
  | some p => do
    let l := p + 1 - inp
    let inside ← classInside (l - 1) inp
    if inside then pure none
    else do
      Access.memmove len inp l
      pure (some (inp + l, len + l))

/-- A first `]` is copied, then the list. -/
def globFirst (rounds inp len : Nat) : Access UInt8 (Option (Nat × Nat)) := do
  let c ← peek inp
  if c = 0 then pure none
  else if c = octet ']' then do
    poke len (octet ']')
    globList rounds (inp + 1) (len + 1)
  else globList rounds inp len

/-- The branch for `[`. -/
def globBracket (rounds inp len : Nat) : Access UInt8 (Option (Nat × Nat)) := do
  poke len (octet '[')
  let c ← peek (inp + 1)
  if c = 0 then pure none
  else if c = octet '!' ∨ c = octet '^' then do
    poke (len + 1) (octet '^')
    globFirst rounds (inp + 2) (len + 2)
  else globFirst rounds (inp + 1) (len + 1)

/-- One iteration; `in` is `save_in` at the offset 0.  `rounds` are for `strchr`. -/
def glob2reStep (rounds : Nat) (c : UInt8) (inp len : Nat) : Access UInt8 (Option (Nat × Nat)) :=
  if c = octet '*' then emit [octet '.', octet '*'] (inp + 1) len
  else if c = octet '?' then emit [octet '.'] (inp + 1) len
  else if c = octet ']' then emit [octet ']'] (inp + 1) len
  else if c = octet '[' then globBracket rounds inp len
  else if c = octet '^' then
    if inp ≠ 0 then emit [octet '\\', octet '^'] (inp + 1) len
    else emit [octet '^'] (inp + 1) len
  else if c = octet '$' then do
    let c1 ← peek (inp + 1)
    if c1 ≠ 0 then emit [octet '[', octet '$', octet ']'] (inp + 1) len
    else emit [octet '$'] (inp + 1) len
  else if c = octet '.' ∨ c = octet '+' ∨ c = octet '|' ∨ c = octet '<' ∨ c = octet '>' ∨
      c = octet '(' ∨ c = octet ')' ∨ c = octet '{' ∨ c = octet '}' then
    emit [octet '[', c, octet ']'] (inp + 1) len
  else if c = octet '\\' then do
    let c1 ← peek (inp + 1)
    if c1 = octet '\\' then emit [octet '\\', octet '\\'] (inp + 2) len
    else if c1 = octet '*' ∨ c1 = octet '?' ∨ c1 = octet '[' ∨ c1 = octet ']' then
      emit [octet '[', c1, octet ']'] (inp + 2) len
    else pure none
  else emit [c] (inp + 1) len

/-! ## The functions -/

/-- The octets `malloc` is asked for, and `*len_` where `*out_` is not `NULL`. -/
structure Translation where
  size : Nat
  len : Option Nat
  deriving DecidableEq, Repr

/-- `while (* in)`, in at most as many rounds, around the iterations of a function. -/
def loop (step : UInt8 → Nat → Nat → Access UInt8 (Option (Nat × Nat))) :
    Nat → Nat → Nat → Access UInt8 (Option Nat)
  | 0, _, _ => .unfinished
  | rounds + 1, inp, len => do
    let c ← peek inp
    if c = 0 then pure (some len)
    else do
      let next ← step c inp len
      match next with
      | none => pure none
      | some (inp, len) => loop step rounds inp len

/-- `malloc`, the loop, and the terminator behind what it has stored. -/
def translate (factor : Nat) (alloc : Bool) (rounds : Nat)
    (step : UInt8 → Nat → Nat → Access UInt8 (Option (Nat × Nat))) : Access UInt8 Translation := do
  let n ← Access.strlen rounds 0
  let size := factor * n + 1
  if ¬ alloc then pure ⟨size, none⟩
  else do
    let done ← loop step rounds 0 0
    match done with
    | none => pure ⟨size, none⟩
    | some len => do
      poke len 0
      pure ⟨size, some len⟩

def strunesc (alloc : Bool) (rounds : Nat) : Access UInt8 Translation :=
  translate 1 alloc rounds strunescStep

def glob2re (alloc : Bool) (rounds : Nat) : Access UInt8 Translation :=
  translate 3 alloc rounds (glob2reStep rounds)

end Sexpect.Source.Cursor
