import Sexpect.Lib.Bytes

/-!
# Translating glob patterns (common.c:508-694)

`glob2re` reads its argument, a C string, octet by octet and appends to `out`.  One
iteration of its loop is `glob2reStep`: the octets appended and the rest of the
input, or `none` where the source frees `out` and returns `NULL`.
-/
namespace Sexpect.Source
open Sexpect.Lib

/-- The loop over `in[0..l)` that looks for `[:`, `[.` and `[=`. -/
def classInside : Bytes → Bool
  | c :: c2 :: rest =>
    (c = octet '[' && (c2 = octet ':' || c2 = octet '.' || c2 = octet '=')) ||
      classInside (c2 :: rest)
  | _ => false

/-- From the next `]` on: what is copied, and the rest. -/
def globList (inp : Bytes) : Option (Bytes × Bytes) :=
  match inp.findIdx? (· = octet ']') with
  | none => none
  | some p =>
    let l := p + 1
    if classInside (inp.take l) then none else some (inp.take l, inp.drop l)

/-- A first `]` is copied, then the list. -/
def globFirst (mark inp : Bytes) : Option (Bytes × Bytes) :=
  match inp with
  | [] => none
  | c :: rest =>
    let (lead, inp) := if c = octet ']' then ([octet ']'], rest) else ([], inp)
    (globList inp).map fun (copied, rest) => (octet '[' :: mark ++ lead ++ copied, rest)

/-- The branch for `[`, with the input behind it. -/
def globBracket (inp : Bytes) : Option (Bytes × Bytes) :=
  match inp with
  | [] => none
  | c :: rest =>
    if c = octet '!' ∨ c = octet '^' then globFirst [octet '^'] rest else globFirst [] inp

/-- One iteration on the octet `c`; `start` says whether it is the first one. -/
def glob2reStep (start : Bool) (c : UInt8) (inp : Bytes) : Option (Bytes × Bytes) :=
  if c = octet '*' then some ([octet '.', octet '*'], inp)
  else if c = octet '?' then some ([octet '.'], inp)
  else if c = octet ']' then some ([octet ']'], inp)
  else if c = octet '[' then globBracket inp
  else if c = octet '^' then
    some (if start then [octet '^'] else [octet '\\', octet '^'], inp)
  else if c = octet '$' then
    some (if inp = [] then [octet '$'] else [octet '[', octet '$', octet ']'], inp)
  else if c = octet '.' ∨ c = octet '+' ∨ c = octet '|' ∨ c = octet '<' ∨ c = octet '>' ∨
      c = octet '(' ∨ c = octet ')' ∨ c = octet '{' ∨ c = octet '}' then
    some ([octet '[', c, octet ']'], inp)
  else if c = octet '\\' then
    match inp with
    | [] => none
    | c1 :: rest =>
      if c1 = octet '\\' then some ([octet '\\', octet '\\'], rest)
      else if c1 = octet '*' ∨ c1 = octet '?' ∨ c1 = octet '[' ∨ c1 = octet ']' then
        some ([octet '[', c1, octet ']'], rest)
      else none
  else some ([c], inp)

/-- The loop, with a bound on the number of iterations: each consumes an octet. -/
def glob2reLoop : Nat → Bool → Bytes → Option Bytes
  | _, _, [] => some []
  | 0, _, _ :: _ => none
  | n + 1, start, c :: inp =>
    match glob2reStep start c inp with
    | none => none
    | some (text, rest) => (glob2reLoop n false rest).map (text ++ ·)

/-- `glob2re` on the memory behind `in`, when `malloc` succeeds. -/
def glob2re (inp : Bytes) : Option Bytes :=
  glob2reLoop (cstring inp).length true (cstring inp)

end Sexpect.Source
