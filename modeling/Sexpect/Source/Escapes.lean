import Sexpect.Source.Common

/-!
# Backslash escapes (common.c:373-506, common.h:16-23, client.c:209-244)

`strunesc` reads a C string and replaces its escapes; `cli_dump_cstring` prints
octets as such a string, between single quotes.
-/
namespace Sexpect.Source
open Sexpect.Lib

def isodigit (c : UInt8) : Bool := octet '0' ≤ c && c ≤ octet '7'

def isdigit (c : UInt8) : Bool := octet '0' ≤ c && c ≤ octet '9'

/-- The C locale's `isxdigit`. -/
def isxdigit (c : UInt8) : Bool :=
  isdigit c || (octet 'A' ≤ c && c ≤ octet 'F') || (octet 'a' ≤ c && c ≤ octet 'f')

def toupper (c : UInt8) : UInt8 := if octet 'a' ≤ c ∧ c ≤ octet 'z' then c - 32 else c

def cH1 (c : UInt8) : Nat :=
  if c ≤ octet '9' then c.toNat - 48 else (toupper c).toNat - 65 + 10

def cH2 (c1 c2 : UInt8) : Nat := cH1 c1 * 16 + cH1 c2

def cO1 (c : UInt8) : Nat := c.toNat - 48

def cO2 (c1 c2 : UInt8) : Nat := cO1 c1 * 8 + cO1 c2

def cO3 (c1 c2 c3 : UInt8) : Nat := cO2 c1 c2 * 8 + cO1 c3

/-- The octet of a native C escape, `\e`, `\E` or `\\`. -/
def letterEscape (c : UInt8) : Option UInt8 :=
  if c = octet '\\' then some (octet '\\')
  else if c = octet 'a' then some 7
  else if c = octet 'b' then some 8
  else if c = octet 'e' ∨ c = octet 'E' then some 27
  else if c = octet 'f' then some 12
  else if c = octet 'n' then some 10
  else if c = octet 'r' then some 13
  else if c = octet 't' then some 9
  else if c = octet 'v' then some 11
  else none

/-- `\xH` and `\xHH`, behind the `x`. -/
def hexEscape : Bytes → Option (UInt8 × Bytes)
  | [] => none
  | h1 :: rest =>
    if ¬ isxdigit h1 then none
    else
      match rest with
      | h2 :: more =>
        if isxdigit h2 then some (UInt8.ofNat (cH2 h1 h2), more)
        else some (UInt8.ofNat (cH1 h1), rest)
      | [] => some (UInt8.ofNat (cH1 h1), [])

/-- `\o`, `\oo` and `\ooo`, behind the first digit.  Three digits above 0xff are
read as two. -/
def octalEscape (o1 : UInt8) : Bytes → UInt8 × Bytes
  | [] => (UInt8.ofNat (cO1 o1), [])
  | o2 :: rest =>
    if ¬ isodigit o2 then (UInt8.ofNat (cO1 o1), o2 :: rest)
    else
      match rest with
      | o3 :: more =>
        if isodigit o3 ∧ ¬ cO3 o1 o2 o3 > 0xff then (UInt8.ofNat (cO3 o1 o2 o3), more)
        else (UInt8.ofNat (cO2 o1 o2), rest)
      | [] => (UInt8.ofNat (cO2 o1 o2), [])

/-- An escape behind its backslash: the octet and the rest of the input. -/
def strunescEscape : Bytes → Option (UInt8 × Bytes)
  | [] => some (octet '\\', [])
  | c :: rest =>
    match letterEscape c with
    | some out => some (out, rest)
    | none =>
      if c = octet 'c' then
        match rest with
        | [] => none
        | x :: rest =>
          let x := toupper x
          if x < octet 'A' ∨ x > octet '_' then none else some (x - octet 'A' + 1, rest)
      else if c = octet 'x' then hexEscape rest
      else if isodigit c then some (octalEscape c rest)
      else some (c, rest)

/-- The loop, with a bound on the number of iterations: each consumes an octet. -/
def strunescLoop : Nat → Bytes → Option Bytes
  | _, [] => some []
  | 0, _ :: _ => none
  | n + 1, c :: inp =>
    if c = octet '\\' then
      match strunescEscape inp with
      | none => none
      | some (out, rest) => (strunescLoop n rest).map (out :: ·)
    else (strunescLoop n inp).map (c :: ·)

/-- `strunesc` on the memory behind `in`, when `malloc` succeeds. -/
def strunesc (inp : Bytes) : Option Bytes := strunescLoop (cstring inp).length (cstring inp)

/-! ## Printing -/

def hexDigit (n : Nat) : UInt8 := if n < 10 then UInt8.ofNat (48 + n) else UInt8.ofNat (87 + n)

def octDigit (n : Nat) : UInt8 := UInt8.ofNat (48 + n)

/-- What `cli_dump_cstring` prints for an octet. -/
def dumpOctet (c : UInt8) : Bytes :=
  if c = octet '\'' then
    [octet '\\', octDigit (c.toNat / 64), octDigit (c.toNat / 8 % 8), octDigit (c.toNat % 8)]
  else if c = octet '\\' then [octet '\\', octet '\\']
  else if c ≥ 0x20 ∧ c ≤ 0x7e then [c]
  else if c = 7 then [octet '\\', octet 'a']
  else if c = 8 then [octet '\\', octet 'b']
  else if c = 12 then [octet '\\', octet 'f']
  else if c = 10 then [octet '\\', octet 'n']
  else if c = 13 then [octet '\\', octet 'r']
  else if c = 9 then [octet '\\', octet 't']
  else if c = 11 then [octet '\\', octet 'v']
  else [octet '\\', octet 'x', hexDigit (c.toNat / 16), hexDigit (c.toNat % 16)]

/-- The text between the quotes. -/
def dumpText (buf : Bytes) : Bytes := buf.flatMap dumpOctet

def cliDumpCstring (num : Nat) (buf : Bytes) : Bytes :=
  ascii "-cstring -exact '" ++ dumpText (buf.take num) ++ ascii "' # len=" ++
    ascii (toString num) ++ [10]

end Sexpect.Source
