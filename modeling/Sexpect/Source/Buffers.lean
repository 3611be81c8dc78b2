import Sexpect.Source.Common

/-!
# The output buffers of the server (server.c:504-724)

`Buffers` are the fields of the static struct `g` from `ntotal` on (lines
82-95).  `rawbuf` and `expbuf` are memory of `SIZE_RAW_BUF + 1` octets; `rawnew`
is an offset into `rawbuf`; the 64-bit counters are natural numbers.  The
functions are those of the source that work on these fields alone.
-/
namespace Sexpect.Source
open Sexpect.Lib

@[irreducible] def sizeRawBuf : Nat := 16 * 1024
@[irreducible] def maxOldData : Nat := 8 * 1024
@[irreducible] def nonblockDropSize : Nat := 1 * 1024
def expectOutNum : Nat := 9 + 1

theorem sizeRawBuf_eq : sizeRawBuf = 16384 := by
  unfold sizeRawBuf
  rfl

theorem maxOldData_eq : maxOldData = 8192 := by
  unfold maxOldData
  rfl

theorem nonblockDropSize_eq : nonblockDropSize = 1024 := by
  unfold nonblockDropSize
  rfl

def newline : UInt8 := 10

structure Buffers where
  ntotal : Nat := 0
  rawoffset : Nat := 0
  expoffset : Nat := 0
  rawbuf : Bytes
  rawnew : Nat := 0
  newcnt : Nat := 0
  expbuf : Bytes
  expcnt : Nat := 0
  deriving DecidableEq, Repr

/-- Lines 565-566, for the `nread` octets stored behind the unsent data. -/
def appendRaw (got : Bytes) (b : Buffers) : Buffers :=
  { b with
    rawbuf := writeAt b.rawbuf (b.rawnew + b.newcnt) got
    newcnt := b.newcnt + got.length
    ntotal := b.ntotal + got.length }

/-- The nonblocking mode marks unsent data as old (lines 1107-1108). -/
def markOld (b : Buffers) : Buffers :=
  { b with rawnew := b.rawnew + nonblockDropSize, newcnt := b.newcnt - nonblockDropSize }

/-- Everything up to here has been sent (lines 834-835). -/
def markSent (b : Buffers) : Buffers := { b with rawnew := b.rawnew + b.newcnt, newcnt := 0 }

/-- The first half of `drop_old_data`. -/
def dropRaw (b : Buffers) : Buffers :=
  if b.rawnew > maxOldData then
    let dropsize := b.rawnew - maxOldData
    { b with
      rawbuf := writeAt b.rawbuf 0 ((b.rawbuf.drop dropsize).take (maxOldData + b.newcnt))
      rawnew := b.rawnew - dropsize
      rawoffset := b.rawoffset + dropsize }
  else b

/-- The second half of `drop_old_data`. -/
def dropExp (b : Buffers) : Buffers :=
  if b.expcnt > maxOldData then
    let dropsize := b.expcnt - maxOldData
    { b with
      expbuf := writeAt (writeAt b.expbuf 0 ((b.expbuf.drop dropsize).take maxOldData)) maxOldData [0]
      expcnt := maxOldData }
  else b

def dropOldData (b : Buffers) : Buffers := dropExp (dropRaw b)

/-- Lines 601-604: the raw buffer has overtaken the expect buffer. -/
def catchUp (b : Buffers) : Buffers :=
  if b.expoffset < b.rawoffset then { b with expoffset := b.rawoffset, expcnt := 0 } else b

/-- The rest of `buf_raw2expect`; `none` when the assertion of line 607 fails. -/
def copyRaw (b : Buffers) : Option Buffers :=
  let ncopy := b.ntotal - b.expoffset
  if b.expcnt + ncopy ≤ sizeRawBuf then
    let copied := (b.rawbuf.drop (b.rawnew + b.newcnt - ncopy)).take ncopy
    let kept := copied.filter (· ≠ 0)
    some { b with
      expoffset := b.ntotal
      expbuf := writeAt b.expbuf b.expcnt (kept ++ [0])
      expcnt := b.expcnt + kept.length }
  else none

def bufRaw2expect (b : Buffers) : Option Buffers := copyRaw (catchUp b)

/-- Forget the expect buffer up to a stream position (lines 869-870, 880-881).
The string in it is not terminated anew. -/
def resetExp (expoffset : Nat) (b : Buffers) : Buffers :=
  { b with expoffset := expoffset, expcnt := 0 }

/-- Keep what is behind a match: `strlen`, `memmove` and the new terminator. -/
def keepAfter (pos : Nat) (b : Buffers) : Buffers :=
  let rest := cstring (b.expbuf.drop pos)
  { b with expcnt := rest.length, expbuf := writeAt b.expbuf 0 (rest ++ [0]) }

/-- `expect_exact`: the buffers and `expout` behind a match. -/
def expectExact (expflags : Int) (pattern : Bytes) (b : Buffers) :
    Option (Buffers × List (Option Bytes)) :=
  let found := if hasFlag expflags passExpectIcase then strcasestr (cstring b.expbuf) pattern
    else strstr (cstring b.expbuf) pattern
  match found with
  | none => none
  | some pos => some (keepAfter (pos + pattern.length) b,
      some pattern :: List.replicate (expectOutNum - 1) none)

/-- `expect_ere`; `-nosub` leaves `expout` alone. -/
def expectEre (regex : Regex) (expflags : Int) (pattern : Bytes) (b : Buffers)
    (expout : List (Option Bytes)) : Option (Buffers × List (Option Bytes)) :=
  match regex.regexec pattern (hasFlag expflags passExpectIcase)
      (hasFlag expflags passExpectNewline) (cstring b.expbuf) with
  | none => none
  | some (whole, groups) =>
    let text := fun (m : Nat × Nat) => (b.expbuf.drop m.1).take (m.2 - m.1)
    some (keepAfter whole.2 b,
      if hasFlag expflags passExpectNosub then expout
      else (some whole :: groups).map (·.map text))

/-- The loop of lines 776-782 from `pc = rawbuf + i - 1` downwards: the newlines
counted, and the offset where it stopped early. -/
def scanBack (rawbuf : Bytes) (lookback : Int) : Nat → Nat → Nat × Option Nat
  | 0, newlines => (newlines, none)
  | i + 1, newlines =>
    if rawbuf[i]? = some newline then
      if (newlines + 1 : Int) ≥ lookback then (newlines + 1, some i)
      else scanBack rawbuf lookback i (newlines + 1)
    else scanBack rawbuf lookback i newlines

/-- The nearest newline before offset `i` (lines 813-818). -/
def newlineBefore (rawbuf : Bytes) (i : Nat) : Option Nat := (scanBack rawbuf 1 i 0).2

/-- `psend` for a positive lookback (lines 758-825) as an offset into `rawbuf`;
`none` when `strchr` returned `NULL`, which the source does not check. -/
def lookbackStart (lookback : Int) (b : Buffers) : Option Nat :=
  let lookback := if b.ntotal > 0 ∧ b.rawbuf[b.rawnew + b.newcnt - 1]? = some newline then
      toInt32 (lookback + 1)
    else lookback
  match scanBack b.rawbuf lookback (b.rawnew + b.newcnt) 0 with
  | (newlines, stop) =>
    if newlines = 0 then some 0
    else if (newlines : Int) < lookback then
      if b.rawoffset = 0 then some 0
      else
        match strchr b.rawbuf newline with
        | none => none
        | some pc => if pc < b.rawnew then some (pc + 1) else some b.rawnew
    else
      match stop with
      | none => some b.rawnew
      | some pc =>
        if pc < b.rawnew then some (pc + 1)
        else
          match newlineBefore b.rawbuf b.rawnew with
          | some pc => some (pc + 1)
          | none => if b.rawoffset = 0 then some 0 else some b.rawnew

end Sexpect.Source
