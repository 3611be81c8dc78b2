import Sexpect.Source.Client
import Sexpect.Source.GetArgs

/-!
# What the client makes of its answers (client.c:440-488, 510-530)

`printInfo` is the branch of `cli_loop` for an `INFO`: a line for the value `get` was asked for,
all lines with their labels, or the end of the expect buffer.  The children are dereferenced
without a check.  `cliChkerr` asks no server; it compares exit codes.
-/
namespace Sexpect.Source
open Sexpect.Lib

/-- `printf("%d")`. -/
def printInt (n : Int) : Bytes := ascii (toString n)

/-- The line for one value, printed when `get` asks for it or for everything; `none` is the
access through a null pointer. -/
def printValue (what one : GetWhat) (label : String) (tag : Nat) (format : Ttlv → Bytes)
    (msg : Ttlv) : Option Bytes :=
  if what = .all ∨ what = one then
    let t := ttlvFindChild msg tag
    if t = .null then none
    else some ((if what = .all then ascii label else []) ++ format t ++ [10])
  else some []

/-- Lines 480-486. -/
def printExpbuf (what : GetWhat) (msg : Ttlv) : Option Bytes :=
  match what with
  | .expbuf nExpbuf =>
    if nExpbuf > 0 then
      let t := ttlvFindChild msg Tag.expbuf
      if t = .null then none
      else
        let num := min nExpbuf.toNat t.length
        some (cliDumpCstring num (t.vRaw.drop (t.length - num)))
    else some []
  | _ => some []

def printInfo (what : GetWhat) (msg : Ttlv) : Option Bytes := do
  let tty ← printValue what .tty "       TTY: " Tag.ptsname Ttlv.vText msg
  let pid ← printValue what .pid " Child PID: " Tag.pid (fun t => printInt t.vInt) msg
  let ppid ← printValue what .ppid "Parent PID: " Tag.ppid (fun t => printInt t.vInt) msg
  let ttl ← printValue what .ttl "       TTL: " Tag.ttl (fun t => printInt t.vInt) msg
  let idle ← printValue what .idle "      Idle: " Tag.idletime (fun t => printInt t.vInt) msg
  let timeout ← printValue what .timeout "   Timeout: " Tag.expTimeout (fun t => printInt t.vInt) msg
  let autowait ← printValue what .autowait "  Autowait: " Tag.autowait (fun t => printInt t.vInt) msg
  let nonblock ← printValue what .nonblock "  Nonblock: " Tag.nonblock (fun t => printInt t.vInt) msg
  let zombie ← printValue what .all "ZombieIdle: " Tag.zombieTtl (fun t => printInt t.vInt) msg
  let expbuf ← printExpbuf what msg
  some (tty ++ pid ++ ppid ++ ttl ++ idle ++ timeout ++ autowait ++ nonblock ++ zombie ++ expbuf)

/-- The exit code of `chkerr`. -/
def cliChkerr (chkerr : StChkerr) : Int :=
  match chkerr.cmpto with
  | none => ErrorCode.usage
  | some cmpto =>
    if chkerr.errcode < 0 then ErrorCode.usage
    else if ¬ str1of cmpto ["eof", "timeout"] then ErrorCode.usage
    else if cmpto = ascii "eof" ∧ chkerr.errcode = ErrorCode.eof then 0
    else if cmpto = ascii "timeout" ∧ chkerr.errcode = ErrorCode.timeout then 0
    else 1

end Sexpect.Source
