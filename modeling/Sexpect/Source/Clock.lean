import Sexpect.Lib.Rounding
import Sexpect.Source.Session

/-!
# The server and its clock (common.c:249-283, server.c)

`Clocked` adds to the server the clock readings it keeps, and `clockedStep` lets time pass between
two stretches of the source and, while a system call blocks, within one.  A reading counts the
nanoseconds of a `timespec`; the clock is the monotonic one.  The comparisons of clocks, which are
answers of the system in `Sys`, are here made on the readings at the beginning of the stretch.
-/
namespace Sexpect.Source
open Sexpect.Lib

/-- `tv_sec + tv_nsec / 1e9` on `double`s. -/
def clockSeconds (spec : Nat) : ℚ :=
  fl 53 (fl 53 (spec / 10 ^ 9 : ℕ) + fl 53 (fl 53 (spec % 10 ^ 9 : ℕ) / 10 ^ 9))

def clockDiff (t1 t2 : Nat) : ℚ := |fl 53 (clockSeconds t2 - clockSeconds t1)|

/-- `startime` and `exittime` are those of `cmdopts->spawn`, `passStartime` is
`conn.pass.startime`. -/
structure Clocked where
  server : Server
  now : Nat
  lastactive : Nat
  startime : Nat
  exittime : Nat := 0
  passStartime : Nat := 0

/-- The comparisons of the stretch: of `exp_timed_out`, of `-zombie-idle`, of `-ttl` and of
`-idle`. -/
def Clocked.sys (c : Clocked) (sys : Sys) : Sys :=
  { sys with
    elapsed :=
      if c.server.pc = .ending then
        decide ((c.server.conn.timeout : ℚ) < clockDiff c.passStartime c.now)
      else if c.server.pc = .zombie then
        decide ((c.server.spawn.zombieIdle : ℚ) < clockDiff c.lastactive c.now ∧
          (c.server.spawn.zombieIdle : ℚ) < clockDiff c.exittime c.now)
      else decide ((c.server.spawn.ttl : ℚ) < clockDiff c.startime c.now)
    idleElapsed := decide ((c.server.spawn.idle : ℚ) < clockDiff c.lastactive c.now) }

/-- `serv_hello` turns the client away (lines 231-251): the socket is closed, and the clock is read
only by a failed `serv_msg_send`. -/
def Server.turnsAway (s : Server) (sys : Sys) : Bool :=
  match sys.msg with
  | some msgIn =>
    let cliVersion := ttlvFindChild msgIn Tag.version
    s.receives && decide (msgIn.tag = Tag.hello) &&
      (decide (cliVersion = .null) || decide (version ≠ cliVersion.vText) && sys.sent)
  | none => false

/-- `lastactive` is read in front of every `serv_msg_recv` (line 295), and behind the call that ends
the connection unless `serv_hello` turns the client away; the start of a request is read behind
`accept`. -/
def Clocked.tick (host : Host) (sys : Sys) (c : Clocked) : Clocked :=
  let s := Source.tick host (c.sys sys) c.server
  let now := c.now + sys.took
  { c with
    server := s
    now := now
    lastactive :=
      if c.server.conn.sock ∧ ¬ s.conn.sock ∧ ¬ c.server.turnsAway sys then now
      else if c.server.receives then c.now
      else c.lastactive
    passStartime := if c.server.accepts sys then now else c.passStartime }

inductive ClockedInput where
  | wait (ns : Nat)
  | input (i : Input)

def clockedStep (host : Host) : ClockedInput → Clocked → Clocked
  | .wait ns, c => { c with now := c.now + ns }
  | .input (.tick sys), c => c.tick host sys
  | .input (.child e), c => { c with server := childChange e c.server }
  | .input .sigCHLD, c =>
    { c with
      server := servSigCHLD c.server
      exittime := if c.server.pending then c.now else c.exittime }

end Sexpect.Source
