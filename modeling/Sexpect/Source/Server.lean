import Sexpect.Source.Buffers

/-!
# The server (server.c)

`Server` is the static struct `g` (lines 44-96) together with the point of
control in `serv_main` and `serv_loop`.  One `tick` executes the source up to the
next label of `Pc`; what the system calls of that stretch answer is in `Sys`.
Between two ticks the child may change state and a pending `SIGCHLD` may run its
handler.  `readfds` is local to an iteration, so it is an argument of the labels
behind `select`.

Clock readings are answers in `Sys`, and `lastactive`, `startime`, `exittime` and
the log file, which only feed clock comparisons and the log, are left out.
`History` is not part of the program: it records what passed through its
descriptors.
-/
namespace Sexpect.Source
open Sexpect.Lib

/-- The fields of `cmdopts->spawn` the server reads. -/
structure Spawn where
  nonblock : Bool := false
  autowait : Bool := false
  cloexit : Bool := false
  defTimeout : Int := -1
  ttl : Int := 0
  idle : Int := 0
  zombieIdle : Int := 24 * 60 * 60
  deriving DecidableEq, Repr

/-- `g.conn`; `sock` says whether the descriptor is open. -/
structure Conn where
  sock : Bool := false
  passing : Bool := false
  subcmd : Int := 0
  expflags : Int := 0
  pattern : Option Bytes := none
  timeout : Int := 0
  lookback : Int := 0
  deriving DecidableEq, Repr

structure ReadFds where
  listen : Bool := false
  ptm : Bool := false
  sock : Bool := false
  deriving DecidableEq, Repr

/-- The `bug(...)` calls of the server. -/
inductive ServerBug where
  | alreadyClosed
  | oldConnAlive
  | sawGlob
  deriving DecidableEq, Repr

structure History where
  stream : Bytes := []
  typed : Bytes := []
  sent : List Ttlv := []
  bugs : List ServerBug := []
  deriving DecidableEq, Repr

/-- Points of control.  `aborted` is a failed assertion, `crashed` an access
through a pointer outside its object. -/
inductive Pc where
  | waitPts
  | setNonblock
  | installHandler
  | head
  | nowait
  | zombie
  | limits
  | select
  | accept (readfds : ReadFds)
  | readPtm (readfds : ReadFds)
  | nonblock (readfds : ReadFds)
  | recv (readfds : ReadFds)
  | pass
  | copy
  | expect
  | ending
  | drop
  | exited
  | aborted
  | crashed
  deriving DecidableEq, Repr

inductive Child where
  | running
  | stopped
  | terminated
  deriving DecidableEq, Repr

structure Server where
  pc : Pc := .waitPts
  spawn : Spawn
  child : Child := .running
  handler : Bool := false
  pending : Bool := false
  ptmOpen : Bool := true
  sigChlded : Bool := false
  waited : Bool := false
  /-- The static counter of the `-cloexit` branch. -/
  cloexitCount : Nat := 0
  conn : Conn := {}
  buf : Buffers
  expout : List (Option Bytes) := List.replicate expectOutNum none
  hist : History := {}
  deriving DecidableEq, Repr

/-- `serv_init` and the part of `serv_main` up to the fork, with the contents
`malloc` left in the two buffers. -/
def servInit (spawn : Spawn) (rawbuf expbuf : Bytes) : Server :=
  { spawn := spawn, buf := { rawbuf := rawbuf, expbuf := expbuf } }

/-- What does not change while the server runs. -/
structure Host where
  regex : Regex
  child : Int
  pid : Int
  ptsname : Bytes

inductive SelectResult where
  | ready (fds : ReadFds)
  | eintr
  | error
  deriving DecidableEq, Repr

inductive AcceptResult where
  | conn
  | eintr
  | error
  deriving DecidableEq, Repr

/-- One `read` on the ptm. -/
inductive PtmRead where
  | data (bs : Bytes)
  | eof
  | eintr
  | eagain
  | error
  deriving DecidableEq, Repr

/-- The answers of the system calls made in one stretch: whether a call that is
fatal when it fails succeeds, whether a clock has run out, what `select`,
`accept`, `read` and `write` on the ptm, `msg_recv`, `msg_send` and `kill`
return, and what `waitpid` returns and stores.  `took` is how many nanoseconds the
calls took, which only a clock notices. -/
structure Sys where
  ok : Bool := true
  elapsed : Bool := false
  idleElapsed : Bool := false
  select : SelectResult := .ready {}
  accept : AcceptResult := .conn
  ptm : List PtmRead := []
  written : Nat := 0
  msg : Option Ttlv := none
  sent : Bool := true
  killError : Option Bytes := none
  interrupted : Bool := false
  status : BitVec 32 := 0
  took : Nat := 0

/-! ## Messages -/

def servNewError (code : Int) (msg : Bytes) : Ttlv :=
  ttlvAppendChild (ttlvNewStruct Tag.error)
    [ttlvNewInt Tag.errorCode (int32 code), ttlvNewText Tag.errorMsg msg]

def closeSock (s : Server) : Server := { s with conn := { s.conn with sock := false } }

/-- `msg_send` on the connection: a failed call closes the socket. -/
def msgOut (sent : Bool) (msg : Ttlv) (s : Server) : Server :=
  if sent then { s with hist := { s.hist with sent := s.hist.sent ++ [msg] } } else closeSock s

def servMsgSend (sent : Bool) (msg : Ttlv) (s : Server) : Server :=
  if ¬ s.conn.sock then { s with hist := { s.hist with bugs := s.hist.bugs ++ [.alreadyClosed] } }
  else msgOut sent msg s

/-- The text of line 242, cut to the 63 characters `snprintf` keeps. -/
def versionMismatch (client : Bytes) : Bytes :=
  (ascii "version mismatch (server: " ++ version ++ ascii ", client: " ++ client ++ ascii ")").take 63

def servHello (sys : Sys) (msgIn : Ttlv) (s : Server) : Server :=
  if ¬ s.conn.sock then s
  else
    let cliVersion := ttlvFindChild msgIn Tag.version
    if cliVersion = .null then closeSock s
    else if version ≠ cliVersion.vText then
      closeSock (servMsgSend sys.sent
        (servNewError ErrorCode.proto (versionMismatch cliVersion.vText)) s)
    else msgOut sys.sent msgHello s

/-- `serv_disconn`: the socket is closed whether or not `DISCONN` was sent. -/
def servDisconn (sys : Sys) (s : Server) : Server :=
  if ¬ s.conn.sock then s else closeSock (msgOut sys.sent msgDisconn s)

/-! ## Output and matching -/

/-- Lines 504-567.  A `read` that finds more than fits leaves the rest. -/
def servReadPtm : List PtmRead → Server → Server
  | [], s => s
  | r :: rs, s =>
    let ntoread := sizeRawBuf - (s.buf.newcnt + s.buf.rawnew)
    if ntoread = 0 then s
    else
      match r with
      | .data bs =>
        let got := bs.take ntoread
        if got = [] then { s with ptmOpen := false }
        else
          { s with
            buf := appendRaw got s.buf
            hist := { s.hist with stream := s.hist.stream ++ got } }
      | .eintr => servReadPtm rs s
      | .eagain => s
      | .eof => { s with ptmOpen := false }
      | .error => { s with ptmOpen := false }

/-- `serv_expect`: whether the pattern matched, and the state behind it.
`expect_glob` is a bug report of the server. -/
def servExpect (host : Host) (pattern : Bytes) (s : Server) : Bool × Server :=
  if s.buf.expcnt = 0 ∧ ¬ s.ptmOpen then (false, s)
  else if hasFlag s.conn.expflags passExpectExact then
    match expectExact s.conn.expflags pattern s.buf with
    | some (buf, expout) => (true, { s with buf := buf, expout := expout })
    | none => (false, s)
  else if hasFlag s.conn.expflags passExpectGlob then
    (false, { s with hist := { s.hist with bugs := s.hist.bugs ++ [.sawGlob] } })
  else if hasFlag s.conn.expflags passExpectEre then
    match expectEre host.regex s.conn.expflags pattern s.buf s.expout with
    | some (buf, expout) => (true, { s with buf := buf, expout := expout })
    | none => (false, s)
  else (false, s)

/-! ## Requests -/

/-- `TAG_PASS` (lines 336-370).  The first two children are dereferenced without
a check. -/
def processPass (msgIn : Ttlv) (s : Server) : Server :=
  let subcmd := ttlvFindChild msgIn Tag.passSubcmd
  let expflags := ttlvFindChild msgIn Tag.expFlags
  let pattern := ttlvFindChild msgIn Tag.pattern
  let timeout := ttlvFindChild msgIn Tag.expTimeout
  let lookback := ttlvFindChild msgIn Tag.lookback
  if subcmd = .null ∨ expflags = .null then { s with pc := .crashed }
  else
    { s with
      conn := { s.conn with
        passing := true
        subcmd := subcmd.vInt
        expflags := expflags.vInt
        pattern := if pattern = .null then s.conn.pattern else some pattern.vText
        timeout := if timeout = .null then s.spawn.defTimeout else timeout.vInt
        lookback := if lookback ≠ .null ∧ lookback.vInt > 0 then lookback.vInt
          else s.conn.lookback }
      expout := if pattern = .null then s.expout else List.replicate expectOutNum none }

/-- `TAG_SET` (lines 447-471) before the reply. -/
def processSet (msgIn : Ttlv) (spawn : Spawn) : Spawn :=
  let autowait := ttlvFindChild msgIn Tag.autowait
  let nonblock := ttlvFindChild msgIn Tag.nonblock
  let timeout := ttlvFindChild msgIn Tag.expTimeout
  let ttl := ttlvFindChild msgIn Tag.ttl
  let idle := ttlvFindChild msgIn Tag.idletime
  { spawn with
    autowait := if autowait = .null then spawn.autowait else autowait.vBool
    nonblock := if nonblock = .null then spawn.nonblock else nonblock.vBool
    defTimeout := if timeout = .null then spawn.defTimeout else timeout.vInt
    ttl := if ttl = .null then spawn.ttl else ttl.vInt
    idle := if idle = .null then spawn.idle else idle.vInt }

/-- The reply to `TAG_EXPOUT` (lines 372-390). -/
def expoutReply (index : Int) (expout : List (Option Bytes)) : Ttlv :=
  if 0 ≤ index ∧ index < expectOutNum then
    match expout[index.toNat]? with
    | some (some text) => ttlvNewText Tag.expoutText text
    | _ => ttlvNewText Tag.expoutText []
  else servNewError ErrorCode.usage (ascii "index must in range 0-9")

/-- The reply to `TAG_INFO` (lines 480-494). -/
def infoReply (host : Host) (s : Server) : Ttlv :=
  let nExpbuf := min s.buf.expcnt maxExpbufPeek
  ttlvAppendChild (ttlvNewStruct Tag.info)
    [ttlvNewInt Tag.pid (int32 host.child),
      ttlvNewInt Tag.ppid (int32 host.pid),
      ttlvNewText Tag.ptsname host.ptsname,
      ttlvNewInt Tag.expTimeout (int32 s.spawn.defTimeout),
      ttlvNewBool Tag.autowait (boolWord s.spawn.autowait),
      ttlvNewBool Tag.nonblock (boolWord s.spawn.nonblock),
      ttlvNewInt Tag.ttl (int32 s.spawn.ttl),
      ttlvNewInt Tag.idletime (int32 s.spawn.idle),
      ttlvNewInt Tag.zombieTtl (int32 s.spawn.zombieIdle),
      ttlvNewRaw Tag.expbuf ((s.buf.expbuf.drop (s.buf.expcnt - nExpbuf)).take nExpbuf)]

def ack : Ttlv := ttlvNewStruct Tag.ack

/-- The `write` of `TAG_SEND` and `TAG_INPUT`; what is not written is lost. -/
def writePtm (sys : Sys) (msgIn : Ttlv) (s : Server) : Server :=
  if s.ptmOpen then
    { s with hist := { s.hist with typed := s.hist.typed ++ msgIn.vRaw.take sys.written } }
  else s

/-- `TAG_WINCH`: the row and column children are dereferenced without a check. -/
def processWinch (msgIn : Ttlv) (s : Server) : Server :=
  if s.ptmOpen ∧ (ttlvFindChild msgIn Tag.winsizeRow = .null ∨
      ttlvFindChild msgIn Tag.winsizeCol = .null) then { s with pc := .crashed }
  else s

/-- The reply to `TAG_KILL`. -/
def killReply (sys : Sys) : Ttlv :=
  match sys.killError with
  | some text => servNewError ErrorCode.sys (ascii "kill: " ++ text)
  | none => ack

/-- The `switch` of `serv_process_msg` on a received message. -/
def dispatch (host : Host) (sys : Sys) (msgIn : Ttlv) (s : Server) : Server :=
  if msgIn.tag = Tag.hello then servHello sys msgIn s
  else if msgIn.tag = Tag.disconn then servDisconn sys s
  else if msgIn.tag = Tag.send then servMsgSend sys.sent ack (writePtm sys msgIn s)
  else if msgIn.tag = Tag.input then writePtm sys msgIn s
  else if msgIn.tag = Tag.pass then processPass msgIn s
  else if msgIn.tag = Tag.expout then servMsgSend sys.sent (expoutReply msgIn.vInt s.expout) s
  else if msgIn.tag = Tag.winch then processWinch msgIn s
  else if msgIn.tag = Tag.close then servMsgSend sys.sent ack { s with ptmOpen := false }
  else if msgIn.tag = Tag.kill then servMsgSend sys.sent (killReply sys) s
  else if msgIn.tag = Tag.set then
    servMsgSend sys.sent ack { s with spawn := processSet msgIn s.spawn }
  else if msgIn.tag = Tag.info then
    match bufRaw2expect s.buf with
    | none => { s with pc := .aborted }
    | some buf =>
      let s := { s with buf := buf }
      servMsgSend sys.sent (infoReply host s) s
  else s

/-- `serv_process_msg` on an open connection. -/
def servProcessMsg (host : Host) (sys : Sys) (s : Server) : Server :=
  match sys.msg with
  | none => closeSock s
  | some msgIn => dispatch host sys msgIn s

/-! ## `serv_pass` -/

/-- Lines 827-836: send from `psend` on.  The call failed when it left the socket
closed. -/
def sendOutput (sys : Sys) (psend : Nat) (s : Server) : Server :=
  let nsend := s.buf.rawnew + s.buf.newcnt - psend
  if nsend > 0 then
    let s := servMsgSend sys.sent
      (ttlvNewRaw Tag.output ((s.buf.rawbuf.drop psend).take nsend)) s
    if s.conn.sock then { s with buf := markSent s.buf, pc := .copy }
    else { s with pc := .drop }
  else { s with pc := .copy }

/-- `serv_pass` up to line 848. -/
def servPassOutput (sys : Sys) (s : Server) : Server :=
  if ¬ s.conn.sock ∨ ¬ s.conn.passing then { s with pc := .drop }
  else if s.conn.lookback ≤ 0 then sendOutput sys s.buf.rawnew s
  else
    let start := lookbackStart s.conn.lookback s.buf
    let s := { s with conn := { s.conn with lookback := 0 } }
    match start with
    | none => { s with pc := .crashed }
    | some psend => sendOutput sys psend s

/-- Lines 850-871 up to the call of `serv_expect`. -/
def servPassCopy (s : Server) : Server :=
  match s.conn.pattern with
  | some _ =>
    match bufRaw2expect s.buf with
    | none => { s with pc := .aborted }
    | some buf => { s with buf := buf, pc := .expect }
  | none =>
    if s.conn.subcmd = passSubcmdInteract ∨ s.conn.subcmd = passSubcmdWait then
      { s with buf := resetExp (s.buf.ntotal - s.buf.newcnt) s.buf, pc := .ending }
    else { s with pc := .ending }

def stopPassing (s : Server) : Server :=
  { s with conn := { s.conn with passing := false }, pc := .drop }

/-- Lines 857-865. -/
def servPassExpect (host : Host) (sys : Sys) (s : Server) : Server :=
  match servExpect host (s.conn.pattern.getD []) s with
  | (true, s) => stopPassing (servMsgSend sys.sent (ttlvNewBool Tag.matched 1) s)
  | (false, s) => { s with pc := .ending }

/-- `exp_timed_out`, the comparison of clocks being in `sys`. -/
def expTimedOut (sys : Sys) (timeout : Int) : Bool :=
  if timeout < 0 then false else if timeout = 0 then true else sys.elapsed

/-- Lines 873-920.  `waitpid` blocks while the child lives, unless a handler
interrupts it. -/
def servPassEnd (sys : Sys) (s : Server) : Server :=
  if ¬ s.ptmOpen ∧ s.buf.newcnt = 0 then
    if hasFlag s.conn.expflags passExpectEof then
      stopPassing (servMsgSend sys.sent (ttlvNewStruct Tag.eof)
        { s with buf := resetExp s.buf.ntotal s.buf })
    else if hasFlag s.conn.expflags passExpectExit then
      if ¬ s.waited ∧ s.sigChlded then
        if s.child ≠ .terminated ∧ ¬ sys.interrupted then s
        else stopPassing (servMsgSend sys.sent (ttlvNewInt Tag.exited sys.status)
          { s with waited := true })
      else { s with pc := .drop }
    else stopPassing (servMsgSend sys.sent (servNewError ErrorCode.eof (ascii "PTY closed")) s)
  else if expTimedOut sys s.conn.timeout then
    stopPassing (servMsgSend sys.sent (servNewError ErrorCode.timeout (ascii "expect timed out")) s)
  else { s with pc := .drop }

/-! ## `serv_loop` -/

/-- The loop condition and `-cloexit` (lines 957-968). -/
def loopHead (s : Server) : Server :=
  if s.waited ∧ ¬ s.conn.sock then { s with pc := .exited }
  else if s.spawn.cloexit ∧ s.sigChlded ∧ s.ptmOpen then
    let n := s.cloexitCount + 1
    { s with cloexitCount := n, ptmOpen := ¬ n > 1, pc := .nowait }
  else { s with pc := .nowait }

/-- The four reasons to leave the loop without a connection (lines 970-1003). -/
def loopNowait (s : Server) : Server :=
  if s.spawn.autowait ∧ s.sigChlded ∧ ¬ s.ptmOpen ∧ ¬ s.conn.sock then { s with pc := .exited }
  else { s with pc := .zombie }

def loopZombie (sys : Sys) (s : Server) : Server :=
  if s.spawn.zombieIdle ≥ 0 ∧ s.sigChlded ∧ ¬ s.ptmOpen ∧ ¬ s.conn.sock ∧ sys.elapsed then
    { s with pc := .exited }
  else { s with pc := .limits }

def loopLimits (sys : Sys) (s : Server) : Server :=
  if s.spawn.ttl > 0 ∧ ¬ s.conn.sock ∧ sys.elapsed then { s with pc := .exited }
  else if s.spawn.idle > 0 ∧ ¬ s.conn.sock ∧ sys.idleElapsed then { s with pc := .exited }
  else { s with pc := .select }

/-- Lines 1005-1066: only descriptors that were put into the set can be ready. -/
def loopSelect (sys : Sys) (s : Server) : Server :=
  match sys.select with
  | .eintr => { s with pc := .head }
  | .error => { s with pc := .exited }
  | .ready fds =>
    let readfds : ReadFds :=
      { listen := fds.listen && !s.conn.sock
        ptm := fds.ptm && s.ptmOpen &&
          (decide (s.buf.rawnew + s.buf.newcnt < sizeRawBuf) || s.spawn.nonblock)
        sock := fds.sock && s.conn.sock }
    { s with pc := .accept readfds }

/-- Lines 1068-1088; `serv_cleanup_conn` clears everything but the new socket. -/
def loopAccept (sys : Sys) (fds : ReadFds) (s : Server) : Server :=
  if fds.listen then
    match sys.accept with
    | .eintr => { s with pc := .head }
    | .error => { s with pc := .exited }
    | .conn =>
      let s := if s.conn.sock then
          { s with hist := { s.hist with bugs := s.hist.bugs ++ [.oldConnAlive] } }
        else s
      { s with conn := { sock := true }, pc := .readPtm fds }
  else { s with pc := .readPtm fds }

def loopReadPtm (sys : Sys) (fds : ReadFds) (s : Server) : Server :=
  let s := if s.ptmOpen ∧ fds.ptm then servReadPtm sys.ptm s else s
  { s with pc := .nonblock fds }

/-- Lines 1096-1110. -/
def loopNonblock (fds : ReadFds) (s : Server) : Server :=
  if s.spawn.nonblock ∧ ¬ s.conn.sock ∧ s.buf.rawnew + s.buf.newcnt = sizeRawBuf ∧
      s.buf.rawnew ≤ maxOldData then
    { s with buf := markOld s.buf, pc := .recv fds }
  else { s with pc := .recv fds }

def loopRecv (host : Host) (sys : Sys) (fds : ReadFds) (s : Server) : Server :=
  let s := { s with pc := .pass }
  if s.conn.sock ∧ fds.sock then servProcessMsg host sys s else s

/-- Run to the next point of control. -/
def tick (host : Host) (sys : Sys) (s : Server) : Server :=
  match s.pc with
  | .waitPts => { s with pc := if sys.ok then .setNonblock else .exited }
  | .setNonblock => { s with pc := if sys.ok then .installHandler else .exited }
  | .installHandler => { s with handler := true, pc := .head }
  | .head => loopHead s
  | .nowait => loopNowait s
  | .zombie => loopZombie sys s
  | .limits => loopLimits sys s
  | .select => loopSelect sys s
  | .accept fds => loopAccept sys fds s
  | .readPtm fds => loopReadPtm sys fds s
  | .nonblock fds => loopNonblock fds s
  | .recv fds => loopRecv host sys fds s
  | .pass => servPassOutput sys s
  | .copy => servPassCopy s
  | .expect => servPassExpect host sys s
  | .ending => servPassEnd sys s
  | .drop => { s with buf := dropOldData s.buf, pc := .head }
  | .exited => s
  | .aborted => s
  | .crashed => s

/-! ## The child and its signal -/

inductive ChildEvent where
  | stop
  | cont
  | terminate
  deriving DecidableEq, Repr

/-- The state of the child behind an event, when the event can happen. -/
def Child.after : Child → ChildEvent → Option Child
  | .running, .stop => some .stopped
  | .stopped, .cont => some .running
  | .running, .terminate => some .terminated
  | .stopped, .terminate => some .terminated
  | _, _ => none

/-- A change of state raises `SIGCHLD`, which is discarded while its disposition
is the default one. -/
def childChange (e : ChildEvent) (s : Server) : Server :=
  match s.child.after e with
  | none => s
  | some child => { s with child := child, pending := s.pending || s.handler }

/-- `serv_sigCHLD`. -/
def servSigCHLD (s : Server) : Server :=
  if s.pending then { s with pending := false, sigChlded := true } else s

inductive Input where
  | tick (sys : Sys)
  | child (e : ChildEvent)
  | sigCHLD

def servStep (host : Host) : Input → Server → Server
  | .tick sys, s => tick host sys s
  | .child e, s => childChange e s
  | .sigCHLD, s => servSigCHLD s

end Sexpect.Source
