import Sexpect.Source.Common

/-!
# The client (client.c:61-173, 326-508, 661-812)

`cliMain` builds the request of a sub-command from its options.  `Client` is a
client behind `connect`: where control is, the messages it has sent, the payloads
it has handed to standard output and its `bug(...)` calls.  One input is one
message from the server, one chunk of standard input, a window change, or the
end of the connection.  Substitution in the output and the printing of the
answers to `get` are not modelled here.
-/
namespace Sexpect.Source
open Sexpect.Lib

inductive PassSubcmd where
  | expect
  | interact
  | wait
  deriving DecidableEq, Repr

def PassSubcmd.code : PassSubcmd → Int
  | .expect => passSubcmdExpect
  | .interact => passSubcmdInteract
  | .wait => passSubcmdWait

/-- `struct st_pass`, as far as the request and the loop read it. -/
structure StPass where
  noInput : Bool := true
  hasTimeout : Bool := false
  noDetach : Bool := false
  timeout : Int := 0
  expflags : Int := 0
  pattern : Option Bytes := none
  lookback : Int := 0
  deriving DecidableEq, Repr

/-- `struct st_set`: the value of each option that was given. -/
structure StSet where
  autowait : Option Bool := none
  nonblock : Option Bool := none
  timeout : Option Int := none
  ttl : Option Int := none
  idle : Option Int := none
  deriving DecidableEq, Repr

/-- The sub-commands that talk to a server. -/
inductive Cmd where
  | close
  | expectOut (index : Int)
  | get
  | kill (signal : Int)
  | send (data : Bytes) (enter : Bool)
  | set (opts : StSet)
  | pass (subcmd : PassSubcmd) (opts : StPass)
  deriving DecidableEq, Repr

/-- `cmdopts->passing`. -/
def Cmd.passing : Cmd → Bool
  | .pass _ _ => true
  | _ => false

def Cmd.isInteract : Cmd → Bool
  | .pass .interact _ => true
  | _ => false

def sigterm : Int := 15

/-- Lines 752-756: `expect` without a pattern. -/
def passDefaults (subcmd : PassSubcmd) (opts : StPass) : StPass :=
  if subcmd = .expect ∧ opts.expflags = 0 then
    { opts with expflags := passExpectEre, pattern := some (ascii ".*") }
  else opts

def Cmd.expflags : Cmd → Int
  | .pass subcmd opts => (passDefaults subcmd opts).expflags
  | _ => 0

/-- Lines 762-783. -/
def passRequest (subcmd : PassSubcmd) (opts : StPass) : Ttlv :=
  let opts := passDefaults subcmd opts
  ttlvAppendChild (ttlvNewStruct Tag.pass)
    ([ttlvNewInt Tag.passSubcmd (int32 subcmd.code), ttlvNewInt Tag.expFlags (int32 opts.expflags)] ++
      (if opts.hasTimeout then [ttlvNewInt Tag.expTimeout (int32 opts.timeout)] else []) ++
      opts.pattern.toList.map (ttlvNewText Tag.pattern) ++
      (if opts.lookback > 0 then [ttlvNewInt Tag.lookback (int32 opts.lookback)] else []))

/-- Lines 714-740. -/
def setRequest (opts : StSet) : Ttlv :=
  ttlvAppendChild (ttlvNewStruct Tag.set)
    (opts.autowait.toList.map (fun v => ttlvNewBool Tag.autowait (boolWord v)) ++
      opts.nonblock.toList.map (fun v => ttlvNewBool Tag.nonblock (boolWord v)) ++
      opts.timeout.toList.map (fun v => ttlvNewInt Tag.expTimeout (int32 v)) ++
      opts.ttl.toList.map (fun v => ttlvNewInt Tag.ttl (int32 v)) ++
      opts.idle.toList.map (fun v => ttlvNewInt Tag.idletime (int32 v)))

/-- What `cli_main` decides before it connects. -/
inductive Request where
  | fatal (code : Int)
  | nothing
  | message (msg : Ttlv)
  deriving DecidableEq, Repr

def cliMain (stdinIsTty : Bool) : Cmd → Request
  | .close => .message (ttlvNewStruct Tag.close)
  | .expectOut index => .message (ttlvNewInt Tag.expout (int32 index))
  | .get => .message (ttlvNewStruct Tag.info)
  | .kill signal =>
    .message (ttlvNewInt Tag.kill (int32 (if signal < 0 then sigterm else signal)))
  | .send data enter =>
    if enter then .message (ttlvNewRaw Tag.send (data ++ [13]))
    else if data ≠ [] then .message (ttlvNewRaw Tag.send data)
    else .nothing
  | .set opts => .message (setRequest opts)
  | .pass subcmd opts =>
    if ¬ opts.noInput ∧ ¬ stdinIsTty then .fatal ErrorCode.notty
    else .message (passRequest subcmd opts)

/-- The `bug(...)` calls of the client. -/
inductive ClientBug where
  | helloTag
  | disconnOutput
  | disconnTag
  | unexpectedTag
  deriving DecidableEq, Repr

/-- Where the client is: waiting in `cli_hello`, in `cli_loop`, or in
`cli_disconn` with the exit code it was called with and the one of the `fatal`
behind it.  `crashed` is an access through a null pointer. -/
inductive CliPc where
  | hello
  | loop
  | disconn (exitcode fatalCode : Int)
  | exited (code : Int)
  | crashed
  deriving DecidableEq, Repr

structure Client where
  cmd : Cmd
  request : Ttlv
  pc : CliPc := .hello
  sent : List Ttlv := []
  shown : List Bytes := []
  bugs : List ClientBug := []
  deriving DecidableEq, Repr

/-- A client that has connected and sent `HELLO`. -/
def cliConnect (cmd : Cmd) (request : Ttlv) : Client :=
  { cmd := cmd, request := request, sent := [msgHello] }

def cliSend (msg : Ttlv) (c : Client) : Client := { c with sent := c.sent ++ [msg] }

def cliShow (payload : Bytes) (c : Client) : Client := { c with shown := c.shown ++ [payload] }

def cliBug (b : ClientBug) (c : Client) : Client := { c with bugs := c.bugs ++ [b] }

/-- `cli_disconn` up to its loop. -/
def cliDisconn (exitcode fatalCode : Int) (c : Client) : Client :=
  { cliSend msgDisconn c with pc := .disconn exitcode fatalCode }

/-- The loop of `cli_hello`, and the request behind it. -/
def cliHello (msg : Ttlv) (c : Client) : Client :=
  if msg.tag = Tag.hello then
    let servVer := ttlvFindChild msg Tag.version
    if servVer = .null then { c with pc := .exited ErrorCode.proto }
    else if version ≠ servVer.vText then { c with pc := .exited ErrorCode.proto }
    else { cliSend c.request c with pc := .loop }
  else if msg.tag = Tag.error then
    if ttlvFindChild msg Tag.errorMsg = .null then { c with pc := .crashed }
    else { c with pc := .exited ErrorCode.proto }
  else cliBug .helloTag c

/-- The exit code for a status of `waitpid` (lines 490-498): `WIFEXITED` with
`WEXITSTATUS`, `WIFSIGNALED` with `WTERMSIG`, or 255. -/
def exitedCode (status : Int) : Int :=
  if status % 128 = 0 then status / 256 % 256
  else if status % 128 ≠ 127 then 128 + status % 128
  else 255

/-- `server --> client` in `cli_loop`. -/
def cliLoop (msg : Ttlv) (c : Client) : Client :=
  if msg.tag = Tag.ack then cliDisconn 0 0 c
  else if msg.tag = Tag.output then cliShow msg.vRaw c
  else if msg.tag = Tag.expoutText then cliDisconn 0 0 (cliShow msg.vRaw c)
  else if msg.tag = Tag.matched then cliDisconn 0 0 c
  else if msg.tag = Tag.eof then
    cliDisconn (if hasFlag c.cmd.expflags passExpectEof then 0 else ErrorCode.eof) 0 c
  else if msg.tag = Tag.error then
    let errmsg := ttlvFindChild msg Tag.errorMsg
    let errcode := ttlvFindChild msg Tag.errorCode
    if errmsg = .null ∨ errcode = .null then { c with pc := .crashed }
    else if c.cmd.passing then cliDisconn errcode.vInt 0 c
    else cliDisconn (-1) errcode.vInt c
  else if msg.tag = Tag.info then cliDisconn 0 0 c
  else if msg.tag = Tag.exited then cliDisconn (exitedCode msg.vInt) 0 c
  else { cliBug .unexpectedTag c with pc := .exited ErrorCode.proto }

/-- The loop of `cli_disconn`. -/
def cliDisconnLoop (exitcode fatalCode : Int) (msg : Ttlv) (c : Client) : Client :=
  if msg.tag = Tag.disconn then
    { c with pc := .exited (if exitcode ≥ 0 then exitcode else fatalCode) }
  else if msg.tag = Tag.output then
    if c.cmd.passing then cliShow msg.vRaw c else cliBug .disconnOutput c
  else cliBug .disconnTag c

/-- A message from the server, wherever the client waits for one. -/
def cliRecv (msg : Ttlv) (c : Client) : Client :=
  match c.pc with
  | .hello => cliHello msg c
  | .loop => cliLoop msg c
  | .disconn exitcode fatalCode => cliDisconnLoop exitcode fatalCode msg c
  | .exited _ => c
  | .crashed => c

/-- `msg_recv` fails: `fatal`. -/
def cliLost (c : Client) : Client :=
  match c.pc with
  | .exited _ => c
  | .crashed => c
  | _ => { c with pc := .exited ErrorCode.proto }

/-- Ctrl-]. -/
def detachKey : Bytes := [0x1d]

/-- `stdin --> server` of an `interact` in `cli_loop`. -/
def cliStdin (bs : Bytes) (c : Client) : Client :=
  match c.cmd, c.pc with
  | .pass .interact opts, .loop =>
    if bs = [] then c
    else if ¬ opts.noDetach ∧ bs = detachKey then cliDisconn ErrorCode.detach 0 c
    else cliSend (ttlvNewText Tag.input bs) c
  | _, _ => c

/-- The message of `cli_send_winsize`. -/
def winchMsg (row col : Int) : Ttlv :=
  ttlvAppendChild (ttlvNewStruct Tag.winch)
    [ttlvNewInt Tag.winsizeRow (int32 row), ttlvNewInt Tag.winsizeCol (int32 col)]

/-- `cli_send_winsize` of an `interact`, at its start or on `SIGWINCH`. -/
def cliWinch (row col : Int) (c : Client) : Client :=
  if c.cmd.isInteract ∧ c.pc = .loop then cliSend (winchMsg row col) c else c

end Sexpect.Source
