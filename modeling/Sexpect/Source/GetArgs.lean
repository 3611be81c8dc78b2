import Mathlib.Data.List.DropRight
import Sexpect.Source.Args
import Sexpect.Source.Server

/-!
# Command lines (main.c:172-297, 299-945, common.c:352-371, 781-815)

`getargs` walks over the arguments once.  Each sub-command has a function for one
argument of it with the ones behind, which says what is left; a `break` that is no
error stops the walk, and `rest` are then the arguments nobody has looked at.

What the process finds in its environment, its files and its descriptors is in
`Env`.
-/
namespace Sexpect.Source
open Sexpect.Lib

/-- The options behind an argument, and what was not read. -/
structure Parsed (σ : Type) where
  st : σ
  rest : List Bytes
  stop : Bool := false
  deriving DecidableEq, Repr

def Parsed.map {σ τ : Type} (f : σ → τ) (p : Parsed σ) : Parsed τ :=
  { st := f p.st, rest := p.rest, stop := p.stop }

/-- The loop of `getargs` inside a sub-command. -/
def argLoop {σ : Type} (step : Bytes → List Bytes → σ → Except UsageError (Parsed σ)) :
    Nat → List Bytes → σ → Except UsageError (Parsed σ)
  | _, [], st => .ok { st := st, rest := [] }
  | 0, arg :: rest, st => .ok { st := st, rest := arg :: rest }
  | n + 1, arg :: rest, st => do
    let p ← step arg rest st
    if p.stop then .ok p else argLoop step n p.rest p.st

section

variable {σ : Type}

/-- An option without a value. -/
def flagArg (rest : List Bytes) (st : σ) : Except UsageError (Parsed σ) :=
  .ok { st := st, rest := rest }

/-- An option that takes the next argument. -/
def valueArg (arg : Bytes) (rest : List Bytes) (f : Bytes → Except UsageError σ) :
    Except UsageError (Parsed σ) := do
  let (next, rest) ← nextarg arg rest
  let st ← f next
  .ok { st := st, rest := rest }

/-- `unexpected_arg = true; break`. -/
def unexpectedArg (arg : Bytes) : Except UsageError (Parsed σ) :=
  .error ⟨"unexpected argument: %s", arg⟩

end

def isDash (arg : Bytes) : Bool := arg.head? = some (octet '-')

/-! ## The sub-commands -/

structure StChkerr where
  errcode : Int := -1
  cmpto : Option Bytes := none
  deriving DecidableEq, Repr

def chkerrArg (arg : Bytes) (rest : List Bytes) (st : StChkerr) :
    Except UsageError (Parsed StChkerr) :=
  if str1of arg ["-errno", "-err", "-no", "-code"] then
    valueArg arg rest fun next => do
      let n ← arg2uint next
      .ok { st with errcode := n }
  else if str1of arg ["-is"] then valueArg arg rest fun next => .ok { st with cmpto := some next }
  else unexpectedArg arg

/-- `close`, `help` and `version` take no arguments. -/
def noArg (arg : Bytes) (_ : List Bytes) (_ : Unit) : Except UsageError (Parsed Unit) :=
  unexpectedArg arg

def expectStep (arg : Bytes) (rest : List Bytes) (st : PassArgs) :
    Except UsageError (Parsed PassArgs) := do
  let (st, rest) ← expectArg arg rest st
  .ok { st := st, rest := rest }

def expectOutArg (arg : Bytes) (rest : List Bytes) (_ : Int) : Except UsageError (Parsed Int) :=
  if str1of arg ["-index", "-i"] then valueArg arg rest arg2uint
  else unexpectedArg arg

/-- The value `get` prints. -/
inductive GetWhat where
  | all
  | pid
  | ppid
  | tty
  | timeout
  | nonblock
  | autowait
  | ttl
  | idle
  | expbuf (num : Int)
  deriving DecidableEq, Repr

/-- `struct st_get` with the static `got_one`. -/
structure StGet where
  what : GetWhat := .all
  gotOne : Bool := false
  deriving DecidableEq, Repr

def getArg (arg : Bytes) (rest : List Bytes) (st : StGet) : Except UsageError (Parsed StGet) :=
  if st.gotOne then .error ⟨"can only specify one option for get", []⟩
  else if str1of arg ["-all", "-a"] then flagArg rest ⟨.all, true⟩
  else if str1of arg ["-pid"] then flagArg rest ⟨.pid, true⟩
  else if str1of arg ["-ppid"] then flagArg rest ⟨.ppid, true⟩
  else if str1of arg ["-tty", "-pty", "-pts"] then flagArg rest ⟨.tty, true⟩
  else if str1of arg ["-timeout", "-t"] then flagArg rest ⟨.timeout, true⟩
  else if str1of arg ["-nonblock", "-nb", "-discard"] then flagArg rest ⟨.nonblock, true⟩
  else if str1of arg ["-autowait", "-nowait", "-now"] then flagArg rest ⟨.autowait, true⟩
  else if str1of arg ["-ttl"] then flagArg rest ⟨.ttl, true⟩
  else if str1of arg ["-idle-close", "-idle"] then flagArg rest ⟨.idle, true⟩
  else if str1of arg ["-expect-buf", "-expbuf"] then
    valueArg arg rest fun next => do
      let num ← arg2int next
      if num ≤ 0 ∨ num > maxExpbufPeek then .error ⟨"must be in range [1, %d]", ascii "4096"⟩
      else .ok ⟨.expbuf num, true⟩
  else unexpectedArg arg

/-- `struct st_pass` of `interact`, with the arguments of `-subst`. -/
structure InteractArgs extends PassArgs where
  subs : List Bytes := []
  deriving DecidableEq, Repr

def interactInit : InteractArgs :=
  { opts := { noInput := false, hasTimeout := true, timeout := -1, expflags := passExpectExit } }

def PassArgs.withLookback (n : Int) (st : PassArgs) : PassArgs :=
  { st with opts := { st.opts with lookback := n } }

def interactArg (arg : Bytes) (rest : List Bytes) (st : InteractArgs) :
    Except UsageError (Parsed InteractArgs) :=
  if str1of arg ["-re"] then
    valueArg arg rest fun next =>
      .ok { st with toPassArgs := (st.toPassArgs.withPattern next).flag passExpectEre }
  else if str1of arg ["-nocase", "-icase", "-i"] then
    flagArg rest { st with toPassArgs := st.toPassArgs.flag passExpectIcase }
  else if str1of arg ["-anchor-newline", "-anchor"] then
    flagArg rest { st with toPassArgs := st.toPassArgs.flag passExpectNewline }
  else if str1of arg ["-cstring", "-cstr", "-c"] then flagArg rest { st with cstring := true }
  else if str1of arg ["-lookback", "-lb"] then
    valueArg arg rest fun next => do
      let n ← arg2uint next
      .ok { st with toPassArgs := st.toPassArgs.withLookback n }
  else if str1of arg ["-nodetach", "-nodet", "-nod"] then
    flagArg rest { st with opts := { st.opts with noDetach := true } }
  else if str1of arg ["-subst", "-sub"] then
    valueArg arg rest fun next => .ok { st with subs := st.subs ++ [next] }
  else unexpectedArg arg

/-- The indices into `st->subs` the loop stores at (line 556), from the options `st` on;
`nsubs` is the number of the arguments stored so far. -/
def interactIndices : Nat → List Bytes → InteractArgs → List Nat
  | _, [], _ => []
  | 0, _ :: _, _ => []
  | n + 1, arg :: rest, st =>
    match interactArg arg rest st with
    | .error _ => []
    | .ok p =>
      (if str1of arg ["-subst", "-sub"] then [st.subs.length] else []) ++
        interactIndices n p.rest p.st

/-- `name2sig` with the numbers of Linux; `longname` keeps 31 characters. -/
def name2sig (name : Bytes) : Int :=
  let longname :=
    (if (name.take 3).map toupper = ascii "SIG" then name else ascii "SIG" ++ name).take 31
  let known := [("SIGCONT", 18), ("SIGHUP", 1), ("SIGINT", 2), ("SIGKILL", 9), ("SIGQUIT", 3),
    ("SIGSTOP", 19), ("SIGTERM", 15), ("SIGUSR1", 10), ("SIGUSR2", 12)]
  match known.find? fun entry => ascii entry.1 = longname.map toupper with
  | some entry => entry.2
  | none => -1

def killArg (arg : Bytes) (rest : List Bytes) (_ : Int) : Except UsageError (Parsed Int) :=
  if isDash arg ∧ arg.tail ≠ [] ∧ arg.tail.all isdigit then do
    let n ← arg2uint arg.tail
    flagArg rest n
  else if isDash arg then
    if name2sig arg.tail < 0 then .error ⟨"%s not supported, please use signal number", arg⟩
    else flagArg rest (name2sig arg.tail)
  else unexpectedArg arg

def passMaxSend : Nat := 1024

/-- `struct st_send`. -/
structure StSend where
  cstring : Bool := false
  hasFd : Bool := false
  strip : Bool := false
  enter : Bool := false
  envvar : Option Bytes := none
  filename : Option Bytes := none
  fd : Int := 0
  limit : Int := 0
  sources : Nat := 0
  data : Option Bytes := none
  deriving DecidableEq, Repr

/-- Lines 577-629.  `STRING` ends the walk, and so does `--`, which looks at what
is behind its operand. -/
def sendArg (arg : Bytes) (rest : List Bytes) (st : StSend) : Except UsageError (Parsed StSend) :=
  if str1of arg ["-cstring", "-cstr", "-c"] then flagArg rest { st with cstring := true }
  else if str1of arg ["-cr", "-enter"] then flagArg rest { st with enter := true }
  else if str1of arg ["-strip"] then flagArg rest { st with strip := true }
  else if str1of arg ["-env", "-var"] then
    valueArg arg rest fun next => .ok { st with sources := st.sources + 1, envvar := some next }
  else if str1of arg ["-file", "-f"] then
    valueArg arg rest fun next => .ok { st with sources := st.sources + 1, filename := some next }
  else if str1of arg ["-fd"] then
    valueArg arg rest fun next => do
      let n ← arg2uint next
      .ok { st with sources := st.sources + 1, hasFd := true, fd := n }
  else if str1of arg ["-limit"] then
    valueArg arg rest fun next => do
      let n ← arg2uint next
      if n ≤ 0 ∨ n > passMaxSend then .error ⟨"limit must be in [0, %d]", ascii "1024"⟩
      else .ok { st with limit := n }
  else if str1of arg ["--"] then
    match rest with
    | [] => .ok { st := { st with sources := st.sources + 1 }, rest := [], stop := true }
    | [next] =>
      .ok { st := { st with sources := st.sources + 1, data := some next }, rest := [], stop := true }
    | _ :: extra :: _ => unexpectedArg extra
  else if isDash arg then .error ⟨"unknown send option: %s", arg⟩
  else if st.data = none then
    .ok { st := { st with sources := st.sources + 1, data := some arg }, rest := rest, stop := true }
  else unexpectedArg arg

/-- `str_true` and `str_false`. -/
def argBool (s : Bytes) : Except UsageError Bool :=
  if str1of s ["1", "on", "yes", "y", "true"] then .ok true
  else if str1of s ["0", "off", "no", "n", "false"] then .ok false
  else .error ⟨"unexpected argument: %s", s⟩

/-- A number of which the negative ones all mean `floor`. -/
def argFloor (floor : Int) (s : Bytes) : Except UsageError Int := do
  let n ← arg2int s
  .ok (if n < 0 then floor else n)

def setArg (arg : Bytes) (rest : List Bytes) (st : StSet) : Except UsageError (Parsed StSet) :=
  if str1of arg ["-autowait", "-nowait", "-now"] then
    valueArg arg rest fun next => do
      let b ← argBool next
      .ok { st with autowait := some b }
  else if str1of arg ["-nonblock", "-nb", "-discard"] then
    valueArg arg rest fun next => do
      let b ← argBool next
      .ok { st with nonblock := some b }
  else if str1of arg ["-timeout", "-t"] then
    valueArg arg rest fun next => do
      let n ← argFloor (-1) next
      .ok { st with timeout := some n }
  else if str1of arg ["-ttl"] then
    valueArg arg rest fun next => do
      let n ← argFloor 0 next
      .ok { st with ttl := some n }
  else if str1of arg ["-idle-close", "-idle"] then
    valueArg arg rest fun next => do
      let n ← argFloor 0 next
      .ok { st with idle := some n }
  else unexpectedArg arg

/-- `struct st_spawn`. -/
structure StSpawn extends Spawn where
  nohup : Bool := false
  append : Bool := false
  term : Option Bytes := none
  logfile : Option Bytes := none
  argv : Option (List Bytes) := none
  deriving DecidableEq, Repr

def spawnArg (arg : Bytes) (rest : List Bytes) (st : StSpawn) : Except UsageError (Parsed StSpawn) :=
  if str1of arg ["-nohup"] then flagArg rest { st with nohup := true }
  else if str1of arg ["-autowait", "-nowait", "-now"] then
    flagArg rest { st with autowait := true }
  else if str1of arg ["-nonblock", "-nb", "-discard"] then
    flagArg rest { st with nonblock := true }
  else if str1of arg ["-close-on-exit", "-cloexit"] then flagArg rest { st with cloexit := true }
  else if str1of arg ["-term", "-T"] then
    valueArg arg rest fun next =>
      if next.length = 0 then .error ⟨"-term cannot be empty", []⟩
      else .ok { st with term := some next }
  else if str1of arg ["-timeout", "-t"] then
    valueArg arg rest fun next => do
      let n ← argFloor (-1) next
      .ok { st with defTimeout := n }
  else if str1of arg ["-ttl"] then
    valueArg arg rest fun next => do
      let n ← argFloor 0 next
      .ok { st with ttl := n }
  else if str1of arg ["-idle-close", "-idle"] then
    valueArg arg rest fun next => do
      let n ← argFloor 0 next
      .ok { st with idle := n }
  else if str1of arg ["-logfile", "-logf", "-log"] then
    valueArg arg rest fun next => .ok { st with logfile := some next }
  else if str1of arg ["-append"] then flagArg rest { st with append := true }
  else if str1of arg ["-zombie-idle", "-z-idle", "-z", "-zombie-ttl", "-zttl"] then
    valueArg arg rest fun next => do
      let n ← arg2int next
      .ok { st with zombieIdle := n }
  else if isDash arg then .error ⟨"unknown spawn option: %s", arg⟩
  else
    .ok { st := { st with argv := some (arg :: rest) }, rest := rest, stop := true }

def waitInit : PassArgs :=
  { opts := { hasTimeout := true, timeout := -1, expflags := passExpectExit } }

def waitArg (arg : Bytes) (rest : List Bytes) (st : PassArgs) : Except UsageError (Parsed PassArgs) :=
  if str1of arg ["-lookback", "-lb"] then
    valueArg arg rest fun next => do
      let n ← arg2uint next
      .ok (st.withLookback n)
  else unexpectedArg arg

/-! ## The walk over the command line -/

/-- `cmdopts->cmd`. -/
inductive SubCmd where
  | chkerr
  | close
  | expect
  | expectOut
  | get
  | help
  | interact
  | kill
  | send
  | set
  | spawn
  | version
  | wait
  | unknown (name : Bytes)
  deriving DecidableEq, Repr

/-- The names of a sub-command (lines 344-412). -/
def subCommand (arg : Bytes) : SubCmd :=
  if str1of arg ["chkerr", "ckerr", "chk", "ck", "err"] then .chkerr
  else if str1of arg ["close", "c"] then .close
  else if str1of arg ["expect", "exp", "ex", "x"] then .expect
  else if str1of arg ["expect_out", "expout", "out"] then .expectOut
  else if str1of arg ["get"] then .get
  else if str1of arg ["interact", "i"] then .interact
  else if str1of arg ["kill", "k"] then .kill
  else if str1of arg ["send", "s"] then .send
  else if str1of arg ["set"] then .set
  else if str1of arg ["spawn", "sp", "fork"] then .spawn
  else if str1of arg ["wait", "w"] then .wait
  else .unknown arg

structure GlobalOpts where
  debug : Bool := false
  sockpath : Option Bytes := none
  deriving DecidableEq, Repr

/-- The arguments up to the sub-command (lines 318-342). -/
def globalArgs : List Bytes → GlobalOpts →
    Except UsageError (GlobalOpts × Option (SubCmd × List Bytes))
  | [], g => .ok (g, none)
  | arg :: rest, g =>
    if str1of arg ["-h", "-help", "--help", "help", "h"] then .ok (g, some (.help, rest))
    else if str1of arg ["-version", "--version", "version", "ver", "v"] then
      .ok (g, some (.version, rest))
    else if str1of arg ["-debug", "-d"] then globalArgs rest { g with debug := true }
    else if str1of arg ["-sock", "-s"] then
      match rest with
      | [] => .error ⟨"%s requires an argument", arg⟩
      | next :: rest => globalArgs rest { g with sockpath := some next }
    else if isDash arg then .error ⟨"unknown global option: %s", arg⟩
    else .ok (g, some (subCommand arg, rest))

/-- The union of `struct st_cmdopts`. -/
inductive SubOpts where
  | chkerr (st : StChkerr)
  | close
  | expect (st : PassArgs)
  | expectOut (index : Int)
  | get (st : StGet)
  | help
  | interact (st : InteractArgs)
  | kill (signal : Int)
  | send (st : StSend)
  | set (st : StSet)
  | spawn (st : StSpawn)
  | version
  | wait (st : PassArgs)
  | unknown (name : Bytes)
  deriving DecidableEq, Repr

/-- The loop for a sub-command, from its defaults. -/
def walk {σ : Type} (step : Bytes → List Bytes → σ → Except UsageError (Parsed σ)) (init : σ)
    (f : σ → SubOpts) (args : List Bytes) : Except UsageError (Parsed SubOpts) := do
  let p ← argLoop step args.length args init
  .ok (p.map f)

/-- The arguments of a sub-command; of an unknown one nothing is looked at. -/
def subArgs (cmd : SubCmd) (args : List Bytes) : Except UsageError (Parsed SubOpts) :=
  match cmd with
  | .chkerr => walk chkerrArg {} .chkerr args
  | .close => walk noArg () (fun _ => .close) args
  | .expect => walk expectStep {} .expect args
  | .expectOut => walk expectOutArg 0 .expectOut args
  | .get => walk getArg {} .get args
  | .help => walk noArg () (fun _ => .help) args
  | .interact => walk interactArg interactInit .interact args
  | .kill => walk killArg (-1) .kill args
  | .send => walk sendArg {} .send args
  | .set => walk setArg {} .set args
  | .spawn => walk spawnArg {} .spawn args
  | .version => walk noArg () (fun _ => .version) args
  | .wait => walk waitArg waitInit .wait args
  | .unknown name => .ok { st := .unknown name, rest := args }

/-! ## The checks behind it -/

/-- What `stat` says about a file. -/
structure FileStat where
  regular : Bool
  socket : Bool
  size : Nat
  deriving DecidableEq, Repr

/-- The environment of the process: its variables, the files, and the octets that
can be read from a file or a descriptor; `none` is a failed call. -/
structure Env where
  getenv : Bytes → Option Bytes
  stat : Bytes → Option FileStat
  access : Bytes → Bool
  file : Bytes → Option Bytes
  descriptor : Int → Option Bytes

/-- A call of `fatal` with its text, or of `fatal_sys`. -/
inductive Fatal where
  | usage (e : UsageError)
  | general (e : UsageError)
  | sys (call : String)
  deriving DecidableEq, Repr

/-- `readfd`, on what can be read from the descriptor. -/
def readfd (available : Option Bytes) (limit : Int) : Except Fatal Bytes :=
  if limit ≤ 0 then .error (.usage ⟨"#read must > 0", []⟩)
  else
    match available with
    | none => .error (.sys "read")
    | some bytes => .ok (bytes.take limit.toNat)

/-- The limit of `readfile`: without `-limit` the size of a regular file. -/
def fileLimit (env : Env) (fname : Bytes) (limit : Int) : Except Fatal Int :=
  if limit = 0 ∧ fname = ascii "-" then
    .error (.usage ⟨"must specify -limit for non-regular file", []⟩)
  else if limit = 0 then
    match env.stat fname with
    | none => .error (.sys "stat")
    | some st =>
      if ¬ st.regular then .error (.usage ⟨"must specify -limit for non-regular file", []⟩)
      else if st.size > passMaxSend then .error (.usage ⟨"file too large (%d > %d)", []⟩)
      else .ok st.size
  else .ok limit

def readfile (env : Env) (fname : Bytes) (limit : Int) : Except Fatal Bytes := do
  let limit ← fileLimit env fname limit
  if fname = ascii "-" then readfd (env.descriptor 0) limit
  else
    match env.file fname with
    | none => .error (.sys "open")
    | some bytes => readfd (some bytes) limit

/-- `str_rstrip`: the C string behind it. -/
def strRstrip (s : Bytes) : Bytes := (cstring s).rdropWhile isspace

/-- The data of `send` before `-strip`. -/
def sendSource (env : Env) (st : StSend) : Except Fatal Bytes :=
  match st.data with
  | some data =>
    if st.cstring then
      match strunesc data with
      | none => .error (.usage ⟨"invalid backslash escapes: %s", data⟩)
      | some out => .ok out
    else .ok data
  | none =>
    match st.envvar with
    | some var =>
      match env.getenv var with
      | none => .error (.usage ⟨"env var not found: %s", var⟩)
      | some value => .ok (cstring value)
    | none =>
      match st.filename with
      | some fname => readfile env fname st.limit
      | none =>
        if st.hasFd then
          if st.limit ≤ 0 then .error (.usage ⟨"-limit must be specified for -fd", []⟩)
          else readfd (env.descriptor st.fd) st.limit
        else .ok []

/-- Lines 834-899: the `data` and `len` of `send`. -/
def sendData (env : Env) (st : StSend) : Except Fatal Bytes :=
  if st.sources > 1 then .error (.usage ⟨"too many data sources", []⟩)
  else if st.cstring ∧ st.data = none then .error (.usage ⟨"-cstring unexpected", []⟩)
  else if st.strip ∧ ¬ (st.filename.isSome ∨ st.hasFd) then
    .error (.usage ⟨"-strip can only be used with -file or -fd", []⟩)
  else do
    let data ← sendSource env st
    let data := if (st.filename.isSome ∨ st.hasFd) ∧ st.strip then strRstrip data else data
    if data.length > passMaxSend then
      .error (.usage ⟨"send: string length must be < %d", ascii "1024"⟩)
    else .ok data

/-- The pattern of `interact` (lines 812-832). -/
def interactPattern (st : InteractArgs) : Except UsageError StPass :=
  match st.opts.pattern with
  | none => .ok st.opts
  | some pattern => do
    let pattern ← usedPattern st.cstring pattern
    .ok { st.opts with pattern := some pattern }

/-- What the program goes on to do. -/
inductive Action where
  | help
  | version
  | chkerr (st : StChkerr)
  | spawn (st : StSpawn)
  | command (cmd : Cmd) (subs : List Bytes)
  | unknown (name : Bytes)
  deriving DecidableEq, Repr

/-- The checks of a sub-command (lines 766-912). -/
def checkOpts (env : Env) : SubOpts → Except Fatal Action
  | .chkerr st => .ok (.chkerr st)
  | .close => .ok (.command .close [])
  | .expect st => do
    let opts ← (expectPattern st).mapError .usage
    .ok (.command (.pass .expect opts) [])
  | .expectOut index => .ok (.command (.expectOut index) [])
  | .get _ => .ok (.command .get [])
  | .help => .ok .help
  | .interact st => do
    let opts ← (interactPattern st).mapError .usage
    .ok (.command (.pass .interact opts) st.subs)
  | .kill signal => .ok (.command (.kill signal) [])
  | .send st => do
    let data ← sendData env st
    .ok (.command (.send data st.enter) [])
  | .set st => .ok (.command (.set st) [])
  | .spawn st =>
    if st.argv = none then .error (.usage ⟨"spawn requires more arguments", []⟩)
    else .ok (.spawn st)
  | .version => .ok .version
  | .wait st => .ok (.command (.pass .wait st.opts) [])
  | .unknown name => .ok (.unknown name)

/-- Lines 914-934: `-sock` or its variable, and what it names. -/
def checkSock (env : Env) (g : GlobalOpts) (action : Action) : Except Fatal Action :=
  match action with
  | .help => .ok .help
  | .version => .ok .version
  | action =>
    match g.sockpath.or (env.getenv (ascii "SEXPECT_SOCKFILE")) with
    | none =>
      match action with
      | .chkerr st => .ok (.chkerr st)
      | _ => .error (.usage ⟨"-sock not specified", []⟩)
    | some path =>
      if env.access path then
        match env.stat path with
        | none => .error (.sys "stat")
        | some st =>
          if st.socket then .ok action else .error (.general ⟨"not a socket file: %s", path⟩)
      else .ok action

/-- `getargs`, and the last branch of `cli_main` for a name that is none. -/
def getargs (env : Env) (argv : List Bytes) : Except Fatal Action := do
  let (g, sub) ← (globalArgs argv {}).mapError .usage
  match sub with
  | none => .error (.usage ⟨"run %s -h for help", ascii "sexpect"⟩)
  | some (cmd, args) => do
    let p ← (subArgs cmd args).mapError .usage
    let action ← checkOpts env p.st
    let action ← checkSock env g action
    match action with
    | .unknown name => .error (.usage ⟨"unknown sub-command: %s", name⟩)
    | action => .ok action

end Sexpect.Source
