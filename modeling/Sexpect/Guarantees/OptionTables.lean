import Sexpect.Guarantees.ExpectOptions

/-!
# The options a sub-command has

A table lists the options of a sub-command, whether each takes the next argument, and
what it asks for; the last column is the operand, where there is one.  Nothing here
refers to the functions of `getargs` that read an argument: a table says what is to become of
a list of arguments, and `CommandLine` compares.
-/
namespace Sexpect.Guarantees
open Sexpect.Lib Sexpect.Source

/-- An option: how it is written, whether the next argument is its value, and what it does to
the options so far, given that value or itself. -/
structure OptionRow (σ : Type) where
  called : Bytes → Bool
  valued : Bool
  effect : Bytes → σ → Option σ

/-- The options of a sub-command, and what a word that is none does. -/
structure OptionTable (σ : Type) where
  rows : List (OptionRow σ)
  operand : Bytes → σ → Option σ := fun _ _ => none
  dashes : Bool := false

section

variable {σ : Type}

def flagRow (names : List String) (effect : σ → σ) : OptionRow σ where
  called arg := str1of arg names
  valued := false
  effect _ st := some (effect st)

/-- A value of any kind. -/
def textRow (names : List String) (effect : Bytes → σ → σ) : OptionRow σ where
  called arg := str1of arg names
  valued := true
  effect value st := some (effect value st)

/-- A value that has to be read first. -/
def valueRow {α : Type} (names : List String) (read : Bytes → Except UsageError α)
    (effect : α → σ → σ) : OptionRow σ where
  called arg := str1of arg names
  valued := true
  effect value st := (read value).toOption.map fun a => effect a st

/-- An option of the table, with the value it takes. -/
inductive OptionTable.Takes (t : OptionTable σ) (st : σ) : List Bytes → σ → Prop
  | flag {row : OptionRow σ} {arg : Bytes} {st' : σ} : row ∈ t.rows → row.valued = false →
      row.called arg = true → row.effect arg st = some st' → t.Takes st [arg] st'
  | value {row : OptionRow σ} {arg next : Bytes} {st' : σ} : row ∈ t.rows → row.valued = true →
      row.called arg = true → row.effect next st = some st' → t.Takes st [arg, next] st'

/-- The operand, which only `--` lets begin with a dash. -/
inductive OptionTable.Operand (t : OptionTable σ) (st : σ) : List Bytes → σ → Prop
  | word {arg : Bytes} {st' : σ} : isDash arg = false → t.operand arg st = some st' →
      t.Operand st [arg] st'
  | dashed {arg : Bytes} {st' : σ} : t.dashes = true → t.operand arg st = some st' →
      t.Operand st [ascii "--", arg] st'

/-- All of the arguments are options with their values and, where `free`, one operand, in
any order, and one after the other they make `st'` of `st`. -/
inductive OptionTable.Reads (t : OptionTable σ) : Bool → σ → List Bytes → σ → Prop
  | nil {free : Bool} {st : σ} : t.Reads free st [] st
  | option {free : Bool} {st st' st'' : σ} {opt rest : List Bytes} : t.Takes st opt st' →
      t.Reads free st' rest st'' → t.Reads free st (opt ++ rest) st''
  | operand {st st' st'' : σ} {words rest : List Bytes} : t.Operand st words st' →
      t.Reads false st' rest st'' → t.Reads true st (words ++ rest) st''

end

/-! ## The tables -/

def chkerrTable : OptionTable StChkerr where
  rows :=
    [valueRow ["-errno", "-err", "-no", "-code"] arg2uint fun n st => { st with errcode := n },
     textRow ["-is"] fun value st => { st with cmpto := some value }]

/-- The pattern of `expect` may also be its operand, which is an exact one. -/
def expectTable : OptionTable PassArgs where
  rows :=
    [textRow ["-exact", "-ex"] fun value st => (st.withPattern value).flag passExpectExact,
     textRow ["-re"] fun value st => (st.withPattern value).flag passExpectEre,
     textRow ["-glob", "-gl"] fun value st => (st.withPattern value).flag passExpectGlob,
     flagRow ["-nocase", "-icase", "-i"] fun st => st.flag passExpectIcase,
     flagRow ["-anchor-newline", "-anchor"] fun st => st.flag passExpectNewline,
     flagRow ["-cstring", "-cstr", "-c"] fun st => { st with cstring := true },
     flagRow ["-eof"] fun st => st.flag passExpectEof,
     valueRow ["-timeout", "-t"] arg2int fun n st =>
       { st with opts := { st.opts with hasTimeout := true, timeout := if n < 0 then -1 else n } },
     valueRow ["-lookback", "-lb"] arg2uint fun n st =>
       { st with opts := { st.opts with lookback := n } }]
  operand word st := some ((st.withPattern word).flag passExpectExact)

def expectOutTable : OptionTable Int where
  rows := [valueRow ["-index", "-i"] arg2uint fun n _ => n]

/-- An option of `get`, of which there is one at most. -/
def getRow (names : List String) (what : GetWhat) : OptionRow StGet where
  called arg := str1of arg names
  valued := false
  effect _ st := if st.gotOne then none else some ⟨what, true⟩

/-- The number of octets `-expbuf` asks for. -/
def peekRow : OptionRow StGet where
  called arg := str1of arg ["-expect-buf", "-expbuf"]
  valued := true
  effect value st := (arg2int value).toOption.bind fun n =>
    if ¬ st.gotOne ∧ 1 ≤ n ∧ n ≤ maxExpbufPeek then some ⟨.expbuf n, true⟩ else none

def getTable : OptionTable StGet where
  rows :=
    [getRow ["-all", "-a"] .all,
     getRow ["-pid"] .pid,
     getRow ["-ppid"] .ppid,
     getRow ["-tty", "-pty", "-pts"] .tty,
     getRow ["-timeout", "-t"] .timeout,
     getRow ["-nonblock", "-nb", "-discard"] .nonblock,
     getRow ["-autowait", "-nowait", "-now"] .autowait,
     getRow ["-ttl"] .ttl,
     getRow ["-idle-close", "-idle"] .idle,
     peekRow]

def interactTable : OptionTable InteractArgs where
  rows :=
    [textRow ["-re"] fun value st =>
       { st with toPassArgs := (st.toPassArgs.withPattern value).flag passExpectEre },
     flagRow ["-nocase", "-icase", "-i"] fun st =>
       { st with toPassArgs := st.toPassArgs.flag passExpectIcase },
     flagRow ["-anchor-newline", "-anchor"] fun st =>
       { st with toPassArgs := st.toPassArgs.flag passExpectNewline },
     flagRow ["-cstring", "-cstr", "-c"] fun st => { st with cstring := true },
     valueRow ["-lookback", "-lb"] arg2uint fun n st =>
       { st with toPassArgs := st.toPassArgs.withLookback n },
     flagRow ["-nodetach", "-nodet", "-nod"] fun st =>
       { st with opts := { st.opts with noDetach := true } },
     textRow ["-subst", "-sub"] fun value st => { st with subs := st.subs ++ [value] }]

/-- `-9`. -/
def sigNumRow : OptionRow Int where
  called arg := isDash arg && arg.tail ≠ [] && arg.tail.all isdigit
  valued := false
  effect arg _ := (arg2uint arg.tail).toOption

/-- `-HUP` or `-SIGHUP`, in any case. -/
def sigNameRow (name : String) (signal : Int) : OptionRow Int where
  called arg := isDash arg &&
    (arg.tail.map toupper = ascii name || arg.tail.map toupper = ascii "SIG" ++ ascii name)
  valued := false
  effect _ _ := some signal

def killTable : OptionTable Int where
  rows :=
    [sigNumRow, sigNameRow "CONT" 18, sigNameRow "HUP" 1, sigNameRow "INT" 2, sigNameRow "KILL" 9,
     sigNameRow "QUIT" 3, sigNameRow "STOP" 19, sigNameRow "TERM" 15, sigNameRow "USR1" 10,
     sigNameRow "USR2" 12]

/-- The number of octets `-limit` allows. -/
def limitRow : OptionRow StSend where
  called arg := str1of arg ["-limit"]
  valued := true
  effect value st := (arg2uint value).toOption.bind fun n =>
    if 0 < n ∧ n ≤ passMaxSend then some { st with limit := n } else none

/-- What `send` sends has one of four sources; `--` in front of nothing counts as one. -/
def sendTable : OptionTable StSend where
  rows :=
    [flagRow ["-cstring", "-cstr", "-c"] fun st => { st with cstring := true },
     flagRow ["-cr", "-enter"] fun st => { st with enter := true },
     flagRow ["-strip"] fun st => { st with strip := true },
     textRow ["-env", "-var"] fun value st =>
       { st with sources := st.sources + 1, envvar := some value },
     textRow ["-file", "-f"] fun value st =>
       { st with sources := st.sources + 1, filename := some value },
     valueRow ["-fd"] arg2uint fun n st =>
       { st with sources := st.sources + 1, hasFd := true, fd := n },
     limitRow,
     flagRow ["--"] fun st => { st with sources := st.sources + 1 }]
  operand word st := some { st with sources := st.sources + 1, data := some word }
  dashes := true

def setTable : OptionTable StSet where
  rows :=
    [valueRow ["-autowait", "-nowait", "-now"] argBool fun b st => { st with autowait := some b },
     valueRow ["-nonblock", "-nb", "-discard"] argBool fun b st => { st with nonblock := some b },
     valueRow ["-timeout", "-t"] (argFloor (-1)) fun n st => { st with timeout := some n },
     valueRow ["-ttl"] (argFloor 0) fun n st => { st with ttl := some n },
     valueRow ["-idle-close", "-idle"] (argFloor 0) fun n st => { st with idle := some n }]

def waitTable : OptionTable PassArgs where
  rows := [valueRow ["-lookback", "-lb"] arg2uint fun n st => st.withLookback n]

/-- The options of a sub-command, from its defaults, that all of the arguments ask for.  For
`close`, `help` and `version` that is an empty list. -/
inductive Interpreted : SubCmd → List Bytes → SubOpts → Prop
  | chkerr {args : List Bytes} {st : StChkerr} : chkerrTable.Reads true {} args st →
      Interpreted .chkerr args (.chkerr st)
  | close : Interpreted .close [] .close
  | expect {args : List Bytes} {st : PassArgs} : expectTable.Reads true {} args st →
      Interpreted .expect args (.expect st)
  | expectOut {args : List Bytes} {index : Int} : expectOutTable.Reads true 0 args index →
      Interpreted .expectOut args (.expectOut index)
  | get {args : List Bytes} {st : StGet} : getTable.Reads true {} args st →
      Interpreted .get args (.get st)
  | help : Interpreted .help [] .help
  | interact {args : List Bytes} {st : InteractArgs} :
      interactTable.Reads true interactInit args st → Interpreted .interact args (.interact st)
  | kill {args : List Bytes} {signal : Int} : killTable.Reads true (-1) args signal →
      Interpreted .kill args (.kill signal)
  | send {args : List Bytes} {st : StSend} : sendTable.Reads true {} args st →
      Interpreted .send args (.send st)
  | set {args : List Bytes} {st : StSet} : setTable.Reads true {} args st →
      Interpreted .set args (.set st)
  | version : Interpreted .version [] .version
  | wait {args : List Bytes} {st : PassArgs} : waitTable.Reads true waitInit args st →
      Interpreted .wait args (.wait st)

end Sexpect.Guarantees
