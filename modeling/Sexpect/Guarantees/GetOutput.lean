import Sexpect.Guarantees.Requests
import Sexpect.Source.Answers

/-!
# What `get` prints

An `INFO` has every child `get` asks for, so nothing is dereferenced that is not there, and what is
printed are the settings of the server (`printInfo_infoReply`).
-/
namespace Sexpect.Guarantees
open Sexpect.Lib Sexpect.Source

/-- One of the settings behind a label. -/
def settingLine (label : String) (value : Bytes) : Bytes := ascii label ++ value ++ [10]

def printBool (b : Bool) : Bytes := printInt (if b then 1 else 0)

/-- What `get` prints of a server: `peek` is the end of its expect buffer. -/
def infoText (host : Host) (spawn : Spawn) (peek : Bytes) : GetWhat → Bytes
  | .all =>
    settingLine "       TTY: " (cstring host.ptsname) ++
      settingLine " Child PID: " (printInt (int32 host.child).toInt) ++
      settingLine "Parent PID: " (printInt (int32 host.pid).toInt) ++
      settingLine "       TTL: " (printInt (int32 spawn.ttl).toInt) ++
      settingLine "      Idle: " (printInt (int32 spawn.idle).toInt) ++
      settingLine "   Timeout: " (printInt (int32 spawn.defTimeout).toInt) ++
      settingLine "  Autowait: " (printBool spawn.autowait) ++
      settingLine "  Nonblock: " (printBool spawn.nonblock) ++
      settingLine "ZombieIdle: " (printInt (int32 spawn.zombieIdle).toInt)
  | .pid => settingLine "" (printInt (int32 host.child).toInt)
  | .ppid => settingLine "" (printInt (int32 host.pid).toInt)
  | .tty => settingLine "" (cstring host.ptsname)
  | .timeout => settingLine "" (printInt (int32 spawn.defTimeout).toInt)
  | .nonblock => settingLine "" (printBool spawn.nonblock)
  | .autowait => settingLine "" (printBool spawn.autowait)
  | .ttl => settingLine "" (printInt (int32 spawn.ttl).toInt)
  | .idle => settingLine "" (printInt (int32 spawn.idle).toInt)
  | .expbuf num =>
    if num > 0 then
      cliDumpCstring (min num.toNat peek.length) (peek.drop (peek.length - min num.toNat peek.length))
    else []

/-- The octets of the expect buffer an `INFO` carries. -/
def peekOf (b : Buffers) : Bytes :=
  (b.expbuf.drop (b.expcnt - min b.expcnt maxExpbufPeek)).take (min b.expcnt maxExpbufPeek)

section

variable {what one : GetWhat} {label : String} {tag length : Nat} {v : TtlvValue} {next msg : Ttlv}
  {format : Ttlv → Bytes}

theorem printValue_found (h : ttlvFindChild msg tag = .node tag length v .null next) :
    printValue what one label tag format msg =
      some (if what = .all then settingLine label (format (.node tag length v .null next))
        else if what = one then settingLine "" (format (.node tag length v .null next)) else []) := by
  unfold printValue
  simp only [h, reduceCtorEq, if_false]
  by_cases hall : what = .all
  · rw [if_pos (.inl hall), if_pos hall, if_pos hall]
    rfl
  by_cases hone : what = one
  · rw [if_pos (.inr hone), if_neg hall, if_neg hall, if_pos hone]
    rfl
  · rw [if_neg (not_or.mpr ⟨hall, hone⟩), if_neg hall, if_neg hone]

end

theorem infoReply_children (host : Host) (s : Server) (tag : Nat) :
    ttlvFindChild (infoReply host s) tag = ttlvFindFrom (ttlvLink
      [ttlvNewInt Tag.pid (int32 host.child), ttlvNewInt Tag.ppid (int32 host.pid),
        ttlvNewText Tag.ptsname host.ptsname, ttlvNewInt Tag.expTimeout (int32 s.spawn.defTimeout),
        ttlvNewBool Tag.autowait (boolWord s.spawn.autowait),
        ttlvNewBool Tag.nonblock (boolWord s.spawn.nonblock), ttlvNewInt Tag.ttl (int32 s.spawn.ttl),
        ttlvNewInt Tag.idletime (int32 s.spawn.idle),
        ttlvNewInt Tag.zombieTtl (int32 s.spawn.zombieIdle), ttlvNewRaw Tag.expbuf (peekOf s.buf)])
      tag := by
  unfold infoReply
  dsimp only
  rw [findChild_struct]
  rfl

theorem printInt_bool (b : Bool) (tag length : Nat) (next : Ttlv) :
    printInt (Ttlv.node tag length (.bool (if boolWord b = 0 then 0 else 1)) .null next).vInt =
      printBool b := by
  cases b <;> rfl

/-- The children of an `INFO`. -/
theorem infoReply_found (host : Host) (s : Server) :
    (∃ next, ttlvFindChild (infoReply host s) Tag.ptsname =
        .node Tag.ptsname host.ptsname.length (.text host.ptsname) .null next) ∧
      (∃ next, ttlvFindChild (infoReply host s) Tag.pid =
        .node Tag.pid 4 (.int (int32 host.child)) .null next) ∧
      (∃ next, ttlvFindChild (infoReply host s) Tag.ppid =
        .node Tag.ppid 4 (.int (int32 host.pid)) .null next) ∧
      (∃ next, ttlvFindChild (infoReply host s) Tag.ttl =
        .node Tag.ttl 4 (.int (int32 s.spawn.ttl)) .null next) ∧
      (∃ next, ttlvFindChild (infoReply host s) Tag.idletime =
        .node Tag.idletime 4 (.int (int32 s.spawn.idle)) .null next) ∧
      (∃ next, ttlvFindChild (infoReply host s) Tag.expTimeout =
        .node Tag.expTimeout 4 (.int (int32 s.spawn.defTimeout)) .null next) ∧
      (∃ next, ttlvFindChild (infoReply host s) Tag.autowait =
        .node Tag.autowait 4 (.bool (if boolWord s.spawn.autowait = 0 then 0 else 1)) .null next) ∧
      (∃ next, ttlvFindChild (infoReply host s) Tag.nonblock =
        .node Tag.nonblock 4 (.bool (if boolWord s.spawn.nonblock = 0 then 0 else 1)) .null next) ∧
      (∃ next, ttlvFindChild (infoReply host s) Tag.zombieTtl =
        .node Tag.zombieTtl 4 (.int (int32 s.spawn.zombieIdle)) .null next) ∧
      ∃ next, ttlvFindChild (infoReply host s) Tag.expbuf =
        .node Tag.expbuf (peekOf s.buf).length (.raw (peekOf s.buf)) .null next := by
  simp only [infoReply_children]
  exact ⟨⟨_, rfl⟩, ⟨_, rfl⟩, ⟨_, rfl⟩, ⟨_, rfl⟩, ⟨_, rfl⟩, ⟨_, rfl⟩, ⟨_, rfl⟩, ⟨_, rfl⟩, ⟨_, rfl⟩,
    ⟨_, rfl⟩⟩

theorem printExpbuf_infoReply (num : Int) (host : Host) (s : Server) :
    printExpbuf (.expbuf num) (infoReply host s) =
      some (infoText host s.spawn (peekOf s.buf) (.expbuf num)) := by
  obtain ⟨-, -, -, -, -, -, -, -, -, next, hexpbuf⟩ := infoReply_found host s
  simp only [printExpbuf, hexpbuf, infoText]
  split <;> rfl

/-- Every child `get` asks for is there, and what is printed are the settings. -/
theorem printInfo_infoReply (what : GetWhat) (host : Host) (s : Server) :
    printInfo what (infoReply host s) = some (infoText host s.spawn (peekOf s.buf) what) := by
  obtain ⟨⟨n1, htty⟩, ⟨n2, hpid⟩, ⟨n3, hppid⟩, ⟨n4, httl⟩, ⟨n5, hidle⟩, ⟨n6, htimeout⟩,
    ⟨n7, hautowait⟩, ⟨n8, hnonblock⟩, ⟨n9, hzombie⟩, -⟩ := infoReply_found host s
  simp only [printInfo, printValue_found htty, printValue_found hpid, printValue_found hppid,
    printValue_found httl, printValue_found hidle, printValue_found htimeout,
    printValue_found hautowait, printValue_found hnonblock, printValue_found hzombie,
    printInt_bool]
  cases what with
  | expbuf num => simp [printExpbuf_infoReply]
  | _ => simp [printExpbuf, infoText, Ttlv.vInt, Ttlv.vText, Ttlv.value, TtlvValue.memory]

end Sexpect.Guarantees
