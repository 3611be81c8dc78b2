import Sexpect.Source.Client
import Sexpect.Source.Server

/-!
# Requests as the server reads them

The children of a request are found by tag.  `processPass_request` is what the
server makes of the `PASS` request a client builds; the other requests carry
their argument in the root.
-/
namespace Sexpect.Guarantees
open Sexpect.Lib Sexpect.Source

/-- Looking through linked nodes: the first one with the tag is found. -/
theorem findFrom_link (t length tag : Nat) (v : TtlvValue) (cs : List Ttlv) :
    ttlvFindFrom (ttlvLink (ttlvNew t v length :: cs)) tag =
      if t % 2 ^ 24 = tag then .node (t % 2 ^ 24) length v .null (ttlvLink cs)
      else ttlvFindFrom (ttlvLink cs) tag := by
  cases cs with
  | nil => simp [ttlvLink, ttlvNew, ttlvFindFrom]
  | cons c cs => simp [ttlvLink, ttlvNew, ttlvFindFrom]

theorem findFrom_nil (tag : Nat) : ttlvFindFrom (ttlvLink []) tag = .null := rfl

theorem findChild_node (t length tag : Nat) (v : TtlvValue) (child next : Ttlv) :
    ttlvFindChild (.node t length v child next) tag = ttlvFindFrom child tag := by
  cases child with
  | null => rfl
  | node t' length' v' child' next' =>
    by_cases ht : t' = tag <;>
      simp [ttlvFindChild, Ttlv.child, Ttlv.tag, ttlvFindSibling, Ttlv.next, ttlvFindFrom, ht]

/-- The children of a fresh struct are searched in order. -/
theorem findChild_struct (t tag : Nat) (cs : List Ttlv) :
    ttlvFindChild (ttlvAppendChild (ttlvNewStruct t) cs) tag = ttlvFindFrom (ttlvLink cs) tag := by
  simp only [ttlvAppendChild, ttlvNewStruct, ttlvNew, ttlvAppend]
  exact findChild_node _ _ _ _ _ _

/-- What the server stores for the `PASS` request of a client. -/
theorem processPass_request (subcmd : PassSubcmd) (opts : StPass) (s : Server) :
    processPass (passRequest subcmd opts) s =
      let o := passDefaults subcmd opts
      { s with
        conn := { s.conn with
          passing := true
          subcmd := subcmd.code
          expflags := (int32 o.expflags).toInt
          pattern := match o.pattern with
            | some p => some (cstring p)
            | none => s.conn.pattern
          timeout := if o.hasTimeout then (int32 o.timeout).toInt else s.spawn.defTimeout
          lookback := if o.lookback > 0 ∧ (int32 o.lookback).toInt > 0 then (int32 o.lookback).toInt
            else s.conn.lookback }
        expout := match o.pattern with
          | some _ => List.replicate expectOutNum none
          | none => s.expout } := by
  generalize ho : passDefaults subcmd opts = o
  have hcode : (int32 subcmd.code).toInt = subcmd.code := by
    cases subcmd <;> decide
  simp only [processPass, passRequest, ho, findChild_struct]
  rcases hp : o.pattern with _ | p <;> by_cases ht : o.hasTimeout <;> by_cases hl : o.lookback > 0 <;>
    simp [ht, hl, ttlvNewInt, ttlvNewText, findFrom_link, findFrom_nil, Tag.passSubcmd,
      Tag.expFlags, Tag.pattern, Tag.expTimeout, Tag.lookback, Ttlv.vInt, Ttlv.value, Ttlv.vText,
      TtlvValue.memory, hcode]

section

variable (host : Host) (sys : Sys)

theorem dispatch_pass (m : Ttlv) (s : Server) (h : m.tag = Tag.pass) :
    dispatch host sys m s = processPass m s := by
  simp only [dispatch, h]
  rw [if_neg (by decide), if_neg (by decide), if_neg (by decide), if_neg (by decide),
    if_pos (by decide)]

theorem dispatch_passRequest (subcmd : PassSubcmd) (opts : StPass) (s : Server) :
    dispatch host sys (passRequest subcmd opts) s = processPass (passRequest subcmd opts) s :=
  dispatch_pass host sys _ s rfl

/-- The greeting of a client of the same version. -/
theorem dispatch_hello (s : Server) (hsock : s.conn.sock = true) (hsent : sys.sent = true) :
    dispatch host sys msgHello s =
      { s with hist := { s.hist with sent := s.hist.sent ++ [msgHello] } } := by
  have hnull : ttlvFindChild msgHello Tag.version ≠ .null := by decide
  have hver : version = (ttlvFindChild msgHello Tag.version).vText := by decide
  rw [dispatch, if_pos (by decide), servHello]
  simp [hsock, hnull, ← hver, msgOut, hsent]

theorem dispatch_disconn (s : Server) (hsock : s.conn.sock = true) (hsent : sys.sent = true) :
    dispatch host sys msgDisconn s =
      { s with
        conn := { s.conn with sock := false }
        hist := { s.hist with sent := s.hist.sent ++ [msgDisconn] } } := by
  rw [dispatch, if_neg (by decide), if_pos (by decide), servDisconn]
  simp [hsock, msgOut, hsent, closeSock]

/-- What is typed goes to the child and is not answered. -/
theorem dispatch_input (m : Ttlv) (s : Server) (h : m.tag = Tag.input) :
    dispatch host sys m s = writePtm sys m s := by
  simp only [dispatch, h]
  rw [if_neg (by decide), if_neg (by decide), if_neg (by decide), if_pos (by decide)]

theorem dispatch_winch (row col : Int) (s : Server) : dispatch host sys (winchMsg row col) s = s := by
  have htag : (winchMsg row col).tag = Tag.winch := rfl
  have hchildren : ¬ (ttlvFindChild (winchMsg row col) Tag.winsizeRow = .null ∨
      ttlvFindChild (winchMsg row col) Tag.winsizeCol = .null) := by
    simp [winchMsg, findChild_struct, ttlvNewInt, findFrom_link, Tag.winsizeRow, Tag.winsizeCol]
  simp only [dispatch, htag]
  rw [if_neg (by decide), if_neg (by decide), if_neg (by decide), if_neg (by decide),
    if_neg (by decide), if_neg (by decide), if_pos (by decide), processWinch,
    if_neg (fun h => hchildren h.2)]

end

end Sexpect.Guarantees
