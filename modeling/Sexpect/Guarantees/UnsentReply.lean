import Sexpect.Guarantees.Captures
import Sexpect.Guarantees.Lookback

/-!
# A terminal reply that cannot be sent

`serv_pass` takes a match out of the expect buffer, forgets the buffer at an `EOF`
and waits for the child before it knows whether the client is still there to hear
of it.  When the reply does not get through, the next client that asks the same
is given the same reply only if the state behind the failure still allows it
(`ReplyKept`): the server has not waited for the child and does not leave on its
own, and what the match has left matches again in the same way.

In between nothing of the child reaches the server and no clock runs out
(`Undisturbed`); any number of clients may come and go with a greeting.
-/
namespace Sexpect.Guarantees
open Sexpect.Lib Sexpect.Source

/-- The reply with which a stretch of `serv_pass` ends a request: a match, the end of
the output or the end of the child. -/
def terminalReply (host : Host) (sys : Sys) (s : Server) : Option Ttlv :=
  match s.pc with
  | .expect =>
    if (servExpect host (s.conn.pattern.getD []) s).1 then some (ttlvNewBool Tag.matched 1) else none
  | .ending =>
    if s.ptmOpen = false ∧ s.buf.newcnt = 0 then
      if hasFlag s.conn.expflags passExpectEof then some (ttlvNewStruct Tag.eof)
      else if hasFlag s.conn.expflags passExpectExit ∧ s.waited = false ∧ s.sigChlded = true ∧
          (s.child = .terminated ∨ sys.interrupted = true) then
        some (ttlvNewInt Tag.exited sys.status)
      else none
    else none
  | _ => none

/-- What the stretch has done to the state when it comes to the reply. -/
inductive Ends (host : Host) (s : Server) : Ttlv → Server → Prop
  | matched (s' : Server) (hpc : s.pc = .expect)
      (h : servExpect host (s.conn.pattern.getD []) s = (true, s')) :
      Ends host s (ttlvNewBool Tag.matched 1) s'
  | eof (hpc : s.pc = .ending) (hclosed : s.ptmOpen = false)
      (hflag : hasFlag s.conn.expflags passExpectEof = true) :
      Ends host s (ttlvNewStruct Tag.eof) { s with buf := resetExp s.buf.ntotal s.buf }
  | exited (status : BitVec 32) (hpc : s.pc = .ending) :
      Ends host s (ttlvNewInt Tag.exited status) { s with waited := true }

theorem terminalReply_ends {host : Host} {sys : Sys} {s : Server} {t : Ttlv}
    (h : terminalReply host sys s = some t) :
    ∃ s', Ends host s t s' ∧ tick host sys s = stopPassing (servMsgSend sys.sent t s') := by
  unfold terminalReply at h
  split at h
  · rename_i hpc
    split at h
    · rename_i hmatch
      cases h
      refine ⟨_, .matched (servExpect host (s.conn.pattern.getD []) s).2 hpc (Prod.ext hmatch rfl), ?_⟩
      simp only [tick, hpc, servPassExpect]
      split
      · rename_i s' heq
        rw [heq]
      · rename_i s' heq
        rw [heq] at hmatch
        cases hmatch
    · cases h
  · rename_i hpc
    split at h
    · rename_i hclosed
      have hdone : ¬ s.ptmOpen = true ∧ s.buf.newcnt = 0 := ⟨by simp [hclosed.1], hclosed.2⟩
      have htick : tick host sys s = servPassEnd sys s := by
        simp only [tick, hpc]
      rw [htick, servPassEnd, if_pos hdone]
      split at h
      · rename_i hflag
        cases h
        exact ⟨_, .eof hpc hclosed.1 hflag, by rw [if_pos hflag]⟩
      · rename_i hflag
        split at h
        · rename_i hexit
          obtain ⟨hflag', hwaited, hdead, hwait⟩ := hexit
          cases h
          refine ⟨_, .exited sys.status hpc, ?_⟩
          rw [if_neg hflag, if_pos hflag', if_pos ⟨by simp [hwaited], hdead⟩, if_neg]
          rintro ⟨halive, hblocked⟩
          rcases hwait with hterm | hint
          · exact halive hterm
          · exact hblocked hint
        · cases h
    · cases h
  · cases h

/-! ## The same request again -/

/-- A `PASS` request for what the server is busy with. -/
structure AsksAgain (s : Server) (m : Ttlv) : Prop where
  tag : m.tag = Tag.pass
  hasSubcmd : ttlvFindChild m Tag.passSubcmd ≠ .null
  subcmd : (ttlvFindChild m Tag.passSubcmd).vInt = s.conn.subcmd
  hasFlags : ttlvFindChild m Tag.expFlags ≠ .null
  expflags : (ttlvFindChild m Tag.expFlags).vInt = s.conn.expflags
  pattern : (if ttlvFindChild m Tag.pattern = .null then none
    else some (ttlvFindChild m Tag.pattern).vText) = s.conn.pattern

/-- The lookback a request asks for, zero without one. -/
def lookbackOf (m : Ttlv) : Int :=
  if ttlvFindChild m Tag.lookback ≠ .null ∧ (ttlvFindChild m Tag.lookback).vInt > 0 then
    (ttlvFindChild m Tag.lookback).vInt
  else 0

/-- `select` reports no output of the child, and no error. -/
def selectsQuietly : SelectResult → Prop
  | .ready fds => fds.ptm = false
  | .eintr => True
  | .error => False

/-- A stretch in which nothing of the child reaches the server, no clock runs out and
no call fails; a client greets the server or leaves. -/
def Undisturbed (s : Server) : Input → Prop
  | .tick sys => sys.sent = true ∧ sys.elapsed = false ∧ sys.idleElapsed = false ∧
      selectsQuietly sys.select ∧ sys.accept ≠ .error ∧
      ∀ m, received s (.tick sys) = some m → m.tag = Tag.hello
  | _ => False

/-- The next `n` stretches, each with its own answers of the system calls. -/
def served (host : Host) (sys : Nat → Sys) (s : Server) : Nat → Server
  | 0 => s
  | n + 1 => tick host (sys n) (served host sys s n)

/-- `serv_pass` answers with `t`, behind output at most, whatever the system calls
return as long as the messages get through; behind a match the strings are those
given. -/
def Answers (host : Host) (s : Server) (t : Ttlv) (strings : List (Option Bytes)) : Prop :=
  ∀ sys : Nat → Sys, (∀ k, (sys k).sent = true) → ∃ n outs, n ≤ 4 ∧
    (∀ o ∈ outs, o.tag = Tag.output) ∧
    (served host sys s n).hist.sent = s.hist.sent ++ outs ++ [t] ∧
    (t.tag = Tag.matched → (served host sys s n).expout = strings)

/-- The server is there as long as it is not disturbed. -/
def Survives (host : Host) (s₁ : Server) : Prop :=
  ∀ s₂, Reaches (servStep host) Undisturbed s₁ s₂ →
    s₂.pc ≠ .exited ∧ s₂.pc ≠ .aborted ∧ s₂.pc ≠ .crashed

/-- It is there, and a client that then asks `m` is answered with `t`. -/
structure Repeats (host : Host) (s₁ : Server) (m t : Ttlv) : Prop where
  alive : Survives host s₁
  again : ∀ s₂ sys, Reaches (servStep host) Undisturbed s₁ s₂ →
    received s₂ (.tick sys) = some m → Answers host (tick host sys s₂) t s₁.expout

/-! ## What has to be left -/

/-- The pty is open and `-cloexit` does not close it. -/
def PtmStays (s : Server) : Prop :=
  s.ptmOpen = true ∧ ¬ (s.spawn.cloexit = true ∧ s.sigChlded = true)

/-- Without a client the loop goes on: the child was not waited for, and `-nowait`
does not end the server. -/
def StaysUp (s : Server) : Prop :=
  s.waited = false ∧ (s.spawn.autowait = true → s.sigChlded = true → PtmStays s)

/-- What the expect buffer holds behind a match that ends at `eo`, once trimmed. -/
def keptText (text : Bytes) (eo : Nat) : Bytes :=
  (text.drop eo).drop ((text.drop eo).length - maxOldData)

/-- What the match leaves matches again, with the same strings. -/
def MatchesAgain (host : Host) (s : Server) : Prop :=
  ∃ whole groups whole' groups',
    found host.regex s.conn.expflags (s.conn.pattern.getD []) (cstring s.buf.expbuf) =
      some (whole, groups) ∧
    found host.regex s.conn.expflags (s.conn.pattern.getD [])
      (keptText (cstring s.buf.expbuf) whole.2) = some (whole', groups') ∧
    stored s.conn.expflags (s.conn.pattern.getD []) (keptText (cstring s.buf.expbuf) whole.2)
        (List.replicate expectOutNum none) whole' groups' =
      stored s.conn.expflags (s.conn.pattern.getD []) (cstring s.buf.expbuf) s.expout whole groups ∧
    (keptText (cstring s.buf.expbuf) whole.2 = [] → PtmStays s)

/-- A lookback into this buffer finds a start. -/
def LooksBackSafely (n : Int) (b : Buffers) : Prop :=
  0 < n → ¬ ((retained b).count newline < lookbackLines n.toNat b ∧ ¬ Overflows n.toNat b ∧ Blocked b)

/-- What the state before the reply has to be like. -/
structure ReplyKept (host : Host) (s : Server) (m t : Ttlv) : Prop where
  reply : t.tag ≠ Tag.exited
  up : StaysUp s
  lookback : LooksBackSafely (lookbackOf m) (dropOldData s.buf)
  matched : t.tag = Tag.matched → MatchesAgain host s

/-! ## Undisturbed iterations -/

/-- Control is in the loop with no request to serve and no output to read. -/
def idling : Pc → Bool
  | .head | .nowait | .zombie | .limits | .select | .pass | .drop => true
  | .accept fds | .readPtm fds | .nonblock fds | .recv fds => !fds.ptm
  | _ => false

/-- The state `s` of an undisturbed run from `s₁`. -/
structure Idle (s₁ s : Server) : Prop where
  spawn : s.spawn = s₁.spawn
  flag : s.sigChlded = s₁.sigChlded
  waited : s.waited = s₁.waited
  passing : s.conn.passing = false
  fresh : s.conn.sock = true → s.conn = { sock := true }
  buf : s.buf = dropOldData s₁.buf ∨ s.pc = .drop ∧ s.buf = s₁.buf
  closed : s.ptmOpen = true → s₁.ptmOpen = true
  stays : PtmStays s₁ → s.ptmOpen = true
  place : idling s.pc = true

/-- Old data is dropped once. -/
theorem dropOldData_idem (b : Buffers) : dropOldData (dropOldData b) = dropOldData b := by
  obtain ⟨-, -, -, hraw, -, hexp⟩ := dropOldData_counts b
  apply dropOldData_of_trimmed
  · rw [hraw]
    exact Nat.min_le_right _ _
  · rw [hexp]
    exact Nat.min_le_right _ _

/-- A step that keeps buffers, pty and connection. -/
theorem Idle.onward {s₁ s s' : Server} (h : Idle s₁ s) (hplace : idling s'.pc = true)
    (hdrop : s.pc ≠ .drop) (hspawn : s'.spawn = s.spawn) (hflag : s'.sigChlded = s.sigChlded)
    (hwaited : s'.waited = s.waited) (hconn : s'.conn = s.conn) (hbuf : s'.buf = s.buf)
    (hptm : s'.ptmOpen = s.ptmOpen) : Idle s₁ s' := by
  have hkept : s.buf = dropOldData s₁.buf := h.buf.resolve_right fun hb => hdrop hb.1
  refine ⟨?_, ?_, ?_, ?_, ?_, ?_, ?_, ?_, hplace⟩
  · rw [hspawn, h.spawn]
  · rw [hflag, h.flag]
  · rw [hwaited, h.waited]
  · rw [hconn]
    exact h.passing
  · rw [hconn]
    exact h.fresh
  · rw [hbuf]
    exact .inl hkept
  · rw [hptm]
    exact h.closed
  · rw [hptm]
    exact h.stays

theorem Idle.head {s₁ s : Server} (h : Idle s₁ s) (hup : StaysUp s₁) (hpc : s.pc = .head) :
    Idle s₁ (loopHead s) := by
  have hstay : ¬ (s.waited = true ∧ ¬ s.conn.sock = true) := by
    rw [h.waited, hup.1]
    simp
  rw [loopHead, if_neg hstay]
  split
  · rename_i hcloexit
    refine ⟨h.spawn, h.flag, h.waited, h.passing, h.fresh, ?_, fun _ => h.closed hcloexit.2.2, ?_, rfl⟩
    · exact .inl (h.buf.resolve_right fun hb => by rw [hpc] at hb; cases hb.1)
    · intro hstays
      refine absurd ⟨?_, ?_⟩ hstays.2
      · rw [← h.spawn]
        exact hcloexit.1
      · rw [← h.flag]
        exact hcloexit.2.1
  · exact h.onward rfl (by rw [hpc]; decide) rfl rfl rfl rfl rfl rfl

/-- Without a connection `-nowait` could end the loop; the clocks do not. -/
theorem Idle.nowait {s₁ s : Server} (h : Idle s₁ s) (hup : StaysUp s₁) :
    loopNowait s = { s with pc := .zombie } := by
  apply if_neg
  rintro ⟨hauto, hdead, hclosed, -⟩
  rw [h.spawn] at hauto
  rw [h.flag] at hdead
  exact hclosed (h.stays (hup.2 hauto hdead))

theorem Idle.nonblock {s₁ s : Server} (h : Idle s₁ s) (hnew : s₁.buf.newcnt = 0) (fds : ReadFds)
    (hpc : s.pc = .nonblock fds) : loopNonblock fds s = { s with pc := .recv fds } := by
  have hkept : s.buf = dropOldData s₁.buf := h.buf.resolve_right fun hb => by rw [hpc] at hb; cases hb.1
  obtain ⟨-, -, -, hraw, hcnt, -⟩ := dropOldData_counts s₁.buf
  apply if_neg
  rintro ⟨-, -, hfull, -⟩
  rw [hkept, hraw, hcnt, hnew, sizeRawBuf_eq, maxOldData_eq] at hfull
  omega

/-- A greeting, or a client that leaves. -/
theorem Idle.recv {s₁ s : Server} (h : Idle s₁ s) (host : Host) (sys : Sys) (fds : ReadFds)
    (hpc : s.pc = .recv fds) (hhello : ∀ m, received s (.tick sys) = some m → m.tag = Tag.hello) :
    Idle s₁ (loopRecv host sys fds s) := by
  have hdrop : s.pc ≠ .drop := by rw [hpc]; exact fun hc => by cases hc
  have hidle : Idle s₁ { s with pc := .pass } := h.onward rfl hdrop rfl rfl rfl rfl rfl rfl
  have hgone : ∀ hist, Idle s₁ { s with
      pc := .pass, conn := { s.conn with sock := false }, hist := hist } := by
    intro hist
    refine ⟨h.spawn, h.flag, h.waited, h.passing, ?_, ?_, h.closed, h.stays, rfl⟩
    · intro hsock
      cases hsock
    exact hidle.buf.imp id fun hb => by cases hb.1
  unfold loopRecv
  simp only
  split
  · rename_i hready
    unfold servProcessMsg
    split
    · exact hgone s.hist
    · rename_i m hmsg
      have hrec : received s (.tick sys) = some m := by
        simp only [received, hpc, if_pos hready, hmsg]
      have htag := hhello m hrec
      rw [dispatch, if_pos htag, servHello, if_neg (by simp [hready.1])]
      simp only
      split
      · exact hgone s.hist
      · split
        · have hsend := servMsgSend_frame sys.sent
            (servNewError ErrorCode.proto (versionMismatch (ttlvFindChild m Tag.version).vText))
            { s with pc := .pass }
          obtain ⟨sock, hist, heq, -, -⟩ := hsend
          rw [heq]
          exact hgone hist
        · unfold msgOut
          split
          · exact hidle.onward rfl (by simp) rfl rfl rfl rfl rfl rfl
          · exact hgone s.hist
  · exact hidle

theorem Idle.step {s₁ s : Server} (h : Idle s₁ s) (host : Host) (i : Input) (hup : StaysUp s₁)
    (hnew : s₁.buf.newcnt = 0) (hok : Undisturbed s i) : Idle s₁ (servStep host i s) := by
  cases i with
  | child e => exact hok.elim
  | sigCHLD => exact hok.elim
  | tick sys =>
    obtain ⟨hsent, helapsed, hidle, hselect, haccept, hhello⟩ := hok
    have hplace := h.place
    simp only [servStep, tick]
    cases hpc : s.pc with
    | head => exact h.head hup hpc
    | nowait =>
      change Idle s₁ (loopNowait s)
      rw [h.nowait hup]
      exact h.onward rfl (by simp [hpc]) rfl rfl rfl rfl rfl rfl
    | zombie =>
      simp only [loopZombie, helapsed, Bool.false_eq_true, and_false, if_false]
      exact h.onward rfl (by simp [hpc]) rfl rfl rfl rfl rfl rfl
    | limits =>
      simp only [loopLimits, helapsed, hidle, Bool.false_eq_true, and_false, if_false]
      exact h.onward rfl (by simp [hpc]) rfl rfl rfl rfl rfl rfl
    | select =>
      change Idle s₁ (loopSelect sys s)
      unfold loopSelect
      cases hsel : sys.select with
      | eintr => exact h.onward rfl (by simp [hpc]) rfl rfl rfl rfl rfl rfl
      | error =>
        rw [hsel] at hselect
        exact hselect.elim
      | ready fds =>
        rw [hsel] at hselect
        refine h.onward ?_ (by simp [hpc]) rfl rfl rfl rfl rfl rfl
        simp only [idling, show fds.ptm = false from hselect, Bool.false_and, Bool.not_false]
    | accept fds =>
      rw [hpc] at hplace
      change Idle s₁ (loopAccept sys fds s)
      unfold loopAccept
      split
      · cases hacc : sys.accept with
        | eintr => exact h.onward rfl (by simp [hpc]) rfl rfl rfl rfl rfl rfl
        | error => exact absurd hacc haccept
        | conn =>
          have hkept : s.buf = dropOldData s₁.buf := h.buf.resolve_right fun hb => by simp [hpc] at hb
          simp only
          split <;> exact ⟨h.spawn, h.flag, h.waited, rfl, fun _ => rfl, .inl hkept, h.closed, h.stays,
            hplace⟩
      · exact h.onward hplace (by simp [hpc]) rfl rfl rfl rfl rfl rfl
    | readPtm fds =>
      rw [hpc] at hplace
      have hquiet : fds.ptm = false := by simpa [idling] using hplace
      simp only [loopReadPtm, hquiet, Bool.false_eq_true, and_false, if_false]
      exact h.onward hplace (by simp [hpc]) rfl rfl rfl rfl rfl rfl
    | nonblock fds =>
      rw [hpc] at hplace
      change Idle s₁ (loopNonblock fds s)
      rw [h.nonblock hnew fds hpc]
      exact h.onward hplace (by simp [hpc]) rfl rfl rfl rfl rfl rfl
    | recv fds => exact h.recv host sys fds hpc hhello
    | pass =>
      change Idle s₁ (servPassOutput sys s)
      rw [servPassOutput, if_pos (.inr (by simp [h.passing]))]
      exact h.onward rfl (by simp [hpc]) rfl rfl rfl rfl rfl rfl
    | drop =>
      refine ⟨h.spawn, h.flag, h.waited, h.passing, h.fresh, .inl ?_, h.closed, h.stays, rfl⟩
      rcases h.buf with hb | ⟨-, hb⟩
      · simp only [hb, dropOldData_idem]
      · simp only [hb]
    | waitPts | setNonblock | installHandler | copy | expect | ending | exited | aborted | crashed =>
      rw [hpc] at hplace
      cases hplace

end Sexpect.Guarantees
