import Sexpect.Guarantees.ChildFlag
import Sexpect.Guarantees.Clocks
import Sexpect.Guarantees.CommandAnswers
import Sexpect.Guarantees.Rounds

/-!
# When a request is out of time

The limit of a `PASS` request counts from the moment its client was accepted.  A request is told
that it timed out only behind its limit, and once the limit is over the next iteration ends it,
unless its pty is closed and it waits for the child to exit, where the limit is not looked at.
-/
namespace Sexpect.Guarantees
open Sexpect.Lib Sexpect.Source

/-- The reply of line 914. -/
def timedOut : Ttlv := servNewError ErrorCode.timeout (ascii "expect timed out")

/-- A request is being served. -/
structure Served (s : Server) : Prop where
  sock : s.conn.sock = true
  passing : s.conn.passing = true
  going : Pc.going s.pc = true

/-- No signal interrupts `select`, and no other request comes in. -/
def Unbroken (c : Clocked) : ClockedInput → Prop
  | .input (.tick sys) => (c.server.pc = .select → sys.select ≠ .eintr) ∧
      ∀ m, received c.server (.tick sys) = some m → m.tag ≠ Tag.pass
  | _ => True

/-- The limit of the request is over. -/
structure LimitOver (c : Clocked) : Prop where
  limited : 0 ≤ c.server.conn.timeout
  expired : c.server.conn.timeout = 0 ∨
    c.server.conn.timeout * 10 ^ 9 + clockSlack c.now ≤ c.now - c.passStartime

/-- The output has ended, and the request waits for the child to exit. -/
structure AwaitsExit (s : Server) : Prop where
  closed : s.ptmOpen = false
  eof : hasFlag s.conn.expflags passExpectEof = false
  exit : hasFlag s.conn.expflags passExpectExit = true

/-- The output has ended, and nothing is left to wait for. -/
structure OutputEnded (s : Server) : Prop where
  closed : s.ptmOpen = false
  final : ¬ AwaitsExit s ∨ s.waited = false ∧ s.sigChlded = true ∧ s.child = .terminated

section

variable {host : Host} {s : Server}

theorem goes_going {p q : Pc} (h : Pc.goes p q) (hq : Pc.going q = true) : Pc.going p = true := by
  cases p with
  | exited | aborted | crashed =>
    obtain rfl := h
    exact hq
  | _ => rfl

/-- A request that is served behind a step was served before it, with the same limit and flags:
only a `PASS` begins one. -/
theorem Served.before {i : Input} (hf : Flow s)
    (hno : ∀ m, received s i = some m → m.tag ≠ Tag.pass) (h : Served (servStep host i s)) :
    Served s ∧ (servStep host i s).conn.timeout = s.conn.timeout ∧
      (servStep host i s).conn.expflags = s.conn.expflags := by
  obtain ⟨hsock, hpass, hgoing⟩ := h
  have hbefore : Pc.going s.pc = true := by
    rcases tick_or_aside host i s with ⟨sys, rfl⟩ | ⟨hpc, -, -⟩
    · exact goes_going (tick_goes host sys s) hgoing
    · rwa [hpc] at hgoing
  have htalks := servStep_talks host i s hf
  generalize servStep host i s = s' at htalks hsock hpass ⊢
  cases htalks with
  | quiet hq =>
    obtain ⟨lookback, hconn, -⟩ := hq.conn
    rw [hconn] at hsock hpass ⊢
    exact ⟨⟨hsock, hpass, hbefore⟩, rfl, rfl⟩
  | old fds => exact ⟨⟨hsock, hpass, hbefore⟩, rfl, rfl⟩
  | accepted fds => cases hpass
  | received fds hpc hopen hready =>
    rename_i sys
    unfold servProcessMsg at hsock hpass ⊢
    cases hmsg : sys.msg with
    | none =>
      rw [hmsg] at hsock
      cases hsock
    | some m =>
      rw [hmsg] at hpass
      have hreceived : received s (.tick sys) = some m := by
        simp only [received, hpc, hopen, hready, and_self, if_true, hmsg]
      obtain ⟨sock, hconn⟩ := dispatch_conn host sys m { s with pc := .pass } (hno m hreceived)
      simp only [hconn] at hpass ⊢
      exact ⟨⟨hopen, hpass, hbefore⟩, trivial, trivial⟩
  | output psend hpc hopen hpassing hstart hpost hconn =>
    obtain ⟨lookback, hconn, -⟩ := hconn
    rw [hconn]
    exact ⟨⟨hopen, hpassing, hbefore⟩, rfl, rfl⟩
  | replied t hpc hopen hpassing hnew hreply hpost hafter hconn =>
    rw [hconn] at hpass
    cases hpass

theorem sendOutput_undropped {sys : Sys} {psend : Nat}
    (h : (sendOutput sys psend s).conn.sock = true) : (sendOutput sys psend s).pc = .copy := by
  unfold sendOutput at h ⊢
  dsimp only at h ⊢
  split
  · rename_i hsend
    rw [if_pos hsend] at h
    split
    · rfl
    · rename_i hclosed
      rw [if_neg hclosed] at h
      exact absurd h hclosed
  · rfl

/-- `serv_pass` leaves a request it goes on serving at its end only. -/
theorem Served.undropped {sys : Sys} (hpc : s.pc = .pass ∨ s.pc = .expect)
    (h : Served (tick host sys s)) : (tick host sys s).pc ≠ .drop := by
  obtain ⟨hsock, hpass, -⟩ := h
  rcases hpc with hpc | hpc
  · have htick : tick host sys s = servPassOutput sys s := by simp only [tick, hpc]
    rw [htick] at hsock hpass ⊢
    unfold servPassOutput at hsock hpass ⊢
    split
    · rename_i hnone
      rw [if_pos hnone] at hsock hpass
      exact absurd hnone (not_or.mpr ⟨not_not.mpr hsock, not_not.mpr hpass⟩)
    · rename_i hserved
      rw [if_neg hserved] at hsock
      split
      · rename_i hplain
        rw [if_pos hplain] at hsock
        rw [sendOutput_undropped hsock]
        decide
      · rename_i hlookback
        rw [if_neg hlookback] at hsock
        dsimp only at hsock ⊢
        split
        · simp
        · rename_i psend hstart
          rw [hstart] at hsock
          rw [sendOutput_undropped hsock]
          decide
  · have htick : tick host sys s = servPassExpect host sys s := by simp only [tick, hpc]
    rw [htick] at hpass ⊢
    unfold servPassExpect at hpass ⊢
    split
    · rename_i s' hmatch
      rw [hmatch] at hpass
      cases hpass
    · simp

theorem goes_drop {p : Pc} (h : Pc.goes p .drop) : p = .pass ∨ p = .expect ∨ p = .ending := by
  cases p <;> simp_all [Pc.goes]

/-- The way to the end of `serv_pass`. -/
theorem Served.nearer {sys : Sys} (hw : Watching s) (h : Served s)
    (hstart : Pc.starting s.pc = false) (hpc : s.pc ≠ .ending)
    (hsel : s.pc = .select → sys.select ≠ .eintr) (h' : Served (tick host sys s)) :
    distance 12 (tick host sys s).pc < distance 12 s.pc := by
  apply nearer_ending (tick_goes host sys s) hpc hstart h'.going
  · intro hat hback
    have htick : tick host sys s = loopSelect sys s := by simp only [tick, hat]
    rw [htick, loopSelect] at hback
    cases hanswer : sys.select with
    | eintr => exact hsel hat hanswer
    | error | ready =>
      rw [hanswer] at hback
      cases hback
  · intro fds hat hback
    have hlisten : ¬ fds.listen = true := fun hready => by
      have hsock := hw.listen fds hat hready
      rw [h.sock] at hsock
      cases hsock
    have htick : tick host sys s = loopAccept sys fds s := by simp only [tick, hat]
    rw [htick, loopAccept, if_neg hlisten] at hback
    cases hback
  · intro hdrop
    have hgoes := tick_goes host sys s
    rw [hdrop] at hgoes
    rcases goes_drop hgoes with hat | hat | hat
    · exact h'.undropped (.inl hat) hdrop
    · exact h'.undropped (.inr hat) hdrop
    · exact hpc hat

/-- The end of `serv_pass` ends a request whose output has ended. -/
theorem OutputEnded.decided {sys : Sys} (hf : Flow s) (hpc : s.pc = .ending) (h : OutputEnded s) :
    ¬ Served (tick host sys s) := by
  intro hserved
  have hpass := hserved.passing
  obtain ⟨-, -, hnew⟩ := hf.passing (.inr (.inr hpc))
  have htick : tick host sys s = servPassEnd sys s := by simp only [tick, hpc]
  rw [htick, servPassEnd, if_pos ⟨by simp [h.closed], hnew⟩] at hpass
  split at hpass
  · cases hpass
  · rename_i heof
    split at hpass
    · rename_i hexit
      have hawaits : AwaitsExit s := ⟨h.closed, by simpa using heof, hexit⟩
      obtain hno | ⟨hwaited, hflag, hdead⟩ := h.final
      · exact hno hawaits
      · rw [if_pos ⟨by simp [hwaited], hflag⟩, if_neg (by simp [hdead])] at hpass
        cases hpass
    · cases hpass

/-- It ends a request that is out of time. -/
theorem timedOut_decided {sys : Sys} (hf : Flow s) (hpc : s.pc = .ending)
    (htime : expTimedOut sys s.conn.timeout = true) (hno : ¬ AwaitsExit s) :
    ¬ Served (tick host sys s) := by
  cases hopen : s.ptmOpen with
  | false => exact OutputEnded.decided hf hpc ⟨hopen, .inl hno⟩
  | true =>
    intro hserved
    have hpass := hserved.passing
    have htick : tick host sys s = servPassEnd sys s := by simp only [tick, hpc]
    rw [htick, servPassEnd, if_neg (by simp [hopen]), if_pos htime] at hpass
    cases hpass

/-- A request that waits for the exit of the child goes on doing so. -/
theorem AwaitsExit.stays {i : Input} (h : AwaitsExit s)
    (hflags : (servStep host i s).conn.expflags = s.conn.expflags) :
    AwaitsExit (servStep host i s) := by
  refine ⟨(closed_stays host i h.closed).1, ?_, ?_⟩
  · rw [hflags]
    exact h.eof
  · rw [hflags]
    exact h.exit

/-- A dead child whose signal was handled stays that. -/
theorem dead_stays (host : Host) (i : Input) (hflag : s.sigChlded = true)
    (hdead : s.child = .terminated) :
    (servStep host i s).sigChlded = true ∧ (servStep host i s).child = .terminated := by
  cases i with
  | tick sys =>
    by_cases hpc : s.pc = .installHandler
    · simp only [servStep, tick, hpc]
      exact ⟨hflag, hdead⟩
    · have hsame := signals_tick host sys s hpc
      simp only [Server.signals, Prod.mk.injEq] at hsame
      obtain ⟨hchild, -, -, hflag'⟩ := hsame
      simp only [servStep, hchild, hflag', hflag, hdead, and_self]
  | child e =>
    simp only [servStep, childChange, hdead, after_terminated, hflag, and_self]
  | sigCHLD =>
    simp only [servStep, servSigCHLD]
    split
    · exact ⟨rfl, hdead⟩
    · exact ⟨hflag, hdead⟩

theorem waited_aside (i : Input) (hpc : ∀ sys, i = .tick sys → s.pc ≠ .ending) :
    (servStep host i s).waited = s.waited := by
  rcases tick_or_aside host i s with ⟨sys, rfl⟩ | ⟨-, -, hwaited⟩
  · exact waited_tick host sys s (hpc sys rfl)
  · exact hwaited

/-- Output that has ended has ended for good. -/
theorem OutputEnded.stays {i : Input} (h : OutputEnded s)
    (hpc : ∀ sys, i = .tick sys → s.pc ≠ .ending)
    (hflags : (servStep host i s).conn.expflags = s.conn.expflags) :
    OutputEnded (servStep host i s) := by
  refine ⟨(closed_stays host i h.closed).1, ?_⟩
  rcases h.final with hno | ⟨hwaited, hflag, hdead⟩
  · left
    intro hawaits
    apply hno
    refine ⟨h.closed, ?_, ?_⟩
    · rw [← hflags]
      exact hawaits.eof
    · rw [← hflags]
      exact hawaits.exit
  · obtain ⟨hflag', hdead'⟩ := dead_stays host i hflag hdead
    exact .inr ⟨(waited_aside i hpc).trans hwaited, hflag', hdead'⟩

end

/-! ## With clocks -/

section

variable {host : Host} {c₀ c : Clocked} {i : ClockedInput}

theorem expTimedOut_iff (sys : Sys) (hpc : c.server.pc = .ending) :
    expTimedOut (c.sys sys) c.server.conn.timeout = true ↔ 0 ≤ c.server.conn.timeout ∧
      (c.server.conn.timeout = 0 ∨
        (c.server.conn.timeout : ℚ) < clockDiff c.passStartime c.now) := by
  unfold expTimedOut
  simp only [Clocked.sys, hpc, if_true]
  split
  · simp only [Bool.false_eq_true, false_iff]
    omega
  · split
    · simp only [true_iff]
      exact ⟨by omega, .inl (by assumption)⟩
    · rename_i hneg hzero
      simp only [decide_eq_true_eq, hzero, false_or]
      exact ⟨fun h => ⟨by omega, h⟩, fun h => h.2⟩

theorem LimitOver.timedOut (h : LimitOver c) (hr : Readings c) (sys : Sys)
    (hpc : c.server.pc = .ending) : expTimedOut (c.sys sys) c.server.conn.timeout = true := by
  rw [expTimedOut_iff sys hpc]
  refine ⟨h.limited, h.expired.imp_right fun hover => ?_⟩
  exact exceeds_of_elapsed hr.passStartime hover

theorem clockSlack_wait (now ns : Nat) : clockSlack (now + ns) ≤ clockSlack now + ns := by
  unfold clockSlack
  omega

/-- The limit stays over, while the request is served. -/
theorem LimitOver.stays (h : LimitOver c) (hw : Watching c.server) (hs : Served c.server)
    (htimeout : (clockedStep host i c).server.conn.timeout = c.server.conn.timeout) :
    LimitOver (clockedStep host i c) := by
  refine ⟨by rw [htimeout]; exact h.limited, ?_⟩
  rw [htimeout]
  refine h.expired.imp_right fun hover => ?_
  cases i with
  | wait ns =>
    have hslack := clockSlack_wait c.now ns
    simp only [clockedStep]
    push_cast
    omega
  | input i =>
    cases i with
    | tick sys =>
      have hno : c.server.accepts sys = false := by
        by_contra haccepts
        obtain ⟨fds, hpc, hready, -⟩ := (accepts_iff c.server sys).mp (by simpa using haccepts)
        have hsock := hw.listen fds hpc hready
        rw [hs.sock] at hsock
        cases hsock
      have hslack := clockSlack_wait c.now sys.took
      simp only [clockedStep, Clocked.tick, hno, Bool.false_eq_true, if_false]
      push_cast
      omega
    | child e => exact hover
    | sigCHLD => exact hover

/-- A step of the clocked server and the request that is served behind it. -/
theorem Served.clocked (hf : Flow c.server) (hok : Unbroken c i)
    (h : Served (clockedStep host i c).server) :
    Served c.server ∧ (clockedStep host i c).server.conn.timeout = c.server.conn.timeout ∧
      (clockedStep host i c).server.conn.expflags = c.server.conn.expflags := by
  cases i with
  | wait ns => exact ⟨h, rfl, rfl⟩
  | input i =>
    rw [clockedStep_server] at h ⊢
    apply Served.before hf _ h
    intro m hm
    cases i with
    | tick sys => exact hok.2 m hm
    | child e => cases hm
    | sigCHLD => cases hm

/-- A stretch that does not end the request comes nearer to the end of `serv_pass`. -/
theorem Served.stretch (hs : Served c.server) (hw : Watching c.server)
    (hstart : Pc.starting c.server.pc = true → c.server.conn.sock = false) (hok : Unbroken c i)
    (hend : ∀ sys, i = .input (.tick sys) → c.server.pc ≠ .ending)
    (h : Served (clockedStep host i c).server) :
    distance 12 (clockedStep host i c).server.pc + (if isStretch i then 1 else 0) ≤
      distance 12 c.server.pc := by
  rcases stretch_or_aside host i c with ⟨sys, rfl⟩ | ⟨hno, hpc⟩
  · have hstarted : Pc.starting c.server.pc = false := by
      by_contra hno
      have hsock := hstart (by simpa using hno)
      rw [hs.sock] at hsock
      cases hsock
    exact Served.nearer hw hs hstarted (hend sys rfl) hok.1 h
  · rw [hpc, hno]
    exact le_rfl

/-- Nothing but a limit that ran out is answered with it. -/
theorem says_timedOut {j : Input} {s : Server} (h : Says host j s timedOut) :
    ∃ sys, j = .tick sys ∧ s.pc = .ending ∧ expTimedOut sys s.conn.timeout = true := by
  generalize ht : timedOut = t at h
  have htag : timedOut.tag = t.tag := congrArg Ttlv.tag ht
  have hcode : (ttlvFindChild timedOut Tag.errorCode).vInt = (ttlvFindChild t Tag.errorCode).vInt := by
    rw [ht]
  cases h with
  | reply t sys hi hv =>
    cases hv with
    | timeout hpc htime => exact ⟨sys, hi, hpc, htime⟩
    | closed => cases hcode
    | matched | eof | exited => cases htag
  | stored m hm hstored =>
    unfold expoutReply at htag hcode
    split at htag
    · split at htag <;> cases htag
    · rename_i hrange
      rw [if_neg hrange] at hcode
      cases hcode
  | mismatch => cases hcode
  | unkilled => cases hcode
  | hello | disconn | done | info | output => cases htag

/-- What a request that is out of time comes to. -/
def Resolved (c : Clocked) : Prop := ¬ Served c.server ∨ AwaitsExit c.server

theorem Resolved.stays (hf : Flow c.server) (hok : Unbroken c i) (h : Resolved c) :
    Resolved (clockedStep host i c) := by
  by_cases hserved : Served (clockedStep host i c).server
  · obtain ⟨hbefore, -, hflags⟩ := hserved.clocked hf hok
    rcases h with hno | hawaits
    · exact absurd hbefore hno
    · right
      cases i with
      | wait ns => exact hawaits
      | input i =>
        rw [clockedStep_server] at hflags ⊢
        exact hawaits.stays hflags
  · exact .inl hserved

/-- A request out of time, one step on. -/
theorem late_step (h₀ : Spawned c₀) (h : Reaches (clockedStep host) (fun _ _ => True) c₀ c)
    (hs : Served c.server) (hlate : LimitOver c) (hok : Unbroken c i) :
    Resolved (clockedStep host i c) ∨
      (Served (clockedStep host i c).server ∧ LimitOver (clockedStep host i c)) ∧
        distance 12 (clockedStep host i c).server.pc + (if isStretch i then 1 else 0) ≤
          distance 12 c.server.pc := by
  have hserver := reaches_server h
  obtain ⟨mark, hw⟩ := reaches_windows host h₀.server hserver
  have hwatch := reaches_watching host h₀.server hserver
  by_cases hserved : Served (clockedStep host i c).server
  · obtain ⟨-, htimeout, -⟩ := hserved.clocked hw.flow hok
    by_cases hend : ∃ sys, i = .input (.tick sys) ∧ c.server.pc = .ending
    · obtain ⟨sys, rfl, hpc⟩ := hend
      by_cases hawaits : AwaitsExit c.server
      · exact .inl (Resolved.stays hw.flow hok (.inr hawaits))
      · have htime := hlate.timedOut (reaches_readings h₀ h) sys hpc
        rw [clockedStep_server] at hserved
        exact absurd hserved (timedOut_decided hw.flow hpc htime hawaits)
    · refine .inr ⟨⟨hserved, hlate.stays hwatch hs htimeout⟩, ?_⟩
      exact hs.stretch hwatch (reaches_unstarted host h₀.server hserver) hok
        (fun sys hi hpc => hend ⟨sys, hi, hpc⟩) hserved
  · exact .inl (.inl hserved)

/-- A request whose output has ended, one step on. -/
theorem ended_step (h₀ : Spawned c₀) (h : Reaches (clockedStep host) (fun _ _ => True) c₀ c)
    (hs : Served c.server) (hended : OutputEnded c.server) (hok : Unbroken c i) :
    ¬ Served (clockedStep host i c).server ∨
      (Served (clockedStep host i c).server ∧ OutputEnded (clockedStep host i c).server) ∧
        distance 12 (clockedStep host i c).server.pc + (if isStretch i then 1 else 0) ≤
          distance 12 c.server.pc := by
  have hserver := reaches_server h
  obtain ⟨mark, hw⟩ := reaches_windows host h₀.server hserver
  have hwatch := reaches_watching host h₀.server hserver
  by_cases hserved : Served (clockedStep host i c).server
  · obtain ⟨-, -, hflags⟩ := hserved.clocked hw.flow hok
    have hend : ∀ sys, i = .input (.tick sys) → c.server.pc ≠ .ending := by
      rintro sys rfl hpc
      rw [clockedStep_server] at hserved
      exact hended.decided hw.flow hpc hserved
    refine .inr ⟨⟨hserved, ?_⟩, ?_⟩
    · cases i with
      | wait ns => exact hended
      | input i =>
        rw [clockedStep_server] at hflags ⊢
        apply hended.stays _ hflags
        intro sys hi
        cases i with
        | tick sys' => exact hend sys' rfl
        | child e => cases hi
        | sigCHLD => cases hi
    · exact hs.stretch hwatch (reaches_unstarted host h₀.server hserver) hok hend hserved
  · exact .inl hserved

theorem reaches_flow (h₀ : Spawned c₀) (h : Reaches (clockedStep host) (fun _ _ => True) c₀ c) :
    Flow c.server := by
  obtain ⟨mark, hw⟩ := reaches_windows host h₀.server (reaches_server h)
  exact hw.flow

theorem timedOut_behind (h₀ : Spawned c₀) (h : Reaches (clockedStep host) (fun _ _ => True) c₀ c)
    (j : Input) {new : List Ttlv}
    (hlog : (clockedStep host (.input j) c).server.hist.sent = c.server.hist.sent ++ new)
    (hmem : timedOut ∈ new) :
    Served c.server ∧ 0 ≤ c.server.conn.timeout ∧
      (c.server.conn.timeout = 0 ∨
        c.server.conn.timeout * 10 ^ 9 < c.now - c.passStartime + clockSlack c.now) := by
  have hf := reaches_flow h₀ h
  rw [clockedStep_server] at hlog
  obtain ⟨new', hnew, hsaid⟩ := servStep_adds host (serverInput c j) hf
  rw [hlog, List.append_cancel_left_eq] at hnew
  obtain ⟨sys, hj, hpc, htime⟩ := says_timedOut (hsaid _ (hnew ▸ hmem))
  obtain ⟨hsock, hpass, -⟩ := hf.passing (.inr (.inr hpc))
  cases j with
  | child e => cases hj
  | sigCHLD => cases hj
  | tick sys' =>
    cases hj
    obtain ⟨hlimited, hover⟩ := (expTimedOut_iff sys' hpc).mp htime
    refine ⟨⟨hsock, hpass, by rw [hpc]; rfl⟩, hlimited, hover.imp_right fun hexceeds => ?_⟩
    exact elapsed_of_exceeds (reaches_readings h₀ h).passStartime hexceeds

theorem late_resolved (h₀ : Spawned c₀) (h : Reaches (clockedStep host) (fun _ _ => True) c₀ c)
    (hlate : LimitOver c) (is : List ClockedInput) (hok : Admitted (clockedStep host) Unbroken is c)
    (hcount : 14 ≤ is.countP isStretch) : Resolved (runs (clockedStep host) is c) := by
  apply (runs_descend
    (fun d => Reaches (clockedStep host) (fun _ _ => True) c₀ d ∧ Served d.server ∧ LimitOver d)
    (fun d => Reaches (clockedStep host) (fun _ _ => True) c₀ d ∧ Resolved d)
    (fun d => distance 12 d.server.pc) isStretch _ _ is c _ hok).2
  · exact fun d i hd hi => ⟨hd.1.next i trivial, hd.2.stays (reaches_flow h₀ hd.1) hi⟩
  · rintro d i ⟨hd, hserved, hlate'⟩ hi
    rcases late_step h₀ hd hserved hlate' hi with hresolved | ⟨hinv, hless⟩
    · exact .inl ⟨hd.next i trivial, hresolved⟩
    · exact .inr ⟨⟨hd.next i trivial, hinv⟩, hless⟩
  · by_cases hserved : Served c.server
    · exact .inr ⟨⟨h, hserved, hlate⟩, lt_of_lt_of_le (distance_lt 12 _) hcount⟩
    · exact .inl ⟨h, .inl hserved⟩

theorem ended_over (h₀ : Spawned c₀) (h : Reaches (clockedStep host) (fun _ _ => True) c₀ c)
    (hended : OutputEnded c.server) (is : List ClockedInput)
    (hok : Admitted (clockedStep host) Unbroken is c) (hcount : 14 ≤ is.countP isStretch) :
    ¬ Served (runs (clockedStep host) is c).server := by
  apply (runs_descend
    (fun d => Reaches (clockedStep host) (fun _ _ => True) c₀ d ∧ Served d.server ∧
      OutputEnded d.server)
    (fun d => Reaches (clockedStep host) (fun _ _ => True) c₀ d ∧ ¬ Served d.server)
    (fun d => distance 12 d.server.pc) isStretch _ _ is c _ hok).2
  · exact fun d i hd hi =>
      ⟨hd.1.next i trivial, fun hserved => hd.2 (hserved.clocked (reaches_flow h₀ hd.1) hi).1⟩
  · rintro d i ⟨hd, hserved, hended'⟩ hi
    rcases ended_step h₀ hd hserved hended' hi with hover | ⟨hinv, hless⟩
    · exact .inl ⟨hd.next i trivial, hover⟩
    · exact .inr ⟨⟨hd.next i trivial, hinv⟩, hless⟩
  · by_cases hserved : Served c.server
    · exact .inr ⟨⟨h, hserved, hended⟩, lt_of_lt_of_le (distance_lt 12 _) hcount⟩
    · exact .inl ⟨h, hserved⟩

/-- A client is told that its request timed out only behind the limit, counted from the moment it
was accepted, and within an iteration of the moment when the limit is over the request has ended,
or the output has and the request waits for the child to exit.  Within an iteration behind the end
of the output, and of the child where that is waited for, it has ended whatever its limit. -/
theorem request_limit (host : Host) (c₀ c : Clocked) (h₀ : Spawned c₀)
    (h : Reaches (clockedStep host) (fun _ _ => True) c₀ c) :
    (∀ j new, (clockedStep host (.input j) c).server.hist.sent = c.server.hist.sent ++ new →
      timedOut ∈ new → Served c.server ∧ 0 ≤ c.server.conn.timeout ∧
        (c.server.conn.timeout = 0 ∨
          c.server.conn.timeout * 10 ^ 9 < c.now - c.passStartime + clockSlack c.now)) ∧
    ∀ is, Admitted (clockedStep host) Unbroken is c → 14 ≤ is.countP isStretch →
      (LimitOver c → Resolved (runs (clockedStep host) is c)) ∧
        (OutputEnded c.server → ¬ Served (runs (clockedStep host) is c).server) := by
  refine ⟨fun j new hlog hmem => timedOut_behind h₀ h j hlog hmem, fun is hok hcount => ⟨?_, ?_⟩⟩
  · exact fun hlate => late_resolved h₀ h hlate is hok hcount
  · exact fun hended => ended_over h₀ h hended is hok hcount

end

/-- `sexpect expect -timeout 5` on a server that has just started, six seconds later. -/
def lateServer : Clocked :=
  runs (clockedStep plainHost)
    ((ticks 3 {} ++ ticks 11 connecting ++ ticks 11 (asking (passRequest .expect
      { expflags := passExpectExact, hasTimeout := true, timeout := 5,
        pattern := some (ascii "$ ") }))).map .input ++ [.wait 6000000000])
    { server := freshServer, now := 0, lastactive := 0, startime := 0 }

/-- The clients and the child are silent. -/
theorem unbroken_silence (c : Clocked) : Unbroken c (.input (.tick {})) := by
  refine ⟨fun _ h => (by cases h), fun m hm => ?_⟩
  obtain ⟨sys, fds, hi, -, -, -, hmsg⟩ := received_eq_some hm
  cases hi
  cases hmsg

/-- Nothing more happens, and the next iteration ends the request. -/
theorem request_limit_late :
    Served lateServer.server ∧
      ¬ Served (runs (clockedStep plainHost) ((ticks 14 {}).map .input) lateServer).server := by
  have hserved : Served lateServer.server := by constructor <;> decide +kernel
  have htimeout : lateServer.server.conn.timeout = 5 := by decide +kernel
  have hnow : lateServer.now = 6000000000 := by decide +kernel
  have hstart : lateServer.passStartime = 0 := by decide +kernel
  have hlate : LimitOver lateServer := by
    refine ⟨by rw [htimeout]; decide, .inr ?_⟩
    rw [htimeout, hnow, hstart, clockSlack]
    norm_num
  have hspawned : Spawned { server := freshServer, now := 0, lastactive := 0, startime := 0 } :=
    ⟨freshServer_initial, rfl, le_rfl, rfl, rfl⟩
  have hreach : Reaches (clockedStep plainHost) (fun _ _ => True)
      { server := freshServer, now := 0, lastactive := 0, startime := 0 } lateServer :=
    Reaches.start.runs _ (admitted_true _ _)
  have hok : Admitted (clockedStep plainHost) Unbroken ((ticks 14 {}).map .input) lateServer := by
    apply Admitted.of_forall
    intro i hi
    obtain ⟨j, hj, rfl⟩ := List.mem_map.mp hi
    rw [List.eq_of_mem_replicate hj]
    exact unbroken_silence
  have hopen : (runs (clockedStep plainHost) ((ticks 14 {}).map .input) lateServer).server.ptmOpen =
      true := by decide +kernel
  refine ⟨hserved, ?_⟩
  rcases ((request_limit plainHost _ _ hspawned hreach).2 _ hok (by decide)).1 hlate with hover | hawaits
  · exact hover
  · have hclosed := hawaits.closed
    rw [hopen] at hclosed
    cases hclosed

end Sexpect.Guarantees
