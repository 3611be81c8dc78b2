import Sexpect.Guarantees.ChildFlag
import Sexpect.Guarantees.Clocks
import Sexpect.Guarantees.Rounds
import Sexpect.Guarantees.ShownOutput

/-!
# When the server leaves on its own

A server leaves its loop when the child was waited for, with `-nowait` when the child is gone, and
when one of its three limits is over; never while a client is connected.  The limits are counted
from what the clients and the child last did, as the run itself shows it.  What ends a server
besides is a system call that fails or a defect that ends the process (`leaves_for_reason`).  A
server that nobody comes to leaves within an iteration (`leaves_in_time`).
-/
namespace Sexpect.Guarantees
open Sexpect.Lib Sexpect.Source

/-- A system call failed whose failure ends the server. -/
inductive Fails (s : Server) (sys : Sys) : Prop
  | starting (hpc : s.pc = .waitPts ∨ s.pc = .setNonblock) (hcall : sys.ok = false)
  | select (hpc : s.pc = .select) (hcall : sys.select = .error)
  | accept (fds : ReadFds) (hpc : s.pc = .accept fds) (hcall : sys.accept = .error)

/-- The checks behind which `serv_loop` is left. -/
inductive Retires (s : Server) (sys : Sys) : Prop
  | waited (hpc : s.pc = .head) (h : s.waited = true)
  | nowait (hpc : s.pc = .nowait) (hon : s.spawn.autowait = true) (hflag : s.sigChlded = true)
      (hclosed : s.ptmOpen = false)
  | zombie (hpc : s.pc = .zombie) (hon : 0 ≤ s.spawn.zombieIdle) (hflag : s.sigChlded = true)
      (hclosed : s.ptmOpen = false) (hover : sys.elapsed = true)
  | ttl (hpc : s.pc = .limits) (hon : 0 < s.spawn.ttl) (hover : sys.elapsed = true)
  | idle (hpc : s.pc = .limits) (hon : 0 < s.spawn.idle) (hover : sys.idleElapsed = true)

/-- The assertion of `buf_raw2expect` (line 608) fails, or a pointer is followed that leads outside
its object. -/
inductive Breaks (s : Server) (sys : Sys) : Prop
  | assertion (hpc : s.pc = .copy ∨ ∃ m, received s (.tick sys) = some m ∧ m.tag = Tag.info)
      (hfull : bufRaw2expect s.buf = none)
  | request (m : Ttlv) (hm : received s (.tick sys) = some m) (htag : m.tag = Tag.pass)
      (hchild : ttlvFindChild m Tag.passSubcmd = .null ∨ ttlvFindChild m Tag.expFlags = .null)
  | winch (m : Ttlv) (hm : received s (.tick sys) = some m) (htag : m.tag = Tag.winch)
      (hchild : ttlvFindChild m Tag.winsizeRow = .null ∨ ttlvFindChild m Tag.winsizeCol = .null)
  | lookback (hpc : s.pc = .pass) (hstart : lookbackStart s.conn.lookback s.buf = none)

section

variable {host : Host} {s : Server}

theorem writePtm_pc (sys : Sys) (m : Ttlv) (s : Server) : (writePtm sys m s).pc = s.pc := by
  unfold writePtm
  split <;> rfl

theorem servHello_pc (sys : Sys) (m : Ttlv) (s : Server) : (servHello sys m s).pc = s.pc := by
  unfold servHello
  split
  · rfl
  · dsimp only
    split
    · rfl
    · split
      · exact servMsgSend_pc _ _ _
      · exact msgOut_pc _ _ _

theorem servDisconn_pc (sys : Sys) (s : Server) : (servDisconn sys s).pc = s.pc := by
  unfold servDisconn
  split
  · rfl
  · exact msgOut_pc _ _ _

theorem dispatch_breaks {sys : Sys} {m : Ttlv} (hm : received s (.tick sys) = some m)
    (h : (dispatch host sys m { s with pc := .pass }).pc ≠ .pass) : Breaks s sys := by
  revert h
  apply dispatch_cases (motive := fun s' => s'.pc ≠ .pass → Breaks s sys)
  case hello =>
    intro _ h
    rw [servHello_pc] at h
    exact absurd rfl h
  case disconn =>
    intro _ h
    rw [servDisconn_pc] at h
    exact absurd rfl h
  case send =>
    intro _ h
    rw [servMsgSend_pc, writePtm_pc] at h
    exact absurd rfl h
  case input =>
    intro _ h
    rw [writePtm_pc] at h
    exact absurd rfl h
  case pass =>
    intro htag h
    unfold processPass at h
    dsimp only at h
    split at h
    · rename_i hchild
      exact .request m hm htag hchild
    · exact absurd rfl h
  case winch =>
    intro htag h
    unfold processWinch at h
    split at h
    · rename_i hchild
      exact .winch m hm htag hchild.2
    · exact absurd rfl h
  case expout | close | kill | set =>
    intro _ h
    rw [servMsgSend_pc] at h
    exact absurd rfl h
  case abort => exact fun htag hfull _ => .assertion (.inr ⟨m, hm, htag⟩) hfull
  case info =>
    intro _ _ _ h
    rw [servMsgSend_pc] at h
    exact absurd rfl h
  case other => exact fun h => absurd rfl h

/-- A defect shows only while a client is connected. -/
theorem broken_cases {sys : Sys} (hf : Flow s) (hgoing : Pc.dead s.pc = false)
    (h : (tick host sys s).pc = .aborted ∨ (tick host sys s).pc = .crashed) :
    s.conn.sock = true ∧ Breaks s sys := by
  have hgoes := tick_goes host sys s
  cases hpc : s.pc with
  | recv fds =>
    have hmoved : (tick host sys s).pc ≠ .pass := by
      rcases h with h | h <;> simp [h]
    simp only [tick, hpc, loopRecv] at hmoved
    split at hmoved
    · rename_i hready
      unfold servProcessMsg at hmoved
      cases hmsg : sys.msg with
      | none =>
        rw [hmsg] at hmoved
        exact absurd rfl hmoved
      | some m =>
        rw [hmsg] at hmoved
        have hm : received s (.tick sys) = some m := by
          simp only [received, hpc, hready.1, hready.2, and_self, if_true, hmsg]
        exact ⟨hready.1, dispatch_breaks hm hmoved⟩
    · exact absurd rfl hmoved
  | pass =>
    have hserved : ¬ (¬ s.conn.sock ∨ ¬ s.conn.passing) := by
      intro hno
      simp only [tick, hpc, servPassOutput, if_pos hno] at h
      rcases h with h | h <;> cases h
    have hsock : s.conn.sock = true := by
      by_contra hno
      exact hserved (.inl hno)
    refine ⟨hsock, .lookback hpc ?_⟩
    cases hstart : lookbackStart s.conn.lookback s.buf with
    | none => rfl
    | some psend =>
      exfalso
      have hsend : ∀ psend s', ¬ ((sendOutput sys psend s').pc = .aborted ∨
          (sendOutput sys psend s').pc = .crashed) := by
        intro psend s'
        unfold sendOutput
        dsimp only
        split
        · split <;> simp
        · simp
      simp only [tick, hpc, servPassOutput, if_neg hserved, hstart] at h
      split at h
      · exact hsend _ _ h
      · exact hsend _ _ h
  | copy =>
    refine ⟨(hf.passing (.inl hpc)).1, .assertion (.inl hpc) ?_⟩
    cases hfull : bufRaw2expect s.buf with
    | none => rfl
    | some buf =>
      exfalso
      simp only [tick, hpc, servPassCopy, hfull] at h
      split at h
      · rcases h with h | h <;> cases h
      · split at h <;> rcases h with h | h <;> cases h
  | exited | aborted | crashed =>
    rw [hpc] at hgoing
    cases hgoing
  | waitPts | setNonblock | installHandler | head | nowait | zombie | limits | select | accept | readPtm
  | nonblock | expect | ending | drop =>
    rw [hpc] at hgoes
    rcases h with h | h <;> rw [h] at hgoes <;> simp [Pc.goes] at hgoes

/-- How the server comes to its end. -/
theorem exited_cases {sys : Sys} (hgoing : s.pc ≠ .exited) (h : (tick host sys s).pc = .exited) :
    Fails s sys ∨ s.conn.sock = false ∧ Retires s sys := by
  have hgoes := tick_goes host sys s
  rw [h] at hgoes
  unfold tick at h
  cases hpc : s.pc with
  | waitPts | setNonblock =>
    simp only [hpc] at h
    cases hok : sys.ok with
    | true =>
      rw [hok] at h
      cases h
    | false => exact .inl (.starting (by simp [hpc]) hok)
  | head =>
    simp only [hpc, loopHead] at h
    split at h
    · rename_i hdone
      exact .inr ⟨by simpa using hdone.2, .waited hpc hdone.1⟩
    · split at h <;> cases h
  | nowait =>
    simp only [hpc, loopNowait] at h
    split at h
    · rename_i hdone
      exact .inr ⟨by simpa using hdone.2.2.2,
        .nowait hpc hdone.1 hdone.2.1 (by simpa using hdone.2.2.1)⟩
    · cases h
  | zombie =>
    simp only [hpc, loopZombie] at h
    split at h
    · rename_i hdone
      exact .inr ⟨by simpa using hdone.2.2.2.1,
        .zombie hpc hdone.1 hdone.2.1 (by simpa using hdone.2.2.1) hdone.2.2.2.2⟩
    · cases h
  | limits =>
    simp only [hpc, loopLimits] at h
    split at h
    · rename_i hdone
      exact .inr ⟨by simpa using hdone.2.1, .ttl hpc hdone.1 hdone.2.2⟩
    · split at h
      · rename_i hdone
        exact .inr ⟨by simpa using hdone.2.1, .idle hpc hdone.1 hdone.2.2⟩
      · cases h
  | select =>
    simp only [hpc, loopSelect] at h
    cases hsel : sys.select with
    | error => exact .inl (.select hpc hsel)
    | eintr | ready =>
      rw [hsel] at h
      cases h
  | accept fds =>
    simp only [hpc, loopAccept] at h
    split at h
    · cases hacc : sys.accept with
      | error => exact .inl (.accept fds hpc hacc)
      | eintr | conn =>
        rw [hacc] at h
        cases h
    · cases h
  | exited => exact absurd hpc hgoing
  | installHandler | readPtm | nonblock | drop =>
    rw [hpc] at hgoes
    cases hgoes
  | recv | pass | copy =>
    rw [hpc] at hgoes
    obtain hne | hne | hne := hgoes <;> cases hne
  | expect | ending =>
    rw [hpc] at hgoes
    obtain hne | hne := hgoes <;> cases hne
  | aborted | crashed =>
    rw [hpc] at hgoes
    cases hgoes

end

/-! ## Never early -/

/-- The clocked server with the states it has gone through and the steps they led to. -/
def recordedStep (host : Host) (i : ClockedInput) (r : Clocked × List (Clocked × ClockedInput)) :
    Clocked × List (Clocked × ClockedInput) :=
  (clockedStep host i r.1, r.2 ++ [(r.1, i)])

/-- More than `limit` seconds before `now`. -/
def LongAgo (limit : Int) (t now : Nat) : Prop := limit * 10 ^ 9 < now - t + clockSlack now

/-- `serv_hello` turns the client away in this step. -/
def turnedAway (c : Clocked) : ClockedInput → Bool
  | .input (.tick sys) => c.server.turnsAway sys
  | _ => false

/-- How long a client that is connected before a step is counted as there: to the end of the step,
but one that `serv_hello` turns away only until its message begins to arrive. -/
def countedUntil (host : Host) (d : Clocked × ClockedInput) : Nat :=
  if turnedAway d.1 d.2 then d.1.now else (clockedStep host d.2 d.1).now

/-- Why a server without a client leaves, in terms of what it has gone through. -/
inductive Reason (host : Host) (c₀ c : Clocked) (past : List (Clocked × ClockedInput)) : Prop
  | waited (h : c.server.waited = true)
  | nowait (hon : c.server.spawn.autowait = true) (hflag : c.server.sigChlded = true)
      (hclosed : c.server.ptmOpen = false)
  | zombie (hon : 0 ≤ c.server.spawn.zombieIdle) (hflag : c.server.sigChlded = true)
      (hclosed : c.server.ptmOpen = false)
      (hactive : ∀ d ∈ past, d.1.server.conn.sock = true →
        LongAgo c.server.spawn.zombieIdle (countedUntil host d) c.now)
      (halive : ∀ d ∈ past, d.1.server.sigChlded = false →
        LongAgo c.server.spawn.zombieIdle d.1.now c.now)
  | ttl (hon : 0 < c.server.spawn.ttl) (hlong : LongAgo c.server.spawn.ttl c₀.now c.now)
  | idle (hon : 0 < c.server.spawn.idle)
      (hbegun : LongAgo c.server.spawn.idle c₀.lastactive c.now)
      (hactive : ∀ d ∈ past, d.1.server.conn.sock = true →
        LongAgo c.server.spawn.idle (countedUntil host d) c.now)

/-- What the readings of the clock say about the past: the last connection ended before
`lastactive`, and the last moment without a signal of the child lies before `exittime`. -/
structure Recalls (host : Host) (c₀ c : Clocked) (past : List (Clocked × ClockedInput)) : Prop where
  before : ∀ d ∈ past, (clockedStep host d.2 d.1).now ≤ c.now
  startime : c.startime = c₀.now
  begun : c₀.lastactive ≤ c.lastactive
  active : ∀ d ∈ past, d.1.server.conn.sock = true →
    c.server.conn.sock = true ∨ countedUntil host d ≤ c.lastactive
  alive : ∀ d ∈ past, d.1.server.sigChlded = false → c.server.sigChlded = true →
    d.1.now ≤ c.exittime

section

variable {host : Host} {c₀ c : Clocked} {past : List (Clocked × ClockedInput)} {i : ClockedInput}

theorem now_step : c.now ≤ (clockedStep host i c).now := by
  cases i with
  | wait ns => exact Nat.le_add_right _ _
  | input j =>
    cases j with
    | tick sys => exact Nat.le_add_right _ _
    | child e => exact le_rfl
    | sigCHLD => exact le_rfl

theorem countedUntil_le (host : Host) (d : Clocked × ClockedInput) :
    countedUntil host d ≤ (clockedStep host d.2 d.1).now := by
  unfold countedUntil
  split
  · exact now_step
  · exact le_rfl

theorem startime_step : (clockedStep host i c).startime = c.startime := by
  cases i with
  | wait ns => rfl
  | input j => cases j <;> rfl

theorem lastactive_step (hr : Readings c) : c.lastactive ≤ (clockedStep host i c).lastactive := by
  cases i with
  | wait ns => exact le_rfl
  | input j =>
    cases j with
    | tick sys =>
      have hle := hr.lastactive
      simp only [clockedStep, Clocked.tick]
      split
      · omega
      · split <;> omega
    | child e => exact le_rfl
    | sigCHLD => exact le_rfl

theorem turnsAway_receives {s : Server} {sys : Sys} (h : s.turnsAway sys = true) :
    s.receives = true := by
  unfold Server.turnsAway at h
  split at h
  · simp only [Bool.and_eq_true] at h
    exact h.1.1
  · cases h

/-- Whenever a connection ends, `lastactive` is behind all that is counted of it. -/
theorem lastactive_closed (hopen : c.server.conn.sock = true)
    (hclosed : (clockedStep host i c).server.conn.sock = false) :
    c.now ≤ (clockedStep host i c).lastactive ∧
      countedUntil host (c, i) ≤ (clockedStep host i c).lastactive := by
  cases i with
  | wait ns =>
    rw [clockedStep, hopen] at hclosed
    cases hclosed
  | input j =>
    cases j with
    | tick sys =>
      simp only [countedUntil, turnedAway, clockedStep, Clocked.tick] at hclosed ⊢
      cases haway : c.server.turnsAway sys with
      | true =>
        simp only [not_true, and_false, if_false, turnsAway_receives haway, if_true, le_refl,
          and_self]
      | false =>
        rw [if_pos ⟨hopen, by simp [hclosed], by simp⟩]
        simp
    | child e =>
      obtain ⟨child, pending, hchild⟩ := childChange_frame e c.server
      simp only [clockedStep, hchild, hopen] at hclosed
      cases hclosed
    | sigCHLD =>
      obtain ⟨pending, flag, hsig⟩ := servSigCHLD_frame c.server
      simp only [clockedStep, hsig, hopen] at hclosed
      cases hclosed

theorem tick_flag (host : Host) (sys : Sys) (s : Server) :
    (tick host sys s).sigChlded = s.sigChlded := by
  by_cases hpc : s.pc = .installHandler
  · simp only [tick, hpc]
  · have hsame := signals_tick host sys s hpc
    simp only [Server.signals, Prod.mk.injEq] at hsame
    exact hsame.2.2.2

/-- The flag is set and `exittime` read by the handler alone. -/
theorem exittime_step (hr : Readings c) : c.exittime ≤ (clockedStep host i c).exittime ∧
    (c.server.sigChlded = false → (clockedStep host i c).server.sigChlded = true →
      (clockedStep host i c).exittime = c.now) := by
  cases i with
  | wait ns => exact ⟨le_rfl, fun hno hyes => by rw [clockedStep, hno] at hyes; cases hyes⟩
  | input j =>
    cases j with
    | tick sys =>
      refine ⟨le_rfl, fun hno hyes => ?_⟩
      simp only [clockedStep, Clocked.tick, tick_flag, hno] at hyes
      cases hyes
    | child e =>
      obtain ⟨child, pending, hchild⟩ := childChange_frame e c.server
      refine ⟨le_rfl, fun hno hyes => ?_⟩
      simp only [clockedStep, hchild, hno] at hyes
      cases hyes
    | sigCHLD =>
      simp only [clockedStep]
      split
      · exact ⟨hr.exittime, fun _ _ => rfl⟩
      · rename_i hpending
        have hsame : servSigCHLD c.server = c.server := by rw [servSigCHLD, if_neg hpending]
        refine ⟨le_rfl, fun hno hyes => ?_⟩
        rw [hsame, hno] at hyes
        cases hyes

theorem Recalls.step (h : Recalls host c₀ c past) (hr : Readings c) :
    Recalls host c₀ (clockedStep host i c) (past ++ [(c, i)]) := by
  have hbefore : ∀ d ∈ past ++ [(c, i)], (clockedStep host d.2 d.1).now ≤ (clockedStep host i c).now := by
    intro d hd
    rcases List.mem_append.mp hd with hd | hd
    · exact (h.before d hd).trans now_step
    · rw [List.mem_singleton.mp hd]
  obtain ⟨hexit, hraised⟩ : c.exittime ≤ (clockedStep host i c).exittime ∧ _ := exittime_step hr
  constructor
  · exact hbefore
  · exact startime_step.trans h.startime
  · exact h.begun.trans (lastactive_step hr)
  · intro d hd hsock
    cases hafter : (clockedStep host i c).server.conn.sock with
    | true => exact .inl rfl
    | false =>
      right
      rcases List.mem_append.mp hd with hd | hd
      · cases hopen : c.server.conn.sock with
        | true =>
          exact ((countedUntil_le host d).trans (h.before d hd)).trans
            (lastactive_closed hopen hafter).1
        | false =>
          rcases h.active d hd hsock with hno | hle
          · rw [hopen] at hno
            cases hno
          · exact hle.trans (lastactive_step hr)
      · obtain rfl := List.mem_singleton.mp hd
        exact (lastactive_closed hsock hafter).2
  · intro d hd hno hyes
    have hnow : d.1.now ≤ c.now := by
      rcases List.mem_append.mp hd with hd | hd
      · exact now_step.trans (h.before d hd)
      · rw [List.mem_singleton.mp hd]
    cases hflag : c.server.sigChlded with
    | false =>
      rw [hraised hflag hyes]
      exact hnow
    | true =>
      rcases List.mem_append.mp hd with hd | hd
      · exact (h.alive d hd hno hflag).trans hexit
      · rw [List.mem_singleton.mp hd, hflag] at hno
        cases hno

theorem LongAgo.mono {limit : Int} {t t' now : Nat} (h : LongAgo limit t now) (hle : t' ≤ t) :
    LongAgo limit t' now := by
  unfold LongAgo at h ⊢
  omega

theorem reaches_recalls (h₀ : Spawned c₀) {r : Clocked × List (Clocked × ClockedInput)}
    (h : Reaches (recordedStep host) (fun _ _ => True) (c₀, []) r) :
    Reaches (clockedStep host) (fun _ _ => True) c₀ r.1 ∧ Recalls host c₀ r.1 r.2 := by
  induction h with
  | start =>
    have hnone : ∀ d : Clocked × ClockedInput, d ∉ [] := fun d => List.not_mem_nil
    exact ⟨.start, fun d hd => absurd hd (hnone d), h₀.startime, le_rfl,
      fun d hd => absurd hd (hnone d), fun d hd => absurd hd (hnone d)⟩
  | next i _ _ ih =>
    obtain ⟨hreach, hrecalls⟩ := ih
    dsimp only [recordedStep]
    exact ⟨hreach.next i trivial, hrecalls.step (reaches_readings h₀ hreach)⟩

/-- The checks of `serv_loop`, with what the past says about their limits. -/
theorem Retires.reason {sys : Sys} (h : Retires c.server (c.sys sys)) (hr : Readings c)
    (hrecalls : Recalls host c₀ c past) (hsock : c.server.conn.sock = false) :
    Reason host c₀ c past := by
  have hactive : ∀ d ∈ past, d.1.server.conn.sock = true → countedUntil host d ≤ c.lastactive := by
    intro d hd hopen
    rcases hrecalls.active d hd hopen with hno | hle
    · rw [hsock] at hno
      cases hno
    · exact hle
  cases h with
  | waited hpc hdone => exact .waited hdone
  | nowait hpc hon hflag hclosed => exact .nowait hon hflag hclosed
  | zombie hpc hon hflag hclosed hover =>
    simp only [Clocked.sys, hpc, reduceCtorEq, if_false, if_true, decide_eq_true_eq] at hover
    have hlast : LongAgo _ _ _ := elapsed_of_exceeds hr.lastactive hover.1
    have hexit : LongAgo _ _ _ := elapsed_of_exceeds hr.exittime hover.2
    exact .zombie hon hflag hclosed (fun d hd hopen => hlast.mono (hactive d hd hopen))
      fun d hd hno => hexit.mono (hrecalls.alive d hd hno hflag)
  | ttl hpc hon hover =>
    simp only [Clocked.sys, hpc, reduceCtorEq, if_false, decide_eq_true_eq] at hover
    have hlong : LongAgo _ _ _ := elapsed_of_exceeds hr.startime hover
    rw [hrecalls.startime] at hlong
    exact .ttl hon hlong
  | idle hpc hon hover =>
    simp only [Clocked.sys, decide_eq_true_eq] at hover
    have hlong : LongAgo _ _ _ := elapsed_of_exceeds hr.lastactive hover
    exact .idle hon (hlong.mono hrecalls.begun) fun d hd hopen => hlong.mono (hactive d hd hopen)

/-- `select` has found a client. -/
def Pc.visited : Pc → Bool
  | .accept fds => fds.listen
  | _ => false

/-- No signal interrupts `select`, and no client comes. -/
def Alone (c : Clocked) : ClockedInput → Prop
  | .input (.tick sys) =>
    (c.server.pc = .select → sys.select ≠ .eintr) ∧ Pc.visited c.server.pc = false
  | _ => True

instance decidableAlone (c : Clocked) : (i : ClockedInput) → Decidable (Alone c i)
  | .input (.tick sys) => inferInstanceAs (Decidable
      ((c.server.pc = .select → sys.select ≠ .eintr) ∧ Pc.visited c.server.pc = false))
  | .input (.child _) => isTrue trivial
  | .input .sigCHLD => isTrue trivial
  | .wait _ => isTrue trivial

/-- At least `limit` seconds before `now`. -/
def Over (limit : Int) (t now : Nat) : Prop := limit * 10 ^ 9 + clockSlack now ≤ now - t

/-- The check at the place `goal` of the loop is met, and stays so. -/
inductive Due (c : Clocked) : Nat → Prop
  | waited (h : c.server.waited = true) : Due c 0
  | nowait (hon : c.server.spawn.autowait = true) (hflag : c.server.sigChlded = true)
      (hclosed : c.server.ptmOpen = false) : Due c 1
  | zombie (hon : 0 ≤ c.server.spawn.zombieIdle) (hflag : c.server.sigChlded = true)
      (hclosed : c.server.ptmOpen = false) (hdead : c.server.child = .terminated)
      (hhandled : c.server.pending = false)
      (hactive : Over c.server.spawn.zombieIdle c.lastactive c.now)
      (hexit : Over c.server.spawn.zombieIdle c.exittime c.now) : Due c 2
  | ttl (hon : 0 < c.server.spawn.ttl) (hover : Over c.server.spawn.ttl c.startime c.now) : Due c 3
  | idle (hon : 0 < c.server.spawn.idle) (hover : Over c.server.spawn.idle c.lastactive c.now) :
      Due c 3

theorem Due.place_le {goal : Nat} (h : Due c goal) : goal ≤ 3 := by
  cases h <;> decide

theorem Over.wait {limit : Int} {t now : Nat} (h : Over limit t now) (ns : Nat) :
    Over limit t (now + ns) := by
  unfold Over clockSlack at *
  push_cast
  omega

theorem place_checks {p : Pc} (hgoing : Pc.going p = true) :
    (Pc.place p = 0 → p = .head) ∧ (Pc.place p = 1 → p = .nowait) ∧
      (Pc.place p = 2 → p = .zombie) ∧ (Pc.place p = 3 → p = .limits) := by
  cases p <;> simp_all [Pc.place, Pc.going]

/-- At its place a check that is met ends the server. -/
theorem Due.leaves {goal : Nat} (h : Due c goal) (hr : Readings c)
    (hsock : c.server.conn.sock = false) (hgoing : Pc.going c.server.pc = true)
    (hplace : Pc.place c.server.pc = goal) (sys : Sys) :
    (clockedStep host (.input (.tick sys)) c).server.pc = .exited := by
  obtain ⟨hhead, hnowait, hzombie, hlimits⟩ := place_checks hgoing
  simp only [clockedStep, Clocked.tick]
  cases h with
  | waited hwaited => simp [tick, hhead hplace, loopHead, hwaited, hsock]
  | nowait hon hflag hclosed => simp [tick, hnowait hplace, loopNowait, hon, hflag, hclosed, hsock]
  | zombie hon hflag hclosed hdead hhandled hactive hexit =>
    have helapsed : (c.sys sys).elapsed = true := by
      simp only [Clocked.sys, hzombie hplace, reduceCtorEq, if_false, if_true, decide_eq_true_eq]
      exact ⟨exceeds_of_elapsed hr.lastactive hactive, exceeds_of_elapsed hr.exittime hexit⟩
    simp [tick, hzombie hplace, loopZombie, hon, hflag, hclosed, hsock, helapsed]
  | ttl hon hover =>
    have helapsed : (c.sys sys).elapsed = true := by
      simp only [Clocked.sys, hlimits hplace, reduceCtorEq, if_false, decide_eq_true_eq]
      exact exceeds_of_elapsed hr.startime hover
    simp [tick, hlimits hplace, loopLimits, hon, hsock, helapsed]
  | idle hon hover =>
    have helapsed : (c.sys sys).idleElapsed = true := by
      simp only [Clocked.sys, decide_eq_true_eq]
      exact exceeds_of_elapsed hr.lastactive hover
    have hexit : loopLimits (c.sys sys) c.server = { c.server with pc := .exited } := by
      unfold loopLimits
      split
      · rfl
      · rw [if_pos ⟨hon, by simp [hsock], helapsed⟩]
    simp only [tick, hlimits hplace, hexit]

/-- Only a message, output and the copy can go wrong. -/
theorem goes_wrong {p q : Pc} (h : Pc.goes p q) (hp : Pc.going p = true) :
    q = .exited ∨ Pc.going q = true ∨ (∃ fds, p = .recv fds) ∨ p = .pass ∨ p = .copy := by
  cases p with
  | recv fds => exact .inr (.inr (.inl ⟨fds, rfl⟩))
  | pass => exact .inr (.inr (.inr (.inl rfl)))
  | copy => exact .inr (.inr (.inr (.inr rfl)))
  | waitPts | setNonblock | head | nowait | zombie | limits =>
    obtain rfl | rfl := h
    · exact .inr (.inl rfl)
    · exact .inl rfl
  | select =>
    obtain rfl | rfl | ⟨fds, rfl⟩ := h
    · exact .inr (.inl rfl)
    · exact .inl rfl
    · exact .inr (.inl rfl)
  | accept fds =>
    obtain rfl | rfl | rfl := h
    · exact .inr (.inl rfl)
    · exact .inl rfl
    · exact .inr (.inl rfl)
  | expect | ending => obtain rfl | rfl := h <;> exact .inr (.inl rfl)
  | installHandler | readPtm | nonblock | drop =>
    obtain rfl := h
    exact .inr (.inl rfl)
  | exited | aborted | crashed => cases hp

/-- A server without a client that is left alone goes on without one. -/
theorem alone_tick {s : Server} {sys : Sys} (hf : Flow s) (hsock : s.conn.sock = false)
    (hgoing : Pc.going s.pc = true) (hacc : Pc.visited s.pc = false) :
    (tick host sys s).conn.sock = false ∧ (tick host sys s).spawn = s.spawn ∧
      ((tick host sys s).pc = .exited ∨ Pc.going (tick host sys s).pc = true) := by
  have htalks := servStep_talks host (.tick sys) s hf
  have hclosed : ¬ s.conn.sock = true := by simp [hsock]
  have hkept : (tick host sys s).conn.sock = false ∧ (tick host sys s).spawn = s.spawn := by
    rw [servStep] at htalks
    generalize tick host sys s = s' at htalks ⊢
    cases htalks with
    | quiet hq =>
      obtain ⟨lookback, hconn, -⟩ := hq.conn
      rw [hconn]
      exact ⟨hsock, hq.spawn⟩
    | old fds => exact ⟨hsock, rfl⟩
    | accepted fds hpc hready =>
      rw [hpc, Pc.visited, hready] at hacc
      cases hacc
    | received fds hpc hopen => exact absurd hopen hclosed
    | output psend hpc hopen => exact absurd hopen hclosed
    | replied t hpc hopen => exact absurd hopen hclosed
  refine ⟨hkept.1, hkept.2, ?_⟩
  rcases goes_wrong (tick_goes host sys s) hgoing with hexit | hon | ⟨fds, hpc⟩ | hpc | hpc
  · exact .inl hexit
  · exact .inr hon
  · right
    simp only [tick, hpc, loopRecv]
    rw [if_neg fun h => hclosed h.1]
    rfl
  · right
    simp only [tick, hpc]
    rw [servPassOutput_unserved sys fun hopen => absurd hopen hclosed]
    rfl
  · exact absurd (hf.passing (.inl hpc)).1 hclosed

/-- What a step keeps of a server that is left alone. -/
structure LeftAlone (c c' : Clocked) : Prop where
  sock : c'.server.conn.sock = false
  spawn : c'.server.spawn = c.server.spawn
  waited : c'.server.waited = c.server.waited
  flag : c.server.sigChlded = true → c'.server.sigChlded = true
  closed : c.server.ptmOpen = false → c'.server.ptmOpen = false
  dead : c.server.child = .terminated → c.server.pending = false →
    c'.server.child = .terminated ∧ c'.server.pending = false ∧ c'.exittime = c.exittime
  startime : c'.startime = c.startime
  lastactive : c'.lastactive = c.lastactive
  now : ∃ ns, c'.now = c.now + ns

theorem receives_connected {s : Server} (h : s.conn.sock = false) : s.receives = false := by
  by_contra hreceives
  obtain ⟨fds, -, hopen, -⟩ := (receives_iff s).mp (by simpa using hreceives)
  rw [h] at hopen
  cases hopen

theorem tick_leftAlone {sys : Sys} (hf : Flow c.server) (hsock : c.server.conn.sock = false)
    (hgoing : Pc.going c.server.pc = true) (hok : Alone c (.input (.tick sys))) :
    LeftAlone c (clockedStep host (.input (.tick sys)) c) := by
  obtain ⟨hclosed, hspawn, -⟩ : (tick host (c.sys sys) c.server).conn.sock = false ∧ _ ∧ _ :=
    alone_tick hf hsock hgoing hok.2
  have hend : c.server.pc ≠ .ending := by
    intro hpc
    rw [(hf.passing (.inr (.inr hpc))).1] at hsock
    cases hsock
  have hsignals : ∀ s : Server, (tick host (c.sys sys) s).child = s.child ∧
      (tick host (c.sys sys) s).pending = s.pending := by
    intro s
    by_cases hpc : s.pc = .installHandler
    · simp only [tick, hpc, and_self]
    · have hsame := signals_tick host (c.sys sys) s hpc
      simp only [Server.signals, Prod.mk.injEq] at hsame
      exact ⟨hsame.1, hsame.2.2.1⟩
  constructor
  · exact hclosed
  · exact hspawn
  · exact waited_tick host (c.sys sys) c.server hend
  · exact fun hflag => (tick_flag host (c.sys sys) c.server).trans hflag
  · exact fun hpty => (closed_stays host (.tick (c.sys sys)) hpty).1
  · exact fun hdead hpending => ⟨(hsignals c.server).1.trans hdead,
      (hsignals c.server).2.trans hpending, rfl⟩
  · rfl
  · simp [clockedStep, Clocked.tick, receives_connected hsock, hsock]
  · exact ⟨sys.took, rfl⟩

theorem alone_leftAlone (hf : Flow c.server) (hsock : c.server.conn.sock = false)
    (hgoing : Pc.going c.server.pc = true) (hok : Alone c i) :
    LeftAlone c (clockedStep host i c) := by
  cases i with
  | wait ns =>
    exact ⟨hsock, rfl, rfl, id, id, fun hdead hpending => ⟨hdead, hpending, rfl⟩, rfl, rfl, ns, rfl⟩
  | input j =>
    cases j with
    | tick sys => exact tick_leftAlone hf hsock hgoing hok
    | child e =>
      obtain ⟨child, pending, hchild⟩ := childChange_frame e c.server
      have hdead : c.server.child = .terminated → childChange e c.server = c.server := fun hdead => by
        simp only [childChange, hdead, after_terminated]
      simp only [clockedStep]
      constructor
      · rw [hchild]
        exact hsock
      · rw [hchild]
      · rw [hchild]
      · rw [hchild]
        exact id
      · rw [hchild]
        exact id
      · intro hterm hpending
        rw [hdead hterm]
        exact ⟨hterm, hpending, rfl⟩
      · rfl
      · rfl
      · exact ⟨0, rfl⟩
    | sigCHLD =>
      simp only [clockedStep, servSigCHLD]
      cases hpending : c.server.pending with
      | false =>
        simp only [Bool.false_eq_true, if_false]
        exact ⟨hsock, rfl, rfl, id, id, fun hdead _ => ⟨hdead, hpending, rfl⟩, rfl, rfl, 0, rfl⟩
      | true =>
        have hraised : ¬ c.server.pending = false := by simp [hpending]
        simp only [if_true]
        exact ⟨hsock, rfl, rfl, fun _ => rfl, id, fun _ hno => absurd hno hraised, rfl, rfl, 0, rfl⟩

theorem Due.stays {c' : Clocked} {goal : Nat} (h : Due c goal) (hkept : LeftAlone c c') :
    Due c' goal := by
  obtain ⟨ns, hnow⟩ := hkept.now
  cases h with
  | waited hwaited => exact .waited (hkept.waited.trans hwaited)
  | nowait hon hflag hclosed =>
    exact .nowait (by rw [hkept.spawn]; exact hon) (hkept.flag hflag) (hkept.closed hclosed)
  | zombie hon hflag hclosed hdead hhandled hactive hexit =>
    obtain ⟨hdead', hhandled', hexittime⟩ := hkept.dead hdead hhandled
    refine .zombie (by rw [hkept.spawn]; exact hon) (hkept.flag hflag) (hkept.closed hclosed) hdead'
      hhandled' ?_ ?_
    · rw [hkept.spawn, hkept.lastactive, hnow]
      exact hactive.wait ns
    · rw [hkept.spawn, hexittime, hnow]
      exact hexit.wait ns
  | ttl hon hover =>
    refine .ttl (by rw [hkept.spawn]; exact hon) ?_
    rw [hkept.spawn, hkept.startime, hnow]
    exact hover.wait ns
  | idle hon hover =>
    refine .idle (by rw [hkept.spawn]; exact hon) ?_
    rw [hkept.spawn, hkept.lastactive, hnow]
    exact hover.wait ns

/-- On the way to its place a server that is left alone comes nearer with every stretch. -/
theorem alone_nearer {s : Server} {sys : Sys} {goal : Nat} (hf : Flow s)
    (hsock : s.conn.sock = false) (hgoal : goal ≤ 3) (hplace : Pc.place s.pc ≠ goal)
    (hsel : s.pc = .select → sys.select ≠ .eintr)
    (hacc : Pc.visited s.pc = false)
    (hgoing : Pc.going (tick host sys s).pc = true) :
    distance goal (tick host sys s).pc < distance goal s.pc := by
  apply nearer_limits (tick_goes host sys s) hgoal hplace _ hgoing
  · intro hat hback
    have htick : tick host sys s = loopSelect sys s := by simp only [tick, hat]
    rw [htick, loopSelect] at hback
    cases hanswer : sys.select with
    | eintr => exact hsel hat hanswer
    | error | ready =>
      rw [hanswer] at hback
      cases hback
  · intro fds hat hback
    have htick : tick host sys s = loopAccept sys fds s := by simp only [tick, hat]
    rw [hat, Pc.visited] at hacc
    rw [htick, loopAccept, if_neg (by simp [hacc])] at hback
    cases hback
  · intro hpc
    rw [(hf.passing (.inr (.inr hpc))).1] at hsock
    cases hsock

theorem due_step {goal : Nat} (h₀ : Spawned c₀)
    (h : Reaches (clockedStep host) (fun _ _ => True) c₀ c) (hsock : c.server.conn.sock = false)
    (hgoing : Pc.going c.server.pc = true) (hdue : Due c goal) (hok : Alone c i) :
    (clockedStep host i c).server.pc = .exited ∨
      ((clockedStep host i c).server.conn.sock = false ∧
        Pc.going (clockedStep host i c).server.pc = true ∧ Due (clockedStep host i c) goal) ∧
        distance goal (clockedStep host i c).server.pc + (if isStretch i then 1 else 0) ≤
          distance goal c.server.pc := by
  obtain ⟨mark, hw⟩ := reaches_windows host h₀.server (reaches_server h)
  have hkept : LeftAlone c (clockedStep host i c) := alone_leftAlone hw.flow hsock hgoing hok
  have hdue' := hdue.stays hkept
  rcases stretch_or_aside host i c with ⟨sys, rfl⟩ | ⟨hno, hpc⟩
  · by_cases hplace : Pc.place c.server.pc = goal
    · exact .inl (hdue.leaves (reaches_readings h₀ h) hsock hgoing hplace sys)
    · obtain ⟨-, -, hexit | hon⟩ : (tick host (c.sys sys) c.server).conn.sock = false ∧ _ ∧ _ :=
        alone_tick hw.flow hsock hgoing hok.2
      · exact .inl hexit
      · exact .inr ⟨⟨hkept.sock, hon, hdue'⟩,
          alone_nearer hw.flow hsock hdue.place_le hplace hok.1 hok.2 hon⟩
  · rw [hpc, hno]
    exact .inr ⟨⟨hkept.sock, hgoing, hdue'⟩, le_rfl⟩

theorem exited_stays (hgone : c.server.pc = .exited) :
    (clockedStep host i c).server.pc = .exited := by
  rcases stretch_or_aside host i c with ⟨sys, rfl⟩ | ⟨-, hpc⟩
  · simp only [clockedStep, Clocked.tick, tick, hgone]
  · rw [hpc, hgone]

/-- A server without a client, one of whose checks is met, has left within an iteration unless a
client comes to it. -/
theorem leaves_in_time (host : Host) (c₀ c : Clocked) (goal : Nat) (h₀ : Spawned c₀)
    (h : Reaches (clockedStep host) (fun _ _ => True) c₀ c) (hsock : c.server.conn.sock = false)
    (hgoing : Pc.going c.server.pc = true) (hdue : Due c goal) (is : List ClockedInput)
    (hok : Admitted (clockedStep host) Alone is c) (hcount : 14 ≤ is.countP isStretch) :
    (runs (clockedStep host) is c).server.pc = .exited := by
  apply runs_descend
    (fun d => Reaches (clockedStep host) (fun _ _ => True) c₀ d ∧ d.server.conn.sock = false ∧
      Pc.going d.server.pc = true ∧ Due d goal)
    (fun d => d.server.pc = .exited) (fun d => distance goal d.server.pc) isStretch _ _ is c _ hok
  · exact fun d i hgone _ => exited_stays hgone
  · rintro d i ⟨hd, hsock', hgoing', hdue'⟩ hi
    rcases due_step h₀ hd hsock' hgoing' hdue' hi with hexit | ⟨hinv, hless⟩
    · exact .inl hexit
    · exact .inr ⟨⟨hd.next i trivial, hinv⟩, hless⟩
  · exact .inr ⟨⟨h, hsock, hgoing, hdue⟩, lt_of_lt_of_le (distance_lt goal _) hcount⟩

end

/-- A server with `-idle 10`, just forked. -/
def idleSpawned : Clocked :=
  { server := { freshServer with spawn := { idle := 10 } }, now := 0, lastactive := 0, startime := 0 }

theorem idleSpawned_spawned : Spawned idleSpawned :=
  ⟨⟨_, _, _, List.length_replicate, List.length_replicate, rfl⟩, rfl, le_rfl, rfl, rfl⟩

/-- A client connects in the third second and is killed, and eleven seconds later the server looks
at its limits. -/
def idleInputs : List ClockedInput :=
  (ticks 3 {}).map .input ++ [.wait 3000000000] ++ (ticks 11 connecting).map .input ++
    (ticks 11 readable).map .input ++ [.wait 11000000000] ++ (ticks 3 {}).map .input

def idleRun : Clocked × List (Clocked × ClockedInput) :=
  runs (recordedStep plainHost) idleInputs (idleSpawned, [])

theorem leaves_in_time_idle :
    (runs (clockedStep plainHost) ((ticks 14 {}).map .input) idleRun.1).server.pc = .exited := by
  have hreach : Reaches (clockedStep plainHost) (fun _ _ => True) idleSpawned idleRun.1 :=
    (reaches_recalls idleSpawned_spawned (Reaches.start.runs idleInputs (admitted_true _ _))).1
  have hidle : idleRun.1.server.spawn.idle = 10 := by decide +kernel
  have hactive : idleRun.1.lastactive = 3000000000 := by decide +kernel
  have hnow : idleRun.1.now = 14000000000 := by decide +kernel
  have hdue : Due idleRun.1 3 := by
    refine .idle (by rw [hidle]; decide) ?_
    rw [Over, hidle, hactive, hnow, clockSlack]
    norm_num
  exact leaves_in_time plainHost _ _ _ idleSpawned_spawned hreach (by decide +kernel) (by decide +kernel)
    hdue _ (by decide +kernel) (by decide)

end Sexpect.Guarantees
