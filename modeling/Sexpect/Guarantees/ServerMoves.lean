import Sexpect.Lib.Machine
import Sexpect.Guarantees.Windows
import Sexpect.Guarantees.Matching
import Sexpect.Source.Server

/-!
# What a step of the server does to its buffers

`Flow` are the facts that hold because of where control is: behind the output of
`serv_pass` the connection is open and nothing is unsent, at the call of
`serv_expect` the expect buffer is terminated and up to date, and between the end
of one iteration and the reads of the next both buffers are trimmed.  Under
`Flow` every step is one of the cases of `Moves` (`servStep_moves`), so that the
two windows hold in every reachable state (`reaches_windows`).
-/
namespace Sexpect.Guarantees
open Sexpect.Lib Sexpect.Source

/-! ## Frames -/

section Frames

variable (sent : Bool) (m : Ttlv) (s : Server)

/-- Sending touches the socket and the history and nothing else. -/
theorem servMsgSend_frame :
    ∃ sock hist, servMsgSend sent m s = { s with conn := { s.conn with sock := sock }, hist := hist } ∧
      hist.stream = s.hist.stream ∧ hist.typed = s.hist.typed := by
  unfold servMsgSend msgOut closeSock
  split
  · exact ⟨s.conn.sock, _, rfl, rfl, rfl⟩
  · split
    · exact ⟨s.conn.sock, _, rfl, rfl, rfl⟩
    · exact ⟨false, _, rfl, rfl, rfl⟩

@[simp] theorem servMsgSend_buf : (servMsgSend sent m s).buf = s.buf := by
  obtain ⟨_, _, h, -, -⟩ := servMsgSend_frame sent m s
  rw [h]

@[simp] theorem servMsgSend_stream : (servMsgSend sent m s).hist.stream = s.hist.stream := by
  obtain ⟨_, _, h, hs, -⟩ := servMsgSend_frame sent m s
  rw [h]
  exact hs

@[simp] theorem servMsgSend_pc : (servMsgSend sent m s).pc = s.pc := by
  obtain ⟨_, _, h, -, -⟩ := servMsgSend_frame sent m s
  rw [h]

@[simp] theorem servMsgSend_passing : (servMsgSend sent m s).conn.passing = s.conn.passing := by
  obtain ⟨_, _, h, -, -⟩ := servMsgSend_frame sent m s
  rw [h]

@[simp] theorem msgOut_buf : (msgOut sent m s).buf = s.buf := by
  unfold msgOut closeSock
  split <;> rfl

@[simp] theorem msgOut_stream : (msgOut sent m s).hist.stream = s.hist.stream := by
  unfold msgOut closeSock
  split <;> rfl

@[simp] theorem msgOut_pc : (msgOut sent m s).pc = s.pc := by
  unfold msgOut closeSock
  split <;> rfl

@[simp] theorem closeSock_buf : (closeSock s).buf = s.buf := rfl
@[simp] theorem closeSock_hist : (closeSock s).hist = s.hist := rfl
@[simp] theorem closeSock_pc : (closeSock s).pc = s.pc := rfl

@[simp] theorem stopPassing_buf : (stopPassing s).buf = s.buf := rfl
@[simp] theorem stopPassing_hist : (stopPassing s).hist = s.hist := rfl
@[simp] theorem stopPassing_pc : (stopPassing s).pc = .drop := rfl

end Frames

/-! ## Control -/

/-- Control is between the end of an iteration and the read of the next. -/
def early : Pc → Bool
  | .waitPts | .setNonblock | .installHandler | .head | .nowait | .zombie | .limits | .select => true
  | .accept _ | .readPtm _ => true
  | _ => false

/-- The labels whose stretches only decide where to go on. -/
def deciding : Pc → Bool
  | .waitPts | .setNonblock | .installHandler | .head | .nowait | .zombie | .limits | .select => true
  | _ => false

/-- Of the server they change the point of control, in front of the loop the handler, and
at its head what stands for the pty; they lead on towards the read, or out. -/
theorem tick_deciding (host : Host) (sys : Sys) (s : Server) (h : deciding s.pc = true) :
    ∃ pc handler ptmOpen cloexitCount,
      tick host sys s = { s with
        pc := pc, handler := handler, ptmOpen := ptmOpen, cloexitCount := cloexitCount } ∧
      (early pc = true ∨ pc = .exited) ∧
      (s.pc ≠ .head → ptmOpen = s.ptmOpen ∧ cloexitCount = s.cloexitCount) ∧
      (s.pc ≠ .installHandler → handler = s.handler) := by
  unfold tick
  cases hpc : s.pc with
  | waitPts | setNonblock =>
    refine ⟨_, _, _, _, rfl, ?_, fun _ => ⟨rfl, rfl⟩, fun _ => rfl⟩
    cases sys.ok
    · exact .inr rfl
    · exact .inl rfl
  | installHandler =>
    exact ⟨_, _, _, _, rfl, .inl rfl, fun _ => ⟨rfl, rfl⟩, fun hne => absurd rfl hne⟩
  | head =>
    simp only [loopHead]
    split
    · exact ⟨_, _, _, _, rfl, .inr rfl, fun _ => ⟨rfl, rfl⟩, fun _ => rfl⟩
    · split
      · exact ⟨_, _, _, _, rfl, .inl rfl, fun hne => absurd rfl hne, fun _ => rfl⟩
      · exact ⟨_, _, _, _, rfl, .inl rfl, fun _ => ⟨rfl, rfl⟩, fun _ => rfl⟩
  | nowait =>
    simp only [loopNowait]
    split
    · exact ⟨_, _, _, _, rfl, .inr rfl, fun _ => ⟨rfl, rfl⟩, fun _ => rfl⟩
    · exact ⟨_, _, _, _, rfl, .inl rfl, fun _ => ⟨rfl, rfl⟩, fun _ => rfl⟩
  | zombie =>
    simp only [loopZombie]
    split
    · exact ⟨_, _, _, _, rfl, .inr rfl, fun _ => ⟨rfl, rfl⟩, fun _ => rfl⟩
    · exact ⟨_, _, _, _, rfl, .inl rfl, fun _ => ⟨rfl, rfl⟩, fun _ => rfl⟩
  | limits =>
    simp only [loopLimits]
    split
    · exact ⟨_, _, _, _, rfl, .inr rfl, fun _ => ⟨rfl, rfl⟩, fun _ => rfl⟩
    · split
      · exact ⟨_, _, _, _, rfl, .inr rfl, fun _ => ⟨rfl, rfl⟩, fun _ => rfl⟩
      · exact ⟨_, _, _, _, rfl, .inl rfl, fun _ => ⟨rfl, rfl⟩, fun _ => rfl⟩
  | select =>
    simp only [loopSelect]
    split
    · exact ⟨_, _, _, _, rfl, .inl rfl, fun _ => ⟨rfl, rfl⟩, fun _ => rfl⟩
    · exact ⟨_, _, _, _, rfl, .inr rfl, fun _ => ⟨rfl, rfl⟩, fun _ => rfl⟩
    · exact ⟨_, _, _, _, rfl, .inl rfl, fun _ => ⟨rfl, rfl⟩, fun _ => rfl⟩
  | accept | readPtm | nonblock | recv | pass | copy | expect | ending | drop | exited | aborted
  | crashed =>
    rw [hpc] at h
    cases h

structure Flow (s : Server) : Prop where
  trimmed : early s.pc = true → s.buf.rawnew ≤ maxOldData ∧ s.buf.expcnt ≤ maxOldData
  passing : s.pc = .copy ∨ s.pc = .expect ∨ s.pc = .ending →
    s.conn.sock = true ∧ s.conn.passing = true ∧ s.buf.newcnt = 0
  ready : s.pc = .expect → s.conn.pattern.isSome = true ∧
    s.buf.expbuf[s.buf.expcnt]? = some 0 ∧ s.buf.expoffset = s.buf.ntotal

/-- The scan stops inside the range it was given. -/
theorem scanBack_lt (rawbuf : Bytes) (lookback : Int) (i newlines pc : Nat)
    (h : (scanBack rawbuf lookback i newlines).2 = some pc) : pc < i := by
  induction i generalizing newlines with
  | zero => simp [scanBack] at h
  | succ i ih =>
    simp only [scanBack] at h
    split at h
    · split at h
      · simp only [Option.some.injEq] at h
        omega
      · have := ih _ h
        omega
    · have := ih _ h
      omega

/-- Output never starts behind the first unsent octet. -/
theorem lookbackStart_le (lookback : Int) (b : Buffers) (psend : Nat)
    (h : lookbackStart lookback b = some psend) : psend ≤ b.rawnew := by
  unfold lookbackStart at h
  generalize (if b.ntotal > 0 ∧ b.rawbuf[b.rawnew + b.newcnt - 1]? = some newline then
    toInt32 (lookback + 1) else lookback) = lb at h
  rcases scanBack b.rawbuf lb (b.rawnew + b.newcnt) 0 with ⟨newlines, stop⟩
  simp only at h
  split at h
  · cases h
    omega
  · split at h
    · split at h
      · cases h
        omega
      · split at h
        · cases h
        · split at h <;> (cases h; omega)
    · split at h
      · cases h
        omega
      · split at h
        · cases h
          omega
        · split at h
          · rename_i hnl
            have hlt := scanBack_lt _ _ _ _ _ hnl
            cases h
            omega
          · split at h <;> (cases h; omega)

/-! ## Moves of the phases -/

/-- The mark behind a step: a pattern-less `interact` or `wait` and an EOF reply consume everything
read so far, a successful `serv_expect` consumes up to the octet at which the match in the text it
is shown ends (`found`). -/
def consumedMark (host : Host) (s : Server) (mark : Nat) : Input → Nat
  | .tick _ =>
    match s.pc with
    | .copy =>
      if s.conn.pattern = none ∧
          (s.conn.subcmd = passSubcmdInteract ∨ s.conn.subcmd = passSubcmdWait) then s.buf.ntotal
      else mark
    | .expect =>
      match found host.regex s.conn.expflags (s.conn.pattern.getD []) (cstring s.buf.expbuf) with
      | some (whole, _) =>
        if (servExpect host (s.conn.pattern.getD []) s).1 then
          max mark (matchEnd s.hist.stream s.buf.expcnt whole.2)
        else mark
      | none => mark
    | .ending =>
      if ¬ s.ptmOpen ∧ s.buf.newcnt = 0 ∧ hasFlag s.conn.expflags passExpectEof then s.buf.ntotal
      else mark
    | _ => mark
  | _ => mark

/-- A step from `s` to `s'` that moves the mark from `mark` to `mark'` and drops
nothing. -/
def Step (s : Server) (mark : Nat) (s' : Server) (mark' : Nat) : Prop :=
  Moves False s.hist.stream s.buf mark s'.hist.stream s'.buf mark'

theorem Step.same {s s' : Server} {mark : Nat} (hb : s'.buf = s.buf)
    (hs : s'.hist.stream = s.hist.stream) : Step s mark s' mark := by
  unfold Step
  rw [hb, hs]
  exact .same

theorem servReadPtm_moves (rs : List PtmRead) (s : Server) (mark : Nat) :
    Step s mark (servReadPtm rs s) mark := by
  induction rs with
  | nil => exact .same rfl rfl
  | cons r rs ih =>
    unfold servReadPtm
    simp only
    split
    · exact .same rfl rfl
    · rename_i hroom
      cases r with
      | data bs =>
        simp only
        split
        · exact .same rfl rfl
        · apply Moves.read
          rw [List.length_take]
          omega
      | eintr => exact ih
      | eof | eagain | error => exact .same rfl rfl

theorem servHello_moves (sys : Sys) (m : Ttlv) (s : Server) (mark : Nat) :
    Step s mark (servHello sys m s) mark := by
  unfold servHello
  split
  · exact .same rfl rfl
  · simp only
    split
    · exact .same rfl rfl
    · split <;> exact .same (by simp) (by simp)

/-- Case analysis over the `switch` of `serv_process_msg`. -/
theorem dispatch_cases {motive : Server → Prop} (host : Host) (sys : Sys) (m : Ttlv) (s : Server)
    (hello : m.tag = Tag.hello → motive (servHello sys m s))
    (disconn : m.tag = Tag.disconn → motive (servDisconn sys s))
    (send : m.tag = Tag.send → motive (servMsgSend sys.sent ack (writePtm sys m s)))
    (input : m.tag = Tag.input → motive (writePtm sys m s))
    (pass : m.tag = Tag.pass → motive (processPass m s))
    (expout : m.tag = Tag.expout →
      motive (servMsgSend sys.sent (expoutReply m.vInt s.expout) s))
    (winch : m.tag = Tag.winch → motive (processWinch m s))
    (close : m.tag = Tag.close → motive (servMsgSend sys.sent ack { s with ptmOpen := false }))
    (kill : m.tag = Tag.kill → motive (servMsgSend sys.sent (killReply sys) s))
    (set : m.tag = Tag.set →
      motive (servMsgSend sys.sent ack { s with spawn := processSet m s.spawn }))
    (abort : m.tag = Tag.info → bufRaw2expect s.buf = none → motive { s with pc := .aborted })
    (info : ∀ buf, m.tag = Tag.info → bufRaw2expect s.buf = some buf →
      motive (servMsgSend sys.sent (infoReply host { s with buf := buf }) { s with buf := buf }))
    (other : motive s) : motive (dispatch host sys m s) := by
  unfold dispatch
  by_cases h1 : m.tag = Tag.hello
  · rw [if_pos h1]
    exact hello h1
  rw [if_neg h1]
  by_cases h2 : m.tag = Tag.disconn
  · rw [if_pos h2]
    exact disconn h2
  rw [if_neg h2]
  by_cases h3 : m.tag = Tag.send
  · rw [if_pos h3]
    exact send h3
  rw [if_neg h3]
  by_cases h4 : m.tag = Tag.input
  · rw [if_pos h4]
    exact input h4
  rw [if_neg h4]
  by_cases h5 : m.tag = Tag.pass
  · rw [if_pos h5]
    exact pass h5
  rw [if_neg h5]
  by_cases h6 : m.tag = Tag.expout
  · rw [if_pos h6]
    exact expout h6
  rw [if_neg h6]
  by_cases h7 : m.tag = Tag.winch
  · rw [if_pos h7]
    exact winch h7
  rw [if_neg h7]
  by_cases h8 : m.tag = Tag.close
  · rw [if_pos h8]
    exact close h8
  rw [if_neg h8]
  by_cases h9 : m.tag = Tag.kill
  · rw [if_pos h9]
    exact kill h9
  rw [if_neg h9]
  by_cases h10 : m.tag = Tag.set
  · rw [if_pos h10]
    exact set h10
  rw [if_neg h10]
  by_cases h11 : m.tag = Tag.info
  · rw [if_pos h11]
    cases hcopy : bufRaw2expect s.buf with
    | none => exact abort h11 hcopy
    | some buf => exact info buf h11 hcopy
  · rw [if_neg h11]
    exact other

theorem dispatch_moves (host : Host) (sys : Sys) (m : Ttlv) (s : Server) (mark : Nat) :
    Step s mark (dispatch host sys m s) mark := by
  have hwrite : (writePtm sys m s).buf = s.buf ∧
      (writePtm sys m s).hist.stream = s.hist.stream := by
    unfold writePtm
    split <;> exact ⟨rfl, rfl⟩
  apply dispatch_cases (motive := fun s' => Step s mark s' mark)
  case hello => exact fun _ => servHello_moves sys m s mark
  case disconn =>
    intro _
    unfold servDisconn
    split
    · exact .same rfl rfl
    · exact .same (by simp) (by simp)
  case send => exact fun _ => .same (by simp [hwrite.1]) (by simp [hwrite.2])
  case input => exact fun _ => .same hwrite.1 hwrite.2
  case pass =>
    intro _
    unfold processPass
    simp only
    split <;> exact .same rfl rfl
  case winch =>
    intro _
    unfold processWinch
    split <;> exact .same rfl rfl
  case abort => exact fun _ _ => .same rfl rfl
  case info =>
    intro buf _ hcopy
    unfold Step
    simp only [servMsgSend_buf, servMsgSend_stream]
    exact .copied _ hcopy
  case other => exact .same rfl rfl
  all_goals exact fun _ => .same (by simp) (by simp)

theorem sendOutput_moves (sys : Sys) (psend : Nat) (s : Server) (mark : Nat) :
    Step s mark (sendOutput sys psend s) mark := by
  unfold sendOutput
  simp only
  split
  · split
    · unfold Step
      simp only [servMsgSend_buf, servMsgSend_stream]
      exact .sent
    · exact .same (by simp) (by simp)
  · exact .same rfl rfl

/-- A successful match keeps what is behind some offset into the string. -/
theorem servExpect_matched (host : Host) (pattern : Bytes) (s s' : Server)
    (h : servExpect host pattern s = (true, s')) :
    ∃ pos expout, pos ≤ (cstring s.buf.expbuf).length ∧
      s' = { s with buf := keepAfter pos s.buf, expout := expout } := by
  obtain ⟨-, whole, groups, hfound, rfl⟩ := (servExpect_eq_true_iff host pattern s s').mp h
  exact ⟨whole.2, _, (found_offsets hfound).bound, rfl⟩

/-- A failed match leaves everything but a bug report as it was. -/
theorem servExpect_failed (host : Host) (pattern : Bytes) (s s' : Server)
    (h : servExpect host pattern s = (false, s')) :
    ∃ bugs, s' = { s with hist := { s.hist with bugs := bugs } } := by
  unfold servExpect at h
  split at h
  · cases h
    exact ⟨_, rfl⟩
  split at h
  · split at h
    · cases h
    · cases h
      exact ⟨_, rfl⟩
  split at h
  · cases h
    exact ⟨_, rfl⟩
  split at h
  · split at h
    · cases h
    · cases h
      exact ⟨_, rfl⟩
  · cases h
    exact ⟨_, rfl⟩

/-- A failed match goes on to the end of file and the timeout. -/
theorem servPassExpect_missed {host : Host} (sys : Sys) {s : Server}
    (h : (servExpect host (s.conn.pattern.getD []) s).1 = false) :
    ∃ bugs, servPassExpect host sys s =
      { s with pc := .ending, hist := { s.hist with bugs := bugs } } := by
  unfold servPassExpect
  split
  · rename_i s' heq
    rw [heq] at h
    cases h
  · rename_i s' heq
    obtain ⟨bugs, rfl⟩ := servExpect_failed _ _ _ _ heq
    exact ⟨bugs, rfl⟩

theorem consumedMark_matched {host : Host} {s s' : Server} {sys : Sys} {whole : Nat × Nat}
    {groups : List (Option (Nat × Nat))} (mark : Nat) (hpc : s.pc = .expect)
    (hfound : found host.regex s.conn.expflags (s.conn.pattern.getD []) (cstring s.buf.expbuf) =
      some (whole, groups))
    (hexp : servExpect host (s.conn.pattern.getD []) s = (true, s')) :
    consumedMark host s mark (.tick sys) =
      max mark (matchEnd s.hist.stream s.buf.expcnt whole.2) := by
  simp only [consumedMark, hpc, hfound, hexp, if_true]

theorem consumedMark_missed {host : Host} {s : Server} {sys : Sys} (mark : Nat)
    (hpc : s.pc = .expect) (hexp : (servExpect host (s.conn.pattern.getD []) s).1 = false) :
    consumedMark host s mark (.tick sys) = mark := by
  simp only [consumedMark, hpc, hexp, Bool.false_eq_true, if_false]
  split <;> rfl

theorem servPassExpect_moves (host : Host) (sys : Sys) (s : Server) (mark : Nat) (hf : Flow s)
    (hpc : s.pc = .expect) :
    Step s mark (servPassExpect host sys s) (consumedMark host s mark (.tick sys)) := by
  obtain ⟨-, ht, hoff⟩ := hf.ready hpc
  unfold servPassExpect
  rcases hexp : servExpect host (s.conn.pattern.getD []) s with ⟨matched, s'⟩
  cases matched with
  | true =>
    obtain ⟨-, whole, groups, hfound, rfl⟩ := (servExpect_eq_true_iff host _ s s').mp hexp
    rw [consumedMark_matched mark hpc hfound hexp]
    unfold Step
    simp only [stopPassing_buf, stopPassing_hist, servMsgSend_buf, servMsgSend_stream]
    exact .matched whole.2 (found_offsets hfound).bound ht hoff
  | false =>
    obtain ⟨bugs, rfl⟩ := servExpect_failed _ _ _ _ hexp
    rw [consumedMark_missed mark hpc (by rw [hexp])]
    exact .same rfl rfl

theorem servPassEnd_moves (host : Host) (sys : Sys) (s : Server) (mark : Nat)
    (hpc : s.pc = .ending) :
    Step s mark (servPassEnd sys s) (consumedMark host s mark (.tick sys)) := by
  have hmark : consumedMark host s mark (.tick sys) =
      if ¬ s.ptmOpen ∧ s.buf.newcnt = 0 ∧ hasFlag s.conn.expflags passExpectEof then s.buf.ntotal
      else mark := by
    simp only [consumedMark, hpc]
  unfold servPassEnd
  split
  · rename_i hclosed
    split
    · rename_i heof
      rw [hmark, if_pos ⟨hclosed.1, hclosed.2, heof⟩]
      unfold Step
      simp only [stopPassing_buf, stopPassing_hist, servMsgSend_buf, servMsgSend_stream]
      exact .reset
    · rename_i heof
      have hkept : consumedMark host s mark (.tick sys) = mark := by
        rw [hmark, if_neg (fun h => heof h.2.2)]
      rw [hkept]
      split
      · split
        · split <;> exact .same (by simp) (by simp)
        · exact .same rfl rfl
      · exact .same (by simp) (by simp)
  · rename_i hopen
    have hkept : consumedMark host s mark (.tick sys) = mark := by
      rw [hmark, if_neg (fun h => hopen ⟨h.1, h.2.1⟩)]
    rw [hkept]
    split
    · exact .same (by simp) (by simp)
    · exact .same rfl rfl

theorem servPassCopy_moves (host : Host) (sys : Sys) (s : Server) (mark : Nat) (hf : Flow s)
    (hpc : s.pc = .copy) :
    Step s mark (servPassCopy s) (consumedMark host s mark (.tick sys)) := by
  obtain ⟨-, -, hnew⟩ := hf.passing (.inl hpc)
  unfold servPassCopy
  cases hp : s.conn.pattern with
  | some pattern =>
    simp only [consumedMark, hpc, hp, reduceCtorEq, false_and, if_false]
    split
    · exact .same rfl rfl
    · rename_i buf hcopy
      exact .copied _ hcopy
  | none =>
    simp only [consumedMark, hpc, hp, true_and]
    split
    · rw [hnew, Nat.sub_zero]
      exact .reset
    · exact .same rfl rfl

theorem servStep_step (host : Host) (i : Input) (s : Server) (mark : Nat) (hf : Flow s)
    (hdrop : s.pc ≠ .drop) : Step s mark (servStep host i s) (consumedMark host s mark i) := by
  cases i with
  | child e =>
    simp only [servStep, childChange]
    split <;> exact .same rfl rfl
  | sigCHLD =>
    simp only [servStep, servSigCHLD]
    split <;> exact .same rfl rfl
  | tick sys =>
    simp only [servStep]
    cases hpc : s.pc with
    | waitPts | setNonblock | installHandler | head | nowait | zombie | limits | select =>
      obtain ⟨pc, handler, ptmOpen, count, htick, -⟩ :=
        tick_deciding host sys s (by rw [hpc]; rfl)
      rw [htick]
      simp only [consumedMark, hpc]
      exact .same rfl rfl
    | copy =>
      simp only [tick, hpc]
      exact servPassCopy_moves host sys s mark hf hpc
    | expect =>
      simp only [tick, hpc]
      exact servPassExpect_moves host sys s mark hf hpc
    | ending =>
      simp only [tick, hpc]
      exact servPassEnd_moves host sys s mark hpc
    | readPtm fds =>
      simp only [consumedMark, tick, hpc, loopReadPtm]
      split
      · exact servReadPtm_moves sys.ptm s mark
      · exact .same rfl rfl
    | nonblock fds =>
      simp only [consumedMark, tick, hpc, loopNonblock]
      split
      · rename_i hfull
        exact .old hfull.2.2.1 hfull.2.2.2
      · exact .same rfl rfl
    | recv fds =>
      simp only [consumedMark, tick, hpc, loopRecv]
      split
      · unfold servProcessMsg
        split
        · exact .same rfl rfl
        · exact dispatch_moves host sys _ { s with pc := .pass } mark
      · exact .same rfl rfl
    | pass =>
      simp only [consumedMark, tick, hpc, servPassOutput]
      split
      · exact .same rfl rfl
      · split
        · exact sendOutput_moves sys _ s mark
        · split
          · exact .same rfl rfl
          · exact sendOutput_moves sys _ { s with pc := .pass, conn := { s.conn with lookback := 0 } }
              mark
    | drop => exact absurd hpc hdrop
    | accept fds =>
      simp only [consumedMark, tick, hpc, loopAccept]
      split
      · split
        · exact .same rfl rfl
        · exact .same rfl rfl
        · split <;> exact .same rfl rfl
      · exact .same rfl rfl
    | exited | aborted | crashed =>
      simp only [consumedMark, tick, hpc]
      exact .same rfl rfl

/-- Every step of the server is one move of its buffers, and old data are dropped
only at the end of an iteration. -/
theorem servStep_moves (host : Host) (i : Input) (s : Server) (mark : Nat) (hf : Flow s) :
    Moves (s.pc = .drop) s.hist.stream s.buf mark (servStep host i s).hist.stream
      (servStep host i s).buf (consumedMark host s mark i) := by
  by_cases hdrop : s.pc = .drop
  · cases i with
    | tick sys =>
      simp only [servStep, tick, consumedMark, hdrop]
      exact .dropped trivial
    | child e =>
      simp only [servStep, childChange, consumedMark]
      split <;> exact .same
    | sigCHLD =>
      simp only [servStep, servSigCHLD, consumedMark]
      split <;> exact .same
  · exact (servStep_step host i s mark hf hdrop).weaken False.elim

/-! ## Control along a run -/

/-- Nothing is claimed at the other points of control. -/
theorem Flow.elsewhere {s : Server} (h1 : early s.pc = false) (h2 : s.pc ≠ .copy)
    (h3 : s.pc ≠ .expect) (h4 : s.pc ≠ .ending) : Flow s := by
  refine ⟨fun h => ?_, fun h => ?_, fun h => absurd h h3⟩
  · rw [h1] at h
    cases h
  · rcases h with h | h | h
    · exact absurd h h2
    · exact absurd h h3
    · exact absurd h h4

/-- Between the labels of the loop head only control moves. -/
theorem Flow.onward {s s' : Server} (h : Flow s) (hs : early s.pc = true)
    (hs' : early s'.pc = true ∨ s'.pc = .exited) (hb : s'.buf = s.buf) : Flow s' := by
  rcases hs' with hearly | hexit
  · refine ⟨fun _ => ?_, fun hp => ?_, fun hp => ?_⟩
    · rw [hb]
      exact h.trimmed hs
    · rcases hp with hp | hp | hp <;> rw [hp] at hearly <;> cases hearly
    · rw [hp] at hearly
      cases hearly
  · apply Flow.elsewhere <;> simp [hexit, early]

/-- Behind the output, away from the call of `serv_expect`. -/
theorem Flow.behindOutput {s : Server} (hpc : s.pc = .copy ∨ s.pc = .ending)
    (hsock : s.conn.sock = true) (hpass : s.conn.passing = true) (hnew : s.buf.newcnt = 0) :
    Flow s := by
  refine ⟨fun h => ?_, fun _ => ⟨hsock, hpass, hnew⟩, fun h => ?_⟩
  · rcases hpc with hpc | hpc <;> rw [hpc] at h <;> cases h
  · rcases hpc with hpc | hpc <;> rw [hpc] at h <;> cases h

theorem Flow.unchanged {s s' : Server} (h : Flow s) (hpc : s'.pc = s.pc) (hb : s'.buf = s.buf)
    (hc : s'.conn = s.conn) : Flow s' := by
  refine ⟨?_, ?_, ?_⟩
  · rw [hpc, hb]
    exact h.trimmed
  · rw [hpc, hb, hc]
    exact h.passing
  · rw [hpc, hb, hc]
    exact h.ready

/-- Requests do not move control, unless they abort in `buf_raw2expect` or crash. -/
theorem dispatch_pc (host : Host) (sys : Sys) (m : Ttlv) (s : Server) :
    (dispatch host sys m s).pc = s.pc ∨
      (dispatch host sys m s).pc = .aborted ∧ bufRaw2expect s.buf = none ∨
      (dispatch host sys m s).pc = .crashed := by
  have hwrite : (writePtm sys m s).pc = s.pc := by
    unfold writePtm
    split <;> rfl
  apply dispatch_cases (motive := fun s' =>
    s'.pc = s.pc ∨ s'.pc = .aborted ∧ bufRaw2expect s.buf = none ∨ s'.pc = .crashed)
  case hello =>
    intro _
    unfold servHello
    split
    · exact .inl rfl
    · simp only
      split
      · exact .inl rfl
      · split <;> simp
  case disconn =>
    intro _
    unfold servDisconn
    split <;> simp
  case send => simp [hwrite]
  case input => exact fun _ => .inl hwrite
  case pass =>
    intro _
    unfold processPass
    simp only
    split <;> simp
  case winch =>
    intro _
    unfold processWinch
    split <;> simp
  case abort => exact fun _ hcopy => .inr (.inl ⟨rfl, hcopy⟩)
  all_goals simp

/-- Output that did not fail leaves nothing unsent. -/
theorem sendOutput_flow (sys : Sys) (psend : Nat) (s : Server) (hle : psend ≤ s.buf.rawnew)
    (hsock : s.conn.sock = true) (hpass : s.conn.passing = true) : Flow (sendOutput sys psend s) := by
  unfold sendOutput
  simp only
  split
  · split
    · rename_i hopen
      exact .behindOutput (.inl rfl) hopen (by simpa using hpass) rfl
    · apply Flow.elsewhere <;> simp [early]
  · rename_i hnone
    refine .behindOutput (.inl rfl) hsock hpass ?_
    simp only
    omega

/-- A connection that is served is there. -/
theorem served_connection {s : Server} (hgo : ¬ (¬ s.conn.sock = true ∨ ¬ s.conn.passing = true)) :
    s.conn.sock = true ∧ s.conn.passing = true := by
  rw [not_or, not_not, not_not] at hgo
  exact hgo

/-- Without a served connection `serv_pass` goes on to drop old data. -/
theorem servPassOutput_unserved (sys : Sys) {s : Server}
    (h : s.conn.sock = true → s.conn.passing = false) :
    servPassOutput sys s = { s with pc := .drop } := by
  unfold servPassOutput
  cases hs : s.conn.sock with
  | false => simp
  | true => simp [h hs]

theorem servPassOutput_flow (sys : Sys) (s : Server) : Flow (servPassOutput sys s) := by
  unfold servPassOutput
  split
  · apply Flow.elsewhere <;> simp [early]
  · rename_i hgo
    obtain ⟨hsock, hpass⟩ := served_connection hgo
    split
    · exact sendOutput_flow sys _ s le_rfl hsock hpass
    · simp only
      split
      · apply Flow.elsewhere <;> simp [early]
      · rename_i psend hstart
        exact sendOutput_flow sys psend _ (lookbackStart_le _ _ _ hstart) hsock hpass

/-- Behind the copy the expect buffer is terminated and up to date. -/
theorem servPassCopy_flow (s : Server) (mark : Nat) (hf : Flow s) (hpc : s.pc = .copy)
    (hraw : RawWindow s.hist.stream s.buf) (hexp : ExpectWindow s.hist.stream mark s.buf) :
    Flow (servPassCopy s) := by
  obtain ⟨hsock, hpass, hnew⟩ := hf.passing (.inl hpc)
  unfold servPassCopy
  split
  · rename_i pattern hp
    split
    · apply Flow.elsewhere <;> simp [early]
    · rename_i buf hcopy
      obtain ⟨hsame, hoff, -, -, -⟩ := bufRaw2expect_spec hraw hcopy
      refine ⟨fun h => ?_, fun _ => ⟨hsock, hpass, ?_⟩, fun _ => ⟨?_, ?_, ?_⟩⟩
      · cases h
      · rw [hsame.newcnt, hnew]
      · simp [hp]
      · exact bufRaw2expect_terminated hexp hraw hcopy
      · rw [hoff, hsame.ntotal]
  · split <;> exact .behindOutput (.inr rfl) hsock hpass hnew

theorem servPassEnd_flow (sys : Sys) (s : Server) (hf : Flow s) : Flow (servPassEnd sys s) := by
  unfold servPassEnd
  split
  · split
    · apply Flow.elsewhere <;> simp [early]
    · split
      · split
        · split
          · exact hf
          · apply Flow.elsewhere <;> simp [early]
        · apply Flow.elsewhere <;> simp [early]
      · apply Flow.elsewhere <;> simp [early]
  · split <;> apply Flow.elsewhere <;> simp [early]

/-- The end of an iteration trims both buffers. -/
theorem drop_flow (s : Server) : Flow { s with buf := dropOldData s.buf, pc := .head } := by
  obtain ⟨-, -, -, hr, -, he⟩ := dropOldData_counts s.buf
  refine ⟨fun _ => ⟨?_, ?_⟩, fun h => ?_, fun h => ?_⟩
  · simp only [hr]
    omega
  · simp only [he]
    omega
  · rcases h with h | h | h <;> cases h
  · cases h

theorem servStep_flow (host : Host) (i : Input) (s : Server) (mark : Nat) (hf : Flow s)
    (hraw : RawWindow s.hist.stream s.buf) (hexp : ExpectWindow s.hist.stream mark s.buf) :
    Flow (servStep host i s) := by
  cases i with
  | child e =>
    simp only [servStep, childChange]
    split
    · exact hf
    · exact hf.unchanged rfl rfl rfl
  | sigCHLD =>
    simp only [servStep, servSigCHLD]
    split
    · exact hf.unchanged rfl rfl rfl
    · exact hf
  | tick sys =>
    simp only [servStep]
    cases hpc : s.pc with
    | waitPts | setNonblock | installHandler | head | nowait | zombie | limits | select =>
      obtain ⟨pc, handler, ptmOpen, count, htick, hnext, -⟩ :=
        tick_deciding host sys s (by rw [hpc]; rfl)
      rw [htick]
      exact hf.onward (by rw [hpc]; rfl) hnext rfl
    | accept fds =>
      simp only [tick, hpc, loopAccept]
      split
      · split
        · exact hf.onward (by rw [hpc]; rfl) (.inl rfl) rfl
        · exact hf.onward (by rw [hpc]; rfl) (.inr rfl) rfl
        · split <;> exact hf.onward (by rw [hpc]; rfl) (.inl rfl) rfl
      · exact hf.onward (by rw [hpc]; rfl) (.inl rfl) rfl
    | readPtm fds =>
      simp only [tick, hpc]
      apply Flow.elsewhere <;> simp [loopReadPtm, early]
    | nonblock fds =>
      simp only [tick, hpc, loopNonblock]
      split <;> apply Flow.elsewhere <;> simp [early]
    | recv fds =>
      simp only [tick, hpc, loopRecv]
      split
      · unfold servProcessMsg
        split
        · apply Flow.elsewhere <;> simp [early]
        · rename_i m _
          have h := dispatch_pc host sys m { s with pc := .pass }
          rcases h with h | ⟨h, -⟩ | h <;> apply Flow.elsewhere <;> simp [h, early]
      · apply Flow.elsewhere <;> simp [early]
    | pass =>
      simp only [tick, hpc]
      exact servPassOutput_flow sys s
    | copy =>
      simp only [tick, hpc]
      exact servPassCopy_flow s mark hf hpc hraw hexp
    | expect =>
      obtain ⟨hsock, hpass, hnew⟩ := hf.passing (.inr (.inl hpc))
      simp only [tick, hpc, servPassExpect]
      split
      · apply Flow.elsewhere <;> simp [early]
      · rename_i s' hmiss
        obtain ⟨bugs, rfl⟩ := servExpect_failed _ _ _ _ hmiss
        exact .behindOutput (.inr rfl) hsock hpass hnew
    | ending =>
      simp only [tick, hpc]
      exact servPassEnd_flow sys s hf
    | drop =>
      simp only [tick, hpc]
      exact drop_flow s
    | exited | aborted | crashed =>
      simp only [tick, hpc]
      exact hf

/-! ## Reachable states -/

/-- The state at the fork: both buffers allocated, anything in them. -/
def Initial (s : Server) : Prop :=
  ∃ spawn rawbuf expbuf, rawbuf.length = sizeRawBuf + 1 ∧ expbuf.length = sizeRawBuf + 1 ∧
    s = servInit spawn rawbuf expbuf

/-- The server paired with the consumed mark. -/
def markedStep (host : Host) (i : Input) (sm : Server × Nat) : Server × Nat :=
  (servStep host i sm.1, consumedMark host sm.1 sm.2 i)

/-- Both windows and the facts of control. -/
structure Windows (s : Server) (mark : Nat) : Prop where
  raw : RawWindow s.hist.stream s.buf
  exp : ExpectWindow s.hist.stream mark s.buf
  flow : Flow s

theorem Initial.windows {s : Server} (h : Initial s) : Windows s 0 := by
  obtain ⟨spawn, rawbuf, expbuf, hr, he, rfl⟩ := h
  refine ⟨⟨hr, Nat.zero_le _, rfl, rfl, rfl, le_rfl, fun h => absurd h (lt_irrefl 0)⟩,
    ⟨he, Nat.zero_le _, 0, le_rfl, le_rfl, Nat.zero_le _, rfl⟩, ?_⟩
  refine ⟨fun _ => ⟨Nat.zero_le _, Nat.zero_le _⟩, fun h => ?_, fun h => ?_⟩
  · rcases h with h | h | h <;> cases h
  · cases h

theorem Windows.step {s : Server} {mark : Nat} (h : Windows s mark) (host : Host) (i : Input) :
    Windows (servStep host i s) (consumedMark host s mark i) := by
  have hm := servStep_moves host i s mark h.flow
  exact ⟨h.raw.moves hm, h.exp.moves h.raw hm, servStep_flow host i s mark h.flow h.raw h.exp⟩

theorem Windows.runs {s : Server} {mark : Nat} (h : Windows s mark) (host : Host)
    (is : List Input) : ∃ mark', Windows (runs (servStep host) is s) mark' := by
  induction is generalizing s mark with
  | nil => exact ⟨mark, h⟩
  | cons i is ih => exact ih (h.step host i)

/-- The windows hold along every run, whatever its inputs. -/
theorem reaches_windows (host : Host) {ok : Server → Input → Prop} {s₀ s : Server}
    (h₀ : Initial s₀) (h : Reaches (servStep host) ok s₀ s) : ∃ mark, Windows s mark := by
  induction h with
  | start => exact ⟨0, h₀.windows⟩
  | next i _ _ ih =>
    obtain ⟨mark, hw⟩ := ih
    exact ⟨_, hw.step host i⟩

end Sexpect.Guarantees
