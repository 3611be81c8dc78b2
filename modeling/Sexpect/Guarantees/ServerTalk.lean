import Sexpect.Guarantees.Control

/-!
# What a step of the server says

Seen from its connection, a step of the server is quiet, accepts a client,
handles one message, passes output on, or ends a `PASS` request with one reply.
`servStep_talks` is that case analysis, from which the delivery of output and the
conversations with the clients are derived.  It also shows that the server never
reports a closed or a leftover connection (`reaches_bugs`).
-/
namespace Sexpect.Guarantees
open Sexpect.Lib Sexpect.Source

/-- The stream position of the first octet that is neither sent nor marked old. -/
def position (b : Buffers) : Nat := b.ntotal - b.newcnt

/-- The replies that end a `PASS` request in `serv_pass`. -/
def PassReply (t : Ttlv) : Prop :=
  t = ttlvNewBool Tag.matched 1 ∨ t = ttlvNewStruct Tag.eof ∨
    (∃ status, t = ttlvNewInt Tag.exited status) ∨
    t = servNewError ErrorCode.eof (ascii "PTY closed") ∨
    t = servNewError ErrorCode.timeout (ascii "expect timed out")

/-- An `OUTPUT` message with what lies between `psend` and the end of the data. -/
def outputFrom (psend : Nat) (b : Buffers) : Ttlv :=
  ttlvNewRaw Tag.output ((b.rawbuf.drop psend).take (b.rawnew + b.newcnt - psend))

/-- `psend` of an output: without a lookback the first unsent octet. -/
structure OutputStart (s : Server) (psend : Nat) : Prop where
  le : psend ≤ s.buf.rawnew
  lt : psend < s.buf.rawnew + s.buf.newcnt
  plain : s.conn.lookback ≤ 0 → psend = s.buf.rawnew

/-- A step that says nothing.  Only a lookback may be used up. -/
structure Quiet (s s' : Server) : Prop where
  conn : ∃ lookback, s'.conn = { s.conn with lookback := lookback } ∧
    (lookback = s.conn.lookback ∨ lookback = 0)
  sent : s'.hist.sent = s.hist.sent
  bugs : s'.hist.bugs = s.hist.bugs ∨ s'.hist.bugs = s.hist.bugs ++ [.sawGlob]
  spawn : s'.spawn = s.spawn
  unsent : position s'.buf = position s.buf

/-- Behind a message that was sent, or not: a failure closes the socket. -/
structure Posts (sent : Bool) (m : Ttlv) (s s' : Server) : Prop where
  log : s'.hist.sent = if sent then s.hist.sent ++ [m] else s.hist.sent
  sock : s'.conn.sock = sent
  stream : s'.hist.stream = s.hist.stream
  bugs : s'.hist.bugs = s.hist.bugs
  spawn : s'.spawn = s.spawn

inductive Talks (host : Host) : Input → Server → Server → Prop
  | quiet {i : Input} {s s' : Server} (h : Quiet s s') : Talks host i s s'
  | old {sys : Sys} {s : Server} (fds : ReadFds) (hpc : s.pc = .nonblock fds)
      (hon : s.spawn.nonblock = true) (hfull : s.buf.rawnew + s.buf.newcnt = sizeRawBuf)
      (htrim : s.buf.rawnew ≤ maxOldData) :
      Talks host (.tick sys) s { s with buf := markOld s.buf, pc := .recv fds }
  | accepted {sys : Sys} {s : Server} (fds : ReadFds) (hpc : s.pc = .accept fds)
      (hready : fds.listen = true) (hconn : sys.accept = .conn) :
      Talks host (.tick sys) s
        { s with
          conn := { sock := true }
          pc := .readPtm fds
          hist := { s.hist with
            bugs := if s.conn.sock then s.hist.bugs ++ [.oldConnAlive] else s.hist.bugs } }
  | received {sys : Sys} {s : Server} (fds : ReadFds) (hpc : s.pc = .recv fds)
      (hsock : s.conn.sock = true) (hready : fds.sock = true) :
      Talks host (.tick sys) s (servProcessMsg host sys { s with pc := .pass })
  | output {sys : Sys} {s s' : Server} (psend : Nat) (hpc : s.pc = .pass)
      (hsock : s.conn.sock = true) (hpass : s.conn.passing = true) (hstart : OutputStart s psend)
      (hpost : Posts sys.sent (outputFrom psend s.buf) s s')
      (hconn : ∃ lookback, s'.conn = { s.conn with sock := sys.sent, lookback := lookback } ∧
        (lookback = s.conn.lookback ∨ lookback = 0))
      (hpos : position s'.buf = if sys.sent then s.buf.ntotal else position s.buf) :
      Talks host (.tick sys) s s'
  | replied {sys : Sys} {s s' : Server} (t : Ttlv) (hpc : s.pc = .expect ∨ s.pc = .ending)
      (hsock : s.conn.sock = true) (hpass : s.conn.passing = true) (hnew : s.buf.newcnt = 0)
      (hreply : PassReply t) (hpost : Posts sys.sent t s s') (hafter : s'.pc = .drop)
      (hconn : s'.conn = { s.conn with sock := sys.sent, passing := false })
      (hpos : position s'.buf = position s.buf) :
      Talks host (.tick sys) s s'

/-- A step that keeps the connection, the history, the options and the position. -/
theorem Quiet.same {s s' : Server} (hc : s'.conn = s.conn) (hs : s'.hist.sent = s.hist.sent)
    (hbugs : s'.hist.bugs = s.hist.bugs) (hsp : s'.spawn = s.spawn)
    (hp : position s'.buf = position s.buf) : Quiet s s' := by
  refine ⟨⟨s.conn.lookback, ?_, .inl rfl⟩, hs, .inl hbugs, hsp, hp⟩
  rw [hc]

theorem Quiet.idle {s s' : Server} (hc : s'.conn = s.conn) (hh : s'.hist = s.hist)
    (hsp : s'.spawn = s.spawn) (hb : s'.buf = s.buf) : Quiet s s' :=
  .same hc (by rw [hh]) (by rw [hh]) hsp (by rw [hb])

/-- A message on an open connection. -/
theorem servMsgSend_posts {s : Server} (sent : Bool) (m : Ttlv) (h : s.conn.sock = true) :
    Posts sent m s (servMsgSend sent m s) := by
  unfold servMsgSend msgOut closeSock
  cases sent <;> constructor <;> simp [h]

theorem servMsgSend_conn {s : Server} (sent : Bool) (m : Ttlv) (h : s.conn.sock = true) :
    (servMsgSend sent m s).conn = { s.conn with sock := sent } := by
  cases hc : s.conn
  rw [hc] at h
  simp only at h
  unfold servMsgSend msgOut closeSock
  cases sent <;> simp [hc, h]

theorem servReadPtm_quiet (rs : List PtmRead) (s : Server) : Quiet s (servReadPtm rs s) := by
  induction rs with
  | nil => exact .idle rfl rfl rfl rfl
  | cons r rs ih =>
    unfold servReadPtm
    simp only
    split
    · exact .idle rfl rfl rfl rfl
    · cases r with
      | data bs =>
        simp only
        split
        · exact .idle rfl rfl rfl rfl
        · refine .same rfl rfl rfl rfl ?_
          simp only [position, appendRaw]
          omega
      | eintr => exact ih
      | eof | eagain | error => exact .idle rfl rfl rfl rfl

/-- Copying to the expect buffer and matching in it do not touch the raw buffer. -/
theorem bufRaw2expect_position {b b' : Buffers} (h : bufRaw2expect b = some b') :
    position b' = position b := by
  have hcatch : position (catchUp b) = position b := by
    unfold catchUp
    split <;> rfl
  unfold bufRaw2expect copyRaw at h
  simp only at h
  split at h
  · cases h
    exact hcatch
  · cases h

theorem sendOutput_talks (host : Host) (sys : Sys) (psend : Nat) (lookback : Int) (s : Server)
    (hpc : s.pc = .pass) (hsock : s.conn.sock = true) (hpass : s.conn.passing = true)
    (hle : psend ≤ s.buf.rawnew) (hplain : s.conn.lookback ≤ 0 → psend = s.buf.rawnew)
    (hlook : lookback = s.conn.lookback ∨ lookback = 0) :
    Talks host (.tick sys) s
      (sendOutput sys psend { s with conn := { s.conn with lookback := lookback } }) := by
  have hconn := servMsgSend_conn (s := { s with conn := { s.conn with lookback := lookback } })
    sys.sent (outputFrom psend s.buf) hsock
  have hpost := servMsgSend_posts (s := { s with conn := { s.conn with lookback := lookback } })
    sys.sent (outputFrom psend s.buf) hsock
  unfold sendOutput
  simp only
  split
  · rename_i hpos
    have hstart : OutputStart s psend := ⟨hle, by omega, hplain⟩
    split
    · rename_i hopen
      have hsent : sys.sent = true := hpost.sock.symm.trans hopen
      apply Talks.output psend hpc hsock hpass hstart
      · exact ⟨hpost.log, hpost.sock, hpost.stream, hpost.bugs, hpost.spawn⟩
      · exact ⟨lookback, hconn, hlook⟩
      · rw [if_pos hsent]
        simp [position, markSent]
    · rename_i hclosed
      have hsent : sys.sent = false := hpost.sock.symm.trans (Bool.eq_false_iff.mpr hclosed)
      apply Talks.output psend hpc hsock hpass hstart
      · exact ⟨hpost.log, hpost.sock, hpost.stream, hpost.bugs, hpost.spawn⟩
      · exact ⟨lookback, hconn, hlook⟩
      · rw [hsent, if_neg (by simp)]
        simp
  · exact .quiet ⟨⟨lookback, rfl, hlook⟩, rfl, .inl rfl, rfl, rfl⟩

/-- One reply ends the request. -/
theorem stopPassing_talks (host : Host) (sys : Sys) (t : Ttlv) (s s' : Server)
    (hpc : s.pc = .expect ∨ s.pc = .ending) (hf : Flow s) (hreply : PassReply t)
    (hc : s'.conn = s.conn) (hh : s'.hist = s.hist) (hsp : s'.spawn = s.spawn)
    (hp : position s'.buf = position s.buf) :
    Talks host (.tick sys) s (stopPassing (servMsgSend sys.sent t s')) := by
  obtain ⟨hsock, hpass, hnew⟩ := hf.passing (.inr hpc)
  have hsock' : s'.conn.sock = true := by rw [hc, hsock]
  have hconn := servMsgSend_conn sys.sent t hsock'
  have hpost := servMsgSend_posts sys.sent t hsock'
  apply Talks.replied t hpc hsock hpass hnew hreply
  · refine ⟨?_, hpost.sock, ?_, ?_, ?_⟩
    · rw [← hh]
      exact hpost.log
    · rw [← hh]
      exact hpost.stream
    · rw [← hh]
      exact hpost.bugs
    · rw [← hsp]
      exact hpost.spawn
  · rfl
  · simp only [stopPassing, hconn, hc]
  · rw [stopPassing_buf, servMsgSend_buf, hp]

/-- A failed match reports at most the glob it does not know. -/
theorem servExpect_bugs (host : Host) (pattern : Bytes) (s s' : Server)
    (h : servExpect host pattern s = (false, s')) :
    s'.hist.bugs = s.hist.bugs ∨ s'.hist.bugs = s.hist.bugs ++ [.sawGlob] := by
  unfold servExpect at h
  split at h
  · cases h
    exact .inl rfl
  split at h
  · split at h
    · cases h
    · cases h
      exact .inl rfl
  split at h
  · cases h
    exact .inr rfl
  split at h
  · split at h
    · cases h
    · cases h
      exact .inl rfl
  · cases h
    exact .inl rfl

theorem servPassExpect_talks (host : Host) (sys : Sys) (s : Server) (hf : Flow s)
    (hpc : s.pc = .expect) : Talks host (.tick sys) s (servPassExpect host sys s) := by
  unfold servPassExpect
  rcases hexp : servExpect host (s.conn.pattern.getD []) s with ⟨matched, s'⟩
  cases matched with
  | true =>
    obtain ⟨pos, expout, -, rfl⟩ := servExpect_matched _ _ _ _ hexp
    exact stopPassing_talks host sys _ s _ (.inl hpc) hf (.inl rfl) rfl rfl rfl rfl
  | false =>
    apply Talks.quiet
    have hbugs := servExpect_bugs _ _ _ _ hexp
    obtain ⟨bugs, rfl⟩ := servExpect_failed _ _ _ _ hexp
    exact ⟨⟨_, rfl, .inl rfl⟩, rfl, hbugs, rfl, rfl⟩

theorem servPassEnd_talks (host : Host) (sys : Sys) (s : Server) (hf : Flow s)
    (hpc : s.pc = .ending) : Talks host (.tick sys) s (servPassEnd sys s) := by
  unfold servPassEnd
  split
  · split
    · exact stopPassing_talks host sys _ s _ (.inr hpc) hf (.inr (.inl rfl)) rfl rfl rfl rfl
    · split
      · split
        · split
          · exact .quiet (.idle rfl rfl rfl rfl)
          · exact stopPassing_talks host sys _ s _ (.inr hpc) hf (.inr (.inr (.inl ⟨_, rfl⟩)))
              rfl rfl rfl rfl
        · exact .quiet (.idle rfl rfl rfl rfl)
      · exact stopPassing_talks host sys _ s _ (.inr hpc) hf (.inr (.inr (.inr (.inl rfl))))
          rfl rfl rfl rfl
  · split
    · exact stopPassing_talks host sys _ s _ (.inr hpc) hf (.inr (.inr (.inr (.inr rfl))))
        rfl rfl rfl rfl
    · exact .quiet (.idle rfl rfl rfl rfl)

theorem servPassOutput_talks (host : Host) (sys : Sys) (s : Server) (hpc : s.pc = .pass) :
    Talks host (.tick sys) s (servPassOutput sys s) := by
  unfold servPassOutput
  split
  · exact .quiet (.idle rfl rfl rfl rfl)
  · rename_i hgo
    obtain ⟨hsock, hpass⟩ := served_connection hgo
    split
    · exact sendOutput_talks host sys _ s.conn.lookback s hpc hsock hpass le_rfl (fun _ => rfl)
        (.inl rfl)
    · rename_i hlook
      simp only
      split
      · exact .quiet ⟨⟨0, rfl, .inr rfl⟩, rfl, .inl rfl, rfl, rfl⟩
      · rename_i psend hstart
        exact sendOutput_talks host sys psend 0 s hpc hsock hpass (lookbackStart_le _ _ _ hstart)
          (fun h => absurd h hlook) (.inr rfl)

theorem servPassCopy_quiet (s : Server) : Quiet s (servPassCopy s) := by
  unfold servPassCopy
  split
  · split
    · exact .idle rfl rfl rfl rfl
    · rename_i buf hcopy
      exact .same rfl rfl rfl rfl (bufRaw2expect_position hcopy)
  · split
    · exact .same rfl rfl rfl rfl rfl
    · exact .idle rfl rfl rfl rfl

/-- Every step of the server, seen from its connection. -/
theorem servStep_talks (host : Host) (i : Input) (s : Server) (hf : Flow s) :
    Talks host i s (servStep host i s) := by
  cases i with
  | child e =>
    simp only [servStep, childChange]
    split <;> exact .quiet (.idle rfl rfl rfl rfl)
  | sigCHLD =>
    simp only [servStep, servSigCHLD]
    split <;> exact .quiet (.idle rfl rfl rfl rfl)
  | tick sys =>
    simp only [servStep]
    cases hpc : s.pc with
    | waitPts | setNonblock | installHandler | head | nowait | zombie | limits | select =>
      obtain ⟨pc, handler, ptmOpen, count, htick, -⟩ :=
        tick_deciding host sys s (by rw [hpc]; rfl)
      rw [htick]
      exact .quiet (.idle rfl rfl rfl rfl)
    | exited | aborted | crashed =>
      simp only [tick, hpc]
      exact .quiet (.idle rfl rfl rfl rfl)
    | accept fds =>
      simp only [tick, hpc, loopAccept]
      split
      · rename_i hready
        split
        · exact .quiet (.idle rfl rfl rfl rfl)
        · exact .quiet (.idle rfl rfl rfl rfl)
        · rename_i hconn
          have h : Talks host (.tick sys) s _ := .accepted fds hpc hready hconn
          cases hs : s.conn.sock <;> simpa [hs] using h
      · exact .quiet (.idle rfl rfl rfl rfl)
    | readPtm fds =>
      simp only [tick, hpc, loopReadPtm]
      apply Talks.quiet
      split
      · have h := servReadPtm_quiet sys.ptm s
        exact ⟨h.conn, h.sent, h.bugs, h.spawn, h.unsent⟩
      · exact .idle rfl rfl rfl rfl
    | nonblock fds =>
      simp only [tick, hpc, loopNonblock]
      split
      · rename_i hfull
        exact .old fds hpc hfull.1 hfull.2.2.1 hfull.2.2.2
      · exact .quiet (.idle rfl rfl rfl rfl)
    | recv fds =>
      simp only [tick, hpc, loopRecv]
      split
      · rename_i hready
        exact .received fds hpc hready.1 hready.2
      · exact .quiet (.idle rfl rfl rfl rfl)
    | pass =>
      simp only [tick, hpc]
      exact servPassOutput_talks host sys s hpc
    | copy =>
      simp only [tick, hpc]
      exact .quiet (servPassCopy_quiet s)
    | expect =>
      simp only [tick, hpc]
      exact servPassExpect_talks host sys s hf hpc
    | ending =>
      simp only [tick, hpc]
      exact servPassEnd_talks host sys s hf hpc
    | drop =>
      simp only [tick, hpc]
      apply Talks.quiet
      refine .same rfl rfl rfl rfl ?_
      obtain ⟨htotal, -, -, -, hnew, -⟩ := dropOldData_counts s.buf
      simp only [position, htotal, hnew]

/-! ## Bug reports -/

/-- A message handled on an open connection reports nothing. -/
theorem dispatch_bugs (host : Host) (sys : Sys) (m : Ttlv) (s : Server) (h : s.conn.sock = true) :
    (dispatch host sys m s).hist.bugs = s.hist.bugs := by
  have hwrite : (writePtm sys m s).conn = s.conn ∧
      (writePtm sys m s).hist.bugs = s.hist.bugs := by
    unfold writePtm
    split <;> exact ⟨rfl, rfl⟩
  apply dispatch_cases (motive := fun s' => s'.hist.bugs = s.hist.bugs)
  case hello =>
    intro _
    unfold servHello
    split
    · rfl
    · simp only
      split
      · rfl
      · split
        · exact (servMsgSend_posts sys.sent _ h).bugs
        · unfold msgOut
          split <;> rfl
  case disconn =>
    intro _
    unfold servDisconn msgOut
    split
    · rfl
    · split <;> rfl
  case send =>
    intro _
    rw [(servMsgSend_posts sys.sent _ (by rw [hwrite.1, h])).bugs, hwrite.2]
  case input => exact fun _ => hwrite.2
  case pass =>
    intro _
    unfold processPass
    simp only
    split <;> rfl
  case winch =>
    intro _
    unfold processWinch
    split <;> rfl
  case expout | kill => exact fun _ => (servMsgSend_posts sys.sent _ h).bugs
  case close => exact fun _ => (servMsgSend_posts (s := { s with ptmOpen := false }) sys.sent _ h).bugs
  case set =>
    exact fun _ => (servMsgSend_posts (s := { s with spawn := processSet m s.spawn }) sys.sent _ h).bugs
  case info =>
    exact fun buf _ _ => (servMsgSend_posts (s := { s with buf := buf }) sys.sent _ h).bugs
  case abort => exact fun _ _ => rfl
  case other => rfl

/-- The set of ready descriptors an iteration works with. -/
def Pc.readfds : Pc → ReadFds
  | .accept fds | .readPtm fds | .nonblock fds | .recv fds => fds
  | _ => {}

/-- Ready descriptors come from `select`, which asks for a client only without a
connection and for messages only with one. -/
structure Watching (s : Server) : Prop where
  listen : ∀ fds, s.pc = .accept fds → fds.listen = true → s.conn.sock = false
  sock : (Pc.readfds s.pc).sock = true → s.conn.sock = true
  bugs : ∀ b ∈ s.hist.bugs, b = .sawGlob

/-- The set is empty, handed on, or filled by `select`. -/
theorem goes_readfds {p q : Pc} (h : Pc.goes p q) :
    Pc.readfds q = {} ∨
      (Pc.readfds q = Pc.readfds p ∧ (∀ fds, p ≠ .recv fds) ∧ ∀ fds, q ≠ .accept fds) ∨
      p = .select ∧ ∃ fds, q = .accept fds := by
  cases p with
  | waitPts | setNonblock | head | nowait | zombie | limits | expect | ending =>
    obtain rfl | rfl := h <;> exact .inl rfl
  | recv | pass | copy =>
    obtain rfl | rfl | rfl := h <;> exact .inl rfl
  | installHandler | drop | exited | aborted | crashed =>
    obtain rfl := h
    exact .inl rfl
  | select =>
    obtain rfl | rfl | hfds := h
    · exact .inl rfl
    · exact .inl rfl
    · exact .inr (.inr ⟨rfl, hfds⟩)
  | accept fds =>
    obtain rfl | rfl | rfl := h
    · exact .inl rfl
    · exact .inl rfl
    · exact .inr (.inl ⟨rfl, nofun, nofun⟩)
  | readPtm fds | nonblock fds =>
    obtain rfl := h
    exact .inr (.inl ⟨rfl, nofun, nofun⟩)

/-- Where the set of ready descriptors comes from: from `select`, or from the
stretch before, up to the reception of a message. -/
theorem tick_readfds (host : Host) (sys : Sys) (s : Server) :
    Pc.readfds (tick host sys s).pc = {} ∨
      (Pc.readfds (tick host sys s).pc = Pc.readfds s.pc ∧ (∀ fds, s.pc ≠ .recv fds) ∧
        ∀ fds, (tick host sys s).pc ≠ .accept fds) ∨
      ∃ ready fds, s.pc = .select ∧ sys.select = .ready ready ∧
        fds.listen = (ready.listen && !s.conn.sock) ∧ fds.sock = (ready.sock && s.conn.sock) ∧
        tick host sys s = { s with pc := .accept fds } := by
  obtain hempty | hsame | ⟨hpc, fds, hfds⟩ := goes_readfds (tick_goes host sys s)
  · exact .inl hempty
  · exact .inr (.inl hsame)
  · have htick : tick host sys s = loopSelect sys s := by simp only [tick, hpc]
    rw [htick] at hfds ⊢
    unfold loopSelect at hfds ⊢
    cases hsel : sys.select with
    | eintr | error =>
      rw [hsel] at hfds
      cases hfds
    | ready ready => exact .inr (.inr ⟨ready, _, hpc, rfl, rfl, rfl, rfl⟩)

/-- The child and its signal move nothing else. -/
theorem childChange_frame (e : ChildEvent) (s : Server) :
    ∃ child pending, childChange e s = { s with child := child, pending := pending } := by
  unfold childChange
  split
  · exact ⟨s.child, s.pending, rfl⟩
  · exact ⟨_, _, rfl⟩

theorem servSigCHLD_frame (s : Server) :
    ∃ pending flag, servSigCHLD s = { s with pending := pending, sigChlded := flag } := by
  unfold servSigCHLD
  split
  · exact ⟨_, _, rfl⟩
  · exact ⟨s.pending, s.sigChlded, rfl⟩

/-- A client is awaited only without a connection. -/
theorem tick_listen (host : Host) (sys : Sys) {s : Server} {fds : ReadFds}
    (hat : (tick host sys s).pc = .accept fds) (hready : fds.listen = true) :
    (tick host sys s).conn.sock = false := by
  rcases tick_readfds host sys s with hfds | ⟨-, -, hno⟩ | ⟨ready, fds', -, -, hl, -, htick⟩
  · rw [hat] at hfds
    simp only [Pc.readfds] at hfds
    rw [hfds] at hready
    cases hready
  · exact absurd hat (hno fds)
  · rw [htick] at hat ⊢
    cases hat
    rw [hl] at hready
    simp only [Bool.and_eq_true, Bool.not_eq_true'] at hready
    exact hready.2

/-- A message is awaited only on a connection: no stretch that hands the set on
ends one. -/
theorem Watching.sock_tick {s : Server} (h : Watching s) (hf : Flow s) (host : Host) (sys : Sys)
    (hready : (Pc.readfds (tick host sys s).pc).sock = true) :
    (tick host sys s).conn.sock = true := by
  have ht := servStep_talks host (.tick sys) s hf
  simp only [servStep] at ht
  rcases tick_readfds host sys s with hfds | ⟨hsame, hno, -⟩ | ⟨ready, fds', -, -, -, hl, htick⟩
  · rw [hfds] at hready
    cases hready
  · rw [hsame] at hready
    have hopen := h.sock hready
    generalize tick host sys s = s' at ht ⊢
    cases ht with
    | quiet hq =>
      obtain ⟨lookback, hc, -⟩ := hq.conn
      rw [hc]
      exact hopen
    | old => exact hopen
    | accepted => rfl
    | received fds hpc _ _ => exact absurd hpc (hno fds)
    | output psend hpc =>
      rw [hpc] at hready
      cases hready
    | replied t hpc => rcases hpc with hpc | hpc <;> rw [hpc] at hready <;> cases hready
  · rw [htick] at hready ⊢
    simp only [Pc.readfds, hl, Bool.and_eq_true] at hready
    exact hready.2

theorem servProcessMsg_bugs (host : Host) (sys : Sys) (s : Server) (h : s.conn.sock = true) :
    (servProcessMsg host sys s).hist.bugs = s.hist.bugs := by
  unfold servProcessMsg
  split
  · rfl
  · exact dispatch_bugs host sys _ s h

/-- A glob pattern aside, a stretch of the loop reports nothing. -/
theorem Watching.bugs_tick {s : Server} (h : Watching s) (hf : Flow s) (host : Host) (sys : Sys) :
    ∀ b ∈ (tick host sys s).hist.bugs, b = .sawGlob := by
  have ht := servStep_talks host (.tick sys) s hf
  simp only [servStep] at ht
  generalize tick host sys s = s' at ht
  cases ht with
  | quiet hq =>
    rcases hq.bugs with hb | hb <;> rw [hb]
    · exact h.bugs
    · intro b hmem
      rcases List.mem_append.mp hmem with hmem | hmem
      · exact h.bugs b hmem
      · exact List.mem_singleton.mp hmem
  | old => exact h.bugs
  | accepted fds hpc hready _ =>
    simp only [h.listen fds hpc hready]
    exact h.bugs
  | received fds hpc hsock hready =>
    rw [servProcessMsg_bugs host sys { s with pc := .pass } hsock]
    exact h.bugs
  | output _ _ _ _ _ hpost =>
    rw [hpost.bugs]
    exact h.bugs
  | replied _ _ _ _ _ _ hpost =>
    rw [hpost.bugs]
    exact h.bugs

theorem Watching.step {s : Server} (h : Watching s) (hf : Flow s) (host : Host) (i : Input) :
    Watching (servStep host i s) := by
  cases i with
  | tick sys =>
    constructor
    · intro fds hat hready
      exact tick_listen host sys hat hready
    · exact h.sock_tick hf host sys
    · exact h.bugs_tick hf host sys
  | child e =>
    obtain ⟨child, pending, hs⟩ := childChange_frame e s
    simp only [servStep, hs]
    exact ⟨h.listen, h.sock, h.bugs⟩
  | sigCHLD =>
    obtain ⟨pending, flag, hs⟩ := servSigCHLD_frame s
    simp only [servStep, hs]
    exact ⟨h.listen, h.sock, h.bugs⟩

/-- In no run, whatever the clients do, does the server report a closed or a
leftover connection. -/
theorem reaches_watching (host : Host) {ok : Server → Input → Prop} {s₀ s : Server}
    (h₀ : Initial s₀) (h : Reaches (servStep host) ok s₀ s) : Watching s := by
  induction h with
  | start =>
    obtain ⟨spawn, rawbuf, expbuf, -, -, rfl⟩ := h₀
    constructor <;> simp [servInit, Pc.readfds]
  | next i hprev _ ih =>
    obtain ⟨mark, hw⟩ := reaches_windows host h₀ hprev
    exact ih.step hw.flow host i

end Sexpect.Guarantees
