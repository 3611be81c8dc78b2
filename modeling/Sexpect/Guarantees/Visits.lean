import Sexpect.Guarantees.Requests
import Sexpect.Guarantees.ServerMoves

/-!
# Iterations of the loop, executed

A `Calm` server is at the head of its loop and nothing but its descriptors keeps
it busy.  From a calm state one iteration with known answers has a known result:
a client connects, says hello, asks, or leaves.  These are the pieces from which
whole visits are put together.
-/
namespace Sexpect.Guarantees
open Sexpect.Lib Sexpect.Source

/-- A host without regular expressions, for requests that match none. -/
def plainHost : Host :=
  { regex := { regexec := fun _ _ _ _ => none, offsets := by simp }
    child := 1001
    pid := 1000
    ptsname := ascii "/dev/pts/0" }

/-- A freshly started server with cleared buffers. -/
def freshServer : Server :=
  servInit {} (List.replicate (sizeRawBuf + 1) 0) (List.replicate (sizeRawBuf + 1) 0)

theorem freshServer_initial : Initial freshServer :=
  ⟨_, _, _, List.length_replicate, List.length_replicate, rfl⟩

/-- The same answers for `n` stretches; each reads the ones it needs. -/
def ticks (n : Nat) (sys : Sys) : List Input := List.replicate n (.tick sys)

theorem ticks_add (m n : Nat) (sys : Sys) : ticks (m + n) sys = ticks m sys ++ ticks n sys := by
  simp [ticks, List.replicate_append_replicate]

/-- A client connects while a prompt arrives, and asks for a part of it. -/
def promptInputs : List Input :=
  ticks 3 {} ++
    ticks 11 { select := .ready { listen := true, ptm := true }, ptm := [.data (ascii "login: ")] } ++
    ticks 11 { select := .ready { sock := true },
               msg := some (passRequest .expect { expflags := passExpectExact,
                                                  pattern := some (ascii "gin") }) }

/-- At the head of the loop, with default options, the pty open, the child alive
and both buffers trimmed. -/
structure Calm (s : Server) : Prop where
  pc : s.pc = .head
  spawn : s.spawn = {}
  ptm : s.ptmOpen = true
  alive : s.sigChlded = false
  waited : s.waited = false
  raw : s.buf.rawnew ≤ maxOldData
  exp : s.buf.expcnt ≤ maxOldData

theorem dropOldData_of_trimmed (b : Buffers) (hr : b.rawnew ≤ maxOldData)
    (he : b.expcnt ≤ maxOldData) : dropOldData b = b := by
  have hraw : dropRaw b = b := if_neg (by omega)
  have hexp : dropExp b = b := if_neg (by omega)
  rw [dropOldData, hraw, hexp]

section

variable (host : Host) (s : Server)

/-- The loop head of a calm server leads to `select`. -/
theorem runs_head (sys : Sys) (h : Calm s) :
    runs (servStep host) (ticks 5 sys) s = loopSelect sys { s with pc := .select } := by
  have h1 : servStep host (.tick sys) s = { s with pc := .nowait } := by
    simp [servStep, tick, h.pc, loopHead, h.waited, h.spawn]
  have h2 : servStep host (.tick sys) { s with pc := .nowait } = { s with pc := .zombie } := by
    simp [servStep, tick, loopNowait, h.spawn]
  have h3 : servStep host (.tick sys) { s with pc := .zombie } = { s with pc := .limits } := by
    simp [servStep, tick, loopZombie, h.alive]
  have h4 : servStep host (.tick sys) { s with pc := .limits } = { s with pc := .select } := by
    simp [servStep, tick, loopLimits, h.spawn]
  simp only [ticks, List.replicate, runs, h1, h2, h3, h4]
  rfl

/-- The answers when a client connects. -/
def connecting : Sys := { select := .ready { listen := true } }

/-- The answers when a message arrives on the connection. -/
def asking (m : Ttlv) : Sys := { select := .ready { sock := true }, msg := some m }

/-- The answers when a message arrives together with output of the child. -/
def askingWith (m : Ttlv) (got : Bytes) : Sys :=
  { select := .ready { sock := true, ptm := true }, msg := some m, ptm := [.data got] }

theorem runs_connect (h : Calm s) (hs : s.conn.sock = false) :
    runs (servStep host) (ticks 11 connecting) s = { s with conn := { sock := true } } := by
  rw [show 11 = 5 + 6 from rfl, ticks_add, runs_append, runs_head host s _ h]
  have hd := dropOldData_of_trimmed s.buf h.raw h.exp
  simp [ticks, connecting, runs, servStep, tick, loopSelect, hs, loopAccept, loopReadPtm,
    loopNonblock, loopRecv, h.spawn, servPassOutput, h.pc, hd]

/-- A message is received by a calm server. -/
theorem runs_recv (m : Ttlv) (h : Calm s) (hs : s.conn.sock = true) :
    runs (servStep host) (ticks 9 (asking m)) s =
      dispatch host (asking m) m { s with pc := .pass } := by
  rw [show 9 = 5 + 4 from rfl, ticks_add, runs_append, runs_head host s _ h]
  simp [ticks, runs, servStep, tick, loopSelect, asking, hs, loopAccept, loopReadPtm, loopNonblock,
    loopRecv, servProcessMsg]

/-- Output for which there is room is read whole. -/
theorem servReadPtm_data (got : Bytes) (hgot : got ≠ [])
    (hroom : s.buf.rawnew + s.buf.newcnt + got.length ≤ sizeRawBuf) :
    servReadPtm [.data got] s =
      { s with
        buf := appendRaw got s.buf
        hist := { s.hist with stream := s.hist.stream ++ got } } := by
  have hpos : 0 < got.length := List.length_pos_iff.mpr hgot
  have htake : got.take (sizeRawBuf - (s.buf.newcnt + s.buf.rawnew)) = got :=
    List.take_of_length_le (by omega)
  have hfull : ¬ sizeRawBuf - (s.buf.newcnt + s.buf.rawnew) = 0 := by omega
  rw [servReadPtm]
  simp only [if_neg hfull, htake, if_neg hgot]

/-- A message is received together with output. -/
theorem runs_recvWith (m : Ttlv) (got : Bytes) (h : Calm s) (hs : s.conn.sock = true)
    (hgot : got ≠ []) (hroom : s.buf.rawnew + s.buf.newcnt + got.length ≤ sizeRawBuf) :
    runs (servStep host) (ticks 9 (askingWith m got)) s =
      dispatch host (askingWith m got) m
        { s with
          pc := .pass
          buf := appendRaw got s.buf
          hist := { s.hist with stream := s.hist.stream ++ got } } := by
  have hpos : 0 < got.length := List.length_pos_iff.mpr hgot
  have hspace : s.buf.rawnew + s.buf.newcnt < sizeRawBuf := by omega
  rw [show 9 = 5 + 4 from rfl, ticks_add, runs_append, runs_head host s _ h]
  simp [ticks, runs, servStep, tick, loopSelect, askingWith, hs, loopAccept, loopReadPtm,
    servReadPtm_data, hgot, hroom, h.ptm, hspace, loopNonblock, loopRecv, servProcessMsg]

/-- Without a request in progress the iteration ends. -/
theorem runs_rest (sys : Sys) (hpc : s.pc = .pass)
    (hidle : s.conn.sock = false ∨ s.conn.passing = false) (hr : s.buf.rawnew ≤ maxOldData)
    (he : s.buf.expcnt ≤ maxOldData) :
    runs (servStep host) (ticks 2 sys) s = { s with pc := .head } := by
  have hd := dropOldData_of_trimmed s.buf hr he
  have h1 : servStep host (.tick sys) s = { s with pc := .drop } := by
    rcases hidle with hi | hi <;> simp [servStep, tick, hpc, servPassOutput, hi]
  have h2 : servStep host (.tick sys) { s with pc := .drop } = { s with pc := .head } := by
    simp only [servStep, tick, hd]
  simp only [ticks, List.replicate, runs, h1, h2]

theorem runs_hello (h : Calm s) (hs : s.conn = { sock := true }) :
    runs (servStep host) (ticks 11 (asking msgHello)) s =
      { s with hist := { s.hist with sent := s.hist.sent ++ [msgHello] } } := by
  rw [show 11 = 9 + 2 from rfl, ticks_add, runs_append, runs_recv host s _ h (by rw [hs]),
    dispatch_hello host _ { s with pc := .pass } (by rw [hs]) rfl]
  refine (runs_rest host _ _ ?_ ?_ ?_ ?_).trans ?_
  · rfl
  · exact .inr (by simp [hs])
  · exact h.raw
  · exact h.exp
  · simp [h.pc]

theorem runs_disconn (h : Calm s) (hs : s.conn.sock = true) :
    runs (servStep host) (ticks 11 (asking msgDisconn)) s =
      { s with
        conn := { s.conn with sock := false }
        hist := { s.hist with sent := s.hist.sent ++ [msgDisconn] } } := by
  rw [show 11 = 9 + 2 from rfl, ticks_add, runs_append, runs_recv host s _ h hs,
    dispatch_disconn host _ { s with pc := .pass } hs rfl]
  refine (runs_rest host _ _ ?_ ?_ ?_ ?_).trans ?_
  · rfl
  · exact .inl rfl
  · exact h.raw
  · exact h.exp
  · simp [h.pc]

/-- The output message for everything unsent. -/
def outputOf (b : Buffers) : Ttlv := ttlvNewRaw Tag.output ((b.rawbuf.drop b.rawnew).take b.newcnt)

/-- Unsent output is handed to the client of a request without lookback. -/
theorem tick_output (sys : Sys) (hpc : s.pc = .pass) (hsock : s.conn.sock = true)
    (hpass : s.conn.passing = true) (hlook : s.conn.lookback = 0) (hnew : 0 < s.buf.newcnt)
    (hsent : sys.sent = true) :
    servStep host (.tick sys) s =
      { s with
        pc := .copy
        buf := markSent s.buf
        hist := { s.hist with sent := s.hist.sent ++ [outputOf s.buf] } } := by
  have hn : s.buf.rawnew + s.buf.newcnt - s.buf.rawnew = s.buf.newcnt := by omega
  simp [servStep, tick, hpc, servPassOutput, hsock, hpass, hlook, sendOutput, hn, hnew, servMsgSend,
    msgOut, hsent, outputOf]

/-- A request with timeout zero that neither matches nor ends is answered with a
timeout. -/
theorem tick_timeout (sys : Sys) (hpc : s.pc = .ending) (hptm : s.ptmOpen = true)
    (hsock : s.conn.sock = true) (htime : s.conn.timeout = 0) (hsent : sys.sent = true) :
    servStep host (.tick sys) s =
      { s with
        pc := .drop
        conn := { s.conn with passing := false }
        hist := { s.hist with sent := s.hist.sent ++
          [servNewError ErrorCode.timeout (ascii "expect timed out")] } } := by
  simp [servStep, tick, hpc, servPassEnd, hptm, expTimedOut, htime, servMsgSend, hsock, msgOut, hsent,
    stopPassing]

/-- A pattern request for which the expect buffer has no room. -/
theorem tick_abort (sys : Sys) (pattern : Bytes) (hpc : s.pc = .copy)
    (hp : s.conn.pattern = some pattern) (hnone : bufRaw2expect s.buf = none) :
    (servStep host (.tick sys) s).pc = .aborted := by
  simp [servStep, tick, hpc, servPassCopy, hp, hnone]

end

end Sexpect.Guarantees
