import Sexpect.Guarantees.GetVisits

/-!
# A `get` and later answers

Behind the visit of a `get` client both servers are given the same inputs.  Their
answers agree as long as dropping old data leaves equally much of the pending
text in both.  The `INFO` request copies the text into the expect buffer, which is
trimmed to `MAX_OLD_DATA` octets, so that need not be the case.
-/
namespace Sexpect.Guarantees
open Sexpect.Lib Sexpect.Source

theorem Visiting.runs {a b : Server} (h : Visiting a b) (host : Host) (vs : List Input)
    (hget : ∀ i ∈ vs, GetInput i) (hvisit : Admitted (visitStep host) VisitCondition vs (a, b)) :
    Visiting (runs (visitStep host) vs (a, b)).1 (runs (visitStep host) vs (a, b)).2 := by
  induction vs generalizing a b with
  | nil => exact h
  | cons i vs ih =>
    have hstep := h.step host i (hget i (by simp)) hvisit.1
    exact ih hstep (fun j hj => hget j (by simp [hj])) hvisit.2

/-- Settled servers have sent the same messages since, and hold the same strings. -/
theorem Settled.answers {pa pb : List Ttlv} {p : Server × Server} (h : Settled pa pb p) :
    (∃ answers, p.1.hist.sent = pa ++ answers ∧ p.2.hist.sent = pb ++ answers) ∧
      p.1.expout = p.2.expout := by
  rcases h with ⟨halike, -, -⟩ | hgone
  · refine ⟨halike.sent, ?_⟩
    rw [halike.same]
    rfl
  · refine ⟨⟨[], ?_, ?_⟩, hgone.expout.symm⟩
    · rw [hgone.sent.1, List.append_nil]
    · rw [hgone.sent.2, List.append_nil]

/-- A `get` and later answers.  From a reachable state `s` without a client, at the
head of the loop, one server is visited by a `get` client (`vs`), the other is
not; behind the visit both go on with the same inputs (`is`).  When the steps meet
`VisitCondition` and `RestCondition`, whatever is sent from then on, `OUTPUT`,
`MATCHED`, `EOF`, errors and the replies to every other request, is the same in
both, and so are the strings of `expect_out`. -/
theorem get_read_only (host : Host) (s₀ s : Server) (h₀ : Initial s₀)
    (hrun : Reaches (servStep host) (fun _ _ => True) s₀ s) (hpc : s.pc = .head)
    (hsock : s.conn.sock = false) (vs is : List Input) (hget : ∀ i ∈ vs, GetInput i)
    (hvisit : Admitted (visitStep host) VisitCondition vs (s, s))
    (hback : (runs (visitStep host) vs (s, s)).1.pc = .head ∧
      (runs (visitStep host) vs (s, s)).1.conn.sock = false)
    (hrest : Admitted (bothStep host) RestCondition is (runs (visitStep host) vs (s, s))) :
    (∃ answers,
      (runs (bothStep host) is (runs (visitStep host) vs (s, s))).1.hist.sent =
        (runs (visitStep host) vs (s, s)).1.hist.sent ++ answers ∧
      (runs (bothStep host) is (runs (visitStep host) vs (s, s))).2.hist.sent =
        (runs (visitStep host) vs (s, s)).2.hist.sent ++ answers) ∧
      (runs (bothStep host) is (runs (visitStep host) vs (s, s))).1.expout =
        (runs (bothStep host) is (runs (visitStep host) vs (s, s))).2.expout := by
  obtain ⟨mark, hw⟩ := reaches_windows host h₀ hrun
  have hstart : Visiting s s := by
    refine ⟨⟨by simp [hpc], ?_, fun _ => ⟨hsock, .inl hpc⟩⟩, ⟨mark, hw⟩, ⟨mark, hw⟩, .inr (.inl ?_)⟩
    · rw [hsock]
      simp
    · refine ⟨?_, hsock, ⟨rfl, rfl, rfl, rfl, rfl⟩, rfl⟩
      simp only [twin, hpc, Pc.blind]
      rw [← hpc]
  have hended := (hstart.runs host vs hget hvisit).settled hback.1 hback.2
  generalize runs (visitStep host) vs (s, s) = p at hended hrest
  have hsettled : Settled p.1.hist.sent p.2.hist.sent (runs (bothStep host) is p) :=
    (Reaches.start.runs is hrest).invariant (Settled p.1.hist.sent p.2.hist.sent) hended
      fun q i hq hok => hq.step host i hok
  exact hsettled.answers

/-- A `get` client connects, asks and leaves. -/
def getVisit : List Input :=
  greeting ++ ticks 11 (asking (ttlvNewStruct Tag.info)) ++ ticks 11 (asking msgDisconn)

/-- Output arrives while there is no client. -/
def arriving (got : Bytes) : Sys := { select := .ready { ptm := true }, ptm := [.data got] }

/-- The server with output nobody has asked for. -/
def unreadServer (got : Bytes) : Server :=
  runs (servStep plainHost) (ticks 3 {} ++ ticks 11 (arriving got)) freshServer

/-- `expect -t 0 -exact`. -/
def exactRequest (text : Bytes) : Ttlv :=
  passRequest .expect { hasTimeout := true, expflags := passExpectExact, pattern := some text }

/-- A client asks for a text, up to the call of `serv_expect`. -/
def exactAsked (text : Bytes) : List Input := greeting ++ ticks 11 (asking (exactRequest text))

/-- A client asks for a text, up to the answer. -/
def exactVisit (text : Bytes) : List Input := exactAsked text ++ ticks 2 (asking (exactRequest text))

theorem get_read_only_prompt :
    ∃ answers,
      (runs (bothStep plainHost) (exactVisit (ascii "gin"))
        (runs (visitStep plainHost) getVisit
          (unreadServer (ascii "login: "), unreadServer (ascii "login: ")))).1.hist.sent =
        (runs (visitStep plainHost) getVisit
          (unreadServer (ascii "login: "), unreadServer (ascii "login: "))).1.hist.sent ++ answers ∧
      (runs (bothStep plainHost) (exactVisit (ascii "gin"))
        (runs (visitStep plainHost) getVisit
          (unreadServer (ascii "login: "), unreadServer (ascii "login: ")))).2.hist.sent =
        (runs (visitStep plainHost) getVisit
          (unreadServer (ascii "login: "), unreadServer (ascii "login: "))).2.hist.sent ++ answers :=
  (get_read_only plainHost freshServer (unreadServer (ascii "login: ")) freshServer_initial
    (Reaches.start.runs _ (admitted_true _ _)) (by decide +kernel) (by decide +kernel) getVisit
    (exactVisit (ascii "gin")) (by decide +kernel) (by decide +kernel) (by decide +kernel)
    (by decide +kernel)).1

/-! ## Output lost behind a `get` -/

section

variable (host : Host) (s : Server)

/-- An iteration in which nothing happens. -/
theorem runs_idle (sys : Sys) (h : Calm s) (hs : s.conn.sock = false)
    (hsel : sys.select = .ready {}) :
    runs (servStep host) (ticks 11 sys) s = { s with pc := .head } := by
  rw [show 11 = 5 + 6 from rfl, ticks_add, runs_append, runs_head host s _ h]
  have hd := dropOldData_of_trimmed s.buf h.raw h.exp
  simp [ticks, runs, servStep, tick, loopSelect, hsel, hs, loopAccept, loopReadPtm, loopNonblock,
    loopRecv, h.spawn, servPassOutput, hd]

/-- An iteration in which output is read. -/
theorem runs_arriving (got : Bytes) (h : Calm s) (hs : s.conn.sock = false) (hgot : got ≠ [])
    (hroom : s.buf.rawnew + s.buf.newcnt + got.length ≤ sizeRawBuf) :
    runs (servStep host) (ticks 11 (arriving got)) s =
      { s with
        buf := appendRaw got s.buf
        hist := { s.hist with stream := s.hist.stream ++ got } } := by
  have hpos : 0 < got.length := List.length_pos_iff.mpr hgot
  have hspace : s.buf.rawnew + s.buf.newcnt < sizeRawBuf := by omega
  have hd := dropOldData_of_trimmed (appendRaw got s.buf) h.raw h.exp
  rw [show 11 = 5 + 6 from rfl, ticks_add, runs_append, runs_head host s _ h]
  simp [ticks, runs, servStep, tick, loopSelect, arriving, hs, loopAccept, loopReadPtm,
    servReadPtm_data, hgot, hroom, h.ptm, hspace, loopNonblock, h.spawn, loopRecv, servPassOutput, hd,
    h.pc]

/-- The request `INFO` of a client: the text is copied, and trimmed at the end of
the iteration. -/
theorem runs_info (b : Buffers) (h : Calm s) (hs : s.conn = { sock := true })
    (hcopy : bufRaw2expect s.buf = some b) :
    ∃ reply, reply.tag = Tag.info ∧
      runs (servStep host) (ticks 11 (asking (ttlvNewStruct Tag.info))) s =
        { s with
          buf := dropOldData b
          hist := { s.hist with sent := s.hist.sent ++ [reply] } } := by
  have hinfo : dispatch host (asking (ttlvNewStruct Tag.info)) (ttlvNewStruct Tag.info)
      { s with pc := .pass } = servMsgSend true (infoReply host { s with pc := .pass, buf := b })
        { s with pc := .pass, buf := b } := by
    have hbuf : bufRaw2expect { s with pc := .pass }.buf = some b := hcopy
    unfold dispatch
    rw [hbuf]
    rfl
  rw [show 11 = 9 + 2 from rfl, ticks_add, runs_append, runs_recv host s _ h (by rw [hs]), hinfo]
  refine ⟨infoReply host { s with pc := .pass, buf := b }, rfl, ?_⟩
  simp [servMsgSend, msgOut, hs, ticks, runs, servStep, tick, servPassOutput, h.pc]

/-- The visit of a `get` client to a calm server with nothing sent yet. -/
theorem runs_getVisit (b : Buffers) (h : Calm s) (hs : s.conn.sock = false)
    (hcopy : bufRaw2expect s.buf = some b) (hraw : (dropOldData b).rawnew ≤ maxOldData)
    (hexp : (dropOldData b).expcnt ≤ maxOldData) :
    ∃ reply, reply.tag = Tag.info ∧ runs (servStep host) getVisit s =
      { s with
        conn := {}
        buf := dropOldData b
        hist := { s.hist with sent := s.hist.sent ++ [msgHello, reply, msgDisconn] } } := by
  rw [getVisit, runs_append, runs_append, runs_greeting host s h hs]
  obtain ⟨reply, htag, hinfo⟩ := runs_info host
    { s with conn := { sock := true }, hist := { s.hist with sent := s.hist.sent ++ [msgHello] } } b
    ⟨h.pc, h.spawn, h.ptm, h.alive, h.waited, h.raw, h.exp⟩ rfl hcopy
  rw [hinfo]
  refine ⟨reply, htag, ?_⟩
  rw [runs_disconn]
  · simp only [List.append_assoc, List.cons_append, List.nil_append]
  · exact ⟨h.pc, h.spawn, h.ptm, h.alive, h.waited, hraw, hexp⟩
  · rfl

/-- The connection of a client with `expect -t 0 -exact`. -/
def exactConn (text : Bytes) : Conn :=
  { sock := true, passing := true, subcmd := 1, expflags := 1, pattern := some (cstring text) }

/-- The state at the call of `serv_expect` for a calm server with unsent output. -/
theorem runs_exactAsked (text : Bytes) (b : Buffers) (h : Calm s) (hs : s.conn.sock = false)
    (hnew : 0 < s.buf.newcnt) (hcopy : bufRaw2expect (markSent s.buf) = some b) :
    runs (servStep host) (exactAsked text) s =
      { s with
        pc := .expect
        conn := exactConn text
        buf := b
        expout := List.replicate expectOutNum none
        hist := { s.hist with sent := s.hist.sent ++ [msgHello] ++ [outputOf s.buf] } } := by
  have hcalm : Calm { s with
      conn := { sock := true }, hist := { s.hist with sent := s.hist.sent ++ [msgHello] } } :=
    ⟨h.pc, h.spawn, h.ptm, h.alive, h.waited, h.raw, h.exp⟩
  have hout := tick_output host
    { s with
      pc := .pass
      conn := exactConn text
      expout := List.replicate expectOutNum none
      hist := { s.hist with sent := s.hist.sent ++ [msgHello] } }
    (asking (exactRequest text)) rfl rfl rfl rfl hnew rfl
  have hreq : ∀ t : Server, t.conn = { sock := true } → processPass (exactRequest text) t =
      { t with conn := exactConn text, expout := List.replicate expectOutNum none } := by
    intro t ht
    rw [exactRequest, processPass_request, ht]
    rfl
  rw [exactAsked, runs_append, runs_greeting host s h hs, show 11 = 9 + 2 from rfl, ticks_add,
    runs_append, runs_recv host _ _ hcalm rfl, exactRequest, dispatch_passRequest, ← exactRequest,
    hreq _ rfl]
  simp only [ticks, List.replicate, runs]
  refine (congrArg _ hout).trans ?_
  simp only [servStep, tick, servPassCopy, exactConn, hcopy]

/-- `serv_expect` finds the text: the answer is `MATCHED`. -/
theorem runs_matched (sys : Sys) (text : Bytes) (pos : Nat) (hpc : s.pc = .expect)
    (hc : s.conn = exactConn text) (hptm : s.ptmOpen = true) (hsent : sys.sent = true)
    (hfound : strstr (cstring s.buf.expbuf) (cstring text) = some pos) :
    (runs (servStep host) (ticks 2 sys) s).hist.sent.getLast? = some (ttlvNewBool Tag.matched 1) := by
  have hexact : hasFlag 1 passExpectExact = true := by decide
  have hicase : hasFlag 1 passExpectIcase = false := by decide
  simp [ticks, runs, servStep, tick, hpc, servPassExpect, hc, exactConn, servExpect, hptm, hexact,
    hicase, expectExact, hfound, servMsgSend, msgOut, hsent, stopPassing]

/-- It does not: the answer is a timeout. -/
theorem runs_unmatched (sys : Sys) (text : Bytes) (hpc : s.pc = .expect)
    (hc : s.conn = exactConn text) (hptm : s.ptmOpen = true) (hsent : sys.sent = true)
    (hfound : strstr (cstring s.buf.expbuf) (cstring text) = none) :
    (runs (servStep host) (ticks 2 sys) s).hist.sent.getLast? =
      some (servNewError ErrorCode.timeout (ascii "expect timed out")) := by
  have hexact : hasFlag 1 passExpectExact = true := by decide
  have hicase : hasFlag 1 passExpectIcase = false := by decide
  simp [ticks, runs, servStep, tick, hpc, servPassExpect, hc, exactConn, servExpect, hptm, hexact,
    hicase, expectExact, hfound, servPassEnd, expTimedOut, servMsgSend, msgOut, hsent, stopPassing]

end

/-- The string at the call of `serv_expect` is the pending text. -/
theorem cstring_pending {s : Server} {mark : Nat} (h : Windows s mark) (hpc : s.pc = .expect) :
    cstring s.buf.expbuf = pending s.hist.stream s.buf := by
  obtain ⟨-, ht, hoff⟩ := h.flow.ready hpc
  rw [cstring_of_window h.exp ht, pending_copied h.raw hoff]

/-- One octet is not found where it does not occur. -/
theorem strstr_none (hay : Bytes) (c : UInt8) (h : c ∉ hay) : strstr hay [c] = none := by
  induction hay with
  | nil => simp [strstr]
  | cons b hay ih =>
    simp only [List.mem_cons, not_or] at h
    simp [strstr, ih h.2, h.1]

theorem strstr_front (c : UInt8) (hay : Bytes) : strstr (c :: hay) [c] = some 0 := by
  simp [strstr]

/-- The state with a stretch of unread output. -/
theorem unreadServer_eq (got : Bytes) (hgot : got ≠ []) (hlen : got.length ≤ sizeRawBuf) :
    unreadServer got =
      { freshServer with
        pc := .head
        handler := true
        buf := appendRaw got freshServer.buf
        hist := { stream := got } } := by
  have hboot : runs (servStep plainHost) (ticks 3 {}) freshServer =
      { freshServer with pc := .head, handler := true } := rfl
  rw [unreadServer, runs_append, hboot, runs_arriving]
  · rfl
  · exact ⟨rfl, rfl, rfl, rfl, rfl, Nat.zero_le _, Nat.zero_le _⟩
  · rfl
  · exact hgot
  · simpa [freshServer, servInit] using hlen

theorem runs_bothStep (host : Host) (is : List Input) (p : Server × Server) :
    runs (bothStep host) is p = (runs (servStep host) is p.1, runs (servStep host) is p.2) := by
  induction is generalizing p with
  | nil => rfl
  | cons i is ih => exact ih (bothStep host i p)

theorem runs_visitStep (host : Host) (is : List Input) (p : Server × Server) :
    runs (visitStep host) is p =
      (runs (servStep host) is p.1, runs (servStep host) (is.map hideClient) p.2) := by
  induction is generalizing p with
  | nil => rfl
  | cons i is ih => exact ih (visitStep host i p)

/-- A calm server does not notice the visit it does not see. -/
theorem runs_hidden (host : Host) (s : Server) (h : Calm s) (hs : s.conn.sock = false) :
    runs (servStep host) (getVisit.map hideClient) s = s := by
  have hticks : ∀ n sys, (ticks n sys).map hideClient = ticks n (Sys.hide sys) := by
    intro n sys
    simp only [ticks, List.map_replicate]
    rfl
  have hidle : ∀ sys, (Sys.hide sys).select = .ready {} →
      runs (servStep host) (ticks 11 (Sys.hide sys)) s = s := by
    intro sys hsel
    rw [runs_idle host s _ h hs hsel, ← h.pc]
  rw [getVisit, greeting]
  simp only [List.map_append, hticks, runs_append]
  rw [hidle _ rfl, hidle _ rfl, hidle _ rfl, hidle _ rfl]

/-- A full buffer that begins with an `X`. -/
def fullOutput : Bytes := 88 :: letters 16383

theorem fullOutput_length : fullOutput.length = 16384 := by
  rw [fullOutput, List.length_cons, letters, List.length_replicate]

theorem nonNul_fullOutput : nonNul fullOutput = fullOutput := by
  apply List.filter_eq_self.mpr
  intro c hc
  rcases List.mem_cons.mp hc with rfl | hc
  · decide
  · rw [List.eq_of_mem_replicate hc]
    decide

/-- The `X` is only in the whole of it. -/
theorem not_mem_of_end (p : Nat) (h : (nonNul (fullOutput.drop p)).length < 16384) :
    (88 : UInt8) ∉ nonNul (fullOutput.drop p) := by
  cases p with
  | zero =>
    rw [List.drop_zero, nonNul_fullOutput, fullOutput_length] at h
    omega
  | succ p =>
    intro hmem
    have hdrop : (88 : UInt8) ∈ (letters 16383).drop p := (List.mem_filter.mp hmem).1
    have heq : (88 : UInt8) = 97 := List.eq_of_mem_replicate (List.mem_of_mem_drop hdrop)
    exact absurd heq (by decide)

/-- A server at rest that has read `got`, and nobody has asked for it. -/
structure Unread (got : Bytes) (s : Server) : Prop where
  calm : Calm s
  sock : s.conn.sock = false
  hist : s.hist = { stream := got }
  ntotal : s.buf.ntotal = got.length
  newcnt : s.buf.newcnt = got.length
  rawnew : s.buf.rawnew = 0
  rawoffset : s.buf.rawoffset = 0
  expoffset : s.buf.expoffset = 0
  expcnt : s.buf.expcnt = 0
  windows : ∃ mark, Windows s mark

theorem unreadServer_unread (got : Bytes) (hgot : got ≠ []) (hlen : got.length ≤ sizeRawBuf) :
    Unread got (unreadServer got) := by
  have hwindows : ∃ mark, Windows (unreadServer got) mark :=
    freshServer_initial.windows.runs plainHost (ticks 3 {} ++ ticks 11 (arriving got))
  rw [unreadServer_eq got hgot hlen] at hwindows ⊢
  exact ⟨⟨rfl, rfl, rfl, rfl, rfl, Nat.zero_le _, Nat.zero_le _⟩, rfl, rfl, Nat.zero_add _,
    Nat.zero_add _, rfl, rfl, rfl, rfl, hwindows⟩

/-- When `serv_expect` is called for a visitor, the string in the buffer is the
text that was pending before the visit. -/
theorem exactAsked_text (s : Server) (mark : Nat) (hw : Windows s mark) (h : Calm s)
    (hs : s.conn.sock = false) (hnew : 0 < s.buf.newcnt) (hfits : Fits (markSent s.buf)) :
    ∃ e : Server, runs (servStep plainHost) (exactAsked (ascii "X")) s = e ∧ e.pc = .expect ∧
      e.conn = exactConn (ascii "X") ∧ e.ptmOpen = true ∧
      cstring e.buf.expbuf = pending s.hist.stream s.buf := by
  obtain ⟨b, hcopy⟩ := (bufRaw2expect_isSome _).mpr hfits
  have hrun := runs_exactAsked plainHost s (ascii "X") b h hs hnew hcopy
  obtain ⟨mark', hwe⟩ := hw.runs plainHost (exactAsked (ascii "X"))
  rw [hrun] at hwe
  refine ⟨_, hrun, rfl, rfl, h.ptm, ?_⟩
  rw [cstring_pending hwe rfl]
  simp only
  rw [pending_bufRaw2expect hw.raw.markSent (hw.exp.withRaw ⟨rfl, rfl, rfl⟩) hcopy,
    pending_markSent]

/-- A server that was not visited still has the whole output to match. -/
theorem Unread.matched {s : Server} (h : Unread fullOutput s) :
    (runs (servStep plainHost) (exactVisit (ascii "X")) s).hist.sent.getLast? =
      some (ttlvNewBool Tag.matched 1) := by
  obtain ⟨hcalm, hsock, hhist, hn, hc, hw, hr, ho, he, mark, hwin⟩ := h
  rw [fullOutput_length] at hn hc
  have hsize := sizeRawBuf_eq
  have hfits : Fits (markSent s.buf) := by
    rw [fits_kept] <;> simp only [markSent] <;> omega
  obtain ⟨e, hrun, hpc, hconn, hptm, htext⟩ := exactAsked_text s mark hwin hcalm hsock (by omega) hfits
  rw [exactVisit, runs_append, hrun]
  apply runs_matched plainHost e _ (ascii "X") 0 hpc hconn hptm rfl
  rw [htext, hhist, pending_kept (by omega), he, ho, List.drop_zero, nonNul_fullOutput]
  exact strstr_front 88 (letters 16383)

/-- One that was visited has lost the first half of it. -/
theorem Unread.unmatched {s : Server} (h : Unread fullOutput s) :
    (runs (servStep plainHost) getVisit s).pc = .head ∧
    (runs (servStep plainHost) getVisit s).conn.sock = false ∧
    (runs (servStep plainHost) getVisit s).hist.sent.map (·.tag) =
      [Tag.hello, Tag.info, Tag.disconn] ∧
    (runs (servStep plainHost) (exactVisit (ascii "X"))
      (runs (servStep plainHost) getVisit s)).hist.sent.getLast? =
        some (servNewError ErrorCode.timeout (ascii "expect timed out")) := by
  obtain ⟨hcalm, hsock, hhist, hn, hc, hw, hr, ho, he, mark, hwin⟩ := h
  rw [fullOutput_length] at hn hc
  have hsize := sizeRawBuf_eq
  have hmax := maxOldData_eq
  have hlen := fullOutput_length
  have hfits : Fits s.buf := by
    rw [fits_kept] <;> omega
  obtain ⟨b, hcopy⟩ := (bufRaw2expect_isSome _).mpr hfits
  -- the copy of the whole output, and what is left of it
  obtain ⟨hsame, hoff, -, -, hcnt⟩ := bufRaw2expect_spec hwin.raw hcopy
  have hcatch : catchUp s.buf = s.buf := if_neg (by omega)
  have hcnt' : b.expcnt = 16384 := by
    have hcopied : (nonNul (segment s.hist.stream s.buf.expoffset s.buf.ntotal)).length = 16384 := by
      rw [ho, hwin.raw.read, segment_to_end, List.drop_zero, hhist, nonNul_fullOutput]
      exact hlen
    rw [hcatch] at hcnt
    omega
  obtain ⟨hd1, hd2, hd3, hd4, hd5, hd6⟩ := dropOldData_counts b
  have hraw := hwin.raw.bufRaw2expect hcopy
  have hexp := hwin.exp.bufRaw2expect hwin.raw hcopy
  have hleft : (pending s.hist.stream (dropOldData b)).length = 8192 := by
    have hnew : b.rawnew - maxOldData = 0 := by
      rw [hsame.rawnew, hw]
      omega
    have hdrop : s.hist.stream.drop s.buf.ntotal = [] := by rw [hwin.raw.read, List.drop_length]
    rw [pending_dropOldData_length hraw hexp, survivors, hnew, hsame.rawoffset, hr, hoff, hdrop,
      if_neg (by omega), hcnt', hmax]
    rfl
  obtain ⟨reply, htag, hvisit⟩ := runs_getVisit plainHost s b hcalm hsock hcopy (by omega) (by omega)
  obtain ⟨mark', hwin'⟩ := hwin.runs plainHost getVisit
  rw [hvisit] at hwin' ⊢
  refine ⟨hcalm.pc, rfl, ?_, ?_⟩
  · simp only [hhist, List.nil_append, List.map_cons, List.map_nil, htag]
    rfl
  · have hro := hsame.rawoffset
    have hrw := hsame.rawnew
    have hnt := hsame.ntotal
    have hnc := hsame.newcnt
    have hfits' : Fits (markSent (dropOldData b)) := by
      rw [fits_kept] <;> simp only [markSent] <;> omega
    obtain ⟨e, hrun, hpc, hconn, hptm, htext⟩ := exactAsked_text _ mark' hwin'
      ⟨hcalm.pc, hcalm.spawn, hcalm.ptm, hcalm.alive, hcalm.waited, by simp only; omega,
        by simp only; omega⟩ rfl (by simp only; omega) hfits'
    rw [exactVisit, runs_append, hrun]
    apply runs_unmatched plainHost e _ (ascii "X") hpc hconn hptm rfl
    obtain ⟨p, hp⟩ := pending_suffix hwin'.raw hwin'.exp
    simp only [hhist] at htext hp hleft
    rw [hp] at htext hleft
    rw [htext]
    exact strstr_none _ 88 (not_mem_of_end p (by omega))

/-- A `get` that changes a later answer.  A full buffer of output that begins with
an `X` is unread.  Behind the visit of a `get` client, which got its reply and left,
`expect -t 0 -exact X` times out; without that visit it matches. -/
theorem get_loses_output :
    Reaches (servStep plainHost) (fun _ _ => True) freshServer (unreadServer fullOutput) ∧
      (unreadServer fullOutput).pc = .head ∧ (unreadServer fullOutput).conn.sock = false ∧
      (∀ i ∈ getVisit, GetInput i) ∧
      (runs (visitStep plainHost) getVisit
        (unreadServer fullOutput, unreadServer fullOutput)).1.pc = .head ∧
      (runs (visitStep plainHost) getVisit
        (unreadServer fullOutput, unreadServer fullOutput)).1.conn.sock = false ∧
      (runs (visitStep plainHost) getVisit
        (unreadServer fullOutput, unreadServer fullOutput)).1.hist.sent.map (·.tag) =
          [Tag.hello, Tag.info, Tag.disconn] ∧
      (runs (bothStep plainHost) (exactVisit (ascii "X")) (runs (visitStep plainHost) getVisit
        (unreadServer fullOutput, unreadServer fullOutput))).1.hist.sent.getLast? =
          some (servNewError ErrorCode.timeout (ascii "expect timed out")) ∧
      (runs (bothStep plainHost) (exactVisit (ascii "X")) (runs (visitStep plainHost) getVisit
        (unreadServer fullOutput, unreadServer fullOutput))).2.hist.sent.getLast? =
          some (ttlvNewBool Tag.matched 1) := by
  have hsize := sizeRawBuf_eq
  have hlen := fullOutput_length
  have hunread := unreadServer_unread fullOutput (List.cons_ne_nil _ _) (by omega)
  obtain ⟨hpc, hgone, htags, htimeout⟩ := hunread.unmatched
  refine ⟨Reaches.start.runs _ (admitted_true _ _), hunread.calm.pc, hunread.sock,
    by decide +kernel, ?_⟩
  rw [runs_bothStep, runs_visitStep]
  refine ⟨hpc, hgone, htags, htimeout, ?_⟩
  simp only [runs_hidden plainHost _ hunread.calm hunread.sock]
  exact hunread.matched

end Sexpect.Guarantees
