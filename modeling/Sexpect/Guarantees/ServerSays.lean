import Sexpect.Guarantees.Captures

/-!
# What the server says

`Says` names every message the server sends, with the message it answers and the fields of its
state it is made of.  A step adds nothing else to what was sent, and takes nothing back.
-/
namespace Sexpect.Guarantees
open Sexpect.Lib Sexpect.Source

/-- What ends a `PASS` request: the pattern is found, the output has ended and the flags say what
that means, or the time is up. -/
inductive Verdict (host : Host) (sys : Sys) (s : Server) : Ttlv → Prop
  | matched (s' : Server) (hpc : s.pc = .expect)
      (hmatch : servExpect host (s.conn.pattern.getD []) s = (true, s')) :
      Verdict host sys s (ttlvNewBool Tag.matched 1)
  | eof (hpc : s.pc = .ending) (hclosed : s.ptmOpen = false)
      (heof : hasFlag s.conn.expflags passExpectEof = true) :
      Verdict host sys s (ttlvNewStruct Tag.eof)
  | exited (hpc : s.pc = .ending) (hclosed : s.ptmOpen = false)
      (heof : hasFlag s.conn.expflags passExpectEof = false)
      (hexit : hasFlag s.conn.expflags passExpectExit = true) (hchild : s.sigChlded = true)
      (hwaited : s.waited = false) : Verdict host sys s (ttlvNewInt Tag.exited sys.status)
  | closed (hpc : s.pc = .ending) (hclosed : s.ptmOpen = false)
      (heof : hasFlag s.conn.expflags passExpectEof = false)
      (hexit : hasFlag s.conn.expflags passExpectExit = false) :
      Verdict host sys s (servNewError ErrorCode.eof (ascii "PTY closed"))
  | timeout (hpc : s.pc = .ending) (htime : expTimedOut sys s.conn.timeout = true) :
      Verdict host sys s (servNewError ErrorCode.timeout (ascii "expect timed out"))

/-- A message sent in the step with input `i` from `s`. -/
inductive Says (host : Host) (i : Input) (s : Server) : Ttlv → Prop
  | hello (m : Ttlv) (hm : received s i = some m) (htag : m.tag = Tag.hello) :
      Says host i s msgHello
  | mismatch (m : Ttlv) (hm : received s i = some m) (htag : m.tag = Tag.hello)
      (hver : version ≠ (ttlvFindChild m Tag.version).vText) :
      Says host i s (servNewError ErrorCode.proto
        (versionMismatch (ttlvFindChild m Tag.version).vText))
  | disconn (m : Ttlv) (hm : received s i = some m) (htag : m.tag = Tag.disconn) :
      Says host i s msgDisconn
  | done (m : Ttlv) (hm : received s i = some m)
      (htag : m.tag = Tag.send ∨ m.tag = Tag.close ∨ m.tag = Tag.kill ∨ m.tag = Tag.set) :
      Says host i s ack
  | unkilled (m : Ttlv) (sys : Sys) (text : Bytes) (hm : received s i = some m)
      (htag : m.tag = Tag.kill) (hi : i = .tick sys) (htext : sys.killError = some text) :
      Says host i s (servNewError ErrorCode.sys (ascii "kill: " ++ text))
  | stored (m : Ttlv) (hm : received s i = some m) (htag : m.tag = Tag.expout) :
      Says host i s (expoutReply m.vInt s.expout)
  | info (m : Ttlv) (buf : Buffers) (hm : received s i = some m) (htag : m.tag = Tag.info)
      (hbuf : bufRaw2expect s.buf = some buf) : Says host i s (infoReply host { s with buf := buf })
  | output (psend : Nat) (hpc : s.pc = .pass) : Says host i s (outputFrom psend s.buf)
  | reply (t : Ttlv) (sys : Sys) (hi : i = .tick sys) (ht : Verdict host sys s t) : Says host i s t

theorem Verdict.passReply {host : Host} {sys : Sys} {s : Server} {t : Ttlv}
    (h : Verdict host sys s t) : PassReply t := by
  cases h with
  | matched => exact .inl rfl
  | eof => exact .inr (.inl rfl)
  | exited => exact .inr (.inr (.inl ⟨_, rfl⟩))
  | closed => exact .inr (.inr (.inr (.inl rfl)))
  | timeout => exact .inr (.inr (.inr (.inr rfl)))

/-- The log with more messages, all of one kind. -/
def Adds (P : Ttlv → Prop) (log log' : List Ttlv) : Prop := ∃ new, log' = log ++ new ∧ ∀ t ∈ new, P t

section

variable {P : Ttlv → Prop} {log log' : List Ttlv} {host : Host} {s s' : Server} {sent : Bool} {m : Ttlv}

theorem Adds.nothing (h : log' = log) : Adds P log log' := ⟨[], by rw [h, List.append_nil], by simp⟩

theorem Adds.one (hm : P m) (h : log' = log ++ [m]) : Adds P log log' :=
  ⟨[m], h, fun _ ht => List.mem_singleton.mp ht ▸ hm⟩

theorem Adds.mono {Q : Ttlv → Prop} (h : Adds P log log') (hpq : ∀ t, P t → Q t) : Adds Q log log' := by
  obtain ⟨new, hnew, hall⟩ := h
  exact ⟨new, hnew, fun t ht => hpq t (hall t ht)⟩

theorem msgOut_adds (hm : P m) (hlog : s.hist.sent = log) : Adds P log (msgOut sent m s).hist.sent := by
  unfold msgOut
  split
  · exact .one hm (by rw [← hlog])
  · exact .nothing hlog

theorem servMsgSend_adds (hm : P m) (hlog : s.hist.sent = log) :
    Adds P log (servMsgSend sent m s).hist.sent := by
  unfold servMsgSend
  split
  · exact .nothing hlog
  · exact msgOut_adds hm hlog

theorem Posts.adds (h : Posts sent m s s') (hm : P m) : Adds P s.hist.sent s'.hist.sent := by
  have hlog := h.log
  split at hlog
  · exact .one hm hlog
  · exact .nothing hlog

/-- The answer to a message. -/
theorem dispatch_adds {sys : Sys} (hm : received s (.tick sys) = some m) :
    Adds (Says host (.tick sys) s) s.hist.sent
      (dispatch host sys m { s with pc := .pass }).hist.sent := by
  apply dispatch_cases (motive := fun s' => Adds (Says host (.tick sys) s) s.hist.sent s'.hist.sent)
  case hello =>
    intro htag
    unfold servHello
    split
    · exact .nothing rfl
    · dsimp only
      split
      · exact .nothing rfl
      · split
        · rename_i hver
          exact servMsgSend_adds (.mismatch m hm htag hver) rfl
        · exact msgOut_adds (.hello m hm htag) rfl
  case disconn =>
    intro htag
    unfold servDisconn
    split
    · exact .nothing rfl
    · exact msgOut_adds (.disconn m hm htag) rfl
  case send =>
    intro htag
    apply servMsgSend_adds (.done m hm (.inl htag))
    unfold writePtm
    split <;> rfl
  case input =>
    intro _
    unfold writePtm
    split <;> exact .nothing rfl
  case pass =>
    intro _
    unfold processPass
    dsimp only
    split <;> exact .nothing rfl
  case expout => exact fun htag => servMsgSend_adds (.stored m hm htag) rfl
  case winch =>
    intro _
    unfold processWinch
    split <;> exact .nothing rfl
  case close => exact fun htag => servMsgSend_adds (.done m hm (.inr (.inl htag))) rfl
  case kill =>
    intro htag
    apply servMsgSend_adds _ rfl
    unfold killReply
    split
    · rename_i text htext
      exact .unkilled m sys text hm htag rfl htext
    · exact .done m hm (.inr (.inr (.inl htag)))
  case set => exact fun htag => servMsgSend_adds (.done m hm (.inr (.inr (.inr htag)))) rfl
  case abort => exact fun _ _ => .nothing rfl
  case info => exact fun buf htag hbuf => servMsgSend_adds (.info m buf hm htag hbuf) rfl
  case other => exact .nothing rfl

theorem servPassExpect_adds (sys : Sys) (hpc : s.pc = .expect) :
    Adds (Verdict host sys s) s.hist.sent (servPassExpect host sys s).hist.sent := by
  unfold servPassExpect
  split
  · rename_i s' hmatch
    obtain ⟨expout, pos, -, rfl⟩ := servExpect_matched _ _ _ _ hmatch
    exact servMsgSend_adds (.matched _ hpc hmatch) rfl
  · rename_i s' hmiss
    obtain ⟨bugs, rfl⟩ := servExpect_failed _ _ _ _ hmiss
    exact .nothing rfl

theorem servPassEnd_adds (sys : Sys) (hpc : s.pc = .ending) :
    Adds (Verdict host sys s) s.hist.sent (servPassEnd sys s).hist.sent := by
  unfold servPassEnd
  split
  · rename_i hend
    have hclosed : s.ptmOpen = false := by simpa using hend.1
    split
    · rename_i heof
      exact servMsgSend_adds (.eof hpc hclosed heof) rfl
    · rename_i heof
      have heof' : hasFlag s.conn.expflags passExpectEof = false := by simpa using heof
      split
      · rename_i hexit
        split
        · rename_i hchild
          split
          · exact .nothing rfl
          · exact servMsgSend_adds
              (.exited hpc hclosed heof' hexit hchild.2 (by simpa using hchild.1)) rfl
        · exact .nothing rfl
      · rename_i hexit
        exact servMsgSend_adds (.closed hpc hclosed heof' (by simpa using hexit)) rfl
  · split
    · rename_i htime
      exact servMsgSend_adds (.timeout hpc htime) rfl
    · exact .nothing rfl

/-- A step takes nothing back of what was sent, and says what `Says` lists. -/
theorem servStep_adds (host : Host) (i : Input) (hf : Flow s) :
    Adds (Says host i s) s.hist.sent (servStep host i s).hist.sent := by
  have hverdict : ∀ sys, i = .tick sys → Adds (Verdict host sys s) s.hist.sent
      (servStep host i s).hist.sent → Adds (Says host i s) s.hist.sent (servStep host i s).hist.sent :=
    fun sys hi h => h.mono fun t ht => .reply t sys hi ht
  have htalks := servStep_talks host i s hf
  generalize hs' : servStep host i s = s' at htalks hverdict
  cases htalks with
  | quiet hq => exact .nothing hq.sent
  | old fds => exact .nothing rfl
  | accepted fds => exact .nothing rfl
  | received fds hpc hsock hready =>
    rename_i sys
    unfold servProcessMsg
    cases hmsg : sys.msg with
    | none => exact .nothing rfl
    | some m =>
      apply dispatch_adds
      simp only [received, hpc, hsock, hready, and_self, if_true, hmsg]
  | output psend hpc _ _ _ hpost => exact hpost.adds (.output psend hpc)
  | replied r hpc hsock hpass hnew hreply hpost hafter hconn hpos =>
    rename_i sys
    apply hverdict sys rfl
    rw [← hs']
    rcases hpc with hpc | hpc
    · have htick : servStep host (.tick sys) s = servPassExpect host sys s := by
        simp only [servStep, tick, hpc]
      rw [htick]
      exact servPassExpect_adds sys hpc
    · have htick : servStep host (.tick sys) s = servPassEnd sys s := by
        simp only [servStep, tick, hpc]
      rw [htick]
      exact servPassEnd_adds sys hpc

end

/-- Nothing that was sent is taken back. -/
theorem log_grows (host : Host) (i : Input) {s : Server} (hf : Flow s) :
    s.hist.sent <+: (servStep host i s).hist.sent := by
  obtain ⟨new, hnew, -⟩ := servStep_adds host i hf
  exact ⟨new, hnew.symm⟩

/-- Behind a match `expout` is as `serv_expect` leaves it. -/
theorem matched_expout {host : Host} {s s' : Server} (sys : Sys) (hpc : s.pc = .expect)
    (hexp : servExpect host (s.conn.pattern.getD []) s = (true, s')) :
    (tick host sys s).expout = s'.expout := by
  have htick : tick host sys s = servPassExpect host sys s := by simp only [tick, hpc]
  obtain ⟨_, _, hsend, -, -⟩ := servMsgSend_frame sys.sent (ttlvNewBool Tag.matched 1) s'
  rw [htick, servPassExpect, hexp]
  simp only [stopPassing, hsend]

end Sexpect.Guarantees
