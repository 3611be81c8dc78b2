import Sexpect.Guarantees.UnsentReply

/-!
# The request of the next client

The state in which the request has come in again is known (`Asked`), and so is
what `serv_pass` makes of it: it sends what a lookback shows, searches the text
that is left, and reports a match when there is one (`Ready.answers_matched_iff`)
or else the end of the output (`Ready.answers_eof`).
-/
namespace Sexpect.Guarantees
open Sexpect.Lib Sexpect.Source

/-- The request of `s` has come in again, behind the failure that left `s₁`. -/
structure Asked (s : Server) (m : Ttlv) (s₁ s₃ : Server) : Prop where
  pc : s₃.pc = .pass
  sock : s₃.conn.sock = true
  passing : s₃.conn.passing = true
  subcmd : s₃.conn.subcmd = s.conn.subcmd
  expflags : s₃.conn.expflags = s.conn.expflags
  pattern : s₃.conn.pattern = s.conn.pattern
  lookback : s₃.conn.lookback = lookbackOf m
  expout : s.conn.pattern.isSome = true → s₃.expout = List.replicate expectOutNum none
  buf : s₃.buf = dropOldData s₁.buf

theorem Idle.asked {s s₁ s₂ : Server} {m : Ttlv} (h : Idle s₁ s₂) (host : Host) (sys : Sys)
    (hm : AsksAgain s m) (hrec : received s₂ (.tick sys) = some m) :
    Asked s m s₁ (tick host sys s₂) ∧ (tick host sys s₂).ptmOpen = s₂.ptmOpen := by
  obtain ⟨sys', fds, heq, hpc, hsock, hready, hmsg⟩ := received_eq_some hrec
  cases heq
  have hfresh := h.fresh hsock
  have hkept : s₂.buf = dropOldData s₁.buf := h.buf.resolve_right fun hb => by simp [hpc] at hb
  have htick : tick host sys s₂ = processPass m { s₂ with pc := .pass } := by
    simp [tick, hpc, loopRecv, hsock, hready, servProcessMsg, hmsg, dispatch_pass host sys m _ hm.tag]
  have hchildren : ¬ (ttlvFindChild m Tag.passSubcmd = .null ∨
      ttlvFindChild m Tag.expFlags = .null) := by
    rintro (hnull | hnull)
    · exact hm.hasSubcmd hnull
    · exact hm.hasFlags hnull
  rw [htick, processPass]
  simp only [if_neg hchildren]
  refine ⟨⟨rfl, hsock, rfl, hm.subcmd, hm.expflags, ?_, ?_, ?_, hkept⟩, trivial⟩
  · simp only [hfresh]
    exact hm.pattern
  · simp only [hfresh, lookbackOf]
  · intro hsome
    apply if_neg
    intro hnull
    have hpattern := hm.pattern
    rw [if_pos hnull] at hpattern
    rw [← hpattern] at hsome
    cases hsome

/-- It can be served: all output was sent and copied, and a lookback finds its start. -/
structure Ready (s : Server) (m : Ttlv) (s₁ s₃ : Server) : Prop extends Asked s m s₁ s₃ where
  newcnt : s₃.buf.newcnt = 0
  start : 0 < lookbackOf m → lookbackStart (lookbackOf m) s₃.buf ≠ none
  windows : ∃ mark, Windows s₃ mark
  copied : s₃.buf.expoffset = s₃.buf.ntotal

/-- Nothing is copied again: the buffer is terminated and searched as it is. -/
theorem copied_again {stream : Bytes} {mark : Nat} {b : Buffers} (hraw : RawWindow stream b)
    (hexp : ExpectWindow stream mark b) (hoff : b.expoffset = b.ntotal) :
    ∃ b', bufRaw2expect b = some b' ∧ b'.expcnt = b.expcnt ∧ b'.newcnt = b.newcnt ∧
      cstring b'.expbuf = b.expbuf.take b.expcnt := by
  have htotal := hraw.total
  have hcount := hexp.count
  have hsize := hexp.size
  have hcatch : catchUp b = b := if_neg (by omega)
  have hcopy : bufRaw2expect b = some { b with
      expoffset := b.ntotal
      expbuf := writeAt b.expbuf b.expcnt [0] } := by
    rw [bufRaw2expect, hcatch, copyRaw]
    simp [hoff, hcount]
  refine ⟨_, hcopy, rfl, rfl, ?_⟩
  have hterm := bufRaw2expect_terminated hexp hraw hcopy
  have hwin := hexp.bufRaw2expect hraw hcopy
  rw [cstring_of_window hwin hterm]
  have hlen : (b.expbuf.take b.expcnt).length = b.expcnt := List.length_take_of_le (by omega)
  simp only [writeAt, List.append_assoc]
  exact List.take_left' hlen

theorem output_ne_matched {o : Ttlv} (h : o.tag = Tag.output) : o.tag ≠ Tag.matched := by
  rw [h]
  decide

/-- The end of `serv_pass` reports no match. -/
theorem servPassEnd_unmatched (sys : Sys) (s : Server) :
    ∃ l, (servPassEnd sys s).hist.sent = s.hist.sent ++ l ∧ ∀ o ∈ l, o.tag ≠ Tag.matched := by
  have hsend : ∀ t (s' : Server), s'.hist = s.hist → t.tag ≠ Tag.matched →
      ∃ l, (stopPassing (servMsgSend sys.sent t s')).hist.sent = s.hist.sent ++ l ∧
        ∀ o ∈ l, o.tag ≠ Tag.matched := by
    intro t s' hh ht
    rw [stopPassing_hist]
    unfold servMsgSend msgOut closeSock
    split
    · exact ⟨[], by simp [hh], by simp⟩
    · split
      · exact ⟨[t], by simp [hh], by simpa using ht⟩
      · exact ⟨[], by simp [hh], by simp⟩
  have hsame : ∃ l, s.hist.sent = s.hist.sent ++ l ∧ ∀ o ∈ l, o.tag ≠ Tag.matched :=
    ⟨[], by simp, by simp⟩
  unfold servPassEnd
  split
  · split
    · exact hsend _ _ rfl (by decide)
    · split
      · split
        · split
          · exact hsame
          · exact hsend _ _ rfl (by simp [ttlvNewInt, ttlvNew, Ttlv.tag, Tag.exited, Tag.matched])
        · exact hsame
      · exact hsend _ _ rfl (by rw [servNewError_tag]; decide)
  · split
    · exact hsend _ _ rfl (by rw [servNewError_tag]; decide)
    · exact hsame

section

variable {s s₁ s₃ : Server} {m : Ttlv}

/-- A lookback without a start ends the server. -/
theorem Asked.crashes (h : Asked s m s₁ s₃) (host : Host) (hpos : 0 < lookbackOf m)
    (hlost : lookbackStart (lookbackOf m) s₃.buf = none) (sys : Nat → Sys) (n : Nat) :
    (served host sys s₃ n).hist.sent = s₃.hist.sent := by
  have hgone : ∀ n, (served host sys s₃ (n + 1)).pc = .crashed ∧
      (served host sys s₃ (n + 1)).hist.sent = s₃.hist.sent := by
    intro n
    induction n with
    | zero =>
      change (tick host (sys 0) s₃).pc = .crashed ∧ (tick host (sys 0) s₃).hist.sent = _
      have hback : ¬ s₃.conn.lookback ≤ 0 := by
        rw [h.lookback]
        omega
      rw [← h.lookback] at hlost
      simp [tick, h.pc, servPassOutput, h.sock, h.passing, hback, hlost]
    | succ n ih =>
      have hstep : served host sys s₃ (n + 2) = served host sys s₃ (n + 1) := by
        change tick host (sys (n + 1)) (served host sys s₃ (n + 1)) = _
        simp only [tick, ih.1]
      rw [hstep]
      exact ih
  cases n with
  | zero => rfl
  | succ n => exact (hgone n).2

/-- The output of the second request: nothing new, but what the lookback shows. -/
theorem Ready.output (h : Ready s m s₁ s₃) (host : Host) (sys : Sys) (hsent : sys.sent = true) :
    ∃ lookback outs, (∀ o ∈ outs, o.tag = Tag.output) ∧ tick host sys s₃ =
      { s₃ with
        pc := .copy
        conn := { s₃.conn with lookback := lookback }
        hist := { s₃.hist with sent := s₃.hist.sent ++ outs } } := by
  have hsame : markSent s₃.buf = s₃.buf := by
    simp only [markSent, h.newcnt, Nat.add_zero]
    rw [← h.newcnt]
  have hgo : ¬ (¬ s₃.conn.sock = true ∨ ¬ s₃.conn.passing = true) := by
    simp [h.sock, h.passing]
  -- one `OUTPUT` or none
  have hsend : ∀ psend lookback, ∃ outs, (∀ o ∈ outs, o.tag = Tag.output) ∧
      sendOutput sys psend { s₃ with conn := { s₃.conn with lookback := lookback } } =
        { s₃ with
          pc := .copy
          conn := { s₃.conn with lookback := lookback }
          hist := { s₃.hist with sent := s₃.hist.sent ++ outs } } := by
    intro psend lookback
    by_cases hpos : s₃.buf.rawnew + s₃.buf.newcnt - psend > 0
    · refine ⟨[outputFrom psend s₃.buf], ?_, ?_⟩
      · intro o ho
        rw [List.mem_singleton.mp ho]
        rfl
      · simp [sendOutput, hpos, servMsgSend, msgOut, h.sock, hsent, hsame, outputFrom]
    · refine ⟨[], by simp, ?_⟩
      simp [sendOutput, hpos]
  have htick : tick host sys s₃ = servPassOutput sys s₃ := by simp only [tick, h.pc]
  rw [htick, servPassOutput, if_neg hgo]
  split
  · obtain ⟨outs, htags, heq⟩ := hsend s₃.buf.rawnew s₃.conn.lookback
    exact ⟨s₃.conn.lookback, outs, htags, heq⟩
  · rename_i hpos
    rw [h.lookback] at hpos
    have hfound := h.start (by omega)
    rw [← h.lookback] at hfound
    simp only
    split
    · rename_i hlost
      exact absurd hlost hfound
    · rename_i psend hpsend
      obtain ⟨outs, htags, heq⟩ := hsend psend 0
      exact ⟨0, outs, htags, heq⟩

/-- The second request at its search, with what was sent on the way. -/
structure Searching (s₃ c : Server) (outs : List Ttlv) : Prop where
  tags : ∀ o ∈ outs, o.tag = Tag.output
  same : ∃ lookback buf, c = { s₃ with
    pc := .expect
    conn := { s₃.conn with lookback := lookback }
    buf := buf
    hist := { s₃.hist with sent := s₃.hist.sent ++ outs } }
  expcnt : c.buf.expcnt = s₃.buf.expcnt
  newcnt : c.buf.newcnt = 0
  text : cstring c.buf.expbuf = s₃.buf.expbuf.take s₃.buf.expcnt

theorem Ready.searching (h : Ready s m s₁ s₃) (host : Host) (sys : Nat → Sys)
    (hsent : ∀ k, (sys k).sent = true) (hpattern : s.conn.pattern.isSome = true) :
    ∃ outs, (served host sys s₃ 1).hist.sent = s₃.hist.sent ++ outs ∧
      Searching s₃ (served host sys s₃ 2) outs := by
  obtain ⟨mark, hw⟩ := h.windows
  obtain ⟨lookback, outs, htags, hone⟩ := h.output host (sys 0) (hsent 0)
  obtain ⟨buf, hcopy, hcnt, hnew, htext⟩ := copied_again hw.raw hw.exp h.copied
  obtain ⟨p, hp⟩ : ∃ p, s₃.conn.pattern = some p := by
    rw [h.pattern]
    exact Option.isSome_iff_exists.mp hpattern
  have htwo : served host sys s₃ 2 =
      { s₃ with
        pc := .expect
        conn := { s₃.conn with lookback := lookback }
        buf := buf
        hist := { s₃.hist with sent := s₃.hist.sent ++ outs } } := by
    change tick host (sys 1) (tick host (sys 0) s₃) = _
    rw [hone]
    simp only [tick, servPassCopy, hp, hcopy]
  refine ⟨outs, ?_, htags, ⟨lookback, buf, htwo⟩, ?_, ?_, ?_⟩
  · change (tick host (sys 0) s₃).hist.sent = _
    rw [hone]
  · rw [htwo]
    exact hcnt
  · rw [htwo]
    exact hnew.trans h.newcnt
  · rw [htwo]
    exact htext

/-- What the search looks at is what is left, with the pattern of the first request. -/
theorem Searching.asked {c : Server} {outs : List Ttlv} (hc : Searching s₃ c outs)
    (h : Asked s m s₁ s₃) (hpattern : s.conn.pattern.isSome = true) :
    c.pc = .expect ∧ c.conn.sock = true ∧ c.conn.expflags = s.conn.expflags ∧
      c.conn.pattern = s.conn.pattern ∧ c.expout = List.replicate expectOutNum none ∧
      c.ptmOpen = s₃.ptmOpen ∧ c.hist.sent = s₃.hist.sent ++ outs := by
  obtain ⟨lookback, buf, rfl⟩ := hc.same
  exact ⟨rfl, h.sock, h.expflags, h.pattern, h.expout hpattern, rfl, rfl⟩

/-- The search succeeds when something is found in the text. -/
theorem Ready.servExpect_iff (h : Ready s m s₁ s₃) (host : Host)
    (hpattern : s.conn.pattern.isSome = true) {c : Server} {outs : List Ttlv}
    (hc : Searching s₃ c outs) (s' : Server) :
    servExpect host (c.conn.pattern.getD []) c = (true, s') ↔
      (s₃.buf.expbuf.take s₃.buf.expcnt = [] → s₃.ptmOpen = true) ∧
      ∃ whole groups, found host.regex s.conn.expflags (s.conn.pattern.getD [])
          (s₃.buf.expbuf.take s₃.buf.expcnt) = some (whole, groups) ∧
        s' = { c with
          buf := keepAfter whole.2 c.buf
          expout := stored s.conn.expflags (s.conn.pattern.getD [])
            (s₃.buf.expbuf.take s₃.buf.expcnt) (List.replicate expectOutNum none) whole groups } := by
  obtain ⟨-, -, hflags, hpat, hout, hptm, -⟩ := hc.asked h.toAsked hpattern
  have hempty : s₃.buf.expbuf.take s₃.buf.expcnt = [] ↔ s₃.buf.expcnt = 0 := by
    obtain ⟨mark, hw⟩ := h.windows
    have hsize := hw.exp.size
    have hcount := hw.exp.count
    rw [← List.length_eq_zero_iff, List.length_take_of_le (by omega)]
  have hlook : Searches c ↔ (s₃.buf.expbuf.take s₃.buf.expcnt = [] → s₃.ptmOpen = true) := by
    rw [Searches, hc.expcnt, hptm, hempty]
    exact or_iff_not_imp_left.trans (by rw [not_not])
  rw [servExpect_eq_true_iff, hlook, hflags, hpat, hc.text, hout]

/-- Without a match none is reported. -/
theorem Ready.unmatched (h : Ready s m s₁ s₃) (host : Host) (sys : Nat → Sys)
    (hsent : ∀ k, (sys k).sent = true) (hpattern : s.conn.pattern.isSome = true)
    (hmiss : (servExpect host ((served host sys s₃ 2).conn.pattern.getD [])
      (served host sys s₃ 2)).1 = false) (n : Nat) (hn : n ≤ 4) :
    ∃ l, (served host sys s₃ n).hist.sent = s₃.hist.sent ++ l ∧ ∀ o ∈ l, o.tag ≠ Tag.matched := by
  obtain ⟨outs, hone, hc⟩ := h.searching host sys hsent hpattern
  obtain ⟨hpc, -, -, -, -, -, hsent2⟩ := hc.asked h.toAsked hpattern
  have houts : ∀ o ∈ outs, o.tag ≠ Tag.matched := fun o ho => output_ne_matched (hc.tags o ho)
  have hthree : (served host sys s₃ 3).pc = .ending ∧
      (served host sys s₃ 3).hist.sent = s₃.hist.sent ++ outs := by
    have hstep : served host sys s₃ 3 = servPassExpect host (sys 2) (served host sys s₃ 2) := by
      change tick host (sys 2) (served host sys s₃ 2) = _
      simp only [tick, hpc]
    obtain ⟨bugs, hend⟩ := servPassExpect_missed (sys 2) hmiss
    rw [hstep, hend]
    exact ⟨rfl, hsent2⟩
  have hcases : n = 0 ∨ n = 1 ∨ n = 2 ∨ n = 3 ∨ n = 4 := by omega
  rcases hcases with rfl | rfl | rfl | rfl | rfl
  · exact ⟨[], (List.append_nil _).symm, by simp⟩
  · exact ⟨outs, hone, houts⟩
  · exact ⟨outs, hsent2, houts⟩
  · exact ⟨outs, hthree.2, houts⟩
  · have hstep : served host sys s₃ 4 = servPassEnd (sys 3) (served host sys s₃ 3) := by
      change tick host (sys 3) (served host sys s₃ 3) = _
      simp only [tick, hthree.1]
    obtain ⟨l, hl, hplain⟩ := servPassEnd_unmatched (sys 3) (served host sys s₃ 3)
    refine ⟨outs ++ l, ?_, ?_⟩
    · rw [hstep, hl, hthree.2, List.append_assoc]
    · intro o ho
      rcases List.mem_append.mp ho with ho | ho
      · exact houts o ho
      · exact hplain o ho

/-- With a match it is the third stretch that reports it. -/
theorem Ready.matched (h : Ready s m s₁ s₃) (host : Host) (sys : Nat → Sys)
    (hsent : ∀ k, (sys k).sent = true) (hpattern : s.conn.pattern.isSome = true) {s' : Server}
    (hmatch : servExpect host ((served host sys s₃ 2).conn.pattern.getD [])
      (served host sys s₃ 2) = (true, s')) :
    ∃ outs, (∀ o ∈ outs, o.tag = Tag.output) ∧
      (served host sys s₃ 1).hist.sent = s₃.hist.sent ++ outs ∧
      (served host sys s₃ 2).hist.sent = s₃.hist.sent ++ outs ∧
      (served host sys s₃ 3).hist.sent = s₃.hist.sent ++ outs ++ [ttlvNewBool Tag.matched 1] ∧
      (served host sys s₃ 3).expout = s'.expout ∧ (served host sys s₃ 4).expout = s'.expout := by
  obtain ⟨outs, hone, hc⟩ := h.searching host sys hsent hpattern
  obtain ⟨hpc, hsock, -, -, -, -, hsent2⟩ := hc.asked h.toAsked hpattern
  have hthree : served host sys s₃ 3 =
      stopPassing (servMsgSend true (ttlvNewBool Tag.matched 1) s') := by
    change tick host (sys 2) (served host sys s₃ 2) = _
    simp only [tick, hpc, servPassExpect, hmatch, hsent 2]
  have hkept : s'.conn.sock = true ∧ s'.hist = (served host sys s₃ 2).hist := by
    obtain ⟨pos, expout, -, rfl⟩ := servExpect_matched _ _ _ _ hmatch
    exact ⟨hsock, rfl⟩
  have hout : (served host sys s₃ 3).expout = s'.expout := by
    rw [hthree]
    exact congrArg Prod.snd (aside_servMsgSend true (ttlvNewBool Tag.matched 1) s')
  refine ⟨outs, hc.tags, hone, hsent2, ?_, hout, ?_⟩
  · rw [hthree, stopPassing_hist, ← hsent2, ← hkept.2]
    simp [servMsgSend, msgOut, hkept.1]
  · rw [← hout]
    change (tick host (sys 3) (served host sys s₃ 3)).expout = _
    rw [hthree]
    rfl

/-- The second request is answered with a match when its text has one. -/
theorem Ready.answers_matched_iff (h : Ready s m s₁ s₃) (host : Host)
    (hpattern : s.conn.pattern.isSome = true) (strings : List (Option Bytes)) :
    Answers host s₃ (ttlvNewBool Tag.matched 1) strings ↔
      ∃ whole groups, found host.regex s.conn.expflags (s.conn.pattern.getD [])
          (s₃.buf.expbuf.take s₃.buf.expcnt) = some (whole, groups) ∧
        stored s.conn.expflags (s.conn.pattern.getD []) (s₃.buf.expbuf.take s₃.buf.expcnt)
          (List.replicate expectOutNum none) whole groups = strings ∧
        (s₃.buf.expbuf.take s₃.buf.expcnt = [] → s₃.ptmOpen = true) := by
  constructor
  · intro hans
    obtain ⟨n, outs', hn, -, hlog, hstrings⟩ := hans (fun _ => {}) (fun _ => rfl)
    rcases hexp : servExpect host ((served host (fun _ => {}) s₃ 2).conn.pattern.getD [])
        (served host (fun _ => {}) s₃ 2) with ⟨matched, s'⟩
    have hreported : ∀ l, s₃.hist.sent ++ l = s₃.hist.sent ++ outs' ++ [ttlvNewBool Tag.matched 1] →
        ttlvNewBool Tag.matched 1 ∈ l := by
      intro l hl
      rw [List.append_assoc, List.append_cancel_left_eq] at hl
      rw [hl]
      simp
    cases matched with
    | false =>
      obtain ⟨l, hl, hplain⟩ := h.unmatched host (fun _ => {}) (fun _ => rfl) hpattern
        (by rw [hexp]) n hn
      rw [hl] at hlog
      exact absurd rfl (hplain _ (hreported l hlog))
    | true =>
      obtain ⟨outs, htags, hone, htwo, -, hout3, hout4⟩ :=
        h.matched host (fun _ => {}) (fun _ => rfl) hpattern hexp
      obtain ⟨outs₀, -, hc⟩ := h.searching host (fun _ => {}) (fun _ => rfl) hpattern
      obtain ⟨hopen, whole, groups, hfound, rfl⟩ := (h.servExpect_iff host hpattern hc s').mp hexp
      refine ⟨whole, groups, hfound, ?_, hopen⟩
      -- before the third stretch there is output at most
      have hearly : ∀ l, (∀ o ∈ l, o.tag = Tag.output) →
          s₃.hist.sent ++ l ≠ s₃.hist.sent ++ outs' ++ [ttlvNewBool Tag.matched 1] :=
        fun l hl heq => output_ne_matched (hl _ (hreported l heq)) rfl
      have hcases : n = 0 ∨ n = 1 ∨ n = 2 ∨ n = 3 ∨ n = 4 := by omega
      rcases hcases with rfl | rfl | rfl | rfl | rfl
      · exact absurd ((List.append_nil _).trans hlog) (hearly [] (by simp))
      · exact absurd (hone.symm.trans hlog) (hearly outs htags)
      · exact absurd (htwo.symm.trans hlog) (hearly outs htags)
      · exact hout3.symm.trans (hstrings rfl)
      · exact hout4.symm.trans (hstrings rfl)
  · rintro ⟨whole, groups, hfound, rfl, hopen⟩ sys hsent
    obtain ⟨outs₀, -, hc⟩ := h.searching host sys hsent hpattern
    have hmatch := (h.servExpect_iff host hpattern hc _).mpr ⟨hopen, whole, groups, hfound, rfl⟩
    obtain ⟨outs, htags, -, -, hlog, hout, -⟩ := h.matched host sys hsent hpattern hmatch
    exact ⟨3, outs, by decide, htags, hlog, fun _ => hout⟩

theorem tick_eof (host : Host) (sys : Sys) (hsent : sys.sent = true) (t : Server)
    (hpc : t.pc = .ending) (hclosed : t.ptmOpen = false) (hnew : t.buf.newcnt = 0)
    (hflag : hasFlag t.conn.expflags passExpectEof = true) (hsock : t.conn.sock = true) :
    (tick host sys t).hist.sent = t.hist.sent ++ [ttlvNewStruct Tag.eof] := by
  simp [tick, hpc, servPassEnd, hclosed, hnew, hflag, servMsgSend, msgOut, hsock, hsent]

/-- The end of the output is reported again. -/
theorem Ready.answers_eof (h : Ready s m s₁ s₃) (host : Host) (hempty : s₃.buf.expcnt = 0)
    (hclosed : s₃.ptmOpen = false) (hflag : hasFlag s.conn.expflags passExpectEof = true)
    (strings : List (Option Bytes)) : Answers host s₃ (ttlvNewStruct Tag.eof) strings := by
  intro sys hsent
  have hunmatched : (ttlvNewStruct Tag.eof).tag = Tag.matched →
      ∀ n, (served host sys s₃ n).expout = strings := fun htag => by cases htag
  have hflag' : hasFlag s₃.conn.expflags passExpectEof = true := by
    rw [h.expflags]
    exact hflag
  cases hp : s.conn.pattern with
  | none =>
    obtain ⟨lookback, outs, htags, hone⟩ := h.output host (sys 0) (hsent 0)
    have htwo : ∃ buf : Buffers, buf.newcnt = 0 ∧ served host sys s₃ 2 =
        { s₃ with
          pc := .ending
          conn := { s₃.conn with lookback := lookback }
          buf := buf
          hist := { s₃.hist with sent := s₃.hist.sent ++ outs } } := by
      change ∃ buf : Buffers, buf.newcnt = 0 ∧ tick host (sys 1) (tick host (sys 0) s₃) = _
      rw [hone]
      simp only [tick, servPassCopy, h.pattern, hp]
      split
      · exact ⟨resetExp (s₃.buf.ntotal - s₃.buf.newcnt) s₃.buf, h.newcnt, rfl⟩
      · exact ⟨s₃.buf, h.newcnt, rfl⟩
    obtain ⟨buf, hbuf, htwo⟩ := htwo
    refine ⟨3, outs, by decide, htags, ?_, fun htag => hunmatched htag 3⟩
    change (tick host (sys 2) (served host sys s₃ 2)).hist.sent = _
    rw [htwo]
    exact tick_eof host (sys 2) (hsent 2) _ rfl hclosed hbuf hflag' h.sock
  | some p =>
    have hpattern : s.conn.pattern.isSome = true := by rw [hp]; rfl
    obtain ⟨outs, -, hc⟩ := h.searching host sys hsent hpattern
    obtain ⟨hpc, hsock, hflags, -, -, hptm, hsent2⟩ := hc.asked h.toAsked hpattern
    have hmiss : servExpect host ((served host sys s₃ 2).conn.pattern.getD [])
        (served host sys s₃ 2) = (false, served host sys s₃ 2) :=
      if_pos ⟨hc.expcnt.trans hempty, by simp [hptm, hclosed]⟩
    have hthree : served host sys s₃ 3 = { served host sys s₃ 2 with pc := .ending } := by
      change tick host (sys 2) (served host sys s₃ 2) = _
      simp only [tick, hpc, servPassExpect, hmiss]
    refine ⟨4, outs, by decide, hc.tags, ?_, fun htag => hunmatched htag 4⟩
    change (tick host (sys 3) (served host sys s₃ 3)).hist.sent = _
    rw [hthree, tick_eof host (sys 3) (hsent 3) { served host sys s₃ 2 with pc := .ending } rfl
      (hptm.trans hclosed) hc.newcnt (by rw [← hflag, ← hflags]) hsock]
    simp only [hsent2]

end

end Sexpect.Guarantees
