import Sexpect.Guarantees.CommandSessions

/-!
# Sessions of `interact`, and leaving them

The user of an `interact` may press Ctrl-] at any moment, which sends `DISCONN`
and waits in `cli_disconn` (client.c:135-173), where nothing but output and the
server's `DISCONN` is expected.  If the server has replied in the meantime the
reply is a `bug(...)` there and an exit status in it is lost (`detach_crossing`).
On the runs without such a crossing (`Clean`) the client never gets there, and an
`EXITED` becomes its exit code: the server that has sent it stays alive until it
is told good-bye (`Alive`), so that the session can always be brought to its end.
-/
namespace Sexpect.Guarantees
open Sexpect.Lib Sexpect.Source

/-- The condition on a step: a clean one, in which no system call of the server
fails for good. -/
def DetachCondition (host : Host) (p : Session) (e : Event) : Prop :=
  Clean host p e ∧ match e with
    | .server (.tick sys) => sys.ok = true ∧ sys.select ≠ .error
    | _ => True

instance (host : Host) (p : Session) : ∀ e, Decidable (DetachCondition host p e)
  | .server (.tick sys) =>
    inferInstanceAs (Decidable (_ ∧ sys.ok = true ∧ sys.select ≠ .error))
  | .server (.child _) | .server .sigCHLD | .deliver | .stdin _ | .winch _ _ | .hangup =>
    inferInstanceAs (Decidable (_ ∧ True))

/-- A server that has replied is alive as long as it is connected. -/
def Alive (p : Session) : Prop :=
  (∃ t ∈ p.toClient, Terminal t) → p.server.conn.sock = true → Pc.dead p.server.pc = false

theorem not_terminal_hello : ¬ Terminal msgHello := by
  rintro (h | h | h | h | h | h | ⟨code, text, h⟩)
  case inr.inr.inr.inr.inr.inr =>
    have htag := congrArg Ttlv.tag h
    rw [servNewError_tag] at htag
    cases htag
  all_goals cases h

/-- Behind a reply the server waits for typed messages and the good-bye, or the
connection is closed. -/
theorem Phase.replied {cmd : Cmd} {request : Ttlv} {dead waiting sock passing : Bool}
    {out inn : List Ttlv} {received taken : Nat} {pc : CliPc}
    (h : Phase cmd request dead waiting sock passing out received inn taken pc)
    (ht : ∃ t ∈ out, Terminal t) :
    waiting = false ∧ (sock = false ∨ passing = false ∧ ∀ m, inn[taken]? = some m →
      (m.tag = Tag.input ∨ ∃ row col, m = winchMsg row col) ∨ m = msgDisconn) := by
  obtain ⟨t, hmem, ht⟩ := ht
  have hnone : ∀ outs, Payloads cmd outs → t ∈ msgHello :: outs → False := by
    intro outs houts hmem
    rcases List.mem_cons.mp hmem with rfl | hmem
    · exact not_terminal_hello ht
    · exact ht.tag_ne (houts.1 t hmem)
  have hempty : Payloads cmd [] := ⟨by simp, by simp⟩
  have hmid : ∀ more rest : List Ttlv, 2 ≤ taken → Typed cmd more →
      (∀ m ∈ rest, m = msgDisconn) → ∀ m, (msgHello :: request :: (more ++ rest))[taken]? = some m →
      (m.tag = Tag.input ∨ ∃ row col, m = winchMsg row col) ∨ m = msgDisconn := by
    intro more rest h2 hmore hrest m hm
    obtain ⟨k, rfl⟩ : ∃ k, taken = k + 2 := ⟨taken - 2, by omega⟩
    rw [List.getElem?_cons_succ, List.getElem?_cons_succ] at hm
    rcases List.mem_append.mp (List.mem_of_getElem? hm) with hm | hm
    · exact .inl (hmore.1 m hm)
    · exact .inr (hrest m hm)
  cases h with
  | queued | accepted => cases hmem
  | welcomed => exact (hnone [] hempty hmem).elim
  | asked more hmore => exact (hnone [] hempty hmem).elim
  | stuck => exact (hnone [] hempty hmem).elim
  | passing outs more houts => exact (hnone outs houts hmem).elim
  | leaving outs more houts => exact (hnone outs houts hmem).elim
  | answered outs t' more houts ht' hmore hr1 hr2 ht1 ht2 =>
    refine ⟨rfl, .inr ⟨rfl, fun m hm => ?_⟩⟩
    exact hmid more [] ht1 hmore (by simp) m (by simpa using hm)
  | confirmed outs t' more houts ht' hmore hr ht1 ht2 =>
    exact ⟨rfl, .inr ⟨rfl, hmid more _ ht1 hmore (by simp)⟩⟩
  | parted | gone | left | detached => exact ⟨rfl, .inl rfl⟩

/-- How many stretches an idle server with a message on its connection needs to
take it. -/
def Pc.rank : Pc → Nat
  | .waitPts => 18
  | .setNonblock => 17
  | .installHandler => 16
  | .accept fds => if fds.sock then 4 else 15
  | .readPtm fds => if fds.sock then 3 else 14
  | .nonblock fds => if fds.sock then 2 else 13
  | .recv fds => if fds.sock then 1 else 12
  | .pass => 11
  | .drop => 10
  | .head => 9
  | .nowait => 8
  | .zombie => 7
  | .limits => 6
  | .select => 5
  | _ => 0

/-- An idle server with a connection goes on, and when a message is waiting there
it comes closer to taking it. -/
theorem tick_alive (host : Host) (sys : Sys) (s : Server) (hf : Flow s) (hw : Watching s)
    (hsock : s.conn.sock = true) (hpass : s.conn.passing = false) (hlive : Pc.dead s.pc = false)
    (hno : s.receives = false) (hok : sys.ok = true) (hsel : sys.select ≠ .error) :
    Pc.dead (tick host sys s).pc = false ∧
      ((∃ fds, sys.select = .ready fds ∧ fds.sock = true) →
        Pc.rank (tick host sys s).pc < Pc.rank s.pc) := by
  have hflow : ¬ (s.pc = .copy ∨ s.pc = .expect ∨ s.pc = .ending) := by
    intro hat
    obtain ⟨-, hon, -⟩ := hf.passing hat
    rw [hpass] at hon
    cases hon
  simp only [tick]
  cases hpc : s.pc with
  | waitPts | setNonblock => simp [hok, Pc.dead, Pc.rank]
  | installHandler => simp [Pc.dead, Pc.rank]
  | head =>
    simp only [loopHead, hsock]
    rw [if_neg (by simp)]
    split <;> simp [Pc.dead, Pc.rank]
  | nowait =>
    simp only [loopNowait, hsock]
    rw [if_neg (by simp)]
    simp [Pc.dead, Pc.rank]
  | zombie =>
    simp only [loopZombie, hsock]
    rw [if_neg (by simp)]
    simp [Pc.dead, Pc.rank]
  | limits =>
    simp only [loopLimits, hsock]
    rw [if_neg (by simp), if_neg (by simp)]
    simp [Pc.dead, Pc.rank]
  | select =>
    simp only [loopSelect]
    split
    · rename_i hintr
      simp [hintr, Pc.dead]
    · rename_i herr
      exact absurd herr hsel
    · rename_i ready hready
      refine ⟨rfl, ?_⟩
      rintro ⟨fds, heq, hfds⟩
      cases hready.symm.trans heq
      simp [Pc.rank, hfds, hsock]
  | accept fds =>
    simp only [loopAccept]
    split
    · rename_i hlisten
      have hclosed := hw.listen fds hpc hlisten
      rw [hsock] at hclosed
      cases hclosed
    · cases h : fds.sock <;> simp [Pc.dead, Pc.rank, h]
  | readPtm fds => cases h : fds.sock <;> simp [loopReadPtm, Pc.dead, Pc.rank, h]
  | nonblock fds =>
    simp only [loopNonblock]
    split <;> cases h : fds.sock <;> simp [Pc.dead, Pc.rank, h]
  | recv fds =>
    have hnone : fds.sock = false := by
      by_contra hyes
      rw [(receives_iff s).mpr ⟨fds, hpc, hsock, by simpa using hyes⟩] at hno
      cases hno
    simp [loopRecv, hnone, Pc.dead, Pc.rank]
  | pass => simp [servPassOutput, hpass, Pc.dead, Pc.rank]
  | copy => exact absurd (.inl hpc) hflow
  | expect => exact absurd (.inr (.inl hpc)) hflow
  | ending => exact absurd (.inr (.inr hpc)) hflow
  | drop => simp [Pc.dead, Pc.rank]
  | exited | aborted | crashed =>
    rw [hpc] at hlive
    cases hlive

/-- A connection comes from `accept` only. -/
theorem tick_sock (host : Host) (sys : Sys) (s : Server) (hf : Flow s) (hclosed : s.conn.sock = false)
    (hopen : (tick host sys s).conn.sock = true) :
    ∃ fds, s.pc = .accept fds ∧ fds.listen = true := by
  have ht := servStep_talks host (.tick sys) s hf
  simp only [servStep] at ht
  generalize tick host sys s = s' at ht hopen
  cases ht with
  | quiet hq =>
    obtain ⟨lookback, hc, -⟩ := hq.conn
    rw [hc, hclosed] at hopen
    cases hopen
  | old =>
    rw [hclosed] at hopen
    cases hopen
  | accepted fds hpc hready _ => exact ⟨fds, hpc, hready⟩
  | received fds hpc hsock _ | output _ hpc hsock | replied _ hpc hsock =>
    rw [hclosed] at hsock
    cases hsock

section

variable {cmd : Cmd} {request : Ttlv} {p : Session}

theorem Alive.tick (ha : Alive p) (h : Linked cmd request p) (hreq : Asks cmd request) (host : Host)
    (sys : Sys) (hclean : Clean host p (.server (.tick sys))) (hok : sys.ok = true)
    (hsel : sys.select ≠ .error) : Alive (sessionServer host p (.tick sys)) := by
  obtain ⟨mark, hw⟩ := h.windows
  obtain ⟨new, hnew, -, halive⟩ := h.heard hreq host sys hclean
  rintro ⟨t, hmem, ht⟩ hopen
  simp only [sessionServer, servStep, Session.toClient, hnew] at hmem hopen ⊢
  rw [List.drop_append_of_le_length h.base] at hmem
  rcases List.mem_append.mp hmem with hmem | hmem
  · obtain ⟨hwait, hclosed | ⟨hpass, hnext⟩⟩ := h.phase.replied ⟨t, hmem, ht⟩
    · obtain ⟨fds, hpc, hlisten⟩ := tick_sock host _ p.server hw.flow hclosed hopen
      rw [h.listen fds hpc hlisten] at hwait
      cases hwait
    · by_cases hr : p.server.receives = true
      · obtain ⟨fds, m, -, hsock, hmsg, htick⟩ := h.tick_receives host sys hr
        rw [htick]
        rcases hnext m hmsg with htyped | rfl
        · rw [(dispatch_typed host (p.sys sys) m _ htyped).2.2]
          rfl
        · rw [dispatch_disconn host (p.sys sys) { p.server with pc := .pass } hsock rfl]
          rfl
      · have hsock : p.server.conn.sock = true := by
          by_contra hclosed
          obtain ⟨fds, hpc, hlisten⟩ :=
            tick_sock host _ p.server hw.flow (by simpa using hclosed) hopen
          rw [h.listen fds hpc hlisten] at hwait
          cases hwait
        have hsel' : (p.sys sys).select ≠ .error := by
          simp only [Session.sys]
          split
          · simp
          · exact hsel
        exact (tick_alive host (p.sys sys) p.server hw.flow h.watching hsock hpass
          (ha ⟨t, hmem, ht⟩ hsock) (by simpa using hr) hok hsel').1
  · exact halive ⟨t, hmem, ht⟩

theorem Alive.step (ha : Alive p) (h : Linked cmd request p) (hreq : Asks cmd request) (host : Host)
    (e : Event) (hcond : DetachCondition host p e) (hlasts : e ≠ .hangup) :
    Alive (sessionStep host e p) := by
  obtain ⟨hclean, hsys⟩ := hcond
  cases e with
  | hangup => exact absurd rfl hlasts
  | server i =>
    cases i with
    | tick sys => exact ha.tick h hreq host sys hclean hsys.1 hsys.2
    | child e =>
      obtain ⟨child, pending, hs⟩ := childChange_frame e p.server
      simp only [sessionStep, sessionServer, servStep, hs]
      exact ha
    | sigCHLD =>
      obtain ⟨pending, flag, hs⟩ := servSigCHLD_frame p.server
      simp only [sessionStep, sessionServer, servStep, hs]
      exact ha
  | deliver =>
    simp only [sessionStep, sessionDeliver]
    split <;> exact ha
  | stdin bs => exact ha
  | winch row col => exact ha

/-! ## The way to the end -/

/-- An idle server says nothing of its own. -/
theorem tick_idle (host : Host) (sys : Sys) (s : Server) (hf : Flow s) (hw : Watching s)
    (hsock : s.conn.sock = true) (hpass : s.conn.passing = false) (hno : s.receives = false) :
    (tick host sys s).conn.sock = true ∧ (tick host sys s).hist.sent = s.hist.sent := by
  have ht := servStep_talks host (.tick sys) s hf
  simp only [servStep] at ht
  generalize tick host sys s = s' at ht ⊢
  cases ht with
  | quiet hq =>
    obtain ⟨lookback, hc, -⟩ := hq.conn
    exact ⟨by rw [hc]; exact hsock, hq.sent⟩
  | old => exact ⟨hsock, rfl⟩
  | accepted fds hpc hready _ =>
    rw [hw.listen fds hpc hready] at hsock
    cases hsock
  | received fds hpc hs hready =>
    rw [(receives_iff s).mpr ⟨fds, hpc, hs, hready⟩] at hno
    cases hno
  | output _ _ _ hon | replied _ _ _ hon =>
    rw [hpass] at hon
    cases hon

theorem exitedCode_nonneg (status : Int) : 0 ≤ exitedCode status := by
  unfold exitedCode
  split
  · omega
  · split
    · omega
    · decide

/-- Behind an `EXITED` either the client has ended with its code, or a message to
the client or to the server is under way. -/
theorem Phase.exited {dead waiting sock passing : Bool} {out inn : List Ttlv}
    {received taken : Nat} {pc : CliPc}
    (h : Phase cmd request dead waiting sock passing out received inn taken pc) (status : BitVec 32)
    (hmem : ttlvNewInt Tag.exited status ∈ out) :
    (∀ code, pc = .exited code → code = exitedCode status.toInt) ∧
      (pc = .exited (exitedCode status.toInt) ∨ received < out.length ∨
        sock = true ∧ passing = false ∧ taken < inn.length) := by
  have hexited : Terminal (ttlvNewInt Tag.exited status) :=
    .inr (.inr (.inr (.inr (.inr (.inl rfl)))))
  have hno : ∀ outs, Payloads cmd outs → ttlvNewInt Tag.exited status ∈ msgHello :: outs → False := by
    intro outs houts hmem
    rcases List.mem_cons.mp hmem with heq | hmem
    · have htag := congrArg Ttlv.tag heq
      cases htag
    · exact hexited.tag_ne (houts.1 _ hmem)
  have hempty : Payloads cmd [] := ⟨by simp, by simp⟩
  -- only the reply can be an `EXITED`
  have hreply : ∀ (outs rest : List Ttlv) (t : Ttlv), Payloads cmd outs →
      (∀ m ∈ rest, m = msgDisconn) → ttlvNewInt Tag.exited status ∈ msgHello :: (outs ++ t :: rest) →
      t = ttlvNewInt Tag.exited status := by
    intro outs rest t houts hrest hmem
    rcases List.mem_cons.mp hmem with heq | hmem
    · exact (hno [] hempty (by rw [heq]; simp)).elim
    · rcases List.mem_append.mp hmem with hmem | hmem
      · exact (hno outs houts (List.mem_cons_of_mem _ hmem)).elim
      · rcases List.mem_cons.mp hmem with heq | hmem
        · exact heq.symm
        · have htag := congrArg Ttlv.tag (hrest _ hmem)
          cases htag
  cases h with
  | queued | accepted => cases hmem
  | welcomed => exact (hno [] hempty hmem).elim
  | asked more hmore => exact (hno [] hempty hmem).elim
  | stuck => exact (hno [] hempty hmem).elim
  | passing outs more houts => exact (hno outs houts hmem).elim
  | leaving outs more houts => exact (hno outs houts hmem).elim
  | answered outs t more houts ht hmore hr1 hr2 =>
    refine ⟨by simp, .inr (.inl ?_)⟩
    simp only [List.length_cons, List.length_append, List.length_nil]
    omega
  | confirmed outs t more houts ht hmore hr ht1 ht2 =>
    refine ⟨by simp, .inr (.inr ⟨rfl, rfl, ?_⟩)⟩
    simp only [List.length_cons, List.length_append, List.length_nil]
    omega
  | parted outs t more houts ht hmore hr ht3 =>
    refine ⟨by simp, .inr (.inl ?_)⟩
    simp only [List.length_cons, List.length_append, List.length_nil]
    omega
  | gone outs t more houts ht hmore hr ht3 =>
    have heq : t = ttlvNewInt Tag.exited status := hreply outs [msgDisconn] t houts (by simp) hmem
    have hcode : finalCode (replyCodes cmd t) = exitedCode status.toInt := by
      rw [heq]
      exact if_pos (exitedCode_nonneg status.toInt)
    rw [hcode]
    exact ⟨fun code h => by cases h; rfl, .inl rfl⟩
  | left outs more houts | detached outs more houts =>
    rcases List.mem_cons.mp hmem with heq | hmem
    · exact (hno [] hempty (by rw [heq]; simp)).elim
    · rcases List.mem_append.mp hmem with hmem | hmem
      · exact (hno outs houts (List.mem_cons_of_mem _ hmem)).elim
      · have htag := congrArg Ttlv.tag (List.mem_singleton.mp hmem)
        cases htag

/-- What is left to do: messages for the client, messages for the server, and the
way of the server to the next of them. -/
def left (p : Session) : Nat × Nat × Nat :=
  (p.toClient.length + (if p.server.conn.sock then 1 else 0) - p.received,
    p.client.sent.length - p.taken, Pc.rank p.server.pc)

/-- The answers when the connection is readable, if it is. -/
def readable : Sys := { select := .ready { sock := true } }

/-- Behind an `EXITED` a stretch of the server brings the session closer to its
end. -/
theorem left_tick (h : Linked cmd request p) (ha : Alive p) (host : Host) (t : Ttlv)
    (hmem : t ∈ p.toClient) (ht : Terminal t) (hsock : p.server.conn.sock = true)
    (hpass : p.server.conn.passing = false) (htaken : p.taken < p.client.sent.length) :
    WellFoundedRelation.rel (left (sessionServer host p (.tick readable))) (left p) := by
  obtain ⟨mark, hw⟩ := h.windows
  obtain ⟨-, hclosed | ⟨-, hnext⟩⟩ := h.phase.replied ⟨t, hmem, ht⟩
  · rw [hsock] at hclosed
    cases hclosed
  · by_cases hr : p.server.receives = true
    · obtain ⟨fds, m, -, -, hmsg, htick⟩ := h.tick_receives host readable hr
      have hfirst : (left (sessionServer host p (.tick readable))).1 = (left p).1 := by
        simp only [left, sessionServer, servStep, Session.toClient, htick]
        rcases hnext m hmsg with htyped | rfl
        · obtain ⟨hc, hs, -⟩ := dispatch_typed host (p.sys readable) m
            { p.server with pc := .pass } htyped
          rw [hc, hs]
        · rw [dispatch_disconn host (p.sys readable) { p.server with pc := .pass } hsock rfl]
          simp only [List.drop_append_of_le_length h.base, List.length_append, hsock]
          rfl
      have hsecond : (left (sessionServer host p (.tick readable))).2.1 < (left p).2.1 := by
        simp only [left, sessionServer, hr, if_true]
        omega
      rw [← Prod.eta (left (sessionServer host p (.tick readable))), ← Prod.eta (left p), hfirst]
      exact .right _ (.left _ _ hsecond)
    · have hno : p.server.receives = false := by simpa using hr
      obtain ⟨hopen, hsent⟩ := tick_idle host (p.sys readable) p.server hw.flow h.watching hsock hpass
        hno
      have hsel : (p.sys readable).select = .ready { sock := true } := by
        simp [Session.sys, readable, htaken]
      have hrank := (tick_alive host (p.sys readable) p.server hw.flow h.watching hsock hpass
        (ha ⟨t, hmem, ht⟩ hsock) hno rfl (by rw [hsel]; simp)).2 ⟨_, hsel, rfl⟩
      have heq : left (sessionServer host p (.tick readable)) =
          ((left p).1, (left p).2.1, Pc.rank (tick host (p.sys readable) p.server).pc) := by
        simp only [left, sessionServer, servStep, Session.toClient, hopen, hsent, hsock, hno]
        rfl
      rw [heq, ← Prod.eta (left p)]
      exact .right _ (.right _ hrank)

/-- Behind an `EXITED` the session can always be brought to its end. -/
theorem exists_end (h : Linked cmd request p) (ha : Alive p) (hreq : Asks cmd request) (host : Host)
    (status : BitVec 32) (hmem : ttlvNewInt Tag.exited status ∈ p.toClient) :
    ∃ es, Admitted (sessionStep host) (DetachCondition host) es p ∧
      (runs (sessionStep host) es p).client.pc = .exited (exitedCode status.toInt) := by
  have hexited : Terminal (ttlvNewInt Tag.exited status) :=
    .inr (.inr (.inr (.inr (.inr (.inl rfl)))))
  apply exists_runs
    (fun p => Linked cmd request p ∧ Alive p ∧ ttlvNewInt Tag.exited status ∈ p.toClient)
    (fun p => p.client.pc = .exited (exitedCode status.toInt)) left _ p ⟨h, ha, hmem⟩
  rintro p ⟨h, ha, hmem⟩
  obtain ⟨-, hdone | hdeliver | ⟨hsock, hpass, htaken⟩⟩ := h.phase.exited status hmem
  · exact .inl hdone
  · right
    have hcond : DetachCondition host p .deliver := ⟨trivial, trivial⟩
    obtain ⟨m, hm⟩ : ∃ m, p.toClient[p.received]? = some m := ⟨_, List.getElem?_eq_getElem hdeliver⟩
    have hstep : sessionStep host .deliver p =
        { p with client := cliRecv m p.client, received := p.received + 1 } := by
      simp only [sessionStep, sessionDeliver, hm]
    refine ⟨.deliver, hcond, ⟨h.step hreq host _ trivial (by simp),
      ha.step h hreq host _ hcond (by simp), ?_⟩, ?_⟩
    · rw [hstep]
      exact hmem
    · rw [hstep]
      have hlt : (left { p with client := cliRecv m p.client, received := p.received + 1 }).1 <
          (left p).1 := by
        simp only [Session.toClient] at hdeliver
        simp only [left, Session.toClient]
        omega
      exact .left _ _ hlt
  · right
    obtain ⟨mark, hw⟩ := h.windows
    have hquiet : replies host (p.sys readable) p.server = false := by
      unfold replies
      split
      · rename_i hpc
        obtain ⟨-, hon, -⟩ := hw.flow.passing (.inr (.inl hpc))
        rw [hpass] at hon
        cases hon
      · rename_i hpc
        obtain ⟨-, hon, -⟩ := hw.flow.passing (.inr (.inr hpc))
        rw [hpass] at hon
        cases hon
      · rfl
    have hclean : Clean host p (.server (.tick readable)) := fun _ _ => hquiet
    have hcond : DetachCondition host p (.server (.tick readable)) :=
      ⟨hclean, rfl, by simp [readable]⟩
    refine ⟨_, hcond,
      ⟨h.step hreq host _ hclean (by simp), ha.step h hreq host _ hcond (by simp), ?_⟩,
      left_tick h ha host _ hmem hexited hsock hpass htaken⟩
    obtain ⟨new, hnew, -⟩ := h.heard hreq host readable hclean
    simp only [sessionStep, sessionServer, servStep, Session.toClient, hnew]
    rw [List.drop_append_of_le_length h.base]
    exact List.mem_append_left _ hmem

end

/-- Leaving an `interact`.  In every run of an `interact` client, with or without
a pattern, and the server whose steps all meet `DetachCondition`, the client
reaches no `bug(...)` branch.  When the server has sent `EXITED`, a client that has
ended has ended with the code of that status, and one that has not can be brought
there. -/
theorem detach_clean (host : Host) (tty : Bool) (opts : StPass) (request : Ttlv) (s₀ s : Server)
    (p : Session) (hreq : cliMain tty (.pass .interact opts) = .message request) (h₀ : Initial s₀)
    (hs : Reaches (servStep host) (fun _ _ => True) s₀ s) (hfree : s.conn.sock = false)
    (hrun : Reaches (sessionStep host) (DetachCondition host)
      (sessionStart (cliConnect (.pass .interact opts) request) s) p) :
    p.client.bugs = [] ∧
      ∀ status, ttlvNewInt Tag.exited status ∈ p.toClient →
        (∀ code, p.client.pc = .exited code → code = exitedCode status.toInt) ∧
          ∃ es, Admitted (sessionStep host) (DetachCondition host) es p ∧
            (runs (sessionStep host) es p).client.pc = .exited (exitedCode status.toInt) := by
  have hasks : Asks (.pass .interact opts) request := ⟨tty, hreq⟩
  obtain ⟨mark, hw⟩ := reaches_windows host h₀ hs
  have hstart : Linked (.pass .interact opts) request
      (sessionStart (cliConnect (.pass .interact opts) request) s) ∧
      Alive (sessionStart (cliConnect (.pass .interact opts) request) s) := by
    refine ⟨linked_start hw (reaches_watching host h₀ hs) hfree, ?_⟩
    rintro ⟨t, hmem, -⟩
    simp [Session.toClient, sessionStart] at hmem
  have hstep : ∀ p e, Linked (.pass .interact opts) request p ∧ Alive p → DetachCondition host p e →
      e ≠ .hangup → Linked (.pass .interact opts) request (sessionStep host e p) ∧
        Alive (sessionStep host e p) := by
    rintro p e ⟨hl, ha⟩ hcond hlasts
    exact ⟨hl.step hasks host e hcond.1 hlasts, ha.step hl hasks host e hcond hlasts⟩
  have hapart : ∀ p i, (∀ sys, i ≠ .tick sys) → DetachCondition host p (.server i) := by
    intro p i hi
    refine ⟨clean_apart host p hi, ?_⟩
    cases i with
    | tick sys => exact absurd rfl (hi sys)
    | child | sigCHLD => trivial
  obtain ⟨⟨hlinked, halive⟩, -⟩ | ⟨q, ⟨hlinked, halive⟩, hhung⟩ :=
    reaches_hung (fun _ => And.left) hapart hstep hstart rfl hrun
  · refine ⟨hlinked.client.bugs, fun status hmem => ⟨?_, ?_⟩⟩
    · exact (hlinked.phase.exited status hmem).1
    · exact exists_end hlinked halive hasks host status hmem
  · rw [hhung.lost, cliLost_waiting hhung.waits]
    refine ⟨hlinked.client.bugs, fun status hmem => ?_⟩
    have hno := hhung.waits
    obtain ⟨-, hend | hmore | ⟨hsock, -, -⟩⟩ := hlinked.phase.exited status hmem
    · rw [Client.waits, hend] at hno
      cases hno
    · exact absurd hhung.heard (Nat.ne_of_lt hmore)
    · have hreplied : ∃ t ∈ q.toClient, Terminal t :=
        ⟨_, hmem, .inr (.inr (.inr (.inr (.inr (.inl rfl)))))⟩
      have hdead := halive hreplied hsock
      rw [hhung.dead] at hdead
      cases hdead

/-- `sexpect interact` until its child has exited with status 7 and the server has
said so. -/
def exitEvents : List Event :=
  (ticks 3 {} ++ ticks 11 connecting ++ ticks 11 readable).map .server ++ [.deliver] ++
    (ticks 13 readable).map .server ++ [.server (.child .terminate), .server .sigCHLD] ++
    (ticks 12 { select := .ready { ptm := true }, ptm := [.eof], status := 0x700 }).map .server

/-- The client of `sexpect interact`. -/
def interactClient : Client :=
  cliConnect (.pass .interact { noInput := false, expflags := passExpectExit })
    (passRequest .interact { noInput := false, expflags := passExpectExit })

theorem detach_clean_exit :
    ∃ es, Admitted (sessionStep plainHost) (DetachCondition plainHost) es
        (runs (sessionStep plainHost) exitEvents (sessionStart interactClient freshServer)) ∧
      (runs (sessionStep plainHost) es
        (runs (sessionStep plainHost) exitEvents
          (sessionStart interactClient freshServer))).client.pc = .exited 7 := by
  have hrun : Reaches (sessionStep plainHost) (DetachCondition plainHost)
      (sessionStart interactClient freshServer)
      (runs (sessionStep plainHost) exitEvents (sessionStart interactClient freshServer)) :=
    Reaches.start.runs _ (by decide +kernel)
  have hmem : ttlvNewInt Tag.exited 0x700 ∈ (runs (sessionStep plainHost) exitEvents
      (sessionStart interactClient freshServer)).toClient := by decide +kernel
  exact ((detach_clean plainHost true _ _ freshServer freshServer _ (by decide) freshServer_initial
    .start rfl hrun).2 0x700 hmem).2

/-- The same, but the user presses Ctrl-] before the client has read the news. -/
def crossingEvents : List Event :=
  exitEvents ++ [.stdin detachKey, .deliver] ++ (ticks 10 readable).map .server ++ [.deliver]

/-- The server has sent `EXITED` with status 7; the client meets it in
`cli_disconn`, where it is not supposed to, and ends with the code for leaving. -/
theorem detach_crossing :
    ttlvNewInt Tag.exited 0x700 ∈ (runs (sessionStep plainHost) crossingEvents
        (sessionStart interactClient freshServer)).toClient ∧
      (runs (sessionStep plainHost) crossingEvents
        (sessionStart interactClient freshServer)).client.bugs = [.disconnTag] ∧
      (runs (sessionStep plainHost) crossingEvents
        (sessionStart interactClient freshServer)).client.pc = .exited ErrorCode.detach ∧
      exitedCode (0x700#32).toInt = 7 := by
  decide +kernel

end Sexpect.Guarantees
