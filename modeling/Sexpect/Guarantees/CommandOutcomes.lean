import Sexpect.Guarantees.CommandAnswers
import Sexpect.Guarantees.GetOutput

/-!
# What a command has done when it has ended

`command_outcome` reads off `Told` what the client of a command exits with and prints, and what it
leaves behind at the server.  `chkerr_tells` is what `sexpect chkerr` makes of the exit code of an
`expect`.
-/
namespace Sexpect.Guarantees
open Sexpect.Lib Sexpect.Source

/-- The settings behind a command. -/
def settingsBy : Cmd → Spawn → Spawn
  | .set opts, spawn => setParams opts spawn
  | _, spawn => spawn

/-- The string `expect_out` asks for. -/
def register (i : Nat) (expout : List (Option Bytes)) : Bytes := (expout[i]?.join).getD []

/-- The moment of a run at which the server takes the second message of the client, the request:
the session is `q`, and the system answers `sys`. -/
def TakenAt (host : Host) (start : Session) (events : List Event) (q : Session) (sys : Sys) : Prop :=
  ∃ before after, events = before ++ .server (.tick sys) :: after ∧
    q = runs (sessionStep host) before start ∧ q.taken = 1 ∧ q.server.receives = true

/-- The exit code of a command and what it has printed or done.  `Taken` tells the moment at which
the server took the request: `kill` reports what `kill` answered there, and `get` prints the end of
the expect buffer as it was there. -/
def Result (host : Host) (s : Server) (Taken : Session → Sys → Prop) (p : Session) (code : Int) :
    Cmd → Prop
  | .close => code = 0 ∧ p.server.ptmOpen = false
  | .send _ _ => code = 0
  | .set _ => code = 0
  | .kill _ => ∃ q sys, Taken q sys ∧ code = if sys.killError = none then 0 else ErrorCode.sys
  | .expectOut index =>
    if 0 ≤ (int32 index).toInt ∧ (int32 index).toInt < expectOutNum then
      code = 0 ∧ p.client.shown = [register (int32 index).toInt.toNat s.expout]
    else code = ErrorCode.usage ∧ p.client.shown = []
  | .get => code = 0 ∧ ∃ q sys buf, Taken q sys ∧ bufRaw2expect q.server.buf = some buf ∧
      ∃ t ∈ p.toClient, ∀ what, printInfo what t = some (infoText host s.spawn (peekOf buf) what)
  | .pass subcmd opts => ∃ t ∈ p.toClient, PassAnswer (passDefaults subcmd opts) s.spawn t code ∧
      ∀ r, Terminal r → (r ∈ p.toClient ↔ r = t)

/-- What a command leaves behind. -/
structure Outcome (host : Host) (s : Server) (cmd : Cmd) (Taken : Session → Sys → Prop) (p : Session)
    (code : Int) : Prop where
  result : Result host s Taken p code cmd
  settings : p.server.spawn = settingsBy cmd s.spawn
  registers : Registers host cmd s p
  asked : 2 ≤ p.taken
  free : p.server.conn.sock = false

/-- A command that `getargs` accepts, of C strings. -/
def Accepted (cmd : Cmd) : Prop :=
  ∃ env argv subs, CStrings argv ∧ getargs env argv = .ok (.command cmd subs)

theorem Accepted.sound {cmd : Cmd} (h : Accepted cmd) : Sound cmd := by
  obtain ⟨env, argv, subs, hargv, hcmd⟩ := h
  exact getargs_sound hargv hcmd

section

variable {host : Host} {cmd : Cmd} {request : Ttlv} {s : Server} {p : Session} {code : Int}

theorem finalCode_error {text : Bytes} (hpass : cmd.passing = false) (hcode : (int32 code).toInt = code) :
    finalCode (replyCodes cmd (servNewError code text)) = code := by
  have htag : (servNewError code text).tag = Tag.error := servNewError_tag code text
  have hne : ¬ Tag.error = Tag.eof := by decide
  rw [replyCodes, htag, if_neg hne, if_pos rfl, hpass, servNewError_code, hcode]
  rfl

theorem PassAnswer.final {opts : StPass} {spawn : Spawn} {t : Ttlv} (h : PassAnswer opts spawn t code)
    (hpass : cmd.passing = true) (hflags : cmd.expflags = opts.expflags) :
    finalCode (replyCodes cmd t) = code := by
  cases h with
  | matched => rfl
  | eof heof =>
    have htag : (ttlvNewStruct Tag.eof).tag = Tag.eof := rfl
    rw [replyCodes, htag, if_pos rfl, hflags, heof]
    rfl
  | exited status =>
    have htag : (ttlvNewInt Tag.exited status).tag = Tag.exited := rfl
    have hint : (ttlvNewInt Tag.exited status).vInt = status.toInt := rfl
    have hnonneg : 0 ≤ exitedCode status.toInt := by
      unfold exitedCode
      split
      · omega
      · split <;> omega
    rw [replyCodes, htag, if_neg (by decide), if_neg (by decide), if_pos rfl, hint, finalCode]
    simp only
    rw [if_pos hnonneg]
  | closed =>
    have htag := servNewError_tag ErrorCode.eof (ascii "PTY closed")
    rw [replyCodes, htag, if_neg (by decide), if_pos rfl, hpass, servNewError_code]
    decide
  | timeout =>
    have htag := servNewError_tag ErrorCode.timeout (ascii "expect timed out")
    rw [replyCodes, htag, if_neg (by decide), if_pos rfl, hpass, servNewError_code]
    decide

/-- How the conversation of a client that has ended went. -/
theorem Phase.over {dead waiting sock passing : Bool} {out inn : List Ttlv} {received taken : Nat}
    (h : Phase cmd request dead waiting sock passing out received inn taken (.exited code))
    (hint : cmd.isInteract = false) :
    ∃ outs t, Payloads cmd outs ∧ Terminal t ∧ out = msgHello :: (outs ++ [t, msgDisconn]) ∧
      received = out.length ∧ 2 ≤ taken ∧ sock = false ∧ code = finalCode (replyCodes cmd t) := by
  cases h with
  | gone outs t more houts ht hmore hr ht3 =>
    refine ⟨outs, t, houts, ht, rfl, ?_, by omega, rfl, rfl⟩
    simp only [List.length_cons, List.length_append, List.length_nil]
    omega
  | detached _ _ _ _ hyes =>
    rw [hint] at hyes
    cases hyes

theorem register_expoutReply {index : Int} (expout : List (Option Bytes))
    (h : 0 ≤ index ∧ index < expectOutNum) :
    (expoutReply index expout).tag = Tag.expoutText ∧
      (expoutReply index expout).vRaw = register index.toNat expout := by
  unfold expoutReply register
  rw [if_pos h]
  split
  · rename_i text hat
    rw [hat]
    exact ⟨rfl, rfl⟩
  · rename_i hno
    refine ⟨rfl, ?_⟩
    cases hat : expout[index.toNat]? with
    | none => rfl
    | some text =>
      cases text with
      | none => rfl
      | some text => exact absurd hat (hno text)

theorem not_terminal_disconn : ¬ Terminal msgDisconn := by
  rintro (h | h | h | h | h | h | ⟨code, text, h⟩)
  case inr.inr.inr.inr.inr.inr =>
    have htag := congrArg Ttlv.tag h
    rw [servNewError_tag] at htag
    cases htag
  all_goals cases h

/-! ## The moment of the request -/

/-- The server that took the request in the session `q` had the settings the client found, and the
replies since are what it then said. -/
structure Replied (host : Host) (request : Ttlv) (s : Server) (p q : Session) (sys : Sys) : Prop where
  spawn : q.server.spawn = s.spawn
  reply : ∀ t ∈ p.toClient, Terminal t →
    (dispatch host (q.sys sys) request { q.server with pc := .pass }).hist.sent =
      q.server.hist.sent ++ [t]

theorem servMsgSend_said {sent : Bool} {m t : Ttlv}
    (h : (servMsgSend sent m s).hist.sent = s.hist.sent ++ [t]) : t = m := by
  have hnothing : s.hist.sent ≠ s.hist.sent ++ [t] := by simp
  unfold servMsgSend at h
  split at h
  · exact absurd h hnothing
  · unfold msgOut at h
    split at h
    · exact (List.cons.inj (List.append_cancel_left h)).1.symm
    · exact absurd h hnothing

/-- The reply to `KILL` is what `kill` answered. -/
theorem Replied.killed {word : BitVec 32} {q : Session} {sys : Sys} {t : Ttlv}
    (h : Replied host (ttlvNewInt Tag.kill word) s p q sys) (hmem : t ∈ p.toClient) (hterm : Terminal t) :
    t = killReply sys := by
  have hdispatch : dispatch host (q.sys sys) (ttlvNewInt Tag.kill word) { q.server with pc := .pass } =
      servMsgSend true (killReply sys) { q.server with pc := .pass } := rfl
  have hsaid := h.reply t hmem hterm
  rw [hdispatch] at hsaid
  exact servMsgSend_said hsaid

theorem killReply_code (signal : Int) (sys : Sys) :
    finalCode (replyCodes (.kill signal) (killReply sys)) =
      if sys.killError = none then 0 else ErrorCode.sys := by
  unfold killReply
  cases sys.killError with
  | none => rfl
  | some text =>
    rw [if_neg (by simp)]
    exact finalCode_error rfl (by decide)

/-- The reply to `INFO` is made of the settings and the expect buffer of that moment. -/
theorem Replied.info {q : Session} {sys : Sys} {t : Ttlv}
    (h : Replied host (ttlvNewStruct Tag.info) s p q sys) (hmem : t ∈ p.toClient) (hterm : Terminal t) :
    ∃ buf, bufRaw2expect q.server.buf = some buf ∧ t = infoReply host { s with buf := buf } := by
  have hsaid := h.reply t hmem hterm
  have htag : (ttlvNewStruct Tag.info).tag = Tag.info := rfl
  simp only [dispatch, htag] at hsaid
  cases hbuf : bufRaw2expect q.server.buf with
  | none =>
    rw [hbuf] at hsaid
    simp [Tag.info, Tag.hello, Tag.disconn, Tag.send, Tag.input, Tag.pass, Tag.expout, Tag.winch,
      Tag.close, Tag.kill, Tag.set] at hsaid
  | some buf =>
    rw [hbuf] at hsaid
    have hsend : (servMsgSend true (infoReply host { q.server with pc := .pass, buf := buf })
        { q.server with pc := .pass, buf := buf }).hist.sent = q.server.hist.sent ++ [t] := hsaid
    refine ⟨buf, rfl, (servMsgSend_said hsend).trans ?_⟩
    simp only [infoReply, h.spawn]

theorem isInteract_of_passing (hpass : cmd.passing = false) : cmd.isInteract = false := by
  by_contra hint
  rw [isInteract_passing (by simpa using hint)] at hpass
  cases hpass

/-- A server that takes no message has nothing to say to a client whose request is answered at
once. -/
theorem Linked.silent (h : Linked cmd request p) (hpass : cmd.passing = false) (host : Host)
    (sys : Sys) (hno : p.server.receives = false) :
    (sessionServer host p (.tick sys)).toClient = p.toClient := by
  obtain ⟨mark, hw⟩ := h.windows
  have hidle : p.server.conn.sock = true → p.server.conn.passing = false := by
    intro hsock
    by_contra hpassing
    have hphase := h.phase
    rw [hsock, (by simpa using hpassing : p.server.conn.passing = true)] at hphase
    obtain ⟨hyes, -⟩ := hphase.underway (isInteract_of_passing hpass)
    rw [hpass] at hyes
    cases hyes
  have htalks := servStep_talks host (.tick (p.sys sys)) p.server hw.flow
  simp only [Session.toClient, sessionServer]
  generalize servStep host (.tick (p.sys sys)) p.server = s' at htalks ⊢
  cases htalks with
  | quiet hq => rw [hq.sent]
  | old | accepted => rfl
  | received fds hpc hsock hready =>
    rw [(receives_iff _).mpr ⟨fds, hpc, hsock, hready⟩] at hno
    cases hno
  | output psend hpc hsock hpassing | replied t hpc hsock hpassing =>
    rw [hidle hsock] at hpassing
    cases hpassing

/-- The step that takes the request says its one reply. -/
theorem Told.replies (h : Told host cmd request s p) (hreq : Asks cmd request)
    (hpass : cmd.passing = false) (sys : Sys) (htaken : p.taken = 1) (hsock : p.server.conn.sock = true)
    (hdispatch : (sessionServer host p (.tick sys)).server =
      dispatch host (p.sys sys) request { p.server with pc := .pass }) :
    Replied host request s (sessionServer host p (.tick sys)) p sys := by
  have hspawn := h.spawn
  rw [htaken, if_pos le_rfl] at hspawn
  have hdirect : direct request.tag := by
    obtain ⟨-, hdirect⟩ | ⟨subcmd, opts, rfl, -⟩ := hreq.cases
    · exact hdirect
    · cases hpass
  have hold : ∀ t ∈ p.toClient, ¬ Terminal t := by
    intro t ht
    have hearly := h.linked.phase.early (isInteract_of_passing hpass) (by omega)
    rw [List.mem_singleton.mp (hearly.subset ht)]
    exact not_terminal_hello
  have hout : (sessionServer host p (.tick sys)).toClient =
      (sessionServer host p (.tick sys)).server.hist.sent.drop p.base := rfl
  obtain ⟨-, ⟨t, -, hsaid, -⟩ | ⟨hsaid, -⟩⟩ := dispatch_direct host (p.sys sys) request
    { p.server with pc := .pass } hdirect hsock rfl
  · refine ⟨hspawn, fun t' ht' hterm => ?_⟩
    rw [hout, hdispatch, hsaid, List.drop_append_of_le_length h.linked.base] at ht'
    rcases List.mem_append.mp ht' with ht' | ht'
    · exact absurd hterm (hold t' ht')
    · rw [List.mem_singleton.mp ht']
      exact hsaid
  · refine ⟨hspawn, fun t' ht' hterm => ?_⟩
    rw [hout, hdispatch, hsaid] at ht'
    exact absurd hterm (hold t' ht')

/-- Every other step says no reply. -/
theorem Told.replies_step (h : Told host cmd request s p) (hreq : Asks cmd request)
    (hpass : cmd.passing = false) (e : Event) (hlasts : e ≠ .hangup)
    (htaken : 2 ≤ (sessionStep host e p).taken) :
    (2 ≤ p.taken ∧ ∀ t ∈ (sessionStep host e p).toClient, Terminal t → t ∈ p.toClient) ∨
      ∃ sys, e = .server (.tick sys) ∧ p.taken = 1 ∧ p.server.receives = true ∧
        Replied host request s (sessionStep host e p) p sys := by
  cases e with
  | hangup => exact absurd rfl hlasts
  | server i =>
    cases i with
    | tick sys =>
      have hlog := h.linked.silent hpass host sys
      have hturn := h.linked.turn (isInteract_of_passing hpass) host sys
      have hcount : (sessionServer host p (.tick sys)).taken =
          if p.server.receives then p.taken + 1 else p.taken := rfl
      have hout : (sessionServer host p (.tick sys)).toClient =
          (sessionServer host p (.tick sys)).server.hist.sent.drop p.base := rfl
      simp only [sessionStep] at htaken ⊢
      generalize hserver : (sessionServer host p (.tick sys)).server = s' at hturn hout
      generalize hn : (sessionServer host p (.tick sys)).taken = n at hturn hcount htaken
      cases hturn with
      | greeted => omega
      | asked hone hsock =>
        refine .inr ⟨sys, rfl, hone, ?_, h.replies hreq hpass sys hone hsock hserver⟩
        by_contra hno
        rw [if_neg hno] at hcount
        omega
      | parted htwo =>
        refine .inl ⟨by omega, fun t ht hterm => ?_⟩
        rw [hout, List.drop_append_of_le_length h.linked.base] at ht
        rcases List.mem_append.mp ht with ht | ht
        · exact ht
        · rw [List.mem_singleton.mp ht] at hterm
          exact absurd hterm not_terminal_disconn
      | alone hno =>
        refine .inl ⟨htaken, fun t ht _ => ?_⟩
        rwa [hlog hno] at ht
    | child e =>
      obtain ⟨child, pending, hs⟩ := childChange_frame e p.server
      simp only [sessionStep, sessionServer, servStep, hs] at htaken ⊢
      exact .inl ⟨htaken, fun _ ht _ => ht⟩
    | sigCHLD =>
      obtain ⟨pending, flag, hs⟩ := servSigCHLD_frame p.server
      simp only [sessionStep, sessionServer, servStep, hs] at htaken ⊢
      exact .inl ⟨htaken, fun _ ht _ => ht⟩
  | deliver =>
    simp only [sessionStep, sessionDeliver] at htaken ⊢
    split at htaken <;> exact .inl ⟨htaken, fun _ ht _ => ht⟩
  | stdin | winch => exact .inl ⟨htaken, fun _ ht _ => ht⟩

/-- The exit code of a client that has found the server ended. -/
theorem Hung.exit_code {q : Session} (h : Hung q p) (hend : p.client.pc = .exited code) :
    code = ErrorCode.proto := by
  rw [h.client] at hend
  cases hend
  rfl

theorem sessionStep_found (host : Host) (e : Event) (h : (sessionStep host e p).lost = false) :
    p.lost = false ∧ (e = .hangup → sessionStep host e p = p) := by
  by_cases hlasts : e = .hangup
  · subst hlasts
    simp only [sessionStep, sessionHangup] at h ⊢
    split at h
    · cases h
    · rename_i hno
      exact ⟨h, fun _ => if_neg hno⟩
  · rw [sessionStep_lost host hlasts] at h
    exact ⟨h, fun heq => absurd heq hlasts⟩

/-- A client of a command other than `interact` in any run. -/
theorem told_reaches {mark : Nat} (hw : Windows s mark) (hwatch : Watching s)
    (hfree : s.conn.sock = false) (hreq : Asks cmd request) (hint : cmd.isInteract = false)
    (hsound : Sound cmd)
    (hrun : Reaches (sessionStep host) (fun _ _ => True) (sessionStart (cliConnect cmd request) s) p) :
    Told host cmd request s p ∧ p.lost = false ∨ ∃ q, Told host cmd request s q ∧ Hung q p :=
  reaches_hung (fun _ h => h.linked) (fun _ _ _ => trivial)
    (fun _ e h _ hlasts => h.step hreq hint hsound e hlasts) (told_start hw hwatch hfree) rfl hrun

/-- In every run that has taken the request the moment is there. -/
theorem replied_runs {mark : Nat} (hw : Windows s mark) (hwatch : Watching s)
    (hfree : s.conn.sock = false) (hreq : Asks cmd request) (hsound : Sound cmd)
    (hpass : cmd.passing = false) (events : List Event) (p : Session)
    (hp : p = runs (sessionStep host) events (sessionStart (cliConnect cmd request) s))
    (hlasted : p.lost = false) (htaken : 2 ≤ p.taken) :
    ∃ q sys, TakenAt host (sessionStart (cliConnect cmd request) s) events q sys ∧
      Replied host request s p q sys := by
  induction events using List.reverseRecOn generalizing p with
  | nil =>
    have hnone : p.taken = 0 := by
      rw [hp]
      rfl
    omega
  | append_singleton events e ih =>
    rw [runs_snoc] at hp
    generalize hq : runs (sessionStep host) events (sessionStart (cliConnect cmd request) s) = p' at hp
    subst hp
    obtain ⟨hlasted', hstill⟩ := sessionStep_found host e hlasted
    -- the moment of the shorter run, with the replies of the longer one
    have hkeep : 2 ≤ p'.taken → (∀ t ∈ (sessionStep host e p').toClient, Terminal t → t ∈ p'.toClient) →
        ∃ q sys, TakenAt host (sessionStart (cliConnect cmd request) s) (events ++ [e]) q sys ∧
          Replied host request s (sessionStep host e p') q sys := by
      intro htaken' hsame
      obtain ⟨q, sys, ⟨before, after, hevents, hat⟩, hreplied⟩ := ih p' hq.symm hlasted' htaken'
      refine ⟨q, sys, ⟨before, after ++ [e], ?_, hat⟩, hreplied.spawn, ?_⟩
      · rw [hevents, List.append_assoc, List.cons_append]
      · exact fun t ht hterm => hreplied.reply t (hsame t ht hterm) hterm
    by_cases hlasts : e = .hangup
    · rw [hstill hlasts] at htaken hkeep ⊢
      exact hkeep htaken fun _ ht _ => ht
    have htold : Told host cmd request s p' := by
      have hreached : Reaches (sessionStep host) (fun _ _ => True)
          (sessionStart (cliConnect cmd request) s) p' := by
        rw [← hq]
        exact Reaches.start.runs _ (admitted_true _ _)
      rcases told_reaches hw hwatch hfree hreq (isInteract_of_passing hpass) hsound hreached with
        ⟨htold, -⟩ | ⟨q, -, hhung⟩
      · exact htold
      · rw [hhung.lost] at hlasted'
        cases hlasted'
    rcases htold.replies_step hreq hpass e hlasts htaken with ⟨htaken', hsame⟩ |
      ⟨sys, rfl, hone, hreceives, hreplied⟩
    · exact hkeep htaken' hsame
    · exact ⟨p', sys, ⟨events, [], rfl, hq.symm, hone, hreceives⟩, hreplied⟩

/-! ## The outcome -/

theorem Told.outcome (h : Told host cmd request s p) (hreq : Asks cmd request)
    (hint : cmd.isInteract = false) (hsound : Sound cmd) {Taken : Session → Sys → Prop}
    (hmoment : cmd.passing = false → 2 ≤ p.taken → ∃ q sys, Taken q sys ∧ Replied host request s p q sys)
    (hend : p.client.pc = .exited code) : Outcome host s cmd Taken p code := by
  have hphase := h.linked.phase
  rw [hend] at hphase
  obtain ⟨outs, t, houts, hterm, hout, hreceived, htaken, hfree, hcode⟩ := hphase.over hint
  have hmem : t ∈ p.toClient := by
    rw [hout]
    simp
  have hspawn := h.spawn
  rw [if_neg (by omega)] at hspawn
  have hanswer : Answer host s cmd t := by
    rcases h.heard t hmem with rfl | rfl | htag | hanswer
    · exact absurd hterm not_terminal_hello
    · exact absurd hterm not_terminal_disconn
    · exact absurd htag hterm.tag_ne
    · exact hanswer
  have hshown : cmd.passing = false → p.client.shown = payloads [t] := by
    intro hpass
    have hnone : outs = [] := by
      by_contra hne
      rw [houts.2 hne] at hpass
      cases hpass
    have hsides : payloads [msgHello] = [] ∧ payloads [msgDisconn] = [] := by decide
    have hsplit : p.toClient = [msgHello] ++ ([t] ++ [msgDisconn]) := by
      rw [hout, hnone]
      rfl
    rw [h.shown, hreceived, List.take_length, hsplit, payloads_append, payloads_append, hsides.1,
      hsides.2, List.nil_append, List.append_nil]
  have hrequest := hreq.asking
  refine ⟨?_, ?_, h.registers, htaken, hfree⟩
  · cases hanswer with
    | close => exact ⟨hcode, h.closed rfl htaken⟩
    | send => exact hcode
    | set => exact hcode
    | killed signal | unkilled signal text =>
      obtain ⟨q, sys, hat, hreplied⟩ := hmoment rfl htaken
      cases hrequest
      refine ⟨q, sys, hat, ?_⟩
      rw [hcode, hreplied.killed hmem hterm]
      exact killReply_code signal sys
    | expectOut index =>
      have hprinted := hshown rfl
      by_cases hrange : 0 ≤ (int32 index).toInt ∧ (int32 index).toInt < expectOutNum
      · obtain ⟨htag, hraw⟩ := register_expoutReply s.expout hrange
        rw [payloads_one, if_pos (.inr htag), hraw] at hprinted
        rw [Result, if_pos hrange]
        refine ⟨?_, hprinted⟩
        rw [hcode, replyCodes, htag]
        rfl
      · have herror : expoutReply (int32 index).toInt s.expout =
            servNewError ErrorCode.usage (ascii "index must in range 0-9") := if_neg hrange
        rw [herror, payloads_one, servNewError_tag, if_neg (by decide)] at hprinted
        rw [Result, if_neg hrange]
        refine ⟨?_, hprinted⟩
        rw [hcode, herror]
        exact finalCode_error rfl (by decide)
    | get _ =>
      obtain ⟨q, sys, hat, hreplied⟩ := hmoment rfl htaken
      cases hrequest
      obtain ⟨buf, hbuf, ht⟩ := hreplied.info hmem hterm
      refine ⟨hcode, q, sys, buf, hat, hbuf, _, hmem, fun what => ?_⟩
      rw [ht]
      exact printInfo_infoReply what host { s with buf := buf }
    | pass subcmd opts t answered ht =>
      refine ⟨t, hmem, ?_, ?_⟩
      · rw [hcode, ht.final rfl rfl]
        exact ht
      · intro r hr
        refine ⟨fun hin => ?_, fun heq => heq ▸ hmem⟩
        rw [hout] at hin
        rcases List.mem_cons.mp hin with rfl | hin
        · exact absurd hr not_terminal_hello
        rcases List.mem_append.mp hin with hin | hin
        · exact absurd (houts.1 _ hin) hr.tag_ne
        rcases List.mem_cons.mp hin with heq | hin
        · exact heq
        · rw [List.mem_singleton.mp hin] at hr
          exact absurd hr not_terminal_disconn
  · rw [hspawn, settingsAfter, hrequest.tag]
    cases hrequest with
    | set opts =>
      rw [requestTag, if_pos rfl]
      exact processSet_request hsound s.spawn
    | close | expectOut | get | kill | send | pass =>
      rw [requestTag]
      exact if_neg (by decide)

end

/-- The outcome of a command.  A client of the same version, for a command line `getargs` accepts
other than `interact`, connects to any reachable server without a connection; both then take their
steps in any order.  When the client has ended and the connection lasted, its exit code, what it has
printed, and the settings, the strings of `expect_out` and the connection it leaves behind are those
of `Outcome`.  The connection is lost only to a server that has ended, and then the exit code is
`ERROR_PROTO`. -/
theorem command_outcome (host : Host) (tty : Bool) (cmd : Cmd) (request : Ttlv) (s₀ s : Server)
    (events : List Event) (p : Session) (code : Int) (hcmd : cmd.isInteract = false)
    (haccepted : Accepted cmd) (hreq : cliMain tty cmd = .message request) (h₀ : Initial s₀)
    (hs : Reaches (servStep host) (fun _ _ => True) s₀ s) (hfree : s.conn.sock = false)
    (hp : p = runs (sessionStep host) events (sessionStart (cliConnect cmd request) s))
    (hend : p.client.pc = .exited code) :
    (p.lost = false →
      Outcome host s cmd (TakenAt host (sessionStart (cliConnect cmd request) s) events) p code) ∧
    (p.lost = true → code = ErrorCode.proto ∧ Pc.dead p.server.pc = true) := by
  obtain ⟨mark, hw⟩ := reaches_windows host h₀ hs
  have hwatch := reaches_watching host h₀ hs
  have hreached : Reaches (sessionStep host) (fun _ _ => True)
      (sessionStart (cliConnect cmd request) s) p := by
    rw [hp]
    exact Reaches.start.runs _ (admitted_true _ _)
  rcases told_reaches hw hwatch hfree ⟨tty, hreq⟩ hcmd haccepted.sound hreached with
    ⟨htold, hlasted⟩ | ⟨q, -, hhung⟩
  · refine ⟨fun _ => htold.outcome ⟨tty, hreq⟩ hcmd haccepted.sound (fun hpass htaken => ?_) hend,
      fun hlost => ?_⟩
    · exact replied_runs hw hwatch hfree ⟨tty, hreq⟩ haccepted.sound hpass events p hp hlasted htaken
    · rw [hlasted] at hlost
      cases hlost
  · refine ⟨fun hlasted => ?_, fun _ => ⟨hhung.exit_code hend, ?_⟩⟩
    · rw [hhung.lost] at hlasted
      cases hlasted
    · rw [hhung.lost]
      exact hhung.dead

/-- `sexpect get` at a fresh server. -/
theorem command_outcome_get :
    ∃ t ∈ (runs (sessionStep plainHost) sendEvents
        (sessionStart (cliConnect .get (ttlvNewStruct Tag.info)) freshServer)).toClient,
      printInfo .ttl t = some (ascii "0" ++ [10]) := by
  have hargs : getargs bareEnv [ascii "get"] = .ok (.command .get []) := by decide
  have hclean : CStrings [ascii "get"] := by
    unfold CStrings
    decide
  have hend : (runs (sessionStep plainHost) sendEvents
      (sessionStart (cliConnect .get (ttlvNewStruct Tag.info)) freshServer)).client.pc = .exited 0 := by
    decide +kernel
  obtain ⟨-, q, sys, buf, -, -, t, ht, hprinted⟩ := ((command_outcome plainHost true .get
    (ttlvNewStruct Tag.info) freshServer freshServer sendEvents _ 0 rfl
    ⟨bareEnv, _, _, hclean, hargs⟩ rfl freshServer_initial .start rfl rfl hend).1
    (by decide +kernel)).result
  exact ⟨t, ht, hprinted .ttl⟩

/-! ## `chkerr` -/

/-- A flag word of `expect`. -/
def ExpectFlags (flags : Int) : Prop := ∃ b : ExpBits, flags = b.flags

theorem ExpectFlags.no_exit {flags : Int} (h : ExpectFlags flags) :
    hasFlag flags passExpectExit = false := by
  obtain ⟨⟨exact, glob, ere, eof, icase, newline⟩, rfl⟩ := h
  revert exact glob ere eof icase newline
  decide

theorem ExpectTakes.flags {st st' : PassArgs} {arg : Bytes} {rest rest' : List Bytes}
    (h : ExpectTakes st arg rest st' rest') (hst : ExpectFlags st.opts.expflags) :
    ExpectFlags st'.opts.expflags := by
  obtain ⟨b, hb⟩ := hst
  obtain ⟨hexact, hglob, here, heof, hicase, hnewline, -⟩ := setFlag_bits b
  cases h with
  | pattern next _ mask hname =>
    simp only [PassArgs.flag, PassArgs.withPattern, hb]
    obtain ⟨-, rfl⟩ | ⟨-, rfl⟩ | ⟨-, rfl⟩ := hname
    · exact ⟨_, hexact⟩
    · exact ⟨_, here⟩
    · exact ⟨_, hglob⟩
  | nocase =>
    simp only [PassArgs.flag, hb]
    exact ⟨_, hicase⟩
  | anchor =>
    simp only [PassArgs.flag, hb]
    exact ⟨_, hnewline⟩
  | eof =>
    simp only [PassArgs.flag, hb]
    exact ⟨_, heof⟩
  | word =>
    simp only [PassArgs.flag, PassArgs.withPattern, hb]
    exact ⟨_, hexact⟩
  | cstring | timeout | lookback => exact ⟨b, hb⟩

theorem expectPattern_flags {st : PassArgs} (hst : ExpectFlags st.opts.expflags) {opts : StPass}
    (h : expectPattern st = .ok opts) : ExpectFlags opts.expflags := by
  unfold expectPattern at h
  obtain ⟨-, habsurd⟩ | ⟨-, h⟩ := ite_eq_iff.mp h
  · cases habsurd
  obtain ⟨-, habsurd⟩ | ⟨-, h⟩ := ite_eq_iff.mp h
  · cases habsurd
  cases hp : st.opts.pattern with
  | none =>
    rw [hp] at h
    cases h
    exact hst
  | some pattern =>
    rw [hp] at h
    obtain ⟨used, -, h⟩ := bind_ok h
    obtain ⟨-, h⟩ | ⟨-, h⟩ := ite_eq_iff.mp h
    · cases hre : glob2re used with
      | none =>
        rw [hre] at h
        cases h
      | some re =>
        rw [hre] at h
        cases h
        obtain ⟨b, hb⟩ := hst
        obtain ⟨-, -, -, -, -, -, hclear⟩ := setFlag_bits b
        simp only [hb, hclear]
        exact ⟨_, (setFlag_bits _).2.2.1⟩
    · cases h
      exact hst

/-- `expect` never asks to wait for the child. -/
theorem Accepted.expect_flags {opts : StPass} (h : Accepted (.pass .expect opts)) :
    ExpectFlags (passDefaults .expect opts).expflags := by
  obtain ⟨env, argv, subs, hargv, hcmd⟩ := h
  obtain ⟨g, sub, args, p, hglobal, hsub, hcheck⟩ := getargs_ok hcmd
  have hclean : CStrings args := fun a ha => hargv a (globalArgs_mem hglobal a ha)
  have hflags : ExpectFlags opts.expflags := by
    cases sub with
    | expect =>
      obtain ⟨st, hst, hkept⟩ := @walk_keeps _ _ (fun st : PassArgs => ExpectFlags st.opts.expflags) _ _
        (fun _ _ _ _ h => (expectStep_ok h).1.left)
        (fun _ _ _ _ _ hst hstep => (expectStep_ok hstep).1.flags hst) _ hclean
        ⟨{}, rfl⟩ _ hsub
      rw [hst] at hcheck
      obtain ⟨opts', hopts, hcheck⟩ := bind_ok hcheck
      cases hcheck
      exact expectPattern_flags hkept (mapError_ok hopts)
    | interact =>
      obtain ⟨q, -, rfl⟩ := walk_ok hsub
      obtain ⟨opts', -, hcheck⟩ := bind_ok hcheck
      cases hcheck
    | send =>
      obtain ⟨q, -, rfl⟩ := walk_ok hsub
      obtain ⟨data, -, hcheck⟩ := bind_ok hcheck
      cases hcheck
    | spawn =>
      obtain ⟨q, -, rfl⟩ := walk_ok hsub
      obtain ⟨-, hcheck⟩ | ⟨-, hcheck⟩ := ite_eq_iff.mp hcheck
      · cases hcheck
      · cases hcheck
    | unknown name =>
      cases hsub
      cases hcheck
    | wait | set | close | expectOut | get | kill | chkerr | help | version =>
      obtain ⟨q, -, rfl⟩ := walk_ok hsub
      cases hcheck
  unfold passDefaults
  split
  · exact ⟨{ ere := true }, rfl⟩
  · exact hflags

/-- What `chkerr` makes of the exit code of an `expect`.  It takes the code for a time-out exactly
if the server said so, and for the end of the pty exactly if the server reported that; and the code
is 0 exactly if the pattern was found or the end was what was expected.  Where the server ended and
the connection was lost the code is none of these. -/
theorem chkerr_tells (host : Host) (tty : Bool) (opts : StPass) (request : Ttlv) (s₀ s : Server)
    (p : Session) (code : Int) (haccepted : Accepted (.pass .expect opts))
    (hreq : cliMain tty (.pass .expect opts) = .message request) (h₀ : Initial s₀)
    (hs : Reaches (servStep host) (fun _ _ => True) s₀ s) (hfree : s.conn.sock = false)
    (hrun : Reaches (sessionStep host) (fun _ _ => True)
      (sessionStart (cliConnect (.pass .expect opts) request) s) p)
    (hend : p.client.pc = .exited code) :
    (p.lost = false →
      (cliChkerr ⟨code, some (ascii "timeout")⟩ = 0 ↔
          servNewError ErrorCode.timeout (ascii "expect timed out") ∈ p.toClient) ∧
        (cliChkerr ⟨code, some (ascii "eof")⟩ = 0 ↔
          servNewError ErrorCode.eof (ascii "PTY closed") ∈ p.toClient) ∧
        (code = 0 ↔ matchedMsg ∈ p.toClient ∨ ttlvNewStruct Tag.eof ∈ p.toClient)) ∧
    (p.lost = true → code = ErrorCode.proto ∧ Pc.dead p.server.pc = true ∧
      cliChkerr ⟨code, some (ascii "timeout")⟩ ≠ 0 ∧ cliChkerr ⟨code, some (ascii "eof")⟩ ≠ 0) := by
  obtain ⟨events, hp⟩ := hrun.eq_runs
  obtain ⟨hlasting, hlosing⟩ := command_outcome host tty (.pass .expect opts) request s₀ s events p code
    rfl haccepted hreq h₀ hs hfree hp hend
  constructor
  · intro hlasted
    obtain ⟨t, -, ht, hreply⟩ := (hlasting hlasted).result
    have hterror : ∀ code text, Terminal (servNewError code text) := fun code text =>
      .inr (.inr (.inr (.inr (.inr (.inr ⟨code, text, rfl⟩)))))
    rw [hreply _ (hterror _ _), hreply _ (hterror _ _),
      hreply matchedMsg (.inr (.inr (.inr (.inl rfl)))),
      hreply (ttlvNewStruct Tag.eof) (.inr (.inr (.inr (.inr (.inl rfl)))))]
    have hexit := haccepted.expect_flags.no_exit
    cases ht with
    | exited status heof hyes =>
      rw [hexit] at hyes
      cases hyes
    | matched | eof | closed | timeout => decide
  · intro hlost
    obtain ⟨rfl, hdead⟩ := hlosing hlost
    exact ⟨rfl, hdead, by decide, by decide⟩

/-- The options of `sexpect expect -t 0 login:`. -/
def impatientOpts : StPass :=
  { hasTimeout := true, timeout := 0, expflags := 1, pattern := some (ascii "login:") }

/-- One look at a child that has not said anything. -/
def impatientEvents : List Event :=
  (ticks 3 {} ++ ticks 11 connecting ++ ticks 11 readable).map .server ++ [.deliver] ++
    (ticks 14 readable).map .server ++ [.deliver] ++ (ticks 11 readable).map .server ++ [.deliver]

theorem chkerr_tells_impatient : cliChkerr ⟨207, some (ascii "timeout")⟩ = 0 ∧
    servNewError ErrorCode.timeout (ascii "expect timed out") ∈
      (runs (sessionStep plainHost) impatientEvents (sessionStart
        (cliConnect (.pass .expect impatientOpts) (passRequest .expect impatientOpts))
        freshServer)).toClient := by
  have hargs : getargs bareEnv [ascii "expect", ascii "-t", ascii "0", ascii "login:"] =
      .ok (.command (.pass .expect impatientOpts) []) := by decide
  have hclean : CStrings [ascii "expect", ascii "-t", ascii "0", ascii "login:"] := by
    unfold CStrings
    decide
  have hend : (runs (sessionStep plainHost) impatientEvents (sessionStart
      (cliConnect (.pass .expect impatientOpts) (passRequest .expect impatientOpts))
      freshServer)).client.pc = .exited 207 := by decide +kernel
  have hcode : cliChkerr ⟨207, some (ascii "timeout")⟩ = 0 := by decide
  have hiff := (chkerr_tells plainHost true impatientOpts (passRequest .expect impatientOpts)
    freshServer freshServer _ 207 ⟨bareEnv, _, _, hclean, hargs⟩ (by decide) freshServer_initial .start
    rfl (Reaches.start.runs _ (admitted_true _ _)) hend).1 (by decide +kernel)
  exact ⟨hcode, hiff.1.mp hcode⟩

end Sexpect.Guarantees
