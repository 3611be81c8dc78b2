import Sexpect.Guarantees.RequestsArrive
import Sexpect.Guarantees.ServerSays
import Sexpect.Guarantees.ShownOutput

/-!
# What a command gets for an answer

`Answer` lists the replies each command can get, with what they were made from: the settings and
the strings of `expect_out` the client found at the server, the flags and the time limit of its
own request.  `Told` carries that through a session, whatever the order of the steps.
-/
namespace Sexpect.Guarantees
open Sexpect.Lib Sexpect.Source

/-! ## The replies -/

/-- The pattern a command looks for. -/
def askedPattern : Cmd → Option Bytes
  | .pass subcmd opts => (passDefaults subcmd opts).pattern
  | _ => none

/-- The time limit of a request at a server with these settings. -/
def passLimit (opts : StPass) (spawn : Spawn) : Int :=
  if opts.hasTimeout then opts.timeout else spawn.defTimeout

/-- The answer to a pattern that was found. -/
def matchedMsg : Ttlv := ttlvNewBool Tag.matched 1

/-- The replies to a `PASS` request with these options at a server with these settings, and the
exit codes they lead to. -/
inductive PassAnswer (opts : StPass) (spawn : Spawn) : Ttlv → Int → Prop
  | matched (pattern : Bytes) (hpattern : opts.pattern = some pattern) :
      PassAnswer opts spawn matchedMsg 0
  | eof (heof : hasFlag opts.expflags passExpectEof = true) :
      PassAnswer opts spawn (ttlvNewStruct Tag.eof) 0
  | exited (status : BitVec 32) (heof : hasFlag opts.expflags passExpectEof = false)
      (hexit : hasFlag opts.expflags passExpectExit = true) :
      PassAnswer opts spawn (ttlvNewInt Tag.exited status) (exitedCode status.toInt)
  | closed (heof : hasFlag opts.expflags passExpectEof = false)
      (hexit : hasFlag opts.expflags passExpectExit = false) :
      PassAnswer opts spawn (servNewError ErrorCode.eof (ascii "PTY closed")) ErrorCode.eof
  | timeout (hlimit : 0 ≤ passLimit opts spawn) :
      PassAnswer opts spawn (servNewError ErrorCode.timeout (ascii "expect timed out"))
        ErrorCode.timeout

/-- The replies to the command of a client that found the server `s`. -/
inductive Answer (host : Host) (s : Server) : Cmd → Ttlv → Prop
  | close : Answer host s .close ack
  | send (data : Bytes) (enter : Bool) : Answer host s (.send data enter) ack
  | set (opts : StSet) : Answer host s (.set opts) ack
  | killed (signal : Int) : Answer host s (.kill signal) ack
  | unkilled (signal : Int) (text : Bytes) :
      Answer host s (.kill signal) (servNewError ErrorCode.sys (ascii "kill: " ++ text))
  | expectOut (index : Int) :
      Answer host s (.expectOut index) (expoutReply (int32 index).toInt s.expout)
  | get (buf : Buffers) : Answer host s .get (infoReply host { s with buf := buf })
  | pass (subcmd : PassSubcmd) (opts : StPass) (t : Ttlv) (code : Int)
      (ht : PassAnswer (passDefaults subcmd opts) s.spawn t code) : Answer host s (.pass subcmd opts) t

/-- The request of each command. -/
inductive Asking : Cmd → Ttlv → Prop
  | close : Asking .close (ttlvNewStruct Tag.close)
  | expectOut (index : Int) : Asking (.expectOut index) (ttlvNewInt Tag.expout (int32 index))
  | get : Asking .get (ttlvNewStruct Tag.info)
  | kill (signal : Int) (word : BitVec 32) : Asking (.kill signal) (ttlvNewInt Tag.kill word)
  | send (data octets : Bytes) (enter : Bool) : Asking (.send data enter) (ttlvNewRaw Tag.send octets)
  | set (opts : StSet) : Asking (.set opts) (setRequest opts)
  | pass (subcmd : PassSubcmd) (opts : StPass) :
      Asking (.pass subcmd opts) (passRequest subcmd opts)

theorem Asks.asking {cmd : Cmd} {request : Ttlv} (h : Asks cmd request) : Asking cmd request := by
  obtain ⟨tty, h⟩ := h
  cases cmd with
  | close =>
    cases h
    exact .close
  | expectOut index =>
    cases h
    exact .expectOut index
  | get =>
    cases h
    exact .get
  | kill signal =>
    cases h
    exact .kill signal _
  | send data enter =>
    simp only [cliMain] at h
    split at h
    · cases h
      exact .send data _ enter
    · split at h
      · cases h
        exact .send data _ enter
      · cases h
  | set opts =>
    cases h
    exact .set opts
  | pass subcmd opts =>
    simp only [cliMain] at h
    split at h
    · cases h
    · cases h
      exact .pass subcmd opts

/-- The tag of the request of a command. -/
def requestTag : Cmd → Nat
  | .close => Tag.close
  | .expectOut _ => Tag.expout
  | .get => Tag.info
  | .kill _ => Tag.kill
  | .send _ _ => Tag.send
  | .set _ => Tag.set
  | .pass _ _ => Tag.pass

theorem Asking.tag {cmd : Cmd} {request : Ttlv} (h : Asking cmd request) :
    request.tag = requestTag cmd := by
  cases h <;> rfl

/-! ## The stretches of the server -/

section

variable {cmd : Cmd} {request : Ttlv} {dead waiting sock passing : Bool} {out inn : List Ttlv}
  {received taken : Nat} {pc : CliPc}

/-- A client that does not type sends three messages. -/
theorem Phase.script (h : Phase cmd request dead waiting sock passing out received inn taken pc)
    (hint : cmd.isInteract = false) : inn <+: [msgHello, request, msgDisconn] := by
  have hnil : ∀ more, Typed cmd more → more = [] := by
    intro more hmore
    by_contra hne
    rw [hmore.2 hne] at hint
    cases hint
  cases h with
  | queued | accepted | welcomed => exact ⟨[request, msgDisconn], rfl⟩
  | stuck => exact ⟨[msgDisconn], rfl⟩
  | asked more hmore | passing outs more houts hmore | answered outs t more houts ht hmore =>
    rw [hnil more hmore]
    exact ⟨[msgDisconn], rfl⟩
  | confirmed outs t more houts ht hmore | parted outs t more houts ht hmore
  | gone outs t more houts ht hmore =>
    rw [hnil more hmore]
    exact List.prefix_refl _
  | leaving _ _ _ _ hyes | left _ _ _ _ hyes | detached _ _ _ _ hyes =>
    rw [hint] at hyes
    cases hyes

/-- Before the request is taken nothing but the greeting was said. -/
theorem Phase.early (h : Phase cmd request dead waiting sock passing out received inn taken pc)
    (hint : cmd.isInteract = false) (htaken : taken ≤ 1) : out <+: [msgHello] := by
  cases h with
  | queued | accepted => exact List.nil_prefix
  | welcomed | asked => exact List.prefix_refl _
  | stuck => omega
  | passing | answered | confirmed | parted | gone => omega
  | leaving _ _ _ _ hyes | left _ _ _ _ hyes | detached _ _ _ _ hyes =>
    rw [hint] at hyes
    cases hyes

/-- While the request is in progress nothing but output was said. -/
theorem Phase.underway (h : Phase cmd request dead waiting true true out received inn taken pc)
    (hint : cmd.isInteract = false) :
    cmd.passing = true ∧ 2 ≤ taken ∧ ∃ outs, Payloads cmd outs ∧ out = msgHello :: outs := by
  cases h with
  | passing outs more houts hmore hpass hr1 hr2 ht1 ht2 => exact ⟨hpass, ht1, outs, houts, rfl⟩
  | leaving _ _ _ _ hyes =>
    rw [hint] at hyes
    cases hyes

end

/-- A stretch of the server in the session of a client that does not type, with the number of
messages taken behind it. -/
inductive Turn (host : Host) (request : Ttlv) (p : Session) (sys : Sys) : Server → Nat → Prop
  | greeted (htaken : p.taken = 0) (hsock : p.server.conn.sock = true) :
      Turn host request p sys
        { p.server with
          pc := .pass
          hist := { p.server.hist with sent := p.server.hist.sent ++ [msgHello] } } 1
  | asked (htaken : p.taken = 1) (hsock : p.server.conn.sock = true) :
      Turn host request p sys (dispatch host (p.sys sys) request { p.server with pc := .pass }) 2
  | parted (htaken : p.taken = 2) (hsock : p.server.conn.sock = true) :
      Turn host request p sys
        { p.server with
          pc := .pass
          conn := { p.server.conn with sock := false }
          hist := { p.server.hist with sent := p.server.hist.sent ++ [msgDisconn] } } 3
  | alone (hno : p.server.receives = false) :
      Turn host request p sys (tick host (p.sys sys) p.server) p.taken

section

variable {cmd : Cmd} {request : Ttlv} {p : Session}

/-- The next message of a client that does not type. -/
theorem Linked.takes (h : Linked cmd request p) (hint : cmd.isInteract = false) {m : Ttlv}
    (hm : p.client.sent[p.taken]? = some m) :
    p.taken = 0 ∧ m = msgHello ∨ p.taken = 1 ∧ m = request ∨ p.taken = 2 ∧ m = msgDisconn := by
  obtain ⟨rest, hrest⟩ := h.phase.script hint
  have hlt := (List.getElem?_eq_some_iff.mp hm).1
  have hget : [msgHello, request, msgDisconn][p.taken]? = some m := by
    rw [← hrest, List.getElem?_append_left hlt, hm]
  have hlen := (List.getElem?_eq_some_iff.mp hget).1
  simp only [List.length_cons, List.length_nil] at hlen
  obtain htaken | htaken | htaken : p.taken = 0 ∨ p.taken = 1 ∨ p.taken = 2 := by omega
  · rw [htaken] at hget
    cases hget
    exact .inl ⟨htaken, rfl⟩
  · rw [htaken] at hget
    cases hget
    exact .inr (.inl ⟨htaken, rfl⟩)
  · rw [htaken] at hget
    cases hget
    exact .inr (.inr ⟨htaken, rfl⟩)

theorem Linked.turn (h : Linked cmd request p) (hint : cmd.isInteract = false) (host : Host)
    (sys : Sys) :
    Turn host request p sys (sessionServer host p (.tick sys)).server
      (sessionServer host p (.tick sys)).taken := by
  simp only [sessionServer, servStep]
  by_cases hr : p.server.receives = true
  · obtain ⟨fds, m, hpc, hsock, hm, htick⟩ := h.tick_receives host sys hr
    rw [htick, if_pos hr]
    rcases h.takes hint hm with ⟨htaken, rfl⟩ | ⟨htaken, rfl⟩ | ⟨htaken, rfl⟩
    · rw [dispatch_hello host (p.sys sys) { p.server with pc := .pass } hsock rfl, htaken]
      exact .greeted htaken hsock
    · rw [htaken]
      exact .asked htaken hsock
    · rw [dispatch_disconn host (p.sys sys) { p.server with pc := .pass } hsock rfl, htaken]
      exact .parted htaken hsock
  · rw [if_neg hr]
    exact .alone (by simpa using hr)

end

/-! ## The session -/

/-- What the connection knows of the request in progress. -/
structure Pledged (opts : StPass) (spawn : Spawn) (conn : Conn) : Prop where
  expflags : conn.expflags = opts.expflags
  pattern : conn.pattern = opts.pattern
  timeout : conn.timeout = passLimit opts spawn

/-- `expout` behind a match: the pattern was found in a stretch of the output, whose zero octets
are left out. -/
def MatchKept (host : Host) (expflags : Int) (pattern stream : Bytes) (expout : List (Option Bytes)) :
    Prop :=
  ∃ a b whole groups, b ≤ stream.length ∧
    found host.regex expflags pattern (nonNul (segment stream a b)) = some (whole, groups) ∧
    expout = stored expflags pattern (nonNul (segment stream a b)) (List.replicate expectOutNum none)
      whole groups

/-- `expout` in a session: a request with a pattern empties it, a match fills it. -/
structure Registers (host : Host) (cmd : Cmd) (s : Server) (p : Session) : Prop where
  before : askedPattern cmd = none ∨ p.taken ≤ 1 → p.server.expout = s.expout
  empty : ∀ pattern, askedPattern cmd = some pattern → 2 ≤ p.taken → matchedMsg ∉ p.toClient →
    p.server.expout = List.replicate expectOutNum none
  kept : ∀ pattern, askedPattern cmd = some pattern → matchedMsg ∈ p.toClient →
    MatchKept host cmd.expflags pattern p.server.hist.stream p.server.expout

/-- The messages a client of the command can hear. -/
def Hears (host : Host) (s : Server) (cmd : Cmd) (t : Ttlv) : Prop :=
  t = msgHello ∨ t = msgDisconn ∨ t.tag = Tag.output ∨ Answer host s cmd t

/-- What a client writes to its standard output of the messages it receives. -/
def payloads (l : List Ttlv) : List Bytes :=
  (l.filter fun m => m.tag = Tag.output ∨ m.tag = Tag.expoutText).map Ttlv.vRaw

/-- The facts that hold at every moment of the session of a command that found the server `s`. -/
structure Told (host : Host) (cmd : Cmd) (request : Ttlv) (s : Server) (p : Session) : Prop where
  linked : Linked cmd request p
  spawn : p.server.spawn = if p.taken ≤ 1 then s.spawn else settingsAfter request s.spawn
  fresh : p.server.conn.sock = true → p.taken ≤ 1 → p.server.conn = { sock := true }
  pledged : ∀ subcmd opts, cmd = .pass subcmd opts → p.server.conn.sock = true →
    p.server.conn.passing = true → Pledged (passDefaults subcmd opts) s.spawn p.server.conn
  closed : cmd = .close → 2 ≤ p.taken → p.server.ptmOpen = false
  registers : Registers host cmd s p
  heard : ∀ t ∈ p.toClient, Hears host s cmd t
  shown : p.client.shown = payloads (p.toClient.take p.received)

section

variable {host : Host} {cmd : Cmd} {request : Ttlv} {s : Server} {p : Session} {sys : Sys}

theorem Told.early (h : Told host cmd request s p) (hint : cmd.isInteract = false) (htaken : p.taken ≤ 1) :
    matchedMsg ∉ p.toClient := by
  intro hmem
  have hin := (h.linked.phase.early hint htaken).subset hmem
  exact absurd (List.mem_singleton.mp hin) (by decide)

/-- The settings: only the request can change them. -/
theorem Told.spawn_turn (h : Told host cmd request s p) {s' : Server} {n : Nat}
    (ht : Turn host request p sys s' n) :
    s'.spawn = if n ≤ 1 then s.spawn else settingsAfter request s.spawn := by
  have hspawn := h.spawn
  cases ht with
  | greeted htaken =>
    rw [htaken, if_pos (by omega)] at hspawn
    exact hspawn
  | asked htaken =>
    rw [htaken, if_pos le_rfl] at hspawn
    have htold := congrArg Prod.fst
      (told_dispatch host (p.sys sys) request { p.server with pc := .pass })
    simp only [Server.told] at htold
    rw [if_neg (by omega), htold, hspawn]
  | parted htaken =>
    rw [htaken, if_neg (by omega)] at hspawn
    rw [if_neg (by omega)]
    exact hspawn
  | alone hno =>
    have htold := congrArg Prod.fst (told_tick host (p.sys sys) p.server hno)
    simp only [Server.told] at htold
    rw [htold, hspawn]

/-- The connection of a client that has not asked yet. -/
theorem Told.fresh_turn (h : Told host cmd request s p) {s' : Server} {n : Nat}
    (ht : Turn host request p sys s' n) (hsock : s'.conn.sock = true) (hn : n ≤ 1) :
    s'.conn = { sock := true } := by
  obtain ⟨mark, hw⟩ := h.linked.windows
  cases ht with
  | greeted htaken hopen => exact h.fresh hopen (by omega)
  | asked => omega
  | parted => omega
  | alone hno =>
    have htalks := servStep_talks host (.tick (p.sys sys)) p.server hw.flow
    simp only [servStep] at htalks
    generalize tick host (p.sys sys) p.server = s' at htalks hsock ⊢
    cases htalks with
    | quiet hq =>
      obtain ⟨lookback, hconn, hlook⟩ := hq.conn
      rw [hconn] at hsock ⊢
      rw [h.fresh hsock hn]
      rcases hlook with rfl | rfl
      · rw [h.fresh hsock hn]
      · rfl
    | old => exact h.fresh hsock hn
    | accepted => rfl
    | received fds hpc hopen hready =>
      rw [(receives_iff _).mpr ⟨fds, hpc, hopen, hready⟩] at hno
      cases hno
    | output psend hpc hopen hpass =>
      rw [h.fresh hopen hn] at hpass
      cases hpass
    | replied t hpc hopen hpass =>
      rw [h.fresh hopen hn] at hpass
      cases hpass

/-- A request in progress is the one that was asked. -/
theorem Told.pledged_turn (h : Told host cmd request s p) (hreq : Asks cmd request)
    {subcmd : PassSubcmd} {opts : StPass} (hcmd : cmd = .pass subcmd opts) (hsound : Sendable opts)
    {s' : Server} {n : Nat} (ht : Turn host request p sys s' n) (hsock : s'.conn.sock = true)
    (hpass : s'.conn.passing = true) : Pledged (passDefaults subcmd opts) s.spawn s'.conn := by
  obtain ⟨mark, hw⟩ := h.linked.windows
  cases ht with
  | greeted htaken hopen =>
    have hfresh := h.fresh hopen (by omega)
    simp only at hpass
    rw [hfresh] at hpass
    cases hpass
  | asked htaken hopen =>
    subst hcmd
    have hspawn := h.spawn
    rw [htaken, if_pos le_rfl] at hspawn
    have hfresh := h.fresh hopen (by omega)
    have hrequest := hreq.asking
    cases hrequest
    rw [dispatch_passRequest]
    have harrived : PassArrived subcmd _ _ { p.server with pc := .pass } _ :=
      processPass_arrived hsound hfresh
    refine ⟨harrived.expflags, harrived.pattern, ?_⟩
    rw [harrived.timeout, passLimit, ← hspawn]
  | parted => cases hsock
  | alone hno =>
    have htalks := servStep_talks host (.tick (p.sys sys)) p.server hw.flow
    simp only [servStep] at htalks
    generalize tick host (p.sys sys) p.server = s' at htalks hsock hpass ⊢
    cases htalks with
    | quiet hq =>
      obtain ⟨lookback, hconn, -⟩ := hq.conn
      rw [hconn] at hsock hpass ⊢
      have hp := h.pledged subcmd opts hcmd hsock hpass
      exact ⟨hp.expflags, hp.pattern, hp.timeout⟩
    | old => exact h.pledged subcmd opts hcmd hsock hpass
    | accepted => cases hpass
    | received fds hpc hopen hready =>
      rw [(receives_iff _).mpr ⟨fds, hpc, hopen, hready⟩] at hno
      cases hno
    | output psend hpc hopen hpassing hstart hpost hconn =>
      obtain ⟨lookback, hconn, -⟩ := hconn
      have hp := h.pledged subcmd opts hcmd hopen hpassing
      rw [hconn]
      exact ⟨hp.expflags, hp.pattern, hp.timeout⟩
    | replied t hpc hopen hpassing hnew hreply hpost hafter hconn =>
      rw [hconn] at hpass
      cases hpass

theorem Told.closed_turn (h : Told host cmd request s p) (hreq : Asks cmd request)
    (hcmd : cmd = .close) {s' : Server} {n : Nat} (ht : Turn host request p sys s' n) (hn : 2 ≤ n) :
    s'.ptmOpen = false := by
  cases ht with
  | greeted => omega
  | asked htaken hopen =>
    subst hcmd
    have hrequest := hreq.asking
    cases hrequest
    obtain ⟨_, _, hsend, -, -⟩ := servMsgSend_frame (p.sys sys).sent ack
      { p.server with pc := .pass, ptmOpen := false }
    have hdispatch : dispatch host (p.sys sys) (ttlvNewStruct Tag.close) { p.server with pc := .pass } =
        servMsgSend (p.sys sys).sent ack { p.server with pc := .pass, ptmOpen := false } := rfl
    rw [hdispatch, hsend]
  | parted htaken => exact h.closed hcmd (by omega)
  | alone hno => exact (closed_stays host (.tick (p.sys sys)) (h.closed hcmd hn)).1

/-- A verdict of the server is one the request allows. -/
theorem Told.verdict (h : Told host cmd request s p) (hint : cmd.isInteract = false) {t : Ttlv}
    (ht : Verdict host (p.sys sys) p.server t) : Answer host s cmd t := by
  obtain ⟨mark, hw⟩ := h.linked.windows
  have hpc : p.server.pc = .expect ∨ p.server.pc = .ending := by
    cases ht with
    | matched _ hpc => exact .inl hpc
    | eof hpc | exited hpc | closed hpc | timeout hpc => exact .inr hpc
  obtain ⟨hsock, hpassing, -⟩ := hw.flow.passing (.inr hpc)
  have hphase := h.linked.phase
  rw [hsock, hpassing] at hphase
  obtain ⟨hpass, htaken, -⟩ := hphase.underway hint
  cases hcmd : cmd with
  | pass subcmd opts =>
    have hp := h.pledged subcmd opts hcmd hsock hpassing
    cases ht with
    | matched s' hpc hmatch =>
      have hsome := (hw.flow.ready hpc).1
      rw [hp.pattern] at hsome
      obtain ⟨pattern, hpattern⟩ := Option.isSome_iff_exists.mp hsome
      exact .pass subcmd opts _ _ (.matched pattern hpattern)
    | eof hpc hclosed heof =>
      rw [hp.expflags] at heof
      exact .pass subcmd opts _ _ (.eof heof)
    | exited hpc hclosed heof hexit =>
      rw [hp.expflags] at heof hexit
      exact .pass subcmd opts _ _ (.exited _ heof hexit)
    | closed hpc hclosed heof hexit =>
      rw [hp.expflags] at heof hexit
      exact .pass subcmd opts _ _ (.closed heof hexit)
    | timeout hpc htime =>
      rw [hp.timeout] at htime
      refine .pass subcmd opts _ _ (.timeout ?_)
      by_contra hneg
      rw [expTimedOut, if_pos (not_le.mp hneg)] at htime
      cases htime
  | close | expectOut | get | kill | send | set =>
    rw [hcmd] at hpass
    cases hpass

/-- What the server says is for the client to hear. -/
theorem Told.says (h : Told host cmd request s p) (hreq : Asks cmd request)
    (hint : cmd.isInteract = false) {t : Ttlv} (ht : Says host (.tick (p.sys sys)) p.server t) :
    Hears host s cmd t := by
  have hasking := hreq.asking
  -- only the request has one of these tags
  have hrequest : ∀ m, received p.server (.tick (p.sys sys)) = some m → m.tag ≠ Tag.hello →
      m.tag ≠ Tag.disconn → p.taken = 1 ∧ m = request := by
    intro m hm hhello hdisconn
    obtain ⟨sys', fds, hi, -, -, -, hmsg⟩ := received_eq_some hm
    cases hi
    rcases h.linked.takes hint hmsg with ⟨-, rfl⟩ | ⟨htaken, rfl⟩ | ⟨-, rfl⟩
    · exact absurd rfl hhello
    · exact ⟨htaken, rfl⟩
    · exact absurd rfl hdisconn
  cases ht with
  | hello => exact .inl rfl
  | mismatch m hm htag hver =>
    obtain ⟨sys', fds, hi, -, -, -, hmsg⟩ := received_eq_some hm
    cases hi
    have hsame : version = (ttlvFindChild msgHello Tag.version).vText := by decide
    rcases h.linked.takes hint hmsg with ⟨-, rfl⟩ | ⟨-, rfl⟩ | ⟨-, rfl⟩
    · exact absurd hsame hver
    · rw [hasking.tag] at htag
      cases cmd <;> cases htag
    · cases htag
  | disconn => exact .inr (.inl rfl)
  | done m hm htag =>
    obtain ⟨-, rfl⟩ := hrequest m hm
      (by rcases htag with h | h | h | h <;> rw [h] <;> decide)
      (by rcases htag with h | h | h | h <;> rw [h] <;> decide)
    rw [hasking.tag] at htag
    refine .inr (.inr (.inr ?_))
    cases cmd with
    | close => exact .close
    | send data enter => exact .send data enter
    | set opts => exact .set opts
    | kill signal => exact .killed signal
    | expectOut | get | pass => rcases htag with h | h | h | h <;> cases h
  | unkilled m sys' text hm htag =>
    obtain ⟨-, rfl⟩ := hrequest m hm (by rw [htag]; decide) (by rw [htag]; decide)
    rw [hasking.tag] at htag
    refine .inr (.inr (.inr ?_))
    cases cmd with
    | kill signal => exact .unkilled signal text
    | close | send | set | expectOut | get | pass => cases htag
  | stored m hm htag =>
    obtain ⟨htaken, rfl⟩ := hrequest m hm (by rw [htag]; decide) (by rw [htag]; decide)
    rw [hasking.tag] at htag
    refine .inr (.inr (.inr ?_))
    rw [h.registers.before (.inr (by omega))]
    cases hasking with
    | expectOut index => exact .expectOut index
    | close | send | set | kill | get | pass => cases htag
  | info m buf hm htag hbuf =>
    obtain ⟨htaken, rfl⟩ := hrequest m hm (by rw [htag]; decide) (by rw [htag]; decide)
    have hspawn := h.spawn
    rw [htaken, if_pos le_rfl] at hspawn
    rw [hasking.tag] at htag
    have hinfo : infoReply host { p.server with buf := buf } = infoReply host { s with buf := buf } := by
      simp only [infoReply, hspawn]
    refine .inr (.inr (.inr ?_))
    rw [hinfo]
    cases hasking with
    | get => exact .get buf
    | close | send | set | kill | expectOut | pass => cases htag
  | output => exact .inr (.inr (.inl rfl))
  | reply t sys' hi hv =>
    cases hi
    exact .inr (.inr (.inr (h.verdict hint hv)))

/-- Nothing but a match is answered with `MATCHED`. -/
theorem says_matched {i : Input} {s : Server} (h : Says host i s matchedMsg) :
    isMatch host s i = true := by
  generalize ht : matchedMsg = t at h
  have htag : matchedMsg.tag = t.tag := congrArg Ttlv.tag ht
  cases h with
  | reply t sys hi hv =>
    subst hi
    cases hv with
    | matched s' hpc hmatch =>
      simp only [isMatch, hpc, hmatch, decide_true, Bool.and_self]
    | eof | exited | closed | timeout => cases htag
  | stored m hm hstored =>
    unfold expoutReply at htag
    split at htag
    · split at htag <;> cases htag
    · cases htag
  | hello | mismatch | disconn | done | unkilled | info | output => cases htag

/-- The messages of a stretch of the server. -/
theorem Linked.tick_log (h : Linked cmd request p) (host : Host) (sys : Sys) :
    ∃ new, (sessionServer host p (.tick sys)).toClient = p.toClient ++ new ∧
      ∀ t ∈ new, Says host (.tick (p.sys sys)) p.server t := by
  obtain ⟨mark, hw⟩ := h.windows
  obtain ⟨new, hnew, hsaid⟩ := servStep_adds host (.tick (p.sys sys)) hw.flow
  refine ⟨new, ?_, hsaid⟩
  simp only [sessionServer, Session.toClient, hnew]
  exact List.drop_append_of_le_length h.base

theorem MatchKept.grow {expflags : Int} {pattern stream : Bytes} {expout : List (Option Bytes)}
    (h : MatchKept host expflags pattern stream expout) (got : Bytes) :
    MatchKept host expflags pattern (stream ++ got) expout := by
  obtain ⟨a, b, whole, groups, hle, hfound, hstored⟩ := h
  refine ⟨a, b, whole, groups, by rw [List.length_append]; omega, ?_, ?_⟩
  · rw [segment_grow stream got a b hle]
    exact hfound
  · rw [segment_grow stream got a b hle]
    exact hstored

/-- A match fills `expout` from a stretch of the output. -/
theorem kept_of_match {mark : Nat} {s : Server} (hw : Windows s mark) (sys : Sys)
    (hmatch : isMatch host s (.tick sys) = true)
    (hempty : s.expout = List.replicate expectOutNum none) :
    ∃ pattern, s.conn.pattern = some pattern ∧ s.pc = .expect ∧
      MatchKept host s.conn.expflags pattern (tick host sys s).hist.stream (tick host sys s).expout := by
  simp only [isMatch, Bool.and_eq_true, decide_eq_true_eq] at hmatch
  obtain ⟨hpc, hfound⟩ := hmatch
  obtain ⟨hpattern, hzero, -⟩ := hw.flow.ready hpc
  obtain ⟨pattern, hpattern⟩ := Option.isSome_iff_exists.mp hpattern
  rcases hexp : servExpect host (s.conn.pattern.getD []) s with ⟨matched, s'⟩
  rw [hexp] at hfound
  simp only at hfound
  subst hfound
  obtain ⟨got, hgrows⟩ := (servStep_moves host (.tick sys) s mark hw.flow).grows
  simp only [servStep] at hgrows
  refine ⟨pattern, hpattern, hpc, ?_⟩
  rw [matched_expout sys hpc hexp, hgrows]
  apply MatchKept.grow
  obtain ⟨-, whole, groups, hat, rfl⟩ := (servExpect_eq_true_iff host _ s s').mp hexp
  obtain ⟨a, -, -, -, hwindow⟩ := hw.exp.window
  have htext : cstring s.buf.expbuf = nonNul (segment s.hist.stream a s.buf.expoffset) := by
    rw [cstring_of_window hw.exp hzero, hwindow]
  have hcopied := hw.raw.copied
  have hread := hw.raw.read
  rw [hpattern, Option.getD_some, htext] at hat
  refine ⟨a, s.buf.expoffset, whole, groups, by omega, hat, ?_⟩
  simp only [hpattern, Option.getD_some, htext, hempty]

/-- A request without a pattern of its own leaves `expout` alone. -/
theorem Asking.bare (h : Asking cmd request) (hbare : askedPattern cmd = none) :
    ¬ CarriesPattern request := by
  rintro ⟨htag, -, -, hpattern⟩
  rw [h.tag] at htag
  cases h with
  | pass subcmd opts =>
    apply hpattern
    unfold askedPattern at hbare
    simp only [passRequest, findChild_struct, hbare]
    cases (passDefaults subcmd opts).hasTimeout <;>
      by_cases hlook : (passDefaults subcmd opts).lookback > 0 <;>
      simp [hlook, ttlvNewInt, findFrom_link, findFrom_nil, Tag.passSubcmd, Tag.expFlags,
        Tag.expTimeout, Tag.pattern, Tag.lookback]
  | close | send | set | kill | expectOut | get => cases htag

/-- Away from a match and from its request `expout` stays. -/
theorem Told.registers_tick (h : Told host cmd request s p) (hreq : Asks cmd request)
    (hint : cmd.isInteract = false) :
    Registers host cmd s (sessionServer host p (.tick sys)) := by
  obtain ⟨mark, hw⟩ := h.linked.windows
  obtain ⟨new, hnew, hsaid⟩ := h.linked.tick_log host sys
  obtain ⟨got, hgrows⟩ := (servStep_moves host (.tick (p.sys sys)) p.server mark hw.flow).grows
  have hold : matchedMsg ∈ p.toClient → matchedMsg ∈ (sessionServer host p (.tick sys)).toClient := by
    rw [hnew]
    exact List.mem_append_left _
  by_cases hmatch : isMatch host p.server (.tick (p.sys sys)) = true
  · -- a match
    have hpc : p.server.pc = .expect := by
      simp only [isMatch, Bool.and_eq_true, decide_eq_true_eq] at hmatch
      exact hmatch.1
    obtain ⟨hsock, hpassing, -⟩ := hw.flow.passing (.inr (.inl hpc))
    have hphase := h.linked.phase
    rw [hsock, hpassing] at hphase
    obtain ⟨hpass, htaken, outs, houts, hout⟩ := hphase.underway hint
    have hnone : matchedMsg ∉ p.toClient := by
      rw [hout]
      intro hmem
      rcases List.mem_cons.mp hmem with heq | hmem
      · exact absurd heq (by decide)
      · exact absurd (houts.1 _ hmem) (by decide)
    have hstays : (sessionServer host p (.tick sys)).taken = p.taken := by
      have hno : p.server.receives = false := by
        unfold Server.receives
        rw [hpc]
      simp only [sessionServer, hno, Bool.false_eq_true, if_false]
    obtain ⟨subcmd, opts, hcmd⟩ : ∃ subcmd opts, cmd = .pass subcmd opts := by
      cases cmd with
      | pass subcmd opts => exact ⟨subcmd, opts, rfl⟩
      | _ => cases hpass
    have hp := h.pledged subcmd opts hcmd hsock hpassing
    have hpattern : askedPattern cmd = p.server.conn.pattern := by rw [hcmd, hp.pattern, askedPattern]
    have hflags : cmd.expflags = p.server.conn.expflags := by rw [hcmd, hp.expflags, Cmd.expflags]
    have hasked := (hw.flow.ready hpc).1
    obtain ⟨pattern, hsome⟩ := Option.isSome_iff_exists.mp hasked
    obtain ⟨pattern', hsome', -, hkept⟩ := kept_of_match hw (p.sys sys) hmatch
      (h.registers.empty pattern (hpattern.trans hsome) htaken hnone)
    have hsent : matchedMsg ∈ (sessionServer host p (.tick sys)).toClient := by
      rcases hexp : servExpect host (p.server.conn.pattern.getD []) p.server with ⟨matched, s'⟩
      simp only [isMatch, hexp, Bool.and_eq_true] at hmatch
      obtain ⟨-, rfl⟩ := hmatch
      obtain ⟨pos, expout, -, rfl⟩ := servExpect_matched _ _ _ _ hexp
      have htick : tick host (p.sys sys) p.server = servPassExpect host (p.sys sys) p.server := by
        simp only [tick, hpc]
      have hlog := (servMsgSend_posts (s := { p.server with
        buf := keepAfter pos p.server.buf, expout := expout }) true matchedMsg hsock).log
      rw [if_pos rfl] at hlog
      have hsession : (sessionServer host p (.tick sys)).toClient = p.toClient ++ [matchedMsg] := by
        simp only [sessionServer, servStep, Session.toClient, htick, servPassExpect, hexp]
        show (servMsgSend true matchedMsg _).hist.sent.drop p.base = _
        rw [hlog]
        exact List.drop_append_of_le_length h.linked.base
      rw [hsession]
      simp
    refine ⟨?_, fun _ _ _ hno => absurd hsent hno, ?_⟩
    · rintro (hbare | hfew)
      · rw [hpattern, hsome] at hbare
        cases hbare
      · rw [hstays] at hfew
        omega
    · intro pattern hasked hmem
      rw [hpattern, hsome'] at hasked
      cases hasked
      rw [hflags]
      exact hkept
  · -- no match, so nothing is answered with one
    have hmiss : isMatch host p.server (.tick (p.sys sys)) = false := by simpa using hmatch
    have hback : matchedMsg ∈ (sessionServer host p (.tick sys)).toClient → matchedMsg ∈ p.toClient := by
      rw [hnew]
      intro hmem
      rcases List.mem_append.mp hmem with hmem | hmem
      · exact hmem
      · rw [says_matched (hsaid _ hmem)] at hmiss
        cases hmiss
    have hsame : ∀ n, (sessionServer host p (.tick sys)).taken = n →
        (n ≤ 1 ↔ p.taken ≤ 1) → (2 ≤ n → 2 ≤ p.taken) →
        (sessionServer host p (.tick sys)).server.expout = p.server.expout →
        Registers host cmd s (sessionServer host p (.tick sys)) := by
      rintro n rfl hn hn' hexpout
      refine ⟨?_, ?_, ?_⟩
      · intro hbare
        rw [hexpout]
        exact h.registers.before (hbare.imp id hn.mp)
      · intro pattern hasked htaken hno
        rw [hexpout]
        exact h.registers.empty pattern hasked (hn' htaken) fun hmem => hno (hold hmem)
      · intro pattern hasked hmem
        rw [hexpout]
        simp only [sessionServer]
        rw [hgrows]
        exact (h.registers.kept pattern hasked (hback hmem)).grow got
    have hturn := h.linked.turn hint host sys
    generalize hserver : (sessionServer host p (.tick sys)).server = s' at hturn hsame
    generalize hcount : (sessionServer host p (.tick sys)).taken = n at hturn hsame
    cases hturn with
    | greeted htaken => exact hsame 1 rfl (by omega) (by omega) rfl
    | parted htaken => exact hsame 3 rfl (by omega) (by omega) rfl
    | alone hno =>
      apply hsame p.taken rfl Iff.rfl id
      refine servStep_expout host ?_ hmiss
      intro m hm
      obtain ⟨sys', fds, hi, hpc, hsock, hready, -⟩ := received_eq_some hm
      rw [(receives_iff _).mpr ⟨fds, hpc, hsock, hready⟩] at hno
      cases hno
    | asked htaken =>
      have hearly := h.early hint (by omega)
      cases hasked : askedPattern cmd with
      | none =>
        have hexpout := congrArg Prod.snd (aside_dispatch host (p.sys sys) request
          { p.server with pc := .pass } (hreq.asking.bare hasked))
        refine ⟨fun _ => ?_, fun pattern hsome => ?_, fun pattern hsome => ?_⟩
        · rw [hserver]
          exact Eq.trans hexpout (h.registers.before (.inl hasked))
        · rw [hasked] at hsome
          cases hsome
        · rw [hasked] at hsome
          cases hsome
      | some pattern =>
        refine ⟨fun hno => ?_, fun _ _ _ _ => ?_, fun _ _ hmem => absurd (hback hmem) hearly⟩
        · rw [hasked, hcount] at hno
          rcases hno with hno | hno
          · cases hno
          · omega
        · rw [hserver]
          have hrequest := hreq.asking
          cases hrequest with
          | pass subcmd opts =>
            rw [dispatch_passRequest, processPass_request]
            unfold askedPattern at hasked
            simp only [hasked]
          | close | send | set | kill | expectOut | get => cases hasked

theorem payloads_append (a b : List Ttlv) : payloads (a ++ b) = payloads a ++ payloads b := by
  simp [payloads]

theorem payloads_one (m : Ttlv) :
    payloads [m] = if m.tag = Tag.output ∨ m.tag = Tag.expoutText then [m.vRaw] else [] := by
  unfold payloads
  by_cases h : m.tag = Tag.output ∨ m.tag = Tag.expoutText <;> simp [h]

theorem cliLoop_payloads (m : Ttlv) (c : Client) : (cliLoop m c).shown = c.shown ++ payloads [m] := by
  rw [payloads_one]
  by_cases htext : m.tag = Tag.expoutText
  · rw [if_pos (.inr htext), cliLoop, htext]
    rfl
  · rw [cliLoop_shown htext, outputs_one]
    by_cases hout : m.tag = Tag.output
    · rw [if_pos hout, if_pos (.inl hout)]
    · rw [if_neg hout, if_neg (not_or.mpr ⟨hout, htext⟩)]

/-- A client that takes its leave hears nothing but the answer to that. -/
theorem Phase.parting {dead waiting sock passing : Bool} {out inn : List Ttlv} {received taken : Nat}
    {exitcode fatalCode : Int}
    (h : Phase cmd request dead waiting sock passing out received inn taken
      (.disconn exitcode fatalCode))
    (hint : cmd.isInteract = false) {m : Ttlv} (hm : out[received]? = some m) : m = msgDisconn := by
  cases h with
  | confirmed outs t more houts ht hmore hr =>
    have hlt := (List.getElem?_eq_some_iff.mp hm).1
    simp only [List.length_cons, List.length_append, List.length_nil] at hlt
    omega
  | parted outs t more houts ht hmore hr =>
    rw [hr, Nat.add_comm 2, List.getElem?_cons_succ, List.getElem?_append_right (by omega)] at hm
    simpa using hm.symm
  | leaving _ _ _ _ hyes | left _ _ _ _ hyes =>
    rw [hint] at hyes
    cases hyes

theorem Linked.shows_payload (h : Linked cmd request p) (hint : cmd.isInteract = false) {m : Ttlv}
    (hm : p.toClient[p.received]? = some m) :
    (cliRecv m p.client).shown = p.client.shown ++ payloads [m] := by
  have hphase := h.phase
  unfold cliRecv
  rcases hphase.expects hm with ⟨hpc, rfl⟩ | hpc | ⟨exitcode, fatalCode, hpc⟩
  · rw [hpc]
    have hver : version = (ttlvFindChild msgHello Tag.version).vText := by decide
    have hnull : ttlvFindChild msgHello Tag.version ≠ .null := by decide
    have hnothing : payloads [msgHello] = [] := by decide
    simp only [cliHello, if_pos (show msgHello.tag = Tag.hello by decide), hnull, ← hver, if_false,
      ne_eq, not_true, hnothing, List.append_nil]
    rfl
  · rw [hpc]
    exact cliLoop_payloads m p.client
  · rw [hpc] at hphase ⊢
    have hnothing : payloads [msgDisconn] = [] := by decide
    rw [hphase.parting hint hm, hnothing, List.append_nil]
    simp only [cliDisconnLoop_disconn]

theorem told_start {mark : Nat} (hw : Windows s mark) (hwatch : Watching s)
    (hfree : s.conn.sock = false) :
    Told host cmd request s (sessionStart (cliConnect cmd request) s) := by
  have hnone : (sessionStart (cliConnect cmd request) s).toClient = [] := List.drop_length
  refine ⟨linked_start hw hwatch hfree, rfl, ?_, ?_, ?_, ⟨fun _ => rfl, ?_, ?_⟩, ?_, ?_⟩
  · intro hsock
    have hno : s.conn.sock = true := hsock
    rw [hfree] at hno
    cases hno
  · intro subcmd opts _ hsock
    have hno : s.conn.sock = true := hsock
    rw [hfree] at hno
    cases hno
  · intro _ htaken
    cases htaken
  · intro pattern _ htaken
    cases htaken
  · intro pattern _ hmem
    rw [hnone] at hmem
    cases hmem
  · intro t hmem
    rw [hnone] at hmem
    cases hmem
  · rw [hnone]
    rfl

theorem Told.tick (h : Told host cmd request s p) (hreq : Asks cmd request)
    (hint : cmd.isInteract = false) (hsound : Sound cmd) (sys : Sys) :
    Told host cmd request s (sessionServer host p (.tick sys)) := by
  have hclean := clean_of_command host (p := p) (by rw [h.linked.client.cmd, hint])
    (.server (.tick sys))
  have hturn := h.linked.turn hint host sys
  obtain ⟨new, hnew, hsaid⟩ := h.linked.tick_log host sys
  refine ⟨h.linked.tick hreq host sys hclean, h.spawn_turn hturn, h.fresh_turn hturn, ?_,
    fun hcmd hn => h.closed_turn hreq hcmd hturn hn, h.registers_tick hreq hint, ?_, ?_⟩
  · rintro subcmd opts rfl hsock hpass
    exact h.pledged_turn hreq rfl hsound hturn hsock hpass
  · rw [hnew]
    intro t ht
    rcases List.mem_append.mp ht with ht | ht
    · exact h.heard t ht
    · exact h.says hreq hint (hsaid t ht)
  · rw [hnew]
    simp only [sessionServer]
    rw [List.take_append_of_le_length h.linked.phase.received_le]
    exact h.shown

theorem Told.step (h : Told host cmd request s p) (hreq : Asks cmd request)
    (hint : cmd.isInteract = false) (hsound : Sound cmd) (e : Event) (hlasts : e ≠ .hangup) :
    Told host cmd request s (sessionStep host e p) := by
  have hcmd : p.client.cmd.isInteract = false := by rw [h.linked.client.cmd, hint]
  have hlinked := h.linked.step hreq host e (clean_of_command host hcmd e) hlasts
  cases e with
  | hangup => exact absurd rfl hlasts
  | server i =>
    cases i with
    | tick sys => exact h.tick hreq hint hsound sys
    | child e =>
      obtain ⟨child, pending, hs⟩ := childChange_frame e p.server
      simp only [sessionStep, sessionServer, servStep, hs] at hlinked ⊢
      exact ⟨hlinked, h.spawn, h.fresh, h.pledged, h.closed,
        ⟨h.registers.before, h.registers.empty, h.registers.kept⟩, h.heard, h.shown⟩
    | sigCHLD =>
      obtain ⟨pending, flag, hs⟩ := servSigCHLD_frame p.server
      simp only [sessionStep, sessionServer, servStep, hs] at hlinked ⊢
      exact ⟨hlinked, h.spawn, h.fresh, h.pledged, h.closed,
        ⟨h.registers.before, h.registers.empty, h.registers.kept⟩, h.heard, h.shown⟩
  | deliver =>
    simp only [sessionStep, sessionDeliver] at hlinked ⊢
    split
    · rename_i m hm
      rw [hm] at hlinked
      refine ⟨hlinked, h.spawn, h.fresh, h.pledged, h.closed,
        ⟨h.registers.before, h.registers.empty, h.registers.kept⟩, h.heard, ?_⟩
      have htake : p.toClient.take (p.received + 1) = p.toClient.take p.received ++ [m] := by
        rw [List.take_add_one, hm]
        rfl
      show (cliRecv m p.client).shown = payloads (p.toClient.take (p.received + 1))
      rw [h.linked.shows_payload hint hm, htake, payloads_append, h.shown]
    · exact h
  | stdin bs =>
    have hshown : (cliStdin bs p.client).shown = p.client.shown := by
      rcases cliStdin_cases bs p.client with hc | ⟨-, -, -, hc⟩ | ⟨-, -, hc⟩ <;> rw [hc] <;> rfl
    exact ⟨hlinked, h.spawn, h.fresh, h.pledged, h.closed,
      ⟨h.registers.before, h.registers.empty, h.registers.kept⟩, h.heard, hshown.trans h.shown⟩
  | winch row col =>
    have hshown : (cliWinch row col p.client).shown = p.client.shown := by
      unfold cliWinch
      split <;> rfl
    exact ⟨hlinked, h.spawn, h.fresh, h.pledged, h.closed,
      ⟨h.registers.before, h.registers.empty, h.registers.kept⟩, h.heard, hshown.trans h.shown⟩

end

end Sexpect.Guarantees
