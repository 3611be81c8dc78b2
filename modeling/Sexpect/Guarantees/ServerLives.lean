import Sexpect.Guarantees.CommandOutcomes

/-!
# What a server remembers from client to client

A `Life` of a server is one session behind the other.  Seen from outside a server keeps its settings
and the strings of `expect_out`, which is `Remembered`: `life_history` shows that every visit reads
and writes that as `Visited` says, and `lives_remember` is what follows for visits that are far
apart.
-/
namespace Sexpect.Guarantees
open Sexpect.Lib Sexpect.Source

/-! ## What is remembered -/

structure Remembered where
  settings : Spawn
  expout : List (Option Bytes)

/-- One use of a command: its exit code, what it was told and what it has printed. -/
structure Episode where
  cmd : Cmd
  code : Int
  heard : List Ttlv
  shown : List Bytes

/-- What a visit reads and writes, of a child with this output so far. -/
structure Visited (host : Host) (stream : Bytes) (m : Remembered) (v : Episode) (m' : Remembered) :
    Prop where
  settings : m'.settings = settingsBy v.cmd m.settings
  bare : askedPattern v.cmd = none → m'.expout = m.expout
  matched : v.cmd.isInteract = false → ∀ pattern, askedPattern v.cmd = some pattern →
    matchedMsg ∈ v.heard → MatchKept host v.cmd.expflags pattern stream m'.expout
  missed : v.cmd.isInteract = false → ∀ pattern, askedPattern v.cmd = some pattern →
    matchedMsg ∉ v.heard → m'.expout = List.replicate expectOutNum none
  get : v.cmd = .get → v.code = 0 ∧ ∃ t ∈ v.heard, ∃ peek, ∀ what,
    printInfo what t = some (infoText host m.settings peek what)
  expectOut : ∀ index, v.cmd = .expectOut index →
    if 0 ≤ (int32 index).toInt ∧ (int32 index).toInt < expectOutNum then
      v.code = 0 ∧ v.shown = [register (int32 index).toInt.toNat m.expout]
    else v.code = ErrorCode.usage ∧ v.shown = []

/-- Visits one behind the other. -/
inductive Visits (host : Host) (stream : Bytes) (m : Remembered) : List Episode → Remembered → Prop
  | nil : Visits host stream m [] m
  | snoc {vs : List Episode} {m' m'' : Remembered} (v : Episode) (h : Visits host stream m vs m')
      (hv : Visited host stream m' v m'') : Visits host stream m (vs ++ [v]) m''

section

variable {host : Host} {stream : Bytes} {m m' : Remembered}

theorem Visited.grow {v : Episode} (h : Visited host stream m v m') (got : Bytes) :
    Visited host (stream ++ got) m v m' :=
  ⟨h.settings, h.bare, fun hint pattern hasked hmem => (h.matched hint pattern hasked hmem).grow got,
    h.missed, h.get, h.expectOut⟩

theorem Visits.grow {vs : List Episode} (h : Visits host stream m vs m') (got : Bytes) :
    Visits host (stream ++ got) m vs m' := by
  induction h with
  | nil => exact .nil
  | snoc v _ hv ih => exact .snoc v ih (hv.grow got)

/-- The memory in front of a list of visits and between two of them. -/
theorem Visits.split (before : List Episode) {after : List Episode}
    (h : Visits host stream m (before ++ after) m') :
    ∃ mid, Visits host stream m before mid ∧ Visits host stream mid after m' := by
  induction after using List.reverseRecOn generalizing m' with
  | nil =>
    rw [List.append_nil] at h
    exact ⟨m', h, .nil⟩
  | append_singleton after v ih =>
    rw [← List.append_assoc] at h
    generalize hlist : before ++ after ++ [v] = vs at h
    cases h with
    | nil => simp at hlist
    | snoc u hprev hv =>
      obtain ⟨rfl, heq⟩ := List.append_inj' hlist rfl
      cases heq
      obtain ⟨mid, hbefore, hafter⟩ := ih hprev
      exact ⟨mid, hbefore, .snoc _ hafter hv⟩

theorem Visits.one {v : Episode} (h : Visits host stream m [v] m') : Visited host stream m v m' := by
  generalize hlist : [v] = vs at h
  cases h with
  | nil => cases hlist
  | snoc u hprev hv =>
    rename_i vs' mid
    have hlen := congrArg List.length hlist
    simp only [List.length_append, List.length_cons, List.length_nil] at hlen
    obtain rfl : vs' = [] := List.length_eq_zero_iff.mp (by omega)
    cases hlist
    generalize hnone : ([] : List Episode) = vs' at hprev
    cases hprev with
    | nil => exact hv
    | snoc => simp at hnone

/-- The settings are those of the `set` commands so far. -/
theorem Visits.settings {vs : List Episode} (h : Visits host stream m vs m') :
    m'.settings = vs.foldl (fun settings v => settingsBy v.cmd settings) m.settings := by
  induction h with
  | nil => rfl
  | snoc v _ hv ih =>
    rw [List.foldl_append, List.foldl_cons, List.foldl_nil, ← ih]
    exact hv.settings

/-- Visits without a pattern leave the strings of `expect_out` alone. -/
theorem Visits.expout {vs : List Episode} (h : Visits host stream m vs m')
    (hbare : ∀ v ∈ vs, askedPattern v.cmd = none) :
    m'.expout = m.expout := by
  induction h with
  | nil => rfl
  | snoc v _ hv ih =>
    rw [hv.bare (hbare v (by simp))]
    exact ih fun u hu => hbare u (by simp [hu])

end

/-! ## The lives of a server -/

/-- What a client has made of its session. -/
def episodeOf (cmd : Cmd) (code : Int) (p : Session) : Episode :=
  { cmd := cmd, code := code, heard := p.toClient, shown := p.client.shown }

def remembers (s : Server) : Remembered := { settings := s.spawn, expout := s.expout }

/-- A server that was started as `s₀`, behind the visits of clients that came one after the other.
Both sides take the steps of a session in any order, and the server goes on behind it; the user
of an `interact` leaves only while no reply is under way.  A life ends with the server, so no visit
loses its connection. -/
inductive Life (host : Host) (s₀ : Server) : List Episode → Server → Prop
  | start : Life host s₀ [] s₀
  | visit {vs : List Episode} {s : Server} {p : Session} {cmd : Cmd} {request : Ttlv} (tty : Bool)
      (code : Int) (h : Life host s₀ vs s) (haccepted : Accepted cmd)
      (hreq : cliMain tty cmd = .message request)
      (hrun : Reaches (sessionStep host) (Clean host) (sessionStart (cliConnect cmd request) s) p)
      (hend : p.client.pc = .exited code) (hlasted : p.lost = false) :
      Life host s₀ (vs ++ [episodeOf cmd code p]) p.server

section

variable {host : Host} {cmd : Cmd} {request : Ttlv} {s : Server} {p : Session} {code : Int}

/-- What an event is for the server. -/
theorem session_server (host : Host) (p : Session) (e : Event) :
    (∃ sys, (sessionStep host e p).server = servStep host (.tick (p.sys sys)) p.server) ∨
      (∃ i, (∀ sys, i ≠ .tick sys) ∧ (sessionStep host e p).server = servStep host i p.server) ∨
      (sessionStep host e p).server = p.server := by
  cases e with
  | server i =>
    cases i with
    | tick sys => exact .inl ⟨sys, rfl⟩
    | child e => exact .inr (.inl ⟨.child e, by simp, rfl⟩)
    | sigCHLD => exact .inr (.inl ⟨.sigCHLD, by simp, rfl⟩)
  | deliver =>
    simp only [sessionStep, sessionDeliver]
    split <;> exact .inr (.inr rfl)
  | stdin | winch => exact .inr (.inr rfl)
  | hangup =>
    simp only [sessionStep, sessionHangup]
    split <;> exact .inr (.inr rfl)

/-- A session is a run of its server. -/
theorem session_server_run
    (h : Reaches (sessionStep host) (Clean host) (sessionStart (cliConnect cmd request) s) p) :
    Reaches (servStep host) (fun _ _ => True) s p.server := by
  apply h.simulate Session.server
  intro p e _
  rcases session_server host p e with ⟨sys, hs⟩ | ⟨i, -, hs⟩ | hs
  · rw [hs]
    exact Reaches.start.next (Input.tick (p.sys sys)) trivial
  · rw [hs]
    exact Reaches.start.next i trivial
  · rw [hs]
    exact .start

theorem server_run_stream {mark : Nat} (hw : Windows s mark) {s' : Server}
    (h : Reaches (servStep host) (fun _ _ => True) s s') : s.hist.stream <+: s'.hist.stream := by
  have hboth : (∃ mark, Windows s' mark) ∧ s.hist.stream <+: s'.hist.stream := by
    apply h.invariant fun s' => (∃ mark, Windows s' mark) ∧ s.hist.stream <+: s'.hist.stream
    · exact ⟨⟨mark, hw⟩, List.prefix_refl _⟩
    · intro s' i hs' _
      obtain ⟨⟨mark', hw'⟩, hpre⟩ := hs'
      obtain ⟨got, hgrows⟩ := (servStep_moves host i s' mark' hw'.flow).grows
      exact ⟨⟨_, hw'.step host i⟩, hpre.trans ⟨got, hgrows.symm⟩⟩
  exact hboth.2

/-- An `interact` changes no settings. -/
theorem interact_settings {subcmd : PassSubcmd} {opts : StPass}
    (h : Linked (.pass subcmd opts) (passRequest subcmd opts) p)
    (hspawn : p.server.spawn = s.spawn) (e : Event) :
    (sessionStep host e p).server.spawn = s.spawn := by
  rw [← hspawn]
  rcases session_server host p e with ⟨sys, hs⟩ | ⟨i, hi, hs⟩ | hs
  · rw [hs]
    exact (tick_tells h host sys).2
  · rw [hs]
    cases i with
    | tick sys => exact absurd rfl (hi sys)
    | child e =>
      obtain ⟨child, pending, hchild⟩ := childChange_frame e p.server
      rw [servStep, hchild]
    | sigCHLD =>
      obtain ⟨pending, flag, hsig⟩ := servSigCHLD_frame p.server
      rw [servStep, hsig]
  · rw [hs]

/-- A server whose connection has brought no pattern, and which has kept `expout`. -/
structure Unasked (expout : List (Option Bytes)) (s : Server) : Prop where
  pattern : s.conn.sock = true → s.conn.pattern = none
  expout : s.expout = expout

theorem Unasked.step {expout : List (Option Bytes)} (h : Unasked expout s) (hf : Flow s) (host : Host)
    (i : Input) (hnone : ∀ m, received s i = some m → ¬ CarriesPattern m) :
    Unasked expout (servStep host i s) :=
  ⟨servStep_patternless hf hnone h.pattern,
    (servStep_expout host hnone (patternless_misses hf h.pattern)).trans h.expout⟩

/-- The messages of an `interact` bring the pattern of its request and no other. -/
theorem Linked.bare {subcmd : PassSubcmd} {opts : StPass}
    (h : Linked (.pass subcmd opts) (passRequest subcmd opts) p)
    (hbare : askedPattern (.pass subcmd opts) = none) {sys : Sys} {m : Ttlv}
    (hm : received p.server (.tick (p.sys sys)) = some m) : ¬ CarriesPattern m := by
  have hmem : m ∈ p.client.sent := by
    obtain ⟨sys', fds, hi, -, -, -, hmsg⟩ := received_eq_some hm
    cases hi
    exact List.mem_of_getElem? hmsg
  have hother : m.tag ≠ Tag.pass → ¬ CarriesPattern m := fun htag hcarries => htag hcarries.1
  rcases h.phase.says hmem with rfl | rfl | (htag | ⟨row, col, rfl⟩) | rfl
  · exact hother (by decide)
  · exact (Asking.pass subcmd opts).bare hbare
  · exact hother (by rw [htag]; decide)
  · exact hother (by show Tag.winch % 2 ^ 24 ≠ Tag.pass; decide)
  · exact hother (by decide)

/-- An `interact` without a pattern leaves the strings of `expect_out` alone. -/
theorem interact_unasked {subcmd : PassSubcmd} {opts : StPass} {expout : List (Option Bytes)}
    (h : Linked (.pass subcmd opts) (passRequest subcmd opts) p)
    (hbare : askedPattern (.pass subcmd opts) = none) (hasked : Unasked expout p.server) (e : Event) :
    Unasked expout (sessionStep host e p).server := by
  obtain ⟨mark, hw⟩ := h.windows
  rcases session_server host p e with ⟨sys, hs⟩ | ⟨i, hi, hs⟩ | hs
  · rw [hs]
    exact hasked.step hw.flow host _ fun m hm => h.bare hbare hm
  · rw [hs]
    refine hasked.step hw.flow host i fun m hm => ?_
    obtain ⟨sys, fds, htick, -⟩ := received_eq_some hm
    exact absurd htick (hi sys)
  · rw [hs]
    exact hasked

/-- A client that has ended has left the connection. -/
theorem Phase.freed {dead waiting sock passing : Bool} {out inn : List Ttlv} {received taken : Nat}
    (h : Phase cmd request dead waiting sock passing out received inn taken (.exited code)) :
    sock = false := by
  cases h <;> rfl

theorem interact_visited {subcmd : PassSubcmd} {opts : StPass} {mark : Nat} (hw : Windows s mark)
    (hwatch : Watching s) (hfree : s.conn.sock = false)
    (hcmd : (Cmd.pass subcmd opts).isInteract = true)
    (hreq : Asks (.pass subcmd opts) (passRequest subcmd opts))
    (hrun : Reaches (sessionStep host) (Clean host)
      (sessionStart (cliConnect (.pass subcmd opts) (passRequest subcmd opts)) s) p)
    (hend : p.client.pc = .exited code) (hlasted : p.lost = false) (stream : Bytes) :
    Visited host stream (remembers s) (episodeOf (.pass subcmd opts) code p) (remembers p.server) ∧
      p.server.conn.sock = false := by
  have hnosock : s.conn.sock = true → s.conn.pattern = none := by
    intro hsock
    rw [hfree] at hsock
    cases hsock
  have hkept : Linked (.pass subcmd opts) (passRequest subcmd opts) p ∧
      p.server.spawn = s.spawn ∧
      (askedPattern (.pass subcmd opts) = none → Unasked s.expout p.server) := by
    have hinvariant := reaches_hung
      (I := fun p => Linked (.pass subcmd opts) (passRequest subcmd opts) p ∧
        p.server.spawn = s.spawn ∧
        (askedPattern (.pass subcmd opts) = none → Unasked s.expout p.server))
      (fun _ h => h.1) (fun p _ hi => clean_apart host p hi)
      (fun p e h hclean hlasts =>
        ⟨h.1.step hreq host e hclean hlasts, interact_settings h.1 h.2.1 e,
          fun hbare => interact_unasked h.1 hbare (h.2.2 hbare) e⟩)
      ⟨linked_start hw hwatch hfree, rfl, fun _ => ⟨hnosock, rfl⟩⟩ rfl hrun
    rcases hinvariant with ⟨hkept, -⟩ | ⟨q, -, hhung⟩
    · exact hkept
    · rw [hhung.lost] at hlasted
      cases hlasted
  have hno : ∀ {P : Prop}, (episodeOf (.pass subcmd opts) code p).cmd.isInteract = false → P := by
    intro P hint
    rw [show (episodeOf (.pass subcmd opts) code p).cmd = .pass subcmd opts from rfl, hcmd] at hint
    cases hint
  have hphase := hkept.1.phase
  rw [hend] at hphase
  refine ⟨⟨hkept.2.1, fun hbare => (hkept.2.2 hbare).expout, fun h => hno h, fun h => hno h, ?_, ?_⟩,
    hphase.freed⟩
  · intro hget
    cases hget
  · intro index hget
    cases hget

theorem Outcome.visited {Taken : Session → Sys → Prop} (h : Outcome host s cmd Taken p code) :
    Visited host p.server.hist.stream (remembers s) (episodeOf cmd code p) (remembers p.server) := by
  have hresult := h.result
  refine ⟨h.settings, fun hbare => h.registers.before (.inl hbare),
    fun _ pattern hasked hmem => h.registers.kept pattern hasked hmem,
    fun _ pattern hasked hno => h.registers.empty pattern hasked h.asked hno, ?_, ?_⟩
  · rintro (rfl : cmd = .get)
    obtain ⟨hcode, -, -, buf, -, -, t, ht, hprinted⟩ := hresult
    exact ⟨hcode, t, ht, peekOf buf, hprinted⟩
  · rintro index (rfl : cmd = .expectOut index)
    exact hresult

end

/-- What is kept of a server through its life. -/
structure Lived (host : Host) (s₀ : Server) (vs : List Episode) (s : Server) : Prop where
  run : Reaches (servStep host) (fun _ _ => True) s₀ s
  free : s.conn.sock = false
  history : Visits host s.hist.stream (remembers s₀) vs (remembers s)

/-- A life of a server is a history of its memory. -/
theorem life_history {host : Host} {s₀ s : Server} {vs : List Episode} (h₀ : Initial s₀)
    (h : Life host s₀ vs s) : Lived host s₀ vs s := by
  induction h with
  | start =>
    refine ⟨.start, ?_, .nil⟩
    obtain ⟨spawn, rawbuf, expbuf, -, -, rfl⟩ := h₀
    rfl
  | @visit vs s p cmd request tty code hlife haccepted hreq hrun hend hlasted ih =>
    obtain ⟨mark, hw⟩ := reaches_windows host h₀ ih.run
    have hwatch := reaches_watching host h₀ ih.run
    have hserver := session_server_run hrun
    obtain ⟨got, hgot⟩ := server_run_stream hw hserver
    have hvisited : Visited host p.server.hist.stream (remembers s) (episodeOf cmd code p)
        (remembers p.server) ∧ p.server.conn.sock = false := by
      by_cases hint : cmd.isInteract = true
      · cases cmd with
        | pass subcmd opts =>
          have hasking := Asks.asking ⟨tty, hreq⟩
          cases hasking
          exact interact_visited hw hwatch ih.free hint ⟨tty, hreq⟩ hrun hend hlasted _
        | _ => cases hint
      · have hcmd : cmd.isInteract = false := by simpa using hint
        obtain ⟨events, hp⟩ := hrun.eq_runs
        have houtcome := (command_outcome host tty cmd request s₀ s events p code hcmd haccepted hreq h₀
          ih.run ih.free hp hend).1 hlasted
        exact ⟨houtcome.visited, houtcome.free⟩
    have hhistory := ih.history.grow got
    rw [hgot] at hhistory
    exact ⟨ih.run.trans hserver, hvisited.2, .snoc _ hhistory hvisited.1⟩

/-! ## Visits that are far apart -/

/-- The options of `sexpect set -ttl 7`. -/
def ttlOpts : StSet := { ttl := some 7 }

def setSession : Session :=
  runs (sessionStep plainHost) sendEvents
    (sessionStart (cliConnect (.set ttlOpts) (setRequest ttlOpts)) freshServer)

/-- A session at a server that is already in its loop. -/
def laterEvents : List Event :=
  (ticks 11 connecting ++ ticks 11 readable).map .server ++ [.deliver] ++
    (ticks 11 readable).map .server ++ [.deliver] ++ (ticks 11 readable).map .server ++ [.deliver]

/-- The child has said `login: ` when the server takes the request. -/
def searchEvents : List Event :=
  (ticks 11 connecting ++ ticks 11 readable).map .server ++ [.deliver] ++
    (ticks 11 { select := .ready { sock := true, ptm := true }, ptm := [.data (ascii "login: ")] } ++
      ticks 3 readable).map .server ++ [.deliver, .deliver] ++ (ticks 11 readable).map .server ++
    [.deliver]

/-- Ctrl-] as soon as the request is under way. -/
def glanceEvents : List Event :=
  (ticks 11 connecting ++ ticks 11 readable).map .server ++ [.deliver] ++
    (ticks 13 readable).map .server ++ [.stdin detachKey] ++ (ticks 11 readable).map .server ++
    [.deliver]

/-- The options of `sexpect interact`. -/
def glanceOpts : StPass :=
  { noInput := false, hasTimeout := true, timeout := -1, expflags := passExpectExit }

def searchSession : Session :=
  runs (sessionStep plainHost) searchEvents (sessionStart
    (cliConnect (.pass .expect impatientOpts) (passRequest .expect impatientOpts)) setSession.server)

def glanceSession : Session :=
  runs (sessionStep plainHost) glanceEvents (sessionStart
    (cliConnect (.pass .interact glanceOpts) (passRequest .interact glanceOpts)) searchSession.server)

def recallSession : Session :=
  runs (sessionStep plainHost) laterEvents (sessionStart
    (cliConnect (.expectOut 0) (ttlvNewInt Tag.expout (int32 0))) glanceSession.server)

def getSession : Session :=
  runs (sessionStep plainHost) laterEvents
    (sessionStart (cliConnect .get (ttlvNewStruct Tag.info)) recallSession.server)

end Sexpect.Guarantees
