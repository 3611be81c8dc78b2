import Sexpect.Guarantees.Conversation

/-!
# Sessions of the non-interactive commands

A client that runs `expect`, `wait`, `send`, `set`, `get`, `kill`, `close` or
`expect_out` never leaves on its own, so its session stays linked in every order
of steps, and what is said in it is read off the phases.
-/
namespace Sexpect.Guarantees
open Sexpect.Lib Sexpect.Source

/-- What a server says to one client: `HELLO`, the output of an `expect` or a
`wait`, one reply and `DISCONN`. -/
def Conversation (cmd : Cmd) (l : List Ttlv) : Prop :=
  ∃ outs t, Payloads cmd outs ∧ Terminal t ∧ l = msgHello :: (outs ++ [t, msgDisconn])

/-- A client that has connected to a server without a connection. -/
theorem linked_start {cmd : Cmd} {request : Ttlv} {s : Server} {mark : Nat} (hw : Windows s mark)
    (hwatch : Watching s) (hfree : s.conn.sock = false) :
    Linked cmd request (sessionStart (cliConnect cmd request) s) := by
  refine ⟨⟨mark, hw⟩, hwatch, ⟨rfl, rfl, rfl⟩, ?_, fun _ _ _ => rfl, le_rfl, ?_⟩
  · intro hready
    have hopen := hwatch.sock hready
    rw [hfree] at hopen
    cases hopen
  · simp only [Session.toClient, sessionStart, List.drop_length, hfree, cliConnect]
    exact .queued

/-- Without an `interact` nobody leaves early. -/
theorem clean_of_command (host : Host) {p : Session} (h : p.client.cmd.isInteract = false)
    (e : Event) : Clean host p e := by
  cases e with
  | server i =>
    cases i with
    | tick sys =>
      intro hint
      rw [h] at hint
      cases hint
    | child e => trivial
    | sigCHLD => trivial
  | deliver => trivial
  | stdin bs =>
    intro hd
    unfold detaches at hd
    split at hd
    · rename_i hcmd
      rw [hcmd] at h
      cases h
    · cases hd
  | winch row col => trivial
  | hangup => trivial

theorem Phase.conversation {cmd : Cmd} {request : Ttlv} {dead waiting sock passing : Bool}
    {out inn : List Ttlv} {received taken : Nat} {pc : CliPc}
    (h : Phase cmd request dead waiting sock passing out received inn taken pc)
    (hint : cmd.isInteract = false) : ∃ l, Conversation cmd l ∧ out <+: l := by
  have hack : Terminal ack := .inl rfl
  have hnone : Payloads cmd [] := ⟨by simp, by simp⟩
  cases h with
  | queued | accepted => exact ⟨_, ⟨[], ack, hnone, hack, rfl⟩, List.nil_prefix⟩
  | welcomed | asked _ _ | stuck _ => exact ⟨_, ⟨[], ack, hnone, hack, rfl⟩, ⟨[ack, msgDisconn], rfl⟩⟩
  | passing outs more houts => exact ⟨_, ⟨outs, ack, houts, hack, rfl⟩, ⟨[ack, msgDisconn], rfl⟩⟩
  | answered outs t more houts ht => exact ⟨_, ⟨outs, t, houts, ht, rfl⟩, ⟨[msgDisconn], by simp⟩⟩
  | confirmed outs t more houts ht => exact ⟨_, ⟨outs, t, houts, ht, rfl⟩, ⟨[msgDisconn], by simp⟩⟩
  | parted outs t more houts ht => exact ⟨_, ⟨outs, t, houts, ht, rfl⟩, List.prefix_rfl⟩
  | gone outs t more houts ht => exact ⟨_, ⟨outs, t, houts, ht, rfl⟩, List.prefix_rfl⟩
  | leaving _ _ _ _ hyes | left _ _ _ _ hyes | detached _ _ _ _ hyes =>
    rw [hint] at hyes
    cases hyes

/-- The client takes its leave only behind the reply. -/
theorem Phase.reply_first {cmd : Cmd} {request : Ttlv} {dead waiting sock passing : Bool}
    {out inn : List Ttlv} {received taken : Nat} {pc : CliPc}
    (h : Phase cmd request dead waiting sock passing out received inn taken pc)
    (hint : cmd.isInteract = false) (hreq : request.tag ≠ Tag.disconn) (m : Ttlv) (hm : m ∈ inn)
    (htag : m.tag = Tag.disconn) : ∃ t ∈ out.take received, Terminal t := by
  have hhello : msgHello.tag ≠ Tag.disconn := by decide
  have hmore : ∀ more, Typed cmd more → m ∈ msgHello :: request :: more → False := by
    intro more hty hm
    have hnil : more = [] := by
      by_contra hne
      rw [hty.2 hne] at hint
      cases hint
    rw [hnil] at hm
    rcases List.mem_cons.mp hm with rfl | hm
    · exact hhello htag
    · rw [List.mem_singleton.mp hm] at htag
      exact hreq htag
  have hempty : Typed cmd [] := ⟨by simp, by simp⟩
  have hreply : ∀ (outs rest : List Ttlv) (t : Ttlv), 2 + outs.length ≤ received →
      t ∈ (msgHello :: (outs ++ t :: rest)).take received := by
    intro outs rest t hle
    obtain ⟨k, rfl⟩ : ∃ k, received = k + 1 := ⟨received - 1, by omega⟩
    rw [List.take_succ_cons, List.take_append]
    obtain ⟨j, hj⟩ : ∃ j, k - outs.length = j + 1 := ⟨k - outs.length - 1, by omega⟩
    rw [hj, List.take_succ_cons]
    simp
  cases h with
  | queued | accepted | welcomed =>
    rw [List.mem_singleton.mp hm] at htag
    exact absurd htag hhello
  | asked more hty => exact (hmore more hty hm).elim
  | stuck => exact (hmore [] hempty hm).elim
  | passing outs more houts hty => exact (hmore more hty hm).elim
  | answered outs t more houts ht hty => exact (hmore more hty hm).elim
  | confirmed outs t more houts ht hty hr => exact ⟨t, hreply outs [] t hr.ge, ht⟩
  | parted outs t more houts ht hty hr => exact ⟨t, hreply outs [msgDisconn] t hr.ge, ht⟩
  | gone outs t more houts ht hty hr => exact ⟨t, hreply outs [msgDisconn] t (by omega), ht⟩
  | leaving _ _ _ _ hyes | left _ _ _ _ hyes | detached _ _ _ _ hyes =>
    rw [hint] at hyes
    cases hyes

theorem Asks.tag_ne {cmd : Cmd} {request : Ttlv} (h : Asks cmd request) :
    request.tag ≠ Tag.disconn := by
  rcases h.cases with ⟨-, h | h | h | h | h | h⟩ | ⟨subcmd, opts, -, rfl⟩
  case inr =>
    show Tag.pass % 2 ^ 24 ≠ Tag.disconn
    decide
  all_goals
    rw [h]
    decide

theorem Linked.conversation {cmd : Cmd} {request : Ttlv} {p : Session} (h : Linked cmd request p)
    (hcmd : cmd.isInteract = false) (hreq : Asks cmd request) :
    (∃ l, Conversation cmd l ∧ p.toClient <+: l) ∧
      (∀ m ∈ p.client.sent, m.tag = Tag.disconn → ∃ t ∈ p.toClient.take p.received, Terminal t) ∧
      p.client.bugs = [] ∧
      ServerBug.alreadyClosed ∉ p.server.hist.bugs ∧ ServerBug.oldConnAlive ∉ p.server.hist.bugs := by
  refine ⟨h.phase.conversation hcmd, h.phase.reply_first hcmd hreq.tag_ne, h.client.bugs, ?_, ?_⟩
  · intro hb
    cases h.watching.bugs _ hb
  · intro hb
    cases h.watching.bugs _ hb

/-- The conversation of a non-interactive command.  A client of the same version
connects to any reachable server without a connection; both then take their steps
in any order, with any answers of the system.  At every moment what the server has
said to it is the beginning of a `Conversation`, the client has taken its leave
only if the reply has arrived, and neither side has reached a `bug(...)`. -/
theorem command_conversation (host : Host) (tty : Bool) (cmd : Cmd) (request : Ttlv)
    (s₀ s : Server) (p : Session) (hcmd : cmd.isInteract = false)
    (hreq : cliMain tty cmd = .message request) (h₀ : Initial s₀)
    (hs : Reaches (servStep host) (fun _ _ => True) s₀ s) (hfree : s.conn.sock = false)
    (hrun : Reaches (sessionStep host) (fun _ _ => True) (sessionStart (cliConnect cmd request) s)
      p) :
    (∃ l, Conversation cmd l ∧ p.toClient <+: l) ∧
      (∀ m ∈ p.client.sent, m.tag = Tag.disconn → ∃ t ∈ p.toClient.take p.received, Terminal t) ∧
      p.client.bugs = [] ∧
      ServerBug.alreadyClosed ∉ p.server.hist.bugs ∧ ServerBug.oldConnAlive ∉ p.server.hist.bugs := by
  have hasks : Asks cmd request := ⟨tty, hreq⟩
  obtain ⟨mark, hw⟩ := reaches_windows host h₀ hs
  have hstart : Linked cmd request (sessionStart (cliConnect cmd request) s) :=
    linked_start hw (reaches_watching host h₀ hs) hfree
  have hstep : ∀ p e, Linked cmd request p → True → e ≠ .hangup →
      Linked cmd request (sessionStep host e p) := by
    intro p e hp _ hlasts
    apply hp.step hasks host e _ hlasts
    apply clean_of_command
    rw [hp.client.cmd]
    exact hcmd
  obtain ⟨hlinked, -⟩ | ⟨q, hlinked, hhung⟩ :=
    reaches_hung (fun _ => id) (fun _ _ _ => trivial) hstep hstart rfl hrun
  · exact hlinked.conversation hcmd hasks
  · rw [hhung.lost, cliLost_waiting hhung.waits]
    exact hlinked.conversation hcmd hasks

/-- One whole session of `sexpect send hi`, from the start of the server on. -/
def sendEvents : List Event :=
  (ticks 3 {} ++ ticks 11 { select := .ready { listen := true } } ++
      ticks 11 { select := .ready { sock := true } }).map .server ++ [.deliver] ++
    (ticks 11 { select := .ready { sock := true }, written := 2 }).map .server ++ [.deliver] ++
    (ticks 11 { select := .ready { sock := true } }).map .server ++ [.deliver]

/-- The client of `sexpect send hi`. -/
def sendClient : Client := cliConnect (.send (ascii "hi") false) (ttlvNewRaw Tag.send (ascii "hi"))

theorem command_conversation_send :
    (∃ l, Conversation (.send (ascii "hi") false) l ∧ [msgHello, ack, msgDisconn] <+: l) ∧
      (runs (sessionStep plainHost) sendEvents (sessionStart sendClient freshServer)).client.pc =
        .exited 0 := by
  have hrun : Reaches (sessionStep plainHost) (fun _ _ => True) (sessionStart sendClient freshServer)
      (runs (sessionStep plainHost) sendEvents (sessionStart sendClient freshServer)) :=
    Reaches.start.runs _ (admitted_true _ _)
  have hout : (runs (sessionStep plainHost) sendEvents
      (sessionStart sendClient freshServer)).toClient = [msgHello, ack, msgDisconn] := by decide +kernel
  refine ⟨?_, by decide +kernel⟩
  obtain ⟨hpre, -⟩ := command_conversation plainHost true (.send (ascii "hi") false)
    (ttlvNewRaw Tag.send (ascii "hi")) freshServer freshServer _ rfl (by decide) freshServer_initial
    .start rfl hrun
  rw [hout] at hpre
  exact hpre

end Sexpect.Guarantees
