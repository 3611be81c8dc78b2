import Sexpect.Guarantees.RequestEffects
import Sexpect.Guarantees.DetachSessions

/-!
# From the user's keys to the child

What a `send` or an `interact` client is given reaches `write` on the ptm in order, each chunk
once.  A `write` may take less than it is given and the rest is dropped (server.c:316-324), and
a chunk that arrives when the pty is closed is dropped whole; so what is typed is made of one
prefix of each chunk.  When a client has ended nothing of it is still under way.
-/
namespace Sexpect.Guarantees
open Sexpect.Lib Sexpect.Source

/-- The octets a list of messages asks to type, message by message. -/
def typing (msgs : List Ttlv) : List Bytes := (msgs.filter isTyping).map Ttlv.vRaw

theorem typing_append (a b : List Ttlv) : typing (a ++ b) = typing a ++ typing b := by
  simp [typing]

/-- Whether the client passes a chunk of standard input on. -/
def passesOn (c : Client) (bs : Bytes) : Bool :=
  match c.cmd with
  | .pass .interact opts => decide (c.pc = .loop) && decide (bs ≠ []) &&
      (opts.noDetach || decide (bs ≠ detachKey))
  | _ => false

/-- Whether the next stretch of the server types all of what it takes. -/
def typesWhole (p : Session) (sys : Sys) : Bool :=
  !p.server.receives || (typing (p.client.sent[p.taken]?.toList)).all fun bs =>
    p.server.ptmOpen && decide (bs.length ≤ sys.written)

/-- The chunks the user has typed into an `interact`, and whether every `write` on the ptm has
taken all it was given. -/
structure Keys where
  chunks : List Bytes := []
  whole : Bool := true
  deriving DecidableEq, Repr

def Keys.after (k : Keys) (p : Session) : Event → Keys
  | .stdin bs => if passesOn p.client bs then { k with chunks := k.chunks ++ [bs] } else k
  | .server (.tick sys) => { k with whole := k.whole && typesWhole p sys }
  | _ => k

/-- A session with the record of its keys. -/
def keyedStep (host : Host) (e : Event) (pk : Session × Keys) : Session × Keys :=
  (sessionStep host e pk.1, pk.2.after pk.1 e)

/-- What the client has sent of what it was given. -/
def Given (request : Ttlv) (sent : List Ttlv) (chunks : List Bytes) : Prop :=
  (sent = [msgHello] ∧ chunks = []) ∨
    ∃ more, sent = msgHello :: request :: more ∧ typing more = chunks

/-- What the server has typed of what it has taken. -/
def TypedOf (before typed : Bytes) (taken : List Ttlv) (whole : Bool) : Prop :=
  ∃ parts, typed = before ++ parts.flatten ∧ List.Forall₂ (· <+: ·) parts (typing taken) ∧
    (whole = true → parts = typing taken)

/-! ## The client -/

theorem cliRecv_sent (m : Ttlv) (c : Client) :
    (cliRecv m c).sent = c.sent ∨
      (c.pc = .hello ∧ (cliRecv m c).sent = c.sent ++ [c.request]) ∨
      (c.pc = .loop ∧ (cliRecv m c).sent = c.sent ++ [msgDisconn]) := by
  unfold cliRecv
  split
  · rename_i hpc
    unfold cliHello
    split
    · simp only
      split
      · exact .inl rfl
      · split
        · exact .inl rfl
        · exact .inr (.inl ⟨hpc, rfl⟩)
    · split
      · split <;> exact .inl rfl
      · exact .inl rfl
  · rename_i hpc
    have hdisconn : ∀ (exitcode fatalCode : Int) (c' : Client), c'.sent = c.sent →
        (cliDisconn exitcode fatalCode c').sent = c.sent ∨
          (c.pc = .hello ∧ (cliDisconn exitcode fatalCode c').sent = c.sent ++ [c.request]) ∨
          (c.pc = .loop ∧ (cliDisconn exitcode fatalCode c').sent = c.sent ++ [msgDisconn]) := by
      intro exitcode fatalCode c' hs
      refine .inr (.inr ⟨hpc, ?_⟩)
      simp [cliDisconn, cliSend, hs]
    unfold cliLoop
    simp only
    split
    · exact hdisconn _ _ _ rfl
    split
    · exact .inl rfl
    split
    · exact hdisconn _ _ _ rfl
    split
    · exact hdisconn _ _ _ rfl
    split
    · exact hdisconn _ _ _ rfl
    split
    · split
      · exact .inl rfl
      · split <;> exact hdisconn _ _ _ rfl
    split
    · exact hdisconn _ _ _ rfl
    split
    · exact hdisconn _ _ _ rfl
    · exact .inl rfl
  · unfold cliDisconnLoop
    split
    · exact .inl rfl
    · split
      · split <;> exact .inl rfl
      · exact .inl rfl
  · exact .inl rfl
  · exact .inl rfl

/-- A chunk is passed on, or it adds nothing to type. -/
theorem cliStdin_sent (bs : Bytes) (c : Client) :
    (passesOn c bs = true ∧ c.pc = .loop ∧
        (cliStdin bs c).sent = c.sent ++ [ttlvNewText Tag.input bs]) ∨
      passesOn c bs = false ∧
        ((cliStdin bs c).sent = c.sent ∨ c.pc = .loop ∧ (cliStdin bs c).sent = c.sent ++ [msgDisconn]) := by
  unfold cliStdin
  split
  · rename_i opts hcmd hpc
    have hpass : passesOn c bs = (decide (bs ≠ []) && (opts.noDetach || decide (bs ≠ detachKey))) := by
      simp [passesOn, hcmd, hpc]
    split
    · rename_i hnil
      refine .inr ⟨?_, .inl rfl⟩
      rw [hpass, hnil]
      rfl
    · rename_i hne
      split
      · rename_i hkey
        refine .inr ⟨?_, .inr ⟨hpc, rfl⟩⟩
        rw [hpass]
        simp [hkey.1, hkey.2]
      · rename_i hkey
        refine .inl ⟨?_, hpc, rfl⟩
        rw [hpass]
        simp only [not_and, Bool.not_eq_true] at hkey
        cases hd : opts.noDetach
        · simp [hne, hkey hd]
        · simp [hne]
  · rename_i hother
    refine .inr ⟨?_, .inl rfl⟩
    unfold passesOn
    split
    · rename_i opts hcmd
      have hpc : c.pc ≠ .loop := hother opts hcmd
      simp [hpc]
    · rfl

section

variable {cmd : Cmd} {request : Ttlv} {dead waiting sock passing : Bool} {out inn : List Ttlv}
  {received taken : Nat} {pc : CliPc} {chunks : List Bytes}

theorem Phase.taken_le (h : Phase cmd request dead waiting sock passing out received inn taken pc) :
    taken ≤ inn.length := by
  cases h <;> simp only [List.length_cons, List.length_append, List.length_nil] <;> omega

/-- The request is sent behind the greeting. -/
theorem Phase.greeting (h : Phase cmd request dead waiting sock passing out received inn taken pc) :
    (pc = .hello → inn = [msgHello]) ∧ (pc = .loop → 2 ≤ inn.length) := by
  cases h <;> simp

/-- A client that has ended has been heard to the end. -/
theorem Phase.taken_all (h : Phase cmd request dead waiting sock passing out received inn taken pc)
    {code : Int} (hpc : pc = .exited code) : taken = inn.length ∧ 2 ≤ inn.length := by
  cases h with
  | gone outs t more houts ht hmore hr ht3 | detached outs more houts hmore hint hr ht3 =>
    simp only [List.length_cons, List.length_append, List.length_nil]
    omega
  | _ => cases hpc

theorem Given.more {sent : List Ttlv} (h : Given request sent chunks) (hlen : 2 ≤ sent.length)
    (m : Ttlv) : Given request (sent ++ [m]) (chunks ++ typing [m]) := by
  rcases h with ⟨rfl, -⟩ | ⟨more, rfl, rfl⟩
  · simp at hlen
  · exact .inr ⟨more ++ [m], rfl, typing_append more [m]⟩

theorem Given.quiet {sent : List Ttlv} (h : Given request sent chunks) (hlen : 2 ≤ sent.length)
    {m : Ttlv} (hm : typing [m] = []) : Given request (sent ++ [m]) chunks := by
  have := h.more hlen m
  rwa [hm, List.append_nil] at this

/-- The request is sent. -/
theorem Given.asked {sent : List Ttlv} (h : Given request sent chunks) (hs : sent = [msgHello]) :
    Given request ([msgHello] ++ [request]) chunks := by
  rcases h with ⟨-, rfl⟩ | ⟨more, h, -⟩
  · exact .inr ⟨[], rfl, rfl⟩
  · rw [h] at hs
    simp at hs

theorem Given.typing_prefix {sent : List Ttlv} (h : Given request sent chunks) :
    typing sent <+: typing [request] ++ chunks ∧
      (2 ≤ sent.length → typing sent = typing [request] ++ chunks) := by
  have hhello : typing [msgHello] = [] := by decide
  rcases h with ⟨rfl, rfl⟩ | ⟨more, rfl, rfl⟩
  · rw [hhello]
    exact ⟨List.nil_prefix, by simp⟩
  · have hsplit : typing (msgHello :: request :: more) = typing [request] ++ typing more := by
      rw [← typing_append]
      show typing ([msgHello] ++ (request :: more)) = _
      rw [typing_append, hhello]
      rfl
    exact ⟨⟨[], by rw [List.append_nil, hsplit]⟩, fun _ => hsplit⟩

end

/-! ## The server -/

/-- Of the octets of a message a prefix is typed. -/
theorem typedBy_prefix (sys : Sys) (m : Ttlv) (s : Server) :
    ∃ parts, typedBy sys m s = parts.flatten ∧ List.Forall₂ (· <+: ·) parts (typing [m]) ∧
      ((typing [m]).all (fun bs => s.ptmOpen && decide (bs.length ≤ sys.written)) = true →
        parts = typing [m]) := by
  unfold typedBy
  by_cases hm : isTyping m = true
  · have htyping : typing [m] = [m.vRaw] := by simp [typing, hm]
    rw [htyping, hm, Bool.true_and]
    by_cases hopen : s.ptmOpen = true
    · rw [if_pos hopen]
      refine ⟨[m.vRaw.take sys.written], by simp, .cons (List.take_prefix _ _) .nil, ?_⟩
      intro hall
      simp only [List.all_cons, List.all_nil, Bool.and_true, Bool.and_eq_true,
        decide_eq_true_eq] at hall
      rw [List.take_of_length_le hall.2]
    · rw [if_neg hopen]
      refine ⟨[[]], by simp, .cons List.nil_prefix .nil, ?_⟩
      simp [hopen]
  · have htyping : typing [m] = [] := by simp [typing, hm]
    rw [htyping, if_neg (by simp [hm])]
    exact ⟨[], rfl, .nil, fun _ => rfl⟩

theorem TypedOf.more {before typed : Bytes} {taken : List Ttlv} {whole : Bool}
    (h : TypedOf before typed taken whole) (sys : Sys) (m : Ttlv) (s : Server) :
    TypedOf before (typed ++ typedBy sys m s) (taken ++ [m])
      (whole && (typing [m]).all fun bs => s.ptmOpen && decide (bs.length ≤ sys.written)) := by
  obtain ⟨parts, rfl, hparts, hwhole⟩ := h
  obtain ⟨new, hnew, hstart, hall⟩ := typedBy_prefix sys m s
  refine ⟨parts ++ new, ?_, ?_, ?_⟩
  · rw [hnew, List.flatten_append, List.append_assoc]
  · rw [typing_append]
    exact List.rel_append hparts hstart
  · intro hboth
    rw [Bool.and_eq_true] at hboth
    rw [typing_append, hwhole hboth.1, hall hboth.2]

theorem TypedOf.doubt {before typed : Bytes} {taken : List Ttlv} {whole : Bool}
    (h : TypedOf before typed taken whole) (b : Bool) : TypedOf before typed taken (whole && b) := by
  obtain ⟨parts, htyped, hparts, hwhole⟩ := h
  refine ⟨parts, htyped, hparts, ?_⟩
  intro hboth
  rw [Bool.and_eq_true] at hboth
  exact hwhole hboth.1

/-! ## The session -/

/-- The facts that hold of a session and its keys at every moment. -/
structure Keyed (cmd : Cmd) (request : Ttlv) (before : Bytes) (p : Session) (k : Keys) : Prop where
  linked : Linked cmd request p
  given : Given request p.client.sent k.chunks
  typed : TypedOf before p.server.hist.typed (p.client.sent.take p.taken) k.whole

section

variable {cmd : Cmd} {request : Ttlv} {before : Bytes} {p : Session} {k : Keys}

theorem sent_grows {sent extra : List Ttlv} {taken : Nat} (h : taken ≤ sent.length) :
    (sent ++ extra).take taken = sent.take taken := List.take_append_of_le_length h

/-- A step of the server types what it takes. -/
theorem Keyed.tick (h : Keyed cmd request before p k) (host : Host) (sys : Sys) :
    TypedOf before (sessionServer host p (.tick sys)).server.hist.typed
      (p.client.sent.take (sessionServer host p (.tick sys)).taken) (k.whole && typesWhole p sys) := by
  simp only [sessionServer, servStep]
  by_cases hr : p.server.receives = true
  · obtain ⟨fds, m, -, -, hmsg, htick⟩ := h.linked.tick_receives host sys hr
    have htold := congrArg Prod.snd
      (told_dispatch host (p.sys sys) m { p.server with pc := .pass })
    simp only [Server.told] at htold
    have htaken : p.client.sent.take (p.taken + 1) = p.client.sent.take p.taken ++ [m] := by
      rw [List.take_add_one, hmsg]
      rfl
    rw [htick, if_pos hr, htaken, htold]
    have hmore := h.typed.more (p.sys sys) m { p.server with pc := .pass }
    simp only [typesWhole, hr, hmsg]
    exact hmore
  · have hno : p.server.receives = false := by simpa using hr
    have htold := congrArg Prod.snd (told_tick host (p.sys sys) p.server hno)
    simp only [Server.told] at htold
    rw [if_neg hr, htold]
    exact h.typed.doubt _

theorem Keyed.step (h : Keyed cmd request before p k) (hreq : Asks cmd request) (host : Host)
    (e : Event) (hclean : Clean host p e) (hlasts : e ≠ .hangup) :
    Keyed cmd request before (sessionStep host e p) (k.after p e) := by
  have hlinked := h.linked.step hreq host e hclean hlasts
  have htaken : p.taken ≤ p.client.sent.length := h.linked.phase.taken_le
  obtain ⟨hhello, hloop⟩ := h.linked.phase.greeting
  cases e with
  | hangup => exact absurd rfl hlasts
  | server i =>
    cases i with
    | tick sys => exact ⟨hlinked, h.given, h.tick host sys⟩
    | child e =>
      obtain ⟨child, pending, hs⟩ := childChange_frame e p.server
      refine ⟨hlinked, h.given, ?_⟩
      simp only [sessionStep, sessionServer, servStep, hs]
      exact h.typed
    | sigCHLD =>
      obtain ⟨pending, flag, hs⟩ := servSigCHLD_frame p.server
      refine ⟨hlinked, h.given, ?_⟩
      simp only [sessionStep, sessionServer, servStep, hs]
      exact h.typed
  | deliver =>
    refine ⟨hlinked, ?_, ?_⟩ <;> simp only [sessionStep, sessionDeliver] <;> split
    · rename_i m _
      rcases cliRecv_sent m p.client with hs | ⟨hpc, hs⟩ | ⟨hpc, hs⟩ <;> simp only [hs]
      · exact h.given
      · rw [h.linked.client.request, hhello hpc]
        exact h.given.asked (hhello hpc)
      · exact h.given.quiet (hloop hpc) (by decide)
    · exact h.given
    · rename_i m _
      rcases cliRecv_sent m p.client with hs | ⟨hpc, hs⟩ | ⟨hpc, hs⟩ <;> simp only [hs]
      · exact h.typed
      · rw [sent_grows htaken]
        exact h.typed
      · rw [sent_grows htaken]
        exact h.typed
    · exact h.typed
  | stdin bs =>
    rcases cliStdin_sent bs p.client with ⟨hpass, hpc, hs⟩ | ⟨hpass, hs⟩
    · refine ⟨hlinked, ?_, ?_⟩
      · simp only [sessionStep, Keys.after, hpass, if_true, hs]
        exact h.given.more (hloop hpc) (ttlvNewText Tag.input bs)
      · simp only [sessionStep, Keys.after, hpass, if_true, hs]
        rw [sent_grows htaken]
        exact h.typed
    · have hkeys : k.after p (.stdin bs) = k := by simp [Keys.after, hpass]
      rw [hkeys]
      rcases hs with hs | ⟨hpc, hs⟩
      · refine ⟨hlinked, ?_, ?_⟩ <;> simp only [sessionStep, hs]
        · exact h.given
        · exact h.typed
      · refine ⟨hlinked, ?_, ?_⟩ <;> simp only [sessionStep, hs]
        · exact h.given.quiet (hloop hpc) (by decide)
        · rw [sent_grows htaken]
          exact h.typed
  | winch row col =>
    refine ⟨hlinked, ?_, ?_⟩ <;> simp only [sessionStep, cliWinch] <;> split
    · rename_i hin
      exact h.given.quiet (hloop hin.2) rfl
    · exact h.given
    · simp only [cliSend]
      rw [sent_grows htaken]
      exact h.typed
    · exact h.typed

/-- Behind the loss of the connection nothing is typed. -/
theorem Hung.keys_after {q : Session} (h : Hung q p) (e : Event) : k.after p e = k := by
  cases e with
  | server i =>
    cases i with
    | tick sys =>
      have hpc : Pc.dead p.server.pc = true := by
        rw [h.lost]
        exact h.dead
      have hno : p.server.receives = false := by
        unfold Server.receives
        split
        · rename_i hat
          rw [hat] at hpc
          cases hpc
        · rfl
      simp [Keys.after, typesWhole, hno]
    | child | sigCHLD => rfl
  | stdin bs =>
    have hpass : passesOn p.client bs = false := by
      unfold passesOn
      rw [h.client]
      split
      · rfl
      · rfl
    simp [Keys.after, hpass]
  | deliver | winch | hangup => rfl

/-- What holds of a session and its keys holds now, or it held until the connection was lost. -/
theorem reaches_keyed {host : Host} {p₀ : Session} (hreq : Asks cmd request)
    (h₀ : Keyed cmd request before p₀ {}) (hlasted : p₀.lost = false)
    (h : Reaches (keyedStep host) (fun pk e => Clean host pk.1 e) (p₀, {}) (p, k)) :
    Keyed cmd request before p k ∧ p.lost = false ∨ ∃ q, Keyed cmd request before q k ∧ Hung q p := by
  apply h.invariant fun pk => Keyed cmd request before pk.1 pk.2 ∧ pk.1.lost = false ∨
    ∃ q, Keyed cmd request before q pk.2 ∧ Hung q pk.1
  · exact .inl ⟨h₀, hlasted⟩
  rintro ⟨p, k⟩ e (⟨hp, hlasted⟩ | ⟨q, hq, hhung⟩) hclean
  · by_cases hlasts : e = .hangup
    · subst hlasts
      obtain hsame | hhung := hp.linked.hangup hlasted
      · exact .inl ⟨by rw [keyedStep, sessionStep, hsame]; exact hp,
          by rw [keyedStep, sessionStep, hsame]; exact hlasted⟩
      · exact .inr ⟨p, hp, hhung⟩
    · refine .inl ⟨hp.step hreq host e hclean hlasts, ?_⟩
      rw [keyedStep, sessionStep_lost host hlasts]
      exact hlasted
  · rw [keyedStep, hhung.keys_after e]
    obtain hhung' | ⟨i, hi, rfl, hhung'⟩ := hhung.step host e
    · exact .inr ⟨q, hq, hhung'⟩
    · have hnext := hq.step hreq host (.server i) (clean_apart host q hi) (by simp)
      have hkeys : k.after q (.server i) = k := by
        cases i with
        | tick sys => exact absurd rfl (hi sys)
        | child | sigCHLD => rfl
      rw [hkeys] at hnext
      exact .inr ⟨_, hnext, hhung'⟩

theorem Keyed.typed_prefix (h : Keyed cmd request before p k) :
    ∃ parts taken, p.server.hist.typed = before ++ parts.flatten ∧
      List.Forall₂ (· <+: ·) parts taken ∧ taken <+: typing [request] ++ k.chunks ∧
      (k.whole = true → parts = taken) ∧
      ∀ code, p.client.pc = .exited code → taken = typing [request] ++ k.chunks := by
  obtain ⟨parts, htyped, hparts, hwhole⟩ := h.typed
  obtain ⟨hstart, hall⟩ := h.given.typing_prefix
  refine ⟨parts, typing (p.client.sent.take p.taken), htyped, hparts, ?_, hwhole, ?_⟩
  · have htake : typing (p.client.sent.take p.taken) <+: typing p.client.sent :=
      ((List.take_prefix _ _).filter _).map _
    exact htake.trans hstart
  · intro code hpc
    obtain ⟨htaken, hlen⟩ := h.linked.phase.taken_all hpc
    rw [htaken, List.take_length, hall hlen]

end

/-- From the user's keys to the child.  A client of any command connects to any reachable server
without a connection; both then take their steps in any order in which the user leaves an
`interact` only while no reply is under way.  At every moment the server has typed, behind what it
had typed before, one prefix of each chunk of a beginning of what the client was given: the octets
of a `send`, the chunks typed into an `interact`.  Nothing is typed twice or out of order, and if
every `write` took all it was given nothing is cut.  When the client has ended, every chunk has
had its turn, unless the server has ended before it and the connection was lost. -/
theorem typed_in_order (host : Host) (tty : Bool) (cmd : Cmd) (request : Ttlv) (s₀ s : Server)
    (p : Session) (k : Keys) (hreq : cliMain tty cmd = .message request) (h₀ : Initial s₀)
    (hs : Reaches (servStep host) (fun _ _ => True) s₀ s) (hfree : s.conn.sock = false)
    (hrun : Reaches (keyedStep host) (fun pk e => Clean host pk.1 e)
      (sessionStart (cliConnect cmd request) s, {}) (p, k)) :
    ∃ parts taken, p.server.hist.typed = s.hist.typed ++ parts.flatten ∧
      List.Forall₂ (· <+: ·) parts taken ∧ taken <+: typing [request] ++ k.chunks ∧
      (k.whole = true → parts = taken) ∧
      (p.lost = false → ∀ code, p.client.pc = .exited code → taken = typing [request] ++ k.chunks) ∧
      (p.lost = true → p.client.pc = .exited ErrorCode.proto ∧ Pc.dead p.server.pc = true) := by
  obtain ⟨mark, hw⟩ := reaches_windows host h₀ hs
  have hstart : Keyed cmd request s.hist.typed (sessionStart (cliConnect cmd request) s) {} :=
    ⟨linked_start hw (reaches_watching host h₀ hs) hfree, .inl ⟨rfl, rfl⟩,
      ⟨[], by simp [sessionStart], .nil, fun _ => rfl⟩⟩
  obtain ⟨hkeyed, hlasted⟩ | ⟨q, hkeyed, hhung⟩ := reaches_keyed ⟨tty, hreq⟩ hstart rfl hrun
  · obtain ⟨parts, taken, htyped, hparts, hpre, hwhole, hall⟩ := hkeyed.typed_prefix
    refine ⟨parts, taken, htyped, hparts, hpre, hwhole, fun _ => hall, ?_⟩
    rw [hlasted]
    rintro ⟨⟩
  · obtain ⟨parts, taken, htyped, hparts, hpre, hwhole, -⟩ := hkeyed.typed_prefix
    rw [hhung.lost, cliLost_waiting hhung.waits]
    exact ⟨parts, taken, htyped, hparts, hpre, hwhole, by rintro ⟨⟩, fun _ => ⟨rfl, hhung.dead⟩⟩

/-- `sexpect interact`, two keys, and a pty that takes one octet at a time. -/
def keyEvents : List Event :=
  (ticks 3 {} ++ ticks 11 connecting ++ ticks 11 readable).map .server ++ [.deliver] ++
    (ticks 13 readable).map .server ++ [.stdin (ascii "ls"), .stdin [13]] ++
    (ticks 26 { select := .ready { sock := true }, written := 1 }).map .server

theorem typed_in_order_keys :
    ∃ parts taken, (runs (keyedStep plainHost) keyEvents
        (sessionStart interactClient freshServer, {})).1.server.hist.typed = [] ++ parts.flatten ∧
      List.Forall₂ (· <+: ·) parts taken ∧ taken <+: [ascii "ls", [13]] := by
  have hrun : Reaches (keyedStep plainHost) (fun pk e => Clean plainHost pk.1 e)
      (sessionStart interactClient freshServer, {})
      (runs (keyedStep plainHost) keyEvents (sessionStart interactClient freshServer, {})) :=
    Reaches.start.runs _ (by decide +kernel)
  have hend : (runs (keyedStep plainHost) keyEvents
        (sessionStart interactClient freshServer, {})).2.chunks = [ascii "ls", [13]] ∧
      typing [interactClient.request] = [] := by decide +kernel
  obtain ⟨hchunks, hrequest⟩ := hend
  generalize runs (keyedStep plainHost) keyEvents (sessionStart interactClient freshServer, {}) = pk
    at hrun hchunks ⊢
  obtain ⟨p, k⟩ := pk
  obtain ⟨parts, taken, hparts, hstart, hgiven, -⟩ := typed_in_order plainHost true
    interactClient.cmd interactClient.request freshServer freshServer p k (by decide)
    freshServer_initial .start rfl hrun
  rw [hchunks, hrequest] at hgiven
  exact ⟨parts, taken, hparts, hstart, hgiven⟩

end Sexpect.Guarantees
