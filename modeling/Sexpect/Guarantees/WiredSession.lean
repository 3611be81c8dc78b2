import Sexpect.Guarantees.CommandSessions
import Sexpect.Guarantees.MessageSizes
import Sexpect.Guarantees.RequestsArrive
import Sexpect.Source.Wire

/-!
# The session over octets

Between a client and a server that talk through `msg_send` and `msg_recv`, whatever the system
makes of their `read` and `write` calls, the octets under way are at every moment the frames of
the messages under way in the session of `Sexpect.Source.Session`, and both programs are in the
states of that session.
-/
namespace Sexpect.Guarantees
open Sexpect.Lib Sexpect.Source

/-! ## Descriptors -/

theorem delivering_arrive (plan : List (Option Nat)) (bs : Bytes) : Delivering (arrive plan bs) := by
  induction plan generalizing bs with
  | nil =>
    unfold arrive
    split
    · simp [Delivering]
    · rename_i hne
      simp [Delivering, hne]
  | cons e plan ih =>
    cases e with
    | none =>
      intro e he
      rcases List.mem_cons.mp he with rfl | he
      · exact .inl rfl
      · exact ih bs e he
    | some k =>
      unfold arrive
      split
      · simp [Delivering]
      · rename_i hne
        intro e he
        rcases List.mem_cons.mp he with rfl | he
        · exact .inr ⟨_, by simp [hne], rfl⟩
        · exact ih _ e he

theorem unread_arrive (plan : List (Option Nat)) (bs : Bytes) : unread (arrive plan bs) = bs := by
  induction plan generalizing bs with
  | nil =>
    unfold arrive
    split
    · rename_i hnil
      rw [hnil]
      rfl
    · simp [unread]
  | cons e plan ih =>
    cases e with
    | none => exact ih bs
    | some k =>
      unfold arrive
      split
      · rename_i hnil
        rw [hnil]
        rfl
      · rw [unread, ih, List.take_append_drop]

theorem available_eq_unread {fd : List ReadEvent} (h : Delivering fd) : available fd = unread fd := by
  induction fd with
  | nil => rfl
  | cons e fd ih =>
    have hrest := ih fun e he => h e (by simp [he])
    rcases h e (by simp) with rfl | ⟨bs, hne, rfl⟩
    · exact hrest
    · rw [available, if_neg hne, unread, hrest]

theorem readn_delivering {fd : List ReadEvent} (n : Nat) (h : Delivering fd) :
    Delivering (readn fd n).2.2 := by
  induction fd generalizing n with
  | nil => exact h
  | cons e fd ih =>
    have hrest : Delivering fd := fun e he => h e (by simp [he])
    rcases h e (by simp) with rfl | ⟨bs, hne, rfl⟩
    · unfold readn
      split
      · exact h
      · exact ih n hrest
    · unfold readn
      split
      · exact h
      · split
        · intro e he
          rcases List.mem_cons.mp he with rfl | he
          · refine .inr ⟨_, ?_, rfl⟩
            intro hnil
            have := congrArg List.length hnil
            rw [List.length_drop, List.length_nil] at this
            omega
          · exact hrest e he
        · exact ih _ hrest

theorem msgRecvBody_delivering {buf buf' : Bytes} {fd fd' : List ReadEvent} {m : Ttlv}
    (h : Delivering fd) (hrecv : msgRecvBody buf fd = .returned m buf' fd') : Delivering fd' := by
  unfold msgRecvBody at hrecv
  dsimp only at hrecv
  split at hrecv
  · cases hrecv
    exact h
  · have hread := readn_delivering (round8 (beDecode ((buf.drop 4).take 4))) h
    split at hrecv
    · cases hrecv
    · split at hrecv
      · cases hrecv
        exact hread
      · split at hrecv <;> cases hrecv <;> exact hread

theorem msgRecv_delivering {buf buf' : Bytes} {fd fd' : List ReadEvent} {m : Ttlv}
    (h : Delivering fd) (hrecv : msgRecv buf fd = .returned m buf' fd') : Delivering fd' := by
  have hmagic := readn_delivering 4 h
  have hheader := readn_delivering tagHdrSize hmagic
  unfold msgRecv at hrecv
  dsimp only at hrecv
  split at hrecv
  · cases hrecv
    exact hmagic
  · split at hrecv
    · cases hrecv
      exact hmagic
    · split at hrecv
      · cases hrecv
        exact hheader
      · exact msgRecvBody_delivering hheader hrecv

/-! ## Frames -/

/-- The octets of messages one behind the other. -/
def frames (ms : List Ttlv) : Bytes := (ms.map frame).flatten

theorem frames_append (ms ms' : List Ttlv) : frames (ms ++ ms') = frames ms ++ frames ms' := by
  unfold frames
  rw [List.map_append, List.flatten_append]

theorem frames_cons (m : Ttlv) (ms : List Ttlv) : frames (m :: ms) = frame m ++ frames ms := rfl

theorem frames_nil_iff (ms : List Ttlv) : frames ms = [] ↔ ms = [] := by
  cases ms with
  | nil => simp [frames]
  | cons m ms => simp [frames_cons, frame, beEncode]

/-- `msg_recv` takes the first frame, however it arrives. -/
theorem msgRecv_arrive {buf : Bytes} (plan : List (Option Nat)) {m : Ttlv} (ms : List Ttlv)
    (hm : FitsMsg m) (hbuf : buf.length = passMaxMsg) :
    ∃ buf' fd, msgRecv buf (arrive plan (frames (m :: ms))) = .returned m buf' fd ∧
      buf'.length = passMaxMsg ∧ unread fd = frames ms := by
  have hdelivering := delivering_arrive plan (frames (m :: ms))
  have havail : available (arrive plan (frames (m :: ms))) = frame m ++ frames ms := by
    rw [available_eq_unread hdelivering, unread_arrive, frames_cons]
  obtain ⟨buf', fd, hrecv, hlen, hrest⟩ := msgRecv_frame buf _ m _ hm.built hbuf hm.size havail
  refine ⟨buf', fd, hrecv, hlen, ?_⟩
  rw [← available_eq_unread (msgRecv_delivering hdelivering hrecv), hrest]

/-- Messages that fit get through. -/
theorem sendEach_frames {buf : Bytes} {fd : List WriteEvent} {ms : List Ttlv}
    (hms : ∀ m ∈ ms, FitsMsg m) (hbuf : buf.length = passMaxMsg) (hfd : Progress fd) :
    ∃ buf', sendEach buf fd ms = (true, frames ms, buf') ∧ buf'.length = passMaxMsg := by
  induction ms generalizing buf fd with
  | nil => exact ⟨buf, rfl, hbuf⟩
  | cons m ms ih =>
    have hm := hms m (by simp)
    obtain ⟨buf₁, fd₁, hsend, hbuf₁, hfd₁⟩ := msgSend_frame buf fd m hm.built hbuf hfd hm.size
    obtain ⟨buf₂, hrest, hbuf₂⟩ := ih (fun m hm => hms m (by simp [hm])) hbuf₁ hfd₁
    have hpos : ¬ ttlvCalcSize m < 0 := by
      have hmax : passMaxMsg = 65536 := rfl
      have hsize := hm.size
      rw [ttlvCalcSize_eq_wire m hm.built.valid (by omega)]
      omega
    exact ⟨buf₂, by simp only [sendEach, hsend, if_neg hpos, hrest, frames_cons], hbuf₂⟩

/-! ## The messages of the client -/

theorem fits_disconn : FitsMsg msgDisconn := fits_empty (by decide)

theorem fits_winch (row col : Int) : FitsMsg (winchMsg row col) := by
  apply fits_struct (by decide)
  · simp only [List.mem_cons, List.not_mem_nil, or_false, forall_eq_or_imp, forall_eq]
    exact ⟨.int _ _ (by decide), .int _ _ (by decide)⟩
  · simp only [List.map_cons, List.map_nil, List.sum_cons, List.sum_nil, wire_int]
    decide

/-- From one state of the client to the next: what it sends fits. -/
structure Sends (c next : Client) : Prop where
  request : next.request = c.request
  sent : ∃ new, next.sent = c.sent ++ new ∧ ∀ m ∈ new, FitsMsg m

theorem Sends.nothing {c next : Client} (hr : next.request = c.request) (hs : next.sent = c.sent) :
    Sends c next :=
  ⟨hr, [], by rw [hs, List.append_nil], by simp⟩

theorem Sends.one {c next : Client} {m : Ttlv} (hm : FitsMsg m) (hr : next.request = c.request)
    (hs : next.sent = c.sent ++ [m]) : Sends c next := by
  refine ⟨hr, [m], hs, ?_⟩
  intro t ht
  rw [List.mem_singleton.mp ht]
  exact hm

theorem sends_cliLost (c : Client) : Sends c (cliLost c) := by
  unfold cliLost
  split <;> exact .nothing rfl rfl

theorem sends_cliRecv {c : Client} (m : Ttlv) (hrequest : FitsMsg c.request) : Sends c (cliRecv m c) := by
  have hleave : ∀ exitcode fatalCode payload,
      Sends c (cliDisconn exitcode fatalCode { c with shown := payload }) :=
    fun _ _ _ => .one fits_disconn rfl rfl
  unfold cliRecv
  split
  · unfold cliHello
    split
    · dsimp only
      split
      · exact .nothing rfl rfl
      · split
        · exact .nothing rfl rfl
        · exact .one hrequest rfl rfl
    · split
      · split <;> exact .nothing rfl rfl
      · exact .nothing rfl rfl
  · unfold cliLoop
    split
    · exact hleave _ _ _
    split
    · exact .nothing rfl rfl
    split
    · exact hleave _ _ _
    split
    · exact hleave _ _ _
    split
    · exact hleave _ _ _
    split
    · dsimp only
      split
      · exact .nothing rfl rfl
      · split <;> exact hleave _ _ _
    split
    · exact hleave _ _ _
    split
    · exact hleave _ _ _
    · exact .nothing rfl rfl
  · unfold cliDisconnLoop
    split
    · exact .nothing rfl rfl
    · split
      · split <;> exact .nothing rfl rfl
      · exact .nothing rfl rfl
  · exact .nothing rfl rfl
  · exact .nothing rfl rfl

theorem sends_cliStdin {c : Client} {bs : Bytes} (hbs : bs.length ≤ 1024) :
    Sends c (cliStdin bs c) := by
  have hmax : passMaxMsg = 65536 := rfl
  unfold cliStdin
  split
  · split
    · exact .nothing rfl rfl
    · split
      · exact .one fits_disconn rfl rfl
      · exact .one (fits_text (by decide) (by omega)) rfl rfl
  · exact .nothing rfl rfl

theorem sends_cliWinch (row col : Int) (c : Client) : Sends c (cliWinch row col c) := by
  unfold cliWinch
  split
  · exact .one (fits_winch row col) rfl rfl
  · exact .nothing rfl rfl

/-! ## Stretches of the server -/

/-- Where no message is received it does not matter which one there is. -/
theorem tick_unread (host : Host) (sys sys' : Sys) {s : Server} (hrecv : s.receives = false)
    (hsys : { sys' with msg := sys.msg } = sys) : tick host sys s = tick host sys' s := by
  rw [← hsys]
  cases hpc : s.pc with
  | recv fds =>
    have hshut : ¬ (s.conn.sock = true ∧ fds.sock = true) := by
      rintro ⟨hsock, hready⟩
      simp [Server.receives, hpc, hsock, hready] at hrecv
    simp only [tick, hpc, loopRecv, if_neg hshut]
  | _ => simp only [tick, hpc] <;> rfl

/-- Where a message is received it does not matter what `select` has reported. -/
theorem tick_received (host : Host) (sys sys' : Sys) {s : Server} (hrecv : s.receives = true)
    (hsys : { sys' with select := sys.select } = sys) : tick host sys s = tick host sys' s := by
  obtain ⟨fds, hpc, -⟩ := (receives_iff s).mp hrecv
  rw [← hsys]
  simp only [tick, hpc]
  rfl

/-! ## One step -/

/-- Every `write` on the connection makes progress; a `read` of standard input fits the buffer of
`cli_loop`, and the text of a failed `kill` the one of `serv_process_msg`. -/
def Lossless : WireEvent → Prop
  | .server i _ writes => Progress writes ∧ ∀ s, ShortErrors s i
  | .deliver _ writes => Progress writes
  | .stdin bs writes => Progress writes ∧ bs.length ≤ 1024
  | .winch _ _ writes => Progress writes
  | .hangup _ => True

/-- The octets under way are the frames of the messages under way. -/
structure Wired (w : Wire) (p : Session) : Prop where
  client : w.client = p.client
  server : w.server = p.server
  waiting : w.waiting = p.waiting
  up : w.up = frames (p.client.sent.drop p.taken)
  down : w.down = frames (p.toClient.drop p.received)
  calm : w.overrun = false
  cliSendBuf : w.cliSendBuf.length = passMaxMsg
  cliRecvBuf : w.cliRecvBuf.length = passMaxMsg
  servSendBuf : w.servSendBuf.length = passMaxMsg
  servRecvBuf : w.servRecvBuf.length = passMaxMsg

/-- What the messages of a session owe to its two programs. -/
structure Fitting (p : Session) : Prop where
  windows : ∃ mark, Windows p.server mark
  watching : Watching p.server
  outgoing : Outgoing p.server
  request : FitsMsg p.client.request
  sent : ∀ m ∈ p.client.sent, FitsMsg m
  ready : (Pc.readfds p.server.pc).sock = true → p.taken < p.client.sent.length
  taken : p.taken ≤ p.client.sent.length
  base : p.base ≤ p.server.hist.sent.length
  received : p.received ≤ p.toClient.length

theorem receives_ready {s : Server} (h : s.receives = true) : (Pc.readfds s.pc).sock = true := by
  obtain ⟨fds, hpc, -, hready⟩ := (receives_iff s).mp h
  rw [hpc]
  exact hready

theorem Fitting.tick {host : Host} {p : Session} {sys : Sys} (h : Fitting p) (hname : ShortName host)
    (herror : ∀ s, ShortErrors s (.tick sys)) : Fitting (sessionServer host p (.tick sys)) := by
  obtain ⟨mark, hw⟩ := h.windows
  have hgrows := log_grows host (.tick (p.sys sys)) hw.flow
  have hready : p.server.receives = true → p.taken < p.client.sent.length :=
    fun hr => h.ready (receives_ready hr)
  have hwindows := hw.step host (.tick (p.sys sys))
  have hwatching := h.watching.step hw.flow host (.tick (p.sys sys))
  have houtgoing := h.outgoing.step (i := .tick (p.sys sys)) hname hw (herror p.server)
  refine ⟨⟨_, hwindows⟩, hwatching, houtgoing, h.request, h.sent, ?_, ?_, ?_, ?_⟩
  · intro hsock
    simp only [sessionServer, servStep] at hsock ⊢
    rcases tick_readfds host (p.sys sys) p.server with hfds | ⟨hsame, hno, -⟩ |
        ⟨ready, fds, hpc, hsel, -, hl, htick⟩
    · rw [hfds] at hsock
      cases hsock
    · have hquiet : p.server.receives = false := by
        cases hr : p.server.receives with
        | false => rfl
        | true =>
          obtain ⟨fds, hpc, -⟩ := (receives_iff _).mp hr
          exact absurd hpc (hno fds)
      rw [hquiet, if_neg (by simp)]
      exact h.ready (by rw [← hsame]; exact hsock)
    · have hquiet : p.server.receives = false := by simp [Server.receives, hpc]
      rw [hquiet, if_neg (by simp)]
      rw [htick] at hsock
      simp only [Pc.readfds] at hsock
      rw [hl] at hsock
      cases hanswer : sys.select with
      | ready fds' =>
        simp only [Session.sys, hanswer, SelectResult.ready.injEq] at hsel
        rw [← hsel] at hsock
        simp only [Bool.and_eq_true, decide_eq_true_eq] at hsock
        exact hsock.1.2
      | eintr | error =>
        simp only [Session.sys, hanswer] at hsel
        cases hsel
  · simp only [sessionServer]
    split
    · exact hready ‹_›
    · exact h.taken
  · exact h.base.trans hgrows.length_le
  · refine h.received.trans ?_
    simp only [Session.toClient, List.length_drop, sessionServer]
    have := hgrows.length_le
    omega

theorem Fitting.apart {host : Host} {p : Session} {i : Input} (h : Fitting p)
    (hname : ShortName host) (herror : ∀ s, ShortErrors s i) (hi : ∀ sys, i ≠ .tick sys) :
    Fitting (sessionServer host p i) := by
  obtain ⟨mark, hw⟩ := h.windows
  have hgrows := log_grows host i hw.flow
  have hwindows := hw.step host i
  have hwatching := h.watching.step hw.flow host i
  have houtgoing := h.outgoing.step hname hw (herror p.server)
  have hpc : (servStep host i p.server).pc = p.server.pc := by
    cases i with
    | tick sys => exact absurd rfl (hi sys)
    | child e =>
      obtain ⟨_, _, hframe⟩ := childChange_frame e p.server
      rw [servStep, hframe]
    | sigCHLD =>
      obtain ⟨_, _, hframe⟩ := servSigCHLD_frame p.server
      rw [servStep, hframe]
  have hserver : sessionServer host p i = { p with server := servStep host i p.server } := by
    cases i with
    | tick sys => exact absurd rfl (hi sys)
    | child e => rfl
    | sigCHLD => rfl
  rw [hserver]
  refine ⟨⟨_, hwindows⟩, hwatching, houtgoing, h.request, h.sent, ?_, h.taken,
    h.base.trans hgrows.length_le, ?_⟩
  · rw [hpc]
    exact h.ready
  · refine h.received.trans ?_
    simp only [Session.toClient, List.length_drop]
    have := hgrows.length_le
    omega

/-- The client goes on to `next`. -/
theorem Fitting.clientStep {p : Session} {next : Client} {received : Nat} (h : Fitting p)
    (hsends : Sends p.client next) (hreceived : received ≤ p.toClient.length) :
    Fitting { p with client := next, received := received } := by
  obtain ⟨new, hnew, hfits⟩ := hsends.sent
  have hlen : p.client.sent.length ≤ next.sent.length := by
    rw [hnew, List.length_append]
    omega
  refine ⟨h.windows, h.watching, h.outgoing, ?_, ?_, fun hr => lt_of_lt_of_le (h.ready hr) hlen,
    h.taken.trans hlen, h.base, hreceived⟩
  · rw [hsends.request]
    exact h.request
  · intro m hm
    rw [hnew] at hm
    rcases List.mem_append.mp hm with hm | hm
    · exact h.sent m hm
    · exact hfits m hm

theorem Wired.clientStep {w : Wire} {p : Session} {next : Client} {writes : List WriteEvent}
    {received : Nat} (h : Wired w p) (hfit : Fitting p) (hsends : Sends p.client next)
    (hwrites : Progress writes) (hdown : p.toClient.drop received = p.toClient.drop p.received) :
    Wired (wireClient writes next w) { p with client := next, received := received } := by
  obtain ⟨new, hnew, hfits⟩ := hsends.sent
  obtain ⟨buf, hsend, hbuf⟩ := sendEach_frames hfits h.cliSendBuf hwrites
  have hstep : wireClient writes next w =
      { w with client := next, up := w.up ++ frames new, cliSendBuf := buf } := by
    simp only [wireClient, h.client, hnew, List.drop_left, hsend, if_true]
  rw [hstep]
  refine ⟨rfl, h.server, h.waiting, ?_, ?_, h.calm, hbuf, h.cliRecvBuf, h.servSendBuf, h.servRecvBuf⟩
  · simp only [h.up, hnew]
    rw [List.drop_append_of_le_length hfit.taken, frames_append]
  · show w.down = frames (p.toClient.drop received)
    rw [hdown]
    exact h.down

/-- The system answers both servers alike. -/
theorem Wired.sys {w : Wire} {p : Session} (h : Wired w p) (sys : Sys) (msg : Option Ttlv) :
    w.sys sys msg true = { p.sys sys with msg := msg } := by
  have hup : decide (w.up ≠ []) = decide (p.taken < p.client.sent.length) := by
    rw [decide_eq_decide, h.up, ne_eq, frames_nil_iff, List.drop_eq_nil_iff, not_le]
  cases hanswer : sys.select <;> simp only [Wire.sys, Session.sys, h.waiting, hup, hanswer]

theorem wireServer_receives {host : Host} {sys : Sys} {reads : List (Option Nat)}
    {writes : List WriteEvent} {w : Wire} {msg : Ttlv} {buf : Bytes} {fd : List ReadEvent}
    (hr : w.server.receives = true) (hmsg : msg ≠ .null)
    (hrecv : msgRecv w.servRecvBuf (arrive reads w.up) = .returned msg buf fd) :
    wireServer host reads writes w (.tick sys) =
      wireTick host sys (some msg) writes { w with up := unread fd, servRecvBuf := buf } := by
  simp only [wireServer, hr, if_true, hrecv, if_neg hmsg]

theorem wireDeliver_receives {reads : List (Option Nat)} {writes : List WriteEvent} {w : Wire}
    {msg : Ttlv} {buf : Bytes} {fd : List ReadEvent} (hsome : w.down ≠ []) (hmsg : msg ≠ .null)
    (hrecv : msgRecv w.cliRecvBuf (arrive reads w.down) = .returned msg buf fd) :
    wireDeliver reads writes w =
      wireClient writes (cliRecv msg w.client) { w with down := unread fd, cliRecvBuf := buf } := by
  simp only [wireDeliver, if_neg hsome, hrecv, if_neg hmsg]

theorem wireTick_sends {host : Host} {sys : Sys} {msg : Option Ttlv} {writes : List WriteEvent}
    {v : Wire} {new : List Ttlv} {octets buf : Bytes}
    (hnew : (tick host (v.sys sys msg true) v.server).hist.sent = v.server.hist.sent ++ new)
    (hsend : sendEach v.servSendBuf writes new = (true, octets, buf)) :
    wireTick host sys msg writes v =
      { v with
        server := tick host (v.sys sys msg true) v.server
        waiting := v.waiting && !v.server.accepts sys
        down := v.down ++ octets
        servSendBuf := buf } := by
  unfold wireTick
  rw [hnew, List.drop_left]
  dsimp only
  rw [hsend]
  rfl

/-- A stretch of both servers with the same message, when the octets of the message are off the
connection. -/
theorem Wired.tickWith {host : Host} {w v : Wire} {p : Session} {sys : Sys} {msg : Option Ttlv}
    {writes : List WriteEvent} (h : Wired w p) (hfit : Fitting p)
    (hnext : Fitting (sessionServer host p (.tick sys)))
    (hv : ∃ up buf, v = { w with up := up, servRecvBuf := buf } ∧ buf.length = passMaxMsg ∧
      up = frames (p.client.sent.drop (if p.server.receives then p.taken + 1 else p.taken)))
    (htick : tick host (v.sys sys msg true) p.server = tick host (p.sys sys) p.server)
    (hwrites : Progress writes) :
    Wired (wireTick host sys msg writes v) (sessionServer host p (.tick sys)) := by
  obtain ⟨up, recvBuf, rfl, hrecvBuf, hup⟩ := hv
  obtain ⟨mark, hw⟩ := hfit.windows
  obtain ⟨new, hnew⟩ := log_grows host (.tick (p.sys sys)) hw.flow
  rw [servStep] at hnew
  have hfits : ∀ m ∈ new, FitsMsg m := by
    intro m hm
    apply hnext.outgoing.fits
    simp only [sessionServer, servStep, ← hnew]
    exact List.mem_append_right _ hm
  obtain ⟨buf, hsend, hbuf⟩ := sendEach_frames hfits h.servSendBuf hwrites
  have hserver : tick host (Wire.sys { w with up := up, servRecvBuf := recvBuf } sys msg true)
      w.server = tick host (p.sys sys) p.server := by
    rw [h.server]
    exact htick
  have hlog : (tick host (Wire.sys { w with up := up, servRecvBuf := recvBuf } sys msg true)
      w.server).hist.sent = w.server.hist.sent ++ new := by
    rw [hserver, h.server, hnew]
  rw [wireTick_sends hlog hsend]
  have haccepts : (w.waiting && !w.server.accepts sys) = (p.waiting && !p.server.accepts sys) := by
    rw [h.waiting, h.server]
  refine ⟨h.client, hserver, haccepts, hup, ?_, h.calm, h.cliSendBuf, h.cliRecvBuf, hbuf, hrecvBuf⟩
  have hto : (sessionServer host p (.tick sys)).toClient = p.toClient ++ new := by
    simp only [Session.toClient, sessionServer, servStep, ← hnew]
    exact List.drop_append_of_le_length hfit.base
  show w.down ++ frames new = frames ((sessionServer host p (.tick sys)).toClient.drop p.received)
  rw [hto, List.drop_append_of_le_length hfit.received, frames_append, h.down]

theorem Wired.tick {host : Host} {w : Wire} {p : Session} {sys : Sys} {reads : List (Option Nat)}
    {writes : List WriteEvent} (h : Wired w p) (hfit : Fitting p)
    (hnext : Fitting (sessionServer host p (.tick sys))) (hwrites : Progress writes) :
    Wired (wireServer host reads writes w (.tick sys)) (sessionServer host p (.tick sys)) := by
  have hserves : w.server.receives = p.server.receives := by rw [h.server]
  cases hr : p.server.receives with
  | true =>
    rw [hr] at hserves
    have hlt : p.taken < p.client.sent.length := hfit.ready (receives_ready hr)
    have hdrop : p.client.sent.drop p.taken =
        p.client.sent[p.taken] :: p.client.sent.drop (p.taken + 1) :=
      List.drop_eq_getElem_cons hlt
    have hm : FitsMsg p.client.sent[p.taken] := hfit.sent _ (List.getElem_mem hlt)
    obtain ⟨buf, fd, hrecv, hbuf, hrest⟩ :=
      msgRecv_arrive reads (p.client.sent.drop (p.taken + 1)) hm h.servRecvBuf
    rw [← hdrop, ← h.up] at hrecv
    rw [wireServer_receives hserves hm.built.single.2 hrecv]
    apply h.tickWith hfit hnext ⟨unread fd, buf, rfl, hbuf, ?_⟩
    · rw [← List.getElem?_eq_getElem hlt]
      exact tick_received host _ _ hr rfl
    · exact hwrites
    · rw [hr, if_pos rfl]
      exact hrest
  | false =>
    have hskips : wireServer host reads writes w (.tick sys) = wireTick host sys none writes w := by
      rw [wireServer, hserves, hr, if_neg (by simp)]
    rw [hskips]
    apply h.tickWith hfit hnext ⟨w.up, w.servRecvBuf, rfl, h.servRecvBuf, ?_⟩
    · rw [h.sys sys none]
      exact tick_unread host _ _ hr rfl
    · exact hwrites
    · rw [hr, if_neg (by simp)]
      exact h.up

theorem Wired.deliver {w : Wire} {p : Session} {reads : List (Option Nat)} {writes : List WriteEvent}
    (h : Wired w p) (hfit : Fitting p) (hwrites : Progress writes) :
    Wired (wireDeliver reads writes w) (sessionDeliver p) := by
  unfold sessionDeliver
  by_cases hlt : p.received < p.toClient.length
  · have hdrop : p.toClient.drop p.received =
        p.toClient[p.received] :: p.toClient.drop (p.received + 1) :=
      List.drop_eq_getElem_cons hlt
    have hm : FitsMsg p.toClient[p.received] :=
      hfit.outgoing.fits _ (List.mem_of_mem_drop (List.getElem_mem hlt))
    obtain ⟨buf, fd, hrecv, hbuf, hrest⟩ :=
      msgRecv_arrive reads (p.toClient.drop (p.received + 1)) hm h.cliRecvBuf
    have hsome : w.down ≠ [] := by
      rw [h.down, ne_eq, frames_nil_iff, hdrop]
      exact List.cons_ne_nil _ _
    have hnext : cliRecv p.toClient[p.received] w.client =
        cliRecv p.toClient[p.received] p.client := by rw [h.client]
    rw [← hdrop, ← h.down] at hrecv
    rw [wireDeliver_receives hsome hm.built.single.2 hrecv, hnext, List.getElem?_eq_getElem hlt]
    have hafter : Wired { w with down := unread fd, cliRecvBuf := buf }
        { p with received := p.received + 1 } :=
      ⟨h.client, h.server, h.waiting, h.up, hrest, h.calm, h.cliSendBuf, hbuf, h.servSendBuf,
        h.servRecvBuf⟩
    have hfitAfter : Fitting { p with received := p.received + 1 } :=
      ⟨hfit.windows, hfit.watching, hfit.outgoing, hfit.request, hfit.sent, hfit.ready, hfit.taken,
        hfit.base, hlt⟩
    exact hafter.clientStep hfitAfter (sends_cliRecv _ hfit.request) hwrites rfl
  · have hnone : p.toClient.drop p.received = [] := List.drop_eq_nil_of_le (by omega)
    have hempty : w.down = [] := by
      rw [h.down, hnone]
      rfl
    rw [wireDeliver, if_pos hempty, List.getElem?_eq_none (by omega)]
    exact h

/-- `msg_recv` at the end of the octets. -/
theorem msgRecv_end (reads : List (Option Nat)) (buf : Bytes) :
    msgRecv buf (arrive reads []) = .returned .null buf [] := by
  have hend : ∀ reads, readn (arrive reads []) 4 = (0, [], []) := by
    intro reads
    induction reads with
    | nil => rfl
    | cons plan reads ih =>
      cases plan with
      | none => rw [arrive, readn, if_neg (by decide), ih]
      | some k => rfl
  rw [msgRecv, hend]
  rfl

/-- Both clients find the connection lost at the same time. -/
theorem Wired.hangup {w : Wire} {p : Session} (h : Wired w p) (hfit : Fitting p)
    (reads : List (Option Nat)) : Wired (wireHangup reads w) (sessionHangup p) := by
  have hdown : decide (w.down = []) = decide (p.received = p.toClient.length) := by
    have hle := hfit.received
    rw [decide_eq_decide, h.down, frames_nil_iff, List.drop_eq_nil_iff]
    omega
  have hover : w.over = p.over := by
    simp only [Wire.over, Session.over, hdown, h.client, h.server, h.waiting]
  unfold wireHangup sessionHangup
  rw [hover]
  split
  · rw [msgRecv_end]
    simp only [if_true, h.client]
    have hsent : (cliLost p.client).sent = p.client.sent := by
      unfold cliLost
      split <;> rfl
    refine ⟨rfl, h.server, h.waiting, ?_, h.down, h.calm, h.cliSendBuf, h.cliRecvBuf, h.servSendBuf,
      h.servRecvBuf⟩
    show w.up = frames ((cliLost p.client).sent.drop p.taken)
    rw [hsent]
    exact h.up
  · exact h

theorem Fitting.step {host : Host} {p : Session} {e : WireEvent} (h : Fitting p)
    (hname : ShortName host) (he : Lossless e) : Fitting (sessionStep host e.event p) := by
  cases e with
  | server i reads writes =>
    obtain ⟨-, herror⟩ := he
    cases i with
    | tick sys => exact h.tick hname herror
    | child e => exact h.apart hname herror (by simp)
    | sigCHLD => exact h.apart hname herror (by simp)
  | deliver reads writes =>
    simp only [WireEvent.event, sessionStep, sessionDeliver]
    split
    · rename_i m hat
      exact h.clientStep (sends_cliRecv m h.request) (List.getElem?_eq_some_iff.mp hat).1
    · exact h
  | stdin bs writes => exact h.clientStep (sends_cliStdin he.2) h.received
  | winch row col writes => exact h.clientStep (sends_cliWinch row col _) h.received
  | hangup reads =>
    simp only [WireEvent.event, sessionStep, sessionHangup]
    split
    · have hnext := h.clientStep (sends_cliLost p.client) h.received
      exact ⟨hnext.windows, hnext.watching, hnext.outgoing, hnext.request, hnext.sent, hnext.ready,
        hnext.taken, hnext.base, hnext.received⟩
    · exact h

/-- Both servers between two stretches. -/
theorem Wired.apart {w : Wire} {p : Session} {f : Server → Server} (h : Wired w p)
    (hsent : (f p.server).hist.sent = p.server.hist.sent) :
    Wired { w with server := f w.server } { p with server := f p.server } := by
  have hserver : f w.server = f p.server := by rw [h.server]
  refine ⟨h.client, hserver, h.waiting, h.up, ?_, h.calm, h.cliSendBuf, h.cliRecvBuf, h.servSendBuf,
    h.servRecvBuf⟩
  show w.down = frames (((f p.server).hist.sent.drop p.base).drop p.received)
  rw [hsent]
  exact h.down

theorem childChange_sent (e : ChildEvent) (s : Server) :
    (childChange e s).hist.sent = s.hist.sent := by
  obtain ⟨_, _, hframe⟩ := childChange_frame e s
  rw [hframe]

theorem servSigCHLD_sent (s : Server) : (servSigCHLD s).hist.sent = s.hist.sent := by
  obtain ⟨_, _, hframe⟩ := servSigCHLD_frame s
  rw [hframe]

theorem Wired.step {host : Host} {w : Wire} {p : Session} {e : WireEvent} (h : Wired w p)
    (hfit : Fitting p) (hname : ShortName host) (he : Lossless e) :
    Wired (wireStep host e w) (sessionStep host e.event p) := by
  cases e with
  | server i reads writes =>
    cases i with
    | tick sys => exact h.tick hfit (hfit.tick hname he.2) he.1
    | child e => exact h.apart (childChange_sent e p.server)
    | sigCHLD => exact h.apart (servSigCHLD_sent p.server)
  | deliver reads writes => exact h.deliver hfit he
  | stdin bs writes =>
    have hnext : cliStdin bs w.client = cliStdin bs p.client := by rw [h.client]
    rw [wireStep, hnext]
    exact h.clientStep hfit (sends_cliStdin he.2) he.1 rfl
  | winch row col writes =>
    have hnext : cliWinch row col w.client = cliWinch row col p.client := by rw [h.client]
    rw [wireStep, hnext]
    exact h.clientStep hfit (sends_cliWinch row col _) he rfl
  | hangup reads => exact h.hangup hfit reads

/-- The two programs over octets do what they do over messages.  A client connects to any
reachable server; from there on, however the `read` and `write` calls cut the octets, every run
of the two over octets is step by step the run of the session over messages: the programs are in
the same states, and the octets under way are the frames of the messages under way. -/
theorem wire_refines_session (host : Host) (hname : ShortName host) (tty : Bool) (cmd : Cmd)
    (request : Ttlv) (s₀ s : Server) (hreq : cliMain tty cmd = .message request)
    (hsize : (wire request).length ≤ passMaxMsg) (h₀ : Initial s₀)
    (hs : Reaches (servStep host) ShortErrors s₀ s)
    (cliSendBuf cliRecvBuf servSendBuf servRecvBuf : Bytes)
    (hbufs : ∀ buf ∈ [cliSendBuf, cliRecvBuf, servSendBuf, servRecvBuf], buf.length = passMaxMsg)
    (writes : List WriteEvent) (hwrites : Progress writes)
    (es : List WireEvent) (hes : ∀ e ∈ es, Lossless e) :
    Wired
      (runs (wireStep host) es (wireStart writes (cliConnect cmd request) s cliSendBuf cliRecvBuf
        servSendBuf servRecvBuf))
      (runs (sessionStep host) (es.map WireEvent.event) (sessionStart (cliConnect cmd request) s)) := by
  simp only [List.mem_cons, List.not_mem_nil, or_false, forall_eq_or_imp, forall_eq] at hbufs
  obtain ⟨hcs, hcr, hss, hsr⟩ := hbufs
  obtain ⟨mark, hw⟩ := reaches_windows host h₀ hs
  have hwatch := reaches_watching host h₀ hs
  have hready : (Pc.readfds s.pc).sock = true → 0 < [msgHello].length := fun _ => by simp
  have hfit : Fitting (sessionStart (cliConnect cmd request) s) := by
    refine ⟨⟨mark, hw⟩, hwatch, server_messages_fit host hname s₀ s h₀ hs, ⟨cliMain_built hreq hsize, hsize⟩,
      ?_, hready, Nat.zero_le _, le_rfl, Nat.zero_le _⟩
    intro m hm
    rw [List.mem_singleton.mp hm]
    exact fits_hello
  have hstart : Wired (wireStart writes (cliConnect cmd request) s cliSendBuf cliRecvBuf servSendBuf
      servRecvBuf) (sessionStart (cliConnect cmd request) s) := by
    obtain ⟨buf, hsend, hbuf⟩ := sendEach_frames hfit.sent hcs hwrites
    have hnone : (sessionStart (cliConnect cmd request) s).toClient = [] := List.drop_length
    have hsend' : sendEach cliSendBuf writes [msgHello] = (true, frames [msgHello], buf) := hsend
    have heq : wireStart writes (cliConnect cmd request) s cliSendBuf cliRecvBuf servSendBuf
        servRecvBuf =
          { client := cliConnect cmd request
            server := s
            up := frames [msgHello]
            cliSendBuf := buf
            cliRecvBuf := cliRecvBuf
            servSendBuf := servSendBuf
            servRecvBuf := servRecvBuf } := by
      simp only [wireStart, wireClient, cliConnect, List.length_nil, List.drop_zero, hsend', if_true,
        List.nil_append]
    rw [heq]
    refine ⟨rfl, rfl, rfl, rfl, ?_, rfl, hbuf, hcr, hss, hsr⟩
    rw [hnone]
    rfl
  have hall : ∀ (es : List WireEvent), (∀ e ∈ es, Lossless e) → ∀ w p, Wired w p → Fitting p →
      Wired (runs (wireStep host) es w) (runs (sessionStep host) (es.map WireEvent.event) p) := by
    intro es
    induction es with
    | nil => exact fun _ w p hwired _ => hwired
    | cons e es ih =>
      intro hes w p hwired hfit
      have he := hes e (by simp)
      exact ih (fun e he => hes e (by simp [he])) _ _ (hwired.step hfit hname he)
        (hfit.step hname he)
  exact hall es hes _ _ hstart hfit

/-- One octet, an interruption, three octets and the rest, in both directions. -/
def chopped : Event → WireEvent
  | .server i => .server i [some 0, none, some 2] [.wrote 1, .eintr, .wrote 3]
  | .deliver => .deliver [some 0, none, some 2] [.wrote 1, .eintr, .wrote 3]
  | .stdin bs => .stdin bs [.wrote 1, .eintr, .wrote 3]
  | .winch row col => .winch row col [.wrote 1, .eintr, .wrote 3]
  | .hangup => .hangup [none]

theorem chopped_event (es : List Event) : (es.map chopped).map WireEvent.event = es := by
  rw [List.map_map]
  conv_rhs => rw [← List.map_id es]
  apply List.map_congr_left
  intro e _
  cases e <;> rfl

theorem lossless_chopped {e : Event} (h : e = .deliver ∨ ∃ sys, e = .server (.tick sys) ∧
    sys.killError = none) : Lossless (chopped e) := by
  have hwrites : Progress [.wrote 1, .eintr, .wrote 3] := by simp [Progress]
  rcases h with rfl | ⟨sys, rfl, hkill⟩
  · exact hwrites
  · refine ⟨hwrites, ?_⟩
    intro s text htext
    rw [hkill] at htext
    cases htext

/-- A cleared buffer for messages. -/
def blank : Bytes := List.replicate passMaxMsg 0

/-- `sexpect send hi` with every call cut up. -/
theorem wire_refines_session_send :
    (runs (wireStep plainHost) (sendEvents.map chopped) (wireStart [] sendClient freshServer
      blank blank blank blank)).client.pc = .exited 0 := by
  have hcalm : ∀ e ∈ sendEvents, e = .deliver ∨ ∃ sys, e = .server (.tick sys) ∧
      sys.killError = none := by
    intro e he
    simp only [sendEvents, ticks, List.map_append, List.map_replicate, List.mem_append,
      List.mem_replicate, List.mem_singleton] at he
    rcases he with (((((((⟨-, rfl⟩ | ⟨-, rfl⟩) | ⟨-, rfl⟩) | rfl) | ⟨-, rfl⟩) | rfl) | ⟨-, rfl⟩) | rfl)
    all_goals first | exact .inl rfl | exact .inr ⟨_, rfl, rfl⟩
  have hlossless : ∀ e ∈ sendEvents.map chopped, Lossless e := by
    intro e he
    obtain ⟨e', he', rfl⟩ := List.mem_map.mp he
    exact lossless_chopped (hcalm e' he')
  have hbufs : ∀ buf ∈ [blank, blank, blank, blank], buf.length = passMaxMsg := by
    simp [blank]
  have hwired := wire_refines_session plainHost (by unfold ShortName; decide) true
    (.send (ascii "hi") false) (ttlvNewRaw Tag.send (ascii "hi")) freshServer freshServer (by decide)
    (by decide) freshServer_initial .start blank blank blank blank hbufs [] (by simp [Progress])
    (sendEvents.map chopped) hlossless
  rw [chopped_event] at hwired
  have hend : (runs (sessionStep plainHost) sendEvents
      (sessionStart sendClient freshServer)).client.pc = .exited 0 := by decide +kernel
  rw [← hend]
  exact congrArg Client.pc hwired.client

end Sexpect.Guarantees
