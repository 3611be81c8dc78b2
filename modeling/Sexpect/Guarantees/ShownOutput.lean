import Sexpect.Guarantees.RequestEffects
import Sexpect.Guarantees.TypedInput

/-!
# From the child to the user's screen

An `expect`, `interact` or `wait` client hands the payloads of `OUTPUT` to its standard output
as they come, before and after the reply.  Together with the order in which the server sends
them, what the user sees is one stretch of what the server has read from the pty: it starts
where the clients before were left, has no gap, and is complete when the client has been told
that there is no more.
-/
namespace Sexpect.Guarantees
open Sexpect.Lib Sexpect.Source

/-! ## The client -/

section

variable {m : Ttlv} {c : Client}

theorem outputs_one : outputs [m] = if m.tag = Tag.output then [m.vRaw] else [] := by
  unfold outputs
  by_cases h : m.tag = Tag.output <;> simp [h]

theorem cliLoop_shown (hno : m.tag ≠ Tag.expoutText) : (cliLoop m c).shown = c.shown ++ outputs [m] := by
  by_cases hout : m.tag = Tag.output
  · rw [cliLoop_output hout, outputs_one, if_pos hout]
    rfl
  rw [outputs_one, if_neg hout, List.append_nil]
  unfold cliLoop
  simp only [if_neg hout, if_neg hno]
  split
  · rfl
  split
  · rfl
  split
  · rfl
  split
  · split
    · rfl
    · split <;> rfl
  split
  · rfl
  split <;> rfl

theorem cliDisconnLoop_shown (hpass : c.cmd.passing = true) (exitcode fatalCode : Int) :
    (cliDisconnLoop exitcode fatalCode m c).shown = c.shown ++ outputs [m] := by
  by_cases hout : m.tag = Tag.output
  · rw [cliDisconnLoop_output hout exitcode fatalCode c hpass, outputs_one, if_pos hout]
    rfl
  rw [outputs_one, if_neg hout, List.append_nil]
  unfold cliDisconnLoop
  rw [if_neg hout]
  split <;> rfl

end

section

variable {cmd : Cmd} {request : Ttlv} {dead waiting sock passing : Bool} {out inn : List Ttlv}
  {received taken : Nat} {pc : CliPc}

/-- Where the client stands when there is a message for it. -/
theorem Phase.expects (h : Phase cmd request dead waiting sock passing out received inn taken pc)
    {m : Ttlv} (hm : out[received]? = some m) :
    (pc = .hello ∧ m = msgHello) ∨ pc = .loop ∨ ∃ exitcode fatalCode, pc = .disconn exitcode fatalCode := by
  have hlt := (List.getElem?_eq_some_iff.mp hm).1
  cases h with
  | queued | accepted => cases hm
  | welcomed =>
    cases hm
    exact .inl ⟨rfl, rfl⟩
  | asked | stuck | passing | answered => exact .inr (.inl rfl)
  | confirmed | leaving | parted | left => exact .inr (.inr ⟨_, _, rfl⟩)
  | gone outs t more houts ht hmore hr | detached outs more houts hmore hint hr =>
    simp only [List.length_cons, List.length_append, List.length_nil] at hlt
    omega

theorem Phase.received_le
    (h : Phase cmd request dead waiting sock passing out received inn taken pc) :
    received ≤ out.length := by
  cases h <;> simp only [List.length_cons, List.length_append, List.length_nil] <;> omega

/-- What the client sends is the greeting, the request, what is typed, and the good-bye. -/
theorem Phase.says (h : Phase cmd request dead waiting sock passing out received inn taken pc)
    {m : Ttlv} (hm : m ∈ inn) : m = msgHello ∨ m = request ∨
      (m.tag = Tag.input ∨ ∃ row col, m = winchMsg row col) ∨ m = msgDisconn := by
  have hlist : ∀ more rest, Typed cmd more → (∀ m ∈ rest, m = msgDisconn) →
      m ∈ msgHello :: request :: (more ++ rest) → m = msgHello ∨ m = request ∨
        (m.tag = Tag.input ∨ ∃ row col, m = winchMsg row col) ∨ m = msgDisconn := by
    intro more rest hmore hrest hm
    rcases List.mem_cons.mp hm with hm | hm
    · exact .inl hm
    rcases List.mem_cons.mp hm with hm | hm
    · exact .inr (.inl hm)
    rcases List.mem_append.mp hm with hm | hm
    · exact .inr (.inr (.inl (hmore.1 m hm)))
    · exact .inr (.inr (.inr (hrest m hm)))
  have hnone : ∀ m ∈ ([] : List Ttlv), m = msgDisconn := by simp
  have hone : ∀ m ∈ [msgDisconn], m = msgDisconn := by simp
  cases h with
  | queued | accepted | welcomed => exact .inl (List.mem_singleton.mp hm)
  | stuck => exact hlist [] [] ⟨by simp, by simp⟩ hnone hm
  | asked more hmore => exact hlist more [] hmore hnone (by simpa using hm)
  | passing outs more houts hmore => exact hlist more [] hmore hnone (by simpa using hm)
  | answered outs t more houts ht hmore => exact hlist more [] hmore hnone (by simpa using hm)
  | confirmed outs t more houts ht hmore | parted outs t more houts ht hmore
  | gone outs t more houts ht hmore => exact hlist more _ hmore hone hm
  | leaving outs more houts hmore | left outs more houts hmore | detached outs more houts hmore =>
    exact hlist more _ hmore hone hm

theorem Payloads.not_ends {outs : List Ttlv} (houts : Payloads cmd outs) {t : Ttlv}
    (ht : t ∈ msgHello :: (outs ++ [msgDisconn])) : ¬ EndsOutput t := by
  rcases List.mem_cons.mp ht with rfl | ht
  · rintro (h | h | ⟨h, -⟩) <;> cases h
  rcases List.mem_append.mp ht with ht | ht
  · have htag := houts.1 t ht
    rintro (h | h | ⟨h, -⟩) <;> rw [htag] at h <;> cases h
  · rw [List.mem_singleton.mp ht]
    rintro (h | h | ⟨h, -⟩) <;> cases h

/-- When a reply that ends the output has been received there is no more of it. -/
theorem Phase.heard_all (h : Phase cmd request dead waiting sock passing out received inn taken pc)
    {t : Ttlv} (ht : EndsOutput t) (hmem : t ∈ out.take received) :
    outputs (out.take received) = outputs out := by
  have hno : ∀ outs rest, Payloads cmd outs → received ≤ 1 + outs.length →
      t ∈ (msgHello :: (outs ++ rest)).take received → False := by
    intro outs rest houts hle hmem
    have hpre : (msgHello :: (outs ++ rest)).take received <+: msgHello :: outs := by
      have hall : (msgHello :: outs).length = 1 + outs.length := by
        rw [List.length_cons, Nat.add_comm]
      rw [← List.cons_append, List.take_append_of_le_length (by omega)]
      exact List.take_prefix _ _
    have hin := hpre.subset hmem
    exact houts.not_ends (t := t) (by
      rw [← List.cons_append]
      exact List.mem_append_left _ hin) ht
  have hempty : Payloads cmd [] := ⟨by simp, by simp⟩
  cases h with
  | queued | accepted => cases hmem
  | welcomed | asked | stuck => exact (hno [] [] hempty (by simp) hmem).elim
  | passing outs more houts hmore hpass hr1 hr2 =>
    exact (hno outs [] houts hr2 (by simpa using hmem)).elim
  | answered outs t' more houts ht' hmore hr1 hr2 => exact (hno outs [t'] houts hr2 hmem).elim
  | confirmed outs t' more houts ht' hmore hr =>
    rw [List.take_of_length_le]
    simp only [List.length_cons, List.length_append, List.length_nil]
    omega
  | leaving outs more houts hmore hint hr1 hr2 =>
    exact (hno outs [] houts hr2 (by simpa using hmem)).elim
  | left outs more houts hmore hint hr1 hr2 => exact (hno outs _ houts hr2 hmem).elim
  | parted outs t' more houts ht' hmore hr =>
    have hsplit : msgHello :: (outs ++ [t', msgDisconn]) =
        (msgHello :: (outs ++ [t'])) ++ [msgDisconn] := by simp
    have hlen : received = (msgHello :: (outs ++ [t'])).length := by
      simp only [List.length_cons, List.length_append, List.length_nil]
      omega
    have hnothing : outputs [msgDisconn] = [] := by decide
    rw [hsplit, hlen, List.take_left' rfl, outputs_append, hnothing, List.append_nil]
  | gone outs t' more houts ht' hmore hr =>
    rw [List.take_of_length_le]
    simp only [List.length_cons, List.length_append, List.length_nil]
    omega
  | detached outs more houts hmore hint hr =>
    exact absurd ht (houts.not_ends (List.mem_of_mem_take hmem))

end

theorem Linked.shows {cmd : Cmd} {request : Ttlv} {p : Session} (h : Linked cmd request p)
    (hpass : cmd.passing = true) {m : Ttlv} (hm : p.toClient[p.received]? = some m)
    (hno : m.tag ≠ Tag.expoutText) :
    (cliRecv m p.client).shown = p.client.shown ++ outputs [m] := by
  have hp : p.client.cmd.passing = true := by rw [h.client.cmd, hpass]
  unfold cliRecv
  rcases h.phase.expects hm with ⟨hpc, rfl⟩ | hpc | ⟨exitcode, fatalCode, hpc⟩
  · rw [hpc]
    have hver : version = (ttlvFindChild msgHello Tag.version).vText := by decide
    have hnull : ttlvFindChild msgHello Tag.version ≠ .null := by decide
    have hnothing : outputs [msgHello] = [] := by decide
    simp only [cliHello, if_pos (show msgHello.tag = Tag.hello by decide), hnull, ← hver, if_false,
      ne_eq, not_true, hnothing, List.append_nil]
    rfl
  · rw [hpc]
    exact cliLoop_shown hno
  · rw [hpc]
    exact cliDisconnLoop_shown hp exitcode fatalCode

/-! ## The server -/

/-- A pty that is closed stays closed and is not read from. -/
theorem closed_stays (host : Host) (i : Input) {s : Server} (h : s.ptmOpen = false) :
    (servStep host i s).ptmOpen = false ∧ (servStep host i s).hist.stream = s.hist.stream := by
  cases i with
  | tick sys =>
    simp only [servStep]
    by_cases hhead : s.pc = .head
    · simp only [tick, hhead, loopHead, h]
      split
      · exact ⟨rfl, rfl⟩
      · rw [if_neg (by simp)]
        exact ⟨rfl, rfl⟩
    by_cases hread : ∃ fds, s.pc = .readPtm fds
    · obtain ⟨fds, hpc⟩ := hread
      simp only [tick, hpc, loopReadPtm, h]
      exact ⟨h, rfl⟩
    · obtain ⟨hsame, hopen⟩ := drained_tick host sys s hhead fun fds hpc => hread ⟨fds, hpc⟩
      obtain ⟨-, hrest⟩ := Prod.mk.inj hsame
      obtain ⟨-, hstream⟩ := Prod.mk.inj hrest
      refine ⟨?_, hstream⟩
      by_contra hne
      rw [hopen (by simpa using hne)] at h
      cases h
  | child e =>
    obtain ⟨child, pending, hs⟩ := childChange_frame e s
    simp only [servStep, hs]
    exact ⟨h, trivial⟩
  | sigCHLD =>
    obtain ⟨pending, flag, hs⟩ := servSigCHLD_frame s
    simp only [servStep, hs]
    exact ⟨h, trivial⟩

theorem timeout_goes_on : ¬ EndsOutput (servNewError ErrorCode.timeout (ascii "expect timed out")) :=
  (plain_error _ (by decide)).2

/-- The end of output is told only of a closed pty. -/
theorem ends_closed {s : Server} {mark : Nat} (hw : Windows s mark) (host : Host) (sys : Sys)
    (m : Ttlv) (hsent : (tick host sys s).hist.sent = s.hist.sent ++ [m]) (hend : EndsOutput m) :
    s.ptmOpen = false := by
  by_contra hopen
  have hopen : s.ptmOpen = true := by simpa using hopen
  have ht := servStep_talks host (.tick sys) s hw.flow
  simp only [servStep] at ht
  have hno : (tick host sys s).hist.sent ≠ s.hist.sent := by
    rw [hsent]
    simp
  have hreply : ∀ (t : Ttlv) (s' : Server), s.conn.sock = true → s'.conn = s.conn → s'.hist = s.hist →
      (tick host sys s).hist.sent = (stopPassing (servMsgSend sys.sent t s')).hist.sent →
      m = t := by
    intro t s' hsock hconn hhist htick
    have hlog := (servMsgSend_posts (s := s') sys.sent t (by rw [hconn]; exact hsock)).log
    rw [stopPassing_hist, hlog, hhist, hsent] at htick
    split at htick
    · exact List.singleton_inj.mp (List.append_cancel_left htick)
    · simp at htick
  generalize htick : tick host sys s = s' at hsent ht hno hreply
  cases ht with
  | quiet hq => exact hno hq.sent
  | old => exact hno rfl
  | accepted => exact hno rfl
  | received fds hpc hsock hready =>
    unfold servProcessMsg at hsent
    split at hsent
    · have hnil := List.append_cancel_left ((List.append_nil s.hist.sent).trans hsent)
      cases hnil
    · rename_i msgIn _
      obtain ⟨⟨l, hl, hplain⟩, -, -⟩ := dispatch_answered host sys msgIn { s with pc := .pass } hsock
      rw [hl] at hsent
      have hm : l = [m] := List.append_cancel_left hsent
      exact absurd hend (hplain m (by simp [hm])).2
  | output psend hpc hsock hpass hstart hpost hconn hpos =>
    have hlog := hpost.log
    split at hlog
    · rw [hlog] at hsent
      have hm := List.append_cancel_left hsent
      cases hm
      rcases hend with he | he | ⟨he, -⟩ <;> cases he
    · exact hno hlog
  | replied t hpc hsock hpass hnew hpass' hpost hafter hconn hpos =>
    rcases hpc with hpc | hpc
    · simp only [tick, hpc] at htick
      rcases hexp : servExpect host (s.conn.pattern.getD []) s with ⟨matched, s₁⟩
      cases matched
      · have hmiss : (servExpect host (s.conn.pattern.getD []) s).1 = false := by rw [hexp]
        obtain ⟨bugs, hmissed⟩ := servPassExpect_missed sys hmiss
        rw [hmissed] at htick
        rw [← htick] at hno
        exact hno rfl
      · obtain ⟨expout, pos, -, rfl⟩ := servExpect_matched _ _ _ _ hexp
        have hm := hreply (ttlvNewBool Tag.matched 1)
          { s with buf := keepAfter expout s.buf, expout := pos } hsock rfl rfl (by
            rw [← htick, servPassExpect, hexp])
        rw [hm] at hend
        rcases hend with he | he | ⟨he, -⟩ <;> cases he
    · simp only [tick, hpc, servPassEnd, hopen] at htick
      rw [if_neg (by simp)] at htick
      split at htick
      · have hm := hreply _ s hsock rfl rfl (by rw [← htick])
        rw [hm] at hend
        exact timeout_goes_on hend
      · rw [← htick] at hno
        exact hno rfl

/-! ## The session -/

section

variable {subcmd : PassSubcmd} {opts : StPass} {p : Session}

/-- A request without `-lookback` does not ask for it. -/
theorem passRequest_lookback (h : opts.lookback ≤ 0) :
    (ttlvFindChild (passRequest subcmd opts) Tag.lookback).vInt ≤ 0 := by
  have ho : (passDefaults subcmd opts).lookback = opts.lookback := by
    unfold passDefaults
    split <;> rfl
  have hnull : ttlvFindChild (passRequest subcmd opts) Tag.lookback = .null := by
    simp only [passRequest, ho, findChild_struct, if_neg (not_lt.mpr h)]
    rcases (passDefaults subcmd opts).pattern with _ | pattern <;>
      cases (passDefaults subcmd opts).hasTimeout <;>
      simp [ttlvNewInt, ttlvNewText, findFrom_link, findFrom_nil, Tag.passSubcmd, Tag.expFlags,
        Tag.expTimeout, Tag.pattern, Tag.lookback]
  rw [hnull]
  simp [Ttlv.vInt, Ttlv.value, TtlvValue.memory, beDecode, toInt32]

/-- What a stretch of the server says to a client that watches the output, and that the settings
stay. -/
theorem tick_tells (h : Linked (.pass subcmd opts) (passRequest subcmd opts) p) (host : Host)
    (sys : Sys) :
    (∃ new, (tick host (p.sys sys) p.server).hist.sent = p.server.hist.sent ++ new ∧
        (new = [] ∨ ∃ m, new = [m] ∧ m.tag ≠ Tag.expoutText)) ∧
      (tick host (p.sys sys) p.server).spawn = p.server.spawn := by
  obtain ⟨mark, hw⟩ := h.windows
  by_cases hr : p.server.receives = true
  · obtain ⟨fds, m, hpc, hsock, hmsg, htick⟩ := h.tick_receives host sys hr
    rw [htick]
    have hspawn : m.tag ≠ Tag.set → (dispatch host (p.sys sys) m
        { p.server with pc := .pass }).spawn = p.server.spawn := by
      intro hset
      have htold := congrArg Prod.fst (told_dispatch host (p.sys sys) m { p.server with pc := .pass })
      rw [settingsAfter, if_neg hset] at htold
      exact htold
    rcases h.phase.says (List.mem_of_getElem? hmsg) with rfl | rfl | hty | rfl
    · rw [dispatch_hello host (p.sys sys) { p.server with pc := .pass } hsock rfl]
      exact ⟨⟨[msgHello], rfl, .inr ⟨msgHello, rfl, by decide⟩⟩, rfl⟩
    · refine ⟨⟨[], ?_, .inl rfl⟩, hspawn (by show Tag.pass % 2 ^ 24 ≠ Tag.set; decide)⟩
      rw [dispatch_passRequest, List.append_nil]
      unfold processPass
      simp only
      split <;> rfl
    · have hset : m.tag ≠ Tag.set := by
        rcases hty with htag | ⟨row, col, rfl⟩
        · rw [htag]
          decide
        · show Tag.winch % 2 ^ 24 ≠ Tag.set
          decide
      obtain ⟨-, hsent, -⟩ := dispatch_typed host (p.sys sys) m { p.server with pc := .pass } hty
      exact ⟨⟨[], by rw [hsent, List.append_nil], .inl rfl⟩, hspawn hset⟩
    · rw [dispatch_disconn host (p.sys sys) { p.server with pc := .pass } hsock rfl]
      exact ⟨⟨[msgDisconn], rfl, .inr ⟨msgDisconn, rfl, by decide⟩⟩, rfl⟩
  · have hno : p.server.receives = false := by simpa using hr
    refine ⟨?_, congrArg Prod.fst (told_tick host (p.sys sys) p.server hno)⟩
    have ht := servStep_talks host (.tick (p.sys sys)) p.server hw.flow
    simp only [servStep] at ht
    generalize tick host (p.sys sys) p.server = s' at ht ⊢
    cases ht with
    | quiet hq => exact ⟨[], by rw [hq.sent, List.append_nil], .inl rfl⟩
    | old => exact ⟨[], by rw [List.append_nil], .inl rfl⟩
    | accepted => exact ⟨[], by rw [List.append_nil], .inl rfl⟩
    | received fds hpc hsock hready =>
      exact absurd ((receives_iff _).mpr ⟨fds, hpc, hsock, hready⟩) hr
    | output psend hpc hsock hpass hstart hpost hconn hpos =>
      exact ⟨_, hpost.log, .inr ⟨_, rfl, by show Tag.output % 2 ^ 24 ≠ Tag.expoutText; decide⟩⟩
    | replied t hpc hsock hpass hnew hreply hpost hafter hconn hpos =>
      refine ⟨_, hpost.log, .inr ⟨_, rfl, ?_⟩⟩
      rcases hreply with rfl | rfl | ⟨status, rfl⟩ | rfl | rfl
      · decide
      · decide
      · show Tag.exited % 2 ^ 24 ≠ Tag.expoutText
        decide
      · decide
      · decide

theorem Linked.no_lookback (h : Linked (.pass subcmd opts) (passRequest subcmd opts) p)
    (hlook : opts.lookback ≤ 0) (sys : Sys) : NoLookback p.server (.tick (p.sys sys)) := by
  intro m hm htag
  simp only [received] at hm
  split at hm
  · split at hm
    · have hmem : m ∈ p.client.sent := List.mem_of_getElem? hm
      rcases h.phase.says hmem with rfl | rfl | (hty | ⟨row, col, rfl⟩) | rfl
      · cases htag
      · exact passRequest_lookback hlook
      · rw [hty] at htag
        cases htag
      · cases htag
      · cases htag
    · cases hm
  · cases hm

/-- The facts that hold at every moment of a session that shows output. -/
structure Shows (subcmd : PassSubcmd) (opts : StPass) (before : List Ttlv) (p : Session) : Prop where
  linked : Linked (.pass subcmd opts) (passRequest subcmd opts) p
  before : p.server.hist.sent.take p.base = before
  delivered : ∃ segs, Delivered p.server false segs
  shown : p.client.shown = outputs (p.toClient.take p.received)
  told : ∀ m ∈ p.toClient, m.tag ≠ Tag.expoutText
  ended : (∃ m ∈ p.toClient, EndsOutput m) →
    p.server.ptmOpen = false ∧ (outputs p.server.hist.sent).flatten = p.server.hist.stream

variable {before : List Ttlv}

theorem shows_tick (h : Shows subcmd opts before p) (hlook : opts.lookback ≤ 0) (host : Host)
    (sys : Sys) (hlinked : Linked (.pass subcmd opts) (passRequest subcmd opts)
      (sessionServer host p (.tick sys))) :
    Shows subcmd opts before (sessionServer host p (.tick sys)) := by
  obtain ⟨mark, hw⟩ := h.linked.windows
  obtain ⟨segs, hd⟩ := h.delivered
  obtain ⟨⟨new, hnew, hone⟩, hspawn⟩ := tick_tells h.linked host sys
  have hnonblock : (tick host (p.sys sys) p.server).spawn.nonblock = false := by
    rw [hspawn]
    exact hd.off rfl
  have hstep := hd.step hw host (.tick (p.sys sys)) (h.linked.no_lookback hlook sys)
  simp only [servStep, hnonblock, Bool.or_false] at hstep
  have htoClient : (sessionServer host p (.tick sys)).toClient = p.toClient ++ new := by
    simp only [sessionServer, servStep, Session.toClient, hnew]
    exact List.drop_append_of_le_length h.linked.base
  have hreceived : p.received ≤ p.toClient.length := h.linked.phase.received_le
  refine ⟨hlinked, ?_, hstep, ?_, ?_, ?_⟩
  · simp only [sessionServer, servStep, hnew]
    rw [List.take_append_of_le_length h.linked.base]
    exact h.before
  · rw [htoClient]
    simp only [sessionServer]
    rw [List.take_append_of_le_length hreceived]
    exact h.shown
  · rw [htoClient]
    intro m hm
    rcases List.mem_append.mp hm with hm | hm
    · exact h.told m hm
    · rcases hone with rfl | ⟨m', rfl, htag⟩
      · cases hm
      · rw [List.mem_singleton.mp hm]
        exact htag
  · rw [htoClient]
    rintro ⟨m, hm, hend⟩
    obtain ⟨segs', hd'⟩ := hstep
    have hwhole := hd'.whole rfl
    have hquiet : outputs [m] = [] := by
      rw [outputs_one, if_neg]
      rintro htag
      rcases hend with he | he | ⟨he, -⟩ <;> rw [htag] at he <;> cases he
    have hclosed : p.server.ptmOpen = false ∧
        (outputs p.server.hist.sent).flatten = p.server.hist.stream := by
      rcases List.mem_append.mp hm with hm | hm
      · exact h.ended ⟨m, hm, hend⟩
      · rcases hone with rfl | ⟨m', rfl, -⟩
        · cases hm
        · rw [List.mem_singleton.mp hm] at hend
          have hunsent := (ends_unsent hw host (.tick (p.sys sys)) m' hnew hend).1
          have hpos : position p.server.buf = p.server.hist.stream.length := by
            have hread := hw.raw.read
            unfold position
            omega
          refine ⟨ends_closed hw host (p.sys sys) m' hnew hend, ?_⟩
          rw [hd.whole rfl, hpos, List.take_length]
    obtain ⟨hopen', hstream'⟩ := closed_stays host (.tick (p.sys sys)) hclosed.1
    simp only [servStep] at hopen' hstream'
    refine ⟨hopen', ?_⟩
    simp only [sessionServer, servStep]
    rw [hnew, outputs_append, List.flatten_append, hclosed.2, hstream'] at hwhole ⊢
    -- the whole is not longer than the stream, so nothing was added to it
    have hlen := congrArg List.length hwhole
    rw [List.length_append, List.length_take] at hlen
    have hnone : (outputs new).flatten = [] := List.length_eq_zero_iff.mp (by omega)
    rw [hnone, List.append_nil]

theorem shows_step (h : Shows subcmd opts before p) (hlook : opts.lookback ≤ 0)
    (hreq : Asks (.pass subcmd opts) (passRequest subcmd opts)) (host : Host) (e : Event)
    (hclean : Clean host p e) (hlasts : e ≠ .hangup) :
    Shows subcmd opts before (sessionStep host e p) := by
  have hlinked := h.linked.step hreq host e hclean hlasts
  obtain ⟨segs, hd⟩ := h.delivered
  cases e with
  | hangup => exact absurd rfl hlasts
  | server i =>
    cases i with
    | tick sys => exact shows_tick h hlook host sys hlinked
    | child e =>
      obtain ⟨child, pending, hs⟩ := childChange_frame e p.server
      simp only [sessionStep, sessionServer, servStep, hs] at hlinked ⊢
      exact ⟨hlinked, h.before, ⟨segs, hd.lookback, hd.off, hd.payloads, hd.inside, hd.ordered, hd.first,
        hd.gapless, hd.last, hd.whole⟩, h.shown, h.told, h.ended⟩
    | sigCHLD =>
      obtain ⟨pending, flag, hs⟩ := servSigCHLD_frame p.server
      simp only [sessionStep, sessionServer, servStep, hs] at hlinked ⊢
      exact ⟨hlinked, h.before, ⟨segs, hd.lookback, hd.off, hd.payloads, hd.inside, hd.ordered, hd.first,
        hd.gapless, hd.last, hd.whole⟩, h.shown, h.told, h.ended⟩
  | deliver =>
    simp only [sessionStep, sessionDeliver] at hlinked ⊢
    split
    · rename_i m hm
      rw [hm] at hlinked
      refine ⟨hlinked, h.before, h.delivered, ?_, h.told, h.ended⟩
      have htake : p.toClient.take (p.received + 1) = p.toClient.take p.received ++ [m] := by
        rw [List.take_add_one, hm]
        rfl
      have hshown := h.linked.shows rfl hm (h.told m (List.mem_of_getElem? hm))
      show (cliRecv m p.client).shown = outputs (p.toClient.take (p.received + 1))
      rw [hshown, htake, outputs_append, h.shown]
    · exact h
  | stdin bs =>
    have hshown : (cliStdin bs p.client).shown = p.client.shown := by
      rcases cliStdin_cases bs p.client with hc | ⟨-, -, -, hc⟩ | ⟨-, -, hc⟩ <;> rw [hc] <;> rfl
    refine ⟨hlinked, h.before, h.delivered, ?_, h.told, h.ended⟩
    show (cliStdin bs p.client).shown = _
    rw [hshown]
    exact h.shown
  | winch row col =>
    have hshown : (cliWinch row col p.client).shown = p.client.shown := by
      unfold cliWinch
      split <;> rfl
    refine ⟨hlinked, h.before, h.delivered, ?_, h.told, h.ended⟩
    show (cliWinch row col p.client).shown = _
    rw [hshown]
    exact h.shown

theorem Shows.in_order (h : Shows subcmd opts before p) :
    p.client.shown.flatten <+: p.server.hist.stream.drop (outputs before).flatten.length ∧
      ((∃ m ∈ p.toClient.take p.received, EndsOutput m) →
        p.client.shown.flatten = p.server.hist.stream.drop (outputs before).flatten.length) := by
  have hsplit : outputs p.server.hist.sent = outputs before ++ outputs p.toClient := by
    rw [← h.before, Session.toClient, ← outputs_append, List.take_append_drop]
  obtain ⟨segs, hd⟩ := h.delivered
  have hwhole := hd.whole rfl
  rw [hsplit, List.flatten_append] at hwhole
  have hclient : (outputs p.toClient).flatten <+:
      p.server.hist.stream.drop (outputs before).flatten.length := by
    have hrest := congrArg (List.drop (outputs before).flatten.length) hwhole
    rw [List.drop_left' rfl, List.drop_take] at hrest
    rw [hrest]
    exact List.take_prefix _ _
  constructor
  · rw [h.shown]
    obtain ⟨rest, hrest⟩ := List.take_prefix p.received p.toClient
    refine List.IsPrefix.trans ⟨(outputs rest).flatten, ?_⟩ hclient
    rw [← List.flatten_append, ← outputs_append, hrest]
  · rintro ⟨m, hm, hend⟩
    obtain ⟨-, hall⟩ := h.ended ⟨m, List.mem_of_mem_take hm, hend⟩
    rw [h.shown, h.linked.phase.heard_all hend hm]
    rw [hsplit, List.flatten_append] at hall
    rw [← hall, List.drop_left' rfl]

end

/-- From the child to the user's screen.  A server has run without `-lookback` and never with
the nonblock flag on; an `expect`, an `interact` without `-subst` or a `wait` client without
`-lookback` connects to it, and both take their steps in any order in which the user leaves an
`interact` only while no reply is under way.  At every moment what the client has shown is one
stretch of what the server has read from the pty, without a gap, from where the clients before
were left.  When the client has been told that there is no more, it has shown the rest. -/
theorem shown_in_order (host : Host) (tty : Bool) (subcmd : PassSubcmd) (opts : StPass)
    (request : Ttlv) (s₀ s : Server) (p : Session)
    (hreq : cliMain tty (.pass subcmd opts) = .message request) (hlook : opts.lookback ≤ 0)
    (h₀ : Initial s₀) (hs : Reaches (watchedStep host) (fun sw i => NoLookback sw.1 i)
      (s₀, s₀.spawn.nonblock) (s, false)) (hfree : s.conn.sock = false)
    (hrun : Reaches (sessionStep host) (Clean host)
      (sessionStart (cliConnect (.pass subcmd opts) request) s) p) :
    p.client.shown.flatten <+: p.server.hist.stream.drop (outputs s.hist.sent).flatten.length ∧
      ((∃ m ∈ p.toClient.take p.received, EndsOutput m) →
        p.client.shown.flatten = p.server.hist.stream.drop (outputs s.hist.sent).flatten.length) := by
  have hrequest : request = passRequest subcmd opts := by
    simp only [cliMain] at hreq
    split at hreq
    · cases hreq
    · cases hreq
      rfl
  subst hrequest
  have hreach : Reaches (servStep host) (fun _ _ => True) s₀ s :=
    hs.simulate Prod.fst fun sw i _ => Reaches.start.next i trivial
  obtain ⟨⟨mark, hw⟩, segs, hd⟩ := reaches_delivered host h₀ hs
  have hstart : Shows subcmd opts s.hist.sent
      (sessionStart (cliConnect (.pass subcmd opts) (passRequest subcmd opts)) s) := by
    refine ⟨linked_start hw (reaches_watching host h₀ hreach) hfree, List.take_length, ⟨segs, hd⟩,
      ?_, ?_, ?_⟩
    · simp [sessionStart, cliConnect, outputs]
    · simp [Session.toClient, sessionStart]
    · simp [Session.toClient, sessionStart]
  obtain ⟨hshows, -⟩ | ⟨q, hshows, hhung⟩ := reaches_hung (fun _ h => h.linked)
    (fun p i => clean_apart host p)
    (fun p e h hclean hlasts => shows_step h hlook ⟨tty, hreq⟩ host e hclean hlasts) hstart rfl hrun
  · exact hshows.in_order
  · rw [hhung.lost, cliLost_waiting hhung.waits]
    exact hshows.in_order

/-- `sexpect interact` with a child that prompts. -/
def promptEvents : List Event :=
  (ticks 3 {} ++ ticks 11 connecting ++ ticks 11 readable).map .server ++ [.deliver] ++
    (ticks 13 readable ++ ticks 24 { select := .ready { ptm := true }, ptm := [.data (ascii "$ ")] }).map
      .server ++ [.deliver]

/-- The child exits, its pty is closed, and the client is told. -/
def goodbyeEvents : List Event :=
  promptEvents ++ [.server (.child .terminate), .server .sigCHLD] ++
    (ticks 14 { select := .ready { ptm := true }, ptm := [.eof], status := 0x700 }).map .server ++
    [.deliver, .deliver]

theorem shown_in_order_prompt :
    [ascii "$ "].flatten <+: (runs (sessionStep plainHost) promptEvents
        (sessionStart interactClient freshServer)).server.hist.stream.drop 0 ∧
      [ascii "$ ", ascii "$ "].flatten = (runs (sessionStep plainHost) goodbyeEvents
        (sessionStart interactClient freshServer)).server.hist.stream.drop 0 := by
  have hprompt : Reaches (sessionStep plainHost) (Clean plainHost)
      (sessionStart interactClient freshServer)
      (runs (sessionStep plainHost) promptEvents (sessionStart interactClient freshServer)) :=
    Reaches.start.runs _ (by decide +kernel)
  have hgoodbye : Reaches (sessionStep plainHost) (Clean plainHost)
      (sessionStart interactClient freshServer)
      (runs (sessionStep plainHost) goodbyeEvents (sessionStart interactClient freshServer)) :=
    Reaches.start.runs _ (by decide +kernel)
  have hone : (runs (sessionStep plainHost) promptEvents
      (sessionStart interactClient freshServer)).client.shown = [ascii "$ "] := by decide +kernel
  have hboth : (runs (sessionStep plainHost) goodbyeEvents
      (sessionStart interactClient freshServer)).client.shown = [ascii "$ ", ascii "$ "] := by
    decide +kernel
  have htold : ttlvNewInt Tag.exited 0x700 ∈ (runs (sessionStep plainHost) goodbyeEvents
      (sessionStart interactClient freshServer)).toClient.take (runs (sessionStep plainHost)
        goodbyeEvents (sessionStart interactClient freshServer)).received := by decide +kernel
  have hpart := (shown_in_order plainHost true .interact
    { noInput := false, expflags := passExpectExit } _ freshServer freshServer _ (by decide) (by decide)
    freshServer_initial .start rfl hprompt).1
  have hwhole := (shown_in_order plainHost true .interact
    { noInput := false, expflags := passExpectExit } _ freshServer freshServer _ (by decide) (by decide)
    freshServer_initial .start rfl hgoodbye).2 ⟨_, htold, .inr (.inl rfl)⟩
  rw [hone] at hpart
  rw [hboth] at hwhole
  exact ⟨hpart, hwhole⟩

end Sexpect.Guarantees
