import Mathlib.Data.List.Chain
import Sexpect.Guarantees.Frames
import Sexpect.Guarantees.ServerTalk
import Sexpect.Guarantees.Visits

/-!
# Ordered delivery of output

`serv_pass` (server.c:742-910) sends what lies between the first unsent octet and
the end of the raw buffer.  Without a lookback the first unsent octet is the end
of the last output, or is behind it when the nonblocking mode has marked data as
old, so that the payloads are stretches of the stream one behind the other.
`Delivered` is that invariant over whole runs: it speaks about the log of
messages sent to all clients so far.
-/
namespace Sexpect.Guarantees
open Sexpect.Lib Sexpect.Source

/-- The payloads of the `OUTPUT` messages in a log. -/
def outputs (sent : List Ttlv) : List Bytes :=
  sent.filterMap fun m => if m.tag = Tag.output then some m.vRaw else none

/-- The messages that tell a client there is no more output: `EOF`, `EXITED` and
the error `ERROR_EOF`. -/
def EndsOutput (m : Ttlv) : Prop :=
  m.tag = Tag.eof ∨ m.tag = Tag.exited ∨
    m.tag = Tag.error ∧ (ttlvFindChild m Tag.errorCode).vInt = ErrorCode.eof

/-- The message a step receives. -/
def received (s : Server) : Input → Option Ttlv
  | .tick sys =>
    match s.pc with
    | .recv fds => if s.conn.sock ∧ fds.sock then sys.msg else none
    | _ => none
  | _ => none

/-- No `PASS` with a positive lookback is received. -/
def NoLookback (s : Server) (i : Input) : Prop :=
  ∀ m, received s i = some m → m.tag = Tag.pass → (ttlvFindChild m Tag.lookback).vInt ≤ 0

instance (s : Server) (i : Input) : Decidable (NoLookback s i) :=
  match h : received s i with
  | none => isTrue fun m hm => by rw [h] at hm; cases hm
  | some m => decidable_of_iff (m.tag = Tag.pass → (ttlvFindChild m Tag.lookback).vInt ≤ 0)
      ⟨fun hp m' hm => by rw [h] at hm; cases hm; exact hp, fun hp => hp m h⟩

/-- The server paired with whether the nonblock flag has been on so far. -/
def watchedStep (host : Host) (i : Input) (sw : Server × Bool) : Server × Bool :=
  (servStep host i sw.1, sw.2 || (servStep host i sw.1).spawn.nonblock)

/-- Everything sent so far, as stretches of the stream. -/
structure Delivered (s : Server) (seen : Bool) (segs : List (Nat × Nat)) : Prop where
  lookback : s.conn.lookback ≤ 0
  off : seen = false → s.spawn.nonblock = false
  payloads : outputs s.hist.sent = segs.map fun p => segment s.hist.stream p.1 p.2
  inside : ∀ p ∈ segs, p.1 ≤ p.2 ∧ p.2 ≤ position s.buf
  ordered : segs.IsChain fun p q => p.2 ≤ q.1
  first : seen = false → ∀ p ∈ segs.head?, p.1 = 0
  gapless : seen = false → segs.IsChain fun p q => p.2 = q.1
  last : seen = false → ∀ p ∈ segs.getLast?, p.2 = position s.buf
  whole : seen = false → (outputs s.hist.sent).flatten = s.hist.stream.take (position s.buf)

theorem outputs_append (sent more : List Ttlv) :
    outputs (sent ++ more) = outputs sent ++ outputs more :=
  List.filterMap_append ..

theorem outputs_other (l : List Ttlv) (h : ∀ m ∈ l, m.tag ≠ Tag.output) : outputs l = [] := by
  apply List.filterMap_eq_nil_iff.mpr
  intro m hm
  rw [if_neg (h m hm)]

/-! ## Replies are no output -/

theorem servNewError_tag (code : Int) (text : Bytes) : (servNewError code text).tag = Tag.error :=
  rfl

theorem servNewError_code (code : Int) (text : Bytes) :
    (ttlvFindChild (servNewError code text) Tag.errorCode).vInt = (int32 code).toInt := by
  unfold servNewError
  rw [findChild_struct, ttlvNewInt, findFrom_link, if_pos (by decide)]
  rfl

/-- A reply to a request, neither output nor its end. -/
def Plain (m : Ttlv) : Prop := m.tag ≠ Tag.output ∧ ¬ EndsOutput m

theorem plain_of_tag {m : Ttlv} (h : m.tag ≠ Tag.output) (h1 : m.tag ≠ Tag.eof)
    (h2 : m.tag ≠ Tag.exited) (h3 : m.tag ≠ Tag.error) : Plain m := by
  refine ⟨h, ?_⟩
  rintro (he | he | ⟨he, -⟩)
  · exact h1 he
  · exact h2 he
  · exact h3 he

theorem plain_error {code : Int} (text : Bytes) (h : (int32 code).toInt ≠ ErrorCode.eof) :
    Plain (servNewError code text) := by
  refine ⟨by rw [servNewError_tag]; decide, ?_⟩
  rintro (he | he | ⟨-, he⟩)
  · rw [servNewError_tag] at he
    cases he
  · rw [servNewError_tag] at he
    cases he
  · rw [servNewError_code] at he
    exact h he

theorem plain_expoutReply (index : Int) (expout : List (Option Bytes)) :
    Plain (expoutReply index expout) := by
  unfold expoutReply
  split
  · split <;> apply plain_of_tag <;> simp [ttlvNewText, ttlvNew, Ttlv.tag, Tag.expoutText, Tag.output,
      Tag.eof, Tag.exited, Tag.error]
  · exact plain_error _ (by decide)

theorem plain_killReply (sys : Sys) : Plain (killReply sys) := by
  unfold killReply
  split
  · exact plain_error _ (by decide)
  · apply plain_of_tag <;> decide

theorem plain_infoReply (host : Host) (s : Server) : Plain (infoReply host s) := by
  apply plain_of_tag <;> simp [infoReply, ttlvAppendChild, ttlvNewStruct, ttlvNew, Ttlv.tag, Tag.info,
    Tag.output, Tag.eof, Tag.exited, Tag.error]

/-- What handling a message does to the log and to the position. -/
structure Answered (s s' : Server) : Prop where
  log : ∃ l, s'.hist.sent = s.hist.sent ++ l ∧ ∀ m ∈ l, Plain m
  stream : s'.hist.stream = s.hist.stream
  unsent : position s'.buf = position s.buf

theorem Answered.nothing {s s' : Server} (hh : s'.hist.sent = s.hist.sent)
    (hs : s'.hist.stream = s.hist.stream) (hp : position s'.buf = position s.buf) :
    Answered s s' :=
  ⟨⟨[], by rw [hh, List.append_nil], by simp⟩, hs, hp⟩

theorem servMsgSend_answered {s s' : Server} (sent : Bool) {m : Ttlv} (hm : Plain m)
    (hsock : s'.conn.sock = true) (hh : s'.hist.sent = s.hist.sent)
    (hs : s'.hist.stream = s.hist.stream) (hp : position s'.buf = position s.buf) :
    Answered s (servMsgSend sent m s') := by
  have hpost := servMsgSend_posts sent m hsock
  refine ⟨?_, by rw [servMsgSend_stream, hs], by rw [servMsgSend_buf, hp]⟩
  rw [hpost.log, hh]
  cases sent
  · exact ⟨[], by simp, by simp⟩
  · exact ⟨[m], rfl, by simpa using hm⟩

theorem msgOut_answered (sent : Bool) {m : Ttlv} (hm : Plain m) (s : Server) :
    Answered s (msgOut sent m s) := by
  refine ⟨?_, msgOut_stream sent m s, by rw [msgOut_buf]⟩
  unfold msgOut
  cases sent
  · exact ⟨[], by simp, by simp⟩
  · exact ⟨[m], rfl, by simpa using hm⟩

theorem dispatch_answered (host : Host) (sys : Sys) (m : Ttlv) (s : Server)
    (hsock : s.conn.sock = true) : Answered s (dispatch host sys m s) := by
  have hack : Plain ack := by apply plain_of_tag <;> decide
  have hmismatch : ∀ text, Plain (servNewError ErrorCode.proto (versionMismatch text)) :=
    fun text => plain_error _ (by decide)
  have hwrite : (writePtm sys m s).conn = s.conn ∧ (writePtm sys m s).hist.sent = s.hist.sent ∧
      (writePtm sys m s).hist.stream = s.hist.stream ∧ (writePtm sys m s).buf = s.buf := by
    unfold writePtm
    split <;> exact ⟨rfl, rfl, rfl, rfl⟩
  obtain ⟨hw1, hw2, hw3, hw4⟩ := hwrite
  apply dispatch_cases (motive := fun s' => Answered s s')
  case hello =>
    intro _
    unfold servHello
    split
    · exact .nothing rfl rfl rfl
    · simp only
      split
      · exact .nothing rfl rfl rfl
      · split
        · have h := servMsgSend_answered (s := s) sys.sent
            (hmismatch (ttlvFindChild m Tag.version).vText) hsock rfl rfl rfl
          exact ⟨h.log, h.stream, h.unsent⟩
        · exact msgOut_answered sys.sent (by apply plain_of_tag <;> decide) s
  case disconn =>
    intro _
    unfold servDisconn
    split
    · exact .nothing rfl rfl rfl
    · have h := msgOut_answered sys.sent (m := msgDisconn) (by apply plain_of_tag <;> decide) s
      exact ⟨h.log, h.stream, h.unsent⟩
  case send =>
    exact fun _ => servMsgSend_answered sys.sent hack (by rw [hw1, hsock]) hw2 hw3 (by rw [hw4])
  case input => exact fun _ => .nothing hw2 hw3 (by rw [hw4])
  case pass =>
    intro _
    unfold processPass
    simp only
    split <;> exact .nothing rfl rfl rfl
  case winch =>
    intro _
    unfold processWinch
    split <;> exact .nothing rfl rfl rfl
  case expout => exact fun _ => servMsgSend_answered sys.sent (plain_expoutReply _ _) hsock rfl rfl rfl
  case kill => exact fun _ => servMsgSend_answered sys.sent (plain_killReply sys) hsock rfl rfl rfl
  case close => exact fun _ => servMsgSend_answered sys.sent hack hsock rfl rfl rfl
  case set => exact fun _ => servMsgSend_answered sys.sent hack hsock rfl rfl rfl
  case abort => exact fun _ _ => .nothing rfl rfl rfl
  case info =>
    exact fun buf _ hcopy => servMsgSend_answered sys.sent (plain_infoReply _ _) hsock rfl rfl
      (bufRaw2expect_position hcopy)
  case other => exact .nothing rfl rfl rfl

/-- Only a `PASS` with a positive lookback asks for old output. -/
theorem dispatch_lookback (host : Host) (sys : Sys) (m : Ttlv) (s : Server)
    (hm : m.tag = Tag.pass → (ttlvFindChild m Tag.lookback).vInt ≤ 0) :
    (dispatch host sys m s).conn.lookback = s.conn.lookback := by
  by_cases htag : m.tag = Tag.pass
  · have hle := hm htag
    rw [dispatch_pass host sys m s htag, processPass]
    simp only
    split
    · rfl
    · exact if_neg (by omega)
  · obtain ⟨sock, hconn⟩ := dispatch_conn host sys m s htag
    rw [hconn]

theorem PassReply.tag_ne {t : Ttlv} (h : PassReply t) : t.tag ≠ Tag.output := by
  rcases h with rfl | rfl | ⟨status, rfl⟩ | rfl | rfl
  · decide
  · decide
  · simp [ttlvNewInt, ttlvNew, Ttlv.tag, Tag.exited, Tag.output]
  · rw [servNewError_tag]
    decide
  · rw [servNewError_tag]
    decide

/-! ## One step -/

/-- What was read stays read. -/
theorem Moves.grows {dropping : Prop} {stream stream' : Bytes} {b b' : Buffers} {mark mark' : Nat}
    (h : Moves dropping stream b mark stream' b' mark') : ∃ got, stream' = stream ++ got := by
  cases h with
  | read got _ => exact ⟨got, rfl⟩
  | same | old _ _ | sent | copied _ _ | reset | matched _ _ _ _ | dropped _ =>
    exact ⟨[], (List.append_nil _).symm⟩

theorem position_le {stream : Bytes} {b : Buffers} (h : RawWindow stream b) :
    position b ≤ stream.length := by
  have := h.read
  unfold position
  omega

/-- The payload of an output without lookback. -/
theorem outputFrom_payload {stream : Bytes} {b : Buffers} (h : RawWindow stream b) :
    (outputFrom b.rawnew b).vRaw = segment stream (position b) b.ntotal := by
  have htotal := h.total
  have hpos : position b = b.rawoffset + b.rawnew := by
    unfold position
    omega
  have hpay : (outputFrom b.rawnew b).vRaw = (b.rawbuf.take (b.rawnew + b.newcnt)).drop b.rawnew := by
    rw [List.drop_take]
    rfl
  rw [hpay, h.bytes, List.drop_drop, hpos, h.read, segment_to_end]

/-- Nothing said: the stretches stay, and the position moves on at most. -/
theorem Delivered.unsaid {s s' : Server} {seen seen' : Bool} {segs : List (Nat × Nat)}
    (h : Delivered s seen segs) (hraw : RawWindow s.hist.stream s.buf)
    (hlook : s'.conn.lookback ≤ 0) (hoff : seen' = false → s'.spawn.nonblock = false)
    (hseen : seen' = false → seen = false) (hout : outputs s'.hist.sent = outputs s.hist.sent)
    (hgrow : ∃ got, s'.hist.stream = s.hist.stream ++ got)
    (hpos : position s.buf ≤ position s'.buf)
    (hexact : seen' = false → position s'.buf = position s.buf) : Delivered s' seen' segs := by
  obtain ⟨got, hstream⟩ := hgrow
  have hle := position_le hraw
  refine ⟨hlook, hoff, ?_, ?_, h.ordered, fun hs => h.first (hseen hs),
    fun hs => h.gapless (hseen hs), ?_, ?_⟩
  · rw [hout, h.payloads, hstream]
    apply List.map_congr_left
    intro p hp
    have := h.inside p hp
    rw [segment_grow _ _ _ _ (by omega)]
  · intro p hp
    have := h.inside p hp
    omega
  · intro hs p hp
    rw [hexact hs]
    exact h.last (hseen hs) p hp
  · intro hs
    rw [hout, h.whole (hseen hs), hexact hs, hstream, List.take_append_of_le_length hle]

/-- Output goes out: one more stretch, from the position to the end. -/
theorem Delivered.said {s s' : Server} {seen seen' : Bool} {segs : List (Nat × Nat)}
    (h : Delivered s seen segs) (hraw : RawWindow s.hist.stream s.buf)
    (hlook : s'.conn.lookback ≤ 0) (hoff : seen' = false → s'.spawn.nonblock = false)
    (hseen : seen' = false → seen = false)
    (hlog : s'.hist.sent = s.hist.sent ++ [outputFrom s.buf.rawnew s.buf])
    (hstream : s'.hist.stream = s.hist.stream) (hpos : position s'.buf = s.buf.ntotal) :
    Delivered s' seen' (segs ++ [(position s.buf, s.buf.ntotal)]) := by
  have hread := hraw.read
  have hle : position s.buf ≤ s.buf.ntotal := Nat.sub_le ..
  have hout : outputs s'.hist.sent =
      outputs s.hist.sent ++ [segment s.hist.stream (position s.buf) s.buf.ntotal] := by
    rw [hlog, outputs_append, ← outputFrom_payload hraw]
    rfl
  refine ⟨hlook, hoff, ?_, ?_, ?_, ?_, ?_, ?_, ?_⟩
  · rw [hout, h.payloads, hstream, List.map_append]
    rfl
  · intro p hp
    rw [hpos]
    rcases List.mem_append.mp hp with hp | hp
    · have := h.inside p hp
      omega
    · rw [List.mem_singleton.mp hp]
      exact ⟨hle, le_rfl⟩
  · apply h.ordered.append (List.isChain_singleton _)
    intro p hp q hq
    cases Option.mem_some.mp hq
    exact (h.inside p (List.mem_of_mem_getLast? hp)).2
  · intro hs p hp
    have hfirst := h.first (hseen hs)
    have hlast := h.last (hseen hs)
    cases segs with
    | nil =>
      cases Option.mem_some.mp hp
      have hwhole := h.whole (hseen hs)
      rw [h.payloads] at hwhole
      have hlen := congrArg List.length hwhole
      rw [List.length_take_of_le (by omega)] at hlen
      exact hlen.symm
    | cons q segs => exact hfirst p (by simpa using hp)
  · intro hs
    apply (h.gapless (hseen hs)).append (List.isChain_singleton _)
    intro p hp q hq
    cases Option.mem_some.mp hq
    exact h.last (hseen hs) p hp
  · intro hs p hp
    rw [List.getLast?_concat] at hp
    cases Option.mem_some.mp hp
    exact hpos.symm
  · intro hs
    have hfront : segment s.hist.stream 0 (position s.buf) = s.hist.stream.take (position s.buf) := rfl
    rw [hout, List.flatten_append, h.whole (hseen hs), hstream, hpos, ← hfront, List.flatten_singleton,
      segment_append _ _ _ _ (Nat.zero_le _) hle]
    rfl

theorem Delivered.step {s : Server} {seen : Bool} {segs : List (Nat × Nat)} {mark : Nat}
    (h : Delivered s seen segs) (hw : Windows s mark) (host : Host) (i : Input)
    (hok : NoLookback s i) :
    ∃ segs', Delivered (servStep host i s) (seen || (servStep host i s).spawn.nonblock) segs' := by
  have hgrow := (servStep_moves host i s mark hw.flow).grows
  have ht := servStep_talks host i s hw.flow
  generalize servStep host i s = s' at hgrow ht
  have hoff : (seen || s'.spawn.nonblock) = false → s'.spawn.nonblock = false := by
    simp
  have hseen : (seen || s'.spawn.nonblock) = false → seen = false := by
    cases seen <;> simp
  have hlook : ∀ lookback, lookback = s.conn.lookback ∨ lookback = 0 → lookback ≤ 0 := by
    have := h.lookback
    omega
  have hle : position s.buf ≤ s.buf.ntotal := Nat.sub_le ..
  cases ht with
  | quiet hq =>
    obtain ⟨lookback, hconn, hl⟩ := hq.conn
    refine ⟨segs, h.unsaid hw.raw ?_ hoff hseen ?_ hgrow hq.unsent.ge (fun _ => hq.unsent)⟩
    · rw [hconn]
      exact hlook lookback hl
    · rw [hq.sent]
  | old fds hpc hon hfull htrim =>
    have hon' : seen = true := by
      by_contra hs
      rw [h.off (by simpa using hs)] at hon
      cases hon
    refine ⟨segs, h.unsaid hw.raw h.lookback hoff hseen rfl hgrow ?_ ?_⟩
    · simp only [position, markOld]
      omega
    · intro hs
      rw [hon'] at hs
      cases hs
  | accepted fds hpc hready hconn =>
    exact ⟨segs, h.unsaid hw.raw le_rfl hoff hseen rfl hgrow le_rfl (fun _ => rfl)⟩
  | received fds hpc hsock hready =>
    rename_i sys
    refine ⟨segs, ?_⟩
    cases hmsg : sys.msg with
    | none =>
      simp only [servProcessMsg, hmsg] at hoff hseen hgrow ⊢
      exact h.unsaid hw.raw h.lookback hoff hseen rfl hgrow le_rfl (fun _ => rfl)
    | some m =>
      have hm : m.tag = Tag.pass → (ttlvFindChild m Tag.lookback).vInt ≤ 0 := by
        apply hok m
        simp [received, hpc, hsock, hready, hmsg]
      simp only [servProcessMsg, hmsg] at hoff hseen hgrow ⊢
      obtain ⟨⟨l, hl, hplain⟩, -, hpos⟩ :=
        dispatch_answered host sys m { s with pc := .pass } hsock
      have hlb := dispatch_lookback host sys m { s with pc := .pass } hm
      refine h.unsaid hw.raw ?_ hoff hseen ?_ hgrow hpos.ge (fun _ => hpos)
      · rw [hlb]
        exact h.lookback
      · rw [hl, outputs_append, outputs_other l (fun m hm => (hplain m hm).1), List.append_nil]
  | output psend hpc hsock hpass hstart hpost hconn hpos =>
    rename_i sys
    obtain ⟨lookback, hc, hl⟩ := hconn
    have hlb : s'.conn.lookback ≤ 0 := by
      rw [hc]
      exact hlook lookback hl
    have hlog := hpost.log
    cases hsent : sys.sent with
    | false =>
      rw [hsent, if_neg (by simp)] at hlog hpos
      exact ⟨segs, h.unsaid hw.raw hlb hoff hseen (by rw [hlog]) hgrow hpos.ge (fun _ => hpos)⟩
    | true =>
      rw [hsent, if_pos rfl] at hlog hpos
      rw [hstart.plain h.lookback] at hlog
      exact ⟨_, h.said hw.raw hlb hoff hseen hlog hpost.stream hpos⟩
  | replied t hpc hsock hpass hnew hreply hpost hafter hconn hpos =>
    refine ⟨segs, h.unsaid hw.raw ?_ hoff hseen ?_ hgrow hpos.ge (fun _ => hpos)⟩
    · rw [hconn]
      exact h.lookback
    · rw [hpost.log]
      split
      · have hone : outputs [t] = [] := by
          apply outputs_other
          intro m hm
          rw [List.mem_singleton.mp hm]
          exact hreply.tag_ne
        rw [outputs_append, hone, List.append_nil]
      · rfl

/-! ## Whole runs -/

theorem Initial.delivered {s : Server} (h : Initial s) : Delivered s s.spawn.nonblock [] := by
  obtain ⟨spawn, rawbuf, expbuf, -, -, rfl⟩ := h
  constructor <;> simp [servInit, outputs, position]

theorem reaches_delivered (host : Host) {s₀ : Server} {sw : Server × Bool} (h₀ : Initial s₀)
    (h : Reaches (watchedStep host) (fun sw i => NoLookback sw.1 i) (s₀, s₀.spawn.nonblock) sw) :
    (∃ mark, Windows sw.1 mark) ∧ ∃ segs, Delivered sw.1 sw.2 segs := by
  induction h with
  | start => exact ⟨⟨0, h₀.windows⟩, [], h₀.delivered⟩
  | next i _ hok ih =>
    obtain ⟨⟨mark, hw⟩, segs, hd⟩ := ih
    exact ⟨⟨_, hw.step host i⟩, hd.step hw host i hok⟩

/-- At the end of output everything has been passed on. -/
theorem ends_unsent {s : Server} {mark : Nat} (hw : Windows s mark) (host : Host) (i : Input)
    (m : Ttlv) (hsent : (servStep host i s).hist.sent = s.hist.sent ++ [m]) (hend : EndsOutput m) :
    s.buf.newcnt = 0 ∧ (servStep host i s).hist.stream = s.hist.stream := by
  have ht := servStep_talks host i s hw.flow
  generalize servStep host i s = s' at hsent ht
  have hno : s'.hist.sent ≠ s.hist.sent := by
    rw [hsent]
    simp
  cases ht with
  | quiet hq => exact absurd hq.sent hno
  | old => exact absurd rfl hno
  | accepted => exact absurd rfl hno
  | received fds hpc hsock hready =>
    rename_i sys
    unfold servProcessMsg at hsent
    split at hsent
    · have hnil := List.append_cancel_left ((List.append_nil s.hist.sent).trans hsent)
      cases hnil
    · rename_i msgIn _
      obtain ⟨⟨l, hl, hplain⟩, -, -⟩ := dispatch_answered host sys msgIn { s with pc := .pass } hsock
      rw [hl] at hsent
      have hm : l = [m] := List.append_cancel_left hsent
      exact absurd hend (hplain m (by simp [hm])).2
  | output psend hpc hsock hpass hstart hpost hconn hpos =>
    have hlog := hpost.log
    split at hlog
    · rw [hlog] at hsent
      have hm := List.append_cancel_left hsent
      cases hm
      rcases hend with he | he | ⟨he, -⟩ <;> cases he
    · exact absurd hlog hno
  | replied t hpc hsock hpass hnew hreply hpost hafter hconn hpos => exact ⟨hnew, hpost.stream⟩

/-- Ordered delivery.  In every run without a positive lookback, whatever the
clients and the system calls do, the payloads sent so far are stretches
`[a₁, b₁), [a₂, b₂), …` of the stream with `bᵢ ≤ aᵢ₊₁`.  While the nonblock flag
has never been on they leave no gap and start at the beginning, and when a step
sends `EOF`, `EXITED` or `ERROR_EOF` they already make up the whole stream. -/
theorem ordered_delivery (host : Host) (s₀ s : Server) (seen : Bool) (h₀ : Initial s₀)
    (hrun : Reaches (watchedStep host) (fun sw i => NoLookback sw.1 i) (s₀, s₀.spawn.nonblock)
      (s, seen)) :
    (∃ segs : List (Nat × Nat),
      outputs s.hist.sent = segs.map (fun p => segment s.hist.stream p.1 p.2) ∧
        (∀ p ∈ segs, p.1 ≤ p.2 ∧ p.2 ≤ s.hist.stream.length) ∧
        segs.IsChain (fun p q => p.2 ≤ q.1) ∧
        (seen = false → (∀ p ∈ segs.head?, p.1 = 0) ∧ segs.IsChain fun p q => p.2 = q.1)) ∧
      (seen = false → ∀ i m, (servStep host i s).hist.sent = s.hist.sent ++ [m] → EndsOutput m →
        (outputs s.hist.sent).flatten = (servStep host i s).hist.stream) := by
  obtain ⟨⟨mark, hw⟩, segs, hd⟩ := reaches_delivered host h₀ hrun
  simp only at hw hd
  have hle := position_le hw.raw
  refine ⟨⟨segs, hd.payloads, ?_, hd.ordered, fun hs => ⟨hd.first hs, hd.gapless hs⟩⟩, ?_⟩
  · intro p hp
    have := hd.inside p hp
    omega
  · intro hs i m hsent hend
    obtain ⟨hnew, hstream⟩ := ends_unsent hw host i m hsent hend
    have hread := hw.raw.read
    have hpos : position s.buf = s.hist.stream.length := by
      unfold position
      omega
    rw [hd.whole hs, hstream, hpos, List.take_length]

theorem runs_watched (host : Host) (is : List Input) (sw : Server × Bool) :
    (runs (watchedStep host) is sw).1 = runs (servStep host) is sw.1 := by
  induction is generalizing sw with
  | nil => rfl
  | cons i is ih => exact ih (watchedStep host i sw)

/-- The client of `promptInputs` gets its match and leaves; more output arrives with a second
client, which waits for the end of the pty. -/
def twoVisitInputs : List Input :=
  promptInputs ++ ticks 2 {} ++ ticks 11 (asking msgDisconn) ++
    ticks 11 { select := .ready { listen := true, ptm := true }, ptm := [.data (ascii "$ ")] } ++
    ticks 11 { select := .ready { sock := true, ptm := true }, ptm := [.eof],
               msg := some (passRequest .wait { expflags := passExpectEof }) }

theorem ordered_delivery_prompt :
    (∃ segs : List (Nat × Nat),
      [ascii "login: ", ascii "$ "] = segs.map (fun p => segment (ascii "login: $ ") p.1 p.2) ∧
        (∀ p ∈ segs.head?, p.1 = 0) ∧ segs.IsChain fun p q => p.2 = q.1) ∧
      [ascii "login: ", ascii "$ "].flatten =
        (servStep plainHost (.tick {})
          (runs (servStep plainHost) twoVisitInputs freshServer)).hist.stream := by
  have hrun : Reaches (watchedStep plainHost) (fun sw i => NoLookback sw.1 i)
      (freshServer, freshServer.spawn.nonblock)
      (runs (watchedStep plainHost) twoVisitInputs (freshServer, freshServer.spawn.nonblock)) :=
    Reaches.start.runs _ (by decide +kernel)
  have hserver : (runs (watchedStep plainHost) twoVisitInputs
      (freshServer, freshServer.spawn.nonblock)).1 =
        runs (servStep plainHost) twoVisitInputs freshServer := runs_watched plainHost _ _
  have hseen : (runs (watchedStep plainHost) twoVisitInputs
      (freshServer, freshServer.spawn.nonblock)).2 = false := by decide +kernel
  have hsent : outputs (runs (servStep plainHost) twoVisitInputs freshServer).hist.sent =
      [ascii "login: ", ascii "$ "] := by decide +kernel
  have hstream : (runs (servStep plainHost) twoVisitInputs freshServer).hist.stream =
      ascii "login: $ " := by decide +kernel
  have heof : (servStep plainHost (.tick {})
      (runs (servStep plainHost) twoVisitInputs freshServer)).hist.sent =
        (runs (servStep plainHost) twoVisitInputs freshServer).hist.sent ++ [ttlvNewStruct Tag.eof] := by
    decide +kernel
  generalize runs (watchedStep plainHost) twoVisitInputs
    (freshServer, freshServer.spawn.nonblock) = sw at hrun hserver hseen
  obtain ⟨⟨segs, hpay, -, -, hgap⟩, hwhole⟩ :=
    ordered_delivery plainHost freshServer sw.1 sw.2 freshServer_initial hrun
  rw [hserver] at hpay hwhole
  rw [hsent, hstream] at hpay
  refine ⟨⟨segs, hpay, hgap hseen⟩, ?_⟩
  have hall := hwhole hseen (.tick {}) (ttlvNewStruct Tag.eof) heof (.inl rfl)
  rw [hsent] at hall
  exact hall

end Sexpect.Guarantees
