import Sexpect.Guarantees.SideBySide

/-!
# Two servers, one of them visited by `get`

Two servers run side by side from one state without a client.  The first is
visited by a client that asks for `TAG_INFO` and leaves, the second sees
everything but this client.  During the visit they differ in the connection and
in where the pending text is stored; the second may leave its loop earlier.
-/
namespace Sexpect.Guarantees
open Sexpect.Lib Sexpect.Source

def SelectResult.hide : SelectResult → SelectResult
  | .ready fds => .ready { ptm := fds.ptm }
  | r => r

/-- The same answers of the system, without the client. -/
def Sys.hide (sys : Sys) : Sys := { sys with select := SelectResult.hide sys.select }

def hideClient : Input → Input
  | .tick sys => .tick (Sys.hide sys)
  | i => i

/-- A step during the visit: the first server is visited, the second is not. -/
def visitStep (host : Host) (i : Input) (p : Server × Server) : Server × Server :=
  (servStep host i p.1, servStep host (hideClient i) p.2)

/-- A step after the visit. -/
def bothStep (host : Host) (i : Input) (p : Server × Server) : Server × Server :=
  (servStep host i p.1, servStep host i p.2)

/-- What a `get` client may do: connect, and send `HELLO`, `INFO` and `DISCONN`. -/
def GetInput : Input → Prop
  | .tick sys => sys.accept = .conn ∧
      ∀ m ∈ sys.msg, m.tag = Tag.hello ∨ m.tag = Tag.info ∨ m.tag = Tag.disconn
  | _ => True

/-- The condition on the steps of the visit.  Besides `DropsAlike`: the
nonblocking mode does not discard output that it keeps for a client, and the idle
clocks, which the visit restarts, do not run out. -/
def VisitCondition (p : Server × Server) : Input → Prop
  | .tick sys => DropsAlike p ∧
      (p.1.conn.sock = true → p.2.pc ≠ .exited →
        (p.1.pc = .zombie → sys.elapsed = false) ∧
        (p.1.pc = .limits → sys.idleElapsed = false) ∧
        (p.1.pc = .nonblock (Pc.readfds p.1.pc) → p.1.spawn.nonblock = true →
          p.1.buf.rawnew + p.1.buf.newcnt = sizeRawBuf → maxOldData < p.1.buf.rawnew))
  | _ => True

instance : (i : Input) → Decidable (GetInput i)
  | .tick sys => inferInstanceAs (Decidable (sys.accept = .conn ∧
      ∀ m ∈ sys.msg, m.tag = Tag.hello ∨ m.tag = Tag.info ∨ m.tag = Tag.disconn))
  | .child _ => isTrue trivial
  | .sigCHLD => isTrue trivial

instance (p : Server × Server) : (i : Input) → Decidable (VisitCondition p i)
  | .tick _ => inferInstanceAs (Decidable (_ ∧ (_ → _ → (_ → _) ∧ (_ → _) ∧ (_ → _ → _ → _))))
  | .child _ => isTrue trivial
  | .sigCHLD => isTrue trivial

/-! ## The visited server -/

/-- A request was answered, or the connection closed, over these buffers. -/
def GetReply (s : Server) (buf : Buffers) (s' : Server) : Prop :=
  ∃ sock sent bugs, s' = twin s { s.conn with sock := sock } buf sent bugs

theorem GetReply.closeSock {s s' : Server} {buf : Buffers} (h : GetReply s buf s') :
    GetReply s buf (closeSock s') := by
  obtain ⟨sock, sent, bugs, rfl⟩ := h
  exact ⟨false, sent, bugs, rfl⟩

theorem GetReply.msgOut {s s' : Server} {buf : Buffers} (h : GetReply s buf s') (sent : Bool)
    (m : Ttlv) : GetReply s buf (msgOut sent m s') := by
  unfold Source.msgOut
  split
  · obtain ⟨sock, sent, bugs, rfl⟩ := h
    exact ⟨sock, _, bugs, rfl⟩
  · exact h.closeSock

theorem GetReply.servMsgSend {s s' : Server} {buf : Buffers} (h : GetReply s buf s') (sent : Bool)
    (m : Ttlv) : GetReply s buf (servMsgSend sent m s') := by
  unfold Source.servMsgSend
  split
  · obtain ⟨sock, sent, bugs, rfl⟩ := h
    exact ⟨sock, sent, _, rfl⟩
  · exact h.msgOut sent m

/-- What a message of a `get` client, or its end, can do. -/
theorem servProcessMsg_get (host : Host) (sys : Sys) (s : Server)
    (hget : ∀ m ∈ sys.msg, m.tag = Tag.hello ∨ m.tag = Tag.info ∨ m.tag = Tag.disconn) :
    servProcessMsg host sys s = { s with pc := .aborted } ∨
      ∃ buf, (buf = s.buf ∨ bufRaw2expect s.buf = some buf) ∧
        GetReply s buf (servProcessMsg host sys s) := by
  have hself : GetReply s s.buf s := ⟨s.conn.sock, s.hist.sent, s.hist.bugs, rfl⟩
  unfold servProcessMsg
  cases hm : sys.msg with
  | none => exact .inr ⟨s.buf, .inl rfl, hself.closeSock⟩
  | some m =>
    simp only
    rcases hget m hm with htag | htag | htag
    · right
      refine ⟨s.buf, .inl rfl, ?_⟩
      unfold dispatch
      rw [if_pos htag]
      unfold servHello
      split
      · exact hself
      · simp only
        split
        · exact hself.closeSock
        · split
          · exact (hself.servMsgSend _ _).closeSock
          · exact hself.msgOut _ _
    · unfold dispatch
      rw [htag]
      cases hcopy : bufRaw2expect s.buf with
      | none =>
        left
        rfl
      | some buf =>
        right
        refine ⟨buf, .inr rfl, ?_⟩
        have hcopied : GetReply s buf { s with buf := buf } :=
          ⟨s.conn.sock, s.hist.sent, s.hist.bugs, rfl⟩
        exact hcopied.servMsgSend _ _
    · right
      refine ⟨s.buf, .inl rfl, ?_⟩
      unfold dispatch
      rw [htag]
      unfold servDisconn
      change GetReply s s.buf (if ¬ s.conn.sock then s else closeSock (msgOut sys.sent msgDisconn s))
      split
      · exact hself
      · exact (hself.msgOut _ _).closeSock

/-- The visited server is never passing output, and has not waited for its child
while there is a client. -/
structure Guest (a : Server) : Prop where
  calm : a.pc ≠ .copy ∧ a.pc ≠ .expect ∧ a.pc ≠ .ending
  passing : a.conn.sock = true → a.conn.passing = false
  waited : a.waited = true → a.conn.sock = false ∧ (a.pc = .head ∨ a.pc = .exited)

/-- What a visit leaves as it is. -/
structure Kept (a a' : Server) : Prop where
  spawn : a'.spawn = a.spawn
  expout : a'.expout = a.expout
  ptm : a.ptmOpen = false → a'.ptmOpen = false
  dead : a.sigChlded = true → a'.sigChlded = true

theorem servReadPtm_kept (rs : List PtmRead) (s : Server) :
    ∃ ptmOpen buf stream, (s.ptmOpen = false → ptmOpen = false) ∧
      servReadPtm rs s =
        { s with ptmOpen := ptmOpen, buf := buf, hist := { s.hist with stream := stream } } := by
  induction rs with
  | nil => exact ⟨s.ptmOpen, s.buf, s.hist.stream, id, rfl⟩
  | cons r rs ih =>
    simp only [servReadPtm]
    split
    · exact ⟨s.ptmOpen, s.buf, s.hist.stream, id, rfl⟩
    · cases r with
      | data bs =>
        simp only
        split
        · exact ⟨false, s.buf, s.hist.stream, fun _ => rfl, rfl⟩
        · exact ⟨s.ptmOpen, _, _, id, rfl⟩
      | eintr => exact ih
      | eagain => exact ⟨s.ptmOpen, s.buf, s.hist.stream, id, rfl⟩
      | eof => exact ⟨false, s.buf, s.hist.stream, fun _ => rfl, rfl⟩
      | error => exact ⟨false, s.buf, s.hist.stream, fun _ => rfl, rfl⟩

theorem Guest.unwaited {a : Server} (h : Guest a) (h1 : a.pc ≠ .head) (h2 : a.pc ≠ .exited) :
    a.waited = false := by
  cases hw : a.waited with
  | false => rfl
  | true =>
    rcases (h.waited hw).2 with hpc | hpc
    · exact absurd hpc h1
    · exact absurd hpc h2

/-- A step from a child not waited for: control moves on, outside `serv_pass`. -/
theorem Guest.moved {a a' : Server} (h : Guest a) (h1 : a.pc ≠ .head) (h2 : a.pc ≠ .exited)
    (hpc : a'.pc ≠ .copy ∧ a'.pc ≠ .expect ∧ a'.pc ≠ .ending)
    (hpass : a'.conn.sock = true → a'.conn.passing = false) (hw : a'.waited = a.waited) :
    Guest a' := by
  refine ⟨hpc, hpass, fun hw' => ?_⟩
  rw [hw, h.unwaited h1 h2] at hw'
  cases hw'

theorem Guest.goto {a : Server} (h : Guest a) (h1 : a.pc ≠ .head) (h2 : a.pc ≠ .exited) (pc : Pc)
    (hpc : pc ≠ .copy ∧ pc ≠ .expect ∧ pc ≠ .ending) :
    Guest { a with pc := pc } ∧ Kept a { a with pc := pc } :=
  ⟨h.moved h1 h2 hpc h.passing rfl, rfl, rfl, id, id⟩

/-- At its head the loop ends once the child has been waited for; the client is
gone by then. -/
theorem Guest.loopHead {a : Server} (h : Guest a) :
    Guest (loopHead a) ∧ Kept a (loopHead a) := by
  unfold Source.loopHead
  split
  · exact ⟨⟨by simp, h.passing, fun hw => ⟨(h.waited hw).1, .inr rfl⟩⟩, rfl, rfl, id, id⟩
  · rename_i hstay
    have hw : a.waited = false := by
      cases hw : a.waited with
      | false => rfl
      | true => exact absurd ⟨hw, by simp [(h.waited hw).1]⟩ hstay
    have hguest : ∀ ptm n, Guest { a with pc := .nowait, ptmOpen := ptm, cloexitCount := n } := by
      intro ptm n
      refine ⟨by simp, h.passing, fun hw' => ?_⟩
      simp only [hw, Bool.false_eq_true] at hw'
    split
    · rename_i hclo
      refine ⟨hguest _ _, rfl, rfl, fun hptm => ?_, id⟩
      rw [hptm] at hclo
      cases hclo.2.2
    · exact ⟨hguest _ _, rfl, rfl, id, id⟩

/-- The client of a `get` is answered, and the server is not set to pass output. -/
theorem Guest.loopRecv {a : Server} (h : Guest a) (h1 : a.pc ≠ .head) (h2 : a.pc ≠ .exited)
    (host : Host) (sys : Sys) (hget : GetInput (.tick sys)) (fds : ReadFds) :
    Guest (loopRecv host sys fds a) ∧ Kept a (loopRecv host sys fds a) := by
  simp only [Source.loopRecv]
  split
  · rename_i hs
    rcases servProcessMsg_get host sys { a with pc := .pass } hget.2 with hab | ⟨buf, -, hans⟩
    · rw [hab]
      exact h.goto h1 h2 _ (by simp)
    · obtain ⟨sock, sent, bugs, heq⟩ := hans
      rw [heq]
      refine ⟨h.moved h1 h2 (by simp [twin]) ?_ rfl, rfl, rfl, id, id⟩
      intro _
      exact h.passing hs.1
  · exact h.goto h1 h2 _ (by simp)

theorem Guest.tick {a : Server} (h : Guest a) (host : Host) (sys : Sys) (hget : GetInput (.tick sys)) :
    Guest (tick host sys a) ∧ Kept a (tick host sys a) := by
  obtain ⟨hc1, hc2, hc3⟩ := h.calm
  cases hp : a.pc with
  | waitPts | setNonblock | installHandler | nowait | zombie | limits | select =>
    obtain ⟨pc, handler, ptmOpen, count, htick, hnext, hsame, -⟩ :=
      tick_deciding host sys a (by rw [hp]; rfl)
    obtain ⟨rfl, rfl⟩ := hsame (by simp [hp])
    have hpc : pc ≠ .copy ∧ pc ≠ .expect ∧ pc ≠ .ending := by
      refine ⟨?_, ?_, ?_⟩ <;> rintro rfl <;> simp [early] at hnext
    rw [htick]
    exact ⟨h.moved (by simp [hp]) (by simp [hp]) hpc h.passing rfl, rfl, rfl, id, id⟩
  | head =>
    simp only [Source.tick, hp]
    exact h.loopHead
  | accept fds =>
    simp only [Source.tick, hp, loopAccept, hget.1]
    split
    · split <;>
        exact ⟨h.moved (by simp [hp]) (by simp [hp]) (by simp) (fun _ => rfl) rfl, rfl, rfl, id, id⟩
    · exact h.goto (by simp [hp]) (by simp [hp]) _ (by simp)
  | readPtm fds =>
    simp only [Source.tick, hp, loopReadPtm]
    split
    · obtain ⟨ptmOpen, buf, stream, hptm, hread⟩ := servReadPtm_kept sys.ptm a
      rw [hread]
      exact ⟨h.moved (by simp [hp]) (by simp [hp]) (by simp) h.passing rfl, rfl, rfl, hptm, id⟩
    · exact h.goto (by simp [hp]) (by simp [hp]) _ (by simp)
  | nonblock fds =>
    simp only [Source.tick, hp, loopNonblock]
    split
    · exact ⟨h.moved (by simp [hp]) (by simp [hp]) (by simp) h.passing rfl, rfl, rfl, id, id⟩
    · exact h.goto (by simp [hp]) (by simp [hp]) _ (by simp)
  | recv fds =>
    simp only [Source.tick, hp]
    exact h.loopRecv (by simp [hp]) (by simp [hp]) host sys hget fds
  | pass =>
    simp only [Source.tick, hp, servPassOutput_unserved sys h.passing]
    exact h.goto (by simp [hp]) (by simp [hp]) _ (by simp)
  | copy => exact absurd hp hc1
  | expect => exact absurd hp hc2
  | ending => exact absurd hp hc3
  | drop =>
    simp only [Source.tick, hp]
    exact ⟨h.moved (by simp [hp]) (by simp [hp]) (by simp) h.passing rfl, rfl, rfl, id, id⟩
  | exited | aborted | crashed =>
    simp only [Source.tick, hp]
    exact ⟨h, rfl, rfl, id, id⟩

theorem Guest.step {a : Server} (h : Guest a) (host : Host) (i : Input) (hget : GetInput i) :
    Guest (servStep host i a) ∧ Kept a (servStep host i a) := by
  cases i with
  | tick sys => exact h.tick host sys hget
  | child e =>
    obtain ⟨child, pending, hs⟩ := childChange_frame e a
    simp only [servStep, hs]
    exact ⟨⟨h.calm, h.passing, h.waited⟩, rfl, rfl, id, id⟩
  | sigCHLD =>
    simp only [servStep, servSigCHLD]
    split
    · exact ⟨⟨h.calm, h.passing, h.waited⟩, rfl, rfl, id, fun _ => rfl⟩
    · exact ⟨h, rfl, rfl, id, id⟩

/-! ## The two servers during the visit -/

/-- The point of control of the server that does not see the client. -/
def Pc.blind : Pc → Pc
  | .accept fds => .accept { ptm := fds.ptm }
  | .readPtm fds => .readPtm { ptm := fds.ptm }
  | .nonblock fds => .nonblock { ptm := fds.ptm }
  | .recv fds => .recv { ptm := fds.ptm }
  | pc => pc

/-- The second server is where the first would be without its client. -/
structure Beside (a b : Server) : Prop where
  same : b = { twin a b.conn b.buf b.hist.sent b.hist.bugs with pc := Pc.blind a.pc }
  alone : b.conn.sock = false
  raw : SameRaw a.buf b.buf
  text : pending a.hist.stream b.buf = pending a.hist.stream a.buf

/-- The first server will leave its loop as soon as the client is gone, the second
has done so. -/
structure Leaving (a b : Server) : Prop where
  gone : b.pc = .exited
  expout : b.expout = a.expout
  reason : (a.spawn.autowait = true ∧ a.sigChlded = true ∧ a.ptmOpen = false) ∨ 0 < a.spawn.ttl

/-- A step that leaves the buffers and the stream alone. -/
theorem Beside.idle {a b a' b' : Server} (h : Beside a b)
    (hb : b' = { twin a' b.conn b.buf b.hist.sent b.hist.bugs with pc := Pc.blind a'.pc })
    (hbuf : a'.buf = a.buf) (hh : a'.hist.stream = a.hist.stream) : Beside a' b' := by
  subst hb
  constructor
  · rfl
  · exact h.alone
  · simp only [twin, hbuf]
    exact h.raw
  · simp only [twin, hbuf, hh]
    exact h.text

theorem Beside.exists_twin {a b : Server} (h : Beside a b) :
    ∃ conn buf sent bugs, b = { twin a conn buf sent bugs with pc := Pc.blind a.pc } :=
  ⟨_, _, _, _, h.same⟩

theorem Beside.stream {a b : Server} (h : Beside a b) : b.hist.stream = a.hist.stream := by
  rw [h.same]
  rfl

/-- The first server with the connection of the second is a twin of it. -/
theorem Beside.alike {a b : Server} (h : Beside a b) :
    Alike a.hist.sent b.hist.sent { a with conn := b.conn, pc := Pc.blind a.pc } b :=
  ⟨h.same, .inl rfl, ⟨[], by simp, by simp⟩, h.raw, h.text⟩

theorem Alike.beside {pa pb : List Ttlv} {a b : Server} (conn : Conn)
    (h : Alike pa pb { a with conn := conn, pc := Pc.blind a.pc } b) (hs : b.conn.sock = false) :
    Beside a b := ⟨h.same, hs, h.raw, h.text⟩

theorem servReadPtm_apart (rs : List PtmRead) (s : Server) (conn : Conn) (pc : Pc) :
    servReadPtm rs { s with conn := conn, pc := pc } =
      { servReadPtm rs s with conn := conn, pc := pc } := by
  induction rs with
  | nil => rfl
  | cons r rs ih =>
    simp only [servReadPtm]
    split
    · rfl
    · cases r with
      | data bs =>
        simp only
        split <;> rfl
      | eintr => exact ih
      | eagain => rfl
      | eof => rfl
      | error => rfl

/-- The four tests at the head of the loop. -/
theorem Beside.waiting {a b : Server} (h : Beside a b) (hg : Guest a) (host : Host) (sys : Sys)
    (hok : VisitCondition (a, b) (.tick sys))
    (hpc : a.pc = .head ∨ a.pc = .nowait ∨ a.pc = .zombie ∨ a.pc = .limits) :
    Beside (tick host sys a) (tick host sys b) ∨ Leaving (tick host sys a) (tick host sys b) := by
  obtain ⟨-, hcond⟩ := hok
  have hsock := h.alone
  obtain ⟨conn, buf, sent, bugs, rfl⟩ := h.exists_twin
  simp only [twin] at hsock
  have hblind : Pc.blind a.pc = a.pc := by
    rcases hpc with hp | hp | hp | hp <;> rw [hp] <;> rfl
  have hrun : Pc.blind a.pc ≠ .exited := by
    rcases hpc with hp | hp | hp | hp <;> rw [hp] <;> simp [Pc.blind]
  unfold tick
  simp only [twin, hblind]
  cases hs : a.conn.sock with
  | false =>
    left
    rcases hpc with hp | hp | hp | hp <;> simp only [hp]
    · unfold loopHead
      simp only [hsock, hs]
      split
      · exact h.idle rfl rfl rfl
      · split <;> exact h.idle rfl rfl rfl
    · unfold loopNowait
      simp only [hsock, hs]
      split <;> exact h.idle rfl rfl rfl
    · unfold loopZombie
      simp only [hsock, hs]
      split <;> exact h.idle rfl rfl rfl
    · unfold loopLimits
      simp only [hsock, hs]
      split
      · exact h.idle rfl rfl rfl
      · split <;> exact h.idle rfl rfl rfl
  | true =>
    obtain ⟨hzombie, hidle, -⟩ := hcond hs hrun
    have hw : a.waited = false := by
      cases hw : a.waited with
      | false => rfl
      | true =>
        have hno := (hg.waited hw).1
        rw [hs] at hno
        cases hno
    rcases hpc with hp | hp | hp | hp <;> simp only [hp]
    · left
      unfold loopHead
      simp only [hw, Bool.false_eq_true, false_and, if_false]
      split <;> exact h.idle rfl rfl rfl
    · unfold loopNowait
      simp only [hsock, hs, Bool.false_eq_true, not_false_eq_true, not_true_eq_false, and_false, and_true,
        if_false]
      split
      · rename_i hauto
        right
        exact ⟨rfl, rfl, .inl ⟨hauto.1, hauto.2.1, by simpa using hauto.2.2⟩⟩
      · left
        exact h.idle rfl rfl rfl
    · left
      unfold loopZombie
      simp only [hzombie hp, Bool.false_eq_true, and_false, if_false]
      exact h.idle rfl rfl rfl
    · unfold loopLimits
      simp only [hsock, hs, hidle hp, Bool.false_eq_true, not_false_eq_true, not_true_eq_false, and_false,
        false_and, true_and, if_false]
      split
      · rename_i httl
        right
        exact ⟨rfl, rfl, .inr httl.1⟩
      · left
        exact h.idle rfl rfl rfl

/-- Buffers with the same raw side and text, and control one label further. -/
theorem Beside.rebuffered {a b : Server} (h : Beside a b) (pc : Pc) (ba bb : Buffers)
    (hraw : SameRaw ba bb) (htext : pending a.hist.stream bb = pending a.hist.stream ba) :
    Beside { a with buf := ba, pc := pc } { b with buf := bb, pc := Pc.blind pc } := by
  obtain ⟨conn, buf, sent, bugs, rfl⟩ := h.exists_twin
  exact ⟨rfl, h.alone, hraw, htext⟩

theorem Beside.goto {a b : Server} (h : Beside a b) (pc : Pc) :
    Beside { a with pc := pc } { b with pc := Pc.blind pc } :=
  h.rebuffered pc a.buf b.buf h.raw h.text

theorem Beside.loopReadPtm {a b : Server} (h : Beside a b) (ha : RawWindow a.hist.stream a.buf)
    (hb : RawWindow b.hist.stream b.buf) (sys : Sys) (fds : ReadFds) :
    Beside (loopReadPtm sys fds a) (loopReadPtm sys { ptm := fds.ptm } b) := by
  have hptm : b.ptmOpen = a.ptmOpen := by
    rw [h.same]
    rfl
  have hread : Beside (servReadPtm sys.ptm a) (servReadPtm sys.ptm b) := by
    have hr := h.alike.servReadPtm ha hb sys.ptm
    rw [servReadPtm_apart] at hr
    obtain ⟨ptmOpen, buf, stream, -, heq⟩ := servReadPtm_kept sys.ptm a
    obtain ⟨ptmOpen', buf', stream', -, heq'⟩ := servReadPtm_kept sys.ptm b
    rw [heq] at hr ⊢
    refine Alike.beside b.conn hr ?_
    rw [heq']
    exact h.alone
  unfold Source.loopReadPtm
  simp only [hptm]
  split
  · exact hread.goto (.nonblock fds)
  · exact h.goto (.nonblock fds)

theorem Beside.loopRecv {a b : Server} (h : Beside a b) {ma : Nat} (ha : Windows a ma) (host : Host)
    (sys : Sys) (fds : ReadFds)
    (hget : ∀ m ∈ sys.msg, m.tag = Tag.hello ∨ m.tag = Tag.info ∨ m.tag = Tag.disconn) :
    (loopRecv host sys fds a).pc = .aborted ∨
      Beside (loopRecv host sys fds a) (loopRecv host (Sys.hide sys) { ptm := fds.ptm } b) := by
  have hgo := h.goto .pass
  have hb : Source.loopRecv host (Sys.hide sys) { ptm := fds.ptm } b =
      { b with pc := .pass } := by
    unfold Source.loopRecv
    simp only [Bool.false_eq_true, and_false, if_false]
  rw [hb]
  unfold Source.loopRecv
  simp only
  split
  · rcases servProcessMsg_get host sys { a with pc := .pass } hget with hab | ⟨buf, hbuf, hans⟩
    · left
      rw [hab]
    · right
      obtain ⟨sock, sent, bugs, heq⟩ := hans
      rw [heq]
      have hmoved : SameRaw a.buf buf ∧ pending a.hist.stream buf = pending a.hist.stream a.buf := by
        rcases hbuf with rfl | hcopy
        · exact ⟨⟨rfl, rfl, rfl, rfl, rfl⟩, rfl⟩
        · exact ⟨(bufRaw2expect_spec ha.raw hcopy).1, pending_bufRaw2expect ha.raw ha.exp hcopy⟩
      obtain ⟨conn, buf', sent', bugs', rfl⟩ := h.exists_twin
      exact ⟨rfl, h.alone, hmoved.1.symm.trans h.raw, h.text.trans hmoved.2.symm⟩
  · exact .inr hgo

theorem Beside.loopSelect {a b : Server} (h : Beside a b) (sys : Sys) :
    Beside (loopSelect sys a) (loopSelect (Sys.hide sys) b) := by
  have hsock := h.alone
  have hnew := h.raw.rawnew
  have hcnt := h.raw.newcnt
  obtain ⟨conn, buf, sent, bugs, rfl⟩ := h.exists_twin
  simp only [twin] at hsock hnew hcnt
  unfold Source.loopSelect
  cases hsel : sys.select with
  | eintr =>
    simp only [Sys.hide, SelectResult.hide, hsel]
    exact h.idle rfl rfl rfl
  | error =>
    simp only [Sys.hide, SelectResult.hide, hsel]
    exact h.idle rfl rfl rfl
  | ready fds =>
    simp only [Sys.hide, SelectResult.hide, hsel, twin, hsock, hnew, hcnt]
    exact h.idle rfl rfl rfl

theorem Beside.loopNonblock {a b : Server} (h : Beside a b) (fds : ReadFds)
    (hkeep : a.conn.sock = true → a.spawn.nonblock = true →
      a.buf.rawnew + a.buf.newcnt = sizeRawBuf → maxOldData < a.buf.rawnew) :
    Beside (loopNonblock fds a) (loopNonblock { ptm := fds.ptm } b) := by
  have hsock := h.alone
  have hnew := h.raw.rawnew
  have hcnt := h.raw.newcnt
  have hspawn : b.spawn = a.spawn := by
    rw [h.same]
    rfl
  have hgo := h.goto (.recv fds)
  have hold := h.rebuffered (.recv fds) _ _ h.raw.markOld
    (by rw [pending_markOld, pending_markOld, h.text])
  by_cases hfull : a.spawn.nonblock = true ∧ a.buf.rawnew + a.buf.newcnt = sizeRawBuf ∧
      a.buf.rawnew ≤ maxOldData
  · have hs : a.conn.sock = false := by
      cases hs : a.conn.sock with
      | false => rfl
      | true =>
        have hlt := hkeep hs hfull.1 hfull.2.1
        omega
    unfold Source.loopNonblock
    rw [if_pos ⟨hfull.1, by simp [hs], hfull.2⟩,
      if_pos ⟨by rw [hspawn]; exact hfull.1, by simp [hsock], by rw [hnew, hcnt]; exact hfull.2⟩]
    exact hold
  · unfold Source.loopNonblock
    rw [if_neg (fun hc => hfull ⟨hc.1, hc.2.2⟩), if_neg]
    · exact hgo
    · intro hc
      rw [hspawn, hnew, hcnt] at hc
      exact hfull ⟨hc.1, hc.2.2⟩

/-- One label further in both servers, behind `select`. -/
theorem Beside.iteration {a b : Server} (h : Beside a b) (hg : Guest a) {ma mb : Nat}
    (ha : Windows a ma) (hb : Windows b mb) (host : Host) (sys : Sys) (hget : GetInput (.tick sys))
    (hok : VisitCondition (a, b) (.tick sys))
    (hpc : a.pc ≠ .head ∧ a.pc ≠ .nowait ∧ a.pc ≠ .zombie ∧ a.pc ≠ .limits) :
    (tick host sys a).pc = .aborted ∨ Beside (tick host sys a) (tick host (Sys.hide sys) b) := by
  obtain ⟨h1, h2, h3, h4⟩ := hpc
  obtain ⟨hc1, hc2, hc3⟩ := hg.calm
  obtain ⟨hdrop, hcond⟩ := hok
  obtain ⟨haccept, hmsg⟩ := hget
  have hbpc : b.pc = Pc.blind a.pc := by rw [h.same]
  cases hp : a.pc with
  | waitPts =>
    right
    cases hk : sys.ok <;> simp only [tick, hbpc, hp, Pc.blind, Sys.hide, hk] <;> exact h.goto _
  | setNonblock =>
    right
    cases hk : sys.ok <;> simp only [tick, hbpc, hp, Pc.blind, Sys.hide, hk] <;> exact h.goto _
  | installHandler =>
    right
    simp only [tick, hbpc, hp, Pc.blind]
    obtain ⟨conn, buf, sent, bugs, rfl⟩ := h.exists_twin
    exact h.idle rfl rfl rfl
  | head => exact absurd hp h1
  | nowait => exact absurd hp h2
  | zombie => exact absurd hp h3
  | limits => exact absurd hp h4
  | select =>
    right
    simp only [tick, hbpc, hp, Pc.blind]
    exact h.loopSelect sys
  | accept fds =>
    right
    simp only [tick, hbpc, hp, Pc.blind, loopAccept, haccept, Bool.false_eq_true, if_false]
    obtain ⟨conn, buf, sent, bugs, rfl⟩ := h.exists_twin
    split
    · split <;> exact h.idle rfl rfl rfl
    · exact h.idle rfl rfl rfl
  | readPtm fds =>
    right
    simp only [tick, hbpc, hp, Pc.blind]
    exact h.loopReadPtm ha.raw hb.raw sys fds
  | nonblock fds =>
    right
    simp only [tick, hbpc, hp, Pc.blind]
    apply h.loopNonblock fds
    intro hs
    have hrun : b.pc ≠ .exited := by simp [hbpc, hp, Pc.blind]
    exact (hcond hs hrun).2.2 (by simp [hp, Pc.readfds])
  | recv fds =>
    simp only [tick, hbpc, hp, Pc.blind]
    exact h.loopRecv ha host sys fds hmsg
  | pass =>
    right
    simp only [tick, hbpc, hp, Pc.blind]
    rw [servPassOutput_unserved sys hg.passing,
      servPassOutput_unserved (Sys.hide sys) (by simp [h.alone])]
    exact h.goto .drop
  | copy => exact absurd hp hc1
  | expect => exact absurd hp hc2
  | ending => exact absurd hp hc3
  | drop =>
    right
    simp only [tick, hbpc, hp, Pc.blind]
    apply h.rebuffered .head _ _ h.raw.dropOldData
    apply pending_drop_eq ha hb h.stream
    exact hdrop hp (by simp [hbpc, hp, Pc.blind])
  | exited =>
    right
    simp only [tick, hbpc, hp, Pc.blind]
    exact h
  | aborted =>
    right
    simp only [tick, hbpc, hp, Pc.blind]
    exact h
  | crashed =>
    right
    simp only [tick, hbpc, hp, Pc.blind]
    exact h

theorem Beside.step {a b : Server} (h : Beside a b) (hg : Guest a) {ma mb : Nat} (ha : Windows a ma)
    (hb : Windows b mb) (host : Host) (i : Input) (hget : GetInput i)
    (hok : VisitCondition (a, b) i) :
    (servStep host i a).pc = .aborted ∨ Beside (servStep host i a) (servStep host (hideClient i) b) ∨
      Leaving (servStep host i a) (servStep host (hideClient i) b) := by
  cases i with
  | tick sys =>
    by_cases hpc : a.pc = .head ∨ a.pc = .nowait ∨ a.pc = .zombie ∨ a.pc = .limits
    · have hhide : tick host (Sys.hide sys) b = tick host sys b := by
        have hbpc : b.pc = Pc.blind a.pc := by rw [h.same]
        unfold tick
        rcases hpc with hp | hp | hp | hp <;> simp only [hbpc, hp, Pc.blind] <;> rfl
      right
      simp only [servStep, hideClient, hhide]
      exact h.waiting hg host sys hok hpc
    · simp only [not_or] at hpc
      rcases h.iteration hg ha hb host sys hget hok hpc with hab | hbeside
      · exact .inl hab
      · exact .inr (.inl hbeside)
  | child e =>
    right
    left
    obtain ⟨conn, buf, sent, bugs, rfl⟩ := h.exists_twin
    simp only [servStep, hideClient, childChange, twin]
    split
    · exact h
    · exact h.idle rfl rfl rfl
  | sigCHLD =>
    right
    left
    have hpending : b.pending = a.pending := by
      rw [h.same]
      rfl
    have hsame : ∀ s : Server, s.pending = false → servSigCHLD s = s := by
      intro s hs
      unfold servSigCHLD
      rw [hs]
      rfl
    cases hp : a.pending with
    | true =>
      obtain ⟨conn, buf, sent, bugs, rfl⟩ := h.exists_twin
      simp only [servStep, hideClient, servSigCHLD, twin, hp, if_true]
      exact h.idle rfl rfl rfl
    | false =>
      simp only [servStep, hideClient]
      rw [hsame a hp, hsame b (hpending.trans hp)]
      exact h

/-- A server that has left its loop does nothing more. -/
theorem servStep_exited (host : Host) (i : Input) (s : Server) (h : s.pc = .exited) :
    (servStep host i s).pc = .exited ∧ (servStep host i s).expout = s.expout ∧
      (servStep host i s).hist = s.hist := by
  cases i with
  | tick sys =>
    have hs : servStep host (.tick sys) s = s := by simp only [servStep, tick, h]
    rw [hs]
    exact ⟨h, rfl, rfl⟩
  | child e =>
    obtain ⟨child, pending, hs⟩ := childChange_frame e s
    rw [servStep, hs]
    exact ⟨h, rfl, rfl⟩
  | sigCHLD =>
    obtain ⟨pending, flag, hs⟩ := servSigCHLD_frame s
    rw [servStep, hs]
    exact ⟨h, rfl, rfl⟩

theorem Leaving.step {a b a' : Server} (h : Leaving a b) (hkept : Kept a a') (host : Host)
    (i : Input) : Leaving a' (servStep host i b) := by
  obtain ⟨hgone, hexpout, -⟩ := servStep_exited host i b h.gone
  refine ⟨hgone, ?_, ?_⟩
  · rw [hexpout, h.expout, hkept.expout]
  · rw [hkept.spawn]
    rcases h.reason with ⟨hauto, hdead, hptm⟩ | httl
    · exact .inl ⟨hauto, hkept.dead hdead, hkept.ptm hptm⟩
    · exact .inr httl

/-- The two servers during a visit. -/
structure Visiting (a b : Server) : Prop where
  guest : Guest a
  first : ∃ mark, Windows a mark
  second : ∃ mark, Windows b mark
  state : a.pc = .aborted ∨ Beside a b ∨ Leaving a b

theorem Visiting.step {a b : Server} (h : Visiting a b) (host : Host) (i : Input)
    (hget : GetInput i) (hok : VisitCondition (a, b) i) :
    Visiting (servStep host i a) (servStep host (hideClient i) b) := by
  obtain ⟨ma, ha⟩ := h.first
  obtain ⟨mb, hb⟩ := h.second
  obtain ⟨hguest, hkept⟩ := h.guest.step host i hget
  refine ⟨hguest, ⟨_, ha.step host i⟩, ⟨_, hb.step host (hideClient i)⟩, ?_⟩
  rcases h.state with hab | hbeside | hleaving
  · left
    cases i with
    | tick sys =>
      simp only [servStep, tick, hab]
    | child e =>
      obtain ⟨child, pending, hs⟩ := childChange_frame e a
      simp only [servStep, hs]
      exact hab
    | sigCHLD =>
      obtain ⟨pending, flag, hs⟩ := servSigCHLD_frame a
      simp only [servStep, hs]
      exact hab
  · exact hbeside.step h.guest ha hb host i hget hok
  · exact .inr (.inr (hleaving.step hkept host (hideClient i)))

/-! ## After the visit -/

/-- Control is before the test that ends the loop. -/
def Leaves (a : Server) : Prop :=
  a.pc = .exited ∨
    ((a.pc = .head ∨ a.pc = .nowait) ∧
      a.spawn.autowait = true ∧ a.sigChlded = true ∧ a.ptmOpen = false) ∨
    ((a.pc = .head ∨ a.pc = .nowait ∨ a.pc = .zombie ∨ a.pc = .limits) ∧ 0 < a.spawn.ttl)

theorem Leaves.tick {a : Server} (h : Leaves a) (hs : a.conn.sock = false) (host : Host) (sys : Sys)
    (hclock : a.pc = .limits → sys.elapsed = true) :
    Leaves (tick host sys a) ∧ (tick host sys a).expout = a.expout ∧
      (tick host sys a).hist = a.hist ∧ (tick host sys a).conn = a.conn := by
  rcases h with hp | ⟨hp, hauto, hdead, hptm⟩ | ⟨hp, httl⟩
  · obtain ⟨hpc, hexp, hh⟩ := servStep_exited host (.tick sys) a hp
    refine ⟨.inl hpc, hexp, hh, ?_⟩
    simp only [Source.tick, hp]
  · rcases hp with hp | hp <;> simp only [Source.tick, hp]
    · unfold loopHead
      split
      · exact ⟨.inl rfl, rfl, rfl, rfl⟩
      · split
        · rename_i hclo
          rw [hptm] at hclo
          cases hclo.2.2
        · exact ⟨.inr (.inl ⟨.inr rfl, hauto, hdead, hptm⟩), rfl, rfl, rfl⟩
    · unfold loopNowait
      rw [if_pos ⟨hauto, hdead, by simp [hptm], by simp [hs]⟩]
      exact ⟨.inl rfl, rfl, rfl, rfl⟩
  · rcases hp with hp | hp | hp | hp <;> simp only [Source.tick, hp]
    · unfold loopHead
      split
      · exact ⟨.inl rfl, rfl, rfl, rfl⟩
      · split <;> exact ⟨.inr (.inr ⟨.inr (.inl rfl), httl⟩), rfl, rfl, rfl⟩
    · unfold loopNowait
      split
      · exact ⟨.inl rfl, rfl, rfl, rfl⟩
      · exact ⟨.inr (.inr ⟨.inr (.inr (.inl rfl)), httl⟩), rfl, rfl, rfl⟩
    · unfold loopZombie
      split
      · exact ⟨.inl rfl, rfl, rfl, rfl⟩
      · exact ⟨.inr (.inr ⟨.inr (.inr (.inr rfl)), httl⟩), rfl, rfl, rfl⟩
    · unfold loopLimits
      rw [if_pos ⟨httl, by simp [hs], hclock hp⟩]
      exact ⟨.inl rfl, rfl, rfl, rfl⟩

theorem Leaves.step {a : Server} (h : Leaves a) (hs : a.conn.sock = false) (host : Host) (i : Input)
    (hclock : ∀ sys, i = .tick sys → a.pc = .limits → sys.elapsed = true) :
    Leaves (servStep host i a) ∧ (servStep host i a).expout = a.expout ∧
      (servStep host i a).hist = a.hist ∧ (servStep host i a).conn = a.conn := by
  cases i with
  | tick sys => exact h.tick hs host sys (hclock sys rfl)
  | child e =>
    obtain ⟨child, pending, heq⟩ := childChange_frame e a
    rw [servStep, heq]
    exact ⟨h, rfl, rfl, rfl⟩
  | sigCHLD =>
    simp only [servStep, servSigCHLD]
    split
    · refine ⟨?_, rfl, rfl, rfl⟩
      rcases h with hp | ⟨hp, hauto, -, hptm⟩ | hp
      · exact .inl hp
      · exact .inr (.inl ⟨hp, hauto, rfl, hptm⟩)
      · exact .inr (.inr hp)
    · exact ⟨h, rfl, rfl, rfl⟩

/-- The first server follows the second out of the loop without another client. -/
structure Gone (pa pb : List Ttlv) (a b : Server) : Prop where
  gone : b.pc = .exited
  expout : b.expout = a.expout
  sent : a.hist.sent = pa ∧ b.hist.sent = pb
  sock : a.conn.sock = false
  leaves : Leaves a

theorem Gone.step {pa pb : List Ttlv} {a b : Server} (h : Gone pa pb a b) (host : Host) (i : Input)
    (hok : RestCondition (a, b) i) : Gone pa pb (servStep host i a) (servStep host i b) := by
  obtain ⟨hgone, hexpout, hhist⟩ := servStep_exited host i b h.gone
  have hclock : ∀ sys, i = .tick sys → a.pc = .limits → sys.elapsed = true := by
    rintro sys rfl hpc
    exact hok.2.2 h.gone hpc
  obtain ⟨hleaves, hexpout', hhist', hconn⟩ := h.leaves.step h.sock host i hclock
  refine ⟨hgone, ?_, ?_, ?_, hleaves⟩
  · rw [hexpout, hexpout', h.expout]
  · rw [hhist, hhist']
    exact h.sent
  · rw [hconn]
    exact h.sock

/-- The two servers after the visit. -/
def Settled (pa pb : List Ttlv) (p : Server × Server) : Prop :=
  (Alike pa pb p.1 p.2 ∧ (∃ mark, Windows p.1 mark) ∧ ∃ mark, Windows p.2 mark) ∨
    Gone pa pb p.1 p.2

theorem Settled.step {pa pb : List Ttlv} {p : Server × Server} (h : Settled pa pb p) (host : Host)
    (i : Input) (hok : RestCondition p i) : Settled pa pb (bothStep host i p) := by
  rcases h with ⟨halike, ⟨ma, ha⟩, mb, hb⟩ | hgone
  · exact .inl ⟨halike.step ha hb host i hok, ⟨_, ha.step host i⟩, _, hb.step host i⟩
  · exact .inr (hgone.step host i hok)

/-- What a visit leaves behind once its client is gone and control is back at the
head of the loop. -/
theorem Visiting.settled {a b : Server} (h : Visiting a b) (hpc : a.pc = .head)
    (hs : a.conn.sock = false) : Settled a.hist.sent b.hist.sent (a, b) := by
  rcases h.state with hab | hbeside | hleaving
  · rw [hpc] at hab
    cases hab
  · left
    refine ⟨⟨?_, .inr ⟨hs, hbeside.alone⟩, ⟨[], by simp, by simp⟩, hbeside.raw, hbeside.text⟩,
      h.first, h.second⟩
    have hsame := hbeside.same
    rw [hpc] at hsame
    rw [hsame]
    simp only [twin, hpc, Pc.blind]
  · right
    refine ⟨hleaving.gone, hleaving.expout, ⟨rfl, rfl⟩, hs, ?_⟩
    rcases hleaving.reason with hauto | httl
    · exact .inr (.inl ⟨.inl hpc, hauto⟩)
    · exact .inr (.inr ⟨.inl hpc, httl⟩)

end Sexpect.Guarantees
