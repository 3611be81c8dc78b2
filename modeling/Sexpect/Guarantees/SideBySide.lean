import Sexpect.Guarantees.ExpectAssertion
import Sexpect.Guarantees.Pending
import Sexpect.Guarantees.ServerTalk

/-!
# Two servers with one pending text

Two servers that differ only in where their pending text is stored, and in what
they sent before, are given the same inputs.  They stay so, and send the same
messages, as long as dropping old data leaves equally much of the text in both
and the assertion of `buf_raw2expect` has one outcome.
-/
namespace Sexpect.Guarantees
open Sexpect.Lib Sexpect.Source

/-- Dropping old data leaves equally much pending text in both servers. -/
def DropsAlike (p : Server × Server) : Prop :=
  p.1.pc = .drop → p.2.pc = .drop →
    survivors p.1.hist.stream p.1.buf = survivors p.2.hist.stream p.2.buf

/-- `buf_raw2expect` is called in this step. -/
def Copies (sys : Sys) (s : Server) : Prop :=
  (s.pc = .copy ∧ s.conn.pattern.isSome = true) ∨
    (s.pc = .recv (Pc.readfds s.pc) ∧ s.conn.sock = true ∧ (Pc.readfds s.pc).sock = true ∧
      sys.msg.any (fun m => m.tag = Tag.info) = true)

/-- The condition on the steps after the visit: `DropsAlike`, the assertion of
`buf_raw2expect` has one outcome in both servers, and a lifetime that ran out
during the visit stays so. -/
def RestCondition (p : Server × Server) : Input → Prop
  | .tick sys => DropsAlike p ∧
      (Copies sys p.1 → (Fits p.1.buf ↔ Fits p.2.buf)) ∧
      (p.2.pc = .exited → p.1.pc = .limits → sys.elapsed = true)
  | _ => True

instance (p : Server × Server) : Decidable (DropsAlike p) :=
  inferInstanceAs (Decidable (_ → _ → _ = _))

instance (sys : Sys) (s : Server) : Decidable (Copies sys s) :=
  inferInstanceAs (Decidable ((_ ∧ _) ∨ (_ ∧ _ ∧ _ ∧ _)))

instance (p : Server × Server) : (i : Input) → Decidable (RestCondition p i)
  | .tick _ => inferInstanceAs (Decidable (_ ∧ (_ → (_ ↔ _)) ∧ (_ → _ → _)))
  | .child _ => isTrue trivial
  | .sigCHLD => isTrue trivial

/-- A server with another connection, other buffers and another past. -/
def twin (a : Server) (conn : Conn) (buf : Buffers) (sent : List Ttlv) (bugs : List ServerBug) :
    Server :=
  { a with conn := conn, buf := buf, hist := { a.hist with sent := sent, bugs := bugs } }

/-- The servers agree but for leftovers of earlier connections, what they sent
before `pa` and `pb`, and the place where the pending text is stored. -/
structure Alike (pa pb : List Ttlv) (a b : Server) : Prop where
  same : b = twin a b.conn b.buf b.hist.sent b.hist.bugs
  conn : b.conn = a.conn ∨ (a.conn.sock = false ∧ b.conn.sock = false)
  sent : ∃ tail, a.hist.sent = pa ++ tail ∧ b.hist.sent = pb ++ tail
  raw : SameRaw a.buf b.buf
  text : pending a.hist.stream b.buf = pending a.hist.stream a.buf

section

variable {pa pb : List Ttlv} {a b : Server}

theorem Alike.sock (h : Alike pa pb a b) : b.conn.sock = a.conn.sock := by
  rcases h.conn with hc | ⟨ha, hb⟩
  · rw [hc]
  · rw [ha, hb]

/-- With a client the connections agree. -/
theorem Alike.connected (h : Alike pa pb a b) (hs : a.conn.sock = true) : b.conn = a.conn := by
  rcases h.conn with hc | ⟨ha, -⟩
  · exact hc
  · rw [ha] at hs
    cases hs

theorem Alike.stream (h : Alike pa pb a b) : b.hist.stream = a.hist.stream := by
  rw [h.same]
  rfl

theorem Alike.pc (h : Alike pa pb a b) : b.pc = a.pc := by
  rw [h.same]
  rfl

/-- A step that leaves connection, buffers and messages alone. -/
theorem Alike.idle {a' b' : Server} (h : Alike pa pb a b)
    (hb : b' = twin a' b.conn b.buf b.hist.sent b.hist.bugs) (hc : a'.conn = a.conn)
    (hbuf : a'.buf = a.buf) (hh : a'.hist = a.hist) : Alike pa pb a' b' := by
  subst hb
  constructor
  · rfl
  · simp only [twin, hc]
    exact h.conn
  · simp only [twin, hh]
    exact h.sent
  · simp only [twin, hbuf]
    exact h.raw
  · simp only [twin, hbuf, hh]
    exact h.text

/-- A step of the buffers with the same octets read in both. -/
theorem Alike.buffers {a' b' : Server} (h : Alike pa pb a b) (ba bb : Buffers) (more : Bytes)
    (ha : a' = { a with buf := ba, hist := { a.hist with stream := a.hist.stream ++ more } })
    (hb : b' = { b with buf := bb, hist := { b.hist with stream := b.hist.stream ++ more } })
    (hraw : SameRaw ba bb)
    (htext : pending (a.hist.stream ++ more) bb = pending (a.hist.stream ++ more) ba) :
    Alike pa pb a' b' := by
  subst ha hb
  have hsame := h.same
  constructor
  · rw [hsame]
    rfl
  · exact h.conn
  · exact h.sent
  · exact hraw
  · exact htext

/-- A message to the client. -/
theorem Alike.servMsgSend (h : Alike pa pb a b) (sent : Bool) (m : Ttlv) :
    Alike pa pb (servMsgSend sent m a) (servMsgSend sent m b) := by
  have hsock := h.sock
  obtain ⟨tail, hta, htb⟩ := h.sent
  unfold Source.servMsgSend
  rw [hsock]
  cases ha : a.conn.sock with
  | false =>
    simp only [Bool.false_eq_true, not_false_eq_true, if_true]
    refine ⟨?_, h.conn, h.sent, h.raw, h.text⟩
    rw [h.same]
    rfl
  | true =>
    simp only [not_true_eq_false, if_false]
    unfold msgOut closeSock
    cases sent with
    | true =>
      simp only [if_true]
      refine ⟨?_, h.conn, ⟨tail ++ [m], ?_, ?_⟩, h.raw, h.text⟩
      · rw [h.same]
        rfl
      · simp only [hta, List.append_assoc]
      · simp only [htb, List.append_assoc]
    | false =>
      simp only [Bool.false_eq_true, if_false]
      refine ⟨?_, .inr ⟨rfl, rfl⟩, h.sent, h.raw, h.text⟩
      rw [h.same]
      rfl

/-- The second server as a twin of the first. -/
theorem Alike.exists_twin (h : Alike pa pb a b) :
    ∃ conn buf sent bugs, b = twin a conn buf sent bugs := ⟨_, _, _, _, h.same⟩

theorem Alike.exists_twin_connected (h : Alike pa pb a b) (hs : a.conn.sock = true) :
    ∃ buf sent bugs, b = twin a a.conn buf sent bugs := by
  have hsame := h.same
  rw [h.connected hs] at hsame
  exact ⟨_, _, _, hsame⟩

/-- Before and in `select` a step only moves control, in both servers alike. -/
theorem Alike.waiting (h : Alike pa pb a b) (host : Host) (sys : Sys)
    (hpc : a.pc = .waitPts ∨ a.pc = .setNonblock ∨ a.pc = .installHandler ∨ a.pc = .head ∨
      a.pc = .nowait ∨ a.pc = .zombie ∨ a.pc = .limits ∨ a.pc = .select) :
    Alike pa pb (tick host sys a) (tick host sys b) := by
  have hsock := h.sock
  have hnew := h.raw.rawnew
  have hcnt := h.raw.newcnt
  obtain ⟨conn, buf, sent, bugs, rfl⟩ := h.exists_twin
  simp only [twin] at hsock hnew hcnt
  unfold tick
  simp only [twin]
  rcases hpc with hpc | hpc | hpc | hpc | hpc | hpc | hpc | hpc <;> simp only [hpc]
  · exact h.idle rfl rfl rfl rfl
  · exact h.idle rfl rfl rfl rfl
  · exact h.idle rfl rfl rfl rfl
  · unfold loopHead
    simp only [hsock]
    split
    · exact h.idle rfl rfl rfl rfl
    · split <;> exact h.idle rfl rfl rfl rfl
  · unfold loopNowait
    simp only [hsock]
    split <;> exact h.idle rfl rfl rfl rfl
  · unfold loopZombie
    simp only [hsock]
    split <;> exact h.idle rfl rfl rfl rfl
  · unfold loopLimits
    simp only [hsock]
    split
    · exact h.idle rfl rfl rfl rfl
    · split <;> exact h.idle rfl rfl rfl rfl
  · unfold loopSelect
    simp only [hsock, hnew, hcnt]
    split <;> exact h.idle rfl rfl rfl rfl

theorem Alike.loopAccept (h : Alike pa pb a b) (sys : Sys) (fds : ReadFds) :
    Alike pa pb (loopAccept sys fds a) (loopAccept sys fds b) := by
  unfold Source.loopAccept
  have hsock := h.sock
  obtain ⟨conn, buf, sent, bugs, rfl⟩ := h.exists_twin
  split
  · split
    · exact h.idle rfl rfl rfl rfl
    · exact h.idle rfl rfl rfl rfl
    · refine ⟨?_, .inl rfl, ?_, ?_, ?_⟩ <;> simp only [hsock] <;> split
      · rfl
      · rfl
      · exact h.sent
      · exact h.sent
      · exact h.raw
      · exact h.raw
      · exact h.text
      · exact h.text
  · exact h.idle rfl rfl rfl rfl

theorem SameRaw.appendRaw {ba bb : Buffers} (h : SameRaw ba bb) (got : Bytes) :
    SameRaw (appendRaw got ba) (appendRaw got bb) := by
  obtain ⟨h1, h2, h3, h4, h5⟩ := h
  constructor <;> simp only [Source.appendRaw, h1, h2, h3, h4, h5]

/-- Both servers read the same octets. -/
theorem Alike.servReadPtm (h : Alike pa pb a b) (ha : RawWindow a.hist.stream a.buf)
    (hb : RawWindow b.hist.stream b.buf) (rs : List PtmRead) :
    Alike pa pb (servReadPtm rs a) (servReadPtm rs b) := by
  induction rs with
  | nil => exact h
  | cons r rs ih =>
    have hnew := h.raw.rawnew
    have hcnt := h.raw.newcnt
    have hclosed : Alike pa pb { a with ptmOpen := false } { b with ptmOpen := false } := by
      obtain ⟨conn, buf, sent, bugs, rfl⟩ := h.exists_twin
      exact h.idle rfl rfl rfl rfl
    simp only [Source.servReadPtm, hnew, hcnt]
    split
    · exact h
    · cases r with
      | data bs =>
        simp only
        split
        · exact hclosed
        · refine h.buffers _ _ _ rfl rfl (h.raw.appendRaw _) ?_
          rw [h.stream] at hb
          rw [pending_appendRaw ha, pending_appendRaw hb, h.text]
      | eintr => exact ih
      | eagain => exact h
      | eof => exact hclosed
      | error => exact hclosed

theorem SameRaw.symm {ba bb : Buffers} (h : SameRaw ba bb) : SameRaw bb ba :=
  ⟨h.ntotal.symm, h.rawoffset.symm, h.rawbuf.symm, h.rawnew.symm, h.newcnt.symm⟩

theorem SameRaw.trans {b₁ b₂ b₃ : Buffers} (h : SameRaw b₁ b₂) (h' : SameRaw b₂ b₃) :
    SameRaw b₁ b₃ :=
  ⟨h'.ntotal.trans h.ntotal, h'.rawoffset.trans h.rawoffset, h'.rawbuf.trans h.rawbuf,
    h'.rawnew.trans h.rawnew, h'.newcnt.trans h.newcnt⟩

/-- Two expect buffers with the same string behind `buf_raw2expect`. -/
structure SameText (ba bb : Buffers) : Prop where
  count : bb.expcnt = ba.expcnt
  taken : bb.expbuf.take bb.expcnt = ba.expbuf.take ba.expcnt

/-- Equal pending texts that are copied completely are equal strings. -/
theorem sameText_of_pending {stream : Bytes} {ma mb : Nat} {ba bb : Buffers}
    (ha : RawWindow stream ba) (hb : RawWindow stream bb) (hea : ExpectWindow stream ma ba)
    (heb : ExpectWindow stream mb bb) (hoa : ba.expoffset = ba.ntotal)
    (hob : bb.expoffset = bb.ntotal) (htext : pending stream bb = pending stream ba) :
    SameText ba bb := by
  rw [pending_copied ha hoa, pending_copied hb hob] at htext
  have hlen := congrArg List.length htext
  have h1 := hea.size
  have h2 := heb.size
  have h3 := hea.count
  have h4 := heb.count
  rw [List.length_take_of_le (by omega), List.length_take_of_le (by omega)] at hlen
  exact ⟨hlen, htext⟩

/-- Parts of the string do not depend on what is behind it. -/
theorem SameText.part {ba bb : Buffers} (h : SameText ba bb) (start n : Nat)
    (hle : start + n ≤ ba.expcnt) :
    (bb.expbuf.drop start).take n = (ba.expbuf.drop start).take n := by
  have hcut : ∀ buf : Bytes, (buf.drop start).take n = ((buf.take ba.expcnt).drop start).take n := by
    intro buf
    rw [List.drop_take, List.take_take, Nat.min_eq_left (by omega)]
  have htaken := h.taken
  rw [h.count] at htaken
  rw [hcut bb.expbuf, hcut ba.expbuf, htaken]

/-- The copies made by the two servers hold the same string. -/
theorem Alike.copied (h : Alike pa pb a b) {ma mb : Nat} (ha : Windows a ma) (hb : Windows b mb)
    {ba bb : Buffers} (hca : bufRaw2expect a.buf = some ba) (hcb : bufRaw2expect b.buf = some bb) :
    SameRaw ba bb ∧ pending a.hist.stream bb = pending a.hist.stream ba ∧ SameText ba bb := by
  have hbraw := hb.raw
  have hbexp := hb.exp
  rw [h.stream] at hbraw hbexp
  obtain ⟨hsa, hoa, -⟩ := bufRaw2expect_spec ha.raw hca
  obtain ⟨hsb, hob, -⟩ := bufRaw2expect_spec hbraw hcb
  have htext : pending a.hist.stream bb = pending a.hist.stream ba := by
    rw [pending_bufRaw2expect hbraw hbexp hcb, pending_bufRaw2expect ha.raw ha.exp hca, h.text]
  refine ⟨(hsa.symm.trans h.raw).trans hsb, htext, ?_⟩
  exact sameText_of_pending (ha.raw.bufRaw2expect hca) (hbraw.bufRaw2expect hcb)
    (ha.exp.bufRaw2expect ha.raw hca) (hbexp.bufRaw2expect hbraw hcb)
    (hoa.trans hsa.ntotal.symm) (hob.trans hsb.ntotal.symm) htext

/-- The two assertions of `buf_raw2expect` have one outcome. -/
theorem bufRaw2expect_none {ba bb : Buffers} (h : Fits ba ↔ Fits bb)
    (hca : bufRaw2expect ba = none) : bufRaw2expect bb = none := by
  cases hcb : bufRaw2expect bb with
  | none => rfl
  | some b' =>
    have hfit : Fits ba := h.mpr ((bufRaw2expect_isSome bb).mp ⟨b', hcb⟩)
    obtain ⟨a', ha'⟩ := (bufRaw2expect_isSome ba).mpr hfit
    rw [hca] at ha'
    cases ha'

theorem bufRaw2expect_some {ba bb a' : Buffers} (h : Fits ba ↔ Fits bb)
    (hca : bufRaw2expect ba = some a') : ∃ b', bufRaw2expect bb = some b' :=
  (bufRaw2expect_isSome bb).mpr (h.mp ((bufRaw2expect_isSome ba).mp ⟨a', hca⟩))

/-- The reply to `INFO` shows the end of the string. -/
theorem infoReply_twin (host : Host) {a b : Server} (hspawn : b.spawn = a.spawn)
    (h : SameText a.buf b.buf) : infoReply host b = infoReply host a := by
  unfold infoReply
  simp only [hspawn, h.count]
  rw [h.part]
  omega

/-- A branch on a condition both servers see alike. -/
theorem Alike.branch {c : Prop} [Decidable c] {a' b' : Server} (hthen : c → Alike pa pb a b)
    (helse : ¬ c → Alike pa pb a' b') :
    Alike pa pb (if c then a else a') (if c then b else b') := by
  split
  · rename_i hc
    exact hthen hc
  · rename_i hc
    exact helse hc

theorem Alike.closeSock (h : Alike pa pb a b) : Alike pa pb (closeSock a) (closeSock b) := by
  obtain ⟨conn, buf, sent, bugs, rfl⟩ := h.exists_twin
  exact ⟨rfl, .inr ⟨rfl, rfl⟩, h.sent, h.raw, h.text⟩

/-- On an open connection `servMsgSend` is `msgOut`. -/
theorem Alike.msgOut (h : Alike pa pb a b) (hs : a.conn.sock = true) (sent : Bool) (m : Ttlv) :
    Alike pa pb (msgOut sent m a) (msgOut sent m b) := by
  have hopen := h.servMsgSend sent m
  have hs' := h.sock.trans hs
  unfold Source.servMsgSend at hopen
  rw [if_neg (not_not.mpr hs), if_neg (not_not.mpr hs')] at hopen
  exact hopen

theorem Alike.servHello (h : Alike pa pb a b) (hs : a.conn.sock = true) (sys : Sys) (m : Ttlv) :
    Alike pa pb (servHello sys m a) (servHello sys m b) := by
  have hs' := h.sock.trans hs
  unfold Source.servHello
  rw [if_neg (not_not.mpr hs), if_neg (not_not.mpr hs')]
  apply Alike.branch
  · intro _
    exact h.closeSock
  · intro _
    apply Alike.branch
    · intro _
      exact (h.servMsgSend _ _).closeSock
    · intro _
      exact h.msgOut hs _ _

theorem Alike.servDisconn (h : Alike pa pb a b) (hs : a.conn.sock = true) (sys : Sys) :
    Alike pa pb (servDisconn sys a) (servDisconn sys b) := by
  have hs' := h.sock.trans hs
  unfold Source.servDisconn
  rw [if_neg (not_not.mpr hs), if_neg (not_not.mpr hs')]
  exact (h.msgOut hs _ _).closeSock

theorem Alike.writePtm (h : Alike pa pb a b) (sys : Sys) (m : Ttlv) :
    Alike pa pb (writePtm sys m a) (writePtm sys m b) := by
  obtain ⟨conn, buf, sent, bugs, rfl⟩ := h.exists_twin
  unfold Source.writePtm
  apply Alike.branch
  · intro _
    exact ⟨rfl, h.conn, h.sent, h.raw, h.text⟩
  · intro _
    exact h

theorem Alike.processPass (h : Alike pa pb a b) (hs : a.conn.sock = true) (m : Ttlv) :
    Alike pa pb (processPass m a) (processPass m b) := by
  obtain ⟨buf, sent, bugs, rfl⟩ := h.exists_twin_connected hs
  unfold Source.processPass
  apply Alike.branch
  · intro _
    exact h.idle rfl rfl rfl rfl
  · intro _
    exact ⟨rfl, .inl rfl, h.sent, h.raw, h.text⟩

theorem Alike.processWinch (h : Alike pa pb a b) (m : Ttlv) :
    Alike pa pb (processWinch m a) (processWinch m b) := by
  obtain ⟨conn, buf, sent, bugs, rfl⟩ := h.exists_twin
  unfold Source.processWinch
  apply Alike.branch
  · intro _
    exact h.idle rfl rfl rfl rfl
  · intro _
    exact h

/-- The request `INFO` in both servers. -/
theorem Alike.info (h : Alike pa pb a b) {ma mb : Nat} (ha : Windows a ma) (hb : Windows b mb)
    (hfits : Fits a.buf ↔ Fits b.buf) (host : Host) (sys : Sys) (m : Ttlv) (hm : m.tag = Tag.info) :
    Alike pa pb (dispatch host sys m a) (dispatch host sys m b) := by
  have hfull : ∀ s : Server, bufRaw2expect s.buf = none →
      Source.dispatch host sys m s = { s with pc := .aborted } := by
    intro s hs
    unfold Source.dispatch
    rw [hm, hs]
    rfl
  have hsend : ∀ (s : Server) (buf : Buffers), bufRaw2expect s.buf = some buf →
      Source.dispatch host sys m s =
        Source.servMsgSend sys.sent (infoReply host { s with buf := buf }) { s with buf := buf } := by
    intro s buf hs
    unfold Source.dispatch
    rw [hm, hs]
    rfl
  cases hca : bufRaw2expect a.buf with
  | none =>
    rw [hfull a hca, hfull b (bufRaw2expect_none hfits hca)]
    obtain ⟨conn, buf, sent, bugs, rfl⟩ := h.exists_twin
    exact h.idle rfl rfl rfl rfl
  | some ba =>
    obtain ⟨bb, hcb⟩ := bufRaw2expect_some hfits hca
    obtain ⟨hraw, htext, hsame⟩ := h.copied ha hb hca hcb
    have hspawn : b.spawn = a.spawn := by
      rw [h.same]
      rfl
    rw [hsend a ba hca, hsend b bb hcb]
    rw [infoReply_twin host (a := { a with buf := ba }) (b := { b with buf := bb }) hspawn hsame]
    apply Alike.servMsgSend
    obtain ⟨conn, buf, sent, bugs, rfl⟩ := h.exists_twin
    exact ⟨rfl, h.conn, h.sent, hraw, htext⟩

/-- Both servers handle a request of a client alike. -/
theorem Alike.dispatch (h : Alike pa pb a b) {ma mb : Nat} (ha : Windows a ma) (hb : Windows b mb)
    (host : Host) (sys : Sys) (m : Ttlv) (hs : a.conn.sock = true)
    (hfits : m.tag = Tag.info → (Fits a.buf ↔ Fits b.buf)) :
    Alike pa pb (dispatch host sys m a) (dispatch host sys m b) := by
  by_cases hinfo : m.tag = Tag.info
  · exact h.info ha hb (hfits hinfo) host sys m hinfo
  have hexpout : b.expout = a.expout := by
    rw [h.same]
    rfl
  have hclose : Alike pa pb { a with ptmOpen := false } { b with ptmOpen := false } := by
    obtain ⟨conn, buf, sent, bugs, rfl⟩ := h.exists_twin
    exact h.idle rfl rfl rfl rfl
  have hset : Alike pa pb { a with spawn := processSet m a.spawn }
      { b with spawn := processSet m b.spawn } := by
    obtain ⟨conn, buf, sent, bugs, rfl⟩ := h.exists_twin
    exact h.idle rfl rfl rfl rfl
  unfold Source.dispatch
  rw [if_neg hinfo, if_neg hinfo]
  refine Alike.branch (fun _ => h.servHello hs sys m) fun _ => ?_
  refine Alike.branch (fun _ => h.servDisconn hs sys) fun _ => ?_
  refine Alike.branch (fun _ => (h.writePtm sys m).servMsgSend _ _) fun _ => ?_
  refine Alike.branch (fun _ => h.writePtm sys m) fun _ => ?_
  refine Alike.branch (fun _ => h.processPass hs m) fun _ => ?_
  refine Alike.branch (fun _ => hexpout ▸ h.servMsgSend _ _) fun _ => ?_
  refine Alike.branch (fun _ => h.processWinch m) fun _ => ?_
  refine Alike.branch (fun _ => hclose.servMsgSend _ _) fun _ => ?_
  refine Alike.branch (fun _ => h.servMsgSend _ _) fun _ => ?_
  exact Alike.branch (fun _ => hset.servMsgSend _ _) fun _ => h

/-! ### `serv_pass` -/

theorem SameRaw.markSent {ba bb : Buffers} (h : SameRaw ba bb) :
    SameRaw (markSent ba) (markSent bb) := by
  obtain ⟨h1, h2, h3, h4, h5⟩ := h
  constructor <;> simp only [Source.markSent, h1, h2, h3, h4, h5]

theorem SameRaw.markOld {ba bb : Buffers} (h : SameRaw ba bb) :
    SameRaw (markOld ba) (markOld bb) := by
  obtain ⟨h1, h2, h3, h4, h5⟩ := h
  constructor <;> simp only [Source.markOld, h1, h2, h3, h4, h5]

/-- The same buffers step in both servers, with nothing read. -/
theorem Alike.rebuffered (h : Alike pa pb a b) (pc : Pc) (ba bb : Buffers) (hraw : SameRaw ba bb)
    (htext : pending a.hist.stream bb = pending a.hist.stream ba) :
    Alike pa pb { a with buf := ba, pc := pc } { b with buf := bb, pc := pc } := by
  obtain ⟨conn, buf, sent, bugs, rfl⟩ := h.exists_twin
  exact ⟨rfl, h.conn, h.sent, hraw, htext⟩

theorem Alike.goto (h : Alike pa pb a b) (pc : Pc) :
    Alike pa pb { a with pc := pc } { b with pc := pc } :=
  h.rebuffered pc a.buf b.buf h.raw h.text

/-- The output sent does not depend on the expect buffers. -/
theorem Alike.sendOutput (h : Alike pa pb a b) (sys : Sys) (psend : Nat) :
    Alike pa pb (sendOutput sys psend a) (sendOutput sys psend b) := by
  obtain ⟨h1, h2, h3, h4, h5⟩ := h.raw
  unfold Source.sendOutput
  simp only [h3, h4, h5]
  apply Alike.branch
  · intro _
    have hmsg := h.servMsgSend sys.sent
      (ttlvNewRaw Tag.output ((a.buf.rawbuf.drop psend).take (a.buf.rawnew + a.buf.newcnt - psend)))
    rw [hmsg.sock]
    apply Alike.branch
    · intro _
      apply hmsg.rebuffered .copy _ _ hmsg.raw.markSent
      rw [pending_markSent, pending_markSent, hmsg.text]
    · intro _
      exact hmsg.goto .drop
  · intro _
    exact h.goto .copy

theorem Alike.servPassOutput (h : Alike pa pb a b) (sys : Sys) :
    Alike pa pb (servPassOutput sys a) (servPassOutput sys b) := by
  cases hs : a.conn.sock with
  | false =>
    have hs' := h.sock.trans hs
    rw [servPassOutput_unserved sys (by simp [hs]), servPassOutput_unserved sys (by simp [hs'])]
    exact h.goto .drop
  | true =>
    obtain ⟨buf, sent, bugs, rfl⟩ := h.exists_twin_connected hs
    unfold Source.servPassOutput
    apply Alike.branch
    · intro _
      exact h.goto .drop
    · intro _
      apply Alike.branch
      · intro _
        rw [h.raw.rawnew]
        exact h.sendOutput sys _
      · intro _
        have hback : Alike pa pb { a with conn := { a.conn with lookback := 0 } }
            (twin { a with conn := { a.conn with lookback := 0 } } { a.conn with lookback := 0 }
              buf sent bugs) := ⟨rfl, .inl rfl, h.sent, h.raw, h.text⟩
        have hstart := lookbackStart_twin h.raw a.conn.lookback
        simp only [twin] at hstart ⊢
        rw [hstart]
        cases lookbackStart a.conn.lookback a.buf with
        | none => exact hback.goto .crashed
        | some psend => exact hback.sendOutput sys psend

theorem Alike.servPassCopy (h : Alike pa pb a b) {ma mb : Nat} (ha : Windows a ma)
    (hb : Windows b mb) (hs : a.conn.sock = true)
    (hfits : a.conn.pattern.isSome = true → (Fits a.buf ↔ Fits b.buf)) :
    Alike pa pb (servPassCopy a) (servPassCopy b) := by
  have hpattern : b.conn.pattern = a.conn.pattern := by rw [h.connected hs]
  have hsubcmd : b.conn.subcmd = a.conn.subcmd := by rw [h.connected hs]
  unfold Source.servPassCopy
  rw [hpattern, hsubcmd]
  cases hp : a.conn.pattern with
  | some pattern =>
    have hfit := hfits (by rw [hp]; rfl)
    simp only
    cases hca : bufRaw2expect a.buf with
    | none =>
      rw [bufRaw2expect_none hfit hca]
      exact h.goto .aborted
    | some ba =>
      obtain ⟨bb, hcb⟩ := bufRaw2expect_some hfit hca
      obtain ⟨hraw, htext, -⟩ := h.copied ha hb hca hcb
      rw [hcb]
      exact h.rebuffered .expect ba bb hraw htext
  | none =>
    simp only
    apply Alike.branch
    · intro _
      rw [h.raw.ntotal, h.raw.newcnt]
      exact h.rebuffered .ending _ _ ⟨h.raw.ntotal, h.raw.rawoffset, h.raw.rawbuf, h.raw.rawnew,
        h.raw.newcnt⟩ (pending_resetExp h.raw _)
    · intro _
      exact h.goto .ending

/-- Two attempts to match with one outcome. -/
def SameMatch (ba bb : Buffers) (ra rb : Option (Buffers × List (Option Bytes))) : Prop :=
  (ra = none ∧ rb = none) ∨ ∃ pos expout, pos ≤ (cstring ba.expbuf).length ∧
    ra = some (keepAfter pos ba, expout) ∧ rb = some (keepAfter pos bb, expout)

theorem expectExact_twin {ba bb : Buffers} (hcs : cstring bb.expbuf = cstring ba.expbuf)
    (expflags : Int) (pattern : Bytes) :
    SameMatch ba bb (expectExact expflags pattern ba) (expectExact expflags pattern bb) := by
  unfold expectExact
  simp only [hcs]
  generalize hfound : (if hasFlag expflags passExpectIcase then
    strcasestr (cstring ba.expbuf) pattern else strstr (cstring ba.expbuf) pattern) = found
  cases found with
  | none => exact .inl ⟨rfl, rfl⟩
  | some pos =>
    refine .inr ⟨pos + pattern.length, _, ?_, rfl, rfl⟩
    split at hfound
    · have hle := strstr_le _ _ _ hfound
      simpa only [List.length_map] using hle
    · exact strstr_le _ _ _ hfound

theorem expectEre_twin {ba bb : Buffers} (hcs : cstring bb.expbuf = cstring ba.expbuf)
    (h : SameText ba bb) (hlen : (cstring ba.expbuf).length = ba.expcnt) (regex : Regex)
    (expflags : Int) (pattern : Bytes) (expout : List (Option Bytes)) :
    SameMatch ba bb (expectEre regex expflags pattern ba expout)
      (expectEre regex expflags pattern bb expout) := by
  unfold expectEre
  rw [hcs]
  cases hre : regex.regexec pattern (hasFlag expflags passExpectIcase)
      (hasFlag expflags passExpectNewline) (cstring ba.expbuf) with
  | none => exact .inl ⟨rfl, rfl⟩
  | some found =>
    obtain ⟨whole, groups⟩ := found
    have hoff := regex.offsets _ _ _ _ _ _ hre
    have htexts : (some whole :: groups).map (·.map fun m => (bb.expbuf.drop m.1).take (m.2 - m.1)) =
        (some whole :: groups).map (·.map fun m => (ba.expbuf.drop m.1).take (m.2 - m.1)) := by
      apply List.map_congr_left
      intro m hm
      cases m with
      | none => rfl
      | some m =>
        have hbound : m.1 ≤ m.2 ∧ m.2 ≤ ba.expcnt := by
          rw [← hlen]
          rcases List.mem_cons.mp hm with heq | hmem
          · cases heq
            exact ⟨hoff.order, hoff.bound⟩
          · exact hoff.inside _ _ hmem
        simp only [Option.map_some]
        rw [h.part]
        omega
    refine .inr ⟨whole.2, _, hoff.bound, rfl, ?_⟩
    simp only [htexts]

/-- The strings the two servers match against, at the call of `serv_expect`. -/
theorem Alike.strings (h : Alike pa pb a b) {ma mb : Nat} (ha : Windows a ma) (hb : Windows b mb)
    (hpc : a.pc = .expect) :
    SameText a.buf b.buf ∧ cstring b.buf.expbuf = cstring a.buf.expbuf ∧
      (cstring a.buf.expbuf).length = a.buf.expcnt := by
  obtain ⟨-, hta, hoa⟩ := ha.flow.ready hpc
  obtain ⟨-, htb, hob⟩ := hb.flow.ready (h.pc.trans hpc)
  have hcsa := cstring_of_window ha.exp hta
  have hcsb := cstring_of_window hb.exp htb
  have hbraw := hb.raw
  have hbexp := hb.exp
  rw [h.stream] at hbraw hbexp
  have hsame := sameText_of_pending ha.raw hbraw ha.exp hbexp hoa hob h.text
  have hsize := ha.exp.size
  have hcount := ha.exp.count
  refine ⟨hsame, ?_, ?_⟩
  · rw [hcsa, hcsb, hsame.taken]
  · rw [hcsa, List.length_take_of_le (by omega)]

/-- A match leaves the same text in both servers. -/
theorem Alike.matched (h : Alike pa pb a b) {ma mb : Nat} (ha : Windows a ma) (hb : Windows b mb)
    (hpc : a.pc = .expect) (pos : Nat) (hpos : pos ≤ (cstring a.buf.expbuf).length)
    (expout : List (Option Bytes)) :
    Alike pa pb { a with buf := keepAfter pos a.buf, expout := expout }
      { b with buf := keepAfter pos b.buf, expout := expout } := by
  obtain ⟨hsame, -, hlen⟩ := h.strings ha hb hpc
  obtain ⟨-, hta, hoa⟩ := ha.flow.ready hpc
  obtain ⟨-, htb, hob⟩ := hb.flow.ready (h.pc.trans hpc)
  have hbraw := hb.raw
  rw [h.stream] at hbraw
  obtain ⟨hca, -, hka⟩ := keepAfter_spec ha.exp hta pos (by omega)
  obtain ⟨hcb, -, hkb⟩ := keepAfter_spec hb.exp htb pos (by rw [hsame.count]; omega)
  have htext : pending a.hist.stream (keepAfter pos b.buf) =
      pending a.hist.stream (keepAfter pos a.buf) := by
    have hra : RawWindow a.hist.stream (keepAfter pos a.buf) :=
      ha.raw.withExp ⟨rfl, rfl, rfl, rfl, rfl⟩ ha.raw.copied
    have hrb : RawWindow a.hist.stream (keepAfter pos b.buf) :=
      hbraw.withExp ⟨rfl, rfl, rfl, rfl, rfl⟩ hbraw.copied
    rw [pending_copied hra hoa, pending_copied hrb hob, hca, hcb, hka, hkb, hsame.taken]
  obtain ⟨conn, buf, sent, bugs, rfl⟩ := h.exists_twin
  exact ⟨rfl, h.conn, h.sent, ⟨h.raw.ntotal, h.raw.rawoffset, h.raw.rawbuf, h.raw.rawnew,
    h.raw.newcnt⟩, htext⟩

/-- What `serv_expect` makes of an attempt to match. -/
def settle (s : Server) : Option (Buffers × List (Option Bytes)) → Bool × Server
  | some (buf, expout) => (true, { s with buf := buf, expout := expout })
  | none => (false, s)

theorem servExpect_settle (host : Host) (pattern : Bytes) (s : Server) :
    servExpect host pattern s =
      if s.buf.expcnt = 0 ∧ ¬ s.ptmOpen then (false, s)
      else if hasFlag s.conn.expflags passExpectExact then
        settle s (expectExact s.conn.expflags pattern s.buf)
      else if hasFlag s.conn.expflags passExpectGlob then
        (false, { s with hist := { s.hist with bugs := s.hist.bugs ++ [.sawGlob] } })
      else if hasFlag s.conn.expflags passExpectEre then
        settle s (expectEre host.regex s.conn.expflags pattern s.buf s.expout)
      else (false, s) := rfl

/-- One outcome, and servers that stay alike. -/
def SameResult (pa pb : List Ttlv) (ra rb : Bool × Server) : Prop :=
  rb.1 = ra.1 ∧ Alike pa pb ra.2 rb.2

theorem SameResult.branch {c : Prop} [Decidable c] {ra rb ra' rb' : Bool × Server}
    (hthen : SameResult pa pb ra rb) (helse : SameResult pa pb ra' rb') :
    SameResult pa pb (if c then ra else ra') (if c then rb else rb') := by
  split
  · exact hthen
  · exact helse

/-- `serv_expect` has one outcome in both servers. -/
theorem Alike.servExpect (h : Alike pa pb a b) {ma mb : Nat} (ha : Windows a ma)
    (hb : Windows b mb) (hpc : a.pc = .expect) (host : Host) (pattern : Bytes) :
    SameResult pa pb (servExpect host pattern a) (servExpect host pattern b) := by
  obtain ⟨hsock, -⟩ := ha.flow.passing (.inr (.inl hpc))
  obtain ⟨hsame, hcs, hlen⟩ := h.strings ha hb hpc
  have hmatch : ∀ ra rb, SameMatch a.buf b.buf ra rb →
      SameResult pa pb (settle a ra) (settle b rb) := by
    intro ra rb hm
    rcases hm with ⟨rfl, rfl⟩ | ⟨pos, expout, hpos, rfl, rfl⟩
    · exact ⟨rfl, h⟩
    · exact ⟨rfl, h.matched ha hb hpc pos hpos expout⟩
  obtain ⟨buf, sent, bugs, rfl⟩ := h.exists_twin_connected hsock
  have hcount : buf.expcnt = a.buf.expcnt := hsame.count
  rw [servExpect_settle, servExpect_settle]
  simp only [twin, hcount]
  apply SameResult.branch
  · exact ⟨rfl, h⟩
  apply SameResult.branch
  · exact hmatch _ _ (expectExact_twin hcs _ _)
  apply SameResult.branch
  · exact ⟨rfl, ⟨rfl, h.conn, h.sent, h.raw, h.text⟩⟩
  apply SameResult.branch
  · exact hmatch _ _ (expectEre_twin hcs hsame hlen _ _ _ _)
  · exact ⟨rfl, h⟩

theorem Alike.stopPassing (h : Alike pa pb a b) : Alike pa pb (stopPassing a) (stopPassing b) := by
  have hconn := h.conn
  obtain ⟨conn, buf, sent, bugs, rfl⟩ := h.exists_twin
  refine ⟨rfl, ?_, h.sent, h.raw, h.text⟩
  rcases hconn with hc | hc
  · left
    simp only [twin] at hc
    simp only [Source.stopPassing, twin, hc]
  · exact .inr hc

theorem Alike.servPassExpect (h : Alike pa pb a b) {ma mb : Nat} (ha : Windows a ma)
    (hb : Windows b mb) (hpc : a.pc = .expect) (host : Host) (sys : Sys) :
    Alike pa pb (servPassExpect host sys a) (servPassExpect host sys b) := by
  obtain ⟨hsock, -⟩ := ha.flow.passing (.inr (.inl hpc))
  have hresult := h.servExpect ha hb hpc host (a.conn.pattern.getD [])
  unfold Source.servPassExpect
  rw [h.connected hsock]
  generalize Source.servExpect host (a.conn.pattern.getD []) a = ra at hresult ⊢
  generalize Source.servExpect host (a.conn.pattern.getD []) b = rb at hresult ⊢
  obtain ⟨ra, a'⟩ := ra
  obtain ⟨rb, b'⟩ := rb
  obtain ⟨hsame, halike⟩ := hresult
  cases hsame
  cases ra with
  | true => exact (halike.servMsgSend _ _).stopPassing
  | false => exact halike.goto .ending

theorem Alike.servPassEnd (h : Alike pa pb a b) (hs : a.conn.sock = true) (sys : Sys) :
    Alike pa pb (servPassEnd sys a) (servPassEnd sys b) := by
  have hcnt := h.raw.newcnt
  have htotal := h.raw.ntotal
  obtain ⟨buf, sent, bugs, rfl⟩ := h.exists_twin_connected hs
  have hreset : Alike pa pb { a with buf := resetExp a.buf.ntotal a.buf }
      (twin a a.conn (resetExp a.buf.ntotal buf) sent bugs) :=
    ⟨rfl, .inl rfl, h.sent, ⟨h.raw.ntotal, h.raw.rawoffset, h.raw.rawbuf, h.raw.rawnew,
      h.raw.newcnt⟩, pending_resetExp h.raw _⟩
  have hwaited : Alike pa pb { a with waited := true }
      (twin { a with waited := true } a.conn buf sent bugs) := h.idle rfl rfl rfl rfl
  simp only [twin] at hcnt htotal
  unfold Source.servPassEnd
  simp only [twin, hcnt, htotal]
  apply Alike.branch
  · intro _
    apply Alike.branch
    · intro _
      exact (hreset.servMsgSend _ _).stopPassing
    · intro _
      apply Alike.branch
      · intro _
        apply Alike.branch
        · intro _
          apply Alike.branch
          · intro _
            exact h
          · intro _
            exact (hwaited.servMsgSend _ _).stopPassing
        · intro _
          exact h.goto .drop
      · intro _
        exact (h.servMsgSend _ _).stopPassing
  · intro _
    apply Alike.branch
    · intro _
      exact (h.servMsgSend _ _).stopPassing
    · intro _
      exact h.goto .drop

/-- Dropping old data leaves one text when it leaves equally much. -/
theorem pending_drop_eq {a b : Server} {ma mb : Nat} (ha : Windows a ma) (hb : Windows b mb)
    (hstream : b.hist.stream = a.hist.stream)
    (hleft : survivors a.hist.stream a.buf = survivors b.hist.stream b.buf) :
    pending a.hist.stream (dropOldData b.buf) = pending a.hist.stream (dropOldData a.buf) := by
  have hbraw := hb.raw
  have hbexp := hb.exp
  rw [hstream] at hbraw hbexp hleft
  have hea := ha.exp.moves ha.raw (.dropped trivial)
  have heb := hbexp.moves hbraw (.dropped trivial)
  apply pending_eq_of_length hbraw.dropOldData heb ha.raw.dropOldData hea
  rw [pending_dropOldData_length ha.raw ha.exp, pending_dropOldData_length hbraw hbexp, hleft]

theorem Alike.loopReadPtm (h : Alike pa pb a b) (ha : RawWindow a.hist.stream a.buf)
    (hb : RawWindow b.hist.stream b.buf) (sys : Sys) (fds : ReadFds) :
    Alike pa pb (loopReadPtm sys fds a) (loopReadPtm sys fds b) := by
  have hptm : b.ptmOpen = a.ptmOpen := by
    rw [h.same]
    rfl
  unfold Source.loopReadPtm
  apply Alike.goto
  rw [hptm]
  apply Alike.branch
  · intro _
    exact h.servReadPtm ha hb sys.ptm
  · intro _
    exact h

theorem Alike.loopNonblock (h : Alike pa pb a b) (fds : ReadFds) :
    Alike pa pb (loopNonblock fds a) (loopNonblock fds b) := by
  have hsock := h.sock
  have hnew := h.raw.rawnew
  have hcnt := h.raw.newcnt
  obtain ⟨conn, buf, sent, bugs, rfl⟩ := h.exists_twin
  simp only [twin] at hsock hnew hcnt
  unfold Source.loopNonblock
  simp only [twin, hsock, hnew, hcnt]
  apply Alike.branch
  · intro _
    apply h.rebuffered (.recv fds) _ _ h.raw.markOld
    rw [pending_markOld, pending_markOld, h.text]
  · intro _
    exact h.goto (.recv fds)

theorem Windows.received {s : Server} {mark : Nat} (h : Windows s mark) :
    Windows { s with pc := .pass } mark :=
  ⟨h.raw, h.exp, Flow.elsewhere rfl (by simp) (by simp) (by simp)⟩

theorem Alike.loopRecv (h : Alike pa pb a b) {ma mb : Nat} (ha : Windows a ma) (hb : Windows b mb)
    (host : Host) (sys : Sys) (fds : ReadFds) (hpc : a.pc = .recv fds)
    (hfits : Copies sys a → (Fits a.buf ↔ Fits b.buf)) :
    Alike pa pb (loopRecv host sys fds a) (loopRecv host sys fds b) := by
  have hgo := h.goto .pass
  have hwa : Windows { a with pc := .pass } ma := ha.received
  have hwb : Windows { b with pc := .pass } mb := hb.received
  unfold Source.loopRecv
  simp only [h.sock]
  apply Alike.branch
  · rintro ⟨hs, hready⟩
    unfold servProcessMsg
    cases hm : sys.msg with
    | none => exact hgo.closeSock
    | some m =>
      apply hgo.dispatch hwa hwb host sys m hs
      intro hinfo
      apply hfits
      right
      simp [hpc, Pc.readfds, hs, hready, hm, hinfo]
  · intro _
    exact hgo

/-- Servers that are alike stay so under every step of the rest. -/
theorem Alike.step (h : Alike pa pb a b) {ma mb : Nat} (ha : Windows a ma) (hb : Windows b mb)
    (host : Host) (i : Input) (hok : RestCondition (a, b) i) :
    Alike pa pb (servStep host i a) (servStep host i b) := by
  cases i with
  | child e =>
    obtain ⟨conn, buf, sent, bugs, rfl⟩ := h.exists_twin
    simp only [servStep, childChange, twin]
    split
    · exact h
    · exact h.idle rfl rfl rfl rfl
  | sigCHLD =>
    obtain ⟨conn, buf, sent, bugs, rfl⟩ := h.exists_twin
    simp only [servStep, servSigCHLD, twin]
    apply Alike.branch
    · intro _
      exact h.idle rfl rfl rfl rfl
    · intro _
      exact h
  | tick sys =>
    obtain ⟨hdrop, hfits, -⟩ := hok
    have hpc := h.pc
    simp only [servStep]
    cases hp : a.pc with
    | waitPts => exact h.waiting host sys (by simp [hp])
    | setNonblock => exact h.waiting host sys (by simp [hp])
    | installHandler => exact h.waiting host sys (by simp [hp])
    | head => exact h.waiting host sys (by simp [hp])
    | nowait => exact h.waiting host sys (by simp [hp])
    | zombie => exact h.waiting host sys (by simp [hp])
    | limits => exact h.waiting host sys (by simp [hp])
    | select => exact h.waiting host sys (by simp [hp])
    | accept fds =>
      simp only [tick, hpc, hp]
      exact h.loopAccept sys fds
    | readPtm fds =>
      simp only [tick, hpc, hp]
      exact h.loopReadPtm ha.raw hb.raw sys fds
    | nonblock fds =>
      simp only [tick, hpc, hp]
      exact h.loopNonblock fds
    | recv fds =>
      simp only [tick, hpc, hp]
      exact h.loopRecv ha hb host sys fds hp hfits
    | pass =>
      simp only [tick, hpc, hp]
      exact h.servPassOutput sys
    | copy =>
      simp only [tick, hpc, hp]
      exact h.servPassCopy ha hb (ha.flow.passing (.inl hp)).1 fun hpat => hfits (.inl ⟨hp, hpat⟩)
    | expect =>
      simp only [tick, hpc, hp]
      exact h.servPassExpect ha hb hp host sys
    | ending =>
      simp only [tick, hpc, hp]
      exact h.servPassEnd (ha.flow.passing (.inr (.inr hp))).1 sys
    | drop =>
      simp only [tick, hpc, hp]
      exact h.rebuffered .head _ _ h.raw.dropOldData
        (pending_drop_eq ha hb h.stream (hdrop hp (hpc.trans hp)))
    | exited =>
      simp only [tick, hpc, hp]
      exact h
    | aborted =>
      simp only [tick, hpc, hp]
      exact h
    | crashed =>
      simp only [tick, hpc, hp]
      exact h

end

end Sexpect.Guarantees
