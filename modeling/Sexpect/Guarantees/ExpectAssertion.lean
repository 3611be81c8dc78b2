import Sexpect.Guarantees.Control
import Sexpect.Guarantees.Visits

/-!
# The assertion of `buf_raw2expect`

The expect buffer has room for what is copied as long as the octets counted in it
lie inside the raw window, or are about to be thrown away, or there are none
(`Aligned`).  Every operation keeps this but one: dropping old raw data can move
the raw window into the middle of what the expect buffer counts.  That happens
when output is passed on without being copied, by `expect -eof` or by the
nonblocking mode, and `unread_abort` is a run in which the assertion then fails.
`DropCondition` excludes exactly that landing.
-/
namespace Sexpect.Guarantees
open Sexpect.Lib Sexpect.Source

/-- The octets counted in the expect buffer are inside the raw window, overtaken
by it, or none. -/
def Aligned (b : Buffers) : Prop :=
  b.expcnt = 0 ∨ b.expoffset < b.rawoffset ∨ b.rawoffset + b.expcnt ≤ b.expoffset

/-- Dropping does not move the start of the raw window into the stretch that the
trimmed expect buffer counts. -/
def DropCondition (b : Buffers) : Prop :=
  b.rawnew ≤ maxOldData ∨ b.expcnt = 0 ∨
    b.expoffset < b.rawoffset + (b.rawnew - maxOldData) ∨
    b.rawoffset + (b.rawnew - maxOldData) + min b.expcnt maxOldData ≤ b.expoffset

/-- The condition on a step: at the end of an iteration, `DropCondition`. -/
def DropsCleanly (s : Server) (_ : Input) : Prop := s.pc = .drop → DropCondition s.buf

instance (s : Server) (i : Input) : Decidable (DropsCleanly s i) :=
  inferInstanceAs (Decidable (s.pc = .drop → _ ∨ _ ∨ _ ∨ _))

theorem Aligned.dropOldData {b : Buffers} (h : Aligned b) (hd : DropCondition b) :
    Aligned (dropOldData b) := by
  obtain ⟨-, h1, h2, -, -, h3⟩ := dropOldData_counts b
  unfold Aligned at h ⊢
  unfold DropCondition at hd
  rw [h1, h2, h3]
  omega

/-- The assertion decides `buf_raw2expect`. -/
theorem bufRaw2expect_isSome (b : Buffers) :
    (∃ b', bufRaw2expect b = some b') ↔
      (catchUp b).expcnt + (b.ntotal - (catchUp b).expoffset) ≤ sizeRawBuf := by
  obtain ⟨-, -, -, hsame⟩ := catchUp_spec b
  unfold bufRaw2expect copyRaw
  simp only [hsame.ntotal]
  split
  · rename_i hroom
    exact iff_of_true ⟨_, rfl⟩ hroom
  · rename_i hroom
    exact iff_of_false (fun ⟨_, h⟩ => by cases h) hroom

/-- An aligned buffer has room for what is copied. -/
theorem Aligned.room {stream : Bytes} {b : Buffers} (h : Aligned b) (hraw : RawWindow stream b) :
    ∃ b', bufRaw2expect b = some b' := by
  obtain ⟨hoff, hcnt, -, -⟩ := catchUp_spec b
  have htotal := hraw.total
  have hfits := hraw.fits
  have hcop := hraw.copied
  apply (bufRaw2expect_isSome b).mpr
  rw [hoff, hcnt]
  unfold Aligned at h
  split <;> omega

theorem Aligned.bufRaw2expect {stream : Bytes} {b b' : Buffers} (h : Aligned b)
    (hraw : RawWindow stream b) (hcopy : bufRaw2expect b = some b') : Aligned b' := by
  obtain ⟨hoff, hcnt, -, -⟩ := catchUp_spec b
  obtain ⟨hsame, hoff', -, -, hcnt'⟩ := bufRaw2expect_spec hraw hcopy
  have htotal := hraw.total
  have hcop := hraw.copied
  have hread := hraw.read
  have hseg := segment_length stream (catchUp b).expoffset b.ntotal (by omega)
  have hnn := nonNul_length_le (segment stream (catchUp b).expoffset b.ntotal)
  have hcle : (catchUp b).expcnt + b.rawoffset ≤ (catchUp b).expoffset := by
    rw [hoff, hcnt]
    unfold Aligned at h
    split <;> omega
  have hup : (catchUp b).expoffset ≤ b.ntotal := by
    rw [hoff]
    omega
  right
  right
  rw [hsame.rawoffset, hoff', hcnt']
  omega

/-- Every move keeps the alignment, dropping under its condition. -/
theorem Aligned.moves {dropping : Prop} {stream stream' : Bytes} {b b' : Buffers} {mark mark' : Nat}
    (h : Aligned b) (hraw : RawWindow stream b) (hd : dropping → DropCondition b)
    (hexp : ExpectWindow stream mark b)
    (hm : Moves dropping stream b mark stream' b' mark') : Aligned b' := by
  cases hm with
  | same => exact h
  | read got _ => exact h
  | old _ _ => exact h
  | sent => exact h
  | copied _ hcopy => exact h.bufRaw2expect hraw hcopy
  | reset => exact .inl rfl
  | matched pos hpos ht hoff =>
    have hsize := hexp.size
    have hcount := hexp.count
    have hle : pos ≤ b.expcnt := by
      rw [cstring_of_window hexp ht, List.length_take_of_le (by omega)] at hpos
      exact hpos
    have hcnt := (keepAfter_spec hexp ht pos hle).1
    have hfields : (keepAfter pos b).expoffset = b.expoffset ∧
        (keepAfter pos b).rawoffset = b.rawoffset := ⟨rfl, rfl⟩
    unfold Aligned at h ⊢
    rw [hcnt, hfields.1, hfields.2]
    omega
  | dropped hdrop => exact h.dropOldData (hd hdrop)

/-- Two points lead to a failed assertion. -/
theorem goes_aborted {p : Pc} (h : Pc.goes p .aborted) :
    (∃ fds, p = .recv fds) ∨ p = .copy ∨ p = .aborted := by
  cases p <;> simp_all [Pc.goes]

/-- With room in the expect buffer no step aborts. -/
theorem servStep_not_aborted (host : Host) (i : Input) (s : Server) (b' : Buffers)
    (hroom : bufRaw2expect s.buf = some b') (hpc : s.pc ≠ .aborted) :
    (servStep host i s).pc ≠ .aborted := by
  cases i with
  | child e =>
    simp only [servStep, childChange]
    split <;> exact hpc
  | sigCHLD =>
    simp only [servStep, servSigCHLD]
    split <;> exact hpc
  | tick sys =>
    simp only [servStep]
    intro habort
    have hgoes := tick_goes host sys s
    rw [habort] at hgoes
    obtain ⟨fds, hat⟩ | hat | hat := goes_aborted hgoes
    · -- only the copy for the reply to `INFO` can fail
      simp only [tick, hat, loopRecv] at habort
      split at habort
      · unfold servProcessMsg at habort
        split at habort
        · cases habort
        · rename_i m _
          obtain h | ⟨-, h⟩ | h := dispatch_pc host sys m { s with pc := .pass }
          · rw [h] at habort
            cases habort
          · rw [hroom] at h
            cases h
          · rw [h] at habort
            cases habort
      · cases habort
    · simp only [tick, hat, servPassCopy, hroom] at habort
      split at habort
      · cases habort
      · split at habort <;> cases habort
    · exact hpc hat

/-- The state of a run whose drops are clean. -/
structure Roomy (s : Server) : Prop where
  windows : ∃ mark, Windows s mark
  aligned : Aligned s.buf
  running : s.pc ≠ .aborted

theorem Roomy.step {s : Server} (h : Roomy s) (host : Host) (i : Input) (hok : DropsCleanly s i) :
    Roomy (servStep host i s) := by
  obtain ⟨mark, hw⟩ := h.windows
  obtain ⟨b', hroom⟩ := h.aligned.room hw.raw
  refine ⟨⟨_, hw.step host i⟩, ?_, servStep_not_aborted host i s b' hroom h.running⟩
  exact h.aligned.moves hw.raw hok hw.exp (servStep_moves host i s mark hw.flow)

/-- In every run whose drops are clean, whatever the output, the clients, their
requests, the timeouts and the failed sends, the assertion of `buf_raw2expect`
holds in every state, wherever the function is or would be called, and the
server never aborts. -/
theorem buf_raw2expect_room (host : Host) (s₀ s : Server) (h₀ : Initial s₀)
    (hrun : Reaches (servStep host) DropsCleanly s₀ s) :
    s.pc ≠ .aborted ∧
      (catchUp s.buf).expcnt + (s.buf.ntotal - (catchUp s.buf).expoffset) ≤ sizeRawBuf := by
  have hr : Roomy s := by
    apply hrun.invariant Roomy
    · obtain ⟨spawn, rawbuf, expbuf, hr, he, rfl⟩ := h₀
      exact ⟨⟨0, Initial.windows ⟨spawn, rawbuf, expbuf, hr, he, rfl⟩⟩, .inl rfl, by simp [servInit]⟩
    · intro s i h hok
      exact h.step host i hok
  obtain ⟨mark, hw⟩ := hr.windows
  obtain ⟨b', hcopy⟩ := hr.aligned.room hw.raw
  obtain ⟨-, -, hassert, -, -⟩ := bufRaw2expect_spec hw.raw hcopy
  exact ⟨hr.running, hassert⟩

/-- A client looks for something in the first output of the child. -/
theorem buf_raw2expect_room_prompt :
    (runs (servStep plainHost) promptInputs freshServer).pc ≠ .aborted := by
  have hrun : Reaches (servStep plainHost) DropsCleanly freshServer
      (runs (servStep plainHost) promptInputs freshServer) :=
    Reaches.start.runs _ (by decide +kernel)
  exact (buf_raw2expect_room plainHost freshServer _ freshServer_initial hrun).1

/-! ## A run that aborts -/

/-- `expect -t 0 -re X`. -/
def missRequest : Ttlv :=
  passRequest .expect { hasTimeout := true, expflags := passExpectEre, pattern := some (ascii "X") }

/-- `expect -t 0 -eof`. -/
def eofRequest : Ttlv := passRequest .expect { hasTimeout := true, expflags := passExpectEof }

/-- `n` octets of output. -/
def letters (n : Nat) : Bytes := List.replicate n 97

/-- A calm server without a client: its counters, with nothing unsent, and the
letters it has read. -/
structure Ledger (s : Server) (ntotal rawoffset expoffset rawnew expcnt : Nat) : Prop where
  calm : Calm s
  sock : s.conn.sock = false
  windows : ∃ mark, Windows s mark
  stream : s.hist.stream = letters ntotal
  ntotal : s.buf.ntotal = ntotal
  rawoffset : s.buf.rawoffset = rawoffset
  expoffset : s.buf.expoffset = expoffset
  rawnew : s.buf.rawnew = rawnew
  newcnt : s.buf.newcnt = 0
  expcnt : s.buf.expcnt = expcnt

/-- A client connects and says hello. -/
def greeting : List Input := ticks 11 connecting ++ ticks 11 (asking msgHello)

theorem runs_greeting (host : Host) (s : Server) (h : Calm s) (hs : s.conn.sock = false) :
    runs (servStep host) greeting s =
      { s with
        conn := { sock := true }
        hist := { s.hist with sent := s.hist.sent ++ [msgHello] } } := by
  rw [greeting, runs_append, runs_connect host s h hs]
  exact runs_hello host _ ⟨h.pc, h.spawn, h.ptm, h.alive, h.waited, h.raw, h.exp⟩ rfl

/-- The state when the request of a visitor with `got` new octets is in place. -/
def asked (s : Server) (conn : Conn) (got : Bytes) (expout : List (Option Bytes)) : Server :=
  { s with
    pc := .pass
    conn := conn
    buf := appendRaw got s.buf
    expout := expout
    hist := { s.hist with stream := s.hist.stream ++ got, sent := s.hist.sent ++ [msgHello] } }

/-- A visit up to the point where its request is in place. -/
def visit (m : Ttlv) (got : Bytes) : List Input := greeting ++ ticks 9 (askingWith m got)

theorem runs_visit (s : Server) (got : Bytes) (opts : StPass) (h : Calm s)
    (hs : s.conn.sock = false) (hgot : got ≠ [])
    (hroom : s.buf.rawnew + s.buf.newcnt + got.length ≤ sizeRawBuf) :
    runs (servStep plainHost) (visit (passRequest .expect opts) got) s =
      processPass (passRequest .expect opts) (asked s { sock := true } got s.expout) := by
  rw [visit, runs_append, runs_greeting plainHost s h hs, runs_recvWith, dispatch_passRequest]
  · rfl
  · exact ⟨h.pc, h.spawn, h.ptm, h.alive, h.waited, h.raw, h.exp⟩
  · rfl
  · exact hgot
  · exact hroom

/-- The connection of a visitor with `expect -t 0 -re X`. -/
def missConn : Conn :=
  { sock := true, passing := true, subcmd := 1, expflags := 4, pattern := some (ascii "X") }

/-- The connection of a visitor with `expect -t 0 -eof`. -/
def eofConn : Conn := { sock := true, passing := true, subcmd := 1, expflags := 8 }

theorem runs_visit_miss (s : Server) (got : Bytes) (h : Calm s) (hs : s.conn.sock = false)
    (hgot : got ≠ []) (hroom : s.buf.rawnew + s.buf.newcnt + got.length ≤ sizeRawBuf) :
    runs (servStep plainHost) (visit missRequest got) s =
      asked s missConn got (List.replicate expectOutNum none) := by
  rw [missRequest, runs_visit s got _ h hs hgot hroom, processPass_request]
  rfl

theorem runs_visit_eof (s : Server) (got : Bytes) (h : Calm s) (hs : s.conn.sock = false)
    (hgot : got ≠ []) (hroom : s.buf.rawnew + s.buf.newcnt + got.length ≤ sizeRawBuf) :
    runs (servStep plainHost) (visit eofRequest got) s = asked s eofConn got s.expout := by
  rw [eofRequest, runs_visit s got _ h hs hgot hroom, processPass_request]
  rfl

/-- The rest of the visit: nothing matches, the time is up, the client leaves. -/
theorem runs_miss (s : Server) (b : Buffers) (hpc : s.pc = .pass) (hc : s.conn = missConn)
    (hptm : s.ptmOpen = true) (hnew : 0 < s.buf.newcnt)
    (hcopy : bufRaw2expect (markSent s.buf) = some b) :
    ∃ sent, runs (servStep plainHost) (ticks 5 {}) s =
      { s with
        pc := .head
        conn := { missConn with passing := false }
        buf := dropOldData b
        hist := { s.hist with sent := sent } } := by
  have h1 := tick_output plainHost s {} hpc (by rw [hc]; rfl) (by rw [hc]; rfl) (by rw [hc]; rfl)
    hnew rfl
  simp only [ticks, List.replicate, runs, h1]
  have h2 : ∀ hist : History, servStep plainHost (.tick {})
      { s with pc := .copy, buf := markSent s.buf, hist := hist } =
        { s with pc := .expect, buf := b, hist := hist } := by
    intro hist
    simp [servStep, tick, servPassCopy, hc, missConn, hcopy]
  have h3 : ∀ hist : History, servStep plainHost (.tick {})
      { s with pc := .expect, buf := b, hist := hist } =
        { s with pc := .ending, buf := b, hist := hist } := by
    intro hist
    simp [servStep, tick, servPassExpect, servExpect, hptm, hc, missConn, hasFlag, passExpectExact,
      passExpectGlob, passExpectEre, expectEre, plainHost]
  have h4 := fun hist : History => tick_timeout plainHost
    { s with pc := .ending, buf := b, hist := hist } {} rfl hptm
    (by simp only [hc]; rfl) (by simp only [hc]; rfl) rfl
  rw [h2, h3, h4]
  refine ⟨s.hist.sent ++ [outputOf s.buf] ++
    [servNewError ErrorCode.timeout (ascii "expect timed out")], ?_⟩
  simp only [servStep, tick, hc]

theorem runs_eof (s : Server) (hpc : s.pc = .pass) (hc : s.conn = eofConn)
    (hptm : s.ptmOpen = true) (hnew : 0 < s.buf.newcnt) :
    ∃ sent, runs (servStep plainHost) (ticks 4 {}) s =
      { s with
        pc := .head
        conn := { eofConn with passing := false }
        buf := dropOldData (markSent s.buf)
        hist := { s.hist with sent := sent } } := by
  have h1 := tick_output plainHost s {} hpc (by rw [hc]; rfl) (by rw [hc]; rfl) (by rw [hc]; rfl)
    hnew rfl
  simp only [ticks, List.replicate, runs, h1]
  have h2 : ∀ hist : History, servStep plainHost (.tick {})
      { s with pc := .copy, buf := markSent s.buf, hist := hist } =
        { s with pc := .ending, buf := markSent s.buf, hist := hist } := by
    intro hist
    simp [servStep, tick, servPassCopy, hc, eofConn, passSubcmdInteract, passSubcmdWait]
  have h3 := fun hist : History => tick_timeout plainHost
    { s with pc := .ending, buf := markSent s.buf, hist := hist } {} rfl hptm
    (by simp only [hc]; rfl) (by simp only [hc]; rfl) rfl
  rw [h2, h3]
  refine ⟨s.hist.sent ++ [outputOf s.buf] ++
    [servNewError ErrorCode.timeout (ascii "expect timed out")], ?_⟩
  simp only [servStep, tick, hc]

theorem letters_ne_nil {k : Nat} (hk : 0 < k) : letters k ≠ [] := by
  rw [letters, ne_eq, List.replicate_eq_nil_iff]
  omega

theorem nonNul_letters (n a b : Nat) (h : b ≤ n) :
    (nonNul (segment (letters n) a b)).length = b - a := by
  have hself : nonNul (segment (letters n) a b) = segment (letters n) a b := by
    apply List.filter_eq_self.mpr
    intro x hx
    have hmem : x ∈ letters n := List.mem_of_mem_drop (List.mem_of_mem_take hx)
    rw [List.eq_of_mem_replicate hmem]
    decide
  rw [hself, segment_length _ _ _ (by rw [letters, List.length_replicate]; exact h)]

section

variable {s : Server} {n r e w x : Nat}

theorem Ledger.room (h : Ledger s n r e w x) (k : Nat) (hw : w + k ≤ sizeRawBuf) :
    s.buf.rawnew + s.buf.newcnt + (letters k).length ≤ sizeRawBuf := by
  rw [h.rawnew, h.newcnt, letters, List.length_replicate]
  omega

/-- The buffers when a visitor's output has been sent. -/
theorem Ledger.sent (h : Ledger s n r e w x) (k : Nat) (conn : Conn)
    (expout : List (Option Bytes)) :
    (markSent (asked s conn (letters k) expout).buf).ntotal = n + k ∧
      (markSent (asked s conn (letters k) expout).buf).rawoffset = r ∧
      (markSent (asked s conn (letters k) expout).buf).expoffset = e ∧
      (markSent (asked s conn (letters k) expout).buf).rawnew = w + k ∧
      (markSent (asked s conn (letters k) expout).buf).newcnt = 0 ∧
      (markSent (asked s conn (letters k) expout).buf).expcnt = x ∧
      (asked s conn (letters k) expout).hist.stream = letters (n + k) := by
  refine ⟨?_, h.rawoffset, h.expoffset, ?_, rfl, h.expcnt, ?_⟩
  · simp [asked, markSent, appendRaw, h.ntotal, letters]
  · simp [asked, markSent, appendRaw, h.rawnew, h.newcnt, letters]
  · simp [asked, h.stream, letters, List.replicate_append_replicate]

/-- A visitor leaves a calm server. -/
theorem Ledger.leave {s' : Server} (h : Calm s') (hw : ∃ mark, Windows s' mark)
    (hs : s'.conn.sock = true) (hstream : s'.hist.stream = letters n) (hnt : s'.buf.ntotal = n)
    (hro : s'.buf.rawoffset = r) (heo : s'.buf.expoffset = e) (hrn : s'.buf.rawnew = w)
    (hnc : s'.buf.newcnt = 0) (hec : s'.buf.expcnt = x) :
    Ledger (runs (servStep plainHost) (ticks 11 (asking msgDisconn)) s') n r e w x := by
  obtain ⟨mark, hw⟩ := hw
  have hwin := hw.runs plainHost (ticks 11 (asking msgDisconn))
  rw [runs_disconn plainHost s' h hs] at hwin ⊢
  exact ⟨⟨h.pc, h.spawn, h.ptm, h.alive, h.waited, h.raw, h.exp⟩, rfl, hwin, hstream, hnt, hro, heo,
    hrn, hnc, hec⟩

/-- Lookups that miss copy the output into the expect buffer. -/
theorem Ledger.missed (h : Ledger s n r e w x) (k : Nat) (hk : 0 < k) (hre : r ≤ e)
    (hw : w + k ≤ maxOldData) (hx : x + (n + k - e) ≤ maxOldData) :
    Ledger (runs (servStep plainHost)
      (visit missRequest (letters k) ++ ticks 5 {} ++ ticks 11 (asking msgDisconn)) s)
      (n + k) r (n + k) (w + k) (x + (n + k - e)) := by
  have hsize := sizeRawBuf_eq
  have hmax := maxOldData_eq
  have hvisit := runs_visit_miss s (letters k) h.calm h.sock (letters_ne_nil hk) (h.room k (by omega))
  obtain ⟨h1, h2, h3, h4, h5, h6, h7⟩ := h.sent k missConn (List.replicate expectOutNum none)
  obtain ⟨mark, hwin⟩ := h.windows
  obtain ⟨mark', hwin'⟩ := hwin.runs plainHost (visit missRequest (letters k) ++ ticks 5 {})
  obtain ⟨mark'', hwin''⟩ := hwin.runs plainHost (visit missRequest (letters k))
  rw [hvisit] at hwin''
  have hraw := hwin''.raw.markSent
  obtain ⟨c1, c2, -, -⟩ := catchUp_spec
    (markSent (asked s missConn (letters k) (List.replicate expectOutNum none)).buf)
  rw [h2, h3] at c1 c2
  rw [if_neg (by omega), h6] at c2
  rw [Nat.max_eq_left hre] at c1
  obtain ⟨b, hcopy⟩ := (bufRaw2expect_isSome
    (markSent (asked s missConn (letters k) (List.replicate expectOutNum none)).buf)).mpr
    (by rw [c1, c2, h1]; omega)
  obtain ⟨hsame, hoff, -, -, hcnt⟩ := bufRaw2expect_spec hraw hcopy
  rw [c1, c2, h1, h7, nonNul_letters _ _ _ le_rfl] at hcnt
  obtain ⟨sent, hrun⟩ := runs_miss
    (asked s missConn (letters k) (List.replicate expectOutNum none)) b rfl rfl h.calm.ptm
    (by simp only [asked, appendRaw, letters, List.length_replicate]; omega) hcopy
  rw [dropOldData_of_trimmed b (by rw [hsame.rawnew, h4]; omega) (by omega)] at hrun
  rw [runs_append, hvisit, hrun] at hwin'
  rw [runs_append, runs_append, hvisit, hrun]
  refine Ledger.leave ?_ ⟨_, hwin'⟩ rfl h7 ?_ ?_ ?_ ?_ ?_ hcnt
  · exact ⟨rfl, h.calm.spawn, h.calm.ptm, h.calm.alive, h.calm.waited,
      by simp only [hsame.rawnew, h4]; omega, by simp only; omega⟩
  · exact hsame.ntotal.trans h1
  · exact hsame.rawoffset.trans h2
  · exact hoff.trans h1
  · exact hsame.rawnew.trans h4
  · exact hsame.newcnt.trans h5

/-- `expect -eof` passes the output on without copying it. -/
theorem Ledger.passed (h : Ledger s n r e w x) (k : Nat) (hk : 0 < k)
    (hw : w + k ≤ sizeRawBuf) (hgt : maxOldData < w + k) (hx : x ≤ maxOldData) :
    Ledger (runs (servStep plainHost)
      (visit eofRequest (letters k) ++ ticks 4 {} ++ ticks 11 (asking msgDisconn)) s)
      (n + k) (r + (w + k - maxOldData)) e maxOldData x := by
  have hvisit := runs_visit_eof s (letters k) h.calm h.sock (letters_ne_nil hk) (h.room k hw)
  obtain ⟨h1, h2, h3, h4, h5, h6, h7⟩ := h.sent k eofConn s.expout
  obtain ⟨mark, hwin⟩ := h.windows
  obtain ⟨mark', hwin'⟩ := hwin.runs plainHost (visit eofRequest (letters k) ++ ticks 4 {})
  obtain ⟨sent, hrun⟩ := runs_eof (asked s eofConn (letters k) s.expout) rfl rfl h.calm.ptm
    (by simp only [asked, appendRaw, letters, List.length_replicate]; omega)
  obtain ⟨d1, d2, d3, d4, d5, d6⟩ :=
    dropOldData_counts (markSent (asked s eofConn (letters k) s.expout).buf)
  rw [runs_append, hvisit, hrun] at hwin'
  rw [runs_append, runs_append, hvisit, hrun]
  refine Ledger.leave ?_ ⟨_, hwin'⟩ rfl h7 ?_ ?_ ?_ ?_ ?_ ?_
  · exact ⟨rfl, h.calm.spawn, h.calm.ptm, h.calm.alive, h.calm.waited,
      by simp only [d4]; omega, by simp only [d6]; omega⟩
  · exact d1.trans h1
  · rw [← h2, ← h4]
    exact d2
  · exact d3.trans h3
  · rw [← Nat.min_eq_right (Nat.le_of_lt hgt), ← h4]
    exact d4
  · exact d5.trans h5
  · rw [← Nat.min_eq_left hx, ← h6]
    exact d6

/-- A lookup for which the expect buffer has no room. -/
theorem Ledger.aborted (h : Ledger s n r e w x) (k : Nat) (hk : 0 < k) (hre : r ≤ e)
    (hw : w + k ≤ sizeRawBuf) (hx : sizeRawBuf < x + (n + k - e)) :
    (runs (servStep plainHost) (visit missRequest (letters k) ++ ticks 2 {}) s).pc = .aborted := by
  have hvisit := runs_visit_miss s (letters k) h.calm h.sock (letters_ne_nil hk) (h.room k (by omega))
  obtain ⟨h1, h2, h3, h4, h5, h6, h7⟩ := h.sent k missConn (List.replicate expectOutNum none)
  obtain ⟨c1, c2, -, -⟩ := catchUp_spec
    (markSent (asked s missConn (letters k) (List.replicate expectOutNum none)).buf)
  rw [h2, h3] at c1 c2
  rw [if_neg (by omega), h6] at c2
  rw [Nat.max_eq_left hre] at c1
  have hnone : bufRaw2expect
      (markSent (asked s missConn (letters k) (List.replicate expectOutNum none)).buf) = none := by
    cases hcopy : bufRaw2expect
        (markSent (asked s missConn (letters k) (List.replicate expectOutNum none)).buf) with
    | none => rfl
    | some b =>
      have hle := (bufRaw2expect_isSome _).mp ⟨b, hcopy⟩
      rw [c1, c2, h1] at hle
      omega
  have hout := tick_output plainHost
    (asked s missConn (letters k) (List.replicate expectOutNum none)) {} rfl rfl rfl rfl
    (by simp only [asked, appendRaw, letters, List.length_replicate]; omega) rfl
  rw [runs_append, hvisit]
  simp only [ticks, List.replicate, runs, hout]
  exact tick_abort plainHost _ {} (ascii "X") rfl rfl hnone

end

/-- Three clients: a lookup that misses, an `expect -eof` that times out while as
much output again is passed on, and a third lookup with new output. -/
def unreadInputs : List Input :=
  ticks 3 {} ++
    ((visit missRequest (letters 8192) ++ ticks 5 {} ++ ticks 11 (asking msgDisconn)) ++
      ((visit eofRequest (letters 8192) ++ ticks 4 {} ++ ticks 11 (asking msgDisconn)) ++
        (visit missRequest (letters 8192) ++ ticks 2 {})))

/-- The server aborts in `buf_raw2expect`. -/
theorem unread_abort :
    Initial freshServer ∧ (runs (servStep plainHost) unreadInputs freshServer).pc = .aborted := by
  have hsize := sizeRawBuf_eq
  have hmax := maxOldData_eq
  refine ⟨freshServer_initial, ?_⟩
  have hstart : Ledger (runs (servStep plainHost) (ticks 3 {}) freshServer) 0 0 0 0 0 :=
    ⟨⟨rfl, rfl, rfl, rfl, rfl, Nat.zero_le _, Nat.zero_le _⟩, rfl,
      freshServer_initial.windows.runs plainHost _, rfl, rfl, rfl, rfl, rfl, rfl, rfl⟩
  have h1 := hstart.missed 8192 (by omega) le_rfl (by omega) (by omega)
  have h2 := h1.passed 8192 (by omega) (by omega) (by omega) (by omega)
  rw [unreadInputs, runs_append, runs_append, runs_append]
  exact h2.aborted 8192 (by omega) (by omega) (by omega) (by omega)

end Sexpect.Guarantees
