import Sexpect.Guarantees.Control
import Sexpect.Guarantees.Visits

/-!
# The raw buffer between iterations, and the room nonblocking mode makes

`raw_window` collects what holds of the raw buffer at every point of a run and at
the head of the loop.  In nonblocking mode a full buffer gets room indirectly:
each pass through the tail of the loop relabels `NONBLOCK_DROP_SIZE` octets as
old, and `drop_old_data` cuts what exceeds `MAX_OLD_DATA`.  `Crowded` is the
invariant of the buffer while the tail is repeated.
-/
namespace Sexpect.Guarantees
open Sexpect.Lib Sexpect.Source

/-- The tail of the loop marks octets as old (lines 1096-1104). -/
def Marks (s : Server) : Prop :=
  s.spawn.nonblock = true ∧ s.conn.sock = false ∧ s.buf.rawnew + s.buf.newcnt = sizeRawBuf ∧
    s.buf.rawnew ≤ maxOldData

instance (s : Server) : Decidable (Marks s) := inferInstanceAs (Decidable (_ ∧ _))

/-- What is marked as old was new. -/
theorem Marks.enough {s : Server} (h : Marks s) : nonblockDropSize ≤ s.buf.newcnt := by
  obtain ⟨-, -, hfull, hold⟩ := h
  have hsize := sizeRawBuf_eq
  have hmax := maxOldData_eq
  have hdrop := nonblockDropSize_eq
  omega

/-! ## The tail of the loop, repeated -/

/-- The tail of an iteration without a client: marking, then `drop_old_data`. -/
def nonblockTail (s : Server) : Server :=
  let s := loopNonblock {} s
  { s with buf := dropOldData s.buf, pc := .head }

def freeBytes (s : Server) : Nat := sizeRawBuf - (s.buf.rawnew + s.buf.newcnt)

/-- Without a client the last four stretches of an iteration are the tail. -/
theorem runs_nonblockTail (host : Host) (sys : Sys) (fds : ReadFds) (s : Server)
    (hsock : s.conn.sock = false) :
    runs (servStep host) (ticks 4 sys) { s with pc := .nonblock fds } = nonblockTail s := by
  by_cases h : s.spawn.nonblock ∧ s.buf.rawnew + s.buf.newcnt = sizeRawBuf ∧
      s.buf.rawnew ≤ maxOldData
  · simp [ticks, runs, servStep, tick, loopNonblock, loopRecv, servPassOutput, nonblockTail, hsock, h]
  · simp [ticks, runs, servStep, tick, loopNonblock, loopRecv, servPassOutput, nonblockTail, hsock, h]

/-- The counters behind the tail. -/
theorem nonblockTail_counts (s : Server) :
    (nonblockTail s).buf.rawnew =
        min (s.buf.rawnew + if Marks s then nonblockDropSize else 0) maxOldData ∧
      (nonblockTail s).buf.newcnt = s.buf.newcnt - if Marks s then nonblockDropSize else 0 := by
  obtain ⟨-, -, -, hrawnew, hnewcnt, -⟩ := dropOldData_counts (loopNonblock {} s).buf
  have hbuf : (loopNonblock {} s).buf = if Marks s then markOld s.buf else s.buf := by
    unfold loopNonblock
    by_cases hmark : Marks s
    · rw [if_pos hmark, if_pos (by simpa [Marks] using hmark)]
    · rw [if_neg hmark, if_neg (by simpa [Marks] using hmark)]
  simp only [nonblockTail]
  rw [hrawnew, hnewcnt, hbuf]
  split
  · exact ⟨rfl, rfl⟩
  · exact ⟨rfl, rfl⟩

/-- The tail touches the buffers and nothing else. -/
theorem nonblockTail_frame (s : Server) :
    ∃ buf, nonblockTail s = { s with buf := buf, pc := .head } := by
  unfold nonblockTail loopNonblock
  split
  · exact ⟨_, rfl⟩
  · exact ⟨_, rfl⟩

/-- The buffer is full or nearly so, and at most one marking ahead of the trimming. -/
structure Crowded (stream : Bytes) (s : Server) : Prop where
  raw : RawWindow stream s.buf
  nonblock : s.spawn.nonblock = true
  sock : s.conn.sock = false
  ptm : s.ptmOpen = true
  stream_eq : s.hist.stream = stream
  room : sizeRawBuf ≤ s.buf.rawnew + s.buf.newcnt + nonblockDropSize
  old : s.buf.rawnew ≤ maxOldData + nonblockDropSize
  trimmed : s.buf.rawnew + s.buf.newcnt < sizeRawBuf → s.buf.rawnew ≤ maxOldData

theorem RawWindow.loopNonblock {stream : Bytes} {s : Server} (h : RawWindow stream s.buf)
    (fds : ReadFds) : RawWindow stream (loopNonblock fds s).buf := by
  unfold Source.loopNonblock
  split
  · rename_i hmark
    exact h.markOld hmark.2.2.1 hmark.2.2.2
  · exact h

theorem Crowded.tail {stream : Bytes} {s : Server} (h : Crowded stream s) :
    Crowded stream (nonblockTail s) := by
  obtain ⟨hrawnew, hnewcnt⟩ := nonblockTail_counts s
  have hraw : RawWindow stream (nonblockTail s).buf := (h.raw.loopNonblock {}).dropOldData
  obtain ⟨buf, hframe⟩ := nonblockTail_frame s
  have hsize := sizeRawBuf_eq
  have hmax := maxOldData_eq
  have hdrop := nonblockDropSize_eq
  have hold := h.old
  have hroom := h.room
  have hfits := h.raw.fits
  have htrim := h.trimmed
  have hcounts : sizeRawBuf ≤ (nonblockTail s).buf.rawnew + (nonblockTail s).buf.newcnt +
        nonblockDropSize ∧ (nonblockTail s).buf.rawnew ≤ maxOldData := by
    rw [hrawnew, hnewcnt]
    by_cases hmark : Marks s
    · rw [if_pos hmark]
      have henough := hmark.enough
      obtain ⟨-, -, hfull, hle⟩ := hmark
      omega
    · rw [if_neg hmark]
      omega
  obtain ⟨hroom', hold'⟩ := hcounts
  refine ⟨hraw, ?_, ?_, ?_, ?_, hroom', by omega, fun _ => hold'⟩
  · rw [hframe]
    exact h.nonblock
  · rw [hframe]
    exact h.sock
  · rw [hframe]
    exact h.ptm
  · rw [hframe]
    exact h.stream_eq

theorem Crowded.iterate {stream : Bytes} {s : Server} (h : Crowded stream s) (k : Nat) :
    Crowded stream (nonblockTail^[k] s) := by
  induction k with
  | zero => exact h
  | succ k ih =>
    rw [Function.iterate_succ_apply']
    exact ih.tail

/-- A buffer that is still full has one more marking behind it. -/
theorem Crowded.progress {stream : Bytes} {s : Server} (h : Crowded stream s)
    (hfull : freeBytes (nonblockTail s) = 0) :
    (nonblockTail s).buf.rawnew = s.buf.rawnew + nonblockDropSize ∧
      (nonblockTail s).buf.rawnew ≤ maxOldData := by
  obtain ⟨hrawnew, hnewcnt⟩ := nonblockTail_counts s
  have hfits := h.raw.fits
  unfold freeBytes at hfull
  rw [hrawnew, hnewcnt] at hfull
  rw [hrawnew]
  by_cases hmark : Marks s
  · rw [if_pos hmark] at hfull ⊢
    have henough := hmark.enough
    obtain ⟨-, -, hwas, -⟩ := hmark
    omega
  · rw [if_neg hmark] at hfull
    have hnot : ¬ (s.buf.rawnew + s.buf.newcnt = sizeRawBuf ∧ s.buf.rawnew ≤ maxOldData) :=
      fun hboth => hmark ⟨h.nonblock, h.sock, hboth.1, hboth.2⟩
    omega

/-- Room stays room. -/
theorem freeBytes_settled (s : Server) (hfree : 1 ≤ freeBytes s) :
    1 ≤ freeBytes (nonblockTail s) := by
  obtain ⟨hrawnew, hnewcnt⟩ := nonblockTail_counts s
  unfold freeBytes at hfree ⊢
  have hmark : ¬ Marks s := by
    rintro ⟨-, -, hfull, -⟩
    omega
  rw [hrawnew, hnewcnt, if_neg hmark]
  omega

/-- After `k` passes with the buffer full all the time, `k` markings are old. -/
theorem Crowded.marked {stream : Bytes} {s : Server} (h : Crowded stream s) (k : Nat)
    (hfull : freeBytes (nonblockTail^[k + 1] s) = 0) :
    (k + 1) * nonblockDropSize ≤ (nonblockTail^[k + 1] s).buf.rawnew ∧
      (nonblockTail^[k + 1] s).buf.rawnew ≤ maxOldData := by
  induction k with
  | zero =>
    obtain ⟨hstep, hle⟩ := h.progress hfull
    refine ⟨?_, hle⟩
    change 1 * nonblockDropSize ≤ (nonblockTail s).buf.rawnew
    omega
  | succ k ih =>
    rw [Function.iterate_succ_apply'] at hfull ⊢
    have hbefore : freeBytes (nonblockTail^[k + 1] s) = 0 := by
      by_contra hfree
      have := freeBytes_settled _ (Nat.one_le_iff_ne_zero.mpr hfree)
      omega
    obtain ⟨hstep, hle⟩ := (h.iterate (k + 1)).progress hfull
    obtain ⟨hmarks, -⟩ := ih hbefore
    refine ⟨?_, hle⟩
    rw [hstep, Nat.succ_mul]
    omega

theorem Crowded.room_after {stream : Bytes} {s : Server} (h : Crowded stream s) (k : Nat)
    (hk : 9 ≤ k) : 1 ≤ freeBytes (nonblockTail^[k] s) := by
  have hnine : 1 ≤ freeBytes (nonblockTail^[9] s) := by
    by_contra hfull
    obtain ⟨hmarks, hle⟩ := h.marked 8 (Nat.lt_one_iff.mp (not_le.mp hfull))
    have hmax := maxOldData_eq
    have hdrop := nonblockDropSize_eq
    omega
  obtain ⟨j, rfl⟩ := Nat.exists_eq_add_of_le hk
  induction j with
  | zero => exact hnine
  | succ j ih =>
    rw [← Nat.add_assoc, Function.iterate_succ_apply']
    exact freeBytes_settled _ (ih (by omega))

/-! ## The old octets along a run -/

theorem servReadPtm_rawnew (rs : List PtmRead) (s : Server) :
    (servReadPtm rs s).buf.rawnew = s.buf.rawnew := by
  induction rs with
  | nil => rfl
  | cons r rs ih =>
    simp only [servReadPtm]
    split
    · rfl
    · cases r with
      | data bs =>
        simp only
        split <;> rfl
      | eintr => exact ih
      | eof | eagain | error => rfl

theorem dispatch_rawnew {stream : Bytes} (host : Host) (sys : Sys) (m : Ttlv) (s : Server)
    (hraw : RawWindow stream s.buf) : (dispatch host sys m s).buf.rawnew = s.buf.rawnew := by
  have hwrite : (writePtm sys m s).buf = s.buf := by
    unfold writePtm
    split <;> rfl
  apply dispatch_cases (motive := fun s' => s'.buf.rawnew = s.buf.rawnew)
  case hello =>
    intro _
    unfold servHello
    split
    · rfl
    · simp only
      split
      · rfl
      · split <;> simp
  case disconn =>
    intro _
    unfold servDisconn
    split <;> simp
  case send => exact fun _ => by rw [servMsgSend_buf, hwrite]
  case input => exact fun _ => by rw [hwrite]
  case pass =>
    intro _
    unfold processPass
    simp only
    split <;> rfl
  case winch =>
    intro _
    unfold processWinch
    split <;> rfl
  case abort => exact fun _ _ => rfl
  case info =>
    intro buf _ hcopy
    rw [servMsgSend_buf]
    exact (bufRaw2expect_spec hraw hcopy).1.rawnew
  case other => rfl
  all_goals exact fun _ => by rw [servMsgSend_buf]

/-- Behind the output of `serv_pass` any number of octets may be old; before it at
most one marking exceeds what the trimming leaves. -/
def Relabelled (s : Server) : Prop :=
  s.pc = .copy ∨ s.pc = .expect ∨ s.pc = .ending ∨ s.pc = .drop ∨
    s.pc = .aborted ∧ s.conn.sock = true ∨ s.buf.rawnew ≤ maxOldData + nonblockDropSize

theorem Relabelled.low {s : Server} (h : s.buf.rawnew ≤ maxOldData + nonblockDropSize) :
    Relabelled s := .inr (.inr (.inr (.inr (.inr h))))

theorem sendOutput_crashed (sys : Sys) (psend : Nat) (s : Server) :
    (sendOutput sys psend s).pc ≠ .crashed := by
  unfold sendOutput
  simp only
  split
  · split <;> simp
  · simp

/-- A lookback that leaves its buffer has sent nothing. -/
theorem servPassOutput_crashed (sys : Sys) {s : Server}
    (hcrash : (servPassOutput sys s).pc = .crashed) : (servPassOutput sys s).buf = s.buf := by
  unfold servPassOutput at hcrash ⊢
  split at hcrash
  · cases hcrash
  · rename_i hgo
    rw [if_neg hgo]
    split at hcrash
    · exact absurd hcrash (sendOutput_crashed _ _ _)
    · rename_i hlook
      rw [if_neg hlook]
      simp only at hcrash ⊢
      split at hcrash
      · rfl
      · exact absurd hcrash (sendOutput_crashed _ _ _)

theorem Relabelled.tick {s : Server} {mark : Nat} (h : Relabelled s) (hw : Windows s mark)
    (host : Host) (sys : Sys) : Relabelled (tick host sys s) := by
  by_cases hread : ∃ fds, s.pc = .readPtm fds
  · obtain ⟨fds, hpc⟩ := hread
    have hlow := (hw.flow.trimmed (by rw [hpc]; rfl)).1
    apply Relabelled.low
    simp only [Source.tick, hpc, loopReadPtm]
    split
    · rw [servReadPtm_rawnew]
      omega
    · omega
  by_cases hearly : early s.pc = true
  · apply Relabelled.low
    rw [tick_early_buf host sys s hearly fun fds hpc => hread ⟨fds, hpc⟩]
    exact le_trans (hw.flow.trimmed hearly).1 (Nat.le_add_right _ _)
  have hgoes := tick_goes host sys s
  unfold Relabelled at h
  cases hpc : s.pc with
  | nonblock fds =>
    apply Relabelled.low
    simp only [hpc, reduceCtorEq, false_and, false_or] at h
    simp only [Source.tick, hpc, loopNonblock]
    split
    · rename_i hmark
      exact Nat.add_le_add_right hmark.2.2.2 nonblockDropSize
    · exact h
  | recv fds =>
    apply Relabelled.low
    simp only [hpc, reduceCtorEq, false_and, false_or] at h
    simp only [Source.tick, hpc, loopRecv]
    split
    · unfold servProcessMsg
      split
      · exact h
      · rw [dispatch_rawnew host sys _ { s with pc := .pass } hw.raw]
        exact h
    · exact h
  | pass =>
    simp only [hpc, reduceCtorEq, false_and, false_or] at h
    rw [hpc] at hgoes
    obtain hdrop | hcopy | hcrash := hgoes
    · exact .inr (.inr (.inr (.inl hdrop)))
    · exact .inl hcopy
    · apply Relabelled.low
      simp only [Source.tick, hpc] at hcrash ⊢
      rw [servPassOutput_crashed sys hcrash]
      exact h
  | copy =>
    rw [hpc] at hgoes
    obtain hexpect | hending | habort := hgoes
    · exact .inr (.inl hexpect)
    · exact .inr (.inr (.inl hending))
    · refine .inr (.inr (.inr (.inr (.inl ⟨habort, ?_⟩))))
      rw [show (Source.tick host sys s).conn = s.conn by
        simp only [Source.tick, hpc, servPassCopy]
        split
        · split <;> rfl
        · split <;> rfl]
      exact (hw.flow.passing (.inl hpc)).1
  | expect | ending =>
    rw [hpc] at hgoes
    obtain hdrop | hending := hgoes
    · exact .inr (.inr (.inr (.inl hdrop)))
    · exact .inr (.inr (.inl hending))
  | drop =>
    apply Relabelled.low
    simp only [Source.tick, hpc]
    rw [(dropOldData_counts s.buf).2.2.2.1]
    omega
  | exited | aborted | crashed =>
    simp only [Source.tick, hpc]
    exact h
  | _ =>
    rw [hpc] at hearly
    exact absurd rfl hearly

theorem Relabelled.step {s : Server} {mark : Nat} (h : Relabelled s) (hw : Windows s mark)
    (host : Host) (i : Input) : Relabelled (servStep host i s) := by
  cases i with
  | tick sys => exact h.tick hw host sys
  | child e =>
    simp only [servStep, childChange]
    split <;> exact h
  | sigCHLD =>
    simp only [servStep, servSigCHLD]
    split <;> exact h

theorem reaches_relabelled (host : Host) {ok : Server → Input → Prop} {s₀ s : Server}
    (h₀ : Initial s₀) (h : Reaches (servStep host) ok s₀ s) : Relabelled s := by
  induction h with
  | start =>
    obtain ⟨spawn, rawbuf, expbuf, -, -, rfl⟩ := h₀
    exact .low (Nat.zero_le _)
  | next i hreach _ ih =>
    obtain ⟨mark, hw⟩ := reaches_windows host h₀ hreach
    exact ih.step hw host i

/-- Outside the tail itself a full buffer without a client is crowded. -/
theorem crowded_of_reaches (host : Host) {ok : Server → Input → Prop} {s₀ s : Server}
    (h₀ : Initial s₀) (h : Reaches (servStep host) ok s₀ s) (hdrop : s.pc ≠ .drop)
    (hnb : s.spawn.nonblock = true) (hsock : s.conn.sock = false) (hopen : s.ptmOpen = true)
    (hfull : s.buf.rawnew + s.buf.newcnt = sizeRawBuf) : Crowded s.hist.stream s := by
  obtain ⟨mark, hw⟩ := reaches_windows host h₀ h
  refine ⟨hw.raw, hnb, hsock, hopen, rfl, by omega, ?_, fun hlt => absurd hfull (by omega)⟩
  have hserved : s.pc = .copy ∨ s.pc = .expect ∨ s.pc = .ending → False := by
    intro hpc
    have := (hw.flow.passing hpc).1
    rw [hsock] at this
    cases this
  obtain hpc | hpc | hpc | hpc | ⟨-, hpc⟩ | hlow := reaches_relabelled host h₀ h
  · exact (hserved (.inl hpc)).elim
  · exact (hserved (.inr (.inl hpc))).elim
  · exact (hserved (.inr (.inr hpc))).elim
  · exact absurd hpc hdrop
  · rw [hsock] at hpc
    cases hpc
  · exact hlow

/-- From every reachable state outside the tail that is nonblocking, has no client,
an open pty and a full raw buffer: nine passes through the tail, and any further
ones, leave between one and `NONBLOCK_DROP_SIZE` octets free.  Each of the states on
the way has lost nothing of the last `SIZE_RAW_BUF - NONBLOCK_DROP_SIZE` octets
read, marks no more octets than are new, and has the pty in its `select` set; and
each pass is what the loop executes when it comes to its tail. -/
theorem nonblock_makes_room (host : Host) (s₀ s : Server) (h₀ : Initial s₀)
    (h : Reaches (servStep host) (fun _ _ => True) s₀ s) (hdrop : s.pc ≠ .drop)
    (hnb : s.spawn.nonblock = true) (hsock : s.conn.sock = false) (hopen : s.ptmOpen = true)
    (hfull : s.buf.rawnew + s.buf.newcnt = sizeRawBuf) :
    (∀ k, 9 ≤ k → 1 ≤ freeBytes (nonblockTail^[k] s) ∧
        freeBytes (nonblockTail^[k] s) ≤ nonblockDropSize) ∧
      ∀ k t, t = nonblockTail^[k] s →
        t.hist.stream = s.hist.stream ∧
          t.buf.rawoffset + (sizeRawBuf - nonblockDropSize) ≤ t.hist.stream.length ∧
          t.buf.rawbuf.take (t.buf.rawnew + t.buf.newcnt) =
            t.hist.stream.drop t.buf.rawoffset ∧
          (Marks t → nonblockDropSize ≤ t.buf.newcnt) ∧
          (∀ sys : Sys, sys.select = .ready { ptm := true } →
            (loopSelect sys t).pc = .accept { ptm := true }) ∧
          ∀ sys fds, runs (servStep host) (ticks 4 sys) { t with pc := .nonblock fds } =
            nonblockTail t := by
  have hcrowd := crowded_of_reaches host h₀ h hdrop hnb hsock hopen hfull
  refine ⟨?_, ?_⟩
  · intro k hk
    have hroom := (hcrowd.iterate k).room
    refine ⟨hcrowd.room_after k hk, ?_⟩
    unfold freeBytes
    omega
  · rintro k t rfl
    have hk := hcrowd.iterate k
    have hraw := hk.raw
    rw [← hk.stream_eq] at hraw
    refine ⟨hk.stream_eq, ?_, hraw.bytes, Marks.enough, ?_, ?_⟩
    · have htotal := hraw.total
      have hread := hraw.read
      have hroom := hk.room
      omega
    · intro sys hsel
      simp [loopSelect, hsel, hk.ptm, hk.nonblock]
    · intro sys fds
      exact runs_nonblockTail host sys fds _ hk.sock

/-- A fresh server started with `-nonblock`. -/
def nonblockServer : Server :=
  servInit { nonblock := true } (List.replicate (sizeRawBuf + 1) 0)
    (List.replicate (sizeRawBuf + 1) 0)

theorem nonblockServer_initial : Initial nonblockServer :=
  ⟨_, _, _, List.length_replicate, List.length_replicate, rfl⟩

/-- As much output as fits. -/
def flood : Bytes := List.replicate sizeRawBuf (octet 'x')

theorem flood_length : flood.length = sizeRawBuf := List.length_replicate

theorem servReadPtm_flood (s : Server) (hempty : s.buf.rawnew + s.buf.newcnt = 0) :
    servReadPtm [.data flood] s =
      { s with
        buf := appendRaw flood s.buf
        hist := { s.hist with stream := s.hist.stream ++ flood } } := by
  have hsize := sizeRawBuf_eq
  apply servReadPtm_data
  · intro hnil
    have := flood_length
    rw [hnil, List.length_nil] at this
    omega
  · rw [hempty, flood_length, Nat.zero_add]

/-- The flood is read before anybody connects. -/
def floodInputs : List Input :=
  ticks 3 {} ++ ticks 7 { select := .ready { ptm := true }, ptm := [.data flood] }

theorem runs_flood (rawbuf expbuf : Bytes) :
    runs (servStep plainHost) floodInputs (servInit { nonblock := true } rawbuf expbuf) =
      { servInit { nonblock := true } rawbuf expbuf with
        pc := .nonblock { ptm := true }
        handler := true
        buf := appendRaw flood { rawbuf := rawbuf, expbuf := expbuf }
        hist := { stream := flood } } := by
  simp [floodInputs, ticks, runs, servStep, tick, servInit, loopHead, loopNowait, loopZombie,
    loopLimits, loopSelect, loopAccept, loopReadPtm, servReadPtm_flood]

theorem nonblock_makes_room_flood :
    1 ≤ freeBytes (nonblockTail^[9] (runs (servStep plainHost) floodInputs nonblockServer)) ∧
      freeBytes (nonblockTail^[9] (runs (servStep plainHost) floodInputs nonblockServer)) ≤
        nonblockDropSize := by
  refine (nonblock_makes_room plainHost nonblockServer _ nonblockServer_initial
    (Reaches.start.runs floodInputs (admitted_true _ _)) ?_ ?_ ?_ ?_ ?_).1 9 le_rfl
  all_goals rw [nonblockServer, runs_flood]
  · decide
  · rfl
  · rfl
  · rfl
  · change 0 + (0 + flood.length) = sizeRawBuf
    rw [flood_length, Nat.zero_add, Nat.zero_add]

/-- A client connects while the flood arrives. -/
def floodedClientInputs : List Input :=
  ticks 3 {} ++
    ticks 11 { select := .ready { listen := true, ptm := true }, ptm := [.data flood] }

theorem runs_floodedClient (rawbuf expbuf : Bytes) :
    runs (servStep plainHost) floodedClientInputs (servInit { nonblock := true } rawbuf expbuf) =
      { servInit { nonblock := true } rawbuf expbuf with
        pc := .head
        handler := true
        conn := { sock := true }
        buf := appendRaw flood { rawbuf := rawbuf, expbuf := expbuf }
        hist := { stream := flood } } := by
  have hdrop : dropOldData (appendRaw flood { rawbuf := rawbuf, expbuf := expbuf }) =
      appendRaw flood { rawbuf := rawbuf, expbuf := expbuf } :=
    dropOldData_of_trimmed _ (Nat.zero_le _) (Nat.zero_le _)
  simp [floodedClientInputs, ticks, runs, servStep, tick, servInit, loopHead, loopNowait, loopZombie,
    loopLimits, loopSelect, loopAccept, loopReadPtm, servReadPtm_flood, loopNonblock, loopRecv,
    servPassOutput, hdrop]

/-- A `wait` that times out at once. -/
def shortWait : Ttlv := passRequest .wait { hasTimeout := true, expflags := passExpectExit }

theorem dispatch_shortWait (sys : Sys) (s : Server) (hconn : s.conn = { sock := true }) :
    dispatch plainHost sys shortWait s =
      { s with conn := { sock := true, passing := true, subcmd := passSubcmdWait,
                         expflags := passExpectExit } } := by
  rw [shortWait, dispatch_passRequest, processPass_request]
  simp [passDefaults, hconn, PassSubcmd.code, int32]
  decide

/-- It is sent the flood, and the answer fails. -/
def lostClientInputs : List Input :=
  floodedClientInputs ++ ticks 11 (asking shortWait) ++ ticks 1 { sent := false }

/-- The state between `serv_pass` and `drop_old_data` behind that: all is old. -/
theorem runs_lostClient (rawbuf expbuf : Bytes) :
    ∃ s, runs (servStep plainHost) lostClientInputs (servInit { nonblock := true } rawbuf expbuf) = s ∧
      s.spawn.nonblock = true ∧ s.conn.sock = false ∧ s.ptmOpen = true ∧
      s.buf.rawnew = sizeRawBuf ∧ s.buf.newcnt = 0 ∧ s.pc = .drop := by
  refine ⟨_, rfl, ?_⟩
  rw [lostClientInputs, runs_append, runs_append, runs_floodedClient]
  have hsize := sizeRawBuf_eq
  have hlen := flood_length
  simp [ticks, runs, servStep, tick, servInit, loopHead, loopNowait, loopZombie,
    loopLimits, loopSelect, loopAccept, loopReadPtm, loopNonblock, loopRecv,
    servPassOutput, servProcessMsg, asking, dispatch_shortWait, sendOutput, servMsgSend, msgOut,
    servPassCopy, servPassEnd, expTimedOut, stopPassing, closeSock, appendRaw, markSent, resetExp,
    hlen, hsize]

/-- There the tail frees more than a marking, however often it is repeated. -/
theorem nonblock_tail_frees_half :
    ∃ s, Initial nonblockServer ∧
      Reaches (servStep plainHost) (fun _ _ => True) nonblockServer s ∧
      s.spawn.nonblock = true ∧ s.conn.sock = false ∧ s.ptmOpen = true ∧
      s.buf.rawnew + s.buf.newcnt = sizeRawBuf ∧
      ∀ k, ¬ (1 ≤ freeBytes (nonblockTail^[k] s) ∧
        freeBytes (nonblockTail^[k] s) ≤ nonblockDropSize) := by
  obtain ⟨s, hruns, hnb, hsock, hopen, hold, hnew, -⟩ := runs_lostClient
    (List.replicate (sizeRawBuf + 1) 0) (List.replicate (sizeRawBuf + 1) 0)
  have hreach : Reaches (servStep plainHost) (fun _ _ => True) nonblockServer s := by
    rw [← hruns]
    exact Reaches.start.runs _ (admitted_true _ _)
  refine ⟨s, nonblockServer_initial, hreach, hnb, hsock, hopen, by omega, ?_⟩
  have hsize := sizeRawBuf_eq
  have hmax := maxOldData_eq
  have hdrop := nonblockDropSize_eq
  have hhalf : ∀ k, (nonblockTail^[k + 1] s).buf.rawnew = maxOldData ∧
      (nonblockTail^[k + 1] s).buf.newcnt = 0 := by
    intro k
    have hstep : ∀ t : Server, maxOldData ≤ t.buf.rawnew → t.buf.newcnt = 0 →
        (nonblockTail t).buf.rawnew = maxOldData ∧ (nonblockTail t).buf.newcnt = 0 := by
      intro t hraw hcnt
      obtain ⟨hrawnew, hnewcnt⟩ := nonblockTail_counts t
      have hmark : ¬ Marks t := by
        intro hmark
        have := hmark.enough
        omega
      rw [hrawnew, hnewcnt, if_neg hmark, hcnt]
      omega
    induction k with
    | zero => exact hstep s (by omega) hnew
    | succ k ih =>
      rw [Function.iterate_succ_apply']
      exact hstep _ (le_of_eq ih.1.symm) ih.2
  rintro k ⟨hfree, hfew⟩
  unfold freeBytes at hfree hfew
  cases k with
  | zero =>
    change 1 ≤ sizeRawBuf - (s.buf.rawnew + s.buf.newcnt) at hfree
    omega
  | succ k =>
    rw [(hhalf k).1, (hhalf k).2] at hfew
    omega

/-! ## The raw buffer in every run -/

/-- In every run, at every point: the old and the new octets fit into the raw buffer
and are the end of what was read, and marking takes no more than there is; at the
head of the loop both buffers are trimmed, and once octets were dropped exactly
`MAX_OLD_DATA` old ones are left. -/
theorem raw_window (host : Host) (s₀ s : Server) (h₀ : Initial s₀)
    (h : Reaches (servStep host) (fun _ _ => True) s₀ s) :
    s.buf.rawnew + s.buf.newcnt ≤ sizeRawBuf ∧
      s.buf.rawoffset + s.buf.rawnew + s.buf.newcnt = s.buf.ntotal ∧
      s.buf.ntotal = s.hist.stream.length ∧
      s.buf.rawbuf.take (s.buf.rawnew + s.buf.newcnt) =
        segment s.hist.stream s.buf.rawoffset s.buf.ntotal ∧
      s.buf.expoffset ≤ s.buf.ntotal ∧
      (Marks s → nonblockDropSize ≤ s.buf.newcnt) ∧
      (s.pc = .head → s.buf.rawnew ≤ maxOldData ∧ s.buf.expcnt ≤ maxOldData ∧
        (0 < s.buf.rawoffset → s.buf.rawnew = maxOldData)) := by
  obtain ⟨mark, hw⟩ := reaches_windows host h₀ h
  refine ⟨hw.raw.fits, hw.raw.total, hw.raw.read, ?_, hw.raw.copied, Marks.enough, ?_⟩
  · rw [hw.raw.read, segment_to_end]
    exact hw.raw.bytes
  · intro hpc
    have htrim := hw.flow.trimmed (by rw [hpc]; rfl)
    refine ⟨htrim.1, htrim.2, ?_⟩
    intro hoff
    exact le_antisymm htrim.1 (hw.raw.old hoff)

/-- The head of the loop behind the lost client, where half of the flood has been dropped. -/
theorem raw_window_dropped :
    ∃ s, s = runs (servStep plainHost) (lostClientInputs ++ ticks 1 {}) nonblockServer ∧
      s.pc = .head ∧ 0 < s.buf.rawoffset ∧ s.buf.rawnew = maxOldData ∧
      s.buf.rawbuf.take (s.buf.rawnew + s.buf.newcnt) =
        segment s.hist.stream s.buf.rawoffset s.buf.ntotal := by
  obtain ⟨s, hruns, -, -, -, hold, -, hpc⟩ := runs_lostClient
    (List.replicate (sizeRawBuf + 1) 0) (List.replicate (sizeRawBuf + 1) 0)
  have hreach : Reaches (servStep plainHost) (fun _ _ => True) nonblockServer
      (servStep plainHost (.tick {}) s) := by
    rw [← hruns]
    exact (Reaches.start.runs _ (admitted_true _ _)).next (Input.tick {}) trivial
  have hlast : runs (servStep plainHost) (lostClientInputs ++ ticks 1 {}) nonblockServer =
      servStep plainHost (.tick {}) s := by
    rw [runs_append, nonblockServer, hruns]
    rfl
  have hstep : servStep plainHost (.tick {}) s = { s with buf := dropOldData s.buf, pc := .head } := by
    simp only [servStep, tick, hpc]
  obtain ⟨-, -, -, hbytes, -, -, hhead⟩ :=
    raw_window plainHost nonblockServer _ nonblockServer_initial hreach
  obtain ⟨-, hrawoffset, -⟩ := dropOldData_counts s.buf
  rw [hstep] at hbytes hhead
  have hsize := sizeRawBuf_eq
  have hmax := maxOldData_eq
  have hoffset : 0 < (dropOldData s.buf).rawoffset := by omega
  exact ⟨_, hlast.symm, by rw [hstep], by rw [hstep]; exact hoffset,
    by rw [hstep]; exact (hhead rfl).2.2 hoffset, by rw [hstep]; exact hbytes⟩

end Sexpect.Guarantees
