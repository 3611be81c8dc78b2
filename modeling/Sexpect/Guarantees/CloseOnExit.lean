import Sexpect.Guarantees.Control
import Sexpect.Guarantees.Visits
import Sexpect.Source.Pty

/-!
# What `-cloexit` leaves in the pty

The loop closes the pty at the second head that finds the child dead.  Between the
two heads there is one `select` and at most one `read`, which returns a prefix of
what the child has written.  `Drains` says when that is enough: nothing interrupts
the iteration, `select` reports the pty, and the one `read` takes all that is left.
-/
namespace Sexpect.Guarantees
open Sexpect.Lib Sexpect.Source

/-- The next step of the loop closes the pty. -/
def Closes (t : Terminal) : Prop :=
  t.server.pc = .head ∧ t.server.ptmOpen = true ∧ (loopHead t.server).ptmOpen = false

instance (t : Terminal) : Decidable (Closes t) := inferInstanceAs (Decidable (_ ∧ _))

/-- The points at which what is written can still be read before the pty is closed. -/
def stillRead : Pc → Bool
  | .nowait | .zombie | .limits | .select => true
  | .accept fds | .readPtm fds => fds.ptm
  | _ => false

def reportsPtm : SelectResult → Bool
  | .ready fds => fds.ptm
  | _ => false

/-- The condition on a stretch behind the first head that found the child dead, with
something left in the queue: `select` reports the pty, unless it fails, which ends the
server; `accept` is not interrupted, and the read returns all of the queue, for which
there is room. -/
def TickDrains (t : Terminal) (sys : Sys) (read : PtyRead) : Pc → Prop
  | .select => t.queue = [] ∨ sys.select = .error ∨ reportsPtm sys.select = true ∧
      (t.server.buf.rawnew + t.server.buf.newcnt < sizeRawBuf ∨ t.server.spawn.nonblock = true)
  | .accept fds => t.queue = [] ∨ fds.listen = false ∨ sys.accept ≠ .eintr
  | .readPtm _ => t.queue = [] ∨ t.queue.length ≤ read.chunk + 1 ∧
      t.server.buf.rawnew + t.server.buf.newcnt + t.queue.length ≤ sizeRawBuf
  | _ => True

/-- Nor does the child write when it is too late. -/
def DrainsAt (t : Terminal) : PtyEvent → Prop
  | .tick sys read => TickDrains t sys read t.server.pc
  | .write bs => bs = [] ∨ t.server.child ≠ .running ∨ stillRead t.server.pc = true
  | .child _ => True
  | .sigCHLD => True

/-- What is written is read before the pty is closed. -/
def Drains (t : Terminal) (e : PtyEvent) : Prop :=
  t.server.cloexitCount = 0 ∨ t.server.ptmOpen = false ∨ DrainsAt t e

instance (t : Terminal) (sys : Sys) (read : PtyRead) :
    ∀ pc, Decidable (TickDrains t sys read pc)
  | .select => inferInstanceAs (Decidable (_ ∨ _))
  | .accept _ => inferInstanceAs (Decidable (_ ∨ _))
  | .readPtm _ => inferInstanceAs (Decidable (_ ∨ _))
  | .waitPts | .setNonblock | .installHandler | .head | .nowait | .zombie | .limits
  | .nonblock _ | .recv _ | .pass | .copy | .expect | .ending | .drop
  | .exited | .aborted | .crashed => inferInstanceAs (Decidable True)

instance (t : Terminal) : ∀ e, Decidable (DrainsAt t e)
  | .tick sys read => inferInstanceAs (Decidable (TickDrains t sys read t.server.pc))
  | .write _ => inferInstanceAs (Decidable (_ ∨ _))
  | .child _ => inferInstanceAs (Decidable True)
  | .sigCHLD => inferInstanceAs (Decidable True)

instance (t : Terminal) (e : PtyEvent) : Decidable (Drains t e) :=
  inferInstanceAs (Decidable (_ ∨ _))

/-! ## The read -/

/-- What one call of `serv_read_ptm` takes from the queue. -/
theorem servReadPtm_queue (queue : Bytes) (r : PtyRead) (s : Server) :
    ∃ k, (servReadPtm (ptmAnswers queue r) s).hist.stream = s.hist.stream ++ queue.take k ∧
      k ≤ queue.length ∧
      (queue.length ≤ r.chunk + 1 → s.buf.rawnew + s.buf.newcnt + queue.length ≤ sizeRawBuf →
        k = queue.length) := by
  obtain ⟨interrupts, chunk, empty⟩ := r
  unfold ptmAnswers
  simp only
  induction interrupts with
  | zero =>
    simp only [List.replicate_zero, List.nil_append]
    by_cases hempty : queue = []
    · subst hempty
      refine ⟨0, ?_, le_rfl, fun _ _ => rfl⟩
      rw [if_pos rfl]
      cases empty
      all_goals
        simp only [NothingRead.answer, servReadPtm, List.take_nil, List.append_nil]
        split <;> rfl
    · have hpos : 0 < queue.length := List.length_pos_iff.mpr hempty
      rw [if_neg hempty]
      simp only [servReadPtm]
      by_cases hfull : sizeRawBuf - (s.buf.newcnt + s.buf.rawnew) = 0
      · rw [if_pos hfull]
        refine ⟨0, by rw [List.take_zero, List.append_nil], Nat.zero_le _, ?_⟩
        intro _ hroom
        omega
      · rw [if_neg hfull, List.take_take]
        have hsome : queue.take (min (sizeRawBuf - (s.buf.newcnt + s.buf.rawnew)) (chunk + 1)) ≠ [] := by
          rw [ne_eq, List.take_eq_nil_iff]
          rintro (hz | hz)
          · omega
          · exact hempty hz
        rw [if_neg hsome]
        refine ⟨min (min (sizeRawBuf - (s.buf.newcnt + s.buf.rawnew)) (chunk + 1)) queue.length,
          ?_, min_le_right _ _, ?_⟩
        · simp only [← List.take_take, List.take_length]
        · intro hchunk hroom
          omega
  | succ n ih =>
    obtain ⟨k, hstream, hle, hall⟩ := ih
    rw [List.replicate_succ, List.cons_append]
    simp only [servReadPtm]
    split
    · refine ⟨0, by rw [List.take_zero, List.append_nil], Nat.zero_le _, ?_⟩
      intro _ hroom
      omega
    · exact ⟨k, hstream, hle, hall⟩

theorem servReadPtm_counted (rs : List PtmRead) (s : Server) :
    (servReadPtm rs s).cloexitCount = s.cloexitCount := by
  induction rs with
  | nil => rfl
  | cons r rs ih =>
    simp only [servReadPtm]
    split
    · rfl
    · cases r with
      | data bs =>
        simp only
        split <;> rfl
      | eintr => exact ih
      | eof | eagain | error => rfl

/-! ## One step -/

/-- What has been written is what has been read and what is still in the queue. -/
def Accounted (t : Terminal) : Prop := t.server.hist.stream ++ t.queue = t.written

/-- What has to hold at a point of control once the death of the child was seen. -/
def caughtUp (empty : Prop) : Pc → Prop
  | .nowait | .zombie | .limits | .select => True
  | .exited | .aborted | .crashed => True
  | .accept fds | .readPtm fds => empty ∨ fds.ptm = true
  | .waitPts | .setNonblock | .installHandler => False
  | _ => empty

structure Draining (t : Terminal) : Prop where
  accounted : Accounted t
  caught : 0 < t.server.cloexitCount → t.server.ptmOpen = true →
    caughtUp (t.queue = []) t.server.pc

theorem Draining.closes {t : Terminal} (h : Draining t) (hc : Closes t) :
    t.server.hist.stream = t.written := by
  obtain ⟨hpc, hopen, hclosed⟩ := hc
  have hcount : 0 < t.server.cloexitCount := by
    by_contra hzero
    have hzero : t.server.cloexitCount = 0 := by omega
    unfold loopHead at hclosed
    split at hclosed
    · rw [hopen] at hclosed
      cases hclosed
    · split at hclosed
      · simp [hzero] at hclosed
      · rw [hopen] at hclosed
        cases hclosed
  have hempty := h.caught hcount hopen
  rw [hpc] at hempty
  rw [← h.accounted, show t.queue = [] from hempty, List.append_nil]

/-- A step that reads nothing. -/
theorem serve_idle (t : Terminal) (s : Server) (h : s.hist.stream = t.server.hist.stream) :
    t.serve s = { t with server := s } := by
  unfold Terminal.serve
  rw [h, Nat.sub_self, List.drop_zero]

theorem Accounted.idle {t : Terminal} (h : Accounted t) {s : Server}
    (hs : s.hist.stream = t.server.hist.stream) : Accounted { t with server := s } := by
  unfold Accounted
  rw [hs]
  exact h

/-- The read of an iteration. -/
theorem Draining.read {t : Terminal} (h : Draining t) (host : Host) (sys : Sys) (r : PtyRead)
    (hok : Drains t (.tick sys r)) {fds : ReadFds} (hpc : t.server.pc = .readPtm fds) :
    Draining (ptyStep host (.tick sys r) t) := by
  have hstep : ptyStep host (.tick sys r) t =
      t.serve (loopReadPtm { sys with ptm := ptmAnswers t.queue r } fds t.server) := by
    simp only [ptyStep, servStep, tick, hpc]
  rw [hstep, loopReadPtm]
  by_cases hread : t.server.ptmOpen ∧ fds.ptm
  · obtain ⟨k, hstream, hk, hall⟩ := servReadPtm_queue t.queue r t.server
    have hlen : (servReadPtm (ptmAnswers t.queue r) t.server).hist.stream.length -
        t.server.hist.stream.length = k := by
      rw [hstream, List.length_append, List.length_take]
      omega
    simp only [if_pos hread, Terminal.serve, hlen]
    refine ⟨?_, ?_⟩
    · unfold Accounted
      simp only
      rw [hstream, List.append_assoc, List.take_append_drop]
      exact h.accounted
    · intro hcount _
      simp only [servReadPtm_counted] at hcount
      obtain hzero | hclosed | hdrain := hok
      · omega
      · rw [hread.1] at hclosed
        cases hclosed
      · unfold DrainsAt at hdrain
        rw [hpc] at hdrain
        obtain hempty | ⟨hchunk, hroom⟩ := hdrain
        · change t.queue.drop k = []
          rw [hempty, List.drop_nil]
        · change t.queue.drop k = []
          rw [hall hchunk hroom, List.drop_length]
  · simp only [if_neg hread]
    rw [serve_idle t { t.server with pc := .nonblock fds } rfl]
    refine ⟨h.accounted.idle rfl, ?_⟩
    intro hcount hopen
    have hcaught := h.caught hcount hopen
    rw [hpc] at hcaught
    obtain hempty | hptm := hcaught
    · exact hempty
    · exact absurd ⟨hopen, hptm⟩ hread

/-- Where control can go from a point at which everything is caught up. -/
theorem caughtUp_goes {empty : Prop} {p q : Pc} (h : caughtUp empty p) (hg : Pc.goes p q)
    (hhead : p ≠ .head) (hselect : p ≠ .select) (haccept : ∀ fds, p ≠ .accept fds)
    (hread : ∀ fds, p ≠ .readPtm fds) : caughtUp empty q := by
  cases p with
  | head => exact absurd rfl hhead
  | select => exact absurd rfl hselect
  | accept fds => exact absurd rfl (haccept fds)
  | waitPts | setNonblock | installHandler => exact h.elim
  | nowait | zombie | limits =>
    obtain rfl | rfl := hg
    · trivial
    · trivial
  | readPtm fds => exact absurd rfl (hread fds)
  | nonblock fds =>
    obtain rfl := hg
    exact h
  | recv | pass | copy =>
    obtain rfl | rfl | rfl := hg
    all_goals first | exact h | trivial
  | expect | ending =>
    obtain rfl | rfl := hg
    · exact h
    · exact h
  | drop =>
    obtain rfl := hg
    exact h
  | exited | aborted | crashed =>
    obtain rfl := hg
    trivial

/-- The iteration goes on behind `select` with the pty reported, or it is caught up. -/
theorem caughtUp_select {t : Terminal} (host : Host) (sys : Sys) (r : PtyRead)
    (hdrain : TickDrains t sys r .select) (hpc : t.server.pc = .select)
    (hopen : t.server.ptmOpen = true) :
    caughtUp (t.queue = [])
      (tick host { sys with ptm := ptmAnswers t.queue r } t.server).pc := by
  simp only [tick, hpc, loopSelect]
  obtain hempty | herror | ⟨hreport, hroom⟩ := hdrain
  · split
    · exact hempty
    · trivial
    · exact .inl hempty
  · rw [herror]
    trivial
  · cases hsel : sys.select with
    | eintr | error =>
      rw [hsel] at hreport
      cases hreport
    | ready fds =>
    rw [hsel] at hreport
    have hptm : fds.ptm = true := hreport
    right
    simp only [hptm, hopen, Bool.true_and]
    obtain hroom | hnb := hroom
    · rw [decide_eq_true hroom, Bool.true_or]
    · rw [hnb, Bool.or_true]

theorem caughtUp_accept {t : Terminal} (host : Host) (sys : Sys) (r : PtyRead) {fds : ReadFds}
    (hdrain : TickDrains t sys r (.accept fds)) (hpc : t.server.pc = .accept fds)
    (hcaught : caughtUp (t.queue = []) (.accept fds)) :
    caughtUp (t.queue = [])
      (tick host { sys with ptm := ptmAnswers t.queue r } t.server).pc := by
  simp only [tick, hpc, loopAccept]
  split
  · rename_i hlisten
    split
    · rename_i heintr
      obtain hempty | hnot | hnot := hdrain
      · exact hempty
      · rw [hlisten] at hnot
        cases hnot
      · exact absurd heintr hnot
    · trivial
    · exact hcaught
  · exact hcaught

theorem Draining.tick {t : Terminal} (h : Draining t) (host : Host) (sys : Sys) (r : PtyRead)
    (hok : Drains t (.tick sys r)) : Draining (ptyStep host (.tick sys r) t) := by
  by_cases hread : ∃ fds, t.server.pc = .readPtm fds
  · obtain ⟨fds, hpc⟩ := hread
    exact h.read host sys r hok hpc
  have hread : ∀ fds, t.server.pc ≠ .readPtm fds := fun fds hpc => hread ⟨fds, hpc⟩
  have hgoes := tick_goes host { sys with ptm := ptmAnswers t.queue r } t.server
  simp only [ptyStep, servStep]
  by_cases hhead : t.server.pc = .head
  · have hstep : Source.tick host { sys with ptm := ptmAnswers t.queue r } t.server =
        loopHead t.server := by
      simp only [Source.tick, hhead]
    rw [hstep, hhead] at hgoes
    rw [hstep, serve_idle _ _ (loopHead_stream t.server)]
    refine ⟨h.accounted.idle (loopHead_stream t.server), ?_⟩
    intro _ _
    obtain hpc | hpc := hgoes
    · rw [show ({ t with server := loopHead t.server } : Terminal).server.pc = .nowait from hpc]
      trivial
    · rw [show ({ t with server := loopHead t.server } : Terminal).server.pc = .exited from hpc]
      trivial
  obtain ⟨hsame, hopens⟩ :=
    drained_tick host { sys with ptm := ptmAnswers t.queue r } t.server hhead hread
  obtain ⟨-, hrest⟩ := Prod.mk.inj hsame
  obtain ⟨hcounts, hstream⟩ := Prod.mk.inj hrest
  rw [serve_idle _ _ hstream]
  refine ⟨h.accounted.idle hstream, ?_⟩
  intro hcount hopen
  simp only [hcounts] at hcount
  have hopen := hopens hopen
  have hcaught := h.caught hcount hopen
  have hdrain : TickDrains t sys r t.server.pc := by
    obtain hzero | hclosed | hdrain := hok
    · omega
    · rw [hopen] at hclosed
      cases hclosed
    · exact hdrain
  by_cases hselect : t.server.pc = .select
  · rw [hselect] at hdrain
    exact caughtUp_select host sys r hdrain hselect hopen
  by_cases haccept : ∃ fds, t.server.pc = .accept fds
  · obtain ⟨fds, hpc⟩ := haccept
    rw [hpc] at hdrain hcaught
    exact caughtUp_accept host sys r hdrain hpc hcaught
  · exact caughtUp_goes hcaught hgoes hhead hselect (fun fds hpc => haccept ⟨fds, hpc⟩) hread

theorem Draining.write {t : Terminal} (h : Draining t) (bs : Bytes) (hok : Drains t (.write bs)) :
    Draining (t.write bs) := by
  unfold Terminal.write
  split
  · rename_i hrunning
    refine ⟨?_, ?_⟩
    · unfold Accounted
      simp only
      rw [← List.append_assoc, h.accounted]
    · intro hcount hopen
      have hcaught := h.caught hcount hopen
      have hlate : bs = [] ∨ stillRead t.server.pc = true := by
        obtain hzero | hclosed | hdrain := hok
        · have hcount : 0 < t.server.cloexitCount := hcount
          omega
        · rw [show t.server.ptmOpen = true from hopen] at hclosed
          cases hclosed
        · obtain hnil | hnot | hread := hdrain
          · exact .inl hnil
          · exact absurd hrunning hnot
          · exact .inr hread
      obtain rfl | hread := hlate
      · simpa only [List.append_nil] using hcaught
      · simp only
        cases hpc : t.server.pc <;> rw [hpc] at hread
        all_goals first | trivial | exact .inr hread
  · exact h

theorem Draining.step {t : Terminal} (h : Draining t) (host : Host) (e : PtyEvent)
    (hok : Drains t e) : Draining (ptyStep host e t) := by
  cases e with
  | tick sys r => exact h.tick host sys r hok
  | write bs => exact h.write bs hok
  | child e =>
    have hframe : ∃ child pending, childChange e t.server =
        { t.server with child := child, pending := pending } := by
      unfold childChange
      split
      · exact ⟨t.server.child, t.server.pending, rfl⟩
      · exact ⟨_, _, rfl⟩
    obtain ⟨child, pending, hframe⟩ := hframe
    simp only [ptyStep, servStep]
    rw [hframe, serve_idle t { t.server with child := child, pending := pending } rfl]
    exact ⟨h.accounted, h.caught⟩
  | sigCHLD =>
    have hframe : ∃ pending flag, servSigCHLD t.server =
        { t.server with pending := pending, sigChlded := flag } := by
      unfold servSigCHLD
      split
      · exact ⟨_, _, rfl⟩
      · exact ⟨t.server.pending, t.server.sigChlded, rfl⟩
    obtain ⟨pending, flag, hframe⟩ := hframe
    simp only [ptyStep, servStep]
    rw [hframe, serve_idle t { t.server with pending := pending, sigChlded := flag } rfl]
    exact ⟨h.accounted, h.caught⟩

/-- In every run whose steps meet `Drains`, at every point where the loop closes the
pty: all the child has written has been read into the raw buffer. -/
theorem cloexit_drains (host : Host) (s₀ : Server) (h₀ : Initial s₀) (t : Terminal)
    (h : Reaches (ptyStep host) Drains { server := s₀ } t) (hc : Closes t) :
    t.server.hist.stream = t.written := by
  have hstart : Draining { server := s₀ } := by
    obtain ⟨spawn, rawbuf, expbuf, -, -, rfl⟩ := h₀
    refine ⟨rfl, ?_⟩
    intro hcount _
    exact absurd hcount (Nat.lt_irrefl 0)
  exact (h.invariant Draining hstart fun t e ht hok => ht.step host e hok).closes hc

/-- A fresh server started with `-cloexit`. -/
def cloexitServer : Server :=
  servInit { cloexit := true } (List.replicate (sizeRawBuf + 1) 0)
    (List.replicate (sizeRawBuf + 1) 0)

theorem cloexitServer_initial : Initial cloexitServer :=
  ⟨_, _, _, List.length_replicate, List.length_replicate, rfl⟩

/-- The child writes two octets and terminates, and one iteration of the loop reads
at most `chunk + 1` of them. -/
def lastWords (chunk : Nat) : List PtyEvent :=
  List.replicate 3 (.tick {} {}) ++
    [.write (ascii "ab"), .child .terminate, .sigCHLD] ++
    List.replicate 11 (.tick { select := .ready { ptm := true } } { chunk := chunk })

theorem cloexit_drains_whole :
    Closes (runs (ptyStep plainHost) (lastWords 1) { server := cloexitServer }) ∧
      (runs (ptyStep plainHost) (lastWords 1) { server := cloexitServer }).server.hist.stream =
        (runs (ptyStep plainHost) (lastWords 1) { server := cloexitServer }).written := by
  have hadm : Admitted (ptyStep plainHost) Drains (lastWords 1) { server := cloexitServer } := by
    decide +kernel
  have hcloses : Closes (runs (ptyStep plainHost) (lastWords 1) { server := cloexitServer }) := by
    decide +kernel
  exact ⟨hcloses, cloexit_drains plainHost cloexitServer cloexitServer_initial _
    (Reaches.start.runs _ hadm) hcloses⟩

/-- A `read` that returns one octet of the two leaves the other behind. -/
theorem cloexit_discards :
    ∃ t, Reaches (ptyStep plainHost) (fun _ _ => True) { server := cloexitServer } t ∧
      Initial cloexitServer ∧ t.server.spawn.cloexit = true ∧ t.server.child = .terminated ∧
      Closes t ∧ t.written = ascii "ab" ∧ t.server.hist.stream = ascii "a" := by
  refine ⟨runs (ptyStep plainHost) (lastWords 0) { server := cloexitServer },
    Reaches.start.runs _ (admitted_true _ _), cloexitServer_initial, ?_⟩
  decide +kernel

end Sexpect.Guarantees
