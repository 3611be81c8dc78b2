import Sexpect.Guarantees.GetVisits

/-!
# Once around the loop

An iteration of `serv_loop` passes its points of control in one order.  `Pc.place` numbers them,
and `distance` counts how many lie in front of a point the loop has to come to; a stretch that does
not turn back at `select` lowers it (`nearer_limits`, `nearer_ending`).  `runs_descend` makes of
that a bound on the number of stretches.
-/
namespace Sexpect.Guarantees
open Sexpect.Lib Sexpect.Source

/-- The places of an iteration.  The three stretches in front of the loop end where its last one
does. -/
def Pc.place : Pc → Nat
  | .head => 0
  | .nowait => 1
  | .zombie => 2
  | .limits => 3
  | .select => 4
  | .accept _ => 5
  | .readPtm _ => 6
  | .nonblock _ => 7
  | .recv _ => 8
  | .pass => 9
  | .copy => 10
  | .expect => 11
  | .ending => 12
  | .drop => 13
  | .waitPts => 11
  | .setNonblock => 12
  | .installHandler => 13
  | .exited | .aborted | .crashed => 0

/-- The stretches from a point of control to the place `goal`. -/
def distance (goal : Nat) (p : Pc) : Nat := (goal + 14 - Pc.place p) % 14

theorem distance_lt (goal : Nat) (p : Pc) : distance goal p < 14 := Nat.mod_lt _ (by decide)

/-- The server has not come to an end. -/
def Pc.going : Pc → Bool
  | .exited | .aborted | .crashed => false
  | _ => true

/-- The points of control in front of the loop. -/
def Pc.starting : Pc → Bool
  | .waitPts | .setNonblock | .installHandler => true
  | _ => false

theorem place_le (p : Pc) : Pc.place p ≤ 13 := by cases p <;> simp [Pc.place]

/-- A stretch that neither stays, ends the server nor turns back goes on to a later place, mostly
the next one, or to the top. -/
theorem goes_onward {p q : Pc} (h : Pc.goes p q) (hend : p ≠ .ending) (hq : Pc.going q = true)
    (hsel : p = .select → q ≠ .head) (hacc : ∀ fds, p = .accept fds → q ≠ .head) :
    Pc.place p < Pc.place q ∧ (Pc.place q = Pc.place p + 1 ∨ 9 ≤ Pc.place p) ∨
      Pc.place p = 13 ∧ Pc.place q = 0 := by
  cases p with
  | waitPts | setNonblock | head | nowait | zombie | limits =>
    obtain rfl | rfl := h
    · decide
    · cases hq
  | installHandler | drop =>
    obtain rfl := h
    decide
  | select =>
    obtain rfl | rfl | ⟨fds, rfl⟩ := h
    · exact absurd rfl (hsel rfl)
    · cases hq
    · simp [Pc.place]
  | accept fds =>
    obtain rfl | rfl | rfl := h
    · exact absurd rfl (hacc fds rfl)
    · cases hq
    · simp [Pc.place]
  | readPtm fds | nonblock fds =>
    obtain rfl := h
    simp [Pc.place]
  | recv fds =>
    obtain rfl | rfl | rfl := h
    · simp [Pc.place]
    · cases hq
    · cases hq
  | pass | copy =>
    obtain rfl | rfl | rfl := h
    · decide
    · decide
    · cases hq
  | expect => obtain rfl | rfl := h <;> decide
  | ending => exact absurd rfl hend
  | exited | aborted | crashed =>
    obtain rfl := h
    cases hq

/-- Without a request to serve, the way to the checks at the top of the loop. -/
theorem nearer_limits {p q : Pc} {goal : Nat} (h : Pc.goes p q) (hgoal : goal ≤ 3)
    (hp : Pc.place p ≠ goal) (hend : p ≠ .ending) (hq : Pc.going q = true)
    (hsel : p = .select → q ≠ .head) (hacc : ∀ fds, p = .accept fds → q ≠ .head) :
    distance goal q < distance goal p := by
  have honward := goes_onward h hend hq hsel hacc
  have hle := place_le q
  unfold distance
  omega

/-- The stretches in front of the loop are over for good. -/
theorem goes_started {p q : Pc} (h : Pc.goes p q) (hp : Pc.starting p = false) :
    Pc.starting q = false := by
  cases p with
  | waitPts | setNonblock | installHandler => cases hp
  | select => obtain rfl | rfl | ⟨fds, rfl⟩ := h <;> rfl
  | accept | recv | pass | copy => obtain rfl | rfl | rfl := h <;> rfl
  | head | nowait | zombie | limits | expect | ending => obtain rfl | rfl := h <;> rfl
  | readPtm | nonblock | drop | exited | aborted | crashed =>
    obtain rfl := h
    rfl

/-- With one, the way to the end of `serv_pass`. -/
theorem nearer_ending {p q : Pc} (h : Pc.goes p q) (hend : p ≠ .ending)
    (hstart : Pc.starting p = false) (hq : Pc.going q = true) (hsel : p = .select → q ≠ .head)
    (hacc : ∀ fds, p = .accept fds → q ≠ .head) (hdrop : q ≠ .drop) :
    distance 12 q < distance 12 p := by
  have honward := goes_onward h hend hq hsel hacc
  have hle := place_le q
  have hstarted := goes_started h hstart
  have hp : Pc.place p ≠ 12 := by cases p <;> simp_all [Pc.place, Pc.starting]
  have hlast : Pc.place q ≠ 13 := by cases q <;> simp_all [Pc.place, Pc.starting]
  unfold distance
  omega

/-- Besides a stretch, no step moves the server on in its loop or touches the connection. -/
theorem tick_or_aside (host : Host) (i : Input) (s : Server) :
    (∃ sys, i = .tick sys) ∨
      (servStep host i s).pc = s.pc ∧ (servStep host i s).conn = s.conn ∧
        (servStep host i s).waited = s.waited := by
  cases i with
  | tick sys => exact .inl ⟨sys, rfl⟩
  | child e =>
    obtain ⟨child, pending, hchild⟩ := childChange_frame e s
    right
    rw [servStep, hchild]
    exact ⟨rfl, rfl, rfl⟩
  | sigCHLD =>
    obtain ⟨pending, flag, hsig⟩ := servSigCHLD_frame s
    right
    rw [servStep, hsig]
    exact ⟨rfl, rfl, rfl⟩

/-- In front of the loop there is no client. -/
theorem reaches_unstarted (host : Host) {ok : Server → Input → Prop} {s₀ s : Server}
    (h₀ : Initial s₀) (h : Reaches (servStep host) ok s₀ s) :
    Pc.starting s.pc = true → s.conn.sock = false := by
  apply h.invariant fun s => Pc.starting s.pc = true → s.conn.sock = false
  · obtain ⟨spawn, rawbuf, expbuf, -, -, rfl⟩ := h₀
    exact fun _ => rfl
  · intro s i hs _ hstart
    rcases tick_or_aside host i s with ⟨sys, rfl⟩ | ⟨hpc, hconn, -⟩
    · have hbefore : Pc.starting s.pc = true := by
        by_contra hno
        rw [servStep, goes_started (tick_goes host sys s) (by simpa using hno)] at hstart
        cases hstart
      have hdeciding : deciding s.pc = true := by
        cases hpc : s.pc <;> rw [hpc] at hbefore <;> first | rfl | cases hbefore
      obtain ⟨pc, handler, ptmOpen, count, htick, -⟩ := tick_deciding host sys s hdeciding
      rw [servStep, htick]
      exact hs hbefore
    · rw [hpc] at hstart
      rw [hconn]
      exact hs hstart

/-! ## Waiting for the child -/

section

variable (host : Host) (sys : Sys) (sent : Bool) (m : Ttlv) (s : Server)

@[simp] theorem waited_servMsgSend : (servMsgSend sent m s).waited = s.waited := by
  obtain ⟨_, _, h, -, -⟩ := servMsgSend_frame sent m s
  rw [h]

@[simp] theorem waited_msgOut : (msgOut sent m s).waited = s.waited := by
  unfold msgOut
  split <;> rfl

@[simp] theorem waited_closeSock : (closeSock s).waited = s.waited := rfl

@[simp] theorem waited_stopPassing : (stopPassing s).waited = s.waited := rfl

theorem waited_dispatch : (dispatch host sys m s).waited = s.waited := by
  have hwrite : (writePtm sys m s).waited = s.waited := by
    unfold writePtm
    split <;> rfl
  apply dispatch_cases (motive := fun s' => s'.waited = s.waited)
  case hello =>
    intro _
    unfold servHello
    split
    · rfl
    · dsimp only
      split
      · rfl
      · split <;> simp
  case disconn =>
    intro _
    unfold servDisconn
    split <;> simp
  case pass =>
    intro _
    unfold processPass
    dsimp only
    split <;> rfl
  case winch =>
    intro _
    unfold processWinch
    split <;> rfl
  case abort => exact fun _ _ => rfl
  case other => rfl
  all_goals simp [hwrite]

theorem waited_sendOutput (psend : Nat) : (sendOutput sys psend s).waited = s.waited := by
  unfold sendOutput
  dsimp only
  split
  · split <;> exact waited_servMsgSend _ _ s
  · rfl

/-- Only the end of `serv_pass` waits for the child. -/
theorem waited_tick (hpc : s.pc ≠ .ending) : (tick host sys s).waited = s.waited := by
  by_cases hdeciding : deciding s.pc = true
  · obtain ⟨pc, handler, ptmOpen, count, htick, -⟩ := tick_deciding host sys s hdeciding
    rw [htick]
  unfold tick
  cases hpc' : s.pc with
  | waitPts | setNonblock | installHandler | head | nowait | zombie | limits | select =>
    exact absurd (by rw [hpc']; rfl) hdeciding
  | accept fds =>
    simp only [loopAccept]
    split
    · split
      · rfl
      · rfl
      · split <;> rfl
    · rfl
  | readPtm fds =>
    simp only [loopReadPtm]
    split
    · obtain ⟨_, _, _, -, hkept⟩ := servReadPtm_kept sys.ptm s
      rw [hkept]
    · rfl
  | nonblock fds =>
    simp only [loopNonblock]
    split <;> rfl
  | recv fds =>
    simp only [loopRecv, servProcessMsg]
    split
    · split
      · rfl
      · exact waited_dispatch host sys _ { s with pc := .pass }
    · rfl
  | pass =>
    simp only [servPassOutput]
    split
    · rfl
    · split
      · exact waited_sendOutput sys s _
      · split
        · rfl
        · exact waited_sendOutput sys { s with conn := { s.conn with lookback := 0 } } _
  | copy =>
    simp only [servPassCopy]
    split
    · split <;> rfl
    · split <;> rfl
  | expect =>
    simp only [servPassExpect]
    split
    · rename_i s' hmatch
      obtain ⟨expout, pos, -, rfl⟩ := servExpect_matched _ _ _ _ hmatch
      simp
    · rename_i s' hmiss
      obtain ⟨bugs, rfl⟩ := servExpect_failed _ _ _ _ hmiss
      rfl
  | ending => exact absurd hpc' hpc
  | drop | exited | aborted | crashed => rfl

end

end Sexpect.Guarantees
