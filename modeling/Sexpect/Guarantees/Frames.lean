import Sexpect.Guarantees.Requests
import Sexpect.Guarantees.ServerMoves

/-!
# What a step of the server leaves alone

The state of the child and the flag of its signal change outside the code of the
server; `expout` changes when a request brings a pattern and when one is found.
Everywhere else both are bystanders of a step (`aside_tick`).
-/
namespace Sexpect.Guarantees
open Sexpect.Lib Sexpect.Source

/-- The fields that the child and its signal decide. -/
def Server.signals (s : Server) : Child × Bool × Bool × Bool :=
  (s.child, s.handler, s.pending, s.sigChlded)

/-- They and the strings of the last match. -/
def Server.aside (s : Server) : (Child × Bool × Bool × Bool) × List (Option Bytes) :=
  (Server.signals s, s.expout)

/-- A `PASS` request the server takes up with a pattern of its own. -/
def CarriesPattern (m : Ttlv) : Prop :=
  m.tag = Tag.pass ∧ ttlvFindChild m Tag.passSubcmd ≠ .null ∧ ttlvFindChild m Tag.expFlags ≠ .null ∧
    ttlvFindChild m Tag.pattern ≠ .null

instance (m : Ttlv) : Decidable (CarriesPattern m) := by
  unfold CarriesPattern
  infer_instance

/-- A request that is carried out and brings no pattern has none. -/
theorem pattern_null {m : Ttlv} (h : ¬ CarriesPattern m) (htag : m.tag = Tag.pass)
    (hchildren : ¬ (ttlvFindChild m Tag.passSubcmd = .null ∨ ttlvFindChild m Tag.expFlags = .null)) :
    ttlvFindChild m Tag.pattern = .null := by
  by_contra hsome
  rw [not_or] at hchildren
  exact h ⟨htag, hchildren.1, hchildren.2, hsome⟩

section

variable (host : Host) (sys : Sys) (sent : Bool) (m : Ttlv) (s : Server)

@[simp] theorem aside_servMsgSend : Server.aside (servMsgSend sent m s) = Server.aside s := by
  obtain ⟨_, _, h, -, -⟩ := servMsgSend_frame sent m s
  rw [h]
  rfl

@[simp] theorem aside_msgOut : Server.aside (msgOut sent m s) = Server.aside s := by
  unfold msgOut
  split <;> rfl

@[simp] theorem aside_closeSock : Server.aside (closeSock s) = Server.aside s := rfl

@[simp] theorem aside_stopPassing : Server.aside (stopPassing s) = Server.aside s := rfl

@[simp] theorem aside_writePtm : Server.aside (writePtm sys m s) = Server.aside s := by
  unfold writePtm
  split <;> rfl

theorem aside_servReadPtm (rs : List PtmRead) :
    Server.aside (servReadPtm rs s) = Server.aside s := by
  induction rs with
  | nil => rfl
  | cons r rs ih =>
    unfold servReadPtm
    simp only
    split
    · rfl
    · cases r with
      | data bs =>
        simp only
        split <;> rfl
      | eintr => exact ih
      | eof | eagain | error => rfl

theorem aside_sendOutput (psend : Nat) : Server.aside (sendOutput sys psend s) = Server.aside s := by
  unfold sendOutput
  simp only
  split
  · split <;> exact aside_servMsgSend _ _ s
  · rfl

theorem aside_servPassEnd : Server.aside (servPassEnd sys s) = Server.aside s := by
  unfold servPassEnd
  split
  · split
    · rw [aside_stopPassing, aside_servMsgSend]
      rfl
    · split
      · split
        · split
          · rfl
          · rw [aside_stopPassing, aside_servMsgSend]
            rfl
        · rfl
      · rw [aside_stopPassing, aside_servMsgSend]
  · split
    · rw [aside_stopPassing, aside_servMsgSend]
    · rfl

theorem aside_tick (hinstall : s.pc ≠ .installHandler) (hrecv : ∀ fds, s.pc ≠ .recv fds)
    (hexpect : s.pc ≠ .expect) : Server.aside (tick host sys s) = Server.aside s := by
  by_cases hdeciding : deciding s.pc = true
  · obtain ⟨pc, handler, ptmOpen, count, htick, -, -, hsame⟩ := tick_deciding host sys s hdeciding
    rw [htick, hsame hinstall]
    rfl
  unfold tick
  cases hpc : s.pc with
  | waitPts | setNonblock | installHandler | head | nowait | zombie | limits | select =>
    rw [hpc] at hdeciding
    exact absurd rfl hdeciding
  | accept fds =>
    simp only [loopAccept]
    split
    · split
      · rfl
      · rfl
      · split <;> rfl
    · rfl
  | readPtm fds =>
    simp only [loopReadPtm]
    split
    · exact aside_servReadPtm s sys.ptm
    · rfl
  | nonblock fds =>
    simp only [loopNonblock]
    split <;> rfl
  | recv fds => exact absurd hpc (hrecv fds)
  | pass =>
    simp only [servPassOutput]
    split
    · rfl
    · split
      · exact aside_sendOutput sys s _
      · split
        · rfl
        · exact aside_sendOutput sys { s with conn := { s.conn with lookback := 0 } } _
  | copy =>
    simp only [servPassCopy]
    split
    · split <;> rfl
    · split <;> rfl
  | expect => exact absurd hpc hexpect
  | ending => exact aside_servPassEnd sys s
  | drop | exited | aborted | crashed => rfl

/-! ## Messages and matches -/

theorem processPass_clears (h : CarriesPattern m) :
    (processPass m s).expout = List.replicate expectOutNum none := by
  obtain ⟨-, hsub, hflags, hpattern⟩ := h
  simp [processPass, hsub, hflags, hpattern]

theorem signals_processPass : Server.signals (processPass m s) = Server.signals s := by
  unfold processPass
  simp only
  split <;> rfl

theorem aside_dispatch (h : ¬ CarriesPattern m) :
    Server.aside (dispatch host sys m s) = Server.aside s := by
  apply dispatch_cases (motive := fun s' => Server.aside s' = Server.aside s)
  case hello =>
    intro _
    unfold servHello
    split
    · rfl
    · simp only
      split
      · rfl
      · split <;> simp
  case disconn =>
    intro _
    unfold servDisconn
    split <;> simp
  case pass =>
    intro htag
    unfold processPass
    simp only
    split
    · rfl
    · rename_i hchildren
      exact Prod.ext rfl (if_pos (pattern_null h htag hchildren))
  case winch =>
    intro _
    unfold processWinch
    split <;> rfl
  case abort => exact fun _ _ => rfl
  all_goals simp
  all_goals intros
  all_goals rfl

/-- Messages other than `PASS` leave of the connection all but its socket. -/
theorem dispatch_conn (h : m.tag ≠ Tag.pass) :
    ∃ sock, (dispatch host sys m s).conn = { s.conn with sock := sock } := by
  have hsend : ∀ msg (t : Server), t.conn = s.conn →
      ∃ sock, (servMsgSend sys.sent msg t).conn = { s.conn with sock := sock } := by
    intro msg t ht
    obtain ⟨sock, hist, heq, -, -⟩ := servMsgSend_frame sys.sent msg t
    rw [heq, ht]
    exact ⟨sock, rfl⟩
  have hout : ∀ msg, ∃ sock, (msgOut sys.sent msg s).conn = { s.conn with sock := sock } := by
    intro msg
    unfold msgOut closeSock
    split
    · exact ⟨s.conn.sock, rfl⟩
    · exact ⟨false, rfl⟩
  have hclose : ∀ t : Server, (∃ sock, t.conn = { s.conn with sock := sock }) →
      ∃ sock, (closeSock t).conn = { s.conn with sock := sock } := by
    rintro t ⟨sock, ht⟩
    refine ⟨false, ?_⟩
    rw [closeSock, ht]
  have hwrite : (writePtm sys m s).conn = s.conn := by
    unfold writePtm
    split <;> rfl
  apply dispatch_cases (motive := fun s' => ∃ sock, s'.conn = { s.conn with sock := sock })
  case hello =>
    intro _
    unfold servHello
    split
    · exact ⟨s.conn.sock, rfl⟩
    · simp only
      split
      · exact hclose s ⟨s.conn.sock, rfl⟩
      · split
        · exact hclose _ (hsend _ s rfl)
        · exact hout _
  case disconn =>
    intro _
    unfold servDisconn
    split
    · exact ⟨s.conn.sock, rfl⟩
    · exact hclose _ (hout _)
  case send => exact fun _ => hsend _ _ hwrite
  case input => exact fun _ => ⟨s.conn.sock, hwrite⟩
  case pass => exact fun htag => absurd htag h
  case winch =>
    intro _
    unfold processWinch
    split <;> exact ⟨s.conn.sock, rfl⟩
  case abort => exact fun _ _ => ⟨s.conn.sock, rfl⟩
  case info => exact fun _ _ _ => hsend _ _ rfl
  case other => exact ⟨s.conn.sock, rfl⟩
  all_goals exact fun _ => hsend _ _ rfl

theorem signals_dispatch : Server.signals (dispatch host sys m s) = Server.signals s := by
  by_cases h : CarriesPattern m
  · rw [dispatch_pass host sys m s h.1]
    exact signals_processPass m s
  · exact congrArg Prod.fst (aside_dispatch host sys m s h)

theorem signals_servPassExpect : Server.signals (servPassExpect host sys s) = Server.signals s := by
  have hsend : ∀ msg t, Server.signals (servMsgSend sys.sent msg t) = Server.signals t :=
    fun msg t => congrArg Prod.fst (aside_servMsgSend sys.sent msg t)
  unfold servPassExpect
  split
  · rename_i s' hexp
    obtain ⟨pos, expout, -, rfl⟩ := servExpect_matched _ _ _ _ hexp
    exact hsend _ _
  · rename_i s' hexp
    obtain ⟨bugs, rfl⟩ := servExpect_failed _ _ _ _ hexp
    rfl

/-- But for installing the handler, the code of the server itself leaves the
fields of the child alone. -/
theorem signals_tick (hpc : s.pc ≠ .installHandler) :
    Server.signals (tick host sys s) = Server.signals s := by
  by_cases hrecv : ∃ fds, s.pc = .recv fds
  · obtain ⟨fds, hrecv⟩ := hrecv
    simp only [tick, hrecv, loopRecv, servProcessMsg]
    split
    · split
      · rfl
      · exact signals_dispatch host sys _ { s with pc := .pass }
    · rfl
  · by_cases hexpect : s.pc = .expect
    · simp only [tick, hexpect]
      exact signals_servPassExpect host sys s
    · exact congrArg Prod.fst
        (aside_tick host sys s hpc (fun fds h => hrecv ⟨fds, h⟩) hexpect)

end

end Sexpect.Guarantees
