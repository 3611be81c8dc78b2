import Sexpect.Guarantees.Control
import Sexpect.Guarantees.Requests
import Sexpect.Source.Session

/-!
# What requests change

The settings of the server and the octets it has typed are changed by nothing but a request:
`SET` writes the settings, `SEND` and `INPUT` type.
-/
namespace Sexpect.Guarantees
open Sexpect.Lib Sexpect.Source

/-- The settings and what was typed. -/
def Server.told (s : Server) : Spawn × Bytes := (s.spawn, s.hist.typed)

/-- The requests with octets to type. -/
def isTyping (m : Ttlv) : Bool := decide (m.tag = Tag.send) || decide (m.tag = Tag.input)

/-- The octets of a message that reach the pty. -/
def typedBy (sys : Sys) (m : Ttlv) (s : Server) : Bytes :=
  if isTyping m && s.ptmOpen then m.vRaw.take sys.written else []

/-- The settings behind a message. -/
def settingsAfter (m : Ttlv) (spawn : Spawn) : Spawn :=
  if m.tag = Tag.set then processSet m spawn else spawn

section

variable (host : Host) (sys : Sys) (sent : Bool) (m : Ttlv) (s : Server)

@[simp] theorem told_servMsgSend : Server.told (servMsgSend sent m s) = Server.told s := by
  obtain ⟨_, _, h, -, htyped⟩ := servMsgSend_frame sent m s
  rw [h]
  simp only [Server.told, htyped]

@[simp] theorem told_msgOut : Server.told (msgOut sent m s) = Server.told s := by
  unfold msgOut
  split <;> rfl

@[simp] theorem told_closeSock : Server.told (closeSock s) = Server.told s := rfl

@[simp] theorem told_stopPassing : Server.told (stopPassing s) = Server.told s := rfl

theorem told_sendOutput (psend : Nat) : Server.told (sendOutput sys psend s) = Server.told s := by
  unfold sendOutput
  simp only
  split
  · split <;> exact told_servMsgSend _ _ s
  · rfl

theorem told_servReadPtm (rs : List PtmRead) : Server.told (servReadPtm rs s) = Server.told s := by
  induction rs with
  | nil => rfl
  | cons r rs ih =>
    unfold servReadPtm
    simp only
    split
    · rfl
    · cases r with
      | eintr => exact ih
      | data bs =>
        simp only
        split <;> rfl
      | eagain | eof | error => rfl

theorem told_servPassExpect : Server.told (servPassExpect host sys s) = Server.told s := by
  unfold servPassExpect
  split
  · rename_i s' hmatch
    obtain ⟨expout, pos, -, rfl⟩ := servExpect_matched _ _ _ _ hmatch
    rw [told_stopPassing, told_servMsgSend]
    rfl
  · rename_i s' hmiss
    obtain ⟨bugs, rfl⟩ := servExpect_failed _ _ _ _ hmiss
    rfl

theorem told_servPassEnd : Server.told (servPassEnd sys s) = Server.told s := by
  unfold servPassEnd
  split
  · split
    · rw [told_stopPassing, told_servMsgSend]
      rfl
    · split
      · split
        · split
          · rfl
          · rw [told_stopPassing, told_servMsgSend]
            rfl
        · rfl
      · rw [told_stopPassing, told_servMsgSend]
  · split
    · rw [told_stopPassing, told_servMsgSend]
    · rfl

theorem told_servPassOutput : Server.told (servPassOutput sys s) = Server.told s := by
  unfold servPassOutput
  split
  · rfl
  · split
    · exact told_sendOutput sys s _
    · simp only
      split
      · rfl
      · exact told_sendOutput sys { s with conn := { s.conn with lookback := 0 } } _

theorem told_writePtm :
    Server.told (writePtm sys m s) =
      (s.spawn, s.hist.typed ++ if s.ptmOpen then m.vRaw.take sys.written else []) := by
  unfold writePtm
  cases s.ptmOpen <;> simp [Server.told]

/-- The other messages leave both alone. -/
theorem told_dispatch_other (hset : m.tag ≠ Tag.set) (hsend : m.tag ≠ Tag.send)
    (hinput : m.tag ≠ Tag.input) : Server.told (dispatch host sys m s) = Server.told s := by
  apply dispatch_cases (motive := fun s' => Server.told s' = Server.told s)
  case hello =>
    intro _
    unfold servHello
    split
    · rfl
    · simp only
      split
      · rfl
      · split <;> simp
  case disconn =>
    intro _
    unfold servDisconn
    split <;> simp
  case send => exact fun h => absurd h hsend
  case input => exact fun h => absurd h hinput
  case set => exact fun h => absurd h hset
  case pass =>
    intro _
    unfold processPass
    simp only
    split <;> rfl
  case winch =>
    intro _
    unfold processWinch
    split <;> rfl
  case close =>
    intro _
    rw [told_servMsgSend]
    rfl
  case abort => exact fun _ _ => rfl
  case info =>
    intro buf _ _
    rw [told_servMsgSend]
    rfl
  case other => rfl
  all_goals
    intro _
    simp

/-- A message writes the settings if it is a `SET`, and types if it has octets to type. -/
theorem told_dispatch : Server.told (dispatch host sys m s) =
    (settingsAfter m s.spawn, s.hist.typed ++ typedBy sys m s) := by
  by_cases hset : m.tag = Tag.set
  · have hquiet : isTyping m = false := by
      rw [isTyping, hset]
      rfl
    have hdispatch : dispatch host sys m s =
        servMsgSend sys.sent ack { s with spawn := processSet m s.spawn } := by
      unfold dispatch
      rw [hset]
      rfl
    rw [hdispatch, told_servMsgSend, settingsAfter, if_pos hset, typedBy, hquiet]
    simp [Server.told]
  rw [settingsAfter, if_neg hset]
  by_cases hsend : m.tag = Tag.send
  · have htyping : isTyping m = true := by
      rw [isTyping, hsend]
      rfl
    have hdispatch : dispatch host sys m s = servMsgSend sys.sent ack (writePtm sys m s) := by
      unfold dispatch
      rw [hsend]
      rfl
    rw [hdispatch, told_servMsgSend, told_writePtm, typedBy, htyping, Bool.true_and]
  by_cases hinput : m.tag = Tag.input
  · have htyping : isTyping m = true := by
      rw [isTyping, hinput]
      rfl
    rw [dispatch_input host sys m s hinput, told_writePtm, typedBy, htyping, Bool.true_and]
  · have hquiet : isTyping m = false := by simp [isTyping, hsend, hinput]
    rw [told_dispatch_other host sys m s hset hsend hinput, typedBy, hquiet]
    simp [Server.told]

/-- Away from a message the server changes neither. -/
theorem told_tick (hrecv : s.receives = false) : Server.told (tick host sys s) = Server.told s := by
  by_cases hdeciding : deciding s.pc = true
  · obtain ⟨pc, handler, ptmOpen, count, htick, -⟩ := tick_deciding host sys s hdeciding
    rw [htick]
    rfl
  unfold tick
  cases hpc : s.pc with
  | waitPts | setNonblock | installHandler | head | nowait | zombie | limits | select =>
    rw [hpc] at hdeciding
    exact absurd rfl hdeciding
  | accept fds =>
    simp only [loopAccept]
    split
    · split
      · rfl
      · rfl
      · split <;> rfl
    · rfl
  | readPtm fds =>
    simp only [loopReadPtm]
    split
    · exact told_servReadPtm s sys.ptm
    · rfl
  | nonblock fds =>
    simp only [loopNonblock]
    split <;> rfl
  | recv fds =>
    simp only [loopRecv]
    rw [if_neg]
    · rfl
    · rintro ⟨hsock, hready⟩
      simp [Server.receives, hpc, hsock, hready] at hrecv
  | pass => exact told_servPassOutput sys s
  | copy =>
    simp only [servPassCopy]
    split
    · split <;> rfl
    · split <;> rfl
  | expect => exact told_servPassExpect host sys s
  | ending => exact told_servPassEnd sys s
  | drop | exited | aborted | crashed => rfl

end

end Sexpect.Guarantees
