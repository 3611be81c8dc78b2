import Sexpect.Guarantees.Frames

/-!
# The points of control of `serv_loop`

`Pc.goes p q` says that one stretch of the source can lead from `p` to `q`
(`tick_goes`).  What the server knows about its pty, whether it is open, the
counter of `-cloexit` and the octets read, changes at three points only: at the
head of the loop, at the read and with a message (`pty_tick`, `pty_dispatch`).
-/
namespace Sexpect.Guarantees
open Sexpect.Lib Sexpect.Source

def Pc.goes : Pc → Pc → Prop
  | .waitPts, q => q = .setNonblock ∨ q = .exited
  | .setNonblock, q => q = .installHandler ∨ q = .exited
  | .installHandler, q => q = .head
  | .head, q => q = .nowait ∨ q = .exited
  | .nowait, q => q = .zombie ∨ q = .exited
  | .zombie, q => q = .limits ∨ q = .exited
  | .limits, q => q = .select ∨ q = .exited
  | .select, q => q = .head ∨ q = .exited ∨ ∃ fds, q = .accept fds
  | .accept fds, q => q = .head ∨ q = .exited ∨ q = .readPtm fds
  | .readPtm fds, q => q = .nonblock fds
  | .nonblock fds, q => q = .recv fds
  | .recv _, q => q = .pass ∨ q = .aborted ∨ q = .crashed
  | .pass, q => q = .drop ∨ q = .copy ∨ q = .crashed
  | .copy, q => q = .expect ∨ q = .ending ∨ q = .aborted
  | .expect, q => q = .drop ∨ q = .ending
  | .ending, q => q = .drop ∨ q = .ending
  | .drop, q => q = .head
  | .exited, q => q = .exited
  | .aborted, q => q = .aborted
  | .crashed, q => q = .crashed

theorem servPassOutput_goes (sys : Sys) (s : Server) : Pc.goes .pass (servPassOutput sys s).pc := by
  have hsend : ∀ psend (s : Server), Pc.goes .pass (sendOutput sys psend s).pc := by
    intro psend s
    unfold sendOutput
    simp only
    split
    · split
      · exact .inr (.inl rfl)
      · exact .inl rfl
    · exact .inr (.inl rfl)
  unfold servPassOutput
  split
  · exact .inl rfl
  · split
    · exact hsend _ s
    · simp only
      split
      · exact .inr (.inr rfl)
      · exact hsend _ _

theorem servPassEnd_goes (sys : Sys) (s : Server) (hpc : s.pc = .ending) :
    Pc.goes .ending (servPassEnd sys s).pc := by
  unfold servPassEnd
  split
  · split
    · exact .inl rfl
    · split
      · split
        · split
          · exact .inr hpc
          · exact .inl rfl
        · exact .inl rfl
      · exact .inl rfl
  · split <;> exact .inl rfl

theorem loopAccept_goes (sys : Sys) (fds : ReadFds) (s : Server) :
    Pc.goes (.accept fds) (loopAccept sys fds s).pc := by
  unfold loopAccept
  split
  · split
    · exact .inl rfl
    · exact .inr (.inl rfl)
    · exact .inr (.inr rfl)
  · exact .inr (.inr rfl)

theorem loopRecv_goes (host : Host) (sys : Sys) (fds : ReadFds) (s : Server) :
    Pc.goes (.recv fds) (loopRecv host sys fds s).pc := by
  unfold loopRecv
  simp only
  split
  · unfold servProcessMsg
    split
    · exact .inl rfl
    · rename_i m _
      obtain h | ⟨h, -⟩ | h := dispatch_pc host sys m { s with pc := .pass }
      · exact .inl h
      · exact .inr (.inl h)
      · exact .inr (.inr h)
  · exact .inl rfl

/-- Where a stretch of the source leads. -/
theorem tick_goes (host : Host) (sys : Sys) (s : Server) : Pc.goes s.pc (tick host sys s).pc := by
  unfold tick
  cases hpc : s.pc with
  | waitPts | setNonblock =>
    cases sys.ok
    · exact .inr rfl
    · exact .inl rfl
  | installHandler => exact rfl
  | head =>
    simp only [loopHead]
    split
    · exact .inr rfl
    · split <;> exact .inl rfl
  | nowait =>
    simp only [loopNowait]
    split
    · exact .inr rfl
    · exact .inl rfl
  | zombie =>
    simp only [loopZombie]
    split
    · exact .inr rfl
    · exact .inl rfl
  | limits =>
    simp only [loopLimits]
    split
    · exact .inr rfl
    · split
      · exact .inr rfl
      · exact .inl rfl
  | select =>
    simp only [loopSelect]
    split
    · exact .inl rfl
    · exact .inr (.inl rfl)
    · exact .inr (.inr ⟨_, rfl⟩)
  | accept fds => exact loopAccept_goes sys fds s
  | readPtm fds => exact rfl
  | nonblock fds =>
    simp only [loopNonblock]
    split <;> exact rfl
  | recv fds => exact loopRecv_goes host sys fds s
  | pass => exact servPassOutput_goes sys s
  | copy =>
    simp only [servPassCopy]
    split
    · split
      · exact .inr (.inr rfl)
      · exact .inl rfl
    · split <;> exact .inr (.inl rfl)
  | expect =>
    simp only [servPassExpect]
    split
    · exact .inl rfl
    · exact .inr rfl
  | ending => exact servPassEnd_goes sys s hpc
  | drop => exact rfl
  | exited | aborted | crashed => exact hpc

/-! ## The pty -/

/-- The option and the counter of `-cloexit`, and the octets read so far. -/
def Server.drained (s : Server) : Bool × Nat × Bytes :=
  (s.spawn.cloexit, s.cloexitCount, s.hist.stream)

/-- They and whether the pty is open. -/
def Server.pty (s : Server) : Bool × Bool × Nat × Bytes := (s.ptmOpen, Server.drained s)

section

variable (host : Host) (sys : Sys) (sent : Bool) (m : Ttlv) (s : Server)

@[simp] theorem pty_servMsgSend : Server.pty (servMsgSend sent m s) = Server.pty s := by
  obtain ⟨_, _, h, hstream, -⟩ := servMsgSend_frame sent m s
  rw [h]
  simp only [Server.pty, Server.drained, hstream]

@[simp] theorem pty_msgOut : Server.pty (msgOut sent m s) = Server.pty s := by
  unfold msgOut
  split <;> rfl

@[simp] theorem pty_closeSock : Server.pty (closeSock s) = Server.pty s := rfl

@[simp] theorem pty_stopPassing : Server.pty (stopPassing s) = Server.pty s := rfl

@[simp] theorem pty_writePtm : Server.pty (writePtm sys m s) = Server.pty s := by
  unfold writePtm
  split <;> rfl

theorem pty_sendOutput (psend : Nat) : Server.pty (sendOutput sys psend s) = Server.pty s := by
  unfold sendOutput
  simp only
  split
  · split <;> exact pty_servMsgSend _ _ s
  · rfl

theorem pty_servPassExpect : Server.pty (servPassExpect host sys s) = Server.pty s := by
  unfold servPassExpect
  split
  · rename_i s' hmatch
    obtain ⟨expout, pos, -, rfl⟩ := servExpect_matched _ _ _ _ hmatch
    rw [pty_stopPassing, pty_servMsgSend]
    rfl
  · rename_i s' hmiss
    obtain ⟨bugs, rfl⟩ := servExpect_failed _ _ _ _ hmiss
    rfl

theorem pty_servPassEnd : Server.pty (servPassEnd sys s) = Server.pty s := by
  unfold servPassEnd
  split
  · split
    · rw [pty_stopPassing, pty_servMsgSend]
      rfl
    · split
      · split
        · split
          · rfl
          · rw [pty_stopPassing, pty_servMsgSend]
            rfl
        · rfl
      · rw [pty_stopPassing, pty_servMsgSend]
  · split
    · rw [pty_stopPassing, pty_servMsgSend]
    · rfl

theorem pty_servPassOutput : Server.pty (servPassOutput sys s) = Server.pty s := by
  unfold servPassOutput
  split
  · rfl
  · split
    · exact pty_sendOutput sys s _
    · simp only
      split
      · rfl
      · exact pty_sendOutput sys { s with conn := { s.conn with lookback := 0 } } _

/-- A message closes the pty or leaves it alone. -/
theorem pty_dispatch : Server.drained (dispatch host sys m s) = Server.drained s ∧
    ((dispatch host sys m s).ptmOpen = true → s.ptmOpen = true) := by
  have hsame : ∀ s', Server.pty s' = Server.pty s → Server.drained s' = Server.drained s ∧
      (s'.ptmOpen = true → s.ptmOpen = true) := by
    intro s' h
    obtain ⟨hopen, hrest⟩ := Prod.mk.inj h
    rw [hopen]
    exact ⟨hrest, id⟩
  apply dispatch_cases (motive := fun s' => Server.drained s' = Server.drained s ∧
    (s'.ptmOpen = true → s.ptmOpen = true))
  case hello =>
    intro _
    apply hsame
    unfold servHello
    split
    · rfl
    · simp only
      split
      · rfl
      · split <;> simp
  case disconn =>
    intro _
    apply hsame
    unfold servDisconn
    split <;> simp
  case pass =>
    intro _
    apply hsame
    unfold processPass
    simp only
    split <;> rfl
  case winch =>
    intro _
    apply hsame
    unfold processWinch
    split <;> rfl
  case close =>
    intro _
    obtain ⟨hopen, hrest⟩ := Prod.mk.inj (pty_servMsgSend sys.sent ack { s with ptmOpen := false })
    refine ⟨hrest, ?_⟩
    rw [hopen]
    intro h
    cases h
  case set =>
    intro _
    apply hsame
    rw [pty_servMsgSend]
    rfl
  case abort => exact fun _ _ => hsame _ rfl
  case info =>
    intro buf _ _
    apply hsame
    rw [pty_servMsgSend]
    rfl
  case other => exact hsame s rfl
  all_goals
    intro _
    apply hsame
    simp

theorem pty_tick (hhead : s.pc ≠ .head) (hread : ∀ fds, s.pc ≠ .readPtm fds)
    (hrecv : ∀ fds, s.pc ≠ .recv fds) : Server.pty (tick host sys s) = Server.pty s := by
  by_cases hdeciding : deciding s.pc = true
  · obtain ⟨pc, handler, ptmOpen, count, htick, -, hsame, -⟩ := tick_deciding host sys s hdeciding
    obtain ⟨rfl, rfl⟩ := hsame hhead
    rw [htick]
    rfl
  unfold tick
  cases hpc : s.pc with
  | waitPts | setNonblock | installHandler | head | nowait | zombie | limits | select =>
    rw [hpc] at hdeciding
    exact absurd rfl hdeciding
  | accept fds =>
    simp only [loopAccept]
    split
    · split
      · rfl
      · rfl
      · split <;> rfl
    · rfl
  | readPtm fds => exact absurd hpc (hread fds)
  | nonblock fds =>
    simp only [loopNonblock]
    split <;> rfl
  | recv fds => exact absurd hpc (hrecv fds)
  | pass => exact pty_servPassOutput sys s
  | copy =>
    simp only [servPassCopy]
    split
    · split <;> rfl
    · split <;> rfl
  | expect => exact pty_servPassExpect host sys s
  | ending => exact pty_servPassEnd sys s
  | drop | exited | aborted | crashed => rfl

/-- Up to the read an iteration leaves the buffers alone. -/
theorem tick_early_buf (he : early s.pc = true) (hread : ∀ fds, s.pc ≠ .readPtm fds) :
    (tick host sys s).buf = s.buf := by
  cases hpc : s.pc with
  | waitPts | setNonblock | installHandler | head | nowait | zombie | limits | select =>
    obtain ⟨pc, handler, ptmOpen, count, htick, -⟩ := tick_deciding host sys s (by rw [hpc]; rfl)
    rw [htick]
  | accept fds =>
    simp only [tick, hpc, loopAccept]
    split
    · split
      · rfl
      · rfl
      · simp only
        split <;> rfl
    · rfl
  | readPtm fds => exact absurd hpc (hread fds)
  | nonblock | recv | pass | copy | expect | ending | drop | exited | aborted | crashed =>
    rw [hpc] at he
    cases he

theorem loopHead_stream : (loopHead s).hist.stream = s.hist.stream := by
  unfold loopHead
  split
  · rfl
  · split <;> rfl

/-- Apart from the head and the read, the counter and the stream stay as they are,
and a pty that is open was open before. -/
theorem drained_tick (hhead : s.pc ≠ .head) (hread : ∀ fds, s.pc ≠ .readPtm fds) :
    Server.drained (tick host sys s) = Server.drained s ∧
      ((tick host sys s).ptmOpen = true → s.ptmOpen = true) := by
  by_cases hrecv : ∃ fds, s.pc = .recv fds
  · obtain ⟨fds, hpc⟩ := hrecv
    simp only [tick, hpc, loopRecv]
    split
    · unfold servProcessMsg
      split
      · exact ⟨rfl, id⟩
      · rename_i m _
        exact pty_dispatch host sys m { s with pc := .pass }
    · exact ⟨rfl, id⟩
  · obtain ⟨hopen, hrest⟩ := Prod.mk.inj
      (pty_tick host sys s hhead hread fun fds h => hrecv ⟨fds, h⟩)
    rw [hopen]
    exact ⟨hrest, id⟩

end

end Sexpect.Guarantees
