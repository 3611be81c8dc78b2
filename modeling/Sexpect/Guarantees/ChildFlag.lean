import Sexpect.Guarantees.Frames
import Sexpect.Guarantees.Visits

/-!
# The flag `is_CHLD_DEAD`

`serv_sigCHLD` (server.c:149-157) sets the flag for every `SIGCHLD`, whatever the
child did, and it is installed only behind the fork and the wait for the pts
(lines 1266-1325).  `childLog` records the child's changes of state, each with
whether the handler was there to catch its signal.  The flag says exactly that
one was caught (`Signals`), so it tells whether the child has terminated on the
runs that meet `ExitsCaught` and on no others.
-/
namespace Sexpect.Guarantees
open Sexpect.Lib Sexpect.Source

/-- A change of state of the child, and whether the handler was installed. -/
structure Change where
  event : ChildEvent
  caught : Bool
  deriving DecidableEq, Repr

/-- The changes of state behind an input. -/
def childLog (s : Server) (log : List Change) : Input → List Change
  | .child e => if (s.child.after e).isSome then log ++ [⟨e, s.handler⟩] else log
  | _ => log

/-- The server paired with the log of its child. -/
def loggedStep (host : Host) (i : Input) (sl : Server × List Change) : Server × List Change :=
  (servStep host i sl.1, childLog sl.1 sl.2 i)

/-- The child did not terminate before the handler was installed, and has
terminated if it was stopped or continued since. -/
def ExitsCaught (log : List Change) : Prop :=
  (∀ c ∈ log, c.event = .terminate → c.caught = true) ∧
    ((∃ c ∈ log, c.caught = true ∧ c.event ≠ .terminate) → ∃ c ∈ log, c.event = .terminate)

/-! ## The flag and the log -/

/-- What the child's state, the pending signal and the flag say about the log. -/
structure Signals (s : Server) (log : List Change) : Prop where
  ended : s.child = .terminated ↔ ∃ c ∈ log, c.event = .terminate
  raised : s.sigChlded = true ∨ s.pending = true ↔ ∃ c ∈ log, c.caught = true
  before : s.handler = false → ∀ c ∈ log, c.caught = false
  missed : (∃ c ∈ log, c.event = .terminate ∧ c.caught = false) → ∀ c ∈ log, c.caught = false

theorem Signals.of_signals {s s' : Server} {log : List Change} (h : Signals s log)
    (hsig : Server.signals s' = Server.signals s) : Signals s' log := by
  simp only [Server.signals, Prod.mk.injEq] at hsig
  obtain ⟨hchild, hhandler, hpending, hflag⟩ := hsig
  refine ⟨?_, ?_, ?_, h.missed⟩
  · rw [hchild]
    exact h.ended
  · rw [hpending, hflag]
    exact h.raised
  · rw [hhandler]
    exact h.before

theorem Signals.tick {s : Server} {log : List Change} (h : Signals s log) (host : Host) (sys : Sys) :
    Signals (tick host sys s) log := by
  by_cases hpc : s.pc = .installHandler
  · have ht : Source.tick host sys s = { s with handler := true, pc := .head } := by
      simp [Source.tick, hpc]
    rw [ht]
    refine ⟨h.ended, h.raised, fun hoff => ?_, h.missed⟩
    cases hoff
  · exact h.of_signals (signals_tick host sys s hpc)

/-- A terminated child changes no more. -/
theorem after_terminated (e : ChildEvent) : Child.after .terminated e = none := by
  cases e <;> rfl

theorem after_terminate_iff {child child' : Child} {e : ChildEvent}
    (h : child.after e = some child') : child' = .terminated ↔ e = .terminate := by
  cases child <;> cases e <;> cases h <;> simp

theorem Signals.childChange {s : Server} {log : List Change} (h : Signals s log) (e : ChildEvent) :
    Signals (childChange e s) (childLog s log (.child e)) := by
  unfold Source.childChange
  cases hafter : s.child.after e with
  | none =>
    have hlog : childLog s log (.child e) = log := by simp [childLog, hafter]
    rw [hlog]
    exact h
  | some child =>
    have hlog : childLog s log (.child e) = log ++ [⟨e, s.handler⟩] := by simp [childLog, hafter]
    have halive : s.child ≠ .terminated := by
      intro hdead
      rw [hdead, after_terminated] at hafter
      cases hafter
    have hnone : ¬ ∃ c ∈ log, c.event = .terminate := fun hex => halive (h.ended.mpr hex)
    rw [hlog]
    refine ⟨?_, ?_, ?_, ?_⟩
    · rw [after_terminate_iff hafter]
      constructor
      · intro he
        exact ⟨⟨e, s.handler⟩, by simp, he⟩
      · rintro ⟨c, hc, hterm⟩
        rcases List.mem_append.mp hc with hc | hc
        · exact absurd ⟨c, hc, hterm⟩ hnone
        · rw [List.mem_singleton.mp hc] at hterm
          exact hterm
    · have hr := h.raised
      constructor
      · intro hup
        by_cases hh : s.handler = true
        · exact ⟨⟨e, s.handler⟩, by simp, hh⟩
        · have hold : s.sigChlded = true ∨ s.pending = true := by simpa [hh] using hup
          obtain ⟨c, hc, hcaught⟩ := hr.mp hold
          exact ⟨c, by simp [hc], hcaught⟩
      · rintro ⟨c, hc, hcaught⟩
        rcases List.mem_append.mp hc with hc | hc
        · rcases hr.mpr ⟨c, hc, hcaught⟩ with hf | hp
          · exact .inl hf
          · exact .inr (by simp [hp])
        · rw [List.mem_singleton.mp hc] at hcaught
          have hh : s.handler = true := hcaught
          exact .inr (by simp [hh])
    · intro hoff c hc
      rcases List.mem_append.mp hc with hc | hc
      · exact h.before hoff c hc
      · rw [List.mem_singleton.mp hc]
        exact hoff
    · rintro ⟨c, hc, hterm, hmiss⟩
      have hoff : s.handler = false := by
        rcases List.mem_append.mp hc with hc | hc
        · exact absurd ⟨c, hc, hterm⟩ hnone
        · rw [List.mem_singleton.mp hc] at hmiss
          exact hmiss
      intro c' hc'
      rcases List.mem_append.mp hc' with hc' | hc'
      · exact h.before hoff c' hc'
      · rw [List.mem_singleton.mp hc']
        exact hoff

theorem Signals.servSigCHLD {s : Server} {log : List Change} (h : Signals s log) :
    Signals (servSigCHLD s) log := by
  unfold Source.servSigCHLD
  split
  · rename_i hp
    refine ⟨h.ended, ?_, h.before, h.missed⟩
    rw [← h.raised, hp]
    simp
  · exact h

theorem Signals.step {s : Server} {log : List Change} (h : Signals s log) (host : Host) (i : Input) :
    Signals (servStep host i s) (childLog s log i) := by
  cases i with
  | tick sys => exact h.tick host sys
  | child e => exact h.childChange e
  | sigCHLD => exact h.servSigCHLD

theorem Initial.signals {s : Server} (h : Initial s) : Signals s [] := by
  obtain ⟨spawn, rawbuf, expbuf, -, -, rfl⟩ := h
  constructor <;> simp [servInit]

theorem reaches_signals (host : Host) {s₀ : Server} {sl : Server × List Change} (h₀ : Initial s₀)
    (h : Reaches (loggedStep host) (fun _ _ => True) (s₀, []) sl) : Signals sl.1 sl.2 := by
  apply h.invariant (fun sl => Signals sl.1 sl.2)
  · exact h₀.signals
  · intro sl i hs _
    exact hs.step host i

/-- When the flag is exact.  In every state without a pending signal that is
reached by any order of steps of the server, changes of the child and deliveries
of its signal, at the head of the loop or elsewhere, the flag is set if and only
if the child has terminated, exactly when the changes so far meet `ExitsCaught`. -/
theorem child_dead_iff (host : Host) (s₀ s : Server) (log : List Change) (h₀ : Initial s₀)
    (hrun : Reaches (loggedStep host) (fun _ _ => True) (s₀, []) (s, log))
    (hquiet : s.pending = false) :
    (s.sigChlded = true ↔ s.child = .terminated) ↔ ExitsCaught log := by
  have hs : Signals s log := reaches_signals host h₀ hrun
  have hraised : s.sigChlded = true ↔ ∃ c ∈ log, c.caught = true := by
    rw [← hs.raised, hquiet]
    simp
  rw [hraised, hs.ended]
  constructor
  · intro hiff
    refine ⟨fun c hc hterm => ?_, ?_⟩
    · by_contra hmiss
      obtain ⟨c', hc', hcaught⟩ := hiff.mpr ⟨c, hc, hterm⟩
      have := hs.missed ⟨c, hc, hterm, by simpa using hmiss⟩ c' hc'
      rw [this] at hcaught
      cases hcaught
    · rintro ⟨c, hc, hcaught, -⟩
      exact hiff.mp ⟨c, hc, hcaught⟩
  · rintro ⟨hcatch, hstopped⟩
    constructor
    · rintro ⟨c, hc, hcaught⟩
      by_cases hterm : c.event = .terminate
      · exact ⟨c, hc, hterm⟩
      · exact hstopped ⟨c, hc, hcaught, hterm⟩
    · rintro ⟨c, hc, hterm⟩
      exact ⟨c, hc, hcatch c hc hterm⟩

/-- The child exits while the server waits for its client. -/
def exitInputs : List Input := ticks 3 {} ++ [.child .terminate, .sigCHLD]

theorem child_dead_iff_exit :
    (runs (loggedStep plainHost) exitInputs (freshServer, [])).1.sigChlded = true ↔
      (runs (loggedStep plainHost) exitInputs (freshServer, [])).1.child = .terminated := by
  have hrun : Reaches (loggedStep plainHost) (fun _ _ => True) (freshServer, [])
      (runs (loggedStep plainHost) exitInputs (freshServer, [])) :=
    Reaches.start.runs _ (admitted_true _ _)
  have hquiet : (runs (loggedStep plainHost) exitInputs (freshServer, [])).1.pending = false := by
    decide +kernel
  have hlog : (runs (loggedStep plainHost) exitInputs (freshServer, [])).2 =
      [⟨.terminate, true⟩] := by decide +kernel
  generalize runs (loggedStep plainHost) exitInputs (freshServer, []) = sl at *
  apply (child_dead_iff plainHost freshServer sl.1 sl.2 freshServer_initial hrun hquiet).mpr
  rw [hlog]
  simp [ExitsCaught]

/-- `kill -STOP`: the child is stopped and the handler runs. -/
def stopInputs : List Input := ticks 3 {} ++ [.child .stop, .sigCHLD]

/-- The child exits before the handler is installed. -/
def earlyExitInputs : List Input := ticks 2 {} ++ [.child .terminate] ++ ticks 1 {}

/-- A stopped child is taken for dead, and a child that died early for alive. -/
theorem stopped_child_dead :
    ((runs (servStep plainHost) stopInputs freshServer).pc = .head ∧
        (runs (servStep plainHost) stopInputs freshServer).pending = false ∧
        (runs (servStep plainHost) stopInputs freshServer).sigChlded = true ∧
        (runs (servStep plainHost) stopInputs freshServer).child = .stopped) ∧
      (runs (servStep plainHost) earlyExitInputs freshServer).pc = .head ∧
        (runs (servStep plainHost) earlyExitInputs freshServer).pending = false ∧
        (runs (servStep plainHost) earlyExitInputs freshServer).sigChlded = false ∧
        (runs (servStep plainHost) earlyExitInputs freshServer).child = .terminated := by
  decide +kernel

end Sexpect.Guarantees
