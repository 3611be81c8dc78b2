import Sexpect.Guarantees.Visits

/-!
# What `serv_expect` sees

At every call of `serv_expect`, in every run, the string in the expect buffer is
the stream from the consumed mark on, or its last part when that is more than
`MAX_OLD_DATA` octets, without zero octets.
-/
namespace Sexpect.Guarantees
open Sexpect.Lib Sexpect.Source

/-- The mark never moves back. -/
theorem consumedMark_le {s : Server} {mark : Nat} (h : Windows s mark) (host : Host) (i : Input) :
    mark ≤ consumedMark host s mark i := by
  have hle : mark ≤ s.buf.ntotal := by
    obtain ⟨p, h1, h2, -, -⟩ := h.exp.window
    have := h.raw.copied
    omega
  cases i with
  | child e => exact le_rfl
  | sigCHLD => exact le_rfl
  | tick sys =>
    by_cases hpc : s.pc = .expect
    · rcases hexp : servExpect host (s.conn.pattern.getD []) s with ⟨matched, s'⟩
      cases matched with
      | true =>
        obtain ⟨-, whole, groups, hfound, -⟩ := (servExpect_eq_true_iff host _ s s').mp hexp
        rw [consumedMark_matched mark hpc hfound hexp]
        exact le_max_left _ _
      | false => rw [consumedMark_missed mark hpc (by rw [hexp])]
    · simp only [consumedMark]
      split
      · split
        · exact hle
        · exact le_rfl
      · exact absurd ‹_› hpc
      · split
        · exact hle
        · exact le_rfl
      · exact le_rfl

theorem reaches_marked (host : Host) {s₀ : Server} {sm : Server × Nat} (h₀ : Initial s₀)
    (h : Reaches (markedStep host) (fun _ _ => True) (s₀, 0) sm) : Windows sm.1 sm.2 := by
  apply h.invariant (fun sm => Windows sm.1 sm.2)
  · exact h₀.windows
  · intro sm i hw _
    exact hw.step host i

/-- A match in the text that `serv_expect` is shown is a stretch of the stream that begins behind
the mark and ends where the step puts the mark. -/
theorem matched_stretch {host : Host} {s s' : Server} {mark : Nat} (hw : Windows s mark) (sys : Sys)
    (hpc : s.pc = .expect) {whole : Nat × Nat} {groups : List (Option (Nat × Nat))}
    (hfound : found host.regex s.conn.expflags (s.conn.pattern.getD []) (cstring s.buf.expbuf) =
      some (whole, groups))
    (hexp : servExpect host (s.conn.pattern.getD []) s = (true, s')) :
    ∃ a, mark ≤ a ∧ a ≤ consumedMark host s mark (.tick sys) ∧
      cut (cstring s.buf.expbuf) whole =
        nonNul (segment s.hist.stream a (consumedMark host s mark (.tick sys))) := by
  obtain ⟨-, ht, hoff⟩ := hw.flow.ready hpc
  obtain ⟨p, hp1, hp2, -, hp4, hshown⟩ := hw.exp.shows hw.raw.read hoff
  have hoffsets := found_offsets hfound
  rw [consumedMark_matched mark hpc hfound hexp]
  rw [cstring_of_window hw.exp ht, hp4] at hoffsets ⊢
  obtain ⟨a, ha, hae, hcut⟩ := nonNul_stretch hoffsets.order hoffsets.bound
    (nonNul_drop_marked hp1 hshown whole.2)
  exact ⟨a, by omega, hae, hcut⟩

/-- The expect-window invariant.  A run is paired with its consumed mark `c`
(`consumedMark`); control is at the call of `serv_expect`, which a run with a
failed assertion never reaches again.  The buffer holds a terminated string of
`expcnt` octets without zeros: the stream from a position `p` to its end, where
`p` is neither before the mark nor behind both the mark and the last
`MAX_OLD_DATA` octets.  When the call finds its pattern there, the match is a stretch of the
stream from behind the mark to where the step puts it.  No step moves the mark back, so no octet
is matched twice or out of order. -/
theorem expect_window (host : Host) (s₀ s : Server) (c : Nat) (h₀ : Initial s₀)
    (hrun : Reaches (markedStep host) (fun _ _ => True) (s₀, 0) (s, c)) (hpc : s.pc = .expect) :
    (cstring s.buf.expbuf).length = s.buf.expcnt ∧
      s.buf.expbuf[s.buf.expcnt]? = some 0 ∧
      (0 : UInt8) ∉ cstring s.buf.expbuf ∧
      s.buf.ntotal = s.hist.stream.length ∧
      (∃ p, c ≤ p ∧ p ≤ s.buf.ntotal ∧ p ≤ max c (s.buf.ntotal - maxOldData) ∧
        cstring s.buf.expbuf = nonNul (segment s.hist.stream p s.buf.ntotal)) ∧
      (∀ sys s' whole groups, servExpect host (s.conn.pattern.getD []) s = (true, s') →
        found host.regex s.conn.expflags (s.conn.pattern.getD []) (cstring s.buf.expbuf) =
          some (whole, groups) →
        ∃ a, c ≤ a ∧ a ≤ consumedMark host s c (.tick sys) ∧
          cut (cstring s.buf.expbuf) whole =
            nonNul (segment s.hist.stream a (consumedMark host s c (.tick sys)))) ∧
      ∀ i, c ≤ consumedMark host s c i := by
  have hw : Windows s c := reaches_marked host h₀ hrun
  obtain ⟨-, ht, hoff⟩ := hw.flow.ready hpc
  have hcs := cstring_of_window hw.exp ht
  obtain ⟨p, hp1, hp2, hp3, hp4, hshown⟩ := hw.exp.shows hw.raw.read hoff
  have hread := hw.raw.read
  refine ⟨?_, ht, zero_not_mem_cstring _, hread, ⟨p, hp1, ?_, ?_, ?_⟩, ?_, consumedMark_le hw host⟩
  · rw [hcs, hp4, hshown]
  · rw [hread]
    exact hp2
  · rw [hread]
    exact hp3
  · rw [hcs, hp4, hread, segment_to_end]
  · exact fun sys s' whole groups hexp hfound => matched_stretch hw sys hpc hfound hexp

/-- `gin` is found in the prompt, and the mark is put behind it. -/
theorem expect_window_prompt :
    ∃ p a, (runs (markedStep plainHost) promptInputs (freshServer, 0)).2 ≤ p ∧
      cstring (runs (markedStep plainHost) promptInputs (freshServer, 0)).1.buf.expbuf =
        nonNul (segment (ascii "login: ") p 7) ∧
      ascii "gin" = nonNul (segment (ascii "login: ") a 5) := by
  have hrun : Reaches (markedStep plainHost) (fun _ _ => True) (freshServer, 0)
      (runs (markedStep plainHost) promptInputs (freshServer, 0)) :=
    Reaches.start.runs _ (admitted_true _ _)
  have hpc : (runs (markedStep plainHost) promptInputs (freshServer, 0)).1.pc = .expect := by
    decide +kernel
  have hstream : (runs (markedStep plainHost) promptInputs (freshServer, 0)).1.hist.stream =
      ascii "login: " := by decide +kernel
  have htotal : (runs (markedStep plainHost) promptInputs (freshServer, 0)).1.buf.ntotal = 7 := by
    decide +kernel
  have hfound : found plainHost.regex
      (runs (markedStep plainHost) promptInputs (freshServer, 0)).1.conn.expflags
      ((runs (markedStep plainHost) promptInputs (freshServer, 0)).1.conn.pattern.getD [])
      (cstring (runs (markedStep plainHost) promptInputs (freshServer, 0)).1.buf.expbuf) =
        some ((2, 5), List.replicate 9 none) := by
    decide +kernel
  have hmatched : (servExpect plainHost
      ((runs (markedStep plainHost) promptInputs (freshServer, 0)).1.conn.pattern.getD [])
      (runs (markedStep plainHost) promptInputs (freshServer, 0)).1).1 = true := by
    decide +kernel
  have hmark : consumedMark plainHost (runs (markedStep plainHost) promptInputs (freshServer, 0)).1
      (runs (markedStep plainHost) promptInputs (freshServer, 0)).2 (.tick {}) = 5 := by
    decide +kernel
  have hcut : cut (cstring (runs (markedStep plainHost) promptInputs (freshServer, 0)).1.buf.expbuf)
      (2, 5) = ascii "gin" := by
    decide +kernel
  generalize runs (markedStep plainHost) promptInputs (freshServer, 0) = sm at *
  obtain ⟨-, -, -, -, ⟨p, hp, -, -, hwin⟩, hstretch, -⟩ :=
    expect_window plainHost freshServer sm.1 sm.2 freshServer_initial hrun hpc
  obtain ⟨a, -, -, ha⟩ := hstretch {} _ _ _ (Prod.ext hmatched rfl) hfound
  rw [hstream, htotal] at hwin
  rw [hcut, hmark, hstream] at ha
  exact ⟨p, a, hp, hwin, ha⟩

end Sexpect.Guarantees
