import Sexpect.Guarantees.Search
import Sexpect.Source.Server

/-!
# What `serv_expect` finds

`found` is the match of a pattern in a text, whichever of the two engines looks
for it, and `stored` is what `expout` holds behind it.  `serv_expect` succeeds
exactly when something is found, and then keeps what lies behind the match
(`servExpect_eq_true_iff`).
-/
namespace Sexpect.Guarantees
open Sexpect.Lib Sexpect.Source

/-- The octets between two offsets. -/
def cut (text : Bytes) (m : Nat × Nat) : Bytes := (text.drop m.1).take (m.2 - m.1)

theorem cut_append (text : Bytes) {m : Nat × Nat} (h : m.1 ≤ m.2) :
    text.take m.1 ++ cut text m ++ text.drop m.2 = text := by
  have hdrop : text.drop m.2 = (text.drop m.1).drop (m.2 - m.1) := by
    rw [List.drop_drop]
    congr 1
    omega
  rw [cut, hdrop, List.append_assoc, List.take_append_drop, List.take_append_drop]

/-- Where a request finds its pattern, with the offsets of the groups. -/
def found (regex : Regex) (expflags : Int) (pattern text : Bytes) :
    Option ((Nat × Nat) × List (Option (Nat × Nat))) :=
  if hasFlag expflags passExpectExact then
    (if hasFlag expflags passExpectIcase then strcasestr text pattern
      else strstr text pattern).map fun pos => ((pos, pos + pattern.length), List.replicate 9 none)
  else if hasFlag expflags passExpectGlob then none
  else if hasFlag expflags passExpectEre then
    regex.regexec pattern (hasFlag expflags passExpectIcase) (hasFlag expflags passExpectNewline) text
  else none

/-- `expout` behind a match: the exact search keeps the pattern, the other one
what it matched. -/
def stored (expflags : Int) (pattern text : Bytes) (expout : List (Option Bytes))
    (whole : Nat × Nat) (groups : List (Option (Nat × Nat))) : List (Option Bytes) :=
  if hasFlag expflags passExpectExact then some pattern :: List.replicate (expectOutNum - 1) none
  else if hasFlag expflags passExpectNosub then expout
  else (some whole :: groups).map (·.map (cut text))

theorem found_offsets {regex : Regex} {expflags : Int} {pattern text : Bytes} {whole : Nat × Nat}
    {groups : List (Option (Nat × Nat))}
    (h : found regex expflags pattern text = some (whole, groups)) :
    Offsets text whole groups := by
  unfold found at h
  split at h
  · obtain ⟨pos, hpos, heq⟩ := Option.map_eq_some_iff.mp h
    cases heq
    have hle : pos + pattern.length ≤ text.length := by
      split at hpos
      · have := strstr_le _ _ _ hpos
        simpa only [List.length_map] using this
      · exact strstr_le _ _ _ hpos
    refine ⟨Nat.le_add_right _ _, hle, List.length_replicate, ?_⟩
    intro so eo hmem
    cases List.eq_of_mem_replicate hmem
  · split at h
    · cases h
    · split at h
      · exact regex.offsets _ _ _ _ _ _ h
      · cases h

/-- A cut within the string does not depend on what follows it in memory. -/
theorem cut_cstring (buf : Bytes) {m : Nat × Nat} (h : m.2 ≤ (cstring buf).length) :
    cut (cstring buf) m = cut buf m := by
  obtain ⟨rest, hrest⟩ : cstring buf <+: buf := List.takeWhile_prefix _
  unfold cut
  conv_rhs => rw [← hrest]
  by_cases hle : m.1 ≤ m.2
  · rw [List.drop_append_of_le_length (by omega), List.take_append_of_le_length]
    rw [List.length_drop]
    omega
  · rw [show m.2 - m.1 = 0 by omega, List.take_zero, List.take_zero]

theorem keepAfter_text (b : Buffers) (pos : Nat) (h : pos ≤ (cstring b.expbuf).length) :
    cstring (keepAfter pos b).expbuf = (cstring b.expbuf).drop pos ∧
      (keepAfter pos b).expcnt = (cstring b.expbuf).length - pos := by
  have hrest := cstring_drop b.expbuf pos h
  constructor
  · simp only [keepAfter, hrest]
    have hfree : (0 : UInt8) ∉ (cstring b.expbuf).drop pos :=
      fun hz => zero_not_mem_cstring _ (List.mem_of_mem_drop hz)
    apply cstring_of_terminated _ _ hfree
    · simp [writeAt]
    · simp [writeAt]
  · simp only [keepAfter, hrest, List.length_drop]

section

variable (host : Host) (pattern : Bytes) (s : Server)

/-- `serv_expect` does not look at an empty buffer once the pty is closed. -/
def Searches (s : Server) : Prop := s.buf.expcnt ≠ 0 ∨ s.ptmOpen = true

/-- What `serv_expect` does with the match it finds. -/
theorem servExpect_of_found (hlook : Searches s) {whole : Nat × Nat}
    {groups : List (Option (Nat × Nat))}
    (h : found host.regex s.conn.expflags pattern (cstring s.buf.expbuf) = some (whole, groups)) :
    servExpect host pattern s =
      (true, { s with
        buf := keepAfter whole.2 s.buf
        expout := stored s.conn.expflags pattern (cstring s.buf.expbuf) s.expout whole groups }) := by
  have hoff := found_offsets h
  have hgo : ¬ (s.buf.expcnt = 0 ∧ ¬ s.ptmOpen = true) := by
    rintro ⟨hempty, hclosed⟩
    exact hlook.elim (fun hne => hne hempty) hclosed
  rw [servExpect, if_neg hgo]
  unfold found at h
  by_cases hexact : hasFlag s.conn.expflags passExpectExact = true
  · rw [if_pos hexact] at h ⊢
    obtain ⟨pos, hpos, heq⟩ := Option.map_eq_some_iff.mp h
    cases heq
    simp only [expectExact, hpos, stored, if_pos hexact]
  · rw [if_neg hexact] at h ⊢
    by_cases hglob : hasFlag s.conn.expflags passExpectGlob = true
    · rw [if_pos hglob] at h
      cases h
    · rw [if_neg hglob] at h ⊢
      by_cases here : hasFlag s.conn.expflags passExpectEre = true
      · rw [if_pos here] at h ⊢
        have hmap : (some whole :: groups).map (·.map (cut (cstring s.buf.expbuf))) =
            (some whole :: groups).map
              (·.map fun m => (s.buf.expbuf.drop m.1).take (m.2 - m.1)) := by
          apply List.map_congr_left
          intro o ho
          cases o with
          | none => rfl
          | some m =>
            have hm : m.2 ≤ (cstring s.buf.expbuf).length := by
              rcases List.mem_cons.mp ho with heq | hmem
              · cases heq
                exact hoff.bound
              · exact (hoff.inside m.1 m.2 hmem).2
            exact congrArg some (cut_cstring s.buf.expbuf hm)
        simp only [expectEre, h, stored, if_neg hexact, hmap]
      · rw [if_neg here] at h
        cases h

theorem servExpect_of_missed
    (h : ¬ Searches s ∨ found host.regex s.conn.expflags pattern (cstring s.buf.expbuf) = none) :
    (servExpect host pattern s).1 = false := by
  unfold servExpect
  split
  · rfl
  · rename_i hgo
    have hlook : Searches s := by
      by_cases hempty : s.buf.expcnt = 0
      · exact .inr (by simpa [hempty] using hgo)
      · exact .inl hempty
    replace h := h.resolve_left (not_not_intro hlook)
    unfold found at h
    by_cases hexact : hasFlag s.conn.expflags passExpectExact = true
    · rw [if_pos hexact] at h ⊢
      have hnone := Option.map_eq_none_iff.mp h
      simp only [expectExact, hnone]
    · rw [if_neg hexact] at h ⊢
      by_cases hglob : hasFlag s.conn.expflags passExpectGlob = true
      · rw [if_pos hglob]
      · rw [if_neg hglob] at h ⊢
        by_cases here : hasFlag s.conn.expflags passExpectEre = true
        · rw [if_pos here] at h ⊢
          simp only [expectEre, h]
        · rw [if_neg here]

theorem servExpect_eq_true_iff (s' : Server) :
    servExpect host pattern s = (true, s') ↔
      Searches s ∧ ∃ whole groups,
        found host.regex s.conn.expflags pattern (cstring s.buf.expbuf) = some (whole, groups) ∧
        s' = { s with
          buf := keepAfter whole.2 s.buf
          expout := stored s.conn.expflags pattern (cstring s.buf.expbuf) s.expout whole groups } := by
  constructor
  · intro h
    have hlook : Searches s := by
      by_contra hno
      have hmiss := servExpect_of_missed host pattern s (.inl hno)
      rw [h] at hmiss
      cases hmiss
    cases hfound : found host.regex s.conn.expflags pattern (cstring s.buf.expbuf) with
    | none =>
      have hmiss := servExpect_of_missed host pattern s (.inr hfound)
      rw [h] at hmiss
      cases hmiss
    | some m =>
      rw [servExpect_of_found host pattern s hlook hfound] at h
      exact ⟨hlook, m.1, m.2, rfl, (Prod.mk.inj h).2.symm⟩
  · rintro ⟨hlook, whole, groups, hfound, rfl⟩
    exact servExpect_of_found host pattern s hlook hfound

end

end Sexpect.Guarantees
