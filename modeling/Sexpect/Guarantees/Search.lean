import Sexpect.Source.Common

/-!
# What `strstr` finds
-/
namespace Sexpect.Guarantees
open Sexpect.Lib Sexpect.Source

theorem strstr_le (hay needle : Bytes) (pos : Nat) (h : strstr hay needle = some pos) :
    pos + needle.length ≤ hay.length := by
  induction hay generalizing pos with
  | nil =>
    simp only [strstr] at h
    split at h
    · rename_i hn
      cases h
      simp [hn]
    · cases h
  | cons b bs ih =>
    simp only [strstr] at h
    split at h
    · rename_i hpre
      cases h
      have := (List.isPrefixOf_iff_prefix.mp hpre).length_le
      omega
    · cases hrest : strstr bs needle with
      | none => rw [hrest] at h; cases h
      | some p =>
        rw [hrest] at h
        simp only [Option.map_some, Option.some.injEq] at h
        have := ih p hrest
        simp only [List.length_cons]
        omega

/-- The first occurrence, and no other. -/
theorem strstr_first (s needle : Bytes) :
    (∀ pos, strstr s needle = some pos →
        needle <+: s.drop pos ∧ ∀ so, needle <+: s.drop so → pos ≤ so) ∧
      (strstr s needle = none → ∀ so, ¬ needle <+: s.drop so) := by
  induction s with
  | nil =>
    by_cases hne : needle = []
    · subst hne
      simp [strstr]
    · simp [strstr, hne]
  | cons c s ih =>
    rw [strstr]
    split
    · rename_i hpre
      rw [List.isPrefixOf_iff_prefix] at hpre
      refine ⟨?_, fun h => by cases h⟩
      rintro pos ⟨⟩
      exact ⟨hpre, fun so _ => Nat.zero_le so⟩
    · rename_i hpre
      rw [List.isPrefixOf_iff_prefix] at hpre
      constructor
      · intro pos h
        obtain ⟨pos', hpos', rfl⟩ := Option.map_eq_some_iff.mp h
        obtain ⟨hat, hfirst⟩ := ih.1 pos' hpos'
        refine ⟨hat, fun so hso => ?_⟩
        cases so with
        | zero => exact absurd hso hpre
        | succ so => exact Nat.succ_le_succ (hfirst so hso)
      · intro h so hso
        cases so with
        | zero => exact hpre hso
        | succ so => exact ih.2 (by simpa using h) so hso

theorem strstr_isSome_iff (hay needle : Bytes) (hne : needle ≠ []) :
    (strstr hay needle).isSome = true ↔ needle <:+: hay := by
  induction hay with
  | nil => simp [strstr, hne]
  | cons c hay ih =>
    rw [List.infix_cons_iff, strstr]
    split
    · rename_i hpre
      simp [List.isPrefixOf_iff_prefix.mp hpre]
    · rename_i hpre
      rw [List.isPrefixOf_iff_prefix] at hpre
      simp [hpre, ih]

end Sexpect.Guarantees
