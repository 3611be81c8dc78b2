import Sexpect.Lib.Bytes

/-!
# Lines

A text cut behind every separator, its last lines, and the start of the line it
ends in.
-/
namespace Sexpect.Lib

/-- The lines of a text, each with its separator; the last one may be without. -/
def lines (sep : UInt8) : Bytes → List Bytes
  | [] => []
  | c :: cs =>
    if c = sep then [c] :: lines sep cs
    else
      match lines sep cs with
      | [] => [[c]]
      | l :: ls => (c :: l) :: ls

/-- The last `n` lines. -/
def tailLines (sep : UInt8) (n : Nat) (text : Bytes) : Bytes :=
  ((lines sep text).drop ((lines sep text).length - n)).flatten

/-- The offset behind the last separator, or zero. -/
def lineStart (sep : UInt8) (text : Bytes) : Nat :=
  text.length - (text.reverse.takeWhile (· ≠ sep)).length

section

variable (sep : UInt8)

theorem flatten_lines (text : Bytes) : (lines sep text).flatten = text := by
  induction text with
  | nil => rfl
  | cons c cs ih =>
    rw [lines]
    split
    · simp [ih]
    · split
      · rename_i hnil
        rw [hnil] at ih
        simpa using ih
      · rename_i l ls hcons
        rw [hcons] at ih
        simpa using ih

/-- A text is cut behind a separator. -/
theorem lines_append (a b : Bytes) :
    lines sep (a ++ sep :: b) = lines sep (a ++ [sep]) ++ lines sep b := by
  induction a with
  | nil => simp [lines]
  | cons c a ih =>
    rw [List.cons_append, List.cons_append, lines, lines, ih]
    split
    · simp
    · cases hfirst : lines sep (a ++ [sep]) with
      | nil =>
        have hflat := flatten_lines sep (a ++ [sep])
        rw [hfirst] at hflat
        simp at hflat
      | cons l ls => rfl

theorem length_lines (text : Bytes) (hne : text ≠ []) :
    (lines sep text).length =
      text.count sep + if text.getLast? = some sep then 0 else 1 := by
  induction text with
  | nil => exact absurd rfl hne
  | cons c cs ih =>
    cases cs with
    | nil =>
      by_cases hc : c = sep <;> simp [lines, hc]
    | cons d ds =>
      have ih := ih (by simp)
      rw [lines, List.getLast?_cons_cons]
      by_cases hc : c = sep
      · simp only [hc, if_true, List.length_cons, ih, List.count_cons_self]
        omega
      · rw [if_neg hc, List.count_cons_of_ne hc, ← ih]
        cases hrest : lines sep (d :: ds) with
        | nil =>
          rw [hrest] at ih
          have hflat := flatten_lines sep (d :: ds)
          rw [hrest] at hflat
          cases hflat
        | cons l ls => rfl

/-- The last lines are what is behind a separator. -/
theorem tailLines_append (n : Nat) (a b : Bytes) (h : (lines sep b).length = n) :
    tailLines sep n (a ++ sep :: b) = b := by
  have hlen : (lines sep (a ++ sep :: b)).length - n = (lines sep (a ++ [sep])).length := by
    rw [lines_append, List.length_append, h]
    omega
  rw [tailLines, hlen, lines_append sep a b, List.drop_left' rfl, flatten_lines]

theorem lineStart_append (a b : Bytes) (h : sep ∉ b) : lineStart sep (a ++ sep :: b) = a.length + 1 := by
  have hall : ∀ c ∈ b.reverse, decide (c ≠ sep) = true := by
    intro c hc
    rw [List.mem_reverse] at hc
    simpa using fun heq : c = sep => h (heq ▸ hc)
  have htake : ((a ++ sep :: b).reverse.takeWhile (· ≠ sep)) = b.reverse := by
    rw [List.reverse_append, List.reverse_cons, List.append_assoc, List.takeWhile_append_of_pos hall]
    simp
  rw [lineStart, htake]
  simp only [List.length_append, List.length_cons, List.length_reverse]
  omega

theorem lineStart_of_not_mem (text : Bytes) (h : sep ∉ text) : lineStart sep text = 0 := by
  have hall : ∀ c ∈ text.reverse, decide (c ≠ sep) = true := by
    intro c hc
    rw [List.mem_reverse] at hc
    simpa using fun heq : c = sep => h (heq ▸ hc)
  rw [lineStart, List.takeWhile_eq_self_iff.mpr hall, List.length_reverse, Nat.sub_self]

end

end Sexpect.Lib
