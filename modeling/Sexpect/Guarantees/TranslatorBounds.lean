import Sexpect.Source.Cursor

/-!
# The translators stay in bounds

An iteration of `strunesc` or `glob2re` at a string `c :: cs` in memory reads no further
than its terminator, and stores what the same iteration on lists appends (`Goes`).  The
factor is the room there is in `out` for an octet of `in`, one or three: what is stored
and what the rest may still take stay within the room of `c :: cs`.  That is kept along
the loop, so the terminator has its place too.
-/
namespace Sexpect.Guarantees
open Sexpect.Lib Sexpect.Source

section

variable {mem : Nat → UInt8} {limit : Nat}

/-! ## One iteration -/

/-- An iteration at `c :: cs` fails with not more than `factor` octets stored, or goes on
at the rest of the string, as the one on lists does. -/
inductive Goes (mem : Nat → UInt8) (limit factor : Nat) (cs : Bytes) (len : Nat) :
    Option (Bytes × Bytes) → Option (Nat × Nat) → Bytes → Prop
  | fails {stored : Bytes} : stored.length ≤ factor → Goes mem limit factor cs len none none stored
  | goes {text rest : Bytes} {inp : Nat} : StringAt mem limit inp rest → rest.length ≤ cs.length →
      text.length + factor * rest.length ≤ factor * (cs.length + 1) →
      Goes mem limit factor cs len (some (text, rest)) (some (inp, len + text.length)) text

theorem append_yields (text : Bytes) (len : Nat) {Q : Unit → Bytes → Prop} (hQ : Q () text) :
    Yields mem limit (Cursor.append len text) len Q := by
  induction text generalizing len Q with
  | nil => exact hQ
  | cons c cs ih =>
    rw [Cursor.append, yields_poke]
    exact ⟨rfl, ih (len + 1) hQ⟩

theorem emit_yields (text : Bytes) (inp len : Nat) {Q : Option (Nat × Nat) → Bytes → Prop}
    (hQ : Q (some (inp, len + text.length)) text) :
    Yields mem limit (Cursor.emit text inp len) len Q := by
  rw [Cursor.emit, yields_bind]
  apply append_yields
  simpa using hQ

/-- An octet that is stored for one or more. -/
theorem emit_goes {factor : Nat} {cs text rest : Bytes} {inp : Nat}
    (h : StringAt mem limit inp rest) (hrest : rest.length ≤ cs.length)
    (htext : text.length ≤ factor) (len : Nat) :
    Yields mem limit (Cursor.emit text inp len) len
      (Goes mem limit factor cs len (some (text, rest))) := by
  refine emit_yields text inp len (.goes h hrest ?_)
  have := Nat.mul_le_mul_left factor hrest
  rw [Nat.mul_add]
  omega

/-- A branch that both functions take under the same condition. -/
theorem goes_ite {factor : Nat} {cs : Bytes} {len : Nat} {P : Prop} [Decidable P]
    {yes no : Access UInt8 (Option (Nat × Nat))} {found other : Option (Bytes × Bytes)}
    (hyes : P → Yields mem limit yes len (Goes mem limit factor cs len found))
    (hno : ¬ P → Yields mem limit no len (Goes mem limit factor cs len other)) :
    Yields mem limit (if P then yes else no) len
      (Goes mem limit factor cs len (if P then found else other)) := by
  by_cases h : P
  · rw [if_pos h, if_pos h]
    exact hyes h
  · rw [if_neg h, if_neg h]
    exact hno h

/-! ## `strunesc` -/

/-- An escape on lists, with its octet as a text. -/
def escapeText (found : Option (UInt8 × Bytes)) : Option (Bytes × Bytes) :=
  found.map fun (out, rest) => ([out], rest)

section

variable {inp : Nat} {c1 : UInt8} {cs : Bytes}

theorem ctrlEscape_goes (h : StringAt mem limit (inp + 2) cs) (len : Nat) :
    Yields mem limit (Cursor.ctrlEscape inp len) len
      (Goes mem limit 1 (c1 :: cs) len (escapeText (strunescEscape (octet 'c' :: cs)))) := by
  have hle := h.limit_eq
  rw [Cursor.ctrlEscape, yields_peek]
  refine ⟨by omega, ?_⟩
  cases cs with
  | nil =>
    rw [h.2]
    exact .fails (Nat.zero_le 1)
  | cons x rest =>
    obtain ⟨hx, -, h⟩ := h
    have hlist : strunescEscape (octet 'c' :: x :: rest) =
        if toupper x < octet 'A' ∨ toupper x > octet '_' then none
        else some (toupper x - octet 'A' + 1, rest) := rfl
    rw [hx, hlist]
    by_cases hout : toupper x < octet 'A' ∨ toupper x > octet '_'
    · rw [if_pos hout, if_pos hout]
      exact .fails (Nat.zero_le 1)
    · rw [if_neg hout, if_neg hout]
      exact emit_goes h (by simp only [List.length_cons]; omega) le_rfl len

theorem hexEscape_goes (h : StringAt mem limit (inp + 2) cs) (len : Nat) :
    Yields mem limit (Cursor.hexEscape inp len) len
      (Goes mem limit 1 (c1 :: cs) len (escapeText (hexEscape cs))) := by
  have hle := h.limit_eq
  rw [Cursor.hexEscape, yields_peek]
  refine ⟨by omega, ?_⟩
  cases cs with
  | nil =>
    rw [h.2]
    exact .fails (Nat.zero_le 1)
  | cons h1 rest =>
    obtain ⟨hh1, -, h⟩ := h
    rw [hh1, hexEscape.eq_def]
    by_cases hx : isxdigit h1 = true
    · simp only [hx, not_true_eq_false, if_false, yields_peek]
      refine ⟨by simp only [List.length_cons] at hle; omega, ?_⟩
      cases rest with
      | nil =>
        rw [h.2, if_neg (by decide)]
        exact emit_goes h (Nat.zero_le _) le_rfl len
      | cons h2 more =>
        rw [h.1]
        by_cases hx2 : isxdigit h2 = true
        · simp only [hx2, if_true]
          exact emit_goes h.2.2 (by simp only [List.length_cons]; omega) le_rfl len
        · simp only [hx2]
          exact emit_goes h (by simp only [List.length_cons]; omega) le_rfl len
    · simp only [hx]
      exact .fails (Nat.zero_le 1)

theorem octalEscape_goes (h : StringAt mem limit (inp + 2) cs) (len : Nat) :
    Yields mem limit (Cursor.octalEscape c1 inp len) len
      (Goes mem limit 1 (c1 :: cs) len (escapeText (some (octalEscape c1 cs)))) := by
  have hle := h.limit_eq
  rw [Cursor.octalEscape, yields_peek]
  refine ⟨by omega, ?_⟩
  cases cs with
  | nil =>
    rw [h.2, if_neg (by decide)]
    exact emit_goes h (Nat.zero_le _) le_rfl len
  | cons o2 rest =>
    rw [h.1, octalEscape.eq_def]
    by_cases ho2 : isodigit o2 = true
    · simp only [ho2, not_true_eq_false, if_false, if_true, yields_peek]
      refine ⟨by simp only [List.length_cons] at hle; omega, ?_⟩
      obtain ⟨-, -, h⟩ := h
      cases rest with
      | nil =>
        rw [h.2, if_neg (by decide)]
        exact emit_goes h (Nat.zero_le _) le_rfl len
      | cons o3 more =>
        rw [h.1]
        by_cases ho3 : isodigit o3 = true
        · by_cases hbig : cO3 c1 o2 o3 > 0xff
          · simp only [ho3, hbig, if_true, not_true_eq_false, and_false, if_false]
            exact emit_goes h (by simp only [List.length_cons]; omega) le_rfl len
          · simp only [ho3, hbig, if_true, not_false_eq_true, and_true, if_false]
            exact emit_goes h.2.2 (by simp only [List.length_cons]; omega) le_rfl len
        · simp only [ho3]
          exact emit_goes h (by simp only [List.length_cons]; omega) le_rfl len
    · simp only [ho2]
      exact emit_goes h (by simp only [List.length_cons]; omega) le_rfl len


theorem strunescEscape_goes (h : StringAt mem limit (inp + 1) cs) (len : Nat) :
    Yields mem limit (Cursor.strunescEscape inp len) len
      (Goes mem limit 1 cs len (escapeText (strunescEscape cs))) := by
  have hle := h.limit_eq
  rw [Cursor.strunescEscape, yields_peek]
  refine ⟨by omega, ?_⟩
  cases cs with
  | nil =>
    rw [h.2]
    exact emit_goes h (Nat.zero_le _) le_rfl len
  | cons c1 rest =>
    obtain ⟨hc1, hne, h⟩ := h
    rw [hc1]
    cases hletter : letterEscape c1 with
    | some out =>
      simp only [strunescEscape, hletter]
      exact emit_goes h (Nat.le_succ _) le_rfl len
    | none =>
      by_cases hctrl : c1 = octet 'c'
      · subst hctrl
        exact ctrlEscape_goes h len
      by_cases hhex : c1 = octet 'x'
      · subst hhex
        exact hexEscape_goes h len
      simp only [strunescEscape, hletter, if_neg hctrl, if_neg hhex]
      by_cases hoctal : isodigit c1 = true
      · simp only [hoctal, if_true]
        exact octalEscape_goes h len
      · simp only [hoctal, if_neg hne]
        exact emit_goes h (Nat.le_succ _) le_rfl len

end

/-- An iteration of `strunesc` on lists. -/
def strunescLists (c : UInt8) (cs : Bytes) : Option (Bytes × Bytes) :=
  if c = octet '\\' then escapeText (strunescEscape cs) else some ([c], cs)

theorem strunescStep_goes {inp : Nat} {c : UInt8} {cs : Bytes}
    (h : StringAt mem limit inp (c :: cs)) (len : Nat) :
    Yields mem limit (Cursor.strunescStep c inp len) len
      (Goes mem limit 1 cs len (strunescLists c cs)) := by
  unfold Cursor.strunescStep strunescLists
  exact goes_ite (fun _ => strunescEscape_goes h.2.2 len)
    fun _ => emit_goes h.2.2 le_rfl le_rfl len

/-! ## `glob2re` -/

theorem classInside_yields {n inp : Nat} {rest : Bytes} (h : StringAt mem limit inp rest)
    (hn : n < rest.length) (len : Nat) {Q : Bool → Bytes → Prop}
    (hQ : Q (classInside (rest.take (n + 1))) []) :
    Yields mem limit (Cursor.classInside n inp) len Q := by
  induction n generalizing inp rest with
  | zero =>
    obtain ⟨c, cs, rfl⟩ := List.exists_cons_of_ne_nil (List.ne_nil_of_length_pos hn)
    exact hQ
  | succ n ih =>
    have hle := h.limit_eq
    match rest with
    | [] | [_] => simp at hn
    | c :: c2 :: more =>
      obtain ⟨hc, -, h⟩ := h
      simp only [List.length_cons] at hle hn
      simp only [List.take_succ_cons, classInside] at hQ
      rw [Cursor.classInside, yields_peek, hc]
      refine ⟨by omega, ?_⟩
      by_cases hopen : c = octet '['
      · rw [if_pos hopen, yields_peek, h.1]
        refine ⟨by omega, ?_⟩
        have hany : (decide (c2 = octet ':') || decide (c2 = octet '.') ||
            decide (c2 = octet '=')) =
              decide (c2 = octet ':' ∨ c2 = octet '.' ∨ c2 = octet '=') := by
          simp only [Bool.decide_or, Bool.or_assoc]
        rw [hany] at hQ
        by_cases hclass : c2 = octet ':' ∨ c2 = octet '.' ∨ c2 = octet '='
        · rw [if_pos hclass, yields_pure]
          simpa only [hopen, hclass, decide_true, Bool.and_self, Bool.true_or] using hQ
        · rw [if_neg hclass]
          refine ih h (by simp only [List.length_cons]; omega) ?_
          simpa only [hclass, decide_false, Bool.and_false, Bool.false_or,
            List.take_succ_cons] using hQ
      · rw [if_neg hopen]
        refine ih h (by simp only [List.length_cons]; omega) ?_
        simpa [hopen] using hQ

/-- Part of a bracket is copied: it fails with not more than `n` octets stored, or as many
are stored as are passed. -/
inductive BracketCopied (mem : Nat → UInt8) (limit n : Nat) (before inp : Bytes) (len : Nat) :
    Option (Bytes × Bytes) → Option (Nat × Nat) → Bytes → Prop
  | fails {stored : Bytes} : stored.length ≤ n →
      BracketCopied mem limit n before inp len none none stored
  | copies {stored rest : Bytes} {p : Nat} : StringAt mem limit p rest →
      stored.length + rest.length = inp.length →
      BracketCopied mem limit n before inp len (some (before ++ stored, rest))
        (some (p, len + stored.length)) stored

theorem globList_copies {rounds inp : Nat} {rest : Bytes} (h : StringAt mem limit inp rest)
    (hrounds : rest.length < rounds) (len : Nat) :
    Yields mem limit (Cursor.globList rounds inp len) len
      (BracketCopied mem limit 0 [] rest len (globList rest)) := by
  rw [Cursor.globList, yields_bind]
  refine strchr_yields (octet ']') h hrounds len (by decide) ?_
  cases hfind : rest.findIdx? (· = octet ']') with
  | none =>
    simp only [globList, hfind]
    exact .fails le_rfl
  | some p =>
    have hp : p < rest.length := (List.findIdx?_eq_some_iff_findIdx_eq.mp hfind).1
    have hl : inp + p + 1 - inp = p + 1 := by omega
    simp only [Option.map_some, globList, hfind, hl, Nat.add_sub_cancel, yields_bind]
    refine classInside_yields h hp len ?_
    by_cases hclass : classInside (rest.take (p + 1)) = true
    · simp only [hclass, if_true]
      exact .fails le_rfl
    · simp only [hclass, Bool.false_eq_true, if_false, yields_bind]
      refine memmove_yields h hp ?_
      have hcopied : (rest.take (p + 1)).length = p + 1 := by
        rw [List.length_take]
        omega
      have hall : (rest.take (p + 1)).length + (rest.drop (p + 1)).length = rest.length := by
        rw [hcopied, List.length_drop]
        omega
      have hgoes := @BracketCopied.copies mem limit 0 [] rest len _ _ _ (h.drop hp) hall
      rw [hcopied] at hgoes
      rw [yields_pure, List.append_nil]
      exact hgoes

theorem globFirst_copies {rounds inp : Nat} {rest : Bytes} (h : StringAt mem limit inp rest)
    (hrounds : rest.length < rounds) (mark : Bytes) (len : Nat) :
    Yields mem limit (Cursor.globFirst rounds inp len) len
      (BracketCopied mem limit 1 (octet '[' :: mark) rest len (globFirst mark rest)) := by
  have hle := h.limit_eq
  rw [Cursor.globFirst, yields_peek]
  refine ⟨by omega, ?_⟩
  cases rest with
  | nil =>
    rw [h.2]
    exact .fails (Nat.zero_le 1)
  | cons c cs =>
    rw [h.1, if_neg h.2.1]
    by_cases hc : c = octet ']'
    · rw [if_pos hc, yields_poke]
      simp only [List.length_cons] at hrounds
      refine ⟨rfl, (globList_copies h.2.2 (by omega) (len + 1)).mono ?_⟩
      intro r stored hcopies
      have hlist : globFirst mark (c :: cs) = (globList cs).map fun found =>
          (octet '[' :: mark ++ octet ']' :: found.1, found.2) := by simp [globFirst, hc]
      rw [hlist]
      generalize globList cs = found at hcopies ⊢
      cases hcopies with
      | fails hnone => exact .fails (Nat.succ_le_succ hnone)
      | @copies _ rest p hrest hall =>
        have hlen : len + 1 + stored.length = len + (octet ']' :: stored).length := by
          simp only [List.length_cons]
          omega
        rw [hlen]
        exact .copies hrest (by simp only [List.nil_append, List.length_cons]; omega)
    · rw [if_neg hc]
      refine (globList_copies h hrounds len).mono ?_
      intro r stored hcopies
      have hlist : globFirst mark (c :: cs) = (globList (c :: cs)).map fun found =>
          (octet '[' :: mark ++ found.1, found.2) := by simp [globFirst, hc]
      rw [hlist]
      generalize globList (c :: cs) = found at hcopies ⊢
      cases hcopies with
      | fails hnone => exact .fails (le_trans hnone (Nat.zero_le 1))
      | copies hrest hall => exact .copies hrest hall

/-- What is copied behind a part of a bracket that is stored already. -/
theorem BracketCopied.goes {before inp cs : Bytes} {len : Nat} {found : Option (Bytes × Bytes)}
    {r : Option (Nat × Nat)} {stored : Bytes}
    (h : BracketCopied mem limit 1 before inp (len + before.length) found r stored)
    (hpos : 0 < before.length) (hbefore : before.length ≤ 2)
    (hall : before.length + inp.length = cs.length + 1) :
    Goes mem limit 3 cs len found r (before ++ stored) := by
  cases h with
  | fails hone =>
    refine .fails ?_
    rw [List.length_append]
    omega
  | @copies _ rest p hrest hsame =>
    have hlen : len + before.length + stored.length = len + (before ++ stored).length := by
      rw [List.length_append, Nat.add_assoc]
    rw [hlen]
    refine .goes hrest (by omega) ?_
    rw [List.length_append]
    omega

theorem globBracket_goes {rounds inp : Nat} {cs : Bytes} (h : StringAt mem limit (inp + 1) cs)
    (hrounds : cs.length < rounds) (len : Nat) :
    Yields mem limit (Cursor.globBracket rounds inp len) len
      (Goes mem limit 3 cs len (globBracket cs)) := by
  have hle := h.limit_eq
  rw [Cursor.globBracket, yields_poke, yields_peek]
  refine ⟨rfl, by omega, ?_⟩
  cases cs with
  | nil =>
    rw [h.2]
    exact .fails (by decide)
  | cons c rest =>
    rw [h.1, if_neg h.2.1]
    simp only [List.length_cons] at hrounds
    by_cases hmark : c = octet '!' ∨ c = octet '^'
    · rw [if_pos hmark, yields_poke]
      refine ⟨rfl, (globFirst_copies h.2.2 (by omega) [octet '^'] (len + 2)).mono ?_⟩
      intro r stored hcopies
      simp only [globBracket, hmark, if_true]
      exact @BracketCopied.goes _ _ [octet '[', octet '^'] rest (c :: rest) len _ _ _ hcopies
        (by decide) le_rfl (by simp only [List.length_cons, List.length_nil]; omega)
    · rw [if_neg hmark]
      refine (globFirst_copies h (by simpa using hrounds) [] (len + 1)).mono ?_
      intro r stored hcopies
      simp only [globBracket, hmark]
      exact @BracketCopied.goes _ _ [octet '['] (c :: rest) (c :: rest) len _ _ _ hcopies
        (by decide) (by decide) (by simp only [List.length_cons, List.length_nil]; omega)

theorem glob2reStep_goes {rounds inp : Nat} {c : UInt8} {cs : Bytes}
    (h : StringAt mem limit inp (c :: cs)) (hrounds : cs.length < rounds) (len : Nat) :
    Yields mem limit (Cursor.glob2reStep rounds c inp len) len
      (Goes mem limit 3 cs len (glob2reStep (inp = 0) c cs)) := by
  have hle := h.limit_eq
  simp only [List.length_cons] at hle
  obtain ⟨-, -, h⟩ := h
  have hone : ∀ text : Bytes, text.length ≤ 3 →
      Yields mem limit (Cursor.emit text (inp + 1) len) len
        (Goes mem limit 3 cs len (some (text, cs))) := fun text htext =>
    emit_goes h le_rfl htext len
  unfold Cursor.glob2reStep glob2reStep
  refine goes_ite (fun _ => hone _ (by decide)) fun _ => ?_
  refine goes_ite (fun _ => hone _ (by decide)) fun _ => ?_
  refine goes_ite (fun _ => hone _ (by decide)) fun _ => ?_
  refine goes_ite (fun _ => globBracket_goes h hrounds len) fun _ => ?_
  refine goes_ite (fun _ => ?_) fun _ => ?_
  · -- `^`, as it is at the start of the pattern only
    by_cases hstart : inp = 0
    · simp only [hstart, ne_eq, not_true_eq_false, if_false, decide_true, if_true]
      exact hstart ▸ hone _ (by decide)
    · simp only [hstart, ne_eq, not_false_eq_true, if_true, decide_false, Bool.false_eq_true,
        if_false]
      exact hone _ (by decide)
  refine goes_ite (fun _ => ?_) fun _ => ?_
  · -- `$`, as it is at the end of the pattern only
    rw [yields_peek]
    refine ⟨by omega, ?_⟩
    cases cs with
    | nil =>
      rw [h.2]
      exact hone _ (by decide)
    | cons c1 rest =>
      rw [h.1, if_pos h.2.1, if_neg (List.cons_ne_nil c1 rest)]
      exact hone _ (by decide)
  refine goes_ite (fun _ => hone _ le_rfl) fun _ => ?_
  refine goes_ite (fun _ => ?_) fun _ => hone _ (Nat.le_add_left 1 2)
  rw [yields_peek]
  refine ⟨by omega, ?_⟩
  cases cs with
  | nil =>
    rw [h.2]
    exact .fails (Nat.zero_le 3)
  | cons c1 rest =>
    have htwo : ∀ text : Bytes, text.length ≤ 3 →
        Yields mem limit (Cursor.emit text (inp + 2) len) len
          (Goes mem limit 3 (c1 :: rest) len (some (text, rest))) := fun text htext =>
      emit_goes h.2.2 (Nat.le_succ _) htext len
    rw [h.1]
    refine goes_ite (fun _ => htwo _ (by decide)) fun _ => ?_
    exact goes_ite (fun _ => htwo _ le_rfl) fun _ => .fails (Nat.zero_le 3)

/-! ## The loop -/

/-- The loop around an iteration on lists. -/
def listLoop (lists : Bool → UInt8 → Bytes → Option (Bytes × Bytes)) :
    Nat → Bool → Bytes → Option Bytes
  | _, _, [] => some []
  | 0, _, _ :: _ => none
  | n + 1, start, c :: cs =>
    (lists start c cs).bind fun (text, rest) => (listLoop lists n false rest).map (text ++ ·)

theorem glob2reLoop_eq (n : Nat) (start : Bool) (inp : Bytes) :
    glob2reLoop n start inp = listLoop glob2reStep n start inp := by
  induction n generalizing start inp with
  | zero => cases inp <;> rfl
  | succ n ih =>
    cases inp with
    | nil => rfl
    | cons c cs =>
      rw [glob2reLoop, listLoop]
      cases glob2reStep start c cs with
      | none => rfl
      | some found =>
        obtain ⟨text, rest⟩ := found
        simp only [Option.bind_some, ih]

theorem strunescLoop_eq (n : Nat) (start : Bool) (inp : Bytes) :
    strunescLoop n inp = listLoop (fun _ => strunescLists) n start inp := by
  induction n generalizing start inp with
  | zero => cases inp <;> rfl
  | succ n ih =>
    cases inp with
    | nil => rfl
    | cons c cs =>
      rw [strunescLoop, listLoop, strunescLists]
      by_cases hc : c = octet '\\'
      · rw [if_pos hc, if_pos hc]
        cases strunescEscape cs with
        | none => rfl
        | some found =>
          obtain ⟨out, rest⟩ := found
          simp only [escapeText, Option.map_some, Option.bind_some, ih false]
          rfl
      · rw [if_neg hc, if_neg hc, ih false]
        rfl

/-- The loop ends where the one on lists does, with what that gives stored. -/
inductive LoopEnds (room len : Nat) : Option Bytes → Option Nat → Bytes → Prop
  | fails {stored : Bytes} : stored.length ≤ room → LoopEnds room len none none stored
  | ends {out : Bytes} : out.length ≤ room →
      LoopEnds room len (some out) (some (len + out.length)) out

theorem loop_ends {factor : Nat} {step : UInt8 → Nat → Nat → Access UInt8 (Option (Nat × Nat))}
    {lists : Bool → UInt8 → Bytes → Option (Bytes × Bytes)}
    (hstep : ∀ {inp : Nat} {c : UInt8} {cs : Bytes}, StringAt mem limit inp (c :: cs) → ∀ len,
      Yields mem limit (step c inp len) len (Goes mem limit factor cs len (lists (inp = 0) c cs)))
    {n rounds inp : Nat} {rest : Bytes} (h : StringAt mem limit inp rest) (hn : rest.length ≤ n)
    (hrounds : rest.length < rounds) (len : Nat) :
    Yields mem limit (Cursor.loop step rounds inp len) len
      (LoopEnds (factor * rest.length) len (listLoop lists n (inp = 0) rest)) := by
  induction rounds generalizing n inp rest len with
  | zero => omega
  | succ rounds ih =>
    have hle := h.limit_eq
    rw [Cursor.loop, yields_peek]
    refine ⟨by omega, ?_⟩
    cases rest with
    | nil =>
      rw [h.2]
      have hend : listLoop lists n (inp = 0) [] = some [] := by cases n <;> rfl
      rw [hend]
      exact .ends (Nat.zero_le _)
    | cons c cs =>
      simp only [List.length_cons] at hn hrounds hle ⊢
      obtain ⟨m, rfl⟩ : ∃ m, n = m + 1 := ⟨n - 1, by omega⟩
      rw [h.1, if_neg h.2.1, yields_bind, listLoop]
      refine (hstep h len).mono ?_
      intro next stored hgoes
      generalize lists (inp = 0) c cs = found at hgoes ⊢
      cases hgoes with
      | fails hroom =>
        refine .fails ?_
        rw [List.append_nil, Nat.mul_add]
        omega
      | @goes _ rest inp' hrest hshort hroom =>
        have hle' := hrest.limit_eq
        have hstart : decide (inp' = 0) = false := decide_eq_false (by omega)
        have hmore := ih hrest (by omega : rest.length ≤ m) (by omega) (len + stored.length)
        rw [hstart] at hmore
        refine hmore.mono ?_
        intro r more hends
        simp only [Option.bind_some]
        generalize listLoop lists m false rest = out at hends ⊢
        cases hends with
        | fails hfew =>
          refine .fails ?_
          rw [List.length_append]
          omega
        | ends hfew =>
          rw [Nat.add_assoc, ← List.length_append]
          refine .ends ?_
          rw [List.length_append]
          omega

/-! ## The functions -/

/-- What is stored in a block of `room` octets agrees with what is reported, and with the
function on lists. -/
structure Reported (room : Nat) (alloc : Bool) (result : Option Bytes) (t : Cursor.Translation)
    (stored : Bytes) : Prop where
  size : t.size = room
  fits : stored.length ≤ room
  reports : ∀ len, t.len = some len → ∃ out, result = some out ∧ out.length = len ∧
    stored = out ++ [0]
  fails : alloc = true → t.len = none → result = none

theorem translate_reported {factor : Nat}
    {step : UInt8 → Nat → Nat → Access UInt8 (Option (Nat × Nat))}
    {lists : Bool → UInt8 → Bytes → Option (Bytes × Bytes)}
    (hstep : ∀ {inp : Nat} {c : UInt8} {cs : Bytes}, StringAt mem limit inp (c :: cs) → ∀ len,
      Yields mem limit (step c inp len) len (Goes mem limit factor cs len (lists (inp = 0) c cs)))
    {text : Bytes} (h : StringAt mem limit 0 text) (alloc : Bool) {rounds : Nat}
    (hrounds : limit < rounds) :
    Yields mem limit (Cursor.translate factor alloc rounds step) 0
      (Reported (factor * limit + 1) alloc (listLoop lists text.length true text)) := by
  have hlen : text.length = limit := by simpa using h.limit_eq
  rw [Cursor.translate, yields_bind]
  refine strlen_yields h (by omega) 0 ?_
  cases alloc with
  | false =>
    refine ⟨by rw [hlen], Nat.zero_le _, ?_, ?_⟩
    · intro len hnone
      cases hnone
    · intro htrue
      cases htrue
  | true =>
    simp only [not_true_eq_false, if_false, List.length_nil, yields_bind]
    refine (loop_ends hstep h le_rfl (by omega) 0).mono ?_
    intro done stored hends
    rw [decide_eq_true rfl, hlen] at hends
    rw [hlen]
    generalize listLoop lists limit true text = result at hends ⊢
    cases hends with
    | fails hroom =>
      refine ⟨rfl, ?_, ?_, fun _ _ => rfl⟩
      · rw [List.nil_append, List.append_nil]
        omega
      · intro len hnone
        cases hnone
    | ends hroom =>
      simp only [yields_poke, yields_pure, Nat.zero_add]
      refine ⟨trivial, rfl, ?_, ?_, ?_⟩
      · rw [List.nil_append, List.length_append, List.length_singleton]
        omega
      · intro len hsome
        cases hsome
        exact ⟨stored, rfl, rfl, rfl⟩
      · intro _ hnone
        cases hnone

end

/-! ## Runs -/

/-- A run over a string of `n` octets: it looks at nothing behind the terminator, stores
inside the block, and the length it reports is that of what it has stored before the
terminator. -/
structure InBounds (n room : Nat) (alloc : Bool) (result : Option Bytes)
    (r : Ran UInt8 Cursor.Translation) : Prop where
  size : r.value.size = room
  reads : ∀ offset ∈ r.reads, offset ≤ n
  writes : ∀ w ∈ r.writes, w.2 < room
  count : r.writes.length ≤ room
  reports : ∀ len, r.value.len = some len → ∃ out, result = some out ∧ out.length = len ∧
    r.writes = (out ++ [0]).zipIdx
  fails : alloc = true → r.value.len = none → result = none

theorem inBounds_of_reported {mem : Nat → UInt8} {n room : Nat} {alloc : Bool}
    {result : Option Bytes} {p : Access UInt8 Cursor.Translation}
    (h : Yields mem n p 0 (Reported room alloc result)) :
    ∃ r, p.run mem = some r ∧ InBounds n room alloc result r := by
  obtain ⟨t, stored, reads, hrun, hreported, hreads⟩ := h.ran
  refine ⟨_, hrun, hreported.size, hreads, ?_, ?_, ?_, hreported.fails⟩
  · intro w hw
    have hlt := List.snd_lt_of_mem_zipIdx hw
    have hfits := hreported.fits
    omega
  · simpa using hreported.fits
  · intro len hlen
    obtain ⟨out, hout, hcount, rfl⟩ := hreported.reports len hlen
    exact ⟨out, hout, hcount, rfl⟩

/-- On every string, whatever is in memory behind its terminator and whether `malloc`
succeeds or not, the two functions end within one round for each octet and one more, and
stay in bounds. -/
theorem translators_in_bounds (mem : Nat → UInt8) (n : Nat) (hend : mem n = 0)
    (hbefore : ∀ i < n, mem i ≠ 0) (alloc : Bool) (rounds : Nat) (hrounds : n < rounds) :
    (∃ r, (Cursor.strunesc alloc rounds).run mem = some r ∧
      InBounds n (n + 1) alloc (strunesc ((List.range n).map mem)) r) ∧
    ∃ r, (Cursor.glob2re alloc rounds).run mem = some r ∧
      InBounds n (3 * n + 1) alloc (glob2re ((List.range n).map mem)) r := by
  have hstring : StringAt mem n 0 ((List.range n).map mem) := by
    rw [List.range_eq_range']
    exact stringAt_of_terminated hend hbefore 0 (Nat.zero_le n)
  have htext : cstring ((List.range n).map mem) = (List.range n).map mem := by
    apply cstring_of_not_mem
    intro hmem
    obtain ⟨i, hi, hzero⟩ := List.mem_map.mp hmem
    exact hbefore i (List.mem_range.mp hi) hzero
  constructor
  · have hreported := @translate_reported mem n 1 Cursor.strunescStep (fun _ => strunescLists)
      (fun h => strunescStep_goes h) _ hstring alloc rounds hrounds
    rw [Nat.one_mul, ← strunescLoop_eq] at hreported
    rw [strunesc, htext]
    exact inBounds_of_reported hreported
  · have hstep : ∀ {inp : Nat} {c : UInt8} {cs : Bytes}, StringAt mem n inp (c :: cs) → ∀ len,
        Yields mem n (Cursor.glob2reStep rounds c inp len) len
          (Goes mem n 3 cs len (glob2reStep (inp = 0) c cs)) := by
      intro inp c cs h len
      have hle := h.limit_eq
      simp only [List.length_cons] at hle
      exact glob2reStep_goes h (by omega) len
    have hreported := translate_reported hstep hstring alloc hrounds
    rw [← glob2reLoop_eq] at hreported
    rw [glob2re, htext]
    exact inBounds_of_reported hreported

/-- `[!\x4`, which ends inside an escape and inside a bracket, with other octets behind the
terminator. -/
def cutShort (i : Nat) : UInt8 := (ascii "[!\\x4" ++ [0]).getD i (octet 'f')

theorem translators_in_bounds_cutShort :
    (cutShort 5 = 0 ∧ ∀ i < 5, cutShort i ≠ 0) ∧
    ((∃ r, (Cursor.strunesc true 6).run cutShort = some r ∧
      InBounds 5 6 true (strunesc ((List.range 5).map cutShort)) r) ∧
    ∃ r, (Cursor.glob2re true 6).run cutShort = some r ∧
      InBounds 5 16 true (glob2re ((List.range 5).map cutShort)) r) ∧
    ((Cursor.strunesc true 6).run cutShort).map (·.value) = some ⟨6, some 3⟩ ∧
    ((Cursor.glob2re true 6).run cutShort).map (·.value) = some ⟨16, none⟩ :=
  ⟨⟨by decide, by decide⟩,
    translators_in_bounds cutShort 5 (by decide) (by decide) true 6 (by decide),
    by decide, by decide⟩

end Sexpect.Guarantees
