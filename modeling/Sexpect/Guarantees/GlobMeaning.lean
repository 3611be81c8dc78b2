import Sexpect.Lib.Ere
import Sexpect.Source.Glob

/-!
# What a glob pattern means, and what `glob2re` makes of it

A pattern is read item by item: `First` says which item it begins with and what
remains, `Broken` that it begins with something that is no item.  `GlobMatches` is
the meaning of a pattern.  The output of `glob2re`, parsed as a POSIX extended
regular expression, matches between the same positions.
-/
namespace Sexpect.Guarantees
open Sexpect.Lib Sexpect.Source

/-! ## The meaning of a pattern -/

inductive GlobItem where
  | star
  | any
  | set (negated : Bool) (list : Bytes)
  | lit (c : UInt8)
  | bol
  | eol
  deriving DecidableEq, Repr

/-- An item matches a subject from position `i` up to position `j`. -/
def GlobItem.Matches (subject : Bytes) : GlobItem → Nat → Nat → Prop
  | .star, i, j => i ≤ j ∧ j ≤ subject.length
  | .any, i, j => j = i + 1 ∧ i < subject.length
  | .set negated list, i, j => j = i + 1 ∧
      ∃ c, subject[i]? = some c ∧ (CharSet.mk negated (setItems list)).contains c = true
  | .lit c, i, j => j = i + 1 ∧ subject[i]? = some c
  | .bol, i, j => i = 0 ∧ j = 0
  | .eol, i, j => i = subject.length ∧ j = subject.length

/-- Items one after the other. -/
def itemsMatch (subject : Bytes) : List GlobItem → Nat → Nat → Prop
  | [], i, j => i = j ∧ j ≤ subject.length
  | it :: its, i, j => ∃ k, it.Matches subject i k ∧ itemsMatch subject its k j

/-- The text behind a `[` is a bracket expression with this list, up to `rest`: a
leading `!` or `^` negates, the first octet of the list may be a `]`, the next `]`
ends it. -/
def Bracket (text : Bytes) (negated : Bool) (list rest : Bytes) : Prop :=
  list ≠ [] ∧ octet ']' ∉ list.tail ∧
    ((negated = true ∧ (text = octet '!' :: (list ++ octet ']' :: rest) ∨
        text = octet '^' :: (list ++ octet ']' :: rest))) ∨
      (negated = false ∧ text = list ++ octet ']' :: rest ∧
        list.head? ≠ some (octet '!') ∧ list.head? ≠ some (octet '^')))

/-- A list with `[:`, `[.` or `[=` in it. -/
def HasClass (list : Bytes) : Prop :=
  ∃ c, (c = octet ':' ∨ c = octet '.' ∨ c = octet '=') ∧ [octet '[', c] <:+: list

/-- The octets a backslash may stand before. -/
def Escapable (c : UInt8) : Prop :=
  c = octet '\\' ∨ c = octet '*' ∨ c = octet '?' ∨ c = octet '[' ∨ c = octet ']'

/-- The item a pattern begins with, and what remains; `start` at its very start. -/
inductive First (start : Bool) : Bytes → GlobItem → Bytes → Prop
  | star (rest : Bytes) : First start (octet '*' :: rest) .star rest
  | any (rest : Bytes) : First start (octet '?' :: rest) .any rest
  | bracket (text list rest : Bytes) (negated : Bool) : Bracket text negated list rest →
      ¬ HasClass list → First start (octet '[' :: text) (.set negated list) rest
  | escaped (c : UInt8) (rest : Bytes) : Escapable c →
      First start (octet '\\' :: c :: rest) (.lit c) rest
  | bol (rest : Bytes) : start = true → First start (octet '^' :: rest) .bol rest
  | eol : First start [octet '$'] .eol []
  | plain (c : UInt8) (rest : Bytes) : c ≠ octet '*' → c ≠ octet '?' → c ≠ octet '[' →
      c ≠ octet '\\' → (c = octet '^' → start = false) → (c = octet '$' → rest ≠ []) →
      First start (c :: rest) (.lit c) rest

inductive Reads : Bool → Bytes → List GlobItem → Prop
  | nil (start : Bool) : Reads start [] []
  | cons {start : Bool} {text rest : Bytes} {it : GlobItem} {its : List GlobItem} :
      First start text it rest → Reads false rest its → Reads start text (it :: its)

/-- A pattern matches a subject from position `i` up to position `j`. -/
def GlobMatches (pattern subject : Bytes) (i j : Nat) : Prop :=
  ∃ its, Reads true pattern its ∧ itemsMatch subject its i j

/-- A pattern that begins with an unterminated bracket, with a bracket that has a
class inside, or with a backslash before anything else than the octets it escapes. -/
inductive Broken : Bytes → Prop
  | unterminated (text : Bytes) : (∀ negated list rest, ¬ Bracket text negated list rest) →
      Broken (octet '[' :: text)
  | classInside (text list rest : Bytes) (negated : Bool) : Bracket text negated list rest →
      HasClass list → Broken (octet '[' :: text)
  | escape (text : Bytes) : (∀ c rest, text = c :: rest → ¬ Escapable c) →
      Broken (octet '\\' :: text)

/-- Reading the pattern arrives at something broken. -/
inductive Faulty : Bool → Bytes → Prop
  | here {start : Bool} {text : Bytes} : Broken text → Faulty start text
  | later {start : Bool} {text rest : Bytes} {it : GlobItem} : First start text it rest →
      Faulty false rest → Faulty start text

/-! ## Pieces of the output -/

/-- In every context the piece of output reads as one expression with the meaning
of the item. -/
def Piece (text : Bytes) (it : GlobItem) : Prop :=
  ∃ tokens e, (∀ rest, ereLex .plain (text ++ rest) = (ereLex .plain rest).map (tokens ++ ·)) ∧
    (∀ p : EreParser, EreParser.run tokens p = some { p with branch := e :: p.branch }) ∧
    ∀ subject i j, e.Matches subject i j ↔ it.Matches subject i j

/-- A piece that is a single token. -/
theorem Piece.atom {text : Bytes} {it : GlobItem} (e : Ere)
    (hlex : ∀ rest, ereLex .plain (text ++ rest) = (ereLex .plain rest).map (.atom e :: ·))
    (hmeans : ∀ subject i j, e.Matches subject i j ↔ it.Matches subject i j) : Piece text it :=
  ⟨[.atom e], e, hlex, fun _ => rfl, hmeans⟩

theorem chr_matches (c : UInt8) (subject : Bytes) (i j : Nat) :
    (Ere.chr c).Matches subject i j ↔ (GlobItem.lit c).Matches subject i j := by
  constructor
  · rintro ⟨⟩
    rename_i hc
    exact ⟨rfl, hc⟩
  · rintro ⟨rfl, hc⟩
    exact .chr hc

theorem any_matches (subject : Bytes) (i j : Nat) :
    Ere.any.Matches subject i j ↔ GlobItem.any.Matches subject i j := by
  constructor
  · rintro ⟨⟩
    rename_i hc
    exact ⟨rfl, (List.getElem?_eq_some_iff.mp hc).1⟩
  · rintro ⟨rfl, hi⟩
    exact .any (List.getElem?_eq_getElem hi)

theorem set_matches (negated : Bool) (list subject : Bytes) (i j : Nat) :
    (Ere.set ⟨negated, setItems list⟩).Matches subject i j ↔
      (GlobItem.set negated list).Matches subject i j := by
  constructor
  · intro h
    cases h with
    | set hc hin => exact ⟨rfl, _, hc, hin⟩
  · rintro ⟨rfl, c, hc, hin⟩
    exact .set hc hin

theorem bol_matches (subject : Bytes) (i j : Nat) :
    Ere.bol.Matches subject i j ↔ GlobItem.bol.Matches subject i j := by
  constructor
  · rintro ⟨⟩
    exact ⟨rfl, rfl⟩
  · rintro ⟨rfl, rfl⟩
    exact .bol

theorem eol_matches (subject : Bytes) (i j : Nat) :
    Ere.eol.Matches subject i j ↔ GlobItem.eol.Matches subject i j := by
  constructor
  · rintro ⟨⟩
    exact ⟨rfl, rfl⟩
  · rintro ⟨rfl, rfl⟩
    exact .eol

/-- An octet without a special meaning in EREs. -/
theorem piece_plain (c : UInt8) (hlex : c ≠ octet '\\' ∧ c ≠ octet '[' ∧ c ≠ octet '{')
    (htok : plainToken c = .atom (.chr c)) : Piece [c] (.lit c) := by
  apply Piece.atom (.chr c)
  · intro rest
    simp [ereLex, hlex, htok]
  · exact chr_matches c

theorem piece_escaped (c : UInt8) (h : ereSpecial c = true) : Piece [octet '\\', c] (.lit c) := by
  apply Piece.atom (.chr c)
  · intro rest
    simp [ereLex, h]
  · exact chr_matches c

/-- A bracket expression carries its list over. -/
theorem piece_set (negated : Bool) (c : UInt8) (list : Bytes) (hend : octet ']' ∉ list)
    (hclass : NoClass (c :: list)) (hmark : negated = false → c ≠ octet '^') :
    Piece (octet '[' :: ((if negated then [octet '^'] else []) ++ c :: list ++ [octet ']']))
      (.set negated (c :: list)) := by
  apply Piece.atom (.set ⟨negated, setItems (c :: list)⟩)
  · intro rest
    have hlex := ereLex_bracket negated c list rest hend hclass hmark
    simpa only [List.cons_append, List.append_assoc, List.nil_append] using hlex
  · exact set_matches negated (c :: list)

/-- An octet between brackets stands for itself. -/
theorem piece_quoted (c : UInt8) (h : c ≠ octet '^') :
    Piece [octet '[', c, octet ']'] (.lit c) := by
  have hclass : NoClass [c] := by
    intro d hd hin
    have := hin.length_le
    simp at this
  apply Piece.atom (.set ⟨false, setItems [c]⟩)
  · intro rest
    have hlex := ereLex_bracket false c [] rest (by simp) hclass fun _ => h
    simpa using hlex
  · intro subject i j
    rw [set_matches]
    simp [GlobItem.Matches, setItems, CharSet.contains, SetItem.contains]

theorem piece_star : Piece [octet '.', octet '*'] .star := by
  refine ⟨[.atom .any, .star], .star .any, fun rest => ?_, fun p => rfl, star_any_matches⟩
  simp [ereLex, octet, plainToken, Function.comp_def]

theorem piece_any : Piece [octet '.'] .any := by
  apply Piece.atom .any
  · intro rest
    simp [ereLex, octet, plainToken]
  · exact any_matches

theorem piece_bol : Piece [octet '^'] .bol := by
  apply Piece.atom .bol
  · intro rest
    simp [ereLex, octet, plainToken]
  · exact bol_matches

theorem piece_eol : Piece [octet '$'] .eol := by
  apply Piece.atom .eol
  · intro rest
    simp [ereLex, octet, plainToken]
  · exact eol_matches

/-! ## One iteration of the loop -/

theorem classInside_iff (list : Bytes) : classInside list = true ↔ HasClass list := by
  induction list with
  | nil => simp [classInside, HasClass]
  | cons c list ih =>
    cases list with
    | nil => simp [classInside, HasClass, List.infix_cons_iff]
    | cons c2 rest =>
      simp only [classInside, Bool.or_eq_true, Bool.and_eq_true, decide_eq_true_eq, ih]
      constructor
      · rintro (⟨rfl, hc2⟩ | ⟨d, hd, hin⟩)
        · exact ⟨c2, by simpa only [or_assoc] using hc2, (List.prefix_append [octet '[', c2] rest).isInfix⟩
        · exact ⟨d, hd, hin.trans (List.suffix_cons c _).isInfix⟩
      · rintro ⟨d, hd, hin⟩
        rcases List.infix_cons_iff.mp hin with hpre | hin
        · simp only [List.cons_prefix_cons] at hpre
          obtain ⟨rfl, rfl, -⟩ := hpre
          exact .inl ⟨rfl, by simpa only [or_assoc] using hd⟩
        · exact .inr ⟨d, hd, hin⟩

/-- The closing `]` makes no difference. -/
theorem classInside_append (list : Bytes) :
    classInside (list ++ [octet ']']) = classInside list := by
  have hclose : (octet ']' = octet ':') = False ∧ (octet ']' = octet '.') = False ∧
      (octet ']' = octet '=') = False := by decide
  induction list with
  | nil => rfl
  | cons c list ih =>
    cases list with
    | nil => simp [classInside, hclose]
    | cons c2 rest =>
      simp only [List.cons_append, classInside] at ih ⊢
      rw [ih]

theorem noClass_iff (list : Bytes) : NoClass list ↔ ¬ HasClass list := by
  simp only [NoClass, HasClass, opensClass, Bool.or_eq_true, decide_eq_true_eq]
  constructor
  · rintro h ⟨c, hc, hin⟩
    exact h c (by tauto) hin
  · intro h c hc hin
    exact h ⟨c, by tauto, hin⟩

/-- The list up to the next `]`. -/
theorem globList_append (list rest : Bytes) (h : octet ']' ∉ list) :
    globList (list ++ octet ']' :: rest) =
      if classInside list then none else some (list ++ [octet ']'], rest) := by
  have hfind := findIdx?_of_not_mem h rest
  have htake : (list ++ octet ']' :: rest).take (list.length + 1) = list ++ [octet ']'] := by
    rw [List.take_append, List.take_of_length_le (by omega)]
    simp
  have hdrop : (list ++ octet ']' :: rest).drop (list.length + 1) = rest := by
    rw [List.drop_append, List.drop_of_length_le (by omega)]
    simp
  unfold globList
  rw [hfind]
  simp only [htake, hdrop, classInside_append]

/-- Without a `]` there is no list. -/
theorem globList_eq_some {inp copied rest : Bytes} (h : globList inp = some (copied, rest)) :
    ∃ list, octet ']' ∉ list ∧ inp = list ++ octet ']' :: rest := by
  by_cases hin : octet ']' ∈ inp
  · obtain ⟨list, tail, heq, hnot⟩ := List.eq_append_cons_of_mem hin
    rw [heq, globList_append list tail hnot] at h
    split at h
    · cases h
    · simp only [Option.some.injEq, Prod.mk.injEq] at h
      exact ⟨list, hnot, h.2 ▸ heq⟩
  · simp [globList, findIdx?_eq_none hin] at h

theorem classInside_close (list : Bytes) :
    classInside (octet ']' :: list) = classInside list := by
  have hclose : (octet ']' = octet '[') = False := by decide
  cases list with
  | nil => rfl
  | cons c list => simp [classInside, hclose]

/-- The list behind `[` and its mark is copied. -/
theorem globFirst_append (mark list rest : Bytes) (hne : list ≠ []) (h : octet ']' ∉ list.tail) :
    globFirst mark (list ++ octet ']' :: rest) =
      if classInside list then none
      else some (octet '[' :: (mark ++ list ++ [octet ']']), rest) := by
  obtain ⟨c, list, rfl⟩ := List.exists_cons_of_ne_nil hne
  rw [List.tail_cons] at h
  by_cases hc : c = octet ']'
  · subst hc
    rw [classInside_close]
    simp only [List.cons_append, globFirst, if_true, globList_append list rest h]
    split <;> simp
  · have hnot : octet ']' ∉ c :: list := by
      simp only [List.mem_cons, not_or]
      exact ⟨fun heq => hc heq.symm, h⟩
    have hlist := globList_append (c :: list) rest hnot
    rw [List.cons_append] at hlist
    simp only [List.cons_append, globFirst, if_neg hc, hlist]
    split <;> simp

theorem globFirst_eq_some {mark inp out rest : Bytes} (h : globFirst mark inp = some (out, rest)) :
    ∃ list, list ≠ [] ∧ octet ']' ∉ list.tail ∧ inp = list ++ octet ']' :: rest := by
  cases inp with
  | nil => cases h
  | cons c inp =>
    by_cases hc : c = octet ']'
    · simp only [globFirst, if_pos hc, Option.map_eq_some_iff] at h
      obtain ⟨⟨copied, rest'⟩, hlist, heq⟩ := h
      obtain ⟨list, hnot, rfl⟩ := globList_eq_some hlist
      simp only [Prod.mk.injEq] at heq
      exact ⟨c :: list, by simp, hnot, by simp [heq.2]⟩
    · simp only [globFirst, if_neg hc, Option.map_eq_some_iff] at h
      obtain ⟨⟨copied, rest'⟩, hlist, heq⟩ := h
      obtain ⟨list, hnot, htext⟩ := globList_eq_some hlist
      simp only [Prod.mk.injEq] at heq
      refine ⟨list, ?_, fun hin => hnot (List.mem_of_mem_tail hin), heq.2 ▸ htext⟩
      rintro rfl
      exact hc (List.cons.inj htext).1

/-- A bracket expression is copied unless there is a class inside. -/
theorem globBracket_of_bracket {text list rest : Bytes} {negated : Bool}
    (h : Bracket text negated list rest) :
    globBracket text = if classInside list then none
      else some (octet '[' :: ((if negated then [octet '^'] else []) ++ list ++ [octet ']']),
        rest) := by
  obtain ⟨hne, htail, ⟨rfl, rfl | rfl⟩ | ⟨rfl, rfl, hbang, hcaret⟩⟩ := h
  · simp [globBracket, globFirst_append _ list rest hne htail]
  · simp [globBracket, globFirst_append _ list rest hne htail]
  · have hfirst := globFirst_append [] list rest hne htail
    obtain ⟨c, list, rfl⟩ := List.exists_cons_of_ne_nil hne
    simp only [List.head?_cons, ne_eq, Option.some.injEq] at hbang hcaret
    simp only [List.cons_append, globBracket, if_neg (not_or.mpr ⟨hbang, hcaret⟩)] at hfirst ⊢
    exact hfirst

/-- Only a bracket expression is copied. -/
theorem globBracket_eq_some {text out rest : Bytes} (h : globBracket text = some (out, rest)) :
    ∃ negated list, Bracket text negated list rest := by
  cases text with
  | nil => cases h
  | cons c text =>
    simp only [globBracket] at h
    split at h
    · rename_i hmark
      obtain ⟨list, hne, htail, rfl⟩ := globFirst_eq_some h
      refine ⟨true, list, hne, htail, .inl ⟨rfl, ?_⟩⟩
      simpa using hmark
    · rename_i hmark
      obtain ⟨list, hne, htail, htext⟩ := globFirst_eq_some h
      refine ⟨false, list, hne, htail, .inr ⟨rfl, htext, ?_⟩⟩
      obtain ⟨d, list, rfl⟩ := List.exists_cons_of_ne_nil hne
      obtain ⟨rfl, -⟩ := List.cons.inj htext
      simpa only [List.head?_cons, ne_eq, Option.some.injEq, not_or] using hmark

theorem First.length_lt {start : Bool} {text rest : Bytes} {it : GlobItem}
    (h : First start text it rest) : rest.length < text.length := by
  cases h with
  | star | any | bol | eol | plain => simp
  | escaped =>
    simp only [List.length_cons]
    omega
  | bracket text list _ negated hbracket =>
    obtain ⟨-, -, ⟨-, rfl | rfl⟩ | ⟨-, rfl, -⟩⟩ := hbracket <;>
      simp only [List.length_cons, List.length_append] <;> omega

/-- A plain octet: quoted where it is special in an ERE, copied elsewhere. -/
theorem glob2reStep_plain {start : Bool} {c : UInt8} {inp : Bytes} (hstar : c ≠ octet '*')
    (hany : c ≠ octet '?') (hopen : c ≠ octet '[') (hback : c ≠ octet '\\')
    (hcaret : c = octet '^' → start = false) (hdollar : c = octet '$' → inp ≠ []) :
    ∃ text, glob2reStep start c inp = some (text, inp) ∧ Piece text (.lit c) := by
  simp only [glob2reStep, if_neg hstar, if_neg hany, if_neg hopen, if_neg hback]
  split
  · rename_i hc
    rw [← hc]
    exact ⟨_, rfl, piece_plain c (by subst hc; decide) (by subst hc; decide)⟩
  split
  · rename_i hc
    refine ⟨_, rfl, ?_⟩
    rw [hcaret hc, hc]
    exact piece_escaped _ (by decide)
  split
  · rename_i hc
    refine ⟨_, rfl, ?_⟩
    rw [if_neg (hdollar hc), hc]
    exact piece_quoted _ (by decide)
  split
  · rename_i hcaret hdollar hc
    exact ⟨_, rfl, piece_quoted _ hcaret⟩
  · rename_i hcaret hdollar hc
    simp only [not_or] at hc
    refine ⟨_, rfl, piece_plain c ⟨hback, hopen, hc.2.2.2.2.2.2.2.1⟩ ?_⟩
    simp [plainToken, hstar, hany, hcaret, hdollar, hc]

/-- The iteration on an item appends a piece that means the item. -/
theorem glob2reStep_of_first {start : Bool} {c : UInt8} {inp rest : Bytes} {it : GlobItem}
    (h : First start (c :: inp) it rest) :
    ∃ text, glob2reStep start c inp = some (text, rest) ∧ Piece text it := by
  cases h with
  | star => exact ⟨_, rfl, piece_star⟩
  | any => exact ⟨_, rfl, piece_any⟩
  | bol _ hstart => exact ⟨_, by rw [hstart]; rfl, piece_bol⟩
  | eol => exact ⟨_, rfl, piece_eol⟩
  | plain _ _ hstar hany hopen hback hcaret hdollar =>
    exact glob2reStep_plain hstar hany hopen hback hcaret hdollar
  | escaped c _ hc =>
    obtain rfl | rfl | rfl | rfl | rfl := hc
    · exact ⟨_, rfl, piece_escaped _ (by decide)⟩
    all_goals exact ⟨_, rfl, piece_quoted _ (by decide)⟩
  | bracket _ list _ negated hbracket hclass =>
    have hinside : classInside list = false := by
      rw [← Bool.not_eq_true, classInside_iff]
      exact hclass
    have hstep : glob2reStep start (octet '[') inp = globBracket inp := rfl
    rw [hstep, globBracket_of_bracket hbracket, hinside]
    refine ⟨_, rfl, ?_⟩
    obtain ⟨hne, htail, hmark⟩ := hbracket
    obtain ⟨c, list, rfl⟩ := List.exists_cons_of_ne_nil hne
    apply piece_set negated c list htail ((noClass_iff _).mpr hclass)
    rintro rfl rfl
    obtain ⟨h, -⟩ | ⟨-, -, -, hcaret⟩ := hmark
    · cases h
    · exact hcaret rfl

theorem glob2reStep_of_broken {start : Bool} {c : UInt8} {inp : Bytes} (h : Broken (c :: inp)) :
    glob2reStep start c inp = none := by
  cases h with
  | unterminated _ hno =>
    have hstep : glob2reStep start (octet '[') inp = globBracket inp := rfl
    rw [hstep]
    cases hout : globBracket inp with
    | none => rfl
    | some out =>
      obtain ⟨negated, list, hbracket⟩ := globBracket_eq_some hout
      exact absurd hbracket (hno _ _ _)
  | classInside _ list rest negated hbracket hclass =>
    have hstep : glob2reStep start (octet '[') inp = globBracket inp := rfl
    rw [hstep, globBracket_of_bracket hbracket, if_pos ((classInside_iff list).mpr hclass)]
  | escape _ hno =>
    cases inp with
    | nil => rfl
    | cons c rest =>
      have hc := hno c rest rfl
      simp only [Escapable, not_or] at hc
      have hstep : glob2reStep start (octet '\\') (c :: rest) =
          if c = octet '\\' then some ([octet '\\', octet '\\'], rest)
          else if c = octet '*' ∨ c = octet '?' ∨ c = octet '[' ∨ c = octet ']' then
            some ([octet '[', c, octet ']'], rest)
          else none := rfl
      rw [hstep, if_neg hc.1, if_neg (by tauto)]

/-- A pattern that is not at its end begins with an item or is broken. -/
theorem first_or_broken (start : Bool) (c : UInt8) (inp : Bytes) :
    (∃ it rest, First start (c :: inp) it rest) ∨ Broken (c :: inp) := by
  by_cases hstar : c = octet '*'
  · subst hstar
    exact .inl ⟨_, _, .star inp⟩
  by_cases hany : c = octet '?'
  · subst hany
    exact .inl ⟨_, _, .any inp⟩
  by_cases hopen : c = octet '['
  · subst hopen
    by_cases hbracket : ∃ negated list rest, Bracket inp negated list rest
    · obtain ⟨negated, list, rest, hbracket⟩ := hbracket
      by_cases hclass : HasClass list
      · exact .inr (.classInside _ _ _ _ hbracket hclass)
      · exact .inl ⟨_, _, .bracket _ _ _ _ hbracket hclass⟩
    · exact .inr (.unterminated _ fun negated list rest h => hbracket ⟨negated, list, rest, h⟩)
  by_cases hback : c = octet '\\'
  · subst hback
    by_cases hescape : ∃ d rest, inp = d :: rest ∧ Escapable d
    · obtain ⟨d, rest, rfl, hd⟩ := hescape
      exact .inl ⟨_, _, .escaped d rest hd⟩
    · exact .inr (.escape _ fun d rest heq hd => hescape ⟨d, rest, heq, hd⟩)
  by_cases hcaret : c = octet '^' ∧ start = true
  · obtain ⟨rfl, hstart⟩ := hcaret
    exact .inl ⟨_, _, .bol inp hstart⟩
  by_cases hdollar : c = octet '$' ∧ inp = []
  · obtain ⟨rfl, rfl⟩ := hdollar
    exact .inl ⟨_, _, .eol⟩
  refine .inl ⟨_, _, .plain c inp hstar hany hopen hback ?_ ?_⟩
  · intro hc
    simpa [hc] using hcaret
  · intro hc
    simpa [hc] using hdollar

/-! ## The whole pattern -/

theorem reads_or_faulty (start : Bool) (text : Bytes) :
    (∃ its, Reads start text its) ∨ Faulty start text := by
  induction hn : text.length using Nat.strong_induction_on generalizing start text with
  | _ n ih =>
    subst hn
    cases text with
    | nil => exact .inl ⟨[], .nil start⟩
    | cons c inp =>
      obtain ⟨it, rest, hfirst⟩ | hbroken := first_or_broken start c inp
      · obtain ⟨its, hreads⟩ | hfaulty := ih _ hfirst.length_lt false rest rfl
        · exact .inl ⟨it :: its, .cons hfirst hreads⟩
        · exact .inr (.later hfirst hfaulty)
      · exact .inr (.here hbroken)

/-- The output reads as a sequence of expressions with the meaning of the items. -/
def Pieces (text : Bytes) (its : List GlobItem) : Prop :=
  ∃ tokens es, (∀ rest, ereLex .plain (text ++ rest) = (ereLex .plain rest).map (tokens ++ ·)) ∧
    (∀ p : EreParser,
      EreParser.run tokens p = some { p with branch := es.reverse ++ p.branch }) ∧
    es.length = its.length ∧
    ∀ subject i j, seqMatches subject es i j ↔ itemsMatch subject its i j

theorem Pieces.nil : Pieces [] [] := by
  refine ⟨[], [], fun rest => ?_, fun p => rfl, rfl, fun subject i j => Iff.rfl⟩
  simp

theorem Pieces.cons {text text' : Bytes} {it : GlobItem} {its : List GlobItem}
    (h : Piece text it) (h' : Pieces text' its) : Pieces (text ++ text') (it :: its) := by
  obtain ⟨tokens, e, hlex, hrun, hmeans⟩ := h
  obtain ⟨tokens', es, hlex', hrun', hlen, hmeans'⟩ := h'
  refine ⟨tokens ++ tokens', e :: es, ?_, ?_, ?_, ?_⟩
  · intro rest
    rw [List.append_assoc, hlex, hlex', Option.map_map]
    congr 1
    funext ts
    simp
  · intro p
    rw [EreParser.run_append, hrun, Option.bind_some, hrun']
    simp
  · simp [hlen]
  · intro subject i j
    simp only [seqMatches, itemsMatch, hmeans, hmeans']

/-- The loop on a pattern that can be read. -/
theorem glob2reLoop_of_reads {start : Bool} {text : Bytes} {its : List GlobItem}
    (h : Reads start text its) (n : Nat) (hn : text.length ≤ n) :
    ∃ out, glob2reLoop n start text = some out ∧ Pieces out its := by
  induction h generalizing n with
  | nil start =>
    refine ⟨[], ?_, .nil⟩
    cases n <;> rfl
  | @cons start text rest it its hfirst _ ih =>
    have hlt := hfirst.length_lt
    cases text with
    | nil => simp at hlt
    | cons c inp =>
      cases n with
      | zero => simp at hn
      | succ n =>
        obtain ⟨piece, hstep, hpiece⟩ := glob2reStep_of_first hfirst
        obtain ⟨out, hloop, hout⟩ := ih n (by omega)
        refine ⟨piece ++ out, ?_, .cons hpiece hout⟩
        simp [glob2reLoop, hstep, hloop]

/-- The loop on a pattern that cannot. -/
theorem glob2reLoop_of_faulty {start : Bool} {text : Bytes} (h : Faulty start text) (n : Nat) :
    glob2reLoop n start text = none := by
  induction h generalizing n with
  | @here start text hbroken =>
    cases text with
    | nil => cases hbroken
    | cons c inp =>
      cases n with
      | zero => rfl
      | succ n => simp [glob2reLoop, glob2reStep_of_broken hbroken]
  | @later start text rest it hfirst _ ih =>
    cases text with
    | nil =>
      have := hfirst.length_lt
      simp at this
    | cons c inp =>
      cases n with
      | zero => rfl
      | succ n =>
        obtain ⟨piece, hstep, -⟩ := glob2reStep_of_first hfirst
        simp [glob2reLoop, hstep, ih n]

/-- The output for a pattern that can be read is an ERE with the meaning of the items. -/
theorem Pieces.parse {out : Bytes} {its : List GlobItem} (h : Pieces out its) (hne : its ≠ []) :
    ∃ e, ereParse out = some e ∧
      ∀ subject i j, e.Matches subject i j ↔ itemsMatch subject its i j := by
  obtain ⟨tokens, es, hlex, hrun, hlen, hmeans⟩ := h
  have hes : es.reverse ≠ [] := by
    rintro hnil
    apply hne
    rw [← List.length_eq_zero_iff, ← hlen]
    simpa using hnil
  obtain ⟨e, hjoin, hmatch⟩ := joinBranch_matches es.reverse hes
  have hall : ereLex .plain out = some tokens := by
    simpa [ereLex] using hlex []
  refine ⟨e, ?_, fun subject i j => ?_⟩
  · rw [ereParse, hall, Option.bind_some, hrun, Option.bind_some]
    simp [EreParser.close, hjoin]
  · rw [hmatch, List.reverse_reverse, hmeans]

/-- `glob2re` refuses the broken patterns and no others, and what it returns for a
pattern that is not empty is an ERE that matches where the pattern does. -/
theorem glob2re_meaning (pattern : Bytes) (hnul : 0 ∉ pattern) :
    (glob2re pattern = none ↔ Faulty true pattern) ∧
      ∀ out, glob2re pattern = some out → pattern ≠ [] →
        ∃ e, ereParse out = some e ∧
          ∀ subject i j, e.Matches subject i j ↔ GlobMatches pattern subject i j := by
  have hloop : glob2re pattern = glob2reLoop pattern.length true pattern := by
    rw [glob2re, cstring_of_not_mem hnul]
  have hread : ∀ its, Reads true pattern its →
      ∃ out, glob2re pattern = some out ∧ Pieces out its := by
    intro its hreads
    rw [hloop]
    exact glob2reLoop_of_reads hreads _ le_rfl
  constructor
  · constructor
    · intro hnone
      obtain ⟨its, hreads⟩ | hfaulty := reads_or_faulty true pattern
      · obtain ⟨out, hout, -⟩ := hread its hreads
        rw [hnone] at hout
        cases hout
      · exact hfaulty
    · intro hfaulty
      rw [hloop]
      exact glob2reLoop_of_faulty hfaulty _
  · intro out hout hne
    -- every reading of the pattern is a reading of the one output
    have hparse : ∀ its, Reads true pattern its → ∃ e, ereParse out = some e ∧
        ∀ subject i j, e.Matches subject i j ↔ itemsMatch subject its i j := by
      intro its hreads
      obtain ⟨out', hout', hpieces⟩ := hread its hreads
      rw [hout, Option.some.injEq] at hout'
      subst hout'
      apply hpieces.parse
      rintro rfl
      cases hreads
      exact hne rfl
    obtain ⟨its, hreads⟩ | hfaulty := reads_or_faulty true pattern
    · obtain ⟨e, he, hmeans⟩ := hparse its hreads
      refine ⟨e, he, fun subject i j => ?_⟩
      constructor
      · intro hmatch
        exact ⟨its, hreads, (hmeans subject i j).mp hmatch⟩
      · rintro ⟨its', hreads', hmatch⟩
        obtain ⟨e', he', hmeans'⟩ := hparse its' hreads'
        rw [he, Option.some.injEq] at he'
        subst he'
        exact (hmeans' subject i j).mpr hmatch
    · rw [hloop, glob2reLoop_of_faulty hfaulty] at hout
      cases hout

/-- `^[!a-c]*\?$`, with its translation `^[^a-c].*[?]$`. -/
theorem glob2re_meaning_anchored :
    glob2re ("^[!a-c]*\\?$".toList.map octet) = some ("^[^a-c].*[?]$".toList.map octet) ∧
      ∃ e, ereParse ("^[^a-c].*[?]$".toList.map octet) = some e ∧
        ∀ subject i j, e.Matches subject i j ↔
          GlobMatches ("^[!a-c]*\\?$".toList.map octet) subject i j := by
  have hout : glob2re ("^[!a-c]*\\?$".toList.map octet) =
      some ("^[^a-c].*[?]$".toList.map octet) := by decide
  exact ⟨hout, (glob2re_meaning _ (by decide)).2 _ hout (by decide)⟩

/-- The empty pattern becomes the empty string, which the grammar of extended regular
expressions does not derive. -/
theorem glob2re_empty :
    (0 : UInt8) ∉ ([] : Bytes) ∧ glob2re [] = some [] ∧
      ¬ ∃ e, ereParse [] = some e ∧ ∀ subject i j, e.Matches subject i j ↔
        GlobMatches [] subject i j := by
  refine ⟨by simp, rfl, ?_⟩
  rintro ⟨e, he, -⟩
  cases he

end Sexpect.Guarantees
