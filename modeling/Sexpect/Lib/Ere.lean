import Sexpect.Lib.Bytes

/-!
# POSIX extended regular expressions over octets

The syntax of EREs in the POSIX locale, as a lexer that works octet by octet and
a shift-reduce parser for the grammar of extended regular expressions, and what
an ERE matches between two positions of a subject.  What POSIX leaves undefined
is rejected: an empty expression or branch, an ordinary character behind a
backslash, a duplication symbol behind nothing, an anchor or another duplication
symbol, a brace that is no interval, an unmatched parenthesis.  Collating symbols,
equivalence classes and character classes are not covered and rejected too; the
end points of a range are taken as they are.
-/
namespace Sexpect.Lib

/-! ## Bracket expressions -/

inductive SetItem where
  | single (c : UInt8)
  | range (lo hi : UInt8)
  deriving DecidableEq, Repr

structure CharSet where
  negated : Bool
  items : List SetItem
  deriving DecidableEq, Repr

def SetItem.contains : SetItem → UInt8 → Bool
  | .single d, c => c = d
  | .range lo hi, c => lo ≤ c && c ≤ hi

def CharSet.contains (set : CharSet) (c : UInt8) : Bool :=
  set.negated != set.items.any (·.contains c)

/-- The items of a list between brackets.  A hyphen between two octets makes a
range; elsewhere, first or last, it stands for itself. -/
def setItems : Bytes → List SetItem
  | lo :: hyphen :: hi :: rest =>
    if hyphen = octet '-' then .range lo hi :: setItems rest
    else .single lo :: setItems (hyphen :: hi :: rest)
  | c :: rest => .single c :: setItems rest
  | [] => []

/-- The octets behind a `[` in a list that open a collating symbol, an equivalence
class or a character class. -/
def opensClass (c : UInt8) : Bool := c = octet '.' || c = octet '=' || c = octet ':'

/-! ## Expressions and their matches -/

inductive Ere where
  | chr (c : UInt8)
  | any
  | set (set : CharSet)
  | bol
  | eol
  | group (e : Ere)
  | star (e : Ere)
  | plus (e : Ere)
  | opt (e : Ere)
  | interval (min : Nat) (max : Option Nat) (e : Ere)
  | cat (a b : Ere)
  | alt (a b : Ere)
  deriving DecidableEq, Repr

/-- An expression matches a subject from position `i` up to position `j`.  Anchors
match at the ends of the subject only, and the dot matches every octet. -/
inductive Ere.Matches (subject : Bytes) : Ere → Nat → Nat → Prop
  | chr {c : UInt8} {i : Nat} : subject[i]? = some c → Matches subject (.chr c) i (i + 1)
  | any {c : UInt8} {i : Nat} : subject[i]? = some c → Matches subject .any i (i + 1)
  | set {c : UInt8} {i : Nat} {set : CharSet} : subject[i]? = some c → set.contains c = true →
      Matches subject (.set set) i (i + 1)
  | bol : Matches subject .bol 0 0
  | eol : Matches subject .eol subject.length subject.length
  | group {e : Ere} {i j : Nat} : Matches subject e i j → Matches subject (.group e) i j
  | starNone {e : Ere} {i : Nat} : i ≤ subject.length → Matches subject (.star e) i i
  | starMore {e : Ere} {i k j : Nat} : Matches subject e i k → Matches subject (.star e) k j →
      Matches subject (.star e) i j
  | plus {e : Ere} {i k j : Nat} : Matches subject e i k → Matches subject (.star e) k j →
      Matches subject (.plus e) i j
  | optNone {e : Ere} {i : Nat} : i ≤ subject.length → Matches subject (.opt e) i i
  | optSome {e : Ere} {i j : Nat} : Matches subject e i j → Matches subject (.opt e) i j
  | intervalNone {max : Option Nat} {e : Ere} {i : Nat} : i ≤ subject.length →
      Matches subject (.interval 0 max e) i i
  | intervalMore {min : Nat} {max : Option Nat} {e : Ere} {i k j : Nat} : max ≠ some 0 →
      Matches subject e i k → Matches subject (.interval (min - 1) (max.map (· - 1)) e) k j →
      Matches subject (.interval min max e) i j
  | cat {a b : Ere} {i k j : Nat} : Matches subject a i k → Matches subject b k j →
      Matches subject (.cat a b) i j
  | altLeft {a b : Ere} {i j : Nat} : Matches subject a i j → Matches subject (.alt a b) i j
  | altRight {a b : Ere} {i j : Nat} : Matches subject b i j → Matches subject (.alt a b) i j

/-- A match lies inside the subject. -/
theorem Ere.Matches.le {subject : Bytes} {e : Ere} {i j : Nat} (h : e.Matches subject i j) :
    i ≤ j ∧ j ≤ subject.length := by
  have hcell : ∀ {i : Nat} {c : UInt8}, subject[i]? = some c → i < subject.length := by
    intro i c hc
    exact (List.getElem?_eq_some_iff.mp hc).1
  induction h with
  | chr hc | any hc | set hc _ =>
    have := hcell hc
    omega
  | bol | eol => omega
  | group _ ih | optSome _ ih | altLeft _ ih | altRight _ ih => exact ih
  | starNone hi | optNone hi | intervalNone hi => omega
  | starMore _ _ ih1 ih2 | plus _ _ ih1 ih2 | cat _ _ ih1 ih2 | intervalMore _ _ _ ih1 ih2 => omega

/-! ## Tokens -/

inductive EreToken where
  | atom (e : Ere)
  | star
  | plus
  | opt
  | interval (min : Nat) (max : Option Nat)
  | bar
  | lparen
  | rparen
  deriving DecidableEq, Repr

/-- The octets a backslash makes ordinary. -/
def ereSpecial (c : UInt8) : Bool :=
  c ∈ [octet '^', octet '.', octet '[', octet '$', octet '(', octet ')', octet '|', octet '*',
    octet '+', octet '?', octet '{', octet '\\']

/-- A single octet outside brackets, braces and escapes. -/
def plainToken (c : UInt8) : EreToken :=
  if c = octet '.' then .atom .any
  else if c = octet '^' then .atom .bol
  else if c = octet '$' then .atom .eol
  else if c = octet '*' then .star
  else if c = octet '+' then .plus
  else if c = octet '?' then .opt
  else if c = octet '|' then .bar
  else if c = octet '(' then .lparen
  else if c = octet ')' then .rparen
  else .atom (.chr c)

/-- What the lexer is inside of.  The list of a bracket expression and the numbers
of an interval are collected, the list last octet first. -/
inductive LexMode where
  | plain
  | escape
  | opened
  | first
  | list (negated : Bool) (body : Bytes)
  | bracket (negated : Bool) (body : Bytes)
  | low (n : Option Nat)
  | high (low : Nat) (n : Option Nat)
  deriving DecidableEq, Repr

def digit? (c : UInt8) : Option Nat :=
  if octet '0' ≤ c ∧ c ≤ octet '9' then some (c.toNat - 48) else none

/-- The mode behind an octet of a list. -/
def listMode (negated : Bool) (body : Bytes) (c : UInt8) : LexMode :=
  if c = octet '[' then .bracket negated (c :: body) else .list negated (c :: body)

def ereLex : LexMode → Bytes → Option (List EreToken)
  | .plain, [] => some []
  | _, [] => none
  | .plain, c :: rest =>
    if c = octet '\\' then ereLex .escape rest
    else if c = octet '[' then ereLex .opened rest
    else if c = octet '{' then ereLex (.low none) rest
    else (ereLex .plain rest).map (plainToken c :: ·)
  | .escape, c :: rest =>
    if ereSpecial c then (ereLex .plain rest).map (.atom (.chr c) :: ·) else none
  | .opened, c :: rest =>
    if c = octet '^' then ereLex .first rest else ereLex (listMode false [] c) rest
  | .first, c :: rest => ereLex (listMode true [] c) rest
  | .list negated body, c :: rest =>
    if c = octet ']' then
      (ereLex .plain rest).map (.atom (.set ⟨negated, setItems body.reverse⟩) :: ·)
    else ereLex (listMode negated body c) rest
  | .bracket negated body, c :: rest =>
    if opensClass c then none
    else if c = octet ']' then
      (ereLex .plain rest).map (.atom (.set ⟨negated, setItems body.reverse⟩) :: ·)
    else ereLex (listMode negated body c) rest
  | .low n, c :: rest =>
    match n, digit? c with
    | n, some d => ereLex (.low (some (n.getD 0 * 10 + d))) rest
    | some n, none =>
      if c = octet ',' then ereLex (.high n none) rest
      else if c = octet '}' then (ereLex .plain rest).map (.interval n (some n) :: ·)
      else none
    | none, none => none
  | .high low n, c :: rest =>
    match digit? c with
    | some d => ereLex (.high low (some (n.getD 0 * 10 + d))) rest
    | none =>
      if c = octet '}' ∧ (∀ m ∈ n, low ≤ m) then
        (ereLex .plain rest).map (.interval low n :: ·)
      else none

/-! ## The parser -/

/-- The alternatives completed at this level, the expressions of the branch being
read, last first, and the enclosing levels. -/
structure EreParser where
  alts : List Ere := []
  branch : List Ere := []
  levels : List (List Ere × List Ere) := []
  deriving DecidableEq, Repr

/-- An expression that a duplication symbol may follow. -/
def Ere.repeatable : Ere → Bool
  | .chr _ | .any | .set _ | .group _ => true
  | _ => false

/-- A branch from its expressions, last first; there is no empty branch. -/
def joinBranch : List Ere → Option Ere
  | [] => none
  | [e] => some e
  | e :: es => (joinBranch es).map (.cat · e)

/-- The expression of a level. -/
def EreParser.close (p : EreParser) : Option Ere :=
  (joinBranch p.branch).map fun e => p.alts.foldl (fun acc a => .alt a acc) e

def EreParser.repeatLast (f : Ere → Ere) (p : EreParser) : Option EreParser :=
  match p.branch with
  | e :: es => if e.repeatable then some { p with branch := f e :: es } else none
  | [] => none

def EreParser.step (p : EreParser) : EreToken → Option EreParser
  | .atom e => some { p with branch := e :: p.branch }
  | .star => p.repeatLast .star
  | .plus => p.repeatLast .plus
  | .opt => p.repeatLast .opt
  | .interval min max => p.repeatLast (.interval min max)
  | .bar => (joinBranch p.branch).map fun e => { p with alts := e :: p.alts, branch := [] }
  | .lparen => some { alts := [], branch := [], levels := (p.alts, p.branch) :: p.levels }
  | .rparen =>
    match p.levels, p.close with
    | (alts, branch) :: levels, some e =>
      some { alts := alts, branch := .group e :: branch, levels := levels }
    | _, _ => none

def EreParser.run : List EreToken → EreParser → Option EreParser
  | [], p => some p
  | t :: ts, p => (p.step t).bind (run ts)

/-- The expression an octet string is, when it is one. -/
def ereParse (text : Bytes) : Option Ere :=
  ((ereLex .plain text).bind fun tokens => EreParser.run tokens {}).bind fun p =>
    if p.levels = [] then p.close else none

/-! ## Bracket expressions read back -/

/-- A list that opens no collating symbol, equivalence class or character class. -/
def NoClass (list : Bytes) : Prop := ∀ c, opensClass c = true → ¬ [octet '[', c] <:+: list

theorem NoClass.tail {c : UInt8} {list : Bytes} (h : NoClass (c :: list)) : NoClass list := by
  intro d hd hin
  exact h d hd (hin.trans (List.suffix_cons c list).isInfix)

theorem NoClass.second {d : UInt8} {list : Bytes} (h : NoClass (octet '[' :: d :: list)) :
    opensClass d = false := by
  cases hd : opensClass d with
  | false => rfl
  | true => exact absurd (List.prefix_append [octet '[', d] list).isInfix (h d hd)

/-- The rest of a list up to its `]`, behind its octet `c`. -/
theorem ereLex_listMode (negated : Bool) (body : Bytes) (c : UInt8) (list rest : Bytes)
    (hend : octet ']' ∉ list) (hclass : NoClass (c :: list)) :
    ereLex (listMode negated body c) (list ++ octet ']' :: rest) =
      (ereLex .plain rest).map
        (.atom (.set ⟨negated, setItems (body.reverse ++ c :: list)⟩) :: ·) := by
  induction list generalizing body c with
  | nil =>
    have hclose : opensClass (octet ']') = false := by decide
    unfold listMode
    split <;> simp [ereLex, hclose]
  | cons d list ih =>
    simp only [List.mem_cons, not_or] at hend
    have hd : d ≠ octet ']' := fun h => hend.1 h.symm
    have hnext := ih (c :: body) d hend.2 hclass.tail
    rw [List.reverse_cons, List.append_assoc, List.singleton_append] at hnext
    rw [← hnext, listMode]
    split
    · rename_i hc
      subst hc
      simp [ereLex, hclass.second, hd]
    · simp [ereLex, hd]

/-- A bracket expression is one token, whatever follows it. -/
theorem ereLex_bracket (negated : Bool) (c : UInt8) (list rest : Bytes)
    (hend : octet ']' ∉ list) (hclass : NoClass (c :: list))
    (hmark : negated = false → c ≠ octet '^') :
    ereLex .plain
        (octet '[' :: ((if negated then [octet '^'] else []) ++ c :: list ++ octet ']' :: rest)) =
      (ereLex .plain rest).map (.atom (.set ⟨negated, setItems (c :: list)⟩) :: ·) := by
  have hopen : octet '[' ≠ octet '\\' := by decide
  have hlist := ereLex_listMode negated [] c list rest hend hclass
  rw [List.reverse_nil, List.nil_append] at hlist
  cases negated with
  | true => simpa [ereLex, hopen] using hlist
  | false => simpa [ereLex, hopen, hmark rfl] using hlist

/-! ## Sequences of expressions -/

/-- Expressions one after the other. -/
def seqMatches (subject : Bytes) : List Ere → Nat → Nat → Prop
  | [], i, j => i = j ∧ j ≤ subject.length
  | e :: es, i, j => ∃ k, e.Matches subject i k ∧ seqMatches subject es k j

theorem seqMatches_append (subject : Bytes) (es es' : List Ere) (i j : Nat) :
    seqMatches subject (es ++ es') i j ↔
      ∃ k, seqMatches subject es i k ∧ seqMatches subject es' k j := by
  induction es generalizing i with
  | nil =>
    constructor
    · intro h
      refine ⟨i, ⟨rfl, ?_⟩, h⟩
      cases es' with
      | nil => exact h.1 ▸ h.2
      | cons e es' =>
        obtain ⟨k, he, -⟩ := h
        have := he.le
        omega
    · rintro ⟨k, ⟨rfl, -⟩, h⟩
      exact h
  | cons e es ih =>
    simp only [List.cons_append, seqMatches, ih]
    constructor
    · rintro ⟨k, he, m, hes, hes'⟩
      exact ⟨m, ⟨k, he, hes⟩, hes'⟩
    · rintro ⟨m, ⟨k, he, hes⟩, hes'⟩
      exact ⟨k, he, m, hes, hes'⟩

theorem seqMatches_singleton (subject : Bytes) (e : Ere) (i j : Nat) :
    seqMatches subject [e] i j ↔ e.Matches subject i j := by
  constructor
  · rintro ⟨k, he, rfl, -⟩
    exact he
  · intro he
    exact ⟨j, he, rfl, he.le.2⟩

/-- A branch matches what its expressions match one after the other. -/
theorem joinBranch_matches (es : List Ere) (hne : es ≠ []) :
    ∃ e, joinBranch es = some e ∧
      ∀ subject i j, e.Matches subject i j ↔ seqMatches subject es.reverse i j := by
  induction es with
  | nil => exact absurd rfl hne
  | cons e es ih =>
    cases es with
    | nil => exact ⟨e, rfl, fun subject i j => (seqMatches_singleton subject e i j).symm⟩
    | cons e' es =>
      obtain ⟨b, hb, hm⟩ := ih (by simp)
      refine ⟨.cat b e, by simp [joinBranch, hb], fun subject i j => ?_⟩
      rw [List.reverse_cons, seqMatches_append]
      constructor
      · intro h
        cases h with
        | cat h1 h2 => exact ⟨_, (hm _ _ _).mp h1, (seqMatches_singleton _ _ _ _).mpr h2⟩
      · rintro ⟨k, h1, h2⟩
        exact .cat ((hm _ _ _).mpr h1) ((seqMatches_singleton _ _ _ _).mp h2)

/-- `.*` matches between any two positions. -/
theorem star_any_matches (subject : Bytes) (i j : Nat) :
    (Ere.star .any).Matches subject i j ↔ i ≤ j ∧ j ≤ subject.length := by
  constructor
  · intro h
    exact h.le
  · rintro ⟨hij, hj⟩
    obtain ⟨n, rfl⟩ := Nat.exists_eq_add_of_le hij
    induction n generalizing i with
    | zero => exact .starNone (by omega)
    | succ n ih =>
      have hi : i < subject.length := by omega
      have hrest := ih (i + 1) (by omega) (by omega)
      rw [Nat.add_right_comm] at hrest
      exact .starMore (.any (List.getElem?_eq_getElem hi)) hrest

theorem EreParser.run_append (ts ts' : List EreToken) (p : EreParser) :
    EreParser.run (ts ++ ts') p = (EreParser.run ts p).bind (EreParser.run ts') := by
  induction ts generalizing p with
  | nil => rfl
  | cons t ts ih =>
    simp only [List.cons_append, EreParser.run]
    cases p.step t with
    | none => rfl
    | some q => exact ih q

end Sexpect.Lib
