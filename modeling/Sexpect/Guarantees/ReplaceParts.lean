import Mathlib.Data.List.Chain
import Sexpect.Lib.Ere
import Sexpect.Source.Subst

/-!
# The parts of a `REPLACE`

`cli_subst_parse_repl` cuts a `REPLACE` at its references, `(0)` to `(9)`: the parts
read back give the text (`ReadsBack`), and there is one way only to cut it so.  With
`-cstring` the literals are unescaped one by one, and the first that cannot be, or
that would hold a zero octet, ends the program.
-/
namespace Sexpect.Guarantees
open Sexpect.Lib Sexpect.Source

/-- `(d)`. -/
def reference (d : Nat) : Bytes := [octet '(', UInt8.ofNat (48 + d), octet ')']

/-- There is a `(digit)` in the text. -/
def HasReference (s : Bytes) : Prop := ∃ d ≤ 9, reference d <:+: s

theorem isdigit_iff (c : UInt8) : isdigit c = true ↔ 48 ≤ c.toNat ∧ c.toNat ≤ 57 := by
  simp only [isdigit, Bool.and_eq_true, decide_eq_true_eq, UInt8.le_iff_toNat_le]
  exact Iff.rfl

theorem isdigit_ofNat {d : Nat} (hd : d ≤ 9) : isdigit (UInt8.ofNat (48 + d)) = true := by
  rw [isdigit_iff, UInt8.toNat_ofNat']
  omega

/-- A digit is that of its index. -/
theorem digit_eq {c : UInt8} (hc : isdigit c = true) : c = UInt8.ofNat (48 + (c.toNat - 48)) := by
  obtain ⟨hlo, hhi⟩ := (isdigit_iff c).mp hc
  apply UInt8.toNat_inj.mp
  rw [UInt8.toNat_ofNat']
  omega

/-! ## The search for a reference -/

/-- A search looks at the front and then goes on behind the first octet. -/
theorem findGroup_cons (c : UInt8) (cs : Bytes) :
    (∃ d ≤ 9, reference d <+: c :: cs ∧ findGroup (c :: cs) = some (0, d)) ∨
      (∀ d ≤ 9, ¬ reference d <+: c :: cs) ∧
        findGroup (c :: cs) = (findGroup cs).map fun (so, digit) => (so + 1, digit) := by
  cases cs with
  | nil => exact .inr ⟨by simp [reference], rfl⟩
  | cons c1 cs =>
    cases cs with
    | nil => exact .inr ⟨by simp [reference], rfl⟩
    | cons c2 rest =>
      by_cases h : c = octet '(' ∧ isdigit c1 = true ∧ c2 = octet ')'
      · obtain ⟨rfl, hdigit, rfl⟩ := h
        have hle := ((isdigit_iff c1).mp hdigit).2
        refine .inl ⟨c1.toNat - 48, by omega, ⟨rest, ?_⟩, ?_⟩
        · rw [reference, ← digit_eq hdigit]
          rfl
        · rw [findGroup]
          exact if_pos ⟨rfl, hdigit, rfl⟩
      · refine .inr ⟨fun d hd hpre => h ?_, by rw [findGroup]; exact if_neg h⟩
        simp only [reference, List.cons_prefix_cons, List.nil_prefix, and_true] at hpre
        exact ⟨hpre.1.symm, hpre.2.1 ▸ isdigit_ofNat hd, hpre.2.2.symm⟩

theorem HasReference.of_cons {c : UInt8} {cs : Bytes} (hfront : ∀ d ≤ 9, ¬ reference d <+: c :: cs)
    (h : HasReference (c :: cs)) : HasReference cs := by
  obtain ⟨d, hd, hin⟩ := h
  rcases List.infix_cons_iff.mp hin with hpre | htail
  · exact absurd hpre (hfront d hd)
  · exact ⟨d, hd, htail⟩

theorem findGroup_none {s : Bytes} (h : findGroup s = none) : ¬ HasReference s := by
  induction s with
  | nil =>
    rintro ⟨d, -, hin⟩
    simp [reference] at hin
  | cons c cs ih =>
    rcases findGroup_cons c cs with ⟨d, -, -, hsome⟩ | ⟨hfront, hmap⟩
    · rw [hsome] at h
      cases h
    · rw [hmap, Option.map_eq_none_iff] at h
      exact fun href => ih h (href.of_cons hfront)

/-- A reference that is found is the first one. -/
theorem findGroup_some {s : Bytes} {so d : Nat} (h : findGroup s = some (so, d)) :
    d ≤ 9 ∧ so ≤ s.length ∧ reference d <+: s.drop so ∧
      ∀ i < so, ∀ e ≤ 9, ¬ reference e <+: s.drop i := by
  induction s generalizing so with
  | nil => cases h
  | cons c cs ih =>
    rcases findGroup_cons c cs with ⟨d', hd, hpre, hsome⟩ | ⟨hfront, hmap⟩
    · rw [hsome] at h
      cases h
      exact ⟨hd, Nat.zero_le _, hpre, fun i hi => absurd hi (Nat.not_lt_zero i)⟩
    · rw [hmap, Option.map_eq_some_iff] at h
      obtain ⟨⟨so', d'⟩, hfound, heq⟩ := h
      cases heq
      obtain ⟨hd, hle, hpre, hfirst⟩ := ih hfound
      refine ⟨hd, by simpa using hle, hpre, ?_⟩
      intro i hi e he
      cases i with
      | zero => exact hfront e he
      | succ i => exact hfirst i (by omega) e he

/-- A text before the first reference has none. -/
theorem not_hasReference_take {s : Bytes} {so : Nat}
    (hfirst : ∀ i < so, ∀ e ≤ 9, ¬ reference e <+: s.drop i) : ¬ HasReference (s.take so) := by
  rintro ⟨e, he, a, b, hab⟩
  have hlen : a.length < so := by
    have := congrArg List.length hab
    simp only [List.length_append, List.length_take, reference, List.length_cons,
      List.length_nil] at this
    omega
  refine hfirst a.length hlen e he ⟨b ++ s.drop so, ?_⟩
  have hs : s = a ++ (reference e ++ (b ++ s.drop so)) := by
    rw [← List.append_assoc a, ← List.append_assoc, hab, List.take_append_drop]
  conv => rhs; rw [hs]
  rw [List.drop_left]

/-- Behind a text without references, the next one is found. -/
theorem findGroup_append {str : Bytes} (hstr : ¬ HasReference str) {d : Nat} (hd : d ≤ 9)
    (rest : Bytes) : findGroup (str ++ (reference d ++ rest)) = some (str.length, d) := by
  induction str with
  | nil =>
    rcases findGroup_cons (octet '(') (UInt8.ofNat (48 + d) :: octet ')' :: rest) with
      ⟨e, he, hpre, hsome⟩ | ⟨hfront, -⟩
    · simp only [reference, List.cons_prefix_cons, List.nil_prefix, and_true, true_and] at hpre
      have heq : e = d := by
        have := congrArg UInt8.toNat hpre
        simp only [UInt8.toNat_ofNat'] at this
        omega
      exact heq ▸ hsome
    · exact absurd ⟨rest, rfl⟩ (hfront d hd)
  | cons c cs ih =>
    have hcs : ¬ HasReference cs := by
      rintro ⟨e, he, hin⟩
      exact hstr ⟨e, he, List.infix_cons hin⟩
    rcases findGroup_cons c (cs ++ (reference d ++ rest)) with ⟨e, he, hpre, -⟩ | ⟨-, hmap⟩
    · exfalso
      -- a reference at the front either lies inside the text or runs into a parenthesis
      match cs with
      | [] =>
        simp only [reference, List.nil_append, List.cons_append, List.cons_prefix_cons] at hpre
        have := isdigit_ofNat he
        rw [hpre.2.1] at this
        exact absurd this (by decide)
      | [c1] =>
        simp only [reference, List.nil_append, List.cons_append, List.cons_prefix_cons] at hpre
        exact absurd hpre.2.2.1 (by decide)
      | c1 :: c2 :: cs =>
        simp only [reference, List.cons_append, List.cons_prefix_cons, List.nil_prefix,
          and_true] at hpre
        refine hstr ⟨e, he, List.IsPrefix.isInfix ⟨cs, ?_⟩⟩
        rw [reference, hpre.1, hpre.2.1, hpre.2.2]
        rfl
    · rw [List.cons_append, hmap, ih hcs]
      rfl

/-! ## The expression of the source -/

/-- `[(][0123456789][)]`. -/
def referenceEre : Ere :=
  .cat (.cat (.set ⟨false, [.single (octet '(')]⟩) (.set ⟨false, (ascii "0123456789").map .single⟩))
    (.set ⟨false, [.single (octet ')')]⟩)

theorem referenceEre_parse : ereParse (ascii "[(][0123456789][)]") = some referenceEre := by decide

theorem reference_prefix_iff (s : Bytes) (i d : Nat) :
    reference d <+: s.drop i ↔ s[i]? = some (octet '(') ∧
      s[i + 1]? = some (UInt8.ofNat (48 + d)) ∧ s[i + 2]? = some (octet ')') := by
  rw [← List.getElem?_drop (j := 1), ← List.getElem?_drop (j := 2), ← Nat.add_zero i,
    ← List.getElem?_drop (j := 0), Nat.add_zero]
  match s.drop i with
  | [] => simp [reference]
  | [a] => simp [reference]
  | [a, b] => simp [reference]
  | a :: b :: c :: rest =>
    simp only [reference, List.cons_prefix_cons, List.nil_prefix, and_true, List.getElem?_cons_zero,
      List.getElem?_cons_succ, Option.some.injEq, eq_comm]

/-- The list of the second bracket expression holds the digits. -/
theorem digits_contain (c : UInt8) :
    CharSet.contains ⟨false, (ascii "0123456789").map .single⟩ c = true ↔
      ∃ d ≤ 9, c = UInt8.ofNat (48 + d) := by
  have hlist : ascii "0123456789" = (List.range 10).map fun d => UInt8.ofNat (48 + d) := by decide
  have hmem : CharSet.contains ⟨false, (ascii "0123456789").map .single⟩ c = true ↔
      c ∈ ascii "0123456789" := by
    simp only [CharSet.contains, Bool.false_bne, List.any_map, List.any_eq_true,
      Function.comp_apply, SetItem.contains, decide_eq_true_eq, exists_eq_right']
  rw [hmem, hlist, List.mem_map]
  simp only [List.mem_range, Nat.lt_succ_iff, eq_comm]

theorem referenceEre_matches (s : Bytes) (i j : Nat) :
    referenceEre.Matches s i j ↔ j = i + 3 ∧ ∃ d ≤ 9, reference d <+: s.drop i := by
  simp only [reference_prefix_iff]
  constructor
  · intro h
    cases h with
    | cat hleft hclose =>
      cases hleft with
      | cat hopen hdigit =>
        cases hopen with
        | @set c _ _ hc hin =>
          cases hdigit with
          | @set c1 _ _ hc1 hin1 =>
            cases hclose with
            | @set c2 _ _ hc2 hin2 =>
              obtain ⟨d, hd, rfl⟩ := (digits_contain c1).mp hin1
              simp only [CharSet.contains, SetItem.contains, List.any_cons, List.any_nil,
                Bool.or_false, Bool.false_bne, decide_eq_true_eq] at hin hin2
              exact ⟨rfl, d, hd, hin ▸ hc, hc1, hin2 ▸ hc2⟩
  · rintro ⟨rfl, d, hd, hopen, hdigit, hclose⟩
    refine .cat (.cat (.set hopen (by decide)) (.set hdigit ?_)) (.set hclose (by decide))
    exact (digits_contain _).mpr ⟨d, hd, rfl⟩

/-- `findGroup` finds what `regexec` does: the leftmost match. -/
theorem findGroup_leftmost (s : Bytes) :
    (∀ so d, findGroup s = some (so, d) → referenceEre.Matches s so (so + 3) ∧
      s[so + 1]? = some (UInt8.ofNat (48 + d)) ∧ ∀ i j, referenceEre.Matches s i j → so ≤ i) ∧
    (findGroup s = none → ∀ i j, ¬ referenceEre.Matches s i j) := by
  constructor
  · intro so d h
    obtain ⟨hd, -, hpre, hfirst⟩ := findGroup_some h
    refine ⟨(referenceEre_matches s so _).mpr ⟨rfl, d, hd, hpre⟩, ?_, ?_⟩
    · exact ((reference_prefix_iff s so d).mp hpre).2.1
    · intro i j hmatch
      obtain ⟨-, e, he, hat⟩ := (referenceEre_matches s i j).mp hmatch
      by_contra hlt
      exact hfirst i (Nat.lt_of_not_le hlt) e he hat
  · intro h i j hmatch
    obtain ⟨-, e, he, hat⟩ := (referenceEre_matches s i j).mp hmatch
    exact findGroup_none h ⟨e, he, hat.isInfix.trans (List.drop_suffix i s).isInfix⟩

/-! ## The parts -/

/-- What a part stands for. -/
def partText : ReplPart → Bytes
  | .literal str => str
  | .group index => reference index

/-- No two literals next to each other. -/
def NotBothLiteral : ReplPart → ReplPart → Prop
  | .literal _, .literal _ => False
  | _, _ => True

/-- A list of parts is a reading of the text `s`. -/
structure ReadsBack (s : Bytes) (parts : List ReplPart) : Prop where
  text : parts.flatMap partText = s
  literals : ∀ str, .literal str ∈ parts → str ≠ [] ∧ ¬ HasReference str
  apart : parts.IsChain NotBothLiteral
  indices : ∀ index, .group index ∈ parts → index ≤ 9

theorem ReadsBack.nil : ReadsBack [] [] := ⟨rfl, by simp, List.isChain_nil, by simp⟩

theorem ReadsBack.literal {s : Bytes} (hne : s ≠ []) (h : ¬ HasReference s) :
    ReadsBack s [.literal s] where
  text := List.append_nil s
  literals := by
    intro str hmem
    cases List.mem_singleton.mp hmem
    exact ⟨hne, h⟩
  apart := List.isChain_singleton _
  indices := by simp

/-- A reference before the text. -/
theorem ReadsBack.group {s : Bytes} {parts : List ReplPart} (h : ReadsBack s parts) {d : Nat}
    (hd : d ≤ 9) : ReadsBack (reference d ++ s) (.group d :: parts) where
  text := by rw [List.flatMap_cons, h.text, partText]
  literals := by
    intro str hmem
    rcases List.mem_cons.mp hmem with heq | hmem
    · cases heq
    · exact h.literals str hmem
  apart := by
    rw [List.isChain_cons]
    exact ⟨fun _ _ => trivial, h.apart⟩
  indices := by
    intro index hmem
    rcases List.mem_cons.mp hmem with heq | hmem
    · cases heq
      exact hd
    · exact h.indices index hmem

/-- A literal before a reference. -/
theorem ReadsBack.lead {str s : Bytes} {d : Nat} {parts : List ReplPart}
    (h : ReadsBack s (.group d :: parts)) (hne : str ≠ []) (hnone : ¬ HasReference str) :
    ReadsBack (str ++ s) (.literal str :: .group d :: parts) where
  text := by rw [List.flatMap_cons, h.text, partText]
  literals := by
    intro str' hmem
    rcases List.mem_cons.mp hmem with heq | hmem
    · cases heq
      exact ⟨hne, hnone⟩
    · exact h.literals str' hmem
  apart := by
    rw [List.isChain_cons_cons]
    exact ⟨trivial, h.apart⟩
  indices := by
    intro index hmem
    rcases List.mem_cons.mp hmem with heq | hmem
    · cases heq
    · exact h.indices index hmem

/-- The first loop, with rounds for every octet. -/
theorem replParts_readsBack (n : Nat) {s : Bytes} (hn : s.length ≤ n) :
    ReadsBack s (replParts n s) := by
  induction n generalizing s with
  | zero =>
    cases List.length_eq_zero_iff.mp (Nat.le_zero.mp hn)
    exact .nil
  | succ n ih =>
    cases s with
    | nil => exact .nil
    | cons c cs =>
      cases hfind : findGroup (c :: cs) with
      | none =>
        simp only [replParts, hfind]
        exact .literal (List.cons_ne_nil c cs) (findGroup_none hfind)
      | some found =>
        obtain ⟨so, d⟩ := found
        obtain ⟨hd, hle, ⟨rest, hrest⟩, hfirst⟩ := findGroup_some hfind
        have hdrop : (c :: cs).drop (so + 3) = rest := by
          rw [← List.drop_drop, ← hrest]
          rfl
        have hlen : rest.length ≤ n := by
          rw [← hdrop, List.length_drop]
          omega
        have hparts : ReadsBack ((c :: cs).drop so) (.group d :: replParts n rest) :=
          hrest ▸ (ih hlen).group hd
        simp only [replParts, hfind, hdrop]
        by_cases hso : so = 0
        · subst hso
          exact hparts
        · rw [if_pos hso, List.singleton_append]
          have hne : (c :: cs).take so ≠ [] := by simpa using hso
          have hall := hparts.lead hne (not_hasReference_take hfirst)
          rwa [List.take_append_drop] at hall

theorem ReadsBack.tail {s : Bytes} {part : ReplPart} {parts : List ReplPart}
    (h : ReadsBack s (part :: parts)) :
    ∃ rest, s = partText part ++ rest ∧ ReadsBack rest parts := by
  refine ⟨parts.flatMap partText, ?_, rfl, ?_, ?_, ?_⟩
  · rw [← h.text, List.flatMap_cons]
  · exact fun str hmem => h.literals str (List.mem_cons_of_mem part hmem)
  · exact h.apart.tail
  · exact fun index hmem => h.indices index (List.mem_cons_of_mem part hmem)

/-- The loop up to the first reference and behind it. -/
theorem replParts_append (n : Nat) {str : Bytes} (hstr : ¬ HasReference str) {d : Nat} (hd : d ≤ 9)
    (rest : Bytes) : replParts (n + 1) (str ++ (reference d ++ rest)) =
      (if str ≠ [] then [.literal str] else []) ++ .group d :: replParts n rest := by
  have hfind := findGroup_append hstr hd rest
  have hdrop : (str ++ (reference d ++ rest)).drop (str.length + 3) = rest := by
    rw [← List.drop_drop, List.drop_left]
    rfl
  obtain ⟨c, cs, heq⟩ : ∃ c cs, str ++ (reference d ++ rest) = c :: cs :=
    List.exists_cons_of_ne_nil (by simp [reference])
  have htake : (c :: cs).take str.length = str := by rw [← heq, List.take_left]
  rw [heq] at hfind hdrop ⊢
  simp only [replParts, hfind, hdrop, htake, ne_eq, List.length_eq_zero_iff]

theorem replParts_literal (n : Nat) {str : Bytes} (hne : str ≠ []) (hstr : ¬ HasReference str) :
    replParts n str = [.literal str] := by
  obtain ⟨c, cs, rfl⟩ := List.exists_cons_of_ne_nil hne
  cases n with
  | zero => rfl
  | succ n =>
    cases hfind : findGroup (c :: cs) with
    | none => simp only [replParts, hfind]
    | some found =>
      obtain ⟨hd, -, hpre, -⟩ := findGroup_some hfind
      exact absurd ⟨_, hd, hpre.isInfix.trans (List.drop_suffix _ _).isInfix⟩ hstr

/-- There is one reading of a text. -/
theorem ReadsBack.eq_replParts {s : Bytes} {parts : List ReplPart} (h : ReadsBack s parts) (n : Nat)
    (hn : s.length ≤ n) : parts = replParts n s := by
  have hempty : ¬ HasReference [] := by
    rintro ⟨e, -, hin⟩
    simp [reference] at hin
  induction parts generalizing s n with
  | nil =>
    cases h.text
    cases n <;> rfl
  | cons part parts ih =>
    obtain ⟨rest, rfl, hrest⟩ := h.tail
    cases part with
    | group d =>
      have hd : d ≤ 9 := h.indices d List.mem_cons_self
      simp only [partText, reference, List.length_append, List.length_cons, List.length_nil] at hn
      obtain ⟨m, rfl⟩ : ∃ m, n = m + 1 := ⟨n - 1, by omega⟩
      rw [ih hrest m (by omega)]
      exact (replParts_append m hempty hd rest).symm
    | literal str =>
      obtain ⟨hne, hstr⟩ := h.literals str List.mem_cons_self
      cases parts with
      | nil =>
        cases hrest.text
        rw [partText, List.flatMap_nil, List.append_nil, replParts_literal n hne hstr]
      | cons next parts =>
        have hapart := (List.isChain_cons_cons.mp h.apart).1
        cases next with
        | literal str' => exact hapart.elim
        | group d =>
          have hd : d ≤ 9 := hrest.indices d List.mem_cons_self
          obtain ⟨rest, rfl, -⟩ := hrest.tail
          simp only [partText, reference, List.length_append, List.length_cons,
            List.length_nil] at hn
          obtain ⟨m, rfl⟩ : ∃ m, n = m + 1 := ⟨n - 1, by omega⟩
          have hgroup := ih hrest (m + 1) (by simp [partText, reference]; omega)
          have hbehind := replParts_append m hempty hd rest
          rw [partText, partText, replParts_append m hstr hd rest, if_pos hne, hgroup]
          exact congrArg (ReplPart.literal str :: ·) hbehind

/-! ## `-cstring` -/

/-- A part and its image. -/
inductive Unescaped : ReplPart → ReplPart → Prop
  | literal {str out : Bytes} : strunesc str = some out → 0 ∉ out →
      Unescaped (.literal str) (.literal out)
  | group (index : Nat) : Unescaped (.group index) (.group index)

/-- A literal without an image. -/
def NoImage (str : Bytes) : Prop := ∀ out, strunesc str = some out → 0 ∈ out

theorem zero_mem_iff (out : Bytes) : 0 ∈ out ↔ (cstring out).length ≠ out.length := by
  constructor
  · intro hmem heq
    have hall : cstring out = out :=
      (List.takeWhile_prefix _).eq_of_length heq
    exact zero_not_mem_cstring out (hall.symm ▸ hmem)
  · intro hlen
    by_contra hmem
    exact hlen (congrArg List.length (cstring_of_not_mem hmem))

theorem unescPart_ok_iff (part image : ReplPart) :
    unescPart part = .ok image ↔ Unescaped part image := by
  cases part with
  | group index =>
    constructor
    · rintro ⟨⟩
      exact .group index
    · rintro ⟨⟩
      rfl
  | literal str =>
    constructor
    · intro h
      cases hout : strunesc str with
      | none => simp [unescPart, hout] at h
      | some out =>
        simp only [unescPart, hout] at h
        rcases ite_eq_iff.mp h with ⟨-, herr⟩ | ⟨hlen, hok⟩
        · cases herr
        · cases hok
          exact .literal hout (fun hmem => hlen ((zero_mem_iff out).mp hmem))
    · intro h
      cases h with
      | @literal _ out hout hzero =>
        simp only [unescPart, hout]
        rw [if_neg (fun hlen => hzero ((zero_mem_iff out).mpr hlen))]

theorem unescPart_error_iff (part : ReplPart) :
    (∃ e, unescPart part = .error e) ↔ ∃ str, part = .literal str ∧ NoImage str := by
  constructor
  · rintro ⟨e, he⟩
    cases part with
    | group index => cases he
    | literal str =>
      refine ⟨str, rfl, ?_⟩
      intro out hout
      by_contra hzero
      rw [(unescPart_ok_iff _ _).mpr (.literal hout hzero)] at he
      cases he
  · rintro ⟨str, rfl, hnone⟩
    cases hpart : unescPart (.literal str) with
    | error e => exact ⟨e, rfl⟩
    | ok image =>
      cases (unescPart_ok_iff _ _).mp hpart with
      | literal hout hzero => exact absurd (hnone _ hout) hzero

theorem mapM_ok_iff {ε α β : Type} (f : α → Except ε β) (xs : List α) (ys : List β) :
    xs.mapM f = .ok ys ↔ List.Forall₂ (fun x y => f x = .ok y) xs ys := by
  induction xs generalizing ys with
  | nil =>
    rw [List.forall₂_nil_left_iff]
    constructor
    · rintro ⟨⟩
      rfl
    · rintro rfl
      rfl
  | cons x xs ih =>
    rw [List.mapM_cons, List.forall₂_cons_left_iff]
    constructor
    · intro h
      cases hx : f x with
      | error e => simp [hx, Bind.bind, Except.bind] at h
      | ok y =>
        cases hxs : xs.mapM f with
        | error e => simp [hx, hxs, Bind.bind, Except.bind] at h
        | ok zs =>
          simp only [hx, hxs, Bind.bind, Except.bind, Pure.pure, Except.pure] at h
          cases h
          exact ⟨y, zs, rfl, (ih zs).mp hxs, rfl⟩
    · rintro ⟨y, zs, hx, hxs, rfl⟩
      rw [hx, (ih zs).mpr hxs]
      rfl

theorem mapM_error_iff {ε α β : Type} (f : α → Except ε β) (xs : List α) :
    (∃ e, xs.mapM f = .error e) ↔ ∃ x ∈ xs, ∃ e, f x = .error e := by
  induction xs with
  | nil => simp [Pure.pure, Except.pure]
  | cons x xs ih =>
    rw [List.exists_mem_cons_iff, ← ih, List.mapM_cons]
    cases hx : f x with
    | error e => simp [Bind.bind, Except.bind]
    | ok y =>
      cases hxs : xs.mapM f with
      | error e => simp [Bind.bind, Except.bind]
      | ok zs => simp [Bind.bind, Except.bind, Pure.pure, Except.pure]

/-! ## The whole of `cli_subst_parse_repl` -/

/-- The parts of every `REPLACE` read back to its text, each literal as it stands
between two references, and are the only ones that do; `-cstring` keeps the sequence and puts the image in the place
of each literal, or ends the program where a literal has none. -/
theorem replace_parts_lossless (s : Bytes) :
    ∃ parts, cliSubstParseRepl false s = .ok parts ∧ ReadsBack s parts ∧
      (∀ others, ReadsBack s others → others = parts) ∧
      (∀ images, cliSubstParseRepl true s = .ok images ↔ List.Forall₂ Unescaped parts images) ∧
      ((∃ e, cliSubstParseRepl true s = .error e) ↔
        ∃ str, .literal str ∈ parts ∧ NoImage str) := by
  refine ⟨replParts s.length s, rfl, replParts_readsBack s.length (Nat.le_refl _),
    fun others h => h.eq_replParts s.length (Nat.le_refl _), ?_, ?_⟩
  · intro images
    simp only [cliSubstParseRepl, if_true, mapM_ok_iff, unescPart_ok_iff]
  · simp only [cliSubstParseRepl, if_true, mapM_error_iff, unescPart_error_iff]
    constructor
    · rintro ⟨part, hmem, str, rfl, hnone⟩
      exact ⟨str, hmem, hnone⟩
    · rintro ⟨str, hmem, hnone⟩
      exact ⟨_, hmem, str, rfl, hnone⟩

end Sexpect.Guarantees
