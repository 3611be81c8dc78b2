import Mathlib.Logic.Relation
import Sexpect.Guarantees.Search
import Sexpect.Source.Subst

/-!
# The loop of `cli_subst`

`Rest` are the strings that remain before the rounds of the loop.  A round goes on
behind the match it replaces, so the loop ends unless it arrives at a string whose
chosen match is empty and at the front: from there it does not move.  The match that
is chosen is that of the first pattern that matches at all, wherever that is; a later
pattern may match before it, in the text that is copied as it is.  None is passed over
where the matches come in the order in which the patterns are listed (`Listed`).

Where nothing matches the payload is written as it came, piece by piece and with its
zero octets, but to the descriptor of standard input (`Transparent`).
-/
namespace Sexpect.Guarantees
open Sexpect.Lib Sexpect.Source

/-- A string ends at its first zero octet, which is where its first piece ends. -/
theorem cstring_splits (raw : Bytes) :
    ∃ rest, cstring raw = raw ∧ raw.splitOn 0 = [cstring raw] ∨
      raw = cstring raw ++ 0 :: rest ∧ raw.splitOn 0 = cstring raw :: rest.splitOn 0 := by
  induction raw with
  | nil => exact ⟨[], .inl ⟨rfl, rfl⟩⟩
  | cons c cs ih =>
    by_cases hc : c = 0
    · subst hc
      refine ⟨cs, .inr ⟨rfl, ?_⟩⟩
      rw [List.splitOn_cons_eq_if_modifyHead, if_pos (by simp)]
      rfl
    · have hstep : cstring (c :: cs) = c :: cstring cs := by
        rw [cstring, List.takeWhile_cons_of_pos (by simpa using hc)]
        rfl
      obtain ⟨rest, ⟨hall, hs⟩ | ⟨hall, hs⟩⟩ := ih
      · refine ⟨rest, .inl ⟨by rw [hstep, hall], ?_⟩⟩
        rw [List.splitOn_cons_eq_if_modifyHead, if_neg (by simpa using hc), hs, hstep]
        rfl
      · refine ⟨rest, .inr ⟨?_, ?_⟩⟩
        · rw [hstep, List.cons_append, ← hall]
        · rw [List.splitOn_cons_eq_if_modifyHead, if_neg (by simpa using hc), hs, hstep]
          rfl

section

variable (re : Regex) (subs : List SubstSpec)

/-- One round leaves `t` of the string `s`. -/
def Round (s t : Bytes) : Prop :=
  s ≠ [] ∧ ∃ sub m, substMatch re s subs = some (sub, m) ∧ t = s.drop m.1.2

/-- The strings that remain when the loop works on `s`. -/
def Rest (s t : Bytes) : Prop := Relation.ReflTransGen (Round re subs) s t

/-- The first pattern that matches does so with an empty match at the front. -/
def Stuck (s : Bytes) : Prop :=
  s ≠ [] ∧ ∃ sub m, substMatch re s subs = some (sub, m) ∧ m.1.2 = 0

theorem cliSubst_round (rounds : Nat) {s : Bytes} (hne : s ≠ []) {sub : SubstSpec} {m : Matches}
    (h : substMatch re s subs = some (sub, m)) :
    cliSubst re subs (rounds + 1) s = (cliSubst re subs rounds (s.drop m.1.2)).map fun more =>
      s.take m.1.1 ++ replText s m sub.repl ++ more := by
  obtain ⟨c, cs, rfl⟩ := List.exists_cons_of_ne_nil hne
  simp only [cliSubst, h]

/-- A string from which the loop does not come back. -/
def Hangs (s : Bytes) : Prop := ∀ rounds, cliSubst re subs rounds s = none

theorem Stuck.hangs {s : Bytes} (h : Stuck re subs s) : Hangs re subs s := by
  obtain ⟨hne, sub, m, hmatch, hzero⟩ := h
  intro rounds
  induction rounds with
  | zero =>
    obtain ⟨c, cs, rfl⟩ := List.exists_cons_of_ne_nil hne
    rfl
  | succ rounds ih =>
    rw [cliSubst_round re subs rounds hne hmatch, hzero, List.drop_zero, ih]
    rfl

theorem Round.hangs {s t : Bytes} (h : Round re subs s t) (ht : Hangs re subs t) :
    Hangs re subs s := by
  obtain ⟨hne, sub, m, hmatch, rfl⟩ := h
  intro rounds
  cases rounds with
  | zero =>
    obtain ⟨c, cs, rfl⟩ := List.exists_cons_of_ne_nil hne
    rfl
  | succ rounds =>
    rw [cliSubst_round re subs rounds hne hmatch, ht]
    rfl

theorem Rest.hangs {s t : Bytes} (h : Rest re subs s t) (ht : Hangs re subs t) :
    Hangs re subs s := by
  induction h using Relation.ReflTransGen.head_induction_on with
  | refl => exact ht
  | head hround _ ih => exact hround.hangs re subs ih

/-- Without a string to get stuck at, the remaining string gets shorter. -/
theorem cliSubst_ends {s : Bytes} (h : ∀ t, Rest re subs s t → ¬ Stuck re subs t) :
    ∃ rounds out, cliSubst re subs rounds s = some out := by
  induction hn : s.length using Nat.strong_induction_on generalizing s with
  | _ n ih =>
    subst hn
    by_cases hne : s = []
    · subst hne
      exact ⟨0, [], rfl⟩
    cases hmatch : substMatch re s subs with
    | none =>
      obtain ⟨c, cs, rfl⟩ := List.exists_cons_of_ne_nil hne
      exact ⟨1, c :: cs, by simp only [cliSubst, hmatch]⟩
    | some found =>
      obtain ⟨sub, m⟩ := found
      have hmoves : m.1.2 ≠ 0 := fun hzero => h s .refl ⟨hne, sub, m, hmatch, hzero⟩
      have hround : Round re subs s (s.drop m.1.2) := ⟨hne, sub, m, hmatch, rfl⟩
      have hlength : (s.drop m.1.2).length < s.length := by
        have := List.length_pos_iff.mpr hne
        rw [List.length_drop]
        omega
      obtain ⟨rounds, out, hout⟩ := ih _ hlength (fun t ht => h t (.head hround ht)) rfl
      exact ⟨rounds + 1, _, by rw [cliSubst_round re subs rounds hne hmatch, hout]; rfl⟩

/-- The loop of `cli_subst` ends exactly on the strings from which it does not arrive
at one it gets stuck at. -/
theorem cliSubst_ends_iff (s : Bytes) :
    (∃ rounds out, cliSubst re subs rounds s = some out) ↔
      ∀ t, Rest re subs s t → ¬ Stuck re subs t := by
  constructor
  · rintro ⟨rounds, out, hout⟩ t hrest hstuck
    rw [hrest.hangs re subs (hstuck.hangs re subs) rounds] at hout
    cases hout
  · exact cliSubst_ends re subs

/-- A payload of whose pieces none matches is written as it is, with its zero octets. -/
theorem cliSubstRaw_unchanged (raw : Bytes) (n : Nat) (hn : raw.length ≤ n)
    (h : ∀ s ∈ raw.splitOn 0, substMatch re s subs = none) :
    cliSubstRaw re subs 1 n raw = some raw := by
  induction n generalizing raw with
  | zero =>
    have hnil : raw = [] := List.length_eq_zero_iff.mp (by omega)
    subst hnil
    rfl
  | succ n ih =>
    cases raw with
    | nil => rfl
    | cons c cs =>
      obtain ⟨rest, hsplit⟩ := cstring_splits (c :: cs)
      have hfirst : cstring (c :: cs) ∈ (c :: cs).splitOn 0 := by
        obtain ⟨-, hs⟩ | ⟨-, hs⟩ := hsplit
        · rw [hs]
          exact List.mem_singleton_self _
        · rw [hs]
          exact List.mem_cons_self
      have hpiece : cliSubst re subs 1 (cstring (c :: cs)) = some (cstring (c :: cs)) := by
        have hnone := h _ hfirst
        cases hs : cstring (c :: cs) with
        | nil => rfl
        | cons d ds =>
          rw [hs] at hnone
          simp only [cliSubst, hnone]
      simp only [cliSubstRaw, hpiece, Option.bind_some]
      generalize cstring (c :: cs) = s at hsplit
      obtain ⟨rfl, -⟩ | ⟨hraw, hs⟩ := hsplit
      · rw [List.drop_length]
      · have hlen := congrArg List.length hraw
        simp only [List.length_append, List.length_cons] at hlen hn
        have hrest : ∀ s ∈ rest.splitOn 0, substMatch re s subs = none := by
          intro s hmem
          apply h
          rw [hs]
          exact List.mem_cons_of_mem _ hmem
        rw [hraw, List.drop_left]
        simp only
        rw [ih rest (by omega) hrest, Option.map_some]

/-! ## The writes -/

/-- All of the writes go to one descriptor. -/
theorem writtenTo_one {fd : Nat} {ws : List Write} (h : ∀ w ∈ ws, w.fd = fd) :
    writtenTo fd ws = ws.flatMap Write.bytes ∧ ∀ other, other ≠ fd → writtenTo other ws = [] := by
  unfold writtenTo
  refine ⟨?_, ?_⟩
  · rw [List.filter_eq_self.mpr fun w hw => decide_eq_true (h w hw)]
  · intro other hother
    rw [List.filter_eq_nil_iff.mpr, List.flatMap_nil]
    intro w hw
    rw [h w hw]
    simpa using Ne.symm hother

theorem partWrites_spec (fd : Nat) (s : Bytes) (m : Matches) (parts : List ReplPart) :
    (partWrites fd s m parts).flatMap Write.bytes = replText s m parts ∧
      ∀ w ∈ partWrites fd s m parts, w.fd = fd := by
  induction parts with
  | nil => exact ⟨rfl, fun w hw => absurd hw List.not_mem_nil⟩
  | cons part parts ih =>
    obtain ⟨hbytes, hfd⟩ := ih
    cases part with
    | literal str =>
      simp only [partWrites, replText, List.flatMap_cons, hbytes, List.forall_mem_cons]
      exact ⟨trivial, trivial, hfd⟩
    | group index =>
      simp only [partWrites, replText, List.flatMap_append, hbytes, List.forall_mem_append]
      split
      · simpa using hfd
      · simpa using hfd

/-- The writes of `cli_subst` are its output, all of it to standard input. -/
theorem substWrites_spec (rounds : Nat) (s : Bytes) :
    (substWrites re subs rounds s).map (List.flatMap Write.bytes) = cliSubst re subs rounds s ∧
      ∀ ws, substWrites re subs rounds s = some ws → ∀ w ∈ ws, w.fd = stdinFileno := by
  induction rounds generalizing s with
  | zero =>
    cases s with
    | nil => simp [substWrites, cliSubst]
    | cons c cs => simp [substWrites, cliSubst]
  | succ rounds ih =>
    cases s with
    | nil => simp [substWrites, cliSubst]
    | cons c cs =>
      simp only [substWrites, cliSubst]
      split
      · simp
      · rename_i sub m _
        obtain ⟨hout, hfd⟩ := ih ((c :: cs).drop m.1.2)
        obtain ⟨hpart, hpartfd⟩ := partWrites_spec stdinFileno (c :: cs) m sub.repl
        rw [← hout]
        cases hmore : substWrites re subs rounds ((c :: cs).drop m.1.2) with
        | none => simp
        | some more =>
          have hmorefd := hfd more hmore
          simp only [Option.map_some, Option.some.injEq, List.cons_append, List.flatMap_cons,
            List.flatMap_append, hpart, List.append_assoc, true_and]
          rintro ws rfl w hw
          obtain rfl | hw := List.mem_cons.mp hw
          · rfl
          · obtain hw | hw := List.mem_append.mp hw
            · exact hpartfd w hw
            · exact hmorefd w hw

theorem substRawWrites_spec (rounds n : Nat) (raw : Bytes) :
    (substRawWrites re subs rounds n raw).map (List.flatMap Write.bytes) =
        cliSubstRaw re subs rounds n raw ∧
      ∀ ws, substRawWrites re subs rounds n raw = some ws → ∀ w ∈ ws, w.fd = stdinFileno := by
  induction n generalizing raw with
  | zero =>
    cases raw with
    | nil => simp [substRawWrites, cliSubstRaw]
    | cons c cs => simp [substRawWrites, cliSubstRaw]
  | succ n ih =>
    cases raw with
    | nil => simp [substRawWrites, cliSubstRaw]
    | cons c cs =>
      obtain ⟨hout, hfd⟩ := substWrites_spec re subs rounds (cstring (c :: cs))
      simp only [substRawWrites, cliSubstRaw]
      rw [← hout]
      cases hpiece : substWrites re subs rounds (cstring (c :: cs)) with
      | none => simp
      | some out =>
        have houtfd := hfd out hpiece
        simp only [Option.map_some, Option.bind_some]
        split
        · simpa using houtfd
        · rename_i rest _
          obtain ⟨hmore, hmorefd⟩ := ih rest
          rw [← hmore]
          cases hrest : substRawWrites re subs rounds n rest with
          | none => simp
          | some more =>
            have hrestfd := hmorefd more hrest
            simp only [Option.map_some, Option.some.injEq, List.flatMap_append, List.flatMap_cons,
              List.singleton_append, true_and]
            rintro ws rfl w hw
            obtain hw | hw := List.mem_append.mp hw
            · exact houtfd w hw
            · obtain rfl | hw := List.mem_cons.mp hw
              · rfl
              · exact hrestfd w hw

/-- With and without `-subst` the same octets arrive at every descriptor. -/
def Transparent (payload : Bytes) : Prop :=
  ∃ rounds ws plain, outputWrites re subs rounds payload = some ws ∧
    outputWrites re [] rounds payload = some plain ∧
    ∀ fd, writtenTo fd ws = writtenTo fd plain

theorem substMatch_none {s : Bytes} (h : ∀ sub ∈ subs, sub.exec re s = none) :
    substMatch re s subs = none := by
  induction subs with
  | nil => rfl
  | cons sub subs ih =>
    rw [substMatch, h sub List.mem_cons_self]
    exact ih fun other hother => h other (List.mem_cons_of_mem _ hother)

/-- For a payload of whose pieces none matches: its octets are written, in order and
with nothing added, but `-subst` is transparent only when there is nothing to write,
or no `-subst`; the octets go to standard input. -/
theorem transparent_iff (payload : Bytes)
    (h : ∀ s ∈ payload.splitOn 0, ∀ sub ∈ subs, sub.exec re s = none) :
    (∃ ws, outputWrites re subs 1 payload = some ws ∧ ws.flatMap Write.bytes = payload) ∧
      (Transparent re subs payload ↔ payload = [] ∨ subs = []) := by
  have hplain : writtenTo stdoutFileno [⟨stdoutFileno, payload⟩] = payload := by
    simp [writtenTo]
  refine ⟨?_, ?_, ?_⟩
  · by_cases hsubs : 0 < subs.length
    · have hraw := cliSubstRaw_unchanged re subs payload payload.length le_rfl
        fun s hs => substMatch_none re subs (h s hs)
      obtain ⟨hbytes, -⟩ := substRawWrites_spec re subs 1 payload.length payload
      rw [hraw] at hbytes
      obtain ⟨ws, hws, hall⟩ := Option.map_eq_some_iff.mp hbytes
      exact ⟨ws, by rw [outputWrites, if_pos hsubs, hws], hall⟩
    · exact ⟨_, if_neg hsubs, by simp⟩
  · rintro ⟨rounds, ws, plain, hws, hplains, hsame⟩
    obtain rfl : [⟨stdoutFileno, payload⟩] = plain := Option.some.inj hplains
    by_cases hsubs : 0 < subs.length
    · left
      rw [outputWrites, if_pos hsubs] at hws
      obtain ⟨-, hfd⟩ := substRawWrites_spec re subs rounds payload.length payload
      have hnothing := (writtenTo_one (hfd ws hws)).2 stdoutFileno (by decide)
      rw [← hplain, ← hsame, hnothing]
    · right
      exact List.length_eq_zero_iff.mp (by omega)
  · rintro (rfl | rfl)
    · by_cases hsubs : 0 < subs.length
      · refine ⟨0, [], _, if_pos hsubs, rfl, ?_⟩
        intro fd
        simp [writtenTo]
      · exact ⟨0, _, _, if_neg hsubs, rfl, fun fd => rfl⟩
    · exact ⟨0, _, _, rfl, rfl, fun fd => rfl⟩

end

/-- `regexec` for the pattern `x*`: the octets `x` at the front. -/
def starRegcomp : Regcomp where
  regcomp _ _ _ := true
  regexec _ _ _ subject :=
    some ((0, (subject.takeWhile (· = octet 'x')).length), List.replicate 9 none)
  offsets pattern icase newline subject whole groups h := by
    simp only [Option.some.injEq, Prod.mk.injEq] at h
    obtain ⟨rfl, rfl⟩ := h
    exact ⟨Nat.zero_le _, (List.takeWhile_sublist _).length_le, by simp, by simp⟩

/-- `-subst 'x*::y'` on the output `a`. -/
theorem cliSubst_hangs :
    ∃ subs, cliSubstCompile starRegcomp false false false [ascii "x*::y"] = .ok subs ∧
      subs.length = 1 ∧ (0 : UInt8) ∉ ascii "a" ∧
      ¬ ∃ rounds out, cliSubst starRegcomp.toRegex subs rounds (ascii "a") = some out := by
  refine ⟨[{ pattern := ascii "x*", repl := [.literal (ascii "y")] }], rfl, rfl, by decide, ?_⟩
  have hstuck : Stuck starRegcomp.toRegex
      [{ pattern := ascii "x*", repl := [.literal (ascii "y")] }] (ascii "a") :=
    ⟨by decide, _, _, rfl, rfl⟩
  rintro ⟨rounds, out, hout⟩
  rw [hstuck.hangs] at hout
  cases hout

/-! ## Which match is replaced -/

section

variable (re : Regex) (subs : List SubstSpec)

/-- The matches of a pattern in a string, as pairs of start and end; `regexec` finds
one that starts leftmost, and none only if there is none. -/
structure Leftmost (re : Regex) (matchAt : SubstSpec → Bytes → Nat → Nat → Prop) : Prop where
  found : ∀ sub s m, SubstSpec.exec re sub s = some m →
    matchAt sub s m.1.1 m.1.2 ∧ ∀ so eo, matchAt sub s so eo → m.1.1 ≤ so
  absent : ∀ sub s, SubstSpec.exec re sub s = none → ∀ so eo, ¬ matchAt sub s so eo

/-- The number of octets of the remaining string that a round copies as they are. -/
def verbatim (s : Bytes) : Nat :=
  match substMatch re s subs with
  | none => s.length
  | some (_, m) => m.1.1

/-- Every round replaces a match that starts leftmost among those of all patterns, and
the text copied as it is contains the start of none. -/
def NoneSkipped (matchAt : SubstSpec → Bytes → Nat → Nat → Prop) (s : Bytes) : Prop :=
  ∀ t, Rest re subs s t → t ≠ [] →
    (∀ sub m, substMatch re t subs = some (sub, m) → matchAt sub t m.1.1 m.1.2 ∧
        ∀ other ∈ subs, ∀ so eo, matchAt other t so eo → m.1.1 ≤ so) ∧
      ∀ other ∈ subs, ∀ so eo, matchAt other t so eo → verbatim re subs t ≤ so

/-! The loop looks at the patterns one after the other, a reader at the text.  `Leads`, `Scanned`
and `Listed` are about the reader: he goes through the string from left to right, from one leftmost
match to the next. -/

/-- The match `m` of `sub` is the one the reader finds in `s`: it starts leftmost among those of all
patterns, and none of the ones listed before it, `front`, has a match that starts there. -/
structure Leads (re : Regex) (matchAt : SubstSpec → Bytes → Nat → Nat → Prop)
    (front : List SubstSpec) (sub : SubstSpec) (back : List SubstSpec) (s : Bytes) (m : Matches) :
    Prop where
  exec : sub.exec re s = some m
  leftmost : ∀ other ∈ front ++ sub :: back, ∀ so eo, matchAt other s so eo → m.1.1 ≤ so
  first : ∀ f ∈ front, ∀ eo, ¬ matchAt f s m.1.1 eo

/-- `t` is left of `s` behind the match the reader finds. -/
def Scan (matchAt : SubstSpec → Bytes → Nat → Nat → Prop) (s t : Bytes) : Prop :=
  s ≠ [] ∧ ∃ front sub back m, subs = front ++ sub :: back ∧
    Leads re matchAt front sub back s m ∧ t = s.drop m.1.2

def Scanned (matchAt : SubstSpec → Bytes → Nat → Nat → Prop) (s t : Bytes) : Prop :=
  Relation.ReflTransGen (Scan re subs matchAt) s t

/-- The matches of the patterns come in the order of the list: where the reader has found one of
`sub`, the patterns listed before it do not match anywhere in what is left. -/
def Listed (matchAt : SubstSpec → Bytes → Nat → Nat → Prop) (s : Bytes) : Prop :=
  ∀ t, Scanned re subs matchAt s t → t ≠ [] → ∀ front sub back m, subs = front ++ sub :: back →
    Leads re matchAt front sub back t m → ∀ f ∈ front, ∀ so eo, ¬ matchAt f t so eo

/-- The choice of a round: the patterns in front of it do not match. -/
theorem substMatch_eq_some {re : Regex} {subs : List SubstSpec} {s : Bytes} {sub : SubstSpec}
    {m : Matches} (h : substMatch re s subs = some (sub, m)) :
    ∃ front back, subs = front ++ sub :: back ∧ (∀ f ∈ front, f.exec re s = none) ∧
      sub.exec re s = some m := by
  induction subs with
  | nil => cases h
  | cons first subs ih =>
    rw [substMatch] at h
    cases hfirst : first.exec re s with
    | some m' =>
      rw [hfirst] at h
      cases h
      exact ⟨[], subs, rfl, by simp, hfirst⟩
    | none =>
      rw [hfirst] at h
      obtain ⟨front, back, rfl, hfront, hsub⟩ := ih h
      refine ⟨first :: front, back, rfl, ?_, hsub⟩
      intro f hf
      obtain rfl | hf := List.mem_cons.mp hf
      · exact hfirst
      · exact hfront f hf

theorem substMatch_append {re : Regex} {s : Bytes} {front : List SubstSpec} {sub : SubstSpec}
    {m : Matches} (back : List SubstSpec) (hfront : ∀ f ∈ front, f.exec re s = none)
    (hsub : sub.exec re s = some m) :
    substMatch re s (front ++ sub :: back) = some (sub, m) := by
  induction front with
  | nil => simp [substMatch, hsub]
  | cons first front ih =>
    rw [List.cons_append, substMatch, hfront first (by simp)]
    exact ih fun f hf => hfront f (by simp [hf])

/-- A pattern of the front that matches keeps the loop there. -/
theorem substMatch_front {re : Regex} {s : Bytes} {front : List SubstSpec} (back : List SubstSpec)
    (h : ∃ f ∈ front, ¬ f.exec re s = none) :
    ∃ f ∈ front, ∃ m, substMatch re s (front ++ back) = some (f, m) ∧ f.exec re s = some m := by
  induction front with
  | nil =>
    obtain ⟨f, hf, -⟩ := h
    cases hf
  | cons first front ih =>
    rw [List.cons_append, substMatch]
    cases hfirst : first.exec re s with
    | some m => exact ⟨first, List.mem_cons_self, m, rfl, hfirst⟩
    | none =>
      obtain ⟨f, hf, hmatch⟩ := h
      obtain rfl | hf := List.mem_cons.mp hf
      · exact absurd hfirst hmatch
      · obtain ⟨f', hin, m, hchosen, hexec⟩ := ih ⟨f, hf, hmatch⟩
        exact ⟨f', List.mem_cons_of_mem _ hin, m, hchosen, hexec⟩

theorem substMatch_eq_none {re : Regex} {subs : List SubstSpec} {s : Bytes}
    (h : substMatch re s subs = none) : ∀ sub ∈ subs, sub.exec re s = none := by
  induction subs with
  | nil => simp
  | cons first subs ih =>
    rw [substMatch] at h
    cases hfirst : first.exec re s with
    | some m =>
      rw [hfirst] at h
      cases h
    | none =>
      rw [hfirst] at h
      intro sub hsub
      obtain rfl | hsub := List.mem_cons.mp hsub
      · exact hfirst
      · exact ih h sub hsub

variable {re subs} {matchAt : SubstSpec → Bytes → Nat → Nat → Prop}

/-- Where a pattern matches, the reader finds a match. -/
theorem exists_leads (hre : Leftmost re matchAt) {s : Bytes}
    (h : ∃ sub ∈ subs, ∃ m, sub.exec re s = some m) :
    ∃ front sub back m, subs = front ++ sub :: back ∧ Leads re matchAt front sub back s m := by
  induction subs with
  | nil =>
    obtain ⟨sub, hmem, -⟩ := h
    cases hmem
  | cons p subs ih =>
    by_cases hback : ∃ sub ∈ subs, ∃ m, sub.exec re s = some m
    · obtain ⟨front, sub, back, m, rfl, hleads⟩ := ih hback
      cases hp : p.exec re s with
      | none =>
        have habsent := hre.absent p s hp
        refine ⟨p :: front, sub, back, m, rfl, hleads.exec, ?_, ?_⟩
        · exact List.forall_mem_cons.mpr
            ⟨fun so eo hat => absurd hat (habsent so eo), hleads.leftmost⟩
        · exact List.forall_mem_cons.mpr ⟨fun eo => habsent _ eo, hleads.first⟩
      | some mp =>
        have hstart := (hre.found p s mp hp).2
        by_cases hle : mp.1.1 ≤ m.1.1
        · refine ⟨[], p, front ++ sub :: back, mp, rfl, hp, ?_, by simp⟩
          exact List.forall_mem_cons.mpr
            ⟨hstart, fun other hin so eo hat => le_trans hle (hleads.leftmost other hin so eo hat)⟩
        · refine ⟨p :: front, sub, back, m, rfl, hleads.exec, ?_, ?_⟩
          · refine List.forall_mem_cons.mpr ⟨fun so eo hat => ?_, hleads.leftmost⟩
            exact le_trans (le_of_not_ge hle) (hstart so eo hat)
          · refine List.forall_mem_cons.mpr ⟨fun eo hat => hle (hstart _ eo hat), hleads.first⟩
    · obtain ⟨sub, hmem, m, hm⟩ := h
      have hnone : ∀ other ∈ subs, other.exec re s = none := fun other hin =>
        Option.eq_none_iff_forall_ne_some.mpr fun m' hm' => hback ⟨other, hin, m', hm'⟩
      obtain rfl | hin := List.mem_cons.mp hmem
      · refine ⟨[], sub, subs, m, rfl, hm, ?_, by simp⟩
        refine List.forall_mem_cons.mpr ⟨(hre.found sub s m hm).2, fun other hin so eo hat => ?_⟩
        exact absurd hat (hre.absent other s (hnone other hin) so eo)
      · rw [hnone sub hin] at hm
        cases hm

/-- Where no pattern listed before the reader's matches, the loop chooses the same match. -/
theorem Leads.chosen (hre : Leftmost re matchAt) {front back : List SubstSpec} {sub : SubstSpec}
    {s : Bytes} {m : Matches} (h : Leads re matchAt front sub back s m)
    (hfront : ∀ f ∈ front, ∀ so eo, ¬ matchAt f s so eo) :
    substMatch re s (front ++ sub :: back) = some (sub, m) := by
  refine substMatch_append back (fun f hf => ?_) h.exec
  cases hexec : f.exec re s with
  | none => rfl
  | some m' => exact absurd (hre.found f s m' hexec).1 (hfront f hf _ _)

/-- Where the loop chooses a leftmost match, it is the one the reader finds, and the patterns
listed before it do not match. -/
theorem Leads.of_chosen (hre : Leftmost re matchAt) {front back : List SubstSpec}
    {sub chosen : SubstSpec} {s : Bytes} {m m' : Matches} (h : Leads re matchAt front sub back s m)
    (hchosen : substMatch re s (front ++ sub :: back) = some (chosen, m'))
    (hleft : ∀ other ∈ front ++ sub :: back, ∀ so eo, matchAt other s so eo → m'.1.1 ≤ so) :
    m' = m ∧ ∀ f ∈ front, f.exec re s = none := by
  have hnone : ∀ f ∈ front, f.exec re s = none := by
    by_contra hsome
    -- then the loop stops inside `front`, at a match that starts no further left than `m`
    obtain ⟨f, hin, m₁, hf, hexec⟩ := substMatch_front (sub :: back) (by simpa using hsome)
    rw [hchosen] at hf
    cases hf
    have hat := (hre.found chosen s m' hexec).1
    have hle := h.leftmost chosen (List.mem_append_left _ hin) _ _ hat
    have hge := hleft sub (by simp) _ _ (hre.found sub s m h.exec).1
    rw [le_antisymm hge hle] at hat
    exact h.first chosen hin _ hat
  have hsame := substMatch_append back hnone h.exec
  rw [hchosen] at hsame
  cases hsame
  exact ⟨rfl, hnone⟩

/-- In the order of the list the loop chooses the match the reader finds. -/
theorem chosen_leads (hre : Leftmost re matchAt) {s : Bytes} {chosen : SubstSpec} {m' : Matches}
    (hchosen : substMatch re s subs = some (chosen, m'))
    (hlisted : ∀ front sub back m, subs = front ++ sub :: back →
      Leads re matchAt front sub back s m → ∀ f ∈ front, ∀ so eo, ¬ matchAt f s so eo) :
    ∃ front back, subs = front ++ chosen :: back ∧ Leads re matchAt front chosen back s m' := by
  have hmatches : ∃ sub ∈ subs, ∃ m, sub.exec re s = some m := by
    obtain ⟨fs, bs, rfl, -, hexec⟩ := substMatch_eq_some hchosen
    exact ⟨chosen, by simp, m', hexec⟩
  obtain ⟨front, sub, back, m, heq, hleads⟩ := exists_leads hre hmatches
  have hsame := hleads.chosen hre (hlisted front sub back m heq hleads)
  rw [← heq, hchosen] at hsame
  cases hsame
  exact ⟨front, back, heq, hleads⟩

/-- As long as the matches come in the order of the list, the loop goes the reader's way. -/
theorem Listed.scanned (hre : Leftmost re matchAt) {s t : Bytes} (h : Listed re subs matchAt s)
    (hrest : Rest re subs s t) : Scanned re subs matchAt s t := by
  induction hrest with
  | refl => exact .refl
  | tail _ hround ih =>
    obtain ⟨hne, chosen, m, hchosen, rfl⟩ := hround
    obtain ⟨front, back, heq, hleads⟩ := chosen_leads hre hchosen (h _ ih hne)
    exact ih.tail ⟨hne, front, chosen, back, m, heq, hleads, rfl⟩

/-- And the reader goes the way of a loop that skips nothing. -/
theorem NoneSkipped.rest (hre : Leftmost re matchAt) {s t : Bytes}
    (h : NoneSkipped re subs matchAt s) (hscan : Scanned re subs matchAt s t) :
    Rest re subs s t := by
  induction hscan with
  | refl => exact .refl
  | @tail t u _ hstep ih =>
    obtain ⟨hne, front, sub, back, m, rfl, hleads, rfl⟩ := hstep
    refine ih.tail ⟨hne, ?_⟩
    cases hchosen : substMatch re t (front ++ sub :: back) with
    | none =>
      have habsent := substMatch_eq_none hchosen sub (by simp)
      rw [hleads.exec] at habsent
      cases habsent
    | some found =>
      obtain ⟨chosen, m'⟩ := found
      have hleft := ((h t ih hne).1 chosen m' hchosen).2
      obtain ⟨rfl, -⟩ := hleads.of_chosen hre hchosen hleft
      exact ⟨chosen, m', rfl, rfl⟩

/-- No match is skipped exactly in the strings in which the matches come in the order of the
list. -/
theorem noneSkipped_iff (hre : Leftmost re matchAt) (s : Bytes) :
    NoneSkipped re subs matchAt s ↔ Listed re subs matchAt s := by
  constructor
  · rintro h t hscan hne front sub back m rfl hleads f hf so eo hat
    have hround := h t (h.rest hre hscan) hne
    cases hchosen : substMatch re t (front ++ sub :: back) with
    | none =>
      exact hre.absent f t (substMatch_eq_none hchosen f (by simp [hf])) so eo hat
    | some found =>
      obtain ⟨chosen, m'⟩ := found
      obtain ⟨-, hnone⟩ := hleads.of_chosen hre hchosen (hround.1 chosen m' hchosen).2
      exact hre.absent f t (hnone f hf) so eo hat
  · intro h t hrest hne
    have hlisted := h t (h.scanned hre hrest) hne
    have hleft : ∀ chosen m', substMatch re t subs = some (chosen, m') →
        ∀ other ∈ subs, ∀ so eo, matchAt other t so eo → m'.1.1 ≤ so := by
      intro chosen m' hchosen
      obtain ⟨front, back, heq, hleads⟩ := chosen_leads hre hchosen hlisted
      rw [heq]
      exact hleads.leftmost
    constructor
    · intro chosen m' hchosen
      obtain ⟨-, -, -, -, hexec⟩ := substMatch_eq_some hchosen
      exact ⟨(hre.found chosen t m' hexec).1, hleft chosen m' hchosen⟩
    · intro other hother so eo hat
      unfold verbatim
      cases hchosen : substMatch re t subs with
      | none =>
        exact absurd hat (hre.absent other t (substMatch_eq_none hchosen other hother) so eo)
      | some found => exact hleft found.1 found.2 hchosen other hother so eo hat

end

/-- The occurrences of a pattern without special characters. -/
def occursAt (sub : SubstSpec) (s : Bytes) (so eo : Nat) : Prop :=
  eo = so + sub.pattern.length ∧ sub.pattern <+: s.drop so

/-- `regexec` on patterns without special characters. -/
def literalRegcomp : Regcomp where
  regcomp _ _ _ := true
  regexec pattern _ _ subject :=
    (strstr subject pattern).map fun pos => ((pos, pos + pattern.length), List.replicate 9 none)
  offsets pattern icase newline subject whole groups h := by
    obtain ⟨pos, hpos, heq⟩ := Option.map_eq_some_iff.mp h
    simp only [Prod.mk.injEq] at heq
    obtain ⟨rfl, rfl⟩ := heq
    exact ⟨Nat.le_add_right _ _, strstr_le _ _ _ hpos, by simp, by simp⟩

theorem literalRegcomp_leftmost : Leftmost literalRegcomp.toRegex occursAt where
  found sub s m h := by
    obtain ⟨pos, hpos, rfl⟩ := Option.map_eq_some_iff.mp h
    obtain ⟨hat, hfirst⟩ := (strstr_first s sub.pattern).1 pos hpos
    exact ⟨⟨rfl, hat⟩, fun so eo hso => hfirst so hso.2⟩
  absent sub s h so eo hat := by
    have hnone : strstr s sub.pattern = none := by simpa [SubstSpec.exec, literalRegcomp] using h
    exact (strstr_first s sub.pattern).2 hnone so hat.2

/-- With `-subst 'b::B' -subst 'a::A'` the output `ab` becomes `aB`. -/
theorem noneSkipped_order :
    ∃ subs, cliSubstCompile literalRegcomp false false false [ascii "b::B", ascii "a::A"] =
        .ok subs ∧
      Leftmost literalRegcomp.toRegex occursAt ∧
      (∀ sub ∈ subs, ∀ s so eo, occursAt sub s so eo → so < eo) ∧
      (0 : UInt8) ∉ ascii "ab" ∧
      cliSubst literalRegcomp.toRegex subs 2 (ascii "ab") = some (ascii "aB") ∧
      ¬ NoneSkipped literalRegcomp.toRegex subs occursAt (ascii "ab") := by
  refine ⟨[{ pattern := ascii "b", repl := [.literal (ascii "B")] },
    { pattern := ascii "a", repl := [.literal (ascii "A")] }], rfl, literalRegcomp_leftmost, ?_,
    by decide, by decide, ?_⟩
  · intro sub hsub s so eo hat
    have hlen : sub.pattern.length = 1 := by
      simp only [List.mem_cons, List.not_mem_nil, or_false] at hsub
      obtain rfl | rfl := hsub <;> rfl
    rw [hat.1]
    omega
  · intro h
    have hround := (h (ascii "ab") .refl (by decide)).2
      { pattern := ascii "a", repl := [.literal (ascii "A")] } (by simp) 0 1 ⟨rfl, [98], by decide⟩
    exact absurd hround (by decide)

def substA : SubstSpec where
  pattern := ascii "a"
  repl := [.literal (ascii "A")]

def substB : SubstSpec where
  pattern := ascii "b"
  repl := [.literal (ascii "B")]

theorem substs_split {front back : List SubstSpec} {sub : SubstSpec}
    (h : [substA, substB] = front ++ sub :: back) :
    front = [] ∧ sub = substA ∨ front = [substA] ∧ sub = substB := by
  rcases front with - | ⟨f, - | ⟨g, front⟩⟩
  · cases h
    exact .inl ⟨rfl, rfl⟩
  · cases h
    exact .inr ⟨rfl, rfl⟩
  · have hlen := congrArg List.length h
    simp only [List.length_cons, List.length_nil, List.length_append] at hlen
    omega

/-- With `-subst 'a::A' -subst 'b::B'` nothing is skipped in `ab`. -/
theorem noneSkipped_listed :
    NoneSkipped literalRegcomp.toRegex [substA, substB] occursAt (ascii "ab") := by
  apply (noneSkipped_iff literalRegcomp_leftmost (ascii "ab")).mpr
  have hfront : ∀ {front sub back m}, [substA, substB] = front ++ sub :: back →
      Leads literalRegcomp.toRegex occursAt front sub back (ascii "ab") m →
      front = [] ∧ sub = substA := by
    intro front sub back m heq hleads
    obtain hfirst | ⟨rfl, rfl⟩ := substs_split heq
    · exact hfirst
    · have hstart := hleads.leftmost substA (by simp) 0 1 ⟨rfl, [98], by decide⟩
      have hexec : substB.exec literalRegcomp.toRegex (ascii "ab") =
        some ((1, 2), List.replicate 9 none) := by decide
      rw [hleads.exec] at hexec
      cases hexec
      cases hstart
  -- behind its first match there is no `a` left
  have hleft : ∀ t, Scanned literalRegcomp.toRegex [substA, substB] occursAt (ascii "ab") t →
      t = ascii "ab" ∨ ∀ so eo, ¬ occursAt substA t so eo := by
    intro t hscan
    induction hscan with
    | refl => exact .inl rfl
    | tail _ hstep ih =>
      obtain ⟨-, front, sub, back, m, heq, hleads, rfl⟩ := hstep
      obtain rfl | hnone := ih
      · obtain ⟨rfl, rfl⟩ := hfront heq hleads
        have hexec : substA.exec literalRegcomp.toRegex (ascii "ab") =
          some ((0, 1), List.replicate 9 none) := by decide
        rw [hleads.exec] at hexec
        cases hexec
        exact .inr (literalRegcomp_leftmost.absent substA (ascii "b") (by decide))
      · refine .inr fun so eo hat => hnone (m.1.2 + so) (m.1.2 + eo) ⟨?_, ?_⟩
        · rw [hat.1, Nat.add_assoc]
        · rw [← List.drop_drop]
          exact hat.2
  intro t hscan hne front sub back m heq hleads f hf so eo hat
  obtain rfl | hnone := hleft t hscan
  · obtain ⟨rfl, -⟩ := hfront heq hleads
    cases hf
  · obtain ⟨rfl, -⟩ | ⟨rfl, -⟩ := substs_split heq
    · cases hf
    · obtain rfl := List.mem_singleton.mp hf
      exact hnone so eo hat

/-- Output in which `b` does not occur, with `-subst 'b::B'`. -/
theorem transparent_iff_unmatched :
    ¬ Transparent literalRegcomp.toRegex
      [{ pattern := ascii "b", repl := [.literal (ascii "B")] }] [0, octet 'a', 0] := by
  intro ht
  obtain hnil | hnil := (transparent_iff literalRegcomp.toRegex
    [{ pattern := ascii "b", repl := [.literal (ascii "B")] }] [0, octet 'a', 0]
    (by decide)).2.mp ht
  · cases hnil
  · cases hnil

/-- With `-subst 'b::B'` the output `a` does not arrive at standard output. -/
theorem transparent_descriptor :
    ∃ subs, cliSubstCompile literalRegcomp false false false [ascii "b::B"] = .ok subs ∧
      (∀ s ∈ (ascii "a").splitOn 0, ∀ sub ∈ subs, sub.exec literalRegcomp.toRegex s = none) ∧
      outputWrites literalRegcomp.toRegex subs 1 (ascii "a") =
        some [⟨stdinFileno, ascii "a"⟩] ∧
      outputWrites literalRegcomp.toRegex [] 1 (ascii "a") = some [⟨stdoutFileno, ascii "a"⟩] ∧
      ¬ Transparent literalRegcomp.toRegex subs (ascii "a") := by
  refine ⟨[{ pattern := ascii "b", repl := [.literal (ascii "B")] }], rfl, by decide, rfl, rfl, ?_⟩
  rintro ⟨rounds, ws, plain, hws, hplain, hsame⟩
  obtain rfl : [⟨stdoutFileno, ascii "a"⟩] = plain := Option.some.inj hplain
  have hfd := (substRawWrites_spec literalRegcomp.toRegex
    [{ pattern := ascii "b", repl := [.literal (ascii "B")] }] rounds 1 (ascii "a")).2 ws hws
  have hstdout := hsame stdoutFileno
  rw [(writtenTo_one hfd).2 stdoutFileno (by decide)] at hstdout
  exact absurd hstdout (by decide)

end Sexpect.Guarantees
