import Sexpect.Guarantees.CommandLine
import Sexpect.Source.Subst

/-!
# The table of `-subst`

`st->subs[st->nsubs++] = next` stores at the number of the options `-subst` before, and
`cli_subst_compile` goes over all of them.  Nothing on the way compares that number with
`MAX_SUBST`: the indices stay below it exactly on the lines that do not begin with
options among which more than ten are `-subst` (`subst_table_iff`).
-/
namespace Sexpect.Guarantees
open Sexpect.Lib Sexpect.Source

/-! ## The options of `interact` -/

/-- The options without a value. -/
def interactFlag (arg : Bytes) : Bool :=
  str1of arg ["-nocase", "-icase", "-i", "-anchor-newline", "-anchor", "-cstring", "-cstr", "-c",
    "-nodetach", "-nodet", "-nod"]

/-- An option that is accepted, with its value, and how many `-subst` it is. -/
inductive InteractOption : List Bytes → Nat → Prop
  | flag {arg : Bytes} : interactFlag arg = true → InteractOption [arg] 0
  | re {arg : Bytes} (next : Bytes) : str1of arg ["-re"] = true → InteractOption [arg, next] 0
  | lookback {arg next : Bytes} {n : Int} : str1of arg ["-lookback", "-lb"] = true →
      arg2uint next = .ok n → InteractOption [arg, next] 0
  | subst {arg : Bytes} (next : Bytes) : str1of arg ["-subst", "-sub"] = true →
      InteractOption [arg, next] 1

/-- Options one after the other; `k` of them are `-subst`. -/
inductive InteractOptions : List Bytes → Nat → Prop
  | nil : InteractOptions [] 0
  | cons {opt rest : List Bytes} {j k : Nat} : InteractOption opt j → InteractOptions rest k →
      InteractOptions (opt ++ rest) (j + k)

/-- The arguments begin with options among which more than `MAX_SUBST` are `-subst`. -/
def TooMany (args : List Bytes) : Prop :=
  ∃ front back k, args = front ++ back ∧ InteractOptions front k ∧ maxSubst < k

/-- The first word of an option says how many `-subst` it is. -/
theorem InteractOption.count {arg : Bytes} {values : List Bytes} {k : Nat}
    (h : InteractOption (arg :: values) k) :
    k = if str1of arg ["-subst", "-sub"] = true then 1 else 0 := by
  have hother : ∀ {names : List String}, str1of arg names = true →
      (∀ name ∈ names, str1of (ascii name) ["-subst", "-sub"] = false) →
      0 = if str1of arg ["-subst", "-sub"] = true then 1 else 0 := by
    intro names hnames hothers
    rw [str1of_others hnames hothers]
    rfl
  cases h with
  | flag hflag => exact hother hflag (by decide)
  | re _ hre => exact hother hre (by decide)
  | lookback hlookback _ => exact hother hlookback (by decide)
  | subst _ hsubst => rw [if_pos hsubst]

/-- An argument that is accepted is an option. -/
theorem interactArg_option {arg : Bytes} {rest : List Bytes} {st : InteractArgs}
    {p : Parsed InteractArgs} (h : interactArg arg rest st = .ok p) :
    ∃ values k, InteractOption (arg :: values) k ∧ rest = values ++ p.rest ∧
      p.st.subs.length = st.subs.length + k := by
  unfold interactArg at h
  obtain ⟨hre, h⟩ | ⟨-, h⟩ := ite_eq_iff.mp h
  · obtain ⟨next, rest', st', rfl, hst, rfl⟩ := valueArg_ok h
    cases hst
    exact ⟨_, 0, .re next hre, rfl, rfl⟩
  iterate 3
    obtain ⟨hflag, h⟩ | ⟨-, h⟩ := ite_eq_iff.mp h
    · cases h
      exact ⟨[], 0, .flag (str1of_more hflag (by decide)), rfl, rfl⟩
  obtain ⟨hlookback, h⟩ | ⟨-, h⟩ := ite_eq_iff.mp h
  · obtain ⟨next, rest', st', rfl, hst, rfl⟩ := valueArg_ok h
    obtain ⟨n, hn, hst⟩ := bind_ok hst
    cases hst
    exact ⟨_, 0, .lookback hlookback hn, rfl, rfl⟩
  obtain ⟨hflag, h⟩ | ⟨-, h⟩ := ite_eq_iff.mp h
  · cases h
    exact ⟨[], 0, .flag (str1of_more hflag (by decide)), rfl, rfl⟩
  obtain ⟨hsubst, h⟩ | ⟨-, h⟩ := ite_eq_iff.mp h
  · obtain ⟨next, rest', st', rfl, hst, rfl⟩ := valueArg_ok h
    cases hst
    exact ⟨_, 1, .subst next hsubst, rfl, by simp⟩
  · cases h

/-- An option is accepted, whatever is behind it. -/
theorem InteractOption.accepted {arg : Bytes} {values : List Bytes} {k : Nat}
    (h : InteractOption (arg :: values) k) (back : List Bytes) (st : InteractArgs) :
    ∃ p, interactArg arg (values ++ back) st = .ok p ∧ p.rest = back ∧
      p.st.subs.length = st.subs.length + k := by
  cases h with
  | flag hflag =>
    obtain ⟨name, hname, rfl⟩ := List.mem_map.mp (mem_of_str1of hflag)
    simp only [List.mem_cons, List.not_mem_nil, or_false] at hname
    rcases hname with rfl | rfl | rfl | rfl | rfl | rfl | rfl | rfl | rfl | rfl | rfl <;>
      exact ⟨_, rfl, rfl, rfl⟩
  | re next hre =>
    obtain ⟨name, hname, rfl⟩ := List.mem_map.mp (mem_of_str1of hre)
    cases List.mem_singleton.mp hname
    exact ⟨_, rfl, rfl, rfl⟩
  | @lookback _ next n hlookback hn =>
    obtain ⟨name, hname, rfl⟩ := List.mem_map.mp (mem_of_str1of hlookback)
    simp only [List.mem_cons, List.not_mem_nil, or_false] at hname
    have hvalue : ∀ arg, valueArg arg (next :: back) (fun next => do
        let n ← arg2uint next
        .ok { st with toPassArgs := st.toPassArgs.withLookback n }) =
          .ok { st := { st with toPassArgs := st.toPassArgs.withLookback n }, rest := back } := by
      intro arg
      simp [valueArg, nextarg, hn, Bind.bind, Except.bind]
    rcases hname with rfl | rfl <;> exact ⟨_, hvalue _, rfl, rfl⟩
  | subst next hsubst =>
    obtain ⟨name, hname, rfl⟩ := List.mem_map.mp (mem_of_str1of hsubst)
    simp only [List.mem_cons, List.not_mem_nil, or_false] at hname
    rcases hname with rfl | rfl <;> exact ⟨_, rfl, rfl, by simp⟩

/-! ## The loop of `getargs` -/

theorem InteractOptions.cases_front {front : List Bytes} {k : Nat} (h : InteractOptions front k) :
    front = [] ∧ k = 0 ∨ ∃ arg values rest j l, front = arg :: (values ++ rest) ∧
      InteractOption (arg :: values) j ∧ InteractOptions rest l ∧ k = j + l := by
  cases h with
  | nil => exact .inl ⟨rfl, rfl⟩
  | @cons opt rest j l hopt hrest =>
    obtain ⟨arg, values, rfl⟩ : ∃ arg values, opt = arg :: values := by
      cases hopt <;> exact ⟨_, _, rfl⟩
    exact .inr ⟨arg, values, rest, j, l, rfl, hopt, hrest, rfl⟩

/-- The indices from one option on. -/
theorem mem_interactIndices_cons {n : Nat} {arg : Bytes} {rest values : List Bytes}
    {st : InteractArgs} {p : Parsed InteractArgs} (hp : interactArg arg rest st = .ok p) {k : Nat}
    (hopt : InteractOption (arg :: values) k) (i : Nat) :
    i ∈ interactIndices (n + 1) (arg :: rest) st ↔
      k = 1 ∧ i = st.subs.length ∨ i ∈ interactIndices n p.rest p.st := by
  have hk := hopt.count
  simp only [interactIndices, hp, List.mem_append]
  by_cases hsubst : str1of arg ["-subst", "-sub"] = true
  · rw [if_pos hsubst] at hk ⊢
    simp [hk]
  · rw [if_neg hsubst] at hk ⊢
    simp [hk]

/-- Where the loop stores it has come past options with that many `-subst` and one more. -/
theorem interactIndices_options {n : Nat} {args : List Bytes} {st : InteractArgs} {i : Nat}
    (h : i ∈ interactIndices n args st) :
    ∃ front back k, args = front ++ back ∧ InteractOptions front k ∧ i < st.subs.length + k := by
  induction n generalizing args st with
  | zero => cases args <;> cases h
  | succ n ih =>
    cases args with
    | nil => cases h
    | cons arg rest =>
      cases hp : interactArg arg rest st with
      | error e =>
        simp only [interactIndices, hp] at h
        cases h
      | ok p =>
        obtain ⟨values, k, hopt, hrest, hlen⟩ := interactArg_option hp
        rcases (mem_interactIndices_cons hp hopt i).mp h with ⟨rfl, rfl⟩ | hmem
        · refine ⟨_, p.rest, _, ?_, .cons hopt .nil, by omega⟩
          rw [hrest, List.append_nil]
          rfl
        · obtain ⟨front, back, l, hsplit, hfront, hlt⟩ := ih hmem
          refine ⟨_, back, _, ?_, .cons hopt hfront, by omega⟩
          rw [hrest, hsplit, List.append_assoc]
          rfl

/-- Past such options it has stored at every index up to theirs. -/
theorem interactIndices_of_options {n : Nat} {front back : List Bytes}
    (hn : (front ++ back).length ≤ n) {k : Nat} (hfront : InteractOptions front k)
    (st : InteractArgs) {i : Nat} (hlo : st.subs.length ≤ i) (hhi : i < st.subs.length + k) :
    i ∈ interactIndices n (front ++ back) st := by
  induction n generalizing front k st with
  | zero =>
    rcases hfront.cases_front with ⟨-, rfl⟩ | ⟨arg, values, rest, j, l, rfl, -⟩
    · omega
    · simp at hn
  | succ n ih =>
    rcases hfront.cases_front with ⟨-, rfl⟩ | ⟨arg, values, rest, j, l, rfl, hopt, hrest, rfl⟩
    · omega
    · obtain ⟨p, hp, hback, hlen⟩ := hopt.accepted (rest ++ back) st
      simp only [List.length_cons, List.length_append, List.cons_append] at hn
      rw [List.cons_append, List.append_assoc, mem_interactIndices_cons hp hopt, hback]
      have hcount := hopt.count
      by_cases hfirst : j = 1 ∧ i = st.subs.length
      · exact .inl hfirst
      · refine .inr (ih (by simp only [List.length_append]; omega) hrest p.st ?_ (by omega))
        split at hcount <;> omega

/-- A line that is accepted is made of options. -/
theorem argLoop_interact {n : Nat} {args : List Bytes} (hn : args.length ≤ n) {st : InteractArgs}
    {p : Parsed InteractArgs} (h : argLoop interactArg n args st = .ok p) :
    ∃ k, InteractOptions args k ∧ p.st.subs.length = st.subs.length + k := by
  induction n generalizing args st p with
  | zero =>
    cases List.length_eq_zero_iff.mp (Nat.le_zero.mp hn)
    cases h
    exact ⟨0, .nil, rfl⟩
  | succ n ih =>
    cases args with
    | nil =>
      cases h
      exact ⟨0, .nil, rfl⟩
    | cons arg rest =>
      obtain ⟨p₁, hp, h⟩ := argLoop_cons h
      obtain ⟨hstop, -⟩ | ⟨-, h⟩ := h
      · rw [(interactArg_takes hp).goes] at hstop
        cases hstop
      · have hshort := (interactArg_takes hp).left.length_le
        obtain ⟨values, k, hopt, hrest, hlen⟩ := interactArg_option hp
        obtain ⟨l, hmore, hsubs⟩ := ih (by simp only [List.length_cons] at hn; omega) h
        refine ⟨k + l, ?_, by simp only [hsubs, hlen, Nat.add_assoc]⟩
        rw [hrest]
        exact .cons hopt hmore

/-! ## The loop of `cli_subst_compile` -/

theorem compileUses_lt (re : Regcomp) (icase newline cstr : Bool) (i : Nat) (specs : List Bytes) :
    ∀ use ∈ compileUses re icase newline cstr i specs, use.2 < i + specs.length := by
  induction specs generalizing i with
  | nil =>
    intro use hmem
    cases hmem
  | cons spec specs ih =>
    intro use hmem
    rw [List.length_cons]
    simp only [compileUses, List.mem_append, List.mem_cons] at hmem
    rcases hmem with (rfl | hclient) | hmore
    · exact Nat.lt_add_of_pos_right (Nat.succ_pos _)
    · split at hclient
      · cases List.mem_singleton.mp hclient
        exact Nat.lt_add_of_pos_right (Nat.succ_pos _)
      · cases hclient
    · split at hmore
      · cases hmore
      · have := ih (i + 1) use hmore
        omega

/-! ## The table -/

/-- Every index into the two arrays is below `MAX_SUBST`: where `getargs` stores, and,
with every `regcomp`, where `cli_subst_compile` goes over what it has stored.  A line
that holds more `-subst` than that is not accepted. -/
structure SubstTableSafe (args : List Bytes) : Prop where
  stores : ∀ i ∈ interactIndices args.length args interactInit, i < maxSubst
  compiles : ∀ q st, subArgs .interact args = .ok q → q.st = .interact st →
    ∀ re icase newline, ∀ use ∈ compileUses re icase newline st.cstring 0 st.subs, use.2 < maxSubst
  rejects : ∀ q st, subArgs .interact args = .ok q → q.st = .interact st →
    st.subs.length ≤ maxSubst

/-- What an accepted line has stored is no more than its options `-subst`. -/
theorem accepted_options {args : List Bytes} {q : Parsed SubOpts} {st : InteractArgs}
    (h : subArgs .interact args = .ok q) (hst : q.st = .interact st) :
    InteractOptions args st.subs.length := by
  obtain ⟨p, hp, rfl⟩ := walk_ok h
  cases hst
  obtain ⟨k, hk, hlen⟩ := argLoop_interact le_rfl hp
  rw [hlen]
  simpa [interactInit] using hk

/-- The table is kept to its bound exactly on the lines that do not begin with options
among which more than ten are `-subst`. -/
theorem subst_table_iff (args : List Bytes) : SubstTableSafe args ↔ ¬ TooMany args := by
  constructor
  · rintro hsafe ⟨front, back, k, rfl, hfront, hmany⟩
    have hmem : maxSubst ∈ interactIndices (front ++ back).length (front ++ back) interactInit :=
      interactIndices_of_options le_rfl hfront interactInit (Nat.zero_le _)
        (by simpa [interactInit] using hmany)
    exact Nat.lt_irrefl _ (hsafe.stores maxSubst hmem)
  · intro hfew
    have hlength : ∀ q st, subArgs .interact args = .ok q → q.st = .interact st →
        st.subs.length ≤ maxSubst := by
      intro q st hq hst
      by_contra hmany
      exact hfew ⟨args, [], st.subs.length, (List.append_nil args).symm, accepted_options hq hst,
        Nat.lt_of_not_le hmany⟩
    refine ⟨?_, ?_, hlength⟩
    · intro i hi
      obtain ⟨front, back, k, hsplit, hfront, hlt⟩ := interactIndices_options hi
      by_contra hmany
      refine hfew ⟨front, back, k, hsplit, hfront, ?_⟩
      simp only [interactInit, List.length_nil] at hlt
      omega
    · intro q st hq hst re icase newline use huse
      have hlt := compileUses_lt re icase newline st.cstring 0 st.subs use huse
      have := hlength q st hq hst
      omega

/-- Eleven times `-subst a::b`. -/
def elevenSubsts : List Bytes := (List.replicate 11 [ascii "-subst", ascii "a::b"]).flatten

/-- The line is accepted with all of them, and the last is stored behind the array. -/
theorem eleventh_subst_stored :
    ¬ SubstTableSafe elevenSubsts ∧ 10 ∈ interactIndices 22 elevenSubsts interactInit ∧
      ∃ q st, subArgs .interact elevenSubsts = .ok q ∧ q.st = .interact st ∧
        st.subs.length = 11 := by
  have hmem : 10 ∈ interactIndices 22 elevenSubsts interactInit := by decide
  refine ⟨?_, hmem, _, _, rfl, rfl, rfl⟩
  intro h
  exact absurd (h.stores 10 hmem) (by decide)

end Sexpect.Guarantees
