import Sexpect.Guarantees.CommandLine
import Sexpect.Guarantees.Framing
import Sexpect.Guarantees.Visits

/-!
# Requests arrive as asked

From the command line to the server.  The numbers that `getargs` leaves are in the
range of an `int` and its pattern is a C string, `Sendable`, so that none of them is
changed on the way: in the tree the client builds, in its octets, and in the fields
the server reads.
-/
namespace Sexpect.Guarantees
open Sexpect.Lib Sexpect.Source

/-! ## Numbers -/

theorem arg2int_range {s : Bytes} {n : Int} (h : arg2int s = .ok n) : intMin ≤ n ∧ n ≤ intMax := by
  unfold arg2int at h
  obtain ⟨-, h⟩ | ⟨-, h⟩ := ite_eq_iff.mp h
  · cases h
  obtain ⟨-, h⟩ | ⟨-, h⟩ := ite_eq_iff.mp h
  · cases h
  obtain ⟨-, h⟩ | ⟨hrange, h⟩ := ite_eq_iff.mp h
  · cases h
  cases h
  rw [not_or, not_lt, not_lt] at hrange
  exact hrange

theorem arg2uint_range {s : Bytes} {n : Int} (h : arg2uint s = .ok n) : 0 ≤ n ∧ n ≤ intMax := by
  unfold arg2uint at h
  cases hint : arg2int s with
  | error e =>
    rw [hint] at h
    cases h
  | ok k =>
    rw [hint] at h
    obtain ⟨-, h⟩ | ⟨hneg, h⟩ := ite_eq_iff.mp h
    · cases h
    cases h
    exact ⟨not_lt.mp hneg, (arg2int_range hint).2⟩

/-- The negative numbers all become `floor`. -/
theorem argFloor_range {floor : Int} (hlo : intMin ≤ floor) (hhi : floor ≤ intMax) {s : Bytes} {n : Int}
    (h : argFloor floor s = .ok n) : intMin ≤ n ∧ n ≤ intMax := by
  obtain ⟨k, hk, h⟩ := bind_ok h
  cases h
  split
  · exact ⟨hlo, hhi⟩
  · exact arg2int_range hk

/-! ## The options of `expect`, `interact` and `wait` -/

def CStrings (args : List Bytes) : Prop := ∀ a ∈ args, (0 : UInt8) ∉ a

/-- Options that a request carries unchanged. -/
structure Sendable (opts : StPass) : Prop where
  flags : 0 ≤ opts.expflags ∧ opts.expflags < 256
  timeout : -1 ≤ opts.timeout ∧ opts.timeout ≤ intMax
  lookback : 0 ≤ opts.lookback ∧ opts.lookback ≤ intMax
  pattern : ∀ p, opts.pattern = some p → (0 : UInt8) ∉ p

/-- The masks of the eight flags. -/
def flagMasks : List Int := [1, 2, 4, 8, 16, 32, 64, 128]

theorem setFlag_range {flags mask : Int} (h : 0 ≤ flags ∧ flags < 256) (hmask : mask ∈ flagMasks) :
    0 ≤ setFlag flags mask ∧ setFlag flags mask < 256 := by
  simp only [flagMasks, List.mem_cons, List.not_mem_nil, or_false] at hmask
  simp only [setFlag, hasFlag, decide_eq_true_eq]
  obtain rfl | rfl | rfl | rfl | rfl | rfl | rfl | rfl := hmask
  all_goals split <;> omega

theorem clearFlag_range {flags mask : Int} (h : 0 ≤ flags ∧ flags < 256) (hmask : mask ∈ flagMasks) :
    0 ≤ clearFlag flags mask ∧ clearFlag flags mask < 256 := by
  simp only [flagMasks, List.mem_cons, List.not_mem_nil, or_false] at hmask
  simp only [clearFlag, hasFlag, decide_eq_true_eq]
  obtain rfl | rfl | rfl | rfl | rfl | rfl | rfl | rfl := hmask
  all_goals split <;> omega

section

variable {opts : StPass} (h : Sendable opts)
include h

theorem Sendable.withFlags {flags : Int} (hflags : 0 ≤ flags ∧ flags < 256) :
    Sendable { opts with expflags := flags } :=
  ⟨hflags, h.timeout, h.lookback, h.pattern⟩

theorem Sendable.withPattern {pattern : Bytes} (hpattern : (0 : UInt8) ∉ pattern) :
    Sendable { opts with pattern := some pattern } := by
  refine ⟨h.flags, h.timeout, h.lookback, ?_⟩
  intro p hp
  cases hp
  exact hpattern

theorem Sendable.withLookback {n : Int} (hn : 0 ≤ n ∧ n ≤ intMax) :
    Sendable { opts with lookback := n } :=
  ⟨h.flags, h.timeout, hn, h.pattern⟩

theorem Sendable.withTimeout {n : Int} (hn : n ≤ intMax) :
    Sendable { opts with hasTimeout := true, timeout := if n < 0 then -1 else n } := by
  have hmax : intMax = 2147483647 := rfl
  refine ⟨h.flags, ?_, h.lookback, h.pattern⟩
  simp only
  split <;> omega

end

theorem Sendable.flag {st : PassArgs} (h : Sendable st.opts) {mask : Int} (hmask : mask ∈ flagMasks) :
    Sendable (st.flag mask).opts :=
  h.withFlags (setFlag_range h.flags hmask)

/-- One argument of `expect`. -/
theorem ExpectTakes.sendable {st st' : PassArgs} {arg : Bytes} {rest rest' : List Bytes}
    (h : ExpectTakes st arg rest st' rest') (hclean : CStrings (arg :: rest))
    (hst : Sendable st.opts) : Sendable st'.opts := by
  cases h with
  | pattern next _ mask hname =>
    have hpattern : Sendable (st.withPattern next).opts :=
      hst.withPattern (hclean next (by simp))
    refine hpattern.flag ?_
    obtain ⟨-, rfl⟩ | ⟨-, rfl⟩ | ⟨-, rfl⟩ := hname
    all_goals decide
  | nocase => exact hst.flag (by decide)
  | anchor => exact hst.flag (by decide)
  | cstring => exact hst
  | eof => exact hst.flag (by decide)
  | timeout next _ n _ hn => exact hst.withTimeout (arg2int_range hn).2
  | lookback next _ n _ hn => exact hst.withLookback (arg2uint_range hn)
  | word =>
    have hpattern : Sendable (st.withPattern arg).opts := hst.withPattern (hclean arg (by simp))
    exact hpattern.flag (by decide)

/-- The checks behind the loop of `expect`. -/
theorem expectPattern_sendable {st : PassArgs} (hst : Sendable st.opts) {opts : StPass}
    (h : expectPattern st = .ok opts) : Sendable opts := by
  unfold expectPattern at h
  obtain ⟨-, habsurd⟩ | ⟨-, h⟩ := ite_eq_iff.mp h
  · cases habsurd
  obtain ⟨-, habsurd⟩ | ⟨-, h⟩ := ite_eq_iff.mp h
  · cases habsurd
  cases hp : st.opts.pattern with
  | none =>
    rw [hp] at h
    cases h
    exact hst
  | some pattern =>
    rw [hp] at h
    obtain ⟨used, hused, h⟩ := bind_ok h
    obtain ⟨hne, hclean⟩ := usedPattern_ok (hst.pattern pattern hp) hused
    obtain ⟨-, h⟩ | ⟨-, h⟩ := ite_eq_iff.mp h
    · cases hre : glob2re used with
      | none =>
        rw [hre] at h
        cases h
      | some re =>
        rw [hre] at h
        cases h
        refine (hst.withPattern (glob2re_clean hclean hne hre).2).withFlags ?_
        exact setFlag_range (clearFlag_range hst.flags (by decide)) (by decide)
    · cases h
      exact hst.withPattern hclean

theorem interactPattern_sendable {st : InteractArgs} (hst : Sendable st.opts) {opts : StPass}
    (h : interactPattern st = .ok opts) : Sendable opts := by
  unfold interactPattern at h
  cases hp : st.opts.pattern with
  | none =>
    rw [hp] at h
    cases h
    exact hst
  | some pattern =>
    rw [hp] at h
    obtain ⟨used, hused, h⟩ := bind_ok h
    cases h
    exact hst.withPattern (usedPattern_ok (hst.pattern pattern hp) hused).2

theorem expectStep_sendable {arg : Bytes} {rest : List Bytes} {st : PassArgs} {p : Parsed PassArgs}
    (hclean : CStrings (arg :: rest)) (hst : Sendable st.opts) (h : expectStep arg rest st = .ok p) :
    Sendable p.st.opts :=
  (expectStep_ok h).1.sendable hclean hst

theorem interactArg_sendable {arg : Bytes} {rest : List Bytes} {st : InteractArgs}
    {p : Parsed InteractArgs} (hclean : CStrings (arg :: rest)) (hst : Sendable st.opts)
    (h : interactArg arg rest st = .ok p) : Sendable p.st.opts := by
  unfold interactArg at h
  obtain ⟨-, h⟩ | ⟨-, h⟩ := ite_eq_iff.mp h
  · obtain ⟨next, rest', st', rfl, hst', rfl⟩ := valueArg_ok h
    cases hst'
    have hpattern : Sendable (st.toPassArgs.withPattern next).opts :=
      hst.withPattern (hclean next (by simp))
    exact hpattern.flag (by decide)
  obtain ⟨-, h⟩ | ⟨-, h⟩ := ite_eq_iff.mp h
  · cases h
    exact Sendable.flag hst (by decide)
  obtain ⟨-, h⟩ | ⟨-, h⟩ := ite_eq_iff.mp h
  · cases h
    exact Sendable.flag hst (by decide)
  obtain ⟨-, h⟩ | ⟨-, h⟩ := ite_eq_iff.mp h
  · cases h
    exact hst
  obtain ⟨-, h⟩ | ⟨-, h⟩ := ite_eq_iff.mp h
  · obtain ⟨next, rest', st', rfl, hst', rfl⟩ := valueArg_ok h
    obtain ⟨n, hn, hst'⟩ := bind_ok hst'
    cases hst'
    exact hst.withLookback (arg2uint_range hn)
  obtain ⟨-, h⟩ | ⟨-, h⟩ := ite_eq_iff.mp h
  · cases h
    exact ⟨hst.flags, hst.timeout, hst.lookback, hst.pattern⟩
  obtain ⟨-, h⟩ | ⟨-, h⟩ := ite_eq_iff.mp h
  · obtain ⟨next, rest', st', rfl, hst', rfl⟩ := valueArg_ok h
    cases hst'
    exact hst
  · cases h

theorem waitArg_sendable {arg : Bytes} {rest : List Bytes} {st : PassArgs} {p : Parsed PassArgs}
    (hst : Sendable st.opts) (h : waitArg arg rest st = .ok p) : Sendable p.st.opts := by
  unfold waitArg at h
  obtain ⟨-, h⟩ | ⟨-, h⟩ := ite_eq_iff.mp h
  · obtain ⟨next, rest', st', rfl, hst', rfl⟩ := valueArg_ok h
    obtain ⟨n, hn, hst'⟩ := bind_ok hst'
    cases hst'
    exact hst.withLookback (arg2uint_range hn)
  · cases h

/-! ## The options of `set` -/

/-- A number that was given is an `int`. -/
def IntGiven (given : Option Int) : Prop := ∀ n, given = some n → intMin ≤ n ∧ n ≤ intMax

structure SettableOpts (opts : StSet) : Prop where
  timeout : IntGiven opts.timeout
  ttl : IntGiven opts.ttl
  idle : IntGiven opts.idle

theorem IntGiven.floor {floor : Int} (hlo : intMin ≤ floor) (hhi : floor ≤ intMax) {s : Bytes}
    {n : Int} (h : argFloor floor s = .ok n) : IntGiven (some n) := by
  rintro k ⟨⟩
  exact argFloor_range hlo hhi h

theorem setArg_settable {arg : Bytes} {rest : List Bytes} {st : StSet} {p : Parsed StSet}
    (hst : SettableOpts st) (h : setArg arg rest st = .ok p) : SettableOpts p.st := by
  unfold setArg at h
  obtain ⟨-, h⟩ | ⟨-, h⟩ := ite_eq_iff.mp h
  · obtain ⟨next, rest', st', rfl, hst', rfl⟩ := valueArg_ok h
    obtain ⟨b, -, hst'⟩ := bind_ok hst'
    cases hst'
    exact ⟨hst.timeout, hst.ttl, hst.idle⟩
  obtain ⟨-, h⟩ | ⟨-, h⟩ := ite_eq_iff.mp h
  · obtain ⟨next, rest', st', rfl, hst', rfl⟩ := valueArg_ok h
    obtain ⟨b, -, hst'⟩ := bind_ok hst'
    cases hst'
    exact ⟨hst.timeout, hst.ttl, hst.idle⟩
  obtain ⟨-, h⟩ | ⟨-, h⟩ := ite_eq_iff.mp h
  · obtain ⟨next, rest', st', rfl, hst', rfl⟩ := valueArg_ok h
    obtain ⟨n, hn, hst'⟩ := bind_ok hst'
    cases hst'
    exact ⟨.floor (by decide) (by decide) hn, hst.ttl, hst.idle⟩
  obtain ⟨-, h⟩ | ⟨-, h⟩ := ite_eq_iff.mp h
  · obtain ⟨next, rest', st', rfl, hst', rfl⟩ := valueArg_ok h
    obtain ⟨n, hn, hst'⟩ := bind_ok hst'
    cases hst'
    exact ⟨hst.timeout, .floor (by decide) (by decide) hn, hst.idle⟩
  obtain ⟨-, h⟩ | ⟨-, h⟩ := ite_eq_iff.mp h
  · obtain ⟨next, rest', st', rfl, hst', rfl⟩ := valueArg_ok h
    obtain ⟨n, hn, hst'⟩ := bind_ok hst'
    cases hst'
    exact ⟨hst.timeout, hst.ttl, .floor (by decide) (by decide) hn⟩
  · cases h

/-! ## The command line -/

section

variable {σ : Type} {step : Bytes → List Bytes → σ → Except UsageError (Parsed σ)}

/-- What every argument keeps, the loop keeps. -/
theorem argLoop_keeps {I : σ → Prop}
    (htakes : ∀ arg rest st p, step arg rest st = .ok p → p.rest <:+ rest)
    (hstep : ∀ arg rest st p, CStrings (arg :: rest) → I st → step arg rest st = .ok p → I p.st)
    {n : Nat} {args : List Bytes} (hclean : CStrings args) {st : σ} (hst : I st) {p : Parsed σ}
    (h : argLoop step n args st = .ok p) : I p.st := by
  induction n generalizing args st p with
  | zero =>
    cases args <;> cases h <;> exact hst
  | succ n ih =>
    cases args with
    | nil =>
      cases h
      exact hst
    | cons arg rest =>
      obtain ⟨p₁, hp, h⟩ := argLoop_cons h
      have hkept := hstep arg rest st p₁ hclean hst hp
      obtain ⟨-, rfl⟩ | ⟨-, h⟩ := h
      · exact hkept
      · have hrest : CStrings p₁.rest := by
          intro a ha
          exact hclean a (List.mem_cons_of_mem _ ((htakes arg rest st p₁ hp).subset ha))
        exact @ih _ hrest _ hkept p h

theorem walk_keeps {I : σ → Prop} {init : σ} {f : σ → SubOpts}
    (htakes : ∀ arg rest st p, step arg rest st = .ok p → p.rest <:+ rest)
    (hstep : ∀ arg rest st p, CStrings (arg :: rest) → I st → step arg rest st = .ok p → I p.st)
    {args : List Bytes} (hclean : CStrings args) (hinit : I init) {p : Parsed SubOpts}
    (h : walk step init f args = .ok p) : ∃ st, p.st = f st ∧ I st := by
  obtain ⟨q, hq, rfl⟩ := walk_ok h
  exact ⟨q.st, rfl, argLoop_keeps htakes hstep hclean hinit hq⟩

end

/-- The arguments of the sub-command are arguments of the program. -/
theorem globalArgs_mem {argv : List Bytes} {g g' : GlobalOpts} {cmd : SubCmd} {args : List Bytes}
    (h : globalArgs argv g = .ok (g', some (cmd, args))) : ∀ a ∈ args, a ∈ argv := by
  fun_induction globalArgs argv g with
  | case1 => cases h
  | case2 | case3 =>
    cases h
    exact fun a ha => List.mem_cons_of_mem _ ha
  | case4 g arg rest _ _ _ ih => exact fun a ha => List.mem_cons_of_mem _ (ih h a ha)
  | case5 => cases h
  | case6 g arg _ _ _ _ next rest ih =>
    exact fun a ha => List.mem_cons_of_mem _ (List.mem_cons_of_mem _ (ih h a ha))
  | case7 => cases h
  | case8 =>
    cases h
    exact fun a ha => List.mem_cons_of_mem _ ha

theorem checkSock_ok {env : Env} {g : GlobalOpts} {action action' : Action}
    (h : checkSock env g action = .ok action') : action' = action := by
  unfold checkSock at h
  repeat' split at h
  all_goals first
    | (cases h; rfl)
    | cases h

theorem mapError_ok {ε ε' α : Type} {f : ε → ε'} {x : Except ε α} {a : α}
    (h : x.mapError f = .ok a) : x = .ok a := by
  cases x with
  | error e => cases h
  | ok b =>
    cases h
    rfl

/-- The sub-command behind an accepted command line and its options. -/
theorem getargs_ok {env : Env} {argv : List Bytes} {action : Action}
    (h : getargs env argv = .ok action) :
    ∃ g cmd args p, globalArgs argv {} = .ok (g, some (cmd, args)) ∧ subArgs cmd args = .ok p ∧
      checkOpts env p.st = .ok action := by
  obtain ⟨⟨g, sub⟩, hglobal, h⟩ := bind_ok h
  cases sub with
  | none => cases h
  | some sub =>
    obtain ⟨cmd, args⟩ := sub
    obtain ⟨p, hp, h⟩ := bind_ok h
    obtain ⟨checked, hchecked, h⟩ := bind_ok h
    obtain ⟨final, hfinal, hlast⟩ := bind_ok h
    obtain rfl := checkSock_ok hfinal
    refine ⟨g, cmd, args, p, mapError_ok hglobal, mapError_ok hp, ?_⟩
    rw [hchecked]
    cases final with
    | unknown name => cases hlast
    | help | version | chkerr st | spawn st | command cmd subs => exact hlast

/-- What `getargs` leaves for the commands with options. -/
def Sound : Cmd → Prop
  | .pass _ opts => Sendable opts
  | .set opts => SettableOpts opts
  | _ => True

theorem interactInit_sendable : Sendable interactInit.opts :=
  ⟨by decide, by decide, by decide, nofun⟩

theorem waitInit_sendable : Sendable waitInit.opts :=
  ⟨by decide, by decide, by decide, nofun⟩

theorem noOpts_sendable : Sendable {} :=
  ⟨by decide, by decide, by decide, nofun⟩

theorem nothing_settable : SettableOpts {} := ⟨nofun, nofun, nofun⟩

/-- The checks behind the loop of a sub-command, and the loop before them. -/
theorem subArgs_sound {env : Env} {sub : SubCmd} {args : List Bytes} (hclean : CStrings args)
    {p : Parsed SubOpts} (hsub : subArgs sub args = .ok p) {cmd : Cmd} {subs : List Bytes}
    (h : checkOpts env p.st = .ok (.command cmd subs)) : Sound cmd := by
  cases sub with
  | expect =>
    obtain ⟨st, hst, hsend⟩ := @walk_keeps _ _ (fun st : PassArgs => Sendable st.opts) _ _
      (fun _ _ _ _ h => (expectStep_ok h).1.left) (fun _ _ _ _ => expectStep_sendable) _ hclean
      noOpts_sendable _ hsub
    rw [hst] at h
    obtain ⟨opts, hopts, h⟩ := bind_ok h
    cases h
    exact expectPattern_sendable hsend (mapError_ok hopts)
  | interact =>
    obtain ⟨st, hst, hsend⟩ := @walk_keeps _ _ (fun st : InteractArgs => Sendable st.opts) _ _
      (fun _ _ _ _ h => (interactArg_takes h).left) (fun _ _ _ _ => interactArg_sendable) _ hclean
      interactInit_sendable _ hsub
    rw [hst] at h
    obtain ⟨opts, hopts, h⟩ := bind_ok h
    cases h
    exact interactPattern_sendable hsend (mapError_ok hopts)
  | wait =>
    obtain ⟨st, hst, hsend⟩ := @walk_keeps _ _ (fun st : PassArgs => Sendable st.opts) _ _
      (fun _ _ _ _ h => (waitArg_takes h).left) (fun _ _ _ _ _ => waitArg_sendable) _ hclean
      waitInit_sendable _ hsub
    rw [hst] at h
    cases h
    exact hsend
  | set =>
    obtain ⟨st, hst, hset⟩ := @walk_keeps _ _ SettableOpts _ _
      (fun _ _ _ _ h => (setArg_takes h).left) (fun _ _ _ _ _ => setArg_settable) _ hclean
      nothing_settable _ hsub
    rw [hst] at h
    cases h
    exact hset
  | send =>
    obtain ⟨q, -, rfl⟩ := walk_ok hsub
    obtain ⟨data, -, h⟩ := bind_ok h
    cases h
    trivial
  | spawn =>
    obtain ⟨q, -, rfl⟩ := walk_ok hsub
    obtain ⟨-, h⟩ | ⟨-, h⟩ := ite_eq_iff.mp h
    · cases h
    · cases h
  | unknown name =>
    cases hsub
    cases h
  | chkerr | help | version =>
    obtain ⟨q, -, rfl⟩ := walk_ok hsub
    cases h
  | close | expectOut | get | kill =>
    obtain ⟨q, -, rfl⟩ := walk_ok hsub
    cases h
    trivial

theorem getargs_sound {env : Env} {argv : List Bytes} (hclean : CStrings argv) {cmd : Cmd}
    {subs : List Bytes} (h : getargs env argv = .ok (.command cmd subs)) : Sound cmd := by
  obtain ⟨g, sub, args, p, hglobal, hsub, hcheck⟩ := getargs_ok h
  exact subArgs_sound (fun a ha => hclean a (globalArgs_mem hglobal a ha)) hsub hcheck

/-! ## Commands that read no keys -/

theorem expectPattern_noInput {st : PassArgs} {opts : StPass} (h : expectPattern st = .ok opts) :
    opts.noInput = st.opts.noInput := by
  unfold expectPattern at h
  obtain ⟨-, habsurd⟩ | ⟨-, h⟩ := ite_eq_iff.mp h
  · cases habsurd
  obtain ⟨-, habsurd⟩ | ⟨-, h⟩ := ite_eq_iff.mp h
  · cases habsurd
  cases hp : st.opts.pattern with
  | none =>
    rw [hp] at h
    cases h
    rfl
  | some pattern =>
    rw [hp] at h
    obtain ⟨used, -, h⟩ := bind_ok h
    obtain ⟨-, h⟩ | ⟨-, h⟩ := ite_eq_iff.mp h
    · cases hre : glob2re used with
      | none =>
        rw [hre] at h
        cases h
      | some re =>
        rw [hre] at h
        cases h
        rfl
    · cases h
      rfl

theorem expectStep_noInput {arg : Bytes} {rest : List Bytes} {st : PassArgs} {p : Parsed PassArgs}
    (hst : st.opts.noInput = true) (h : expectStep arg rest st = .ok p) :
    p.st.opts.noInput = true := by
  have htakes := (expectStep_ok h).1
  generalize p.st = st', p.rest = rest' at htakes
  cases htakes <;> exact hst

theorem waitArg_noInput {arg : Bytes} {rest : List Bytes} {st : PassArgs} {p : Parsed PassArgs}
    (hst : st.opts.noInput = true) (h : waitArg arg rest st = .ok p) : p.st.opts.noInput = true := by
  unfold waitArg at h
  obtain ⟨-, h⟩ | ⟨-, h⟩ := ite_eq_iff.mp h
  · obtain ⟨next, rest', st', rfl, hst', rfl⟩ := valueArg_ok h
    obtain ⟨n, -, hst'⟩ := bind_ok hst'
    cases hst'
    exact hst
  · cases h

/-- Only `interact` wants a terminal. -/
theorem getargs_noInput {env : Env} {argv : List Bytes} (hclean : CStrings argv)
    {subcmd : PassSubcmd} {opts : StPass} {subs : List Bytes}
    (h : getargs env argv = .ok (.command (.pass subcmd opts) subs)) (hsubcmd : subcmd ≠ .interact) :
    opts.noInput = true := by
  obtain ⟨g, sub, args, p, hglobal, hsub, hcheck⟩ := getargs_ok h
  have hargs : CStrings args := fun a ha => hclean a (globalArgs_mem hglobal a ha)
  cases sub with
  | expect =>
    obtain ⟨st, hst, hquiet⟩ := @walk_keeps _ _ (fun st : PassArgs => st.opts.noInput = true) _ _
      (fun _ _ _ _ h => (expectStep_ok h).1.left) (fun _ _ _ _ _ => expectStep_noInput) _ hargs rfl _ hsub
    rw [hst] at hcheck
    obtain ⟨opts', hopts, hcheck⟩ := bind_ok hcheck
    cases hcheck
    rw [expectPattern_noInput (mapError_ok hopts), hquiet]
  | wait =>
    obtain ⟨st, hst, hquiet⟩ := @walk_keeps _ _ (fun st : PassArgs => st.opts.noInput = true) _ _
      (fun _ _ _ _ h => (waitArg_takes h).left) (fun _ _ _ _ _ => waitArg_noInput) _ hargs rfl _
      hsub
    rw [hst] at hcheck
    cases hcheck
    exact hquiet
  | interact =>
    obtain ⟨q, -, hq⟩ := walk_ok hsub
    rw [hq] at hcheck
    obtain ⟨opts', -, hcheck⟩ := bind_ok hcheck
    cases hcheck
    exact absurd rfl hsubcmd
  | send =>
    obtain ⟨q, -, rfl⟩ := walk_ok hsub
    obtain ⟨data, -, hcheck⟩ := bind_ok hcheck
    cases hcheck
  | spawn =>
    obtain ⟨q, -, rfl⟩ := walk_ok hsub
    obtain ⟨-, hcheck⟩ | ⟨-, hcheck⟩ := ite_eq_iff.mp hcheck
    · cases hcheck
    · cases hcheck
  | unknown name =>
    cases hsub
    cases hcheck
  | chkerr | help | version | close | expectOut | get | kill | set =>
    obtain ⟨q, -, rfl⟩ := walk_ok hsub
    cases hcheck

/-! ## The request on the wire -/

/-- A node among linked ones is on the wire. -/
theorem wire_le_link {c : Ttlv} {cs : List Ttlv} (hc : c ∈ cs) (hnext : c.next = .null) :
    (wire c).length ≤ (wire (ttlvLink cs)).length := by
  fun_induction ttlvLink cs with
  | case1 => cases hc
  | case2 p =>
    obtain rfl := List.mem_singleton.mp hc
    exact le_rfl
  | case3 ps _ ih =>
    obtain rfl | hc := List.mem_cons.mp hc
    · exact Nat.zero_le _
    · exact ih hc
  | case4 tag length value child next ps _ ih =>
    obtain rfl | hc := List.mem_cons.mp hc
    · simp only [Ttlv.next] at hnext
      subst hnext
      simp only [wire, List.length_append, List.append_nil]
      omega
    · have hrest := ih hc
      simp only [wire, List.length_append]
      omega

theorem wire_struct_le {t : Nat} {cs : List Ttlv} :
    (wire (ttlvLink cs)).length ≤ (wire (ttlvAppendChild (ttlvNewStruct t) cs)).length := by
  simp only [ttlvAppendChild, ttlvNewStruct, ttlvNew, ttlvAppend, wire_struct, List.length_append]
  omega

theorem wire_text_le (t : Nat) (data : Bytes) : data.length ≤ (wire (ttlvNewText t data)).length := by
  simp only [ttlvNewText, ttlvNew, wire, slot, List.length_append]
  omega

theorem passRequest_built {subcmd : PassSubcmd} {opts : StPass}
    (hsize : (wire (passRequest subcmd opts)).length ≤ passMaxMsg) : Built (passRequest subcmd opts) := by
  have hmax : passMaxMsg = 65536 := rfl
  have htext : ∀ p, (passDefaults subcmd opts).pattern = some p → p.length < 2 ^ 32 := by
    intro p hp
    have hlink := le_trans wire_struct_le hsize
    have hnode := le_trans (@wire_le_link (ttlvNewText Tag.pattern p) _ (by simp [hp]) rfl) hlink
    have hown := wire_text_le Tag.pattern p
    omega
  refine .appendChild _ _ (.struct _ (by decide)) rfl ?_
  intro c hc
  simp only [List.mem_append, List.mem_cons, List.not_mem_nil, or_false, List.mem_map,
    Option.mem_toList] at hc
  obtain (((rfl | rfl) | hc) | ⟨p, hp, rfl⟩) | hc := hc
  · exact .int _ _ (by decide)
  · exact .int _ _ (by decide)
  · split at hc
    · obtain rfl := List.mem_singleton.mp hc
      exact .int _ _ (by decide)
    · cases hc
  · exact .text _ _ (by decide) (htext p hp)
  · split at hc
    · obtain rfl := List.mem_singleton.mp hc
      exact .int _ _ (by decide)
    · cases hc

theorem setRequest_built (opts : StSet) : Built (setRequest opts) := by
  refine .appendChild _ _ (.struct _ (by decide)) rfl ?_
  intro c hc
  simp only [List.mem_append, List.mem_map, Option.mem_toList] at hc
  obtain (((⟨v, -, rfl⟩ | ⟨v, -, rfl⟩) | ⟨v, -, rfl⟩) | ⟨v, -, rfl⟩) | ⟨v, -, rfl⟩ := hc
  · exact .bool _ _ (by decide)
  · exact .bool _ _ (by decide)
  · exact .int _ _ (by decide)
  · exact .int _ _ (by decide)
  · exact .int _ _ (by decide)

/-- Every request is built with the constructors. -/
theorem cliMain_built {tty : Bool} {cmd : Cmd} {m : Ttlv} (h : cliMain tty cmd = .message m)
    (hsize : (wire m).length ≤ passMaxMsg) : Built m := by
  have hmax : passMaxMsg = 65536 := rfl
  have hraw : ∀ data, m = ttlvNewRaw Tag.send data → Built m := by
    rintro data rfl
    simp only [ttlvNewRaw, ttlvNew, wire, slot, List.length_append] at hsize
    exact .raw _ _ (by decide) (by omega)
  cases cmd with
  | close | get =>
    cases h
    exact .struct _ (by decide)
  | expectOut | kill =>
    cases h
    exact .int _ _ (by decide)
  | send data enter =>
    simp only [cliMain] at h
    split at h
    · cases h
      exact hraw _ rfl
    · split at h
      · cases h
        exact hraw _ rfl
      · cases h
  | set opts =>
    cases h
    exact setRequest_built opts
  | pass subcmd opts =>
    simp only [cliMain] at h
    split at h
    · cases h
    · cases h
      exact passRequest_built hsize

/-! ## The server -/

/-- The parameters of the server behind a `set`. -/
def setParams (opts : StSet) (spawn : Spawn) : Spawn :=
  { spawn with
    autowait := opts.autowait.getD spawn.autowait
    nonblock := opts.nonblock.getD spawn.nonblock
    defTimeout := opts.timeout.getD spawn.defTimeout
    ttl := opts.ttl.getD spawn.ttl
    idle := opts.idle.getD spawn.idle }

/-- What the connection knows behind the request of `expect`, `interact` or `wait`, and
that the two children which are dereferenced unchecked are there. -/
structure PassArrived (subcmd : PassSubcmd) (opts : StPass) (m : Ttlv) (s s' : Server) : Prop where
  subcmdChild : ttlvFindChild m Tag.passSubcmd ≠ .null
  flagsChild : ttlvFindChild m Tag.expFlags ≠ .null
  passing : s'.conn.passing = true
  subcmd : s'.conn.subcmd = subcmd.code
  expflags : s'.conn.expflags = opts.expflags
  pattern : s'.conn.pattern = opts.pattern
  lookback : s'.conn.lookback = opts.lookback
  timeout : s'.conn.timeout = if opts.hasTimeout then opts.timeout else s.spawn.defTimeout
  params : s'.spawn = s.spawn
  alive : s'.pc = s.pc

theorem Sendable.defaults {opts : StPass} (h : Sendable opts) (subcmd : PassSubcmd) :
    Sendable (passDefaults subcmd opts) := by
  unfold passDefaults
  split
  · exact (h.withPattern (by decide)).withFlags (by decide)
  · exact h

/-- A request with options in range is stored as it was built. -/
theorem processPass_arrived {subcmd : PassSubcmd} {opts : StPass} (h : Sendable opts) {s : Server}
    (hs : s.conn = { sock := true }) :
    PassArrived subcmd (passDefaults subcmd opts) (passRequest subcmd opts) s
      (processPass (passRequest subcmd opts) s) := by
  have ho := h.defaults subcmd
  have hmax : intMax = 2147483647 := rfl
  have hmin : intMin = -2147483648 := rfl
  have hflags := int32_toInt (n := (passDefaults subcmd opts).expflags)
    (by have := ho.flags; omega) (by have := ho.flags; omega)
  have htimeout := int32_toInt (n := (passDefaults subcmd opts).timeout)
    (by have := ho.timeout; omega) ho.timeout.2
  have hlookback := int32_toInt (n := (passDefaults subcmd opts).lookback)
    (by have := ho.lookback; omega) ho.lookback.2
  rw [processPass_request]
  generalize passDefaults subcmd opts = o at *
  refine ⟨?_, ?_, rfl, rfl, hflags, ?_, ?_, ?_, rfl, rfl⟩
  · simp [passRequest, findChild_struct, ttlvNewInt, findFrom_link, Tag.passSubcmd]
  · simp [passRequest, findChild_struct, ttlvNewInt, findFrom_link, Tag.passSubcmd, Tag.expFlags]
  · cases hp : o.pattern with
    | none => simp [hp, hs]
    | some p => simp [hp, cstring_of_not_mem (ho.pattern p hp)]
  · have hnonneg := ho.lookback.1
    simp only [hlookback, hs, and_self]
    split <;> omega
  · simp only [htimeout]

section

variable {α : Type} (given : Option α) (value : α → TtlvValue) (length : Nat) (cs : List Ttlv)

/-- A child that is there if an option was given, and is not the one looked for. -/
theorem findFrom_skip {t tag : Nat} (h : t % 2 ^ 24 ≠ tag) :
    ttlvFindFrom (ttlvLink (given.toList.map (fun v => ttlvNew t (value v) length) ++ cs)) tag =
      ttlvFindFrom (ttlvLink cs) tag := by
  cases given with
  | none => rfl
  | some v =>
    simp only [Option.toList_some, List.map_cons, List.map_nil, List.cons_append, List.nil_append]
    rw [findFrom_link, if_neg h]

/-- The one looked for. -/
theorem findFrom_given {t : Nat} (ht : t < 2 ^ 24) :
    ttlvFindFrom (ttlvLink (given.toList.map (fun v => ttlvNew t (value v) length) ++ cs)) t =
      given.elim (ttlvFindFrom (ttlvLink cs) t) fun v =>
        .node t length (value v) .null (ttlvLink cs) := by
  cases given with
  | none => rfl
  | some v =>
    simp only [Option.toList_some, List.map_cons, List.map_nil, List.cons_append, List.nil_append]
    rw [findFrom_link, Nat.mod_eq_of_lt ht, if_pos rfl, Option.elim_some]

end

/-- The number in a child that may be missing. -/
theorem vInt_elim {given : Option Int} (h : IntGiven given) {t length : Nat} {next : Ttlv} {old : Int} :
    (if (given.elim Ttlv.null fun n => .node t length (.int (int32 n)) .null next) = .null then old
      else (given.elim Ttlv.null fun n => .node t length (.int (int32 n)) .null next).vInt) =
      given.getD old := by
  cases given with
  | none => rfl
  | some n =>
    obtain ⟨hlo, hhi⟩ := h n rfl
    exact int32_toInt hlo hhi

theorem vBool_elim {given : Option Bool} {t length : Nat} {next : Ttlv} {old : Bool} :
    (if (given.elim Ttlv.null fun b =>
        .node t length (.bool (if boolWord b = 0 then 0 else 1)) .null next) = .null then old
      else (given.elim Ttlv.null fun b =>
        .node t length (.bool (if boolWord b = 0 then 0 else 1)) .null next).vBool) =
      given.getD old := by
  cases given with
  | none => rfl
  | some b => cases b <;> rfl

/-- `set` changes what it was given and nothing else. -/
theorem processSet_request {opts : StSet} (h : SettableOpts opts) (spawn : Spawn) :
    processSet (setRequest opts) spawn = setParams opts spawn := by
  have hchildren : ∀ tag, ttlvFindChild (setRequest opts) tag = ttlvFindFrom (ttlvLink
      (opts.autowait.toList.map
          (fun v => ttlvNew Tag.autowait (.bool (if boolWord v = 0 then 0 else 1)) 4) ++
        (opts.nonblock.toList.map
            (fun v => ttlvNew Tag.nonblock (.bool (if boolWord v = 0 then 0 else 1)) 4) ++
          (opts.timeout.toList.map (fun v => ttlvNew Tag.expTimeout (.int (int32 v)) 4) ++
            (opts.ttl.toList.map (fun v => ttlvNew Tag.ttl (.int (int32 v)) 4) ++
              (opts.idle.toList.map (fun v => ttlvNew Tag.idletime (.int (int32 v)) 4) ++ []))))))
      tag := by
    intro tag
    rw [setRequest, findChild_struct, List.append_nil]
    simp only [List.append_assoc]
    rfl
  simp (disch := decide) only [processSet, hchildren, findFrom_given, findFrom_skip, findFrom_nil,
    vBool_elim, vInt_elim h.timeout, vInt_elim h.ttl, vInt_elim h.idle]
  rfl

theorem dispatch_setRequest (host : Host) (sys : Sys) (opts : StSet) (s : Server) :
    dispatch host sys (setRequest opts) s =
      servMsgSend sys.sent ack { s with spawn := processSet (setRequest opts) s.spawn } := by
  have htag : (setRequest opts).tag = Tag.set := rfl
  simp only [dispatch, htag]
  rw [if_neg (by decide), if_neg (by decide), if_neg (by decide), if_neg (by decide),
    if_neg (by decide), if_neg (by decide), if_neg (by decide), if_neg (by decide),
    if_neg (by decide), if_pos (by decide)]

theorem servMsgSend_spawn (sent : Bool) (msg : Ttlv) (s : Server) :
    (servMsgSend sent msg s).spawn = s.spawn := by
  obtain ⟨_, _, h, -, -⟩ := servMsgSend_frame sent msg s
  rw [h]

/-- `set`, `expect`, `wait`, and on a terminal `interact`. -/
def Requesting (tty : Bool) : Cmd → Prop
  | .set _ => True
  | .pass subcmd _ => subcmd = .interact → tty = true
  | _ => False

/-- For them `cli_main` has a request. -/
theorem requesting_message {env : Env} {argv : List Bytes} (hargv : CStrings argv) {cmd : Cmd}
    {subs : List Bytes} (hcmd : getargs env argv = .ok (.command cmd subs)) {tty : Bool}
    (hrequest : Requesting tty cmd) :
    ∃ m, cliMain tty cmd = .message m ∧
      (∀ subcmd opts, cmd = .pass subcmd opts → m = passRequest subcmd opts) ∧
      ∀ opts, cmd = .set opts → m = setRequest opts := by
  cases cmd with
  | set opts =>
    refine ⟨setRequest opts, rfl, ?_, ?_⟩
    · intro subcmd opts' h
      cases h
    · rintro opts' ⟨⟩
      rfl
  | pass subcmd opts =>
    refine ⟨passRequest subcmd opts, ?_, ?_, ?_⟩
    · simp only [cliMain]
      rw [if_neg]
      rintro ⟨hkeys, hnotty⟩
      by_cases hinteract : subcmd = .interact
      · exact hnotty (hrequest hinteract)
      · exact hkeys (getargs_noInput hargv hcmd hinteract)
    · rintro subcmd' opts' ⟨⟩
      rfl
    · intro opts' h
      cases h
  | close | expectOut | get | kill | send => exact absurd hrequest id

end Sexpect.Guarantees
