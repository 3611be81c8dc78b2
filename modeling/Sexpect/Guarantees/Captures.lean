import Sexpect.Guarantees.Delivery
import Sexpect.Guarantees.ExpectAssertion
import Sexpect.Guarantees.Frames

/-!
# What `expect_out` holds

Behind a match `expout[0]` should be the octets the match took out of the expect
buffer and the other entries the groups `regexec` reported (`Reports`).
`expect_ere` copies them from the buffer; `expect_exact` copies the pattern, which
is something else when the case differs.

`Fate` follows the last `PASS` request that brought a pattern of its own: between
such a request and its match `expout` is empty.
-/
namespace Sexpect.Guarantees
open Sexpect.Lib Sexpect.Source

/-- The strings behind a successful `serv_expect` are those that matched. -/
structure Reports (host : Host) (pattern : Bytes) (s s' : Server) : Prop where
  whole : ∃ pre text, s'.expout[0]? = some (some text) ∧
    cstring s.buf.expbuf = pre ++ text ++ cstring s'.buf.expbuf
  groups : ∀ i text, s'.expout[i + 1]? = some (some text) → ∃ whole groups m,
    host.regex.regexec pattern (hasFlag s.conn.expflags passExpectIcase)
      (hasFlag s.conn.expflags passExpectNewline) (cstring s.buf.expbuf) = some (whole, groups) ∧
    groups[i]? = some (some m) ∧ text = cut (cstring s.buf.expbuf) m

/-- An exact search that ignores case hits the pattern letter for letter. -/
def CaseKept (expflags : Int) (pattern text : Bytes) : Prop :=
  hasFlag expflags passExpectExact = true → hasFlag expflags passExpectIcase = true →
    ∀ pos, strcasestr text pattern = some pos → pattern <+: text.drop pos

theorem isPrefix_drop_iff (pattern text : Bytes) (pos : Nat)
    (hle : pos + pattern.length ≤ text.length) :
    pattern <+: text.drop pos ↔
      ∃ pre, text = pre ++ pattern ++ text.drop (pos + pattern.length) := by
  constructor
  · rintro ⟨rest, hrest⟩
    refine ⟨text.take pos, ?_⟩
    have hdrop : text.drop (pos + pattern.length) = rest := by
      rw [← List.drop_drop, ← hrest, List.drop_left]
    rw [hdrop, List.append_assoc, hrest, List.take_append_drop]
  · rintro ⟨pre, hpre⟩
    have hlen := congrArg List.length hpre
    simp only [List.length_append, List.length_drop] at hlen
    have hpos : pre.length = pos := by omega
    conv_rhs => rw [hpre, List.append_assoc, ← hpos, List.drop_left]
    exact List.prefix_append _ _

/-- Where an exact search succeeds without regard to case, and where it needs it. -/
theorem caseKept_iff {expflags : Int} {pattern text : Bytes} {pos : Nat}
    (hexact : hasFlag expflags passExpectExact = true)
    (h : (if hasFlag expflags passExpectIcase then strcasestr text pattern
      else strstr text pattern) = some pos) :
    CaseKept expflags pattern text ↔ pattern <+: text.drop pos := by
  unfold CaseKept
  by_cases hicase : hasFlag expflags passExpectIcase = true
  · rw [if_pos hicase] at h
    constructor
    · intro hkept
      exact hkept hexact hicase pos h
    · intro hpre _ _ pos' hpos'
      rw [h] at hpos'
      cases hpos'
      exact hpre
  · rw [if_neg hicase] at h
    have hpre : pattern <+: text.drop pos := ((strstr_first text pattern).1 pos h).1
    simp [hicase, hpre]

theorem reports_iff {host : Host} {pattern : Bytes} {s s' : Server}
    (h : servExpect host pattern s = (true, s'))
    (hsub : hasFlag s.conn.expflags passExpectNosub = false) :
    Reports host pattern s s' ↔ CaseKept s.conn.expflags pattern (cstring s.buf.expbuf) := by
  obtain ⟨-, whole, groups, hfound, rfl⟩ := (servExpect_eq_true_iff host pattern s s').mp h
  have hoff := found_offsets hfound
  have hleft := (keepAfter_text s.buf whole.2 hoff.bound).1
  unfold found at hfound
  by_cases hexact : hasFlag s.conn.expflags passExpectExact = true
  · rw [if_pos hexact] at hfound
    obtain ⟨pos, hpos, heq⟩ := Option.map_eq_some_iff.mp hfound
    cases heq
    rw [caseKept_iff hexact hpos, isPrefix_drop_iff _ _ _ hoff.bound]
    constructor
    · rintro ⟨⟨pre, text, htext, hsplit⟩, -⟩
      simp only [stored, if_pos hexact] at htext
      cases htext
      rw [hleft] at hsplit
      exact ⟨pre, hsplit⟩
    · rintro ⟨pre, hpre⟩
      constructor
      · refine ⟨pre, pattern, by simp only [stored, if_pos hexact]; rfl, ?_⟩
        rw [hleft]
        exact hpre
      · intro i text htext
        simp only [stored, if_pos hexact, List.getElem?_cons_succ] at htext
        cases List.eq_of_mem_replicate (List.mem_of_getElem? htext)
  · rw [if_neg hexact] at hfound
    split at hfound
    · cases hfound
    split at hfound
    swap
    · cases hfound
    have hkept : CaseKept s.conn.expflags pattern (cstring s.buf.expbuf) :=
      fun hyes => absurd hyes hexact
    simp only [hkept, iff_true]
    have hstored : stored s.conn.expflags pattern (cstring s.buf.expbuf) s.expout whole groups =
        (some whole :: groups).map (·.map (cut (cstring s.buf.expbuf))) := by
      rw [stored, if_neg hexact, if_neg (by simp [hsub])]
    constructor
    · refine ⟨(cstring s.buf.expbuf).take whole.1, cut (cstring s.buf.expbuf) whole, ?_, ?_⟩
      · simp only [hstored, List.map_cons, List.getElem?_cons_zero, Option.map_some]
      · rw [hleft]
        exact (cut_append _ hoff.order).symm
    · intro i text htext
      simp only [hstored, List.map_cons, List.getElem?_cons_succ, List.getElem?_map] at htext
      obtain ⟨group, hgroup, htext⟩ := Option.map_eq_some_iff.mp htext
      obtain ⟨m, rfl, rfl⟩ := Option.map_eq_some_iff.mp htext
      exact ⟨whole, groups, m, hfound, hgroup, rfl⟩

/-! ## The last request with a pattern -/

/-- What became of the last `PASS` request with a pattern. -/
inductive Fate where
  | unasked
  | underway
  | matched
  | missed
  deriving DecidableEq, Repr

/-- The step is a call of `serv_expect` that succeeds. -/
def isMatch (host : Host) (s : Server) : Input → Bool
  | .tick _ => s.pc = .expect && (servExpect host (s.conn.pattern.getD []) s).1
  | _ => false

/-- The fate behind a step: a request is underway from its reception until its
match, or until the connection passes nothing any more. -/
def fateStep (host : Host) (i : Input) (sf : Server × Fate) : Server × Fate :=
  let s := servStep host i sf.1
  (s,
    if (received sf.1 i).any fun m => CarriesPattern m then .underway
    else if sf.2 = .underway then
      if isMatch host sf.1 i then .matched
      else if s.conn.sock ∧ s.conn.passing then .underway
      else .missed
    else sf.2)

/-- A `PASS` request without a pattern does not come where an earlier request of the
same connection has left one. -/
def OwnPattern (sf : Server × Fate) (i : Input) : Prop :=
  ∀ m, received sf.1 i = some m → m.tag = Tag.pass → ttlvFindChild m Tag.pattern = .null →
    sf.1.conn.pattern = none

instance (sf : Server × Fate) (i : Input) : Decidable (OwnPattern sf i) :=
  match h : received sf.1 i with
  | none => isTrue fun m hm => by rw [h] at hm; cases hm
  | some m => decidable_of_iff (m.tag = Tag.pass → ttlvFindChild m Tag.pattern = .null →
      sf.1.conn.pattern = none)
      ⟨fun hp m' hm => by rw [h] at hm; cases hm; exact hp, fun hp => hp m h⟩

/-- `expout` is empty unless the request was answered with a match, and nothing is
looked for unless the request is underway or was answered so. -/
structure Cleared (s : Server) (fate : Fate) : Prop where
  windows : ∃ mark, Windows s mark
  empty : fate ≠ .matched → s.expout = List.replicate expectOutNum none
  bare : fate = .unasked ∨ fate = .missed → s.conn.sock = true → s.conn.passing = true →
    s.conn.pattern = none

theorem received_eq_some {s : Server} {i : Input} {m : Ttlv} (h : received s i = some m) :
    ∃ sys fds, i = .tick sys ∧ s.pc = .recv fds ∧ s.conn.sock = true ∧ fds.sock = true ∧
      sys.msg = some m := by
  unfold received at h
  split at h
  · rename_i sys
    split at h
    · rename_i fds hpc
      split at h
      · rename_i hready
        exact ⟨sys, fds, rfl, hpc, hready.1, hready.2, h⟩
      · cases h
    · cases h
  · cases h

theorem servStep_received (host : Host) {s : Server} {i : Input} {m : Ttlv}
    (h : received s i = some m) :
    ∃ sys, servStep host i s = dispatch host sys m { s with pc := .pass } := by
  obtain ⟨sys, fds, rfl, hpc, hsock, hready, hmsg⟩ := received_eq_some h
  refine ⟨sys, ?_⟩
  simp [servStep, tick, hpc, loopRecv, hsock, hready, servProcessMsg, hmsg]

/-- Only a match and a request with a pattern change `expout`. -/
theorem servStep_expout (host : Host) {s : Server} {i : Input}
    (hnone : ∀ m, received s i = some m → ¬ CarriesPattern m) (hmiss : isMatch host s i = false) :
    (servStep host i s).expout = s.expout := by
  cases hrec : received s i with
  | some m =>
    obtain ⟨sys, hstep⟩ := servStep_received host hrec
    rw [hstep]
    exact congrArg Prod.snd (aside_dispatch host sys m { s with pc := .pass } (hnone m hrec))
  | none =>
    cases i with
    | child e =>
      simp only [servStep, childChange]
      split <;> rfl
    | sigCHLD =>
      simp only [servStep, servSigCHLD]
      split <;> rfl
    | tick sys =>
      by_cases hrecv : ∃ fds, s.pc = .recv fds
      · -- nothing was received, so the connection was not ready or is gone
        obtain ⟨fds, hpc⟩ := hrecv
        simp only [servStep, tick, hpc, loopRecv]
        split
        · rename_i hready
          simp only [received, hpc, if_pos hready] at hrec
          simp only [servProcessMsg, hrec, closeSock]
        · rfl
      by_cases hexpect : s.pc = .expect
      · simp only [isMatch, hexpect, decide_true, Bool.true_and] at hmiss
        obtain ⟨bugs, hend⟩ := servPassExpect_missed sys hmiss
        simp only [servStep, tick, hexpect, hend]
      by_cases hinstall : s.pc = .installHandler
      · simp only [servStep, tick, hinstall]
      · exact congrArg Prod.snd
          (aside_tick host sys s hinstall (fun fds h => hrecv ⟨fds, h⟩) hexpect)

/-- A message without a pattern leaves the one in force. -/
theorem dispatch_keeps_pattern (host : Host) (sys : Sys) (m : Ttlv) (s : Server)
    (hnone : ¬ CarriesPattern m) : (dispatch host sys m s).conn.pattern = s.conn.pattern := by
  by_cases htag : m.tag = Tag.pass
  · rw [dispatch_pass host sys m s htag, processPass]
    simp only
    by_cases hchildren : ttlvFindChild m Tag.passSubcmd = .null ∨
        ttlvFindChild m Tag.expFlags = .null
    · rw [if_pos hchildren]
    · rw [if_neg hchildren]
      exact if_pos (pattern_null hnone htag hchildren)
  · obtain ⟨sock, hconn⟩ := dispatch_conn host sys m s htag
    rw [hconn]

/-- Where the request in progress behind a message comes from. -/
theorem dispatch_passing (host : Host) (sys : Sys) (m : Ttlv) (s : Server)
    (hnone : ¬ CarriesPattern m) (hpass : (dispatch host sys m s).conn.passing = true) :
    s.conn.passing = true ∨ m.tag = Tag.pass ∧ ttlvFindChild m Tag.pattern = .null := by
  by_cases htag : m.tag = Tag.pass
  · rw [dispatch_pass host sys m s htag, processPass] at hpass
    simp only at hpass
    by_cases hchildren : ttlvFindChild m Tag.passSubcmd = .null ∨
        ttlvFindChild m Tag.expFlags = .null
    · rw [if_pos hchildren] at hpass
      exact .inl hpass
    · exact .inr ⟨htag, pattern_null hnone htag hchildren⟩
  · obtain ⟨sock, hconn⟩ := dispatch_conn host sys m s htag
    rw [hconn] at hpass
    exact .inl hpass

/-- A request without a pattern of its own, or none: what is looked for is what was
looked for before. -/
theorem servStep_pattern {host : Host} {s : Server} {i : Input} (hf : Flow s)
    (hnone : ∀ m, received s i = some m → ¬ CarriesPattern m)
    (hsock : (servStep host i s).conn.sock = true)
    (hpass : (servStep host i s).conn.passing = true) :
    (servStep host i s).conn.pattern = s.conn.pattern ∧
      (s.conn.sock = true ∧ s.conn.passing = true ∨
        ∃ m, received s i = some m ∧ m.tag = Tag.pass ∧ ttlvFindChild m Tag.pattern = .null) := by
  have htalks := servStep_talks host i s hf
  generalize servStep host i s = s' at *
  cases htalks with
  | quiet h =>
    obtain ⟨lookback, hconn, -⟩ := h.conn
    rw [hconn] at hsock hpass ⊢
    exact ⟨rfl, .inl ⟨hsock, hpass⟩⟩
  | old fds => exact ⟨rfl, .inl ⟨hsock, hpass⟩⟩
  | accepted fds => cases hpass
  | output psend hpc hopen hpassing hstart hpost hconn =>
    obtain ⟨lookback, hconn, -⟩ := hconn
    rw [hconn]
    exact ⟨rfl, .inl ⟨hopen, hpassing⟩⟩
  | replied t hpc hopen hpassing hnew hreply hpost hafter hconn =>
    rw [hconn] at hpass
    cases hpass
  | received fds hpc hopen hready =>
    rename_i sys
    cases hmsg : sys.msg with
    | none =>
      simp only [servProcessMsg, hmsg, closeSock] at hsock
      cases hsock
    | some m =>
      have hrec : received s (.tick sys) = some m := by
        simp only [received, hpc, hopen, hready, and_self, if_true, hmsg]
      simp only [servProcessMsg, hmsg] at hpass ⊢
      refine ⟨dispatch_keeps_pattern host sys m { s with pc := .pass } (hnone m hrec), ?_⟩
      rcases dispatch_passing host sys m { s with pc := .pass } (hnone m hrec) hpass with
        hpassing | hbare
      · exact .inl ⟨hopen, hpassing⟩
      · exact .inr ⟨m, hrec, hbare⟩

/-- A connection on which nothing was looked for, and requests without a pattern. -/
theorem servStep_patternless {host : Host} {s : Server} {i : Input} (hf : Flow s)
    (hnone : ∀ m, received s i = some m → ¬ CarriesPattern m)
    (hbare : s.conn.sock = true → s.conn.pattern = none)
    (hsock : (servStep host i s).conn.sock = true) : (servStep host i s).conn.pattern = none := by
  have htalks := servStep_talks host i s hf
  generalize servStep host i s = s' at *
  cases htalks with
  | quiet h =>
    obtain ⟨lookback, hconn, -⟩ := h.conn
    rw [hconn] at hsock ⊢
    exact hbare hsock
  | old fds => exact hbare hsock
  | accepted fds => rfl
  | output psend hpc hopen hpassing hstart hpost hconn =>
    obtain ⟨lookback, hconn, -⟩ := hconn
    rw [hconn]
    exact hbare hopen
  | replied t hpc hopen hpassing hnew hreply hpost hafter hconn =>
    rw [hconn]
    exact hbare hopen
  | received fds hpc hopen hready =>
    rename_i sys
    cases hmsg : sys.msg with
    | none =>
      simp only [servProcessMsg, hmsg, closeSock] at hsock
      cases hsock
    | some m =>
      have hrec : received s (.tick sys) = some m := by
        simp only [received, hpc, hopen, hready, and_self, if_true, hmsg]
      simp only [servProcessMsg, hmsg]
      rw [dispatch_keeps_pattern host sys m _ (hnone m hrec)]
      exact hbare hopen

/-- Where nothing is looked for nothing is found. -/
theorem patternless_misses {host : Host} {s : Server} {i : Input} (hf : Flow s)
    (hbare : s.conn.sock = true → s.conn.pattern = none) : isMatch host s i = false := by
  cases i with
  | tick sys =>
    by_contra hmatch
    simp only [isMatch, Bool.not_eq_false, Bool.and_eq_true, decide_eq_true_eq] at hmatch
    obtain ⟨hpc, -⟩ := hmatch
    have hpattern := (hf.ready hpc).1
    rw [hbare (hf.passing (.inr (.inl hpc))).1] at hpattern
    cases hpattern
  | child e => rfl
  | sigCHLD => rfl

theorem Cleared.step {s : Server} {fate : Fate} (h : Cleared s fate) (host : Host) (i : Input)
    (hown : OwnPattern (s, fate) i) :
    Cleared (fateStep host i (s, fate)).1 (fateStep host i (s, fate)).2 := by
  obtain ⟨mark, hw⟩ := h.windows
  have hwindows : ∃ mark, Windows (servStep host i s) mark := ⟨_, hw.step host i⟩
  by_cases hasked : ∃ m, received s i = some m ∧ CarriesPattern m
  · -- a new request empties the table
    obtain ⟨m, hrec, hcarries⟩ := hasked
    have hfate : fateStep host i (s, fate) = (servStep host i s, .underway) := by
      simp [fateStep, hrec, hcarries]
    rw [hfate]
    refine ⟨hwindows, fun _ => ?_, fun hf => by simp at hf⟩
    obtain ⟨sys, hstep⟩ := servStep_received host hrec
    simp only [hstep, dispatch_pass host sys m _ hcarries.1]
    exact processPass_clears m _ hcarries
  have hnone : ∀ m, received s i = some m → ¬ CarriesPattern m :=
    fun m hrec hcarries => hasked ⟨m, hrec, hcarries⟩
  have hany : (received s i).any (fun m => CarriesPattern m) = false := by
    cases hrec : received s i with
    | none => rfl
    | some m => simpa using hnone m hrec
  by_cases hmatch : isMatch host s i = true
  · -- a match comes from a request that is underway, or from its pattern
    obtain ⟨sys, rfl, hpc⟩ : ∃ sys, i = .tick sys ∧ s.pc = .expect := by
      cases i with
      | tick sys =>
        simp only [isMatch, Bool.and_eq_true, decide_eq_true_eq] at hmatch
        exact ⟨sys, rfl, hmatch.1⟩
      | child e => cases hmatch
      | sigCHLD => cases hmatch
    obtain ⟨hsock, hpass, -⟩ := hw.flow.passing (.inr (.inl hpc))
    have hpattern := (hw.flow.ready hpc).1
    have hlive : fate = .underway ∨ fate = .matched := by
      have hbare := h.bare
      rw [hsock, hpass] at hbare
      cases fate with
      | unasked =>
        rw [hbare (.inl rfl) rfl rfl] at hpattern
        cases hpattern
      | missed =>
        rw [hbare (.inr rfl) rfl rfl] at hpattern
        cases hpattern
      | underway => exact .inl rfl
      | matched => exact .inr rfl
    have hfate : fateStep host (.tick sys) (s, fate) = (servStep host (.tick sys) s, .matched) := by
      rcases hlive with rfl | rfl <;> simp [fateStep, hany, hmatch]
    rw [hfate]
    exact ⟨hwindows, fun hne => absurd rfl hne, fun hf => by simp at hf⟩
  · have hmiss : isMatch host s i = false := by simpa using hmatch
    have hsame := servStep_expout host hnone hmiss
    have hkept : ∀ fate', (fate' ≠ .matched → fate ≠ .matched) →
        (fate' = .unasked ∨ fate' = .missed → (fate = .unasked ∨ fate = .missed) ∨
          ¬ ((servStep host i s).conn.sock = true ∧ (servStep host i s).conn.passing = true)) →
        Cleared (servStep host i s) fate' := by
      intro fate' hmatched hidle
      refine ⟨hwindows, fun hne => ?_, fun hf hsock hpass => ?_⟩
      · rw [hsame]
        exact h.empty (hmatched hne)
      · obtain ⟨hpattern, hwhy⟩ := servStep_pattern hw.flow hnone hsock hpass
        have hbefore := (hidle hf).resolve_right (not_not_intro ⟨hsock, hpass⟩)
        rw [hpattern]
        rcases hwhy with ⟨hs, hp⟩ | ⟨m, hrec, htag, hnull⟩
        · exact h.bare hbefore hs hp
        · exact hown m hrec htag hnull
    simp only [fateStep, hany, hmiss, Bool.false_eq_true, if_false]
    split
    · rename_i hunder
      split
      · exact hkept .underway (fun _ => by rw [hunder]; decide) (fun hf => by simp at hf)
      · rename_i hidle
        exact hkept .missed (fun _ => by rw [hunder]; decide) (fun _ => .inr hidle)
    · exact hkept fate id .inl

theorem reaches_cleared (host : Host) {s₀ : Server} {sf : Server × Fate} (h₀ : Initial s₀)
    (h : Reaches (fateStep host) OwnPattern (s₀, .unasked) sf) : Cleared sf.1 sf.2 := by
  apply h.invariant (fun sf => Cleared sf.1 sf.2)
  · obtain ⟨spawn, rawbuf, expbuf, hraw, hexp, rfl⟩ := id h₀
    refine ⟨⟨0, h₀.windows⟩, fun _ => rfl, fun _ hsock => ?_⟩
    cases hsock
  · intro sf i hc hown
    exact hc.step host i hown

/-- The strings of `expect_out`.  Where `serv_expect` succeeds without `-nosub`, for
whatever the buffer holds and whatever the pattern and the other flags are, they
are the matched text and its groups exactly when an exact search without regard
to case hit the pattern letter for letter; and in every run in which no `PASS`
without a pattern inherits the one of an earlier request, they are unset in every
state in which the last request with a pattern has not ended in a match. -/
theorem expect_out_reports (host : Host) :
    (∀ pattern s s', servExpect host pattern s = (true, s') →
      hasFlag s.conn.expflags passExpectNosub = false →
      (Reports host pattern s s' ↔ CaseKept s.conn.expflags pattern (cstring s.buf.expbuf))) ∧
    ∀ s₀ s fate, Initial s₀ → Reaches (fateStep host) OwnPattern (s₀, .unasked) (s, fate) →
      fate ≠ .matched → ∀ i, i < expectOutNum → s.expout[i]? = some none := by
  constructor
  · intro pattern s s' hmatch hsub
    exact reports_iff hmatch hsub
  · intro s₀ s fate h₀ hrun hfate i hi
    rw [(reaches_cleared host h₀ hrun).empty hfate]
    exact List.getElem?_replicate_of_lt hi

/-- At the prompt nothing is stored before the match, and the matched text behind it. -/
theorem expect_out_reports_prompt :
    Reports plainHost (ascii "gin") (runs (servStep plainHost) promptInputs freshServer)
        (servExpect plainHost (ascii "gin") (runs (servStep plainHost) promptInputs freshServer)).2 ∧
      (runs (fateStep plainHost) promptInputs (freshServer, .unasked)).1.expout[0]? = some none := by
  have hall := expect_out_reports plainHost
  constructor
  · have hmatch : (servExpect plainHost (ascii "gin")
        (runs (servStep plainHost) promptInputs freshServer)).1 = true := by decide +kernel
    have hflags : (runs (servStep plainHost) promptInputs freshServer).conn.expflags = 1 := by
      decide +kernel
    have hiff := hall.1 (ascii "gin") (runs (servStep plainHost) promptInputs freshServer)
      (servExpect plainHost (ascii "gin") (runs (servStep plainHost) promptInputs freshServer)).2
      (Prod.ext hmatch rfl) (by rw [hflags]; decide)
    apply hiff.mpr
    rw [hflags]
    intro _ hicase
    cases hicase
  · have hrun : Reaches (fateStep plainHost) OwnPattern (freshServer, .unasked)
        (runs (fateStep plainHost) promptInputs (freshServer, .unasked)) :=
      Reaches.start.runs _ (by decide +kernel)
    have hfate : (runs (fateStep plainHost) promptInputs (freshServer, .unasked)).2 = .underway := by
      decide +kernel
    generalize runs (fateStep plainHost) promptInputs (freshServer, .unasked) = sf at hrun hfate ⊢
    exact hall.2 freshServer sf.1 sf.2 freshServer_initial hrun (by rw [hfate]; decide) 0 (by decide)

/-- The prompt arrives for a client that asks for `LOGIN` in whatever case. -/
def icaseInputs : List Input :=
  ticks 3 {} ++
    ticks 11 { select := .ready { listen := true, ptm := true }, ptm := [.data (ascii "login: ")] } ++
    ticks 11 { select := .ready { sock := true },
               msg := some (passRequest .expect { expflags := passExpectExact + passExpectIcase,
                                                  pattern := some (ascii "LOGIN") }) }

/-- A request times out on its pattern, and one without a pattern follows on the same
connection while the prompt arrives. -/
def inheritInputs : List Input :=
  ticks 3 {} ++ ticks 11 connecting ++
    ticks 14 (asking (passRequest .expect { hasTimeout := true, expflags := passExpectExact,
                                            pattern := some (ascii "gin") })) ++
    ticks 13 (askingWith (passRequest .expect { expflags := passExpectExact }) (ascii "login: "))

/-- `login` matches, `LOGIN` is reported; and the strings of a match are there
although the last request with a pattern timed out. -/
theorem expect_out_keeps_pattern :
    (servExpect plainHost (ascii "LOGIN") (runs (servStep plainHost) icaseInputs freshServer)).1 = true ∧
      (servExpect plainHost (ascii "LOGIN")
        (runs (servStep plainHost) icaseInputs freshServer)).2.expout[0]? = some (some (ascii "LOGIN")) ∧
      ¬ Reports plainHost (ascii "LOGIN") (runs (servStep plainHost) icaseInputs freshServer)
        (servExpect plainHost (ascii "LOGIN")
          (runs (servStep plainHost) icaseInputs freshServer)).2 ∧
      (runs (fateStep plainHost) inheritInputs (freshServer, .unasked)).2 = .missed ∧
      (runs (fateStep plainHost) inheritInputs (freshServer, .unasked)).1.expout[0]? =
        some (some (ascii "gin")) := by
  have hmatch : (servExpect plainHost (ascii "LOGIN")
      (runs (servStep plainHost) icaseInputs freshServer)).1 = true := by decide +kernel
  have hfirst : (servExpect plainHost (ascii "LOGIN")
      (runs (servStep plainHost) icaseInputs freshServer)).2.expout[0]? =
        some (some (ascii "LOGIN")) := by decide +kernel
  have htext : cstring (runs (servStep plainHost) icaseInputs freshServer).buf.expbuf =
      ascii "login: " := by decide +kernel
  have hleft : cstring (servExpect plainHost (ascii "LOGIN")
      (runs (servStep plainHost) icaseInputs freshServer)).2.buf.expbuf = ascii ": " := by
    decide +kernel
  refine ⟨hmatch, hfirst, ?_, by decide +kernel, by decide +kernel⟩
  rintro ⟨⟨pre, text, hout, hsplit⟩, -⟩
  rw [hfirst] at hout
  cases hout
  rw [htext, hleft] at hsplit
  -- nothing is in front of the match, and the letters differ
  have hlen := congrArg List.length hsplit
  have hpre : pre = [] := by
    apply List.eq_nil_of_length_eq_zero
    have h7 : (ascii "login: ").length = 7 := rfl
    have h5 : (ascii "LOGIN").length = 5 := rfl
    have h2 : (ascii ": ").length = 2 := rfl
    simp only [List.length_append, h7, h5, h2] at hlen
    omega
  rw [hpre] at hsplit
  exact absurd hsplit (by decide)

end Sexpect.Guarantees
