import Sexpect.Guarantees.Delivery
import Sexpect.Source.Session

/-!
# The conversation of a client with the server

`Phase` lists the stages of a conversation: what has been said in either
direction, how much of it the other side has taken, and where the client waits.
Every step of either side leads from one stage to the same or a later one
(`Linked.step`), whatever the order of the steps.  The only way out is a user who
leaves an `interact` while its answer is under way, which `Clean` excludes and
which the other commands do not have.
-/
namespace Sexpect.Guarantees
open Sexpect.Lib Sexpect.Source

/-- The replies that end a request. -/
def Terminal (t : Ttlv) : Prop :=
  t.tag = Tag.ack ∨ t.tag = Tag.expoutText ∨ t.tag = Tag.info ∨ t.tag = Tag.matched ∨
    t.tag = Tag.eof ∨ t.tag = Tag.exited ∨ ∃ code text, t = servNewError code text

/-- What `cli_disconn` is called with for a reply, and the code of the `fatal`
behind it. -/
def replyCodes (cmd : Cmd) (t : Ttlv) : Int × Int :=
  if t.tag = Tag.eof then (if hasFlag cmd.expflags passExpectEof then 0 else ErrorCode.eof, 0)
  else if t.tag = Tag.error then
    if cmd.passing then ((ttlvFindChild t Tag.errorCode).vInt, 0)
    else (-1, (ttlvFindChild t Tag.errorCode).vInt)
  else if t.tag = Tag.exited then (exitedCode t.vInt, 0)
  else (0, 0)

/-- The exit code of a client behind `cli_disconn`. -/
def finalCode (codes : Int × Int) : Int := if codes.1 ≥ 0 then codes.1 else codes.2

/-- The payloads of an `expect`, an `interact` or a `wait`. -/
def Payloads (cmd : Cmd) (outs : List Ttlv) : Prop :=
  (∀ m ∈ outs, m.tag = Tag.output) ∧ (outs ≠ [] → cmd.passing = true)

/-- The messages of an `interact` that are not answered. -/
def Typed (cmd : Cmd) (more : List Ttlv) : Prop :=
  (∀ m ∈ more, m.tag = Tag.input ∨ ∃ row col, m = winchMsg row col) ∧
    (more ≠ [] → cmd.isInteract = true)

/-- The stages of a conversation. -/
inductive Phase (cmd : Cmd) (request : Ttlv) :
    (dead waiting sock passing : Bool) → (out : List Ttlv) → (received : Nat) → (inn : List Ttlv) →
      (taken : Nat) → CliPc → Prop
  | queued {dead passing : Bool} :
      Phase cmd request dead true false passing [] 0 [msgHello] 0 .hello
  | accepted {dead : Bool} : Phase cmd request dead false true false [] 0 [msgHello] 0 .hello
  | welcomed {dead : Bool} :
      Phase cmd request dead false true false [msgHello] 0 [msgHello] 1 .hello
  | asked {dead : Bool} (more : List Ttlv) (hmore : Typed cmd more) :
      Phase cmd request dead false true false [msgHello] 1 (msgHello :: request :: more) 1 .loop
  | stuck (hint : cmd.isInteract = false) :
      Phase cmd request true false true false [msgHello] 1 [msgHello, request] 2 .loop
  | passing {dead : Bool} {received taken : Nat} (outs more : List Ttlv)
      (houts : Payloads cmd outs) (hmore : Typed cmd more) (hpass : cmd.passing = true)
      (hr1 : 1 ≤ received) (hr2 : received ≤ 1 + outs.length) (ht1 : 2 ≤ taken)
      (ht2 : taken ≤ 2 + more.length) :
      Phase cmd request dead false true true (msgHello :: outs) received
        (msgHello :: request :: more) taken .loop
  | answered {dead : Bool} {received taken : Nat} (outs : List Ttlv) (t : Ttlv) (more : List Ttlv)
      (houts : Payloads cmd outs) (ht : Terminal t) (hmore : Typed cmd more)
      (hr1 : 1 ≤ received) (hr2 : received ≤ 1 + outs.length) (ht1 : 2 ≤ taken)
      (ht2 : taken ≤ 2 + more.length) :
      Phase cmd request dead false true false (msgHello :: (outs ++ [t])) received
        (msgHello :: request :: more) taken .loop
  | confirmed {dead : Bool} {received taken : Nat} (outs : List Ttlv) (t : Ttlv) (more : List Ttlv)
      (houts : Payloads cmd outs) (ht : Terminal t) (hmore : Typed cmd more)
      (hr : received = 2 + outs.length) (ht1 : 2 ≤ taken) (ht2 : taken ≤ 2 + more.length) :
      Phase cmd request dead false true false (msgHello :: (outs ++ [t])) received
        (msgHello :: request :: (more ++ [msgDisconn])) taken
        (.disconn (replyCodes cmd t).1 (replyCodes cmd t).2)
  | leaving {dead passing : Bool} {received taken : Nat} (outs more : List Ttlv)
      (houts : Payloads cmd outs) (hmore : Typed cmd more) (hint : cmd.isInteract = true)
      (hr1 : 1 ≤ received) (hr2 : received ≤ 1 + outs.length)
      (hold : passing = false → outs = [] ∧ taken = 1) (hnew : passing = true → 2 ≤ taken)
      (ht2 : taken ≤ 2 + more.length) :
      Phase cmd request dead false true passing (msgHello :: outs) received
        (msgHello :: request :: (more ++ [msgDisconn])) taken (.disconn ErrorCode.detach 0)
  | parted {dead passing : Bool} {received taken : Nat} (outs : List Ttlv) (t : Ttlv)
      (more : List Ttlv) (houts : Payloads cmd outs) (ht : Terminal t) (hmore : Typed cmd more)
      (hr : received = 2 + outs.length) (ht3 : taken = 3 + more.length) :
      Phase cmd request dead false false passing (msgHello :: (outs ++ [t, msgDisconn])) received
        (msgHello :: request :: (more ++ [msgDisconn])) taken
        (.disconn (replyCodes cmd t).1 (replyCodes cmd t).2)
  | gone {dead passing : Bool} {received taken : Nat} (outs : List Ttlv) (t : Ttlv)
      (more : List Ttlv) (houts : Payloads cmd outs) (ht : Terminal t) (hmore : Typed cmd more)
      (hr : received = 3 + outs.length) (ht3 : taken = 3 + more.length) :
      Phase cmd request dead false false passing (msgHello :: (outs ++ [t, msgDisconn])) received
        (msgHello :: request :: (more ++ [msgDisconn])) taken
        (.exited (finalCode (replyCodes cmd t)))
  | left {dead passing : Bool} {received taken : Nat} (outs more : List Ttlv)
      (houts : Payloads cmd outs) (hmore : Typed cmd more) (hint : cmd.isInteract = true)
      (hr1 : 1 ≤ received) (hr2 : received ≤ 1 + outs.length) (ht3 : taken = 3 + more.length) :
      Phase cmd request dead false false passing (msgHello :: (outs ++ [msgDisconn])) received
        (msgHello :: request :: (more ++ [msgDisconn])) taken (.disconn ErrorCode.detach 0)
  | detached {dead passing : Bool} {received taken : Nat} (outs more : List Ttlv)
      (houts : Payloads cmd outs) (hmore : Typed cmd more) (hint : cmd.isInteract = true)
      (hr : received = 2 + outs.length) (ht3 : taken = 3 + more.length) :
      Phase cmd request dead false false passing (msgHello :: (outs ++ [msgDisconn])) received
        (msgHello :: request :: (more ++ [msgDisconn])) taken (.exited ErrorCode.detach)

/-! ## The client -/

theorem Terminal.tag_ne {t : Ttlv} (h : Terminal t) : t.tag ≠ Tag.output := by
  rcases h with h | h | h | h | h | h | ⟨code, text, rfl⟩
  case inr.inr.inr.inr.inr.inr =>
    rw [servNewError_tag]
    decide
  all_goals
    rw [h]
    decide

/-- A reply leads into `cli_disconn` with its codes, without a bug report. -/
theorem cliLoop_terminal {t : Ttlv} (h : Terminal t) (c : Client) :
    ∃ shown, cliLoop t c =
      { c with
        pc := .disconn (replyCodes c.cmd t).1 (replyCodes c.cmd t).2
        sent := c.sent ++ [msgDisconn]
        shown := shown } := by
  rcases h with h | h | h | h | h | h | ⟨code, text, rfl⟩
  · refine ⟨c.shown, ?_⟩
    simp [cliLoop, replyCodes, h, Tag.ack, Tag.eof, Tag.error, Tag.exited, cliDisconn, cliSend]
  · refine ⟨c.shown ++ [t.vRaw], ?_⟩
    simp [cliLoop, replyCodes, h, Tag.ack, Tag.output, Tag.expoutText, Tag.eof, Tag.error, Tag.exited,
      cliDisconn, cliSend, cliShow]
  · refine ⟨c.shown, ?_⟩
    simp [cliLoop, replyCodes, h, Tag.ack, Tag.output, Tag.expoutText, Tag.matched, Tag.info, Tag.eof,
      Tag.error, Tag.exited, cliDisconn, cliSend]
  · refine ⟨c.shown, ?_⟩
    simp [cliLoop, replyCodes, h, Tag.ack, Tag.output, Tag.expoutText, Tag.matched, Tag.eof,
      Tag.error, Tag.exited, cliDisconn, cliSend]
  · refine ⟨c.shown, ?_⟩
    simp [cliLoop, replyCodes, h, Tag.ack, Tag.output, Tag.expoutText, Tag.matched, Tag.eof,
      cliDisconn, cliSend]
  · refine ⟨c.shown, ?_⟩
    simp [cliLoop, replyCodes, h, Tag.ack, Tag.output, Tag.expoutText, Tag.matched, Tag.eof,
      Tag.error, Tag.info, Tag.exited, cliDisconn, cliSend]
  · refine ⟨c.shown, ?_⟩
    have hchildren : ¬ (ttlvFindChild (servNewError code text) Tag.errorMsg = .null ∨
        ttlvFindChild (servNewError code text) Tag.errorCode = .null) := by
      simp [servNewError, findChild_struct, ttlvNewInt, ttlvNewText, findFrom_link, Tag.errorMsg,
        Tag.errorCode]
    cases hp : c.cmd.passing <;>
      simp [cliLoop, replyCodes, servNewError_tag, hchildren, hp, Tag.ack, Tag.output,
        Tag.expoutText, Tag.matched, Tag.eof, Tag.error, cliDisconn, cliSend]

@[simp] theorem cliShow_sent (payload : Bytes) (c : Client) : (cliShow payload c).sent = c.sent := rfl
@[simp] theorem cliShow_pc (payload : Bytes) (c : Client) : (cliShow payload c).pc = c.pc := rfl

theorem cliLoop_output {m : Ttlv} (h : m.tag = Tag.output) (c : Client) :
    cliLoop m c = cliShow m.vRaw c := by
  simp [cliLoop, h, Tag.ack, Tag.output]

theorem cliDisconnLoop_output {m : Ttlv} (h : m.tag = Tag.output) (exitcode fatalCode : Int)
    (c : Client) (hp : c.cmd.passing = true) :
    cliDisconnLoop exitcode fatalCode m c = cliShow m.vRaw c := by
  simp [cliDisconnLoop, h, hp, Tag.output, Tag.disconn]

theorem cliDisconnLoop_disconn (exitcode fatalCode : Int) (c : Client) :
    cliDisconnLoop exitcode fatalCode msgDisconn c =
      { c with pc := .exited (finalCode (exitcode, fatalCode)) } :=
  if_pos (by decide)

theorem isInteract_passing {cmd : Cmd} (h : cmd.isInteract = true) : cmd.passing = true := by
  cases cmd with
  | pass subcmd opts => rfl
  | _ => cases h

/-- What the client has sent stays sent. -/
theorem cliRecv_length (m : Ttlv) (c : Client) : c.sent.length ≤ (cliRecv m c).sent.length := by
  have hdisconn : ∀ (exitcode fatalCode : Int) (c' : Client), c'.sent = c.sent →
      c.sent.length ≤ (cliDisconn exitcode fatalCode c').sent.length := by
    intro exitcode fatalCode c' hs
    simp [cliDisconn, cliSend, hs]
  unfold cliRecv
  split
  · unfold cliHello
    split
    · simp only
      split
      · exact le_rfl
      · split
        · exact le_rfl
        · simp [cliSend]
    · split
      · split <;> exact le_rfl
      · exact le_rfl
  · unfold cliLoop
    simp only
    split
    · exact hdisconn _ _ _ rfl
    split
    · exact le_rfl
    split
    · exact hdisconn _ _ _ rfl
    split
    · exact hdisconn _ _ _ rfl
    split
    · exact hdisconn _ _ _ rfl
    split
    · split
      · exact le_rfl
      · split <;> exact hdisconn _ _ _ rfl
    split
    · exact hdisconn _ _ _ rfl
    split
    · exact hdisconn _ _ _ rfl
    · exact le_rfl
  · unfold cliDisconnLoop
    split
    · exact le_rfl
    · split
      · split <;> exact le_rfl
      · exact le_rfl
  · exact le_rfl
  · exact le_rfl

/-- A client with the command, the request and no bug report. -/
structure Serves (cmd : Cmd) (request : Ttlv) (c : Client) : Prop where
  cmd : c.cmd = cmd
  request : c.request = request
  bugs : c.bugs = []

section

variable {cmd : Cmd} {request : Ttlv} {dead waiting sock passing : Bool} {out : List Ttlv}
  {received taken : Nat} {c : Client}

/-- The next message is one of the payloads, or it stands behind them. -/
theorem Payloads.next {outs : List Ttlv} (houts : Payloads cmd outs) (rest : List Ttlv)
    (hr : 1 ≤ received) {m : Ttlv} (hm : (msgHello :: (outs ++ rest))[received]? = some m) :
    received ≤ outs.length ∧ m.tag = Tag.output ∨
      outs.length < received ∧ rest[received - (1 + outs.length)]? = some m := by
  obtain ⟨k, rfl⟩ : ∃ k, received = k + 1 := ⟨received - 1, by omega⟩
  rw [List.getElem?_cons_succ] at hm
  by_cases hk : k < outs.length
  · rw [List.getElem?_append_left hk] at hm
    exact .inl ⟨by omega, houts.1 m (List.mem_of_getElem? hm)⟩
  · rw [List.getElem?_append_right (by omega)] at hm
    refine .inr ⟨by omega, ?_⟩
    rwa [Nat.add_comm 1, Nat.add_sub_add_right]

/-- The client receives the next message. -/
theorem Phase.deliver
    (h : Phase cmd request dead waiting sock passing out received c.sent taken c.pc)
    (hc : Serves cmd request c) (m : Ttlv) (hm : out[received]? = some m) :
    Phase cmd request dead waiting sock passing out (received + 1) (cliRecv m c).sent taken
      (cliRecv m c).pc ∧ Serves cmd request (cliRecv m c) := by
  have hshow : ∀ payload, Serves cmd request (cliShow payload c) := fun _ =>
    ⟨hc.cmd, hc.request, hc.bugs⟩
  generalize hs : c.sent = inn at h
  generalize hp : c.pc = pc at h
  unfold cliRecv
  rw [hp]
  cases h with
  | queued | accepted => cases hm
  | welcomed =>
    cases hm
    have hver : version = (ttlvFindChild msgHello Tag.version).vText := by decide
    have hnull : ttlvFindChild msgHello Tag.version ≠ .null := by decide
    have hhello : cliHello msgHello c = { cliSend c.request c with pc := .loop } := by
      rw [cliHello, if_pos (by decide)]
      simp [hnull, ← hver]
    simp only [hhello, cliSend, hs, hc.request]
    exact ⟨.asked [] ⟨by simp, by simp⟩, hc.cmd, rfl, hc.bugs⟩
  | asked more hmore => cases hm
  | stuck => cases hm
  | passing outs more houts hmore hpass hr1 hr2 ht1 ht2 =>
    obtain ⟨hk, htag⟩ | ⟨-, habsurd⟩ := houts.next [] hr1 (by simpa using hm)
    · simp only [cliLoop_output htag, cliShow_sent, cliShow_pc, hs, hp]
      exact ⟨.passing outs more houts hmore hpass (by omega) (by omega) ht1 ht2, hshow _⟩
    · simp at habsurd
  | answered outs t more houts ht hmore hr1 hr2 ht1 ht2 =>
    obtain ⟨hk, htag⟩ | ⟨hk, hlast⟩ := houts.next [t] hr1 hm
    · simp only [cliLoop_output htag, cliShow_sent, cliShow_pc, hs, hp]
      exact ⟨.answered outs t more houts ht hmore (by omega) (by omega) ht1 ht2, hshow _⟩
    · have hall : received = 1 + outs.length := by omega
      rw [hall, Nat.sub_self] at hlast
      cases hlast
      obtain ⟨shown, hloop⟩ := cliLoop_terminal ht c
      simp only [hloop, hs, hc.cmd]
      exact ⟨.confirmed outs m more houts ht hmore (by omega) ht1 ht2, rfl, hc.request, hc.bugs⟩
  | confirmed outs t more houts ht hmore hr ht1 ht2 =>
    have hk := (List.getElem?_eq_some_iff.mp hm).1
    simp only [List.length_cons, List.length_append, List.length_nil] at hk
    omega
  | leaving outs more houts hmore hint hr1 hr2 hold hnew ht2 =>
    obtain ⟨hk, htag⟩ | ⟨-, habsurd⟩ := houts.next [] hr1 (by simpa using hm)
    · have hpass : c.cmd.passing = true := by
        rw [hc.cmd]
        exact isInteract_passing hint
      simp only [cliDisconnLoop_output htag _ _ c hpass, cliShow_sent, cliShow_pc, hs, hp]
      exact ⟨.leaving outs more houts hmore hint (by omega) (by omega) hold hnew ht2, hshow _⟩
    · simp at habsurd
  | parted outs t more houts ht hmore hr ht3 =>
    have hlast : m = msgDisconn := by
      rw [hr, Nat.add_comm 2, List.getElem?_cons_succ, List.getElem?_append_right (by omega)] at hm
      simpa using hm.symm
    simp only [hlast, cliDisconnLoop_disconn, hs]
    exact ⟨.gone outs t more houts ht hmore (by omega) ht3, hc.cmd, hc.request, hc.bugs⟩
  | gone outs t more houts ht hmore hr ht3 =>
    have hk := (List.getElem?_eq_some_iff.mp hm).1
    simp only [List.length_cons, List.length_append, List.length_nil] at hk
    omega
  | left outs more houts hmore hint hr1 hr2 ht3 =>
    obtain ⟨hk, htag⟩ | ⟨hk, hlast⟩ := houts.next [msgDisconn] hr1 hm
    · have hpass : c.cmd.passing = true := by
        rw [hc.cmd]
        exact isInteract_passing hint
      simp only [cliDisconnLoop_output htag _ _ c hpass, cliShow_sent, cliShow_pc, hs, hp]
      exact ⟨.left outs more houts hmore hint (by omega) (by omega) ht3, hshow _⟩
    · have hall : received = 1 + outs.length := by omega
      rw [hall, Nat.sub_self] at hlast
      cases hlast
      simp only [cliDisconnLoop_disconn, hs]
      exact ⟨.detached outs more houts hmore hint (by omega) ht3, hc.cmd, hc.request, hc.bugs⟩
  | detached outs more houts hmore hint hr ht3 =>
    have hk := (List.getElem?_eq_some_iff.mp hm).1
    simp only [List.length_cons, List.length_append, List.length_nil] at hk
    omega

/-- The client of an `interact` passes on what is typed. -/
theorem Phase.typed {inn : List Ttlv}
    (h : Phase cmd request dead waiting sock passing out received inn taken .loop)
    (hint : cmd.isInteract = true) {m : Ttlv}
    (hm : m.tag = Tag.input ∨ ∃ row col, m = winchMsg row col) :
    Phase cmd request dead waiting sock passing out received (inn ++ [m]) taken .loop := by
  have happend : ∀ more, Typed cmd more → Typed cmd (more ++ [m]) := by
    intro more hmore
    refine ⟨fun m' hm' => ?_, fun _ => hint⟩
    rcases List.mem_append.mp hm' with hm' | hm'
    · exact hmore.1 m' hm'
    · rw [List.mem_singleton.mp hm']
      exact hm
  have hlen : ∀ more : List Ttlv, taken ≤ 2 + more.length → taken ≤ 2 + (more ++ [m]).length := by
    intro more hle
    rw [List.length_append]
    omega
  cases h with
  | asked more hmore => exact .asked (more ++ [m]) (happend more hmore)
  | stuck hno =>
    rw [hint] at hno
    cases hno
  | passing outs more houts hmore hpass hr1 hr2 ht1 ht2 =>
    exact .passing outs (more ++ [m]) houts (happend more hmore) hpass hr1 hr2 ht1 (hlen more ht2)
  | answered outs t more houts ht hmore hr1 hr2 ht1 ht2 =>
    exact .answered outs t (more ++ [m]) houts ht (happend more hmore) hr1 hr2 ht1 (hlen more ht2)

/-- The user of an `interact` leaves while no reply is under way. -/
theorem Phase.detach {inn : List Ttlv}
    (h : Phase cmd request dead waiting sock passing out received inn taken .loop)
    (hint : cmd.isInteract = true) (hclean : ∀ m ∈ out.drop received, m.tag = Tag.output) :
    Phase cmd request dead waiting sock passing out received (inn ++ [msgDisconn]) taken
      (.disconn ErrorCode.detach 0) := by
  cases h with
  | asked more hmore =>
    exact .leaving [] more ⟨by simp, by simp⟩ hmore hint le_rfl le_rfl (fun _ => ⟨rfl, rfl⟩)
      (fun h => by cases h) (by omega)
  | stuck hno =>
    rw [hint] at hno
    cases hno
  | passing outs more houts hmore hpass hr1 hr2 ht1 ht2 =>
    exact .leaving outs more houts hmore hint hr1 hr2 (fun h => by cases h) (fun _ => ht1) ht2
  | answered outs t more houts ht hmore hr1 hr2 ht1 ht2 =>
    -- the reply is still under way
    obtain ⟨k, rfl⟩ : ∃ k, received = k + 1 := ⟨received - 1, by omega⟩
    rw [List.drop_succ_cons, List.drop_append_of_le_length (by omega)] at hclean
    exact absurd (hclean t (by simp)) ht.tag_ne

/-! ## The server -/

/-- What becomes of the server does not matter but to a client it left without
an answer. -/
theorem Phase.revive {dead' : Bool} {inn : List Ttlv} {pc : CliPc}
    (h : Phase cmd request dead waiting sock passing out received inn taken pc)
    (hd : dead = true → dead' = true) :
    Phase cmd request dead' waiting sock passing out received inn taken pc := by
  cases h with
  | queued => exact .queued
  | accepted => exact .accepted
  | welcomed => exact .welcomed
  | asked more hmore => exact .asked more hmore
  | stuck hno =>
    rw [hd rfl]
    exact .stuck hno
  | passing outs more h1 h2 h3 h4 h5 h6 h7 => exact .passing outs more h1 h2 h3 h4 h5 h6 h7
  | answered outs t more h1 h2 h3 h4 h5 h6 h7 => exact .answered outs t more h1 h2 h3 h4 h5 h6 h7
  | confirmed outs t more h1 h2 h3 h4 h5 h6 => exact .confirmed outs t more h1 h2 h3 h4 h5 h6
  | leaving outs more h1 h2 h3 h4 h5 h6 h7 h8 => exact .leaving outs more h1 h2 h3 h4 h5 h6 h7 h8
  | parted outs t more h1 h2 h3 h4 h5 => exact .parted outs t more h1 h2 h3 h4 h5
  | gone outs t more h1 h2 h3 h4 h5 => exact .gone outs t more h1 h2 h3 h4 h5
  | left outs more h1 h2 h3 h4 h5 h6 => exact .left outs more h1 h2 h3 h4 h5 h6
  | detached outs more h1 h2 h3 h4 h5 => exact .detached outs more h1 h2 h3 h4 h5

theorem Phase.accept {dead' : Bool} {inn : List Ttlv} {pc : CliPc}
    (h : Phase cmd request dead true sock passing out received inn taken pc) :
    Phase cmd request dead' false true false out received inn taken pc := by
  cases h with
  | queued => exact .accepted

theorem Payloads.snoc {outs : List Ttlv} (h : Payloads cmd outs) (hp : cmd.passing = true) {m : Ttlv}
    (hm : m.tag = Tag.output) : Payloads cmd (outs ++ [m]) := by
  refine ⟨fun m' hm' => ?_, fun _ => hp⟩
  rcases List.mem_append.mp hm' with hm' | hm'
  · exact h.1 m' hm'
  · rw [List.mem_singleton.mp hm']
    exact hm

theorem Phase.output {dead' : Bool} {inn : List Ttlv} {pc : CliPc}
    (h : Phase cmd request dead waiting true true out received inn taken pc) {m : Ttlv}
    (hm : m.tag = Tag.output) :
    Phase cmd request dead' waiting true true (out ++ [m]) received inn taken pc := by
  have hlen : ∀ outs : List Ttlv, received ≤ 1 + outs.length →
      received ≤ 1 + (outs ++ [m]).length := by
    intro outs hle
    rw [List.length_append]
    omega
  cases h with
  | passing outs more houts hmore hpass hr1 hr2 ht1 ht2 =>
    exact .passing (outs ++ [m]) more (houts.snoc hpass hm) hmore hpass hr1 (hlen outs hr2) ht1 ht2
  | leaving outs more houts hmore hint hr1 hr2 hold hnew ht2 =>
    exact .leaving (outs ++ [m]) more (houts.snoc (isInteract_passing hint) hm) hmore hint hr1
      (hlen outs hr2) (fun h => by cases h) hnew ht2

/-- The request of a client that has not left is answered. -/
theorem Phase.reply {dead' : Bool} {inn : List Ttlv} {pc : CliPc}
    (h : Phase cmd request dead waiting true true out received inn taken pc) {t : Ttlv}
    (ht : Terminal t) (hpc : ∀ exitcode fatalCode, pc ≠ .disconn exitcode fatalCode) :
    Phase cmd request dead' waiting true false (out ++ [t]) received inn taken pc := by
  cases h with
  | passing outs more houts hmore hpass hr1 hr2 ht1 ht2 =>
    exact .answered outs t more houts ht hmore hr1 hr2 ht1 ht2
  | leaving outs more houts hmore hint hr1 hr2 hold hnew ht2 => exact absurd rfl (hpc _ _)

/-- The command asks with this message. -/
def Asks (cmd : Cmd) (request : Ttlv) : Prop := ∃ tty, cliMain tty cmd = .message request

/-- The requests that are answered at once. -/
def direct (tag : Nat) : Prop :=
  tag = Tag.send ∨ tag = Tag.expout ∨ tag = Tag.close ∨ tag = Tag.kill ∨ tag = Tag.set ∨
    tag = Tag.info

theorem Asks.cases (h : Asks cmd request) :
    (cmd.passing = false ∧ direct request.tag) ∨
      ∃ subcmd opts, cmd = .pass subcmd opts ∧ request = passRequest subcmd opts := by
  obtain ⟨tty, h⟩ := h
  cases cmd with
  | close =>
    cases h
    exact .inl ⟨rfl, .inr (.inr (.inl rfl))⟩
  | expectOut index =>
    cases h
    exact .inl ⟨rfl, .inr (.inl rfl)⟩
  | get =>
    cases h
    exact .inl ⟨rfl, .inr (.inr (.inr (.inr (.inr rfl))))⟩
  | kill signal =>
    cases h
    exact .inl ⟨rfl, .inr (.inr (.inr (.inl rfl)))⟩
  | send data enter =>
    simp only [cliMain] at h
    split at h
    · cases h
      exact .inl ⟨rfl, .inl rfl⟩
    · split at h
      · cases h
        exact .inl ⟨rfl, .inl rfl⟩
      · cases h
  | set opts =>
    cases h
    exact .inl ⟨rfl, .inr (.inr (.inr (.inr (.inl rfl))))⟩
  | pass subcmd opts =>
    simp only [cliMain] at h
    split at h
    · cases h
    · cases h
      exact .inr ⟨subcmd, opts, rfl, rfl⟩

theorem terminal_expoutReply (index : Int) (expout : List (Option Bytes)) :
    Terminal (expoutReply index expout) := by
  unfold expoutReply
  split
  · split <;> exact .inr (.inl rfl)
  · exact .inr (.inr (.inr (.inr (.inr (.inr ⟨_, _, rfl⟩)))))

theorem terminal_killReply (sys : Sys) : Terminal (killReply sys) := by
  unfold killReply
  split
  · exact .inr (.inr (.inr (.inr (.inr (.inr ⟨_, _, rfl⟩)))))
  · exact .inl rfl

theorem PassReply.terminal {t : Ttlv} (h : PassReply t) : Terminal t := by
  rcases h with rfl | rfl | ⟨status, rfl⟩ | rfl | rfl
  · exact .inr (.inr (.inr (.inl rfl)))
  · exact .inr (.inr (.inr (.inr (.inl rfl))))
  · exact .inr (.inr (.inr (.inr (.inr (.inl rfl)))))
  · exact .inr (.inr (.inr (.inr (.inr (.inr ⟨_, _, rfl⟩)))))
  · exact .inr (.inr (.inr (.inr (.inr (.inr ⟨_, _, rfl⟩)))))

/-- A request is answered at once, unless the server aborts over it. -/
theorem dispatch_direct (host : Host) (sys : Sys) (m : Ttlv) (s : Server) (hm : direct m.tag)
    (hsock : s.conn.sock = true) (hsent : sys.sent = true) :
    (dispatch host sys m s).conn = s.conn ∧
      ((∃ t, Terminal t ∧ (dispatch host sys m s).hist.sent = s.hist.sent ++ [t] ∧
          (dispatch host sys m s).pc = s.pc) ∨
        (dispatch host sys m s).hist.sent = s.hist.sent ∧
          Pc.dead (dispatch host sys m s).pc = true) := by
  have hreply : ∀ (t : Ttlv) (s' : Server), Terminal t → s'.conn = s.conn →
      s'.hist.sent = s.hist.sent → s'.pc = s.pc →
      (servMsgSend sys.sent t s').conn = s.conn ∧
        ((∃ t', Terminal t' ∧ (servMsgSend sys.sent t s').hist.sent = s.hist.sent ++ [t'] ∧
            (servMsgSend sys.sent t s').pc = s.pc) ∨
          (servMsgSend sys.sent t s').hist.sent = s.hist.sent ∧
            Pc.dead (servMsgSend sys.sent t s').pc = true) := by
    intro t s' ht hc hh hp
    have hsock' : s'.conn.sock = true := by rw [hc, hsock]
    have hpost := servMsgSend_posts sys.sent t hsock'
    have hlog := hpost.log
    rw [hsent, if_pos rfl, hh] at hlog
    refine ⟨?_, .inl ⟨t, ht, ?_, ?_⟩⟩
    · simp only [servMsgSend, hsock', msgOut, hsent]
      simpa using hc
    · rw [hsent]
      exact hlog
    · rw [servMsgSend_pc, hp]
  rcases hm with h | h | h | h | h | h <;> simp only [dispatch, h]
  · rw [if_neg (by decide), if_neg (by decide), if_pos (by decide)]
    apply hreply
    · exact .inl rfl
    · unfold writePtm
      split <;> rfl
    · unfold writePtm
      split <;> rfl
    · unfold writePtm
      split <;> rfl
  · rw [if_neg (by decide), if_neg (by decide), if_neg (by decide), if_neg (by decide),
      if_neg (by decide), if_pos (by decide)]
    exact hreply _ s (terminal_expoutReply _ _) rfl rfl rfl
  · rw [if_neg (by decide), if_neg (by decide), if_neg (by decide), if_neg (by decide),
      if_neg (by decide), if_neg (by decide), if_neg (by decide), if_pos (by decide)]
    exact hreply _ { s with ptmOpen := false } (.inl rfl) rfl rfl rfl
  · rw [if_neg (by decide), if_neg (by decide), if_neg (by decide), if_neg (by decide),
      if_neg (by decide), if_neg (by decide), if_neg (by decide), if_neg (by decide),
      if_pos (by decide)]
    exact hreply _ s (terminal_killReply sys) rfl rfl rfl
  · rw [if_neg (by decide), if_neg (by decide), if_neg (by decide), if_neg (by decide),
      if_neg (by decide), if_neg (by decide), if_neg (by decide), if_neg (by decide),
      if_neg (by decide), if_pos (by decide)]
    exact hreply _ { s with spawn := processSet m s.spawn } (.inl rfl) rfl rfl rfl
  · rw [if_neg (by decide), if_neg (by decide), if_neg (by decide), if_neg (by decide),
      if_neg (by decide), if_neg (by decide), if_neg (by decide), if_neg (by decide),
      if_neg (by decide), if_neg (by decide), if_pos (by decide)]
    split
    · exact ⟨rfl, .inr ⟨rfl, rfl⟩⟩
    · rename_i buf _
      exact hreply _ { s with buf := buf } (.inr (.inr (.inl rfl))) rfl rfl rfl

/-- What is typed changes neither the connection nor the log. -/
theorem dispatch_typed (host : Host) (sys : Sys) (m : Ttlv) (s : Server)
    (hm : m.tag = Tag.input ∨ ∃ row col, m = winchMsg row col) :
    (dispatch host sys m s).conn = s.conn ∧ (dispatch host sys m s).hist.sent = s.hist.sent ∧
      (dispatch host sys m s).pc = s.pc := by
  rcases hm with h | ⟨row, col, rfl⟩
  · rw [dispatch_input host sys m s h]
    unfold writePtm
    split <;> exact ⟨rfl, rfl, rfl⟩
  · rw [dispatch_winch]
    exact ⟨rfl, rfl, rfl⟩

/-- Behind a stretch of the server: what was said and the stage.  A server that
has replied is alive. -/
def Heard (cmd : Cmd) (request : Ttlv) (waiting : Bool) (out : List Ttlv) (received : Nat)
    (inn : List Ttlv) (taken : Nat) (pc : CliPc) (s s' : Server) : Prop :=
  ∃ new, s'.hist.sent = s.hist.sent ++ new ∧
    Phase cmd request (Pc.dead s'.pc) waiting s'.conn.sock s'.conn.passing (out ++ new) received inn
      taken pc ∧
    ((∃ t ∈ new, Terminal t) → Pc.dead s'.pc = false)

/-- A message without an answer. -/
theorem Heard.silent {inn : List Ttlv} {pc : CliPc} {s s' : Server}
    (h : Phase cmd request (Pc.dead s'.pc) waiting s'.conn.sock s'.conn.passing out received inn taken
      pc) (hs : s'.hist.sent = s.hist.sent) : Heard cmd request waiting out received inn taken pc s s' :=
  ⟨[], by rw [hs, List.append_nil], by rw [List.append_nil]; exact h, by simp⟩

/-- The server takes a typed message. -/
theorem Heard.typed {inn : List Ttlv} {pc : CliPc} (host : Host) (sys : Sys) {m : Ttlv} {s : Server}
    (hm : m.tag = Tag.input ∨ ∃ row col, m = winchMsg row col)
    (h : Phase cmd request (Pc.dead s.pc) waiting s.conn.sock s.conn.passing out received inn taken pc) :
    Heard cmd request waiting out received inn taken pc s (dispatch host sys m s) := by
  obtain ⟨hc, hs, hp⟩ := dispatch_typed host sys m s hm
  apply Heard.silent _ hs
  rw [hc, hp]
  exact h

/-- A typed message is found behind the first two. -/
theorem Typed.getElem?_typed {more : List Ttlv} (hmore : Typed cmd more) (rest : List Ttlv)
    (h2 : 2 ≤ taken) (hlt : taken < 2 + more.length) {m : Ttlv}
    (hget : (msgHello :: request :: (more ++ rest))[taken]? = some m) :
    m.tag = Tag.input ∨ ∃ row col, m = winchMsg row col := by
  obtain ⟨k, rfl⟩ : ∃ k, taken = k + 2 := ⟨taken - 2, by omega⟩
  rw [List.getElem?_cons_succ, List.getElem?_cons_succ,
    List.getElem?_append_left (by omega)] at hget
  exact hmore.1 m (List.mem_of_getElem? hget)

/-- Behind what was typed stands the `DISCONN`. -/
theorem getElem?_disconn {more : List Ttlv} (heq : taken = 2 + more.length) {m : Ttlv}
    (hget : (msgHello :: request :: (more ++ [msgDisconn]))[taken]? = some m) : m = msgDisconn := by
  rw [heq, Nat.add_comm 2, List.getElem?_cons_succ, List.getElem?_cons_succ,
    List.getElem?_concat_length] at hget
  cases hget
  rfl

/-- Nothing is typed with a command that does not pass. -/
theorem Typed.eq_nil {more : List Ttlv} (hmore : Typed cmd more) (hno : cmd.passing = false) :
    cmd.isInteract = false ∧ more = [] := by
  have hnoint : cmd.isInteract = false := by
    by_contra hi
    rw [isInteract_passing (by simpa using hi)] at hno
    cases hno
  refine ⟨hnoint, ?_⟩
  by_contra hne
  rw [hmore.2 hne] at hnoint
  cases hnoint

/-- The server takes the request. -/
theorem Heard.asked (host : Host) (sys : Sys) {s : Server} (hreq : Asks cmd request)
    (halive : Pc.dead s.pc = false) (hsock : s.conn.sock = true) (hpassing : s.conn.passing = false)
    (hsent : sys.sent = true) (more : List Ttlv) (hmore : Typed cmd more) :
    Heard cmd request false [msgHello] 1 (msgHello :: request :: more) 2 .loop s
      (dispatch host sys request s) := by
  rcases hreq.cases with ⟨hno, hdirect⟩ | ⟨subcmd, opts, rfl, rfl⟩
  · obtain ⟨hnoint, rfl⟩ := hmore.eq_nil hno
    obtain ⟨hc, ⟨t, ht, hlog, hpc⟩ | ⟨hlog, hdead⟩⟩ :=
      dispatch_direct host sys request s hdirect hsock hsent
    · refine ⟨[t], hlog, ?_, fun _ => by rw [hpc, halive]⟩
      rw [hc, hsock, hpassing]
      exact .answered [] t [] ⟨by simp, by simp⟩ ht hmore le_rfl le_rfl le_rfl le_rfl
    · apply Heard.silent _ hlog
      rw [hc, hsock, hpassing, hdead]
      exact .stuck hnoint
  · rw [dispatch_passRequest, processPass_request]
    apply Heard.silent _ rfl
    simp only [hsock]
    exact .passing [] more ⟨by simp, by simp⟩ hmore rfl le_rfl le_rfl le_rfl (by omega)

/-- The server takes the next message of the client. -/
theorem Phase.receive {inn : List Ttlv} {pc : CliPc} {s : Server}
    (h : Phase cmd request dead waiting true s.conn.passing out received inn taken pc)
    (hreq : Asks cmd request) (hlive : dead = false) (host : Host) (sys : Sys)
    (halive : Pc.dead s.pc = false) (hsock : s.conn.sock = true) (hsent : sys.sent = true) (m : Ttlv)
    (hm : inn[taken]? = some m) :
    Heard cmd request waiting out received inn (taken + 1) pc s (dispatch host sys m s) := by
  generalize hpassing : s.conn.passing = passing at h
  cases h with
  | accepted =>
    cases hm
    rw [dispatch_hello host sys s hsock hsent]
    refine ⟨[msgHello], rfl, ?_, fun _ => halive⟩
    simp only [hsock, hpassing]
    exact .welcomed
  | welcomed => cases hm
  | stuck => cases hlive
  | asked more hmore =>
    cases hm
    exact Heard.asked host sys hreq halive hsock hpassing hsent more hmore
  | passing outs more houts hmore hpass hr1 hr2 ht1 ht2 =>
    have hlt := (List.getElem?_eq_some_iff.mp hm).1
    simp only [List.length_cons] at hlt
    apply Heard.typed host sys (hmore.getElem?_typed [] ht1 (by omega) (by simpa using hm))
    rw [hsock, hpassing]
    exact .passing outs more houts hmore hpass hr1 hr2 (by omega) (by omega)
  | answered outs t more houts ht hmore hr1 hr2 ht1 ht2 =>
    have hlt := (List.getElem?_eq_some_iff.mp hm).1
    simp only [List.length_cons] at hlt
    apply Heard.typed host sys (hmore.getElem?_typed [] ht1 (by omega) (by simpa using hm))
    rw [hsock, hpassing]
    exact .answered outs t more houts ht hmore hr1 hr2 (by omega) (by omega)
  | confirmed outs t more houts ht hmore hr ht1 ht2 =>
    by_cases hlt : taken < 2 + more.length
    · apply Heard.typed host sys (hmore.getElem?_typed _ ht1 hlt hm)
      rw [hsock, hpassing]
      exact .confirmed outs t more houts ht hmore hr (by omega) (by omega)
    · have hm' := getElem?_disconn (by omega) hm
      subst hm'
      rw [dispatch_disconn host sys s hsock hsent]
      refine ⟨[msgDisconn], rfl, ?_, fun _ => halive⟩
      rw [List.cons_append, List.append_assoc]
      exact .parted outs t more houts ht hmore hr (by omega)
  | leaving outs more houts hmore hint hr1 hr2 hold hnew ht2 =>
    by_cases hold1 : passing = false
    · -- the request itself is still to be taken
      obtain ⟨rfl, rfl⟩ := hold hold1
      cases hm
      rcases hreq.cases with ⟨hno, -⟩ | ⟨subcmd, opts, rfl, rfl⟩
      · rw [isInteract_passing hint] at hno
        cases hno
      · rw [dispatch_passRequest, processPass_request]
        apply Heard.silent _ rfl
        simp only [hsock]
        exact .leaving [] more houts hmore hint hr1 hr2 (fun h => by cases h) (fun _ => le_rfl)
          (by omega)
    · have hon : passing = true := by simpa using hold1
      subst hon
      have ht1 := hnew rfl
      by_cases hlt : taken < 2 + more.length
      · apply Heard.typed host sys (hmore.getElem?_typed _ ht1 hlt hm)
        rw [hsock, hpassing]
        exact .leaving outs more houts hmore hint hr1 hr2 (fun h => by cases h)
          (fun _ => by omega) (by omega)
      · have hm' := getElem?_disconn (by omega) hm
        subst hm'
        rw [dispatch_disconn host sys s hsock hsent]
        refine ⟨[msgDisconn], rfl, ?_, fun _ => halive⟩
        exact .left outs more houts hmore hint hr1 hr2 (by omega)

end

/-! ## Steps of the session -/

/-- The facts that hold of a session at every moment. -/
structure Linked (cmd : Cmd) (request : Ttlv) (p : Session) : Prop where
  windows : ∃ mark, Windows p.server mark
  watching : Watching p.server
  client : Serves cmd request p.client
  ready : (Pc.readfds p.server.pc).sock = true → p.taken < p.client.sent.length
  listen : ∀ fds, p.server.pc = .accept fds → fds.listen = true → p.waiting = true
  base : p.base ≤ p.server.hist.sent.length
  phase : Phase cmd request (Pc.dead p.server.pc) p.waiting p.server.conn.sock p.server.conn.passing
    p.toClient p.received p.client.sent p.taken p.client.pc

/-- Whether a chunk of standard input makes the client leave. -/
def detaches (c : Client) (bs : Bytes) : Bool :=
  match c.cmd with
  | .pass .interact opts => decide (c.pc = .loop) && !opts.noDetach && decide (bs = detachKey)
  | _ => false

/-- Whether the next stretch of the server ends the request in progress. -/
def replies (host : Host) (sys : Sys) (s : Server) : Bool :=
  match s.pc with
  | .expect => (servExpect host (s.conn.pattern.getD []) s).1
  | .ending =>
    if ¬ s.ptmOpen ∧ s.buf.newcnt = 0 then
      hasFlag s.conn.expflags passExpectEof || !hasFlag s.conn.expflags passExpectExit ||
        (!s.waited && s.sigChlded && (decide (s.child = .terminated) || sys.interrupted))
    else expTimedOut sys s.conn.timeout
  | _ => false

/-- The user leaves an `interact` only while no reply is under way, and the
server does not end the request while it has not yet heard of that. -/
def Clean (host : Host) (p : Session) : Event → Prop
  | .stdin bs => detaches p.client bs = true → ∀ m ∈ p.toClient.drop p.received, m.tag = Tag.output
  | .server (.tick sys) => p.client.cmd.isInteract = true → msgDisconn ∈ p.client.sent.drop p.taken →
      replies host (p.sys sys) p.server = false
  | _ => True

instance (host : Host) (p : Session) : ∀ e, Decidable (Clean host p e)
  | .stdin bs => inferInstanceAs (Decidable (detaches p.client bs = true → _))
  | .server (.tick sys) => inferInstanceAs (Decidable (_ → _ → replies host (p.sys sys) p.server = _))
  | .server (.child _) | .server .sigCHLD | .deliver | .winch _ _ | .hangup => isTrue trivial

theorem clean_apart (host : Host) (p : Session) {i : Input} (hi : ∀ sys, i ≠ .tick sys) :
    Clean host p (.server i) := by
  cases i with
  | tick sys => exact absurd rfl (hi sys)
  | child | sigCHLD => trivial

theorem tick_unreplied (host : Host) (sys : Sys) (s : Server) (h : replies host sys s = false)
    (hpc : s.pc = .expect ∨ s.pc = .ending) : (tick host sys s).hist.sent = s.hist.sent := by
  rcases hpc with hpc | hpc <;> simp only [replies, hpc] at h <;> simp only [tick, hpc]
  · unfold servPassExpect
    rcases hexp : servExpect host (s.conn.pattern.getD []) s with ⟨matched, s'⟩
    rw [hexp] at h
    cases h
    obtain ⟨bugs, rfl⟩ := servExpect_failed _ _ _ _ hexp
    rfl
  · unfold servPassEnd
    split
    · rename_i hclosed
      rw [if_pos hclosed] at h
      simp only [Bool.or_eq_false_iff, Bool.not_eq_false'] at h
      obtain ⟨⟨heof, hexit⟩, hchild⟩ := h
      rw [if_neg (by simp [heof]), if_pos hexit]
      split
      · rename_i hdead
        rw [if_pos]
        · simp only [hdead.1, hdead.2] at hchild
          simpa using hchild
      · rfl
    · rename_i hopen
      rw [if_neg hopen] at h
      rw [if_neg (by simp [h])]

theorem tick_dead (host : Host) (sys : Sys) (s : Server) (h : Pc.dead s.pc = true) :
    tick host sys s = s := by
  unfold tick
  cases hpc : s.pc <;> rw [hpc] at h <;> first | rfl | cases h

/-- A client that waits for the end of an unanswered request has left it. -/
theorem Phase.inflight {cmd : Cmd} {request : Ttlv} {dead waiting : Bool} {out inn : List Ttlv}
    {received taken : Nat} {exitcode fatalCode : Int}
    (h : Phase cmd request dead waiting true true out received inn taken
      (.disconn exitcode fatalCode)) :
    cmd.isInteract = true ∧ msgDisconn ∈ inn.drop taken := by
  cases h with
  | leaving outs more houts hmore hint hr1 hr2 hold hnew ht2 =>
    have ht1 := hnew rfl
    obtain ⟨k, rfl⟩ : ∃ k, taken = k + 2 := ⟨taken - 2, by omega⟩
    refine ⟨hint, ?_⟩
    rw [List.drop_succ_cons, List.drop_succ_cons, List.drop_append_of_le_length (by omega)]
    simp

theorem Heard.quiet {cmd : Cmd} {request : Ttlv} {waiting : Bool} {out inn : List Ttlv}
    {received taken : Nat} {pc : CliPc} {s s' : Server}
    (h : Phase cmd request (Pc.dead s.pc) waiting s.conn.sock s.conn.passing out received inn taken pc)
    (hq : Quiet s s') (hd : Pc.dead s.pc = true → Pc.dead s'.pc = true) :
    Heard cmd request waiting out received inn taken pc s s' := by
  obtain ⟨lookback, hc, -⟩ := hq.conn
  apply Heard.silent _ hq.sent
  rw [hc]
  exact h.revive hd

section

variable {cmd : Cmd} {request : Ttlv} {p q : Session}

theorem receives_iff (s : Server) :
    s.receives = true ↔ ∃ fds, s.pc = .recv fds ∧ s.conn.sock = true ∧ fds.sock = true := by
  unfold Server.receives
  split
  · rename_i fds hpc
    simp [hpc]
  · rename_i hpc
    simp only [Bool.false_eq_true, false_iff]
    rintro ⟨fds, h, -⟩
    exact hpc fds h

theorem accepts_iff (s : Server) (sys : Sys) :
    s.accepts sys = true ↔ ∃ fds, s.pc = .accept fds ∧ fds.listen = true ∧ sys.accept = .conn := by
  unfold Server.accepts
  split
  · rename_i fds hpc
    simp [hpc]
  · rename_i hpc
    simp only [Bool.false_eq_true, false_iff]
    rintro ⟨fds, h, -⟩
    exact hpc fds h

/-- The message the server takes is the next one of the client. -/
theorem Linked.tick_receives (h : Linked cmd request p) (host : Host) (sys : Sys)
    (hr : p.server.receives = true) :
    ∃ fds m, p.server.pc = .recv fds ∧ p.server.conn.sock = true ∧ p.client.sent[p.taken]? = some m ∧
      tick host (p.sys sys) p.server =
        dispatch host (p.sys sys) m { p.server with pc := .pass } := by
  obtain ⟨fds, hpc, hsock, hready⟩ := (receives_iff _).mp hr
  have hlt : p.taken < p.client.sent.length := h.ready (by rw [hpc]; exact hready)
  have hmsg : (p.sys sys).msg = some p.client.sent[p.taken] := List.getElem?_eq_getElem hlt
  refine ⟨fds, p.client.sent[p.taken], hpc, hsock, hmsg, ?_⟩
  simp only [tick, hpc, loopRecv, hsock, hready, and_self, if_true, servProcessMsg, hmsg]

/-- A stretch of the server, in which it may take a message, accept the client,
or say something of its own. -/
theorem Linked.heard (h : Linked cmd request p) (hreq : Asks cmd request) (host : Host) (sys : Sys)
    (hclean : Clean host p (.server (.tick sys))) :
    Heard cmd request (p.waiting && !p.server.accepts sys) p.toClient p.received p.client.sent
      (if p.server.receives then p.taken + 1 else p.taken) p.client.pc p.server
      (tick host (p.sys sys) p.server) := by
  have hph := h.phase
  obtain ⟨mark, hw⟩ := h.windows
  by_cases hr : p.server.receives = true
  · obtain ⟨fds, m, hpc, hsock, hmsg, htick⟩ := h.tick_receives host sys hr
    have hacc : p.server.accepts sys = false := by simp [Server.accepts, hpc]
    rw [hacc, if_pos hr, htick, Bool.not_false, Bool.and_true]
    rw [hsock, hpc] at hph
    exact hph.receive (s := { p.server with pc := .pass }) hreq rfl host (p.sys sys) rfl hsock
      rfl _ hmsg
  · by_cases ha : p.server.accepts sys = true
    · obtain ⟨fds, hpc, hlisten, hconn⟩ := (accepts_iff _ _).mp ha
      have hsock := h.watching.listen fds hpc hlisten
      have hwait := h.listen fds hpc hlisten
      have htick : tick host (p.sys sys) p.server =
          { p.server with conn := { sock := true }, pc := .readPtm fds } := by
        have hconn' : (p.sys sys).accept = .conn := hconn
        simp only [tick, hpc, loopAccept, hlisten, if_true, hconn', hsock]
        simp
      rw [hwait] at hph ⊢
      rw [ha, if_neg hr, htick]
      exact Heard.silent hph.accept rfl
    · have hacc : p.server.accepts sys = false := by simpa using ha
      rw [hacc, if_neg hr, Bool.not_false, Bool.and_true]
      have ht := servStep_talks host (.tick (p.sys sys)) p.server hw.flow
      have hdead : Pc.dead p.server.pc = true →
          Pc.dead (tick host (p.sys sys) p.server).pc = true := by
        intro hd
        rw [tick_dead host _ _ hd]
        exact hd
      have hunrep := tick_unreplied host (p.sys sys) p.server
      simp only [servStep] at ht
      generalize tick host (p.sys sys) p.server = s' at ht hdead hunrep ⊢
      cases ht with
      | quiet hq => exact Heard.quiet hph hq hdead
      | old fds hpc hon hfull htrim =>
        exact Heard.silent (hph.revive (fun hd => by rw [hpc] at hd; cases hd)) rfl
      | accepted fds hpc hready hconn => exact absurd ((accepts_iff _ _).mpr ⟨fds, hpc, hready, hconn⟩) ha
      | received fds hpc hsock hready => exact absurd ((receives_iff _).mpr ⟨fds, hpc, hsock, hready⟩) hr
      | output psend hpc hsock hpass hstart hpost hconn hpos =>
        obtain ⟨lookback, hc, -⟩ := hconn
        rw [hsock, hpass] at hph
        refine ⟨[outputFrom psend p.server.buf], hpost.log, ?_, ?_⟩
        · rw [hc]
          simp only [hpass]
          exact hph.output rfl
        · rintro ⟨t, hmem, ht⟩
          rw [List.mem_singleton.mp hmem] at ht
          exact absurd rfl ht.tag_ne
      | replied t hpc hsock hpass hnew hreply hpost hafter hconn hpos =>
        rw [hsock, hpass] at hph
        refine ⟨[t], hpost.log, ?_, fun _ => by rw [hafter]; rfl⟩
        rw [hconn]
        apply hph.reply hreply.terminal
        intro exitcode fatalCode hcpc
        rw [hcpc] at hph
        obtain ⟨hint, hmem⟩ := hph.inflight
        rw [← h.client.cmd] at hint
        have hlog := hpost.log
        rw [hunrep (hclean hint hmem) hpc] at hlog
        simp [Session.sys] at hlog

theorem Linked.tick (h : Linked cmd request p) (hreq : Asks cmd request) (host : Host) (sys : Sys)
    (hclean : Clean host p (.server (.tick sys))) :
    Linked cmd request (sessionServer host p (.tick sys)) := by
  obtain ⟨mark, hw⟩ := h.windows
  obtain ⟨new, hnew, hphase, -⟩ := h.heard hreq host sys hclean
  have hfds := tick_readfds host (p.sys sys) p.server
  have hnrec : (∀ fds, p.server.pc ≠ .recv fds) → p.server.receives = false := by
    intro hno
    by_contra hr
    obtain ⟨fds, hpc, -⟩ := (receives_iff _).mp (by simpa using hr)
    exact hno fds hpc
  refine ⟨⟨_, hw.step host (.tick (p.sys sys))⟩, h.watching.step hw.flow host (.tick (p.sys sys)),
    h.client, ?_, ?_, ?_, ?_⟩
  · intro hsock
    simp only [sessionServer, servStep] at hsock ⊢
    rcases hfds with hnone | ⟨hsame, hno, -⟩ | ⟨ready, fds, hpc, hsel, -, hfd, htick⟩
    · rw [hnone] at hsock
      cases hsock
    · rw [hnrec hno]
      rw [hsame] at hsock
      exact h.ready hsock
    · rw [hnrec (by simp [hpc])]
      rw [htick] at hsock
      simp only [Pc.readfds, hfd, Bool.and_eq_true] at hsock
      have havail := hsock.1
      simp only [Session.sys] at hsel
      split at hsel
      · cases hsel
        simp only [Bool.and_eq_true, decide_eq_true_eq] at havail
        simpa using havail.2
      · rename_i hother
        exact absurd hsel (hother _)
  · intro fds hpc hlisten
    simp only [sessionServer, servStep] at hpc ⊢
    rcases hfds with hnone | ⟨-, -, hno⟩ | ⟨ready, fds', hpc', hsel, hfd, -, htick⟩
    · rw [hpc] at hnone
      simp only [Pc.readfds] at hnone
      rw [hnone] at hlisten
      cases hlisten
    · exact absurd hpc (hno fds)
    · have hacc : p.server.accepts sys = false := by simp [Server.accepts, hpc']
      rw [htick] at hpc
      cases hpc
      rw [hfd, Bool.and_eq_true] at hlisten
      have havail := hlisten.1
      simp only [Session.sys] at hsel
      split at hsel
      · cases hsel
        simp only [Bool.and_eq_true] at havail
        rw [hacc, havail.2]
        rfl
      · rename_i hother
        exact absurd hsel (hother _)
  · have hbase := h.base
    simp only [sessionServer, servStep, hnew, List.length_append]
    omega
  · simp only [sessionServer, servStep, Session.toClient, hnew]
    rw [List.drop_append_of_le_length h.base]
    exact hphase

/-- The child and its signal do not take part in the conversation. -/
theorem Linked.apart (h : Linked cmd request p) (host : Host) (i : Input)
    (hi : ∀ sys, i ≠ .tick sys) : Linked cmd request (sessionServer host p i) := by
  obtain ⟨mark, hw⟩ := h.windows
  have hw' := hw.step host i
  have hwatch := h.watching.step hw.flow host i
  cases i with
  | tick sys => exact absurd rfl (hi sys)
  | child e =>
    obtain ⟨child, pending, hs⟩ := childChange_frame e p.server
    simp only [servStep, hs] at hw' hwatch
    simp only [sessionServer, servStep, hs]
    exact ⟨⟨_, hw'⟩, hwatch, h.client, h.ready, h.listen, h.base, h.phase⟩
  | sigCHLD =>
    obtain ⟨pending, flag, hs⟩ := servSigCHLD_frame p.server
    simp only [servStep, hs] at hw' hwatch
    simp only [sessionServer, servStep, hs]
    exact ⟨⟨_, hw'⟩, hwatch, h.client, h.ready, h.listen, h.base, h.phase⟩

/-- A step of the client alone. -/
theorem Linked.clientStep (h : Linked cmd request p) {c : Client} {received : Nat}
    (hc : Serves cmd request c) (hlen : p.client.sent.length ≤ c.sent.length)
    (hphase : Phase cmd request (Pc.dead p.server.pc) p.waiting p.server.conn.sock
      p.server.conn.passing p.toClient received c.sent p.taken c.pc) :
    Linked cmd request { p with client := c, received := received } :=
  ⟨h.windows, h.watching, hc, fun hs => lt_of_lt_of_le (h.ready hs) hlen, h.listen, h.base, hphase⟩

/-- Standard input is ignored, makes the client leave, or is passed on. -/
theorem cliStdin_cases (bs : Bytes) (c : Client) :
    cliStdin bs c = c ∨
      (detaches c bs = true ∧ c.cmd.isInteract = true ∧ c.pc = .loop ∧
        cliStdin bs c = cliDisconn ErrorCode.detach 0 c) ∨
      c.cmd.isInteract = true ∧ c.pc = .loop ∧
        cliStdin bs c = cliSend (ttlvNewText Tag.input bs) c := by
  unfold cliStdin
  split
  · rename_i opts hcmd hpc
    have hint : c.cmd.isInteract = true := by rw [hcmd]; rfl
    split
    · exact .inl rfl
    · split
      · rename_i hkey
        refine .inr (.inl ⟨?_, hint, hpc, rfl⟩)
        simpa [detaches, hcmd, hpc] using hkey
      · exact .inr (.inr ⟨hint, hpc, rfl⟩)
  · exact .inl rfl

/-- Every step of either side keeps the session linked, as long as the connection lasts. -/
theorem Linked.step (h : Linked cmd request p) (hreq : Asks cmd request) (host : Host) (e : Event)
    (hclean : Clean host p e) (hlasts : e ≠ .hangup) : Linked cmd request (sessionStep host e p) := by
  cases e with
  | hangup => exact absurd rfl hlasts
  | server i =>
    cases i with
    | tick sys => exact h.tick hreq host sys hclean
    | child e => exact h.apart host (.child e) (by simp)
    | sigCHLD => exact h.apart host .sigCHLD (by simp)
  | deliver =>
    simp only [sessionStep, sessionDeliver]
    split
    · rename_i m hm
      obtain ⟨hphase, hc⟩ := h.phase.deliver h.client m hm
      exact h.clientStep hc (cliRecv_length m p.client) hphase
    · exact h
  | stdin bs =>
    simp only [sessionStep]
    rcases cliStdin_cases bs p.client with hc | ⟨hd, hint, hpc, hc⟩ | ⟨hint, hpc, hc⟩ <;> rw [hc]
    · exact h
    · have hph := h.phase
      rw [hpc] at hph
      rw [h.client.cmd] at hint
      refine h.clientStep ⟨h.client.cmd, h.client.request, h.client.bugs⟩ ?_
        (hph.detach hint (hclean hd))
      simp [cliDisconn, cliSend]
    · have hph := h.phase
      rw [hpc] at hph
      rw [h.client.cmd] at hint
      have hty := hph.typed hint (m := ttlvNewText Tag.input bs) (.inl rfl)
      rw [← hpc] at hty
      exact h.clientStep ⟨h.client.cmd, h.client.request, h.client.bugs⟩ (by simp [cliSend]) hty
  | winch row col =>
    simp only [sessionStep, cliWinch]
    split
    · rename_i hin
      have hph := h.phase
      rw [hin.2] at hph
      have hint : cmd.isInteract = true := by rw [← h.client.cmd]; exact hin.1
      have hty := hph.typed hint (m := winchMsg row col) (.inr ⟨row, col, rfl⟩)
      rw [← hin.2] at hty
      exact h.clientStep ⟨h.client.cmd, h.client.request, h.client.bugs⟩ (by simp [cliSend]) hty
    · exact h

/-! ## The lost connection -/

/-- Where the server has closed the connection and all it said is received, the client has ended. -/
theorem Phase.closed {dead passing : Bool} {out inn : List Ttlv} {received taken : Nat} {pc : CliPc}
    (h : Phase cmd request dead false false passing out received inn taken pc)
    (hheard : received = out.length) : ∃ code, pc = .exited code := by
  cases h with
  | gone | detached => exact ⟨_, rfl⟩
  | parted outs t more houts ht hmore hr | left outs more houts hmore hint hr1 hr =>
    simp only [List.length_cons, List.length_append, List.length_nil] at hheard
    omega

/-- The client of the session `q` has found that the server has ended. -/
structure Hung (q p : Session) : Prop where
  dead : Pc.dead q.server.pc = true
  heard : q.received = q.toClient.length
  waits : q.client.waits = true
  lasted : q.lost = false
  lost : p = { q with client := cliLost q.client, lost := true }

theorem cliLost_waiting {c : Client} (h : c.waits = true) :
    cliLost c = { c with pc := .exited ErrorCode.proto } := by
  cases hpc : c.pc with
  | exited code | crashed =>
    rw [Client.waits, hpc] at h
    cases h
  | hello | loop | disconn exitcode fatalCode => simp only [cliLost, hpc]

theorem Hung.client (h : Hung q p) : p.client = { q.client with pc := .exited ErrorCode.proto } := by
  rw [h.lost]
  exact cliLost_waiting h.waits

theorem Linked.hangup (h : Linked cmd request p) (hlasted : p.lost = false) :
    sessionHangup p = p ∨ Hung p (sessionHangup p) := by
  unfold sessionHangup
  split
  · rename_i hover
    simp only [Session.over, Bool.and_eq_true, decide_eq_true_eq, Bool.or_eq_true,
      Bool.not_eq_true'] at hover
    obtain ⟨⟨hwaits, hheard⟩, hdead | ⟨hwaiting, hsock⟩⟩ := hover
    · exact .inr ⟨hdead, hheard, hwaits, hlasted, rfl⟩
    · have hphase := h.phase
      rw [hwaiting, hsock] at hphase
      obtain ⟨code, hpc⟩ := hphase.closed hheard
      rw [Client.waits, hpc] at hwaits
      cases hwaits
  · exact .inl rfl

/-- What happens to the child of a server that has ended happens in both sessions. -/
theorem Hung.apart (h : Hung q p) (host : Host) (i : Input) (hi : ∀ sys, i ≠ .tick sys) :
    Hung (sessionServer host q i) (sessionServer host p i) := by
  obtain ⟨hdead, hheard, hwaits, hlasted, rfl⟩ := h
  cases i with
  | tick sys => exact absurd rfl (hi sys)
  | child e =>
    obtain ⟨child, pending, hs⟩ := childChange_frame e q.server
    simp only [sessionServer, servStep, hs]
    exact ⟨hdead, hheard, hwaits, hlasted, rfl⟩
  | sigCHLD =>
    obtain ⟨pending, flag, hs⟩ := servSigCHLD_frame q.server
    simp only [sessionServer, servStep, hs]
    exact ⟨hdead, hheard, hwaits, hlasted, rfl⟩

/-- And nothing else happens. -/
theorem Hung.still (h : Hung q p) (host : Host) (e : Event)
    (he : ∀ i, e = .server i → ∃ sys, i = .tick sys) : sessionStep host e p = p := by
  have hpc : p.client.pc = .exited ErrorCode.proto := by rw [h.client]
  have hserver : p.server = q.server := by rw [h.lost]
  have hdead : Pc.dead p.server.pc = true := by rw [hserver, h.dead]
  have hheard : p.received = p.toClient.length := by
    rw [h.lost]
    exact h.heard
  cases e with
  | server i =>
    obtain ⟨sys, rfl⟩ := he i rfl
    have haccepts : p.server.accepts sys = false := by
      unfold Server.accepts
      split
      · rename_i hat
        rw [hat] at hdead
        cases hdead
      · rfl
    have hreceives : p.server.receives = false := by
      unfold Server.receives
      split
      · rename_i hat
        rw [hat] at hdead
        cases hdead
      · rfl
    simp only [sessionStep, sessionServer, servStep, tick_dead host _ _ hdead, haccepts, hreceives,
      Bool.not_false, Bool.and_true, Bool.false_eq_true, if_false]
  | deliver =>
    simp only [sessionStep, sessionDeliver, hheard, List.getElem?_length]
  | stdin bs =>
    have hsame : cliStdin bs p.client = p.client := by
      unfold cliStdin
      split
      · rename_i hloop
        rw [hpc] at hloop
        cases hloop
      · rfl
    simp only [sessionStep, hsame]
  | winch row col =>
    have hsame : cliWinch row col p.client = p.client := by
      unfold cliWinch
      rw [if_neg]
      rintro ⟨-, hloop⟩
      rw [hpc] at hloop
      cases hloop
    simp only [sessionStep, hsame]
  | hangup =>
    have hover : p.over = false := by simp [Session.over, Client.waits, hpc]
    simp only [sessionStep, sessionHangup, hover, Bool.false_eq_true, if_false]

theorem Hung.step (h : Hung q p) (host : Host) (e : Event) :
    Hung q (sessionStep host e p) ∨ ∃ i, (∀ sys, i ≠ .tick sys) ∧ e = .server i ∧
      Hung (sessionServer host q i) (sessionStep host e p) := by
  by_cases he : ∀ i, e = .server i → ∃ sys, i = .tick sys
  · rw [h.still host e he]
    exact .inl h
  · simp only [not_forall, not_exists] at he
    obtain ⟨i, rfl, hi⟩ := he
    exact .inr ⟨i, hi, rfl, h.apart host i hi⟩

/-- A step other than `hangup` does not lose the connection. -/
theorem sessionStep_lost (host : Host) {e : Event} (hlasts : e ≠ .hangup) (p : Session) :
    (sessionStep host e p).lost = p.lost := by
  cases e with
  | server i => cases i <;> rfl
  | deliver =>
    simp only [sessionStep, sessionDeliver]
    split <;> rfl
  | stdin | winch => rfl
  | hangup => exact absurd rfl hlasts

/-- An invariant of the sessions whose connection lasts: in every session it holds now, or it held
until the client found that the server had ended. -/
theorem reaches_hung {host : Host} {ok : Session → Event → Prop} {I : Session → Prop} {p₀ : Session}
    (hlinked : ∀ p, I p → Linked cmd request p)
    (hok : ∀ p i, (∀ sys, i ≠ .tick sys) → ok p (.server i))
    (hstep : ∀ p e, I p → ok p e → e ≠ .hangup → I (sessionStep host e p))
    (h₀ : I p₀) (hlasted : p₀.lost = false) (h : Reaches (sessionStep host) ok p₀ p) :
    I p ∧ p.lost = false ∨ ∃ q, I q ∧ Hung q p := by
  apply h.invariant fun p => I p ∧ p.lost = false ∨ ∃ q, I q ∧ Hung q p
  · exact .inl ⟨h₀, hlasted⟩
  rintro p e (⟨hp, hlasted⟩ | ⟨q, hq, hhung⟩) hadmitted
  · by_cases hlasts : e = .hangup
    · subst hlasts
      obtain hsame | hhung := (hlinked p hp).hangup hlasted
      · rw [sessionStep, hsame]
        exact .inl ⟨hp, hlasted⟩
      · exact .inr ⟨p, hp, hhung⟩
    · rw [sessionStep_lost host hlasts]
      exact .inl ⟨hstep p e hp hadmitted hlasts, hlasted⟩
  · obtain hhung' | ⟨i, hi, rfl, hhung'⟩ := hhung.step host e
    · exact .inr ⟨q, hq, hhung'⟩
    · exact .inr ⟨_, hstep q (.server i) hq (hok q i hi) (by simp), hhung'⟩

end

end Sexpect.Guarantees
