import Sexpect.Guarantees.RequestsArrive

/-!
# The payload of `send`

`sendAsked` is what a command line asks for, over all its arguments, and `denoted` the
data this stands for.  `getargs` looks at the arguments up to `STRING` only,
`uptoString`, and what `-strip` leaves is the C string of the octets read.  Both show in
the payload, and nothing else does.
-/
namespace Sexpect.Guarantees
open Sexpect.Lib Sexpect.Source

/-! ## What is asked for -/

structure SendAsked where
  cstring : Bool := false
  enter : Bool := false
  strip : Bool := false
  string : Option Bytes := none
  env : Option Bytes := none
  file : Option Bytes := none
  fd : Option Int := none
  limit : Option Int := none
  deriving DecidableEq, Repr

namespace SendAsked

def flag (arg : Bytes) (a : SendAsked) : SendAsked :=
  { a with
    cstring := a.cstring || str1of arg ["-cstring", "-cstr", "-c"]
    enter := a.enter || str1of arg ["-cr", "-enter"]
    strip := a.strip || str1of arg ["-strip"] }

/-- An option with its value; the last one of its kind counts. -/
def value (arg next : Bytes) (a : SendAsked) : SendAsked :=
  if str1of arg ["-env", "-var"] then { a with env := some next }
  else if str1of arg ["-file", "-f"] then { a with file := some next }
  else if str1of arg ["-fd"] then { a with fd := (arg2uint next).toOption }
  else { a with limit := (arg2uint next).toOption }

/-- The first operand is `STRING`. -/
def operand (arg : Bytes) (a : SendAsked) : SendAsked := { a with string := a.string.or (some arg) }

end SendAsked

/-- The options of a list of arguments with their values, and `STRING`.  Behind `--`
nothing is an option. -/
def sendAsked : List Bytes → SendAsked → SendAsked
  | [], a => a
  | arg :: rest, a =>
    if sendFlag arg then sendAsked rest (a.flag arg)
    else if sendValue arg then
      match rest with
      | [] => a
      | next :: rest => sendAsked rest (a.value arg next)
    else if arg = ascii "--" then
      match rest with
      | [] => a
      | next :: _ => a.operand next
    else if isDash arg then sendAsked rest a
    else sendAsked rest (a.operand arg)

/-- The arguments up to a `STRING` that is not behind `--`. -/
def uptoString : List Bytes → List Bytes
  | [] => []
  | arg :: rest =>
    if sendFlag arg then arg :: uptoString rest
    else if sendValue arg then
      match rest with
      | [] => [arg]
      | next :: rest => arg :: next :: uptoString rest
    else if isDash arg then arg :: rest
    else [arg]

/-- The most that is read: `-limit`, or the size of the file. -/
def readLimit (env : Env) (a : SendAsked) : Nat :=
  match a.limit with
  | some n => n.toNat
  | none =>
    match a.file.bind env.stat with
    | some st => st.size
    | none => 0

/-- The octets read from `-file` or `-fd`. -/
def octetsRead (env : Env) (a : SendAsked) : Option Bytes :=
  match a.file with
  | some name =>
    (if name = ascii "-" then env.descriptor 0 else env.file name).map (·.take (readLimit env a))
  | none =>
    match a.fd with
    | some n => (env.descriptor n).map (·.take (readLimit env a))
    | none => none

/-- `STRING`, or its image with `-cstring`. -/
def textOf (cstr : Bool) (text : Bytes) : Option Bytes := if cstr then strunesc text else some text

/-- The data a command line stands for. -/
def denoted (env : Env) (a : SendAsked) : Option Bytes :=
  match a.string with
  | some text => textOf a.cstring text
  | none =>
    match a.env with
    | some var => (env.getenv var).map cstring
    | none =>
      if a.file = none ∧ a.fd = none then some []
      else (octetsRead env a).map fun octets => if a.strip then octets.rdropWhile isspace else octets

/-- The octets that `-strip` works on. -/
def octetsStripped (env : Env) (a : SendAsked) : Option Bytes :=
  if a.string = none ∧ a.strip then octetsRead env a else none

/-- The payload and the request for it. -/
def payload (enter : Bool) (data : Bytes) : Bytes := data ++ if enter then [13] else []

def sendRequest (bytes : Bytes) : Request :=
  if bytes = [] then .nothing else .message (ttlvNewRaw Tag.send bytes)

/-- The request carries what was asked for, and there is none where that is empty. -/
def SendsDenoted (env : Env) (args : List Bytes) (request : Request) : Prop :=
  ∃ data, denoted env (sendAsked args {}) = some data ∧ data.length ≤ passMaxSend ∧
    request = sendRequest (payload (sendAsked args {}).enter data)

/-! ## Escapes -/

theorem hexEscape_suffix {inp rest : Bytes} {out : UInt8} (h : hexEscape inp = some (out, rest)) :
    rest <:+ inp := by
  cases inp with
  | nil => cases h
  | cons h1 inp =>
    simp only [hexEscape] at h
    split at h
    · cases h
    · cases inp with
      | nil =>
        cases h
        exact List.nil_suffix
      | cons h2 more =>
        simp only at h
        split at h
        · cases h
          exact ⟨[h1, h2], rfl⟩
        · cases h
          exact ⟨[h1], rfl⟩

theorem octalEscape_suffix (o1 : UInt8) (inp : Bytes) : (octalEscape o1 inp).2 <:+ inp := by
  cases inp with
  | nil => exact List.suffix_rfl
  | cons o2 inp =>
    simp only [octalEscape]
    split
    · exact List.suffix_rfl
    · cases inp with
      | nil => exact List.nil_suffix
      | cons o3 more =>
        simp only
        split
        · exact ⟨[o2, o3], rfl⟩
        · exact ⟨[o2], rfl⟩

/-- An escape consumes at least the octet behind its backslash. -/
theorem strunescEscape_suffix {c out : UInt8} {inp rest : Bytes}
    (h : strunescEscape (c :: inp) = some (out, rest)) : rest <:+ inp := by
  simp only [strunescEscape] at h
  split at h
  · cases h
    exact List.suffix_rfl
  split at h
  · cases inp with
    | nil => cases h
    | cons x more =>
      simp only at h
      split at h
      · cases h
      · cases h
        exact ⟨[x], rfl⟩
  split at h
  · exact hexEscape_suffix h
  split at h
  · have hrest := octalEscape_suffix c inp
    rw [Option.some.inj h] at hrest
    exact hrest
  · cases h
    exact List.suffix_rfl

/-- Nothing gets longer, and what stays as long stays as it is. -/
theorem strunescLoop_length {n : Nat} {s u : Bytes} (h : strunescLoop n s = some u) :
    u.length ≤ s.length ∧ (u.length = s.length → u = s) := by
  induction n generalizing s u with
  | zero =>
    cases s with
    | nil =>
      cases h
      exact ⟨le_rfl, fun _ => rfl⟩
    | cons c inp => cases h
  | succ n ih =>
    cases s with
    | nil =>
      cases h
      exact ⟨le_rfl, fun _ => rfl⟩
    | cons c inp =>
      simp only [strunescLoop] at h
      split at h
      · rename_i hc
        subst hc
        cases inp with
        | nil =>
          -- a backslash at the very end stands for itself
          cases n <;> cases h <;> exact ⟨le_rfl, fun _ => rfl⟩
        | cons e more =>
          cases hesc : strunescEscape (e :: more) with
          | none =>
            rw [hesc] at h
            cases h
          | some pair =>
            obtain ⟨out, rest⟩ := pair
            rw [hesc] at h
            obtain ⟨u', hu', rfl⟩ := Option.map_eq_some_iff.mp h
            have hle := (ih hu').1
            have hsuffix := (strunescEscape_suffix hesc).length_le
            simp only [List.length_cons]
            exact ⟨by omega, fun hlen => by omega⟩
      · obtain ⟨u', hu', rfl⟩ := Option.map_eq_some_iff.mp h
        obtain ⟨hle, hsame⟩ := ih hu'
        simp only [List.length_cons]
        refine ⟨by omega, ?_⟩
        intro hlen
        rw [hsame (by omega)]

theorem eq_of_cons_eq_append {e c : UInt8} {rest : Bytes} (h : e :: rest = rest ++ [c]) : e = c := by
  induction rest with
  | nil => exact (List.cons.inj h).1
  | cons r rest ih =>
    obtain ⟨rfl, htail⟩ := List.cons.inj h
    exact ih htail

/-- A string is not its own image with a carriage return behind it: that would take one
escape of two octets which stands for a backslash and continues with the return. -/
theorem strunescLoop_ne_enter {n : Nat} {s u : Bytes} (h : strunescLoop n s = some u) :
    s ≠ u ++ [13] := by
  induction n generalizing s u with
  | zero =>
    cases s with
    | nil =>
      cases h
      exact List.cons_ne_nil _ _ |>.symm
    | cons c inp => cases h
  | succ n ih =>
    cases s with
    | nil =>
      cases h
      exact List.cons_ne_nil _ _ |>.symm
    | cons c inp =>
      simp only [strunescLoop] at h
      split at h
      · rename_i hc
        subst hc
        cases inp with
        | nil => cases n <;> cases h <;> decide
        | cons e more =>
          cases hesc : strunescEscape (e :: more) with
          | none =>
            rw [hesc] at h
            cases h
          | some pair =>
            obtain ⟨out, rest⟩ := pair
            rw [hesc] at h
            obtain ⟨u', hu', rfl⟩ := Option.map_eq_some_iff.mp h
            intro heq
            obtain ⟨hout, htail⟩ := List.cons.inj heq
            have hlen : more.length = u'.length := by
              have hlens := congrArg List.length htail
              simpa using hlens
            obtain ⟨hle, hsame⟩ := strunescLoop_length hu'
            have hsuffix := strunescEscape_suffix hesc
            obtain rfl := hsuffix.eq_of_length (by have := hsuffix.length_le; omega)
            obtain rfl := hsame hlen.symm
            obtain rfl := eq_of_cons_eq_append htail
            have hreturn : strunescEscape (13 :: u') = some (13, u') := rfl
            rw [hreturn] at hesc
            cases hesc
            exact absurd hout (by decide)
      · obtain ⟨u', hu', rfl⟩ := Option.map_eq_some_iff.mp h
        intro heq
        exact ih hu' (List.cons.inj heq).2

/-! ## `-strip` -/

/-- What is stripped of octets with a NUL still has the NUL. -/
theorem zero_mem_rdropWhile {octets : Bytes} (h : (0 : UInt8) ∈ octets) :
    (0 : UInt8) ∈ octets.rdropWhile isspace := by
  induction octets using List.reverseRecOn with
  | nil => cases h
  | append_singleton octets c ih =>
    rw [List.rdropWhile_concat]
    split
    · rename_i hspace
      obtain h | h := List.mem_append.mp h
      · exact ih h
      · obtain rfl := List.mem_singleton.mp h
        exact absurd hspace (by decide)
    · exact h

/-- The source strips the C string: the same exactly where there is no NUL. -/
theorem strRstrip_eq_iff (octets : Bytes) :
    strRstrip octets = octets.rdropWhile isspace ↔ (0 : UInt8) ∉ octets := by
  constructor
  · intro heq hmem
    have hin := zero_mem_rdropWhile hmem
    rw [← heq, strRstrip] at hin
    exact zero_not_mem_cstring octets ((List.rdropWhile_prefix _ _).mem hin)
  · intro hnot
    rw [strRstrip, cstring_of_not_mem hnot]

/-! ## What `getargs` has read -/

def SendAsked.sources (a : SendAsked) : Nat :=
  a.string.toList.length + a.env.toList.length + a.file.toList.length + a.fd.toList.length

/-- The options of the source hold what was asked for. -/
structure Holds (a : SendAsked) (st : StSend) : Prop where
  cstring : st.cstring = a.cstring
  enter : st.enter = a.enter
  strip : st.strip = a.strip
  string : st.data = a.string
  env : st.envvar = a.env
  file : st.filename = a.file
  fd : a.fd = if st.hasFd then some st.fd else none
  limit : a.limit = if st.limit = 0 then none else some st.limit
  sources : a.sources ≤ st.sources

theorem Holds.start : Holds {} {} :=
  ⟨rfl, rfl, rfl, rfl, rfl, rfl, rfl, rfl, le_rfl⟩

theorem toOption_ok {n : Int} {next : Bytes} (h : arg2uint next = .ok n) :
    (arg2uint next).toOption = some n := by
  rw [h]
  rfl

theorem Holds.flag {a : SendAsked} {st : StSend} (h : Holds a st) (arg : Bytes) :
    Holds (a.flag arg)
      { st with
        cstring := st.cstring || str1of arg ["-cstring", "-cstr", "-c"]
        enter := st.enter || str1of arg ["-cr", "-enter"]
        strip := st.strip || str1of arg ["-strip"] } where
  cstring := congrArg (· || _) h.cstring
  enter := congrArg (· || _) h.enter
  strip := congrArg (· || _) h.strip
  string := h.string
  env := h.env
  file := h.file
  fd := h.fd
  limit := h.limit
  sources := h.sources

theorem Holds.value {a : SendAsked} {st st' : StSend} {arg next : Bytes} (h : Holds a st)
    (hv : SendValue st arg next st') : Holds (a.value arg next) st' := by
  have hsources := h.sources
  cases hv with
  | env hname =>
    rw [SendAsked.value, if_pos hname]
    refine ⟨h.cstring, h.enter, h.strip, h.string, rfl, h.file, h.fd, h.limit, ?_⟩
    simp only [SendAsked.sources, Option.toList_some, List.length_singleton] at hsources ⊢
    omega
  | file hname =>
    have hother : str1of arg ["-env", "-var"] = false := str1of_others hname (by decide)
    rw [SendAsked.value, if_neg (by simp [hother]), if_pos hname]
    refine ⟨h.cstring, h.enter, h.strip, h.string, h.env, rfl, h.fd, h.limit, ?_⟩
    simp only [SendAsked.sources, Option.toList_some, List.length_singleton] at hsources ⊢
    omega
  | fd n hname hn =>
    have hother : str1of arg ["-env", "-var"] = false := str1of_others hname (by decide)
    have hother' : str1of arg ["-file", "-f"] = false := str1of_others hname (by decide)
    rw [SendAsked.value, if_neg (by simp [hother]), if_neg (by simp [hother']), if_pos hname,
      toOption_ok hn]
    refine ⟨h.cstring, h.enter, h.strip, h.string, h.env, h.file, rfl, h.limit, ?_⟩
    simp only [SendAsked.sources, Option.toList_some, List.length_singleton] at hsources ⊢
    omega
  | limit n hname hn hlo hhi =>
    have hother : str1of arg ["-env", "-var"] = false := str1of_others hname (by decide)
    have hother' : str1of arg ["-file", "-f"] = false := str1of_others hname (by decide)
    have hother'' : str1of arg ["-fd"] = false := str1of_others hname (by decide)
    rw [SendAsked.value, if_neg (by simp [hother]), if_neg (by simp [hother']),
      if_neg (by simp [hother'']), toOption_ok hn]
    refine ⟨h.cstring, h.enter, h.strip, h.string, h.env, h.file, h.fd, ?_, hsources⟩
    rw [if_neg hlo.ne']

theorem Holds.operand {a : SendAsked} {st : StSend} (h : Holds a st) (hnone : st.data = none)
    (arg : Bytes) :
    Holds (a.operand arg) { st with sources := st.sources + 1, data := some arg } := by
  have hstring : a.string = none := by rw [← h.string, hnone]
  have hsources := h.sources
  refine ⟨h.cstring, h.enter, h.strip, ?_, h.env, h.file, h.fd, h.limit, ?_⟩
  · rw [SendAsked.operand, hstring]
    rfl
  · simp only [SendAsked.operand, SendAsked.sources, hstring, Option.none_or, Option.toList_some,
      Option.toList_none, List.length_singleton, List.length_nil] at hsources ⊢
    omega

/-- The loop of `send` reads what the arguments up to `STRING` ask for. -/
theorem argLoop_send_holds {n : Nat} {args : List Bytes} (hn : args.length ≤ n) {a : SendAsked}
    {st : StSend} (hr : Holds a st) (hnone : st.data = none) {p : Parsed StSend}
    (h : argLoop sendArg n args st = .ok p) : Holds (sendAsked (uptoString args) a) p.st := by
  induction n generalizing args a st p with
  | zero =>
    obtain rfl := List.length_eq_zero_iff.mp (Nat.le_zero.mp hn)
    cases h
    exact hr
  | succ n ih =>
    cases args with
    | nil =>
      cases h
      exact hr
    | cons arg rest =>
      obtain ⟨p₁, hp, h⟩ := argLoop_cons h
      have hsend := sendArg_takes hp
      have hshort := hsend.left.length_le
      simp only [List.length_cons] at hn
      cases hsend with
      | flag _ _ hflag =>
        obtain ⟨hstop, -⟩ | ⟨-, h⟩ := h
        · cases hstop
        · simp only [uptoString.eq_def (arg :: _), sendAsked.eq_def (arg :: _), hflag, if_true]
          exact @ih _ (by omega) _ _ (hr.flag arg) hnone p h
      | value _ next rest' st' hvalue hv =>
        have hflag := (sendValue_dash hvalue).2
        have hdata : st'.data = none := by cases hv <;> exact hnone
        obtain ⟨hstop, -⟩ | ⟨-, h⟩ := h
        · cases hstop
        · simp only [uptoString.eq_def (arg :: _), sendAsked.eq_def (arg :: _), hflag, hvalue, if_true,
            Bool.false_eq_true, if_false]
          exact @ih _ (by simp only [List.length_cons] at hn; omega) _ _ (hr.value hv) hdata p h
      | dashes =>
        obtain ⟨-, rfl⟩ | ⟨hgoes, -⟩ := h
        · exact ⟨hr.cstring, hr.enter, hr.strip, hr.string, hr.env, hr.file, hr.fd, hr.limit,
            Nat.le_succ_of_le hr.sources⟩
        · cases hgoes
      | dashed next =>
        obtain ⟨-, rfl⟩ | ⟨hgoes, -⟩ := h
        · exact hr.operand hnone next
        · cases hgoes
      | word _ _ hword =>
        obtain ⟨-, rfl⟩ | ⟨hgoes, -⟩ := h
        · have hflag : sendFlag arg = false := str1of_word hword (by decide)
          have hvalue : sendValue arg = false := str1of_word hword (by decide)
          have hdashes : arg ≠ ascii "--" := by
            rintro rfl
            exact absurd hword (by decide)
          simp only [uptoString.eq_def (arg :: _), sendAsked, hflag, hvalue, hword, hdashes,
            Bool.false_eq_true, if_false]
          exact hr.operand hnone arg
        · cases hgoes

/-! ## The data -/

section

variable {env : Env} {a : SendAsked} {st : StSend} {data : Bytes}

theorem readfd_ok {available : Option Bytes} {limit : Int} (h : readfd available limit = .ok data) :
    0 < limit ∧ available.map (·.take limit.toNat) = some data := by
  unfold readfd at h
  obtain ⟨-, h⟩ | ⟨hpos, h⟩ := ite_eq_iff.mp h
  · cases h
  cases available with
  | none => cases h
  | some bytes =>
    cases h
    exact ⟨not_le.mp hpos, rfl⟩

/-- `readfile` reads at most `-limit` octets, or the size of a regular file. -/
theorem readfile_ok {name : Bytes} {limit : Int} (h : readfile env name limit = .ok data) :
    ∃ most : Int, (limit ≠ 0 → most = limit) ∧
      (limit = 0 → ∃ stat, env.stat name = some stat ∧ most = stat.size) ∧
      (if name = ascii "-" then env.descriptor 0 else env.file name).map (·.take most.toNat) =
        some data := by
  obtain ⟨most, hmost, h⟩ := bind_ok h
  refine ⟨most, ?_, ?_, ?_⟩
  · intro hlimit
    unfold fileLimit at hmost
    rw [if_neg (fun hand => hlimit hand.1), if_neg hlimit] at hmost
    cases hmost
    rfl
  · rintro rfl
    unfold fileLimit at hmost
    obtain ⟨-, hmost⟩ | ⟨-, hmost⟩ := ite_eq_iff.mp hmost
    · cases hmost
    rw [if_pos rfl] at hmost
    cases hstat : env.stat name with
    | none =>
      rw [hstat] at hmost
      cases hmost
    | some stat =>
      rw [hstat] at hmost
      obtain ⟨-, hmost⟩ | ⟨-, hmost⟩ := ite_eq_iff.mp hmost
      · cases hmost
      obtain ⟨-, hmost⟩ | ⟨-, hmost⟩ := ite_eq_iff.mp hmost
      · cases hmost
      cases hmost
      exact ⟨stat, rfl, rfl⟩
  · obtain ⟨hname, h⟩ | ⟨hname, h⟩ := ite_eq_iff.mp h
    · rw [if_pos hname]
      exact (readfd_ok h).2
    · rw [if_neg hname]
      cases hfile : env.file name with
      | none =>
        rw [hfile] at h
        cases h
      | some bytes =>
        rw [hfile] at h
        exact (readfd_ok h).2

/-- Where there is neither `STRING` nor a variable, the source reads the octets asked
for. -/
theorem sendSource_read (hr : Holds a st) (hstring : a.string = none) (henv : a.env = none)
    (hsource : ¬ (a.file = none ∧ a.fd = none)) (h : sendSource env st = .ok data) :
    octetsRead env a = some data := by
  unfold sendSource at h
  rw [hr.string, hstring, hr.env, henv] at h
  unfold octetsRead readLimit
  cases hfile : a.file with
  | some name =>
    rw [hr.file, hfile] at h
    obtain ⟨most, hgiven, hsize, hread⟩ := readfile_ok h
    by_cases hlimit : st.limit = 0
    · obtain ⟨stat, hstat, rfl⟩ := hsize hlimit
      rw [hr.limit, if_pos hlimit]
      simp only [Option.bind_some, hstat]
      simpa using hread
    · rw [hr.limit, if_neg hlimit]
      rw [hgiven hlimit] at hread
      exact hread
  | none =>
    rw [hr.file, hfile] at h
    have hfd : st.hasFd = true := by
      by_contra hnot
      have hnone := hr.fd
      rw [if_neg hnot] at hnone
      exact hsource ⟨hfile, hnone⟩
    obtain ⟨-, h⟩ | ⟨hnot, -⟩ := ite_eq_iff.mp h
    · obtain ⟨-, h⟩ | ⟨hpos, h⟩ := ite_eq_iff.mp h
      · cases h
      have hlimit : st.limit ≠ 0 := by omega
      rw [hr.fd, if_pos hfd, hr.limit, if_neg hlimit]
      exact (readfd_ok h).2
    · exact absurd hfd hnot

/-- With `STRING` or a variable nothing is read, and `-strip` is refused. -/
theorem SendAsked.sources_one (hone : a.sources ≤ 1) (h : a.string ≠ none ∨ a.env ≠ none) :
    a.file = none ∧ a.fd = none := by
  obtain ⟨cstring, enter, strip, string, var, file, fd, limit⟩ := a
  cases file <;> cases fd <;> cases string <;> cases var <;> simp_all [SendAsked.sources]

theorem sendSource_denoted (hr : Holds a st) (hunread : a.file = none ∧ a.fd = none)
    (h : sendSource env st = .ok data) : denoted env a = some data := by
  unfold sendSource at h
  unfold denoted
  rw [hr.string, hr.cstring, hr.env, hr.file, hunread.1] at h
  cases hstring : a.string with
  | some text =>
    rw [hstring] at h
    obtain ⟨hcstring, h⟩ | ⟨hcstring, h⟩ := ite_eq_iff.mp h
    · simp only [textOf, hcstring, if_true]
      cases hunesc : strunesc text with
      | none =>
        rw [hunesc] at h
        cases h
      | some out =>
        rw [hunesc] at h
        cases h
        rfl
    · cases h
      exact if_neg hcstring
  | none =>
    rw [hstring] at h
    cases henv : a.env with
    | some var =>
      rw [henv] at h
      simp only
      cases hvalue : env.getenv var with
      | none =>
        simp only [hvalue] at h
        cases h
      | some value =>
        simp only [hvalue] at h
        cases h
        rfl
    | none =>
      rw [henv] at h
      have hfd : ¬ st.hasFd = true := by
        intro hyes
        have hsome := hr.fd
        rw [if_pos hyes, hunread.2] at hsome
        cases hsome
      obtain ⟨hyes, -⟩ | ⟨-, h⟩ := ite_eq_iff.mp h
      · exact absurd hyes hfd
      · cases h
        exact if_pos hunread

/-- The source's data is what the arguments it has read denote, but for the octets behind
a NUL that `-strip` drops. -/
theorem sendData_denoted (hr : Holds a st) (h : sendData env st = .ok data) :
    data.length ≤ passMaxSend ∧
      (octetsStripped env a = none ∧ denoted env a = some data ∨
        ∃ octets, octetsStripped env a = some octets ∧
          denoted env a = some (octets.rdropWhile isspace) ∧ data = strRstrip octets) := by
  unfold sendData at h
  obtain ⟨-, h⟩ | ⟨hsources, h⟩ := ite_eq_iff.mp h
  · cases h
  obtain ⟨-, h⟩ | ⟨-, h⟩ := ite_eq_iff.mp h
  · cases h
  obtain ⟨-, h⟩ | ⟨hstrip, h⟩ := ite_eq_iff.mp h
  · cases h
  obtain ⟨octets, hsource, h⟩ := bind_ok h
  obtain ⟨-, h⟩ | ⟨hlen, h⟩ := ite_eq_iff.mp h
  · cases h
  cases h
  refine ⟨not_lt.mp hlen, ?_⟩
  have hone := le_trans hr.sources (not_lt.mp hsources)
  have hfd : st.hasFd = a.fd.isSome := by
    rw [hr.fd]
    split <;> simp_all
  rw [hr.file, hfd, hr.strip]
  rw [hr.file, hfd, hr.strip] at hstrip
  by_cases hunread : a.file = none ∧ a.fd = none
  · -- nothing is read, so `-strip` was refused
    have hnostrip : a.strip = false := by
      rw [← Bool.not_eq_true]
      exact fun hyes => hstrip ⟨hyes, by simp [hunread]⟩
    refine .inl ⟨?_, ?_⟩
    · simp [octetsStripped, hnostrip]
    · rw [if_neg (by simp [hnostrip])]
      exact sendSource_denoted hr hunread hsource
  · have hread : a.file.isSome = true ∨ a.fd.isSome = true := by
      by_contra hneither
      simp only [not_or, Option.isSome_iff_ne_none, not_not] at hneither
      exact hunread hneither
    have hnone : a.string = none ∧ a.env = none := by
      by_contra hnot
      exact hunread (SendAsked.sources_one hone (not_and_or.mp hnot))
    have hoctets := sendSource_read hr hnone.1 hnone.2 hunread hsource
    cases hyes : a.strip with
    | false =>
      refine .inl ⟨by simp [octetsStripped, hyes], ?_⟩
      rw [if_neg (fun hboth => nomatch hboth.2)]
      simp only [denoted, hnone.1, hnone.2, if_neg hunread, hoctets, hyes]
      rfl
    | true =>
      refine .inr ⟨octets, by simp [octetsStripped, hnone.1, hyes, hoctets], ?_, ?_⟩
      · simp only [denoted, hnone.1, hnone.2, if_neg hunread, hoctets, hyes]
        rfl
      · rw [if_pos ⟨hread, rfl⟩]

end

/-! ## Behind `STRING` -/

/-- More arguments ask for more. -/
structure Grows (a b : SendAsked) : Prop where
  enter : a.enter = true → b.enter = true
  cstring : a.cstring = true → b.cstring = true
  string : ∀ text, a.string = some text → b.string = some text

theorem Grows.refl (a : SendAsked) : Grows a a := ⟨id, id, fun _ => id⟩

theorem Grows.trans {a b c : SendAsked} (h : Grows a b) (h' : Grows b c) : Grows a c :=
  ⟨h'.enter ∘ h.enter, h'.cstring ∘ h.cstring, fun text htext => h'.string text (h.string text htext)⟩

theorem grows_flag (a : SendAsked) (arg : Bytes) : Grows a (a.flag arg) := by
  refine ⟨?_, ?_, fun _ => id⟩
  · intro h
    simp [SendAsked.flag, h]
  · intro h
    simp [SendAsked.flag, h]

theorem grows_value (a : SendAsked) (arg next : Bytes) : Grows a (a.value arg next) := by
  unfold SendAsked.value
  repeat' split
  all_goals exact ⟨id, id, fun _ => id⟩

theorem grows_operand (a : SendAsked) (arg : Bytes) : Grows a (a.operand arg) := by
  refine ⟨id, id, ?_⟩
  intro text htext
  simp [SendAsked.operand, htext]

theorem grows_sendAsked (args : List Bytes) (a : SendAsked) : Grows a (sendAsked args a) := by
  fun_induction sendAsked args a with
  | case1 a => exact .refl a
  | case2 arg rest a _ ih => exact (grows_flag a arg).trans ih
  | case3 arg a => exact .refl a
  | case4 arg a _ _ next rest ih => exact (grows_value a arg next).trans ih
  | case5 a => exact .refl a
  | case6 a next => exact grows_operand a next
  | case7 arg rest a _ _ _ _ ih => exact ih
  | case8 arg rest a _ _ _ _ ih => exact (grows_operand a arg).trans ih

/-- Either all arguments are looked at, or `STRING` has been found. -/
theorem sendAsked_upto (args : List Bytes) (a : SendAsked) :
    uptoString args = args ∨ ∃ text, (sendAsked (uptoString args) a).string = some text ∧
      Grows (sendAsked (uptoString args) a) (sendAsked args a) := by
  fun_induction uptoString args generalizing a with
  | case1 => exact .inl rfl
  | case2 arg rest hflag ih =>
    simp only [sendAsked.eq_def (arg :: _), hflag, if_true]
    obtain hall | hfound := ih (a.flag arg)
    · exact .inl (by rw [hall])
    · exact .inr hfound
  | case3 => exact .inl rfl
  | case4 arg hflag hvalue next rest ih =>
    simp only [sendAsked.eq_def (arg :: _), hflag, hvalue, if_true, Bool.false_eq_true, if_false]
    obtain hall | hfound := ih (a.value arg next)
    · exact .inl (by rw [hall])
    · exact .inr hfound
  | case5 => exact .inl rfl
  | case6 arg rest hflag hvalue hdash =>
    have hdashes : arg ≠ ascii "--" := by
      rintro rfl
      exact hdash (by decide)
    simp only [sendAsked.eq_def (arg :: _), hflag, hvalue, hdash, hdashes, Bool.false_eq_true, if_false]
    refine .inr ⟨a.string.getD arg, ?_, grows_sendAsked rest (a.operand arg)⟩
    cases hstring : a.string <;> simp [sendAsked, SendAsked.operand, hstring]

theorem value_string (a : SendAsked) (arg next : Bytes) : (a.value arg next).string = a.string := by
  unfold SendAsked.value
  repeat' split
  all_goals rfl

theorem operand_string {a : SendAsked} {arg text : Bytes} (h : (a.operand arg).string = some text) :
    a.string = some text ∨ text = arg := by
  cases hstring : a.string with
  | none =>
    simp only [SendAsked.operand, hstring, Option.none_or, Option.some.injEq] at h
    exact .inr h.symm
  | some other =>
    simp only [SendAsked.operand, hstring, Option.some_or] at h
    exact .inl h

/-- `STRING` is one of the arguments. -/
theorem sendAsked_string_mem {args : List Bytes} {a : SendAsked} {text : Bytes}
    (h : (sendAsked args a).string = some text) : a.string = some text ∨ text ∈ args := by
  fun_induction sendAsked args a with
  | case1 a => exact .inl h
  | case2 arg rest a _ ih => exact (ih h).imp id (List.mem_cons_of_mem _)
  | case3 arg a => exact .inl h
  | case4 arg a _ _ next rest ih =>
    obtain hstring | hmem := ih h
    · rw [value_string] at hstring
      exact .inl hstring
    · exact .inr (by simp [hmem])
  | case5 a => exact .inl h
  | case6 a next =>
    obtain hstring | rfl := operand_string h
    · exact .inl hstring
    · exact .inr (by simp)
  | case7 arg rest a _ _ _ _ ih => exact (ih h).imp id (List.mem_cons_of_mem _)
  | case8 arg rest a _ _ _ _ ih =>
    obtain hstring | hmem := ih h
    · obtain hstring | rfl := operand_string hstring
      · exact .inl hstring
      · exact .inr (by simp)
    · exact .inr (by simp [hmem])

/-! ## The request -/

theorem sendRequest_inj {x y : Bytes} (h : sendRequest x = sendRequest y) : x = y := by
  unfold sendRequest at h
  split at h <;> split at h
  · rename_i hx hy
    rw [hx, hy]
  · cases h
  · cases h
  · have hnode := Request.message.inj h
    simp only [ttlvNewRaw, ttlvNew, Ttlv.node.injEq, TtlvValue.raw.injEq] at hnode
    exact hnode.2.2.1

theorem payload_inj {enter : Bool} {x y : Bytes} (h : payload enter x = payload enter y) : x = y :=
  List.append_cancel_right h

theorem cliMain_send (tty enter : Bool) (data : Bytes) :
    cliMain tty (.send data enter) = sendRequest (payload enter data) := by
  cases enter with
  | true =>
    have hne : data ++ [13] ≠ [] := by simp
    simp only [cliMain, payload, sendRequest, if_true, if_neg hne]
  | false =>
    simp only [cliMain, payload, sendRequest, Bool.false_eq_true, if_false, List.append_nil]
    by_cases hdata : data = [] <;> simp [hdata]

/-- The options and the data behind an accepted `send`. -/
theorem getargs_send {env : Env} {argv : List Bytes} {g : GlobalOpts} {args : List Bytes}
    (hsend : globalArgs argv {} = .ok (g, some (.send, args))) {cmd : Cmd} {subs : List Bytes}
    (h : getargs env argv = .ok (.command cmd subs)) :
    ∃ st data, Holds (sendAsked (uptoString args) {}) st ∧ sendData env st = .ok data ∧
      cmd = .send data st.enter := by
  obtain ⟨g', sub, args', p, hglobal, hsub, hcheck⟩ := getargs_ok h
  rw [hsend] at hglobal
  cases hglobal
  obtain ⟨q, hq, rfl⟩ := walk_ok hsub
  obtain ⟨data, hdata, hcmd⟩ := bind_ok hcheck
  cases hcmd
  exact ⟨q.st, data, argLoop_send_holds le_rfl Holds.start rfl hq, hdata, rfl⟩

/-- The command line is seen as a whole: `-strip` meets no NUL, and behind a `STRING`
without `--` there is no `-enter` that is not in front of it too, and no such `-cstring`
unless `STRING` is its own image. -/
structure SeenWhole (env : Env) (args : List Bytes) : Prop where
  strip : ∀ octets, octetsStripped env (sendAsked args {}) = some octets → (0 : UInt8) ∉ octets
  enter : (sendAsked args {}).enter = (sendAsked (uptoString args) {}).enter
  cstring : (sendAsked args {}).cstring = (sendAsked (uptoString args) {}).cstring ∨
    ∃ text, (sendAsked args {}).string = some text ∧ strunesc text = some text

/-- All arguments are looked at. -/
theorem sendsDenoted_all {env : Env} {args : List Bytes} (hall : uptoString args = args) {st : StSend}
    (hr : Holds (sendAsked args {}) st) {data : Bytes} (hdata : sendData env st = .ok data) :
    SendsDenoted env args (sendRequest (payload st.enter data)) ↔ SeenWhole env args := by
  obtain ⟨hlen, hcase⟩ := sendData_denoted hr hdata
  rw [hr.enter]
  have hwhole : SeenWhole env args ↔
      ∀ octets, octetsStripped env (sendAsked args {}) = some octets → (0 : UInt8) ∉ octets := by
    refine ⟨fun h => h.strip, fun h => ⟨h, ?_, .inl ?_⟩⟩
    · rw [hall]
    · rw [hall]
  rw [hwhole]
  obtain ⟨hnone, hden⟩ | ⟨octets, hsome, hden, rfl⟩ := hcase
  · refine ⟨fun _ octets hoctets => ?_, fun _ => ⟨data, hden, hlen, rfl⟩⟩
    rw [hnone] at hoctets
    cases hoctets
  · constructor
    · rintro ⟨d, hd, -, hreq⟩ octets' hoctets'
      rw [hsome] at hoctets'
      rw [hden] at hd
      cases hoctets'
      cases hd
      exact (strRstrip_eq_iff octets).mp (payload_inj (sendRequest_inj hreq))
    · intro hclean
      have heq := (strRstrip_eq_iff octets).mpr (hclean octets hsome)
      rw [heq] at hlen ⊢
      exact ⟨_, hden, hlen, rfl⟩

theorem strunesc_ne_enter {text out : Bytes} (hclean : (0 : UInt8) ∉ text)
    (h : strunesc text = some out) : text ≠ out ++ [13] := by
  rw [strunesc, cstring_of_not_mem hclean] at h
  exact strunescLoop_ne_enter h

theorem textOf_fixed {text : Bytes} (h : strunesc text = some text) (cstr : Bool) :
    textOf cstr text = some text := by
  cases cstr with
  | true => exact h
  | false => rfl

/-- Two readings of `STRING`, the second with more options, give one payload only if the
options make no difference. -/
theorem payload_eq_iff {text data d : Bytes} (hclean : (0 : UInt8) ∉ text)
    {enter enter' cstr cstr' : Bool} (henter : enter = true → enter' = true)
    (hcstr : cstr = true → cstr' = true) (hdata : textOf cstr text = some data)
    (hd : textOf cstr' text = some d) :
    payload enter data = payload enter' d ↔
      enter' = enter ∧ (cstr' = cstr ∨ strunesc text = some text) := by
  constructor
  · intro heq
    by_cases hsame : cstr' = cstr
    · -- the same data, so the same end
      subst hsame
      rw [hdata] at hd
      cases hd
      refine ⟨?_, .inl rfl⟩
      have hlen := congrArg List.length heq
      cases enter <;> cases enter' <;> simp_all [payload]
    · have hoff : cstr = false ∧ cstr' = true := by
        cases cstr <;> cases cstr' <;> simp_all
      obtain ⟨rfl, rfl⟩ := hoff
      cases hdata
      have hd : strunesc text = some d := hd
      cases hend : enter with
      | true =>
        rw [hend, henter hend] at heq
        obtain rfl := payload_inj heq
        exact ⟨henter hend, .inr hd⟩
      | false =>
        cases hend' : enter' with
        | false =>
          rw [hend, hend'] at heq
          obtain rfl := payload_inj heq
          exact ⟨rfl, .inr hd⟩
        | true =>
          rw [hend, hend'] at heq
          simp only [payload, if_true, Bool.false_eq_true, if_false, List.append_nil] at heq
          exact absurd heq (strunesc_ne_enter hclean hd)
  · rintro ⟨rfl, rfl | hself⟩
    · rw [hdata] at hd
      cases hd
      rfl
    · rw [textOf_fixed hself] at hdata hd
      cases hdata
      cases hd
      rfl

/-- `STRING` was found, with or without arguments behind it. -/
theorem sendsDenoted_string {env : Env} {args : List Bytes} {text : Bytes}
    (hclean : (0 : UInt8) ∉ text) (htext : (sendAsked (uptoString args) {}).string = some text)
    (hgrows : Grows (sendAsked (uptoString args) {}) (sendAsked args {})) {st : StSend}
    (hr : Holds (sendAsked (uptoString args) {}) st) {data : Bytes}
    (hdata : sendData env st = .ok data) :
    SendsDenoted env args (sendRequest (payload st.enter data)) ↔ SeenWhole env args := by
  obtain ⟨hlen, hcase⟩ := sendData_denoted hr hdata
  have htext' := hgrows.string text htext
  have hread : textOf (sendAsked (uptoString args) {}).cstring text = some data := by
    obtain ⟨-, hden⟩ | ⟨octets, hsome, -⟩ := hcase
    · simpa only [denoted, htext] using hden
    · rw [octetsStripped, if_neg (by simp [htext])] at hsome
      cases hsome
  have hwhole : denoted env (sendAsked args {}) = textOf (sendAsked args {}).cstring text := by
    simp only [denoted, htext']
  rw [hr.enter]
  constructor
  · rintro ⟨d, hd, -, hreq⟩
    rw [hwhole] at hd
    obtain ⟨henter, hcstring⟩ :=
      (payload_eq_iff hclean hgrows.enter hgrows.cstring hread hd).mp (sendRequest_inj hreq)
    refine ⟨?_, henter, hcstring.imp id fun hself => ⟨text, htext', hself⟩⟩
    intro octets hoctets
    rw [octetsStripped, if_neg (by simp [htext'])] at hoctets
    cases hoctets
  · rintro ⟨-, henter, hcstring⟩
    have hself : (sendAsked args {}).cstring = (sendAsked (uptoString args) {}).cstring ∨
        strunesc text = some text := by
      refine hcstring.imp id ?_
      rintro ⟨text', heq, hself⟩
      rw [htext'] at heq
      cases heq
      exact hself
    -- either reading gives the data that was sent
    have hd : textOf (sendAsked args {}).cstring text = some data := by
      obtain hsame | hself := hself
      · rw [hsame]
        exact hread
      · rw [textOf_fixed hself] at hread ⊢
        exact hread
    exact ⟨data, hwhole.trans hd, hlen, by rw [henter]⟩

/-- `send` transmits what its command line denotes exactly where the line is seen as a
whole. -/
theorem sendsDenoted_iff (env : Env) (argv : List Bytes) (hargv : CStrings argv) (g : GlobalOpts)
    (args : List Bytes) (hsend : globalArgs argv {} = .ok (g, some (.send, args))) (cmd : Cmd)
    (subs : List Bytes) (haccept : getargs env argv = .ok (.command cmd subs)) (tty : Bool) :
    SendsDenoted env args (cliMain tty cmd) ↔ SeenWhole env args := by
  obtain ⟨st, data, hr, hdata, rfl⟩ := getargs_send hsend haccept
  rw [cliMain_send]
  obtain hall | ⟨text, htext, hgrows⟩ := sendAsked_upto args {}
  · rw [hall] at hr
    exact sendsDenoted_all hall hr hdata
  · have hclean : (0 : UInt8) ∉ text := by
      obtain habsurd | hmem := sendAsked_string_mem (hgrows.string text htext)
      · cases habsurd
      · exact hargv text (globalArgs_mem hsend text hmem)
    exact sendsDenoted_string hclean htext hgrows hr hdata

/-- An environment in which `octets` can be read from descriptor 3. -/
def pipeEnv (octets : Bytes) : Env :=
  { bareEnv with descriptor := fun fd => if fd = 3 then some octets else none }

theorem sendsDenoted_pipe :
    SendsDenoted (pipeEnv (ascii "ls \n")) (["-fd", "3", "-limit", "9", "-strip", "-cr"].map ascii)
      (cliMain false (.send (ascii "ls") true)) := by
  have hargv : CStrings (["send", "-fd", "3", "-limit", "9", "-strip", "-cr"].map ascii) := by
    unfold CStrings
    decide
  refine (sendsDenoted_iff (pipeEnv (ascii "ls \n")) _ hargv {} _ (by decide) _ [] (by decide)
    false).mpr ⟨?_, by decide, by decide⟩
  intro octets hoctets
  have hread : octetsStripped (pipeEnv (ascii "ls \n"))
      (sendAsked (["-fd", "3", "-limit", "9", "-strip", "-cr"].map ascii) {}) =
      some (ascii "ls \n") := by decide
  rw [hread] at hoctets
  cases hoctets
  decide

/-- `-strip` of three octets with a NUL in the middle sends the first. -/
theorem strip_drops_octets :
    getargs (pipeEnv [97, 0, 98]) (["send", "-fd", "3", "-limit", "9", "-strip"].map ascii) =
        .ok (.command (.send [97] false) []) ∧
      denoted (pipeEnv [97, 0, 98])
        (sendAsked (["-fd", "3", "-limit", "9", "-strip"].map ascii) {}) = some [97, 0, 98] ∧
      ¬ SendsDenoted (pipeEnv [97, 0, 98]) (["-fd", "3", "-limit", "9", "-strip"].map ascii)
        (cliMain false (.send [97] false)) := by
  have hden : denoted (pipeEnv [97, 0, 98])
      (sendAsked (["-fd", "3", "-limit", "9", "-strip"].map ascii) {}) = some [97, 0, 98] := by decide
  refine ⟨by decide, hden, ?_⟩
  rintro ⟨data, hdata, -, hrequest⟩
  rw [hden] at hdata
  cases hdata
  exact absurd hrequest (by decide)

end Sexpect.Guarantees
