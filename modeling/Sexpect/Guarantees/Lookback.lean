import Sexpect.Lib.Lines
import Sexpect.Guarantees.ExpectAssertion
import Sexpect.Guarantees.WireFormat

/-!
# What `-lookback` shows

`serv_pass` counts newlines backwards through the retained output to find where it
starts to send.  With enough of them that is the start of the last lines, as `tail`
has it, or the start of the line with the first unsent octet when that comes before.
-/
namespace Sexpect.Guarantees
open Sexpect.Lib Sexpect.Source

/-- The octets still in the raw buffer. -/
def retained (b : Buffers) : Bytes := b.rawbuf.take (b.rawnew + b.newcnt)

/-- The old part of them: what was sent already. -/
def sentPart (b : Buffers) : Bytes := (retained b).take b.rawnew

/-- The newlines to look back over for `n` lines. -/
def lookbackLines (n : Nat) (b : Buffers) : Nat :=
  n + if (retained b).getLast? = some newline then 1 else 0

/-- The addition of line 774 overflows. -/
def Overflows (n : Nat) (b : Buffers) : Prop :=
  n = 2 ^ 31 - 1 ∧ (retained b).getLast? = some newline

/-! ## Counting backwards -/

/-- The loop stops at a newline that is the last one it needs, or finds too few. -/
theorem scanBack_spec (rawbuf : Bytes) (k i found : Nat) (hk : found < k) :
    (found + (rawbuf.take i).count newline < k ∧
        scanBack rawbuf k i found = (found + (rawbuf.take i).count newline, none)) ∨
      ∃ before after, rawbuf.take i = before ++ newline :: after ∧
        found + after.count newline + 1 = k ∧ scanBack rawbuf k i found = (k, some before.length) := by
  induction i generalizing found with
  | zero => exact .inl ⟨by simpa using hk, by simp [scanBack]⟩
  | succ i ih =>
    cases hcell : rawbuf[i]? with
    | none =>
      have hlen : rawbuf.length ≤ i := by simpa using hcell
      have htake : rawbuf.take (i + 1) = rawbuf.take i := by
        rw [List.take_of_length_le (by omega), List.take_of_length_le hlen]
      have hscan : scanBack rawbuf k (i + 1) found = scanBack rawbuf k i found := by
        simp [scanBack, hcell]
      rw [htake, hscan]
      exact ih found hk
    | some c =>
      have hlt : i < rawbuf.length := (List.getElem?_eq_some_iff.mp hcell).1
      have htake : rawbuf.take (i + 1) = rawbuf.take i ++ [c] := by
        rw [List.take_add_one, hcell]
        rfl
      have hbefore : (rawbuf.take i).length = i := List.length_take_of_le (by omega)
      by_cases hc : c = newline
      · subst hc
        by_cases hstop : k ≤ found + 1
        · refine .inr ⟨rawbuf.take i, [], htake, by simp; omega, ?_⟩
          rw [scanBack, if_pos hcell, if_pos (by omega), hbefore]
          simp
          omega
        · have hscan : scanBack rawbuf k (i + 1) found = scanBack rawbuf k i (found + 1) := by
            rw [scanBack, if_pos hcell, if_neg (by omega)]
          rw [htake, hscan]
          obtain ⟨hfew, heq⟩ | ⟨before, after, hsplit, hcount, heq⟩ := ih (found + 1) (by omega)
          · refine .inl ⟨?_, ?_⟩
            · rw [List.count_append, List.count_singleton_self]
              omega
            · rw [heq, List.count_append, List.count_singleton_self]
              congr 1
              omega
          · refine .inr ⟨before, after ++ [newline], by simp [hsplit], ?_, heq⟩
            rw [List.count_append, List.count_singleton_self]
            omega
      · have hscan : scanBack rawbuf k (i + 1) found = scanBack rawbuf k i found := by
          rw [scanBack, if_neg (by rw [hcell]; simpa using hc)]
        have hzero : [c].count newline = 0 := by simp [hc]
        rw [htake, hscan]
        obtain ⟨hfew, heq⟩ | ⟨before, after, hsplit, hcount, heq⟩ := ih found hk
        · refine .inl ⟨?_, ?_⟩
          · rw [List.count_append, hzero]
            omega
          · rw [heq, List.count_append, hzero]
            rfl
        · refine .inr ⟨before, after ++ [c], by simp [hsplit], ?_, heq⟩
          rw [List.count_append, hzero]
          omega

/-- Without a positive number to reach the loop stops at the last newline. -/
theorem scanBack_nonpos (rawbuf : Bytes) (lookback : Int) (h : lookback ≤ 0) (i found : Nat) :
    scanBack rawbuf lookback i found = scanBack rawbuf 1 i found := by
  induction i generalizing found with
  | zero => rfl
  | succ i ih =>
    rw [scanBack, scanBack, ih, ih]
    split
    · rw [if_pos (by omega), if_pos (by omega)]
    · rfl

/-- The nearest newline before an offset. -/
theorem newlineBefore_spec (rawbuf : Bytes) (i : Nat) :
    (newline ∉ rawbuf.take i ∧ newlineBefore rawbuf i = none) ∨
      ∃ before after, rawbuf.take i = before ++ newline :: after ∧ newline ∉ after ∧
        newlineBefore rawbuf i = some before.length := by
  obtain ⟨hfew, heq⟩ | ⟨before, after, hsplit, hcount, heq⟩ := scanBack_spec rawbuf 1 i 0 (by omega)
  · refine .inl ⟨?_, ?_⟩
    · rw [← List.count_eq_zero]
      omega
    · exact congrArg Prod.snd heq
  · refine .inr ⟨before, after, hsplit, ?_, congrArg Prod.snd heq⟩
    rw [← List.count_eq_zero]
    omega

/-! ## Where the output starts -/

section

variable {stream : Bytes} {b : Buffers}

theorem length_retained (h : RawWindow stream b) :
    (retained b).length = b.rawnew + b.newcnt := by
  have hsize := h.size
  have hfits := h.fits
  exact List.length_take_of_le (by omega)

theorem sentPart_eq (b : Buffers) : sentPart b = b.rawbuf.take b.rawnew := by
  rw [sentPart, retained, List.take_take, Nat.min_eq_left (by omega)]

/-- The test of line 773, on the retained octets. -/
theorem ends_in_newline (h : RawWindow stream b) :
    (b.ntotal > 0 ∧ b.rawbuf[b.rawnew + b.newcnt - 1]? = some newline) ↔
      (retained b).getLast? = some newline := by
  have htotal := h.total
  have hold := h.old
  have hmax := maxOldData_eq
  have hlen := length_retained h
  rw [List.getLast?_eq_getElem?, hlen, retained, List.getElem?_take]
  by_cases hempty : b.rawnew + b.newcnt = 0
  · have hzero : ¬ b.ntotal > 0 := by omega
    simp [hempty, hzero]
  · have hpos : b.ntotal > 0 := by omega
    simp [hpos, Nat.pos_of_ne_zero hempty]

/-- The number the source compares with, unless its addition overflows. -/
theorem lookbackStart_eq (h : RawWindow stream b) (n : Nat) (hn : n < 2 ^ 31)
    (hover : ¬ Overflows n b) :
    lookbackStart n b =
      match scanBack b.rawbuf (lookbackLines n b : Nat) (b.rawnew + b.newcnt) 0 with
      | (newlines, stop) =>
        if newlines = 0 then some 0
        else if (newlines : Int) < (lookbackLines n b : Nat) then
          if b.rawoffset = 0 then some 0
          else
            match strchr b.rawbuf newline with
            | none => none
            | some pc => if pc < b.rawnew then some (pc + 1) else some b.rawnew
        else
          match stop with
          | none => some b.rawnew
          | some pc =>
            if pc < b.rawnew then some (pc + 1)
            else
              match newlineBefore b.rawbuf b.rawnew with
              | some pc => some (pc + 1)
              | none => if b.rawoffset = 0 then some 0 else some b.rawnew := by
  have hends := ends_in_newline h
  have hlook : (if b.ntotal > 0 ∧ b.rawbuf[b.rawnew + b.newcnt - 1]? = some newline then
      toInt32 ((n : Int) + 1) else (n : Int)) = (lookbackLines n b : Nat) := by
    rw [lookbackLines]
    by_cases hlast : (retained b).getLast? = some newline
    · have hlt : n ≠ 2 ^ 31 - 1 := fun hn => hover ⟨hn, hlast⟩
      rw [if_pos (hends.mpr hlast), if_pos hlast, toInt32_eq _ (by omega) (by omega)]
      omega
    · rw [if_neg (fun hc => hlast (hends.mp hc)), if_neg hlast]
      rfl
  rw [← hlook]
  rfl

/-- The line with the first unsent octet. -/
def unsentLine (b : Buffers) : Nat :=
  if 0 < b.rawoffset ∧ newline ∉ sentPart b then b.rawnew else lineStart newline (sentPart b)

theorem newlineBefore_unsentLine (b : Buffers) :
    (match newlineBefore b.rawbuf b.rawnew with
      | some pc => some (pc + 1)
      | none => if b.rawoffset = 0 then some 0 else some b.rawnew) = some (unsentLine b) := by
  rw [unsentLine, sentPart_eq]
  obtain ⟨hnone, heq⟩ | ⟨before, after, hsplit, hafter, heq⟩ :=
    newlineBefore_spec b.rawbuf b.rawnew
  · rw [heq, lineStart_of_not_mem newline _ hnone]
    by_cases hoff : b.rawoffset = 0
    · simp [hoff]
    · simp [hoff, hnone, Nat.pos_of_ne_zero hoff]
  · have hin : newline ∈ before ++ newline :: after := by simp
    rw [heq, hsplit, lineStart_append newline before after hafter]
    simp only [hin, not_true_eq_false, and_false, if_false]

/-- With newlines enough, the source starts behind the last one it needs or, when that
is too late, at the line with the first unsent octet. -/
theorem lookbackStart_enough (h : RawWindow stream b) (n : Nat) (hn : 1 ≤ n)
    (hcount : lookbackLines n b ≤ (retained b).count newline) :
    ∃ before after, retained b = before ++ newline :: after ∧
      after.count newline + 1 = lookbackLines n b ∧
      lookbackStart n b = some (if before.length < b.rawnew then before.length + 1
        else unsentLine b) := by
  have hlen := length_retained h
  have hfits := h.fits
  have hsize := sizeRawBuf_eq
  have hmost : (retained b).count newline ≤ (retained b).length := List.count_le_length
  have hmore : n ≤ lookbackLines n b := Nat.le_add_right _ _
  rw [lookbackStart_eq h n (by omega) (fun hover => by have := hover.1; omega)]
  obtain ⟨hfew, -⟩ | ⟨before, after, hsplit, hk, heq⟩ :=
    scanBack_spec b.rawbuf (lookbackLines n b) (b.rawnew + b.newcnt) 0 (by omega)
  · have : (retained b).count newline = (b.rawbuf.take (b.rawnew + b.newcnt)).count newline := rfl
    omega
  · refine ⟨before, after, hsplit, by omega, ?_⟩
    rw [heq]
    simp only [if_neg (by omega : ¬ lookbackLines n b = 0), lt_irrefl, if_false]
    rw [newlineBefore_unsentLine]
    split
    · rfl
    · rfl

theorem behind_ne_nil (b : Buffers) (n : Nat) (hn : 1 ≤ n) {before after : Bytes}
    (hsplit : retained b = before ++ newline :: after)
    (hk : after.count newline + 1 = lookbackLines n b) : after ≠ [] := by
  rintro rfl
  have hend : (retained b).getLast? = some newline := by
    rw [hsplit]
    simp
  rw [lookbackLines, if_pos hend, List.count_nil] at hk
  omega

/-- What is behind that newline are the last lines. -/
theorem tailLines_retained (b : Buffers) (n : Nat) (hn : 1 ≤ n) {before after : Bytes}
    (hsplit : retained b = before ++ newline :: after)
    (hk : after.count newline + 1 = lookbackLines n b) :
    tailLines newline n (retained b) = after := by
  have hne := behind_ne_nil b n hn hsplit hk
  have hlast : (retained b).getLast? = after.getLast? := by
    obtain ⟨c, cs, rfl⟩ := List.exists_cons_of_ne_nil hne
    rw [hsplit, List.getLast?_append, List.getLast?_cons_cons]
    rfl
  rw [hsplit]
  apply tailLines_append
  rw [length_lines newline after hne]
  rw [lookbackLines, hlast] at hk
  split at hk
  · rename_i hend
    rw [if_pos hend]
    omega
  · rename_i hend
    rw [if_neg hend]
    omega

end

/-! ## The output of a request -/

/-- The message for a payload; nothing is sent for nothing. -/
def outputMsgs (payload : Bytes) : List Ttlv :=
  if payload = [] then [] else [ttlvNewRaw Tag.output payload]

/-- A request with `-lookback` in place. -/
structure LooksBack (s : Server) : Prop where
  pc : s.pc = .pass
  sock : s.conn.sock = true
  passing : s.conn.passing = true
  positive : 0 < s.conn.lookback

/-- The retained octets are handed out from where the source starts, and afterwards
none is unsent. -/
theorem LooksBack.tick {s : Server} (h : LooksBack s) (hraw : RawWindow s.hist.stream s.buf)
    (host : Host) (sys : Sys) (hsent : sys.sent = true) {psend : Nat}
    (hstart : lookbackStart s.conn.lookback s.buf = some psend) :
    (tick host sys s).hist.sent = s.hist.sent ++ outputMsgs ((retained s.buf).drop psend) ∧
      (tick host sys s).buf.newcnt = 0 := by
  have hle := lookbackStart_le _ _ _ hstart
  have hlen := length_retained hraw
  have hpayload : (s.buf.rawbuf.drop psend).take (s.buf.rawnew + s.buf.newcnt - psend) =
      (retained s.buf).drop psend := by
    rw [retained, List.drop_take]
  have htick : Source.tick host sys s =
      sendOutput sys psend { s with conn := { s.conn with lookback := 0 } } := by
    have hpos := h.positive
    simp only [Source.tick, h.pc, servPassOutput, h.sock, h.passing, hstart]
    rw [if_neg (by simp), if_neg (by omega)]
  rw [htick, sendOutput]
  simp only [hpayload]
  split
  · rename_i hmore
    have hne : (retained s.buf).drop psend ≠ [] := by
      rw [ne_eq, List.drop_eq_nil_iff]
      omega
    simp [servMsgSend, h.sock, msgOut, hsent, outputMsgs, hne, markSent]
  · rename_i hnone
    have hnil : (retained s.buf).drop psend = [] := by
      rw [List.drop_eq_nil_iff]
      omega
    refine ⟨by simp [outputMsgs, hnil], ?_⟩
    simp only
    omega

/-- What `tail` prints where that starts at or before the first unsent octet, else
everything from the line with that octet on. -/
def lookbackPayload (n : Nat) (b : Buffers) : Bytes :=
  if b.newcnt ≤ (tailLines newline n (retained b)).length then tailLines newline n (retained b)
  else (retained b).drop (unsentLine b)

theorem unsentLine_le (b : Buffers) : unsentLine b ≤ b.rawnew := by
  rw [unsentLine]
  split
  · exact le_rfl
  · have hle : (sentPart b).length ≤ b.rawnew := by
      rw [sentPart]
      exact List.length_take_le _ _
    rw [lineStart]
    omega

/-- With newlines enough among the retained octets, a request with `-lookback` is sent
the last lines, or all from the line with the first unsent octet on; every unsent octet
is in it, and none is left. -/
theorem lookback_shows_tail (host : Host) (s₀ s : Server) (h₀ : Initial s₀)
    (hrun : Reaches (servStep host) (fun _ _ => True) s₀ s) (h : LooksBack s) (n : Nat)
    (hlook : s.conn.lookback = n)
    (hcount : lookbackLines n s.buf ≤ (retained s.buf).count newline) (sys : Sys)
    (hsent : sys.sent = true) :
    (tick host sys s).hist.sent =
        s.hist.sent ++ [ttlvNewRaw Tag.output (lookbackPayload n s.buf)] ∧
      (∃ start ≤ s.buf.rawnew, lookbackPayload n s.buf = (retained s.buf).drop start) ∧
      (tick host sys s).buf.newcnt = 0 := by
  obtain ⟨mark, hw⟩ := reaches_windows host h₀ hrun
  have hn : 1 ≤ n := by
    have := h.positive
    omega
  have hlen := length_retained hw.raw
  obtain ⟨before, after, hsplit, hk, hstart⟩ := lookbackStart_enough hw.raw n hn hcount
  rw [← hlook] at hstart
  obtain ⟨hout, hnew⟩ := h.tick hw.raw host sys hsent hstart
  have htail := tailLines_retained s.buf n hn hsplit hk
  have hne := behind_ne_nil s.buf n hn hsplit hk
  have hparts : before.length + (after.length + 1) = s.buf.rawnew + s.buf.newcnt := by
    rw [← hlen, hsplit, List.length_append, List.length_cons]
  -- the start that the source chooses
  generalize hchosen : (if before.length < s.buf.rawnew then before.length + 1
    else unsentLine s.buf) = start at hout
  have hpayload : lookbackPayload n s.buf = (retained s.buf).drop start := by
    rw [lookbackPayload, htail, ← hchosen]
    by_cases hold : before.length < s.buf.rawnew
    · rw [if_pos (by omega), if_pos hold, hsplit, List.drop_append]
      simp
    · rw [if_neg (by omega), if_neg hold]
  have hle : start ≤ s.buf.rawnew := by
    have := unsentLine_le s.buf
    rw [← hchosen]
    split <;> omega
  have hsome : lookbackPayload n s.buf ≠ [] := by
    rw [hpayload, ne_eq, List.drop_eq_nil_iff, hlen]
    have := List.length_pos_iff.mpr hne
    rw [← hchosen]
    split
    · omega
    · have := unsentLine_le s.buf
      omega
  refine ⟨?_, ⟨start, hle, hpayload⟩, hnew⟩
  rw [hout, ← hpayload, outputMsgs, if_neg hsome]

/-! ### A request for the second time -/

/-- `expect -t 0 -eof -lookback n`. -/
def lookbackRequest (n : Int) : Ttlv :=
  passRequest .expect { hasTimeout := true, expflags := passExpectEof, lookback := n }

/-- A client is sent two lines; another one asks to look back. -/
def twoLineInputs (n : Int) : List Input :=
  ticks 3 {} ++
    (visit eofRequest (ascii "a\nb\n") ++ ticks 4 {} ++ ticks 11 (asking msgDisconn)) ++
    (greeting ++ ticks 9 (asking (lookbackRequest n)))

/-- The two lines are the retained octets, all of them sent. -/
structure TwoLines (s : Server) (n : Int) : Prop where
  pc : s.pc = .pass
  sock : s.conn.sock = true
  passing : s.conn.passing = true
  lookback : s.conn.lookback = n
  rawoffset : s.buf.rawoffset = 0
  rawnew : s.buf.rawnew = 4
  newcnt : s.buf.newcnt = 0
  retained : retained s.buf = ascii "a\nb\n"

instance (s : Server) (n : Int) : Decidable (TwoLines s n) :=
  decidable_of_iff (s.pc = .pass ∧ s.conn.sock = true ∧ s.conn.passing = true ∧
      s.conn.lookback = n ∧ s.buf.rawoffset = 0 ∧ s.buf.rawnew = 4 ∧ s.buf.newcnt = 0 ∧
      Guarantees.retained s.buf = ascii "a\nb\n")
    ⟨fun ⟨h1, h2, h3, h4, h5, h6, h7, h8⟩ => ⟨h1, h2, h3, h4, h5, h6, h7, h8⟩,
      fun ⟨h1, h2, h3, h4, h5, h6, h7, h8⟩ => ⟨h1, h2, h3, h4, h5, h6, h7, h8⟩⟩

theorem reaches_twoLines (n : Int) :
    Reaches (servStep plainHost) (fun _ _ => True) freshServer
      (runs (servStep plainHost) (twoLineInputs n) freshServer) :=
  Reaches.start.runs _ (admitted_true _ _)

/-- `-lookback 1` shows the second line. -/
theorem lookback_shows_last_line :
    (tick plainHost {} (runs (servStep plainHost) (twoLineInputs 1) freshServer)).hist.sent =
      (runs (servStep plainHost) (twoLineInputs 1) freshServer).hist.sent ++
        [ttlvNewRaw Tag.output (ascii "b\n")] := by
  have htwo : TwoLines (runs (servStep plainHost) (twoLineInputs 1) freshServer) 1 := by
    decide +kernel
  have hlooks : LooksBack (runs (servStep plainHost) (twoLineInputs 1) freshServer) :=
    ⟨htwo.pc, htwo.sock, htwo.passing, by rw [htwo.lookback]; decide⟩
  have hcount : lookbackLines 1 (runs (servStep plainHost) (twoLineInputs 1) freshServer).buf ≤
      (retained (runs (servStep plainHost) (twoLineInputs 1) freshServer).buf).count newline := by
    rw [lookbackLines, htwo.retained]
    decide
  have hshows := lookback_shows_tail plainHost freshServer _ freshServer_initial
    (reaches_twoLines 1) hlooks 1 htwo.lookback hcount {} rfl
  have hpayload : lookbackPayload 1 (runs (servStep plainHost) (twoLineInputs 1) freshServer).buf =
      ascii "b\n" := by
    rw [lookbackPayload, htwo.retained, htwo.newcnt]
    decide
  rw [hshows.1, hpayload]

/-! ## Short of newlines -/

/-- Where the output has to start when the retained octets have too few newlines. -/
def shortStart (b : Buffers) : Nat :=
  if b.rawoffset = 0 then 0
  else
    match (retained b).findIdx? (· = newline) with
    | none => 0
    | some first => if first < b.rawnew then first + 1 else b.rawnew

/-- Where it overflows, at most one newline was sent already, and none at all if nothing
was dropped; elsewhere, if something was dropped, no zero octet comes before the first
newline. -/
def ShortCondition (n : Nat) (b : Buffers) : Prop :=
  (Overflows n b → (sentPart b).count newline = 0 ∨
      (0 < b.rawoffset ∧ (sentPart b).count newline = 1)) ∧
    (¬ Overflows n b → 0 < b.rawoffset → newline ∈ retained b →
      0 ∉ (retained b).takeWhile (· ≠ newline))

/-- A zero octet hides the first newline from `strchr`. -/
def Blocked (b : Buffers) : Prop :=
  0 < b.rawoffset ∧ newline ∈ retained b ∧ 0 ∈ (retained b).takeWhile (· ≠ newline)

instance (b : Buffers) : Decidable (Blocked b) := by
  unfold Blocked
  infer_instance

/-- The octets before the first newline. -/
theorem split_first {text : Bytes} (h : newline ∈ text) :
    ∃ post, text = text.takeWhile (· ≠ newline) ++ newline :: post ∧
      newline ∉ text.takeWhile (· ≠ newline) := by
  obtain ⟨pre, post, hsplit, hpre⟩ := List.eq_append_cons_of_mem h
  have htake : text.takeWhile (· ≠ newline) = pre := by
    rw [hsplit, List.takeWhile_append_of_pos]
    · simp
    · intro c hc
      simpa using fun heq : c = newline => hpre (heq ▸ hc)
  rw [htake]
  exact ⟨post, hsplit, hpre⟩

/-- `strchr` on a buffer stops at a zero octet. -/
theorem strchr_newline (pre post : Bytes) (hpre : newline ∉ pre) :
    strchr (pre ++ newline :: post) newline = if 0 ∈ pre then none else some pre.length := by
  rw [strchr, cstring]
  split
  · rename_i hzero
    obtain ⟨front, back, hsplit, hfront⟩ := List.eq_append_cons_of_mem hzero
    have htake : (pre ++ newline :: post).takeWhile (fun c => decide (c ≠ 0)) = front := by
      rw [hsplit, List.append_assoc, List.takeWhile_append_of_pos]
      · simp
      · intro c hc
        simpa using fun heq : c = 0 => hfront (heq ▸ hc)
    rw [htake]
    apply findIdx?_eq_none
    intro hin
    apply hpre
    rw [hsplit]
    simp [hin]
  · rename_i hzero
    have hnl : (newline : UInt8) ≠ 0 := by decide
    have htake : (pre ++ newline :: post).takeWhile (fun c => decide (c ≠ 0)) =
        pre ++ newline :: post.takeWhile (fun c => decide (c ≠ 0)) := by
      rw [List.takeWhile_append_of_pos]
      · simp [hnl]
      · intro c hc
        simpa using fun heq : c = 0 => hzero (heq ▸ hc)
    rw [htake]
    exact findIdx?_of_not_mem hpre _

theorem shortStart_le (b : Buffers) : shortStart b ≤ b.rawnew := by
  unfold shortStart
  split
  · omega
  · split
    · omega
    · split <;> omega

section

variable {stream : Bytes} {b : Buffers}

/-- Without overflow the source starts where it has to, unless `strchr` runs into a
zero octet. -/
theorem lookbackStart_short (h : RawWindow stream b) (n : Nat) (hn : n < 2 ^ 31)
    (hover : ¬ Overflows n b) (hfew : (retained b).count newline < lookbackLines n b) :
    lookbackStart n b = if Blocked b then none else some (shortStart b) := by
  have hscan : scanBack b.rawbuf (lookbackLines n b : Nat) (b.rawnew + b.newcnt) 0 =
      ((retained b).count newline, none) := by
    obtain ⟨-, heq⟩ | ⟨before, after, hsplit, hk, -⟩ :=
      scanBack_spec b.rawbuf (lookbackLines n b) (b.rawnew + b.newcnt) 0 (by omega)
    · rw [heq, Nat.zero_add]
      rfl
    · have hcount : (retained b).count newline = before.count newline + (after.count newline + 1) := by
        rw [retained, hsplit, List.count_append, List.count_cons_self]
      omega
  rw [lookbackStart_eq h n hn hover, hscan]
  simp only [Nat.cast_lt, hfew, if_true, List.count_eq_zero]
  by_cases hin : newline ∈ retained b
  · obtain ⟨post, hsplit, hpre⟩ := split_first hin
    have hbuf : b.rawbuf = (retained b).takeWhile (· ≠ newline) ++
        newline :: (post ++ b.rawbuf.drop (b.rawnew + b.newcnt)) := by
      conv_lhs => rw [← List.take_append_drop (b.rawnew + b.newcnt) b.rawbuf]
      change retained b ++ _ = _
      conv_lhs => rw [hsplit]
      simp
    have hfirst : (retained b).findIdx? (· = newline) =
        some ((retained b).takeWhile (· ≠ newline)).length := by
      conv_lhs => rw [hsplit]
      exact findIdx?_of_not_mem hpre post
    have hblocked : Blocked b ↔ 0 < b.rawoffset ∧ 0 ∈ (retained b).takeWhile (· ≠ newline) := by
      simp only [Blocked, hin, true_and]
    generalize (retained b).takeWhile (· ≠ newline) = pre at *
    rw [shortStart, hfirst]
    by_cases hoff : b.rawoffset = 0
    · simp [hblocked, hin, hoff]
    · have hstr := strchr_newline pre (post ++ b.rawbuf.drop (b.rawnew + b.newcnt)) hpre
      rw [← hbuf] at hstr
      rw [hstr]
      by_cases hzero : 0 ∈ pre
      · simp [hblocked, hin, hoff, hzero, Nat.pos_of_ne_zero hoff]
      · by_cases hlt : pre.length < b.rawnew <;> simp [hblocked, hin, hoff, hzero, hlt]
  · have hnone := findIdx?_eq_none hin
    by_cases hoff : b.rawoffset = 0 <;> simp [Blocked, hin, shortStart, hnone, hoff]

/-- With overflow it starts at the line with the first unsent octet. -/
theorem lookbackStart_overflow (h : RawWindow stream b) (n : Nat) (hover : Overflows n b) :
    lookbackStart n b = some (unsentLine b) := by
  obtain ⟨rfl, hlast⟩ := hover
  have hword : toInt32 (((2 ^ 31 - 1 : Nat) : Int) + 1) = -2 ^ 31 := by
    unfold toInt32
    decide
  have hlen := length_retained h
  obtain ⟨hfew, -⟩ | ⟨before, after, hsplit, hk, heq⟩ :=
    scanBack_spec b.rawbuf 1 (b.rawnew + b.newcnt) 0 (by omega)
  · have hin : newline ∈ retained b := List.mem_of_getLast? hlast
    have hpos := List.count_pos_iff.mpr hin
    have hsame : (retained b).count newline =
      (b.rawbuf.take (b.rawnew + b.newcnt)).count newline := rfl
    omega
  have hafter : after = [] := by
    by_contra hcons
    obtain ⟨c, cs, rfl⟩ := List.exists_cons_of_ne_nil hcons
    have hend : (c :: cs).getLast? = some newline := by
      rw [retained, hsplit, List.getLast?_append, List.getLast?_cons_cons] at hlast
      exact hlast
    have hpos := List.count_pos_iff.mpr (List.mem_of_getLast? hend)
    omega
  subst hafter
  have hbefore : before.length + 1 = b.rawnew + b.newcnt := by
    rw [← hlen, retained, hsplit]
    simp
  unfold lookbackStart
  simp only [if_pos ((ends_in_newline h).mpr hlast), hword,
    scanBack_nonpos b.rawbuf (-2 ^ 31) (by omega)]
  have heq : scanBack b.rawbuf 1 (b.rawnew + b.newcnt) 0 = (1, some before.length) := heq
  rw [heq]
  simp only [if_neg (by omega : ¬ (1 = 0)), if_neg (by omega : ¬ ((1 : Nat) : Int) < -2 ^ 31)]
  split
  · rename_i hold
    -- nothing is unsent, and the line with the first unsent octet is still empty
    have hsent : sentPart b = before ++ newline :: [] := by
      rw [sentPart, List.take_of_length_le (by omega)]
      exact hsplit
    have hline : unsentLine b = before.length + 1 := by
      rw [unsentLine, hsent, lineStart_append newline before [] (by simp)]
      simp
    rw [hline]
  · exact newlineBefore_unsentLine b

/-- The first newline, when it was sent already. -/
theorem shortStart_of_mem (h : RawWindow stream b) (hoff : b.rawoffset ≠ 0) {pre post : Bytes}
    (hsplit : sentPart b = pre ++ newline :: post) (hpre : newline ∉ pre) :
    shortStart b = pre.length + 1 := by
  have hlen : (sentPart b).length = b.rawnew := by
    rw [sentPart, List.length_take_of_le]
    rw [length_retained h]
    omega
  have hall : retained b = pre ++ newline :: (post ++ (retained b).drop b.rawnew) := by
    conv_lhs => rw [← List.take_append_drop b.rawnew (retained b)]
    change sentPart b ++ _ = _
    rw [hsplit]
    simp
  have hfirst : (retained b).findIdx? (· = newline) = some pre.length := by
    rw [hall]
    exact findIdx?_of_not_mem hpre _
  have hlt : pre.length < b.rawnew := by
    rw [← hlen, hsplit]
    simp
  simp [shortStart, hoff, hfirst, hlt]

/-- The first newline, when it is still unsent. -/
theorem shortStart_of_not_mem (hoff : b.rawoffset ≠ 0) (hin : newline ∈ retained b)
    (hsent : newline ∉ sentPart b) : shortStart b = b.rawnew := by
  obtain ⟨post, hsplit, hpre⟩ := split_first hin
  have hfirst : (retained b).findIdx? (· = newline) =
      some ((retained b).takeWhile (· ≠ newline)).length := by
    conv_lhs => rw [hsplit]
    exact findIdx?_of_not_mem hpre post
  have hlt : ¬ ((retained b).takeWhile (· ≠ newline)).length < b.rawnew := by
    intro hlt
    apply hsent
    obtain ⟨m, hm⟩ := Nat.exists_eq_add_of_lt hlt
    rw [sentPart, hsplit, hm, Nat.add_assoc, List.take_length_add_append]
    simp
  rw [shortStart, if_neg hoff, hfirst]
  exact if_neg hlt

/-- When the source is left without a start. -/
theorem lookbackStart_eq_none_iff (h : RawWindow stream b) (n : Nat) (hn : 1 ≤ n) (hmax : n < 2 ^ 31) :
    lookbackStart n b = none ↔
      (retained b).count newline < lookbackLines n b ∧ ¬ Overflows n b ∧ Blocked b := by
  by_cases hover : Overflows n b
  · rw [lookbackStart_overflow h n hover]
    simp [hover]
  by_cases hfew : (retained b).count newline < lookbackLines n b
  · rw [lookbackStart_short h n hmax hover hfew]
    simp [hfew, hover]
  · obtain ⟨before, after, -, -, hstart⟩ := lookbackStart_enough h n hn (Nat.le_of_not_lt hfew)
    rw [hstart]
    simp [hfew]

theorem unsentLine_eq_shortStart_iff (h : RawWindow stream b) (hin : newline ∈ retained b) :
    unsentLine b = shortStart b ↔ (sentPart b).count newline = 0 ∨
      (0 < b.rawoffset ∧ (sentPart b).count newline = 1) := by
  by_cases hsent : newline ∈ sentPart b
  · -- the last newline that was sent, and the first
    obtain ⟨hnone, -⟩ | ⟨before, after, hlast, hafter, -⟩ :=
      newlineBefore_spec b.rawbuf b.rawnew
    · rw [← sentPart_eq] at hnone
      exact absurd hsent hnone
    rw [← sentPart_eq] at hlast
    obtain ⟨post, hsplit, hpre⟩ := split_first hsent
    have hcount : (sentPart b).count newline = before.count newline + 1 := by
      rw [hlast, List.count_append, List.count_cons_self, List.count_eq_zero.mpr hafter]
    have hline : unsentLine b = before.length + 1 := by
      rw [unsentLine, if_neg (fun hc => hc.2 hsent), hlast, lineStart_append newline _ _ hafter]
    by_cases hoff : b.rawoffset = 0
    · simp [hline, hcount, hoff, shortStart]
    · rw [hline, shortStart_of_mem h hoff hsplit hpre, hcount]
      have hpos := Nat.pos_of_ne_zero hoff
      have hone : (before.count newline + 1 = 0 ∨ 0 < b.rawoffset ∧ before.count newline + 1 = 1) ↔
          newline ∉ before := by
        rw [← List.count_eq_zero]
        omega
      rw [hone, Nat.add_right_cancel_iff]
      constructor
      · intro hlen
        have hsame : before = (sentPart b).takeWhile (· ≠ newline) :=
          (List.append_inj (hlast.symm.trans hsplit) hlen).1
        rw [hsame]
        exact hpre
      · intro hbefore
        have hfound := findIdx?_of_not_mem hbefore after
        rw [← hlast] at hfound
        conv at hfound => lhs; rw [hsplit]
        rw [findIdx?_of_not_mem hpre post] at hfound
        exact (Option.some.inj hfound).symm
  · have hcount : (sentPart b).count newline = 0 := List.count_eq_zero.mpr hsent
    simp only [hcount, true_or, iff_true]
    by_cases hoff : b.rawoffset = 0
    · simp [unsentLine, shortStart, hoff, lineStart_of_not_mem newline _ hsent]
    · rw [shortStart_of_not_mem hoff hin hsent, unsentLine,
        if_pos ⟨Nat.pos_of_ne_zero hoff, hsent⟩]

end

/-- Short of newlines the output starts where it has to exactly under the condition; it
never starts behind the first unsent octet. -/
theorem short_lookback_iff (host : Host) (s₀ s : Server) (h₀ : Initial s₀)
    (hrun : Reaches (servStep host) (fun _ _ => True) s₀ s) (h : LooksBack s) (n : Nat)
    (hlook : s.conn.lookback = n) (hmax : n ≤ 2 ^ 31 - 1)
    (hfew : (retained s.buf).count newline < lookbackLines n s.buf) :
    ((∃ psend, lookbackStart s.conn.lookback s.buf = some psend ∧ psend ≤ s.buf.rawnew ∧
          psend = shortStart s.buf) ↔ ShortCondition n s.buf) ∧
      ∀ psend, lookbackStart s.conn.lookback s.buf = some psend → ∀ sys : Sys, sys.sent = true →
        (tick host sys s).hist.sent =
          s.hist.sent ++ outputMsgs ((retained s.buf).drop psend) := by
  obtain ⟨mark, hw⟩ := reaches_windows host h₀ hrun
  refine ⟨?_, fun psend hstart sys hsent => (h.tick hw.raw host sys hsent hstart).1⟩
  have hchoice : (∃ psend, lookbackStart s.conn.lookback s.buf = some psend ∧
      psend ≤ s.buf.rawnew ∧ psend = shortStart s.buf) ↔
      lookbackStart n s.buf = some (shortStart s.buf) := by
    rw [hlook]
    constructor
    · rintro ⟨psend, hstart, -, rfl⟩
      exact hstart
    · intro hstart
      exact ⟨_, hstart, shortStart_le s.buf, rfl⟩
  rw [hchoice, ShortCondition]
  by_cases hover : Overflows n s.buf
  · have hin : newline ∈ retained s.buf := List.mem_of_getLast? hover.2
    rw [lookbackStart_overflow hw.raw n hover, Option.some.injEq,
      unsentLine_eq_shortStart_iff hw.raw hin]
    simp [hover]
  · rw [lookbackStart_short hw.raw n (by omega) hover hfew]
    simp [hover, Blocked]

/-- `-lookback 2` is short of a newline and shows both lines. -/
theorem short_lookback_both :
    ∃ psend, lookbackStart
        (runs (servStep plainHost) (twoLineInputs 2) freshServer).conn.lookback
        (runs (servStep plainHost) (twoLineInputs 2) freshServer).buf = some psend ∧ psend = 0 := by
  have htwo : TwoLines (runs (servStep plainHost) (twoLineInputs 2) freshServer) 2 := by
    decide +kernel
  have hlooks : LooksBack (runs (servStep plainHost) (twoLineInputs 2) freshServer) :=
    ⟨htwo.pc, htwo.sock, htwo.passing, by rw [htwo.lookback]; decide⟩
  have hfew : (retained (runs (servStep plainHost) (twoLineInputs 2) freshServer).buf).count newline <
      lookbackLines 2 (runs (servStep plainHost) (twoLineInputs 2) freshServer).buf := by
    rw [lookbackLines, htwo.retained]
    decide
  have hiff := (short_lookback_iff plainHost freshServer _ freshServer_initial (reaches_twoLines 2)
    hlooks 2 htwo.lookback (by decide) hfew).1
  have hcond : ShortCondition 2 (runs (servStep plainHost) (twoLineInputs 2) freshServer).buf := by
    constructor
    · intro hover
      cases hover.1
    · intro _ hoff
      rw [htwo.rawoffset] at hoff
      omega
  obtain ⟨psend, hstart, -, hshort⟩ := hiff.mpr hcond
  refine ⟨psend, hstart, ?_⟩
  rw [hshort, shortStart, if_pos htwo.rawoffset]

/-- `-lookback 2147483647` overflows and shows nothing of them. -/
theorem short_lookback_overflow :
    Initial freshServer ∧ LooksBack (runs (servStep plainHost) (twoLineInputs (2 ^ 31 - 1)) freshServer) ∧
      (retained (runs (servStep plainHost) (twoLineInputs (2 ^ 31 - 1)) freshServer).buf).count newline <
        lookbackLines (2 ^ 31 - 1)
          (runs (servStep plainHost) (twoLineInputs (2 ^ 31 - 1)) freshServer).buf ∧
      lookbackStart (runs (servStep plainHost) (twoLineInputs (2 ^ 31 - 1)) freshServer).conn.lookback
        (runs (servStep plainHost) (twoLineInputs (2 ^ 31 - 1)) freshServer).buf = some 4 ∧
      shortStart (runs (servStep plainHost) (twoLineInputs (2 ^ 31 - 1)) freshServer).buf = 0 := by
  have htwo : TwoLines (runs (servStep plainHost) (twoLineInputs (2 ^ 31 - 1)) freshServer)
      (2 ^ 31 - 1) := by
    decide +kernel
  refine ⟨freshServer_initial, ⟨htwo.pc, htwo.sock, htwo.passing, ?_⟩, ?_, by decide +kernel, ?_⟩
  · rw [htwo.lookback]
    decide
  · rw [lookbackLines, htwo.retained]
    decide
  · rw [shortStart, if_pos htwo.rawoffset]

end Sexpect.Guarantees
