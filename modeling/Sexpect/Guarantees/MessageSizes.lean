import Sexpect.Guarantees.Framing
import Sexpect.Guarantees.ServerSays

/-!
# The server's messages fit

Every message the server makes is built with the constructors and, encoded, no longer than
`PASS_MAX_MSG`, as the preprocessor check of server.c:32 intends: an `OUTPUT` carries at most
the raw buffer, an `INFO` at most `MAX_EXPBUF_PEEK` octets of the expect buffer, and what
`expect_out` keeps was cut out of the expect buffer.  So `msg_send` never gives a message up
for its size.
-/
namespace Sexpect.Guarantees
open Sexpect.Lib Sexpect.Source

/-- A message that `msg_send` can send. -/
structure FitsMsg (m : Ttlv) : Prop where
  built : Built m
  size : (wire m).length ≤ passMaxMsg

/-! ## Sizes -/

theorem wire_new (tag length : Nat) (value : TtlvValue) (hs : value ≠ .struct) :
    (wire (ttlvNew tag value length)).length = 8 + (slot value).length := by
  rw [ttlvNew, wire_value _ _ _ _ _ hs]
  simp only [wire, List.length_append, beEncode_length, List.length_nil, Nat.add_zero]

theorem padding_le (n : Nat) : padding n ≤ 7 := by
  unfold padding
  omega

theorem wire_text (tag : Nat) (data : Bytes) :
    (wire (ttlvNewText tag data)).length ≤ data.length + 15 := by
  have hpad := padding_le data.length
  rw [ttlvNewText, wire_new _ _ _ (by simp)]
  simp only [slot, List.length_append, List.length_replicate]
  omega

theorem wire_raw (tag : Nat) (data : Bytes) :
    (wire (ttlvNewRaw tag data)).length ≤ data.length + 15 := by
  have hpad := padding_le data.length
  rw [ttlvNewRaw, wire_new _ _ _ (by simp)]
  simp only [slot, List.length_append, List.length_replicate]
  omega

theorem wire_int (tag : Nat) (v : BitVec 32) : (wire (ttlvNewInt tag v)).length = 16 := by
  rw [ttlvNewInt, wire_new _ _ _ (by simp)]
  simp [slot, beEncode_length]

theorem wire_bool (tag : Nat) (v : BitVec 32) : (wire (ttlvNewBool tag v)).length = 16 := by
  rw [ttlvNewBool, wire_new _ _ _ (by simp)]
  simp [slot, beEncode_length]

/-- A struct around single nodes: its header and theirs. -/
theorem wire_link (cs : List Ttlv) (h : ∀ c ∈ cs, Built c) :
    (wire (ttlvLink cs)).length = (cs.map fun c => (wire c).length).sum := by
  fun_induction ttlvLink cs with
  | case1 => rfl
  | case2 p => simp
  | case3 ps _ ih => exact absurd rfl (h .null (by simp)).single.2
  | case4 tag length value child next ps _ ih =>
    have hnext : next = .null := (h (.node tag length value child next) (by simp)).single.1
    have hrest := ih fun c hc => h c (by simp [hc])
    subst hnext
    simp only [wire, List.append_nil, List.length_append, List.map_cons, List.sum_cons, hrest]

theorem wire_struct_of (tag : Nat) (cs : List Ttlv) (h : ∀ c ∈ cs, Built c) :
    (wire (ttlvAppendChild (ttlvNewStruct tag) cs)).length =
      8 + (cs.map fun c => (wire c).length).sum := by
  rw [← wire_link cs h]
  simp only [ttlvAppendChild, ttlvNewStruct, ttlvNew, ttlvAppend]
  rw [wire_struct]
  simp only [wire, List.length_append, beEncode_length, List.length_nil, Nat.add_zero]

/-! ## Single messages -/

theorem fits_text {tag : Nat} {data : Bytes} (ht : tag < 2 ^ 24)
    (hdata : data.length + 15 ≤ passMaxMsg) : FitsMsg (ttlvNewText tag data) := by
  have hmax : passMaxMsg = 65536 := rfl
  have hwire := wire_text tag data
  exact ⟨.text tag data ht (by omega), by omega⟩

theorem fits_raw {tag : Nat} {data : Bytes} (ht : tag < 2 ^ 24)
    (hdata : data.length + 15 ≤ passMaxMsg) : FitsMsg (ttlvNewRaw tag data) := by
  have hmax : passMaxMsg = 65536 := rfl
  have hwire := wire_raw tag data
  exact ⟨.raw tag data ht (by omega), by omega⟩

theorem fits_int {tag : Nat} (v : BitVec 32) (ht : tag < 2 ^ 24) : FitsMsg (ttlvNewInt tag v) :=
  ⟨.int tag v ht, by rw [wire_int]; decide⟩

theorem fits_bool {tag : Nat} (v : BitVec 32) (ht : tag < 2 ^ 24) : FitsMsg (ttlvNewBool tag v) :=
  ⟨.bool tag v ht, by rw [wire_bool]; decide⟩

theorem fits_empty {tag : Nat} (ht : tag < 2 ^ 24) : FitsMsg (ttlvNewStruct tag) := by
  have hwire := wire_struct_of tag [] (by simp)
  refine ⟨.struct tag ht, ?_⟩
  rw [List.map_nil, List.sum_nil] at hwire
  have hnone : ttlvAppendChild (ttlvNewStruct tag) [] = ttlvNewStruct tag := rfl
  rw [hnone] at hwire
  rw [hwire]
  decide

theorem fits_struct {tag : Nat} {cs : List Ttlv} (ht : tag < 2 ^ 24) (h : ∀ c ∈ cs, Built c)
    (hsize : 8 + (cs.map fun c => (wire c).length).sum ≤ passMaxMsg) :
    FitsMsg (ttlvAppendChild (ttlvNewStruct tag) cs) := by
  refine ⟨.appendChild _ _ (.struct tag ht) rfl h, ?_⟩
  rw [wire_struct_of tag cs h]
  exact hsize

theorem fits_error {code : Int} {msg : Bytes} (hmsg : msg.length ≤ 1024) :
    FitsMsg (servNewError code msg) := by
  have hmax : passMaxMsg = 65536 := rfl
  have hbuilt : ∀ c ∈ [ttlvNewInt Tag.errorCode (int32 code), ttlvNewText Tag.errorMsg msg], Built c := by
    simp only [List.mem_cons, List.not_mem_nil, or_false, forall_eq_or_imp, forall_eq]
    exact ⟨.int _ _ (by decide), .text _ _ (by decide) (by omega)⟩
  apply fits_struct (by decide) hbuilt
  have htext := wire_text Tag.errorMsg msg
  simp only [List.map_cons, List.map_nil, List.sum_cons, List.sum_nil, wire_int]
  omega

theorem fits_hello : FitsMsg msgHello := by
  apply fits_struct (by decide)
  · simpa using Built.text Tag.version version (by decide) (by decide)
  · decide +kernel

theorem fits_reply {t : Ttlv} (h : PassReply t) : FitsMsg t := by
  rcases h with rfl | rfl | ⟨status, rfl⟩ | rfl | rfl
  · exact fits_bool _ (by decide)
  · exact fits_empty (by decide)
  · exact fits_int _ (by decide)
  · exact fits_error (by decide)
  · exact fits_error (by decide)

theorem fits_output {s : Server} {mark : Nat} (h : Windows s mark) (psend : Nat) :
    FitsMsg (outputFrom psend s.buf) := by
  have hsize := sizeRawBuf_eq
  have hmax : passMaxMsg = 65536 := rfl
  have hfits := h.raw.fits
  apply fits_raw (by decide)
  rw [List.length_take]
  omega

/-- A host whose pty has a name that fits `ptsname`, `char[32]`. -/
def ShortName (host : Host) : Prop := host.ptsname.length < 32

theorem fits_info {host : Host} (hname : ShortName host) (s : Server) : FitsMsg (infoReply host s) := by
  have hmax : passMaxMsg = 65536 := rfl
  have hpeek : maxExpbufPeek = 4096 := rfl
  unfold ShortName at hname
  unfold infoReply
  dsimp only
  generalize hraw : (s.buf.expbuf.drop (s.buf.expcnt - min s.buf.expcnt maxExpbufPeek)).take
    (min s.buf.expcnt maxExpbufPeek) = peek
  have hlen : peek.length ≤ 4096 := by
    rw [← hraw, List.length_take]
    omega
  apply fits_struct (by decide)
  · simp only [List.mem_cons, List.not_mem_nil, or_false, forall_eq_or_imp, forall_eq]
    refine ⟨.int _ _ (by decide), .int _ _ (by decide), .text _ _ (by decide) (by omega),
      .int _ _ (by decide), .bool _ _ (by decide), .bool _ _ (by decide), .int _ _ (by decide),
      .int _ _ (by decide), .int _ _ (by decide), .raw _ _ (by decide) (by omega)⟩
  · have htext := wire_text Tag.ptsname host.ptsname
    have hpayload := wire_raw Tag.expbuf peek
    simp only [List.map_cons, List.map_nil, List.sum_cons, List.sum_nil, wire_int, wire_bool]
    omega

/-! ## What the server keeps and sends -/

/-- What `snprintf` leaves of the text of a failed `kill`. -/
def ShortErrors (_ : Server) : Input → Prop
  | .tick sys => ∀ text ∈ sys.killError, (ascii "kill: " ++ text).length < 1024
  | _ => True

instance (s : Server) : ∀ i, Decidable (ShortErrors s i)
  | .tick sys => inferInstanceAs (Decidable (∀ text ∈ sys.killError, _ < _))
  | .child _ | .sigCHLD => isTrue trivial

/-- The strings of `expect_out` are no longer than the expect buffer, and what was sent fits. -/
structure Outgoing (s : Server) : Prop where
  fits : ∀ m ∈ s.hist.sent, FitsMsg m
  kept : ∀ text, some text ∈ s.expout → text.length ≤ sizeRawBuf + 1

theorem stored_length {regex : Regex} {expflags : Int} {pattern text t : Bytes}
    {expout : List (Option Bytes)} {whole : Nat × Nat} {groups : List (Option (Nat × Nat))}
    (h : found regex expflags pattern text = some (whole, groups))
    (ht : some t ∈ stored expflags pattern text expout whole groups) :
    t.length ≤ text.length ∨ some t ∈ expout := by
  unfold stored at ht
  split at ht
  · rename_i hexact
    rcases List.mem_cons.mp ht with heq | hmem
    · cases heq
      have hbound := (found_offsets h).bound
      unfold found at h
      rw [if_pos hexact] at h
      obtain ⟨pos, -, heq⟩ := Option.map_eq_some_iff.mp h
      cases heq
      exact .inl (by simp only at hbound; omega)
    · cases List.eq_of_mem_replicate hmem
  · split at ht
    · exact .inr ht
    · obtain ⟨group, -, hcut⟩ := List.mem_map.mp ht
      obtain ⟨m, -, rfl⟩ := Option.map_eq_some_iff.mp hcut
      left
      unfold cut
      rw [List.length_take, List.length_drop]
      omega

theorem fits_expoutReply {index : Int} {expout : List (Option Bytes)}
    (h : ∀ text, some text ∈ expout → text.length ≤ sizeRawBuf + 1) :
    FitsMsg (expoutReply index expout) := by
  have hsize := sizeRawBuf_eq
  have hmax : passMaxMsg = 65536 := rfl
  unfold expoutReply
  split
  · split
    · rename_i text hat
      have := h text (List.mem_of_getElem? hat)
      exact fits_text (by decide) (by omega)
    · exact fits_text (by decide) (by decide)
  · exact fits_error (by decide)

theorem fits_said {host : Host} {i : Input} {s : Server} {mark : Nat} {t : Ttlv}
    (hname : ShortName host) (hw : Windows s mark) (herror : ShortErrors s i)
    (hkept : ∀ text, some text ∈ s.expout → text.length ≤ sizeRawBuf + 1) (h : Says host i s t) :
    FitsMsg t := by
  cases h with
  | hello => exact fits_hello
  | mismatch m =>
    apply fits_error
    unfold versionMismatch
    rw [List.length_take]
    omega
  | disconn | done => exact fits_empty (by decide)
  | unkilled m sys text hm htag hi htext =>
    subst hi
    exact fits_error (Nat.le_of_lt (herror text htext))
  | stored => exact fits_expoutReply hkept
  | info m buf => exact fits_info hname _
  | output psend => exact fits_output hw psend
  | reply t sys hi ht => exact fits_reply ht.passReply

theorem Outgoing.step {host : Host} {s : Server} {mark : Nat} {i : Input} (h : Outgoing s)
    (hname : ShortName host) (hw : Windows s mark) (herror : ShortErrors s i) :
    Outgoing (servStep host i s) := by
  constructor
  · intro t ht
    obtain ⟨new, hnew, hsaid⟩ := servStep_adds host i hw.flow
    rw [hnew] at ht
    rcases List.mem_append.mp ht with ht | ht
    · exact h.fits t ht
    · exact fits_said hname hw herror h.kept (hsaid t ht)
  · by_cases hasked : ∃ m, received s i = some m ∧ CarriesPattern m
    · obtain ⟨m, hrec, hcarries⟩ := hasked
      obtain ⟨sys, hstep⟩ := servStep_received host hrec
      rw [hstep, dispatch_pass host sys m _ hcarries.1, processPass_clears m _ hcarries]
      intro text htext
      cases List.eq_of_mem_replicate htext
    by_cases hmatch : isMatch host s i = true
    · cases i with
      | child e => cases hmatch
      | sigCHLD => cases hmatch
      | tick sys =>
        simp only [isMatch, Bool.and_eq_true, decide_eq_true_eq] at hmatch
        obtain ⟨hpc, hfound⟩ := hmatch
        rcases hexp : servExpect host (s.conn.pattern.getD []) s with ⟨matched, s'⟩
        rw [hexp] at hfound
        simp only at hfound
        subst hfound
        rw [servStep, matched_expout sys hpc hexp]
        obtain ⟨-, whole, groups, hat, rfl⟩ := (servExpect_eq_true_iff host _ s s').mp hexp
        intro text htext
        rcases stored_length hat htext with hlen | hold
        · have hcstring : (cstring s.buf.expbuf).length ≤ s.buf.expbuf.length :=
            (List.takeWhile_prefix _).length_le
          rw [hw.exp.size] at hcstring
          omega
        · exact h.kept text hold
    · rw [servStep_expout host (fun m hrec hcarries => hasked ⟨m, hrec, hcarries⟩) (by simpa using hmatch)]
      exact h.kept

/-- In every run every message the server has sent was one that `msg_send` can send. -/
theorem server_messages_fit (host : Host) (hname : ShortName host) (s₀ s : Server) (h₀ : Initial s₀)
    (hrun : Reaches (servStep host) ShortErrors s₀ s) : Outgoing s := by
  induction hrun with
  | start =>
    obtain ⟨spawn, rawbuf, expbuf, -, -, rfl⟩ := h₀
    refine ⟨by simp [servInit], ?_⟩
    intro text htext
    cases List.eq_of_mem_replicate htext
  | next i hprev herror ih =>
    obtain ⟨mark, hw⟩ := reaches_windows host h₀ hprev
    exact ih.step hname hw herror

/-- A prompt, and a client that looks for a part of it. -/
theorem server_messages_fit_prompt : Outgoing (runs (servStep plainHost) promptInputs freshServer) :=
  server_messages_fit plainHost (by unfold ShortName; decide) freshServer _ freshServer_initial
    (Reaches.start.runs _ (by decide +kernel))

end Sexpect.Guarantees
