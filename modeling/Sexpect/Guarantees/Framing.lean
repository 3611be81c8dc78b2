import Sexpect.Guarantees.WireFormat

/-!
# Framing: `msg_send` against `msg_recv`

`available` is what a descriptor still delivers before it ends, `failing` says
whether it then ends in a hard error.  They determine every call of `readn`
(`readn_enough`, `readn_short`), whatever the chunking and the interrupted
calls.  From there `msg_send` puts the magic number and the wire form on the
descriptor, `msg_recv` takes exactly one frame off it, and any number of sends
is undone by the same number of receives.
-/
namespace Sexpect.Guarantees
open Sexpect.Lib Sexpect.Source

/-- The octets a descriptor delivers before end of file or a hard error. -/
def available : List ReadEvent → Bytes
  | [] => []
  | .data bs :: fd => if bs = [] then [] else bs ++ available fd
  | .eintr :: fd => available fd
  | .eof :: _ => []
  | .error :: _ => []

/-- The descriptor ends in a hard error rather than in end of file. -/
def failing : List ReadEvent → Bool
  | [] => false
  | .data bs :: fd => if bs = [] then false else failing fd
  | .eintr :: fd => failing fd
  | .eof :: _ => false
  | .error :: _ => true

/-- With enough octets available `readn` takes exactly the requested ones. -/
theorem readn_enough (fd : List ReadEvent) (n : Nat) (h : n ≤ (available fd).length) :
    ∃ fd', readn fd n = ((n : Int), (available fd).take n, fd') ∧
      available fd' = (available fd).drop n ∧ failing fd' = failing fd := by
  induction fd generalizing n with
  | nil =>
    simp only [available, List.length_nil, Nat.le_zero] at h
    subst h
    exact ⟨[], rfl, rfl, rfl⟩
  | cons e fd ih =>
    by_cases hn : n = 0
    · subst hn
      exact ⟨e :: fd, by cases e <;> simp [readn], by simp, rfl⟩
    · cases e with
      | data bs =>
        by_cases hbs : bs = []
        · simp [available, hbs] at h
          exact absurd h hn
        · simp only [available, failing, if_neg hbs, List.length_append] at h ⊢
          by_cases hlt : n < bs.length
          · refine ⟨.data (bs.drop n) :: fd, ?_, ?_, ?_⟩
            · rw [readn, if_neg hn, if_neg hbs, if_pos hlt, List.take_append_of_le_length hlt.le]
            · have hne : bs.drop n ≠ [] := by simp [hlt]
              rw [available, if_neg hne, List.drop_append_of_le_length hlt.le]
            · have hne : bs.drop n ≠ [] := by simp [hlt]
              rw [failing, if_neg hne]
          · obtain ⟨fd', hread, havail, hfail⟩ := ih (n - bs.length) (by omega)
            refine ⟨fd', ?_, ?_, hfail⟩
            · rw [readn, if_neg hn, if_neg hbs, if_neg hlt, hread]
              simp only [List.take_append, List.take_of_length_le (Nat.le_of_not_lt hlt)]
              rw [if_neg (by omega)]
              congr 1
              omega
            · rw [havail, List.drop_append, List.drop_of_length_le (Nat.le_of_not_lt hlt),
                List.nil_append]
      | eintr =>
        obtain ⟨fd', hread, havail, hfail⟩ := ih n h
        exact ⟨fd', by rw [readn, if_neg hn, hread]; rfl, havail, hfail⟩
      | eof | error =>
        simp [available] at h
        exact absurd h hn

/-- With too few octets `readn` stores them all and reports the end it met. -/
theorem readn_short (fd : List ReadEvent) (n : Nat) (h : (available fd).length < n) :
    ∃ fd', readn fd n =
      (if failing fd then (-1 : Int) else (available fd).length, available fd, fd') := by
  induction fd generalizing n with
  | nil => exact ⟨[], rfl⟩
  | cons e fd ih =>
    have hn : n ≠ 0 := by omega
    cases e with
    | data bs =>
      by_cases hbs : bs = []
      · exact ⟨fd, by simp [readn, available, failing, hn, hbs]⟩
      · simp only [available, failing, if_neg hbs, List.length_append] at h ⊢
        obtain ⟨fd', hread⟩ := ih (n - bs.length) (by omega)
        refine ⟨fd', ?_⟩
        rw [readn, if_neg hn, if_neg hbs, if_neg (by omega), hread]
        cases failing fd <;> simp
    | eintr =>
      obtain ⟨fd', hread⟩ := ih n h
      exact ⟨fd', by rw [readn, if_neg hn, hread]; rfl⟩
    | eof => exact ⟨fd, by rw [readn, if_neg hn]; rfl⟩
    | error => exact ⟨fd, by rw [readn, if_neg hn]; rfl⟩

/-- Every `write` takes something or is interrupted. -/
def Progress (fd : List WriteEvent) : Prop :=
  ∀ e ∈ fd, e = .eintr ∨ ∃ k, 0 < k ∧ e = .wrote k

/-- Every `read` delivers something or is interrupted. -/
def Delivering (fd : List ReadEvent) : Prop :=
  ∀ e ∈ fd, e = .eintr ∨ ∃ bs, bs ≠ [] ∧ e = .data bs

/-- The octets of a chunked stream, in order. -/
def chunks : List ReadEvent → Bytes
  | [] => []
  | .data bs :: fd => bs ++ chunks fd
  | _ :: fd => chunks fd

theorem available_of_delivering (fd : List ReadEvent) (h : Delivering fd) :
    available fd = chunks fd := by
  induction fd with
  | nil => rfl
  | cons e fd ih =>
    have hrest := ih (fun e he => h e (by simp [he]))
    rcases h e (by simp) with rfl | ⟨bs, hne, rfl⟩
    · exact hrest
    · simp only [available, chunks, if_neg hne, hrest]

/-- `writen` hands over everything under any chunking that makes progress. -/
theorem writen_all (fd : List WriteEvent) (bs : Bytes) (h : Progress fd) :
    ∃ fd', writen fd bs = ((bs.length : Int), bs, fd') ∧ Progress fd' := by
  induction fd generalizing bs with
  | nil => exact ⟨[], rfl, h⟩
  | cons e fd ih =>
    have hrest : Progress fd := fun e he => h e (by simp [he])
    by_cases hbs : bs = []
    · subst hbs
      exact ⟨e :: fd, by cases e <;> rfl, h⟩
    · rcases h e (by simp) with rfl | ⟨k, hk, rfl⟩
      · obtain ⟨fd', hw, hp⟩ := ih bs hrest
        exact ⟨fd', by rw [writen, if_neg hbs, hw], hp⟩
      · obtain ⟨fd', hw, hp⟩ := ih (bs.drop k) hrest
        refine ⟨fd', ?_, hp⟩
        rw [writen, if_neg hbs, hw]
        simp only [List.take_append_drop, List.length_take, List.length_drop]
        rw [if_neg (by omega)]
        congr 1
        omega

/-- One frame on the descriptor. -/
def frame (m : Ttlv) : Bytes := beEncode 4 passMagic ++ wire m

/-- `msg_send` of a message that fits returns its size and puts one frame on
the descriptor. -/
theorem msgSend_frame (buf : Bytes) (fd : List WriteEvent) (m : Ttlv) (hm : Built m)
    (hbuf : buf.length = passMaxMsg) (hfd : Progress fd) (hsize : (wire m).length ≤ passMaxMsg) :
    ∃ buf' fd', msgSend buf fd m = (ttlvCalcSize m, frame m, buf', fd') ∧
      buf'.length = passMaxMsg ∧ Progress fd' := by
  have hmax : passMaxMsg = 65536 := rfl
  have hcalc := ttlvCalcSize_eq_wire m hm.valid (by omega)
  have henc := ttlvEncode_eq_wire m hm.valid buf 0 passMaxMsg (by omega) (by omega) (by omega)
  obtain ⟨fd1, hmagic, hp1⟩ := writen_all fd (beEncode 4 passMagic) hfd
  obtain ⟨fd2, hbody, hp2⟩ := writen_all fd1 (wire m) hp1
  have htake := take_writeAt buf 0 (wire m) (by omega)
  simp only [Nat.zero_add, List.take_zero, List.nil_append] at htake
  refine ⟨writeAt buf 0 (wire m), fd2, ?_, ?_, hp2⟩
  · unfold msgSend
    simp only [hcalc, henc, hmagic, beEncode_length, Int.toNat_natCast, htake, hbody]
    rw [if_neg (by omega), if_neg (by simp), if_neg (by decide), if_neg (by omega)]
    rfl
  · rw [writeAt_length _ _ _ (by omega), hbuf]

/-- The header of a single-rooted message announces exactly the rest of it. -/
theorem header_length (m : Ttlv) (hm : Built m) (hsize : (wire m).length ≤ passMaxMsg) :
    8 ≤ (wire m).length ∧
      round8 (beDecode (((wire m).drop 4).take 4)) = (wire m).length - 8 := by
  have hmax : passMaxMsg = 65536 := rfl
  obtain ⟨hnext, hnull⟩ := hm.single
  have hv := hm.valid
  cases m with
  | null => exact absurd rfl hnull
  | node tag length value child next =>
    simp only [Ttlv.next] at hnext
    subst hnext
    obtain ⟨ht, rfl, -, -, -⟩ := hv
    by_cases hs : value = .struct
    · subst hs
      have hmod := wire_length_mod child
      rw [wire_struct] at hsize ⊢
      simp only [wire, List.append_nil, List.length_append, beEncode_length] at hsize ⊢
      obtain ⟨-, h2, -⟩ := header_read tag 6 (wire child).length (wire child) ht (by decide)
        (by omega)
      have h8 := hmod (by omega)
      rw [h2, round8]
      omega
    · rw [wire_value _ _ _ _ _ hs] at hsize ⊢
      simp only [wire, List.append_nil, List.length_append, beEncode_length] at hsize ⊢
      have hty := type_lt value
      have hown := ownLength_le_slot value
      obtain ⟨-, h2, -⟩ := header_read tag value.type (ownLength value) (slot value) ht (by omega)
        (by omega)
      rw [h2, ← slot_length value hs (by omega)]
      omega

theorem toUInt32_natCast (n : Nat) (h : n < 2 ^ 32) : toUInt32 n = n := by
  unfold toUInt32
  omega

/-- A frame whose magic number and header arrive is decided by its body. -/
theorem msgRecv_header (buf : Bytes) (fd : List ReadEvent) (h12 : 12 ≤ (available fd).length)
    (hmagic : beDecode ((available fd).take 4) = passMagic) :
    ∃ fd', msgRecv buf fd = msgRecvBody (writeAt buf 0 (((available fd).drop 4).take 8)) fd' ∧
      available fd' = (available fd).drop 12 ∧ failing fd' = failing fd := by
  obtain ⟨fd1, hread1, havail1, hfail1⟩ := readn_enough fd 4 (by omega)
  obtain ⟨fd2, hread2, havail2, hfail2⟩ := readn_enough fd1 8
    (by rw [havail1, List.length_drop]; omega)
  rw [havail1] at hread2
  refine ⟨fd2, ?_, ?_, hfail2.trans hfail1⟩
  · unfold msgRecv
    simp only [hread1, hmagic, tagHdrSize, hread2]
    rw [if_neg (by decide), if_neg (by simp), if_neg (by decide)]
  · rw [havail2, havail1, List.drop_drop]

/-- Without a complete header or with another magic number nothing is returned. -/
theorem msgRecv_no_header (buf : Bytes) (fd : List ReadEvent)
    (h : ¬ (12 ≤ (available fd).length ∧ beDecode ((available fd).take 4) = passMagic)) :
    ∃ buf' fd', msgRecv buf fd = .returned .null buf' fd' := by
  by_cases h4 : 4 ≤ (available fd).length
  · obtain ⟨fd1, hread1, havail1, -⟩ := readn_enough fd 4 h4
    unfold msgRecv
    simp only [hread1]
    rw [if_neg (by decide)]
    by_cases hmagic : beDecode ((available fd).take 4) = passMagic
    · obtain ⟨fd2, hread2⟩ := readn_short fd1 tagHdrSize (by
        have h12 : ¬ 12 ≤ (available fd).length := fun h12 => h ⟨h12, hmagic⟩
        rw [havail1, List.length_drop, tagHdrSize]
        omega)
      simp only [hmagic, hread2]
      have hlen : (available fd1).length < 8 := by
        have h12 : ¬ 12 ≤ (available fd).length := fun h12 => h ⟨h12, hmagic⟩
        rw [havail1, List.length_drop]
        omega
      rw [if_neg (by simp), if_pos (by unfold tagHdrSize; split <;> omega)]
      exact ⟨_, _, rfl⟩
    · rw [if_pos hmagic]
      exact ⟨_, _, rfl⟩
  · obtain ⟨fd1, hread1⟩ := readn_short fd 4 (by omega)
    unfold msgRecv
    simp only [hread1]
    rw [if_pos (by split <;> omega)]
    exact ⟨_, _, rfl⟩

/-- `msg_recv` takes exactly one frame off the descriptor and returns its tree. -/
theorem msgRecv_frame (buf : Bytes) (fd : List ReadEvent) (m : Ttlv) (rest : Bytes) (hm : Built m)
    (hbuf : buf.length = passMaxMsg) (hsize : (wire m).length ≤ passMaxMsg)
    (hfd : available fd = frame m ++ rest) :
    ∃ buf' fd', msgRecv buf fd = .returned m buf' fd' ∧ buf'.length = passMaxMsg ∧
      available fd' = rest := by
  have hmax : passMaxMsg = 65536 := rfl
  obtain ⟨h8, hlen⟩ := header_length m hm hsize
  have hmagicLen : (beEncode 4 passMagic).length = 4 := beEncode_length _ _
  rw [frame, List.append_assoc] at hfd
  obtain ⟨fd1, hhead, havail1, -⟩ := msgRecv_header buf fd
    (by rw [hfd, List.length_append, List.length_append, hmagicLen]; omega)
    (by rw [hfd, List.take_left' hmagicLen, beDecode_beEncode4 _ (by decide)])
  rw [hfd, List.drop_left' hmagicLen, List.take_append_of_le_length h8] at hhead
  rw [hfd, ← List.append_assoc, List.drop_append_of_le_length
    (by rw [List.length_append, hmagicLen]; omega), show 12 = 4 + 8 from rfl, ← List.drop_drop,
    List.drop_left' hmagicLen] at havail1
  obtain ⟨fd2, hread, havail2, -⟩ := readn_enough fd1 ((wire m).length - 8)
    (by rw [havail1, List.length_append, List.length_drop]; omega)
  rw [havail1, List.take_left' (by simp)] at hread
  rw [havail1, List.drop_left' (by simp)] at havail2
  -- the buffer after the header and after the body
  have hhdrLen : ((wire m).take 8).length = 8 := List.length_take_of_le h8
  have hhdr : ((writeAt buf 0 ((wire m).take 8)).drop 4).take 4 = ((wire m).drop 4).take 4 := by
    simp only [writeAt, List.take_zero, List.nil_append]
    rw [List.drop_append_of_le_length (by omega),
      List.take_append_of_le_length (by rw [List.length_drop]; omega), List.drop_take,
      List.take_take]
    congr 1
  have hjoin := writeAt_writeAt buf 0 ((wire m).take 8) ((wire m).drop 8) (by omega)
  rw [hhdrLen, Nat.zero_add, List.take_append_drop] at hjoin
  have htaken := take_writeAt buf 0 (wire m) (by omega)
  simp only [Nat.zero_add, List.take_zero, List.nil_append] at htaken
  have htotal : ((wire m).length - 8 + 8) % 2 ^ 32 = (wire m).length := by omega
  have hret := toInt32_eq (((wire m).length - 8 : Nat) : Int) (by omega) (by omega)
  refine ⟨writeAt buf 0 (wire m), fd2, ?_, ?_, havail2⟩
  · rw [hhead, msgRecvBody]
    simp only [hhdr, hlen, tagHdrSize, htotal, hread, hret, List.length_drop, hjoin, htaken,
      ttlvDecode_wire m hm.valid (by omega),
      toUInt32_natCast _ (show (wire m).length - 8 < 2 ^ 32 by omega),
      toUInt32_natCast _ (show (wire m).length < 2 ^ 32 by omega)]
    rw [if_neg (by omega), if_neg (by omega), if_neg (by omega), if_neg (by omega)]
  · rw [writeAt_length _ _ _ (by omega), hbuf]

/-! ## Any number of messages -/

/-- Successive `msg_send` calls: their results and the octets on the descriptor. -/
def sendAll : Bytes → List WriteEvent → List Ttlv → List Int × Bytes
  | _, _, [] => ([], [])
  | buf, fd, m :: ms =>
    match msgSend buf fd m with
    | (ret, sent, buf, fd) =>
      match sendAll buf fd ms with
      | (rets, more) => (ret :: rets, sent ++ more)

/-- `n` successive `msg_recv` calls and the descriptor behind them. -/
def recvAll : Nat → Bytes → List ReadEvent → Option (List Ttlv × List ReadEvent)
  | 0, _, fd => some ([], fd)
  | n + 1, buf, fd =>
    match msgRecv buf fd with
    | .overrun => none
    | .returned m buf fd =>
      match recvAll n buf fd with
      | none => none
      | some (ms, fd) => some (m :: ms, fd)

theorem sendAll_frames (ms : List Ttlv) (hb : ∀ m ∈ ms, Built m)
    (hsize : ∀ m ∈ ms, (wire m).length ≤ passMaxMsg) (buf : Bytes) (fd : List WriteEvent)
    (hbuf : buf.length = passMaxMsg) (hfd : Progress fd) :
    sendAll buf fd ms = (ms.map ttlvCalcSize, (ms.map frame).flatten) := by
  induction ms generalizing buf fd with
  | nil => rfl
  | cons m ms ih =>
    obtain ⟨buf', fd', hsend, hbuf', hfd'⟩ :=
      msgSend_frame buf fd m (hb m (by simp)) hbuf hfd (hsize m (by simp))
    have hrest := ih (fun m hm => hb m (by simp [hm])) (fun m hm => hsize m (by simp [hm]))
      buf' fd' hbuf' hfd'
    simp only [sendAll, hsend, hrest, List.map_cons, List.flatten_cons]

theorem recvAll_frames (ms : List Ttlv) (hb : ∀ m ∈ ms, Built m)
    (hsize : ∀ m ∈ ms, (wire m).length ≤ passMaxMsg) (buf : Bytes) (fd : List ReadEvent)
    (rest : Bytes) (hbuf : buf.length = passMaxMsg)
    (hfd : available fd = (ms.map frame).flatten ++ rest) :
    ∃ fd', recvAll ms.length buf fd = some (ms, fd') ∧ available fd' = rest := by
  induction ms generalizing buf fd with
  | nil => exact ⟨fd, rfl, by simpa using hfd⟩
  | cons m ms ih =>
    simp only [List.map_cons, List.flatten_cons, List.append_assoc] at hfd
    obtain ⟨buf1, fd1, hrecv, hbuf1, hfd1⟩ :=
      msgRecv_frame buf fd m _ (hb m (by simp)) hbuf (hsize m (by simp)) hfd
    obtain ⟨fd2, hrest, hfd2⟩ := ih (fun m hm => hb m (by simp [hm]))
      (fun m hm => hsize m (by simp [hm])) buf1 fd1 hbuf1 hfd1
    exact ⟨fd2, by simp only [List.length_cons, recvAll, hrecv, hrest], hfd2⟩

/-- Framing round trip.  `ms` are messages built with the constructors whose
size, taken over the integers, is at most `PASS_MAX_MSG` (there it is what
`ttlv_calc_size` computes).  Under every chunking and interruption of the
writes and of the reads, all sends succeed, and as many receives return
exactly the messages and leave no octet behind. -/
theorem msg_round_trip (ms : List Ttlv) (hb : ∀ m ∈ ms, Built m)
    (hsize : ∀ m ∈ ms, (wire m).length ≤ passMaxMsg)
    (sendBuf recvBuf : Bytes) (hsend : sendBuf.length = passMaxMsg)
    (hrecv : recvBuf.length = passMaxMsg)
    (writes : List WriteEvent) (hwrites : Progress writes)
    (reads : List ReadEvent) (hreads : Delivering reads)
    (hstream : chunks reads = (sendAll sendBuf writes ms).2) :
    (sendAll sendBuf writes ms).1 = ms.map ttlvCalcSize ∧
      ∃ reads', recvAll ms.length recvBuf reads = some (ms, reads') ∧ available reads' = [] := by
  have hsent := sendAll_frames ms hb hsize sendBuf writes hsend hwrites
  rw [hsent] at hstream ⊢
  refine ⟨rfl, ?_⟩
  apply recvAll_frames ms hb hsize recvBuf reads [] hrecv
  rw [available_of_delivering reads hreads, hstream, List.append_nil]

/-- A struct with a text child, then a bare integer, cut into odd pieces on both
sides. -/
theorem msg_round_trip_pair :
    let greeting := ttlvAppendChild (ttlvNewStruct 300) [ttlvNewText 400 [104, 0, 105]]
    let code := ttlvNewInt 7 (-1)
    let stream := frame greeting ++ frame code
    (sendAll (List.replicate passMaxMsg 0) [.wrote 1, .eintr, .wrote 6] [greeting, code]).1 =
        [greeting, code].map ttlvCalcSize ∧
      ∃ reads', recvAll 2 (List.replicate passMaxMsg 255)
          [.data (stream.take 3), .eintr, .data (stream.drop 3)] = some ([greeting, code], reads') ∧
        available reads' = [] := by
  intro greeting code stream
  have hbuilt : ∀ m ∈ [greeting, code], Built m := by
    simp only [List.mem_cons, List.not_mem_nil, or_false, forall_eq_or_imp, forall_eq]
    refine ⟨.appendChild _ _ (.struct _ (by decide)) rfl ?_, .int _ _ (by decide)⟩
    simpa using Built.text 400 [104, 0, 105] (by decide) (by decide)
  have hsize : ∀ m ∈ [greeting, code], (wire m).length ≤ passMaxMsg := by decide
  have hbuf : ∀ b : UInt8, (List.replicate passMaxMsg b).length = passMaxMsg :=
    fun b => List.length_replicate
  have hwrites : Progress [.wrote 1, .eintr, .wrote 6] := by
    simp [Progress]
  refine msg_round_trip [greeting, code] hbuilt hsize _ _ (hbuf 0) (hbuf 255) _ hwrites _ ?_ ?_
  · have hhead : stream.take 3 ≠ [] := by decide
    have htail : stream.drop 3 ≠ [] := by decide
    simp [Delivering, hhead, htail]
  · rw [sendAll_frames _ hbuilt hsize _ _ (hbuf 0) hwrites]
    simp only [chunks, List.append_nil, List.take_append_drop, List.map_cons, List.map_nil,
      List.flatten_cons, List.flatten_nil]
    rfl

end Sexpect.Guarantees
