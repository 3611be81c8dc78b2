import Sexpect.Guarantees.Framing

/-!
# What `msg_recv` accepts

`RecvSound` is the contract of the receiver: nothing is stored past the buffer,
and a message is returned only for a frame whose magic number, header and whole
rounded body came from the descriptor in this call and decoded completely.
The code does not keep it.  The results of `readn` and `ttlv_decode` are
compared as unsigned words, so that `-1` passes; `ttlv_decode` leaves a partial
list behind on one of its failures; and the size check wraps for eight values of
the length field.  `RecvCondition` is the exact set of calls without these.
-/
namespace Sexpect.Guarantees
open Sexpect.Lib Sexpect.Source

/-- The size of the body announced by the header that the descriptor delivers
behind the magic number, rounded as the source rounds it. -/
def announced (fd : List ReadEvent) : Nat := round8 (beDecode (((available fd).drop 8).take 4))

/-- Magic number and header arrive and the magic number is right. -/
def HasHeader (fd : List ReadEvent) : Prop :=
  12 ≤ (available fd).length ∧ beDecode ((available fd).take 4) = passMagic

/-- The frame behind the magic number, as the descriptor delivers it. -/
def delivered (fd : List ReadEvent) : Bytes :=
  ((available fd).drop 4).take (tagHdrSize + announced fd)

/-- What the receive buffer holds in the place of the frame when the body breaks
off: the octets that arrived, then the ones that were there before. -/
def mixed (buf : Bytes) (fd : List ReadEvent) : Bytes :=
  ((available fd).drop 4 ++ buf.drop ((available fd).length - 4)).take (tagHdrSize + announced fd)

/-- The contract of one call of `msg_recv`. -/
def RecvSound (buf : Bytes) (fd : List ReadEvent) : Prop :=
  ∃ msg buf' fd', msgRecv buf fd = .returned msg buf' fd' ∧
    (msg ≠ .null →
      HasHeader fd ∧ tagHdrSize + announced fd ≤ passMaxMsg ∧
        12 + announced fd ≤ (available fd).length ∧
        ttlvDecode (delivered fd) = (((tagHdrSize + announced fd : Nat) : Int), msg))

/-- The calls that keep the contract: the size check does not wrap in front of a
body larger than the buffer, a complete body does not fail in `ttlv_decode` with
a partial list, and a body broken off by a hard error leaves a buffer that
`ttlv_decode` makes nothing of. -/
def RecvCondition (buf : Bytes) (fd : List ReadEvent) : Prop :=
  HasHeader fd →
    if 2 ^ 32 ≤ tagHdrSize + announced fd then (available fd).length - 4 ≤ passMaxMsg
    else tagHdrSize + announced fd ≤ passMaxMsg →
      if 12 + announced fd ≤ (available fd).length then
        (ttlvDecode (delivered fd)).1 < 0 → (ttlvDecode (delivered fd)).2 = .null
      else failing fd = true → (ttlvDecode (mixed buf fd)).2 = .null

theorem announced_lt (fd : List ReadEvent) : announced fd < 2 ^ 32 := by
  unfold announced round8
  omega

/-- `ttlv_decode` either fails or consumes the whole buffer. -/
theorem ttlvDecode_fst (buf : Bytes) (hbuf : buf.length < 2 ^ 31) :
    (ttlvDecode buf).1 = -1 ∨ (ttlvDecode buf).1 = buf.length := by
  unfold ttlvDecode
  split
  · exact .inr (toInt32_eq _ (Int.natCast_nonneg _) (by omega))
  · exact .inl rfl
  · exact .inl rfl

/-- The receive buffer behind the header read. -/
theorem header_field (buf hdr : Bytes) (h : hdr.length = 8) :
    ((writeAt buf 0 hdr).drop 4).take 4 = (hdr.drop 4).take 4 := by
  simp only [writeAt, List.take_zero, List.nil_append]
  rw [List.drop_append_of_le_length (by omega),
    List.take_append_of_le_length (by rw [List.length_drop]; omega)]

theorem drop_four_split (fd : List ReadEvent) (h : 12 ≤ (available fd).length) :
    (((available fd).drop 4).take 8).length = 8 ∧
      ((available fd).drop 4).take 8 ++ (available fd).drop 12 = (available fd).drop 4 := by
  constructor
  · rw [List.length_take_of_le]
    rw [List.length_drop]
    omega
  · conv_rhs => rw [← List.take_append_drop 8 ((available fd).drop 4), List.drop_drop]

theorem announced_eq (buf : Bytes) (fd : List ReadEvent) (h : 12 ≤ (available fd).length) :
    round8 (beDecode (((writeAt buf 0 (((available fd).drop 4).take 8)).drop 4).take 4)) =
      announced fd := by
  rw [header_field _ _ (drop_four_split fd h).1, List.drop_take, List.take_take, List.drop_drop]
  rfl

/-- The buffer behind a body of which `k` octets arrived. -/
theorem filled (buf : Bytes) (fd : List ReadEvent) (k : Nat) (h : 12 ≤ (available fd).length)
    (hbuf : 8 ≤ buf.length) :
    writeAt (writeAt buf 0 (((available fd).drop 4).take 8)) 8 (((available fd).drop 12).take k) =
      writeAt buf 0 (((available fd).drop 4).take (8 + k)) := by
  have hlen := (drop_four_split fd h).1
  have hjoin := writeAt_writeAt buf 0 (((available fd).drop 4).take 8)
    (((available fd).drop 12).take k) (by omega)
  rw [hlen, Nat.zero_add] at hjoin
  rw [hjoin, List.take_add, List.drop_drop]

/-- `msg_recv` on a complete frame of admissible size. -/
theorem msgRecv_complete (buf : Bytes) (fd : List ReadEvent) (hbuf : buf.length = passMaxMsg)
    (hhdr : HasHeader fd) (hmax : tagHdrSize + announced fd ≤ passMaxMsg)
    (hall : 12 + announced fd ≤ (available fd).length) :
    ∃ buf' fd', msgRecv buf fd = .returned (ttlvDecode (delivered fd)).2 buf' fd' := by
  obtain ⟨fd1, hhead, havail, -⟩ := msgRecv_header buf fd hhdr.1 hhdr.2
  have hsize : passMaxMsg = 65536 := rfl
  simp only [tagHdrSize] at hmax
  obtain ⟨fd2, hread, -, -⟩ := readn_enough fd1 (announced fd)
    (by rw [havail, List.length_drop]; omega)
  rw [havail] at hread
  have hdlen : (delivered fd).length = 8 + announced fd := by
    rw [delivered, tagHdrSize, List.length_take_of_le]
    rw [List.length_drop]
    omega
  have htaken : (writeAt buf 0 (((available fd).drop 4).take (8 + announced fd))).take
      (8 + announced fd) = delivered fd := by
    have h := take_writeAt buf 0 (delivered fd) (by omega)
    rw [hdlen] at h
    simpa [delivered, tagHdrSize] using h
  have hblen : (((available fd).drop 12).take (announced fd)).length = announced fd := by
    rw [List.length_take_of_le]
    rw [List.length_drop]
    omega
  refine ⟨writeAt buf 0 (((available fd).drop 4).take (8 + announced fd)), fd2, ?_⟩
  rw [hhead, msgRecvBody]
  simp only [announced_eq buf fd hhdr.1, hread, tagHdrSize, hblen,
    filled buf fd _ hhdr.1 (by omega), toInt32_eq (announced fd : Int) (by omega) (by omega),
    toUInt32_natCast (announced fd) (by omega)]
  rw [if_neg (by omega), if_neg (by omega), if_neg (by omega),
    show (announced fd + 8) % 2 ^ 32 = 8 + announced fd by omega, htaken]
  have hfst := ttlvDecode_fst (delivered fd) (by omega)
  rw [hdlen] at hfst
  rw [if_neg]
  unfold toUInt32
  omega

/-- A body that does not arrive whole. -/
theorem msgRecv_broken (buf : Bytes) (fd : List ReadEvent) (hhdr : HasHeader fd)
    (hshort : (available fd).length < 12 + announced fd) :
    ∃ fd1 fd2, msgRecv buf fd = msgRecvBody (writeAt buf 0 (((available fd).drop 4).take 8)) fd1 ∧
      available fd1 = (available fd).drop 12 ∧
      (available fd1).length = (available fd).length - 12 ∧
      readn fd1 (announced fd) =
        (if failing fd then (-1 : Int) else (available fd1).length, available fd1, fd2) := by
  obtain ⟨fd1, hhead, havail, hfail⟩ := msgRecv_header buf fd hhdr.1 hhdr.2
  have hlen : (available fd1).length = (available fd).length - 12 := by
    rw [havail, List.length_drop]
  have h12 := hhdr.1
  obtain ⟨fd2, hread⟩ := readn_short fd1 (announced fd) (by omega)
  rw [hfail] at hread
  exact ⟨fd1, fd2, hhead, havail, hlen, hread⟩

/-- `msg_recv` on a body broken off by end of file. -/
theorem msgRecv_eof (buf : Bytes) (fd : List ReadEvent) (hhdr : HasHeader fd)
    (hmax : tagHdrSize + announced fd ≤ passMaxMsg)
    (hshort : (available fd).length < 12 + announced fd) (heof : failing fd = false) :
    ∃ buf' fd', msgRecv buf fd = .returned .null buf' fd' := by
  obtain ⟨fd1, fd2, hhead, havail, hlen, hread⟩ := msgRecv_broken buf fd hhdr hshort
  have hsize : passMaxMsg = 65536 := rfl
  have h12 := hhdr.1
  simp only [tagHdrSize] at hmax
  simp only [heof, Bool.false_eq_true, if_false] at hread
  rw [hhead, msgRecvBody]
  simp only [announced_eq buf fd hhdr.1, hread, tagHdrSize,
    toInt32_eq ((available fd1).length : Int) (by omega) (by omega),
    toUInt32_natCast (available fd1).length (by omega)]
  rw [if_neg (by omega), if_neg (by omega), if_pos (by omega)]
  exact ⟨_, _, rfl⟩

theorem toUInt32_neg_one : toUInt32 (toInt32 (-1)) = 4294967295 := by decide +kernel

/-- `msg_recv` on a body broken off by a hard error decodes what it finds. -/
theorem msgRecv_error (buf : Bytes) (fd : List ReadEvent) (hbuf : buf.length = passMaxMsg)
    (hhdr : HasHeader fd) (hmax : tagHdrSize + announced fd ≤ passMaxMsg)
    (hshort : (available fd).length < 12 + announced fd) (herr : failing fd = true) :
    ∃ buf' fd', msgRecv buf fd = .returned (ttlvDecode (mixed buf fd)).2 buf' fd' := by
  obtain ⟨fd1, fd2, hhead, havail, hlen, hread⟩ := msgRecv_broken buf fd hhdr hshort
  have hsize : passMaxMsg = 65536 := rfl
  have h12 := hhdr.1
  simp only [tagHdrSize] at hmax
  simp only [herr, if_true] at hread
  have hrest : ((available fd).drop 4).take (8 + (available fd1).length) = (available fd).drop 4 :=
    List.take_of_length_le (by rw [List.length_drop]; omega)
  have hfill := filled buf fd (available fd1).length hhdr.1 (by omega)
  rw [hrest, ← havail, List.take_length] at hfill
  have htaken : (writeAt buf 0 ((available fd).drop 4)).take (8 + announced fd) = mixed buf fd := by
    simp [writeAt, mixed, tagHdrSize]
  have hmlen : (mixed buf fd).length = 8 + announced fd := by
    rw [mixed, tagHdrSize, List.length_take_of_le]
    simp only [List.length_append, List.length_drop]
    omega
  refine ⟨writeAt buf 0 ((available fd).drop 4), fd2, ?_⟩
  rw [hhead, msgRecvBody]
  simp only [announced_eq buf fd hhdr.1, hread, tagHdrSize, toUInt32_neg_one, hfill]
  rw [if_neg (by omega), if_neg (by omega), if_neg (by omega),
    show (announced fd + 8) % 2 ^ 32 = 8 + announced fd by omega, htaken]
  have hfst := ttlvDecode_fst (mixed buf fd) (by omega)
  rw [hmlen] at hfst
  rw [if_neg]
  unfold toUInt32
  omega

/-- `msg_recv` behind a wrapped size check: the body is read into the buffer
whatever its size, and never returned. -/
theorem msgRecv_wrapped (buf : Bytes) (fd : List ReadEvent) (hhdr : HasHeader fd)
    (hwrap : 2 ^ 32 ≤ tagHdrSize + announced fd) :
    if (available fd).length - 4 ≤ passMaxMsg then
      ∃ buf' fd', msgRecv buf fd = .returned .null buf' fd'
    else msgRecv buf fd = .overrun := by
  obtain ⟨fd1, hhead, havail, hfail⟩ := msgRecv_header buf fd hhdr.1 hhdr.2
  have hsize : passMaxMsg = 65536 := rfl
  have hlen : (available fd1).length = (available fd).length - 12 := by
    rw [havail, List.length_drop]
  have h12 := hhdr.1
  have hlt := announced_lt fd
  simp only [tagHdrSize] at hwrap
  have htotal : (announced fd + 8) % 2 ^ 32 = 0 := by
    unfold announced round8 at hwrap hlt ⊢
    omega
  by_cases hall : announced fd ≤ (available fd1).length
  · -- the whole body arrives: it is larger than the buffer
    obtain ⟨fd2, hread, -, -⟩ := readn_enough fd1 (announced fd) hall
    rw [if_neg (by omega), hhead, msgRecvBody]
    simp only [announced_eq buf fd hhdr.1, hread, tagHdrSize, htotal, List.length_take_of_le hall]
    rw [if_neg (by omega), if_pos (by omega)]
  · obtain ⟨fd2, hread⟩ := readn_short fd1 (announced fd) (by omega)
    rw [hhead, msgRecvBody]
    simp only [announced_eq buf fd hhdr.1, hread, tagHdrSize, htotal, Nat.not_lt_zero, if_false,
      List.take_zero, gt_iff_lt]
    by_cases hfit : (available fd).length - 4 ≤ passMaxMsg
    · rw [if_pos hfit, if_neg (by omega)]
      by_cases herr : failing fd1 = true
      · -- the result -1 passes, but nothing is decoded
        simp only [herr, if_true, toUInt32_neg_one]
        rw [if_neg (by omega), if_neg (by unfold toUInt32; omega)]
        exact ⟨_, _, rfl⟩
      · simp only [herr, if_false, Bool.false_eq_true,
          toInt32_eq ((available fd1).length : Int) (by omega) (by omega),
          toUInt32_natCast (available fd1).length (by omega)]
        rw [if_pos (by omega)]
        exact ⟨_, _, rfl⟩
    · rw [if_neg hfit, if_pos (by omega)]

/-- `msg_recv` of an oversize frame. -/
theorem msgRecv_oversize (buf : Bytes) (fd : List ReadEvent) (hhdr : HasHeader fd)
    (hwrap : ¬ 2 ^ 32 ≤ tagHdrSize + announced fd) (hmax : passMaxMsg < tagHdrSize + announced fd) :
    ∃ buf' fd', msgRecv buf fd = .returned .null buf' fd' := by
  obtain ⟨fd1, hhead, -, -⟩ := msgRecv_header buf fd hhdr.1 hhdr.2
  simp only [tagHdrSize] at hwrap hmax
  rw [hhead, msgRecvBody]
  simp only [announced_eq buf fd hhdr.1, tagHdrSize]
  rw [if_pos (by omega)]
  exact ⟨_, _, rfl⟩

theorem recvSound_null (buf : Bytes) (fd : List ReadEvent)
    (h : ∃ buf' fd', msgRecv buf fd = .returned .null buf' fd') : RecvSound buf fd := by
  obtain ⟨buf', fd', hr⟩ := h
  exact ⟨_, _, _, hr, fun hne => absurd rfl hne⟩

/-- A call keeps the contract of `msg_recv` exactly under `RecvCondition`. -/
theorem msgRecv_sound_iff (buf : Bytes) (fd : List ReadEvent) (hbuf : buf.length = passMaxMsg) :
    RecvSound buf fd ↔ RecvCondition buf fd := by
  by_cases hhdr : HasHeader fd
  swap
  · exact iff_of_true (recvSound_null _ _ (msgRecv_no_header buf fd hhdr)) (fun h => absurd h hhdr)
  unfold RecvCondition
  simp only [hhdr, forall_const]
  by_cases hwrap : 2 ^ 32 ≤ tagHdrSize + announced fd
  · have h := msgRecv_wrapped buf fd hhdr hwrap
    rw [if_pos hwrap]
    split at h
    · rename_i hfit
      exact iff_of_true (recvSound_null _ _ h) hfit
    · rename_i hfit
      refine iff_of_false ?_ hfit
      rintro ⟨msg, buf', fd', hr, -⟩
      rw [h] at hr
      cases hr
  rw [if_neg hwrap]
  by_cases hmax : tagHdrSize + announced fd ≤ passMaxMsg
  swap
  · exact iff_of_true (recvSound_null _ _ (msgRecv_oversize buf fd hhdr hwrap (by omega)))
      (fun h => absurd h hmax)
  simp only [hmax, forall_const]
  by_cases hall : 12 + announced fd ≤ (available fd).length
  · rw [if_pos hall]
    obtain ⟨buf', fd', hr⟩ := msgRecv_complete buf fd hbuf hhdr hmax hall
    have hdlen : (delivered fd).length = tagHdrSize + announced fd := by
      rw [delivered, List.length_take_of_le]
      rw [List.length_drop, tagHdrSize]
      omega
    constructor
    · rintro ⟨msg, buf2, fd2, hr2, hs⟩ hneg
      rw [hr] at hr2
      cases hr2
      by_contra hne
      have hd := (hs hne).2.2.2
      rw [hd] at hneg
      simp only at hneg
      omega
    · intro hc
      refine ⟨_, _, _, hr, fun hne => ⟨hhdr, hmax, hall, ?_⟩⟩
      have hsize : passMaxMsg = 65536 := rfl
      rcases ttlvDecode_fst (delivered fd) (by omega) with h | h
      · exact absurd (hc (by omega)) hne
      · rw [← hdlen, ← h]
  · rw [if_neg hall]
    by_cases herr : failing fd = true
    · obtain ⟨buf', fd', hr⟩ := msgRecv_error buf fd hbuf hhdr hmax (by omega) herr
      constructor
      · rintro ⟨msg, buf2, fd2, hr2, hs⟩ -
        rw [hr] at hr2
        cases hr2
        by_contra hne
        exact hall (hs hne).2.2.1
      · intro hc
        rw [hc herr] at hr
        exact recvSound_null _ _ ⟨_, _, hr⟩
    · exact iff_of_true (recvSound_null _ _ (msgRecv_eof buf fd hhdr hmax (by omega)
        (by simpa using herr))) (fun h => absurd h herr)

/-- An `INPUT` message of eight octets: the wire form of one keystroke burst. -/
def inputPassword : Bytes := wire (ttlvNewRaw 4 [112, 97, 115, 115, 119, 111, 114, 100])

/-- A descriptor that delivers magic number and header of such a message and
then fails, as it does with `ECONNRESET` when the peer is killed. -/
def resetAfterHeader : List ReadEvent :=
  [.data (beEncode 4 passMagic ++ inputPassword.take 8), .error]

/-- The broken frame is answered with the octets of the message before it. -/
theorem msgRecv_stale :
    let buf := writeAt (List.replicate passMaxMsg 0) 0 inputPassword
    buf.length = passMaxMsg ∧ ¬ RecvSound buf resetAfterHeader := by
  intro buf
  have hlen : buf.length = passMaxMsg := by
    have h16 : inputPassword.length = 16 := by decide
    rw [writeAt_length _ _ _ (by rw [h16, List.length_replicate, passMaxMsg]; omega)]
    exact List.length_replicate
  have hmixed : mixed buf resetAfterHeader = inputPassword := by
    have hrest : buf.drop 8 = inputPassword.drop 8 ++ List.replicate (passMaxMsg - 16) 0 := by
      have h16 : inputPassword.length = 16 := by decide
      simp only [buf, writeAt, List.take_zero, List.nil_append, h16, List.drop_replicate,
        Nat.zero_add]
      rw [List.drop_append_of_le_length (by omega)]
    have h12 : (available resetAfterHeader).length = 12 := by decide
    have hann : announced resetAfterHeader = 8 := by decide
    have hdrop : (available resetAfterHeader).drop 4 = inputPassword.take 8 := by decide
    rw [mixed, h12, hann, hdrop, hrest, ← List.append_assoc, List.take_append_drop]
    exact List.take_left' (by decide)
  obtain ⟨buf', fd', hr⟩ := msgRecv_error buf resetAfterHeader hlen ⟨by decide, by decide⟩
    (by decide) (by decide) (by decide)
  refine ⟨hlen, ?_⟩
  rintro ⟨msg, buf2, fd2, hr2, hs⟩
  rw [hr, hmixed] at hr2
  cases hr2
  have hcomplete := (hs (by decide +kernel)).2.2.1
  revert hcomplete
  decide

/-- A complete frame keeps the contract. -/
theorem msgRecv_sound_input :
    RecvSound (List.replicate passMaxMsg 0) [.data (beEncode 4 passMagic), .eintr,
      .data inputPassword] := by
  apply (msgRecv_sound_iff (List.replicate passMaxMsg 0) _ List.length_replicate).mpr
  intro _
  rw [if_neg (by decide)]
  intro _
  rw [if_pos (by decide)]
  intro hneg
  exact absurd hneg (by decide +kernel)

/-! ## The length field -/

theorem lengthField_lt (buf : Bytes) : lengthField buf < 2 ^ 32 := by
  have hlt := beDecode_lt ((buf.drop 4).take 4)
  have hlen : ((buf.drop 4).take 4).length ≤ 4 := List.length_take_le 4 _
  calc lengthField buf < 256 ^ ((buf.drop 4).take 4).length := hlt
    _ ≤ 256 ^ 4 := Nat.pow_le_pow_right (by omega) hlen

/-- The request stays within the buffer, is aligned and covers the length field,
except for the fifteen largest values of the field. -/
theorem bodyRequest_sound_iff (buf : Bytes) :
    (∀ size, bodyRequest buf = some size →
        size ≤ passMaxMsg - tagHdrSize ∧ size % 8 = 0 ∧ lengthField buf ≤ size) ↔
      lengthField buf < 2 ^ 32 - 15 := by
  have hfield := lengthField_lt buf
  have hmax : passMaxMsg = 65536 := rfl
  have hround : round8 (lengthField buf) = (lengthField buf + 7) % 2 ^ 32 / 8 * 8 := rfl
  by_cases hbig : (round8 (lengthField buf) + tagHdrSize) % 2 ^ 32 > passMaxMsg
  · have hnone : bodyRequest buf = none := if_pos hbig
    rw [tagHdrSize] at hbig
    simp only [hnone, reduceCtorEq, false_implies, implies_true, true_iff]
    omega
  · have hsome : bodyRequest buf = some (round8 (lengthField buf)) := if_neg hbig
    rw [tagHdrSize] at hbig
    simp only [hsome, Option.some.injEq, forall_eq', tagHdrSize]
    omega

/-- The first value of the field that wraps in the sum asks for 4294967288 octets, the
first one that wraps in the rounding for none. -/
theorem bodyRequest_wraps :
    lengthField (beEncode 4 1025 ++ beEncode 4 0xFFFFFFF1) = 0xFFFFFFF1 ∧
      bodyRequest (beEncode 4 1025 ++ beEncode 4 0xFFFFFFF1) = some 4294967288 ∧
      ¬ 4294967288 ≤ passMaxMsg - tagHdrSize ∧
      lengthField (beEncode 4 1025 ++ beEncode 4 0xFFFFFFF9) = 0xFFFFFFF9 ∧
      bodyRequest (beEncode 4 1025 ++ beEncode 4 0xFFFFFFF9) = some 0 ∧
      ¬ 0xFFFFFFF9 ≤ 0 := by
  decide

end Sexpect.Guarantees
