import Sexpect.Guarantees.WireFormat

/-!
# What `ttlv_decode` accepts

`WellFormed` is the grammar of encodings.  `Carries b m` says which trees the
decoder reads from which buffers; it is the loop of `ttlv_decode` without its
bookkeeping (`ttlvDecode_iff`).  A round finds a header that passes its checks,
`Checked`, or gives up, `Refused`.  The decoder passes the word with tag and type
to `ttlv_valid_len`, which compares it with the types alone: the length field of an
INT, LONG or BOOL node is checked only when the tag is zero.  `Labelled true` are
the buffers that are accepted because of that.
-/
namespace Sexpect.Guarantees
open Sexpect.Lib Sexpect.Source

def header (tag type length : Nat) : Bytes := beEncode 4 (tag * 256 + type) ++ beEncode 4 length

/-- INT, LONG and BOOL. -/
def Scalar (type : Nat) : Prop := type = 1 ∨ type = 2 ∨ type = 3

def scalarLength (type : Nat) : Nat := if type = 2 then 8 else 4

/-- TEXT and RAW. -/
def Counted (type : Nat) : Prop := type = 4 ∨ type = 5

/-- A concatenation of nodes. -/
inductive WellFormed : Bytes → Prop
  | nil : WellFormed []
  | scalar (tag type : Nat) (area rest : Bytes) : tag < 2 ^ 24 → Scalar type →
      area.length = 8 → WellFormed rest →
      WellFormed (header tag type (scalarLength type) ++ area ++ rest)
  | counted (tag type length : Nat) (area rest : Bytes) : tag < 2 ^ 24 → Counted type →
      length < 2 ^ 32 → area.length = length + padding length → WellFormed rest →
      WellFormed (header tag type length ++ area ++ rest)
  | struct (tag : Nat) (body rest : Bytes) : tag < 2 ^ 24 → body.length < 2 ^ 32 →
      body.length % 8 = 0 → WellFormed body → WellFormed rest →
      WellFormed (header tag 6 body.length ++ body ++ rest)

/-- A concatenation of nodes in which a scalar node with a tag other than zero may
carry another length, up to the number of octets behind its header; `wrong` says
whether one does. -/
inductive Labelled : Bool → Bytes → Prop
  | nil : Labelled false []
  | scalar (wrong : Bool) (tag type : Nat) (area rest : Bytes) : tag < 2 ^ 24 → Scalar type →
      area.length = 8 → Labelled wrong rest →
      Labelled wrong (header tag type (scalarLength type) ++ area ++ rest)
  | mislabelled (wrong : Bool) (tag type length : Nat) (area rest : Bytes) : 0 < tag →
      tag < 2 ^ 24 → Scalar type → length ≠ scalarLength type → length < 2 ^ 32 →
      length ≤ 8 + rest.length → area.length = 8 → Labelled wrong rest →
      Labelled true (header tag type length ++ area ++ rest)
  | counted (wrong : Bool) (tag type length : Nat) (area rest : Bytes) : tag < 2 ^ 24 →
      Counted type → length < 2 ^ 32 → area.length = length + padding length →
      Labelled wrong rest → Labelled wrong (header tag type length ++ area ++ rest)
  | struct (below wrong : Bool) (tag : Nat) (body rest : Bytes) : tag < 2 ^ 24 →
      body.length < 2 ^ 32 → body.length % 8 = 0 → Labelled below body → Labelled wrong rest →
      Labelled (below || wrong) (header tag 6 body.length ++ body ++ rest)

/-- The decoder reads the tree `m` from the buffer. -/
inductive Carries : Bytes → Ttlv → Prop
  | nil : Carries [] .null
  | leaf (tag type length : Nat) (area rest : Bytes) (value : TtlvValue) (next : Ttlv) :
      tag < 2 ^ 24 → 0 < type → type < 6 → length < 2 ^ 32 →
      ttlvValidLen (tag * 256 + type) length = true → length ≤ (area ++ rest).length →
      ttlvValueNtoh type length (area ++ rest) = some (value, area.length) → Carries rest next →
      Carries (header tag type length ++ area ++ rest) (.node tag length value .null next)
  | struct (tag : Nat) (body rest : Bytes) (child next : Ttlv) : tag < 2 ^ 24 →
      body.length < 2 ^ 31 → ttlvValidLen (tag * 256 + 6) body.length = true →
      Carries body child → Carries rest next →
      Carries (header tag 6 body.length ++ body ++ rest) (.node tag 0 .struct child next)

/-! ## Headers -/

theorem length_header (tag type length : Nat) : (header tag type length).length = 8 := by
  simp [header]

/-- The first eight octets of a buffer are a header. -/
theorem header_of_length (b : Bytes) (h : 8 ≤ b.length) :
    b = header (beDecode (b.take 4) / 256) (beDecode (b.take 4) % 256)
      (beDecode ((b.drop 4).take 4)) ++ b.drop 8 := by
  have h1 : beEncode 4 (beDecode (b.take 4)) = b.take 4 := by
    have := beEncode_beDecode (b.take 4)
    rwa [List.length_take_of_le (by omega)] at this
  have h2 : beEncode 4 (beDecode ((b.drop 4).take 4)) = (b.drop 4).take 4 := by
    have := beEncode_beDecode ((b.drop 4).take 4)
    rwa [List.length_take_of_le (by rw [List.length_drop]; omega)] at this
  have hword : beDecode (b.take 4) / 256 * 256 + beDecode (b.take 4) % 256 = beDecode (b.take 4) :=
    Nat.div_add_mod' _ _
  rw [header, hword, h1, h2, List.append_assoc]
  have h3 : (b.drop 4).take 4 ++ b.drop 8 = b.drop 4 := by
    have := List.take_append_drop 4 (b.drop 4)
    rwa [List.drop_drop] at this
  rw [h3, List.take_append_drop]

/-- A value area lies within the buffer. -/
theorem ttlvValueNtoh_le {type length ret : Nat} {buf : Bytes} {value : TtlvValue}
    (h : ttlvValueNtoh type length buf = some (value, ret)) : ret ≤ buf.length := by
  unfold ttlvValueNtoh at h
  split at h
  case h_6 =>
    simp only [Option.some.injEq, Prod.mk.injEq] at h
    omega
  case h_7 => cases h
  all_goals
    split at h
    · cases h
    · simp only [Option.some.injEq, Prod.mk.injEq] at h
      omega

theorem link_eq_done {tag length : Nat} {value : TtlvValue} {child m : Ttlv} {r : DecodeResult}
    (h : r.link tag length value child = .done m) :
    ∃ next, r = .done next ∧ m = .node tag length value child next := by
  cases r with
  | done next =>
    cases h
    exact ⟨next, rfl, rfl⟩
  | freed => cases h
  | kept next => cases h

/-! ## One round -/

theorem header_fields (tag type length : Nat) (rest : Bytes) (ht : tag < 2 ^ 24)
    (hty : type < 256) (hl : length < 2 ^ 32) :
    beDecode ((header tag type length ++ rest).take 4) = tag * 256 + type ∧
      beDecode (((header tag type length ++ rest).drop 4).take 4) = length ∧
      (header tag type length ++ rest).drop 8 = rest :=
  header_read tag type length rest ht hty hl

/-- A header that passes the checks of a round, with the octets behind it. -/
structure Checked (tag type length : Nat) (body : Bytes) : Prop where
  tag_lt : tag < 2 ^ 24
  type_pos : 0 < type
  type_lt : type < 7
  length_lt : length < 2 ^ 32
  valid : ttlvValidLen (tag * 256 + type) length = true
  room : length ≤ body.length

/-- What makes a round give up on its header. -/
def Refused (b : Bytes) : Prop :=
  b.length < tagHdrSize ∨ (beDecode (b.take 4) % 256 = 0 ∨ beDecode (b.take 4) % 256 ≥ 7) ∨
    ¬ ttlvValidLen (beDecode (b.take 4)) (beDecode ((b.drop 4).take 4)) = true ∨
    (b.drop 8).length < beDecode ((b.drop 4).take 4)

/-- Otherwise there is a header that passes. -/
theorem refused_or_checked (b : Bytes) : Refused b ∨
    ∃ tag type length body, b = header tag type length ++ body ∧ Checked tag type length body := by
  by_cases hrefused : Refused b
  · exact .inl hrefused
  simp only [Refused, not_or, not_not, not_lt, ge_iff_le, not_le] at hrefused
  obtain ⟨h8, htype, hvalid, hroom⟩ := hrefused
  rw [tagHdrSize] at h8
  have hw1 := beDecode_lt (b.take 4)
  have hw2 := beDecode_lt ((b.drop 4).take 4)
  rw [List.length_take_of_le (by omega)] at hw1
  rw [List.length_take_of_le (by rw [List.length_drop]; omega)] at hw2
  refine .inr ⟨_, _, _, _, header_of_length b h8, ?_, ?_, ?_, ?_, ?_, ?_⟩
  · omega
  · omega
  · omega
  · omega
  · rw [Nat.div_add_mod']
    exact hvalid
  · omega

theorem Refused.round {b : Bytes} (h : Refused b) (again : Bytes → DecodeResult) :
    ttlvDecodeRound again b = .freed := by
  unfold ttlvDecodeRound
  obtain h | h | h | h := h
  · rw [if_pos h]
  · simp only [if_pos h, ite_self]
  · simp only [if_pos h, ite_self]
  · simp only [if_pos h, ite_self]

section

variable {tag type length : Nat} {body : Bytes} {rounds : Nat}

/-- The checks of a round on such a header are all passed. -/
theorem Checked.fields (h : Checked tag type length body) :
    ¬ (header tag type length ++ body).length < tagHdrSize ∧
      beDecode ((header tag type length ++ body).take 4) = tag * 256 + type ∧
      beDecode (((header tag type length ++ body).drop 4).take 4) = length ∧
      (header tag type length ++ body).drop 8 = body ∧ (tag * 256 + type) / 256 = tag ∧
      (tag * 256 + type) % 256 = type ∧ ¬ (type = 0 ∨ type ≥ 7) ∧ ¬ body.length < length := by
  obtain ⟨ht, h0, h7, hl, -, hroom⟩ := h
  obtain ⟨h1, h2, h3⟩ := header_fields tag type length body ht (by omega) hl
  refine ⟨?_, h1, h2, h3, by omega, by omega, by omega, by omega⟩
  rw [List.length_append, length_header, tagHdrSize]
  omega

theorem loop_header :
    ttlvDecodeLoop (rounds + 1) (header tag type length ++ body) =
      ttlvDecodeRound (ttlvDecodeLoop rounds) (header tag type length ++ body) := by
  apply ttlvDecodeLoop_round
  rw [List.length_append, length_header]
  omega

/-- The exit of line 514. -/
theorem Checked.loop_cut (h : Checked tag type length body) (h6 : type ≠ 6)
    (hval : ttlvValueNtoh type length body = none) :
    ttlvDecodeLoop (rounds + 1) (header tag type length ++ body) = .kept .null := by
  obtain ⟨hhdr, h1, h2, h3, htag, htype, hty, hroom⟩ := h.fields
  rw [loop_header, ttlvDecodeRound, if_neg hhdr]
  simp only [h1, h2, h3, htag, htype, h.valid, if_neg hty, if_neg hroom, if_pos h6, hval, not_true,
    if_false]

theorem Checked.loop_leaf (h : Checked tag type length body) (h6 : type ≠ 6) {value : TtlvValue}
    {ret : Nat} (hval : ttlvValueNtoh type length body = some (value, ret)) :
    ttlvDecodeLoop (rounds + 1) (header tag type length ++ body) =
      (ttlvDecodeLoop rounds (body.drop ret)).link tag length value .null := by
  obtain ⟨hhdr, h1, h2, h3, htag, htype, hty, hroom⟩ := h.fields
  rw [loop_header, ttlvDecodeRound, if_neg hhdr]
  simp only [h1, h2, h3, htag, htype, h.valid, if_neg hty, if_neg hroom, if_pos h6, hval, not_true,
    if_false]

theorem Checked.loop_struct (h : Checked tag 6 length body) (hint : length < 2 ^ 31) {child : Ttlv}
    (hchild : ttlvDecodeLoop rounds (body.take length) = .done child) :
    ttlvDecodeLoop (rounds + 1) (header tag 6 length ++ body) =
      (ttlvDecodeLoop rounds (body.drop length)).link tag 0 .struct child := by
  obtain ⟨hhdr, h1, h2, h3, htag, htype, hty, hroom⟩ := h.fields
  have h6 : ¬ (6 ≠ 6) := fun hne => hne rfl
  have hret : ¬ toInt32 length < 0 := (toInt32_neg_iff _ h.length_lt).not.mpr (by omega)
  rw [loop_header, ttlvDecodeRound, if_neg hhdr]
  simp only [h1, h2, h3, htag, htype, h.valid, if_neg hty, if_neg hroom, if_neg h6, hchild, hret,
    not_true, if_false]

/-- The call for the body has failed, or its result is no `int`. -/
theorem Checked.loop_failed (h : Checked tag 6 length body)
    (hchild : length < 2 ^ 31 → ∀ child, ttlvDecodeLoop rounds (body.take length) ≠ .done child) :
    ttlvDecodeLoop (rounds + 1) (header tag 6 length ++ body) = .freed := by
  obtain ⟨hhdr, h1, h2, h3, htag, htype, hty, hroom⟩ := h.fields
  have h6 : ¬ (6 ≠ 6) := fun hne => hne rfl
  cases hresult : ttlvDecodeLoop rounds (body.take length) with
  | done child =>
    have hret : toInt32 length < 0 := by
      rw [toInt32_neg_iff _ h.length_lt]
      by_contra hint
      exact hchild (by omega) child hresult
    rw [loop_header, ttlvDecodeRound, if_neg hhdr]
    simp only [h1, h2, h3, htype, h.valid, if_neg hty, if_neg hroom, if_neg h6, hresult, hret,
      not_true, if_true, if_false]
  | freed | kept =>
    rw [loop_header, ttlvDecodeRound, if_neg hhdr]
    simp only [h1, h2, h3, htag, htype, h.valid, if_neg hty, if_neg hroom, if_neg h6, hresult,
      not_true, if_false]

end

/-! ## The loop -/

/-- What a completed loop has read. -/
theorem Carries.of_loop {rounds : Nat} {b : Bytes} {m : Ttlv}
    (h : ttlvDecodeLoop rounds b = .done m) : Carries b m := by
  induction rounds generalizing b m with
  | zero =>
    cases b with
    | nil =>
      cases h
      exact .nil
    | cons c b => cases h
  | succ rounds ih =>
    cases hb : b with
    | nil =>
      subst hb
      cases h
      exact .nil
    | cons c cs =>
      rw [← hb]
      obtain hrefused | ⟨tag, type, length, body, rfl, hck⟩ := refused_or_checked b
      · rw [ttlvDecodeLoop_round _ _ (by simp [hb]), hrefused.round] at h
        cases h
      · obtain ⟨ht, h0, h7, hl, hvalid, hroom⟩ := hck
        by_cases h6 : type = 6
        · subst h6
          by_cases hchild : length < 2 ^ 31 ∧
              ∃ child, ttlvDecodeLoop rounds (body.take length) = .done child
          · obtain ⟨hint, child, hchild⟩ := hchild
            rw [Checked.loop_struct ⟨ht, h0, h7, hl, hvalid, hroom⟩ hint hchild] at h
            obtain ⟨next, hnext, rfl⟩ := link_eq_done h
            have harea : (body.take length).length = length := List.length_take_of_le hroom
            have hnode := Carries.struct tag (body.take length) (body.drop length) child next ht
              (by rw [harea]; exact hint) (by rw [harea]; exact hvalid) (ih hchild) (ih hnext)
            rw [List.append_assoc, List.take_append_drop, harea] at hnode
            exact hnode
          · rw [Checked.loop_failed ⟨ht, h0, h7, hl, hvalid, hroom⟩
              (fun hint child hdone => hchild ⟨hint, child, hdone⟩)] at h
            cases h
        · cases hval : ttlvValueNtoh type length body with
          | none =>
            rw [Checked.loop_cut ⟨ht, h0, h7, hl, hvalid, hroom⟩ h6 hval] at h
            cases h
          | some result =>
            obtain ⟨value, ret⟩ := result
            rw [Checked.loop_leaf ⟨ht, h0, h7, hl, hvalid, hroom⟩ h6 hval] at h
            obtain ⟨next, hnext, rfl⟩ := link_eq_done h
            have harea : (body.take ret).length = ret := List.length_take_of_le (ttlvValueNtoh_le hval)
            have hnode := Carries.leaf tag type length (body.take ret) (body.drop ret) value next ht h0
              (by omega) hl hvalid (by rw [List.take_append_drop]; exact hroom)
              (by rw [List.take_append_drop, harea]; exact hval) (ih hnext)
            rw [List.append_assoc, List.take_append_drop] at hnode
            exact hnode

/-- The loop reads what the buffer carries. -/
theorem Carries.loop {b : Bytes} {m : Ttlv} (h : Carries b m) (rounds : Nat)
    (hr : b.length ≤ rounds) : ttlvDecodeLoop rounds b = .done m := by
  induction h generalizing rounds with
  | nil => cases rounds <;> rfl
  | leaf tag type length area rest value next ht h0 h6 hl hvalid hroom hval _ ih =>
    rw [List.append_assoc, List.length_append, length_header, List.length_append] at hr
    obtain ⟨rounds, rfl⟩ : ∃ r, rounds = r + 1 := ⟨rounds - 1, by omega⟩
    have hck : Checked tag type length (area ++ rest) := ⟨ht, h0, by omega, hl, hvalid, hroom⟩
    rw [List.append_assoc, hck.loop_leaf (by omega) hval, List.drop_left' rfl,
      ih rounds (by omega)]
    rfl
  | struct tag body rest child next ht hl hvalid _ _ ihc ihn =>
    rw [List.append_assoc, List.length_append, length_header, List.length_append] at hr
    obtain ⟨rounds, rfl⟩ : ∃ r, rounds = r + 1 := ⟨rounds - 1, by omega⟩
    have hck : Checked tag 6 body.length (body ++ rest) :=
      ⟨ht, by omega, by omega, by omega, hvalid, by rw [List.length_append]; omega⟩
    have hchild : ttlvDecodeLoop rounds ((body ++ rest).take body.length) = .done child := by
      rw [List.take_left' rfl]
      exact ihc rounds (by omega)
    rw [List.append_assoc, hck.loop_struct hl hchild, List.drop_left' rfl, ihn rounds (by omega)]
    rfl

/-- `ttlv_decode` succeeds with exactly the tree a buffer carries. -/
theorem ttlvDecode_iff (b : Bytes) (m : Ttlv) (hb : b.length < 2 ^ 31) :
    ttlvDecode b = ((b.length : Int), m) ↔ Carries b m := by
  have hint : toInt32 b.length = b.length := toInt32_eq _ (Int.natCast_nonneg _) (by omega)
  constructor
  · intro h
    unfold ttlvDecode at h
    split at h
    · rename_i head hloop
      obtain rfl := congrArg Prod.snd h
      exact .of_loop hloop
    · have := congrArg Prod.fst h
      simp only at this
      omega
    · have := congrArg Prod.fst h
      simp only at this
      omega
  · intro h
    rw [ttlvDecode, h.loop b.length le_rfl, hint]

theorem ttlvDecode_accepts (b : Bytes) (hb : b.length < 2 ^ 31) :
    (ttlvDecode b).1 = b.length ↔ ∃ m, Carries b m := by
  constructor
  · intro h
    exact ⟨(ttlvDecode b).2, (ttlvDecode_iff b _ hb).mp (by rw [← h])⟩
  · rintro ⟨m, h⟩
    rw [(ttlvDecode_iff b m hb).mpr h]

/-- Every other return value is negative. -/
theorem ttlvDecode_rejects (b : Bytes) (hb : b.length < 2 ^ 31)
    (h : (ttlvDecode b).1 ≠ b.length) : (ttlvDecode b).1 < 0 := by
  unfold ttlvDecode at h ⊢
  split
  · rename_i hloop
    rw [hloop] at h
    exact absurd (toInt32_eq _ (Int.natCast_nonneg _) (by omega)) h
  · exact Int.negSucc_lt_zero 0
  · exact Int.negSucc_lt_zero 0

theorem Carries.unique {b : Bytes} {m m' : Ttlv} (h : Carries b m) (h' : Carries b m') : m = m' := by
  have hm := h.loop b.length le_rfl
  rw [h'.loop b.length le_rfl] at hm
  cases hm
  rfl

/-! ## The grammar -/

theorem scalar_or_counted {type : Nat} (h0 : 0 < type) (h6 : type < 6) :
    Scalar type ∨ Counted type := by
  unfold Scalar Counted
  omega

theorem ttlvValueNtoh_scalar {type : Nat} (h : Scalar type) (length : Nat) (buf : Bytes)
    (hbuf : 8 ≤ buf.length) :
    ∃ value, ttlvValueNtoh type length buf = some (value, 8) ∧ value.type = type := by
  obtain rfl | rfl | rfl := h
  all_goals
    simp only [ttlvValueNtoh, if_neg (by omega : ¬ buf.length < 8)]
    exact ⟨_, rfl, rfl⟩

theorem round8_lt (length : Nat) : round8 length < 2 ^ 32 := by
  unfold round8
  omega

theorem ttlvValueNtoh_counted {type length : Nat} (h : Counted type) (buf : Bytes)
    (hbuf : round8 length ≤ buf.length) (hint : round8 length < 2 ^ 31) :
    ∃ value, ttlvValueNtoh type length buf = some (value, round8 length) ∧ value.type = type := by
  have hret : ¬ (buf.length < round8 length ∨ toInt32 (round8 length) < 0) := by
    rw [toInt32_neg_iff _ (round8_lt length)]
    omega
  obtain rfl | rfl := h
  all_goals
    simp only [ttlvValueNtoh, if_neg hret]
    exact ⟨_, rfl, rfl⟩

theorem ttlvValueNtoh_scalar_area {type length ret : Nat} {buf : Bytes} {value : TtlvValue}
    (h : Scalar type) (hval : ttlvValueNtoh type length buf = some (value, ret)) : ret = 8 := by
  obtain rfl | rfl | rfl := h
  all_goals
    simp only [ttlvValueNtoh] at hval
    split at hval
    · cases hval
    · cases hval
      rfl

theorem ttlvValueNtoh_counted_area {type length ret : Nat} {buf : Bytes} {value : TtlvValue}
    (h : Counted type) (hval : ttlvValueNtoh type length buf = some (value, ret)) :
    ret = round8 length := by
  obtain rfl | rfl := h
  all_goals
    simp only [ttlvValueNtoh] at hval
    split at hval
    · cases hval
    · cases hval
      rfl

/-- The check on a scalar works for the tag zero only. -/
theorem ttlvValidLen_scalar {tag type length : Nat} (h : Scalar type) :
    ttlvValidLen (tag * 256 + type) length = true ↔ 0 < tag ∨ length = scalarLength type := by
  cases tag with
  | zero =>
    obtain rfl | rfl | rfl := h <;> simp [ttlvValidLen, scalarLength]
  | succ tag =>
    have hbig : 7 < (tag + 1) * 256 + type := by omega
    unfold ttlvValidLen
    split <;> first | omega | simp

theorem ttlvValidLen_counted {tag type length : Nat} (h : Counted type) :
    ttlvValidLen (tag * 256 + type) length = true := by
  unfold Counted at h
  unfold ttlvValidLen
  split <;> first | omega | rfl

/-- Nodes come in multiples of eight octets. -/
theorem Carries.length_mod {b : Bytes} {m : Ttlv} (h : Carries b m) : b.length % 8 = 0 := by
  induction h with
  | nil => rfl
  | leaf tag type length area rest value next _ h0 h6 _ _ _ hval _ ih =>
    have harea : area.length % 8 = 0 := by
      obtain hs | hc := scalar_or_counted h0 h6
      · rw [ttlvValueNtoh_scalar_area hs hval]
      · rw [ttlvValueNtoh_counted_area hc hval, round8]
        omega
    simp only [List.length_append, length_header]
    omega
  | struct tag body rest child next _ _ _ _ _ ihc ihn =>
    simp only [List.length_append, length_header]
    omega

/-- What the decoder accepts is a concatenation of nodes, up to the length fields of
scalars. -/
theorem Carries.labelled {b : Bytes} {m : Ttlv} (h : Carries b m) (hb : b.length < 2 ^ 31) :
    ∃ wrong, Labelled wrong b := by
  induction h with
  | nil => exact ⟨false, .nil⟩
  | leaf tag type length area rest value next ht h0 h6 hl hvalid hroom hval _ ih =>
    simp only [List.length_append, length_header] at hb hroom
    obtain ⟨wrong, hrest⟩ := ih (by omega)
    obtain hs | hc := scalar_or_counted h0 h6
    · have harea := ttlvValueNtoh_scalar_area hs hval
      by_cases hlen : length = scalarLength type
      · subst hlen
        exact ⟨wrong, .scalar wrong tag type area rest ht hs harea hrest⟩
      · have htag : 0 < tag := by
          obtain h | h := (ttlvValidLen_scalar hs).mp hvalid
          · exact h
          · exact absurd h hlen
        exact ⟨true, .mislabelled wrong tag type length area rest htag ht hs hlen hl (by omega)
          harea hrest⟩
    · have harea := ttlvValueNtoh_counted_area hc hval
      rw [round8_eq _ (by omega)] at harea
      exact ⟨wrong, .counted wrong tag type length area rest ht hc hl harea hrest⟩
  | struct tag body rest child next ht hl _ hbody _ ihc ihn =>
    simp only [List.length_append, length_header] at hb
    obtain ⟨below, hbelow⟩ := ihc (by omega)
    obtain ⟨wrong, hrest⟩ := ihn (by omega)
    exact ⟨below || wrong,
      .struct below wrong tag body rest ht (by omega) hbody.length_mod hbelow hrest⟩

/-- Every scalar of the tree has the length of its type. -/
def OwnLengths : Ttlv → Prop
  | .null => True
  | .node _ length value child next =>
    (Scalar value.type → length = scalarLength value.type) ∧ OwnLengths child ∧ OwnLengths next

theorem Counted.not_scalar {type : Nat} (h : Counted type) : ¬ Scalar type := by
  unfold Counted at h
  unfold Scalar
  omega

/-- Such a concatenation is accepted, and the tree shows a wrong length field. -/
theorem Labelled.carries {wrong : Bool} {b : Bytes} (h : Labelled wrong b)
    (hb : b.length < 2 ^ 31) : ∃ m, Carries b m ∧ (OwnLengths m ↔ wrong = false) := by
  induction h with
  | nil => exact ⟨.null, .nil, by simp [OwnLengths]⟩
  | scalar wrong tag type area rest ht hs harea _ ih =>
    simp only [List.length_append, length_header] at hb
    obtain ⟨next, hnext, hown⟩ := ih (by omega)
    have hroom : 8 ≤ (area ++ rest).length := by
      rw [List.length_append]
      omega
    obtain ⟨value, hval, htype⟩ := ttlvValueNtoh_scalar hs (scalarLength type) _ hroom
    have hlen : scalarLength type ≤ 8 := by
      unfold scalarLength
      split <;> omega
    have hsix : 0 < type ∧ type < 6 := by
      unfold Scalar at hs
      omega
    refine ⟨.node tag (scalarLength type) value .null next, ?_, ?_⟩
    · exact .leaf tag type _ area rest value next ht hsix.1 hsix.2 (by omega)
        ((ttlvValidLen_scalar hs).mpr (.inr rfl)) (by omega) (harea ▸ hval) hnext
    · simp [OwnLengths, htype, hown]
  | mislabelled wrong tag type length area rest htag ht hs hlen hl hroom harea _ ih =>
    simp only [List.length_append, length_header] at hb
    obtain ⟨next, hnext, hown⟩ := ih (by omega)
    have hall : length ≤ (area ++ rest).length ∧ 8 ≤ (area ++ rest).length := by
      rw [List.length_append]
      omega
    obtain ⟨value, hval, htype⟩ := ttlvValueNtoh_scalar hs length _ hall.2
    have hsix : 0 < type ∧ type < 6 := by
      unfold Scalar at hs
      omega
    refine ⟨.node tag length value .null next, ?_, ?_⟩
    · exact .leaf tag type length area rest value next ht hsix.1 hsix.2 hl
        ((ttlvValidLen_scalar hs).mpr (.inl htag)) hall.1 (harea ▸ hval) hnext
    · simp [OwnLengths, htype, hs, hlen]
  | counted wrong tag type length area rest ht hc hl harea _ ih =>
    simp only [List.length_append, length_header] at hb
    obtain ⟨next, hnext, hown⟩ := ih (by omega)
    have hround : round8 length = area.length := by
      rw [round8_eq _ (by omega), harea]
    have hall : round8 length ≤ (area ++ rest).length ∧ length ≤ (area ++ rest).length := by
      rw [List.length_append]
      omega
    obtain ⟨value, hval, htype⟩ := ttlvValueNtoh_counted hc _ hall.1 (by omega)
    have hsix : 0 < type ∧ type < 6 := by
      unfold Counted at hc
      omega
    refine ⟨.node tag length value .null next, ?_, ?_⟩
    · exact .leaf tag type length area rest value next ht hsix.1 hsix.2 hl
        (ttlvValidLen_counted hc) hall.2 (hround ▸ hval) hnext
    · simp [OwnLengths, htype, hc.not_scalar, hown]
  | struct below wrong tag body rest ht hl hmod _ _ ihc ihn =>
    simp only [List.length_append, length_header] at hb
    obtain ⟨child, hchild, hbelow⟩ := ihc (by omega)
    obtain ⟨next, hnext, hown⟩ := ihn (by omega)
    have hstruct : ¬ Scalar 6 := by
      unfold Scalar
      omega
    refine ⟨.node tag 0 .struct child next, ?_, ?_⟩
    · exact .struct tag body rest child next ht (by omega) (ttlvValidLen_struct tag _ hmod) hchild
        hnext
    · simp [OwnLengths, TtlvValue.type, hstruct, hbelow, hown]

theorem WellFormed.labelled {b : Bytes} (h : WellFormed b) : Labelled false b := by
  induction h with
  | nil => exact .nil
  | scalar tag type area rest ht hs harea _ ih => exact .scalar _ tag type area rest ht hs harea ih
  | counted tag type length area rest ht hc hl harea _ ih =>
    exact .counted _ tag type length area rest ht hc hl harea ih
  | struct tag body rest ht hl hmod _ _ ihc ihn =>
    exact .struct _ _ tag body rest ht hl hmod ihc ihn

theorem Labelled.wellFormed {wrong : Bool} {b : Bytes} (h : Labelled wrong b)
    (hright : wrong = false) : WellFormed b := by
  induction h with
  | nil => exact .nil
  | scalar wrong tag type area rest ht hs harea _ ih =>
    exact .scalar tag type area rest ht hs harea (ih hright)
  | mislabelled => cases hright
  | counted wrong tag type length area rest ht hc hl harea _ ih =>
    exact .counted tag type length area rest ht hc hl harea (ih hright)
  | struct below wrong tag body rest ht hl hmod _ _ ihc ihn =>
    rw [Bool.or_eq_false_iff] at hright
    exact .struct tag body rest ht hl hmod (ihc hright.1) (ihn hright.2)

/-- A buffer with a wrong length field has no reading without. -/
theorem Labelled.not_wellFormed {b : Bytes} (h : Labelled true b) (hb : b.length < 2 ^ 31) :
    ¬ WellFormed b := by
  intro hwell
  obtain ⟨m, hm, hwrong⟩ := h.carries hb
  obtain ⟨m', hm', hright⟩ := hwell.labelled.carries hb
  rw [hm.unique hm'] at hwrong
  cases hwrong.mp (hright.mpr rfl)

/-- `ttlv_decode` accepts the well-formed buffers and no others, except that it also
accepts those with a wrong length field. -/
theorem ttlvDecode_wellFormed_iff (b : Bytes) (hb : b.length < 2 ^ 31) :
    (((ttlvDecode b).1 = b.length ↔ WellFormed b) ∧
        (¬ WellFormed b → (ttlvDecode b).1 < 0)) ↔
      ¬ Labelled true b := by
  constructor
  · rintro ⟨haccepts, -⟩ hwrong
    obtain ⟨m, hm, -⟩ := hwrong.carries hb
    exact hwrong.not_wellFormed hb (haccepts.mp ((ttlvDecode_accepts b hb).mpr ⟨m, hm⟩))
  · intro hright
    have hiff : (ttlvDecode b).1 = b.length ↔ WellFormed b := by
      rw [ttlvDecode_accepts b hb]
      constructor
      · rintro ⟨m, hm⟩
        obtain ⟨wrong, hlabelled⟩ := hm.labelled hb
        cases wrong with
        | true => exact absurd hlabelled hright
        | false => exact hlabelled.wellFormed rfl
      · intro hwell
        obtain ⟨m, hm, -⟩ := hwell.labelled.carries hb
        exact ⟨m, hm⟩
    refine ⟨hiff, fun hill => ttlvDecode_rejects b hb fun h => hill (hiff.mp h)⟩

/-- An INT node with its value. -/
theorem ttlvDecode_wellFormed_int :
    (header 7 1 4 ++ [0, 0, 0, 9, 0, 0, 0, 0] ++ []).length < 2 ^ 31 ∧
      ((ttlvDecode (header 7 1 4 ++ [0, 0, 0, 9, 0, 0, 0, 0] ++ [])).1 = 16 ↔
        WellFormed (header 7 1 4 ++ [0, 0, 0, 9, 0, 0, 0, 0] ++ [])) := by
  have hlt : (header 7 1 4 ++ [0, 0, 0, 9, 0, 0, 0, 0] ++ []).length < 2 ^ 31 := by decide
  have hwell : WellFormed (header 7 1 4 ++ [0, 0, 0, 9, 0, 0, 0, 0] ++ []) :=
    .scalar 7 1 [0, 0, 0, 9, 0, 0, 0, 0] [] (by decide) (.inl rfl) rfl .nil
  have hright := (ttlvDecode_wellFormed_iff _ hlt).mpr fun h => h.not_wellFormed hlt hwell
  exact ⟨hlt, hright.1⟩

/-- An INT node with the length zero is accepted. -/
theorem ttlvDecode_accepts_wrong_length :
    (header 7 1 0 ++ [0, 0, 0, 9, 0, 0, 0, 0] ++ []).length < 2 ^ 31 ∧
      (ttlvDecode (header 7 1 0 ++ [0, 0, 0, 9, 0, 0, 0, 0] ++ [])).1 =
        (header 7 1 0 ++ [0, 0, 0, 9, 0, 0, 0, 0] ++ []).length ∧
      ¬ WellFormed (header 7 1 0 ++ [0, 0, 0, 9, 0, 0, 0, 0] ++ []) := by
  have hlt : (header 7 1 0 ++ [0, 0, 0, 9, 0, 0, 0, 0] ++ []).length < 2 ^ 31 := by decide
  have hwrong : Labelled true (header 7 1 0 ++ [0, 0, 0, 9, 0, 0, 0, 0] ++ []) :=
    .mislabelled false 7 1 0 [0, 0, 0, 9, 0, 0, 0, 0] [] (by decide) (by decide) (.inl rfl)
      (by decide) (by decide) (by decide) rfl .nil
  exact ⟨hlt, by decide +kernel, hwrong.not_wellFormed hlt⟩

end Sexpect.Guarantees
