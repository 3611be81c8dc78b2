import Sexpect.Guarantees.Decoding

/-!
# Trees left behind by a failed decode

Seven of the failure exits of `ttlv_decode` free what was read before.  The one
behind `ttlv_value_ntoh` (line 514) returns at once: it is taken by a node whose
length field passes the checks but whose padded value area does not fit, or has a size
that is no `int`.  `Torn` are the buffers on which a call of `ttlv_decode` leaves nodes in
`*head` this way.  On `Overlong` buffers the call succeeds, and `return buf_len` makes a
negative value of it.  `Level` are the buffers its recursive calls work on.
-/
namespace Sexpect.Guarantees
open Sexpect.Lib Sexpect.Source

/-- The recursive calls `ttlv_decode` makes from its loop, and those made by them:
the buffers they are made on, in order.  The loop goes on behind a call that
succeeded. -/
def decodeCalls : Nat → Bytes → List Bytes
  | 0, _ => []
  | rounds + 1, buf =>
    if buf.length < tagHdrSize then []
    else
      let tagtype := beDecode (buf.take 4)
      let type := tagtype % 256
      if type = 0 ∨ type ≥ 7 then []
      else
        let length := beDecode ((buf.drop 4).take 4)
        let rest := buf.drop 8
        if ¬ ttlvValidLen tagtype length then []
        else if rest.length < length then []
        else if type ≠ 6 then
          match ttlvValueNtoh type length rest with
          | none => []
          | some (_, ret) => decodeCalls rounds (rest.drop ret)
        else
          rest.take length :: decodeCalls rounds (rest.take length) ++
            match ttlvDecodeLoop rounds (rest.take length) with
            | .done _ => if toInt32 length < 0 then [] else decodeCalls rounds (rest.drop length)
            | _ => []

/-- The octets `ttlv_value_ntoh` wants for a value. -/
def neededArea (type length : Nat) : Nat := if type = 4 ∨ type = 5 then round8 length else 8

/-- A buffer of complete nodes with the tree `m`, and of the octets `tail` behind
them. -/
inductive Decoded : Bytes → Ttlv → Bytes → Prop
  | nil (tail : Bytes) : Decoded tail .null tail
  | leaf (tag type length : Nat) (body : Bytes) (value : TtlvValue) (ret : Nat) (next : Ttlv)
      (tail : Bytes) : Checked tag type length body → type ≠ 6 →
      ttlvValueNtoh type length body = some (value, ret) → Decoded (body.drop ret) next tail →
      Decoded (header tag type length ++ body) (.node tag length value .null next) tail
  | struct (tag length : Nat) (body : Bytes) (child next : Ttlv) (tail : Bytes) :
      Checked tag 6 length body → length < 2 ^ 31 → Carries (body.take length) child →
      Decoded (body.drop length) next tail →
      Decoded (header tag 6 length ++ body) (.node tag 0 .struct child next) tail

/-- Complete nodes with the tree `m`, and behind them a node that is not a struct, with a
length field that passes the checks, and too few octets for its area or an area of `2 ^ 31`
octets or more. -/
def TornAt (b : Bytes) (m : Ttlv) : Prop :=
  ∃ tag type length area, Decoded b m (header tag type length ++ area) ∧
    Checked tag type length area ∧ type ≠ 6 ∧
    (area.length < neededArea type length ∨ 2 ^ 31 ≤ neededArea type length)

/-- Torn behind at least one complete node. -/
def Torn (b : Bytes) : Prop := ∃ m, m ≠ .null ∧ TornAt b m

/-- Complete nodes to the end, and `2 ^ 31` octets or more. -/
def Overlong (b : Bytes) : Prop := 2 ^ 31 ≤ b.length ∧ ∃ m, Carries b m

/-- The buffers decoded on the way: the whole, and the levels of the body of every
struct node in front of which only complete nodes stand. -/
inductive Level : Bytes → Bytes → Prop
  | self (b : Bytes) : Level b b
  | inside (b : Bytes) (m : Ttlv) (tag length : Nat) (body c : Bytes) :
      Decoded b m (header tag 6 length ++ body) → Checked tag 6 length body →
      Level (body.take length) c → Level b c

/-! ## One round -/

theorem ttlvValueNtoh_none_iff {type length : Nat} {buf : Bytes} (h0 : 0 < type) (h6 : type < 6) :
    ttlvValueNtoh type length buf = none ↔
      buf.length < neededArea type length ∨ 2 ^ 31 ≤ neededArea type length := by
  obtain hs | hc := scalar_or_counted h0 h6
  · have hneed : neededArea type length = 8 := by
      rw [neededArea, if_neg]
      unfold Scalar at hs
      omega
    rw [hneed]
    constructor
    · intro hnone
      by_contra hroom
      obtain ⟨value, hval, -⟩ := ttlvValueNtoh_scalar hs length buf (by omega)
      rw [hnone] at hval
      cases hval
    · intro hshort
      have hshort : buf.length < 8 := by omega
      obtain rfl | rfl | rfl := hs
      all_goals exact if_pos hshort
  · have hneed : neededArea type length = round8 length := if_pos hc
    rw [hneed]
    constructor
    · intro hnone
      by_contra hroom
      rw [not_or, Nat.not_lt, Nat.not_le] at hroom
      obtain ⟨value, hval, -⟩ := ttlvValueNtoh_counted hc buf hroom.1 hroom.2
      rw [hnone] at hval
      cases hval
    · intro hshort
      rw [← toInt32_neg_iff _ (round8_lt length)] at hshort
      obtain rfl | rfl := hc
      all_goals exact if_pos hshort

/-- A round that gives up makes no call. -/
theorem Refused.calls {b : Bytes} (h : Refused b) (rounds : Nat) : decodeCalls (rounds + 1) b = [] := by
  unfold decodeCalls
  obtain h | h | h | h := h
  · rw [if_pos h]
  · simp only [if_pos h, ite_self]
  · simp only [if_pos h, ite_self]
  · simp only [if_pos h, ite_self]

section

variable {tag type length : Nat} {body : Bytes} {rounds : Nat}

theorem Checked.calls_cut (h : Checked tag type length body) (h6 : type ≠ 6)
    (hval : ttlvValueNtoh type length body = none) :
    decodeCalls (rounds + 1) (header tag type length ++ body) = [] := by
  obtain ⟨hhdr, h1, h2, h3, htag, htype, hty, hroom⟩ := h.fields
  rw [decodeCalls, if_neg hhdr]
  simp only [h1, h2, h3, htype, h.valid, if_neg hty, if_neg hroom, if_pos h6, hval, not_true,
    if_false]

theorem Checked.calls_leaf (h : Checked tag type length body) (h6 : type ≠ 6) {value : TtlvValue}
    {ret : Nat} (hval : ttlvValueNtoh type length body = some (value, ret)) :
    decodeCalls (rounds + 1) (header tag type length ++ body) = decodeCalls rounds (body.drop ret) := by
  obtain ⟨hhdr, h1, h2, h3, htag, htype, hty, hroom⟩ := h.fields
  rw [decodeCalls, if_neg hhdr]
  simp only [h1, h2, h3, htype, h.valid, if_neg hty, if_neg hroom, if_pos h6, hval, not_true,
    if_false]

theorem Checked.calls_struct (h : Checked tag 6 length body) (hint : length < 2 ^ 31)
    {child : Ttlv} (hchild : ttlvDecodeLoop rounds (body.take length) = .done child) :
    decodeCalls (rounds + 1) (header tag 6 length ++ body) =
      body.take length :: decodeCalls rounds (body.take length) ++
        decodeCalls rounds (body.drop length) := by
  obtain ⟨hhdr, h1, h2, h3, htag, htype, hty, hroom⟩ := h.fields
  have h6 : ¬ (6 ≠ 6) := fun hne => hne rfl
  have hret : ¬ toInt32 length < 0 := (toInt32_neg_iff _ h.length_lt).not.mpr (by omega)
  rw [decodeCalls, if_neg hhdr]
  simp only [h1, h2, h3, htype, h.valid, if_neg hty, if_neg hroom, if_neg h6, hchild, hret,
    not_true, if_false]

theorem Checked.calls_failed (h : Checked tag 6 length body)
    (hchild : length < 2 ^ 31 → ∀ child, ttlvDecodeLoop rounds (body.take length) ≠ .done child) :
    decodeCalls (rounds + 1) (header tag 6 length ++ body) =
      body.take length :: decodeCalls rounds (body.take length) := by
  obtain ⟨hhdr, h1, h2, h3, htag, htype, hty, hroom⟩ := h.fields
  have h6 : ¬ (6 ≠ 6) := fun hne => hne rfl
  cases hresult : ttlvDecodeLoop rounds (body.take length) with
  | done child =>
    have hret : toInt32 length < 0 := by
      rw [toInt32_neg_iff _ h.length_lt]
      by_contra hint
      exact hchild (by omega) child hresult
    rw [decodeCalls, if_neg hhdr]
    simp only [h1, h2, h3, htype, h.valid, if_neg hty, if_neg hroom, if_neg h6, hresult, hret,
      not_true, if_true, if_false, List.append_nil]
  | freed | kept =>
    rw [decodeCalls, if_neg hhdr]
    simp only [h1, h2, h3, htype, h.valid, if_neg hty, if_neg hroom, if_neg h6, hresult, not_true,
      if_false, List.append_nil]

/-- A round on a buffer that is not empty: it frees everything, takes the exit of
line 514, reads a node and goes on, or fails inside a struct. -/
theorem loop_cases (rounds : Nat) (b : Bytes) (hb : 0 < b.length) :
    (ttlvDecodeLoop (rounds + 1) b = .freed ∧ decodeCalls (rounds + 1) b = []) ∨
    (∃ tag type length body, b = header tag type length ++ body ∧ Checked tag type length body ∧
      type ≠ 6 ∧ ttlvValueNtoh type length body = none) ∨
    (∃ tag type length body value ret, b = header tag type length ++ body ∧
      Checked tag type length body ∧ type ≠ 6 ∧
      ttlvValueNtoh type length body = some (value, ret)) ∨
    (∃ tag length body child, b = header tag 6 length ++ body ∧ Checked tag 6 length body ∧
      length < 2 ^ 31 ∧ ttlvDecodeLoop rounds (body.take length) = .done child) ∨
    ∃ tag length body, b = header tag 6 length ++ body ∧ Checked tag 6 length body ∧
      (length < 2 ^ 31 → ∀ child, ttlvDecodeLoop rounds (body.take length) ≠ .done child) := by
  obtain hrefused | ⟨tag, type, length, body, rfl, h⟩ := refused_or_checked b
  · exact .inl ⟨by rw [ttlvDecodeLoop_round _ _ hb, hrefused.round], hrefused.calls rounds⟩
  right
  by_cases h6 : type = 6
  · subst h6
    right
    right
    by_cases hchild : length < 2 ^ 31 ∧
        ∃ child, ttlvDecodeLoop rounds (body.take length) = .done child
    · obtain ⟨hint, child, hchild⟩ := hchild
      exact .inl ⟨tag, length, body, child, rfl, h, hint, hchild⟩
    · exact .inr ⟨tag, length, body, rfl, h, fun hint child hdone => hchild ⟨hint, child, hdone⟩⟩
  · cases hval : ttlvValueNtoh type length body with
    | none => exact .inl ⟨tag, type, length, body, rfl, h, h6, hval⟩
    | some result =>
      obtain ⟨value, ret⟩ := result
      exact .inr (.inl ⟨tag, type, length, body, value, ret, rfl, h, h6, hval⟩)

end

/-! ## Whole calls -/

/-- A level of the body of a struct node at this level. -/
def Inside (b c : Bytes) : Prop :=
  ∃ m tag length body, Decoded b m (header tag 6 length ++ body) ∧ Checked tag 6 length body ∧
    Level (body.take length) c

theorem level_iff {b c : Bytes} : Level b c ↔ c = b ∨ Inside b c := by
  constructor
  · intro h
    cases h with
    | self => exact .inl rfl
    | inside _ m tag length body _ hreads hchecked hlevel =>
      exact .inr ⟨m, tag, length, body, hreads, hchecked, hlevel⟩
  · rintro (rfl | ⟨m, tag, length, body, hreads, hchecked, hlevel⟩)
    · exact .self c
    · exact .inside b m tag length body c hreads hchecked hlevel

/-- Every recursive call is made on a level. -/
theorem inside_of_calls {rounds : Nat} {b c : Bytes} (h : c ∈ decodeCalls rounds b) :
    Inside b c := by
  induction rounds generalizing b with
  | zero => cases h
  | succ rounds ih =>
    by_cases hb : 0 < b.length
    · obtain ⟨-, hcalls⟩ | ⟨tag, type, length, body, rfl, hck, h6, hval⟩ |
        ⟨tag, type, length, body, value, ret, rfl, hck, h6, hval⟩ |
        ⟨tag, length, body, child, rfl, hck, hint, hchild⟩ | ⟨tag, length, body, rfl, hck, hchild⟩ :=
        loop_cases rounds b hb
      · rw [hcalls] at h
        cases h
      · rw [hck.calls_cut h6 hval] at h
        cases h
      · rw [hck.calls_leaf h6 hval] at h
        obtain ⟨m, tag', length', body', hreads, hck', hlevel⟩ := ih h
        exact ⟨_, tag', length', body', .leaf _ _ _ _ _ _ _ _ hck h6 hval hreads, hck', hlevel⟩
      · rw [hck.calls_struct hint hchild, List.cons_append, List.mem_cons, List.mem_append] at h
        obtain rfl | h | h := h
        · exact ⟨_, tag, length, body, .nil _, hck, .self _⟩
        · exact ⟨_, tag, length, body, .nil _, hck, level_iff.mpr (.inr (ih h))⟩
        · obtain ⟨m, tag', length', body', hreads, hck', hlevel⟩ := ih h
          exact ⟨_, tag', length', body', .struct _ _ _ _ _ _ hck hint (.of_loop hchild) hreads,
            hck', hlevel⟩
      · rw [hck.calls_failed hchild, List.mem_cons] at h
        obtain rfl | h := h
        · exact ⟨_, tag, length, body, .nil _, hck, .self _⟩
        · exact ⟨_, tag, length, body, .nil _, hck, level_iff.mpr (.inr (ih h))⟩
    · rw [decodeCalls, if_pos (by rw [tagHdrSize]; omega)] at h
      cases h

theorem link_eq_kept {tag length : Nat} {value : TtlvValue} {child m : Ttlv} {r : DecodeResult}
    (h : r.link tag length value child = .kept m) :
    ∃ next, r = .kept next ∧ m = .node tag length value child next := by
  cases r with
  | done next => cases h
  | freed => cases h
  | kept next =>
    cases h
    exact ⟨next, rfl, rfl⟩

/-- A loop that keeps its nodes has found a node without room for its area. -/
theorem TornAt.of_loop {rounds : Nat} {b : Bytes} {m : Ttlv}
    (h : ttlvDecodeLoop rounds b = .kept m) : TornAt b m := by
  induction rounds generalizing b m with
  | zero => cases b <;> cases h
  | succ rounds ih =>
    by_cases hb : 0 < b.length
    · obtain ⟨hfreed, -⟩ | ⟨tag, type, length, body, rfl, hck, h6, hval⟩ |
        ⟨tag, type, length, body, value, ret, rfl, hck, h6, hval⟩ |
        ⟨tag, length, body, child, rfl, hck, hint, hchild⟩ | ⟨tag, length, body, rfl, hck, hchild⟩ :=
        loop_cases rounds b hb
      · rw [hfreed] at h
        cases h
      · rw [hck.loop_cut h6 hval] at h
        cases h
        have h7 := hck.type_lt
        exact ⟨tag, type, length, body, .nil _, hck, h6,
          (ttlvValueNtoh_none_iff hck.type_pos (by omega)).mp hval⟩
      · rw [hck.loop_leaf h6 hval] at h
        obtain ⟨next, hnext, rfl⟩ := link_eq_kept h
        obtain ⟨tag', type', length', area, hreads, htorn⟩ := ih hnext
        exact ⟨tag', type', length', area, .leaf _ _ _ _ _ _ _ _ hck h6 hval hreads, htorn⟩
      · rw [hck.loop_struct hint hchild] at h
        obtain ⟨next, hnext, rfl⟩ := link_eq_kept h
        obtain ⟨tag', type', length', area, hreads, htorn⟩ := ih hnext
        exact ⟨tag', type', length', area,
          .struct _ _ _ _ _ _ hck hint (.of_loop hchild) hreads, htorn⟩
      · rw [hck.loop_failed hchild] at h
        cases h
    · rw [List.length_pos_iff, not_not] at hb
      subst hb
      cases h

/-- Behind complete nodes the loop goes on with the octets that follow them: when it
keeps its nodes there it keeps the complete ones too, and the calls made there are
among those of the whole. -/
theorem Decoded.continue {b tail : Bytes} {m : Ttlv} (h : Decoded b m tail) (rounds : Nat)
    (hr : b.length ≤ rounds) :
    ∃ left, tail.length ≤ left ∧
      (ttlvDecodeLoop left tail = .kept .null → ttlvDecodeLoop rounds b = .kept m) ∧
      ∀ c ∈ decodeCalls left tail, c ∈ decodeCalls rounds b := by
  induction h generalizing rounds with
  | nil tail => exact ⟨rounds, hr, id, fun _ hc => hc⟩
  | leaf tag type length body value ret next tail hck h6 hval _ ih =>
    rw [List.length_append, length_header] at hr
    obtain ⟨rounds, rfl⟩ : ∃ r, rounds = r + 1 := ⟨rounds - 1, by omega⟩
    obtain ⟨left, hleft, hkept, hsub⟩ := ih rounds (by rw [List.length_drop]; omega)
    refine ⟨left, hleft, ?_, ?_⟩
    · intro htail
      rw [hck.loop_leaf h6 hval, hkept htail]
      rfl
    · rw [hck.calls_leaf h6 hval]
      exact hsub
  | struct tag length body child next tail hck hint hchild _ ih =>
    rw [List.length_append, length_header] at hr
    obtain ⟨rounds, rfl⟩ : ∃ r, rounds = r + 1 := ⟨rounds - 1, by omega⟩
    have hdone := hchild.loop rounds (by rw [List.length_take]; omega)
    obtain ⟨left, hleft, hkept, hsub⟩ := ih rounds (by rw [List.length_drop]; omega)
    refine ⟨left, hleft, ?_, ?_⟩
    · intro htail
      rw [hck.loop_struct hint hdone, hkept htail]
      rfl
    · intro c hc
      rw [hck.calls_struct hint hdone]
      exact List.mem_append_right _ (hsub c hc)

theorem TornAt.loop {b : Bytes} {m : Ttlv} (h : TornAt b m) (rounds : Nat)
    (hr : b.length ≤ rounds) : ttlvDecodeLoop rounds b = .kept m := by
  obtain ⟨tag, type, length, area, hreads, hck, h6, hshort⟩ := h
  obtain ⟨left, hleft, hkept, -⟩ := hreads.continue rounds hr
  rw [List.length_append, length_header] at hleft
  obtain ⟨left, rfl⟩ : ∃ l, left = l + 1 := ⟨left - 1, by omega⟩
  have h7 := hck.type_lt
  exact hkept (hck.loop_cut h6 ((ttlvValueNtoh_none_iff hck.type_pos (by omega)).mpr hshort))

/-- A call is made on every level. -/
theorem Level.calls {b c : Bytes} (h : Level b c) (rounds : Nat) (hr : b.length ≤ rounds) :
    c ∈ b :: decodeCalls rounds b := by
  induction h generalizing rounds with
  | self b => exact List.mem_cons_self
  | inside b m tag length body c hreads hck _ ih =>
    obtain ⟨left, hleft, -, hsub⟩ := hreads.continue rounds hr
    rw [List.length_append, length_header] at hleft
    obtain ⟨left, rfl⟩ : ∃ l, left = l + 1 := ⟨left - 1, by omega⟩
    have hbelow := ih left (by rw [List.length_take]; omega)
    apply List.mem_cons_of_mem
    apply hsub
    by_cases hchild : length < 2 ^ 31 ∧ ∃ child, ttlvDecodeLoop left (body.take length) = .done child
    · obtain ⟨hint, child, hchild⟩ := hchild
      rw [hck.calls_struct hint hchild]
      exact List.mem_append_left _ hbelow
    · rw [hck.calls_failed fun hint child hdone => hchild ⟨hint, child, hdone⟩]
      exact hbelow

theorem Carries.ne_null {b : Bytes} {m : Ttlv} (h : Carries b m) (hb : 0 < b.length) :
    m ≠ .null := by
  rintro rfl
  cases h
  cases hb

theorem Carries.not_torn {b : Bytes} {m : Ttlv} (h : Carries b m) : ¬ Torn b := by
  rintro ⟨m', -, htorn⟩
  have hloop := h.loop b.length le_rfl
  rw [htorn.loop _ le_rfl] at hloop
  cases hloop

/-- What a call that returns a negative value leaves in `*head`. -/
theorem ttlvDecode_leaves_iff (b : Bytes) (hb : b.length < 2 ^ 32) :
    ((ttlvDecode b).1 < 0 ∧ (ttlvDecode b).2 ≠ .null) ↔ Torn b ∨ Overlong b := by
  unfold ttlvDecode
  cases hloop : ttlvDecodeLoop b.length b with
  | done m =>
    have hcarries := Carries.of_loop hloop
    simp only
    rw [toInt32_neg_iff _ hb]
    constructor
    · rintro ⟨hlong, -⟩
      exact .inr ⟨hlong, m, hcarries⟩
    · rintro (htorn | ⟨hlong, -⟩)
      · exact absurd htorn hcarries.not_torn
      · exact ⟨hlong, hcarries.ne_null (by omega)⟩
  | freed =>
    constructor
    · rintro ⟨-, hne⟩
      exact absurd rfl hne
    · rintro (⟨m', -, htorn⟩ | ⟨-, m, hcarries⟩)
      · rw [htorn.loop _ le_rfl] at hloop
        cases hloop
      · rw [hcarries.loop _ le_rfl] at hloop
        cases hloop
  | kept m =>
    constructor
    · rintro ⟨-, hne⟩
      exact .inl ⟨m, hne, .of_loop hloop⟩
    · rintro (⟨m', hne, htorn⟩ | ⟨-, m', hcarries⟩)
      · rw [htorn.loop _ le_rfl] at hloop
        cases hloop
        exact ⟨Int.negSucc_lt_zero 0, hne⟩
      · rw [hcarries.loop _ le_rfl] at hloop
        cases hloop

/-- The body of a node is shorter than the buffer around it. -/
theorem Decoded.tail_le {b tail : Bytes} {m : Ttlv} (h : Decoded b m tail) :
    tail.length ≤ b.length := by
  induction h with
  | nil tail => exact le_rfl
  | leaf tag type length body value ret next tail _ _ _ _ ih =>
    rw [List.length_drop] at ih
    rw [List.length_append]
    omega
  | struct tag length body child next tail _ _ _ _ ih =>
    rw [List.length_drop] at ih
    rw [List.length_append]
    omega

theorem Level.length_le {b c : Bytes} (h : Level b c) : c.length ≤ b.length := by
  induction h with
  | self b => exact le_rfl
  | inside b m tag length body c hreads _ _ ih =>
    have htail := hreads.tail_le
    rw [List.length_append] at htail
    rw [List.length_take] at ih
    omega

/-- On every buffer that a `uint32_t` can count: each call of `ttlv_decode`, the outer one and
those of the recursion, that returns a negative value leaves `*head` null, if and only if no
level is torn or too long for the `int` it returns. -/
theorem ttlvDecode_failed_null_iff (b : Bytes) (hb : b.length < 2 ^ 32) :
    (∀ c ∈ b :: decodeCalls b.length b, (ttlvDecode c).1 < 0 → (ttlvDecode c).2 = .null) ↔
      ¬ ∃ c, Level b c ∧ (Torn c ∨ Overlong c) := by
  constructor
  · rintro h ⟨c, hlevel, hbad⟩
    obtain ⟨hneg, hne⟩ := (ttlvDecode_leaves_iff c (hlevel.length_le.trans_lt hb)).mpr hbad
    exact hne (h c (hlevel.calls b.length le_rfl) hneg)
  · intro h c hc hneg
    by_contra hne
    have hlevel : Level b c := by
      rw [level_iff]
      obtain rfl | hc := List.mem_cons.mp hc
      · exact .inl rfl
      · exact .inr (inside_of_calls hc)
    exact h ⟨c, hlevel, (ttlvDecode_leaves_iff c (hlevel.length_le.trans_lt hb)).mp ⟨hneg, hne⟩⟩

/-- An INT node and a TEXT node of three octets without its padding: the call
returns -1 with the INT node in `*head`. -/
theorem ttlvDecode_keeps_node :
    (ttlvDecode (header 7 1 4 ++ [0, 0, 0, 9, 0, 0, 0, 0] ++ header 4 4 3 ++ [97, 98, 99])).1 < 0 ∧
      (ttlvDecode (header 7 1 4 ++ [0, 0, 0, 9, 0, 0, 0, 0] ++ header 4 4 3 ++ [97, 98, 99])).2 ≠
        .null := by
  decide +kernel

/-- The same two nodes in the body of a struct: the level inside is torn. -/
theorem ttlvDecode_keeps_node_inside :
    ∃ c, Level (header 8 6 27 ++ (header 7 1 4 ++ [0, 0, 0, 9, 0, 0, 0, 0] ++ header 4 4 3 ++
      [97, 98, 99])) c ∧ (Torn c ∨ Overlong c) := by
  by_contra hnone
  have hnull := (ttlvDecode_failed_null_iff _ (by decide)).mpr hnone
    (header 7 1 4 ++ [0, 0, 0, 9, 0, 0, 0, 0] ++ header 4 4 3 ++ [97, 98, 99])
    (by decide +kernel) (by decide +kernel)
  have hkept : (ttlvDecode (header 7 1 4 ++ [0, 0, 0, 9, 0, 0, 0, 0] ++ header 4 4 3 ++
      [97, 98, 99])).2 ≠ .null := by
    decide +kernel
  exact hkept hnull

end Sexpect.Guarantees
