import Sexpect.Guarantees.Decoding

/-!
# Encoding undoes decoding

Whatever `ttlv_decode` accepts, wrong length fields included, `ttlv_encode` writes
back octet for octet, with the padding cleared.  `clearPadding` walks over a buffer
by its headers and knows nothing of trees.
-/
namespace Sexpect.Guarantees
open Sexpect.Lib Sexpect.Source

/-- The value area at the front of the octets behind a header, padding cleared. -/
def clearArea (type length : Nat) (body : Bytes) : Bytes :=
  if type = 1 ∨ type = 3 then body.take 4 ++ [0, 0, 0, 0]
  else if type = 2 then body.take 8
  else body.take length ++ List.replicate (padding length) 0

/-- The size of that area. -/
def areaSize (type length : Nat) : Nat :=
  if type = 1 ∨ type = 2 ∨ type = 3 then 8 else length + padding length

def clearNodes : Nat → Bytes → Bytes
  | 0, b => b
  | rounds + 1, b =>
    if b.length < 8 then b
    else
      let type := beDecode (b.take 4) % 256
      let length := beDecode ((b.drop 4).take 4)
      let body := b.drop 8
      if type = 6 then
        b.take 8 ++ clearNodes rounds (body.take length) ++ clearNodes rounds (body.drop length)
      else
        b.take 8 ++ clearArea type length body ++
          clearNodes rounds (body.drop (areaSize type length))

/-- A concatenation of nodes with zero octets in the place of its padding. -/
def clearPadding (b : Bytes) : Bytes := clearNodes b.length b

/-- A word read from octets is written back as these octets. -/
theorem beEncode_mod {width bound : Nat} (bs : Bytes) (hlen : bs.length = width)
    (hbound : 256 ^ width = bound) : beEncode width (beDecode bs % bound) = bs := by
  have hlt := beDecode_lt bs
  have hback := beEncode_beDecode bs
  rw [hlen] at hlt hback
  rw [Nat.mod_eq_of_lt (hbound ▸ hlt), hback]

/-- A decoded value: its type, its area cleared, and its size. -/
theorem ttlvValueNtoh_clear {type length ret : Nat} {buf : Bytes} {value : TtlvValue}
    (h : ttlvValueNtoh type length buf = some (value, ret)) (h0 : 0 < type) (h6 : type < 6)
    (hlen : length ≤ buf.length) (hbuf : buf.length < 2 ^ 31) :
    value.type = type ∧ ret = areaSize type length ∧
      slot value = clearArea type length buf ∧ (slot value).length = ret ∧
      (value.type = 4 ∨ value.type = 5 → length = ownLength value) := by
  have hround := round8_eq length (by omega)
  obtain (rfl | rfl | rfl) | (rfl | rfl) := scalar_or_counted h0 h6
  all_goals
    simp only [ttlvValueNtoh] at h
    split at h
    · cases h
    rename_i hroom
    simp only [Option.some.injEq, Prod.mk.injEq] at h
    obtain ⟨rfl, rfl⟩ := h
  · have hword : (buf.take 4).length = 4 := List.length_take_of_le (by omega)
    simp [TtlvValue.type, areaSize, slot, clearArea, beEncode_mod _ hword]
    omega
  · have hlong : (buf.take 8).length = 8 := List.length_take_of_le (by omega)
    simp [TtlvValue.type, areaSize, slot, clearArea, beEncode_mod _ hlong]
    omega
  · have hword : (buf.take 4).length = 4 := List.length_take_of_le (by omega)
    simp [TtlvValue.type, areaSize, slot, clearArea, beEncode_mod _ hword]
    omega
  all_goals
    have htaken : (buf.take length).length = length := List.length_take_of_le hlen
    simp [TtlvValue.type, areaSize, slot, clearArea, ownLength, hlen, hround]

/-- A decoded tree, written out, is the buffer with its padding cleared. -/
theorem Carries.clearNodes {b : Bytes} {m : Ttlv} (h : Carries b m) (hb : b.length < 2 ^ 31)
    (rounds : Nat) (hr : b.length ≤ rounds) :
    clearNodes rounds b = wire m ∧ (wire m).length = b.length := by
  induction h generalizing rounds with
  | nil =>
    cases rounds <;> simp [Guarantees.clearNodes, wire]
  | leaf tag type length area rest value next ht h0 h6 hl _ hroom hval _ ih =>
    rw [List.append_assoc, List.length_append, length_header] at hb hr
    obtain ⟨rounds, rfl⟩ : ∃ r, rounds = r + 1 := ⟨rounds - 1, by omega⟩
    obtain ⟨htype, harea, hslot, hsize, -⟩ := ttlvValueNtoh_clear hval h0 h6 hroom (by omega)
    obtain ⟨h1, h2, h3⟩ := header_fields tag type length (area ++ rest) ht (by omega) hl
    have hmod : (tag * 256 + type) % 256 = type := by omega
    have hhdr : (header tag type length ++ (area ++ rest)).take 8 = header tag type length :=
      List.take_left' (length_header _ _ _)
    have hlen : ¬ (header tag type length ++ (area ++ rest)).length < 8 := by
      rw [List.length_append, length_header]
      omega
    rw [List.length_append] at hb hr
    obtain ⟨hnext, hnextlen⟩ := ih (by omega) rounds (by omega)
    have hne : value ≠ .struct := by
      rintro rfl
      simp only [TtlvValue.type] at htype
      omega
    rw [wire_value _ _ _ _ _ hne, htype]
    constructor
    · rw [List.append_assoc (header tag type length), Guarantees.clearNodes, if_neg hlen]
      simp only [h1, h2, h3, hmod, hhdr, ← hslot, ← harea, if_neg (by omega : ¬ type = 6)]
      rw [List.drop_left' rfl, hnext, header]
    · simp only [List.length_append, length_header, beEncode_length, hsize, hnextlen]
  | struct tag body rest child next ht hl _ _ _ ihc ihn =>
    rw [List.append_assoc, List.length_append, length_header] at hb hr
    obtain ⟨rounds, rfl⟩ : ∃ r, rounds = r + 1 := ⟨rounds - 1, by omega⟩
    obtain ⟨h1, h2, h3⟩ := header_fields tag 6 body.length (body ++ rest) ht (by omega)
      (by omega)
    have hmod : (tag * 256 + 6) % 256 = 6 := by omega
    have hhdr : (header tag 6 body.length ++ (body ++ rest)).take 8 = header tag 6 body.length :=
      List.take_left' (length_header _ _ _)
    have hlen : ¬ (header tag 6 body.length ++ (body ++ rest)).length < 8 := by
      rw [List.length_append, length_header]
      omega
    rw [List.length_append] at hb hr
    obtain ⟨hchild, hchildlen⟩ := ihc (by omega) rounds (by omega)
    obtain ⟨hnext, hnextlen⟩ := ihn (by omega) rounds (by omega)
    rw [wire_struct]
    constructor
    · rw [List.append_assoc (header tag 6 body.length), Guarantees.clearNodes, if_neg hlen]
      simp only [h1, h2, h3, hmod, hhdr, if_true]
      rw [List.take_left' rfl, List.drop_left' rfl, hchild, hnext, hchildlen, header]
    · simp only [List.length_append, length_header, beEncode_length, hchildlen, hnextlen]

theorem Carries.sized {b : Bytes} {m : Ttlv} (h : Carries b m) (hb : b.length < 2 ^ 31) :
    Sized m := by
  induction h with
  | nil => trivial
  | leaf tag type length area rest value next _ h0 h6 _ _ hroom hval _ ih =>
    rw [List.append_assoc, List.length_append, length_header] at hb
    obtain ⟨-, -, -, -, hsized⟩ := ttlvValueNtoh_clear hval h0 h6 hroom (by omega)
    rw [List.length_append] at hb
    exact ⟨hsized, trivial, ih (by omega)⟩
  | struct tag body rest child next _ _ _ _ _ ihc ihn =>
    simp only [List.length_append, length_header] at hb
    refine ⟨?_, ihc (by omega), ihn (by omega)⟩
    simp [TtlvValue.type]

/-- The tree is read back from what is written out. -/
theorem Carries.wire {b : Bytes} {m : Ttlv} (h : Carries b m) (hb : b.length < 2 ^ 31) :
    Carries (wire m) m := by
  induction h with
  | nil => exact .nil
  | leaf tag type length area rest value next ht h0 h6 hl hvalid hroom hval hrest ih =>
    rw [List.append_assoc, List.length_append, length_header] at hb
    obtain ⟨htype, -, -, hsize, hsized⟩ := ttlvValueNtoh_clear hval h0 h6 hroom (by omega)
    rw [List.length_append] at hb hroom
    obtain ⟨-, hnextlen⟩ := hrest.clearNodes (by omega) _ le_rfl
    have hne : value ≠ .struct := by
      rintro rfl
      simp only [TtlvValue.type] at htype
      omega
    have hread := ttlvValueNtoh_slot value hne length hsized (Guarantees.wire next) (by omega)
    rw [htype] at hread
    rw [wire_value _ _ _ _ _ hne, htype]
    exact .leaf tag type length (slot value) (Guarantees.wire next) value next ht h0 h6 hl hvalid
      (by rw [List.length_append]; omega) hread (ih (by omega))
  | struct tag body rest child next ht hl hvalid hbody _ ihc ihn =>
    simp only [List.length_append, length_header] at hb
    obtain ⟨-, hchildlen⟩ := hbody.clearNodes (by omega) _ le_rfl
    rw [wire_struct]
    exact .struct tag (Guarantees.wire child) (Guarantees.wire next) child next ht (by omega)
      (by rw [hchildlen]; exact hvalid) (ihc (by omega)) (ihn (by omega))

/-- Encoding undoes decoding, up to the padding, and decoding undoes it again. -/
theorem ttlvEncode_ttlvDecode (b buf : Bytes) (m : Ttlv) (hb : b.length < 2 ^ 31)
    (hbuf : b.length ≤ buf.length) (h : ttlvDecode b = ((b.length : Int), m)) :
    ttlvEncode m buf 0 b.length = (some b.length, clearPadding b ++ buf.drop b.length) ∧
      (clearPadding b).length = b.length ∧
      ttlvDecode (clearPadding b) = ttlvDecode b := by
  have hcarries := (ttlvDecode_iff b m hb).mp h
  obtain ⟨hclear, hlen⟩ := hcarries.clearNodes hb b.length le_rfl
  have hclear : clearPadding b = wire m := hclear
  have henc := ttlvEncode_of_sized m (hcarries.sized hb) buf 0 b.length (by omega) hbuf (by omega)
  have hback := (ttlvDecode_iff (wire m) m (by omega)).mpr (hcarries.wire hb)
  refine ⟨?_, ?_, ?_⟩
  · rw [henc, hclear, hlen, writeAt, hlen]
    simp
  · rw [hclear, hlen]
  · rw [hclear, hback, h, hlen]

/-- A struct with a BOOL whose length field is zero and a RAW with padding. -/
def paddedMessage : Bytes :=
  header 8 6 32 ++ (header 32 3 0 ++ [0, 0, 0, 1, 9, 9, 9, 9] ++
    (header 4 5 3 ++ [97, 98, 99, 9, 9, 9, 9, 9]))

theorem ttlvEncode_ttlvDecode_padded :
    ttlvEncode (ttlvDecode paddedMessage).2 (List.replicate 40 9) 0 40 =
        (some 40, header 8 6 32 ++ (header 32 3 0 ++ [0, 0, 0, 1, 0, 0, 0, 0] ++
          (header 4 5 3 ++ [97, 98, 99, 0, 0, 0, 0, 0]))) ∧
      ttlvDecode (clearPadding paddedMessage) = ttlvDecode paddedMessage := by
  have h := ttlvEncode_ttlvDecode paddedMessage (List.replicate 40 9) (ttlvDecode paddedMessage).2
    (by decide) (by decide) (by decide +kernel)
  refine ⟨h.1.trans ?_, h.2.2⟩
  decide

end Sexpect.Guarantees
