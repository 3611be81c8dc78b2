import Sexpect.Source.Message

/-!
# The TTLV wire format

`Ttlv.wire` states the format independently of the codec: a node is its tag and
type, its length and its value padded to eight octets; a struct is its tag and
type, the size of its children and their concatenation.  On well-formed trees

* `ttlv_encode` writes exactly `wire` (`ttlvEncode_eq_wire`),
* `ttlv_calc_size` is its size (`ttlvCalcSize_eq_wire`),
* `ttlv_decode` of `wire` gives the tree back (`ttlvDecode_wire`).

Well-formedness is what the constructors establish (`Built.valid`).
-/
namespace Sexpect.Guarantees
open Sexpect.Lib Sexpect.Source

/-- The octets a counted value needs up to the next multiple of eight. -/
def padding (n : Nat) : Nat := (8 - n % 8) % 8

/-- The value area of a node that is not a struct. -/
def slot : TtlvValue → Bytes
  | .int v => beEncode 4 v.toNat ++ [0, 0, 0, 0]
  | .long v => beEncode 8 v.toNat
  | .bool v => beEncode 4 v.toNat ++ [0, 0, 0, 0]
  | .text v => v ++ List.replicate (padding v.length) 0
  | .raw v => v ++ List.replicate (padding v.length) 0
  | .struct => []

/-- The wire form of a node and all its siblings. -/
def wire : Ttlv → Bytes
  | .null => []
  | .node tag length value child next =>
    beEncode 4 (tag * 256 + value.type) ++
      (match value with
        | .struct => beEncode 4 (wire child).length ++ wire child
        | value => beEncode 4 length ++ slot value) ++
      wire next

/-- The length field a value is created with. -/
def ownLength : TtlvValue → Nat
  | .int _ => 4
  | .long _ => 8
  | .bool _ => 4
  | .text v => v.length
  | .raw v => v.length
  | .struct => 0

/-- A tree whose fields are the ones the constructors give it. -/
def Valid : Ttlv → Prop
  | .null => True
  | .node tag length value child next =>
    tag < 2 ^ 24 ∧ length = ownLength value ∧ (value ≠ .struct → child = .null) ∧
      Valid child ∧ Valid next

/-- The length field of a counted value is its size: all the encoder relies on. -/
def Sized : Ttlv → Prop
  | .null => True
  | .node _ length value child next =>
    (value.type = 4 ∨ value.type = 5 → length = ownLength value) ∧ Sized child ∧ Sized next

/-- Every length field is the one its value is created with. -/
def Measured : Ttlv → Prop
  | .null => True
  | .node _ length value child next => length = ownLength value ∧ Measured child ∧ Measured next

theorem Measured.sized {t : Ttlv} (h : Measured t) : Sized t := by
  induction t with
  | null => trivial
  | node tag length value child next ihc ihn =>
    obtain ⟨hl, hmc, hmn⟩ := h
    exact ⟨fun _ => hl, ihc hmc, ihn hmn⟩

theorem Valid.measured {t : Ttlv} (h : Valid t) : Measured t := by
  induction t with
  | null => trivial
  | node tag length value child next ihc ihn =>
    obtain ⟨-, hl, -, hvc, hvn⟩ := h
    exact ⟨hl, ihc hvc, ihn hvn⟩

theorem Valid.sized {t : Ttlv} (h : Valid t) : Sized t := h.measured.sized

/-- Messages built with the constructors of proto.c.  Payload lengths are
`uint32_t` arguments; children are only linked below a struct. -/
inductive Built : Ttlv → Prop
  | int (tag : Nat) (v : BitVec 32) : tag < 2 ^ 24 → Built (ttlvNewInt tag v)
  | long (tag : Nat) (v : BitVec 64) : tag < 2 ^ 24 → Built (ttlvNewLong tag v)
  | bool (tag : Nat) (v : BitVec 32) : tag < 2 ^ 24 → Built (ttlvNewBool tag v)
  | text (tag : Nat) (data : Bytes) : tag < 2 ^ 24 → data.length < 2 ^ 32 →
      Built (ttlvNewText tag data)
  | raw (tag : Nat) (data : Bytes) : tag < 2 ^ 24 → data.length < 2 ^ 32 →
      Built (ttlvNewRaw tag data)
  | struct (tag : Nat) : tag < 2 ^ 24 → Built (ttlvNewStruct tag)
  | appendChild (head : Ttlv) (children : List Ttlv) : Built head → head.value = .struct →
      (∀ c ∈ children, Built c) → Built (ttlvAppendChild head children)

theorem valid_append (a b : Ttlv) (ha : Valid a) (hb : Valid b) : Valid (ttlvAppend a b) := by
  induction a with
  | null => exact hb
  | node tag length value child next _ ihn =>
    obtain ⟨ht, hl, hc, hv, hn⟩ := ha
    exact ⟨ht, hl, hc, hv, ihn hn⟩

theorem valid_link (cs : List Ttlv) (h : ∀ c ∈ cs, Valid c) : Valid (ttlvLink cs) := by
  fun_induction ttlvLink cs with
  | case1 => trivial
  | case2 p => exact h p (by simp)
  | case3 ps _ ih => exact ih (fun c hc => h c (by simp [hc]))
  | case4 tag length value child next ps _ ih =>
    obtain ⟨ht, hl, hc, hv, -⟩ := h (.node tag length value child next) (by simp)
    exact ⟨ht, hl, hc, hv, ih (fun c hc => h c (by simp [hc]))⟩

/-- The constructors establish well-formedness. -/
theorem Built.valid {t : Ttlv} (h : Built t) : Valid t := by
  induction h with
  | appendChild head children _ hs _ ihHead ihChildren =>
    cases head with
    | null => trivial
    | node tag length value child next =>
      obtain ⟨ht, hl, hc, hv, hn⟩ := ihHead
      refine ⟨ht, hl, fun hne => absurd hs hne, ?_, hn⟩
      exact valid_append _ _ hv (valid_link _ ihChildren)
  | _ =>
    simp_all [Valid, ttlvNewInt, ttlvNewLong, ttlvNewBool, ttlvNewText, ttlvNewRaw, ttlvNewStruct,
      ttlvNew, ownLength, Nat.mod_eq_of_lt]

/-- A message built with the constructors has one root. -/
theorem Built.single {t : Ttlv} (h : Built t) : t.next = .null ∧ t ≠ .null := by
  induction h with
  | appendChild head children _ _ _ ihHead _ =>
    cases head with
    | null => exact absurd rfl ihHead.2
    | node tag length value child next => exact ⟨ihHead.1, by simp [ttlvAppendChild]⟩
  | _ =>
    simp [Ttlv.next, ttlvNewInt, ttlvNewLong, ttlvNewBool, ttlvNewText, ttlvNewRaw, ttlvNewStruct,
      ttlvNew]

/-! ## Sizes -/

theorem round8_eq (n : Nat) (h : n + 7 < 2 ^ 32) : round8 n = n + padding n := by
  unfold round8 padding
  rw [Nat.mod_eq_of_lt h]
  omega

theorem wire_struct (tag length : Nat) (child next : Ttlv) :
    wire (.node tag length .struct child next) =
      beEncode 4 (tag * 256 + 6) ++ beEncode 4 (wire child).length ++ wire child ++ wire next := by
  simp [wire, TtlvValue.type]

theorem wire_value (tag length : Nat) (value : TtlvValue) (child next : Ttlv)
    (hs : value ≠ .struct) :
    wire (.node tag length value child next) =
      beEncode 4 (tag * 256 + value.type) ++ beEncode 4 length ++ slot value ++ wire next := by
  cases value with
  | struct => exact absurd rfl hs
  | _ => simp [wire]

theorem slot_length (value : TtlvValue) (hs : value ≠ .struct)
    (h : (slot value).length + 7 < 2 ^ 32) : (slot value).length = round8 (ownLength value) := by
  cases value with
  | struct => exact absurd rfl hs
  | text v | raw v =>
    simp only [slot, List.length_append, List.length_replicate, padding] at h ⊢
    rw [ownLength, round8_eq _ (by omega), padding]
  | _ => simp [slot, ownLength, round8]

theorem ownLength_le_slot (value : TtlvValue) : ownLength value ≤ (slot value).length := by
  cases value <;> simp [slot, ownLength]

/-- Every encoding is a whole number of eight-octet units. -/
theorem wire_length_mod (t : Ttlv) (h : (wire t).length + 7 < 2 ^ 32) :
    (wire t).length % 8 = 0 := by
  induction t with
  | null => rfl
  | node tag length value child next ihc ihn =>
    by_cases hs : value = .struct
    · subst hs
      rw [wire_struct] at h ⊢
      simp only [List.length_append, beEncode_length] at h ⊢
      have hc := ihc (by omega)
      have hn := ihn (by omega)
      omega
    · rw [wire_value _ _ _ _ _ hs] at h ⊢
      simp only [List.length_append, beEncode_length] at h ⊢
      have hn := ihn (by omega)
      rw [slot_length value hs (by omega), round8]
      omega

theorem toInt32_eq (n : Int) (h0 : 0 ≤ n) (h : n < 2 ^ 31) : toInt32 n = n := by
  unfold toInt32
  apply Int.bmod_eq_of_le <;> omega

/-- As an `int` a `uint32_t` is negative from the middle of its range on. -/
theorem toInt32_neg_iff (n : Nat) (h : n < 2 ^ 32) : toInt32 n < 0 ↔ 2 ^ 31 ≤ n := by
  unfold toInt32
  rw [Int.bmod_def]
  split <;> omega

theorem ttlvCalcSizeEx_struct (tag length : Nat) (child next : Ttlv) :
    ttlvCalcSizeEx (.node tag length .struct child next) false =
      toInt32 (toInt32 (tagHdrSize + ttlvCalcSizeEx child false) + ttlvCalcSizeEx next false) := by
  simp only [ttlvCalcSizeEx, Bool.false_eq_true, if_false]

theorem ttlvCalcSizeEx_value (tag length : Nat) (value : TtlvValue) (child next : Ttlv)
    (hs : value ≠ .struct) :
    ttlvCalcSizeEx (.node tag length value child next) false =
      toInt32 (toInt32 (tagHdrSize + round8 length) + ttlvCalcSizeEx next false) := by
  cases value with
  | struct => exact absurd rfl hs
  | _ => simp only [ttlvCalcSizeEx, Bool.false_eq_true, if_false]

/-- `ttlv_calc_size` is the exact size whenever that size fits an `int`. -/
theorem ttlvCalcSize_of_measured (t : Ttlv) (hv : Measured t) (h : (wire t).length < 2 ^ 31) :
    ttlvCalcSize t = (wire t).length := by
  unfold ttlvCalcSize
  induction t with
  | null => rfl
  | node tag length value child next ihc ihn =>
    obtain ⟨rfl, hvc, hvn⟩ := hv
    by_cases hs : value = .struct
    · subst hs
      rw [wire_struct] at h ⊢
      simp only [List.length_append, beEncode_length] at h ⊢
      rw [ttlvCalcSizeEx_struct, ihc hvc (by omega), ihn hvn (by omega),
        toInt32_eq (tagHdrSize + _) (by omega) (by unfold tagHdrSize; omega),
        toInt32_eq _ (by omega) (by unfold tagHdrSize; omega), tagHdrSize]
      omega
    · rw [wire_value _ _ _ _ _ hs] at h ⊢
      simp only [List.length_append, beEncode_length] at h ⊢
      have hslot := slot_length value hs (by omega)
      rw [ttlvCalcSizeEx_value _ _ _ _ _ hs, ihn hvn (by omega), ← hslot,
        toInt32_eq (tagHdrSize + _) (by omega) (by unfold tagHdrSize; omega),
        toInt32_eq _ (by omega) (by unfold tagHdrSize; omega), tagHdrSize]
      omega

theorem ttlvCalcSize_eq_wire (t : Ttlv) (hv : Valid t) (h : (wire t).length < 2 ^ 31) :
    ttlvCalcSize t = (wire t).length := ttlvCalcSize_of_measured t hv.measured h

/-! ## Encoding -/

theorem writeAt_nil (buf : Bytes) (pos : Nat) : writeAt buf pos [] = buf := by
  simp [writeAt]

/-- With room for the value area, `ttlv_value_hton` writes exactly that area. -/
theorem ttlvValueHton_eq (value : TtlvValue) (hs : value ≠ .struct) (length : Nat)
    (hlen : value.type = 4 ∨ value.type = 5 → length = ownLength value) (buf : Bytes)
    (pos bufLen : Nat) (hfit : (slot value).length ≤ bufLen)
    (hbuf : pos + (slot value).length ≤ buf.length) (hbig : (slot value).length + 7 < 2 ^ 32) :
    ttlvValueHton value length buf pos bufLen =
      (some (slot value).length, writeAt buf pos (slot value)) := by
  have hround := slot_length value hs hbig
  cases value with
  | struct => exact absurd rfl hs
  | int v | bool v =>
    simp only [slot, List.length_append, beEncode_length, List.length_cons, List.length_nil]
      at hfit hbuf ⊢
    have hjoin := writeAt_writeAt buf pos (beEncode 4 v.toNat) [0, 0, 0, 0]
      (by rw [beEncode_length]; omega)
    rw [beEncode_length] at hjoin
    rw [ttlvValueHton, if_neg (by omega), hjoin]
  | long v =>
    simp only [slot, beEncode_length] at hfit ⊢
    rw [ttlvValueHton, if_neg (by omega)]
  | text v | raw v =>
    rw [hlen (by simp [TtlvValue.type]), ttlvValueHton, ← hround, if_neg (by omega)]
    simp only [slot, ownLength, padding, List.length_append, List.length_replicate]
      at hbuf ⊢
    by_cases hpad : v.length % 8 = 0
    · simp [hpad]
    · simp only [ne_eq, hpad, not_false_eq_true, if_true]
      rw [writeAt_writeAt _ _ _ _ (by omega), Nat.mod_eq_of_lt (by omega : 8 - v.length % 8 < 8)]

theorem ttlvEncode_value (tag length : Nat) (value : TtlvValue) (child next : Ttlv)
    (hs : value ≠ .struct) (buf : Bytes) (pos lim : Nat) (hroom : ¬ pos + tagHdrSize > lim) :
    ttlvEncode (.node tag length value child next) buf pos lim =
      match ttlvValueHton value length
          (writeAt (writeAt buf pos (beEncode 4 (tag * 256 + value.type))) (pos + 4)
            (beEncode 4 length)) (pos + 8) (lim - (pos + 8)) with
      | (none, buf) => (none, buf)
      | (some ret, buf) =>
        match ttlvEncode next buf (pos + 8 + ret) lim with
        | (none, buf) => (none, buf)
        | (some rest, buf) => (some (8 + ret + rest), buf) := by
  cases value with
  | struct => exact absurd rfl hs
  | _ =>
    rw [ttlvEncode, if_neg hroom]
    dsimp only
    rcases ttlvValueHton _ length _ _ _ with ⟨_ | ret, written⟩ <;> rfl

/-- On a tree with the right sizes and enough room `ttlv_encode` succeeds, returns
the size of the wire form and writes exactly the wire form. -/
theorem ttlvEncode_of_sized (t : Ttlv) (hv : Sized t) (buf : Bytes) (pos lim : Nat)
    (hfit : pos + (wire t).length ≤ lim) (hlim : lim ≤ buf.length)
    (hbig : (wire t).length + 7 < 2 ^ 32) :
    ttlvEncode t buf pos lim = (some (wire t).length, writeAt buf pos (wire t)) := by
  induction t generalizing buf pos with
  | null => simp [ttlvEncode, wire, writeAt_nil]
  | node tag length value child next ihc ihn =>
    obtain ⟨hl, hvc, hvn⟩ := hv
    by_cases hs : value = .struct
    · subst hs
      rw [wire_struct] at hfit hbig ⊢
      simp only [List.length_append, beEncode_length] at hfit hbig
      have hroom : ¬ pos + tagHdrSize > lim := by unfold tagHdrSize; omega
      have hlenHdr := writeAt_length buf pos (beEncode 4 (tag * 256 + 6))
        (by rw [beEncode_length]; omega)
      have hchild := ihc hvc (writeAt buf pos (beEncode 4 (tag * 256 + 6))) (pos + 8)
        (by omega) (by omega) (by omega)
      -- the length word is patched in behind the tag after the children were written
      have hpatch := writeAt_comm (writeAt buf pos (beEncode 4 (tag * 256 + 6))) (pos + 4) (pos + 8)
        (beEncode 4 (wire child).length) (wire child) (by rw [beEncode_length]) (by omega)
      have hhdr := writeAt_writeAt buf pos (beEncode 4 (tag * 256 + 6))
        (beEncode 4 (wire child).length) (by rw [beEncode_length]; omega)
      have hbody := writeAt_writeAt buf pos
        (beEncode 4 (tag * 256 + 6) ++ beEncode 4 (wire child).length) (wire child)
        (by simp only [List.length_append, beEncode_length]; omega)
      simp only [List.length_append, beEncode_length, Nat.reduceAdd] at hhdr hbody
      rw [hhdr, hbody] at hpatch
      have hlenBody := writeAt_length buf pos
        (beEncode 4 (tag * 256 + 6) ++ beEncode 4 (wire child).length ++ wire child)
        (by simp only [List.length_append, beEncode_length]; omega)
      have hrest := ihn hvn (writeAt buf pos
        (beEncode 4 (tag * 256 + 6) ++ beEncode 4 (wire child).length ++ wire child))
        (pos + 8 + (wire child).length) (by omega) (by omega) (by omega)
      have hall := writeAt_writeAt buf pos
        (beEncode 4 (tag * 256 + 6) ++ beEncode 4 (wire child).length ++ wire child) (wire next)
        (by simp only [List.length_append, beEncode_length]; omega)
      simp only [List.length_append, beEncode_length, Nat.reduceAdd, ← Nat.add_assoc] at hall
      simp only [ttlvEncode, if_neg hroom, TtlvValue.type, hchild, hpatch, hrest]
      simp only [List.length_append, beEncode_length, Nat.reduceAdd, hall]
    · rw [wire_value _ _ _ _ _ hs] at hfit hbig ⊢
      simp only [List.length_append, beEncode_length] at hfit hbig
      have hroom : ¬ pos + tagHdrSize > lim := by unfold tagHdrSize; omega
      have hhdr := writeAt_writeAt buf pos (beEncode 4 (tag * 256 + value.type))
        (beEncode 4 (length)) (by rw [beEncode_length]; omega)
      have hlenHdr := writeAt_length buf pos
        (beEncode 4 (tag * 256 + value.type) ++ beEncode 4 (length))
        (by simp only [List.length_append, beEncode_length]; omega)
      have hval := ttlvValueHton_eq value hs length hl (writeAt buf pos
        (beEncode 4 (tag * 256 + value.type) ++ beEncode 4 (length))) (pos + 8)
        (lim - (pos + 8)) (by omega) (by omega) (by omega)
      have hbody := writeAt_writeAt buf pos
        (beEncode 4 (tag * 256 + value.type) ++ beEncode 4 (length)) (slot value)
        (by simp only [List.length_append, beEncode_length]; omega)
      have hlenBody := writeAt_length buf pos
        (beEncode 4 (tag * 256 + value.type) ++ beEncode 4 (length) ++ slot value)
        (by simp only [List.length_append, beEncode_length]; omega)
      have hrest := ihn hvn (writeAt buf pos
        (beEncode 4 (tag * 256 + value.type) ++ beEncode 4 (length) ++ slot value))
        (pos + 8 + (slot value).length) (by omega) (by omega) (by omega)
      have hall := writeAt_writeAt buf pos
        (beEncode 4 (tag * 256 + value.type) ++ beEncode 4 (length) ++ slot value)
        (wire next) (by simp only [List.length_append, beEncode_length]; omega)
      simp only [List.length_append, beEncode_length, Nat.reduceAdd] at hhdr hbody
      simp only [List.length_append, beEncode_length, Nat.reduceAdd, ← Nat.add_assoc] at hall
      rw [ttlvEncode_value _ _ _ _ _ hs _ _ _ hroom, hhdr, hval, hbody]
      simp only [hrest, List.length_append, beEncode_length, Nat.reduceAdd, hall]

theorem ttlvEncode_eq_wire (t : Ttlv) (hv : Valid t) (buf : Bytes) (pos lim : Nat)
    (hfit : pos + (wire t).length ≤ lim) (hlim : lim ≤ buf.length)
    (hbig : (wire t).length + 7 < 2 ^ 32) :
    ttlvEncode t buf pos lim = (some (wire t).length, writeAt buf pos (wire t)) :=
  ttlvEncode_of_sized t hv.sized buf pos lim hfit hlim hbig

/-! ## Decoding -/

theorem ttlvDecodeLoop_round (rounds : Nat) (buf : Bytes) (h : 0 < buf.length) :
    ttlvDecodeLoop (rounds + 1) buf = ttlvDecodeRound (ttlvDecodeLoop rounds) buf := by
  cases buf with
  | nil => simp at h
  | cons b bs => rfl

theorem beDecode_beEncode4 (n : Nat) (h : n < 2 ^ 32) : beDecode (beEncode 4 n) = n := by
  rw [beDecode_beEncode, Nat.mod_eq_of_lt (by omega)]

theorem type_lt (value : TtlvValue) : 0 < value.type ∧ value.type < 7 := by
  cases value <;> simp [TtlvValue.type]

theorem type_eq_struct (value : TtlvValue) : value.type = 6 ↔ value = .struct := by
  cases value <;> simp [TtlvValue.type]

/-- The header of a node as one round of the decoder reads it. -/
theorem header_read (tag type len : Nat) (rest : Bytes) (ht : tag < 2 ^ 24) (hty : type < 256)
    (hl : len < 2 ^ 32) :
    let buf := beEncode 4 (tag * 256 + type) ++ beEncode 4 len ++ rest
    beDecode (buf.take 4) = tag * 256 + type ∧ beDecode ((buf.drop 4).take 4) = len ∧
      buf.drop 8 = rest := by
  have h1 : (beEncode 4 (tag * 256 + type)).length = 4 := beEncode_length _ _
  have h2 : (beEncode 4 len).length = 4 := beEncode_length _ _
  refine ⟨?_, ?_, ?_⟩
  · rw [List.append_assoc, List.take_left' h1, beDecode_beEncode4 _ (by omega)]
  · rw [List.append_assoc, List.drop_left' h1, List.take_left' h2, beDecode_beEncode4 _ hl]
  · rw [List.drop_left' (by simp [h1, h2])]

/-- The lengths that the constructors store pass the check of the decoder. -/
theorem ttlvValidLen_own (tag : Nat) (value : TtlvValue) (hs : value ≠ .struct) :
    ttlvValidLen (tag * 256 + value.type) (ownLength value) = true := by
  cases tag with
  | zero => cases value <;> simp_all [ttlvValidLen, TtlvValue.type, ownLength]
  | succ tag =>
    unfold ttlvValidLen
    split <;> first | omega | rfl

theorem ttlvValidLen_struct (tag len : Nat) (h : len % 8 = 0) :
    ttlvValidLen (tag * 256 + 6) len = true := by
  unfold ttlvValidLen
  split <;> first | omega | simp [h]

/-- Reading a value area gives the value back, whatever follows it. -/
theorem ttlvValueNtoh_slot (value : TtlvValue) (hs : value ≠ .struct) (length : Nat)
    (hlen : value.type = 4 ∨ value.type = 5 → length = ownLength value) (rest : Bytes)
    (hbig : (slot value).length < 2 ^ 31) :
    ttlvValueNtoh value.type length (slot value ++ rest) =
      some (value, (slot value).length) := by
  have hround := slot_length value hs (by omega)
  cases value with
  | struct => exact absurd rfl hs
  | int v | bool v =>
    have hv : v.toNat < 2 ^ 32 := v.isLt
    have h4 : (beEncode 4 v.toNat).length = 4 := beEncode_length _ _
    simp only [slot, TtlvValue.type, ttlvValueNtoh, List.append_assoc, List.take_left' h4,
      beDecode_beEncode4 _ hv, BitVec.ofNat_toNat, BitVec.setWidth_eq, List.length_append, h4]
    rw [if_neg (by simp only [List.length_cons]; omega)]
    rfl
  | long v =>
    have hv : v.toNat < 2 ^ 64 := v.isLt
    have h8 : (beEncode 8 v.toNat).length = 8 := beEncode_length _ _
    have hdec : beDecode (beEncode 8 v.toNat) = v.toNat := by
      rw [beDecode_beEncode, Nat.mod_eq_of_lt (by omega)]
    simp only [slot, TtlvValue.type, ttlvValueNtoh, List.take_left' h8, hdec, BitVec.ofNat_toNat,
      BitVec.setWidth_eq, List.length_append, h8]
    simp
  | text v | raw v =>
    rw [hlen (by simp [TtlvValue.type])]
    simp only [TtlvValue.type, ttlvValueNtoh, ← hround]
    have hnonneg : ¬ toInt32 (slot _).length < 0 :=
      (toInt32_neg_iff _ (by omega)).not.mpr (Nat.not_le.mpr hbig)
    rw [if_neg (not_or.mpr ⟨by simp only [List.length_append]; omega, hnonneg⟩)]
    simp [slot, ownLength]

/-- Decoding the wire form of a well-formed tree gives the tree back. -/
theorem ttlvDecodeLoop_wire (t : Ttlv) (hv : Valid t) (hbig : (wire t).length < 2 ^ 31)
    (rounds : Nat) (hr : (wire t).length ≤ rounds) :
    ttlvDecodeLoop rounds (wire t) = .done t := by
  induction t generalizing rounds with
  | null => cases rounds <;> rfl
  | node tag length value child next ihc ihn =>
    obtain ⟨ht, rfl, hleaf, hvc, hvn⟩ := hv
    by_cases hs : value = .struct
    · subst hs
      have hmod := wire_length_mod child
      rw [wire_struct] at hbig hr ⊢
      simp only [List.length_append, beEncode_length] at hbig hr
      obtain ⟨h1, h2, h3⟩ := header_read tag 6 (wire child).length (wire child ++ wire next) ht
        (by decide) (by omega)
      simp only [← List.append_assoc] at h1 h2 h3
      obtain ⟨rounds, rfl⟩ : ∃ r, rounds = r + 1 := ⟨rounds - 1, by omega⟩
      rw [ttlvDecodeLoop_round _ _ (by simp only [List.length_append, beEncode_length]; omega),
        ttlvDecodeRound,
        if_neg (by simp only [List.length_append, beEncode_length, tagHdrSize]; omega)]
      simp only [h1, h2, h3, ttlvValidLen_struct tag _ (hmod (by omega))]
      have htag : (tag * 256 + 6) / 256 = tag := by omega
      have htype : (tag * 256 + 6) % 256 = 6 := by omega
      simp only [htag, htype]
      rw [if_neg (by omega), if_neg (by simp), if_neg (by simp), if_neg (by simp),
        List.take_left' rfl, List.drop_left' rfl, ihc hvc (by omega) _ (by omega),
        ihn hvn (by omega) _ (by omega)]
      exact if_neg ((toInt32_neg_iff _ (by omega)).not.mpr (by omega))
    · have hty := type_lt value
      have hne : value.type ≠ 6 := fun h => hs ((type_eq_struct value).mp h)
      rw [wire_value _ _ _ _ _ hs] at hbig hr ⊢
      simp only [List.length_append, beEncode_length] at hbig hr
      have hround := slot_length value hs (by omega)
      have hown := ownLength_le_slot value
      obtain ⟨h1, h2, h3⟩ := header_read tag value.type (ownLength value) (slot value ++ wire next)
        ht (by omega) (by omega)
      simp only [← List.append_assoc] at h1 h2 h3
      obtain ⟨rounds, rfl⟩ : ∃ r, rounds = r + 1 := ⟨rounds - 1, by omega⟩
      rw [ttlvDecodeLoop_round _ _ (by simp only [List.length_append, beEncode_length]; omega),
        ttlvDecodeRound,
        if_neg (by simp only [List.length_append, beEncode_length, tagHdrSize]; omega)]
      simp only [h1, h2, h3, ttlvValidLen_own tag value hs]
      have htag : (tag * 256 + value.type) / 256 = tag := by omega
      have htype : (tag * 256 + value.type) % 256 = value.type := by omega
      simp only [htag, htype]
      rw [if_neg (by omega), if_neg (by simp),
        if_neg (by simp only [List.length_append]; omega), if_pos hne,
        ttlvValueNtoh_slot value hs _ (fun _ => rfl) _ (by omega)]
      have hnext := ihn hvn (by omega) rounds (by omega)
      simp only [List.drop_left' rfl, hnext, DecodeResult.link]
      rw [hleaf hs]

/-- `ttlv_decode` inverts the wire form: all octets consumed, the same tree. -/
theorem ttlvDecode_wire (t : Ttlv) (hv : Valid t) (hbig : (wire t).length < 2 ^ 31) :
    ttlvDecode (wire t) = (((wire t).length : Int), t) := by
  rw [ttlvDecode, ttlvDecodeLoop_wire t hv hbig _ le_rfl]
  exact congrArg (·, t) (toInt32_eq _ (Int.natCast_nonneg _) (by omega))

end Sexpect.Guarantees
