import Sexpect.Guarantees.WireFormat

/-!
# `ttlv_calc_size` and `ttlv_encode` agree

`msg_send` gives the encoder a buffer and compares what it returns with
`ttlv_calc_size`.  For every forest the constructors can build, the encoder
succeeds exactly when the computed size fits, returns that size, and never writes
outside the room it was given.
-/
namespace Sexpect.Guarantees
open Sexpect.Lib Sexpect.Source

/-- Forests built with the functions of proto.c: siblings linked by `ttlv_append`,
children by `ttlv_append_child`, in any order and below any node. -/
inductive Forest : Ttlv → Prop
  | int (tag : Nat) (v : BitVec 32) : Forest (ttlvNewInt tag v)
  | long (tag : Nat) (v : BitVec 64) : Forest (ttlvNewLong tag v)
  | bool (tag : Nat) (v : BitVec 32) : Forest (ttlvNewBool tag v)
  | text (tag : Nat) (data : Bytes) : Forest (ttlvNewText tag data)
  | raw (tag : Nat) (data : Bytes) : Forest (ttlvNewRaw tag data)
  | struct (tag : Nat) : Forest (ttlvNewStruct tag)
  | append (head p : Ttlv) : Forest head → Forest p → Forest (ttlvAppend head p)
  | appendChild (head : Ttlv) (children : List Ttlv) : Forest head →
      (∀ c ∈ children, Forest c) → Forest (ttlvAppendChild head children)

theorem measured_append (a b : Ttlv) (ha : Measured a) (hb : Measured b) :
    Measured (ttlvAppend a b) := by
  induction a with
  | null => exact hb
  | node tag length value child next _ ihn =>
    obtain ⟨hl, hc, hn⟩ := ha
    exact ⟨hl, hc, ihn hn⟩

theorem measured_link (cs : List Ttlv) (h : ∀ c ∈ cs, Measured c) : Measured (ttlvLink cs) := by
  fun_induction ttlvLink cs with
  | case1 => trivial
  | case2 p => exact h p (by simp)
  | case3 ps _ ih => exact ih (fun c hc => h c (by simp [hc]))
  | case4 tag length value child next ps _ ih =>
    obtain ⟨hl, hc, -⟩ := h (.node tag length value child next) (by simp)
    exact ⟨hl, hc, ih (fun c hc => h c (by simp [hc]))⟩

theorem Forest.measured {t : Ttlv} (h : Forest t) : Measured t := by
  induction h with
  | int | long | bool | text | raw | struct => exact ⟨rfl, trivial, trivial⟩
  | append head p _ _ ihHead ihp => exact measured_append head p ihHead ihp
  | appendChild head children _ _ ihHead ihChildren =>
    cases head with
    | null => trivial
    | node tag length value child next =>
      obtain ⟨hl, hc, hn⟩ := ihHead
      exact ⟨hl, measured_append _ _ hc (measured_link _ ihChildren), hn⟩

/-! ## Too little room -/

theorem ttlvValueHton_short (value : TtlvValue) (hs : value ≠ .struct) (length : Nat)
    (hlen : value.type = 4 ∨ value.type = 5 → length = ownLength value) (buf : Bytes)
    (pos bufLen : Nat) (hshort : bufLen < (slot value).length)
    (hbig : (slot value).length + 7 < 2 ^ 32) :
    ttlvValueHton value length buf pos bufLen = (none, buf) := by
  have hround := slot_length value hs hbig
  cases value with
  | struct => exact absurd rfl hs
  | int v | bool v =>
    simp only [slot, List.length_append, beEncode_length, List.length_cons, List.length_nil]
      at hshort
    rw [ttlvValueHton, if_pos (by omega)]
  | long v =>
    simp only [slot, beEncode_length] at hshort
    rw [ttlvValueHton, if_pos (by omega)]
  | text v | raw v =>
    rw [hlen (by simp [TtlvValue.type]), ttlvValueHton, ← hround, if_pos hshort]

/-- Without room for the whole wire form `ttlv_encode` fails. -/
theorem ttlvEncode_short (t : Ttlv) (hv : Sized t) (buf : Bytes) (pos lim : Nat) (hpos : pos ≤ lim)
    (hshort : lim < pos + (wire t).length) (hlim : lim ≤ buf.length)
    (hbig : (wire t).length + 7 < 2 ^ 32) : (ttlvEncode t buf pos lim).1 = none := by
  induction t generalizing buf pos with
  | null =>
    simp only [wire, List.length_nil] at hshort
    omega
  | node tag length value child next ihc ihn =>
    obtain ⟨hl, hvc, hvn⟩ := hv
    by_cases hroom : pos + tagHdrSize > lim
    · rw [ttlvEncode, if_pos hroom]
    have hhdr : pos + 8 ≤ lim := by
      unfold tagHdrSize at hroom
      omega
    by_cases hs : value = .struct
    · subst hs
      rw [wire_struct] at hshort hbig
      simp only [List.length_append, beEncode_length] at hshort hbig
      have htag := writeAt_length buf pos (beEncode 4 (tag * 256 + 6))
        (by rw [beEncode_length]; omega)
      by_cases hfit : pos + 8 + (wire child).length ≤ lim
      · -- the children fit, so the siblings do not
        have hchild := ttlvEncode_of_sized child hvc
          (writeAt buf pos (beEncode 4 (tag * 256 + 6))) (pos + 8) lim hfit (by omega) (by omega)
        have hbody := writeAt_length (writeAt buf pos (beEncode 4 (tag * 256 + 6))) (pos + 8)
          (wire child) (by omega)
        have hpatch := writeAt_length
          (writeAt (writeAt buf pos (beEncode 4 (tag * 256 + 6))) (pos + 8) (wire child)) (pos + 4)
          (beEncode 4 (wire child).length) (by rw [beEncode_length]; omega)
        have hnext := ihn hvn _ (pos + 8 + (wire child).length) hfit (by omega)
          (by rw [hpatch, hbody, htag]; exact hlim) (by omega)
        simp only [ttlvEncode, if_neg hroom, TtlvValue.type, hchild]
        split
        · rfl
        · rename_i heq
          rw [heq] at hnext
          cases hnext
      · have hchild := ihc hvc (writeAt buf pos (beEncode 4 (tag * 256 + 6))) (pos + 8) hhdr
          (by omega) (by omega) (by omega)
        cases hresult : ttlvEncode child (writeAt buf pos (beEncode 4 (tag * 256 + 6))) (pos + 8)
            lim with
        | mk ret written =>
          rw [hresult] at hchild
          simp only at hchild
          subst hchild
          simp only [ttlvEncode, if_neg hroom, TtlvValue.type, hresult]
    · rw [wire_value _ _ _ _ _ hs] at hshort hbig
      simp only [List.length_append, beEncode_length] at hshort hbig
      have htag := writeAt_length buf pos (beEncode 4 (tag * 256 + value.type))
        (by rw [beEncode_length]; omega)
      have hword := writeAt_length (writeAt buf pos (beEncode 4 (tag * 256 + value.type))) (pos + 4)
        (beEncode 4 length) (by rw [beEncode_length]; omega)
      rw [ttlvEncode_value _ _ _ _ _ hs _ _ _ hroom]
      by_cases hfit : (slot value).length ≤ lim - (pos + 8)
      · have hval := ttlvValueHton_eq value hs length hl
          (writeAt (writeAt buf pos (beEncode 4 (tag * 256 + value.type))) (pos + 4)
            (beEncode 4 length)) (pos + 8) (lim - (pos + 8)) hfit (by omega) (by omega)
        have hbody := writeAt_length
          (writeAt (writeAt buf pos (beEncode 4 (tag * 256 + value.type))) (pos + 4)
            (beEncode 4 length)) (pos + 8) (slot value) (by omega)
        have hnext := ihn hvn _ (pos + 8 + (slot value).length) (by omega) (by omega)
          (by rw [hbody, hword, htag]; exact hlim) (by omega)
        rw [hval]
        simp only
        split
        · rfl
        · rename_i heq
          rw [heq] at hnext
          cases hnext
      · have hval := ttlvValueHton_short value hs length hl
          (writeAt (writeAt buf pos (beEncode 4 (tag * 256 + value.type))) (pos + 4)
            (beEncode 4 length)) (pos + 8) (lim - (pos + 8)) (by omega) (by omega)
        rw [hval]

/-! ## The frame of the encoder -/

theorem ttlvValueHton_confined (value : TtlvValue) (hs : value ≠ .struct) (length : Nat)
    (hlen : value.type = 4 ∨ value.type = 5 → length = ownLength value) (buf : Bytes)
    (pos bufLen : Nat) (hbuf : pos + bufLen ≤ buf.length)
    (hbig : (slot value).length + 7 < 2 ^ 32) :
    Confined pos (pos + bufLen) buf (ttlvValueHton value length buf pos bufLen).2 := by
  by_cases hfit : (slot value).length ≤ bufLen
  · rw [ttlvValueHton_eq value hs length hlen buf pos bufLen hfit (by omega) hbig]
    exact .writeAt buf pos (slot value) _ _ le_rfl (by omega) hbuf
  · rw [ttlvValueHton_short value hs length hlen buf pos bufLen (by omega) hbig]
    exact .refl _ _ buf

/-- Whether or not it succeeds, `ttlv_encode` writes between `pos` and `lim` only. -/
theorem ttlvEncode_confined (t : Ttlv) (hv : Sized t) (buf : Bytes) (pos lim : Nat)
    (hlim : lim ≤ buf.length) (hbig : (wire t).length + 7 < 2 ^ 32) :
    Confined pos lim buf (ttlvEncode t buf pos lim).2 := by
  induction t generalizing buf pos with
  | null => exact .refl _ _ buf
  | node tag length value child next ihc ihn =>
    obtain ⟨hl, hvc, hvn⟩ := hv
    by_cases hroom : pos + tagHdrSize > lim
    · rw [ttlvEncode, if_pos hroom]
      exact .refl _ _ buf
    have hhdr : pos + 8 ≤ lim := by
      unfold tagHdrSize at hroom
      omega
    have htag : ∀ type, Confined pos lim buf (writeAt buf pos (beEncode 4 (tag * 256 + type))) := by
      intro type
      exact .writeAt buf pos _ pos lim le_rfl (by rw [beEncode_length]; omega) hlim
    by_cases hs : value = .struct
    · subst hs
      rw [wire_struct] at hbig
      simp only [List.length_append, beEncode_length] at hbig
      have hchild := ihc hvc (writeAt buf pos (beEncode 4 (tag * 256 + 6))) (pos + 8)
        (by rw [(htag 6).length]; exact hlim) (by omega)
      have hstart := (htag 6).trans (hchild.mono (by omega) le_rfl)
      simp only [ttlvEncode, if_neg hroom, TtlvValue.type]
      cases hresult : ttlvEncode child (writeAt buf pos (beEncode 4 (tag * 256 + 6))) (pos + 8)
          lim with
      | mk ret written =>
        rw [hresult] at hstart
        cases ret with
        | none => exact hstart
        | some ret =>
          have hpatched := hstart.trans (.writeAt written (pos + 4) (beEncode 4 ret) pos lim (by omega)
            (by rw [beEncode_length]; omega) (by rw [hstart.length]; exact hlim))
          have hnext := ihn hvn (writeAt written (pos + 4) (beEncode 4 ret)) (pos + 8 + ret)
            (by rw [hpatched.length]; exact hlim) (by omega)
          have hall := hpatched.trans (hnext.mono (by omega) le_rfl)
          simp only
          split
          · rename_i heq
            rwa [heq] at hall
          · rename_i heq
            rwa [heq] at hall
    · rw [wire_value _ _ _ _ _ hs] at hbig
      simp only [List.length_append, beEncode_length] at hbig
      have hword := (htag value.type).trans (.writeAt _ (pos + 4) (beEncode 4 length) pos lim (by omega)
        (by rw [beEncode_length]; omega) (by rw [(htag value.type).length]; exact hlim))
      have hvalue := ttlvValueHton_confined value hs length hl
        (writeAt (writeAt buf pos (beEncode 4 (tag * 256 + value.type))) (pos + 4) (beEncode 4 length))
        (pos + 8) (lim - (pos + 8)) (by rw [hword.length]; omega) (by omega)
      have hstart := hword.trans (hvalue.mono (by omega) (by omega))
      rw [ttlvEncode_value _ _ _ _ _ hs _ _ _ hroom]
      cases hresult : ttlvValueHton value length
          (writeAt (writeAt buf pos (beEncode 4 (tag * 256 + value.type))) (pos + 4)
            (beEncode 4 length)) (pos + 8) (lim - (pos + 8)) with
      | mk ret written =>
        rw [hresult] at hstart
        cases ret with
        | none => exact hstart
        | some ret =>
          have hnext := ihn hvn written (pos + 8 + ret) (by rw [hstart.length]; exact hlim) (by omega)
          have hall := hstart.trans (hnext.mono (by omega) le_rfl)
          simp only
          split
          · rename_i heq
            rwa [heq] at hall
          · rename_i heq
            rwa [heq] at hall

/-- For every forest of the constructors with a size below `2 ^ 31`: `ttlv_encode`
into a room of `L` octets succeeds exactly when `ttlv_calc_size` is at most `L`; it
then returns that size and writes nothing behind it.  When it fails it has written
nothing behind the room. -/
theorem ttlvEncode_calcSize (t : Ttlv) (ht : Forest t) (hsize : (wire t).length < 2 ^ 31)
    (buf : Bytes) (L : Nat) (hL : L ≤ buf.length) :
    ((∃ n, (ttlvEncode t buf 0 L).1 = some n) ↔ ttlvCalcSize t ≤ L) ∧
      (∀ n, (ttlvEncode t buf 0 L).1 = some n →
        (n : Int) = ttlvCalcSize t ∧ Confined 0 n buf (ttlvEncode t buf 0 L).2) ∧
      ((ttlvEncode t buf 0 L).1 = none → Confined 0 L buf (ttlvEncode t buf 0 L).2) := by
  have hsized := ht.measured.sized
  have hcalc := ttlvCalcSize_of_measured t ht.measured hsize
  by_cases hfit : (wire t).length ≤ L
  · have hencode := ttlvEncode_of_sized t hsized buf 0 L (by omega) hL (by omega)
    rw [hencode, hcalc]
    refine ⟨⟨fun _ => by exact_mod_cast hfit, fun _ => ⟨_, rfl⟩⟩, ?_, ?_⟩
    · intro n hn
      cases hn
      exact ⟨rfl, .writeAt buf 0 (wire t) 0 _ le_rfl (by omega) (by omega)⟩
    · intro hnone
      cases hnone
  · have hfail := ttlvEncode_short t hsized buf 0 L (by omega) (by omega) hL (by omega)
    rw [hfail, hcalc]
    refine ⟨⟨?_, ?_⟩, ?_, ?_⟩
    · rintro ⟨n, hn⟩
      cases hn
    · intro hle
      exact absurd (by exact_mod_cast hle) hfit
    · intro n hn
      cases hn
    · intro _
      exact ttlvEncode_confined t hsized buf 0 L hL (by omega)

/-- A struct with an empty and a full text, and a sibling, in a buffer one octet
too small. -/
theorem ttlvEncode_calcSize_pair :
    let child := ttlvAppend (ttlvNewText 22 []) (ttlvNewRaw 10 [1, 2, 3])
    let t := ttlvAppend (ttlvAppendChild (ttlvNewStruct 1) [child]) (ttlvNewInt 5 7)
    ttlvCalcSize t = 48 ∧ (wire t).length < 2 ^ 31 ∧
      ((∃ n, (ttlvEncode t (List.replicate 50 255) 0 47).1 = some n) ↔ ttlvCalcSize t ≤ (47 : Nat)) ∧
      Confined 0 47 (List.replicate 50 255) (ttlvEncode t (List.replicate 50 255) 0 47).2 := by
  intro child t
  have hchild : Forest child := .append _ _ (.text 22 []) (.raw 10 [1, 2, 3])
  have ht : Forest t := by
    refine .append _ _ (.appendChild _ _ (.struct 1) ?_) (.int 5 7)
    intro c hc
    rw [List.mem_singleton.mp hc]
    exact hchild
  have hsize : (wire t).length < 2 ^ 31 := by decide +kernel
  obtain ⟨hiff, -, hnone⟩ := ttlvEncode_calcSize t ht hsize (List.replicate 50 255) 47 (by simp)
  exact ⟨by decide +kernel, hsize, hiff, hnone (by decide +kernel)⟩

end Sexpect.Guarantees
