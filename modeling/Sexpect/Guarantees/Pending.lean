import Sexpect.Guarantees.Windows

/-!
# The text a pattern would see

`pending` is what the next `buf_raw2expect` would leave in the expect buffer,
were there room for it.  A read appends to it, sending and copying leave it as it
is, a match and a reset cut it the same way wherever it is stored, and only
`drop_old_data` treats the part that was copied and the part that was not
differently.
-/
namespace Sexpect.Guarantees
open Sexpect.Lib Sexpect.Source

def pending (stream : Bytes) (b : Buffers) : Bytes :=
  (catchUp b).expbuf.take (catchUp b).expcnt ++ nonNul (stream.drop (catchUp b).expoffset)

/-- How many octets of that text are left behind `drop_old_data`: those in the
raw buffer when it overtakes the expect buffer, else the last `MAX_OLD_DATA` that
were copied and all that were not. -/
def survivors (stream : Bytes) (b : Buffers) : Nat :=
  if b.expoffset < b.rawoffset + (b.rawnew - maxOldData) then
    (nonNul (stream.drop (b.rawoffset + (b.rawnew - maxOldData)))).length
  else min b.expcnt maxOldData + (nonNul (stream.drop b.expoffset)).length

/-- The condition of the assertion in `buf_raw2expect`. -/
def Fits (b : Buffers) : Prop :=
  (catchUp b).expcnt + (b.ntotal - (catchUp b).expoffset) ≤ sizeRawBuf

instance (b : Buffers) : Decidable (Fits b) := inferInstanceAs (Decidable (_ ≤ _))

theorem pending_overtaken {stream : Bytes} {b : Buffers} (h : b.expoffset < b.rawoffset) :
    pending stream b = nonNul (stream.drop b.rawoffset) := by
  simp [pending, catchUp, h]

theorem pending_kept {stream : Bytes} {b : Buffers} (h : b.rawoffset ≤ b.expoffset) :
    pending stream b = b.expbuf.take b.expcnt ++ nonNul (stream.drop b.expoffset) := by
  have hn : ¬ b.expoffset < b.rawoffset := by omega
  simp [pending, catchUp, hn]

theorem fits_kept {b : Buffers} (h : b.rawoffset ≤ b.expoffset) :
    Fits b ↔ b.expcnt + (b.ntotal - b.expoffset) ≤ sizeRawBuf := by
  have hn : ¬ b.expoffset < b.rawoffset := by omega
  simp [Fits, catchUp, hn]

/-- The text is always an end of the stream. -/
theorem pending_suffix {stream : Bytes} {mark : Nat} {b : Buffers} (hraw : RawWindow stream b)
    (hexp : ExpectWindow stream mark b) : ∃ p, pending stream b = nonNul (stream.drop p) := by
  by_cases hov : b.expoffset < b.rawoffset
  · exact ⟨b.rawoffset, pending_overtaken hov⟩
  · obtain ⟨p, -, hp, -, hwin⟩ := hexp.window
    have hcop := hraw.copied
    have hread := hraw.read
    refine ⟨p, ?_⟩
    rw [pending_kept (by omega), hwin, ← nonNul_append, ← segment_to_end stream b.expoffset,
      segment_append _ _ _ _ hp (by omega), segment_to_end]

/-- Ends of one stream are told apart by their lengths. -/
theorem pending_eq_of_length {stream : Bytes} {mark mark' : Nat} {b b' : Buffers}
    (hraw : RawWindow stream b) (hexp : ExpectWindow stream mark b) (hraw' : RawWindow stream b')
    (hexp' : ExpectWindow stream mark' b')
    (hlen : (pending stream b).length = (pending stream b').length) :
    pending stream b = pending stream b' := by
  obtain ⟨p, hp⟩ := pending_suffix hraw hexp
  obtain ⟨q, hq⟩ := pending_suffix hraw' hexp'
  rw [hp, hq] at hlen ⊢
  rcases Nat.le_total p q with hle | hle
  · exact nonNul_drop_eq stream p q hle hlen.le
  · exact (nonNul_drop_eq stream q p hle hlen.ge).symm

theorem pending_appendRaw {stream got : Bytes} {b : Buffers} (h : RawWindow stream b) :
    pending (stream ++ got) (appendRaw got b) = pending stream b ++ nonNul got := by
  have htotal := h.total
  have hread := h.read
  have hcop := h.copied
  by_cases hov : b.expoffset < b.rawoffset
  · rw [pending_overtaken hov, pending_overtaken (b := appendRaw got b) hov]
    simp only [appendRaw]
    rw [List.drop_append_of_le_length (by omega), nonNul_append]
  · have hkept : (appendRaw got b).rawoffset ≤ (appendRaw got b).expoffset := by
      simp only [appendRaw]
      omega
    rw [pending_kept hkept, pending_kept (b := b) (by omega)]
    simp only [appendRaw]
    rw [List.drop_append_of_le_length (by omega), nonNul_append, List.append_assoc]

theorem pending_markOld (stream : Bytes) (b : Buffers) :
    pending stream (markOld b) = pending stream b := by
  unfold pending catchUp markOld
  split <;> rfl

theorem pending_markSent (stream : Bytes) (b : Buffers) :
    pending stream (markSent b) = pending stream b := by
  unfold pending catchUp markSent
  split <;> rfl

/-- When nothing is left to copy, the text is the string in the buffer. -/
theorem pending_copied {stream : Bytes} {b : Buffers} (h : RawWindow stream b)
    (hoff : b.expoffset = b.ntotal) : pending stream b = b.expbuf.take b.expcnt := by
  have htotal := h.total
  have hread := h.read
  rw [pending_kept (by omega), hoff, hread, List.drop_length]
  simp [nonNul]

/-- A copy puts the whole text into the buffer. -/
theorem pending_bufRaw2expect {stream : Bytes} {mark : Nat} {b b' : Buffers}
    (hraw : RawWindow stream b) (hexp : ExpectWindow stream mark b)
    (hcopy : bufRaw2expect b = some b') : pending stream b' = pending stream b := by
  obtain ⟨hsame, hoff, -, -, -⟩ := bufRaw2expect_spec hraw hcopy
  obtain ⟨-, -, heb, -⟩ := catchUp_spec b
  rw [pending_copied (hraw.bufRaw2expect hcopy) (hoff.trans hsame.ntotal.symm),
    bufRaw2expect_taken hexp hraw hcopy, pending, heb, hraw.read, segment_to_end]

/-- A reset leaves the same text whatever was in the buffer. -/
theorem pending_resetExp {stream : Bytes} {b b' : Buffers} (h : SameRaw b b') (p : Nat) :
    pending stream (resetExp p b') = pending stream (resetExp p b) := by
  unfold pending catchUp resetExp
  rw [h.rawoffset]
  simp only [apply_ite Buffers.expcnt, apply_ite Buffers.expoffset, apply_ite Buffers.expbuf, ite_self,
    List.take_zero]

theorem pending_dropOldData_length {stream : Bytes} {mark : Nat} {b : Buffers}
    (hraw : RawWindow stream b) (hexp : ExpectWindow stream mark b) :
    (pending stream (dropOldData b)).length = survivors stream b := by
  obtain ⟨-, hro, heo, -, -, hec⟩ := dropOldData_counts b
  have hwin := hexp.moves hraw (.dropped trivial)
  have hsize := hwin.size
  have hcount := hwin.count
  unfold survivors
  split
  · rename_i hov
    rw [pending_overtaken (by omega), hro]
  · rename_i hov
    rw [pending_kept (by omega), List.length_append, List.length_take_of_le (by omega), hec, heo]

end Sexpect.Guarantees
