import Sexpect.Lib.Stream
import Sexpect.Source.Buffers

/-!
# The raw window and the expect window

`RawWindow` relates the raw buffer to the stream of octets read from the ptm,
`ExpectWindow` the expect buffer to the same stream and to a consumed mark.
`Moves` lists what can happen to the two buffers in one step, together with the
mark: every operation of the server is one of its cases, and both windows are
kept by each of them.
-/
namespace Sexpect.Guarantees
open Sexpect.Lib Sexpect.Source

/-- The raw buffer holds the stream from `rawoffset` on, and once octets have
been dropped from it at least `MAX_OLD_DATA` old ones are left. -/
structure RawWindow (stream : Bytes) (b : Buffers) : Prop where
  size : b.rawbuf.length = sizeRawBuf + 1
  fits : b.rawnew + b.newcnt ≤ sizeRawBuf
  total : b.rawoffset + b.rawnew + b.newcnt = b.ntotal
  read : b.ntotal = stream.length
  bytes : b.rawbuf.take (b.rawnew + b.newcnt) = stream.drop b.rawoffset
  copied : b.expoffset ≤ b.ntotal
  old : 0 < b.rawoffset → maxOldData ≤ b.rawnew

/-- The expect buffer holds the stream from some position `p` up to `expoffset`
without its zero octets: nothing before the mark, and nothing missing behind it
but what is more than `MAX_OLD_DATA` octets back. -/
structure ExpectWindow (stream : Bytes) (mark : Nat) (b : Buffers) : Prop where
  size : b.expbuf.length = sizeRawBuf + 1
  count : b.expcnt ≤ sizeRawBuf
  window : ∃ p, mark ≤ p ∧ p ≤ b.expoffset ∧ p ≤ max mark (b.expoffset - maxOldData) ∧
    b.expbuf.take b.expcnt = nonNul (segment stream p b.expoffset)

/-- The stream position right behind the octet at which a match ends: the text searched is the last
`shown` octets of the stream that are not zero, and the match ends at offset `eo` of it. -/
def matchEnd (stream : Bytes) (shown eo : Nat) : Nat :=
  afterNonNul ((nonNul stream).length - shown + eo) stream

/-- One step of the buffers, from a stream, buffers and a consumed mark; old
data are dropped only when `dropping` says so. -/
inductive Moves (dropping : Prop) (stream : Bytes) (b : Buffers) (mark : Nat) :
    Bytes → Buffers → Nat → Prop
  | same : Moves dropping stream b mark stream b mark
  | read (got : Bytes) : b.rawnew + b.newcnt + got.length ≤ sizeRawBuf →
      Moves dropping stream b mark (stream ++ got) (appendRaw got b) mark
  | old : b.rawnew + b.newcnt = sizeRawBuf → b.rawnew ≤ maxOldData →
      Moves dropping stream b mark stream (markOld b) mark
  | sent : Moves dropping stream b mark stream (markSent b) mark
  | copied (b' : Buffers) : bufRaw2expect b = some b' →
      Moves dropping stream b mark stream b' mark
  | reset : Moves dropping stream b mark stream (resetExp b.ntotal b) b.ntotal
  | matched (pos : Nat) : pos ≤ (cstring b.expbuf).length → b.expbuf[b.expcnt]? = some 0 →
      b.expoffset = b.ntotal →
      Moves dropping stream b mark stream (keepAfter pos b)
        (max mark (matchEnd stream b.expcnt pos))
  | dropped : dropping → Moves dropping stream b mark stream (dropOldData b) mark

theorem Moves.weaken {dropping dropping' : Prop} {stream stream' : Bytes} {b b' : Buffers}
    {mark mark' : Nat} (hd : dropping → dropping')
    (h : Moves dropping stream b mark stream' b' mark') :
    Moves dropping' stream b mark stream' b' mark' := by
  cases h with
  | same => exact .same
  | read got hfit => exact .read got hfit
  | old hfull hold => exact .old hfull hold
  | sent => exact .sent
  | copied _ hcopy => exact .copied _ hcopy
  | reset => exact .reset
  | matched pos hpos ht hoff => exact .matched pos hpos ht hoff
  | dropped hd' => exact .dropped (hd hd')

/-- The counters behind `drop_old_data`. -/
theorem dropOldData_counts (b : Buffers) :
    (dropOldData b).ntotal = b.ntotal ∧
      (dropOldData b).rawoffset = b.rawoffset + (b.rawnew - maxOldData) ∧
      (dropOldData b).expoffset = b.expoffset ∧ (dropOldData b).rawnew = min b.rawnew maxOldData ∧
      (dropOldData b).newcnt = b.newcnt ∧ (dropOldData b).expcnt = min b.expcnt maxOldData := by
  have hraw : (dropRaw b).ntotal = b.ntotal ∧
      (dropRaw b).rawoffset = b.rawoffset + (b.rawnew - maxOldData) ∧
      (dropRaw b).expoffset = b.expoffset ∧ (dropRaw b).rawnew = min b.rawnew maxOldData ∧
      (dropRaw b).newcnt = b.newcnt ∧ (dropRaw b).expcnt = b.expcnt := by
    unfold dropRaw
    split
    · refine ⟨rfl, rfl, rfl, ?_, rfl, rfl⟩
      simp only
      omega
    · refine ⟨rfl, ?_, rfl, ?_, rfl, rfl⟩ <;> omega
  obtain ⟨h1, h2, h3, h4, h5, h6⟩ := hraw
  unfold dropOldData dropExp
  split
  · refine ⟨h1, h2, h3, h4, h5, ?_⟩
    simp only
    omega
  · refine ⟨h1, h2, h3, h4, h5, ?_⟩
    omega

/-! ## The raw window -/

theorem RawWindow.appendRaw {stream got : Bytes} {b : Buffers} (h : RawWindow stream b)
    (hfit : b.rawnew + b.newcnt + got.length ≤ sizeRawBuf) :
    RawWindow (stream ++ got) (appendRaw got b) := by
  have hle : b.rawoffset ≤ stream.length := by
    have := h.total
    have := h.read
    omega
  refine ⟨?_, ?_, ?_, ?_, ?_, ?_, h.old⟩
  · have := h.size
    exact (writeAt_length _ _ _ (by omega)).trans h.size
  · simp only [Source.appendRaw]
    omega
  · have := h.total
    simp only [Source.appendRaw]
    omega
  · simp only [Source.appendRaw, List.length_append, h.read]
  · have hsize := h.size
    have htake := take_writeAt b.rawbuf (b.rawnew + b.newcnt) got (by omega)
    simp only [Source.appendRaw]
    rw [← Nat.add_assoc, htake, h.bytes, List.drop_append_of_le_length hle]
  · have := h.copied
    simp only [Source.appendRaw]
    omega

theorem RawWindow.markOld {stream : Bytes} {b : Buffers} (h : RawWindow stream b)
    (hfull : b.rawnew + b.newcnt = sizeRawBuf) (hold : b.rawnew ≤ maxOldData) :
    RawWindow stream (markOld b) := by
  have hsize := sizeRawBuf_eq
  have hmax := maxOldData_eq
  have hdrop := nonblockDropSize_eq
  have hsum : b.rawnew + nonblockDropSize + (b.newcnt - nonblockDropSize) = b.rawnew + b.newcnt := by
    omega
  refine ⟨h.size, ?_, ?_, h.read, ?_, h.copied, ?_⟩
  · simp only [Source.markOld, hsum]
    exact h.fits
  · have := h.total
    simp only [Source.markOld]
    omega
  · simp only [Source.markOld, hsum]
    exact h.bytes
  · intro hpos
    have := h.old hpos
    simp only [Source.markOld]
    omega

theorem RawWindow.markSent {stream : Bytes} {b : Buffers} (h : RawWindow stream b) :
    RawWindow stream (markSent b) := by
  refine ⟨h.size, h.fits, ?_, h.read, h.bytes, h.copied, ?_⟩
  · have := h.total
    simp only [Source.markSent]
    omega
  · intro hpos
    have := h.old hpos
    simp only [Source.markSent]
    omega

/-- The raw side of two buffers agrees. -/
structure SameRaw (b b' : Buffers) : Prop where
  ntotal : b'.ntotal = b.ntotal
  rawoffset : b'.rawoffset = b.rawoffset
  rawbuf : b'.rawbuf = b.rawbuf
  rawnew : b'.rawnew = b.rawnew
  newcnt : b'.newcnt = b.newcnt

/-- Dropping old data looks at the raw side for the raw side, and so does a lookback. -/
theorem SameRaw.dropOldData {ba bb : Buffers} (h : SameRaw ba bb) :
    SameRaw (dropOldData ba) (dropOldData bb) := by
  obtain ⟨h1, h2, -, h4, h5, -⟩ := dropOldData_counts ba
  obtain ⟨h1', h2', -, h4', h5', -⟩ := dropOldData_counts bb
  have hbuf : ∀ b : Buffers, (Source.dropOldData b).rawbuf =
      if b.rawnew > maxOldData then
        writeAt b.rawbuf 0 ((b.rawbuf.drop (b.rawnew - maxOldData)).take (maxOldData + b.newcnt))
      else b.rawbuf := by
    intro b
    unfold Source.dropOldData dropExp dropRaw
    split <;> split <;> rfl
  constructor
  · rw [h1, h1', h.ntotal]
  · rw [h2, h2', h.rawoffset, h.rawnew]
  · rw [hbuf, hbuf, h.rawbuf, h.rawnew, h.newcnt]
  · rw [h4, h4', h.rawnew]
  · rw [h5, h5', h.newcnt]

theorem lookbackStart_twin {ba bb : Buffers} (h : SameRaw ba bb) (lookback : Int) :
    lookbackStart lookback bb = lookbackStart lookback ba := by
  obtain ⟨h1, h2, h3, h4, h5⟩ := h
  unfold lookbackStart
  rw [h1, h2, h3, h4, h5]

/-- The raw window does not depend on the expect buffer beyond `expoffset`. -/
theorem RawWindow.withExp {stream : Bytes} {b b' : Buffers} (h : RawWindow stream b)
    (hraw : SameRaw b b') (hexp : b'.expoffset ≤ b'.ntotal) : RawWindow stream b' := by
  obtain ⟨h1, h2, h3, h4, h5⟩ := hraw
  refine ⟨?_, ?_, ?_, ?_, ?_, hexp, ?_⟩
  · rw [h3]; exact h.size
  · rw [h4, h5]; exact h.fits
  · rw [h1, h2, h4, h5]; exact h.total
  · rw [h1]; exact h.read
  · rw [h2, h3, h4, h5]; exact h.bytes
  · rw [h2, h4]; exact h.old

theorem RawWindow.dropRaw {stream : Bytes} {b : Buffers} (h : RawWindow stream b) :
    RawWindow stream (dropRaw b) := by
  unfold Source.dropRaw
  split
  · rename_i hgt
    have hsize := h.size
    have hfits := h.fits
    have hmax : b.rawnew - (b.rawnew - maxOldData) = maxOldData := by omega
    have hlen : ((b.rawbuf.drop (b.rawnew - maxOldData)).take (maxOldData + b.newcnt)).length =
        maxOldData + b.newcnt := by
      rw [List.length_take_of_le]
      rw [List.length_drop]
      omega
    refine ⟨?_, ?_, ?_, h.read, ?_, h.copied, ?_⟩
    · exact (writeAt_length _ _ _ (by omega)).trans h.size
    · simp only
      omega
    · have := h.total
      simp only
      omega
    · have htake := take_writeAt b.rawbuf 0
        ((b.rawbuf.drop (b.rawnew - maxOldData)).take (maxOldData + b.newcnt)) (by omega)
      simp only [hlen, Nat.zero_add, List.take_zero, List.nil_append] at htake
      simp only [hmax, htake]
      rw [← List.drop_drop, ← h.bytes, List.drop_take]
      congr 1
      omega
    · intro _
      simp only
      omega
  · exact h

theorem RawWindow.dropOldData {stream : Bytes} {b : Buffers} (h : RawWindow stream b) :
    RawWindow stream (dropOldData b) := by
  have hraw := h.dropRaw
  unfold Source.dropOldData dropExp
  split
  · exact hraw.withExp ⟨rfl, rfl, rfl, rfl, rfl⟩ hraw.copied
  · exact hraw

theorem catchUp_spec (b : Buffers) :
    (catchUp b).expoffset = max b.expoffset b.rawoffset ∧
      (catchUp b).expcnt = (if b.expoffset < b.rawoffset then 0 else b.expcnt) ∧
      (catchUp b).expbuf = b.expbuf ∧ SameRaw b (catchUp b) := by
  unfold catchUp
  split
  · refine ⟨?_, rfl, rfl, rfl, rfl, rfl, rfl, rfl⟩
    simp only
    omega
  · refine ⟨?_, rfl, rfl, rfl, rfl, rfl, rfl, rfl⟩
    omega

theorem catchUp_expcnt_le (b : Buffers) : (catchUp b).expcnt ≤ b.expcnt := by
  obtain ⟨-, hcnt, -⟩ := catchUp_spec b
  rw [hcnt]
  split <;> omega

/-- What `buf_raw2expect` does when its assertion holds: the stream from
`expoffset` to its end is appended without zero octets and terminated. -/
theorem bufRaw2expect_spec {stream : Bytes} {b b' : Buffers} (h : RawWindow stream b)
    (hcopy : bufRaw2expect b = some b') :
    SameRaw b b' ∧ b'.expoffset = b.ntotal ∧
      (catchUp b).expcnt + (b.ntotal - (catchUp b).expoffset) ≤ sizeRawBuf ∧
      b'.expbuf = writeAt b.expbuf (catchUp b).expcnt
        (nonNul (segment stream (catchUp b).expoffset b.ntotal) ++ [0]) ∧
      b'.expcnt = (catchUp b).expcnt +
        (nonNul (segment stream (catchUp b).expoffset b.ntotal)).length := by
  obtain ⟨hoff, -, heb, hnt, hro, hrb, hrn, hnc⟩ := catchUp_spec b
  have htotal := h.total
  have hread := h.read
  have hcop := h.copied
  have hcopied : (b.rawbuf.drop (b.rawnew + b.newcnt - (b.ntotal - (catchUp b).expoffset))).take
      (b.ntotal - (catchUp b).expoffset) = segment stream (catchUp b).expoffset b.ntotal := by
    have hwin : (b.rawbuf.drop (b.rawnew + b.newcnt - (b.ntotal - (catchUp b).expoffset))).take
        (b.ntotal - (catchUp b).expoffset) = (b.rawbuf.take (b.rawnew + b.newcnt)).drop
          (b.rawnew + b.newcnt - (b.ntotal - (catchUp b).expoffset)) := by
      rw [List.drop_take]
      congr 1
      omega
    rw [hwin, h.bytes, List.drop_drop, hread, segment_to_end, ← hread]
    congr 1
    omega
  unfold bufRaw2expect copyRaw at hcopy
  simp only [hnt, hrb, hrn, hnc, heb, hcopied] at hcopy
  split at hcopy
  · rename_i hassert
    cases hcopy
    exact ⟨⟨rfl, hro, rfl, rfl, rfl⟩, rfl, hassert, rfl, rfl⟩
  · cases hcopy

theorem RawWindow.bufRaw2expect {stream : Bytes} {b b' : Buffers} (h : RawWindow stream b)
    (hcopy : bufRaw2expect b = some b') : RawWindow stream b' := by
  obtain ⟨hsame, hoff, -, -, -⟩ := bufRaw2expect_spec h hcopy
  apply h.withExp hsame
  rw [hoff, hsame.ntotal]

/-- The raw window is kept by every step of the buffers. -/
theorem RawWindow.moves {dropping : Prop} {stream stream' : Bytes} {b b' : Buffers}
    {mark mark' : Nat} (h : RawWindow stream b) (hm : Moves dropping stream b mark stream' b' mark') :
    RawWindow stream' b' := by
  cases hm with
  | same => exact h
  | read got hfit => exact h.appendRaw hfit
  | old hfull hold => exact h.markOld hfull hold
  | sent => exact h.markSent
  | copied _ hcopy => exact h.bufRaw2expect hcopy
  | reset => exact h.withExp ⟨rfl, rfl, rfl, rfl, rfl⟩ le_rfl
  | matched pos => exact h.withExp ⟨rfl, rfl, rfl, rfl, rfl⟩ h.copied
  | dropped => exact h.dropOldData

/-! ## The expect window -/

/-- Behind `buf_raw2expect` the C string in the buffer is what is counted. -/
theorem cstring_of_window {stream : Bytes} {mark : Nat} {b : Buffers}
    (h : ExpectWindow stream mark b) (ht : b.expbuf[b.expcnt]? = some 0) :
    cstring b.expbuf = b.expbuf.take b.expcnt := by
  have hsize := h.size
  have hcount := h.count
  have hlen : (b.expbuf.take b.expcnt).length = b.expcnt := List.length_take_of_le (by omega)
  obtain ⟨p, -, -, -, hp⟩ := h.window
  apply cstring_of_terminated
  · rw [hp]
    exact zero_not_mem_nonNul _
  · rw [hlen]
  · rw [hlen]
    exact ht

theorem ExpectWindow.grow {stream got : Bytes} {mark : Nat} {b b' : Buffers}
    (h : ExpectWindow stream mark b) (hoff : b.expoffset ≤ stream.length)
    (hsame : b'.expoffset = b.expoffset ∧ b'.expbuf = b.expbuf ∧ b'.expcnt = b.expcnt) :
    ExpectWindow (stream ++ got) mark b' := by
  obtain ⟨ho, hb, hc⟩ := hsame
  obtain ⟨p, h1, h2, h3, h4⟩ := h.window
  refine ⟨by rw [hb]; exact h.size, by rw [hc]; exact h.count, p, h1, ?_, ?_, ?_⟩
  · rw [ho]; exact h2
  · rw [ho]; exact h3
  · rw [ho, hb, hc, segment_grow _ _ _ _ hoff]; exact h4

theorem ExpectWindow.withRaw {stream : Bytes} {mark : Nat} {b b' : Buffers}
    (h : ExpectWindow stream mark b)
    (hsame : b'.expoffset = b.expoffset ∧ b'.expbuf = b.expbuf ∧ b'.expcnt = b.expcnt) :
    ExpectWindow stream mark b' := by
  obtain ⟨ho, hb, hc⟩ := hsame
  refine ⟨by rw [hb]; exact h.size, by rw [hc]; exact h.count, ?_⟩
  rw [ho, hb, hc]
  exact h.window

/-- The string behind `buf_raw2expect`: what was kept of the buffer, and the
stream from there to its end. -/
theorem bufRaw2expect_taken {stream : Bytes} {mark : Nat} {b b' : Buffers}
    (h : ExpectWindow stream mark b) (hraw : RawWindow stream b)
    (hcopy : bufRaw2expect b = some b') :
    b'.expbuf.take b'.expcnt = b.expbuf.take (catchUp b).expcnt ++
      nonNul (segment stream (catchUp b).expoffset b.ntotal) := by
  obtain ⟨-, -, -, h8, h9⟩ := bufRaw2expect_spec hraw hcopy
  have hsize := h.size
  have hcount := h.count
  have hcle := catchUp_expcnt_le b
  rw [h8, h9]
  generalize nonNul (segment stream (catchUp b).expoffset b.ntotal) = text
  have hwrite := take_writeAt b.expbuf (catchUp b).expcnt (text ++ [0]) (by omega)
  have hle : (catchUp b).expcnt + text.length ≤ (catchUp b).expcnt + (text ++ [0]).length := by
    simp only [List.length_append]
    omega
  rw [← Nat.min_eq_left hle, ← List.take_take, hwrite, ← List.append_assoc]
  apply List.take_left'
  simp only [List.length_append, List.length_take]
  omega

theorem ExpectWindow.bufRaw2expect {stream : Bytes} {mark : Nat} {b b' : Buffers}
    (h : ExpectWindow stream mark b) (hraw : RawWindow stream b)
    (hcopy : bufRaw2expect b = some b') : ExpectWindow stream mark b' := by
  obtain ⟨hoff, hcnt, -⟩ := catchUp_spec b
  obtain ⟨-, h6, h7, h8, h9⟩ := bufRaw2expect_spec hraw hcopy
  have hsize := h.size
  have hcount := h.count
  have htotal := hraw.total
  have hread := hraw.read
  have hcop := hraw.copied
  have hold := hraw.old
  obtain ⟨p, hp1, hp2, hp3, hp4⟩ := h.window
  have hseg := segment_length stream (catchUp b).expoffset b.ntotal (by omega)
  have hnn := nonNul_length_le (segment stream (catchUp b).expoffset b.ntotal)
  have hcle := catchUp_expcnt_le b
  refine ⟨?_, ?_, ?_⟩
  · rw [h8, writeAt_length, hsize]
    simp only [List.length_append, List.length_singleton]
    omega
  · rw [h9]
    omega
  · rw [h6, bufRaw2expect_taken h hraw hcopy]
    by_cases hov : b.expoffset < b.rawoffset
    · -- the raw buffer has overtaken the expect buffer: the window starts anew
      refine ⟨b.rawoffset, by omega, by omega, by omega, ?_⟩
      rw [hcnt, hoff, if_pos hov, List.take_zero, List.nil_append]
      congr 2
      omega
    · refine ⟨p, hp1, by omega, by omega, ?_⟩
      have hmax : max b.expoffset b.rawoffset = b.expoffset := by omega
      rw [hcnt, hoff, if_neg hov, hmax, hp4, ← nonNul_append,
        segment_append _ _ _ _ hp2 (by omega)]

/-- The terminator behind `buf_raw2expect`. -/
theorem bufRaw2expect_terminated {stream : Bytes} {mark : Nat} {b b' : Buffers}
    (h : ExpectWindow stream mark b) (hraw : RawWindow stream b)
    (hcopy : bufRaw2expect b = some b') : b'.expbuf[b'.expcnt]? = some 0 := by
  obtain ⟨-, -, -, h8, h9⟩ := bufRaw2expect_spec hraw hcopy
  have hsize := h.size
  have hcount := h.count
  have hcle := catchUp_expcnt_le b
  rw [h8, h9, getElem?_writeAt _ _ _ (by omega), if_neg (by omega),
    if_pos (by simp only [List.length_append, List.length_singleton]; omega)]
  simp

/-- What a match leaves: the window behind it, terminated. -/
theorem keepAfter_spec {stream : Bytes} {mark : Nat} {b : Buffers} (h : ExpectWindow stream mark b)
    (ht : b.expbuf[b.expcnt]? = some 0) (pos : Nat) (hpos : pos ≤ b.expcnt) :
    (keepAfter pos b).expcnt = b.expcnt - pos ∧
      (keepAfter pos b).expbuf.length = sizeRawBuf + 1 ∧
      (keepAfter pos b).expbuf.take (b.expcnt - pos) = (b.expbuf.take b.expcnt).drop pos := by
  have hsize := h.size
  have hcount := h.count
  have hrest : cstring (b.expbuf.drop pos) = (b.expbuf.take b.expcnt).drop pos := by
    have hlen : ((b.expbuf.take b.expcnt).drop pos).length = b.expcnt - pos := by
      rw [List.length_drop, List.length_take_of_le (by omega)]
    obtain ⟨p, -, -, -, hp⟩ := h.window
    apply cstring_of_terminated
    · intro hz
      have hmem := List.mem_of_mem_drop hz
      rw [hp] at hmem
      exact zero_not_mem_nonNul _ hmem
    · rw [hlen, List.drop_take]
    · rw [hlen, List.getElem?_drop, ← ht]
      congr 1
      omega
  have hlen : (cstring (b.expbuf.drop pos)).length = b.expcnt - pos := by
    rw [hrest, List.length_drop, List.length_take_of_le (by omega)]
  refine ⟨hlen, ?_, ?_⟩
  · simp only [keepAfter]
    rw [writeAt_length, hsize]
    simp only [List.length_append, List.length_singleton, hlen]
    omega
  · have hwrite := take_writeAt b.expbuf 0 (cstring (b.expbuf.drop pos) ++ [0]) (by omega)
    simp only [Nat.zero_add, List.take_zero, List.nil_append] at hwrite
    simp only [keepAfter]
    have hle : b.expcnt - pos ≤ (cstring (b.expbuf.drop pos) ++ [0]).length := by
      simp only [List.length_append, hlen]
      omega
    rw [← Nat.min_eq_left hle, ← List.take_take, hwrite, ← hrest]
    exact List.take_left' hlen

/-- What a window shows ends where the stream ends. -/
theorem ExpectWindow.shows {stream : Bytes} {mark : Nat} {b : Buffers}
    (h : ExpectWindow stream mark b) (hread : b.ntotal = stream.length)
    (hoff : b.expoffset = b.ntotal) :
    ∃ p, mark ≤ p ∧ p ≤ stream.length ∧ p ≤ max mark (stream.length - maxOldData) ∧
      b.expbuf.take b.expcnt = nonNul (stream.drop p) ∧
      (nonNul (stream.drop p)).length = b.expcnt := by
  obtain ⟨p, hp1, hp2, hp3, hp4⟩ := h.window
  have hcount := h.count
  have hsize := h.size
  rw [hoff, hread] at hp2 hp3
  rw [hoff, hread, segment_to_end] at hp4
  refine ⟨p, hp1, hp2, hp3, hp4, ?_⟩
  rw [← hp4, List.length_take_of_le (by omega)]

/-- The octets behind the end of a match are those of the text behind it. -/
theorem nonNul_drop_matchEnd {stream : Bytes} {p shown : Nat}
    (hshown : (nonNul (stream.drop p)).length = shown) (eo : Nat) :
    nonNul (stream.drop (matchEnd stream shown eo)) = (nonNul (stream.drop p)).drop eo := by
  have hsplit : nonNul stream = nonNul (stream.take p) ++ nonNul (stream.drop p) := by
    rw [← nonNul_append, List.take_append_drop]
  rw [matchEnd, nonNul_drop_afterNonNul, hsplit, List.length_append, hshown]
  have hk : (nonNul (stream.take p)).length + shown - shown + eo =
      (nonNul (stream.take p)).length + eo := by omega
  rw [hk, List.drop_append, List.drop_of_length_le (by omega), List.nil_append]
  congr 1
  omega

/-- So are those behind the mark, when in front of it only zero octets were passed. -/
theorem nonNul_drop_marked {stream : Bytes} {p mark shown : Nat} (hp : mark ≤ p)
    (hshown : (nonNul (stream.drop p)).length = shown) (eo : Nat) :
    nonNul (stream.drop (max mark (matchEnd stream shown eo))) =
      (nonNul (stream.drop p)).drop eo := by
  have hend := nonNul_drop_matchEnd hshown eo
  rcases Nat.le_total mark (matchEnd stream shown eo) with hm | hm
  · rw [Nat.max_eq_right hm, hend]
  · rw [Nat.max_eq_left hm, ← hend]
    apply (nonNul_drop_eq _ _ _ hm _).symm
    rw [hend, List.length_drop]
    have := nonNul_drop_le stream mark p hp
    omega

theorem ExpectWindow.matched {stream : Bytes} {mark : Nat} {b : Buffers}
    (h : ExpectWindow stream mark b) (hraw : RawWindow stream b)
    (ht : b.expbuf[b.expcnt]? = some 0) (hoff : b.expoffset = b.ntotal) (pos : Nat)
    (hpos : pos ≤ b.expcnt) :
    ExpectWindow stream (max mark (matchEnd stream b.expcnt pos)) (keepAfter pos b) := by
  obtain ⟨h1, h2, h3⟩ := keepAfter_spec h ht pos hpos
  obtain ⟨p, hp1, -, -, hp4, hshown⟩ := h.shows hraw.read hoff
  have hcount := h.count
  have hread := hraw.read
  have hle := afterNonNul_le ((nonNul stream).length - b.expcnt + pos) stream
  have hmark : mark ≤ stream.length := by
    obtain ⟨q, hq1, hq2, -⟩ := h.window
    omega
  refine ⟨h2, by omega, max mark (matchEnd stream b.expcnt pos), le_rfl, ?_, by omega, ?_⟩
  · change max mark (matchEnd stream b.expcnt pos) ≤ b.expoffset
    unfold matchEnd
    omega
  · rw [h1, h3, hp4, show (keepAfter pos b).expoffset = b.expoffset from rfl, hoff, hread,
      segment_to_end, nonNul_drop_marked hp1 hshown]

/-- Cutting the expect buffer: the last `MAX_OLD_DATA` octets stay. -/
theorem dropExp_spec (b : Buffers) (hsize : b.expbuf.length = sizeRawBuf + 1)
    (hcount : b.expcnt ≤ sizeRawBuf) (hgt : maxOldData < b.expcnt) :
    (dropExp b).expoffset = b.expoffset ∧ (dropExp b).expcnt = maxOldData ∧
      (dropExp b).expbuf.length = sizeRawBuf + 1 ∧
      (dropExp b).expbuf.take maxOldData = (b.expbuf.take b.expcnt).drop (b.expcnt - maxOldData) := by
  have hkeep : ((b.expbuf.drop (b.expcnt - maxOldData)).take maxOldData).length = maxOldData := by
    rw [List.length_take_of_le]
    rw [List.length_drop]
    omega
  have hkeep_eq : (b.expbuf.drop (b.expcnt - maxOldData)).take maxOldData =
      (b.expbuf.take b.expcnt).drop (b.expcnt - maxOldData) := by
    rw [List.drop_take]
    congr 1
    omega
  have hw := writeAt_length b.expbuf 0 ((b.expbuf.drop (b.expcnt - maxOldData)).take maxOldData)
    (by omega)
  have htake := take_writeAt b.expbuf 0
    ((b.expbuf.drop (b.expcnt - maxOldData)).take maxOldData) (by omega)
  rw [hkeep, Nat.zero_add, List.take_zero, List.nil_append] at htake
  have hd : dropExp b = { b with
      expbuf := writeAt (writeAt b.expbuf 0
        ((b.expbuf.drop (b.expcnt - maxOldData)).take maxOldData)) maxOldData [0]
      expcnt := maxOldData } := if_pos hgt
  generalize writeAt b.expbuf 0 ((b.expbuf.drop (b.expcnt - maxOldData)).take maxOldData) = e
    at hw htake hd
  rw [hd]
  refine ⟨rfl, rfl, ?_, ?_⟩
  · rw [writeAt_length, hw, hsize]
    rw [hw, List.length_singleton]
    omega
  · rw [← hkeep_eq, ← htake, writeAt, List.append_assoc,
      List.take_append_of_le_length (by rw [List.length_take]; omega), List.take_take,
      Nat.min_self]

theorem ExpectWindow.dropExp {stream : Bytes} {mark : Nat} {b : Buffers}
    (h : ExpectWindow stream mark b) (hlen : b.expoffset ≤ stream.length) :
    ExpectWindow stream mark (dropExp b) := by
  by_cases hgt : maxOldData < b.expcnt
  · have hsize := h.size
    have hcount := h.count
    obtain ⟨hoff, hcnt, hsize', htake⟩ := dropExp_spec b hsize hcount hgt
    obtain ⟨p, hp1, hp2, hp3, hp4⟩ := h.window
    -- the window starts right behind the octets that are cut off
    have hcut := nonNul_drop_afterNonNul (b.expcnt - maxOldData) (segment stream p b.expoffset)
    have hcutle := afterNonNul_le (b.expcnt - maxOldData) (segment stream p b.expoffset)
    rw [segment_length _ _ _ hlen] at hcutle
    rw [segment_drop, ← hp4] at hcut
    have hslen := nonNul_length_le
      (segment stream (p + afterNonNul (b.expcnt - maxOldData) (segment stream p b.expoffset))
        b.expoffset)
    rw [hcut, List.length_drop, List.length_take_of_le (by omega),
      segment_length _ _ _ hlen] at hslen
    refine ⟨hsize', by omega,
      p + afterNonNul (b.expcnt - maxOldData) (segment stream p b.expoffset), ?_, ?_, ?_, ?_⟩
    · omega
    · omega
    · omega
    · rw [hcnt, hoff, htake, hcut]
  · have hsame : Source.dropExp b = b := if_neg hgt
    rw [hsame]
    exact h

/-- The expect window is kept by every step of the buffers. -/
theorem ExpectWindow.moves {dropping : Prop} {stream stream' : Bytes} {b b' : Buffers}
    {mark mark' : Nat} (h : ExpectWindow stream mark b) (hraw : RawWindow stream b)
    (hm : Moves dropping stream b mark stream' b' mark') : ExpectWindow stream' mark' b' := by
  have hlen : b.expoffset ≤ stream.length := by
    rw [← hraw.read]
    exact hraw.copied
  cases hm with
  | same => exact h
  | read got hfit => exact h.grow hlen ⟨rfl, rfl, rfl⟩
  | old hfull hold => exact h.withRaw ⟨rfl, rfl, rfl⟩
  | sent => exact h.withRaw ⟨rfl, rfl, rfl⟩
  | copied _ hcopy => exact h.bufRaw2expect hraw hcopy
  | reset =>
    refine ⟨h.size, Nat.zero_le _, b.ntotal, le_rfl, le_rfl, le_max_left _ _, ?_⟩
    simp [resetExp, segment_self, nonNul]
  | matched pos hpos ht hoff =>
    have hcs := cstring_of_window h ht
    have hsize := h.size
    have hcount := h.count
    have hle : pos ≤ b.expcnt := by
      rw [hcs, List.length_take_of_le (by omega)] at hpos
      exact hpos
    exact h.matched hraw ht hoff pos hle
  | dropped =>
    have hd : ExpectWindow stream mark (dropRaw b) := by
      unfold dropRaw
      split
      · exact h.withRaw ⟨rfl, rfl, rfl⟩
      · exact h
    refine hd.dropExp ?_
    unfold dropRaw
    split <;> exact hlen

end Sexpect.Guarantees
