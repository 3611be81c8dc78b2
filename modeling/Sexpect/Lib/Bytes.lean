import Mathlib.Data.List.Induction
import Mathlib.Data.List.TakeWhile
import Mathlib.Tactic.Ring

/-!
# Octet strings: big-endian words, in-place writes and C strings

General facts about `List UInt8` seen as memory.  A word of `width` octets is
written most significant octet first; a write replaces a range of a buffer of
fixed length; a C string is the part of a buffer before its first zero octet.
Nothing here mentions a particular program.
-/
namespace Sexpect.Lib

abbrev Bytes := List UInt8

/-- The octet of an ASCII character. -/
def octet (c : Char) : UInt8 := UInt8.ofNat c.toNat

/-- The low `width` octets of `n`, most significant first. -/
def beEncode : Nat → Nat → Bytes
  | 0, _ => []
  | width + 1, n => beEncode width (n / 256) ++ [UInt8.ofNat n]

/-- The number spelled by octets, most significant first. -/
def beDecode (bs : Bytes) : Nat :=
  bs.foldl (fun acc b => acc * 256 + b.toNat) 0

@[simp] theorem beEncode_length (width n : Nat) : (beEncode width n).length = width := by
  induction width generalizing n with
  | zero => rfl
  | succ width ih => simp [beEncode, ih]

theorem beDecode_snoc (bs : Bytes) (b : UInt8) :
    beDecode (bs ++ [b]) = beDecode bs * 256 + b.toNat := by
  simp [beDecode]

theorem beDecode_beEncode (width n : Nat) : beDecode (beEncode width n) = n % 256 ^ width := by
  induction width generalizing n with
  | zero => simp [beEncode, beDecode, Nat.mod_one]
  | succ width ih =>
    have hb : (UInt8.ofNat n).toNat = n % 256 := UInt8.toNat_ofNat'
    rw [beEncode, beDecode_snoc, ih, hb, Nat.pow_succ, Nat.mul_comm (256 ^ width), Nat.mod_mul]
    omega

theorem beDecode_lt (bs : Bytes) : beDecode bs < 256 ^ bs.length := by
  induction bs using List.reverseRecOn with
  | nil => simp [beDecode]
  | append_singleton bs b ih =>
    rw [beDecode_snoc, List.length_append, List.length_singleton, Nat.pow_succ]
    have hb : b.toNat < 256 := b.toNat_lt
    calc beDecode bs * 256 + b.toNat < beDecode bs * 256 + 256 := by omega
      _ = (beDecode bs + 1) * 256 := by ring
      _ ≤ 256 ^ bs.length * 256 := Nat.mul_le_mul_right _ ih

theorem beEncode_beDecode (bs : Bytes) : beEncode bs.length (beDecode bs) = bs := by
  induction bs using List.reverseRecOn with
  | nil => rfl
  | append_singleton bs b ih =>
    have hb : b.toNat < 256 := b.toNat_lt
    have hdiv : (beDecode bs * 256 + b.toNat) / 256 = beDecode bs := by omega
    have hlow : UInt8.ofNat (beDecode bs * 256 + b.toNat) = b := by
      apply UInt8.toNat_inj.mp
      rw [UInt8.toNat_ofNat']
      omega
    rw [beDecode_snoc, List.length_append, List.length_singleton, beEncode, hdiv, hlow, ih]

/-- Store `bs` at offset `pos` of a buffer. -/
def writeAt (buf : Bytes) (pos : Nat) (bs : Bytes) : Bytes :=
  buf.take pos ++ bs ++ buf.drop (pos + bs.length)

/-- In-bounds writes keep the length of the buffer. -/
theorem writeAt_length (buf : Bytes) (pos : Nat) (bs : Bytes) (h : pos + bs.length ≤ buf.length) :
    (writeAt buf pos bs).length = buf.length := by
  simp only [writeAt, List.length_append, List.length_take, List.length_drop]
  omega

/-- A write right behind known contents extends them. -/
theorem take_writeAt (buf : Bytes) (pos : Nat) (bs : Bytes) (h : pos ≤ buf.length) :
    (writeAt buf pos bs).take (pos + bs.length) = buf.take pos ++ bs := by
  have hlen : (buf.take pos ++ bs).length = pos + bs.length := by
    simp only [List.length_append, List.length_take]
    omega
  rw [writeAt, ← hlen, List.take_left]

/-- Cell-wise reading of a write: the written range, and the frame around it. -/
theorem getElem?_writeAt (buf : Bytes) (pos : Nat) (bs : Bytes) (h : pos ≤ buf.length) (i : Nat) :
    (writeAt buf pos bs)[i]? =
      if i < pos then buf[i]? else if i < pos + bs.length then bs[i - pos]? else buf[i]? := by
  have htake : (buf.take pos).length = pos := List.length_take_of_le h
  unfold writeAt
  split
  · rename_i hi
    rw [List.append_assoc, List.getElem?_append_left (by omega), List.getElem?_take_of_lt hi]
  · split
    · rename_i hlo hi
      rw [List.append_assoc, List.getElem?_append_right (by omega), htake,
        List.getElem?_append_left (by omega)]
    · rename_i hlo hi
      rw [List.getElem?_append_right (by simp only [List.length_append]; omega)]
      simp only [List.length_append, htake, List.getElem?_drop]
      congr 1
      omega

/-- Adjacent writes are one write. -/
theorem writeAt_writeAt (buf : Bytes) (pos : Nat) (a b : Bytes) (h : pos + a.length ≤ buf.length) :
    writeAt (writeAt buf pos a) (pos + a.length) b = writeAt buf pos (a ++ b) := by
  apply List.ext_getElem?
  intro i
  have hlen := writeAt_length buf pos a h
  rw [getElem?_writeAt _ _ _ (by omega), getElem?_writeAt _ _ _ (by omega),
    getElem?_writeAt _ _ _ (by omega)]
  simp only [List.length_append]
  by_cases h1 : i < pos
  · have h2 : i < pos + a.length := by omega
    simp only [h1, h2, if_true]
  · by_cases h2 : i < pos + a.length
    · have h3 : i < pos + (a.length + b.length) := by omega
      simp only [h1, h2, h3, if_true, if_false]
      rw [List.getElem?_append_left (by omega)]
    · have h3 : i - pos - a.length = i - (pos + a.length) := by omega
      simp only [h1, h2, if_false, ← Nat.add_assoc]
      rw [List.getElem?_append_right (by omega), h3]

/-- Writes to disjoint ranges commute. -/
theorem writeAt_comm (buf : Bytes) (p q : Nat) (a b : Bytes) (hpq : p + a.length ≤ q)
    (hq : q + b.length ≤ buf.length) :
    writeAt (writeAt buf q b) p a = writeAt (writeAt buf p a) q b := by
  apply List.ext_getElem?
  intro i
  have hlp := writeAt_length buf p a (by omega)
  have hlq := writeAt_length buf q b hq
  rw [getElem?_writeAt _ _ _ (by omega), getElem?_writeAt _ _ _ (by omega),
    getElem?_writeAt _ _ _ (by omega), getElem?_writeAt _ _ _ (by omega)]
  by_cases h1 : i < p
  · have h2 : i < q := by omega
    simp only [h1, h2, if_true]
  · by_cases h2 : i < p + a.length
    · have h3 : i < q := by omega
      simp only [h1, h2, h3, if_true, if_false]
    · simp only [h1, h2, if_false]

/-- A buffer behind writes that stayed in the range from `lo` to `hi`. -/
structure Confined (lo hi : Nat) (buf buf' : Bytes) : Prop where
  length : buf'.length = buf.length
  outside : ∀ i, i < lo ∨ hi ≤ i → buf'[i]? = buf[i]?

theorem Confined.refl (lo hi : Nat) (buf : Bytes) : Confined lo hi buf buf := ⟨rfl, fun _ _ => rfl⟩

theorem Confined.trans {lo hi : Nat} {a b c : Bytes} (hab : Confined lo hi a b)
    (hbc : Confined lo hi b c) : Confined lo hi a c := by
  refine ⟨hbc.length.trans hab.length, ?_⟩
  intro i hi
  rw [hbc.outside i hi, hab.outside i hi]

theorem Confined.mono {lo hi lo' hi' : Nat} {a b : Bytes} (h : Confined lo hi a b) (hlo : lo' ≤ lo)
    (hhi : hi ≤ hi') : Confined lo' hi' a b := by
  refine ⟨h.length, ?_⟩
  intro i hi
  exact h.outside i (by omega)

theorem Confined.writeAt (buf : Bytes) (pos : Nat) (bs : Bytes) (lo hi : Nat) (hlo : lo ≤ pos)
    (hfit : pos + bs.length ≤ hi) (hbuf : hi ≤ buf.length) :
    Confined lo hi buf (writeAt buf pos bs) := by
  refine ⟨writeAt_length buf pos bs (by omega), ?_⟩
  intro i hi
  rw [getElem?_writeAt _ _ _ (by omega)]
  split
  · rfl
  · rw [if_neg (by omega)]

/-- The part of a buffer before its first zero octet. -/
def cstring (buf : Bytes) : Bytes := buf.takeWhile (· ≠ 0)

theorem zero_not_mem_cstring (buf : Bytes) : (0 : UInt8) ∉ cstring buf := by
  intro h
  simpa using List.mem_takeWhile_imp h

theorem cstring_of_not_mem {s : Bytes} (h : (0 : UInt8) ∉ s) : cstring s = s := by
  rw [cstring, List.takeWhile_eq_self_iff]
  intro b hb
  have hne : b ≠ 0 := fun hz => h (hz ▸ hb)
  simpa using hne

/-- A zero-free prefix followed by a zero octet is the whole C string. -/
theorem cstring_of_terminated (buf s : Bytes) (h0 : (0 : UInt8) ∉ s)
    (hs : buf.take s.length = s) (ht : buf[s.length]? = some 0) : cstring buf = s := by
  have hsplit : buf = s ++ 0 :: buf.drop (s.length + 1) := by
    have hlt : s.length < buf.length := (List.getElem?_eq_some_iff.mp ht).1
    have hcell : buf[s.length] = 0 := (List.getElem?_eq_some_iff.mp ht).2
    conv_lhs => rw [← List.take_append_drop s.length buf, hs, List.drop_eq_getElem_cons hlt, hcell]
  rw [cstring, hsplit, List.takeWhile_append_of_pos]
  · simp
  · intro b hb
    have : b ≠ 0 := fun hz => h0 (hz ▸ hb)
    simpa using this

theorem cstring_drop (buf : Bytes) (pos : Nat) (h : pos ≤ (cstring buf).length) :
    cstring (buf.drop pos) = (cstring buf).drop pos := by
  induction pos generalizing buf with
  | zero => rfl
  | succ pos ih =>
    cases buf with
    | nil => simp [cstring] at h
    | cons c buf =>
      by_cases hc : c = 0
      · simp [cstring, hc] at h
      · have hcons : cstring (c :: buf) = c :: cstring buf := by simp [cstring, hc]
        rw [hcons] at h ⊢
        exact ih buf (Nat.le_of_succ_le_succ h)

theorem findIdx?_eq_none {sep : UInt8} {text : Bytes} (h : sep ∉ text) :
    text.findIdx? (· = sep) = none := by
  rw [List.findIdx?_eq_none_iff]
  intro c hc
  simpa using fun heq : c = sep => h (heq ▸ hc)

/-- The first occurrence of an octet. -/
theorem findIdx?_of_not_mem {sep : UInt8} {pre : Bytes} (h : sep ∉ pre) (post : Bytes) :
    (pre ++ sep :: post).findIdx? (· = sep) = some pre.length := by
  have hnone := findIdx?_eq_none h
  have hhead : (sep :: post).findIdx? (fun c => decide (c = sep)) = some 0 := by
    simp [List.findIdx?_cons]
  rw [List.findIdx?_append, hnone, hhead]
  simp

end Sexpect.Lib
