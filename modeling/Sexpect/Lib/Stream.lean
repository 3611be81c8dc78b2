import Sexpect.Lib.Bytes

/-!
# Positions in an octet stream

A stream only grows; a position is the number of octets before it.  `segment` is
the part between two positions, `nonNul` a part with its zero octets removed, and
`afterNonNul k` the position right behind the `k`-th nonzero octet.
-/
namespace Sexpect.Lib

/-- The octets from position `a` up to position `b`. -/
def segment (stream : Bytes) (a b : Nat) : Bytes := (stream.drop a).take (b - a)

theorem segment_self (stream : Bytes) (a : Nat) : segment stream a a = [] := by
  simp [segment]

theorem segment_length (stream : Bytes) (a b : Nat) (h : b ≤ stream.length) :
    (segment stream a b).length = b - a := by
  rw [segment, List.length_take_of_le]
  rw [List.length_drop]
  omega

theorem segment_to_end (stream : Bytes) (a : Nat) :
    segment stream a stream.length = stream.drop a := by
  apply List.take_of_length_le
  rw [List.length_drop]

theorem segment_append (stream : Bytes) (a b c : Nat) (hab : a ≤ b) (hbc : b ≤ c) :
    segment stream a b ++ segment stream b c = segment stream a c := by
  unfold segment
  have hc : c - a = (b - a) + (c - b) := by omega
  rw [hc, List.take_add, List.drop_drop]
  congr 3
  omega

theorem segment_append_drop (stream : Bytes) {a b : Nat} (h : a ≤ b) :
    segment stream a b ++ stream.drop b = stream.drop a := by
  have hb : stream.drop b = (stream.drop a).drop (b - a) := by
    rw [List.drop_drop]
    congr 1
    omega
  rw [segment, hb, List.take_append_drop]

/-- A segment does not change when the stream grows. -/
theorem segment_grow (stream more : Bytes) (a b : Nat) (h : b ≤ stream.length) :
    segment (stream ++ more) a b = segment stream a b := by
  unfold segment
  by_cases ha : a ≤ stream.length
  · rw [List.drop_append_of_le_length ha, List.take_append_of_le_length]
    rw [List.length_drop]
    omega
  · have hz : b - a = 0 := by omega
    rw [hz, List.take_zero, List.take_zero]

theorem segment_drop (stream : Bytes) (a b k : Nat) :
    (segment stream a b).drop k = segment stream (a + k) b := by
  unfold segment
  rw [List.drop_take, List.drop_drop]
  congr 1
  omega

def nonNul (bs : Bytes) : Bytes := bs.filter (· ≠ 0)

theorem nonNul_append (a b : Bytes) : nonNul (a ++ b) = nonNul a ++ nonNul b :=
  List.filter_append ..

theorem nonNul_length_le (bs : Bytes) : (nonNul bs).length ≤ bs.length := List.length_filter_le ..

theorem zero_not_mem_nonNul (bs : Bytes) : (0 : UInt8) ∉ nonNul bs := by
  simp [nonNul]

/-- The position right behind the `k`-th nonzero octet. -/
def afterNonNul : Nat → Bytes → Nat
  | 0, _ => 0
  | _ + 1, [] => 0
  | k + 1, b :: bs => (if b = 0 then afterNonNul (k + 1) bs else afterNonNul k bs) + 1

theorem afterNonNul_le (k : Nat) (bs : Bytes) : afterNonNul k bs ≤ bs.length := by
  induction bs generalizing k with
  | nil => cases k <;> simp [afterNonNul]
  | cons b bs ih =>
    cases k with
    | zero => simp [afterNonNul]
    | succ k =>
      have h1 := ih (k + 1)
      have h2 := ih k
      simp only [afterNonNul, List.length_cons]
      split <;> omega

/-- Behind that position the first `k` nonzero octets are gone, and no others. -/
theorem nonNul_drop_afterNonNul (k : Nat) (bs : Bytes) :
    nonNul (bs.drop (afterNonNul k bs)) = (nonNul bs).drop k := by
  induction bs generalizing k with
  | nil => cases k <;> simp [afterNonNul, nonNul]
  | cons b bs ih =>
    cases k with
    | zero => simp [afterNonNul]
    | succ k =>
      simp only [afterNonNul, List.drop_succ_cons]
      by_cases hb : b = 0
      · have hcons : nonNul (b :: bs) = nonNul bs := by simp [nonNul, hb]
        rw [if_pos hb, ih, hcons]
      · have hcons : nonNul (b :: bs) = b :: nonNul bs := by simp [nonNul, hb]
        rw [if_neg hb, ih, hcons, List.drop_succ_cons]

/-- Dropping more of a stream leaves at most as many nonzero octets. -/
theorem nonNul_drop_le (bs : Bytes) (a b : Nat) (h : a ≤ b) :
    (nonNul (bs.drop b)).length ≤ (nonNul (bs.drop a)).length := by
  have hb : b = a + (b - a) := by omega
  rw [hb, ← List.drop_drop]
  exact (List.Sublist.filter _ (List.drop_sublist _ _)).length_le

/-- Two positions with equally many nonzero octets behind them have the same
ones. -/
theorem nonNul_drop_eq (bs : Bytes) (a b : Nat) (h : a ≤ b)
    (hlen : (nonNul (bs.drop a)).length ≤ (nonNul (bs.drop b)).length) :
    nonNul (bs.drop a) = nonNul (bs.drop b) := by
  have hb : b = a + (b - a) := by omega
  have hsub : (nonNul (bs.drop b)).Sublist (nonNul (bs.drop a)) := by
    rw [hb, ← List.drop_drop]
    exact List.Sublist.filter _ (List.drop_sublist _ _)
  exact (hsub.eq_of_length_le hlen).symm

/-- The nonzero octets `so` to `eo` behind a position are those of a stretch that ends where the
octets behind `eo` begin. -/
theorem nonNul_stretch {bs : Bytes} {p e so eo : Nat} (hse : so ≤ eo)
    (heo : eo ≤ (nonNul (bs.drop p)).length)
    (hend : nonNul (bs.drop e) = (nonNul (bs.drop p)).drop eo) :
    ∃ a, min p e ≤ a ∧ a ≤ e ∧
      ((nonNul (bs.drop p)).drop so).take (eo - so) = nonNul (segment bs a e) := by
  have hstart : nonNul (bs.drop (p + afterNonNul so (bs.drop p))) = (nonNul (bs.drop p)).drop so := by
    rw [← List.drop_drop, nonNul_drop_afterNonNul]
  have hwhole : (nonNul (bs.drop p)).drop so =
      ((nonNul (bs.drop p)).drop so).take (eo - so) ++ (nonNul (bs.drop p)).drop eo := by
    have hdrop : (nonNul (bs.drop p)).drop eo = ((nonNul (bs.drop p)).drop so).drop (eo - so) := by
      rw [List.drop_drop]
      congr 1
      omega
    rw [hdrop, List.take_append_drop]
  rcases Nat.le_total (p + afterNonNul so (bs.drop p)) e with hle | hle
  · refine ⟨p + afterNonNul so (bs.drop p), by omega, hle, ?_⟩
    have hsplit : bs.drop (p + afterNonNul so (bs.drop p)) =
        segment bs (p + afterNonNul so (bs.drop p)) e ++ bs.drop e := by
      rw [segment_append_drop _ hle]
    rw [hsplit, nonNul_append, hend, hwhole] at hstart
    exact (List.append_cancel_right hstart).symm
  · -- the stretch would begin behind its end, so that there are no octets
    have hfew := nonNul_drop_le bs e _ hle
    rw [hstart, hend, List.length_drop, List.length_drop] at hfew
    refine ⟨e, by omega, le_rfl, ?_⟩
    rw [show eo - so = 0 by omega, List.take_zero, segment_self]
    rfl

end Sexpect.Lib
