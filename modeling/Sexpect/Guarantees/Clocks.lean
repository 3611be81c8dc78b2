import Sexpect.Guarantees.Captures
import Sexpect.Source.Clock

/-!
# What the clocks of the server measure

`Clock_diff` computes on `double`s, so that a comparison with a number of seconds is right up to
`clockSlack`, which is a nanosecond for a machine that is up for less than six days
(`elapsed_of_exceeds`, `exceeds_of_elapsed`).  With its clocks the server is the server still:
a run of `Clocked` is a run of `Server` whose comparisons answer what the readings say.
-/
namespace Sexpect.Guarantees
open Sexpect.Lib Sexpect.Source

theorem clockSeconds_within (t : Nat) : Within (5 / 2 ^ 53) (clockSeconds t) (t / 10 ^ 9) := by
  have hsec : Within (3 / 2 ^ 53) (fl 53 (t / 10 ^ 9 : ℕ)) (t / 10 ^ 9 : ℕ) :=
    (within_fl (Nat.cast_nonneg _)).mono (Nat.cast_nonneg _) (by norm_num)
  have hnsec : Within (1 / 2 ^ 53) (fl 53 (t % 10 ^ 9 : ℕ)) (t % 10 ^ 9 : ℕ) :=
    within_fl (Nat.cast_nonneg _)
  have hquot : Within (3 / 2 ^ 53) (fl 53 (fl 53 (t % 10 ^ 9 : ℕ) / 10 ^ 9))
      ((t % 10 ^ 9 : ℕ) / 10 ^ 9) :=
    ((hnsec.div (by norm_num)).fl (by positivity) (by norm_num)).mono (by positivity) (by norm_num)
  have hsum : ((t / 10 ^ 9 : ℕ) : ℚ) + (t % 10 ^ 9 : ℕ) / 10 ^ 9 = t / 10 ^ 9 := by
    have hdiv : 10 ^ 9 * (t / 10 ^ 9) + t % 10 ^ 9 = t := Nat.div_add_mod t (10 ^ 9)
    have hcast : (10 ^ 9 : ℚ) * (t / 10 ^ 9 : ℕ) + (t % 10 ^ 9 : ℕ) = t := by exact_mod_cast hdiv
    rw [← hcast]
    field_simp
  have h := ((hsec.add hquot).fl (p := 53) (by positivity) (by norm_num))
  rw [hsum] at h
  exact h.mono (by positivity) (by norm_num)

theorem clockSeconds_sub {t1 t2 : Nat} (h : t1 ≤ t2) :
    |clockSeconds t2 - clockSeconds t1 - ((t2 : ℚ) - t1) / 10 ^ 9| ≤ 10 / 2 ^ 53 * ((t2 : ℚ) / 10 ^ 9) := by
  have hle : (t1 : ℚ) ≤ t2 := by exact_mod_cast h
  have h1 : |clockSeconds t1 - (t1 : ℚ) / 10 ^ 9| ≤ 5 / 2 ^ 53 * ((t2 : ℚ) / 10 ^ 9) :=
    (clockSeconds_within t1).trans (by gcongr)
  have h2 : |clockSeconds t2 - (t2 : ℚ) / 10 ^ 9| ≤ 5 / 2 ^ 53 * ((t2 : ℚ) / 10 ^ 9) :=
    clockSeconds_within t2
  calc |clockSeconds t2 - clockSeconds t1 - ((t2 : ℚ) - t1) / 10 ^ 9|
      = |(clockSeconds t2 - (t2 : ℚ) / 10 ^ 9) - (clockSeconds t1 - (t1 : ℚ) / 10 ^ 9)| := by ring_nf
    _ ≤ |clockSeconds t2 - (t2 : ℚ) / 10 ^ 9| + |clockSeconds t1 - (t1 : ℚ) / 10 ^ 9| := abs_sub _ _
    _ ≤ 5 / 2 ^ 53 * ((t2 : ℚ) / 10 ^ 9) + 5 / 2 ^ 53 * ((t2 : ℚ) / 10 ^ 9) := add_le_add h2 h1
    _ = 10 / 2 ^ 53 * ((t2 : ℚ) / 10 ^ 9) := by ring

/-- The difference of two readings in seconds is right up to a `2 ^ 49`-th part of the later
one. -/
theorem clockDiff_error {t1 t2 : Nat} (h : t1 ≤ t2) :
    |clockDiff t1 t2 - ((t2 : ℚ) - t1) / 10 ^ 9| ≤ (t2 : ℚ) / 10 ^ 9 / 2 ^ 49 := by
  have hgap := clockSeconds_sub h
  unfold clockDiff
  have hexact : 0 ≤ ((t2 : ℚ) - t1) / 10 ^ 9 := by
    have : (t1 : ℚ) ≤ t2 := by exact_mod_cast h
    exact div_nonneg (by linarith) (by positivity)
  have hbound : ((t2 : ℚ) - t1) / 10 ^ 9 ≤ (t2 : ℚ) / 10 ^ 9 := by
    have : (0 : ℚ) ≤ t1 := Nat.cast_nonneg _
    gcongr
    linarith
  generalize clockSeconds t2 - clockSeconds t1 = d at hgap
  have hsize : |d| ≤ 2 * ((t2 : ℚ) / 10 ^ 9) := by
    have := abs_le.mp hgap
    rw [abs_le]
    constructor <;> linarith [this.1, this.2]
  have hround : |fl 53 d - d| ≤ 2 * ((t2 : ℚ) / 10 ^ 9) / 2 ^ 53 :=
    (abs_fl_sub_le 53 d).trans (by gcongr)
  have hall : |fl 53 d - ((t2 : ℚ) - t1) / 10 ^ 9| ≤ (t2 : ℚ) / 10 ^ 9 / 2 ^ 49 := by
    calc |fl 53 d - ((t2 : ℚ) - t1) / 10 ^ 9|
        = |(fl 53 d - d) + (d - ((t2 : ℚ) - t1) / 10 ^ 9)| := by ring_nf
      _ ≤ |fl 53 d - d| + |d - ((t2 : ℚ) - t1) / 10 ^ 9| := abs_add_le _ _
      _ ≤ 2 * ((t2 : ℚ) / 10 ^ 9) / 2 ^ 53 + 10 / 2 ^ 53 * ((t2 : ℚ) / 10 ^ 9) :=
        add_le_add hround hgap
      _ ≤ (t2 : ℚ) / 10 ^ 9 / 2 ^ 49 := by
        have : 0 ≤ (t2 : ℚ) / 10 ^ 9 := by positivity
        linarith
  -- `fabs` brings the result only nearer to a difference that is not negative
  have hfabs := abs_abs_sub_abs_le (fl 53 d) (((t2 : ℚ) - t1) / 10 ^ 9)
  rw [abs_of_nonneg hexact] at hfabs
  exact hfabs.trans hall

/-- How many nanoseconds a comparison at `now` can be off. -/
def clockSlack (now : Nat) : Nat := now / 2 ^ 49 + 1

theorem lt_clockSlack (now : Nat) : (now : ℚ) / 2 ^ 49 < clockSlack now := by
  have h : now < 2 ^ 49 * (now / 2 ^ 49 + 1) := Nat.lt_mul_div_succ now (by positivity)
  rw [clockSlack, div_lt_iff₀ (by positivity), mul_comm]
  exact_mod_cast h

theorem elapsed_of_exceeds {t1 now : Nat} {limit : Int} (h : t1 ≤ now)
    (hx : (limit : ℚ) < clockDiff t1 now) : limit * 10 ^ 9 < now - t1 + clockSlack now := by
  have herror := (abs_le.mp (clockDiff_error h)).2
  have hslack := lt_clockSlack now
  have hlt : (limit : ℚ) * 10 ^ 9 < now - t1 + clockSlack now := by linarith
  exact_mod_cast hlt

theorem exceeds_of_elapsed {t1 now : Nat} {limit : Int} (h : t1 ≤ now)
    (hx : limit * 10 ^ 9 + clockSlack now ≤ now - t1) : (limit : ℚ) < clockDiff t1 now := by
  have herror := (abs_le.mp (clockDiff_error h)).1
  have hslack := lt_clockSlack now
  have hle : (limit : ℚ) * 10 ^ 9 + clockSlack now ≤ now - t1 := by exact_mod_cast hx
  linarith

/-! ## Runs with clocks -/

/-- The input of the server in a step of the clocked one. -/
def serverInput (c : Clocked) : Input → Input
  | .tick sys => .tick (c.sys sys)
  | i => i

theorem clockedStep_server (host : Host) (c : Clocked) (i : Input) :
    (clockedStep host (.input i) c).server = servStep host (serverInput c i) c.server := by
  cases i <;> rfl

/-- The state at the fork, where `startime` is read. -/
structure Spawned (c : Clocked) : Prop where
  server : Initial c.server
  startime : c.startime = c.now
  lastactive : c.lastactive ≤ c.now
  exittime : c.exittime = 0
  passStartime : c.passStartime = 0

/-- A run with clocks is a run of the server. -/
theorem reaches_server {host : Host} {ok : Clocked → ClockedInput → Prop} {c₀ c : Clocked}
    (h : Reaches (clockedStep host) ok c₀ c) :
    Reaches (servStep host) (fun _ _ => True) c₀.server c.server := by
  apply h.simulate Clocked.server
  intro c i _
  cases i with
  | wait ns => exact .start
  | input i =>
    rw [clockedStep_server]
    exact .next (serverInput c i) .start trivial

/-- What was read of the clock is not in the future. -/
structure Readings (c : Clocked) : Prop where
  lastactive : c.lastactive ≤ c.now
  startime : c.startime ≤ c.now
  exittime : c.exittime ≤ c.now
  passStartime : c.passStartime ≤ c.now

theorem Spawned.readings {c : Clocked} (h : Spawned c) : Readings c :=
  ⟨h.lastactive, h.startime.le, h.exittime ▸ Nat.zero_le _, h.passStartime ▸ Nat.zero_le _⟩

theorem Readings.step {c : Clocked} (h : Readings c) (host : Host) (i : ClockedInput) :
    Readings (clockedStep host i c) := by
  obtain ⟨hactive, hstart, hexit, hpass⟩ := h
  cases i with
  | wait ns => constructor <;> simp only [clockedStep] <;> omega
  | input i =>
    cases i with
    | tick sys =>
      constructor <;> simp only [clockedStep, Clocked.tick]
      · split
        · exact le_rfl
        · split <;> omega
      · omega
      · omega
      · split <;> omega
    | child e => exact ⟨hactive, hstart, hexit, hpass⟩
    | sigCHLD =>
      constructor <;> simp only [clockedStep] <;> first | assumption | (split <;> omega)

theorem reaches_readings {host : Host} {ok : Clocked → ClockedInput → Prop} {c₀ c : Clocked}
    (h₀ : Spawned c₀) (h : Reaches (clockedStep host) ok c₀ c) : Readings c :=
  h.invariant Readings h₀.readings fun _ i hc _ => hc.step host i

/-- An input that is one stretch of the loop, not time that passes, a move of the child or a
signal. -/
def isStretch : ClockedInput → Bool
  | .input (.tick _) => true
  | _ => false

/-- Only a stretch moves the server on in its loop. -/
theorem stretch_or_aside (host : Host) (i : ClockedInput) (c : Clocked) :
    (∃ sys, i = .input (.tick sys)) ∨
      isStretch i = false ∧ (clockedStep host i c).server.pc = c.server.pc := by
  cases i with
  | wait ns => exact .inr ⟨rfl, rfl⟩
  | input j =>
    cases j with
    | tick sys => exact .inl ⟨sys, rfl⟩
    | child e =>
      obtain ⟨child, pending, hchild⟩ := childChange_frame e c.server
      refine .inr ⟨rfl, ?_⟩
      rw [clockedStep, hchild]
    | sigCHLD =>
      obtain ⟨pending, flag, hsig⟩ := servSigCHLD_frame c.server
      refine .inr ⟨rfl, ?_⟩
      simp only [clockedStep, hsig]

end Sexpect.Guarantees
