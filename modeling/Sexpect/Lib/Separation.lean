import Mathlib.Algebra.Group.Defs
import Mathlib.Data.Finset.Basic

/-!
# Programs on allocated memory

A `Memory` holds cells at the addresses in use; address 0 is `NULL` and never in use.
Which address `alloc` hands out is up to an `Allocator`, which may hand out freed addresses
again.  A program is a partial function on memories: it ends in `none` when it loads, stores
or frees at an address that is not in use, or comes to the end of its rounds.

An `Assertion` is about a part of memory, and `P * Q` is about two parts that share no
address, so that assertions form a commutative monoid.  `Triple P p Q` says that `p`, started
where `P` holds of a part of memory, ends without a fault, that `Q` then holds of what has
become of that part, and that the rest of memory is as it was.
-/
namespace Sexpect.Lib

/-! ## Parts of memory -/

/-- The cells of a part of memory. -/
abbrev Cells (κ : Type) := Nat → Option κ

section

variable {κ : Type}

namespace Cells

def empty : Cells κ := fun _ => none

def single (a : Nat) (v : κ) : Cells κ := fun b => if b = a then some v else none

def join (f g : Cells κ) : Cells κ := fun a => (f a).or (g a)

def Apart (f g : Cells κ) : Prop := ∀ a, f a = none ∨ g a = none

theorem Apart.symm {f g : Cells κ} (h : Apart f g) : Apart g f := fun a => (h a).symm

theorem join_comm {f g : Cells κ} (h : Apart f g) : join f g = join g f := by
  funext a
  rcases h a with h | h <;> simp [join, h]

theorem join_assoc (f g h : Cells κ) : join (join f g) h = join f (join g h) := by
  funext a
  exact Option.or_assoc

@[simp] theorem empty_join (f : Cells κ) : join empty f = f := rfl

theorem apart_empty (f : Cells κ) : Apart empty f := fun _ => .inl rfl

theorem apart_join {f g h : Cells κ} : Apart (join f g) h ↔ Apart f h ∧ Apart g h := by
  constructor
  · intro hj
    constructor
    · intro a
      rcases hj a with hn | hn
      · exact .inl (Option.or_eq_none_iff.mp hn).1
      · exact .inr hn
    · intro a
      rcases hj a with hn | hn
      · exact .inl (Option.or_eq_none_iff.mp hn).2
      · exact .inr hn
  · rintro ⟨hf, hg⟩ a
    rcases hf a with hn | hn
    · rcases hg a with hn' | hn'
      · exact .inl (Option.or_eq_none_iff.mpr ⟨hn, hn'⟩)
      · exact .inr hn'
    · exact .inr hn

end Cells

/-! ## Assertions -/

def Assertion (κ : Type) : Type := Cells κ → Prop

namespace Assertion

@[ext] theorem ext {P Q : Assertion κ} (h : ∀ f, P f ↔ Q f) : P = Q :=
  funext fun f => propext (h f)

instance : One (Assertion κ) := ⟨fun f => f = Cells.empty⟩

instance : Mul (Assertion κ) :=
  ⟨fun P Q f => ∃ g h, Cells.Apart g h ∧ f = Cells.join g h ∧ P g ∧ Q h⟩

theorem sep_comm (P Q : Assertion κ) : P * Q = Q * P := by
  have hswap : ∀ (P Q : Assertion κ) f, (P * Q) f → (Q * P) f := by
    rintro P Q f ⟨g, h, hapart, rfl, hP, hQ⟩
    exact ⟨h, g, hapart.symm, Cells.join_comm hapart, hQ, hP⟩
  exact ext fun f => ⟨hswap P Q f, hswap Q P f⟩

theorem sep_assoc (P Q R : Assertion κ) : P * Q * R = P * (Q * R) := by
  ext f
  constructor
  · rintro ⟨gh, k, hk, rfl, ⟨g, h, hgh, rfl, hP, hQ⟩, hR⟩
    obtain ⟨hgk, hhk⟩ := Cells.apart_join.mp hk
    refine ⟨g, Cells.join h k, ?_, Cells.join_assoc g h k, hP, h, k, hhk, rfl, hQ, hR⟩
    exact (Cells.apart_join.mpr ⟨hgh.symm, hgk.symm⟩).symm
  · rintro ⟨g, hk, hghk, rfl, hP, h, k, hhk, rfl, hQ, hR⟩
    obtain ⟨hhg, hkg⟩ := Cells.apart_join.mp hghk.symm
    refine ⟨Cells.join g h, k, ?_, (Cells.join_assoc g h k).symm, ⟨g, h, hhg.symm, rfl, hP, hQ⟩, hR⟩
    exact Cells.apart_join.mpr ⟨hkg.symm, hhk⟩

theorem emp_sep (P : Assertion κ) : 1 * P = P := by
  ext f
  constructor
  · rintro ⟨g, h, -, rfl, rfl, hP⟩
    exact hP
  · intro hP
    exact ⟨Cells.empty, f, Cells.apart_empty f, rfl, rfl, hP⟩

instance : CommMonoid (Assertion κ) where
  mul_assoc := sep_assoc
  mul_comm := sep_comm
  one_mul := emp_sep
  mul_one P := (sep_comm P 1).trans (emp_sep P)

/-- Exactly the cell `v` at address `a`. -/
def pt (a : Nat) (v : κ) : Assertion κ := fun f => a ≠ 0 ∧ f = Cells.single a v

/-- Nothing but a fact. -/
def fact (φ : Prop) : Assertion κ := fun f => φ ∧ f = Cells.empty

/-- The part `g` itself. -/
def exactly (g : Cells κ) : Assertion κ := fun f => f = g

def ex {ι : Type} (P : ι → Assertion κ) : Assertion κ := fun f => ∃ x, P x f

theorem fact_sep {φ : Prop} {P : Assertion κ} {f : Cells κ} :
    ((fact φ : Assertion κ) * P) f ↔ φ ∧ P f := by
  constructor
  · rintro ⟨g, h, -, rfl, ⟨hφ, rfl⟩, hP⟩
    exact ⟨hφ, hP⟩
  · rintro ⟨hφ, hP⟩
    exact ⟨Cells.empty, f, Cells.apart_empty f, rfl, ⟨hφ, rfl⟩, hP⟩

theorem fact_true {φ : Prop} (h : φ) : (fact φ : Assertion κ) = 1 := by
  ext f
  exact ⟨fun hf => hf.2, fun hf => ⟨h, hf⟩⟩

theorem ex_intro {ι : Type} {P : ι → Assertion κ} {f : Cells κ} (x : ι) (h : P x f) : ex P f := ⟨x, h⟩

theorem ex_sep {ι : Type} (P : ι → Assertion κ) (Q : Assertion κ) :
    ex P * Q = ex fun x => P x * Q := by
  ext f
  constructor
  · rintro ⟨g, h, hapart, rfl, ⟨x, hP⟩, hQ⟩
    exact ⟨x, g, h, hapart, rfl, hP, hQ⟩
  · rintro ⟨x, g, h, hapart, rfl, hP, hQ⟩
    exact ⟨g, h, hapart, rfl, ⟨x, hP⟩, hQ⟩

theorem sep_mono {P P' Q : Assertion κ} (h : ∀ f, P f → P' f) {f : Cells κ} (hf : (P * Q) f) :
    (P' * Q) f := by
  obtain ⟨g, k, hapart, rfl, hP, hQ⟩ := hf
  exact ⟨g, k, hapart, rfl, h g hP, hQ⟩

theorem sep_mono_right {P Q Q' : Assertion κ} (h : ∀ f, Q f → Q' f) {f : Cells κ}
    (hf : (P * Q) f) : (P * Q') f := by
  rw [mul_comm] at hf ⊢
  exact sep_mono h hf

theorem pt_sep {a : Nat} {v : κ} {P : Assertion κ} {f : Cells κ} (h : (pt a v * P) f) :
    a ≠ 0 ∧ f a = some v := by
  obtain ⟨g, k, -, rfl, ⟨ha, rfl⟩, -⟩ := h
  exact ⟨ha, by simp [Cells.join, Cells.single]⟩

end Assertion

/-! ## Memory and programs -/

/-- The cells in use; they are finitely many and none is at `NULL`. -/
structure Memory (κ : Type) where
  cells : Cells κ
  used : Finset Nat
  mem_used : ∀ a, a ∈ used ↔ cells a ≠ none
  null : cells 0 = none

/-- Where memory is taken from. -/
structure Allocator where
  pick : Finset Nat → Nat
  fresh : ∀ used, pick used ∉ used
  nonzero : ∀ used, pick used ≠ 0

def Memory.empty : Memory κ := ⟨fun _ => none, ∅, by simp, rfl⟩

/-- Put a cell at an address other than `NULL`. -/
def Memory.put (m : Memory κ) (a : Nat) (v : κ) (h : a ≠ 0) : Memory κ where
  cells b := if b = a then some v else m.cells b
  used := insert a m.used
  mem_used b := by
    by_cases hb : b = a
    · simp [hb]
    · simp [hb, m.mem_used b]
  null := by simp [h.symm, m.null]

def Memory.drop (m : Memory κ) (a : Nat) : Memory κ where
  cells b := if b = a then none else m.cells b
  used := m.used.erase a
  mem_used b := by
    by_cases hb : b = a
    · simp [hb]
    · simp [hb, m.mem_used b]
  null := by simp [m.null]

/-- A program: `none` is a fault. -/
def Prog (κ α : Type) : Type := Memory κ → Option (α × Memory κ)

namespace Prog

variable {α β : Type}

def fault : Prog κ α := fun _ => none

instance : Monad (Prog κ) where
  pure a := fun m => some (a, m)
  bind p f := fun m => (p m).bind fun r => f r.1 r.2

theorem bind_pure (p : Prog κ α) : p >>= pure = p := by
  funext m
  show (p m).bind _ = p m
  cases p m <;> rfl

def load (a : Nat) : Prog κ κ := fun m => (m.cells a).map fun v => (v, m)

def store (a : Nat) (v : κ) : Prog κ Unit := fun m =>
  if h : a ≠ 0 ∧ m.cells a ≠ none then some ((), m.put a v h.1) else none

def alloc (A : Allocator) (v : κ) : Prog κ Nat := fun m =>
  some (A.pick m.used, m.put (A.pick m.used) v (A.nonzero m.used))

def free (a : Nat) : Prog κ Unit := fun m =>
  if m.cells a ≠ none then some ((), m.drop a) else none

/-- The program faults wherever it is run. -/
def Faults (p : Prog κ α) : Prop := ∀ m, p m = none

theorem Faults.left {p : Prog κ α} (h : Faults p) (f : α → Prog κ β) : Faults (p >>= f) := by
  intro m
  show (p m).bind _ = none
  rw [h m]
  rfl

theorem Faults.right (p : Prog κ α) {f : α → Prog κ β} (h : ∀ a, Faults (f a)) :
    Faults (p >>= f) := by
  intro m
  show (p m).bind _ = none
  cases p m with
  | none => rfl
  | some r => exact h r.1 r.2

/-- Behind an allocation it is enough to look at memories with the new object. -/
theorem Faults.alloc (A : Allocator) {v : κ} {f : Nat → Prog κ β}
    (h : ∀ a m, m.cells a = some v → f a m = none) : Faults (Prog.alloc A v >>= f) := by
  intro m
  exact h _ _ (if_pos rfl)

end Prog

/-! ## Triples -/

open Assertion

/-- From `P`, `p` ends without a fault in `Q`, and the rest of memory stays as it is. -/
def Triple {α : Type} (P : Assertion κ) (p : Prog κ α) (Q : α → Assertion κ) : Prop :=
  ∀ (m : Memory κ) (F : Assertion κ), (P * F) m.cells →
    ∃ a m', p m = some (a, m') ∧ (Q a * F) m'.cells

namespace Triple

variable {α β : Type} {P P' R F : Assertion κ} {Q Q' : α → Assertion κ}

theorem conseq {p : Prog κ α} (h : Triple P p Q) (hP : ∀ f, P' f → P f)
    (hQ : ∀ a f, Q a f → Q' a f) : Triple P' p Q' := by
  intro m F hF
  obtain ⟨a, m', hrun, hpost⟩ := h m F (sep_mono hP hF)
  exact ⟨a, m', hrun, sep_mono (hQ a) hpost⟩

theorem post {p : Prog κ α} (h : Triple P p Q) (hQ : ∀ a f, Q a f → Q' a f) : Triple P p Q' :=
  h.conseq (fun _ hf => hf) hQ

theorem frame {p : Prog κ α} (h : Triple P p Q) (R : Assertion κ) :
    Triple (P * R) p fun a => Q a * R := by
  intro m F hF
  obtain ⟨a, m', hrun, hpost⟩ := h m (R * F) (by rwa [← mul_assoc])
  exact ⟨a, m', hrun, by rwa [mul_assoc]⟩

theorem pure (a : α) (h : ∀ f, P f → Q a f) : Triple P (Pure.pure a) Q :=
  fun m _ hF => ⟨a, m, rfl, sep_mono h hF⟩

theorem bind {p : Prog κ α} {f : α → Prog κ β} {S : β → Assertion κ} (h : Triple P p Q)
    (hf : ∀ a, Triple (Q a) (f a) S) : Triple P (p >>= f) S := by
  intro m F hF
  obtain ⟨a, m', hrun, hpost⟩ := h m F hF
  obtain ⟨b, m'', hrun', hpost'⟩ := hf a m' F hpost
  refine ⟨b, m'', ?_, hpost'⟩
  show (p m).bind _ = _
  rw [hrun]
  exact hrun'

/-- A call inside a larger part of memory. -/
theorem call {p : Prog κ α} {f : α → Prog κ β} {S : β → Assertion κ} (h : Triple P p Q)
    (hf : ∀ a, Triple (Q a * R) (f a) S) : Triple (P * R) (p >>= f) S :=
  (h.frame R).bind hf

theorem ex {ι : Type} {P : ι → Assertion κ} {p : Prog κ α} (h : ∀ x, Triple (P x) p Q) :
    Triple (Assertion.ex P) p Q := by
  intro m F hF
  rw [ex_sep] at hF
  obtain ⟨x, hx⟩ := hF
  exact h x m F hx

theorem fact {φ : Prop} {p : Prog κ α} (h : φ → Triple P p Q) :
    Triple (Assertion.fact φ * P) p Q := by
  intro m F hF
  rw [mul_assoc, fact_sep] at hF
  exact h hF.1 m F hF.2

theorem only_fact {φ : Prop} {p : Prog κ α} (h : φ → Triple 1 p Q) :
    Triple (Assertion.fact φ) p Q := by
  rw [← mul_one (Assertion.fact φ)]
  exact fact h

/-- What the memory tells about its addresses. -/
theorem assume {φ : Prop} {p : Prog κ α} (hφ : ∀ f, P f → φ) (h : φ → Triple P p Q) :
    Triple P p Q := by
  intro m F hF
  have hφ' : φ := by
    obtain ⟨g, -, -, -, hP, -⟩ := hF
    exact hφ g hP
  exact h hφ' m F hF

theorem load {a : Nat} {v : κ} {f : κ → Prog κ β} {S : β → Assertion κ}
    (h : Triple (pt a v * P) (f v) S) : Triple (pt a v * P) (Prog.load a >>= f) S := by
  intro m F hF
  have hcell : m.cells a = some v := (pt_sep (P := P * F) (by rwa [← mul_assoc])).2
  obtain ⟨b, m', hrun, hpost⟩ := h m F hF
  refine ⟨b, m', ?_, hpost⟩
  show (Prog.load a m).bind _ = _
  rw [Prog.load, hcell]
  exact hrun

theorem store {a : Nat} {v w : κ} {f : Unit → Prog κ β} {S : β → Assertion κ}
    (h : Triple (pt a w * P) (f ()) S) : Triple (pt a v * P) (Prog.store a w >>= f) S := by
  intro m F hF
  rw [mul_assoc] at hF
  obtain ⟨ha, hcell⟩ := pt_sep hF
  have hused : a ≠ 0 ∧ m.cells a ≠ none := ⟨ha, by rw [hcell]; simp⟩
  obtain ⟨g, k, hapart, hcells, ⟨-, rfl⟩, hrest⟩ := hF
  have hput : (pt a w * (P * F)) (m.put a w ha).cells := by
    refine ⟨Cells.single a w, k, ?_, ?_, ⟨ha, rfl⟩, hrest⟩
    · intro b
      rcases hapart b with hb | hb
      · left
        unfold Cells.single at hb ⊢
        split at hb
        · cases hb
        · rename_i hne
          exact if_neg hne
      · exact .inr hb
    · funext b
      simp only [Memory.put, hcells, Cells.join, Cells.single]
      split <;> rfl
  obtain ⟨b, m', hrun, hpost⟩ := h (m.put a w ha) F (by rwa [mul_assoc])
  refine ⟨b, m', ?_, hpost⟩
  show (Prog.store a w m).bind _ = _
  rw [Prog.store, dif_pos hused]
  exact hrun

theorem store_last {a : Nat} {v w : κ} {S : Unit → Assertion κ}
    (h : ∀ f, (pt a w * P) f → S () f) : Triple (pt a v * P) (Prog.store a w) S := by
  rw [← Prog.bind_pure (Prog.store a w)]
  exact store (Triple.pure () h)

theorem free {a : Nat} {v : κ} {f : Unit → Prog κ β} {S : β → Assertion κ}
    (h : Triple P (f ()) S) : Triple (pt a v * P) (Prog.free a >>= f) S := by
  intro m F hF
  rw [mul_assoc] at hF
  obtain ⟨-, hcell⟩ := pt_sep hF
  have hused : m.cells a ≠ none := by
    rw [hcell]
    simp
  obtain ⟨g, k, hapart, hcells, ⟨-, rfl⟩, hrest⟩ := hF
  have hdrop : (m.drop a).cells = k := by
    funext b
    simp only [Memory.drop, hcells, Cells.join, Cells.single]
    rcases hapart b with hb | hb
    · unfold Cells.single at hb
      split at hb
      · cases hb
      · rename_i hne
        simp [hne]
    · rw [hb]
      split <;> rfl
  obtain ⟨b, m', hrun, hpost⟩ := h (m.drop a) F (by rwa [hdrop])
  refine ⟨b, m', ?_, hpost⟩
  show (Prog.free a m).bind _ = _
  rw [Prog.free, if_pos hused]
  exact hrun

theorem alloc (A : Allocator) {v : κ} {f : Nat → Prog κ β} {S : β → Assertion κ}
    (h : ∀ a, a ≠ 0 → Triple (pt a v * P) (f a) S) : Triple P (Prog.alloc A v >>= f) S := by
  intro m F hF
  have hnone : m.cells (A.pick m.used) = none := by
    by_contra hne
    exact A.fresh m.used ((m.mem_used _).mpr hne)
  have hput : (pt (A.pick m.used) v * (P * F))
      (m.put (A.pick m.used) v (A.nonzero m.used)).cells := by
    refine ⟨Cells.single (A.pick m.used) v, m.cells, ?_, ?_, ⟨A.nonzero m.used, rfl⟩, hF⟩
    · intro b
      by_cases hb : b = A.pick m.used
      · rw [hb]
        exact .inr hnone
      · exact .inl (if_neg hb)
    · funext b
      simp only [Memory.put, Cells.join, Cells.single]
      split <;> rfl
  obtain ⟨b, m', hrun, hpost⟩ := h _ (A.nonzero m.used) (m.put _ v (A.nonzero m.used)) F
    (by rwa [mul_assoc])
  exact ⟨b, m', hrun, hpost⟩

end Triple

end

end Sexpect.Lib
