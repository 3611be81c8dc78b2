/-!
# Runs of an input-driven machine

A machine is a total function `step : ι → σ → σ`.  `Reaches step ok s₀` are the
states of the runs from `s₀` in which every input meets `ok` in the state it is
applied to.  An invariant is checked at the start and over one step.
-/
namespace Sexpect.Lib

universe u v u' v'

section

variable {σ : Type u} {ι : Type v} {step : ι → σ → σ} {ok : σ → ι → Prop} {s₀ : σ}

/-- The states of the runs from `s₀` whose steps all meet `ok`. -/
inductive Reaches (step : ι → σ → σ) (ok : σ → ι → Prop) (s₀ : σ) : σ → Prop
  | start : Reaches step ok s₀ s₀
  | next {s : σ} (i : ι) : Reaches step ok s₀ s → ok s i → Reaches step ok s₀ (step i s)

/-- What holds at the start and survives every admitted step holds throughout. -/
theorem Reaches.invariant (inv : σ → Prop) (h₀ : inv s₀)
    (hstep : ∀ s i, inv s → ok s i → inv (step i s)) {s : σ} (h : Reaches step ok s₀ s) : inv s := by
  induction h with
  | start => exact h₀
  | next i _ hok ih => exact hstep _ i ih hok

/-- Fewer runs meet a stronger condition. -/
theorem Reaches.mono {ok' : σ → ι → Prop} (hok : ∀ s i, ok s i → ok' s i) {s : σ}
    (h : Reaches step ok s₀ s) : Reaches step ok' s₀ s := by
  induction h with
  | start => exact .start
  | next i _ hi ih => exact ih.next i (hok _ i hi)

/-- Runs one behind the other. -/
theorem Reaches.trans {s t : σ} (h : Reaches step ok s₀ s) (h' : Reaches step ok s t) :
    Reaches step ok s₀ t := by
  induction h' with
  | start => exact h
  | next i _ hi ih => exact ih.next i hi

/-- A machine each of whose steps is a run of another has its runs there too. -/
theorem Reaches.simulate {τ : Type u'} {κ : Type v'} {step' : κ → τ → τ} {ok' : τ → κ → Prop}
    (f : σ → τ) (hf : ∀ s i, ok s i → Reaches step' ok' (f s) (f (step i s))) {s : σ}
    (h : Reaches step ok s₀ s) : Reaches step' ok' (f s₀) (f s) := by
  induction h with
  | start => exact .start
  | next i _ hok ih => exact ih.trans (hf _ i hok)

/-- Apply a list of inputs in order. -/
def runs (step : ι → σ → σ) : List ι → σ → σ
  | [], s => s
  | i :: is, s => runs step is (step i s)

theorem runs_append (is js : List ι) (s : σ) :
    runs step (is ++ js) s = runs step js (runs step is s) := by
  induction is generalizing s with
  | nil => rfl
  | cons i is ih => exact ih (step i s)

theorem runs_snoc (is : List ι) (i : ι) (s : σ) :
    runs step (is ++ [i]) s = step i (runs step is s) :=
  runs_append is [i] s

/-- A run is a list of inputs. -/
theorem Reaches.eq_runs {s : σ} (h : Reaches step ok s₀ s) : ∃ is, s = runs step is s₀ := by
  induction h with
  | start => exact ⟨[], rfl⟩
  | next i _ _ ih =>
    obtain ⟨is, rfl⟩ := ih
    exact ⟨is ++ [i], (runs_snoc is i s₀).symm⟩

/-- The inputs of a list meet `ok` one after the other. -/
def Admitted (step : ι → σ → σ) (ok : σ → ι → Prop) : List ι → σ → Prop
  | [], _ => True
  | i :: is, s => ok s i ∧ Admitted step ok is (step i s)

instance decidableAdmitted [∀ s i, Decidable (ok s i)] :
    ∀ (is : List ι) (s : σ), Decidable (Admitted step ok is s)
  | [], _ => isTrue trivial
  | i :: is, s => @instDecidableAnd _ _ _ (decidableAdmitted is (step i s))

/-- Inputs that meet `ok` in every state. -/
theorem Admitted.of_forall {is : List ι} (h : ∀ i ∈ is, ∀ s, ok s i) (s : σ) :
    Admitted step ok is s := by
  induction is generalizing s with
  | nil => trivial
  | cons i is ih =>
    exact ⟨h i List.mem_cons_self s, ih (fun j hj => h j (List.mem_cons_of_mem i hj)) (step i s)⟩

theorem admitted_true (is : List ι) (s : σ) : Admitted step (fun _ _ => True) is s :=
  .of_forall (fun _ _ _ => trivial) s

theorem Reaches.runs {s : σ} (h : Reaches step ok s₀ s) (is : List ι)
    (hok : Admitted step ok is s) : Reaches step ok s₀ (runs step is s) := by
  induction is generalizing s with
  | nil => exact h
  | cons i is ih => exact ih (h.next i hok.1) hok.2

/-- A goal that is kept is reached in time when on the way to it a rank falls with every input that
counts and never rises. -/
theorem runs_descend (inv goal : σ → Prop) (rank : σ → Nat) (counts : ι → Bool)
    (hgoal : ∀ s i, goal s → ok s i → goal (step i s))
    (hstep : ∀ s i, inv s → ok s i → goal (step i s) ∨
      inv (step i s) ∧ rank (step i s) + (if counts i then 1 else 0) ≤ rank s)
    (is : List ι) (s : σ) (h : goal s ∨ inv s ∧ rank s < is.countP counts)
    (hok : Admitted step ok is s) : goal (runs step is s) := by
  induction is generalizing s with
  | nil =>
    rcases h with h | ⟨-, hlt⟩
    · exact h
    · exact absurd hlt (Nat.not_lt_zero _)
  | cons i is ih =>
    apply ih (step i s) _ hok.2
    rcases h with h | ⟨hinv, hlt⟩
    · exact .inl (hgoal s i h hok.1)
    · rcases hstep s i hinv hok.1 with hreached | ⟨hinv', hrank⟩
      · exact .inl hreached
      · refine .inr ⟨hinv', ?_⟩
        rw [List.countP_cons] at hlt
        omega

/-- A goal is within reach when from every state of an invariant one admitted step
keeps the invariant and lowers a measure. -/
theorem exists_runs {α : Type w} [WellFoundedRelation α] (inv goal : σ → Prop) (measure : σ → α)
    (hstep : ∀ s, inv s → goal s ∨ ∃ i, ok s i ∧ inv (step i s) ∧
      WellFoundedRelation.rel (measure (step i s)) (measure s)) (s : σ) (h : inv s) :
    ∃ is, Admitted step ok is s ∧ goal (runs step is s) := by
  rcases hstep s h with hgoal | ⟨i, hok, hinv, hlt⟩
  · exact ⟨[], trivial, hgoal⟩
  · obtain ⟨is, hadm, hgoal⟩ := exists_runs inv goal measure hstep (step i s) hinv
    exact ⟨i :: is, ⟨hok, hadm⟩, hgoal⟩
termination_by measure s

end

end Sexpect.Lib
