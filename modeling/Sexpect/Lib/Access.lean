import Sexpect.Lib.Bytes

/-!
# Programs that read one block of memory and fill another

An `Access` reads cells of one block at the offsets it asks for and writes cells of
another; a loop that comes to the end of its rounds is `unfinished`.  `run` follows it
over the contents of the first block and keeps the offsets read and the cells written.

`Yields mem limit p pos Q` is what has to hold for `p` to finish with no read behind
`limit` and its writes one after the other from `pos` on, so that `Q` holds of the result
and of what was written.  It goes along the program, and `Yields.ran` says what it means
for a run.  The last section has the functions of C for strings in memory.
-/
namespace Sexpect.Lib

inductive Access (V α : Type) where
  | done (a : α)
  | read (offset : Nat) (next : V → Access V α)
  | write (offset : Nat) (v : V) (next : Access V α)
  | unfinished

/-- A finished run: the result, the offsets read, and the cells written with their offsets. -/
structure Ran (V α : Type) where
  value : α
  reads : List Nat
  writes : List (V × Nat)
  deriving DecidableEq, Repr

section

variable {V α β : Type}

def Access.bind : Access V α → (α → Access V β) → Access V β
  | .done a, f => f a
  | .read offset next, f => .read offset fun v => (next v).bind f
  | .write offset v next, f => .write offset v (next.bind f)
  | .unfinished, _ => .unfinished

instance : Monad (Access V) where
  pure := .done
  bind := .bind

def peek (offset : Nat) : Access V V := .read offset .done

def poke (offset : Nat) (v : V) : Access V Unit := .write offset v (.done ())

def Access.run (mem : Nat → V) : Access V α → Option (Ran V α)
  | .done a => some ⟨a, [], []⟩
  | .read offset next =>
    ((next (mem offset)).run mem).map fun r => { r with reads := offset :: r.reads }
  | .write offset v next =>
    (next.run mem).map fun r => { r with writes := (v, offset) :: r.writes }
  | .unfinished => none

/-! ## Preconditions -/

def Yields (mem : Nat → V) (limit : Nat) : Access V α → Nat → (α → List V → Prop) → Prop
  | .done a, _, Q => Q a []
  | .read offset next, pos, Q => offset ≤ limit ∧ Yields mem limit (next (mem offset)) pos Q
  | .write offset v next, pos, Q =>
    offset = pos ∧ Yields mem limit next (pos + 1) fun a vs => Q a (v :: vs)
  | .unfinished, _, _ => False

variable {mem : Nat → V} {limit : Nat}

@[simp] theorem yields_pure (a : α) (pos : Nat) (Q : α → List V → Prop) :
    Yields mem limit (pure a) pos Q ↔ Q a [] := Iff.rfl

@[simp] theorem yields_peek (offset : Nat) (f : V → Access V α) (pos : Nat)
    (Q : α → List V → Prop) :
    Yields mem limit (peek offset >>= f) pos Q ↔
      offset ≤ limit ∧ Yields mem limit (f (mem offset)) pos Q := Iff.rfl

@[simp] theorem yields_poke (offset : Nat) (v : V) (f : Unit → Access V α) (pos : Nat)
    (Q : α → List V → Prop) :
    Yields mem limit (poke offset v >>= f) pos Q ↔
      offset = pos ∧ Yields mem limit (f ()) (pos + 1) fun a vs => Q a (v :: vs) := Iff.rfl

theorem Yields.mono {p : Access V α} {pos : Nat} {Q R : α → List V → Prop}
    (h : Yields mem limit p pos Q) (hQR : ∀ a vs, Q a vs → R a vs) : Yields mem limit p pos R := by
  induction p generalizing pos Q R with
  | done a => exact hQR a [] h
  | read offset next ih => exact ⟨h.1, ih (mem offset) h.2 hQR⟩
  | write offset v next ih => exact ⟨h.1, ih h.2 fun a vs => hQR a (v :: vs)⟩
  | unfinished => exact h

/-- One program behind another. -/
theorem yields_bind (p : Access V α) (f : α → Access V β) (pos : Nat) (Q : β → List V → Prop) :
    Yields mem limit (p >>= f) pos Q ↔ Yields mem limit p pos fun a vs =>
      Yields mem limit (f a) (pos + vs.length) fun b ws => Q b (vs ++ ws) := by
  induction p generalizing pos Q with
  | done a => exact Iff.rfl
  | read offset next ih => exact and_congr_right fun _ => ih (mem offset) pos Q
  | write offset v next ih =>
    refine and_congr_right fun _ => (ih (pos + 1) _).trans ?_
    simp only [List.length_cons, List.cons_append, Nat.add_assoc, Nat.add_comm 1]
  | unfinished => exact Iff.rfl

/-- What holds of a program holds of its run. -/
theorem Yields.ran {p : Access V α} {pos : Nat} {Q : α → List V → Prop}
    (h : Yields mem limit p pos Q) :
    ∃ a vs reads, p.run mem = some ⟨a, reads, vs.zipIdx pos⟩ ∧ Q a vs ∧
      ∀ offset ∈ reads, offset ≤ limit := by
  induction p generalizing pos Q with
  | done a => exact ⟨a, [], [], rfl, h, by simp⟩
  | read offset next ih =>
    obtain ⟨hle, h⟩ := h
    obtain ⟨a, vs, reads, hrun, hQ, hreads⟩ := ih (mem offset) h
    refine ⟨a, vs, offset :: reads, by rw [Access.run, hrun]; rfl, hQ, ?_⟩
    intro o ho
    rcases List.mem_cons.mp ho with rfl | ho
    · exact hle
    · exact hreads o ho
  | write offset v next ih =>
    obtain ⟨rfl, h⟩ := h
    obtain ⟨a, vs, reads, hrun, hQ, hreads⟩ := ih h
    exact ⟨a, v :: vs, reads, by rw [Access.run, hrun]; rfl, hQ, hreads⟩
  | unfinished => exact h.elim

end

/-! ## Strings -/

section

variable {mem : Nat → UInt8} {limit : Nat}

/-- The string `text` stands at `pos`, its terminator at `limit`. -/
def StringAt (mem : Nat → UInt8) (limit : Nat) : Nat → Bytes → Prop
  | pos, [] => pos = limit ∧ mem pos = 0
  | pos, c :: cs => mem pos = c ∧ c ≠ 0 ∧ StringAt mem limit (pos + 1) cs

theorem StringAt.limit_eq {pos : Nat} {text : Bytes} (h : StringAt mem limit pos text) :
    pos + text.length = limit := by
  induction text generalizing pos with
  | nil => exact h.1
  | cons c cs ih =>
    have := ih h.2.2
    simp only [List.length_cons]
    omega

theorem StringAt.drop {pos : Nat} {text : Bytes} (h : StringAt mem limit pos text) {k : Nat}
    (hk : k ≤ text.length) : StringAt mem limit (pos + k) (text.drop k) := by
  induction k generalizing pos text with
  | zero => exact h
  | succ k ih =>
    cases text with
    | nil => simp at hk
    | cons c cs =>
      have := ih h.2.2 (by simpa using hk)
      rwa [Nat.add_assoc, Nat.add_comm 1] at this

/-- The string that ends at the first zero octet. -/
theorem stringAt_of_terminated {n : Nat} (hend : mem n = 0) (hbefore : ∀ i < n, mem i ≠ 0)
    (pos : Nat) (hpos : pos ≤ n) :
    StringAt mem n pos ((List.range' pos (n - pos)).map mem) := by
  obtain ⟨k, rfl⟩ := Nat.exists_eq_add_of_le hpos
  rw [Nat.add_sub_cancel_left]
  induction k generalizing pos with
  | zero => exact ⟨rfl, hend⟩
  | succ k ih =>
    rw [List.range'_succ, List.map_cons]
    refine ⟨rfl, hbefore pos (by omega), ?_⟩
    have hnext : pos + (k + 1) = pos + 1 + k := by omega
    rw [hnext] at hend hbefore ⊢
    exact ih (pos + 1) hend hbefore (by omega)

def Access.strlen : Nat → Nat → Access UInt8 Nat
  | 0, _ => .unfinished
  | rounds + 1, pos => do
    let c ← peek pos
    if c = 0 then pure 0
    else do
      let n ← Access.strlen rounds (pos + 1)
      pure (n + 1)

/-- `strchr`; the offset of what it points to. -/
def Access.strchr (c : UInt8) : Nat → Nat → Access UInt8 (Option Nat)
  | 0, _ => .unfinished
  | rounds + 1, pos => do
    let d ← peek pos
    if d = c then pure (some pos)
    else if d = 0 then pure none
    else Access.strchr c rounds (pos + 1)

/-- `memmove` from the block that is read to the one that is written. -/
def Access.memmove (dest src : Nat) : Nat → Access UInt8 Unit
  | 0 => pure ()
  | n + 1 => do
    let c ← peek src
    poke dest c
    Access.memmove (dest + 1) (src + 1) n

theorem strlen_yields {rounds pos : Nat} {text : Bytes} (h : StringAt mem limit pos text)
    (hrounds : text.length < rounds) (out : Nat) {Q : Nat → Bytes → Prop} (hQ : Q text.length []) :
    Yields mem limit (Access.strlen rounds pos) out Q := by
  induction rounds generalizing pos text Q with
  | zero => omega
  | succ rounds ih =>
    have hle := h.limit_eq
    cases text with
    | nil =>
      obtain ⟨rfl, hzero⟩ := h
      rw [Access.strlen, yields_peek, if_pos hzero]
      exact ⟨le_rfl, hQ⟩
    | cons c cs =>
      obtain ⟨hc, hne, h⟩ := h
      rw [Access.strlen, yields_peek, hc, if_neg hne, yields_bind]
      exact ⟨by omega, ih h (by simpa using hrounds) hQ⟩

theorem strchr_yields (c : UInt8) {rounds pos : Nat} {text : Bytes}
    (h : StringAt mem limit pos text) (hrounds : text.length < rounds) (out : Nat)
    {Q : Option Nat → Bytes → Prop} (hc : c ≠ 0)
    (hQ : Q ((text.findIdx? (· = c)).map (pos + ·)) []) :
    Yields mem limit (Access.strchr c rounds pos) out Q := by
  induction rounds generalizing pos text Q with
  | zero => omega
  | succ rounds ih =>
    have hle := h.limit_eq
    cases text with
    | nil =>
      obtain ⟨rfl, hzero⟩ := h
      rw [Access.strchr, yields_peek, hzero, if_neg hc.symm, if_pos rfl]
      exact ⟨le_rfl, hQ⟩
    | cons d cs =>
      obtain ⟨hd, hne, h⟩ := h
      rw [Access.strchr, yields_peek, hd]
      refine ⟨by omega, ?_⟩
      by_cases hfound : d = c
      · rw [if_pos hfound]
        simpa [List.findIdx?_cons, hfound] using hQ
      · rw [if_neg hfound, if_neg hne]
        refine ih h (by simpa using hrounds) ?_
        simpa [List.findIdx?_cons, hfound, Function.comp_def, Nat.add_assoc,
          Nat.add_comm 1] using hQ

theorem memmove_yields {dest src n : Nat} {text : Bytes} (h : StringAt mem limit src text)
    (hn : n ≤ text.length) {Q : Unit → Bytes → Prop} (hQ : Q () (text.take n)) :
    Yields mem limit (Access.memmove dest src n) dest Q := by
  induction n generalizing dest src text Q with
  | zero => exact hQ
  | succ n ih =>
    have hle := h.limit_eq
    cases text with
    | nil => simp at hn
    | cons c cs =>
      obtain ⟨hc, -, h⟩ := h
      rw [Access.memmove, yields_peek, yields_poke, hc]
      exact ⟨by omega, rfl, ih h (by simpa using hn) hQ⟩

end

end Sexpect.Lib
