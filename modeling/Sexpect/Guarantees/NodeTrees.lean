import Sexpect.Guarantees.WireFormat
import Sexpect.Source.Nodes

/-!
# Message trees in memory

`treeAt t p` says that a part of memory is the tree `t` at `p` and nothing else; `segAt` leaves
the `next` of the last sibling of its root open.  The loops over nodes do on these what the
functions of `Sexpect.Source.Proto` do on trees: `ttlv_append_child`, `ttlv_calc_size` and
`ttlv_encode`.  `ttlv_free` gives back the nodes of a tree, each of them once.
-/
namespace Sexpect.Guarantees
open Sexpect.Lib Sexpect.Source
open Sexpect.Source.Nodes (TtlvCell)

open Assertion (pt fact ex)

/-- The tree `t` at `p`. -/
def treeAt : Ttlv → Nat → Assertion TtlvCell
  | .null, p => fact (p = 0)
  | .node tag length value child next, p =>
    ex fun c => ex fun n => pt p ⟨tag, length, value, c, n⟩ * (treeAt child c * treeAt next n)

/-- A tree at `p` without the end of its sibling list: the last sibling is at `q`, and its
`next` is `n`. -/
def segAt : Ttlv → Nat → Nat → Nat → Assertion TtlvCell
  | .null, _, _, _ => fact False
  | .node tag length value child next, p, q, n =>
    ex fun c =>
      if next = .null then pt p ⟨tag, length, value, c, n⟩ * (treeAt child c * fact (q = p))
      else ex fun m => pt p ⟨tag, length, value, c, m⟩ * (treeAt child c * segAt next m q n)

/-- How many nodes a tree has. -/
def nodes : Ttlv → Nat
  | .null => 0
  | .node _ _ _ child next => nodes child + nodes next + 1

theorem treeAt_null : treeAt .null 0 = 1 := Assertion.fact_true rfl

/-- Only the empty tree is at `NULL`. -/
theorem treeAt_zero {t : Ttlv} {p : Nat} {f : Cells TtlvCell} (h : treeAt t p f) :
    p = 0 ↔ t = .null := by
  cases t with
  | null => exact ⟨fun _ => rfl, fun _ => h.1⟩
  | node tag length value child next =>
    obtain ⟨c, n, h⟩ := h
    constructor
    · intro hp
      exact absurd hp (Assertion.pt_sep h).1
    · intro ht
      cases ht

/-- The pointers of a node are `NULL` where it has no child or no sibling. -/
theorem treeAt_links {child next : Ttlv} {p c n : Nat} {v : TtlvCell} {f : Cells TtlvCell}
    (h : (pt p v * (treeAt child c * treeAt next n)) f) :
    p ≠ 0 ∧ (c = 0 ↔ child = .null) ∧ (n = 0 ↔ next = .null) := by
  obtain ⟨g, k, -, -, hp, g', k', -, -, hc, hn⟩ := h
  exact ⟨hp.1, treeAt_zero hc, treeAt_zero hn⟩

/-! ## `ttlv_free` -/

theorem freeLoop_frees (t : Ttlv) (p rounds : Nat) (hr : nodes t < rounds) :
    Triple (treeAt t p) (Nodes.freeLoop rounds p) fun _ => 1 := by
  induction t generalizing p rounds with
  | null =>
    obtain ⟨rounds, rfl⟩ : ∃ k, rounds = k + 1 := ⟨rounds - 1, by omega⟩
    apply Triple.only_fact
    intro hp
    rw [Nodes.freeLoop, if_pos hp]
    exact Triple.pure () fun _ h => h
  | node tag length value child next ihc ihn =>
    obtain ⟨rounds, rfl⟩ : ∃ k, rounds = k + 1 := ⟨rounds - 1, by omega⟩
    simp only [nodes] at hr
    apply Triple.ex
    intro c
    apply Triple.ex
    intro n
    apply Triple.assume fun _ => treeAt_links
    intro ⟨hp, hc, _⟩
    rw [Nodes.freeLoop, if_neg hp]
    apply Triple.load
    by_cases hc0 : c = 0
    · rw [if_neg (not_not.mpr hc0), hc.mp hc0, hc0, treeAt_null, one_mul]
      apply Triple.free
      exact ihn n rounds (by omega)
    · rw [if_pos hc0, mul_left_comm]
      apply (ihc c rounds (by omega)).call
      intro _
      rw [one_mul]
      apply Triple.store
      apply Triple.free
      exact ihn n rounds (by omega)

/-! ## Siblings -/

theorem segAt_ne {t : Ttlv} {p q n : Nat} {f : Cells TtlvCell} (h : segAt t p q n f) :
    t ≠ .null ∧ p ≠ 0 := by
  cases t with
  | null => exact h.1.elim
  | node tag length value child next =>
    obtain ⟨c, h⟩ := h
    refine ⟨by simp, ?_⟩
    split at h
    · exact (Assertion.pt_sep h).1
    · obtain ⟨m, h⟩ := h
      exact (Assertion.pt_sep h).1

theorem segAt_tree {t u : Ttlv} {p q n : Nat} {f : Cells TtlvCell}
    (h : (segAt t p q n * treeAt u n) f) : treeAt (ttlvAppend t u) p f := by
  induction t generalizing p f with
  | null => exact (Assertion.fact_sep.mp h).1.elim
  | node tag length value child next _ ih =>
    simp only [segAt, Assertion.ex_sep] at h
    obtain ⟨c, h⟩ := h
    split at h
    · rename_i hnext
      rw [hnext]
      refine ⟨c, n, ?_⟩
      rw [mul_assoc, mul_assoc] at h
      refine Assertion.sep_mono_right (fun f h => Assertion.sep_mono_right (fun f h => ?_) h) h
      exact (Assertion.fact_sep.mp h).2
    · rw [Assertion.ex_sep] at h
      obtain ⟨m, h⟩ := h
      refine ⟨c, m, ?_⟩
      rw [mul_assoc, mul_assoc] at h
      exact Assertion.sep_mono_right (fun f h => Assertion.sep_mono_right (fun f h => ih h) h) h

theorem segAt_seg {t u : Ttlv} {p q r s n : Nat} {f : Cells TtlvCell}
    (h : (segAt t p q r * segAt u r s n) f) : segAt (ttlvAppend t u) p s n f := by
  induction t generalizing p f with
  | null => exact (Assertion.fact_sep.mp h).1.elim
  | node tag length value child next _ ih =>
    have hu : u ≠ .null := by
      obtain ⟨_, _, -, -, -, hu⟩ := h
      exact (segAt_ne hu).1
    have hne : ttlvAppend next u ≠ .null := by
      cases next with
      | null => exact hu
      | node => simp [ttlvAppend]
    simp only [segAt, Assertion.ex_sep] at h
    obtain ⟨c, h⟩ := h
    refine ⟨c, ?_⟩
    simp only [if_neg hne]
    split at h
    · rename_i hnext
      rw [hnext]
      refine ⟨r, ?_⟩
      rw [mul_assoc, mul_assoc] at h
      refine Assertion.sep_mono_right (fun f h => Assertion.sep_mono_right (fun f h => ?_) h) h
      exact (Assertion.fact_sep.mp h).2
    · rw [Assertion.ex_sep] at h
      obtain ⟨m, h⟩ := h
      refine ⟨m, ?_⟩
      rw [mul_assoc, mul_assoc] at h
      exact Assertion.sep_mono_right (fun f h => Assertion.sep_mono_right (fun f h => ih h) h) h

section

variable {tag length : Nat} {value : TtlvValue} {child next : Ttlv} {p q c m n : Nat}
  {f : Cells TtlvCell}

theorem segAt_last (h : (pt p (⟨tag, length, value, c, n⟩ : TtlvCell) * treeAt child c) f) :
    segAt (.node tag length value child .null) p p n f := by
  apply Assertion.ex_intro c
  rw [if_pos rfl, Assertion.fact_true rfl, mul_one]
  exact h

theorem segAt_more (hnext : next ≠ .null)
    (h : (segAt next m q n * (pt p (⟨tag, length, value, c, m⟩ : TtlvCell) * treeAt child c)) f) :
    segAt (.node tag length value child next) p q n f := by
  apply Assertion.ex_intro c
  rw [if_neg hnext]
  apply Assertion.ex_intro m
  rw [mul_comm, mul_assoc] at h
  exact h

end

/-- A tree with one root is a segment of one node. -/
theorem treeAt_seg {t : Ttlv} {p : Nat} {f : Cells TtlvCell} (hne : t ≠ .null) (hnext : t.next = .null)
    (h : treeAt t p f) : segAt t p p 0 f := by
  cases t with
  | null => exact absurd rfl hne
  | node tag length value child next =>
    cases hnext
    obtain ⟨c, n, h⟩ := h
    have hn : n = 0 := (treeAt_links h).2.2.mpr rfl
    rw [hn, treeAt_null, mul_one] at h
    exact segAt_last h

theorem setNext_spec (t : Ttlv) (p q n r : Nat) :
    Triple (segAt t p q n) (Nodes.setNext q r) fun _ => segAt t p q r := by
  induction t generalizing p with
  | null =>
    apply Triple.only_fact
    intro h
    exact h.elim
  | node tag length value child next _ ih =>
    apply Triple.ex
    intro c
    split
    · rename_i hnext
      rw [← mul_assoc, mul_comm]
      apply Triple.fact
      intro hq
      rw [hq, hnext]
      apply Triple.load
      exact Triple.store_last fun f h => segAt_last h
    · rename_i hnext
      apply Triple.ex
      intro m
      rw [← mul_assoc, mul_comm]
      exact ((ih m).frame _).post fun _ f h => segAt_more hnext h

theorem lastSibling_spec (t : Ttlv) (p rounds : Nat) (hne : t ≠ .null) (hr : nodes t ≤ rounds) :
    Triple (treeAt t p) (Nodes.lastSibling rounds p) fun q => segAt t p q 0 := by
  induction t generalizing p rounds with
  | null => exact absurd rfl hne
  | node tag length value child next _ ih =>
    obtain ⟨rounds, rfl⟩ : ∃ k, rounds = k + 1 := ⟨rounds - 1, by simp only [nodes] at hr; omega⟩
    simp only [nodes] at hr
    apply Triple.ex
    intro c
    apply Triple.ex
    intro n
    apply Triple.assume fun _ => treeAt_links
    intro ⟨_, _, hn⟩
    rw [Nodes.lastSibling]
    apply Triple.load
    by_cases hn0 : n = 0
    · rw [if_neg (not_not.mpr hn0), hn0, hn.mp hn0, treeAt_null, mul_one]
      exact Triple.pure p fun f h => segAt_last h
    · have hnext : next ≠ .null := fun h => hn0 (hn.mpr h)
      rw [if_pos hn0, ← mul_assoc, mul_comm]
      exact ((ih n rounds hnext (by omega)).frame _).post fun q f h => segAt_more hnext h

theorem ttlvAppend_assoc (t u v : Ttlv) :
    ttlvAppend (ttlvAppend t u) v = ttlvAppend t (ttlvAppend u v) := by
  induction t with
  | null => rfl
  | node tag length value child next _ ih => simp only [ttlvAppend, ih]

theorem ttlvAppend_null (t : Ttlv) : ttlvAppend t .null = t := by
  induction t with
  | null => rfl
  | node tag length value child next _ ih => simp only [ttlvAppend, ih]

theorem nodes_append (t u : Ttlv) : nodes (ttlvAppend t u) = nodes t + nodes u := by
  induction t with
  | null => exact (Nat.zero_add _).symm
  | node tag length value child next _ ih =>
    simp only [ttlvAppend, nodes, ih]
    omega

/-- A tree with one root. -/
def Single (t : Ttlv) : Prop := t ≠ .null ∧ t.next = .null

theorem ttlvLink_cons {t : Ttlv} (h : Single t) (ts : List Ttlv) :
    ttlvLink (t :: ts) = ttlvAppend t (ttlvLink ts) := by
  obtain ⟨hne, hnext⟩ := h
  cases t with
  | null => exact absurd rfl hne
  | node tag length value child next =>
    cases hnext
    cases ts with
    | nil => rfl
    | cons u us => rfl

/-- The children linked so far: none, or a list that ends at `tail`. -/
def linkedAt (t : Ttlv) (c tail : Nat) : Assertion TtlvCell :=
  if t = .null then fact (c = 0) else segAt t c tail 0

theorem linkedAt_zero {t : Ttlv} {c tail : Nat} {f : Cells TtlvCell} (h : linkedAt t c tail f) :
    c = 0 ↔ t = .null := by
  unfold linkedAt at h
  split at h
  · rename_i ht
    exact ⟨fun _ => ht, fun _ => h.1⟩
  · obtain ⟨hne, hc⟩ := segAt_ne h
    exact ⟨fun h0 => absurd h0 hc, fun h0 => absurd h0 hne⟩

theorem linkedAt_tree {t : Ttlv} {c tail : Nat} {f : Cells TtlvCell} (h : linkedAt t c tail f) :
    treeAt t c f := by
  unfold linkedAt at h
  split at h
  · rename_i ht
    rw [ht]
    exact h
  · rw [← ttlvAppend_null t]
    apply segAt_tree
    rw [treeAt_null, mul_one]
    exact h

/-- One more child behind those linked so far. -/
theorem linkedAt_more {t u : Ttlv} {c tail r : Nat} {f : Cells TtlvCell} (hu : Single u)
    (h : (segAt t c tail r * treeAt u r) f) : linkedAt (ttlvAppend t u) c r f := by
  have hseg : segAt (ttlvAppend t u) c r 0 f := segAt_seg (Assertion.sep_mono_right
    (fun f h => treeAt_seg hu.1 hu.2 h) h)
  unfold linkedAt
  rw [if_neg (segAt_ne hseg).1]
  exact hseg

/-- The arguments of `ttlv_append_child`, each a tree with one root. -/
def argsAt (args : List (Nat × Ttlv)) : Assertion TtlvCell :=
  (args.map fun a => treeAt a.2 a.1).prod

theorem linkChildren_spec (args : List (Nat × Ttlv)) (hargs : ∀ a ∈ args, Single a.2) (t : Ttlv)
    (tag length : Nat) (value : TtlvValue) (p c n tail : Nat) :
    Triple (pt p (⟨tag, length, value, c, n⟩ : TtlvCell) * (linkedAt t c tail * argsAt args))
      (Nodes.linkChildren p (args.map Prod.fst) tail) fun _ =>
        ex fun c => pt p ⟨tag, length, value, c, n⟩ *
          treeAt (ttlvAppend t (ttlvLink (args.map Prod.snd))) c := by
  induction args generalizing t c tail with
  | nil =>
    apply Triple.pure
    intro f h
    refine ⟨c, ?_⟩
    rw [argsAt, List.map_nil, List.prod_nil, mul_one] at h
    rw [List.map_nil, ttlvLink, ttlvAppend_null]
    exact Assertion.sep_mono_right (fun f h => linkedAt_tree h) h
  | cons a args ih =>
    obtain ⟨r, u⟩ := a
    have hu : Single u := hargs (r, u) List.mem_cons_self
    have hrest : ∀ a ∈ args, Single a.2 := fun a ha => hargs a (List.mem_cons_of_mem _ ha)
    simp only [List.map_cons, ttlvLink_cons hu, ← ttlvAppend_assoc]
    have hsplit : argsAt ((r, u) :: args) = treeAt u r * argsAt args := List.prod_cons
    rw [hsplit, Nodes.linkChildren]
    have hnull : ∀ f, (pt p (⟨tag, length, value, c, n⟩ : TtlvCell) *
        (linkedAt t c tail * (treeAt u r * argsAt args))) f → r ≠ 0 ∧ (c = 0 ↔ t = .null) := by
      rintro f ⟨_, _, -, -, -, _, _, -, -, hl, _, _, -, -, hr, -⟩
      exact ⟨fun h0 => hu.1 ((treeAt_zero hr).mp h0), linkedAt_zero hl⟩
    apply Triple.assume hnull
    intro ⟨hr0, hc⟩
    rw [if_neg hr0]
    apply Triple.load
    by_cases hc0 : c = 0
    · have ht := hc.mp hc0
      rw [if_pos hc0, ht, linkedAt, if_pos rfl, Assertion.fact_true hc0, one_mul]
      apply Triple.store
      apply (ih hrest u r r).conseq _ fun _ f h => h
      intro f h
      refine Assertion.sep_mono_right (fun f h => Assertion.sep_mono (fun f h => ?_) h) h
      unfold linkedAt
      rw [if_neg hu.1]
      exact treeAt_seg hu.1 hu.2 h
    · have ht : t ≠ .null := fun h => hc0 (hc.mpr h)
      rw [if_neg hc0, linkedAt, if_neg ht, mul_left_comm]
      apply (setNext_spec t c tail 0 r).call
      intro _
      apply (ih hrest (ttlvAppend t u) c r).conseq _ fun _ f h => h
      intro f h
      rw [mul_left_comm, ← mul_assoc _ _ (argsAt args)] at h
      refine Assertion.sep_mono_right (fun f h => Assertion.sep_mono (fun f h => ?_) h) h
      exact linkedAt_more hu h

/-- `ttlv_append_child` on a node and arguments that are single trees. -/
theorem ttlvAppendChild_spec (head : Ttlv) (p rounds : Nat) (args : List (Nat × Ttlv))
    (hhead : head ≠ .null) (hr : nodes head ≤ rounds) (hargs : ∀ a ∈ args, Single a.2) :
    Triple (treeAt head p * argsAt args) (Nodes.ttlvAppendChild rounds p (args.map Prod.fst))
      fun r => fact (r = p) * treeAt (ttlvAppendChild head (args.map Prod.snd)) p := by
  cases head with
  | null => exact absurd rfl hhead
  | node tag length value child next =>
    simp only [nodes] at hr
    rw [treeAt, Assertion.ex_sep]
    apply Triple.ex
    intro c
    rw [Assertion.ex_sep]
    apply Triple.ex
    intro n
    have hnull : ∀ f, (pt p (⟨tag, length, value, c, n⟩ : TtlvCell) *
        (treeAt child c * treeAt next n) * argsAt args) f → (c = 0 ↔ child = .null) := by
      rintro f ⟨_, _, -, -, h, -⟩
      exact (treeAt_links h).2.1
    apply Triple.assume hnull
    intro hc
    rw [mul_assoc]
    apply Triple.load
    have hfinish : ∀ tail, Triple
        (pt p (⟨tag, length, value, c, n⟩ : TtlvCell) * (linkedAt child c tail * argsAt args) *
          treeAt next n)
        (Nodes.linkChildren p (args.map Prod.fst) tail >>= fun _ => pure p)
        fun r => fact (r = p) *
          treeAt (ttlvAppendChild (.node tag length value child next) (args.map Prod.snd)) p := by
      intro tail
      apply (linkChildren_spec args hargs child tag length value p c n tail).call
      intro _
      apply Triple.pure
      intro f h
      rw [Assertion.fact_true rfl, one_mul]
      rw [Assertion.ex_sep] at h
      obtain ⟨c', h⟩ := h
      rw [mul_assoc] at h
      exact ⟨c', n, h⟩
    by_cases hc0 : c = 0
    · rw [if_pos hc0]
      apply (hfinish 0).conseq _ fun _ f h => h
      intro f h
      have hl : linkedAt child c 0 = treeAt child c := by
        rw [linkedAt, hc.mp hc0, if_pos rfl]
        rfl
      rwa [hl, mul_assoc, mul_assoc, mul_comm (argsAt args), ← mul_assoc (treeAt child c)]
    · have hchild : child ≠ .null := fun h => hc0 (hc.mpr h)
      rw [if_neg hc0, mul_left_comm, mul_assoc]
      apply (lastSibling_spec child c rounds hchild (by omega)).call
      intro tail
      apply (hfinish tail).conseq _ fun _ f h => h
      intro f h
      have hl : linkedAt child c tail = segAt child c tail 0 := if_neg hchild
      rw [hl, ← mul_assoc (pt _ _)]
      rwa [mul_left_comm, mul_comm (treeAt next n), mul_left_comm, ← mul_assoc] at h

/-! ## Size and encoding -/

theorem toInt32_add_right (a b : Int) : toInt32 (a + toInt32 b) = toInt32 (a + b) := by
  unfold toInt32
  exact Int.add_bmod_bmod

theorem toInt32_add_left (a b : Int) : toInt32 (toInt32 a + b) = toInt32 (a + b) := by
  rw [Int.add_comm, toInt32_add_right, Int.add_comm]

theorem toInt32_toInt32 (a : Int) : toInt32 (toInt32 a) = toInt32 a := by
  unfold toInt32
  exact Int.bmod_bmod

/-- The size of one node with what is below it. -/
def ownSize (length : Nat) (value : TtlvValue) (child : Ttlv) : Int :=
  if value = .struct then toInt32 (tagHdrSize + ttlvCalcSizeEx child false)
  else toInt32 (tagHdrSize + round8 length)

theorem ttlvCalcSizeEx_node (tag length : Nat) (value : TtlvValue) (child next : Ttlv)
    (curTagOnly : Bool) :
    ttlvCalcSizeEx (.node tag length value child next) curTagOnly =
      if curTagOnly then ownSize length value child
      else toInt32 (ownSize length value child + ttlvCalcSizeEx next false) := by
  cases value <;> simp only [ttlvCalcSizeEx, ownSize, reduceCtorEq, if_true, if_false]

theorem toInt32_ownSize (length : Nat) (value : TtlvValue) (child : Ttlv) :
    toInt32 (ownSize length value child) = ownSize length value child := by
  unfold ownSize
  split <;> exact toInt32_toInt32 _

/-- The size added up so far and the size of the rest. -/
theorem calcLoop_spec (t : Ttlv) (p rounds : Nat) (curTagOnly : Bool) (size : Int)
    (hsize : toInt32 size = size) (hr : nodes t < rounds) :
    Triple (treeAt t p) (Nodes.calcLoop rounds p curTagOnly size) fun r =>
      fact (r = toInt32 (size + ttlvCalcSizeEx t curTagOnly)) * treeAt t p := by
  induction t generalizing p rounds curTagOnly size with
  | null =>
    obtain ⟨rounds, rfl⟩ : ∃ k, rounds = k + 1 := ⟨rounds - 1, by omega⟩
    apply Triple.assume fun _ => treeAt_zero
    intro hp
    rw [Nodes.calcLoop, if_pos (hp.mpr rfl)]
    apply Triple.pure
    intro f h
    rw [ttlvCalcSizeEx, Int.add_zero, hsize, Assertion.fact_true rfl, one_mul]
    exact h
  | node tag length value child next ihc ihn =>
    obtain ⟨rounds, rfl⟩ : ∃ k, rounds = k + 1 := ⟨rounds - 1, by omega⟩
    simp only [nodes] at hr
    apply Triple.ex
    intro c
    apply Triple.ex
    intro n
    apply Triple.assume fun _ => treeAt_links
    intro hlinks
    have hp := hlinks.1
    rw [Nodes.calcLoop, if_neg hp]
    apply Triple.load
    have hrest : ∀ own, own = ownSize length value child → Triple
        (pt p (⟨tag, length, value, c, n⟩ : TtlvCell) * (treeAt child c * treeAt next n))
        (if curTagOnly then pure (toInt32 (size + own))
          else Nodes.calcLoop rounds n curTagOnly (toInt32 (size + own)))
        fun r => fact (r = toInt32 (size + ttlvCalcSizeEx (.node tag length value child next)
          curTagOnly)) * treeAt (.node tag length value child next) p := by
      intro own hown
      rw [ttlvCalcSizeEx_node]
      cases curTagOnly with
      | true =>
        apply Triple.pure
        intro f h
        rw [hown, if_pos rfl, Assertion.fact_true rfl, one_mul]
        exact ⟨c, n, h⟩
      | false =>
        rw [← mul_assoc, mul_comm]
        apply ((ihn n rounds false _ (toInt32_toInt32 _) (by omega)).frame _).post
        intro r f h
        rw [mul_assoc, Assertion.fact_sep] at h
        obtain ⟨hval, h⟩ := h
        rw [if_neg (by simp), Assertion.fact_sep]
        constructor
        · rw [hval, hown, toInt32_add_right, toInt32_add_left, Int.add_assoc]
        · rw [mul_comm, mul_assoc] at h
          exact ⟨c, n, h⟩
    simp only
    split
    · rename_i hv
      rw [mul_left_comm]
      apply (ihc c rounds false 0 (by simp [toInt32]) (by omega)).call
      intro inner
      rw [mul_assoc]
      apply Triple.fact
      intro hinner
      rw [mul_left_comm]
      apply hrest
      rw [ownSize, if_pos hv, hinner, zero_add, toInt32_add_right]
    · rename_i hv
      apply hrest
      rw [ownSize, if_neg hv]

/-- `ttlv_calc_size_ex` returns the size of the tree and changes nothing. -/
theorem ttlvCalcSizeEx_spec (t : Ttlv) (p rounds : Nat) (curTagOnly : Bool) (hr : nodes t < rounds) :
    Triple (treeAt t p) (Nodes.ttlvCalcSizeEx rounds p curTagOnly) fun r =>
      fact (r = ttlvCalcSizeEx t curTagOnly) * treeAt t p := by
  have hzero : toInt32 0 = 0 := by simp [toInt32]
  apply (calcLoop_spec t p rounds curTagOnly 0 hzero hr).post
  intro r f h
  have hnorm : toInt32 (0 + ttlvCalcSizeEx t curTagOnly) = ttlvCalcSizeEx t curTagOnly := by
    rw [zero_add]
    cases t with
    | null => exact hzero
    | node tag length value child next =>
      rw [ttlvCalcSizeEx_node]
      split
      · exact toInt32_ownSize length value child
      · exact toInt32_toInt32 _
  rwa [hnorm] at h

/-- What `ttlv_encode` does to the octets of one node behind its tag. -/
def ownWritten (length : Nat) (value : TtlvValue) (child : Ttlv) (buf : Bytes) (pos lim : Nat) :
    Option Nat × Bytes :=
  if value = .struct then
    match ttlvEncode child buf (pos + 8) lim with
    | (none, buf) => (none, buf)
    | (some ret, buf) => (some ret, writeAt buf (pos + 4) (beEncode 4 ret))
  else ttlvValueHton value length (writeAt buf (pos + 4) (beEncode 4 length)) (pos + 8)
    (lim - (pos + 8))

theorem ttlvEncode_node (tag length : Nat) (value : TtlvValue) (child next : Ttlv) (buf : Bytes)
    (pos lim : Nat) :
    ttlvEncode (.node tag length value child next) buf pos lim =
      if pos + tagHdrSize > lim then (none, buf)
      else
        match ownWritten length value child (writeAt buf pos (beEncode 4 (tag * 256 + value.type)))
          pos lim with
        | (none, buf) => (none, buf)
        | (some ret, buf) =>
          match ttlvEncode next buf (pos + 8 + ret) lim with
          | (none, buf) => (none, buf)
          | (some rest, buf) => (some (8 + ret + rest), buf) := by
  by_cases hlim : pos + tagHdrSize > lim
  · rw [if_pos hlim, ttlvEncode, if_pos hlim]
  rw [if_neg hlim, ttlvEncode, if_neg hlim]
  cases value with
  | struct =>
    rw [ownWritten, if_pos rfl]
    dsimp only
    rcases ttlvEncode child _ _ _ with ⟨_ | ret, written⟩ <;> rfl
  | _ =>
    rw [ownWritten, if_neg (by simp)]
    dsimp only
    rcases ttlvValueHton _ length _ _ _ with ⟨_ | ret, written⟩ <;> rfl

/-- Where `next_buf` stands when the call returns. -/
def endsAt (pos : Nat) (r : Option Nat × Bytes) : Option Nat × Bytes :=
  (r.1.map fun ret => pos + ret, r.2)

theorem encodeLoop_spec (t : Ttlv) (p rounds : Nat) (buf : Bytes) (pos lim : Nat)
    (hr : nodes t < rounds) :
    Triple (treeAt t p) (Nodes.encodeLoop rounds p buf pos lim) fun r =>
      fact (r = endsAt pos (ttlvEncode t buf pos lim)) * treeAt t p := by
  induction t generalizing p rounds buf pos with
  | null =>
    obtain ⟨rounds, rfl⟩ : ∃ k, rounds = k + 1 := ⟨rounds - 1, by omega⟩
    apply Triple.assume fun _ => treeAt_zero
    intro hp
    rw [Nodes.encodeLoop, if_pos (hp.mpr rfl)]
    apply Triple.pure
    intro f h
    rw [Assertion.fact_sep]
    exact ⟨rfl, h⟩
  | node tag length value child next ihc ihn =>
    obtain ⟨rounds, rfl⟩ : ∃ k, rounds = k + 1 := ⟨rounds - 1, by omega⟩
    simp only [nodes] at hr
    apply Triple.ex
    intro c
    apply Triple.ex
    intro n
    apply Triple.assume fun _ => treeAt_links
    intro ⟨hp, _, _⟩
    rw [Nodes.encodeLoop, if_neg hp]
    apply Triple.load
    simp only [ttlvEncode_node]
    split
    · apply Triple.pure
      intro f h
      rw [Assertion.fact_sep]
      exact ⟨rfl, c, n, h⟩
    generalize writeAt buf pos (beEncode 4 (tag * 256 + value.type)) = buf'
    have hrest : ∀ written, written = ownWritten length value child buf' pos lim → Triple
        (pt p (⟨tag, length, value, c, n⟩ : TtlvCell) * (treeAt child c * treeAt next n))
        (match written with
          | (none, buf) => pure (none, buf)
          | (some ret, buf) => Nodes.encodeLoop rounds n buf (pos + 8 + ret) lim)
        fun r => fact (r = endsAt pos
          (match ownWritten length value child buf' pos lim with
          | (none, buf) => (none, buf)
          | (some ret, buf) =>
            match ttlvEncode next buf (pos + 8 + ret) lim with
            | (none, buf) => (none, buf)
            | (some rest, buf) => (some (8 + ret + rest), buf))) *
          treeAt (.node tag length value child next) p := by
      intro written hwritten
      rw [← hwritten]
      obtain ⟨_ | ret, buf''⟩ := written
      · apply Triple.pure
        intro f h
        rw [Assertion.fact_sep]
        exact ⟨rfl, c, n, h⟩
      · rw [← mul_assoc, mul_comm]
        apply ((ihn n rounds buf'' (pos + 8 + ret) (by omega)).frame _).post
        intro r f h
        rw [mul_assoc, Assertion.fact_sep] at h
        obtain ⟨hval, h⟩ := h
        rw [Assertion.fact_sep]
        constructor
        · rw [hval]
          simp only
          rcases ttlvEncode next buf'' _ lim with ⟨_ | rest, buf₃⟩
          · rfl
          · simp only [endsAt, Option.map_some, Nat.add_assoc]
        · rw [mul_comm, mul_assoc] at h
          exact ⟨c, n, h⟩
    split
    · rename_i hv
      rw [mul_left_comm]
      apply (ihc c rounds buf' (pos + 8) (by omega)).call
      intro inner
      rw [mul_assoc]
      apply Triple.fact
      intro hinner
      rw [mul_left_comm]
      have hown : ownWritten length value child buf' pos lim =
          match ttlvEncode child buf' (pos + 8) lim with
          | (none, buf) => (none, buf)
          | (some ret, buf) => (some ret, writeAt buf (pos + 4) (beEncode 4 ret)) := if_pos hv
      subst hinner
      rcases hchild : ttlvEncode child buf' (pos + 8) lim with ⟨_ | ret, buf''⟩
      · rw [hchild] at hown
        exact hrest (none, buf'') hown.symm
      · rw [hchild] at hown
        have hret : pos + 8 + ret - (pos + 8) = ret := by omega
        have hstep := hrest (some ret, writeAt buf'' (pos + 4) (beEncode 4 ret)) hown.symm
        rw [← hret] at hstep
        exact hstep
    · rename_i hv
      apply hrest
      exact (if_neg hv).symm

/-- `ttlv_encode` writes what the encoding of the tree is and changes no node. -/
theorem ttlvEncode_spec (t : Ttlv) (p rounds : Nat) (buf : Bytes) (pos lim : Nat)
    (hr : nodes t < rounds) :
    Triple (treeAt t p) (Nodes.ttlvEncode rounds p buf pos lim) fun r =>
      fact (r = ttlvEncode t buf pos lim) * treeAt t p := by
  rw [← mul_one (treeAt t p)]
  apply (encodeLoop_spec t p rounds buf pos lim hr).call
  intro r
  rw [mul_assoc]
  apply Triple.fact
  intro hval
  apply Triple.pure
  intro f h
  rw [Assertion.fact_sep]
  refine ⟨?_, h⟩
  rw [hval]
  rcases ttlvEncode t buf pos lim with ⟨_ | ret, buf'⟩
  · rfl
  · simp [endsAt]

end Sexpect.Guarantees
