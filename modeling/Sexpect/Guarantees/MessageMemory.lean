import Sexpect.Guarantees.NodeTrees

/-!
# The life of a message in memory

A message that goes out is built node by node, sent and given back.  What reaches the
descriptor is what `Sexpect.Source.msgSend` sends for the tree with all the children of all the
calls of `ttlv_append_child`, and memory is as it was before.
-/
namespace Sexpect.Guarantees
open Sexpect.Lib Sexpect.Source
open Sexpect.Source.Nodes (TtlvCell Args)

open Assertion (pt fact ex)

/-- The nodes of the arguments of a call. -/
def argNodes (args : Args) : List Ttlv := args.map fun a => ttlvNew a.1 a.2.1 a.2.2

theorem argNodes_single (args : Args) : ∀ t ∈ argNodes args, Single t := by
  intro t ht
  obtain ⟨a, -, rfl⟩ := List.mem_map.mp ht
  exact ⟨by simp [ttlvNew], rfl⟩

theorem ttlvLink_append {ts us : List Ttlv} (hts : ∀ t ∈ ts, Single t) :
    ttlvLink (ts ++ us) = ttlvAppend (ttlvLink ts) (ttlvLink us) := by
  induction ts with
  | nil => rfl
  | cons t ts ih =>
    have ht : Single t := hts t List.mem_cons_self
    have hrest := ih fun u hu => hts u (List.mem_cons_of_mem _ hu)
    rw [List.cons_append, ttlvLink_cons ht, hrest, ttlvLink_cons ht, ttlvAppend_assoc]

/-- Two calls one after the other link what one call with all the arguments links. -/
theorem ttlvAppendChild_append {head : Ttlv} {ts us : List Ttlv} (hts : ∀ t ∈ ts, Single t) :
    ttlvAppendChild (ttlvAppendChild head ts) us = ttlvAppendChild head (ts ++ us) := by
  cases head with
  | null => rfl
  | node tag length value child next =>
    simp only [ttlvAppendChild, ttlvLink_append hts, ttlvAppend_assoc]

/-! ## Building -/

/-- A new node. -/
theorem treeAt_new {p tag length : Nat} {value : TtlvValue} {f : Cells TtlvCell}
    (h : pt p (⟨tag % 2 ^ 24, length, value, 0, 0⟩ : TtlvCell) f) :
    treeAt (ttlvNew tag value length) p f := by
  apply Assertion.ex_intro 0
  apply Assertion.ex_intro 0
  rw [treeAt_null, mul_one, mul_one]
  exact h

/-- Arguments `as` at the addresses `ps`. -/
def argsHeld (args : Args) (ps : List Nat) : Assertion TtlvCell :=
  fact (ps.length = args.length) * argsAt (ps.zip (argNodes args))

theorem newArgs_spec (A : Allocator) (args : Args) :
    Triple 1 (Nodes.newArgs A args) (argsHeld args) := by
  induction args with
  | nil =>
    apply Triple.pure
    intro f h
    exact Assertion.fact_sep.mpr ⟨rfl, h⟩
  | cons a args ih =>
    obtain ⟨tag, value, length⟩ := a
    rw [Nodes.newArgs, Nodes.ttlvNew]
    apply Triple.alloc
    intro p _
    rw [mul_comm]
    apply ih.call
    intro ps
    rw [argsHeld, mul_assoc]
    apply Triple.fact
    intro hlen
    apply Triple.pure
    intro f h
    rw [mul_comm] at h
    have hsplit : argsAt ((p :: ps).zip (argNodes ((tag, value, length) :: args))) =
        treeAt (ttlvNew tag value length) p * argsAt (ps.zip (argNodes args)) := List.prod_cons
    rw [argsHeld, hsplit]
    apply Assertion.fact_sep.mpr
    refine ⟨by simp [hlen], ?_⟩
    exact Assertion.sep_mono (fun f h => treeAt_new h) h

theorem zip_args {args : Args} {ps : List Nat} (h : ps.length = args.length) :
    (ps.zip (argNodes args)).map Prod.fst = ps ∧
      (ps.zip (argNodes args)).map Prod.snd = argNodes args := by
  have hlen : (argNodes args).length = args.length := List.length_map _
  exact ⟨List.map_fst_zip (by omega), List.map_snd_zip (by omega)⟩

theorem nodes_link (args : Args) : nodes (ttlvLink (argNodes args)) = args.length := by
  induction args with
  | nil => rfl
  | cons a args ih =>
    have hcons : argNodes (a :: args) = ttlvNew a.1 a.2.1 a.2.2 :: argNodes args := List.map_cons
    have hone : nodes (ttlvNew a.1 a.2.1 a.2.2) = 1 := rfl
    rw [hcons, ttlvLink_cons ⟨by simp [ttlvNew], rfl⟩, nodes_append, hone, ih, List.length_cons,
      Nat.add_comm]

theorem nodes_appendChild (head : Ttlv) (args : Args) (hhead : head ≠ .null) :
    nodes (ttlvAppendChild head (argNodes args)) = nodes head + args.length := by
  cases head with
  | null => exact absurd rfl hhead
  | node tag length value child next =>
    simp only [ttlvAppendChild, nodes, nodes_append, nodes_link]
    omega

theorem appendCalls_spec (A : Allocator) (calls : List Args) (head : Ttlv) (p rounds : Nat)
    (hhead : head ≠ .null) (hr : nodes head + calls.flatten.length ≤ rounds) :
    Triple (treeAt head p) (Nodes.appendCalls A rounds p calls) fun _ =>
      treeAt (ttlvAppendChild head (argNodes calls.flatten)) p := by
  induction calls generalizing head with
  | nil =>
    apply Triple.pure
    intro f h
    cases head with
    | null => exact absurd rfl hhead
    | node tag length value child next =>
      have hsame : ttlvAppendChild (.node tag length value child next) (argNodes []) =
          .node tag length value child next := by
        simp only [argNodes, List.map_nil, ttlvAppendChild, ttlvLink, ttlvAppend_null]
      rw [List.flatten_nil, hsame]
      exact h
  | cons args calls ih =>
    rw [List.flatten_cons, List.length_append] at hr
    rw [Nodes.appendCalls, ← one_mul (treeAt head p)]
    apply (newArgs_spec A args).call
    intro ps
    rw [argsHeld, mul_assoc]
    apply Triple.fact
    intro hlen
    obtain ⟨hfst, hsnd⟩ := zip_args hlen
    have hargs : ∀ a ∈ ps.zip (argNodes args), Single a.2 := by
      intro a ha
      exact argNodes_single args a.2 (List.of_mem_zip ha).2
    have happend := ttlvAppendChild_spec head p rounds (ps.zip (argNodes args)) hhead (by omega)
      hargs
    rw [hfst, hsnd] at happend
    rw [mul_comm]
    apply happend.bind
    intro r
    apply Triple.fact
    intro _
    have hne : ttlvAppendChild head (argNodes args) ≠ .null := by
      cases head with
      | null => exact absurd rfl hhead
      | node tag length value child next => simp [ttlvAppendChild]
    apply (ih _ hne (by rw [nodes_appendChild head args hhead]; omega)).post
    intro _ f h
    have hall : argNodes (args :: calls).flatten = argNodes args ++ argNodes calls.flatten := by
      rw [List.flatten_cons]
      exact List.map_append
    rw [hall, ← ttlvAppendChild_append (argNodes_single args)]
    exact h

/-! ## Sending -/

theorem msgSend_spec (t : Ttlv) (p rounds : Nat) (buf : Bytes) (fd : List WriteEvent)
    (hr : nodes t < rounds) :
    Triple (treeAt t p) (Nodes.msgSend rounds buf fd p) fun r =>
      fact (r = msgSend buf fd t) * treeAt t p := by
  apply (ttlvCalcSizeEx_spec t p rounds false hr).bind
  intro size
  apply Triple.fact
  intro hsize
  have hsize : size = ttlvCalcSize t := hsize
  unfold msgSend
  rw [← hsize]
  dsimp only
  split
  · exact Triple.pure _ fun f h => Assertion.fact_sep.mpr ⟨rfl, h⟩
  apply (ttlvEncode_spec t p rounds buf 0 passMaxMsg hr).bind
  intro encoded
  apply Triple.fact
  intro hencoded
  rw [← hencoded]
  obtain ⟨_ | ret, buf⟩ := encoded
  · exact Triple.pure _ fun f h => Assertion.fact_sep.mpr ⟨rfl, h⟩
  dsimp only
  split
  · exact Triple.pure _ fun f h => Assertion.fact_sep.mpr ⟨rfl, h⟩
  split
  · exact Triple.pure _ fun f h => Assertion.fact_sep.mpr ⟨rfl, h⟩
  · exact Triple.pure _ fun f h => Assertion.fact_sep.mpr ⟨rfl, h⟩

/-! ## The whole life -/

theorem buildSendFree_spec (A : Allocator) (buf : Bytes) (fd : List WriteEvent) (tag : Nat)
    (value : TtlvValue) (length : Nat) (calls : List Args) :
    Triple 1 (Nodes.buildSendFree A buf fd tag value length calls) fun r =>
      fact (r = msgSend buf fd
        (ttlvAppendChild (ttlvNew tag value length) (argNodes calls.flatten))) := by
  have hnew : ttlvNew tag value length ≠ .null := by simp [ttlvNew]
  have hone : nodes (ttlvNew tag value length) = 1 := rfl
  have hall : nodes (ttlvAppendChild (ttlvNew tag value length) (argNodes calls.flatten)) =
      calls.flatten.length + 1 := by
    rw [nodes_appendChild _ _ hnew, hone, Nat.add_comm]
  rw [Nodes.buildSendFree, Nodes.ttlvNew]
  apply Triple.alloc
  intro p _
  rw [mul_one]
  have happend := appendCalls_spec A calls (ttlvNew tag value length) p
    (calls.flatten.length + 2) hnew (by omega)
  apply (happend.conseq (fun f h => treeAt_new h) fun _ _ h => h).bind
  intro _
  apply (msgSend_spec _ p _ buf fd (by omega)).bind
  intro result
  apply Triple.fact
  intro hresult
  apply (freeLoop_frees _ p _ (by omega)).bind
  intro _
  apply Triple.pure
  intro f h
  exact ⟨hresult, h⟩

/-- A message that is built with any number of calls of `ttlv_append_child`, sent and given
back: the calls of the system see what `msg_send` does on the tree with all the children, and
memory is as it was before. -/
theorem build_send_free (A : Allocator) (m : Memory TtlvCell) (buf : Bytes) (fd : List WriteEvent)
    (tag : Nat) (value : TtlvValue) (length : Nat) (calls : List Args) :
    ∃ m', Nodes.buildSendFree A buf fd tag value length calls m = some (msgSend buf fd
        (ttlvAppendChild (ttlvNew tag value length) (argNodes calls.flatten)), m') ∧
      m'.cells = m.cells := by
  have hstart : (1 * Assertion.exactly m.cells) m.cells := by
    rw [one_mul]
    rfl
  obtain ⟨r, m', hrun, hend⟩ := buildSendFree_spec A buf fd tag value length calls m _ hstart
  rw [Assertion.fact_sep] at hend
  obtain ⟨rfl, hsame⟩ := hend
  exact ⟨m', hrun, hsame⟩

end Sexpect.Guarantees
