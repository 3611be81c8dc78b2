import Mathlib.Data.Fintype.EquivFin
import Sexpect.Guarantees.NodeTrees
import Sexpect.Guarantees.PartialTrees

/-!
# What a decode leaves in memory

`ttlv_decode` on memory builds the tree that `Sexpect.Source.ttlvDecode` names and leaves it in
`*head`.  When it gives up, nodes can stay allocated that no pointer leads to: a node whose
value area did not fit (proto.c:512-515) and every struct node around a failure
(proto.c:520-524).  `lostTrees` are these; there are none if and only if the decode succeeded
or gave up on a header of the outermost level, so that with the tree of `*head` given back
memory is as it was before exactly then.

`ttlv_new` sizes a node by its length field, which for an INT, LONG or BOOL can be anything
(`Sexpect.Guarantees.Labelled`), and `ttlv_value_ntoh` stores the whole value.  `Overruns` are the
buffers on which it stores behind the node.
-/
namespace Sexpect.Guarantees
open Sexpect.Lib Sexpect.Source
open Sexpect.Source.Nodes (TtlvCell)

open Assertion (pt fact ex)

def succeeded : DecodeResult → Bool
  | .done _ => true
  | .freed => false
  | .kept _ => false

theorem not_succeeded {r : DecodeResult} (h : ¬ ∃ m, r = .done m) : succeeded r = false := by
  cases r with
  | done m => exact absurd ⟨m, rfl⟩ h
  | freed => rfl
  | kept m => rfl

/-- `*head` after a loop that had linked `t` before. -/
def headAfter (t : Ttlv) : DecodeResult → Ttlv
  | .done m => ttlvAppend t m
  | .freed => .null
  | .kept m => ttlvAppend t m

/-- The loop comes to an INT, LONG or BOOL whose area is there and whose length field is smaller
than its value. -/
inductive Overruns : Bytes → Prop
  | here (tag type length : Nat) (body : Bytes) : Checked tag type length body → Scalar type →
      8 ≤ body.length → length < scalarLength type → Overruns (header tag type length ++ body)
  | leaf (tag type length : Nat) (body : Bytes) (value : TtlvValue) (ret : Nat) :
      Checked tag type length body → type ≠ 6 →
      ttlvValueNtoh type length body = some (value, ret) → Overruns (body.drop ret) →
      Overruns (header tag type length ++ body)
  | inside (tag length : Nat) (body : Bytes) : Checked tag 6 length body →
      Overruns (body.take length) → Overruns (header tag 6 length ++ body)
  | struct (tag length : Nat) (body : Bytes) (child : Ttlv) : Checked tag 6 length body →
      length < 2 ^ 31 → Carries (body.take length) child → Overruns (body.drop length) →
      Overruns (header tag 6 length ++ body)

/-- The trees nothing points to when the loop of `ttlv_decode` returns, on buffers of fewer than
`2 ^ 31` octets. -/
def lostTrees : Nat → Bytes → List Ttlv
  | 0, _ => []
  | rounds + 1, buf =>
    if buf.length < tagHdrSize then []
    else
      let tagtype := beDecode (buf.take 4)
      let tag := tagtype / 256
      let type := tagtype % 256
      if type = 0 ∨ type ≥ 7 then []
      else
        let length := beDecode ((buf.drop 4).take 4)
        let rest := buf.drop 8
        if ¬ ttlvValidLen tagtype length then []
        else if rest.length < length then []
        else if type ≠ 6 then
          match ttlvValueNtoh type length rest with
          | none => [.node tag length (Nodes.zeroValue type length) .null .null]
          | some (_, ret) => lostTrees rounds (rest.drop ret)
        else
          match ttlvDecodeLoop rounds (rest.take length) with
          | .done _ => lostTrees rounds (rest.drop length)
          | r => .node tag 0 .struct (headAfter .null r) .null :: lostTrees rounds (rest.take length)

/-! ## One round -/

theorem Refused.lost {b : Bytes} (h : Refused b) (rounds : Nat) : lostTrees rounds b = [] := by
  cases rounds with
  | zero => rfl
  | succ rounds =>
    unfold lostTrees
    obtain h | h | h | h := h
    · rw [if_pos h]
    · simp only [if_pos h, ite_self]
    · simp only [if_pos h, ite_self]
    · simp only [if_pos h, ite_self]

section

variable {tag type length : Nat} {body : Bytes} {rounds : Nat}

theorem Checked.lost_cut (h : Checked tag type length body) (h6 : type ≠ 6)
    (hval : ttlvValueNtoh type length body = none) :
    lostTrees (rounds + 1) (header tag type length ++ body) =
      [.node tag length (Nodes.zeroValue type length) .null .null] := by
  obtain ⟨hhdr, h1, h2, h3, htag, htype, hty, hroom⟩ := h.fields
  rw [lostTrees, if_neg hhdr]
  simp only [h1, h2, h3, htag, htype, h.valid, if_neg hty, if_neg hroom, if_pos h6, hval, not_true,
    if_false]

theorem Checked.lost_leaf (h : Checked tag type length body) (h6 : type ≠ 6) {value : TtlvValue}
    {ret : Nat} (hval : ttlvValueNtoh type length body = some (value, ret)) :
    lostTrees (rounds + 1) (header tag type length ++ body) = lostTrees rounds (body.drop ret) := by
  obtain ⟨hhdr, h1, h2, h3, htag, htype, hty, hroom⟩ := h.fields
  rw [lostTrees, if_neg hhdr]
  simp only [h1, h2, h3, htype, h.valid, if_neg hty, if_neg hroom, if_pos h6, hval, not_true,
    if_false]

theorem Checked.lost_struct (h : Checked tag 6 length body) {child : Ttlv}
    (hchild : ttlvDecodeLoop rounds (body.take length) = .done child) :
    lostTrees (rounds + 1) (header tag 6 length ++ body) = lostTrees rounds (body.drop length) := by
  obtain ⟨hhdr, h1, h2, h3, htag, htype, hty, hroom⟩ := h.fields
  have h6 : ¬ (6 ≠ 6) := fun hne => hne rfl
  rw [lostTrees, if_neg hhdr]
  simp only [h1, h2, h3, htype, h.valid, if_neg hty, if_neg hroom, if_neg h6, hchild, not_true,
    if_false]

theorem Checked.lost_failed (h : Checked tag 6 length body)
    (hchild : ∀ child, ttlvDecodeLoop rounds (body.take length) ≠ .done child) :
    lostTrees (rounds + 1) (header tag 6 length ++ body) =
      .node tag 0 .struct (headAfter .null (ttlvDecodeLoop rounds (body.take length))) .null ::
        lostTrees rounds (body.take length) := by
  obtain ⟨hhdr, h1, h2, h3, htag, htype, hty, hroom⟩ := h.fields
  have h6 : ¬ (6 ≠ 6) := fun hne => hne rfl
  cases hresult : ttlvDecodeLoop rounds (body.take length) with
  | done child => exact absurd hresult (hchild child)
  | freed | kept =>
    rw [lostTrees, if_neg hhdr]
    simp only [h1, h2, h3, htag, htype, h.valid, if_neg hty, if_neg hroom, if_neg h6, hresult,
      not_true, if_false]

end

section

variable (A : Allocator) {tag type length frees rounds head tail : Nat} {body : Bytes}

theorem Refused.nodes {b : Bytes} (h : Refused b) (hb : 0 < b.length) :
    Nodes.decodeLoop A frees (rounds + 1) b head tail =
      (do
        Nodes.ttlvFree frees head
        pure (false, 0)) := by
  cases b with
  | nil => simp at hb
  | cons c bs =>
    unfold Nodes.decodeLoop
    obtain h | h | h | h := h
    · rw [if_pos h]
    · simp only [if_pos h, ite_self]
    · simp only [if_pos h, ite_self]
    · simp only [if_pos h, ite_self]

theorem header_cons (tag type length : Nat) (body : Bytes) :
    ∃ c bs, header tag type length ++ body = c :: bs := by
  cases hb : header tag type length ++ body with
  | nil =>
    have hlen := congrArg List.length hb
    rw [List.length_append, length_header] at hlen
    simp at hlen
  | cons c bs => exact ⟨c, bs, rfl⟩

theorem Checked.nodes_cut (h : Checked tag type length body) (h6 : type ≠ 6)
    (hval : ttlvValueNtoh type length body = none) :
    Nodes.decodeLoop A frees (rounds + 1) (header tag type length ++ body) head tail =
      (do
        let _ ← Nodes.ttlvNew A tag (Nodes.zeroValue type length) length
        pure (false, head)) := by
  obtain ⟨hhdr, h1, h2, h3, htag, htype, hty, hroom⟩ := h.fields
  obtain ⟨c, bs, hb⟩ := header_cons tag type length body
  rw [hb, Nodes.decodeLoop, ← hb, if_neg hhdr]
  simp only [h1, h2, h3, htag, htype, h.valid, if_neg hty, if_neg hroom, if_pos h6, hval, not_true,
    if_false]

theorem Checked.nodes_leaf (h : Checked tag type length body) (h6 : type ≠ 6) {value : TtlvValue}
    {ret : Nat} (hval : ttlvValueNtoh type length body = some (value, ret)) :
    Nodes.decodeLoop A frees (rounds + 1) (header tag type length ++ body) head tail =
      (do
        let new ← Nodes.ttlvNew A tag (Nodes.zeroValue type length) length
        Nodes.storeValue new value
        let head ← Nodes.linkNew head tail new
        Nodes.decodeLoop A frees rounds (body.drop ret) head new) := by
  obtain ⟨hhdr, h1, h2, h3, htag, htype, hty, hroom⟩ := h.fields
  obtain ⟨c, bs, hb⟩ := header_cons tag type length body
  rw [hb, Nodes.decodeLoop, ← hb, if_neg hhdr]
  simp only [h1, h2, h3, htag, htype, h.valid, if_neg hty, if_neg hroom, if_pos h6, hval, not_true,
    if_false]

theorem Checked.nodes_struct (h : Checked tag 6 length body) :
    Nodes.decodeLoop A frees (rounds + 1) (header tag 6 length ++ body) head tail =
      (do
        let new ← Nodes.ttlvNew A tag .struct 0
        let inner ← Nodes.decodeLoop A frees rounds (body.take length) 0 0
        let node ← Prog.load new
        Prog.store new { node with child := inner.2 }
        if ¬ inner.1 ∨ toInt32 length < 0 then do
          Nodes.ttlvFree frees head
          pure (false, 0)
        else do
          let head ← Nodes.linkNew head tail new
          Nodes.decodeLoop A frees rounds (body.drop length) head new) := by
  obtain ⟨hhdr, h1, h2, h3, htag, htype, hty, hroom⟩ := h.fields
  have h6 : ¬ (6 ≠ 6) := fun hne => hne rfl
  obtain ⟨c, bs, hb⟩ := header_cons tag 6 length body
  rw [hb, Nodes.decodeLoop, ← hb, if_neg hhdr]
  simp only [h1, h2, h3, htag, htype, h.valid, if_neg hty, if_neg hroom, if_neg h6, not_true,
    if_false]

end

/-! ## Which buffers lose nodes -/

theorem refused_nil : Refused [] := .inl (by simp [tagHdrSize])

theorem Carries.decoded {b : Bytes} {m : Ttlv} (h : Carries b m) : Decoded b m [] := by
  induction h with
  | nil => exact .nil []
  | leaf tag type length area rest value next ht h0 h6 hl hvalid hroom hval _ ih =>
    rw [List.append_assoc]
    refine .leaf tag type length (area ++ rest) value area.length next [] ?_ (by omega) hval ?_
    · exact ⟨ht, h0, by omega, hl, hvalid, hroom⟩
    · rw [List.drop_left' rfl]
      exact ih
  | struct tag body rest child next ht hl hvalid hchild _ _ ih =>
    rw [List.append_assoc]
    refine .struct tag body.length (body ++ rest) child next [] ?_ hl ?_ ?_
    · exact ⟨ht, by omega, by omega, by omega, hvalid, by rw [List.length_append]; omega⟩
    · rw [List.take_left' rfl]
      exact hchild
    · rw [List.drop_left' rfl]
      exact ih

/-- No node is lost when the loop stops behind complete nodes, at the end of the buffer or at a
header it refuses. -/
theorem Decoded.lost {b tail : Bytes} {m : Ttlv} (h : Decoded b m tail) (htail : Refused tail)
    (rounds : Nat) (hr : b.length ≤ rounds) : lostTrees rounds b = [] := by
  induction h generalizing rounds with
  | nil tail => exact htail.lost rounds
  | leaf tag type length body value ret next tail hck h6 hval _ ih =>
    rw [List.length_append, length_header] at hr
    obtain ⟨rounds, rfl⟩ : ∃ r, rounds = r + 1 := ⟨rounds - 1, by omega⟩
    rw [hck.lost_leaf h6 hval]
    exact ih htail rounds (by rw [List.length_drop]; omega)
  | struct tag length body child next tail hck _ hchild _ ih =>
    rw [List.length_append, length_header] at hr
    obtain ⟨rounds, rfl⟩ : ∃ r, rounds = r + 1 := ⟨rounds - 1, by omega⟩
    rw [hck.lost_struct (hchild.loop rounds (by rw [List.length_take]; omega))]
    exact ih htail rounds (by rw [List.length_drop]; omega)

theorem lost_of_done {rounds : Nat} {b : Bytes} {m : Ttlv} (h : ttlvDecodeLoop rounds b = .done m)
    (hr : b.length ≤ rounds) : lostTrees rounds b = [] :=
  (Carries.of_loop h).decoded.lost refused_nil rounds hr

theorem lostTrees_nil_iff (rounds : Nat) (b : Bytes) (hr : b.length ≤ rounds)
    (hb : b.length < 2 ^ 31) :
    lostTrees rounds b = [] ↔ ∃ m tail, Decoded b m tail ∧ Refused tail := by
  constructor
  · intro h
    induction rounds generalizing b with
    | zero =>
      have hb : b = [] := List.length_eq_zero_iff.mp (by omega)
      subst hb
      exact ⟨.null, [], .nil [], refused_nil⟩
    | succ rounds ih =>
      obtain hrefused | ⟨tag, type, length, body, rfl, hck⟩ := refused_or_checked b
      · exact ⟨.null, b, .nil b, hrefused⟩
      rw [List.length_append, length_header] at hr hb
      have hroom := hck.room
      by_cases h6 : type = 6
      · subst h6
        by_cases hchild : ∃ child, ttlvDecodeLoop rounds (body.take length) = .done child
        · obtain ⟨child, hchild⟩ := hchild
          rw [hck.lost_struct hchild] at h
          obtain ⟨m, tail, hreads, htail⟩ := ih _ (by rw [List.length_drop]; omega)
            (by rw [List.length_drop]; omega) h
          exact ⟨_, tail, .struct _ _ _ _ _ _ hck (by omega) (.of_loop hchild) hreads, htail⟩
        · rw [hck.lost_failed fun child hdone => hchild ⟨child, hdone⟩] at h
          cases h
      · cases hval : ttlvValueNtoh type length body with
        | none =>
          rw [hck.lost_cut h6 hval] at h
          cases h
        | some result =>
          obtain ⟨value, ret⟩ := result
          rw [hck.lost_leaf h6 hval] at h
          obtain ⟨m, tail, hreads, htail⟩ := ih _ (by rw [List.length_drop]; omega)
            (by rw [List.length_drop]; omega) h
          exact ⟨_, tail, .leaf _ _ _ _ _ _ _ _ hck h6 hval hreads, htail⟩
  · rintro ⟨m, tail, hreads, htail⟩
    exact hreads.lost htail rounds hr

/-! ## The loop -/

/-- Trees somewhere in memory. -/
def lostAt (ts : List Ttlv) : Assertion TtlvCell := (ts.map fun t => ex fun p => treeAt t p).prod

theorem lostAt_nil : lostAt [] = 1 := rfl

theorem lostAt_cons (t : Ttlv) (ts : List Ttlv) :
    lostAt (t :: ts) = (ex fun p => treeAt t p) * lostAt ts := List.prod_cons

theorem Carries.nodes_le {b : Bytes} {m : Ttlv} (h : Carries b m) : nodes m ≤ b.length := by
  induction h with
  | nil => exact Nat.zero_le _
  | leaf tag type length area rest value next ht h0 h6 hl hvalid hroom hval _ ih =>
    simp only [nodes, List.length_append, length_header]
    omega
  | struct tag body rest child next ht hl hvalid _ _ ihc ihn =>
    simp only [nodes, List.length_append, length_header]
    omega

theorem headAfter_link (t child : Ttlv) (tag length : Nat) (value : TtlvValue) (r : DecodeResult) :
    headAfter t (r.link tag length value child) =
      headAfter (ttlvAppend t (.node tag length value child .null)) r := by
  cases r with
  | done next =>
    rw [headAfter, ttlvAppend_assoc]
    rfl
  | freed => rfl
  | kept next =>
    rw [headAfter, ttlvAppend_assoc]
    rfl

theorem succeeded_link (child : Ttlv) (tag length : Nat) (value : TtlvValue) (r : DecodeResult) :
    succeeded (r.link tag length value child) = succeeded r := by
  cases r <;> rfl

/-- The new node becomes the last one that is linked. -/
theorem linkNew_spec (t u : Ttlv) (head tail new : Nat) (hu : Single u) :
    Triple (linkedAt t head tail * treeAt u new) (Nodes.linkNew head tail new) fun r =>
      linkedAt (ttlvAppend t u) r new := by
  have hnull : ∀ f, (linkedAt t head tail * treeAt u new) f → (head = 0 ↔ t = .null) := by
    rintro f ⟨_, _, -, -, hl, -⟩
    exact linkedAt_zero hl
  apply Triple.assume hnull
  intro hhead
  unfold Nodes.linkNew
  split
  · rename_i h0
    have ht := hhead.mp h0
    apply Triple.pure
    intro f h
    rw [ht, linkedAt, if_pos rfl, Assertion.fact_sep] at h
    rw [ht, ttlvAppend, linkedAt, if_neg hu.1]
    exact treeAt_seg hu.1 hu.2 h.2
  · rename_i h0
    have ht : t ≠ .null := fun h => h0 (hhead.mpr h)
    rw [linkedAt, if_neg ht]
    apply (setNext_spec t head tail 0 new).call
    intro _
    apply Triple.pure
    intro f h
    exact linkedAt_more hu h

/-- `*head` is freed. -/
theorem giveUp_spec (t : Ttlv) (R : Assertion TtlvCell) (frees head tail : Nat)
    (hf : nodes t < frees) :
    Triple (linkedAt t head tail * R)
      (do
        Nodes.ttlvFree frees head
        pure (false, 0))
      fun r => fact (r = (false, 0)) * R := by
  have hfree : Triple (linkedAt t head tail) (Nodes.ttlvFree frees head) fun _ => 1 :=
    (freeLoop_frees t head frees hf).conseq (fun _ h => linkedAt_tree h) fun _ _ h => h
  apply hfree.call
  intro _
  apply Triple.pure
  intro f h
  rw [one_mul] at h
  exact Assertion.fact_sep.mpr ⟨rfl, h⟩

/-- What the loop leaves behind in memory: the tree of `*head` and the lost trees. -/
def leaves (t : Ttlv) (result : DecodeResult) (lost : List Ttlv) (r : Bool × Nat) :
    Assertion TtlvCell :=
  fact (r.1 = succeeded result) * (treeAt (headAfter t result) r.2 * lostAt lost)

theorem leaves_intro {t : Ttlv} {result : DecodeResult} {lost : List Ttlv} {ok : Bool} {p : Nat}
    {f : Cells TtlvCell} (hok : ok = succeeded result)
    (h : (treeAt (headAfter t result) p * lostAt lost) f) : leaves t result lost (ok, p) f :=
  Assertion.fact_sep.mpr ⟨hok, h⟩

/-- One node somewhere in memory. -/
theorem lost_node {tag length p : Nat} {value : TtlvValue} {f : Cells TtlvCell}
    (h : pt p (⟨tag, length, value, 0, 0⟩ : TtlvCell) f) :
    treeAt (.node tag length value .null .null) p f := by
  apply Assertion.ex_intro 0
  apply Assertion.ex_intro 0
  rw [treeAt_null, mul_one, mul_one]
  exact h

/-- A struct node with its child. -/
theorem struct_node {child : Ttlv} {tag length c p : Nat} {value : TtlvValue} {f : Cells TtlvCell}
    (h : (pt p (⟨tag, length, value, c, 0⟩ : TtlvCell) * treeAt child c) f) :
    treeAt (.node tag length value child .null) p f := by
  apply Assertion.ex_intro c
  apply Assertion.ex_intro 0
  rw [treeAt_null, mul_one]
  exact h

theorem decodeLoop_nil (A : Allocator) (frees rounds : Nat) (t : Ttlv) (head tail : Nat) :
    Triple (linkedAt t head tail) (Nodes.decodeLoop A frees rounds [] head tail)
      (leaves t (ttlvDecodeLoop rounds []) (lostTrees rounds [])) := by
  have hlost : lostTrees rounds [] = [] := by cases rounds <;> rfl
  have hdone : ttlvDecodeLoop rounds [] = .done .null := by cases rounds <;> rfl
  rw [hlost, hdone]
  unfold Nodes.decodeLoop
  apply Triple.pure
  intro f h
  apply leaves_intro rfl
  rw [headAfter, ttlvAppend_null, lostAt_nil, mul_one]
  exact linkedAt_tree h

/-- A node is read and linked, and the loop goes on behind it. -/
theorem goOn_spec (A : Allocator) {frees rounds : Nat} {b : Bytes} {t u : Ttlv}
    {head tail new tag length : Nat} {value : TtlvValue} {child : Ttlv} {lost : List Ttlv}
    (hu : u = .node tag length value child .null)
    (ih : ∀ head, Triple (linkedAt (ttlvAppend t u) head new)
      (Nodes.decodeLoop A frees rounds b head new)
      (leaves (ttlvAppend t u) (ttlvDecodeLoop rounds b) lost)) :
    Triple (linkedAt t head tail * treeAt u new)
      (do
        let head ← Nodes.linkNew head tail new
        Nodes.decodeLoop A frees rounds b head new)
      (leaves t ((ttlvDecodeLoop rounds b).link tag length value child) lost) := by
  have hsingle : Single u := by
    rw [hu]
    exact ⟨by simp, rfl⟩
  have hresult : leaves t ((ttlvDecodeLoop rounds b).link tag length value child) lost =
      leaves (ttlvAppend t u) (ttlvDecodeLoop rounds b) lost := by
    funext r
    rw [leaves, leaves, headAfter_link, succeeded_link, hu]
  rw [hresult]
  exact (linkNew_spec t u head tail new hsingle).bind ih

/-- Behind `ttlv_new` the value is stored into the new node if it fits. -/
theorem storeValue_spec {cell : TtlvCell} {value : TtlvValue} {new : Nat} {P : Assertion TtlvCell}
    {β : Type} {f : Unit → Prog TtlvCell β} {S : β → Assertion TtlvCell}
    (hfits : cell.reach value ≤ cell.room)
    (h : Triple (pt new { cell with value := value } * P) (f ()) S) :
    Triple (pt new cell * P) (Nodes.storeValue new value >>= f) S := by
  have hstore : Triple (pt new cell * P) (Nodes.storeValue new value) fun _ =>
      pt new { cell with value := value } * P := by
    unfold Nodes.storeValue
    apply Triple.load
    rw [if_neg (Nat.not_lt.mpr hfits)]
    exact Triple.store_last fun _ h => h
  exact hstore.bind fun _ => h

theorem zeroValue_room {type : Nat} (h0 : 0 < type) (h6 : type < 6) (tag length : Nat) :
    (⟨tag, length, Nodes.zeroValue type length, 0, 0⟩ : TtlvCell).room =
      if type = 4 ∨ type = 5 then length + 1 else length := by
  obtain (rfl | rfl | rfl) | (rfl | rfl) := scalar_or_counted h0 h6 <;> rfl

/-- A scalar reaches as far as its type says, the others as far as their node. -/
theorem value_reach {tag type length ret : Nat} {body : Bytes} {value : TtlvValue}
    (h0 : 0 < type) (h6 : type < 6)
    (hval : ttlvValueNtoh type length body = some (value, ret)) :
    (⟨tag, length, Nodes.zeroValue type length, 0, 0⟩ : TtlvCell).reach value =
      if type = 4 ∨ type = 5 then length + 1 else scalarLength type := by
  obtain (rfl | rfl | rfl) | (rfl | rfl) := scalar_or_counted h0 h6
  all_goals
    simp only [ttlvValueNtoh] at hval
    split at hval
    · cases hval
    · cases hval
      rfl

theorem fits_of_not_overruns {tag type length ret : Nat} {body : Bytes} {value : TtlvValue}
    (h : Checked tag type length body) (h6 : type ≠ 6)
    (hval : ttlvValueNtoh type length body = some (value, ret))
    (hfits : Scalar type → 8 ≤ body.length → ¬ length < scalarLength type) :
    (⟨tag, length, Nodes.zeroValue type length, 0, 0⟩ : TtlvCell).reach value ≤
      (⟨tag, length, Nodes.zeroValue type length, 0, 0⟩ : TtlvCell).room := by
  have h7 := h.type_lt
  rw [zeroValue_room h.type_pos (by omega), value_reach h.type_pos (by omega) hval]
  split
  · exact le_rfl
  · rename_i hcounted
    have hs : Scalar type := (scalar_or_counted h.type_pos (by omega)).resolve_right hcounted
    have harea := ttlvValueNtoh_scalar_area hs hval
    have hroom := ttlvValueNtoh_le hval
    exact Nat.not_lt.mp (hfits hs (by omega))

theorem decodeLoop_spec (A : Allocator) (frees rounds : Nat) (b : Bytes) (t : Ttlv)
    (head tail : Nat) (hr : b.length ≤ rounds) (hf : nodes t + b.length < frees)
    (hb : b.length < 2 ^ 31) (hfits : ¬ Overruns b) :
    Triple (linkedAt t head tail) (Nodes.decodeLoop A frees rounds b head tail)
      (leaves t (ttlvDecodeLoop rounds b) (lostTrees rounds b)) := by
  induction rounds generalizing b t head tail with
  | zero =>
    have hb : b = [] := List.length_eq_zero_iff.mp (by omega)
    rw [hb]
    exact decodeLoop_nil A frees 0 t head tail
  | succ rounds ih =>
    by_cases hempty : b = []
    · rw [hempty]
      exact decodeLoop_nil A frees (rounds + 1) t head tail
    have hpos : 0 < b.length := List.length_pos_iff.mpr hempty
    obtain hrefused | ⟨tag, type, length, body, rfl, h⟩ := refused_or_checked b
    · rw [hrefused.nodes A hpos, hrefused.lost, ttlvDecodeLoop_round _ _ hpos, hrefused.round,
        ← mul_one (linkedAt t head tail)]
      apply (giveUp_spec t 1 frees head tail (by omega)).post
      intro r f h
      rw [Assertion.fact_sep] at h
      obtain ⟨rfl, h⟩ := h
      apply leaves_intro rfl
      rw [headAfter, treeAt_null, one_mul]
      exact h
    rw [List.length_append, length_header] at hr hf hb
    have htag : tag % 2 ^ 24 = tag := Nat.mod_eq_of_lt h.tag_lt
    have hroom := h.room
    by_cases h6 : type = 6
    · subst h6
      rw [h.nodes_struct A, Nodes.ttlvNew, htag]
      apply Triple.alloc
      intro new _
      have harea : (body.take length).length = length := List.length_take_of_le hroom
      have hret : ¬ toInt32 length < 0 := (toInt32_neg_iff _ h.length_lt).not.mpr (by omega)
      have hinner := ih (body.take length) .null 0 0 (by rw [harea]; omega)
        (by rw [harea]; simp only [nodes]; omega) (by rw [harea]; omega)
        fun hover => hfits (.inside _ _ _ h hover)
      rw [linkedAt, if_pos rfl, Assertion.fact_true rfl] at hinner
      rw [← one_mul (_ * _)]
      apply hinner.call
      intro inner
      rw [leaves, mul_assoc]
      apply Triple.fact
      intro hok
      rw [mul_left_comm]
      apply Triple.load
      apply Triple.store
      by_cases hchild : ∃ child, ttlvDecodeLoop rounds (body.take length) = .done child
      · obtain ⟨child, hchild⟩ := hchild
        rw [hchild] at hok ⊢
        rw [h.lost_struct hchild, h.loop_struct (by omega) hchild, lost_of_done hchild (by omega),
          if_neg (by rw [hok]; simpa [succeeded] using hret)]
        have hchildren : nodes child ≤ length := by
          have := (Carries.of_loop hchild).nodes_le
          omega
        have hnext : ∀ head, Triple
            (linkedAt (ttlvAppend t (.node tag 0 .struct child .null)) head new)
            (Nodes.decodeLoop A frees rounds (body.drop length) head new)
            (leaves (ttlvAppend t (.node tag 0 .struct child .null))
              (ttlvDecodeLoop rounds (body.drop length)) (lostTrees rounds (body.drop length))) := by
          intro head
          apply ih
          · rw [List.length_drop]
            omega
          · rw [nodes_append, List.length_drop]
            simp only [nodes]
            omega
          · rw [List.length_drop]
            omega
          · exact fun hover => hfits (.struct _ _ _ _ h (by omega) (.of_loop hchild) hover)
        apply (goOn_spec A rfl hnext).conseq _ fun _ _ h => h
        intro f hmem
        rw [lostAt_nil, mul_one, ← mul_assoc, mul_comm] at hmem
        exact Assertion.sep_mono_right (fun f h => struct_node h) hmem
      · rw [h.lost_failed fun child hdone => hchild ⟨child, hdone⟩,
          h.loop_failed fun _ child hdone => hchild ⟨child, hdone⟩,
          if_pos (.inl (by rw [hok, not_succeeded hchild]; simp))]
        rw [← mul_assoc, mul_comm]
        apply (giveUp_spec t _ frees head tail (by omega)).post
        intro r f hmem
        rw [Assertion.fact_sep] at hmem
        obtain ⟨rfl, hmem⟩ := hmem
        apply leaves_intro rfl
        rw [headAfter, treeAt_null, one_mul, lostAt_cons]
        rw [← mul_assoc] at hmem
        exact Assertion.sep_mono (fun f h => ⟨new, struct_node h⟩) hmem
    · cases hval : ttlvValueNtoh type length body with
      | none =>
        rw [h.nodes_cut A h6 hval, h.lost_cut h6 hval, h.loop_cut h6 hval, Nodes.ttlvNew, htag]
        apply Triple.alloc
        intro new _
        apply Triple.pure
        intro f hmem
        apply leaves_intro rfl
        rw [headAfter, ttlvAppend_null, lostAt_cons, lostAt_nil, mul_one, mul_comm]
        refine Assertion.sep_mono (fun f h => ?_) (Assertion.sep_mono_right (fun f h => ?_) hmem)
        · exact ⟨new, lost_node h⟩
        · exact linkedAt_tree h
      | some result =>
        obtain ⟨value, ret⟩ := result
        rw [h.nodes_leaf A h6 hval, h.lost_leaf h6 hval, h.loop_leaf h6 hval, Nodes.ttlvNew, htag]
        apply Triple.alloc
        intro new _
        have hstore := fits_of_not_overruns h h6 hval fun hs h8 hshort =>
          hfits (.here _ _ _ _ h hs h8 hshort)
        apply storeValue_spec hstore
        have hnext : ∀ head, Triple
            (linkedAt (ttlvAppend t (.node tag length value .null .null)) head new)
            (Nodes.decodeLoop A frees rounds (body.drop ret) head new)
            (leaves (ttlvAppend t (.node tag length value .null .null))
              (ttlvDecodeLoop rounds (body.drop ret)) (lostTrees rounds (body.drop ret))) := by
          intro head
          apply ih
          · rw [List.length_drop]
            omega
          · rw [nodes_append, List.length_drop]
            simp only [nodes]
            omega
          · rw [List.length_drop]
            omega
          · exact fun hover => hfits (.leaf _ _ _ _ _ _ h h6 hval hover)
        apply (goOn_spec A rfl hnext).conseq _ fun _ _ h => h
        intro f hmem
        rw [mul_comm] at hmem
        exact Assertion.sep_mono_right (fun f h => lost_node h) hmem

/-! ## A value that does not fit -/

theorem storeValue_faults {cell : TtlvCell} {value : TtlvValue} {new : Nat} {m : Memory TtlvCell}
    (hover : cell.room < cell.reach value) (hcell : m.cells new = some cell) :
    Nodes.storeValue new value m = none := by
  show (Prog.load new m).bind _ = none
  rw [Prog.load, hcell]
  show (if cell.room < cell.reach value then _ else _ : Prog TtlvCell Unit) m = none
  rw [if_pos hover]
  rfl

theorem Overruns.length_pos {b : Bytes} (h : Overruns b) : 0 < b.length := by
  cases h <;> rw [List.length_append, length_header] <;> omega

/-- The loop does not come behind such a node. -/
theorem Overruns.faults (A : Allocator) (frees rounds : Nat) {b : Bytes} (h : Overruns b)
    (hr : b.length ≤ rounds) (hf : b.length < frees) (hb : b.length < 2 ^ 31) (head tail : Nat) :
    Prog.Faults (Nodes.decodeLoop A frees rounds b head tail) := by
  induction rounds generalizing b head tail with
  | zero =>
    have hpos := h.length_pos
    omega
  | succ rounds ih =>
    cases h with
    | here tag type length body hck hs h8 hshort =>
      obtain ⟨value, hval, -⟩ := ttlvValueNtoh_scalar hs length body h8
      have hsix : type < 6 ∧ ¬ (type = 4 ∨ type = 5) := by
        unfold Scalar at hs
        omega
      rw [hck.nodes_leaf A (by omega) hval]
      apply Prog.Faults.alloc
      intro new m hcell
      show (Nodes.storeValue new value m).bind _ = none
      rw [storeValue_faults _ hcell]
      · rfl
      · rw [zeroValue_room hck.type_pos hsix.1, value_reach hck.type_pos hsix.1 hval,
          if_neg hsix.2, if_neg hsix.2]
        exact hshort
    | leaf tag type length body value ret hck h6 hval hover =>
      rw [List.length_append, length_header] at hr hf hb
      rw [hck.nodes_leaf A h6 hval]
      refine .right _ fun new => .right _ fun _ => .right _ fun head => ?_
      exact ih hover (by rw [List.length_drop]; omega) (by rw [List.length_drop]; omega)
        (by rw [List.length_drop]; omega) head new
    | inside tag length body hck hover =>
      rw [List.length_append, length_header] at hr hf hb
      rw [hck.nodes_struct A]
      refine .right _ fun new => .left ?_ _
      exact ih hover (by rw [List.length_take]; omega) (by rw [List.length_take]; omega)
        (by rw [List.length_take]; omega) 0 0
    | struct tag length body child hck hint hchild hover =>
      rw [List.length_append, length_header] at hr hf hb
      have htake : (body.take length).length ≤ body.length := by
        rw [List.length_take]
        omega
      rw [hck.nodes_struct A]
      refine .right _ fun new => ?_
      by_cases hinner : Overruns (body.take length)
      · exact .left (ih hinner (by omega) (by omega) (by omega) 0 0) _
      -- the call for the body succeeds, so that the loop comes to what is behind it
      intro m
      have hspec := decodeLoop_spec A frees rounds (body.take length) .null 0 0 (by omega)
        (by simp only [nodes]; omega) (by omega) hinner
      rw [linkedAt, if_pos rfl, Assertion.fact_true rfl, hchild.loop rounds (by omega)] at hspec
      obtain ⟨inner, m', hrun, hleaves⟩ := hspec m (Assertion.exactly m.cells)
        (by rw [one_mul]; rfl)
      rw [leaves, mul_assoc, Assertion.fact_sep] at hleaves
      show (Nodes.decodeLoop A frees rounds (body.take length) 0 0 m).bind _ = none
      rw [hrun]
      have hret : ¬ toInt32 length < 0 := (toInt32_neg_iff _ hck.length_lt).not.mpr (by omega)
      have hgoes : ¬ (¬ inner.1 = true ∨ toInt32 length < 0) := by
        rw [hleaves.1]
        simpa [succeeded] using hret
      have hrest : ∀ head, Prog.Faults
          (Nodes.decodeLoop A frees rounds (body.drop length) head new) := fun head =>
        ih hover (by rw [List.length_drop]; omega) (by rw [List.length_drop]; omega)
          (by rw [List.length_drop]; omega) head new
      have hbehind : Prog.Faults (do
          let node ← Prog.load new
          Prog.store new { node with child := inner.2 }
          if ¬ inner.1 ∨ toInt32 length < 0 then do
            Nodes.ttlvFree frees head
            pure (false, 0)
          else do
            let head ← Nodes.linkNew head tail new
            Nodes.decodeLoop A frees rounds (body.drop length) head new) := by
        rw [if_neg hgoes]
        exact .right _ fun _ => .right _ fun _ => .right _ hrest
      exact hbehind m'

theorem header_inj {tag type length tag' type' length' : Nat} {body body' : Bytes}
    (h : Checked tag type length body) (h' : Checked tag' type' length' body')
    (heq : header tag type length ++ body = header tag' type' length' ++ body') :
    tag = tag' ∧ type = type' ∧ length = length' ∧ body = body' := by
  obtain ⟨-, hword, hlen, hbody, htag, htype, -⟩ := h.fields
  obtain ⟨-, hword', hlen', hbody', htag', htype', -⟩ := h'.fields
  rw [heq] at hword hlen hbody
  rw [hword'] at hword
  rw [hlen'] at hlen
  rw [hbody'] at hbody
  exact ⟨by omega, by omega, hlen.symm, hbody.symm⟩

/-- Where a node that passes the checks can lead to such a store. -/
theorem Overruns.at_header {tag type length : Nat} {body : Bytes}
    (h : Overruns (header tag type length ++ body)) (hck : Checked tag type length body) :
    (Scalar type ∧ length < scalarLength type) ∨
      (∃ value ret, type ≠ 6 ∧ ttlvValueNtoh type length body = some (value, ret) ∧
        Overruns (body.drop ret)) ∨
      type = 6 ∧ (Overruns (body.take length) ∨ Overruns (body.drop length)) := by
  generalize hb : header tag type length ++ body = b at h
  cases h with
  | here tag' type' length' body' hck' hs _ hshort =>
    obtain ⟨rfl, rfl, rfl, rfl⟩ := header_inj hck hck' hb
    exact .inl ⟨hs, hshort⟩
  | leaf tag' type' length' body' value ret hck' h6 hval hover =>
    obtain ⟨rfl, rfl, rfl, rfl⟩ := header_inj hck hck' hb
    exact .inr (.inl ⟨value, ret, h6, hval, hover⟩)
  | inside tag' length' body' hck' hover =>
    obtain ⟨rfl, rfl, rfl, rfl⟩ := header_inj hck hck' hb
    exact .inr (.inr ⟨rfl, .inl hover⟩)
  | struct tag' length' body' child hck' _ _ hover =>
    obtain ⟨rfl, rfl, rfl, rfl⟩ := header_inj hck hck' hb
    exact .inr (.inr ⟨rfl, .inr hover⟩)

/-- On well-formed messages the nodes have room for their values. -/
theorem WellFormed.not_overruns {b : Bytes} (h : WellFormed b) (hb : b.length < 2 ^ 31) :
    ¬ Overruns b := by
  induction h with
  | nil =>
    intro hover
    exact absurd hover.length_pos (by simp)
  | scalar tag type area rest ht hs harea _ ih =>
    simp only [List.length_append, length_header] at hb
    rw [List.append_assoc]
    intro hover
    have hlen : scalarLength type ≤ 8 := by
      unfold scalarLength
      split <;> omega
    have hsix : 0 < type ∧ type < 6 := by
      unfold Scalar at hs
      omega
    have hck : Checked tag type (scalarLength type) (area ++ rest) :=
      ⟨ht, hsix.1, by omega, by omega, (ttlvValidLen_scalar hs).mpr (.inr rfl),
        by rw [List.length_append]; omega⟩
    obtain ⟨-, hshort⟩ | ⟨value, ret, -, hval, hover⟩ | ⟨h6, -⟩ := hover.at_header hck
    · omega
    · rw [ttlvValueNtoh_scalar_area hs hval, ← harea, List.drop_left' rfl] at hover
      exact ih (by omega) hover
    · omega
  | counted tag type length area rest ht hc hl harea _ ih =>
    simp only [List.length_append, length_header] at hb
    rw [List.append_assoc]
    intro hover
    have hsix : 0 < type ∧ type < 6 := by
      unfold Counted at hc
      omega
    have hck : Checked tag type length (area ++ rest) :=
      ⟨ht, hsix.1, by omega, hl, ttlvValidLen_counted hc, by rw [List.length_append]; omega⟩
    obtain ⟨hs, -⟩ | ⟨value, ret, -, hval, hover⟩ | ⟨h6, -⟩ := hover.at_header hck
    · exact hc.not_scalar hs
    · rw [ttlvValueNtoh_counted_area hc hval, round8_eq _ (by omega), ← harea,
        List.drop_left' rfl] at hover
      exact ih (by omega) hover
    · omega
  | struct tag body rest ht hl hmod _ _ ihc ihn =>
    simp only [List.length_append, length_header] at hb
    rw [List.append_assoc]
    intro hover
    have hck : Checked tag 6 body.length (body ++ rest) :=
      ⟨ht, by omega, by omega, hl, ttlvValidLen_struct tag _ hmod,
        by rw [List.length_append]; omega⟩
    obtain ⟨hs, -⟩ | ⟨_, _, h6, -⟩ | ⟨-, hover | hover⟩ := hover.at_header hck
    · unfold Scalar at hs
      omega
    · exact absurd rfl h6
    · rw [List.take_left' rfl] at hover
      exact ihc (by omega) hover
    · rw [List.drop_left' rfl] at hover
      exact ihn (by omega) hover

/-! ## `ttlv_decode` and what is made of its tree -/

/-- Memory after `ttlv_decode`: the tree of `*head`, and the lost trees. -/
theorem ttlvDecode_spec (A : Allocator) (b : Bytes) (hb : b.length < 2 ^ 31)
    (hfits : ¬ Overruns b) :
    Triple 1 (Nodes.ttlvDecode A b) fun r =>
      fact (r.1 = (ttlvDecode b).1) *
        (treeAt (ttlvDecode b).2 r.2 * lostAt (lostTrees b.length b)) := by
  have hloop := decodeLoop_spec A (b.length + 1) b.length b .null 0 0 le_rfl
    (by simp only [nodes]; omega) hb hfits
  rw [linkedAt, if_pos rfl, Assertion.fact_true rfl] at hloop
  apply hloop.bind
  intro ended
  apply Triple.fact
  intro hok
  apply Triple.pure
  intro f h
  rw [Assertion.fact_sep, hok]
  unfold ttlvDecode
  cases hr : ttlvDecodeLoop b.length b with
  | done m =>
    rw [hr] at h
    refine ⟨?_, h⟩
    simp only [succeeded, if_true]
  | freed =>
    rw [hr] at h
    refine ⟨?_, h⟩
    simp only [succeeded, Bool.false_eq_true, if_false]
  | kept m =>
    rw [hr] at h
    refine ⟨?_, h⟩
    simp only [succeeded, Bool.false_eq_true, if_false]

/-- The return value never passes for a small one: the comparison of lines 930-931 is unsigned. -/
theorem toUInt32_decode (b : Bytes) (hb : b.length < 2 ^ 31) :
    ¬ toUInt32 (ttlvDecode b).1 < b.length := by
  have hint : toInt32 b.length = b.length := toInt32_eq _ (Int.natCast_nonneg _) (by omega)
  unfold toUInt32 ttlvDecode
  cases ttlvDecodeLoop b.length b with
  | done m =>
    simp only [hint]
    omega
  | freed =>
    simp only
    omega
  | kept m =>
    simp only
    omega

theorem recvDecode_spec (A : Allocator) (b : Bytes) (hb : b.length < 2 ^ 31)
    (hfits : ¬ Overruns b) :
    Triple 1 (Nodes.recvDecode A b) fun p =>
      treeAt (ttlvDecode b).2 p * lostAt (lostTrees b.length b) := by
  apply (ttlvDecode_spec A b hb hfits).bind
  intro decoded
  apply Triple.fact
  intro hret
  rw [hret, if_neg (toUInt32_decode b hb)]
  exact Triple.pure decoded.2 fun _ h => h

theorem Decoded.nodes_le {b tail : Bytes} {m : Ttlv} (h : Decoded b m tail) :
    nodes m ≤ b.length := by
  induction h with
  | nil tail => exact Nat.zero_le _
  | leaf tag type length body value ret next tail hck h6 hval _ ih =>
    rw [List.length_drop] at ih
    simp only [nodes, List.length_append, length_header]
    omega
  | struct tag length body child next tail hck _ hchild _ ih =>
    have hbelow := hchild.nodes_le
    have hroom := hck.room
    rw [List.length_take] at hbelow
    rw [List.length_drop] at ih
    simp only [nodes, List.length_append, length_header]
    omega

theorem ttlvDecode_nodes_le (b : Bytes) : nodes (ttlvDecode b).2 ≤ b.length := by
  unfold ttlvDecode
  cases hr : ttlvDecodeLoop b.length b with
  | done m => exact (Carries.of_loop hr).nodes_le
  | freed => exact Nat.zero_le _
  | kept m =>
    obtain ⟨tag, type, length, area, hreads, -⟩ := TornAt.of_loop hr
    exact hreads.nodes_le

theorem recvAndFree_spec (A : Allocator) (b : Bytes) (hb : b.length < 2 ^ 31)
    (hfits : ¬ Overruns b) :
    Triple 1 (Nodes.recvAndFree A b) fun _ => lostAt (lostTrees b.length b) := by
  apply (recvDecode_spec A b hb hfits).bind
  intro p
  have hnodes := ttlvDecode_nodes_le b
  have hfree := freeLoop_frees (ttlvDecode b).2 p (b.length + 1) (by omega)
  apply (hfree.frame _).post
  intro _ f h
  rwa [one_mul] at h

theorem recvAndFree_faults (A : Allocator) {b : Bytes} (h : Overruns b) (hb : b.length < 2 ^ 31) :
    Prog.Faults (Nodes.recvAndFree A b) :=
  (((h.faults A (b.length + 1) b.length le_rfl (by omega) hb 0 0).left _).left _).left _

theorem lostTrees_ne_null (rounds : Nat) (b : Bytes) : ∀ t ∈ lostTrees rounds b, t ≠ .null := by
  induction rounds generalizing b with
  | zero =>
    intro t ht
    cases ht
  | succ rounds ih =>
    obtain hrefused | ⟨tag, type, length, body, rfl, hck⟩ := refused_or_checked b
    · rw [hrefused.lost]
      intro t ht
      cases ht
    by_cases h6 : type = 6
    · subst h6
      by_cases hchild : ∃ child, ttlvDecodeLoop rounds (body.take length) = .done child
      · obtain ⟨child, hchild⟩ := hchild
        rw [hck.lost_struct hchild]
        exact ih _
      · rw [hck.lost_failed fun child hdone => hchild ⟨child, hdone⟩]
        intro t ht
        obtain rfl | ht := List.mem_cons.mp ht
        · simp
        · exact ih _ t ht
    · cases hval : ttlvValueNtoh type length body with
      | none =>
        rw [hck.lost_cut h6 hval]
        intro t ht
        obtain rfl := List.mem_singleton.mp ht
        simp
      | some result =>
        obtain ⟨value, ret⟩ := result
        rw [hck.lost_leaf h6 hval]
        exact ih _

/-- Memory with one more node in it is not as it was before. -/
theorem lostAt_ne {t : Ttlv} {ts : List Ttlv} {f g : Cells TtlvCell} (ht : t ≠ .null)
    (h : (lostAt (t :: ts) * Assertion.exactly g) f) : f ≠ g := by
  rw [lostAt_cons, mul_comm, ← mul_assoc, mul_comm] at h
  obtain ⟨k, both, -, hf, -, g', r, hapart, hboth, hg, p, hp⟩ := h
  cases t with
  | null => exact absurd rfl ht
  | node tag length value child next =>
    obtain ⟨c, n, hp⟩ := hp
    have hcell := (Assertion.pt_sep hp).2
    have hnone : g' p = none := (hapart p).resolve_right (by simp [hcell])
    have hg' : g' = g := hg
    rw [hf, hboth, ← hg']
    intro hsame
    have hsame := congrFun hsame p
    simp [Cells.join, hnone, hcell] at hsame

/-- Receiving a message and giving it back: it stores outside its nodes if and only if the decoder
comes to a scalar with a length field too small for its value.  Otherwise it ends, and memory is as
it was before if and only if the decoder comes to the end of the octets, or to a header it refuses,
behind complete nodes of the outermost level. -/
theorem recv_free_restores_iff (A : Allocator) (m : Memory TtlvCell) (b : Bytes)
    (hb : b.length < 2 ^ 31) :
    (Nodes.recvAndFree A b m = none ↔ Overruns b) ∧
      ∀ m', Nodes.recvAndFree A b m = some ((), m') →
        (m'.cells = m.cells ↔ ∃ t tail, Decoded b t tail ∧ Refused tail) := by
  by_cases hover : Overruns b
  · have hfault := recvAndFree_faults A hover hb m
    refine ⟨iff_of_true hfault hover, fun m' hrun => ?_⟩
    rw [hfault] at hrun
    cases hrun
  have hstart : (1 * Assertion.exactly m.cells) m.cells := by
    rw [one_mul]
    rfl
  obtain ⟨_, m', hrun, hend⟩ := recvAndFree_spec A b hb hover m _ hstart
  refine ⟨iff_of_false (by rw [hrun]; simp) hover, fun m'' hrun' => ?_⟩
  rw [hrun] at hrun'
  cases hrun'
  rw [← lostTrees_nil_iff b.length b le_rfl hb]
  constructor
  · intro hsame
    by_contra hlost
    obtain ⟨t, ts, hcons⟩ := List.exists_cons_of_ne_nil hlost
    rw [hcons] at hend
    have ht := lostTrees_ne_null b.length b t (by rw [hcons]; exact List.mem_cons_self)
    exact lostAt_ne ht hend hsame
  · intro hnone
    rw [hnone, lostAt_nil, one_mul] at hend
    exact hend

/-- The lowest address that is free. -/
def firstFit : Allocator where
  pick used := Nat.find (Infinite.exists_notMem_finset (insert 0 used))
  fresh used h :=
    Nat.find_spec (Infinite.exists_notMem_finset (insert 0 used)) (Finset.mem_insert_of_mem h)
  nonzero used h := by
    apply Nat.find_spec (Infinite.exists_notMem_finset (insert 0 used))
    rw [h]
    exact Finset.mem_insert_self 0 used

/-- A LONG node is given back; an INT node with the length field 0 is stored over its end. -/
theorem recv_free_restores_hello :
    (∃ m', Nodes.recvAndFree firstFit (header 1 2 8 ++ beEncode 8 5 ++ []) Memory.empty =
        some ((), m') ∧ m'.cells = Memory.empty.cells) ∧
      Nodes.recvAndFree firstFit (header 7 1 0 ++ [0, 0, 0, 9, 0, 0, 0, 0]) Memory.empty = none := by
  have hwell : WellFormed (header 1 2 8 ++ beEncode 8 5 ++ []) :=
    .scalar 1 2 (beEncode 8 5) [] (by decide) (.inr (.inl rfl)) rfl .nil
  have hlt : (header 1 2 8 ++ beEncode 8 5 ++ []).length < 2 ^ 31 := by decide
  obtain ⟨t, ht, -⟩ := hwell.labelled.carries hlt
  have hover : Overruns (header 7 1 0 ++ [0, 0, 0, 9, 0, 0, 0, 0]) :=
    .here 7 1 0 _ ⟨by decide, by decide, by decide, by decide, by decide, by decide⟩ (.inl rfl)
      (by decide) (by decide)
  constructor
  · obtain ⟨hfault, hsame⟩ := recv_free_restores_iff firstFit Memory.empty _ hlt
    cases hrun : Nodes.recvAndFree firstFit (header 1 2 8 ++ beEncode 8 5 ++ []) Memory.empty with
    | none => exact absurd (hfault.mp hrun) (hwell.not_overruns hlt)
    | some r => exact ⟨r.2, rfl, (hsame r.2 hrun).mpr ⟨t, [], ht.decoded, refused_nil⟩⟩
  · exact (recv_free_restores_iff firstFit Memory.empty _ (by decide)).1.mpr hover

end Sexpect.Guarantees
