import Sexpect.Lib.Bytes

/-!
# TTLV messages (proto.h, proto.c)

Source: proto.h:12-56 and proto.c:66-541.  A `ttlv_t *` is a node with a first
child and a next sibling, or `NULL`; the model keeps that shape.  The union of a
node is the value it was built with; `vInt` and `vText` read it the way the
source reads `v_int` and `v_text`, also on a node of another type.  `length` is
a field of its own because `ttlv_decode` stores whatever the wire says there.

Buffers are octet lists.  `ttlvEncode` writes into the buffer it is given, so
that a failed call leaves its partial writes behind; `ttlvDecode` reads a buffer
of exactly `buf_len` octets.  Word arithmetic is modulo `2 ^ 32` where the
source's is.  Diagnostics on stderr are not modelled.
-/
namespace Sexpect.Source
open Sexpect.Lib

def tagHdrSize : Nat := 8

/-- `ROUND8` on a `uint32_t`: the addition wraps. -/
def round8 (n : Nat) : Nat := (n + 7) % 2 ^ 32 / 8 * 8

/-- Conversion to `int`, or wrap-around of `int` arithmetic. -/
@[irreducible] def toInt32 (n : Int) : Int := n.bmod (2 ^ 32)

/-- `ttlv_type_t` together with the union of the node. -/
inductive TtlvValue where
  | int (v : BitVec 32)
  | long (v : BitVec 64)
  | bool (v : BitVec 32)
  | text (v : Bytes)
  | raw (v : Bytes)
  | struct
  deriving DecidableEq, Repr

/-- `ttlv_t *`. -/
inductive Ttlv where
  | null
  | node (tag length : Nat) (value : TtlvValue) (child next : Ttlv)
  deriving DecidableEq, Repr

namespace TtlvValue

/-- `TTYPE_INT` .. `TTYPE_STRUCT`. -/
def type : TtlvValue → Nat
  | .int _ => 1
  | .long _ => 2
  | .bool _ => 3
  | .text _ => 4
  | .raw _ => 5
  | .struct => 6

/-- The octets of the union in memory on a little-endian host. -/
def memory : TtlvValue → Bytes
  | .int v => (beEncode 4 v.toNat).reverse
  | .long v => (beEncode 8 v.toNat).reverse
  | .bool v => (beEncode 4 v.toNat).reverse
  | .text v => v
  | .raw v => v
  | .struct => []

end TtlvValue

namespace Ttlv

def tag : Ttlv → Nat
  | .null => 0
  | .node tag _ _ _ _ => tag

def length : Ttlv → Nat
  | .null => 0
  | .node _ length _ _ _ => length

def value : Ttlv → TtlvValue
  | .null => .struct
  | .node _ _ value _ _ => value

def child : Ttlv → Ttlv
  | .null => .null
  | .node _ _ _ child _ => child

def next : Ttlv → Ttlv
  | .null => .null
  | .node _ _ _ _ next => next

/-- `v_int`: the first four octets of the union. -/
def vInt (t : Ttlv) : Int :=
  match t.value with
  | .int v => v.toInt
  | .bool v => v.toInt
  | v => toInt32 (beDecode ((v.memory ++ [0, 0, 0, 0]).take 4).reverse)

/-- `v_bool`, as tested by the source. -/
def vBool (t : Ttlv) : Bool := t.vInt ≠ 0

/-- `v_raw`: all `length` octets of a counted value. -/
def vRaw (t : Ttlv) : Bytes := t.value.memory

/-- `v_text` read as a C string. -/
def vText (t : Ttlv) : Bytes := cstring t.value.memory

end Ttlv

/-- `ttlv_calc_size_ex`, in the `int` arithmetic of the source. -/
def ttlvCalcSizeEx : Ttlv → Bool → Int
  | .null, _ => 0
  | .node _ length value child next, curTagOnly =>
    let size := match value with
      | .struct => toInt32 (tagHdrSize + ttlvCalcSizeEx child false)
      | _ => toInt32 (tagHdrSize + round8 length)
    if curTagOnly then size else toInt32 (size + ttlvCalcSizeEx next false)

def ttlvCalcSize (head : Ttlv) : Int := ttlvCalcSizeEx head false

/-- `ttlv_new`: `tag` is a bit field of 24 bits. -/
def ttlvNew (tag : Nat) (value : TtlvValue) (length : Nat) : Ttlv :=
  .node (tag % 2 ^ 24) length value .null .null

def ttlvNewInt (tag : Nat) (value : BitVec 32) : Ttlv := ttlvNew tag (.int value) 4

def ttlvNewLong (tag : Nat) (value : BitVec 64) : Ttlv := ttlvNew tag (.long value) 8

/-- `ttlv_new_bool` stores `!! value`. -/
def ttlvNewBool (tag : Nat) (value : BitVec 32) : Ttlv :=
  ttlvNew tag (.bool (if value = 0 then 0 else 1)) 4

/-- `ttlv_new_text`: `data` are the `length` octets the source copies. -/
def ttlvNewText (tag : Nat) (data : Bytes) : Ttlv := ttlvNew tag (.text data) data.length

def ttlvNewRaw (tag : Nat) (data : Bytes) : Ttlv := ttlvNew tag (.raw data) data.length

def ttlvNewStruct (tag : Nat) : Ttlv := ttlvNew tag .struct 0

/-- `ttlv_append`: link `p` behind the last sibling. -/
def ttlvAppend : Ttlv → Ttlv → Ttlv
  | .null, p => p
  | .node tag length value child next, p => .node tag length value child (ttlvAppend next p)

/-- The assignments `tail->next = child; tail = child` over an argument list: a
sibling that an argument already had is overwritten, except behind the last. -/
def ttlvLink : List Ttlv → Ttlv
  | [] => .null
  | [p] => p
  | .null :: ps => ttlvLink ps
  | .node tag length value child _ :: ps => .node tag length value child (ttlvLink ps)

/-- `ttlv_append_child`: link the children, in order, behind the last child. -/
def ttlvAppendChild (head : Ttlv) (children : List Ttlv) : Ttlv :=
  match head with
  | .null => .null
  | .node tag length value child next =>
    .node tag length value (ttlvAppend child (ttlvLink children)) next

/-- `ttlv_find_sibling` looks behind `first`; the loop is over `first->next`. -/
def ttlvFindFrom : Ttlv → Nat → Ttlv
  | .null, _ => .null
  | .node t length value child next, tag =>
    if t = tag then .node t length value child next else ttlvFindFrom next tag

def ttlvFindSibling (first : Ttlv) (tag : Nat) : Ttlv := ttlvFindFrom first.next tag

def ttlvFindChild (parent : Ttlv) (tag : Nat) : Ttlv :=
  if parent = .null ∨ parent.child = .null then .null
  else if parent.child.tag = tag then parent.child
  else ttlvFindSibling parent.child tag

/-- `ttlv_value_hton` at offset `pos` of the buffer with `bufLen` octets left:
the number of octets written, or `none` when the buffer is too small. -/
def ttlvValueHton (value : TtlvValue) (length : Nat) (buf : Bytes) (pos bufLen : Nat) :
    Option Nat × Bytes :=
  match value with
  | .struct => (some 0, buf)
  | .int v =>
    if bufLen < 8 then (none, buf)
    else (some 8, writeAt (writeAt buf pos (beEncode 4 v.toNat)) (pos + 4) [0, 0, 0, 0])
  | .bool v =>
    if bufLen < 8 then (none, buf)
    else (some 8, writeAt (writeAt buf pos (beEncode 4 v.toNat)) (pos + 4) [0, 0, 0, 0])
  | .long v =>
    if bufLen < 8 then (none, buf) else (some 8, writeAt buf pos (beEncode 8 v.toNat))
  | .text v | .raw v =>
    if bufLen < round8 length then (none, buf)
    else
      let buf := writeAt buf pos v
      let buf := if length % 8 ≠ 0 then
          writeAt buf (pos + length) (List.replicate (8 - length % 8) 0)
        else buf
      (some (round8 length), buf)

/-- `ttlv_encode` with `next_buf = buf + pos` and `buf + buf_len = buf + lim`.
The struct length is patched in after the children were written. -/
def ttlvEncode : Ttlv → Bytes → Nat → Nat → Option Nat × Bytes
  | .null, buf, _, _ => (some 0, buf)
  | .node tag length value child next, buf, pos, lim =>
    if pos + tagHdrSize > lim then (none, buf)
    else
      let buf := writeAt buf pos (beEncode 4 (tag * 256 + value.type))
      let (ret, buf) := match value with
        | .struct =>
          match ttlvEncode child buf (pos + 8) lim with
          | (none, buf) => (none, buf)
          | (some ret, buf) => (some ret, writeAt buf (pos + 4) (beEncode 4 ret))
        | value =>
          let buf := writeAt buf (pos + 4) (beEncode 4 length)
          ttlvValueHton value length buf (pos + 8) (lim - (pos + 8))
      match ret with
      | none => (none, buf)
      | some ret =>
        match ttlvEncode next buf (pos + 8 + ret) lim with
        | (none, buf) => (none, buf)
        | (some rest, buf) => (some (8 + ret + rest), buf)

/-- `ttlv_value_ntoh` on the octets from `next_buf` to the end of the buffer: the value stored in
the new node and the octets it occupies, or `none` for a negative return.  The `int` it returns is
negative as well where `ROUND8` of the length has its highest bit set. -/
def ttlvValueNtoh (type length : Nat) (buf : Bytes) : Option (TtlvValue × Nat) :=
  match type with
  | 1 => if buf.length < 8 then none else some (.int (BitVec.ofNat 32 (beDecode (buf.take 4))), 8)
  | 2 => if buf.length < 8 then none else some (.long (BitVec.ofNat 64 (beDecode (buf.take 8))), 8)
  | 3 => if buf.length < 8 then none else some (.bool (BitVec.ofNat 32 (beDecode (buf.take 4))), 8)
  | 4 => if buf.length < round8 length ∨ toInt32 (round8 length) < 0 then none
    else some (.text (buf.take length), round8 length)
  | 5 => if buf.length < round8 length ∨ toInt32 (round8 length) < 0 then none
    else some (.raw (buf.take length), round8 length)
  | 6 => some (.struct, 0)
  | _ => none

/-- `ttlv_valid_len`.  Only the four listed values are checked at all. -/
def ttlvValidLen (type length : Nat) : Bool :=
  match type with
  | 6 => length % 8 = 0
  | 1 | 3 => length = 4
  | 2 => length = 8
  | _ => true

/-- How `ttlv_decode` ends: all octets consumed, or a negative return with
`*head` freed, or the negative return of line 514, which leaves `*head` alone. -/
inductive DecodeResult where
  | done (head : Ttlv)
  | freed
  | kept (head : Ttlv)
  deriving DecidableEq, Repr

/-- Link a decoded node in front of what the rest of the loop produced. -/
def DecodeResult.link (tag length : Nat) (value : TtlvValue) (child : Ttlv) :
    DecodeResult → DecodeResult
  | .done next => .done (.node tag length value child next)
  | .freed => .freed
  | .kept next => .kept (.node tag length value child next)

/-- One round of the loop of `ttlv_decode` on the octets from `next_buf` to the
end; `again` is the loop itself, for the children and for the following rounds. -/
def ttlvDecodeRound (again : Bytes → DecodeResult) (buf : Bytes) : DecodeResult :=
  if buf.length < tagHdrSize then .freed
  else
    let tagtype := beDecode (buf.take 4)
    let tag := tagtype / 256
    let type := tagtype % 256
    if type = 0 ∨ type ≥ 7 then .freed
    else
      let length := beDecode ((buf.drop 4).take 4)
      let rest := buf.drop 8
      -- the check is made on the combined word, not on the masked type
      if ¬ ttlvValidLen tagtype length then .freed
      else if rest.length < length then .freed
      else if type ≠ 6 then
        match ttlvValueNtoh type length rest with
        | none => .kept .null
        | some (value, ret) => (again (rest.drop ret)).link tag length value .null
      else
        match again (rest.take length) with
        | .done child =>
          -- the call has returned `length` as an `int`
          if toInt32 length < 0 then .freed
          else (again (rest.drop length)).link tag 0 .struct child
        | _ => .freed

/-- The loop of `ttlv_decode`.  Every round consumes a header, so `buf.length`
rounds are enough.  Each advance of `next_buf` is covered by a check before it,
so the loop stops at the end exactly and the comparison behind it (line 535)
never fails. -/
def ttlvDecodeLoop : Nat → Bytes → DecodeResult
  | _, [] => .done .null
  | 0, _ :: _ => .freed
  | rounds + 1, b :: bs => ttlvDecodeRound (ttlvDecodeLoop rounds) (b :: bs)

/-- `ttlv_decode(buf, buf_len, head)` on a buffer of `buf_len` octets: the
return value and `*head`.  `return buf_len` makes an `int` of it. -/
def ttlvDecode (buf : Bytes) : Int × Ttlv :=
  match ttlvDecodeLoop buf.length buf with
  | .done head => (toInt32 buf.length, head)
  | .freed => (-1, .null)
  | .kept head => (-1, head)

end Sexpect.Source
