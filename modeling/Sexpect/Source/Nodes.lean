import Sexpect.Lib.Separation
import Sexpect.Source.Message

/-!
# TTLV messages in memory (proto.c:45-541, common.c:929-937)

`Sexpect.Source.Proto` has the messages as trees.  Here a `ttlv_t` is a cell of allocated
memory with its two pointers, and the functions are the loops of the source over them.  The
union of a node is as long as `calloc` was asked for, and a store past its end is a fault.
`calloc` is assumed to succeed, as the source does.  A loop is given the number of rounds it
may take; on the trees a message is made of it never comes to their end.
-/
namespace Sexpect.Source.Nodes
open Sexpect.Lib

structure TtlvCell where
  tag : Nat
  length : Nat
  value : TtlvValue
  child : Nat := 0
  next : Nat := 0
  deriving DecidableEq, Repr

/-- The octets `ttlv_new` asks for behind the length field of a node, which never changes. -/
def TtlvCell.room (node : TtlvCell) : Nat :=
  match node.value with
  | .text _ | .raw _ => node.length + 1
  | _ => node.length

/-- The octets that `ttlv_value_ntoh` stores there; behind a text it stores a NUL. -/
def TtlvCell.reach (node : TtlvCell) (value : TtlvValue) : Nat :=
  match value with
  | .int _ | .bool _ => 4
  | .long _ => 8
  | .text _ | .raw _ => node.length + 1
  | .struct => 0

/-- The loop of `ttlv_free`; `ttlv_free(&cur->child)` ends by clearing the field. -/
def freeLoop : Nat → Nat → Prog TtlvCell Unit
  | 0, _ => Prog.fault
  | rounds + 1, cur =>
    if cur = 0 then pure ()
    else do
      let node ← Prog.load cur
      if node.child ≠ 0 then do
        freeLoop rounds node.child
        Prog.store cur { node with child := 0 }
      else pure ()
      Prog.free cur
      freeLoop rounds node.next

/-- `ttlv_free`; the caller's pointer is `NULL` afterwards. -/
def ttlvFree (rounds : Nat) (head : Nat) : Prog TtlvCell Unit := freeLoop rounds head

/-- `ttlv_new` and the store of the value behind it. -/
def ttlvNew (A : Allocator) (tag : Nat) (value : TtlvValue) (length : Nat) : Prog TtlvCell Nat :=
  Prog.alloc A { tag := tag % 2 ^ 24, length := length, value := value }

def setNext (q next : Nat) : Prog TtlvCell Unit := do
  let node ← Prog.load q
  Prog.store q { node with next := next }

/-- `while (q->next != NULL) q = q->next`. -/
def lastSibling : Nat → Nat → Prog TtlvCell Nat
  | 0, _ => Prog.fault
  | rounds + 1, q => do
    let node ← Prog.load q
    if node.next ≠ 0 then lastSibling rounds node.next else pure q

/-- The loop over the arguments of `ttlv_append_child`, which end with `NULL`. -/
def linkChildren (head : Nat) : List Nat → Nat → Prog TtlvCell Unit
  | [], _ => pure ()
  | child :: args, tail =>
    if child = 0 then pure ()
    else do
      let node ← Prog.load head
      if node.child = 0 then Prog.store head { node with child := child }
      else setNext tail child
      linkChildren head args child

def ttlvAppendChild (rounds head : Nat) (args : List Nat) : Prog TtlvCell Nat := do
  let node ← Prog.load head
  let tail ← if node.child = 0 then pure 0 else lastSibling rounds node.child
  linkChildren head args tail
  pure head

/-- `ttlv_calc_size_ex` with the size added up so far. -/
def calcLoop : Nat → Nat → Bool → Int → Prog TtlvCell Int
  | 0, _, _, _ => Prog.fault
  | rounds + 1, p, curTagOnly, size =>
    if p = 0 then pure size
    else do
      let node ← Prog.load p
      let size ←
        if node.value = .struct then do
          let inner ← calcLoop rounds node.child false 0
          pure (toInt32 (size + toInt32 (tagHdrSize + inner)))
        else pure (toInt32 (size + toInt32 (tagHdrSize + round8 node.length)))
      if curTagOnly then pure size else calcLoop rounds node.next curTagOnly size

def ttlvCalcSizeEx (rounds head : Nat) (curTagOnly : Bool) : Prog TtlvCell Int :=
  calcLoop rounds head curTagOnly 0

/-- The loop of `ttlv_encode` from `next_buf = buf + pos`: where `next_buf` ends, or `none`
for a negative return, and the buffer. -/
def encodeLoop : Nat → Nat → Bytes → Nat → Nat → Prog TtlvCell (Option Nat × Bytes)
  | 0, _, _, _, _ => Prog.fault
  | rounds + 1, p, buf, pos, lim =>
    if p = 0 then pure (some pos, buf)
    else do
      let node ← Prog.load p
      if pos + tagHdrSize > lim then pure (none, buf)
      else do
        let buf := writeAt buf pos (beEncode 4 (node.tag * 256 + node.value.type))
        let written ←
          if node.value = .struct then do
            let inner ← encodeLoop rounds node.child buf (pos + 8) lim
            match inner with
            | (none, buf) => pure (none, buf)
            | (some stop, buf) =>
              pure (some (stop - (pos + 8)), writeAt buf (pos + 4) (beEncode 4 (stop - (pos + 8))))
          else
            pure (ttlvValueHton node.value node.length
              (writeAt buf (pos + 4) (beEncode 4 node.length)) (pos + 8) (lim - (pos + 8)))
        match written with
        | (none, buf) => pure (none, buf)
        | (some ret, buf) => encodeLoop rounds node.next buf (pos + 8 + ret) lim

def ttlvEncode (rounds head : Nat) (buf : Bytes) (pos lim : Nat) :
    Prog TtlvCell (Option Nat × Bytes) := do
  let ended ← encodeLoop rounds head buf pos lim
  pure (ended.1.map fun stop => stop - pos, ended.2)

/-- The value area of a node as `calloc` leaves it. -/
def zeroValue (type length : Nat) : TtlvValue :=
  match type with
  | 1 => .int 0
  | 2 => .long 0
  | 3 => .bool 0
  | 4 => .text (List.replicate length 0)
  | 5 => .raw (List.replicate length 0)
  | _ => .struct

/-- The value goes into the union of the new node. -/
def storeValue (new : Nat) (value : TtlvValue) : Prog TtlvCell Unit := do
  let node ← Prog.load new
  if node.room < node.reach value then Prog.fault
  else Prog.store new { node with value := value }

/-- `if (* head == NULL) * head = new; else tail->next = new;`. -/
def linkNew (head tail new : Nat) : Prog TtlvCell Nat :=
  if head = 0 then pure new
  else do
    setNext tail new
    pure head

/-- The loop of `ttlv_decode` on the octets from `next_buf` to the end: whether it succeeds,
and `*head`.  The caller stores `*head` where its argument points. -/
def decodeLoop (A : Allocator) (frees : Nat) : Nat → Bytes → Nat → Nat → Prog TtlvCell (Bool × Nat)
  | _, [], head, _ => pure (true, head)
  | 0, _ :: _, _, _ => Prog.fault
  | rounds + 1, b :: bs, head, tail =>
    let buf := b :: bs
    let give_up : Prog TtlvCell (Bool × Nat) := do
      ttlvFree frees head
      pure (false, 0)
    if buf.length < tagHdrSize then give_up
    else
      let tagtype := beDecode (buf.take 4)
      let tag := tagtype / 256
      let type := tagtype % 256
      if type = 0 ∨ type ≥ 7 then give_up
      else
        let length := beDecode ((buf.drop 4).take 4)
        let rest := buf.drop 8
        if ¬ ttlvValidLen tagtype length then give_up
        else if rest.length < length then give_up
        else if type ≠ 6 then do
          let new ← ttlvNew A tag (zeroValue type length) length
          match ttlvValueNtoh type length rest with
          | none => pure (false, head)
          | some (value, ret) => do
            storeValue new value
            let head ← linkNew head tail new
            decodeLoop A frees rounds (rest.drop ret) head new
        else do
          let new ← ttlvNew A tag .struct 0
          let inner ← decodeLoop A frees rounds (rest.take length) 0 0
          let node ← Prog.load new
          Prog.store new { node with child := inner.2 }
          -- a call that succeeded has returned `length` as an `int`
          if ¬ inner.1 ∨ toInt32 length < 0 then give_up
          else do
            let head ← linkNew head tail new
            decodeLoop A frees rounds (rest.drop length) head new

/-- `ttlv_decode(buf, buf_len, head)`: the return value and `*head`. -/
def ttlvDecode (A : Allocator) (buf : Bytes) : Prog TtlvCell (Int × Nat) := do
  let ended ← decodeLoop A (buf.length + 1) buf.length buf 0 0
  pure (if ended.1 then toInt32 buf.length else -1, ended.2)

/-- The end of `msg_recv` (common.c:929-937) on the header and body in `buf`.  The comparison
is unsigned, so a result of -1 is not small. -/
def recvDecode (A : Allocator) (buf : Bytes) : Prog TtlvCell Nat := do
  let decoded ← ttlvDecode A buf
  if toUInt32 decoded.1 < buf.length then do
    ttlvFree (buf.length + 1) decoded.2
    pure 0
  else pure decoded.2

/-- What `serv_process_msg` and the client do to memory for a message they receive: `msg_recv`
allocates it and `msg_free` gives it back. -/
def recvAndFree (A : Allocator) (buf : Bytes) : Prog TtlvCell Unit := do
  let msg ← recvDecode A buf
  ttlvFree (buf.length + 1) msg

/-- The arguments of one call of `ttlv_append_child`: tag, value and length of each new node. -/
abbrev Args := List (Nat × TtlvValue × Nat)

def newArgs (A : Allocator) : Args → Prog TtlvCell (List Nat)
  | [] => pure []
  | (tag, value, length) :: args => do
    let p ← ttlvNew A tag value length
    let ps ← newArgs A args
    pure (p :: ps)

/-- Calls of `ttlv_append_child` one after the other, as in `cli_main` (client.c:714-783). -/
def appendCalls (A : Allocator) (rounds head : Nat) : List Args → Prog TtlvCell Unit
  | [] => pure ()
  | args :: calls => do
    let ps ← newArgs A args
    let _ ← ttlvAppendChild rounds head ps
    appendCalls A rounds head calls

/-- `msg_send` (common.c:944-987) on the message at `msg`. -/
def msgSend (rounds : Nat) (buf : Bytes) (fd : List WriteEvent) (msg : Nat) :
    Prog TtlvCell (Int × Bytes × Bytes × List WriteEvent) := do
  let size ← ttlvCalcSizeEx rounds msg false
  if size > passMaxMsg then pure (-1, [], buf, fd)
  else do
    let encoded ← ttlvEncode rounds msg buf 0 passMaxMsg
    match encoded with
    | (none, buf) => pure (-1, [], buf, fd)
    | (some ret, buf) =>
      if size ≠ ret then pure (-1, [], buf, fd)
      else
        match writen fd (beEncode 4 passMagic) with
        | (ret, sent, fd) =>
          if ret < 4 then pure (-1, sent, buf, fd)
          else
            match writen fd (buf.take size.toNat) with
            | (ret, more, fd) => pure (if ret < size then -1 else ret, sent ++ more, buf, fd)

/-- A message on its way out: `ttlv_new_*`, the calls of `ttlv_append_child`, `msg_send` and
`msg_free`. -/
def buildSendFree (A : Allocator) (buf : Bytes) (fd : List WriteEvent) (tag : Nat)
    (value : TtlvValue) (length : Nat) (calls : List Args) :
    Prog TtlvCell (Int × Bytes × Bytes × List WriteEvent) := do
  let rounds := calls.flatten.length + 2
  let msg ← ttlvNew A tag value length
  appendCalls A rounds msg calls
  let result ← msgSend rounds buf fd msg
  ttlvFree rounds msg
  pure result

end Sexpect.Source.Nodes
