import Sexpect.Source.Proto

/-!
# Framed messages over a descriptor (common.c:722-1017)

A descriptor is the script of what its next `read` or `write` calls return.  A
`read` that finds more octets than it asked for leaves the rest to the next
call; the end of the script reads as end of file.  `readn` and `writen` are the
loops of the source.  `msgRecv` keeps the static receive buffer explicit and
compares `int` results with `uint32_t` expressions the way C does.
-/
namespace Sexpect.Source
open Sexpect.Lib

def passMagic : Nat := 0x4a55575a
def passMaxMsg : Nat := 64 * 1024

/-- One `read` on the descriptor. -/
inductive ReadEvent where
  | data (bs : Bytes)
  | eintr
  | eof
  | error
  deriving DecidableEq, Repr

/-- `readn`: the return value, the octets stored so far, and the descriptor.
`-1` is a hard error, also after octets were stored. -/
def readn : List ReadEvent → Nat → Int × Bytes × List ReadEvent
  | [], _ => (0, [], [])
  | .data bs :: fd, n =>
    if n = 0 then (0, [], .data bs :: fd)
    else if bs = [] then (0, [], fd)
    else if n < bs.length then (n, bs.take n, .data (bs.drop n) :: fd)
    else
      match readn fd (n - bs.length) with
      | (ret, more, fd) => (if ret < 0 then -1 else bs.length + ret, bs ++ more, fd)
  | .eintr :: fd, n => if n = 0 then (0, [], .eintr :: fd) else readn fd n
  | .eof :: fd, n => if n = 0 then (0, [], .eof :: fd) else (0, [], fd)
  | .error :: fd, n => if n = 0 then (0, [], .error :: fd) else (-1, [], fd)

/-- One `write` on the descriptor: at most `k` octets taken, or a failure. -/
inductive WriteEvent where
  | wrote (k : Nat)
  | eintr
  | error
  deriving DecidableEq, Repr

/-- `writen`: the return value, the octets that reached the peer, and the
descriptor.  A `write` beyond the script takes everything that is left. -/
def writen : List WriteEvent → Bytes → Int × Bytes × List WriteEvent
  | [], bs => (bs.length, bs, [])
  | .wrote k :: fd, bs =>
    if bs = [] then (0, [], .wrote k :: fd)
    else
      match writen fd (bs.drop k) with
      | (ret, more, fd) => (if ret < 0 then -1 else (bs.take k).length + ret, bs.take k ++ more, fd)
  | .eintr :: fd, bs => if bs = [] then (0, [], .eintr :: fd) else writen fd bs
  | .error :: fd, bs => if bs = [] then (0, [], .error :: fd) else (-1, [], fd)

/-- `msg_send` with its static buffer: the return value, the octets that
reached the peer, the buffer afterwards and the descriptor. -/
def msgSend (buf : Bytes) (fd : List WriteEvent) (msg : Ttlv) :
    Int × Bytes × Bytes × List WriteEvent :=
  let size := ttlvCalcSize msg
  if size > passMaxMsg then (-1, [], buf, fd)
  else
    match ttlvEncode msg buf 0 passMaxMsg with
    | (none, buf) => (-1, [], buf, fd)
    | (some ret, buf) =>
      if size ≠ ret then (-1, [], buf, fd)
      else
        match writen fd (beEncode 4 passMagic) with
        | (ret, sent, fd) =>
          if ret < 4 then (-1, sent, buf, fd)
          else
            match writen fd (buf.take size.toNat) with
            | (ret, more, fd) => (if ret < size then -1 else ret, sent ++ more, buf, fd)

/-- How a call of `msg_recv` ends.  `overrun` is the store of body octets past
the end of the receive buffer, after which the source has no meaning. -/
inductive RecvResult where
  | returned (msg : Ttlv) (buf : Bytes) (fd : List ReadEvent)
  | overrun
  deriving DecidableEq, Repr

/-- An `int` converted to `uint32_t`, as in a comparison with one. -/
def toUInt32 (n : Int) : Int := n % 2 ^ 32

/-- The length field of the header at the front of `buf`. -/
def lengthField (buf : Bytes) : Nat := beDecode ((buf.drop 4).take 4)

/-- The number of body octets that `msg_recv` asks `readn` for (lines 916-923), with
the header in `buf`; `none` when it gives the message up as too big. -/
def bodyRequest (buf : Bytes) : Option Nat :=
  let taglen := round8 (lengthField buf)
  if (taglen + tagHdrSize) % 2 ^ 32 > passMaxMsg then none else some taglen

/-- `msg_recv` behind the two header reads (lines 916-937); `buf` holds the
header. -/
def msgRecvBody (buf : Bytes) (fd : List ReadEvent) : RecvResult :=
  let taglen := round8 (beDecode ((buf.drop 4).take 4))
  let total := (taglen + tagHdrSize) % 2 ^ 32
  if total > passMaxMsg then .returned .null buf fd
  else
    match readn fd taglen with
    | (ret, body, fd) =>
      if tagHdrSize + body.length > passMaxMsg then .overrun
      else
        let buf := writeAt buf tagHdrSize body
        -- both sides are unsigned here: a result of -1 is not small
        if toUInt32 (toInt32 ret) < taglen then .returned .null buf fd
        else
          match ttlvDecode (buf.take total) with
          | (ret, msg) =>
            if toUInt32 ret < total then .returned .null buf fd
            else .returned msg buf fd

/-- `msg_recv` with its static buffer of `PASS_MAX_MSG` octets. -/
def msgRecv (buf : Bytes) (fd : List ReadEvent) : RecvResult :=
  match readn fd 4 with
  | (ret, magic, fd) =>
    if ret < 4 then .returned .null buf fd
    else if beDecode magic ≠ passMagic then .returned .null buf fd
    else
      match readn fd tagHdrSize with
      | (ret, hdr, fd) =>
        let buf := writeAt buf 0 hdr
        if ret < tagHdrSize then .returned .null buf fd
        else msgRecvBody buf fd

end Sexpect.Source
