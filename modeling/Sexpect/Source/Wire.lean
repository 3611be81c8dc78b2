import Sexpect.Source.Message
import Sexpect.Source.Session

/-!
# One client and the server over octets (common.c:881-987)

The two programs of `Sexpect.Source.Session` with the connection as the octets in it: `up` are
those the client has written and the server has not read, `down` those of the other direction.
Every message goes through `msg_send` and `msg_recv` with their static buffers, one pair in each
process.  How the `read` and `write` calls of a step cut the octets is up to the event.  Both
programs block in `readn` until a message is complete, which is when the step takes place.
-/
namespace Sexpect.Source
open Sexpect.Lib

/-- What the `read` calls make of the octets on a descriptor: an interruption, or at most so
many octets and one more; behind the plan they take whatever is there. -/
def arrive : List (Option Nat) → Bytes → List ReadEvent
  | [], bs => if bs = [] then [] else [.data bs]
  | none :: plan, bs => .eintr :: arrive plan bs
  | some k :: plan, bs =>
    if bs = [] then [] else .data (bs.take (k + 1)) :: arrive plan (bs.drop (k + 1))

/-- The octets left on a descriptor. -/
def unread : List ReadEvent → Bytes
  | [] => []
  | .data bs :: fd => bs ++ unread fd
  | _ :: fd => unread fd

/-- Calls of `msg_send` up to the first that fails: whether none does, the octets that reach the
peer, and the static buffer. -/
def sendEach : Bytes → List WriteEvent → List Ttlv → Bool × Bytes × Bytes
  | buf, _, [] => (true, [], buf)
  | buf, fd, m :: ms =>
    match msgSend buf fd m with
    | (ret, octets, buf, fd) =>
      if ret < 0 then (false, octets, buf)
      else
        match sendEach buf fd ms with
        | (ok, more, buf) => (ok, octets ++ more, buf)

structure Wire where
  client : Client
  server : Server
  waiting : Bool := true
  up : Bytes := []
  down : Bytes := []
  cliSendBuf : Bytes
  cliRecvBuf : Bytes
  servSendBuf : Bytes
  servRecvBuf : Bytes
  /-- `msg_recv` has stored past the end of its buffer. -/
  overrun : Bool := false

/-- The answers of the system that concern the connection. -/
def Wire.sys (w : Wire) (sys : Sys) (msg : Option Ttlv) (sent : Bool) : Sys :=
  { sys with
    select := match sys.select with
      | .ready fds => .ready { fds with
          listen := fds.listen && w.waiting
          sock := fds.sock && decide (w.up ≠ []) }
      | answer => answer
    msg := msg
    sent := sent }

/-- A stretch of the server with the message it receives.  The message it sends does not depend
on whether the call succeeds. -/
def wireTick (host : Host) (sys : Sys) (msg : Option Ttlv) (writes : List WriteEvent) (w : Wire) :
    Wire :=
  let attempt := (tick host (w.sys sys msg true) w.server).hist.sent.drop w.server.hist.sent.length
  match sendEach w.servSendBuf writes attempt with
  | (ok, octets, buf) =>
    { w with
      server := tick host (w.sys sys msg ok) w.server
      waiting := w.waiting && !w.server.accepts (w.sys sys msg ok)
      down := w.down ++ octets
      servSendBuf := buf }

def wireServer (host : Host) (reads : List (Option Nat)) (writes : List WriteEvent) (w : Wire) :
    Input → Wire
  | .tick sys =>
    if w.server.receives then
      match msgRecv w.servRecvBuf (arrive reads w.up) with
      | .overrun => { w with overrun := true }
      | .returned msg buf fd =>
        wireTick host sys (if msg = .null then none else some msg) writes
          { w with up := unread fd, servRecvBuf := buf }
    else wireTick host sys none writes w
  | i => { w with server := servStep host i w.server }

/-- The client goes on to `next`, if the messages it sends on the way get through; `fatal` when
one does not. -/
def wireClient (writes : List WriteEvent) (next : Client) (w : Wire) : Wire :=
  match sendEach w.cliSendBuf writes (next.sent.drop w.client.sent.length) with
  | (ok, octets, buf) =>
    { w with
      client := if ok then next
        else { next with sent := w.client.sent, pc := .exited ErrorCode.proto }
      up := w.up ++ octets
      cliSendBuf := buf }

def wireDeliver (reads : List (Option Nat)) (writes : List WriteEvent) (w : Wire) : Wire :=
  if w.down = [] then w
  else
    match msgRecv w.cliRecvBuf (arrive reads w.down) with
    | .overrun => { w with overrun := true }
    | .returned msg buf fd =>
      wireClient writes (if msg = .null then cliLost w.client else cliRecv msg w.client)
        { w with down := unread fd, cliRecvBuf := buf }

/-- Whether the next `msg_recv` of the client finds the end of the octets. -/
def Wire.over (w : Wire) : Bool :=
  w.client.waits && decide (w.down = []) &&
    (w.server.pc.dead || !w.waiting && !w.server.conn.sock)

def wireHangup (reads : List (Option Nat)) (w : Wire) : Wire :=
  if w.over then
    match msgRecv w.cliRecvBuf (arrive reads []) with
    | .overrun => { w with overrun := true }
    | .returned msg buf _ =>
      { w with
        client := if msg = .null then cliLost w.client else cliRecv msg w.client
        cliRecvBuf := buf }
  else w

inductive WireEvent where
  | server (i : Input) (reads : List (Option Nat)) (writes : List WriteEvent)
  | deliver (reads : List (Option Nat)) (writes : List WriteEvent)
  | stdin (bs : Bytes) (writes : List WriteEvent)
  | winch (row col : Int) (writes : List WriteEvent)
  | hangup (reads : List (Option Nat))

/-- The event without the cuts. -/
def WireEvent.event : WireEvent → Event
  | .server i _ _ => .server i
  | .deliver _ _ => .deliver
  | .stdin bs _ => .stdin bs
  | .winch row col _ => .winch row col
  | .hangup _ => .hangup

def wireStep (host : Host) : WireEvent → Wire → Wire
  | .server i reads writes, w => wireServer host reads writes w i
  | .deliver reads writes, w => wireDeliver reads writes w
  | .stdin bs writes, w => wireClient writes (cliStdin bs w.client) w
  | .winch row col writes, w => wireClient writes (cliWinch row col w.client) w
  | .hangup reads, w => wireHangup reads w

/-- A client has connected and writes its `HELLO`; the four static buffers are as `malloc` left
them. -/
def wireStart (writes : List WriteEvent) (client : Client) (server : Server)
    (cliSendBuf cliRecvBuf servSendBuf servRecvBuf : Bytes) : Wire :=
  wireClient writes client
    { client := { client with sent := [] }
      server := server
      cliSendBuf := cliSendBuf
      cliRecvBuf := cliRecvBuf
      servSendBuf := servSendBuf
      servRecvBuf := servRecvBuf }

end Sexpect.Source
