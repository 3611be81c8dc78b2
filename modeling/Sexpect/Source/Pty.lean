import Sexpect.Source.Server

/-!
# The server and its pty

The pty is a queue of the octets the child has written and the server has not read
yet.  What a `read` on the ptm answers is decided by the queue and by the choices in
`PtyRead`: how often it is interrupted, how long a non-empty prefix of the queue it
returns, and what it answers when the queue is empty.  `written` records all the
child has written.
-/
namespace Sexpect.Source
open Sexpect.Lib

/-- The answers of a `read` with nothing to return. -/
inductive NothingRead where
  | eof
  | eagain
  | error
  deriving DecidableEq, Repr

def NothingRead.answer : NothingRead → PtmRead
  | .eof => .eof
  | .eagain => .eagain
  | .error => .error

/-- The choices of the reads of one stretch; `chunk + 1` octets are returned at most. -/
structure PtyRead where
  interrupts : Nat := 0
  chunk : Nat := 4095
  empty : NothingRead := .eagain
  deriving DecidableEq, Repr

def ptmAnswers (queue : Bytes) (r : PtyRead) : List PtmRead :=
  List.replicate r.interrupts .eintr ++
    [if queue = [] then r.empty.answer else .data (queue.take (r.chunk + 1))]

structure Terminal where
  server : Server
  queue : Bytes := []
  written : Bytes := []
  deriving DecidableEq, Repr

inductive PtyEvent where
  | tick (sys : Sys) (read : PtyRead)
  | child (e : ChildEvent)
  | sigCHLD
  | write (bs : Bytes)

/-- The octets a step of the server has read leave the queue. -/
def Terminal.serve (t : Terminal) (server : Server) : Terminal :=
  { t with
    server := server
    queue := t.queue.drop (server.hist.stream.length - t.server.hist.stream.length) }

/-- Only a running child writes. -/
def Terminal.write (bs : Bytes) (t : Terminal) : Terminal :=
  if t.server.child = .running then
    { t with queue := t.queue ++ bs, written := t.written ++ bs }
  else t

def ptyStep (host : Host) : PtyEvent → Terminal → Terminal
  | .tick sys read, t =>
    t.serve (servStep host (.tick { sys with ptm := ptmAnswers t.queue read }) t.server)
  | .child e, t => t.serve (servStep host (.child e) t.server)
  | .sigCHLD, t => t.serve (servStep host .sigCHLD t.server)
  | .write bs, t => t.write bs

end Sexpect.Source
