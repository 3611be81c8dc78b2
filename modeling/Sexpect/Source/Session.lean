import Sexpect.Source.Client
import Sexpect.Source.Server

/-!
# One client and the server

The two programs joined by a connection that loses and reorders nothing.  What
the client has written is `client.sent`, of which the server has taken the first
`taken` messages; what the server has written since the client connected is
`toClient`, of which the client has received the first `received`.  `select` of
the server reports the listening socket only while the client is waiting in its
queue and the connection only while a message is there, and no `msg_send` fails.
Nobody kills either side, but the server may end on its own: then the `msg_recv` of
the client fails behind the last message (`hangup`).
Everything else the system answers is free, as is the order of the steps.
-/
namespace Sexpect.Source
open Sexpect.Lib

structure Session where
  client : Client
  server : Server
  /-- The messages the server had sent before. -/
  base : Nat
  waiting : Bool := true
  received : Nat := 0
  taken : Nat := 0
  /-- The client has found the connection lost. -/
  lost : Bool := false

/-- A client has connected to a server. -/
def sessionStart (client : Client) (server : Server) : Session :=
  { client := client, server := server, base := server.hist.sent.length }

def Session.toClient (p : Session) : List Ttlv := p.server.hist.sent.drop p.base

/-- The answers of the system that concern the connection. -/
def Session.sys (p : Session) (sys : Sys) : Sys :=
  { sys with
    select := match sys.select with
      | .ready fds => .ready { fds with
          listen := fds.listen && p.waiting
          sock := fds.sock && decide (p.taken < p.client.sent.length) }
      | answer => answer
    msg := p.client.sent[p.taken]?
    sent := true }

/-- Whether the next stretch of the server receives a message. -/
def Server.receives (s : Server) : Bool :=
  match s.pc with
  | .recv fds => s.conn.sock && fds.sock
  | _ => false

/-- Whether the next stretch of the server accepts a client. -/
def Server.accepts (s : Server) (sys : Sys) : Bool :=
  match s.pc with
  | .accept fds => fds.listen && decide (sys.accept = .conn)
  | _ => false

/-- The process of the server has ended. -/
def Pc.dead : Pc → Bool
  | .exited | .aborted | .crashed => true
  | _ => false

/-- Whether the client waits for a message. -/
def Client.waits (c : Client) : Bool :=
  match c.pc with
  | .exited _ | .crashed => false
  | _ => true

/-- Whether the next `msg_recv` of the client finds the end of the connection. -/
def Session.over (p : Session) : Bool :=
  p.client.waits && decide (p.received = p.toClient.length) &&
    (p.server.pc.dead || !p.waiting && !p.server.conn.sock)

inductive Event where
  | server (i : Input)
  | deliver
  | stdin (bs : Bytes)
  | winch (row col : Int)
  | hangup

def sessionServer (host : Host) (p : Session) : Input → Session
  | .tick sys =>
    { p with
      server := servStep host (.tick (p.sys sys)) p.server
      waiting := p.waiting && !p.server.accepts sys
      taken := if p.server.receives then p.taken + 1 else p.taken }
  | i => { p with server := servStep host i p.server }

def sessionDeliver (p : Session) : Session :=
  match p.toClient[p.received]? with
  | some msg => { p with client := cliRecv msg p.client, received := p.received + 1 }
  | none => p

def sessionHangup (p : Session) : Session :=
  if p.over then { p with client := cliLost p.client, lost := true } else p

def sessionStep (host : Host) : Event → Session → Session
  | .server i, p => sessionServer host p i
  | .deliver, p => sessionDeliver p
  | .stdin bs, p => { p with client := cliStdin bs p.client }
  | .winch row col, p => { p with client := cliWinch row col p.client }
  | .hangup, p => sessionHangup p

end Sexpect.Source
