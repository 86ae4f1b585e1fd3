import PolicyProbe.Address

/-!
Echo servers. Over UDP every datagram goes back to its sender, cut to the size of a packet, and no
failure to receive or to send ends the server. Over TCP every connection gets back what a single
read of at most a packet found, and is closed; connections go on by themselves, next to the server
that accepted them. A server ends when the flag that it watches is set or when nobody is left to set
it. It looks at the flag only between two datagrams or connections.
-/
namespace PolicyProbe.Echo

/-- The size of a packet. -/
def packetSize : Nat := 1024

/-- Where a datagram comes from. -/
abbrev Peer := Address × Nat

/-- The flag that a server watches, and whether somebody can still change it. -/
structure Shutdown where
  value : Bool
  held : Bool
  deriving DecidableEq, Repr

/-- What happens to a flag. -/
inductive Signal where
  | set (value : Bool)
  | dropped
  deriving DecidableEq, Repr

namespace Shutdown

/-- A flag that has not been touched. -/
def fresh : Shutdown := ⟨false, true⟩

/-- The flag after a signal. -/
def after (w : Shutdown) : Signal → Shutdown
  | .set value => if w.held then { w with value } else w
  | .dropped => { w with held := false }

/-- Whether a server that looks at the flag ends. -/
def stops (w : Shutdown) : Bool := w.value || !w.held

end Shutdown

/-! ## Datagrams -/

/-- What the socket has for a receive. -/
inductive Delivery where
  | datagram (peer : Peer) (bytes : List UInt8)
  | failure
  deriving DecidableEq

/-- Where a datagram server is: at its choice between the next delivery and the flag, at sending the
first `count` bytes of its buffer, or at its end. -/
inductive DatagramPhase where
  | receiving
  | sending (peer : Peer) (count : Nat)
  | ended
  deriving DecidableEq

/-- An answer, and whether the network took it. -/
structure Reply where
  peer : Peer
  bytes : List UInt8
  sent : Bool
  deriving DecidableEq

/-- What happens to a datagram server: something comes to its socket, it receives, its sending ends,
the flag changes, or it sees the flag. -/
inductive DatagramEvent where
  | arrives (d : Delivery)
  | receives
  | sends (sent : Bool)
  | signal (x : Signal)
  | ends
  deriving DecidableEq

/-- A datagram server: its one buffer, what waits at its socket, and the answers so far. -/
structure DatagramServer where
  buffer : List UInt8
  inbox : List Delivery
  phase : DatagramPhase
  shutdown : Shutdown
  replies : List Reply
  deriving DecidableEq

namespace DatagramServer

/-- A server before its first datagram. -/
def fresh : DatagramServer := ⟨List.replicate packetSize 0, [], .receiving, .fresh, []⟩

/-- Puts the front of a datagram at the front of a buffer; the number of bytes that it took. -/
def fill (buffer bytes : List UInt8) : List UInt8 × Nat :=
  let taken := bytes.take buffer.length
  (taken ++ buffer.drop taken.length, taken.length)

/-- Receives the first delivery that waits. -/
def receive (s : DatagramServer) : DatagramServer :=
  match s.phase, s.inbox with
  | .receiving, .datagram peer bytes :: rest =>
    let (buffer, count) := fill s.buffer bytes
    { s with buffer, inbox := rest, phase := .sending peer count }
  | .receiving, .failure :: rest => { s with inbox := rest }
  | _, _ => s

/-- Sending ends, one way or the other. -/
def reply (s : DatagramServer) (sent : Bool) : DatagramServer :=
  match s.phase with
  | .sending peer count =>
    { s with phase := .receiving, replies := s.replies ++ [⟨peer, s.buffer.take count, sent⟩] }
  | _ => s

def step (s : DatagramServer) : DatagramEvent → DatagramServer
  | .arrives d => if s.phase = .ended then s else { s with inbox := s.inbox ++ [d] }
  | .receives => s.receive
  | .sends sent => s.reply sent
  | .signal x => { s with shutdown := s.shutdown.after x }
  | .ends => if s.phase = .receiving ∧ s.shutdown.stops then { s with phase := .ended } else s

/-- The server after some events. -/
def run (s : DatagramServer) (events : List DatagramEvent) : DatagramServer := events.foldl step s

end DatagramServer

/-! ## Connections -/

/-- Where the task of a connection is: at its read, at writing what is left of the echo, or at its
end. -/
inductive ConnectionPhase where
  | waiting
  | echoing (rest : List UInt8)
  | closed
  deriving DecidableEq

/-- What happens to a connection: its peer sends or closes its side, the read ends, fails or takes
too long, and some of the echo is written or cannot be. -/
inductive ConnectionEvent where
  | arrives (bytes : List UInt8)
  | finishes
  | reads (count : Nat)
  | readFails
  | expires
  | writes (count : Nat)
  | writeFails
  deriving DecidableEq

/-- A connection: what the peer has sent and whether there will be more, what the read took, what
has been written, and whether writing failed. -/
structure Connection where
  sent : List UInt8
  finished : Bool
  taken : Option (List UInt8)
  written : List UInt8
  broken : Bool
  phase : ConnectionPhase
  deriving DecidableEq

namespace Connection

/-- A connection that has just been accepted. -/
def fresh : Connection := ⟨[], false, none, [], false, .waiting⟩

/-- Whether a read can end with so many bytes: at most a packet and what is there, and none only
when there will be none. -/
def mayRead (c : Connection) (count : Nat) : Bool :=
  decide (count ≤ packetSize) && decide (count ≤ c.sent.length) &&
    (decide (0 < count) || c.finished && c.sent.isEmpty)

/-- Goes on with an echo of which `rest` is left. -/
def echo (c : Connection) (rest : List UInt8) : Connection :=
  { c with phase := if rest.isEmpty then .closed else .echoing rest }

/-- The single read. -/
def read (c : Connection) (count : Nat) : Connection :=
  if c.phase = .waiting ∧ c.mayRead count then
    { c with taken := some (c.sent.take count) }.echo (c.sent.take count)
  else c

/-- Gives up before the read. -/
def drop (c : Connection) : Connection :=
  if c.phase = .waiting then { c with phase := .closed } else c

/-- Writes some more of the echo. -/
def write (c : Connection) (count : Nat) : Connection :=
  match c.phase with
  | .echoing rest =>
    if 0 < count ∧ count ≤ rest.length then
      { c with written := c.written ++ rest.take count }.echo (rest.drop count)
    else c
  | _ => c

/-- Gives up writing. -/
def fail (c : Connection) : Connection :=
  match c.phase with
  | .echoing _ => { c with broken := true, phase := .closed }
  | _ => c

def step (c : Connection) : ConnectionEvent → Connection
  | .arrives bytes => if c.finished then c else { c with sent := c.sent ++ bytes }
  | .finishes => { c with finished := true }
  | .reads count => c.read count
  | .readFails => c.drop
  | .expires => c.drop
  | .writes count => c.write count
  | .writeFails => c.fail

/-- The connection after some events. -/
def run (c : Connection) (events : List ConnectionEvent) : Connection := events.foldl step c

end Connection

/-- What happens to a stream server and to its connections, which are numbered in the order in which
they are accepted. -/
inductive StreamEvent where
  | accepted
  | acceptFailed
  | connection (i : Nat) (e : ConnectionEvent)
  | signal (x : Signal)
  | ends
  deriving DecidableEq

/-- A stream server: its connections, and whether it is accepting. -/
structure StreamServer where
  connections : List Connection
  serving : Bool
  shutdown : Shutdown
  deriving DecidableEq

namespace StreamServer

/-- A server before its first connection. -/
def fresh : StreamServer := ⟨[], true, .fresh⟩

def step (s : StreamServer) : StreamEvent → StreamServer
  | .accepted => if s.serving then { s with connections := s.connections ++ [.fresh] } else s
  | .acceptFailed => s
  | .connection i e => { s with connections := s.connections.modify i (·.step e) }
  | .signal x => { s with shutdown := s.shutdown.after x }
  | .ends => if s.shutdown.stops then { s with serving := false } else s

/-- The server after some events. -/
def run (s : StreamServer) (events : List StreamEvent) : StreamServer := events.foldl step s

end StreamServer

end PolicyProbe.Echo
