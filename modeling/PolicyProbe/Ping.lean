import PolicyProbe.Client

/-!
Pings. A ping over TCP connects, sends and receives; one over UDP sends a datagram from a fresh
socket and takes the first datagram that arrives. Each of these steps has the same limited time. A
network says for every destination how the steps go.
-/
namespace PolicyProbe

/-- How a step of a ping ends within its time, or that it does not. -/
inductive Attempt where
  | done
  | late
  | failed (text : String)
  deriving DecidableEq, Repr

/-- The end of a step as the outcome of a ping. -/
def Attempt.outcome (step : PingStep) : Attempt → Except PingError Unit
  | .done => .ok ()
  | .late => .error (.timeout step)
  | .failed text => .error (.io text)

/-- How the steps over TCP go. Receiving is done also when the peer closes without a byte. -/
structure TcpExchange where
  connect : Attempt
  send : Attempt
  receive : Attempt

/-- The outcome of a ping over TCP. -/
def TcpExchange.outcome (x : TcpExchange) : Except PingError Unit := do
  x.connect.outcome .connect
  x.send.outcome .send
  x.receive.outcome .receive

/-- What arrives at a socket: a datagram with its sender and its bytes, or a failure to receive. -/
inductive Arrival where
  | datagram (sender : Address) (port : Nat) (payload : List UInt8)
  | failure (text : String)

/-- How the steps over UDP go: `socket` is a failure to open one, and `arrivals` is what arrives
within the time for receiving, in order. -/
structure UdpExchange where
  socket : Option String
  send : Attempt
  arrivals : List Arrival

/-- How receiving ends: the first arrival decides. -/
def UdpExchange.receive (x : UdpExchange) : Attempt :=
  match x.arrivals with
  | [] => .late
  | .datagram _ _ _ :: _ => .done
  | .failure text :: _ => .failed text

/-- The outcome of a ping over UDP. -/
def UdpExchange.outcome (x : UdpExchange) : Except PingError Unit := do
  match x.socket with
  | some text => .error (.io text)
  | none =>
    x.send.outcome .send
    x.receive.outcome .receive

/-- How the steps go for every address and port. -/
structure Network where
  tcp : Address → Nat → TcpExchange
  udp : Address → Nat → UdpExchange

namespace Network

/-- The outcome of the ping of a destination. -/
def outcome (net : Network) (d : Destination) : Except PingError Unit :=
  match d.protocol with
  | .tcp => (net.tcp d.address d.port).outcome
  | .udp => (net.udp d.address d.port).outcome

/-- What a network without routes answers to a first packet: no datagram goes to port zero, and
nothing else goes anywhere. -/
def unroutedFailure (protocol : Protocol) (port : Nat) : SystemError :=
  if protocol = .udp ∧ port = 0 then .invalidArgument else .unreachable

/-- A network without routes. -/
def unrouted : Network where
  tcp _ port := ⟨.failed (unroutedFailure .tcp port).message, .done, .done⟩
  udp _ port := ⟨none, .failed (unroutedFailure .udp port).message, []⟩

/-- One exchange of bytes with a server, as a peer of the agent makes it. -/
def exchange (net : Network) (protocol : Protocol) (a : Address) (port : Nat) :
    Except PingError Unit :=
  net.outcome ⟨protocol, port, a, true, .allow⟩

end Network

end PolicyProbe
