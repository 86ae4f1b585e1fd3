import PolicyProbe.Ping

/-!
A ping over UDP while it is in progress. Its socket is open to everybody: what is sent to it waits
there in order, from its opening on. The ping sends its datagram and then takes the first thing that
waits, whoever sent it; the time for receiving ends it only when nothing waits.
-/
namespace PolicyProbe

/-- Where a ping over UDP is. -/
inductive UdpPhase where
  | sending
  | receiving
  | ended (outcome : Except PingError Unit)

/-- What happens to a ping over UDP: something comes to its socket, its sending ends, it looks
whether something waits, or its time for receiving is over. -/
inductive UdpEvent where
  | arrives (a : Arrival)
  | sent (attempt : Attempt)
  | looks
  | expires

/-- A ping over UDP and what waits at its socket. -/
structure UdpPing where
  inbox : List Arrival
  phase : UdpPhase

namespace UdpPing

/-- A ping whose socket was opened, or could not be. -/
def start : Option String → UdpPing
  | some text => ⟨[], .ended (.error (.io text))⟩
  | none => ⟨[], .sending⟩

/-- Something comes to a socket that is open. -/
def arrive (p : UdpPing) (a : Arrival) : UdpPing :=
  match p.phase with
  | .ended _ => p
  | _ => { p with inbox := p.inbox ++ [a] }

/-- Sending ends. -/
def send (p : UdpPing) (attempt : Attempt) : UdpPing :=
  match p.phase, attempt.outcome .send with
  | .sending, .ok _ => { p with phase := .receiving }
  | .sending, .error e => { p with phase := .ended (.error e) }
  | _, _ => p

/-- Takes the first thing that waits; `otherwise` is the ping if nothing does. -/
def take (p : UdpPing) (otherwise : UdpPing) : UdpPing :=
  match p.phase, p.inbox with
  | .receiving, .datagram _ _ _ :: rest => ⟨rest, .ended (.ok ())⟩
  | .receiving, .failure text :: rest => ⟨rest, .ended (.error (.io text))⟩
  | .receiving, [] => otherwise
  | _, _ => p

def step (p : UdpPing) : UdpEvent → UdpPing
  | .arrives a => p.arrive a
  | .sent attempt => p.send attempt
  | .looks => p.take p
  | .expires => p.take { p with phase := .ended (.error (.timeout .receive)) }

/-- The ping after some events. -/
def run (p : UdpPing) (events : List UdpEvent) : UdpPing := events.foldl step p

end UdpPing

end PolicyProbe
