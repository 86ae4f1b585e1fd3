import PolicyProbe.Worker.Spec

/-!
The client of an endpoint goes through its destinations in a circle. Each cycle takes the next
window of destinations, as many as the request rate allows but none twice, and pings all of them.
What a ping finds becomes one record, and every record goes to the sink in the order in which the
pings end, whatever the sink answers.
-/
namespace PolicyProbe

/-- A client between two cycles: `cursor` is the position of the next destination. -/
structure Client where
  source : Address
  destinations : List Destination
  rate : Nat
  cursor : Nat
  deriving DecidableEq

/-- What is made up for a record: its identifier, the measured latency and the time. -/
structure Stamp where
  id : Identifier
  latency : Double
  created : Instant

/-- Where records go. The answer of a sink is for those who want it. -/
abbrev Sink (σ : Type) := Record → σ → Except QueueError Unit × σ

namespace Client

/-- The client of a specification before its first cycle. -/
def ofSpec (spec : ClientSpec) : Client :=
  ⟨spec.source, spec.destinations, min spec.settings.requestRate spec.destinations.length, 0⟩

/-- The next `count` destinations from a position on, and the position behind them. -/
def window (destinations : List Destination) : Nat → Nat → List Destination × Nat
  | 0, cursor => ([], cursor)
  | count + 1, cursor =>
    match destinations[cursor]? with
    | none => ([], cursor)
    | some d =>
      let (rest, cursor) := window destinations count ((cursor + 1) % destinations.length)
      (d :: rest, cursor)

/-- The next window of destinations, and the client behind it. -/
def nextBatch (c : Client) : List Destination × Client :=
  let (batch, cursor) := window c.destinations c.rate c.cursor
  (batch, { c with cursor })

/-- The record of a ping that ended with `outcome`. -/
def record (source : Address) (d : Destination) (outcome : Except PingError Unit) (stamp : Stamp) :
    Record where
  id := stamp.id
  src := source
  dst := d.address
  port := d.port
  protocol := d.protocol
  latency := stamp.latency
  error := match outcome with
    | .ok _ => none
    | .error e => some e.message
  success := verdict outcome.isOk d.connected d.action
  connected := d.connected
  created := stamp.created

/-- Hands records to a sink one by one and counts them. -/
def deliver {σ : Type} (sink : Sink σ) : List Record → σ → Nat × σ
  | [], s => (0, s)
  | r :: rest, s =>
    let (produced, s) := deliver sink rest (sink r s).2
    (produced + 1, s)

/-- One cycle: the window is pinged, each ping by its place in the window, and the records are
delivered in the order in which `ended` puts them. The answer is the number of records, the client
behind the window, and the sink. -/
def cycle {σ : Type} (ping : Nat → Destination → Except PingError Unit × Stamp)
    (ended : List Record → List Record) (sink : Sink σ) (c : Client) (s : σ) : Nat × Client × σ :=
  let (batch, next) := c.nextBatch
  let records := batch.mapIdx fun i d => record c.source d (ping i d).1 (ping i d).2
  let (produced, s) := deliver sink (ended records) s
  (produced, next, s)

end Client

end PolicyProbe
