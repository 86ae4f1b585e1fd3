import PolicyProbe.Policy.Rule

/-!
The desired state of one endpoint: the servers that have to run on it and the destinations that its
client has to ping. Merging adds what is new. A server is known by protocol and port; a client entry
is known by protocol, port and destination, and merging one that is known replaces what is expected
of it in its place.
-/
namespace PolicyProbe

/-- A server that an endpoint has to run. -/
structure ServerEntry where
  protocol : Protocol
  port : Nat
  deriving DecidableEq, Repr, Inhabited

namespace ServerEntry

def layout : Layout ServerEntry :=
  ServerEntry.mk <$> Layout.required "protocol" Protocol.decoder
    <*> Layout.required "port" Port.decoder

def decoder : Decoder ServerEntry := layout.decode

def toJson (s : ServerEntry) : Json :=
  .object [("protocol", s.protocol.toJson), ("port", .nat s.port)]

instance : JsonForm ServerEntry := ⟨decoder, toJson⟩

end ServerEntry

/-- A destination that an endpoint's client has to ping, with what is expected of it. -/
structure ClientEntry where
  protocol : Protocol
  port : Nat
  destination : Address
  connected : Bool
  action : Action
  deriving DecidableEq, Inhabited

namespace ClientEntry

/-- What an entry is known by. -/
abbrev Key := Protocol × Nat × Address

def key (c : ClientEntry) : Key := (c.protocol, c.port, c.destination)

/-- The entry as a destination of a client. -/
def toDestination (c : ClientEntry) : Destination :=
  ⟨c.protocol, c.port, c.destination, c.connected, c.action⟩

def layout : Layout ClientEntry :=
  ClientEntry.mk <$> Layout.required "protocol" Protocol.decoder
    <*> Layout.required "port" Port.decoder <*> Layout.required "destination" Address.decoder
    <*> Layout.required "connected" Decoder.bool <*> Layout.required "action" Action.decoder

def decoder : Decoder ClientEntry := layout.decode

def toJson (c : ClientEntry) : Json :=
  .object [("protocol", c.protocol.toJson), ("port", .nat c.port),
    ("destination", c.destination.toJson), ("connected", .bool c.connected),
    ("action", c.action.toJson)]

instance : JsonForm ClientEntry := ⟨decoder, toJson⟩

end ClientEntry

/-- The desired state of one endpoint. -/
structure StateEntry where
  endpoint : Address
  servers : List ServerEntry
  clients : List ClientEntry
  deriving DecidableEq, Inhabited

namespace StateEntry

/-- The entry of an endpoint that has nothing to do. -/
def empty (endpoint : Address) : StateEntry := ⟨endpoint, [], []⟩

/-- Adds a server unless it is there. -/
def addServer (servers : List ServerEntry) (s : ServerEntry) : List ServerEntry :=
  if servers.contains s then servers else servers ++ [s]

/-- Puts a client in the place of the first one with its key, or at the end. -/
def putClient (clients : List ClientEntry) (c : ClientEntry) : List ClientEntry :=
  match clients with
  | [] => [c]
  | d :: rest => if d.key = c.key then c :: rest else d :: putClient rest c

/-- The entry with servers and clients merged in. -/
def merge (e : StateEntry) (servers : List ServerEntry) (clients : List ClientEntry) : StateEntry :=
  { e with
    servers := servers.foldl addServer e.servers
    clients := clients.foldl putClient e.clients }

def layout : Layout StateEntry :=
  StateEntry.mk <$> Layout.required "endpoint" Address.decoder
    <*> Layout.required "servers" (Decoder.list ServerEntry.decoder)
    <*> Layout.required "clients" (Decoder.list ClientEntry.decoder)

def decoder : Decoder StateEntry := layout.decode

def serversJson (e : StateEntry) : Json := .array (e.servers.map ServerEntry.toJson)

def clientsJson (e : StateEntry) : Json := .array (e.clients.map ClientEntry.toJson)

def toJson (e : StateEntry) : Json :=
  .object [("endpoint", e.endpoint.toJson), ("servers", e.serversJson), ("clients", e.clientsJson)]

instance : JsonForm StateEntry := ⟨decoder, toJson⟩

end StateEntry

end PolicyProbe
