import PolicyProbe.Desired.Store

/-!
Desired state in memory: the entries by endpoint. Nothing is ever refused.
-/
namespace PolicyProbe

instance : KeyOrder Address := ⟨Address.lt⟩

/-- The entries by endpoint. -/
structure MemoryState where
  entries : OrderedMap Address StateEntry

namespace MemoryState

def empty : MemoryState := ⟨[]⟩

/-- The entry of an endpoint. -/
def get? (endpoint : Address) (s : MemoryState) : Option StateEntry := s.entries.find? endpoint

/-- Merges servers and clients into the entry of an endpoint. -/
def update (endpoint : Address) (servers : List ServerEntry) (clients : List ClientEntry)
    (s : MemoryState) : MemoryState :=
  let entry := (s.get? endpoint).getD (.empty endpoint)
  ⟨s.entries.insert endpoint (entry.merge servers clients)⟩

/-- Deletes one entry, or all of them; the number of entries that went. -/
def delete (endpoint : Option Address) (s : MemoryState) : Nat × MemoryState :=
  match endpoint with
  | some endpoint => ((s.get? endpoint).toList.length, ⟨s.entries.erase endpoint⟩)
  | none => (s.entries.length, empty)

instance : DesiredStore MemoryState where
  update endpoint servers clients s := (.ok (), s.update endpoint servers clients)
  get endpoint s := .ok (s.get? endpoint)
  list s := .ok s.entries.values
  delete endpoint s :=
    let (removed, s) := s.delete endpoint
    (.ok removed, s)

end MemoryState

end PolicyProbe
