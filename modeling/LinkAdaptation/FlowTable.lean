/-
The flows of all clients. Registering a client opens a new flow and gives
it a number, which is its identity for good: whoever holds the number can
go on using the flow after the client was removed, or registered anew with
another flow. The table proper relates clients to the flows they have now,
in ascending order of the clients.
-/
import LinkAdaptation.Flow.Basic

namespace LinkAdaptation

/-- The identifier of a client. -/
abbrev Client := UInt32

/-- A flow over whatever candidates it has. -/
structure AnyFlow where
  rates : RateSet
  flow : Flow rates

/-- The number of a flow: how many were opened before it. -/
abbrev FlowId := Nat

/-- The clients' flows, and all flows ever opened. -/
structure FlowTable where
  /-- Which flow a client has, in ascending order of clients. -/
  registered : List (Client × FlowId)
  /-- Every flow opened, by number. -/
  opened : Array AnyFlow

namespace FlowTable

/-- A table without clients. -/
def empty : FlowTable := { registered := [], opened := #[] }

-- ============================================================= clients

/-- The entries with one more, in its place; it replaces an entry of the
same client. -/
def enter (client : Client) (id : FlowId) :
    List (Client × FlowId) → List (Client × FlowId)
  | [] => [(client, id)]
  | (other, held) :: rest =>
      if client < other then (client, id) :: (other, held) :: rest
      else if client = other then (client, id) :: rest
      else (other, held) :: enter client id rest

/-- The registered clients, in ascending order. -/
def clients (t : FlowTable) : List Client := t.registered.map (·.1)

/-- The number of registered clients. -/
def size (t : FlowTable) : Nat := t.registered.length

/-- Which flow a client has. -/
def id (t : FlowTable) (client : Client) : Except Error FlowId :=
  match t.registered.lookup client with
  | some id => .ok id
  | none => .error (.unknownClient client)

/-- Opens a flow for a client, which gives up the one it had. A refused
configuration changes nothing. -/
def register (t : FlowTable) (client : Client) (rates : RateSet)
    (config : Config) (entropy : Random.Key) : Except Error FlowTable := do
  let flow ← Flow.start rates config entropy
  let registered := enter client t.opened.size t.registered
  return { registered, opened := t.opened.push ⟨rates, flow⟩ }

/-- Takes a client out of the table; the answer tells whether it was in
it. -/
def remove (t : FlowTable) (client : Client) : FlowTable × Bool :=
  let rest := t.registered.filter (·.1 != client)
  ({ t with registered := rest }, (t.registered.lookup client).isSome)

-- =============================================================== flows

/-- The flow of a number. -/
def flow? (t : FlowTable) (id : FlowId) : Option AnyFlow := t.opened[id]?

/-- The flow that a client has. -/
def get (t : FlowTable) (client : Client) : Except Error AnyFlow := do
  match t.flow? (← t.id client) with
  | some flow => return flow
  | none => throw (.unknownClient client)

/-- The table with another state of the flow of a number. -/
def setFlow {rates : RateSet} (t : FlowTable) (id : FlowId)
    (flow : Flow rates) : FlowTable :=
  { t with opened := t.opened.setIfInBounds id ⟨rates, flow⟩ }

/-- The throughput that a client's back feedback promises. -/
def throughput? (t : FlowTable) (client : Client) :
    Except Error (Option Float) := do
  return (← t.get client).flow.throughput? .back

end FlowTable

end LinkAdaptation
