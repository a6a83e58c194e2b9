/-
What can be asked of a flow table that may change it, and its answers. A
flow is addressed by its client, and then it is the one the client has at
that moment, or by its number, and then it is the same one for good.
-/
import LinkAdaptation.Flow.Run
import LinkAdaptation.FlowTable

namespace LinkAdaptation

/-- A request that can change a table or one of its flows. -/
inductive FlowTable.Request where
  | register (client : Client) (rates : RateSet) (config : Config)
      (entropy : Random.Key)
  | remove (client : Client)
  /-- To the flow that the client has. -/
  | toClient (client : Client) (request : Flow.Request)
  /-- To the flow with the number. -/
  | toFlow (id : FlowId) (request : Flow.Request)

/-- An answer of a flow table. -/
inductive FlowTable.Reply where
  | registered
  | removed (found : Bool)
  | answered (reply : Flow.Reply)
  | refused (error : Error)
  /-- No flow has the number. -/
  | absent
  deriving DecidableEq

namespace FlowTable

/-- The table after a request to the flow with a number, and the answer. -/
def handleFlow (t : FlowTable) (id : FlowId) (request : Flow.Request) :
    Checked (FlowTable × Reply) :=
  match t.flow? id with
  | none => .ok (t, .absent)
  | some ⟨_, flow⟩ => do
      let (flow, reply) ← flow.handle request
      return (t.setFlow id flow, .answered reply)

/-- The table after a request, and the answer. A refused request changes
nothing. -/
def handle (t : FlowTable) : Request → Checked (FlowTable × Reply)
  | .register client rates config entropy =>
      match t.register client rates config entropy with
      | .ok after => .ok (after, .registered)
      | .error error => .ok (t, .refused error)
  | .remove client =>
      let (after, found) := t.remove client
      .ok (after, .removed found)
  | .toClient client request =>
      match t.id client with
      | .ok id => t.handleFlow id request
      | .error error => .ok (t, .refused error)
  | .toFlow id request => t.handleFlow id request

/-- The table after a list of requests, and the answers in their order. -/
def run (t : FlowTable) : List Request → Checked (FlowTable × List Reply)
  | [] => .ok (t, [])
  | request :: rest => do
      let (t, reply) ← t.handle request
      let (t, replies) ← t.run rest
      return (t, reply :: replies)

end FlowTable

end LinkAdaptation
