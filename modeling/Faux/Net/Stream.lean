import Faux.Net.DataFlow

/-! # From the network to the application

The transport and the socket of an application together. What the transport sends on the asynchronous channel of the connection
arrives one event after the other, at any time. -/

namespace Faux
open Lib

structure NetStream where
  flow : DataFlow
  app : StreamSocket

namespace NetStream

inductive Event where
  | net (e : DataFlow.Event)
  | arrive
  | read (count : Nat) (blocking : Bool)
  | pass

/-- The events that have arrived. -/
def arrived (app : StreamSocket) : List DataEvent := app.sent ++ if app.closed then [[]] else []

def step (c : NetStream) : Event → Option NetStream
  | .net e => (c.flow.step e).map fun flow => { c with flow }
  | .arrive => do
    let e ← c.flow.channel[(arrived c.app).length]?
    let app ← c.app.step (if e = [] then .close else .data e)
    some { c with app }
  | .read count blocking => (c.app.step (.read count blocking)).map fun app => { c with app }
  | .pass => (c.app.step .pass).map fun app => { c with app }

def Start (c : NetStream) : Prop := (∃ claimed, c.flow = .new claimed) ∧ c.app.Start

def Steady (c : NetStream) : Event → Prop
  | .net e => c.flow.Steady e
  | _ => True

end NetStream
end Faux
