import AgentWorkflow.Lib.Machine
import AgentWorkflow.Lib.PyText
import AgentWorkflow.Lib.Registry

/-!
# Message brokers (`ws_broker.py`)

`InMemoryBroker` calls the handlers of a channel directly. `RedisBroker` shares one
pubsub connection between all channels: `subscribe` and `unsubscribe` run under
the broker lock and hold it across their one await, and the reader loop hands
what Redis delivers to the handlers.
-/

namespace AgentWorkflow.ControlPlane
open AgentWorkflow.Lib

variable {η : Type} [DecidableEq η]

abbrev Channel := PyStr

/-- One envelope and the handlers it is handed to, if anything arrives at all. -/
abbrev Delivery (ε η : Type) := Option (ε × Finset η)

def Delivery.Calls {ε : Type} (d : Delivery ε η) (handler : η) (envelope : ε) : Prop :=
  ∃ handlers, d = some (envelope, handlers) ∧ handler ∈ handlers

/-! ### `InMemoryBroker` -/

namespace InMemoryBroker

def subscribe (handlers : Registry Channel η) (channel : Channel) (handler : η) : Registry Channel η :=
  handlers.add channel handler

def unsubscribe (handlers : Registry Channel η) (channel : Channel) (handler : η) : Registry Channel η :=
  match handlers.lookup channel with
  | none => handlers
  | some _ => handlers.remove channel handler

def publish {ε : Type} (handlers : Registry Channel η) (channel : Channel) (envelope : ε) :
    Delivery ε η := some (envelope, handlers.members channel)

end InMemoryBroker

/-! ### `RedisBroker` -/

namespace RedisBroker

def wire (pre : PyStr) (channel : Channel) : PyStr :=
  if pre.isPrefixOf channel then channel else pre ++ channel

def unwire (pre : PyStr) (wireChannel : PyStr) : Channel :=
  if pre.isPrefixOf wireChannel then wireChannel.drop pre.length else wireChannel

inductive Call (η : Type) where
  | subscribe (channel : Channel) (handler : η)
  | unsubscribe (channel : Channel) (handler : η)
deriving DecidableEq

/-- How an await, and with it the call that made it, can end. -/
inductive Ending where
  | returned
  | raised
  | cancelled
deriving DecidableEq

/-- `wires` are the channels the pubsub connection is subscribed to, `lock` is
the call that awaits the connection while it holds the broker lock. -/
structure State (η : Type) where
  handlers : Registry Channel η
  hasSubscription : Bool
  wires : Finset PyStr
  lock : Option (Call η)

def State.initialized : State η :=
  { handlers := ∅, hasSubscription := false, wires := ∅, lock := none }

/-- `if not any(self._handlers.values()): self._has_subscription.clear()` -/
def State.clearIdle (s : State η) : State η :=
  { s with hasSubscription := if s.handlers.anyMember then s.hasSubscription else false }

abbrev Finished (η : Type) := Option (Call η × Ending)

def enterSubscribe (channel : Channel) (handler : η) (s : State η) : State η × Finished η :=
  let handlers := s.handlers.members channel
  if handler ∈ handlers then (s, some (.subscribe channel handler, .returned))
  else
    let s' := { s with handlers := s.handlers.add channel handler }
    if handlers = ∅ then ({ s' with lock := some (.subscribe channel handler) }, none)
    else ({ s' with hasSubscription := true }, some (.subscribe channel handler, .returned))

def settleSubscribe (pre : PyStr) (channel : Channel) (handler : η) (s : State η) : Ending → State η
  | .returned =>
    { s with wires := insert (wire pre channel) s.wires, hasSubscription := true, lock := none }
  | .raised =>
    State.clearIdle { s with handlers := s.handlers.remove channel handler, lock := none }
  | .cancelled => { s with lock := none }

def enterUnsubscribe (channel : Channel) (handler : η) (s : State η) : State η × Finished η :=
  if handler ∉ s.handlers.members channel then (s, some (.unsubscribe channel handler, .returned))
  else
    let s' := { s with handlers := s.handlers.remove channel handler }
    if (s.handlers.members channel).erase handler = ∅ then
      ({ s' with lock := some (.unsubscribe channel handler) }, none)
    else (s'.clearIdle, some (.unsubscribe channel handler, .returned))

/-- `removed`: a `pubsub.unsubscribe` that failed had taken effect all the same. -/
def settleUnsubscribe (pre : PyStr) (channel : Channel) (removed : Bool) (s : State η) (o : Ending) :
    State η :=
  let gone : Bool := o = .returned || removed
  let s' := { s with wires := if gone then s.wires.erase (wire pre channel) else s.wires, lock := none }
  -- CancelledError is no Exception: it leaves before the gate is cleared
  if o = .cancelled then s' else s'.clearIdle

/-- `enter`: a task gets the lock and runs to its await or its end. `settle`: the
await of the task that holds the lock ends. -/
inductive Event (η : Type) where
  | enter (call : Call η)
  | settle (o : Ending) (removed : Bool)

def step (pre : PyStr) (s : State η) (e : Event η) : State η × Finished η :=
  match s.lock, e with
  | none, .enter (.subscribe channel handler) => enterSubscribe channel handler s
  | none, .enter (.unsubscribe channel handler) => enterUnsubscribe channel handler s
  | some (.subscribe channel handler), .settle o _ =>
    (settleSubscribe pre channel handler s o, some (.subscribe channel handler, o))
  | some (.unsubscribe channel handler), .settle o removed =>
    (settleUnsubscribe pre channel removed s o, some (.unsubscribe channel handler, o))
  | _, _ => (s, none)

def machine (pre : PyStr) : Machine (State η) (Event η) (Finished η) := ⟨step pre⟩

/-! ### Delivery -/

/-- `json.dumps` and `json.loads` on envelopes. -/
structure Codec (ε : Type) where
  dumps : ε → PyStr
  loads : PyStr → Option ε
  loads_dumps : ∀ e, loads (dumps e) = some e

structure Message where
  wireChannel : PyStr
  data : PyStr

def publish {ε : Type} (codec : Codec ε) (pre : PyStr) (channel : Channel) (envelope : ε) : Message :=
  { wireChannel := wire pre channel, data := codec.dumps envelope }

/-- `get_message`: the connection yields what was published on a channel it is
subscribed to, once the gate is open. -/
def getMessage (s : State η) (published : Message) : Option Message :=
  if s.hasSubscription = true ∧ published.wireChannel ∈ s.wires then some published else none

/-- One turn of `_reader_loop`. -/
def readerLoop {ε : Type} (codec : Codec ε) (pre : PyStr) (s : State η) (published : Message) :
    Option (ε × Finset η) := do
  let msg ← getMessage s published
  let channel := unwire pre msg.wireChannel
  let envelope ← codec.loads msg.data
  return (envelope, s.handlers.members channel)

end RedisBroker

end AgentWorkflow.ControlPlane
