import ProtoRecovery.Bus.Basic

/-! # Dispatch: events reach the subscriptions of the moment, while handlers act on the bus

What is left to do stands on an agenda. A publication puts a delivery on it for each subscription
that its topic has then; a delivery puts the acts of the handler on it, ahead of all else. So a
handler's acts are done before the next delivery, and a publication among them is delivered first. -/
namespace ProtoRecovery.Bus

/-- An act on a bus. Whoever subscribes keeps the token under a label. -/
inductive Act (κ τ η ν : Type)
  | subscribe (label : κ) (topic : τ) (handler : η)
  | unsubscribe (label : κ)
  | publish (event : ν)
  deriving DecidableEq, Repr

structure Delivery (η ν : Type) where
  publication : Nat
  subscription : Subscription η
  event : ν
  deriving DecidableEq, Repr

inductive Task (κ τ η ν : Type)
  | act (act : Act κ τ η ν)
  | deliver (delivery : Delivery η ν)

/-- What events are about and what handlers do. An event without a topic reaches nobody. A handler
goes by what reaches it and by all that was delivered before, the latest first. -/
structure Conduct (κ τ η ν : Type) where
  topic : ν → Option τ
  react : (earlier : List (Delivery η ν)) → Delivery η ν → List (Act κ τ η ν)

/-- A bus in use. Where there is no bus, all acts are without effect. -/
structure Session (κ τ η ν : Type) where
  bus : Option (Bus τ η) := some {}
  /-- The tokens that are kept, the latest first. -/
  tokens : List (κ × Token τ) := []
  agenda : List (Task κ τ η ν) := []
  /-- How many events have been published. -/
  publications : Nat := 0
  /-- What has been delivered, the latest first. -/
  delivered : List (Delivery η ν) := []

namespace Session
variable {κ τ η ν : Type} [DecidableEq κ] [DecidableEq τ]

/-- The subscriptions an event reaches if it is published now. -/
def audience (c : Conduct κ τ η ν) (s : Session κ τ η ν) (event : ν) : List (Subscription η) :=
  match s.bus, c.topic event with
  | some bus, some topic => bus.subscriptions topic
  | _, _ => []

/-- Does an act. Of several tokens under a label the latest counts. -/
def perform (c : Conduct κ τ η ν) (s : Session κ τ η ν) : Act κ τ η ν → Session κ τ η ν
  | .subscribe label topic handler =>
    match s.bus with
    | none => s
    | some bus =>
      let (bus, token) := bus.subscribe topic handler
      { s with bus := some bus, tokens := (label, token) :: s.tokens }
  | .unsubscribe label =>
    match s.bus, s.tokens.lookup label with
    | some bus, some token => { s with bus := some (bus.unsubscribe token) }
    | _, _ => s
  | .publish event =>
    let deliveries := (s.audience c event).map fun subscription =>
      Task.deliver ⟨s.publications, subscription, event⟩
    { s with agenda := deliveries ++ s.agenda, publications := s.publications + 1 }

def receive (c : Conduct κ τ η ν) (s : Session κ τ η ν) (d : Delivery η ν) : Session κ τ η ν :=
  { s with
    delivered := d :: s.delivered
    agenda := (c.react s.delivered d).map .act ++ s.agenda }

def step (c : Conduct κ τ η ν) (s : Session κ τ η ν) : Session κ τ η ν :=
  match s.agenda with
  | [] => s
  | .act act :: agenda => perform c { s with agenda } act
  | .deliver d :: agenda => receive c { s with agenda } d

def settle (c : Conduct κ τ η ν) : (steps : Nat) → Session κ τ η ν → Session κ τ η ν
  | 0, s => s
  | steps + 1, s => if s.agenda.isEmpty then s else settle c steps (step c s)

end Session
end ProtoRecovery.Bus
