/-! # An event bus: who has subscribed to which topic -/
namespace ProtoRecovery

/-- A subscription. Its serial tells it apart from any other, also from one of an equal handler. -/
structure Subscription (η : Type) where
  serial : Nat
  handler : η
  deriving DecidableEq, Repr

structure Token (τ : Type) where
  topic : τ
  serial : Nat
  deriving DecidableEq, Repr

/-- The subscriptions to each topic, in the order in which they were made. A topic without
subscriptions is not listed. -/
structure Bus (τ η : Type) where
  table : List (τ × List (Subscription η)) := []
  /-- The serial of the next subscription. -/
  next : Nat := 0
  deriving Repr

namespace Bus
variable {τ η : Type} [DecidableEq τ]

def subscriptions (b : Bus τ η) (topic : τ) : List (Subscription η) := (b.table.lookup topic).getD []

/-- Replaces the subscriptions to a topic; the topic goes with the last of them. -/
def assign (b : Bus τ η) (topic : τ) (subscriptions : List (Subscription η)) : Bus τ η :=
  let others := b.table.filter fun entry => entry.1 != topic
  { b with table := if subscriptions.isEmpty then others else (topic, subscriptions) :: others }

def subscribe (b : Bus τ η) (topic : τ) (handler : η) : Bus τ η × Token τ :=
  ({ b.assign topic (b.subscriptions topic ++ [⟨b.next, handler⟩]) with next := b.next + 1 },
    ⟨topic, b.next⟩)

/-- Takes away the subscription of a token, if it is still there. -/
def unsubscribe (b : Bus τ η) (token : Token τ) : Bus τ η :=
  b.assign token.topic ((b.subscriptions token.topic).eraseP fun s => s.serial == token.serial)

end Bus
end ProtoRecovery
