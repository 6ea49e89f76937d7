import ProtoRecovery.Bus.Dispatch
import ProtoRecovery.Text.Bytes

/-! # Scripts for a bus: events that carry values, handlers that follow a plan -/
namespace ProtoRecovery.Bus

/-- The kinds of events. A subscription may ask for `anything`, but each event has a kind of its
own, and that is never this one. -/
inductive Kind | number | text | box | anything deriving DecidableEq, Repr

inductive Value | number (n : Int) | text (t : Bytes) | box (n : Int) | nothing deriving DecidableEq, Repr

def Value.kind : Value → Option Kind
  | number _ => some .number
  | text _ => some .text
  | box _ => some .box
  | nothing => none

/-- What a handler does when an event reaches it: it ends subscriptions, then makes some whose
handlers do nothing, then publishes. -/
structure Plan where
  leave : List Bytes := []
  join : List (Bytes × Kind) := []
  say : Option Value := none
  deriving DecidableEq, Repr

structure Handler where
  label : Bytes
  plan : Plan := {}
  deriving DecidableEq, Repr

abbrev ScriptAct := Act Bytes Kind Handler Value

def Plan.acts (p : Plan) : List ScriptAct :=
  p.leave.map .unsubscribe ++ p.join.map (fun (label, kind) => .subscribe label kind { label }) ++
    p.say.toList.map .publish

def conduct : Conduct Bytes Kind Handler Value := ⟨Value.kind, fun _ d => d.subscription.handler.plan.acts⟩

def cascade : Nat := 1000000000000

/-- One act of a script with all that follows from it, on a session that has come to rest: the
session at rest again, and what was delivered meanwhile, the earliest first. -/
def Session.play (s : Session Bytes Kind Handler Value) (act : ScriptAct) :
    Session Bytes Kind Handler Value × List (Delivery Handler Value) :=
  let next := Session.settle conduct cascade { s with agenda := .act act :: s.agenda }
  (next, (next.delivered.take (next.delivered.length - s.delivered.length)).reverse)

end ProtoRecovery.Bus
