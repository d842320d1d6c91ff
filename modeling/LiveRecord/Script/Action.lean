import LiveRecord.Flow.Machine

/-!
Scripts: what the users of sources and views do, written down as actions on named things.

Callbacks are given as rules. Each time a callback is called its rules are tried in order, and a
rule that matches what the callback was called with runs its actions, as often as it may.
-/

set_option autoImplicit false

namespace LiveRecord.Script

open LiveRecord.Flow

/-- What an action emits. A failure names the source that it is emitted on, or another one. -/
inductive Emission
  | pending
  | loaded (value : Value)
  | fails (message : String)
  | failed (error : SourceError)

/-- What a callback was called with. Composing callbacks are called with the list of their inputs,
as if it were ready. -/
inductive Trigger
  | source (event : Event Value)
  | view (event : ViewEvent (List Value))

/-- The triggers that a rule is for. -/
inductive Pattern
  | any
  | pending
  | loaded
  | ready
  | failed
  | value (value : Value)

/-- A fetch of a feed: its result, and for how many polls it is pending. A failure names the source
of the feed unless it names another one. -/
structure Fetch where
  waits : Nat
  result : Except (Option String × String) Value

structure FeedPlan where
  source : String
  kind : FeedKind
  fetches : List Fetch

inductive TargetName
  | source (id : String)
  | view (id : String)

mutual

inductive Action
  | source (id name : String)
  | emit (source : String) (emission : Emission)
  /-- Emits on a source what the callback at work was called with. -/
  | forward (source : String)
  /-- Builds a view whose value is the list of its inputs, by a callback with these rules or
  without a callback. -/
  | combine (id : String) (sources : List String) (rules : Option (List Rule))
  | subscribe (id : String) (target : TargetName) (rules : List Rule) (detached : Bool)
  | unsubscribe (subscription : String)
  | dropSubscription (subscription : String)
  | detach (subscription : String)
  | dispose (view : String)
  | dropView (view : String)
  | dropSource (source : String)
  | tick (steps : List Action)
  | openTick
  | closeTick
  | attempt (steps : List Action)
  | raise (message : String)
  | feeds (plans : List FeedPlan) (rounds : Nat)
  | peek (target : Option TargetName)
  | describe

inductive Rule
  | mk (pattern : Pattern) (times : Nat) (steps : List Action)

end

namespace Rule

def pattern : Rule → Pattern
  | mk pattern _ _ => pattern

/-- How often the rule may fire. -/
def times : Rule → Nat
  | mk _ times _ => times

def steps : Rule → List Action
  | mk _ _ steps => steps

end Rule

/-- The name of an action in a script. -/
def Action.name : Action → String
  | source _ _ => "source"
  | emit _ _ => "emit"
  | forward _ => "forward"
  | combine _ _ _ => "combine"
  | subscribe _ _ _ _ => "subscribe"
  | unsubscribe _ => "unsubscribe"
  | dropSubscription _ => "drop_sub"
  | detach _ => "detach"
  | dispose _ => "dispose"
  | dropView _ => "drop_view"
  | dropSource _ => "drop_source"
  | tick _ => "tick"
  | openTick => "open_tick"
  | closeTick => "close_tick"
  | attempt _ => "catch"
  | raise _ => "panic"
  | feeds _ _ => "feeds"
  | peek _ => "peek"
  | describe => "describe"

namespace Trigger

/-- The value of a trigger that has one. That of a view is a list. -/
def value? : Trigger → Option Value
  | source (.loaded value) => some value
  | view (.ready values) => some (.array values)
  | _ => none

/-- The trigger as an event of a source. -/
def event : Trigger → Event Value
  | source event => event
  | view (.ready values) => .loaded (.array values)
  | view (.failed error) => .failed error

end Trigger

def Pattern.fits : Pattern → Trigger → Bool
  | any, _ => true
  | pending, .source .pending => true
  | loaded, .source (.loaded _) => true
  | ready, .view (.ready _) => true
  | failed, .source (.failed _) => true
  | failed, .view (.failed _) => true
  | value wanted, trigger => trigger.value?.any (·.same wanted)
  | _, _ => false

end LiveRecord.Script
