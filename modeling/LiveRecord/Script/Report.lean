import LiveRecord.Script.Action

/-!
What a script shows: the outcome of each action, the log of the calls, and the state of sources,
views and subscriptions by name.
-/

set_option autoImplicit false

namespace LiveRecord.Script

open LiveRecord.Flow

structure SourceReport where
  name : String
  current : Event Value
  subscribers : Nat

structure ViewReport where
  label : String
  status : ViewStatus (List Value)
  emissions : Nat
  disposed : Bool

/-- What an action came to. -/
inductive Outcome
  | nothing
  | flag (value : Bool)
  /-- Whether a subscription was active before it was cancelled, and whether it is afterwards. -/
  | activity (before after : Bool)
  | inTick (value : Bool)
  /-- How many ticks the script has opened and not closed. -/
  | opened (height : Nat)
  | raised (message : String)
  | noSource
  | noView
  | noSubscription
  | feeds (results : List (Option FeedResult))
  | source (report : SourceReport)
  | view (report : ViewReport)
  | texts (views sources subscriptions : Fields String)

/-- What is logged: a composing callback or another one that is called, while so many callbacks are
at work, and the outcome of an action inside another one. -/
inductive LogEntry
  | composing (view : String) (depth : Nat) (inputs : List Value)
  | heard (subscription : String) (depth : Nat) (trigger : Trigger)
  | acted (action : String) (outcome : Outcome)

/-- The state after a step, by name. -/
structure Snapshot where
  inTick : Bool
  sources : Fields SourceReport
  views : Fields ViewReport
  subscriptions : Fields Bool

structure StepReport where
  outcome : Outcome
  log : List LogEntry
  after : Snapshot

/-- How a character is shown between quotes. The names that are shown are ASCII. -/
def quoteChar (c : Char) : List Char :=
  match c with
  | '"' => ['\\', '"']
  | '\\' => ['\\', '\\']
  | '\n' => ['\\', 'n']
  | '\r' => ['\\', 'r']
  | '\t' => ['\\', 't']
  | '\x00' => ['\\', '0']
  | _ =>
    if c < ' ' ∨ c = '\x7f' then "\\u\x7b".toList ++ Nat.toDigits 16 c.toNat ++ ['\x7d'] else [c]

def quote (s : String) : String :=
  "\"" ++ String.ofList (s.toList.flatMap quoteChar) ++ "\""

/-- A named thing and its fields, as they are shown to a reader. -/
def shown (name : String) (fields : List (String × String)) : String :=
  name ++ " \x7b " ++ ", ".intercalate (fields.map fun (key, value) ↦ key ++ ": " ++ value) ++
    " \x7d"

def ViewReport.text (report : ViewReport) : String :=
  shown "CombinedViewModel"
    [("label", quote report.label), ("emissions", report.emissions.repr)]

def SourceReport.text (report : SourceReport) : String :=
  shown "SourceStream" [("name", quote report.name)]

def subscriptionText (active : Bool) : String :=
  shown "Subscription" [("active", toString active)]

end LiveRecord.Script
