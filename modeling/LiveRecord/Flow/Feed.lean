import LiveRecord.Flow.View

/-!
Feeds: fetches whose results arrive one after the other and are emitted on a source.

A feed is polled. Each item is pending for a number of polls, and so is the end of the stream. A
poll goes on through the items that are ready until it meets one that is not.
-/

set_option autoImplicit false

namespace LiveRecord.Flow

/-- The result of a fetch, and for how many polls it is still pending. -/
structure FeedItem (α : Type) where
  waits : Nat
  result : Except SourceError α

def FeedItem.event {α : Type} (item : FeedItem α) : Event α :=
  match item.result with
  | .ok value => .loaded value
  | .error error => .failed error

/-- What a feed is for: every item of a stream, or one item alone. -/
inductive FeedKind
  | stream
  | single
deriving DecidableEq, Repr

/-- A feed that has not finished: the items still to come, how many were accepted so far, and for
how many polls the end of the items is still pending. -/
structure Feed (α : Type) where
  source : SourceId
  kind : FeedKind
  items : List (FeedItem α)
  accepted : Nat := 0
  endWaits : Nat := 0

/-- What a finished feed answers: how many items the source accepted, or whether it accepted the
one. -/
inductive FeedResult
  | count (accepted : Nat)
  | single (accepted : Bool)
deriving DecidableEq, Repr

inductive FeedProgress (α : Type)
  | pending (feed : Feed α)
  | finished (result : FeedResult)

namespace Feed

variable {α : Type}

/-- What a poll does next with a feed. -/
inductive Next (α : Type)
  | stop (progress : FeedProgress α)
  | emit (event : Event α) (feed : Feed α)

/-- Emits the next item if it is ready. Waiting takes one poll off the item, or off the end. -/
def next (feed : Feed α) : Next α :=
  match feed.items with
  | [] =>
    match feed.endWaits with
    | 0 => .stop (.finished (.count feed.accepted))
    | endWaits + 1 => .stop (.pending { feed with endWaits })
  | item :: rest =>
    match item.waits with
    | 0 => .emit item.event { feed with items := rest }
    | waits + 1 => .stop (.pending { feed with items := { item with waits } :: rest })

/-- Takes note of whether the source accepted the item, and ends a feed of one item. -/
def note (accepted : Bool) (feed : Feed α) : FeedResult ⊕ Feed α :=
  match feed.kind with
  | .single => .inl (.single accepted)
  | .stream => .inr { feed with accepted := feed.accepted + accepted.toNat }

end Feed

end LiveRecord.Flow
