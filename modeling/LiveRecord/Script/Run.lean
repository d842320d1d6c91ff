import LiveRecord.Script.Report

/-!
Running a script against the reactive core.

The script is the user of a `Flow.Machine`: it submits requests and answers the calls of the core by
the rules of its callbacks. What a raise leaves behind stays, and the script goes on with the next
step. The functions that run actions are bounded by an amount of fuel, which `Script.run` supplies.
-/

set_option autoImplicit false

namespace LiveRecord.Script

open LiveRecord.Flow

/-- A callback of the script: under which name it is logged, and its rules with the number of times
that each may still fire. -/
structure Callback where
  id : String
  rules : List (Rule × Nat)

/-- The core with the names that the script has given. -/
structure Scene where
  machine : Machine Value (List Value) := {}
  sources : Fields SourceId := []
  views : Fields ViewId := []
  handles : Fields Nat := []
  /-- The callbacks by key. -/
  callbacks : List Callback := []
  /-- How many ticks the script has opened and not closed. -/
  ticks : Nat := 0
  /-- How many callbacks are at work. -/
  running : Nat := 0
  /-- What was logged, the newest entry first. -/
  log : List LogEntry := []

/-- Why a script does not go on. -/
inductive Stop
  | raised (message : String)
  | outOfFuel

abbrev Play := ExceptT Stop (StateM Scene)

namespace Scene

def world (scene : Scene) : World Value (List Value) := scene.machine.world

def sourceReport? (scene : Scene) (source : SourceId) : Option SourceReport :=
  scene.world.sources[source]?.map fun s ↦
    { name := s.name, current := s.current, subscribers := scene.world.listenerCount source }

def viewReport? (scene : Scene) (view : ViewId) : Option ViewReport :=
  scene.world.views[view]?.map fun v ↦
    { label := v.label, status := v.status, emissions := v.emissions, disposed := v.disposed }

def handleActive (scene : Scene) (handle : Nat) : Bool :=
  (scene.world.handles[handle]?.map (·.isActive)).getD false

def snapshot (scene : Scene) : Snapshot where
  inTick := scene.world.inTick
  sources := scene.sources.filterMap fun (id, source) ↦ (scene.sourceReport? source).map (id, ·)
  views := scene.views.filterMap fun (id, view) ↦ (scene.viewReport? view).map (id, ·)
  subscriptions := scene.handles.map fun (id, handle) ↦ (id, scene.handleActive handle)

/-- The named things, as they are shown to a reader. -/
def texts (scene : Scene) : Outcome :=
  let after := scene.snapshot
  .texts (after.views.map fun (id, report) ↦ (id, report.text))
    (after.sources.map fun (id, report) ↦ (id, report.text))
    (after.subscriptions.map fun (id, active) ↦ (id, subscriptionText active))

/-- What a peek at something shows, or at nothing known. -/
def peek (scene : Scene) (target : Option TargetName) : Outcome :=
  let seen := match target with
    | some (.source id) => ((scene.sources.find? id).bind scene.sourceReport?).map Outcome.source
    | some (.view id) => ((scene.views.find? id).bind scene.viewReport?).map Outcome.view
    | none => none
  seen.getD (.inTick scene.world.inTick)

/-- A new callback, under the key `scene.callbacks.length`. -/
def addCallback (id : String) (rules : List Rule) (scene : Scene) : Scene :=
  { scene with
    callbacks := scene.callbacks ++ [⟨id, rules.map fun rule ↦ (rule, rule.times)⟩] }

/-- The actions of a rule of a callback that matches and may still fire, which uses it up once. -/
def fire (key index : Nat) (trigger : Trigger) (scene : Scene) : List Action × Scene :=
  match scene.callbacks[key]? with
  | none => ([], scene)
  | some callback =>
    match callback.rules[index]? with
    | some (rule, left + 1) =>
      if rule.pattern.fits trigger then
        (rule.steps,
          { scene with
            callbacks := scene.callbacks.modify key fun c ↦
              { c with rules := c.rules.set index (rule, left) } })
      else ([], scene)
    | _ => ([], scene)

def callbackId (scene : Scene) (key : Nat) : String :=
  (scene.callbacks[key]?.map (·.id)).getD ""

/-- How many rules a callback has. -/
def ruleCount (scene : Scene) (key : Nat) : Nat :=
  (scene.callbacks[key]?.map (·.rules.length)).getD 0

/-- The sources of these names, if all are known. -/
def sources? (scene : Scene) (ids : List String) : Option (List SourceId) :=
  ids.mapM scene.sources.find?

/-- The event of an emission on a source. -/
def emissionEvent (scene : Scene) (source : SourceId) : Emission → Event Value
  | .pending => .pending
  | .loaded value => .loaded value
  | .fails message =>
    .failed ⟨((scene.world.sources[source]?).map (·.name)).getD "", message⟩
  | .failed error => .failed error

/-- The feed of a plan, if its source is known. One that is for a single item and has none gets
null. -/
def feed? (scene : Scene) (plan : FeedPlan) : Option (Feed Value) := do
  let source ← scene.sources.find? plan.source
  let name := ((scene.world.sources[source]?).map (·.name)).getD ""
  let items := plan.fetches.map fun fetch ↦
    { waits := fetch.waits
      result := fetch.result.mapError fun (other, message) ↦ ⟨other.getD name, message⟩ }
  let items := match plan.kind, items with
    | .single, [] => [{ waits := 0, result := .ok .null }]
    | .single, item :: _ => [item]
    | .stream, items => items
  return { source, kind := plan.kind, items }

end Scene

/-- Goes on after a raise, and answers with its message. -/
def caught {α : Type} (play : Play α) : Play (Except String α) :=
  tryCatch (Except.ok <$> play) fun
    | .raised message => return .error message
    | .outOfFuel => throw .outOfFuel

def addLog (entry : LogEntry) : Play Unit :=
  modify fun scene ↦ { scene with log := entry :: scene.log }

def onMachine (f : Machine Value (List Value) → Machine Value (List Value)) : Play Unit :=
  modify fun scene ↦ { scene with machine := f scene.machine }

/-- The name of a callback and what it is called with. -/
def callTrigger : Call Value (List Value) → Nat × Trigger
  | .sourceEvent key event => (key, .source event)
  | .viewEvent key event => (key, .view event)
  | .compose key inputs => (key, .view (.ready inputs))

def callEntry (scene : Scene) (call : Call Value (List Value)) : LogEntry :=
  let (key, trigger) := callTrigger call
  match call with
  | .compose _ inputs => .composing (scene.callbackId key) scene.running inputs
  | _ => .heard (scene.callbackId key) scene.running trigger

/-- How a callback that did not raise ends. -/
def callEnd : Call Value (List Value) → Request Value (List Value)
  | .compose _ inputs => .compose inputs
  | _ => .finish

mutual

/-- Lets the core go on until it has answered the last request. -/
def settle : Nat → Play (Answer Value (List Value))
  | 0 => throw .outOfFuel
  | fuel + 1 => do
    match (← get).machine.control with
    | .user (.answered answer) => return answer
    | .user (.raised message) => throw (.raised message)
    | .user (.called call) =>
      answerCall fuel call
      settle fuel
    | _ =>
      onMachine Machine.advance
      settle fuel

/-- Runs a callback and ends it as it came out. -/
def answerCall : Nat → Call Value (List Value) → Play Unit
  | 0, _ => throw .outOfFuel
  | fuel + 1, call => do
    let scene ← get
    let (key, trigger) := callTrigger call
    addLog (callEntry scene call)
    modify fun scene ↦ { scene with running := scene.running + 1 }
    let outcome ← caught (tryRules fuel key 0 trigger)
    modify fun scene ↦ { scene with running := scene.running - 1 }
    match outcome with
    | .ok () => onMachine (.submit (callEnd call))
    | .error message => onMachine (.submit (.raise message))

/-- Tries the rules of a callback from one on. -/
def tryRules : Nat → Nat → Nat → Trigger → Play Unit
  | 0, _, _, _ => throw .outOfFuel
  | fuel + 1, key, index, trigger => do
    let scene ← get
    if index < scene.ruleCount key then
      let (steps, scene) := scene.fire key index trigger
      set scene
      runSteps fuel (some trigger) steps
      tryRules fuel key (index + 1) trigger

/-- Runs actions inside another one, and logs their outcomes. -/
def runSteps : Nat → Option Trigger → List Action → Play Unit
  | 0, _, _ => throw .outOfFuel
  | _ + 1, _, [] => return ()
  | fuel + 1, trigger, action :: rest => do
    let outcome ← runAction fuel trigger action
    addLog (.acted action.name outcome)
    runSteps fuel trigger rest

/-- Submits a request and waits for its answer. -/
def request : Nat → Request Value (List Value) → Play (Answer Value (List Value))
  | 0, _ => throw .outOfFuel
  | fuel + 1, req => do
    onMachine (.submit req)
    settle fuel

/-- Emits on a source, and answers whether the source accepted. -/
def emitOn : Nat → SourceId → Event Value → Play Outcome
  | 0, _, _ => throw .outOfFuel
  | fuel + 1, source, event => do
    match ← request fuel (.emit source event) with
    | .accepted accepted => return .flag accepted
    | _ => return .nothing

/-- Polls the feeds that have not finished, in order. -/
def pollFeeds : Nat → List (FeedProgress Value) → Play (List (FeedProgress Value))
  | 0, _ => throw .outOfFuel
  | _ + 1, [] => return []
  | fuel + 1, .finished result :: rest => do
    return .finished result :: (← pollFeeds fuel rest)
  | fuel + 1, .pending feed :: rest => do
    let progress := match ← request fuel (.poll feed) with
      | .polled progress => progress
      | _ => .pending feed
    return progress :: (← pollFeeds fuel rest)

/-- Polls feeds round after round, until all have finished or the rounds are over. -/
def pollRounds : Nat → Nat → List (FeedProgress Value) → Play (List (FeedProgress Value))
  | 0, _, _ => throw .outOfFuel
  | fuel + 1, rounds, feeds => do
    let unfinished := feeds.any fun
      | .pending _ => true
      | .finished _ => false
    match rounds, unfinished with
    | rounds + 1, true => pollRounds fuel rounds (← pollFeeds fuel feeds)
    | _, _ => return feeds

/-- Runs one action, inside a callback that was called with the trigger if there is one. -/
def runAction : Nat → Option Trigger → Action → Play Outcome
  | 0, _, _ => throw .outOfFuel
  | fuel + 1, trigger, action => do
    let scene ← get
    match action with
    | .source id name =>
      match ← request fuel (.newSource name) with
      | .created source =>
        modify fun scene ↦ { scene with sources := scene.sources.insert id source }
        return .nothing
      | _ => return .nothing
    | .emit id emission =>
      match scene.sources.find? id with
      | none => return .noSource
      | some source => emitOn fuel source (scene.emissionEvent source emission)
    | .forward id =>
      match trigger, scene.sources.find? id with
      | some trigger, some source => emitOn fuel source trigger.event
      | _, _ => return .noSource
    | .combine id ids rules =>
      match scene.sources? ids with
      | none => return .noSource
      | some sources =>
        let composer ← match rules with
          | none => pure (.direct fun values ↦ values)
          | some rules => do
            modify (.addCallback id rules)
            pure (.callback scene.callbacks.length)
        match ← request fuel (.build sources composer) with
        | .built view =>
          let old := (← get).views.find? id
          modify fun scene ↦ { scene with views := scene.views.insert id view }
          match old with
          | none => return .nothing
          | some old =>
            let _ ← request fuel (.dropView old)
            return .nothing
        | _ => return .nothing
    | .subscribe id target rules detached =>
      let target ← match target with
        | .source source => pure ((scene.sources.find? source).map Target.source)
        | .view view => pure ((scene.views.find? view).map Target.view)
      match target, action with
      | none, .subscribe _ (.view _) _ _ => return .noView
      | none, _ => return .noSource
      | some target, _ =>
        modify (.addCallback id rules)
        match ← request fuel (.subscribe target scene.callbacks.length) with
        | .subscribed handle =>
          if detached then
            let _ ← request fuel (.detach handle)
            return .nothing
          else
            let old := (← get).handles.find? id
            modify fun scene ↦ { scene with handles := scene.handles.insert id handle }
            match old with
            | none => return .nothing
            | some old =>
              let _ ← request fuel (.cancel old)
              return .nothing
        | _ => return .nothing
    | .unsubscribe id =>
      match scene.handles.find? id with
      | none => return .noSubscription
      | some handle =>
        let _ ← request fuel (.cancel handle)
        return .activity (scene.handleActive handle) ((← get).handleActive handle)
    | .dropSubscription id =>
      match scene.handles.find? id with
      | none => return .noSubscription
      | some handle =>
        modify fun scene ↦ { scene with handles := scene.handles.erase id }
        let _ ← request fuel (.cancel handle)
        return .nothing
    | .detach id =>
      match scene.handles.find? id with
      | none => return .noSubscription
      | some handle =>
        modify fun scene ↦ { scene with handles := scene.handles.erase id }
        let _ ← request fuel (.detach handle)
        return .nothing
    | .dispose id =>
      match scene.views.find? id with
      | none => return .noView
      | some view =>
        let _ ← request fuel (.dispose view)
        return .nothing
    | .dropView id =>
      match scene.views.find? id with
      | none => return .flag false
      | some view =>
        modify fun scene ↦ { scene with views := scene.views.erase id }
        let _ ← request fuel (.dropView view)
        return .flag true
    | .dropSource id =>
      modify fun scene ↦ { scene with sources := scene.sources.erase id }
      return .flag (scene.sources.find? id).isSome
    | .tick steps =>
      let _ ← request fuel .enterTick
      match ← caught (runSteps fuel trigger steps) with
      | .ok () =>
        let _ ← request fuel .leaveTick
        return .inTick (← get).world.inTick
      | .error message =>
        let _ ← request fuel .abandonTick
        throw (.raised message)
    | .openTick =>
      let _ ← request fuel .enterTick
      modify fun scene ↦ { scene with ticks := scene.ticks + 1 }
      return .opened (← get).ticks
    | .closeTick =>
      match scene.ticks with
      | 0 => return .flag false
      | ticks + 1 =>
        modify fun scene ↦ { scene with ticks }
        let _ ← request fuel .leaveTick
        return .flag true
    | .attempt steps =>
      match ← caught (runSteps fuel trigger steps) with
      | .ok () => return .nothing
      | .error message => return .raised message
    | .raise message => throw (.raised message)
    | .feeds plans rounds =>
      match plans.mapM scene.feed? with
      | none => return .noSource
      | some feeds =>
        let progress ← pollRounds fuel rounds (feeds.map .pending)
        return .feeds (progress.map fun
          | .pending _ => none
          | .finished result => some result)
    | .peek target => return scene.peek target
    | .describe => return scene.texts

end

/-- More than any script uses. -/
def enoughFuel : Nat := 1000000000000

/-- Runs one step of a script. A raise ends the step and not the script. -/
def runStep (action : Action) (scene : Scene) : StepReport × Scene :=
  let (result, scene) := (caught (runAction enoughFuel none action)).run scene
  let outcome := match result with
    | .ok (.ok outcome) => outcome
    | .ok (.error message) => .raised message
    | .error _ => .nothing
  ({ outcome, log := scene.log.reverse, after := scene.snapshot }, { scene with log := [] })

def runFrom (scene : Scene) : List Action → List StepReport
  | [] => []
  | action :: rest =>
    let (report, scene) := runStep action scene
    report :: runFrom scene rest

/-- Runs a script from nothing. -/
def run (steps : List Action) : List StepReport := runFrom {} steps

end LiveRecord.Script
