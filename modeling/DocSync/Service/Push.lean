import DocSync.Service.State

/-!
How the text of a session gets to the server. An edit starts a version, marks the document busy and
restarts the debounce timer; when the timer fires, a task pushes the text that is current by then.
An accepted push clears the busy mark if its ticket is still current. A closed session ignores all
of it.

Where the timer's task cannot be started, since the call is made outside a runtime, nothing is left
to push the text: the session only reports it.
-/

namespace DocSync.Service

def markBusy (s : Service) (id : DocumentId) : Service :=
  let (running, changed) := s.running.markBusy id
  if changed then ({ s with running := running }).note (.running running.members) else s

def markIdle (s : Service) (id : DocumentId) : Service :=
  let (running, changed) := s.running.markIdle id
  if changed then ({ s with running := running }).note (.running running.members) else s

/-- Starts a version of a session and marks its document busy. -/
def bump (s : Service) (h : Nat) : Service :=
  match s.session? h with
  | none => s
  | some x => (s.setSession h x.bump).markBusy x.id

def arm (s : Service) (h delay : Nat) (place : Place := .inside) : Service :=
  match s.session? h with
  | none => s
  | some x =>
    let (timer, agenda) := x.timer.schedule s.agenda (s.now + delay) (fun g => ⟨h, g⟩) place
    let s := ({ s with agenda := agenda }).setSession h { x with timer := timer }
    match place.spawn "coalesced_timer" with
    | .ok () => s
    | .error e => s.report (some x.id) e.message

def disarm (s : Service) (h : Nat) : Service :=
  match s.session? h with
  | none => s
  | some x =>
    let (timer, agenda) := x.timer.cancel s.agenda
    ({ s with agenda := agenda }).setSession h { x with timer := timer }

/-- Starts a version whose push comes after a delay. -/
def syncIn (s : Service) (h delay : Nat) (place : Place := .inside) : Service :=
  (s.bump h).arm h delay place

/-- Goes on after a push. A completion asks with the line shift that the document has by now. -/
def afterPush (s : Service) (task : Nat) (result : Except Failure Unit) : After → Service
  | .nothing => s.drop task
  | .flush request => s.finish task request (.done result)
  | .completion request h id p =>
    match result, s.session? h with
    | .error e, _ => s.finish task request (.completion (.error e))
    | .ok (), none => s.drop task
    | .ok (), some x =>
      s.ask task (.complete request id p) (.complete id (x.document.shift.toServer p))

def push (s : Service) (task h : Nat) (after : After) : Service :=
  match s.session? h with
  | none => s.drop task
  | some x =>
    if x.isClosed then s.afterPush task (.ok ()) after
    else if !s.isConnected then s.afterPush task (.error .notConnected) after
    else
      (s.setSession h x.send).ask task (.sync h x.ticket after)
        (.sync h x.version x.id x.document.fullText)

/-- Pushes without waiting for the debounce timer. -/
def flush (s : Service) (task h : Nat) (after : After) : Service :=
  match s.session? h with
  | none => s.drop task
  | some x =>
    if x.isClosed then s.afterPush task (.ok ()) after
    else ((s.disarm h).bump h).push task h after

/-- Takes in the answer to a push, and gives what its caller gets. -/
def completePush (s : Service) (h : Nat) (t : Ticket) (result : Except Failure Unit) :
    Service × Except Failure Unit :=
  match s.session? h with
  | none => (s, result)
  | some x =>
    if x.isClosed then (s, result)
    else
      match result with
      | .ok () =>
        if t.isCurrent x.version then
          ((s.setSession h (x.settle t)).markIdle x.id, .ok ())
        else (s, .ok ())
      | .error e =>
        ((s.setSession h (x.settle t)).report (some x.id) e.message, .error e)

/-- A change of the document's text ends the completion debounce and schedules a push. -/
def edited (s : Service) (h : Nat) (place : Place := .inside) : Service :=
  ({ s with wait := s.wait.cancel }).syncIn h s.syncDelay place

/-- Takes in a change of the editor: all of its edits, or none where one does not fit. -/
def contentChange (s : Service) (change : ContentChange) (h : Nat) (place : Place := .inside) :
    Service :=
  match s.session? h with
  | none => s
  | some x =>
    if x.isClosed then s
    else
      match x.document.applyAll change.changes with
      | .error e => s.report (some x.id) (Failure.edit e).message
      | .ok document => (s.setSession h { x with document := document }).edited h place

/-- Fires a channel of changes: each session attached to it takes the change in. -/
def fireChannel (s : Service) (name : String) (change : ContentChange)
    (place : Place := .inside) : Service :=
  ((s.channel name).handlers.map Prod.snd).foldl (fun s h => s.contentChange change h place) s

def setText (s : Service) (h : Nat) (text : List Char) (place : Place := .inside) : Service :=
  match s.session? h with
  | none => s
  | some x =>
    if x.isClosed then s
    else (s.setSession h { x with document := x.document.setVisible text }).edited h place

/-- Replaces the hidden text, which schedules a push and leaves a completion debounce alone. -/
def setContext (s : Service) (h : Nat) (before after : List Char) (place : Place := .inside) :
    Service :=
  match s.session? h with
  | none => s
  | some x =>
    if x.isClosed then s
    else
      (s.setSession h { x with document := x.document.setContext before after }).syncIn h
        s.syncDelay place

def unsubscribe (s : Service) (h : Nat) : Service :=
  match s.session? h with
  | none => s
  | some x =>
    match x.subscription with
    | none => s
    | some id =>
      ({ s with
        channels := Keyed.put x.channel ((s.channel x.channel).detach id) s.channels }).setSession h
        { x with subscription := none }

/-- Ends a session. Ending it again changes nothing. -/
def closeSession (s : Service) (h : Nat) : Service :=
  match s.session? h with
  | none => s
  | some x =>
    if x.isClosed then s
    else
      let s := ((s.setSession h { x with isClosed := true }).unsubscribe h).disarm h
      match s.session? h with
      | none => s
      | some x => (s.setSession h { x with phase := .idle }).markIdle x.id

end DocSync.Service
