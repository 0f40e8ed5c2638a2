import DocSync.Service.Push

/-!
What callers ask of a service: connecting, opening and closing documents, completion, hover,
records, abbreviations and shutdown. After shutdown every request is refused.
-/

namespace DocSync.Service

/-- The session of an open document, or why a request about it is refused. -/
def require (s : Service) (id : DocumentId) : Except Failure Nat :=
  if s.isStopped then .error .serviceStopped
  else if !s.isConnected then .error .notConnected
  else
    match s.open? id with
    | none => .error (.unknownDocument id)
    | some h => .ok h

def fresh (s : Service) : Service × Nat := ({ s with nextTask := s.nextTask + 1 }, s.nextTask)

/-- Starts a session: it is attached to its channel, and its text is pushed right away. The session
is not registered yet. -/
def beginOpen (s : Service) (id : DocumentId) (document : Document) (channel : String)
    (place : Place := .inside) : Except Failure (Service × Nat) :=
  if s.isStopped then .error .serviceStopped
  else if !s.isConnected then .error .notConnected
  else if (s.open? id).isSome then .error (.alreadyOpen id)
  else
    let h := s.sessions.length
    let (signal, subscription) := (s.channel channel).attach h
    let s :=
      { s with
        sessions := s.sessions ++ [Session.opened id document channel subscription]
        opening := s.opening ++ [h]
        channels := Keyed.put channel signal s.channels }
    .ok (s.syncIn h 0 place, h)

def publish (s : Service) (id : DocumentId) (shift : LineShift) : Service :=
  let (diagnostics, update) := s.diagnostics.publish id shift
  ({ s with diagnostics := diagnostics }).note (.markers update)

/-- Registers a session that was started, unless its document was opened in the meantime. -/
def finishOpen (s : Service) (h : Nat) : Service × Except Failure Nat :=
  match s.session? h with
  | none => (s, .error .serviceStopped)
  | some x =>
    let s := { s with opening := s.opening.erase h }
    if (s.open? x.id).isSome then (s.closeSession h, .error (.alreadyOpen x.id))
    else
      (({ s with registry := s.registry ++ [(x.id, h)] }).publish x.id x.document.shift, .ok h)

def openDocument (s : Service) (id : DocumentId) (document : Document) (channel : String)
    (place : Place := .inside) : Service × Except Failure Nat :=
  match s.beginOpen id document channel place with
  | .error e => (s, .error e)
  | .ok (s, h) => s.finishOpen h

/-- Ends a session and drops the markers of its document. -/
def retire (s : Service) (id : DocumentId) (h : Nat) : Service :=
  let s := s.closeSession h
  { s with diagnostics := s.diagnostics.forget id }

def closeDocument (s : Service) (id : DocumentId) : Service × Except Failure Unit :=
  match s.open? id with
  | none => (s, .error (.unknownDocument id))
  | some h => (({ s with registry := Keyed.remove id s.registry }).retire id h, .ok ())

def requestFlush (s : Service) (request h : Nat) : Service :=
  let (s, task) := s.fresh
  s.flush task h (.flush request)

/-- Starts the debounce of a completion. It supersedes the one under way. -/
def requestCompletion (s : Service) (request : Nat) (id : DocumentId) (p : EditorPosition) :
    Service :=
  match s.require id with
  | .error e => s.note (.finished request (.completion (.error e)))
  | .ok h =>
    let (wait, generation) := s.wait.start
    ({ s with wait := wait }).spawn
      (.debounce request h id p generation (s.now + s.completionDelay))

def InfoUse.refuse (e : Failure) : InfoUse → Outcome
  | .hover _ => .hover (.error e)
  | .record => .info (.error e)

def InfoUse.outcome (r : InfoResponse) : InfoUse → Outcome
  | .hover p => .hover (.ok ((r.record.map fun record => HoverInfo.ofRecord record p).getD .empty))
  | .record => .info (.ok r.record)

def requestInfo (s : Service) (request : Nat) (id : DocumentId) (p : EditorPosition)
    (use : InfoUse) : Service :=
  match s.require id with
  | .error e => s.note (.finished request (InfoUse.refuse e use))
  | .ok h =>
    match s.session? h with
    | none => s
    | some x =>
      let (s, task) := s.fresh
      s.ask task (.info request id use) (.info id (x.document.shift.toServer p))

/-- A completion debounce gets its turn: it was rejected, its delay elapsed, or it waits on. -/
def runDebounce (s : Service) (task request h : Nat) (id : DocumentId) (p : EditorPosition)
    (generation deadline : Nat) : Service :=
  match s.wait.poll? generation (deadline ≤ s.now) with
  | none => s
  | some (some _, wait) =>
    ({ s with wait := wait }).finish task request (.completion (.ok .cancelled))
  | some (none, wait) => ({ s with wait := wait }).flush task h (.completion request h id p)

def beginConnect (s : Service) (task request : Nat) : Service :=
  ({ s with link := .busy }).ask task (.connect request) .connect

/-- A task waits for its turn to connect. -/
def Work.isTurn : Work → Bool
  | .connectTurn _ => true
  | _ => false

/-- Connects once. A request that comes while another one connects waits for its turn, which it
takes only if the other one failed. -/
def requestConnect (s : Service) (request : Nat) : Service :=
  if s.isStopped then s.note (.finished request (.done (.error .serviceStopped)))
  else
    match s.link with
    | .made => s.note (.finished request (.done (.ok ())))
    | .busy => s.spawn (.connectTurn request)
    | .absent =>
      if s.tasks.any fun t => Work.isTurn t.2 then s.spawn (.connectTurn request)
      else
        let (s, task) := s.fresh
        s.beginConnect task request

/-- A waiting connect gets its turn. -/
def runConnectTurn (s : Service) (task request : Nat) : Service :=
  match s.link with
  | .made => s.finish task request (.done (.ok ()))
  | .busy => s
  | .absent => s.beginConnect task request

/-- Takes in the answer to a connect: the stream is taken, and notifications are listened to. -/
def completeConnect (s : Service) (task request : Nat) (result stream : Except Failure Unit) :
    Service :=
  match result with
  | .error e => ({ s with link := .absent }).finish task request (.done (.error e))
  | .ok () =>
    let s := s.note (.called task .subscribe)
    match stream with
    | .error e => ({ s with link := .absent }).finish task request (.done (.error e))
    | .ok () =>
      ({ s with link := .made, isListening := true, isConnected := true }).finish task request
        (.done (.ok ()))

def retireEach (s : Service) (documents : List (DocumentId × Nat)) : Service :=
  documents.foldl (fun s e => s.retire e.1 e.2) s

/-- Ends every session and then the connection. Only the first call does anything. -/
def requestShutdown (s : Service) (request : Nat) : Service :=
  if s.isStopped then s.note (.finished request (.done (.ok ())))
  else
    let documents := s.registry
    let s := { s with isStopped := true, wait := s.wait.cancel, registry := [] }
    let s := s.retireEach documents
    let (s, task) := ({ s with isConnected := false, isListening := false }).fresh
    s.ask task (.shutdown request) .shutdown

def shownDocuments (s : Service) : List (DocumentId × LineShift) :=
  s.registry.filterMap fun (id, h) => (s.session? h).map fun x => (id, x.document.shift)

/-- Takes in a notification, if anyone listens. -/
def receive (s : Service) (e : ServerEvent) : Service :=
  if s.isListening then
    match e with
    | .allMessages messages =>
      let (diagnostics, updates) := s.diagnostics.replaceSnapshot messages s.shownDocuments
      updates.foldl (fun s u => s.note (.markers u))
        (({ s with diagnostics := diagnostics }).note (.snapshot messages))
    | .error message => s.report none message
  else s

def line? (s : Service) (id : DocumentId) (line : Count) : Option (List Char) :=
  ((s.open? id).bind s.session?).bind fun x => x.document.line? line

/-- The expansion that a change triggers, asked for once the session has taken the change in. -/
def expandOnChange (s : Service) (id : DocumentId) (change : ContentChange) : Option TextEdit :=
  match change.single? with
  | none => none
  | some edit => (s.line? id edit.range.start.line).bind fun line => s.input.onChange? change line

def expand (s : Service) (id : DocumentId) (cursor : EditorPosition) : Option TextEdit :=
  (s.line? id cursor.line).bind fun line => s.input.expand? line cursor

def canExpand (s : Service) (id : DocumentId) (cursor : EditorPosition) : Bool :=
  (s.line? id cursor.line).any fun line => s.input.canExpand line cursor

end DocSync.Service
