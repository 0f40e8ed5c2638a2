import DocSync.Proofs.CompletionTurns
import DocSync.Proofs.DocumentEvents

/-!
What an event tells about one document: its pushes and questions, failures that name it, its new
marker lists, and the ends of requests about it.
-/

namespace DocSync.Service

open PushState

variable {s t : Service} {names : Names} {id : DocumentId} {e : Event} {w : Work}
  {h k task request : Nat} {x y : Session}

theorem news_of_journal (hj : t.journal = s.journal) : t.news names id = s.news names id := by
  rw [news, news, hj]

theorem news_note (n : Notice) :
    (s.note n).news names id = (n.news? names id).toList ++ s.news names id := by
  rw [news, note, List.filterMap_cons]
  cases n.news? names id <;> rfl

theorem news_of_marks (ha : Adds (fun n => ∃ members, n = .running members) s t) :
    t.news names id = s.news names id := by
  refine ha.filterMap ?_
  rintro n ⟨members, rfl⟩
  rfl

theorem news_finish (o : Outcome) :
    (s.finish task request o).news names id =
      (if names.request request = some id then [.finished request o] else []) ++
        s.news names id := by
  rw [finish, news_note, Notice.news?]
  split <;> rfl

theorem news_report (other : DocumentId) (message : String) :
    (s.report (some other) message).news names id =
      (if other = id then [.failed (some id) message] else []) ++ s.news names id := by
  rw [report, news_note, Notice.news?]
  split <;> rfl

theorem news_prepare : ((s.disarm h).bump h).news names id = s.news names id := by
  have hbump : Adds (fun n => ∃ members, n = .running members) (s.disarm h)
      ((s.disarm h).bump h) := adds_bump fun members => ⟨members, rfl⟩
  rw [news_of_marks hbump, news_of_journal journal_disarm]

theorem news_push (hx : s.session? h = some x) (ho : x.isClosed = false)
    (hc : s.isConnected = true) (after : After) :
    (s.push task h after).news names id =
      (if x.id = id then [.pushed x.version x.document.fullText] else []) ++ s.news names id := by
  have hpush : s.push task h after = (s.setSession h x.send).ask task (.sync h x.ticket after)
      (.sync h x.version x.id x.document.fullText) := by
    simp [push, hx, ho, hc]
  rw [hpush, ask, news_note, Notice.news?]
  split <;> rfl

theorem news_flush (hx : s.session? h = some x) (ho : x.isClosed = false)
    (hc : s.isConnected = true) (after : After) :
    (s.flush task h after).news names id =
      (if x.id = id then [.pushed (x.version + 1) x.document.fullText] else []) ++
        s.news names id := by
  have hflush : s.flush task h after = ((s.disarm h).bump h).push task h after := by
    simp [flush, hx, ho]
  have hconn : ((s.disarm h).bump h).isConnected = true :=
    (congrArg Service.isConnected outline_prepare).trans hc
  rw [hflush, news_push (session?_prepare hx) ho hconn, news_prepare]
  rfl

theorem news_edited : (s.edited h).news names id = s.news names id :=
  news_of_marks (adds_edited fun members => ⟨members, rfl⟩)

/-- What the answer to a push tells about a session. -/
def refusal (id : DocumentId) (isClosed : Bool) : Except Failure Unit → List News
  | .ok _ => []
  | .error e => if isClosed then [] else [.failed (some id) e.message]

theorem news_completePush (hx : s.session? h = some x) (t : Ticket)
    (result : Except Failure Unit) :
    (s.completePush h t result).1.news names id =
      (if x.id = id then refusal id x.isClosed result else []) ++ s.news names id := by
  simp only [completePush, hx]
  cases ho : x.isClosed with
  | true => cases result <;> simp [refusal]
  | false =>
    cases result with
    | ok =>
      simp only [Bool.false_eq_true, ↓reduceIte, refusal, ite_self, List.nil_append]
      split
      · refine (news_of_marks (adds_markIdle (fun members => ⟨members, rfl⟩) x.id)).trans ?_
        exact news_of_journal rfl
      · rfl
    | error e => exact news_report x.id e.message

/-- What the end of a push tells to whoever asked for it. -/
def After.news (result : Except Failure Unit) : After → List News
  | .flush request => [.finished request (.done result)]
  | _ => []

theorem news_afterPush {other : DocumentId} {t : Ticket} {after : After}
    (hf : (Work.sync h t after).Fits names (some other)) (result : Except Failure Unit) :
    (s.afterPush task result after).news names id =
      (if other = id then after.news result else []) ++ s.news names id := by
  cases hf with
  | push => exact (ite_self (c := other = id) ([] : List News)).symm ▸ rfl
  | flush hr =>
    refine (news_finish _).trans ?_
    simp only [hr, Option.some.injEq]
    rfl

theorem news_answer {t : Ticket} {after : After} (hx : s.session? h = some x)
    (hf : (Work.sync h t after).Fits names (some x.id)) (result : Except Failure Unit) :
    (s.answer task (.sync h t after) (.synced result)).news names id =
      (if x.id = id then after.news result ++ refusal id x.isClosed result else []) ++
        s.news names id := by
  have hx' : (s.note (.answered task h t.version (isOk result))).session? h = some x := hx
  simp only [answer]
  rw [completePush_result, news_afterPush hf, news_completePush hx']
  split
  · rw [List.append_assoc]
    rfl
  · rfl

/-- What an open session of another document answers to a change is no news. -/
theorem news_hear {change : ContentChange} {sessions : List Nat}
    (hs : ∀ k ∈ sessions, ∀ x, s.session? k = some x → x.id ≠ id) :
    (s.hear change sessions).news names id = s.news names id := by
  simp only [hear]
  induction sessions generalizing s with
  | nil => rfl
  | cons k sessions ih =>
    have hone : (s.contentChange change k).news names id = s.news names id := by
      cases hx : s.session? k with
      | none =>
        refine news_of_journal ?_
        simp only [contentChange, hx]
      | some x =>
        simp only [contentChange, hx]
        split
        · rfl
        · split
          · rw [news_report, if_neg (hs k List.mem_cons_self x hx)]
            rfl
          · rw [news_edited]
            rfl
    refine (ih fun j hj y hy => ?_).trans hone
    have hp := contentChange_parts (s := s) (h := k) change
    cases hx : s.session? j with
    | none =>
      have hnone := hp.unopened (h := j) (by rintro d rfl; exact Deed.noConfusion) hx
      exact absurd (hnone.symm.trans hy) (Option.some_ne_none y).symm
    | some x =>
      obtain ⟨z, hz, he⟩ := hp.evolves hx
      obtain rfl := Option.some.inj (hy.symm.trans hz)
      rw [he.id]
      exact hs j (List.mem_cons_of_mem k hj) x hx

theorem openDocument_refused {other : DocumentId} {document : Document} {channel : String}
    {error : Failure} (hb : s.beginOpen other document channel = .error error) :
    s.openDocument other document channel = (s, .error error) := by
  simp only [openDocument, hb]

/-- A document that is opened is registered, and its first markers are told. -/
structure Opened (s t : Service) (names : Names) (other : DocumentId) (x : Session) : Prop where
  session : t.session? s.sessions.length = some x
  registry : t.registry = s.registry ++ [(other, s.sessions.length)]
  diagnostics : t.diagnostics = (s.diagnostics.publish other x.document.shift).1
  news : ∀ id, t.news names id =
    (if other = id then [.markers (s.diagnostics.place other x.document.shift)] else []) ++
      s.news names id

theorem openDocument_opens {other : DocumentId} {document : Document} {channel : String}
    {p : Service × Nat} (hb : s.beginOpen other document channel = .ok p) (names : Names) :
    (s.openDocument other document channel).2 = .ok s.sessions.length ∧
      ∃ x, Opened s (s.openDocument other document channel).1 names other x := by
  rcases p with ⟨t, h⟩
  obtain ⟨_, ho, ht, x, hx, rfl⟩ := status_beginOpen hb
  obtain ⟨_, _, rfl, _⟩ := beginOpen_ok hb
  have hdiag : t.diagnostics = s.diagnostics := congrArg Status.diagnostics ht
  have hreg : t.registry = s.registry := congrArg Status.registry ht
  have hopen : ({ t with opening := t.opening.erase s.sessions.length } : Service).open? x.id =
      none := (congrArg (List.lookup x.id) hreg).trans ho
  have hnews (id : DocumentId) : t.news names id = s.news names id :=
    news_of_marks (adds_beginOpen (fun members => ⟨members, rfl⟩) hb)
  have hfinish : t.finishOpen s.sessions.length =
      (({ t with
        opening := t.opening.erase s.sessions.length
        registry := t.registry ++ [(x.id, s.sessions.length)] } : Service).publish x.id
          x.document.shift, .ok s.sessions.length) := by
    simp only [finishOpen, hx, hopen, Option.isSome_none, Bool.false_eq_true, ↓reduceIte]
  simp only [openDocument, hb, hfinish, true_and]
  refine ⟨x, hx, ?_, ?_, fun id => ?_⟩
  · rw [← hreg]
    rfl
  · rw [← hdiag]
    rfl
  · rw [← hnews, ← hdiag]
    refine (news_note _).trans ?_
    change (if x.id = id then some _ else none).toList ++ t.news names id = _
    split <;> rfl

end DocSync.Service
