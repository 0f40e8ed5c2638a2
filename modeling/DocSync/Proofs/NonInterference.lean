import DocSync.Proofs.Settling

/-!
Documents do not interfere. Of a script of steps, those about other documents can be left out, and
nothing that is shown of a document changes at any of the steps that are left.

The turns that a service takes between two steps are those of all documents in some order. Those of
one document follow from its view alone, since at most one of its sessions is open: its timer
fires, and then the task that it started pushes. Turns of others do not show, so what is shown of a
document once the service is settled does not depend on which others there are.
-/

namespace DocSync.Service

open PushState

namespace View

variable {v w u : View} {n m i j : Nat} {l : Look}

/-- The task is to push a session of the document. -/
def Starts (v : View) (i n : Nat) : Prop := v.tasks[i]? = some (some (.start n))

/-- A turn that a task of the document can take. -/
inductive Turn (v : View) : View → Prop where
  | fire {n d : Nat} {l : Look} (hl : v.look? n = some l) (hd : l.due = some d) (hle : d ≤ v.now) :
      Turn v (v.fire n l)
  | start {i n : Nat} (hi : v.Starts i n) : Turn v (v.start i n)

/-- At most one push of the document is to come: that of a timer, or that of a task it started. -/
structure Poised (v : View) : Prop where
  alone : ∀ {n m : Nat} {l k : Look}, v.look? n = some l → v.look? m = some k →
    l.due.isSome = true → k.due.isSome = true → n = m
  once : ∀ {i j n m : Nat}, v.Starts i n → v.Starts j m → i = j
  apart : ∀ {i n m : Nat} {l : Look}, v.Starts i n → v.look? m = some l → l.due = none

theorem look?_see (hl : v.look? n = some l) (k : Look) (m : Nat) :
    (v.see n k).look? m = if m = n then some k else v.look? m := by
  have hlt : n < v.sessions.length := by
    refine Nat.lt_of_not_le fun hle => ?_
    rw [look?, List.getElem?_eq_none hle] at hl
    cases hl
  simp only [look?, see, List.getElem?_set]
  by_cases hm : n = m
  · subst hm
    rw [if_pos rfl, if_pos hlt, if_pos rfl]
    rfl
  · rw [if_neg hm, if_neg (Ne.symm hm)]

theorem Turn.unique (hv : v.Poised) (hw : v.Turn w) (hu : v.Turn u) : w = u := by
  cases hw with
  | @fire n d l hl hd =>
    cases hu with
    | @fire m _ k hk hd' =>
      obtain rfl := hv.alone hl hk (hd ▸ rfl) (hd' ▸ rfl)
      obtain rfl := Option.some.inj (hl.symm.trans hk)
      rfl
    | start hi => exact absurd (hd.symm.trans (hv.apart hi hl)) (Option.some_ne_none d)
  | start hi =>
    cases hu with
    | fire hl hd => exact absurd (hd.symm.trans (hv.apart hi hl)) (Option.some_ne_none _)
    | start hj =>
      obtain rfl := hv.once hi hj
      cases hi.symm.trans hj
      rfl

theorem poised_of_idle (halone : ∀ {n m : Nat} {l k : Look}, v.look? n = some l →
      v.look? m = some k → l.due.isSome = true → k.due.isSome = true → n = m)
    (hidle : ∀ i n, ¬v.Starts i n) : v.Poised :=
  ⟨halone, fun hi => absurd hi (hidle _ _), fun hi => absurd hi (hidle _ _)⟩

/-- A push that starts is the last one that was to start, and leaves the timers alone. -/
theorem start_spec (hv : v.Poised) (hi : v.Starts i n) :
    (∀ j m, ¬(v.start i n).Starts j m) ∧
      ∀ {m : Nat} {k : Look}, (v.start i n).look? m = some k →
        ∃ k', v.look? m = some k' ∧ k'.due = k.due := by
  simp only [View.start]
  cases ho : v.open? n with
  | none =>
    refine ⟨fun j m hj => ?_, fun hk => ⟨_, hk, rfl⟩⟩
    have hj : (v.tasks.eraseIdx i)[j]? = some (some (.start m)) := hj
    rw [List.getElem?_eraseIdx] at hj
    split at hj
    · have heq := hv.once hi hj
      omega
    · have heq := hv.once hi hj
      omega
  | some l =>
    obtain ⟨hl, _⟩ := Option.filter_eq_some_iff.mp ho
    constructor
    · intro j m hj
      have hj : (v.tasks.set i (some (.sync n ⟨l.version⟩ .nothing)))[j]? =
          some (some (.start m)) := hj
      by_cases hij : i = j
      · subst hij
        rw [List.getElem?_set_self (List.getElem?_eq_some_iff.mp hi).1] at hj
        cases hj
      · rw [List.getElem?_set_ne hij] at hj
        exact hij (hv.once hi hj)
    · intro m k hk
      have hk := (look?_see hl _ m).symm.trans hk
      split at hk
      · next hm =>
        cases hk
        refine ⟨l, hm ▸ hl, ?_⟩
        simp only [Look.send]
        split <;> rfl
      · exact ⟨k, hk, rfl⟩

theorem Turn.poised (hv : v.Poised) (hw : v.Turn w) : w.Poised := by
  cases hw with
  | @fire n d l hl hd =>
    have hrest {m : Nat} {k : Look} (hk : (v.fire n l).look? m = some k) : k.due = none := by
      have hk := (look?_see hl _ m).symm.trans hk
      split at hk
      · cases hk
        rfl
      · next hne =>
        refine Option.not_isSome_iff_eq_none.mp fun hs => hne ?_
        exact hv.alone hk hl hs (hd ▸ rfl)
    have hnew {i m : Nat} (hi : (v.fire n l).Starts i m) : i = v.tasks.length := by
      have hi : (v.tasks ++ [some (.start n)])[i]? = some (some (.start m)) := hi
      rcases Nat.lt_trichotomy i v.tasks.length with hlt | heq | hgt
      · rw [List.getElem?_append_left hlt] at hi
        exact absurd (hd.symm.trans (hv.apart hi hl)) (Option.some_ne_none d)
      · exact heq
      · have hle : (v.tasks ++ [some (Work.start n)]).length ≤ i := by
          rw [List.length_append, List.length_singleton]
          omega
        rw [List.getElem?_eq_none hle] at hi
        cases hi
    constructor
    · intro n m l k _ hk _ hs
      rw [hrest hk] at hs
      cases hs
    · intro i j n m hi hj
      rw [hnew hi, hnew hj]
    · intro i n m l _ hk
      exact hrest hk
  | @start i n hi =>
    obtain ⟨hdone, hsame⟩ := start_spec hv hi
    refine poised_of_idle ?_ hdone
    intro m m' k k' hk hk' hs hs'
    obtain ⟨l, hl, hd⟩ := hsame hk
    obtain ⟨l', hl', hd'⟩ := hsame hk'
    exact hv.alone hl hl' (hd ▸ hs) (hd' ▸ hs')

/-- The document takes all the turns it can. -/
inductive Settles : View → View → Prop where
  | done {v : View} (hv : ∀ w, ¬v.Turn w) : Settles v v
  | turn {v w u : View} (hw : v.Turn w) (hu : Settles w u) : Settles v u

theorem Settles.unique (hv : v.Poised) (hw : v.Settles w) (hu : v.Settles u) : w = u := by
  induction hw with
  | done hnone =>
    cases hu with
    | done => rfl
    | turn ht => exact absurd ht (hnone _)
  | turn ht _ ih =>
    cases hu with
    | done hnone => exact absurd ht (hnone _)
    | turn ht' hu =>
      obtain rfl := ht.unique hv ht'
      exact ih (ht.poised hv) hu

end View

variable {s t : Service} {names : Names} {id : DocumentId} {e : Event} {b : Step}
  {h i k n m task : Nat} {x : Session}

/-- A turn is one of the document, or it does not show. -/
theorem Ready.view_turn (hs : s.Ready names) (ht : s.turn? = some e) (id : DocumentId) :
    (s.next e).view names id = s.view names id ∨
      (s.view names id).Turn ((s.next e).view names id) := by
  rcases hs.turn ht with ⟨sleeper, rfl, hf, hd⟩ | ⟨task, h, rfl, hw⟩
  · obtain ⟨x, hx, _⟩ := fire_eq hs.orderly.ticking.sleeping hf
    have hsession : s.session? sleeper.job.session = some x := hx.1
    by_cases hid : x.id = id
    · subst hid
      obtain ⟨l, hl, hdue, he⟩ := view_fire hs.orderly hf hd (getElem?_number hsession)
      rw [he]
      exact Or.inr (.fire hl hdue hd)
    · exact Or.inl (view_bystander (.fire hf hd hx.1) hs.orderly fun heq =>
        hid (Option.some.inj heq))
  · obtain ⟨_, hdoc, hfits⟩ := hs.orderly.fits hw
    cases hfits with
    | @start other =>
      by_cases hid : other = id
      · subst hid
        obtain ⟨x, hx, rfl⟩ := Option.map_eq_some_iff.mp hdoc
        have hmem : task ∈ s.tasksOf x.id := by
          have hlt := hs.orderly.invariant.numbered.lt hw
          exact mem_numbers.mpr ⟨hlt, worksFor_iff.mpr ⟨_, hw, hdoc⟩⟩
        have hi := getElem?_idxOf_of_mem hmem
        rw [view_start hs.orderly hi hw (getElem?_number hx)]
        exact Or.inr (.start (view_tasks hi hw))
      · exact Or.inl (view_bystander (.run hw) hs.orderly fun heq =>
          hid (Option.some.inj (hdoc.symm.trans heq)))

theorem view_starts (hi : (s.view names id).Starts i n) :
    ∃ task h, s.work task = some (.start h) := by
  have hi : (s.worksOf id)[i]? = some (some (.start n)) := hi
  rw [worksOf, List.getElem?_map] at hi
  obtain ⟨task, _, hk⟩ := Option.map_eq_some_iff.mp hi
  obtain ⟨w, hw, hr⟩ := Option.map_eq_some_iff.mp hk
  cases w with
  | start h => exact ⟨task, h, hw⟩
  | _ => cases hr

theorem session_of_look {l : Look} (hl : (s.view names id).look? n = some l) :
    ∃ h x, (s.sessionsOf id)[n]? = some h ∧ s.session? h = some x ∧
      l = .of x (s.pushState.due h) := by
  cases hn : (s.sessionsOf id)[n]? with
  | none =>
    rw [view_look?_none hn] at hl
    cases hl
  | some h =>
    obtain ⟨x, hx, _⟩ := session_of_number hn
    rw [view_look? hn hx] at hl
    exact ⟨h, x, rfl, hx, (Option.some.inj hl).symm⟩

theorem IsSettled.view (hs : s.IsSettled) (w : View) : ¬(s.view names id).Turn w := by
  intro ht
  cases ht with
  | @fire n d l hl hd hle =>
    obtain ⟨h, x, _, _, rfl⟩ := session_of_look hl
    obtain ⟨i, sleeper, hf, rfl⟩ := due_sleeper hd
    exact Nat.not_le_of_lt (hs.sleeps hf) hle
  | start hi =>
    obtain ⟨task, h, hw⟩ := view_starts hi
    exact hs.not_starting hw

theorem Orderly.alone {n m : Nat} {l k : Look} (hs : s.Orderly names)
    (hl : (s.view names id).look? n = some l) (hk : (s.view names id).look? m = some k)
    (hld : l.due.isSome = true) (hkd : k.due.isSome = true) : n = m := by
  have hopen {h : Nat} {x : Session} (hx : s.session? h = some x)
      (hd : (s.pushState.due h).isSome = true) : s.pushState.IsOpen h x := by
    cases hc : x.isClosed with
    | false => exact ⟨hx, hc⟩
    | true =>
      rw [due_of_pending hx (hs.ticking.resting hx hc).2] at hd
      cases hd
  obtain ⟨h, x, hn, hx, rfl⟩ := session_of_look hl
  obtain ⟨j, y, hm, hy, rfl⟩ := session_of_look hk
  obtain ⟨_, hx', hid⟩ := session_of_number hn
  obtain rfl := Option.some.inj (hx.symm.trans hx')
  obtain ⟨_, hy', hid'⟩ := session_of_number hm
  obtain rfl := Option.some.inj (hy.symm.trans hy')
  obtain rfl := hs.invariant.owned.unique (hopen hx hld) (hopen hy hkd) (hid'.trans hid.symm)
  exact (number_of_getElem? hn).symm.trans (number_of_getElem? hm)

theorem Ready.view_settles (hs : s.Ready names) (hm : s.load ≤ m) (id : DocumentId) :
    (s.view names id).Settles ((settleFor m s).view names id) := by
  induction m generalizing s with
  | zero => exact .done (hs.settled hm).2.view
  | succ m ih =>
    have hsettled := hs.settled hm
    simp only [settleFor] at hsettled ⊢
    cases ht : s.turn? with
    | none => exact .done (IsSettled.view ht)
    | some e =>
      have hlt := hs.load_turn ht
      have hrest := ih (hs.next (Or.inl (hs.touches ht))) (by omega)
      rcases hs.view_turn ht id with he | he
      · rwa [he] at hrest
      · exact .turn he hrest

theorem Step.event_begins (he : b.event? s = some e) : ¬Begins s e (.start h) := by
  intro hb
  have hfire {i : Nat} : b.event? s ≠ some (.fire i) := by
    cases b with
    | act id a =>
      cases a with
      | openDocument | closeDocument | change | info => exact nofun
      | setText | setContext | closeSession | flush | answer =>
        intro he
        obtain ⟨_, _, he⟩ := Option.map_eq_some_iff.mp he
        cases he
    | pass | receive | endStream | shutdown | connect => exact nofun
    | stopped =>
      intro he
      obtain ⟨_, _, he⟩ := Option.map_eq_some_iff.mp he
      cases he
  cases hb with
  | start => exact hfire he

theorem Ready.perform (hs : s.Ready names) (hb : b.IsOwn names) : (s.perform b).Ready names := by
  rw [Service.perform]
  cases he : b.event? s with
  | none => exact hs
  | some e => exact hs.next (Step.event_cases he hb)

theorem Ready.poised (hs : s.Ready names) (hsettled : s.IsSettled) (hb : b.IsOwn names)
    (id : DocumentId) : ((s.perform b).view names id).Poised := by
  refine View.poised_of_idle (hs.perform hb).orderly.alone fun i n hi => ?_
  obtain ⟨task, h, hw⟩ := view_starts hi
  rw [Service.perform] at hw
  cases he : b.event? s with
  | none =>
    rw [he] at hw
    exact hsettled.not_starting hw
  | some e =>
    rw [he] at hw
    have hunused : s.work s.nextTask = none :=
      hs.orderly.invariant.numbered _ (Nat.le_refl _)
    rcases work_next hunused hw with hw | ⟨_, hbegins⟩
    · exact hsettled.not_starting hw
    · exact Step.event_begins he hbegins

/-- A step of a script, what it gave back, and the service once all work was done that could be. -/
structure Moment where
  step : Step
  reply : Option (Except Failure Unit)
  state : Service

/-- A service takes the steps of a script, and does all work that can be done after each. -/
def play (s : Service) : List Step → List Moment
  | [] => []
  | a :: rest => ⟨a, s.reply a, (s.perform a).settle⟩ :: play (s.perform a).settle rest

/-- What can be seen of a document when a step is done: what the step gave back, and the view. -/
def Moment.seen (names : Names) (id : DocumentId) (m : Moment) :
    Step × Option (Except Failure Unit) × View :=
  (m.step, m.reply, m.state.view names id)

/-- Two services that show the same of a document. -/
structure Twins (s t : Service) (names : Names) (id : DocumentId) : Prop where
  left : s.Ready names
  right : t.Ready names
  leftSettled : s.IsSettled
  rightSettled : t.IsSettled
  view : s.view names id = t.view names id

theorem Twins.perform (ht : Twins s t names id) (hb : b.IsOwn names)
    (hc : b.concerns id = true) :
    Twins (s.perform b).settle (t.perform b).settle names id := by
  have hs := (ht.left.perform hb).settled (Nat.le_refl _)
  have hr := (ht.right.perform hb).settled (Nat.le_refl _)
  refine ⟨hs.1, hr.1, hs.2, hr.2, ?_⟩
  have hsame : (s.perform b).view names id = (t.perform b).view names id := by
    rw [view_perform ht.left.orderly hb hc, view_perform ht.right.orderly hb hc, ht.view]
  have hleft := (ht.left.perform hb).view_settles (Nat.le_refl _) id
  have hright := (ht.right.perform hb).view_settles (Nat.le_refl _) id
  rw [← hsame] at hright
  exact hleft.unique (ht.left.poised ht.leftSettled hb id) hright

theorem Twins.skip (ht : Twins s t names id) (hb : b.IsOwn names) (hc : b.concerns id = false) :
    Twins (s.perform b).settle t names id := by
  have hs := (ht.left.perform hb).settled (Nat.le_refl _)
  refine ⟨hs.1, ht.right, hs.2, ht.rightSettled, ?_⟩
  have hsame : (s.perform b).view names id = s.view names id :=
    view_perform_other ht.left.orderly hb hc
  have hleft := (ht.left.perform hb).view_settles (Nat.le_refl _) id
  have hdone : (s.view names id).Settles (s.view names id) := .done ht.leftSettled.view
  rw [← ht.view]
  have hpoised := ht.left.poised ht.leftSettled hb id
  rw [hsame] at hleft hpoised
  exact hleft.unique hpoised hdone

theorem Twins.play {script : List Step} (ht : Twins s t names id)
    (hs : ∀ a ∈ script, a.IsOwn names) :
    ((s.play script).filter fun m => m.step.concerns id).map (Moment.seen names id) =
      (t.play (script.filter (Step.concerns id))).map (Moment.seen names id) := by
  induction script generalizing s t with
  | nil => rfl
  | cons a script ih =>
    have ha := hs a List.mem_cons_self
    have hrest := fun b hb => hs b (List.mem_cons_of_mem a hb)
    cases hc : a.concerns id with
    | true =>
      have hnext := ht.perform ha hc
      have hreply : s.reply a = t.reply a := by
        rw [view_reply s names hc, view_reply t names hc, ht.view]
      rw [Service.play, List.filter_cons_of_pos (p := fun m : Moment => m.step.concerns id) hc,
        List.filter_cons_of_pos hc, Service.play, List.map_cons, List.map_cons, ih hnext hrest]
      simp only [Moment.seen, hreply, hnext.view]
    | false =>
      have hnot : ¬a.concerns id = true := by
        rw [hc]
        exact Bool.false_ne_true
      rw [Service.play, List.filter_cons_of_neg (p := fun m : Moment => m.step.concerns id) hnot,
        List.filter_cons_of_neg hnot]
      exact ih (ht.skip ha hc) hrest

/-- A service is started and connected; then its stream of notifications ends. -/
def connectingRun (syncDelay completionDelay : Nat) (input : AbbreviationInput) (request : Nat) :
    Run where
  syncDelay := syncDelay
  completionDelay := completionDelay
  input := input
  event
    | 0 => .connect request
    | 1 => .answer 0 (.connected (.ok ()) (.ok ()))
    | _ => .endStream
  whole
    | 0 | 1 | _ + 2 => rfl

/-- A service that was started and connected. -/
def connected (syncDelay completionDelay : Nat) (input : AbbreviationInput) (request : Nat) :
    Service :=
  (connectingRun syncDelay completionDelay input request).state 2

theorem ready_connected (syncDelay completionDelay : Nat) (input : AbbreviationInput)
    (request : Nat) (names : Names) :
    (connected syncDelay completionDelay input request).Ready names := by
  let r := connectingRun syncDelay completionDelay input request
  have hinvariant := r.invariant 2
  refine ⟨?_, ⟨List.nodup_nil, fun _ hs => absurd hs List.not_mem_nil⟩, List.nodup_nil⟩
  constructor
  · exact hinvariant
  · exact ⟨hinvariant.timed, r.sleeping 2, r.resting 2⟩
  · exact r.attached 2
  · exact r.registered 2
  · exact r.registry_nodup 2
  · rfl
  · intro h x hx
    cases hx
  · intro k w hw
    cases hw

/-- Of a script for a connected service, leave out every step about other documents. At each step
that is left, the same is given back, and the same can be seen of the document: what was pushed and
asked and when, versions, phases and texts, whether it is busy, its markers, and what failed or was
answered. -/
theorem documents_do_not_interfere (syncDelay completionDelay : Nat) (input : AbbreviationInput)
    (request : Nat) {names : Names} {script : List Step} (hs : ∀ a ∈ script, a.IsOwn names)
    (id : DocumentId) :
    (((connected syncDelay completionDelay input request).play script).filter fun m =>
        m.step.concerns id).map (Moment.seen names id) =
      ((connected syncDelay completionDelay input request).play
        (script.filter (Step.concerns id))).map (Moment.seen names id) := by
  have hready := ready_connected syncDelay completionDelay input request names
  have hsettled : (connected syncDelay completionDelay input request).IsSettled := rfl
  exact Twins.play ⟨hready, hready, hsettled, hsettled, rfl⟩ hs

/-- Two documents that each have a channel, and requests numbered apart. -/
def pairNames : Names where
  channel name := if name = "a" then ⟨"a"⟩ else ⟨"b"⟩
  request r := if r = 1 then some ⟨"a"⟩ else if r = 2 then some ⟨"b"⟩ else none

/-- Both are opened, edited and flushed; the server refuses a push of one and accepts those of the
other. -/
def pairScript : List Step :=
  [.act ⟨"a"⟩ (.openDocument (.standalone ['x']) "a"),
    .act ⟨"b"⟩ (.openDocument (.standalone ['y']) "b"),
    .act ⟨"a"⟩ (.answer 0 (.synced (.error (.transport "refused")))),
    .act ⟨"b"⟩ (.answer 0 (.synced (.ok ()))),
    .act ⟨"a"⟩ (.setText 0 ['p']),
    .pass 1,
    .act ⟨"b"⟩ (.setText 0 ['q']),
    .pass 5,
    .act ⟨"a"⟩ (.flush 1 0),
    .act ⟨"b"⟩ (.answer 0 (.synced (.ok ()))),
    .receive (.allMessages []),
    .act ⟨"a"⟩ .closeDocument,
    .shutdown 0]

theorem pairScript_own : ∀ a ∈ pairScript, a.IsOwn pairNames := by decide

theorem pair_apart : (∀ a ∈ pairScript, a.IsOwn pairNames) ∧
    (((connected 5 0 ⟨⟨[]⟩, []⟩ 0).play pairScript).filter fun m =>
        m.step.concerns ⟨"b"⟩).map (Moment.seen pairNames ⟨"b"⟩) =
      ((connected 5 0 ⟨⟨[]⟩, []⟩ 0).play
        (pairScript.filter (Step.concerns ⟨"b"⟩))).map (Moment.seen pairNames ⟨"b"⟩) ∧
    (((connected 5 0 ⟨⟨[]⟩, []⟩ 0).play pairScript).filter fun m =>
        m.step.concerns ⟨"b"⟩).map (fun m => (m.state.now, m.state.running.isBusy ⟨"b"⟩)) =
      [(0, true), (0, false), (1, false), (1, true), (6, true), (6, false), (6, false),
        (6, false)] :=
  ⟨pairScript_own, documents_do_not_interfere 5 0 ⟨⟨[]⟩, []⟩ 0 pairScript_own ⟨"b"⟩, by decide⟩

end DocSync.Service
