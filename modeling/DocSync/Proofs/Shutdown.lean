import DocSync.Proofs.BusyMarks
import DocSync.Proofs.Debounces

/-!
What a shutdown ends. Every document is closed, every completion that waits for its debounce is
cancelled, and every request is refused from then on. A connect that was under way is not ended.
-/

namespace DocSync.Service

variable {s : Service} {e : Event} {g h i j k request task : Nat} {id : DocumentId}
  {p : EditorPosition}

/-- What a stopped service has given up. -/
structure Halted (s : Service) : Prop where
  registry : s.registry = []
  markers : s.diagnostics.markers = []
  outstanding : s.wait.outstanding = none

theorem stopped_stays (he : e.isWhole = true) (hs : s.isStopped = true) :
    (s.next e).isStopped = true := by
  have hm := status_next (s := s) he
  generalize hv : (s.next e).status = v at hm
  have hstop : (s.next e).isStopped = v.isStopped := congrArg Status.isStopped hv
  rw [hstop]
  cases hm with
  | stopped => rfl
  | _ => exact hs

/-- A service that is stopped has nothing left, and gets nothing back. -/
theorem next_halted (he : e.isWhole = true) (hlisted : s.status.Listed)
    (hs : s.isStopped = true → s.Halted) (hstop : (s.next e).isStopped = true) :
    (s.next e).Halted := by
  have hm := status_next (s := s) he
  generalize hv : (s.next e).status = v at hm
  have hreg : (s.next e).registry = v.registry := congrArg Status.registry hv
  have hdiag : (s.next e).diagnostics = v.diagnostics := congrArg Status.diagnostics hv
  have hwait : (s.next e).wait = v.wait := congrArg Status.wait hv
  have hstop : v.isStopped = true := (congrArg Status.isStopped hv).symm.trans hstop
  suffices v.registry = [] ∧ v.diagnostics.markers = [] ∧ v.wait.outstanding = none by
    exact ⟨hreg.trans this.1, hdiag ▸ this.2.1, hwait ▸ this.2.2⟩
  cases hm with
  | kept | left | connected =>
    exact ⟨(hs hstop).registry, (hs hstop).markers, (hs hstop).outstanding⟩
  | edited =>
    exact ⟨(hs hstop).registry, (hs hstop).markers, Wait.reject_outstanding s.wait .cancelled⟩
  | opened hrun => exact absurd (hrun.symm.trans hstop) Bool.false_ne_true
  | closed =>
    refine ⟨?_, ?_, (hs hstop).outstanding⟩
    · change Keyed.remove _ s.registry = []
      rw [(hs hstop).registry]
      rfl
    · change Keyed.remove _ s.diagnostics.markers = []
      rw [(hs hstop).markers]
      rfl
  | stopped => exact ⟨rfl, forget_all hlisted, Wait.reject_outstanding s.wait .cancelled⟩
  | told =>
    refine ⟨(hs hstop).registry, ?_, (hs hstop).outstanding⟩
    have hnone : s.shownDocuments = [] := by
      rw [shownDocuments, (hs hstop).registry]
      rfl
    rw [hnone]
    exact (hs hstop).markers
  | started hr => exact absurd ((require_ok hr).1.symm.trans hstop) Bool.false_ne_true
  | rejected => exact ⟨(hs hstop).registry, (hs hstop).markers, (hs hstop).outstanding⟩
  | elapsed =>
    exact ⟨(hs hstop).registry, (hs hstop).markers,
      Wait.elapse_outstanding (hs hstop).outstanding _⟩

theorem Run.listed (r : Run) (k : Nat) : (r.state k).status.Listed := by
  induction k with
  | zero => exact fun _ hk => absurd hk List.not_mem_nil
  | succ k ih => exact (status_next (r.whole k)).listed ih

theorem Run.halted (r : Run) (k : Nat) : (r.state k).isStopped = true → (r.state k).Halted := by
  induction k with
  | zero => exact fun hs => absurd hs Bool.false_ne_true
  | succ k ih => exact next_halted (r.whole k) (r.listed k) ih

theorem Run.waiting (r : Run) (k : Nat) : (r.state k).Waiting := by
  induction k with
  | zero =>
    have hnone {task g : Nat} : ¬(r.state 0).Debounces task g := by
      rintro ⟨_, _, _, _, _, hw⟩
      cases hw
    exact ⟨fun hg => absurd hg (Option.some_ne_none _).symm, fun hd => absurd hd hnone,
      fun hd => absurd hd hnone, fun hd => absurd hd hnone⟩
  | succ k ih => exact next_waiting ih (r.unused k) (r.whole k)

theorem Run.tidy (r : Run) (k : Nat) (place : Nat → Place := fun _ => .inside) :
    (r.state k place).wait.Tidy := by
  induction k with
  | zero => exact ⟨nofun, nofun, nofun⟩
  | succ k ih => exact (status_next (r.whole k) (place k)).tidy ih

theorem Run.stopped (r : Run) (hjk : j ≤ k) (hj : (r.state j).isStopped = true) :
    (r.state k).isStopped = true := by
  induction hjk with
  | refl => exact hj
  | step _ ih => exact stopped_stays (r.whole _) ih

theorem Run.shutdown_stops (r : Run) (hj : r.event j = .shutdown request) :
    (r.state (j + 1)).isStopped = true := by
  simp only [Run.state, hj, next, requestShutdown]
  split
  · next hs => exact hs
  · exact congrArg Status.isStopped (status_retireEach (s := { r.state j with
      isStopped := true, wait := (r.state j).wait.cancel, registry := [] }) (r.state j).registry)

theorem Run.closed_of_stopped (r : Run) (hs : (r.state k).isStopped = true) {x : Session}
    (hx : (r.state k).session? h = some x) : x.isClosed = true := by
  cases ho : x.isClosed with
  | true => rfl
  | false =>
    have hown : (r.state k).registry.lookup x.id = some h :=
      (r.invariant k).owned.owner ⟨hx, ho⟩
    rw [(r.halted k hs).registry] at hown
    cases hown

theorem Run.rest_of_stopped (r : Run) (hs : (r.state k).isStopped = true) :
    (r.state k).running.members = [] := by
  refine List.eq_nil_iff_forall_not_mem.mpr fun id hid => ?_
  have hbusy : (r.state k).running.isBusy id = true := List.contains_iff_mem.mpr hid
  obtain ⟨h, x, hx, _⟩ := (r.invariant k).marked.owner hbusy
  exact absurd ((r.closed_of_stopped hs hx.1).symm.trans hx.2) (by simp)

/-- How a stopped service takes a request. -/
structure Refuses (s : Service) : Prop where
  openDocument : ∀ id document channel,
    s.openDocument id document channel = (s, .error .serviceStopped)
  connect : ∀ request,
    s.next (.connect request) = s.note (.finished request (.done (.error .serviceStopped)))
  complete : ∀ request id p, s.next (.complete request id p) =
    s.note (.finished request (.completion (.error .serviceStopped)))
  info : ∀ request id p use, s.next (.info request id p use) =
    s.note (.finished request (InfoUse.refuse .serviceStopped use))

theorem refuses_of_stopped (hs : s.isStopped = true) : s.Refuses where
  openDocument id document channel := by
    simp only [openDocument, beginOpen, hs, ↓reduceIte]
  connect request := by
    simp only [next, requestConnect, hs, ↓reduceIte]
  complete request id p := by
    simp only [next, requestCompletion, require, hs, ↓reduceIte]
  info request id p use := by
    simp only [next, requestInfo, require, hs, ↓reduceIte]

/-- A task connects, or waits for its turn to. -/
def Connects (s : Service) (task request : Nat) : Prop :=
  s.work task = some (.connect request) ∨ s.work task = some (.connectTurn request)

theorem connects_before (hn : s.work s.nextTask = none) (hs : s.isStopped = true)
    (hc : (s.next e).Connects task request) : s.Connects task request := by
  rcases hc with hw | hw
  · rcases work_next hn hw with hw | ⟨ha, hb⟩
    · exact Or.inl hw
    · cases hb with
      | connect hrun => exact absurd (hrun.symm.trans hs) Bool.false_ne_true
      | reconnect hturn =>
        obtain rfl := Option.some.inj ha
        exact Or.inr hturn
  · rcases work_next hn hw with hw | ⟨_, hb⟩
    · exact Or.inr hw
    · cases hb with
      | turn hrun => exact absurd (hrun.symm.trans hs) Bool.false_ne_true

theorem Run.connects_before (r : Run) (hs : (r.state j).isStopped = true) (hjk : j ≤ k)
    (hc : (r.state k).Connects task request) : (r.state j).Connects task request := by
  induction hjk with
  | refl => exact hc
  | @step k hjk ih => exact ih (Service.connects_before (r.unused k) (r.stopped hjk hs) hc)

theorem connects_before_shutdown (hn : s.work s.nextTask = none) {q : Nat}
    (hc : (s.next (.shutdown q)).Connects task request) : s.Connects task request := by
  refine hc.imp (fun hw => ?_) fun hw => ?_
  · exact (work_next hn hw).resolve_right fun hb => by cases hb.2
  · exact (work_next hn hw).resolve_right fun hb => by cases hb.2

/-- A connect that was under way is answered after the shutdown. -/
structure Run.Reconnects (r : Run) (j i : Nat) : Prop where
  after : j < i
  answered : ∃ task request, r.event i = .answer task (.connected (.ok ()) (.ok ())) ∧
    (r.state i).work task = some (.connect request) ∧ (r.state j).Connects task request

theorem Run.connected_after (r : Run) (hfirst : (r.state j).isStopped = false)
    (hj : r.event j = .shutdown request) (hjk : j < k) (hc : (r.state k).isConnected = true) :
    ∃ i < k, r.Reconnects j i := by
  have hstop := r.shutdown_stops hj
  induction hjk with
  | refl =>
    have hm : (r.state (j + 1)).isConnected = false := by
      have hs : ¬(r.state j).isStopped = true := by simp [hfirst]
      simp only [Run.state, hj, next, requestShutdown, hs, Bool.false_eq_true, ↓reduceIte]
      rfl
    exact absurd (hm.symm.trans hc) Bool.false_ne_true
  | @step k hjk ih =>
    have hm := status_next (s := r.state k) (r.whole k)
    generalize hv : ((r.state k).next (r.event k)).status = v at hm
    have hconn : v.isConnected = true := (congrArg Status.isConnected hv).symm.trans hc
    have hbefore (hc : (r.state k).isConnected = true) : ∃ i < k + 1, r.Reconnects j i := by
      obtain ⟨i, hi, hr⟩ := ih hc
      exact ⟨i, Nat.lt_succ_of_lt hi, hr⟩
    generalize he : r.event k = e at hm
    cases hm with
    | stopped => exact absurd hconn Bool.false_ne_true
    | @connected task request hw =>
      refine ⟨k, Nat.lt_succ_self k, hjk, task, request, he, hw, ?_⟩
      have hc := r.connects_before hstop hjk (Or.inl hw)
      simp only [Run.state, hj] at hc
      exact connects_before_shutdown (r.unused j) hc
    | _ => exact hbefore hconn

/-- The task of a completion ends with its request cancelled. -/
def Cancels (s : Service) (e : Event) (request : Nat) : Prop :=
  (s.next e).journal = .finished request (.completion (.ok .cancelled)) :: s.journal

/-- In a stopped service a completion that waits for its debounce waits on until its turn, and is
cancelled then. -/
theorem debounce_next (hn : s.work s.nextTask = none) (hs : s.Waiting) (hhalt : s.Halted)
    {d : Nat} (hw : s.work task = some (.debounce request h id p g d)) :
    (∀ e, (s.next e).work task = some (.debounce request h id p g d) ∨ e = .run task) ∧
      s.Cancels (.run task) request ∧ s.canRun (.debounce request h id p g d) = true := by
  have hrejected : (s.wait.rejections.lookup g).isSome = true := by
    refine (hs.answered ⟨request, h, id, p, d, hw⟩).resolve_left fun ho => ?_
    exact Option.some_ne_none _ (ho.symm.trans hhalt.outstanding)
  obtain ⟨reason, hr⟩ := Option.isSome_iff_exists.mp hrejected
  refine ⟨fun e => ?_, ?_, ?_⟩
  · by_cases ha : s.actor e = some task
    case neg => exact Or.inl ((work_next_of_ne ha).trans hw)
    have hne : task ≠ s.nextTask := by
      rintro rfl
      exact Option.some_ne_none _ (hw.symm.trans hn)
    rcases actor_turn hne ha with rfl | ⟨a, rfl⟩
    · exact Or.inr rfl
    · rw [next_answer hw]
      exact Or.inl hw
  · rcases runDebounce_cases s task request h id p g d with ⟨hn, _⟩ | ⟨_, _, he⟩ | ⟨hn, _⟩
    · exact absurd (hr.symm.trans hn) (Option.some_ne_none _)
    · rw [Cancels, next_run hw, run, he]
      rfl
    · exact absurd (hr.symm.trans hn) (Option.some_ne_none _)
  · simp only [canRun, Wait.poll?, hr]
    rfl

/-- A completion that waited for its debounce at the shutdown waits for its turn, or it had it and
was cancelled. -/
def Run.EndsCancelled (r : Run) (j k task : Nat) (w : Work) (request : Nat) : Prop :=
  (r.state k).work task = some w ∧ (r.state k).canRun w = true ∧
      (r.state k).Cancels (.run task) request ∨
    ∃ i, j < i ∧ i < k ∧ r.event i = .run task ∧ (r.state i).Cancels (.run task) request

theorem Run.completion_cancelled (r : Run) (hj : r.event j = .shutdown request) (hjk : j < k)
    {q d : Nat} (hw : (r.state j).work task = some (.debounce q h id p g d)) :
    r.EndsCancelled j k task (.debounce q h id p g d) q := by
  have hstop := r.shutdown_stops hj
  have hturn {i : Nat} (hji : j < i) (hw : (r.state i).work task = some (.debounce q h id p g d)) :=
    debounce_next (r.unused i) (r.waiting i) (r.halted i (r.stopped hji hstop)) hw
  induction hjk with
  | refl =>
    have hw' : (r.state (j + 1)).work task = some (.debounce q h id p g d) := by
      have hne : (r.state j).actor (r.event j) ≠ some task := by
        rw [hj]
        intro ha
        obtain rfl : (r.state j).nextTask = task := Option.some.inj ha
        exact Option.some_ne_none _ (hw.symm.trans (r.unused j))
      exact (work_next_of_ne hne).trans hw
    obtain ⟨_, hcancel, hrun⟩ := hturn (Nat.lt_succ_self j) hw'
    exact Or.inl ⟨hw', hrun, hcancel⟩
  | @step k hjk ih =>
    rcases ih with ⟨hk, _, hcancel⟩ | ⟨i, hji, hik, he⟩
    · rcases (hturn hjk hk).1 (r.event k) with hk' | hevent
      · obtain ⟨_, hcancel, hrun⟩ := hturn (Nat.lt_succ_of_lt hjk) hk'
        exact Or.inl ⟨hk', hrun, hcancel⟩
      · exact Or.inr ⟨k, hjk, Nat.lt_succ_self k, hevent, hcancel⟩
    · exact Or.inr ⟨i, hji, Nat.lt_succ_of_lt hik, he⟩

/-- What holds after the first shutdown of a run, which is its event `j`. -/
structure ShutDown (r : Run) (j k : Nat) : Prop where
  stopped : (r.state k).isStopped = true
  registry : (r.state k).registry = []
  closed : ∀ h x, (r.state k).session? h = some x → x.isClosed = true
  running : (r.state k).running.members = []
  markers : (r.state k).diagnostics.markers = []
  refuses : (r.state k).Refuses
  /-- Only a connect that was under way can connect again. -/
  connected : (r.state k).isConnected = true → ∃ i < k, r.Reconnects j i
  cancelled : ∀ task q h id p g d, (r.state j).work task = some (.debounce q h id p g d) →
    r.EndsCancelled j k task (.debounce q h id p g d) q

theorem shutdown_ends_all (r : Run) {j k request : Nat} (hfirst : (r.state j).isStopped = false)
    (hj : r.event j = .shutdown request) (hjk : j < k) : ShutDown r j k := by
  have hs : (r.state k).isStopped = true := r.stopped hjk (r.shutdown_stops hj)
  exact {
    stopped := hs
    registry := (r.halted k hs).registry
    closed := fun h x hx => r.closed_of_stopped hs hx
    running := r.rest_of_stopped hs
    markers := (r.halted k hs).markers
    refuses := refuses_of_stopped hs
    connected := r.connected_after hfirst hj hjk
    cancelled := fun task q h id p g d hw => r.completion_cancelled hj hjk hw }

/-- A service is shut down while it connects. -/
def stoppedWhileConnecting : Run where
  syncDelay := 300
  completionDelay := 100
  input := ⟨⟨[]⟩, []⟩
  event
    | 0 => .connect 0
    | 1 => .shutdown 1
    | 2 => .answer 1 (.stopped (.ok ()))
    | 3 => .answer 0 (.connected (.ok ()) (.ok ()))
    | _ => .endStream
  whole k := by
    split <;> rfl

theorem stopped_service_reconnects :
    (stoppedWhileConnecting.state 3).isStopped = true ∧
      (stoppedWhileConnecting.state 3).tasks.lookup 1 = none ∧
      (stoppedWhileConnecting.state 3).isConnected = false ∧
      (stoppedWhileConnecting.state 4).isStopped = true ∧
      (stoppedWhileConnecting.state 4).isConnected = true := by
  decide

theorem stopped_while_connecting_ends :
    ((stoppedWhileConnecting.state 1).isStopped = false ∧
      stoppedWhileConnecting.event 1 = .shutdown 1 ∧ 1 < 4) ∧
      ShutDown stoppedWhileConnecting 1 4 :=
  ⟨⟨by decide, rfl, by decide⟩,
    shutdown_ends_all stoppedWhileConnecting (by decide) rfl (by decide)⟩

end DocSync.Service
