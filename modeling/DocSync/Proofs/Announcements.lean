import DocSync.Proofs.ClientRun
import DocSync.Proofs.ResponseLines

/-!
What the listener is told: every snapshot that can be read, every error whose number was not pending
when it was looked up, and every connection that stopped being alive, in the order in which they
come. What a reader has looked up stems from the last error that it took in.
-/

set_option linter.unusedSectionVars false

namespace DocSync.Server

variable [Wording]

/-- What goes to the listener from a response at once. -/
def Response.notice? : Response → Option ServerEvent
  | .allMessages messages => some (.allMessages messages)
  | .error none message => some (.error message)
  | _ => none

def Errand.notice? : Errand → Option ServerEvent
  | .answer _ _ => none
  | .publish message => some (.error message)

/-- A connection was alive until it was marked dead, and this is still to be told. -/
def Procedure.isAnnouncing : Procedure → Bool
  | .drain wasAlive _ _ => wasAlive
  | .announce _ _ => true
  | _ => false

/-- How many losses the step of a procedure tells. -/
def Procedure.lossCount : Procedure → Nat
  | .announce _ _ => 1
  | _ => 0

namespace Client

variable {c : Client} {e : Event} {text : List Char} {v : ServerEvent} {connection : Nat}

/-- The event is a line of a connection whose reader is ready for it. -/
def Reads (c : Client) (e : Event) (text : List Char) : Prop :=
  ∃ connection, e = .line connection text ∧ c.isReady connection = true

/-- The event is an error with a number, which its reader looks up. -/
def LooksUp (c : Client) (e : Event) (connection : Nat) (errand : Errand) : Prop :=
  ∃ text j seq, e = .line connection text ∧ c.isReady connection = true ∧
    IsOfKind text "error" j ∧ Carries j seq ∧ errand = c.lookUp seq (errorText j)

/-- What the listener is told of a lost connection. -/
def loss? (c : Client) : Event → Option ServerEvent
  | .proceed procedure =>
    match c.procedures.lookup procedure with
    | some (.announce reason _) => some (.error reason)
    | _ => none
  | _ => none

/-- What the listener is told with an event. -/
def tells? (c : Client) (e : Event) : Option ServerEvent :=
  ((c.heard? e).bind Response.notice?).or (((c.errand? e).bind Errand.notice?).or (c.loss? e))

/-- What the listener is to be told with an event. -/
inductive Announces (c : Client) (e : Event) : ServerEvent → Prop
  | snapshot {text : List Char} {j : Json} {messages : List ServerMessage} (hr : c.Reads e text)
    (hj : IsOfKind text "all_messages" j) (hm : Response.messages? j = some messages) :
    Announces c e (.allMessages messages)
  | stray {text : List Char} {j : Json} (hr : c.Reads e text) (hj : IsOfKind text "error" j)
    (hs : ∀ seq, ¬Carries j seq) : Announces c e (.error (errorText j))
  | unmatched {connection : Nat} {message : String} (he : e = .finish connection)
    (hd : c.errands.lookup connection = some (.publish message)) :
    Announces c e (.error message)
  | loss {procedure : Nat} {reason : String} {cause : Cause} (he : e = .proceed procedure)
    (hd : c.procedures.lookup procedure = some (.announce reason cause)) :
    Announces c e (.error reason)

theorem heard?_eq_some {r : Response} :
    c.heard? e = some r ↔ ∃ text, c.Reads e text ∧ Response.ofLine? text = some r := by
  constructor
  · intro hr
    cases e with
    | line connection text =>
      simp only [heard?] at hr
      split at hr
      · next ht =>
        rw [Bool.and_eq_true] at ht
        exact ⟨text, ⟨connection, rfl, ht.1⟩, hr⟩
      · cases hr
    | _ => cases hr
  · rintro ⟨text, ⟨connection, rfl, hread⟩, hr⟩
    cases ht : Text.isBlankText text with
    | true => exact absurd (hr.symm.trans (ofLine?_blank ht)) (Option.some_ne_none r)
    | false => simpa [heard?, hread, ht] using hr

theorem errand?_eq_some {errand : Errand} :
    c.errand? e = some errand ↔
      ∃ connection, e = .finish connection ∧ c.errands.lookup connection = some errand := by
  constructor
  · intro hr
    cases e with
    | finish connection => exact ⟨connection, rfl, hr⟩
    | _ => cases hr
  · rintro ⟨connection, rfl, hd⟩
    exact hd

theorem loss?_eq_some :
    c.loss? e = some v ↔ ∃ procedure reason cause, e = .proceed procedure ∧
      c.procedures.lookup procedure = some (.announce reason cause) ∧ v = .error reason := by
  constructor
  · intro hv
    simp only [loss?] at hv
    split at hv
    · next procedure =>
      split at hv
      · next reason cause hd =>
        cases hv
        exact ⟨procedure, reason, cause, rfl, hd, rfl⟩
      · cases hv
    · cases hv
  · rintro ⟨procedure, reason, cause, rfl, hd, rfl⟩
    simp only [loss?, hd]

theorem tells?_iff : c.tells? e = some v ↔ (c.heard? e).bind Response.notice? = some v ∨
    (c.errand? e).bind Errand.notice? = some v ∨ c.loss? e = some v := by
  cases e with
  | line connection text => simp [tells?, errand?, loss?]
  | finish connection => simp [tells?, heard?, loss?]
  | proceed procedure => simp [tells?, heard?, errand?]
  | _ => simp [tells?, heard?, errand?, loss?]

theorem heard_notice_iff : (c.heard? e).bind Response.notice? = some v ↔
    (∃ text j messages, c.Reads e text ∧ IsOfKind text "all_messages" j ∧
      Response.messages? j = some messages ∧ v = .allMessages messages) ∨
    ∃ text j, c.Reads e text ∧ IsOfKind text "error" j ∧ (∀ seq, ¬Carries j seq) ∧
      v = .error (errorText j) := by
  have hunnumbered (j : Json) : Response.seq? j = none ↔ ∀ seq, ¬Carries j seq := by
    rw [Option.eq_none_iff_forall_ne_some]
    exact forall_congr' fun seq => not_congr Response.seq?_eq_some
  constructor
  · intro hv
    obtain ⟨r, hr, hn⟩ := Option.bind_eq_some_iff.mp hv
    obtain ⟨text, hread, hr⟩ := heard?_eq_some.mp hr
    cases r with
    | allMessages messages =>
      cases hn
      obtain ⟨j, hj, hm⟩ := Response.ofLine?_allMessages.mp hr
      exact Or.inl ⟨text, j, messages, hread, hj, hm, rfl⟩
    | error seq message =>
      cases seq with
      | none =>
        cases hn
        obtain ⟨j, hj, hs, rfl⟩ := Response.ofLine?_error.mp hr
        exact Or.inr ⟨text, j, hread, hj, (hunnumbered j).mp hs.symm, rfl⟩
      | some seq => cases hn
    | ok | currentTasks | unknown => cases hn
  · rintro (⟨text, j, messages, hread, hj, hm, rfl⟩ | ⟨text, j, hread, hj, hs, rfl⟩)
    · have hr := Response.ofLine?_allMessages.mpr ⟨j, hj, hm⟩
      exact Option.bind_eq_some_iff.mpr ⟨_, heard?_eq_some.mpr ⟨text, hread, hr⟩, rfl⟩
    · have hr := Response.ofLine?_error.mpr ⟨j, hj, ((hunnumbered j).mpr hs).symm, rfl⟩
      exact Option.bind_eq_some_iff.mpr ⟨_, heard?_eq_some.mpr ⟨text, hread, hr⟩, rfl⟩

theorem errand_notice_iff : (c.errand? e).bind Errand.notice? = some v ↔
    ∃ connection message, e = .finish connection ∧
      c.errands.lookup connection = some (.publish message) ∧ v = .error message := by
  constructor
  · intro hv
    obtain ⟨errand, hr, hn⟩ := Option.bind_eq_some_iff.mp hv
    obtain ⟨connection, he, hd⟩ := errand?_eq_some.mp hr
    cases errand with
    | answer => cases hn
    | publish message =>
      cases hn
      exact ⟨connection, message, he, hd, rfl⟩
  · rintro ⟨connection, message, he, hd, rfl⟩
    exact Option.bind_eq_some_iff.mpr ⟨_, errand?_eq_some.mpr ⟨connection, he, hd⟩, rfl⟩

theorem tells?_eq_some : c.tells? e = some v ↔ c.Announces e v := by
  rw [tells?_iff, heard_notice_iff, errand_notice_iff, loss?_eq_some]
  constructor
  · rintro ((⟨text, j, messages, hr, hj, hm, rfl⟩ | ⟨text, j, hr, hj, hs, rfl⟩) |
      ⟨connection, message, he, hd, rfl⟩ | ⟨procedure, reason, cause, he, hd, rfl⟩)
    · exact .snapshot hr hj hm
    · exact .stray hr hj hs
    · exact .unmatched he hd
    · exact .loss he hd
  · intro hv
    cases hv with
    | snapshot hr hj hm => exact Or.inl (Or.inl ⟨_, _, _, hr, hj, hm, rfl⟩)
    | stray hr hj hs => exact Or.inl (Or.inr ⟨_, _, hr, hj, hs, rfl⟩)
    | unmatched he hd => exact Or.inr (Or.inl ⟨_, _, he, hd, rfl⟩)
    | loss he hd => exact Or.inr (Or.inr ⟨_, _, _, he, hd, rfl⟩)

/-- What an event makes a reader look up. -/
def looked? (c : Client) (e : Event) : Option (Nat × Errand) :=
  match e, c.heard? e with
  | .line connection _, some (.error (some seq) message) =>
    some (connection, c.lookUp seq message)
  | _, _ => none

theorem looked?_eq_some {errand : Errand} :
    c.looked? e = some (connection, errand) ↔ c.LooksUp e connection errand := by
  constructor
  · intro hl
    simp only [looked?] at hl
    split at hl
    · next n text seq message hr =>
      cases hl
      obtain ⟨text', ⟨n', he, hready⟩, hr⟩ := heard?_eq_some.mp hr
      cases he
      obtain ⟨j, hj, hs, rfl⟩ := Response.ofLine?_error.mp hr
      exact ⟨text, j, seq, rfl, hready, hj, Response.seq?_eq_some.mp hs.symm, rfl⟩
    · cases hl
  · rintro ⟨text, j, seq, rfl, hready, hj, hs, rfl⟩
    have hr := Response.ofLine?_error.mpr ⟨j, hj, (Response.seq?_eq_some.mpr hs).symm, rfl⟩
    have hheard := heard?_eq_some.mpr ⟨text, ⟨connection, rfl, hready⟩, hr⟩
    simp only [looked?, hheard]

theorem next_of_looked {errand : Errand} (hl : c.LooksUp e connection errand) :
    c.next e = { c with errands := Keyed.put connection errand c.errands } := by
  obtain ⟨text, j, seq, rfl, hready, hj, hs, rfl⟩ := hl
  have hr := Response.ofLine?_error.mpr ⟨j, hj, (Response.seq?_eq_some.mpr hs).symm, rfl⟩
  have hblank : Text.isBlankText text = false := by
    cases ht : Text.isBlankText text with
    | false => rfl
    | true => exact absurd (hr.symm.trans (ofLine?_blank ht)) (Option.some_ne_none _)
  simp only [next, line, hready, hblank, hr, route, Bool.not_false, Bool.and_self, ↓reduceIte]

theorem errands_afterLoss (c : Client) (procedure : Nat) (cause : Cause) :
    (c.afterLoss procedure cause).errands = c.errands := by
  cases cause with
  | lost | replaced => rfl
  | stopped canStop => cases canStop <;> rfl

theorem errands_advance (c : Client) (procedure : Nat) (p : Procedure) :
    (c.advance procedure p).errands = c.errands := by
  cases p with
  | connect canStart =>
    simp only [advance]
    split
    · rfl
    · split <;> rfl
  | mark => rfl
  | drain wasAlive reason cause =>
    have hfail := (requestsOnly_failPending c).errands
    cases wasAlive with
    | true => exact hfail
    | false => exact (errands_afterLoss _ procedure cause).trans hfail
  | announce reason cause => exact errands_afterLoss _ procedure cause
  | start canStart => cases canStart <;> rfl
  | install connection =>
    simp only [advance]
    split <;> rfl
  | shutdown canStop =>
    simp only [advance]
    split <;> rfl

theorem errands_finish (c : Client) (connection : Nat) :
    (c.finish connection).errands = Keyed.remove connection c.errands := by
  simp only [finish]
  split
  · next hd =>
    refine (Keyed.remove_of_notMem fun hm => ?_).symm
    have hsome := Keyed.lookup_isSome_iff.mpr hm
    rw [hd] at hsome
    cases hsome
  · next errand _ =>
    cases errand with
    | answer n message => exact (requestsOnly_answer _ n _).errands
    | publish message => rfl

theorem errands_line {text : List Char}
    (hl : ∀ errand, ¬c.LooksUp (.line connection text) connection errand) :
    (c.line connection text).errands = c.errands := by
  simp only [line]
  split
  · next ht =>
    split
    · next r hr =>
      cases r with
      | ok n body => exact (requestsOnly_answer c n _).errands
      | error n message =>
        cases n with
        | none => rfl
        | some n =>
          obtain ⟨j, hj, hs, rfl⟩ := Response.ofLine?_error.mp hr
          rw [Bool.and_eq_true] at ht
          exact absurd ⟨text, j, n, rfl, ht.1, hj, Response.seq?_eq_some.mp hs.symm, rfl⟩ (hl _)
      | allMessages | currentTasks | unknown => rfl
    · rfl
  · rfl

/-- Only what a reader looks up itself, and the end of that errand, concerns its errand. -/
theorem errand_next {errand : Errand} :
    (c.next e).errands.lookup connection = some errand ↔ c.LooksUp e connection errand ∨
      c.errands.lookup connection = some errand ∧ e ≠ .finish connection := by
  have hsilent (hl : ∀ errand, ¬c.LooksUp e connection errand) (he : e ≠ .finish connection)
      (hs : (c.next e).errands = c.errands) :
      (c.next e).errands.lookup connection = some errand ↔ c.LooksUp e connection errand ∨
        c.errands.lookup connection = some errand ∧ e ≠ .finish connection := by
    rw [hs]
    simp [hl errand, he]
  have hother (he : ∀ n text, e ≠ .line n text) (errand : Errand) :
      ¬c.LooksUp e connection errand := by
    rintro ⟨text, _, _, hline, _⟩
    exact he _ _ hline
  cases e with
  | line n text =>
    by_cases hl : ∃ errand, c.LooksUp (.line n text) n errand
    · obtain ⟨looked, hl⟩ := hl
      have hready : c.isReady n = true := by
        obtain ⟨_, _, _, he, hready, _⟩ := hl
        exact hready
      rw [next_of_looked hl, Keyed.lookup_put]
      by_cases hn : connection = n
      · subst n
        have hnone : c.errands.lookup connection = none := by
          rw [isReady, Bool.and_eq_true] at hready
          exact Option.isNone_iff_eq_none.mp hready.2
        rw [if_pos rfl, hnone, ← looked?_eq_some, looked?_eq_some.mpr hl]
        simp
      · have hno : ¬c.LooksUp (.line n text) connection errand := by
          rintro ⟨_, _, _, he, _⟩
          cases he
          exact hn rfl
        rw [if_neg hn]
        simp [hno]
    · by_cases hn : connection = n
      · subst n
        exact hsilent (not_exists.mp hl) (by simp) (errands_line (not_exists.mp hl))
      · refine hsilent ?_ (by simp) (errands_line (not_exists.mp hl))
        rintro errand ⟨_, _, _, he, _⟩
        cases he
        exact hn rfl
  | finish n =>
    have hs : (c.next (.finish n)).errands = Keyed.remove n c.errands := errands_finish c n
    rw [hs, Keyed.lookup_remove]
    have hno := hother (by simp) errand
    by_cases hn : connection = n
    · subst n
      simp [hno]
    · simp [hno, hn, Ne.symm hn]
  | quit n =>
    refine hsilent (hother (by simp)) (by simp) ?_
    rcases quit_cases c n with h | h
    · simp only [next, h]
    · simp only [next, h]
      rfl
  | check n => exact hsilent (hother (by simp)) (by simp) (requestsOnly_check c n).errands
  | cleanUp n => exact hsilent (hother (by simp)) (by simp) (requestsOnly_cleanUp c n).errands
  | request | lose | connect | shutdown => exact hsilent (hother (by simp)) (by simp) rfl
  | proceed procedure =>
    refine hsilent (hother (by simp)) (by simp) ?_
    simp only [next]
    split
    · rfl
    · exact errands_advance c procedure _
  | subscribe =>
    refine hsilent (hother (by simp)) (by simp) ?_
    simp only [next, subscribe]
    split <;> rfl

/-- A reader's errand stems from the last error that it took in. -/
theorem errand_run (event : Nat → Event) (k : Nat) {errand : Errand} :
    (run event k).errands.lookup connection = some errand ↔
      ∃ i < k, (run event i).LooksUp (event i) connection errand ∧
        ∀ j, i < j → j < k → event j ≠ .finish connection := by
  induction k with
  | zero =>
    constructor
    · intro hd
      cases hd
    · rintro ⟨i, hi, _⟩
      omega
  | succ k ih =>
    rw [run, errand_next, ih]
    constructor
    · rintro (hl | ⟨⟨i, hi, hl, hno⟩, he⟩)
      · exact ⟨k, Nat.lt_succ_self k, hl, fun j hj hjk => by omega⟩
      · refine ⟨i, Nat.lt_succ_of_lt hi, hl, fun j hj hjk => ?_⟩
        rcases Nat.lt_succ_iff_lt_or_eq.mp hjk with hjk | rfl
        · exact hno j hj hjk
        · exact he
    · rintro ⟨i, hi, hl, hno⟩
      rcases Nat.lt_succ_iff_lt_or_eq.mp hi with hi | rfl
      · exact Or.inr ⟨⟨i, hi, hl, fun j hj hjk => hno j hj (Nat.lt_succ_of_lt hjk)⟩,
          hno k hi (Nat.lt_succ_self k)⟩
      · exact Or.inl hl

theorem told_route (c : Client) (connection : Nat) (r : Response) :
    (c.route connection r).told = r.notice?.toList ++ c.told := by
  cases r with
  | ok seq body => exact (requestsOnly_answer c seq _).told
  | error seq message => cases seq <;> rfl
  | allMessages | currentTasks | unknown => rfl

theorem told_perform (c : Client) (errand : Errand) :
    (c.perform errand).told = errand.notice?.toList ++ c.told := by
  cases errand with
  | answer seq message => exact (requestsOnly_answer c seq _).told
  | publish message => rfl

theorem told_afterLoss (c : Client) (procedure : Nat) (cause : Cause) :
    (c.afterLoss procedure cause).told = c.told := by
  cases cause with
  | lost | replaced => rfl
  | stopped canStop => cases canStop <;> rfl

theorem told_advance (c : Client) (procedure : Nat) (p : Procedure) :
    (c.advance procedure p).told =
      match p with
      | .announce reason _ => .error reason :: c.told
      | _ => c.told := by
  cases p with
  | connect canStart =>
    simp only [advance]
    split
    · rfl
    · split <;> rfl
  | mark => rfl
  | drain wasAlive reason cause =>
    have hfail := (requestsOnly_failPending c).told
    cases wasAlive with
    | true => exact hfail
    | false => exact (told_afterLoss _ procedure cause).trans hfail
  | announce reason cause => exact told_afterLoss _ procedure cause
  | start canStart => cases canStart <;> rfl
  | install connection =>
    simp only [advance]
    split <;> rfl
  | shutdown =>
    simp only [advance]
    split <;> rfl

theorem told_next (c : Client) (e : Event) : (c.next e).told = (c.tells? e).toList ++ c.told := by
  cases e with
  | check seq => exact (requestsOnly_check c seq).told
  | cleanUp seq => exact (requestsOnly_cleanUp c seq).told
  | line connection text =>
    simp only [next, line, tells?, heard?, errand?, loss?, Option.bind_none, Option.or_none]
    split
    · cases hr : Response.ofLine? text with
      | none => rfl
      | some r => exact told_route c connection r
    · rfl
  | finish connection =>
    simp only [next, finish, tells?, heard?, errand?, loss?, Option.bind_none, Option.none_or,
      Option.or_none]
    split
    · next hd =>
      rw [hd]
      rfl
    · next errand hd =>
      rw [hd]
      exact told_perform _ errand
  | quit connection =>
    rcases quit_cases c connection with h | h
    · simp only [next, h]
      rfl
    · simp only [next, h]
      rfl
  | proceed procedure =>
    simp only [next, tells?, heard?, errand?, loss?, Option.bind_none, Option.none_or]
    split
    · next hp => simp only [hp, Option.toList_none, List.nil_append]
    · next p hp =>
      rw [told_advance, hp]
      cases p <;> rfl
  | request | lose | connect | shutdown => rfl
  | subscribe =>
    simp only [next, subscribe]
    split <;> rfl

theorem told_run (event : Nat → Event) (k : Nat) :
    (run event k).told.reverse =
      (List.range k).filterMap fun i => (run event i).tells? (event i) := by
  induction k with
  | zero => rfl
  | succ k ih =>
    rw [List.range_succ, List.filterMap_append, ← ih, run, told_next]
    cases htold : (run event k).tells? (event k) with
    | none => simp [htold]
    | some v => simp [htold]

/-- How many connections are not alive. -/
def lostCount (c : Client) : Nat := c.connections.countP fun x => !x.isAlive

/-- How many losses are still to be told. -/
def announcingCount (c : Client) : Nat := c.procedures.countP fun p => p.2.isAnnouncing

theorem countP_set_add {α : Type} (f : α → Bool) {l : List α} {i : Nat} {a b : α}
    (h : l[i]? = some a) :
    (l.set i b).countP f + (f a).toNat = l.countP f + (f b).toNat := by
  induction l generalizing i with
  | nil => simp at h
  | cons x l ih =>
    cases i with
    | zero =>
      obtain rfl : x = a := by simpa using h
      simp only [List.set_cons_zero, List.countP_cons]
      cases f x <;> cases f b <;> simp
    | succ i =>
      have hl := ih (i := i) (by simpa using h)
      simp only [List.set_cons_succ, List.countP_cons]
      omega

theorem lostCount_change (c : Client) (connection : Nat) (f : Connection → Connection) :
    (c.change connection f).lostCount +
        ((c.connections[connection]?).elim false fun x => !x.isAlive).toNat =
      c.lostCount + ((c.connections[connection]?).elim false fun x => !(f x).isAlive).toNat := by
  cases hx : c.connections[connection]? with
  | none =>
    have hle := List.getElem?_eq_none_iff.mp hx
    simp [lostCount, change, List.modify_eq_self hle]
  | some x =>
    have hset := countP_set_add (fun x : Connection => !x.isAlive) (b := f x) hx
    have hmodify : c.connections.modify connection f = c.connections.set connection (f x) := by
      refine List.ext_getElem? fun i => ?_
      rw [List.getElem?_modify, List.getElem?_set]
      by_cases hi : connection = i
      · subst i
        obtain ⟨hlt, rfl⟩ := List.getElem?_eq_some_iff.mp hx
        simp [hlt]
      · simp [hi]
    simp only [lostCount, change, hmodify]
    exact hset

theorem lostCount_mark (c : Client) (connection : Nat) (cause : Cause) :
    (c.change connection cause.mark).lostCount =
      c.lostCount + (c.isAlive connection).toNat := by
  have hchange := lostCount_change c connection cause.mark
  have hdead (x : Connection) : (cause.mark x).isAlive = false := by cases cause <;> rfl
  simp only [isAlive]
  cases hx : c.connections[connection]? with
  | none => simpa [hx] using hchange
  | some x => cases ha : x.isAlive <;> simp [hx, ha, hdead] at hchange ⊢ <;> omega

theorem lostCount_keep {f : Connection → Connection} (hf : ∀ x, (f x).isAlive = x.isAlive)
    (c : Client) (connection : Nat) : (c.change connection f).lostCount = c.lostCount := by
  have hchange := lostCount_change c connection f
  simp only [hf] at hchange
  exact Nat.add_right_cancel hchange

/-- The connections that are not alive are those whose loss was told or is still to be told. -/
def Accounted (c d : Client) (told : Nat) : Prop :=
  d.lostCount + c.announcingCount = c.lostCount + told + d.announcingCount

section

variable {d : Client} {procedure : Nat} {p q : Procedure}

theorem ReadsOnly.accounted (h : ReadsOnly c d) : Accounted c d 0 := by
  simp only [Accounted, lostCount, announcingCount, h.connections, h.procedures]
  omega

theorem accounted_launch (hd : d.procedures = c.procedures ++ [(c.nextProcedure, p)])
    (hp : p.isAnnouncing = false) (hlost : d.lostCount = c.lostCount) : Accounted c d 0 := by
  have hcount : d.announcingCount = c.announcingCount := by
    simp [announcingCount, hd, List.countP_append, hp]
  simp only [Accounted, hcount, hlost]
  omega

theorem accounted_put {told : Nat} (hp : c.procedures.lookup procedure = some p)
    (hd : d.procedures = Keyed.put procedure q c.procedures)
    (hlost : d.lostCount + p.isAnnouncing.toNat = c.lostCount + told + q.isAnnouncing.toNat) :
    Accounted c d told := by
  have hcount := Keyed.countP_put (fun p : Nat × Procedure => p.2.isAnnouncing) (a := q) hp
  dsimp only at hcount
  simp only [Accounted, announcingCount, hd]
  omega

theorem accounted_remove (hc : c.Keys) (hp : c.procedures.lookup procedure = some p)
    (hd : d.procedures = Keyed.remove procedure c.procedures)
    (hlost : d.lostCount = c.lostCount) : Accounted c d p.isAnnouncing.toNat := by
  have hcount :=
    Keyed.countP_remove (fun p : Nat × Procedure => p.2.isAnnouncing) hc.nodup hp
  dsimp only at hcount
  simp only [Accounted, announcingCount, hd, hlost]
  omega

theorem accounted_afterLoss (hc : c.Keys) (hp : c.procedures.lookup procedure = some p)
    (hd : d.procedures = c.procedures) (hlost : d.lostCount = c.lostCount) (cause : Cause) :
    Accounted c (d.afterLoss procedure cause) p.isAnnouncing.toNat := by
  have hremove := congrArg (Keyed.remove procedure) hd
  cases cause with
  | lost => exact accounted_remove hc hp hremove hlost
  | replaced canStart =>
    have hput := congrArg (Keyed.put procedure (.start canStart)) hd
    exact accounted_put hp hput (congrArg (· + p.isAnnouncing.toNat) hlost)
  | stopped canStop => cases canStop <;> exact accounted_remove hc hp hremove hlost

theorem accounted_advance (hc : c.Keys) (hp : c.procedures.lookup procedure = some p) :
    Accounted c (c.advance procedure p) p.lossCount := by
  cases p with
  | connect canStart =>
    simp only [advance]
    split
    · exact accounted_put hp rfl rfl
    · split
      · exact accounted_remove hc hp rfl rfl
      · exact accounted_put hp rfl rfl
  | mark connection reason cause =>
    exact accounted_put hp rfl (lostCount_mark c connection cause)
  | drain wasAlive reason cause =>
    have h := requestsOnly_failPending c
    have hlost : c.failPending.lostCount = c.lostCount := by
      simp only [lostCount, h.connections]
    cases wasAlive with
    | true =>
      have hput := congrArg (Keyed.put procedure (.announce reason cause)) h.procedures
      exact accounted_put hp hput (congrArg (· + 1) hlost)
    | false => exact accounted_afterLoss hc hp h.procedures hlost cause
  | announce reason cause =>
    have htold : (c.tell (.error reason)).lostCount = c.lostCount := rfl
    exact accounted_afterLoss (d := c.tell (.error reason)) hc hp rfl htold cause
  | start canStart =>
    cases canStart with
    | false => exact accounted_remove hc hp rfl rfl
    | true =>
      refine accounted_put hp rfl ?_
      simp [advance, lostCount, hold, List.countP_append, Procedure.isAnnouncing,
        Procedure.lossCount, Connection.opened]
  | install connection =>
    simp only [advance]
    split
    · exact accounted_remove hc hp rfl (lostCount_keep Connection.isAlive_abort c connection)
    · exact accounted_remove hc hp rfl rfl
  | shutdown =>
    simp only [advance]
    split
    · exact accounted_remove hc hp rfl rfl
    · exact accounted_put hp rfl rfl

theorem loss?_proceed (hp : c.procedures.lookup procedure = some p) :
    (c.loss? (.proceed procedure)).isSome.toNat = p.lossCount := by
  simp only [loss?, hp]
  cases p <;> rfl

theorem accounted_next (hc : c.Keys) (e : Event) :
    Accounted c (c.next e) (c.loss? e).isSome.toNat := by
  cases e with
  | request => exact rfl
  | check seq => exact (requestsOnly_check c seq).toReadsOnly.accounted
  | cleanUp seq => exact (requestsOnly_cleanUp c seq).toReadsOnly.accounted
  | line connection text => exact (readsOnly_line c connection text).accounted
  | finish connection => exact (readsOnly_finish c connection).accounted
  | quit connection =>
    rcases quit_cases c connection with h | h
    · simp only [next, h]
      exact (ReadsOnly.refl c).accounted
    · simp only [next, h]
      have hlost := lostCount_keep Connection.isAlive_endReading c connection
      simp only [Accounted, hlost]
      rfl
  | lose connection loss =>
    exact accounted_launch rfl rfl (lostCount_keep loss.isAlive_strike c connection)
  | connect => exact accounted_launch rfl rfl rfl
  | shutdown => exact accounted_launch rfl rfl rfl
  | proceed procedure =>
    simp only [next]
    split
    · next hp =>
      simp only [loss?, hp]
      exact rfl
    · next p hp =>
      rw [loss?_proceed hp]
      exact accounted_advance hc hp
  | subscribe =>
    simp only [next, subscribe]
    split <;> exact rfl

end

theorem losses_run (event : Nat → Event) (k : Nat) :
    ((List.range k).countP fun i => ((run event i).loss? (event i)).isSome) +
      (run event k).announcingCount = (run event k).lostCount := by
  induction k with
  | zero => rfl
  | succ k ih =>
    have hstep := accounted_next (invariant_run event k).keys (event k)
    rw [List.range_succ, List.countP_append, List.countP_singleton]
    simp only [Accounted] at hstep
    simp only [run]
    cases hl : ((run event k).loss? (event k)).isSome <;> simp [hl] at hstep ⊢ <;> omega

end Client

end DocSync.Server
