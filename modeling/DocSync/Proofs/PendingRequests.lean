import DocSync.Proofs.ClientRun

/-!
No request hangs on a dead connection. In an unending run, whose steps come in any order, what was
sent is failed once its connection is lost, and what was not sent is refused and taken back.
-/

set_option linter.unusedSectionVars false

namespace DocSync.Server

variable [Wording]

namespace Standing

variable {c : Client} {e : Client.Event} {s t : Standing} {x : Exchange} {seq : Nat}

theorem Sound.pending_stage (hs : s.Sound seq) (hp : s.isPending = true)
    (hx : s.exchange = some x) :
    x.stage ≠ .ended ∧ x.inbox = none := by
  obtain ⟨_, hstage⟩ := hs.present hx
  by_cases hended : x.stage = .ended
  · simp only [StageHolds, hended] at hstage
    exact absurd (hstage.1.symm.trans hp) Bool.false_ne_true
  · refine ⟨hended, ?_⟩
    simpa [(hstage.unended hended).2] using hp

theorem Move.ended (hm : s.Move c e seq t) (hs : s.Sound seq) (hx : s.exchange = some x)
    (hstage : x.stage = .ended) : t = s := by
  cases hm with
  | same => rfl
  | register _ _ hn => exact absurd (hx.symm.trans hn) (Option.some_ne_none _)
  | check => simp [Standing.check, hx, hstage]
  | cleanUp => simp [Standing.cleanUp, hx, hstage]
  | deliver _ hp =>
    obtain ⟨_, h⟩ := hs.present hx
    simp only [StageHolds, hstage] at h
    exact absurd (h.1.symm.trans hp) Bool.false_ne_true

theorem Move.waits (hm : s.Move c e seq t) (hx : s.exchange = some x)
    (hstage : x.stage = .waiting) :
    ∃ y, t.exchange = some y ∧ (y.stage = .waiting ∨ y.stage = .ended) := by
  cases hm with
  | same => exact ⟨x, hx, Or.inl hstage⟩
  | register _ _ hn => exact absurd (hx.symm.trans hn) (Option.some_ne_none _)
  | check => exact ⟨x, by simp [Standing.check, hx, hstage], Or.inl hstage⟩
  | cleanUp => exact ⟨x, by simp [Standing.cleanUp, hx, hstage], Or.inl hstage⟩
  | deliver =>
    simp only [Standing.deliver, hx, conclude, hstage]
    cases x.inbox <;> exact ⟨_, rfl, Or.inr rfl⟩

theorem Move.refused (hm : s.Move c e seq t) {reason : Failure} (hx : s.exchange = some x)
    (hstage : x.stage = .refused reason) (he : e ≠ .cleanUp seq) :
    ∃ y, t.exchange = some y ∧ y.stage = .refused reason := by
  cases hm with
  | same => exact ⟨x, hx, hstage⟩
  | register _ _ hn => exact absurd (hx.symm.trans hn) (Option.some_ne_none _)
  | check => exact ⟨x, by simp [Standing.check, hx, hstage], hstage⟩
  | cleanUp hc => exact absurd hc he
  | deliver =>
    simp only [Standing.deliver, hx, conclude, hstage]
    exact ⟨_, rfl, rfl⟩

/-- Only a check refuses a request, for what it finds at the door. -/
theorem Move.refusing (hm : s.Move c e seq t) {y : Exchange} {reason : Failure}
    (hy : t.exchange = some y) (hstage : y.stage = .refused reason) :
    (∃ x, s.exchange = some x ∧ x.stage = .refused reason) ∨
      e = .check seq ∧ (∃ x, s.exchange = some x ∧ x.stage = .registered) ∧
        (c.door = none ∧ reason = .notConnected ∨
          c.door = some false ∧ reason = .serviceStopped) := by
  cases hm with
  | same => exact Or.inl ⟨y, hy, hstage⟩
  | register =>
    cases hy
    cases hstage
  | check he =>
    rcases check_cases s c.door with hsame | ⟨x, hx, hr, ⟨r, hdoor, hnext⟩ | ⟨_, hnext⟩⟩
    · rw [hsame] at hy
      exact Or.inl ⟨y, hy, hstage⟩
    · rw [hnext] at hy
      cases hy
      cases hstage
      exact Or.inr ⟨he, ⟨x, hx, hr⟩, hdoor⟩
    · obtain ⟨stage, hnext', hwaits | hended⟩ := conclude_exchange s { x with stage := .waiting }
      all_goals
        rw [hnext, hnext'] at hy
        cases hy
        subst stage
        cases hstage
  | cleanUp =>
    rcases cleanUp_cases s with hsame | ⟨x, r, _, _, hnext⟩
    · rw [hsame] at hy
      exact Or.inl ⟨y, hy, hstage⟩
    · rw [hnext] at hy
      cases hy
      cases hstage
  | @deliver r =>
    cases hx : s.exchange with
    | none =>
      simp only [Standing.deliver, hx] at hy
      cases hy
    | some x =>
      obtain ⟨stage, hnext, hsame | hended⟩ := deliver_exchange hx r
      all_goals
        rw [hnext] at hy
        cases hy
      · exact Or.inl ⟨x, rfl, hsame.symm.trans hstage⟩
      · exact absurd (hended.symm.trans hstage) (by simp)

/-- A request that was failed stays so, and ends with this failure or the reason it is refused. -/
theorem Move.failed (hm : s.Move c e seq t) (hs : s.Sound seq) {failure : Failure}
    (hx : s.exchange = some x) (hi : x.inbox = some (.error failure)) :
    (∃ y, t.exchange = some y ∧ y.inbox = some (.error failure)) ∧
      ∀ v ∈ t.endings, v ∈ s.endings ∨ v = .error failure ∨
        ∃ reason, x.stage = .refused reason ∧ v = .error reason := by
  cases hm with
  | same => exact ⟨⟨x, hx, hi⟩, fun v hv => Or.inl hv⟩
  | register _ _ hn => exact absurd (hx.symm.trans hn) (Option.some_ne_none _)
  | check =>
    rcases check_cases s c.door with hsame | ⟨y, hy, _, ⟨r, _, hnext⟩ | ⟨_, hnext⟩⟩
    · rw [hsame]
      exact ⟨⟨x, hx, hi⟩, fun v hv => Or.inl hv⟩
    · obtain rfl := Option.some.inj (hx.symm.trans hy)
      rw [hnext]
      exact ⟨⟨_, rfl, hi⟩, fun v hv => Or.inl hv⟩
    · obtain rfl := Option.some.inj (hx.symm.trans hy)
      rw [hnext]
      simp only [conclude, hi]
      refine ⟨⟨_, rfl, rfl⟩, fun v hv => ?_⟩
      rcases List.mem_cons.mp hv with rfl | hv
      · exact Or.inr (Or.inl rfl)
      · exact Or.inl hv
  | cleanUp =>
    rcases cleanUp_cases s with hsame | ⟨y, reason, hy, hr, hnext⟩
    · rw [hsame]
      exact ⟨⟨x, hx, hi⟩, fun v hv => Or.inl hv⟩
    · obtain rfl := Option.some.inj (hx.symm.trans hy)
      rw [hnext]
      refine ⟨⟨_, rfl, hi⟩, fun v hv => ?_⟩
      rcases List.mem_cons.mp hv with rfl | hv
      · exact Or.inr (Or.inr ⟨reason, hr, rfl⟩)
      · exact Or.inl hv
  | deliver _ hp =>
    have hn := (hs.pending_stage hp hx).2
    exact absurd (hi.symm.trans hn) (Option.some_ne_none _)

/-- The request was refused for a reason, and its registration was taken back. -/
structure IsGone (s : Standing) (reason : Failure) : Prop where
  ended : ∃ x, s.exchange = some x ∧ x.stage = .ended
  notPending : s.isPending = false
  ending : .error reason ∈ s.endings

theorem isGone_cleanUp {reason : Failure} (hx : s.exchange = some x)
    (hstage : x.stage = .refused reason) : s.cleanUp.IsGone reason := by
  simp only [cleanUp, hx, hstage]
  exact ⟨⟨_, rfl, rfl⟩, rfl, List.mem_cons_self⟩

end Standing

namespace Client

variable {event : Nat → Event} {c : Client} {x : Exchange} {k seq : Nat}

/-- Why a request is refused that finds no alive connection. -/
def refusal (c : Client) : Failure :=
  match c.installed with
  | none => .notConnected
  | some _ => .serviceStopped

/-- The check of the request found no connection. -/
def FoundNone (event : Nat → Event) (seq k : Nat) : Prop :=
  ∃ i < k, event i = .check seq ∧ (run event i).installed = none ∧
    ∃ x, (run event i).exchange? seq = some x ∧ x.stage = .registered

/-- How the requests of a run stand in one of its states, and how they will end. -/
structure NoHang (event : Nat → Event) (k : Nat) : Prop where
  /-- Where no connection is alive and none is about to be lost, what is pending was not sent. -/
  unsent : (run event k).alive? = none → ¬(run event k).IsLosing →
    ∀ seq ∈ (run event k).pending, ∃ x, (run event k).exchange? seq = some x ∧
      (x.stage = .registered ∨ ∃ reason, x.stage = .refused reason)
  /-- Without an installation there is no alive connection later either. -/
  uninstalled : (run event k).alive? = none → ∀ j, k ≤ j →
    (∀ i, k ≤ i → i < j → ¬(run event i).Installs (event i)) → (run event j).alive? = none
  /-- A check that finds no alive connection fails. The request is then refused until it is cleaned
  up, and is pending no more from then on. -/
  refused : ∀ seq x, (run event k).exchange? seq = some x → x.stage = .registered →
    event k = .check seq → (run event k).alive? = none → ∀ j, k < j →
    (∀ i, k < i → i < j → event i ≠ .cleanUp seq) ∧
      (∃ y, (run event j).exchange? seq = some y ∧ y.stage = .refused (run event k).refusal) ∨
    (∃ i, k < i ∧ i < j ∧ event i = .cleanUp seq) ∧ seq ∉ (run event j).pending ∧
      .ended seq (.error (run event k).refusal) ∈ (run event j).journal
  /-- Who marks a connection dead fails everything pending in its next step. What was sent before
  has ended then: it was answered before, or it ends by that step. What is failed before its check
  ends no other way, unless that check finds no connection. -/
  lost : ∀ procedure connection reason cause,
    (run event k).procedures.lookup procedure = some (.mark connection reason cause) →
    event k = .proceed procedure → ∀ j, k < j → event j = .proceed procedure →
    (∀ i, k < i → i < j → event i ≠ .proceed procedure) →
    (run event (j + 1)).pending = [] ∧
      (∀ i ≤ j, ∀ seq x, (run event i).exchange? seq = some x → x.stage = .waiting →
        ∃ v, .ended seq v ∈ (run event (j + 1)).journal ∧
          (v = .error .serviceStopped ∨ .ended seq v ∈ (run event j).journal)) ∧
      ∀ seq ∈ (run event j).pending, ∀ m, j < m → ∀ v, .ended seq v ∈ (run event m).journal →
        v = .error .serviceStopped ∨ v = .error .notConnected ∧ FoundNone event seq m
  /-- A request that was failed before its check ends with it, if it is not refused. -/
  late : ∀ seq x e, (run event k).exchange? seq = some x → x.stage = .registered →
    x.inbox = some (.error e) → event k = .check seq → (run event k).alive? ≠ none →
    .ended seq (.error e) ∈ (run event (k + 1)).journal
  /-- While a request waits, its connection is alive or about to be lost. -/
  guarded : ∀ seq x, (run event k).exchange? seq = some x → x.stage = .waiting →
    (run event k).alive? ≠ none ∨ (run event k).IsLosing
  /-- What is pending has neither ended nor been delivered to. -/
  unfinished : ∀ seq ∈ (run event k).pending, ∃ x, (run event k).exchange? seq = some x ∧
    x.stage ≠ .ended ∧ x.inbox = none

theorem guarded_of_waiting (hc : c.Invariant) (hx : c.exchange? seq = some x)
    (hw : x.stage = .waiting) : c.alive? ≠ none ∨ c.IsLosing := by
  rcases hc.guarded hx hw with hdoor | hl
  · exact Or.inl fun hn => alive?_eq_none.mp hn hdoor
  · exact Or.inr hl

theorem unfinished_of_pending (hc : c.Invariant) (hs : seq ∈ c.pending) :
    ∃ x, c.exchange? seq = some x ∧ x.stage ≠ .ended ∧ x.inbox = none := by
  have hp := mem_pending.mp hs
  cases hx : c.exchange? seq with
  | none => exact absurd (((hc.sound seq).absent hx).1.symm.trans hp) Bool.false_ne_true
  | some x => exact ⟨x, rfl, (hc.sound seq).pending_stage hp hx⟩

theorem unsent_of_pending (hc : c.Invariant) (ha : c.alive? = none) (hl : ¬c.IsLosing)
    (hs : seq ∈ c.pending) :
    ∃ x, c.exchange? seq = some x ∧
      (x.stage = .registered ∨ ∃ reason, x.stage = .refused reason) := by
  obtain ⟨x, hx, hended, _⟩ := unfinished_of_pending hc hs
  refine ⟨x, hx, ?_⟩
  cases hst : x.stage with
  | registered => exact Or.inl rfl
  | refused reason => exact Or.inr ⟨reason, rfl⟩
  | waiting =>
    rcases guarded_of_waiting hc hx hst with hn | hl'
    · exact absurd ha hn
    · exact absurd hl' hl
  | ended => exact absurd hst hended

theorem exchange?_check_refused (hx : c.exchange? seq = some x) (hstage : x.stage = .registered)
    (ha : c.alive? = none) :
    (c.check seq).exchange? seq = some { x with stage := .refused c.refusal } := by
  have hs := congrArg Standing.exchange (standing_check (c := c) seq seq)
  rw [if_pos rfl] at hs
  have hdoor := alive?_eq_none.mp ha
  refine hs.trans ?_
  simp only [Standing.check, exchange?_standing, hx, hstage, ↓reduceIte]
  cases hi : c.installed with
  | none => simp [door, refusal, hi]
  | some connection =>
    cases halive : c.isAlive connection with
    | true => exact absurd (door_of_alive hi halive) hdoor
    | false => simp [door, refusal, hi, halive]

theorem refused_run (event : Nat → Event) {k : Nat} (hx : (run event k).exchange? seq = some x)
    (hstage : x.stage = .registered) (he : event k = .check seq)
    (ha : (run event k).alive? = none) {j : Nat} (hj : k < j) :
    (∀ i, k < i → i < j → event i ≠ .cleanUp seq) ∧
      (∃ y, (run event j).exchange? seq = some y ∧ y.stage = .refused (run event k).refusal) ∨
    (∃ i, k < i ∧ i < j ∧ event i = .cleanUp seq) ∧
      ((run event j).standing seq).IsGone (run event k).refusal := by
  induction hj with
  | refl =>
    refine Or.inl ⟨fun i hi hik => by omega, ?_⟩
    have hnext : run event (k + 1) = (run event k).check seq := by
      simp only [run, he, next]
    exact ⟨_, hnext ▸ exchange?_check_refused hx hstage ha, rfl⟩
  | @step j hj ih =>
    have hkj : k < j := hj
    have hm := move_run event j seq
    rcases ih with ⟨hno, y, hy, hr⟩ | ⟨⟨i, hi, hij, hclean⟩, hgone⟩
    · by_cases hclean : event j = .cleanUp seq
      · refine Or.inr ⟨⟨j, hkj, Nat.lt_succ_self j, hclean⟩, ?_⟩
        have hnext : (run event (j + 1)).standing seq = ((run event j).standing seq).cleanUp := by
          simp only [run, hclean, next, standing_cleanUp, ↓reduceIte]
        rw [hnext]
        exact Standing.isGone_cleanUp hy hr
      · refine Or.inl ⟨?_, hm.refused hy hr hclean⟩
        intro i hi hij
        by_cases hlast : i = j
        · rw [hlast]
          exact hclean
        · exact hno i hi (by omega)
    · refine Or.inr ⟨⟨i, hi, Nat.lt_succ_of_lt hij, hclean⟩, ?_⟩
      obtain ⟨y, hy, hended⟩ := hgone.ended
      rw [hm.ended ((invariant_run event j).sound seq) hy hended]
      exact hgone

/-- The next step of a procedure stays what it is until it is made. -/
theorem lookup_next {procedure : Nat} {p : Procedure} {e : Event}
    (hp : c.procedures.lookup procedure = some p) (he : e ≠ .proceed procedure) :
    (c.next e).procedures.lookup procedure = some p := by
  have hlaunch (q : Procedure) : (c.launch q).procedures.lookup procedure = some p := by
    simp [launch, List.lookup_append, hp]
  cases e with
  | request => exact hp
  | check n => exact (requestsOnly_check c n).procedures ▸ hp
  | cleanUp n => exact (requestsOnly_cleanUp c n).procedures ▸ hp
  | line connection text => exact (readsOnly_line c connection text).procedures ▸ hp
  | finish connection => exact (readsOnly_finish c connection).procedures ▸ hp
  | quit connection =>
    rcases quit_cases c connection with h | h
    all_goals
      simp only [next, h]
      exact hp
  | lose connection loss =>
    simp [next, lose, launch, List.lookup_append, change, hp]
  | connect canStart => exact hlaunch _
  | shutdown => exact hlaunch _
  | proceed other =>
    have hne : procedure ≠ other := by
      rintro rfl
      exact he rfl
    simp only [next]
    split
    · exact hp
    · next q hq =>
      obtain ⟨_, hd | ⟨q', hd⟩⟩ := procedures_advance c other q
      · rw [hd, Keyed.lookup_remove, if_neg hne]
        exact hp
      · rw [hd, Keyed.lookup_put, if_neg hne]
        exact hp
  | subscribe =>
    simp only [next, subscribe]
    split <;> exact hp

theorem isDrain_of_lookup {procedure : Nat} {wasAlive : Bool} {reason : String} {cause : Cause}
    (hp : c.procedures.lookup procedure = some (.drain wasAlive reason cause)) :
    c.isDrain (.proceed procedure) = true := by
  simp only [isDrain, hp]

theorem lookup_run (event : Nat → Event) {k procedure connection : Nat} {reason : String}
    {cause : Cause}
    (hp : (run event k).procedures.lookup procedure = some (.mark connection reason cause))
    (he : event k = .proceed procedure) {j : Nat} (hj : k < j)
    (hno : ∀ i, k < i → i < j → event i ≠ .proceed procedure) :
    ∃ wasAlive, (run event j).procedures.lookup procedure =
      some (.drain wasAlive reason cause) := by
  induction hj with
  | refl =>
    refine ⟨(run event k).isAlive connection, ?_⟩
    simp only [run, he, next, hp, advance, hold, Keyed.lookup_put, ↓reduceIte]
  | @step j hj ih =>
    have hkj : k < j := hj
    obtain ⟨wasAlive, hd⟩ := ih fun i hi hij => hno i hi (Nat.lt_succ_of_lt hij)
    exact ⟨wasAlive, lookup_next hd (hno j hkj (Nat.lt_succ_self j))⟩

theorem standing_drain (hc : c.Numbered) {procedure : Nat}
    (hd : c.isDrain (.proceed procedure) = true) (seq : Nat) :
    (c.next (.proceed procedure)).standing seq =
      (c.standing seq).offer (some (.error .serviceStopped)) := by
  rw [standing_next hc]
  simp only [Standing.next, delivery?, hd, ↓reduceIte]

theorem pending_drain (hc : c.Numbered) {procedure : Nat}
    (hd : c.isDrain (.proceed procedure) = true) : (c.next (.proceed procedure)).pending = [] := by
  refine List.eq_nil_iff_forall_not_mem.mpr fun seq => ?_
  refine not_pending_of_standing ?_
  rw [standing_drain hc hd]
  simp only [Standing.offer]
  by_cases hp : (c.standing seq).isPending = true
  · rw [if_pos hp]
    exact isPending_deliver _ _
  · rw [if_neg hp]
    simpa using hp

theorem ended_drain (hc : c.Invariant) {procedure : Nat}
    (hd : c.isDrain (.proceed procedure) = true) (hx : c.exchange? seq = some x)
    (hw : x.stage = .waiting) :
    .ended seq (.error .serviceStopped) ∈ (c.next (.proceed procedure)).journal := by
  obtain ⟨_, hstage⟩ := (hc.sound seq).present hx
  simp only [Standing.StageHolds, hw] at hstage
  obtain ⟨_, hp, hi⟩ := hstage
  rw [← mem_endings, standing_drain hc.numbered hd]
  simp only [Standing.offer, hp, ↓reduceIte, Standing.deliver, exchange?_standing, hx,
    Standing.conclude, hw, hi]
  exact List.mem_cons_self

theorem waits_run (event : Nat → Event) {i j : Nat} (hij : i ≤ j)
    (hx : (run event i).exchange? seq = some x) (hw : x.stage = .waiting) :
    ∃ y, (run event j).exchange? seq = some y ∧ (y.stage = .waiting ∨ y.stage = .ended) := by
  induction hij with
  | refl => exact ⟨x, hx, Or.inl hw⟩
  | @step j _ ih =>
    have hm := move_run event j seq
    obtain ⟨y, hy, hwaits | hended⟩ := ih
    · exact hm.waits hy hwaits
    · have hsame := hm.ended ((invariant_run event j).sound seq) hy hended
      exact ⟨y, (congrArg Standing.exchange hsame).trans hy, Or.inr hended⟩

theorem ended_of_stage (hc : c.Invariant) (hx : c.exchange? seq = some x)
    (hended : x.stage = .ended) : ∃ v, .ended seq v ∈ c.journal := by
  obtain ⟨_, hstage⟩ := (hc.sound seq).present hx
  simp only [Standing.StageHolds, hended] at hstage
  obtain ⟨_, v, hv, _⟩ := hstage
  exact ⟨v, mem_endings.mp (hv ▸ List.mem_singleton.mpr rfl)⟩

theorem lost_run (event : Nat → Event) {j procedure : Nat}
    (hd : (run event j).isDrain (.proceed procedure) = true) (he : event j = .proceed procedure)
    {i : Nat} (hij : i ≤ j) (hx : (run event i).exchange? seq = some x) (hw : x.stage = .waiting) :
    ∃ v, .ended seq v ∈ (run event (j + 1)).journal ∧
      (v = .error .serviceStopped ∨ .ended seq v ∈ (run event j).journal) := by
  have hj := invariant_run event j
  have hnext : run event (j + 1) = (run event j).next (.proceed procedure) := by
    simp only [run, he]
  obtain ⟨y, hy, hwaits | hended⟩ := waits_run event hij hx hw
  · refine ⟨.error .serviceStopped, ?_, Or.inl rfl⟩
    rw [hnext]
    exact ended_drain hj hd hy hwaits
  · obtain ⟨v, hv⟩ := ended_of_stage hj hy hended
    have hsame := (move_run event j seq).ended (hj.sound seq) hy hended
    refine ⟨v, ?_, Or.inr hv⟩
    rw [← mem_endings, hsame]
    exact mem_endings.mpr hv

theorem refusal_of_refused (event : Nat → Event) {k : Nat} {reason : Failure}
    (hx : (run event k).exchange? seq = some x) (hstage : x.stage = .refused reason) :
    ∃ i < k, event i = .check seq ∧ (run event i).alive? = none ∧
      reason = (run event i).refusal ∧
      ∃ y, (run event i).exchange? seq = some y ∧ y.stage = .registered := by
  induction k generalizing x with
  | zero => cases hx
  | succ k ih =>
    rcases (move_run event k seq).refusing hx hstage with ⟨y, hy, hr⟩ | ⟨he, hy, hdoor⟩
    · obtain ⟨i, hi, hfound⟩ := ih hy hr
      exact ⟨i, Nat.lt_succ_of_lt hi, hfound⟩
    · refine ⟨k, Nat.lt_succ_self k, he, ?_, ?_, hy⟩
      · rw [alive?_eq_none]
        rcases hdoor with ⟨hd, _⟩ | ⟨hd, _⟩ <;> simp [hd]
      · simp only [refusal]
        rcases hdoor with ⟨hd, rfl⟩ | ⟨hd, rfl⟩
        · rw [Option.map_eq_none_iff.mp hd]
        · obtain ⟨connection, hi, _⟩ := Option.map_eq_some_iff.mp hd
          rw [hi]

theorem foundNone_of_refused (event : Nat → Event) {k : Nat}
    (hx : (run event k).exchange? seq = some x) (hstage : x.stage = .refused .notConnected) :
    FoundNone event seq k := by
  obtain ⟨i, hi, he, _, hreason, hy⟩ := refusal_of_refused event hx hstage
  refine ⟨i, hi, he, ?_, hy⟩
  simp only [refusal] at hreason
  split at hreason
  · assumption
  · cases hreason

/-- What was failed before its check ends so, unless that check finds no connection. -/
theorem failed_run (event : Nat → Event) {j procedure : Nat}
    (hd : (run event j).isDrain (.proceed procedure) = true) (he : event j = .proceed procedure)
    (hs : seq ∈ (run event j).pending) {m : Nat} (hm : j < m) :
    (∃ x, (run event m).exchange? seq = some x ∧ x.inbox = some (.error .serviceStopped)) ∧
      ∀ v ∈ ((run event m).standing seq).endings,
        v = .error .serviceStopped ∨ v = .error .notConnected ∧ FoundNone event seq m := by
  induction hm with
  | refl =>
    have hj := invariant_run event j
    obtain ⟨x, hx, hended, hi⟩ := unfinished_of_pending hj hs
    have hp := mem_pending.mp hs
    have hnext : (run event (j + 1)).standing seq =
        ((run event j).standing seq).deliver (.error .serviceStopped) := by
      simp only [run, he]
      rw [standing_drain hj.numbered hd]
      simp only [Standing.offer, hp, ↓reduceIte]
    obtain ⟨_, hstage⟩ := (hj.sound seq).present hx
    have hend := (hstage.unended hended).1
    rw [← exchange?_standing, hnext]
    simp only [Standing.deliver, exchange?_standing, hx, hi, Option.none_or, Standing.conclude]
    cases x.stage with
    | waiting =>
      simp only [hend]
      exact ⟨⟨_, rfl, rfl⟩, fun v hv => Or.inl (List.mem_singleton.mp hv)⟩
    | registered | refused | ended =>
      simp only [hend]
      exact ⟨⟨_, rfl, rfl⟩, fun v hv => absurd hv List.not_mem_nil⟩
  | @step m _ ih =>
    obtain ⟨⟨x, hx, hi⟩, hend⟩ := ih
    have hsound := (invariant_run event m).sound seq
    have hmono (hf : FoundNone event seq m) : FoundNone event seq (m + 1) := by
      obtain ⟨i, him, hfound⟩ := hf
      exact ⟨i, Nat.lt_succ_of_lt him, hfound⟩
    obtain ⟨hinbox, hnew⟩ := (move_run event m seq).failed hsound hx hi
    refine ⟨hinbox, fun v hv => ?_⟩
    rcases hnew v hv with hv | hv | ⟨reason, hstage, rfl⟩
    · rcases hend v hv with hv | ⟨hv, hf⟩
      · exact Or.inl hv
      · exact Or.inr ⟨hv, hmono hf⟩
    · exact Or.inl hv
    · obtain ⟨_, hholds⟩ := hsound.present hx
      simp only [Standing.StageHolds, hstage] at hholds
      rcases hholds.1 with rfl | rfl
      · exact Or.inr ⟨rfl, hmono (foundNone_of_refused event hx hstage)⟩
      · exact Or.inl rfl

theorem ended_check {r : Except Failure Json} (hx : c.exchange? seq = some x)
    (hstage : x.stage = .registered) (hi : x.inbox = some r) (ha : c.alive? ≠ none) :
    .ended seq (r.bind x.request.command.reply) ∈ (c.check seq).journal := by
  have hdoor : c.door = some true := by
    by_contra hn
    exact ha (alive?_eq_none.mpr hn)
  rw [← mem_endings, standing_check, if_pos rfl]
  simp only [Standing.check, exchange?_standing, hx, hstage, ↓reduceIte, hdoor,
    Standing.conclude, hi]
  exact List.mem_cons_self

theorem requests_never_hang (event : Nat → Event) (k : Nat) : NoHang event k where
  unsent ha hl seq hs := unsent_of_pending (invariant_run event k) ha hl hs
  uninstalled ha j hj hno := alive?_run event hj hno ha
  refused seq x hx hstage he ha j hj := by
    rcases refused_run event hx hstage he ha hj with hr | ⟨hclean, hgone⟩
    · exact Or.inl hr
    · exact Or.inr ⟨hclean, not_pending_of_standing hgone.notPending, mem_endings.mp hgone.ending⟩
  lost procedure connection reason cause hp he j hj hej hno := by
    obtain ⟨wasAlive, hd⟩ := lookup_run event hp he hj hno
    have hdrain := isDrain_of_lookup hd
    refine ⟨?_, fun i hi seq x hx hw => lost_run event hdrain hej hi hx hw, ?_⟩
    · simp only [run, hej]
      exact pending_drain (invariant_run event j).numbered hdrain
    · intro seq hs m hm v hv
      exact (failed_run event hdrain hej hs hm).2 v (mem_endings.mpr hv)
  late seq x e hx hstage hi he ha := by
    simp only [run, he]
    exact ended_check hx hstage hi ha
  guarded seq x hx hw := guarded_of_waiting (invariant_run event k) hx hw
  unfinished seq hs := unfinished_of_pending (invariant_run event k) hs

end Client

end DocSync.Server

namespace DocSync.Server.Client

attribute [local instance] Wording.silent

/-- A request is registered between the two steps that take a lost connection down. -/
def exitRun : Nat → Event
  | 0 => .connect true
  | 1 | 2 | 3 => .proceed 0
  | 4 => .request (.sync "a" "x")
  | 5 => .check 1
  | 6 => .lose 0 .closedOutput
  | 7 => .proceed 1
  | 8 => .request (.sync "a" "y")
  | 9 => .proceed 1
  | 10 => .check 2
  | 11 => .cleanUp 2
  | _ => .subscribe

theorem exit_ends_requests :
    (run exitRun 10).pending = [] ∧
      (∃ v, .ended 1 v ∈ (run exitRun 10).journal) ∧
      .ended 2 (.error .serviceStopped) ∈ (run exitRun 12).journal := by
  have hmark : (run exitRun 7).procedures.lookup 1 =
      some (.mark 0 Loss.closedOutput.message .lost) := by rfl
  have hlost := (requests_never_hang exitRun 7).lost 1 0 Loss.closedOutput.message .lost hmark rfl 9
    (by omega) rfl (fun i hi hij => by
      obtain rfl : i = 8 := by omega
      simp [exitRun])
  have hsent : (run exitRun 6).exchange? 1 = some ⟨⟨1, .sync "a" "x"⟩, .waiting, none⟩ := by rfl
  have hfailed : (run exitRun 10).exchange? 2 =
      some ⟨⟨2, .sync "a" "y"⟩, .registered, some (.error .serviceStopped)⟩ := by rfl
  have hdead : (run exitRun 10).alive? = none := by rfl
  obtain ⟨v, hv, _⟩ := hlost.2.1 6 (by omega) 1 _ hsent rfl
  have hrefused := (requests_never_hang exitRun 10).refused 2 _ hfailed rfl rfl hdead 12 (by omega)
  rcases hrefused with ⟨hno, _⟩ | ⟨_, _, hended⟩
  · exact absurd rfl (hno 11 (by omega) (by omega))
  · exact ⟨hlost.1, ⟨v, hv⟩, hended⟩

end DocSync.Server.Client
