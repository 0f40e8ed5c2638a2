import DocSync.Proofs.Announcements
import DocSync.Proofs.PendingRequests

/-!
Responses reach exactly the requests they answer. In an unending run, whose steps come in any order,
every request is resolved at most once, by the first line that answers it while it is pending, or by
the loss of a connection.

A line with an error is looked up in one step and delivered or told in the next of its reader. It is
told if its number was not pending when it was looked up, and it resolves a request that is pending
still when it is delivered; an error whose request was failed or taken back in between does neither.
-/

set_option linter.unusedSectionVars false

namespace DocSync.Server

variable [Wording]

namespace Standing

variable {s : Standing} {x : Exchange} {seq : Nat}

/-- The request, and what was delivered to it. -/
def content (s : Standing) : Option (Request × Option (Except Failure Json)) :=
  s.exchange.map fun x => (x.request, x.inbox)

theorem content_conclude (s : Standing) (x : Exchange) :
    (s.conclude x).content = some (x.request, x.inbox) := by
  obtain ⟨stage, hx, _⟩ := conclude_exchange s x
  simp only [content, hx, Option.map_some]

theorem content_check (s : Standing) (door : Option Bool) : (s.check door).content = s.content := by
  rcases check_cases s door with he | ⟨x, hx, _, ⟨reason, _, he⟩ | ⟨_, he⟩⟩
  · rw [he]
  · simp only [he, content, hx, Option.map_some]
  · rw [he, content_conclude]
    simp only [content, hx, Option.map_some]

theorem content_cleanUp (s : Standing) : s.cleanUp.content = s.content := by
  rcases cleanUp_cases s with he | ⟨x, reason, hx, _, he⟩
  · rw [he]
  · simp only [he, content, hx, Option.map_some]

theorem content_deliver (s : Standing) (r : Except Failure Json) :
    (s.deliver r).content = s.content.map fun x => (x.1, x.2.or (some r)) := by
  cases hx : s.exchange with
  | none => simp [deliver, content, hx]
  | some x =>
    obtain ⟨stage, he, _⟩ := deliver_exchange hx r
    simp only [content, he, hx, Option.map_some]

/-- Nothing else ends a request than what was delivered to it, or its refusal. -/
theorem Move.ending {c : Client} {e : Client.Event} {t : Standing} {v : Except Failure Reply}
    (hm : s.Move c e seq t) (hv : v ∈ t.endings) :
    v ∈ s.endings ∨
      (∃ x r, t.exchange = some x ∧ x.inbox = some r ∧ v = r.bind x.request.command.reply) ∨
      ∃ x reason, s.exchange = some x ∧ x.stage = .refused reason ∧ v = .error reason := by
  have hconclude (s : Standing) (x : Exchange) (hv : v ∈ (s.conclude x).endings) :
      v ∈ s.endings ∨ ∃ y r, (s.conclude x).exchange = some y ∧ y.inbox = some r ∧
        v = r.bind y.request.command.reply := by
    rcases Client.conclude_cases x with ⟨r, hw, hi⟩ | ⟨_, hs⟩
    · simp only [conclude, hw, hi] at hv ⊢
      rcases List.mem_cons.mp hv with rfl | hv
      · exact Or.inr ⟨_, r, rfl, rfl, rfl⟩
      · exact Or.inl hv
    · rw [hs] at hv
      exact Or.inl hv
  cases hm with
  | same | register => exact Or.inl hv
  | check =>
    rcases check_cases s c.door with he | ⟨x, hx, _, ⟨reason, _, he⟩ | ⟨_, he⟩⟩
    · rw [he] at hv
      exact Or.inl hv
    · rw [he] at hv
      exact Or.inl hv
    · rw [he] at hv ⊢
      exact (hconclude s _ hv).imp_right Or.inl
  | cleanUp =>
    rcases cleanUp_cases s with he | ⟨x, reason, hx, hr, he⟩
    · rw [he] at hv
      exact Or.inl hv
    · rw [he] at hv
      rcases List.mem_cons.mp hv with rfl | hv
      · exact Or.inr (Or.inr ⟨x, reason, hx, hr, rfl⟩)
      · exact Or.inl hv
  | deliver =>
    cases hx : s.exchange with
    | none =>
      simp only [Standing.deliver, hx] at hv
      exact Or.inl hv
    | some x =>
      simp only [Standing.deliver, hx] at hv ⊢
      exact (hconclude _ _ hv).imp_right Or.inl

end Standing

namespace Client

variable {event : Nat → Event} {c : Client} {e : Event} {x : Exchange} {k seq : Nat}
  {v : Except Failure Json} {text : List Char}

/-- The event brings an answer: a line that says so, or the error that its reader looked up. -/
inductive Brings (c : Client) (e : Event) : Nat → Except Failure Json → Prop
  | ok {text : List Char} {j : Json} {seq : Nat} (hr : c.Reads e text)
    (hj : IsOfKind text "ok" j) (hs : Carries j seq) : Brings c e seq (.ok j)
  | error {connection seq : Nat} {message : String} (he : e = .finish connection)
    (hd : c.errands.lookup connection = some (.answer seq message)) :
    Brings c e seq (.error (.server message))

/-- The event resolves the request while it is pending. -/
inductive Resolves (c : Client) (e : Event) (seq : Nat) : Except Failure Json → Prop
  | answer {v : Except Failure Json} (hp : seq ∈ c.pending) (hb : c.Brings e seq v) :
    Resolves c e seq v
  | failure {procedure : Nat} {wasAlive : Bool} {reason : String} {cause : Cause}
    (hp : seq ∈ c.pending) (he : e = .proceed procedure)
    (hd : c.procedures.lookup procedure = some (.drain wasAlive reason cause)) :
    Resolves c e seq (.error .serviceStopped)

theorem isDrain_iff : c.isDrain e = true ↔ ∃ procedure wasAlive reason cause,
    e = .proceed procedure ∧
      c.procedures.lookup procedure = some (.drain wasAlive reason cause) := by
  constructor
  · intro hd
    simp only [isDrain] at hd
    split at hd
    · next procedure =>
      split at hd
      · next wasAlive reason cause hp => exact ⟨procedure, wasAlive, reason, cause, rfl, hp⟩
      · cases hd
    · cases hd
  · rintro ⟨procedure, wasAlive, reason, cause, rfl, hd⟩
    exact isDrain_of_lookup hd

theorem answer?_iff : c.answer? e = some (seq, v) ↔
    (c.heard? e).bind Response.answer? = some (seq, v) ∨
      (c.errand? e).bind Errand.answer? = some (seq, v) := by
  cases e with
  | line connection text => simp [answer?, errand?]
  | finish connection => simp [answer?, heard?]
  | _ => simp [answer?, heard?, errand?]

theorem answer?_eq_some : c.answer? e = some (seq, v) ↔ c.Brings e seq v := by
  rw [answer?_iff]
  constructor
  · rintro (ha | ha)
    · obtain ⟨r, hr, ha⟩ := Option.bind_eq_some_iff.mp ha
      obtain ⟨text, hread, hr⟩ := heard?_eq_some.mp hr
      cases r with
      | ok n body =>
        cases ha
        obtain ⟨hj, hs⟩ := Response.ofLine?_ok.mp hr
        exact .ok hread hj hs
      | error | allMessages | currentTasks | unknown => cases ha
    · obtain ⟨errand, hr, ha⟩ := Option.bind_eq_some_iff.mp ha
      obtain ⟨connection, he, hd⟩ := errand?_eq_some.mp hr
      cases errand with
      | answer n message =>
        cases ha
        exact .error he hd
      | publish => cases ha
  · intro hb
    cases hb with
    | ok hr hj hs =>
      have hline := Response.ofLine?_ok.mpr ⟨hj, hs⟩
      have hheard := heard?_eq_some.mpr ⟨_, hr, hline⟩
      exact Or.inl (Option.bind_eq_some_iff.mpr ⟨_, hheard, rfl⟩)
    | error he hd =>
      exact Or.inr (Option.bind_eq_some_iff.mpr ⟨_, errand?_eq_some.mpr ⟨_, he, hd⟩, rfl⟩)

theorem isDrain_of_brings (hb : c.Brings e seq v) : c.isDrain e = false := by
  cases hb with
  | ok hr =>
    obtain ⟨connection, rfl, _⟩ := hr
    rfl
  | error he =>
    subst he
    rfl

theorem delivery?_of_brings (hb : c.Brings e seq v) (n : Nat) :
    c.delivery? e n = if seq = n then some v else none := by
  simp only [delivery?, isDrain_of_brings hb, Bool.false_eq_true, ↓reduceIte,
    answer?_eq_some.mpr hb, Option.bind_some]

theorem resolves_iff :
    c.Resolves e seq v ↔ seq ∈ c.pending ∧ c.delivery? e seq = some v := by
  constructor
  · intro hr
    cases hr with
    | answer hp hb =>
      refine ⟨hp, ?_⟩
      rw [delivery?_of_brings hb, if_pos rfl]
    | failure hp he hd =>
      have hdrain := isDrain_iff.mpr ⟨_, _, _, _, he, hd⟩
      exact ⟨hp, by simp only [delivery?, hdrain, ↓reduceIte]⟩
  · rintro ⟨hp, hd⟩
    simp only [delivery?] at hd
    split at hd
    · next hdrain =>
      obtain ⟨procedure, wasAlive, reason, cause, he, hp'⟩ := isDrain_iff.mp hdrain
      cases hd
      exact .failure hp he hp'
    · obtain ⟨⟨n, w⟩, ha, hn⟩ := Option.bind_eq_some_iff.mp hd
      split at hn
      · next hseq =>
        cases hn
        obtain rfl : n = seq := hseq
        exact .answer hp (answer?_eq_some.mp ha)
      · cases hn

/-- What was delivered to a request. -/
def inbox? (c : Client) (seq : Nat) : Option (Except Failure Json) :=
  (c.exchange? seq).bind Exchange.inbox

theorem content_eq (c : Client) (seq : Nat) :
    (c.standing seq).content = (c.exchange? seq).map fun x => (x.request, x.inbox) := rfl

/-- A request that was issued stays the same, and only gets what is delivered to it. -/
theorem content_next (hc : c.Numbered) (he : ∀ command, e ≠ .request command) (seq : Nat) :
    ((c.next e).standing seq).content = (c.standing seq).content.map fun x =>
      (x.1, x.2.or (if seq ∈ c.pending then c.delivery? e seq else none)) := by
  have hnone (hd : c.delivery? e seq = none) :
      ((c.standing seq).content.map fun x =>
        (x.1, x.2.or (if seq ∈ c.pending then c.delivery? e seq else none))) =
      (c.standing seq).content := by
    simp [hd]
  have hoffer : ((c.standing seq).offer (c.delivery? e seq)).content =
      (c.standing seq).content.map fun x =>
        (x.1, x.2.or (if seq ∈ c.pending then c.delivery? e seq else none)) := by
    cases hd : c.delivery? e seq with
    | none =>
      rw [hd] at hnone
      exact (hnone rfl).symm
    | some r =>
      by_cases hp : seq ∈ c.pending
      · simp only [Standing.offer, mem_pending.mp hp, hp, ↓reduceIte, Standing.content_deliver]
      · simp [Standing.offer, ← mem_pending, hp]
  rw [standing_next hc]
  cases e with
  | request command => exact absurd rfl (he command)
  | check n =>
    rw [hnone rfl]
    simp only [Standing.next]
    split
    · exact Standing.content_check _ _
    · rfl
  | cleanUp n =>
    rw [hnone rfl]
    simp only [Standing.next]
    split
    · exact Standing.content_cleanUp _
    · rfl
  | line | finish | quit | lose | connect | shutdown | proceed | subscribe => exact hoffer

theorem not_pending_of_absent (hc : c.Invariant) (hx : c.exchange? seq = none) :
    seq ∉ c.pending :=
  not_pending_of_standing ((hc.sound seq).absent hx).1

theorem inbox?_eq (c : Client) (seq : Nat) :
    c.inbox? seq = (c.standing seq).content.bind Prod.snd := by
  simp only [inbox?, content_eq]
  cases c.exchange? seq <;> rfl

theorem inbox?_next (hc : c.Invariant) (e : Event) (seq : Nat) :
    (c.next e).inbox? seq =
      (c.inbox? seq).or (if seq ∈ c.pending then c.delivery? e seq else none) := by
  by_cases he : ∃ command, e = .request command
  · obtain ⟨command, rfl⟩ := he
    have hdelivery : c.delivery? (.request command) seq = none := rfl
    simp only [hdelivery, ite_self, Option.or_none, inbox?_eq, next, standing_register hc.numbered]
    split
    · next hs =>
      have hnone := hc.numbered.exchange?_fresh
      rw [← hs] at hnone
      simp [Standing.content, exchange?_standing, hnone]
    · rfl
  · rw [inbox?_eq, inbox?_eq, content_next hc.numbered (not_exists.mp he)]
    cases hx : c.exchange? seq with
    | none => simp [content_eq, hx, not_pending_of_absent hc hx]
    | some x => rw [content_eq, hx]; rfl

theorem inbox?_of_pending (hc : c.Invariant) (hs : seq ∈ c.pending) : c.inbox? seq = none := by
  obtain ⟨x, hx, _, hi⟩ := unfinished_of_pending hc hs
  simp [inbox?, hx, hi]

theorem mem_pending_iff (hc : c.Invariant) :
    seq ∈ c.pending ↔ ∃ x, c.exchange? seq = some x ∧ x.stage ≠ .ended ∧ x.inbox = none := by
  constructor
  · intro hs
    exact unfinished_of_pending hc hs
  · rintro ⟨x, hx, hended, hi⟩
    obtain ⟨_, hstage⟩ := (hc.sound seq).present hx
    rw [mem_pending, (hstage.unended hended).2, hi]
    rfl

/-- A request has got what the first event that resolves it delivers. -/
theorem inbox?_run (event : Nat → Event) (k : Nat) :
    (run event k).inbox? seq = some v ↔ ∃ i < k, (run event i).Resolves (event i) seq v := by
  induction k with
  | zero =>
    constructor
    · intro hi
      cases hi
    · rintro ⟨i, hi, _⟩
      omega
  | succ k ih =>
    have hk := invariant_run event k
    have hnext : (run event (k + 1)).inbox? seq = _ := inbox?_next hk (event k) seq
    rw [hnext]
    constructor
    · intro hv
      cases hi : (run event k).inbox? seq with
      | some w =>
        rw [hi] at hv
        obtain ⟨i, hlt, hr⟩ := ih.mp (hi.trans hv)
        exact ⟨i, Nat.lt_succ_of_lt hlt, hr⟩
      | none =>
        rw [hi, Option.none_or] at hv
        split at hv
        · next hp => exact ⟨k, Nat.lt_succ_self k, resolves_iff.mpr ⟨hp, hv⟩⟩
        · cases hv
    · rintro ⟨i, hlt, hr⟩
      by_cases hik : i = k
      · subst i
        obtain ⟨hp, hd⟩ := resolves_iff.mp hr
        rw [inbox?_of_pending hk hp, Option.none_or, if_pos hp, hd]
      · rw [ih.mpr ⟨i, by omega, hr⟩]
        rfl

theorem resolves_once (event : Nat → Event) {i j : Nat} {w : Except Failure Json}
    (hi : (run event i).Resolves (event i) seq v) (hj : (run event j).Resolves (event j) seq w) :
    i = j := by
  have hle {i j : Nat} {v w : Except Failure Json}
      (hi : (run event i).Resolves (event i) seq v)
      (hj : (run event j).Resolves (event j) seq w) : j ≤ i := by
    by_contra hlt
    have hsome := (inbox?_run event j).mpr ⟨i, Nat.lt_of_not_le hlt, hi⟩
    have hnone := inbox?_of_pending (invariant_run event j) (resolves_iff.mp hj).1
    exact Option.some_ne_none v (hsome.symm.trans hnone)
  exact Nat.le_antisymm (hle hj hi) (hle hi hj)

/-- The commands that were issued by then, in order. -/
def issued (event : Nat → Event) (k : Nat) : List Command :=
  (List.range k).filterMap fun i =>
    match event i with
    | .request command => some command
    | _ => none

theorem issued_request {command : Command} (he : event k = .request command) :
    issued event (k + 1) = issued event k ++ [command] := by
  simp only [issued, List.range_succ, List.filterMap_append]
  simp [he]

theorem issued_other (he : ∀ command, event k ≠ .request command) :
    issued event (k + 1) = issued event k := by
  simp only [issued, List.range_succ, List.filterMap_append]
  cases hk : event k with
  | request command => exact absurd hk (he command)
  | _ => simp [hk]

theorem lastSeq_run (event : Nat → Event) (k : Nat) :
    (run event k).lastSeq = (issued event k).length := by
  induction k with
  | zero => rfl
  | succ k ih =>
    by_cases he : ∃ command, event k = .request command
    · obtain ⟨command, he⟩ := he
      simp only [run, he, next, register, issued_request he, List.length_append, ih,
        List.length_singleton]
    · have hno := not_exists.mp he
      simp only [run]
      rw [(kept_next hno).lastSeq, ih, issued_other hno]

/-- The requests have the numbers from one on, in the order in which they were issued. -/
theorem request_run (event : Nat → Event) (k i : Nat) :
    ((run event k).exchange? (i + 1)).map Exchange.request =
      (issued event k)[i]?.map fun command => ⟨i + 1, command⟩ := by
  have hrequest (c : Client) : (c.exchange? (i + 1)).map Exchange.request =
      (c.standing (i + 1)).content.map Prod.fst := by
    rw [content_eq, Option.map_map]
    rfl
  induction k with
  | zero => rfl
  | succ k ih =>
    have hk := (invariant_run event k).numbered
    by_cases he : ∃ command, event k = .request command
    · obtain ⟨command, he⟩ := he
      have hlast := lastSeq_run event k
      rw [issued_request he, hrequest]
      simp only [run, he, next]
      rw [standing_register hk]
      by_cases hi : i = (issued event k).length
      · rw [if_pos (by omega), hi, List.getElem?_concat_length]
        rfl
      · rw [if_neg (by omega), ← hrequest, ih]
        by_cases hlt : i < (issued event k).length
        · rw [List.getElem?_append_left hlt]
        · rw [List.getElem?_eq_none (by omega), List.getElem?_eq_none (by simp; omega)]
    · have hno := not_exists.mp he
      rw [issued_other hno, ← ih, hrequest, hrequest]
      simp only [run]
      rw [content_next hk hno, Option.map_map]
      rfl

theorem standing_brings (hc : c.Numbered) (hb : c.Brings e seq v) (n : Nat) :
    (c.next e).standing n = (c.standing n).offer (c.delivery? e n) := by
  cases hb with
  | ok hr =>
    obtain ⟨connection, rfl, _⟩ := hr
    exact standing_next hc _ n
  | error he =>
    subst he
    exact standing_next hc _ n

theorem standing_of_brings (hc : c.Numbered) (hb : c.Brings e seq v) {n : Nat} (hn : n ≠ seq) :
    (c.next e).standing n = c.standing n := by
  rw [standing_brings hc hb, delivery?_of_brings hb, if_neg (Ne.symm hn)]
  rfl

theorem standing_of_resolves (hc : c.Numbered) (hr : c.Resolves e seq v) :
    (c.next e).standing seq = (c.standing seq).deliver v := by
  obtain ⟨hp, hd⟩ := resolves_iff.mp hr
  have hpending := mem_pending.mp hp
  have hoffer : (c.next e).standing seq = (c.standing seq).offer (c.delivery? e seq) := by
    cases hr with
    | answer _ hb => exact standing_brings hc hb seq
    | failure _ he hd =>
      subst he
      exact standing_next hc _ seq
  rw [hoffer, hd]
  simp only [Standing.offer, hpending, ↓reduceIte]

theorem ended_of_resolves (hc : c.Invariant) (hr : c.Resolves e seq v)
    (hx : c.exchange? seq = some x) (hw : x.stage = .waiting) :
    .ended seq (v.bind x.request.command.reply) ∈ (c.next e).journal := by
  obtain ⟨_, hstage⟩ := (hc.sound seq).present hx
  simp only [Standing.StageHolds, hw] at hstage
  rw [← mem_endings, standing_of_resolves hc.numbered hr]
  simp only [Standing.deliver, exchange?_standing, hx, Standing.conclude, hw, hstage.2.2]
  exact List.mem_cons_self

theorem answer_of_not_pending (hp : seq ∉ c.pending) (v : Except Failure Json) :
    c.answer seq v = c := if_neg fun h => hp (List.contains_iff_mem.mp h)

/-- A line that resolves nothing, is not looked up and says nothing to the listener changes
nothing. -/
theorem next_of_other {connection : Nat}
    (hr : ∀ seq v, ¬c.Resolves (.line connection text) seq v)
    (ha : ∀ v, ¬c.Announces (.line connection text) v)
    (hl : ∀ errand, ¬c.LooksUp (.line connection text) connection errand) :
    c.next (.line connection text) = c := by
  cases hheard : c.heard? (.line connection text) with
  | none =>
    simp only [heard?] at hheard
    simp only [next, line]
    split
    · next ht => simp only [if_pos ht] at hheard; simp only [hheard]
    · rfl
  | some r =>
    have hnext : c.next (.line connection text) = c.route connection r := by
      simp only [heard?] at hheard
      split at hheard
      · next ht => simp only [next, line, if_pos ht, hheard]
      · cases hheard
    have hsilent (v : ServerEvent) (hv : r.notice? = some v) : False := by
      refine ha v (tells?_eq_some.mp (tells?_iff.mpr (Or.inl ?_)))
      rw [hheard, Option.bind_some, hv]
    rw [hnext]
    cases r with
    | ok n body =>
      refine answer_of_not_pending (fun hp => hr n (.ok body) (.answer hp ?_)) _
      exact answer?_eq_some.mp (answer?_iff.mpr (Or.inl (by rw [hheard]; rfl)))
    | error n message =>
      cases n with
      | none => exact (hsilent _ rfl).elim
      | some n =>
        have hlooked : c.looked? (.line connection text) =
            some (connection, c.lookUp n message) := by
          simp only [looked?, hheard]
        exact absurd (looked?_eq_some.mp hlooked) (hl _)
    | allMessages messages => exact (hsilent _ rfl).elim
    | currentTasks | unknown => rfl

theorem next_of_lapsed {connection : Nat} {message : String}
    (hd : c.errands.lookup connection = some (.answer seq message)) (hp : seq ∉ c.pending) :
    c.next (.finish connection) = { c with errands := Keyed.remove connection c.errands } := by
  simp only [next, finish, hd, perform]
  exact answer_of_not_pending (c := { c with errands := Keyed.remove connection c.errands }) hp _

theorem stage_of_ending (hc : c.Invariant) (hx : c.exchange? seq = some x)
    {w : Except Failure Reply} (hw : w ∈ (c.standing seq).endings) : x.stage = .ended := by
  obtain ⟨_, hstage⟩ := (hc.sound seq).present hx
  by_contra hended
  rw [(hstage.unended hended).1] at hw
  cases hw

theorem endings_length (hc : c.Invariant) (seq : Nat) : (c.standing seq).endings.length ≤ 1 := by
  cases hx : c.exchange? seq with
  | none => simp [((hc.sound seq).absent hx).2]
  | some x =>
    obtain ⟨_, hstage⟩ := (hc.sound seq).present hx
    by_cases hended : x.stage = .ended
    · simp only [Standing.StageHolds, hended] at hstage
      obtain ⟨_, v, hv, _⟩ := hstage
      simp [hv]
    · simp [(hstage.unended hended).1]

/-- The request was refused by its check, which found no alive connection. -/
def RefusedBefore (event : Nat → Event) (seq k : Nat) (w : Except Failure Reply) : Prop :=
  ∃ i < k, event i = .check seq ∧ (run event i).alive? = none ∧ w = .error (run event i).refusal

theorem ending_run (event : Nat → Event) {k : Nat} {w : Except Failure Reply}
    (hw : w ∈ ((run event k).standing seq).endings) :
    (∃ x v, (run event k).exchange? seq = some x ∧ x.inbox = some v ∧
      w = v.bind x.request.command.reply) ∨ RefusedBefore event seq k w := by
  induction k with
  | zero => cases hw
  | succ k ih =>
    have hk := invariant_run event k
    rcases (move_run event k seq).ending hw with hold | hnew | ⟨x, reason, hx, hstage, rfl⟩
    · rcases ih hold with ⟨x, v, hx, hi, rfl⟩ | ⟨i, hi, hrefused⟩
      · -- The request itself and what it got do not change any more.
        have hended := stage_of_ending hk hx hold
        have hsame := (move_run event k seq).ended (hk.sound seq) hx hended
        exact Or.inl ⟨x, v, (congrArg Standing.exchange hsame).trans hx, hi, rfl⟩
      · exact Or.inr ⟨i, Nat.lt_succ_of_lt hi, hrefused⟩
    · obtain ⟨x, v, hx, hi, rfl⟩ := hnew
      exact Or.inl ⟨x, v, hx, hi, rfl⟩
    · obtain ⟨i, hi, he, ha, hreason, _⟩ := refusal_of_refused event hx hstage
      exact Or.inr ⟨i, Nat.lt_succ_of_lt hi, he, ha, congrArg Except.error hreason⟩

theorem announced_run (event : Nat → Event) (k : Nat) :
    ∃ l : List (Nat × ServerEvent), (run event k).told.reverse = l.map Prod.snd ∧
      (l.map Prod.fst).Pairwise (· < ·) ∧
      ∀ i v, (i, v) ∈ l ↔ i < k ∧ (run event i).Announces (event i) v := by
  refine ⟨(List.range k).filterMap fun i => ((run event i).tells? (event i)).map (i, ·), ?_, ?_, ?_⟩
  · rw [told_run, List.map_filterMap]
    congr 1
    funext i
    cases (run event i).tells? (event i) <;> rfl
  · rw [List.map_filterMap]
    refine List.Pairwise.filterMap _ ?_ List.pairwise_lt_range
    intro i j hij a ha b hb
    cases hi : (run event i).tells? (event i) <;> simp [hi] at ha
    cases hj : (run event j).tells? (event j) <;> simp [hj] at hb
    omega
  · intro i v
    rw [List.mem_filterMap, ← tells?_eq_some]
    constructor
    · rintro ⟨j, hj, hv⟩
      obtain ⟨w, hw, he⟩ := Option.map_eq_some_iff.mp hv
      cases he
      exact ⟨List.mem_range.mp hj, hw⟩
    · rintro ⟨hi, hv⟩
      exact ⟨i, List.mem_range.mpr hi, by rw [hv]; rfl⟩

/-- Everything that responses do up to one state of a run, and with the event that comes next. -/
structure RoutingExact (event : Nat → Event) (k : Nat) : Prop where
  /-- Numbers count up from one and are not used again. -/
  numbered : (run event k).exchanges.map (fun x => x.request.seq) =
    List.range' 1 (issued event k).length
  /-- The requests have them in the order in which they were issued. -/
  requested : ∀ i, ((run event k).exchange? (i + 1)).map Exchange.request =
    (issued event k)[i]?.map fun command => ⟨i + 1, command⟩
  /-- A request is pending until it is resolved or ends with its refusal. -/
  pending : ∀ seq, seq ∈ (run event k).pending ↔
    ∃ x, (run event k).exchange? seq = some x ∧ x.stage ≠ .ended ∧ x.inbox = none
  /-- A request has got exactly what resolved it while it was pending. -/
  resolved : ∀ seq v, (run event k).inbox? seq = some v ↔
    ∃ i < k, (run event i).Resolves (event i) seq v
  once : ∀ seq i j v w, (run event i).Resolves (event i) seq v →
    (run event j).Resolves (event j) seq w → i = j
  /-- What resolves a request takes it out of what is pending, and ends it if it waits. -/
  taken : ∀ seq v, (run event k).Resolves (event k) seq v →
    seq ∉ (run event (k + 1)).pending ∧
      ∀ x, (run event k).exchange? seq = some x → x.stage = .waiting →
        .ended seq (v.bind x.request.command.reply) ∈ (run event (k + 1)).journal
  /-- What was resolved before its check ends with it, if it is not refused. -/
  early : ∀ seq x v, (run event k).exchange? seq = some x → x.stage = .registered →
    x.inbox = some v → event k = .check seq → (run event k).alive? ≠ none →
    .ended seq (v.bind x.request.command.reply) ∈ (run event (k + 1)).journal
  endings : ∀ seq, ((run event k).journal.filterMap (Notice.ending? seq)).length ≤ 1
  /-- A request ends with what resolved it, or because its check found no alive connection. -/
  origin : ∀ seq w, .ended seq w ∈ (run event k).journal →
    (∃ x v, (run event k).exchange? seq = some x ∧ x.inbox = some v ∧
      w = v.bind x.request.command.reply) ∨ RefusedBefore event seq k w
  /-- An answer to one request leaves the others as they are. -/
  alone : ∀ seq v, (run event k).Brings (event k) seq v → ∀ n ≠ seq,
    (run event (k + 1)).exchange? n = (run event k).exchange? n ∧
      (n ∈ (run event (k + 1)).pending ↔ n ∈ (run event k).pending) ∧
      ∀ w, .ended n w ∈ (run event (k + 1)).journal ↔ .ended n w ∈ (run event k).journal
  /-- An error with a number is looked up, and nothing else is done with it at once. -/
  looked : ∀ connection errand, (run event k).LooksUp (event k) connection errand →
    run event (k + 1) = { run event k with
      errands := Keyed.put connection errand (run event k).errands }
  /-- What a reader is about to do stems from the last error that it took in. -/
  errands : ∀ connection errand, (run event k).errands.lookup connection = some errand ↔
    ∃ i < k, (run event i).LooksUp (event i) connection errand ∧
      ∀ j, i < j → j < k → event j ≠ .finish connection
  /-- An error whose request is pending no longer when it is to be delivered is passed over. -/
  lapsed : ∀ connection seq message, event k = .finish connection →
    (run event k).errands.lookup connection = some (.answer seq message) →
    seq ∉ (run event k).pending → run event (k + 1) = { run event k with
      errands := Keyed.remove connection (run event k).errands }
  /-- The listener is told what is announced, once and in order. -/
  told : ∃ l : List (Nat × ServerEvent), (run event k).told.reverse = l.map Prod.snd ∧
    (l.map Prod.fst).Pairwise (· < ·) ∧
    ∀ i v, (i, v) ∈ l ↔ i < k ∧ (run event i).Announces (event i) v
  /-- Of each connection that was lost this is told once, or about to be told. -/
  losses : ((List.range k).countP fun i => ((run event i).loss? (event i)).isSome) +
    (run event k).announcingCount = (run event k).lostCount
  /-- All other lines change nothing. -/
  others : ∀ connection text, event k = .line connection text →
    (∀ seq v, ¬(run event k).Resolves (event k) seq v) →
    (∀ v, ¬(run event k).Announces (event k) v) →
    (∀ errand, ¬(run event k).LooksUp (event k) connection errand) →
    run event (k + 1) = run event k

end Client

end DocSync.Server

namespace DocSync.Server.Client

attribute [local instance] Wording.silent

/-- The same answer comes again and again. -/
def answeredRun : Nat → Event
  | 0 => .connect true
  | 1 | 2 | 3 => .proceed 0
  | 4 => .request (.sync "a" "x")
  | 5 => .check 1
  | _ => .line 0 okLine

end DocSync.Server.Client
