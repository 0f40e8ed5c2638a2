import DocSync.Proofs.Lookup
import DocSync.Server.Client

/-!
One request of a client, seen by itself: its exchange, whether it is pending, and how it ended. What
an event does to it depends on the rest only through whether the installed connection is alive and
what the event delivers.
-/

set_option linter.unusedSectionVars false

namespace DocSync.Server

variable [Wording]

structure Standing where
  exchange : Option Exchange
  isPending : Bool
  endings : List (Except Failure Reply)

namespace Standing

/-- The request becomes what its exchange says, and ends if it waits and was delivered to. -/
def conclude (s : Standing) (x : Exchange) : Standing :=
  match x.stage, x.inbox with
  | .waiting, some r =>
    ⟨some { x with stage := .ended }, s.isPending, r.bind x.request.command.reply :: s.endings⟩
  | _, _ => { s with exchange := some x }

/-- The liveness check, where `door` tells whether the installed connection is alive. -/
def check (s : Standing) (door : Option Bool) : Standing :=
  match s.exchange with
  | none => s
  | some x =>
    if x.stage = .registered then
      match door with
      | none => { s with exchange := some { x with stage := .refused .notConnected } }
      | some true => s.conclude { x with stage := .waiting }
      | some false => { s with exchange := some { x with stage := .refused .serviceStopped } }
    else s

def cleanUp (s : Standing) : Standing :=
  match s.exchange with
  | none => s
  | some x =>
    match x.stage with
    | .refused reason => ⟨some { x with stage := .ended }, false, .error reason :: s.endings⟩
    | _ => s

def deliver (s : Standing) (r : Except Failure Json) : Standing :=
  match s.exchange with
  | none => { s with isPending := false }
  | some x =>
    ({ s with isPending := false } : Standing).conclude { x with inbox := x.inbox.or (some r) }

/-- Something is delivered if the request is pending. -/
def offer (s : Standing) : Option (Except Failure Json) → Standing
  | some r => if s.isPending then s.deliver r else s
  | none => s

theorem conclude_exchange (s : Standing) (x : Exchange) :
    ∃ stage, (s.conclude x).exchange = some { x with stage := stage } ∧
      (stage = x.stage ∨ stage = .ended) := by
  simp only [conclude]
  split
  · exact ⟨.ended, rfl, Or.inr rfl⟩
  · exact ⟨x.stage, rfl, Or.inl rfl⟩

theorem deliver_exchange {s : Standing} {x : Exchange} (hx : s.exchange = some x)
    (r : Except Failure Json) :
    ∃ stage, (s.deliver r).exchange =
        some { x with stage := stage, inbox := x.inbox.or (some r) } ∧
      (stage = x.stage ∨ stage = .ended) := by
  simp only [deliver, hx]
  exact conclude_exchange _ _

/-- A check refuses a registered request for what it finds at the door, or sends it. -/
theorem check_cases (s : Standing) (door : Option Bool) :
    s.check door = s ∨ ∃ x, s.exchange = some x ∧ x.stage = .registered ∧
      ((∃ reason, (door = none ∧ reason = .notConnected ∨
          door = some false ∧ reason = .serviceStopped) ∧
        s.check door = { s with exchange := some { x with stage := .refused reason } }) ∨
      door = some true ∧ s.check door = s.conclude { x with stage := .waiting }) := by
  cases hx : s.exchange with
  | none =>
    left
    simp only [check, hx]
  | some x =>
    by_cases hr : x.stage = .registered
    · refine Or.inr ⟨x, rfl, hr, ?_⟩
      simp only [check, hx, hr, ↓reduceIte]
      cases door with
      | none => exact Or.inl ⟨_, Or.inl ⟨rfl, rfl⟩, rfl⟩
      | some alive =>
        cases alive with
        | false => exact Or.inl ⟨_, Or.inr ⟨rfl, rfl⟩, rfl⟩
        | true => exact Or.inr ⟨rfl, rfl⟩
    · left
      simp only [check, hx, hr, ↓reduceIte]

theorem cleanUp_cases (s : Standing) :
    s.cleanUp = s ∨ ∃ x reason, s.exchange = some x ∧ x.stage = .refused reason ∧
      s.cleanUp = ⟨some { x with stage := .ended }, false, .error reason :: s.endings⟩ := by
  cases hx : s.exchange with
  | none =>
    left
    simp only [cleanUp, hx]
  | some x =>
    cases hr : x.stage with
    | refused reason =>
      refine Or.inr ⟨x, reason, rfl, hr, ?_⟩
      simp only [cleanUp, hx, hr]
    | registered | waiting | ended =>
      left
      simp only [cleanUp, hx, hr]

end Standing

/-- How a request ended, where the notice says so. -/
def Notice.ending? (seq : Nat) : Notice → Option (Except Failure Reply)
  | .ended n r => if n = seq then some r else none
  | _ => none

/-- What a response delivers at once, and to which request. -/
def Response.answer? : Response → Option (Nat × Except Failure Json)
  | .ok seq body => some (seq, .ok body)
  | _ => none

def Errand.answer? : Errand → Option (Nat × Except Failure Json)
  | .answer seq message => some (seq, .error (.server message))
  | .publish _ => none

namespace Client

variable {c : Client} {x y : Exchange} {n seq : Nat}

def standing (c : Client) (seq : Nat) : Standing :=
  ⟨c.exchange? seq, c.pending.contains seq, c.journal.filterMap (Notice.ending? seq)⟩

/-- Whether the installed connection is alive. -/
def door (c : Client) : Option Bool := c.installed.map c.isAlive

/-- The response that an event brings, if it is a line that is taken in. -/
def heard? (c : Client) : Event → Option Response
  | .line connection text =>
    if c.isReady connection && !Text.isBlankText text then Response.ofLine? text else none
  | _ => none

/-- The errand that an event finishes. -/
def errand? (c : Client) : Event → Option Errand
  | .finish connection => c.errands.lookup connection
  | _ => none

/-- The answer that an event brings, and the request it is meant for. -/
def answer? (c : Client) (e : Event) : Option (Nat × Except Failure Json) :=
  ((c.heard? e).bind Response.answer?).or ((c.errand? e).bind Errand.answer?)

/-- The event fails everything pending. -/
def isDrain (c : Client) : Event → Bool
  | .proceed procedure =>
    match c.procedures.lookup procedure with
    | some (.drain _ _ _) => true
    | _ => false
  | _ => false

/-- What an event delivers to a request if it is pending. -/
def delivery? (c : Client) (e : Event) (seq : Nat) : Option (Except Failure Json) :=
  if c.isDrain e then some (.error .serviceStopped)
  else (c.answer? e).bind fun a => if a.1 = seq then some a.2 else none

theorem exchange?_seq (hx : c.exchange? n = some x) : x.request.seq = n := by
  simpa [exchange?] using List.find?_some hx

theorem exchange?_setExchange (hy : c.exchange? x.request.seq = some y) :
    (c.setExchange x).exchange? seq =
      if seq = x.request.seq then some x else c.exchange? seq := by
  simp only [exchange?] at hy ⊢
  simp only [setExchange, List.find?_map]
  by_cases hs : seq = x.request.seq
  · subst seq
    have hf : ((fun e : Exchange => e.request.seq == x.request.seq) ∘ fun e =>
        if (e.request.seq == x.request.seq) = true then x else e) =
          fun e => e.request.seq == x.request.seq := by
      funext e
      by_cases he : e.request.seq = x.request.seq <;> simp [he]
    have hyseq : y.request.seq = x.request.seq := by simpa using List.find?_some hy
    rw [hf, hy]
    simp [hyseq]
  · have hf : ((fun e : Exchange => e.request.seq == seq) ∘ fun e =>
        if (e.request.seq == x.request.seq) = true then x else e) =
          fun e => e.request.seq == seq := by
      funext e
      by_cases he : e.request.seq = x.request.seq
      · simp [he]
      · simp [he]
    rw [hf, if_neg hs]
    cases hfind : c.exchanges.find? fun e => e.request.seq == seq with
    | none => rfl
    | some e =>
      have heseq : e.request.seq = seq := by simpa using List.find?_some hfind
      simp [heseq, hs]

theorem standing_setExchange (hy : c.exchange? x.request.seq = some y) (seq : Nat) :
    (c.setExchange x).standing seq =
      if seq = x.request.seq then { c.standing seq with exchange := some x }
      else c.standing seq := by
  simp only [standing, exchange?_setExchange hy]
  by_cases hs : seq = x.request.seq
  · rw [if_pos hs, if_pos hs]
    rfl
  · rw [if_neg hs, if_neg hs]
    rfl

theorem standing_ended (r : Except Failure Reply) (seq : Nat) :
    (c.note (.ended n r)).standing seq =
      if seq = n then { c.standing seq with endings := r :: (c.standing seq).endings }
      else c.standing seq := by
  by_cases hs : seq = n
  · subst n
    simp [standing, note, Notice.ending?, exchange?]
  · simp [standing, note, Notice.ending?, exchange?, hs, Ne.symm hs]

theorem standing_sent (connection : Nat) (r : Request) (seq : Nat) :
    (c.note (.sent connection r)).standing seq = c.standing seq := rfl

theorem standing_unpend (n seq : Nat) :
    ({ c with pending := c.pending.filter fun m => m != n } : Client).standing seq =
      if seq = n then { c.standing seq with isPending := false } else c.standing seq := by
  by_cases hs : seq = n
  · subst n
    simp [standing, exchange?]
  · simp [standing, exchange?, hs]

theorem conclude_cases (x : Exchange) :
    (∃ r, x.stage = .waiting ∧ x.inbox = some r) ∨
      (∀ c : Client, c.conclude x = c.setExchange x) ∧
        ∀ s : Standing, s.conclude x = { s with exchange := some x } := by
  cases hi : x.inbox with
  | none =>
    refine Or.inr ⟨?_, ?_⟩
    · intro c
      cases hx : x.stage <;> simp [conclude, hi, hx]
    · intro s
      cases hx : x.stage <;> simp [Standing.conclude, hi, hx]
  | some r =>
    by_cases hs : x.stage = .waiting
    · exact Or.inl ⟨r, hs, rfl⟩
    · refine Or.inr ⟨?_, ?_⟩
      · intro c
        cases hx : x.stage <;> simp_all [conclude]
      · intro s
        cases hx : x.stage <;> simp_all [Standing.conclude]

theorem standing_conclude (hy : c.exchange? x.request.seq = some y) (seq : Nat) :
    (c.conclude x).standing seq =
      if seq = x.request.seq then (c.standing seq).conclude x else c.standing seq := by
  rcases conclude_cases x with ⟨r, hstage, hinbox⟩ | ⟨hc, hs⟩
  · simp only [conclude, Standing.conclude, hstage, hinbox]
    rw [standing_ended, standing_setExchange (x := ⟨x.request, .ended, some r⟩) hy]
    by_cases hs : seq = x.request.seq
    · simp only [hs, ↓reduceIte]
    · simp only [hs, ↓reduceIte]
  · rw [hc, hs, standing_setExchange hy]

theorem exchange?_standing (c : Client) (seq : Nat) :
    (c.standing seq).exchange = c.exchange? seq := rfl

theorem standing_deliver (r : Except Failure Json) (n seq : Nat) :
    (c.deliver n r).standing seq =
      if seq = n then (c.standing seq).deliver r else c.standing seq := by
  have hexchange : ({ c with pending := c.pending.filter fun m => m != n } : Client).exchange? n =
      c.exchange? n := rfl
  simp only [deliver, hexchange]
  cases hx : c.exchange? n with
  | none =>
    by_cases hs : seq = n
    · subst seq
      simp [Standing.deliver, exchange?_standing, hx, standing_unpend]
    · simp [hs, standing_unpend]
  | some x =>
    have hseq := exchange?_seq hx
    have hy : ({ c with pending := c.pending.filter fun m => m != n } : Client).exchange?
        x.request.seq = some x := hseq ▸ hx
    rw [standing_conclude (x := { x with inbox := x.inbox.or (some r) }) hy, standing_unpend]
    by_cases hs : seq = n
    · subst seq
      simp [Standing.deliver, exchange?_standing, hx, hseq]
    · simp [hs, hseq]

theorem standing_check (n seq : Nat) :
    (c.check n).standing seq =
      if seq = n then (c.standing seq).check c.door else c.standing seq := by
  cases hx : c.exchange? n with
  | none =>
    simp only [check, hx]
    by_cases hs : seq = n
    · subst seq
      simp [Standing.check, exchange?_standing, hx]
    · simp [hs]
  | some x =>
    have hseq := exchange?_seq hx
    have hy : c.exchange? x.request.seq = some x := hseq ▸ hx
    by_cases hstage : x.stage = .registered
    · cases hi : c.installed with
      | none =>
        simp only [check, hx, hstage, ↓reduceIte, hi]
        rw [standing_setExchange (x := { x with stage := .refused .notConnected }) hy]
        by_cases hs : seq = n
        · subst seq
          simp [Standing.check, exchange?_standing, hx, hseq, hstage, door, hi]
        · simp [hs, hseq]
      | some connection =>
        cases ha : c.isAlive connection with
        | true =>
          simp only [check, hx, hstage, ↓reduceIte, hi, ha]
          rw [standing_conclude (c := c.note (.sent connection x.request))
            (x := { x with stage := .waiting }) hy, standing_sent]
          by_cases hs : seq = n
          · subst seq
            simp [Standing.check, exchange?_standing, hx, hseq, hstage, door, hi, ha]
          · simp [hs, hseq]
        | false =>
          simp only [check, hx, hstage, ↓reduceIte, hi, ha, Bool.false_eq_true]
          rw [standing_setExchange (x := { x with stage := .refused .serviceStopped }) hy]
          by_cases hs : seq = n
          · subst seq
            simp [Standing.check, exchange?_standing, hx, hseq, hstage, door, hi, ha]
          · simp [hs, hseq]
    · simp only [check, hx, hstage, ↓reduceIte]
      by_cases hs : seq = n
      · subst seq
        simp [Standing.check, exchange?_standing, hx, hstage]
      · simp [hs]

theorem standing_cleanUp (n seq : Nat) :
    (c.cleanUp n).standing seq = if seq = n then (c.standing seq).cleanUp else c.standing seq := by
  cases hx : c.exchange? n with
  | none =>
    simp only [cleanUp, hx]
    by_cases hs : seq = n
    · subst seq
      simp [Standing.cleanUp, exchange?_standing, hx]
    · simp [hs]
  | some x =>
    have hseq := exchange?_seq hx
    cases hstage : x.stage with
    | refused reason =>
      simp only [cleanUp, hx, hstage]
      have hy : ({ c with pending := c.pending.filter fun m => m != n } : Client).exchange?
          x.request.seq = some x := hseq ▸ hx
      rw [standing_ended, standing_setExchange (x := { x with stage := .ended }) hy,
        standing_unpend]
      by_cases hs : seq = n
      · subst seq
        simp [Standing.cleanUp, exchange?_standing, hx, hseq, hstage]
      · simp [hs, hseq]
    | registered | waiting | ended =>
      simp only [cleanUp, hx, hstage]
      by_cases hs : seq = n
      · subst seq
        simp [Standing.cleanUp, exchange?_standing, hx, hstage]
      · simp [hs]

theorem standing_failPending (hp : c.pending.Nodup) (seq : Nat) :
    c.failPending.standing seq =
      if c.pending.contains seq then (c.standing seq).deliver (.error .serviceStopped)
      else c.standing seq := by
  simp only [failPending]
  generalize c.pending = l at hp
  induction l generalizing c with
  | nil => simp
  | cons n l ih =>
    obtain ⟨hn, hl⟩ := List.nodup_cons.mp hp
    rw [List.foldl_cons, ih hl, standing_deliver]
    by_cases hs : seq = n
    · subst seq
      simp [hn]
    · simp [hs]

/-- Sequence numbers count up from one, and what is pending has one of them. -/
structure Numbered (c : Client) : Prop where
  seqs : c.exchanges.map (fun x => x.request.seq) = List.range' 1 c.lastSeq
  pending_nodup : c.pending.Nodup
  pending_le : ∀ seq ∈ c.pending, seq ≤ c.lastSeq

theorem Numbered.exchange?_le (hc : c.Numbered) (hx : c.exchange? seq = some x) :
    1 ≤ seq ∧ seq ≤ c.lastSeq := by
  have hm : seq ∈ c.exchanges.map fun x => x.request.seq :=
    List.mem_map.mpr ⟨x, List.mem_of_find?_eq_some hx, exchange?_seq hx⟩
  rw [hc.seqs, List.mem_range'_1] at hm
  omega

theorem Numbered.exchange?_fresh (hc : c.Numbered) : c.exchange? (c.lastSeq + 1) = none := by
  cases hx : c.exchange? (c.lastSeq + 1) with
  | none => rfl
  | some x =>
    have hle := (hc.exchange?_le hx).2
    omega

theorem standing_register (hc : c.Numbered) (command : Command) (seq : Nat) :
    (c.register command).standing seq =
      if seq = c.lastSeq + 1 then
        { c.standing seq with
          exchange := some ⟨⟨seq, command⟩, .registered, none⟩
          isPending := true }
      else c.standing seq := by
  have hfind : (c.register command).exchange? seq = (c.exchange? seq).or
      (if seq = c.lastSeq + 1 then some ⟨⟨seq, command⟩, .registered, none⟩ else none) := by
    simp only [register, exchange?, List.find?_append]
    by_cases hs : seq = c.lastSeq + 1
    · subst seq
      simp
    · simp [hs, Ne.symm hs]
  have hpending : (c.register command).pending = c.pending ++ [c.lastSeq + 1] := rfl
  have hjournal : (c.register command).journal = c.journal := rfl
  by_cases hs : seq = c.lastSeq + 1
  · subst seq
    simp only [standing, hfind, hpending, hjournal, hc.exchange?_fresh, ↓reduceIte]
    simp
  · simp only [standing, hfind, hpending, hjournal, if_neg hs]
    simp [hs]

theorem standing_afterLoss (c : Client) (procedure : Nat) (cause : Cause) (seq : Nat) :
    (c.afterLoss procedure cause).standing seq = c.standing seq := by
  cases cause with
  | lost | replaced => rfl
  | stopped canStop => cases canStop <;> rfl

/-- Only failing everything pending concerns requests. -/
theorem standing_advance (hc : c.Numbered) (procedure : Nat) (p : Procedure) (seq : Nat) :
    (c.advance procedure p).standing seq =
      match p with
      | .drain _ _ _ => (c.standing seq).offer (some (.error .serviceStopped))
      | _ => c.standing seq := by
  cases p with
  | connect canStart =>
    simp only [advance]
    split
    · rfl
    · split <;> rfl
  | mark connection reason cause => rfl
  | drain wasAlive reason cause =>
    have hfail : (c.advance procedure (.drain wasAlive reason cause)).standing seq =
        c.failPending.standing seq := by
      cases wasAlive with
      | true => rfl
      | false => exact standing_afterLoss _ procedure cause seq
    exact hfail.trans (standing_failPending hc.pending_nodup seq)
  | announce reason cause => exact standing_afterLoss _ procedure cause seq
  | start canStart => cases canStart <;> rfl
  | install connection =>
    simp only [advance]
    split <;> rfl
  | shutdown =>
    simp only [advance]
    split <;> rfl

end Client

/-- What an event does to the standing of a request. -/
def Standing.next (s : Standing) (c : Client) (e : Client.Event) (seq : Nat) : Standing :=
  match e with
  | .request command =>
    if seq = c.lastSeq + 1 then
      { s with exchange := some ⟨⟨seq, command⟩, .registered, none⟩, isPending := true }
    else s
  | .check n => if seq = n then s.check c.door else s
  | .cleanUp n => if seq = n then s.cleanUp else s
  | e => s.offer (c.delivery? e seq)

namespace Client

variable {c : Client} {x y : Exchange} {n seq : Nat}

theorem standing_answer (n : Nat) (v : Except Failure Json) (seq : Nat) :
    (c.answer n v).standing seq = (c.standing seq).offer (if n = seq then some v else none) := by
  simp only [answer]
  by_cases hn : n = seq
  · subst n
    have hoffer : (c.standing seq).offer (some v) =
        if c.pending.contains seq then (c.standing seq).deliver v else c.standing seq := rfl
    rw [if_pos rfl, hoffer]
    by_cases hp : c.pending.contains seq = true
    · rw [if_pos hp, if_pos hp, standing_deliver, if_pos rfl]
    · rw [if_neg hp, if_neg hp]
  · simp only [hn, ↓reduceIte, Standing.offer]
    split
    · simp [standing_deliver, Ne.symm hn]
    · rfl

theorem standing_route (connection : Nat) (r : Response) (seq : Nat) :
    (c.route connection r).standing seq =
      (c.standing seq).offer (r.answer?.bind fun a => if a.1 = seq then some a.2 else none) := by
  cases r with
  | ok n body => exact standing_answer n (.ok body) seq
  | error n message => cases n <;> rfl
  | allMessages | currentTasks | unknown => rfl

theorem standing_perform (errand : Errand) (seq : Nat) :
    (c.perform errand).standing seq =
      (c.standing seq).offer
        (errand.answer?.bind fun a => if a.1 = seq then some a.2 else none) := by
  cases errand with
  | answer n message => exact standing_answer n (.error (.server message)) seq
  | publish message => rfl

/-- A request moves on by itself. -/
theorem standing_next (hc : c.Numbered) (e : Event) (seq : Nat) :
    (c.next e).standing seq = (c.standing seq).next c e seq := by
  cases e with
  | request command => exact standing_register hc command seq
  | check n => exact standing_check n seq
  | cleanUp n => exact standing_cleanUp n seq
  | line connection text =>
    simp only [next, line, Standing.next, delivery?, isDrain, answer?, heard?, errand?,
      Option.bind_none, Option.or_none, Bool.false_eq_true, ↓reduceIte]
    split
    · split
      · next r hr =>
        rw [standing_route, hr]
        rfl
      · next hr =>
        rw [hr]
        rfl
    · rfl
  | finish connection =>
    simp only [next, finish, Standing.next, delivery?, isDrain, answer?, heard?, errand?,
      Option.bind_none, Option.none_or, Bool.false_eq_true, ↓reduceIte]
    split
    · next hr =>
      rw [hr]
      rfl
    · next errand hr =>
      rw [standing_perform, hr]
      rfl
  | quit connection =>
    simp only [next, quit, Standing.next]
    split
    · split <;> rfl
    · rfl
  | lose connection loss => rfl
  | connect | shutdown => rfl
  | proceed procedure =>
    cases hp : c.procedures.lookup procedure with
    | none =>
      have hd : c.isDrain (.proceed procedure) = false := by simp only [isDrain, hp]
      simp only [next, hp, Standing.next, delivery?, hd]
      rfl
    | some p =>
      have hd : c.isDrain (.proceed procedure) =
          match p with
          | .drain _ _ _ => true
          | _ => false := by
        simp only [isDrain, hp]
        cases p <;> rfl
      simp only [next, hp, standing_advance hc, Standing.next, delivery?, hd]
      cases p <;> rfl
  | subscribe =>
    simp only [next, subscribe]
    split <;> rfl

end Client

/-- How the standing of a request can change with an event. -/
inductive Standing.Move (c : Client) (e : Client.Event) (seq : Nat) (s : Standing) :
    Standing → Prop where
  | same (hd : s.isPending = true → c.delivery? e seq = none) : Move c e seq s s
  | register {command} (he : e = .request command) (hn : seq = c.lastSeq + 1)
      (hs : s.exchange = none) :
      Move c e seq s
        { s with exchange := some ⟨⟨seq, command⟩, .registered, none⟩, isPending := true }
  | check (he : e = .check seq) : Move c e seq s (s.check c.door)
  | cleanUp (he : e = .cleanUp seq) : Move c e seq s s.cleanUp
  | deliver {r} (hr : c.delivery? e seq = some r) (hp : s.isPending = true) :
      Move c e seq s (s.deliver r)

namespace Client

theorem move_offer (c : Client) (e : Event) (seq : Nat) (s : Standing) :
    s.Move c e seq (s.offer (c.delivery? e seq)) := by
  cases hd : c.delivery? e seq with
  | none => exact .same fun _ => hd
  | some r =>
    simp only [Standing.offer]
    by_cases hp : s.isPending = true
    · rw [if_pos hp]
      exact .deliver hd hp
    · rw [if_neg hp]
      exact .same fun h => absurd h hp

theorem move_next {c : Client} (hc : c.Numbered) (e : Event) (seq : Nat) :
    (c.standing seq).Move c e seq ((c.next e).standing seq) := by
  rw [standing_next hc]
  cases e with
  | request command =>
    simp only [Standing.next]
    by_cases hn : seq = c.lastSeq + 1
    · rw [if_pos hn]
      exact .register rfl hn (hn ▸ hc.exchange?_fresh)
    · rw [if_neg hn]
      exact .same fun _ => rfl
  | check n =>
    simp only [Standing.next]
    by_cases hn : seq = n
    · rw [if_pos hn]
      exact .check (hn ▸ rfl)
    · rw [if_neg hn]
      exact .same fun _ => rfl
  | cleanUp n =>
    simp only [Standing.next]
    by_cases hn : seq = n
    · rw [if_pos hn]
      exact .cleanUp (hn ▸ rfl)
    · rw [if_neg hn]
      exact .same fun _ => rfl
  | line | finish | quit | lose | connect | shutdown | proceed | subscribe =>
    exact move_offer c _ seq _

end Client

end DocSync.Server
