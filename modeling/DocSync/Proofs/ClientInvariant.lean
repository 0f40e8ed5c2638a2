import DocSync.Proofs.Standing

/-!
What holds of a client at all times. A request is pending exactly until it is delivered to, it ends
at most once, and while it waits for an answer there is an alive connection, or everything pending
is about to be failed.
-/

set_option linter.unusedSectionVars false

namespace DocSync.Server

variable [Wording]

/-- A request that waits is pending; one that ended got what was delivered to it, or was refused. -/
def Standing.StageHolds (s : Standing) (x : Exchange) : Prop :=
  match x.stage with
  | .registered => s.endings = [] ∧ s.isPending = x.inbox.isNone
  | .refused reason =>
    (reason = .notConnected ∨ reason = .serviceStopped) ∧ s.endings = [] ∧
      s.isPending = x.inbox.isNone
  | .waiting => s.endings = [] ∧ s.isPending = true ∧ x.inbox = none
  | .ended =>
    s.isPending = false ∧ ∃ v, s.endings = [v] ∧
      ((∃ r, x.inbox = some r ∧ v = r.bind x.request.command.reply) ∨
        v = .error .notConnected ∨ v = .error .serviceStopped)

theorem Standing.StageHolds.unended {s : Standing} {x : Exchange} (h : s.StageHolds x)
    (hx : x.stage ≠ .ended) : s.endings = [] ∧ s.isPending = x.inbox.isNone := by
  simp only [StageHolds] at h
  cases hst : x.stage with
  | registered =>
    rw [hst] at h
    exact h
  | refused =>
    rw [hst] at h
    exact h.2
  | waiting =>
    rw [hst] at h
    obtain ⟨hend, hp, hi⟩ := h
    exact ⟨hend, by rw [hp, hi]; rfl⟩
  | ended => exact absurd hst hx

structure Standing.Sound (s : Standing) (seq : Nat) : Prop where
  absent : s.exchange = none → s.isPending = false ∧ s.endings = []
  present : ∀ {x}, s.exchange = some x → x.request.seq = seq ∧ s.StageHolds x

namespace Standing

variable {s : Standing} {x : Exchange} {seq : Nat}

theorem Sound.of_some (hs : s.exchange = some x) (hseq : x.request.seq = seq)
    (hx : s.StageHolds x) : s.Sound seq where
  absent hn := absurd (hs.symm.trans hn) (Option.some_ne_none _)
  present hy := by
    obtain rfl := Option.some.inj (hs.symm.trans hy)
    exact ⟨hseq, hx⟩

theorem sound_check (hs : s.Sound seq) (door : Option Bool) : (s.check door).Sound seq := by
  rcases check_cases s door with he | ⟨x, hx, hr, hnext⟩
  · rw [he]
    exact hs
  obtain ⟨hseq, hstage⟩ := hs.present hx
  obtain ⟨hend, hpend⟩ := hstage.unended (by simp [hr])
  rcases hnext with ⟨reason, hreason, he⟩ | ⟨_, he⟩
  · rw [he]
    exact .of_some rfl hseq ⟨hreason.imp And.right And.right, hend, hpend⟩
  · rw [he]
    cases hi : x.inbox with
    | none =>
      have hp : s.isPending = true := by simp [hpend, hi]
      simp only [conclude]
      exact .of_some rfl hseq ⟨hend, hp, rfl⟩
    | some r =>
      have hp : s.isPending = false := by simp [hpend, hi]
      simp only [conclude]
      exact .of_some rfl hseq ⟨hp, _, by rw [hend], Or.inl ⟨r, rfl, rfl⟩⟩

theorem sound_cleanUp (hs : s.Sound seq) : s.cleanUp.Sound seq := by
  rcases cleanUp_cases s with he | ⟨x, reason, hx, hr, he⟩
  · rw [he]
    exact hs
  · rw [he]
    obtain ⟨hseq, hstage⟩ := hs.present hx
    simp only [StageHolds, hr] at hstage
    obtain ⟨hreason, hend, _⟩ := hstage
    refine .of_some rfl hseq ⟨rfl, .error reason, by rw [hend], Or.inr ?_⟩
    exact hreason.imp (congrArg Except.error) (congrArg Except.error)

theorem sound_deliver (hs : s.Sound seq) (hp : s.isPending = true) (r : Except Failure Json) :
    (s.deliver r).Sound seq := by
  simp only [deliver]
  cases hx : s.exchange with
  | none => exact absurd ((hs.absent hx).1.symm.trans hp) Bool.false_ne_true
  | some x =>
    obtain ⟨hseq, hstage⟩ := hs.present hx
    cases hr : x.stage with
    | registered =>
      simp only [StageHolds, hr] at hstage
      obtain ⟨hend, hpend⟩ := hstage
      have hi : x.inbox = none := by simpa [hpend] using hp
      simp only [conclude, hr, hi]
      exact .of_some rfl hseq ⟨hend, rfl⟩
    | refused reason =>
      simp only [StageHolds, hr] at hstage
      obtain ⟨hreason, hend, hpend⟩ := hstage
      have hi : x.inbox = none := by simpa [hpend] using hp
      simp only [conclude, hr, hi]
      exact .of_some rfl hseq ⟨hreason, hend, rfl⟩
    | waiting =>
      simp only [StageHolds, hr] at hstage
      obtain ⟨hend, _, hi⟩ := hstage
      simp only [conclude, hr, hi]
      exact .of_some rfl hseq ⟨rfl, _, by rw [hend]; rfl, Or.inl ⟨r, rfl, rfl⟩⟩
    | ended =>
      simp only [StageHolds, hr] at hstage
      exact absurd (hstage.1.symm.trans hp) Bool.false_ne_true

theorem Move.sound {c : Client} {e : Client.Event} {t : Standing} (hm : s.Move c e seq t)
    (hs : s.Sound seq) : t.Sound seq := by
  cases hm with
  | same => exact hs
  | register _ _ hn => exact .of_some rfl rfl ⟨(hs.absent hn).2, rfl⟩
  | check => exact sound_check hs _
  | cleanUp => exact sound_cleanUp hs
  | deliver _ hp => exact sound_deliver hs hp _

end Standing

namespace Client

variable {c d : Client} {x y : Exchange} {n seq : Nat}

def Notice.told? : Notice → Option ServerEvent
  | .told e => some e
  | _ => none

/-- What the listener was told, newest first. -/
def told (c : Client) : List ServerEvent := c.journal.filterMap Notice.told?

/-- No request was issued, and none became pending. -/
structure Kept (c d : Client) : Prop where
  lastSeq : d.lastSeq = c.lastSeq
  seqs : d.exchanges.map (fun x => x.request.seq) = c.exchanges.map fun x => x.request.seq
  pending : d.pending.Sublist c.pending

/-- Connections, and who changes them, are as before. -/
structure ReadsOnly (c d : Client) : Prop extends Kept c d where
  connections : d.connections = c.connections
  installed : d.installed = c.installed
  nextProcedure : d.nextProcedure = c.nextProcedure
  procedures : d.procedures = c.procedures

/-- Only exchanges changed, requests stopped being pending, and requests were sent or ended. -/
structure RequestsOnly (c d : Client) : Prop extends ReadsOnly c d where
  errands : d.errands = c.errands
  told : d.told = c.told

theorem ReadsOnly.refl (c : Client) : ReadsOnly c c :=
  ⟨⟨rfl, rfl, List.Sublist.refl _⟩, rfl, rfl, rfl, rfl⟩

theorem ReadsOnly.trans {b : Client} (h : ReadsOnly b c) (k : ReadsOnly c d) : ReadsOnly b d where
  lastSeq := k.lastSeq.trans h.lastSeq
  seqs := k.seqs.trans h.seqs
  pending := k.pending.trans h.pending
  connections := k.connections.trans h.connections
  installed := k.installed.trans h.installed
  nextProcedure := k.nextProcedure.trans h.nextProcedure
  procedures := k.procedures.trans h.procedures

theorem RequestsOnly.refl (c : Client) : RequestsOnly c c := ⟨.refl c, rfl, rfl⟩

theorem RequestsOnly.trans {b : Client} (h : RequestsOnly b c) (k : RequestsOnly c d) :
    RequestsOnly b d :=
  ⟨h.toReadsOnly.trans k.toReadsOnly, k.errands.trans h.errands, k.told.trans h.told⟩

theorem readsOnly_tell (c : Client) (e : ServerEvent) : ReadsOnly c (c.tell e) :=
  ⟨⟨rfl, rfl, List.Sublist.refl _⟩, rfl, rfl, rfl, rfl⟩

theorem readsOnly_errands (c : Client) (errands : List (Nat × Errand)) :
    ReadsOnly c { c with errands := errands } :=
  ⟨⟨rfl, rfl, List.Sublist.refl _⟩, rfl, rfl, rfl, rfl⟩

theorem requestsOnly_note {n : Notice} (hn : Notice.told? n = none) (c : Client) :
    RequestsOnly c (c.note n) := by
  refine ⟨⟨⟨rfl, rfl, List.Sublist.refl _⟩, rfl, rfl, rfl, rfl⟩, rfl, ?_⟩
  simp only [told, note, List.filterMap_cons, hn]

theorem requestsOnly_setExchange (c : Client) (x : Exchange) :
    RequestsOnly c (c.setExchange x) := by
  refine ⟨⟨⟨rfl, ?_, List.Sublist.refl _⟩, rfl, rfl, rfl, rfl⟩, rfl, rfl⟩
  simp only [setExchange, List.map_map]
  refine List.map_congr_left ?_
  intro e _
  by_cases he : e.request.seq = x.request.seq <;> simp [he]

theorem requestsOnly_conclude (c : Client) (x : Exchange) : RequestsOnly c (c.conclude x) := by
  rcases conclude_cases x with ⟨r, hs, hi⟩ | ⟨he, _⟩
  · simp only [conclude, hs, hi]
    exact (requestsOnly_setExchange c _).trans (requestsOnly_note rfl _)
  · rw [he]
    exact requestsOnly_setExchange c x

theorem requestsOnly_unpend (c : Client) (n : Nat) :
    RequestsOnly c { c with pending := c.pending.filter fun m => m != n } :=
  ⟨⟨⟨rfl, rfl, List.filter_sublist⟩, rfl, rfl, rfl, rfl⟩, rfl, rfl⟩

theorem requestsOnly_deliver (c : Client) (n : Nat) (r : Except Failure Json) :
    RequestsOnly c (c.deliver n r) := by
  simp only [deliver]
  split
  · exact requestsOnly_unpend c n
  · exact (requestsOnly_unpend c n).trans (requestsOnly_conclude _ _)

theorem requestsOnly_failPending (c : Client) : RequestsOnly c c.failPending := by
  simp only [failPending]
  generalize c.pending = l
  induction l generalizing c with
  | nil => exact .refl c
  | cons n l ih => exact (requestsOnly_deliver c n _).trans (ih _)

theorem requestsOnly_check (c : Client) (n : Nat) : RequestsOnly c (c.check n) := by
  simp only [check]
  split
  · exact .refl c
  · split
    · split
      · exact requestsOnly_setExchange c _
      · split
        · exact (requestsOnly_note rfl c).trans (requestsOnly_conclude _ _)
        · exact requestsOnly_setExchange c _
    · exact .refl c

theorem requestsOnly_cleanUp (c : Client) (n : Nat) : RequestsOnly c (c.cleanUp n) := by
  simp only [cleanUp]
  split
  · exact .refl c
  · split
    · exact ((requestsOnly_unpend c n).trans (requestsOnly_setExchange _ _)).trans
        (requestsOnly_note rfl _)
    · exact .refl c

theorem isPending_deliver (s : Standing) (r : Except Failure Json) :
    (s.deliver r).isPending = false := by
  simp only [Standing.deliver]
  split
  · rfl
  · simp only [Standing.conclude]
    split <;> rfl

theorem requestsOnly_answer (c : Client) (n : Nat) (r : Except Failure Json) :
    RequestsOnly c (c.answer n r) := by
  simp only [answer]
  split
  · exact requestsOnly_deliver c n r
  · exact .refl c

theorem readsOnly_route (c : Client) (connection : Nat) (r : Response) :
    ReadsOnly c (c.route connection r) := by
  cases r with
  | ok n body => exact (requestsOnly_answer c n _).toReadsOnly
  | error n message =>
    cases n with
    | none => exact readsOnly_tell c _
    | some n => exact readsOnly_errands c _
  | allMessages messages => exact readsOnly_tell c _
  | currentTasks | unknown => exact ReadsOnly.refl c

theorem readsOnly_line (c : Client) (connection : Nat) (text : List Char) :
    ReadsOnly c (c.line connection text) := by
  simp only [line]
  split
  · split
    · exact readsOnly_route c connection _
    · exact ReadsOnly.refl c
  · exact ReadsOnly.refl c

theorem readsOnly_finish (c : Client) (connection : Nat) : ReadsOnly c (c.finish connection) := by
  simp only [finish]
  split
  · exact ReadsOnly.refl c
  · next errand _ =>
    refine (readsOnly_errands c (Keyed.remove connection c.errands)).trans ?_
    cases errand with
    | answer n message => exact (requestsOnly_answer _ n _).toReadsOnly
    | publish message => exact readsOnly_tell _ _

theorem quit_cases (c : Client) (connection : Nat) :
    c.quit connection = c ∨ c.quit connection = c.change connection .endReading := by
  simp only [quit]
  split
  · split
    · exact Or.inr rfl
    · exact Or.inl rfl
  · exact Or.inl rfl

theorem Kept.numbered (h : Kept c d) (hc : c.Numbered) : d.Numbered where
  seqs := by rw [h.seqs, h.lastSeq, hc.seqs]
  pending_nodup := h.pending.nodup hc.pending_nodup
  pending_le seq hs := by
    rw [h.lastSeq]
    exact hc.pending_le seq (h.pending.subset hs)

theorem numbered_register (hc : c.Numbered) (command : Command) :
    (c.register command).Numbered where
  seqs := by
    simp only [register, List.map_append, hc.seqs, List.map_cons, List.map_nil]
    rw [List.range'_1_concat, Nat.add_comm 1]
  pending_nodup := by
    have hn : c.lastSeq + 1 ∉ c.pending := by
      intro hm
      have hle := hc.pending_le _ hm
      omega
    simp only [register]
    exact List.nodup_append.mpr ⟨hc.pending_nodup, by simp, by
      intro a ha b hb
      obtain rfl := List.mem_singleton.mp hb
      rintro rfl
      exact hn ha⟩
  pending_le seq hs := by
    rcases List.mem_append.mp hs with hs | hs
    · exact Nat.le_succ_of_le (hc.pending_le seq hs)
    · exact Nat.le_of_eq (List.mem_singleton.mp hs)

theorem Kept.afterLoss (h : Kept c d) (procedure : Nat) (cause : Cause) :
    Kept c (d.afterLoss procedure cause) := by
  cases cause with
  | lost | replaced => exact ⟨h.lastSeq, h.seqs, h.pending⟩
  | stopped canStop => cases canStop <;> exact ⟨h.lastSeq, h.seqs, h.pending⟩

theorem kept_advance (c : Client) (procedure : Nat) (p : Procedure) :
    Kept c (c.advance procedure p) := by
  cases p with
  | connect canStart =>
    simp only [advance]
    split
    · exact ⟨rfl, rfl, List.Sublist.refl _⟩
    · split <;> exact ⟨rfl, rfl, List.Sublist.refl _⟩
  | mark => exact ⟨rfl, rfl, List.Sublist.refl _⟩
  | drain wasAlive reason cause =>
    have h := (requestsOnly_failPending c).toKept
    cases wasAlive with
    | true => exact ⟨h.lastSeq, h.seqs, h.pending⟩
    | false => exact h.afterLoss procedure cause
  | announce reason cause =>
    exact (readsOnly_tell c (.error reason)).toKept.afterLoss procedure cause
  | start canStart => cases canStart <;> exact ⟨rfl, rfl, List.Sublist.refl _⟩
  | install =>
    simp only [advance]
    split <;> exact ⟨rfl, rfl, List.Sublist.refl _⟩
  | shutdown =>
    simp only [advance]
    split <;> exact ⟨rfl, rfl, List.Sublist.refl _⟩

theorem kept_next {e : Event} (he : ∀ command, e ≠ .request command) : Kept c (c.next e) := by
  cases e with
  | request command => exact absurd rfl (he command)
  | check n => exact (requestsOnly_check c n).toKept
  | cleanUp n => exact (requestsOnly_cleanUp c n).toKept
  | line connection text => exact (readsOnly_line c connection text).toKept
  | finish connection => exact (readsOnly_finish c connection).toKept
  | quit connection =>
    rcases quit_cases c connection with h | h
    all_goals
      simp only [next, h]
      exact ⟨rfl, rfl, List.Sublist.refl _⟩
  | lose | connect | shutdown => exact ⟨rfl, rfl, List.Sublist.refl _⟩
  | proceed procedure =>
    simp only [next]
    split
    · exact ⟨rfl, rfl, List.Sublist.refl _⟩
    · exact kept_advance c procedure _
  | subscribe =>
    simp only [next, subscribe]
    split <;> exact ⟨rfl, rfl, List.Sublist.refl _⟩

theorem numbered_next (hc : c.Numbered) (e : Event) : (c.next e).Numbered := by
  by_cases he : ∃ command, e = .request command
  · obtain ⟨command, rfl⟩ := he
    exact numbered_register hc command
  · exact (kept_next (not_exists.mp he)).numbered hc

/-- Procedures have different numbers, smaller than the next one. -/
structure Keys (c : Client) : Prop where
  nodup : (c.procedures.map Prod.fst).Nodup
  lt : ∀ e ∈ c.procedures, e.1 < c.nextProcedure

theorem Keys.of_keys (hc : c.Keys)
    (hp : (d.procedures.map Prod.fst).Sublist (c.procedures.map Prod.fst))
    (hn : d.nextProcedure = c.nextProcedure) : d.Keys where
  nodup := hp.nodup hc.nodup
  lt e he := by
    have hm := hp.subset (List.mem_map_of_mem (f := Prod.fst) he)
    obtain ⟨f, hf, hfe⟩ := List.mem_map.mp hm
    rw [hn, ← hfe]
    exact hc.lt f hf

theorem Keys.launch (hc : c.Keys) (p : Procedure) : (c.launch p).Keys where
  nodup := by
    have hn : c.nextProcedure ∉ c.procedures.map Prod.fst := by
      intro hm
      obtain ⟨e, he, hk⟩ := List.mem_map.mp hm
      have hlt := hc.lt e he
      omega
    simp only [Client.launch, List.map_append, List.map_cons, List.map_nil]
    exact List.nodup_append.mpr ⟨hc.nodup, by simp, by
      intro a ha b hb
      obtain rfl := List.mem_singleton.mp hb
      rintro rfl
      exact hn ha⟩
  lt e he := by
    rcases List.mem_append.mp he with he | he
    · exact Nat.lt_succ_of_lt (hc.lt e he)
    · obtain rfl := List.mem_singleton.mp he
      exact Nat.lt_succ_self _

/-- A step of a procedure replaces it or ends it. -/
theorem procedures_advance (c : Client) (procedure : Nat) (p : Procedure) :
    (c.advance procedure p).nextProcedure = c.nextProcedure ∧
      ((c.advance procedure p).procedures = Keyed.remove procedure c.procedures ∨
        ∃ q, (c.advance procedure p).procedures = Keyed.put procedure q c.procedures) := by
  have hfail : c.failPending.procedures = c.procedures := (requestsOnly_failPending c).procedures
  have hnext : c.failPending.nextProcedure = c.nextProcedure :=
    (requestsOnly_failPending c).nextProcedure
  have hafter (d : Client) (cause : Cause) :
      (d.afterLoss procedure cause).nextProcedure = d.nextProcedure ∧
        ((d.afterLoss procedure cause).procedures = Keyed.remove procedure d.procedures ∨
          ∃ q, (d.afterLoss procedure cause).procedures = Keyed.put procedure q d.procedures) := by
    cases cause with
    | lost => exact ⟨rfl, Or.inl rfl⟩
    | replaced => exact ⟨rfl, Or.inr ⟨_, rfl⟩⟩
    | stopped canStop => cases canStop <;> exact ⟨rfl, Or.inl rfl⟩
  cases p with
  | connect canStart =>
    simp only [advance]
    split
    · exact ⟨rfl, Or.inr ⟨_, rfl⟩⟩
    · split
      · exact ⟨rfl, Or.inl rfl⟩
      · exact ⟨rfl, Or.inr ⟨_, rfl⟩⟩
  | mark => exact ⟨rfl, Or.inr ⟨_, rfl⟩⟩
  | drain wasAlive reason cause =>
    rw [← hfail, ← hnext]
    cases wasAlive with
    | true => exact ⟨rfl, Or.inr ⟨_, rfl⟩⟩
    | false => exact hafter _ cause
  | announce reason cause => exact hafter _ cause
  | start canStart =>
    cases canStart
    · exact ⟨rfl, Or.inl rfl⟩
    · exact ⟨rfl, Or.inr ⟨_, rfl⟩⟩
  | install =>
    simp only [advance]
    split <;> exact ⟨rfl, Or.inl rfl⟩
  | shutdown =>
    simp only [advance]
    split
    · exact ⟨rfl, Or.inl rfl⟩
    · exact ⟨rfl, Or.inr ⟨_, rfl⟩⟩

theorem ReadsOnly.keys (h : ReadsOnly c d) (hc : c.Keys) : d.Keys :=
  hc.of_keys (h.procedures ▸ List.Sublist.refl _) h.nextProcedure

theorem keys_next (hc : c.Keys) (e : Event) : (c.next e).Keys := by
  cases e with
  | request => exact ⟨hc.nodup, hc.lt⟩
  | check n => exact (requestsOnly_check c n).toReadsOnly.keys hc
  | cleanUp n => exact (requestsOnly_cleanUp c n).toReadsOnly.keys hc
  | line connection text => exact (readsOnly_line c connection text).keys hc
  | finish connection => exact (readsOnly_finish c connection).keys hc
  | quit connection =>
    rcases quit_cases c connection with h | h
    all_goals
      simp only [next, h]
      exact ⟨hc.nodup, hc.lt⟩
  | lose connection loss =>
    have hchange : (c.change connection loss.strike).Keys := ⟨hc.nodup, hc.lt⟩
    exact hchange.launch _
  | connect canStart => exact hc.launch _
  | shutdown => exact hc.launch _
  | proceed procedure =>
    simp only [next]
    split
    · exact hc
    · next p hp =>
      obtain ⟨hn, he | ⟨q, he⟩⟩ := procedures_advance c procedure p
      · exact hc.of_keys (he ▸ Keyed.keys_remove _ _) hn
      · exact hc.of_keys (he ▸ Keyed.keys_put hp ▸ List.Sublist.refl _) hn
  | subscribe =>
    simp only [next, subscribe]
    split
    · exact hc
    · exact ⟨hc.nodup, hc.lt⟩

end Client

theorem Connection.isAlive_abort (x : Connection) : x.abort.isAlive = x.isAlive := rfl

theorem Connection.isAlive_endReading (x : Connection) : x.endReading.isAlive = x.isAlive := rfl

theorem Loss.isAlive_strike (loss : Loss) (x : Connection) :
    (loss.strike x).isAlive = x.isAlive := by
  cases loss <;> rfl

/-- Dead connections come with a procedure that will fail everything pending. -/
def Procedure.isLoss : Procedure → Bool
  | .mark _ _ _ => true
  | .drain _ _ _ => true
  | _ => false

namespace Client

variable {c d : Client} {x y : Exchange} {n seq : Nat}

/-- Everything pending is about to be failed. -/
def IsLosing (c : Client) : Prop := ∃ e ∈ c.procedures, e.2.isLoss = true

def IsGuarded (c : Client) : Prop := c.door = some true ∨ c.IsLosing

theorem alive?_eq_none : c.alive? = none ↔ c.door ≠ some true := by
  simp only [alive?, door]
  cases c.installed with
  | none => simp
  | some connection => cases ha : c.isAlive connection <;> simp [ha]

theorem door_of_alive {connection : Nat} (hi : c.installed = some connection)
    (ha : c.isAlive connection = true) : c.door = some true := by
  simp [door, hi, ha]

theorem ReadsOnly.door (h : ReadsOnly c d) : d.door = c.door := by
  have ha : d.isAlive = c.isAlive := by
    funext connection
    simp only [isAlive, h.connections]
  simp only [Client.door, h.installed, ha]

theorem ReadsOnly.guarded (h : ReadsOnly c d) (hc : c.IsGuarded) : d.IsGuarded := by
  simpa only [IsGuarded, IsLosing, h.door, h.procedures] using hc

theorem isAlive_change {f : Connection → Connection} (hf : ∀ x, (f x).isAlive = x.isAlive)
    (c : Client) (connection k : Nat) : (c.change connection f).isAlive k = c.isAlive k := by
  simp only [isAlive, change, List.getElem?_modify]
  by_cases hk : connection = k
  · subst k
    cases c.connections[connection]? with
    | none => rfl
    | some x => simp [hf]
  · simp [hk]

theorem isAlive_concat {connection : Nat} (ha : c.isAlive connection = true) (x : Connection) :
    ({ c with connections := c.connections ++ [x] } : Client).isAlive connection = true := by
  simp only [isAlive] at ha ⊢
  cases hc : c.connections[connection]? with
  | none => simp [hc] at ha
  | some y =>
    obtain ⟨hlt, _⟩ := List.getElem?_eq_some_iff.mp hc
    rw [List.getElem?_append_left hlt]
    exact ha

theorem Keys.isLosing (hc : c.Keys) (hl : c.IsLosing) {procedure : Nat} {p : Procedure}
    (hp : c.procedures.lookup procedure = some p) (hq : p.isLoss = false)
    (hd : d.procedures = Keyed.remove procedure c.procedures ∨
      ∃ q, d.procedures = Keyed.put procedure q c.procedures) : d.IsLosing := by
  obtain ⟨e, he, hloss⟩ := hl
  have hne : e.1 ≠ procedure := by
    rintro rfl
    have hlookup := Keyed.lookup_of_mem hc.nodup he
    obtain rfl : p = e.2 := Option.some.inj (hp.symm.trans hlookup)
    exact Bool.false_ne_true (hq.symm.trans hloss)
  rcases hd with hd | ⟨q, hd⟩
  · exact ⟨e, hd ▸ Keyed.mem_remove_of_ne he hne, hloss⟩
  · exact ⟨e, hd ▸ Keyed.mem_put_of_ne he hne q, hloss⟩

theorem isLosing_put {procedure : Nat} {p : Procedure}
    (hd : d.procedures = Keyed.put procedure p c.procedures) (hp : p.isLoss = true) :
    d.IsLosing :=
  ⟨(procedure, p), hd ▸ Keyed.mem_put_self _ _ _, hp⟩

theorem guarded_advance (hc : c.Keys) (hg : c.IsGuarded) {procedure : Nat} {p : Procedure}
    (hp : c.procedures.lookup procedure = some p) (hd : ∀ a b e, p ≠ .drain a b e) :
    (c.advance procedure p).IsGuarded := by
  have hkeep (hq : p.isLoss = false)
      (hdoor : c.door = some true → (c.advance procedure p).door = some true) :
      (c.advance procedure p).IsGuarded := by
    rcases hg with hg | hl
    · exact Or.inl (hdoor hg)
    · exact Or.inr (hc.isLosing hl hp hq (procedures_advance c procedure p).2)
  cases p with
  | connect canStart =>
    cases hi : c.installed with
    | none =>
      refine hkeep rfl fun ho => ?_
      simp [door, hi] at ho
    | some connection =>
      cases ha : c.isAlive connection with
      | true =>
        refine hkeep rfl fun ho => ?_
        simp only [advance, hi, ha, ↓reduceIte]
        exact ho
      | false =>
        refine Or.inr ?_
        simp only [advance, hi, ha, Bool.false_eq_true, ↓reduceIte]
        exact isLosing_put (c := c) rfl rfl
  | mark connection reason cause => exact Or.inr (isLosing_put (c := c) rfl rfl)
  | drain a b e => exact absurd rfl (hd a b e)
  | announce reason cause =>
    refine hkeep rfl fun ho => ?_
    have hafter : (c.advance procedure (.announce reason cause)).door = c.door := by
      cases cause with
      | lost | replaced => rfl
      | stopped canStop => cases canStop <;> rfl
    exact hafter.trans ho
  | start canStart =>
    refine hkeep rfl fun ho => ?_
    cases canStart with
    | false => exact ho
    | true =>
      cases hi : c.installed with
      | none => simp [door, hi] at ho
      | some connection =>
        have ha : c.isAlive connection = true := by simpa [door, hi] using ho
        exact door_of_alive hi (isAlive_concat ha .opened)
  | install connection =>
    refine hkeep rfl fun ho => ?_
    cases hi : c.installed with
    | none => simp [door, hi] at ho
    | some k =>
      have ha : c.isAlive k = true := by simpa [door, hi] using ho
      have halive : c.alive? = some k := by simp [alive?, hi, ha]
      simp only [advance, halive]
      exact door_of_alive hi ((isAlive_change Connection.isAlive_abort c connection k).trans ha)
  | shutdown =>
    cases hi : c.installed with
    | none =>
      refine hkeep rfl fun ho => ?_
      simp [door, hi] at ho
    | some connection =>
      refine Or.inr ?_
      simp only [advance, hi]
      exact isLosing_put (c := c) rfl rfl

theorem guarded_next (hc : c.Keys) (hg : c.IsGuarded) {e : Event} (he : c.isDrain e = false) :
    (c.next e).IsGuarded := by
  have hlaunch (p : Procedure) : (c.launch p).IsGuarded := by
    rcases hg with hg | ⟨e, he, hl⟩
    · exact Or.inl hg
    · exact Or.inr ⟨e, List.mem_append_left _ he, hl⟩
  cases e with
  | request command => exact hg
  | check n => exact (requestsOnly_check c n).toReadsOnly.guarded hg
  | cleanUp n => exact (requestsOnly_cleanUp c n).toReadsOnly.guarded hg
  | line connection text => exact (readsOnly_line c connection text).guarded hg
  | finish connection => exact (readsOnly_finish c connection).guarded hg
  | quit connection =>
    rcases quit_cases c connection with h | h
    · simp only [next, h]
      exact hg
    · simp only [next, h]
      have hdoor : (c.change connection .endReading).door = c.door := by
        rw [door, door, funext (isAlive_change Connection.isAlive_endReading c connection)]
        rfl
      exact hg.imp_left hdoor.trans
  | lose connection loss => exact Or.inr ⟨_, List.mem_append_right _ List.mem_cons_self, rfl⟩
  | connect canStart => exact hlaunch _
  | shutdown => exact hlaunch _
  | proceed procedure =>
    simp only [next]
    split
    · exact hg
    · next p hp =>
      refine guarded_advance hc hg hp ?_
      rintro a b e rfl
      simp [isDrain, hp] at he
  | subscribe =>
    simp only [next, subscribe]
    split <;> exact hg

end Client

namespace Standing

variable {s : Standing} {x : Exchange} {seq : Nat}

theorem deliver_not_waiting {r : Except Failure Json} (hx : (s.deliver r).exchange = some x) :
    x.stage ≠ .waiting := by
  intro hw
  simp only [deliver] at hx
  cases hy : s.exchange with
  | none =>
    simp only [hy] at hx
    cases hx
  | some y =>
    obtain ⟨v, hv⟩ : ∃ v, y.inbox.or (some r) = some v := by
      cases y.inbox with
      | none => exact ⟨r, rfl⟩
      | some v => exact ⟨v, rfl⟩
    simp only [hy, hv] at hx
    cases hs : y.stage with
    | waiting =>
      simp only [conclude, hs] at hx
      cases hx
      cases hw
    | registered | refused | ended =>
      simp only [conclude, hs] at hx
      cases hx
      cases hw

theorem check_waiting {door : Option Bool} (hx : (s.check door).exchange = some x)
    (hw : x.stage = .waiting) : s.exchange = some x ∨ door = some true := by
  rcases check_cases s door with he | ⟨y, hy, hr, ⟨reason, _, he⟩ | ⟨hdoor, _⟩⟩
  · exact Or.inl (he ▸ hx)
  · rw [he] at hx
    cases hx
    cases hw
  · exact Or.inr hdoor

theorem cleanUp_waiting (hx : s.cleanUp.exchange = some x) (hw : x.stage = .waiting) :
    s.exchange = some x := by
  rcases cleanUp_cases s with he | ⟨y, reason, _, _, he⟩
  · exact he ▸ hx
  · rw [he] at hx
    cases hx
    cases hw

/-- A request that waits did so before, or was just sent to an alive connection. -/
theorem Move.waiting {c : Client} {e : Client.Event} {t : Standing} (hm : s.Move c e seq t)
    (hs : s.Sound seq) (hx : t.exchange = some x) (hw : x.stage = .waiting) :
    (∃ y, s.exchange = some y ∧ y.stage = .waiting ∧ c.isDrain e = false) ∨
      e = .check seq ∧ c.door = some true := by
  cases hm with
  | same hd =>
    refine Or.inl ⟨x, hx, hw, ?_⟩
    obtain ⟨_, hstage⟩ := hs.present hx
    simp only [StageHolds, hw] at hstage
    have hnone := hd hstage.2.1
    cases he : c.isDrain e with
    | false => rfl
    | true => simp [Client.delivery?, he] at hnone
  | register =>
    cases hx
    cases hw
  | check he =>
    subst he
    rcases check_waiting hx hw with hx | hdoor
    · exact Or.inl ⟨x, hx, hw, rfl⟩
    · exact Or.inr ⟨rfl, hdoor⟩
  | cleanUp he =>
    subst he
    exact Or.inl ⟨x, cleanUp_waiting hx hw, hw, rfl⟩
  | deliver => exact absurd hw (deliver_not_waiting hx)

end Standing

namespace Client

variable {c : Client} {x : Exchange} {seq : Nat}

/-- What holds of a client at all times. -/
structure Invariant (c : Client) : Prop where
  numbered : c.Numbered
  keys : c.Keys
  sound : ∀ seq, (c.standing seq).Sound seq
  guarded : ∀ {seq x}, c.exchange? seq = some x → x.stage = .waiting → c.IsGuarded

theorem invariant_initial : initial.Invariant where
  numbered := ⟨rfl, List.nodup_nil, fun _ hs => absurd hs List.not_mem_nil⟩
  keys := ⟨List.nodup_nil, fun _ he => absurd he List.not_mem_nil⟩
  sound _ := ⟨fun _ => ⟨rfl, rfl⟩, fun hx => absurd hx.symm (Option.some_ne_none _)⟩
  guarded hx _ := absurd hx.symm (Option.some_ne_none _)

theorem invariant_next (hc : c.Invariant) (e : Event) : (c.next e).Invariant where
  numbered := numbered_next hc.numbered e
  keys := keys_next hc.keys e
  sound seq := (move_next hc.numbered e seq).sound (hc.sound seq)
  guarded {seq x} hx hw := by
    have hm := move_next hc.numbered e seq
    rcases hm.waiting (hc.sound seq) hx hw with ⟨y, hy, hwaits, hd⟩ | ⟨rfl, hdoor⟩
    · exact guarded_next hc.keys (hc.guarded hy hwaits) hd
    · exact Or.inl ((requestsOnly_check c seq).toReadsOnly.door.trans hdoor)

end Client

end DocSync.Server
