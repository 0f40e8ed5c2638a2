import DocSync.Proofs.PushTimes

/-!
The pushes of a session in a punctual run, all of them: when they come, what text they have, what a
burst of edits comes to, and what makes no difference.
-/

namespace DocSync.Service

variable {r : Run} {a b h i j k m t task : Nat} {x y : Session} {v w : PushState} {d : Deed}

/-- The document that a session was opened with in event `i`, after the edits up to a time. -/
def Run.draft (r : Run) (h : Nat) (channel : String) (document : Document) (i : Nat) :
    Nat → Document
  | 0 => document
  | k + 1 =>
    let draft := r.draft h channel document i k
    if k ≤ i then document else (draft.edit? h channel (r.event k)).getD draft

theorem Part.channel (hp : Part .inside v d w) (hx : v.session h = some x)
    (hy : w.session h = some y) :
    y.channel = x.channel := by
  cases hd : d.isRewiring with
  | false => exact (eq_of_wire (hp.wire hd) hx hy).1
  | true =>
    cases hp with
    | @«open» k _ _ _ _ _ hnone =>
      rcases update_cases hy with ⟨rfl, _⟩ | ⟨_, hy⟩
      · exact absurd (hx.symm.trans hnone) (Option.some_ne_none x)
      · rw [Option.some.inj (hx.symm.trans hy)]
    | close hz =>
      rcases update_cases hy with ⟨rfl, rfl⟩ | ⟨_, hy⟩
      · rw [Option.some.inj (hx.symm.trans hz)]
      · rw [Option.some.inj (hx.symm.trans hy)]
    | _ => cases hd

theorem Parts.channel {P : Deed → Prop} (hp : Parts .inside P v w) (hx : v.session h = some x)
    (hy : w.session h = some y) : y.channel = x.channel := by
  induction hp generalizing y with
  | refl => rw [Option.some.inj (hx.symm.trans hy)]
  | tail hu hq _ ih =>
    obtain ⟨z, hz, _⟩ := hu.evolves hx
    exact (hq.channel hz hy).trans (ih hz)

/-- An open session takes in the edits of its events. -/
theorem Run.document_next (r : Run) (hx : (r.state k).IsOpen h x)
    (hy : (r.state (k + 1)).IsOpen h y) :
    y.document = (x.edit? h (r.event k)).getD x.document := by
  have hs := r.sound k
  have hdocument {document : Document}
      (hd : (r.state (k + 1)).pushState.document h = some document) : y.document = document := by
    have hy' : (r.state (k + 1)).pushState.session h = some y := hy.1
    simp only [PushState.document, hy', Option.map_some] at hd
    exact Option.some.inj hd
  have hsame (hd : (r.state (k + 1)).pushState.document h = (r.state k).pushState.document h) :
      y.document = x.document := by
    have hx' : (r.state k).pushState.session h = some x := hx.1
    simp only [PushState.document, hx', Option.map_some] at hd
    exact hdocument hd
  cases hd : x.edit? h (r.event k) with
  | some document => exact hdocument (next_armed hs hx hd).document
  | none =>
    by_cases hf : (r.state k).Flushes h (r.event k)
    · exact hdocument (next_flushed hs.invariant hx hf).document
    · have hrests := next_rests hs (r.whole k) hx hy hd hf
      have hnext : (r.state k).next (r.event k) = r.state (k + 1) := rfl
      rw [hnext] at hrests
      generalize r.event k = e at hrests
      generalize r.state (k + 1) = u at hrests hdocument hsame
      cases hrests with
      | steady hsteady => exact hsame hsteady.document
      | fired _ hh _ hfired => exact hsame (hh ▸ hfired.document)
      | started _ hpushed => exact hdocument hpushed.document

theorem Run.opened_before (r : Run) (hx : (r.state k).session? h = some x) :
    ∃ i < k, r.Opens i h := by
  induction k generalizing x with
  | zero => cases hx
  | succ k ih =>
    cases hold : (r.state k).session? h with
    | none => exact ⟨k, Nat.lt_succ_self k, hold, x, hx⟩
    | some y =>
      obtain ⟨i, hi, ho⟩ := ih hold
      exact ⟨i, Nat.lt_succ_of_lt hi, ho⟩

theorem Run.Opens.event (ho : r.Opens i h) :
    ∃ id document channel, r.event i = .openDocument id document channel := by
  obtain ⟨hx, y, hy⟩ := ho
  obtain ⟨_, id, document, channel, he, _⟩ := next_opened (r.sound i) (r.whole i) hx hy
  exact ⟨id, document, channel, he⟩

theorem Run.Opens.open_before (ho : r.Opens i h) (hij : i < j) (hjk : j ≤ k)
    (hx : (r.state k).IsOpen h x) : ∃ y, (r.state j).IsOpen h y := by
  obtain ⟨_, z, hz⟩ := ho
  obtain ⟨y, hy, _⟩ := r.evolves hij hz
  obtain ⟨x', hx', he⟩ := r.evolves hjk hy
  obtain rfl := Option.some.inj (hx.1.symm.trans hx')
  refine ⟨y, hy, ?_⟩
  cases hc : y.isClosed with
  | false => rfl
  | true => exact absurd (hx.2.symm.trans (he.closed hc).1) (by decide)

/-- The text of an open session is the draft. -/
theorem Run.Opens.draft {id : DocumentId} {document : Document} {channel : String}
    (ho : r.Opens i h) (he : r.event i = .openDocument id document channel) (hik : i < k)
    (hx : (r.state k).IsOpen h x) :
    x.channel = channel ∧ x.document = r.draft h channel document i k := by
  induction hik generalizing x with
  | refl =>
    obtain ⟨_, _, _, _, he', harmed, hchannel⟩ :=
      next_opened (r.sound i) (r.whole i) ho.1 (x := x) hx.1
    cases he.symm.trans he'
    have hd := harmed.document
    have hx' : ((r.state i).next (r.event i)).pushState.session h = some x := hx.1
    simp only [PushState.document, hx', Option.map_some] at hd
    simp only [Run.draft, Nat.le_refl, ↓reduceIte]
    exact ⟨hchannel, Option.some.inj hd⟩
  | @step k hik ih =>
    obtain ⟨y, hy⟩ := ho.open_before hik (Nat.le_succ k) hx
    obtain ⟨hchannel, hdraft⟩ := ih hy
    have hsame : x.channel = y.channel :=
      ((r.step k).parts trivial).channel hy.1 hx.1
    refine ⟨hsame.trans hchannel, ?_⟩
    rw [r.document_next hy hx, Session.edit?, hchannel, hdraft]
    simp only [Run.draft, Nat.not_le_of_lt hik, ↓reduceIte]

theorem Run.Pushes.text (hp : r.Pushes j h) :
    ∃ i id document channel n, i < j ∧ r.Opens i h ∧
      r.event i = .openDocument id document channel ∧
      (r.state (j + 1)).pushes h =
        (n, (r.draft h channel document i j).fullText) :: (r.state j).pushes h := by
  rcases r.push_cases j h with hn | ⟨_, y, hy, he⟩
  · exact absurd hp hn
  obtain ⟨i, hij, ho⟩ := r.opened_before hy.1
  obtain ⟨id, document, channel, hevent⟩ := ho.event
  have hlt : i < j := by
    rcases Nat.lt_succ_iff_lt_or_eq.mp hij with hlt | rfl
    · exact hlt
    · exact absurd hp (Schedules.opened ho).armed.2.2
  obtain ⟨x, hx⟩ := ho.open_before hlt (Nat.le_succ j) hy
  have hedit : x.edit? h (r.event j) = none := by
    cases hd : x.edit? h (r.event j) with
    | none => rfl
    | some d => exact absurd hp (Schedules.edited ⟨x, d, hx, hd⟩).armed.2.2
  have hdocument := r.document_next hx hy
  rw [hedit, Option.getD_none, (ho.draft hevent hlt hx).2] at hdocument
  exact ⟨i, id, document, channel, y.version, hlt, ho, hevent, hdocument ▸ he⟩

/-- The event is an answer, or a change that the session does not accept. -/
def Run.Ignores (r : Run) (k h : Nat) (x : Session) : Prop :=
  (∃ task a, r.event k = .answer task a) ∨
    ∃ name change, r.event k = .change name change ∧ x.edit? h (.change name change) = none

/-- The pushes of a session go on as if the event had not come. -/
structure Run.Undisturbed (r : Run) (k h : Nat) : Prop where
  silent : ¬r.Pushes k h
  pending : r.pending (k + 1) h = r.pending k h
  starting : ∀ task, (r.state (k + 1)).work task = some (.start h) ↔
    (r.state k).work task = some (.start h)

theorem Run.Ignores.undisturbed (hx : (r.state k).IsOpen h x) (hi : r.Ignores k h x) :
    r.Undisturbed k h := by
  have hedit : x.edit? h (r.event k) = none := by
    rcases hi with ⟨task, a, he⟩ | ⟨name, change, he, hd⟩
    · rw [he]
      rfl
    · exact he ▸ hd
  have hrewire : (r.event k).isRewiring = false := by
    rcases hi with ⟨task, a, he⟩ | ⟨name, change, he, _⟩ <;> rw [he] <;> rfl
  have hfire (i : Nat) : r.event k ≠ .fire i := by
    rcases hi with ⟨task, a, he⟩ | ⟨name, change, he, _⟩ <;> simp [he]
  have hrun (task : Nat) : r.event k ≠ .run task := by
    rcases hi with ⟨task, a, he⟩ | ⟨name, change, he, _⟩ <;> simp [he]
  have hedits : ¬r.Edits k h := by
    rintro ⟨y, d, hy, hd⟩
    obtain rfl := Option.some.inj (hx.1.symm.trans hy.1)
    exact Option.some_ne_none d (hd.symm.trans hedit)
  have hflushes : ¬r.Flushes k h := by
    rintro ⟨y, _, hf⟩
    rcases hi with ⟨task, a, he⟩ | ⟨name, change, he, _⟩ <;> rw [he] at hf <;> cases hf
  have hstart (task : Nat) : (r.state (k + 1)).work task = some (.start h) ↔
      (r.state k).work task = some (.start h) := by
    constructor
    · intro hw
      rcases r.start_next hw with ⟨hold, _⟩ | ⟨i, _, he, _⟩
      · exact hold
      · exact absurd he (hfire i)
    · exact fun hw => r.start_stays hw (hrun task)
  cases r.moves k h with
  | scheduled hs =>
    cases hs with
    | opened ho => exact absurd (hx.1.symm.trans ho.1) (Option.some_ne_none x)
    | edited he => exact absurd he hedits
  | flushed hf => exact absurd hf hflushes
  | closed hs =>
    rcases hs with he | hf | ⟨⟨z, hz⟩, y, hy, hc⟩
    · exact absurd he hedits
    · exact absurd hf hflushes
    · exact absurd (hc.symm.trans (r.stays_open hz hy hrewire)) (by decide)
  | kept _ hd hp => exact ⟨hp, hd, hstart⟩
  | fired _ he => exact absurd he (hfire _)
  | started _ he => exact absurd he (hrun _)

/-- A burst of edits, the first in event `a` and the last in event `b`. Each but the last is
followed by another before its delay is over, and nothing else is asked of the session until the
delay after the last is over. -/
structure Run.Burst (r : Run) (a b h : Nat) : Prop where
  le : a ≤ b
  first : r.Edits a h
  last : r.Edits b h
  gaps : ∀ i, a ≤ i → i < b → r.Edits i h →
    ∃ m, i < m ∧ m ≤ b ∧ r.Edits m h ∧ (r.state m).now < (r.state i).now + r.syncDelay
  alone : ∀ m, a < m → r.Supersedes m h →
    m ≤ b ∧ r.Edits m h ∨ (r.state b).now + r.syncDelay ≤ (r.state m).now

theorem Run.Burst.due (hb : r.Burst a b h) : r.Due b h ((r.state b).now + r.syncDelay) := by
  refine ⟨.edited hb.last, fun m hbm hs => ?_⟩
  rcases hb.alone m (Nat.lt_of_le_of_lt hb.le hbm) hs with ⟨hmb, _⟩ | hle
  · exact absurd hbm (Nat.not_lt_of_le hmb)
  · exact hle

theorem Run.Edits.not_flushes (he : r.Edits k h) : ¬r.Flushes k h := by
  intro hf
  exact (Schedules.edited he).armed.2.2 hf.pushes

theorem Run.Burst.not_owes (hb : r.Burst a b h) (hai : a ≤ i) (hib : i < b) : ¬r.Owes i h t := by
  intro ho
  cases ho with
  | opened ho =>
    obtain ⟨x, _, hx, _⟩ := hb.first
    obtain ⟨y, hy, _⟩ := r.evolves hai hx.1
    exact absurd (hy.symm.trans ho.1) (Option.some_ne_none y)
  | flushed hf =>
    obtain ⟨m, _, _, _, hgap⟩ := hb.gaps a (Nat.le_refl a) (Nat.lt_of_le_of_lt hai hib) hb.first
    rcases Nat.lt_or_eq_of_le hai with hlt | rfl
    · rcases hb.alone i hlt (Or.inr (Or.inl hf)) with ⟨_, he⟩ | hle
      · exact he.not_flushes hf
      · have := r.now_mono (Nat.le_of_lt hib)
        have := r.now_mono (show a ≤ m by omega)
        omega
    · exact hb.first.not_flushes hf
  | edited he hl =>
    obtain ⟨m, him, _, hm, hgap⟩ := hb.gaps i hai hib he
    exact absurd hgap (Nat.not_lt_of_le (hl m him (Or.inl hm)))

theorem Run.Burst.pushed (hr : r.Punctual) (ha : r.Apart h) (hb : r.Burst a b h) (hbk : b < k)
    (ht : (r.state b).now + r.syncDelay ≤ (r.state k).now) (hs : (r.state k).IsSettled) :
    ∃ j, b < j ∧ j < k ∧ r.Pushes j h ∧ (r.state j).now = (r.state b).now + r.syncDelay ∧
      r.Silent a j h := by
  obtain ⟨j, hjk, hnow, hserves⟩ := hb.due.owes.served hr ha hbk ht hs
  have hbj : b < j := by
    rcases Nat.lt_or_eq_of_le hserves.after with hlt | rfl
    · exact hlt
    · exact absurd hserves.pushed (Schedules.edited hb.last).armed.2.2
  refine ⟨j, hbj, hjk, hserves.pushed, hnow, fun m ham hmj hp => ?_⟩
  rcases Nat.lt_or_ge m b with hmb | hbm
  case inr => exact hserves.first m hbm hmj hp
  obtain ⟨i, hi⟩ := hp.served hr ha
  rcases Nat.lt_or_ge i a with hia | hai
  · -- what was due before the burst began was pushed by then
    have hma := hi.before hr ha hia (Or.inl hb.first) (r.now_mono ham)
    exact Nat.not_lt_of_le ham hma
  · exact hb.not_owes hai (Nat.lt_of_le_of_lt hi.after hmb) hi.owed

/-- The pushes of a session in a run. -/
structure Run.PushesExactly (r : Run) (h : Nat) : Prop where
  /-- Every push is owed by one event: the opening, a flush, or an edit whose delay is over. -/
  owed : ∀ j, r.Pushes j h → ∃! i, r.Serves i j h
  /-- What is owed is pushed, once, at its time. -/
  served : ∀ i k t, r.Owes i h t → i < k → t ≤ (r.state k).now → (r.state k).IsSettled →
    ∃! j, j < k ∧ (r.state j).now = t ∧ r.Serves i j h
  /-- A push has the text that all edits before it have made. -/
  texts : ∀ j, r.Pushes j h → ∃ i id document channel n, i < j ∧ r.Opens i h ∧
    r.event i = .openDocument id document channel ∧
    (r.state (j + 1)).pushes h =
      (n, (r.draft h channel document i j).fullText) :: (r.state j).pushes h
  /-- A burst of edits yields one push, when the delay after the last is over. -/
  bursts : ∀ a b k, r.Burst a b h → b < k → (r.state b).now + r.syncDelay ≤ (r.state k).now →
    (r.state k).IsSettled →
    ∃ j, b < j ∧ j < k ∧ r.Pushes j h ∧ (r.state j).now = (r.state b).now + r.syncDelay ∧
      r.Silent a j h
  /-- Answers and rejected changes make no difference. -/
  ignored : ∀ k x, (r.state k).IsOpen h x → r.Ignores k h x → r.Undisturbed k h

/-- In a punctual run a session is pushed when it is owed a push, and only then. -/
theorem pushes_exactly (r : Run) (hr : r.Punctual) (h : Nat) (ha : r.Apart h) :
    r.PushesExactly h where
  owed j hp := by
    obtain ⟨i, hi⟩ := hp.served hr ha
    exact ⟨i, hi, fun m hm => hi.source_unique hr ha hm⟩
  served i k t ho hik ht hs := by
    obtain ⟨j, hjk, hnow, hserves⟩ := ho.served hr ha hik ht hs
    exact ⟨j, ⟨hjk, hnow, hserves⟩, fun m hm => hserves.push_unique hm.2.2⟩
  texts j hp := hp.text
  bursts a b k hb hbk ht hs := hb.pushed hr ha hbk ht hs
  ignored k x hx hi := hi.undisturbed hx

/-- A document is edited twice, the second time before the delay is over. -/
def burstRun : Run where
  syncDelay := 5
  completionDelay := 100
  input := ⟨⟨[]⟩, []⟩
  event
    | 0 => .connect 0
    | 1 => .answer 0 (.connected (.ok ()) (.ok ()))
    | 2 => .openDocument ⟨"a"⟩ (.standalone ['x']) "a"
    | 3 => .fire 0
    | 4 => .run 1
    | 5 => .setText 0 ['y']
    | 6 => .pass 3
    | 7 => .setText 0 ['z']
    | 8 => .pass 5
    | 9 => .fire 2
    | 10 => .run 2
    | _ => .endStream
  whole k := by
    split <;> rfl

theorem burstRun_punctual : burstRun.Punctual where
  calls k hc := by
    simp only [burstRun] at hc
    split at hc <;> first | cases hc; done | exact rfl
  waits k n he := by
    simp only [burstRun] at he
    split at he <;> cases he <;> rfl
  stops k n d he hd := by
    simp only [burstRun] at he
    split at he <;> cases he
    · exact (by decide : ∀ d ∈ (burstRun.state 6).deadline?, (burstRun.state 6).now + 3 ≤ d) d hd
    · exact (by decide : ∀ d ∈ (burstRun.state 8).deadline?, (burstRun.state 8).now + 5 ≤ d) d hd

theorem burstRun_apart : burstRun.Apart 0 := by
  intro i j t task _ _ hf he
  obtain ⟨x, _, hf⟩ := hf
  rw [he] at hf
  cases hf with
  | elapse hw =>
    simp only [burstRun] at he
    split at he <;> cases he
    · have hstart : (burstRun.state 4).work 1 = some (.start 0) := rfl
      cases hstart.symm.trans hw
    · have hstart : (burstRun.state 10).work 2 = some (.start 0) := rfl
      cases hstart.symm.trans hw

theorem burstRun_pushes :
    burstRun.Punctual ∧ burstRun.Apart 0 ∧ burstRun.PushesExactly 0 ∧
      (burstRun.state 8).pushes 0 = [(1, ['x'])] ∧ (burstRun.state 10).now = 8 ∧
      (burstRun.state 11).pushes 0 = [(3, ['z']), (1, ['x'])] :=
  ⟨burstRun_punctual, burstRun_apart, pushes_exactly burstRun burstRun_punctual 0 burstRun_apart,
    by decide, by decide, by decide⟩

end DocSync.Service
