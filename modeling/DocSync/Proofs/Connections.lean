import DocSync.Proofs.ClientInvariant

/-!
Connections over time. They never come alive again, so without an installation there is no alive
connection where there was none.
-/

set_option linter.unusedSectionVars false

namespace DocSync.Server.Client

variable [Wording]

variable {c d : Client} {e : Event}

/-- What is installed, or is about to be, was opened. -/
structure InBounds (c : Client) : Prop where
  installed : ∀ {n}, c.installed = some n → n < c.connections.length
  opened : ∀ {entry n}, entry ∈ c.procedures → entry.2 = .install n → n < c.connections.length

/-- No connection came alive or was installed. -/
structure Fades (c d : Client) : Prop where
  installed : d.installed = c.installed ∨ d.installed = none
  length : c.connections.length ≤ d.connections.length
  alive : ∀ {n}, n < c.connections.length → d.isAlive n = true → c.isAlive n = true
  opened : ∀ {entry n}, entry ∈ d.procedures → entry.2 = .install n →
    entry ∈ c.procedures ∨ n < d.connections.length

/-- The event is the step in which a connection is installed. -/
def Installs (c : Client) (e : Event) : Prop :=
  ∃ procedure connection, e = .proceed procedure ∧
    c.procedures.lookup procedure = some (.install connection)

theorem InBounds.of_fades (hc : c.InBounds) (h : Fades c d) : d.InBounds where
  installed {n} hi := by
    rcases h.installed with he | he
    · exact Nat.lt_of_lt_of_le (hc.installed (he ▸ hi)) h.length
    · exact absurd (he.symm.trans hi) (Option.some_ne_none n).symm
  opened he hn := by
    rcases h.opened he hn with he | hlt
    · exact Nat.lt_of_lt_of_le (hc.opened he hn) h.length
    · exact hlt

theorem Fades.alive?_eq_none (h : Fades c d) (hc : c.InBounds) (ha : c.alive? = none) :
    d.alive? = none := by
  rw [Client.alive?_eq_none] at ha ⊢
  intro hd
  rcases h.installed with hi | hi
  · cases hn : c.installed with
    | none => simp [door, hi, hn] at hd
    | some n =>
      have halive : d.isAlive n = true := by simpa [door, hi, hn] using hd
      exact ha (door_of_alive hn (h.alive (hc.installed hn) halive))
  · simp [door, hi] at hd

theorem Fades.of_eq (hi : d.installed = c.installed) (hs : d.connections = c.connections)
    (hp : ∀ {entry n}, entry ∈ d.procedures → entry.2 = .install n → entry ∈ c.procedures) :
    Fades c d where
  installed := Or.inl hi
  length := Nat.le_of_eq (congrArg List.length hs).symm
  alive _ ha := by simpa only [isAlive, hs] using ha
  opened he hn := Or.inl (hp he hn)

theorem Fades.trans {b : Client} (h : Fades b c) (k : Fades c d) : Fades b d where
  installed := by
    rcases k.installed with he | he
    · rw [he]
      exact h.installed
    · exact Or.inr he
  length := Nat.le_trans h.length k.length
  alive hn ha := h.alive hn (k.alive (Nat.lt_of_lt_of_le hn h.length) ha)
  opened he hn := by
    rcases k.opened he hn with he | hlt
    · exact (h.opened he hn).imp_right fun hlt => Nat.lt_of_lt_of_le hlt k.length
    · exact Or.inr hlt

theorem ReadsOnly.fades (h : ReadsOnly c d) : Fades c d :=
  .of_eq h.installed h.connections fun he _ => h.procedures ▸ he

theorem of_mem_put {procedure n : Nat} {p : Procedure} {entry : Nat × Procedure}
    {procedures : List (Nat × Procedure)} (hp : ∀ n, p ≠ .install n)
    (he : entry ∈ Keyed.put procedure p procedures) (hn : entry.2 = .install n) :
    entry ∈ procedures := by
  rcases Keyed.mem_put he with rfl | he
  · exact absurd hn (hp n)
  · exact he

theorem of_mem_concat {procedure n : Nat} {p : Procedure} {entry : Nat × Procedure}
    {procedures : List (Nat × Procedure)} (hp : ∀ n, p ≠ .install n)
    (he : entry ∈ procedures ++ [(procedure, p)]) (hn : entry.2 = .install n) :
    entry ∈ procedures := by
  rcases List.mem_append.mp he with he | he
  · exact he
  · obtain rfl := List.mem_singleton.mp he
    exact absurd hn (hp n)

theorem of_mem_remove {procedure : Nat} {entry : Nat × Procedure}
    {procedures : List (Nat × Procedure)} (he : entry ∈ Keyed.remove procedure procedures) :
    entry ∈ procedures :=
  (List.mem_filter.mp he).1

theorem isAlive_of_change {connection n : Nat} {f : Connection → Connection}
    (hf : ∀ x, (f x).isAlive = true → x.isAlive = true)
    (ha : (c.change connection f).isAlive n = true) : c.isAlive n = true := by
  simp only [isAlive, change, List.getElem?_modify] at ha ⊢
  cases hx : c.connections[n]? with
  | none => simp [hx] at ha
  | some x =>
    by_cases hn : connection = n
    · exact hf x (by simpa [hx, hn] using ha)
    · simpa [hx, hn] using ha

theorem isAlive_mark (cause : Cause) (x : Connection) (ha : (cause.mark x).isAlive = true) :
    x.isAlive = true := by
  cases cause <;> cases ha

theorem fades_change {f : Connection → Connection} {connection : Nat}
    (hf : ∀ x, (f x).isAlive = true → x.isAlive = true)
    (hi : d.installed = c.installed) (hs : d.connections = (c.change connection f).connections)
    (hp : ∀ {entry n}, entry ∈ d.procedures → entry.2 = .install n → entry ∈ c.procedures) :
    Fades c d where
  installed := Or.inl hi
  length := by simp [hs, change]
  alive _ ha := isAlive_of_change (c := c) hf (by simpa only [isAlive, hs] using ha)
  opened he hn := Or.inl (hp he hn)

theorem fades_afterLoss (procedure : Nat) (cause : Cause) :
    Fades c (c.afterLoss procedure cause) := by
  cases cause with
  | lost => exact .of_eq rfl rfl fun he _ => of_mem_remove he
  | replaced canStart => exact .of_eq rfl rfl (of_mem_put (by simp))
  | stopped canStop => cases canStop <;> exact .of_eq rfl rfl fun he _ => of_mem_remove he

theorem fades_advance {procedure : Nat} {p : Procedure} (hp : ∀ n, p ≠ .install n) :
    Fades c (c.advance procedure p) := by
  cases p with
  | connect canStart =>
    simp only [advance]
    split
    · exact .of_eq rfl rfl (of_mem_put (by simp))
    · split
      · exact .of_eq rfl rfl fun he _ => of_mem_remove he
      · exact ⟨Or.inr rfl, Nat.le_refl _, fun _ ha => ha,
          fun he hn => Or.inl (of_mem_put (by simp) he hn)⟩
  | mark connection reason cause =>
    exact fades_change (isAlive_mark cause) rfl rfl (of_mem_put (by simp))
  | drain wasAlive reason cause =>
    have h := (requestsOnly_failPending c).toReadsOnly.fades
    cases wasAlive with
    | true => exact h.trans (.of_eq rfl rfl (of_mem_put (by simp)))
    | false => exact h.trans (fades_afterLoss procedure cause)
  | announce reason cause =>
    exact (readsOnly_tell c (.error reason)).fades.trans (fades_afterLoss procedure cause)
  | start canStart =>
    cases canStart with
    | false => exact .of_eq rfl rfl fun he _ => of_mem_remove he
    | true =>
      refine ⟨Or.inl rfl, by simp [advance, hold], fun hlt ha => ?_, fun he hn => ?_⟩
      · simp only [advance, hold, ↓reduceIte, isAlive, List.getElem?_append_left hlt] at ha
        exact ha
      · rcases Keyed.mem_put he with rfl | he
        · cases hn
          exact Or.inr (by simp [advance, hold])
        · exact Or.inl he
  | install n => exact absurd rfl (hp n)
  | shutdown =>
    simp only [advance]
    split
    · exact .of_eq rfl rfl fun he _ => of_mem_remove he
    · exact ⟨Or.inr rfl, Nat.le_refl _, fun _ ha => ha,
        fun he hn => Or.inl (of_mem_put (by simp) he hn)⟩

theorem fades_next (he : ¬c.Installs e) : Fades c (c.next e) := by
  cases e with
  | request => exact .of_eq rfl rfl fun he _ => he
  | check n => exact (requestsOnly_check c n).toReadsOnly.fades
  | cleanUp n => exact (requestsOnly_cleanUp c n).toReadsOnly.fades
  | line connection text => exact (readsOnly_line c connection text).fades
  | finish connection => exact (readsOnly_finish c connection).fades
  | quit connection =>
    rcases quit_cases c connection with h | h
    · simp only [next, h]
      exact .of_eq rfl rfl fun he _ => he
    · simp only [next, h]
      exact fades_change (fun x ha => x.isAlive_endReading.symm.trans ha) rfl rfl fun he _ => he
  | lose connection loss =>
    exact fades_change (fun x ha => (loss.isAlive_strike x).symm.trans ha) rfl rfl
      (of_mem_concat (by simp))
  | connect => exact .of_eq rfl rfl (of_mem_concat (by simp))
  | shutdown => exact .of_eq rfl rfl (of_mem_concat (by simp))
  | proceed procedure =>
    simp only [next]
    split
    · exact .of_eq rfl rfl fun he _ => he
    · next p hp =>
      refine fades_advance fun n hn => he ⟨procedure, n, rfl, ?_⟩
      rw [hp, hn]
  | subscribe =>
    simp only [next, subscribe]
    split <;> exact .of_eq rfl rfl fun he _ => he

theorem inBounds_initial : initial.InBounds where
  installed hi := absurd hi.symm (Option.some_ne_none _)
  opened he := absurd he List.not_mem_nil

theorem inBounds_next (hc : c.InBounds) (e : Event) : (c.next e).InBounds := by
  by_cases he : c.Installs e
  · obtain ⟨procedure, connection, rfl, hp⟩ := he
    have hlt := hc.opened (Keyed.mem_of_lookup hp) rfl
    simp only [next, hp, advance]
    split
    · have hlength : (c.change connection .abort).connections.length = c.connections.length := by
        simp [change]
      refine ⟨fun hi => ?_, fun he hn => ?_⟩
      · exact Nat.lt_of_lt_of_eq (hc.installed hi) hlength.symm
      · exact Nat.lt_of_lt_of_eq (hc.opened (of_mem_remove he) hn) hlength.symm
    · refine ⟨fun hi => ?_, fun he hn => hc.opened (of_mem_remove he) hn⟩
      cases hi
      exact hlt
  · exact hc.of_fades (fades_next he)

end DocSync.Server.Client
