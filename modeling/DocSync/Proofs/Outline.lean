import DocSync.Service.Step

/-!
What editing, pushing and closing sessions leaves alone. The outline of a service is the service
without its sessions, its marks and its timers; of its journal it keeps only the completions that
were asked for. A change of a session does not show in it, but that an edit cancels the completion
debounce, and that a closed session is detached from its channel.
-/

namespace DocSync.Service

/-- The notice says that a completion was asked for. -/
def Notice.isAsk : Notice → Bool
  | .called _ (.complete _ _) => true
  | _ => false

def outline (s : Service) : Service :=
  { s with
    sessions := []
    running := .empty
    agenda := .empty
    journal := s.journal.filter Notice.isAsk }

variable {s : Service} {h task : Nat} {x : Session}

theorem outline_note {n : Notice} (hn : n.isAsk = false) : (s.note n).outline = s.outline := by
  simp [outline, note, hn]

@[simp] theorem outline_setSession : (s.setSession h x).outline = s.outline := rfl

@[simp] theorem outline_report (id : Option DocumentId) (message : String) :
    (s.report id message).outline = s.outline := outline_note rfl

@[simp] theorem outline_markBusy (id : DocumentId) : (s.markBusy id).outline = s.outline := by
  simp only [markBusy]
  split
  · exact outline_note rfl
  · rfl

@[simp] theorem outline_markIdle (id : DocumentId) : (s.markIdle id).outline = s.outline := by
  simp only [markIdle]
  split
  · exact outline_note rfl
  · rfl

@[simp] theorem outline_bump : (s.bump h).outline = s.outline := by
  simp only [bump]
  split
  · rfl
  · exact outline_markBusy _

@[simp] theorem outline_arm (delay : Nat) (place : Place := .inside) :
    (s.arm h delay place).outline = s.outline := by
  simp only [arm]
  split
  · rfl
  · cases place <;> rfl

@[simp] theorem outline_disarm : (s.disarm h).outline = s.outline := by
  simp only [disarm]
  split <;> rfl

@[simp] theorem outline_syncIn (delay : Nat) (place : Place := .inside) :
    (s.syncIn h delay place).outline = s.outline := by
  simp only [syncIn, outline_arm, outline_bump]

/-- The outline stays, but that the completion debounce may be cancelled. -/
def OutlineKept (s t : Service) : Prop :=
  t.outline = s.outline ∨ t.outline = { s.outline with wait := s.wait.cancel }

theorem cancel_cancel (w : Wait) : w.cancel.cancel = w.cancel := by
  rcases w with ⟨generation, outstanding, rejections⟩
  cases outstanding <;> rfl

theorem OutlineKept.trans {t u : Service} (hst : s.OutlineKept t) (htu : t.OutlineKept u) :
    s.OutlineKept u := by
  rcases hst with hst | hst <;> rcases htu with htu | htu
  · exact Or.inl (htu.trans hst)
  · have hw := congrArg Service.wait hst
    change t.wait = s.wait at hw
    rw [hst, hw] at htu
    exact Or.inr htu
  · exact Or.inr (htu.trans hst)
  · have hw := congrArg Service.wait hst
    change t.wait = s.wait.cancel at hw
    rw [hst, hw, cancel_cancel] at htu
    exact Or.inr htu

theorem outline_edited (place : Place := .inside) :
    (s.edited h place).outline = { s.outline with wait := s.wait.cancel } := by
  simp only [edited, outline_syncIn]
  rfl

theorem outlineKept_contentChange (change : ContentChange) (place : Place := .inside) :
    s.OutlineKept (s.contentChange change h place) := by
  simp only [contentChange]
  split
  · exact Or.inl rfl
  · split
    · exact Or.inl rfl
    · split
      · exact Or.inl (outline_report _ _)
      · exact Or.inr (outline_edited place)

theorem outlineKept_fireChannel (name : String) (change : ContentChange)
    (place : Place := .inside) : s.OutlineKept (s.fireChannel name change place) := by
  simp only [fireChannel]
  generalize (s.channel name).handlers.map Prod.snd = handlers
  induction handlers generalizing s with
  | nil => exact Or.inl rfl
  | cons h handlers ih => exact (outlineKept_contentChange change place).trans ih

theorem outlineKept_setText (text : List Char) (place : Place := .inside) :
    s.OutlineKept (s.setText h text place) := by
  simp only [setText]
  split
  · exact Or.inl rfl
  · split
    · exact Or.inl rfl
    · exact Or.inr (outline_edited place)

@[simp] theorem outline_setContext (before after : List Char) (place : Place := .inside) :
    (s.setContext h before after place).outline = s.outline := by
  simp only [setContext]
  split
  · rfl
  · split
    · rfl
    · exact outline_syncIn _ place

theorem outline_unsubscribe :
    (s.unsubscribe h).outline = { s.outline with channels := (s.unsubscribe h).channels } := by
  simp only [unsubscribe]
  split
  · rfl
  · split <;> rfl

theorem outline_closeSession :
    (s.closeSession h).outline = { s.outline with channels := (s.closeSession h).channels } := by
  have hchannels {t u : Service} (ht : t.outline = u.outline)
      (hu : u.outline = { s.outline with channels := u.channels }) :
      t.outline = { s.outline with channels := t.channels } := by
    have hc := congrArg Service.channels ht
    change t.channels = u.channels at hc
    rw [ht, hu, hc]
  simp only [closeSession]
  split
  · rfl
  · next x _ =>
    split
    · rfl
    · have hu := outline_unsubscribe (s := s.setSession h { x with isClosed := true }) (h := h)
      split
      · exact hchannels outline_disarm hu
      · refine hchannels ?_ hu
        simp only [outline_markIdle, outline_setSession, outline_disarm]

theorem outline_retire (id : DocumentId) :
    (s.retire id h).outline =
      { s.outline with
        channels := (s.retire id h).channels
        diagnostics := s.outline.diagnostics.forget id } := by
  have ho := outline_closeSession (s := s) (h := h)
  have hd := congrArg Service.diagnostics ho
  change { (s.closeSession h).outline with
    diagnostics := (s.closeSession h).outline.diagnostics.forget id } = _
  rw [hd, ho]
  rfl

theorem outline_completePush (t : Ticket) (result : Except Failure Unit) :
    (s.completePush h t result).1.outline = s.outline := by
  simp only [completePush]
  split
  · rfl
  · split
    · rfl
    · split
      · split
        · exact outline_markIdle _
        · rfl
      · exact outline_report _ _

end DocSync.Service
