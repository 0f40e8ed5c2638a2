import DocSync.Proofs.MessageForms

/-!
Decoding undoes encoding, for every message and for the settings. The fields of a record may come in
another order and with unknown ones between them, and a field that holds its default may be left
out, at any depth. Only settings refuse fields that they do not know.
-/

namespace DocSync

variable {α : Type} {c : Codec α} {form : Form} {fits : α → Prop}

/-- The text of a value. -/
def Codec.toText (c : Codec α) (a : α) : List Char := Json.write (c.write a)

/-- The value that a text says, if it is JSON and says one. -/
def Codec.ofText? (c : Codec α) (text : List Char) : Option α := (Json.read? text).bind c.read?

/-- What is written is read back, however it is respelled, and whatever is read can be written. -/
structure Codec.Faithful (c : Codec α) (form : Form) (fits : α → Prop) : Prop where
  roundTrip : ∀ a, fits a → c.ofText? (c.toText a) = some a
  respelled : ∀ a, fits a → ∀ text j, Json.read? text = some j → form.Respells (c.write a) j →
    c.ofText? text = some a
  stable : ∀ text a, c.ofText? text = some a → c.ofText? (c.toText a) = some a

theorem Codec.ofText?_toText {a : α} (ha : c.read? (c.write a) = some a) :
    c.ofText? (c.toText a) = some a := by
  rw [ofText?, toText, Json.read?_write]
  exact ha

theorem Codec.Follows.faithful (hc : c.Follows form)
    (hback : ∀ a, fits a → c.read? (c.write a) = some a)
    (hfits : ∀ j a, c.read? j = some a → fits a) : c.Faithful form fits where
  roundTrip a ha := ofText?_toText (hback a ha)
  respelled a ha text j hj hr := by
    rw [ofText?, hj, Option.bind_some, ← hc hr]
    exact hback a ha
  stable text a ha := by
    obtain ⟨j, _, hread⟩ := Option.bind_eq_some_iff.mp ha
    exact ofText?_toText (hback a (hfits j a hread))

theorem Codec.Follows.faithful_all (hc : c.Follows form)
    (hback : ∀ a, c.read? (c.write a) = some a) : c.Faithful form fun _ => True :=
  hc.faithful (fun a _ => hback a) fun _ _ _ => trivial

theorem Shape.slots_of_read? {s : Shape α} {j : Json} {a : α} (hr : s.codec.read? j = some a) :
    ∃ slots, s.read? slots = some a := by
  cases j with
  | object es =>
    rw [codec_read?_object] at hr
    split at hr
    · exact ⟨_, hr⟩
    · cases hr
  | array items =>
    simp only [codec] at hr
    split at hr
    · exact ⟨_, hr⟩
    · cases hr
  | null | bool | number | string | unpaired => cases hr

namespace Config

theorem delay_fits {slot : Option Json} {n : Nat}
    (hn : Slot.orDefault? delayCodec 1000 slot = some n) : n < 2 ^ 64 := by
  cases slot with
  | none =>
    obtain rfl := Option.some.inj hn
    decide
  | some j =>
    obtain ⟨m, _, hm⟩ := Option.bind_eq_some_iff.mp hn
    split at hm
    · next hle =>
      obtain rfl := Option.some.inj hm
      exact Nat.lt_succ_of_le hle
    · cases hm

theorem fits_of_read? {j : Json} {c : Config} (hc : codec.read? j = some c) : c.Fits := by
  obtain ⟨slots, hslots⟩ := Shape.slots_of_read? hc
  obtain ⟨syncDelay, hsync, hslots⟩ := Option.bind_eq_some_iff.mp hslots
  obtain ⟨completionDelay, hcompletion, hslots⟩ := Option.bind_eq_some_iff.mp hslots
  obtain ⟨triggers, _, hslots⟩ := Option.bind_eq_some_iff.mp hslots
  obtain ⟨table, _, hslots⟩ := Option.bind_eq_some_iff.mp hslots
  obtain ⟨server, _, hslots⟩ := Option.bind_eq_some_iff.mp hslots
  obtain rfl := Option.some.inj hslots
  exact ⟨delay_fits hsync, delay_fits hcompletion⟩

theorem unknown_refused {es : List (String × Json)} (hu : ∃ e ∈ es, e.1 ∉ shape.names) :
    codec.read? (.object es) = none := by
  obtain ⟨e, he, hunknown⟩ := hu
  have hknown : Shape.onlyKnown shape.names es = false := by
    refine List.all_eq_false.mpr ⟨e, he, ?_⟩
    simpa using hunknown
  rw [codec, Shape.codec_read?_object, hknown, show shape.isClosed = true from rfl]
  simp

end Config

theorem messages_read_back :
    ServerMessage.codec.Faithful ServerMessage.form (fun _ => True) ∧
      RawCompletion.codec.Faithful RawCompletion.form (fun _ => True) ∧
      CompletionResult.codec.Faithful CompletionResult.form (fun _ => True) ∧
      InfoRecord.codec.Faithful InfoRecord.form (fun _ => True) ∧
      InfoResponse.codec.Faithful InfoResponse.form (fun _ => True) ∧
      EditorPosition.codec.Faithful EditorPosition.form (fun _ => True) ∧
      ServerPosition.codec.Faithful ServerPosition.form (fun _ => True) ∧
      EditorRange.codec.Faithful EditorRange.form (fun _ => True) ∧
      TextChange.codec.Faithful TextChange.form (fun _ => True) ∧
      ContentChange.codec.Faithful ContentChange.form (fun _ => True) ∧
      DocumentId.codec.Faithful .scalar (fun _ => True) ∧
      DisplayMode.codec.Faithful .scalar (fun _ => True) ∧
      ServerCommand.codec.Faithful ServerCommand.form (fun _ => True) ∧
      Config.codec.Faithful Config.form Config.Fits ∧
      ∀ es : List (String × Json), (∃ e ∈ es, e.1 ∉ Config.shape.names) →
        Config.codec.read? (.object es) = none :=
  ⟨ServerMessage.follows.faithful_all ServerMessage.read_write,
    RawCompletion.follows.faithful_all RawCompletion.read_write,
    CompletionResult.follows.faithful_all CompletionResult.read_write,
    InfoRecord.follows.faithful_all InfoRecord.read_write,
    InfoResponse.follows.faithful_all InfoResponse.read_write,
    EditorPosition.follows.faithful_all EditorPosition.read_write,
    ServerPosition.follows.faithful_all ServerPosition.read_write,
    EditorRange.follows.faithful_all EditorRange.read_write,
    TextChange.follows.faithful_all TextChange.read_write,
    ContentChange.follows.faithful_all ContentChange.read_write,
    DocumentId.follows.faithful_all DocumentId.read_write,
    DisplayMode.follows.faithful_all DisplayMode.read_write,
    ServerCommand.follows.faithful_all ServerCommand.read_write,
    Config.follows.faithful (fun _ hc => Config.read_write hc)
      fun _ _ hc => Config.fits_of_read? hc,
    fun _ hu => Config.unknown_refused hu⟩

/-- Settings that name what differs from the defaults, and what the program may not know. -/
def sparseSettings : Json :=
  .object [("server", .object [("shell", .bool true), ("command", .string "lean")]),
    ("sync_delay_ms", .nat 5)]

def sparseConfig : Config := ⟨5, 1000, " ,", none, some ⟨"lean", [], none⟩⟩

theorem sparseSettings_respell :
    Config.form.Respells (Config.codec.write sparseConfig) sparseSettings := by
  let delay : String × Json := ("sync_delay_ms", .nat 5)
  let command : String × Json := ("command", .string "lean")
  let written : Json := .object [command, ("args", .array []), ("root", .null)]
  let sparse : Json := .object [("shell", .bool true), command]
  have hserver : ServerCommand.form.Respells written sparse := by
    refine (Form.Respells.leaveOutAt [command] _ ?_ ?_).trans
      ((Form.Respells.leaveOutAt [command] _ ?_ ?_).trans (.add (.bool true) ?_))
    all_goals simp [ServerCommand.fields, command]
  have hwritten : Config.codec.write sparseConfig =
      .object [delay, ("completion_delay_ms", .nat 1000), ("abbreviation_triggers", .string " ,"),
        ("translations", .null), ("server", written)] := rfl
  have hdefaults : Config.form.Respells (Config.codec.write sparseConfig)
      (.object [delay, ("server", written)]) := by
    rw [hwritten]
    refine (Form.Respells.leaveOutAt [delay] _ ?_ ?_).trans
      ((Form.Respells.leaveOutAt [delay] _ ?_ ?_).trans
        (Form.Respells.leaveOutAt [delay] _ ?_ ?_))
    all_goals simp [Config.fields, delay]
  have hfield : ("server", Form.nullable ServerCommand.form, some Json.null) ∈ Config.fields := by
    simp [Config.fields]
  have hnested : Config.form.Respells (.object [delay, ("server", written)])
      (.object [delay, ("server", sparse)]) :=
    .field [delay] [] hfield (.value hserver)
  exact hdefaults.trans (hnested.trans (.reorder (List.Perm.swap _ delay [])))

theorem sparse_settings_read :
    Config.codec.ofText? (Json.write sparseSettings) = some sparseConfig := by
  obtain ⟨_, _, _, _, _, _, _, _, _, _, _, _, _, hconfig, _⟩ := messages_read_back
  exact hconfig.respelled sparseConfig ⟨by decide, by decide⟩ _ _ (Json.read?_write _)
    sparseSettings_respell

end DocSync
