import DocSync.Proofs.JsonText
import DocSync.Server.Response

/-!
What a line of the server says, in terms of the fields of the object on it. A line without such an
object, such as a blank one, says nothing.
-/

namespace DocSync.Server

variable {j body : Json} {text : List Char} {seq : Nat} {message : String}

/-- The line is an object that names its kind. -/
def IsOfKind (text : List Char) (kind : String) (j : Json) : Prop :=
  Json.parse? text = some j ∧ j.field? "response" = some (.string kind)

/-- The object has a sequence number of at most 64 bits. -/
def Carries (j : Json) (seq : Nat) : Prop :=
  j.field? "seq_num" = some (.nat seq) ∧ seq < 2 ^ 64

/-- What the error on the line says. -/
def errorText (j : Json) : String :=
  match j.field? "message" with
  | some (.string message) => message
  | _ => "unknown server error"

namespace Response

theorem seq?_eq_some : seq? j = some seq ↔ Carries j seq := by
  simp only [seq?, Carries]
  cases hf : j.field? "seq_num" with
  | none => simp
  | some v =>
    cases v with
    | number n =>
      cases n with
      | integer negative n =>
        cases negative
        · simp only [Option.bind_some, Codec.natural, Json.natural?, Numeral.natural?, Json.nat,
            Option.some.injEq, Json.number.injEq, Numeral.integer.injEq, true_and]
          by_cases hn : n ≤ 18446744073709551615
          · simp only [hn, ↓reduceIte, Option.some.injEq]
            constructor
            · intro he
              exact ⟨he, by omega⟩
            · intro he
              exact he.1
          · simp only [hn, ↓reduceIte, reduceCtorEq, false_iff, not_and]
            intro he
            omega
        · simp [Codec.natural, Json.natural?, Numeral.natural?, Json.nat]
      | decimal => simp [Codec.natural, Json.natural?, Numeral.natural?, Json.nat]
    | null | bool | string | unpaired | array | object =>
      simp [Codec.natural, Json.natural?, Json.nat]

theorem errorText_eq :
    ((j.field? "message").bind Json.text?).getD "unknown server error" = errorText j := by
  simp only [errorText]
  cases hf : j.field? "message" with
  | none => rfl
  | some v => cases v <;> rfl

theorem kind_eq {kind : String} (hne : kind ≠ "") :
    ((j.field? "response").bind Json.text?).getD "" = kind ↔
      j.field? "response" = some (.string kind) := by
  cases hf : j.field? "response" with
  | none => simp [Ne.symm hne]
  | some v => cases v <;> simp [Json.text?, Ne.symm hne]

/-- What an object that is an answer or goes to the listener says. -/
def IsSaidBy (j : Json) : Response → Prop
  | .ok seq body => j.field? "response" = some (.string "ok") ∧ Carries j seq ∧ body = j
  | .error seq message =>
    j.field? "response" = some (.string "error") ∧ seq = seq? j ∧ message = errorText j
  | .allMessages messages =>
    j.field? "response" = some (.string "all_messages") ∧ messages? j = some messages
  | _ => True

theorem isSaidBy_of_ofJson? {r : Response} (hr : ofJson? j = some r) : r.IsSaidBy j := by
  simp only [ofJson?] at hr
  split at hr
  · next hk =>
    obtain ⟨seq, hs, rfl⟩ := Option.map_eq_some_iff.mp hr
    exact ⟨(kind_eq (by decide)).mp hk, seq?_eq_some.mp hs, rfl⟩
  · next hk =>
    cases hr
    exact ⟨(kind_eq (by decide)).mp hk, rfl, errorText_eq⟩
  · next hk =>
    obtain ⟨messages, hm, rfl⟩ := Option.map_eq_some_iff.mp hr
    exact ⟨(kind_eq (by decide)).mp hk, hm⟩
  · cases hr
    trivial
  · cases hr
    trivial

theorem ofLine?_ok :
    ofLine? text = some (.ok seq body) ↔ IsOfKind text "ok" body ∧ Carries body seq := by
  constructor
  · intro hr
    obtain ⟨j, hj, hr⟩ := Option.bind_eq_some_iff.mp hr
    obtain ⟨hk, hs, rfl⟩ := isSaidBy_of_ofJson? hr
    exact ⟨⟨hj, hk⟩, hs⟩
  · rintro ⟨⟨hj, hk⟩, hs⟩
    simp only [ofLine?, hj, Option.bind_some, ofJson?, (kind_eq (by decide)).mpr hk,
      seq?_eq_some.mpr hs, Option.map_some]

theorem ofLine?_error {seq : Option Nat} :
    ofLine? text = some (.error seq message) ↔
      ∃ j, IsOfKind text "error" j ∧ seq = seq? j ∧ message = errorText j := by
  constructor
  · intro hr
    obtain ⟨j, hj, hr⟩ := Option.bind_eq_some_iff.mp hr
    obtain ⟨hk, hs⟩ := isSaidBy_of_ofJson? hr
    exact ⟨j, ⟨hj, hk⟩, hs⟩
  · rintro ⟨j, ⟨hj, hk⟩, rfl, rfl⟩
    simp only [ofLine?, hj, Option.bind_some, ofJson?, (kind_eq (by decide)).mpr hk, errorText_eq]

theorem ofLine?_allMessages {messages : List ServerMessage} :
    ofLine? text = some (.allMessages messages) ↔
      ∃ j, IsOfKind text "all_messages" j ∧ messages? j = some messages := by
  constructor
  · intro hr
    obtain ⟨j, hj, hr⟩ := Option.bind_eq_some_iff.mp hr
    obtain ⟨hk, hm⟩ := isSaidBy_of_ofJson? hr
    exact ⟨j, ⟨hj, hk⟩, hm⟩
  · rintro ⟨j, ⟨hj, hk⟩, hm⟩
    simp only [ofLine?, hj, Option.bind_some, ofJson?, (kind_eq (by decide)).mpr hk, hm,
      Option.map_some]

end Response

theorem isDigit_of_blank {c : Char} (hc : Text.isBlank c = true) : c.isDigit = false := by
  cases hd : c.isDigit with
  | false => rfl
  | true =>
    have hd : 48 ≤ c.toNat ∧ c.toNat ≤ 57 := by
      simpa [Char.isDigit, UInt32.le_iff_toNat_le] using hd
    simp only [Text.isBlank, Text.blankRanges, List.any_cons, List.any_nil, Bool.or_eq_true,
      Bool.and_eq_true, decide_eq_true_eq, Bool.false_eq_true, or_false] at hc
    omega

theorem token?_blank {c : Char} {cs : List Char} (hc : Text.isBlank c = true) :
    Json.token? (c :: cs) = none := by
  simp only [Json.token?]
  split
  case h_1 h => cases h
  case h_13 h =>
    cases h
    simp [Json.unsigned?, isDigit_of_blank hc]
  -- No other token starts with a blank.
  all_goals
    next h =>
      cases h
      exact absurd hc (by decide)

theorem tokens?_blank (ht : Text.isBlankText text = true) :
    Json.tokens? text = some [] ∨ Json.tokens? text = none := by
  induction text with
  | nil => exact Or.inl (by unfold Json.tokens?; rfl)
  | cons c cs ih =>
    simp only [Text.isBlankText, List.all_cons, Bool.and_eq_true] at ht
    obtain ⟨hc, hcs⟩ := ht
    simp only [Json.tokens?]
    split
    · exact ih hcs
    · right
      split
      · rfl
      · next ht =>
        rw [token?_blank hc] at ht
        cases ht

theorem ofLine?_blank (ht : Text.isBlankText text = true) : Response.ofLine? text = none := by
  have hread : Json.read? text = none := by
    simp only [Json.read?]
    rcases tokens?_blank ht with h | h
    · rw [h]
      rfl
    · rw [h]
      rfl
  simp only [Response.ofLine?, Json.parse?, hread, Option.bind_none]

/-- The answer to the first request. -/
def okLine : List Char :=
  ['{', '"', 'r', 'e', 's', 'p', 'o', 'n', 's', 'e', '"', ':', '"', 'o', 'k', '"', ',', '"', 's',
    'e', 'q', '_', 'n', 'u', 'm', '"', ':', '1', '}']

theorem parse?_okLine :
    Json.parse? okLine = some (.object [("response", .string "ok"), ("seq_num", .nat 1)]) := by
  let fields : List (String × Json) := [("response", .string "ok"), ("seq_num", .nat 1)]
  have hflat : ∀ f ∈ fields, f.2.isScalar = true ∧ f.2.settle? = some f.2 := by
    simp only [fields, List.forall_mem_cons]
    exact ⟨⟨rfl, rfl⟩, ⟨rfl, Json.settle?_nat (by decide)⟩, List.forall_mem_nil _⟩
  have hkeys : (fields.map Prod.fst).Nodup := by decide
  exact Json.parse?_write_object hkeys hflat

end DocSync.Server
