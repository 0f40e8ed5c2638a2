import DocSync.Json.Codec
import DocSync.Proofs.JsonText
import DocSync.Proofs.Lookup

/-!
What codecs do not look at. The form of a value says which parts of its JSON may stand in another
way: a record may have its fields in any order, other fields between them unless it is closed, and
no field where its default is meant. A codec that follows a form reads all these spellings alike.
-/

namespace DocSync

/-- The form of a value. A field of a record has a name, a form, and the JSON of its default if it
may be left out. -/
inductive Form where
  | scalar
  | list (item : Form)
  | nullable (value : Form)
  | record (isClosed : Bool) (fields : List (String × Form × Option Json))

namespace Form

/-- The second JSON says in a form what the first says. -/
inductive Respells : Form → Json → Json → Prop where
  | refl (form : Form) (j : Json) : Respells form j j
  | trans {form : Form} {i j k : Json} (hij : Respells form i j) (hjk : Respells form j k) :
      Respells form i k
  | item {form : Form} {i j : Json} (before after : List Json) (hij : Respells form i j) :
      Respells (.list form) (.array (before ++ i :: after)) (.array (before ++ j :: after))
  | value {form : Form} {i j : Json} (hij : Respells form i j) : Respells (.nullable form) i j
  | field {isClosed : Bool} {fields : List (String × Form × Option Json)} {name : String}
      {form : Form} {default : Option Json} {i j : Json} (before after : List (String × Json))
      (hf : (name, form, default) ∈ fields) (hij : Respells form i j) :
      Respells (.record isClosed fields) (.object (before ++ (name, i) :: after))
        (.object (before ++ (name, j) :: after))
  | reorder {isClosed : Bool} {fields : List (String × Form × Option Json)}
      {es fs : List (String × Json)} (hp : es.Perm fs) :
      Respells (.record isClosed fields) (.object es) (.object fs)
  | add {fields : List (String × Form × Option Json)} {es : List (String × Json)} {key : String}
      (j : Json) (hk : key ∉ fields.map Prod.fst) :
      Respells (.record false fields) (.object es) (.object ((key, j) :: es))
  | leaveOut {isClosed : Bool} {fields : List (String × Form × Option Json)}
      {es : List (String × Json)} {name : String} {form : Form} {default : Json}
      (hf : (name, form, some default) ∈ fields) (hn : name ∉ es.map Prod.fst) :
      Respells (.record isClosed fields) (.object ((name, default) :: es)) (.object es)

theorem Respells.leaveOutAt {isClosed : Bool} {fields : List (String × Form × Option Json)}
    {name : String} {default : Json} (before after : List (String × Json))
    (hf : ∃ form, (name, form, some default) ∈ fields)
    (hn : name ∉ (before ++ after).map Prod.fst) :
    Respells (.record isClosed fields) (.object (before ++ (name, default) :: after))
      (.object (before ++ after)) := by
  obtain ⟨form, hf⟩ := hf
  exact (reorder List.perm_middle).trans (leaveOut hf hn)

/-- What may stand in a slot of a record in place of what stands there. -/
inductive Fills (form : Form) (default : Option Json) : Option Json → Option Json → Prop where
  | same (slot : Option Json) : Fills form default slot slot
  | respelled {i j : Json} (hij : form.Respells i j) : Fills form default (some i) (some j)
  | leftOut {d : Json} (hd : default = some d) : Fills form default (some d) none

theorem Respells.null_iff {form : Form} {i j : Json} (h : form.Respells i j) :
    i = .null ↔ j = .null := by
  induction h with
  | refl => exact Iff.rfl
  | trans _ _ ihij ihjk => exact ihij.trans ihjk
  | value _ ih => exact ih
  | item | field | reorder | add | leaveOut => exact iff_of_false Json.noConfusion Json.noConfusion

theorem Respells.eq_of_scalar {i j : Json} (h : Form.scalar.Respells i j) : i = j := by
  generalize hform : Form.scalar = form at h
  induction h with
  | refl => rfl
  | trans _ _ ihij ihjk => exact (ihij hform).trans (ihjk hform)
  | item | value | field | reorder | add | leaveOut => cases hform

end Form

variable {α : Type} {c : Codec α} {form : Form} {a : α} {j : Json}

section Fields

variable {es fs : List (String × Json)} {name key : String}

theorem lookup_eq_head? (es : List (String × Json)) (name : String) :
    es.lookup name = ((es.filter fun e => e.1 == name).head?).map Prod.snd := by
  induction es with
  | nil => rfl
  | cons e es ih =>
    rcases e with ⟨k, j⟩
    by_cases hk : k = name
    · subst hk
      simp
    · have hne : (k == name) = false := beq_eq_false_iff_ne.mpr hk
      rw [Keyed.lookup_cons_ite, if_neg (Ne.symm hk), ih, List.filter_cons, hne]
      rfl

theorem lookup_perm (hp : es.Perm fs) (hd : (es.filter fun e => e.1 == name).length ≤ 1) :
    es.lookup name = fs.lookup name := by
  rw [lookup_eq_head?, lookup_eq_head?]
  have hfilter := hp.filter fun e => e.1 == name
  generalize es.filter (fun e => e.1 == name) = as at hd hfilter
  match as with
  | [] => rw [List.nil_perm.mp hfilter]
  | [e] => rw [List.singleton_perm.mp hfilter]
  | _ :: _ :: _ => simp at hd

theorem lookup_replace (name key : String) (before after : List (String × Json)) (i j : Json) :
    (before ++ (name, i) :: after).lookup key = (before ++ (name, j) :: after).lookup key ∨
      key = name ∧ (before ++ (name, i) :: after).lookup key = some i ∧
        (before ++ (name, j) :: after).lookup key = some j := by
  simp only [List.lookup_append, Keyed.lookup_cons_ite]
  cases before.lookup key with
  | some v => exact Or.inl rfl
  | none =>
    by_cases hk : key = name
    · exact Or.inr ⟨hk, by simp [hk], by simp [hk]⟩
    · exact Or.inl (by simp [hk])

theorem distinct_iff {names : List String} : Shape.distinct names es = true ↔
    ∀ n ∈ names, (es.filter fun e => e.1 == n).length ≤ 1 := by
  simp [Shape.distinct]

theorem distinct_perm (names : List String) (hp : es.Perm fs) :
    Shape.distinct names es = Shape.distinct names fs := by
  simp only [Shape.distinct, (hp.filter _).length_eq]

theorem distinct_replace (names : List String) (before after : List (String × Json)) (i j : Json) :
    Shape.distinct names (before ++ (name, i) :: after) =
      Shape.distinct names (before ++ (name, j) :: after) := by
  simp only [Shape.distinct, List.filter_append, List.filter_cons, List.length_append]
  refine List.all_congr rfl fun n => ?_
  split <;> rfl

theorem distinct_add {names : List String} (hk : key ∉ names) (j : Json) :
    Shape.distinct names ((key, j) :: es) = Shape.distinct names es := by
  refine Bool.eq_iff_iff.mpr ?_
  rw [distinct_iff, distinct_iff]
  refine forall₂_congr fun n hn => ?_
  have hne : (key == n) = false := beq_eq_false_iff_ne.mpr fun h => hk (h ▸ hn)
  simp only [List.filter_cons, hne, Bool.false_eq_true, ↓reduceIte]

theorem distinct_leaveOut (names : List String) (hn : name ∉ es.map Prod.fst) (j : Json) :
    Shape.distinct names ((name, j) :: es) = Shape.distinct names es := by
  refine Bool.eq_iff_iff.mpr ?_
  rw [distinct_iff, distinct_iff]
  refine forall₂_congr fun n _ => ?_
  by_cases he : name = n
  · subst he
    have hnil : (es.filter fun e => e.1 == name) = [] := by
      refine List.filter_eq_nil_iff.mpr fun e he hname => ?_
      exact hn (List.mem_map.mpr ⟨e, he, by simpa using hname⟩)
    simp [hnil]
  · have hne : (name == n) = false := beq_eq_false_iff_ne.mpr he
    simp only [List.filter_cons, hne, Bool.false_eq_true, ↓reduceIte]

theorem distinct_of_sublist {names : List String} (hs : (es.map Prod.fst).Sublist names)
    (hn : names.Nodup) : Shape.distinct names es = true := by
  refine distinct_iff.mpr fun n _ => ?_
  have hcount := List.nodup_iff_count.mp (hn.sublist hs) n
  rw [List.count_eq_countP, List.countP_map, List.countP_eq_length_filter] at hcount
  exact hcount

theorem onlyKnown_of_sublist {names : List String} (hs : (es.map Prod.fst).Sublist names) :
    Shape.onlyKnown names es = true := by
  simp only [Shape.onlyKnown, List.all_eq_true, List.contains_iff_mem]
  intro e he
  exact hs.subset (List.mem_map_of_mem he)

end Fields

/-- The codec reads alike whatever says the same in the form. -/
def Codec.Follows (c : Codec α) (form : Form) : Prop :=
  ∀ {i j}, form.Respells i j → c.read? i = c.read? j

namespace Codec

theorem follows_scalar (c : Codec α) : c.Follows .scalar := fun h => by
  rw [h.eq_of_scalar]

theorem readEach?_replace {i j : Json} (hc : c.read? i = c.read? j) (before after : List Json) :
    c.readEach? (before ++ i :: after) = c.readEach? (before ++ j :: after) := by
  induction before with
  | nil => simp only [List.nil_append, readEach?, hc]
  | cons k before ih => simp only [List.cons_append, readEach?, ih]

theorem Follows.list (hc : c.Follows form) : c.list.Follows (.list form) := by
  intro i j h
  generalize hform : Form.list form = list at h
  induction h with
  | refl => rfl
  | trans _ _ ihij ihjk => exact (ihij hform).trans (ihjk hform)
  | item before after hij =>
    cases hform
    exact readEach?_replace (hc hij) before after
  | value | field | reorder | add | leaveOut => cases hform

theorem nullable_read? (hj : j ≠ .null) : c.nullable.read? j = (c.read? j).map some := by
  cases j <;> first | rfl | exact absurd rfl hj

theorem Follows.nullable (hc : c.Follows form) : c.nullable.Follows (.nullable form) := by
  intro i j h
  generalize hform : Form.nullable form = nullable at h
  induction h with
  | refl => rfl
  | trans _ _ ihij ihjk => exact (ihij hform).trans (ihjk hform)
  | @value _ i j hij =>
    cases hform
    by_cases hi : i = .null
    · rw [hi, hij.null_iff.mp hi]
    · rw [nullable_read? hi, nullable_read? fun hj => hi (hij.null_iff.mpr hj), hc hij]
  | item | field | reorder | add | leaveOut => cases hform

end Codec

namespace Slot

variable {slot slot' : Option Json}

theorem required?_congr (hc : c.Follows form) (hs : form.Fills none slot slot') :
    required? c slot = required? c slot' := by
  cases hs with
  | same => rfl
  | respelled hij => exact hc hij
  | leftOut hd => cases hd

theorem orDefault?_congr (hc : c.Follows form) (hs : form.Fills (some j) slot slot')
    (hj : c.read? j = some a) : orDefault? c a slot = orDefault? c a slot' := by
  cases hs with
  | same => rfl
  | respelled hij => exact hc hij
  | leftOut hd =>
    cases hd
    exact hj

theorem optional?_congr (hc : c.Follows form)
    (hs : (Form.nullable form).Fills (some .null) slot slot') :
    optional? c slot = optional? c slot' :=
  orDefault?_congr hc.nullable hs rfl

end Slot

/-- The record has the fields of a form, and reads alike whatever may stand in them. -/
structure Shape.Follows (s : Shape α) (fields : List (String × Form × Option Json)) : Prop where
  names : s.names = fields.map Prod.fst
  nodup : s.names.Nodup
  reads : ∀ {slots slots' : String → Option Json},
    (∀ name form default, (name, form, default) ∈ fields →
      form.Fills default (slots name) (slots' name)) → s.read? slots = s.read? slots'

namespace Shape

variable {s : Shape α} {fields : List (String × Form × Option Json)}

theorem codec_read?_object (s : Shape α) (es : List (String × Json)) :
    s.codec.read? (.object es) =
      if distinct s.names es && (!s.isClosed || onlyKnown s.names es) then
        s.read? fun n => es.lookup n
      else none := rfl

theorem Follows.read?_congr (hs : s.Follows fields) {es fs : List (String × Json)}
    (hd : distinct s.names es = distinct s.names fs)
    (hk : s.isClosed = true → onlyKnown s.names es = onlyKnown s.names fs)
    (hf : distinct s.names es = true → ∀ name form default, (name, form, default) ∈ fields →
      form.Fills default (es.lookup name) (fs.lookup name)) :
    s.codec.read? (.object es) = s.codec.read? (.object fs) := by
  have hknown : (!s.isClosed || onlyKnown s.names es) = (!s.isClosed || onlyKnown s.names fs) := by
    cases hc : s.isClosed with
    | false => rfl
    | true => rw [hk hc]
  rw [codec_read?_object, codec_read?_object, ← hd, ← hknown]
  cases he : distinct s.names es with
  | false => rfl
  | true => rw [hs.reads (hf he)]

theorem Follows.form_unique (hs : s.Follows fields) {name : String} {f g : Form × Option Json}
    (hf : (name, f) ∈ fields) (hg : (name, g) ∈ fields) : f = g := by
  have hn : (fields.map Prod.fst).Nodup := hs.names ▸ hs.nodup
  exact Option.some.inj ((Keyed.lookup_of_mem hn hf).symm.trans (Keyed.lookup_of_mem hn hg))

theorem Follows.mem_names (hs : s.Follows fields) {name : String} {f : Form × Option Json}
    (hf : (name, f) ∈ fields) : name ∈ s.names :=
  hs.names ▸ List.mem_map.mpr ⟨(name, f), hf, rfl⟩

theorem Follows.codec (hs : s.Follows fields) :
    s.codec.Follows (.record s.isClosed fields) := by
  intro i j h
  generalize hform : Form.record s.isClosed fields = record at h
  induction h with
  | refl => rfl
  | trans _ _ ihij ihjk => exact (ihij hform).trans (ihjk hform)
  | item | value => cases hform
  | @field _ _ name form default i j before after hf hij =>
    cases hform
    refine hs.read?_congr (distinct_replace s.names before after i j) ?_ ?_
    · intro _
      simp only [onlyKnown, List.all_append, List.all_cons]
    · intro _ key form' default' hf'
      rcases lookup_replace name key before after i j with he | ⟨rfl, hi, hj⟩
      · rw [he]
        exact .same _
      · cases hs.form_unique hf hf'
        rw [hi, hj]
        exact .respelled hij
  | @reorder _ _ es fs hp =>
    cases hform
    refine hs.read?_congr (distinct_perm s.names hp) (fun _ => hp.all_eq) ?_
    intro hd name form default hf
    rw [lookup_perm hp (distinct_iff.mp hd name (hs.mem_names hf))]
    exact .same _
  | @add _ es key j hk =>
    injection hform with hopen hfields
    subst hfields
    refine hs.read?_congr (distinct_add (hs.names ▸ hk) j).symm ?_ ?_
    · intro hc
      rw [hopen] at hc
      cases hc
    · intro _ name form default hf
      have hne : name ≠ key := by
        rintro rfl
        exact hk (List.mem_map.mpr ⟨_, hf, rfl⟩)
      rw [Keyed.lookup_cons_ite, if_neg hne]
      exact .same _
  | @leaveOut _ _ es name form default hf hn =>
    cases hform
    refine hs.read?_congr (distinct_leaveOut s.names hn default) ?_ ?_
    · intro _
      have hknown : s.names.contains name = true := List.contains_iff_mem.mpr (hs.mem_names hf)
      simp only [onlyKnown, List.all_cons, hknown, Bool.true_and]
    · intro _ key form' default' hf'
      rw [Keyed.lookup_cons_ite]
      by_cases hkey : key = name
      · subst hkey
        cases hs.form_unique hf hf'
        rw [if_pos rfl, Keyed.lookup_eq_none hn]
        exact .leftOut rfl
      · rw [if_neg hkey]
        exact .same _

end Shape

namespace Codec

@[simp] theorem text_read_write (s : String) : text.read? (text.write s) = some s := rfl

@[simp] theorem text_write_ne_null (s : String) : text.write s ≠ .null := Json.noConfusion

@[simp] theorem count_write_ne_null (n : Count) : count.write n ≠ .null := Json.noConfusion

@[simp] theorem list_write_ne_null (as : List α) : c.list.write as ≠ .null := Json.noConfusion

theorem natural_read_write {limit n : Nat} (hn : n ≤ limit) :
    (natural limit).read? ((natural limit).write n) = some n :=
  if_pos hn

@[simp] theorem count_read_write (n : Count) : count.read? (count.write n) = some n := by
  have hn : n.toNat ≤ 4294967295 := Nat.le_of_lt_succ (UInt32.toNat_lt n)
  have hread := natural_read_write hn
  simp only [count, natural] at hread ⊢
  rw [hread, Option.map_some, UInt32.ofNat_toNat]

theorem list_read_write {as : List α} (hc : ∀ a ∈ as, c.read? (c.write a) = some a) :
    c.list.read? (c.list.write as) = some as := by
  change c.readEach? (as.map c.write) = some as
  induction as with
  | nil => rfl
  | cons a as ih =>
    have hrest := ih fun b hb => hc b (List.mem_cons_of_mem a hb)
    simp only [List.map_cons, readEach?, hc a List.mem_cons_self, hrest]

@[simp] theorem texts_read_write (ss : List String) :
    text.list.read? (text.list.write ss) = some ss :=
  list_read_write fun s _ => text_read_write s

theorem nullable_read_write {o : Option α}
    (hc : ∀ a ∈ o, c.write a ≠ .null ∧ c.read? (c.write a) = some a) :
    c.nullable.read? (c.nullable.write o) = some o := by
  cases o with
  | none => rfl
  | some a =>
    obtain ⟨hnull, hread⟩ := hc a rfl
    change c.nullable.read? (c.write a) = some (some a)
    rw [nullable_read? hnull, hread]
    rfl

end Codec

namespace Slot

theorem orDefault?_written (hc : c.read? (c.write a) = some a) (default : α) :
    orDefault? c default (some (c.write a)) = some a :=
  hc

theorem optional?_nullable {o : Option α}
    (hc : ∀ a ∈ o, c.write a ≠ .null ∧ c.read? (c.write a) = some a) :
    optional? c (some (c.nullable.write o)) = some o :=
  Codec.nullable_read_write hc

theorem optional?_written {o : Option α}
    (hc : ∀ a ∈ o, c.write a ≠ .null ∧ c.read? (c.write a) = some a) :
    optional? c (o.map c.write) = some o := by
  cases o with
  | none => rfl
  | some a => exact Codec.nullable_read_write hc

theorem lookup_present (c : Codec α) (name key : String) (o : Option α) :
    (present c name o).lookup key = if key = name then o.map c.write else none := by
  cases o with
  | none => exact (ite_self none).symm
  | some a => exact Keyed.lookup_cons_ite name (c.write a) [] key

theorem keys_present (c : Codec α) (name : String) (o : Option α) :
    ((present c name o).map Prod.fst).Sublist [name] := by
  cases o with
  | none => exact List.nil_sublist _
  | some a => exact List.Sublist.refl _

end Slot

theorem Shape.read_write {s : Shape α} (hk : ((s.write a).map Prod.fst).Sublist s.names)
    (hn : s.names.Nodup) (hr : (s.read? fun n => (s.write a).lookup n) = some a) :
    s.codec.read? (s.codec.write a) = some a := by
  change s.codec.read? (.object (s.write a)) = some a
  rw [codec_read?_object, distinct_of_sublist hk hn, onlyKnown_of_sublist hk, Bool.or_true]
  exact hr

end DocSync
