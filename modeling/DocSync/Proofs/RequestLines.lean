import DocSync.Proofs.CodecForms
import DocSync.Server.Request

/-!
Requests survive the wire. Each stands on one line, whatever text it carries: the line holds an
object without further parts, with the keys of its command, and the object says the request again.
-/

namespace DocSync.Server

namespace Command

/-- The keys of a command on the wire. -/
def keys : Command → List String
  | sync .. => ["command", "file_name", "content"]
  | complete .. => ["command", "file_name", "line", "column", "skip_completions"]
  | info .. => ["command", "file_name", "line", "column"]

theorem keys_fields (c : Command) : c.fields.map Prod.fst = c.keys := by
  cases c <;> rfl

theorem fields_plain (c : Command) :
    ∀ f ∈ c.fields, f.2.isScalar = true ∧ f.2.settle? = some f.2 := by
  have htext (s : String) :
      (Json.string s).isScalar = true ∧ (Json.string s).settle? = some (.string s) := ⟨rfl, rfl⟩
  have hcount (n : Count) : (Codec.count.write n).isScalar = true ∧
      (Codec.count.write n).settle? = some (Codec.count.write n) := by
    have hn : n.toNat < 2 ^ 32 := UInt32.toNat_lt n
    exact ⟨rfl, Json.settle?_nat (by omega)⟩
  cases c with
  | sync file content =>
    simp only [fields, List.forall_mem_cons]
    exact ⟨htext _, htext _, htext _, List.forall_mem_nil _⟩
  | complete file p skip =>
    simp only [fields, List.forall_mem_cons]
    exact ⟨htext _, htext _, hcount _, hcount _, ⟨rfl, rfl⟩, List.forall_mem_nil _⟩
  | info file p =>
    simp only [fields, List.forall_mem_cons]
    exact ⟨htext _, htext _, hcount _, hcount _, List.forall_mem_nil _⟩

theorem ofJson?_fields (c : Command) {es : List (String × Json)}
    (hes : ∀ f ∈ c.fields, es.lookup f.1 = some f.2) : ofJson? (.object es) = some c := by
  cases c with
  | sync file content =>
    simp only [fields, List.forall_mem_cons] at hes
    obtain ⟨hcommand, hfile, hcontent, _⟩ := hes
    simp [ofJson?, Json.field?, hcommand, hfile, hcontent, Json.text?]
  | complete file p skip =>
    simp only [fields, List.forall_mem_cons] at hes
    obtain ⟨hcommand, hfile, hline, hcolumn, hskip, _⟩ := hes
    simp [ofJson?, Json.field?, hcommand, hfile, hline, hcolumn, hskip, Json.text?, Json.bool?]
  | info file p =>
    simp only [fields, List.forall_mem_cons] at hes
    obtain ⟨hcommand, hfile, hline, hcolumn, _⟩ := hes
    simp [ofJson?, Json.field?, hcommand, hfile, hline, hcolumn, Json.text?]

end Command

namespace Request

def fields (r : Request) : List (String × Json) := ("seq_num", .nat r.seq) :: r.command.fields

/-- The keys of a request on the wire. -/
def keys (r : Request) : List String := "seq_num" :: r.command.keys

theorem keys_fields (r : Request) : r.fields.map Prod.fst = r.keys := by
  rw [fields, keys, List.map_cons, Command.keys_fields]

theorem keys_nodup (r : Request) : r.keys.Nodup := by
  obtain ⟨seq, c⟩ := r
  cases c with
  | sync file content => simp [keys, Command.keys]
  | complete file p skip => simp [keys, Command.keys]
  | info file p => simp [keys, Command.keys]

theorem ofJson?_toJson (r : Request) : ofJson? r.toJson = some r := by
  have hn : (r.fields.map Prod.fst).Nodup := r.keys_fields ▸ r.keys_nodup
  have hcommand : Command.ofJson? r.toJson = some r.command := by
    refine r.command.ofJson?_fields fun f hf => ?_
    exact Keyed.lookup_of_mem hn (List.mem_cons_of_mem _ hf)
  have hseq : r.toJson.field? "seq_num" = some (.nat r.seq) := rfl
  rw [ofJson?, hseq, hcommand]
  rfl

theorem parse?_line {r : Request} (hr : r.seq < 2 ^ 64) : Json.parse? r.line = some r.toJson := by
  refine Json.parse?_write_object (r.keys_fields ▸ r.keys_nodup) ?_
  intro f hf
  rcases List.mem_cons.mp hf with rfl | hf
  · exact ⟨rfl, Json.settle?_nat hr⟩
  · exact r.command.fields_plain f hf

theorem line_injective {r q : Request} (h : q.line = r.line) : q = r := by
  have hj : q.toJson = r.toJson := Json.write_injective h
  have hq := q.ofJson?_toJson
  rw [hj, r.ofJson?_toJson] at hq
  exact (Option.some.inj hq).symm

/-- The request stands on one line, which holds a flat object with exactly its keys. The request is
read back from the object, and no other request is written so. -/
structure Survives (r : Request) : Prop where
  unbroken : '\n' ∉ r.line ∧ '\r' ∉ r.line
  object : ∃ fields, Json.parse? r.line = some (.object fields) ∧
    fields.map Prod.fst = r.keys ∧ r.keys.Nodup ∧ (∀ f ∈ fields, f.2.isScalar = true) ∧
    ofJson? (.object fields) = some r
  alone : ∀ q : Request, q.line = r.line → q = r

end Request

theorem requests_survive (r : Request) (hr : r.seq < 2 ^ 64) : r.Survives where
  unbroken := by
    have hline : Json.IsPrinted r.line := Json.isPrinted_write r.toJson
    constructor
    · intro hc
      exact absurd (hline '\n' hc) (by decide)
    · intro hc
      exact absurd (hline '\r' hc) (by decide)
  object := by
    refine ⟨r.fields, Request.parse?_line hr, r.keys_fields, r.keys_nodup, ?_, r.ofJson?_toJson⟩
    intro f hf
    rcases List.mem_cons.mp hf with rfl | hf
    · rfl
    · exact (r.command.fields_plain f hf).1
  alone _ hq := Request.line_injective hq

/-- The text has quotes, a backslash, both line breaks and a control character in it. -/
def brokenText : String := "say \"a\\b\"\r\n\u0001 é"

theorem broken_text_survives :
    (⟨2 ^ 64 - 1, .sync "/tmp/\n.lean" brokenText⟩ : Request).Survives :=
  requests_survive _ (by decide)

end DocSync.Server
