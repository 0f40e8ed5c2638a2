import DocSync.Json.Reader
import DocSync.Json.Writer
import DocSync.Proofs.Lookup
import Mathlib.Algebra.Group.Nat.Defs

/-!
Written JSON is read back as it was. A value is written as a row of tokens; the scanner finds these
tokens again, and the reader puts the value together from them. Nothing that is written holds a
control character, so it stands on one line.
-/

namespace DocSync.Json

variable {c : Char} {cs rest : List Char} {n : Nat}

theorem hexValue?_hexDigit : ∀ n, n < 16 → hexValue? (hexDigit n) = some n := by
  decide

/-- A piece that stands for a character: the character itself, or the code unit of a control. -/
def Piece.Spells (p : Piece) (c : Char) : Prop :=
  p = .plain c ∨ p = .unit c.toNat ∧ c.toNat < 32

theorem unit?_control (hc : c.toNat < 32) :
    unit? '0' '0' (hexDigit (c.toNat / 16)) (hexDigit (c.toNat % 16)) = some c.toNat := by
  have hzero : hexValue? '0' = some 0 := by decide
  simp only [unit?, hzero, hexValue?_hexDigit (c.toNat / 16) (by omega),
    hexValue?_hexDigit (c.toNat % 16) (by omega), Option.some.injEq]
  omega

theorem quoted?_plain (hq : c ≠ '"') (hb : c ≠ '\\') (hc : ¬c.toNat < 32) (cs : List Char) :
    quoted? (c :: cs) = (quoted? cs).map fun p => (.plain c :: p.1, p.2) := by
  rw [quoted?, if_neg hc]
  · cases quoted? cs <;> rfl
  · intro h
    exact hq h
  · intro a b c' d rest h
    exact absurd h hb
  · intro a rest h
    exact absurd h hb

/-- An escaped character is one piece, and that piece spells it. -/
theorem quoted?_escape (c : Char) (cs : List Char) : ∃ p : Piece, p.Spells c ∧
    quoted? (escape c ++ cs) = (quoted? cs).map fun q => (p :: q.1, q.2) := by
  have hshort (d : Char) (hd : escaped? d = some c) (hu : d ≠ 'u') :
      quoted? ('\\' :: d :: cs) = (quoted? cs).map fun q => (.plain c :: q.1, q.2) := by
    rw [quoted?, hd]
    · cases quoted? cs <;> rfl
    · intro a b c' d' rest h
      exact absurd h hu
  simp only [escape]
  split
  · next h =>
    subst h
    exact ⟨.plain _, Or.inl rfl, hshort '"' rfl (by decide)⟩
  split
  · next h =>
    subst h
    exact ⟨.plain _, Or.inl rfl, hshort '\\' rfl (by decide)⟩
  split
  · next h =>
    subst h
    exact ⟨.plain _, Or.inl rfl, hshort 'n' rfl (by decide)⟩
  split
  · next h =>
    subst h
    exact ⟨.plain _, Or.inl rfl, hshort 'r' rfl (by decide)⟩
  split
  · next h =>
    subst h
    exact ⟨.plain _, Or.inl rfl, hshort 't' rfl (by decide)⟩
  split
  · next h =>
    subst h
    exact ⟨.plain _, Or.inl rfl, hshort 'b' rfl (by decide)⟩
  split
  · next h =>
    subst h
    exact ⟨.plain _, Or.inl rfl, hshort 'f' rfl (by decide)⟩
  split
  · next hc =>
    refine ⟨.unit c.toNat, Or.inr ⟨rfl, hc⟩, ?_⟩
    simp only [List.cons_append, List.nil_append]
    rw [quoted?, unit?_control hc]
    cases quoted? cs <;> rfl
  · next hq hb _ _ _ _ _ hc => exact ⟨.plain c, Or.inl rfl, quoted?_plain hq hb hc cs⟩

theorem join?_cons {p : Piece} (hp : p.Spells c) (ps : List Piece) :
    join? (p :: ps) = (join? ps).map (c :: ·) := by
  rcases hp with rfl | ⟨rfl, hc⟩
  · rfl
  · have hhigh : isHighUnit c.toNat = false := by
      simp only [isHighUnit, Bool.and_eq_false_iff, decide_eq_false_iff_not]
      omega
    have hlow : isLowUnit c.toNat = false := by
      simp only [isLowUnit, Bool.and_eq_false_iff, decide_eq_false_iff_not]
      omega
    match ps with
    | [] => simp [join?, hhigh, hlow]
    | .plain d :: ps => simp [join?, hhigh, hlow]
    | .unit v :: ps => simp [join?, hhigh, hlow]

theorem quoted?_text (cs rest : List Char) : ∃ ps,
    quoted? (cs.flatMap escape ++ '"' :: rest) = some (ps, rest) ∧ join? ps = some cs := by
  induction cs with
  | nil => exact ⟨[], by simp [quoted?], rfl⟩
  | cons c cs ih =>
    obtain ⟨ps, hquoted, hjoin⟩ := ih
    obtain ⟨p, hp, hc⟩ := quoted?_escape c (cs.flatMap escape ++ '"' :: rest)
    refine ⟨p :: ps, ?_, ?_⟩
    · rw [List.flatMap_cons, List.append_assoc, hc, hquoted]
      rfl
    · rw [join?_cons hp, hjoin]
      rfl

theorem token?_writeText (s : String) (rest : List Char) :
    token? (writeText s ++ rest) = some (.text s, rest) := by
  obtain ⟨ps, hquoted, hjoin⟩ := quoted?_text s.toList rest
  have he : writeText s ++ rest = '"' :: (s.toList.flatMap escape ++ '"' :: rest) := by
    simp [writeText]
  rw [he, token?, hquoted]
  simp [hjoin]

theorem isDigit_of_mem_decimal (hc : c ∈ decimal n) : c.isDigit = true :=
  Nat.isDigit_of_mem_toDigits (by decide) (by decide) hc

theorem decimal_ne_nil (n : Nat) : decimal n ≠ [] := Nat.toDigits_ne_nil

theorem ofDigits_decimal (n : Nat) : ofDigits (decimal n) = n := by
  have h : Nat.ofDigitChars 10 (decimal n) 0 = n :=
    Nat.ofDigitChars_toDigits (by decide) (by decide)
  have hzero : '0'.toNat = 48 := rfl
  simpa only [Nat.ofDigitChars, hzero, ofDigits, Nat.mul_comm] using h

theorem digitChar_ne_zero : ∀ n, n < 10 → 0 < n → n.digitChar ≠ '0' := by
  decide

theorem head?_decimal (hn : 0 < n) : (decimal n).head? ≠ some '0' := by
  induction n using Nat.strongRecOn with
  | ind n ih =>
    by_cases hlt : n < 10
    · have he : decimal n = [n.digitChar] := Nat.toDigits_of_lt_base hlt
      simpa [he] using digitChar_ne_zero n hlt hn
    · have he : decimal n = decimal (n / 10) ++ [(n % 10).digitChar] :=
        Nat.toDigits_of_base_le (by decide) (by omega)
      have hhead := ih (n / 10) (by omega) (by omega)
      obtain ⟨d, ds, hd⟩ := List.exists_cons_of_ne_nil (decimal_ne_nil (n / 10))
      rw [he, hd]
      rw [hd] at hhead
      exact hhead

theorem leading_decimal (n : Nat) :
    ((decimal n).isEmpty || ((decimal n).length > 1 && (decimal n).head? == some '0')) = false := by
  have hempty : (decimal n).isEmpty = false := by
    simpa using decimal_ne_nil n
  rw [hempty, Bool.false_or]
  by_cases hn : 0 < n
  · have hhead : ((decimal n).head? == some '0') = false := by
      simpa using head?_decimal hn
    rw [hhead, Bool.and_false]
  · obtain rfl : n = 0 := by omega
    rfl

/-- The text does not go on with a digit. -/
def NoDigit (rest : List Char) : Prop := ∀ c ∈ rest.head?, c.isDigit = false

/-- No number goes on with the text. -/
def Ends (rest : List Char) : Prop :=
  ∀ c ∈ rest.head?, c.isDigit = false ∧ c ≠ '.' ∧ c ≠ 'e' ∧ c ≠ 'E'

theorem Ends.noDigit (hr : Ends rest) : NoDigit rest := fun c hc => (hr c hc).1

theorem ends_nil : Ends [] := fun c hc => by cases hc

theorem ends_cons (hc : c.isDigit = false ∧ c ≠ '.' ∧ c ≠ 'e' ∧ c ≠ 'E') (cs : List Char) :
    Ends (c :: cs) := fun d hd => by
  obtain rfl : c = d := by simpa using hd
  exact hc

theorem takeWhile_decimal (n : Nat) (hr : NoDigit rest) :
    (decimal n ++ rest).takeWhile Char.isDigit = decimal n := by
  rw [List.takeWhile_append_of_pos fun c hc => isDigit_of_mem_decimal hc]
  cases rest with
  | nil => simp
  | cons c rest =>
    have hc : c.isDigit = false := hr c rfl
    simp [hc]

theorem dropWhile_decimal (n : Nat) (hr : NoDigit rest) :
    (decimal n ++ rest).dropWhile Char.isDigit = rest := by
  rw [List.dropWhile_append_of_pos fun c hc => isDigit_of_mem_decimal hc]
  cases rest with
  | nil => rfl
  | cons c rest =>
    have hc : c.isDigit = false := hr c rfl
    simp [hc]

theorem fraction?_none (hr : ∀ c ∈ rest.head?, c ≠ '.') : fraction? rest = some (none, rest) := by
  unfold fraction?
  split
  · exact absurd rfl (hr '.' rfl)
  · rfl

theorem exponent?_none (hr : Ends rest) : exponent? rest = some (none, rest) := by
  cases rest with
  | nil => rfl
  | cons c rest =>
    obtain ⟨_, _, he, hE⟩ := hr c rfl
    simp [exponent?, he, hE]

theorem exponentSign_decimal (n : Nat) (rest : List Char) :
    exponentSign (decimal n ++ rest) = (false, decimal n ++ rest) := by
  obtain ⟨d, ds, hd⟩ := List.exists_cons_of_ne_nil (decimal_ne_nil n)
  have hdigit : d.isDigit = true := isDigit_of_mem_decimal (hd ▸ List.mem_cons_self)
  have hminus : d ≠ '-' := by
    rintro rfl
    cases hdigit
  have hplus : d ≠ '+' := by
    rintro rfl
    cases hdigit
  rw [hd, List.cons_append, exponentSign]
  · intro rest h
    exact hminus (List.cons.inj h).1
  · intro rest h
    exact hplus (List.cons.inj h).1

theorem exponent?_scale (s : Int) (hr : NoDigit rest) :
    exponent? ((if s < 0 then ['e', '-'] else ['e']) ++ decimal s.natAbs ++ rest) =
      some (some s, rest) := by
  have hempty : (decimal s.natAbs).isEmpty = false := by
    simpa using decimal_ne_nil s.natAbs
  by_cases hs : s < 0
  · have hsign : exponentSign ('-' :: (decimal s.natAbs ++ rest)) =
        (true, decimal s.natAbs ++ rest) := rfl
    simp only [hs, ↓reduceIte, List.cons_append, List.nil_append, exponent?, Char.reduceEq,
      true_or, hsign, takeWhile_decimal _ hr, dropWhile_decimal _ hr, hempty, Bool.false_eq_true,
      ofDigits_decimal, Option.some.injEq, Prod.mk.injEq, and_true]
    omega
  · simp only [hs, ↓reduceIte, List.cons_append, List.nil_append, exponent?, true_or,
      exponentSign_decimal, takeWhile_decimal _ hr, dropWhile_decimal _ hr, hempty,
      Bool.false_eq_true, ofDigits_decimal, Option.some.injEq, Prod.mk.injEq, and_true]
    omega

/-- A number without its sign. -/
def writeUnsigned : Numeral → List Char
  | .integer _ n => decimal n
  | .decimal _ m s => decimal m ++ ((if s < 0 then ['e', '-'] else ['e']) ++ decimal s.natAbs)

def isNegative : Numeral → Bool
  | .integer negative _ => negative
  | .decimal negative _ _ => negative

theorem writeNumeral_eq (n : Numeral) :
    writeNumeral n = (if isNegative n then ['-'] else []) ++ writeUnsigned n := by
  cases n with
  | integer negative n => rfl
  | decimal negative m s =>
    simp only [writeNumeral, writeUnsigned, List.append_assoc]
    rfl

theorem unsigned?_writeUnsigned (n : Numeral) (hr : Ends rest) :
    unsigned? (isNegative n) (writeUnsigned n ++ rest) = some (n, rest) := by
  cases n with
  | integer negative n =>
    simp only [isNegative, writeUnsigned, unsigned?, takeWhile_decimal n hr.noDigit,
      dropWhile_decimal n hr.noDigit, leading_decimal, Bool.false_eq_true, ↓reduceIte,
      fraction?_none fun c hc => (hr c hc).2.1, exponent?_none hr, numeral, ofDigits_decimal]
  | decimal negative m s =>
    have hscale : NoDigit ((if s < 0 then ['e', '-'] else ['e']) ++ decimal s.natAbs ++ rest) := by
      split <;> simp [NoDigit]
    have hpoint : ∀ c ∈ ((if s < 0 then ['e', '-'] else ['e']) ++ decimal s.natAbs ++ rest).head?,
        c ≠ '.' := by
      split <;> simp
    rw [isNegative, writeUnsigned, List.append_assoc]
    simp only [unsigned?, takeWhile_decimal m hscale, dropWhile_decimal m hscale, leading_decimal,
      Bool.false_eq_true, ↓reduceIte, fraction?_none hpoint, exponent?_scale s hr.noDigit]
    simp [numeral, ofDigits_decimal]

theorem writeUnsigned_head (n : Numeral) :
    ∃ d ds, writeUnsigned n = d :: ds ∧ d.isDigit = true := by
  have hdecimal (m : Nat) : ∃ d ds, decimal m = d :: ds ∧ d.isDigit = true := by
    obtain ⟨d, ds, hd⟩ := List.exists_cons_of_ne_nil (decimal_ne_nil m)
    exact ⟨d, ds, hd, isDigit_of_mem_decimal (hd ▸ List.mem_cons_self)⟩
  cases n with
  | integer negative n => exact hdecimal n
  | decimal negative m s =>
    obtain ⟨d, ds, hd, hdigit⟩ := hdecimal m
    exact ⟨d, _, by rw [writeUnsigned, hd, List.cons_append], hdigit⟩

theorem token?_digit (hc : c.isDigit = true) (cs : List Char) :
    token? (c :: cs) =
      (unsigned? false (c :: cs)).map fun p => (.scalar (.number p.1), p.2) := by
  unfold token?
  split
  case h_1 h => cases h
  case h_13 h =>
    cases h
    rfl
  -- Every other token starts with a character that is no digit.
  all_goals
    next h =>
      cases h
      cases hc

theorem token?_writeNumeral (n : Numeral) (hr : Ends rest) :
    token? (writeNumeral n ++ rest) = some (.scalar (.number n), rest) := by
  have hread := unsigned?_writeUnsigned n hr
  rw [writeNumeral_eq]
  cases hn : isNegative n with
  | true =>
    rw [hn] at hread
    simp only [↓reduceIte, List.cons_append, List.nil_append, token?, hread, Option.map_some]
  | false =>
    obtain ⟨d, ds, hd, hdigit⟩ := writeUnsigned_head n
    rw [hn, hd] at hread
    simp only [Bool.false_eq_true, ↓reduceIte, List.nil_append, hd, List.cons_append]
    rw [token?_digit hdigit, ← List.cons_append, hread]
    rfl

mutual

/-- The tokens that a value is written as. -/
def tokens : Json → List Token
  | null => [.scalar null]
  | bool b => [.scalar (bool b)]
  | number n => [.scalar (number n)]
  | string s => [.text s]
  | unpaired => [.unpairedText]
  | array [] => [.openBracket, .closeBracket]
  | array (j :: rest) => .openBracket :: (tokens j ++ itemTokens rest)
  | object [] => [.openBrace, .closeBrace]
  | object ((k, j) :: rest) => .openBrace :: .text k :: .colon :: (tokens j ++ fieldTokens rest)

def itemTokens : List Json → List Token
  | [] => [.closeBracket]
  | j :: rest => .comma :: (tokens j ++ itemTokens rest)

def fieldTokens : List (String × Json) → List Token
  | [] => [.closeBrace]
  | (k, j) :: rest => .comma :: .text k :: .colon :: (tokens j ++ fieldTokens rest)

end

theorem tokens?_cons {t : Token} (hc : isBlank c = false) (ht : token? (c :: cs) = some (t, rest)) :
    tokens? (c :: cs) = (tokens? rest).map (t :: ·) := by
  rw [tokens?, if_neg (by simp [hc])]
  split
  · next h =>
    rw [ht] at h
    cases h
  · next h =>
    rw [ht] at h
    cases h
    rfl

theorem tokens?_openBracket (cs : List Char) :
    tokens? ('[' :: cs) = (tokens? cs).map (.openBracket :: ·) := tokens?_cons (by decide) rfl

theorem tokens?_closeBracket (cs : List Char) :
    tokens? (']' :: cs) = (tokens? cs).map (.closeBracket :: ·) := tokens?_cons (by decide) rfl

theorem tokens?_openBrace (cs : List Char) :
    tokens? ('{' :: cs) = (tokens? cs).map (.openBrace :: ·) := tokens?_cons (by decide) rfl

theorem tokens?_closeBrace (cs : List Char) :
    tokens? ('}' :: cs) = (tokens? cs).map (.closeBrace :: ·) := tokens?_cons (by decide) rfl

theorem tokens?_comma (cs : List Char) :
    tokens? (',' :: cs) = (tokens? cs).map (.comma :: ·) := tokens?_cons (by decide) rfl

theorem tokens?_colon (cs : List Char) :
    tokens? (':' :: cs) = (tokens? cs).map (.colon :: ·) := tokens?_cons (by decide) rfl

theorem isBlank_digit (hc : c.isDigit = true) : isBlank c = false := by
  simp only [isBlank, Bool.or_eq_false_iff, decide_eq_false_iff_not]
  refine ⟨⟨⟨?_, ?_⟩, ?_⟩, ?_⟩ <;> (rintro rfl; cases hc)

theorem writeNumeral_head (n : Numeral) :
    ∃ d ds, writeNumeral n = d :: ds ∧ isBlank d = false := by
  rw [writeNumeral_eq]
  cases isNegative n with
  | true => exact ⟨'-', writeUnsigned n, rfl, by decide⟩
  | false =>
    obtain ⟨d, ds, hd, hdigit⟩ := writeUnsigned_head n
    exact ⟨d, ds, hd, isBlank_digit hdigit⟩

theorem tokens?_writeNumeral (n : Numeral) (hr : Ends rest) :
    tokens? (writeNumeral n ++ rest) = (tokens? rest).map (.scalar (number n) :: ·) := by
  obtain ⟨d, ds, hd, hblank⟩ := writeNumeral_head n
  have htoken := token?_writeNumeral n hr
  rw [hd] at htoken ⊢
  exact tokens?_cons hblank htoken

theorem tokens?_writeText (s : String) (rest : List Char) :
    tokens? (writeText s ++ rest) = (tokens? rest).map (.text s :: ·) :=
  tokens?_cons (by decide) (token?_writeText s rest)

theorem ends_writeItems (items : List Json) (rest : List Char) :
    Ends (writeItems items ++ rest) := by
  cases items with
  | nil => exact ends_cons (by decide) _
  | cons j items => exact ends_cons (by decide) _

theorem ends_writeFields (fields : List (String × Json)) (rest : List Char) :
    Ends (writeFields fields ++ rest) := by
  rcases fields with _ | ⟨⟨k, j⟩, fields⟩
  · exact ends_cons (by decide) _
  · exact ends_cons (by decide) _

mutual

theorem tokens?_write (j : Json) {rest : List Char} (hr : Ends rest) :
    tokens? (write j ++ rest) = (tokens? rest).map (tokens j ++ ·) := by
  match j with
  | null => exact tokens?_cons (by decide) rfl
  | bool true => exact tokens?_cons (by decide) rfl
  | bool false => exact tokens?_cons (by decide) rfl
  | number n => exact tokens?_writeNumeral n hr
  | string s => exact tokens?_writeText s rest
  | unpaired => exact tokens?_cons (by decide) rfl
  | array [] =>
    simp only [write, List.cons_append, List.nil_append, tokens?_openBracket, tokens?_closeBracket,
      Option.map_map, tokens, Function.comp_def]
  | array (i :: items) =>
    have hitem := tokens?_write i (ends_writeItems items rest)
    have hitems := tokens?_writeItems items hr
    simp only [write, List.cons_append, List.append_assoc, tokens?_openBracket, hitem, hitems,
      Option.map_map, tokens, Function.comp_def]
  | object [] =>
    simp only [write, List.cons_append, List.nil_append, tokens?_openBrace, tokens?_closeBrace,
      Option.map_map, tokens, Function.comp_def]
  | object ((k, v) :: fields) =>
    have hvalue := tokens?_write v (ends_writeFields fields rest)
    have hfields := tokens?_writeFields fields hr
    simp only [write, List.cons_append, List.append_assoc, tokens?_openBrace, tokens?_writeText,
      tokens?_colon, hvalue, hfields, Option.map_map, tokens, Function.comp_def]

theorem tokens?_writeItems (items : List Json) {rest : List Char} (hr : Ends rest) :
    tokens? (writeItems items ++ rest) = (tokens? rest).map (itemTokens items ++ ·) := by
  match items with
  | [] => exact tokens?_closeBracket rest
  | i :: items =>
    have hitem := tokens?_write i (ends_writeItems items rest)
    have hitems := tokens?_writeItems items hr
    simp only [writeItems, List.cons_append, List.append_assoc, tokens?_comma, hitem, hitems,
      Option.map_map, itemTokens, Function.comp_def]

theorem tokens?_writeFields (fields : List (String × Json)) {rest : List Char} (hr : Ends rest) :
    tokens? (writeFields fields ++ rest) = (tokens? rest).map (fieldTokens fields ++ ·) := by
  match fields with
  | [] => exact tokens?_closeBrace rest
  | (k, v) :: fields =>
    have hvalue := tokens?_write v (ends_writeFields fields rest)
    have hfields := tokens?_writeFields fields hr
    simp only [writeFields, List.cons_append, List.append_assoc, tokens?_comma, tokens?_writeText,
      tokens?_colon, hvalue, hfields, Option.map_map, fieldTokens, Function.comp_def]

end

/-- Fields whose keys were read. -/
def keyed (fields : List (String × Json)) : List Field := fields.map fun f => (some f.1, f.2)

theorem ofFields_keyed (fields : List (String × Json)) :
    ofFields (keyed fields) = object fields := by
  have hkeys : (keyed fields).mapM (fun f => f.1.map fun key => (key, f.2)) = some fields := by
    induction fields with
    | nil => rfl
    | cons f fields ih =>
      simp only [keyed, List.map_cons, List.mapM_cons] at ih ⊢
      rw [ih]
      rfl
  rw [ofFields, hkeys]

namespace Reading

variable {r : Reading} {t : Token} {ts : List Token} {stack : List Frame}

theorem run?_cons {next : Reading} (h : r.step? t = some next) :
    r.run? (t :: ts) = next.run? ts := by
  rw [run?, h]

end Reading

open Reading

variable {ts : List Token} {stack : List Frame}

mutual

/-- Wherever a value may start, its tokens are read as that value. -/
theorem run?_tokens (j : Json) {r : Reading} {stack : List Frame}
    (hr : ∀ t, t ≠ .closeBracket → r.step? t = start? stack t) (ts : List Token) :
    r.run? (tokens j ++ ts) = (after j stack).run? ts := by
  match j with
  | null => exact run?_cons (hr _ (by simp))
  | bool b => exact run?_cons (hr _ (by simp))
  | number n => exact run?_cons (hr _ (by simp))
  | string s => exact run?_cons (hr _ (by simp))
  | unpaired => exact run?_cons (hr _ (by simp))
  | array [] =>
    have hopen : r.step? .openBracket = some (firstItem stack) := hr _ (by simp)
    exact (run?_cons hopen).trans (run?_cons rfl)
  | array (i :: items) =>
    have hopen : r.step? .openBracket = some (firstItem stack) := hr _ (by simp)
    have hfirst (t : Token) (ht : t ≠ .closeBracket) :
        (firstItem stack).step? t = start? (.items [] :: stack) t := by
      cases t <;> first | rfl | exact absurd rfl ht
    rw [tokens, List.cons_append, List.append_assoc, run?_cons hopen, run?_tokens i hfirst]
    exact run?_itemTokens i [] items ts
  | object [] =>
    have hopen : r.step? .openBrace = some (key [] true stack) := hr _ (by simp)
    exact (run?_cons hopen).trans (run?_cons rfl)
  | object ((k, v) :: fields) =>
    have hopen : r.step? .openBrace = some (key [] true stack) := hr _ (by simp)
    have hkey : (key [] true stack).step? (.text k) = some (colon [] (some k) stack) := rfl
    have hcolon : (colon [] (some k) stack).step? .colon =
        some (value (.fields [] (some k) :: stack)) := rfl
    rw [tokens, List.cons_append, List.cons_append, List.cons_append, List.append_assoc,
      run?_cons hopen, run?_cons hkey, run?_cons hcolon, run?_tokens v fun _ _ => rfl]
    exact run?_fieldTokens v [] k fields ts

theorem run?_itemTokens (i : Json) (done items : List Json) {stack : List Frame}
    (ts : List Token) :
    (after i (.items done.reverse :: stack)).run? (itemTokens items ++ ts) =
      (after (array (done ++ i :: items)) stack).run? ts := by
  match items with
  | [] =>
    have hclose : (after i (.items done.reverse :: stack)).step? .closeBracket =
        some (after (array (i :: done.reverse).reverse) stack) := rfl
    rw [itemTokens, List.singleton_append, run?_cons hclose, List.reverse_cons,
      List.reverse_reverse]
  | j :: items =>
    have hcomma : (after i (.items done.reverse :: stack)).step? .comma =
        some (value (.items (i :: done.reverse) :: stack)) := rfl
    have hdone : i :: done.reverse = (done ++ [i]).reverse := by simp
    rw [itemTokens, List.cons_append, List.append_assoc, run?_cons hcomma, hdone,
      run?_tokens j fun _ _ => rfl, run?_itemTokens j (done ++ [i]) items ts, List.append_assoc,
      List.singleton_append]

theorem run?_fieldTokens (v : Json) (done : List (String × Json)) (k : String)
    (fields : List (String × Json)) {stack : List Frame} (ts : List Token) :
    (after v (.fields (keyed done).reverse (some k) :: stack)).run? (fieldTokens fields ++ ts) =
      (after (object (done ++ (k, v) :: fields)) stack).run? ts := by
  have hdone : (some k, v) :: (keyed done).reverse = (keyed (done ++ [(k, v)])).reverse := by
    simp [keyed]
  match fields with
  | [] =>
    have hclose : (after v (.fields (keyed done).reverse (some k) :: stack)).step? .closeBrace =
        some (after (ofFields ((some k, v) :: (keyed done).reverse).reverse) stack) := rfl
    rw [fieldTokens, List.singleton_append, run?_cons hclose, hdone, List.reverse_reverse,
      ofFields_keyed]
  | (l, w) :: fields =>
    have hcomma : (after v (.fields (keyed done).reverse (some k) :: stack)).step? .comma =
        some (key ((some k, v) :: (keyed done).reverse) false stack) := rfl
    have hkey (done : List Field) :
        (key done false stack).step? (.text l) = some (colon done (some l) stack) := rfl
    have hcolon (done : List Field) : (colon done (some l) stack).step? .colon =
        some (value (.fields done (some l) :: stack)) := rfl
    rw [fieldTokens, List.cons_append, List.cons_append, List.cons_append, List.append_assoc,
      run?_cons hcomma, run?_cons (hkey _), run?_cons (hcolon _), hdone,
      run?_tokens w fun _ _ => rfl, run?_fieldTokens w (done ++ [(k, v)]) l fields ts,
      List.append_assoc, List.singleton_append]

end

theorem read?_write (j : Json) : read? (write j) = some j := by
  have htokens : tokens? (write j) = some (tokens j) := by
    have h := tokens?_write j ends_nil
    have hnil : tokens? [] = some [] := by
      unfold tokens?
      rfl
    rw [List.append_nil, hnil] at h
    simpa using h
  have hrun : (value []).run? (tokens j) = some (after j []) := by
    have h : (value []).run? (tokens j ++ []) = (after j []).run? [] :=
      run?_tokens j (fun _ _ => rfl) []
    rw [List.append_nil] at h
    exact h
  simp only [read?, htokens, hrun, Option.bind_eq_bind, Option.bind_some]
  rfl

theorem write_injective {i j : Json} (h : write i = write j) : i = j := by
  have hi := read?_write i
  rw [h, read?_write j] at hi
  exact (Option.some.inj hi).symm

/-- The value has no parts. -/
def isScalar : Json → Bool
  | array _ => false
  | object _ => false
  | _ => true

theorem settle?_nat (hn : n < 2 ^ 64) : (nat n).settle? = some (nat n) := by
  have hlimit : 2 ^ 64 ≤ Numeral.doubleLimit := by decide +kernel
  have hfits : (Numeral.integer false n).fitsDouble = true := by
    rw [Numeral.fitsDouble, decide_eq_true_eq]
    exact Nat.lt_of_lt_of_le hn hlimit
  rw [nat, settle?, if_pos hfits]

theorem settleFields?_settled {fields : List (String × Json)}
    (hf : ∀ f ∈ fields, f.2.settle? = some f.2) : settleFields? fields = some fields := by
  induction fields with
  | nil => rfl
  | cons f fields ih =>
    rcases f with ⟨k, j⟩
    have hj : j.settle? = some j := hf (k, j) List.mem_cons_self
    have hrest := ih fun g hg => hf g (List.mem_cons_of_mem _ hg)
    simp only [settleFields?, hj, hrest]

theorem depth_of_isScalar {j : Json} (hj : j.isScalar = true) : j.depth = 0 := by
  cases j with
  | array => cases hj
  | object => cases hj
  | _ => rfl

theorem depthFields_of_isScalar {fields : List (String × Json)}
    (hf : ∀ f ∈ fields, f.2.isScalar = true) : depthFields fields = 0 := by
  induction fields with
  | nil => rfl
  | cons f fields ih =>
    obtain ⟨hj, hrest⟩ := List.forall_mem_cons.mp hf
    rw [depthFields, depth_of_isScalar hj, ih hrest, Nat.max_self]

theorem parse?_write_object {fields : List (String × Json)} (hn : (fields.map Prod.fst).Nodup)
    (hf : ∀ f ∈ fields, f.2.isScalar = true ∧ f.2.settle? = some f.2) :
    parse? (write (object fields)) = some (object fields) := by
  have hdepth : (object fields).depth ≤ nestingLimit := by
    rw [depth, depthFields_of_isScalar fun f hm => (hf f hm).1]
    decide
  rw [parse?, read?_write, Option.bind_some, if_pos hdepth, settle?,
    settleFields?_settled fun f hm => (hf f hm).2, Option.map_some, Keyed.keepLast_of_nodup hn]

/-- No control character is in the text; in particular no line break. -/
def IsPrinted (cs : List Char) : Prop := ∀ c ∈ cs, 32 ≤ c.toNat

theorem isPrinted_cons : IsPrinted (c :: cs) ↔ 32 ≤ c.toNat ∧ IsPrinted cs :=
  List.forall_mem_cons

theorem isPrinted_append : IsPrinted (cs ++ rest) ↔ IsPrinted cs ∧ IsPrinted rest :=
  List.forall_mem_append

theorem isPrinted_of_all (h : cs.all (fun c => decide (32 ≤ c.toNat)) = true) : IsPrinted cs := by
  intro c hc
  exact of_decide_eq_true (List.all_eq_true.mp h c hc)

theorem isPrinted_hexDigit : ∀ n, n < 16 → 32 ≤ (hexDigit n).toNat := by
  decide

theorem isPrinted_escape (c : Char) : IsPrinted (escape c) := by
  simp only [escape]
  -- Every escape but the last two is one closed text.
  iterate 7
    split
    · exact isPrinted_of_all rfl
  split
  · have hhigh := isPrinted_hexDigit (c.toNat / 16) (by omega)
    have hlow := isPrinted_hexDigit (c.toNat % 16) (by omega)
    simp [hhigh, hlow, IsPrinted]
  · next hc =>
    intro d hd
    obtain rfl := List.mem_singleton.mp hd
    omega

theorem isPrinted_writeText (s : String) : IsPrinted (writeText s) := by
  rw [writeText, isPrinted_cons, isPrinted_append]
  refine ⟨by decide, ?_, isPrinted_of_all rfl⟩
  intro c hc
  obtain ⟨d, _, hd⟩ := List.mem_flatMap.mp hc
  exact isPrinted_escape d c hd

theorem isPrinted_decimal (n : Nat) : IsPrinted (decimal n) := by
  intro c hc
  have hdigit : 48 ≤ c.toNat ∧ c.toNat ≤ 57 := by
    simpa [Char.isDigit, UInt32.le_iff_toNat_le] using isDigit_of_mem_decimal hc
  omega

theorem isPrinted_writeNumeral (n : Numeral) : IsPrinted (writeNumeral n) := by
  have hsign (b : Bool) : IsPrinted (if b then ['-'] else []) := by
    cases b <;> exact isPrinted_of_all rfl
  rw [writeNumeral_eq, isPrinted_append]
  refine ⟨hsign _, ?_⟩
  cases n with
  | integer negative n => exact isPrinted_decimal n
  | decimal negative m s =>
    simp only [writeUnsigned, isPrinted_append]
    refine ⟨isPrinted_decimal m, ?_, isPrinted_decimal _⟩
    split <;> exact isPrinted_of_all rfl

mutual

theorem isPrinted_write (j : Json) : IsPrinted (write j) := by
  match j with
  | null => exact isPrinted_of_all rfl
  | bool true => exact isPrinted_of_all rfl
  | bool false => exact isPrinted_of_all rfl
  | number n => exact isPrinted_writeNumeral n
  | string s => exact isPrinted_writeText s
  | unpaired => exact isPrinted_of_all rfl
  | array [] => exact isPrinted_of_all rfl
  | array (i :: items) =>
    rw [write, isPrinted_cons, isPrinted_append]
    exact ⟨by decide, isPrinted_write i, isPrinted_writeItems items⟩
  | object [] => exact isPrinted_of_all rfl
  | object ((k, v) :: fields) =>
    rw [write, isPrinted_cons, isPrinted_append, isPrinted_cons, isPrinted_append]
    exact ⟨by decide, isPrinted_writeText k, by decide, isPrinted_write v,
      isPrinted_writeFields fields⟩

theorem isPrinted_writeItems (items : List Json) : IsPrinted (writeItems items) := by
  match items with
  | [] => exact isPrinted_of_all rfl
  | i :: items =>
    rw [writeItems, isPrinted_cons, isPrinted_append]
    exact ⟨by decide, isPrinted_write i, isPrinted_writeItems items⟩

theorem isPrinted_writeFields (fields : List (String × Json)) : IsPrinted (writeFields fields) := by
  match fields with
  | [] => exact isPrinted_of_all rfl
  | (k, v) :: fields =>
    rw [writeFields, isPrinted_cons, isPrinted_append, isPrinted_cons, isPrinted_append]
    exact ⟨by decide, isPrinted_writeText k, by decide, isPrinted_write v,
      isPrinted_writeFields fields⟩

end

end DocSync.Json
