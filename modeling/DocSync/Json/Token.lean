import DocSync.Json.Basic

/-!
The tokens of JSON text. Blanks are the space, the tab, the line feed and the carriage return. A
string may hold every character but the controls below the space, written plain or escaped; a number
has no leading zero, and digits on both sides of its point.
-/

namespace DocSync.Json

inductive Token where
  | openBrace
  | closeBrace
  | openBracket
  | closeBracket
  | comma
  | colon
  | text (value : String)
  | unpairedText
  | scalar (value : Json)
  deriving Repr, Inhabited

def isBlank (c : Char) : Bool := c = ' ' || c = '\t' || c = '\n' || c = '\r'

def hexValue? (c : Char) : Option Nat :=
  if '0' ≤ c ∧ c ≤ '9' then some (c.toNat - 48)
  else if 'a' ≤ c ∧ c ≤ 'f' then some (c.toNat - 87)
  else if 'A' ≤ c ∧ c ≤ 'F' then some (c.toNat - 55)
  else none

/-- The code unit that four hexadecimal digits name. -/
def unit? (a b c d : Char) : Option Nat :=
  match hexValue? a, hexValue? b, hexValue? c, hexValue? d with
  | some a, some b, some c, some d => some (((a * 16 + b) * 16 + c) * 16 + d)
  | _, _, _, _ => none

def isHighUnit (u : Nat) : Bool := 0xD800 ≤ u && u < 0xDC00

def isLowUnit (u : Nat) : Bool := 0xDC00 ≤ u && u < 0xE000

def ofPair (high low : Nat) : Char :=
  Char.ofNat (0x10000 + (high - 0xD800) * 1024 + (low - 0xDC00))

/-- The character that a backslash before the given one stands for. -/
def escaped? : Char → Option Char
  | '"' => some '"'
  | '\\' => some '\\'
  | '/' => some '/'
  | 'b' => some '\x08'
  | 'f' => some '\x0c'
  | 'n' => some '\n'
  | 'r' => some '\r'
  | 't' => some '\t'
  | _ => none

/-- What stands between the quotes: characters, and code units given by their digits. -/
inductive Piece where
  | plain (c : Char)
  | unit (u : Nat)
  deriving DecidableEq, Repr

/-- Reads a string whose opening quote is past, up to and including its closing quote. -/
def quoted? : List Char → Option (List Piece × List Char)
  | [] => none
  | '"' :: rest => some ([], rest)
  | '\\' :: 'u' :: a :: b :: c :: d :: rest =>
    match unit? a b c d, quoted? rest with
    | some u, some (pieces, rest) => some (.unit u :: pieces, rest)
    | _, _ => none
  | '\\' :: c :: rest =>
    match escaped? c, quoted? rest with
    | some e, some (pieces, rest) => some (.plain e :: pieces, rest)
    | _, _ => none
  | c :: rest =>
    if c.toNat < 32 then none
    else
      match quoted? rest with
      | some (pieces, rest) => some (.plain c :: pieces, rest)
      | none => none

/-- The characters that pieces stand for. A high unit counts only right before a low one. -/
def join? : List Piece → Option (List Char)
  | [] => some []
  | .plain c :: rest => (join? rest).map (c :: ·)
  | .unit u :: .unit v :: rest =>
    if isHighUnit u then
      if isLowUnit v then (join? rest).map (ofPair u v :: ·) else none
    else if isLowUnit u then none
    else (join? (.unit v :: rest)).map (Char.ofNat u :: ·)
  | .unit u :: rest =>
    if isHighUnit u || isLowUnit u then none else (join? rest).map (Char.ofNat u :: ·)

def ofDigits (digits : List Char) : Nat :=
  digits.foldl (fun n c => n * 10 + (c.toNat - 48)) 0

/-- The digits of a fraction: none without a point, at least one after it. -/
def fraction? : List Char → Option (Option (List Char) × List Char)
  | '.' :: rest =>
    let digits := rest.takeWhile Char.isDigit
    if digits.isEmpty then none else some (some digits, rest.dropWhile Char.isDigit)
  | rest => some (none, rest)

/-- The sign of an exponent and the text after it. -/
def exponentSign : List Char → Bool × List Char
  | '-' :: rest => (true, rest)
  | '+' :: rest => (false, rest)
  | rest => (false, rest)

/-- An exponent: none without its letter, at least one digit after it. -/
def exponent? : List Char → Option (Option Int × List Char)
  | [] => some (none, [])
  | c :: rest =>
    if c = 'e' ∨ c = 'E' then
      let (negative, rest) := exponentSign rest
      let digits := rest.takeWhile Char.isDigit
      if digits.isEmpty then none
      else
        let n : Int := ofDigits digits
        some (some (if negative then -n else n), rest.dropWhile Char.isDigit)
    else some (none, c :: rest)

def numeral (negative : Bool) (whole : List Char) :
    Option (List Char) → Option Int → Numeral
  | none, none => .integer negative (ofDigits whole)
  | digits, exponent =>
    let digits := digits.getD []
    .decimal negative (ofDigits (whole ++ digits)) (exponent.getD 0 - digits.length)

def unsigned? (negative : Bool) (cs : List Char) : Option (Numeral × List Char) :=
  let whole := cs.takeWhile Char.isDigit
  if whole.isEmpty || (whole.length > 1 && whole.head? == some '0') then none
  else
    match fraction? (cs.dropWhile Char.isDigit) with
    | none => none
    | some (digits, rest) =>
      match exponent? rest with
      | none => none
      | some (exponent, rest) => some (numeral negative whole digits exponent, rest)

/-- Reads the token that starts at the head of a text without leading blanks. -/
def token? : List Char → Option (Token × List Char)
  | [] => none
  | '{' :: rest => some (.openBrace, rest)
  | '}' :: rest => some (.closeBrace, rest)
  | '[' :: rest => some (.openBracket, rest)
  | ']' :: rest => some (.closeBracket, rest)
  | ',' :: rest => some (.comma, rest)
  | ':' :: rest => some (.colon, rest)
  | '"' :: rest =>
    (quoted? rest).map fun (pieces, rest) =>
      match join? pieces with
      | some chars => (.text (String.ofList chars), rest)
      | none => (.unpairedText, rest)
  | 'n' :: 'u' :: 'l' :: 'l' :: rest => some (.scalar .null, rest)
  | 't' :: 'r' :: 'u' :: 'e' :: rest => some (.scalar (.bool true), rest)
  | 'f' :: 'a' :: 'l' :: 's' :: 'e' :: rest => some (.scalar (.bool false), rest)
  | '-' :: rest => (unsigned? true rest).map fun (n, rest) => (.scalar (.number n), rest)
  | c :: rest => (unsigned? false (c :: rest)).map fun (n, rest) => (.scalar (.number n), rest)

theorem length_dropWhile_le {α : Type} (p : α → Bool) (l : List α) :
    (l.dropWhile p).length ≤ l.length := by
  induction l with
  | nil => simp
  | cons a l ih =>
    simp only [List.dropWhile_cons]
    split
    · exact Nat.le_succ_of_le ih
    · exact Nat.le_refl _

theorem length_quoted_lt {cs : List Char} {pieces : List Piece} {rest : List Char}
    (h : quoted? cs = some (pieces, rest)) : rest.length < cs.length := by
  fun_induction quoted? cs generalizing pieces rest with
  | case1 => cases h
  | _ => simp only [List.length_cons]; grind

theorem length_fraction_le {cs rest : List Char} {digits : Option (List Char)}
    (h : fraction? cs = some (digits, rest)) : rest.length ≤ cs.length := by
  unfold fraction? at h
  split at h
  · next r =>
    have := length_dropWhile_le Char.isDigit r
    simp only [List.length_cons]
    grind
  · grind

theorem length_exponentSign_le (cs : List Char) : (exponentSign cs).2.length ≤ cs.length := by
  unfold exponentSign
  split <;> simp

theorem length_exponent_le {cs rest : List Char} {n : Option Int}
    (h : exponent? cs = some (n, rest)) : rest.length ≤ cs.length := by
  unfold exponent? at h
  split at h
  · grind
  · next c r =>
    have h1 := length_exponentSign_le r
    have h2 := length_dropWhile_le Char.isDigit (exponentSign r).2
    simp only [List.length_cons]
    grind

theorem length_unsigned_lt {negative : Bool} {cs rest : List Char} {n : Numeral}
    (h : unsigned? negative cs = some (n, rest)) : rest.length < cs.length := by
  unfold unsigned? at h
  have hsplit : cs.takeWhile Char.isDigit ++ cs.dropWhile Char.isDigit = cs :=
    List.takeWhile_append_dropWhile
  have hlen := congrArg List.length hsplit
  rw [List.length_append] at hlen
  cases hw : cs.takeWhile Char.isDigit with
  | nil => simp [hw] at h
  | cons d ds =>
    rw [hw, List.length_cons] at hlen
    simp only [hw] at h
    split at h
    · grind
    · split at h
      · grind
      · next hf =>
        have h1 := length_fraction_le hf
        split at h
        · grind
        · next he =>
          have h2 := length_exponent_le he
          grind

theorem length_token_lt {cs rest : List Char} {t : Token} (h : token? cs = some (t, rest)) :
    rest.length < cs.length := by
  unfold token? at h
  split at h
  case h_1 => cases h
  all_goals simp only [List.length_cons]
  case h_8 r =>
    simp only [Option.map_eq_some_iff] at h
    obtain ⟨⟨pieces, r'⟩, hq, ht⟩ := h
    have := length_quoted_lt hq
    split at ht <;> grind
  case h_12 r =>
    simp only [Option.map_eq_some_iff] at h
    obtain ⟨⟨n, r'⟩, hn, ht⟩ := h
    have := length_unsigned_lt hn
    grind
  case h_13 c r _ _ _ _ _ _ _ _ _ _ _ =>
    simp only [Option.map_eq_some_iff] at h
    obtain ⟨⟨n, r'⟩, hn, ht⟩ := h
    have := length_unsigned_lt hn
    simp only [List.length_cons] at this
    grind
  all_goals grind

/-- The tokens of a text, if all of it is made of tokens and blanks. -/
def tokens? : List Char → Option (List Token)
  | [] => some []
  | c :: cs =>
    if isBlank c then tokens? cs
    else
      match h : token? (c :: cs) with
      | none => none
      | some (t, rest) =>
        have := length_token_lt h
        (tokens? rest).map (t :: ·)
termination_by cs => cs.length
decreasing_by
  · exact Nat.lt_succ_self cs.length
  · exact this

end DocSync.Json
