import DocSync.Document
import DocSync.Proofs.TextRows
import Mathlib.Data.Set.Card
import Mathlib.Order.Interval.Finset.Nat

/-!
How a text is parted into lines by its breaks. There is one way only to part a text into lines that
hold no break, and the lines of a text are that way; so a text that is hidden above a slice counts
one line less than it shows when it stands alone.
-/

namespace DocSync

namespace Text

variable {c : Char} {text rest line b : List Char} {ls bs : List (List Char)} {l : Line}

def IsEnding (b : List Char) : Prop := b = ['\n'] ∨ b = ['\r'] ∨ b = ['\r', '\n']

/-- Takes off the line feed at the end of a line, then the carriage return at the end. -/
def trimBreak (line : List Char) : List Char :=
  let line := if line.getLast? = some '\n' then line.dropLast else line
  if line.getLast? = some '\r' then line.dropLast else line

/-- Each line with the break that ends it; the last line has none. -/
def weave (ls bs : List (List Char)) : List Char :=
  (List.zipWith (· ++ ·) ls (bs ++ [[]])).flatten

/-- The breaks of a text, in their order. -/
def breaks (text : List Char) : List (List Char) := (lines text).dropLast.map Line.ending

/-- The text consists of the lines with the breaks between them. A carriage return that is a break
of its own has no line feed behind it in the text. -/
structure Parted (text : List Char) (ls bs : List (List Char)) : Prop where
  count : ls.length = bs.length + 1
  woven : weave ls bs = text
  unbroken : ∀ line ∈ ls, ∀ c ∈ line, c ≠ '\n' ∧ c ≠ '\r'
  endings : ∀ b ∈ bs, IsEnding b
  whole : ∀ i, bs[i]? = some ['\r'] →
    text[(weave (ls.take (i + 1)) (bs.take i)).length + 1]? ≠ some '\n'

theorem isEnding_single (hc : isBreak c = true) : IsEnding [c] := by
  rcases isBreak_iff.mp hc with rfl | rfl
  · exact Or.inl rfl
  · exact Or.inr (Or.inl rfl)

theorem isBreak_eq_false : isBreak c = false ↔ c ≠ '\n' ∧ c ≠ '\r' := by
  rw [← Bool.not_eq_true, isBreak_iff, not_or]

theorem lines_ending (hb : IsEnding b) (hw : b = ['\r'] → rest.head? ≠ some '\n') :
    lines (b ++ rest) = ⟨[], b⟩ :: lines rest := by
  rcases hb with rfl | rfl | rfl
  · exact lines_single (by decide) (meet_of_last (by decide) rest)
  · exact lines_single (by decide) fun hm => hw rfl hm.2
  · exact lines_pair rest

theorem lines_line (hline : ∀ c ∈ line, c ≠ '\n' ∧ c ≠ '\r') (hb : IsEnding b)
    (hw : b = ['\r'] → rest.head? ≠ some '\n') :
    lines (line ++ (b ++ rest)) = ⟨line, b⟩ :: lines rest := by
  induction line with
  | nil => exact lines_ending hb hw
  | cons c line ih =>
    have hc : isBreak c = false := isBreak_eq_false.mpr (hline c List.mem_cons_self)
    rw [List.cons_append, lines_other hc, ih fun c hc => hline c (List.mem_cons_of_mem _ hc)]
    rfl

theorem lines_of_unbroken (hline : ∀ c ∈ line, c ≠ '\n' ∧ c ≠ '\r') :
    lines line = [⟨line, []⟩] := by
  induction line with
  | nil => rw [lines]
  | cons c line ih =>
    have hc : isBreak c = false := isBreak_eq_false.mpr (hline c List.mem_cons_self)
    rw [lines_other hc, ih fun c hc => hline c (List.mem_cons_of_mem _ hc)]
    rfl

/-- The content of a line holds no break, and it ends in a whole one or in none. -/
theorem content_and_ending (hl : l ∈ lines text) :
    (∀ c ∈ l.content, c ≠ '\n' ∧ c ≠ '\r') ∧ (l.ending = [] ∨ IsEnding l.ending) := by
  have hempty : ∀ c ∈ ([] : List Char), c ≠ '\n' ∧ c ≠ '\r' := List.forall_mem_nil _
  induction text using break_induction generalizing l with
  | nil =>
    rw [lines] at hl
    obtain rfl := List.mem_singleton.mp hl
    exact ⟨hempty, Or.inl rfl⟩
  | pair rest ih =>
    rw [lines_pair] at hl
    rcases List.mem_cons.mp hl with rfl | hl
    · exact ⟨hempty, Or.inr (Or.inr (Or.inr rfl))⟩
    · exact ih hl
  | single c rest hc hm ih =>
    rw [lines_single hc hm] at hl
    rcases List.mem_cons.mp hl with rfl | hl
    · exact ⟨hempty, Or.inr (isEnding_single hc)⟩
    · exact ih hl
  | other c rest hc ih =>
    obtain ⟨first, others, hrest⟩ := lines_eq_cons rest
    rw [lines_other hc, hrest, consFirst] at hl
    rcases List.mem_cons.mp hl with rfl | hl
    · obtain ⟨hcontent, hending⟩ := ih (l := first) (by rw [hrest]; exact List.mem_cons_self)
      refine ⟨?_, hending⟩
      intro d hd
      rcases List.mem_cons.mp hd with rfl | hd
      · exact isBreak_eq_false.mp hc
      · exact hcontent d hd
    · exact ih (by rw [hrest]; exact List.mem_cons_of_mem _ hl)

theorem trimBreak_chars (hl : l ∈ lines text) : trimBreak l.chars = l.content := by
  obtain ⟨hcontent, hending⟩ := content_and_ending hl
  have hlf : l.content.getLast? ≠ some '\n' := by
    intro h
    exact (hcontent _ (List.mem_of_getLast? h)).1 rfl
  have hcr : l.content.getLast? ≠ some '\r' := by
    intro h
    exact (hcontent _ (List.mem_of_getLast? h)).2 rfl
  have hpair : l.content ++ ['\r', '\n'] = (l.content ++ ['\r']) ++ ['\n'] :=
    (List.append_cons _ _ _)
  rw [Line.chars, trimBreak]
  rcases hending with he | he | he | he
  · rw [he, List.append_nil, if_neg hlf, if_neg hcr]
  · rw [he, List.getLast?_concat, if_pos rfl, List.dropLast_concat, if_neg hcr]
  · simp [he]
  · rw [he, hpair, List.getLast?_concat, if_pos rfl, List.dropLast_concat, List.getLast?_concat,
      if_pos rfl, List.dropLast_concat]

theorem row?_trimBreak (text : List Char) (row : Nat) :
    row? text row = (lines text)[row]?.map fun l => trimBreak l.chars := by
  rw [row?]
  cases hl : (lines text)[row]? with
  | none => rfl
  | some l => rw [Option.map_some, Option.map_some, trimBreak_chars (List.mem_of_getElem? hl)]

theorem weave_single (line : List Char) : weave [line] [] = line := by
  simp [weave]

theorem weave_cons (line b : List Char) (ls bs : List (List Char)) :
    weave (line :: ls) (b :: bs) = line ++ (b ++ weave ls bs) := by
  simp [weave]

theorem parted_single (hline : ∀ c ∈ line, c ≠ '\n' ∧ c ≠ '\r') : Parted line [line] [] where
  count := rfl
  woven := weave_single line
  unbroken other ho := by
    obtain rfl := List.mem_singleton.mp ho
    exact hline
  endings b hb := absurd hb List.not_mem_nil
  whole i hi := by cases hi

theorem getElem?_behind_first (line rest : List Char) (ls bs : List (List Char)) (c : Char) :
    (line ++ ([c] ++ rest))[(weave ((line :: ls).take 1) (bs.take 0)).length + 1]? =
      rest.head? := by
  rw [List.take_succ_cons, List.take_zero, List.take_zero, weave_single,
    List.getElem?_append_right (Nat.le_succ _), Nat.succ_sub (Nat.le_refl _), Nat.sub_self]
  exact List.head?_eq_getElem?.symm

theorem getElem?_behind_later (line b rest : List Char) (ls bs : List (List Char)) (i : Nat) :
    (line ++ (b ++ rest))[
        (weave ((line :: ls).take (i + 2)) ((b :: bs).take (i + 1))).length + 1]? =
      rest[(weave (ls.take (i + 1)) (bs.take i)).length + 1]? := by
  rw [List.take_succ_cons, List.take_succ_cons, weave_cons, ← List.append_assoc line,
    ← List.append_assoc line, List.length_append, Nat.add_assoc,
    List.getElem?_append_right (Nat.le_add_right _ _), Nat.add_sub_cancel_left]

/-- What follows the first break is parted by the other ones. -/
theorem parted_cons : Parted text (line :: ls) (b :: bs) ↔
    (∀ c ∈ line, c ≠ '\n' ∧ c ≠ '\r') ∧ IsEnding b ∧
      ∃ rest, text = line ++ (b ++ rest) ∧ (b = ['\r'] → rest.head? ≠ some '\n') ∧
        Parted rest ls bs := by
  constructor
  · intro h
    have htext : text = line ++ (b ++ weave ls bs) := h.woven.symm.trans (weave_cons line b ls bs)
    refine ⟨h.unbroken line List.mem_cons_self, h.endings b List.mem_cons_self, weave ls bs, htext,
      ?_, Nat.succ.inj h.count, rfl, ?_, ?_, ?_⟩
    · rintro rfl
      have hwhole := h.whole 0 rfl
      rwa [htext, getElem?_behind_first] at hwhole
    · intro other ho
      exact h.unbroken other (List.mem_cons_of_mem _ ho)
    · intro e he
      exact h.endings e (List.mem_cons_of_mem _ he)
    · intro i hi
      have hwhole := h.whole (i + 1) hi
      rwa [htext, getElem?_behind_later] at hwhole
  · rintro ⟨hline, hending, rest, rfl, hw, h⟩
    refine ⟨congrArg Nat.succ h.count, by rw [weave_cons, h.woven], ?_, ?_, ?_⟩
    · intro other ho
      rcases List.mem_cons.mp ho with rfl | ho
      · exact hline
      · exact h.unbroken other ho
    · intro e he
      rcases List.mem_cons.mp he with rfl | he
      · exact hending
      · exact h.endings e he
    · intro i hi
      cases i with
      | zero =>
        obtain rfl := Option.some.inj hi
        rw [getElem?_behind_first]
        exact hw rfl
      | succ i =>
        rw [getElem?_behind_later]
        exact h.whole i hi

theorem Parted.cons (h : Parted rest ls bs) (hc : isBreak c = false) :
    Parted (c :: rest) (ls.modifyHead (c :: ·)) bs := by
  have hfirst (line : List Char) (hline : ∀ d ∈ line, d ≠ '\n' ∧ d ≠ '\r') :
      ∀ d ∈ c :: line, d ≠ '\n' ∧ d ≠ '\r' := by
    intro d hd
    rcases List.mem_cons.mp hd with rfl | hd
    · exact isBreak_eq_false.mp hc
    · exact hline d hd
  have hcount := h.count
  cases ls with
  | nil => cases hcount
  | cons line ls =>
    rw [List.modifyHead_cons]
    cases bs with
    | nil =>
      obtain rfl := List.length_eq_zero_iff.mp (Nat.succ.inj hcount)
      obtain rfl : line = rest := (weave_single line).symm.trans h.woven
      exact parted_single (hfirst line (h.unbroken line List.mem_cons_self))
    | cons b bs =>
      obtain ⟨hline, hb, later, rfl, hw, hlater⟩ := parted_cons.mp h
      exact parted_cons.mpr ⟨hfirst line hline, hb, later, rfl, hw, hlater⟩

theorem breaks_cons (hl : lines text = l :: lines rest) :
    breaks text = l.ending :: breaks rest := by
  obtain ⟨first, others, hrest⟩ := lines_eq_cons rest
  rw [breaks, breaks, hl, hrest, List.dropLast_cons_cons, List.map_cons]

theorem breaks_other (hc : isBreak c = false) (rest : List Char) :
    breaks (c :: rest) = breaks rest := by
  obtain ⟨first, others, hrest⟩ := lines_eq_cons rest
  rw [breaks, breaks, lines_other hc, hrest, consFirst]
  cases others <;> rfl

theorem parted_rows (text : List Char) : Parted text (rows text) (breaks text) := by
  have hempty : ∀ c ∈ ([] : List Char), c ≠ '\n' ∧ c ≠ '\r' := List.forall_mem_nil _
  induction text using break_induction with
  | nil => exact parted_single hempty
  | pair rest ih =>
    rw [rows_pair, breaks_cons (lines_pair rest)]
    refine parted_cons.mpr ⟨hempty, Or.inr (Or.inr rfl), rest, rfl, ?_, ih⟩
    intro hb
    cases hb
  | single c rest hc hm ih =>
    rw [rows_single hc hm, breaks_cons (lines_single hc hm)]
    refine parted_cons.mpr ⟨hempty, isEnding_single hc, rest, rfl, ?_, ih⟩
    intro hcr hlf
    exact hm ⟨congrArg List.getLast? hcr, hlf⟩
  | other c rest hc ih =>
    rw [rows_other hc, breaks_other hc]
    exact ih.cons hc

theorem Parted.unique (h : Parted text ls bs) : ls = rows text ∧ bs = breaks text := by
  induction bs generalizing text ls with
  | nil =>
    obtain ⟨line, rfl⟩ := List.length_eq_one_iff.mp h.count
    obtain rfl : line = text := (weave_single line).symm.trans h.woven
    have hlines := lines_of_unbroken (h.unbroken line List.mem_cons_self)
    rw [rows, breaks, hlines]
    exact ⟨rfl, rfl⟩
  | cons b bs ih =>
    obtain ⟨line, others, rfl⟩ := List.exists_cons_of_length_eq_add_one h.count
    obtain ⟨hline, hb, rest, rfl, hw, hrest⟩ := parted_cons.mp h
    have hlines := lines_line hline hb hw
    have hrows : rows (line ++ (b ++ rest)) = line :: rows rest := by
      rw [rows, hlines, List.map_cons, rows]
    obtain ⟨rfl, rfl⟩ := ih hrest
    exact ⟨hrows.symm, (breaks_cons hlines).symm⟩

end Text

namespace Document

open Text

variable {d : Document} {text : List Char} {n : Count}

theorem lineOffset_toNat (hlength : d.before.length < 2 ^ 32 - 1) :
    d.lineOffset.toNat = breakCount d.before := by
  have hle := breakCount_le d.before
  rw [lineOffset, Count.toNat_clamp]
  omega

theorem line?_standalone (text : List Char) (n : Count) :
    (standalone text).line? n = if n = 0 then none else (rows text)[n.toNat - 1]? := by
  rw [line?, row?_eq]
  rfl

theorem line?_isSome_iff :
    ((standalone text).line? n).isSome ↔ 1 ≤ n.toNat ∧ n.toNat ≤ breakCount text + 1 := by
  rw [line?_standalone]
  by_cases hn : n = 0
  · simp [hn]
  · have hpos : n.toNat ≠ 0 := by
      intro h
      exact hn (UInt32.toNat_inj.mp h)
    rw [if_neg hn, Option.isSome_iff_ne_none, ne_eq, List.getElem?_eq_none_iff, length_rows]
    omega

/-- The line counts of a text that stands alone and of one that is hidden above a slice, and the
lines that the text consists of. -/
structure CountsLines (text : List Char) : Prop where
  counted : ∀ d : Document, d.before = text →
    {n | ((standalone text).line? n).isSome}.ncard = d.lineOffset.toNat + 1
  gapless : ∀ d : Document, d.before = text → ∀ n,
    ((standalone text).line? n).isSome ↔ 1 ≤ n.toNat ∧ n.toNat ≤ d.lineOffset.toNat + 1
  /-- A line is read by taking the break off its end. -/
  trimmed : ∀ n, (standalone text).line? n =
    if n = 0 then none else (lines text)[n.toNat - 1]?.map fun l => trimBreak l.chars
  /-- The text is parted into its lines, and in no other way. -/
  parted : ∃ ls bs,
    (∀ n, (standalone text).line? n = if n = 0 then none else ls[n.toNat - 1]?) ∧
      Parted text ls bs ∧ ∀ ls' bs', Parted text ls' bs' → ls' = ls ∧ bs' = bs

theorem ncard_lines (hlength : text.length < 2 ^ 32 - 1) :
    {n | ((standalone text).line? n).isSome}.ncard = breakCount text + 1 := by
  have hle := breakCount_le text
  have hsmall {i : Nat} (hi : i ∈ Finset.Icc 1 (breakCount text + 1)) : i < UInt32.size := by
    have hbound := (Finset.mem_Icc.mp hi).2
    change i < 2 ^ 32
    omega
  have himage : {n | ((standalone text).line? n).isSome} =
      UInt32.ofNat '' ↑(Finset.Icc 1 (breakCount text + 1)) := by
    ext n
    rw [Set.mem_ofPred_eq, line?_isSome_iff]
    constructor
    · intro hn
      exact ⟨n.toNat, Finset.mem_coe.mpr (Finset.mem_Icc.mpr hn), UInt32.ofNat_toNat⟩
    · rintro ⟨i, hi, rfl⟩
      rw [UInt32.toNat_ofNat_of_lt' (hsmall hi)]
      exact Finset.mem_Icc.mp hi
  rw [himage, Set.InjOn.ncard_image, Set.ncard_coe_finset, Nat.card_Icc]
  · exact Nat.add_sub_cancel _ 1
  · intro i hi j hj he
    have hnat := congrArg UInt32.toNat he
    rwa [UInt32.toNat_ofNat_of_lt' (hsmall hi), UInt32.toNat_ofNat_of_lt' (hsmall hj)] at hnat

/-- A text hides one line less than it shows, its lines are numbered without a gap, and with the
breaks between them they are the text. -/
theorem line_counts_agree (text : List Char) (hlength : text.length < 2 ^ 32 - 1) :
    CountsLines text where
  counted d hd := by
    subst hd
    rw [ncard_lines hlength, lineOffset_toNat hlength]
  gapless d hd n := by
    subst hd
    rw [line?_isSome_iff, lineOffset_toNat hlength]
  trimmed n := by
    rw [line?, row?_trimBreak]
    rfl
  parted := by
    refine ⟨rows text, breaks text, line?_standalone text, parted_rows text, ?_⟩
    intro ls bs h
    exact h.unique

/-- Two breaks after one another, a break of two characters between halves of others, and one at the
end. -/
def mixedEnds : List Char := "a\r\r\n\n\rb\r".toList

theorem mixed_ends_counted : mixedEnds.length < 2 ^ 32 - 1 ∧
    {n | ((standalone mixedEnds).line? n).isSome}.ncard = 6 ∧
    Parted mixedEnds [['a'], [], [], [], ['b'], []]
      [['\r'], ['\r', '\n'], ['\n'], ['\r'], ['\r']] := by
  have hlength : mixedEnds.length < 2 ^ 32 - 1 := by decide
  have hcounts := line_counts_agree mixedEnds hlength
  refine ⟨hlength, hcounts.counted ⟨mixedEnds, [], []⟩ rfl, ?_⟩
  obtain ⟨ls, bs, -, hparted, -⟩ := hcounts.parted
  obtain ⟨rfl, rfl⟩ := hparted.unique
  exact hparted

end Document

end DocSync
