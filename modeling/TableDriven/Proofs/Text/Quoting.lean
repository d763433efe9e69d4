import Mathlib.Data.List.Basic
import TableDriven.Text.Quoted

/-!
# Quoted text is read back in one way

A quoted text shows on one line what it holds, and what it holds can be read off again without
knowing where it ends. Every character is written in one of three ways: as itself, by a backslash
and a letter, or by its code point in braces. The first character that is written tells whether
it is the first way, the second tells the other two apart, and the brace ends the code point. So
no text is written like the beginning of another, and the mark at the end is no character of the
text.

The numbers in between, code points in hexadecimal and lines in decimal, have one way of being
written as well.
-/

namespace TableDriven.Text

/-- A list is split in one way at the first place where a value stands. -/
theorem split_unique {α : Type} {value : α} {before other after rest : List α}
    (absent : value ∉ before) (missing : value ∉ other)
    (same : before ++ value :: after = other ++ value :: rest) :
    before = other ∧ after = rest := by
  induction before generalizing other with
  | nil =>
    cases other with
    | nil => exact ⟨rfl, (List.cons.inj same).2⟩
    | cons first others =>
      obtain rfl : value = first := (List.cons.inj same).1
      exact absurd List.mem_cons_self missing
  | cons first firsts inductionHypothesis =>
    cases other with
    | nil =>
      obtain rfl : first = value := (List.cons.inj same).1
      exact absurd List.mem_cons_self absent
    | cons other others =>
      obtain ⟨rfl, further⟩ := List.cons.inj same
      obtain ⟨rfl, rests⟩ := inductionHypothesis
        (fun member => absent (List.mem_cons_of_mem _ member))
        (fun member => missing (List.mem_cons_of_mem _ member)) further
      exact ⟨rfl, rests⟩

/-- The digits of a number are those of smaller numbers than the base. -/
theorem mem_toDigits {base : Nat} (many : 1 < base) (number : Nat) {digit : Char}
    (member : digit ∈ Nat.toDigits base number) :
    ∃ value < base, digit = Nat.digitChar value := by
  induction number using Nat.strongRecOn with
  | ind number inductionHypothesis =>
    rw [Nat.toDigits_eq_if many] at member
    by_cases small : number < base
    · rw [if_pos small, List.mem_singleton] at member
      exact ⟨number, small, member⟩
    · rw [if_neg small, List.mem_append, List.mem_singleton] at member
      rcases member with leading | last
      · exact inductionHypothesis (number / base) (Nat.div_lt_self (by omega) many) leading
      · exact ⟨number % base, Nat.mod_lt number (by omega), last⟩

/-- Sixteen digits are told apart. -/
theorem digitChar_injective : ∀ value < 16, ∀ other < 16,
    Nat.digitChar value = Nat.digitChar other → value = other := by
  decide

/-- A number below the base is written unlike one that is not. -/
theorem toDigits_ne_of_lt {base : Nat} (many : 1 < base) {small large : Nat}
    (below : small < base) (above : base ≤ large) :
    Nat.toDigits base small ≠ Nat.toDigits base large := by
  intro same
  have lengths := congrArg List.length same
  have leading : 0 < (Nat.toDigits base (large / base)).length := Nat.length_toDigits_pos
  rw [Nat.toDigits_of_lt_base below, Nat.toDigits_of_base_le many above, List.length_append,
    List.length_singleton, List.length_singleton] at lengths
  omega

/-- A number has one way of being written to a base of at most sixteen. Induct on the number: its
last digit is its remainder, and the digits before are its quotient. -/
theorem toDigits_injective {base : Nat} (many : 1 < base) (few : base ≤ 16) :
    Function.Injective (Nat.toDigits base) := by
  intro number other same
  induction number using Nat.strongRecOn generalizing other with
  | ind number inductionHypothesis =>
    by_cases small : number < base
    · by_cases tiny : other < base
      · rw [Nat.toDigits_of_lt_base small, Nat.toDigits_of_lt_base tiny, List.singleton_inj] at same
        exact digitChar_injective number (by omega) other (by omega) same
      · exact absurd same (toDigits_ne_of_lt many small (Nat.le_of_not_lt tiny))
    · by_cases tiny : other < base
      · exact absurd same.symm (toDigits_ne_of_lt many tiny (Nat.le_of_not_lt small))
      · rw [Nat.toDigits_of_base_le many (Nat.le_of_not_lt small),
          Nat.toDigits_of_base_le many (Nat.le_of_not_lt tiny)] at same
        obtain ⟨quotients, digits⟩ := List.append_inj' same rfl
        have less : number / base < number := Nat.div_lt_self (by omega) many
        have quotient : number / base = other / base := inductionHypothesis _ less quotients
        have inside (large : Nat) : large % base < 16 :=
          Nat.lt_of_lt_of_le (Nat.mod_lt large (by omega)) few
        have remainder : number % base = other % base :=
          digitChar_injective _ (inside number) _ (inside other) (List.singleton_inj.mp digits)
        rw [← Nat.div_add_mod number base, ← Nat.div_add_mod other base, quotient, remainder]

/-- What is no digit does not occur in a number. -/
theorem notMem_toDigits {base : Nat} (many : 1 < base) (few : base ≤ 16) {character : Char}
    (foreign : ∀ value < 16, character ≠ Nat.digitChar value) (number : Nat) :
    character ∉ Nat.toDigits base number := by
  intro member
  obtain ⟨value, small, rfl⟩ := mem_toDigits many number member
  exact foreign value (Nat.lt_of_lt_of_le small few) rfl

/-- The characters that are written by a backslash and a letter in quoted text, with the
letter. -/
def letters : List (Char × Char) :=
  [('"', '"'), ('\\', '\\'), ('\n', 'n'), ('\r', 'r'), ('\t', 't'), (Char.ofNat 0, '0')]

/-- The ways in which a character is written in quoted text. -/
inductive Written : Char → List Char → Prop where
  /-- As itself. -/
  | shown (character : Char) (unmarked : character ≠ '"') (unslashed : character ≠ '\\')
      (inline : character ≠ '\n') : Written character [character]
  /-- By a letter. -/
  | lettered (character letter : Char) (listed : (character, letter) ∈ letters) :
      Written character ['\\', letter]
  /-- By its code point. -/
  | coded (character : Char) :
      Written character ('\\' :: 'u' :: '\x7b' :: hexDigits character.toNat ++ ['\x7d'])

/-- Every character is written in one of these ways. -/
theorem written_escaped (character : Char) : Written character (escaped '"' character) := by
  unfold escaped
  split
  · rename_i mark
    rw [mark]
    exact .lettered _ _ (by decide)
  · rename_i unmarked
    split
    · rename_i slash
      rw [slash]
      exact .lettered _ _ (by decide)
    · rename_i unslashed
      split
      · rename_i ends
        rw [ends]
        exact .lettered _ _ (by decide)
      · rename_i inline
        split
        · rename_i returns
          rw [returns]
          exact .lettered _ _ (by decide)
        · split
          · rename_i tab
            rw [tab]
            exact .lettered _ _ (by decide)
          · split
            · rename_i zero
              have none : character = Char.ofNat 0 := by
                rw [← Char.ofNat_toNat character, zero]
              rw [none]
              exact .lettered _ _ (by decide)
            · split
              · exact .coded character
              · exact .shown character unmarked unslashed inline

namespace Written

variable {character other : Char} {form shape rest others : List Char}

/-- No character is written like the beginning of what another is written like. -/
theorem unique (one : Written character form) (two : Written other shape)
    (same : form ++ rest = shape ++ others) : character = other ∧ rest = others := by
  have unlike : ∀ pair ∈ letters, pair.2 ≠ 'u' := by decide
  cases one with
  | shown unmarked unslashed inline =>
    cases two with
    | shown => exact List.cons.inj same
    | lettered letter listed => exact absurd (List.cons.inj same).1 unslashed
    | coded => exact absurd (List.cons.inj same).1 unslashed
  | lettered letter listed =>
    cases two with
    | shown unmarked unslashed inline => exact absurd (List.cons.inj same).1.symm unslashed
    | lettered letter' listed' =>
      have apart : ∀ pair ∈ letters, ∀ pair' ∈ letters, pair.2 = pair'.2 → pair.1 = pair'.1 := by
        decide
      obtain ⟨same, rests⟩ := List.cons.inj (List.cons.inj same).2
      exact ⟨apart _ listed _ listed' same, rests⟩
    | coded => exact absurd (List.cons.inj (List.cons.inj same).2).1 (unlike _ listed)
  | coded =>
    cases two with
    | shown unmarked unslashed inline => exact absurd (List.cons.inj same).1.symm unslashed
    | lettered letter listed =>
      exact absurd (List.cons.inj (List.cons.inj same).2).1.symm (unlike _ listed)
    | coded =>
      have closing (code : Nat) : '\x7d' ∉ hexDigits code :=
        notMem_toDigits (by decide) (by decide) (by decide) code
      have codes : hexDigits character.toNat ++ '\x7d' :: rest =
          hexDigits other.toNat ++ '\x7d' :: others := by
        simpa using same
      obtain ⟨digits, rests⟩ := split_unique (closing _) (closing _) codes
      have code : character.toNat = other.toNat :=
        toDigits_injective (by decide) (by decide) digits
      exact ⟨Char.toNat_inj.mp code, rests⟩

/-- No character is written like the mark at the end. -/
theorem ne_mark (written : Written character form) : form ++ rest ≠ '"' :: others := by
  intro same
  cases written with
  | shown unmarked unslashed inline => exact unmarked (List.cons.inj same).1
  | lettered letter listed => exact absurd (List.cons.inj same).1 (by decide)
  | coded => exact absurd (List.cons.inj same).1 (by decide)

/-- No character is written with a line end. -/
theorem newline_notMem (written : Written character form) : '\n' ∉ form := by
  cases written with
  | shown unmarked unslashed inline =>
    rw [List.mem_singleton]
    exact inline.symm
  | lettered letter listed =>
    have flat : ∀ pair ∈ letters, '\n' ∉ ['\\', pair.2] := by decide
    exact flat _ listed
  | coded =>
    have digits : '\n' ∉ hexDigits character.toNat :=
      notMem_toDigits (by decide) (by decide) (by decide) _
    simp [digits]

end Written

/-- Characters that are written one after the other, up to the mark at the end, are read off in
one way. Induct on the characters. -/
theorem flatMap_escaped_unique {characters others : List Char} {rest further : List Char}
    (same : characters.flatMap (escaped '"') ++ '"' :: rest =
      others.flatMap (escaped '"') ++ '"' :: further) :
    characters = others ∧ rest = further := by
  induction characters generalizing others with
  | nil =>
    cases others with
    | nil => exact ⟨rfl, (List.cons.inj same).2⟩
    | cons other others =>
      rw [List.flatMap_cons, List.append_assoc] at same
      exact absurd same.symm (written_escaped other).ne_mark
  | cons character characters inductionHypothesis =>
    cases others with
    | nil =>
      rw [List.flatMap_cons, List.append_assoc] at same
      exact absurd same (written_escaped character).ne_mark
    | cons other others =>
      rw [List.flatMap_cons, List.flatMap_cons, List.append_assoc, List.append_assoc] at same
      obtain ⟨rfl, tails⟩ := (written_escaped character).unique (written_escaped other) same
      obtain ⟨rfl, rests⟩ := inductionHypothesis tails
      exact ⟨rfl, rests⟩

/-- A text is read off its quoted form, whatever follows, behind anything without the mark. -/
theorem quoted_unique {text other : String} {before earlier rest further : List Char}
    (unmarked : '"' ∉ before) (free : '"' ∉ earlier)
    (same : before ++ (quoted text).toList ++ rest = earlier ++ (quoted other).toList ++ further) :
    before = earlier ∧ text = other ∧ rest = further := by
  simp only [quoted, String.toList_ofList, List.cons_append, List.append_assoc,
    List.nil_append] at same
  obtain ⟨starts, behind⟩ := split_unique unmarked free same
  obtain ⟨characters, rests⟩ := flatMap_escaped_unique behind
  exact ⟨starts, String.toList_inj.mp characters, rests⟩

/-- A quoted text has no line end. -/
theorem newline_notMem_quoted (text : String) : '\n' ∉ (quoted text).toList := by
  rw [quoted, String.toList_ofList, List.mem_cons, List.mem_append, List.mem_flatMap]
  rintro (mark | ⟨character, -, inside⟩ | mark)
  · exact absurd mark (by decide)
  · exact (written_escaped character).newline_notMem inside
  · exact absurd mark (by decide)

end TableDriven.Text
