import Mathlib.Data.List.DropRight
import Mathlib.Data.List.Infix
import TableDriven.Proofs.Calculator.Layout
import TableDriven.Proofs.Parsing.Recovery

/-!
# Block comments

What stands in a block comment is scanned like any other text, and the comment is closed by the
first token that closes comments. A star and a slash are that token wherever the scan gets to the
star. It does, unless a slash stands directly before the star and has not been taken together with
the slash before it: then the slash and the star open another comment. So a comment ends with the
first star that a slash stands behind, if an even number of slashes stands before that star.
-/

namespace TableDriven.Calculator

/-- What opens a block comment. -/
def opening : List UInt8 := [47, 42]

/-- What closes it. -/
def closing : List UInt8 := [42, 47]

/-- What can stand in a block comment: what closes it is found behind the body only. -/
def CommentBody (body : List UInt8) : Prop :=
  ∀ front rest, body ++ closing = front ++ closing ++ rest → rest = []

/-- A comment is closed behind its body only exactly if nothing closes it in the body and the star
behind that. -/
theorem commentBody_iff (body : List UInt8) :
    CommentBody body ↔ ¬ closing <:+: body ++ [42] := by
  have last : body ++ closing = (body ++ [42]) ++ [47] := by rw [List.append_assoc]; rfl
  constructor
  · rintro closed ⟨front, rest, early⟩
    have nothing := closed front (rest ++ [47]) (by rw [last, ← early, List.append_assoc])
    exact absurd nothing (List.append_ne_nil_of_right_ne_nil _ (List.cons_ne_nil _ _))
  · intro unclosed front rest split
    by_contra more
    rw [last, ← List.dropLast_append_getLast more, ← List.append_assoc] at split
    obtain ⟨early, -⟩ := List.append_inj' split rfl
    exact unclosed ⟨front, rest.dropLast, early.symm⟩

/-- Whether a text can stand in a comment is found out by looking for what closes comments. -/
instance (body : List UInt8) : Decidable (CommentBody body) :=
  decidable_of_iff _ (commentBody_iff body).symm

/-- The number of slashes at the end of a text. -/
def trailingSlashes (text : List UInt8) : Nat := (text.rtakeWhile (· == 47)).length

/-- Text that is not all slashes has those at its end for itself. -/
theorem trailingSlashes_append_of_other {text : List UInt8} (front : List UInt8)
    (other : ¬ ∀ byte ∈ text, byte = 47) :
    trailingSlashes (front ++ text) = trailingSlashes text := by
  have cut : (text.reverse.takeWhile (· == 47)).length ≠ text.reverse.length := by
    intro whole
    have all := List.takeWhile_eq_self_iff.mp
      ((List.takeWhile_prefix _).eq_of_length whole)
    exact other fun byte member => by simpa using all byte (List.mem_reverse.mpr member)
  rw [trailingSlashes, trailingSlashes, List.rtakeWhile, List.rtakeWhile, List.reverse_append,
    List.takeWhile_append, if_neg cut]

/-- Text that is all slashes adds them to those before it. -/
theorem trailingSlashes_append_of_slashes {text : List UInt8} (front : List UInt8)
    (slashes : ∀ byte ∈ text, byte = 47) :
    trailingSlashes (front ++ text) = trailingSlashes front + text.length := by
  have all : ∀ byte ∈ text.reverse, (byte == 47) = true := by
    intro byte member
    exact beq_iff_eq.mpr (slashes byte (List.mem_reverse.mp member))
  rw [trailingSlashes, trailingSlashes, List.rtakeWhile, List.rtakeWhile, List.reverse_append,
    List.takeWhile_append_of_pos all]
  simp only [List.length_reverse, List.length_append]
  omega

/-- No slashes are at the end of text without any. -/
theorem trailingSlashes_of_notMem {text : List UInt8} (none : 47 ∉ text) :
    trailingSlashes text = 0 := by
  have nothing : text.rtakeWhile (· == 47) = [] := by
    refine List.eq_nil_iff_forall_not_mem.mpr fun byte member => ?_
    have slash := List.mem_rtakeWhile_imp member
    rw [beq_iff_eq.mp slash] at member
    exact none ((List.rtakeWhile_suffix _ _).subset member)
  rw [trailingSlashes, nothing, List.length_nil]

namespace Begins

variable {recover : Bool} {word rest others body : List UInt8} {symbol : Symbol}

/-- A word is a mark with a star or a slash, or has neither. -/
theorem mark_or_plain (begins : Begins recover word rest symbol) :
    word ∈ marks.map Prod.fst ∨ 42 ∉ word ∧ 47 ∉ word := by
  cases begins with
  | spelled some spells =>
    have elsewhere : ∀ state ∈ plainStates, 42 ∉ bytesInto state ∧ 47 ∉ bytesInto state := by
      decide
    rcases spells_initial some spells with marked | ⟨plain, along⟩
    · exact .inl (List.mem_map_of_mem marked)
    · obtain ⟨star, slash⟩ := elsewhere _ plain
      exact .inr ⟨fun member => star (along _ member), fun member => slash (along _ member)⟩
  | faulty unknown =>
    refine .inr ⟨fun member => ?_, fun member => ?_⟩
    · rw [← List.mem_singleton.mp member] at unknown
      exact absurd unknown (by decide)
    · rw [← List.mem_singleton.mp member] at unknown
      exact absurd unknown (by decide)

/-- A slash is a word only if no star and no slash stands behind it. -/
theorem slash_alone (begins : Begins recover [47] rest symbol) : rest.headD 0 ∉ [42, 47] := by
  cases begins with
  | @spelled _ _ last _ _ some spells accepts named edgeless =>
    have goes : ∀ state ∈ dfaStates, state.id = 6 → ∀ byte ∈ [42, 47],
        grammar.firstEdge byte state.edges ≠ .ok none := by decide +kernel
    have listed := mem_of_spells initialState_mem spells
    have stands : last.id = 6 := by
      have only : ∀ entry ∈ marks, entry.1 = [47] → entry.2 = 6 := by decide
      have elsewhere : ∀ state ∈ plainStates, 47 ∉ bytesInto state := by decide
      rcases spells_initial some spells with marked | ⟨plain, along⟩
      · exact only _ marked rfl
      · exact absurd (along 47 List.mem_cons_self) (elsewhere _ plain)
    exact fun member => goes last listed stands _ member edgeless
  | faulty unknown => exact absurd unknown (by decide)

/-- No word reaches from a comment into what closes it, if an even number of slashes stands before
that. -/
theorem within_body (begins : Begins recover word others symbol)
    (split : body ++ (closing ++ rest) = word ++ others) (some : body ≠ [])
    (paired : trailingSlashes body % 2 = 0) :
    ∃ remaining, body = word ++ remaining ∧ others = remaining ++ (closing ++ rest) := by
  rcases List.append_eq_append_iff.mp split with ⟨more, rfl, tail⟩ | ⟨remaining, same, tail⟩
  · cases more with
    | nil => exact ⟨[], by simp, tail.symm⟩
    | cons byte more =>
      obtain ⟨rfl, -⟩ := List.cons.inj (tail : 42 :: (47 :: rest) = byte :: (more ++ others))
      -- Only the mark that opens a comment has a star behind its first byte.
      have only : ∀ mark ∈ marks.map Prod.fst, 42 ∈ mark.tail → mark = opening := by decide
      obtain ⟨first, body, rfl⟩ := List.exists_cons_of_ne_nil some
      rcases begins.mark_or_plain with marked | ⟨plain, -⟩
      · have opens := only _ marked (by simp)
        cases body with
        | nil =>
          obtain ⟨rfl, -⟩ := List.cons.inj opens
          exact absurd paired (by decide)
        | cons second body => simp [opening] at opens
      · exact absurd (by simp) plain
  · exact ⟨remaining, same, tail⟩

/-- What a comment begins with does not close it. What is left of the body behind that can stand
in a comment, too, and has as many slashes at its end or two less. -/
theorem within_comment (begins : Begins recover word (body ++ (closing ++ rest)) symbol)
    (closed : CommentBody (word ++ body)) (paired : trailingSlashes (word ++ body) % 2 = 0) :
    symbol.kind ≠ .commentEnd ∧ CommentBody body ∧ trailingSlashes body % 2 = 0 := by
  have unclosed : word ≠ closing := by
    intro same
    have nothing := closed [] (body ++ closing) (by rw [same, List.append_assoc]; rfl)
    simp [closing] at nothing
  refine ⟨fun ends => unclosed (begins.eq_of_commentEnd ends), ?_, ?_⟩
  · intro front others same
    refine closed (word ++ front) others ?_
    rw [List.append_assoc, same, List.append_assoc word, List.append_assoc word]
  · by_cases slashes : ∀ byte ∈ body, byte = 47
    · rw [trailingSlashes_append_of_slashes word slashes] at paired
      rw [show trailingSlashes body = body.length by
        simpa [trailingSlashes] using trailingSlashes_append_of_slashes [] slashes]
      have single : word ≠ [47] := by
        rintro rfl
        refine begins.slash_alone ?_
        cases body with
        | nil => exact List.mem_cons_self
        | cons byte body =>
          rw [slashes byte List.mem_cons_self]
          exact List.mem_cons_of_mem _ List.mem_cons_self
      have even : trailingSlashes word % 2 = 0 := by
        have counts : ∀ mark ∈ marks.map Prod.fst, mark ≠ [47] → mark ≠ closing →
            trailingSlashes mark % 2 = 0 := by decide
        rcases begins.mark_or_plain with marked | ⟨-, plain⟩
        · exact counts word marked single unclosed
        · rw [trailingSlashes_of_notMem plain]
      omega
    · rwa [trailingSlashes_append_of_other word slashes] at paired

end Begins

section

variable {recover : Bool} {source : ByteSource} {body rest : List UInt8}

/-- A star and a slash are what closes a comment. -/
theorem begins_closing (recover : Bool) (rest : List UInt8) :
    Begins recover closing rest ⟨Symbols.commentEnd, .commentEnd, "Comment End"⟩ :=
  .spelled (by decide) (.cons rfl rfl (.cons rfl rfl (.nil ⟨9, some Symbols.commentEnd, []⟩)))
    rfl rfl rfl

/-- A slash and a star are what opens one. -/
theorem begins_opening (recover : Bool) (rest : List UInt8) :
    Begins recover opening rest ⟨Symbols.commentStart, .commentStart, "Comment Start"⟩ :=
  .spelled (by decide) (.cons rfl rfl (.cons rfl rfl (.nil ⟨10, some Symbols.commentStart, []⟩)))
    rfl rfl rfl

/-- A comment is passed over as soon as it is open. Induct on the length of its body, one token
after the other. -/
theorem upcoming_past_body (closed : CommentBody body) (paired : trailingSlashes body % 2 = 0)
    (left : source.left = body ++ (closing ++ rest)) {depth : Nat} (inside : depth ≠ 0) :
    Upcoming grammar (errorSymbol recover) none depth source =
      Upcoming grammar (errorSymbol recover) none 0 (source.behind (body ++ closing)) := by
  generalize length : body.length = count
  induction count using Nat.strongRecOn generalizing body source depth with
  | ind count inductionHypothesis =>
    by_cases empty : body = []
    · subst empty
      have fate : (⟨⟨Symbols.commentEnd, .commentEnd, "Comment End"⟩, source.line,
          Text.lossy closing⟩ : Token).fate depth = .dropped 0 := by
        rw [Token.fate, if_neg inside]
      rw [(begins_closing recover rest).upcoming_eq left, Upcoming.hand_eq, fate]
      rfl
    · obtain ⟨word, others, symbol, split, begins⟩ := exists_begins recover
        (show body ++ (closing ++ rest) ≠ [] by simp [empty])
      obtain ⟨remaining, rfl, rfl⟩ := begins.within_body split empty paired
      obtain ⟨ordinary, unclosed, even⟩ := begins.within_comment closed paired
      obtain ⟨after, fate, deep⟩ :
          ∃ after, (⟨symbol, source.line, Text.lossy word⟩ : Token).fate depth = .dropped after ∧
            after ≠ 0 :=
        Token.fate_of_commented inside ordinary begins.kind_ne_endOfInput
      have passed := left.trans split
      have behind := ByteSource.left_advance passed
      have shorter : remaining.length < count := by
        have positive := List.length_pos_iff.mpr begins.ne_nil
        rw [List.length_append] at length
        omega
      rw [begins.upcoming_eq passed, Upcoming.hand_eq, fate, List.append_assoc,
        ByteSource.behind_append]
      exact inductionHypothesis remaining.length shorter unclosed even behind deep rfl

end

/-- A block comment is as good as a blank and the line ends in it, whatever stands behind it. Its
body does not contain what closes a comment, and has an even number of slashes at its end. -/
theorem comment_is_blank {body : List UInt8} (closed : CommentBody body)
    (paired : trailingSlashes body % 2 = 0) (rest : List UInt8) (options : Options) :
    SameOutcomes options (opening ++ body ++ closing ++ rest)
      (32 :: List.replicate (body.count newline) newline ++ rest) := by
  refine sameOutcomes_of_upcoming ?_
  generalize commented : ByteSource.ofBytes (opening ++ body ++ closing ++ rest).toArray = source
  generalize blanked : ByteSource.ofBytes
    (32 :: List.replicate (body.count newline) newline ++ rest).toArray = other
  have left : source.left = opening ++ (body ++ (closing ++ rest)) := by
    rw [← commented, ← List.append_assoc, ← List.append_assoc]
    rfl
  have whole : source.left = (opening ++ (body ++ closing)) ++ rest := by
    rw [left]
    simp only [List.append_assoc]
  have along : other.left = 32 :: List.replicate (body.count newline) newline ++ rest := by
    rw [← blanked]
    rfl
  have spaced : ∀ byte ∈ 32 :: List.replicate (body.count newline) newline, byte ∈ blanks := by
    refine List.forall_mem_cons.mpr ⟨by decide, fun byte member => ?_⟩
    rw [List.eq_of_mem_replicate member]
    decide
  have fate : (⟨⟨Symbols.commentStart, .commentStart, "Comment Start"⟩, source.line,
      Text.lossy opening⟩ : Token).fate 0 = .dropped 1 := rfl
  have count : (32 :: List.replicate (body.count newline) newline).count newline =
      (opening ++ (body ++ closing)).count newline := by
    have marks : opening.count newline = 0 ∧ closing.count newline = 0 := by decide
    rw [List.count_cons_of_ne (by decide), List.count_replicate_self, List.count_append,
      List.count_append, marks.1, marks.2, Nat.zero_add, Nat.add_zero]
  calc Upcoming grammar (errorSymbol options.recover) none 0 source
    _ = Upcoming grammar (errorSymbol options.recover) none 1 (source.behind opening) := by
      rw [(begins_opening _ _).upcoming_eq left, Upcoming.hand_eq, fate]
    _ = Upcoming grammar (errorSymbol options.recover) none 0
        (source.behind (opening ++ (body ++ closing))) := by
      rw [ByteSource.behind_append]
      exact upcoming_past_body closed paired (ByteSource.left_advance left) Nat.one_ne_zero
    _ = Upcoming grammar (errorSymbol options.recover) none 0
        (other.behind (32 :: List.replicate (body.count newline) newline)) := by
      refine upcoming_eq_of_alike (.behind_words ?_ ?_ ?_ whole along count) none 0
      · exact commented ▸ ByteSource.proper_ofBytes _
      · exact blanked ▸ ByteSource.proper_ofBytes _
      · rw [← commented, ← blanked, ByteSource.line_ofBytes, ByteSource.line_ofBytes]
    _ = Upcoming grammar (errorSymbol options.recover) none 0 other :=
      (upcoming_past_blanks along spaced 0).symm

/-- A comment with two slashes at its end is as good as a blank and the line end in it. -/
theorem comment_of_slashes_is_blank :
    SameOutcomes ⟨true, true⟩ [47, 42, 120, 10, 47, 47, 42, 47, 49] [32, 10, 49] := by
  have closed : CommentBody [120, 10, 47, 47] := by decide
  exact comment_is_blank closed (by decide) [49] ⟨true, true⟩

/-- One slash is a comment body, but not as good as a blank: with the star behind it, it opens the
comment again, which is not closed any more. -/
theorem comment_of_one_slash_is_no_blank :
    CommentBody [47] ∧
      parse (opening ++ [47] ++ closing ++ [49]).toArray ⟨false, false⟩ 10 =
        .failed (.parse (.unterminatedComment 1)) ∧
      ¬ SameOutcomes ⟨false, false⟩ (opening ++ [47] ++ closing ++ [49])
        (32 :: List.replicate ([47].count newline) newline ++ [49]) := by
  have failed : parse (opening ++ [47] ++ closing ++ [49]).toArray ⟨false, false⟩ 10 =
      .failed (.parse (.unterminatedComment 1)) := rfl
  refine ⟨by decide, failed, fun same => ?_⟩
  obtain ⟨limit, again⟩ := (same _ (by simp)).mp ⟨10, failed⟩
  have found : ∃ tree, parse #[32, 49] ⟨false, false⟩ 20 = .done tree := ⟨_, rfl⟩
  obtain ⟨tree, parsed⟩ := found
  have first : (parseWith grammar #[32, 49] ⟨false, false⟩ 20).outcome =
      Outcome.ofResult (.ok tree) := parse_eq_done.mp parsed
  have second : (parseWith grammar #[32, 49] ⟨false, false⟩ limit).outcome =
      Outcome.ofResult (.error (.error (.unterminatedComment 1))) := parse_eq_failed.mp again
  exact nomatch Parser.result_unique first second

end TableDriven.Calculator
