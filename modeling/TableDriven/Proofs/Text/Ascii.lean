import Mathlib.Data.List.Basic
import TableDriven.Text.Lossy

/-!
# Text in ASCII

An ASCII character is encoded as one byte and decoded from it, so decoding the bytes of an ASCII
text gives the text back.
-/

namespace TableDriven.Text

/-- The bytes that encode a text. -/
def bytes (text : String) : List UInt8 := text.toUTF8.data.toList

/-- The bytes of a text come from its characters. -/
theorem bytes_eq_flatMap (text : String) :
    bytes text = text.toList.flatMap String.utf8EncodeChar := by
  rw [bytes, String.toUTF8_eq_toByteArray, ← String.utf8Encode_toList, List.utf8Encode,
    List.data_toByteArray]

/-- The bytes of two texts follow each other. -/
theorem bytes_append (first second : String) :
    bytes (first ++ second) = bytes first ++ bytes second := by
  simp only [bytes_eq_flatMap, String.toList_append, List.flatMap_append]

/-- The characters that are encoded as one byte. -/
def IsAscii (character : Char) : Prop := character.toNat ≤ 127

/-- An ASCII text has a byte for each character. -/
theorem bytes_of_ascii {text : String} (ascii : ∀ character ∈ text.toList, IsAscii character) :
    bytes text = text.toList.map fun character => UInt8.ofNat character.toNat := by
  rw [bytes_eq_flatMap, List.map_eq_flatMap]
  refine List.flatMap_congr fun character member => ?_
  exact String.utf8EncodeChar_eq_singleton
    (Char.utf8Size_eq_one_iff.mpr (ascii character member))

/-- The byte of an ASCII character is read as this character. -/
theorem Decoder.feed_of_ascii {decoder : Decoder} (between : decoder.pending = none)
    {character : Char} (ascii : IsAscii character) :
    decoder.feed (UInt8.ofNat character.toNat) = decoder.emit character := by
  have small : character.toNat ≤ 127 := ascii
  have value : (UInt8.ofNat character.toNat).toNat = character.toNat := by
    rw [UInt8.toNat_ofNat']
    exact Nat.mod_eq_of_lt (Nat.lt_of_le_of_lt small (by decide))
  have first : UInt8.ofNat character.toNat < 0x80 := by
    rw [UInt8.lt_iff_toNat_lt, value]
    exact Nat.lt_succ_of_le small
  rw [feed, between]
  dsimp only
  rw [Decoder.first, if_pos first, value, Char.ofNat_toNat]

/-- The bytes of ASCII characters are read as these characters. -/
theorem foldl_feed_of_ascii (characters : List Char)
    (ascii : ∀ character ∈ characters, IsAscii character) {decoder : Decoder}
    (between : decoder.pending = none) :
    (characters.map fun character => UInt8.ofNat character.toNat).foldl Decoder.feed decoder =
      { decoder with reversed := characters.reverse ++ decoder.reversed } := by
  induction characters generalizing decoder with
  | nil => rfl
  | cons character rest inductionHypothesis =>
    rw [List.map_cons, List.foldl_cons,
      Decoder.feed_of_ascii between (ascii character List.mem_cons_self),
      inductionHypothesis (fun other member => ascii other (List.mem_cons_of_mem _ member)) rfl,
      List.reverse_cons, List.append_assoc]
    cases decoder
    subst between
    rfl

/-- Decoding the bytes of an ASCII text gives the text back. -/
theorem lossy_bytes {text : String} (ascii : ∀ character ∈ text.toList, IsAscii character) :
    lossy (bytes text) = text := by
  rw [bytes_of_ascii ascii, lossy, decoded, foldl_feed_of_ascii text.toList ascii rfl]
  change String.ofList (text.toList.reverse ++ []).reverse = text
  rw [List.append_nil, List.reverse_reverse, String.ofList_toList]

end TableDriven.Text
