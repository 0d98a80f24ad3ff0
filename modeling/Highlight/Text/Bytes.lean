/-!
# Bytes of texts

The UTF-8 form of a text, as the list of its bytes. No character's bytes start those of another one,
so what the bytes of two texts have in common at their start is what the texts have in common there
(`utf8_prefix_iff`).
-/

namespace Highlight

/-- The UTF-8 form of a text. -/
def utf8 (cs : List Char) : List UInt8 := cs.flatMap String.utf8EncodeChar

theorem utf8_cons (c : Char) (cs : List Char) :
    utf8 (c :: cs) = String.utf8EncodeChar c ++ utf8 cs :=
  List.flatMap_cons

theorem utf8_append (cs ds : List Char) : utf8 (cs ++ ds) = utf8 cs ++ utf8 ds :=
  List.flatMap_append

theorem length_utf8_cons (c : Char) (cs : List Char) :
    (utf8 (c :: cs)).length = c.utf8Size + (utf8 cs).length := by
  rw [utf8_cons, List.length_append, String.length_utf8EncodeChar]

theorem length_utf8_append (cs ds : List Char) :
    (utf8 (cs ++ ds)).length = (utf8 cs).length + (utf8 ds).length := by
  rw [utf8_append, List.length_append]

theorem length_utf8 (cs : List Char) : (utf8 cs).length = (String.ofList cs).utf8ByteSize := by
  rw [String.utf8ByteSize, String.toByteArray_ofList, List.utf8Encode, List.size_toByteArray, utf8]

theorem length_utf8_toList (s : String) : (utf8 s.toList).length = s.utf8ByteSize := by
  rw [length_utf8, String.ofList_toList]

/-- The bytes of a text start with those of another one if and only if the text starts with it. -/
theorem utf8_prefix_iff {cs ds : List Char} : utf8 cs <+: utf8 ds ↔ cs <+: ds := by
  constructor
  · rintro ⟨rest, h⟩
    refine List.isPrefix_of_utf8Encode_append_eq_utf8Encode rest.toByteArray ?_
    rw [List.utf8Encode, List.utf8Encode, ← List.toByteArray_append]
    exact congrArg List.toByteArray h
  · rintro ⟨rest, rfl⟩
    exact ⟨utf8 rest, (utf8_append cs rest).symm⟩

end Highlight
