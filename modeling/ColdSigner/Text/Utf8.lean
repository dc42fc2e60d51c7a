import ColdSigner.Bytes
/-!
# Text in UTF-8

A text by the bytes of its characters. Main statement: `ofUtf8?_utf8`, every text reads back.
-/
namespace ColdSigner.Text

def utf8 (text : String) : Bytes := text.toUTF8.data.toList

/-- The text with these bytes, if there is one. -/
def ofUtf8? (bytes : Bytes) : Option String := String.fromUTF8? ⟨bytes.toArray⟩

theorem ofUtf8?_utf8 (text : String) : ofUtf8? (utf8 text) = some text := by
  simp only [ofUtf8?, utf8, String.fromUTF8?, Array.toArray_toList, String.toUTF8_eq_toByteArray]
  exact dif_pos text.isValidUTF8

theorem length_utf8 (text : String) : (utf8 text).length = text.utf8ByteSize := rfl

theorem utf8_append (text more : String) : utf8 (text ++ more) = utf8 text ++ utf8 more := by
  simp [utf8]

end ColdSigner.Text
