/-!
# UTF-8

Texts as lists of characters and their bytes. Decoding refuses every list of bytes that is not the
encoding of a text.
-/
namespace KeyPartitions.Text

abbrev Bytes := List UInt8

def encode (text : List Char) : Bytes := (String.ofList text).toByteArray.data.toList

def decode? (bytes : Bytes) : Option (List Char) :=
  (String.fromUTF8? ⟨bytes.toArray⟩).map String.toList

theorem decode?_encode (text : List Char) : decode? (encode text) = some text := by
  have valid : (String.ofList text).toByteArray.IsValidUTF8 := (String.ofList text).isValidUTF8
  have read : String.fromUTF8? (String.ofList text).toByteArray = some (String.ofList text) := by
    rw [String.fromUTF8?, dif_pos valid]
    rfl
  simp only [decode?, encode, Array.toArray_toList, read, Option.map_some, String.toList_ofList]

end KeyPartitions.Text
