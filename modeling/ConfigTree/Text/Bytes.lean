/-! Texts as bytes, in UTF-8. -/

namespace ConfigTree.Text

def bytes (s : List Char) : List UInt8 := s.flatMap String.utf8EncodeChar

def ofBytes? (b : List UInt8) : Option String := String.fromUTF8? ⟨b.toArray⟩

@[simp] theorem bytes_nil : bytes [] = [] := rfl

@[simp] theorem bytes_append (s t : List Char) : bytes (s ++ t) = bytes s ++ bytes t := by
  simp [bytes]

end ConfigTree.Text
