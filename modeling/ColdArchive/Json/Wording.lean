import ColdArchive.Bytes

/-!
The words in which bytes are refused that are no JSON text of the kind that is read.

They belong to the reader of JSON texts. The protocol passes them on and depends on none of them.
-/

namespace ColdArchive.Json

/-- What a reader of JSON texts says. -/
class Wording where
  /-- Why bytes are no JSON text. -/
  noText : Bytes → String
  /-- Why bytes are not the text of a response. -/
  noResponse : Bytes → String

/-- The words of the reader that is at hand. -/
instance (priority := low) Wording.plain : Wording where
  noText _ := "not a JSON text"
  noResponse _ := "not a response"

end ColdArchive.Json
