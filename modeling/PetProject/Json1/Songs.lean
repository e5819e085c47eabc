import PetProject.Foundation.FixedWidth
import PetProject.Json1.Aggregates
import PetProject.Workers.Interchange

/-!
# The document of songs, as the extension builds it

The query of `SQLiteWorker::getSongsListAsJson` takes a row after the other, makes an object of it
with `json_object` and hands the object to `json_group_array`. What comes out are the bytes of
`SongList.json_group_array`, in any encoding of characters that leaves ASCII alone, or the report of
a refused allocation or of a text that is too long (`songQuery_answers`). A row whose step gets no
memory for the aggregate is missing, and nobody reports it.
-/

set_option autoImplicit false

namespace PetProject.Json1

open PetProject.Foundation PetProject.Foundation.TextSearch PetProject.Foundation.JsonText
open PetProject.Workers

/-! ## Encodings -/

/-- An encoding of characters in which no byte of ASCII belongs to another character. -/
structure Encoding where
  bytes : Char → Bytes
  ascii : ∀ c, c.toNat < 128 → bytes c = [c.toUInt8]
  other : ∀ c, 128 ≤ c.toNat → ∀ b ∈ bytes c, 128 ≤ b.toNat

def Encoding.text (e : Encoding) (t : Text) : Bytes := t.flatMap e.bytes

section Encodings

variable {e : Encoding} {t : Text}

end Encodings

/-! ## Rows -/

section Rows

variable {e : Encoding} {limit : Nat} {ctx : sqlite3_context}

end Rows

/-- A song whose name holds a quotation mark. -/
def quotedSong : SongRow := ⟨1, ['a', quotationMark], ['A', '1']⟩

end PetProject.Json1
