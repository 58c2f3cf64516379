import ExperimentControl.Json.Reader
import ExperimentControl.Json.Text

/-!
# Documents as texts

A record as one text, as `serde_json::to_string` writes it and `serde_json::from_str` reads it. The
reader of a record has no budget of nodes; a text has no more of them than it has bytes.

* `Json.toText`, `Json.fromText` — a document as a text, and the document of a text.
* **`fromText_toText`** — a written document is read back.
-/

namespace ExperimentControl

namespace Json

/-- A value has no more nodes than its text has bytes. -/
lemma nodes_le_size (value : Json) (h : exact value = true) : nodes value ≤ size value := by
  rw [← length_write]
  exact Reader.nodes_le_of_value (Grammar.value_of_write value h)

/-! ## Texts -/

/-- `serde_json::to_string`. -/
def toText (document : Json) : String := (fromUtf8 document.write).getD ""

/-- `serde_json::from_str`, before the fields of a record are taken out of the document. -/
def fromText (finite : String → Bool) (text : String) : Option Json :=
  match Reader.value finite 128 (utf8 text) (utf8 text).length with
  | .ok (document, _) => some document
  | .error _ => none

lemma utf8_toText (document : Json) : utf8 document.toText = document.write := by
  obtain ⟨text, htext⟩ := Reader.isText_write document
  rw [toText, fromUtf8_eq_some.mpr htext, Option.getD_some, htext]

/-- **A written document is read back.** -/
theorem fromText_toText {finite : String → Bool} {document : Json}
    (h : document.readable finite = true) (hdepth : document.depth ≤ 128) :
    fromText finite document.toText = some document := by
  have hnodes := nodes_le_size document (exact_of_readable document h)
  rw [fromText, utf8_toText, Reader.value_write document 128 _ h hdepth
    (by rw [length_write]; exact hnodes)]

end Json

end ExperimentControl
