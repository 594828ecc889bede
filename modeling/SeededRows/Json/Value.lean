/-
  SeededRows.Json.Value

  Values of fields as documents. Dates and times become texts, with the fraction of a second.
-/
import SeededRows.Json.Text
import SeededRows.Value

namespace SeededRows

/-- The document of a value. -/
def Value.json : Value → Json
  | .null => .null
  | .bool b => .bool b
  | .int n => .int n.toInt
  | .uint n => .int n.toNat
  | .float x => .ofFloat x
  | .text s => .text s
  | .uuid s => .text s
  | .date d => .text d.text
  | .time t => .text t.preciseText
  | .timestamp m => .text m.preciseText

end SeededRows
