/-
  SeededRows.Json.Reading

  Reads a JSON text. The containers that are open are kept as frames, innermost first. Data
  nested deeper than 127 containers is unreadable.
-/
import SeededRows.Json.Token

namespace SeededRows.Json

/-- A container that is still open; its parts are kept in reverse. -/
inductive Frame
  | list (items : List Json)
  /-- A record with the key of the entry whose value comes next. Keys that stand for no text
  make the record unreadable. -/
  | record (entries : List (Option String × Json)) (key : Option String)

/-- What may come next. -/
inductive Place
  /-- A value, or the end of a list that was just opened. -/
  | item (canEnd : Bool)
  /-- A key, or the end of a record that was just opened. -/
  | key (entries : List (Option String × Json)) (canEnd : Bool)
  | colon (entries : List (Option String × Json)) (key : Option String)
  /-- A separator or the end of the container, after a value. -/
  | after (v : Json)

/-- The depth of the deepest containers that are read. -/
def depthLimit : Nat := 127

/-- A container that is complete, with the number of containers around it. -/
def atDepth (depth : Nat) (v : Json) : Json := if depth < depthLimit then v else .unreadable

/-- The record of entries in reverse. -/
def recordOf (entries : List (Option String × Json)) : Json :=
  match entries.reverse.mapM fun (key, v) => key.map (·, v) with
  | some entries => .record entries
  | none => .unreadable

/-- Reads tokens to the end of the document. -/
def read (frames : List Frame) (place : Place) : List Token → Option Json
  | [] =>
    match frames, place with
    | [], .after v => some v
    | _, _ => none
  | t :: rest =>
    match place, t with
    | .item _, .listOpen => read (.list [] :: frames) (.item true) rest
    | .item _, .recordOpen => read frames (.key [] true) rest
    | .item _, .word letters => do
      let v ← wordValue? letters
      read frames (.after v) rest
    | .item _, .quoted body => do
      let s ← textValue? body
      read frames (.after ((s.map .text).getD .unreadable)) rest
    | .item canEnd, .listClose =>
      match frames with
      | .list [] :: outer =>
        if canEnd then read outer (.after (atDepth outer.length (.list []))) rest else none
      | _ => none
    | .key entries _, .quoted body => do
      let key ← textValue? body
      read frames (.colon entries key) rest
    | .key entries canEnd, .recordClose =>
      if canEnd then read frames (.after (atDepth frames.length (recordOf entries))) rest else none
    | .colon entries key, .colon => read (.record entries key :: frames) (.item false) rest
    | .after v, .comma =>
      match frames with
      | .list items :: outer => read (.list (v :: items) :: outer) (.item false) rest
      | .record entries key :: outer => read outer (.key ((key, v) :: entries) false) rest
      | [] => none
    | .after v, .listClose =>
      match frames with
      | .list items :: outer =>
        read outer (.after (atDepth outer.length (.list (v :: items).reverse))) rest
      | _ => none
    | .after v, .recordClose =>
      match frames with
      | .record entries key :: outer =>
        read outer (.after (atDepth outer.length (recordOf ((key, v) :: entries)))) rest
      | _ => none
    | _, _ => none

/-- The document that a text holds; `none` when it is not JSON. -/
def ofText (s : String) : Option Json := do read [] (.item false) (← tokens s)

end SeededRows.Json
