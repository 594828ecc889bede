/-
  SeededRows.RunFile.Schema

  The schema of run files: a document in the language of JSON Schema.
-/
import SeededRows.RunFile.Config

namespace SeededRows.RunFile.Schema

/-- A property: its name, whether it must be there, and its schema. -/
structure Property where
  name : String
  isRequired : Bool
  shape : List (String × Json)

/-- The entry that says what a schema describes. -/
def about (text : String) : String × Json := ("description", .text text)

/-- The entry for a default. -/
def default (v : Json) : String × Json := ("default", v)

/-! ## Shapes of parts -/

/-- The shape of a simple type. -/
def simple (type : String) : List (String × Json) := [("type", .text type)]

/-- The shape of a number with a format. -/
def number (type format : String) : List (String × Json) :=
  [("type", .text type), ("format", .text format)]

/-- The shape of a number that is not negative. -/
def natural (format : String) : List (String × Json) :=
  number "integer" format ++ [("minimum", .float 0.0)]

/-- The shape of a simple type or null. -/
def orNull (type : String) : String × Json := ("type", .texts [type, "null"])

/-- The reference to a named schema. -/
def reference (name : String) : List (String × Json) := [("$ref", .text ("#/definitions/" ++ name))]

/-- The shape of a list. -/
def listOf (item : List (String × Json)) : List (String × Json) :=
  [("type", .text "array"), ("items", .record item)]

/-- A property that must be there. -/
def required (name : String) (shape : List (String × Json)) : Property := ⟨name, true, shape⟩

/-- A property that may be missing. -/
def optional (name : String) (shape : List (String × Json)) : Property := ⟨name, false, shape⟩

/-! ## Shapes of structures -/

/-- The entry for the names that must be there, in order. -/
def requiredEntry (properties : List Property) : List (String × Json) :=
  match Names.ofList ((properties.filter (·.isRequired)).map (·.name)) with
  | [] => []
  | names => [("required", .texts names)]

/-- The entry for properties. -/
def propertiesEntry (properties : List Property) : String × Json :=
  ("properties", .record (properties.map fun p => (p.name, .record p.shape)))

/-- The shape of a structure. -/
def object (properties : List Property) : List (String × Json) :=
  ("type", .text "object") :: (requiredEntry properties ++ [propertiesEntry properties])

/-- The shape of a description of one kind. -/
def kind (name : String) (properties : List Property) : List (String × Json) :=
  object (required kindKey [("type", .text "string"), ("enum", .texts [name])] :: properties)

/-- The entry for one of several shapes. -/
def oneOf (shapes : List (List (String × Json))) : String × Json :=
  ("oneOf", .list (shapes.map .record))

/-! ## The run file -/

/-- The kinds of aggregators. -/
def aggregators : List (List (String × Json)) :=
  [kind "count" [],
   kind "histogram" [required "field" (simple "string")],
   kind "collect" [required "fields" (listOf (simple "string"))],
   kind "csv"
    [required "dir" (simple "string"), required "fields" (listOf (simple "string")),
     optional stemKey [default .null, orNull "string"]],
   kind "matches"
    [required "field" (simple "string"),
     required "value"
      (about "Compared against the text form of the field's value." :: simple "string")]]

/-- The kinds of distributions. -/
def distributions : List (List (String × Json)) :=
  [kind "bool" [optional "probability" (default (.float 0.5) :: number "number" "double")],
   kind "int_range"
    [required "min" (number "integer" "int64"), required "max" (number "integer" "int64")],
   kind "float_range"
    [required "min" (number "number" "double"), required "max" (number "number" "double")],
   kind "choice" [required "options" (listOf (reference "WeightedOption"))],
   kind "uuid" [],
   about "Dates are `YYYY-MM-DD`." ::
    kind "date_range" [required "min" (simple "string"), required "max" (simple "string")],
   kind "bucket"
    [required "source" (about "Integer field drawn earlier in the row." :: simple "string"),
     required "thresholds" (listOf (number "integer" "int64")),
     required "labels" (listOf (simple "string"))]]

/-- A field: its name beside the parts of its distribution. -/
def field : List (String × Json) :=
  about "A named field in a run file." :: oneOf distributions ::
    object [required "name" (simple "string")]

/-- A property of the settings. -/
def setting (name description : String) (value : Json) (shape : List (String × Json)) : Property :=
  optional name (about description :: default value :: shape)

/-- The settings with their defaults. -/
def settings : List (String × Json) :=
  let d := Settings.default
  about "Serializable part of [`GenerationOptions`], as read from run files." ::
    object
      [setting "random_seed"
        ("Run seed. `null` (JSON) makes the run non-reproducible; TOML has no null, so run " ++
          "files fall back to the default seed when it is omitted.")
        ((d.randomSeed.map fun seed => Json.int seed.toInt).getD .null)
        [orNull "integer", ("format", .text "int64")],
       setting "num_processes" "Number of workers." (.int d.numProcesses.toNat) (natural "uint"),
       setting "num_rows" "Number of rows to generate." (.int d.numRows.toNat) (natural "uint64"),
       setting "batch_size" "Rows per dispatched batch." (.int d.batchSize.toNat) (natural "uint"),
       setting "stripe_width" "Row ids per stripe." (.int d.stripeWidth.toNat) (natural "uint64"),
       setting "verbose" "Report progress at info level." (.bool d.verbose) (simple "boolean")]

/-- A weighted label. -/
def weightedOption : List (String × Json) :=
  object
    [required "label" (simple "string"),
     optional "weight" (default (.float 1.0) :: number "number" "double")]

/-- The schema of run files. -/
def runConfig : Json :=
  .record <|
    [("$schema", .text "http://json-schema.org/draft-07/schema#"), ("title", .text "RunConfig"),
     about "A generation run as described in a TOML run file."] ++
    object
      [required "aggregators"
        (about "Aggregators in result order." :: listOf (reference "AggregatorSpec")),
       required "fields" (about "Fields in generation order." :: listOf (reference "FieldSpec")),
       optional "generation"
        [default (encodeSettings Settings.default),
         ("allOf", .list [.record (reference "GenerationSettings")])]] ++
    [("additionalProperties", .bool false),
     ("definitions", .record
      [("AggregatorSpec", .record
        [about "Description of a stock aggregator, as written in run files.", oneOf aggregators]),
       ("FieldSpec", .record field),
       ("GenerationSettings", .record settings),
       ("WeightedOption", .record weightedOption)])]

end SeededRows.RunFile.Schema
