import LabelAtlas.Service.Endpoint
import LabelAtlas.Text.Letters

/-! The service's description of itself, for programs that generate clients and pages from it. The
titles and names in it are made from the names of fields and operations. -/
namespace LabelAtlas.Service

open Json (Object)

def capitalize : Text → Text
  | [] => []
  | c :: t => c.toUpper :: t

/-- A name with underscores as words with capital letters. -/
def titleOf (name : Text) : Text :=
  Text.join " " ((Text.splitAt '_' name).map capitalize)

def member (name : Text) (value : Json) : Object :=
  [(name, value)]

def typed (type : Text) : Object :=
  member "type" (.str type)

def arrayOf (item : Json) : Object :=
  typed "array" ++ member "items" item

def anyOf (types : List Text) : Json :=
  .arr (types.map fun type => .obj (typed type))

def referTo (schema : Text) : Json :=
  .obj [("$ref", .str ("#/components/schemas/" ++ schema))]

/-- Zero as a lower bound, which is written as a fraction. -/
def zeroBound : Object :=
  [("minimum", .real (.finite false 0 Binary64.minExponent))]

/-- The fields of a request, with what is known of each beside its title. -/
def requestFields : List (Text × Object) := [
  ("listing", typed "string"),
  ("labels", typed "string"),
  ("name", [("anyOf", anyOf ["string", "null"])]),
  ("title", typed "string" ++ member "default" (.str "Assembler Documentation")),
  ("source_column", typed "integer" ++ zeroBound ++ member "default" (.int 24)),
  ("max_blank_lines", typed "integer" ++ zeroBound ++ member "default" (.int 2)),
  ("classify_kinds", typed "boolean" ++ member "default" (.bool true)),
  ("kind_scan_lines", typed "integer" ++ zeroBound ++ member "default" (.int 8))]

/-- The schema of an object from its fields, each with its title, and the names of those it must
have. -/
def objectSchema (title : Text) (fields : List (Text × Text × Object)) (required : List Text) :
    Object :=
  typed "object" ++ member "title" (.str title)
    ++ member "properties" (.obj (fields.map fun (name, title, schema) =>
      (name, .obj (schema ++ member "title" (.str title)))))
    ++ if required.isEmpty then [] else member "required" (.arr (required.map .str))

def requestSchema : Object :=
  objectSchema "DocumentRequest"
      (requestFields.map fun (name, schema) => (name, titleOf name, schema)) ["listing", "labels"]
    ++ member "description" (.str "List file and labels file content of one documentation run.")

/-- The schema of the issues of a request. -/
def issuesSchema : Object :=
  objectSchema "HTTPValidationError"
    [("detail", "Detail", arrayOf (referTo "ValidationError"))] []

def issueSchema : Object :=
  objectSchema "ValidationError" [
    ("loc", "Location", arrayOf (.obj [("anyOf", anyOf ["string", "integer"])])),
    ("msg", "Message", typed "string"),
    ("type", "Error Type", typed "string"),
    ("input", "Input", []),
    ("ctx", "Context", typed "object")] ["loc", "msg", "type"]

/-- What a client can ask the service to do. -/
structure Operation where
  endpoint : Endpoint
  method : Text
  name : Text
  description : Option Text := none
  deriving DecidableEq, Repr

namespace Operation

def all : List Operation := [
  { endpoint := .health, method := "get", name := "health_check" },
  { endpoint := .formats, method := "get", name := "get_formats" },
  { endpoint := .hierarchy, method := "post", name := "build_hierarchy",
    description := some "Return the documented label hierarchy as JSON." },
  { endpoint := .render, method := "post", name := "render_html",
    description := some "Return the documentation as an HTML page." }]

/-- The name of an operation with its path and method, all in one word. -/
def id (o : Operation) : Text :=
  o.name ++ o.endpoint.path.map (fun c => if Text.isWord c then c else .scalar '_') ++ "_"
    ++ o.method

/-- The values of the members of an answer; a page has none. -/
def members? : Endpoint → Option Json
  | .health => some (.obj (typed "string"))
  | .formats => some (.obj (arrayOf (.obj (typed "string"))))
  | .hierarchy => some (.bool true)
  | _ => none

/-- The type of an answer and its schema. -/
def result (o : Operation) : Text × Object :=
  match members? o.endpoint with
  | some values => ("application/json",
      typed "object" ++ member "title" (.str ("Response " ++ titleOf o.id))
        ++ member "additionalProperties" values)
  | none => ("text/html", typed "string")

def content (type : Text) (schema : Json) : Object :=
  member "content" (.obj (member type (.obj (member "schema" schema))))

def response (status description type : Text) (schema : Json) : Object :=
  member status (.obj (member "description" (.str description) ++ content type schema))

/-- Operations that are posted to take a request, and may find it invalid. -/
def takesRequest (o : Operation) : Bool :=
  o.method = "post"

def responses (o : Operation) : Object :=
  response "200" "Successful Response" o.result.1 (.obj o.result.2)
    ++ if o.takesRequest then
      response "422" "Validation Error" "application/json" (referTo "HTTPValidationError")
    else []

def requestBody (o : Operation) : Object :=
  if o.takesRequest then
    member "requestBody" (.obj (content "application/json" (referTo "DocumentRequest")
      ++ member "required" (.bool true)))
  else []

def toJson (o : Operation) : Json :=
  .obj (member "summary" (.str (titleOf o.name)) ++ member "operationId" (.str o.id)
    ++ (o.description.map fun t => member "description" (.str t)).getD []
    ++ o.requestBody ++ member "responses" (.obj o.responses))

end Operation

def serviceSchema : Json := .obj [
  ("openapi", .str "3.1.0"),
  ("info", .obj [("title", .str "asmdoc API"),
    ("description", .str "Documentation from assembler list files"), ("version", .str "0.1.0")]),
  ("paths", .obj (Operation.all.map fun o => (o.endpoint.path, .obj [(o.method, o.toJson)]))),
  ("components", .obj [("schemas", .obj [("DocumentRequest", .obj requestSchema),
    ("HTTPValidationError", .obj issuesSchema), ("ValidationError", .obj issueSchema)])])]

end LabelAtlas.Service
