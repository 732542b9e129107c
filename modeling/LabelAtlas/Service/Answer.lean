import LabelAtlas.Encoding.Detected
import LabelAtlas.Generate
import LabelAtlas.Service.Manual
import LabelAtlas.Service.Request
import LabelAtlas.Service.Schema

/-! The HTTP service: documents from posted texts. -/
namespace LabelAtlas.Service

/-- How building a document for a client ends. -/
inductive Outcome where
  | built (d : Document)
  /-- The texts or values of the request are at fault. -/
  | refused (message : Text)
  | failed (f : Fault)
  deriving DecidableEq, Repr

/-- Builds the document of a request's texts; settings hold its other values. -/
def build (settings : Settings) (name listing labels : Json) : Outcome × List Event :=
  let (result, w) :=
    (Document.ofGiven settings settings.sourceColumn name listing labels).run {}
  match result with
  | .ok d => (.built d, w.events)
  | .error f =>
    if f.category = .input || f.category = .value then
      (.refused f.message, w.events ++ [.buildRefused f.message])
    else (.failed f, w.events)

inductive Content where
  | json (v : Json)
  | html (t : Text)
  | plain (t : Text)
  /-- The issues of a request that cannot be taken. -/
  | issues (list : List (Place × Issue))
  deriving DecidableEq, Repr

/-- An answer may tell the type of its content without sending it. -/
structure Answer where
  status : Nat
  content : Content
  sent : Bool := true
  deriving DecidableEq, Repr

def Answer.type (a : Answer) : Text :=
  match a.content with
  | .json _ | .issues _ => "application/json"
  | .html _ => "text/html; charset=utf-8"
  | .plain _ => "text/plain; charset=utf-8"

/-- An answer that only says what is wrong. -/
def detail (status : Nat) (message : Text) : Answer :=
  { status := status, content := .json (.obj [("detail", .str message)]) }

def success (content : Content) : Answer :=
  { status := 200, content := content }

def serverError : Answer :=
  { status := 500, content := .plain "Internal Server Error" }

/-- Only finite numbers and texts without surrogates can be sent. -/
def isSendable (v : Json) : Bool :=
  v.isEncodable && v.isFinite

/-- The value an issue with a member is about: a missing one is an issue of the whole object. -/
def blamed (members : Json.Object) : Place × Issue → Json
  | (.field _, .missing) => .obj members
  | (.field name, _) => (Json.get? name members).getD .null
  | _ => .null

/-- Issues are sent with the values they are about. -/
def refuse (values : List Json) (issues : List (Place × Issue)) : Answer :=
  if values.all isSendable then { status := 422, content := .issues issues }
  else serverError

def unreadable : Answer :=
  detail 400 "There was an error parsing the body"

/-- The request in posted bytes, or the answer that refuses it. -/
def requestOf (body : Utf8.Bytes) : Except Answer Request :=
  if body.isEmpty then .error (refuse [] [(.body, .missing)])
  else match (Encoding.decodeJson? body).map Json.read with
    | none | some (.error (.longInteger _)) | some (.error .tooDeep) => .error unreadable
    | some (.error (.malformed _ position _ _)) =>
      .error (refuse [] [(.position position, .invalidJson)])
    | some (.ok (.obj members)) =>
      (Request.ofMembers members).mapError fun issues =>
        refuse (issues.map (blamed members)) issues
    | some (.ok v) => .error (refuse [v] [(.body, .notObject)])

/-- How deep arrays and objects may lie in each other in an answer. -/
def maxAnswerDepth : Nat := 256

def hierarchyOf (d : Document) : Answer :=
  match d.toJson with
  | .ok v => if v.depth ≤ maxAnswerDepth && isSendable v then success (.json v) else serverError
  | .error _ => serverError

def pageOf (d : Document) : Answer :=
  match d.html with
  | .ok page => if page.any CodePoint.isSurrogate then serverError else success (.html page)
  | .error _ => serverError

def documentAnswer (answer : Document → Answer) (body : Utf8.Bytes) : Answer :=
  match requestOf body with
  | .error a => a
  | .ok r => match (build r.settings (Json.ofText? r.name) (.str r.listing) (.str r.labels)).1 with
    | .built d => answer d
    | .refused message => detail 400 message
    | .failed _ => serverError

def Endpoint.answer (body : Utf8.Bytes) : Endpoint → Answer
  | health => success (.json (.obj [("status", .str "ok"), ("version", .str "0.1.0")]))
  | formats => success (.json (.obj [("formats", .arr (Format.all.map fun f => .str f.name))]))
  | hierarchy => documentAnswer hierarchyOf body
  | render => documentAnswer pageOf body
  | schema => success (.json serviceSchema)
  | explorer => success (.html (joinPage explorerLines))
  | signIn => success (.html (joinPage signInLines))
  | reference => success (.html (joinPage referenceLines))

def answerFor (method target : Text) (body : Utf8.Bytes) : Answer :=
  match Endpoint.ofPath? (pathOf target) with
  | none => detail 404 "Not Found"
  | some e =>
    if e.methods.contains method then e.answer body else detail 405 "Method Not Allowed"

/-- Nothing but the head of an answer is sent to a client that asks for no more. -/
def handle (method target : Text) (body : Utf8.Bytes) : Answer :=
  { answerFor method target body with sent := method ≠ "HEAD" }

end LabelAtlas.Service
