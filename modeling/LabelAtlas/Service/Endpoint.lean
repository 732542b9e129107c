import LabelAtlas.Service.Target

/-! The endpoints of the service, and the paths and methods that reach them. -/
namespace LabelAtlas.Service

inductive Endpoint where
  | health
  | formats
  | hierarchy
  | render
  /-- The service's description of itself. -/
  | schema
  /-- The page to try the service out. -/
  | explorer
  /-- Where a sign-in on that page ends. -/
  | signIn
  /-- The page to read about the service. -/
  | reference
  deriving DecidableEq, Repr

namespace Endpoint

def all : List Endpoint :=
  [health, formats, hierarchy, render, schema, explorer, signIn, reference]

def path : Endpoint → Text
  | health => "/api/health"
  | formats => "/api/formats"
  | hierarchy => "/api/hierarchy"
  | render => "/api/render"
  | schema => "/openapi.json"
  | explorer => "/docs"
  | signIn => "/docs/oauth2-redirect"
  | reference => "/redoc"

def methods : Endpoint → List Text
  | health | formats => ["GET"]
  | hierarchy | render => ["POST"]
  | schema | explorer | signIn | reference => ["GET", "HEAD"]

/-- The endpoint at exactly a path. One line feed behind it is let through. -/
def at? (path : Text) : Option Endpoint :=
  all.find? fun e => path = e.path || path = e.path ++ "\n"

/-- Slashes at the end of a path do not count. -/
def ofPath? (path : Text) : Option Endpoint :=
  (at? path).or (at? (Text.dropEndWhile (· = '/') path))

end Endpoint

end LabelAtlas.Service
