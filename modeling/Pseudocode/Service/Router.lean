import Pseudocode.Service.Address

/-!
# Routes

The service names what it can be asked for by a method and the pattern of a path.  A router sends a
request to the route that it fits; which one that is, and what becomes of a request that fits none,
is the router's choice.

* `Route` : what can be asked for, and how.
* `Router` : sends requests to routes.
* `Router.bySegments` : the router that compares paths segment by segment.
-/

namespace Pseudocode

/-- What the service can be asked for. -/
inductive Endpoint
  | health
  | convert
  | exercises
  | exercise
  | exerciseConversion
  | history
  | historyEntry
  deriving DecidableEq, Repr

/-- What stands between two slashes of a pattern. -/
inductive Route.Segment
  /-- The text itself. -/
  | literal (text : String)
  /-- Any text, which is given the name. -/
  | parameter (name : String)
  deriving DecidableEq, Repr

/-- A route: the method and the path by which something is asked for. -/
structure Route where
  /-- The method. -/
  method : String
  /-- The pattern of the path. -/
  pattern : List Route.Segment
  /-- What is asked for. -/
  endpoint : Endpoint
  deriving DecidableEq, Repr

/-- Where a request is sent. -/
inductive Destination
  /-- To what it asks for, with the parameters in its path. -/
  | handler (endpoint : Endpoint) (parameters : List (String × List UInt8))
  /-- Nowhere, and it is answered at once. -/
  | refused (status : Nat) (contentType : Option String) (body : List Char)
  deriving DecidableEq, Repr

/-- Where a request is sent, by the routes that there are, its method and its path. -/
def Router := (routes : List Route) → (method : String) → (path : List UInt8) → Destination

/-- The parameters in the parts of a path that fits the pattern.  A parameter may be empty only
where something follows it. -/
def Route.Segment.parameters? :
    List Segment → List (List UInt8) → Option (List (String × List UInt8))
  | [], [] => some []
  | [.parameter name], [part] => if part.isEmpty then none else some [(name, part)]
  | .parameter name :: segments, part :: parts =>
    (parameters? segments parts).map ((name, part) :: ·)
  | .literal text :: segments, part :: parts =>
    if part = Text.encode text.toList then parameters? segments parts else none
  | _, _ => none

namespace Router

/-- The methods that are known. -/
def knownMethods : List String :=
  ["CONNECT", "DELETE", "GET", "HEAD", "OPTIONS", "PATCH", "POST", "PUT", "TRACE"]

/-- Nothing is found at a path. -/
def notFound : Destination :=
  .refused 404 (some "text/plain; charset=utf-8") "404 page not found\n".toList

/-- A path does not take a method. -/
def methodNotAllowed : Destination := .refused 405 none []

/-- The parameters in a path that fits a route. -/
def parameters? (path : List UInt8) (r : Route) : Option (List (String × List UInt8)) :=
  match Query.splitOn (asciiByte '/') path with
  | [] :: parts => Route.Segment.parameters? r.pattern parts
  | _ => none

/-- Sends a request to the first route of its method that its path fits. -/
def bySegments : Router := fun routes method path =>
  let path := Path.routed path
  let fits (r : Route) : Bool := (parameters? path r).isSome
  if method ∉ knownMethods then methodNotAllowed
  else match (routes.filter fits).find? (·.method = method) with
    | some r => .handler r.endpoint ((parameters? path r).getD [])
    | none => if routes.any fits then methodNotAllowed else notFound

end Router

end Pseudocode
