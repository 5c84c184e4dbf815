import WebServer.Library.Table
import WebServer.Http.Message

/-!
# The router

`HttpRouter`: a map from paths to maps from methods to handlers.  A handler is a
`std::function`, which may be empty; the model names the others by a type `H` and
leaves what they do to the caller.
-/

namespace WebServer

/-- `HttpHandler`, with `none` for the empty function. -/
abbrev HttpHandler (H : Type) := Option H

/-- `Route`. -/
abbrev Route (H : Type) := Finmap (fun _ : HttpMethod => HttpHandler H)

/-- `HttpRouter`. -/
structure HttpRouter (H : Type) where
  routes : Finmap (fun _ : ByteString => Route H)

namespace HttpRouter

variable {H : Type}

/-- The router without routes. -/
def new : HttpRouter H := ⟨∅⟩

/-- `AddRoute(path, handler)`: nothing happens when the path has an entry. -/
def addRoute (r : HttpRouter H) (path : ByteString) (handler : HttpHandler H) : HttpRouter H :=
  if path ∈ r.routes then r
  else
    let route : Route H :=
      (((Finmap.insert HttpMethod.get handler ∅).insert .post handler).insert .delete handler).insert
        .put handler
    ⟨r.routes.insert path route⟩

/-- `AddRoute(path, method, handler)`: the entry of the path is replaced. -/
def addRouteMethod (r : HttpRouter H) (path : ByteString) (method : HttpMethod)
    (handler : HttpHandler H) : HttpRouter H :=
  ⟨r.routes.insert path (Finmap.insert method handler ∅)⟩

/-- `GetHandler(path, method)`: both levels of `_routes[path][method]` enter what
they do not find. -/
def getHandler (r : HttpRouter H) (path : ByteString) (method : HttpMethod) :
    HttpRouter H × HttpHandler H :=
  let access := Table.subscript r.routes path ∅
  let inner := Table.subscript access.2 method none
  (⟨access.1.insert path inner.1⟩, inner.2)

/-- `GetHandler(path)`. -/
def getHandlerDefault (r : HttpRouter H) (path : ByteString) : HttpRouter H × HttpHandler H :=
  r.getHandler path .get

end HttpRouter

end WebServer
