import WebServer.Runtime.Bytes

/-!
# The enumerations of the HTTP layer

`HttpMethod.hpp`, `HttpProtocol.hpp` and `HttpStatusCode.hpp`.
-/

namespace WebServer

/-- `HttpMethod`, in the order of its values; the first is also the value that
`std::unordered_map` gives to a new entry. -/
inductive HttpMethod
  | get | head | post | put | delete | connect | options | trace | patch
  deriving DecidableEq, Repr, Inhabited

/-- `HttpProtocol`. -/
inductive HttpProtocol
  | v10 | v11 | v2
  deriving DecidableEq, Repr, Inhabited

/-- `HttpStatusCode`. -/
inductive HttpStatusCode
  | «continue» | switchingProtocols | earlyHints
  | ok | created | accepted | nonAuthoritativeInformation | noContent | resetContent
  | partialContent
  | multipleChoices | movedPermanently | found | seeOther | notModified | temporaryRedirect
  | permanentRedirect
  | badRequest | unauthorized | paymentRequired | forbidden | notFound | methodNotAllowed
  | notAcceptable | proxyAuthenticationRequired | requestTimeout | conflict | gone
  | lengthRequired | preconditionFailed | payloadTooLarge | uriTooLong | unsupportedMediaType
  | rangeNotSatisfiable | expectationFailed | imATeampot | unprocessableEntity | tooEarly
  | upgradeRequired | preconditionRequired | tooManyRequests | requestHeaderFieldsTooLarge
  | unavailableForLegalReasons
  | internalServerError | notImplemented | badGateway | serviceUnavailable | gatewayTimeout
  | httpVersionNotSupported | networkAuthenticationRequired
  deriving DecidableEq, Repr, Inhabited

/-- The number of a status code. -/
def HttpStatusCode.value : HttpStatusCode → UInt16
  | .continue => 100 | .switchingProtocols => 101 | .earlyHints => 103
  | .ok => 200 | .created => 201 | .accepted => 202 | .nonAuthoritativeInformation => 203
  | .noContent => 204 | .resetContent => 205 | .partialContent => 206
  | .multipleChoices => 300 | .movedPermanently => 301 | .found => 302 | .seeOther => 303
  | .notModified => 304 | .temporaryRedirect => 307 | .permanentRedirect => 308
  | .badRequest => 400 | .unauthorized => 401 | .paymentRequired => 402 | .forbidden => 403
  | .notFound => 404 | .methodNotAllowed => 405 | .notAcceptable => 406
  | .proxyAuthenticationRequired => 407 | .requestTimeout => 408 | .conflict => 409
  | .gone => 410 | .lengthRequired => 411 | .preconditionFailed => 412
  | .payloadTooLarge => 413 | .uriTooLong => 414 | .unsupportedMediaType => 415
  | .rangeNotSatisfiable => 416 | .expectationFailed => 417 | .imATeampot => 418
  | .unprocessableEntity => 422 | .tooEarly => 425 | .upgradeRequired => 426
  | .preconditionRequired => 428 | .tooManyRequests => 429
  | .requestHeaderFieldsTooLarge => 431 | .unavailableForLegalReasons => 451
  | .internalServerError => 500 | .notImplemented => 501 | .badGateway => 502
  | .serviceUnavailable => 503 | .gatewayTimeout => 504 | .httpVersionNotSupported => 505
  | .networkAuthenticationRequired => 511

end WebServer
