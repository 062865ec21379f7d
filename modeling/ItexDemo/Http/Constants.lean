import ItexDemo.Lib.AssocMap

/-!
# `http/constants.hpp`

The request methods, and the status codes with their numbers and texts.
-/

namespace Http

/-- A C++ string; a `char` is modelled by a `Char`. -/
abbrev Str := List Char

/-- `enum class Method`. -/
inductive Method where
  | unknown
  | delete | get | head | post | put
  | connect | options | trace
  | copy | lock | mkcol | move | propfind | proppatch | search | unlock
  | report | mkactivity | checkout | merge
  | msearch | notify | subscribe | unsubscribe
  | patch | purge
  deriving DecidableEq, Repr

/-- `static_cast<size_t>(method)`. -/
def Method.toSize (method : Method) : Nat := method.ctorIdx

theorem Method.ofNat_toSize (method : Method) : Method.ofNat method.toSize = method := by
  cases method <;> rfl

theorem Method.toSize_injective {m n : Method} (h : m.toSize = n.toSize) : m = n := by
  rw [← m.ofNat_toSize, h, n.ofNat_toSize]

/-- `method_map`, with the numbers of `enum http_method`. -/
def methodMap : List (Nat × Method) :=
  [(0, .delete), (1, .get), (2, .head), (3, .post), (4, .put), (5, .connect), (6, .options),
   (7, .trace), (8, .copy), (9, .lock), (10, .mkcol), (11, .move), (12, .propfind),
   (13, .proppatch), (14, .search), (15, .unlock), (20, .report), (21, .mkactivity),
   (22, .checkout), (23, .merge), (24, .msearch), (25, .notify), (26, .subscribe),
   (27, .unsubscribe), (28, .patch), (29, .purge)]

/-- `enum class StatusCode`. -/
inductive StatusCode where
  | unknown
  | code100Continue | code101SwitchingProtocols | code102Processing
  | code200Ok | code201Created | code202Accepted | code203NonAuthoritativeInformation
  | code204NoContent | code205ResetContent | code206PartialContent | code207MultiStatus
  | code208AlreadyReported | code226ImUsed
  | code300MultipleChoices | code301MovedPermanently | code302Found | code303SeeOther
  | code304NotModified | code305UseProxy | code307TemporaryRedirect | code308PermanentRedirect
  | code400BadRequest | code401Unauthorized | code402PaymentRequired | code403Forbidden
  | code404NotFound | code405MethodNotAllowed | code406NotAcceptable
  | code407ProxyAuthenticationRequired | code408RequestTimeout | code409Conflict | code410Gone
  | code411LengthRequired | code412PreconditionFailed | code413PayloadTooLarge
  | code414UriTooLong | code415UnsupportedMediaType | code416RangeNotSatisfiable
  | code417ExpectationFailed | code422UprocessableEntity | code423Locked
  | code424FailedDependency | code426UpgradeRequired | code428PreconditionRequired
  | code429TooManyRequests | code431RequestHeaderFieldsTooLarge
  | code500InternalServerError | code501NotImplemented | code502BadGateway
  | code503ServiceUnavailable | code504GatewayTimeout | code505HttpVersionNotSupported
  | code506VariantAlsoNegotiates | code507InsufficientStorage | code508LoopDetected
  | code510NotExtended | code511NetworkAuthenticationRequired
  deriving DecidableEq

/-- `HTTP_STATUS_CODE_MAP`. -/
def httpStatusCodeMap : List (Nat × StatusCode × String) :=
  [(100, .code100Continue, "100 Continue"),
   (101, .code101SwitchingProtocols, "101 Switching Protocols"),
   (102, .code102Processing, "102 Processing"),
   (200, .code200Ok, "200 OK"),
   (201, .code201Created, "201 Created"),
   (202, .code202Accepted, "202 Accepted"),
   (203, .code203NonAuthoritativeInformation, "203 Non-Authoritative Information"),
   (204, .code204NoContent, "204 No Content"),
   (205, .code205ResetContent, "205 Reset Content"),
   (206, .code206PartialContent, "206 Partial Content"),
   (207, .code207MultiStatus, "207 Multi-Status"),
   (208, .code208AlreadyReported, "208 Already Reported"),
   (226, .code226ImUsed, "226 IM Used"),
   (300, .code300MultipleChoices, "300 Multiple Choices"),
   (301, .code301MovedPermanently, "301 Moved Permanently"),
   (302, .code302Found, "302 Found"),
   (303, .code303SeeOther, "303 See Other"),
   (304, .code304NotModified, "304 Not Modified"),
   (305, .code305UseProxy, "305 Use Proxy"),
   (307, .code307TemporaryRedirect, "307 Temporary Redirect"),
   (308, .code308PermanentRedirect, "308 Permanent Redirect"),
   (400, .code400BadRequest, "400 Bad Request"),
   (401, .code401Unauthorized, "401 Unauthorized"),
   (402, .code402PaymentRequired, "402 Payment Required"),
   (403, .code403Forbidden, "403 Forbidden"),
   (404, .code404NotFound, "404 Not Found"),
   (405, .code405MethodNotAllowed, "405 Method Not Allowed"),
   (406, .code406NotAcceptable, "406 Not Acceptable"),
   (407, .code407ProxyAuthenticationRequired, "407 Proxy Authentication Required"),
   (408, .code408RequestTimeout, "408 Request Timeout"),
   (409, .code409Conflict, "409 Conflict"),
   (410, .code410Gone, "410 Gone"),
   (411, .code411LengthRequired, "411 Length Required"),
   (412, .code412PreconditionFailed, "412 Precondition Failed"),
   (413, .code413PayloadTooLarge, "413 Payload Too Large"),
   (414, .code414UriTooLong, "414 URI Too Long"),
   (415, .code415UnsupportedMediaType, "415 Unsupported Media Type"),
   (416, .code416RangeNotSatisfiable, "416 Range Not Satisfiable"),
   (417, .code417ExpectationFailed, "417 Expectation Failed"),
   (422, .code422UprocessableEntity, "422 Unprocessable Entity"),
   (423, .code423Locked, "423 Locked"),
   (424, .code424FailedDependency, "424 Failed Dependency"),
   (426, .code426UpgradeRequired, "426 Upgrade Required"),
   (428, .code428PreconditionRequired, "428 Precondition Required"),
   (429, .code429TooManyRequests, "429 Too Many Requests"),
   (431, .code431RequestHeaderFieldsTooLarge, "431 Request Header Fields Too Large"),
   (500, .code500InternalServerError, "500 Internal Server Error"),
   (501, .code501NotImplemented, "501 Not Implemented"),
   (502, .code502BadGateway, "502 Bad Gateway"),
   (503, .code503ServiceUnavailable, "503 Service Unavailable"),
   (504, .code504GatewayTimeout, "504 Gateway Timeout"),
   (505, .code505HttpVersionNotSupported, "505 HTTP Version Not Supported"),
   (506, .code506VariantAlsoNegotiates, "506 Variant Also Negotiates"),
   (507, .code507InsufficientStorage, "507 Insufficient Storage"),
   (508, .code508LoopDetected, "508 Loop Detected"),
   (510, .code510NotExtended, "510 Not Extended"),
   (511, .code511NetworkAuthenticationRequired, "511 Network Authentication Required")]

/-- `status_code_to_sting`. -/
def statusCodeToSting : List (StatusCode × Str) :=
  httpStatusCodeMap.map fun row => (row.2.1, row.2.2.toList)

/-- `num_to_status_code`. -/
def numToStatusCode : List (Nat × StatusCode) := httpStatusCodeMap.map fun row => (row.1, row.2.1)

end Http
