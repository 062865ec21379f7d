import ItexDemo.Http.Message
import ItexDemo.DemoManager.HttpServerHandler

/-!
# Who may add order books

`is_local_net_address` with the response that it prepares, and what `add_orderbook` leaves in the
queue writer and in the workset. The headers of the response and its time are those of the handler.
-/

namespace DemoManager

open Quant
open Http (Str Response)

/-- `http::Request::RemoteEndpoint`. -/
structure RemoteEndpoint where
  address : Str
  port : Nat

/-- The body of the response to a request that is refused. -/
def forbiddenBody (remote_endpoint : RemoteEndpoint) : Str :=
  "Request from ".toList ++ remote_endpoint.address ++ ":".toList ++
    Nat.toDigits 10 remote_endpoint.port ++ " forbidden".toList

/-- `is_local_net_address(req, resp)`: the result and the response. -/
def checkLocalNetAddress (remote_endpoint : RemoteEndpoint) (resp : Response) : Bool × Response :=
  if isLocalNetAddress remote_endpoint.address then (true, resp)
  else
    (false, { resp with status_code_ := .code403Forbidden, body_ := forbiddenBody remote_endpoint })

/-- The queue of the queue writer and the entries that were pushed to the workset, oldest first. -/
structure Sinks (D : Type*) where
  queue : List (QueueEntry D)
  workset : List (OrderbookEntry D)

namespace HttpServerHandler

variable {D : Type*} [LinearOrder D] [Zero D] (sorter : StdSort (D × D)) (ofId : UInt64 → D)

/-- What `add_orderbook` takes from the request and the clock. -/
structure BookRequest (D : Type*) where
  remote_endpoint : RemoteEndpoint
  security_id : UInt64
  timestamp : D
  prices : List D
  volumes : List D

/-- `add_orderbook` with what it leaves behind; no response when the process ends. -/
def addOrderbookTo (persist_workset_to_database : Bool) (sinks : Sinks D) (req : BookRequest D) :
    Sinks D × Option Response :=
  match checkLocalNetAddress req.remote_endpoint Http.Response.cleared with
  | (false, response) => (sinks, some response)
  | (true, response) =>
    match addOrderbook sorter ofId persist_workset_to_database req.remote_endpoint.address
      req.security_id req.timestamp req.prices req.volumes with
    | .forbidden => (sinks, some response)
    | .assertionFailed => (sinks, none)
    | .outOfBounds queued => ({ sinks with queue := sinks.queue ++ queued.toList }, none)
    | .pushed queued workset_entry =>
      ({ queue := sinks.queue ++ queued.toList, workset := sinks.workset ++ [workset_entry] },
        some { response with
          status_code_ := .code200Ok
          headers_ := AssocMap.assign response.headers_ "Content-Type".toList "text/json".toList })

end HttpServerHandler

end DemoManager
