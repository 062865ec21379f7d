import ItexDemo.Lib.StdSort
import ItexDemo.Quant.OrderbookEntry

/-!
# `HTTPServerHandler::add_orderbook`

The request is given by what the handler takes from it: the remote address, the security id of the
URL, the time, and the arrays `prices` and `volumes` of the JSON body. What is left out is the text
of the body and of the response.
-/

namespace DemoManager

open Quant

/-- `OrderbookQueueWriter::QueueEntry`, as `add_orderbook` fills it. -/
structure QueueEntry (D : Type*) where
  security_id : UInt64
  timestamp : D
  prices : List D
  volumes : List D
  /-- Both vectors are resized to the number of prices. -/
  size_eq : prices.length = volumes.length

/-- The price levels of an entry. -/
def QueueEntry.levels {D : Type*} (entry : QueueEntry D) : List (D × D) :=
  entry.prices.zip entry.volumes

/-- `is_local_net_address`. -/
def isLocalNetAddress (address : List Char) : Bool :=
  let subnet_start := address.take 4
  subnet_start.take 3 = "10.".toList || subnet_start = "127.".toList ||
    subnet_start = "172.".toList || subnet_start = "192.".toList

namespace HttpServerHandler

variable {D : Type*} [LinearOrder D] [Zero D] (sorter : StdSort (D × D)) (ofId : UInt64 → D)

/-- The loop that stores one side, from row `i` on. -/
def storeSide (base : Nat) : Nat → List (D × D) → OrderbookEntry D → Option (OrderbookEntry D)
  | _, [], workset_entry => some workset_entry
  | i, row :: side, workset_entry => do
    let workset_entry ← workset_entry.store (base + i * 2) row.1
    let workset_entry ← workset_entry.store (base + (i * 2 + 1)) row.2
    storeSide base (i + 1) side workset_entry

/-- The copy of the JSON arrays; `none` when `volumes` is the shorter one, where the access to it
fails an assertion. -/
def readBook (security_id : UInt64) (timestamp : D) (prices volumes : List D) :
    Option (QueueEntry D) :=
  if h : prices.length ≤ volumes.length then
    some { security_id := security_id, timestamp := timestamp, prices := prices,
           volumes := volumes.take prices.length, size_eq := (List.length_take_of_le h).symm }
  else none

/-- The entry for the workset. `ofId` is the cast of the id to `double`. -/
def worksetEntry (entry : QueueEntry D) : Option (OrderbookEntry D) := do
  let orderbook_size := entry.prices.length
  let sides := splitRows entry.levels
  let bids := sorter.sort (fun a b => decide (a.1 > b.1)) sides.1
  let asks := sorter.sort (fun a b => decide (a.1 < b.1)) sides.2
  let workset_entry : OrderbookEntry D := .new (orderbook_size / 2)
  let workset_entry ← workset_entry.store OrderbookEntry.securityId (ofId entry.security_id)
  let workset_entry ← workset_entry.store OrderbookEntry.timestamp entry.timestamp
  let workset_entry ← storeSide OrderbookEntry.bids 0 bids workset_entry
  storeSide workset_entry.asks 0 asks workset_entry

/-- What a request leaves behind. -/
inductive Added (D : Type*) where
  | forbidden
  | assertionFailed
  /-- An access outside of the entry, after `queued` went to the queue writer. -/
  | outOfBounds (queued : Option (QueueEntry D))
  | pushed (queued : Option (QueueEntry D)) (workset_entry : OrderbookEntry D)

/-- `HTTPServerHandler::add_orderbook`. -/
def addOrderbook (persist_workset_to_database : Bool) (address : List Char) (security_id : UInt64)
    (timestamp : D) (prices volumes : List D) : Added D :=
  if isLocalNetAddress address then
    match readBook security_id timestamp prices volumes with
    | none => .assertionFailed
    | some entry =>
      let queued := if persist_workset_to_database then some entry else none
      match worksetEntry sorter ofId entry with
      | none => .outOfBounds queued
      | some workset_entry => .pushed queued workset_entry
  else .forbidden

end HttpServerHandler

end DemoManager
