import ItexDemo.Lib.StdSort
import ItexDemo.Quant.OrderbookEntry
import ItexDemo.Quant.Tables

/-!
# `itex::quant::Utils::preload_workset_async`

A row of `avg_volumes` is accessed without a check, as the buffer of the entry is, so an index
outside of it is an access outside of the vector. `addAbs sum volume` is `sum + abs(volume)`, where
`abs` is the overload that the call is resolved to. Of the statistics only the accesses to the entry
are modelled.
-/

namespace Quant.Utils

variable {D : Type*} [LinearOrder D] [Zero D] (sorter : StdSort (D × D)) (addAbs : D → D → D)

/-- `avg_volumes[i] += abs(volume)`; `none` outside of the vector. -/
def addVolume (avg_volumes : List D) (i : Nat) (volume : D) : Option (List D) :=
  if i < avg_volumes.length then some (avg_volumes.set i (addAbs (avg_volumes.getD i 0) volume))
  else none

/-- The loop that stores one side, from row `i` on. -/
def storeSide (base : Nat) : Nat → List (D × D) → OrderbookEntry D → List D →
    Option (OrderbookEntry D × List D)
  | _, [], workset_entry, avg_volumes => some (workset_entry, avg_volumes)
  | i, row :: side, workset_entry, avg_volumes => do
    let workset_entry ← workset_entry.store (base + i * 2) row.1
    let workset_entry ← workset_entry.store (base + (i * 2 + 1)) row.2
    let avg_volumes ← addVolume addAbs avg_volumes i row.2
    storeSide base (i + 1) side workset_entry avg_volumes

/-- `avg_volumes.resize(n, 0.0)` when the vector is shorter. -/
def growTo (n : Nat) (avg_volumes : List D) : List D :=
  if avg_volumes.length < n then avg_volumes ++ List.replicate (n - avg_volumes.length) 0
  else avg_volumes

/-- The entry for the rows of one record of `orderbook_log`, and `avg_volumes` after it. -/
def preloadEntry (security_id timestamp : D) (orderbook_details_results : List (D × D))
    (avg_volumes : List D) : Option (OrderbookEntry D × List D) := do
  let orderbook_size := orderbook_details_results.length
  let avg_volumes := growTo (orderbook_size / 2) avg_volumes
  let sides := splitRows orderbook_details_results
  let bids := sorter.sort (fun a b => decide (a.1 > b.1)) sides.1
  let asks := sorter.sort (fun a b => decide (a.1 < b.1)) sides.2
  let workset_entry : OrderbookEntry D := .new (orderbook_size / 2)
  let workset_entry ← workset_entry.store OrderbookEntry.securityId security_id
  let workset_entry ← workset_entry.store OrderbookEntry.timestamp timestamp
  let (workset_entry, avg_volumes) ←
    storeSide addAbs OrderbookEntry.bids 0 bids workset_entry avg_volumes
  storeSide addAbs workset_entry.asks 0 asks workset_entry avg_volumes

/-! ## The loop over the records -/

/-- `copy_to(price, volume)` for every row of the details. -/
def readDetails (rows : List DetailRow) : Option (List (ℚ × ℚ)) :=
  rows.mapM fun row => do
    let price ← Decimal.stod row.price
    let volume ← Decimal.stod row.volume
    pure (price, volume)

/-- What a call pushes to the workset, with the log ids, and whether it comes to its end. -/
structure Preloaded where
  pushed : List (Nat × OrderbookEntry ℚ)
  completed : Bool

/-- The loop over the selected records. After an entry is pushed, the statistics read
`bids()[0]` and `asks()[0]`. -/
def preloadRecords (detailSorter : StdSort DetailRow) (sorter : StdSort (ℚ × ℚ))
    (addAbs : ℚ → ℚ → ℚ) (t : Tables) : List Tables.LogResult → List ℚ → Preloaded
  | [], _ => { pushed := [], completed := true }
  | record :: records, avg_volumes =>
    match Decimal.stoull (Decimal.digits record.id),
        Decimal.stoull (Decimal.digits record.alias_id), Decimal.stod record.timestamp with
    | .ok id, .ok security_id, some timestamp =>
      match (readDetails (t.selectDetails detailSorter id)).bind fun rows =>
          preloadEntry sorter addAbs (security_id : ℚ) timestamp rows avg_volumes with
      | some (workset_entry, avg_volumes) =>
        if workset_entry.orderbook_depth_ = 0 then
          { pushed := [(id, workset_entry)], completed := false }
        else
          let rest := preloadRecords detailSorter sorter addAbs t records avg_volumes
          { rest with pushed := (id, workset_entry) :: rest.pushed }
      | none => { pushed := [], completed := false }
    | _, _, _ => { pushed := [], completed := false }

/-- `Utils::preload_workset_async`. -/
def preloadWorksetAsync (logSorter : StdSort Tables.LogResult) (detailSorter : StdSort DetailRow)
    (sorter : StdSort (ℚ × ℚ)) (addAbs : ℚ → ℚ → ℚ) (t : Tables) (capacity offset : Nat)
    (after_timestamp : ℚ) : Preloaded :=
  preloadRecords detailSorter sorter addAbs t
    (t.selectLog logSorter capacity offset after_timestamp) []

end Quant.Utils
