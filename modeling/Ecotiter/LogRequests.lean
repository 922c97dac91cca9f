import Ecotiter.JsonFinders
import Ecotiter.LogBuffer

/-!
# Requests for log entries

The part of `api_logs_handler` in `http_server.cpp` that reads the query and fetches the entries. The
calls that take a query apart belong to the server library.
-/

namespace Ecotiter
open BoundedOutput LogBuffer MotorController

namespace Config

def logFetchDefaultLimit : ℤ := 20
def logFetchMaxLimit : ℤ := 100

end Config

/-- What the server library says about the query of a request: the text of `qbuf`, if there is a
query that fits, and the text of `val` for a key of it. -/
structure UrlQuery where
  urlQueryStr : Option (CharArray 128)
  keyValue : CString → CString → Option (CharArray 16)

/-- `atoi` of a string. -/
def atoi (s : CString) : ℤ := ((strtol (s ++ [0])).join).getD 0

namespace UrlQuery

def value (q : UrlQuery) (key : String) : Option CString := do
  let qbuf ← q.urlQueryStr
  let val ← q.keyValue qbuf.string (utf8 key.toList)
  return val.string

def limit (q : UrlQuery) : ℤ :=
  match q.value "limit" with
  | none => Config.logFetchDefaultLimit
  | some val =>
    let parsed := atoi val
    if 0 < parsed ∧ parsed ≤ Config.logFetchMaxLimit then parsed else Config.logFetchDefaultLimit

/-- The array `levelFilter`, which begins as zeros. -/
def levelFilter (q : UrlQuery) : CString :=
  ((q.value "level").map fun val => (CharArray.strncpy 16 val).string).getD []

/-- The entries that are written into the array of the handler. -/
def entries (q : UrlQuery) (b : LogBuffer) : List LogEntry :=
  b.fetch q.limit.toNat (if q.levelFilter = [] then none else some q.levelFilter)

/-- The slots with an entry that the request asks for. -/
def matchingSlots (q : UrlQuery) (b : LogBuffer) : List LogEntry :=
  b.slots.filter fun slot =>
    slot.timestampMs ≠ 0 && (q.levelFilter.isEmpty || slot.level.string == q.levelFilter)

/-- The size of the array of the handler. -/
def entriesSize : ℕ := 50

theorem length_entries (q : UrlQuery) (b : LogBuffer) :
    (q.entries b).length = min q.limit.toNat (q.matchingSlots b).length := by
  rw [entries, length_fetch, LogBuffer.matchingSlots, matchingSlots]
  by_cases hfilter : q.levelFilter = []
  · rw [if_pos hfilter, hfilter]
    rfl
  · rw [if_neg hfilter]
    rfl

theorem entries_stayInside (q : UrlQuery) (b : LogBuffer) :
    (q.entries b).length ≤ entriesSize ↔
      q.limit ≤ entriesSize ∨ (q.matchingSlots b).length ≤ entriesSize := by
  rw [length_entries, entriesSize]
  omega

/-- What the library makes of the query `limit=100`. -/
def hundredQuery : UrlQuery where
  urlQueryStr := some (CharArray.strncpy 128 (utf8 "limit=100".toList))
  keyValue _ key :=
    if key = utf8 "limit".toList then some (CharArray.strncpy 16 (utf8 "100".toList)) else none

/-- Of one entry more than the array holds all are written. -/
theorem entries_hundred :
    (hundredQuery.entries ((init logBufEntries).run (callsOf (List.replicate 51 older)))).length =
      entriesSize + 1 := by
  have hlimit : hundredQuery.limit = 100 := by decide
  have hfilter : hundredQuery.levelFilter = [] := by decide
  have hfollows := follows_run logBufEntries (callsOf (List.replicate 51 older))
  rw [pushes_callsOf] at hfollows
  have hfetch := fetch_aligned hfollows (by decide) (.inl (by decide)) 100 none
  have hlength := congrArg List.length hfetch
  rw [List.length_map] at hlength
  rw [entries, hlimit, hfilter, if_pos rfl]
  exact hlength.trans (by decide)

end UrlQuery
end Ecotiter
