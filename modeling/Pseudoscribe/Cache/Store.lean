import Pseudoscribe.Assembly.Basic
import Pseudoscribe.Digest.Md5
import Pseudoscribe.Error

/-!
# The store of results

A store keeps a limited number of results.  Every time a result is stored or read it gets the next number
in sequence, and when there are too many the one with the lowest number goes.  A value that cannot be
read any more counts as oldest; it is not counted when the store is opened.

A result may be used again for the same source, language, model and limits of chunks; limits count,
because other chunks make another result.
-/

namespace Pseudoscribe

/-! ## Keys of stored results -/

/-- What a stored result depends on. -/
structure CacheQuery where
  source : String
  language : String
  backend : String
  model : String
  revision : String
  maxChunkSize : Nat
  overlapLines : Nat
deriving DecidableEq, Repr

/-- The key under which a result is stored: the digest of the source, then the rest in full. -/
def CacheQuery.key (q : CacheQuery) : String :=
  s!"{Md5.ofText q.source}:{q.language}:{q.backend}:{q.model}@{q.revision}:" ++
    s!"{q.maxChunkSize}/{q.overlapLines}"

/-! ## Stored results -/

/-- A stored value. -/
structure StoredResult where
  key : String
  /-- the result; nothing if it cannot be read -/
  value : Option Assembly
  /-- the number of its last use -/
  sequence : Nat
deriving DecidableEq, Repr

/-- What is known of the use of a store. -/
structure StoreStats where
  entries : Nat
  maxEntries : Nat
  hits : Nat
  misses : Nat
deriving DecidableEq, Repr

/-- A store that is open. -/
structure ResultStore where
  /-- the stored values, in the order of their keys -/
  entries : List StoredResult := []
  maxEntries : Nat
  /-- how many values there are, as far as they were counted -/
  count : Nat := 0
  nextSequence : Nat := 1
  hits : Nat := 0
  misses : Nat := 0
deriving Repr

namespace ResultStore

/-- Open a store over values that were kept. -/
def load (maxEntries : Nat) (entries : List StoredResult) : Except StoreError ResultStore :=
  if maxEntries = 0 then .error (.io "max_entries must be greater than 0")
  else
    let readable := entries.filter (·.value.isSome)
    .ok { entries
          maxEntries
          count := readable.length
          nextSequence := (readable.map (·.sequence)).foldl max 0 + 1 }

/-- The count after one value was taken away.  Counts have 64 bits, and below zero they begin again at
the top. -/
def countDown (count : Nat) : Nat := if count = 0 then Nat.pow 2 64 - 1 else count - 1

def countUp (count : Nat) : Nat := if count = Nat.pow 2 64 - 1 then 0 else count + 1

def find? (s : ResultStore) (key : String) : Option StoredResult :=
  s.entries.find? (·.key == key)

/-- Put a value at its place among the keys, in place of one with the same key. -/
def insertEntry (e : StoredResult) : List StoredResult → List StoredResult
  | [] => [e]
  | x :: xs =>
    if x.key == e.key then e :: xs
    else if e.key < x.key then e :: x :: xs
    else x :: insertEntry e xs

/-- The number by which a value is judged old. -/
def age (e : StoredResult) : Nat := if e.value.isSome then e.sequence else 0

/-- The oldest value; of several equally old ones the first. -/
def oldest? : List StoredResult → Option StoredResult
  | [] => none
  | x :: xs =>
    match oldest? xs with
    | some y => if age y < age x then some y else some x
    | none => some x

/-- Take the oldest value away. -/
def evict (s : ResultStore) : ResultStore :=
  match oldest? s.entries with
  | none => s
  | some e =>
    { s with entries := s.entries.filter (·.key != e.key), count := countDown s.count }

/-- Take the oldest values away until no more are counted than allowed, or none is left. -/
def shrink : Nat → ResultStore → ResultStore
  | 0, s => s
  | fuel + 1, s => if s.maxEntries < s.count then shrink fuel s.evict else s

/-- Store a result under a key. -/
def save (s : ResultStore) (key : String) (value : Assembly) : ResultStore :=
  let count := if (s.find? key).isSome then s.count else countUp s.count
  let s := { s with
    entries := insertEntry ⟨key, some value, s.nextSequence⟩ s.entries
    nextSequence := s.nextSequence + 1
    count }
  shrink s.entries.length s

/-- Read the result under a key. -/
def retrieve (s : ResultStore) (key : String) : Except StoreError (Option Assembly) × ResultStore :=
  match s.find? key with
  | none => (.ok none, { s with misses := s.misses + 1 })
  | some e =>
    match e.value with
    | none => (.error (.serialization "unreadable entry"), s)
    | some value =>
      (.ok (some value),
       { s with
         entries := insertEntry { e with sequence := s.nextSequence } s.entries
         nextSequence := s.nextSequence + 1
         hits := s.hits + 1 })

/-- Take the value under a key away. -/
def remove (s : ResultStore) (key : String) : ResultStore :=
  match s.find? key with
  | none => s
  | some _ =>
    { s with entries := s.entries.filter (·.key != key), count := countDown s.count }

def stats (s : ResultStore) : StoreStats := ⟨s.count, s.maxEntries, s.hits, s.misses⟩

end ResultStore

end Pseudoscribe
