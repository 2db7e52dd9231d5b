import NetworkingFramework.Ip4
import NetworkingFramework.Trie

/-!
# The database of a DNS server

`dns_database`: two tries over the `char`s of a name, one with the addresses and one with the mail servers.
-/

namespace NetworkingFramework

open Wire

/-- `dns_database::assign`. A `char` is signed, so its conversion to a `size_t` extends the high bit. -/
def assign (val : UInt8) : Nat := if val.toNat < 128 then val.toNat else UInt64.size - 256 + val.toNat

/-- The size of the array of children. -/
def assignRange : Nat := 256

/-- `dns_database`. A new node has an `ip4_addr` that nothing was written to, and an empty string. -/
structure DnsDatabase where
  mappingsA : TrieNode assignRange (Option Ip4Addr)
  mappingsMx : TrieNode assignRange Bytes

/-- `mappings.add_word(name)->key = key`. -/
def addRecord {KEY : Type} [Inhabited KEY] (mappings : TrieNode assignRange KEY) (name : Bytes) (key : KEY) :
    Except Fault (TrieNode assignRange KEY) := do
  let (mappings, node) ← mappings.addWord assign name
  mappings.writeKey assign key node

/-- The key that `mappings.search(name)` leads to, when its node is marked. -/
def searchRecord {KEY : Type} (mappings : TrieNode assignRange KEY) (name : Bytes) : Except Fault (Option KEY) := do
  match ← mappings.search assign name with
  | none => return none
  | some res => return if res.marked then some res.key else none

namespace DnsDatabase

/-- A database as it is created. -/
def empty : DnsDatabase := ⟨.new, .new⟩

/-- `add_record_a`. -/
def addRecordA (db : DnsDatabase) (name : Bytes) (addr : Ip4Addr) : Except Fault DnsDatabase := do
  return { db with mappingsA := ← addRecord db.mappingsA name (some addr) }

/-- `search_record_a`. -/
def searchRecordA (db : DnsDatabase) (name : Bytes) : Except Fault (Option Ip4Addr) := do
  match ← searchRecord db.mappingsA name with
  | none => return none
  | some none => throw .uninitialized
  | some (some addr) => return some addr

/-- `add_record_mx`. -/
def addRecordMx (db : DnsDatabase) (name res : Bytes) : Except Fault DnsDatabase := do
  return { db with mappingsMx := ← addRecord db.mappingsMx name res }

/-- `search_record_mx`. -/
def searchRecordMx (db : DnsDatabase) (name : Bytes) : Except Fault (Option Bytes) := searchRecord db.mappingsMx name

end DnsDatabase

/-! ## Runs -/

/-- A call that adds a record. -/
inductive DnsAdd where
  | a (name : Bytes) (addr : Ip4Addr)
  | mx (name res : Bytes)

/-- The name of the record added. -/
def DnsAdd.name : DnsAdd → Bytes
  | a name _ => name
  | mx name _ => name

/-- One call. -/
def DnsDatabase.add (db : DnsDatabase) : DnsAdd → Except Fault DnsDatabase
  | .a name addr => db.addRecordA name addr
  | .mx name res => db.addRecordMx name res

/-- Call after call. -/
def DnsDatabase.addAll (db : DnsDatabase) (adds : List DnsAdd) : Except Fault DnsDatabase := adds.foldlM DnsDatabase.add db

end NetworkingFramework
