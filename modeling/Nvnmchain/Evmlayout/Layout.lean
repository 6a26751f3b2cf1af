import Nvnmchain.Anchoring.Types
import Nvnmchain.Lib.Word

/-!
# The anchoring contract's storage layout

`x/anchoring/evmlayout/layout.go`: the slots of the contract's state variables and of the fields of
its structs, and the words a registry, a record or a list of ids is written as. A slot and its value
are words; a mapping's element is found by hashing its key and the mapping's slot.
-/

set_option autoImplicit false

namespace Nvnmchain.Evmlayout

open Go (Bytes)
open Eth (Hash bigToHash putUint64)

/-! ## Slots -/

def slotRoleAdmin : UInt64 := 0
def slotRoleMembers : UInt64 := 1
def slotRoleMemberCount : UInt64 := 2
/-- The old admin in the low 20 bytes, the registry count in the 8 above. -/
def slotHeader : UInt64 := 3
def slotRegistries : UInt64 := 4
def slotRecordCount : UInt64 := 5
def slotLatestIndex : UInt64 := 6
def slotRecords : UInt64 := 7
def slotRecordIDByChecksum : UInt64 := 8
def slotRegistriesByChecksum : UInt64 := 9
def slotRegistriesByName : UInt64 := 10

def registryID : UInt64 := 0
def registryName : UInt64 := 1
def registryDescription : UInt64 := 2
def registryCreator : UInt64 := 3
def registryCreatedAt : UInt64 := 4
def registryMetadata : UInt64 := 5

def recordURI : UInt64 := 0
def recordChecksum : UInt64 := 1
def recordChecksumAlgo : UInt64 := 2
def recordMetadata : UInt64 := 3
def recordTimestamp : UInt64 := 4
def recordStatus : UInt64 := 5
def recordPacked : UInt64 := 6

/-- `Write`. -/
structure Write where
  slot : Hash
  value : Hash
deriving DecidableEq

/-- `Word`. -/
def word (v : UInt64) : Hash := Hash.zero.copyInto 24 (putUint64 v)

/-- `at`. -/
def slotAt (base : Hash) (n : UInt64) : Hash := bigToHash (base.big + n.toNat)

/-- `mapHash`. -/
def mapHash (env : Env) (key parent : Hash) : Hash := env.keccak256 (key.bytes ++ parent.bytes)

/-- `mapUint64`. -/
def mapUint64 (env : Env) (key : UInt64) (parent : Hash) : Hash :=
  env.keccak256 ((word key).bytes ++ parent.bytes)

/-- `MapString`. -/
def mapString (env : Env) (key : Bytes) (parent : Hash) : Hash := env.keccak256 (key ++ parent.bytes)

/-- `ArrayData`. -/
def arrayData (env : Env) (lengthSlot : Hash) : Hash := env.keccak256 lengthSlot.bytes

/-! ## Values -/

/-- A string of less than 32 bytes in its slot. -/
def shortString (s : Bytes) : Hash :=
  (Hash.zero.copyInto 0 s).copyInto 31 [UInt8.ofNat (s.length * 2)]

/-- The word of a string that starts at byte `i`. -/
def stringWord (s : Bytes) (i : Nat) : Hash := Hash.zero.copyInto 0 (s.drop i)

/-- `stringWrites`. The loop's `i` is 32 times the number of the word. -/
def stringWrites (env : Env) (base : Hash) (s : Bytes) : List Write :=
  if s.length < 32 then [⟨base, shortString s⟩]
  else
    let start := arrayData env base
    ⟨base, word (UInt64.ofNat (s.length * 2 + 1))⟩ ::
      (List.range ((s.length + 31) / 32)).map fun j =>
        ⟨slotAt start (UInt64.ofNat j), stringWord s (32 * j)⟩

/-- `registryBase`. -/
def registryBase (env : Env) (registryID : UInt64) : Hash :=
  mapUint64 env registryID (word slotRegistries)

/-- `recordBase`. -/
def recordBase (env : Env) (registryID recordID index : UInt64) : Hash :=
  mapUint64 env index (mapUint64 env recordID (mapUint64 env registryID (word slotRecords)))

/-- `registryWrites`. -/
def registryWrites (env : Env) (base : Hash) (reg : Registry) : List Write :=
  [⟨slotAt base registryID, word reg.id⟩] ++
    stringWrites env (slotAt base registryName) reg.name ++
    stringWrites env (slotAt base registryDescription) reg.description ++
    stringWrites env (slotAt base registryCreator) reg.creator ++
    stringWrites env (slotAt base registryCreatedAt) reg.createdAt ++
    stringWrites env (slotAt base registryMetadata) reg.metadata

/-- `packRecord`. -/
def packRecord (recordID index : UInt64) (isLatest : Bool) (registryID : UInt64) : Hash :=
  let h := Hash.zero.copyInto 24 (putUint64 recordID)
  let h := h.copyInto 16 (putUint64 index)
  let h := if isLatest then h.copyInto 15 [1] else h
  h.copyInto 7 (putUint64 registryID)

/-- `recordWrites`. -/
def recordWrites (env : Env) (base : Hash) (rec : Record) : List Write :=
  stringWrites env (slotAt base recordURI) rec.uri ++
    stringWrites env (slotAt base recordChecksum) rec.checksum ++
    stringWrites env (slotAt base recordChecksumAlgo) rec.checksumAlgo ++
    stringWrites env (slotAt base recordMetadata) rec.metadata ++
    stringWrites env (slotAt base recordTimestamp) rec.timestamp ++
    stringWrites env (slotAt base recordStatus) rec.status ++
    [⟨slotAt base recordPacked, packRecord rec.recordId rec.index rec.isLatest rec.registryId⟩]

/-- One round of the loop of `idsWrites`: every fourth id opens a word, and each is put into the last
one. -/
def putId (data : Hash) (writes : List Write) (i : Nat) (id : UInt64) : List Write :=
  let writes := if i % 4 = 0 then writes ++ [⟨slotAt data (UInt64.ofNat (i / 4)), .zero⟩] else writes
  writes.modifyLast fun w =>
    { w with value := w.value.copyInto (32 - 8 * (i % 4) - 8) (putUint64 id) }

/-- `idsWrites`. -/
def idsWrites (env : Env) (table : Hash) (key : Bytes) (list : List UInt64) : List Write :=
  let lengthSlot := mapString env key table
  let data := arrayData env lengthSlot
  list.zipIdx.foldl (fun writes e => putId data writes e.2 e.1)
    [⟨lengthSlot, word (UInt64.ofNat list.length)⟩]

end Nvnmchain.Evmlayout
