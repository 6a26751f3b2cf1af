import Nvnmchain.Lib.OrderedMap
import Nvnmchain.Lib.Word

/-!
# Collections in one store of bytes

A module's collections share one store, whose keys and values are byte strings. A collection keeps
its entries under the keys that start with its own byte, and reads and writes them through a codec for
keys and one for values. What a collection sees of the store is the range of keys from its byte to the
next (`mem_entries`).

Two operations go over a whole collection. A walk decodes every entry, and fails at the first that
does not decode; the keys it collects are those of the entries (`collectKeys_keys`). A loop over collected
keys may then rewrite each entry under its key: it changes those entries and nothing else
(`foldlM_rewrite`). `clear` removes the entries of one collection.
-/

set_option autoImplicit false

namespace Collections

open Go (Bytes)

/-- A store of bytes. -/
abbrev RawStore := Map Bytes Bytes

/-- A codec reads back what it writes. -/
structure Codec (ε α : Type) where
  encode : α → Bytes
  decode : Bytes → Except ε α
  decode_encode : ∀ a, decode (encode a) = .ok a

/-- A key codec also reads nothing else than what it writes: a key has one form. -/
structure KeyCodec (ε κ : Type) extends Codec ε κ where
  encode_decode : ∀ b k, decode b = .ok k → encode k = b

/-- The keys between two byte strings, and their values, in order. -/
def RawStore.range (raw : RawStore) (start stop : Bytes) : List (Bytes × Bytes) :=
  raw.toList.filter fun e => (compare start e.1).isLE && (compare e.1 stop).isLT

/-- A collection: its byte, and the codecs of its keys and values. The last byte is left out, as no
byte bounds its range. -/
structure Collection (ε κ ν : Type) where
  byte : UInt8
  byte_lt : byte < 255
  keys : KeyCodec ε κ
  values : Codec ε ν

namespace Collection

variable {ε κ ν σ : Type}

/-- The key of the store an entry has. -/
def rawKey (c : Collection ε κ ν) (k : κ) : Bytes := c.byte :: c.keys.encode k

/-- The part of the store that belongs to a collection. -/
def entries (c : Collection ε κ ν) (raw : RawStore) : List (Bytes × Bytes) :=
  raw.range [c.byte] [c.byte + 1]

/-- `Map.Walk` over all of a collection. -/
def walk (c : Collection ε κ ν) (f : σ → κ → ν → Except ε (Bool × σ)) (s : σ) (raw : RawStore) :
    Except ε σ :=
  Collections.walk (fun s key value => do
    let k ← c.keys.decode key.tail
    let v ← c.values.decode value
    f s k v) s (c.entries raw)

/-- `Map.Get`, with the error of an absent key. -/
def get (c : Collection ε κ ν) (notFound : ε) (raw : RawStore) (k : κ) : Except ε ν :=
  match raw[c.rawKey k]? with
  | none => .error notFound
  | some b => c.values.decode b

/-- `Map.Set`. -/
def set (c : Collection ε κ ν) (raw : RawStore) (k : κ) (v : ν) : RawStore :=
  raw.insert (c.rawKey k) (c.values.encode v)

/-- `Map.Clear` of all of a collection. -/
def clear (c : Collection ε κ ν) (raw : RawStore) : RawStore :=
  (c.entries raw).foldl (fun raw e => raw.erase e.1) raw

/-- The value of a key, where there is one that decodes. -/
def at? (c : Collection ε κ ν) (raw : RawStore) (k : κ) : Option ν :=
  (raw[c.rawKey k]?).bind fun b => (c.values.decode b).toOption

/-- Every entry of a collection is one: its key and its value decode. -/
def Decodes (c : Collection ε κ ν) (raw : RawStore) : Prop :=
  ∀ key value : Bytes, raw[key]? = some value → key.head? = some c.byte →
    (∃ k, c.keys.decode key.tail = .ok k) ∧ ∃ v, c.values.decode value = .ok v

/-! ## Keys -/

/-- The byte strings from one byte to the next are those that start with it. -/
theorem inRange_iff {b : UInt8} (hb : b < 255) (key : Bytes) :
    ((compare [b] key).isLE && (compare key [b + 1]).isLT) = true ↔ key.head? = some b := by
  cases key with
  | nil => exact ⟨(fun h => nomatch h), (fun h => nomatch h)⟩
  | cons c rest =>
    have hstart : compare [b] (c :: rest) = (compare b c).then (compare [] rest) :=
      List.compareLex_cons_cons
    have hstop : compare (c :: rest) [b + 1] = (compare c (b + 1)).then (compare rest []) :=
      List.compareLex_cons_cons
    rw [hstart, hstop, Bool.and_eq_true, List.head?_cons, Option.some.injEq]
    rcases (by grind : c < b ∨ c = b ∨ c = b + 1 ∨ b + 1 < c) with h | h | h | h
    · have hgt : compare b c = .gt := Std.compare_eq_gt.mpr h
      rw [hgt]
      exact ⟨(fun h => nomatch h.1), fun e => absurd (e ▸ h) (UInt8.lt_irrefl b)⟩
    · have heq : compare b c = .eq := Std.LawfulEqOrd.compare_eq_iff_eq.mpr h.symm
      have hlt : compare c (b + 1) = .lt := Std.compare_eq_lt.mpr (by grind)
      rw [heq, hlt]
      refine ⟨fun _ => h, fun _ => ⟨?_, rfl⟩⟩
      cases rest <;> rfl
    · have heq : compare c (b + 1) = .eq := Std.LawfulEqOrd.compare_eq_iff_eq.mpr h
      rw [heq]
      refine ⟨fun hlt => ?_, fun e => by grind⟩
      cases rest <;> exact nomatch hlt.2
    · have hgt : compare c (b + 1) = .gt := Std.compare_eq_gt.mpr h
      rw [hgt]
      exact ⟨(fun h => nomatch h.2), fun e => by grind⟩

variable {c : Collection ε κ ν} {raw : RawStore}

/-- The entries of a collection are those whose key starts with its byte. -/
theorem mem_entries {key value : Bytes} :
    (key, value) ∈ c.entries raw ↔ raw[key]? = some value ∧ key.head? = some c.byte := by
  rw [entries, RawStore.range, List.mem_filter, inRange_iff c.byte_lt]
  exact and_congr_left' (Iteration.sorted raw).mem_entries

/-- No key is iterated twice. -/
theorem nodup_entries : ((c.entries raw).map Prod.fst).Nodup :=
  List.filter_sublist.map Prod.fst |>.nodup (Iteration.sorted raw).nodup_keys

/-- A key that decodes is the key of what it decodes to. -/
theorem rawKey_of_decode {key : Bytes} {k : κ} (hhead : key.head? = some c.byte)
    (hk : c.keys.decode key.tail = .ok k) : c.rawKey k = key := by
  rw [rawKey, c.keys.encode_decode _ _ hk]
  exact List.cons_head?_tail hhead

/-- Different keys have different bytes. -/
theorem rawKey_injective : Function.Injective c.rawKey := by
  intro k k' h
  have hbytes : c.keys.encode k = c.keys.encode k' := (List.cons.inj h).2
  have hread := c.keys.decode_encode k
  rw [hbytes, c.keys.decode_encode] at hread
  exact (Except.ok.inj hread).symm

/-- In a collection that decodes, every entry is the entry of a key. -/
theorem Decodes.rawKey (h : c.Decodes raw) {key value : Bytes} (hvalue : raw[key]? = some value)
    (hhead : key.head? = some c.byte) : ∃ k, c.rawKey k = key := by
  obtain ⟨⟨k, hk⟩, _⟩ := h key value hvalue hhead
  exact ⟨k, rawKey_of_decode hhead hk⟩

/-- In a collection that decodes, the value of a key is what it decodes to. -/
theorem Decodes.at?_eq_some (h : c.Decodes raw) {k : κ} :
    (∃ v, c.at? raw k = some v) ↔ c.rawKey k ∈ raw := by
  rw [at?, Map.mem_iff]
  constructor
  · rintro ⟨v, hv⟩
    obtain ⟨b, hb, _⟩ := Option.bind_eq_some_iff.mp hv
    exact ⟨b, hb⟩
  · rintro ⟨b, hb⟩
    obtain ⟨_, v, hv⟩ := h _ b hb rfl
    exact ⟨v, by rw [hb, Option.bind_some, hv]; rfl⟩

/-- A read succeeds just where the value is there and decodes. -/
theorem get_eq_ok {notFound : ε} {k : κ} {v : ν} : c.get notFound raw k = .ok v ↔ c.at? raw k = some v := by
  rw [get, at?]
  cases raw[c.rawKey k]? with
  | none => exact ⟨(fun h => nomatch h), (fun h => nomatch h)⟩
  | some b =>
    show c.values.decode b = .ok v ↔ (c.values.decode b).toOption = some v
    cases c.values.decode b with
    | error e => exact ⟨(fun h => nomatch h), (fun h => nomatch h)⟩
    | ok w => exact ⟨fun h => by cases h; rfl, fun h => by cases h; rfl⟩

/-! ## Walks -/

/-- An entry whose key and value decode, and the key. -/
def EntryOf (c : Collection ε κ ν) (e : Bytes × Bytes) (k : κ) : Prop :=
  c.keys.decode e.1.tail = .ok k ∧ ∃ v, c.values.decode e.2 = .ok v

/-- A walk that collects keys, over any entries. -/
theorem walk_entries {l : List (Bytes × Bytes)} {acc keys : List κ} :
    Collections.walk (fun (keys : List κ) key value => do
      let k ← c.keys.decode key.tail
      let _ ← c.values.decode value
      Except.ok (false, keys ++ [k])) acc l = .ok keys ↔
      ∃ new, keys = acc ++ new ∧ List.Forall₂ c.EntryOf l new := by
  induction l generalizing acc with
  | nil =>
    constructor
    · intro h
      exact ⟨[], by rw [List.append_nil]; exact (Except.ok.inj h).symm, .nil⟩
    · rintro ⟨new, rfl, hnew⟩
      cases hnew
      rw [List.append_nil]
      rfl
  | cons e rest ih =>
    rw [Collections.walk]
    cases hk : c.keys.decode e.1.tail with
    | error err =>
      refine ⟨(fun h => nomatch h), ?_⟩
      rintro ⟨new, -, hnew⟩
      cases hnew with
      | cons hentry _ => exact nomatch hk.symm.trans hentry.1
    | ok k =>
      cases hv : c.values.decode e.2 with
      | error err =>
        refine ⟨(fun h => nomatch h), ?_⟩
        rintro ⟨new, -, hnew⟩
        cases hnew with
        | cons hentry _ => exact nomatch hv.symm.trans hentry.2.choose_spec
      | ok v =>
        refine ih.trans ⟨?_, ?_⟩
        · rintro ⟨new, rfl, hnew⟩
          exact ⟨k :: new, by rw [List.append_assoc]; rfl, .cons ⟨hk, v, hv⟩ hnew⟩
        · rintro ⟨new, rfl, hnew⟩
          cases hnew with
          | @cons _ k' _ new hentry hrest =>
            cases hk.symm.trans hentry.1
            exact ⟨new, by rw [List.append_assoc]; rfl, hrest⟩

/-- All entries are entries of keys just where each one is. -/
theorem exists_forall₂_entryOf_iff {l : List (Bytes × Bytes)} :
    (∃ keys, List.Forall₂ c.EntryOf l keys) ↔ ∀ e ∈ l, ∃ k, c.EntryOf e k := by
  induction l with
  | nil => exact ⟨fun _ _ he => absurd he List.not_mem_nil, fun _ => ⟨[], .nil⟩⟩
  | cons e rest ih =>
    rw [List.forall_mem_cons, ← ih]
    constructor
    · rintro ⟨keys, hkeys⟩
      cases hkeys with
      | cons hentry hrest => exact ⟨⟨_, hentry⟩, _, hrest⟩
    · rintro ⟨⟨k, hk⟩, keys, hkeys⟩
      exact ⟨k :: keys, .cons hk hkeys⟩

/-- The keys that were collected encode as the raw keys they came from. -/
theorem map_rawKey_of_forall₂ {l : List (Bytes × Bytes)} {keys : List κ}
    (hhead : ∀ e ∈ l, e.1.head? = some c.byte) (h : List.Forall₂ c.EntryOf l keys) :
    keys.map c.rawKey = l.map Prod.fst := by
  induction h with
  | nil => rfl
  | cons hentry _ ih =>
    obtain ⟨he, hrest⟩ := List.forall_mem_cons.mp hhead
    rw [List.map_cons, List.map_cons, rawKey_of_decode he hentry.1, ih hrest]

/-- The walk that collects the keys of a collection. -/
def collectKeys (c : Collection ε κ ν) (raw : RawStore) : Except ε (List κ) :=
  c.walk (fun keys k _ => .ok (false, keys ++ [k])) [] raw

/-- The keys are collected just where every entry of the collection decodes. -/
theorem collectKeys_eq_ok {keys : List κ} :
    c.collectKeys raw = .ok keys ↔ List.Forall₂ c.EntryOf (c.entries raw) keys := by
  refine walk_entries.trans ⟨?_, fun h => ⟨keys, rfl, h⟩⟩
  rintro ⟨new, rfl, hnew⟩
  exact hnew

/-- **A walk that collects keys succeeds when the collection decodes.** -/
theorem exists_collectKeys_iff : (∃ keys, c.collectKeys raw = .ok keys) ↔ c.Decodes raw := by
  simp only [collectKeys_eq_ok, exists_forall₂_entryOf_iff, Prod.forall, mem_entries, EntryOf,
    exists_and_right, and_imp, Decodes]

/-- The keys collected: each once, and those that have an entry. -/
theorem collectKeys_keys {keys : List κ} (h : c.collectKeys raw = .ok keys) :
    keys.Nodup ∧ ∀ k, k ∈ keys ↔ c.rawKey k ∈ raw := by
  have hmap : keys.map c.rawKey = (c.entries raw).map Prod.fst :=
    map_rawKey_of_forall₂ (fun e he => (mem_entries.mp he).2) (collectKeys_eq_ok.mp h)
  refine ⟨List.Nodup.of_map c.rawKey (hmap ▸ nodup_entries), fun k => ?_⟩
  rw [← List.mem_map_of_injective rawKey_injective, hmap, Map.mem_iff]
  constructor
  · intro hk
    obtain ⟨⟨key, value⟩, he, rfl⟩ := List.mem_map.mp hk
    exact ⟨value, (mem_entries.mp he).1⟩
  · rintro ⟨value, hvalue⟩
    exact List.mem_map.mpr ⟨(c.rawKey k, value), mem_entries.mpr ⟨hvalue, rfl⟩, rfl⟩

/-! ## Updates -/

/-- A write leaves the other keys. -/
theorem get?_set_ne {k : κ} {key : Bytes} (v : ν) (h : c.rawKey k ≠ key) :
    (c.set raw k v)[key]? = raw[key]? :=
  Map.get?_insert_ne raw _ h

/-- A value is read from its own key only. -/
theorem at?_congr {raw' : RawStore} {k : κ} (h : raw'[c.rawKey k]? = raw[c.rawKey k]?) :
    c.at? raw' k = c.at? raw k := by
  rw [at?, at?, h]

/-- **Rewriting entry by entry.** A loop that reads each of some keys and writes a value computed from
the one it read changes the entries of those keys, and nothing else. -/
theorem foldlM_rewrite (notFound : ε) (f : κ → ν → ν) {keys : List κ} (hnodup : keys.Nodup)
    (hpresent : ∀ k ∈ keys, ∃ v, c.at? raw k = some v) :
    ∃ raw', keys.foldlM (fun raw k => do
        let v ← c.get notFound raw k
        pure (c.set raw k (f k v))) raw = .ok raw' ∧
      (∀ k ∈ keys, ∀ v, c.at? raw k = some v →
        raw'[c.rawKey k]? = some (c.values.encode (f k v))) ∧
      ∀ key : Bytes, (∀ k ∈ keys, c.rawKey k ≠ key) → raw'[key]? = raw[key]? := by
  induction keys generalizing raw with
  | nil => exact ⟨raw, rfl, fun k hk => absurd hk List.not_mem_nil, fun _ _ => rfl⟩
  | cons k rest ih =>
    obtain ⟨hk, hrest⟩ := List.nodup_cons.mp hnodup
    obtain ⟨v, hv⟩ := hpresent k List.mem_cons_self
    -- the keys still to come are not the one just written, so they read what they did before
    have hne : ∀ k' ∈ rest, c.rawKey k ≠ c.rawKey k' := fun k' hk' e =>
      hk (rawKey_injective e ▸ hk')
    have hlater : ∀ k' ∈ rest, c.at? (c.set raw k (f k v)) k' = c.at? raw k' := fun k' hk' =>
      at?_congr (get?_set_ne _ (hne k' hk'))
    have hstill : ∀ k' ∈ rest, ∃ v', c.at? (c.set raw k (f k v)) k' = some v' := fun k' hk' =>
      hlater k' hk' ▸ hpresent k' (List.mem_cons_of_mem k hk')
    obtain ⟨raw', hloop, hwritten, hkept⟩ := ih hrest hstill
    refine ⟨raw', ?_, ?_, ?_⟩
    · rw [List.foldlM_cons, get_eq_ok.mpr hv]
      exact hloop
    · refine List.forall_mem_cons.mpr ⟨fun w hw => ?_, fun k' hk' w hw => ?_⟩
      · cases hv.symm.trans hw
        rw [hkept _ fun k' hk' => (hne k' hk').symm, set, Std.ExtTreeMap.getElem?_insert_self]
      · exact hwritten k' hk' w (hlater k' hk' ▸ hw)
    · intro key hkey
      obtain ⟨hhere, hthere⟩ := List.forall_mem_cons.mp hkey
      rw [hkept key hthere, get?_set_ne _ hhere]

/-- Erasing some keys leaves the others. -/
theorem get?_foldl_erase (l : List (Bytes × Bytes)) (raw : RawStore) (key : Bytes) :
    (l.foldl (fun raw e => raw.erase e.1) raw)[key]? =
      if key ∈ l.map Prod.fst then none else raw[key]? := by
  induction l generalizing raw with
  | nil => rfl
  | cons e rest ih =>
    rw [List.foldl_cons, ih, List.map_cons]
    by_cases hkey : e.1 = key
    · rw [hkey, Std.ExtTreeMap.getElem?_erase_self, ite_self, if_pos List.mem_cons_self]
    · have hmem : key ∈ e.1 :: rest.map Prod.fst ↔ key ∈ rest.map Prod.fst :=
        ⟨fun h => (List.mem_cons.mp h).resolve_left (Ne.symm hkey), List.mem_cons_of_mem _⟩
      rw [Map.get?_erase_ne _ hkey, if_congr hmem rfl rfl]

/-- **Clearing a collection** removes the keys that start with its byte, -/
theorem get?_clear_of_head {key : Bytes} (h : key.head? = some c.byte) : (c.clear raw)[key]? = none := by
  rw [clear, get?_foldl_erase]
  split
  · rfl
  · rename_i hfree
    rw [← Map.notMem_iff, Map.mem_iff]
    rintro ⟨value, hvalue⟩
    exact hfree (List.mem_map.mpr ⟨(key, value), mem_entries.mpr ⟨hvalue, h⟩, rfl⟩)

/-- and no other key. -/
theorem get?_clear_of_ne {key : Bytes} (h : key.head? ≠ some c.byte) :
    (c.clear raw)[key]? = raw[key]? := by
  rw [clear, get?_foldl_erase, if_neg]
  intro hkey
  obtain ⟨e, he, rfl⟩ := List.mem_map.mp hkey
  exact h (mem_entries.mp he).2

end Collection

/-! ## Codecs -/

section Codecs

variable {ε : Type} (malformed : ε)

/-- `collections.Uint64Key` at the front of a key: the number, and the bytes after it. -/
def decodeUint64 (b : Bytes) : Except ε (UInt64 × Bytes) :=
  if b.length < 8 then .error malformed else .ok (Eth.uint64Of (b.take 8), b.drop 8)

/-- A number is decoded from its eight bytes. -/
theorem decodeUint64_eq_ok {b rest : Bytes} {n : UInt64} :
    decodeUint64 malformed b = .ok (n, rest) ↔ b = Eth.putUint64 n ++ rest := by
  unfold decodeUint64
  constructor
  · intro h
    split at h
    · exact nomatch h
    · rename_i hlen
      cases h
      rw [Eth.putUint64_uint64Of (by rw [List.length_take]; omega), List.take_append_drop]
  · rintro rfl
    have hlen := Eth.length_putUint64 n
    rw [if_neg (by rw [List.length_append, hlen]; omega), List.take_left' hlen, List.drop_left' hlen,
      Eth.uint64Of_putUint64]

/-- `TripleKeyCodec` of three numbers; a key is read to its end. -/
def decodeTriple (b : Bytes) : Except ε (UInt64 × UInt64 × UInt64) := do
  let (k₁, b) ← decodeUint64 malformed b
  let (k₂, b) ← decodeUint64 malformed b
  let (k₃, b) ← decodeUint64 malformed b
  if b = [] then .ok (k₁, k₂, k₃) else .error malformed

def encodeTriple (k : UInt64 × UInt64 × UInt64) : Bytes :=
  Eth.putUint64 k.1 ++ (Eth.putUint64 k.2.1 ++ Eth.putUint64 k.2.2)

/-- A triple of numbers reads back. -/
theorem decodeTriple_encodeTriple (k : UInt64 × UInt64 × UInt64) :
    decodeTriple malformed (encodeTriple k) = .ok k := by
  have h₁ : decodeUint64 malformed (encodeTriple k) =
      .ok (k.1, Eth.putUint64 k.2.1 ++ Eth.putUint64 k.2.2) := (decodeUint64_eq_ok malformed).mpr rfl
  have h₂ : decodeUint64 malformed (Eth.putUint64 k.2.1 ++ Eth.putUint64 k.2.2) =
      .ok (k.2.1, Eth.putUint64 k.2.2) := (decodeUint64_eq_ok malformed).mpr rfl
  have h₃ : decodeUint64 malformed (Eth.putUint64 k.2.2) = .ok (k.2.2, []) :=
    (decodeUint64_eq_ok malformed).mpr (List.append_nil _).symm
  simp only [decodeTriple, bind, Except.bind, h₁, h₂, h₃, if_true]

/-- A triple has one encoding. -/
theorem encodeTriple_decodeTriple {b : Bytes} {k : UInt64 × UInt64 × UInt64}
    (h : decodeTriple malformed b = .ok k) : encodeTriple k = b := by
  simp only [decodeTriple, bind, Except.bind] at h
  split at h
  · cases h
  · rename_i r₁ h₁
    split at h
    · cases h
    · rename_i r₂ h₂
      split at h
      · cases h
      · rename_i r₃ h₃
        split at h
        · rename_i hend
          cases h
          rw [(decodeUint64_eq_ok malformed).mp h₁, (decodeUint64_eq_ok malformed).mp h₂,
            (decodeUint64_eq_ok malformed).mp h₃, hend, List.append_nil]
          rfl
        · cases h

/-- `TripleKeyCodec(Uint64Key, Uint64Key, Uint64Key)`. -/
def tripleKey : KeyCodec ε (UInt64 × UInt64 × UInt64) where
  encode := encodeTriple
  decode := decodeTriple malformed
  decode_encode := decodeTriple_encodeTriple malformed
  encode_decode _ _ := encodeTriple_decodeTriple malformed

/-- `StringKey`, where it is all of a key. -/
def stringKey : KeyCodec ε Bytes where
  encode := id
  decode := .ok
  decode_encode _ := rfl
  encode_decode _ _ h := (Except.ok.inj h).symm

/-- `Uint64Value`. -/
def uint64Value : Codec ε UInt64 where
  encode := Eth.putUint64
  decode b := if b.length = 8 then .ok (Eth.uint64Of b) else .error malformed
  decode_encode n := by rw [if_pos (Eth.length_putUint64 n), Eth.uint64Of_putUint64]

end Codecs

end Collections
