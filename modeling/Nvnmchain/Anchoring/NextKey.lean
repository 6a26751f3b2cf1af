import Nvnmchain.Anchoring.Filters

/-!
# The key of the next page

A `PageResponse` has a `next_key`: the key to ask for the next page with, empty when there are no more
results. A client who follows it asks again until it is empty. `Continues` is what such a client relies
on, for one answer of `Records`: a key while records remain, the next page under that key, and every
record once when the keys are followed to the end.

The listings of `Records` never set the key, and never read the key of a request. Following the keys
stops after the first page (`followRecords_eq`), so an answer continues exactly when everything that matches
lies before the end of its page: the offset and the size of the page the request asks for reach to the end
of the listing, and the `uint64` count of the items seen does not wrap before (`records_continue_iff`). The
next page is there to be asked for by its offset, which is how `records_listed_exactly` reads a listing.
-/

set_option autoImplicit false

namespace Nvnmchain

open Go (Bytes str)
open Collections

/-- The key an answer names the next page with. -/
def QueryRecordsResponse.nextKey (resp : QueryRecordsResponse) : Bytes :=
  resp.pagination.elim [] (·.nextKey)

/-- The request for the page a key names: the same filters and limit, and no offset. -/
def QueryRecordsRequest.pageFrom (req : QueryRecordsRequest) (key : Bytes) : QueryRecordsRequest :=
  { req with pagination := some { req.pagination.getD ⟨[], 0, 0, false, false⟩ with key, offset := 0 } }

/-- What matches after the page of an answer. -/
def Store.remaining (s : Store) (req : QueryRecordsRequest) (resp : QueryRecordsResponse) :
    List Record :=
  (s.matching req).drop (pageOffset req.pagination + resp.records.length)

/-- The pages of a listing, from a request on and as each answer's key names the next, until a key is
empty. -/
def followRecords (s : Store) : Nat → QueryRecordsRequest → Except Fault (Option (List (List Record)))
  | 0, _ => pure none
  | fuel + 1, req => do
    let resp ← queryRecords s req
    if resp.nextKey = [] then pure (some [resp.records])
    else do
      let more ← followRecords s fuel (req.pageFrom resp.nextKey)
      pure (more.map (resp.records :: ·))

/-- What a client who follows keys relies on. -/
structure Continues (s : Store) (req : QueryRecordsRequest) (resp : QueryRecordsResponse) : Prop where
  /-- While records remain, the answer has a key, and under the key the next page starts. -/
  next : s.remaining req resp ≠ [] → resp.nextKey ≠ [] ∧
    ∃ resp', queryRecords s (req.pageFrom resp.nextKey) = .ok resp' ∧
      resp'.records = (s.remaining req resp).take (pageSize req.pagination)
  /-- The keys, followed to the end, list what matches from the request's offset on. -/
  visits : ∃ fuel pages, followRecords s fuel req = .ok (some pages) ∧
    pages.flatten = (s.matching req).drop (pageOffset req.pagination)

/-- A listing has no key. -/
@[simp]
theorem nextKey_listResponse (req : QueryRecordsRequest) (records : List Record) :
    (listResponse req records).nextKey = [] := by
  cases hpagination : req.pagination with
  | none => simp [listResponse, QueryRecordsResponse.nextKey, hpagination]
  | some pageReq => simp [listResponse, QueryRecordsResponse.nextKey, hpagination]

/-- The key of a request is not read: a listing asked for by a key starts over. -/
theorem queryRecords_pageFrom (s : Store) (req : QueryRecordsRequest) (key : Bytes) :
    queryRecords s (req.pageFrom key) = queryRecords s (req.pageFrom []) := rfl

/-- Where an answer has no key, following keys ends with it. -/
theorem followRecords_eq {s : Store} {req : QueryRecordsRequest} {resp : QueryRecordsResponse}
    (hq : queryRecords s req = .ok resp) (hkey : resp.nextKey = []) (fuel : Nat) :
    followRecords s (fuel + 1) req = .ok (some [resp.records]) := by
  rw [followRecords, hq]
  exact if_pos hkey

/-- A page after which nothing remains is all that matches from its offset on. -/
theorem records_eq_of_remaining {s : Store} {req : QueryRecordsRequest}
    {resp : QueryRecordsResponse}
    (hresp : resp = listResponse req ((newPaginator req.pagination).taken (s.matching req)))
    (hnone : s.remaining req resp = []) :
    resp.records = (s.matching req).drop (pageOffset req.pagination) := by
  have hsub : resp.records.Sublist ((s.matching req).drop (pageOffset req.pagination)) := by
    rw [hresp]
    exact taken_sublist_drop req.pagination (s.matching req)
  rw [Store.remaining, ← List.drop_drop, List.drop_eq_nil_iff] at hnone
  exact hsub.eq_of_length_le hnone

/-- After a page whose count of the items seen wraps, something remains: the offset is passed over
twice, so that the page is short of what was passed over. -/
theorem length_taken_wraps {α : Type} {pr : Option PageRequest}
    (hwraps : 2 ^ 64 < pageOffset pr + pageSize pr) {l : List α} (hlong : 2 ^ 64 < l.length) :
    pageOffset pr + ((newPaginator pr).taken l).length < l.length := by
  obtain ⟨offset, limit, collected, hoffset, htaken⟩ := taken_newPaginator_wraps hwraps l
  have hbound := offset.toNat_lt
  have hsize := pageSize_le pr
  have hskipped : (0 : UInt64).toNat + pageOffset pr = offset.toNat := by
    rw [hoffset]
    exact Nat.zero_add _
  have hrest := (Paginator.taken_sublist ⟨offset, limit, offset, collected⟩
    (((l.drop (pageOffset pr)).drop (2 ^ 64 - pageOffset pr)).drop (pageOffset pr))).length_le
  rw [htaken, Paginator.taken_offset hskipped, List.length_append, List.length_take, List.length_drop]
  rw [List.length_drop, List.length_drop, List.length_drop] at hrest
  omega

/-- **Nothing remains after a page** exactly when all that matches lies before the end of the page that
was asked for, and before the count of the items seen wraps. -/
theorem remaining_eq_nil_iff {s : Store} {req : QueryRecordsRequest} {resp : QueryRecordsResponse}
    (hresp : resp = listResponse req ((newPaginator req.pagination).taken (s.matching req))) :
    s.remaining req resp = [] ↔ (s.matching req).length ≤
      min (pageOffset req.pagination + pageSize req.pagination) (2 ^ 64) := by
  have hrecords : resp.records = (newPaginator req.pagination).taken (s.matching req) := by
    rw [hresp]
    rfl
  rw [Store.remaining, List.drop_eq_nil_iff, hrecords, Nat.le_min]
  by_cases hfits : pageOffset req.pagination + pageSize req.pagination ≤ 2 ^ 64 ∨
      (s.matching req).length ≤ 2 ^ 64
  · rw [taken_eq_slice hfits, List.length_take, List.length_drop]
    omega
  · rw [not_or, Nat.not_le, Nat.not_le] at hfits
    have hshort := length_taken_wraps hfits.1 hfits.2
    omega

/-- **When the answers of `Records` continue**, in every store of a run in which no counter wraps: a
listing's answer has the keys a client follows exactly when the first page of the client, as its offset
and limit ask for it, already reaches the end of what matches. -/
theorem records_continue_iff {env : Env} {names : Set Bytes} {s : Store} (h : Reachable env names s)
    {req : QueryRecordsRequest} (hrecord : req.recordId = 0) (hindex : req.index = 0)
    (hone : req.registryId = 0 ∨ req.checksum = []) {resp : QueryRecordsResponse}
    (hq : queryRecords s req = .ok resp) :
    Continues s req resp ↔ (s.matching req).length ≤
      min (pageOffset req.pagination + pageSize req.pagination) (2 ^ 64) := by
  have hresp := h.storeInv.eq_listResponse hrecord hindex hone hq
  have hkey : resp.nextKey = [] := by
    rw [hresp]
    apply nextKey_listResponse
  rw [← remaining_eq_nil_iff hresp]
  constructor
  · intro hcontinues
    by_contra hmore
    exact (hcontinues.next hmore).1 hkey
  · intro hnone
    refine ⟨fun hmore => absurd hnone hmore, 1, [resp.records], followRecords_eq hq hkey 0, ?_⟩
    rw [List.flatten_singleton]
    exact records_eq_of_remaining hresp hnone

/-- The second of two pages reaches the end of what matches. -/
theorem records_continue_twoRecordStore :
    ∃ resp, queryRecords twoRecordStore secondOfTwo = .ok resp ∧
      resp.records.map Record.checksum = [str "c1"] ∧ Continues twoRecordStore secondOfTwo resp := by
  have hq : queryRecords twoRecordStore secondOfTwo = .ok _ :=
    reachable_twoRecordStore.storeInv.queryRecords_eq rfl rfl List.not_mem_nil (.inr rfl)
  refine ⟨_, hq, by decide +kernel,
    (records_continue_iff reachable_twoRecordStore rfl rfl (.inr rfl) hq).mpr ?_⟩
  have hlen : (twoRecordStore.matching secondOfTwo).length = 2 := by decide +kernel
  rw [hlen]
  decide

/-! ## Two records on two pages -/

/-- The records of registry 1, one to a page. -/
def firstOfTwo : QueryRecordsRequest := ⟨1, [], 0, 0, some ⟨[], 0, 1, false, false⟩⟩

/-- **The second record is never reached by a key.** The answer has the first record and no key, and
the request repeated with any key answers the first record again. -/
theorem records_second_page_lost :
    Reachable smallEnv Set.univ twoRecordStore ∧
      ∃ resp, queryRecords twoRecordStore firstOfTwo = .ok resp ∧
        resp.records.map Record.checksum = [str "c0"] ∧ resp.nextKey = [] ∧
        (twoRecordStore.remaining firstOfTwo resp).map Record.checksum = [str "c1"] ∧
        (∀ key, queryRecords twoRecordStore (firstOfTwo.pageFrom key) = .ok resp) ∧
        ¬ Continues twoRecordStore firstOfTwo resp := by
  have hq : queryRecords twoRecordStore firstOfTwo = .ok _ :=
    reachable_twoRecordStore.storeInv.queryRecords_eq rfl rfl List.not_mem_nil (.inr rfl)
  have hkey := nextKey_listResponse firstOfTwo
    ((newPaginator firstOfTwo.pagination).taken (twoRecordStore.matching firstOfTwo))
  refine ⟨reachable_twoRecordStore, _, hq, by decide +kernel, hkey, by decide +kernel,
    fun key => (queryRecords_pageFrom _ _ key).trans hq, fun hcontinues => ?_⟩
  exact (hcontinues.next (by decide +kernel)).1 hkey

end Nvnmchain
