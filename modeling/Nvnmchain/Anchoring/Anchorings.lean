import Nvnmchain.Anchoring.LedgerRefines

/-!
# No anchoring is lost and none is counted twice

After a run the versions stored under a checksum of a registry are, in order, the accepted messages
that added a record with that checksum to that registry, and the registries are, in order, the
accepted messages that added one (`anchorings_exact`). Every version says what its message said and
when. A version's status is left out, since it may be set later.

The proof is about the ledger. A request adds its own version or its own book to the end, and leaves
every other list of versions as it is (`contents_apply`, `entries_apply`); the run follows by
induction, and the store shows what the ledger says (`Represents.history`, `Represents.registered`).
-/

set_option autoImplicit false

namespace Nvnmchain

open Go (Bytes str)
open Collections
open NumberedList
open Ledger

/-! ## What is read from a store -/

/-- What a version says for good: everything but its status. -/
structure Content where
  uri : Bytes
  checksumAlgo : Bytes
  metadata : Bytes
  timestamp : Bytes
deriving DecidableEq

def Record.content (record : Record) : Content :=
  ⟨record.uri, record.checksumAlgo, record.metadata, record.timestamp⟩

/-- The records of a checksum in a registry, version by version. -/
def Store.history (s : Store) (r : UInt64) (c : Bytes) : List Record :=
  match s.recordIdByRegistryAndChecksum[(r, c)]? with
  | none => []
  | some k => (List.range (s.recordIndices[(r, k)]?.getD 0).toNat).filterMap fun i =>
      s.records[(r, k, UInt64.ofNat (i + 1))]?

def Registry.entry (registry : Registry) : Entry :=
  ⟨registry.name, registry.description, registry.creator, registry.createdAt, registry.metadata⟩

/-- The registries, id by id. -/
def Store.registered (s : Store) : List Registry :=
  (List.range (s.registryCount.getD 0).toNat).filterMap fun i => s.registries[UInt64.ofNat (i + 1)]?

/-! ## What is read from the messages -/

/-- The version a message adds under a checksum of a registry. -/
def anchoring (r : UInt64) (c : Bytes) : Ctx × Msg → Option Content
  | (ctx, .addRecord (some m)) => m.record.bind fun record =>
      if record.registryId = r ∧ record.checksum = c then
        some ⟨record.uri, record.checksumAlgo, record.metadata, ctx.blockTime⟩
      else none
  | _ => none

/-- The entry of the registry a message adds. -/
def registration (env : Env) : Ctx × Msg → Option Entry
  | (ctx, .addRegistry (some m)) => (env.stringToBytes m.sender).toOption.map (m.entry env ctx)
  | _ => none

/-! ## The ledger -/

namespace Ledger

def Version.content (v : Version) : Content := ⟨v.uri, v.checksumAlgo, v.metadata, v.timestamp⟩

/-- What the versions of a document say. -/
def Document.contents (d : Document) : List Content := d.versions.map Version.content

/-- The document of a checksum. -/
def Book.find? (c : Bytes) (b : Book) : Option Document := b.documents.find? (·.checksum = c)

/-- What the versions of a checksum in a registry say. -/
def contents (L : Ledger) (r : UInt64) (c : Bytes) : List Content :=
  ((numbered L.books r).bind (·.find? c)).elim [] Document.contents

/-- The versions under a checksum of a book. -/
theorem contents_eq {L : Ledger} {r : UInt64} {b : Book} (hb : numbered L.books r = some b) (c : Bytes) :
    L.contents r c = (b.find? c).elim [] Document.contents := by
  rw [contents, hb]
  rfl

theorem checksum_of_find? {b : Book} {c : Bytes} {d : Document} (h : b.find? c = some d) :
    d.checksum = c := by
  simpa using List.find?_some h

/-- A book has no document of a checksum just where the checksum was never anchored there. -/
theorem find?_eq_none {b : Book} {c : Bytes} : b.find? c = none ↔ c ∉ b.checksums := by
  simp [Book.find?, Book.checksums]

/-- What a version more under a checksum does to the documents found. -/
theorem contents_anchor (b : Book) (c c' : Bytes) (v : Version) :
    ((b.anchor c' v).find? c).elim [] Document.contents =
      (b.find? c).elim [] Document.contents ++ if c' = c then [v.content] else [] := by
  by_cases hold : c' ∈ b.checksums
  · have hsame : ((fun d : Document => decide (d.checksum = c)) ∘ Document.extend c' v) =
        fun d => decide (d.checksum = c) := by
      funext d
      simp only [Function.comp, Document.checksum_extend]
    have hfind : (b.anchor c' v).find? c = (b.find? c).map (·.extend c' v) := by
      rw [Book.find?, Book.documents_anchor_of_mem hold, List.find?_map, hsame]
      rfl
    rw [hfind]
    cases hd : b.find? c with
    | none =>
      have hne : c' ≠ c := fun e => find?_eq_none.mp hd (e ▸ hold)
      rw [if_neg hne]
      rfl
    | some d =>
      have hc := checksum_of_find? hd
      simp only [Option.map_some, Option.elim_some]
      by_cases hcc : c' = c
      · rw [if_pos hcc, Document.extend, if_pos (hc.trans hcc.symm)]
        exact List.map_append
      · rw [if_neg hcc, Document.extend, if_neg fun e => hcc (e.symm.trans hc), List.append_nil]
  · have hfind : (b.anchor c' v).find? c =
        (b.find? c).or (if c' = c then some (.first c' v) else none) := by
      rw [Book.find?, Book.documents_anchor_of_new hold, List.find?_append, List.find?_singleton]
      by_cases hcc : c' = c
      · simp [Book.find?, Document.first, hcc]
      · simp [Book.find?, Document.first, hcc]
    rw [hfind]
    by_cases hcc : c' = c
    · rw [if_pos hcc, if_pos hcc, find?_eq_none.mpr (hcc ▸ hold)]
      rfl
    · rw [if_neg hcc, if_neg hcc, Option.or_none, List.append_nil]

/-- A status is not part of what is said for good. -/
theorem contents_setStatus (b : Book) (k i : UInt64) (status c : Bytes) :
    ((b.setStatus k i status).find? c).elim [] Document.contents =
      (b.find? c).elim [] Document.contents := by
  have hdocument : ∀ d : Document, (d.setStatus i status).contents = d.contents := fun d =>
    map_change d.versions i _ fun _ => rfl
  have hviews : (b.setStatus k i status).documents.map (fun d => (d.checksum, d.contents)) =
      b.documents.map fun d => (d.checksum, d.contents) :=
    map_change b.documents k _ fun d => by rw [hdocument]; rfl
  -- what is found depends on checksums and contents only
  have hfound : ∀ docs : List Document, ((docs.find? (·.checksum = c)).elim [] Document.contents) =
      (((docs.map fun d => (d.checksum, d.contents)).find? (·.1 = c)).elim [] Prod.snd) := by
    intro docs
    rw [List.find?_map]
    cases hd : docs.find? (·.checksum = c) with
    | none => simp only [Function.comp_def, hd, Option.elim_none, Option.map_none]
    | some d => simp only [Function.comp_def, hd, Option.elim_some, Option.map_some]
  simp only [Book.find?]
  rw [hfound, hviews, ← hfound]

/-- What an accepted request adds under a checksum of a registry. -/
def added (r : UInt64) (c : Bytes) : Request → List Content
  | .anchor _ r' c' version => if r' = r ∧ c' = c then [version.content] else []
  | _ => []

/-- **A request adds its own version, at the end.** -/
theorem contents_apply {L : Ledger} {q : Request} (haccepts : L.Accepts q) (r : UInt64) (c : Bytes) :
    (L.apply q).contents r c = L.contents r c ++ added r c q := by
  cases q with
  | handOver authority admin => exact (List.append_nil _).symm
  | grant signer account g => exact (List.append_nil _).symm
  | revoke account g => exact (List.append_nil _).symm
  | create account entry =>
    simp only [contents, apply, added, numbered_concat, List.append_nil]
    split
    · rename_i hr
      rw [numbered_eq_none (l := L.books) (by omega)]
      rfl
    · rfl
  | anchor account r' c' version =>
    obtain ⟨b, hb⟩ := Option.isSome_iff_exists.mp haccepts.1
    simp only [contents, apply, added, numbered_change]
    by_cases hr : r = r'
    · rw [if_pos hr, hr, hb, Option.map_some, Option.bind_some, Option.bind_some, contents_anchor]
      simp only [true_and]
    · rw [if_neg hr, if_neg fun e => hr e.1.symm, List.append_nil]
  | setStatus account r' k i status =>
    simp only [contents, apply, added, numbered_change, List.append_nil]
    by_cases hr : r = r'
    · rw [if_pos hr]
      cases numbered L.books r with
      | none => rfl
      | some b => exact contents_setStatus b k i status c
    · rw [if_neg hr]

/-- The entries of the books. -/
def entries (L : Ledger) : List Entry := L.books.map Book.entry

/-- The entry an accepted request adds. -/
def opened : Request → List Entry
  | .create _ entry => [entry]
  | _ => []

/-- Only a request that opens a book adds an entry, and it adds it last. -/
theorem entries_apply (L : Ledger) (q : Request) : (L.apply q).entries = L.entries ++ opened q := by
  cases q with
  | handOver authority admin => exact (List.append_nil _).symm
  | grant signer account g => exact (List.append_nil _).symm
  | revoke account g => exact (List.append_nil _).symm
  | create account entry => exact List.map_append
  | anchor account r c version =>
    have hsame : (change L.books r (·.anchor c version)).map Book.entry = L.entries :=
      map_change _ _ _ fun _ => rfl
    exact hsame.trans (List.append_nil _).symm
  | setStatus account r k i status =>
    have hsame : (change L.books r (·.setStatus k i status)).map Book.entry = L.entries :=
      map_change _ _ _ fun _ => rfl
    exact hsame.trans (List.append_nil _).symm

end Ledger

/-! ## From messages to the ledger -/

/-- A request adds what its message says. -/
theorem request_says {env : Env} {ctx : Ctx} {msg : Msg} {q : Request}
    (hq : msg.request env ctx = some q) :
    (∀ r c, added r c q = (anchoring r c (ctx, msg)).toList) ∧
      opened q = (registration env (ctx, msg)).toList := by
  cases msg with
  | updateParams m =>
    simp only [Msg.request, Option.bind_eq_bind, Option.bind_eq_some_iff] at hq
    obtain ⟨_, -, hq⟩ := hq
    split at hq
    · cases hq
      exact ⟨fun _ _ => rfl, rfl⟩
    · obtain ⟨_, -, e⟩ := Option.bind_eq_some_iff.mp hq
      cases e
      exact ⟨fun _ _ => rfl, rfl⟩
  | addRegistry req =>
    cases req with
    | none => cases hq
    | some m =>
      simp only [Msg.request, Option.bind_eq_bind, Option.bind_eq_some_iff] at hq
      obtain ⟨_, -, sender, hsender, creator, -, e⟩ := hq
      cases e
      refine ⟨fun _ _ => rfl, ?_⟩
      rw [registration, hsender]
      rfl
  | addRecord req =>
    cases req with
    | none => cases hq
    | some m =>
      simp only [Msg.request, Option.bind_eq_bind, Option.bind_eq_some_iff, toOption_eq_some] at hq
      obtain ⟨record, hvalid, sender, -, e⟩ := hq
      cases e
      refine ⟨fun r c => ?_, rfl⟩
      simp only [added, anchoring, record_of_validateBasic hvalid, Option.bind_some]
      split
      · rfl
      · rfl
  | updateRecordStatus req =>
    cases req with
    | none => cases hq
    | some m =>
      simp only [Msg.request, Option.bind_eq_bind, Option.bind_eq_some_iff] at hq
      obtain ⟨_, -, editor, -, e⟩ := hq
      cases e
      exact ⟨fun _ _ => rfl, rfl⟩
  | grantRole req =>
    cases req with
    | none => cases hq
    | some m =>
      simp only [Msg.request, Option.bind_eq_bind, Option.bind_eq_some_iff] at hq
      obtain ⟨_, -, granter, -, grantee, -, e⟩ := hq
      cases e
      exact ⟨fun _ _ => rfl, rfl⟩
  | revokeRole req =>
    cases req with
    | none => cases hq
    | some m =>
      simp only [Msg.request, Option.bind_eq_bind, Option.bind_eq_some_iff] at hq
      obtain ⟨_, -, revoker, -, revokee, -, e⟩ := hq
      cases e
      exact ⟨fun _ _ => rfl, rfl⟩

/-- Over a run the ledger grows by what the accepted messages say. -/
theorem ledger_grows {env : Env} {names : Set Bytes} (hcf : Set.InjOn env.keccak256 names)
    {msgs : List (Ctx × Msg)} {s : Store} {L : Ledger} (hold : Holds env names s L)
    (hmsgs : Simulation.Along (server env) (Within names) msgs s) :
    (∀ r c, (Simulation.after (Ledger.machine env) msgs L).contents r c =
      L.contents r c ++ (Simulation.accepted (server env) msgs s).filterMap (anchoring r c)) ∧
    (Simulation.after (Ledger.machine env) msgs L).entries =
      L.entries ++ (Simulation.accepted (server env) msgs s).filterMap (registration env) := by
  induction msgs generalizing s L with
  | nil => exact ⟨fun _ _ => (List.append_nil _).symm, (List.append_nil _).symm⟩
  | cons input rest ih =>
    obtain ⟨hwithin, hrest⟩ := hmsgs
    have halike := simulates hcf input s L hwithin hold
    have hnext : Holds env names (Simulation.next (server env) input s)
      (Simulation.next (Ledger.machine env) input L) := halike.next hold
    obtain ⟨hcontents, hentries⟩ := ih hnext hrest
    simp only [Simulation.after, Simulation.accepted]
    cases hledger : Ledger.machine env input L with
    | none =>
      have hrefused : (server env input s).isSome = false := by
        have hanswer := halike.answer_eq
        rw [hledger] at hanswer
        simpa using hanswer
      have hstay : Simulation.next (Ledger.machine env) input L = L := by
        rw [Simulation.next, hledger]
        rfl
      rw [hrefused, if_neg Bool.false_ne_true]
      rw [hstay] at hcontents hentries ⊢
      exact ⟨hcontents, hentries⟩
    | some out =>
      obtain ⟨o, L'⟩ := out
      obtain ⟨q, hq, haccepts, -, rfl⟩ := Ledger.machine_eq_some.mp hledger
      have hanswered : (server env input s).isSome = true := by
        have hanswer := halike.answer_eq
        rw [hledger] at hanswer
        obtain ⟨x, hx, -⟩ := Option.map_eq_some_iff.mp hanswer
        rw [hx]
        rfl
      have hgoes : Simulation.next (Ledger.machine env) input L = L.apply q := by
        rw [Simulation.next, hledger]
        rfl
      obtain ⟨hadded, hopened⟩ := request_says hq
      rw [hanswered, if_pos rfl]
      rw [hgoes] at hcontents hentries ⊢
      constructor
      · intro r c
        rw [hcontents, contents_apply haccepts, hadded, List.append_assoc]
        cases h : anchoring r c input with
        | none => rw [List.filterMap_cons_none h]; rfl
        | some x => rw [List.filterMap_cons_some h]; rfl
      · rw [hentries, entries_apply, hopened, List.append_assoc]
        cases h : registration env input with
        | none => rw [List.filterMap_cons_none h]; rfl
        | some x => rw [List.filterMap_cons_some h]; rfl

/-! ## From the ledger to the store -/

section Store

variable {env : Env} {names : Set Bytes} {s : Store} {L : Ledger}

/-- The versions the store keeps under a checksum are those of the ledger. -/
theorem Represents.history (h : Represents env names s L) (r : UInt64) (c : Bytes) :
    (s.history r c).map Record.content = L.contents r c := by
  unfold Store.history
  cases hk : s.recordIdByRegistryAndChecksum[(r, c)]? with
  | none =>
    cases hb : numbered L.books r with
    | none =>
      rw [Ledger.contents, hb]
      rfl
    | some b =>
      have hnew : c ∉ b.checksums := fun hc => Map.notMem_iff.mpr hk ((h.mem_checksums hb).mpr hc)
      rw [contents_eq hb, find?_eq_none.mpr hnew]
      rfl
  | some k =>
    obtain ⟨d, hd, hchecksum⟩ := (h.checksums r k c).mp hk
    obtain ⟨b, hb, hbd⟩ := Represents.exists_book hd
    obtain ⟨n, hn, hlen⟩ := h.exists_versions hd
    have hfound : b.find? c = some d := by
      cases hfind : b.find? c with
      | none => exact absurd (hchecksum ▸ List.mem_map_of_mem (mem_of_numbered hbd)) (find?_eq_none.mp hfind)
      | some d' =>
        -- no other document of the book has the checksum
        obtain ⟨m, -, hm⟩ := h.exists_documents hb
        obtain ⟨k', hk'⟩ := exists_numbered (hm ▸ m.toNat_lt) (List.mem_of_find?_eq_some hfind)
        have hsame := (h.checksum_eq_iff hd ((Represents.document?_eq hb k').trans hk')).mp
          ((checksum_of_find? hfind).trans hchecksum.symm)
        rw [hsame] at hk'
        rw [← hk', hbd]
    have hrecord : ∀ i, (s.records[(r, k, UInt64.ofNat (i + 1))]?).map Record.content =
        (numbered d.versions (.ofNat (i + 1))).map Version.content := by
      intro i
      rw [h.records, hd, Option.bind_some, Document.record?, Option.map_map]
      rfl
    simp only [hn, Option.getD_some, List.map_filterMap, hrecord, hlen]
    rw [← List.map_filterMap, filterMap_numbered (hlen ▸ n.toNat_lt), contents_eq hb, hfound]
    rfl

/-- The registries of the store are the books of the ledger, in order. -/
theorem Represents.registered (h : Represents env names s L) :
    s.registered.map Registry.entry = L.entries := by
  obtain ⟨n, hn, hlen⟩ := h.exists_count
  have hentry : ∀ i, (s.registries[UInt64.ofNat (i + 1)]?).map Registry.entry =
      (numbered L.books (.ofNat (i + 1))).map Book.entry := by
    intro i
    rw [h.registries, Option.map_map]
    rfl
  rw [Store.registered, hn, Option.getD_some, List.map_filterMap]
  simp only [hentry, hlen]
  rw [← List.map_filterMap, filterMap_numbered (hlen ▸ n.toNat_lt)]
  rfl

end Store

/-- **No anchoring is lost and none is counted twice.** After a run from genesis, the versions of every
checksum in every registry are the accepted messages that added them, one version for each and in their
order; and the registries are the accepted messages that added one. -/
theorem anchorings_exact {env : Env} {names : Set Bytes} {params : Params} {msgs : List (Ctx × Msg)}
    (hcf : Set.InjOn env.keccak256 names) (hparams : params.validate env = .ok ())
    (hmsgs : Simulation.Along (server env) (Within names) msgs (Store.initial params)) :
    let accepted := Simulation.accepted (server env) msgs (Store.initial params)
    let s := runMsgs env msgs (Store.initial params)
    (∀ r c, (s.history r c).map Record.content = accepted.filterMap (anchoring r c)) ∧
      s.registered.map Registry.entry = accepted.filterMap (registration env) := by
  have hfirst : Holds env names (Store.initial params) (Ledger.initial params) :=
    ⟨Transition.Reachable.of_init (initial_iff.mpr ⟨params, hparams, rfl⟩), .initial params⟩
  have hlast := (simulates hcf).after hfirst hmsgs
  rw [after_server] at hlast
  obtain ⟨hcontents, hentries⟩ := ledger_grows hcf hfirst hmsgs
  constructor
  · intro r c
    rw [hlast.2.history, hcontents, Ledger.contents, Ledger.initial, numbered_nil]
    rfl
  · rw [hlast.2.registered, hentries]
    rfl

/-- A record anchored twice, with a message of a stranger between, has two versions. -/
def repeatedMsgs : List (Ctx × Msg) :=
  [(smallCtx, .addRegistry (some ⟨str "nvnm1qyfcvmjm", str "deeds", [], []⟩)),
   (smallCtx, .addRecord (some ⟨str "nvnm1qyfcvmjm", some (smallRecord "c0")⟩)),
   (smallCtx, .addRecord (some ⟨str "nvnm1qgcx23ru", some (smallRecord "c0")⟩)),
   (smallCtx, .addRecord (some ⟨str "nvnm1qyfcvmjm", some (smallRecord "c0")⟩))]

/-- A checksum that is anchored twice has two versions, and a refused message leaves none. -/
theorem anchorings_exact_repeated :
    ((runMsgs smallEnv repeatedMsgs (Store.initial smallParams)).history 1 (str "c0")).map
        Record.content =
      (Simulation.accepted (server smallEnv) repeatedMsgs (Store.initial smallParams)).filterMap
        (anchoring 1 (str "c0")) ∧
    ((Simulation.accepted (server smallEnv) repeatedMsgs (Store.initial smallParams)).filterMap
        (anchoring 1 (str "c0"))).length = 2 :=
  ⟨(anchorings_exact injOn_ledgerNames rfl (by decide +kernel)).1 1 (str "c0"), by decide +kernel⟩

end Nvnmchain
