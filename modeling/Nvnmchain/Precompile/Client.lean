import Nvnmchain.Precompile.Called
import Nvnmchain.Precompile.Generated

/-!
# A client of the contract

A client encodes a call with the generated code, sends it, and decodes the answer. Here the two ends
are put together: `execute` on the bytes of a call is the method on the values of that call, behind the
gates, and the bytes it answers are read as the method's answer (`execute_encoded`). Bytes after the
call change nothing.

For the tuples themselves: the decoder takes exactly what the encoder writes (`generated_decode_iff`),
and no data makes it slice out of range (`generated_decode_inRange`).
-/

set_option autoImplicit false

namespace Nvnmchain.Precompile

open Go (Bytes str)
open Eth (Address Hash)
open AbiCodec
open Effects

/-! ## The tuples -/

/-- **The decoder takes exactly what the encoder writes.** Data is decoded as a value, up to an
end, if and only if it is the encoding of that value up to that end, whatever follows. So every value
comes back as it was sent, and a value has one encoding. The encoding has the size that was computed
for its buffer. -/
theorem generated_decode_iff (g : GoAbi) (t : Tuple) {data : Bytes} (h : data.length < g.sizes.limit)
    (v : t.Value) (n : Nat) :
    (t.decode g data = .ok (v, n) ↔
      ∃ encoded rest, t.encode g v = .ok encoded ∧ data = encoded ++ rest ∧ n = encoded.length) ∧
    ∀ encoded, t.encode g v = .ok encoded → encoded.length = t.encodedSize g v := by
  refine ⟨?_, fun encoded hencoded => (t.codec g).length_encode hencoded⟩
  have hdecode : t.decode g data = .ok (v, n) ↔
      n = t.encodedSize g v ∧ StartsWith ((t.codec g).bytes v) data := (t.codec g).decode_eq_ok h
  have hlength : ((t.codec g).bytes v).length = t.encodedSize g v := (t.codec g).length_bytes v
  rw [hdecode]
  constructor
  · rintro ⟨rfl, hstarts⟩
    have hfits := hstarts.length_le
    obtain ⟨rest, hdata⟩ := hstarts
    exact ⟨_, rest, ((t.codec g).encode_eq_ok (by omega)).mpr rfl, hdata, hlength.symm⟩
  · rintro ⟨encoded, rest, hencoded, rfl, rfl⟩
    rw [List.length_append] at h
    obtain rfl := ((t.codec g).encode_eq_ok (by omega)).mp hencoded
    exact ⟨hlength, rest, rfl⟩

/-- The encoding of a small call. -/
def deedsCall : Bytes :=
  ((Tuple.addRegistryCall.encode strictGoAbi ⟨str "deeds", [], []⟩).toOption).getD []

/-- The call is read back, also with a byte after it. -/
theorem generated_decode_iff_deeds :
    Tuple.addRegistryCall.decode strictGoAbi (deedsCall ++ [7]) =
      .ok ((⟨str "deeds", [], []⟩ : AddRegistryCall), 224) := by
  have hlength : deedsCall.length = 224 := by decide +kernel
  refine (generated_decode_iff strictGoAbi .addRegistryCall ?_ _ _).1.mpr
    ⟨deedsCall, [7], by decide +kernel, rfl, hlength.symm⟩
  rw [List.length_append, hlength]
  decide

/-- **No data makes the decoder slice out of range.** -/
theorem generated_decode_inRange (g : GoAbi) (t : Tuple) {data : Bytes}
    (h : data.length < g.sizes.limit) : t.decode g data ≠ .error .outOfRange :=
  (t.codec g).decode_inRange h

/-- A call whose second offset points before its first tail, and one that ends in its first tail. -/
theorem generated_decode_inRange_deeds :
    Tuple.addRegistryCall.decode strictGoAbi (deedsCall.set 63 0) ≠ .error .outOfRange ∧
      Tuple.addRegistryCall.decode strictGoAbi (deedsCall.take 130) ≠ .error .outOfRange :=
  ⟨generated_decode_inRange strictGoAbi .addRegistryCall (by decide +kernel),
    generated_decode_inRange strictGoAbi .addRegistryCall (by decide +kernel)⟩

/-! ## Events -/

section Events

variable (g : GoAbi)

open Generated

/-- The caller reads back from the topics of an event. -/
theorem decodeTopics_eq (topic : Hash) (caller : Address) :
    decodeTopics g topic [topic, Eth.bytesToHash (g.address.bytes caller)] = .ok caller := by
  have hlength : (g.address.bytes caller).length = 32 :=
    (g.address.length_bytes caller).trans (g.address.isWord caller)
  have hread := g.address.decode_bytes caller [] (by
    rw [List.append_nil, hlength]
    exact g.sizes.word_lt)
  rw [List.append_nil] at hread
  simp only [decodeTopics, ne_eq, not_true_eq_false, if_false, Eth.bytes_bytesToHash hlength, hread]
  rfl

/-- Another event does not take the topics. -/
theorem decodeEventAs_ne {α : Type} {topic other : Hash} (hne : topic ≠ other) (c : Codec g.sizes α)
    (event : Address → α → Event) (caller : Hash) (bytes : Bytes) :
    decodeEventAs g other c event [topic, caller] bytes = none := by
  simp only [decodeEventAs, decodeTopics, ne_eq, hne, not_false_eq_true, if_true]
  rfl

/-- What an event is encoded as: the topics of its caller, and bytes it is read back from. -/
theorem encodeEventAs_eq_ok {α : Type} {topic : Hash} {c : Codec g.sizes α} {caller : Address} {row : α}
    {topics : List Hash} {bytes : Bytes} (hlimit : bytes.length < g.sizes.limit)
    (h : encodeEventAs g topic c caller row = .ok (topics, bytes)) :
    (∃ word, topics = [topic, word]) ∧ ∀ event : Address → α → Event,
      decodeEventAs g topic c event topics bytes = some (event caller row) := by
  simp only [encodeEventAs, encodeTopics_eq, bind, Except.bind] at h
  split at h
  · cases h
  · rename_i hencode
    cases h
    have hbytes := (c.encode_eq_ok hlimit).mp (mapError_eq_ok.mp hencode)
    have hread := c.decode_bytes row [] (by rwa [List.append_nil, ← hbytes])
    rw [List.append_nil, ← hbytes] at hread
    refine ⟨⟨_, rfl⟩, fun event => ?_⟩
    rw [decodeEventAs, decodeTopics_eq, hread]
    rfl

/-- **An event is read back from its log.** -/
theorem decodeEvent_encodeEvent {ev : Event} {topics : List Hash} {bytes : Bytes}
    (hlimit : bytes.length < g.sizes.limit) (h : encodeEvent g ev = .ok (topics, bytes)) :
    decodeEvent g topics bytes = some ev := by
  cases ev with
  | addRegistry caller registryId name =>
    obtain ⟨-, hown⟩ := encodeEventAs_eq_ok g hlimit h
    rw [decodeEvent, hown]
    rfl
  | addRecord caller registryId recordId index checksum =>
    obtain ⟨⟨word, rfl⟩, hown⟩ := encodeEventAs_eq_ok g hlimit h
    rw [decodeEvent, decodeEventAs_ne g (by decide), hown]
    rfl
  | updateRecordStatus caller registryId recordId index status =>
    obtain ⟨⟨word, rfl⟩, hown⟩ := encodeEventAs_eq_ok g hlimit h
    rw [decodeEvent, decodeEventAs_ne g (by decide), decodeEventAs_ne g (by decide), hown]
    rfl
  | grantRole caller registryId checksum account role =>
    obtain ⟨⟨word, rfl⟩, hown⟩ := encodeEventAs_eq_ok g hlimit h
    rw [decodeEvent, decodeEventAs_ne g (by decide), decodeEventAs_ne g (by decide),
      decodeEventAs_ne g (by decide), hown]
    rfl
  | revokeRole caller registryId checksum account role =>
    obtain ⟨⟨word, rfl⟩, hown⟩ := encodeEventAs_eq_ok g hlimit h
    rw [decodeEvent, decodeEventAs_ne g (by decide), decodeEventAs_ne g (by decide),
      decodeEventAs_ne g (by decide), decodeEventAs_ne g (by decide), hown]
    rfl

end Events

/-! ## Calls -/

/-- What a method answers. -/
inductive Answer where
  | id (v : UInt64)
  | empty
  | records (page : List AbiRecord × AbiPageResponse)
  | registries (page : List AbiRegistry × AbiPageResponse)

namespace MethodCall

/-- The method of a call on its arguments; the search by name has a gate of its own. -/
def run (k : Keeper) (ctx : Context) (stateDB : Option StateDB) (contract : Contract)
    (txOrigin : Address) : MethodCall → Call Answer
  | addRegistry input => .id <$> Precompile.addRegistry k ctx stateDB contract input
  | addRecord input => .id <$> Precompile.addRecord k ctx stateDB contract input
  | updateRecordStatus input =>
    (fun _ => .empty) <$> Precompile.updateRecordStatus k ctx stateDB contract input
  | records input => .records <$> Precompile.records k ctx input
  | registries input => .registries <$> Precompile.registries k ctx input
  | registriesByName input =>
    match registriesByNameGate k ctx stateDB contract txOrigin with
    | some reason => revert k reason
    | none => .registries <$> Precompile.registriesByName k ctx input
  | grantRole input => (fun _ => .empty) <$> Precompile.grantRole k ctx stateDB contract input
  | revokeRole input => (fun _ => .empty) <$> Precompile.revokeRole k ctx stateDB contract input

end MethodCall

namespace Answer

/-- `Encode` of what a method returns. -/
def encode (g : GoAbi) : Answer → Except Err Bytes
  | id v => Generated.write g (Generated.idReturn g) v
  | empty => g.encodeEmptyTuple
  | records page => Generated.write g (Generated.recordsReturn g) page
  | registries page => Generated.write g (Generated.registriesReturn g) page

/-- `Decode` of the answer of a method, on the client's side. -/
def decode (g : GoAbi) (method : Method) (data : Bytes) : Option Answer :=
  match method with
  | .addRegistry | .addRecord => (Generated.read g (Generated.idReturn g) data).toOption.map id
  | .records => (Generated.read g (Generated.recordsReturn g) data).toOption.map records
  | .registries | .registriesByName =>
    (Generated.read g (Generated.registriesReturn g) data).toOption.map registries
  | .updateRecordStatus | .grantRole | .revokeRole =>
    (g.decodeEmptyTuple data).toOption.map fun _ => empty

end Answer

section Encoded

variable {g : GoAbi} {k : Keeper} {ctx : Context} {stateDB : Option StateDB} {contract : Contract}
  {txOrigin : Address}

/-- A value is read from its bytes, whatever follows. -/
theorem read_bytes {α : Type} (c : Codec g.sizes α) (a : α) (rest : Bytes)
    (h : (c.bytes a ++ rest).length < g.sizes.limit) : Generated.read g c (c.bytes a ++ rest) = .ok a := by
  rw [Generated.read, c.decode_bytes a rest h]
  rfl

/-- A value is read from its encoding. -/
theorem read_write {α : Type} (c : Codec g.sizes α) {a : α} {bytes : Bytes}
    (hlimit : bytes.length < g.sizes.limit) (h : Generated.write g c a = .ok bytes) :
    Generated.read g c bytes = .ok a := by
  have hbytes := (c.encode_eq_ok hlimit).mp (mapError_eq_ok.mp h)
  have hread := read_bytes c a [] (by rwa [List.append_nil, ← hbytes])
  rwa [List.append_nil, ← hbytes] at hread

/-- A method behind its decoder, on the bytes of its arguments. -/
theorem runMethod_encoded {ι ο : Type} {c : Codec g.sizes ι} {args : ι} {selector input rest : Bytes}
    (hencode : c.encodeWithSelector selector args = .ok input)
    (hlimit : (input ++ rest).length < g.sizes.limit) (method : ι → Call ο) (wrap : ο → Answer)
    {encode : ο → Except Err Bytes} (hanswer : ∀ out, encode out = (wrap out).encode g) :
    ∃ body, input = selector ++ body ∧
      runMethod (Generated.read g c (body ++ rest)) method encode =
        (wrap <$> method args) >>= fun answer => ofErr (answer.encode g) := by
  have hlengths := hlimit
  rw [List.length_append] at hlengths
  have hinput := c.encodeWithSelector_eq_ok selector (by omega) hencode
  refine ⟨c.bytes args, hinput, ?_⟩
  have hread : ofErr (Generated.read g c (c.bytes args ++ rest)) = pure args := by
    rw [read_bytes c args rest]
    · rfl
    · rw [hinput] at hlimit
      simp only [List.length_append] at hlimit ⊢
      omega
  rw [runMethod, hread, pure_bind, map_eq_pure_bind, bind_assoc]
  simp only [pure_bind, hanswer]

/-- The switch, on the bytes of a call. -/
theorem dispatch_encoded (habi : k.env.abi = generatedAbi g) (call : MethodCall) {input rest : Bytes}
    (hencode : call.encode g = .ok input) (hlimit : (input ++ rest).length < g.sizes.limit) :
    ∃ body, input = call.method.selector ++ body ∧
      dispatch k ctx stateDB contract txOrigin (body ++ rest) call.method =
        call.run k ctx stateDB contract txOrigin >>= fun answer => ofErr (answer.encode g) := by
  cases call with
  | addRegistry args =>
    simp only [dispatch, MethodCall.method, habi, generatedAbi]
    exact runMethod_encoded hencode hlimit _ Answer.id fun _ => rfl
  | addRecord args =>
    simp only [dispatch, MethodCall.method, habi, generatedAbi]
    exact runMethod_encoded hencode hlimit _ Answer.id fun _ => rfl
  | updateRecordStatus args =>
    simp only [dispatch, MethodCall.method, habi, generatedAbi]
    exact runMethod_encoded hencode hlimit _ (fun _ => Answer.empty) fun _ => rfl
  | records args =>
    simp only [dispatch, MethodCall.method, habi, generatedAbi]
    exact runMethod_encoded hencode hlimit _ Answer.records fun _ => rfl
  | registries args =>
    simp only [dispatch, MethodCall.method, habi, generatedAbi]
    exact runMethod_encoded hencode hlimit _ Answer.registries fun _ => rfl
  | registriesByName args =>
    obtain ⟨body, hbody, hrun⟩ := runMethod_encoded hencode hlimit
      (Precompile.registriesByName k ctx) Answer.registries fun _ => rfl
    refine ⟨body, hbody, ?_⟩
    simp only [dispatch, MethodCall.method, MethodCall.run, habi, generatedAbi]
    -- the gate of the search comes before its arguments are read
    cases registriesByNameGate k ctx stateDB contract txOrigin with
    | some reason => rfl
    | none => exact hrun
  | grantRole args =>
    simp only [dispatch, MethodCall.method, habi, generatedAbi]
    exact runMethod_encoded hencode hlimit _ (fun _ => Answer.empty) fun _ => rfl
  | revokeRole args =>
    simp only [dispatch, MethodCall.method, habi, generatedAbi]
    exact runMethod_encoded hencode hlimit _ (fun _ => Answer.empty) fun _ => rfl

/-- A selector is the id of its method. -/
theorem splitMethodID_selector (method : Method) (body : Bytes) :
    splitMethodID (method.selector ++ body) = .ok (method.id, body) := by
  cases method <;> rfl

/-- Every method is found by its selector. -/
theorem ofID_id (method : Method) : Method.ofID method.id = some method := by
  cases method <;> rfl

/-- The method of a call behind the gates. -/
def MethodCall.gated (g : GoAbi) (k : Keeper) (ctx : Context) (stateDB : Option StateDB)
    (contract : Contract) (readOnly : Bool) (txOrigin : Address) (call : MethodCall) : Call Bytes :=
  if readOnly && call.method.writes then throw .writeProtection
  else match receivedValue contract with
    | some value => revert k (str "cannot receive funds, received: " ++ Go.fmtUint value.toNat)
    | none =>
      if call.method.writes && !ensureEOACaller k stateDB contract txOrigin then revert k errSenderNoEOA
      else do
        let answer ← call.run k ctx stateDB contract txOrigin
        ofErr (answer.encode g)

/-- `Execute` on the bytes of a call. -/
theorem execute_encoded (habi : k.env.abi = generatedAbi g) (call : MethodCall) {input rest : Bytes}
    (hencode : call.encode g = .ok input) (hinput : contract.input = input ++ rest)
    (hlimit : contract.input.length < g.sizes.limit) (readOnly : Bool) :
    execute k ctx stateDB (some contract) readOnly txOrigin =
      call.gated g k ctx stateDB contract readOnly txOrigin := by
  obtain ⟨body, rfl, hdispatch⟩ := @dispatch_encoded g k ctx stateDB contract txOrigin habi call input
    rest hencode (hinput ▸ hlimit)
  have hsplit : splitMethodID contract.input = .ok (call.method.id, body ++ rest) := by
    rw [hinput, List.append_assoc, splitMethodID_selector]
  have hparse : parseMethod contract.input readOnly =
      if readOnly && call.method.writes then .error .writeProtection
      else .ok (call.method.id, body ++ rest) := by
    simp only [parseMethod, hsplit, bind, Except.bind, isTransactionID_id]
    rfl
  unfold MethodCall.gated
  cases hprotected : readOnly && call.method.writes with
  | true =>
    rw [hprotected] at hparse
    simp only [execute, hparse]
    rfl
  | false =>
    rw [hprotected] at hparse
    rw [execute_parsed hparse, isTransactionID_id]
    simp only [executeMethod, ofID_id, hdispatch]
    rfl

/-- A client reads the answer of the method it called. -/
theorem decode_answer {call : MethodCall} {w w' : World} {answer : Answer} {bytes : Bytes}
    (hrun : outcome (call.run k ctx stateDB contract txOrigin) w = (.ok answer, w'))
    (hencode : answer.encode g = .ok bytes) (hlimit : bytes.length < g.sizes.limit) :
    Answer.decode g call.method bytes = some answer := by
  cases call with
  | addRegistry args =>
    obtain ⟨id, -, rfl⟩ := outcome_map_eq_ok hrun
    rw [MethodCall.method, Answer.decode, read_write _ hlimit hencode]
    rfl
  | addRecord args =>
    obtain ⟨id, -, rfl⟩ := outcome_map_eq_ok hrun
    rw [MethodCall.method, Answer.decode, read_write _ hlimit hencode]
    rfl
  | updateRecordStatus args =>
    obtain ⟨_, -, rfl⟩ := outcome_map_eq_ok hrun
    rw [MethodCall.method, Answer.decode, g.decode_emptyTuple bytes hencode]
    rfl
  | records args =>
    obtain ⟨page, -, rfl⟩ := outcome_map_eq_ok hrun
    rw [MethodCall.method, Answer.decode, read_write _ hlimit hencode]
    rfl
  | registries args =>
    obtain ⟨page, -, rfl⟩ := outcome_map_eq_ok hrun
    rw [MethodCall.method, Answer.decode, read_write _ hlimit hencode]
    rfl
  | registriesByName args =>
    simp only [MethodCall.run] at hrun
    split at hrun
    · cases hrun
    · obtain ⟨page, -, rfl⟩ := outcome_map_eq_ok hrun
      rw [MethodCall.method, Answer.decode, read_write _ hlimit hencode]
      rfl
  | grantRole args =>
    obtain ⟨_, -, rfl⟩ := outcome_map_eq_ok hrun
    rw [MethodCall.method, Answer.decode, g.decode_emptyTuple bytes hencode]
    rfl
  | revokeRole args =>
    obtain ⟨_, -, rfl⟩ := outcome_map_eq_ok hrun
    rw [MethodCall.method, Answer.decode, g.decode_emptyTuple bytes hencode]
    rfl

/-- A call that answered passed its gates. -/
theorem gated_eq_ok {call : MethodCall} {readOnly : Bool} {w w' : World} {bytes : Bytes}
    (h : outcome (call.gated g k ctx stateDB contract readOnly txOrigin) w = (.ok bytes, w')) :
    ∃ answer, outcome (call.run k ctx stateDB contract txOrigin) w = (.ok answer, w') ∧
      answer.encode g = .ok bytes := by
  unfold MethodCall.gated at h
  split at h
  · cases h
  · split at h
    · cases h
    · split at h
      · cases h
      · obtain ⟨answer, w₁, hrun, hrest⟩ := outcome_bind_eq_ok h
        obtain ⟨hencode, rfl⟩ := outcome_ofErr_eq_ok hrest
        exact ⟨answer, hrun, hencode⟩

end Encoded

/-- **A call through the ABI is a call.** The bytes of a call, with any bytes after them, run the method
of the call on its arguments, behind the gates; and when the call answers, the client decodes what the
method returned. -/
theorem client_call {g : GoAbi} {k : Keeper} (habi : k.env.abi = generatedAbi g) (call : MethodCall)
    {contract : Contract} {input rest : Bytes} (hencode : call.encode g = .ok input)
    (hinput : contract.input = input ++ rest) (hlimit : contract.input.length < g.sizes.limit)
    (ctx : Context) (stateDB : Option StateDB) (readOnly : Bool) (txOrigin : Address) :
    execute k ctx stateDB (some contract) readOnly txOrigin =
        call.gated g k ctx stateDB contract readOnly txOrigin ∧
      ∀ w w' bytes,
        outcome (execute k ctx stateDB (some contract) readOnly txOrigin) w = (.ok bytes, w') →
        bytes.length < g.sizes.limit →
        ∃ answer, outcome (call.run k ctx stateDB contract txOrigin) w = (.ok answer, w') ∧
          Answer.decode g call.method bytes = some answer := by
  have hexecute := @execute_encoded g k ctx stateDB contract txOrigin habi call input rest hencode hinput
    hlimit readOnly
  refine ⟨hexecute, fun w w' bytes h hbytes => ?_⟩
  rw [hexecute] at h
  obtain ⟨answer, hrun, hanswer⟩ := gated_eq_ok h
  exact ⟨answer, hrun, decode_answer hrun hanswer hbytes⟩

/-- A call that adds a registry. -/
def deedsInput : Bytes :=
  ((MethodCall.addRegistry ⟨str "deeds", [], []⟩).encode strictGoAbi).toOption.getD []

/-- The account without code sends the call that adds a registry, and a byte more. -/
def deedsOutcome : Except Fault Bytes × World :=
  outcome (execute plainKeeper plainContext (some ⟨fun _ => []⟩)
    (some ⟨smallOrigin, none, deedsInput ++ [7]⟩) false smallOrigin) ⟨Store.initial smallParams, [], 0⟩

/-- The registry is added, and the client reads an id. -/
theorem client_call_deeds :
    deedsOutcome.1 = .ok (word 1) ∧ deedsOutcome.2.store.registryCount = some 1 ∧
      ∃ answer, Answer.decode strictGoAbi .addRegistry (word 1) = some answer := by
  have hok : deedsOutcome.1 = .ok (word 1) := by decide +kernel
  have hencode : (MethodCall.addRegistry ⟨str "deeds", [], []⟩).encode strictGoAbi = .ok deedsInput := by
    decide +kernel
  have hlimit : (deedsInput ++ [7]).length < strictGoAbi.sizes.limit := by decide +kernel
  have hanswer : (word 1).length < strictGoAbi.sizes.limit := by decide +kernel
  have hout : deedsOutcome = (.ok (word 1), deedsOutcome.2) := by rw [← hok]
  have habi : plainKeeper.env.abi = generatedAbi strictGoAbi := rfl
  obtain ⟨answer, -, hdecode⟩ := (@client_call strictGoAbi plainKeeper habi _
    ⟨smallOrigin, none, deedsInput ++ [7]⟩ deedsInput [7] hencode rfl hlimit plainContext
    (some ⟨fun _ => []⟩) false smallOrigin).2 ⟨Store.initial smallParams, [], 0⟩ deedsOutcome.2 (word 1)
    hout hanswer
  exact ⟨hok, by decide +kernel, answer, hdecode⟩

end Nvnmchain.Precompile
