import CryptoSuite.Proofs.Memory.Grants
import CryptoSuite.Suite.Capability
import Mathlib.Data.List.Nodup
import Mathlib.Tactic.SplitIfs

/-! Requests to the contexts of a suite of test doubles as data, and the one call of a handler that each
of them comes down to. -/
namespace CryptoSuite.Mock

open StreamCipher (Cursor)

/-- A context of some capability. -/
inductive Context (κ : Type)
  | hash (c : Hash.Context κ Unit)
  | mac (c : Mac.Context κ Unit)
  | block (c : BlockCipher.Context κ Unit)
  | stream (c : StreamCipher.Context κ Unit)
  | signature (a : Signature.Algorithm κ)
  | agreement (a : KeyAgreement.Algorithm κ)
  | random (a : Random.Algorithm κ)
  | derivation (p : KeyDerivation.Provider) (prf : Mac.Algorithm κ Unit)

inductive Request
  | digest (data : Bytes)
  | finalize (out : Bytes)
  | reset
  | encryptBlock (iv input out : Bytes)
  | decryptBlock (iv input out : Bytes)
  | startEncryption (iv : Bytes) (out : Cursor)
  | startDecryption (input : Bytes) (offset : Nat)
  | continueEncryption (iv : Bytes) (position : UInt64)
  | continueDecryption (iv : Bytes) (position : UInt64)
  | encrypt (input : Bytes) (out : Cursor)
  | decrypt (input : Bytes) (out : Cursor)
  | createKeypair (privateKey publicKey : Bytes)
  | sign (out privateKey message : Bytes)
  | verify (given publicKey message : Bytes)
  | longTermSecret (privateKey publicKey out : Bytes)
  | shortTermSecret (privateKey publicKey nonceA nonceB out : Bytes)
  | read (out : Bytes)
  | readUuid (out : Bytes)
  | derive (key password salt : Bytes) (rounds : Nat)
  deriving DecidableEq, Repr

variable {κ : Type}

/-- What the caller sees of a request: its outcome, the slices that it passed to be written, and its
offset. A context has no requests of another capability. -/
def Context.use : Context κ → Request → Action κ (Reply × Context κ)
  | .hash c, .digest data => do
    let (status, c) ← c.digest data
    pure (⟨status, [], none⟩, .hash c)
  | .hash c, .finalize out => do
    let (status, out, c) ← c.finalize out
    pure (⟨status, [out], none⟩, .hash c)
  | .hash c, .reset => pure (⟨.ok (), [], none⟩, .hash c.reset)
  | .mac c, .digest data => do
    let (status, c) ← c.digest data
    pure (⟨status, [], none⟩, .mac c)
  | .mac c, .finalize out => do
    let (status, out, c) ← c.finalize out
    pure (⟨status, [out], none⟩, .mac c)
  | .block c, .encryptBlock iv input out => do
    let (status, out, c) ← c.encrypt iv input out
    pure (⟨status, [out], none⟩, .block c)
  | .block c, .decryptBlock iv input out => do
    let (status, out, c) ← c.decrypt iv input out
    pure (⟨status, [out], none⟩, .block c)
  | .stream c, .startEncryption iv out => do
    let (status, out, c) ← c.startEncryption iv out
    pure (⟨status, [out.output], some out.offset⟩, .stream c)
  | .stream c, .startDecryption input offset => do
    let (status, offset, c) ← c.startDecryption input offset
    pure (⟨status, [], some offset⟩, .stream c)
  | .stream c, .continueEncryption iv position => do
    let (status, c) ← c.continueEncryption iv position
    pure (⟨status, [], none⟩, .stream c)
  | .stream c, .continueDecryption iv position => do
    let (status, c) ← c.continueDecryption iv position
    pure (⟨status, [], none⟩, .stream c)
  | .stream c, .encrypt input out => do
    let (status, out, c) ← c.encrypt input out
    pure (⟨status, [out.output], some out.offset⟩, .stream c)
  | .stream c, .decrypt input out => do
    let (status, out, c) ← c.decrypt input out
    pure (⟨status, [out.output], some out.offset⟩, .stream c)
  | .signature a, .createKeypair privateKey publicKey => do
    let (status, privateKey, publicKey) ← a.createKeypair privateKey publicKey
    pure (⟨status, [privateKey, publicKey], none⟩, .signature a)
  | .signature a, .sign out privateKey message => do
    let (status, out) ← a.sign out privateKey message
    pure (⟨status, [out], none⟩, .signature a)
  | .signature a, .verify given publicKey message => do
    let status ← a.verify given publicKey message
    pure (⟨status, [], none⟩, .signature a)
  | .agreement a, .createKeypair privateKey publicKey => do
    let (status, privateKey, publicKey) ← a.createKeypair privateKey publicKey
    pure (⟨status, [privateKey, publicKey], none⟩, .agreement a)
  | .agreement a, .longTermSecret privateKey publicKey out => do
    let (status, out) ← a.longTermSecret privateKey publicKey out
    pure (⟨status, [out], none⟩, .agreement a)
  | .agreement a, .shortTermSecret privateKey publicKey nonceA nonceB out => do
    let (status, out) ← a.shortTermSecret privateKey publicKey nonceA nonceB out
    pure (⟨status, [out], none⟩, .agreement a)
  | .random a, .read out => do
    let (status, out) ← a.read out
    pure (⟨status, [out], none⟩, .random a)
  | .random a, .readUuid out => do
    let (status, out) ← a.readUuid out
    pure (⟨status, [out], none⟩, .random a)
  | .derivation p prf, .derive key password salt rounds => do
    let (status, key) ← p.algorithm.derive prf key password salt rounds
    pure (⟨status, [key], none⟩, .derivation p prf)
  | c, _ => pure (⟨.ok (), [], none⟩, c)

/-- The operation that answers a request to a context of a capability, if one does. -/
def operation : Slot → Request → Option Operation
  | .hash, .digest _ => some .hashDigest
  | .hash, .finalize _ => some .hashFinalize
  | .mac, .digest _ => some .macDigest
  | .mac, .finalize _ => some .macFinalize
  | .macShort, .digest _ => some .macShortDigest
  | .macShort, .finalize _ => some .macShortFinalize
  | .block, .encryptBlock _ _ _ => some .blockEncrypt
  | .block, .decryptBlock _ _ _ => some .blockDecrypt
  | .stream, .startEncryption _ _ => some .streamStartEncryption
  | .stream, .startDecryption _ _ => some .streamStartDecryption
  | .stream, .continueEncryption _ _ => some .streamContinueEncryption
  | .stream, .continueDecryption _ _ => some .streamContinueDecryption
  | .stream, .encrypt _ _ => some .streamEncrypt
  | .stream, .decrypt _ _ => some .streamDecrypt
  | .signature, .createKeypair _ _ => some .signatureKeypairCreate
  | .signature, .sign _ _ _ => some .signatureSign
  | .signature, .verify _ _ _ => some .signatureVerify
  | .authAgreement, .createKeypair _ _ => some .authKeypairCreate
  | .authAgreement, .longTermSecret _ _ _ => some .authLongTermSecretCreate
  | .authAgreement, .shortTermSecret _ _ _ _ _ => some .authShortTermSecretCreate
  | .cipherAgreement, .createKeypair _ _ => some .cipherKeypairCreate
  | .cipherAgreement, .longTermSecret _ _ _ => some .cipherLongTermSecretCreate
  | .cipherAgreement, .shortTermSecret _ _ _ _ _ => some .cipherShortTermSecretCreate
  | .random, .read _ => some .prngRead
  | .random, .readUuid _ => some .prngRead
  | .keyDerivation, .derive _ _ _ _ => some .keyDerivationDerive
  | _, _ => none

/-- The capability that an operation is one of. -/
def Operation.slot : Operation → Slot
  | hashDigest | hashFinalize => .hash
  | macDigest | macFinalize => .mac
  | macShortDigest | macShortFinalize => .macShort
  | blockEncrypt | blockDecrypt => .block
  | streamStartEncryption | streamStartDecryption | streamContinueEncryption | streamContinueDecryption
  | streamEncrypt | streamDecrypt => .stream
  | signatureKeypairCreate | signatureSign | signatureVerify => .signature
  | authKeypairCreate | authLongTermSecretCreate | authShortTermSecretCreate => .authAgreement
  | cipherKeypairCreate | cipherLongTermSecretCreate | cipherShortTermSecretCreate => .cipherAgreement
  | prngRead => .random
  | keyDerivationDerive => .keyDerivation

namespace Request

/-- What the handler gets to see, which is all that the caller passed. -/
def call : Request → Call
  | .digest data => ⟨[.bytes data], [], none⟩
  | .finalize out => ⟨[], [out], none⟩
  | .reset => ⟨[], [], none⟩
  | .encryptBlock iv input out => ⟨[.bytes iv, .bytes input], [out], none⟩
  | .decryptBlock iv input out => ⟨[.bytes iv, .bytes input], [out], none⟩
  | .startEncryption iv out => ⟨[.bytes iv], [out.output], some out.offset⟩
  | .startDecryption input offset => ⟨[.bytes input], [], some offset⟩
  | .continueEncryption iv position => ⟨[.bytes iv, .number position.toNat], [], none⟩
  | .continueDecryption iv position => ⟨[.bytes iv, .number position.toNat], [], none⟩
  | .encrypt input out => ⟨[.bytes input], [out.output], some out.offset⟩
  | .decrypt input out => ⟨[.bytes input], [out.output], some out.offset⟩
  | .createKeypair privateKey publicKey => ⟨[], [privateKey, publicKey], none⟩
  | .sign out privateKey message => ⟨[.bytes privateKey, .bytes message], [out], none⟩
  | .verify given publicKey message => ⟨[.bytes given, .bytes publicKey, .bytes message], [], none⟩
  | .longTermSecret privateKey publicKey out => ⟨[.bytes privateKey, .bytes publicKey], [out], none⟩
  | .shortTermSecret privateKey publicKey nonceA nonceB out =>
    ⟨[.bytes privateKey, .bytes publicKey, .bytes nonceA, .bytes nonceB], [out], none⟩
  | .read out => ⟨[], [out], none⟩
  | .readUuid out => ⟨[], [out], none⟩
  | .derive key password salt rounds =>
    ⟨[.bytes password, .bytes salt, .number rounds], [key], none⟩

/-- What the caller gets of the reply. An identifier is marked as one, unless there was a failure. -/
def finish : Request → Reply → Reply
  | .readUuid _, ⟨.ok _, outputs, offset⟩ => ⟨.ok (), outputs.map Random.markUuid, offset⟩
  | _, reply => reply

/-- A request that fails and hands everything back as it was. -/
def refused (request : Request) (e : CryptoError) : Reply :=
  ⟨.error e, request.call.outputs, request.call.offset⟩

end Request

/-- The lengths that are checked before the suite gets to see a request. -/
def check : Slot → Request → Status
  | .hash, .finalize out =>
    if out.length < 64 then .error (.invalidArgument .hash (.shortDigestBuffer out.length 64))
    else .ok ()
  | .block, .encryptBlock iv input out => blockLengths iv input out
  | .block, .decryptBlock iv input out => blockLengths iv input out
  | .random, .readUuid out =>
    if out.length = 16 then .ok ()
    else .error (.invalidArgument .prng (.length .uuidBuffer 16 out.length))
  | _, _ => .ok ()
where
  blockLengths (iv input out : Bytes) : Status :=
    if iv.length ≠ 16 then .error (.invalidArgument .block (.length .iv 16 iv.length))
    else if input.length ≠ 16 ∨ out.length ≠ 16 then
      .error (.invalidArgument .block (.blockLengths 16 input.length out.length))
    else .ok ()

/-- What a request is answered by when its slot holds a handler, or none. -/
def Request.answer (request : Request) (slot : Slot) (op : Operation) (handler : Option Handler) : Reply :=
  match check slot request, handler with
  | .error e, _ => request.refused e
  | .ok _, none => request.refused (.mockNotAdded op.name)
  | .ok _, some f => request.finish ((f request.call).fit request.call)

/-- The calls that then get to the handler. -/
def Request.reached (request : Request) (slot : Slot) (t : Handle) (op : Operation)
    (handler : Option Handler) : List Invocation :=
  match check slot request, handler with
  | .ok _, some _ => [⟨t, op, request.call⟩]
  | _, _ => []

/-- The context of a capability. It holds nothing but the slot table. -/
def contextOf (t : Handle) : Slot → Context κ
  | .hash => .hash ⟨Mock.hash t, ()⟩
  | .mac => .mac ⟨Mock.mac t false, ()⟩
  | .macShort => .mac ⟨Mock.mac t true, ()⟩
  | .random => .random (Mock.random t)
  | .signature => .signature (Mock.signature t)
  | .authAgreement => .agreement (Mock.keyAgreement t false)
  | .cipherAgreement => .agreement (Mock.keyAgreement t true)
  | .block => .block ⟨Mock.block t, ()⟩
  | .stream => .stream ⟨Mock.stream t, ()⟩
  | .keyDerivation => .derivation (.mock t) (Mock.mac t true)

end CryptoSuite.Mock

namespace CryptoSuite.Suite

open Mock (Context contextOf)

variable {κ : Type}

/-- A context of a suite of test doubles, which is known by its slot table. What computes on the curve
plays no part in it. -/
def openMock (t : Mock.Handle) (key : Bytes) (d : BlockCipher.Direction) : Slot → Attempt κ (Context κ)
  | .hash => do
    let c ← (ofMocks t).hashInit
    pure (.hash c)
  | .mac => do
    let c ← (ofMocks t).macInit key
    pure (.mac c)
  | .macShort => do
    let c ← (ofMocks t).macShortInit key
    pure (.mac c)
  | .random => pure (.random (ofMocks t).random.algorithm)
  | .signature => pure (.signature ((ofMocks t).signature.algorithm Ed25519.standard))
  | .authAgreement => pure (.agreement ((ofMocks t).authAgreement.algorithm X25519.multiply))
  | .cipherAgreement => pure (.agreement ((ofMocks t).cipherAgreement.algorithm X25519.multiply))
  | .block => do
    let c ← (ofMocks t).blockInit key d
    pure (.block c)
  | .stream => do
    let c ← (ofMocks t).streamInit key
    pure (.stream c)
  | .keyDerivation => pure (.derivation (ofMocks t).keyDerivation (ofMocks t).prf.algorithm)

theorem runFrom_openMock (t : Mock.Handle) (key : Bytes) (d : BlockCipher.Direction) (slot : Slot)
    (μ : Machine κ) : (openMock t key d slot).runFrom μ = (.ok (contextOf t slot), μ) := by
  cases slot <;> rfl

end CryptoSuite.Suite

namespace CryptoSuite.Mock

variable {κ : Type} {slot : Slot} {request : Request} {op : Operation} {t : Handle}

/-- Slices and offset as a call has them. -/
structure Reply.Fits (r : Reply) (c : Call) : Prop where
  outputs : r.outputs.length = c.outputs.length
  offset : r.offset.isSome = c.offset.isSome

theorem length_fillAll (slices written : List Bytes) : (fillAll slices written).length = slices.length := by
  induction slices generalizing written with
  | nil => rfl
  | cons slice slices ih =>
    cases written with
    | nil => rfl
    | cons w written => simp only [fillAll, List.length_cons, ih]

theorem dispatch_fits (tables : Tables) (t : Handle) (op : Operation) (c : Call) :
    (tables.dispatch t op c).1.Fits c := by
  unfold Tables.dispatch
  split
  · exact ⟨rfl, rfl⟩
  · exact ⟨length_fillAll _ _, Option.isSome_map⟩

/-- A reply that fits is put together again from what is read of it. -/
theorem Reply.Fits.rebuild {r : Reply} {c : Call} (h : r.Fits c) :
    (⟨r.status, c.outputs.mapIdx fun i before => r.output i before,
      c.offset.map fun before => r.offset.getD before⟩ : Reply) = r := by
  obtain ⟨status, outputs, offset⟩ := r
  obtain ⟨inputs, slices, before⟩ := c
  obtain ⟨hlength, hoffset⟩ := h
  simp only [Reply.mk.injEq, true_and]
  constructor
  · apply List.ext_getElem
    · simpa using hlength.symm
    · intro i _ hi
      simp [Reply.output, hi]
  · cases before <;> cases offset <;> simp_all

/-- The bytes of an identifier are marked once the handler has made them. -/
theorem use_readUuid {out : Bytes} (hl : out.length = 16) (μ : Machine κ) :
    ((contextOf t .random).use (.readUuid out)).runFrom μ =
      (((Request.readUuid out).finish (μ.mocks.dispatch t .prngRead ⟨[], [out], none⟩).1,
          contextOf t .random),
        { μ with mocks := (μ.mocks.dispatch t .prngRead ⟨[], [out], none⟩).2 }) := by
  obtain ⟨status, made, hr⟩ :
      ∃ status made, (μ.mocks.dispatch t .prngRead ⟨[], [out], none⟩).1 = ⟨status, [made], none⟩ :=
    ⟨_, _, (dispatch_fits μ.mocks t .prngRead ⟨[], [out], none⟩).rebuild.symm⟩
  have hread : ((Mock.random t).read out).runFrom μ = ((status, made),
      { μ with mocks := (μ.mocks.dispatch t .prngRead ⟨[], [out], none⟩).2 }) := by
    refine congrArg (Prod.mk · _) ?_
    show ((μ.mocks.dispatch t .prngRead ⟨[], [out], none⟩).1.status,
      (μ.mocks.dispatch t .prngRead ⟨[], [out], none⟩).1.output 0 out) = _
    rw [hr]
    rfl
  have hsize : ¬out.length ≠ Random.uuidSize := fun h => h hl
  simp only [contextOf, Context.use, Random.Algorithm.readUuid, hsize, ↓reduceIte, Action.runFrom_bind,
    hread, hr]
  cases status <;> rfl

theorem checkLengths_eq (t : Handle) (iv input out : Bytes) :
    (⟨Mock.block t, ()⟩ : BlockCipher.Context κ Unit).checkLengths iv input out =
      check.blockLengths iv input out := rfl

/-- A request that passes the checks is dispatched as it is, to the one slot that is for it. -/
theorem use_served (h : operation slot request = some op) (hc : check slot request = .ok ())
    (μ : Machine κ) :
    ((contextOf t slot).use request).runFrom μ =
      ((request.finish (μ.mocks.dispatch t op request.call).1, contextOf t slot),
        { μ with mocks := (μ.mocks.dispatch t op request.call).2 }) := by
  have hrebuild := (dispatch_fits μ.mocks t op request.call).rebuild
  have hsame := congrArg (fun r => ((r, contextOf (κ := κ) t slot),
    { μ with mocks := (μ.mocks.dispatch t op request.call).2 })) hrebuild
  cases slot <;> cases request <;> cases h <;> try exact hsame
  case hash.finalize out =>
    rw [check] at hc
    split_ifs at hc with hl
    show Action.runFrom ((if out.length < 64 then _ else _) >>= _) μ = _
    rw [if_neg hl]
    exact hsame
  case block.encryptBlock iv input out | block.decryptBlock iv input out =>
    have hlengths : check.blockLengths iv input out = .ok () := hc
    simp only [contextOf, Context.use, BlockCipher.Context.encrypt, BlockCipher.Context.decrypt,
      BlockCipher.Context.apply, checkLengths_eq, hlengths]
    exact hsame
  case random.readUuid out =>
    rw [check] at hc
    split_ifs at hc with hl
    exact use_readUuid hl μ

/-- A request that does not pass them reaches no slot. -/
theorem use_refused {e : CryptoError} (hc : check slot request = .error e) (μ : Machine κ) :
    ((contextOf t slot).use request).runFrom μ = ((request.refused e, contextOf t slot), μ) := by
  cases slot <;> cases request <;> try cases hc
  case hash.finalize out =>
    rw [check] at hc
    split_ifs at hc with hl
    cases hc
    show Action.runFrom ((if out.length < 64 then _ else _) >>= _) μ = _
    rw [if_pos hl]
    rfl
  case block.encryptBlock iv input out | block.decryptBlock iv input out =>
    have hlengths : check.blockLengths iv input out = .error e := hc
    simp only [contextOf, Context.use, BlockCipher.Context.encrypt, BlockCipher.Context.decrypt,
      BlockCipher.Context.apply, checkLengths_eq, hlengths]
    rfl
  case random.readUuid out =>
    rw [check] at hc
    split_ifs at hc with hl
    cases hc
    show Action.runFrom ((if out.length ≠ 16 then _ else _) >>= _) μ = _
    rw [if_pos hl]
    rfl

/-- A request is answered by what is in its slot, and stays without effect otherwise. -/
theorem use_eq (h : operation slot request = some op) (μ : Machine κ) :
    ((contextOf t slot).use request).runFrom μ =
      ((request.answer slot op (μ.mocks.slots t op), contextOf t slot), { μ with mocks :=
        ⟨μ.mocks.tables, μ.mocks.calls ++ request.reached slot t op (μ.mocks.slots t op)⟩ }) := by
  cases hc : check slot request with
  | error e =>
    rw [use_refused hc]
    simp [Request.answer, Request.reached, hc]
  | ok _ =>
    have hfinish (e : CryptoError) : request.finish (request.refused e) = request.refused e := by
      cases request <;> rfl
    rw [use_served h hc]
    cases hf : μ.mocks.slots t op with
    | none =>
      simp only [Tables.dispatch, hf, Request.answer, Request.reached, hc, List.append_nil]
      exact congrArg (fun r => ((r, contextOf t slot), μ)) (hfinish _)
    | some f => simp only [Tables.dispatch, hf, Request.answer, Request.reached, hc]

/-- A request that no operation answers does nothing. -/
theorem use_idle (h : operation slot request = none) (t : Handle) (μ : Machine κ) :
    ((contextOf t slot).use request).runFrom μ = ((⟨.ok (), [], none⟩, contextOf t slot), μ) := by
  cases slot <;> cases request <;> first | rfl | cases h

/-- Requests whose output goes into a buffer that is made for it. -/
inductive BufferRequest
  | read (size : Nat)
  | derive (size : Nat) (password salt : Bytes) (rounds : Nat)
  deriving DecidableEq, Repr

namespace BufferRequest

def size : BufferRequest → Nat
  | read size => size
  | derive size _ _ _ => size

/-- The request with an output of the caller. -/
def into : BufferRequest → Bytes → Request
  | read _, out => .read out
  | derive _ password salt rounds, out => .derive out password salt rounds

/-- Makes the buffer, then passes it to what is in the slot. -/
def outcome (request : BufferRequest) (slot : Slot) (t : Handle) (op : Operation)
    (handler : Option Handler) : Attempt κ Buffer := do
  let out ← Buffer.new request.size
  let reply := (request.into out.bytes).answer slot op handler
  let reached := (request.into out.bytes).reached slot t op handler
  Fallible.perform (Action.onMocks fun tables => ((), ⟨tables.tables, tables.calls ++ reached⟩))
  Fallible.releasing out.release (Attempt.require reply.status)
  pure (out.setBytes (reply.output 0 out.bytes))

end BufferRequest

/-- An action whose output goes into a buffer that is made for it. -/
def intoNew (size : Nat) (x : Bytes → Action κ (Status × Bytes)) : Attempt κ Buffer := do
  let out ← Buffer.new size
  let (status, bytes) ← Fallible.perform (x out.bytes)
  Fallible.releasing out.release (Attempt.require status)
  pure (out.setBytes bytes)

theorem runFrom_deriveBuffer (a : KeyDerivation.Algorithm κ) (prf : Mac.Algorithm κ Unit) (size : Nat)
    (password salt : Bytes) (rounds : Nat) (μ : Machine κ) :
    (a.deriveBuffer prf size password salt rounds).runFrom μ =
      (intoNew size fun key => a.derive prf key password salt rounds).runFrom μ := by
  rw [KeyDerivation.Algorithm.deriveBuffer, intoNew, Fallible.runFrom_bind, Fallible.runFrom_bind]
  rcases (Buffer.new size).runFrom μ with ⟨e | key, ν⟩
  · rfl
  · rcases hmade : (a.derive prf key.bytes password salt rounds).runFrom ν with ⟨⟨_ | _, made⟩, ξ⟩
    all_goals
      simp only [Fallible.runFrom_bind, Fallible.runFrom_perform, Fallible.runFrom_releasing,
        Attempt.runFrom_checked, Attempt.runFrom_require, hmade]
      rfl

end CryptoSuite.Mock
