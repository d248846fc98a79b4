import CryptoSuite.Proofs.Cbc.Access
import CryptoSuite.Proofs.Ctr.Access
import CryptoSuite.Proofs.KeyAgreement.Access
import CryptoSuite.Proofs.KeyDerivation.Access
import CryptoSuite.Proofs.Memory.Session
import CryptoSuite.Proofs.Registry.Factories

/-! Whole sessions in which every access out of range ends in a fault of its own. A caller sees nothing of the
fault, whatever it is: what the caller owns is always in a state in which no access fails. -/
namespace CryptoSuite.Custody

open CryptoSuite.Action (Mirrors)

variable {κ : Type}

namespace Object

/-- The object with `fault` in place of every access out of range. -/
def guard (fault : CryptoError) : Object κ → Object κ
  | buffer b => buffer b
  | hash v c => hash v ⟨Sha2.guarded fault v, c.state⟩
  | mac name v c => mac name v ⟨Hmac.guarded fault name (Sha2.guarded fault v), c.state⟩
  | block m c => block m ⟨Cbc.guarded fault m, c.state⟩
  | stream m c => stream m ⟨Ctr.guarded fault m, c.state⟩

/-- An object in a state in which no access fails. -/
def InRange : Object κ → Prop
  | buffer _ => True
  | hash _ c => c.state.InRange
  | mac _ v c => c.state.inner.InRange ∧ c.state.outer.InRange ∧ c.state.pads.size = 2 * 128 ∧
      c.state.work.size = 2 * v.digestSize
  | block _ c => c.state.InRange
  | stream _ c => c.state.InRange

/-- A context of an algorithm of the library in a state which that algorithm reaches. -/
def Regular : Object κ → Prop
  | buffer _ => True
  | hash v c => c.algorithm = Sha2.algorithm v ∧ c.state.Sound v
  | mac name v c => c.algorithm = Hmac.algorithm name (Sha2.algorithm v) ∧ Hmac.SoundOver κ v c.state
  | block m c => c.algorithm = Cbc.algorithm m ∧ c.state.InRange
  | stream m c => c.algorithm = Ctr.algorithm m ∧ c.state.InRange

theorem Regular.inRange {o : Object κ} (h : o.Regular) : o.InRange := by
  cases o with
  | buffer _ => trivial
  | hash v c => exact h.2.inRange
  | mac name v c => exact ⟨h.2.inner.inRange, h.2.outer.inRange, h.2.pads_size, h.2.work_size⟩
  | block m c => exact h.2
  | stream m c => exact h.2

/-- One object under the guarded and under the plain operations. -/
def Alike (fault : CryptoError) (o o' : Object κ) : Prop := o = o'.guard fault ∧ o'.Regular

namespace Alike

variable {fault : CryptoError}

theorem buffer (b : Buffer) : Alike fault (.buffer b : Object κ) (.buffer b) := ⟨rfl, trivial⟩

theorem hash {v : Sha2.Variant} {c c' : Hash.Context κ Sha2.State}
    (h : Hash.Paired (Sha2.guarded fault v) (Sha2.algorithm v) (Sha2.State.Sound v) c c') :
    Alike fault (.hash v c) (.hash v c') :=
  ⟨congrArg (Object.hash v) h.left, h.right, h.sound⟩

theorem mac {name : String} {v : Sha2.Variant} {c c' : Mac.Context κ (Hmac.State Sha2.State)}
    (h : Mac.Paired (Hmac.guarded fault name (Sha2.guarded fault v))
      (Hmac.algorithm name (Sha2.algorithm v)) (Hmac.SoundOver κ v) c c') :
    Alike fault (.mac name v c) (.mac name v c') :=
  ⟨congrArg (Object.mac name v) h.left, h.right, h.sound⟩

theorem block {m : RoundMultiplier} {c c' : BlockCipher.Context κ Cbc.State}
    (h : BlockCipher.Paired (Cbc.guarded fault m) (Cbc.algorithm m) Cbc.State.InRange c c') :
    Alike fault (.block m c) (.block m c') :=
  ⟨congrArg (Object.block m) h.left, h.right, h.sound⟩

theorem stream {m : RoundMultiplier} {c c' : StreamCipher.Context κ Ctr.State}
    (h : StreamCipher.Paired (Ctr.guarded fault m) (Ctr.algorithm m) Ctr.State.InRange c c') :
    Alike fault (.stream m c) (.stream m c') :=
  ⟨congrArg (Object.stream m) h.left, h.right, h.sound⟩

end Alike

end Object

/-- Makes an object with `fault` in place of every access out of range. -/
def Maker.runGuarded (fault : CryptoError) : Maker → Attempt κ (Object κ)
  | zeroed size => do pure (.buffer (← Buffer.new size))
  | ofBytes content => do pure (.buffer (← Buffer.ofBytes content))
  | ofHex text => do pure (.buffer (← Buffer.ofHex text))
  | hashContext v => do pure (.hash v (← (Sha2.guarded fault v).init))
  | macContext name v key => do
    pure (.mac name v (← (Hmac.guarded fault name (Sha2.guarded fault v)).init key))
  | blockContext m key d => do pure (.block m (← (Cbc.guarded fault m).init key d))
  | streamContext m key => do pure (.stream m (← (Ctr.guarded fault m).init key))
  | hash v data => do pure (.buffer (← (Sha2.guarded fault v).hash data))
  | compute name v key message => do
    pure (.buffer (← (Hmac.guarded fault name (Sha2.guarded fault v)).compute key message))
  | deriveBuffer name v size password salt rounds => do
    pure (.buffer (← (KeyDerivation.guarded fault).deriveBuffer
      (Hmac.guarded fault name (Sha2.guarded fault v)) size password salt rounds))

def Query.runGuarded (fault : CryptoError) (multiply : X25519.Multiplication) : Query → Attempt κ Bytes
  | verify name v key message tag => do
    (Hmac.guarded fault name (Sha2.guarded fault v)).verify key message tag
    pure []
  | derive name v key password salt rounds =>
    Attempt.checked (Pbkdf2.deriveGuarded fault (Hmac.guarded fault name (Sha2.guarded fault v)) key
      password salt rounds)
  | longTermSecret v privateKey publicKey out =>
    Attempt.checked ((Curve25519.guarded multiply v fault).longTermSecret privateKey publicKey out)
  | shortTermSecret v privateKey publicKey nonceA nonceB out =>
    Attempt.checked
      ((Curve25519.guarded multiply v fault).shortTermSecret privateKey publicKey nonceA nonceB out)

/-- Objects are used and dropped as ever, under the operations that they were made with. -/
def performGuarded (fault : CryptoError) (multiply : X25519.Multiplication) (pool : List (Object κ)) :
    Operation → Action κ (Status × List (Object κ))
  | .make maker => do
    match ← (maker.runGuarded fault).run with
    | .error e => pure (.error e, pool)
    | .ok o => pure (.ok (), o :: pool)
  | .ask query => do
    match ← (query.runGuarded fault multiply).run with
    | .error e => pure (.error e, pool)
    | .ok _ => pure (.ok (), pool)
  | .use i call => perform multiply pool (.use i call)
  | .drop i => perform multiply pool (.drop i)

variable {fault : CryptoError} {multiply : X25519.Multiplication}

theorem mirrors_ofBytes (content : Bytes) :
    Attempt.Mirrors (fun b b' => b = b') (Buffer.ofBytes content : Attempt κ Buffer)
      (Buffer.ofBytes content) := by
  apply (Buffer.mirrors_new content.length).bind
  rintro b _ ⟨rfl, -⟩
  exact .pure rfl

theorem mirrors_ofHex (text : String) :
    Attempt.Mirrors (fun b b' => b = b') (Buffer.ofHex text : Attempt κ Buffer) (Buffer.ofHex text) := by
  unfold Buffer.ofHex
  cases Hex.decode text with
  | error fault => exact .throw nofun
  | ok content => exact mirrors_ofBytes content

theorem Maker.mirrors (fault : CryptoError) (maker : Maker) :
    Attempt.Mirrors (Object.Alike fault) (maker.runGuarded fault : Attempt κ (Object κ)) maker.run := by
  have hbuffer {x y : Attempt κ Buffer} (h : Attempt.Mirrors (fun b b' => b = b') x y) :
      Attempt.Mirrors (Object.Alike fault) (do pure (.buffer (← x)) : Attempt κ (Object κ))
        (do pure (.buffer (← y))) := by
    apply h.bind
    rintro b _ rfl
    exact .pure (.buffer b)
  cases maker with
  | zeroed size =>
    apply (Buffer.mirrors_new size).bind
    rintro b _ ⟨rfl, -⟩
    exact .pure (.buffer b)
  | ofBytes content => exact hbuffer (mirrors_ofBytes content)
  | ofHex text => exact hbuffer (mirrors_ofHex text)
  | hash v data => exact hbuffer ((Sha2.mirrors_guarded fault v).hash data)
  | compute name v key message =>
    exact hbuffer ((Hmac.mirrors_guarded_sha2 fault name v).compute key message)
  | deriveBuffer name v size password salt rounds =>
    exact hbuffer (KeyDerivation.mirrors_deriveBuffer (Hmac.mirrors_guarded_sha2 fault name v) fault size
      password salt rounds)
  | hashContext v =>
    apply (Sha2.mirrors_guarded fault v).init.bind
    intro c c' hc
    exact .pure (.hash hc)
  | macContext name v key =>
    apply ((Hmac.mirrors_guarded_sha2 fault name v).init key).bind
    intro c c' hc
    exact .pure (.mac hc)
  | blockContext m key d =>
    apply ((Cbc.mirrors_guarded fault m).init key d).bind
    intro c c' hc
    exact .pure (.block hc)
  | streamContext m key =>
    apply ((Ctr.mirrors_guarded fault m).init key).bind
    intro c c' hc
    exact .pure (.stream hc)

theorem Query.mirrors (fault : CryptoError) (multiply : X25519.Multiplication) (query : Query) :
    Attempt.Mirrors (fun made made' => made = made')
      (query.runGuarded fault multiply : Attempt κ Bytes) (query.run multiply) := by
  cases query with
  | verify name v key message tag =>
    apply ((Hmac.mirrors_guarded_sha2 fault name v).verify key message tag).bind
    intro _ _ _
    exact .pure rfl
  | derive name v key password salt rounds =>
    exact Attempt.mirrors_checked (Pbkdf2.mirrors_derive (Hmac.mirrors_guarded_sha2 fault name v)
      (fun _ he => he) fault key password salt rounds)
  | longTermSecret v privateKey publicKey out =>
    exact Attempt.mirrors_checked (Curve25519.mirrors_longTermSecret fault privateKey publicKey out)
  | shortTermSecret v privateKey publicKey nonceA nonceB out =>
    exact Attempt.mirrors_checked
      (Curve25519.mirrors_shortTermSecret fault privateKey publicKey nonceA nonceB out)

namespace Object

theorem mirrors_release {o : Object κ} (h : o.Regular) :
    Mirrors (fun _ _ => True) (o.guard fault).release o.release := by
  cases o with
  | buffer b => exact b.mirrors_release
  | hash v c => exact (Sha2.mirrors_guarded fault v).releaseContext ⟨rfl, h.1, h.2⟩
  | mac name v c => exact (Hmac.mirrors_guarded_sha2 fault name v).releaseContext ⟨rfl, h.1, h.2⟩
  | block m c => exact (Cbc.mirrors_guarded fault m).releaseContext ⟨rfl, h.1, h.2⟩
  | stream m c => exact (Ctr.mirrors_guarded fault m).releaseContext ⟨rfl, h.1, h.2⟩

/-- The answer to a call, and the object after it. -/
theorem Alike.answer {o o' : Object κ} (h : Alike fault o o') {status : Status} (hok : status.Ordinary) :
    Mirrors (fun r r' => r = (r'.1, r'.2.guard fault) ∧ Status.Ordinary r'.1 ∧ r'.2.Regular)
      (pure (status, o) : Action κ _) (pure (status, o')) :=
  .pure ⟨congrArg (Prod.mk status) h.1, hok, h.2⟩

theorem mirrors_use {o : Object κ} (h : o.Regular) (call : Use) :
    Mirrors (fun r r' => r = (r'.1, r'.2.guard fault) ∧ Status.Ordinary r'.1 ∧ r'.2.Regular)
      ((o.guard fault).use call) (o.use call) := by
  cases o with
  | buffer b =>
    cases call with
    | readData src =>
      have hread : ∀ e, b.readData src = .error e → e.Ordinary := by
        intro e he
        unfold Buffer.readData at he
        split_ifs at he
        cases he
        trivial
      simp only [guard, use]
      cases hb : b.readData src with
      | error e => exact (Alike.buffer b).answer (.error (hread e hb))
      | ok b => exact (Alike.buffer b).answer .ok
    | _ => exact .pure ⟨rfl, .ok, h⟩
  | hash v c =>
    cases call with
    | hash call =>
      apply ((Sha2.mirrors_guarded fault v).call ⟨rfl, h.1, h.2⟩ call).bind
      rintro ⟨_, d⟩ ⟨answer, d'⟩ ⟨rfl, hok, hd⟩
      exact (Alike.hash hd).answer hok
    | _ => exact .pure ⟨rfl, .ok, h⟩
  | mac name v c =>
    cases call with
    | mac call =>
      apply ((Hmac.mirrors_guarded_sha2 fault name v).call ⟨rfl, h.1, h.2⟩ call).bind
      rintro ⟨_, d⟩ ⟨answer, d'⟩ ⟨rfl, hok, hd⟩
      exact (Alike.mac hd).answer hok
    | _ => exact .pure ⟨rfl, .ok, h⟩
  | block m c =>
    cases call with
    | block call =>
      apply ((Cbc.mirrors_guarded fault m).call ⟨rfl, h.1, h.2⟩ call).bind
      rintro ⟨_, d⟩ ⟨answer, d'⟩ ⟨rfl, hok, hd⟩
      exact (Alike.block hd).answer hok
    | _ => exact .pure ⟨rfl, .ok, h⟩
  | stream m c =>
    cases call with
    | stream call =>
      apply ((Ctr.mirrors_guarded fault m).call ⟨rfl, h.1, h.2⟩ call).bind
      rintro ⟨_, d⟩ ⟨answer, d'⟩ ⟨rfl, hok, hd⟩
      exact (Alike.stream hd).answer hok
    | _ => exact .pure ⟨rfl, .ok, h⟩

end Object

/-- Some step of a caller, with the answers of both sides and what the caller owns after it. -/
theorem perform_mirrors (fault : CryptoError) (multiply : X25519.Multiplication) {pool : List (Object κ)}
    (h : ∀ o ∈ pool, o.Regular) (operation : Operation) :
    Mirrors (fun r r' => r = (r'.1, r'.2.map (Object.guard fault)) ∧ Status.Ordinary r'.1 ∧
        ∀ o ∈ r'.2, o.Regular)
      (performGuarded fault multiply (pool.map (Object.guard fault)) operation)
      (perform multiply pool operation) := by
  cases operation with
  | make maker =>
    apply (maker.mirrors fault).run_bind
    · intro e he
      exact .pure ⟨rfl, .error he, h⟩
    · rintro _ o ⟨rfl, ho⟩
      exact .pure ⟨rfl, .ok, List.forall_mem_cons.mpr ⟨ho, h⟩⟩
  | ask query =>
    apply (query.mirrors fault multiply).run_bind
    · intro e he
      exact .pure ⟨rfl, .error he, h⟩
    · intro _ _ _
      exact .pure ⟨rfl, .ok, h⟩
  | use i call =>
    simp only [performGuarded, perform, List.getElem?_map]
    cases hi : pool[i]? with
    | none => exact .pure ⟨rfl, .ok, h⟩
    | some o =>
      apply (Object.mirrors_use (h o (List.mem_of_getElem? hi)) call).bind
      rintro _ ⟨status, o'⟩ ⟨rfl, hok, ho'⟩
      refine .pure ⟨congrArg (Prod.mk status) List.map_set.symm, hok, fun x hx => ?_⟩
      rcases List.mem_or_eq_of_mem_set hx with hx | rfl
      · exact h x hx
      · exact ho'
  | drop i =>
    simp only [performGuarded, perform, List.getElem?_map]
    cases hi : pool[i]? with
    | none => exact .pure ⟨rfl, .ok, h⟩
    | some o =>
      apply (Object.mirrors_release (h o (List.mem_of_getElem? hi))).bind
      intro _ _ _
      exact .pure ⟨congrArg (Prod.mk _) (List.eraseIdx_map ..), .ok, fun x hx =>
        h x (List.mem_of_mem_eraseIdx hx)⟩

/-- A whole run of a caller, by one step after the other. -/
theorem run_mirrors (fault : CryptoError) (multiply : X25519.Multiplication) (operations : List Operation)
    {pool : List (Object κ)} (h : ∀ o ∈ pool, o.Regular) :
    Mirrors (fun r r' => r = (r'.1, r'.2.map (Object.guard fault)) ∧
        (∀ status ∈ r'.1, Status.Ordinary status) ∧ ∀ o ∈ r'.2, o.Regular)
      (Session.run (performGuarded fault multiply) (pool.map (Object.guard fault)) operations)
      (Session.run (perform multiply) pool operations) := by
  induction operations generalizing pool with
  | nil => exact .pure ⟨rfl, nofun, h⟩
  | cons operation operations ih =>
    apply (perform_mirrors fault multiply h operation).bind
    rintro _ ⟨status, pool⟩ ⟨rfl, hok, hpool⟩
    apply (ih hpool).bind
    rintro _ ⟨statuses, pool⟩ ⟨rfl, hall, hpool⟩
    exact .pure ⟨rfl, List.forall_mem_cons.mpr ⟨hok, hall⟩, hpool⟩

/-- No access is ever out of range. A session in which such an access ends in `fault` goes as it does without,
whatever the fault is: the same answers, the same machine, the same objects. These are in states in which no
access fails, and no answer is that of a branch that guards against what should not come about. Keys have all
of their round keys, derivations have a place for every number also over codes that are not of the library,
and no resolver meets a record for another interface. -/
theorem session_never_faults (fault : CryptoError) (multiply : X25519.Multiplication)
    (operations : List Operation) (μ : Machine κ) :
    let r := (Session.run (perform multiply) [] operations).runFrom μ
    (Session.run (performGuarded fault multiply) [] operations).runFrom μ =
      ((r.1.1, r.1.2.map (Object.guard fault)), r.2) ∧
    (∀ o ∈ r.1.2, o.InRange) ∧
    (∀ status ∈ r.1.1, Status.Ordinary status) ∧
    (∀ (key : Bytes) (m : RoundMultiplier) (ν : Machine κ) (k : AesKey),
      ((AesKey.encryption key m).runFrom ν).1 = .ok k ∨ ((AesKey.decryption key m).runFrom ν).1 = .ok k →
      k.Whole ∧ ∀ round ≤ k.rounds, k.roundKey? round = some (k.roundKey round)) ∧
    (∀ (σ : Type) (prf : Mac.Algorithm κ σ), Pbkdf2.Fills prf → ∀ key password salt rounds,
      Pbkdf2.deriveGuarded fault prf key password salt rounds = Pbkdf2.derive prf key password salt rounds) ∧
    Registry.Resolvers := by
  have hnone : ∀ o ∈ ([] : List (Object κ)), o.Regular := nofun
  obtain ⟨hmachine, hresult, hordinary, hregular⟩ := run_mirrors fault multiply operations hnone μ
  refine ⟨Prod.ext hresult hmachine, fun o ho => (hregular o ho).inRange, hordinary, ?_, ?_,
    Registry.resolvers⟩
  · intro key m ν k hmade
    have hk := AesKey.whole_of_made hmade
    exact ⟨hk, fun round => hk.roundKey?_eq⟩
  · intro σ prf hprf key password salt rounds
    exact Pbkdf2.deriveGuarded_eq hprf fault key password salt rounds

def steadyOperations : List Operation :=
  [.make (.hashContext .sha384), .use 0 (.hash (.digest (Bytes.zeros 130))),
    .make (.streamContext .fips (Bytes.zeros 32)),
    .use 0 (.stream (.continueEncryption (Bytes.zeros 8) 40))]

def steadySession : (List Status × List (Object Unit)) × Machine Unit :=
  (Session.run (perform X25519.multiply) [] steadyOperations).runFrom Machine.system

/-- A block is compressed, and a key expanded and used, with every access checked. -/
theorem session_never_faults_steady :
    steadySession.1.1 = [.ok (), .ok (), .ok (), .ok ()] ∧
      ((Session.run (performGuarded (.failure .suite (.other "access")) X25519.multiply) []
        steadyOperations).runFrom Machine.system).1.1 = [.ok (), .ok (), .ok (), .ok ()] := by
  have hplain : steadySession.1.1 = [.ok (), .ok (), .ok (), .ok ()] := by decide +kernel
  obtain ⟨hrun, -⟩ := session_never_faults (.failure .suite (.other "access")) X25519.multiply
    steadyOperations Machine.system
  rw [← steadySession] at hrun
  -- From here on only the theorem speaks of what the session reached.
  generalize steadySession = r at *
  rw [hrun]
  exact ⟨hplain, hplain⟩

end CryptoSuite.Custody
