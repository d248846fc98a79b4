import CryptoSuite.Proofs.Ctr.RoundTrip
import CryptoSuite.Proofs.Hmac.Verification
import CryptoSuite.Proofs.Suite.Building

/-! Two parties who each build a suite, agree on a key, and protect a message under it. The sender's tag
covers the vector and the ciphertext, and the receiver checks it before there is a stream. -/
namespace CryptoSuite

open Fallible

namespace Ctr

open StreamCipher (Cursor Call Context)

variable {κ : Type} {m : RoundMultiplier} {key iv : Bytes}

/-- New contexts, with what they stand for. -/
theorem draws_at (m : RoundMultiplier) (hl : key.length = 32) :
    Draws (demands .stream (stateSizes m)) ((algorithm m).init key : Attempt κ _)
      (ContextAt m key none) :=
  (draws_init m hl).of_answers fun _ _ _ _ h => of_runFrom_init h

namespace ContextAt

variable {place : Option Place} {c : Context κ State}

theorem quiet_release (h : ContextAt m key place c) : c.release.Quiet fun _ => True := by
  rw [Context.release, h.1]
  apply c.state.key.schedule.quiet_release.bind
  intro _ _
  exact c.state.blocks.quiet_release

theorem quiet_startEncryption (h : ContextAt m key place c) (hiv : iv.length = nonceSize)
    {out : Cursor} (hout : nonceSize ≤ out.output.length) :
    (c.call (.startEncryption iv out)).Quiet fun r =>
      r.1 = ⟨.ok (), ⟨out.output.overwrite 0 iv, nonceSize⟩⟩ ∧
        ContextAt m key (some ⟨iv, 0, 0⟩) r.2 := by
  apply Action.Quiet.of_runFrom
  intro μ
  obtain ⟨d, hd, hat⟩ := h.runFrom_call (.startEncryption iv out) μ
  simp only [Ideal.respond, Nat.not_lt.mpr hout, hiv, ↓reduceIte, follow] at hd hat
  exact ⟨_, hd, rfl, hat⟩

theorem quiet_startDecryption (h : ContextAt m key place c) (hiv : iv.length = nonceSize)
    (body : Bytes) (offset : Nat) :
    (c.call (.startDecryption (iv ++ body) offset)).Quiet fun r =>
      r.1 = ⟨.ok (), ⟨[], nonceSize⟩⟩ ∧ ContextAt m key (some ⟨iv, 0, 0⟩) r.2 := by
  have hroom : ¬(iv ++ body).length < nonceSize := by simp [hiv]
  have hnonce : (iv ++ body).take nonceSize = iv := List.take_left' hiv
  apply Action.Quiet.of_runFrom
  intro μ
  obtain ⟨d, hd, hat⟩ := h.runFrom_call (.startDecryption (iv ++ body) offset) μ
  simp only [Ideal.respond, hroom, ↓reduceIte, follow, hnonce] at hd hat
  exact ⟨_, hd, rfl, hat⟩

theorem quiet_process {p : Place} (h : ContextAt m key (some p) c) {input : Bytes} {out : Cursor}
    {call : Call} (hcall : call.Processes input out)
    (hfit : out.offset + input.length ≤ out.output.length) :
    (c.call call).Quiet fun r =>
      r.1 = ⟨.ok (), ⟨out.output.overwrite out.offset (mask m key p.nonce p.position input),
        out.offset + input.length⟩⟩ ∧
      ContextAt m key (some { p with processed := p.processed + input.length }) r.2 := by
  apply Action.Quiet.of_runFrom
  intro μ
  obtain ⟨d, hd, hat⟩ := h.runFrom_process hcall hfit μ
  exact ⟨_, hd, rfl, hat⟩

end ContextAt

end Ctr

/-- What is sent: a vector with the ciphertext behind it, and a tag of both. -/
structure Packet where
  sealed : Bytes
  tag : Bytes
  deriving DecidableEq, Repr

namespace Suite

section Parties

variable {κ : Type} (s : Suite) (multiply : X25519.Multiplication)

/-- The key of a session, in a buffer of the size that the suite has for it. -/
def sessionKey (privateKey publicKey nonceA nonceB : Bytes) : Attempt κ Buffer := do
  let room ← s.buffer .cipherSharedSecret
  let key ← Fallible.releasing room.release (Attempt.checked
    ((s.cipherAgreement.algorithm multiply).shortTermSecret privateKey publicKey nonceA nonceB
      room.bytes))
  pure (room.setBytes key)

def encryptMessage (key iv message : Bytes) : Attempt κ Bytes := do
  let c ← s.streamInit key
  let room := Bytes.zeros ((s.stream.algorithm (κ := κ)).ivSize + message.length)
  let (begun, c) ← Fallible.perform (c.call (.startEncryption iv ⟨room, 0⟩))
  Fallible.releasing c.release (Attempt.require begun.status)
  let (done, c) ← Fallible.perform (c.call (.encrypt message begun.out))
  Fallible.perform c.release
  Attempt.require done.status
  pure done.out.output

def decryptMessage (key sealed : Bytes) : Attempt κ Bytes := do
  let c ← s.streamInit key
  let (begun, c) ← Fallible.perform (c.call (.startDecryption sealed 0))
  Fallible.releasing c.release (Attempt.require begun.status)
  let body := sealed.drop begun.out.offset
  let (done, c) ← Fallible.perform (c.call (.decrypt body ⟨Bytes.zeros body.length, 0⟩))
  Fallible.perform c.release
  Attempt.require done.status
  pure done.out.output

def protect (key iv message : Bytes) : Attempt κ Packet := do
  let sealed ← s.encryptMessage key iv message
  let code ← s.macShort.algorithm.compute key sealed
  Fallible.perform code.release
  pure ⟨sealed, code.bytes⟩

def unprotect (key : Bytes) (p : Packet) : Attempt κ Bytes := do
  s.macShort.algorithm.verify key p.sealed p.tag
  s.decryptMessage key p.sealed

/-- Works under the key of a session. The buffer of the key is given back in the end. -/
def underKey {α : Type} (privateKey publicKey nonceA nonceB : Bytes) (work : Bytes → Attempt κ α) :
    Attempt κ α := do
  let key ← s.sessionKey multiply privateKey publicKey nonceA nonceB
  let a ← Fallible.releasing key.release (work key.bytes)
  Fallible.perform key.release
  pure a

/-- The initiator's side of a session. -/
def sendProtected (privateKey publicKey nonceA nonceB iv message : Bytes) : Attempt κ Packet :=
  s.underKey multiply privateKey publicKey nonceA nonceB fun key => s.protect key iv message

/-- The responder's side of it. -/
def receiveProtected (privateKey publicKey nonceA nonceB : Bytes) (p : Packet) : Attempt κ Bytes :=
  s.underKey multiply privateKey publicKey nonceA nonceB fun key => s.unprotect key p

end Parties

def keyRequests : List (Demand CryptoError) :=
  demands .buffer [32] ++ demands .keyAgreement (Curve25519.shortTermSizes .sha512_256)

/-- What a code under an agreed key needs. Such a key is not hashed. -/
def codeSizes : List Nat := [256, 64, 192, 192]

def sendingRequests (c : Config) : List (Demand CryptoError) :=
  keyRequests ++ (demands .stream (Ctr.stateSizes c.stream) ++
    (demands .mac codeSizes ++ demands .buffer [32]))

def receivingRequests (c : Config) : List (Demand CryptoError) :=
  keyRequests ++ (demands .mac codeSizes ++ demands .stream (Ctr.stateSizes c.stream))

variable {κ : Type} {c : Config} {multiply : X25519.Multiplication}
variable {privateKey publicKey nonceA nonceB shared key iv message tag : Bytes}

theorem draws_sessionKey (c : Config)
    (h : Curve25519.sharedCoordinate multiply privateKey publicKey = .ok shared)
    (hl : shared.length < 2 ^ 64) (hA : nonceA.length = 32) (hB : nonceB.length = 32) :
    Draws keyRequests
      ((standard c).sessionKey multiply privateKey publicKey nonceA nonceB : Attempt κ Buffer)
      fun b => b.bytes = Hmac.Standard.code .sha512_256 (Sha2.Standard.digest .sha512_256 shared)
        (nonceA ++ nonceB) := by
  have hroom : Draws (demands .buffer [32])
      ((standard c).buffer .cipherSharedSecret : Attempt κ Buffer) fun b => b.bytes.length = 32 :=
    Buffer.draws_new (by decide)
  apply hroom.bind rfl
  intro room hlength
  have hfits := (Curve25519.nonceArguments_fit (v := .sha512_256)).mpr ⟨hlength, hA, hB⟩
  have hsecret := (Curve25519.draws_shortTermSecret (κ := κ) hA hB hlength h).of_answers
    fun μ ν secret hmemory hrun => by
      rw [map_size_demands] at hmemory
      have hcode := Curve25519.runFrom_shortTermSecret_ok hfits h hl hmemory
      rw [Attempt.runFrom_checked, hcode] at hrun
      exact (Except.ok.inj (congrArg Prod.fst hrun)).symm
  apply (hsecret.releasing room.quiet_release).bind (List.append_nil _).symm
  intro secret hsecret
  exact Draws.pure hsecret

theorem draws_encryptMessage (c : Config) (hkey : key.length = 32) (hiv : iv.length = 8)
    (message : Bytes) :
    Draws (demands .stream (Ctr.stateSizes c.stream))
      ((standard c).encryptMessage key iv message : Attempt κ Bytes)
      fun sealed => sealed = iv ++ Ctr.mask c.stream key iv 0 message := by
  have hroom : (Bytes.zeros (8 + message.length)).length = 8 + message.length := Bytes.length_zeros _
  apply (Ctr.draws_at c.stream hkey).bind (List.append_nil _).symm
  intro d hd
  have hfits : Ctr.nonceSize ≤ (Bytes.zeros (8 + message.length)).length := by
    rw [hroom]
    exact Nat.le_add_right 8 _
  apply (Draws.perform (hd.quiet_startEncryption hiv hfits)).seq
  rintro ⟨_, e⟩ ⟨rfl, he⟩
  apply ((Attempt.draws_require rfl).releasing he.quiet_release).seq
  intro _ _
  have hlength : ((Bytes.zeros (8 + message.length)).overwrite 0 iv).length = 8 + message.length := by
    rw [Bytes.length_overwrite (by omega), hroom]
  apply (Draws.perform (he.quiet_process (.inl rfl) hlength.ge)).seq
  rintro ⟨_, f⟩ ⟨rfl, hf⟩
  apply (Draws.perform hf.quiet_release).seq
  intro _ _
  apply (Attempt.draws_require rfl).seq
  intro _ _
  refine Draws.pure ?_
  -- The ciphertext fills the room behind the vector.
  show ((Bytes.zeros (8 + message.length)).overwrite 0 iv).overwrite 8
    (Ctr.mask c.stream key iv 0 message) = iv ++ Ctr.mask c.stream key iv 0 message
  rw [Bytes.overwrite_overwrite (Nat.zero_le _) (by omega), Bytes.overwrite_zero,
    List.drop_eq_nil_of_le (by simp [hiv]), List.append_nil]

theorem draws_decryptMessage (c : Config) (hkey : key.length = 32) (hiv : iv.length = 8)
    (message : Bytes) :
    Draws (demands .stream (Ctr.stateSizes c.stream))
      ((standard c).decryptMessage key (iv ++ Ctr.mask c.stream key iv 0 message) : Attempt κ Bytes)
      fun opened => opened = message := by
  apply (Ctr.draws_at c.stream hkey).bind (List.append_nil _).symm
  intro d hd
  apply (Draws.perform (hd.quiet_startDecryption hiv _ 0)).seq
  rintro ⟨_, e⟩ ⟨rfl, he⟩
  apply ((Attempt.draws_require rfl).releasing he.quiet_release).seq
  intro _ _
  have hbody : (iv ++ Ctr.mask c.stream key iv 0 message).drop Ctr.nonceSize =
      Ctr.mask c.stream key iv 0 message := List.drop_left' hiv
  dsimp only
  rw [hbody]
  apply (Draws.perform (he.quiet_process (.inr rfl) (by simp))).seq
  rintro ⟨_, f⟩ ⟨rfl, hf⟩
  apply (Draws.perform hf.quiet_release).seq
  intro _ _
  apply (Attempt.draws_require rfl).seq
  intro _ _
  refine Draws.pure ?_
  show (Bytes.zeros _).overwrite 0 (Ctr.mask c.stream key iv 0 _) = message
  rw [Ctr.mask_mask, Bytes.overwrite_zero, List.drop_eq_nil_of_le (by simp), List.append_nil]

/-- The packet of a message under a key. -/
def packetOf (c : Config) (key iv message : Bytes) : Packet where
  sealed := iv ++ Ctr.mask c.stream key iv 0 message
  tag := Hmac.Standard.code .sha512_256 key (iv ++ Ctr.mask c.stream key iv 0 message)

theorem length_sealed (c : Config) (key iv message : Bytes) :
    (packetOf c key iv message).sealed.length = iv.length + message.length := by
  rw [packetOf, List.length_append, Ctr.length_mask]

theorem draws_protect (c : Config) (hkey : key.length = 32) (hiv : iv.length = 8)
    (hl : 8 + message.length < 2 ^ 64) :
    Draws (demands .stream (Ctr.stateSizes c.stream) ++
        (demands .mac codeSizes ++ demands .buffer [32]))
      ((standard c).protect key iv message : Attempt κ Packet) fun p => p = packetOf c key iv message := by
  have hsliced : (packetOf c key iv message).sealed.length < 2 ^ 64 := by rwa [length_sealed, hiv]
  have hcode := Hmac.draws_code (κ := κ) "HMAC-SHA-512/256" .sha512_256
    (show key.length < 2 ^ 64 by omega) hsliced
  rw [Hmac.stateSizes_of_le (by omega)] at hcode
  apply (draws_encryptMessage c hkey hiv message).bind rfl
  rintro _ rfl
  apply hcode.bind (List.append_nil _).symm
  intro code hcode
  apply (Draws.perform code.quiet_release).seq
  intro _ _
  exact Draws.pure (congrArg (Packet.mk _) hcode)

/-- A tag that was cut still protects the packet, unless it was cut to nothing. -/
theorem draws_unprotect (c : Config) (hkey : key.length = 32) (hiv : iv.length = 8)
    (hl : 8 + message.length < 2 ^ 64) {n : Nat} (hpos : 1 ≤ n) (hn : n ≤ 32) :
    Draws (demands .mac codeSizes ++ demands .stream (Ctr.stateSizes c.stream))
      ((standard c).unprotect key { packetOf c key iv message with
        tag := (packetOf c key iv message).tag.take n } : Attempt κ Bytes)
      fun opened => opened = message := by
  have hsliced : (packetOf c key iv message).sealed.length < 2 ^ 64 := by rwa [length_sealed, hiv]
  have htag : ((packetOf c key iv message).tag.take n).length = n :=
    List.length_take_of_le (hn.trans (Hmac.Standard.length_code .sha512_256 key _).ge)
  have hverify := Hmac.draws_verify (κ := κ) "HMAC-SHA-512/256" .sha512_256
    (show key.length < 2 ^ 64 by omega) hsliced (htag.symm ▸ hpos) (htag.symm ▸ hn) (by rw [htag]; rfl)
  rw [Hmac.stateSizes_of_le (by omega)] at hverify
  apply hverify.bind rfl
  intro _ _
  exact draws_decryptMessage c hkey hiv message

/-- The key that both parties come to, given the coordinate that they share. -/
def agreedKey (shared nonceA nonceB : Bytes) : Bytes :=
  Hmac.Standard.code .sha512_256 (Sha2.Standard.digest .sha512_256 shared) (nonceA ++ nonceB)

theorem draws_underKey {α : Type} {plan : List (Demand CryptoError)} {Q : α → Prop}
    {work : Bytes → Attempt κ α} (c : Config)
    (h : Curve25519.sharedCoordinate multiply privateKey publicKey = .ok shared)
    (hl : shared.length < 2 ^ 64) (hA : nonceA.length = 32) (hB : nonceB.length = 32)
    (hwork : Draws plan (work (agreedKey shared nonceA nonceB)) Q) :
    Draws (keyRequests ++ plan)
      ((standard c).underKey multiply privateKey publicKey nonceA nonceB work) Q := by
  apply (draws_sessionKey c h hl hA hB).bind rfl
  intro key hkey
  rw [hkey]
  apply (hwork.releasing key.quiet_release).bind (List.append_nil _).symm
  intro a ha
  apply (Draws.perform key.quiet_release).seq
  intro _ _
  exact Draws.pure ha

theorem draws_sendProtected (c : Config)
    (h : Curve25519.sharedCoordinate multiply privateKey publicKey = .ok shared)
    (hs : shared.length < 2 ^ 64) (hA : nonceA.length = 32) (hB : nonceB.length = 32)
    (hiv : iv.length = 8) (hl : 8 + message.length < 2 ^ 64) :
    Draws (sendingRequests c)
      ((standard c).sendProtected multiply privateKey publicKey nonceA nonceB iv message :
        Attempt κ Packet)
      fun p => p = packetOf c (agreedKey shared nonceA nonceB) iv message := by
  apply draws_underKey c h hs hA hB
  exact draws_protect c (Hmac.Standard.length_code _ _ _) hiv hl

theorem draws_receiveProtected (c : Config)
    (h : Curve25519.sharedCoordinate multiply privateKey publicKey = .ok shared)
    (hs : shared.length < 2 ^ 64) (hA : nonceA.length = 32) (hB : nonceB.length = 32)
    (hiv : iv.length = 8) (hl : 8 + message.length < 2 ^ 64) {n : Nat} (hpos : 1 ≤ n) (hn : n ≤ 32) :
    Draws (receivingRequests c)
      ((standard c).receiveProtected multiply privateKey publicKey nonceA nonceB
        { packetOf c (agreedKey shared nonceA nonceB) iv message with
          tag := (packetOf c (agreedKey shared nonceA nonceB) iv message).tag.take n } :
        Attempt κ Bytes)
      fun opened => opened = message := by
  apply draws_underKey c h hs hA hB
  exact draws_unprotect c (Hmac.Standard.length_code _ _ _) hiv hl hpos hn

/-- Parties who build the suite of one configuration, each on a registry of its own, get every message
through. The initiator's packet is fixed by the keys, the nonces, the vector and the message, and the
responder opens it, also when the tag was cut on the way. Slices are shorter than the address space. -/
theorem protected_session_delivers {ι : Type} {c : Config} {t t' : Registry}
    {history history' : List Registration} (hc : c.suite = .veloV1)
    (ht : Registry.empty.Takes history t) (hclear : Unconflicted c history)
    (ht' : Registry.empty.Takes history' t') (hclear' : Unconflicted c history')
    (mocks mocks' : Mock.Tables) (h : X25519.Exchanges multiply) :
    ∃ (s s' : Suite) (u u' : Registry), ofConfig c t mocks = (.ok s, u, mocks) ∧
      ofConfig c t' mocks' = (.ok s', u', mocks') ∧
      ∀ a b nonceA nonceB iv message : Bytes, a.length = 32 → b.length = 32 →
        nonceA.length = 32 → nonceB.length = 32 → iv.length = 8 → 8 + message.length < 2 ^ 64 →
        (multiply a (Curve25519.publicKeyOf multiply b)).all (· == 0) = false →
        ∃ body tag : Bytes, body.length = message.length ∧ tag.length = 32 ∧
          (∀ μ : Machine κ, μ.Grants ((sendingRequests c).map Demand.size) → ∃ ν,
            (s.sendProtected multiply a (Curve25519.publicKeyOf multiply b) nonceA nonceB iv
              message).runFrom μ = (.ok ⟨iv ++ body, tag⟩, ν)) ∧
          ∀ n, 1 ≤ n → n ≤ 32 →
            ∀ μ : Machine ι, μ.Grants ((receivingRequests c).map Demand.size) → ∃ ν,
              (s'.receiveProtected multiply b (Curve25519.publicKeyOf multiply a) nonceA nonceB
                ⟨iv ++ body, tag.take n⟩).runFrom μ = (.ok message, ν) := by
  obtain ⟨u, hu⟩ := ofConfig_standard hc ht hclear mocks
  obtain ⟨u', hu'⟩ := ofConfig_standard hc ht' hclear' mocks'
  refine ⟨standard c, standard c, u, u', hu, hu', ?_⟩
  intro a b nonceA nonceB iv message ha hb hA hB hiv hl hcontributed
  have hpublic (k : Bytes) (hk : k.length = 32) : (Curve25519.publicKeyOf multiply k).length = 32 :=
    h.length_eq k X25519.basePoint hk rfl
  have hcomm : multiply b (Curve25519.publicKeyOf multiply a) =
      multiply a (Curve25519.publicKeyOf multiply b) := h.comm b a hb ha
  -- Both parties meet at one coordinate, and so under one key.
  have hshared {k peer : Bytes} (hk : k.length = 32) (hpeer : peer.length = 32)
      (hmeet : multiply k peer = multiply a (Curve25519.publicKeyOf multiply b)) :
      Curve25519.sharedCoordinate multiply k peer =
        .ok (multiply a (Curve25519.publicKeyOf multiply b)) := by
    rw [Curve25519.sharedCoordinate_fits (Curve25519.keys_fit.mpr ⟨hk, hpeer⟩), hmeet,
      Curve25519.contribution, hcontributed]
    rfl
  have hsliced : (multiply a (Curve25519.publicKeyOf multiply b)).length < 2 ^ 64 := by
    rw [h.length_eq a _ ha (hpublic b hb)]
    decide
  let key := agreedKey (multiply a (Curve25519.publicKeyOf multiply b)) nonceA nonceB
  refine ⟨Ctr.mask c.stream key iv 0 message, (packetOf c key iv message).tag, Ctr.length_mask message,
    Hmac.Standard.length_code .sha512_256 key _, ?_, ?_⟩
  · intro μ hmemory
    have hfirst := hshared ha (hpublic b hb) rfl
    obtain ⟨_, ν, hrun, rfl⟩ := (draws_sendProtected c hfirst hsliced hA hB hiv hl).succeeds hmemory
    exact ⟨ν, hrun⟩
  · intro n hpos hn μ hmemory
    have hsecond := hshared hb (hpublic a ha) hcomm
    obtain ⟨_, ν, hrun, rfl⟩ :=
      (draws_receiveProtected c hsecond hsliced hA hB hiv hl hpos hn).succeeds hmemory
    exact ⟨ν, hrun⟩

/-- The holders of the sample keys, one on a new registry and one on a registry in use, with ten bytes left
of the tag. -/
theorem protected_session_delivers_sample :
    let c : Config := ⟨.veloV1, .double, .triple⟩
    let used := (Registry.empty.register (BuiltIn.aesCtr .quadruple)).register (BuiltIn.aesCtr .triple)
    let nonceA := List.replicate 32 1
    let nonceB := List.replicate 32 2
    let message := List.replicate 40 7
    ∃ (s s' : Suite) (u u' : Registry) (sealed tag : Bytes) (ν ν' : Machine Unit),
      ofConfig c .empty .empty = (.ok s, u, .empty) ∧ ofConfig c used .empty = (.ok s', u', .empty) ∧
      (s.sendProtected X25519.sampled X25519.sampleA
        (Curve25519.publicKeyOf X25519.sampled X25519.sampleB) nonceA nonceB
        [1, 2, 3, 4, 5, 6, 7, 8] message).runFrom Machine.system = (.ok ⟨sealed, tag⟩, ν) ∧
      sealed.length = 48 ∧ tag.length = 32 ∧
      (s'.receiveProtected X25519.sampled X25519.sampleB
        (Curve25519.publicKeyOf X25519.sampled X25519.sampleA) nonceA nonceB
        ⟨sealed, tag.take 10⟩).runFrom Machine.system = (.ok message, ν') := by
  intro c used nonceA nonceB message
  have htaken : Registry.empty.Takes [BuiltIn.aesCtr .quadruple, BuiltIn.aesCtr .triple] used :=
    .register _ (.register _ .start)
  have hclear : Unconflicted c [BuiltIn.aesCtr .quadruple, BuiltIn.aesCtr .triple] := by
    intro slot
    cases slot <;> decide
  obtain ⟨s, s', u, u', hs, hs', hsession⟩ := protected_session_delivers (κ := Unit) (ι := Unit)
    (c := c) rfl .start nofun htaken hclear .empty .empty X25519.sampled_exchanges
  obtain ⟨body, tag, hbody, htag, hsend, hreceive⟩ := hsession X25519.sampleA X25519.sampleB nonceA nonceB
    [1, 2, 3, 4, 5, 6, 7, 8] message rfl rfl rfl rfl rfl (by decide) (by decide +kernel)
  obtain ⟨ν, hν⟩ := hsend Machine.system (Machine.system_grants (by decide))
  obtain ⟨ν', hν'⟩ := hreceive 10 (by decide) (by decide) Machine.system (Machine.system_grants (by decide))
  refine ⟨s, s', u, u', _, tag, ν, ν', hs, hs', hν, ?_, htag, hν'⟩
  rw [List.length_append, hbody]
  rfl

end Suite

end CryptoSuite
