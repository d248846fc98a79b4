import CryptoSuite.Proofs.Bytes.Access
import CryptoSuite.Proofs.KeyDerivation.Filling
import CryptoSuite.Proofs.Mac.Mirror

/-! The accesses of a derivation to its salt, to its two codes and to the number of the chunk. There are fewer
than 2^32 chunks, so that no number is too large for its four bytes. -/
namespace CryptoSuite

namespace Pbkdf2

variable {κ σ α β : Type}

/-- The salt in front of four bytes for the number of a chunk. -/
def salted? (salt : Bytes) : Option Bytes := (Bytes.zeros (salt.length + 4)).fill? 0 salt.length salt

/-- The number after `counter`, if it has four bytes. -/
def nextNumber? (counter : Nat) : Option Nat :=
  if counter + 1 < 1 <<< 32 then some (counter + 1) else none

/-- Begins the sum with the last code, which has to be of its length. -/
def copyLast (fault : CryptoError) : Step κ σ Unit := ExceptT.mk fun c =>
  if c.last.size = c.sum.size then pure (.ok (), { c with sum := c.sum.setBytes c.last.bytes })
  else pure (.error fault, c)

def chunkGuarded (fault : CryptoError) (prf : Mac.Algorithm κ σ) (seed : Bytes) (rounds : Nat) :
    Step κ σ Bytes := do
  absorb prf seed
  squeeze prf
  copyLast fault
  iterate prf (rounds - 1)
  pure (← get).sum.bytes

/-- The chunks after chunk number `counter`, with `fault` in place of a number or of a slice that is not
there. -/
def chunksGuarded (fault : CryptoError) (prf : Mac.Algorithm κ σ) (salt : Bytes) (rounds : Nat) :
    Nat → Nat → Bytes → Step κ σ Bytes
  | 0, _, _ => pure []
  | count + 1, counter, salted => do
    let number ← Attempt.obtain fault (nextNumber? counter)
    let salted ← Attempt.obtain fault
      (salted.fill? salt.length salted.length (Bytes.ofUInt32 (UInt32.ofNat number)))
    let first ← chunkGuarded fault prf salted rounds
    let rest ← chunksGuarded fault prf salt rounds count number salted
    pure (first ++ rest)

def deriveBytesGuarded (fault : CryptoError) (prf : Mac.Algorithm κ σ) (length : Nat) (password salt : Bytes)
    (rounds : Nat) : Attempt κ Bytes := do
  Attempt.require (check prf.macSize length salt rounds)
  let mac ← prf.create password
  let salted ← Fallible.releasing (prf.release mac) (Attempt.obtain fault (salted? salt))
  let last ← Fallible.releasing (prf.release mac) (Buffer.newFor .keyDerivation prf.macSize)
  let sum ← Fallible.releasing (do last.release; prf.release mac)
    (Buffer.newFor .keyDerivation prf.macSize)
  let (outcome, c) ← Fallible.perform
    ((chunksGuarded fault prf salt rounds (chunkCount length prf.macSize) 0 salted).run ⟨mac, last, sum⟩)
  Fallible.perform do
    c.sum.release
    c.last.release
    prf.release c.mac
  let made ← ExceptT.mk (pure outcome)
  pure (made.take length)

def deriveGuarded (fault : CryptoError) (prf : Mac.Algorithm κ σ) (key password salt : Bytes) (rounds : Nat) :
    Action κ (Status × Bytes) := do
  match ← (deriveBytesGuarded fault prf key.length password salt rounds).run with
  | .ok made => pure (.ok (), made)
  | .error e => pure (.error e, Bytes.zeros key.length)

variable {E : CryptoError → Prop} {a b : Mac.Algorithm κ σ} {Sound : σ → Prop}

/-- Begun on one sound chain, two steps end alike and leave one sound chain behind. -/
def Step.Mirrors (E : CryptoError → Prop) (b : Mac.Algorithm κ σ) (Sound : σ → Prop) (Q : α → Prop)
    (x y : Step κ σ α) : Prop :=
  ∀ c : Chain σ, c.Sound b Sound → Action.Mirrors (fun r r' => r = r' ∧ r'.2.Sound b Sound ∧
    (∀ e, r'.1 = .error e → E e) ∧ ∀ a, r'.1 = .ok a → Q a) (x.on c) (y.on c)

namespace Step.Mirrors

variable {Q : α → Prop} {R : β → Prop} {x y : Step κ σ α} {f g : α → Step κ σ β}

theorem pure {a : α} (h : Q a) : Mirrors E b Sound Q (pure a : Step κ σ α) (pure a) := by
  intro c hc
  refine .pure ⟨rfl, hc, nofun, ?_⟩
  rintro _ ⟨⟩
  exact h

theorem bind (hx : Mirrors E b Sound Q x y) (hf : ∀ a, Q a → Mirrors E b Sound R (f a) (g a)) :
    Mirrors E b Sound R (x >>= f) (y >>= g) := by
  intro c hc
  rw [on_bind, on_bind]
  apply (hx c hc).bind
  rintro ⟨outcome, d⟩ _ ⟨rfl, hd, herror, hok⟩
  cases outcome with
  | error e =>
    refine .pure ⟨rfl, hd, ?_, nofun⟩
    rintro _ ⟨⟩
    exact herror e rfl
  | ok a => exact hf a (hok a rfl) d hd

/-- What reads the chain or writes its sum goes as it did. -/
theorem get : Mirrors E b Sound (fun c => c.Sound b Sound) (get : Step κ σ (Chain σ)) get := by
  intro c hc
  refine .pure ⟨rfl, hc, nofun, ?_⟩
  rintro _ ⟨⟩
  exact hc

theorem modifySum {f : Chain σ → Bytes} (hf : ∀ c : Chain σ, c.Sound b Sound → (f c).length = b.macSize) :
    Mirrors E b Sound (fun _ => True) (modifySum f : Step κ σ Unit) (modifySum f) := fun c hc =>
  .pure ⟨rfl, ⟨hc.mac, hc.last_size, hf c hc⟩, nofun, fun _ _ => trivial⟩

theorem copyLast (fault : CryptoError) : Mirrors E b Sound (fun _ => True) (copyLast fault : Step κ σ Unit)
    (Pbkdf2.modifySum fun c => c.last.bytes) := by
  intro c hc
  have hsize : c.last.size = c.sum.size := hc.last_size.trans hc.sum_size.symm
  have hcopy : (Pbkdf2.copyLast fault : Step κ σ Unit).on c =
      (Pbkdf2.modifySum fun c => c.last.bytes : Step κ σ Unit).on c := if_pos hsize
  rw [hcopy]
  exact modifySum (fun c hc => hc.last_size) c hc

variable (h : a.Mirrors E b Sound)

include h

theorem absorb (data : Bytes) : Mirrors E b Sound (fun _ => True) (absorb a data) (absorb b data) := by
  intro c hc
  apply (h.update c.mac data hc.mac).bind
  rintro ⟨status, mac⟩ _ ⟨rfl, hok, hmac⟩
  exact .pure ⟨rfl, ⟨hmac, hc.last_size, hc.sum_size⟩, hok, fun _ _ => trivial⟩

theorem squeeze : Mirrors E b Sound (fun _ => True) (squeeze a) (squeeze b) := by
  intro c hc
  apply (h.finalize c.mac c.last.bytes hc.mac).bind
  rintro ⟨status, code, mac⟩ _ ⟨rfl, hok, hl, hmac⟩
  exact .pure ⟨rfl, ⟨hmac, hl.trans hc.last_size, hc.sum_size⟩, hok, fun _ _ => trivial⟩

theorem iterate (count : Nat) :
    Mirrors E b Sound (fun _ => True) (iterate a count) (Pbkdf2.iterate b count) := by
  induction count with
  | zero => exact .pure trivial
  | succ count ih =>
    apply Mirrors.get.bind
    intro c _
    apply (absorb h c.last.bytes).bind
    intro _ _
    apply (squeeze h).bind
    intro _ _
    have hsum : Mirrors E b Sound (fun _ => True)
        (Pbkdf2.modifySum fun c => c.sum.bytes.xor c.last.bytes : Step κ σ Unit)
        (Pbkdf2.modifySum fun c => c.sum.bytes.xor c.last.bytes) := by
      apply modifySum
      intro c hc
      rw [Bytes.length_xor]
      exact (congrArg₂ min hc.sum_size hc.last_size).trans (Nat.min_self _)
    apply hsum.bind
    intro _ _
    exact ih

theorem chunk (fault : CryptoError) (seed : Bytes) (rounds : Nat) :
    Mirrors E b Sound (fun _ => True) (chunkGuarded fault a seed rounds) (chunk b seed rounds) := by
  apply (absorb h seed).bind
  intro _ _
  apply (squeeze h).bind
  intro _ _
  apply (copyLast fault).bind
  intro _ _
  apply (iterate h (rounds - 1)).bind
  intro _ _
  apply Mirrors.get.bind
  intro _ _
  exact .pure trivial

/-- The number of the last chunk has four bytes, and with it all numbers before. -/
theorem chunks (fault : CryptoError) (salt : Bytes) (rounds : Nat) {count counter : Nat} (tail : Bytes)
    (hcount : counter + count < 1 <<< 32) (htail : tail.length = 4) :
    Mirrors E b Sound (fun _ => True) (chunksGuarded fault a salt rounds count counter (salt ++ tail))
      (chunks b salt rounds count counter) := by
  induction count generalizing counter tail with
  | zero => exact .pure trivial
  | succ count ih =>
    have hnumber : nextNumber? counter = some (counter + 1) := if_pos (by omega)
    have hfill : (salt ++ tail).fill? salt.length (salt ++ tail).length
        (Bytes.ofUInt32 (UInt32.ofNat (counter + 1))) =
          some (salt ++ Bytes.ofUInt32 (UInt32.ofNat (counter + 1))) := by
      have hroom := Bytes.fill?_append salt tail (Bytes.length_ofUInt32 (UInt32.ofNat (counter + 1))) htail.ge
      rw [List.drop_of_length_le htail.le, List.append_nil] at hroom
      rw [List.length_append, htail, hroom]
    unfold chunksGuarded Pbkdf2.chunks
    rw [if_neg (by omega), hnumber, Attempt.obtain, pure_bind, hfill, Attempt.obtain, pure_bind]
    apply (chunk h fault _ rounds).bind
    intro first _
    apply (ih _ (by omega) (Bytes.length_ofUInt32 _)).bind
    intro rest _
    exact .pure trivial

end Step.Mirrors

theorem salted?_eq (salt : Bytes) : salted? salt = some (salt ++ Bytes.zeros 4) := by
  have hroom : salt.length ≤ (Bytes.zeros (salt.length + 4)).length := by simp
  have hfill := Bytes.fill?_append [] _ rfl hroom
  simp only [List.nil_append, List.length_nil, Nat.zero_add, Bytes.zeros, List.drop_replicate,
    Nat.add_sub_cancel_left] at hfill
  exact hfill

/-- What a derivation refuses is refused for its arguments. -/
theorem ordinary_check (macSize length : Nat) (salt : Bytes) (rounds : Nat) :
    Status.Ordinary (check macSize length salt rounds) := by
  unfold check
  split_ifs
  · exact .error nofun
  · exact .error nofun
  · exact .error nofun
  · exact .error nofun
  · exact .error nofun
  · exact .ok

section

variable (h : a.Mirrors E b Sound)

include h

theorem mirrors_releaseAll (c : Chain σ) :
    Action.Mirrors (fun _ _ => True) (do c.sum.release; c.last.release; a.release c.mac : Action κ Unit)
      (do c.sum.release; c.last.release; b.release c.mac) := by
  rw [h.release]
  exact fun _ => ⟨rfl, trivial⟩

/-- What the keyed algorithm fails with is what the derivation fails with besides. -/
theorem mirrors_deriveBytes (hE : ∀ e : CryptoError, e.Ordinary → E e) (fault : CryptoError) (length : Nat)
    (password salt : Bytes) (rounds : Nat) : Fallible.Mirrors E (fun made made' => made = made')
      (deriveBytesGuarded fault a length password salt rounds) (deriveBytes b length password salt rounds) := by
  unfold deriveBytesGuarded deriveBytes
  rw [h.macSize_eq]
  apply ((Attempt.mirrors_require (ordinary_check b.macSize length salt rounds)).mono hE).bind
  intro _ _ hcheck
  obtain ⟨-, -, -, -, hcount⟩ := (check_eq_ok_iff b.macSize length salt rounds).mp hcheck
  apply (h.create password).bind
  rintro mac _ ⟨rfl, hmac⟩
  have hsalted : Fallible.releasing (a.release mac) (Attempt.obtain fault (salted? salt)) =
      (pure (salt ++ Bytes.zeros 4) : Attempt κ Bytes) := by
    rw [salted?_eq]
    rfl
  rw [hsalted, pure_bind]
  have hnew := (Buffer.mirrors_newFor (κ := κ) .keyDerivation b.macSize).mono hE
  apply (hnew.releasing (h.mirrors_release mac)).bind
  rintro last _ ⟨rfl, hlast⟩
  have hcleanup : Action.Mirrors (fun _ _ => True) (do last.release; a.release mac : Action κ Unit)
      (do last.release; b.release mac) :=
    last.mirrors_release.bind fun _ _ _ => h.mirrors_release mac
  apply (hnew.releasing hcleanup).bind
  rintro sum _ ⟨rfl, hsum⟩
  have hbelow : 0 + chunkCount length b.macSize < 1 <<< 32 := by omega
  have hchunks := Step.Mirrors.chunks h fault salt rounds (Bytes.zeros 4) hbelow (Bytes.length_zeros 4)
  apply (Fallible.Mirrors.perform (hchunks ⟨mac, last, sum⟩ ⟨hmac, hlast, hsum⟩)).bind
  rintro ⟨outcome, c⟩ _ ⟨rfl, -, herror, -⟩
  apply (Fallible.Mirrors.perform (mirrors_releaseAll h c)).bind
  intro _ _ _
  cases outcome with
  | error e => exact .throw (herror e rfl)
  | ok made => exact .pure rfl

theorem mirrors_derive (hE : ∀ e : CryptoError, e.Ordinary → E e) (fault : CryptoError)
    (key password salt : Bytes) (rounds : Nat) : Action.Mirrors (fun r r' => r = r' ∧ Status.Within E r'.1)
      (deriveGuarded fault a key password salt rounds) (derive b key password salt rounds) := by
  apply (mirrors_deriveBytes h hE fault key.length password salt rounds).run_bind
  · intro e he
    exact .pure ⟨rfl, .error he⟩
  · rintro made _ rfl
    exact .pure ⟨rfl, .ok⟩

end

/-- Over any keyed algorithm whose codes take all of their room, the derivation itself has no access out of
range. -/
theorem deriveGuarded_eq {prf : Mac.Algorithm κ σ} (h : Fills prf) (fault : CryptoError)
    (key password salt : Bytes) (rounds : Nat) :
    deriveGuarded fault prf key password salt rounds = derive prf key password salt rounds := by
  have hself : prf.Mirrors (fun _ => True) prf fun _ => True :=
    { macSize_eq := rfl
      create := fun key => .refl (fun _ _ _ => trivial) fun _ _ _ => trivial
      update := fun s data _ => .refl fun μ => ⟨fun _ _ => trivial, trivial⟩
      finalize := fun s out _ => .refl fun μ => ⟨fun _ _ => trivial, h s out μ, trivial⟩
      release := fun _ => rfl }
  funext μ
  exact ((mirrors_derive hself (fun _ _ => trivial) fault key password salt rounds).runFrom_eq μ).1

end Pbkdf2

namespace KeyDerivation

variable {κ σ : Type} {a b : Mac.Algorithm κ σ} {Sound : σ → Prop}

/-- The derivation with `fault` in place of every access out of range. -/
def guarded {κ : Type} (fault : CryptoError) : Algorithm κ where
  name := "PBKDF2"
  derive := Pbkdf2.deriveGuarded fault

theorem mirrors_deriveBuffer (h : a.Mirrors CryptoError.Ordinary b Sound) (fault : CryptoError) (size : Nat)
    (password salt : Bytes) (rounds : Nat) :
    Attempt.Mirrors (fun key key' => key = key') ((guarded fault).deriveBuffer a size password salt rounds)
      (pbkdf2.deriveBuffer b size password salt rounds) := by
  apply (Buffer.mirrors_new size).bind
  rintro key _ ⟨rfl, -⟩
  have hmade := Attempt.mirrors_checked
    (Pbkdf2.mirrors_derive h (fun _ he => he) fault key.bytes password salt rounds)
  apply (hmade.releasing key.mirrors_release).bind
  rintro made _ rfl
  exact .pure rfl

end KeyDerivation

end CryptoSuite
