import CryptoSuite.Proofs.Memory.Ciphers
import CryptoSuite.Proofs.Memory.Derivation
import Mathlib.Algebra.BigOperators.Group.List.Basic

/-! Whole sessions of a caller who makes objects, works with them and drops them, on an allocator that
answers as it likes. Which regions are out is at each point a matter of which objects the caller has. -/
namespace CryptoSuite.Custody

open Fallible
open CryptoSuite.Action (Turns)

variable {κ : Type}

/-- What a caller can own: a buffer, or a context of an algorithm of the library. -/
inductive Object (κ : Type)
  | buffer (b : Buffer)
  | hash (v : Sha2.Variant) (c : Hash.Context κ Sha2.State)
  | mac (name : String) (v : Sha2.Variant) (c : Mac.Context κ (Hmac.State Sha2.State))
  | block (m : RoundMultiplier) (c : BlockCipher.Context κ Cbc.State)
  | stream (m : RoundMultiplier) (c : StreamCipher.Context κ Ctr.State)

namespace Object

/-- The buffers that an object is made of. -/
def buffers : Object κ → List Buffer
  | buffer b => [b]
  | hash _ c => [c.state.storage]
  | mac _ _ c => [c.state.inner.storage, c.state.outer.storage, c.state.pads, c.state.work]
  | block _ c => [c.state.key.schedule, c.state.working]
  | stream _ c => [c.state.key.schedule, c.state.blocks]

def own (o : Object κ) : Holdings := (o.buffers.map Buffer.holding : List (Nat × Nat))

def Sound : Object κ → Prop
  | buffer _ => True
  | hash v c => (Sha2.algorithm v).Runs (Sha2.State.Sound v) c
  | mac name v c => (Hmac.algorithm name (Sha2.algorithm v)).Runs (Hmac.SoundOver κ v) c
  | block m c => Cbc.Runs m c
  | stream m c => Ctr.Runs m c

/-- Dropping an object. -/
def release : Object κ → Action κ Unit
  | buffer b => b.release
  | hash _ c => c.release
  | mac _ _ c => c.release
  | block _ c => c.release
  | stream _ c => c.release

end Object

/-- The operations that answer an object for the caller to own. -/
inductive Maker
  | zeroed (size : Nat)
  | ofBytes (content : Bytes)
  | ofHex (text : String)
  | hashContext (v : Sha2.Variant)
  | macContext (name : String) (v : Sha2.Variant) (key : Bytes)
  | blockContext (m : RoundMultiplier) (key : Bytes) (d : BlockCipher.Direction)
  | streamContext (m : RoundMultiplier) (key : Bytes)
  | hash (v : Sha2.Variant) (data : Bytes)
  | compute (name : String) (v : Sha2.Variant) (key message : Bytes)
  | deriveBuffer (name : String) (v : Sha2.Variant) (size : Nat) (password salt : Bytes) (rounds : Nat)

def Maker.run : Maker → Attempt κ (Object κ)
  | zeroed size => do pure (.buffer (← Buffer.new size))
  | ofBytes content => do pure (.buffer (← Buffer.ofBytes content))
  | ofHex text => do pure (.buffer (← Buffer.ofHex text))
  | hashContext v => do pure (.hash v (← (Sha2.algorithm v).init))
  | macContext name v key => do
    pure (.mac name v (← (Hmac.algorithm name (Sha2.algorithm v)).init key))
  | blockContext m key d => do pure (.block m (← (Cbc.algorithm m).init key d))
  | streamContext m key => do pure (.stream m (← (Ctr.algorithm m).init key))
  | hash v data => do pure (.buffer (← (Sha2.algorithm v).hash data))
  | compute name v key message => do
    pure (.buffer (← (Hmac.algorithm name (Sha2.algorithm v)).compute key message))
  | deriveBuffer name v size password salt rounds => do
    pure (.buffer (← KeyDerivation.pbkdf2.deriveBuffer (Hmac.algorithm name (Sha2.algorithm v)) size
      password salt rounds))

/-- The operations whose answer lies in the caller's own slices. -/
inductive Query
  | verify (name : String) (v : Sha2.Variant) (key message tag : Bytes)
  | derive (name : String) (v : Sha2.Variant) (key password salt : Bytes) (rounds : Nat)
  | longTermSecret (v : Sha2.Variant) (privateKey publicKey out : Bytes)
  | shortTermSecret (v : Sha2.Variant) (privateKey publicKey nonceA nonceB out : Bytes)

/-- The bytes that an operation writes, if it succeeds. -/
def Query.run (multiply : X25519.Multiplication) : Query → Attempt κ Bytes
  | verify name v key message tag => do
    (Hmac.algorithm name (Sha2.algorithm v)).verify key message tag
    pure []
  | derive name v key password salt rounds =>
    Attempt.checked (Pbkdf2.derive (Hmac.algorithm name (Sha2.algorithm v)) key password salt rounds)
  | longTermSecret v privateKey publicKey out =>
    Attempt.checked ((Curve25519.agreement multiply v).longTermSecret privateKey publicKey out)
  | shortTermSecret v privateKey publicKey nonceA nonceB out =>
    Attempt.checked
      ((Curve25519.agreement multiply v).shortTermSecret privateKey publicKey nonceA nonceB out)

/-- The calls on an object. -/
inductive Use
  | readData (src : Bytes)
  | hash (call : Hash.Call)
  | mac (call : Mac.Call)
  | block (call : BlockCipher.Call)
  | stream (call : StreamCipher.Call)

/-- An object has no calls but those of its kind. -/
def Object.use : Object κ → Use → Action κ (Status × Object κ)
  | .buffer b, .readData src =>
    match b.readData src with
    | .error e => pure (.error e, .buffer b)
    | .ok b => pure (.ok (), .buffer b)
  | .hash v c, .hash call => do
    let (answer, c) ← c.call call
    pure (answer.status, .hash v c)
  | .mac name v c, .mac call => do
    let (answer, c) ← c.call call
    pure (answer.status, .mac name v c)
  | .block m c, .block call => do
    let (answer, c) ← c.call call
    pure (answer.status, .block m c)
  | .stream m c, .stream call => do
    let (answer, c) ← c.call call
    pure (answer.status, .stream m c)
  | o, _ => pure (.ok (), o)

inductive Operation
  | make (maker : Maker)
  | ask (query : Query)
  | use (i : Nat) (call : Use)
  | drop (i : Nat)

/-- One operation of a caller who owns the objects in `pool`, which it names by their places. -/
def perform (multiply : X25519.Multiplication) (pool : List (Object κ)) :
    Operation → Action κ (Status × List (Object κ))
  | .make maker => do
    match ← maker.run.run with
    | .error e => pure (.error e, pool)
    | .ok o => pure (.ok (), o :: pool)
  | .ask query => do
    match ← (query.run multiply).run with
    | .error e => pure (.error e, pool)
    | .ok _ => pure (.ok (), pool)
  | .use i call =>
    match pool[i]? with
    | none => pure (.ok (), pool)
    | some o => do
      let (status, o) ← o.use call
      pure (status, pool.set i o)
  | .drop i =>
    match pool[i]? with
    | none => pure (.ok (), pool)
    | some o => do
      o.release
      pure (.ok (), pool.eraseIdx i)

/-- What the objects of a pool own together. -/
def owned (pool : List (Object κ)) : Holdings := (pool.map Object.own).sum

theorem Maker.keeps (maker : Maker) :
    Keeps .any 0 (maker.run : Attempt κ (Object κ)) Object.Sound Object.own 0 := by
  have hbuffer {x : Attempt κ Buffer} {Q : Buffer → Prop}
      (hx : Keeps .any 0 x Q (fun b => {b.holding}) 0) :
      Keeps .any 0 (do pure (.buffer (← x)) : Attempt κ (Object κ)) Object.Sound Object.own 0 := by
    apply hx.bind
    intro b _
    exact Keeps.pure trivial rfl
  cases maker with
  | zeroed size => exact hbuffer (Buffer.keeps_new (f := .any) (fun _ => trivial) ⟨.buffer, rfl⟩)
  | ofBytes content => exact hbuffer (Buffer.keeps_ofBytes content)
  | ofHex text => exact hbuffer (Buffer.keeps_ofHex text)
  | hash v data => exact hbuffer ((Sha2.tidy_algorithm v).keeps_hash data)
  | compute name v key message => exact hbuffer ((Hmac.tidy_sha2 name v).keeps_compute key message)
  | deriveBuffer name v size password salt rounds =>
    exact hbuffer (Pbkdf2.keeps_deriveBuffer (Hmac.tidy_sha2 name v) size password salt rounds)
  | hashContext v =>
    apply ((Sha2.tidy_algorithm v).keeps_init.widen (Failures.only_among_any .hash)).bind
    intro c hc
    exact Keeps.pure hc rfl
  | macContext name v key =>
    apply (((Hmac.tidy_sha2 name v).keeps_init key).widen (Failures.only_among_any .mac)).bind
    intro c hc
    exact Keeps.pure hc rfl
  | blockContext m key d =>
    apply ((Cbc.keeps_init m key d).widen (Failures.rejecting_among_any _ .block)).bind
    intro c hc
    exact Keeps.pure hc rfl
  | streamContext m key =>
    apply ((Ctr.keeps_init m key).widen (Failures.rejecting_among_any _ .stream)).bind
    intro c hc
    exact Keeps.pure hc rfl

theorem Query.keeps (multiply : X25519.Multiplication) (query : Query) :
    Keeps .any 0 (query.run multiply : Attempt κ Bytes) (fun _ => True) (fun _ => 0) 0 := by
  cases query with
  | verify name v key message tag =>
    apply ((Hmac.tidy_sha2 name v).keeps_verify key message tag).bind
    intro _ _
    exact Keeps.pure trivial rfl
  | derive name v key password salt rounds =>
    exact (Pbkdf2.keeps_derive (Hmac.tidy_sha2 name v) key password salt rounds).imp fun _ _ =>
      ⟨trivial, rfl⟩
  | longTermSecret v privateKey publicKey out =>
    exact (Curve25519.keeps_longTermSecret privateKey publicKey out).imp fun _ _ => ⟨trivial, rfl⟩
  | shortTermSecret v privateKey publicKey nonceA nonceB out =>
    exact (Curve25519.keeps_shortTermSecret privateKey publicKey nonceA nonceB out).imp fun _ _ =>
      ⟨trivial, rfl⟩

theorem Object.turns_release {o : Object κ} (h : o.Sound) :
    Turns o.own o.release (fun _ => True) fun _ => 0 := by
  cases o with
  | buffer b => exact b.turns_release
  | hash v c => exact (Sha2.tidy_algorithm v).turns_release h
  | mac name v c => exact (Hmac.tidy_sha2 name v).turns_release h
  | block m c => exact Cbc.turns_releaseContext h
  | stream m c => exact Ctr.turns_releaseContext h

/-- No call changes what an object owns. -/
theorem Object.turns_use {o : Object κ} (h : o.Sound) (call : Use) :
    Turns o.own (o.use call) (fun r => r.2.Sound ∧ r.2.own = o.own) fun _ => o.own := by
  cases o with
  | buffer b =>
    cases call with
    | readData src =>
      by_cases hl : src.length ≤ b.size
      · have hw : (b.write 0 src).holding = b.holding := by
          apply Buffer.holding_setBytes
          apply Bytes.length_overwrite
          rwa [Nat.zero_add]
        simp only [use, Buffer.readData, if_pos hl]
        exact Turns.pure ⟨trivial, congrArg (fun x => ({x} : Holdings)) hw⟩ rfl
      · simp only [use, Buffer.readData, if_neg hl]
        exact Turns.pure ⟨h, rfl⟩ rfl
    | _ => exact Turns.pure ⟨h, rfl⟩ rfl
  | hash v c =>
    cases call with
    | hash call =>
      apply ((Sha2.tidy_algorithm v).turns_call h call).bind
      intro r hr
      exact Turns.pure hr rfl
    | _ => exact Turns.pure ⟨h, rfl⟩ rfl
  | mac name v c =>
    cases call with
    | mac call =>
      apply ((Hmac.tidy_sha2 name v).turns_call h call).bind
      intro r hr
      exact Turns.pure hr rfl
    | _ => exact Turns.pure ⟨h, rfl⟩ rfl
  | block m c =>
    cases call with
    | block call =>
      apply (Cbc.turns_call h call).bind
      intro r hr
      exact Turns.pure hr rfl
    | _ => exact Turns.pure ⟨h, rfl⟩ rfl
  | stream m c =>
    cases call with
    | stream call =>
      apply (Ctr.turns_call h call).bind
      intro r hr
      exact Turns.pure hr rfl
    | _ => exact Turns.pure ⟨h, rfl⟩ rfl

/-- The accounts of a caller: the objects are sound, and their regions are the ones that are out. -/
structure Balanced (pool : List (Object κ)) (μ : Machine κ) : Prop where
  sound : ∀ o ∈ pool, o.Sound
  accounts : μ.heap.Accounts (owned pool)

/-- What an operation that ends with `status` requested, and what it leaves when it fails. -/
structure Settled (μ : Machine κ) (pool : List (Object κ)) (status : Status) (ν : Machine κ)
    (pool' : List (Object κ)) : Prop where
  balanced : Balanced pool' ν
  requests : ∃ sizes, ν.After μ sizes ∧
    (μ.Grants sizes ∨ ¬μ.Grants sizes ∧ μ.Grants sizes.dropLast ∧ ∃ c, status = .error (.outOfMemory c))
  failed : ∀ e, status = .error e → owned pool' = owned pool

variable {pool : List (Object κ)} {μ : Machine κ} {multiply : X25519.Multiplication}

theorem owned_cons (o : Object κ) (pool : List (Object κ)) : owned (o :: pool) = o.own + owned pool :=
  List.sum_cons

theorem owned_set {i : Nat} {o o' : Object κ} (hi : pool[i]? = some o) (ho : o'.own = o.own) :
    owned (pool.set i o') = owned pool := by
  obtain ⟨hlt, rfl⟩ := List.getElem?_eq_some_iff.mp hi
  have hset : (pool.set i o').map Object.own = pool.map Object.own := by
    rw [List.map_set, ho, ← List.getElem_map Object.own (h := by simpa using hlt), List.set_getElem_self]
  rw [owned, hset, owned]

theorem owned_eraseIdx {i : Nat} {o : Object κ} (hi : pool[i]? = some o) :
    owned pool = o.own + owned (pool.eraseIdx i) := by
  obtain ⟨hlt, rfl⟩ := List.getElem?_eq_some_iff.mp hi
  have hp := (List.getElem_cons_eraseIdx_perm hlt).map Object.own
  rw [← owned_cons]
  exact hp.sum_eq.symm

theorem runFrom_make (maker : Maker) (pool : List (Object κ)) (μ : Machine κ) :
    (perform multiply pool (.make maker)).runFrom μ =
      match (maker.run : Attempt κ (Object κ)).runFrom μ with
      | (.ok o, ν) => ((.ok (), o :: pool), ν)
      | (.error e, ν) => ((.error e, pool), ν) := by
  rcases h : (maker.run : Attempt κ (Object κ)).runFrom μ with ⟨_ | o, ν⟩
  all_goals
    rw [Fallible.runFrom] at h
    simp only [Action.runFrom, perform, bind, StateT.bind, h]
    rfl

theorem runFrom_ask (query : Query) (pool : List (Object κ)) (μ : Machine κ) :
    (perform multiply pool (.ask query)).runFrom μ =
      match (query.run multiply : Attempt κ Bytes).runFrom μ with
      | (.ok _, ν) => ((.ok (), pool), ν)
      | (.error e, ν) => ((.error e, pool), ν) := by
  rcases h : (query.run multiply : Attempt κ Bytes).runFrom μ with ⟨_ | o, ν⟩
  all_goals
    rw [Fallible.runFrom] at h
    simp only [Action.runFrom, perform, bind, StateT.bind, h]
    rfl

theorem Settled.of_turns {x : Action κ (Status × List (Object κ))} {Q : Status × List (Object κ) → Prop}
    (hb : Balanced pool μ) (hx : x.Turns (owned pool) Q fun r => owned r.2)
    (hq : ∀ r, Q r → (∀ o ∈ r.2, o.Sound) ∧ ∀ e, r.1 = .error e → owned r.2 = owned pool) :
    Settled μ pool (x.runFrom μ).1.1 (x.runFrom μ).2 (x.runFrom μ).1.2 := by
  have ha := hb.accounts
  rw [← add_zero (owned pool)] at ha
  obtain ⟨hafter, hr, ho⟩ := hx μ 0 ha
  rw [add_zero] at ho
  obtain ⟨hsound, hfailed⟩ := hq _ hr
  exact ⟨⟨hsound, ho⟩, ⟨[], hafter, .inl trivial⟩, hfailed⟩

/-- An operation that failed and left its caller with what it had. -/
theorem Settled.of_failed {ν : Machine κ} {sizes : List Nat} {e : CryptoError} (hb : Balanced pool μ)
    (hafter : ν.After μ sizes) (he : Failures.any.Explains μ sizes e)
    (ho : ν.heap.Accounts (owned pool)) : Settled μ pool (.error e) ν pool := by
  refine ⟨⟨hb.sound, ho⟩, ⟨sizes, hafter, ?_⟩, fun _ _ => rfl⟩
  rcases he with ⟨hg, -⟩ | ⟨hg, hd, c, rfl⟩
  · exact .inl hg
  · exact .inr ⟨hg, hd, c, rfl⟩

theorem settled_make (hb : Balanced pool μ) (maker : Maker) :
    Settled μ pool ((perform multiply pool (.make maker)).runFrom μ).1.1
      ((perform multiply pool (.make maker)).runFrom μ).2
      ((perform multiply pool (.make maker)).runFrom μ).1.2 := by
  have ha := hb.accounts
  rw [← zero_add (owned pool)] at ha
  have hk := maker.keeps μ (owned pool) ha
  rw [runFrom_make]
  rcases hrun : (maker.run : Attempt κ (Object κ)).runFrom μ with ⟨e | o, ν⟩ <;>
    simp only [hrun] at hk ⊢
  · obtain ⟨sizes, hafter, he, ho⟩ := hk
    rw [zero_add] at ho
    exact .of_failed hb hafter he ho
  · obtain ⟨sizes, hafter, hg, hs, ho⟩ := hk
    rw [← owned_cons] at ho
    exact ⟨⟨List.forall_mem_cons.mpr ⟨hs, hb.sound⟩, ho⟩, ⟨sizes, hafter, .inl hg⟩, nofun⟩

theorem settled_ask (hb : Balanced pool μ) (query : Query) :
    Settled μ pool ((perform multiply pool (.ask query)).runFrom μ).1.1
      ((perform multiply pool (.ask query)).runFrom μ).2
      ((perform multiply pool (.ask query)).runFrom μ).1.2 := by
  have ha := hb.accounts
  rw [← zero_add (owned pool)] at ha
  have hk := query.keeps multiply μ (owned pool) ha
  rw [runFrom_ask]
  rcases hrun : (query.run multiply : Attempt κ Bytes).runFrom μ with ⟨e | made, ν⟩ <;>
    simp only [hrun] at hk ⊢
  · obtain ⟨sizes, hafter, he, ho⟩ := hk
    rw [zero_add] at ho
    exact .of_failed hb hafter he ho
  · obtain ⟨sizes, hafter, hg, -, ho⟩ := hk
    rw [zero_add] at ho
    exact ⟨⟨hb.sound, ho⟩, ⟨sizes, hafter, .inl hg⟩, fun _ _ => rfl⟩

/-- A call on one object leaves the others alone. -/
theorem turns_perform_use (hb : Balanced pool μ) {i : Nat} {o : Object κ} (hi : pool[i]? = some o)
    (call : Use) :
    Turns (owned pool) (perform multiply pool (.use i call))
      (fun r => (∀ o ∈ r.2, o.Sound) ∧ owned r.2 = owned pool) fun r => owned r.2 := by
  have hmem : o ∈ pool := List.mem_of_getElem? hi
  simp only [perform, hi]
  apply (Object.turns_use (hb.sound o hmem) call).seq (owned (pool.eraseIdx i)) (owned_eraseIdx hi)
  rintro ⟨status, o'⟩ ⟨ho', hown⟩
  rw [← owned_eraseIdx hi]
  apply Turns.pure
  · refine ⟨fun x hx => ?_, owned_set hi hown⟩
    rcases List.mem_or_eq_of_mem_set hx with hx | rfl
    · exact hb.sound x hx
    · exact ho'
  · exact owned_set hi hown

theorem turns_perform_drop (hb : Balanced pool μ) {i : Nat} {o : Object κ} (hi : pool[i]? = some o) :
    Turns (owned pool) (perform multiply pool (.drop i))
      (fun r => (∀ o ∈ r.2, o.Sound) ∧ r.1 = .ok ()) fun r => owned r.2 := by
  have hmem : o ∈ pool := List.mem_of_getElem? hi
  simp only [perform, hi]
  apply (Object.turns_release (hb.sound o hmem)).seq (owned (pool.eraseIdx i)) (owned_eraseIdx hi)
  intro _ _
  rw [zero_add]
  apply Turns.pure
  · exact ⟨fun x hx => hb.sound x (List.mem_of_mem_eraseIdx hx), rfl⟩
  · rfl

/-- Any operation on balanced accounts leaves them balanced. -/
theorem perform_settled (multiply : X25519.Multiplication) (hb : Balanced pool μ)
    (operation : Operation) :
    Settled μ pool ((perform multiply pool operation).runFrom μ).1.1
      ((perform multiply pool operation).runFrom μ).2
      ((perform multiply pool operation).runFrom μ).1.2 := by
  cases operation with
  | make maker => exact settled_make hb maker
  | ask query => exact settled_ask hb query
  | use i call =>
    cases hi : pool[i]? with
    | none =>
      simp only [perform, hi, Action.runFrom_pure]
      exact ⟨hb, ⟨[], .refl μ, .inl trivial⟩, nofun⟩
    | some o =>
      apply Settled.of_turns hb (turns_perform_use hb hi call)
      rintro r ⟨hs, ho⟩
      exact ⟨hs, fun _ _ => ho⟩
  | drop i =>
    cases hi : pool[i]? with
    | none =>
      simp only [perform, hi, Action.runFrom_pure]
      exact ⟨hb, ⟨[], .refl μ, .inl trivial⟩, nofun⟩
    | some o =>
      apply Settled.of_turns hb (turns_perform_drop hb hi)
      rintro r ⟨hs, hok⟩
      refine ⟨hs, fun e he => ?_⟩
      rw [hok] at he
      cases he

/-- What a caller owns after some operations, on an allocator that began with the policy. -/
def Reached (multiply : X25519.Multiplication) (policy : Nat → Nat → Option Nat)
    (pool : List (Object κ)) (ν : Machine κ) : Prop :=
  ∃ (μ : Machine κ) (operations : List Operation), μ.heap = Heap.start policy ∧
    let r := (Session.run (perform multiply) [] operations).runFrom μ
    r.1.2 = pool ∧ r.2 = ν

theorem Reached.balanced {policy : Nat → Nat → Option Nat} {ν : Machine κ}
    (h : Reached multiply policy pool ν) : Balanced pool ν ∧ ν.heap.policy = policy := by
  obtain ⟨μ, operations, hstart, rfl, rfl⟩ := h
  have hbegin : Balanced ([] : List (Object κ)) μ ∧ μ.heap.policy = policy := by
    rw [hstart]
    refine ⟨⟨nofun, ?_⟩, rfl⟩
    rw [hstart]
    exact .start policy
  refine Session.run_invariant (P := fun pool μ => Balanced pool μ ∧ μ.heap.policy = policy) ?_
    operations hbegin
  rintro pool operation μ ⟨hb, hp⟩
  obtain ⟨hb', ⟨sizes, hafter, -⟩, -⟩ := perform_settled multiply hb operation
  exact ⟨hb', hafter.policy_eq.trans hp⟩

/-- The regions of the buffers that the objects of a pool are made of. -/
def regions (pool : List (Object κ)) : List Nat :=
  (pool.flatMap Object.buffers).map fun b => b.region.id

theorem map_fst_owned (pool : List (Object κ)) : (owned pool).map Prod.fst = (regions pool : Multiset Nat) := by
  induction pool with
  | nil => rfl
  | cons o pool ih =>
    rw [owned_cons, Multiset.map_add, ih, Object.own, Multiset.map_coe, List.map_map, regions,
      regions, List.flatMap_cons, List.map_append, ← Multiset.coe_add]
    rfl

/-- The regions that are out are at each point those of the caller's objects. Each region that was
handed out is out or came back, exactly once, all zero and in its size; a region of another size than was
asked for is never out. An operation for which a request was not served ends there, for want of
memory, and one that fails, for whatever reason, leaves out what was out before. -/
theorem regions_after_session {policy : Nat → Nat → Option Nat} {ν : Machine κ}
    (h : Reached multiply policy pool ν) :
    ν.heap.live.Perm (regions pool) ∧ ν.heap.live.Nodup ∧
    (∀ x ∈ ν.heap.handedOut,
      ν.heap.live.count x.1 + (ν.heap.released.map Region.id).count x.1 = 1) ∧
    (∀ r ∈ ν.heap.released, r.extent ∈ ν.heap.handedOut ∧ r.bytes = Bytes.zeros r.bytes.length) ∧
    (∀ n ∈ ν.heap.live, ∀ size, ν.heap.requests[n]? = some size → policy n size = some size) ∧
    (∀ operation, ∃ sizes,
      let r := (perform multiply pool operation).runFrom ν
      r.2.heap.requests = ν.heap.requests ++ sizes ∧
      (ν.Grants sizes ∨
        ¬ν.Grants sizes ∧ ν.Grants sizes.dropLast ∧ ∃ c, r.1.1 = .error (.outOfMemory c)) ∧
      ∀ e, r.1.1 = .error e → r.2.heap.live.Perm ν.heap.live) ∧
    ∀ (μ : Machine κ) (size granted : Nat), size ≠ 0 →
      μ.heap.policy μ.heap.requests.length size = some granted → granted ≠ size →
      (Buffer.new size).runFrom μ = (.error (.outOfMemory .buffer), { μ with
        heap := (μ.heap.request size).2.giveBack ⟨μ.heap.requests.length, Bytes.zeros granted⟩ }) := by
  obtain ⟨hb, hp⟩ := h.balanced
  have ha := hb.accounts
  refine ⟨?_, ha.nodup_live, fun x hx => ha.count_eq_one hx, ?_, ?_, ?_, ?_⟩
  · apply Multiset.coe_eq_coe.mp
    rw [ha.live_eq, map_fst_owned]
  · intro r hr
    exact ⟨ha.mem_handedOut_of_released hr, ha.wiped r hr⟩
  · intro n hn size hr
    rw [← hp]
    exact ha.fits_of_live hn hr
  · intro operation
    obtain ⟨hb', ⟨sizes, hafter, hserved⟩, hfailed⟩ := perform_settled multiply hb operation
    refine ⟨sizes, hafter.requests_eq, hserved, fun e he => ?_⟩
    apply Multiset.coe_eq_coe.mp
    rw [hb'.accounts.live_eq, hfailed e he, ha.live_eq]
  · intro μ size granted hs hpolicy hg
    exact Buffer.runFrom_new_misfit hs hpolicy hg

/-- A machine whose allocator refuses the second request and answers the third with a larger region. -/
def moody : Machine Unit :=
  { Machine.system with heap := Heap.start fun n size =>
      if n = 1 then none else if n = 2 then some (size + 1) else some size }

def moodyOperations : List Operation :=
  [.make (.zeroed 4), .make (.zeroed 4), .make (.zeroed 4), .make (.hashContext .sha512),
    .use 1 (.readData [1, 2]), .drop 1]

def moodySession : (List Status × List (Object Unit)) × Machine Unit :=
  (Session.run (perform X25519.multiply) [] moodyOperations).runFrom moody

/-- Of four requests one was refused and one did not fit; the first region came back after use. -/
theorem regions_after_moody_session :
    Reached X25519.multiply moody.heap.policy moodySession.1.2 moodySession.2 ∧
      moodySession.2.heap.handedOut = [(0, 4), (2, 5), (3, 192)] ∧
      moodySession.2.heap.live.Perm (regions moodySession.1.2) ∧
      moodySession.2.heap.live.count 0 + (moodySession.2.heap.released.map Region.id).count 0 = 1 := by
  have h : Reached X25519.multiply moody.heap.policy moodySession.1.2 moodySession.2 := by
    unfold moodySession
    exact ⟨moody, moodyOperations, rfl, rfl, rfl⟩
  have hout : moodySession.2.heap.handedOut = [(0, 4), (2, 5), (3, 192)] := by decide +kernel
  -- From here on only the theorem speaks of the pool and the machine that were reached.
  generalize moodySession.1.2 = pool at *
  generalize moodySession.2 = ν at *
  obtain ⟨hperm, -, hcount, -⟩ := regions_after_session h
  refine ⟨h, hout, hperm, hcount (0, 4) ?_⟩
  rw [hout]
  exact List.mem_cons_self

end CryptoSuite.Custody
