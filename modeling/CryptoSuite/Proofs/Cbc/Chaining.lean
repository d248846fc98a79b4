import CryptoSuite.Proofs.Cbc.State
import CryptoSuite.Proofs.Refusal.Contexts

/-! Messages of several blocks, each block chained on the ciphertext of the one before by the caller. The
two directions invert each other, whatever the contexts were used for before. -/
namespace CryptoSuite.Cbc

open BlockCipher (Direction Call Answer Context)

variable {κ : Type} {m : RoundMultiplier} {key iv : Bytes} {d : Direction}

/-- The ciphertext of a message. -/
def encryptedChain (m : RoundMultiplier) (key : Bytes) : Bytes → List Bytes → List Bytes
  | _, [] => []
  | iv, x :: rest => encrypted m key iv x :: encryptedChain m key (encrypted m key iv x) rest

/-- The message of which the blocks are the ciphertext. -/
def decryptedChain (m : RoundMultiplier) (key : Bytes) : Bytes → List Bytes → List Bytes
  | _, [] => []
  | iv, y :: rest => decrypted m key iv y :: decryptedChain m key y rest

/-- The blocks of a message all have the block length. -/
def Blocks (blocks : List Bytes) : Prop := ∀ b ∈ blocks, b.length = 16

theorem blocks_encryptedChain (m : RoundMultiplier) (key iv : Bytes) (blocks : List Bytes) :
    Blocks (encryptedChain m key iv blocks) := by
  induction blocks generalizing iv with
  | nil => simp [encryptedChain, Blocks]
  | cons x rest ih =>
    simp only [Blocks, encryptedChain, List.forall_mem_cons, length_encrypted, true_and]
    exact ih _

theorem blocks_decryptedChain (m : RoundMultiplier) (key iv : Bytes) (blocks : List Bytes) :
    Blocks (decryptedChain m key iv blocks) := by
  induction blocks generalizing iv with
  | nil => simp [decryptedChain, Blocks]
  | cons y rest ih =>
    simp only [Blocks, decryptedChain, List.forall_mem_cons, length_decrypted, true_and]
    exact ih _

/-- Both directions chain on the same ciphertext. -/
theorem decryptedChain_encryptedChain {blocks : List Bytes} (h : Blocks blocks) :
    decryptedChain m key iv (encryptedChain m key iv blocks) = blocks := by
  induction blocks generalizing iv with
  | nil => rfl
  | cons x rest ih =>
    obtain ⟨hx, hrest⟩ := List.forall_mem_cons.mp h
    simp only [encryptedChain, decryptedChain, decrypted_encrypted m key iv hx, ih hrest]

theorem encryptedChain_decryptedChain {blocks : List Bytes} (h : Blocks blocks) :
    encryptedChain m key iv (decryptedChain m key iv blocks) = blocks := by
  induction blocks generalizing iv with
  | nil => rfl
  | cons y rest ih =>
    obtain ⟨hy, hrest⟩ := List.forall_mem_cons.mp h
    simp only [decryptedChain, encryptedChain, encrypted_decrypted m key iv hy, ih hrest]

/-- A context of the cipher for one direction. -/
def Ready (m : RoundMultiplier) (key : Bytes) (d : Direction) (c : Context κ State) : Prop :=
  c.algorithm = algorithm m ∧ c.state.Keyed m key d

namespace Ready

variable {c : Context κ State}

theorem of_runFrom_init {μ ν : Machine κ} (h : ((algorithm m).init key d).runFrom μ = (.ok c, ν)) :
    Ready m key d c := by
  obtain ⟨s, hs, rfl⟩ := BlockCipher.Algorithm.of_runFrom_init h
  exact ⟨rfl, keyed_of_runFrom_create hs⟩

theorem call (h : Ready m key d c) (call : Call) (μ : Machine κ) :
    Ready m key d ((c.call call).runFrom μ).1.2 := by
  obtain ⟨_, s⟩ := c
  obtain ⟨rfl, hs⟩ := h
  cases call with
  | encrypt iv input out =>
    simp only [Context.call, Context.encrypt, Context.apply]
    cases Context.checkLengths ⟨algorithm m, s⟩ iv input out with
    | error e => exact ⟨rfl, hs⟩
    | ok _ => exact ⟨rfl, hs.step (.encrypt iv input out)⟩
  | decrypt iv input out =>
    simp only [Context.call, Context.decrypt, Context.apply]
    cases Context.checkLengths ⟨algorithm m, s⟩ iv input out with
    | error e => exact ⟨rfl, hs⟩
    | ok _ => exact ⟨rfl, hs.step (.decrypt iv input out)⟩

theorem session (h : Ready m key d c) (calls : List Call) (μ : Machine κ) :
    Ready m key d ((c.session calls).runFrom μ).1.2 :=
  Session.run_invariant (P := fun c _ => Ready m key d c) (fun _ call μ h => h.call call μ) calls h

/-- Blocks that pass the checks of the context are processed by the state. -/
theorem runFrom_apply {run : State → Bytes → Bytes → Bytes → Status × Bytes × State} {s t : State}
    {input out made : Bytes} (hiv : iv.length = 16) (hin : input.length = 16) (hout : out.length = 16)
    (h : run s iv input out = (.ok (), made, t)) (μ : Machine κ) :
    (Context.apply ⟨algorithm m, s⟩ (fun s iv input out => pure (run s iv input out)) iv input
      out).runFrom μ = ((.ok (), made, ⟨algorithm m, t⟩), μ) := by
  have hcheck : Context.checkLengths (⟨algorithm m, s⟩ : Context κ State) iv input out = .ok () := by
    simp [Context.checkLengths, algorithm, hiv, hin, hout]
  rw [Context.apply, hcheck]
  simp only [h, Action.runFrom_bind, Action.runFrom_pure]

theorem runFrom_encrypt (h : Ready m key .encryption c) {input out : Bytes} (hiv : iv.length = 16)
    (hin : input.length = 16) (hout : out.length = 16) :
    ∃ c', Ready m key .encryption c' ∧ ∀ μ : Machine κ,
      (c.encrypt iv input out).runFrom μ = ((.ok (), encrypted m key iv input, c'), μ) := by
  obtain ⟨_, s⟩ := c
  obtain ⟨rfl, hs⟩ := h
  obtain ⟨t, ht, hkeyed⟩ := hs.encrypt_eq iv hin hout
  exact ⟨⟨algorithm m, t⟩, ⟨rfl, hkeyed⟩, runFrom_apply hiv hin hout ht⟩

theorem runFrom_decrypt (h : Ready m key .decryption c) {input out : Bytes} (hiv : iv.length = 16)
    (hin : input.length = 16) (hout : out.length = 16) :
    ∃ c', Ready m key .decryption c' ∧ ∀ μ : Machine κ,
      (c.decrypt iv input out).runFrom μ = ((.ok (), decrypted m key iv input, c'), μ) := by
  obtain ⟨_, s⟩ := c
  obtain ⟨rfl, hs⟩ := h
  obtain ⟨t, ht, hkeyed⟩ := hs.decrypt_eq iv hin hout
  exact ⟨⟨algorithm m, t⟩, ⟨rfl, hkeyed⟩, runFrom_apply hiv hin hout ht⟩

theorem length_room (h : Ready m key d c) : (Bytes.zeros c.algorithm.blockSize).length = 16 := by
  rw [h.1]
  rfl

/-- The caller hands each ciphertext block on to the next call. -/
theorem runFrom_encryptChain (h : Ready m key .encryption c) {blocks : List Bytes} (hiv : iv.length = 16)
    (hblocks : Blocks blocks) :
    ∃ c', Ready m key .encryption c' ∧ ∀ μ : Machine κ,
      (c.encryptChain iv blocks).runFrom μ = ((.ok (encryptedChain m key iv blocks), c'), μ) := by
  induction blocks generalizing c iv with
  | nil => exact ⟨c, h, fun _ => rfl⟩
  | cons x rest ih =>
    obtain ⟨hx, hrest⟩ := List.forall_mem_cons.mp hblocks
    obtain ⟨e, he, hcall⟩ := h.runFrom_encrypt hiv hx h.length_room
    obtain ⟨c', hc', hrun⟩ := ih he (length_encrypted m key iv x) hrest
    refine ⟨c', hc', fun μ => ?_⟩
    rw [Context.encryptChain, Action.runFrom_bind, hcall]
    dsimp only
    rw [Action.runFrom_bind, hrun]
    rfl

/-- Here it is the input that is handed on. -/
theorem runFrom_decryptChain (h : Ready m key .decryption c) {blocks : List Bytes} (hiv : iv.length = 16)
    (hblocks : Blocks blocks) :
    ∃ c', Ready m key .decryption c' ∧ ∀ μ : Machine κ,
      (c.decryptChain iv blocks).runFrom μ = ((.ok (decryptedChain m key iv blocks), c'), μ) := by
  induction blocks generalizing c iv with
  | nil => exact ⟨c, h, fun _ => rfl⟩
  | cons y rest ih =>
    obtain ⟨hy, hrest⟩ := List.forall_mem_cons.mp hblocks
    obtain ⟨e, he, hcall⟩ := h.runFrom_decrypt hiv hy h.length_room
    obtain ⟨c', hc', hrun⟩ := ih he hy hrest
    refine ⟨c', hc', fun μ => ?_⟩
    rw [Context.decryptChain, Action.runFrom_bind, hcall]
    dsimp only
    rw [Action.runFrom_bind, hrun]
    rfl

end Ready

/-- A context for one direction after any session, failed calls included. -/
def Used (m : RoundMultiplier) (key : Bytes) (d : Direction) (c : Context κ State) : Prop :=
  ∃ (c₀ : Context κ State) (μ ν ξ : Machine κ) (calls : List Call),
    ((algorithm m).init key d).runFrom μ = (.ok c₀, ν) ∧ c = ((c₀.session calls).runFrom ξ).1.2

theorem Used.ready {c : Context κ State} (h : Used m key d c) : Ready m key d c := by
  obtain ⟨c₀, μ, ν, ξ, calls, hinit, rfl⟩ := h
  exact (Ready.of_runFrom_init hinit).session calls ξ

/-- A state for one direction after any calls, with vectors of any length. -/
def State.Used (κ : Type) (m : RoundMultiplier) (key : Bytes) (d : Direction) (s : State) : Prop :=
  ∃ (s₀ : State) (μ ν : Machine κ) (calls : List Call),
    (create m key d).runFrom μ = (.ok s₀, ν) ∧ s = calls.foldl State.step s₀

theorem State.Used.keyed {s : State} (h : s.Used κ m key d) : s.Keyed m key d := by
  obtain ⟨s₀, μ, ν, calls, hcreate, rfl⟩ := h
  exact (keyed_of_runFrom_create hcreate).foldl_step calls

/-- Contexts for both directions exist whenever there is memory. Of a message of any number of blocks,
what one of them encrypts the other decrypts to the same message, and what one decrypts the other encrypts
to it again. A state does the same with one block under a vector of any length, of which it uses as many
bytes as a block has, and masks no more bytes of the block than the vector has. -/
theorem chained_blocks_return (m : RoundMultiplier) {key : Bytes} (hkey : key.length = 32) :
    (∀ (d : Direction) (μ : Machine κ), μ.Grants (stateSizes m d) →
      (∃ c ν, ((algorithm m).init key d).runFrom μ = (.ok c, ν)) ∧
      ∃ s ν, (create m key d).runFrom μ = (.ok s, ν)) ∧
    (∀ (e d : Context κ State) (iv : Bytes) (blocks : List Bytes),
      Used m key .encryption e → Used m key .decryption d → iv.length = 16 → Blocks blocks →
      (∃ e' d', ∀ μ : Machine κ,
        (e.encryptChain iv blocks).runFrom μ = ((.ok (encryptedChain m key iv blocks), e'), μ) ∧
        (d.decryptChain iv (encryptedChain m key iv blocks)).runFrom μ = ((.ok blocks, d'), μ)) ∧
      ∃ d' e', ∀ μ : Machine κ,
        (d.decryptChain iv blocks).runFrom μ = ((.ok (decryptedChain m key iv blocks), d'), μ) ∧
        (e.encryptChain iv (decryptedChain m key iv blocks)).runFrom μ = ((.ok blocks, e'), μ)) ∧
    ∀ (e d : State) (iv block out out' : Bytes), e.Used κ m key .encryption → d.Used κ m key .decryption →
      block.length = 16 → out.length = 16 → out'.length = 16 →
      (∃ y e' d', encrypt e iv block out = (.ok (), y, e') ∧ decrypt d iv y out' = (.ok (), block, d') ∧
        encrypt e (iv.take 16) block out = (.ok (), y, e') ∧
        y = (Aes.encipher m key (Aes.Block.read (Bytes.xor block iv ++ block.drop iv.length) 0)).toList) ∧
      ∃ x d' e', decrypt d iv block out = (.ok (), x, d') ∧ encrypt e iv x out' = (.ok (), block, e') ∧
        decrypt d (iv.take 16) block out = (.ok (), x, d') ∧
        x = Bytes.xor (Aes.decipher m key (Aes.Block.read block 0)).toList iv ++
          (Aes.decipher m key (Aes.Block.read block 0)).toList.drop iv.length := by
  refine ⟨?_, ?_, ?_⟩
  · intro d μ hmemory
    rw [← map_size_demands .block (stateSizes m d)] at hmemory
    constructor
    · obtain ⟨c, ν, hc, -⟩ := (draws_init m d hkey).succeeds hmemory
      exact ⟨c, ν, hc⟩
    · obtain ⟨s, ν, hs, -⟩ := (draws_create m d hkey).succeeds hmemory
      exact ⟨s, ν, hs⟩
  · intro e d iv blocks he hd hiv hblocks
    constructor
    · have hmade := blocks_encryptedChain m key iv blocks
      obtain ⟨e', -, hencrypt⟩ := he.ready.runFrom_encryptChain hiv hblocks
      obtain ⟨d', -, hdecrypt⟩ := hd.ready.runFrom_decryptChain hiv hmade
      rw [decryptedChain_encryptedChain hblocks] at hdecrypt
      exact ⟨e', d', fun μ => ⟨hencrypt μ, hdecrypt μ⟩⟩
    · have hmade := blocks_decryptedChain m key iv blocks
      obtain ⟨d', -, hdecrypt⟩ := hd.ready.runFrom_decryptChain hiv hblocks
      obtain ⟨e', -, hencrypt⟩ := he.ready.runFrom_encryptChain hiv hmade
      rw [encryptedChain_decryptedChain hblocks] at hencrypt
      exact ⟨d', e', fun μ => ⟨hdecrypt μ, hencrypt μ⟩⟩
  · intro e d iv block out out' he hd hblock hout hout'
    constructor
    · have hlength := length_encrypted m key iv block
      obtain ⟨e', hencrypt, -⟩ := he.keyed.encrypt_eq iv hblock hout
      obtain ⟨d', hdecrypt, -⟩ := hd.keyed.decrypt_eq iv hlength hout'
      rw [decrypted_encrypted m key iv hblock] at hdecrypt
      exact ⟨_, e', d', hencrypt, hdecrypt, (encrypt_take e iv block out).trans hencrypt,
        encrypted_eq m key iv hblock⟩
    · have hlength := length_decrypted m key iv block
      obtain ⟨d', hdecrypt, -⟩ := hd.keyed.decrypt_eq iv hblock hout
      obtain ⟨e', hencrypt, -⟩ := he.keyed.encrypt_eq iv hlength hout'
      rw [encrypted_decrypted m key iv hblock] at hencrypt
      exact ⟨_, d', e', hdecrypt, hencrypt, (decrypt_take d iv block out).trans hdecrypt,
        decrypted_eq m key iv block⟩

/-- The states of the theorem below have been used, also in ways that fail. -/
def sampleCalls : List Call :=
  [.decrypt [1, 2] (Bytes.zeros 16) (Bytes.zeros 16), .encrypt [] (List.replicate 16 7) (Bytes.zeros 16),
    .encrypt (Bytes.zeros 16) [3] [3]]

/-- Two blocks under three times the rounds, and one block under a vector of three bytes. -/
theorem chained_blocks_return_triple :
    let key := List.replicate 32 5
    let iv := List.replicate 16 9
    let blocks := [List.replicate 16 1, List.replicate 16 2]
    (∃ e d : Context Unit State, Used .triple key .encryption e ∧ Used .triple key .decryption d ∧
      ∃ e' d', (e.encryptChain iv blocks).runFrom Machine.system =
          ((.ok (encryptedChain .triple key iv blocks), e'), Machine.system) ∧
        (d.decryptChain iv (encryptedChain .triple key iv blocks)).runFrom Machine.system =
          ((.ok blocks, d'), Machine.system)) ∧
    ∃ e d : State, e.Used Unit .triple key .encryption ∧ d.Used Unit .triple key .decryption ∧
      ∃ y e' d', encrypt e [1, 2, 3] (List.replicate 16 4) (Bytes.zeros 16) = (.ok (), y, e') ∧
        decrypt d [1, 2, 3] y (Bytes.zeros 16) = (.ok (), List.replicate 16 4, d') := by
  intro key iv blocks
  have hkey : key.length = 32 := rfl
  obtain ⟨hmade, hchain, hblock⟩ := chained_blocks_return (κ := Unit) .triple hkey
  obtain ⟨⟨e, μ, he⟩, s, ν, hs⟩ := hmade .encryption Machine.system (Machine.system_grants (by decide))
  obtain ⟨⟨d, μ', hd⟩, t, ν', ht⟩ := hmade .decryption Machine.system (Machine.system_grants (by decide))
  constructor
  · have he : Used .triple key .encryption ((e.session sampleCalls).runFrom Machine.system).1.2 :=
      ⟨e, _, μ, Machine.system, sampleCalls, he, rfl⟩
    have hd : Used .triple key .decryption ((d.session sampleCalls).runFrom Machine.system).1.2 :=
      ⟨d, _, μ', Machine.system, sampleCalls, hd, rfl⟩
    obtain ⟨e', d', hrun⟩ := (hchain _ _ iv blocks he hd rfl (by unfold Blocks; decide)).1
    exact ⟨_, _, he, hd, e', d', hrun Machine.system⟩
  · have hs : State.Used Unit .triple key .encryption (sampleCalls.foldl State.step s) :=
      ⟨s, _, ν, sampleCalls, hs, rfl⟩
    have ht : State.Used Unit .triple key .decryption (sampleCalls.foldl State.step t) :=
      ⟨t, _, ν', sampleCalls, ht, rfl⟩
    obtain ⟨y, e', d', hencrypt, hdecrypt, -⟩ :=
      (hblock _ _ [1, 2, 3] (List.replicate 16 4) _ _ hs ht rfl (Bytes.length_zeros 16)
        (Bytes.length_zeros 16)).1
    exact ⟨_, _, hs, ht, y, e', d', hencrypt, hdecrypt⟩

end CryptoSuite.Cbc
