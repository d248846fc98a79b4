import CryptoSuite.Proofs.Cbc.Chaining

/-! Calls on a context stand alone: what one answers depends on nothing that was done before. So a block can
be decrypted by itself, and damage to a chain reaches no further than the next block. -/
namespace CryptoSuite

namespace Bytes

theorem xor_assoc (a b c : Bytes) : (a.xor b).xor c = a.xor (b.xor c) := by
  induction a generalizing b c with
  | nil => rfl
  | cons x a ih =>
    cases b with
    | nil => rfl
    | cons y b =>
      cases c with
      | nil => rfl
      | cons z c => exact List.cons_eq_cons.mpr ⟨UInt8.xor_assoc x y z, ih b c⟩

/-- What two octet strings are both masked with drops out of their difference. -/
theorem xor_masked {d a b : Bytes} (ha : a.length = d.length) (hb : b.length = d.length) :
    (d.xor a).xor (d.xor b) = a.xor b := by
  induction d generalizing a b with
  | nil =>
    rw [List.eq_nil_of_length_eq_zero ha]
    rfl
  | cons z d ih =>
    cases a with
    | nil => cases ha
    | cons x a =>
      cases b with
      | nil => cases hb
      | cons y b =>
        have hz : (z ^^^ x) ^^^ (z ^^^ y) = x ^^^ y := by
          rw [UInt8.xor_comm z x, UInt8.xor_assoc, ← UInt8.xor_assoc z z y, UInt8.xor_self, UInt8.zero_xor]
        exact List.cons_eq_cons.mpr ⟨hz, ih (Nat.succ.inj ha) (Nat.succ.inj hb)⟩

end Bytes

namespace Cbc

open BlockCipher (Direction Call Answer Context)

variable {κ : Type} {m : RoundMultiplier} {key iv : Bytes} {d : Direction}

/-- The answer of a context for direction `d` to a call for direction `wanted`, when `made` is what the cipher
makes of the input. -/
def answer (d wanted : Direction) (refusal : Rejection) (iv input out made : Bytes) : Answer :=
  if iv.length ≠ 16 then ⟨.error (.invalidArgument .block (.length .iv 16 iv.length)), out⟩
  else if input.length ≠ 16 ∨ out.length ≠ 16 then
    ⟨.error (.invalidArgument .block (.blockLengths 16 input.length out.length)), out⟩
  else if d ≠ wanted then ⟨.error (.invalidArgument .block refusal), out⟩
  else ⟨.ok (), made⟩

theorem out_of_answer_ok {wanted : Direction} {refusal : Rejection} {input out made : Bytes}
    (h : (answer d wanted refusal iv input out made).status = .ok ()) :
    (answer d wanted refusal iv input out made).out = made := by
  unfold answer at h ⊢
  split_ifs at h ⊢
  rfl

/-- The answer to a call, whatever came before it. -/
def respond (m : RoundMultiplier) (key : Bytes) (d : Direction) : Call → Answer
  | .encrypt iv input out => answer d .encryption .keyedForDecryption iv input out (encrypted m key iv input)
  | .decrypt iv input out => answer d .decryption .keyedForEncryption iv input out (decrypted m key iv input)

/-- The lengths are judged before the direction. -/
theorem runFrom_apply_answer {run : State → Bytes → Bytes → Bytes → Status × Bytes × State} {wanted : Direction}
    {refusal : Rejection} {s : State} {input out made : Bytes}
    (hrefuse : d ≠ wanted → run s iv input out = (.error (.invalidArgument .block refusal), out, s))
    (hmake : d = wanted → input.length = 16 → out.length = 16 → ∃ t, run s iv input out = (.ok (), made, t))
    (μ : Machine κ) :
    ∃ c, (Context.apply ⟨algorithm m, s⟩ (fun s iv input out => pure (run s iv input out)) iv input
        out).runFrom μ =
      (((answer d wanted refusal iv input out made).status, (answer d wanted refusal iv input out made).out, c),
        μ) := by
  unfold answer
  by_cases hiv : iv.length = 16
  · by_cases hblock : input.length = 16 ∧ out.length = 16
    · obtain ⟨hin, hout⟩ := hblock
      have hcheck : Context.checkLengths (⟨algorithm m, s⟩ : Context κ State) iv input out = .ok () := by
        simp [Context.checkLengths, algorithm, hiv, hin, hout]
      rw [if_neg (not_not.mpr hiv), if_neg (by simp [hin, hout]), Context.apply, hcheck]
      by_cases hd : d = wanted
      · obtain ⟨t, ht⟩ := hmake hd hin hout
        rw [if_neg (not_not.mpr hd)]
        exact ⟨_, by simp only [ht, Action.runFrom_bind, Action.runFrom_pure]; rfl⟩
      · rw [if_pos hd]
        exact ⟨_, by simp only [hrefuse hd, Action.runFrom_bind, Action.runFrom_pure]; rfl⟩
    · have hlengths : input.length ≠ 16 ∨ out.length ≠ 16 := by omega
      have hcheck : Context.checkLengths (⟨algorithm m, s⟩ : Context κ State) iv input out =
          .error (.invalidArgument .block (.blockLengths 16 input.length out.length)) := by
        simp [Context.checkLengths, algorithm, hiv, hlengths]
      rw [if_neg (not_not.mpr hiv), if_pos hlengths, Context.apply, hcheck]
      exact ⟨_, rfl⟩
  · have hcheck : Context.checkLengths (⟨algorithm m, s⟩ : Context κ State) iv input out =
        .error (.invalidArgument .block (.length .iv 16 iv.length)) := by
      simp [Context.checkLengths, algorithm, hiv]
    rw [if_pos hiv, Context.apply, hcheck]
    exact ⟨_, rfl⟩

namespace Ready

variable {c : Context κ State}

/-- A call is answered as if it were the only one. -/
theorem runFrom_call (h : Ready m key d c) (call : Call) (μ : Machine κ) :
    ∃ c', (c.call call).runFrom μ = ((respond m key d call, c'), μ) := by
  obtain ⟨_, s⟩ := c
  obtain ⟨rfl, hs⟩ := h
  cases call with
  | encrypt iv input out =>
    have hrefuse (hd : d ≠ .encryption) : encrypt s iv input out =
        (.error (.invalidArgument .block .keyedForDecryption), out, s) := if_pos (hs.direction_eq ▸ hd)
    have hmake (hd : d = .encryption) (hin : input.length = 16) (hout : out.length = 16) :
        ∃ t, encrypt s iv input out = (.ok (), encrypted m key iv input, t) := by
      subst hd
      obtain ⟨t, ht, -⟩ := hs.encrypt_eq iv hin hout
      exact ⟨t, ht⟩
    obtain ⟨c', hc⟩ := runFrom_apply_answer (m := m) hrefuse hmake μ
    have hrun : (Context.encrypt ⟨algorithm m, s⟩ iv input out).runFrom μ = _ := hc
    refine ⟨c', ?_⟩
    simp only [Context.call, Action.runFrom_bind, hrun, Action.runFrom_pure]
    rfl
  | decrypt iv input out =>
    have hrefuse (hd : d ≠ .decryption) : decrypt s iv input out =
        (.error (.invalidArgument .block .keyedForEncryption), out, s) := if_pos (hs.direction_eq ▸ hd)
    have hmake (hd : d = .decryption) (hin : input.length = 16) (hout : out.length = 16) :
        ∃ t, decrypt s iv input out = (.ok (), decrypted m key iv input, t) := by
      subst hd
      obtain ⟨t, ht, -⟩ := hs.decrypt_eq iv hin hout
      exact ⟨t, ht⟩
    obtain ⟨c', hc⟩ := runFrom_apply_answer (m := m) hrefuse hmake μ
    have hrun : (Context.decrypt ⟨algorithm m, s⟩ iv input out).runFrom μ = _ := hc
    refine ⟨c', ?_⟩
    simp only [Context.call, Action.runFrom_bind, hrun, Action.runFrom_pure]
    rfl

theorem answers_eq (h : Ready m key d c) (calls : List Call) (μ : Machine κ) :
    ((c.session calls).runFrom μ).1.1 = calls.map (respond m key d) := by
  induction calls generalizing c with
  | nil => rfl
  | cons call calls ih =>
    obtain ⟨c', hcall⟩ := h.runFrom_call call μ
    have hnext := h.call call μ
    rw [hcall] at hnext
    have hsession : (c.session (call :: calls)).runFrom μ = _ := Action.runFrom_bind _ _ μ
    rw [hsession, hcall, List.map_cons, ← ih hnext]
    rfl

end Ready

/-- A plaintext block comes of two ciphertext blocks next to each other. -/
theorem decryptedChain_eq_zipWith (m : RoundMultiplier) (key iv : Bytes) (blocks : List Bytes) :
    decryptedChain m key iv blocks = List.zipWith (decrypted m key) (iv :: blocks) blocks := by
  induction blocks generalizing iv with
  | nil => rfl
  | cons y rest ih =>
    rw [decryptedChain, ih, List.zipWith_cons_cons]

theorem decrypted_of_length (m : RoundMultiplier) (key : Bytes) (hiv : iv.length = 16) (y : Bytes) :
    decrypted m key iv y = Bytes.xor (Aes.decipher m key (Aes.Block.read y 0)).toList iv := by
  rw [decrypted_eq, List.drop_of_length_le (by rw [Vector.length_toList, hiv]), List.append_nil]

theorem decrypted_injective {y y' : Bytes} (hy : y.length = 16) (hy' : y'.length = 16)
    (h : decrypted m key iv y = decrypted m key iv y') : y = y' := by
  rw [← encrypted_decrypted m key iv hy, h, encrypted_decrypted m key iv hy']

theorem length_decryptedChain (m : RoundMultiplier) (key iv : Bytes) (blocks : List Bytes) :
    (decryptedChain m key iv blocks).length = blocks.length := by
  rw [decryptedChain_eq_zipWith, List.length_zipWith, List.length_cons]
  omega

/-- A plaintext block comes of its ciphertext block and the one before. -/
theorem getElem?_decryptedChain_eq_some_iff {blocks : List Bytes} {i : Nat} {x : Bytes} :
    (decryptedChain m key iv blocks)[i]? = some x ↔
      ∃ v y, (iv :: blocks)[i]? = some v ∧ blocks[i]? = some y ∧ decrypted m key v y = x := by
  rw [decryptedChain_eq_zipWith, List.getElem?_zipWith_eq_some]

/-- The call that decrypts block `i` of a chain. -/
def decryptAt (iv : Bytes) (blocks : List Bytes) (out : Bytes) (i : Nat) : Call :=
  .decrypt ((iv :: blocks).getD i []) (blocks.getD i []) out

theorem respond_decryptAt {blocks : List Bytes} {out : Bytes} {i : Nat} (hiv : iv.length = 16)
    (hblocks : Blocks blocks) (hout : out.length = 16) (hi : i < blocks.length) :
    respond m key .decryption (decryptAt iv blocks out i) =
      ⟨.ok (), (decryptedChain m key iv blocks).getD i []⟩ := by
  have hall : Blocks (iv :: blocks) := List.forall_mem_cons.mpr ⟨hiv, hblocks⟩
  obtain ⟨y, hy⟩ : ∃ y, blocks[i]? = some y := ⟨_, List.getElem?_eq_getElem hi⟩
  obtain ⟨v, hv⟩ : ∃ v, (iv :: blocks)[i]? = some v :=
    ⟨_, List.getElem?_eq_getElem (Nat.lt_succ_of_lt hi)⟩
  have hx : (decryptedChain m key iv blocks)[i]? = some (decrypted m key v y) :=
    getElem?_decryptedChain_eq_some_iff.mpr ⟨v, y, hv, hy, rfl⟩
  have hvl := hall v (List.mem_of_getElem? hv)
  have hyl := hblocks y (List.mem_of_getElem? hy)
  rw [decryptAt, List.getD_eq_getElem?_getD, List.getD_eq_getElem?_getD, List.getD_eq_getElem?_getD, hv, hy, hx]
  simp only [respond, answer, Option.getD_some, hvl, hyl, hout, ne_eq, not_true_eq_false, or_self, ↓reduceIte]

/-- The two chains have the same blocks but for block `i`. -/
def DifferAt (i : Nat) (blocks blocks' : List Bytes) : Prop :=
  blocks.length = blocks'.length ∧ blocks[i]? ≠ blocks'[i]? ∧ ∀ j, j ≠ i → blocks[j]? = blocks'[j]?

namespace DifferAt

variable {blocks blocks' : List Bytes} {i : Nat}

theorem exists_blocks (h : DifferAt i blocks blocks') :
    ∃ y y', blocks[i]? = some y ∧ blocks'[i]? = some y' ∧ y ≠ y' := by
  obtain ⟨hlength, hne, -⟩ := h
  have hi : i < blocks.length := by
    by_contra hge
    rw [not_lt] at hge
    rw [List.getElem?_eq_none hge, List.getElem?_eq_none (hlength ▸ hge)] at hne
    exact hne rfl
  have hi' : i < blocks'.length := hlength ▸ hi
  rw [List.getElem?_eq_getElem hi, List.getElem?_eq_getElem hi'] at hne
  exact ⟨_, _, List.getElem?_eq_getElem hi, List.getElem?_eq_getElem hi', fun hy => hne (congrArg some hy)⟩

/-- The vectors of a chain are its blocks, one place further. -/
theorem vector_eq (h : DifferAt i blocks blocks') (iv : Bytes) {j : Nat} (hj : j ≠ i + 1) :
    (iv :: blocks)[j]? = (iv :: blocks')[j]? := by
  cases j with
  | zero => rfl
  | succ j =>
    rw [List.getElem?_cons_succ, List.getElem?_cons_succ]
    exact h.2.2 j (by omega)

theorem plain_eq (h : DifferAt i blocks blocks') {j : Nat} (hi : j ≠ i) (hnext : j ≠ i + 1) :
    (decryptedChain m key iv blocks)[j]? = (decryptedChain m key iv blocks')[j]? := by
  rw [decryptedChain_eq_zipWith, decryptedChain_eq_zipWith, List.getElem?_zipWith', List.getElem?_zipWith',
    h.vector_eq iv hnext, h.2.2 j hi]

/-- Under one vector different blocks decrypt to different ones. -/
theorem plain_ne (h : DifferAt i blocks blocks') (hblocks : Blocks blocks) (hblocks' : Blocks blocks') :
    (decryptedChain m key iv blocks)[i]? ≠ (decryptedChain m key iv blocks')[i]? := by
  obtain ⟨y, y', hy, hy', hne⟩ := h.exists_blocks
  have hi : i < blocks.length := (List.getElem?_eq_some_iff.mp hy).1
  obtain ⟨v, hv⟩ : ∃ v, (iv :: blocks)[i]? = some v := ⟨_, List.getElem?_eq_getElem (Nat.lt_succ_of_lt hi)⟩
  have hv' : (iv :: blocks')[i]? = some v := h.vector_eq iv (Nat.ne_of_lt (Nat.lt_succ_self i)) ▸ hv
  rw [getElem?_decryptedChain_eq_some_iff.mpr ⟨v, y, hv, hy, rfl⟩,
    getElem?_decryptedChain_eq_some_iff.mpr ⟨v, y', hv', hy', rfl⟩]
  intro hx
  exact hne (decrypted_injective (hblocks y (List.mem_of_getElem? hy)) (hblocks' y' (List.mem_of_getElem? hy'))
    (Option.some.inj hx))

/-- The block behind the damage is masked with another vector. -/
theorem xor_next (h : DifferAt i blocks blocks') (hblocks : Blocks blocks) (hblocks' : Blocks blocks')
    {x x' y y' : Bytes} (hx : (decryptedChain m key iv blocks)[i + 1]? = some x)
    (hx' : (decryptedChain m key iv blocks')[i + 1]? = some x') (hy : blocks[i]? = some y)
    (hy' : blocks'[i]? = some y') : Bytes.xor x x' = Bytes.xor y y' := by
  obtain ⟨v, z, hv, hz, rfl⟩ := getElem?_decryptedChain_eq_some_iff.mp hx
  obtain ⟨v', z', hv', hz', rfl⟩ := getElem?_decryptedChain_eq_some_iff.mp hx'
  rw [List.getElem?_cons_succ, hy] at hv
  rw [List.getElem?_cons_succ, hy'] at hv'
  rw [← h.2.2 (i + 1) (by omega), hz] at hz'
  cases hv
  cases hv'
  cases hz'
  have hl := hblocks y (List.mem_of_getElem? hy)
  have hl' := hblocks' y' (List.mem_of_getElem? hy')
  rw [decrypted_of_length m key hl, decrypted_of_length m key hl']
  exact Bytes.xor_masked (by rw [hl, Vector.length_toList]) (by rw [hl', Vector.length_toList])

end DifferAt

/-- A mask on the vector comes out on the first block, the only one that the vector is used for. -/
theorem decryptedChain_mask (m : RoundMultiplier) (key : Bytes) {mask : Bytes} (hiv : iv.length = 16)
    (hmask : mask.length = 16) (blocks : List Bytes) :
    (decryptedChain m key (iv.xor mask) blocks).head? =
        (decryptedChain m key iv blocks).head?.map (Bytes.xor · mask) ∧
      (decryptedChain m key (iv.xor mask) blocks).tail = (decryptedChain m key iv blocks).tail := by
  cases blocks with
  | nil => exact ⟨rfl, rfl⟩
  | cons y rest =>
    have hl : (iv.xor mask).length = 16 := by rw [Bytes.length_xor, hiv, hmask, Nat.min_self]
    simp only [decryptedChain, List.head?_cons, List.tail_cons, Option.map_some, decrypted_of_length m key hl,
      decrypted_of_length m key hiv, Bytes.xor_assoc, and_self]

/-- Every call on a context is answered as if there had been no other, and a successful one by its vector and
its input alone. The blocks of a chain can be decrypted in any order, any number of times, on any context for
the key. If two chains differ in one block, the decrypted chains differ in that block, in the next one by the
difference of the two ciphertext blocks, and nowhere else; a mask on the vector is a mask on the first
block. -/
theorem calls_stand_alone (m : RoundMultiplier) (key : Bytes) :
    (∀ (d : Direction) (c : Context κ State), Used m key d c → ∀ (calls : List Call) (μ : Machine κ),
      ((c.session calls).runFrom μ).1.1 = calls.map (respond m key d)) ∧
    (∀ (d : Direction) (iv input out : Bytes),
      ((respond m key d (.encrypt iv input out)).status = .ok () →
        (respond m key d (.encrypt iv input out)).out = encrypted m key iv input) ∧
      ((respond m key d (.decrypt iv input out)).status = .ok () →
        (respond m key d (.decrypt iv input out)).out = decrypted m key iv input)) ∧
    (∀ (c d : Context κ State) (iv : Bytes) (blocks : List Bytes), Used m key .decryption c →
      Used m key .decryption d → iv.length = 16 → Blocks blocks →
      ∃ plain : List Bytes, plain.length = blocks.length ∧
        (∀ μ, ((c.decryptChain iv blocks).runFrom μ).1.1 = .ok plain) ∧
        ∀ (places : List Nat) (out : Bytes) (μ : Machine κ), (∀ i ∈ places, i < blocks.length) →
          out.length = 16 →
          ((d.session (places.map (decryptAt iv blocks out))).runFrom μ).1.1 =
            places.map fun i => ⟨.ok (), plain.getD i []⟩) ∧
    (∀ (c d : Context κ State) (iv : Bytes) (blocks blocks' : List Bytes) (i : Nat),
      Used m key .decryption c → Used m key .decryption d → iv.length = 16 → Blocks blocks → Blocks blocks' →
      DifferAt i blocks blocks' →
      ∃ plain plain' : List Bytes, (∀ μ, ((c.decryptChain iv blocks).runFrom μ).1.1 = .ok plain) ∧
        (∀ μ, ((d.decryptChain iv blocks').runFrom μ).1.1 = .ok plain') ∧
        plain.length = blocks.length ∧ plain'.length = blocks.length ∧ plain[i]? ≠ plain'[i]? ∧
        (∀ x x' y y' : Bytes, plain[i + 1]? = some x → plain'[i + 1]? = some x' → blocks[i]? = some y →
          blocks'[i]? = some y' → x.xor x' = y.xor y') ∧
        ∀ j, j ≠ i → j ≠ i + 1 → plain[j]? = plain'[j]?) ∧
    ∀ (c d : Context κ State) (iv mask : Bytes) (blocks : List Bytes), Used m key .decryption c →
      Used m key .decryption d → iv.length = 16 → mask.length = 16 → Blocks blocks →
      ∃ plain plain' : List Bytes, (∀ μ, ((c.decryptChain iv blocks).runFrom μ).1.1 = .ok plain) ∧
        (∀ μ, ((d.decryptChain (iv.xor mask) blocks).runFrom μ).1.1 = .ok plain') ∧
        plain'.head? = plain.head?.map (Bytes.xor · mask) ∧ plain'.tail = plain.tail := by
  have hchain {c : Context κ State} {iv : Bytes} {blocks : List Bytes} (hc : Used m key .decryption c)
      (hiv : iv.length = 16) (hblocks : Blocks blocks) (μ : Machine κ) :
      ((c.decryptChain iv blocks).runFrom μ).1.1 = .ok (decryptedChain m key iv blocks) := by
    obtain ⟨c', -, hrun⟩ := hc.ready.runFrom_decryptChain hiv hblocks
    rw [hrun]
  refine ⟨fun d c hc => hc.ready.answers_eq, ?_, ?_, ?_, ?_⟩
  · exact fun d iv input out => ⟨out_of_answer_ok, out_of_answer_ok⟩
  · intro c d iv blocks hc hd hiv hblocks
    refine ⟨_, length_decryptedChain m key iv blocks, hchain hc hiv hblocks, ?_⟩
    intro places out μ hplaces hout
    rw [hd.ready.answers_eq, List.map_map]
    exact List.map_congr_left fun i hi => respond_decryptAt hiv hblocks hout (hplaces i hi)
  · intro c d iv blocks blocks' i hc hd hiv hblocks hblocks' h
    refine ⟨_, _, hchain hc hiv hblocks, hchain hd hiv hblocks', length_decryptedChain m key iv blocks,
      (length_decryptedChain m key iv blocks').trans h.1.symm, h.plain_ne hblocks hblocks', ?_, ?_⟩
    · intro x x' y y' hx hx' hy hy'
      exact h.xor_next hblocks hblocks' hx hx' hy hy'
    · intro j hi hnext
      exact h.plain_eq hi hnext
  · intro c d iv mask blocks hc hd hiv hmask hblocks
    have hl : (iv.xor mask).length = 16 := by rw [Bytes.length_xor, hiv, hmask, Nat.min_self]
    obtain ⟨hhead, htail⟩ := decryptedChain_mask m key hiv hmask blocks
    exact ⟨_, _, hchain hc hiv hblocks, hchain hd hl hblocks, hhead, htail⟩

/-- Three blocks of which the last one is decrypted before and after the first, on a context that has also
failed; the second block damaged, and a bit of the vector flipped. -/
theorem calls_stand_alone_triple :
    let key := List.replicate 32 5
    let iv := List.replicate 16 9
    let blocks := [List.replicate 16 1, List.replicate 16 2, List.replicate 16 3]
    let damaged := [List.replicate 16 1, List.replicate 16 4, List.replicate 16 3]
    ∃ c : Context Unit State, Used .triple key .decryption c ∧
      (∃ plain, (∀ μ, ((c.decryptChain iv blocks).runFrom μ).1.1 = .ok plain) ∧
        ∀ μ, ((c.session ([2, 0, 2].map (decryptAt iv blocks (Bytes.zeros 16)))).runFrom μ).1.1 =
          [⟨.ok (), plain.getD 2 []⟩, ⟨.ok (), plain.getD 0 []⟩, ⟨.ok (), plain.getD 2 []⟩]) ∧
      (∃ plain plain', (∀ μ, ((c.decryptChain iv blocks).runFrom μ).1.1 = .ok plain) ∧
        (∀ μ, ((c.decryptChain iv damaged).runFrom μ).1.1 = .ok plain') ∧
        plain[0]? = plain'[0]? ∧ plain[1]? ≠ plain'[1]?) ∧
      ∃ plain plain' : List Bytes, (∀ μ, ((c.decryptChain iv blocks).runFrom μ).1.1 = .ok plain) ∧
        (∀ μ, ((c.decryptChain (Bytes.xor iv (1 :: Bytes.zeros 15)) blocks).runFrom μ).1.1 = .ok plain') ∧
        plain'.tail = plain.tail := by
  intro key iv blocks damaged
  have hkey : key.length = 32 := rfl
  have hblocks : Blocks blocks := by
    unfold Blocks
    decide
  have hdamaged : Blocks damaged := by
    unfold Blocks
    decide
  have hdiffer : DifferAt 1 blocks damaged := by
    refine ⟨rfl, by decide, ?_⟩
    intro j hj
    rcases j with _ | _ | _ | j
    · rfl
    · exact absurd rfl hj
    · rfl
    · rfl
  have hg : Machine.system.Grants ((demands .block (stateSizes .triple .decryption)).map Demand.size) :=
    Machine.system_grants (by decide)
  obtain ⟨c₀, μ, hc₀, -⟩ := (draws_init .triple .decryption hkey).succeeds hg
  have hc : Used .triple key .decryption ((c₀.session sampleCalls).runFrom Machine.system).1.2 :=
    ⟨c₀, _, μ, Machine.system, sampleCalls, hc₀, rfl⟩
  obtain ⟨-, -, hplaces, hdamage, hmask⟩ := calls_stand_alone (κ := Unit) .triple key
  refine ⟨_, hc, ?_, ?_, ?_⟩
  · obtain ⟨plain, -, hplain, hany⟩ := hplaces _ _ iv blocks hc hc rfl hblocks
    exact ⟨plain, hplain, fun μ => hany [2, 0, 2] (Bytes.zeros 16) μ (by decide) (Bytes.length_zeros 16)⟩
  · obtain ⟨plain, plain', hplain, hplain', -, -, hne, -, hsame⟩ :=
      hdamage _ _ iv blocks damaged 1 hc hc rfl hblocks hdamaged hdiffer
    exact ⟨plain, plain', hplain, hplain', hsame 0 (by decide) (by decide), hne⟩
  · obtain ⟨plain, plain', hplain, hplain', -, htail⟩ :=
      hmask _ _ iv (1 :: Bytes.zeros 15) blocks hc hc rfl rfl hblocks
    exact ⟨plain, plain', hplain, hplain', htail⟩

end Cbc

end CryptoSuite
