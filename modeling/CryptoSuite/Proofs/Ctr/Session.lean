import CryptoSuite.Proofs.Ctr.Operations
import CryptoSuite.Proofs.StreamCipher.Call

/-! Whole sessions on a counter-mode context. The answers are those of an ideal stream that knows
only the nonce and the position last moved to, and how many bytes went through since. -/
namespace CryptoSuite.Ctr

open Aes (Block encipher)
open StreamCipher (Cursor Call Answer Context)

/-- A stream under a nonce: the position that it was begun or resumed at, and how many bytes it
has processed since. -/
structure Place where
  nonce : Bytes
  start : Nat
  processed : Nat
  deriving DecidableEq, Repr

def Place.position (p : Place) : Nat := p.start + p.processed

/-- The place after a call, as its outcome shows it. A call that fails moves nothing. -/
def follow (place : Option Place) (call : Call) (answer : Answer) : Option Place :=
  match answer.status, call with
  | .error _, _ => place
  | .ok _, .startEncryption iv _ => some ⟨iv, 0, 0⟩
  | .ok _, .startDecryption input _ => some ⟨input.take nonceSize, 0, 0⟩
  | .ok _, .continueEncryption iv position => some ⟨iv, position.toNat, 0⟩
  | .ok _, .continueDecryption iv position => some ⟨iv, position.toNat, 0⟩
  | .ok _, .encrypt input _ => place.map fun p => { p with processed := p.processed + input.length }
  | .ok _, .decrypt input _ => place.map fun p => { p with processed := p.processed + input.length }

/-- The two directions of a stream move alike. -/
theorem follow_decrypt (place : Option Place) (input : Bytes) (out : Cursor) (answer : Answer) :
    follow place (.decrypt input out) answer = follow place (.encrypt input out) answer := by
  unfold follow
  cases answer.status <;> rfl

theorem follow_continueDecryption (place : Option Place) (iv : Bytes) (target : UInt64)
    (answer : Answer) :
    follow place (.continueDecryption iv target) answer =
      follow place (.continueEncryption iv target) answer := by
  unfold follow
  cases answer.status <;> rfl

/-- The place that the caller of a session knows from its answers. -/
def placeAfter (calls : List Call) (answers : List Answer) : Option Place :=
  Session.known follow none calls answers

namespace Ideal

variable (m : RoundMultiplier) (key : Bytes)

def process (place : Option Place) (input : Bytes) (out : Cursor) : Answer :=
  match place with
  | none => ⟨.error (.invalidArgument .stream .notStarted), out⟩
  | some p =>
    if out.offset + input.length ≤ out.output.length then
      ⟨.ok (), ⟨out.output.overwrite out.offset (mask m key p.nonce p.position input),
        out.offset + input.length⟩⟩
    else
      ⟨.error (.invalidArgument .stream
        (.outputOverflow out.output.length input.length out.offset)), out⟩

def resume (iv : Bytes) : Status :=
  if iv.length = nonceSize then .ok ()
  else .error (.invalidArgument .stream (.length .iv nonceSize iv.length))

/-- The answer of a stream that is at `place`. -/
def respond (place : Option Place) : Call → Answer
  | .startEncryption iv out =>
    if out.output.length < nonceSize then ⟨.error (.invalidArgument .stream .outputBelowIv), out⟩
    else if iv.length = nonceSize then ⟨.ok (), ⟨out.output.overwrite 0 iv, nonceSize⟩⟩
    else ⟨.error (.invalidArgument .stream (.length .iv nonceSize iv.length)), out⟩
  | .startDecryption input offset =>
    if input.length < nonceSize then
      ⟨.error (.invalidArgument .stream .inputBelowIv), ⟨[], offset⟩⟩
    else ⟨.ok (), ⟨[], nonceSize⟩⟩
  | .continueEncryption iv _ => ⟨resume iv, ⟨[], 0⟩⟩
  | .continueDecryption iv _ => ⟨resume iv, ⟨[], 0⟩⟩
  | .encrypt input out => process m key place input out
  | .decrypt input out => process m key place input out

def step (place : Option Place) (call : Call) : Answer × Option Place :=
  (respond m key place call, follow place call (respond m key place call))

end Ideal

/-- A state that stands where the caller knows it to stand. -/
structure At (m : RoundMultiplier) (key : Bytes) (place : Option Place) (s : State) : Prop where
  keyed : Keyed m key s
  idle : place = none → s.started = false
  follows : ∀ p, place = some p →
    p.nonce.length = nonceSize ∧ Follows m key p.nonce p.position s

variable {κ : Type} {m : RoundMultiplier} {key : Bytes} {place : Option Place} {s : State}

theorem Follows.at {p : Place} (h : Follows m key p.nonce p.position s)
    (hl : p.nonce.length = nonceSize) : At m key (some p) s where
  keyed := h.toKeyed
  idle := nofun
  follows := by
    rintro _ ⟨⟩
    exact ⟨hl, h⟩

namespace At

theorem apply_eq (h : At m key place s) (input : Bytes) (out : Cursor) :
    ∃ t, apply s input out = ((Ideal.process m key place input out).status,
        (Ideal.process m key place input out).out, t) ∧
      At m key (follow place (.encrypt input out) (Ideal.process m key place input out)) t := by
  cases place with
  | none => exact ⟨s, apply_not_started (h.idle rfl), h⟩
  | some p =>
    obtain ⟨hl, hf⟩ := h.follows p rfl
    by_cases hfit : out.offset + input.length ≤ out.output.length
    · obtain ⟨t, ht, hg⟩ := hf.apply_eq hfit
      refine ⟨t, by simp only [ht, Ideal.process, hfit, ↓reduceIte], ?_⟩
      simp only [Ideal.process, hfit, ↓reduceIte, follow, Option.map_some]
      refine Follows.at ?_ hl
      rwa [Place.position, ← Nat.add_assoc]
    · have ho : out.output.length < out.offset + input.length := by omega
      refine ⟨s, by simp only [apply_overflow hf.started ho, Ideal.process, hfit, ↓reduceIte], ?_⟩
      simpa only [Ideal.process, hfit, ↓reduceIte, follow] using h

theorem resume_eq (h : At m key place s) (iv : Bytes) (target : UInt64) :
    ∃ t, resume s iv target = (Ideal.resume iv, t) ∧
      At m key (follow place (.continueEncryption iv target) ⟨Ideal.resume iv, ⟨[], 0⟩⟩) t := by
  by_cases hl : iv.length = nonceSize
  · obtain ⟨t, ht, hf⟩ := h.keyed.resume_eq hl target
    refine ⟨t, by simp only [ht, Ideal.resume, hl, ↓reduceIte], ?_⟩
    simp only [Ideal.resume, hl, ↓reduceIte, follow]
    exact Follows.at hf hl
  · refine ⟨s, by simp only [resume_length hl, Ideal.resume, hl, ↓reduceIte], ?_⟩
    simpa only [Ideal.resume, hl, ↓reduceIte, follow] using h

theorem startEncryption_eq (h : At m key place s) (iv : Bytes) (out : Cursor) :
    ∃ t, startEncryption s iv out = ((Ideal.respond m key place (.startEncryption iv out)).status,
        (Ideal.respond m key place (.startEncryption iv out)).out, t) ∧
      At m key (follow place (.startEncryption iv out)
        (Ideal.respond m key place (.startEncryption iv out))) t := by
  by_cases ho : out.output.length < nonceSize
  · refine ⟨s, by simp only [startEncryption, ho, Ideal.respond, ↓reduceIte], ?_⟩
    simpa only [Ideal.respond, ho, ↓reduceIte, follow] using h
  by_cases hl : iv.length = nonceSize
  · obtain ⟨t, ht, hf⟩ := h.keyed.startEncryption_eq hl (Nat.le_of_not_lt ho)
    refine ⟨t, by simp only [ht, Ideal.respond, ho, hl, ↓reduceIte], ?_⟩
    simp only [Ideal.respond, ho, hl, ↓reduceIte, follow]
    exact Follows.at hf hl
  · refine ⟨s, ?_, ?_⟩
    · simp only [startEncryption, State.loadNonce, ho, hl, Ideal.respond, ↓reduceIte, ne_eq,
        not_false_eq_true]
    · simpa only [Ideal.respond, ho, hl, ↓reduceIte, follow] using h

theorem startDecryption_eq (h : At m key place s) (input : Bytes) (offset : Nat) :
    ∃ t, startDecryption s input offset =
        ((Ideal.respond m key place (.startDecryption input offset)).status,
          (Ideal.respond m key place (.startDecryption input offset)).out.offset, t) ∧
      At m key (follow place (.startDecryption input offset)
        (Ideal.respond m key place (.startDecryption input offset))) t := by
  by_cases hi : input.length < nonceSize
  · refine ⟨s, by simp only [startDecryption, hi, Ideal.respond, ↓reduceIte], ?_⟩
    simpa only [Ideal.respond, hi, ↓reduceIte, follow] using h
  · obtain ⟨t, ht, hf⟩ := h.keyed.startDecryption_eq (Nat.le_of_not_lt hi)
    refine ⟨t, by rw [ht]; simp only [Ideal.respond, hi, ↓reduceIte], ?_⟩
    simp only [Ideal.respond, hi, ↓reduceIte, follow]
    exact Follows.at hf (List.length_take_of_le (Nat.le_of_not_lt hi))

end At

def ContextAt (m : RoundMultiplier) (key : Bytes) (place : Option Place) (c : Context κ State) :
    Prop :=
  c.algorithm = algorithm m ∧ At m key place c.state

/-- A context answers every call as the ideal stream does. -/
theorem simulates_ideal (m : RoundMultiplier) (key : Bytes) :
    Session.Simulates (fun _ => True) (Ideal.step m key) (Context.call (κ := κ))
      (ContextAt m key) := by
  rintro place ⟨_, s⟩ call μ - ⟨rfl, h⟩
  cases call with
  | startEncryption iv out =>
    obtain ⟨t, ht, hat⟩ := h.startEncryption_eq iv out
    refine ⟨⟨algorithm m, t⟩, ?_, rfl, hat⟩
    simp [Context.call, Context.startEncryption, algorithm, ht, Ideal.step]
  | startDecryption input offset =>
    obtain ⟨t, ht, hat⟩ := h.startDecryption_eq input offset
    refine ⟨⟨algorithm m, t⟩, ?_, rfl, hat⟩
    by_cases hi : input.length < nonceSize <;>
      simp [Context.call, Context.startDecryption, algorithm, ht, Ideal.step, Ideal.respond, hi]
  | continueEncryption iv target =>
    obtain ⟨t, ht, hat⟩ := h.resume_eq iv target
    refine ⟨⟨algorithm m, t⟩, ?_, rfl, hat⟩
    simp [Context.call, Context.continueEncryption, algorithm, ht, Ideal.step, Ideal.respond]
  | continueDecryption iv target =>
    obtain ⟨t, ht, hat⟩ := h.resume_eq iv target
    rw [← follow_continueDecryption] at hat
    refine ⟨⟨algorithm m, t⟩, ?_, rfl, hat⟩
    simp [Context.call, Context.continueDecryption, algorithm, ht, Ideal.step, Ideal.respond]
  | encrypt input out =>
    obtain ⟨t, ht, hat⟩ := h.apply_eq input out
    refine ⟨⟨algorithm m, t⟩, ?_, rfl, hat⟩
    simp [Context.call, Context.encrypt, algorithm, ht, Ideal.step, Ideal.respond]
  | decrypt input out =>
    obtain ⟨t, ht, hat⟩ := h.apply_eq input out
    rw [← follow_decrypt] at hat
    refine ⟨⟨algorithm m, t⟩, ?_, rfl, hat⟩
    simp [Context.call, Context.decrypt, algorithm, ht, Ideal.step, Ideal.respond]

theorem of_runFrom_create {μ ν : Machine κ} (h : (create m key).runFrom μ = (.ok s, ν)) :
    Keyed m key s ∧ s.started = false := by
  by_cases hl : key.length = 32
  · simp only [create, hl, ne_eq, not_true_eq_false, ↓reduceIte] at h
    obtain ⟨schedule, ξ, hk, h⟩ := Fallible.of_runFrom_bind h
    obtain ⟨blocks, hb, rfl⟩ := Fallible.of_runFrom_bind_pure h
    obtain ⟨rfl, -⟩ := Buffer.of_runFrom_newFor (Fallible.of_runFrom_releasing hb)
    refine ⟨⟨?_, ?_⟩, rfl⟩
    · exact AesKey.encryptBlock_of_runFrom_encryption (Fallible.of_runFrom_adapt hk)
    · exact Bytes.length_zeros 32
  · simp [create, hl] at h

theorem of_runFrom_init {μ ν : Machine κ} {c : Context κ State}
    (h : ((algorithm m).init key).runFrom μ = (.ok c, ν)) : ContextAt m key none c := by
  obtain ⟨s, hs, rfl⟩ := StreamCipher.Algorithm.of_runFrom_init h
  obtain ⟨hk, hidle⟩ := of_runFrom_create hs
  exact ⟨rfl, hk, fun _ => hidle, nofun⟩

theorem runFrom_create_served {μ : Machine κ} {rounds : Nat} (hl : key.length = 32)
    (hr : m.rounds? 32 = some rounds) (h : μ.Grants [16 * (rounds + 1), 32]) :
    ∃ s ν, (create m key).runFrom μ = (.ok s, ν) := by
  have hk := AesKey.runFrom_encryption_served (hl ▸ hr) h.head
  have hb := Buffer.runFrom_newFor_served .stream (by decide) h.tail.head
  simp only [create, hl, ne_eq, not_true_eq_false, ↓reduceIte]
  rw [Fallible.runFrom_bind_ok (Fallible.runFrom_adapt_ok hk),
    Fallible.runFrom_bind_ok (Fallible.runFrom_releasing_ok hb), Fallible.runFrom_pure]
  exact ⟨_, _, rfl⟩

theorem runFrom_init_served {μ : Machine κ} {rounds : Nat} (hl : key.length = 32)
    (hr : m.rounds? 32 = some rounds) (h : μ.Grants [16 * (rounds + 1), 32]) :
    ∃ c ν, ((algorithm m).init key).runFrom μ = (.ok c, ν) := by
  obtain ⟨s, ν, hs⟩ := runFrom_create_served hl hr h
  exact ⟨⟨algorithm m, s⟩, ν, StreamCipher.Algorithm.runFrom_init hs⟩

/-- A context under `key` after some session, in which its caller saw it move to `p`. -/
def Reached (m : RoundMultiplier) (key : Bytes) (p : Place) (c : Context κ State) : Prop :=
  ∃ (c₀ : Context κ State) (μ₀ μ₁ μ₂ μ₃ : Machine κ) (calls : List Call) (answers : List Answer),
    ((algorithm m).init key).runFrom μ₀ = (.ok c₀, μ₁) ∧
      (c₀.session calls).runFrom μ₂ = ((answers, c), μ₃) ∧ placeAfter calls answers = some p

theorem Reached.contextAt {p : Place} {c : Context κ State} (h : Reached m key p c) :
    ContextAt m key (some p) c := by
  obtain ⟨c₀, μ₀, μ₁, μ₂, μ₃, calls, answers, hinit, hrun, hp⟩ := h
  rw [← hp]
  exact (simulates_ideal m key).known_of_run (fun _ _ => trivial) (of_runFrom_init hinit) hrun

/-- A context that was seen to move to `p` answers a call as the ideal stream at `p` does. -/
theorem Reached.call_eq {p : Place} {c : Context κ State} (h : Reached m key p c) (call : Call)
    (μ : Machine κ) : ((c.call call).runFrom μ).1.1 = Ideal.respond m key (some p) call := by
  obtain ⟨t, ht, -⟩ := simulates_ideal m key (some p) c call μ trivial h.contextAt
  rw [ht]
  rfl

theorem Reached.session_eq {p : Place} {c : Context κ State} (h : Reached m key p c)
    (calls : List Call) (μ : Machine κ) :
    ((c.session calls).runFrom μ).1.1 = (Session.trace (Ideal.step m key) (some p) calls).1 := by
  obtain ⟨t, ht, -⟩ := (simulates_ideal m key).run_eq calls (fun _ _ => trivial) h.contextAt μ
  rw [Context.session, ht]

/-- Places at one position of one keystream, however they were reached. -/
def SamePosition (a b : Option Place) : Prop :=
  a.map (fun p => (p.nonce, p.position)) = b.map fun p => (p.nonce, p.position)

theorem SamePosition.process_eq {a b : Option Place} (h : SamePosition a b) (input : Bytes)
    (out : Cursor) : Ideal.process m key a input out = Ideal.process m key b input out := by
  rcases a with _ | p <;> rcases b with _ | q <;> simp [SamePosition] at h
  · rfl
  · simp only [Ideal.process, h.1, h.2]

theorem SamePosition.follow {a b : Option Place} (h : SamePosition a b) (call : Call)
    (answer : Answer) : SamePosition (follow a call answer) (follow b call answer) := by
  unfold Ctr.follow
  cases answer.status with
  | error e => exact h
  | ok _ =>
    rcases a with _ | p <;> rcases b with _ | q <;> simp [SamePosition] at h <;>
      cases call <;> simp [SamePosition, Place.position, h] at h ⊢ <;> omega

theorem SamePosition.step {a b : Option Place} (h : SamePosition a b) (call : Call) :
    (Ideal.step m key a call).1 = (Ideal.step m key b call).1 ∧
      SamePosition (Ideal.step m key a call).2 (Ideal.step m key b call).2 := by
  have hr : Ideal.respond m key a call = Ideal.respond m key b call := by
    cases call with
    | encrypt input out => exact h.process_eq input out
    | decrypt input out => exact h.process_eq input out
    | _ => rfl
  exact ⟨hr, by simpa only [Ideal.step, hr] using h.follow call _⟩

/-- The counter blocks that are written out as nonce and number reach 2^68 bytes. -/
theorem keystream_eq {nonce : Bytes} {n : Nat} (hl : nonce.length = nonceSize)
    (hn : n < 2 ^ 68) :
    keystream m key nonce n =
      (encipher m key (Block.read (nonce ++ Bytes.ofUInt64 (UInt64.ofNat (n / 16))) 0)).get
        ⟨n % 16, Nat.mod_lt n (by decide)⟩ := by
  have hb : n / 16 < 2 ^ 64 := by omega
  rw [keystream, counterBlock_eq_append hl hb]

/-- After any session an input that fits is masked with the cipher of the nonce and the 64-bit number
of each block, counted from where the stream was last moved to, and nothing else of the output
changes. Streams that stand at one position answer alike from there on, however they came to it. -/
theorem keystream_after_session {p : Place} {c : Context κ State} (h : Reached m key p c) :
    (∀ (input : Bytes) (out : Cursor) (call : Call) (μ : Machine κ), call.Processes input out →
      let answer := ((c.call call).runFrom μ).1.1
      (answer.status = .ok () ↔ out.offset + input.length ≤ out.output.length) ∧
      (answer.status = .ok () →
        answer.out.offset = out.offset + input.length ∧
        answer.out.output.length = out.output.length ∧
        (∀ j, j < out.offset ∨ out.offset + input.length ≤ j →
          answer.out.output[j]? = out.output[j]?) ∧
        (p.start + p.processed + input.length ≤ 2 ^ 68 → ∀ i (hi : i < input.length),
          answer.out.output[out.offset + i]? = some (input[i] ^^^
            (encipher m key (Block.read (p.nonce ++ Bytes.ofUInt64
              (UInt64.ofNat ((p.start + p.processed + i) / 16))) 0)).get
              ⟨(p.start + p.processed + i) % 16, Nat.mod_lt _ (by decide)⟩)))) ∧
    ∀ (p' : Place) (c' : Context κ State), Reached m key p' c' → p'.nonce = p.nonce →
      p'.start + p'.processed = p.start + p.processed → ∀ (calls : List Call) (μ : Machine κ),
        ((c'.session calls).runFrom μ).1.1 = ((c.session calls).runFrom μ).1.1 := by
  constructor
  · intro input out call μ hcall
    have ha : ((c.call call).runFrom μ).1.1 = Ideal.process m key (some p) input out := by
      rw [h.call_eq]
      rcases hcall with rfl | rfl <;> rfl
    rw [ha]
    by_cases hfit : out.offset + input.length ≤ out.output.length
    · have hm : out.offset + (mask m key p.nonce p.position input).length ≤ out.output.length := by
        rwa [length_mask]
      simp only [Ideal.process, hfit, ↓reduceIte, forall_const]
      refine ⟨trivial, trivial, Bytes.length_overwrite hm, ?_, ?_⟩
      · intro j hj
        rw [Bytes.getElem?_overwrite hm, length_mask]
        split_ifs <;> first | rfl | omega
      · intro hbound i hi
        have hl := (h.contextAt.2.follows p rfl).1
        rw [Bytes.getElem?_overwrite hm, length_mask, if_neg (by omega), if_pos (by omega),
          Nat.add_sub_cancel_left, getElem?_mask, List.getElem?_eq_getElem hi, Option.map_some,
          keystream_eq hl (by simp only [Place.position]; omega)]
        rfl
    · simp [Ideal.process, hfit]
  · intro p' c' h' hn hp calls μ
    rw [h'.session_eq, h.session_eq]
    refine (Session.trace_related (fun p q call _ (he : SamePosition q p) => he.step call) calls
      (fun _ _ => trivial) ?_).1
    simp only [SamePosition, Option.map_some, hn, Place.position, hp]

/-- After failed calls, another stream and a seek into the middle of a block, the next bytes are
masked with the third block of the stream. -/
theorem keystream_after_seek :
    ∃ c : Context Unit State, Reached .double (Bytes.zeros 32) ⟨[1, 2, 3, 4, 5, 6, 7, 8], 31, 3⟩ c ∧
      ((c.call (.decrypt [9] ⟨[0, 0, 0], 1⟩)).runFrom Machine.system).1.1.out.output[1]? =
        some (9 ^^^ (encipher .double (Bytes.zeros 32)
          (Block.read ([1, 2, 3, 4, 5, 6, 7, 8] ++ Bytes.ofUInt64 2) 0)).get 2) := by
  let calls : List Call := [.encrypt [1] ⟨[0], 0⟩, .startEncryption (Bytes.zeros 8) ⟨Bytes.zeros 9, 3⟩,
    .encrypt [1, 2] ⟨Bytes.zeros 4, 1⟩, .continueDecryption [1, 2, 3, 4, 5, 6, 7, 8] 31,
    .continueEncryption [0] 5, .decrypt [1, 2, 3] ⟨Bytes.zeros 3, 0⟩, .encrypt [1] ⟨[], 0⟩]
  obtain ⟨c₀, ν, hinit⟩ := runFrom_init_served (m := .double) (Bytes.length_zeros 32) rfl
    (Machine.system_grants (by decide))
  obtain ⟨c, hrun, -⟩ := (simulates_ideal .double (Bytes.zeros 32)).run_eq calls
    (fun _ _ => trivial) (of_runFrom_init hinit) Machine.system
  have h : Reached .double (Bytes.zeros 32) ⟨[1, 2, 3, 4, 5, 6, 7, 8], 31, 3⟩ c :=
    ⟨c₀, _, ν, _, _, calls, _, hinit, hrun, rfl⟩
  obtain ⟨hiff, hok⟩ :=
    (keystream_after_session h).1 [9] ⟨[0, 0, 0], 1⟩ _ Machine.system (.inr rfl)
  obtain ⟨-, -, -, hbyte⟩ := hok (hiff.mpr (by decide))
  exact ⟨c, h, hbyte (by decide) 0 (by decide)⟩

end CryptoSuite.Ctr
