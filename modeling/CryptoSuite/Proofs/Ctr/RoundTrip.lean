import CryptoSuite.Proofs.Ctr.Session

/-! Messages between two contexts under one key. Each side cuts what it processes as it likes, and
the receiver may begin anywhere: what arrives is what was sent, since both sides mask a byte with the
keystream at its position. -/
namespace CryptoSuite.Ctr

open StreamCipher (Cursor Call Answer Context)

variable {κ : Type} {m : RoundMultiplier} {key : Bytes}

/-- A context under `key` after any session. -/
def Used (m : RoundMultiplier) (key : Bytes) (c : Context κ State) : Prop :=
  ∃ (c₀ : Context κ State) (μ₀ μ₁ μ₂ μ₃ : Machine κ) (calls : List Call) (answers : List Answer),
    ((algorithm m).init key).runFrom μ₀ = (.ok c₀, μ₁) ∧
      (c₀.session calls).runFrom μ₂ = ((answers, c), μ₃)

theorem Used.contextAt {c : Context κ State} (h : Used m key c) : ∃ place, ContextAt m key place c := by
  obtain ⟨c₀, μ₀, μ₁, μ₂, μ₃, calls, answers, hinit, hrun⟩ := h
  exact ⟨placeAfter calls answers,
    (simulates_ideal m key).known_of_run (fun _ _ => trivial) (of_runFrom_init hinit) hrun⟩

theorem used_of_runFrom_init {μ ν : Machine κ} {c : Context κ State}
    (h : ((algorithm m).init key).runFrom μ = (.ok c, ν)) : Used m key c :=
  ⟨c, μ, ν, ν, ν, [], [], h, rfl⟩

namespace ContextAt

variable {place : Option Place} {c : Context κ State}

/-- The answer to a call, and what the context stands for afterwards. -/
theorem runFrom_call (h : ContextAt m key place c) (call : Call) (μ : Machine κ) :
    ∃ d, (c.call call).runFrom μ = ((Ideal.respond m key place call, d), μ) ∧
      ContextAt m key (follow place call (Ideal.respond m key place call)) d :=
  simulates_ideal m key place c call μ trivial h

/-- A piece that fits is masked in place, whatever the direction. -/
theorem runFrom_process {p : Place} (h : ContextAt m key (some p) c) {input : Bytes} {out : Cursor}
    {call : Call} (hcall : call.Processes input out)
    (hfit : out.offset + input.length ≤ out.output.length) (μ : Machine κ) :
    ∃ d, (c.call call).runFrom μ =
        ((⟨.ok (), ⟨out.output.overwrite out.offset (mask m key p.nonce p.position input),
          out.offset + input.length⟩⟩, d), μ) ∧
      ContextAt m key (some { p with processed := p.processed + input.length }) d := by
  have hprocess : Ideal.process m key (some p) input out =
      ⟨.ok (), ⟨out.output.overwrite out.offset (mask m key p.nonce p.position input),
        out.offset + input.length⟩⟩ := by
    simp only [Ideal.process, hfit, ↓reduceIte]
  have hrespond : Ideal.respond m key (some p) call = Ideal.process m key (some p) input out := by
    rcases hcall with rfl | rfl <;> rfl
  obtain ⟨d, hd, hat⟩ := h.runFrom_call call μ
  rw [hrespond, hprocess] at hd hat
  refine ⟨d, hd, ?_⟩
  rcases hcall with rfl | rfl <;> exact hat

/-- However an input is cut, its pieces are masked as one: each piece begins where the one before it
ended, in the output as in the keystream. -/
theorem runFrom_feed (direction : Bytes → Cursor → Call)
    (hdir : ∀ input out, (direction input out).Processes input out) (pieces : List Bytes) {p : Place}
    (h : ContextAt m key (some p) c) (out : Cursor)
    (hfit : out.offset + pieces.flatten.length ≤ out.output.length) (μ : Machine κ) :
    ((c.feed direction pieces out).runFrom μ).1.1 =
      ⟨.ok (), ⟨out.output.overwrite out.offset (mask m key p.nonce p.position pieces.flatten),
        out.offset + pieces.flatten.length⟩⟩ := by
  induction pieces generalizing c p out with
  | nil => simp [Context.feed, mask]
  | cons piece pieces ih =>
    rw [List.flatten_cons, List.length_append] at hfit
    obtain ⟨d, hd, hat⟩ := h.runFrom_process (hdir piece out) (by omega) μ
    have hlength : (out.output.overwrite out.offset (mask m key p.nonce p.position piece)).length =
        out.output.length := Bytes.length_overwrite (by rw [length_mask]; omega)
    have hrest := ih hat ⟨out.output.overwrite out.offset (mask m key p.nonce p.position piece),
      out.offset + piece.length⟩ (by
        dsimp only
        omega)
    rw [Context.feed, Action.runFrom_bind, hd]
    dsimp only
    rw [hrest]
    have hposition : Place.position { p with processed := p.processed + piece.length } =
        p.position + piece.length := (Nat.add_assoc _ _ _).symm
    rw [hposition, Bytes.overwrite_overwrite (by omega) (by rw [length_mask]), ← mask_append,
      List.flatten_cons, List.length_append, Nat.add_assoc]

theorem runFrom_send {iv : Bytes} (hiv : iv.length = nonceSize) (h : ContextAt m key place c)
    (pieces : List Bytes) {out : Cursor}
    (hout : out.output.length = nonceSize + pieces.flatten.length) (μ : Machine κ) :
    ((c.send iv pieces out).runFrom μ).1.1 =
      ⟨.ok (), ⟨iv ++ mask m key iv 0 pieces.flatten, nonceSize + pieces.flatten.length⟩⟩ := by
  have hroom : ¬out.output.length < nonceSize := by omega
  obtain ⟨d, hd, hat⟩ := h.runFrom_call (.startEncryption iv out) μ
  simp only [Ideal.respond, hroom, hiv, ↓reduceIte, follow] at hd hat
  have hlength : (out.output.overwrite 0 iv).length = out.output.length :=
    Bytes.length_overwrite (by omega)
  have hfeed := hat.runFrom_feed .encrypt (fun _ _ => .inl rfl) pieces
    ⟨out.output.overwrite 0 iv, nonceSize⟩ (by rw [hlength, hout]) μ
  rw [Context.send, Action.runFrom_bind, hd]
  dsimp only
  rw [hfeed]
  have hwritten : (out.output.overwrite 0 iv).overwrite nonceSize (mask m key iv 0 pieces.flatten) =
      iv ++ mask m key iv 0 pieces.flatten := by
    rw [Bytes.overwrite_overwrite (Nat.zero_le _) (by omega), Bytes.overwrite_zero,
      List.drop_eq_nil_of_le (by simp [hiv, hout]), List.append_nil]
  exact congrArg (fun output => (⟨.ok (), ⟨output, _⟩⟩ : Answer)) hwritten

end ContextAt

/-- One ciphertext for all: whatever was done on the contexts before and however each side cuts its
input, a sender writes the vector and that ciphertext, and a receiver gets the message back, from the
front or from any byte of it on. Contexts are there for every key of 32 bytes, given memory. -/
theorem messages_round_trip (m : RoundMultiplier) (key : Bytes) {iv : Bytes}
    (hiv : iv.length = nonceSize) (message : Bytes) :
    (key.length = 32 → ∀ μ : Machine κ, μ.Grants [16 * (14 * m.factor + 1), 32] →
      ∃ c ν, ((algorithm m).init key).runFrom μ = (.ok c, ν) ∧ Used m key c) ∧
    ∃ body : Bytes, body.length = message.length ∧
      (∀ sender : Context κ State, Used m key sender → ∀ (pieces : List Bytes) (out : Cursor)
        (μ : Machine κ), pieces.flatten = message →
        out.output.length = nonceSize + message.length →
        ((sender.send iv pieces out).runFrom μ).1.1 =
          ⟨.ok (), ⟨iv ++ body, nonceSize + message.length⟩⟩) ∧
      ∀ receiver : Context κ State, Used m key receiver → ∀ μ : Machine κ,
        (∀ offset, ∃ begun : Context κ State,
          (receiver.call (.startDecryption (iv ++ body) offset)).runFrom μ =
            ((⟨.ok (), ⟨[], nonceSize⟩⟩, begun), μ) ∧
          ∀ (pieces : List Bytes) (out : Cursor) (ν : Machine κ),
            pieces.flatten = (iv ++ body).drop nonceSize →
            out.offset + message.length ≤ out.output.length →
            ((begun.feed .decrypt pieces out).runFrom ν).1.1 =
              ⟨.ok (), ⟨out.output.overwrite out.offset message, out.offset + message.length⟩⟩) ∧
        ∀ (i : UInt64) (j : Nat), i.toNat ≤ j → j ≤ message.length → ∃ begun : Context κ State,
          (receiver.call (.continueDecryption iv i)).runFrom μ = ((⟨.ok (), ⟨[], 0⟩⟩, begun), μ) ∧
          ∀ (pieces : List Bytes) (out : Cursor) (ν : Machine κ),
            pieces.flatten = (body.take j).drop i.toNat →
            out.offset + (j - i.toNat) ≤ out.output.length →
            ((begun.feed .decrypt pieces out).runFrom ν).1.1 =
              ⟨.ok (), ⟨out.output.overwrite out.offset ((message.take j).drop i.toNat),
                out.offset + (j - i.toNat)⟩⟩ := by
  refine ⟨?_, mask m key iv 0 message, length_mask message, ?_, ?_⟩
  · intro hkey μ hmemory
    obtain ⟨c, ν, hinit⟩ := runFrom_init_served hkey rfl hmemory
    exact ⟨c, ν, hinit, used_of_runFrom_init hinit⟩
  · rintro sender hused pieces out μ rfl hout
    obtain ⟨place, hat⟩ := hused.contextAt
    exact hat.runFrom_send hiv pieces hout μ
  · intro receiver hused μ
    obtain ⟨place, hat⟩ := hused.contextAt
    have hbody : (iv ++ mask m key iv 0 message).drop nonceSize = mask m key iv 0 message :=
      List.drop_left' hiv
    constructor
    · intro offset
      obtain ⟨begun, hbegun, hat⟩ :=
        hat.runFrom_call (.startDecryption (iv ++ mask m key iv 0 message) offset) μ
      have hroom : ¬(iv ++ mask m key iv 0 message).length < nonceSize := by simp [hiv]
      have hnonce : (iv ++ mask m key iv 0 message).take nonceSize = iv := List.take_left' hiv
      simp only [Ideal.respond, hroom, ↓reduceIte, follow, hnonce] at hbegun hat
      refine ⟨begun, hbegun, fun pieces out ν hpieces hfit => ?_⟩
      rw [hbody] at hpieces
      rw [hat.runFrom_feed .decrypt (fun _ _ => .inr rfl) pieces out
        (by rwa [hpieces, length_mask]) ν, hpieces, length_mask]
      exact congrArg (fun b => (⟨.ok (), ⟨out.output.overwrite out.offset b, _⟩⟩ : Answer))
        (mask_mask message)
    · intro i j hij hj
      obtain ⟨begun, hbegun, hat⟩ := hat.runFrom_call (.continueDecryption iv i) μ
      simp only [Ideal.respond, Ideal.resume, hiv, ↓reduceIte, follow] at hbegun hat
      refine ⟨begun, hbegun, fun pieces out ν hpieces hfit => ?_⟩
      have hmask : pieces.flatten = mask m key iv i.toNat ((message.take j).drop i.toNat) := by
        rw [hpieces, take_mask, drop_mask, Nat.zero_add]
      have hlength : pieces.flatten.length = j - i.toNat := by
        rw [hmask, length_mask, List.length_drop, List.length_take_of_le hj]
      rw [hat.runFrom_feed .decrypt (fun _ _ => .inr rfl) pieces out (by rwa [hlength]) ν, hlength,
        hmask]
      exact congrArg (fun b => (⟨.ok (), ⟨out.output.overwrite out.offset b, _⟩⟩ : Answer))
        (mask_mask _)

/-- A message of two blocks and a half is sent in three pieces, one of them empty, and read again from
the middle of its second block on, on a context that was in the middle of another stream. -/
theorem messages_round_trip_recut :
    ∃ (sender receiver begun : Context Unit State) (body : Bytes),
      Used .triple (Bytes.zeros 32) sender ∧ Used .triple (Bytes.zeros 32) receiver ∧
      ((sender.send [1, 2, 3, 4, 5, 6, 7, 8] [List.replicate 30 3, [], List.replicate 10 5]
        ⟨Bytes.zeros 48, 5⟩).runFrom Machine.system).1.1 =
          ⟨.ok (), ⟨[1, 2, 3, 4, 5, 6, 7, 8] ++ body, 48⟩⟩ ∧
      (receiver.call (.continueDecryption [1, 2, 3, 4, 5, 6, 7, 8] 25)).runFrom Machine.system =
        ((⟨.ok (), ⟨[], 0⟩⟩, begun), Machine.system) ∧
      ((begun.feed .decrypt [(body.take 33).drop 25, (body.take 34).drop 33]
        ⟨Bytes.zeros 10, 1⟩).runFrom Machine.system).1.1 =
          ⟨.ok (), ⟨[0, 3, 3, 3, 3, 3, 5, 5, 5, 5], 10⟩⟩ := by
  obtain ⟨hcreate, body, -, hsend, hreceive⟩ := messages_round_trip (κ := Unit) .triple (Bytes.zeros 32)
    (show [1, 2, 3, 4, 5, 6, 7, 8].length = nonceSize from rfl)
    (List.replicate 30 3 ++ List.replicate 10 5)
  obtain ⟨sender, ν, hinit, hsender⟩ := hcreate (Bytes.length_zeros 32) Machine.system
    (Machine.system_grants (by decide))
  obtain ⟨receiver, hrun, -⟩ := (simulates_ideal .triple (Bytes.zeros 32)).run_eq
    [.startEncryption (Bytes.zeros 8) ⟨Bytes.zeros 9, 0⟩, .encrypt [1, 2, 3] ⟨Bytes.zeros 3, 0⟩]
    (fun _ _ => trivial) (of_runFrom_init hinit) Machine.system
  have hreceiver : Used .triple (Bytes.zeros 32) receiver :=
    ⟨sender, _, ν, _, _, _, _, hinit, hrun⟩
  obtain ⟨begun, hbegun, hfeed⟩ := (hreceive receiver hreceiver Machine.system).2 25 34
    (by decide) (by decide)
  refine ⟨sender, receiver, begun, body, hsender, hreceiver, ?_, hbegun, ?_⟩
  · exact hsend sender hsender _ _ _ (by decide) (by decide)
  · refine hfeed _ _ _ ?_ (by decide)
    -- The two pieces are the bytes from 25 to 33 and the one after them.
    have hfirst : (body.take 33).drop 25 = ((body.take 34).drop 25).take 8 := by
      rw [List.take_drop, List.take_take]
      rfl
    have hsecond : (body.take 34).drop 33 = ((body.take 34).drop 25).drop 8 := by
      rw [List.drop_drop]
    rw [List.flatten_cons, List.flatten_cons, List.flatten_nil, List.append_nil, hfirst, hsecond,
      List.take_append_drop]
    rfl

end CryptoSuite.Ctr
