import CryptoSuite.Proofs.Bytes.Chunks
import CryptoSuite.Proofs.Memory.Derivation

/-! A key is filled piece by piece, and a failure on the way finds some pieces written and others not. A
derivation is such a filling with the whole key wiped if it failed. -/
namespace CryptoSuite

namespace Pbkdf2

variable {κ σ α β : Type} {prf : Mac.Algorithm κ σ} {salt : Bytes} {rounds : Nat}

/-- Codes take all of the room that they are given, as slices do. -/
def Fills (prf : Mac.Algorithm κ σ) : Prop :=
  ∀ (s : σ) (out : Bytes) (μ : Machine κ), ((prf.finalize s out).runFrom μ).1.2.1.length = out.length

/-- Makes the chunks after chunk number `counter`, and writes each over its piece of the key. Where one cannot
be made, its piece and those behind it stay as they were. -/
def fillPieces (prf : Mac.Algorithm κ σ) (salt : Bytes) (rounds : Nat) :
    List Bytes → Nat → Chain σ → Action κ (Status × Bytes × Chain σ)
  | [], _, c => pure (.ok (), [], c)
  | piece :: pieces, counter, c =>
    if 1 <<< 32 ≤ counter + 1 then
      pure (.error (.invalidArgument .keyDerivation .chunkCounterOverflow), (piece :: pieces).flatten, c)
    else do
      match ← (chunk prf (salt ++ Bytes.ofUInt32 (UInt32.ofNat (counter + 1))) rounds).on c with
      | (.error e, c) => pure (.error e, (piece :: pieces).flatten, c)
      | (.ok made, c) => do
        let (status, rest, c) ← fillPieces prf salt rounds pieces (counter + 1) c
        pure (status, piece.overwrite 0 (made.take piece.length) ++ rest, c)

/-- What a derivation works with, once its arguments are judged. -/
def prepare (prf : Mac.Algorithm κ σ) (length : Nat) (password salt : Bytes) (rounds : Nat) :
    Attempt κ (Chain σ) := do
  Attempt.require (check prf.macSize length salt rounds)
  let mac ← prf.create password
  let last ← Fallible.releasing (prf.release mac) (Buffer.newFor .keyDerivation prf.macSize)
  let sum ← Fallible.releasing (do last.release; prf.release mac)
    (Buffer.newFor .keyDerivation prf.macSize)
  pure ⟨mac, last, sum⟩

/-- Fills `key` as far as no failure intervenes. -/
def fill (prf : Mac.Algorithm κ σ) (key password salt : Bytes) (rounds : Nat) :
    Action κ (Status × Bytes) := do
  match ← (prepare prf key.length password salt rounds).run with
  | .error e => pure (.error e, key)
  | .ok c => do
    let (status, filled, c) ← fillPieces prf salt rounds (Bytes.chunks prf.macSize key) 0 c
    c.sum.release
    c.last.release
    prf.release c.mac
    pure (status, filled)

/-- What a failure left behind is overwritten with zeros. -/
def wiped : Status × Bytes → Status × Bytes
  | (.ok _, key) => (.ok (), key)
  | (.error e, key) => (.error e, Bytes.zeros key.length)

/-- A step keeps the room for codes, also when it fails, and its answers satisfy `Q`. -/
def Step.Roomy (prf : Mac.Algorithm κ σ) (x : Step κ σ α) (Q : α → Prop) : Prop :=
  ∀ (c : Chain σ) (μ : Machine κ), c.Sound prf (fun _ => True) →
    ((x.on c).runFrom μ).1.2.Sound prf (fun _ => True) ∧ ∀ a, ((x.on c).runFrom μ).1.1 = .ok a → Q a

namespace Step.Roomy

theorem bind {x : Step κ σ α} {f : α → Step κ σ β} {Q : α → Prop} {R : β → Prop} (hx : Roomy prf x Q)
    (hf : ∀ a, Q a → Roomy prf (f a) R) : Roomy prf (x >>= f) R := by
  intro c μ hc
  obtain ⟨hd, hq⟩ := hx c μ hc
  rw [on_bind, Action.runFrom_bind]
  rcases hrun : (x.on c).runFrom μ with ⟨⟨e | a, d⟩, ν⟩ <;> rw [hrun] at hd hq
  · refine ⟨hd, ?_⟩
    intro b hb
    cases hb
  · exact hf a (hq a rfl) d ν hd

theorem loops (h : Fills prf) :
    Loops prf (fun c => c.Sound prf fun _ => True) fun _ => Roomy (κ := κ) prf where
  sized _ hc := ⟨hc.last_size, hc.sum_size⟩
  pure := by
    intro α a Q ha c μ hc
    refine ⟨hc, ?_⟩
    rintro _ ⟨⟩
    exact ha
  bind := bind
  get := by
    intro c μ hc
    refine ⟨hc, ?_⟩
    rintro _ ⟨⟩
    exact hc
  modifySum := by
    intro f hf c μ hc
    exact ⟨⟨trivial, hc.last_size, hf c hc⟩, fun _ _ => trivial⟩
  absorb := by
    intro data c μ hc
    exact ⟨⟨trivial, hc.last_size, hc.sum_size⟩, fun _ _ => trivial⟩
  squeeze := by
    intro c μ hc
    exact ⟨⟨trivial, (h c.mac c.last.bytes μ).trans hc.last_size, hc.sum_size⟩, fun _ _ => trivial⟩

end Step.Roomy

theorem chunkCount_of_pos {length size : Nat} (hs : 0 < size) (hl : 0 < length) :
    chunkCount length size = chunkCount (length - size) size + 1 := by
  unfold chunkCount
  by_cases hle : size ≤ length
  · rw [show length + size - 1 = length - size + size - 1 + size by omega, Nat.add_div_right _ hs]
  · rw [show length - size + size - 1 = size - 1 by omega, Nat.div_eq_of_lt (show size - 1 < size by omega),
      show length + size - 1 = length - 1 + size by omega, Nat.add_div_right _ hs, Nat.div_eq_of_lt (by omega)]

theorem chunkCount_zero {size : Nat} (hs : 0 < size) : chunkCount 0 size = 0 :=
  Nat.div_eq_of_lt (by omega)

/-- A chunk covers its piece, the last of which may be shorter. -/
theorem overwrite_piece {size : Nat} {made : Bytes} (h : made.length = size) (key : Bytes) :
    Bytes.overwrite (key.take size) 0 (made.take (key.take size).length) = made.take key.length := by
  have hpiece : made.take (key.take size).length = made.take key.length := by
    rw [List.length_take, ← h, Nat.min_comm, ← List.take_take, List.take_length]
  have hcover : (key.take size).length ≤ (made.take key.length).length := by
    rw [List.length_take, List.length_take, h, Nat.min_comm]
  rw [hpiece, Bytes.overwrite_zero, List.drop_of_length_le hcover, List.append_nil]

/-- The filling goes along with the chunks: it ends as they do, and what it filled is their beginning. -/
theorem runFrom_fillPieces (h : Fills prf) (hsize : 0 < prf.macSize) (salt : Bytes) (rounds : Nat) (key : Bytes)
    (counter : Nat) {c : Chain σ} (hc : c.Sound prf fun _ => True) (μ : Machine κ) :
    ∃ outcome filled d ν,
      ((chunks prf salt rounds (chunkCount key.length prf.macSize) counter).on c).runFrom μ =
        ((outcome, d), ν) ∧
      (fillPieces prf salt rounds (Bytes.chunks prf.macSize key) counter c).runFrom μ =
        ((outcome.map fun _ => (), filled, d), ν) ∧
      filled.length = key.length ∧ ∀ made, outcome = .ok made → filled = made.take key.length := by
  induction hn : chunkCount key.length prf.macSize generalizing key counter c μ with
  | zero =>
    have hkey : key = [] := by
      by_contra hne
      rw [chunkCount_of_pos hsize (List.length_pos_iff.mpr hne)] at hn
      omega
    subst hkey
    rw [Bytes.chunks_nil]
    refine ⟨.ok [], [], c, μ, rfl, rfl, rfl, ?_⟩
    rintro _ ⟨⟩
    rfl
  | succ count ih =>
    have hne : key ≠ [] := by
      rintro rfl
      rw [List.length_nil, chunkCount_zero hsize] at hn
      cases hn
    have hl := List.length_pos_iff.mpr hne
    have hwhole : (key.take prf.macSize :: Bytes.chunks prf.macSize (key.drop prf.macSize)).flatten = key := by
      rw [List.flatten_cons, Bytes.flatten_chunks hsize, List.take_append_drop]
    have hcount : chunkCount (key.drop prf.macSize).length prf.macSize = count := by
      rw [chunkCount_of_pos hsize hl] at hn
      rw [List.length_drop]
      omega
    rw [Bytes.chunks_of_ne_nil hsize hne, chunks, fillPieces, hwhole]
    split_ifs with hcounter
    · exact ⟨_, key, c, μ, rfl, rfl, rfl, nofun⟩
    · obtain ⟨hroom, hmade⟩ := (Step.Roomy.loops h).chunk
        (salt ++ Bytes.ofUInt32 (UInt32.ofNat (counter + 1))) rounds c μ hc
      rcases hrun : ((chunk prf (salt ++ Bytes.ofUInt32 (UInt32.ofNat (counter + 1))) rounds).on c).runFrom μ
        with ⟨⟨e | first, d⟩, ν⟩
      · refine ⟨.error e, key, d, ν, ?_, ?_, rfl, nofun⟩
        · rw [Step.on_bind, Action.runFrom_bind, hrun]
          rfl
        · rw [Action.runFrom_bind, hrun]
          rfl
      · rw [hrun] at hroom hmade
        obtain ⟨outcome, rest, d', ν', hchunks, hfill, hlength, hrest⟩ :=
          ih (key.drop prf.macSize) (counter + 1) hroom ν hcount
        have hfirst := hmade first rfl
        have hpiece := overwrite_piece hfirst key
        refine ⟨outcome.map (first ++ ·), first.take key.length ++ rest, d', ν', ?_, ?_, ?_, ?_⟩
        · rw [Step.runFrom_on_bind hrun, Step.on_bind, Action.runFrom_bind, hchunks]
          cases outcome <;> rfl
        · rw [Action.runFrom_bind, hrun]
          dsimp only
          rw [Action.runFrom_bind, hfill, hpiece]
          cases outcome <;> rfl
        · rw [List.length_append, List.length_take, hlength, List.length_drop]
          omega
        · intro made hmade
          cases outcome with
          | error e => cases hmade
          | ok chunks =>
            cases hmade
            rw [hrest chunks rfl, List.take_append, hfirst, List.length_drop]

theorem of_runFrom_prepare {length : Nat} {password : Bytes} {c : Chain σ} {μ ν : Machine κ}
    (h : (prepare prf length password salt rounds).runFrom μ = (.ok c, ν)) :
    0 < prf.macSize ∧ c.Sound prf fun _ => True := by
  obtain ⟨_, ξ₁, hcheck, h⟩ := Fallible.of_runFrom_bind h
  rw [Attempt.runFrom_require] at hcheck
  have hok : check prf.macSize length salt rounds = .ok () := congrArg Prod.fst hcheck
  obtain ⟨mac, ξ₂, -, h⟩ := Fallible.of_runFrom_bind h
  obtain ⟨last, ξ₃, hlast, h⟩ := Fallible.of_runFrom_bind h
  obtain ⟨sum, ξ₄, hsum, h⟩ := Fallible.of_runFrom_bind h
  cases h
  obtain ⟨rfl, -⟩ := Buffer.of_runFrom_newFor (Fallible.of_runFrom_releasing hlast)
  obtain ⟨rfl, -⟩ := Buffer.of_runFrom_newFor (Fallible.of_runFrom_releasing hsum)
  refine ⟨((check_eq_ok_iff _ _ _ _).mp hok).2.2.2.1, trivial, ?_, ?_⟩
  · exact Bytes.length_zeros _
  · exact Bytes.length_zeros _

/-- A derivation is a filling, wiped if it failed. -/
theorem runFrom_derive_eq_wiped (h : Fills prf) (key password salt : Bytes) (rounds : Nat) (μ : Machine κ) :
    (derive prf key password salt rounds).runFrom μ =
      (wiped ((fill prf key password salt rounds).runFrom μ).1,
        ((fill prf key password salt rounds).runFrom μ).2) := by
  have hsplit : deriveBytes prf key.length password salt rounds = (do
      let c ← prepare prf key.length password salt rounds
      let r ← Fallible.perform ((chunks prf salt rounds (chunkCount key.length prf.macSize) 0).on c)
      Fallible.perform do
        r.2.sum.release
        r.2.last.release
        prf.release r.2.mac
      let made ← ExceptT.mk (pure r.1)
      pure (made.take key.length)) := by
    simp only [prepare, bind_assoc, pure_bind]
    rfl
  rw [answers_derive, hsplit, Fallible.runFrom_bind]
  unfold fill
  rw [Action.runFrom_bind]
  have hrun (μ : Machine κ) : Action.runFrom (prepare prf key.length password salt rounds).run μ =
      (prepare prf key.length password salt rounds).runFrom μ := rfl
  rw [hrun]
  rcases hprepare : (prepare prf key.length password salt rounds).runFrom μ with ⟨e | c, ν⟩
  · rfl
  · obtain ⟨hsize, hc⟩ := of_runFrom_prepare hprepare
    obtain ⟨outcome, filled, d, ξ, hchunks, hfill, hlength, hfilled⟩ :=
      runFrom_fillPieces h hsize salt rounds key 0 hc ν
    dsimp only
    rw [Fallible.runFrom_bind, Fallible.runFrom_perform, hchunks, Action.runFrom_bind, hfill]
    cases outcome with
    | error e =>
      rw [← hlength]
      rfl
    | ok made =>
      rw [hfilled made rfl]
      rfl

/-- Arguments are judged before anything else is done. -/
theorem runFrom_derive_refused {key password : Bytes} {e : CryptoError}
    (h : check prf.macSize key.length salt rounds = .error e) (μ : Machine κ) :
    (derive prf key password salt rounds).runFrom μ = ((.error e, Bytes.zeros key.length), μ) := by
  rw [answers_derive, deriveBytes, Fallible.runFrom_bind, Attempt.runFrom_require, h]

/-- Whatever fails, and wherever the filling of the key has got to, a derivation that fails leaves zeros in all
of the key, and one that succeeds leaves nothing of what was there before. Arguments that are out of order
are refused by the first condition that they violate, on the machine as it was: no computation is keyed. -/
theorem derive_leaves_no_part (prf : Mac.Algorithm κ σ) (key password salt : Bytes) (rounds : Nat)
    (μ : Machine κ) :
    let run := (derive prf key password salt rounds).runFrom μ
    let filling := (fill prf key password salt rounds).runFrom μ
    let refused (reason : Rejection) := run =
      ((.error (.invalidArgument .keyDerivation reason), Bytes.zeros key.length), μ)
    (∀ e, run.1.1 = .error e → run.1.2 = Bytes.zeros key.length) ∧
    (∀ key' : Bytes, key'.length = key.length → (derive prf key' password salt rounds).runFrom μ = run) ∧
    (Fills prf → run = (wiped filling.1, filling.2)) ∧
    (rounds = 0 → refused .noRounds) ∧
    (rounds ≠ 0 → key = [] → refused .emptyDerivedKey) ∧
    (rounds ≠ 0 → key ≠ [] → salt = [] → refused .emptySalt) ∧
    (rounds ≠ 0 → key ≠ [] → salt ≠ [] → prf.macSize = 0 → refused .emptyPrfOutput) := by
  intro run filling refused
  have hrefused {reason : Rejection} (h : check prf.macSize key.length salt rounds =
      .error (.invalidArgument .keyDerivation reason)) : refused reason := runFrom_derive_refused h μ
  refine ⟨?_, ?_, fun h => runFrom_derive_eq_wiped h key password salt rounds μ, ?_, ?_, ?_, ?_⟩
  · intro e
    simp only [run, answers_derive key password salt rounds μ]
    rcases (deriveBytes prf key.length password salt rounds).runFrom μ with ⟨e' | made, ν⟩
    · exact fun _ => rfl
    · intro h
      cases h
  · intro key' hl
    simp only [run, answers_derive key password salt rounds μ, answers_derive key' password salt rounds μ, hl]
  · intro hr
    exact hrefused (by simp [check, hr])
  · intro hr hk
    exact hrefused (by simp [check, hr, hk])
  · intro hr hk hs
    exact hrefused (by simp [check, hr, hk, hs])
  · intro hr hk hs hp
    exact hrefused (by simp [check, hr, hk, hs, hp])

/-- Counts the times that it is keyed or asked for a code, and has no more codes once there are `limit`. -/
def faltering (limit : Nat) : Mac.Algorithm Nat Unit where
  name := "faltering"
  macSize := 4
  keySize := 4
  create _ := ExceptT.mk fun μ => (.ok (), { μ with guest := μ.guest + 1 })
  update _ _ := pure (.ok (), ())
  finalize _ out := fun μ =>
    let status := if μ.guest < limit then .ok () else .error (.outOfMemory .mac)
    ((status, out.map fun _ => UInt8.ofNat μ.guest, ()), { μ with guest := μ.guest + 1 })
  release _ := pure ()

theorem fills_faltering (limit : Nat) : Fills (faltering limit) := fun _ _ _ => List.length_map _

/-- A key whose second piece cannot be made when the first is there, and arguments that violate two
conditions. -/
theorem derive_leaves_no_first_piece :
    let μ : Machine Nat := ⟨Heap.system, Mock.Tables.empty, ⟨fun _ => 0, 0⟩, 0⟩
    ((fill (faltering 3) [9, 9, 9, 9, 9, 9] [] [7] 2).runFrom μ).1 =
        (.error (.outOfMemory .mac), [3, 3, 3, 3, 9, 9]) ∧
      ((derive (faltering 3) [9, 9, 9, 9, 9, 9] [] [7] 2).runFrom μ).1 =
        (.error (.outOfMemory .mac), [0, 0, 0, 0, 0, 0]) ∧
      (derive (faltering 3) [9] [] [] 0).runFrom μ =
        ((.error (.invalidArgument .keyDerivation .noRounds), [0]), μ) ∧
      (derive (faltering 3) [9] [] [] 2).runFrom μ =
        ((.error (.invalidArgument .keyDerivation .emptySalt), [0]), μ) := by
  intro μ
  have hpart : ((fill (faltering 3) [9, 9, 9, 9, 9, 9] [] [7] 2).runFrom μ).1 =
      (.error (.outOfMemory .mac), [3, 3, 3, 3, 9, 9]) := by decide +kernel
  obtain ⟨-, -, hwiped, -⟩ := derive_leaves_no_part (faltering 3) [9, 9, 9, 9, 9, 9] [] [7] 2 μ
  obtain ⟨-, -, -, hrounds, -⟩ := derive_leaves_no_part (faltering 3) [9] [] [] 0 μ
  obtain ⟨-, -, -, -, -, hsalt, -⟩ := derive_leaves_no_part (faltering 3) [9] [] [] 2 μ
  refine ⟨hpart, ?_, hrounds rfl, hsalt (by decide) (by decide) rfl⟩
  rw [hwiped (fills_faltering 3), hpart]
  rfl

end Pbkdf2

end CryptoSuite
