import CryptoSuite.Proofs.Aes.Extension
import CryptoSuite.Proofs.Bytes.Access
import CryptoSuite.Proofs.Memory.Ciphers
import CryptoSuite.Proofs.Mirror

/-! The accesses to key schedules, while they are made and when blocks are transformed under them. A schedule
is written from its front: every word that its expansion reads has been written, and the finished schedule
holds all of its round keys. -/
namespace CryptoSuite

namespace Aes

/-- A word of a schedule. -/
def wordAt? (schedule : Bytes) (i : Nat) : Option Word := do
  let b ← schedule.slice? (4 * i) (4 * i + 4)
  (Word.split b).head?

def roundKey? (schedule : Bytes) (round : Nat) : Option Block := do
  let b ← schedule.slice? (16 * round) (16 * (round + 1))
  Block.ofBytes? b

/-- A schedule that is being written over its room, and the round constant for the next use. -/
structure Draft where
  schedule : Bytes
  constant : UInt8

/-- Writes the word `i`. -/
def Draft.next? (keyWords : Nat) (d : Draft) (i : Nat) : Option Draft := do
  let last ← wordAt? d.schedule (← minus? i 1)
  let place ← modulo? i keyWords
  let before ← wordAt? d.schedule (← minus? i keyWords)
  let (word, constant) :=
    if place = 0 then
      (before.xor (last.rotate.substitute.xor #v[d.constant, 0, 0, 0]), xtime d.constant)
    else if 6 < keyWords ∧ place = 4 then (before.xor last.substitute, d.constant)
    else (before.xor last, d.constant)
  let schedule ← d.schedule.fill? (4 * i) (4 * i + 4) word.toList
  pure ⟨schedule, constant⟩

/-- Expands a key over `room`. -/
def expand? (key : Bytes) (rounds : Nat) (room : Bytes) : Option Bytes := do
  let keyWords := key.length / 4
  let schedule ← room.fill? 0 key.length key
  let d ← (List.range' keyWords (4 * (rounds + 1) - keyWords)).foldlM (Draft.next? keyWords) ⟨schedule, 1⟩
  pure d.schedule

/-- Writes a decryption schedule over `room`, a round key at a time. -/
def unmix? (schedule : Bytes) (rounds : Nat) (room : Bytes) : Option Bytes :=
  (List.range (rounds + 1)).foldlM (fun made round => do
    let k ← roundKey? schedule (← minus? rounds round)
    made.fill? (16 * round) (16 * round + 16)
      (if round = 0 ∨ round = rounds then k else k.inverseMixColumns).toList) room

/-- A full transform under round keys that have to be there. -/
def transform? (round last : Block → Block → Block) (key : Nat → Option Block) (rounds : Nat) (b : Block) :
    Option Block := do
  let first ← key 0
  let inner ← (List.range (rounds - 1)).foldlM (fun b r => do
    let k ← key (r + 1)
    pure (round b k)) (b.xor first)
  let k ← key rounds
  pure (last inner k)

def encryptBlock? (key : Nat → Option Block) (rounds : Nat) (b : Block) : Option Block :=
  transform? encryptRound (fun b k => b.substitute.shiftRows.xor k) key rounds b

def decryptBlock? (key : Nat → Option Block) (rounds : Nat) (b : Block) : Option Block :=
  transform? decryptRound (fun b k => b.inverseSubstitute.inverseShiftRows.xor k) key rounds b

theorem roundKey?_eq {schedule : Bytes} {round : Nat} (h : 16 * (round + 1) ≤ schedule.length) :
    roundKey? schedule round = some (roundKey schedule round) := by
  unfold roundKey? roundKey
  rw [Bytes.slice?_eq (by omega) h, Option.bind_eq_bind, Option.bind_some,
    show 16 * (round + 1) - 16 * round = 16 by omega, ← Block.toList_read_of_le (by omega),
    Block.ofBytes?_toList]

theorem transform?_eq (round last : Block → Block → Block) {key? : Nat → Option Block} {key : Nat → Block}
    {rounds : Nat} (h : ∀ r ≤ rounds, key? r = some (key r)) (b : Block) :
    transform? round last key? rounds b = some (transform round last key rounds b) := by
  have hinner (b : Block) (n : Nat) (hn : n ≤ rounds) :
      (List.range n).foldlM (fun b r => do
        let k ← key? (r + 1)
        pure (round b k)) b = some ((List.range n).foldl (fun b r => round b (key (r + 1))) b) := by
    induction n with
    | zero => rfl
    | succ n ih =>
      rw [List.range_succ, List.foldlM_append, ih (by omega), List.foldl_append]
      simp [h (n + 1) hn]
  unfold transform? transform
  rw [h 0 (Nat.zero_le _), h rounds (Nat.le_refl _)]
  exact congrArg (Option.bind · _) (hinner _ _ (Nat.sub_le _ _))

theorem Word.split_toList (w : Word) : split w.toList = [w] := by
  obtain ⟨a, b, c, d, hw⟩ : ∃ a b c d, w.toList = [a, b, c, d] :=
    List.length_eq_four.mp w.length_toList
  rw [hw, split, split]
  · congr 1
    apply Vector.toList_inj.mp
    rw [hw]
    rfl
  · simp

theorem drop_flatMap_words (words : List Word) (i : Nat) :
    (words.flatMap Vector.toList).drop (4 * i) = (words.drop i).flatMap Vector.toList := by
  induction i generalizing words with
  | zero => rfl
  | succ i ih =>
    cases words with
    | nil => rfl
    | cons w words =>
      have hl : 4 * (i + 1) = w.toList.length + 4 * i := by
        rw [Vector.length_toList]
        omega
      rw [List.flatMap_cons, hl, ← List.drop_drop, List.drop_left, ih, List.drop_succ_cons]

/-- The words lie in their order at the front of a schedule. -/
theorem wordAt?_eq {words : Array Word} (room : Bytes) {i : Nat} (h : i < words.size) :
    wordAt? (wordBytes words ++ room) i = some (words.getD i Word.zero) := by
  have hi : i < words.toList.length := h
  have hl := length_wordBytes words
  have hw : words.toList[i] = words.getD i Word.zero := by
    simp [Array.getD_eq_getD_getElem?, h]
  have hslice : ((wordBytes words ++ room).drop (4 * i)).take 4 = (words.getD i Word.zero).toList := by
    rw [List.drop_append_of_le_length (by omega), wordBytes, drop_flatMap_words,
      List.drop_eq_getElem_cons hi, hw, List.flatMap_cons, List.append_assoc]
    exact List.take_left' (words.getD i Word.zero).length_toList
  unfold wordAt?
  rw [Bytes.slice?_eq (Nat.le_add_right _ _) (by rw [List.length_append]; omega), Nat.add_sub_cancel_left,
    hslice, Option.bind_eq_bind, Option.bind_some, Word.split_toList]
  rfl

theorem wordBytes_push (words : Array Word) (w : Word) :
    wordBytes (words.push w) = wordBytes words ++ w.toList := by
  unfold wordBytes
  rw [Array.toList_push, List.flatMap_append, List.flatMap_singleton]

/-- The words expanded so far, with room for the others behind them. -/
structure Draft.Holds (words : Nat) (d : Draft) (e : Expansion) : Prop where
  schedule : ∃ room, d.schedule = wordBytes e.words ++ room ∧ 4 * e.words.size + room.length = 4 * words
  constant : d.constant = e.constant

theorem Draft.Holds.next {words keyWords : Nat} {d : Draft} {e : Expansion} (h : d.Holds words e)
    (hk : 0 < keyWords) (hi : keyWords ≤ e.words.size) (hw : e.words.size < words) :
    ∃ d', d.next? keyWords e.words.size = some d' ∧ d'.Holds words (e.next keyWords) := by
  obtain ⟨⟨room, hschedule, hroom⟩, hconstant⟩ := h
  have hwrite (w : Word) (c : UInt8) : ∃ d',
      (do
        let schedule ← (wordBytes e.words ++ room).fill? (4 * e.words.size) (4 * e.words.size + 4) w.toList
        pure ⟨schedule, c⟩) = some d' ∧ Draft.Holds words d' ⟨e.words.push w, c⟩ := by
    have hfill := Bytes.fill?_append (wordBytes e.words) room w.length_toList (by omega)
    rw [length_wordBytes] at hfill
    refine ⟨_, by rw [hfill]; rfl, ⟨room.drop 4, ?_, ?_⟩, rfl⟩
    · rw [wordBytes_push]
    · rw [Array.size_push, List.length_drop]
      omega
  unfold next? Expansion.next
  rw [hschedule, hconstant, minus?_eq (by omega), minus?_eq hi, modulo?_eq hk]
  simp only [Option.bind_eq_bind, Option.bind_some]
  rw [wordAt?_eq room (by omega), wordAt?_eq room (by omega)]
  simp only [Option.bind_some]
  split_ifs
  all_goals exact hwrite _ _

/-- What is read has been written, word after word. -/
theorem Draft.Holds.foldlM {words keyWords n : Nat} {d : Draft} {e : Expansion} (h : d.Holds words e)
    (hk : 0 < keyWords) (hi : keyWords ≤ e.words.size) (hw : e.words.size + n ≤ words) :
    ∃ d', (List.range' e.words.size n).foldlM (Draft.next? keyWords) d = some d' ∧
      d'.Holds words (Nat.repeat (Expansion.next keyWords) n e) := by
  induction n with
  | zero => exact ⟨d, rfl, h⟩
  | succ n ih =>
    obtain ⟨d', hd, hh⟩ := ih (by omega)
    have hs := Expansion.size_repeat keyWords n e
    obtain ⟨d'', hd', hh'⟩ := hh.next hk (by omega) (by omega)
    refine ⟨d'', ?_, hh'⟩
    rw [hs] at hd'
    rw [List.range'_1_concat, List.foldlM_append, hd]
    simp [hd']

theorem expand?_eq {key room : Bytes} {rounds : Nat} (hk : 0 < key.length / 4) (h4 : key.length % 4 = 0)
    (hw : key.length / 4 ≤ 4 * (rounds + 1)) (hr : room.length = 16 * (rounds + 1)) :
    expand? key rounds room = some (encryptionSchedule key rounds) := by
  have hs : (Expansion.start key).words.size = key.length / 4 := Word.length_split key
  have hkey : wordBytes (Expansion.start key).words = key := Word.flatMap_split h4
  have hfits : key.length ≤ room.length := by omega
  have hfill := Bytes.fill?_append [] room rfl hfits
  have hstart : Draft.Holds (4 * (rounds + 1)) ⟨key ++ room.drop key.length, 1⟩ (Expansion.start key) := by
    refine ⟨⟨room.drop key.length, ?_, ?_⟩, rfl⟩
    · rw [hkey]
    · rw [hs, List.length_drop]
      omega
  obtain ⟨d, hd, ⟨rest, hschedule, hrest⟩, -⟩ :=
    hstart.foldlM (n := 4 * (rounds + 1) - key.length / 4) hk hs.ge (by omega)
  rw [Expansion.size_repeat, hs] at hrest
  have hnil : rest = [] := List.length_eq_zero_iff.mp (by omega)
  rw [hs] at hd
  rw [List.length_nil, List.nil_append, List.nil_append, Nat.zero_add] at hfill
  unfold expand? encryptionSchedule
  rw [hfill, Option.bind_eq_bind, Option.bind_some, hd]
  change some d.schedule = _
  rw [hschedule, hnil, List.append_nil]

theorem unmix?_eq {schedule room : Bytes} {rounds : Nat} (hs : schedule.length = 16 * (rounds + 1))
    (hr : room.length = 16 * (rounds + 1)) :
    unmix? schedule rounds room = some (decryptionSchedule schedule rounds) := by
  let key (round : Nat) : Block :=
    let k := roundKey schedule (rounds - round)
    if round = 0 ∨ round = rounds then k else k.inverseMixColumns
  -- The round keys made so far stand in front of what is left of the room.
  have hloop (n : Nat) (hn : n ≤ rounds + 1) :
      (List.range n).foldlM (fun made round => do
        let k ← roundKey? schedule (← minus? rounds round)
        made.fill? (16 * round) (16 * round + 16)
          (if round = 0 ∨ round = rounds then k else k.inverseMixColumns).toList) room =
        some ((List.range n).flatMap (fun round => (key round).toList) ++ room.drop (16 * n)) := by
    induction n with
    | zero => rfl
    | succ n ih =>
      have hl := length_flatMap_blocks key n
      have hfill := Bytes.fill?_append ((List.range n).flatMap fun round => (key round).toList)
        (room.drop (16 * n)) (key n).length_toList (by rw [List.length_drop]; omega)
      rw [hl, List.drop_drop] at hfill
      rw [List.range_succ, List.foldlM_append, ih (by omega), List.flatMap_append, List.flatMap_singleton]
      have hread : roundKey? schedule (rounds - n) = some (roundKey schedule (rounds - n)) :=
        roundKey?_eq (by omega)
      simp only [Option.bind_eq_bind, Option.bind_some, List.foldlM_cons, List.foldlM_nil,
        minus?_eq (show n ≤ rounds by omega), hread]
      exact congrArg (Option.bind · pure) hfill
  unfold unmix? decryptionSchedule
  rw [hloop _ (Nat.le_refl _), List.drop_of_length_le (by omega), List.append_nil]

end Aes

namespace AesKey

variable {κ : Type} {key : Bytes} {m : RoundMultiplier}

/-- The schedule has all of its round keys. -/
def Whole (k : AesKey) : Prop := k.schedule.size = 16 * (k.rounds + 1)

def roundKey? (k : AesKey) (round : Nat) : Option Aes.Block := Aes.roundKey? k.schedule.bytes round

def encryptBlock? (k : AesKey) (b : Aes.Block) : Option Aes.Block :=
  Aes.encryptBlock? k.roundKey? k.rounds b

def decryptBlock? (k : AesKey) (b : Aes.Block) : Option Aes.Block :=
  Aes.decryptBlock? k.roundKey? k.rounds b

/-- Answers nothing if an access fails while the key is expanded. -/
def encryption? (key : Bytes) (m : RoundMultiplier) : Fallible ScheduleError κ (Option AesKey) := do
  match m.rounds? key.length with
  | none => throw (.unsupportedKeyLength key.length)
  | some rounds =>
    let room ← storage (16 * (rounds + 1))
    pure ((Aes.expand? key rounds room.bytes).map fun schedule => ⟨room.setBytes schedule, rounds⟩)

def decryption? (key : Bytes) (m : RoundMultiplier) : Fallible ScheduleError κ (Option AesKey) := do
  match ← encryption? key m with
  | none => pure none
  | some enc =>
    let room ← Fallible.releasing enc.release (storage enc.schedule.size)
    Fallible.perform enc.release
    pure ((Aes.unmix? enc.schedule.bytes enc.rounds room.bytes).map fun schedule =>
      ⟨room.setBytes schedule, enc.rounds⟩)

/-- A key with `fault` in place of every access out of range, and with its failures reported. -/
def orFault (fault : CryptoError) (report : ScheduleError → CryptoError)
    (x : Fallible ScheduleError κ (Option AesKey)) : Attempt κ AesKey := do
  Attempt.obtain fault (← x.adapt report)

namespace Whole

variable {k : AesKey}

theorem roundKey?_eq (h : k.Whole) {round : Nat} (hr : round ≤ k.rounds) :
    k.roundKey? round = some (k.roundKey round) := by
  apply Aes.roundKey?_eq
  rw [show k.schedule.bytes.length = 16 * (k.rounds + 1) from h]
  omega

theorem encryptBlock?_eq (h : k.Whole) (b : Aes.Block) : k.encryptBlock? b = some (k.encryptBlock b) :=
  Aes.transform?_eq _ _ (fun _ => h.roundKey?_eq) b

theorem decryptBlock?_eq (h : k.Whole) (b : Aes.Block) : k.decryptBlock? b = some (k.decryptBlock b) :=
  Aes.transform?_eq _ _ (fun _ => h.roundKey?_eq) b

end Whole

theorem mirrors_storage (size : Nat) :
    Fallible.Mirrors (fun _ => True) (fun b b' => b = b' ∧ b'.size = size)
      (storage size : Fallible ScheduleError κ Buffer) (storage size) :=
  (Buffer.mirrors_new size).adapt fun _ _ => trivial

theorem mirrors_encryption (key : Bytes) (m : RoundMultiplier) :
    Fallible.Mirrors (fun _ => True) (fun k k' => k = some k' ∧ k'.Whole)
      (encryption? (κ := κ) key m) (encryption key m) := by
  unfold encryption? encryption
  cases hr : m.rounds? key.length with
  | none => exact .throw trivial
  | some rounds =>
    have hw := RoundMultiplier.keyWords_le hr
    have hl := (m.rounds?_isSome_iff key.length).mp (by rw [hr, Option.isSome_some])
    apply (mirrors_storage _).bind
    rintro room _ ⟨rfl, hroom⟩
    rw [Aes.expand?_eq (by omega) (by omega) hw hroom]
    exact .pure ⟨rfl, Aes.length_encryptionSchedule hw⟩

theorem mirrors_releaseKey (k : AesKey) :
    Action.Mirrors (fun _ _ => True) (k.release : Action κ Unit) k.release :=
  k.schedule.mirrors_release

theorem mirrors_decryption (key : Bytes) (m : RoundMultiplier) :
    Fallible.Mirrors (fun _ => True) (fun k k' => k = some k' ∧ k'.Whole)
      (decryption? (κ := κ) key m) (decryption key m) := by
  unfold decryption? decryption
  apply (mirrors_encryption key m).bind
  rintro _ enc ⟨rfl, henc⟩
  have hsize : enc.schedule.size = 16 * (enc.rounds + 1) := henc
  apply ((mirrors_storage _).releasing enc.mirrors_releaseKey).bind
  rintro room _ ⟨rfl, hroom⟩
  apply (Fallible.Mirrors.perform enc.mirrors_releaseKey).bind
  intro _ _ _
  rw [Aes.unmix?_eq henc (hroom.trans henc)]
  exact .pure ⟨rfl, Aes.length_flatMap_blocks _ _⟩

/-- Keys come with all of their round keys, for whichever direction they are made. -/
theorem whole_of_made {k : AesKey} {μ : Machine κ}
    (h : ((encryption key m).runFrom μ).1 = .ok k ∨ ((decryption key m).runFrom μ).1 = .ok k) : k.Whole := by
  rcases h with h | h
  · obtain ⟨-, -, -, hk⟩ := (mirrors_encryption key m).of_ok h
    exact hk
  · obtain ⟨-, -, -, hk⟩ := (mirrors_decryption key m).of_ok h
    exact hk

theorem mirrors_orFault (fault : CryptoError) {report : ScheduleError → CryptoError}
    (hreport : ∀ e, (report e).Ordinary) {x : Fallible ScheduleError κ (Option AesKey)}
    {y : Fallible ScheduleError κ AesKey}
    (h : Fallible.Mirrors (fun _ => True) (fun k k' => k = some k' ∧ k'.Whole) x y) :
    Attempt.Mirrors (fun k k' => k = k' ∧ k'.Whole) (orFault fault report x) (y.adapt report) :=
  Attempt.mirrors_obtain fault (h.adapt fun e _ => hreport e)

theorem ordinary_forEncryption (c : Component) (e : ScheduleError) : (e.forEncryption c).Ordinary := by
  cases e <;> trivial

theorem ordinary_forDecryption (c : Component) (e : ScheduleError) : (e.forDecryption c).Ordinary := by
  cases e <;> trivial

end AesKey

end CryptoSuite
