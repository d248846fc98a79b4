import CryptoSuite.Proofs.Machine

/-! Calls made one after the other on something that keeps a state, and the comparison of such a
session with an ideal one whose state is what a caller needs to know. -/
namespace CryptoSuite.Session

variable {κ σ γ χ ρ : Type}

/-- Answers the calls in order. -/
def run (step : σ → χ → Action κ (ρ × σ)) : σ → List χ → Action κ (List ρ × σ)
  | s, [] => pure ([], s)
  | s, call :: calls => do
    let (answer, s) ← step s call
    let (answers, s) ← run step s calls
    pure (answer :: answers, s)

/-- The same for a step without effects. -/
def trace (step : γ → χ → ρ × γ) : γ → List χ → List ρ × γ
  | g, [] => ([], g)
  | g, call :: calls =>
    let (answer, g) := step g call
    let (answers, g) := trace step g calls
    (answer :: answers, g)

/-- What the caller knows once it has seen the answers to its calls. -/
def known (learn : γ → χ → ρ → γ) : γ → List χ → List ρ → γ
  | g, call :: calls, answer :: answers => known learn (learn g call answer) calls answers
  | g, _, _ => g

/-- What one step keeps, a whole session keeps. -/
theorem run_invariant {step : σ → χ → Action κ (ρ × σ)} {P : σ → Machine κ → Prop}
    (h : ∀ s call μ, P s μ → P ((step s call).runFrom μ).1.2 ((step s call).runFrom μ).2)
    (calls : List χ) {s : σ} {μ : Machine κ} (hs : P s μ) :
    P ((run step s calls).runFrom μ).1.2 ((run step s calls).runFrom μ).2 := by
  induction calls generalizing s μ with
  | nil => exact hs
  | cons call calls ih => exact ih (h s call μ hs)

/-- A relation between ideal and real states under which both answer an admissible call alike,
and which their next states satisfy again. The machine is not touched. -/
def Simulates (Admissible : χ → Prop) (ideal : γ → χ → ρ × γ) (step : σ → χ → Action κ (ρ × σ))
    (R : γ → σ → Prop) : Prop :=
  ∀ g s call μ, Admissible call → R g s →
    ∃ t, (step s call).runFrom μ = (((ideal g call).1, t), μ) ∧ R (ideal g call).2 t

theorem Simulates.run_eq {Admissible : χ → Prop} {ideal : γ → χ → ρ × γ}
    {step : σ → χ → Action κ (ρ × σ)} {R : γ → σ → Prop} (h : Simulates Admissible ideal step R)
    (calls : List χ) (hc : ∀ call ∈ calls, Admissible call) {g : γ} {s : σ} (hr : R g s)
    (μ : Machine κ) :
    ∃ t, (run step s calls).runFrom μ = (((trace ideal g calls).1, t), μ) ∧
      R (trace ideal g calls).2 t := by
  induction calls generalizing g s with
  | nil => exact ⟨s, rfl, hr⟩
  | cons call calls ih =>
    obtain ⟨t, ht, hrt⟩ := h g s call μ (hc call List.mem_cons_self) hr
    obtain ⟨u, hu, hru⟩ := ih (fun c hm => hc c (List.mem_cons_of_mem call hm)) hrt
    refine ⟨u, ?_, hru⟩
    simp only [run, Action.runFrom_bind, ht, hu, Action.runFrom_pure, trace]

/-- An ideal state that is learned from the answers is what the caller knows. -/
theorem trace_known (learn : γ → χ → ρ → γ) (respond : γ → χ → ρ) (g : γ) (calls : List χ) :
    (trace (fun g call => (respond g call, learn g call (respond g call))) g calls).2 =
      known learn g calls
        (trace (fun g call => (respond g call, learn g call (respond g call))) g calls).1 := by
  induction calls generalizing g with
  | nil => rfl
  | cons call calls ih =>
    rw [trace, known]
    exact ih (learn g call (respond g call))

/-- After a session the real state is related to what the caller knows. -/
theorem Simulates.known_of_run {Admissible : χ → Prop} {learn : γ → χ → ρ → γ} {respond : γ → χ → ρ}
    {step : σ → χ → Action κ (ρ × σ)} {R : γ → σ → Prop}
    (h : Simulates Admissible (fun g call => (respond g call, learn g call (respond g call))) step R)
    {calls : List χ} (hc : ∀ call ∈ calls, Admissible call) {g : γ} {s t : σ} (hr : R g s)
    {μ ν : Machine κ} {answers : List ρ} (hrun : (run step s calls).runFrom μ = ((answers, t), ν)) :
    R (known learn g calls answers) t := by
  obtain ⟨u, hu, hru⟩ := h.run_eq calls hc hr μ
  rw [hu] at hrun
  cases hrun
  rw [trace_known] at hru
  exact hru

/-- Steps that answer an admissible call alike in related states, and keep the states related, do
so for whole sessions. -/
theorem trace_related {Admissible : χ → Prop} {first : γ → χ → ρ × γ} {second : σ → χ → ρ × σ}
    {R : γ → σ → Prop} (h : ∀ g s call, Admissible call → R g s →
      (second s call).1 = (first g call).1 ∧ R (first g call).2 (second s call).2)
    (calls : List χ) (hc : ∀ call ∈ calls, Admissible call) {g : γ} {s : σ} (hr : R g s) :
    (trace second s calls).1 = (trace first g calls).1 ∧
      R (trace first g calls).2 (trace second s calls).2 := by
  induction calls generalizing g s with
  | nil => exact ⟨rfl, hr⟩
  | cons call calls ih =>
    obtain ⟨ha, hn⟩ := h g s call (hc call List.mem_cons_self) hr
    obtain ⟨has, hrs⟩ := ih (fun c hm => hc c (List.mem_cons_of_mem call hm)) hn
    exact ⟨by simp only [trace, ha, has], hrs⟩

/-- What a caller sees of a call: the output that it passed, the output that it got back, and whether
the call was refused. -/
structure View (χ ρ τ : Type) where
  given : χ → τ
  returned : ρ → τ
  status : ρ → Status

namespace View

variable {τ : Type}

/-- The calls of a session that were not refused, with their answers. -/
def accepted (w : View χ ρ τ) (calls : List χ) (answers : List ρ) : List (χ × ρ) :=
  (calls.zip answers).filter fun p => (w.status p.2).isOk

/-- Refused calls hand their outputs back as they were, and cannot be told from calls that were never
made, neither by the answers to the other calls nor by what is left behind. -/
def Traceless (w : View χ ρ τ) (step : σ → χ → Action κ (ρ × σ)) (s : σ) : Prop :=
  ∀ (calls : List χ) (μ : Machine κ),
    let r := (run step s calls).runFrom μ
    r.1.1.length = calls.length ∧
    (∀ p ∈ calls.zip r.1.1, ∀ e, w.status p.2 = .error e → w.returned p.2 = w.given p.1) ∧
    (run step s ((w.accepted calls r.1.1).map Prod.fst)).runFrom μ =
      (((w.accepted calls r.1.1).map Prod.snd, r.1.2), r.2)

/-- No call touches the machine, sound states stay sound, and a call that is refused in one changes
neither its output nor the state. -/
def Refuses (w : View χ ρ τ) (Sound : σ → Prop) (step : σ → χ → Action κ (ρ × σ)) : Prop :=
  ∀ s call μ, Sound s → ∃ answer t, (step s call).runFrom μ = ((answer, t), μ) ∧ Sound t ∧
    ∀ e, w.status answer = .error e → w.returned answer = w.given call ∧ t = s

theorem Refuses.traceless {w : View χ ρ τ} {Sound : σ → Prop} {step : σ → χ → Action κ (ρ × σ)}
    (h : w.Refuses Sound step) {s : σ} (hs : Sound s) : w.Traceless step s := by
  intro calls μ
  induction calls generalizing s with
  | nil => exact ⟨rfl, nofun, rfl⟩
  | cons call calls ih =>
    obtain ⟨answer, t, hstep, ht, hrefused⟩ := h s call μ hs
    obtain ⟨hl, hout, hrun⟩ := ih ht
    rcases hrest : (run step t calls).runFrom μ with ⟨⟨answers, u⟩, ν⟩
    rw [hrest] at hl hout hrun
    have hall : (run step s (call :: calls)).runFrom μ = ((answer :: answers, u), ν) := by
      simp only [run, Action.runFrom_bind, hstep, hrest, Action.runFrom_pure]
    rw [hall]
    refine ⟨congrArg (· + 1) hl, ?_, ?_⟩
    · intro p hp e he
      rw [List.zip_cons_cons, List.mem_cons] at hp
      rcases hp with rfl | hp
      · exact (hrefused e he).1
      · exact hout p hp e he
    · cases hstatus : w.status answer with
      | ok _ =>
        have hkept : w.accepted (call :: calls) (answer :: answers) =
            (call, answer) :: w.accepted calls answers :=
          List.filter_cons_of_pos (by rw [hstatus]; rfl)
        simp only [hkept, List.map_cons, run, Action.runFrom_bind, hstep, hrun, Action.runFrom_pure]
      | error e =>
        -- The rest of the session goes on where the refused call began.
        obtain ⟨-, rfl⟩ := hrefused e hstatus
        have hkept : w.accepted (call :: calls) (answer :: answers) = w.accepted calls answers :=
          List.filter_cons_of_neg (by rw [hstatus]; nofun)
        rw [hkept]
        exact hrun

end View

end CryptoSuite.Session
