import Mathlib.Data.List.Basic

/-!
# Transition — guarded transition systems and their reachable states

A system is deterministic once an input resolves its choices.  What the environment may do is a
guard on the inputs, so one system has a family of reachable sets, one for each environment:
`Reachable S G` are the states reached by steps whose input the guard `G` admits.

The induction over a run is packaged once, in `Reachable.invariant`.
-/

namespace Transition

universe u v

variable {σ : Type u} {ι : Type v}

/-- A system with one initial state whose steps are determined by an input. -/
structure System (σ : Type u) (ι : Type v) where
  init : σ
  next : ι → σ → Option σ

/-- The states reached by steps whose input the guard admits. -/
inductive Reachable (S : System σ ι) (G : σ → ι → Prop) : σ → Prop where
  | init : Reachable S G S.init
  | step {s s' : σ} {c : ι} :
      Reachable S G s → G s c → S.next c s = some s' → Reachable S G s'

variable {S : System σ ι} {G G' : σ → ι → Prop} {P Q : σ → Prop} {s : σ}

/-- An inductive invariant holds in every reachable state; its step may use reachability. -/
theorem Reachable.invariant (hinit : P S.init)
    (hstep : ∀ s c s', Reachable S G s → P s → G s c → S.next c s = some s' → P s')
    (hr : Reachable S G s) : P s := by
  induction hr with
  | init =>
      exact hinit
  | step hr hg hs ih =>
      exact hstep _ _ _ hr ih hg hs

/-- A more permissive environment reaches more states. -/
theorem Reachable.mono (hG : ∀ s c, G s c → G' s c) (hr : Reachable S G s) :
    Reachable S G' s := by
  induction hr with
  | init =>
      exact .init
  | step _ hg hs ih =>
      exact .step ih (hG _ _ hg) hs

/-- An invariant under a property that no step establishes anew. -/
theorem Reachable.invariant_of
    (hQ : ∀ s c s', Reachable S G s → S.next c s = some s' → Q s' → Q s)
    (hinit : P S.init)
    (hstep : ∀ s c s', Reachable S G s → Q s → Q s' → P s → G s c → S.next c s = some s' → P s')
    (hr : Reachable S G s) (hq : Q s) : P s := by
  induction hr with
  | init =>
      exact hinit
  | step hr hg hs ih =>
      have hq' := hQ _ _ _ hr hs hq
      exact hstep _ _ _ hr hq' hq (ih hq') hg hs

/-- The states reached from a given one. -/
inductive Reaches (S : System σ ι) (G : σ → ι → Prop) (s : σ) : σ → Prop where
  | refl : Reaches S G s s
  | step {s' s'' : σ} {c : ι} :
      Reaches S G s s' → G s' c → S.next c s' = some s'' → Reaches S G s s''

theorem Reachable.trans {s' : σ} (hr : Reachable S G s) (h : Reaches S G s s') :
    Reachable S G s' := by
  induction h with
  | refl =>
      exact hr
  | step _ hg hs ih =>
      exact .step ih hg hs

/-- What holds in a reachable state and is kept by its steps holds from then on. -/
theorem Reaches.invariant {s' : σ} (hr : Reachable S G s) (hP : P s)
    (hstep : ∀ s₁ c s₂, Reachable S G s₁ → P s₁ → G s₁ c → S.next c s₁ = some s₂ → P s₂)
    (h : Reaches S G s s') : P s' := by
  induction h with
  | refl =>
      exact hP
  | step hreach hg hs ih =>
      exact hstep _ _ _ (hr.trans hreach) ih hg hs

/-! ## What the steps of a run put out -/

section Observed

universe w

variable {β : Type w} {out : σ → ι → List β} {l : List β}

/-- The states of the runs, each with what the steps up to it have put out. -/
inductive Observed (S : System σ ι) (G : σ → ι → Prop) (out : σ → ι → List β) :
    σ → List β → Prop where
  | init : Observed S G out S.init []
  | step {s s' : σ} {c : ι} {l : List β} :
      Observed S G out s l → G s c → S.next c s = some s' → Observed S G out s' (l ++ out s c)

theorem Observed.reachable (h : Observed S G out s l) : Reachable S G s := by
  induction h with
  | init =>
      exact .init
  | step _ hg hs ih =>
      exact .step ih hg hs

theorem Reachable.observed (out : σ → ι → List β) (hr : Reachable S G s) :
    ∃ l, Observed S G out s l := by
  induction hr with
  | init =>
      exact ⟨[], .init⟩
  | step _ hg hs ih =>
      rcases ih with ⟨l, hl⟩
      exact ⟨_, .step hl hg hs⟩

/-- A potential that pays for everything that is put out bounds what a run puts out. -/
theorem Observed.length_le {φ : σ → ℕ}
    (hpay : ∀ s c s', Reachable S G s → G s c → S.next c s = some s' →
      (out s c).length + φ s' ≤ φ s)
    (h : Observed S G out s l) : l.length + φ s ≤ φ S.init := by
  induction h with
  | init =>
      exact Nat.le_of_eq (Nat.zero_add _)
  | @step s s' c l hobs hg hs ih =>
      have hstep := hpay s c s' hobs.reachable hg hs
      rw [List.length_append]
      omega

/-- If every run can go on and puts out something when it does, runs put out any amount. -/
theorem exists_observed_length
    (hlive : ∀ s, Reachable S G s → ∃ c s', G s c ∧ S.next c s = some s' ∧ 0 < (out s c).length)
    (n : ℕ) : ∃ s l, Observed S G out s l ∧ n ≤ l.length := by
  induction n with
  | zero =>
      exact ⟨S.init, [], .init, Nat.le_refl _⟩
  | succ n ih =>
      rcases ih with ⟨s, l, hobs, hlen⟩
      rcases hlive s hobs.reachable with ⟨c, s', hg, hs, hpos⟩
      refine ⟨s', l ++ out s c, .step hobs hg hs, ?_⟩
      rw [List.length_append]
      omega

end Observed

/-! ## Running a list of inputs -/

/-- Run the inputs of a list, each one checked against the guard. -/
def runInputs (S : System σ ι) (G : σ → ι → Prop) [∀ s c, Decidable (G s c)] :
    List ι → σ → Option σ
  | [], s => some s
  | c :: cs, s =>
      if G s c then
        match S.next c s with
        | some s' => runInputs S G cs s'
        | none => none
      else
        none

theorem reachable_of_runInputs [∀ s c, Decidable (G s c)] {cs : List ι} {s s' : σ}
    (hr : Reachable S G s) (h : runInputs S G cs s = some s') : Reachable S G s' := by
  induction cs generalizing s with
  | nil =>
      obtain rfl : s = s' := by simpa [runInputs] using h
      exact hr
  | cons c cs ih =>
      simp only [runInputs] at h
      split at h
      · rename_i hg
        cases hn : S.next c s with
        | none =>
            simp [hn] at h
        | some s₁ =>
            rw [hn] at h
            exact ih (.step hr hg hn) h
      · cases h

/-- A run whose last state passes a test witnesses a reachable state that passes it. -/
theorem exists_reachable_of_runInputs [∀ s c, Decidable (G s c)] (cs : List ι) (test : σ → Bool)
    (h : (runInputs S G cs S.init).map test = some true) :
    ∃ s, Reachable S G s ∧ test s = true := by
  cases hrun : runInputs S G cs S.init with
  | none =>
      simp [hrun] at h
  | some s =>
      exact ⟨s, reachable_of_runInputs .init hrun, by simpa [hrun] using h⟩

theorem Reaches.head {s₁ s' : σ} {c : ι} (hg : G s c) (hs : S.next c s = some s₁)
    (h : Reaches S G s₁ s') : Reaches S G s s' := by
  induction h with
  | refl =>
      exact .step .refl hg hs
  | step _ hg' hs' ih =>
      exact .step ih hg' hs'

theorem reaches_of_runInputs [∀ s c, Decidable (G s c)] {cs : List ι} {s s' : σ}
    (h : runInputs S G cs s = some s') : Reaches S G s s' := by
  induction cs generalizing s with
  | nil =>
      obtain rfl : s = s' := by simpa [runInputs] using h
      exact .refl
  | cons c cs ih =>
      simp only [runInputs] at h
      split at h
      · rename_i hg
        cases hn : S.next c s with
        | none =>
            simp [hn] at h
        | some s₁ =>
            rw [hn] at h
            exact .head hg hn (ih h)
      · cases h

/-- A run in two parts whose last states pass a test. -/
theorem exists_reaches_of_runInputs [∀ s c, Decidable (G s c)] (cs cs' : List ι)
    (test : σ → σ → Bool)
    (h : (runInputs S G cs S.init).bind (fun s => (runInputs S G cs' s).map (test s)) = some true) :
    ∃ s s', Reachable S G s ∧ Reaches S G s s' ∧ test s s' = true := by
  rcases Option.bind_eq_some_iff.1 h with ⟨s, hrun, h'⟩
  rcases Option.map_eq_some_iff.1 h' with ⟨s', hrun', htest⟩
  exact ⟨s, s', reachable_of_runInputs .init hrun, reaches_of_runInputs hrun', htest⟩

end Transition
