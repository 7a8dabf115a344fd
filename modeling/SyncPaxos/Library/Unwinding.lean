import Mathlib.Order.Nat
import SyncPaxos.Library.Transition

/-!
# Unwinding — two runs that look the same from outside

An observer sees a state through `view`.  Some steps are low and the others are high.  When a high
step leaves the view as it is, and a low step takes equal views to equal views, two runs whose low
steps get the same inputs look the same after the same number of low steps (`Unwinding.view_eq`), and
also at the same time (`Unwinding.view_eq_at`).
-/

universe u v w

namespace Transition

variable {σ : Type u} {ι : Type v} {ν : Type w} {S : System σ ι} {G G₁ G₂ : σ → ι → Prop}
  {low : σ → Prop} {view : σ → ν} {s t : σ} {n : ℕ}

/-- The states reached by `n` low steps and any number of high ones. -/
inductive ReachableIn (S : System σ ι) (G : σ → ι → Prop) (low : σ → Prop) : ℕ → σ → Prop where
  | init : ReachableIn S G low 0 S.init
  | high {n : ℕ} {s s' : σ} {c : ι} :
      ReachableIn S G low n s → ¬ low s → G s c → S.next c s = some s' → ReachableIn S G low n s'
  | low {n : ℕ} {s s' : σ} {c : ι} :
      ReachableIn S G low n s → low s → G s c → S.next c s = some s' →
        ReachableIn S G low (n + 1) s'

namespace ReachableIn

theorem reachable (h : ReachableIn S G low n s) : Reachable S G s := by
  induction h with
  | init =>
      exact .init
  | high _ _ hg hs ih =>
      exact .step ih hg hs
  | low _ _ hg hs ih =>
      exact .step ih hg hs

theorem of_reachable (low : σ → Prop) (hr : Reachable S G s) : ∃ n, ReachableIn S G low n s := by
  induction hr with
  | init =>
      exact ⟨0, .init⟩
  | @step s s' c _ hg hs ih =>
      rcases ih with ⟨n, hn⟩
      by_cases hlow : low s
      · exact ⟨n + 1, .low hn hlow hg hs⟩
      · exact ⟨n, .high hn hlow hg hs⟩

/-- On the way to its `n`-th low step a run has made each earlier one. -/
theorem exists_low {clock : σ → ℕ}
    (hclock : ∀ s c s', Reachable S G s → S.next c s = some s' → clock s ≤ clock s')
    (h : ReachableIn S G low n s) {m : ℕ} (hm : m < n) :
    ∃ s₀ c s₁, ReachableIn S G low m s₀ ∧ low s₀ ∧ S.next c s₀ = some s₁ ∧
      clock s₁ ≤ clock s := by
  induction h with
  | init =>
      exact absurd hm (Nat.not_lt_zero m)
  | high hr _ _ hs ih =>
      rcases ih hm with ⟨s₀, c, s₁, hr₀, hlow₀, hs₀, hle⟩
      exact ⟨s₀, c, s₁, hr₀, hlow₀, hs₀, hle.trans (hclock _ _ _ hr.reachable hs)⟩
  | @low k s s' c hr hlow hg hs ih =>
      rcases Nat.lt_succ_iff_lt_or_eq.1 hm with hlt | rfl
      · rcases ih hlt with ⟨s₀, c, s₁, hr₀, hlow₀, hs₀, hle⟩
        exact ⟨s₀, c, s₁, hr₀, hlow₀, hs₀, hle.trans (hclock _ _ _ hr.reachable hs)⟩
      · exact ⟨s, c, s', hr, hlow, hs, le_rfl⟩

end ReachableIn

/-- High steps are not seen, and what a low step does to the view depends on the view. -/
structure Unwinding (S : System σ ι) (low : σ → Prop) (view : σ → ν) : Prop where
  high : ∀ s c s', Reachable S (fun _ _ => True) s → ¬ low s → S.next c s = some s' →
    view s' = view s
  low : ∀ s t c s' t', Reachable S (fun _ _ => True) s → Reachable S (fun _ _ => True) t →
    low s → low t → view s = view t → S.next c s = some s' → S.next c t = some t' →
    view s' = view t'

/-- States that look the same get the same input for a low step. -/
def Alike (S : System σ ι) (low : σ → Prop) (view : σ → ν) (G₁ G₂ : σ → ι → Prop) : Prop :=
  ∀ s t c d s' t', low s → low t → view s = view t → G₁ s c → G₂ t d → S.next c s = some s' →
    S.next d t = some t' → c = d

namespace Unwinding

theorem high_of (h : Unwinding S low view) (hr : ReachableIn S G low n s) {c : ι}
    (hlow : ¬ low s) (hs : S.next c s = some t) : view t = view s :=
  h.high s c t (hr.reachable.mono (fun _ _ _ => trivial)) hlow hs

/-- Before the first low step nothing has been seen. -/
theorem view_zero (h : Unwinding S low view) (hr : ReachableIn S G low 0 s) :
    view s = view S.init := by
  generalize hn : 0 = n at hr
  induction hr with
  | init =>
      rfl
  | high hr hlow _ hs ih =>
      exact (h.high_of hr hlow hs).trans (ih hn)
  | low =>
      cases hn

/-- Since the last low step nothing has been seen. -/
theorem exists_last (h : Unwinding S low view) (hr : ReachableIn S G low (n + 1) s) :
    ∃ s₀ c s₁, ReachableIn S G low n s₀ ∧ low s₀ ∧ G s₀ c ∧ S.next c s₀ = some s₁ ∧
      view s = view s₁ := by
  generalize hn : n + 1 = k at hr
  induction hr with
  | init =>
      cases hn
  | high hr hlow _ hs ih =>
      rcases ih hn with ⟨s₀, c, s₁, hr₀, hlow₀, hg₀, hs₀, hview⟩
      exact ⟨s₀, c, s₁, hr₀, hlow₀, hg₀, hs₀, (h.high_of hr hlow hs).trans hview⟩
  | @low k s s' c hr hlow hg hs ih =>
      cases hn
      exact ⟨s, c, s', hr, hlow, hg, hs, rfl⟩

/-- After as many low steps, two runs look the same. -/
theorem view_eq (h : Unwinding S low view) (halike : Alike S low view G₁ G₂)
    (hs : ReachableIn S G₁ low n s) (ht : ReachableIn S G₂ low n t) : view s = view t := by
  induction n generalizing s t with
  | zero =>
      exact (h.view_zero hs).trans (h.view_zero ht).symm
  | succ n ih =>
      rcases h.exists_last hs with ⟨s₀, c, s₁, hs₀, hlow, hg, hstep, hview⟩
      rcases h.exists_last ht with ⟨t₀, d, t₁, ht₀, hlow', hg', hstep', hview'⟩
      have hbefore : view s₀ = view t₀ := ih hs₀ ht₀
      obtain rfl : c = d := halike s₀ t₀ c d s₁ t₁ hlow hlow' hbefore hg hg' hstep hstep'
      have hafter : view s₁ = view t₁ :=
        h.low s₀ t₀ c s₁ t₁ (hs₀.reachable.mono (fun _ _ _ => trivial))
          (ht₀.reachable.mono (fun _ _ _ => trivial)) hlow hlow' hbefore hstep hstep'
      exact hview.trans (hafter.trans hview'.symm)

/-- A state that is reached by the time `T`, and from which, as far as can be seen, every low step
comes after `T`. -/
structure Settled (S : System σ ι) (low : σ → Prop) (view : σ → ν) (clock : σ → ℕ) (T : ℕ)
    (s : σ) : Prop where
  le : clock s ≤ T
  lt : ∀ s₀ c s₁, low s₀ → view s₀ = view s → S.next c s₀ = some s₁ → T < clock s₁

/-- A settled state has made at least as many low steps as any state reached by then. -/
theorem le_of_settled (h : Unwinding S low view) (halike : Alike S low view G₁ G₂) {clock : σ → ℕ}
    (hclock : ∀ s c s', Reachable S G₂ s → S.next c s = some s' → clock s ≤ clock s')
    {T m : ℕ} (hs : ReachableIn S G₁ low m s) (ht : ReachableIn S G₂ low n t)
    (hsettled : Settled S low view clock T s) (hle : clock t ≤ T) : n ≤ m := by
  by_contra hlt
  rcases ht.exists_low hclock (Nat.lt_of_not_le hlt) with ⟨t₀, d, t₁, ht₀, hlow, hstep, hbefore⟩
  have hview : view t₀ = view s := (h.view_eq halike hs ht₀).symm
  exact absurd (hbefore.trans hle) (not_le_of_gt (hsettled.lt t₀ d t₁ hlow hview hstep))

/-- At the same time, two runs look the same. -/
theorem view_eq_at (h : Unwinding S low view) (halike : Alike S low view G₁ G₂) {clock : σ → ℕ}
    (hclock : ∀ s c s', Reachable S (fun _ _ => True) s → S.next c s = some s' →
      clock s ≤ clock s') {T : ℕ} (hs : Reachable S G₁ s) (ht : Reachable S G₂ t)
    (hsT : Settled S low view clock T s) (htT : Settled S low view clock T t) :
    view s = view t := by
  have halike' : Alike S low view G₂ G₁ :=
    fun s t c d s' t' hs ht hview hg hg' hstep hstep' =>
      (halike t s d c t' s' ht hs hview.symm hg' hg hstep' hstep).symm
  have hany : ∀ {G : σ → ι → Prop} {s : σ}, Reachable S G s → Reachable S (fun _ _ => True) s :=
    fun hr => hr.mono (fun _ _ _ => trivial)
  rcases ReachableIn.of_reachable low hs with ⟨m, hm⟩
  rcases ReachableIn.of_reachable low ht with ⟨n, hn⟩
  have hle := h.le_of_settled halike (fun s c s' hr => hclock s c s' (hany hr)) hm hn hsT htT.le
  have hge := h.le_of_settled halike' (fun s c s' hr => hclock s c s' (hany hr)) hn hm htT hsT.le
  obtain rfl : m = n := le_antisymm hge hle
  exact h.view_eq halike hm hn

end Unwinding

end Transition
