import Mathlib.Data.List.Basic

/-!
# Growth — programs that add to a state

A program in `StateT σ Option` may read its state, change it and fail.  A program that sets
something up does less: it adds entries to the state, and fails only if one of them does not fit.
`G.Adds m l b` says this of `m`: from any state that has room for the entries `l`, it adds them and
returns `b`.  There is one rule for each way to build a program.
-/

/-- A state that takes entries, as far as they fit. -/
structure Growth (σ ℓ : Type*) where
  extend : σ → List ℓ → σ
  Fits : σ → List ℓ → Prop
  extend_nil : ∀ s, extend s [] = s
  extend_append : ∀ s l l', extend s (l ++ l') = extend (extend s l) l'
  fits_append : ∀ s l l', Fits s (l ++ l') ↔ Fits s l ∧ Fits (extend s l) l'

namespace Growth

universe u

variable {σ ℓ : Type u} {α β : Type u}

/-- A program goes on from where its first step succeeded. -/
theorem run_bind_of {m : StateT σ Option α} {k : α → StateT σ Option β} {s s' : σ} {a : α}
    (h : m.run s = some (a, s')) : (m >>= k).run s = (k a).run s' := by
  rw [StateT.run_bind, h]
  rfl

/-- A step that can only fail. -/
theorem run_lift {x : Option α} {a : α} (h : x = some a) (s : σ) :
    (liftM x : StateT σ Option α).run s = some (a, s) := by
  rw [h]
  rfl

/-- A loop in which no round fails. -/
theorem mapM_eq_some {ι : Type} {f : ι → Option α} {g : ι → α} {xs : List ι}
    (h : ∀ x ∈ xs, f x = some (g x)) : xs.mapM f = some (xs.map g) := by
  induction xs with
  | nil =>
      rfl
  | cons x xs ih =>
      have hhead : f x = some (g x) := h x List.mem_cons_self
      have htail : xs.mapM f = some (xs.map g) := ih (fun y hy => h y (List.mem_cons_of_mem x hy))
      rw [List.mapM_cons, hhead, htail]
      rfl

variable (G : Growth σ ℓ)

/-- The program adds `l` and returns `b`. -/
def Adds (m : StateT σ Option β) (l : List ℓ) (b : β) : Prop :=
  ∀ s, G.Fits s l → m.run s = some (b, G.extend s l)

variable {G}

namespace Adds

theorem pure (b : β) : G.Adds (Pure.pure b) [] b := by
  intro s _
  rw [G.extend_nil]
  rfl

/-- What can only fail adds nothing. -/
theorem lift {x : Option β} {b : β} (h : x = some b) :
    G.Adds (liftM x : StateT σ Option β) [] b := by
  intro s _
  rw [G.extend_nil]
  exact run_lift h s

theorem bind {m : StateT σ Option α} {k : α → StateT σ Option β} {l l' : List ℓ} {a : α} {b : β}
    (hm : G.Adds m l a) (hk : G.Adds (k a) l' b) : G.Adds (m >>= k) (l ++ l') b := by
  intro s hfits
  rcases (G.fits_append s l l').1 hfits with ⟨hl, hl'⟩
  calc (m >>= k).run s
      = (k a).run (G.extend s l) := run_bind_of (hm s hl)
    _ = some (b, G.extend (G.extend s l) l') := hk _ hl'
    _ = some (b, G.extend s (l ++ l')) := by rw [G.extend_append]

/-- A first step that adds nothing. -/
theorem bind_nil {m : StateT σ Option α} {k : α → StateT σ Option β} {l : List ℓ} {a : α} {b : β}
    (hm : G.Adds m [] a) (hk : G.Adds (k a) l b) : G.Adds (m >>= k) l b :=
  bind hm hk

/-- A last step that only returns. -/
theorem bind_pure {m : StateT σ Option α} {l : List ℓ} {a : α} {g : α → β} (hm : G.Adds m l a) :
    G.Adds (m >>= fun x => Pure.pure (g x)) l (g a) := by
  intro s hfits
  rw [run_bind_of (hm s hfits)]
  rfl

/-- A loop adds what its rounds add, one after the other, and returns what they return. -/
theorem mapM {ι : Type} {f : ι → StateT σ Option β} {l : ι → List ℓ} {b : ι → β} {xs : List ι}
    (h : ∀ x ∈ xs, G.Adds (f x) (l x) (b x)) : G.Adds (xs.mapM f) (xs.flatMap l) (xs.map b) := by
  induction xs with
  | nil =>
      exact pure []
  | cons x xs ih =>
      have hhead : G.Adds (f x) (l x) (b x) := h x List.mem_cons_self
      have htail : G.Adds (xs.mapM f) (xs.flatMap l) (xs.map b) :=
        ih (fun y hy => h y (List.mem_cons_of_mem x hy))
      rw [List.mapM_cons, List.flatMap_cons, List.map_cons]
      refine bind hhead ?_
      exact bind_pure htail

end Adds

end Growth
