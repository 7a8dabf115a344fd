import Mathlib.Combinatorics.SimpleGraph.Walk.Maps

/-!
# LeafSpine — walks in a network of two layers

Every spine is linked to every leaf, and every host to its leaf.  A walk between hosts of different
leaves has four links at least, and one of four links goes up to a spine and down again: there is one
for each spine (`overSpine`, `support_of_length`).

The last part says that a walk between images of nodes is the image of a walk.
-/

namespace LeafSpine

inductive Node (Spine Leaf Host : Type)
  | spine (s : Spine)
  | leaf (l : Leaf)
  | host (h : Host)
  deriving DecidableEq

open Node

variable (Spine : Type) {Leaf Host : Type} (home : Host → Leaf)

inductive Link : Node Spine Leaf Host → Node Spine Leaf Host → Prop
  | fabric (s : Spine) (l : Leaf) : Link (spine s) (leaf l)
  | access (h : Host) : Link (leaf (home h)) (host h)

def graph : SimpleGraph (Node Spine Leaf Host) where
  Adj x y := Link Spine home x y ∨ Link Spine home y x
  symm := ⟨fun _ _ h => h.symm⟩
  loopless := ⟨by
    rintro x (h | h) <;> cases h⟩

variable {Spine home} {s : Spine} {l : Leaf} {h h' : Host} {x : Node Spine Leaf Host}

theorem adj_spine : (graph Spine home).Adj (spine s) x ↔ ∃ l, x = leaf l := by
  constructor
  · rintro (hlink | hlink)
    · cases hlink with
      | fabric s l =>
          exact ⟨l, rfl⟩
    · cases hlink
  · rintro ⟨l, rfl⟩
    exact .inl (.fabric s l)

theorem adj_host : (graph Spine home).Adj (host h) x ↔ x = leaf (home h) := by
  constructor
  · rintro (hlink | hlink)
    · cases hlink
    · cases hlink with
      | access h =>
          rfl
  · rintro rfl
    exact .inr (.access h)

theorem adj_leaf : (graph Spine home).Adj (leaf l) x ↔
    (∃ s, x = spine s) ∨ ∃ h, home h = l ∧ x = host h := by
  constructor
  · rintro (hlink | hlink)
    · cases hlink with
      | access h =>
          exact .inr ⟨h, rfl, rfl⟩
    · cases hlink with
      | fabric s l =>
          exact .inl ⟨s, rfl⟩
  · rintro (⟨s, rfl⟩ | ⟨h, rfl, rfl⟩)
    · exact .inr (.fabric s l)
    · exact .inl (.access h)

/-! ## From a leaf -/

/-- A walk from a leaf to a host that is not on it. -/
theorem three_le_length (p : (graph Spine home).Walk (leaf l) (host h)) (hne : l ≠ home h) :
    3 ≤ p.length := by
  cases p with
  | cons hxy q =>
      cases q with
      | nil =>
          rcases adj_leaf.1 hxy with ⟨s, hs⟩ | ⟨h', hl, hh⟩
          · cases hs
          · cases hh
            exact absurd hl.symm hne
      | cons hyz q =>
          cases q with
          | nil =>
              -- The node before a host is its leaf, and leaves are not linked to each other.
              have hleaf := adj_host.1 hyz.symm
              rw [hleaf] at hxy
              rcases adj_leaf.1 hxy with ⟨s, hs⟩ | ⟨h', -, hh⟩
              · cases hs
              · cases hh
          | cons hzw q =>
              simp only [SimpleGraph.Walk.length_cons]
              omega

/-- One of three links goes over a spine. -/
theorem support_of_length_three (p : (graph Spine home).Walk (leaf l) (host h)) (hne : l ≠ home h)
    (hlen : p.length = 3) : ∃ s, p.support = [leaf l, spine s, leaf (home h), host h] := by
  cases p with
  | cons hxy q =>
      cases q with
      | nil =>
          simp at hlen
      | cons hyz q =>
          cases q with
          | nil =>
              simp at hlen
          | cons hzw q =>
              cases q with
              | cons _ _ =>
                  simp at hlen
              | nil =>
                  have hleaf := adj_host.1 hzw.symm
                  subst hleaf
                  rcases adj_leaf.1 hxy with ⟨s, rfl⟩ | ⟨h', hl, rfl⟩
                  · exact ⟨s, rfl⟩
                  · have hhome : home h = home h' := Node.leaf.inj (adj_host.1 hyz)
                    exact absurd (hl.symm.trans hhome.symm) hne

/-! ## From a spine -/

theorem two_le_length_of_spine (p : (graph Spine home).Walk (spine s) (host h)) :
    2 ≤ p.length := by
  cases p with
  | cons hxy q =>
      rcases adj_spine.1 hxy with ⟨l, rfl⟩
      cases q with
      | cons hyz q =>
          simp only [SimpleGraph.Walk.length_cons]
          omega

/-- The one walk down. -/
theorem support_of_spine (p : (graph Spine home).Walk (spine s) (host h)) (hlen : p.length = 2) :
    p.support = [spine s, leaf (home h), host h] := by
  cases p with
  | cons hxy q =>
      cases q with
      | nil =>
          simp at hlen
      | cons hyz q =>
          cases q with
          | nil =>
              have hleaf := adj_host.1 hyz.symm
              subst hleaf
              rfl
          | cons _ _ =>
              simp at hlen

def down (home : Host → Leaf) (s : Spine) (h : Host) : (graph Spine home).Walk (spine s) (host h) :=
  .cons (.inl (.fabric s (home h))) <| .cons (.inl (.access h)) .nil

/-! ## Between hosts -/

/-- Hosts of different leaves are four links apart. -/
theorem four_le_length (p : (graph Spine home).Walk (host h) (host h')) (hne : home h ≠ home h') :
    4 ≤ p.length := by
  cases p with
  | nil =>
      exact absurd rfl hne
  | cons hxy q =>
      obtain rfl := adj_host.1 hxy
      have hle := three_le_length q hne
      simp only [SimpleGraph.Walk.length_cons]
      omega

/-- A walk of four links goes over a spine. -/
theorem support_of_length (p : (graph Spine home).Walk (host h) (host h')) (hne : home h ≠ home h')
    (hlen : p.length = 4) :
    ∃ s, p.support = [host h, leaf (home h), spine s, leaf (home h'), host h'] := by
  cases p with
  | nil =>
      simp at hlen
  | cons hxy q =>
      obtain rfl := adj_host.1 hxy
      have hthree : q.length = 3 := by simpa using hlen
      rcases support_of_length_three q hne hthree with ⟨s, hs⟩
      exact ⟨s, by rw [SimpleGraph.Walk.support_cons, hs]⟩

/-- The walk over a given spine. -/
def overSpine (home : Host → Leaf) (h h' : Host) (s : Spine) :
    (graph Spine home).Walk (host h) (host h') :=
  .cons (adj_host.2 rfl) <| .cons (.inr (.fabric s (home h))) <|
    .cons (.inl (.fabric s (home h'))) <| .cons (.inl (.access h')) .nil

theorem length_overSpine : (overSpine home h h' s).length = 4 := rfl

theorem support_overSpine :
    (overSpine home h h' s).support = [host h, leaf (home h), spine s, leaf (home h'), host h'] := rfl

/-- Hosts of one leaf are two links apart. -/
theorem two_le_length (p : (graph Spine home).Walk (host h) (host h')) (hne : h ≠ h') :
    2 ≤ p.length := by
  cases p with
  | nil =>
      exact absurd rfl hne
  | cons hxy q =>
      obtain rfl := adj_host.1 hxy
      cases q with
      | cons hyz q =>
          simp only [SimpleGraph.Walk.length_cons]
          omega

theorem support_of_length_two (p : (graph Spine home).Walk (host h) (host h'))
    (hlen : p.length = 2) : p.support = [host h, leaf (home h), host h'] := by
  cases p with
  | nil =>
      simp at hlen
  | cons hxy q =>
      obtain rfl := adj_host.1 hxy
      cases q with
      | cons hyz q =>
          cases q with
          | nil =>
              rfl
          | cons _ _ =>
              simp at hlen

def across (h h' : Host) (heq : home h = home h') : (graph Spine home).Walk (host h) (host h') :=
  .cons (adj_host.2 rfl) <| .cons (adj_leaf.2 (.inr ⟨h', heq.symm, rfl⟩)) .nil

/-! ## Images of walks -/

/-- If all neighbours of images are images of neighbours, then a walk between images is one. -/
theorem exists_walk {V W : Type} {G : SimpleGraph V} {G' : SimpleGraph W} {f : V → W}
    (hf : Function.Injective f) (hlift : ∀ u y, G'.Adj (f u) y → ∃ v, y = f v ∧ G.Adj u v)
    {x y : W} (p : G'.Walk x y) {u v : V} (hx : x = f u) (hy : y = f v) :
    ∃ q : G.Walk u v, p.support = q.support.map f := by
  induction p generalizing u with
  | nil =>
      obtain rfl : u = v := hf (hx.symm.trans hy)
      exact ⟨.nil, by simp [hx]⟩
  | cons hxz p ih =>
      subst hx
      rcases hlift u _ hxz with ⟨w, hw, huw⟩
      rcases ih hw hy with ⟨q, hq⟩
      exact ⟨.cons huw q, by simp [hq]⟩

/-- Images of walks are walks. -/
theorem exists_image {V W : Type} {G : SimpleGraph V} {G' : SimpleGraph W} {f : V → W}
    (hadj : ∀ u v, G.Adj u v → G'.Adj (f u) (f v)) {u v : V} (q : G.Walk u v) :
    ∃ p : G'.Walk (f u) (f v), p.length = q.length ∧ p.support = q.support.map f := by
  let hom : G →g G' := ⟨f, fun {a b} => hadj a b⟩
  exact ⟨q.map hom, SimpleGraph.Walk.length_map hom q, SimpleGraph.Walk.support_map hom q⟩

end LeafSpine
