import Mathlib.Order.WellFoundedSet

/-!
# Going down a tree

When one comes to an end by going from child to parent, then one does so too by
going from parent to child, as long as there are finitely many of them.
-/

namespace Descent

variable {Node : Type*} {parent : Node → Node → Prop}

/-- A property of all nodes follows from that of their children. -/
theorem induction_down (up : WellFounded parent) {nodes : Set Node}
    (finite : nodes.Finite) {motive : Node → Prop}
    (below : ∀ p ∈ nodes, (∀ c ∈ nodes, parent p c → motive c) → motive p) :
    ∀ p ∈ nodes, motive p := by
  have irreflexive (c : Node) : ¬ Relation.TransGen parent c c :=
    up.transGen.irrefl.irrefl c
  have order : IsStrictOrder Node fun c p => Relation.TransGen parent p c := {
    irrefl := irreflexive
    trans := fun _ _ _ lower upper => upper.trans lower }
  have down := finite.wellFoundedOn (r := fun c p => Relation.TransGen parent p c)
  intro p member
  exact down.induction member fun q isNode induction =>
    below q isNode fun c isBelow link => induction c isBelow (.single link)

end Descent
