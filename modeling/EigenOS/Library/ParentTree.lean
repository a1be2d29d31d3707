import Mathlib.Logic.Relation
import Mathlib.Tactic.Common

/-!
# Trees given by parent links

A tree is a function from each node to its parent.  `Climbs parent node ancestor`
says that following the links from `node` reaches `ancestor`.  Three changes keep
every live node below the root: one that leaves the links of a parent-closed set
alone, a new leaf, and moving a node to a place outside its own subtree.
-/

namespace EigenOS.ParentTree

variable {Node : Type*} {parent newParent : Node → Node}

/-- Following the parent links from `node` reaches `ancestor`. -/
def Climbs (parent : Node → Node) (node ancestor : Node) : Prop :=
  Relation.ReflTransGen (fun child above => parent child = above) node ancestor

@[refl]
theorem Climbs.refl (node : Node) : Climbs parent node node :=
  Relation.ReflTransGen.refl

theorem Climbs.step {node ancestor : Node} (hrest : Climbs parent (parent node) ancestor) :
    Climbs parent node ancestor :=
  Relation.ReflTransGen.head rfl hrest

theorem Climbs.trans {node middle ancestor : Node} (hfirst : Climbs parent node middle)
    (hsecond : Climbs parent middle ancestor) : Climbs parent node ancestor :=
  Relation.ReflTransGen.trans hfirst hsecond

variable (parent) in
theorem climbs_parent (node : Node) : Climbs parent node (parent node) :=
  Relation.ReflTransGen.single rfl

theorem climbs_iff_eq_or_parent {node ancestor : Node} :
    Climbs parent node ancestor ↔ node = ancestor ∨ Climbs parent (parent node) ancestor := by
  constructor
  · intro hclimbs
    rcases Relation.ReflTransGen.cases_head hclimbs with heq | ⟨above, habove, hrest⟩
    · exact Or.inl heq
    · exact Or.inr (habove ▸ hrest)
  · rintro (rfl | hrest)
    · exact Climbs.refl _
    · exact hrest.step

theorem Climbs.eq_of_fixed {node ancestor : Node} (hfixed : parent node = node)
    (hclimbs : Climbs parent node ancestor) : ancestor = node := by
  induction hclimbs with
  | refl => rfl
  | tail _ hstep ih => rw [← hstep, ih, hfixed]

/-- A node that its own parent climbs to lies on a cycle, and so does everything above
it: only the root can. -/
theorem Climbs.eq_root_of_cycle {node root : Node} (hroot : parent root = root)
    (hclimbs : Climbs parent node root) (hcycle : Climbs parent (parent node) node) :
    node = root := by
  have hback : Climbs parent root node := by
    clear hroot
    induction hclimbs with
    | refl => exact Climbs.refl _
    | tail _ hstep ih =>
        subst hstep
        rcases climbs_iff_eq_or_parent.mp ih with rfl | hrest
        · exact hcycle
        · exact hrest
  exact hback.eq_of_fixed hroot

theorem Climbs.congr_on {live : Node → Prop}
    (hclosed : ∀ node, live node → live (parent node))
    (hsame : ∀ node, live node → newParent node = parent node)
    {node ancestor : Node} (hlive : live node) (hclimbs : Climbs parent node ancestor) :
    Climbs newParent node ancestor := by
  induction hclimbs using Relation.ReflTransGen.head_induction_on with
  | refl => exact Climbs.refl _
  | head hstep _ ih =>
      subst hstep
      apply Climbs.step
      rw [hsame _ hlive]
      exact ih (hclosed _ hlive)

theorem Climbs.congr_off {moved node : Node}
    (hsame : ∀ node, node ≠ moved → newParent node = parent node)
    (hclimbs : Climbs parent node moved) : Climbs newParent node moved := by
  induction hclimbs using Relation.ReflTransGen.head_induction_on with
  | refl => exact Climbs.refl _
  | @head child _ hstep _ ih =>
      subst hstep
      by_cases heq : child = moved
      · rw [heq]
      · apply Climbs.step
        rw [hsame child heq]
        exact ih

theorem climbs_update_iff [DecidableEq Node] {moved target node : Node} :
    Climbs (Function.update parent moved target) node moved ↔ Climbs parent node moved := by
  constructor
  · exact Climbs.congr_off fun node hne => (Function.update_of_ne hne _ _).symm
  · exact Climbs.congr_off fun node hne => Function.update_of_ne hne _ _

/-- A climb that never meets `moved` does not notice that `moved` has a new parent. -/
theorem Climbs.update_of_not_through [DecidableEq Node] {moved target node ancestor : Node}
    (hclimbs : Climbs parent node ancestor) (hnot : ¬Climbs parent node moved) :
    Climbs (Function.update parent moved target) node ancestor := by
  have hclosed : ∀ node, ¬Climbs parent node moved → ¬Climbs parent (parent node) moved :=
    fun node hnode hup => hnode hup.step
  have hsame : ∀ node, ¬Climbs parent node moved →
      Function.update parent moved target node = parent node := by
    intro node hnode
    have hne : node ≠ moved := by
      rintro rfl
      exact hnode (Climbs.refl _)
    exact Function.update_of_ne hne _ _
  exact hclimbs.congr_on hclosed hsame hnot

/-- Moving a node, with everything below it, to a place outside its own subtree. -/
theorem Climbs.update [DecidableEq Node] {moved target root : Node}
    (htarget : Climbs parent target root) (houtside : ¬Climbs parent target moved)
    {node : Node} (hclimbs : Climbs parent node root) :
    Climbs (Function.update parent moved target) node root := by
  have hmoved : Climbs (Function.update parent moved target) moved root := by
    apply Climbs.step
    rw [Function.update_self]
    exact htarget.update_of_not_through houtside
  induction hclimbs using Relation.ReflTransGen.head_induction_on with
  | refl => exact Climbs.refl _
  | @head child above hstep _ ih =>
      by_cases heq : child = moved
      · exact heq ▸ hmoved
      · apply Climbs.step
        rw [Function.update_of_ne heq, hstep]
        exact ih

end EigenOS.ParentTree
