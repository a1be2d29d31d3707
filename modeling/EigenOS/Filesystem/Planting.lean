import Mathlib.Data.List.GetD
import EigenOS.Filesystem.TreeSafety

/-!
# Tables from lists of nodes

The table that holds the nodes of a list in slots 1, 2, ... behind the root, and what makes it
a tree: every node hangs off the root or off a directory that stands before it in the list.
-/

namespace EigenOS.Filesystem

open Function

/-- The nodes of a list behind the root. -/
def plant (nodes : List FileNode) : Table :=
  fun slot => if slot = rootSlot then rootNode else nodes.getD (slot.val - 1) FileNode.zero

structure Grows (before : List FileNode) (fp : FileNode) : Prop where
  inUse : fp.inUse = true
  parent : fp.parentDir = 0 ∨ ∃ p < before.length, fp.parentDir = ((p + 1 : ℕ) : ℤ) ∧
    (before.getD p FileNode.zero).type = .directory
  terminated : Terminated fp.name
  nonempty : cString fp.name ≠ []
  distinct : ∀ other ∈ before, other.parentDir = fp.parentDir →
    cString other.name ≠ cString fp.name

instance (before : List FileNode) (fp : FileNode) : Decidable (Grows before fp) :=
  decidable_of_iff (fp.inUse = true ∧ (fp.parentDir = 0 ∨ ∃ p < before.length,
      fp.parentDir = ((p + 1 : ℕ) : ℤ) ∧ (before.getD p FileNode.zero).type = .directory) ∧
      Terminated fp.name ∧ cString fp.name ≠ [] ∧
      ∀ other ∈ before, other.parentDir = fp.parentDir → cString other.name ≠ cString fp.name)
    ⟨fun ⟨h₁, h₂, h₃, h₄, h₅⟩ => ⟨h₁, h₂, h₃, h₄, h₅⟩,
      fun h => ⟨h.inUse, h.parent, h.terminated, h.nonempty, h.distinct⟩⟩

/-- Every node of the list may follow those before it, and the list fits the table. -/
def WellPlanted (nodes : List FileNode) : Prop :=
  nodes.length < maxFiles ∧
    ∀ i < nodes.length, Grows (nodes.take i) (nodes.getD i FileNode.zero)

instance : DecidablePred WellPlanted := fun _ => inferInstanceAs (Decidable (_ ∧ _))

theorem plant_root (nodes : List FileNode) : plant nodes rootSlot = rootNode := if_pos rfl

theorem plant_nil : plant [] = initialTable := by
  funext slot
  simp [plant, initialTable]

/-- The slot of the node at a place of the list. -/
def plantSlot (i : ℕ) (hi : i + 1 < maxFiles) : Slot := ⟨i + 1, hi⟩

theorem plantSlot_ne_root {i : ℕ} (hi : i + 1 < maxFiles) : plantSlot i hi ≠ rootSlot := by
  intro heq
  have hval := congrArg Fin.val heq
  change i + 1 = 0 at hval
  omega

theorem plant_plantSlot (nodes : List FileNode) {i : ℕ} (hi : i + 1 < maxFiles) :
    plant nodes (plantSlot i hi) = nodes.getD i FileNode.zero := if_neg (plantSlot_ne_root hi)

theorem plant_append (nodes : List FileNode) (fp : FileNode)
    (hlen : nodes.length + 1 < maxFiles) :
    plant (nodes ++ [fp]) =
      update (plant nodes) (plantSlot nodes.length hlen) fp := by
  funext slot
  by_cases hroot : slot = rootSlot
  · subst hroot
    rw [update_of_ne (plantSlot_ne_root hlen).symm, plant_root, plant_root]
  · have hpos : slot.val ≠ 0 := fun hval => hroot (Fin.ext hval)
    by_cases heq : slot = plantSlot nodes.length hlen
    · subst heq
      rw [update_self, plant_plantSlot, List.getD_append_right _ _ _ _ le_rfl,
        Nat.sub_self]
      rfl
    · have hval : slot.val - 1 ≠ nodes.length := by
        intro hlast
        apply heq
        apply Fin.ext
        change slot.val = nodes.length + 1
        omega
      rw [update_of_ne heq, plant, plant, if_neg hroot, if_neg hroot]
      by_cases hlt : slot.val - 1 < nodes.length
      · rw [List.getD_append _ _ _ _ hlt]
      · rw [List.getD_eq_default _ _ (by rw [List.length_append, List.length_singleton]; omega),
          List.getD_eq_default _ _ (by omega)]

theorem mem_of_plant {nodes : List FileNode} {slot : Slot} (hslot : slot ≠ rootSlot)
    (hused : (plant nodes slot).inUse = true) : plant nodes slot ∈ nodes := by
  rw [plant, if_neg hslot] at hused ⊢
  by_cases hlt : slot.val - 1 < nodes.length
  · rw [List.getD_eq_getElem _ _ hlt]
    exact List.getElem_mem hlt
  · rw [List.getD_eq_default _ _ (by omega)] at hused
    cases hused

theorem WellPlanted.init {nodes : List FileNode} {fp : FileNode}
    (h : WellPlanted (nodes ++ [fp])) : WellPlanted nodes ∧ Grows nodes fp := by
  obtain ⟨hlen, hgrows⟩ := h
  rw [List.length_append, List.length_singleton] at hlen hgrows
  refine ⟨⟨by omega, ?_⟩, ?_⟩
  · intro i hi
    have hnode := hgrows i (by omega)
    rw [List.getD_append _ _ _ _ hi, List.take_append_of_le_length hi.le] at hnode
    exact hnode
  · have hnode := hgrows nodes.length (by omega)
    rw [List.getD_append_right _ _ _ _ le_rfl, Nat.sub_self, List.take_left' rfl] at hnode
    exact hnode

theorem treeInvariant_plant {nodes : List FileNode} (h : WellPlanted nodes) :
    TreeInvariant (plant nodes) := by
  induction nodes using List.reverseRecOn with
  | nil =>
      rw [plant_nil]
      exact treeInvariant_initialTable
  | append_singleton nodes fp ih =>
      obtain ⟨hnodes, hgrows⟩ := h.init
      have hlen : nodes.length + 1 < maxFiles := by
        have hall := h.1
        rw [List.length_append, List.length_singleton] at hall
        exact hall
      rw [plant_append nodes fp hlen]
      refine (ih hnodes).create (plantSlot_ne_root hlen) ?_ hgrows.inUse ?_ hgrows.terminated
        hgrows.nonempty ?_
      · rw [plant_plantSlot, List.getD_eq_default _ _ le_rfl]
        rfl
      · rcases hgrows.parent with hroot | ⟨p, hp, hparent, hdir⟩
        · rw [hroot]
          have hdirRoot : IsDirectory (plant nodes rootSlot) := by
            rw [plant_root]
            exact ⟨rfl, rfl⟩
          exact hdirRoot.isDirIndex
        · have hslot : p + 1 < maxFiles := by omega
          rw [hparent]
          have hdirectory : IsDirectory (plant nodes (plantSlot p hslot)) := by
            rw [plant_plantSlot]
            refine ⟨?_, hdir⟩
            exact (hnodes.2 p hp).inUse
          exact hdirectory.isDirIndex
      · intro slot hroot _ hused hsame
        exact hgrows.distinct _ (mem_of_plant hroot hused) hsame

end EigenOS.Filesystem
