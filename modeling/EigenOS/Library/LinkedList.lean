import Mathlib.Data.List.Nodup

/-!
# Doubly linked lists

Nodes with links to the next and to the previous one.  The list is seen from a place in it: the
nodes before the place, nearest first, and the nodes after it.
-/

namespace EigenOS.LinkedList

open Function

variable {Node : Type*} (next prev : Node → Option Node)

/-- The nodes before a place, with the node that follows them. -/
def Leftward (right : Option Node) : List Node → Prop
  | [] => True
  | a :: rest => next a = right ∧ prev a = rest.head? ∧ Leftward (some a) rest

/-- The nodes after a place, with the node in front of them. -/
def Rightward (left : Option Node) : List Node → Prop
  | [] => True
  | a :: rest => next a = rest.head? ∧ prev a = left ∧ Rightward (some a) rest

/-- A list seen from a place in it. -/
structure Linked (before after : List Node) : Prop where
  leftward : Leftward next prev after.head? before
  rightward : Rightward next prev before.head? after
  nodup : (before ++ after).Nodup

variable {next prev}

theorem Leftward.congr {next' prev' : Node → Option Node} {right : Option Node}
    {nodes : List Node} (h : Leftward next prev right nodes)
    (hnext : ∀ a ∈ nodes, next' a = next a) (hprev : ∀ a ∈ nodes, prev' a = prev a) :
    Leftward next' prev' right nodes := by
  induction nodes generalizing right with
  | nil => trivial
  | cons a rest ih =>
      obtain ⟨hright, hleft, hrest⟩ := h
      refine ⟨?_, ?_, ?_⟩
      · exact (hnext a List.mem_cons_self).trans hright
      · exact (hprev a List.mem_cons_self).trans hleft
      · exact ih hrest (fun b hb => hnext b (List.mem_cons_of_mem _ hb))
          fun b hb => hprev b (List.mem_cons_of_mem _ hb)

theorem Rightward.congr {next' prev' : Node → Option Node} {left : Option Node}
    {nodes : List Node} (h : Rightward next prev left nodes)
    (hnext : ∀ a ∈ nodes, next' a = next a) (hprev : ∀ a ∈ nodes, prev' a = prev a) :
    Rightward next' prev' left nodes := by
  induction nodes generalizing left with
  | nil => trivial
  | cons a rest ih =>
      obtain ⟨hright, hleft, hrest⟩ := h
      refine ⟨?_, ?_, ?_⟩
      · exact (hnext a List.mem_cons_self).trans hright
      · exact (hprev a List.mem_cons_self).trans hleft
      · exact ih hrest (fun b hb => hnext b (List.mem_cons_of_mem _ hb))
          fun b hb => hprev b (List.mem_cons_of_mem _ hb)

theorem Rightward.unique {left left' : Option Node} {nodes nodes' : List Node}
    (h : Rightward next prev left nodes) (h' : Rightward next prev left' nodes')
    (hhead : nodes.head? = nodes'.head?) : nodes = nodes' := by
  induction nodes generalizing left left' nodes' with
  | nil =>
      cases nodes' with
      | nil => rfl
      | cons a rest => exact nomatch hhead
  | cons a rest ih =>
      cases nodes' with
      | nil => exact nomatch hhead
      | cons b rest' =>
          obtain rfl : a = b := Option.some.inj hhead
          exact congrArg (a :: ·) (ih h.2.2 h'.2.2 (h.1.symm.trans h'.1))

variable {before after : List Node} {a : Node}

theorem Linked.forward (h : Linked next prev before (a :: after)) :
    Linked next prev (a :: before) after := by
  obtain ⟨hright, hleft, hrest⟩ := h.rightward
  exact ⟨⟨hright, hleft, h.leftward⟩, hrest, List.perm_middle.nodup_iff.mp h.nodup⟩

theorem Linked.backward (h : Linked next prev (a :: before) after) :
    Linked next prev before (a :: after) := by
  obtain ⟨hright, hleft, hrest⟩ := h.leftward
  exact ⟨hrest, ⟨hright, hleft, h.rightward⟩, List.perm_middle.nodup_iff.mpr h.nodup⟩

theorem Linked.whole (h : Linked next prev before after) :
    Linked next prev [] (before.reverse ++ after) := by
  induction before generalizing after with
  | nil => exact h
  | cons a rest ih =>
      rw [List.reverse_cons, List.append_assoc]
      exact ih h.backward

theorem Linked.next_eq (h : Linked next prev before (a :: after)) :
    next a = after.head? := h.rightward.1

theorem Linked.prev_eq (h : Linked next prev before (a :: after)) :
    prev a = before.head? := h.rightward.2.1

theorem Linked.ne_of_mem_after {a b : Node} (h : Linked next prev before (a :: after))
    (hb : b ∈ after) : b ≠ a := by
  rintro rfl
  have hnodup := (List.nodup_append.mp h.nodup).2.1
  exact (List.nodup_cons.mp hnodup).1 hb

theorem Linked.ne_of_mem_before {a b : Node} (h : Linked next prev before (a :: after))
    (hb : b ∈ before) : b ≠ a := by
  rintro rfl
  exact (List.nodup_append.mp h.nodup).2.2 b hb b List.mem_cons_self rfl

section Unlink

variable [DecidableEq Node]

/-- The links after the node behind `p` has been taken out. -/
def unlinkNext (next : Node → Option Node) (p a : Node) : Node → Option Node :=
  update next p (next a)

def unlinkPrev (next prev : Node → Option Node) (p a : Node) : Node → Option Node :=
  match next a with
  | none => prev
  | some n => update prev n (some p)

theorem unlinkNext_of_ne {p a b : Node} (hb : b ≠ p) : unlinkNext next p a b = next b :=
  update_of_ne hb _ _

theorem unlinkPrev_of_ne {p a b : Node} (hb : ∀ n, next a = some n → b ≠ n) :
    unlinkPrev next prev p a b = prev b := by
  unfold unlinkPrev
  cases hn : next a with
  | none => rfl
  | some n => exact update_of_ne (hb n hn) _ _

theorem Linked.unlink {p a : Node} (h : Linked next prev (p :: before) (a :: after)) :
    Linked (unlinkNext next p a) (unlinkPrev next prev p a) before (p :: after) := by
  have hnext : next a = after.head? := h.next_eq
  have hfirst : ∀ n, next a = some n → n ∈ after := by
    intro n hn
    exact List.mem_of_head? (hnext ▸ hn)
  have hback := h.backward
  have hpAfter : ∀ b ∈ after, b ≠ p :=
    fun b hb => hback.ne_of_mem_after (List.mem_cons_of_mem _ hb)
  have hpBefore : ∀ b ∈ before, b ≠ p := fun b hb => hback.ne_of_mem_before hb
  have hapart : ∀ b ∈ before, b ∉ after := by
    intro b hb hafter
    exact (List.nodup_append.mp h.nodup).2.2 b (List.mem_cons_of_mem _ hb) b
      (List.mem_cons_of_mem _ hafter) rfl
  refine ⟨?_, ⟨?_, ?_, ?_⟩, ?_⟩
  · refine hback.leftward.congr (fun b hb => unlinkNext_of_ne (hpBefore b hb)) fun b hb => ?_
    exact unlinkPrev_of_ne fun n hn heq => hapart b hb (heq ▸ hfirst n hn)
  · exact (update_self ..).trans hnext
  · rw [unlinkPrev_of_ne fun n hn heq => hpAfter n (hfirst n hn) heq.symm]
    exact hback.prev_eq
  · obtain ⟨_, _, hrest⟩ := h.rightward
    cases after with
    | nil => trivial
    | cons n rest =>
        obtain ⟨hright, _, htail⟩ := hrest
        have hn : next a = some n := hnext
        have hprev : unlinkPrev next prev p a = update prev n (some p) := by
          unfold unlinkPrev
          rw [hn]
        have hnRest : ∀ b ∈ rest, b ≠ n := fun b hb => h.forward.ne_of_mem_after hb
        rw [hprev]
        refine ⟨?_, update_self .., htail.congr (fun b hb => ?_) fun b hb => ?_⟩
        · rw [unlinkNext_of_ne (hpAfter n List.mem_cons_self)]
          exact hright
        · exact unlinkNext_of_ne (hpAfter b (List.mem_cons_of_mem _ hb))
        · exact update_of_ne (hnRest b hb) _ _
  · have hsub : (before ++ p :: after).Sublist (before ++ p :: a :: after) :=
      (List.Sublist.refl before).append ((List.sublist_cons_self a after).cons_cons p)
    exact hback.nodup.sublist hsub

end Unlink

end EigenOS.LinkedList
