import EigenOS.Library.LinkedList
import EigenOS.Memory.HeapStructure

/-!
# The blocks of a task that exits

`user_heap_release_owner` on the descriptors as they lie in memory, with their links.  It frees
the right blocks for every owner, and it looks at a descriptor that it has given back exactly
where it merges a block into the one before it.
-/

namespace EigenOS.Memory

open EigenOS.LinkedList EigenOS.Ranges Function

/-- The block list in memory: the fields of the descriptor at each address, the descriptors given
back with `kfree`, those looked at afterwards, and the mappings of all address spaces.  `kfree`
leaves the bytes of a descriptor as they are. -/
structure Descriptors where
  userBlocks : Option ℕ
  blk : ℕ → UserBlk
  next : ℕ → Option ℕ
  prev : ℕ → Option ℕ
  released : List ℕ
  stale : List ℕ
  spaces : ℕ → AddressSpace

namespace Descriptors

variable (s : Descriptors)

/-- A descriptor is read or written. -/
def access (a : ℕ) : Descriptors :=
  if a ∈ s.released then { s with stale := s.stale ++ [a] } else s

def setBlk (a : ℕ) (blk : UserBlk) : Descriptors :=
  { s.access a with blk := update s.blk a blk }

/-- The block `a` becomes a part of the block `p` in front of it. -/
def merge (p a : ℕ) : Descriptors :=
  let s := s.setBlk p { s.blk p with npages := (s.blk p).npages + (s.blk a).npages }
  let s := match s.next a with
    | none => s
    | some n => s.access n
  { s with
    next := unlinkNext s.next p a
    prev := unlinkPrev s.next s.prev p a
    released := s.released ++ [a] }

/-- The first part of `user_blk_coalesce`, with the block it goes on with. -/
def mergePrev (b : ℕ) : ℕ × Descriptors :=
  let s := s.access b
  match s.prev b with
  | none => (b, s)
  | some p =>
      let s := s.access p
      if (s.blk p).free = true ∧ (s.blk p).limit = (s.blk b).base then (p, s.merge p b)
      else (b, s)

def mergeNext (b : ℕ) : Descriptors :=
  let s := s.access b
  match s.next b with
  | none => s
  | some n =>
      let s := s.access n
      if (s.blk n).free = true ∧ (s.blk b).limit = (s.blk n).base then s.merge b n else s

/-- `user_blk_coalesce`. -/
def userBlkCoalesce (b : ℕ) : Descriptors := (s.mergePrev b).2.mergeNext (s.mergePrev b).1

/-- The loop of `user_heap_release_owner`, for so many rounds. -/
def releaseLoop (owner : ℤ) : ℕ → Option ℕ → Descriptors → Option Descriptors
  | _, none, s => some s
  | 0, some _, _ => none
  | rounds + 1, some b, s =>
      let s := s.access b
      if (s.blk b).free = false ∧ ((s.blk b).owner : ℤ) = owner then
        let s := (s.setBlk b { s.blk b with free := true, owner := 0 }).userBlkCoalesce b
        let s := s.access b
        releaseLoop owner rounds (s.next b) s
      else releaseLoop owner rounds (s.next b) s

/-- `user_heap_release_owner`. -/
def userHeapReleaseOwner (owner : ℤ) (rounds : ℕ) : Option Descriptors :=
  if owner ≤ 0 then some s else releaseLoop owner rounds s.userBlocks s

/-! ## What the release is for -/

def blocks (addresses : List ℕ) : List UserBlk := addresses.map s.blk

/-- The list is linked in both directions and ordered by address, and its blocks are not empty, do
not overlap and lie in the user heap. -/
structure ListInvariant (addresses : List ℕ) : Prop where
  linked : Linked s.next s.prev [] addresses
  head : s.userBlocks = addresses.head?
  live : ∀ a ∈ addresses, a ∉ s.released
  positive : ∀ b ∈ s.blocks addresses, 0 < b.npages
  ordered : InOrder UserBlk.base UserBlk.limit (s.blocks addresses)
  bounded : ∀ b ∈ s.blocks addresses, userHeapBase ≤ b.base ∧ b.limit ≤ userHeapLimit

end Descriptors

/-- The address lies in a block of some kind. -/
def Covered (P : UserBlk → Prop) (blocks : List UserBlk) (address : ℕ) : Prop :=
  ∃ b ∈ blocks, P b ∧ b.base ≤ address ∧ address < b.limit

def OwnedBy (owner : ℤ) (b : UserBlk) : Prop := b.free = false ∧ (b.owner : ℤ) = owner

instance (owner : ℤ) (b : UserBlk) : Decidable (OwnedBy owner b) :=
  inferInstanceAs (Decidable (_ ∧ _))

def stays (owner : ℤ) (blocks : List UserBlk) : List UserBlk :=
  blocks.filter fun b => !b.free && decide ((b.owner : ℤ) ≠ owner)

/-- The allocated blocks afterwards are those of the other owners, the free addresses are those
that were free or belonged to the owner, and no page is unmapped. -/
structure FreesOwner (s s' : Descriptors) (owner : ℤ) (addresses addresses' : List ℕ) : Prop where
  invariant : s'.ListInvariant addresses'
  others : (s'.blocks addresses').filter (fun b => !b.free) = stays owner (s.blocks addresses)
  freed : ∀ address, Covered UserBlk.Free (s'.blocks addresses') address ↔
    Covered UserBlk.Free (s.blocks addresses) address ∨
      Covered (OwnedBy owner) (s.blocks addresses) address
  mapped : s'.spaces = s.spaces

/-- The release comes to an end, frees the right blocks, and looks at no descriptor that it has
given back. -/
def ReleasesSafely (s : Descriptors) (owner : ℤ) (addresses : List ℕ) : Prop :=
  ∃ s' addresses',
    (∃ rounds, ∀ more, s.userHeapReleaseOwner owner (rounds + more) = some s') ∧
      FreesOwner s s' owner addresses addresses' ∧ s'.stale = s.stale

/-- A block of the owner right behind a free one or another of its own. -/
def Swallowed (owner : ℤ) (left b : UserBlk) : Prop :=
  OwnedBy owner b ∧ (left.free = true ∨ (left.owner : ℤ) = owner) ∧ left.limit = b.base

instance (owner : ℤ) (left b : UserBlk) : Decidable (Swallowed owner left b) :=
  inferInstanceAs (Decidable (_ ∧ _ ∧ _))

def KeepsDescriptors (owner : ℤ) (blocks : List UserBlk) : Prop :=
  if 0 < owner then blocks.IsChain fun left b => ¬ Swallowed owner left b
  else ∀ b ∈ blocks, ¬ OwnedBy owner b

namespace Descriptors

variable {s : Descriptors} {before after : List ℕ} {a b p n : ℕ}

/-! ## Merging two descriptors -/

/-- The list seen from a place in it. -/
structure At (s : Descriptors) (before after : List ℕ) : Prop where
  linked : Linked s.next s.prev before after
  head : s.userBlocks = (before.reverse ++ after).head?
  live : ∀ a ∈ before ++ after, a ∉ s.released

theorem At.forward (h : At s before (a :: after)) : At s (a :: before) after where
  linked := h.linked.forward
  head := by
    rw [List.reverse_cons, List.append_assoc]
    exact h.head
  live c hc := h.live c ((List.perm_middle (a := a)).mem_iff.mpr hc)

theorem At.whole (h : At s before after) : At s [] (before.reverse ++ after) where
  linked := h.linked.whole
  head := h.head
  live c hc := by
    apply h.live c
    have hmem : c ∈ before.reverse ++ after := hc
    rcases List.mem_append.mp hmem with hmem | hmem
    · exact List.mem_append_left _ (List.mem_reverse.mp hmem)
    · exact List.mem_append_right _ hmem

theorem At.live_here (h : At s before (a :: after)) : a ∉ s.released :=
  h.live a (List.mem_append_right _ List.mem_cons_self)

theorem access_of_live (ha : a ∉ s.released) : s.access a = s := if_neg ha

theorem access_of_released (ha : a ∈ s.released) :
    s.access a = { s with stale := s.stale ++ [a] } := if_pos ha

theorem At.withBlk (h : At s before after) (blk : ℕ → UserBlk) :
    At { s with blk := blk } before after := ⟨h.linked, h.head, h.live⟩

theorem At.withStale (h : At s before after) (stale : List ℕ) :
    At { s with stale := stale } before after := ⟨h.linked, h.head, h.live⟩

theorem At.setBlk (h : At s before (a :: after)) (blk : UserBlk) :
    s.setBlk a blk = { s with blk := update s.blk a blk } := by
  unfold Descriptors.setBlk
  rw [access_of_live h.live_here]

theorem At.merge_eq (h : At s (p :: before) (a :: after)) :
    s.merge p a =
      { s with
        blk := update s.blk p
          { s.blk p with npages := (s.blk p).npages + (s.blk a).npages }
        next := unlinkNext s.next p a
        prev := unlinkPrev s.next s.prev p a
        released := s.released ++ [a] } := by
  have hp : p ∉ s.released := h.live p List.mem_cons_self
  unfold Descriptors.merge Descriptors.setBlk
  rw [access_of_live hp]
  dsimp only
  cases hnext : s.next a with
  | none => rfl
  | some n =>
      have hn : n ∈ after := List.mem_of_head? (h.linked.next_eq ▸ hnext)
      have hlive : n ∉ s.released :=
        h.live n (List.mem_append_right _ (List.mem_cons_of_mem _ hn))
      simp only [Descriptors.access, if_neg hlive]

theorem At.merge (h : At s (p :: before) (a :: after)) : At (s.merge p a) before (p :: after) := by
  rw [h.merge_eq]
  refine ⟨h.linked.unlink, ?_, ?_⟩
  · rw [show _ = _ from h.head, List.reverse_cons, List.append_assoc]
    cases before.reverse with
    | nil => rfl
    | cons first rest => rfl
  · intro c hc hreleased
    have hmem : c ∈ (p :: before) ++ (a :: after) := by
      rcases List.mem_append.mp hc with hmem | hmem
      · exact List.mem_append_left _ (List.mem_cons_of_mem _ hmem)
      · rcases List.mem_cons.mp hmem with rfl | hmem
        · exact List.mem_cons_self
        · exact List.mem_append_right _ (List.mem_cons_of_mem _ hmem)
    rcases List.mem_append.mp hreleased with hold | hnew
    · exact h.live c hmem hold
    · obtain rfl := List.mem_singleton.mp hnew
      rcases List.mem_append.mp hc with hbefore | hafter
      · exact h.linked.ne_of_mem_before (List.mem_cons_of_mem _ hbefore) rfl
      · rcases List.mem_cons.mp hafter with rfl | hafter
        · exact h.linked.ne_of_mem_before List.mem_cons_self rfl
        · exact h.linked.ne_of_mem_after hafter rfl

/-! ## The abstract list -/

/-- The list of blocks around a place. -/
def focus (s : Descriptors) (before : List ℕ) (b : ℕ) (after : List ℕ) : Focus :=
  ⟨s.blocks before, s.blk b, s.blocks after⟩

theorem blocks_update (ha : a ∉ before) (blk : UserBlk) :
    blocks { s with blk := update s.blk a blk } before = s.blocks before := by
  apply List.map_congr_left
  intro b hb
  exact update_of_ne (ne_of_mem_of_not_mem hb ha) _ _

theorem At.notMem_before (h : At s (p :: before) after) : p ∉ before :=
  (List.nodup_cons.mp (List.nodup_append.mp h.linked.nodup).1).1

theorem At.notMem_after (h : At s (p :: before) after) : p ∉ after := by
  intro hafter
  exact (List.nodup_append.mp h.linked.nodup).2.2 p List.mem_cons_self p hafter rfl

theorem At.merge_blk (h : At s (p :: before) (a :: after)) :
    (s.merge p a).blk p = { s.blk p with npages := (s.blk p).npages + (s.blk a).npages } := by
  rw [h.merge_eq]
  exact update_self ..

theorem At.merge_blocks (h : At s (p :: before) (a :: after)) {others : List ℕ}
    (hp : p ∉ others) : (s.merge p a).blocks others = s.blocks others := by
  rw [h.merge_eq]
  exact blocks_update hp _

theorem At.focus_mergePrev (h : At s (p :: before) (b :: after))
    (hmerge : (s.blk p).free = true ∧ (s.blk p).limit = (s.blk b).base) :
    coalescePrev (s.focus (p :: before) b after) = (s.merge p b).focus before p after := by
  have hafter : p ∉ after := fun hmem => h.notMem_after (List.mem_cons_of_mem _ hmem)
  unfold focus
  rw [h.merge_blk, h.merge_blocks h.notMem_before, h.merge_blocks hafter]
  exact if_pos hmerge

theorem At.focus_mergeNext (h : At s before (b :: n :: after))
    (hmerge : (s.blk n).free = true ∧ (s.blk b).limit = (s.blk n).base) :
    coalesceNext (s.focus before b (n :: after)) = (s.merge b n).focus before b after := by
  have hafter : b ∉ after := fun hmem => h.forward.notMem_after (List.mem_cons_of_mem _ hmem)
  unfold focus
  rw [h.forward.merge_blk, h.forward.merge_blocks h.forward.notMem_before,
    h.forward.merge_blocks hafter]
  exact if_pos hmerge

/-- The block in front of the place is free and ends where the next one starts. -/
def FreeBefore (s : Descriptors) (before : List ℕ) (b : ℕ) : Prop :=
  ∃ p ∈ before.head?, (s.blk p).free = true ∧ (s.blk p).limit = (s.blk b).base

/-- The block behind the place is free and starts where the one before it ends. -/
def FreeBehind (s : Descriptors) (b : ℕ) (after : List ℕ) : Prop :=
  ∃ n ∈ after.head?, (s.blk n).free = true ∧ (s.blk b).limit = (s.blk n).base

theorem At.mergePrev_eq (h : At s (p :: before) (b :: after))
    (hmerge : (s.blk p).free = true ∧ (s.blk p).limit = (s.blk b).base) :
    s.mergePrev b = (p, s.merge p b) := by
  unfold mergePrev
  rw [access_of_live h.live_here]
  dsimp only
  rw [h.linked.prev_eq]
  dsimp only [List.head?_cons]
  rw [access_of_live (h.live p List.mem_cons_self), if_pos hmerge]

theorem At.mergePrev_stay (h : At s before (b :: after)) (hno : ¬ s.FreeBefore before b) :
    s.mergePrev b = (b, s) ∧
      coalescePrev (s.focus before b after) = s.focus before b after := by
  unfold mergePrev
  rw [access_of_live h.live_here]
  dsimp only
  rw [h.linked.prev_eq]
  cases before with
  | nil => exact ⟨rfl, rfl⟩
  | cons p rest =>
      have hmerge : ¬ ((s.blk p).free = true ∧ (s.blk p).limit = (s.blk b).base) :=
        fun hmerge => hno ⟨p, rfl, hmerge⟩
      dsimp only [List.head?_cons]
      rw [access_of_live (h.live p List.mem_cons_self), if_neg hmerge]
      exact ⟨rfl, if_neg hmerge⟩

theorem At.mergeNext_eq (h : At s before (b :: n :: after))
    (hmerge : (s.blk n).free = true ∧ (s.blk b).limit = (s.blk n).base) :
    s.mergeNext b = s.merge b n := by
  unfold mergeNext
  rw [access_of_live h.live_here]
  dsimp only
  rw [h.linked.next_eq]
  dsimp only [List.head?_cons]
  rw [access_of_live h.forward.live_here, if_pos hmerge]

theorem At.mergeNext_stay (h : At s before (b :: after)) (hno : ¬ s.FreeBehind b after) :
    s.mergeNext b = s ∧ coalesceNext (s.focus before b after) = s.focus before b after := by
  unfold mergeNext
  rw [access_of_live h.live_here]
  dsimp only
  rw [h.linked.next_eq]
  cases after with
  | nil => exact ⟨rfl, rfl⟩
  | cons n rest =>
      have hmerge : ¬ ((s.blk n).free = true ∧ (s.blk b).limit = (s.blk n).base) :=
        fun hmerge => hno ⟨n, rfl, hmerge⟩
      dsimp only [List.head?_cons]
      rw [access_of_live h.forward.live_here, if_neg hmerge]
      exact ⟨rfl, if_neg hmerge⟩

/-- What a part of `user_blk_coalesce` at a block leaves alone. -/
structure Frame (s : Descriptors) (b : ℕ) (s' : Descriptors) : Prop where
  stale : s'.stale = s.stale
  spaces : s'.spaces = s.spaces
  next : ∀ a, a ≠ b → s'.next a = s.next a
  released : ∀ a ∈ s.released, a ∈ s'.released

theorem frame_refl (s : Descriptors) (b : ℕ) : s.Frame b s := ⟨rfl, rfl, fun _ _ => rfl, fun _ h => h⟩

theorem At.frame_merge (h : At s (p :: before) (a :: after)) : s.Frame p (s.merge p a) := by
  rw [h.merge_eq]
  exact ⟨rfl, rfl, fun _ hne => unlinkNext_of_ne hne, fun _ hmem => List.mem_append_left _ hmem⟩

theorem At.merge_released (h : At s (p :: before) (a :: after)) : a ∈ (s.merge p a).released := by
  rw [h.merge_eq]
  exact List.mem_append_right _ (List.mem_singleton_self _)

theorem At.merge_blk_ne (h : At s (p :: before) (a :: after)) {c : ℕ} (hc : c ≠ p) :
    (s.merge p a).blk c = s.blk c := by
  rw [h.merge_eq]
  exact update_of_ne hc _ _

/-- The descriptor has been given back, as that of a free block, and leads on to a node. -/
structure Ghost (s : Descriptors) (n : ℕ) (right : Option ℕ) : Prop where
  released : n ∈ s.released
  free : (s.blk n).free = true
  next : s.next n = right

/-- The nodes behind the place after the second part of `user_blk_coalesce`. -/
inductive Tail (s' : Descriptors) (after : List ℕ) : List ℕ → Prop
  | same : Tail s' after after
  | merged (n : ℕ) (rest : List ℕ) (hafter : after = n :: rest) (hghost : s'.Ghost n rest.head?) :
      Tail s' after rest

theorem At.mergeNext (h : At s before (b :: after)) :
    ∃ rest, At (s.mergeNext b) before (b :: rest) ∧
      coalesceNext (s.focus before b after) = (s.mergeNext b).focus before b rest ∧
      Tail (s.mergeNext b) after rest ∧ s.Frame b (s.mergeNext b) := by
  by_cases hmerge : s.FreeBehind b after
  · obtain ⟨n, hn, hfree⟩ := hmerge
    obtain ⟨rest, rfl⟩ : ∃ rest, after = n :: rest := List.head?_eq_some_iff.mp hn
    rw [h.mergeNext_eq hfree]
    have hne : n ≠ b := h.linked.ne_of_mem_after List.mem_cons_self
    have hghost : (s.merge b n).Ghost n rest.head? := by
      refine ⟨h.forward.merge_released, ?_, ?_⟩
      · rw [h.forward.merge_blk_ne hne]
        exact hfree.1
      · rw [h.forward.frame_merge.next n hne]
        exact h.forward.linked.next_eq
    exact ⟨rest, h.forward.merge, h.focus_mergeNext hfree, .merged n rest rfl hghost,
      h.forward.frame_merge⟩
  · obtain ⟨hstay, hfocus⟩ := h.mergeNext_stay hmerge
    rw [hstay]
    exact ⟨after, h, hfocus, .same, s.frame_refl b⟩

theorem At.coalesce_kept (h : At s before (b :: after)) (hno : ¬ s.FreeBefore before b) :
    ∃ rest, At (s.userBlkCoalesce b) before (b :: rest) ∧
      Memory.userBlkCoalesce (s.focus before b after) =
        (s.userBlkCoalesce b).focus before b rest ∧
      Tail (s.userBlkCoalesce b) after rest ∧ s.Frame b (s.userBlkCoalesce b) := by
  obtain ⟨hprev, hfocus⟩ := h.mergePrev_stay hno
  unfold Descriptors.userBlkCoalesce Memory.userBlkCoalesce
  rw [hprev, hfocus]
  exact h.mergeNext

theorem At.coalesce_merged (h : At s (p :: before) (b :: after))
    (hmerge : (s.blk p).free = true ∧ (s.blk p).limit = (s.blk b).base) :
    ∃ rest, At (s.userBlkCoalesce b) before (p :: rest) ∧
      Memory.userBlkCoalesce (s.focus (p :: before) b after) =
        (s.userBlkCoalesce b).focus before p rest ∧
      Tail (s.userBlkCoalesce b) after rest ∧ s.Frame p (s.userBlkCoalesce b) ∧
      b ∈ (s.userBlkCoalesce b).released := by
  unfold Descriptors.userBlkCoalesce Memory.userBlkCoalesce
  rw [h.mergePrev_eq hmerge, h.focus_mergePrev hmerge]
  obtain ⟨rest, hat, hfocus, htail, hframe⟩ := h.merge.mergeNext
  have hfirst := h.frame_merge
  refine ⟨rest, hat, hfocus, htail, ⟨?_, ?_, ?_, ?_⟩, ?_⟩
  · exact hframe.stale.trans hfirst.stale
  · exact hframe.spaces.trans hfirst.spaces
  · exact fun a hne => (hframe.next a hne).trans (hfirst.next a hne)
  · exact fun a ha => hframe.released a (hfirst.released a ha)
  · exact hframe.released b h.merge_released

end Descriptors

/-! ## Blocks that keep their descriptors -/

/-- Only the end of a block and whether it will be free matter to the one behind it. -/
theorem chain_congr_head {owner : ℤ} {left right : UserBlk} {after : List UserBlk}
    (hfree : (left.free = true ∨ (left.owner : ℤ) = owner) ↔
      (right.free = true ∨ (right.owner : ℤ) = owner))
    (hlimit : left.limit = right.limit) :
    (left :: after).IsChain (fun left b => ¬ Swallowed owner left b) ↔
      (right :: after).IsChain fun left b => ¬ Swallowed owner left b := by
  have hhead : ∀ b, Swallowed owner left b ↔ Swallowed owner right b := by
    intro b
    unfold Swallowed
    rw [hfree, hlimit]
  rw [List.isChain_cons, List.isChain_cons]
  simp only [hhead]

theorem chain_coalesceNext (owner : ℤ) (focus : Focus) (hfree : focus.blk.free = true) :
    (focus.blk :: focus.after).IsChain (fun left b => ¬ Swallowed owner left b) ↔
      ((coalesceNext focus).blk :: (coalesceNext focus).after).IsChain
        fun left b => ¬ Swallowed owner left b := by
  unfold coalesceNext
  cases hafter : focus.after with
  | nil =>
      dsimp only
      rw [hafter]
  | cons n after =>
      dsimp only
      by_cases hmerge : n.free = true ∧ focus.blk.limit = n.base
      · rw [if_pos hmerge, List.isChain_cons_cons]
        have hkept : ¬ Swallowed owner focus.blk n :=
          fun hswallowed => nomatch hmerge.1.symm.trans hswallowed.1.1
        have hlimit : n.limit =
            UserBlk.limit { focus.blk with npages := focus.blk.npages + n.npages } := by
          have htouch := hmerge.2
          unfold UserBlk.limit at htouch ⊢
          rw [← htouch, Nat.add_mul, ← Nat.add_assoc]
        rw [and_iff_right hkept]
        exact chain_congr_head (iff_of_true (Or.inl hmerge.1) (Or.inl hfree)) hlimit
      · rw [if_neg hmerge, hafter]

namespace Descriptors

variable {s : Descriptors} {before after : List ℕ} {owner : ℕ} {b : ℕ}

/-! ## The loop -/

theorem access_next (s : Descriptors) (a : ℕ) : (s.access a).next = s.next := by
  unfold access
  split <;> rfl

theorem access_blk (s : Descriptors) (a : ℕ) : (s.access a).blk = s.blk := by
  unfold access
  split <;> rfl

theorem releaseLoop_owned {rounds : ℕ} (hlive : b ∉ s.released) (hmine : OwnedBy owner (s.blk b)) :
    releaseLoop owner (rounds + 1) (some b) s =
      let t := (s.setBlk b { s.blk b with free := true, owner := 0 }).userBlkCoalesce b
      releaseLoop owner rounds (t.next b) (t.access b) := by
  have hfree : (s.blk b).free = false ∧ ((s.blk b).owner : ℤ) = owner := hmine
  rw [releaseLoop, access_of_live hlive]
  dsimp only
  rw [if_pos hfree, access_next]

theorem releaseLoop_other {rounds : ℕ} (hother : ¬ OwnedBy owner (s.blk b)) :
    releaseLoop owner (rounds + 1) (some b) s =
      releaseLoop owner rounds (s.next b) (s.access b) := by
  have hfree : ¬ ((s.blk b).free = false ∧ ((s.blk b).owner : ℤ) = owner) := hother
  rw [releaseLoop]
  dsimp only
  rw [access_blk, if_neg hfree, access_next]

variable (after owner) in
theorem releaseLoop_tail {rest : List ℕ} (htail : Tail s after rest) :
    ∃ stale, s.stale <+: stale ∧ ∀ more,
      releaseLoop owner (after.length + more) after.head? s =
        releaseLoop owner (rest.length + more) rest.head? { s with stale := stale } := by
  cases htail with
  | same => exact ⟨s.stale, List.prefix_rfl, fun _ => rfl⟩
  | merged n rest hafter hghost =>
      refine ⟨s.stale ++ [n], List.prefix_append _ _, fun more => ?_⟩
      have hother : ¬ OwnedBy (owner : ℤ) (s.blk n) :=
        fun hmine => nomatch hghost.free.symm.trans hmine.1
      rw [hafter, List.length_cons, List.head?_cons, Nat.succ_add, releaseLoop_other hother,
        hghost.next, access_of_released hghost.released]

/-- What the loop makes of the list from a place on. -/
structure Ends (s : Descriptors) (owner : ℕ) (before after : List ℕ) (s' : Descriptors)
    (addresses' : List ℕ) : Prop where
  loop : ∀ more, releaseLoop owner (after.length + more) after.head? s = some s'
  place : At s' [] addresses'
  blocks : s'.blocks addresses' = releaseFrom owner (s.blocks before) (s.blocks after)
  spaces : s'.spaces = s.spaces
  grows : s.stale <+: s'.stale
  stale : s'.stale = s.stale ↔
    (s.blocks (before.head?.toList ++ after)).IsChain fun left b => ¬ Swallowed owner left b

theorem owned_iff {blk : UserBlk} :
    (blk.free = false ∧ blk.owner = owner) ↔ OwnedBy (owner : ℤ) blk := by
  unfold OwnedBy
  rw [Int.ofNat_inj]

theorem ends_nil (h : At s before []) : Ends s owner before [] s before.reverse where
  loop more := by
    rw [List.length_nil, Nat.zero_add]
    cases more <;> rfl
  place := by
    have hwhole := h.whole
    rwa [List.append_nil] at hwhole
  blocks := by
    rw [blocks, List.map_reverse]
    exact (releaseFrom.eq_1 owner _).symm
  spaces := rfl
  grows := List.prefix_rfl
  stale := by
    refine iff_of_true rfl ?_
    cases before with
    | nil => exact List.isChain_nil
    | cons p rest => exact List.isChain_singleton _

theorem Ends.skip {s' : Descriptors} {addresses' : List ℕ} (h : At s before (b :: after))
    (hother : ¬ OwnedBy owner (s.blk b)) (hends : Ends s owner (b :: before) after s' addresses') :
    Ends s owner before (b :: after) s' addresses' where
  loop more := by
    rw [List.length_cons, List.head?_cons, Nat.succ_add, releaseLoop_other hother,
      access_of_live h.live_here, h.linked.next_eq]
    exact hends.loop more
  place := hends.place
  blocks := by
    have hfree : ¬ ((s.blk b).free = false ∧ (s.blk b).owner = owner) :=
      fun hmine => hother (owned_iff.mp hmine)
    change _ = releaseFrom owner (s.blocks before) (s.blk b :: s.blocks after)
    rw [releaseFrom, if_neg hfree]
    exact hends.blocks
  spaces := hends.spaces
  grows := hends.grows
  stale := by
    rw [hends.stale]
    cases before with
    | nil => rfl
    | cons p rest =>
        have hkept : ¬ Swallowed owner (s.blk p) (s.blk b) :=
          fun hswallowed => hother hswallowed.1
        exact (List.isChain_cons_cons.trans (and_iff_right hkept)).symm

theorem Tail.withStale {rest : List ℕ} (h : Tail s after rest) (stale : List ℕ) :
    Tail { s with stale := stale } after rest := by
  cases h with
  | same => exact .same
  | merged n rest hafter hghost =>
      exact .merged n rest hafter ⟨hghost.released, hghost.free, hghost.next⟩

theorem Tail.length_le {rest : List ℕ} (h : Tail s after rest) : rest.length ≤ after.length := by
  cases h with
  | same => exact le_rfl
  | merged n rest hafter _ =>
      rw [hafter]
      exact Nat.le_succ _

/-- The block as it is freed. -/
def freed (blk : UserBlk) : UserBlk := { blk with free := true, owner := 0 }

theorem At.focus_freed (h : At s before (b :: after)) :
    (s.setBlk b (freed (s.blk b))).focus before b after =
      ⟨s.blocks before, freed (s.blk b), s.blocks after⟩ := by
  have hbefore : b ∉ before := fun hmem => h.linked.ne_of_mem_before hmem rfl
  have hafter : b ∉ after := fun hmem => h.linked.ne_of_mem_after hmem rfl
  rw [h.setBlk]
  unfold focus
  rw [blocks_update hbefore, blocks_update hafter]
  exact congrArg (Focus.mk _ · _) (update_self ..)

theorem At.freed (h : At s before (b :: after)) :
    At (s.setBlk b (freed (s.blk b))) before (b :: after) := by
  rw [h.setBlk]
  exact h.withBlk _

theorem releaseFrom_owned {blk : UserBlk} {left right : List UserBlk} {focus : Focus}
    (hmine : OwnedBy (owner : ℤ) blk)
    (hfocus : Memory.userBlkCoalesce ⟨left, freed blk, right⟩ = focus) :
    releaseFrom owner left (blk :: right) =
      releaseFrom owner (focus.blk :: focus.before) focus.after := by
  rw [releaseFrom, if_pos (owned_iff.mpr hmine), ← hfocus]
  rfl

theorem not_owned_of_coalesced {blk : UserBlk} {left right : List UserBlk} {focus : Focus}
    (hfocus : Memory.userBlkCoalesce ⟨left, freed blk, right⟩ = focus) :
    ¬ OwnedBy (owner : ℤ) focus.blk := by
  rw [← hfocus]
  exact fun howned => nomatch (before_userBlkCoalesce _ rfl).2.symm.trans howned.1

/-- The list when `b` is freed and merged with its neighbours. -/
def coalesced (s : Descriptors) (b : ℕ) : Descriptors :=
  (s.setBlk b (freed (s.blk b))).userBlkCoalesce b

theorem At.releaseLoop_coalesced (h : At s before (b :: after)) (hmine : OwnedBy owner (s.blk b))
    (more : ℕ) :
    releaseLoop owner ((b :: after).length + more) (b :: after).head? s =
      releaseLoop owner (after.length + more) ((s.coalesced b).next b)
        ((s.coalesced b).access b) := by
  rw [List.length_cons, List.head?_cons, Nat.succ_add, releaseLoop_owned h.live_here hmine]
  rfl

theorem At.start_coalesced (h : At s before (b :: after)) {a : ℕ}
    (hframe : (s.setBlk b (Descriptors.freed (s.blk b))).Frame a (s.coalesced b)) :
    (s.coalesced b).stale = s.stale ∧ (s.coalesced b).spaces = s.spaces := by
  rw [hframe.stale, hframe.spaces, h.setBlk]
  exact ⟨rfl, rfl⟩

/-- From every place with at most `rounds` blocks ahead the loop comes to its end. -/
def EndsWithin (owner rounds : ℕ) : Prop :=
  ∀ (s : Descriptors) (before after : List ℕ), At s before after → after.length ≤ rounds →
    (∀ p ∈ before.head?, ¬ OwnedBy owner (s.blk p)) →
      ∃ s' addresses', Ends s owner before after s' addresses'

theorem chain_freed {blk : UserBlk} {right : List UserBlk} (hmine : OwnedBy (owner : ℤ) blk) :
    (freed blk :: right).IsChain (fun left b => ¬ Swallowed owner left b) ↔
      (blk :: right).IsChain fun left b => ¬ Swallowed owner left b :=
  chain_congr_head (iff_of_true (Or.inl rfl) (Or.inr hmine.2)) rfl

theorem Ends.kept (h : At s before (b :: after)) (hmine : OwnedBy owner (s.blk b))
    (hdone : ∀ p ∈ before.head?, ¬ OwnedBy owner (s.blk p))
    (hno : ¬ (s.setBlk b (freed (s.blk b))).FreeBefore before b)
    (ih : EndsWithin owner after.length) :
    ∃ s' addresses', Ends s owner before (b :: after) s' addresses' := by
  obtain ⟨rest, hat, hfocus, htail, hframe⟩ := h.freed.coalesce_kept hno
  obtain ⟨_, hstay⟩ := h.freed.mergePrev_stay hno
  have hstart := h.start_coalesced hframe
  have hloop := h.releaseLoop_coalesced hmine
  rw [h.focus_freed] at hfocus hstay
  rw [← coalesced] at hat hfocus htail
  generalize s.coalesced b = t at *
  obtain ⟨s', addresses', hends⟩ := ih t (b :: before) rest hat.forward htail.length_le
    (fun p hp => by
      obtain rfl := Option.some.inj hp
      exact not_owned_of_coalesced hfocus)
  refine ⟨s', addresses', fun more => ?_, hends.place,
    hends.blocks.trans (releaseFrom_owned hmine hfocus).symm, hends.spaces.trans hstart.2,
    hstart.1 ▸ hends.grows, ?_⟩
  · rw [hloop, access_of_live hat.live_here, hat.linked.next_eq]
    have hrounds : after.length + more = rest.length + (after.length - rest.length + more) := by
      have hle := htail.length_le
      omega
    rw [hrounds]
    exact hends.loop _
  · rw [← hstart.1, hends.stale]
    have hnext : coalesceNext ⟨s.blocks before, freed (s.blk b), s.blocks after⟩ =
        t.focus before b rest := by
      rw [← hfocus]
      unfold Memory.userBlkCoalesce
      rw [hstay]
    have hchain := chain_coalesceNext owner
      ⟨s.blocks before, freed (s.blk b), s.blocks after⟩ rfl
    rw [hnext, chain_freed hmine] at hchain
    have hrest : (t.blocks ((b :: before).head?.toList ++ rest)) =
        (t.focus before b rest).blk :: (t.focus before b rest).after := rfl
    rw [hrest, ← hchain]
    cases before with
    | nil => rfl
    | cons p before =>
        have hkept : ¬ Swallowed owner (s.blk p) (s.blk b) := by
          intro hswallowed
          have hne : p ≠ b := h.linked.ne_of_mem_before List.mem_cons_self
          have hpfree : (s.blk p).free = true := by
            rcases hswallowed.2.1 with hfree | howner
            · exact hfree
            · by_contra hused
              exact hdone p rfl ⟨Bool.eq_false_iff.mpr hused, howner⟩
          refine hno ⟨p, rfl, ?_⟩
          rw [h.setBlk]
          dsimp only
          rw [update_of_ne hne, update_self]
          exact ⟨hpfree, hswallowed.2.2⟩
        exact (List.isChain_cons_cons.trans (and_iff_right hkept)).symm

theorem not_chain_swallowed {blk left : UserBlk} {right : List UserBlk}
    (hswallowed : Swallowed owner left blk) :
    ¬ (left :: blk :: right).IsChain fun left b => ¬ Swallowed owner left b :=
  fun hchain => (List.isChain_cons_cons.mp hchain).1 hswallowed

/-- A block of the owner that is merged into the one before it: the loop reads its link when the
descriptor has been given back. -/
theorem Ends.merged {p : ℕ} (h : At s (p :: before) (b :: after))
    (hmine : OwnedBy owner (s.blk b))
    (hmerge : ((s.setBlk b (freed (s.blk b))).blk p).free = true ∧
      ((s.setBlk b (freed (s.blk b))).blk p).limit = ((s.setBlk b (freed (s.blk b))).blk b).base)
    (ih : EndsWithin owner after.length) :
    ∃ s' addresses', Ends s owner (p :: before) (b :: after) s' addresses' := by
  have hne : p ≠ b := h.linked.ne_of_mem_before List.mem_cons_self
  obtain ⟨rest, hat, hfocus, htail, hframe, hreleased⟩ := h.freed.coalesce_merged hmerge
  have hnext : (s.coalesced b).next b = after.head? :=
    (hframe.next b hne.symm).trans h.freed.linked.next_eq
  have hstart := h.start_coalesced hframe
  have hloop := h.releaseLoop_coalesced hmine
  rw [h.focus_freed] at hfocus
  rw [← coalesced] at hat hfocus htail hreleased
  generalize s.coalesced b = t at *
  obtain ⟨stale, hgrows, htailLoop⟩ := releaseLoop_tail after owner
    (htail.withStale (t.stale ++ [b]))
  obtain ⟨s', addresses', hends⟩ := ih { t with stale := stale } (p :: before) rest
    (hat.forward.withStale stale) htail.length_le
    (fun a ha => by
      obtain rfl := Option.some.inj ha
      exact not_owned_of_coalesced hfocus)
  have hlonger : s.stale ++ [b] <+: s'.stale := by
    rw [← hstart.1]
    exact hgrows.trans hends.grows
  refine ⟨s', addresses', fun more => ?_, hends.place,
    hends.blocks.trans (releaseFrom_owned hmine hfocus).symm, hends.spaces.trans hstart.2,
    (List.prefix_append _ _).trans hlonger, iff_of_false ?_ ?_⟩
  · rw [hloop, access_of_released hreleased, hnext, htailLoop more]
    exact hends.loop more
  · intro hsame
    have hlength := hlonger.length_le
    rw [hsame, List.length_append] at hlength
    exact absurd hlength (Nat.not_succ_le_self _)
  · apply not_chain_swallowed
    rw [h.setBlk] at hmerge
    dsimp only at hmerge
    rw [update_of_ne hne, update_self] at hmerge
    exact ⟨hmine, Or.inl hmerge.1, hmerge.2⟩

theorem exists_ends (rounds : ℕ) : EndsWithin owner rounds := by
  induction rounds with
  | zero =>
      intro s before after h hlength _
      obtain rfl := List.length_eq_zero_iff.mp (Nat.le_zero.mp hlength)
      exact ⟨s, before.reverse, ends_nil h⟩
  | succ rounds ih =>
      intro s before after h hlength hdone
      cases after with
      | nil => exact ⟨s, before.reverse, ends_nil h⟩
      | cons b after =>
          have hshorter : after.length ≤ rounds := Nat.le_of_succ_le_succ hlength
          by_cases hmine : OwnedBy owner (s.blk b)
          · have ih : EndsWithin owner after.length :=
              fun t left right hat hright => ih t left right hat (hright.trans hshorter)
            by_cases hfree : (s.setBlk b (freed (s.blk b))).FreeBefore before b
            · obtain ⟨p, hp, hmerge⟩ := hfree
              obtain ⟨rest, rfl⟩ := List.head?_eq_some_iff.mp hp
              exact Ends.merged h hmine hmerge ih
            · exact Ends.kept h hmine hdone hfree ih
          · obtain ⟨s', addresses', hends⟩ := ih s (b :: before) after h.forward hshorter
              (fun a ha => by
                obtain rfl := Option.some.inj ha
                exact hmine)
            exact ⟨s', addresses', hends.skip h hmine⟩

end Descriptors

/-! ## The right blocks -/

/-- An address that is free or will be. -/
def Released (owner : ℕ) (blocks : List UserBlk) (address : ℕ) : Prop :=
  Covered (fun b => b.Free ∨ OwnedBy owner b) blocks address

structure Keeps (owner : ℕ) (blocks blocks' : List UserBlk) : Prop where
  positive : ∀ b ∈ blocks', 0 < b.npages
  ordered : InOrder UserBlk.base UserBlk.limit blocks'
  bounded : ∀ b ∈ blocks', userHeapBase ≤ b.base ∧ b.limit ≤ userHeapLimit
  others : stays owner blocks' = stays owner blocks
  released : ∀ address, Released owner blocks' address ↔ Released owner blocks address

section Keeps

variable {owner : ℕ} {blocks blocks' joined : List UserBlk}

theorem covered_append {P : UserBlk → Prop} {left right : List UserBlk} {address : ℕ} :
    Covered P (left ++ right) address ↔ Covered P left address ∨ Covered P right address := by
  simp only [Covered, List.mem_append, or_and_right, exists_or]

theorem covered_cons {P : UserBlk → Prop} {b : UserBlk} {right : List UserBlk} {address : ℕ} :
    Covered P (b :: right) address ↔
      (P b ∧ b.base ≤ address ∧ address < b.limit) ∨ Covered P right address := by
  simp only [Covered, List.mem_cons, or_and_right, exists_or, exists_eq_left]

theorem covered_or {P Q : UserBlk → Prop} {address : ℕ} :
    Covered (fun b => P b ∨ Q b) blocks address ↔
      Covered P blocks address ∨ Covered Q blocks address := by
  simp only [Covered, or_and_right, and_or_left, exists_or]

theorem stays_of_free {b : UserBlk} (hfree : b.free = true) (owner : ℤ) (after : List UserBlk) :
    stays owner (b :: after) = stays owner after := by
  apply List.filter_cons_of_neg
  rw [hfree]
  exact Bool.false_ne_true

theorem stays_append (owner : ℤ) (left right : List UserBlk) :
    stays owner (left ++ right) = stays owner left ++ stays owner right := List.filter_append ..

theorem Keeps.joins (h : Keeps owner blocks blocks') (hjoins : BlkJoins blocks' joined) :
    Keeps owner blocks joined where
  positive := forall_mem_of_joins (fun _ _ _ _ _ hunion _ _ _ _ _ => hunion.2) h.positive hjoins
  ordered := h.ordered.joins hjoins
  bounded := by
    refine forall_mem_of_joins ?_ h.bounded hjoins
    intro left right union _ _ _ hleft hright _ hlo hhi
    rw [hlo, hhi]
    exact ⟨hleft.1, hright.2⟩
  others := by
    rw [← h.others]
    obtain ⟨before, left, right, union, after, hleft, hright, hunion, _, _, _⟩ := hjoins
    rw [stays_append, stays_append, stays_of_free hleft.1, stays_of_free hright.1,
      stays_of_free hunion.1]
  released address := by
    rw [← h.released address]
    have hpositive := h.positive
    obtain ⟨before, left, right, union, after, hleft, hright, hunion, htouch, hlo, hhi⟩ := hjoins
    have hleftRange := base_lt_limit.mpr hleft.2
    have hrightRange := base_lt_limit.mpr hright.2
    have hwill : ∀ b : UserBlk, b.free = true → (b.Free ∨ OwnedBy owner b) :=
      fun b hfree => Or.inl hfree
    unfold Released
    rw [covered_append, covered_append, covered_cons, covered_cons, covered_cons,
      and_iff_right (hwill left hleft.1), and_iff_right (hwill right hright.1),
      and_iff_right (hwill union hunion.1), hlo, hhi]
    refine or_congr_right ?_
    rw [← or_assoc]
    refine or_congr_left ?_
    omega

theorem Keeps.release {focus : Focus} (h : Keeps owner blocks focus.blocks)
    (hmine : OwnedBy owner focus.blk) :
    Keeps owner blocks
      ({ focus with blk := { focus.blk with free := true, owner := 0 } } : Focus).blocks where
  positive := forall_replace h.positive id
  ordered := by
    have hordered : Ordered (focus.before.reverse ++ focus.blk :: focus.after) := h.ordered
    have hparts := inOrder_append_cons.mp hordered
    exact inOrder_append_cons.mpr hparts
  bounded b hb := by
    rcases mem_blocks.mp hb with hmem | rfl | hmem
    · exact h.bounded b (mem_blocks.mpr (Or.inl hmem))
    · exact h.bounded focus.blk (mem_blocks.mpr (Or.inr (Or.inl rfl)))
    · exact h.bounded b (mem_blocks.mpr (Or.inr (Or.inr hmem)))
  others := by
    rw [← h.others]
    unfold Focus.blocks
    have howned : stays owner (focus.blk :: focus.after) = stays owner focus.after := by
      apply List.filter_cons_of_neg
      rw [hmine.2]
      simp
    rw [stays_append, stays_append, stays_of_free rfl, howned]
  released address := by
    rw [← h.released address]
    unfold Released Focus.blocks
    rw [covered_append, covered_append, covered_cons, covered_cons]
    exact or_congr_right (or_congr_left (and_congr_left' (iff_of_true (Or.inl rfl) (Or.inr hmine))))

theorem Keeps.releaseFrom (h : Keeps owner blocks blocks') :
    Keeps owner blocks (releaseFrom owner [] blocks') := by
  refine blocks_releaseFrom (fun _ _ hkeeps hjoins => hkeeps.joins hjoins)
    (fun _ hkeeps => hkeeps.positive) ?_ [] blocks' h
  intro focus hkeeps hfree howner
  exact hkeeps.release ⟨hfree, congrArg _ howner⟩

end Keeps

/-! ## The release -/

namespace Descriptors

variable {s : Descriptors} {addresses : List ℕ}

theorem ListInvariant.keeps (h : s.ListInvariant addresses) (owner : ℕ) :
    Keeps owner (s.blocks addresses) (s.blocks addresses) :=
  ⟨h.positive, h.ordered, h.bounded, rfl, fun _ => Iff.rfl⟩

theorem Ends.freesOwner {owner : ℕ} {s' : Descriptors} {addresses' : List ℕ}
    (h : s.ListInvariant addresses) (hends : Ends s owner [] addresses s' addresses') :
    FreesOwner s s' owner addresses addresses' := by
  have hkeeps := (h.keeps owner).releaseFrom
  have hnone : ∀ b ∈ s'.blocks addresses', ¬ OwnedBy owner b := by
    rw [hends.blocks]
    intro b hb howned
    have hnobody : ∀ b ∈ ([] : List UserBlk), b.free = false → b.owner ≠ owner := nofun
    exact owner_releaseFrom _ _ _ hnobody b hb howned.1 (Int.ofNat_inj.mp howned.2)
  rw [show releaseFrom owner [] (s.blocks addresses) = s'.blocks addresses' from
    hends.blocks.symm] at hkeeps
  refine ⟨⟨hends.place.linked, hends.place.head, hends.place.live, hkeeps.positive,
    hkeeps.ordered, hkeeps.bounded⟩, ?_, fun address => ?_, hends.spaces⟩
  · rw [← hkeeps.others]
    apply List.filter_congr
    intro b hb
    cases hfree : b.free with
    | true => rfl
    | false =>
        have hother : (b.owner : ℤ) ≠ owner := fun howner => hnone b hb ⟨hfree, howner⟩
        exact (decide_eq_true hother).symm
  · have hreleased := hkeeps.released address
    unfold Released at hreleased
    rw [covered_or, covered_or] at hreleased
    rw [← hreleased, or_iff_left]
    rintro ⟨b, hb, howned, _⟩
    exact hnone b hb howned

theorem releasesSafely_noTask {owner : ℤ} (h : s.ListInvariant addresses) (howner : owner ≤ 0) :
    ReleasesSafely s owner addresses ↔ ∀ b ∈ s.blocks addresses, ¬ OwnedBy owner b := by
  have hrun : ∀ rounds, s.userHeapReleaseOwner owner rounds = some s := fun _ => if_pos howner
  constructor
  · rintro ⟨s', addresses', ⟨rounds, hloop⟩, hfrees, _⟩ b hb howned
    obtain rfl := Option.some.inj ((hrun _).symm.trans (hloop 0))
    obtain rfl : addresses' = addresses :=
      hfrees.invariant.linked.rightward.unique h.linked.rightward
        (hfrees.invariant.head.symm.trans h.head)
    have hmem : b ∈ (s.blocks addresses').filter (fun b => !b.free) := by
      refine List.mem_filter.mpr ⟨hb, ?_⟩
      rw [howned.1]
      rfl
    rw [hfrees.others] at hmem
    have hstays := (List.mem_filter.mp hmem).2
    rw [howned.1, howned.2] at hstays
    simp at hstays
  · intro hnone
    refine ⟨s, addresses, ⟨0, fun more => hrun _⟩, ⟨h, ?_, fun address => ?_, rfl⟩, rfl⟩
    · apply List.filter_congr
      intro b hb
      cases hfree : b.free with
      | true => rfl
      | false =>
          have hother : (b.owner : ℤ) ≠ owner := fun howner => hnone b hb ⟨hfree, howner⟩
          exact (decide_eq_true hother).symm
    · rw [or_iff_left]
      rintro ⟨b, hb, howned, _⟩
      exact hnone b hb howned

/-- For every list and every owner. -/
theorem releasesSafely_iff {owner : ℤ} (h : s.ListInvariant addresses) :
    ReleasesSafely s owner addresses ↔ KeepsDescriptors owner (s.blocks addresses) := by
  unfold KeepsDescriptors
  by_cases howner : 0 < owner
  · rw [if_pos howner]
    obtain ⟨task, rfl⟩ := Int.eq_ofNat_of_zero_le (Int.le_of_lt howner)
    have hat : At s [] addresses := ⟨h.linked, h.head, h.live⟩
    obtain ⟨s', addresses', hends⟩ := exists_ends addresses.length s [] addresses hat le_rfl
      (fun p hp => nomatch hp)
    have hrun : ∀ rounds, s.userHeapReleaseOwner task rounds =
        releaseLoop task rounds addresses.head? s := by
      intro rounds
      rw [← h.head]
      exact if_neg (Int.not_le.mpr howner)
    constructor
    · rintro ⟨t, _, ⟨rounds, hloop⟩, _, hstale⟩
      have hsame : some s' = some t := by
        rw [← hends.loop rounds, ← hrun, Nat.add_comm]
        exact hloop _
      obtain rfl := Option.some.inj hsame
      exact hends.stale.mp hstale
    · intro hchain
      refine ⟨s', addresses', ⟨addresses.length, fun more => ?_⟩, hends.freesOwner h,
        hends.stale.mpr hchain⟩
      rw [hrun]
      exact hends.loop more
  · rw [if_neg howner]
    exact releasesSafely_noTask h (Int.not_lt.mp howner)

/-- The descriptors of blocks of one page, at the addresses 100, 200 and so on. -/
def pages (owners : List ℕ) : Descriptors where
  userBlocks := if owners = [] then none else some 100
  blk a :=
    { base := userHeapBase + (a / 100 - 1) * pageSize, npages := 1, free := false
      owner := owners.getD (a / 100 - 1) 0 }
  next a := if a / 100 < owners.length then some (a + 100) else none
  prev a := if a = 100 then none else some (a - 100)
  released := []
  stale := []
  spaces := fun _ _ => 0

theorem releasesSafely_iff_apart :
    ReleasesSafely (pages [1, 2, 1]) 1 [100, 200, 300] := by
  have hordered : Ordered ((pages [1, 2, 1]).blocks [100, 200, 300]) := by
    unfold Ordered InOrder
    decide
  have hinvariant : (pages [1, 2, 1]).ListInvariant [100, 200, 300] :=
    ⟨⟨trivial, ⟨rfl, rfl, rfl, rfl, rfl, rfl, trivial⟩, by decide⟩, rfl, nofun, by decide,
      hordered, by decide⟩
  refine (releasesSafely_iff hinvariant).mpr ?_
  unfold KeepsDescriptors
  rw [if_pos Int.one_pos]
  decide

/-- Two blocks of one owner that touch. -/
theorem not_releasesSafely_touching : ¬ ReleasesSafely (pages [1, 1]) 1 [100, 200] := by
  rintro ⟨s', _, ⟨rounds, hloop⟩, _, hstale⟩
  have hrun : ((pages [1, 1]).userHeapReleaseOwner 1 (rounds + 2)).map Descriptors.stale =
      some [200] := by
    cases rounds <;> rfl
  rw [hloop 2] at hrun
  exact nomatch hstale.symm.trans (Option.some.inj hrun)

end Descriptors

end EigenOS.Memory
