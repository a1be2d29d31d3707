import Mathlib.Data.List.Nodup
import Mathlib.Data.List.Perm.Basic

/-!
# Resources in custody

Resources that are free, the next one first, and those that are held, each with its owner.
Taking and giving back move resources about, so that none is ever in two places.
-/

namespace EigenOS.Custody

structure Pool (Owner Resource : Type*) where
  free : List Resource
  held : List (Owner × Resource)

namespace Pool

variable {Owner Resource : Type*} [DecidableEq Owner] [DecidableEq Resource]
  (pool : Pool Owner Resource)

/-- Every resource, wherever it is. -/
def all : List Resource := pool.free ++ pool.held.map Prod.snd

def take (owner : Owner) : Pool Owner Resource :=
  match pool.free with
  | [] => pool
  | resource :: rest => ⟨rest, (owner, resource) :: pool.held⟩

/-- An owner gives back a resource; what it does not hold it cannot give. -/
def give (owner : Owner) (resource : Resource) : Pool Owner Resource :=
  if (owner, resource) ∈ pool.held then
    ⟨resource :: pool.free, pool.held.erase (owner, resource)⟩
  else pool

omit [DecidableEq Owner] [DecidableEq Resource] in
theorem all_take (owner : Owner) : (pool.take owner).all.Perm pool.all := by
  unfold take all
  cases hfree : pool.free with
  | nil => rw [hfree]
  | cons resource rest => exact List.perm_middle

theorem all_give (owner : Owner) (resource : Resource) :
    (pool.give owner resource).all.Perm pool.all := by
  unfold give
  by_cases hheld : (owner, resource) ∈ pool.held
  · have hperm := (List.perm_cons_erase hheld).map Prod.snd
    rw [if_pos hheld]
    exact List.perm_middle.symm.trans (hperm.symm.append_left _)
  · rw [if_neg hheld]

variable {pool}

omit [DecidableEq Owner] [DecidableEq Resource] in
theorem owner_unique (hnodup : pool.all.Nodup) {owner other : Owner} {resource : Resource}
    (howner : (owner, resource) ∈ pool.held) (hother : (other, resource) ∈ pool.held) :
    owner = other := by
  have hheld := (List.nodup_append.mp hnodup).2.1
  exact congrArg Prod.fst (List.inj_on_of_nodup_map hheld howner hother rfl)

omit [DecidableEq Owner] [DecidableEq Resource] in
theorem not_held_of_free (hnodup : pool.all.Nodup) {owner : Owner} {resource : Resource}
    (hfree : resource ∈ pool.free) : (owner, resource) ∉ pool.held := by
  intro hheld
  exact (List.nodup_append.mp hnodup).2.2 resource hfree resource
    (List.mem_map.mpr ⟨_, hheld, rfl⟩) rfl

end Pool

end EigenOS.Custody
