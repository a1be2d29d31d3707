import EigenOS.Filesystem.TreeSafety
import EigenOS.Persist.Snapshot
import EigenOS.Syscalls.TreeCalls

/-!
# Which calls mark the tree they change

The filesystem call marks the tree before it looks at its arguments, and `fs_write` marks
it on success.  `sys_open` creates files without a mark, and the writers of configuration
files leave theirs to the `fs_write` at their end.  In a run whose opens and settings calls
stay clear of that, every call that changes something a snapshot stores leaves `dirty` set.
-/

namespace EigenOS.Syscalls

open EigenOS.Filesystem EigenOS.Persist EigenOS.Transition Function
open EigenOS.Tasking (FdSlot FdType maxFds toFd)

abbrev Slot := Filesystem.Slot

/-! ## The property -/

/-- What a snapshot stores of a node. -/
def persisted (fp : FileNode) : PkRec × List UInt8 := (recordOf fp, body fp)

/-- A change of something stored leaves `dirty` set. -/
def ChangeMarked (tree next : Tree) : Prop :=
  (∃ slot, persisted (next.files slot) ≠ persisted (tree.files slot)) → next.dirty = true

/-- The tree is marked, or it is the one from before. -/
def Kept (tree next : Tree) : Prop := next.dirty = true ∨ next = tree

theorem Kept.refl (tree : Tree) : Kept tree tree := Or.inr rfl

theorem Kept.trans {tree next last : Tree} (hnext : Kept tree next) (hlast : Kept next last) :
    Kept tree last := by
  rcases hlast with hdirty | rfl
  · exact Or.inl hdirty
  · exact hnext

theorem Kept.dirty {tree next : Tree} (h : Kept tree next) (hdirty : tree.dirty = true) :
    next.dirty = true := by
  rcases h with hnext | rfl
  · exact hnext
  · exact hdirty

theorem Kept.changeMarked {tree next : Tree} (h : Kept tree next) : ChangeMarked tree next := by
  rcases h with hdirty | rfl
  · exact fun _ => hdirty
  · rintro ⟨slot, hslot⟩
    exact absurd rfl hslot

variable {files : Table}

theorem kept_of_files_eq {tree : Tree} (h : files = tree.files) :
    Kept tree { tree with files := files } := by
  subst h
  exact Kept.refl tree

theorem kept_of_dirty {tree : Tree} (files : Table) (h : tree.dirty = true) :
    Kept tree { tree with files := files } := Or.inl h

/-! ## What creating and deleting need -/

/-- A node can be created under this path: the last component alone is missing, and there
is a free slot. -/
def creatable (files : Table) (cwd : Slot) (path : CString) : Bool :=
  match fsResolveParent files cwd path with
  | none => false
  | some (_, leaf) => decide (leaf ≠ []) && (findFreeSlot files).isSome

/-- The path leads to a node other than the root. -/
def deletable (files : Table) (cwd : Slot) (path : CString) : Bool :=
  match fsResolveImpl files cwd path with
  | none => false
  | some e => decide (e ≠ rootSlot) && (files e).inUse

theorem createEntry_full {name : List UInt8} {type : FsType} {parent : ℤ} {flags : UInt8}
    {now : UInt32} (hfull : findFreeSlot files = none) :
    createEntry files name type parent flags now = (files, none) := by
  unfold createEntry
  rw [hfull]
  split
  · rfl
  · split
    · rfl
    · rfl

variable {caller : Caller}

theorem fsMkdir_of_not_creatable {path : CString} (h : creatable files caller.cwd path = false) :
    (fsMkdir files caller path).1 = files := by
  unfold creatable at h
  unfold fsMkdir
  cases hparent : fsResolveParent files caller.cwd path with
  | none => rfl
  | some found =>
      obtain ⟨dir, leaf⟩ := found
      rw [hparent] at h
      dsimp only at h ⊢
      by_cases hleaf : leaf = []
      · rw [if_pos hleaf]
      · rw [if_neg hleaf, createEntry_full]
        simpa [hleaf] using h

theorem fsCreate_of_not_creatable {path : CString} (h : creatable files caller.cwd path = false) :
    (fsCreate files caller path).1 = files := by
  unfold creatable at h
  unfold fsCreate
  cases hfound : fsResolveImpl files caller.cwd path with
  | some e => rfl
  | none =>
      dsimp only
      cases hparent : fsResolveParent files caller.cwd path with
      | none => rfl
      | some found =>
          obtain ⟨dir, leaf⟩ := found
          rw [hparent] at h
          dsimp only at h ⊢
          by_cases hleaf : leaf = []
          · rw [if_pos hleaf]
          · rw [if_neg hleaf, createEntry_full]
            simpa [hleaf] using h

theorem fsDelete_of_not_deletable {path : CString} (h : deletable files caller.cwd path = false) :
    fsDelete files caller path = some (files, -1) := by
  unfold deletable at h
  unfold fsDelete
  cases hfound : fsResolveImpl files caller.cwd path with
  | none => rfl
  | some e =>
      rw [hfound] at h
      dsimp only at h ⊢
      rw [if_pos]
      by_cases he : e = rootSlot
      · exact Or.inl he
      · exact Or.inr (by simpa [he] using h)

/-- A creatable path is not there yet, so `fs_create` takes a free slot for it. -/
theorem fsCreate_of_creatable (files : Table) (caller : Caller) (path : CString)
    (h : creatable files caller.cwd path = true) :
    ∃ idx node, (files idx).inUse = false ∧ node.inUse = true ∧
      (fsCreate files caller path).1 = update files idx node := by
  unfold creatable at h
  cases hparent : fsResolveParent files caller.cwd path with
  | none =>
      rw [hparent] at h
      cases h
  | some found =>
      obtain ⟨dir, leaf⟩ := found
      rw [hparent] at h
      simp only [Bool.and_eq_true, decide_eq_true_eq] at h
      obtain ⟨hleaf, hfree⟩ := h
      obtain ⟨idx, hidx⟩ := Option.isSome_iff_exists.mp hfree
      have hmissing : fsResolveImpl files caller.cwd path = none := by
        unfold fsResolveParent at hparent
        unfold fsResolveImpl
        split at hparent
        · cases hparent
        · rename_i hpath
          rw [if_neg hpath]
          split at hparent
          · cases hparent
            exact absurd rfl hleaf
          · rename_i hwalk
            rw [hwalk]
          · cases hparent
      have hnone := (fsResolveParent_leaf hparent hleaf).2.2
      refine ⟨idx, newEntry leaf .file dir.val (executableFlag leaf) caller.now,
        (findFreeSlot_eq_some hidx).2, rfl, ?_⟩
      unfold fsCreate
      rw [hmissing, hparent]
      dsimp only
      unfold createEntry
      rw [if_neg hleaf, if_neg hleaf, hnone, if_neg (by simp), hidx]

theorem not_changeMarked_of_update {tree : Tree} {idx : Slot} {node : FileNode}
    (hfree : (tree.files idx).inUse = false) (hnode : node.inUse = true)
    (hclean : tree.dirty = false) :
    ¬ ChangeMarked tree { tree with files := update tree.files idx node } := by
  intro hmarked
  have hdirty : tree.dirty = true := by
    refine hmarked ⟨idx, ?_⟩
    intro hsame
    have hstored : (recordOf node).used = 1 := by
      rw [recordOf, if_pos hnode]
    have hempty : (recordOf (tree.files idx)).used = 0 := by
      rw [recordOf, hfree]
      rfl
    have hused : (recordOf node).used = (recordOf (tree.files idx)).used := by
      have hrecord := congrArg (fun stored => stored.1.used) hsame
      simpa [persisted] using hrecord
    rw [hstored, hempty] at hused
    exact absurd hused (by decide)
  rw [hclean] at hdirty
  cases hdirty

/-! ## Opening -/

def CreatesFile (ctx : Context) (files : Table) (path : Option CString) (flags : Arg) :
    Prop :=
  flags &&& oCreat ≠ 0 ∧ ∃ name, path = some name ∧ creatable files ctx.cwd name = true

theorem sysOpen_kept {ctx : Context} {tree : Tree} {path : Option CString} {flags : Arg}
    (h : tree.dirty = true ∨ ¬ CreatesFile ctx tree.files path flags) :
    Kept tree (sysOpen ctx tree path flags) := by
  cases path with
  | none => exact Kept.refl tree
  | some name =>
      unfold sysOpen
      dsimp only
      split
      · exact Kept.refl tree
      · split
        · rename_i hflags
          rcases h with hdirty | hnone
          · exact kept_of_dirty _ hdirty
          · apply kept_of_files_eq
            apply fsCreate_of_not_creatable
            by_contra hcreatable
            exact hnone ⟨hflags, name, rfl, Bool.eq_true_of_not_eq_false hcreatable⟩
        · exact Kept.refl tree

theorem sysOpen_not_changeMarked {ctx : Context} {tree : Tree} {path : Option CString}
    {flags : Arg} (hclean : tree.dirty = false)
    (hcreates : CreatesFile ctx tree.files path flags) :
    ¬ ChangeMarked tree (sysOpen ctx tree path flags) := by
  obtain ⟨hflags, name, rfl, hcreatable⟩ := hcreates
  obtain ⟨idx, node, hfree, hnode, hfiles⟩ :=
    fsCreate_of_creatable tree.files (ctx.caller 0) name hcreatable
  have hopen : sysOpen ctx tree (some name) flags =
      { tree with files := update tree.files idx node } := by
    unfold sysOpen
    dsimp only
    cases hfound : fsResolveImpl tree.files ctx.cwd name with
    | some e =>
        have hsame : (fsCreate tree.files (ctx.caller 0) name).1 = tree.files := by
          unfold fsCreate
          have : (ctx.caller 0).cwd = ctx.cwd := rfl
          rw [this, hfound]
        have hidx := congrFun (hsame.symm.trans hfiles) idx
        rw [update_self] at hidx
        rw [hidx, hnode] at hfree
        cases hfree
    | none =>
        dsimp only
        rw [if_pos hflags, hfiles]
  rw [hopen]
  exact not_changeMarked_of_update hfree hnode hclean

/-! ## Writing -/

/-- `fs_write` finds a file there and the room for the bytes, or memory for more. -/
def canWrite (files : Table) (fd : ℤ) (count : ℕ) (allocated : Bool) : Bool :=
  decide (0 ≤ fd ∧ fd < maxFiles) && (files (slotAt fd)).inUse &&
    decide ((files (slotAt fd)).type = .file) &&
      (decide ((files (slotAt fd)).size + count ≤ (files (slotAt fd)).capacity) || allocated)

theorem fsWrite_cases {fd count : ℤ} {buf : List UInt8} {reply : Reply}
    (h : fsWrite files caller fd buf count = some reply) : reply = (files, -1) ∨ 0 ≤ reply.2 := by
  unfold fsWrite at h
  split at h
  · exact Or.inl (Option.some.inj h).symm
  · dsimp only at h
    split at h
    · exact Or.inl (Option.some.inj h).symm
    · split at h
      · cases h
      · split at h
        · cases h
        · exact Or.inl (Option.some.inj h).symm
        · split at h
          · cases h
          · rename_i hcount
            rw [← Option.some.inj h]
            exact Or.inr (not_lt.mp hcount)

theorem fsWrite_of_canWrite {fd : ℤ} {count : ℕ} {buf : List UInt8} {reply : Reply}
    (hcan : canWrite files fd count caller.allocated = true)
    (h : fsWrite files caller fd buf count = some reply) : 0 ≤ reply.2 := by
  unfold canWrite at hcan
  simp only [Bool.and_eq_true, Bool.or_eq_true, decide_eq_true_eq] at hcan
  obtain ⟨⟨⟨hrange, hused⟩, htype⟩, hroom⟩ := hcan
  unfold fsWrite at h
  rw [if_neg (by omega)] at h
  dsimp only at h
  rw [if_neg (by simp [hused, htype])] at h
  split at h
  · cases h
  · split at h
    · cases h
    · rename_i hcap
      unfold fileEnsureCap at hcap
      split at hcap
      · cases hcap
      · rename_i hfull
        have hallocated : caller.allocated = true := hroom.resolve_left hfull
        split at hcap
        · cases hcap
        · rw [if_pos hallocated] at hcap
          cases hcap
    · rw [if_neg (by omega)] at h
      rw [← Option.some.inj h]
      exact Int.natCast_nonneg count

section Writes

variable {ctx : Context} {step : ℕ} {tree next : Tree} {fd : ℤ} {buf : List UInt8}

theorem writeNode_kept {count n : ℤ}
    (h : writeNode ctx step tree fd buf count = some (next, n)) : Kept tree next := by
  unfold writeNode at h
  obtain ⟨reply, hreply, heq⟩ := Option.map_eq_some_iff.mp h
  cases heq
  rcases fsWrite_cases hreply with rfl | hcount
  · right
    simp
  · left
    simp [hcount]

theorem writeNode_dirty {count : ℕ} {n : ℤ}
    (hcan : canWrite tree.files fd count (ctx.allocated step) = true)
    (h : writeNode ctx step tree fd buf count = some (next, n)) : next.dirty = true := by
  unfold writeNode at h
  obtain ⟨reply, hreply, heq⟩ := Option.map_eq_some_iff.mp h
  cases heq
  have hcount := fsWrite_of_canWrite hcan hreply
  simp [hcount]

theorem sysWrite_kept {count n : ℤ}
    (h : sysWrite ctx step tree fd buf count = some (next, n)) : Kept tree next := by
  unfold sysWrite at h
  split at h
  · cases h
    exact Kept.refl tree
  · dsimp only at h
    split at h
    · cases h
      exact Kept.refl tree
    · split at h
      · obtain ⟨written, hwritten, heq⟩ := Option.map_eq_some_iff.mp h
        have hkept := writeNode_kept hwritten
        cases heq
        split
        · exact Or.inl rfl
        · exact hkept
      · split at h
        · cases h
          exact Kept.refl tree
        · cases h
          exact Kept.refl tree

theorem kSysWrite_kept {fd count : Arg} (h : kSysWrite ctx tree fd buf count = some next) :
    Kept tree next := by
  unfold kSysWrite at h
  split at h
  · cases h
    exact Kept.refl tree
  · obtain ⟨⟨after, n⟩, hwrite, rfl⟩ := Option.map_eq_some_iff.mp h
    exact sysWrite_kept hwrite

/-- Induction over the buffers: each round keeps or marks what the round before left. -/
theorem sysWritev_kept {iov : List (List UInt8 × Arg)}
    (h : sysWritev ctx fd step tree iov = some next) : Kept tree next := by
  induction iov generalizing step tree with
  | nil => exact Or.inr (Option.some.inj h).symm
  | cons entry rest ih =>
      obtain ⟨buf, len⟩ := entry
      unfold sysWritev at h
      cases hwrite : sysWrite ctx step tree fd buf len.toInt with
      | none =>
          rw [hwrite] at h
          cases h
      | some written =>
          obtain ⟨after, n⟩ := written
          have hfirst := sysWrite_kept hwrite
          rw [hwrite] at h
          dsimp only at h
          split at h
          · cases h
            exact hfirst
          · exact hfirst.trans (ih h)

end Writes

/-! ## The filesystem call -/

theorem FsOp.run_of_not_mutates {ctx : Context} {files after : Table} {op : FsOp}
    (hop : op.mutates = false) (h : op.run ctx files = some after) : after = files := by
  cases op with
  | mkdir path | create path | delete path | rmdir path | truncate path => cases hop
  | rename oldname newname => cases hop
  | _ => exact (Option.some.inj h).symm

theorem kSysFs_kept {ctx : Context} {tree next : Tree} {op : FsOp}
    (h : kSysFs ctx tree op = some next) : Kept tree next := by
  unfold kSysFs at h
  obtain ⟨files, hfiles, rfl⟩ := Option.map_eq_some_iff.mp h
  cases hop : op.mutates with
  | true => exact Or.inl (Bool.or_true tree.dirty)
  | false =>
      rw [Bool.or_false]
      exact kept_of_files_eq (FsOp.run_of_not_mutates hop hfiles)

/-! ## Configuration files -/

/-- Some write of the texts into the file meets a file and memory. -/
def FillGoesThrough (ctx : Context) (step : ℕ) (files : Table) (file : CString)
    (texts : List (List UInt8)) : Prop :=
  let created := fsCreate files (ctx.caller step) file
  ∃ i text, texts[i]? = some text ∧
    canWrite created.1 created.2 text.length (ctx.allocated (step + 1 + i)) = true

section Fill

variable {ctx : Context} {step : ℕ} {tree next : Tree} {texts : List (List UInt8)}

theorem writeTexts_kept {fd : ℤ} (h : writeTexts ctx fd step tree texts = some next) :
    Kept tree next := by
  induction texts generalizing step tree with
  | nil => exact Or.inr (Option.some.inj h).symm
  | cons text rest ih =>
      unfold writeTexts at h
      cases hwrite : writeNode ctx step tree fd text text.length with
      | none =>
          rw [hwrite] at h
          cases h
      | some written =>
          rw [hwrite] at h
          exact (writeNode_kept hwrite).trans (ih h)

/-- Induction over the texts: until one write goes through, the table is the first one. -/
theorem writeTexts_dirty {fd : ℤ} (h : writeTexts ctx fd step tree texts = some next)
    {i : ℕ} {text : List UInt8} (htext : texts[i]? = some text)
    (hcan : canWrite tree.files fd text.length (ctx.allocated (step + i)) = true) :
    next.dirty = true := by
  induction texts generalizing step tree i with
  | nil => cases htext
  | cons first rest ih =>
      unfold writeTexts at h
      cases hwrite : writeNode ctx step tree fd first first.length with
      | none =>
          rw [hwrite] at h
          cases h
      | some written =>
          obtain ⟨after, n⟩ := written
          rw [hwrite] at h
          dsimp only at h
          cases i with
          | zero =>
              obtain rfl : first = text := Option.some.inj htext
              exact (writeTexts_kept h).dirty (writeNode_dirty hcan hwrite)
          | succ i =>
              rcases writeNode_kept hwrite with hdirty | rfl
              · exact (writeTexts_kept h).dirty hdirty
              · have hstep : step + (i + 1) = step + 1 + i := by omega
                rw [hstep] at hcan
                exact ih h htext hcan

theorem createAndFill_kept {file : CString}
    (h : createAndFill ctx step tree file texts = some next)
    (hfile : tree.dirty = true ∨ creatable tree.files ctx.cwd file = false) :
    Kept tree next := by
  have hcreated : Kept tree
      { tree with files := (fsCreate tree.files (ctx.caller step) file).1 } := by
    rcases hfile with hdirty | hnone
    · exact kept_of_dirty _ hdirty
    · exact kept_of_files_eq (fsCreate_of_not_creatable hnone)
  unfold createAndFill at h
  dsimp only at h
  split at h
  · cases h
    exact hcreated
  · exact hcreated.trans (writeTexts_kept h)

theorem createAndFill_dirty {file : CString}
    (h : createAndFill ctx step tree file texts = some next)
    (hfill : FillGoesThrough ctx step tree.files file texts) : next.dirty = true := by
  obtain ⟨i, text, htext, hcan⟩ := hfill
  unfold createAndFill at h
  dsimp only at h
  split at h
  · rename_i hfail
    unfold canWrite at hcan
    simp only [Bool.and_eq_true, decide_eq_true_eq] at hcan
    omega
  · exact writeTexts_dirty h htext hcan

end Fill

/-- The table once `fs_mkdir` and `fs_delete` have run, in `write_theme_cfg` and its
siblings. -/
def emptiedCfg (ctx : Context) (files : Table) (file : CString) : Table :=
  let made := (fsMkdir files (ctx.caller 0) cfgDir).1
  ((fsDelete made (ctx.caller 1) file).getD (made, -1)).1

/-- A configuration file is rewritten in a marked tree, or there is nothing to make or to
delete, or one of its writes goes through. -/
def CfgMarked (ctx : Context) (tree : Tree) (file : CString) (texts : List (List UInt8)) :
    Prop :=
  tree.dirty = true ∨
    (creatable tree.files ctx.cwd cfgDir = false ∧
      deletable tree.files ctx.cwd file = false ∧
      (texts = [] ∨ creatable tree.files ctx.cwd file = false)) ∨
    FillGoesThrough ctx 2 (emptiedCfg ctx tree.files file) file texts

theorem writeCfg_kept {ctx : Context} {tree next : Tree} {file : CString}
    {texts : List (List UInt8)} (h : writeCfg ctx tree file texts = some next)
    (hmarked : CfgMarked ctx tree file texts) : Kept tree next := by
  unfold writeCfg at h
  dsimp only at h
  cases hdelete : fsDelete (fsMkdir tree.files (ctx.caller 0) cfgDir).1 (ctx.caller 1)
      file with
  | none =>
      rw [hdelete] at h
      cases h
  | some deleted =>
      have hemptied : emptiedCfg ctx tree.files file = deleted.1 := by
        unfold emptiedCfg
        dsimp only
        rw [hdelete]
        rfl
      rw [hdelete] at h
      dsimp only at h
      rcases hmarked with hdirty | ⟨hcfg, hfile, htexts⟩ | hfill
      · left
        split at h
        · cases h
          exact hdirty
        · have hkept := createAndFill_kept h (Or.inl hdirty)
          exact hkept.dirty hdirty
      · have hmkdir : (fsMkdir tree.files (ctx.caller 0) cfgDir).1 = tree.files :=
          fsMkdir_of_not_creatable hcfg
        rw [hmkdir, fsDelete_of_not_deletable hfile] at hdelete
        obtain rfl : (tree.files, -1) = deleted := Option.some.inj hdelete
        split at h
        · exact Or.inr (Option.some.inj h).symm
        · rename_i hne
          exact createAndFill_kept h (Or.inr (htexts.resolve_left hne))
      · left
        rw [hemptied] at hfill
        split at h
        · rename_i hnil
          obtain ⟨i, text, htext, _⟩ := hfill
          rw [hnil] at htext
          cases htext
        · exact createAndFill_dirty h hfill

/-! ## The wallpaper folder -/

/-- Every component is there, one below the other. -/
def chainFound (files : Table) : Slot → List (List UInt8) → Bool
  | _, [] => true
  | dir, comp :: rest =>
      match findInDir files dir.val comp with
      | some e => chainFound files e rest
      | none => false

/-- `ensure_dir_chain` has nothing to make, or no slot to make it in. -/
def FolderKept (files : Table) : Prop :=
  chainFound files rootSlot ((components wpFolder).filter fun comp => comp ≠ []) = true ∨
    findFreeSlot files = none

theorem ensureDirs_of_chainFound {now : UInt32} {dir : Slot} {comps : List (List UInt8)}
    (h : chainFound files dir comps = true) : (ensureDirs now files dir comps).1 = files := by
  induction comps generalizing dir with
  | nil => rfl
  | cons comp rest ih =>
      unfold chainFound at h
      unfold ensureDirs ensureDir
      cases hfind : findInDir files dir.val comp with
      | none =>
          rw [hfind] at h
          cases h
      | some e =>
          rw [hfind] at h
          exact ih h

theorem ensureDirs_of_full {now : UInt32} {dir : Slot} {comps : List (List UInt8)}
    (h : findFreeSlot files = none) : (ensureDirs now files dir comps).1 = files := by
  induction comps generalizing dir with
  | nil => rfl
  | cons comp rest ih =>
      unfold ensureDirs ensureDir
      cases hfind : findInDir files dir.val comp with
      | none =>
          dsimp only
          rw [createEntry_full h]
      | some e => exact ih

theorem ensureDirChain_of_folderKept {now : UInt32} (h : FolderKept files) :
    (ensureDirChain now files wpFolder).1 = files := by
  rcases h with hfound | hfull
  · exact ensureDirs_of_chainFound hfound
  · exact ensureDirs_of_full hfull

/-- The manifest is saved in a marked tree, or there is nothing to make, or its write goes
through. -/
def ManifestMarked (ctx : Context) (tree : Tree) (s : Settings) : Prop :=
  tree.dirty = true ∨
    (FolderKept tree.files ∧ creatable tree.files ctx.cwd wpManifest = false) ∨
    FillGoesThrough ctx 1 (ensureDirChain (ctx.now 0) tree.files wpFolder).1 wpManifest
      [s.manifest]

theorem saveManifest_kept {ctx : Context} {tree next : Tree} {s : Settings}
    (h : saveManifest ctx tree s = some next) (hmarked : ManifestMarked ctx tree s) :
    Kept tree next := by
  unfold saveManifest at h
  dsimp only at h
  split at h
  · cases h
  · rcases hmarked with hdirty | ⟨hfolder, hmanifest⟩ | hfill
    · have hkept := createAndFill_kept h (Or.inl hdirty)
      exact Or.inl (hkept.dirty hdirty)
    · rw [ensureDirChain_of_folderKept hfolder] at h
      exact createAndFill_kept h (Or.inr hmanifest)
    · exact Or.inl (createAndFill_dirty h hfill)

/-! ## The condition on a call -/

/-- The settings call leaves no change behind that no write of its own marks. -/
def SettingsMarked (ctx : Context) (s : Settings) (tree : Tree) : SettingsOp → Prop
  | .themeApply id =>
      0 ≤ id → id < s.themeTotal →
        CfgMarked ctx tree themeCfg [decimal id ++ bytes "\n"]
  | .themeAdd (some name) (some palette) accent =>
      s.userThemes.length < userThemeMax → name ≠ [] →
        CfgMarked ctx tree themesCfg ((s.addTheme name palette accent).map ThemeDef.line)
  | .themeDel id =>
      themeCount ≤ id → id < s.themeTotal →
        CfgMarked ctx tree themesCfg
          ((s.userThemes.eraseIdx (id.toNat - themeCount)).map ThemeDef.line)
  | .accentSet idx => CfgMarked ctx tree accentCfg [decimal idx ++ bytes "\n"]
  | .wallApply i =>
      0 ≤ i → ∀ entry, s.wallpapers[i.toNat]? = some entry →
        ManifestMarked ctx tree (s.applyWallpaper entry)
  | .wallProc => ManifestMarked ctx tree s.applyProcedural
  | .wallRescan => tree.dirty = true ∨ FolderKept tree.files
  | _ => True

theorem kSysSettings_kept {ctx : Context} {s : Settings} {tree next : Tree} {op : SettingsOp}
    (h : kSysSettings ctx s tree op = some next) (hmarked : SettingsMarked ctx s tree op) :
    Kept tree next := by
  have hsame : ∀ {after : Tree}, some tree = some after → Kept tree after :=
    fun heq => Or.inr (Option.some.inj heq).symm
  unfold kSysSettings at h
  split at h
  · split at h
    · exact hsame h
    · rename_i hid
      obtain ⟨hlow, hhigh⟩ := not_or.mp hid
      exact writeCfg_kept h (hmarked (not_lt.mp hlow) (not_le.mp hhigh))
  · split at h
    · exact hsame h
    · rename_i hroom
      obtain ⟨hcount, hname⟩ := not_or.mp hroom
      exact writeCfg_kept h (hmarked (not_le.mp hcount) hname)
  · exact hsame h
  · split at h
    · exact hsame h
    · rename_i hid
      obtain ⟨hlow, hhigh⟩ := not_or.mp hid
      exact writeCfg_kept h (hmarked (not_lt.mp hlow) (not_le.mp hhigh))
  · exact writeCfg_kept h hmarked
  · split at h
    · exact hsame h
    · rename_i hi
      split at h
      · exact hsame h
      · rename_i entry hentry
        exact saveManifest_kept h (hmarked (not_lt.mp hi) entry hentry)
  · exact saveManifest_kept h hmarked
  · obtain rfl : rescan ctx tree = next := Option.some.inj h
    rcases hmarked with hdirty | hfolder
    · exact kept_of_dirty _ hdirty
    · exact kept_of_files_eq (ensureDirChain_of_folderKept hfolder)
  · exact hsame h

/-- The calls that mark what they change: all but an open that creates its file in a clean
tree, and a settings call that gets no further than making and deleting. -/
def MarksChange (tree : Tree) : TreeEvent → Prop
  | .call ctx (.open path flags) | .call ctx (.openat path flags) =>
      tree.dirty = true ∨ ¬ CreatesFile ctx tree.files path flags
  | .call ctx (.settings s op) => SettingsMarked ctx s tree op
  | _ => True

theorem syscall_kept {ctx : Context} {tree next : Tree} {call : Syscall}
    (h : call.run ctx tree = some next) (hmarks : MarksChange tree (.call ctx call)) :
    Kept tree next := by
  cases call with
  | «open» path flags | openat path flags =>
      obtain rfl : sysOpen ctx tree path flags = next := Option.some.inj h
      exact sysOpen_kept hmarks
  | write fd buf count => exact kSysWrite_kept h
  | writev fd iov => exact sysWritev_kept h
  | fs op => exact kSysFs_kept h
  | settings s op => exact kSysSettings_kept h hmarks
  | other => exact Or.inr (Option.some.inj h).symm

/-! ## Runs -/

/-- A call that comes back has marked what it changed. -/
def StepMarked (tree : Tree) (event : TreeEvent) (next : Tree) : Prop :=
  match event with
  | .call ctx call => (∃ after, call.run ctx tree = some after) → ChangeMarked tree next
  | .kernel => True

theorem stepMarked_of_marksChange {tree next : Tree} {event : TreeEvent}
    (hstep : TreeStep tree event next) (hmarks : MarksChange tree event) :
    StepMarked tree event next := by
  cases event with
  | kernel => trivial
  | call ctx call =>
      rintro ⟨after, hrun⟩
      obtain rfl := hstep after hrun
      exact (syscall_kept hrun hmarks).changeMarked

def runTree : Tree → List TreeEvent → List (TreeEvent × Tree)
  | _, [] => []
  | tree, .kernel :: rest => (.kernel, tree) :: runTree tree rest
  | tree, .call ctx call :: rest =>
      let next := (call.run ctx tree).getD tree
      (.call ctx call, next) :: runTree next rest

theorem along_runTree (tree : Tree) (events : List TreeEvent) :
    Along TreeStep tree (runTree tree events) := by
  induction events generalizing tree with
  | nil => trivial
  | cons event rest ih =>
      cases event with
      | kernel => exact ⟨trivial, ih tree⟩
      | call ctx call =>
          refine ⟨?_, ih _⟩
          intro after hafter
          rw [hafter]
          rfl

/-- No slot from `n` on is in use. -/
def UnusedFrom (n : ℕ) (files : Table) : Prop :=
  ∀ slot : Slot, n ≤ slot.val → (files slot).inUse = false

theorem UnusedFrom.mono {n k : ℕ} (h : UnusedFrom n files) (hle : n ≤ k) :
    UnusedFrom k files := fun slot hslot => h slot (hle.trans hslot)

theorem UnusedFrom.ensureDir {n : ℕ} (h : UnusedFrom n files) (hn : 0 < n) (now : UInt32)
    (dir : Slot) (comp : List UInt8) :
    UnusedFrom (n + 1) (Filesystem.ensureDir now files dir comp).1 := by
  have hnext := h.mono (Nat.le_succ n)
  unfold Filesystem.ensureDir
  split
  · exact hnext
  · unfold createEntry
    split
    · exact hnext
    · split
      · exact hnext
      · split
        · exact hnext
        · rename_i idx hidx
          have hle : idx.val ≤ n := by
            by_contra hlt
            have hn' : n < maxFiles := (not_le.mp hlt).trans idx.isLt
            unfold findFreeSlot at hidx
            have hfirst := (Fin.find?_eq_some_iff.mp hidx).2 ⟨n, hn'⟩ (not_le.mp hlt)
            have hfree := h ⟨n, hn'⟩ (le_refl n)
            have hroot : (⟨n, hn'⟩ : Slot) ≠ rootSlot := by
              intro heq
              exact absurd (congrArg Fin.val heq) (Nat.pos_iff_ne_zero.mp hn)
            simp [hfree, hroot] at hfirst
          intro slot hslot
          have hne : slot ≠ idx := by
            rintro rfl
            omega
          dsimp only
          rw [update_of_ne hne]
          exact hnext slot hslot

theorem UnusedFrom.ensureDirs {n : ℕ} (h : UnusedFrom n files) (hn : 0 < n) (now : UInt32)
    (dir : Slot) (comps : List (List UInt8)) :
    UnusedFrom (n + comps.length) (Filesystem.ensureDirs now files dir comps).1 := by
  induction comps generalizing n files dir with
  | nil => exact h
  | cons comp rest ih =>
      have hfirst := h.ensureDir hn now dir comp
      rw [List.length_cons, Nat.add_comm rest.length, ← Nat.add_assoc]
      unfold Filesystem.ensureDirs
      split
      · rename_i heq
        rw [heq] at hfirst
        exact ih hfirst (Nat.succ_pos n) _
      · rename_i heq
        rw [heq] at hfirst
        exact hfirst.mono (Nat.le_add_right _ _)

theorem UnusedFrom.ensureDirChain {n : ℕ} {files : Table} (h : UnusedFrom n files)
    (hn : 0 < n) (now : UInt32) (path : List UInt8) :
    UnusedFrom (n + (components path).length)
      (Filesystem.ensureDirChain now files path).1 :=
  (h.ensureDirs hn now rootSlot _).mono
    (Nat.add_le_add_left (List.length_filter_le _ _) n)

theorem UnusedFrom.foldl {n : ℕ} (h : UnusedFrom n files) (hn : 0 < n) (now : UInt32)
    (paths : List (List UInt8)) :
    UnusedFrom (n + (paths.map fun path => (components path).length).sum)
      (paths.foldl (fun files path => (Filesystem.ensureDirChain now files path).1) files) := by
  induction paths generalizing n files with
  | nil => exact h
  | cons path rest ih =>
      have hfirst := ih (h.ensureDirChain hn now path) (by omega)
      rw [List.map_cons, List.sum_cons, ← Nat.add_assoc]
      exact hfirst

theorem unusedFrom_initFilesystem (now : UInt32) :
    UnusedFrom 28 (initFilesystem now).files := by
  have hstart : UnusedFrom 1 initialTable := by
    intro slot hslot
    have hne : slot ≠ rootSlot := by
      rintro rfl
      exact absurd hslot (by decide)
    rw [initialTable, if_neg hne]
    rfl
  have hdefault := hstart.foldl Nat.one_pos now defaultDirs
  have hhome := hdefault.ensureDirChain (by omega) now (bytes "home/eigen")
  have hdesktop := hhome.ensureDirChain (by omega) now (bytes "home/eigen/Desktop")
  exact (hdesktop.ensureDirChain (by omega) now (bytes "home/eigen/.Trash")).mono (by decide)

def xPath : CString := ⟨bytes "/x", by decide⟩

def shellContext : Context where
  cwd := rootSlot
  fds := fun _ => FdSlot.zero
  now := fun _ => 0
  allocated := fun _ => true
  deviceWrite := fun _ => 0

/-- The tree after the boot, saved by the first round of `persistd`. -/
def savedTree : Tree := ⟨(initFilesystem 0).files, false⟩

theorem createsFile_savedTree :
    CreatesFile shellContext savedTree.files (some xPath) oCreat := by
  refine ⟨by decide, xPath, rfl, ?_⟩
  have hx : findInDir savedTree.files (rootSlot.val : ℤ) ((bytes "x").take (maxFilename - 1)) =
      none := by
    rw [findInDir_eq_none_iff]
    intro slot _ hslot _
    exact (binWithoutX_initFilesystem 0).noX slot hslot
  have hwalk : walk savedTree.files rootSlot [[], bytes "x"] =
      .missing rootSlot (bytes "x") := by
    rw [walk_slash, walk, if_neg (by decide), if_neg (by decide), hx]
    rfl
  have hparent : fsResolveParent savedTree.files shellContext.cwd xPath =
      some (rootSlot, bytes "x") := by
    have hpieces : components xPath.bytes = [[], bytes "x"] := by decide
    have hstart : startDir shellContext.cwd xPath.bytes = rootSlot := by decide
    rw [fsResolveParent, if_neg (by decide), hpieces, hstart, hwalk]
  have hfree : (findFreeSlot savedTree.files).isSome = true := by
    rw [Option.isSome_iff_ne_none]
    unfold findFreeSlot
    rw [Ne, Fin.find?_eq_none_iff]
    intro hall
    have hlast : (savedTree.files ⟨255, by decide⟩).inUse = false :=
      unusedFrom_initFilesystem 0 ⟨255, by decide⟩ (by decide)
    have hused := hall ⟨255, by decide⟩
    rw [hlast] at hused
    exact absurd hused (by decide)
  have hleaf : bytes "x" ≠ [] := by decide
  unfold creatable
  rw [hparent]
  simp [hleaf, hfree]

theorem not_marked_of_createsFile {ctx : Context} {tree : Tree} {path : Option CString}
    {flags : Arg} (hclean : tree.dirty = false)
    (hcreates : CreatesFile ctx tree.files path flags) :
    ¬ Along StepMarked tree (runTree tree [.call ctx (.open path flags)]) := by
  intro hmarked
  have hchange : ChangeMarked tree (sysOpen ctx tree path flags) := hmarked.1 ⟨_, rfl⟩
  exact sysOpen_not_changeMarked hclean hcreates hchange

end EigenOS.Syscalls
