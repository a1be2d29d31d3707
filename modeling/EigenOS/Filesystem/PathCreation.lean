import EigenOS.Filesystem.Paths
import EigenOS.Filesystem.Planting

/-!
# Creating at a path

What `fs_mkdir` and `fs_create` promise about the path they are given, and exactly when they
keep it.  The resolver looks names up cut to 63 bytes, walks through files as through
directories, and takes a missing component for the last one when at most one piece follows.
-/

namespace EigenOS.Filesystem

open EigenOS.ParentTree Function

/-! ## What a path names -/

/-- The components of a path: repeated slashes and "." name nothing. -/
def significant (pieces : List (List UInt8)) : List (List UInt8) :=
  pieces.filter fun piece => decide (piece ≠ [] ∧ piece ≠ [dot])

/-- Components that each name a directory below the one before, or go up with "..". -/
inductive Follows (files : Table) : Slot → List (List UInt8) → Slot → Prop
  | here (dir : Slot) : Follows files dir [] dir
  | up {dir last : Slot} {rest : List (List UInt8)}
      (hrest : Follows files (parentOf files dir) rest last) :
      Follows files dir ([dot, dot] :: rest) last
  | down {dir next last : Slot} {comp : List UInt8} {rest : List (List UInt8)}
      (hcomp : comp ≠ [dot, dot]) (hroot : next ≠ rootSlot)
      (hnext : IsDirectory (files next)) (hparent : parentOf files next = dir)
      (hname : cString (files next).name = comp) (hrest : Follows files next rest last) :
      Follows files dir (comp :: rest) last

/-- The names of a path below the names of the directory it starts from. -/
def normalise (base : List (List UInt8)) : List (List UInt8) → List (List UInt8)
  | [] => base
  | comp :: rest =>
      if comp = [dot, dot] then normalise base.dropLast rest else normalise (base ++ [comp]) rest

/-- Every component but the last names a directory, and the last is a new name there. -/
def NamesNewNode (files : Table) (start : Slot) (comps : List (List UInt8)) : Prop :=
  ∃ front leaf dir, comps = front ++ [leaf] ∧ leaf ≠ [dot, dot] ∧
    Follows files start front dir ∧
    ∀ slot, slot ≠ rootSlot → (files slot).inUse = true → parentOf files slot = dir →
      cString (files slot).name ≠ leaf

/-- One new node at the normalised form of the components; the others are as they were. -/
structure CreatesNode (files after : Table) (start : Slot) (comps : List (List UInt8))
    (idx : Slot) : Prop where
  free : (files idx).inUse = false
  used : (after idx).inUse = true
  others : ∀ slot, slot ≠ idx → after slot = files slot
  path : ∃ base, IsPath files start base ∧ IsPath after idx (normalise base comps)

/-- A call either creates the node that its path names or leaves the table. -/
def CreatesRight (files : Table) (cwd : Slot) (path : CString) (reply : Reply) : Prop :=
  (∃ idx : Slot, reply.2 = idx.val ∧
    NamesNewNode files (startDir cwd path.bytes) (significant (components path.bytes)) ∧
    CreatesNode files reply.1 (startDir cwd path.bytes) (significant (components path.bytes))
      idx) ∨
  (reply.2 < 0 ∧ reply.1 = files)

/-! ## The exact condition -/

def IsLookedUp (piece : List UInt8) : Prop := piece ≠ [] ∧ piece ≠ [dot] ∧ piece ≠ [dot, dot]

/-- `piece` is the first component that does not exist: those before it lead to `dir`. -/
structure FirstMissing (files : Table) (start : Slot) (pieces before : List (List UInt8))
    (piece : List UInt8) (after : List (List UInt8)) (dir : Slot) : Prop where
  pieces_eq : pieces = before ++ piece :: after
  reaches : walk files start before = .found dir
  looked_up : IsLookedUp piece
  missing : findInDir files dir.val (piece.take (maxFilename - 1)) = none

/-- The pieces lead through directories only, each under its whole name. -/
def RouteFits (files : Table) (start : Slot) (before : List (List UInt8)) : Prop :=
  (∀ piece ∈ before, piece.length < maxFilename) ∧
    ∀ earlier, earlier <+: before → ∀ e, walk files start earlier = .found e →
      IsDirectory (files e)

/-- Unless nothing is created, no component up to the missing one is cut, those before it are
directories, and only slashes and "." follow it. -/
def CreationFits (files : Table) (start : Slot) (pieces : List (List UInt8)) : Prop :=
  ∀ before piece after dir, FirstMissing files start pieces before piece after dir →
    after.length < 2 → findFreeSlot files ≠ none →
      RouteFits files start before ∧ piece.length < maxFilename ∧ significant after = []

/-! ## Components -/

theorem significant_append (left right : List (List UInt8)) :
    significant (left ++ right) = significant left ++ significant right :=
  List.filter_append ..

variable {piece leaf : List UInt8} {names : List (List UInt8)}

theorem significant_cons_of_skip (h : piece = [] ∨ piece = [dot]) (rest : List (List UInt8)) :
    significant (piece :: rest) = significant rest := by
  apply List.filter_cons_of_neg
  rw [decide_eq_true_iff, ← not_or]
  exact not_not.mpr h

theorem significant_cons_of_ne (hne : piece ≠ []) (hdot : piece ≠ [dot]) (rest : List (List UInt8)) :
    significant (piece :: rest) = piece :: significant rest :=
  List.filter_cons_of_pos (decide_eq_true ⟨hne, hdot⟩)

theorem normalise_append (base front back : List (List UInt8)) :
    normalise base (front ++ back) = normalise (normalise base front) back := by
  induction front generalizing base with
  | nil => rfl
  | cons comp rest ih =>
      rw [List.cons_append, normalise, normalise]
      split
      · exact ih _
      · exact ih _

theorem normalise_leaf (base : List (List UInt8)) (h : leaf ≠ [dot, dot]) :
    normalise base [leaf] = base ++ [leaf] := by
  rw [normalise, if_neg h, normalise]

theorem follows_append {files : Table} {start last : Slot} {front back : List (List UInt8)}
    (h : Follows files start (front ++ back) last) :
    ∃ middle, Follows files start front middle ∧ Follows files middle back last := by
  induction front generalizing start with
  | nil => exact ⟨start, Follows.here start, h⟩
  | cons comp rest ih =>
      cases h with
      | up hrest =>
          obtain ⟨middle, hfirst, hsecond⟩ := ih hrest
          exact ⟨middle, hfirst.up, hsecond⟩
      | down hcomp hroot hnext hparent hname hrest =>
          obtain ⟨middle, hfirst, hsecond⟩ := ih hrest
          exact ⟨middle, Follows.down hcomp hroot hnext hparent hname hfirst, hsecond⟩

theorem Follows.append {files : Table} {start middle last : Slot}
    {front back : List (List UInt8)} (hfirst : Follows files start front middle)
    (hsecond : Follows files middle back last) : Follows files start (front ++ back) last := by
  induction hfirst with
  | here => exact hsecond
  | up _ ih => exact (ih hsecond).up
  | down hcomp hroot hnext hparent hname _ ih =>
      exact Follows.down hcomp hroot hnext hparent hname (ih hsecond)

theorem IsPath.parent {files : Table} (hfiles : TreeInvariant files) {slot : Slot}
    (h : IsPath files slot names) : IsPath files (parentOf files slot) names.dropLast := by
  cases h with
  | root =>
      rw [hfiles.parentOf_root]
      exact IsPath.root
  | child _ _ hup =>
      rw [List.dropLast_concat]
      exact hup

theorem IsPath.name_below {files : Table} {dir slot : Slot} (hup : IsPath files dir names)
    (hroot : slot ≠ rootSlot) (hused : (files slot).inUse = true)
    (hparent : parentOf files slot = dir) :
    IsPath files slot (names ++ [cString (files slot).name]) := by
  subst hparent
  exact hup.child hroot hused

theorem Follows.isPath {files : Table} (hfiles : TreeInvariant files) {start last : Slot}
    {comps base : List (List UInt8)} (h : Follows files start comps last)
    (hbase : IsPath files start base) : IsPath files last (normalise base comps) := by
  induction h generalizing base with
  | here => exact hbase
  | up _ ih =>
      rw [normalise, if_pos rfl]
      exact ih (hbase.parent hfiles)
  | down hcomp hroot hnext hparent hname _ ih =>
      rw [normalise, if_neg hcomp]
      subst hname
      exact ih (hbase.name_below hroot hnext.inUse hparent)

theorem IsPath.update_free {files : Table} {idx slot : Slot} (h : IsPath files slot names)
    (hidx : (files idx).inUse = false) (fp : FileNode) :
    IsPath (update files idx fp) slot names := by
  induction h with
  | root => exact IsPath.root
  | @child slot names hroot hused _ ih =>
      have hne : slot ≠ idx := by
        rintro rfl
        rw [hidx] at hused
        cases hused
      have hsame : update files idx fp slot = files slot :=
        update_of_ne hne _ _
      have hparent : parentOf (update files idx fp) slot = parentOf files slot := by
        unfold parentOf
        rw [hsame]
      rw [← hparent] at ih
      rw [← hsame] at hused ⊢
      exact ih.child hroot hused

/-! ## The route of the resolver -/

theorem take_eq_iff {name : List UInt8} (hname : name.length < maxFilename - 1) :
    piece.take (maxFilename - 1) = name ↔ piece = name := by
  constructor
  · intro htake
    have hlen := congrArg List.length htake
    rw [List.length_take] at hlen
    rw [← htake, List.take_of_length_le (by omega)]
  · rintro rfl
    exact List.take_of_length_le hname.le

theorem length_dots : [dot].length < maxFilename - 1 ∧ [dot, dot].length < maxFilename - 1 := by
  decide

theorem walk_skip {files : Table} {dir : Slot} (h : piece = [] ∨ piece = [dot])
    (rest : List (List UInt8)) : walk files dir (piece :: rest) = walk files dir rest := by
  rw [walk, if_pos]
  rcases h with rfl | rfl
  · exact Or.inl rfl
  · exact Or.inr rfl

theorem walk_up (files : Table) (dir : Slot) (rest : List (List UInt8)) :
    walk files dir ([dot, dot] :: rest) = walk files (parentOf files dir) rest := by
  rw [walk, if_neg (by decide), if_pos (by decide)]

theorem walk_lookup {files : Table} {dir : Slot} (h : IsLookedUp piece) (rest : List (List UInt8)) :
    walk files dir (piece :: rest) =
      match findInDir files dir.val (piece.take (maxFilename - 1)) with
      | some e => walk files e rest
      | none =>
          if 2 ≤ rest.length then .noEntry else .missing dir (piece.take (maxFilename - 1)) := by
  obtain ⟨hne, hdot, hdots⟩ := h
  have hempty : ¬ piece.take (maxFilename - 1) = [] :=
    fun htake => hne ((take_eq_iff (by decide)).mp htake)
  have hone : ¬ piece.take (maxFilename - 1) = [dot] :=
    fun htake => hdot ((take_eq_iff length_dots.1).mp htake)
  have htwo : ¬ piece.take (maxFilename - 1) = [dot, dot] :=
    fun htake => hdots ((take_eq_iff length_dots.2).mp htake)
  rw [walk, if_neg (not_or.mpr ⟨hempty, hone⟩)]
  exact if_neg htwo

theorem isLookedUp_or (piece : List UInt8) :
    (piece = [] ∨ piece = [dot]) ∨ piece = [dot, dot] ∨ IsLookedUp piece := by
  by_cases hskip : piece = [] ∨ piece = [dot]
  · exact Or.inl hskip
  · rw [not_or] at hskip
    by_cases hup : piece = [dot, dot]
    · exact Or.inr (Or.inl hup)
    · exact Or.inr (Or.inr ⟨hskip.1, hskip.2, hup⟩)

theorem exists_firstMissing {files : Table} {start dir : Slot} {pieces : List (List UInt8)}
    (h : walk files start pieces = .missing dir leaf) :
    ∃ before piece after, FirstMissing files start pieces before piece after dir ∧
      after.length < 2 ∧ leaf = piece.take (maxFilename - 1) := by
  induction pieces generalizing start with
  | nil => cases h
  | cons piece rest ih =>
      have hlater : ∀ next, (∀ tail, walk files start (piece :: tail) = walk files next tail) →
          ∃ before found after, FirstMissing files start (piece :: rest) before found after dir ∧
            after.length < 2 ∧ leaf = found.take (maxFilename - 1) := by
        intro next hnext
        rw [hnext] at h
        obtain ⟨before, found, after, hfirst, hlen, hleaf⟩ := ih h
        refine ⟨piece :: before, found, after, ⟨?_, ?_, hfirst.looked_up, hfirst.missing⟩, hlen,
          hleaf⟩
        · rw [hfirst.pieces_eq, List.cons_append]
        · rw [hnext]
          exact hfirst.reaches
      rcases isLookedUp_or piece with hskip | rfl | hlooked
      · exact hlater start (walk_skip hskip)
      · exact hlater _ (walk_up files start)
      · cases hfind : findInDir files start.val (piece.take (maxFilename - 1)) with
        | some e =>
            refine hlater e fun tail => ?_
            rw [walk_lookup hlooked, hfind]
        | none =>
            rw [walk_lookup hlooked, hfind] at h
            dsimp only at h
            split at h
            · cases h
            · rename_i hlen
              cases h
              exact ⟨[], piece, rest, ⟨rfl, rfl, hlooked, hfind⟩, not_le.mp hlen, rfl⟩

theorem FirstMissing.walk_eq {files : Table} {start dir : Slot}
    {pieces before after : List (List UInt8)}
    (h : FirstMissing files start pieces before piece after dir) (hlen : after.length < 2) :
    walk files start pieces = .missing dir (piece.take (maxFilename - 1)) := by
  rw [h.pieces_eq, walk_append h.reaches, walk_lookup h.looked_up, h.missing]
  exact if_neg (not_le.mpr hlen)

/-- One piece of a route: where the resolver goes, and when the component names that. -/
theorem walk_piece {files : Table} (hfiles : TreeInvariant files) {start dir : Slot}
    (hstart : IsDirectory (files start)) {rest : List (List UInt8)}
    (h : walk files start (piece :: rest) = .found dir) :
    ∃ next, (∀ tail, walk files start (piece :: tail) = walk files next tail) ∧
      (piece.length < maxFilename ∧ IsDirectory (files next) →
        Follows files start (significant [piece]) next) ∧
      ∀ last, Follows files start (significant [piece]) last →
        piece.length < maxFilename ∧ IsDirectory (files next) ∧ last = next := by
  rcases isLookedUp_or piece with hskip | rfl | hlooked
  · refine ⟨start, walk_skip hskip, ?_, ?_⟩
    · rw [significant_cons_of_skip hskip]
      exact fun _ => Follows.here start
    · rw [significant_cons_of_skip hskip]
      intro last hlast
      cases hlast
      refine ⟨?_, hstart, rfl⟩
      rcases hskip with rfl | rfl <;> decide
  · refine ⟨parentOf files start, walk_up files start, fun _ => (Follows.here _).up, ?_⟩
    intro last hlast
    refine ⟨by decide, hfiles.parent_directory start hstart.inUse, ?_⟩
    cases hlast with
    | up hrest =>
        cases hrest
        rfl
    | down hcomp => exact absurd rfl hcomp
  · obtain ⟨hne, hdot, hdots⟩ := hlooked
    cases hfind : findInDir files start.val (piece.take (maxFilename - 1)) with
    | none =>
        rw [walk_lookup ⟨hne, hdot, hdots⟩, hfind] at h
        dsimp only at h
        split at h <;> cases h
    | some next =>
        have hcut : (piece.take (maxFilename - 1)).length < maxFilename :=
          lt_of_le_of_lt (List.length_take_le _ _) (by decide)
        obtain ⟨hroot, hused, hparent, hname⟩ := (findInDir_eq_some_iff hfiles hcut).mp hfind
        refine ⟨next, ?_, ?_, ?_⟩
        · intro tail
          rw [walk_lookup ⟨hne, hdot, hdots⟩, hfind]
        · rintro ⟨hshort, hnext⟩
          rw [List.take_of_length_le (Nat.le_sub_one_of_lt hshort)] at hname
          rw [significant_cons_of_ne hne hdot]
          exact Follows.down hdots hroot hnext hparent hname (Follows.here next)
        · rw [significant_cons_of_ne hne hdot]
          intro last hlast
          cases hlast with
          | up => exact absurd rfl hdots
          | @down _ child _ _ _ _ hchildRoot hchild hchildParent hchildName hrest =>
              cases hrest
              have hshort : piece.length < maxFilename :=
                hchildName ▸ length_cString_lt (hfiles.name_terminated last hchild.inUse)
              rw [List.take_of_length_le (Nat.le_sub_one_of_lt hshort)] at hname
              have hsame : last = next := by
                refine hfiles.siblings_distinct last next hchildRoot hroot hchild.inUse hused ?_
                  (hchildName.trans hname.symm)
                rw [hfiles.parent_index last hchild.inUse, hfiles.parent_index next hused,
                  hchildParent, hparent]
              exact ⟨hshort, hsame ▸ hchild, hsame⟩

theorem routeFits_cons {files : Table} {start next : Slot} {rest : List (List UInt8)}
    (hnext : ∀ tail, walk files start (piece :: tail) = walk files next tail) :
    RouteFits files start (piece :: rest) ↔
      piece.length < maxFilename ∧ IsDirectory (files start) ∧ RouteFits files next rest := by
  constructor
  · rintro ⟨hshort, hdirs⟩
    refine ⟨hshort _ List.mem_cons_self, hdirs [] List.nil_prefix start rfl,
      fun other hother => hshort other (List.mem_cons_of_mem _ hother), ?_⟩
    intro earlier hearlier e he
    refine hdirs (piece :: earlier) (List.cons_prefix_cons.mpr ⟨rfl, hearlier⟩) e ?_
    rw [hnext]
    exact he
  · rintro ⟨hshort, hdir, hrest⟩
    refine ⟨?_, ?_⟩
    · intro other hother
      rcases List.mem_cons.mp hother with rfl | hother
      · exact hshort
      · exact hrest.1 other hother
    · intro earlier hearlier e he
      rcases List.prefix_cons_iff.mp hearlier with rfl | ⟨tail, rfl, htail⟩
      · cases he
        exact hdir
      · rw [hnext] at he
        exact hrest.2 tail htail e he

theorem RouteFits.follows {files : Table} (hfiles : TreeInvariant files) {start dir : Slot}
    {before : List (List UInt8)} (hfits : RouteFits files start before)
    (h : walk files start before = .found dir) :
    Follows files start (significant before) dir := by
  induction before generalizing start with
  | nil =>
      cases h
      exact Follows.here dir
  | cons piece rest ih =>
      have hstart := hfits.2 [] List.nil_prefix start rfl
      obtain ⟨next, hnext, hfollows, _⟩ := walk_piece hfiles hstart h
      obtain ⟨hshort, _, hrest⟩ := (routeFits_cons hnext).mp hfits
      have hdir := hrest.2 [] List.nil_prefix next rfl
      rw [hnext] at h
      have hall := (hfollows ⟨hshort, hdir⟩).append (ih hrest h)
      rw [← significant_append] at hall
      exact hall

/-- Components that name a directory are the route of the resolver, and it fits. -/
theorem Follows.routeFits {files : Table} (hfiles : TreeInvariant files) {start dir last : Slot}
    (hstart : IsDirectory (files start)) {before : List (List UInt8)}
    (hfollows : Follows files start (significant before) last)
    (h : walk files start before = .found dir) : RouteFits files start before ∧ last = dir := by
  induction before generalizing start with
  | nil =>
      cases h
      cases hfollows
      refine ⟨⟨fun _ hmem => absurd hmem List.not_mem_nil, ?_⟩, rfl⟩
      intro earlier hearlier e he
      rw [List.prefix_nil.mp hearlier] at he
      cases he
      exact hstart
  | cons piece rest ih =>
      obtain ⟨next, hnext, _, hpiece⟩ := walk_piece hfiles hstart h
      rw [← List.singleton_append, significant_append] at hfollows
      obtain ⟨middle, hfirst, hsecond⟩ := follows_append hfollows
      obtain ⟨hshort, hdir, rfl⟩ := hpiece middle hfirst
      rw [hnext] at h
      obtain ⟨hrest, hlast⟩ := ih hdir hsecond h
      exact ⟨(routeFits_cons hnext).mpr ⟨hshort, hstart, hrest⟩, hlast⟩

/-! ## Creating -/

theorem createEntry_of_missing {files : Table} {name : List UInt8} {parent : ℤ}
    (hname : name ≠ []) (hfind : findInDir files parent name = none) (type : FsType)
    (flags : UInt8) (now : UInt32) :
    createEntry files name type parent flags now =
      match findFreeSlot files with
      | none => (files, none)
      | some idx =>
          (update files idx (newEntry name type parent flags now), some idx) := by
  unfold createEntry
  rw [if_neg hname]
  exact if_neg (not_not.mpr hfind)

theorem cString_newEntry_name {name : List UInt8} (hnul : 0 ∉ name) (type : FsType)
    (parent : ℤ) (flags : UInt8) (now : UInt32) :
    cString (newEntry name type parent flags now).name = name.take (maxFilename - 1) :=
  cString_strncpy terminated_zero hnul

theorem parentOf_newEntry {files : Table} {idx dir : Slot} (name : List UInt8) (type : FsType)
    (flags : UInt8) (now : UInt32) :
    parentOf (update files idx (newEntry name type dir.val flags now)) idx = dir := by
  rw [parentOf_update, update_self]
  change slotAt (clampDir (dir.val : ℤ)) = dir
  rw [clampDir_natCast, slotAt_natCast]

theorem isDirectory_startDir {files : Table} (hfiles : TreeInvariant files) {cwd : Slot}
    (hcwd : IsDirectory (files cwd)) (path : List UInt8) :
    IsDirectory (files (startDir cwd path)) := by
  unfold startDir
  split
  · exact hfiles.root_directory
  · exact hcwd

namespace FirstMissing

variable {files : Table} {start dir : Slot} {pieces before after : List (List UInt8)}
  {piece : List UInt8}

theorem significant_eq (h : FirstMissing files start pieces before piece after dir) :
    significant pieces = significant before ++ piece :: significant after := by
  rw [h.pieces_eq, significant_append,
    significant_cons_of_ne h.looked_up.1 h.looked_up.2.1]

theorem name_ne (h : FirstMissing files start pieces before piece after dir)
    (hfiles : TreeInvariant files) (hshort : piece.length < maxFilename) {slot : Slot}
    (hroot : slot ≠ rootSlot) (hused : (files slot).inUse = true)
    (hparent : parentOf files slot = dir) : cString (files slot).name ≠ piece := by
  intro hname
  have hmissing := h.missing
  rw [List.take_of_length_le (Nat.le_sub_one_of_lt hshort),
    (findInDir_eq_some_iff hfiles hshort).mpr ⟨hroot, hused, hparent, hname⟩] at hmissing
  cases hmissing

theorem fits_of_namesNewNode (h : FirstMissing files start pieces before piece after dir)
    (hfiles : TreeInvariant files) (hstart : IsDirectory (files start))
    (hnames : NamesNewNode files start (significant pieces)) :
    RouteFits files start before ∧ significant after = [] := by
  obtain ⟨front, leaf, last, hsplit, _, hfollows, _⟩ := hnames
  rw [h.significant_eq] at hsplit
  rcases List.eq_nil_or_concat (significant after) with hnil | ⟨more, final, hmore⟩
  · rw [hnil] at hsplit
    obtain ⟨rfl, _⟩ := List.append_inj' hsplit rfl
    exact ⟨(hfollows.routeFits hfiles hstart h.reaches).1, hnil⟩
  · rw [hmore, List.concat_eq_append, ← List.cons_append, ← List.append_assoc] at hsplit
    obtain ⟨rfl, _⟩ := List.append_inj' hsplit rfl
    obtain ⟨middle, hbefore, hpiece⟩ := follows_append hfollows
    obtain ⟨_, rfl⟩ := hbefore.routeFits hfiles hstart h.reaches
    cases hpiece with
    | up => exact absurd rfl h.looked_up.2.2
    | down _ hroot hnext hparent hname _ =>
        have hshort : piece.length < maxFilename :=
          hname ▸ length_cString_lt (hfiles.name_terminated _ hnext.inUse)
        exact absurd hname (h.name_ne hfiles hshort hroot hnext.inUse hparent)

theorem short_of_isPath (h : FirstMissing files start pieces before piece after dir)
    (hafter : significant after = []) {final : Table} {idx : Slot}
    {base : List (List UInt8)} (hpath : IsPath final idx (normalise base (significant pieces)))
    (hname : cString (final idx).name = piece.take (maxFilename - 1)) :
    piece.length < maxFilename := by
  rw [h.significant_eq, hafter, normalise_append, normalise_leaf _ h.looked_up.2.2] at hpath
  generalize hall : normalise base (significant before) ++ [piece] = all at hpath
  cases hpath with
  | root => exact absurd hall (List.append_ne_nil_of_right_ne_nil _ (List.cons_ne_nil _ _))
  | child =>
      have hpiece := List.singleton_injective (List.append_inj' hall rfl).2
      have hlen := congrArg List.length (hpiece.trans hname)
      rw [List.length_take] at hlen
      unfold maxFilename at *
      omega

theorem createsNode (h : FirstMissing files start pieces before piece after dir)
    (hfiles : TreeInvariant files) (hstart : IsDirectory (files start)) (hnul : 0 ∉ piece)
    (hroute : RouteFits files start before) (hshort : piece.length < maxFilename)
    (hafter : significant after = []) {idx : Slot} (hidx : findFreeSlot files = some idx)
    (type : FsType) (flags : UInt8) (now : UInt32) :
    NamesNewNode files start (significant pieces) ∧
      CreatesNode files (update files idx (newEntry piece type dir.val flags now)) start
        (significant pieces) idx := by
  have hcomps : significant pieces = significant before ++ [piece] := by
    rw [h.significant_eq, hafter]
  have hfollows := hroute.follows hfiles h.reaches
  obtain ⟨hroot, hfree⟩ := findFreeSlot_eq_some hidx
  refine ⟨⟨significant before, piece, dir, hcomps, h.looked_up.2.2, hfollows, ?_⟩,
    hfree, ?_, fun slot hslot => update_of_ne hslot _ _, ?_⟩
  · exact fun slot hslot hused hparent => h.name_ne hfiles hshort hslot hused hparent
  · rw [update_self]
    rfl
  · obtain ⟨base, hbase⟩ := hfiles.exists_isPath hstart.inUse
    refine ⟨base, hbase, ?_⟩
    have hup := (hfollows.isPath hfiles hbase).update_free hfree
      (newEntry piece type dir.val flags now)
    rw [hcomps, normalise_append, normalise_leaf _ h.looked_up.2.2]
    have hname := cString_newEntry_name hnul type dir.val flags now
    rw [List.take_of_length_le (Nat.le_sub_one_of_lt hshort)] at hname
    have hentry : update files idx (newEntry piece type dir.val flags now) idx =
        newEntry piece type dir.val flags now := update_self ..
    have hchild := hup.name_below hroot (congrArg FileNode.inUse hentry)
      (parentOf_newEntry piece type flags now)
    rw [hentry, hname] at hchild
    exact hchild

end FirstMissing

variable {path : CString}

/-- A missing leaf is created as its path says exactly where the path fits. -/
theorem createsRight_createEntry_iff {files : Table} (hfiles : TreeInvariant files) {cwd dir : Slot}
    (hcwd : IsDirectory (files cwd))
    (hwalk : walk files (startDir cwd path.bytes) (components path.bytes) = .missing dir leaf)
    (type : FsType) (flags : UInt8) (now : UInt32) :
    CreatesRight files cwd path
        ((createEntry files leaf type dir.val flags now).1,
          indexOrFail (createEntry files leaf type dir.val flags now).2) ↔
      CreationFits files (startDir cwd path.bytes) (components path.bytes) := by
  have hstart := isDirectory_startDir hfiles hcwd path.bytes
  obtain ⟨hleaf, _, hfind, _⟩ := walk_missing hwalk
  have hnul : ∀ piece ∈ components path.bytes, 0 ∉ piece :=
    fun piece hpiece hzero => path.noNul (mem_of_mem_components hpiece hzero)
  rw [createEntry_of_missing hleaf hfind]
  cases hfree : findFreeSlot files with
  | none =>
      refine iff_of_true (Or.inr ⟨Int.negSucc_lt_zero 0, rfl⟩) ?_
      exact fun _ _ _ _ _ _ hsome => absurd hfree hsome
  | some idx =>
      dsimp only [indexOrFail]
      constructor
      · rintro (⟨_, hidx, hnames, hnode⟩ | ⟨hneg, _⟩)
        · rw [Nat.cast_inj, Fin.val_inj] at hidx
          subst hidx
          intro before piece after other hfirst hlen _
          have hmissing := (hfirst.walk_eq hlen).symm.trans hwalk
          injection hmissing with _ hpiece
          obtain ⟨hroute, hafter⟩ := hfirst.fits_of_namesNewNode hfiles hstart hnames
          obtain ⟨_, _, hpath⟩ := hnode.path
          refine ⟨hroute, hfirst.short_of_isPath hafter hpath ?_, hafter⟩
          have hzero : 0 ∉ leaf := by
            rw [← hpiece]
            intro hmem
            refine hnul piece ?_ (List.mem_of_mem_take hmem)
            rw [hfirst.pieces_eq]
            exact List.mem_append_right _ List.mem_cons_self
          change cString (update files idx _ idx).name = _
          rw [update_self, cString_newEntry_name hzero, ← hpiece, List.take_take,
            Nat.min_self]
        · exact absurd hneg (not_lt.mpr (Int.natCast_nonneg _))
      · intro hfits
        obtain ⟨before, piece, after, hfirst, hlen, rfl⟩ := exists_firstMissing hwalk
        obtain ⟨hroute, hshort, hafter⟩ := hfits before piece after dir hfirst hlen
          (by rw [hfree]; exact Option.some_ne_none idx)
        have hpiece : 0 ∉ piece := by
          refine hnul piece ?_
          rw [hfirst.pieces_eq]
          exact List.mem_append_right _ List.mem_cons_self
        rw [List.take_of_length_le (Nat.le_sub_one_of_lt hshort)]
        obtain ⟨hnames, hnode⟩ :=
          hfirst.createsNode hfiles hstart hpiece hroute hshort hafter hfree type flags now
        exact Or.inl ⟨idx, rfl, hnames, hnode⟩

theorem creationFits_of_walk {files : Table} {start : Slot} {pieces : List (List UInt8)}
    (h : ∀ dir leaf, walk files start pieces ≠ .missing dir leaf) :
    CreationFits files start pieces :=
  fun _ _ _ _ hfirst hlen _ => absurd (hfirst.walk_eq hlen) (h _ _)

theorem createsRight_refused (files : Table) (cwd : Slot) (path : CString) :
    CreatesRight files cwd path (files, -1) :=
  Or.inr ⟨Int.negSucc_lt_zero 0, rfl⟩

theorem resolve_of_missing {files : Table} {cwd dir : Slot}
    (hwalk : walk files (startDir cwd path.bytes) (components path.bytes) = .missing dir leaf) :
    fsResolveImpl files cwd path = none ∧ fsResolveParent files cwd path = some (dir, leaf) := by
  have hempty : path.bytes ≠ [] := by
    intro hempty
    rw [hempty, components, walk_skip (Or.inl rfl)] at hwalk
    cases hwalk
  constructor
  · rw [fsResolveImpl, if_neg hempty, hwalk]
  · rw [fsResolveParent, if_neg hempty, hwalk]

theorem leaf_eq_nil {files : Table} {cwd dir : Slot} (hnot : ∀ dir leaf,
      walk files (startDir cwd path.bytes) (components path.bytes) ≠ .missing dir leaf)
    (hparent : fsResolveParent files cwd path = some (dir, leaf)) : leaf = [] := by
  rw [fsResolveParent] at hparent
  split at hparent
  · cases hparent
  · cases hwalk : walk files (startDir cwd path.bytes) (components path.bytes) with
    | found node =>
        rw [hwalk] at hparent
        cases hparent
        rfl
    | noEntry =>
        rw [hwalk] at hparent
        cases hparent
    | missing dir' leaf' => exact absurd hwalk (hnot dir' leaf')

theorem creation_refused {files : Table} (caller : Caller) (hnot : ∀ dir leaf,
      walk files (startDir caller.cwd path.bytes) (components path.bytes) ≠ .missing dir leaf) :
    fsMkdir files caller path = (files, -1) ∧
      (fsResolveImpl files caller.cwd path = none → fsCreate files caller path = (files, -1)) := by
  rw [fsMkdir, fsCreate]
  cases hparent : fsResolveParent files caller.cwd path with
  | none =>
      refine ⟨rfl, fun hnone => ?_⟩
      rw [hnone]
  | some place =>
      have hleaf : place.2 = [] := leaf_eq_nil hnot hparent
      refine ⟨if_pos hleaf, fun hnone => ?_⟩
      rw [hnone]
      exact if_pos hleaf

/-- Both calls keep their promise about a path exactly where the path fits. -/
theorem creation_iff {files : Table} (hfiles : TreeInvariant files) (caller : Caller)
    (hcwd : IsDirectory (files caller.cwd)) (path : CString) :
    (CreatesRight files caller.cwd path (fsMkdir files caller path) ∧
      (fsResolveImpl files caller.cwd path = none →
        CreatesRight files caller.cwd path (fsCreate files caller path))) ↔
      CreationFits files (startDir caller.cwd path.bytes) (components path.bytes) := by
  by_cases hmissing : ∃ dir leaf,
      walk files (startDir caller.cwd path.bytes) (components path.bytes) = .missing dir leaf
  · obtain ⟨dir, leaf, hwalk⟩ := hmissing
    obtain ⟨hresolve, hparent⟩ := resolve_of_missing hwalk
    have hleaf := (walk_missing hwalk).1
    have hcreate := createsRight_createEntry_iff hfiles hcwd hwalk
    rw [fsMkdir, fsCreate, hresolve, hparent]
    dsimp only
    rw [if_neg hleaf, if_neg hleaf]
    constructor
    · exact fun hright => (hcreate .directory 0 caller.now).mp hright.1
    · exact fun hfits => ⟨(hcreate .directory 0 caller.now).mpr hfits,
        fun _ => (hcreate .file (executableFlag leaf) caller.now).mpr hfits⟩
  · have hnot : ∀ dir leaf,
        walk files (startDir caller.cwd path.bytes) (components path.bytes) ≠ .missing dir leaf :=
      fun dir leaf h => hmissing ⟨dir, leaf, h⟩
    obtain ⟨hmkdir, hcreate⟩ := creation_refused caller hnot
    refine iff_of_true ⟨?_, fun hnone => ?_⟩ (creationFits_of_walk hnot)
    · rw [hmkdir]
      exact createsRight_refused files caller.cwd path
    · rw [hcreate hnone]
      exact createsRight_refused files caller.cwd path

def abPath : CString := ⟨bytes "/a/b", by decide⟩

/-- `mkdir("/a/b")` without "/a" makes the directory "/a". -/
theorem not_createsRight_abPath :
    TreeInvariant initialTable ∧ IsDirectory (initialTable shell.cwd) ∧
      (fsMkdir initialTable shell abPath).2 = 1 ∧
      cString ((fsMkdir initialTable shell abPath).1 (plantSlot 0 (by decide))).name =
        bytes "a" ∧
      ¬ CreatesRight initialTable shell.cwd abPath (fsMkdir initialTable shell abPath) := by
  have hret : (fsMkdir initialTable shell abPath).2 = 1 := by decide +kernel
  refine ⟨treeInvariant_initialTable, ⟨by decide +kernel, by decide +kernel⟩, hret,
    by decide +kernel, ?_⟩
  rintro (⟨_, _, ⟨front, leaf, dir, hsplit, _, hfollows, _⟩, _⟩ | ⟨hneg, _⟩)
  · have hcomps : significant (components abPath.bytes) = [bytes "a"] ++ [bytes "b"] := by decide
    rw [hcomps] at hsplit
    obtain ⟨rfl, _⟩ := List.append_inj' hsplit rfl
    cases hfollows with
    | down _ hroot hnext _ _ _ =>
        have hused := hnext.inUse
        rw [initialTable, if_neg hroot] at hused
        cases hused
  · rw [hret] at hneg
    exact absurd hneg (by decide)

theorem creation_abPath :
    (CreatesRight initialTable shell.cwd abPath (fsMkdir initialTable shell abPath) ∧
      (fsResolveImpl initialTable shell.cwd abPath = none →
        CreatesRight initialTable shell.cwd abPath (fsCreate initialTable shell abPath))) ↔
      CreationFits initialTable (startDir shell.cwd abPath.bytes) (components abPath.bytes) :=
  creation_iff treeInvariant_initialTable shell ⟨by decide +kernel, by decide +kernel⟩ abPath

end EigenOS.Filesystem
