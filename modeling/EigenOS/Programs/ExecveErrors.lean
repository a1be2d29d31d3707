import EigenOS.Filesystem.FileGrowth
import EigenOS.Programs.UserStrings
import EigenOS.Syscalls.ErrorReturns

/-!
# Errors of `sys_execve`

An error should leave the caller as it was.  The address space is changed before the image is
looked at, and nothing changes it back; and the limit on the size of a file is four times the size
of the buffer it is read to.
-/

namespace EigenOS.Programs

open EigenOS.Filesystem (Slot)
open EigenOS.Paging
open EigenOS.Posix (eigenErrInval eigenErrNoEnt eigenErrNoMem maxImage nodeSize stagingSize)

/-- The caller has its address space, with all mappings and contents, its registers, its name
and its descriptors. -/
structure SameForCaller (s s' : ExecState) : Prop where
  cr3 : s'.cr3 = s.cr3
  pml4Phys : s'.pml4Phys = s.pml4Phys
  mappings : ∀ addr, translation s'.memory s.cr3 addr = translation s.memory s.cr3 addr
  contents : userView s'.memory s.cr3 = userView s.memory s.cr3
  frame : s'.frame = s.frame
  name : s'.name = s.name
  fds : s'.sys.io.fds = s.sys.io.fds

/-- An error leaves the caller as it was, and what is copied is no more than the buffer holds. -/
def Harmless (s : ExecState) (path argv envp : Word) : Prop :=
  (∀ ret s', (sysExecve s path argv envp).2 = .returned ret s' → ret ≠ 0 → SameForCaller s s') ∧
    ((sysExecve s path argv envp).1 : ℤ) ≤ stagingSize

/-! ## How far a call gets -/

/-- The call opens a file for its caller, with a path of so many bytes. -/
def Opens (s : ExecState) (path : Word) (cur : Fin Tasking.maxTasks) (pl : ℕ) (idx : Slot) :
    Prop :=
  s.sys.kernel.current = some cur ∧ (s.sys.kernel.tasks cur).ring = .ring3 ∧ path ≠ 0#64 ∧
    ∃ text, cutText s.view 255 path = some text ∧ text ≠ [] ∧ pl = text.length ∧
      Filesystem.fsResolveImpl s.sys.io.files s.sys.cwd (pathString text) = some idx

/-- The file that is opened is copied to a buffer that is too small for it. -/
def Oversized (s : ExecState) (path : Word) : Prop :=
  ∃ cur pl idx, Opens s path cur pl idx ∧ (s.sys.io.files idx).data.isSome = true ∧
    stagingSize < nodeSize (s.sys.io.files idx) ∧ nodeSize (s.sys.io.files idx) ≤ maxImage

/-- A file with something in it, not more than is accepted. -/
def Readable (s : ExecState) (idx : Slot) : Prop :=
  0 < nodeSize (s.sys.io.files idx) ∧ nodeSize (s.sys.io.files idx) ≤ maxImage ∧
    ((s.sys.io.files idx).data.isSome = true → nodeSize (s.sys.io.files idx) ≤ stagingSize)

/-- What `fs_read_at` copies of a file. -/
def fileBytes (s : ExecState) (idx : Slot) : List UInt8 :=
  (Descriptors.fsReadAt s.sys.io.files idx.val (nodeSize (s.sys.io.files idx)) 0).2

def readImage (s : ExecState) (idx : Slot) : Image :=
  ⟨stagedFile s (fileBytes s idx), BitVec.ofInt 64 (nodeSize (s.sys.io.files idx))⟩

/-- The call gets to an image that the loader refuses. -/
def RefusedImage (s : ExecState) (path argv envp : Word) : Prop :=
  ∃ cur pl idx root m m', Opens s path cur pl idx ∧ Readable s idx ∧
    (countArguments s.view pl argv envp).isSome = true ∧
    vmmNewUserPml4 s.memory s.cr3 = (some root, m) ∧
      (elfLoad (readImage s idx) root m).2 = .refused m'

section Errors

variable {s s' : ExecState} {path argv envp : Word} {cur : Fin Tasking.maxTasks} {pl : ℕ}
  {idx : Slot} {ret : ℤ} {image : Image}

theorem SameForCaller.refl (s : ExecState) : SameForCaller s s :=
  ⟨rfl, rfl, fun _ => rfl, rfl, rfl, rfl, rfl⟩

theorem neg_errors_ne : -eigenErrInval ≠ 0 ∧ -eigenErrNoEnt ≠ 0 ∧ -eigenErrNoMem ≠ 0 := by decide

theorem started_eq_returned {started : Option ExecState} :
    ExecOutcome.started started = .returned ret s' ↔ ret = 0 ∧ started = some s' := by
  cases started with
  | none => exact ⟨nofun, fun h => (nomatch h.2)⟩
  | some s =>
      constructor
      · intro h
        obtain ⟨hret, hs⟩ := ExecOutcome.returned.inj h
        exact ⟨hret.symm, congrArg some hs⟩
      · rintro ⟨rfl, hs⟩
        exact congrArg (ExecOutcome.returned 0) (Option.some.inj hs)

theorem root_ne_of_new {m m' : PageTables} {active root : PhysPage} (h : WellFormed m active)
    (hnew : vmmNewUserPml4 m active = (some root, m')) : root ≠ active := by
  obtain ⟨rest, hsupply, _⟩ := vmmNewUserPml4_eq_some hnew
  rintro rfl
  exact h.fresh root (hsupply ▸ List.mem_cons_self) [] rfl

theorem memory_of_new {m m' : PageTables} {active : PhysPage}
    (hnew : vmmNewUserPml4 m active = (none, m')) : m' = m := by
  unfold vmmNewUserPml4 at hnew
  cases hsupply : m.supply with
  | nil =>
      rw [hsupply] at hnew
      exact (congrArg Prod.snd hnew).symm
  | cons page rest =>
      rw [hsupply] at hnew
      cases congrArg Prod.fst hnew

variable (s argv envp cur pl image) in
/-- The last part leaves the caller as it was unless an image is refused. -/
theorem execImage_same_iff (h : WellFormed s.memory s.cr3) :
    (∀ ret s', execImage s cur pl argv envp image = .returned ret s' → ret ≠ 0 →
        SameForCaller s s') ↔
      ¬ ((countArguments s.view pl argv envp).isSome = true ∧ ∃ root m m',
        vmmNewUserPml4 s.memory s.cr3 = (some root, m) ∧
          (elfLoad image root m).2 = .refused m') := by
  unfold execImage
  cases countArguments s.view pl argv envp with
  | none => exact iff_of_true (fun ret s' hret => nomatch hret) fun hboth => nomatch hboth.1
  | some counted =>
      obtain ⟨nargs, nenv, slen⟩ := counted
      dsimp only
      cases hnew : vmmNewUserPml4 s.memory s.cr3 with
      | mk fresh m =>
          cases fresh with
          | none =>
              refine iff_of_true (fun ret s' hret _ => ?_) ?_
              · have hs := (ExecOutcome.returned.inj hret).2
                rw [← hs, memory_of_new hnew]
                exact SameForCaller.refl s
              · rintro ⟨_, root, m, m', hroot, _⟩
                cases congrArg Prod.fst hroot
          | some root =>
              dsimp only
              cases helf : (elfLoad image root m).2 with
              | fault =>
                  refine iff_of_true (fun ret s' hret => nomatch hret) ?_
                  rintro ⟨_, root', m₁, m', hroot, hrefused⟩
                  cases hroot
                  cases helf.symm.trans hrefused
              | refused m' =>
                  refine iff_of_false (fun hall => ?_) ?_
                  · have hsame := hall _ _ rfl neg_errors_ne.2.1
                    exact root_ne_of_new h hnew hsame.cr3
                  · intro hnot
                    exact hnot ⟨rfl, root, m, m', rfl, helf⟩
              | done m' =>
                  refine iff_of_true (fun ret s' hret herror => ?_) ?_
                  · exact absurd (started_eq_returned.mp hret).1 herror
                  · rintro ⟨_, root', m₁, m₂, hroot, hrefused⟩
                    cases hroot
                    cases helf.symm.trans hrefused

theorem sameForCaller_staged (elfbuf : Word → Byte) :
    SameForCaller { s with elfbuf := elfbuf } s' ↔ SameForCaller s s' :=
  ⟨fun h => ⟨h.1, h.2, h.3, h.4, h.5, h.6, h.7⟩, fun h => ⟨h.1, h.2, h.3, h.4, h.5, h.6, h.7⟩⟩

theorem execFile_of_readable (h : Readable s idx) : execFile s cur pl argv envp idx =
    (copiedBytes (s.sys.io.files idx) (nodeSize (s.sys.io.files idx)),
      execImage { s with elfbuf := stagedFile s (fileBytes s idx) } cur pl argv envp
        (readImage s idx)) := by
  obtain ⟨hpos, hmax, hfits⟩ := h
  have hsize : ¬ (nodeSize (s.sys.io.files idx) ≤ 0 ∨ maxImage < nodeSize (s.sys.io.files idx)) := by
    omega
  have hwhole := Posix.fsReadAt_whole s.sys.io.files idx hpos
  have hcopied : ¬ stagingSize <
      copiedBytes (s.sys.io.files idx) (nodeSize (s.sys.io.files idx)) := by
    rw [copiedBytes]
    have hstaging : (0 : ℤ) ≤ stagingSize := by decide
    split_ifs with hdata
    · have := hfits hdata
      omega
    · exact not_lt.mpr hstaging
  unfold execFile
  dsimp only
  rw [if_neg hsize]
  simp only [hwhole]
  rw [if_neg hcopied, if_neg (not_not_intro rfl)]
  rfl

theorem execFile_of_large (hdata : (s.sys.io.files idx).data.isSome = true)
    (hlarge : stagingSize < nodeSize (s.sys.io.files idx))
    (hmax : nodeSize (s.sys.io.files idx) ≤ maxImage) :
    (execFile s cur pl argv envp idx).1 = (nodeSize (s.sys.io.files idx)).toNat := by
  have hpos : 0 < nodeSize (s.sys.io.files idx) :=
    lt_of_le_of_lt (by decide : (0 : ℤ) ≤ stagingSize) hlarge
  have hsize : ¬ (nodeSize (s.sys.io.files idx) ≤ 0 ∨ maxImage < nodeSize (s.sys.io.files idx)) := by
    omega
  have hwhole := Posix.fsReadAt_whole s.sys.io.files idx hpos
  unfold execFile
  dsimp only
  rw [if_neg hsize]
  have hover : stagingSize < ((nodeSize (s.sys.io.files idx)).toNat : ℤ) := by omega
  simp only [hwhole, copiedBytes, hdata, if_true]
  rw [if_pos hover]

theorem execFile_of_refused
    (h : nodeSize (s.sys.io.files idx) ≤ 0 ∨ maxImage < nodeSize (s.sys.io.files idx)) :
    execFile s cur pl argv envp idx = (0, .returned (-eigenErrNoMem) s) := if_pos h

theorem execFile_harmless_iff (h : WellFormed s.memory s.cr3) :
    ((∀ ret s', (execFile s cur pl argv envp idx).2 = .returned ret s' → ret ≠ 0 →
        SameForCaller s s') ∧ ((execFile s cur pl argv envp idx).1 : ℤ) ≤ stagingSize) ↔
      ¬ ((s.sys.io.files idx).data.isSome = true ∧
        stagingSize < nodeSize (s.sys.io.files idx) ∧ nodeSize (s.sys.io.files idx) ≤ maxImage) ∧
      ¬ (Readable s idx ∧ (countArguments s.view pl argv envp).isSome = true ∧ ∃ root m m',
        vmmNewUserPml4 s.memory s.cr3 = (some root, m) ∧
          (elfLoad (readImage s idx) root m).2 = .refused m') := by
  by_cases hrefused : nodeSize (s.sys.io.files idx) ≤ 0 ∨ maxImage < nodeSize (s.sys.io.files idx)
  · have hstaging : (0 : ℤ) ≤ stagingSize := by decide
    rw [execFile_of_refused hrefused]
    refine iff_of_true ⟨fun ret s' hret _ => ?_, hstaging⟩ ⟨?_, ?_⟩
    · rw [← (ExecOutcome.returned.inj hret).2]
      exact SameForCaller.refl s
    · rintro ⟨_, hlarge, hmax⟩
      omega
    · rintro ⟨⟨hpos, hmax, _⟩, _⟩
      omega
  · by_cases hlarge : (s.sys.io.files idx).data.isSome = true ∧
        stagingSize < nodeSize (s.sys.io.files idx)
    · have hmax : nodeSize (s.sys.io.files idx) ≤ maxImage := by omega
      refine iff_of_false (fun hboth => ?_) fun hboth => hboth.1 ⟨hlarge.1, hlarge.2, hmax⟩
      have hcopied := hboth.2
      rw [execFile_of_large hlarge.1 hlarge.2 hmax] at hcopied
      omega
    · have hfits : (s.sys.io.files idx).data.isSome = true →
          nodeSize (s.sys.io.files idx) ≤ stagingSize := by
        intro hdata
        by_contra hnot
        exact hlarge ⟨hdata, not_le.mp hnot⟩
      have hreadable : Readable s idx := ⟨by omega, by omega, hfits⟩
      have hcopied : (copiedBytes (s.sys.io.files idx) (nodeSize (s.sys.io.files idx)) : ℤ) ≤
          stagingSize := by
        have hstaging : (0 : ℤ) ≤ stagingSize := by decide
        rw [copiedBytes]
        split_ifs with hdata
        · have hsize := hfits hdata
          omega
        · exact hstaging
      have hsame := execImage_same_iff { s with elfbuf := stagedFile s (fileBytes s idx) } argv envp
        cur pl (readImage s idx) h
      simp only [sameForCaller_staged] at hsame
      rw [execFile_of_readable hreadable, and_iff_left hcopied]
      refine hsame.trans ?_
      constructor
      · exact fun hnot => ⟨fun hall => hlarge ⟨hall.1, hall.2.1⟩, fun hall => hnot hall.2⟩
      · exact fun hboth hcase => hboth.2 ⟨hreadable, hcase⟩

theorem sysExecve_of_opens (h : Opens s path cur pl idx) :
    sysExecve s path argv envp = execFile s cur pl argv envp idx := by
  obtain ⟨hcurrent, hring, hpath, text, htext, hne, rfl, hnode⟩ := h
  have hvalid : ¬ ((s.sys.kernel.tasks cur).ring ≠ .ring3 ∨ path = 0#64) := by
    rintro (hother | hnull)
    · exact hother hring
    · exact hpath hnull
  unfold sysExecve
  rw [hcurrent]
  dsimp only
  rw [if_neg hvalid, htext]
  cases text with
  | nil => exact absurd rfl hne
  | cons first rest =>
      dsimp only
      rw [hnode]

variable (s path argv envp) in
theorem sysExecve_of_not_opens (h : ∀ cur pl idx, ¬ Opens s path cur pl idx) :
    sysExecve s path argv envp = (0, .fault) ∨
      ∃ error, error ≠ 0 ∧ sysExecve s path argv envp = (0, .returned error s) := by
  unfold sysExecve
  cases hcurrent : s.sys.kernel.current with
  | none => exact Or.inr ⟨_, neg_errors_ne.1, rfl⟩
  | some cur =>
      dsimp only
      by_cases hinvalid : (s.sys.kernel.tasks cur).ring ≠ .ring3 ∨ path = 0#64
      · rw [if_pos hinvalid]
        exact Or.inr ⟨_, neg_errors_ne.1, rfl⟩
      · rw [if_neg hinvalid]
        cases htext : cutText s.view 255 path with
        | none => exact Or.inl rfl
        | some text =>
            cases text with
            | nil => exact Or.inr ⟨_, neg_errors_ne.1, rfl⟩
            | cons first rest =>
                dsimp only
                cases hnode : Filesystem.fsResolveImpl s.sys.io.files s.sys.cwd
                    (pathString (first :: rest)) with
                | none => exact Or.inr ⟨_, neg_errors_ne.2.1, rfl⟩
                | some idx =>
                    obtain ⟨hring, hpath⟩ := not_or.mp hinvalid
                    exact absurd ⟨hcurrent, not_not.mp hring, hpath, _, htext,
                      List.cons_ne_nil _ _, rfl, hnode⟩ (h cur _ idx)

theorem Opens.unique (h : Opens s path cur pl idx) {cur' : Fin Tasking.maxTasks} {pl' : ℕ}
    {idx' : Slot} (h' : Opens s path cur' pl' idx') : cur' = cur ∧ pl' = pl ∧ idx' = idx := by
  obtain ⟨hcurrent, _, _, text, htext, _, hpl, hnode⟩ := h
  obtain ⟨hcurrent', _, _, text', htext', _, hpl', hnode'⟩ := h'
  cases hcurrent.symm.trans hcurrent'
  cases htext.symm.trans htext'
  cases hnode.symm.trans hnode'
  exact ⟨rfl, hpl'.trans hpl.symm, rfl⟩

/-- Exactly the calls that read a file of no more than the staging buffer, with an image that is not
refused, do no harm when they fail. -/
theorem harmless_iff (h : WellFormed s.memory s.cr3) :
    Harmless s path argv envp ↔ ¬ Oversized s path ∧ ¬ RefusedImage s path argv envp := by
  by_cases hsome : ∃ cur pl idx, Opens s path cur pl idx
  · obtain ⟨cur, pl, idx, hopens⟩ := hsome
    rw [Harmless, sysExecve_of_opens hopens, execFile_harmless_iff h]
    apply and_congr
    · apply not_congr
      constructor
      · exact fun hlarge => ⟨cur, pl, idx, hopens, hlarge⟩
      · rintro ⟨cur', pl', idx', hopens', hlarge⟩
        obtain ⟨rfl, rfl, rfl⟩ := hopens.unique hopens'
        exact hlarge
    · apply not_congr
      constructor
      · rintro ⟨hreadable, hcounts, root, m, m', hnew, hload⟩
        exact ⟨cur, pl, idx, root, m, m', hopens, hreadable, hcounts, hnew, hload⟩
      · rintro ⟨cur', pl', idx', root, m, m', hopens', hreadable, hcounts, hnew, hload⟩
        obtain ⟨rfl, rfl, rfl⟩ := hopens.unique hopens'
        exact ⟨hreadable, hcounts, root, m, m', hnew, hload⟩
  · have hnone : ∀ cur pl idx, ¬ Opens s path cur pl idx :=
      fun cur pl idx hopens => hsome ⟨cur, pl, idx, hopens⟩
    have hstaging : (0 : ℤ) ≤ stagingSize := by decide
    have hcases := sysExecve_of_not_opens s path argv envp hnone
    refine iff_of_true ?_ ⟨?_, ?_⟩
    · rw [Harmless]
      rcases hcases with hfault | ⟨error, _, herror⟩
      · rw [hfault]
        exact ⟨fun ret s' hret => (nomatch hret), hstaging⟩
      · rw [herror]
        refine ⟨fun ret s' hret _ => ?_, hstaging⟩
        rw [← (ExecOutcome.returned.inj hret).2]
        exact SameForCaller.refl s
    · rintro ⟨cur, pl, idx, hopens, _⟩
      exact hnone cur pl idx hopens
    · rintro ⟨cur, pl, idx, _, _, _, hopens, _⟩
      exact hnone cur pl idx hopens

end Errors

/-! ## A file that is no executable -/

/-- `/f`, with a zero behind it. -/
def pathBytes (k : ℕ) : Byte := [0x2F#8, 0x66#8].getD k 0#8

/-- A program in whose memory there is a path, with a file of one byte at the path. -/
def oneByteCaller : ExecState where
  sys := { Posix.fullSystem with
    io := { Descriptors.bootIo with files := Filesystem.plant Filesystem.oneByte } }
  memory := pageWith 5 0x400000#64 pathBytes
  cr3 := frame 0
  pml4Phys := frame 0
  name := []
  userStackBase := userStackVaddr
  userStackTop := userStackEnd
  frame := startFrame 0#64 0#64
  elfbuf := fun _ => 0#8

theorem pathPage (count : ℕ) (hcount : count + 4 ≤ 2 ^ 38) :
    UserSpace (pageWith (count + 4) 0x400000#64 pathBytes) (frame 0) ∧
      count ≤ (pageWith (count + 4) 0x400000#64 pathBytes).supply.length ∧ ∀ k < 4096,
        userView (pageWith (count + 4) 0x400000#64 pathBytes) (frame 0)
          (0x400000#64 + BitVec.ofNat 64 k) = some (pathBytes k) := by
  have haligned : (0x400000#64 : Word).toNat % 4096 = 0 := by decide
  have hfits : (0x400000#64 : Word).toNat + 4096 ≤ 2 ^ 47 := by decide
  exact pageWith_spec hcount haligned hfits

theorem isText_pathPage (count : ℕ) (hcount : count + 4 ≤ 2 ^ 38) :
    InitialStack.IsText (loadByte (pageWith (count + 4) 0x400000#64 pathBytes) (frame 0))
      0x400000#64 [0x2F#8, 0x66#8] := by
  have hbytes : ∀ k < 3, loadByte (pageWith (count + 4) 0x400000#64 pathBytes) (frame 0)
      (0x400000#64 + BitVec.ofNat 64 k) = some (pathBytes k) := by
    intro k hk
    have huser : User (0x400000#64 + BitVec.ofNat 64 k) := by
      have hstart : (0x400000#64 : Word).toNat = 4194304 := rfl
      apply user_add
      omega
    rw [← userView_of_user huser]
    exact (pathPage _ hcount).2.2 k (by omega)
  refine ⟨fun k hk => ?_, by decide, hbytes 2 (by decide)⟩
  rw [List.length_cons, List.length_singleton] at hk
  rw [hbytes k (by omega), pathBytes, List.getD_eq_getElem?_getD, List.getElem?_eq_getElem hk]
  rfl

theorem memory_oneByteCaller : oneByteCaller.memory = pageWith 5 0x400000#64 pathBytes := by
  rw [oneByteCaller]

theorem cr3_oneByteCaller : oneByteCaller.cr3 = frame 0 := rfl

theorem opens_oneByteCaller : Opens oneByteCaller 0x400000#64 ⟨1, Tasking.one_lt_maxTasks⟩ 2
    (Filesystem.plantSlot 0 (by decide)) := by
  have htext : InitialStack.IsText oneByteCaller.view 0x400000#64 [0x2F#8, 0x66#8] := by
    rw [ExecState.view, memory_oneByteCaller, cr3_oneByteCaller]
    exact isText_pathPage 1 (by omega)
  refine ⟨rfl, rfl, by decide, _, cutText_of_isText htext (by decide), by decide, rfl, ?_⟩
  decide +kernel

theorem exists_newUserPml4 (m : PageTables) (active : PhysPage) (h : 0 < m.supply.length) :
    ∃ root m', vmmNewUserPml4 m active = (some root, m') := by
  unfold vmmNewUserPml4
  cases hsupply : m.supply with
  | nil =>
      rw [hsupply] at h
      exact absurd h (Nat.not_lt_zero _)
  | cons page rest => exact ⟨_, _, rfl⟩

theorem wellFormed_oneByteCaller : WellFormed oneByteCaller.memory oneByteCaller.cr3 := by
  rw [memory_oneByteCaller, cr3_oneByteCaller]
  exact (pathPage 1 (by omega)).1.wellFormed

theorem refused_oneByteCaller : ∃ root m, vmmNewUserPml4 oneByteCaller.memory oneByteCaller.cr3 =
    (some root, m) ∧
      (elfLoad (readImage oneByteCaller (Filesystem.plantSlot 0 (by decide))) root m).2 =
        .refused m := by
  have hframes : 0 < oneByteCaller.memory.supply.length := 
    memory_oneByteCaller ▸ (pathPage 1 (by omega)).2.1
  obtain ⟨root, m, hnew⟩ := exists_newUserPml4 oneByteCaller.memory oneByteCaller.cr3 hframes
  have hsize : (readImage oneByteCaller (Filesystem.plantSlot 0 (by decide))).size <
      Image.headerSize := by decide +kernel
  exact ⟨root, m, hnew, by rw [elfLoad, if_pos hsize]⟩

theorem readable_oneByteCaller : Readable oneByteCaller (Filesystem.plantSlot 0 (by decide)) :=
  ⟨by decide +kernel, by decide +kernel, fun _ => by decide +kernel⟩

theorem harmless_iff_oneByteCaller : Harmless oneByteCaller 0x400000#64 0#64 0#64 ↔
    ¬ Oversized oneByteCaller 0x400000#64 ∧
      ¬ RefusedImage oneByteCaller 0x400000#64 0#64 0#64 :=
  harmless_iff wellFormed_oneByteCaller

/-- The image of one byte is refused after the address space has been changed. -/
theorem not_harmless_oneByteCaller : ¬ Harmless oneByteCaller 0x400000#64 0#64 0#64 := by
  obtain ⟨root, m, hnew, hrefused⟩ := refused_oneByteCaller
  rw [Harmless, sysExecve_of_opens opens_oneByteCaller,
    execFile_harmless_iff wellFormed_oneByteCaller]
  exact fun h => h.2 ⟨readable_oneByteCaller, rfl, root, m, m, hnew, hrefused⟩

end EigenOS.Programs
