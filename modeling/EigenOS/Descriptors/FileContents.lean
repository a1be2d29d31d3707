import EigenOS.Descriptors.Readiness
import EigenOS.Descriptors.FileHandles
import EigenOS.Filesystem.OtherNodes

/-!
# What a file holds

One file under any calls: it is written, truncated and read through a descriptor, while calls
about other files come in between.  It holds what was written since the last truncate, and a
descriptor reads it piece by piece.
-/

namespace EigenOS.Descriptors

open EigenOS.Filesystem EigenOS.MachineInt EigenOS.Transition Function
open EigenOS.Posix (nodeSize)
open EigenOS.Tasking (FdType maxFds toFd)

/-! ## Contents -/

/-- A file whose first `size` bytes are the content. -/
structure HasContent (fp : FileNode) (content : List UInt8) : Prop where
  inUse : fp.inUse = true
  type_eq : fp.type = .file
  size_eq : fp.size = content.length
  size_le : fp.size ≤ intMax
  data_eq : (fp.data.getD []).take content.length = content

/-- The bytes `[offset, min (offset + count) size)` of a file. -/
def slice (content : List UInt8) (offset count : ℕ) : List UInt8 :=
  (content.drop offset).take count

theorem length_slice (content : List UInt8) (offset count : ℕ) :
    (slice content offset count).length = min count (content.length - offset) := by
  rw [slice, List.length_take, List.length_drop]

variable {content : List UInt8} {files : Table} {caller : Caller}

theorem HasContent.congr {fp after : FileNode} (h : HasContent fp content)
    (hsame : SameContent fp after) : HasContent after content := by
  refine ⟨hsame.inUse.trans h.inUse, hsame.type_eq.trans h.type_eq, hsame.size.trans h.size_eq,
    ?_, ?_⟩
  · rw [hsame.size]
    exact h.size_le
  · rw [hsame.data]
    exact h.data_eq

theorem fsReadAt_of_content {e : Slot} (h : HasContent (files e) content) (offset : ℕ) (count : ℤ) :
    fsReadAt files e.val count offset =
      if (content.length : ℤ) ≤ offset then (0, [])
      else
        (min count (content.length - offset), (((files e).data.getD []).drop offset).take
          (min count ((content.length : ℤ) - offset)).toNat) := by
  have hused : ¬ (files e).inUse = false := by
    rw [h.inUse]
    exact Bool.noConfusion
  unfold fsReadAt
  rw [if_neg (not_le.mpr e.isLt), slotAt_natCast]
  dsimp only
  rw [if_neg hused, h.size_eq, max_eq_left (Int.natCast_nonneg offset), Int.toNat_natCast]

theorem fsReadAt_eq {e : Slot} (h : HasContent (files e) content) (offset : ℕ) {count : ℤ}
    (hcount : 0 ≤ count) :
    fsReadAt files e.val count offset =
      (((slice content offset count.toNat).length : ℤ), slice content offset count.toNat) := by
  rw [fsReadAt_of_content h]
  by_cases hend : (content.length : ℤ) ≤ offset
  · rw [if_pos hend, slice, List.drop_eq_nil_of_le (by omega), List.take_nil]
    rfl
  · have hn : min count ((content.length : ℤ) - offset) =
        ((slice content offset count.toNat).length : ℤ) := by
      rw [length_slice]
      omega
    rw [if_neg hend, hn, Int.toNat_natCast]
    congr 1
    rw [length_slice]
    conv_rhs => rw [← h.data_eq]
    rw [slice, List.drop_take, List.take_take]

theorem fsReadAt_negative {e : Slot} (h : HasContent (files e) content) {offset : ℕ}
    (hoffset : offset < content.length) {count : ℤ} (hcount : count < 0) :
    fsReadAt files e.val count offset = (count, []) := by
  rw [fsReadAt_of_content h, if_neg (by omega), min_eq_left (by omega),
    Int.toNat_of_nonpos hcount.le, List.take_zero]

theorem hasContent_appendTo {e : Slot} (h : HasContent (files e) content) {grown : FileNode}
    (hused : grown.inUse = true) (htype : grown.type = .file)
    (hdata : (grown.data.getD []).take content.length = content) (now : UInt32) {buf : List UInt8}
    (hmax : (files e).size + buf.length ≤ intMax) :
    HasContent (appendTo files e grown now buf buf.length e) (content ++ buf) := by
  unfold appendTo
  rw [update_self]
  refine ⟨hused, htype, ?_, hmax, ?_⟩
  · dsimp only
    rw [List.length_append, h.size_eq, Nat.cast_add]
  · dsimp only [Option.getD_some]
    rw [h.size_eq, Int.toNat_natCast, Int.toNat_natCast, hdata, List.take_length,
      List.take_length]

/-- A write that returns failed with the table as it was, or appended to the content. -/
theorem fsWrite_content {e : Slot} {content buf : List UInt8} {reply : Reply}
    (h : HasContent (files e) content)
    (hreply : fsWrite files caller e.val buf buf.length = some reply) :
    reply = (files, -1) ∨ reply.2 = buf.length ∧
      (files e).size + buf.length ≤ (reply.1 e).capacity ∧
      HasContent (reply.1 e) (content ++ buf) := by
  have hhigh : (e.val : ℤ) < maxFiles := Int.ofNat_lt.mpr e.isLt
  rw [fsWrite_file (Int.natCast_nonneg _) hhigh (by rw [slotAt_natCast]; exact h.inUse)
    (by rw [slotAt_natCast]; exact h.type_eq), slotAt_natCast] at hreply
  split at hreply
  · cases hreply
  · rename_i hmax
    rw [not_lt] at hmax
    have hcapacity : ∀ grown : FileNode,
        (appendTo files e grown caller.now buf buf.length e).capacity = grown.capacity := by
      intro grown
      unfold appendTo
      rw [update_self]
      rfl
    by_cases hle : (files e).size + buf.length ≤ (files e).capacity
    · rw [fileEnsureCap_of_le hle] at hreply
      dsimp only at hreply
      cases hreply
      refine Or.inr ⟨rfl, ?_, hasContent_appendTo h h.inUse h.type_eq h.data_eq _ hmax⟩
      rw [hcapacity]
      exact hle
    · rw [not_le] at hle
      by_cases hreaches : CapReaches (baseCapacity (files e)) ((files e).size + buf.length)
      · obtain ⟨cap, hcap, hsome, hfail⟩ := fileEnsureCap_of_lt hle hreaches
        cases halloc : caller.allocated with
        | false =>
            rw [halloc, hfail] at hreply
            cases hreply
            exact Or.inl rfl
        | true =>
            rw [halloc, hsome] at hreply
            dsimp only at hreply
            cases hreply
            refine Or.inr ⟨rfl, ?_, hasContent_appendTo h ?_ ?_ ?_ _ hmax⟩
            · rw [hcapacity]
              exact hcap
            · exact h.inUse
            · exact h.type_eq
            · dsimp only [Option.getD_some]
              rw [h.size_eq, Int.toNat_natCast, List.take_take, Nat.min_self]
              exact h.data_eq
      · rw [fileEnsureCap_eq_none hle hreaches] at hreply
        cases hreply

theorem exists_fsWrite_iff {e : Slot} (h : HasContent (files e) content) (buf : List UInt8) :
    (∃ reply, fsWrite files caller e.val buf buf.length = some reply) ↔
      GrowthFits files e.val buf.length caller.allocated := by
  rw [← writesInside_iff files caller e.val buf buf.length]
  constructor
  · rintro ⟨reply, hreply⟩
    refine ⟨reply, hreply, ?_⟩
    rcases fsWrite_content h hreply with rfl | ⟨hret, hcap, _⟩
    · exact Or.inl ⟨rfl, rfl⟩
    · refine Or.inr ⟨hret, ?_, ?_⟩
      · rw [slotAt_natCast, h.size_eq]
        exact Int.natCast_nonneg _
      · rw [slotAt_natCast]
        exact hcap
  · rintro ⟨reply, hreply, _⟩
    exact ⟨reply, hreply⟩

theorem fsTruncate_content {path : CString} {e : Slot} (h : HasContent (files e) content)
    (he : fsResolveImpl files caller.cwd path = some e) :
    (fsTruncate files caller path).2 = 0 ∧ HasContent ((fsTruncate files caller path).1 e) [] := by
  unfold fsTruncate
  rw [he]
  dsimp only
  rw [if_neg (not_not.mpr h.type_eq)]
  refine ⟨rfl, ?_⟩
  dsimp only
  rw [update_self]
  have hmax : (0 : ℤ) ≤ intMax := by decide
  exact ⟨h.inUse, h.type_eq, rfl, hmax, rfl⟩

/-! ## The calls on the file -/

/-- The node table, the descriptors, and what the file should hold. -/
structure FileRun where
  io : Io
  homeDir : ℤ
  trashDir : ℤ
  content : List UInt8

def FileRun.fs (s : FileRun) : FileSystem := ⟨s.io.files, s.homeDir, s.trashDir⟩

def FileRun.setFiles (s : FileRun) (files : Table) : FileRun :=
  { s with io := { s.io with files := files } }

/-- A call.  `other` is any call of the filesystem that is about other nodes. -/
inductive FileCall where
  | write (caller : Caller) (buf : List UInt8)
  | truncate (caller : Caller) (path : CString)
  | other (caller : Caller) (call : FsCall)
  | read (count : UInt32)
  | lseek (offset : UInt32) (whence : ℤ)

variable {s : FileRun}

section Run

variable (vfs : Vfs) (e : Slot) (f : Fin maxFds)

/-- Counts are at most 2^30, a truncate names the file, and other calls return and are about
other nodes. -/
def FileCall.Allowed (s : FileRun) : FileCall → Prop
  | .write _ buf => buf.length ≤ 2 ^ 30
  | .truncate caller path => fsResolveImpl s.io.files caller.cwd path = some e
  | .other caller call => ¬ IsAbout s.fs caller e call ∧ ∃ reply, call.run s.fs caller = some reply
  | .read _ | .lseek _ _ => True

/-- What a write leaves, if it returns: the content grows unless the write fails. -/
def FileRun.afterWrite (s : FileRun) (buf : List UInt8) : Option Reply → FileRun
  | none => s
  | some (files, n) =>
      { s.setFiles files with content := if n < 0 then s.content else s.content ++ buf }

def FileRun.afterOther (s : FileRun) : Option Reply → FileRun
  | none => s
  | some (files, _) => s.setFiles files

def FileRun.afterRead (s : FileRun) : Option Transfer → FileRun
  | none => s
  | some transfer => { s with io := transfer.io }

def FileRun.act (s : FileRun) : FileCall → FileRun
  | .write caller buf => s.afterWrite buf (fsWrite s.io.files caller e.val buf buf.length)
  | .truncate caller path =>
      { s.setFiles (fsTruncate s.io.files caller path).1 with content := [] }
  | .other caller call => s.afterOther (call.run s.fs caller)
  | .read count => s.afterRead (sysRead vfs s.io f.val count.toNat)
  | .lseek offset whence =>
      { s with io := (sysLseek s.io f.val (toInt offset.toNat) whence).2 }

/-- The position of the descriptor. -/
def FileRun.position (s : FileRun) : ℕ := (s.io.fds f).offset

/-- Where `sys_lseek` counts from. -/
def FileRun.seekBase (s : FileRun) (whence : ℤ) : ℤ :=
  if whence = 1 then s.position f else if whence = 2 then s.content.length else 0

/-- The file holds the content, and `fs_read_at` yields any slice of it. -/
def FileRun.Holds (s : FileRun) : Prop :=
  HasContent (s.io.files e) s.content ∧ ∀ offset count : ℕ,
    fsReadAt s.io.files e.val count offset =
      (((slice s.content offset count).length : ℤ), slice s.content offset count)

/-- What a call should return: a read the slice at the position, which moves by its length, and
a seek the new position, unless it fails and leaves it. -/
def FileCall.RepliesRight (s : FileRun) : FileCall → Prop
  | .write caller buf => ∃ reply, fsWrite s.io.files caller e.val buf buf.length = some reply ∧
      (reply.2 = buf.length ∨ reply.2 = -1)
  | .truncate caller path => (fsTruncate s.io.files caller path).2 = 0
  | .other _ _ => True
  | .read count => ∃ transfer, sysRead vfs s.io f.val count.toNat = some transfer ∧
      transfer.bytes = slice s.content (s.position f) count.toNat ∧
      transfer.ret = transfer.bytes.length ∧
      (transfer.io.fds f).offset = s.position f + transfer.bytes.length
  | .lseek offset whence =>
      let reply := sysLseek s.io f.val (toInt offset.toNat) whence
      reply.1 = -1 ∧ (reply.2.fds f).offset = s.position f ∨
        reply.1 = s.seekBase f whence + toInt offset.toNat ∧ reply.1 = (reply.2.fds f).offset

/-- The call replies as it should and leaves the file holding its content. -/
def CallRight (before : FileRun) (call : FileCall) (after : FileRun) : Prop :=
  call.RepliesRight vfs e f before ∧ after.Holds e

/-- A write finds its size and a capacity for it inside the `int`, and a read that is not at
the end asks for less than 2^31 bytes. -/
def CallFits (before : FileRun) : FileCall → FileRun → Prop
  | .write caller buf, _ => GrowthFits before.io.files e.val buf.length caller.allocated
  | .read count, _ => count.toNat < 2 ^ 31 ∨
      (before.io.files e).size ≤ (before.position f : ℤ)
  | _, _ => True

/-- The descriptor is open on the file, at a position that an `int` holds. -/
structure Opened (s : FileRun) : Prop where
  content : HasContent (s.io.files e) s.content
  flags : (s.io.fds f).flags = e.val + 1
  type_eq : (s.io.fds f).type = .vfs
  position : (s.position f : ℤ) ≤ intMax

/-! ## One call -/

variable {vfs e f}

theorem toFd_val (f : Fin maxFds) : toFd (f.val : ℤ) = some f := Tasking.toFd_eq_some.mpr rfl

theorem Opened.holds (h : Opened e f s) : s.Holds e :=
  ⟨h.content, fun offset count => by
    have hread := fsReadAt_eq h.content offset (Int.natCast_nonneg count)
    rw [Int.toNat_natCast] at hread
    exact hread⟩

theorem Opened.setFiles (h : Opened e f s) (hcontent : HasContent (files e) content) :
    Opened e f { s.setFiles files with content := content } :=
  ⟨hcontent, h.flags, h.type_eq, h.position⟩

theorem Opened.setOffset (h : Opened e f s) {offset : ℕ} (hoffset : (offset : ℤ) ≤ intMax) :
    Opened e f { s with io := s.io.setSlot f { s.io.fds f with offset := offset } } := by
  have hslot : (s.io.setSlot f { s.io.fds f with offset := offset }).fds f =
      { s.io.fds f with offset := offset } := update_self ..
  refine ⟨h.content, ?_, ?_, ?_⟩
  · exact (congrArg Tasking.FdSlot.flags hslot).trans h.flags
  · exact (congrArg Tasking.FdSlot.type hslot).trans h.type_eq
  · unfold FileRun.position
    rw [hslot]
    exact hoffset

theorem Opened.write (h : Opened e f s) (caller : Caller) (buf : List UInt8) :
    Opened e f (s.act vfs e f (.write caller buf)) ∧
      ((FileCall.write caller buf).RepliesRight vfs e f s ↔
        GrowthFits s.io.files e.val buf.length caller.allocated) := by
  rw [← exists_fsWrite_iff h.content buf]
  rw [FileRun.act, FileCall.RepliesRight]
  cases hwrite : fsWrite s.io.files caller e.val buf buf.length with
  | none =>
      refine ⟨h, ?_⟩
      constructor
      · rintro ⟨_, ⟨⟩, _⟩
      · rintro ⟨_, ⟨⟩⟩
  | some reply =>
      obtain ⟨files, n⟩ := reply
      rcases fsWrite_content h.content hwrite with hfail | ⟨hret, _, hcontent⟩
      · cases hfail
        exact ⟨h.setFiles h.content, iff_of_true ⟨_, rfl, Or.inr rfl⟩ ⟨_, rfl⟩⟩
      · dsimp only at hret hcontent ⊢
        subst hret
        refine ⟨?_, iff_of_true ⟨_, rfl, Or.inl rfl⟩ ⟨_, rfl⟩⟩
        rw [FileRun.afterWrite, if_neg (not_lt.mpr (Int.natCast_nonneg _))]
        exact h.setFiles hcontent

variable (vfs e f) in
theorem Opened.sysRead_eq (s : FileRun) (h : Opened e f s) (count : ℕ) :
    sysRead vfs s.io f.val count = some (
      let (n, bytes) := fsReadAt s.io.files e.val (toInt count) (s.position f : ℤ)
      if 0 < n then
        ⟨n, bytes, s.io.setSlot f
          { s.io.fds f with offset := ((s.io.fds f).offset + n.toNat) % 2 ^ 32 }⟩
      else ⟨n, bytes, s.io⟩) := by
  have hposition : toInt (s.io.fds f).offset = (s.position f : ℤ) := by
    have hle := h.position
    unfold FileRun.position intMax at *
    exact toInt_eq (by omega)
  have hpos : 0 < (s.io.fds f).flags := h.flags ▸ Nat.succ_pos _
  have hindex : (s.io.fds f).flags - 1 = e.val := by
    rw [h.flags, Nat.add_sub_cancel]
  rw [sysRead_file vfs s.io (toFd_val f) (Or.inr h.type_eq), fileRead]
  dsimp only
  rw [if_pos hpos, hindex, hposition]

theorem Opened.read (h : Opened e f s) (count : UInt32) :
    Opened e f (s.act vfs e f (.read count)) ∧
      ((FileCall.read count).RepliesRight vfs e f s ↔ (count.toNat < 2 ^ 31 ∨
        (s.io.files e).size ≤ (s.position f : ℤ))) := by
  have hread := Opened.sysRead_eq vfs e f s h count.toNat
  have hsize := h.content.size_eq
  have hbound := h.content.size_le
  rw [FileRun.act, FileCall.RepliesRight, hread]
  by_cases hcount : count.toNat < 2 ^ 31
  · rw [toInt_eq hcount, fsReadAt_eq h.content _ (Int.natCast_nonneg _), Int.toNat_natCast]
    dsimp only
    have hlen := length_slice s.content (s.position f) count.toNat
    split
    · rename_i hpos
      have hmod : ((s.io.fds f).offset + (slice s.content (s.position f) count.toNat).length) %
          2 ^ 32 = s.position f + (slice s.content (s.position f) count.toNat).length := by
        apply Nat.mod_eq_of_lt
        unfold FileRun.position intMax at *
        omega
      rw [Int.toNat_natCast, hmod]
      refine ⟨h.setOffset ?_, iff_of_true ⟨_, rfl, rfl, rfl, ?_⟩ (Or.inl hcount)⟩
      · omega
      · change (update s.io.fds f _ f).offset = _
        rw [update_self]
    · rename_i hzero
      refine ⟨h, iff_of_true ⟨_, rfl, rfl, rfl, ?_⟩ (Or.inl hcount)⟩
      change s.position f =
        s.position f + (slice s.content (s.position f) count.toNat).length
      omega
  · have hneg := toInt_neg (not_lt.mp hcount) count.toNat_lt
    by_cases hend : (s.io.files e).size ≤ (s.position f : ℤ)
    · have hempty : fsReadAt s.io.files e.val (toInt count.toNat) (s.position f : ℤ) =
          (0, []) := by
        rw [fsReadAt_of_content h.content, if_pos (h.content.size_eq ▸ hend)]
      have hnil : slice s.content (s.position f) count.toNat = [] := by
        rw [slice, List.drop_eq_nil_of_le (by omega), List.take_nil]
      rw [hempty, hnil]
      dsimp only
      rw [if_neg (lt_irrefl _)]
      exact ⟨h, iff_of_true ⟨_, rfl, rfl, rfl, rfl⟩ (Or.inr hend)⟩
    · rw [fsReadAt_negative h.content (by omega) hneg]
      dsimp only
      rw [if_neg (not_lt.mpr hneg.le)]
      refine ⟨h, iff_of_false ?_ (not_or.mpr ⟨hcount, hend⟩)⟩
      rintro ⟨transfer, htransfer, _, hret, _⟩
      rw [← Option.some.inj htransfer] at hret
      dsimp only [List.length_nil] at hret
      omega

variable (vfs e f) in
theorem Opened.lseek (s : FileRun) (h : Opened e f s) (offset : UInt32) (whence : ℤ) :
    Opened e f (s.act vfs e f (.lseek offset whence)) ∧
      (FileCall.lseek offset whence).RepliesRight vfs e f s := by
  have hposition := h.position
  have hsize := h.content.size_eq
  have hbound := h.content.size_le
  have hoffset := asInt_bounds (offset.toNat : ℤ)
  have hbase : (if whence = 1 then toInt (s.io.fds f).offset
      else if whence = 2 then nodeSize (s.io.files (slotAt ((s.io.fds f).flags - 1 : ℕ)))
      else 0) = s.seekBase f whence ∧ 0 ≤ s.seekBase f whence ∧
        s.seekBase f whence ≤ intMax := by
    unfold FileRun.seekBase FileRun.position intMax at *
    split
    · exact ⟨toInt_eq (by omega), Int.natCast_nonneg _, hposition⟩
    · split
      · rw [h.flags, Nat.add_sub_cancel, slotAt_natCast, nodeSize, if_pos h.content.inUse]
        exact ⟨hsize, Int.natCast_nonneg _, hsize ▸ hbound⟩
      · exact ⟨rfl, le_rfl, by decide⟩
  obtain ⟨heq, hlow, hhigh⟩ := hbase
  have hseek : sysLseek s.io f.val (toInt offset.toNat) whence =
      if Int.bmod (s.seekBase f whence + toInt offset.toNat) (2 ^ 32) < 0 then (-1, s.io)
      else (Int.bmod (s.seekBase f whence + toInt offset.toNat) (2 ^ 32),
        s.io.setSlot f { s.io.fds f with
          offset := (Int.bmod (s.seekBase f whence + toInt offset.toNat) (2 ^ 32)).toNat }) := by
    unfold sysLseek
    rw [toFd_val]
    dsimp only
    rw [if_neg (by rw [h.flags]; exact Nat.succ_ne_zero _), heq]
  have hslot : ∀ n : ℕ, (s.io.setSlot f { s.io.fds f with offset := n }).fds f =
      { s.io.fds f with offset := n } := fun n => update_self ..
  rw [FileRun.act, FileCall.RepliesRight, hseek]
  split
  · exact ⟨h, Or.inl ⟨rfl, rfl⟩⟩
  · rename_i hnonneg
    rw [not_lt] at hnonneg
    -- The sum wraps only when it passes the largest `int`, and then it comes out negative.
    have hsum : Int.bmod (s.seekBase f whence + toInt offset.toNat) (2 ^ 32) =
        s.seekBase f whence + toInt offset.toNat := by
      change asInt _ = _
      change 0 ≤ asInt _ at hnonneg
      change -2 ^ 31 ≤ toInt offset.toNat ∧ toInt offset.toNat < 2 ^ 31 at hoffset
      unfold intMax at hhigh
      by_cases hfits : s.seekBase f whence + toInt offset.toNat < 2 ^ 31
      · exact asInt_eq (by omega) hfits
      · rw [asInt_of_le (by omega) (by omega)] at hnonneg
        omega
    have hmax := (asInt_bounds (s.seekBase f whence + toInt offset.toNat)).2
    change Int.bmod (s.seekBase f whence + toInt offset.toNat) (2 ^ 32) < 2 ^ 31 at hmax
    refine ⟨h.setOffset ?_, Or.inr ⟨hsum, ?_⟩⟩
    · rw [Int.toNat_of_nonneg hnonneg]
      unfold intMax
      omega
    · rw [hslot]
      exact (Int.toNat_of_nonneg hnonneg).symm

variable (vfs) in
theorem Opened.truncate {s : FileRun} (h : Opened e f s) (caller : Caller) (path : CString)
    (he : fsResolveImpl s.io.files caller.cwd path = some e) :
    Opened e f (s.act vfs e f (.truncate caller path)) ∧
      (FileCall.truncate caller path).RepliesRight vfs e f s := by
  obtain ⟨hret, hcontent⟩ := fsTruncate_content h.content he
  exact ⟨h.setFiles hcontent, hret⟩

theorem Opened.other (h : Opened e f s) {call : FsCall} (hother : ¬ IsAbout s.fs caller e call)
    {reply : Reply} (hreply : call.run s.fs caller = some reply) :
    Opened e f (s.act vfs e f (.other caller call)) := by
  rw [FileRun.act, hreply]
  exact h.setFiles (h.content.congr
    (sameContent_of_not_isAbout h.content.inUse h.content.type_eq hother hreply))

/-- One allowed call keeps the file open on its content, and is right exactly when it fits. -/
theorem callRight_iff (h : Opened e f s) {call : FileCall} (hallowed : call.Allowed e s) :
    Opened e f (s.act vfs e f call) ∧
      (CallRight vfs e f s call (s.act vfs e f call) ↔
        CallFits e f s call (s.act vfs e f call)) := by
  have hboth : ∀ {call : FileCall} {fits : Prop}, Opened e f (s.act vfs e f call) ∧
      (call.RepliesRight vfs e f s ↔ fits) → Opened e f (s.act vfs e f call) ∧
        (CallRight vfs e f s call (s.act vfs e f call) ↔ fits) := by
    rintro call fits ⟨hopened, hiff⟩
    refine ⟨hopened, ?_⟩
    rw [CallRight, hiff]
    exact and_iff_left hopened.holds
  cases call with
  | write caller buf => exact hboth (h.write caller buf)
  | truncate caller path =>
      obtain ⟨hopened, hright⟩ := h.truncate vfs caller path hallowed
      exact hboth ⟨hopened, iff_of_true hright trivial⟩
  | other caller call =>
      obtain ⟨hother, reply, hreply⟩ := hallowed
      exact hboth ⟨h.other hother hreply, iff_of_true trivial trivial⟩
  | read count => exact hboth (h.read count)
  | lseek offset whence =>
      obtain ⟨hopened, hright⟩ := Opened.lseek vfs e f s h offset whence
      exact hboth ⟨hopened, iff_of_true hright trivial⟩

end Run

/-! ## Any calls -/

/-- In any run every call replies as it should and leaves the file holding what was written
since the last truncate, exactly when every call fits. -/
theorem contents_iff (vfs : Vfs) {e : Slot} {f : Fin maxFds} {start : FileRun}
    (hstart : Opened e f start) {run : List (FileCall × FileRun)}
    (hrun : Along (fun s call next => call.Allowed e s ∧ next = s.act vfs e f call) start run) :
    Along (CallRight vfs e f) start run ↔ Along (CallFits e f) start run := by
  apply along_iff_of_invariant (Opened e f) _ hstart hrun
  rintro s call _ hopened ⟨hallowed, rfl⟩
  exact callRight_iff hopened hallowed

/-- Descriptor 3 is open on the file of one byte. -/
def oneByteRun : FileRun where
  io := { bootIo with files := plant oneByte }.setSlot masterFd
    { Tasking.FdSlot.zero with flags := 2 }
  homeDir := 0
  trashDir := -1
  content := [1]

def oneByteSlot : Slot := plantSlot 0 (by decide)

theorem opened_oneByteRun : Opened oneByteSlot masterFd oneByteRun :=
  ⟨⟨by decide +kernel, by decide +kernel, by decide +kernel, by decide +kernel,
    by decide +kernel⟩, rfl, rfl, by decide +kernel⟩

/-- As many zeros as a file of one byte finds no capacity for. -/
def manyZeros : List UInt8 := List.replicate (2 ^ 30) 0

theorem length_manyZeros : manyZeros.length = 2 ^ 30 := List.length_replicate

/-- The write of 2^30 bytes behind the one that the file holds. -/
def manyZerosRun : List (FileCall × FileRun) :=
  trace (FileRun.act noVfs oneByteSlot masterFd) oneByteRun [.write shell manyZeros]

theorem allowed_manyZerosRun :
    Along (fun s call next => call.Allowed oneByteSlot s ∧
      next = s.act noVfs oneByteSlot masterFd call) oneByteRun manyZerosRun :=
  ⟨⟨length_manyZeros.le, rfl⟩, trivial⟩

/-- It never returns. -/
theorem not_callRight_manyZerosRun :
    Opened oneByteSlot masterFd oneByteRun ∧
      Along (fun s call next => call.Allowed oneByteSlot s ∧
        next = s.act noVfs oneByteSlot masterFd call) oneByteRun manyZerosRun ∧
      ¬ Along (CallRight noVfs oneByteSlot masterFd) oneByteRun manyZerosRun := by
  refine ⟨opened_oneByteRun, allowed_manyZerosRun, ?_⟩
  rintro ⟨⟨hreply, _⟩, _⟩
  have hfits := (opened_oneByteRun.write shell manyZeros).2.mp hreply
  rw [length_manyZeros] at hfits
  have hnone : fsWrite oneByteRun.io.files shell oneByteSlot.val [] (2 ^ 30 : ℕ) = none := by
    decide +kernel
  have hinside := (writesInside_iff _ _ _ [] _).mpr hfits
  rw [hnone] at hinside
  exact not_writesInside_none hinside

theorem contents_manyZerosRun :
    Along (CallRight noVfs oneByteSlot masterFd) oneByteRun manyZerosRun ↔
      Along (CallFits oneByteSlot masterFd) oneByteRun manyZerosRun :=
  contents_iff noVfs opened_oneByteRun allowed_manyZerosRun

end EigenOS.Descriptors
