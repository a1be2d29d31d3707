import EigenOS.Programs.UserPages

/-!
# The loader of executables

`elf_load` looks at all program headers before it maps anything, and then goes over them again.
Each run records the bytes of the image that are read, the additions of values of the image, and
the pages that are mapped.
-/

namespace EigenOS.Programs

open EigenOS.Paging

/-! ## Images -/

/-- What `data` points to.  Behind the `size` bytes of the image is other memory of the kernel. -/
structure Image where
  byte : Word → Byte
  size : Word

namespace Image

/-- A number of some bytes, with its lowest byte first. -/
def number (image : Image) (offset : Word) : ℕ → Word
  | 0 => 0#64
  | width + 1 =>
      (image.byte offset).setWidth 64 ||| number image (offset + 1#64) width <<< 8

/-! The fields of `elf64_header_t` that are read. -/

def magic (image : Image) : Word := image.number 0#64 4
def elfClass (image : Image) : Word := image.number 4#64 1
def eType (image : Image) : Word := image.number 16#64 2
def eMachine (image : Image) : Word := image.number 18#64 2
def eEntry (image : Image) : Word := image.number 24#64 8
def ePhoff (image : Image) : Word := image.number 32#64 8
def ePhentsize (image : Image) : Word := image.number 54#64 2
def ePhnum (image : Image) : Word := image.number 56#64 2

/-- `sizeof(elf64_header_t)`. -/
def headerSize : Word := 64#64

/-- `sizeof(elf64_phdr_t)`. -/
def phdrSize : Word := 56#64

/-- Where a program header starts. -/
def phdr (image : Image) (i : ℕ) : Word := image.ePhoff + BitVec.ofNat 64 i * phdrSize

/-! The fields of `elf64_phdr_t`. -/

def pType (image : Image) (i : ℕ) : Word := image.number (image.phdr i) 4
def pFlags (image : Image) (i : ℕ) : Word := image.number (image.phdr i + 4#64) 4
def pOffset (image : Image) (i : ℕ) : Word := image.number (image.phdr i + 8#64) 8
def pVaddr (image : Image) (i : ℕ) : Word := image.number (image.phdr i + 16#64) 8
def pFilesz (image : Image) (i : ℕ) : Word := image.number (image.phdr i + 32#64) 8
def pMemsz (image : Image) (i : ℕ) : Word := image.number (image.phdr i + 40#64) 8

end Image

def elfMagic : Word := 0x464C457F#64
def elfClass64 : Word := 2#64
def elfEtExec : Word := 2#64
def emX8664 : Word := 62#64
def ptLoad : Word := 1#64
def ptInterp : Word := 3#64

/-- The checks of the header, after the one of the size. -/
def Image.HeaderValid (image : Image) : Prop :=
  image.magic = elfMagic ∧ image.elfClass = elfClass64 ∧ image.eType = elfEtExec ∧
    image.eMachine = emX8664 ∧ image.ePhentsize = Image.phdrSize ∧ image.ePhnum ≠ 0#64 ∧
      image.ePhnum ≤ 1024#64

instance (image : Image) : Decidable image.HeaderValid :=
  inferInstanceAs (Decidable (_ ∧ _))

/-! ## Accesses -/

/-- What a run of the loader does with values of the image. -/
inductive Access where
  | read (base : Word) (offset count : ℕ)
  | sum (left right : Word)
  | map (virt : Word)
  deriving DecidableEq

/-- The ends of the user range. -/
def userBase : Word := 0x400000#64
def userTop : Word := 0x800000000000#64

/-- Bytes of the image, a sum that does not wrap around, a page of the user range. -/
def Access.Fine (image : Image) : Access → Prop
  | .read base offset count => base.toNat + offset + count ≤ image.size.toNat
  | .sum left right => left.toNat + right.toNat < 2 ^ 64
  | .map virt => userBase.toNat ≤ virt.toNat ∧ virt.toNat + 4096 ≤ userTop.toNat

/-! ## The first loop -/

def maxSegment : Word := 256#64 <<< 20
def maxTotal : Word := 512#64 <<< 20

/-- A round of the first loop; `none` is the return of an error. -/
def scanHeader (image : Image) (i : ℕ) (totalMemsz : Word) : List Access × Option Word :=
  let phchk := image.phdr i
  let log := [.sum image.ePhoff (BitVec.ofNat 64 i * Image.phdrSize), .read phchk 0 4]
  if image.pType i = ptInterp then (log, none)
  else if image.pType i = ptLoad then
    let log := log ++ [.read phchk 40 8]
    if maxSegment < image.pMemsz i then (log, none)
    else
      let log := log ++ [.sum totalMemsz (image.pMemsz i)]
      if maxTotal < totalMemsz + image.pMemsz i then (log, none)
      else (log, some (totalMemsz + image.pMemsz i))
  else (log, some totalMemsz)

/-- Rounds of the first loop from one on; `false` is the return of an error. -/
def scanHeaders (image : Image) : ℕ → ℕ → Word → List Access × Bool
  | 0, _, _ => ([], true)
  | count + 1, i, totalMemsz =>
      match scanHeader image i totalMemsz with
      | (log, none) => (log, false)
      | (log, some totalMemsz) =>
          let rest := scanHeaders image count (i + 1) totalMemsz
          (log ++ rest.1, rest.2)

/-! ## The second loop -/

/-- The pages of a segment, from `cur` on. -/
def mapPages (root : PhysPage) : ℕ → Word → PageTables → List Access × Outcome
  | 0, _, m => ([], .done m)
  | count + 1, cur, m =>
      match mapNewPage root cur m with
      | .done m =>
          let rest := mapPages root count (cur + 4096#64) m
          (.map cur :: .sum cur 4096#64 :: rest.1, rest.2)
      | .refused m => ([], .refused m)
      | .fault => ([.map cur], .fault)

/-- `zero_pages`, whose words are eight bytes each. -/
def zeroPages (root : PhysPage) (virt : Word) (n : Word) (m : PageTables) : Option PageTables :=
  storeBytes root virt (fun _ => 0#8) (4096 * n.toNat) m

namespace Image

/-- `vaddr`. -/
def first (image : Image) (i : ℕ) : Word := image.pVaddr i &&& ~~~0xFFF#64

/-- `vend`. -/
def last (image : Image) (i : ℕ) : Word :=
  (image.pVaddr i + image.pMemsz i + 0xFFF#64) &&& ~~~0xFFF#64

/-- How many pages the segment is on. -/
def pages (image : Image) (i : ℕ) : Word := (image.last i - image.first i) / 4096#64

/-- How much of a segment is in the file, by its header. -/
def wanted (image : Image) (i : ℕ) : Word :=
  if image.pMemsz i < image.pFilesz i then image.pMemsz i else image.pFilesz i

/-- How many bytes of a segment are copied. -/
def copied (image : Image) (i : ℕ) : Word :=
  if image.size < image.pOffset i + image.wanted i then
    if image.pOffset i < image.size then image.size - image.pOffset i else 0#64
  else image.wanted i

end Image

/-- The bytes of a segment that are in the file. -/
def copySegment (image : Image) (root : PhysPage) (i : ℕ) (m : PageTables) :
    Option PageTables :=
  storeBytes root (image.pVaddr i) (fun k => image.byte (image.pOffset i + BitVec.ofNat 64 k))
    (image.copied i).toNat m

/-- The part of a round that changes memory. -/
def fillSegment (image : Image) (root : PhysPage) (i : ℕ) (m : PageTables) :
    List Access × Outcome :=
  match mapPages root (image.pages i).toNat (image.first i) m with
  | (log, .done m) =>
      match zeroPages root (image.first i) (image.pages i) m with
      | none => (log, .fault)
      | some m =>
          let log := log ++ [.read (image.phdr i) 32 8, .read (image.phdr i) 8 8,
            .sum (image.pOffset i) (image.wanted i)]
          if image.copied i = 0#64 then (log, .done m)
          else
            (log ++ [.read (image.pOffset i) 0 (image.copied i).toNat],
              Outcome.ofOption (copySegment image root i m))
  | (log, outcome) => (log, outcome)

/-- A round of the second loop. -/
def loadSegment (image : Image) (root : PhysPage) (i : ℕ) (m : PageTables) :
    List Access × Outcome :=
  let phoff := image.phdr i
  let log := [.sum image.ePhoff (BitVec.ofNat 64 i * image.ePhentsize), .sum phoff Image.phdrSize]
  if image.size < phoff + Image.phdrSize then (log, .refused m)
  else
    let log := log ++ [.read phoff 0 4]
    if image.pType i ≠ ptLoad then (log, .done m)
    else
      let log := log ++ [.read phoff 16 8, .read phoff 40 8,
        .sum (image.pVaddr i) (image.pMemsz i), .sum (image.pVaddr i + image.pMemsz i) 0xFFF#64]
      if image.last i ≤ image.first i then (log, .done m)
      else if image.first i < userBase ∨ userTop < image.last i then (log, .refused m)
      else
        let rest := fillSegment image root i m
        (log ++ rest.1, rest.2)

/-- Rounds of the second loop from one on. -/
def loadSegments (image : Image) (root : PhysPage) : ℕ → ℕ → PageTables → List Access × Outcome
  | 0, _, m => ([], .done m)
  | count + 1, i, m =>
      match loadSegment image root i m with
      | (log, .done m) =>
          let rest := loadSegments image root count (i + 1) m
          (log ++ rest.1, rest.2)
      | (log, outcome) => (log, outcome)

/-- `elf_load` in the address space of a root table.  The entry point of an image that is loaded
is `eEntry`. -/
def elfLoad (image : Image) (root : PhysPage) (m : PageTables) : List Access × Outcome :=
  if image.size < Image.headerSize then ([], .refused m)
  else
    let log := [.read 0#64 0 Image.headerSize.toNat]
    if ¬ image.HeaderValid then (log, .refused m)
    else
      match scanHeaders image image.ePhnum.toNat 0 0#64 with
      | (scan, false) => (log ++ scan, .refused m)
      | (scan, true) =>
          let rest := loadSegments image root image.ePhnum.toNat 0 m
          (log ++ scan ++ rest.1, rest.2)

end EigenOS.Programs
