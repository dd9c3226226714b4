import OffLineProgrammer.Flm.Spec
import OffLineProgrammer.Target.Session

/-!
# The RAM layout of a parsed file

`FLM_Prase` puts the algorithm at the start of RAM, the page buffer 400 bytes
behind it and the static data 0xC00 bytes behind it, whatever the sizes of the
algorithm and of a page in the file.
-/

namespace OffLineProgrammer.Flm
set_option autoImplicit false
open OffLineProgrammer.Lib OffLineProgrammer.Target

/-! ## The sizes in the file -/

section Sizes

variable (m : Media) (mem : Memory)

/-- The size of the algorithm with `irq_halt`, or what `algo_size` was before. -/
def algoBytes (target : ProgramTarget) : Nat :=
  (((lastHeader m mem (fileHeader m mem) IsAlgo).map fun a => pFilesz (phdrAt m mem (fileHeader m mem) a) + 32).getD target.algoSize).toNat

/-- The page size of the device, or what it was before. -/
def pageBytes (info : ChipInformation) : Nat :=
  (((lastHeader m mem (fileHeader m mem) IsDevice).map fun b => szPage (flmDevVar m mem (fileHeader m mem) (b + 1))).getD
    info.pageSize).toNat

end Sizes

/-! ## The areas -/

/-- The layout `FLM_Prase` gives an algorithm of `a` bytes and pages of `p` bytes. -/
structure Laid (t : ProgramTarget) (a p : Nat) : Prop where
  image : t.imageArea = ⟨ARM_ADDR_RAM_SRAET, a⟩
  buffer : t.bufferArea = ⟨ARM_ADDR_RAM_SRAET + BitVec.ofNat 32 400, p⟩
  area : t.staticArea = ⟨ARM_ADDR_RAM_SRAET + BitVec.ofNat 32 3072, 1024⟩

theorem staticArea_laid :
    (⟨ARM_ADDR_RAM_SRAET + 0xC00, (ARM_ADDR_RAM_SRAET + 0x1000 - (ARM_ADDR_RAM_SRAET + 0xC00)).toNat⟩ : Region) =
      ⟨ARM_ADDR_RAM_SRAET + BitVec.ofNat 32 3072, 1024⟩ :=
  congrArg₂ Region.mk (by decide) (by decide)

theorem flmPrase_laid {m : Media} {mem : Memory} {target : ProgramTarget} {info : ChipInformation}
    (accepted : (flmPrase m mem target info).ret = 0) :
    Laid (flmPrase m mem target info).target (algoBytes m mem target) (pageBytes m mem info) := by
  unfold flmPrase at accepted ⊢
  split at accepted
  · rename_i elf
    rw [if_pos elf]
    have algo := algoSize_last (assignments m mem) (target, info)
    have page := pageSize_last (assignments m mem) (target, info)
    rw [assignments_algo, programHeader_algo, Option.map_map] at algo
    rw [assignments_dev, programHeader_dev, Option.map_map] at page
    refine ⟨?_, ?_, staticArea_laid⟩
    · exact congrArg (fun w : Word => (⟨ARM_ADDR_RAM_SRAET, w.toNat⟩ : Region)) algo
    · exact congrArg (fun w : Word => (⟨ARM_ADDR_RAM_SRAET + 400, w.toNat⟩ : Region)) page
  · cases accepted

section Laid

variable {t : ProgramTarget} {a p : Nat}

theorem Laid.image_buffer (laid : Laid t a p) :
    t.imageArea.Apart t.bufferArea ↔ (a ≤ 400 ∨ p = 0) ∧ (a = 0 ∨ 400 + p ≤ 2 ^ 32) := by
  rw [laid.image, laid.buffer]
  exact Region.apart_iff (by decide) (by decide)

theorem Laid.image_area (laid : Laid t a p) : t.imageArea.Apart t.staticArea ↔ a ≤ 3072 := by
  have area := @Region.apart_iff ARM_ADDR_RAM_SRAET 3072 a 1024 (by decide) (by decide)
  rw [laid.image, laid.area, area]
  omega

theorem Laid.buffer_area (laid : Laid t a p) : t.bufferArea.Apart t.staticArea ↔ p ≤ 2672 := by
  have base : ARM_ADDR_RAM_SRAET + BitVec.ofNat 32 3072 =
      ARM_ADDR_RAM_SRAET + BitVec.ofNat 32 400 + BitVec.ofNat 32 2672 := by decide
  have area := @Region.apart_iff (ARM_ADDR_RAM_SRAET + BitVec.ofNat 32 400) 2672 p 1024 (by decide) (by decide)
  rw [laid.buffer, laid.area, base, area]
  omega

theorem Laid.intact_iff (laid : Laid t a p) :
    t.Intact ↔ a ≤ 3072 ∧ (a ≤ 400 ∨ p = 0) ∧ (a = 0 ∨ 400 + p ≤ 2 ^ 32) := by
  rw [Target.intact_iff, laid.image_buffer, laid.image_area]
  omega

/-- The sizes that fit into the layout. -/
def Fits (a p : Nat) : Prop := a ≤ 3072 ∧ p ≤ 2672 ∧ (a ≤ 400 ∨ p = 0)

instance (a p : Nat) : Decidable (Fits a p) := by unfold Fits; infer_instance

theorem Laid.fits_iff (laid : Laid t a p) : t.Intact ∧ t.AreasApart ↔ Fits a p := by
  rw [ProgramTarget.AreasApart, laid.intact_iff, laid.image_buffer, laid.image_area, laid.buffer_area, Fits]
  omega

end Laid

/-- **The layout keeps the algorithm intact**, in areas of its own, if and only if the
algorithm has at most 400 bytes (3072 where there are no pages) and a page at most 2672. -/
theorem layout_iff {m : Media} {mem : Memory} {target : ProgramTarget} {info : ChipInformation}
    (accepted : (flmPrase m mem target info).ret = 0) :
    ((flmPrase m mem target info).target.Intact ∧ (flmPrase m mem target info).target.AreasApart ↔
      Fits (algoBytes m mem target) (pageBytes m mem info)) ∧
    ((flmPrase m mem target info).target.Intact ↔ algoBytes m mem target ≤ 3072 ∧
      (algoBytes m mem target ≤ 400 ∨ pageBytes m mem info = 0) ∧
      (algoBytes m mem target = 0 ∨ 400 + pageBytes m mem info ≤ 2 ^ 32)) :=
  have laid := flmPrase_laid accepted
  ⟨laid.fits_iff, laid.intact_iff⟩

/-! ## Two files -/

/-- A file with an algorithm of `size` bytes and a device with pages of `page` bytes. -/
def flmFile (size page : Word) : List Byte :=
  elf32Ehdr 52 116 2 1 ++ elf32Phdr PT_LOAD 156 size pfXWR ++
    elf32Phdr PT_LOAD (156 + size) (BitVec.ofNat 32 sizeofFlmDev) PF_R ++ elf32Shdr 0 0 0 0 ++
    List.replicate size.toNat 0 ++ flmDev 0x10000 page page

/-- The parse of such a file by a programmer that has just started. -/
def parseFlm (size page : Word) : Parsed := flmPrase (Media.whole (flmFile size page)) zeroMemory flashAlgo noInformation

theorem layout_small : (parseFlm 64 1024).target.Intact ∧ (parseFlm 64 1024).target.AreasApart :=
  (layout_iff (by decide +kernel)).1.mpr (by decide +kernel)

/-- An algorithm of 404 bytes is overwritten by the first page. -/
theorem layout_large : (parseFlm 372 1024).ret = 0 ∧ ¬ (parseFlm 372 1024).target.Intact ∧
    ¬ (parseFlm 372 1024).target.AreasApart := by
  have accepted : (parseFlm 372 1024).ret = 0 := by decide +kernel
  have algo : algoBytes (Media.whole (flmFile 372 1024)) zeroMemory flashAlgo = 404 := by decide +kernel
  have page : pageBytes (Media.whole (flmFile 372 1024)) zeroMemory noInformation = 1024 := by decide +kernel
  have laid : Laid (parseFlm 372 1024).target _ _ := flmPrase_laid accepted
  rw [algo, page] at laid
  refine ⟨accepted, fun intact => ?_, fun apart => ?_⟩
  · have fits := laid.intact_iff.mp intact
    omega
  · have fits := laid.image_buffer.mp apart.1
    omega

end OffLineProgrammer.Flm
