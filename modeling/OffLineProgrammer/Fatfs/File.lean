import OffLineProgrammer.Fatfs.Volume
import OffLineProgrammer.Lib.Loop

/-!
# Files that are read, from ff.c

`f_read` and `f_lseek` of a file that has been opened with `FA_READ` only. A file object
keeps its place in the chain of clusters and one sector of its data; both functions follow
the chain through the window of the volume.
-/

namespace OffLineProgrammer.Fatfs
set_option autoImplicit false
open OffLineProgrammer.Lib OffLineProgrammer.Storage

/-- `FIL`; `hosted` is whether `obj.fs` is not null, `read` the flag `FA_READ`. -/
structure FIL where
  hosted : Bool
  id : Nat
  sclust : Nat
  objsize : Nat
  read : Bool
  err : FRESULT
  fptr : Nat
  clust : Nat
  sect : Nat
  buf : List Byte

/-- `ld_clust` -/
def ldClust (fs : FATFS) (dir : List Byte) : Nat :=
  let cl := ldWord dir 26
  if fs.fsType = some .fat32 then cl + 65536 * ldWord dir 20 else cl

/-- The end of `f_open` for the directory entry it has found; `clust` is what the object held. -/
def fOpened (fs : FATFS) (dir : List Byte) (clust : Nat) : FIL where
  hosted := true
  id := fs.id
  sclust := ldClust fs dir
  objsize := ldDword dir 28
  read := true
  err := .ok
  fptr := 0
  clust := clust
  sect := 0
  buf := List.replicate 4096 0

/-- `validate` -/
def validate (fs : FATFS) (fp : FIL) : FRESULT :=
  if fp.hosted = true ∧ fs.fsType ≠ none ∧ fp.id = fs.id then .ok else .invalidObject

/-- The rest of `f_open` with `FA_READ` when the path has been followed: `found` is the entry,
or why there is none, and `fp` what the object held. -/
def fOpen (fs : FATFS) (found : Except FRESULT (List Byte)) (fp : FIL) : FRESULT × FIL :=
  match found with
  | .error res => (res, { fp with hosted := false })
  | .ok dir =>
    if (dir.getD 11 0).toNat &&& 0x10 ≠ 0 then (.noFile, { fp with hosted := false })
    else (.ok, fOpened fs dir fp.clust)

/-- `f_close` of a file that has not been written to. -/
def fClose (fs : FATFS) (fp : FIL) : FRESULT × FIL :=
  let res := validate fs fp
  (res, if res = .ok then { fp with hosted := false } else fp)

/-! ## Reading -/

/-- The variables of the loop of `f_read`: the volume, the object, the bytes that are
left, and those that have been delivered. -/
structure Reading where
  fs : FATFS
  fp : FIL
  btr : Nat
  out : List Byte

/-- `ABORT` -/
def Reading.abort (s : Reading) (res : FRESULT) : FRESULT × Reading := (res, { s with fp := { s.fp with err := res } })

/-- The bytes that are left in the buffered sector, or as many of them as are asked for. -/
def Reading.copy (s : Reading) : Reading :=
  let ofs := s.fp.fptr % s.fs.ssize
  let rcnt := min (s.fs.ssize - ofs) s.btr
  { s with
    fp := { s.fp with fptr := u32 (s.fp.fptr + rcnt) }
    btr := s.btr - rcnt
    out := s.out ++ (s.fp.buf.drop ofs).take rcnt }

/-- On the boundary of a cluster: the next one of the chain. -/
def Reading.follow (m : Mem) (s : Reading) : Reading ⊕ (FRESULT × Reading) :=
  let r := if s.fp.fptr = 0 then (s.fp.sclust, s.fs) else getFat m s.fp.clust s.fs
  let s := { s with fs := r.2 }
  if r.1 < 2 then .inr (s.abort .intErr)
  else if r.1 = 0xFFFFFFFF then .inr (s.abort .diskErr)
  else .inl { s with fp := { s.fp with clust := r.1 } }

/-- On the boundary of a sector: whole sectors are read to the caller's buffer, and the
last one, of which only a part is asked for, to that of the object. -/
def Reading.sector (m : Mem) (csect : Nat) (s : Reading) : Reading ⊕ (FRESULT × Reading) :=
  let sect := clst2sect s.fs.toVolume s.fp.clust
  if sect = 0 then .inr (s.abort .intErr)
  else
    let sect := u32 (sect + csect)
    let cc := s.btr / s.fs.ssize
    if 0 < cc then
      let cc := if s.fs.csize < csect + cc then s.fs.csize - csect else cc
      let rcnt := s.fs.ssize * cc
      .inl { s with
        fp := { s.fp with fptr := u32 (s.fp.fptr + rcnt) }
        btr := s.btr - rcnt
        out := s.out ++ diskRead m sect cc }
    else
      let buf := if s.fp.sect ≠ sect then diskRead m sect 1 else s.fp.buf
      .inl { s with fp := { s.fp with buf := buf, sect := sect } }.copy

/-- One round of the loop of `f_read`. -/
def fReadPass (m : Mem) (s : Reading) : Option (Reading ⊕ (FRESULT × Reading)) :=
  some <|
    if s.btr = 0 then .inr (.ok, s)
    else if s.fp.fptr % s.fs.ssize = 0 then
      let csect := s.fp.fptr / s.fs.ssize &&& (s.fs.csize - 1)
      match if csect = 0 then s.follow m else .inl s with
      | .inl s => s.sector m csect
      | .inr r => .inr r
    else .inl s.copy

/-- `f_read`: the result, the bytes in the caller's buffer, whose number is `*br`, the
volume and the object. -/
def fRead (m : Mem) (fs : FATFS) (fp : FIL) (btr : Nat) : Option (FRESULT × List Byte × FATFS × FIL) :=
  let res := validate fs fp
  if res ≠ .ok then some (res, [], fs, fp)
  else if fp.err ≠ .ok then some (fp.err, [], fs, fp)
  else if fp.read = false then some (.denied, [], fs, fp)
  else
    let remain := u32 (fp.objsize + 2 ^ 32 - fp.fptr)
    (Loop.exec (fReadPass m) (min btr remain + 1) ⟨fs, fp, min btr remain, []⟩).map fun r => (r.1, r.2.out, r.2.fs, r.2.fp)

/-! ## Seeking -/

/-- The variables of the loop of `f_lseek`. -/
structure Seeking where
  fs : FATFS
  fp : FIL
  ofs : Nat
  clst : Nat

/-- One round of the loop of `f_lseek`: it leaves with an error, or where the offset lies in
the cluster. -/
def fLseekPass (m : Mem) (s : Seeking) : Option (Seeking ⊕ (FRESULT × Seeking)) :=
  let bcs := s.fs.csize * s.fs.ssize
  some <|
    if bcs < s.ofs then
      let r := getFat m s.clst s.fs
      let s := { s with fs := r.2, fp := { s.fp with fptr := s.fp.fptr + bcs }, ofs := s.ofs - bcs, clst := r.1 }
      if r.1 = 0xFFFFFFFF then .inr (.diskErr, { s with fp := { s.fp with err := .diskErr } })
      else if r.1 ≤ 1 ∨ s.fs.nFatent ≤ r.1 then .inr (.intErr, { s with fp := { s.fp with err := .intErr } })
      else .inl { s with fp := { s.fp with clust := r.1 } }
    else .inr (.ok, s)

/-- Where `f_lseek` starts to follow the chain: from the current cluster, or from the first. -/
def fLseekStart (fs : FATFS) (fp : FIL) (ofs : Nat) : Seeking :=
  let bcs := fs.csize * fs.ssize
  if 0 < fp.fptr ∧ (fp.fptr - 1) / bcs ≤ (ofs - 1) / bcs then
    let fptr := (fp.fptr - 1) &&& (2 ^ 32 - 1 - (bcs - 1))
    ⟨fs, { fp with fptr := fptr }, ofs - fptr, fp.clust⟩
  else ⟨fs, { fp with fptr := 0, clust := fp.sclust }, ofs, fp.sclust⟩

/-- The end of `f_lseek`: the sector of the new place is buffered, unless the place is on a boundary. -/
def fLseekEnd (m : Mem) (nsect : Nat) (fs : FATFS) (fp : FIL) : FRESULT × FATFS × FIL :=
  (.ok, fs, if fp.fptr % fs.ssize ≠ 0 ∧ nsect ≠ fp.sect then { fp with buf := diskRead m nsect 1, sect := nsect } else fp)

/-- `f_lseek` of a file that is not written to. Where an entry has a size but no cluster
the source begins a chain; that is left out. -/
def fLseek (m : Mem) (fs : FATFS) (fp : FIL) (ofs : Nat) : Option (FRESULT × FATFS × FIL) :=
  let res := validate fs fp
  if res ≠ .ok then some (res, fs, fp)
  else if fp.err ≠ .ok then some (fp.err, fs, fp)
  else
    let ofs := min ofs fp.objsize
    if ofs = 0 then some (fLseekEnd m 0 fs { fp with fptr := 0 })
    else
      let s := fLseekStart fs fp ofs
      if s.clst = 0 then none
      else (Loop.exec (fLseekPass m) (s.ofs + 1) s).map fun r =>
        let s := r.2
        if r.1 ≠ .ok then (r.1, s.fs, s.fp)
        else
          let fp := { s.fp with fptr := s.fp.fptr + s.ofs }
          if s.ofs % s.fs.ssize = 0 then fLseekEnd m 0 s.fs fp
          else
            let nsect := clst2sect s.fs.toVolume s.clst
            if nsect = 0 then (.intErr, s.fs, { fp with err := .intErr })
            else fLseekEnd m (u32 (nsect + s.ofs / s.fs.ssize)) s.fs fp

end OffLineProgrammer.Fatfs
