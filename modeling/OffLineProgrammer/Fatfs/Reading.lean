import OffLineProgrammer.Fatfs.Chains

/-!
# Reading

`f_read` delivers the content of the file from the object's place on, whatever sector the
object and the window hold, and leaves the object at the place after it.
-/

namespace OffLineProgrammer.Fatfs
set_option autoImplicit false
open OffLineProgrammer.Lib OffLineProgrammer.Storage

/-! ## Places -/

section Places

variable {c k j r x : Nat}

/-- Clusters are counted in sectors. -/
theorem cluster_sectors (c k : Nat) : c * 4096 * k = 4096 * (c * k) := by
  rw [Nat.mul_comm c, Nat.mul_assoc]

/-- A place in a file: the cluster, the sector of the cluster, and the byte of the sector. -/
theorem place_exists (positive : 0 < c) (fptr : Nat) : ∃ k j r, fptr = c * 4096 * k + 4096 * j + r ∧ j < c ∧ r < 4096 := by
  refine ⟨fptr / 4096 / c, fptr / 4096 % c, fptr % 4096, ?_, Nat.mod_lt _ positive, Nat.mod_lt _ (by omega)⟩
  have sectors := Nat.div_add_mod (fptr / 4096) c
  have scaled := cluster_sectors c (fptr / 4096 / c)
  omega

theorem place_mod (small : r < 4096) : (c * 4096 * k + 4096 * j + r) % 4096 = r := by
  have scaled := cluster_sectors c k
  omega

theorem place_sector (within : j < c) (small : r < 4096) : (c * 4096 * k + 4096 * j + r) / 4096 % c = j := by
  have scaled := cluster_sectors c k
  have sectors : (c * 4096 * k + 4096 * j + r) / 4096 = j + c * k := by omega
  rw [sectors, Nat.add_mul_mod_self_left, Nat.mod_eq_of_lt within]

theorem place_cluster (within : x < c * 4096) : (c * 4096 * k + x) / (c * 4096) = k := by
  rw [Nat.mul_add_div (by omega), Nat.div_eq_of_lt within, Nat.add_zero]

end Places

/-! ## What an object keeps -/

/-- A file that is open for reading, wherever its object is. -/
structure Opened (m : Mem) (vol : Volume) (start size : Nat) (fs : FATFS) (fp : FIL) : Prop where
  volume : fs.toVolume = vol
  coherent : fs.Coherent m
  hosted : fp.hosted = true
  id : fp.id = vol.id
  sclust : fp.sclust = start
  objsize : fp.objsize = size
  read : fp.read = true
  err : fp.err = .ok
  buf : fp.sect ≠ 0 → fp.buf = diskSector m fp.sect

/-- The object is at a place of the file: it knows the cluster of the byte before, and
within a sector it has the sector. -/
structure Placed (vol : Volume) (clusters : List Nat) (fp : FIL) : Prop where
  clust : 0 < fp.fptr → clusters[(fp.fptr - 1) / (vol.csize * 4096)]? = some fp.clust
  sect : fp.fptr % 4096 ≠ 0 → fp.sect = clst2sect vol fp.clust + fp.fptr / 4096 % vol.csize

/-- What every call finds and leaves behind. -/
structure Held (m : Mem) (vol : Volume) (start size : Nat) (clusters : List Nat) (fs : FATFS) (fp : FIL) : Prop
    extends Opened m vol start size fs fp, Placed vol clusters fp where
  inside : fp.fptr ≤ size

/-- `f_read` on its way from place `p`: `n` bytes are asked for. -/
structure Reading.Going (m : Mem) (vol : Volume) (start size : Nat) (clusters : List Nat) (p n : Nat) (s : Reading) : Prop
    extends Opened m vol start size s.fs s.fp where
  left : s.fp.fptr + s.btr = p + n
  begun : p ≤ s.fp.fptr
  within : p + n ≤ size
  out : s.out = ((content m vol clusters size).drop p).take (s.fp.fptr - p)

section Passes

variable {m : Mem} {vol : Volume} {start size p n k j r x c : Nat} {clusters : List Nat} {fp : FIL} {s : Reading}

theorem Volume.Sound.positive (sound : vol.Sound) : 0 < vol.csize := by
  obtain ⟨e, -, csize⟩ := sound.csize
  exact csize ▸ Nat.two_pow_pos e

theorem Volume.Sound.csect (sound : vol.Sound) (n : Nat) : n &&& (vol.csize - 1) = n % vol.csize := by
  obtain ⟨e, -, csize⟩ := sound.csize
  rw [csize, Nat.and_two_pow_sub_one_eq_mod]

/-- What has been delivered, and what comes next. -/
theorem slice_append {l : List Byte} {p q : Nat} (le : p ≤ q) (n : Nat) :
    (l.drop p).take (q - p) ++ (l.drop q).take n = (l.drop p).take (q + n - p) := by
  obtain ⟨d, rfl⟩ := Nat.le.dest le
  have first : p + d - p = d := by omega
  have all : p + d + n - p = d + n := by omega
  rw [first, all, List.take_add, List.drop_drop]

/-- A place right after a byte of the cluster. -/
theorem Placed.after (here : clusters[k]? = some fp.clust) (place : fp.fptr = vol.csize * 4096 * k + x) (some : 0 < x)
    (within : x ≤ vol.csize * 4096)
    (sect : fp.fptr % 4096 ≠ 0 → fp.sect = clst2sect vol fp.clust + fp.fptr / 4096 % vol.csize) : Placed vol clusters fp := by
  refine ⟨fun _ => ?_, sect⟩
  have before : fp.fptr - 1 = vol.csize * 4096 * k + (x - 1) := by omega
  rw [before, place_cluster (by omega), here]

/-- The cluster of a byte, from the place right after it. -/
theorem Placed.here (placed : Placed vol clusters fp) (place : fp.fptr = vol.csize * 4096 * k + x) (some : 0 < x)
    (within : x ≤ vol.csize * 4096) : clusters[k]? = Option.some fp.clust := by
  have before : fp.fptr - 1 = vol.csize * 4096 * k + (x - 1) := by omega
  have clust := placed.clust (by omega)
  rwa [before, place_cluster (by omega)] at clust

/-- **A sector is copied from the buffer**, the rest of it or as much as is asked for. -/
theorem Reading.copy_going (sound : vol.Sound) (file : Clusters m vol start size clusters)
    (going : s.Going m vol start size clusters p n) (more : 0 < s.btr)
    (here : clusters[k]? = some s.fp.clust) (place : s.fp.fptr = vol.csize * 4096 * k + 4096 * j + r) (sector : j < vol.csize)
    (byte : r < 4096) (sect : s.fp.sect = clst2sect vol s.fp.clust + j) :
    s.copy.Going m vol start size clusters p n ∧ Placed vol clusters s.copy.fp ∧ s.copy.btr < s.btr := by
  have ssize := sound.mountedSize going.volume
  have ofs : s.fp.fptr % 4096 = r := by
    rw [place, place_mod byte]
  have left := going.left
  have begun := going.begun
  have within := going.within
  have small := file.small
  have is := file.isCluster here
  obtain ⟨-, positive, -⟩ := clst2sect_cluster sound is
  obtain ⟨rcnt, count⟩ : ∃ rcnt, rcnt = min (4096 - r) s.btr := ⟨_, rfl⟩
  have fptr : u32 (s.fp.fptr + rcnt) = s.fp.fptr + rcnt := u32_of_lt (by omega)
  have step : s.copy = { s with
      fp := { s.fp with fptr := s.fp.fptr + rcnt }
      btr := s.btr - rcnt
      out := s.out ++ (s.fp.buf.drop r).take rcnt } := by
    simp only [Reading.copy, ssize, ofs, ← count, fptr]
  have part : (s.fp.buf.drop r).take rcnt = ((content m vol clusters size).drop s.fp.fptr).take rcnt := by
    rw [going.buf (by omega), sect, place, content_part sound is here sector (by omega) (by omega)]
  rw [step]
  refine ⟨⟨{ going.toOpened with }, ?_, ?_, within, ?_⟩, ?_, ?_⟩
  · change s.fp.fptr + rcnt + (s.btr - rcnt) = p + n
    omega
  · change p ≤ s.fp.fptr + rcnt
    omega
  · change s.out ++ (s.fp.buf.drop r).take rcnt = _
    rw [going.out, part, slice_append begun]
  · have room : 4096 * j + 4096 ≤ vol.csize * 4096 := by omega
    refine Placed.after (k := k) (x := 4096 * j + r + rcnt) here ?_ (by omega) (by omega) ?_
    · change s.fp.fptr + rcnt = _
      omega
    · intro inner
      change (s.fp.fptr + rcnt) % 4096 ≠ 0 at inner
      change s.fp.sect = clst2sect vol s.fp.clust + (s.fp.fptr + rcnt) / 4096 % vol.csize
      have short : r + rcnt < 4096 := by
        by_contra full
        have there : s.fp.fptr + rcnt = vol.csize * 4096 * k + 4096 * (j + 1) + 0 := by omega
        rw [there, place_mod (by omega)] at inner
        exact inner rfl
      have there : s.fp.fptr + rcnt = vol.csize * 4096 * k + 4096 * j + (r + rcnt) := by omega
      rw [there, place_sector sector short, sect]
  · change s.btr - rcnt < s.btr
    omega

/-- **The chain is followed** on the boundary of a cluster. -/
theorem Reading.follow_going (sound : vol.Sound) (file : Clusters m vol start size clusters)
    (going : s.Going m vol start size clusters p n) (placed : Placed vol clusters s.fp) (more : 0 < s.btr)
    (place : s.fp.fptr = vol.csize * 4096 * k) :
    ∃ s', s.follow m = .inl s' ∧ s'.Going m vol start size clusters p n ∧ clusters[k]? = some s'.fp.clust ∧
      s'.fp.fptr = s.fp.fptr ∧ s'.btr = s.btr := by
  have left := going.left
  have within := going.within
  have positive := sound.positive
  obtain ⟨-, many⟩ := sound.nFatent
  obtain ⟨c, here⟩ : ∃ c, clusters[s.fp.fptr / (vol.csize * 4096)]? = some c := file.has (by omega)
  have index : s.fp.fptr / (vol.csize * 4096) = k := by
    rw [place, Nat.mul_div_cancel_left k (by omega)]
  rw [index] at here
  obtain ⟨low, high⟩ := file.isCluster here
  -- what the source reads is the number of this cluster, from the entry or from the table
  have read : ∃ fs, (if s.fp.fptr = 0 then (s.fp.sclust, s.fs) else getFat m s.fp.clust s.fs) = (c, fs) ∧ fs.Coherent m ∧
      fs.toVolume = s.fs.toVolume := by
    by_cases top : s.fp.fptr = 0
    · have zero : k = 0 := by
        rw [top] at index
        rw [← index, Nat.zero_div]
      rw [if_pos top, going.sclust, (file.first (zero ▸ here)).1]
      exact ⟨s.fs, rfl, going.coherent, rfl⟩
    · rw [if_neg top]
      obtain ⟨k, rfl⟩ : ∃ k', k = k' + 1 := by
        refine Nat.exists_eq_succ_of_ne_zero ?_
        rintro rfl
        exact top (place.trans (Nat.mul_zero _))
      have before : clusters[k]? = some s.fp.clust := placed.here (x := vol.csize * 4096) place (by omega) (Nat.le_refl _)
      have entry := getFat_entry going.coherent (going.volume ▸ file.isCluster before)
      obtain ⟨value, coherent, volume⟩ := entry
      rw [going.volume, (file.next before here).1] at value
      exact ⟨_, Prod.ext value rfl, coherent, volume⟩
  obtain ⟨fs, read, coherent, volume⟩ := read
  refine ⟨{ s with fs := fs, fp := { s.fp with clust := c } }, ?_, ⟨{ going.toOpened with volume := ?_, coherent := coherent },
    left, going.begun, within, going.out⟩, here, rfl, rfl⟩
  · rw [Reading.follow, read]
    simp only
    rw [if_neg (by omega), if_neg (by omega)]
  · exact volume.trans going.volume

/-- **Sectors are read** on the boundary of one: whole ones, or the one of which a part is asked for. -/
theorem Reading.sector_going (sound : vol.Sound) (file : Clusters m vol start size clusters)
    (going : s.Going m vol start size clusters p n) (more : 0 < s.btr)
    (here : clusters[k]? = some s.fp.clust) (place : s.fp.fptr = vol.csize * 4096 * k + 4096 * j) (sector : j < vol.csize) :
    ∃ s', s.sector m j = .inl s' ∧ s'.Going m vol start size clusters p n ∧ Placed vol clusters s'.fp ∧ s'.btr < s.btr := by
  have volume := going.volume
  have ssize := sound.ssize
  have left := going.left
  have begun := going.begun
  have within := going.within
  have small := file.small
  obtain ⟨-, positive, room⟩ := clst2sect_cluster sound (file.isCluster here)
  obtain ⟨sect, sect_eq⟩ : ∃ sect, sect = clst2sect vol s.fp.clust + j := ⟨_, rfl⟩
  have number : u32 sect = sect := u32_of_lt (by omega)
  by_cases whole : 0 < s.btr / 4096
  · obtain ⟨cc, cc_eq⟩ : ∃ cc, cc = if vol.csize < j + s.btr / 4096 then vol.csize - j else s.btr / 4096 := ⟨_, rfl⟩
    have clipped : 0 < cc ∧ j + cc ≤ vol.csize ∧ 4096 * cc ≤ s.btr := by
      rw [cc_eq]
      split <;> omega
    obtain ⟨some, clip, enough⟩ := clipped
    have fptr : u32 (s.fp.fptr + 4096 * cc) = s.fp.fptr + 4096 * cc := u32_of_lt (by omega)
    have sectors := content_sectors here clip (m := m) (by omega : vol.csize * 4096 * k + 4096 * j + 4096 * cc ≤ size)
    rw [← place, ← sect_eq] at sectors
    refine ⟨{ s with
      fp := { s.fp with fptr := s.fp.fptr + 4096 * cc }
      btr := s.btr - 4096 * cc
      out := s.out ++ diskRead m sect cc }, ?_, ⟨{ going.toOpened with }, ?_, ?_, within, ?_⟩, ?_, ?_⟩
    · simp only [Reading.sector, volume, ssize, ← sect_eq, number, if_pos whole, ← cc_eq, fptr]
      rw [if_neg (by omega)]
    · change s.fp.fptr + 4096 * cc + (s.btr - 4096 * cc) = p + n
      omega
    · change p ≤ s.fp.fptr + 4096 * cc
      omega
    · change s.out ++ diskRead m sect cc = _
      rw [going.out, ← sectors, slice_append begun]
    · refine Placed.after (k := k) (x := 4096 * j + 4096 * cc) here ?_ (by omega) (by omega) ?_
      · change s.fp.fptr + 4096 * cc = _
        omega
      · intro inner
        change (s.fp.fptr + 4096 * cc) % 4096 ≠ 0 at inner
        have there : s.fp.fptr + 4096 * cc = vol.csize * 4096 * k + 4096 * (j + cc) + 0 := by omega
        rw [there, place_mod (by omega)] at inner
        exact absurd rfl inner
    · change s.btr - 4096 * cc < s.btr
      omega
  · obtain ⟨buf, buf_eq⟩ : ∃ buf, buf = if s.fp.sect ≠ sect then diskRead m sect 1 else s.fp.buf := ⟨_, rfl⟩
    have filled : buf = diskSector m sect := by
      rw [buf_eq]
      split
      · exact diskRead_one (by omega)
      · rename_i same
        have same : s.fp.sect = sect := not_not.mp same
        rw [going.buf (by omega), same]
    have loaded : ({ s with fp := { s.fp with buf := buf, sect := sect } } : Reading).Going m vol start size clusters p n :=
      ⟨{ going.toOpened with buf := fun _ => filled }, left, begun, within, going.out⟩
    refine ⟨_, ?_, Reading.copy_going (s := { s with fp := { s.fp with buf := buf, sect := sect } }) (r := 0) sound file loaded more here place
      sector (by omega) sect_eq⟩
    simp only [Reading.sector, volume, ssize, ← sect_eq, number, if_neg whole, ← buf_eq]
    rw [if_neg (by omega)]

/-- One round: it leaves when everything has been delivered. -/
theorem fReadPass_going (sound : vol.Sound) (file : Clusters m vol start size clusters)
    (going : s.Going m vol start size clusters p n) (placed : Placed vol clusters s.fp) (more : 0 < s.btr) :
    ∃ s', fReadPass m s = some (.inl s') ∧ s'.Going m vol start size clusters p n ∧ Placed vol clusters s'.fp ∧ s'.btr < s.btr := by
  have volume := going.volume
  have ssize := sound.ssize
  have left := going.left
  have within := going.within
  have unfinished : s.btr ≠ 0 := by omega
  obtain ⟨k, j, r, place, sector, byte⟩ := place_exists sound.positive s.fp.fptr
  have ofs : s.fp.fptr % 4096 = r := by
    rw [place, place_mod byte]
  have csect : s.fp.fptr / 4096 % vol.csize = j := by
    rw [place, place_sector sector byte]
  by_cases boundary : r = 0
  · subst boundary
    -- the sector is found before it is read, and the cluster before the sector
    have found : ∃ s₁, (if j = 0 then s.follow m else .inl s) = .inl s₁ ∧ s₁.Going m vol start size clusters p n ∧
        clusters[k]? = some s₁.fp.clust ∧ s₁.fp.fptr = s.fp.fptr ∧ s₁.btr = s.btr := by
      by_cases first : j = 0
      · rw [if_pos first]
        exact Reading.follow_going sound file going placed more (by omega)
      · rw [if_neg first]
        exact ⟨s, rfl, going, placed.here (x := 4096 * j) place (by omega) (by omega), rfl, rfl⟩
    obtain ⟨s₁, found, going₁, here, fptr, btr⟩ := found
    obtain ⟨s₂, read, going₂, placed₂, less⟩ :=
      Reading.sector_going sound file going₁ (by omega) here (fptr.trans place) sector
    refine ⟨s₂, ?_, going₂, placed₂, by omega⟩
    simp only [fReadPass, if_neg unfinished, volume, ssize, ofs, if_true, sound.csect, csect, found, read]
  · have here := placed.here (k := k) (x := 4096 * j + r) (by omega) (by omega) (by omega)
    have sect := placed.sect (by omega)
    rw [csect] at sect
    refine ⟨s.copy, ?_, Reading.copy_going sound file going more here place sector byte sect⟩
    simp only [fReadPass, if_neg unfinished, volume, ssize, ofs, if_neg boundary]

/-- **The loop of `f_read`** delivers all that is asked for. -/
theorem fReadLoop (sound : vol.Sound) (file : Clusters m vol start size clusters)
    (going : s.Going m vol start size clusters p n) (placed : Placed vol clusters s.fp) :
    ∃ s', Loop.exec (fReadPass m) (s.btr + 1) s = some (.ok, s') ∧ s'.Going m vol start size clusters p n ∧
      Placed vol clusters s'.fp ∧ s'.btr = 0 := by
  have run : ∃ r, Loop.exec (fReadPass m) (s.btr + 1) s = some r ∧
      (r.1 = .ok ∧ r.2.Going m vol start size clusters p n ∧ Placed vol clusters r.2.fp ∧ r.2.btr = 0) := by
    refine Loop.exec_returns (fun s : Reading => s.Going m vol start size clusters p n ∧ Placed vol clusters s.fp) _
      (fun s => s.btr) ?_ ⟨going, placed⟩ (Nat.lt_succ_self s.btr)
    rintro s ⟨going, placed⟩
    by_cases finished : s.btr = 0
    · exact .inr ⟨(.ok, s), by rw [fReadPass, if_pos finished], rfl, going, placed, finished⟩
    · obtain ⟨s', pass, going', placed', less⟩ := fReadPass_going sound file going placed (by omega)
      exact .inl ⟨s', pass, ⟨going', placed'⟩, less⟩
  obtain ⟨⟨_, s'⟩, run, rfl, going', placed', done⟩ := run
  exact ⟨s', run, going', placed', done⟩

end Passes

section Reads

variable {m : Mem} {vol : Volume} {start size : Nat} {clusters : List Nat} {fs : FATFS} {fp : FIL}

theorem Held.valid (sound : vol.Sound) (held : Held m vol start size clusters fs fp) : validate fs fp = .ok := by
  rw [validate, if_pos ⟨held.hosted, held.volume ▸ sound.mounted, held.id.trans (congrArg Volume.id held.volume.symm)⟩]

/-- A file that has just been opened is at its start. -/
theorem fOpened_held {dir : List Byte} (coherent : fs.Coherent m) (clust : Nat) :
    Held m fs.toVolume (ldClust fs dir) (ldDword dir 28) clusters fs (fOpened fs dir clust) :=
  ⟨⟨rfl, coherent, rfl, rfl, rfl, rfl, rfl, rfl, fun absent => absurd rfl absent⟩,
    ⟨fun some => absurd some (Nat.lt_irrefl 0), fun inner => absurd (Nat.zero_mod 4096) inner⟩, Nat.zero_le _⟩

/-- **`f_read` delivers the content** from the object's place on. -/
theorem fRead_content (sound : vol.Sound) (file : Clusters m vol start size clusters)
    (held : Held m vol start size clusters fs fp) (btr : Nat) :
    ∃ fs' fp', fRead m fs fp btr = some (.ok, ((content m vol clusters size).drop fp.fptr).take btr, fs', fp') ∧
      Held m vol start size clusters fs' fp' ∧ fp'.fptr = min (fp.fptr + btr) size := by
  have inside := held.inside
  have small := file.small
  have length := length_content file
  obtain ⟨n, count⟩ : ∃ n, n = min btr (size - fp.fptr) := ⟨_, rfl⟩
  have remain : u32 (fp.objsize + 2 ^ 32 - fp.fptr) = size - fp.fptr := by
    have objsize := held.objsize
    unfold u32
    omega
  have all : ((content m vol clusters size).drop fp.fptr).take n = ((content m vol clusters size).drop fp.fptr).take btr := by
    have rest : ((content m vol clusters size).drop fp.fptr).length = size - fp.fptr := by
      rw [List.length_drop, length]
    rw [count, ← rest, ← List.take_eq_take_min]
  have starts : Reading.Going m vol start size clusters fp.fptr n ⟨fs, fp, n, []⟩ :=
    ⟨held.toOpened, rfl, Nat.le_refl _, by omega, by rw [Nat.sub_self, List.take_zero]⟩
  obtain ⟨s, run, going, placed, done⟩ := fReadLoop sound file starts held.toPlaced
  have left := going.left
  have begun := going.begun
  refine ⟨s.fs, s.fp, ?_, ⟨going.toOpened, placed, by omega⟩, by omega⟩
  have delivered : s.out = ((content m vol clusters size).drop fp.fptr).take btr := by
    rw [going.out, ← all]
    congr 1
    omega
  rw [fRead, held.valid sound, if_neg (by decide), held.err, if_neg (by decide), held.read, if_neg (by decide)]
  simp only [remain, ← count]
  rw [run, Option.map_some, delivered]

end Reads

end OffLineProgrammer.Fatfs
