import OffLineProgrammer.Fatfs.Files
import OffLineProgrammer.Fatfs.Mount

/-!
# Volumes that are damaged

Whatever the table of clusters says, and whatever an object holds, the file functions read
nothing but the table and the clusters: two disks that agree there cannot be told apart.
-/

namespace OffLineProgrammer.Fatfs
set_option autoImplicit false
open OffLineProgrammer.Lib OffLineProgrammer.Storage

/-- Two disks have the same first table and the same clusters. -/
def Volume.SameOn (vol : Volume) (m m' : Mem) : Prop :=
  ∀ sector, (vol.fatbase ≤ sector ∧ sector < vol.fatbase + vol.fsize) ∨
      (vol.database ≤ sector ∧ sector < vol.database + vol.csize * (vol.nFatent - 2)) →
    diskSector m sector = diskSector m' sector

section Parts

variable {m m' : Mem} {vol : Volume} {limit : Nat} {fs : FATFS} {clst sect i cc : Nat}

/-- The window is moved within the table. -/
theorem moveWindow_same (laid : vol.Laid limit) (same : vol.SameOn m m') (volume : fs.toVolume = vol) (inside : i < vol.fsize) :
    moveWindow m (u32 (fs.fatbase + i)) fs = moveWindow m' (u32 (fs.fatbase + i)) fs := by
  have fits := laid.fits
  have root := laid.root
  have one : vol.fsize ≤ vol.nFats * vol.fsize := by
    refine Nat.le_mul_of_pos_left _ ?_
    have tables := laid.tables
    omega
  have number : u32 (fs.fatbase + i) = vol.fatbase + i := by
    rw [volume]
    exact u32_of_lt (by omega)
  have small : vol.fatbase + i < 2 ^ 32 := by omega
  unfold moveWindow
  rw [number, diskRead_one small, diskRead_one small, same (vol.fatbase + i) (.inl ⟨by omega, by omega⟩)]

/-- **`get_fat` stays in the table.** -/
theorem getFat_same (laid : vol.Laid limit) (same : vol.SameOn m m') (volume : fs.toVolume = vol) (clst : Nat) :
    getFat m clst fs = getFat m' clst fs := by
  by_cases inside : clst < 2 ∨ fs.nFatent ≤ clst
  · rw [getFat, getFat, if_pos inside, if_pos inside]
  · have high : clst < vol.nFatent := by
      rw [volume] at inside
      omega
    have ssize := laid.mountedSize volume
    unfold getFat
    rw [if_neg inside, if_neg inside]
    cases type : fs.fsType with
    | none => rfl
    | some fmt =>
      rw [volume] at type
      have bytes := laid.entries fmt type
      cases fmt with
      | fat12 =>
        have table : vol.nFatent * 3 / 2 + vol.nFatent % 2 ≤ vol.fsize * 4096 := bytes
        have first := moveWindow_same laid same volume (i := (clst + clst / 2) / 4096) (by omega)
        have volume' : (moveWindow m' (u32 (fs.fatbase + (clst + clst / 2) / 4096)) fs).toVolume = vol := by
          rw [moveWindow_volume, volume]
        have second := moveWindow_same laid same volume' (i := (clst + clst / 2 + 1) / 4096) (by omega)
        simp only [moveWindow_fatbase] at second
        simp only [ssize, moveWindow_ssize, moveWindow_fatbase, first, second]
      | fat16 =>
        have table : vol.nFatent * 2 ≤ vol.fsize * 4096 := bytes
        have moved := moveWindow_same laid same volume (i := clst / (4096 / 2)) (by omega)
        simp only [ssize, moved]
      | fat32 =>
        have few := laid.nFatent
        have table : u32 (vol.nFatent * 4) ≤ vol.fsize * 4096 := bytes
        rw [u32_of_lt (by omega)] at table
        have moved := moveWindow_same laid same volume (i := clst / (4096 / 4)) (by omega)
        simp only [ssize, moved]

theorem getFat_volume (m : Mem) (clst : Nat) (fs : FATFS) : (getFat m clst fs).2.toVolume = fs.toVolume := by
  unfold getFat
  split
  · rfl
  · split
    · simp only [moveWindow_volume]
    · simp only [moveWindow_volume]
    · simp only [moveWindow_volume]
    · rfl

/-- Where a number leads that is a cluster's. -/
theorem clst2sect_inside (sound : vol.Sound) (found : clst2sect vol clst ≠ 0) :
    vol.database ≤ clst2sect vol clst ∧ clst2sect vol clst + vol.csize ≤ vol.database + vol.csize * (vol.nFatent - 2) := by
  obtain ⟨few, many⟩ := sound.nFatent
  have fits := sound.fits
  obtain ⟨c, number⟩ : ∃ c, c = u32 (clst + 2 ^ 32 - 2) := ⟨_, rfl⟩
  have bound : u32 (vol.nFatent + 2 ^ 32 - 2) = vol.nFatent - 2 := by
    unfold u32
    omega
  unfold clst2sect at found ⊢
  simp only [← number, bound] at found ⊢
  by_cases beyond : vol.nFatent - 2 ≤ c
  · rw [if_pos beyond] at found
    exact absurd rfl found
  · rw [if_neg beyond]
    have room : vol.csize * c + vol.csize ≤ vol.csize * (vol.nFatent - 2) := by
      rw [← Nat.mul_succ]
      exact Nat.mul_le_mul_left _ (by omega)
    have positive := sound.positive
    rw [u32_of_lt (by omega)]
    omega

/-- **Sectors of a cluster** are read where the clusters are. -/
theorem diskRead_same (laid : vol.Laid limit) (same : vol.SameOn m m') (found : clst2sect vol clst ≠ 0) (within : sect + cc ≤ vol.csize) :
    diskRead m (u32 (clst2sect vol clst + sect)) cc = diskRead m' (u32 (clst2sect vol clst + sect)) cc := by
  obtain ⟨low, high⟩ := clst2sect_inside laid.toSound found
  have fits := laid.fits
  unfold diskRead
  apply List.flatMap_congr
  intro i mem
  have less := List.mem_range.mp mem
  have number : u32 (u32 (clst2sect vol clst + sect) + i) = clst2sect vol clst + sect + i := by
    rw [u32_of_lt (by omega : clst2sect vol clst + sect < 2 ^ 32), u32_of_lt (by omega)]
  rw [number]
  exact same _ (.inr ⟨by omega, by omega⟩)

end Parts

/-! ## Passes -/

section Passes

variable {m m' : Mem} {vol : Volume} {limit : Nat} {s s' : Reading}

theorem Reading.copy_volume (s : Reading) : s.copy.fs.toVolume = s.fs.toVolume := rfl

/-- The next cluster, on two disks. -/
theorem Reading.follow_same (laid : vol.Laid limit) (same : vol.SameOn m m') (volume : s.fs.toVolume = vol) :
    s.follow m = s.follow m' := by
  rw [Reading.follow, Reading.follow, getFat_same laid same volume]

theorem Reading.follow_volume (followed : s.follow m = .inl s') : s'.fs.toVolume = s.fs.toVolume := by
  have kept := getFat_volume m s.fp.clust s.fs
  unfold Reading.follow at followed
  by_cases top : s.fp.fptr = 0
  · rw [if_pos top] at followed
    simp only at followed
    split at followed
    · cases followed
    · split at followed
      · cases followed
      · cases followed
        rfl
  · rw [if_neg top] at followed
    simp only at followed
    split at followed
    · cases followed
    · split at followed
      · cases followed
      · cases followed
        exact kept

/-- The sectors, on two disks. -/
theorem Reading.sector_same (laid : vol.Laid limit) (same : vol.SameOn m m') (volume : s.fs.toVolume = vol) {csect : Nat}
    (within : csect < vol.csize) : s.sector m csect = s.sector m' csect := by
  unfold Reading.sector
  simp only [volume]
  by_cases found : clst2sect vol s.fp.clust = 0
  · rw [if_pos found, if_pos found]
  · rw [if_neg found, if_neg found]
    obtain ⟨cc, clip⟩ : ∃ cc, cc = if vol.csize < csect + s.btr / vol.ssize then vol.csize - csect else s.btr / vol.ssize := ⟨_, rfl⟩
    have clipped : csect + cc ≤ vol.csize := by
      rw [clip]
      split <;> omega
    rw [← clip, diskRead_same laid same found clipped, diskRead_same laid same found (by omega : csect + 1 ≤ vol.csize)]

theorem Reading.sector_volume {csect : Nat} (read : s.sector m csect = .inl s') : s'.fs.toVolume = s.fs.toVolume := by
  unfold Reading.sector at read
  simp only at read
  split at read
  · cases read
  · split at read
    · rw [← Sum.inl.inj read]
    · rw [← Sum.inl.inj read, Reading.copy_volume]

/-- **One round of `f_read`**, on two disks. -/
theorem fReadPass_same (laid : vol.Laid limit) (same : vol.SameOn m m') (volume : s.fs.toVolume = vol) :
    fReadPass m s = fReadPass m' s := by
  have within : s.fp.fptr / vol.ssize % vol.csize < vol.csize := Nat.mod_lt _ laid.positive
  unfold fReadPass
  simp only [volume, laid.csect, Reading.follow_same laid same volume]
  by_cases done : s.btr = 0
  · rw [if_pos done, if_pos done]
  · rw [if_neg done, if_neg done]
    by_cases boundary : s.fp.fptr % vol.ssize = 0
    · rw [if_pos boundary, if_pos boundary]
      cases followed : (if s.fp.fptr / vol.ssize % vol.csize = 0 then s.follow m' else .inl s) with
      | inr r => rfl
      | inl s₁ =>
        have volume₁ : s₁.fs.toVolume = vol := by
          split at followed
          · rw [Reading.follow_volume followed, volume]
          · cases followed
            exact volume
        simp only
        rw [Reading.sector_same laid same volume₁ within]
    · rw [if_neg boundary, if_neg boundary]

theorem fReadPass_volume (pass : fReadPass m s = some (.inl s')) : s'.fs.toVolume = s.fs.toVolume := by
  unfold fReadPass at pass
  simp only [Option.some.injEq] at pass
  split at pass
  · cases pass
  · split at pass
    · cases followed : (if s.fp.fptr / s.fs.ssize &&& (s.fs.csize - 1) = 0 then s.follow m else .inl s) with
      | inr r =>
        simp only [followed] at pass
        cases pass
      | inl s₁ =>
        have volume₁ : s₁.fs.toVolume = s.fs.toVolume := by
          split at followed
          · exact Reading.follow_volume followed
          · cases followed
            rfl
        simp only [followed] at pass
        exact (Reading.sector_volume pass).trans volume₁
    · cases pass
      rfl

end Passes

section Calls

variable {m m' : Mem} {vol : Volume} {limit : Nat} {fs : FATFS} {fp : FIL} {s s' : Seeking}

/-- **`f_read` on two disks.** -/
theorem fRead_same (laid : vol.Laid limit) (same : vol.SameOn m m') (volume : fs.toVolume = vol) (btr : Nat) :
    fRead m fs fp btr = fRead m' fs fp btr := by
  have loop : ∀ fuel n, Loop.exec (fReadPass m) fuel ⟨fs, fp, n, []⟩ = Loop.exec (fReadPass m') fuel ⟨fs, fp, n, []⟩ := by
    intro fuel n
    exact Loop.exec_congr (fun s : Reading => s.fs.toVolume = vol) (fun s volume => fReadPass_same laid same volume)
      (fun s s' volume pass => (fReadPass_volume pass).trans volume) volume
  simp only [fRead, loop]

/-- One round of `f_lseek`, on two disks. -/
theorem fLseekPass_same (laid : vol.Laid limit) (same : vol.SameOn m m') (volume : s.fs.toVolume = vol) :
    fLseekPass m s = fLseekPass m' s := by
  rw [fLseekPass, fLseekPass, getFat_same laid same volume]

theorem fLseekPass_volume (pass : fLseekPass m s = some (.inl s')) : s'.fs.toVolume = s.fs.toVolume := by
  unfold fLseekPass at pass
  simp only [Option.some.injEq] at pass
  split at pass
  · split at pass
    · cases pass
    · split at pass
      · cases pass
      · cases pass
        exact getFat_volume ..
  · cases pass

/-- The place from which the chain is followed is that of a cluster. -/
theorem fLseekStart_aligned (sound : vol.Sound) (volume : fs.toVolume = vol) (ofs : Nat) :
    (fLseekStart fs fp ofs).fp.fptr % 4096 = 0 := by
  obtain ⟨e, short, csize⟩ := sound.csize
  have ssize := sound.ssize
  simp only [fLseekStart, volume, ssize]
  split
  · have power : vol.csize * 4096 ≤ 2 ^ 7 * 4096 := by
      rw [csize]
      exact Nat.mul_le_mul_right _ (Nat.pow_le_pow_right (by omega) short)
    have positive := sound.positive
    have mask : (2 ^ 32 - 1 - (vol.csize * 4096 - 1)) % 2 ^ 12 = 0 := by omega
    change (fp.fptr - 1 &&& 2 ^ 32 - 1 - (vol.csize * 4096 - 1)) % 2 ^ 12 = 0
    rw [Nat.and_mod_two_pow, mask, Nat.and_zero]
  · exact Nat.zero_mod _

/-- Where the loop of `f_lseek` leaves. -/
theorem fLseekLoop_leaves (sound : vol.Sound) (volume : s.fs.toVolume = vol) (aligned : s.fp.fptr % 4096 = 0) {fuel : Nat}
    {r : FRESULT × Seeking} (run : Loop.exec (fLseekPass m) fuel s = some r) :
    r.2.fs.toVolume = vol ∧ (r.1 = .ok → r.2.ofs ≤ vol.csize * 4096 ∧ r.2.fp.fptr % 4096 = 0) := by
  have scaled : ∀ n, (n + vol.csize * 4096) % 4096 = n % 4096 := fun n => Nat.add_mul_mod_self_right _ _ _
  refine Loop.exec_post (fun s : Seeking => s.fs.toVolume = vol ∧ s.fp.fptr % 4096 = 0)
    (fun r => r.2.fs.toVolume = vol ∧ (r.1 = .ok → r.2.ofs ≤ vol.csize * 4096 ∧ r.2.fp.fptr % 4096 = 0)) ?_ ?_ ⟨volume, aligned⟩ run
  · rintro s s' ⟨volume, aligned⟩ pass
    refine ⟨(fLseekPass_volume pass).trans volume, ?_⟩
    simp only [fLseekPass, volume, sound.ssize, Option.some.injEq] at pass
    split at pass
    · split at pass
      · cases pass
      · split at pass
        · cases pass
        · rw [← Sum.inl.inj pass, scaled, aligned]
    · cases pass
  · rintro s r ⟨volume, aligned⟩ pass
    simp only [fLseekPass, volume, sound.ssize, Option.some.injEq] at pass
    split at pass
    · have kept := getFat_volume m s.clst s.fs
      split at pass
      · rw [← Sum.inr.inj pass]
        exact ⟨kept.trans volume, fun fine => FRESULT.noConfusion fine⟩
      · split at pass
        · rw [← Sum.inr.inj pass]
          exact ⟨kept.trans volume, fun fine => FRESULT.noConfusion fine⟩
        · cases pass
    · rename_i last
      rw [← Sum.inr.inj pass]
      exact ⟨volume, fun _ => ⟨Nat.le_of_not_lt last, aligned⟩⟩

/-- The end of `f_lseek` on a boundary reads nothing. -/
theorem fLseekEnd_boundary (ssize : fs.ssize = 4096) (boundary : fp.fptr % 4096 = 0) (nsect : Nat) :
    fLseekEnd m nsect fs fp = (.ok, fs, fp) := by
  rw [fLseekEnd, if_neg]
  rintro ⟨inner, -⟩
  rw [ssize] at inner
  exact inner boundary

/-- **`f_lseek` on two disks.** -/
theorem fLseek_same (laid : vol.Laid limit) (same : vol.SameOn m m') (volume : fs.toVolume = vol) (ofs : Nat) :
    fLseek m fs fp ofs = fLseek m' fs fp ofs := by
  have ssize := laid.mountedSize volume
  unfold fLseek
  simp only
  by_cases valid : validate fs fp ≠ .ok
  · rw [if_pos valid, if_pos valid]
  by_cases failed : fp.err ≠ .ok
  · rw [if_neg valid, if_neg valid, if_pos failed, if_pos failed]
  rw [if_neg valid, if_neg valid, if_neg failed, if_neg failed]
  by_cases top : min ofs fp.objsize = 0
  · rw [if_pos top, if_pos top, fLseekEnd_boundary ssize (Nat.zero_mod _), fLseekEnd_boundary ssize (Nat.zero_mod _)]
  rw [if_neg top, if_neg top]
  obtain ⟨s, begins⟩ : ∃ s, s = fLseekStart fs fp (min ofs fp.objsize) := ⟨_, rfl⟩
  have volume₀ : s.fs.toVolume = vol := by
    rw [begins, fLseekStart]
    split
    · exact volume
    · exact volume
  have aligned₀ : s.fp.fptr % 4096 = 0 := begins ▸ fLseekStart_aligned laid.toSound volume _
  rw [← begins]
  by_cases none : s.clst = 0
  · rw [if_pos none, if_pos none]
  rw [if_neg none, if_neg none]
  have loop : Loop.exec (fLseekPass m) (s.ofs + 1) s = Loop.exec (fLseekPass m') (s.ofs + 1) s :=
    Loop.exec_congr (fun s : Seeking => s.fs.toVolume = vol) (fun s volume => fLseekPass_same laid same volume)
      (fun s s' volume pass => (fLseekPass_volume pass).trans volume) volume₀
  rw [loop]
  cases run : Loop.exec (fLseekPass m') (s.ofs + 1) s with
  | none => rw [Option.map_none, Option.map_none]
  | some r =>
    obtain ⟨volume₁, leaves⟩ := fLseekLoop_leaves laid.toSound volume₀ aligned₀ run
    rw [Option.map_some, Option.map_some, Option.some.injEq]
    by_cases res : r.1 ≠ .ok
    · rw [if_pos res, if_pos res]
    rw [if_neg res, if_neg res]
    obtain ⟨last, aligned⟩ := leaves (not_not.mp res)
    have ssize₁ := laid.mountedSize volume₁
    obtain ⟨fp₁, moved⟩ : ∃ fp₁ : FIL, fp₁ = { r.2.fp with fptr := r.2.fp.fptr + r.2.ofs } := ⟨_, rfl⟩
    have place : fp₁.fptr = r.2.fp.fptr + r.2.ofs := by rw [moved]
    rw [← moved]
    by_cases boundary : r.2.ofs % r.2.fs.ssize = 0
    · rw [if_pos boundary, if_pos boundary]
      rw [ssize₁] at boundary
      have there : fp₁.fptr % 4096 = 0 := by omega
      rw [fLseekEnd_boundary ssize₁ there, fLseekEnd_boundary ssize₁ there]
    rw [if_neg boundary, if_neg boundary]
    by_cases found : clst2sect r.2.fs.toVolume r.2.clst = 0
    · rw [if_pos found, if_pos found]
    rw [if_neg found, if_neg found]
    rw [ssize₁] at boundary ⊢
    rw [volume₁] at found ⊢
    have within : r.2.ofs / 4096 + 1 ≤ vol.csize := by omega
    rw [fLseekEnd, fLseekEnd, diskRead_same laid same found within]

end Calls

/-! ## Every call returns -/

/-- An object of a file with clusters, that knows one when it has left the start. -/
structure FIL.Grounded (fp : FIL) : Prop where
  sclust : fp.sclust ≠ 0
  clust : 0 < fp.fptr → fp.clust ≠ 0

section Returns

variable {m : Mem} {vol : Volume} {limit : Nat} {fs : FATFS} {fp : FIL} {s : Reading}

/-- What a round of `f_read` leaves in order. -/
structure Reading.Sane (vol : Volume) (s : Reading) : Prop where
  volume : s.fs.toVolume = vol
  grounded : s.fp.Grounded

theorem Reading.copy_sane (sound : vol.Sound) (sane : s.Sane vol) (clust : s.fp.clust ≠ 0) (more : 0 < s.btr) :
    s.copy.Sane vol ∧ s.copy.btr < s.btr := by
  have ssize := sound.mountedSize sane.volume
  refine ⟨⟨sane.volume, sane.grounded.sclust, fun _ => clust⟩, ?_⟩
  change s.btr - min (s.fs.ssize - s.fp.fptr % s.fs.ssize) s.btr < s.btr
  rw [ssize]
  omega

/-- The next cluster is one, or the call ends. -/
theorem Reading.follow_sane (sane : s.Sane vol) :
    (∃ s', s.follow m = .inl s' ∧ s'.Sane vol ∧ s'.fp.clust ≠ 0 ∧ s'.btr = s.btr) ∨
      ∃ r, s.follow m = .inr r ∧ r.2.Sane vol := by
  obtain ⟨r, next⟩ : ∃ r, r = if s.fp.fptr = 0 then (s.fp.sclust, s.fs) else getFat m s.fp.clust s.fs := ⟨_, rfl⟩
  have volume : r.2.toVolume = vol := by
    rw [next]
    split
    · exact sane.volume
    · rw [getFat_volume]
      exact sane.volume
  rw [Reading.follow, ← next]
  simp only
  by_cases none : r.1 < 2
  · rw [if_pos none]
    exact .inr ⟨_, rfl, volume, sane.grounded.sclust, sane.grounded.clust⟩
  · rw [if_neg none]
    by_cases failed : r.1 = 0xFFFFFFFF
    · rw [if_pos failed]
      exact .inr ⟨_, rfl, volume, sane.grounded.sclust, sane.grounded.clust⟩
    · rw [if_neg failed]
      have clust : r.1 ≠ 0 := by omega
      exact .inl ⟨_, rfl, ⟨volume, sane.grounded.sclust, fun _ => clust⟩, clust, rfl⟩

/-- Some sectors are read, or the call ends. -/
theorem Reading.sector_sane (sound : vol.Sound) (sane : s.Sane vol) (clust : s.fp.clust ≠ 0) (more : 0 < s.btr) {csect : Nat}
    (within : csect < vol.csize) :
    (∃ s', s.sector m csect = .inl s' ∧ s'.Sane vol ∧ s'.btr < s.btr) ∨
      ∃ r, s.sector m csect = .inr r ∧ r.2.Sane vol := by
  have volume := sane.volume
  have ssize := sound.ssize
  unfold Reading.sector
  simp only [volume, ssize]
  by_cases none : clst2sect vol s.fp.clust = 0
  · rw [if_pos none]
    exact .inr ⟨_, rfl, volume, sane.grounded.sclust, sane.grounded.clust⟩
  · rw [if_neg none]
    obtain ⟨cc, clip⟩ : ∃ cc, cc = if vol.csize < csect + s.btr / 4096 then vol.csize - csect else s.btr / 4096 := ⟨_, rfl⟩
    rw [← clip]
    by_cases whole : 0 < s.btr / 4096
    · rw [if_pos whole]
      have some : 0 < cc := by
        rw [clip]
        split <;> omega
      refine .inl ⟨_, rfl, ⟨volume, sane.grounded.sclust, fun _ => clust⟩, ?_⟩
      change s.btr - 4096 * cc < s.btr
      omega
    · rw [if_neg whole]
      obtain ⟨fp, loaded⟩ : ∃ fp : FIL, fp = { s.fp with
          buf := if s.fp.sect ≠ u32 (clst2sect vol s.fp.clust + csect) then
              diskRead m (u32 (clst2sect vol s.fp.clust + csect)) 1 else s.fp.buf
          sect := u32 (clst2sect vol s.fp.clust + csect) } := ⟨_, rfl⟩
      have same : fp.sclust = s.fp.sclust ∧ fp.clust = s.fp.clust := by
        rw [loaded]
        exact ⟨rfl, rfl⟩
      rw [← loaded]
      have clust' : fp.clust ≠ 0 := same.2 ▸ clust
      have sane' : ({ s with fp := fp } : Reading).Sane vol := ⟨volume, same.1 ▸ sane.grounded.sclust, fun _ => clust'⟩
      exact .inl ⟨_, rfl, Reading.copy_sane sound sane' clust' more⟩

/-- One round reads something or leaves. -/
theorem fReadPass_sane (sound : vol.Sound) (sane : s.Sane vol) :
    (∃ s', fReadPass m s = some (.inl s') ∧ s'.Sane vol ∧ s'.btr < s.btr) ∨
      ∃ r, fReadPass m s = some (.inr r) ∧ r.2.Sane vol := by
  have within : s.fp.fptr / 4096 % vol.csize < vol.csize := Nat.mod_lt _ sound.positive
  simp only [fReadPass, sane.volume, sound.ssize, sound.csect]
  by_cases done : s.btr = 0
  · rw [if_pos done]
    exact .inr ⟨_, rfl, sane⟩
  rw [if_neg done]
  have more : 0 < s.btr := Nat.pos_of_ne_zero done
  by_cases boundary : s.fp.fptr % 4096 = 0
  · rw [if_pos boundary]
    -- the cluster is known before the sector is
    have known : (∃ s', (if s.fp.fptr / 4096 % vol.csize = 0 then s.follow m else .inl s) = .inl s' ∧ s'.Sane vol ∧
        s'.fp.clust ≠ 0 ∧ s'.btr = s.btr) ∨
        ∃ r, (if s.fp.fptr / 4096 % vol.csize = 0 then s.follow m else .inl s) = .inr r ∧ r.2.Sane vol := by
      by_cases first : s.fp.fptr / 4096 % vol.csize = 0
      · rw [if_pos first]
        exact Reading.follow_sane sane
      · rw [if_neg first]
        have moved : 0 < s.fp.fptr := by
          refine Nat.pos_of_ne_zero fun top => first ?_
          rw [top, Nat.zero_div, Nat.zero_mod]
        exact .inl ⟨s, rfl, sane, sane.grounded.clust moved, rfl⟩
    rcases known with ⟨s₁, known, sane₁, clust₁, btr₁⟩ | ⟨r, known, saneR⟩
    · rw [known]
      rcases Reading.sector_sane sound sane₁ clust₁ (btr₁ ▸ more) within with ⟨s₂, read, sane₂, less⟩ | ⟨r, read, saneR⟩
      · exact .inl ⟨s₂, congrArg some read, sane₂, btr₁ ▸ less⟩
      · exact .inr ⟨r, congrArg some read, saneR⟩
    · rw [known]
      exact .inr ⟨r, rfl, saneR⟩
  · rw [if_neg boundary]
    have moved : 0 < s.fp.fptr := by
      refine Nat.pos_of_ne_zero fun top => boundary ?_
      rw [top]
    exact .inl ⟨_, rfl, Reading.copy_sane sound sane (sane.grounded.clust moved) more⟩

/-- **`f_read` returns**, whatever the table says. -/
theorem fRead_returns (sound : vol.Sound) (volume : fs.toVolume = vol) (grounded : fp.Grounded) (btr : Nat) :
    ∃ r, fRead m fs fp btr = some r ∧ r.2.2.1.toVolume = vol ∧ r.2.2.2.Grounded := by
  unfold fRead
  simp only
  by_cases valid : validate fs fp ≠ .ok
  · rw [if_pos valid]
    exact ⟨_, rfl, volume, grounded⟩
  by_cases failed : fp.err ≠ .ok
  · rw [if_neg valid, if_pos failed]
    exact ⟨_, rfl, volume, grounded⟩
  by_cases denied : fp.read = false
  · rw [if_neg valid, if_neg failed, if_pos denied]
    exact ⟨_, rfl, volume, grounded⟩
  rw [if_neg valid, if_neg failed, if_neg denied]
  obtain ⟨n, count⟩ : ∃ n, n = min btr (u32 (fp.objsize + 2 ^ 32 - fp.fptr)) := ⟨_, rfl⟩
  rw [← count]
  have loop : ∃ r, Loop.exec (fReadPass m) (n + 1) ⟨fs, fp, n, []⟩ = some r ∧ r.2.Sane vol := by
    refine Loop.exec_returns (fun s : Reading => s.Sane vol) (fun r : FRESULT × Reading => r.2.Sane vol)
      (fun s => s.btr) ?_ ⟨volume, grounded⟩ (Nat.lt_succ_self n)
    exact fun s sane => fReadPass_sane sound sane
  obtain ⟨r, run, sane⟩ := loop
  rw [run]
  exact ⟨_, rfl, sane.volume, sane.grounded⟩

/-- What a round of `f_lseek` leaves in order. -/
structure Seeking.Sane (vol : Volume) (s : Seeking) : Prop where
  volume : s.fs.toVolume = vol
  sclust : s.fp.sclust ≠ 0
  clust : s.fp.clust ≠ 0

theorem fLseekPass_sane (sound : vol.Sound) {s : Seeking} (sane : s.Sane vol) :
    (∃ s', fLseekPass m s = some (.inl s') ∧ s'.Sane vol ∧ s'.ofs < s.ofs) ∨
      ∃ r, fLseekPass m s = some (.inr r) ∧ r.2.Sane vol := by
  have positive := sound.positive
  have kept := (getFat_volume m s.clst s.fs).trans sane.volume
  simp only [fLseekPass, sane.volume, sound.ssize]
  by_cases more : vol.csize * 4096 < s.ofs
  · rw [if_pos more]
    by_cases failed : (getFat m s.clst s.fs).1 = 0xFFFFFFFF
    · rw [if_pos failed]
      exact .inr ⟨_, rfl, kept, sane.sclust, sane.clust⟩
    · rw [if_neg failed]
      by_cases none : (getFat m s.clst s.fs).1 ≤ 1 ∨ (getFat m s.clst s.fs).2.nFatent ≤ (getFat m s.clst s.fs).1
      · rw [if_pos none]
        exact .inr ⟨_, rfl, kept, sane.sclust, sane.clust⟩
      · rw [if_neg none]
        have clust : (getFat m s.clst s.fs).1 ≠ 0 := by omega
        refine .inl ⟨_, rfl, ⟨kept, sane.sclust, clust⟩, ?_⟩
        change s.ofs - vol.csize * 4096 < s.ofs
        omega
  · rw [if_neg more]
    exact .inr ⟨_, rfl, sane⟩

/-- **`f_lseek` returns**, whatever the table says. -/
theorem fLseek_returns (sound : vol.Sound) (volume : fs.toVolume = vol) (grounded : fp.Grounded) (ofs : Nat) :
    ∃ r, fLseek m fs fp ofs = some r ∧ r.2.1.toVolume = vol ∧ r.2.2.Grounded := by
  have end_ : ∀ (nsect : Nat) (fs : FATFS) (fp : FIL), fs.toVolume = vol → fp.sclust ≠ 0 → (0 < fp.fptr → fp.clust ≠ 0) →
      (fLseekEnd m nsect fs fp).2.1.toVolume = vol ∧ (fLseekEnd m nsect fs fp).2.2.Grounded := by
    intro nsect fs fp volume sclust clust
    unfold fLseekEnd
    split
    · exact ⟨volume, sclust, clust⟩
    · exact ⟨volume, sclust, clust⟩
  unfold fLseek
  simp only
  by_cases valid : validate fs fp ≠ .ok
  · rw [if_pos valid]
    exact ⟨_, rfl, volume, grounded⟩
  by_cases failed : fp.err ≠ .ok
  · rw [if_neg valid, if_pos failed]
    exact ⟨_, rfl, volume, grounded⟩
  rw [if_neg valid, if_neg failed]
  by_cases top : min ofs fp.objsize = 0
  · rw [if_pos top]
    exact ⟨_, rfl, end_ 0 fs { fp with fptr := 0 } volume grounded.sclust fun some => absurd some (Nat.lt_irrefl 0)⟩
  rw [if_neg top]
  obtain ⟨s, begins⟩ : ∃ s, s = fLseekStart fs fp (min ofs fp.objsize) := ⟨_, rfl⟩
  have sane : s.Sane vol ∧ s.clst ≠ 0 := by
    rw [begins, fLseekStart]
    split
    · rename_i near
      exact ⟨⟨volume, grounded.sclust, grounded.clust near.1⟩, grounded.clust near.1⟩
    · exact ⟨⟨volume, grounded.sclust, grounded.sclust⟩, grounded.sclust⟩
  rw [← begins, if_neg sane.2]
  have loop : ∃ r, Loop.exec (fLseekPass m) (s.ofs + 1) s = some r ∧ r.2.Sane vol := by
    refine Loop.exec_returns (fun s : Seeking => s.Sane vol) (fun r : FRESULT × Seeking => r.2.Sane vol)
      (fun s => s.ofs) ?_ sane.1 (Nat.lt_succ_self s.ofs)
    exact fun s sane => fLseekPass_sane sound sane
  obtain ⟨r, run, saneR⟩ := loop
  rw [run, Option.map_some]
  refine ⟨_, rfl, ?_⟩
  by_cases res : r.1 ≠ .ok
  · rw [if_pos res]
    exact ⟨saneR.volume, saneR.sclust, fun _ => saneR.clust⟩
  rw [if_neg res]
  by_cases boundary : r.2.ofs % r.2.fs.ssize = 0
  · rw [if_pos boundary]
    exact end_ 0 r.2.fs _ saneR.volume saneR.sclust fun _ => saneR.clust
  rw [if_neg boundary]
  by_cases found : clst2sect r.2.fs.toVolume r.2.clst = 0
  · rw [if_pos found]
    exact ⟨saneR.volume, saneR.sclust, fun _ => saneR.clust⟩
  · rw [if_neg found]
    exact end_ _ r.2.fs _ saneR.volume saneR.sclust fun _ => saneR.clust

end Returns

/-! ## Runs -/

section Runs

variable {ι : Type} [DecidableEq ι] {m m' : Mem} {vol : Volume} {limit : Nat} {s : Files ι}

/-- Every object has a cluster where it needs one. -/
structure Files.Grounded (vol : Volume) (s : Files ι) : Prop where
  volume : s.fs.toVolume = vol
  each : ∀ i, (s.fp i).Grounded

theorem Call.exec_same (laid : vol.Laid limit) (same : vol.SameOn m m') {fs : FATFS} (volume : fs.toVolume = vol) (fp : FIL)
    (c : Call) : c.exec m fs fp = c.exec m' fs fp := by
  cases c with
  | read btr => exact fRead_same laid same volume btr
  | lseek ofs => simp only [Call.exec, fLseek_same laid same volume]

theorem Call.exec_returns (sound : vol.Sound) {fs : FATFS} {fp : FIL} (volume : fs.toVolume = vol) (grounded : fp.Grounded)
    (c : Call) : ∃ r, c.exec m fs fp = some r ∧ r.2.2.1.toVolume = vol ∧ r.2.2.2.Grounded := by
  cases c with
  | read btr => exact fRead_returns sound volume grounded btr
  | lseek ofs =>
    obtain ⟨r, run, volume', grounded'⟩ := fLseek_returns sound volume grounded ofs
    refine ⟨(r.1, [], r.2), ?_, volume', grounded'⟩
    rw [Call.exec, run, Option.map_some]

/-- **Whatever the volume holds, calls return and stay inside it**: every run of calls on
any objects ends, and two disks that agree on the table and the clusters give it the same
replies and leave the same objects. -/
theorem Files.run_confined (laid : vol.Laid limit) (same : vol.SameOn m m') (grounded : s.Grounded vol) (es : List (ι × Call)) :
    ∃ s', Run.run (Files.step m) es s = some s' ∧ Run.run (Files.step m') es s = some s' ∧ s'.Grounded vol ∧
      Run.trace (Files.step m) (Files.replies m) es s = Run.trace (Files.step m') (Files.replies m') es s := by
  induction es generalizing s with
  | nil => exact ⟨s, rfl, rfl, grounded, by simp only [Run.trace]⟩
  | cons e es ih =>
    obtain ⟨i, c⟩ := e
    obtain ⟨r, returned, volume, object⟩ := Call.exec_returns (m := m) laid.toSound grounded.volume (grounded.each i) c
    have returned' := (Call.exec_same laid same grounded.volume (s.fp i) c).symm.trans returned
    have step : Files.step m (i, c) s = some ⟨r.2.2.1, Function.update s.fp i r.2.2.2⟩ := by
      simp only [Files.step, returned, Option.map_some]
    have step' : Files.step m' (i, c) s = some ⟨r.2.2.1, Function.update s.fp i r.2.2.2⟩ := by
      simp only [Files.step, returned', Option.map_some]
    have replies : Files.replies m (i, c) s = Files.replies m' (i, c) s := by
      simp only [Files.replies, returned, returned']
    have grounded' : (⟨r.2.2.1, Function.update s.fp i r.2.2.2⟩ : Files ι).Grounded vol := by
      refine ⟨volume, fun j => ?_⟩
      by_cases here : j = i
      · subst here
        simp only [Function.update_self]
        exact object
      · simp only [Function.update_of_ne here]
        exact grounded.each j
    obtain ⟨s', run, run', last, trace⟩ := ih grounded'
    refine ⟨s', (Run.run_cons step).trans run, (Run.run_cons step').trans run', last, ?_⟩
    simp only [Run.trace, step, step', replies, Option.elim_some, trace]

/-- The rest of the disk is nothing to the small volume. -/
theorem smallVolume_sameOn (m : Mem) : smallVolume.SameOn m fun a => if a < 4096 ∨ 128 * 4096 ≤ a then 0xFF else m a := by
  intro sector inside
  have bounds : 1 ≤ sector ∧ sector < 128 := by
    rcases inside with ⟨low, high⟩ | ⟨low, high⟩
    · change 1 ≤ sector at low
      change sector < 1 + 1 at high
      omega
    · change 3 ≤ sector at low
      change sector < 3 + 1 * (127 - 2) at high
      omega
  rw [diskSector, diskSector, chipRead, chipRead]
  apply List.map_congr_left
  intro i mem
  have less : i < 4096 := List.mem_range.mp mem
  have chip : (chipSize : Nat) = 16777216 := rfl
  have size : (spiFlashSectorSize : Nat) = 4096 := rfl
  have addr : (u32 (sector * spiFlashSectorSize) % chipSize + i) % chipSize = sector * 4096 + i := by
    rw [u32, size, chip]
    omega
  rw [addr, if_neg (by omega)]

/-- A disk on which clusters 2 and 3 follow one another. -/
def cyclicDisk : Mem := fun a =>
  if 4096 ≤ a ∧ a < 8192 then [0xF8, 0xFF, 0xFF, 0x03, 0x20, 0x00].getD (a - 4096) 0 else smallDisk a

/-- A file of 20000 bytes in a cycle of two clusters, on two disks that differ elsewhere. -/
theorem Files.run_confined_cyclic :
    nextCluster cyclicDisk smallVolume 3 = some 2 ∧ nextCluster cyclicDisk smallVolume 2 = some 3 ∧
    ∃ s', Run.run (Files.step cyclicDisk) [(true, .read 10), (false, .lseek 15000), (true, .read 12000)]
        ⟨smallFs, fun _ : Bool => { fOpened smallFs smallEntry 0 with objsize := 20000 }⟩ = some s' ∧
      Run.run (Files.step fun a => if a < 4096 ∨ 128 * 4096 ≤ a then 0xFF else cyclicDisk a)
        [(true, .read 10), (false, .lseek 15000), (true, .read 12000)]
        ⟨smallFs, fun _ => { fOpened smallFs smallEntry 0 with objsize := 20000 }⟩ = some s' := by
  refine ⟨by decide +kernel, by decide +kernel, ?_⟩
  have first : ldClust smallFs smallEntry ≠ 0 := by decide
  have grounded : (⟨smallFs, fun _ : Bool => { fOpened smallFs smallEntry 0 with objsize := 20000 }⟩ : Files Bool).Grounded
      smallVolume := ⟨rfl, fun _ => ⟨first, fun moved => absurd moved (Nat.lt_irrefl 0)⟩⟩
  obtain ⟨s', run, run', -⟩ := Files.run_confined smallVolume_laid (smallVolume_sameOn cyclicDisk) grounded
    [(true, .read 10), (false, .lseek 15000), (true, .read 12000)]
  exact ⟨s', run, run'⟩

end Runs

end OffLineProgrammer.Fatfs
