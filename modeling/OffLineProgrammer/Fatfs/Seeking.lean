import OffLineProgrammer.Fatfs.Reading

/-!
# Seeking

`f_lseek` brings the object to a place of the file, from the cluster where it is or from the
first one. An open object is then a cursor on the content: any run of calls delivers what the
same run delivers from a list of bytes and a position.
-/

namespace OffLineProgrammer.Fatfs
set_option autoImplicit false
open OffLineProgrammer.Lib OffLineProgrammer.Storage

section Seeks

variable {m : Mem} {vol : Volume} {start size k p e x : Nat} {clusters : List Nat} {fs : FATFS} {fp : FIL} {s : Seeking}

/-- The mask of `f_lseek` takes the place within a cluster away. -/
theorem and_not_mask (short : e ≤ 32) (small : x < 2 ^ 32) : x &&& (2 ^ 32 - 1 - (2 ^ e - 1)) = 2 ^ e * (x / 2 ^ e) := by
  have power : 2 ^ e ≤ 2 ^ 32 := Nat.pow_le_pow_right (by omega) short
  have positive := Nat.two_pow_pos e
  have mask : 2 ^ 32 - 1 - (2 ^ e - 1) = 2 ^ 32 - ((2 ^ e - 1) + 1) := by omega
  rw [mask]
  apply Nat.eq_of_testBit_eq
  intro i
  rw [Nat.testBit_and, Nat.testBit_two_pow_sub_succ (by omega), Nat.testBit_two_pow_sub_one, Nat.testBit_two_pow_mul,
    Nat.testBit_div_two_pow]
  by_cases low : i < e
  · have notHigh : ¬ i ≥ e := by omega
    simp [low, notHigh]
  · have high : i ≥ e := by omega
    have same : i - e + e = i := by omega
    by_cases within : i < 32
    · simp [low, high, same, within]
    · have zero : x.testBit i = false := Nat.testBit_lt_two_pow (Nat.lt_of_lt_of_le small (Nat.pow_le_pow_right (by omega) (by omega)))
      simp [same, zero]

/-- `f_lseek` on its way to place `p`: it is at the start of the `k`-th cluster. -/
structure Seeking.Going (m : Mem) (vol : Volume) (start size : Nat) (clusters : List Nat) (p k : Nat) (s : Seeking) : Prop
    extends Opened m vol start size s.fs s.fp where
  here : clusters[k]? = some s.clst
  clust : s.fp.clust = s.clst
  fptr : s.fp.fptr = vol.csize * 4096 * k
  left : s.fp.fptr + s.ofs = p
  more : 0 < s.ofs

/-- **Where `f_lseek` starts**: at the start of the current cluster, or of the file. -/
theorem fLseekStart_going (sound : vol.Sound) (file : Clusters m vol start size clusters)
    (held : Held m vol start size clusters fs fp) (some : 0 < p) (within : p ≤ size) :
    ∃ k, (fLseekStart fs fp p).Going m vol start size clusters p k := by
  have small := file.small
  have inside := held.inside
  have positive := sound.positive
  have bcs : fs.csize * fs.ssize = vol.csize * 4096 := by
    rw [held.volume, sound.ssize]
  simp only [fLseekStart, bcs]
  split
  · rename_i near
    obtain ⟨placed, follows⟩ := near
    have power : ∃ e, e ≤ 32 ∧ vol.csize * 4096 = 2 ^ e := by
      obtain ⟨e, short, csize⟩ := sound.csize
      exact ⟨e + 12, by omega, by rw [csize, Nat.pow_add]⟩
    obtain ⟨e, short, power⟩ := power
    have base : (fp.fptr - 1) &&& (2 ^ 32 - 1 - (vol.csize * 4096 - 1)) = vol.csize * 4096 * ((fp.fptr - 1) / (vol.csize * 4096)) := by
      rw [power, and_not_mask short (by omega)]
    have before : vol.csize * 4096 * ((fp.fptr - 1) / (vol.csize * 4096)) ≤ p - 1 :=
      Nat.le_trans (Nat.mul_le_mul_left _ follows) (Nat.mul_div_le _ _)
    rw [base]
    refine ⟨(fp.fptr - 1) / (vol.csize * 4096), { held.toOpened with }, held.clust placed, rfl, rfl, ?_, ?_⟩
    · change vol.csize * 4096 * ((fp.fptr - 1) / (vol.csize * 4096)) + (p - vol.csize * 4096 * ((fp.fptr - 1) / (vol.csize * 4096))) = p
      omega
    · change 0 < p - vol.csize * 4096 * ((fp.fptr - 1) / (vol.csize * 4096))
      omega
  · obtain ⟨c, here⟩ := file.has (i := 0) (by omega)
    rw [Nat.zero_div] at here
    refine ⟨0, { held.toOpened with }, ?_, rfl, (Nat.mul_zero _).symm, Nat.zero_add p, some⟩
    change clusters[0]? = Option.some fp.sclust
    rw [held.sclust, (file.first here).1, here]

/-- One round goes to the next cluster of the chain. -/
theorem fLseekPass_going (sound : vol.Sound) (file : Clusters m vol start size clusters)
    (going : s.Going m vol start size clusters p k) (within : p ≤ size) (more : vol.csize * 4096 < s.ofs) :
    ∃ s', fLseekPass m s = some (.inl s') ∧ s'.Going m vol start size clusters p (k + 1) ∧ s'.ofs < s.ofs := by
  have left := going.left
  have fptr := going.fptr
  have positive := sound.positive
  obtain ⟨-, many⟩ := sound.nFatent
  have bcs : s.fs.csize * s.fs.ssize = vol.csize * 4096 := by
    rw [going.volume, sound.ssize]
  have next : ∃ c, clusters[k + 1]? = some c := by
    obtain ⟨c, there⟩ := file.has (i := vol.csize * 4096 * (k + 1)) (by
      rw [Nat.mul_succ (vol.csize * 4096)]
      omega)
    rw [Nat.mul_div_cancel_left _ (by omega)] at there
    exact ⟨c, there⟩
  obtain ⟨c, there⟩ := next
  obtain ⟨low, high⟩ := file.isCluster there
  obtain ⟨value, coherent, volume⟩ := getFat_entry going.coherent (going.volume ▸ file.isCluster going.here)
  rw [going.volume, (file.next going.here there).1] at value
  have fatent : (getFat m s.clst s.fs).2.nFatent = vol.nFatent := by
    rw [volume, going.volume]
  refine ⟨⟨(getFat m s.clst s.fs).2, { s.fp with fptr := s.fp.fptr + vol.csize * 4096, clust := c }, s.ofs - vol.csize * 4096, c⟩,
    ?_, ⟨{ going.toOpened with volume := volume.trans going.volume, coherent := coherent }, there, rfl, ?_, ?_, ?_⟩, ?_⟩
  · simp only [fLseekPass, bcs, if_pos more, value, fatent]
    rw [if_neg (by omega), if_neg (by omega)]
  · change s.fp.fptr + vol.csize * 4096 = _
    rw [fptr, Nat.mul_succ (vol.csize * 4096)]
  · change s.fp.fptr + vol.csize * 4096 + (s.ofs - vol.csize * 4096) = p
    omega
  · change 0 < s.ofs - vol.csize * 4096
    omega
  · change s.ofs - vol.csize * 4096 < s.ofs
    omega

/-- **The loop of `f_lseek`** ends in the cluster of the place. -/
theorem fLseekLoop (sound : vol.Sound) (file : Clusters m vol start size clusters)
    (going : s.Going m vol start size clusters p k) (within : p ≤ size) :
    ∃ k s', Loop.exec (fLseekPass m) (s.ofs + 1) s = some (.ok, s') ∧ s'.Going m vol start size clusters p k ∧
      s'.ofs ≤ vol.csize * 4096 := by
  have run : ∃ r, Loop.exec (fLseekPass m) (s.ofs + 1) s = some r ∧
      (r.1 = .ok ∧ (∃ k, r.2.Going m vol start size clusters p k) ∧ r.2.ofs ≤ vol.csize * 4096) := by
    refine Loop.exec_returns (fun s : Seeking => ∃ k, s.Going m vol start size clusters p k) _
      (fun s => s.ofs) ?_ ⟨k, going⟩ (Nat.lt_succ_self s.ofs)
    rintro s ⟨k, going⟩
    by_cases more : vol.csize * 4096 < s.ofs
    · obtain ⟨s', pass, going', less⟩ := fLseekPass_going sound file going within more
      exact .inl ⟨s', pass, ⟨k + 1, going'⟩, less⟩
    · refine .inr ⟨(.ok, s), ?_, rfl, ⟨k, going⟩, Nat.le_of_not_lt more⟩
      simp only [fLseekPass, going.volume, sound.ssize, if_neg more]
  obtain ⟨⟨_, s'⟩, run, rfl, ⟨k', going'⟩, done⟩ := run
  exact ⟨k', s', run, going', done⟩

/-- The sector of the new place is buffered. -/
theorem fLseekEnd_held {nsect : Nat} (opened : Opened m vol start size fs fp) (inside : fp.fptr ≤ size)
    (clust : 0 < fp.fptr → clusters[(fp.fptr - 1) / (vol.csize * 4096)]? = some fp.clust) (ssize : fs.ssize = 4096)
    (sect : fp.fptr % 4096 ≠ 0 → nsect = clst2sect vol fp.clust + fp.fptr / 4096 % vol.csize) (small : nsect < 2 ^ 32) :
    ∃ fp', fLseekEnd m nsect fs fp = (.ok, fs, fp') ∧ Held m vol start size clusters fs fp' ∧ fp'.fptr = fp.fptr := by
  unfold fLseekEnd
  rw [ssize]
  split
  · rename_i fill
    obtain ⟨buf, filled⟩ : ∃ buf, buf = diskSector m nsect := ⟨_, rfl⟩
    rw [diskRead_one small, ← filled]
    exact ⟨_, rfl, ⟨{ opened with buf := fun _ => filled }, ⟨clust, fun _ => sect fill.1⟩, inside⟩, rfl⟩
  · rename_i filled
    refine ⟨_, rfl, ⟨opened, ⟨clust, fun inner => ?_⟩, inside⟩, rfl⟩
    have same : nsect = fp.sect := by
      by_contra other
      exact filled ⟨inner, other⟩
    rw [← same, sect inner]

/-- **`f_lseek` goes to the place**, or to the end of the file if it is smaller. -/
theorem fLseek_place (sound : vol.Sound) (file : Clusters m vol start size clusters)
    (held : Held m vol start size clusters fs fp) (ofs : Nat) :
    ∃ fs' fp', fLseek m fs fp ofs = some (.ok, fs', fp') ∧ Held m vol start size clusters fs' fp' ∧ fp'.fptr = min ofs size := by
  obtain ⟨p, place⟩ : ∃ p, p = min ofs size := ⟨_, rfl⟩
  have within : p ≤ size := by omega
  have valid := held.valid sound
  have clip : min ofs fp.objsize = p := by
    rw [held.objsize, place]
  rw [fLseek, valid, if_neg (by decide), if_neg fun failed => failed held.err]
  simp only [clip]
  rw [← place]
  by_cases top : p = 0
  · have volume := held.volume
    have moved : ∃ fp', fLseekEnd m 0 fs { fp with fptr := 0 } = (.ok, fs, fp') ∧
        Held m vol start size clusters fs fp' ∧ fp'.fptr = 0 :=
      fLseekEnd_held { held.toOpened with } (Nat.zero_le _) (fun some => absurd some (Nat.lt_irrefl 0)) (sound.mountedSize volume)
        (fun inner => absurd (Nat.zero_mod 4096) inner) (by decide)
    obtain ⟨fp', final, held', fptr⟩ := moved
    rw [if_pos top, final]
    exact ⟨fs, fp', rfl, held', fptr.trans top.symm⟩
  · obtain ⟨k, going⟩ := fLseekStart_going sound file held (by omega) within
    obtain ⟨low, -⟩ := file.isCluster going.here
    obtain ⟨k', s, run, going', last⟩ := fLseekLoop sound file going within
    have left := going'.left
    have more := going'.more
    have fptr := going'.fptr
    have clust := going'.clust
    have here := going'.here
    obtain ⟨-, positive, room⟩ := clst2sect_cluster sound (file.isCluster here)
    have ssize := sound.mountedSize going'.volume
    have before : (p - 1) / (vol.csize * 4096) = k' := by
      have inner : p - 1 = vol.csize * 4096 * k' + (s.ofs - 1) := by omega
      rw [inner, place_cluster (by omega)]
    -- the sector that is buffered, if one is
    obtain ⟨nsect, number⟩ : ∃ nsect, nsect = if s.ofs % 4096 = 0 then 0 else u32 (clst2sect vol s.clst + s.ofs / 4096) := ⟨_, rfl⟩
    have sect : p % 4096 ≠ 0 → nsect = clst2sect vol s.clst + p / 4096 % vol.csize := by
      intro inner
      have place' : p = vol.csize * 4096 * k' + 4096 * (s.ofs / 4096) + s.ofs % 4096 := by omega
      rw [place', place_mod (by omega)] at inner
      rw [place', place_sector (by omega) (by omega), number, if_neg inner, u32_of_lt (by omega)]
    have small : nsect < 2 ^ 32 := by
      rw [number]
      split
      · decide
      · exact u32_lt _
    have moved : ∃ fp', fLseekEnd m nsect s.fs { s.fp with fptr := p } = (.ok, s.fs, fp') ∧
        Held m vol start size clusters s.fs fp' ∧ fp'.fptr = p :=
      fLseekEnd_held { going'.toOpened with } within (fun _ => by rw [before, here, clust]) ssize (by rw [clust]; exact sect) small
    obtain ⟨fp', final, held', fptr'⟩ := moved
    refine ⟨s.fs, fp', ?_, held', fptr'⟩
    rw [if_neg top, if_neg (by omega), run, Option.map_some]
    simp only [left, sound.ssize, going'.volume]
    rw [if_neg (by decide), ← final, number]
    by_cases boundary : s.ofs % 4096 = 0
    · rw [if_pos boundary, if_pos boundary]
    · rw [if_neg boundary, if_neg boundary, if_neg (by omega)]

end Seeks

end OffLineProgrammer.Fatfs
