-- SUMMARY: `miscUpdate` on block devices: a call that returns 0 has copied every image it found, whole, and switched the slot.
import LinuxOta.Ota.ImageCopy
import LinuxOta.Ota.MiscImages

namespace LinuxOta.Bootloader

/-! # Updates of block devices -/

section
variable {a : BlockWriteAnswers} {img : Bytes} {partSize : Nat} {s s' : CopyState} {size : Nat} {dest : Content}

/-- At every turn the device is as it was, with the copied part of the image written over it. -/
theorem Copied.next_dest (hs : Copied img size s) (hdest : s.dest = dest.overwrite 0 (img.take s.srcPos))
    (h : blockWriteTurn a img partSize s = .inl s') : s'.dest = dest.overwrite 0 (img.take s'.srcPos) := by
  obtain ⟨n, k, hn, hk, -, -, himg, -, rfl⟩ := blockWriteTurn_next h
  obtain rfl : k = n := by rw [hn, hk, hs.remain]
  have hbefore : (img.take s.srcPos).length = s.srcPos := List.length_take_of_le hs.inImage
  have hlen : ((img.drop s.srcPos).take k).length = k := by
    rw [List.length_take, List.length_drop]
    omega
  have happend := Content.overwrite_append dest 0 (img.take s.srcPos) ((img.drop s.srcPos).take k)
  rw [hbefore, Nat.zero_add, ← hdest, ← List.take_add] at happend
  show s.dest.overwrite s.destPos _ = dest.overwrite 0 (img.take (s.srcPos + k))
  rw [List.take_left' hlen, ← hs.pos, happend]

/-- A `block_write` that returns 0 has written the image over the beginning of the device. -/
theorem blockWrite_overwrites (h : (blockWrite a img partSize img.length dest).1 = 0) :
    (blockWrite a img partSize img.length dest).2 = dest.overwrite 0 img := by
  have hloop : blockWrite a img partSize img.length dest =
      blockWriteLoop a img partSize img.length (.start img.length dest) := by
    unfold blockWrite at h ⊢
    cases hopenSrc : a.openSrc <;> cases hseekSrc : a.seekSrc <;> cases hopenDest : a.openDest <;>
      cases hseekDest : a.seekDest <;> simp_all
  have hends : Loop.Ends (blockWriteTurn a img partSize) (.start img.length dest)
      (blockWrite a img partSize img.length dest) := by
    rw [hloop]
    exact blockWriteLoop_ends (Nat.le_refl _)
  obtain ⟨s, hreach, hstop⟩ := hends.exists_reaches
  obtain ⟨hcopied, hdest⟩ := hreach.invariant
    (I := fun s => Copied img img.length s ∧ s.dest = dest.overwrite 0 (img.take s.srcPos))
    (fun _ _ hs hturn => ⟨hs.1.next hturn, hs.1.next_dest hs.2 hturn⟩)
    ⟨copied_start img img.length dest, rfl⟩
  rcases blockWriteTurn_stop hstop with hret | ⟨-, hstopped, hdone⟩
  · exact absurd (h.symm.trans hret) (by decide)
  · have hsize := hcopied.size
    have hremain := hcopied.remain
    have hall : s.srcPos = img.length := by omega
    rw [hstopped, hdest, hall, List.take_length]

end

/-- What a `miscUpdate` on block devices finds. -/
structure BlockUpdate where
  md5 : Md5
  system : String → (String → Option Bytes) → Int × (String → Option Bytes)
  read : MiscReadAnswer
  access : Site → Bool
  image : Site → BlockImageAnswers
  activity : SlotAnswers

namespace BlockUpdate

/-- The image that is found for a site after `tar`. -/
def found (u : BlockUpdate) (args : UpdateArgs) (m : Machine) (site : Site) : Option Bytes :=
  if u.access site then
    (u.system (args.unpackCmd (args.tarPath.getD "")) m.files).2 (site.srcPath (saveDirectory args.saveDir))
  else none

/-- The answers of the calls, with `block_write` and `comparefile` among them. -/
def answers (u : BlockUpdate) (args : UpdateArgs) (slot : Slot) (m : Machine) : MiscUpdateAnswers where
  system := u.system
  read := u.read
  access := u.access
  image := fun site => (u.image site).image u.md5 (site.destPath slot.other) ((u.found args m site).getD [])
    (m.devs (site.destPath slot.other))
  activity := u.activity

variable {u : BlockUpdate} {args : UpdateArgs} {m : Machine} {slot : Slot} {tarPath : String}

/-- An image that is found is what `flash_write` finds. -/
theorem finds_eq (htar : args.tarPath = some tarPath) (site : Site) :
    (u.answers args slot m).finds (saveDirectory args.saveDir)
      ((u.answers args slot m).afterTar args tarPath m).files site = (u.found args m site).isSome := by
  rw [found, htar]
  show (u.access site && _) = _
  cases u.access site with
  | false => rfl
  | true => rfl

theorem image_eq {site : Site} {img : Bytes} (hfound : u.found args m site = some img) :
    (u.answers args slot m).image site = (u.image site).image u.md5 (site.destPath slot.other) img
      (m.devs (site.destPath slot.other)) := by
  simp only [answers, hfound, Option.getD_some]

end BlockUpdate

/-- A `miscUpdate` that returns 0, in its steps. -/
theorem UpdateArgs.run_success {host : Endian} {a : MiscUpdateAnswers} {args : UpdateArgs} {m : Machine}
    (hret : (args.run host a m).1 = 0) :
    ∃ tarPath, args.tarPath = some tarPath ∧
      (flashWrite a (saveDirectory args.saveDir) (args.updatePartition.getD "all") args.extraPartition
        (a.afterTar args tarPath m)).1 = 0 ∧
      (args.run host a m).2 = (setSlotActivity host a.activity (flashWrite a (saveDirectory args.saveDir)
        (args.updatePartition.getD "all") args.extraPartition (a.afterTar args tarPath m)).2).2 := by
  cases htar : args.tarPath with
  | none => exact absurd hret (by simp [UpdateArgs.run, miscUpdate, htar])
  | some tarPath =>
    rw [UpdateArgs.run_eq htar] at hret ⊢
    refine ⟨tarPath, rfl, ?_⟩
    split at hret
    · exact absurd hret (by simp)
    next hstatus =>
    rw [if_neg hstatus]
    dsimp only at hret ⊢
    split at hret
    · exact absurd hret (by simp)
    next hwrite =>
    rw [if_neg hwrite]
    refine ⟨not_not.mp hwrite, ?_⟩
    split <;> rfl

/-- A `miscUpdate` on block devices that returns 0, and whose seeks in misc went through, has
written every image that it found over the beginning of its partition on the other slot, has left all
other devices, and makes the other slot the one to start. -/
theorem blockUpdate_success {host : Endian} {u : BlockUpdate} {args : UpdateArgs} {m : Machine} {slot : Slot}
    (hslot : m.record.Selects slot) (hextra : ∀ part, args.extraPartition ≠ some (Part.name part))
    (hret : (args.run host (u.answers args slot m) m).1 = 0) :
    ∃ parts, partsNamed (args.updatePartition.getD "all") = some parts ∧
      (∀ site ∈ sitesOf parts args.extraPartition,
        (args.run host (u.answers args slot m) m).2.devs (site.destPath slot.other) =
          match u.found args m site with
          | some img => (m.devs (site.destPath slot.other)).overwrite 0 img
          | none => m.devs (site.destPath slot.other)) ∧
      (∀ path, path ≠ miscPath → (∀ site ∈ sitesOf parts args.extraPartition, path ≠ site.destPath slot.other) →
        (args.run host (u.answers args slot m) m).2.devs path = m.devs path) ∧
      (args.run host (u.answers args slot m) m).2.record = (m.record.switchFrom slot).refreshCrc ∧
      (args.run host (u.answers args slot m) m).2.record.Selects slot.other := by
  obtain ⟨tarPath, htar, himages, hrun⟩ := UpdateArgs.run_success hret
  obtain ⟨s, -, -, -, -, -, -, -, -, hrecord⟩ := miscUpdate_run host (a := u.answers args slot m) (m := m) args
  obtain ⟨hs, hrecord⟩ := hrecord hret
  rw [hslot.unique hs] at hrecord
  rcases flashWrite_cases (a := u.answers args slot m) (saveDirectory args.saveDir)
    (args.updatePartition.getD "all") args.extraPartition ((u.answers args slot m).afterTar args tarPath m) with
    heq | ⟨s', parts, -, hs', hparts, heq⟩
  · rw [heq] at himages
    exact absurd himages (by simp)
  rw [heq, hslot.unique hs'] at himages hrun
  -- the record is written behind the images
  have hdevs : ∀ path, path ≠ miscPath → (args.run host (u.answers args slot m) m).2.devs path =
      (flashWriteImages (u.answers args slot m) (saveDirectory args.saveDir) slot (sitesOf parts args.extraPartition)
        (((u.answers args slot m).afterTar args tarPath m).log (.flashRead miscPath metaDataOffset 32))).2.devs path := by
    intro path hpath
    rw [hrun, (setSlotActivity_effect host).devs, Function.update_of_ne hpath]
  refine ⟨parts, hparts, fun site hsite => ?_, fun path hmisc hpath => ?_, hrecord, ?_⟩
  · have hnodup : ((sitesOf parts args.extraPartition).map Site.name).Nodup := by
      refine sitesOf_nodup (partsNamed_nodup hparts) fun name p hname heq => ?_
      exact hextra p (heq ▸ hname)
    obtain ⟨hwrite, hcontent⟩ := flashWriteImages_content _ _ himages hnodup site hsite
    have hfinds : (u.answers args slot m).finds (saveDirectory args.saveDir)
        (((u.answers args slot m).afterTar args tarPath m).log (.flashRead miscPath metaDataOffset 32)).files
        site = (u.found args m site).isSome := BlockUpdate.finds_eq htar site
    rw [hdevs _ (site.destPath_ne_miscPath _), hcontent]
    cases hfound : u.found args m site with
    | none =>
      rw [hfound] at hfinds
      rw [if_neg (ne_true_of_eq_false hfinds)]
      rfl
    | some img =>
      rw [hfound, Option.isSome_some] at hfinds
      have hzero := hwrite hfinds
      rw [BlockUpdate.image_eq hfound] at hzero
      rw [if_pos hfinds, BlockUpdate.image_eq hfound]
      exact blockWrite_overwrites hzero
  · rw [hdevs path hmisc, (flashWriteImages_frame _ _).1 path hpath]
    rfl
  · rw [hrecord, AbData.selects_congr (AbData.slots_refreshCrc _) (AbData.lastBoot_refreshCrc _)]
    exact m.record.switchFrom_selects slot

/-- Nothing fails in an update of the boot image. -/
def BlockUpdate.healthy : BlockUpdate where
  md5 := sampleMd5
  system := bootUpdateAnswers.system
  read := .filled
  access := fun _ => true
  image := fun _ => .healthy
  activity := ⟨.filled, .stored⟩

theorem blockUpdate_success_boot :
    ∃ parts, partsNamed "boot" = some parts ∧
      (bootUpdateArgs.run .little (BlockUpdate.healthy.answers bootUpdateArgs .a (deviceOn .a))
        (deviceOn .a)).2.record.Selects .b := by
  have hslot : (deviceOn .a).record.Selects .a := by decide +kernel
  have hextra : ∀ part, bootUpdateArgs.extraPartition ≠ some (Part.name part) := fun part h => nomatch h
  have hret : (bootUpdateArgs.run .little (BlockUpdate.healthy.answers bootUpdateArgs .a (deviceOn .a))
      (deviceOn .a)).1 = 0 := by decide +kernel
  obtain ⟨parts, hparts, -, -, -, hselects⟩ := blockUpdate_success hslot hextra hret
  exact ⟨parts, hparts, hselects⟩

end LinuxOta.Bootloader
