-- SUMMARY: What `flash_write` leaves on the partitions.
import LinuxOta.Ota.MiscUpdate
import LinuxOta.Upgrade.Partition

namespace LinuxOta.Bootloader

/-! # The images of miscUpdate -/

theorem Site.destPath_name {site site' : Site} {s : Slot} (h : site.destPath s = site'.destPath s) :
    site.name = site'.name := by
  have hlist : ("/dev/block/by-name/" ++ site.name).toList ++ ['_', s.suffix] =
      ("/dev/block/by-name/" ++ site'.name).toList ++ ['_', s.suffix] := by
    rw [← toList_suffixed, ← toList_suffixed]
    exact congrArg String.toList h
  have hfront := List.append_cancel_right hlist
  rw [String.toList_append, String.toList_append] at hfront
  exact String.toList_injective (List.append_cancel_left hfront)

theorem Site.srcPath_name {site site' : Site} {imageDir : String}
    (h : site.srcPath imageDir = site'.srcPath imageDir) : site.name = site'.name := by
  have hlist : imageDir.toList ++ "/".toList ++ site.name.toList ++ ".img".toList =
      imageDir.toList ++ "/".toList ++ site'.name.toList ++ ".img".toList := by
    rw [← String.toList_append, ← String.toList_append, ← String.toList_append, ← String.toList_append,
      ← String.toList_append]
    exact congrArg String.toList h
  exact String.toList_injective (List.append_cancel_left (List.append_cancel_right hlist))

/-- The image of a site is found. -/
def MiscUpdateAnswers.finds (a : MiscUpdateAnswers) (imageDir : String) (files : String → Option Bytes)
    (site : Site) : Bool :=
  a.access site && (files (site.srcPath imageDir)).isSome

variable {a : MiscUpdateAnswers} {m : Machine} {imageDir : String} {slot : Slot}

/-- `flash_write_partition` changes one partition, and removes at most the image. -/
theorem flashWritePartition_effect (b : ImageWriteAnswers) (dest : String) {src : String}
    (hexists : (m.files src).isSome = true) :
    let r := flashWritePartition b src dest m
    r.2.devs = (if b.stat then Function.update m.devs dest (b.left (m.devs dest)) else m.devs) ∧
      (∀ url, url ≠ src → r.2.files url = m.files url) ∧ (r.1 = 0 → b.stat = true ∧ b.write = 0) := by
  cases hstat : b.stat with
  | false => simp [flashWritePartition, hstat]
  | true =>
    simp only [flashWritePartition, hstat, hexists, Bool.and_self, Bool.not_true, Bool.false_eq_true, ↓reduceIte,
      true_and]
    by_cases hwrite : b.write = 0
    swap
    · rw [if_pos hwrite]
      exact ⟨rfl, fun _ _ => rfl, fun hret => hret⟩
    rw [if_neg (not_not_intro hwrite)]
    split
    · exact ⟨rfl, fun _ _ => rfl, fun _ => hwrite⟩
    split
    · exact ⟨rfl, fun url hne => Function.update_of_ne hne _ _, fun _ => hwrite⟩
    · exact ⟨rfl, fun _ _ => rfl, fun _ => hwrite⟩

/-- Only partitions of the sites are changed, and none where no image is handed to a write. -/
theorem flashWriteImages_frame (sites : List Site) :
    ∀ m : Machine, (∀ path, (∀ site ∈ sites, path ≠ site.destPath slot.other) →
        (flashWriteImages a imageDir slot sites m).2.devs path = m.devs path) ∧
      (a.handsImage imageDir sites m.files = false → (flashWriteImages a imageDir slot sites m).2.devs = m.devs) := by
  induction sites with
  | nil => exact fun m => ⟨fun _ _ => rfl, fun _ => rfl⟩
  | cons site sites ih =>
    intro m
    cases hfound : a.access site && (m.files (site.srcPath imageDir)).isSome with
    | false =>
      have hhands : a.handsImage imageDir (site :: sites) m.files = a.handsImage imageDir sites m.files := by
        simp only [MiscUpdateAnswers.handsImage, List.find?_cons, hfound]
      rw [flashWriteImages, hfound, hhands]
      exact ⟨fun path hpath => (ih m).1 path fun site' h => hpath site' (List.mem_cons_of_mem _ h), (ih m).2⟩
    | true =>
      have hexists : (m.files (site.srcPath imageDir)).isSome = true := by
        simp only [Bool.and_eq_true] at hfound
        exact hfound.2
      have hhands : a.handsImage imageDir (site :: sites) m.files = (a.image site).stat := by
        simp [MiscUpdateAnswers.handsImage, hfound]
      obtain ⟨hdevs, -, hstat⟩ := flashWritePartition_effect (a.image site) (site.destPath slot.other) hexists
      rw [flashWriteImages, hfound, hhands]
      simp only [↓reduceIte]
      generalize flashWritePartition (a.image site) (site.srcPath imageDir) (site.destPath slot.other) m = r at *
      have hone : ∀ path, path ≠ site.destPath slot.other → r.2.devs path = m.devs path := by
        intro path hpath
        rw [hdevs]
        split
        · exact Function.update_of_ne hpath _ _
        · rfl
      by_cases hret : r.1 = 0
      · rw [if_neg (not_not_intro hret)]
        refine ⟨fun path hpath => ?_, fun hnone => absurd (hstat hret).1 (by simp [hnone])⟩
        rw [(ih r.2).1 path fun site' h => hpath site' (List.mem_cons_of_mem _ h)]
        exact hone path (hpath site List.mem_cons_self)
      · rw [if_pos hret]
        refine ⟨fun path hpath => hone path (hpath site List.mem_cons_self), fun hnone => ?_⟩
        rw [hdevs, hnone]
        rfl

/-- Where all goes through, so does the write of every image that was found, and the partition
holds what it has left. -/
theorem flashWriteImages_content (sites : List Site) :
    ∀ m : Machine, (flashWriteImages a imageDir slot sites m).1 = 0 → (sites.map Site.name).Nodup →
      ∀ site ∈ sites, (a.finds imageDir m.files site = true → (a.image site).write = 0) ∧
        (flashWriteImages a imageDir slot sites m).2.devs (site.destPath slot.other) =
          if a.finds imageDir m.files site then (a.image site).left (m.devs (site.destPath slot.other))
          else m.devs (site.destPath slot.other) := by
  induction sites with
  | nil =>
    intro m _ _ site hmem
    exact absurd hmem (List.not_mem_nil)
  | cons head sites ih =>
    intro m hret hnodup
    rw [List.map_cons, List.nodup_cons] at hnodup
    obtain ⟨hnew, hnodup⟩ := hnodup
    have hname : ∀ site ∈ sites, site.name ≠ head.name := fun site hmem heq =>
      hnew (heq ▸ List.mem_map_of_mem hmem)
    have hbehind : ∀ m' : Machine, (flashWriteImages a imageDir slot sites m').2.devs (head.destPath slot.other) =
        m'.devs (head.destPath slot.other) := fun m' =>
      (flashWriteImages_frame sites m').1 _ fun site hmem heq => hname site hmem (Site.destPath_name heq).symm
    rw [flashWriteImages] at hret ⊢
    rw [List.forall_mem_cons]
    cases hfound : a.access head && (m.files (head.srcPath imageDir)).isSome with
    | false =>
      simp only [hfound, Bool.false_eq_true, ↓reduceIte] at hret ⊢
      refine ⟨?_, ih m hret hnodup⟩
      rw [hbehind, MiscUpdateAnswers.finds, hfound]
      exact ⟨fun h => absurd h (by decide), rfl⟩
    | true =>
      have hexists : (m.files (head.srcPath imageDir)).isSome = true := by
        simp only [Bool.and_eq_true] at hfound
        exact hfound.2
      obtain ⟨hdevs, hfiles, hstat⟩ := flashWritePartition_effect (a.image head) (head.destPath slot.other) hexists
      simp only [hfound, ↓reduceIte] at hret ⊢
      generalize flashWritePartition (a.image head) (head.srcPath imageDir) (head.destPath slot.other) m = r at *
      by_cases hzero : r.1 = 0
      swap
      · rw [if_pos hzero] at hret
        exact absurd hret (by simp)
      rw [if_neg (not_not_intro hzero)] at hret ⊢
      rw [(hstat hzero).1, if_pos rfl] at hdevs
      refine ⟨⟨fun _ => (hstat hzero).2, ?_⟩, fun site hmem => ?_⟩
      · rw [hbehind, hdevs, Function.update_self, MiscUpdateAnswers.finds, hfound]
        rfl
      · have hdest : site.destPath slot.other ≠ head.destPath slot.other := fun heq =>
          hname site hmem (Site.destPath_name heq)
        have hsrc : site.srcPath imageDir ≠ head.srcPath imageDir := fun heq =>
          hname site hmem (Site.srcPath_name heq)
        have hrest := ih r.2 hret hnodup site hmem
        rw [hdevs, Function.update_of_ne hdest, MiscUpdateAnswers.finds, hfiles _ hsrc] at hrest
        exact hrest

/-! ## flash_write -/

/-- The sites `flash_write` looks at. -/
def sitesOf (parts : List Part) (extraPartition : Option String) : List Site :=
  parts.map .part ++ (extraPartition.map .extra).toList

/-- `flash_write` fails before it looks for an image, or goes through the sites. -/
theorem flashWrite_cases (imageDir partition : String) (extraPartition : Option String) (m : Machine) :
    flashWrite a imageDir partition extraPartition m = (-1, m.log (.flashRead miscPath metaDataOffset 32)) ∨
      ∃ slot parts, a.read = .filled ∧ m.record.Selects slot ∧ partsNamed partition = some parts ∧
        flashWrite a imageDir partition extraPartition m = flashWriteImages a imageDir slot
          (sitesOf parts extraPartition) (m.log (.flashRead miscPath metaDataOffset 32)) := by
  by_cases hread : a.read = .filled
  swap
  · exact .inl (by simp only [flashWrite, readABMisc_failed hread])
  cases hslot : getCurrentSlot m.record with
  | none => exact .inl (by simp only [flashWrite, readABMisc_filled hread, hslot])
  | some slot =>
    have hselects : m.record.Selects slot := by
      rw [getCurrentSlot_eq] at hslot
      exact hslot
    cases hparts : partsNamed partition with
    | none => exact .inl (by simp only [flashWrite, readABMisc_filled hread, hslot, hparts])
    | some parts =>
      refine .inr ⟨slot, parts, hread, hselects, rfl, ?_⟩
      simp only [flashWrite, readABMisc_filled hread, hslot, hparts, sitesOf]

theorem Part.name_injective : Function.Injective Part.name := by
  intro p q h
  cases p <;> cases q <;> first | rfl | exact absurd h (by decide)

theorem partsNamed_nodup {partition : String} {parts : List Part} (h : partsNamed partition = some parts) :
    parts.Nodup := by
  unfold partsNamed at h
  split at h
  · obtain rfl := Option.some.inj h
    decide
  split at h
  · obtain rfl := Option.some.inj h
    exact List.nodup_singleton _
  split at h
  · obtain rfl := Option.some.inj h
    exact List.nodup_singleton _
  split at h
  · obtain rfl := Option.some.inj h
    exact List.nodup_singleton _
  · exact absurd h (by simp)

theorem sitesOf_nodup {parts : List Part} {extraPartition : Option String} (hparts : parts.Nodup)
    (hextra : ∀ name p, extraPartition = some name → name ≠ Part.name p) :
    ((sitesOf parts extraPartition).map Site.name).Nodup := by
  have hnames : ((parts.map Site.part).map Site.name).Nodup := by
    rw [List.map_map]
    exact hparts.map Part.name_injective
  rw [sitesOf, List.map_append]
  cases extraPartition with
  | none => simpa using hnames
  | some name =>
    refine List.Nodup.append hnames (List.nodup_singleton _) ?_
    intro n hn hn'
    simp only [List.map_map, List.mem_map, Function.comp_apply] at hn
    obtain ⟨p, -, rfl⟩ := hn
    exact hextra name p rfl (List.mem_singleton.mp hn').symm

theorem Site.destPath_part (p : Part) (s : Slot) : (Site.part p).destPath s = LinuxOta.destPath p s := by
  cases p <;> cases s <;> decide

end LinuxOta.Bootloader
