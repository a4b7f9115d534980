-- SUMMARY: The loop of `rk_upgrade_packet` over the images: which images it gets to, what it performs, and when it reports success.
import LinuxOta.Upgrade.Partition

namespace LinuxOta.Upgrade

/-! # The images of a packet -/

section
variable (g : FlashCtrl) (image : Part → ImageAnswers) (dir : String) (slot : Slot)
  (files : String → Option Bytes)

/-- The file image `p` is taken from. -/
abbrev imageFile (p : Part) : Option Bytes := files (srcPath dir p)

/-- No failure is reported for image `p`. -/
def Passes (p : Part) : Prop := (image p).Passes g (imageFile dir files p)

/-- The loop over `ps` gets to image `p`: every image before it passes. -/
def Attempts (ps : List Part) (p : Part) : Prop :=
  p ∈ ps ∧ ∀ q ∈ ps.takeWhile (· ≠ p), Passes g image dir files q

/-- The runs of the loop over the images: from return code `ret` and contents `devs` it
performs `acts` and ends with `ret'` and `devs'`. -/
inductive ImagesRun : List Part → Int → (String → Content) → List Event → Int → (String → Content) →
    Prop where
  | done {ret : Int} {devs : String → Content} : ImagesRun [] ret devs [] ret devs
  | stopped {p : Part} {ps : List Part} {ret : Int} {devs : String → Content} {o : ImageOutcome}
      (hrun : ImageRun g (image p) (srcPath dir p) (destPath p slot.other) (imageFile dir files p) o)
      (hret : o.ret < 0) :
    ImagesRun (p :: ps) ret devs o.acts o.ret
      (Function.update devs (destPath p slot.other) (o.store (devs (destPath p slot.other))))
  | next {p : Part} {ps : List Part} {ret ret' : Int} {devs devs' : String → Content}
      {o : ImageOutcome} {acts : List Event}
      (hrun : ImageRun g (image p) (srcPath dir p) (destPath p slot.other) (imageFile dir files p) o)
      (hret : 0 ≤ o.ret)
      (rest : ImagesRun ps o.ret
        (Function.update devs (destPath p slot.other) (o.store (devs (destPath p slot.other))))
        acts ret' devs') :
    ImagesRun (p :: ps) ret devs (o.acts ++ acts) ret' devs'

end

variable {g : FlashCtrl} {image : Part → ImageAnswers} {dir : String} {slot : Slot}
  {files : String → Option Bytes}

theorem attempts_head (p : Part) (ps : List Part) : Attempts g image dir files (p :: ps) p :=
  ⟨List.mem_cons_self, by simp⟩

theorem attempts_cons_of_ne {p q : Part} {ps : List Part} (hne : q ≠ p) :
    Attempts g image dir files (q :: ps) p ↔
      Passes g image dir files q ∧ Attempts g image dir files ps p := by
  simp only [Attempts, List.mem_cons, Ne.symm hne, false_or, List.takeWhile_cons, ne_eq, hne,
    not_false_eq_true, decide_true, ↓reduceIte, forall_eq_or_imp]
  exact and_left_comm

variable (image dir slot) in
/-- The loop of the source runs as described; an image is removed only after it was
processed. -/
theorem partitions_run {ps : List Part} (hnodup : ps.Nodup) (ret : Int) {m : Machine}
    (hfiles : ∀ p ∈ ps, m.files (srcPath dir p) = imageFile dir files p) :
    ∃ acts ret' devs', ImagesRun g image dir slot files ps ret m.devs acts ret' devs' ∧
      (partitions g image dir slot ps ret m).1 = ret' ∧
      m.Performs (partitions g image dir slot ps ret m).2 acts ∧
      (partitions g image dir slot ps ret m).2.devs = devs' := by
  induction ps generalizing ret m with
  | nil => exact ⟨[], ret, m.devs, .done, rfl, .refl m, rfl⟩
  | cons p ps ih =>
    obtain ⟨o, hrun, hret, heff⟩ :=
      partition_run (g := g) (a := image p) dir (m := m) (p := p) (s := slot.other)
    rw [hfiles p List.mem_cons_self] at hrun
    simp only [partitions]
    by_cases hneg : o.ret < 0
    · refine ⟨_, _, _, .stopped hrun hneg, ?_⟩
      simp only [hret, hneg, ↓reduceIte, true_and]
      exact ⟨heff.performs, heff.devs⟩
    · obtain ⟨hnot, hnodup⟩ := List.nodup_cons.mp hnodup
      have hfiles' : ∀ q ∈ ps, (partition g (image p) dir p (destPath p slot.other) m).2.files
          (srcPath dir q) = imageFile dir files q := by
        intro q hq
        have hne : srcPath dir q ≠ srcPath dir p := fun h => hnot (srcPath_injective h ▸ hq)
        rw [heff.files, Function.update_of_ne hne]
        exact hfiles q (List.mem_cons_of_mem _ hq)
      obtain ⟨acts, ret', devs', hruns, hret', hperf, hdevs⟩ :=
        ih hnodup o.ret hfiles'
      rw [heff.devs] at hruns
      refine ⟨_, _, _, .next hrun (Int.not_lt.mp hneg) hruns, ?_⟩
      simp only [hret, hneg, ↓reduceIte]
      exact ⟨hret', heff.performs.trans hperf, hdevs⟩

namespace ImagesRun

variable {ps : List Part} {ret ret' : Int} {devs devs' : String → Content} {acts : List Event}

/-- The acts of the loop are those for the images it gets to. -/
theorem mem_acts (h : ImagesRun g image dir slot files ps ret devs acts ret' devs') {e : Event}
    (he : e ∈ acts) :
    ∃ p o, Attempts g image dir files ps p ∧ e ∈ o.acts ∧
      ImageRun g (image p) (srcPath dir p) (destPath p slot.other) (imageFile dir files p) o := by
  induction h with
  | done => simp at he
  | @stopped p ps ret devs o hrun hret =>
    exact ⟨p, o, attempts_head p ps, he, hrun⟩
  | @next p ps ret ret' devs devs' o acts hrun hret rest ih =>
    rcases List.mem_append.mp he with he | he
    · exact ⟨p, o, attempts_head p ps, he, hrun⟩
    · obtain ⟨q, o', hq, he', hrun'⟩ := ih he
      by_cases hpq : p = q
      · subst hpq
        exact ⟨p, o', attempts_head p ps, he', hrun'⟩
      · exact ⟨q, o', (attempts_cons_of_ne hpq).mpr ⟨hrun.ret_nonneg_iff.mp hret, hq⟩, he', hrun'⟩

/-- The loop erases and writes partitions of the other slot only. -/
theorem target_of_mem (h : ImagesRun g image dir slot files ps ret devs acts ret' devs') {e : Event}
    (he : e ∈ acts) : ∃ p, e.target = some (destPath p slot.other) := by
  obtain ⟨p, o, -, he', hrun⟩ := h.mem_acts he
  exact ⟨p, hrun.target_of_mem he'⟩

/-- Every image the loop gets to is processed. -/
theorem attempted (h : ImagesRun g image dir slot files ps ret devs acts ret' devs') {p : Part}
    (hp : Attempts g image dir files ps p) :
    ∃ o, (∀ e ∈ o.acts, e ∈ acts) ∧
      ImageRun g (image p) (srcPath dir p) (destPath p slot.other) (imageFile dir files p) o := by
  induction h with
  | done => simp [Attempts] at hp
  | @stopped q ps ret devs o hrun hret =>
    by_cases hpq : q = p
    · subst hpq
      exact ⟨o, fun e he => he, hrun⟩
    · have hq := ((attempts_cons_of_ne hpq).mp hp).1
      exact absurd (hrun.ret_nonneg_iff.mpr hq) (Int.not_le.mpr hret)
  | @next q ps ret ret' devs devs' o acts hrun hret rest ih =>
    by_cases hpq : q = p
    · subst hpq
      exact ⟨o, fun e he => List.mem_append_left _ he, hrun⟩
    · obtain ⟨o', hacts, hrun'⟩ := ih ((attempts_cons_of_ne hpq).mp hp).2
      exact ⟨o', fun e he => List.mem_append_right _ (hacts e he), hrun'⟩

/-- The loop succeeds exactly when every image passes. -/
theorem ret_nonneg_iff (h : ImagesRun g image dir slot files ps ret devs acts ret' devs')
    (hret : 0 ≤ ret) : 0 ≤ ret' ↔ ∀ p ∈ ps, Passes g image dir files p := by
  induction h with
  | done => simp [hret]
  | @stopped p ps ret devs o hrun hneg =>
    refine iff_of_false (Int.not_le.mpr hneg) fun hall => ?_
    have hpass := hrun.ret_nonneg_iff.mpr (hall p List.mem_cons_self)
    exact absurd hpass (Int.not_le.mpr hneg)
  | @next p ps ret ret' devs devs' o acts hrun hnonneg rest ih =>
    rw [ih hnonneg, List.forall_mem_cons]
    exact (and_iff_right (hrun.ret_nonneg_iff.mp hnonneg)).symm

/-- Only the partitions of the other slot change. -/
theorem devs_of_ne (h : ImagesRun g image dir slot files ps ret devs acts ret' devs')
    {path : String} (hpath : ∀ p, path ≠ destPath p slot.other) : devs' path = devs path := by
  induction h with
  | done => rfl
  | @stopped p ps ret devs o hrun hneg => exact Function.update_of_ne (hpath p) _ _
  | @next p ps ret ret' devs devs' o acts hrun hnonneg rest ih =>
    rw [ih, Function.update_of_ne (hpath p)]

/-- A partition of the other slot changes with its own image only. -/
theorem devs_of_not_mem (h : ImagesRun g image dir slot files ps ret devs acts ret' devs')
    {p : Part} (hp : p ∉ ps) : devs' (destPath p slot.other) = devs (destPath p slot.other) := by
  induction h with
  | done => rfl
  | @stopped q ps ret devs o hrun hneg =>
    have hne : destPath p slot.other ≠ destPath q slot.other :=
      fun h => hp (List.mem_cons.mpr (.inl (destPath_injective h).1))
    exact Function.update_of_ne hne _ _
  | @next q ps ret ret' devs devs' o acts hrun hnonneg rest ih =>
    have hne : destPath p slot.other ≠ destPath q slot.other :=
      fun h => hp (List.mem_cons.mpr (.inl (destPath_injective h).1))
    rw [ih fun hmem => hp (List.mem_cons_of_mem _ hmem), Function.update_of_ne hne]

/-- After a loop that succeeds every partition is as its image left it. -/
theorem devs_of_nonneg (h : ImagesRun g image dir slot files ps ret devs acts ret' devs')
    (hnodup : ps.Nodup) (hret : 0 ≤ ret') {p : Part} (hp : p ∈ ps) :
    ∃ o, 0 ≤ o.ret ∧ devs' (destPath p slot.other) = o.store (devs (destPath p slot.other)) ∧
      ImageRun g (image p) (srcPath dir p) (destPath p slot.other) (imageFile dir files p) o := by
  induction h with
  | done => simp at hp
  | @stopped q ps ret devs o hrun hneg => exact absurd hret (Int.not_le.mpr hneg)
  | @next q ps ret ret' devs devs' o acts hrun hnonneg rest ih =>
    obtain ⟨hnot, hnodup⟩ := List.nodup_cons.mp hnodup
    by_cases hpq : p = q
    · subst hpq
      exact ⟨o, hnonneg, by rw [rest.devs_of_not_mem hnot, Function.update_self], hrun⟩
    · obtain ⟨o', hret', hdevs, hrun'⟩ := ih hnodup hret ((List.mem_cons.mp hp).resolve_left hpq)
      have hne : destPath p slot.other ≠ destPath q slot.other :=
        fun h => hpq (destPath_injective h).1
      exact ⟨o', hret', by rw [hdevs, Function.update_of_ne hne], hrun'⟩

end ImagesRun
end LinuxOta.Upgrade
