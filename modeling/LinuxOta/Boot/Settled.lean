-- SUMMARY: Settled slots: when boots alone start the same slot for ever.
import LinuxOta.Boot.Success

namespace LinuxOta

/-! # Settled slots -/

namespace AbData

variable {d : AbData} {t : Slot}

/-- Every boot to come starts slot `t`, as long as nobody writes the record but the boot
loader. -/
def Settled (d : AbData) (t : Slot) : Prop :=
  ∀ n, (booted^[n] d).Selects t

/-- Slot `t` can be booted as often as one likes. -/
def Marked (d : AbData) (t : Slot) : Prop := d.Bootable t ∧ 0 < (d.slots t).successfulBoot

/-- What keeps the selected slot `t` in its place: it is marked successful, or it has no
rival and `last_boot` names it. -/
def Seated (d : AbData) (t : Slot) : Prop :=
  d.Marked t ∨ (¬ d.Bootable t.other ∧ d.lastBoot = t.index)

theorem Settled.selects (h : d.Settled t) : d.Selects t := h 0

theorem Settled.booted (h : d.Settled t) : d.booted.Settled t := fun n => h (n + 1)

theorem Settled.unique {s : Slot} (h : d.Settled t) (h' : d.Settled s) : s = t :=
  h.selects.unique h'.selects

/-- A boot of a selected slot keeps what seats it. -/
theorem Seated.booted (h : d.Seated t) (hselects : d.Selects t) :
    d.booted.Seated t ∧ d.booted.Selects t := by
  rw [hselects.booted_eq]
  rcases h with hsucc | ⟨hother, hlast⟩
  · rw [started_of_successful hsucc.2]
    exact ⟨.inl hsucc, hselects⟩
  · have hother' : ¬ (d.started t).Bootable t.other := bootable_started_other.not.mpr hother
    have hlast' : (d.started t).lastBoot = t.index := (d.lastBoot_started t).trans hlast
    exact ⟨.inr ⟨hother', hlast'⟩, selects_of_lastBoot hother' hlast'⟩

theorem Seated.settled (h : d.Seated t) (hselects : d.Selects t) : d.Settled t := by
  intro n
  induction n generalizing d with
  | zero => exact hselects
  | succ n ih =>
    obtain ⟨hseated', hselects'⟩ := h.booted hselects
    exact ih hseated' hselects'

/-- A slot that nothing keeps in its place loses it when its tries are used up. -/
theorem Selects.lost (hselects : d.Selects t) (h : ¬ d.Seated t) :
    ∃ n, ¬ (AbData.booted^[n] d).Selects t := by
  obtain ⟨hsucc, hrival⟩ := not_or.mp h
  rcases (selects_iff d t).mp hselects with ⟨hboot, -⟩ | ⟨-, hother, hlast⟩
  swap
  · exact absurd ⟨hother, hlast⟩ hrival
  have hzero : (d.slots t).successfulBoot = 0 := by
    by_contra hne
    exact hsucc ⟨hboot, UInt8.pos_iff_ne_zero.mpr hne⟩
  generalize htries : (d.slots t).triesRemaining.toNat = k
  -- by induction on the tries: each boot takes one
  induction k generalizing d with
  | zero =>
    have hnone : ¬ 0 < (d.slots t).triesRemaining := by
      rw [UInt8.lt_iff_toNat_lt, htries]
      exact Nat.lt_irrefl 0
    exact absurd (hboot.2.resolve_left fun hpos => UInt8.pos_iff_ne_zero.mp hpos hzero) hnone
  | succ k ih =>
    by_cases hnext : (d.started t).Selects t
    swap
    · exact ⟨1, by rwa [Function.iterate_one, hselects.booted_eq]⟩
    have hzero' : ((d.started t).slots t).successfulBoot = 0 :=
      (d.successfulBoot_started t).trans hzero
    have hrival' : ¬ (¬ (d.started t).Bootable t.other ∧ (d.started t).lastBoot = t.index) := by
      rwa [bootable_started_other, lastBoot_started]
    have hsucc' : ¬ ((d.started t).Bootable t ∧ 0 < ((d.started t).slots t).successfulBoot) :=
      fun hc => UInt8.pos_iff_ne_zero.mp hc.2 hzero'
    have hboot' : (d.started t).Bootable t := by
      rcases (selects_iff _ _).mp hnext with ⟨hboot', -⟩ | ⟨-, hother, hlast⟩
      · exact hboot'
      · exact absurd ⟨hother, hlast⟩ hrival'
    have htries' : ((d.started t).slots t).triesRemaining.toNat = k := by
      rw [triesRemaining_started hzero, htries]
      exact Nat.add_sub_cancel k 1
    obtain ⟨n, hn⟩ :=
      ih hnext (not_or.mpr ⟨hsucc', hrival'⟩) hsucc' hrival' hboot' hzero' htries'
    refine ⟨n + 1, ?_⟩
    rwa [Function.iterate_succ_apply, hselects.booted_eq]

/-- The slots that boots alone start for ever. -/
theorem settled_iff : d.Settled t ↔ d.Selects t ∧ d.Seated t := by
  constructor
  · intro h
    refine ⟨h.selects, ?_⟩
    by_contra hnot
    obtain ⟨n, hn⟩ := h.selects.lost hnot
    exact hn (h n)
  · intro h
    exact h.2.settled h.1

/-- Only `last_boot` may change under a settled slot: to its own number, or to any if the
slot is marked successful. -/
theorem Settled.congr {d' : AbData} (h : d.Settled t)
    (hpriority : ∀ s, (d'.slots s).priority = (d.slots s).priority)
    (htries : ∀ s, (d'.slots s).triesRemaining = (d.slots s).triesRemaining)
    (hsucc : ∀ s, (d'.slots s).successfulBoot = (d.slots s).successfulBoot)
    (hlast : d.Marked t ∨ d'.lastBoot = t.index ∨ d'.lastBoot = d.lastBoot) : d'.Settled t := by
  have hboot : ∀ s, d'.Bootable s ↔ d.Bootable s := by
    intro s
    simp only [Bootable, hpriority, htries, hsucc]
  have hrank : d'.Outranks t t.other ↔ d.Outranks t t.other := by
    simp only [Outranks, hpriority]
  have hlast' : d.lastBoot = t.index → d.Marked t ∨ d'.lastBoot = t.index := by
    intro hsame
    rw [hsame, or_self] at hlast
    exact hlast
  obtain ⟨hselects, hseated⟩ := settled_iff.mp h
  refine settled_iff.mpr ⟨?_, ?_⟩
  · rw [selects_iff] at hselects ⊢
    simp only [hboot, hrank]
    rcases hselects with hboot | ⟨hnot, hother, hsame⟩
    · exact .inl hboot
    · exact .inr ⟨hnot, hother, (hlast' hsame).resolve_left fun hmark => hnot hmark.1⟩
  · simp only [Seated, Marked, hboot, hsucc] at hseated ⊢
    rcases hseated with hmark | ⟨hother, hsame⟩
    · exact .inl hmark
    · exact (hlast' hsame).imp_right fun heq => ⟨hother, heq⟩

/-- A slot marked successful stays so when it is confirmed, unless the build gives it new
tries in place of the mark. -/
theorem successfulBoot_confirm {build : Build} (hbuild : build.retryBoot = false)
    (h : 0 < (d.slots t).successfulBoot) : 0 < ((d.confirm build t).slots t).successfulBoot := by
  cases hs : build.successfulBoot with
  | true => simp [AbData.confirm, hs, hbuild]
  | false =>
    by_cases hprio : (d.slots t).priority = maxPriority <;> simpa [AbData.confirm, hs, hbuild, hprio] using h

/-- Confirming the settled slot keeps it settled in such a build. -/
theorem Settled.confirm {build : Build} (h : d.Settled t) (hrange : d.InRange)
    (hbuild : build.retryBoot = false) : ((d.confirm build t).refreshCrc).Settled t := by
  obtain ⟨hselects, hseated⟩ := settled_iff.mp h
  have hprio : (((d.confirm build t).refreshCrc).slots t).priority = maxPriority := by
    rw [slots_refreshCrc, priority_confirm]
  have hsame : ((d.confirm build t).refreshCrc).slots t.other = d.slots t.other := by
    rw [slots_refreshCrc, slots_confirm_other]
  have hlast : ((d.confirm build t).refreshCrc).lastBoot = t.index := by
    rw [lastBoot_refreshCrc, lastBoot_confirm]
  refine settled_iff.mpr ⟨?_, ?_⟩
  · refine hselects.raised hrange hprio hsame hlast fun hboot => ?_
    rw [slots_refreshCrc]
    exact confirm_keeps hboot
  · rcases hseated with hsucc | ⟨hother, -⟩
    · have hmark := successfulBoot_confirm hbuild hsucc.2
      rw [← slots_refreshCrc] at hmark
      refine .inl ⟨⟨?_, .inl hmark⟩, hmark⟩
      rw [hprio]
      decide
    · refine .inr ⟨?_, hlast⟩
      simpa only [Bootable, hsame] using hother

end AbData
end LinuxOta
