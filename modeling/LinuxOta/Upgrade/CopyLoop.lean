-- SUMMARY: The copy loop of `upgrade_do_write`: how it runs, when it reports success, and what it leaves on the partition.
import LinuxOta.Upgrade.DlUpgrade

namespace LinuxOta.Upgrade

/-! # The copy loop

The loop is driven by the lengths `fread` returns and by the answers of the flash
driver. `Copy` collects them; turn `k` is the one at offset `k * blockSize`. -/

/-- What the copy of one image depends on. -/
structure Copy where
  answers : Nat → BlockAnswer
  img : Bytes
  blockSize : Nat
  /-- The size of the image as `ftell` reported it. -/
  srcSize : Nat

namespace Copy

variable (c : Copy)

def answer (k : Nat) : BlockAnswer := c.answers (k * c.blockSize)

/-- The position in the file before turn `k`. -/
def filePos : Nat → Nat
  | 0 => 0
  | k + 1 => filePos k + min (c.answer k).fread (min c.blockSize (c.img.length - filePos k))

/-- The length turn `k` reads. -/
def readLen (k : Nat) : Nat :=
  min (c.answer k).fread (min c.blockSize (c.img.length - c.filePos k))

/-- The bytes turn `k` reads. -/
def data (k : Nat) : Bytes := (c.img.drop (c.filePos k)).take (c.readLen k)

/-- The bytes of turn `k` that reach the partition. -/
def stored (k : Nat) : Bytes := (c.data k).take ((c.answer k).write.reached (c.readLen k))

/-- Turn `k` takes place and the loop goes on after it. -/
def Goes (k : Nat) : Prop :=
  k * c.blockSize < c.srcSize ∧ c.readLen k ≠ 0 ∧ 0 ≤ (c.answer k).erase ∧ 0 ≤ (c.answer k).write.ret

/-- The ways the loop ends. -/
inductive Halt where
  | finished
  | exhausted
  | eraseFailed
  | writeFailed
  deriving DecidableEq, Repr

/-- The loop ends in way `h` when it gets to turn `k`. -/
def Ends (k : Nat) : Halt → Prop
  | .finished => c.srcSize ≤ k * c.blockSize
  | .exhausted => k * c.blockSize < c.srcSize ∧ c.readLen k = 0
  | .eraseFailed => k * c.blockSize < c.srcSize ∧ c.readLen k ≠ 0 ∧ (c.answer k).erase < 0
  | .writeFailed =>
    k * c.blockSize < c.srcSize ∧ c.readLen k ≠ 0 ∧ 0 ≤ (c.answer k).erase ∧ (c.answer k).write.ret < 0

/-- The return code after the end in turn `k`. -/
def haltRet (k : Nat) : Halt → Int
  | .finished => 0
  | .exhausted => if k * c.blockSize ≠ c.blockSize then -1 else 0
  | .eraseFailed => -1
  | .writeFailed => -1

/-- The calls of turn `k` when it goes through. -/
def turnEvents (url path : String) (k : Nat) : List Event :=
  [.streamUse url, .flashErase path (k * c.blockSize) c.blockSize,
    .flashWrite path (k * c.blockSize) (c.data k)]

/-- The calls of the last turn. -/
def haltEvents (url path : String) (k : Nat) : Halt → List Event
  | .finished => []
  | .exhausted => [.streamUse url]
  | .eraseFailed => [.streamUse url, .flashErase path (k * c.blockSize) c.blockSize]
  | .writeFailed => c.turnEvents url path k

/-- The content `d` of the partition after turn `k`. -/
def afterTurn (d : Content) (k : Nat) : Content := d.overwrite (k * c.blockSize) (c.stored k)

/-- The content after the end in turn `k`. -/
def afterHalt (d : Content) (k : Nat) : Halt → Content
  | .writeFailed => c.afterTurn d k
  | _ => d

/-- The calls of a loop that ends in turn `t`. -/
def events (url path : String) (t : Nat) (h : Halt) : List Event :=
  (List.range t).flatMap (c.turnEvents url path) ++ c.haltEvents url path t h

/-- The content `d` of the partition after `t` turns. -/
def afterTurns (d : Content) (t : Nat) : Content := (List.range t).foldl c.afterTurn d

/-- The loop goes through `t` turns and ends in the next one. -/
def Runs (t : Nat) (h : Halt) : Prop := (∀ k < t, c.Goes k) ∧ c.Ends t h

/-! ## Single turns -/

theorem filePos_succ (k : Nat) : c.filePos (k + 1) = c.filePos k + c.readLen k := rfl

theorem readLen_le_blockSize (k : Nat) : c.readLen k ≤ c.blockSize := by
  unfold readLen
  omega

theorem readLen_le_fread (k : Nat) : c.readLen k ≤ (c.answer k).fread := by
  unfold readLen
  omega

theorem data_length (k : Nat) : (c.data k).length = c.readLen k := by
  have hle : c.readLen k ≤ c.img.length - c.filePos k := by unfold readLen; omega
  simp [data, hle]

/-- What a turn hands to the driver is a piece of the image. -/
theorem data_isInfix (k : Nat) : c.data k <:+: c.img := by
  have htake : c.data k <+: c.img.drop (c.filePos k) := List.take_prefix _ _
  exact htake.isInfix.trans (List.drop_suffix _ _).isInfix

theorem stored_length (k : Nat) :
    (c.stored k).length = (c.answer k).write.reached (c.readLen k) := by
  have hle : (c.answer k).write.reached (c.readLen k) ≤ c.readLen k := by
    cases (c.answer k).write <;> simp [WriteAnswer.reached]
  simp [stored, data_length, hle]

theorem stored_length_le (k : Nat) : (c.stored k).length ≤ c.readLen k := by
  simp [stored, data_length]

/-! ## The run -/

variable {c} {g : FlashCtrl} {a : ImageAnswers} {fd : Int} {url path : String}

/-- A turn that goes through, as the source computes it. -/
theorem copyLoop_goes (hans : c.answers = a.block) (hopen : g.Opens fd) {fuel k : Nat} {m : Machine}
    (hgoes : c.Goes k) :
    copyLoop g a c.img fd url path c.blockSize c.srcSize (fuel + 1) (k * c.blockSize) (c.filePos k) 0 m =
      copyLoop g a c.img fd url path c.blockSize c.srcSize fuel ((k + 1) * c.blockSize)
        (c.filePos (k + 1)) 0
        { m with
          devs := Function.update m.devs path (c.afterTurn (m.devs path) k)
          journal := m.journal ++ c.turnEvents url path k } := by
  obtain ⟨hlt, hread, herase, hwrite⟩ := hgoes
  have hblock : a.block (k * c.blockSize) = c.answer k := by rw [answer, hans]
  have hlen : min (c.answer k).fread (min c.blockSize (c.img.length - c.filePos k)) = c.readLen k := rfl
  have hmin : min (c.readLen k) c.blockSize = c.readLen k :=
    Nat.min_eq_left (c.readLen_le_blockSize k)
  have hdata : (c.img.drop (c.filePos k)).take (c.readLen k) = c.data k := rfl
  have hstored : (c.data k).take ((c.answer k).write.reached (c.readLen k)) = c.stored k := rfl
  have hret : (c.answer k).write.ret = 0 := by
    revert hwrite
    cases (c.answer k).write <;> simp [WriteAnswer.ret]
  rw [copyLoop, if_pos hlt]
  simp only [hblock, hlen, hread, ↓reduceIte, dlFlashErase_opens hopen, dlFlashWrite_opens hopen,
    Int.not_lt.mpr herase, hmin, hdata, data_length, hstored, hret, Int.lt_irrefl, Nat.add_mul,
    Nat.one_mul, filePos_succ]
  simp [Machine.log, Machine.store, afterTurn, turnEvents]

/-- The last turn, as the source computes it. -/
theorem copyLoop_ends (hans : c.answers = a.block) (hopen : g.Opens fd) {fuel k : Nat} {m : Machine}
    {h : Halt} (hends : c.Ends k h) (hfuel : h = .finished ∨ 0 < fuel) :
    copyLoop g a c.img fd url path c.blockSize c.srcSize fuel (k * c.blockSize) (c.filePos k) 0 m =
      (c.haltRet k h,
        { m with
          devs := Function.update m.devs path (c.afterHalt (m.devs path) k h)
          journal := m.journal ++ c.haltEvents url path k h }) := by
  have hblock : a.block (k * c.blockSize) = c.answer k := by rw [answer, hans]
  have hlen : min (c.answer k).fread (min c.blockSize (c.img.length - c.filePos k)) = c.readLen k := rfl
  have hmin : min (c.readLen k) c.blockSize = c.readLen k :=
    Nat.min_eq_left (c.readLen_le_blockSize k)
  cases h with
  | finished =>
    cases fuel with
    | zero => simp [copyLoop, haltRet, afterHalt, haltEvents]
    | succ fuel =>
      rw [copyLoop, if_neg (Nat.not_lt.mpr hends)]
      simp [haltRet, afterHalt, haltEvents]
  | exhausted =>
    obtain ⟨fuel, rfl⟩ := Nat.exists_eq_add_one.mpr (hfuel.resolve_left (by decide))
    rw [copyLoop, if_pos hends.1]
    simp only [hblock, hlen, hends.2, ↓reduceIte]
    simp [haltRet, afterHalt, haltEvents, Machine.log]
  | eraseFailed =>
    obtain ⟨fuel, rfl⟩ := Nat.exists_eq_add_one.mpr (hfuel.resolve_left (by decide))
    obtain ⟨hlt, hread, herase⟩ := hends
    rw [copyLoop, if_pos hlt]
    simp only [hblock, hlen, hread, ↓reduceIte, dlFlashErase_opens hopen, herase]
    simp [haltRet, afterHalt, haltEvents, Machine.log]
  | writeFailed =>
    obtain ⟨fuel, rfl⟩ := Nat.exists_eq_add_one.mpr (hfuel.resolve_left (by decide))
    obtain ⟨hlt, hread, herase, hwrite⟩ := hends
    have hdata : (c.img.drop (c.filePos k)).take (c.readLen k) = c.data k := rfl
    have hstored : (c.data k).take ((c.answer k).write.reached (c.readLen k)) = c.stored k := rfl
    have hret : (c.answer k).write.ret = -1 := by
      revert hwrite
      cases (c.answer k).write <;> simp [WriteAnswer.ret]
    rw [copyLoop, if_pos hlt]
    simp only [hblock, hlen, hread, ↓reduceIte, dlFlashErase_opens hopen, dlFlashWrite_opens hopen,
      Int.not_lt.mpr herase, hmin, hdata, data_length, hstored, hret]
    simp [haltRet, afterHalt, afterTurn, haltEvents, turnEvents, Machine.log, Machine.store]

variable (c) in
/-- Every turn goes through or is the last one. -/
theorem goes_or_ends (k : Nat) : c.Goes k ∨ ∃ h, c.Ends k h := by
  by_cases hlt : k * c.blockSize < c.srcSize
  · by_cases hread : c.readLen k = 0
    · exact .inr ⟨.exhausted, hlt, hread⟩
    by_cases herase : (c.answer k).erase < 0
    · exact .inr ⟨.eraseFailed, hlt, hread, herase⟩
    by_cases hwrite : (c.answer k).write.ret < 0
    · exact .inr ⟨.writeFailed, hlt, hread, Int.not_lt.mp herase, hwrite⟩
    · exact .inl ⟨hlt, hread, Int.not_lt.mp herase, Int.not_lt.mp hwrite⟩
  · exact .inr ⟨.finished, Nat.not_lt.mp hlt⟩

variable (url path) in
/-- From turn `k` on, the loop goes through some turns and ends. -/
private theorem copyLoop_from (hans : c.answers = a.block) (hopen : g.Opens fd)
    (hsize : 0 < c.blockSize) :
    ∀ (fuel k : Nat) (m : Machine), c.srcSize ≤ k * c.blockSize + fuel →
      ∃ n h, (∀ i, k ≤ i → i < k + n → c.Goes i) ∧ c.Ends (k + n) h ∧
        copyLoop g a c.img fd url path c.blockSize c.srcSize fuel (k * c.blockSize) (c.filePos k) 0 m =
          (c.haltRet (k + n) h,
            { m with
              devs := Function.update m.devs path
                (c.afterHalt ((List.range' k n).foldl c.afterTurn (m.devs path)) (k + n) h)
              journal := m.journal ++ ((List.range' k n).flatMap (c.turnEvents url path) ++
                c.haltEvents url path (k + n) h) }) := by
  intro fuel
  induction fuel with
  | zero =>
    intro k m hfuel
    have hends : c.Ends k .finished := hfuel
    exact ⟨0, .finished, by omega, hends, by simp [copyLoop_ends hans hopen hends (.inl rfl)]⟩
  | succ fuel ih =>
    intro k m hfuel
    rcases c.goes_or_ends k with hgoes | ⟨h, hends⟩
    · have hfuel' : c.srcSize ≤ (k + 1) * c.blockSize + fuel := by
        rw [Nat.add_mul]
        omega
      let m' : Machine :=
        { m with
          devs := Function.update m.devs path (c.afterTurn (m.devs path) k)
          journal := m.journal ++ c.turnEvents url path k }
      obtain ⟨n, h, hall, hends, hloop⟩ := ih (k + 1) m' hfuel'
      have hshift : k + (n + 1) = k + 1 + n := by omega
      refine ⟨n + 1, h, ?_, hshift ▸ hends, ?_⟩
      · intro i hki hi
        rcases Nat.eq_or_lt_of_le hki with rfl | hki
        · exact hgoes
        · exact hall i hki (by omega)
      · rw [copyLoop_goes hans hopen hgoes, hloop, hshift]
        simp [m', List.range'_succ]
    · exact ⟨0, h, by omega, hends,
        by simp [copyLoop_ends hans hopen hends (.inr (Nat.succ_pos _))]⟩

variable (url path) in
/-- The loop of the source runs through `t` turns, makes their calls, and ends. -/
theorem copyLoop_runs (hans : c.answers = a.block) (hopen : g.Opens fd) (hsize : 0 < c.blockSize)
    (m : Machine) :
    ∃ t h, c.Runs t h ∧
      copyLoop g a c.img fd url path c.blockSize c.srcSize c.srcSize 0 0 0 m =
        (c.haltRet t h,
          { m with
            devs := Function.update m.devs path (c.afterHalt (c.afterTurns (m.devs path) t) t h)
            journal := m.journal ++ c.events url path t h }) := by
  obtain ⟨n, h, hall, hends, hloop⟩ :=
    copyLoop_from url path hans hopen hsize c.srcSize 0 m (by omega)
  refine ⟨n, h, ⟨fun k hk => hall k (Nat.zero_le k) (by omega), by simpa using hends⟩, ?_⟩
  simpa [filePos, afterTurns, events, List.range_eq_range'] using hloop

/-! ## Success -/

variable (c) in
/-- The loop ends without a failure it reports: it gets past the size of the image, or
finds the file exhausted in turn 1, where the source does not report that. -/
def Completes (t : Nat) : Prop :=
  (∀ k < t, c.Goes k) ∧ (c.srcSize ≤ t * c.blockSize ∨ t * c.blockSize = c.blockSize ∧ c.readLen t = 0)

theorem not_goes_of_ends {k : Nat} {h : Halt} (hends : c.Ends k h) : ¬ c.Goes k := by
  rintro ⟨hlt, hread, herase, hwrite⟩
  cases h with
  | finished => exact absurd hlt (Nat.not_lt.mpr hends)
  | exhausted => exact hread hends.2
  | eraseFailed => exact absurd herase (Int.not_le.mpr hends.2.2)
  | writeFailed => exact absurd hwrite (Int.not_le.mpr hends.2.2.2)

theorem Ends.unique {k : Nat} {h h' : Halt} (hends : c.Ends k h) (hends' : c.Ends k h') :
    h' = h := by
  cases h <;> cases h' <;> simp only [Ends] at hends hends' <;> first | rfl | (exfalso; omega)

/-- The run of the loop is determined. -/
theorem Runs.unique {t t' : Nat} {h h' : Halt} (hruns : c.Runs t h) (hruns' : c.Runs t' h') :
    t' = t ∧ h' = h := by
  have ht : t' = t := by
    rcases Nat.lt_trichotomy t' t with hlt | heq | hgt
    · exact absurd (hruns.1 t' hlt) (not_goes_of_ends hruns'.2)
    · exact heq
    · exact absurd (hruns'.1 t hgt) (not_goes_of_ends hruns.2)
  subst ht
  exact ⟨rfl, hruns.2.unique hruns'.2⟩

/-- A loop that completes in turn `t` ends there. -/
theorem Runs.turn_eq_of_completes {t t' : Nat} {h : Halt} (hruns : c.Runs t h)
    (hc : c.Completes t') :
    t' = t := by
  have hstops : ¬ c.Goes t' := by
    rintro ⟨hlt, hread, -, -⟩
    rcases hc.2 with hsize | ⟨-, hzero⟩
    · exact absurd hlt (Nat.not_lt.mpr hsize)
    · exact hread hzero
  rcases Nat.lt_trichotomy t' t with hlt | heq | hgt
  · exact absurd (hruns.1 t' hlt) hstops
  · exact heq
  · exact absurd (hc.1 t hgt) (not_goes_of_ends hruns.2)

/-- The return code of the loop is not negative exactly when it completes. -/
theorem Runs.ret_nonneg_iff {t : Nat} {h : Halt} (hruns : c.Runs t h) :
    0 ≤ c.haltRet t h ↔ ∃ t', c.Completes t' := by
  constructor
  · intro hret
    refine ⟨t, hruns.1, ?_⟩
    cases h with
    | finished => exact .inl hruns.2
    | exhausted =>
      refine .inr ⟨?_, hruns.2.2⟩
      by_contra hne
      simp [haltRet, hne] at hret
    | eraseFailed => simp [haltRet] at hret
    | writeFailed => simp [haltRet] at hret
  · rintro ⟨t', hc⟩
    obtain rfl := hruns.turn_eq_of_completes hc
    have hends := hruns.2
    cases h with
    | finished => simp [haltRet]
    | exhausted =>
      rcases hc.2 with hsize | ⟨hone, -⟩
      · exact absurd hends.1 (Nat.not_lt.mpr hsize)
      · simp [haltRet, hone]
    | eraseFailed =>
      rcases hc.2 with hsize | ⟨-, hzero⟩
      · exact absurd hends.1 (Nat.not_lt.mpr hsize)
      · exact absurd hzero hends.2.1
    | writeFailed =>
      rcases hc.2 with hsize | ⟨-, hzero⟩
      · exact absurd hends.1 (Nat.not_lt.mpr hsize)
      · exact absurd hzero hends.2.1

theorem haltRet_cases (t : Nat) (h : Halt) : c.haltRet t h = 0 ∨ c.haltRet t h = -1 := by
  cases h with
  | exhausted => by_cases hone : t * c.blockSize = c.blockSize <;> simp [haltRet, hone]
  | _ => simp [haltRet]

/-- A loop that reports success has not stored anything in its last turn. -/
theorem afterHalt_of_nonneg {t : Nat} {h : Halt} {d : Content} (hret : 0 ≤ c.haltRet t h) :
    c.afterHalt d t h = d := by
  cases h with
  | writeFailed => simp [haltRet] at hret
  | _ => rfl

/-! ## Acts -/

/-- The erase of turn `k` is issued by a loop that ends in turn `t`. -/
def Erased (t : Nat) (h : Halt) (k : Nat) : Prop :=
  k < t ∨ k = t ∧ (h = .eraseFailed ∨ h = .writeFailed)

/-- The write of turn `k` is issued by a loop that ends in turn `t`. -/
def Written (t : Nat) (h : Halt) (k : Nat) : Prop :=
  k < t ∨ k = t ∧ h = .writeFailed

theorem turnEvents_acts (k : Nat) :
    (c.turnEvents url path k).filter Event.acts =
      [.flashErase path (k * c.blockSize) c.blockSize, .flashWrite path (k * c.blockSize) (c.data k)] :=
  rfl

/-- The acts of the loop are the erases and writes of its turns. -/
theorem mem_acts_iff {t : Nat} {h : Halt} {e : Event} :
    e ∈ (c.events url path t h).filter Event.acts ↔
      (∃ k, Erased t h k ∧ e = .flashErase path (k * c.blockSize) c.blockSize) ∨
      (∃ k, Written t h k ∧ e = .flashWrite path (k * c.blockSize) (c.data k)) := by
  have hlast : e ∈ (c.haltEvents url path t h).filter Event.acts ↔
      ((h = .eraseFailed ∨ h = .writeFailed) ∧ e = .flashErase path (t * c.blockSize) c.blockSize) ∨
      (h = .writeFailed ∧ e = .flashWrite path (t * c.blockSize) (c.data t)) := by
    cases h with
    | finished => simp [haltEvents]
    | exhausted => simp [haltEvents, Event.acts]
    | eraseFailed => simp [haltEvents, List.filter_cons, Event.acts]
    | writeFailed => simp [haltEvents, turnEvents_acts]
  simp only [events, List.filter_append, List.mem_append, List.filter_flatMap, List.mem_flatMap,
    List.mem_range, turnEvents_acts, List.mem_cons, List.not_mem_nil, or_false, hlast]
  constructor
  · rintro (⟨k, hk, he | he⟩ | ⟨hh, he⟩ | ⟨hh, he⟩)
    · exact .inl ⟨k, .inl hk, he⟩
    · exact .inr ⟨k, .inl hk, he⟩
    · exact .inl ⟨t, .inr ⟨rfl, hh⟩, he⟩
    · exact .inr ⟨t, .inr ⟨rfl, hh⟩, he⟩
  · rintro (⟨k, hk | ⟨rfl, hh⟩, he⟩ | ⟨k, hk | ⟨rfl, hh⟩, he⟩)
    · exact .inl ⟨k, hk, .inl he⟩
    · exact .inr (.inl ⟨hh, he⟩)
    · exact .inl ⟨k, hk, .inr he⟩
    · exact .inr (.inr ⟨hh, he⟩)

/-- A block is erased exactly when turn 0 reads something. -/
theorem Runs.erased_iff {t : Nat} {h : Halt} (hruns : c.Runs t h) (hsize : c.srcSize ≠ 0) :
    (∃ k, Erased t h k) ↔ c.readLen 0 ≠ 0 := by
  rcases Nat.eq_zero_or_pos t with rfl | hpos
  · have hends := hruns.2
    cases h with
    | finished => simp only [Ends] at hends; omega
    | exhausted => simp [Erased, hends.2]
    | eraseFailed => simp [Erased, hends.2.1]
    | writeFailed => simp [Erased, hends.2.1]
  · exact iff_of_true ⟨0, .inl hpos⟩ (hruns.1 0 hpos).2.1

/-- A block is written exactly when turn 0 reads something and erases its block. -/
theorem Runs.written_iff {t : Nat} {h : Halt} (hruns : c.Runs t h) (hsize : c.srcSize ≠ 0) :
    (∃ k, Written t h k) ↔ c.readLen 0 ≠ 0 ∧ 0 ≤ (c.answer 0).erase := by
  rcases Nat.eq_zero_or_pos t with rfl | hpos
  · have hends := hruns.2
    cases h with
    | finished => simp only [Ends] at hends; omega
    | exhausted => simp [Written, hends.2]
    | eraseFailed => simp [Written, hends.2.2]
    | writeFailed => simp [Written, hends.2.1, hends.2.2.1]
  · exact iff_of_true ⟨0, .inl hpos⟩ ⟨(hruns.1 0 hpos).2.1, (hruns.1 0 hpos).2.2.1⟩

/-! ## Content -/

/-- Each turn stores into its own block only. -/
theorem afterTurns_apply (hsize : 0 < c.blockSize) (d : Content) (t j : Nat) :
    c.afterTurns d t j =
      if j / c.blockSize < t then (c.stored (j / c.blockSize)).getD (j % c.blockSize) (d j) else d j := by
  induction t with
  | zero => simp [afterTurns]
  | succ t ih =>
    have hstep : c.afterTurns d (t + 1) = c.afterTurn (c.afterTurns d t) t := by
      simp [afterTurns, List.range_succ]
    have hdiv : c.blockSize * (j / c.blockSize) + j % c.blockSize = j :=
      Nat.div_add_mod j c.blockSize
    have hmod : j % c.blockSize < c.blockSize := Nat.mod_lt j hsize
    have hlen : (c.stored t).length ≤ c.blockSize :=
      (c.stored_length_le t).trans (c.readLen_le_blockSize t)
    rw [hstep, afterTurn]
    rcases Nat.lt_trichotomy (j / c.blockSize) t with hlt | heq | hgt
    · -- the block of an earlier turn
      have hbefore : j < t * c.blockSize := by
        rw [Nat.div_lt_iff_lt_mul hsize] at hlt
        exact hlt
      rw [Content.overwrite_before hbefore, ih, if_pos hlt, if_pos (by omega)]
    · -- the block of this turn
      have hle : t * c.blockSize ≤ j := by rw [← heq]; exact Nat.div_mul_le_self j c.blockSize
      have hsub : j - t * c.blockSize = j % c.blockSize := by
        rw [← heq, Nat.mul_comm]
        omega
      rw [Content.overwrite, if_pos hle, ih, if_neg (by omega), if_pos (by omega), hsub, heq]
    · -- beyond this turn
      have hafter : t * c.blockSize + (c.stored t).length ≤ j := by
        have hle : (t + 1) * c.blockSize ≤ j := by
          rw [← Nat.le_div_iff_mul_le hsize]
          omega
        rw [Nat.add_mul] at hle
        omega
      rw [Content.overwrite_after hafter, ih, if_neg (by omega), if_neg (by omega)]

variable (c) in
/-- Each block of the image lies before the size `ftell` reported, is read whole, and is
stored by the driver. -/
def Whole : Prop :=
  ∀ k, k * c.blockSize < c.img.length →
    k * c.blockSize < c.srcSize ∧
      min c.blockSize (c.img.length - k * c.blockSize) ≤ (c.answer k).fread ∧
      (c.answer k).write = .stored

theorem Whole.filePos (hwhole : c.Whole) (k : Nat) (hk : k * c.blockSize < c.img.length) :
    c.filePos k = k * c.blockSize := by
  induction k with
  | zero => simp [Copy.filePos]
  | succ k ih =>
    rw [Nat.add_mul] at hk
    have hread := (hwhole k (by omega)).2.1
    rw [filePos_succ, readLen, ih (by omega), Nat.add_mul]
    omega

theorem Whole.readLen (hwhole : c.Whole) (k : Nat) (hk : k * c.blockSize < c.img.length) :
    c.readLen k = min c.blockSize (c.img.length - k * c.blockSize) := by
  have hread := (hwhole k hk).2.1
  rw [Copy.readLen, hwhole.filePos k hk]
  omega

/-- A byte that is in place, whatever was there before, was stored by its block's turn. -/
theorem Completes.whole {t : Nat} (hc : c.Completes t) (hsize : 0 < c.blockSize)
    (hplace : ∀ d : Content, ∀ j (hj : j < c.img.length), c.afterTurns d t j = c.img[j]) : c.Whole := by
  intro k hk
  -- the last byte of block `k`, on a partition where it was different before
  let j := min (k * c.blockSize + c.blockSize) c.img.length - 1
  have hj : j < c.img.length := by omega
  have hdiv : j / c.blockSize = k := by
    rw [Nat.div_eq_iff hsize]
    omega
  have hmod : j % c.blockSize = min c.blockSize (c.img.length - k * c.blockSize) - 1 := by
    have := Nat.div_add_mod j c.blockSize
    rw [hdiv, Nat.mul_comm] at this
    omega
  have hbyte := hplace (fun _ => c.img[j] + 1) j hj
  rw [afterTurns_apply hsize, hdiv, hmod] at hbyte
  have hne : c.img[j] + 1 ≠ c.img[j] := by simp
  have hstored : k < t ∧
      min c.blockSize (c.img.length - k * c.blockSize) - 1 < (c.stored k).length := by
    by_contra hnot
    by_cases hkt : k < t
    · have hlen : (c.stored k).length ≤ min c.blockSize (c.img.length - k * c.blockSize) - 1 :=
        Nat.not_lt.mp fun hlt => hnot ⟨hkt, hlt⟩
      rw [if_pos hkt, List.getD_eq_default _ _ hlen] at hbyte
      exact hne hbyte
    · rw [if_neg hkt] at hbyte
      exact hne hbyte
  obtain ⟨hlt, -, -, hwrite⟩ := hc.1 k hstored.1
  have hreached := hstored.2
  rw [stored_length] at hreached
  have hfread := c.readLen_le_fread k
  cases hw : (c.answer k).write with
  | stored =>
    rw [hw] at hreached
    simp only [WriteAnswer.reached] at hreached
    exact ⟨hlt, by omega, rfl⟩
  | ignored =>
    rw [hw] at hreached
    simp [WriteAnswer.reached] at hreached
  | failed n =>
    rw [hw] at hwrite
    simp [WriteAnswer.ret] at hwrite

/-- Blocks that are read and stored whole put every byte in place. -/
theorem Whole.inPlace {t : Nat} (hwhole : c.Whole) (hc : c.Completes t) (hsize : 0 < c.blockSize) :
    ∀ d : Content, ∀ j (hj : j < c.img.length), c.afterTurns d t j = c.img[j] := by
  intro d j hj
  have hdiv : c.blockSize * (j / c.blockSize) + j % c.blockSize = j := Nat.div_add_mod j c.blockSize
  have hmod : j % c.blockSize < c.blockSize := Nat.mod_lt j hsize
  rw [Nat.mul_comm] at hdiv
  have hk : j / c.blockSize * c.blockSize < c.img.length := by omega
  obtain ⟨hlt, -, hstored⟩ := hwhole _ hk
  have hreach : j / c.blockSize < t := by
    rcases hc.2 with hle | ⟨hone, hzero⟩
    · exact Nat.lt_of_mul_lt_mul_right (Nat.lt_of_lt_of_le hlt hle)
    · -- the file was found exhausted in turn 1, so no byte lies beyond block 0
      have ht : t = 1 := Nat.eq_of_mul_eq_mul_right hsize (by omega)
      subst ht
      by_contra hge
      have hle : 1 * c.blockSize ≤ j / c.blockSize * c.blockSize :=
        Nat.mul_le_mul_right _ (Nat.not_lt.mp hge)
      have := hwhole.readLen 1 (by omega)
      omega
  have hlen : (c.stored (j / c.blockSize)).length = c.readLen (j / c.blockSize) := by
    rw [stored_length, hstored]
    rfl
  have hread := hwhole.readLen _ hk
  have hin : j % c.blockSize < (c.stored (j / c.blockSize)).length := by omega
  rw [afterTurns_apply hsize, if_pos hreach, List.getD_eq_getElem _ _ hin]
  simp only [stored, data, List.getElem_take, List.getElem_drop, hwhole.filePos _ hk]
  congr 1

/-- A copy that completes leaves the image on the partition, whatever was there
before, exactly when every block of it was copied whole. -/
theorem Completes.inPlace_iff {t : Nat} (hc : c.Completes t) (hsize : 0 < c.blockSize) :
    (∀ d : Content, ∀ j (hj : j < c.img.length), c.afterTurns d t j = c.img[j]) ↔ c.Whole :=
  ⟨hc.whole hsize, fun hwhole => hwhole.inPlace hc hsize⟩

end Copy
end LinuxOta.Upgrade
