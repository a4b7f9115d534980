-- SUMMARY: What `upgrade_partition` does to one image and its partition.
import LinuxOta.Upgrade.CopyLoop

namespace LinuxOta

/-! # One image -/

theorem destPath_injective {p q : Part} {s t : Slot} (h : destPath p s = destPath q t) :
    p = q ∧ s = t := by
  cases p <;> cases s <;> cases q <;> cases t <;> first | exact ⟨rfl, rfl⟩ | exact absurd h (by decide)

theorem destPath_ne_miscPath (p : Part) (s : Slot) : destPath p s ≠ miscPath := by
  cases p <;> cases s <;> decide

theorem carriesSuffix_destPath_iff (p : Part) (s t : Slot) :
    CarriesSuffix (destPath p s) t ↔ s = t := by
  cases p <;> cases s <;> cases t <;> decide

theorem not_carriesSuffix_miscPath (s : Slot) : ¬ CarriesSuffix miscPath s := by
  cases s <;> decide

theorem not_destPath_lt (p : Part) (s : Slot) : ¬ destPath p s < flashDevPrefix := by
  cases p <;> cases s <;> decide

theorem srcPath_injective {dir : String} {p q : Part} (h : srcPath dir p = srcPath dir q) :
    p = q := by
  have hlist := congrArg String.toList h
  simp only [srcPath, String.toList_append, List.append_assoc, List.append_cancel_left_eq,
    List.append_cancel_right_eq] at hlist
  cases p <;> cases q <;> first | rfl | exact absurd hlist (by decide)

namespace Upgrade

namespace ImageAnswers

/-- The image the call gets hold of, given the file of that name. -/
def found (a : ImageAnswers) (file : Option Bytes) : Option Bytes :=
  if a.access && a.fopen then file else none

/-- The partition is opened. -/
structure Opens (a : ImageAnswers) (g : FlashCtrl) : Prop where
  fseek : a.fseek = true
  flashOpen : g.Opens a.flashOpen

/-- The copy loop is reached. -/
structure Ready (a : ImageAnswers) (g : FlashCtrl) (img : Bytes) : Prop where
  fseekCopy : a.fseekCopy = true
  srcSize : ftellSize a.ftell img.length ≠ 0
  blockSize : g.blockSize ≠ 0
  calloc : a.calloc = true

/-- The copy the loop makes. -/
def copy (a : ImageAnswers) (g : FlashCtrl) (img : Bytes) : Copy where
  answers := a.block
  img := img
  blockSize := g.blockSize
  srcSize := ftellSize a.ftell img.length

end ImageAnswers

/-- What a call did to one image and its partition. -/
structure ImageOutcome where
  ret : Int
  acts : List Event
  store : Content → Content
  file : Option Bytes

/-- The outcomes of `upgrade_partition`, by how far it gets. -/
inductive ImageRun (g : FlashCtrl) (a : ImageAnswers) (url dest : String) (file : Option Bytes) :
    ImageOutcome → Prop where
  | skipped (hfound : a.found file = none) :
    ImageRun g a url dest file ⟨0, [], id, file⟩
  | unopened {img : Bytes} (hfound : a.found file = some img) (hopens : ¬ a.Opens g) :
    ImageRun g a url dest file ⟨-1, [], id, file⟩
  | unready {img : Bytes} (hfound : a.found file = some img) (hopens : a.Opens g)
      (hready : ¬ a.Ready g img) :
    ImageRun g a url dest file ⟨-1, [], id, if a.remove then none else file⟩
  | copied {img : Bytes} {t : Nat} {h : Copy.Halt} (hfound : a.found file = some img)
      (hopens : a.Opens g) (hready : a.Ready g img) (hruns : (a.copy g img).Runs t h) :
    ImageRun g a url dest file
      ⟨(a.copy g img).haltRet t h, ((a.copy g img).events url dest t h).filter Event.acts,
        fun d => (a.copy g img).afterHalt ((a.copy g img).afterTurns d t) t h,
        if a.remove then none else file⟩

/-! ## The copy -/

variable {g : FlashCtrl} {a : ImageAnswers} {img : Bytes} {fd : Int} {url path dir : String} {m : Machine}

variable (url path) in
theorem doWrite_ready (hopen : g.Opens fd) (hready : a.Ready g img) :
    ∃ t h pre post, (a.copy g img).Runs t h ∧ (∀ e ∈ pre ++ post, e.acts = false) ∧
      doWrite g a img fd url path m =
        ((a.copy g img).haltRet t h,
          { m with
            devs := Function.update m.devs path
              ((a.copy g img).afterHalt ((a.copy g img).afterTurns (m.devs path) t) t h)
            journal := m.journal ++ (pre ++ (a.copy g img).events url path t h ++ post) }) := by
  let pre : List Event := [.streamUse url, .streamUse url, .flashUse path]
  obtain ⟨t, h, hruns, hloop⟩ :=
    Copy.copyLoop_runs (c := a.copy g img) url path rfl hopen
      (Nat.pos_of_ne_zero hready.blockSize) { m with journal := m.journal ++ pre }
  refine ⟨t, h, pre, [.flashUse path], hruns, by simp [pre, Event.acts], ?_⟩
  have hinfo : ∀ m : Machine, dlFlashGetInfo g fd path m =
      (some g.blockSize, m.log (.flashUse path)) := by
    simp [dlFlashGetInfo, hopen.1, Int.not_lt.mpr hopen.2]
  have hjournal : m.journal ++ [.streamUse url] ++ [.streamUse url] ++ [.flashUse path] =
      m.journal ++ pre := by simp [pre]
  have himg : (a.copy g img).img = img := rfl
  have hsize : (a.copy g img).srcSize = ftellSize a.ftell img.length := rfl
  have hblock : (a.copy g img).blockSize = g.blockSize := rfl
  rw [himg, hsize, hblock] at hloop
  simp only [doWrite, hready.fseekCopy, hready.calloc, hready.srcSize, hready.blockSize, hinfo,
    Machine.log, hjournal, hloop, Bool.not_true, Bool.false_eq_true, ↓reduceIte]
  simp

variable (url path) in
theorem doWrite_unready (hopen : g.Opens fd) (hready : ¬ a.Ready g img) :
    ∃ evs, (∀ e ∈ evs, e.acts = false) ∧
      doWrite g a img fd url path m = (-1, { m with journal := m.journal ++ evs }) := by
  have hinfo : ∀ m : Machine, dlFlashGetInfo g fd path m =
      (some g.blockSize, m.log (.flashUse path)) := by
    simp [dlFlashGetInfo, hopen.1, Int.not_lt.mpr hopen.2]
  by_cases hseek : a.fseekCopy = true
  swap
  · exact ⟨[.streamUse url], by simp [Event.acts], by simp [doWrite, hseek, Machine.log]⟩
  by_cases hsize : ftellSize a.ftell img.length = 0
  · exact ⟨[.streamUse url, .streamUse url], by simp [Event.acts],
      by simp [doWrite, hseek, hsize, Machine.log]⟩
  by_cases hblock : g.blockSize = 0
  · exact ⟨[.streamUse url, .streamUse url, .flashUse path, .flashClose path], by simp [Event.acts],
      by simp [doWrite, hseek, hsize, hinfo, hblock, dlFlashClose_opens hopen, Machine.log]⟩
  have hcalloc : a.calloc = false := by
    by_contra hne
    exact hready ⟨hseek, hsize, hblock, by simpa using hne⟩
  exact ⟨[.streamUse url, .streamUse url, .flashUse path], by simp [Event.acts],
    by simp [doWrite, hseek, hsize, hinfo, hblock, hcalloc, Machine.log]⟩

/-! ## The image -/

theorem ImageRun.ret_cases {url dest : String} {file : Option Bytes} {o : ImageOutcome}
    (h : ImageRun g a url dest file o) : o.ret = 0 ∨ o.ret = -1 := by
  cases h with
  | skipped => exact .inl rfl
  | unopened => exact .inr rfl
  | unready => exact .inr rfl
  | copied => exact Copy.haltRet_cases _ _

/-- What a call that had outcome `o` for one image did to the machine. -/
structure ImageEffect (url dest : String) (o : ImageOutcome) (m m' : Machine) : Prop where
  performs : m.Performs m' o.acts
  devs : m'.devs = Function.update m.devs dest (o.store (m.devs dest))
  files : m'.files = Function.update m.files url o.file

/-- Events that are no acts leave everything as it is. -/
theorem ImageEffect.silent {dest : String} {ret : Int} {evs : List Event}
    (hevs : ∀ e ∈ evs, e.acts = false) :
    ImageEffect url dest ⟨ret, [], id, m.files url⟩ m { m with journal := m.journal ++ evs } where
  performs := ⟨rfl, evs, rfl, List.filter_eq_nil_iff.mpr fun e he => by simp [hevs e he]⟩
  devs := by simp
  files := by simp

private theorem filter_acts_eq_nil {evs : List Event} (hevs : ∀ e ∈ evs, e.acts = false) :
    evs.filter Event.acts = [] :=
  List.filter_eq_nil_iff.mpr fun e he => by simp [hevs e he]

/-- Once the partition is open, the image is copied, everything is closed, and the
image is removed, whether or not the copy succeeded. -/
theorem writePartition_opens (hpath : ¬ path < flashDevPrefix)
    (hfile : (if a.fopen then m.files url else none) = some img) (hopens : a.Opens g) :
    ∃ pre post, (∀ e ∈ pre ++ post, e.acts = false) ∧
      writePartition g a url path m =
        let r := doWrite g a img a.flashOpen url path { m with journal := m.journal ++ pre }
        (r.1,
          { r.2 with
            files := if a.remove then Function.update r.2.files url none else r.2.files
            journal := r.2.journal ++ post }) := by
  refine ⟨[.streamOpen url, .streamUse url, .streamUse url, .flashOpen path],
    [.flashClose path, .streamClose url] ++ if a.remove then [.removed url] else [], ?_, ?_⟩
  · cases a.remove <;> simp [Event.acts]
  · simp only [writePartition, hfile, hopens.fseek, dlFlashOpenByName_opens hpath hopens.flashOpen,
      Int.not_lt.mpr hopens.flashOpen.2, dlFlashClose_opens hopens.flashOpen, Machine.log,
      Bool.not_true, Bool.false_eq_true, ↓reduceIte, List.append_assoc]
    cases a.remove <;> simp [Machine.unlink]

variable (url) in
/-- The outcome of `upgrade_write_partition` is that of the image. -/
theorem writePartition_run (hpath : ¬ path < flashDevPrefix) (haccess : a.access = true) :
    ∃ o, ImageRun g a url path (m.files url) o ∧ (writePartition g a url path m).1 = o.ret ∧
      ImageEffect url path o m (writePartition g a url path m).2 := by
  cases hfile : if a.fopen then m.files url else none with
  | none =>
    refine ⟨_, .skipped (by simpa [ImageAnswers.found, haccess] using hfile), ?_⟩
    simp only [writePartition, hfile, true_and]
    exact ⟨.refl m, by simp, by simp⟩
  | some img =>
    have hfound : a.found (m.files url) = some img := by
      simpa [ImageAnswers.found, haccess] using hfile
    by_cases hseek : a.fseek = true
    swap
    · refine ⟨_, .unopened hfound fun h => hseek h.fseek, by simp [writePartition, hfile, hseek], ?_⟩
      have hres : (writePartition g a url path m).2 =
          { m with journal := m.journal ++ [.streamOpen url, .streamUse url] } := by
        simp [writePartition, hfile, hseek, Machine.log]
      rw [hres]
      exact .silent (by simp [Event.acts])
    by_cases hopen : g.Opens a.flashOpen
    swap
    · refine ⟨_, .unopened hfound fun h => hopen h.flashOpen,
        by simp [writePartition, hfile, hseek, dlFlashOpenByName_fails hopen], ?_⟩
      have hres : (writePartition g a url path m).2 =
          { m with
            journal := m.journal ++ [.streamOpen url, .streamUse url, .streamUse url, .streamClose url] } := by
        simp [writePartition, hfile, hseek, dlFlashOpenByName_fails hopen, Machine.log]
      rw [hres]
      exact .silent (by simp [Event.acts])
    obtain ⟨pre, post, hquiet, hwrite⟩ := writePartition_opens (m := m) hpath hfile ⟨hseek, hopen⟩
    have hpre : pre.filter Event.acts = [] := filter_acts_eq_nil fun e he => hquiet e (by simp [he])
    have hpost : post.filter Event.acts = [] :=
      filter_acts_eq_nil fun e he => hquiet e (by simp [he])
    have hfiles : (if a.remove then Function.update m.files url none else m.files) =
        Function.update m.files url (if a.remove then none else m.files url) := by
      cases a.remove <;> simp
    rw [hwrite]
    by_cases hready : a.Ready g img
    · obtain ⟨t, h, pre', post', hruns, hquiet', hcopy⟩ :=
        doWrite_ready url path (m := { m with journal := m.journal ++ pre }) hopen hready
      have hpre' : pre'.filter Event.acts = [] :=
        filter_acts_eq_nil fun e he => hquiet' e (by simp [he])
      have hpost' : post'.filter Event.acts = [] :=
        filter_acts_eq_nil fun e he => hquiet' e (by simp [he])
      refine ⟨_, .copied hfound ⟨hseek, hopen⟩ hready hruns, by rw [hcopy], ?_⟩
      rw [hcopy]
      refine ⟨⟨rfl, pre ++ (pre' ++ (a.copy g img).events url path t h ++ post') ++ post, ?_, ?_⟩,
        rfl, hfiles⟩
      · simp
      · simp [hpre, hpost, hpre', hpost']
    · obtain ⟨mid, hmid, hcopy⟩ :=
        doWrite_unready url path (m := { m with journal := m.journal ++ pre }) hopen hready
      have hmid' : mid.filter Event.acts = [] := filter_acts_eq_nil hmid
      refine ⟨_, .unready hfound ⟨hseek, hopen⟩ hready, by rw [hcopy], ?_⟩
      rw [hcopy]
      refine ⟨⟨rfl, pre ++ mid ++ post, by simp, by simp [hpre, hpost, hmid']⟩, by simp, hfiles⟩

variable (dir) in
/-- The outcome of `upgrade_partition` is that of the image, with every failure
reported as -1. -/
theorem partition_run {p : Part} {s : Slot} :
    ∃ o, ImageRun g a (srcPath dir p) (destPath p s) (m.files (srcPath dir p)) o ∧
      (partition g a dir p (destPath p s) m).1 = o.ret ∧
      ImageEffect (srcPath dir p) (destPath p s) o m (partition g a dir p (destPath p s) m).2 := by
  by_cases hexists : (a.access && (m.files (srcPath dir p)).isSome) = true
  · have haccess : a.access = true := by
      simp only [Bool.and_eq_true] at hexists
      exact hexists.1
    obtain ⟨o, hrun, hret, heff⟩ :=
      writePartition_run (g := g) (srcPath dir p) (m := m) (not_destPath_lt p s) haccess
    refine ⟨o, hrun, ?_, ?_⟩
    · have hcases := hrun.ret_cases
      rcases hcases with h | h <;> simp [partition, hexists, hret, h]
    · have hstate : (partition g a dir p (destPath p s) m).2 =
          (writePartition g a (srcPath dir p) (destPath p s) m).2 := by
        simp only [partition, hexists, Bool.not_true, Bool.false_eq_true, ↓reduceIte]
        split <;> rfl
      rw [hstate]
      exact heff
  · have hfound : a.found (m.files (srcPath dir p)) = none := by
      cases haccess : a.access <;> cases hfile : m.files (srcPath dir p) <;>
        simp_all [ImageAnswers.found]
    refine ⟨_, .skipped hfound, by simp [partition, hexists], ?_⟩
    simp only [partition, hexists, Bool.not_false, ↓reduceIte]
    exact ⟨.refl m, by simp, by simp⟩

/-! ## Outcomes -/

namespace ImageAnswers

/-- The copy loop is entered for an image. -/
structure Copies (a : ImageAnswers) (g : FlashCtrl) (file : Option Bytes) (img : Bytes) : Prop where
  found : a.found file = some img
  opens : a.Opens g
  ready : a.Ready g img

/-- No failure is reported for the image: it was not found, or its copy completes. -/
def Passes (a : ImageAnswers) (g : FlashCtrl) (file : Option Bytes) : Prop :=
  a.found file = none ∨ ∃ img, a.Copies g file img ∧ ∃ t, (a.copy g img).Completes t

/-- The call gets as far as erasing a block for the image. -/
def Erases (a : ImageAnswers) (g : FlashCtrl) (file : Option Bytes) : Prop :=
  ∃ img, a.Copies g file img ∧ 0 < (a.block 0).fread ∧ img ≠ []

/-- The call gets as far as writing a block of the image. -/
def Writes (a : ImageAnswers) (g : FlashCtrl) (file : Option Bytes) : Prop :=
  ∃ img, a.Copies g file img ∧ 0 < (a.block 0).fread ∧ img ≠ [] ∧ 0 ≤ (a.block 0).erase

theorem found_eq_some {file : Option Bytes} (h : a.found file = some img) :
    a.access = true ∧ a.fopen = true ∧ file = some img := by
  simp only [found] at h
  split at h
  · rename_i hopen
    simp only [Bool.and_eq_true] at hopen
    exact ⟨hopen.1, hopen.2, h⟩
  · exact absurd h (by simp)

theorem Copies.eq {file : Option Bytes} {img' : Bytes} (h : a.Copies g file img)
    (h' : a.Copies g file img') : img' = img :=
  Option.some.inj (h'.found.symm.trans h.found)

/-- Turn 0 reads something unless the file is empty or `fread` returns 0. -/
theorem Ready.readLen_zero_iff (hready : a.Ready g img) :
    (a.copy g img).readLen 0 ≠ 0 ↔ 0 < (a.block 0).fread ∧ img ≠ [] := by
  have hblock := hready.blockSize
  have hpos : img ≠ [] ↔ img.length ≠ 0 := by simp
  rw [hpos]
  simp only [Copy.readLen, Copy.answer, Copy.filePos, copy, Nat.zero_mul]
  omega

end ImageAnswers

namespace ImageRun

variable {dest : String} {file : Option Bytes} {o : ImageOutcome}

/-- Either the copy loop is not entered, and then a failure is reported unless the image
was not found, or the outcome is that of the loop. -/
theorem copies_or_not (h : ImageRun g a url dest file o) :
    ((∀ img, ¬ a.Copies g file img) ∧ o.acts = [] ∧ o.store = id ∧ (0 ≤ o.ret ↔ a.found file = none)) ∨
    ∃ img t h, a.Copies g file img ∧ (a.copy g img).Runs t h ∧ o.ret = (a.copy g img).haltRet t h ∧
      o.acts = ((a.copy g img).events url dest t h).filter Event.acts ∧
      ∀ d, o.store d = (a.copy g img).afterHalt ((a.copy g img).afterTurns d t) t h := by
  cases h with
  | skipped hfound =>
    refine .inl ⟨fun img hcopies => ?_, rfl, rfl, by simp [hfound]⟩
    exact absurd (hfound.symm.trans hcopies.found) (by simp)
  | unopened hfound hopens =>
    exact .inl ⟨fun img hcopies => hopens hcopies.opens, rfl, rfl, by simp [hfound]⟩
  | @unready img hfound hopens hready =>
    refine .inl ⟨fun img' hcopies => ?_, rfl, rfl, by simp [hfound]⟩
    obtain rfl : img' = img := Option.some.inj (hcopies.found.symm.trans hfound)
    exact hready hcopies.ready
  | @copied img t h hfound hopens hready hruns =>
    exact .inr ⟨img, t, h, ⟨hfound, hopens, hready⟩, hruns, rfl, rfl, fun d => rfl⟩

/-- Without an image the partition stays as it is. -/
theorem store_of_none (h : ImageRun g a url dest none o) : o.store = id := by
  rcases h.copies_or_not with ⟨-, -, hstore, -⟩ | ⟨img, t, halt, hcopies, -⟩
  · exact hstore
  · exact absurd (ImageAnswers.found_eq_some hcopies.found).2.2 (by simp)

/-- The outcome for an image is determined. -/
theorem unique {o' : ImageOutcome} (h : ImageRun g a url dest file o)
    (h' : ImageRun g a url dest file o') : o' = o := by
  have himg : ∀ {img img' : Bytes}, a.found file =
      some img → a.found file = some img' → img' = img :=
    fun hfound hfound' => Option.some.inj (hfound'.symm.trans hfound)
  cases h with
  | skipped hfound =>
    cases h' with
    | skipped => rfl
    | unopened hfound' | unready hfound' | copied hfound' => simp [hfound] at hfound'
  | unopened hfound hopens =>
    cases h' with
    | skipped hfound' => simp [hfound] at hfound'
    | unopened => rfl
    | unready _ hopens' | copied _ hopens' => exact absurd hopens' hopens
  | unready hfound hopens hready =>
    cases h' with
    | skipped hfound' => simp [hfound] at hfound'
    | unopened _ hopens' => exact absurd hopens hopens'
    | unready => rfl
    | copied hfound' _ hready' =>
      obtain rfl := himg hfound hfound'
      exact absurd hready' hready
  | copied hfound hopens hready hruns =>
    cases h' with
    | skipped hfound' => simp [hfound] at hfound'
    | unopened _ hopens' => exact absurd hopens hopens'
    | unready hfound' _ hready' =>
      obtain rfl := himg hfound hfound'
      exact absurd hready hready'
    | copied hfound' _ _ hruns' =>
      obtain rfl := himg hfound hfound'
      obtain ⟨rfl, rfl⟩ := hruns.unique hruns'
      rfl

theorem ret_nonneg_iff (h : ImageRun g a url dest file o) : 0 ≤ o.ret ↔ a.Passes g file := by
  rcases h.copies_or_not with ⟨hnot, -, -, hret⟩ | ⟨img, t, h, hcopies, hruns, hret, -, -⟩
  · rw [hret]
    constructor
    · exact .inl
    · rintro (hnone | ⟨img, hcopies, -⟩)
      · exact hnone
      · exact absurd hcopies (hnot img)
  · rw [hret, hruns.ret_nonneg_iff]
    constructor
    · intro hc
      exact .inr ⟨img, hcopies, hc⟩
    · rintro (hnone | ⟨img', hcopies', hc⟩)
      · exact absurd (hnone.symm.trans hcopies.found) (by simp)
      · obtain rfl := hcopies.eq hcopies'
        exact hc

/-- Every act for an image erases or writes its partition. -/
theorem target_of_mem (h : ImageRun g a url dest file o) {e : Event} (he : e ∈ o.acts) :
    e.target = some dest := by
  rcases h.copies_or_not with ⟨-, hacts, -, -⟩ | ⟨img, t, h, -, -, -, hacts, -⟩
  · simp [hacts] at he
  · rw [hacts, Copy.mem_acts_iff] at he
    rcases he with ⟨k, -, rfl⟩ | ⟨k, -, rfl⟩ <;> rfl

/-- What is written for an image is a piece of it. -/
theorem data_of_mem (h : ImageRun g a url dest file o) {path : String} {off : Nat} {data : Bytes}
    (he : .flashWrite path off data ∈ o.acts) : ∃ img, file = some img ∧ data <:+: img := by
  rcases h.copies_or_not with ⟨-, hacts, -, -⟩ | ⟨img, t, h, hcopies, -, -, hacts, -⟩
  · simp [hacts] at he
  · rw [hacts, Copy.mem_acts_iff] at he
    rcases he with ⟨k, -, heq⟩ | ⟨k, -, heq⟩
    · cases heq
    · cases heq
      exact ⟨img, (ImageAnswers.found_eq_some hcopies.found).2.2, (a.copy g img).data_isInfix k⟩

/-- There are acts for an image exactly when its first block was to be erased. -/
theorem acts_ne_nil_iff (h : ImageRun g a url dest file o) :
    (∃ e, e ∈ o.acts) ↔ a.Erases g file := by
  rcases h.copies_or_not with ⟨hnot, hacts, -, -⟩ | ⟨img, t, h, hcopies, hruns, -, hacts, -⟩
  · simp only [hacts, List.not_mem_nil, exists_false, false_iff]
    rintro ⟨img, hcopies, -⟩
    exact hnot img hcopies
  · have herased := hruns.erased_iff hcopies.ready.srcSize
    rw [hcopies.ready.readLen_zero_iff] at herased
    constructor
    · rintro ⟨e, he⟩
      rw [hacts, Copy.mem_acts_iff] at he
      rcases he with ⟨k, hk, -⟩ | ⟨k, hk, -⟩
      · exact ⟨img, hcopies, herased.mp ⟨k, hk⟩⟩
      · exact ⟨img, hcopies, herased.mp ⟨k, hk.imp_right fun hk => ⟨hk.1, .inr hk.2⟩⟩⟩
    · rintro ⟨img', hcopies', hread⟩
      obtain rfl := hcopies.eq hcopies'
      obtain ⟨k, hk⟩ := herased.mpr hread
      exact ⟨_, by rw [hacts, Copy.mem_acts_iff]; exact .inl ⟨k, hk, rfl⟩⟩

/-- A block is written for an image exactly when its first block was to be. -/
theorem writes_iff (h : ImageRun g a url dest file o) :
    (∃ path off data, .flashWrite path off data ∈ o.acts) ↔ a.Writes g file := by
  rcases h.copies_or_not with ⟨hnot, hacts, -, -⟩ | ⟨img, t, h, hcopies, hruns, -, hacts, -⟩
  · simp only [hacts, List.not_mem_nil, exists_false, false_iff]
    rintro ⟨img, hcopies, -⟩
    exact hnot img hcopies
  · have hwritten := hruns.written_iff hcopies.ready.srcSize
    rw [hcopies.ready.readLen_zero_iff] at hwritten
    have hanswer : (a.copy g img).answer 0 = a.block 0 := by simp [Copy.answer, ImageAnswers.copy]
    rw [hanswer, and_assoc] at hwritten
    constructor
    · rintro ⟨path, off, data, he⟩
      rw [hacts, Copy.mem_acts_iff] at he
      rcases he with ⟨k, -, heq⟩ | ⟨k, hk, -⟩
      · cases heq
      · exact ⟨img, hcopies, hwritten.mp ⟨k, hk⟩⟩
    · rintro ⟨img', hcopies', hread⟩
      obtain rfl := hcopies.eq hcopies'
      obtain ⟨k, hk⟩ := hwritten.mpr hread
      exact ⟨_, _, _, by rw [hacts, Copy.mem_acts_iff]; exact .inr ⟨k, hk, rfl⟩⟩

/-- When no failure was reported for an existing image, the partition holds the image,
whatever it held before, exactly when the image is empty or was found and copied whole. -/
theorem holds_iff (h : ImageRun g a url dest (some img) o) (hret : 0 ≤ o.ret) :
    (∀ d, (o.store d).read 0 img.length = img) ↔
      img = [] ∨ (a.access = true ∧ a.fopen = true ∧ (a.copy g img).Whole) := by
  rcases h.copies_or_not with ⟨-, -, hstore, hfound⟩ | ⟨img', t, h, hcopies, hruns, heq, -, hstore⟩
  · have hnone := hfound.mp hret
    simp only [hstore, id, Content.read_zero_eq_iff]
    constructor
    · intro hall
      by_contra hnot
      cases img with
      | nil => exact hnot (.inl rfl)
      | cons b rest =>
        have hbyte := hall (fun _ => b + 1) 0 (by simp)
        simp at hbyte
    · rintro (rfl | ⟨haccess, hfopen, -⟩)
      · simp
      · simp [ImageAnswers.found, haccess, hfopen] at hnone
  · obtain ⟨haccess, hfopen, himg⟩ := ImageAnswers.found_eq_some hcopies.found
    obtain rfl : img' = img := (Option.some.inj himg).symm
    rw [heq] at hret
    obtain ⟨t', hc⟩ := hruns.ret_nonneg_iff.mp hret
    obtain rfl := hruns.turn_eq_of_completes hc
    have hplace := hc.inPlace_iff (Nat.pos_of_ne_zero hcopies.ready.blockSize)
    simp only [hstore, Copy.afterHalt_of_nonneg hret, Content.read_zero_eq_iff]
    rw [show (a.copy g img').img = img' from rfl] at hplace
    rw [hplace]
    constructor
    · intro hwhole
      exact .inr ⟨haccess, hfopen, hwhole⟩
    · rintro (rfl | ⟨-, -, hwhole⟩)
      · intro k hk
        exact absurd hk (by simp [ImageAnswers.copy])
      · exact hwhole

end ImageRun

end Upgrade
end LinuxOta
