-- SUMMARY: The image file and the flash descriptor of `upgrade_write_partition`: when both are closed once and not used afterwards.
import LinuxOta.Base.Lease
import LinuxOta.Upgrade.Packet

namespace LinuxOta

/-! # Descriptors -/

open Lease (Use ClosedOnce)

/-- What an event does to the stream of file `url`. -/
def Event.streamRole (url : String) : Event → Option Use
  | streamOpen u => if u = url then some .opens else none
  | streamUse u => if u = url then some .uses else none
  | streamClose u => if u = url then some .closes else none
  | _ => none

/-- What an event does to the descriptor of device `path`. -/
def Event.flashRole (path : String) : Event → Option Use
  | flashOpen p => if p = path then some .opens else none
  | flashUse p => if p = path then some .uses else none
  | flashRead p _ _ => if p = path then some .uses else none
  | flashErase p _ _ => if p = path then some .uses else none
  | flashWrite p _ _ => if p = path then some .uses else none
  | flashClose p => if p = path then some .closes else none
  | _ => none

/-- Between `m` and `m'` the image and the device are each closed once if they are opened, and
nothing is done to them afterwards. -/
def ClosesBoth (url path : String) (m m' : Machine) : Prop :=
  ∃ evs, m'.journal = m.journal ++ evs ∧ ClosedOnce (evs.filterMap (Event.streamRole url)) ∧
    ClosedOnce (evs.filterMap (Event.flashRole path))

/-- The event uses the image or the device. -/
def Event.Uses (url path : String) (e : Event) : Prop :=
  e.streamRole url = some .uses ∧ e.flashRole path = none ∨
    e.streamRole url = none ∧ e.flashRole path = some .uses

/-- Between `m` and `m'` the image and the device are used only. -/
def UsesOnly (url path : String) (m m' : Machine) : Prop :=
  ∃ evs, m'.journal = m.journal ++ evs ∧ ∀ e ∈ evs, e.Uses url path

namespace UsesOnly

variable {url path : String} {m m' m'' : Machine}

theorem refl (m : Machine) : UsesOnly url path m m := ⟨[], by simp, by simp⟩

theorem trans (h : UsesOnly url path m m') (h' : UsesOnly url path m' m'') :
    UsesOnly url path m m'' := by
  obtain ⟨evs, hevs, huses⟩ := h
  obtain ⟨evs', hevs', huses'⟩ := h'
  refine ⟨evs ++ evs', by rw [hevs', hevs, List.append_assoc], fun e he => ?_⟩
  exact (List.mem_append.mp he).elim (huses e) (huses' e)

theorem log {e : Event} (he : e.Uses url path) : UsesOnly url path m (m.log e) :=
  ⟨[e], rfl, by simpa using he⟩

end UsesOnly

namespace Upgrade

variable {g : FlashCtrl} {a : ImageAnswers} {img : Bytes} {fd : Int} {url path : String} {m : Machine}

theorem uses_streamUse : (Event.streamUse url).Uses url path :=
  .inl ⟨by simp [Event.streamRole], rfl⟩

theorem uses_flashUse : (Event.flashUse path).Uses url path :=
  .inr ⟨rfl, by simp [Event.flashRole]⟩

variable (g fd) in
theorem dlFlashErase_usesOnly (erased : Int) (offset length : Nat) :
    UsesOnly url path m (dlFlashErase g erased fd path offset length m).2 := by
  have hlog : UsesOnly url path m (m.log (.flashErase path offset length)) :=
    .log (.inr ⟨rfl, by simp [Event.flashRole]⟩)
  unfold dlFlashErase
  split
  · exact hlog
  · split
    · exact hlog
    · split <;> exact hlog

variable (g fd) in
theorem dlFlashWrite_usesOnly (written : WriteAnswer) (offset : Nat) (srcBuf : Bytes) :
    UsesOnly url path m (dlFlashWrite g written fd path offset srcBuf m).2 := by
  have hlog : UsesOnly url path m (m.log (.flashWrite path offset srcBuf)) :=
    .log (.inr ⟨rfl, by simp [Event.flashRole]⟩)
  unfold dlFlashWrite
  split
  · exact hlog
  · split <;> exact hlog

/-- The copy loop uses the image and the device, whatever happens in it. -/
theorem copyLoop_usesOnly (blockSize srcSize fuel offset pos : Nat) (ret : Int) (m : Machine) :
    UsesOnly url path m
      (copyLoop g a img fd url path blockSize srcSize fuel offset pos ret m).2 := by
  induction fuel generalizing offset pos ret m with
  | zero => exact .refl m
  | succ fuel ih =>
    unfold copyLoop
    split
    · have hread : UsesOnly url path m (m.log (.streamUse url)) := .log uses_streamUse
      dsimp only
      split
      · exact hread
      · have herase := hread.trans (dlFlashErase_usesOnly g fd (a.block offset).erase offset blockSize)
        split
        · exact herase
        · have hwrite := herase.trans (dlFlashWrite_usesOnly g fd (a.block offset).write offset
            ((img.drop pos).take (min (min (a.block offset).fread (min blockSize (img.length - pos)))
              blockSize)))
          split
          · exact hwrite
          · exact hwrite.trans (ih _ _ _ _)
    · exact .refl m

/-- `upgrade_do_write` gives up before it asks for the block size. -/
def StopsBeforeInfo (a : ImageAnswers) (img : Bytes) : Prop :=
  a.fseekCopy = false ∨ ftellSize a.ftell img.length = 0

variable (url path) in
/-- On a device with a block size, or without looking at it, `upgrade_do_write` leaves the
descriptor open. -/
theorem doWrite_usesOnly (hopen : g.Opens fd) (h : StopsBeforeInfo a img ∨ g.blockSize ≠ 0) :
    UsesOnly url path m (doWrite g a img fd url path m).2 := by
  have hseek : UsesOnly url path m (m.log (.streamUse url)) := .log uses_streamUse
  have htell := hseek.trans (.log (m := m.log (.streamUse url)) uses_streamUse)
  unfold doWrite
  dsimp only
  split
  · exact hseek
  · next hfseek =>
    split
    · exact htell
    · next hsize =>
      have hblock : g.blockSize ≠ 0 := by
        rcases h with (hstop | hstop) | hblock
        · exact absurd (by simp [hstop]) hfseek
        · exact absurd hstop hsize
        · exact hblock
      have hinfo := htell.trans (.log (m := (m.log (.streamUse url)).log (.streamUse url)) uses_flashUse)
      simp only [dlFlashGetInfo, hopen.1, Int.not_lt.mpr hopen.2, Bool.not_true, Bool.false_eq_true,
        ↓reduceIte, hblock]
      split
      · exact hinfo
      · exact (hinfo.trans (copyLoop_usesOnly _ _ _ _ _ _ _)).trans (.log uses_flashUse)

variable (url path) in
/-- On a device without a block size it closes the descriptor itself. -/
theorem doWrite_closes (hopen : g.Opens fd) (hgoes : ¬ StopsBeforeInfo a img) (hblock : g.blockSize = 0) :
    ∃ m', UsesOnly url path m m' ∧
      (doWrite g a img fd url path m).2 = m'.log (.flashClose path) := by
  have hfseek : a.fseekCopy = true := by
    by_contra hne
    exact hgoes (.inl (by simpa using hne))
  have hsize : ftellSize a.ftell img.length ≠ 0 := fun h => hgoes (.inr h)
  refine ⟨((m.log (.streamUse url)).log (.streamUse url)).log (.flashUse path), ?_, ?_⟩
  · exact ((UsesOnly.log uses_streamUse).trans (.log uses_streamUse)).trans (.log uses_flashUse)
  · simp [doWrite, hfseek, hsize, dlFlashGetInfo, hopen.1, Int.not_lt.mpr hopen.2, hblock,
      dlFlashClose_opens hopen]

/-! ## The whole call -/

private theorem streamRoles_of_uses {evs : List Event} (h : ∀ e ∈ evs, e.Uses url path) :
    ∀ u ∈ evs.filterMap (Event.streamRole url), u = .uses := by
  intro u hu
  obtain ⟨e, he, hrole⟩ := List.mem_filterMap.mp hu
  rcases h e he with ⟨hstream, -⟩ | ⟨hstream, -⟩
  · exact Option.some.inj (hrole.symm.trans hstream)
  · exact absurd (hrole.symm.trans hstream) (by simp)

private theorem flashRoles_of_uses {evs : List Event} (h : ∀ e ∈ evs, e.Uses url path) :
    ∀ u ∈ evs.filterMap (Event.flashRole path), u = .uses := by
  intro u hu
  obtain ⟨e, he, hrole⟩ := List.mem_filterMap.mp hu
  rcases h e he with ⟨-, hflash⟩ | ⟨-, hflash⟩
  · exact absurd (hrole.symm.trans hflash) (by simp)
  · exact Option.some.inj (hrole.symm.trans hflash)

/-- The calls up to the open device. -/
def openEvents (url path : String) : List Event :=
  [.streamOpen url, .streamUse url, .streamUse url, .flashOpen path]

/-- The calls after `upgrade_do_write`. -/
def closeEvents (a : ImageAnswers) (url path : String) : List Event :=
  [.flashClose path, .streamClose url] ++ if a.remove then [.removed url] else []

theorem streamRoles_openEvents :
    (openEvents url path).filterMap (Event.streamRole url) = [.opens, .uses, .uses] := by
  simp [openEvents, List.filterMap_cons, Event.streamRole]

theorem flashRoles_openEvents : (openEvents url path).filterMap (Event.flashRole path) = [.opens] := by
  simp [openEvents, List.filterMap_cons, Event.flashRole]

theorem streamRoles_closeEvents :
    (closeEvents a url path).filterMap (Event.streamRole url) = [.closes] := by
  cases hremove : a.remove <;> simp [closeEvents, hremove, List.filterMap_cons, Event.streamRole]

theorem flashRoles_closeEvents :
    (closeEvents a url path).filterMap (Event.flashRole path) = [.closes] := by
  cases hremove : a.remove <;> simp [closeEvents, hremove, List.filterMap_cons, Event.flashRole]

theorem writePartition_journal (hfile : (if a.fopen then m.files url else none) = some img)
    (hfseek : a.fseek = true) (hpath : ¬ path < flashDevPrefix) (hopen : g.Opens a.flashOpen) :
    (writePartition g a url path m).2.journal =
      (doWrite g a img a.flashOpen url path
        { m with journal := m.journal ++ openEvents url path }).2.journal ++ closeEvents a url path := by
  simp only [writePartition, hfile, hfseek, dlFlashOpenByName_opens hpath hopen,
    Int.not_lt.mpr hopen.2, dlFlashClose_opens hopen, Machine.log, openEvents, closeEvents,
    Bool.not_true, Bool.false_eq_true, ↓reduceIte, List.append_assoc]
  cases a.remove <;> simp [Machine.unlink]

/-- The traces of a call that opens both, with the calls of `upgrade_do_write` in between. -/
private theorem closesBoth_opened_iff {evs : List Event} {m' : Machine}
    (hjournal : m'.journal = m.journal ++ (openEvents url path ++ evs ++ closeEvents a url path)) :
    ClosesBoth url path m m' ↔
      ClosedOnce (.opens :: (.uses :: .uses :: evs.filterMap (Event.streamRole url) ++ [.closes])) ∧
        ClosedOnce (.opens :: (evs.filterMap (Event.flashRole path) ++ [.closes])) := by
  have hstream : (openEvents url path ++ evs ++ closeEvents a url path).filterMap (Event.streamRole url) =
      .opens :: (.uses :: .uses :: evs.filterMap (Event.streamRole url) ++ [.closes]) := by
    rw [List.filterMap_append, List.filterMap_append, streamRoles_openEvents, streamRoles_closeEvents]
    rfl
  have hflash : (openEvents url path ++ evs ++ closeEvents a url path).filterMap (Event.flashRole path) =
      .opens :: (evs.filterMap (Event.flashRole path) ++ [.closes]) := by
    rw [List.filterMap_append, List.filterMap_append, flashRoles_openEvents, flashRoles_closeEvents]
    rfl
  rw [← hstream, ← hflash]
  constructor
  · rintro ⟨evs', hevs', h⟩
    rwa [List.append_cancel_left (hjournal.symm.trans hevs')]
  · intro h
    exact ⟨_, hjournal, h⟩

/-- `return -1` without `fclose`, when the first `fseek` fails. -/
private theorem not_closesBoth_of_fseek (hfile : (if a.fopen then m.files url else none) = some img)
    (hfseek : a.fseek = false) : ¬ ClosesBoth url path m (writePartition g a url path m).2 := by
  have hjournal : (writePartition g a url path m).2.journal =
      m.journal ++ [.streamOpen url, .streamUse url] := by
    simp [writePartition, hfile, hfseek]
  rintro ⟨evs, hevs, hstream, -⟩
  obtain rfl := List.append_cancel_left (hevs.symm.trans hjournal)
  simp only [Event.streamRole, List.filterMap_cons, List.filterMap_nil, ↓reduceIte] at hstream
  exact Lease.not_closedOnce_of_open (by decide) hstream

/-- A device that does not open leaves the image to be closed. -/
private theorem closesBoth_of_refused (hfile : (if a.fopen then m.files url else none) = some img)
    (hfseek : a.fseek = true) (hrefused : path < flashDevPrefix ∨ ¬ g.Opens a.flashOpen) :
    ClosesBoth url path m (writePartition g a url path m).2 := by
  have hfails : ∀ m : Machine, dlFlashOpenByName g a.flashOpen path m = (-1, m) := by
    intro m
    rcases hrefused with hpath | hopen
    · by_cases hinit : g.isInit <;> simp [dlFlashOpenByName, hinit, hpath]
    · exact dlFlashOpenByName_fails hopen
  have hjournal : (writePartition g a url path m).2.journal =
      m.journal ++ [.streamOpen url, .streamUse url, .streamUse url, .streamClose url] := by
    simp [writePartition, hfile, hfseek, hfails]
  refine ⟨_, hjournal, ?_, ?_⟩
  · simp only [Event.streamRole, List.filterMap_cons, List.filterMap_nil, ↓reduceIte]
    show ClosedOnce (.opens :: ([.uses, .uses] ++ [.closes]))
    exact Lease.closedOnce_of_uses (by simp)
  · simp only [Event.flashRole, List.filterMap_cons, List.filterMap_nil]
    exact Lease.closedOnce_nil

/-- When `upgrade_do_write` leaves the descriptor open, it is closed behind it. -/
private theorem closesBoth_of_left_open (hfile : (if a.fopen then m.files url else none) = some img)
    (hfseek : a.fseek = true) (hpath : ¬ path < flashDevPrefix) (hopen : g.Opens a.flashOpen)
    (hleaves : StopsBeforeInfo a img ∨ g.blockSize ≠ 0) :
    ClosesBoth url path m (writePartition g a url path m).2 := by
  have hjournal := writePartition_journal hfile hfseek hpath hopen
  obtain ⟨evs, hevs, huses⟩ := doWrite_usesOnly url path
    (m := { m with journal := m.journal ++ openEvents url path }) hopen hleaves
  rw [hevs, List.append_assoc, List.append_assoc, ← List.append_assoc (openEvents url path)] at hjournal
  rw [closesBoth_opened_iff hjournal]
  constructor
  · apply Lease.closedOnce_of_uses
    simpa using streamRoles_of_uses huses
  · exact Lease.closedOnce_of_uses (flashRoles_of_uses huses)

/-- When `upgrade_do_write` closes the descriptor, it is closed again behind it. -/
private theorem not_closesBoth_of_closed (hfile : (if a.fopen then m.files url else none) = some img)
    (hfseek : a.fseek = true) (hpath : ¬ path < flashDevPrefix) (hopen : g.Opens a.flashOpen)
    (hgoes : ¬ StopsBeforeInfo a img) (hblock : g.blockSize = 0) :
    ¬ ClosesBoth url path m (writePartition g a url path m).2 := by
  have hjournal := writePartition_journal hfile hfseek hpath hopen
  obtain ⟨m', ⟨evs, hevs, -⟩, hdo⟩ := doWrite_closes url path
    (m := { m with journal := m.journal ++ openEvents url path }) hopen hgoes hblock
  have htrace : (writePartition g a url path m).2.journal =
      m.journal ++ (openEvents url path ++ (evs ++ [.flashClose path]) ++ closeEvents a url path) := by
    rw [hjournal, hdo, Machine.log_journal, hevs]
    simp
  rw [closesBoth_opened_iff htrace]
  have hclose : [Event.flashClose path].filterMap (Event.flashRole path) = [.closes] := by
    simp [Event.flashRole]
  rintro ⟨-, hflash⟩
  rw [List.filterMap_append, hclose, List.append_assoc, ← List.cons_append] at hflash
  exact Lease.not_closedOnce_of_closes _ hflash

/-- An update of a partition closes the image and the device once each if and only if the image
cannot be opened; or the first `fseek` succeeds, and the device does not open, or
`upgrade_do_write` gives up before it asks for the block size, or there is a block size. -/
theorem writePartition_closesBoth_iff (g : FlashCtrl) (a : ImageAnswers) (url path : String)
    (m : Machine) :
    ClosesBoth url path m (writePartition g a url path m).2 ↔
      ∀ img, (if a.fopen then m.files url else none) = some img →
        a.fseek = true ∧
          (path < flashDevPrefix ∨ ¬ g.Opens a.flashOpen ∨ StopsBeforeInfo a img ∨ g.blockSize ≠ 0) := by
  cases hfile : if a.fopen then m.files url else none with
  | none =>
    simp only [reduceCtorEq, false_implies, implies_true, iff_true]
    exact ⟨[], by simp [writePartition, hfile], Lease.closedOnce_nil, Lease.closedOnce_nil⟩
  | some img =>
    simp only [Option.some.injEq, forall_eq']
    constructor
    · intro hcloses
      have hfseek : a.fseek = true := by
        by_contra hne
        exact not_closesBoth_of_fseek hfile (by simpa using hne) hcloses
      refine ⟨hfseek, ?_⟩
      by_contra hnot
      simp only [not_or, not_not] at hnot
      obtain ⟨hpath, hopen, hgoes, hblock⟩ := hnot
      exact not_closesBoth_of_closed hfile hfseek hpath hopen hgoes hblock hcloses
    · rintro ⟨hfseek, hwhen⟩
      by_cases hrefused : path < flashDevPrefix ∨ ¬ g.Opens a.flashOpen
      · exact closesBoth_of_refused hfile hfseek hrefused
      · rw [← or_assoc] at hwhen
        have hleaves := hwhen.resolve_left hrefused
        rw [not_or, not_not] at hrefused
        exact closesBoth_of_left_open hfile hfseek hrefused.1 hrefused.2 hleaves

/-- On NAND and NOR no block size is known, and the descriptor is closed twice. -/
theorem writePartition_closes_twice :
    ¬ ClosesBoth "/userdata/boot.img" "/dev/block/by-name/boot_b"
      ⟨fun _ => some [1], fun _ _ => 0, [], []⟩
      (writePartition ⟨true, 0⟩ .faultless "/userdata/boot.img" "/dev/block/by-name/boot_b"
        ⟨fun _ => some [1], fun _ _ => 0, [], []⟩).2 := by
  rintro ⟨evs, hevs, -, hflash⟩
  have hclosed := hflash.last [.opens, .uses] [.closes]
  obtain rfl : _ = evs := hevs
  exact absurd (hclosed (by decide)) (by decide)

end Upgrade
end LinuxOta
