-- SUMMARY: The machine the program runs on: files, devices, the kernel command line, and the journal of calls made.
import LinuxOta.Base.Bytes

namespace LinuxOta

/-! # The machine

The program is a sequence of library and driver calls. Each modelled function
takes the answers these calls give as an argument, changes the files and devices
accordingly, and enters every call that matters outside in the journal. -/

/-- The results `rk_upgrade_packet` publishes on the event hub. -/
inductive UpgradeEvent where
  | resultSuccess
  | resultFailure
  deriving DecidableEq, Repr

/-- One entry of the journal. Streams are named by their path, flash descriptors
by the device they were opened on. -/
inductive Event where
  | system (cmd : String)
  | streamOpen (url : String)
  /-- `fseek`, `ftell`, `rewind` or `fread`. -/
  | streamUse (url : String)
  | streamClose (url : String)
  | removed (url : String)
  | flashOpen (path : String)
  /-- `dl_flash_get_info` or `fsync`. -/
  | flashUse (path : String)
  | flashRead (path : String) (offset length : Nat)
  | flashErase (path : String) (offset length : Nat)
  | flashWrite (path : String) (offset : Nat) (data : Bytes)
  | flashClose (path : String)
  /-- `block_write` or `mtd_write` is called. -/
  | copyImage (src dest : String)
  /-- `rk_ab_meta_active_another_slot` is called. -/
  | activateAnotherSlot
  | publish (event : UpgradeEvent) (result : Int)
  deriving DecidableEq, Repr

/-- The device an event erases or writes. -/
def Event.target : Event → Option String
  | flashErase path _ _ => some path
  | flashWrite path _ _ => some path
  | _ => none

/-- The device a flash event is about. -/
def Event.device : Event → Option String
  | flashOpen path => some path
  | flashUse path => some path
  | flashRead path _ _ => some path
  | flashErase path _ _ => some path
  | flashWrite path _ _ => some path
  | flashClose path => some path
  | _ => none

/-- The event erases or writes a device. -/
def Event.modifies (e : Event) : Bool := e.target.isSome

namespace Event

@[simp] theorem modifies_system (cmd : String) : (system cmd).modifies = false := rfl
@[simp] theorem modifies_activateAnotherSlot : activateAnotherSlot.modifies = false := rfl
@[simp] theorem modifies_publish (event : UpgradeEvent) (result : Int) :
    (publish event result).modifies = false := rfl
@[simp] theorem modifies_flashErase (path : String) (offset length : Nat) :
    (flashErase path offset length).modifies = true := rfl
@[simp] theorem modifies_flashWrite (path : String) (offset : Nat) (data : Bytes) :
    (flashWrite path offset data).modifies = true := rfl

end Event

/-- The events that change something or order it to be changed. The others open, read
and close. -/
def Event.acts : Event → Bool
  | system _ => true
  | flashErase _ _ _ => true
  | flashWrite _ _ _ => true
  | copyImage _ _ => true
  | activateAnotherSlot => true
  | publish _ _ => true
  | _ => false

theorem Event.acts_of_target {e : Event} {path : String} (h : e.target = some path) :
    e.acts = true := by
  cases e <;> simp_all [target, acts]

structure Machine where
  files : String → Option Bytes
  devs : String → Content
  cmdline : List Char
  journal : List Event

namespace Machine

def log (m : Machine) (e : Event) : Machine :=
  { m with journal := m.journal ++ [e] }

/-- Bytes `b` reach the device at `path`, from offset `off` on. -/
def store (m : Machine) (path : String) (off : Nat) (b : Bytes) : Machine :=
  { m with devs := Function.update m.devs path ((m.devs path).overwrite off b) }

/-- The file at `url` is removed. -/
def unlink (m : Machine) (url : String) : Machine :=
  { m with files := Function.update m.files url none }

/-- The machine with other content on the device at `path`. -/
def withDev (m : Machine) (path : String) (c : Content) : Machine :=
  { m with devs := Function.update m.devs path c }

@[simp] theorem log_files (m : Machine) (e : Event) : (m.log e).files = m.files := rfl
@[simp] theorem log_devs (m : Machine) (e : Event) : (m.log e).devs = m.devs := rfl
@[simp] theorem log_cmdline (m : Machine) (e : Event) : (m.log e).cmdline = m.cmdline := rfl
@[simp] theorem log_journal (m : Machine) (e : Event) : (m.log e).journal = m.journal ++ [e] := rfl

@[simp] theorem store_files (m : Machine) (path : String) (off : Nat) (b : Bytes) :
    (m.store path off b).files = m.files := rfl
@[simp] theorem store_cmdline (m : Machine) (path : String) (off : Nat) (b : Bytes) :
    (m.store path off b).cmdline = m.cmdline := rfl
@[simp] theorem store_journal (m : Machine) (path : String) (off : Nat) (b : Bytes) :
    (m.store path off b).journal = m.journal := rfl
@[simp] theorem store_devs_self (m : Machine) (path : String) (off : Nat) (b : Bytes) :
    (m.store path off b).devs path = (m.devs path).overwrite off b := by simp [store]
@[simp] theorem store_devs_of_ne {m : Machine} {path path' : String} {off : Nat} {b : Bytes}
    (h : path' ≠ path) : (m.store path off b).devs path' = m.devs path' := by simp [store, h]

@[simp] theorem withDev_devs_self (m : Machine) (path : String) (c : Content) :
    (m.withDev path c).devs path = c := by simp [withDev]

@[simp] theorem unlink_devs (m : Machine) (url : String) : (m.unlink url).devs = m.devs := rfl
@[simp] theorem unlink_cmdline (m : Machine) (url : String) :
    (m.unlink url).cmdline = m.cmdline := rfl
@[simp] theorem unlink_journal (m : Machine) (url : String) :
    (m.unlink url).journal = m.journal := rfl
@[simp] theorem unlink_files_of_ne {m : Machine} {url url' : String} (h : url' ≠ url) :
    (m.unlink url).files url' = m.files url' := by simp [unlink, h]

/-! ## What a call performs -/

/-- `m'` is a later state than `m`, and `acts` are the acts in between. -/
structure Performs (m m' : Machine) (acts : List Event) : Prop where
  cmdline : m'.cmdline = m.cmdline
  journal : ∃ evs, m'.journal = m.journal ++ evs ∧ evs.filter Event.acts = acts

/-- Event `e` is entered in the journal between `m` and `m'`. -/
def Issued (m m' : Machine) (e : Event) : Prop :=
  ∃ evs, m'.journal = m.journal ++ evs ∧ e ∈ evs

theorem Performs.refl (m : Machine) : m.Performs m [] := ⟨rfl, [], by simp⟩

theorem Performs.trans {m m' m'' : Machine} {acts acts' : List Event} (h : m.Performs m' acts)
    (h' : m'.Performs m'' acts') : m.Performs m'' (acts ++ acts') := by
  obtain ⟨evs, hevs, rfl⟩ := h.journal
  obtain ⟨evs', hevs', rfl⟩ := h'.journal
  exact ⟨h'.cmdline.trans h.cmdline, evs ++ evs', by simp [hevs', hevs], by simp⟩

theorem Performs.log_act {m m' : Machine} {acts : List Event} (h : m.Performs m' acts) {e : Event}
    (he : e.acts = true) : m.Performs (m'.log e) (acts ++ [e]) :=
  h.trans ⟨rfl, [e], by simp, by simp [he]⟩

/-- The erases and writes are among the acts. -/
theorem Performs.modifies {m m' : Machine} {acts : List Event} (h : m.Performs m' acts) :
    ∃ evs, m'.journal = m.journal ++ evs ∧ evs.filter Event.modifies = acts.filter Event.modifies := by
  obtain ⟨evs, hevs, rfl⟩ := h.journal
  refine ⟨evs, hevs, ?_⟩
  rw [List.filter_filter]
  refine List.filter_congr fun e _ => ?_
  cases e <;> rfl

/-- An act is issued exactly when it is among the acts performed. -/
theorem Performs.issued_iff {m m' : Machine} {acts : List Event} (h : m.Performs m' acts)
    {e : Event} (he : e.acts = true) : m.Issued m' e ↔ e ∈ acts := by
  obtain ⟨evs, hevs, rfl⟩ := h.journal
  constructor
  · rintro ⟨evs', hevs', hmem⟩
    rw [List.append_cancel_left (hevs.symm.trans hevs')]
    exact List.mem_filter.mpr ⟨hmem, he⟩
  · intro hmem
    exact ⟨evs, hevs, (List.mem_filter.mp hmem).1⟩

end Machine
end LinuxOta
