import OmniEvents.Lib.Directory
import OmniEvents.Lib.Transition

set_option autoImplicit false

/-! # The files of the log over starts, checkpoints and crashes

`omniEventsLog::checkpoint` writes a new file and makes it the active one by a sequence of `link` and
`unlink`. A crash, or `exit(1)` where a call fails, can come after any step; the next server starts
from the files it finds. What a file holds is a list of the things written to it, of any type.

The model carries, beside the files, what the log in force is: the checkpoint that was last committed
and the records appended since. -/

namespace OmniEvents

open Transition

/-- The three files of the log. -/
inductive LogFile where
  | active
  | backup
  | checkpoint
  deriving DecidableEq, Repr

variable {ρ : Type}

/-- Where the worker is in `checkpoint`; `dump` is what this pass writes. -/
inductive Worker (ρ : Type) where
  | idle
  | writing (fd : ℕ) (dump rest : List ρ)
  | written (dump : List ρ)
  | streamClosed (dump : List ρ)
  | backupUnlinked (dump : List ρ)
  | backupLinked (dump : List ρ)
  | activeUnlinked (dump : List ρ)
  | activeLinked
  | checkpointUnlinked

/-- The files, and the thread that writes them. `inForce` is for the observer. -/
structure LogFiles (ρ : Type) where
  disk : Directory LogFile (List ρ)
  /-- `none` while no server runs. -/
  worker : Option (Worker ρ)
  /-- `_logstream`. -/
  logstream : Option ℕ
  /-- The checkpoint last committed and the records appended since. -/
  inForce : List ρ

/-- One step of the server, of the operator, or a crash. -/
inductive LogStep (ρ : Type) where
  /-- A start that finds the active file. -/
  | start
  /-- A record is written under the `WriteLock`. -/
  | append (record : List ρ)
  /-- The checkpoint file is opened; `dump` is what is going to be written. -/
  | openCheckpoint (dump : List ρ)
  | openCheckpointFails
  | write
  | closeCheckpoint
  /-- An I/O error: the checkpoint is abandoned. -/
  | abandon
  | closeStream
  | unlinkBackup
  | linkBackup
  | unlinkActive
  | linkActive
  | unlinkCheckpoint
  | openStream
  | crash
  /-- The operator renames the backup, as the server asks for where there is no active file. -/
  | renameBackup

namespace LogFiles

/-- The steps. The lock keeps records from being appended during a pass, and the first thing that is
    written of a checkpoint, the factory, is never missing. -/
def step (s : LogFiles ρ) : LogStep ρ → Option (LogFiles ρ)
  | .start =>
      match s.worker, s.disk.entry .active with
      | none, some i => some { s with worker := some .idle, logstream := some i }
      | _, _ => none
  | .append record =>
      match s.worker, s.logstream with
      | some .idle, some i =>
          some { s with disk := s.disk.write i (s.disk.data i ++ record)
                        inForce := s.inForce ++ record }
      | _, _ => none
  | .openCheckpoint dump =>
      match s.worker with
      | some .idle =>
          if dump = [] then none
          else
            let (disk, fd) := s.disk.openTruncate .checkpoint []
            some { s with disk := disk, worker := some (.writing fd dump dump) }
      | _ => none
  | .openCheckpointFails =>
      match s.worker with
      | some .idle => some { s with disk := s.disk.unlink .checkpoint }
      | _ => none
  | .write =>
      match s.worker with
      | some (.writing fd dump (r :: rest)) =>
          some { s with disk := s.disk.write fd (s.disk.data fd ++ [r])
                        worker := some (.writing fd dump rest) }
      | _ => none
  | .closeCheckpoint =>
      match s.worker with
      | some (.writing _ dump []) => some { s with worker := some (.written dump) }
      | _ => none
  | .abandon =>
      match s.worker with
      | some (.writing _ _ _) =>
          some { s with disk := s.disk.unlink .checkpoint, worker := some .idle }
      | _ => none
  | .closeStream =>
      match s.worker with
      | some (.written dump) =>
          some { s with worker := some (.streamClosed dump), logstream := none }
      | _ => none
  | .unlinkBackup =>
      match s.worker with
      | some (.streamClosed dump) =>
          some { s with disk := s.disk.unlink .backup, worker := some (.backupUnlinked dump) }
      | _ => none
  | .linkBackup =>
      match s.worker, s.disk.link .active .backup with
      | some (.backupUnlinked dump), some disk =>
          some { s with disk := disk, worker := some (.backupLinked dump) }
      | _, _ => none
  | .unlinkActive =>
      match s.worker with
      | some (.backupLinked dump) =>
          some { s with disk := s.disk.unlink .active, worker := some (.activeUnlinked dump) }
      | _ => none
  | .linkActive =>
      match s.worker, s.disk.link .checkpoint .active with
      | some (.activeUnlinked dump), some disk =>
          some { s with disk := disk, worker := some .activeLinked, inForce := dump }
      | _, _ => none
  | .unlinkCheckpoint =>
      match s.worker with
      | some .activeLinked =>
          some { s with disk := s.disk.unlink .checkpoint, worker := some .checkpointUnlinked }
      | _ => none
  | .openStream =>
      match s.worker, s.disk.entry .active with
      | some .checkpointUnlinked, some i =>
          some { s with worker := some .idle, logstream := some i }
      | _, _ => none
  | .crash => s.worker.map (fun _ => { s with worker := none, logstream := none })
  | .renameBackup =>
      match s.worker, s.disk.entry .active, s.disk.entry .backup with
      | none, none, some i => some { s with disk := s.disk.rename .backup .active i }
      | _, _, _ => none

/-- What the next start makes of the files: the active file, or where there is none the backup. -/
def current (s : LogFiles ρ) : Option (List ρ) :=
  match s.disk.entry .active with
  | some i => some (s.disk.data i)
  | none => s.disk.read .backup

/-- The steps of a pass before the commit phase. -/
def Prepares : LogStep ρ → Prop
  | .openCheckpoint _ | .openCheckpointFails | .write | .closeCheckpoint | .abandon => True
  | _ => False

/-- Over the run `as` the files always hold the log in force, and writing or abandoning a checkpoint
    does not change the active file. -/
structure CrashSafe (s₀ : LogFiles ρ) (as : List (LogStep ρ)) : Prop where
  current : ∀ bs u, bs <+: as → Run step s₀ bs = some u → u.current = some u.inForce
  active : ∀ bs a u v, bs ++ [a] <+: as → Run step s₀ bs = some u → step u a = some v →
    Prepares a → v.disk.read .active = u.disk.read .active

/-- A server whose first checkpoint after a cold start has completed. -/
structure Settled (s : LogFiles ρ) : Prop where
  bounded : s.disk.Bounded
  worker : s.worker = some .idle
  active : ∃ i, s.disk.entry .active = some i ∧ s.logstream = some i ∧ s.disk.data i = s.inForce
  checkpoint : s.disk.entry .checkpoint = none
  inForce : s.inForce ≠ []

/-- The checkpoint file is not opened while it is the active file under another name. -/
def OpensApart (s : LogFiles ρ) : LogStep ρ → Prop
  | .openCheckpoint _ => s.disk.entry .checkpoint ≠ s.disk.entry .active
  | _ => True

/-! ## The invariant

In every phase the log in force is in one of the three files. When the checkpoint has been written,
the checkpoint file holds all of it until it is the active file. -/

/-- The active file is the inode `a`, which holds the log in force. -/
structure ActiveIs (s : LogFiles ρ) (a : ℕ) : Prop where
  entry : s.disk.entry .active = some a
  data : s.disk.data a = s.inForce

/-- The checkpoint file holds all of `dump`, in another inode than `a`. -/
structure Complete (s : LogFiles ρ) (dump : List ρ) (a : ℕ) : Prop where
  entry : ∃ fd, s.disk.entry .checkpoint = some fd ∧ fd ≠ a ∧ s.disk.data fd = dump
  ne_nil : dump ≠ []

/-- What holds of the files in each phase. While no server runs, the active file may be the
    checkpoint file as well. -/
def Files (s : LogFiles ρ) : Prop :=
  match s.worker with
  | none => s.current = some s.inForce
  | some .idle => ∃ a, s.ActiveIs a ∧ s.logstream = some a
  | some (.writing fd dump rest) =>
      ∃ a, s.ActiveIs a ∧ s.logstream = some a ∧ s.disk.entry .checkpoint = some fd ∧ fd ≠ a ∧
        s.disk.data fd ++ rest = dump ∧ dump ≠ []
  | some (.written dump) => ∃ a, s.ActiveIs a ∧ s.Complete dump a
  | some (.streamClosed dump) => ∃ a, s.ActiveIs a ∧ s.Complete dump a
  | some (.backupUnlinked dump) => ∃ a, s.ActiveIs a ∧ s.Complete dump a
  | some (.backupLinked dump) =>
      ∃ a, s.ActiveIs a ∧ s.Complete dump a ∧ s.disk.entry .backup = some a
  | some (.activeUnlinked dump) =>
      ∃ a, s.disk.entry .active = none ∧ s.disk.entry .backup = some a ∧
        s.disk.data a = s.inForce ∧ s.Complete dump a
  | some .activeLinked => ∃ a, s.ActiveIs a
  | some .checkpointUnlinked => ∃ a, s.ActiveIs a

/-- One of the files is the log that is in force, or will be as soon as the operator has renamed the
    backup. -/
structure Inv (s : LogFiles ρ) : Prop where
  bounded : s.disk.Bounded
  inForce : s.inForce ≠ []
  files : s.Files

section Steps

variable {s t : LogFiles ρ}

theorem ActiveIs.current {a : ℕ} (h : s.ActiveIs a) : s.current = some s.inForce := by
  rw [LogFiles.current, h.entry, ← h.data]

theorem ActiveIs.read {a : ℕ} (h : s.ActiveIs a) : s.disk.read .active = some s.inForce := by
  rw [Directory.read_of_entry h.entry, h.data]

/-- In every phase the files hold the log in force. -/
theorem Files.current (h : s.Files) : s.current = some s.inForce := by
  cases hworker : s.worker with
  | none => simpa only [Files, hworker] using h
  | some w =>
      cases w with
      | activeUnlinked dump =>
          simp only [Files, hworker] at h
          obtain ⟨a, hactive, hbackup, hdata, -⟩ := h
          rw [LogFiles.current, hactive]
          simp only
          rw [Directory.read_of_entry hbackup, hdata]
      | activeLinked | checkpointUnlinked =>
          simp only [Files, hworker] at h
          obtain ⟨a, hactive⟩ := h
          exact hactive.current
      | _ =>
          simp only [Files, hworker] at h
          obtain ⟨a, hactive, -⟩ := h
          exact hactive.current

theorem Settled.inv (h : s.Settled) : s.Inv where
  bounded := h.bounded
  inForce := h.inForce
  files := by
    obtain ⟨i, hentry, hstream, hdata⟩ := h.active
    rw [Files, h.worker]
    exact ⟨i, ⟨hentry, hdata⟩, hstream⟩

/-! ## One step

A lemma for each call of the system. Only the `unlink` of the active file takes a name away from the
log in force, when the backup has been linked to it; and no checkpoint file may be opened, and so
truncated, while it is the active file. -/

theorem inv_start (h : s.Inv) (hst : step s .start = some t) : t.Inv := by
  simp only [step] at hst
  split at hst
  · next i hworker hentry =>
      cases hst
      refine ⟨h.bounded, h.inForce, i, ⟨hentry, ?_⟩, rfl⟩
      have hcurrent := h.files.current
      rw [LogFiles.current, hentry] at hcurrent
      exact Option.some_inj.1 hcurrent
  · cases hst

theorem inv_append {record : List ρ} (h : s.Inv) (hst : step s (.append record) = some t) :
    t.Inv := by
  simp only [step] at hst
  split at hst
  · next i hworker hstream =>
      cases hst
      have hfiles := h.files
      simp only [Files, hworker] at hfiles
      obtain ⟨a, hactive, hstream'⟩ := hfiles
      obtain rfl : i = a := Option.some_inj.1 (hstream.symm.trans hstream')
      refine ⟨h.bounded.write, by simp [h.inForce], ?_⟩
      simp only [Files, hworker]
      exact ⟨i, ⟨hactive.entry, by simp [hactive.data]⟩, hstream⟩
  · cases hst

theorem inv_openCheckpoint {dump : List ρ} (h : s.Inv)
    (hapart : s.disk.entry .checkpoint ≠ s.disk.entry .active)
    (hst : step s (.openCheckpoint dump) = some t) : t.Inv := by
  simp only [step] at hst
  split at hst
  · next hworker =>
      split at hst
      · cases hst
      · next hdump =>
          cases hst
          have hfiles := h.files
          simp only [Files, hworker] at hfiles
          obtain ⟨a, hactive, hstream⟩ := hfiles
          have hother : s.disk.entry .checkpoint ≠ some a := by
            rw [← hactive.entry]
            exact hapart
          obtain ⟨hfd, hkeep⟩ := Directory.data_openTruncate h.bounded hactive.entry hother []
          obtain ⟨hself, hempty⟩ := s.disk.openTruncate_self .checkpoint []
          refine ⟨h.bounded.openTruncate .checkpoint [], h.inForce, a, ⟨?_, ?_⟩, hstream, hself, hfd,
            ?_, hdump⟩
          · rw [← hactive.entry]
            exact Directory.entry_openTruncate_of_ne (by decide) []
          · rw [← hactive.data]
            exact hkeep
          · rw [hempty, List.nil_append]
  · cases hst

theorem inv_openCheckpointFails (h : s.Inv) (hst : step s .openCheckpointFails = some t) :
    t.Inv := by
  simp only [step] at hst
  split at hst
  · next hworker =>
      cases hst
      have hfiles := h.files
      simp only [Files, hworker] at hfiles
      obtain ⟨a, hactive, hstream⟩ := hfiles
      refine ⟨h.bounded.unlink .checkpoint, h.inForce, ?_⟩
      simp only [Files, hworker]
      exact ⟨a, ⟨by simpa using hactive.entry, hactive.data⟩, hstream⟩
  · cases hst

theorem inv_write (h : s.Inv) (hst : step s .write = some t) : t.Inv := by
  simp only [step] at hst
  split at hst
  · next fd dump r rest hworker =>
      cases hst
      have hfiles := h.files
      simp only [Files, hworker] at hfiles
      obtain ⟨a, hactive, hstream, hentry, hfd, hdump, hne⟩ := hfiles
      refine ⟨h.bounded.write, h.inForce, a, ⟨hactive.entry, ?_⟩, hstream, hentry, hfd, ?_, hne⟩
      · simpa [Directory.data_write_of_ne hfd.symm] using hactive.data
      · simpa using hdump
  · cases hst

theorem inv_closeCheckpoint (h : s.Inv) (hst : step s .closeCheckpoint = some t) : t.Inv := by
  simp only [step] at hst
  split at hst
  · next fd dump hworker =>
      cases hst
      have hfiles := h.files
      simp only [Files, hworker] at hfiles
      obtain ⟨a, hactive, -, hentry, hfd, hdump, hne⟩ := hfiles
      exact ⟨h.bounded, h.inForce, a, ⟨hactive.entry, hactive.data⟩,
        ⟨fd, hentry, hfd, by simpa using hdump⟩, hne⟩
  · cases hst

theorem inv_abandon (h : s.Inv) (hst : step s .abandon = some t) : t.Inv := by
  simp only [step] at hst
  split at hst
  · next fd dump rest hworker =>
      cases hst
      have hfiles := h.files
      simp only [Files, hworker] at hfiles
      obtain ⟨a, hactive, hstream, -⟩ := hfiles
      exact ⟨h.bounded.unlink .checkpoint, h.inForce, a,
        ⟨by simpa using hactive.entry, hactive.data⟩, hstream⟩
  · cases hst

theorem inv_closeStream (h : s.Inv) (hst : step s .closeStream = some t) : t.Inv := by
  simp only [step] at hst
  split at hst
  · next dump hworker =>
      cases hst
      have hfiles := h.files
      simp only [Files, hworker] at hfiles
      obtain ⟨a, hactive, hcomplete⟩ := hfiles
      exact ⟨h.bounded, h.inForce, a, ⟨hactive.entry, hactive.data⟩,
        ⟨hcomplete.entry, hcomplete.ne_nil⟩⟩
  · cases hst

theorem inv_unlinkBackup (h : s.Inv) (hst : step s .unlinkBackup = some t) : t.Inv := by
  simp only [step] at hst
  split at hst
  · next dump hworker =>
      cases hst
      have hfiles := h.files
      simp only [Files, hworker] at hfiles
      obtain ⟨a, hactive, hcomplete⟩ := hfiles
      exact ⟨h.bounded.unlink .backup, h.inForce, a, ⟨by simpa using hactive.entry, hactive.data⟩,
        ⟨by simpa using hcomplete.entry, hcomplete.ne_nil⟩⟩
  · cases hst

theorem inv_linkBackup (h : s.Inv) (hst : step s .linkBackup = some t) : t.Inv := by
  simp only [step] at hst
  split at hst
  · next dump disk hworker hlink =>
      cases hst
      obtain ⟨i, hi, -, rfl⟩ := Directory.link_eq_some.1 hlink
      have hfiles := h.files
      simp only [Files, hworker] at hfiles
      obtain ⟨a, hactive, hcomplete⟩ := hfiles
      obtain rfl : i = a := Option.some_inj.1 (hi.symm.trans hactive.entry)
      exact ⟨h.bounded.update hi .backup, h.inForce, i,
        ⟨by simpa using hactive.entry, hactive.data⟩,
        ⟨by simpa using hcomplete.entry, hcomplete.ne_nil⟩, by simp⟩
  · cases hst

theorem inv_unlinkActive (h : s.Inv) (hst : step s .unlinkActive = some t) : t.Inv := by
  simp only [step] at hst
  split at hst
  · next dump hworker =>
      cases hst
      have hfiles := h.files
      simp only [Files, hworker] at hfiles
      obtain ⟨a, hactive, hcomplete, hbackup⟩ := hfiles
      exact ⟨h.bounded.unlink .active, h.inForce, a, by simp, by simpa using hbackup, hactive.data,
        by simpa using hcomplete.entry, hcomplete.ne_nil⟩
  · cases hst

/-- The commit: the log in force becomes the checkpoint. -/
theorem inv_linkActive (h : s.Inv) (hst : step s .linkActive = some t) : t.Inv := by
  simp only [step] at hst
  split at hst
  · next dump disk hworker hlink =>
      cases hst
      obtain ⟨i, hi, -, rfl⟩ := Directory.link_eq_some.1 hlink
      have hfiles := h.files
      simp only [Files, hworker] at hfiles
      obtain ⟨a, -, -, -, hcomplete⟩ := hfiles
      obtain ⟨fd, hfd, -, hdata⟩ := hcomplete.entry
      obtain rfl : i = fd := Option.some_inj.1 (hi.symm.trans hfd)
      exact ⟨h.bounded.update hi .active, hcomplete.ne_nil, i, by simp, hdata⟩
  · cases hst

theorem inv_unlinkCheckpoint (h : s.Inv) (hst : step s .unlinkCheckpoint = some t) : t.Inv := by
  simp only [step] at hst
  split at hst
  · next hworker =>
      cases hst
      have hfiles := h.files
      simp only [Files, hworker] at hfiles
      obtain ⟨a, hactive⟩ := hfiles
      exact ⟨h.bounded.unlink .checkpoint, h.inForce, a, by simpa using hactive.entry, hactive.data⟩
  · cases hst

theorem inv_openStream (h : s.Inv) (hst : step s .openStream = some t) : t.Inv := by
  simp only [step] at hst
  split at hst
  · next i hworker hentry =>
      cases hst
      have hfiles := h.files
      simp only [Files, hworker] at hfiles
      obtain ⟨a, hactive⟩ := hfiles
      obtain rfl : i = a := Option.some_inj.1 (hentry.symm.trans hactive.entry)
      exact ⟨h.bounded, h.inForce, i, ⟨hactive.entry, hactive.data⟩, rfl⟩
  · cases hst

theorem inv_crash (h : s.Inv) (hst : step s .crash = some t) : t.Inv := by
  obtain ⟨w, hworker, rfl⟩ := Option.map_eq_some_iff.1 hst
  exact ⟨h.bounded, h.inForce, h.files.current⟩

theorem inv_renameBackup (h : s.Inv) (hst : step s .renameBackup = some t) : t.Inv := by
  simp only [step] at hst
  split at hst
  · next i hworker hactive hbackup =>
      cases hst
      have hcurrent := h.files.current
      rw [LogFiles.current, hactive] at hcurrent
      refine ⟨h.bounded.rename hbackup .active, h.inForce, ?_⟩
      simp only [Files, hworker, LogFiles.current, Directory.rename]
      rw [Directory.read_of_entry hbackup] at hcurrent
      simpa using hcurrent
  · cases hst

/-- Every step that opens no checkpoint file under the active inode preserves the invariant. -/
theorem Inv.step {a : LogStep ρ} (h : s.Inv) (hapart : s.OpensApart a)
    (hst : LogFiles.step s a = some t) : t.Inv := by
  cases a with
  | start => exact inv_start h hst
  | append record => exact inv_append h hst
  | openCheckpoint dump => exact inv_openCheckpoint h hapart hst
  | openCheckpointFails => exact inv_openCheckpointFails h hst
  | write => exact inv_write h hst
  | closeCheckpoint => exact inv_closeCheckpoint h hst
  | abandon => exact inv_abandon h hst
  | closeStream => exact inv_closeStream h hst
  | unlinkBackup => exact inv_unlinkBackup h hst
  | linkBackup => exact inv_linkBackup h hst
  | unlinkActive => exact inv_unlinkActive h hst
  | linkActive => exact inv_linkActive h hst
  | unlinkCheckpoint => exact inv_unlinkCheckpoint h hst
  | openStream => exact inv_openStream h hst
  | crash => exact inv_crash h hst
  | renameBackup => exact inv_renameBackup h hst

/-- Opening the checkpoint file while it is the active one loses the log in force. -/
theorem not_current_of_openCheckpoint {dump : List ρ} (h : s.Inv)
    (hshared : s.disk.entry .checkpoint = s.disk.entry .active)
    (hst : step s (.openCheckpoint dump) = some t) : t.current ≠ some t.inForce := by
  simp only [step] at hst
  split at hst
  · next hworker =>
      split at hst
      · cases hst
      · cases hst
        have hfiles := h.files
        simp only [Files, hworker] at hfiles
        obtain ⟨a, hactive, -⟩ := hfiles
        have hentry : s.disk.entry .checkpoint = some a := hshared.trans hactive.entry
        simp only [LogFiles.current, Directory.openTruncate, hentry, Directory.entry_write,
          hactive.entry, Directory.data_write_self, ne_eq, Option.some_inj]
        exact fun hnil => h.inForce hnil.symm
  · cases hst

/-- The phases up to the commit. -/
def Preparing (s : LogFiles ρ) : Prop :=
  match s.worker with
  | some .idle | some (.writing _ _ _) | some (.written _) => True
  | _ => False

theorem Inv.read_of_preparing (h : s.Inv) (hs : s.Preparing) :
    s.disk.read .active = some s.inForce := by
  have hfiles := h.files
  rw [Preparing] at hs
  split at hs
  · next hworker =>
      simp only [Files, hworker] at hfiles
      obtain ⟨a, hactive, -⟩ := hfiles
      exact hactive.read
  · next hworker =>
      simp only [Files, hworker] at hfiles
      obtain ⟨a, hactive, -⟩ := hfiles
      exact hactive.read
  · next hworker =>
      simp only [Files, hworker] at hfiles
      obtain ⟨a, hactive, -⟩ := hfiles
      exact hactive.read
  · exact hs.elim

/-- A preparing step is taken, and ends, in a preparing phase, and it commits nothing. -/
theorem preparing_of_step {a : LogStep ρ} (ha : Prepares a) (hst : LogFiles.step s a = some t) :
    s.Preparing ∧ t.Preparing ∧ t.inForce = s.inForce := by
  cases a with
  | openCheckpoint dump =>
      simp only [LogFiles.step] at hst
      split at hst
      · next hworker =>
          split at hst
          · cases hst
          · cases hst
            simp [Preparing, hworker]
      · cases hst
  | openCheckpointFails | write | closeCheckpoint | abandon =>
      simp only [LogFiles.step] at hst
      split at hst
      · next hworker =>
          cases hst
          simp [Preparing, hworker]
      · cases hst
  | _ => exact ha.elim

end Steps

/-! ## Whole histories -/

section Runs

variable {s₀ t : LogFiles ρ} {as : List (LogStep ρ)}

theorem Settled.inv_of_run (h : s₀.Settled) (hok : Along LogFiles.step OpensApart s₀ as)
    (hrun : Run LogFiles.step s₀ as = some t) : t.Inv :=
  Run.invariant_of_along (fun _ _ _ hs ha hst => hs.step ha hst) h.inv hok hrun

theorem Settled.crashSafe (h : s₀.Settled) (hok : Along LogFiles.step OpensApart s₀ as) :
    s₀.CrashSafe as where
  current bs u hbs hu := (h.inv_of_run (along_initial hbs hok) hu).files.current
  active bs a u v hbs hu hst ha := by
    have hconcat := along_initial hbs hok
    have hinv := h.inv_of_run ((along_concat hu).1 hconcat).1 hu
    have hinv' := h.inv_of_run hconcat (run_concat.2 ⟨u, hu, hst⟩)
    obtain ⟨hs, hs', heq⟩ := preparing_of_step ha hst
    rw [hinv.read_of_preparing hs, hinv'.read_of_preparing hs', heq]

theorem CrashSafe.initial {bs : List (LogStep ρ)} (h : s₀.CrashSafe as) (hbs : bs <+: as) :
    s₀.CrashSafe bs where
  current cs u hcs hu := h.current cs u (hcs.trans hbs) hu
  active cs a u v hcs hu hst ha := h.active cs a u v (hcs.trans hbs) hu hst ha

/-- **Crash safety over whole histories**: the files hold the log in force after every step exactly
    if no checkpoint file is opened while it is the active file as well. -/
theorem crashSafe_iff (h : s₀.Settled) (hrun : Run LogFiles.step s₀ as = some t) :
    s₀.CrashSafe as ↔ Along LogFiles.step OpensApart s₀ as := by
  refine ⟨?_, h.crashSafe⟩
  refine Run.induct (P := fun as _ => s₀.CrashSafe as → Along LogFiles.step OpensApart s₀ as)
    (fun _ => trivial) ?_ hrun
  intro as s a u hs ih hst hsafe
  have hok := ih (hsafe.initial (List.prefix_append as [a]))
  have hinv := h.inv_of_run hok hs
  refine (along_concat hs).2 ⟨hok, ?_⟩
  cases a with
  | openCheckpoint dump =>
      intro hshared
      exact not_current_of_openCheckpoint hinv hshared hst
        (hsafe.current _ u (List.prefix_refl _) (run_concat.2 ⟨s, hs, hst⟩))
  | _ => trivial

end Runs

/-! ## Two histories -/

/-- A server whose log in force is `[1]`. -/
def settled : LogFiles ℕ :=
  { disk := { entry := fun name => if name = .active then some 0 else none
              data := fun i => if i = 0 then [1] else []
              next := 1 }
    worker := some .idle, logstream := some 0, inForce := [1] }

theorem settled_settled : settled.Settled where
  bounded name i hi := by
    cases name <;> simp_all [settled]
  worker := rfl
  active := ⟨0, rfl, rfl, rfl⟩
  checkpoint := rfl
  inForce := by simp [settled]

/-- A pass that writes the checkpoint `[2]`, up to its last step but three. -/
def commits : List (LogStep ℕ) :=
  [.openCheckpoint [2], .write, .closeCheckpoint, .closeStream, .unlinkBackup, .linkBackup,
    .unlinkActive, .linkActive]

/-- A crash before the checkpoint file is unlinked; the next server opens it, and the active file is
    empty. -/
theorem crash_loses_log :
    (Run LogFiles.step settled (commits ++ [.crash, .start, .openCheckpoint [3]])).map
        (fun u => (u.current, u.inForce)) = some (some [], [2]) ∧
      ¬settled.CrashSafe (commits ++ [.crash, .start, .openCheckpoint [3]]) := by
  have hrun : (Run LogFiles.step settled (commits ++ [.crash, .start, .openCheckpoint [3]])).map
      (fun u => (u.current, u.inForce)) = some (some [], [2]) := by decide
  refine ⟨hrun, ?_⟩
  intro h
  obtain ⟨u, hu, heq⟩ := Option.map_eq_some_iff.1 hrun
  have hcurrent := h.current _ u (List.prefix_refl _) hu
  rw [(Prod.mk.inj heq).1, (Prod.mk.inj heq).2] at hcurrent
  exact absurd hcurrent (by decide)

/-- A crash after it is unlinked is safe. -/
theorem crash_keeps_log :
    settled.CrashSafe (commits ++ [.unlinkCheckpoint, .crash, .start, .openCheckpoint [3]]) := by
  obtain ⟨t, ht⟩ : ∃ t, Run LogFiles.step settled
      (commits ++ [.unlinkCheckpoint, .crash, .start, .openCheckpoint [3]]) = some t :=
    Option.isSome_iff_exists.1 (by decide)
  have hfirst : settled.disk.entry .checkpoint ≠ settled.disk.entry .active := by decide
  refine (crashSafe_iff settled_settled ht).2 ⟨hfirst, ?_⟩
  -- the steps up to the next opening
  refine ⟨trivial, trivial, trivial, trivial, trivial, trivial, trivial, trivial, trivial, trivial,
    ?_, trivial⟩
  show (none : Option ℕ) ≠ some 1
  decide

end LogFiles

end OmniEvents
