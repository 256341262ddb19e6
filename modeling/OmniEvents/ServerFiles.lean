import OmniEvents.CheckpointCommit
import OmniEvents.ServerLife

set_option autoImplicit false

/-! # A server and its files

`ServerLife` has a log that is a value, and a checkpoint that is one step; `CheckpointCommit` has
files and single calls of the system, and does not know what is in them. Here the server writes to
the files: characters are appended to the active one, a pass writes the text of the live factory and
commits it step by step, a crash may come after each step, and a start reads what it finds. An
operation that has something to write waits for the lock that a pass holds; one that has not may come
in the middle of the pass, and must not make the text that is being written out of date. -/

namespace OmniEvents

open Transition
open LogRecord (Clean replay)
open PersistNode (ReadState logWords)

variable {Ref : Type}

/-! ## Records and empty lines -/

namespace LogRecord

/-- The text has the records of the log, and empty lines where checkpoints end. -/
inductive Lines : List LogRecord → Str → Prop where
  | nil : Lines [] []
  | records {log : List LogRecord} {text : Str} (h : Lines log text) (more : List LogRecord) :
      Lines (log ++ more) (text ++ more.flatMap LogRecord.text)
  | line {log : List LogRecord} {text : Str} (h : Lines log text) : Lines log (text ++ ['\n'])

section Lines

variable {log : List LogRecord} {text : Str}

theorem logWords_log (hclean : ∀ r ∈ log, r.Clean) (rest : Str) :
    logWords (log.flatMap LogRecord.text ++ rest) = log.flatMap words ++ logWords rest := by
  induction log with
  | nil => rfl
  | cons r log ih =>
      obtain ⟨hr, hlog⟩ := List.forall_mem_cons.1 hclean
      rw [List.flatMap_cons, List.append_assoc, logWords_text hr, ih hlog, List.flatMap_cons,
        List.append_assoc]

theorem read_log_words (hclean : ∀ r ∈ log, r.Clean) (root : PersistNode) :
    ReadState.read ⟨root, none⟩ (log.flatMap words) = ⟨log.foldl apply root, none⟩ := by
  induction log generalizing root with
  | nil => rfl
  | cons r log ih =>
      obtain ⟨hr, hlog⟩ := List.forall_mem_cons.1 hclean
      rw [List.flatMap_cons, read_words hr, ih hlog, List.foldl_cons]

theorem Lines.logWords_eq (h : Lines log text) (hclean : ∀ r ∈ log, r.Clean) (rest : Str) :
    logWords (text ++ rest) = log.flatMap words ++ logWords rest := by
  induction h generalizing rest with
  | nil => rfl
  | records h more ih =>
      obtain ⟨hlog, hmore⟩ := List.forall_mem_append.1 hclean
      rw [List.append_assoc, ih hlog, logWords_log hmore, List.flatMap_append, List.append_assoc]
  | line h ih =>
      rw [List.append_assoc, ih hclean]
      exact congrArg _ (IStream.words_space_append (by decide) rest)

/-- The empty lines make no difference to the parser. -/
theorem Lines.parse_eq (h : Lines log text) (hclean : ∀ r ∈ log, r.Clean) :
    PersistNode.parse text = replay log := by
  have hread := read_log_words hclean PersistNode.empty
  have hwords : logWords text = log.flatMap words := by
    simpa [logWords, IStream.words_nil] using h.logWords_eq hclean []
  rw [← hwords] at hread
  rw [PersistNode.parse_eq (by rw [hread]), hread, replay]

end Lines

end LogRecord

/-! ## The server on its files

The steps of `ServerLife`, of which the log is now a file, together with those of
`CheckpointCommit`, of which the text is now that of a factory. -/

/-- A call of a client, the end of a channel, or a late reply. -/
def Server.Action.isOperation : Server.Action Ref → Bool
  | .create_object .. | .channelEnds .. | .call .. | .lateReply .. => true
  | .checkpoint | .restart .. => false

/-- A call of the system in a pass, a crash, or what the operator does. -/
def LogStep.isCall {ρ : Type} : LogStep ρ → Bool
  | .start | .append _ | .openCheckpoint _ => false
  | _ => true

/-- The call that makes the checkpoint file the active one. -/
def LogStep.commits {ρ : Type} : LogStep ρ → Bool
  | .linkActive => true
  | _ => false

/-- What the pass is going to make the log in force. -/
def LogFiles.pending {ρ : Type} (s : LogFiles ρ) : Option (List ρ) :=
  match s.worker with
  | some (.writing _ dump _) | some (.written dump) | some (.streamClosed dump)
  | some (.backupUnlinked dump) | some (.backupLinked dump) | some (.activeUnlinked dump) => some dump
  | some .idle | some .activeLinked | some .checkpointUnlinked | none => none

/-- The server, and its files. -/
structure DiskServer (Ref : Type) where
  /-- The factory of the server that runs, or of the last one. -/
  factory : EventChannelFactory Ref
  /-- There has been a checkpoint since the start. -/
  checkpointed : Bool
  files : LogFiles Char

namespace DiskServer

/-- An operation of the server, a call of the system, or a start. -/
inductive Action (Ref : Type) where
  | operate (a : Server.Action Ref)
  | openCheckpoint
  | start (options : Options) (env : Env)
  | call (a : LogStep Char)

/-- After a cold start and its first checkpoint. -/
def new (orb : Orb Ref) (port : ℕ) (endPointNoListen : Str) : DiskServer Ref :=
  let factory : EventChannelFactory Ref := ⟨port, endPointNoListen, []⟩
  let text := (checkpointText orb factory).getD []
  { factory := factory
    checkpointed := true
    files := { disk := { entry := fun name => if name = .active then some 0 else none
                         data := fun i => if i = 0 then text else []
                         next := 1 }
               worker := some .idle, logstream := some 0, inForce := text } }

/-- The steps. What is appended waits for the lock that a pass has. -/
def step (orb : Orb Ref) (d : DiskServer Ref) : Action Ref → Option (DiskServer Ref)
  | .operate a =>
      if a.isOperation && d.files.worker.isSome then
        (Server.step orb ⟨d.factory, [], d.checkpointed⟩ a).bind fun s =>
          -- no lock is needed
          if s.log.isEmpty then some { d with factory := s.factory }
          else
            (d.files.step (.append s.text)).map fun files =>
              { d with factory := s.factory, files := files }
      else none
  | .openCheckpoint =>
      (checkpointText orb d.factory).bind fun text =>
        (d.files.step (.openCheckpoint text)).map fun files => { d with files := files }
  | .start options env =>
      (d.files.disk.read .active).bind fun text =>
        (Server.start orb options env text).bind fun f =>
          (d.files.step .start).map fun files => ⟨f, false, files⟩
  | .call a =>
      if a.isCall then
        (d.files.step a).map fun files =>
          { d with checkpointed := d.checkpointed || a.commits, files := files }
      else none

/-- The conditions of a `Server` on the strings of clients and on restarts, and that of its files. -/
def Proper (orb : Orb Ref) (d : DiskServer Ref) : Action Ref → Prop
  | .operate a => Server.Proper orb ⟨d.factory, [], d.checkpointed⟩ a
  | .openCheckpoint => d.files.disk.entry .checkpoint ≠ d.files.disk.entry .active
  | .start _ _ => d.checkpointed = true
  | .call _ => True

/-! ## What the calls do to the log in force -/

section Calls

variable {ρ : Type} {s t : LogFiles ρ}

theorem step_call {a : LogStep ρ} (ha : a.isCall = true) (hst : s.step a = some t) :
    (a.commits = false ∧ t.inForce = s.inForce ∧ ∀ dump ∈ t.pending, dump ∈ s.pending) ∨
    (a.commits = true ∧ t.inForce ∈ s.pending ∧ t.pending = none) := by
  cases a with
  | start => cases ha
  | append record => cases ha
  | openCheckpoint dump => cases ha
  | linkActive =>
      simp only [LogFiles.step] at hst
      split at hst
      · next dump disk hworker hlink =>
          cases hst
          exact Or.inr ⟨rfl, by simp [LogFiles.pending, hworker], rfl⟩
      · cases hst
  | crash =>
      obtain ⟨w, hworker, rfl⟩ := Option.map_eq_some_iff.1 hst
      exact Or.inl ⟨rfl, rfl, by simp [LogFiles.pending]⟩
  | renameBackup =>
      simp only [LogFiles.step] at hst
      split at hst
      · next hworker hactive hbackup =>
          cases hst
          exact Or.inl ⟨rfl, rfl, by simp [LogFiles.pending, hworker]⟩
      · cases hst
  | linkBackup =>
      simp only [LogFiles.step] at hst
      split at hst
      · next dump disk hworker hlink =>
          cases hst
          exact Or.inl ⟨rfl, rfl, by simp [LogFiles.pending, hworker]⟩
      · cases hst
  | openStream =>
      simp only [LogFiles.step] at hst
      split at hst
      · cases hst
        exact Or.inl ⟨rfl, rfl, by simp [LogFiles.pending]⟩
      · cases hst
  | _ =>
      simp only [LogFiles.step] at hst
      split at hst
      · next hworker =>
          cases hst
          exact Or.inl ⟨rfl, rfl, by simp [LogFiles.pending, hworker]⟩
      · cases hst

theorem step_append {record : List ρ} (hst : s.step (.append record) = some t) :
    s.pending = none ∧ t.pending = none ∧ t.inForce = s.inForce ++ record := by
  simp only [LogFiles.step] at hst
  split at hst
  · next hworker hstream =>
      cases hst
      exact ⟨by simp [LogFiles.pending, hworker], by simp [LogFiles.pending, hworker], rfl⟩
  · cases hst

theorem step_openCheckpoint {dump : List ρ} (hst : s.step (.openCheckpoint dump) = some t) :
    t.inForce = s.inForce ∧ t.pending = some dump := by
  simp only [LogFiles.step] at hst
  split at hst
  · split at hst
    · cases hst
    · cases hst
      exact ⟨rfl, rfl⟩
  · cases hst

theorem step_start (hst : s.step .start = some t) :
    s.worker = none ∧ t.inForce = s.inForce ∧ t.pending = none := by
  simp only [LogFiles.step] at hst
  split at hst
  · next hworker hactive =>
      cases hst
      exact ⟨hworker, rfl, rfl⟩
  · cases hst

/-- What a start reads is the log in force. -/
theorem read_of_inv {text : List ρ} (hs : s.Inv) (hread : s.disk.read .active = some text) :
    text = s.inForce := by
  have hcurrent := hs.files.current
  obtain ⟨i, hentry, rfl⟩ := Option.map_eq_some_iff.1 hread
  rw [LogFiles.current, hentry] at hcurrent
  exact Option.some.inj hcurrent

end Calls

/-! ## The invariant -/

section Invariant

variable {orb : Orb Ref} {port : ℕ} {endPointNoListen : Str} {d e : DiskServer Ref}
  {f : EventChannelFactory Ref} {checkpointed : Bool} {text : Str}

/-- The text is a log of a server with this factory. -/
def Holds (orb : Orb Ref) (port : ℕ) (endPointNoListen : Str) (f : EventChannelFactory Ref)
    (checkpointed : Bool) (text : Str) : Prop :=
  ∃ log, LogRecord.Lines log text ∧
    (⟨f, log, checkpointed⟩ : Server Ref).Inv orb port endPointNoListen

/-- The files hold a log, and it is that of the live factory. -/
structure Inv (orb : Orb Ref) (port : ℕ) (endPointNoListen : Str) (d : DiskServer Ref) : Prop where
  files : d.files.Inv
  inForce : Holds orb port endPointNoListen d.factory d.checkpointed d.files.inForce
  /-- What a pass writes is up to date until it is committed. -/
  pending : ∀ text ∈ d.files.pending, Holds orb port endPointNoListen d.factory true text

/-- An operation looks at no log, and appends to it. -/
theorem step_log {a : Server.Action Ref} (ha : a.isOperation = true) (log : List LogRecord)
    {s : Server Ref} {b : Bool} (h : Server.step orb ⟨f, [], b⟩ a = some s) :
    Server.step orb ⟨f, log, checkpointed⟩ a = some ⟨s.factory, log ++ s.log, checkpointed⟩ := by
  cases a with
  | create_object count mypid sec others insNames k criteria =>
      simp only [Server.step] at h ⊢
      split at h
      · cases h
        simp
      · cases h
        simp
  | channelEnds channelName =>
      simp only [Server.step] at h ⊢
      split at h
      · cases h
        simp_all
      · cases h
  | call channelName a =>
      simp only [Server.step, Option.bind_eq_some_iff, Option.map_eq_some_iff] at h ⊢
      obtain ⟨c, hfind, ⟨c', records⟩, hcall, rfl⟩ := h
      exact ⟨c, hfind, ⟨c', records⟩, hcall, by simp⟩
  | lateReply connection r =>
      cases h
      simp [Server.step]
  | checkpoint => cases ha
  | restart options env => cases ha

theorem Holds.operate (horb : orb.Lawful) (hport : port < 2 ^ 31)
    (hendPoint : ∀ ch ∈ endPointNoListen, isSpace ch = false)
    (h : Holds orb port endPointNoListen f checkpointed text) {a : Server.Action Ref}
    (ha : a.isOperation = true) {b : Bool} (hproper : Server.Proper orb ⟨f, [], b⟩ a)
    {s : Server Ref} (hst : Server.step orb ⟨f, [], b⟩ a = some s) :
    Holds orb port endPointNoListen s.factory checkpointed (text ++ s.text) := by
  obtain ⟨log, hlines, hs⟩ := h
  refine ⟨log ++ s.log, hlines.records s.log, ?_⟩
  refine hs.step horb hport hendPoint (a := a) ?_ (step_log ha log hst)
  cases a with
  | create_object count mypid sec others insNames k criteria => exact hproper
  | channelEnds channelName => trivial
  | call channelName a => trivial
  | lateReply connection r => exact hproper
  | checkpoint => cases ha
  | restart options env => cases ha

/-- A checkpoint of the live factory. -/
theorem Holds.checkpoint (horb : orb.Lawful) (hport : port < 2 ^ 31)
    (hendPoint : ∀ ch ∈ endPointNoListen, isSpace ch = false)
    (h : Holds orb port endPointNoListen f checkpointed text) {dump : Str}
    (hdump : checkpointText orb f = some dump) : Holds orb port endPointNoListen f true dump := by
  obtain ⟨log, -, hs⟩ := h
  have houtput := Server.output_of_sound hs.sound
  simp only at houtput
  rw [checkpointText, houtput] at hdump
  obtain rfl := Option.some.inj hdump
  refine ⟨f.log orb, (LogRecord.Lines.nil.records (f.log orb)).line, ?_⟩
  refine hs.step horb hport hendPoint (a := .checkpoint) trivial ?_
  simp only [Server.step, houtput]

theorem start_congr {options : Options} {env : Env} {text' : Str}
    (h : PersistNode.parse text = PersistNode.parse text') :
    Server.start orb options env text = Server.start orb options env text' := by
  rw [Server.start, Server.start, parseLog, parseLog, h]

/-- What the text says of the server. -/
theorem Holds.mirrors (h : Holds orb port endPointNoListen f true text) :
    f.Mirrors orb (PersistNode.parse text) := by
  obtain ⟨log, hlines, hs⟩ := h
  rw [hlines.parse_eq hs.clean]
  exact hs.mirrors rfl

/-- A start from a text that is a log of the server. -/
theorem Holds.start (horb : orb.Lawful) (hport : port < 2 ^ 31)
    (h : Holds orb port endPointNoListen f true text) {options : Options} {env : Env}
    {f' : EventChannelFactory Ref} (hstart : Server.start orb options env text = some f') :
    Server.Restored orb env f f' ∧ Holds orb port endPointNoListen f' false text := by
  obtain ⟨log, hlines, hs⟩ := h
  have hparse : PersistNode.parse text = PersistNode.parse (⟨f, log, true⟩ : Server Ref).text := by
    rw [Server.parse_text hs.clean, hlines.parse_eq hs.clean]
  rw [start_congr hparse] at hstart
  obtain ⟨hrestored, hinv⟩ := hs.start horb hport rfl hstart
  exact ⟨hrestored, log, hlines, hinv⟩

theorem Inv.step (horb : orb.Lawful) (hport : port < 2 ^ 31)
    (hendPoint : ∀ ch ∈ endPointNoListen, isSpace ch = false)
    (hd : d.Inv orb port endPointNoListen) {a : Action Ref} (hproper : d.Proper orb a)
    (hst : d.step orb a = some e) : e.Inv orb port endPointNoListen := by
  cases a with
  | operate a =>
      simp only [DiskServer.step] at hst
      split at hst
      case isFalse => cases hst
      next henabled =>
      obtain ⟨ha, -⟩ := (Bool.and_eq_true _ _).mp henabled
      obtain ⟨s, hs, hst⟩ := Option.bind_eq_some_iff.1 hst
      split at hst
      · next hempty =>
          -- the texts stay as they are
          have hnil : s.text = [] := by rw [Server.text, List.isEmpty_iff.1 hempty, List.flatMap_nil]
          have hoperate : ∀ {checkpointed : Bool} {text : Str},
              Holds orb port endPointNoListen d.factory checkpointed text →
                Holds orb port endPointNoListen s.factory checkpointed text := by
            intro checkpointed text h
            simpa [hnil] using h.operate horb hport hendPoint ha hproper hs
          cases hst
          exact ⟨hd.files, hoperate hd.inForce, fun text htext => hoperate (hd.pending text htext)⟩
      · obtain ⟨files, hfiles, rfl⟩ := Option.map_eq_some_iff.1 hst
        obtain ⟨-, hpending, hinForce⟩ := step_append hfiles
        refine ⟨hd.files.step (a := .append s.text) trivial hfiles, ?_, by simp [hpending]⟩
        show Holds _ _ _ _ _ files.inForce
        rw [hinForce]
        exact hd.inForce.operate horb hport hendPoint ha hproper hs
  | openCheckpoint =>
      obtain ⟨text, htext, hst⟩ := Option.bind_eq_some_iff.1 hst
      obtain ⟨files, hfiles, rfl⟩ := Option.map_eq_some_iff.1 hst
      obtain ⟨hinForce, hpending⟩ := step_openCheckpoint hfiles
      refine ⟨hd.files.step (a := .openCheckpoint text) hproper hfiles,
        hinForce.symm ▸ hd.inForce, ?_⟩
      intro dump hdump
      rw [hpending] at hdump
      cases hdump
      exact hd.inForce.checkpoint horb hport hendPoint htext
  | start options env =>
      obtain ⟨text, hread, hst⟩ := Option.bind_eq_some_iff.1 hst
      obtain ⟨f, hf, hst⟩ := Option.bind_eq_some_iff.1 hst
      obtain ⟨files, hfiles, rfl⟩ := Option.map_eq_some_iff.1 hst
      obtain ⟨-, hinForce, hpending⟩ := step_start hfiles
      obtain rfl := read_of_inv hd.files hread
      have hholds := hd.inForce
      rw [show d.checkpointed = true from hproper] at hholds
      refine ⟨hd.files.step (a := .start) trivial hfiles, ?_, by simp [hpending]⟩
      show Holds _ _ _ _ _ files.inForce
      rw [hinForce]
      exact (hholds.start horb hport hf).2
  | call a =>
      simp only [DiskServer.step] at hst
      split at hst
      case isFalse => cases hst
      next ha =>
      obtain ⟨files, hfiles, rfl⟩ := Option.map_eq_some_iff.1 hst
      have hapart : d.files.OpensApart a := by
        cases a with
        | openCheckpoint dump => cases ha
        | _ => trivial
      refine ⟨hd.files.step hapart hfiles, ?_, ?_⟩
      · rcases step_call ha hfiles with ⟨hcommits, hinForce, -⟩ | ⟨hcommits, hinForce, -⟩
        · simpa [hcommits, hinForce] using hd.inForce
        · simpa [hcommits] using hd.pending _ hinForce
      · rcases step_call ha hfiles with ⟨-, -, hpending⟩ | ⟨-, -, hpending⟩
        · exact fun text htext => hd.pending text (hpending text htext)
        · simp [hpending]

theorem inv_new (horb : orb.Lawful) (hport : port < 2 ^ 31)
    (hendPoint : ∀ ch ∈ endPointNoListen, isSpace ch = false) :
    (new orb port endPointNoListen).Inv orb port endPointNoListen := by
  have hcold : Holds orb port endPointNoListen ⟨port, endPointNoListen, []⟩ false [] :=
    ⟨[], .nil, Server.inv_cold⟩
  obtain ⟨text, htext⟩ : ∃ text, checkpointText orb (⟨port, endPointNoListen, []⟩ :
      EventChannelFactory Ref) = some text := ⟨_, rfl⟩
  have hholds := hcold.checkpoint horb hport hendPoint htext
  have hne : text ≠ [] := by
    rw [checkpointText] at htext
    split at htext
    · cases htext
      simp
    · cases htext
  refine ⟨?_, ?_, ?_⟩
  · refine LogFiles.Settled.inv ⟨?_, rfl, ⟨0, rfl, rfl, ?_⟩, rfl, ?_⟩
    · intro name i hi
      simp only [new] at hi ⊢
      split at hi
      · cases hi
        exact Nat.one_pos
      · cases hi
    · simp [new]
    · simpa [new, htext] using hne
  · simpa [new, htext] using hholds
  · simp [new, LogFiles.pending]

end Invariant

/-! ## Crashes at any time

The log in force is in the files at every moment. What it says of the server is what the calls have
made of it, as long as the steps are proper. -/

end DiskServer

end OmniEvents
