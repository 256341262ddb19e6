import OmniEvents.LogRecord
import OmniEvents.Lib.Transition

set_option autoImplicit false

/-! # Starting and stopping the daemon

A start of omniEvents in the background forks; the parent waits at a pipe for the exit status that the
child finds for it, in `runningOk` or in `shutdown`, and exits with it. A pidfile keeps a second
instance from running: it is checked before it is written, and removed in `shutdown`, which runs when
the process exits and when `main` returns, but not when it is killed. `Machine.step` interleaves any
number of starts, with any pidfiles, the signals that kill them, and the coming and going of other
processes. What is written to `cerr` is left out. -/

namespace OmniEvents

open Transition

/-! ## One process -/

/-- `on_exit` gives the exit status to its handler, `atexit` does not. -/
inductive ExitHandler where
  | on_exit
  | atexit
  deriving DecidableEq, Repr

/-- What `shutdown` is called with when the process exits. -/
def ExitHandler.status : ExitHandler → ℤ → ℤ
  | on_exit, status => status
  | atexit, _ => 0

/-- The pipe is modelled with the process. -/
structure DaemonImpl where
  tracefile : Option Str
  foreground : Bool
  pidfile : Option Str
  havePidfile : Bool
  haveParent : Bool
  haveSyslog : Bool
  deriving DecidableEq, Repr

namespace DaemonImpl

/-- `Daemon::Daemon`. -/
def new : DaemonImpl :=
  { tracefile := none, foreground := false, pidfile := none, havePidfile := false
    haveParent := false, haveSyslog := false }

/-- `DaemonImpl::tracefile`. -/
def setTracefile (d : DaemonImpl) (val : Str) : DaemonImpl := { d with tracefile := some val }

/-- `DaemonImpl::foreground`. -/
def setForeground (d : DaemonImpl) (val : Bool) : DaemonImpl := { d with foreground := val }

/-- `DaemonImpl::pidfile`: a relative path is one in `/var/run`. -/
def setPidfile (d : DaemonImpl) (val : Str) : DaemonImpl :=
  { d with pidfile := some (if val.head? = some '/' then val else "/var/run/".toList ++ val) }

/-- With the options `-t`, `-P` and `-f`. -/
def configured (tracefile pidfile : Option Str) (foreground : Bool) : DaemonImpl :=
  let d := new.setForeground foreground
  let d := tracefile.elim d d.setTracefile
  pidfile.elim d d.setPidfile

/-- In the child, or in the foreground. -/
def fork (d : DaemonImpl) : DaemonImpl := { d with haveParent := !d.foreground }

/-- `DaemonImpl::writePidfile`; from then on `shutdown` removes the pidfile. -/
def writePidfile (d : DaemonImpl) : DaemonImpl :=
  if d.pidfile.isSome then { d with havePidfile := true } else d

/-- The end of `daemonize`: syslog is used if there is no tracefile. -/
def openLog (d : DaemonImpl) : DaemonImpl :=
  if d.tracefile.any (fun tracefile => !tracefile.isEmpty) then d else { d with haveSyslog := true }

/-- `runningOk`, with what it sends to the parent. -/
def runningOk (d : DaemonImpl) : DaemonImpl × Option ℤ :=
  if d.haveParent then ({ d with haveParent := false }, some 0) else (d, none)

/-- `shutdown`, with what it sends to the parent. -/
def shutdown (unlinks : Bool) (status : ℤ) (d : DaemonImpl) : DaemonImpl × Option ℤ :=
  let status := if d.havePidfile && d.pidfile.isSome && !unlinks then -1 else status
  ({ d with havePidfile := false, haveSyslog := false, haveParent := false },
    if d.haveParent then some status else none)

/-- The file that `shutdown` removes. -/
def removes (unlinks : Bool) (d : DaemonImpl) : Option Str :=
  if d.havePidfile && unlinks then d.pidfile else none

theorem writePidfile_eq (d : DaemonImpl) :
    d.writePidfile.pidfile = d.pidfile ∧
      d.writePidfile.havePidfile = (d.havePidfile || d.pidfile.isSome) := by
  unfold writePidfile
  split
  · next h => simp [h]
  · next h => simp [Bool.not_eq_true _ ▸ h]

end DaemonImpl

/-- Where a process is in `main`, on the way through the functions of `DaemonImpl`. -/
inductive DaemonPhase where
  | checkPidfile
  | writePidfile
  | daemonize
  /-- In `main`, on the way to `runningOk`. -/
  | startUp
  | running
  | ended
  deriving DecidableEq, Repr

/-- What `waitForChild` is doing, if there is a parent. -/
inductive ParentState where
  | absent
  | waiting
  | exited (status : ℤ)
  deriving DecidableEq, Repr

/-- How a process ended; `removed` says that no pidfile is left that it should have removed. -/
inductive DaemonEnding where
  | exited (status : ℤ) (removed : Bool)
  | returned (removed : Bool)
  | killed
  deriving DecidableEq, Repr

/-- One start of omniEvents: the daemon process, the pipe to its parent, and the parent that waits
    at its other end. -/
structure DaemonProcess where
  pid : ℕ
  phase : DaemonPhase
  daemon : DaemonImpl
  pipe : List ℤ
  parent : ParentState
  /-- For the observer: has it come to `runningOk`, and how has it ended? -/
  started : Bool
  ending : Option DaemonEnding
  deriving DecidableEq, Repr

namespace DaemonProcess

/-- The process has neither exited nor been killed. -/
def live (p : DaemonProcess) : Bool := decide (p.phase ≠ .ended)

/-- After `fork`, if it is not to run in the foreground. -/
def new (pid : ℕ) (tracefile pidfile : Option Str) (foreground : Bool) : DaemonProcess :=
  { pid := pid, phase := .checkPidfile
    daemon := (DaemonImpl.configured tracefile pidfile foreground).fork
    pipe := [], parent := if foreground then .absent else .waiting, started := false
    ending := none }

/-- `notifyParent`, if it is called. -/
def notify (p : DaemonProcess) (status : Option ℤ) : DaemonProcess :=
  { p with pipe := p.pipe ++ status.toList }

/-- `DaemonImpl::runningOk`: the parent is told 0. -/
def runningOk (p : DaemonProcess) : DaemonProcess :=
  { p.notify p.daemon.runningOk.2 with
    phase := .running, daemon := p.daemon.runningOk.1, started := true }

/-- `DaemonImpl::shutdown`: the pidfile is removed, and the parent is told the status. -/
def shutdown (unlinks : Bool) (status : ℤ) (p : DaemonProcess) : DaemonProcess :=
  { p.notify (p.daemon.shutdown unlinks status).2 with
    daemon := (p.daemon.shutdown unlinks status).1 }

/-- No pidfile is left, or there was none. -/
def removed (unlinks : Bool) (p : DaemonProcess) : Bool :=
  !(p.daemon.havePidfile && p.daemon.pidfile.isSome) || unlinks

/-- `exit`: the handler runs. -/
def exit (handler : ExitHandler) (unlinks : Bool) (status : ℤ) (p : DaemonProcess) :
    DaemonProcess :=
  { p.shutdown unlinks (handler.status status) with
    phase := .ended, ending := some (.exited status (p.removed unlinks)) }

/-- `main` returns `code`: the destructor of its `Daemon` runs, and then the handler. -/
def returned (handler : ExitHandler) (unlinks : Bool) (code : ℤ) (p : DaemonProcess) :
    DaemonProcess :=
  { (p.shutdown unlinks 0).shutdown unlinks (handler.status code) with
    phase := .ended, ending := some (.returned (p.removed unlinks)) }

/-- A signal ends the process, and no code of it runs any more. -/
def killed (p : DaemonProcess) : DaemonProcess :=
  { p with phase := .ended, ending := some .killed }

/-- `waitForChild`: it reads a status, or the end of a pipe that nobody can write to any more. -/
def waitForChild (p : DaemonProcess) : Option DaemonProcess :=
  match p.parent, p.pipe with
  | .waiting, status :: pipe => some { p with parent := .exited status, pipe := pipe }
  | .waiting, [] => if p.live then none else some { p with parent := .exited (-1) }
  | _, _ => none

/-- Only the parent goes on. -/
theorem waitForChild_eq {p p' : DaemonProcess} (hwait : p.waitForChild = some p') :
    p'.pid = p.pid ∧ p'.phase = p.phase ∧ p'.daemon = p.daemon := by
  unfold waitForChild at hwait
  split at hwait
  · cases hwait
    exact ⟨rfl, rfl, rfl⟩
  · split at hwait <;> cases hwait
    exact ⟨rfl, rfl, rfl⟩
  · cases hwait

end DaemonProcess

/-! ## The machine

Processes share the pidfiles and the pids. A pid is free again when its process has ended, so a
pidfile that was left may name a stranger. -/

/-- All that the daemons share: the processes with their pids, and the files. -/
structure Machine where
  processes : List DaemonProcess
  /-- The pids of all other processes. -/
  others : List ℕ
  /-- The pid that a pidfile has, zero if it has none. -/
  files : Str → Option ℕ

namespace Machine

/-- What can happen: a step of one daemon or of its parent, a signal, or something that other
    processes do. -/
inductive Action where
  /-- The shell starts omniEvents, and `fork` gives this pid. -/
  | start (pid : ℕ) (tracefile pidfile : Option Str) (foreground : Bool)
  /-- `checkPidfileOrShutdown`: does `stat` fail, or say that it is no regular file, and can the file
      be read? -/
  | checkPidfile (i : ℕ) (fails reads : Bool)
  /-- `writePidfile`: an `ofstream` that does not open raises nothing. -/
  | writePidfile (i : ℕ) (opens : Bool)
  | daemonized (i : ℕ)
  | runningOk (i : ℕ)
  | exit (i : ℕ) (status : ℤ) (unlinks : Bool)
  /-- `main` returns, at its end or because a CORBA exception was caught. -/
  | mainReturns (i : ℕ) (code : ℤ) (unlinks : Bool)
  | kill (i : ℕ)
  | waitForChild (i : ℕ)
  /-- The init script makes an empty file if there is none. -/
  | touch (path : Str)
  /-- Other processes come and go. -/
  | others (pids : List ℕ)

/-- The machine before the first start of omniEvents. -/
def boot : Machine := { processes := [], others := [], files := fun _ => none }

/-- `kill(pid,0)` finds a process. -/
def alive (m : Machine) (pid : ℕ) : Bool :=
  m.others.contains pid || m.processes.any fun p => p.live && p.pid == pid

/-- The pid in the file, as far as it can be read. -/
def pidFromFile (m : Machine) (reads : Bool) (path : Str) : ℕ :=
  if reads then (m.files path).getD 0 else 0

/-- Does `checkPidfileOrShutdown` quit? -/
def quits (m : Machine) (p : DaemonProcess) (fails reads : Bool) : Bool :=
  match p.daemon.pidfile with
  | none => false
  | some path =>
      fails || (0 < m.pidFromFile reads path && m.alive (m.pidFromFile reads path))

/-- Process `i` has become `p`. -/
def setProcess (m : Machine) (i : ℕ) (p : DaemonProcess) : Machine :=
  { m with processes := m.processes.set i p }

/-- The file at a path, if there is a path, now has this content. -/
def setFile (m : Machine) (path : Option Str) (content : Option ℕ) : Machine :=
  match path with
  | none => m
  | some path => { m with files := Function.update m.files path content }

/-- The steps. A daemon checks its pidfile, writes it, comes to `runningOk` and ends, in this order
    and with anything of the others in between. -/
def step (handler : ExitHandler) (m : Machine) : Action → Option Machine
  | .start pid tracefile pidfile foreground =>
      if 0 < pid && !m.alive pid then
        some { m with processes := m.processes ++ [.new pid tracefile pidfile foreground] }
      else none
  | .checkPidfile i fails reads =>
      match m.processes[i]? with
      | none => none
      | some p =>
          if p.phase = .checkPidfile then
            if m.quits p fails reads then some (m.setProcess i (p.exit handler true (-1)))
            else some (m.setProcess i { p with phase := .writePidfile })
          else none
  | .writePidfile i opens =>
      match m.processes[i]? with
      | none => none
      | some p =>
          if p.phase = .writePidfile then
            some ((m.setProcess i
              { p with phase := .daemonize, daemon := p.daemon.writePidfile }).setFile
              (if opens then p.daemon.pidfile else none) (some p.pid))
          else none
  | .daemonized i =>
      match m.processes[i]? with
      | none => none
      | some p =>
          if p.phase = .daemonize then
            some (m.setProcess i { p with phase := .startUp, daemon := p.daemon.openLog })
          else none
  | .runningOk i =>
      match m.processes[i]? with
      | none => none
      | some p => if p.phase = .startUp then some (m.setProcess i p.runningOk) else none
  | .exit i status unlinks =>
      match m.processes[i]? with
      | none => none
      | some p =>
          if p.live then
            some ((m.setProcess i (p.exit handler unlinks status)).setFile
              (p.daemon.removes unlinks) none)
          else none
  | .mainReturns i code unlinks =>
      match m.processes[i]? with
      | none => none
      | some p =>
          if p.phase = .startUp || p.phase = .running then
            some ((m.setProcess i (p.returned handler unlinks code)).setFile
              (p.daemon.removes unlinks) none)
          else none
  | .kill i =>
      match m.processes[i]? with
      | none => none
      | some p => if p.live then some (m.setProcess i p.killed) else none
  | .waitForChild i =>
      match m.processes[i]? with
      | none => none
      | some p => p.waitForChild.map (m.setProcess i)
  | .touch path =>
      some (match m.files path with
        | none => m.setFile (some path) (some 0)
        | some _ => m)
  | .others pids =>
      if m.processes.all (fun p => !(p.live && pids.contains p.pid)) then
        some { m with others := pids }
      else none

variable {handler : ExitHandler} {m t : Machine}

theorem setFile_processes (m : Machine) (path : Option Str) (content : Option ℕ) :
    (m.setFile path content).processes = m.processes := by
  cases path <;> rfl

theorem setFile_files (m : Machine) (i : ℕ) (p : DaemonProcess) (path : Option Str)
    (content : Option ℕ) :
    ((m.setProcess i p).setFile path content).files = (m.setFile path content).files := by
  cases path <;> rfl

/-- A step, taken apart. -/
inductive Stepped (handler : ExitHandler) (m : Machine) : Action → Machine → Prop where
  | start (pid : ℕ) (tracefile pidfile : Option Str) (foreground : Bool) (hpos : 0 < pid)
      (hfree : m.alive pid = false) :
      Stepped handler m (.start pid tracefile pidfile foreground)
        { m with processes := m.processes ++ [.new pid tracefile pidfile foreground] }
  | quits (i : ℕ) (fails reads : Bool) (p : DaemonProcess) (hp : m.processes[i]? = some p)
      (hphase : p.phase = .checkPidfile) (hquits : m.quits p fails reads = true) :
      Stepped handler m (.checkPidfile i fails reads) (m.setProcess i (p.exit handler true (-1)))
  | checked (i : ℕ) (fails reads : Bool) (p : DaemonProcess) (hp : m.processes[i]? = some p)
      (hphase : p.phase = .checkPidfile) (hquits : m.quits p fails reads = false) :
      Stepped handler m (.checkPidfile i fails reads)
        (m.setProcess i { p with phase := .writePidfile })
  | writePidfile (i : ℕ) (opens : Bool) (p : DaemonProcess) (hp : m.processes[i]? = some p)
      (hphase : p.phase = .writePidfile) :
      Stepped handler m (.writePidfile i opens)
        ((m.setProcess i { p with phase := .daemonize, daemon := p.daemon.writePidfile }).setFile
          (if opens then p.daemon.pidfile else none) (some p.pid))
  | daemonized (i : ℕ) (p : DaemonProcess) (hp : m.processes[i]? = some p)
      (hphase : p.phase = .daemonize) :
      Stepped handler m (.daemonized i)
        (m.setProcess i { p with phase := .startUp, daemon := p.daemon.openLog })
  | runningOk (i : ℕ) (p : DaemonProcess) (hp : m.processes[i]? = some p)
      (hphase : p.phase = .startUp) : Stepped handler m (.runningOk i) (m.setProcess i p.runningOk)
  | exit (i : ℕ) (status : ℤ) (unlinks : Bool) (p : DaemonProcess)
      (hp : m.processes[i]? = some p) (hlive : p.live = true) :
      Stepped handler m (.exit i status unlinks)
        ((m.setProcess i (p.exit handler unlinks status)).setFile (p.daemon.removes unlinks) none)
  | mainReturns (i : ℕ) (code : ℤ) (unlinks : Bool) (p : DaemonProcess)
      (hp : m.processes[i]? = some p) (hlive : p.live = true) :
      Stepped handler m (.mainReturns i code unlinks)
        ((m.setProcess i (p.returned handler unlinks code)).setFile (p.daemon.removes unlinks) none)
  | kill (i : ℕ) (p : DaemonProcess) (hp : m.processes[i]? = some p) (hlive : p.live = true) :
      Stepped handler m (.kill i) (m.setProcess i p.killed)
  | waitForChild (i : ℕ) (p p' : DaemonProcess) (hp : m.processes[i]? = some p)
      (hwait : p.waitForChild = some p') : Stepped handler m (.waitForChild i) (m.setProcess i p')
  | touch (path : Str) (hnone : m.files path = none) :
      Stepped handler m (.touch path) (m.setFile (some path) (some 0))
  | touched (path : Str) : Stepped handler m (.touch path) m
  | others (pids : List ℕ) : Stepped handler m (.others pids) { m with others := pids }

theorem stepped_of_step {a : Action} (hst : m.step handler a = some t) : Stepped handler m a t := by
  cases a with
  | start pid tracefile pidfile foreground =>
      obtain ⟨hfree, ⟨⟩⟩ := Option.ite_none_right_eq_some.1 hst
      simp only [Bool.and_eq_true, decide_eq_true_eq, Bool.not_eq_true'] at hfree
      exact .start pid tracefile pidfile foreground hfree.1 hfree.2
  | touch path =>
      cases hst
      split
      · next hnone => exact .touch path hnone
      · exact .touched path
  | others pids =>
      obtain ⟨-, ⟨⟩⟩ := Option.ite_none_right_eq_some.1 hst
      exact .others pids
  | checkPidfile i fails reads =>
      simp only [step] at hst
      split at hst
      · cases hst
      · next p hp =>
          obtain ⟨hphase, hst⟩ := Option.ite_none_right_eq_some.1 hst
          split at hst
          · next hquits =>
              cases hst
              exact .quits i fails reads p hp hphase hquits
          · next hquits =>
              cases hst
              exact .checked i fails reads p hp hphase (Bool.not_eq_true _ ▸ hquits)
  | writePidfile i opens =>
      simp only [step] at hst
      split at hst
      · cases hst
      · next p hp =>
          obtain ⟨hphase, ⟨⟩⟩ := Option.ite_none_right_eq_some.1 hst
          exact .writePidfile i opens p hp hphase
  | daemonized i =>
      simp only [step] at hst
      split at hst
      · cases hst
      · next p hp =>
          obtain ⟨hphase, ⟨⟩⟩ := Option.ite_none_right_eq_some.1 hst
          exact .daemonized i p hp hphase
  | runningOk i =>
      simp only [step] at hst
      split at hst
      · cases hst
      · next p hp =>
          obtain ⟨hphase, ⟨⟩⟩ := Option.ite_none_right_eq_some.1 hst
          exact .runningOk i p hp hphase
  | exit i status unlinks =>
      simp only [step] at hst
      split at hst
      · cases hst
      · next p hp =>
          obtain ⟨hlive, ⟨⟩⟩ := Option.ite_none_right_eq_some.1 hst
          exact .exit i status unlinks p hp hlive
  | mainReturns i code unlinks =>
      simp only [step] at hst
      split at hst
      · cases hst
      · next p hp =>
          obtain ⟨hphase, ⟨⟩⟩ := Option.ite_none_right_eq_some.1 hst
          have hlive : p.live = true := by
            simp only [Bool.or_eq_true, decide_eq_true_eq] at hphase
            rcases hphase with hphase | hphase <;> simp [DaemonProcess.live, hphase]
          exact .mainReturns i code unlinks p hp hlive
  | kill i =>
      simp only [step] at hst
      split at hst
      · cases hst
      · next p hp =>
          obtain ⟨hlive, ⟨⟩⟩ := Option.ite_none_right_eq_some.1 hst
          exact .kill i p hp hlive
  | waitForChild i =>
      simp only [step] at hst
      split at hst
      · cases hst
      · next p hp =>
          obtain ⟨p', hp', rfl⟩ := Option.map_eq_some_iff.1 hst
          exact .waitForChild i p p' hp hp'

end Machine

/-! ## What the parent reports

The pipe carries one status at most before the parent goes on. `Told` follows the process and the
pipe together, and the verdict is what the parent can make of them. -/

namespace DaemonProcess

/-- The status that the start of the process comes to, once that is known. -/
def verdict (handler : ExitHandler) (p : DaemonProcess) : Option ℤ :=
  if p.started then some 0
  else
    match p.ending with
    | none => none
    | some (.exited status removed) => some (if removed then handler.status status else -1)
    -- whatever `main` returns
    | some (.returned removed) => some (if removed then 0 else -1)
    | some .killed => some (-1)

/-- What the process has written for its parent. -/
def notices (handler : ExitHandler) (p : DaemonProcess) : List ℤ :=
  if !p.started && decide (p.ending = some .killed) then [] else (p.verdict handler).toList

/-- What a step can do to one process. -/
inductive Step (handler : ExitHandler) (p : DaemonProcess) : DaemonProcess → Prop where
  | moved (p' : DaemonProcess) (hlive : p.live = true) (hlive' : p'.live = true)
      (hpid : p'.pid = p.pid) (hparent : p'.daemon.haveParent = p.daemon.haveParent)
      (hpidfile : p'.daemon.pidfile = p.daemon.pidfile)
      (hsame : (p'.pipe, p'.parent, p'.started, p'.ending) =
        (p.pipe, p.parent, p.started, p.ending)) : Step handler p p'
  | runningOk (hphase : p.phase = .startUp) : Step handler p p.runningOk
  | exit (unlinks : Bool) (status : ℤ) (hlive : p.live = true) :
      Step handler p (p.exit handler unlinks status)
  | returned (unlinks : Bool) (code : ℤ) (hlive : p.live = true) :
      Step handler p (p.returned handler unlinks code)
  | killed (hlive : p.live = true) : Step handler p p.killed
  | waitForChild (p' : DaemonProcess) (hwait : p.waitForChild = some p') : Step handler p p'

/-- The parent has been told, or will be. -/
structure Told (handler : ExitHandler) (p : DaemonProcess) : Prop where
  ending : p.live = p.ending.isNone
  haveParent : p.live = true → p.daemon.haveParent = (decide (p.parent ≠ .absent) && !p.started)
  waiting : p.parent = .waiting → p.pipe = p.notices handler
  exited : ∀ status, p.parent = .exited status → p.verdict handler = some status

variable {handler : ExitHandler} {p p' : DaemonProcess}

theorem Told.new (pid : ℕ) (tracefile pidfile : Option Str) (foreground : Bool) :
    (DaemonProcess.new pid tracefile pidfile foreground).Told handler := by
  have hforeground : (DaemonImpl.configured tracefile pidfile foreground).foreground
      = foreground := by
    cases tracefile <;> cases pidfile <;> rfl
  refine ⟨rfl, ?_, ?_, ?_⟩
  · intro _
    simp only [DaemonProcess.new, DaemonImpl.fork, hforeground]
    cases foreground <;> rfl
  · intro _
    rfl
  · intro status h
    simp only [DaemonProcess.new] at h
    split at h <;> cases h

/-- A pidfile that cannot be removed is a failure. -/
theorem shutdown_pipe (unlinks : Bool) (status : ℤ) (p : DaemonProcess) :
    (p.shutdown unlinks status).pipe =
      p.pipe ++ if p.daemon.haveParent then [if p.removed unlinks then status else -1] else [] := by
  have hstatus : ∀ a b : Bool,
      (if a && !b then -1 else status) = if !a || b then status else -1 := by
    intro a b
    cases a <;> cases b <;> rfl
  simp only [shutdown, notify, DaemonImpl.shutdown, removed, hstatus]
  cases p.daemon.haveParent <;> rfl

/-- A second `shutdown` has nothing to do. -/
theorem shutdown_shutdown (unlinks : Bool) (status code : ℤ) (p : DaemonProcess) :
    (p.shutdown unlinks status).shutdown unlinks code = p.shutdown unlinks status := by
  simp [shutdown, DaemonImpl.shutdown, notify]

/-- As long as the process lives, the only verdict is that it has started. -/
theorem Told.verdict_of_live (h : p.Told handler) (hlive : p.live = true) :
    p.ending = none ∧ p.verdict handler = if p.started then some 0 else none := by
  have hnone : p.ending = none := by simpa [hlive] using h.ending
  exact ⟨hnone, by simp only [verdict, hnone]⟩

/-- There is a verdict when the process has started or ended. -/
theorem verdict_isSome (handler : ExitHandler) (h : p.Told handler) :
    (p.verdict handler).isSome = true ↔ p.started = true ∨ p.live = false := by
  rw [h.ending]
  unfold verdict
  cases p.started with
  | true => simp
  | false =>
      cases p.ending with
      | none => simp
      | some e => cases e <;> simp

/-- What a live process with a waiting parent has written, and whether it can write more. -/
theorem Told.pipe_of_live (h : p.Told handler) (hlive : p.live = true)
    (hwaiting : p.parent = .waiting) :
    p.pipe = (if p.started then [0] else []) ∧ p.daemon.haveParent = !p.started := by
  obtain ⟨hnone, hverdict⟩ := h.verdict_of_live hlive
  refine ⟨?_, by simp [h.haveParent hlive, hwaiting]⟩
  rw [h.waiting hwaiting, notices, hverdict, hnone]
  cases p.started <;> rfl

/-- A process that ends tells a parent that waits, unless it has started before. -/
theorem Told.ended (h : p.Told handler) (hlive : p.live = true) {e : DaemonEnding} {notices : List ℤ}
    (he : ∀ p : DaemonProcess, p.started = false → p.ending = some e →
      p.notices handler = notices)
    (hparent : p'.parent = p.parent) (hstarted : p'.started = p.started)
    (hending : p'.ending = some e) (hphase : p'.live = false)
    (hpipe : p'.pipe = p.pipe ++ if p.daemon.haveParent then notices else []) :
    p'.Told handler := by
  refine ⟨by rw [hphase, hending]; rfl, fun hlive' => absurd hlive' (by rw [hphase]; decide), ?_, ?_⟩
  · intro hwaiting
    obtain ⟨hold, hhave⟩ := h.pipe_of_live hlive (hparent ▸ hwaiting)
    rw [hpipe, hold, hhave, ← hstarted]
    cases hs : p'.started with
    | true => simp [DaemonProcess.notices, verdict, hs]
    | false => simpa [hs] using (he p' hs hending).symm
  · intro v hv
    have hold := h.exited v (hparent ▸ hv)
    rw [(h.verdict_of_live hlive).2, ← hstarted] at hold
    cases hs : p'.started with
    | true => simpa [verdict, hs] using hold
    | false => simp [hs] at hold

theorem Told.moved (h : p.Told handler) (hlive : p.live = true) (hlive' : p'.live = true)
    (hhave : p'.daemon.haveParent = p.daemon.haveParent)
    (hsame : (p'.pipe, p'.parent, p'.started, p'.ending) =
      (p.pipe, p.parent, p.started, p.ending)) : p'.Told handler := by
  simp only [Prod.mk.injEq] at hsame
  obtain ⟨hpipe, hparent, hstarted, hending⟩ := hsame
  have hverdict : p'.verdict handler = p.verdict handler := by
    simp only [verdict, hstarted, hending]
  refine ⟨by rw [hlive', ← hlive, h.ending, hending], ?_, ?_, ?_⟩
  · intro _
    rw [hhave, hparent, hstarted, h.haveParent hlive]
  · intro hwaiting
    rw [hpipe, h.waiting (hparent ▸ hwaiting), notices, notices, hverdict, hstarted, hending]
  · intro status hexited
    rw [hverdict, h.exited status (hparent ▸ hexited)]

/-- The parent hears of the start from `runningOk`. -/
theorem Told.runningOk (h : p.Told handler) (hphase : p.phase = .startUp) :
    p.runningOk.Told handler := by
  have hlive : p.live = true := by simp [live, hphase]
  obtain ⟨hnone, hverdict⟩ := h.verdict_of_live hlive
  refine ⟨?_, ?_, ?_, ?_⟩
  · simp [DaemonProcess.runningOk, notify, live, hnone]
  · intro _
    simp only [DaemonProcess.runningOk, DaemonImpl.runningOk]
    cases hhave : p.daemon.haveParent <;> simp [hhave]
  · intro hwaiting
    obtain ⟨hpipe, hhave⟩ := h.pipe_of_live hlive hwaiting
    simp only [DaemonProcess.runningOk, notify, DaemonImpl.runningOk, hpipe, hhave]
    cases p.started <;> rfl
  · intro status hexited
    have hold := h.exited status hexited
    rw [hverdict] at hold
    cases hs : p.started with
    | true => simpa [DaemonProcess.runningOk, verdict, hs] using hold
    | false => simp [hs] at hold

/-- The status that a waiting parent finds in the pipe is the verdict. -/
theorem Told.verdict_of_pipe (h : p.Told handler) (hwaiting : p.parent = .waiting) {status : ℤ}
    {pipe : List ℤ} (hpipe : p.pipe = status :: pipe) : p.verdict handler = some status := by
  have hnotices := (h.waiting hwaiting).symm.trans hpipe
  unfold notices at hnotices
  split at hnotices
  · cases hnotices
  · cases hverdict : p.verdict handler with
    | none =>
        rw [hverdict] at hnotices
        cases hnotices
    | some v =>
        rw [hverdict] at hnotices
        cases hnotices
        rfl

/-- Nothing will come through the pipe: the process was killed before it could say anything. -/
theorem Told.verdict_of_silent (h : p.Told handler) (hwaiting : p.parent = .waiting)
    (hpipe : p.pipe = []) (hlive : p.live = false) : p.verdict handler = some (-1) := by
  have hnotices := (h.waiting hwaiting).symm.trans hpipe
  obtain ⟨v, hv⟩ := Option.isSome_iff_exists.1 ((verdict_isSome handler h).2 (Or.inr hlive))
  unfold notices at hnotices
  split at hnotices
  · next hkilled =>
      simp only [Bool.and_eq_true, Bool.not_eq_true', decide_eq_true_eq] at hkilled
      simp [verdict, hkilled.1, hkilled.2]
  · rw [hv] at hnotices
    cases hnotices

theorem Told.waitForChild (h : p.Told handler) (hwait : p.waitForChild = some p') :
    p'.Told handler := by
  unfold DaemonProcess.waitForChild at hwait
  split at hwait
  · next status pipe hwaiting hpipe =>
      cases hwait
      refine ⟨h.ending, ?_, ?_, ?_⟩
      · intro hlive
        rw [h.haveParent hlive, hwaiting]
        rfl
      · rintro ⟨⟩
      · rintro _ ⟨⟩
        exact h.verdict_of_pipe hwaiting hpipe
  · next hwaiting hpipe =>
      split at hwait
      · cases hwait
      · next hlive =>
          cases hwait
          refine ⟨h.ending, fun hlive' => absurd hlive' hlive, ?_, ?_⟩
          · rintro ⟨⟩
          · rintro _ ⟨⟩
            exact h.verdict_of_silent hwaiting hpipe (Bool.not_eq_true _ ▸ hlive)
  · cases hwait

theorem Told.step (h : p.Told handler) (hstep : p.Step handler p') : p'.Told handler := by
  cases hstep with
  | moved _ hlive hlive' _ hhave _ hsame => exact h.moved hlive hlive' hhave hsame
  | runningOk hphase => exact h.runningOk hphase
  | exit unlinks status hlive =>
      refine h.ended hlive (?_ : ∀ q : DaemonProcess, q.started = false →
        q.ending = some (.exited status (p.removed unlinks)) → q.notices handler = _) rfl rfl rfl rfl
        (shutdown_pipe unlinks _ p)
      intro q hstarted hending
      simp [notices, verdict, hstarted, hending]
  | returned unlinks code hlive =>
      have hpipe := shutdown_pipe unlinks 0 p
      rw [← shutdown_shutdown unlinks 0 (handler.status code)] at hpipe
      refine h.ended hlive (?_ : ∀ q : DaemonProcess, q.started = false →
        q.ending = some (.returned (p.removed unlinks)) → q.notices handler = _) rfl rfl rfl rfl hpipe
      intro q hstarted hending
      simp [notices, verdict, hstarted, hending]
  | killed hlive =>
      refine h.ended hlive (?_ : ∀ q : DaemonProcess, q.started = false →
        q.ending = some .killed → q.notices handler = []) rfl rfl rfl rfl ?_
      · intro q hstarted hending
        simp [notices, hstarted, hending]
      · simp [killed]
  | waitForChild _ hwait => exact h.waitForChild hwait

end DaemonProcess

namespace Machine

variable {handler : ExitHandler} {m t : Machine}

/-- What a step does to the processes. -/
theorem processes_step {a : Action} (hst : m.step handler a = some t) :
    t.processes = m.processes ∨
    (∃ pid tracefile pidfile foreground,
      t.processes = m.processes ++ [.new pid tracefile pidfile foreground]) ∨
    ∃ i p p', m.processes[i]? = some p ∧ DaemonProcess.Step handler p p' ∧
      t.processes = m.processes.set i p' := by
  cases stepped_of_step hst with
  | start pid tracefile pidfile foreground hpos hfree =>
      exact Or.inr (Or.inl ⟨pid, tracefile, pidfile, foreground, rfl⟩)
  | quits i fails reads p hp hphase hquits =>
      have hlive : p.live = true := by simp [DaemonProcess.live, hphase]
      exact Or.inr (Or.inr ⟨i, p, _, hp, .exit true (-1) hlive, rfl⟩)
  | checked i fails reads p hp hphase hquits =>
      have hlive : p.live = true := by simp [DaemonProcess.live, hphase]
      exact Or.inr (Or.inr ⟨i, p, { p with phase := .writePidfile }, hp,
        .moved _ hlive rfl rfl rfl rfl rfl, rfl⟩)
  | writePidfile i opens p hp hphase =>
      have hlive : p.live = true := by simp [DaemonProcess.live, hphase]
      refine Or.inr (Or.inr ⟨i, p,
        { p with phase := .daemonize, daemon := p.daemon.writePidfile }, hp,
        .moved _ hlive rfl rfl ?_ p.daemon.writePidfile_eq.1 rfl, setFile_processes ..⟩)
      simp only [DaemonImpl.writePidfile]
      split <;> rfl
  | daemonized i p hp hphase =>
      have hlive : p.live = true := by simp [DaemonProcess.live, hphase]
      refine Or.inr (Or.inr ⟨i, p, { p with phase := .startUp, daemon := p.daemon.openLog }, hp,
        .moved _ hlive rfl rfl ?_ ?_ rfl, rfl⟩)
      · simp only [DaemonImpl.openLog]
        split <;> rfl
      · simp only [DaemonImpl.openLog]
        split <;> rfl
  | runningOk i p hp hphase => exact Or.inr (Or.inr ⟨i, p, _, hp, .runningOk hphase, rfl⟩)
  | exit i status unlinks p hp hlive =>
      exact Or.inr (Or.inr ⟨i, p, _, hp, .exit unlinks status hlive, setFile_processes ..⟩)
  | mainReturns i code unlinks p hp hlive =>
      exact Or.inr (Or.inr ⟨i, p, _, hp, .returned unlinks code hlive, setFile_processes ..⟩)
  | kill i p hp hlive => exact Or.inr (Or.inr ⟨i, p, _, hp, .killed hlive, rfl⟩)
  | waitForChild i p p' hp hwait =>
      exact Or.inr (Or.inr ⟨i, p, p', hp, .waitForChild p' hwait, rfl⟩)
  | touch path hnone => exact Or.inl (setFile_processes ..)
  | touched path => exact Or.inl rfl
  | others pids => exact Or.inl rfl

/-- **The parent's report.** In every run of the machine the parent of a process exits with the verdict
    on it: success if the process has come to `runningOk`, or if before that `main` has returned,
    whatever its code, or has exited with a status that the handler takes for success, unless the
    pidfile could not be removed; else failure. As long as there is no verdict it waits, and with one
    it can go on. -/
theorem parent_reports {as : List Action} (hrun : Run (step handler) boot as = some m)
    {p : DaemonProcess} (hp : p ∈ m.processes) :
    (∀ status, p.parent = .exited status → p.verdict handler = some status) ∧
    (p.parent = .waiting → ((p.waitForChild).isSome = true ↔ (p.verdict handler).isSome = true)) := by
  have hall : ∀ p ∈ m.processes, p.Told handler := by
    refine Run.induct (P := fun _ m => ∀ p ∈ m.processes, p.Told handler) ?_ ?_ hrun
    · intro p hp
      cases hp
    · intro _ m a t _ hm hst p hp
      rcases processes_step hst with heq | ⟨pid, tracefile, pidfile, foreground, heq⟩ |
        ⟨i, q, q', hq, hstep, heq⟩
      · exact hm p (heq ▸ hp)
      · rw [heq] at hp
        rcases List.mem_append.1 hp with hp | hp
        · exact hm p hp
        · obtain rfl := List.mem_singleton.1 hp
          exact DaemonProcess.Told.new ..
      · rw [heq] at hp
        rcases List.mem_or_eq_of_mem_set hp with hp | rfl
        · exact hm p hp
        · exact (hm q (List.mem_of_getElem? hq)).step hstep
  have h := hall p hp
  refine ⟨h.exited, ?_⟩
  intro hwaiting
  rw [DaemonProcess.verdict_isSome handler h]
  cases hlive : p.live with
  | true =>
      rw [DaemonProcess.waitForChild, hwaiting, (h.pipe_of_live hlive hwaiting).1]
      cases p.started <;> simp [hlive]
  | false =>
      rw [DaemonProcess.waitForChild, hwaiting]
      cases p.pipe <;> simp [hlive]

/-- The start fails, because an exception ends `main`, and the parent reports success. -/
theorem parent_reports_success :
    ∃ m p, Run (step .on_exit) boot [.start 7 none (some ['p']) false, .checkPidfile 0 false true,
        .writePidfile 0 true, .daemonized 0, .mainReturns 0 1 true, .waitForChild 0] = some m ∧
      p ∈ m.processes ∧ p.started = false ∧ p.parent = .exited 0 ∧
      p.verdict .on_exit = some 0 := by
  obtain ⟨m, p, hrun, hp, hstarted, hexited⟩ : ∃ m p, Run (step .on_exit) boot
      [.start 7 none (some ['p']) false, .checkPidfile 0 false true, .writePidfile 0 true,
        .daemonized 0, .mainReturns 0 1 true, .waitForChild 0] = some m ∧
      p ∈ m.processes ∧ p.started = false ∧ p.parent = .exited 0 :=
    ⟨_, _, rfl, List.mem_cons_self, rfl, rfl⟩
  exact ⟨m, p, hrun, hp, hstarted, hexited, (parent_reports hrun hp).1 0 hexited⟩

end Machine

/-! ## One instance for a pidfile

Between the check of a pidfile and its writing another instance may do the same. If none does, the
claim to a pidfile is exclusive from the check on. -/

/-- The process has written its pidfile, if it has one. -/
def DaemonProcess.past (p : DaemonProcess) : Bool :=
  decide (p.phase = .daemonize) || decide (p.phase = .startUp) || decide (p.phase = .running)

/-- The process has checked the pidfile, and not ended. -/
def DaemonProcess.Claims (p : DaemonProcess) (path : Str) : Prop :=
  (p.phase = .writePidfile ∨ p.past = true) ∧ p.daemon.pidfile = some path

namespace Machine

/-- Pidfiles can be read and written, and none is checked between the check and the write of another
    process with the same pidfile. -/
def careful (m : Machine) : Action → Bool
  | .checkPidfile i _ reads =>
      reads && (m.processes[i]?).all fun p => p.daemon.pidfile.isNone ||
        m.processes.all fun q =>
          !(decide (q.phase = .writePidfile) && decide (q.daemon.pidfile = p.daemon.pidfile))
  | .writePidfile _ opens => opens
  | _ => true

/-- Whoever has written a pidfile is alone with it. This is what holds of every run in which no
    pidfile is checked between another's check and write of it. -/
structure Owned (m : Machine) : Prop where
  pos : ∀ p ∈ m.processes, 0 < p.pid
  pids : ∀ (i j : ℕ) (p q : DaemonProcess), m.processes[i]? = some p → m.processes[j]? = some q →
    p.live = true → q.live = true → p.pid = q.pid → i = j
  have_iff : ∀ p ∈ m.processes, p.live = true →
    p.daemon.havePidfile = (p.past && p.daemon.pidfile.isSome)
  /-- A process whose pidfile is written is named there. -/
  names : ∀ (p : DaemonProcess) (path : Str), p ∈ m.processes → p.past = true →
    p.daemon.pidfile = some path → m.files path = some p.pid
  alone : ∀ (i j : ℕ) (p q : DaemonProcess) (path : Str), m.processes[i]? = some p →
    m.processes[j]? = some q → p.Claims path → q.Claims path → i = j

variable {handler : ExitHandler} {m t : Machine}

theorem live_of_past {p : DaemonProcess} (h : p.past = true) : p.live = true := by
  simp only [DaemonProcess.past, Bool.or_eq_true, decide_eq_true_eq] at h
  rcases h with (h | h) | h <;> simp [DaemonProcess.live, h]

theorem alive_of_past {p : DaemonProcess} (hp : p ∈ m.processes)
    (hpast : p.past = true) : m.alive p.pid = true := by
  simp only [alive, Bool.or_eq_true, List.any_eq_true, Bool.and_eq_true, beq_iff_eq]
  exact Or.inr ⟨p, hp, live_of_past hpast, rfl⟩

/-- A process takes a step: it claims no pidfile that another claims, and changes no pidfile that
    another has written. -/
theorem Owned.set (h : m.Owned) {i : ℕ} {p p' : DaemonProcess} (hp : m.processes[i]? = some p)
    (ht : t.processes = m.processes.set i p') (hpid : p'.pid = p.pid)
    (hlive : p'.live = true → p.live = true)
    (hhave : p'.live = true → p'.daemon.havePidfile = (p'.past && p'.daemon.pidfile.isSome))
    (hclaims : ∀ path, p'.Claims path → ∀ j q, j ≠ i → m.processes[j]? = some q →
      ¬ q.Claims path)
    (hnames : ∀ path, p'.past = true → p'.daemon.pidfile = some path →
      t.files path = some p'.pid)
    (hfiles : ∀ j q path, j ≠ i → m.processes[j]? = some q → q.past = true →
      q.daemon.pidfile = some path → t.files path = m.files path) : t.Owned := by
  have hmem := List.mem_of_getElem? hp
  -- a process after the step, and before it
  have hbefore : ∀ j q, t.processes[j]? = some q →
      (j = i ∧ q = p') ∨ (j ≠ i ∧ m.processes[j]? = some q) := by
    intro j q hq
    rw [ht, List.getElem?_set] at hq
    split at hq
    · next hij =>
        split at hq
        · exact Or.inl ⟨hij.symm, (Option.some.inj hq).symm⟩
        · cases hq
    · next hij => exact Or.inr ⟨fun h => hij h.symm, hq⟩
  have hmem' : ∀ q ∈ t.processes, q = p' ∨ q ∈ m.processes := by
    intro q hq
    rw [ht] at hq
    rcases List.mem_or_eq_of_mem_set hq with hq | rfl
    · exact Or.inr hq
    · exact Or.inl rfl
  constructor
  · intro q hq
    rcases hmem' q hq with rfl | hq
    · rw [hpid]
      exact h.pos p hmem
    · exact h.pos q hq
  · intro j k q r hq hr hqlive hrlive hsame
    rcases hbefore j q hq with ⟨rfl, rfl⟩ | ⟨hj, hq⟩ <;>
      rcases hbefore k r hr with ⟨rfl, rfl⟩ | ⟨hk, hr⟩
    · rfl
    · exact h.pids _ _ _ _ hp hr (hlive hqlive) hrlive (hpid.symm.trans hsame)
    · exact h.pids _ _ _ _ hq hp hqlive (hlive hrlive) (hsame.trans hpid)
    · exact h.pids _ _ _ _ hq hr hqlive hrlive hsame
  · intro q hq
    rcases hmem' q hq with rfl | hq
    · exact hhave
    · exact h.have_iff q hq
  · intro q path hq hpast hpath
    obtain ⟨j, hj⟩ := List.mem_iff_getElem?.1 hq
    rcases hbefore j q hj with ⟨rfl, rfl⟩ | ⟨hji, hj⟩
    · exact hnames path hpast hpath
    · rw [hfiles j q path hji hj hpast hpath]
      exact h.names q path (List.mem_of_getElem? hj) hpast hpath
  · intro j k q r path hq hr hqclaims hrclaims
    rcases hbefore j q hq with ⟨rfl, rfl⟩ | ⟨hj, hq⟩ <;>
      rcases hbefore k r hr with ⟨rfl, rfl⟩ | ⟨hk, hr⟩
    · rfl
    · exact absurd hrclaims (hclaims path hqclaims k r hk hr)
    · exact absurd hqclaims (hclaims path hrclaims j q hj hq)
    · exact h.alone _ _ _ _ path hq hr hqclaims hrclaims

/-- A process ends, and removes at most its own pidfile. -/
theorem Owned.ended (h : m.Owned) {i : ℕ} {p p' : DaemonProcess} (hp : m.processes[i]? = some p)
    (hlive : p.live = true) (ht : t.processes = m.processes.set i p') (hpid : p'.pid = p.pid)
    (hphase : p'.phase = .ended) (unlinks : Bool)
    (hfiles : t.files = (m.setFile (p.daemon.removes unlinks) none).files) : t.Owned := by
  have hdead : p'.live = false := by simp [DaemonProcess.live, hphase]
  have hpast : p'.past = false := by simp [DaemonProcess.past, hphase]
  refine h.set hp ht hpid ?_ ?_ ?_ ?_ ?_
  · intro h
    rw [hdead] at h
    cases h
  · intro h
    rw [hdead] at h
    cases h
  · rintro path ⟨hclaims, -⟩
    rw [hphase, hpast] at hclaims
    rcases hclaims with hclaims | hclaims <;> cases hclaims
  · intro path h
    rw [hpast] at h
    cases h
  · intro j q path hji hq hqpast hqpath
    rw [hfiles]
    unfold DaemonImpl.removes
    split
    · next hremoves =>
        cases hpidfile : p.daemon.pidfile with
        | none => rfl
        | some own =>
            simp only [setFile]
            refine Function.update_of_ne ?_ ..
            rintro rfl
            -- both would have written the same pidfile
            rw [Bool.and_eq_true] at hremoves
            have hhave := h.have_iff p (List.mem_of_getElem? hp) hlive
            rw [hremoves.1] at hhave
            have hppast : p.past = true := ((Bool.and_eq_true _ _).mp hhave.symm).1
            exact hji (h.alone j i q p path hq hp ⟨Or.inr hqpast, hqpath⟩
              ⟨Or.inr hppast, hpidfile⟩)
    · rfl

/-- A process that claims what it has claimed before, and leaves the files alone. -/
theorem Owned.moved (h : m.Owned) {i : ℕ} {p p' : DaemonProcess} (hp : m.processes[i]? = some p)
    (ht : t.processes = m.processes.set i p') (hfiles : t.files = m.files) (hpid : p'.pid = p.pid)
    (hlive : p'.live = p.live) (hpast : p'.past = p.past)
    (hphase : p'.phase = .writePidfile → p.phase = .writePidfile)
    (hpidfile : p'.daemon.pidfile = p.daemon.pidfile)
    (hhave : p'.daemon.havePidfile = p.daemon.havePidfile) : t.Owned := by
  have hmem := List.mem_of_getElem? hp
  refine h.set hp ht hpid (hlive ▸ id) ?_ ?_ ?_ ?_
  · intro hplive
    rw [hhave, hpast, hpidfile, h.have_iff p hmem (hlive ▸ hplive)]
  · intro path hclaims j q hji hq hq'
    refine hji (h.alone j i q p path hq hp hq' ⟨?_, hpidfile ▸ hclaims.2⟩)
    exact hclaims.1.imp hphase fun h => hpast ▸ h
  · intro path hppast hpath
    rw [hfiles, hpid]
    exact h.names p path hmem (hpast ▸ hppast) (hpidfile ▸ hpath)
  · intro j q path _ _ _ _
    rw [hfiles]

theorem Owned.start (h : m.Owned) {pid : ℕ} {tracefile pidfile : Option Str} {foreground : Bool}
    (hpos : 0 < pid) (halive : m.alive pid = false)
    (ht : t.processes = m.processes ++ [.new pid tracefile pidfile foreground])
    (hfiles : t.files = m.files) : t.Owned := by
  have hbefore : ∀ j q, t.processes[j]? = some q →
      m.processes[j]? = some q ∨
        (j = m.processes.length ∧ q = .new pid tracefile pidfile foreground) := by
    intro j q hq
    rw [ht, List.getElem?_append] at hq
    split at hq
    · exact Or.inl hq
    · next hj =>
        rw [List.getElem?_singleton] at hq
        split at hq
        · next hzero => exact Or.inr ⟨by omega, (Option.some.inj hq).symm⟩
        · cases hq
  have hmem : ∀ q ∈ t.processes, q ∈ m.processes ∨
      q = .new pid tracefile pidfile foreground := by
    intro q hq
    rw [ht] at hq
    exact (List.mem_append.1 hq).imp_right List.mem_singleton.1
  -- no process that lives has the pid
  have hother : ∀ q ∈ m.processes, q.live = true → q.pid ≠ pid := by
    intro q hq hlive heq
    simp only [alive, Bool.or_eq_false_iff, List.any_eq_false, Bool.and_eq_true, beq_iff_eq,
      not_and] at halive
    exact halive.2 q hq hlive heq
  have hhave : (DaemonProcess.new pid tracefile pidfile foreground).daemon.havePidfile = false := by
    cases tracefile <;> cases pidfile <;> rfl
  constructor
  · intro q hq
    rcases hmem q hq with hq | rfl
    · exact h.pos q hq
    · exact hpos
  · intro j k q r hq hr hqlive hrlive hsame
    rcases hbefore j q hq with hq | ⟨rfl, rfl⟩ <;> rcases hbefore k r hr with hr | ⟨rfl, rfl⟩
    · exact h.pids j k q r hq hr hqlive hrlive hsame
    · exact absurd hsame (hother q (List.mem_of_getElem? hq) hqlive)
    · exact absurd hsame.symm (hother r (List.mem_of_getElem? hr) hrlive)
    · rfl
  · intro q hq hlive
    rcases hmem q hq with hq | rfl
    · exact h.have_iff q hq hlive
    · rw [hhave]
      rfl
  · intro q path hq hpast hpath
    rcases hmem q hq with hq | rfl
    · rw [hfiles]
      exact h.names q path hq hpast hpath
    · cases hpast
  · intro j k q r path hq hr hqclaims hrclaims
    have hnot : ¬ (DaemonProcess.new pid tracefile pidfile foreground).Claims path := by
      rintro ⟨hphase | hpast, -⟩
      · cases hphase
      · cases hpast
    rcases hbefore j q hq with hq | ⟨-, rfl⟩
    · rcases hbefore k r hr with hr | ⟨-, rfl⟩
      · exact h.alone j k q r path hq hr hqclaims hrclaims
      · exact absurd hrclaims hnot
    · exact absurd hqclaims hnot

/-- The check finds every process that has written the same pidfile. -/
theorem Owned.checked (h : m.Owned) {p : DaemonProcess} {fails : Bool}
     (hquits : m.quits p fails true = false)
    (hwriting : ∀ q ∈ m.processes, q.phase = .writePidfile → q.daemon.pidfile = p.daemon.pidfile →
      p.daemon.pidfile = none) {path : Str} (hpath : p.daemon.pidfile = some path) {q : DaemonProcess}
    (hq : q ∈ m.processes) : ¬ q.Claims path := by
  rintro ⟨hphase | hpast, hqpath⟩
  · have hnone := hwriting q hq hphase (hqpath.trans hpath.symm)
    rw [hpath] at hnone
    cases hnone
  · have hnames := h.names q path hq hpast hqpath
    have halive := alive_of_past hq hpast
    simp [quits, hpath, pidFromFile, hnames, halive, h.pos q hq] at hquits

theorem Owned.checkPidfile (h : m.Owned) {i : ℕ} {fails reads : Bool} {p : DaemonProcess}
    (hp : m.processes[i]? = some p) (hphase : p.phase = .checkPidfile)
    (hquits : m.quits p fails reads = false)
    (hcareful : m.careful (.checkPidfile i fails reads) = true) :
    (m.setProcess i { p with phase := .writePidfile }).Owned := by
  have hlive : p.live = true := by simp [DaemonProcess.live, hphase]
  have hpast : p.past = false := by simp [DaemonProcess.past, hphase]
  simp only [careful, hp, Option.all_some, Bool.and_eq_true, Bool.or_eq_true,
    Option.isNone_iff_eq_none, List.all_eq_true, Bool.not_eq_true', Bool.and_eq_false_iff,
    decide_eq_false_iff_not] at hcareful
  obtain ⟨rfl, hwriting⟩ := hcareful
  refine h.set hp rfl rfl (fun _ => hlive) ?_ ?_ ?_ ?_
  · intro _
    rw [h.have_iff p (List.mem_of_getElem? hp) hlive, hpast]
    rfl
  · intro path hclaims j q _ hq
    refine h.checked hquits ?_ hclaims.2 (List.mem_of_getElem? hq)
    intro r hr hrphase hrpath
    refine hwriting.resolve_right ?_
    intro hall
    exact (hall r hr).elim (fun hnot => hnot hrphase) (fun hnot => hnot hrpath)
  · intro path hnone
    cases hnone
  · intro j q path _ _ _ _
    rfl

/-- Nobody else claims the pidfile that is written. -/
theorem Owned.writePidfile (h : m.Owned) {i : ℕ} {p : DaemonProcess}
    (hp : m.processes[i]? = some p) (hphase : p.phase = .writePidfile) :
    ((m.setProcess i { p with phase := .daemonize, daemon := p.daemon.writePidfile }).setFile
      p.daemon.pidfile (some p.pid)).Owned := by
  have hlive : p.live = true := by simp [DaemonProcess.live, hphase]
  have hwrite := p.daemon.writePidfile_eq
  have hother : ∀ path, p.daemon.pidfile = some path → ∀ j q, j ≠ i →
      m.processes[j]? = some q → ¬ q.Claims path := fun path hpath j q hji hq hclaims =>
    hji (h.alone j i q p path hq hp hclaims ⟨Or.inl hphase, hpath⟩)
  refine h.set hp (setFile_processes ..) rfl (fun _ => hlive) ?_ ?_ ?_ ?_
  · intro _
    have hhave := h.have_iff p (List.mem_of_getElem? hp) hlive
    simp [hwrite, hhave, DaemonProcess.past]
  · intro path hclaims
    exact hother path (hwrite.1 ▸ hclaims.2)
  · intro path _ hpath
    have hown : p.daemon.pidfile = some path := hwrite.1 ▸ hpath
    simp [hown, setFile]
  · intro j q path hji hq hpast hpath
    cases hown : p.daemon.pidfile with
    | none => simp [setFile, setProcess]
    | some own =>
        simp only [setFile, setProcess]
        refine Function.update_of_ne ?_ ..
        rintro rfl
        exact hother path hown j q hji hq ⟨Or.inr hpast, hpath⟩

/-- A file that is not there is nobody's pidfile. -/
theorem Owned.touch (h : m.Owned) {path : Str} (hnone : m.files path = none) (pid : Option ℕ) :
    (m.setFile (some path) pid).Owned := by
  refine ⟨h.pos, h.pids, h.have_iff, ?_, h.alone⟩
  intro p other hp hpast hother
  have hnames := h.names p other hp hpast hother
  refine (Function.update_of_ne ?_ ..).trans hnames
  rintro rfl
  rw [hnone] at hnames
  cases hnames

theorem Owned.step (h : m.Owned) {a : Action} (hcareful : m.careful a = true)
    (hst : m.step handler a = some t) : t.Owned := by
  cases stepped_of_step hst with
  | start pid tracefile pidfile foreground hpos hfree => exact h.start hpos hfree rfl rfl
  | quits i fails reads p hp hphase hquits =>
      have hlive : p.live = true := by simp [DaemonProcess.live, hphase]
      refine h.ended hp hlive rfl rfl rfl false ?_
      simp [DaemonImpl.removes, setFile, setProcess]
  | checked i fails reads p hp hphase hquits => exact h.checkPidfile hp hphase hquits hcareful
  | writePidfile i opens p hp hphase =>
      obtain rfl : opens = true := hcareful
      exact h.writePidfile hp hphase
  | daemonized i p hp hphase =>
      refine h.moved hp rfl rfl rfl ?_ ?_ ?_ ?_ ?_
      · simp [DaemonProcess.live, hphase]
      · simp [DaemonProcess.past, hphase]
      · rintro ⟨⟩
      · simp only [DaemonImpl.openLog]
        split <;> rfl
      · simp only [DaemonImpl.openLog]
        split <;> rfl
  | runningOk i p hp hphase =>
      refine h.moved hp rfl rfl rfl ?_ ?_ ?_ ?_ ?_
      · simp [DaemonProcess.live, DaemonProcess.runningOk, hphase]
      · simp [DaemonProcess.past, DaemonProcess.runningOk, hphase]
      · rintro ⟨⟩
      · simp only [DaemonProcess.runningOk, DaemonImpl.runningOk]
        split <;> rfl
      · simp only [DaemonProcess.runningOk, DaemonImpl.runningOk]
        split <;> rfl
  | exit i status unlinks p hp hlive =>
      exact h.ended hp hlive (setFile_processes ..) rfl rfl unlinks (setFile_files ..)
  | mainReturns i code unlinks p hp hlive =>
      exact h.ended hp hlive (setFile_processes ..) rfl rfl unlinks (setFile_files ..)
  | kill i p hp hlive =>
      refine h.ended hp hlive rfl rfl rfl false ?_
      simp [DaemonImpl.removes, setFile, setProcess]
  | waitForChild i p p' hp hwait =>
      obtain ⟨hpid, hphase, hdaemon⟩ := DaemonProcess.waitForChild_eq hwait
      refine h.moved hp rfl rfl hpid ?_ ?_ (hphase ▸ id) (hdaemon ▸ rfl) (hdaemon ▸ rfl)
      · simp only [DaemonProcess.live, hphase]
      · simp only [DaemonProcess.past, hphase]
  | touch path hnone => exact h.touch hnone (some 0)
  | touched path => exact h
  | others pids => exact ⟨h.pos, h.pids, h.have_iff, h.names, h.alone⟩

theorem owned_boot : boot.Owned := by
  constructor
  · intro p hp
    cases hp
  · intro i j p q hp
    cases hp
  · intro p hp
    cases hp
  · intro p path hp
    cases hp
  · intro i j p q path hp
    cases hp

/-- **One instance for a pidfile.** In every careful run of the machine, a process that has written
    its pidfile and not ended is named in it, and its destructor unlinks this file if it comes to
    run; no other process is between its check of that pidfile and its end, and one that comes to
    check it quits. -/
theorem one_instance {as : List Action}
    (hcareful : Along (step handler) (fun m a => m.careful a = true) boot as)
    (hrun : Run (step handler) boot as = some m) {i : ℕ} {p : DaemonProcess} {path : Str}
    (hp : m.processes[i]? = some p) (hpast : p.past = true) (hpath : p.daemon.pidfile = some path) :
    m.files path = some p.pid ∧ p.daemon.removes true = some path ∧
    (∀ j q, m.processes[j]? = some q → q.Claims path → j = i) ∧
    ∀ q, q.daemon.pidfile = some path → ∀ fails, m.quits q fails true = true := by
  have h : m.Owned :=
    Run.invariant_of_along (fun _ _ _ hs hok hst => hs.step hok hst) owned_boot hcareful hrun
  have hmem := List.mem_of_getElem? hp
  have hnames := h.names p path hmem hpast hpath
  refine ⟨hnames, ?_, ?_, ?_⟩
  · simp [DaemonImpl.removes, h.have_iff p hmem (live_of_past hpast), hpast, hpath]
  · intro j q hq hclaims
    exact h.alone j i q p path hq hp hclaims ⟨Or.inr hpast, hpath⟩
  · intro q hq fails
    have halive : m.alive p.pid = true := alive_of_past hmem hpast
    simp [quits, hq, pidFromFile, hnames, halive, h.pos p hmem]

/-- The second instance quits, with the first one's pidfile as it was. -/
theorem one_instance_quits :
    ∃ m, Run (step .on_exit) boot [.start 7 none (some ['p']) false, .checkPidfile 0 false true,
        .writePidfile 0 true, .start 8 none (some ['p']) false] = some m ∧
      m.files "/var/run/p".toList = some 7 ∧
      ∀ q ∈ m.processes, q.pid = 8 → m.quits q false true = true := by
  obtain ⟨m, p, hrun, hp, hpast, hpid, hpath, hall⟩ : ∃ m p, Run (step .on_exit) boot
      [.start 7 none (some ['p']) false, .checkPidfile 0 false true, .writePidfile 0 true,
        .start 8 none (some ['p']) false] = some m ∧
      m.processes[0]? = some p ∧ p.past = true ∧ p.pid = 7 ∧
      p.daemon.pidfile = some "/var/run/p".toList ∧
      ∀ q ∈ m.processes, q.daemon.pidfile = some "/var/run/p".toList :=
    ⟨_, _, rfl, rfl, rfl, rfl, by decide, by decide⟩
  obtain ⟨hnames, -, -, hquits⟩ := one_instance (by decide) hrun hp hpast hpath
  exact ⟨m, hrun, hpid ▸ hnames, fun q hq _ => hquits q (hall q hq) false⟩

/-- Without care, two instances that check before either has written both come to own the pidfile. -/
example : ∃ m, Run (step .on_exit) boot [.start 7 none (some ['p']) false,
      .start 8 none (some ['p']) false, .checkPidfile 0 false true, .checkPidfile 1 false true,
      .writePidfile 0 true, .writePidfile 1 true] = some m ∧
    ∀ p ∈ m.processes, p.past = true ∧ p.daemon.removes true = some "/var/run/p".toList :=
  ⟨_, rfl, by decide⟩

end Machine

end OmniEvents
