import ArmToolkit.Log.Record
import Mathlib.Logic.Function.Iterate

/-!
# `Proofs.Deliveries` — which sinks get a message after any calls on the log

## Contents
- **The level in effect.** `Logger.UpToDate`: it is the one that was asked for, or none without a sink. Taking back a sink
  that is not registered leaves it alone, and everything else brings it up to date.
- **Delivering.** A message that is delivered to sinks is written as often as each of them stands among them, and receivers
  get it in their order (`Record.foldl_deliver`).
- **The history.** `Session` is a record with the calls that were made on it. `lastLevel`, `channelOn`, `consoleOn`, `fileOn`,
  `held` and `pending` read off them what the log is set to.
- **Sequences.** One call keeps a record in step with its history (`Session.Sound.call`), so any sequence does
  (`Session.sound_calls`). `calls_deliver` puts all of this together.
-/

namespace ArmToolkit.Log

/-! ## The level in effect -/

namespace Logger

/-- **The level in effect is up to date.** -/
def UpToDate (l : Logger) : Prop := l.effective = if l.sinks = [] then .none else l.requested

theorem upToDate_refresh (l : Logger) : l.refresh.UpToDate := by
  unfold UpToDate refresh
  simp only [List.isEmpty_iff]

section

variable {l : Logger}

theorem UpToDate.unregister (h : l.UpToDate) (s : Sink) : (l.unregister s).UpToDate := by
  unfold Logger.unregister
  split
  · exact upToDate_refresh _
  · exact h

theorem UpToDate.setConsole (h : l.UpToDate) (enabled stamps : Bool) : (l.setConsole enabled stamps).UpToDate := by
  have stamped : UpToDate { l with consoleStamps := stamps } := h
  unfold Logger.setConsole
  dsimp only
  split
  · exact stamped
  · split
    · exact upToDate_refresh _
    · exact UpToDate.unregister (l := { l with consoleStamps := stamps, console := enabled }) h .console

end

/-- **A log is set as before**, apart from its sinks and their stamps. -/
structure SameSettings (l l' : Logger) : Prop where
  requested : l'.requested = l.requested
  disabled : l'.disabled = l.disabled
  console : l'.console = l.console

theorem unregister_keeps (l : Logger) (s : Sink) : l.SameSettings (l.unregister s) := by
  unfold unregister
  split <;> exact ⟨rfl, rfl, rfl⟩

/-- **A sink that is taken back** loses its first registration, if it has any. -/
theorem sinks_unregister (l : Logger) (s : Sink) : (l.unregister s).sinks = l.sinks.erase s := by
  unfold unregister
  split
  · rfl
  · rename_i unknown
    rw [List.erase_of_not_mem (by simpa using unknown)]

/-- The sinks when one is switched from what it is to what it should be. -/
def switchedTo (s : Sink) (now enabled : Bool) (ss : List Sink) : List Sink :=
  if now = enabled then ss else if enabled then ss ++ [s] else ss.erase s

theorem sinks_setConsole (l : Logger) (enabled stamps : Bool) :
    (l.setConsole enabled stamps).sinks = switchedTo .console l.console enabled l.sinks := by
  unfold setConsole switchedTo
  dsimp only
  split
  · rfl
  · split
    · rfl
    · rw [sinks_unregister]

theorem setConsole_keeps (l : Logger) (enabled stamps : Bool) :
    let l' := l.setConsole enabled stamps
    l'.requested = l.requested ∧ l'.disabled = l.disabled ∧ l'.console = enabled := by
  unfold setConsole
  dsimp only
  split
  · rename_i same
    exact ⟨rfl, rfl, same⟩
  · split
    · exact ⟨rfl, rfl, rfl⟩
    · obtain ⟨requested, disabled, console⟩ := unregister_keeps { l with consoleStamps := stamps, console := enabled } .console
      exact ⟨requested, disabled, console⟩

/-- Switching a channel switches no other one. -/
theorem mem_disabled_setChannel (l : Logger) (c channel : Channel) (enabled : Bool) :
    channel ∈ (l.setChannel c enabled).disabled ↔ if c = channel then enabled = false else channel ∈ l.disabled := by
  unfold setChannel
  by_cases same : c = channel
  · subst same
    cases enabled <;> simp
  · cases enabled <;> simp [same, Ne.symm same]

end Logger

/-! ## Delivering -/

/-- The number of a receiver. -/
def Sink.number? : Sink → Option Nat
  | .receiver n => some n
  | _ => none

namespace Record

/-- What the text of a message does to the output, if the console is on. -/
def onOutput (console : Bool) (level : Level) (text : String) : String → String :=
  if console && !Level.warning.passes level then (· ++ text) else id

/-- What the text of a message does to the errors, if the console is on. -/
def onErrors (console : Bool) (level : Level) (text : String) : String → String :=
  if console && Level.warning.passes level then (· ++ text) else id

/-- What the text of a message does to the files, if there is a log file. -/
def onFiles (place : Option Place) (text : String) : FileTree → FileTree :=
  match place with
  | some place => fun t => t.append place text
  | none => id

theorem deliver_console (m : Message) (r : Record) :
    let text := m.display (r.stampIf r.logger.consoleStamps)
    deliver m r .console = { r with
      output := onOutput r.logger.console m.category.level text r.output
      errors := onErrors r.logger.console m.category.level text r.errors } := by
  unfold deliver display onOutput onErrors
  cases r.logger.console
  · rfl
  · cases Level.warning.passes m.category.level <;> rfl

/-- The message as receivers get it. -/
def unpacked (m : Message) : Message := { m with category := m.category.narrowed }

/-- What receivers among sinks have got, the latest first. -/
def gotBy (m : Message) (ss : List Sink) : List (Nat × Message) :=
  ((ss.filterMap Sink.number?).map fun n => (n, unpacked m)).reverse

/-- **A message that is delivered to sinks** is written once for each time that the console and the file are among them, and
    each receiver gets it, in their order. Nothing else changes. -/
theorem foldl_deliver (m : Message) (ss : List Sink) (r : Record) :
    ss.foldl (deliver m) r =
      let text := m.display (r.stampIf r.logger.consoleStamps)
      { r with
        output := (onOutput r.logger.console m.category.level text)^[ss.count .console] r.output
        errors := (onErrors r.logger.console m.category.level text)^[ss.count .console] r.errors
        files := (onFiles r.logFile (m.display (r.stampIf r.fileStamps)))^[ss.count .file] r.files
        received := gotBy m ss ++ r.received } := by
  -- by the sinks that are left; each changes one part of the record, so their order does not matter but for receivers
  induction ss generalizing r with
  | nil => rfl
  | cons s ss ih =>
    rw [List.foldl_cons, ih]
    cases s with
    | console =>
      rw [deliver_console, List.count_cons_self, List.count_cons_of_ne (by decide)]
      rfl
    | file =>
      have added : deliver m r .file = { r with files := onFiles r.logFile (m.display (r.stampIf r.fileStamps)) r.files } := by
        obtain ⟨logger, stamp, output, errors, files, logFile, fileStamps, received⟩ := r
        cases logFile <;> rfl
      rw [added, List.count_cons_self, List.count_cons_of_ne (by decide)]
      rfl
    | receiver n =>
      have sent : deliver m r (.receiver n) = { r with received := (n, unpacked m) :: r.received } := by
        unfold deliver
        rw [Category.unpack?_pack]
        rfl
      have got : gotBy m (.receiver n :: ss) = gotBy m ss ++ [(n, unpacked m)] := by simp [gotBy, Sink.number?]
      rw [sent]
      rw [List.count_cons_of_ne (by simp), List.count_cons_of_ne (by simp), got, List.append_assoc]
      rfl

/-- **The record when all sinks have got a message**: the console, if it is on, the log file, if it is open, and the
    receivers, as often as each of them is registered. -/
def delivered (r : Record) (m : Message) : Record :=
  let shown := if r.logger.console then r.display m.category.level (m.display (r.stampIf r.logger.consoleStamps)) else r
  { shown with
    files := onFiles r.logFile (m.display (r.stampIf r.fileStamps)) r.files
    received := gotBy m r.logger.sinks ++ r.received }

/-- The console and the log file are among the sinks once, or they are not in use. -/
theorem foldl_deliver_sinks {r : Record} (console : r.logger.sinks.count .console = if r.logger.console then 1 else 0)
    (file : r.logger.sinks.count .file = if r.logFile.isSome then 1 else 0) (m : Message) :
    r.logger.sinks.foldl (deliver m) r = r.delivered m := by
  have added : ∀ t, (onFiles r.logFile t)^[r.logger.sinks.count .file] r.files = onFiles r.logFile t r.files := by
    intro t
    rw [file]
    cases r.logFile <;> rfl
  have shown : (if r.logger.console then r.display m.category.level (m.display (r.stampIf r.logger.consoleStamps)) else r) =
    deliver m r .console := rfl
  rw [foldl_deliver, delivered, shown, deliver_console]
  dsimp only
  rw [added, console]
  unfold onOutput onErrors
  cases r.logger.console <;> rfl

/-- Delivering leaves the log as it is set. -/
theorem logger_foldl_deliver (m : Message) (ss : List Sink) (r : Record) :
    (ss.foldl (deliver m) r).logger = r.logger ∧ (ss.foldl (deliver m) r).logFile = r.logFile := by
  rw [foldl_deliver]
  exact ⟨rfl, rfl⟩

theorem logger_write (r : Record) (m : Message) : (r.write m).logger = r.logger ∧ (r.write m).logFile = r.logFile :=
  logger_foldl_deliver m _ r

/-- **The log file is switched, or it could not be opened** and all is set as before. -/
theorem setFile_cases (r : Record) (enabled : Bool) (path : String) (stamps : Bool) :
    let (r', ok) := r.setFile enabled path stamps
    r.logger.SameSettings r'.logger ∧ (r.logger.UpToDate → r'.logger.UpToDate) ∧
      if ok then
        r'.logFile.isSome = enabled ∧ r'.logger.sinks = Logger.switchedTo .file r.logFile.isSome enabled r.logger.sinks
      else r'.logFile = r.logFile ∧ r'.logger.sinks = r.logger.sinks := by
  unfold setFile Logger.switchedTo
  dsimp only
  split
  · rename_i same
    exact ⟨⟨rfl, rfl, rfl⟩, id, same, rfl⟩
  · split
    · rename_i on
      split
      · obtain ⟨logger, logFile⟩ := logger_foldl_deliver (openFailure path) r.logger.sinks { r with fileStamps := stamps }
        dsimp only at logger logFile ⊢
        rw [logger, logFile]
        exact ⟨⟨rfl, rfl, rfl⟩, id, rfl, rfl⟩
      · exact ⟨⟨rfl, rfl, rfl⟩, fun _ => Logger.upToDate_refresh _, on.symm, rfl⟩
    · rename_i off
      refine ⟨r.logger.unregister_keeps .file, fun h => h.unregister .file, ?_, r.logger.sinks_unregister .file⟩
      simpa using off

end Record

/-! ## The history -/

/-- **A call on the log**: one that sets it, a message, or something else changing the files in between. -/
inductive Call
  | register (number : Nat)
  | unregister (number : Nat)
  | setLevel (level : Level)
  | setChannel (channel : Channel) (enabled : Bool)
  | setConsole (enabled stamps : Bool)
  | setFile (enabled : Bool) (path : String) (stamps : Bool)
  | write (m : Message)
  | changeFiles (files : FileTree)

/-- What a call does to a record, and whether it succeeds: a file may not open. -/
def Call.run (r : Record) : Call → Record × Bool
  | .register n => ({ r with logger := r.logger.register (.receiver n) }, true)
  | .unregister n => ({ r with logger := r.logger.unregister (.receiver n) }, true)
  | .setLevel level => ({ r with logger := r.logger.setLevel level }, true)
  | .setChannel channel enabled => ({ r with logger := r.logger.setChannel channel enabled }, true)
  | .setConsole enabled stamps => ({ r with logger := r.logger.setConsole enabled stamps }, true)
  | .setFile enabled path stamps => r.setFile enabled path stamps
  | .write m => (r.write m, true)
  | .changeFiles files => ({ r with files }, true)

/-- The sink that a call is about. -/
def Call.sink? : Call → Option Sink
  | .register n | .unregister n => some (.receiver n)
  | .setConsole _ _ => some .console
  | .setFile _ _ _ => some .file
  | _ => none

/-- **The calls that were made**, the latest first, with whether they succeeded. -/
abbrev History := List (Call × Bool)

namespace History

/-- The level that was last asked for; in the beginning it is that of everything. -/
def lastLevel : History → Level
  | [] => .trace
  | (.setLevel level, _) :: _ => level
  | _ :: past => lastLevel past

/-- Whether a channel was last switched on; in the beginning all are. -/
def channelOn (channel : Channel) : History → Bool
  | [] => true
  | (.setChannel c enabled, _) :: past => if c = channel then enabled else channelOn channel past
  | _ :: past => channelOn channel past

/-- Whether the console was last switched on. -/
def consoleOn : History → Bool
  | [] => false
  | (.setConsole enabled _, _) :: _ => enabled
  | _ :: past => consoleOn past

/-- Whether the log file was last switched on, by a call that succeeded. -/
def fileOn : History → Bool
  | [] => false
  | (.setFile enabled _ _, true) :: _ => enabled
  | _ :: past => fileOn past

/-- How often a receiver has been registered and not taken back since. Where it is not registered, nothing is taken back. -/
def pending (n : Nat) : History → Nat
  | [] => 0
  | (.register k, _) :: past => if k = n then pending n past + 1 else pending n past
  | (.unregister k, _) :: past => if k = n then pending n past - 1 else pending n past
  | _ :: past => pending n past

/-- The sinks with one of them in use or not: it is registered behind the others if it is new, and taken back if it is not
    in use any more. -/
def inUse (s : Sink) (enabled : Bool) (ss : List Sink) : List Sink :=
  if enabled then if s ∈ ss then ss else ss ++ [s] else ss.erase s

/-- **The sinks that are registered**, in the order of their registration. Of several registrations of a receiver the
    first one is taken back. -/
def held : History → List Sink
  | [] => []
  | (.register n, _) :: past => held past ++ [.receiver n]
  | (.unregister n, _) :: past => (held past).erase (.receiver n)
  | (.setConsole enabled _, _) :: past => inUse .console enabled (held past)
  | (.setFile enabled _ _, true) :: past => inUse .file enabled (held past)
  | _ :: past => held past

section

variable {s : Sink} {now : Bool} {ss : List Sink}

/-- A sink is known to be in use where it stands among the others. -/
theorem mem_iff_of_count (once : ss.count s = if now then 1 else 0) : s ∈ ss ↔ now = true := by
  rw [← List.count_pos_iff, once]
  cases now <;> decide

/-- **A sink that is in use stands among the others once**, and else not at all. -/
theorem count_inUse (once : ss.count s = if now then 1 else 0) (enabled : Bool) :
    (inUse s enabled ss).count s = if enabled then 1 else 0 := by
  have mem := mem_iff_of_count once
  unfold inUse
  cases enabled with
  | false =>
    rw [if_neg Bool.false_ne_true, List.count_erase_self, once]
    cases now <;> rfl
  | true => cases now <;> simpa [mem] using once

/-- Where a sink is known to be in use or not, it is switched if there is something to switch. -/
theorem switchedTo_eq (once : ss.count s = if now then 1 else 0) (enabled : Bool) :
    Logger.switchedTo s now enabled ss = inUse s enabled ss := by
  have mem := mem_iff_of_count once
  unfold Logger.switchedTo inUse
  cases now with
  | true => cases enabled <;> simp [mem]
  | false =>
    have absent : ss.erase s = ss := List.erase_of_not_mem (by simp [mem])
    cases enabled <;> simp [mem, absent]

end

/-- A sink is not among the others more often when another one is added. -/
theorem count_append_of_ne {s t : Sink} (other : t ≠ s) (ss : List Sink) : (ss ++ [s]).count t = ss.count t := by
  rw [List.count_append, List.count_singleton]
  simp [Ne.symm other]

/-- A sink is among the others as often when another one is switched. -/
theorem count_inUse_of_ne {s t : Sink} (other : t ≠ s) (enabled : Bool) (ss : List Sink) :
    (inUse s enabled ss).count t = ss.count t := by
  unfold inUse
  split
  · split
    · rfl
    · exact count_append_of_ne other ss
  · exact List.count_erase_of_ne other

/-- **A call changes how often a sink is held** only if it is about that sink. -/
theorem count_held_cons {c : Call} {t : Sink} (other : c.sink? ≠ some t) (ok : Bool) (past : History) :
    (held ((c, ok) :: past)).count t = (held past).count t := by
  have apart : ∀ s, c.sink? = some s → t ≠ s := fun s known same => other (same ▸ known)
  cases c with
  | register n => exact count_append_of_ne (apart _ rfl) _
  | unregister n => exact List.count_erase_of_ne (apart _ rfl)
  | setConsole enabled stamps => exact count_inUse_of_ne (apart _ rfl) enabled _
  | setFile enabled path stamps =>
    cases ok with
    | true => exact count_inUse_of_ne (apart _ rfl) enabled _
    | false => rfl
  | _ => rfl

/-- **The console is held once while it is on**, and else not at all. -/
theorem count_console_held (past : History) : (held past).count .console = if consoleOn past then 1 else 0 := by
  induction past with
  | nil => rfl
  | cons e past ih =>
    obtain ⟨c, ok⟩ := e
    cases c with
    | setConsole enabled stamps => exact count_inUse ih enabled
    | _ => exact (count_held_cons (by simp [Call.sink?]) ok past).trans ih

/-- **The log file is held once while it is open**, and else not at all. -/
theorem count_file_held (past : History) : (held past).count .file = if fileOn past then 1 else 0 := by
  induction past with
  | nil => rfl
  | cons e past ih =>
    obtain ⟨c, ok⟩ := e
    cases c with
    | setFile enabled path stamps =>
      cases ok with
      | true => exact count_inUse ih enabled
      | false => exact ih
    | _ => exact (count_held_cons (by simp [Call.sink?]) ok past).trans ih

/-- **A receiver is held as often as it is registered.** -/
theorem count_receiver_held (n : Nat) (past : History) : (held past).count (.receiver n) = pending n past := by
  induction past with
  | nil => rfl
  | cons e past ih =>
    obtain ⟨c, ok⟩ := e
    cases c with
    | register k =>
      unfold held pending
      rw [List.count_append, ih, List.count_singleton]
      by_cases same : k = n <;> simp [same]
    | unregister k =>
      unfold held pending
      by_cases same : k = n
      · rw [same, List.count_erase_self, ih, if_pos rfl]
      · rw [List.count_erase_of_ne (by simpa using Ne.symm same), ih, if_neg same]
    | _ => exact (count_held_cons (by simp [Call.sink?]) ok past).trans ih

end History

open History

/-- **A record with the calls that were made on it.** -/
structure Session where
  record : Record
  past : History := []

namespace Session

/-- The session after a call. -/
def call (s : Session) (c : Call) : Session := ⟨(c.run s.record).1, (c, (c.run s.record).2) :: s.past⟩

/-- **A session of calls** from the beginning, with some files and some time stamp. -/
def calls (files : FileTree) (stamp : String) (cs : List Call) : Session := cs.foldl call ⟨{ files, stamp }, []⟩

/-- **A record is in step with its history.** -/
structure Sound (s : Session) : Prop where
  upToDate : s.record.logger.UpToDate
  requested : s.record.logger.requested = lastLevel s.past
  channels : ∀ channel, channel ∈ s.record.logger.disabled ↔ channelOn channel s.past = false
  console : s.record.logger.console = consoleOn s.past
  file : s.record.logFile.isSome = fileOn s.past
  sinks : s.record.logger.sinks = held s.past

section

variable {s : Session}

/-- A record is in step where its log is set as before and its sinks are in step. -/
theorem Sound.of_same (h : s.Sound) {r : Record} {past : History} (same : s.record.logger.SameSettings r.logger)
    (upToDate : r.logger.UpToDate) (level : lastLevel past = lastLevel s.past)
    (channels : ∀ channel, channelOn channel past = channelOn channel s.past) (console : consoleOn past = consoleOn s.past)
    (file : r.logFile.isSome = fileOn past) (sinks : r.logger.sinks = held past) : Sound ⟨r, past⟩ where
  upToDate := upToDate
  requested := by rw [same.requested, h.requested, level]
  channels channel := by rw [same.disabled, h.channels, channels]
  console := by rw [same.console, h.console, console]
  file := file
  sinks := sinks

/-- **One call keeps a record in step with its history.** -/
theorem Sound.call (h : s.Sound) (c : Call) : (s.call c).Sound := by
  cases c with
  | register n =>
    exact h.of_same ⟨rfl, rfl, rfl⟩ (Logger.upToDate_refresh _) rfl (fun _ => rfl) rfl h.file
      (congrArg (· ++ [Sink.receiver n]) h.sinks)
  | unregister n =>
    have same := s.record.logger.unregister_keeps (.receiver n)
    refine h.of_same same (h.upToDate.unregister _) rfl (fun _ => rfl) rfl h.file ?_
    exact (s.record.logger.sinks_unregister (.receiver n)).trans (congrArg (List.erase · (Sink.receiver n)) h.sinks)
  | setLevel level =>
    exact ⟨Logger.upToDate_refresh _, rfl, h.channels, h.console, h.file, h.sinks⟩
  | setChannel c enabled =>
    refine ⟨h.upToDate, h.requested, fun channel => ?_, h.console, h.file, h.sinks⟩
    refine (s.record.logger.mem_disabled_setChannel c channel enabled).trans ?_
    unfold Session.call channelOn
    split
    · rfl
    · exact h.channels channel
  | setConsole enabled stamps =>
    obtain ⟨requested, disabled, console⟩ := s.record.logger.setConsole_keeps enabled stamps
    refine ⟨h.upToDate.setConsole enabled stamps, requested.trans h.requested, fun channel => ?_, console, h.file, ?_⟩
    · exact (iff_of_eq (congrArg (channel ∈ ·) disabled)).trans (h.channels channel)
    · refine (s.record.logger.sinks_setConsole enabled stamps).trans ?_
      rw [h.sinks, h.console, switchedTo_eq (count_console_held s.past)]
      rfl
  | setFile enabled path stamps =>
    have cases_of := s.record.setFile_cases enabled path stamps
    unfold Session.call Call.run
    dsimp only
    -- a file that cannot be opened leaves the sinks, and one that can is added or removed once
    cases ran : s.record.setFile enabled path stamps with
    | mk r ok =>
      rw [ran] at cases_of
      obtain ⟨same, upToDate, effect⟩ := cases_of
      cases ok with
      | true =>
        obtain ⟨file, sinks⟩ := effect
        rw [h.sinks, h.file, switchedTo_eq (count_file_held s.past)] at sinks
        exact h.of_same same (upToDate h.upToDate) rfl (fun _ => rfl) rfl file sinks
      | false =>
        obtain ⟨file, sinks⟩ := effect
        exact h.of_same same (upToDate h.upToDate) rfl (fun _ => rfl) rfl (file ▸ h.file) (sinks.trans h.sinks)
  | write m =>
    obtain ⟨logger, logFile⟩ := s.record.logger_write m
    refine h.of_same (r := (s.record.write m)) ?_ ?_ rfl (fun _ => rfl) rfl ?_ ?_
    · rw [logger]
      exact ⟨rfl, rfl, rfl⟩
    · rw [logger]
      exact h.upToDate
    · rw [logFile]
      exact h.file
    · rw [logger]
      exact h.sinks
  | changeFiles files => exact ⟨h.upToDate, h.requested, h.channels, h.console, h.file, h.sinks⟩

/-- **Any sequence of calls** keeps a record in step with its history. -/
theorem sound_calls (files : FileTree) (stamp : String) (cs : List Call) : (calls files stamp cs).Sound := by
  have kept : ∀ s : Session, s.Sound → (cs.foldl Session.call s).Sound := by
    induction cs with
    | nil => exact fun _ h => h
    | cons c cs ih => exact fun s h => ih (s.call c) (h.call c)
  exact kept _ ⟨rfl, rfl, fun _ => by simp [channelOn], rfl, rfl, rfl⟩

/-- **A message is held back** by the level that was last asked for, or by its channel. -/
theorem Sound.receivers (h : s.Sound) (m : Message) :
    s.record.logger.receivers m =
      if m.category.level.rank ≤ (lastLevel s.past).rank ∧ channelOn m.category.channel s.past = true then held s.past
      else [] := by
  have channel : m.category.channel ∉ s.record.logger.disabled ↔ channelOn m.category.channel s.past = true := by
    rw [h.channels, Bool.not_eq_false]
  unfold Logger.receivers Logger.visible
  rw [h.upToDate, h.sinks, h.requested]
  by_cases none : held s.past = []
  · simp [none]
  · simp only [none, if_false, Level.passes, Bool.and_eq_true, decide_eq_true_eq, Bool.not_eq_true',
      List.contains_eq_mem, decide_eq_false_iff_not, channel]

end

end Session

/-- **Messages after any calls on the log.** The sinks are those that were registered and not taken back, in their order; the
    console and the log file are among them once while they are in use, and receivers as often as they are registered. The
    level in effect is the one that was last asked for, if there is a sink. If the level of a message is at most the one asked
    for and its channel is on, it is delivered to the sinks in their order, as often as each is registered; otherwise nothing
    happens. -/
theorem calls_deliver (files : FileTree) (stamp : String) (cs : List Call) :
    let s := Session.calls files stamp cs
    let r := s.record
    r.logger.sinks = held s.past ∧
      r.logger.effective = (if held s.past = [] then .none else lastLevel s.past) ∧
      (held s.past).count .console = (if consoleOn s.past then 1 else 0) ∧
      (held s.past).count .file = (if fileOn s.past then 1 else 0) ∧
      (∀ n, (held s.past).count (.receiver n) = pending n s.past) ∧
      ∀ m : Message,
        if m.category.level.rank ≤ (lastLevel s.past).rank ∧ channelOn m.category.channel s.past = true then
          r.logger.receivers m = held s.past ∧ r.write m = r.delivered m
        else r.logger.receivers m = [] ∧ r.write m = r := by
  intro s r
  have sound : s.Sound := Session.sound_calls files stamp cs
  refine ⟨sound.sinks, ?_, count_console_held _, count_file_held _, fun n => count_receiver_held n _, fun m => ?_⟩
  · rw [sound.upToDate, sound.sinks, sound.requested]
  · have console : r.logger.sinks.count .console = if r.logger.console then 1 else 0 := by
      rw [sound.sinks, sound.console]
      exact count_console_held _
    have file : r.logger.sinks.count .file = if r.logFile.isSome then 1 else 0 := by
      rw [sound.sinks, sound.file]
      exact count_file_held _
    have all := Record.foldl_deliver_sinks console file m
    rw [sound.sinks] at all
    unfold Record.write
    rw [sound.receivers]
    split
    · exact ⟨rfl, all⟩
    · exact ⟨rfl, rfl⟩

end ArmToolkit.Log
