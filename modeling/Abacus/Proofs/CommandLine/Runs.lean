import Abacus.Proofs.CommandLine.Printing
import Abacus.Proofs.CommandLine.Success
import Abacus.Proofs.Limit

/-!
# Runs — the history that runs of the program leave one another

Runs come one after the other, at times that never go back and are less than the retention apart,
and each does a calculation, a look at the history or a cleanup, or is refused.  One run adds the row
of its success to a file that holds those before it (`Run.file_perform`), so that is what all of them
leave (`file_after`).  The headline `runs_keep_successes` says of every run what it does on the disk
that the runs before it leave.
-/

namespace Abacus.CommandLine

open History (Archive Record Store cutoff mostRows)

/-! ## The disk -/

variable {database : String}

theorem opened_of_ne (h : database ≠ inMemory) (archive : Archive) :
    opened database (.ok archive) = .working archive :=
  if_neg (by rwa [beq_iff_eq])

theorem opened_error (h : database ≠ inMemory) (reason : String) :
    opened database (.error reason) = .unavailable reason :=
  if_neg (by rwa [beq_iff_eq])

namespace Disk

variable (disk : Disk) (name : String)

theorem keep_same (archive : Archive) : disk.keep name archive name = archive :=
  if_pos rfl

theorem keep_other {other : String} (h : other ≠ name) (archive : Archive) :
    disk.keep name archive other = disk other :=
  if_neg h

/-- Keeping what is there changes nothing. -/
theorem keep_self : disk.keep name (disk name) = disk := by
  funext other
  by_cases h : other = name
  · rw [h, keep_same]
  · exact keep_other disk name h (disk name)

theorem keepStore_inMemory (store : Store) : disk.keepStore inMemory store = disk := by
  cases store <;> rfl

theorem keepStore_unavailable (reason : String) :
    disk.keepStore name (.unavailable reason) = disk := rfl

theorem keepStore_working (h : name ≠ inMemory) (archive : Archive) :
    disk.keepStore name (.working archive) = disk.keep name archive := by
  rw [keepStore, kept?, if_neg (by rwa [beq_iff_eq])]

theorem after_concat (runs : List Run) (run : Run) :
    disk.after (runs ++ [run]) = (run.perform (disk.after runs)).2 := by
  rw [after, List.foldl_append]
  rfl

end Disk

/-! ## One run -/

namespace Run

/-- The run is one that asks the service once, or its arguments are not accepted. -/
def IsCommand (run : Run) : Prop :=
  ∀ invocation, run.invocation = .ok invocation →
    ∃ command, invocation.action.command? = some command

/-- What the run asks for on the file, if it can open that. -/
def command? (file : String) (run : Run) : Option Command :=
  match run.invocation with
  | .ok invocation =>
      if invocation.database = file ∧ run.obstacle = none then invocation.action.command? else none
  | .error _ => none

/-- The calculation that succeeds on the file in the run. -/
def success? (file : String) (run : Run) : Option Success :=
  (run.command? file).bind (Success.ofCommand? run.now)

variable {run : Run} {file : String} {disk : Disk} {invocation : Invocation} {command : Command}

theorem isCommand_of_stop {stop : Stop} (h : run.invocation = .error stop) : run.IsCommand := by
  intro invocation hread
  cases h.symm.trans hread

theorem isCommand_of_invocation (h : run.invocation = .ok invocation)
    (hasked : invocation.action.command? = some command) : run.IsCommand := by
  intro other hother
  obtain rfl := Except.ok.inj (h.symm.trans hother)
  exact ⟨command, hasked⟩

theorem command?_eq_some_iff :
    run.command? file = some command ↔ ∃ invocation, run.invocation = .ok invocation ∧
      invocation.database = file ∧ run.obstacle = none ∧
        invocation.action.command? = some command := by
  constructor
  · intro h
    rw [command?] at h
    split at h
    · next invocation hread =>
      split at h
      · next hon => exact ⟨invocation, hread, hon.1, hon.2, h⟩
      · cases h
    · cases h
  · rintro ⟨invocation, hread, hfile, hopen, hasked⟩
    rw [command?, hread, ← hasked]
    exact if_pos ⟨hfile, hopen⟩

/-- A success comes of a calculation on the file, at the time of the run. -/
theorem success?_eq_some_iff {s : Success} :
    run.success? file = some s ↔ ∃ request, run.command? file = some (.calculate request) ∧
      request.calculate = .ok s.calculation ∧ s.time = run.now := by
  rw [success?, Option.bind_eq_some_iff]
  constructor
  · rintro ⟨command, hasked, hfound⟩
    obtain ⟨request, rfl, hcalculated⟩ := Success.ofCommand?_eq_some_iff.mp hfound
    exact ⟨request, hasked, hcalculated⟩
  · rintro ⟨request, hasked, hcalculated⟩
    exact ⟨_, hasked, Success.ofCommand?_eq_some_iff.mpr ⟨request, rfl, hcalculated⟩⟩

theorem time_of_success? {s : Success} (h : run.success? file = some s) : s.time = run.now := by
  obtain ⟨request, -, -, htime⟩ := success?_eq_some_iff.mp h
  exact htime

/-- Arguments that are not accepted leave the disk. -/
theorem perform_of_stop {stop : Stop} (h : run.invocation = .error stop) (disk : Disk) :
    run.perform disk = (stop.exit, disk) := by
  rw [perform, h]

/-- A run that can open a file opens what is kept in it. -/
theorem store_of_open (hfile : file ≠ inMemory) (hopen : run.obstacle = none) (disk : Disk) :
    run.store disk file = .working (disk file) := by
  rw [store, hopen]
  exact opened_of_ne hfile (disk file)

theorem store_of_obstacle (hfile : file ≠ inMemory) {reason : String}
    (hclosed : run.obstacle = some reason) (disk : Disk) :
    run.store disk file = .unavailable reason := by
  rw [store, hclosed]
  exact opened_error hfile reason

/-- **A run that asks the service once** keeps the effect of the command in the file that it names,
if it names one and can open it; otherwise it leaves the disk. -/
theorem snd_perform (hread : run.invocation = .ok invocation)
    (h : invocation.action.command? = some command) (disk : Disk) :
    (run.perform disk).2 =
      if invocation.database ≠ inMemory ∧ run.obstacle = none then
        disk.keep invocation.database (command.effect run.now (disk invocation.database))
      else disk := by
  have hnext : (run.perform disk).2 = disk.keepStore invocation.database
      (((Service.start (run.store disk invocation.database) Service.defaultCapacity).perform run.now
        command).2.close run.now).store := by
    rw [← snd_run h run.now run.input, perform, hread]
  rw [hnext]
  by_cases hmemory : invocation.database = inMemory
  · rw [hmemory, Disk.keepStore_inMemory, if_neg (fun hboth => hboth.1 rfl)]
  · cases hopen : run.obstacle with
    | some reason =>
        rw [store_of_obstacle hmemory hopen, Service.store_close_perform_unavailable,
          Disk.keepStore_unavailable, if_neg (by simp)]
    | none =>
        rw [store_of_open hmemory hopen, Service.store_close_perform,
          Disk.keepStore_working _ _ hmemory, if_pos ⟨hmemory, rfl⟩]

/-- The run ends with zero just if the service has an answer. -/
theorem code_perform_iff (hread : run.invocation = .ok invocation)
    (h : invocation.action.command? = some command) (disk : Disk) :
    (run.perform disk).1.code = 0 ↔
      ∃ outcome, ((Service.start (run.store disk invocation.database)
        Service.defaultCapacity).perform run.now command).1 = .ok outcome := by
  rw [perform, hread]
  exact code_run_iff h run.now run.input _

/-- **A run that fails leaves the disk.** -/
theorem snd_perform_of_code (hcommand : run.IsCommand) (h : (run.perform disk).1.code ≠ 0) :
    (run.perform disk).2 = disk := by
  cases hread : run.invocation with
  | error stop => rw [perform_of_stop hread]
  | ok invocation =>
      obtain ⟨command, hasked⟩ := hcommand invocation hread
      rw [snd_perform hread hasked]
      split
      · next hkept =>
        rw [Ne, code_perform_iff hread hasked, store_of_open hkept.1 hkept.2] at h
        have heffect : command.effect run.now (disk invocation.database) =
            disk invocation.database := by
          cases hanswer : ((Service.start (.working (disk invocation.database))
              Service.defaultCapacity).perform run.now command).1 with
          | ok outcome => exact absurd ⟨outcome, hanswer⟩ h
          | error failure => exact Service.effect_of_perform_eq_error hanswer
        rw [heffect, Disk.keep_self]
      · rfl

/-- A run in memory, or one that can open nothing, leaves the disk. -/
theorem snd_perform_aside (hcommand : run.IsCommand) (hread : run.invocation = .ok invocation)
    (h : invocation.database = inMemory ∨ run.obstacle ≠ none) (disk : Disk) :
    (run.perform disk).2 = disk := by
  obtain ⟨command, hasked⟩ := hcommand invocation hread
  rw [snd_perform hread hasked, if_neg]
  rintro ⟨hnamed, hopen⟩
  exact h.elim hnamed (· hopen)

/-- **One run adds its success** to a file that holds those before it. -/
theorem file_perform (hfile : file ≠ inMemory) (hcommand : run.IsCommand) {found : List Success}
    (hholds : disk file = Success.archive found) (hkept : ∀ s ∈ found, cutoff run.now < s.time) :
    (run.perform disk).2 file = Success.archive (found ++ (run.success? file).toList) := by
  have hnothing (h : run.command? file = none) :
      Success.archive (found ++ (run.success? file).toList) = disk file := by
    rw [success?, h, hholds]
    exact congrArg Success.archive (List.append_nil found)
  cases hread : run.invocation with
  | error stop => rw [perform_of_stop hread, hnothing (by rw [command?, hread])]
  | ok invocation =>
      obtain ⟨command, hasked⟩ := hcommand invocation hread
      rw [snd_perform hread hasked]
      by_cases hon : invocation.database = file ∧ run.obstacle = none
      · obtain ⟨rfl, hopen⟩ := hon
        have hsuccess : run.success? invocation.database = Success.ofCommand? run.now command := by
          rw [success?, command?_eq_some_iff.mpr ⟨invocation, hread, rfl, hopen, hasked⟩]
          rfl
        rw [if_pos ⟨hfile, hopen⟩, Disk.keep_same, hholds, Success.effect_archive hkept, hsuccess]
      · rw [hnothing (by rw [command?, hread]; exact if_neg hon)]
        split
        · next hkeeps =>
          exact Disk.keep_other disk _ (fun heq => hon ⟨heq.symm, hkeeps.2⟩) _
        · rfl

/-- A calculation on the file ends with zero just if it is a success. -/
theorem code_eq_zero_iff_success {request : Request}
    (h : run.command? file = some (.calculate request)) (disk : Disk) :
    (run.perform disk).1.code = 0 ↔ ∃ s, run.success? file = some s := by
  obtain ⟨invocation, hread, -, -, hasked⟩ := command?_eq_some_iff.mp h
  rw [code_perform_iff hread hasked]
  simp only [Service.perform_calculate, map_eq_ok_iff]
  constructor
  · rintro ⟨outcome, found, hfound, -⟩
    exact ⟨⟨found, run.now⟩, success?_eq_some_iff.mpr ⟨request, h, hfound, rfl⟩⟩
  · rintro ⟨s, hs⟩
    obtain ⟨other, hother, hfound, -⟩ := success?_eq_some_iff.mp hs
    obtain rfl := Command.calculate.inj (Option.some.inj (h.symm.trans hother))
    exact ⟨_, s.calculation, hfound, rfl⟩

/-- A look at the file in JSON prints what the store shows, if it is printable. -/
theorem output_perform (hfile : file ≠ inMemory) (hread : run.invocation = .ok invocation)
    (hnamed : invocation.database = file) (hopen : run.obstacle = none) {limit : Nat}
    (haction : invocation.action = .history limit true) {records : List Record}
    (hshown : (Store.working (disk file)).recent (Limit.orDefault limit) (cutoff run.now) =
      .ok records)
    (hprintable : ∀ r ∈ records, r.IsPrintable) :
    (run.perform disk).1.output = (Record.listToJson records).indented ++ "\n" := by
  have hasked : invocation.action.command? = some (.history (Limit.orDefault limit)) := by
    rw [haction]
    rfl
  have hanswer : ((Service.start (.working (disk file)) Service.defaultCapacity).perform run.now
      (.history (Limit.orDefault limit))).1 = .ok (.records records) :=
    Service.perform_history_eq_ok_iff.mpr ⟨records, hshown, rfl⟩
  have houtput : (run.perform disk).1.output =
      outcomeText invocation.action.isJson (.records records) := by
    rw [perform, hread]
    show (invocation.run run.now run.input (run.store disk invocation.database)).1.exit.output = _
    rw [output_run hasked, hnamed, store_of_open hfile hopen, output_ask_of_ok hanswer]
  rw [houtput, haction]
  show Text.plain (Record.listToJson records).indented ++ "\n" = _
  rw [Record.plain_listToJson_indented_iff.mpr hprintable]

end Run

/-! ## Runs one after the other -/

/-- The calculations that succeed on the file in some runs. -/
def successes (file : String) (runs : List Run) : List Success :=
  runs.filterMap (Run.success? file)

/-- Successes are printed as they are. -/
theorem isPrintable_of_mem_successes {file : String} {runs : List Run} :
    ∀ r ∈ Success.records (successes file runs), r.IsPrintable := by
  intro r hr
  obtain ⟨s, hs, id, rfl⟩ := Success.exists_of_mem_records hr
  obtain ⟨run, -, hsuccess⟩ := List.mem_filterMap.mp hs
  obtain ⟨request, -, hfound, -⟩ := Run.success?_eq_some_iff.mp hsuccess
  exact Calculation.isPrintable_of_calculate hfound

theorem successes_concat (file : String) (runs : List Run) (run : Run) :
    successes file (runs ++ [run]) = successes file runs ++ (run.success? file).toList := by
  rw [successes, List.filterMap_append, List.filterMap_cons, List.filterMap_nil]
  cases run.success? file with
  | none => rfl
  | some s => rfl

/-- The times of some runs: they never go back, all of them are less than the retention apart, and
none is the least moment of all, after which no cutoff comes. -/
structure IsClock (times : List Int) : Prop where
  ascending : times.Pairwise (· ≤ ·)
  short : ∀ first ∈ times, ∀ last ∈ times, last - first < History.retention
  told : ∀ time ∈ times, History.leastMoment < time

namespace IsClock

variable {file : String} {runs before : List Run} {run : Run}

/-- The times of the first runs. -/
theorem of_append {first second : List Run} (h : IsClock ((first ++ second).map Run.now)) :
    IsClock (first.map Run.now) := by
  have hbegins : first.map Run.now <+: (first ++ second).map Run.now :=
    (List.prefix_append first second).map Run.now
  exact {
    ascending := h.ascending.sublist hbegins.sublist
    short := fun a ha b hb => h.short a (hbegins.subset ha) b (hbegins.subset hb)
    told := fun time htime => h.told time (hbegins.subset htime) }

/-- Nothing that succeeded before a run is too old for it. -/
theorem kept (h : IsClock (runs.map Run.now)) (hrun : run ∈ runs)
    (hbefore : ∀ other ∈ before, other ∈ runs) :
    ∀ s ∈ successes file before, cutoff run.now < s.time := by
  intro s hs
  obtain ⟨other, hother, hsuccess⟩ := List.mem_filterMap.mp hs
  have hmem (r : Run) (hr : r ∈ runs) : r.now ∈ runs.map Run.now := List.mem_map_of_mem hr
  have hshort := h.short _ (hmem other (hbefore other hother)) _ (hmem run hrun)
  have htold := h.told _ (hmem other (hbefore other hother))
  rw [Run.time_of_success? hsuccess, cutoff]
  omega

/-- Successes come in the order of their times. -/
theorem ascending_successes (h : IsClock (runs.map Run.now)) :
    (successes file runs).Pairwise fun s t => s.time ≤ t.time := by
  rw [successes, List.pairwise_filterMap]
  refine (List.pairwise_map.mp h.ascending).imp fun {a b} hle s hs t ht => ?_
  rw [Run.time_of_success? hs, Run.time_of_success? ht]
  exact hle

end IsClock

variable {file : String} {disk : Disk} {runs : List Run}

/-- **Runs leave the successes in the file**, and nothing else. -/
theorem file_after (hfile : file ≠ inMemory) (hempty : disk file = .empty)
    (hclock : IsClock (runs.map Run.now)) (hcommands : ∀ run ∈ runs, run.IsCommand) :
    disk.after runs file = Success.archive (successes file runs) := by
  induction runs using List.reverseRecOn with
  | nil => exact hempty
  | append_singleton runs run ih =>
      have hlast : run ∈ runs ++ [run] := List.mem_append_right runs List.mem_cons_self
      have hfirst : ∀ other ∈ runs, other ∈ runs ++ [run] :=
        fun other hother => List.mem_append_left [run] hother
      have hholds := ih hclock.of_append
        fun other hother => hcommands other (hfirst other hother)
      rw [Disk.after_concat, successes_concat]
      exact Run.file_perform hfile (hcommands run hlast) hholds (hclock.kept hlast hfirst)

/-- What a run does on a disk whose file holds the successes of the runs before it. -/
structure Run.KeepsTo (run : Run) (file : String) (found : List Success) (disk : Disk) : Prop where
  /-- The file has a row for each success before, numbered in their order. -/
  rows : (disk file).rows = Success.rows found
  /-- The run ends with zero just if the service has an answer to what it asks. -/
  code : ∀ invocation command, run.invocation = .ok invocation →
    invocation.action.command? = some command → ((run.perform disk).1.code = 0 ↔
      ∃ outcome, ((Service.start (run.store disk invocation.database)
        Service.defaultCapacity).perform run.now command).1 = .ok outcome)
  /-- A run whose arguments are not accepted leaves the disk. -/
  refused : ∀ stop, run.invocation = .error stop → (run.perform disk).2 = disk
  /-- So does one that fails. -/
  failed : (run.perform disk).1.code ≠ 0 → (run.perform disk).2 = disk
  /-- So does one in memory, and one that can open no history. -/
  aside : ∀ invocation, run.invocation = .ok invocation →
    invocation.database = inMemory ∨ run.obstacle ≠ none → (run.perform disk).2 = disk
  /-- The calculations on the file that end with zero are the successes. -/
  counted : ∀ request, run.command? file = some (.calculate request) →
    ((run.perform disk).1.code = 0 ↔ ∃ s, run.success? file = some s)
  /-- A success is in the file when the run ends. -/
  kept : ∀ s, run.success? file = some s →
    ((run.perform disk).2 file).rows = Success.rows (found ++ [s])
  /-- A look at the file prints the last successes, the newest first.  That the limit is cut down makes
  no difference unless there are more of them than a file can have rows. -/
  shown : ∀ invocation limit, run.invocation = .ok invocation → invocation.database = file →
    run.obstacle = none → invocation.action = .history limit true → 0 < limit →
      (run.perform disk).1.output =
        (Record.listToJson ((Success.records found).reverse.take
          (min limit mostRows))).indented ++ "\n" ∧
        (found.length ≤ mostRows →
          (Success.records found).reverse.take (min limit mostRows) =
            (Success.records found).reverse.take limit)

/-- **Every run keeps to the successes of the runs before it.** -/
theorem runs_keep_successes (hfile : file ≠ inMemory) (hempty : disk file = .empty)
    (hclock : IsClock (runs.map Run.now)) (hcommands : ∀ run ∈ runs, run.IsCommand) :
    (disk.after runs file).rows = Success.rows (successes file runs) ∧
      ∀ before run after, runs = before ++ run :: after →
        run.KeepsTo file (successes file before) (disk.after before) := by
  refine ⟨?_, ?_⟩
  · rw [file_after hfile hempty hclock hcommands, Success.rows_archive]
  rintro before run after rfl
  have hrun : run ∈ before ++ run :: after := List.mem_append_right before List.mem_cons_self
  have hbefore : ∀ other ∈ before, other ∈ before ++ run :: after :=
    fun other hother => List.mem_append_left _ hother
  have hclockBefore : IsClock (before.map Run.now) := hclock.of_append
  have hholds : disk.after before file = Success.archive (successes file before) :=
    file_after hfile hempty hclockBefore fun other hother => hcommands other (hbefore other hother)
  have hcommand := hcommands run hrun
  have hkept : ∀ s ∈ successes file before, cutoff run.now < s.time := hclock.kept hrun hbefore
  constructor
  case rows => rw [hholds, Success.rows_archive]
  case code => exact fun invocation command hread hasked => Run.code_perform_iff hread hasked _
  case refused =>
    intro stop hstop
    rw [Run.perform_of_stop hstop]
  case failed => exact Run.snd_perform_of_code hcommand
  case aside => exact fun invocation hread haside => Run.snd_perform_aside hcommand hread haside _
  case counted => exact fun request hasked => Run.code_eq_zero_iff_success hasked _
  case kept =>
    intro s hs
    rw [Run.file_perform hfile hcommand hholds hkept, hs, Success.rows_archive]
    rfl
  case shown =>
    intro invocation limit hread hnamed hopen haction hpos
    refine ⟨Run.output_perform hfile hread hnamed hopen haction ?_ ?_, fun hlength => ?_⟩
    · rw [hholds, Limit.orDefault, if_neg (Nat.ne_of_gt hpos)]
      exact Success.recent_archive hkept hclockBefore.ascending_successes limit
    · intro r hr
      exact isPrintable_of_mem_successes r (List.mem_reverse.mp (List.mem_of_mem_take hr))
    · refine History.take_min_mostRows ?_ limit
      rwa [List.length_reverse, Success.records, List.length_mapIdx]

/-- A calculation, one that is refused, one in memory and a look at the history. -/
theorem runs_keep_successes_four :
    let environment : Environment := ⟨some "h.db", none, none⟩
    let runs : List Run :=
      [⟨environment, ["eval", "1+1"], "", 0, none⟩, ⟨environment, ["eval"], "", 1, none⟩,
        ⟨environment, ["--database", ":memory:", "eval", "2+2"], "", 2, none⟩,
        ⟨environment, historyArguments 1, "", 3, none⟩]
    let disk : Disk := fun _ => .empty
    "h.db" ≠ inMemory ∧ disk "h.db" = .empty ∧ IsClock (runs.map Run.now) ∧
      (∀ run ∈ runs, run.IsCommand) ∧
      (disk.after runs "h.db").rows = Success.rows (successes "h.db" runs) ∧
        ∀ before run after, runs = before ++ run :: after →
          run.KeepsTo "h.db" (successes "h.db" before) (disk.after before) := by
  intro environment runs disk
  have hfile : "h.db" ≠ inMemory := by decide
  have hclock : IsClock (runs.map Run.now) := by
    refine ⟨?_, ?_, ?_⟩ <;> decide
  have hcommands : ∀ run ∈ runs, run.IsCommand := by
    refine List.forall_mem_cons.mpr ⟨Run.isCommand_of_invocation rfl rfl, ?_⟩
    refine List.forall_mem_cons.mpr ⟨Run.isCommand_of_stop rfl, ?_⟩
    refine List.forall_mem_cons.mpr ⟨Run.isCommand_of_invocation rfl rfl, ?_⟩
    exact List.forall_mem_singleton.mpr (Run.isCommand_of_invocation rfl rfl)
  exact ⟨hfile, rfl, hclock, hcommands, runs_keep_successes hfile rfl hclock hcommands⟩

end Abacus.CommandLine
