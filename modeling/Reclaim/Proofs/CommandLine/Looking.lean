import Reclaim.Proofs.CommandLine.Login
import Reclaim.Proofs.Disk.Folders

/-!
# Commands that only look

Some commands look at the disk and print what they find.  Others ask before they change anything,
and only look if the answer is not yes.  Such a run starts no program and leaves the files as they
were, except for messages: when the settings ask for them in a file, the directory for messages is
made first and the file of the day is written to, wherever its path leads.  Settings that cannot be
read ask for nothing, so a command that needs them has changed nothing when it is given up.

Work is followed through its steps by what it may do to the machine: work that only prints keeps the
machine and the input, and work that asks first keeps the machine if the next line does not agree.

## Main definitions

* `CommandLine.SaysYes` : the first line of an input agrees.
* `CommandLine.Task.Looks`, `CommandLine.Task.needsConfig` : commands that only look, and commands
  that need the settings.
* `CommandLine.Action.OnlyPrints`, `CommandLine.Action.KeepsOn` : work that keeps the machine.
* `CommandLine.Job.readied` : how getting ready ends, with the files then.
* `CommandLine.Job.MayLeave` : what getting ready may leave of the files.

## Main results

* `CommandLine.Action.keepsOn_confirm_bind` : asking first.
* `CommandLine.Job.keepsOn_perform` : commands that only look keep the machine.
* `CommandLine.Job.mayLeave_readied` : getting ready.
* `CommandLine.run_looking` : a whole run of such a command, and a run without settings.
-/

namespace Reclaim

/-- Only the letter itself, small or capital, is y up to the case. -/
theorem Text.sameAscii_y_iff {answer : String} :
    sameAscii answer "y" = true ↔ answer = "y" ∨ answer = "Y" := by
  have hletter (c : Char) : c.toLower = 'y' ↔ c = 'y' ∨ c = 'Y' := by
    constructor
    · intro hsmall
      by_cases hupper : c.isUpper = true
      · right
        calc
          c = c.toUpper :=
            (Char.toUpper_eq_of_not_isLower (Char.not_isLower_of_isUpper hupper)).symm
          _ = c.toLower.toUpper := (Char.toUpper_toLower_eq_toUpper c).symm
          _ = 'Y' := by rw [hsmall]; rfl
      · exact .inl (Char.toLower_eq_of_not_isUpper hupper ▸ hsmall)
    · rintro (rfl | rfl)
      · rfl
      · rfl
  rw [sameAscii, beq_iff_eq]
  constructor
  · intro h
    obtain ⟨c, hc, hy⟩ := List.map_eq_singleton_iff.mp h
    rcases (hletter c).mp hy with rfl | rfl
    · exact .inl (String.toList_inj.mp hc)
    · exact .inr (String.toList_inj.mp hc)
  · rintro (rfl | rfl)
    · rfl
    · rfl

namespace CommandLine

/-! ### Commands -/

/-- The first line of an input with its end, or all of an input that does not end a line. -/
def firstLine (input : List UInt8) : List UInt8 :=
  input.take ((input.takeWhile (· != 10)).length + 1)

/-- The first line of an input is y or Y, blanks around it aside. -/
def SaysYes (input : List UInt8) : Prop :=
  ∃ answer ∈ Text.decode? ⟨(firstLine input).toArray⟩,
    Text.trim answer = "y" ∨ Text.trim answer = "Y"

instance (input : List UInt8) : Decidable (SaysYes input) :=
  inferInstanceAs (Decidable (∃ answer ∈ Text.decode? _, _))

/-- The command only looks: it shows something, is asked for a trial, or asks before it changes
anything and is not told yes. -/
def Task.Looks (task : Task) (input : List UInt8) : Prop :=
  match task with
  | .scan | .appsList _ | .appsInfo _ | .authStatus | .configShow | .configPath => True
  | .clean yes => yes = false ∧ ¬SaysYes input
  | .appsRemove _ dryRun yes => dryRun = true ∨ yes = false ∧ ¬SaysYes input
  | _ => False

/-- The command cannot do without the settings. -/
def Task.needsConfig : Task → Bool
  | .configInit | .configReset | .configPath | .completions _ => false
  | _ => true

/-! ### Work that keeps the machine -/

namespace Action

variable {α β : Type} {x : Action α} {f : α → Action β} {c : Console}
  {inputs inputs' : List UInt8 → Prop}

/-- The work keeps the machine and the input. -/
def OnlyPrints (x : Action α) : Prop :=
  ∀ c, (x.run c).2.machine = c.machine ∧ (x.run c).2.input = c.input

/-- The work keeps the machine if the input is one of certain inputs. -/
def KeepsOn (x : Action α) (inputs : List UInt8 → Prop) : Prop :=
  ∀ c, inputs c.input → (x.run c).2.machine = c.machine

theorem OnlyPrints.keepsOn (h : x.OnlyPrints) (inputs : List UInt8 → Prop) : x.KeepsOn inputs :=
  fun c _ => (h c).1

theorem KeepsOn.mono (h : x.KeepsOn inputs) (himp : ∀ input, inputs' input → inputs input) :
    x.KeepsOn inputs' :=
  fun c hc => h c (himp _ hc)

/-- Either work is given up, or the work behind it goes on. -/
theorem run_bind_cases (x : Action α) (f : α → Action β) (c : Console) :
    (∃ e, ((x >>= f).run c) = (.error e, (x.run c).2)) ∨
      ∃ a, (x >>= f).run c = (f a).run (x.run c).2 := by
  rw [ExceptT.run_bind]
  simp only [bind, StateT.bind]
  rcases hx : x.run c with ⟨result, c'⟩
  cases result with
  | error e => exact .inl ⟨e, rfl⟩
  | ok a => exact .inr ⟨a, rfl⟩

theorem OnlyPrints.bind (hx : x.OnlyPrints) (hf : ∀ a, (f a).OnlyPrints) :
    (x >>= f).OnlyPrints := by
  intro c
  rcases run_bind_cases x f c with ⟨e, h⟩ | ⟨a, h⟩
  · rw [h]
    exact hx c
  · rw [h, (hf a _).1, (hf a _).2]
    exact hx c

theorem OnlyPrints.bind_keepsOn (hx : x.OnlyPrints) (hf : ∀ a, (f a).KeepsOn inputs) :
    (x >>= f).KeepsOn inputs := by
  intro c hc
  rcases run_bind_cases x f c with ⟨e, h⟩ | ⟨a, h⟩
  · rw [h]
    exact (hx c).1
  · rw [h, hf a _ (by rwa [(hx c).2])]
    exact (hx c).1

theorem OnlyPrints.discard (h : x.OnlyPrints) : (discard x : Action PUnit).OnlyPrints := by
  rw [Functor.discard, map_const, Function.comp_apply, ← bind_pure_comp]
  exact h.bind fun _ => fun _ => ⟨rfl, rfl⟩

theorem onlyPrints_pure (a : α) : (pure a : Action α).OnlyPrints :=
  fun _ => ⟨rfl, rfl⟩

theorem onlyPrints_throw (e : Failure) : (throw e : Action α).OnlyPrints :=
  fun _ => ⟨rfl, rfl⟩

theorem onlyPrints_print (text : String) : (print text).OnlyPrints :=
  fun _ => ⟨rfl, rfl⟩

theorem onlyPrints_line (text : String) : (line text).OnlyPrints :=
  onlyPrints_print _

theorem onlyPrints_disk : disk.OnlyPrints :=
  fun _ => ⟨rfl, rfl⟩

theorem onlyPrints_orFail {ε : Type} (failure : ε → Failure) (result : Except ε α) :
    (orFail failure result).OnlyPrints := by
  cases result with
  | ok a => exact onlyPrints_pure a
  | error e => exact onlyPrints_throw (failure e)

theorem onlyPrints_config (s : Surroundings) : (config s).OnlyPrints :=
  onlyPrints_disk.bind fun _ => onlyPrints_orFail _ _

/-- What is read is the first line of the input, if it is text. -/
theorem exists_run_readLine (c : Console) : ∃ c', c'.machine = c.machine ∧
    readLine.run c = (.ok (Text.decode? ⟨(firstLine c.input).toArray⟩), c') := by
  rw [firstLine, List.take_eq_take_min]
  exact ⟨{ c with
    input := c.input.drop (min ((c.input.takeWhile (· != 10)).length + 1) c.input.length) },
    rfl, rfl⟩

/-- A question that is not answered with yes is answered with no, or given up. -/
theorem run_confirm (question : String) (h : ¬SaysYes c.input) :
    ∃ c', c'.machine = c.machine ∧ ((confirm question).run c = (.ok false, c') ∨
      (confirm question).run c = (.error .unreadableAnswer, c')) := by
  let asked : Console := { c with output := c.output ++ ("  ❓ " ++ question ++ " [y/N] ") }
  have hprint : (print ("  ❓ " ++ question ++ " [y/N] ")).run c = (.ok (), asked) := rfl
  obtain ⟨c', hmachine, hread⟩ := exists_run_readLine asked
  refine ⟨c', hmachine, ?_⟩
  rw [confirm, run_bind_of_ok _ hprint, run_bind_of_ok _ hread]
  cases hdecode : Text.decode? ⟨(firstLine asked.input).toArray⟩ with
  | none => exact .inr rfl
  | some answer =>
    have hanswer : Text.sameAscii (Text.trim answer) "y" = false := by
      rw [← Bool.not_eq_true, Text.sameAscii_y_iff]
      exact fun hyes => h ⟨answer, hdecode, hyes⟩
    simp only [hanswer]
    exact .inl rfl

/-- Work that asks first keeps the machine if the work behind a no does. -/
theorem keepsOn_confirm_bind (question : String) {f : Bool → Action β}
    (hf : (f false).OnlyPrints) : (confirm question >>= f).KeepsOn fun input => ¬SaysYes input := by
  intro c hno
  obtain ⟨c', hmachine, hanswer | hanswer⟩ := run_confirm question hno
  · rw [run_bind_of_ok _ hanswer, (hf c').1, hmachine]
  · rw [run_bind_of_error _ hanswer, hmachine]

/-- Nothing is done without settings. -/
theorem run_config_bind_of_error {s : Surroundings} {error : ConfigError}
    (h : Config.load s.home c.machine.disk = .error error) (f : Config → Action β) :
    (config s >>= f).run c = (.error (.config error), c) := by
  have hconfig : (config s).run c = (.error (.config error), c) := by
    have hload : (config s).run c =
        (orFail Failure.config (Config.load s.home c.machine.disk)).run c := rfl
    rw [hload, h]
    rfl
  exact run_bind_of_error f hconfig

end Action

/-! ### The work on a command -/

namespace Job

open CommandLine.Action

variable (j : Job)

theorem onlyPrints_present (data : Json) (brief human : String) :
    (j.present data brief human).OnlyPrints := by
  rw [present]
  split
  · exact onlyPrints_print _
  · exact onlyPrints_line _
  · exact onlyPrints_print _

theorem onlyPrints_openStore (config : Config) : (j.openStore config).OnlyPrints :=
  onlyPrints_disk.bind fun _ => onlyPrints_pure _

theorem onlyPrints_inventory (config : Config) : (j.inventory config).OnlyPrints := by
  have hscan : (do
      let found := ({ dir := config.applicationsDir } : Inventory).scan (← disk)
      discard (orFail (fun _ => .listing config.applicationsDir) found.1)
      return found.2 : Action Inventory).OnlyPrints :=
    onlyPrints_disk.bind fun _ => (onlyPrints_orFail _ _).discard.bind fun _ => onlyPrints_pure _
  rw [inventory]
  split
  · exact (onlyPrints_line _).bind fun _ => (onlyPrints_line _).bind fun _ => hscan
  · exact hscan

theorem onlyPrints_scan : j.scan.OnlyPrints := by
  refine (onlyPrints_config _).bind fun config => onlyPrints_disk.bind fun d => ?_
  split
  exact j.onlyPrints_present _ _ _

theorem onlyPrints_appsList (sort : AppSort) : (j.appsList sort).OnlyPrints :=
  (onlyPrints_config _).bind fun config => (j.onlyPrints_inventory config).bind fun _ =>
    j.onlyPrints_present _ _ _

theorem onlyPrints_authStatus : j.authStatus.OnlyPrints :=
  (onlyPrints_config _).bind fun config => (j.onlyPrints_openStore config).bind fun _ =>
    j.onlyPrints_present _ _ _

/-- Work on an application prints, and does what is told for the one that is found. -/
theorem keepsOn_withApp (name : String) {inputs : List UInt8 → Prop}
    {work : AppRecord → RemovalPlan → Removing → Action Unit}
    (hwork : ∀ app plan state, (work app plan state).KeepsOn inputs) :
    (j.withApp name work).KeepsOn inputs := by
  refine (onlyPrints_config _).bind_keepsOn fun config =>
    (j.onlyPrints_inventory config).bind_keepsOn fun inventory => ?_
  split
  · exact (onlyPrints_print _).keepsOn _
  · exact onlyPrints_disk.bind_keepsOn fun d =>
      (onlyPrints_orFail _ _).bind_keepsOn fun plan => hwork _ plan _

theorem onlyPrints_cancelled : j.cancelled.OnlyPrints :=
  onlyPrints_line _

/-- An uninstall is a trial, or asks before it changes anything. -/
theorem keepsOn_appsRemove (name : String) (dryRun yes : Bool) :
    (j.appsRemove name dryRun yes).KeepsOn (Task.appsRemove name dryRun yes).Looks := by
  refine j.keepsOn_withApp name fun app plan state => ?_
  cases dryRun with
  | true => exact (j.onlyPrints_present _ _ _).keepsOn _
  | false =>
    cases yes with
    | true => exact fun c h => by simp [Task.Looks] at h
    | false =>
      suffices hask : KeepsOn _ fun input => ¬SaysYes input from
        hask.mono fun _ h => (h.resolve_left Bool.false_ne_true).2
      rw [if_neg Bool.false_ne_true, agrees, if_neg Bool.false_ne_true, confirmRemoval, bind_assoc]
      exact (onlyPrints_print _).bind_keepsOn fun _ =>
        keepsOn_confirm_bind _ j.onlyPrints_cancelled

/-- A clean asks before it changes anything. -/
theorem keepsOn_clean (yes : Bool) : (j.clean yes).KeepsOn (Task.clean yes).Looks := by
  cases yes with
  | true => exact fun c h => by simp [Task.Looks] at h
  | false =>
    exact ((onlyPrints_config _).bind_keepsOn fun _ =>
      keepsOn_confirm_bind _ j.onlyPrints_cancelled).mono fun _ h => h.2

theorem onlyPrints_configShow : j.configShow.OnlyPrints := by
  refine (onlyPrints_config _).bind fun settings => ?_
  split
  · exact onlyPrints_line _
  · exact onlyPrints_throw _

/-- A command that only looks keeps the machine. -/
theorem keepsOn_perform : j.perform.KeepsOn j.arguments.task.Looks := by
  rw [perform]
  cases j.arguments.task with
  | scan => exact j.onlyPrints_scan.keepsOn _
  | clean yes => exact j.keepsOn_clean yes
  | appsList sort => exact (j.onlyPrints_appsList sort).keepsOn _
  | appsInfo name =>
    exact j.keepsOn_withApp name fun _ _ _ => (j.onlyPrints_present _ _ _).keepsOn _
  | appsRemove name dryRun yes => exact j.keepsOn_appsRemove name dryRun yes
  | authStatus => exact j.onlyPrints_authStatus.keepsOn _
  | configShow => exact j.onlyPrints_configShow.keepsOn _
  | configPath => exact (onlyPrints_line _).keepsOn _
  | optimize => exact fun c h => h.elim
  | authLogin => exact fun c h => h.elim
  | authLogout => exact fun c h => h.elim
  | configReset => exact fun c h => h.elim
  | configInit => exact fun c h => h.elim
  | completions shell => exact fun c h => h.elim

/-- A command that needs the settings is given up without them. -/
theorem run_perform_of_error {c : Console} {error : ConfigError}
    (hneeds : j.arguments.task.needsConfig = true)
    (hload : Config.load j.home c.machine.disk = .error error) :
    j.perform.run c = (.error (.config error), c) := by
  rw [perform]
  revert hneeds
  cases j.arguments.task with
  | scan => exact fun _ => run_config_bind_of_error hload _
  | clean yes => exact fun _ => run_config_bind_of_error hload _
  | appsList sort => exact fun _ => run_config_bind_of_error hload _
  | appsInfo name => exact fun _ => run_config_bind_of_error hload _
  | appsRemove name dryRun yes => exact fun _ => run_config_bind_of_error hload _
  | optimize => exact fun _ => run_config_bind_of_error hload _
  | authLogin => exact fun _ => run_config_bind_of_error hload _
  | authLogout => exact fun _ => run_config_bind_of_error hload _
  | authStatus => exact fun _ => run_config_bind_of_error hload _
  | configShow => exact fun _ => run_config_bind_of_error hload _
  | configReset => exact fun hneeds => Bool.noConfusion hneeds
  | configInit => exact fun hneeds => Bool.noConfusion hneeds
  | configPath => exact fun hneeds => Bool.noConfusion hneeds
  | completions shell => exact fun hneeds => Bool.noConfusion hneeds

/-! ### Getting ready -/

/-- How getting ready ends, with the files that are there then. -/
def readied (d : Disk) : Except Failure Unit × Disk :=
  match Config.load j.home d with
  | .ok config =>
    if config.logToFile then
      match d.makeFolders (Config.logsDir j.home) with
      | .ok made =>
        match made.append j.messagesPath j.messages with
        | .ok opened => (.ok (), opened)
        | .error _ => (.error .unopenedMessages, made)
      | .error _ => (.ok (), d)
    else (.ok (), d)
  | .error _ => (.ok (), d)

theorem run_prepare (c : Console) : j.prepare.run c = ((j.readied c.machine.disk).1,
    { c with machine := { c.machine with disk := (j.readied c.machine.disk).2 } }) := by
  have hdisk : disk.run c = (.ok c.machine.disk, c) := rfl
  rw [prepare, run_bind_of_ok _ hdisk]
  unfold readied
  cases Config.load j.home c.machine.disk with
  | error e => rfl
  | ok config =>
    cases hlog : config.logToFile with
    | false =>
      simp only [hlog, Bool.false_eq_true, if_false]
      rfl
    | true =>
      simp only [hlog, if_true]
      rw [run_bind_of_ok _ hdisk]
      cases c.machine.disk.makeFolders (Config.logsDir j.home) with
      | error e => rfl
      | ok made =>
        cases hopen : made.append j.messagesPath j.messages with
        | error e =>
          simp only [hopen]
          rfl
        | ok opened =>
          simp only [hopen]
          rfl

theorem readied_of_error {d : Disk} {error : ConfigError}
    (h : Config.load j.home d = .error error) : j.readied d = (.ok (), d) := by
  unfold readied
  simp only [h]

/-- The settings ask for messages in a file. -/
def AsksForMessages (d : Disk) : Prop :=
  ∃ settings, Config.load j.home d = .ok settings ∧ settings.logToFile = true

/-- What getting ready may leave of the files: they are as they were; or the folder of the message
files has been made; or, moreover, the messages stand in the file of the day.  Whichever of the
latter it is, the settings ask for it. -/
inductive MayLeave (d : Disk) : Disk → Prop
  | same : MayLeave d d
  | folders {made : Disk} (asks : j.AsksForMessages d)
    (grows : d.GrowsAlong made (Config.logsDir j.home)) : MayLeave d made
  | messages {made opened : Disk} {place : Place} (asks : j.AsksForMessages d)
    (grows : d.GrowsAlong made (Config.logsDir j.home))
    (written : made.GrowsAt opened j.messagesPath j.messages place) : MayLeave d opened

theorem mayLeave_readied {d : Disk} (htop : d.top.isFolder = true) :
    j.MayLeave d (j.readied d).2 := by
  unfold readied
  split
  next settings hload =>
    split
    next hlog =>
      have hasks : j.AsksForMessages d := ⟨settings, hload, hlog⟩
      split
      next made hmake =>
        have hgrows := Disk.growsAlong_makeFolders htop hmake
        split
        next opened hopen =>
          have hmade := Disk.isFolder_makeFolders htop hmake
          obtain ⟨place, hwritten⟩ := Disk.exists_growsAt_append hmade hopen
          exact .messages hasks hgrows hwritten
        next => exact .folders hasks hgrows
      next => exact .same
    next => exact .same
  next => exact .same

end Job

/-! ### A whole run -/

section Run

variable {s : Surroundings} {texts : List String} {input : List UInt8} {m : Machine}
  {arguments : Arguments}

/-- How a run ends after its work. -/
def Console.finish (c : Console) : Except Failure Unit → Finish × Machine
  | .ok () => (⟨0, c.output, none⟩, c.machine)
  | .error e => (⟨e.exitCode, c.output, e.line?⟩, c.machine)

theorem Console.finish_machine (c : Console) (result : Except Failure Unit) :
    (c.finish result).2 = c.machine := by
  cases result with
  | ok => rfl
  | error e => rfl

/-- The console when the work on a command starts. -/
def Job.console (j : Job) (input : List UInt8) (m : Machine) : Console :=
  { machine := { m with disk := (j.readied m.disk).2 }, input }

/-- A run that is understood gets ready and then works on its command. -/
theorem run_of_perform {result : Except Failure Unit} {c : Console}
    (hparse : Arguments.parse texts = .ok arguments)
    (hready : (Job.readied ⟨s, arguments⟩ m.disk).1 = .ok ())
    (hperform : (Job.perform ⟨s, arguments⟩).run (Job.console ⟨s, arguments⟩ input m) =
      (result, c)) :
    run s texts input m = c.finish result := by
  have hprepare := Job.run_prepare ⟨s, arguments⟩ { machine := m, input }
  rw [hready] at hprepare
  have hrun := (Action.run_bind_of_ok (fun _ => Job.perform ⟨s, arguments⟩) hprepare).trans hperform
  simp only [run, hparse, hrun]
  rfl

/-- A run that cannot get ready ends there. -/
theorem run_of_unready {error : Failure} (hparse : Arguments.parse texts = .ok arguments)
    (hready : (Job.readied ⟨s, arguments⟩ m.disk).1 = .error error) :
    run s texts input m = (Job.console ⟨s, arguments⟩ input m).finish (.error error) := by
  have hprepare := Job.run_prepare ⟨s, arguments⟩ { machine := m, input }
  rw [hready] at hprepare
  have hrun := Action.run_bind_of_error (fun _ => Job.perform ⟨s, arguments⟩) hprepare
  simp only [run, hparse, hrun]
  rfl

/-- A command that only looks leaves the machine as it is when the run is ready. -/
theorem run_of_looks (hparse : Arguments.parse texts = .ok arguments)
    (hlooks : arguments.task.Looks input) :
    (run s texts input m).2 = { m with disk := (Job.readied ⟨s, arguments⟩ m.disk).2 } := by
  cases hready : (Job.readied ⟨s, arguments⟩ m.disk).1 with
  | error e =>
    rw [run_of_unready hparse hready, Console.finish_machine]
    rfl
  | ok =>
    rw [run_of_perform hparse hready rfl, Console.finish_machine]
    exact Job.keepsOn_perform ⟨s, arguments⟩ (Job.console ⟨s, arguments⟩ input m) hlooks

/-- The settings cannot be read from the file if no text in it stands for any. -/
theorem exists_load_error {home : Option Path} {d : Disk}
    (hpresent : d.isPresent (Config.configPath home) = true)
    (hbad : ∀ text, d.readText (Config.configPath home) = .ok text → Config.ofText? text = none) :
    ∃ error, Config.load home d = .error error := by
  rw [Config.load, if_pos hpresent]
  split
  next => exact ⟨_, rfl⟩
  next text htext =>
    rw [hbad text htext]
    exact ⟨_, rfl⟩

/-- A machine with nothing but a file of settings. -/
def machineWith (settings : String) : Machine where
  disk := ⟨.folder [("Users", .folder [("me", .folder [(".mole", .folder [
    ("config.toml", .file Disk.fileMode (.bytes settings.toUTF8))])])])]⟩

/-- A machine whose settings ask for messages in a file, where the file of the day is a link out of
the folder for messages. -/
def linkedMessages : Machine where
  disk := ⟨.folder [("Users", .folder [("me", .folder [(".mole", .folder [
    ("config.toml", .file Disk.fileMode (.bytes "log_to_file = true".toUTF8)),
    ("logs", .folder [("mole.log.1970-01-01", .link "/note")])])])])]⟩

end Run

end CommandLine

end Reclaim
