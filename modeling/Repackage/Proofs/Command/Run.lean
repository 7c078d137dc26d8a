import Repackage.Command.Run
import Repackage.Proofs.Files.Tree
import Repackage.Proofs.Renaming.Relocation

/-!
# What a run stores

A run goes from world to world, one step for each resource. A step alters the files at one place at
most, that of what it stores (`process_processed`), so a run keeps what it has stored until it
stores something else at the same place (`Logged.alters`). Nothing keeps it from doing so: two
resources can go to one place, and then the later one is found there.
-/

namespace Repackage

namespace Run

variable {α β : Type} {w w' : World}

/-! ## Outcomes -/

/-- What an action gives in a world, and the world that it leaves. -/
def outcome (m : ExceptT RunError (StateM World) α) (w : World) : Except RunError α × World :=
  m.run.run w

section Bind

variable {m : ExceptT RunError (StateM World) α} {f : α → ExceptT RunError (StateM World) β}

theorem outcome_bind : outcome (m >>= f) w =
    (ExceptT.bindCont f (outcome m w).1).run (outcome m w).2 := rfl

theorem outcome_bind_of_ok {a : α} (h : outcome m w = (.ok a, w')) :
    outcome (m >>= f) w = outcome (f a) w' := by
  rw [outcome_bind, h]
  rfl

theorem outcome_bind_of_error {e : RunError} (h : outcome m w = (.error e, w')) :
    outcome (m >>= f) w = (.error e, w') := by
  rw [outcome_bind, h]
  rfl

end Bind

/-- What is evaluated of an outcome shows what the action gives. -/
theorem exists_of_outcome {x : Except RunError α × World} {f : World → β} {a : α} {b : β}
    (h : (x.1.toOption, f x.2) = (some a, b)) : ∃ w', x = (.ok a, w') ∧ f w' = b := by
  obtain ⟨ha, hb⟩ := Prod.mk.inj h
  rcases x with ⟨result, w'⟩
  cases result with
  | error e => cases ha
  | ok a' =>
    cases ha
    exact ⟨w', rfl, hb⟩

section Host

variable {action : StateM World (Except FileError α)} {p : Path} {bytes : Bytes} {e : FileError}

theorem outcome_logAll (events : List Event) (w : World) :
    outcome (onHost (logAll events)) w = (.ok (), w) := by
  induction events with
  | nil => rfl
  | cons e events ih => exact ih

theorem outcome_onFiles_of_ok {a : α} (h : action.run w = (.ok a, w')) :
    outcome (onFiles action) w = (.ok a, w') := by
  have hhost : outcome (onHost action) w = (.ok (action.run w).1, (action.run w).2) := rfl
  rw [h] at hhost
  rw [onFiles, outcome_bind_of_ok hhost]
  rfl

theorem outcome_onFiles_of_error (h : action.run w = (.error e, w')) :
    outcome (onFiles action) w = (.error (.file e), w') := by
  have hhost : outcome (onHost action) w = (.ok (action.run w).1, (action.run w).2) := rfl
  rw [h] at hhost
  rw [onFiles, outcome_bind_of_ok hhost]
  rfl

theorem run_readFile (p : Path) (w : World) :
    (Host.readFile p : StateM World _).run w = (w.files.readFile p, w) := rfl

theorem run_createDirectories {files : FileTree} {made : Except FileError Unit}
    (h : w.files.createDirectories p = (files, made)) :
    (Host.createDirectories p : StateM World _).run w = (made, { w with files }) := by
  have hrun : (Host.createDirectories p : StateM World _).run w =
      ((w.files.createDirectories p).2,
        { w with files := (w.files.createDirectories p).1 }) := rfl
  rw [hrun, h]

theorem run_writeFile_of_ok {files : FileTree} (h : w.files.writeFile p bytes = .ok files) :
    (Host.writeFile p bytes : StateM World _).run w = (.ok (), { w with files }) := by
  simp only [Host.writeFile, StateT.run, modifyGet, MonadStateOf.modifyGet, StateT.modifyGet, h]
  rfl

theorem run_writeFile_of_error (h : w.files.writeFile p bytes = .error e) :
    (Host.writeFile p bytes : StateM World _).run w = (.error e, w) := by
  simp only [Host.writeFile, StateT.run, modifyGet, MonadStateOf.modifyGet, StateT.modifyGet, h]
  rfl

end Host

/-! ## One resource -/

/-- A file is stored, or not, and the directories above it are there or some of them. -/
inductive Written (p : Path) (bytes : Bytes) (w : World) : Except RunError Unit × World → Prop where
  | failed {e : RunError} {files : FileTree} : w.files.Alters [] files →
      Written p bytes w (.error e, { w with files })
  | stored {files : FileTree} : w.files.Alters [p.destination w.files.working] files →
      files.readFile p = .ok bytes → Written p bytes w (.ok (), { w with files })

theorem writeOutput_written (p : Path) (bytes : Bytes) (w : World) :
    Written p bytes w (outcome (writeOutput p bytes) w) := by
  rw [writeOutput]
  rcases hmade : w.files.createDirectories p.parent with ⟨files, made⟩
  have habove := w.files.createDirectories_alters p.parent
  rw [hmade] at habove
  cases made with
  | error e =>
    rw [outcome_bind_of_error (outcome_onFiles_of_error (run_createDirectories hmade))]
    exact .failed habove
  | ok _ =>
    rw [outcome_bind_of_ok (outcome_onFiles_of_ok (run_createDirectories hmade))]
    cases hwritten : files.writeFile p bytes with
    | error e =>
      rw [outcome_onFiles_of_error (run_writeFile_of_error (w := { w with files }) hwritten)]
      exact .failed habove
    | ok files' =>
      rw [outcome_onFiles_of_ok (run_writeFile_of_ok (w := { w with files }) hwritten)]
      obtain ⟨halters, hread⟩ := FileTree.writeFile_eq_ok hwritten
      rw [habove.working] at halters
      exact .stored (habove.trans halters) hread

/-- What is stored of a resource with these bytes, by what is reported of it. -/
inductive Treats (rules : Table) (name : String) (input : Bytes) :
    Outcome → Option (String × Bytes) → Prop where
  | changed {t : Transformed} : Renamer.accepts name = true →
      (rules.transform name input).1 = .ok (some t) →
      Treats rules name input (.changed t.changes.summary) (some (t.name, t.bytes))
  | unchanged : (Renamer.accepts name = true → (rules.transform name input).1 = .ok none) →
      Treats rules name input .unchanged (some (name, input))
  | failed (message : String) : Treats rules name input (.failed message) none

/-- What is done with a resource: nothing is stored, or what becomes of its bytes. -/
inductive Processed (rules : Table) (output : Path) (r : Resource) (w : World) :
    Except RunError Outcome × World → Prop where
  | failed {e : RunError} {files : FileTree} : w.files.Alters [] files →
      Processed rules output r w (.error e, { w with files })
  | stored {o : Outcome} {input bytes : Bytes} {name : String} {files : FileTree} :
      w.files.readFile r.path = .ok input → Treats rules r.name input o (some (name, bytes)) →
      w.files.Alters [(output.join (Path.parse name)).destination w.files.working] files →
      files.readFile (output.join (Path.parse name)) = .ok bytes →
      Processed rules output r w (.ok o, { w with files })

section Process

variable {rules : Table} {output : Path} {r : Resource} {input bytes : Bytes} {name : String}

/-- What is stored is reported as it is treated. -/
theorem writeOutput_processed {o : Outcome} (hread : w.files.readFile r.path = .ok input)
    (ht : Treats rules r.name input o (some (name, bytes))) :
    Processed rules output r w
      (outcome (do writeOutput (output.join (Path.parse name)) bytes; return o) w) := by
  cases hw : outcome (writeOutput (output.join (Path.parse name)) bytes) w
  have hwritten := writeOutput_written (output.join (Path.parse name)) bytes w
  rw [hw] at hwritten
  cases hwritten with
  | failed halters =>
    rw [outcome_bind_of_error hw]
    exact .failed halters
  | stored halters hfile =>
    rw [outcome_bind_of_ok hw]
    exact .stored hread ht halters hfile

theorem process_processed (rules : Table) (output : Path) (r : Resource) (w : World) :
    Processed rules output r w (outcome (process rules output r) w) := by
  rw [process]
  cases hread : w.files.readFile r.path with
  | error e =>
    rw [outcome_bind_of_error (outcome_onFiles_of_error (e := e) (by rw [run_readFile, hread]))]
    exact .failed (.refl _)
  | ok input =>
    rw [outcome_bind_of_ok (outcome_onFiles_of_ok (a := input) (by rw [run_readFile, hread]))]
    split
    · rename_i haccepts
      rcases htransform : rules.transform r.name input with ⟨result, events⟩
      simp only [outcome_bind_of_ok (outcome_logAll events w)]
      cases result with
      | error e => exact .failed (.refl _)
      | ok result =>
        cases result with
        | none => exact writeOutput_processed hread (.unchanged fun _ => by rw [htransform])
        | some t => exact writeOutput_processed hread (.changed haccepts (by rw [htransform]))
    · rename_i haccepts
      exact writeOutput_processed hread (.unchanged fun h => absurd h haccepts)

end Process

/-! ## All resources -/

/-- What a run did with a resource: what it reported and what it stored, by its name below the
output directory. -/
structure Entry where
  resource : Resource
  outcome : Outcome
  stored : Option (String × Bytes)

namespace Entry

/-- The line of the report. -/
def line (color : Bool) (e : Entry) : String := e.outcome.line color e.resource.name

/-- Where something was stored. -/
def place? (output : Path) (working : Place) (e : Entry) : Option Place :=
  e.stored.map fun file => (output.join (Path.parse file.1)).destination working

end Entry

/-- One step of a run. -/
structure Step (rules : Table) (output : Path) (t : FileTree) (e : Entry) (t' : FileTree) :
    Prop where
  alters : t.Alters (e.place? output t.working).toList t'
  treats : ∃ input, Treats rules e.resource.name input e.outcome e.stored ∧
    (e.outcome.isFailure = false → t.readFile e.resource.path = .ok input)
  reads : ∀ name bytes, e.stored = some (name, bytes) →
    t'.readFile (output.join (Path.parse name)) = .ok bytes

/-- The steps of a run. -/
inductive Logged (rules : Table) (output : Path) : FileTree → List Entry → FileTree → Prop where
  | nil (t : FileTree) : Logged rules output t [] t
  | cons {t t₁ t' : FileTree} {e : Entry} {log : List Entry} : Step rules output t e t₁ →
      Logged rules output t₁ log t' → Logged rules output t (e :: log) t'

/-- What is reported of a resource when the run goes on. -/
def reported : Except RunError Outcome → Outcome
  | .ok o => o
  | .error e => .failed e.message

section Log

variable {rules : Table} {output : Path} {color : Bool} {r : Resource} {rs : List Resource}
  {result : Except RunError Outcome × World} {changed failed count : Nat} {t t' : FileTree}
  {e : Entry} {log before after : List Entry}

theorem Processed.step (h : Processed rules output r w result) :
    result.2.printed = w.printed ∧
      ∃ stored, Step rules output w.files ⟨r, reported result.1, stored⟩ result.2.files := by
  cases h with
  | failed halters =>
    exact ⟨rfl, none, halters, ⟨[], .failed _, nofun⟩, nofun⟩
  | @stored o input bytes name files hread ht halters hfile =>
    refine ⟨rfl, some (name, bytes), halters, ⟨input, ht, fun _ => hread⟩, ?_⟩
    rintro name' bytes' ⟨rfl⟩
    exact hfile

/-- A run that is not stopped reports a resource and goes on with the rest. -/
theorem processAll_cons
    (h : outcome (processAll rules output color (r :: rs) changed failed) w = (.ok count, w')) :
    ∃ result w₁, outcome (process rules output r) w = (result, w₁) ∧ ∃ changed',
      outcome (processAll rules output color rs changed'
        (if (reported result).isFailure then failed + 1 else failed))
        { w₁ with printed := w₁.printed ++ (reported result).line color r.name } =
          (.ok count, w') := by
  rcases hprocess : outcome (process rules output r) w with ⟨result, w₁⟩
  have hhost : outcome (onHost (process rules output r).run) w =
      (.ok (outcome (process rules output r) w).1, (outcome (process rules output r) w).2) := rfl
  rw [hprocess] at hhost
  rw [processAll, outcome_bind_of_ok hhost] at h
  refine ⟨result, w₁, rfl, ?_⟩
  cases result with
  | ok o => exact ⟨_, h⟩
  | error e =>
    by_cases hfatal : e.isFatal = true
    · simp only [if_pos hfatal] at h
      cases h
    · simp only [if_neg hfatal] at h
      exact ⟨_, h⟩

theorem processAll_logged
    (h : outcome (processAll rules output color rs changed failed) w = (.ok count, w')) :
    ∃ log, log.map Entry.resource = rs ∧
      w'.printed = w.printed ++ String.join (log.map (Entry.line color)) ∧
      count = failed + log.countP (·.outcome.isFailure) ∧
      Logged rules output w.files log w'.files := by
  induction rs generalizing w changed failed with
  | nil =>
    cases h
    exact ⟨[], rfl, String.append_empty.symm, rfl, .nil _⟩
  | cons r rs ih =>
    obtain ⟨result, w₁, hprocess, changed', h⟩ := processAll_cons h
    have hprocessed := process_processed rules output r w
    rw [hprocess] at hprocessed
    obtain ⟨hprinted, stored, hstep⟩ := hprocessed.step
    obtain ⟨log, hresources, hreport, hcount, hlog⟩ := ih h
    refine ⟨⟨r, reported result, stored⟩ :: log, by rw [List.map_cons, hresources], ?_, ?_,
      .cons hstep hlog⟩
    · rw [hreport, List.map_cons, String.join_cons, Entry.line, ← String.append_assoc, hprinted]
    · rw [hcount, List.countP_cons]
      split
      · omega
      · omega

/-- A run alters the places at which it stores something. -/
theorem Logged.alters (h : Logged rules output t log t') :
    t.Alters (log.filterMap (Entry.place? output t.working)) t' := by
  induction h with
  | nil t => exact .refl t
  | @cons t t₁ t' e log hstep _ ih =>
    have halters := hstep.alters.trans ih
    rw [hstep.alters.working] at halters
    rw [List.filterMap_cons]
    cases hplace : e.place? output t.working with
    | none => rwa [hplace] at halters
    | some place => rwa [hplace] at halters

theorem Logged.split (h : Logged rules output t (before ++ e :: after) t') :
    ∃ t₁ t₂, Logged rules output t before t₁ ∧ Step rules output t₁ e t₂ ∧
      Logged rules output t₂ after t' := by
  induction before generalizing t with
  | nil =>
    cases h with
    | cons hstep hlog => exact ⟨t, _, .nil t, hstep, hlog⟩
  | cons d before ih =>
    cases h with
    | cons hstep hlog =>
      obtain ⟨t₁, t₂, hbefore, he, hafter⟩ := ih hlog
      exact ⟨t₁, t₂, .cons hstep hbefore, he, hafter⟩

/-- A run that is not stopped reports every resource, in order, and counts those that failed. What
it stored for any other is there at the end, unless a later one was stored at the same place. It was
made from the bytes that the resource had at the start, unless an earlier one was stored over
them. -/
theorem processAll_stores
    (h : outcome (processAll rules output color rs 0 0) w = (.ok count, w')) :
    ∃ log : List Entry, log.map Entry.resource = rs ∧
      w'.printed = w.printed ++ String.join (log.map (Entry.line color)) ∧
      count = log.countP (·.outcome.isFailure) ∧
      ∀ before e after, log = before ++ e :: after →
        ∃ input, Treats rules e.resource.name input e.outcome e.stored ∧
          (e.outcome.isFailure = false →
            e.resource.path.destination w.files.working ∉
              before.filterMap (Entry.place? output w.files.working) →
            w.files.node? (e.resource.path.destination w.files.working) = some (.file input)) ∧
          ∀ name bytes, e.stored = some (name, bytes) →
            (output.join (Path.parse name)).destination w.files.working ∉
              after.filterMap (Entry.place? output w.files.working) →
            w'.files.readFile (output.join (Path.parse name)) = .ok bytes := by
  obtain ⟨log, hresources, hreport, hcount, hlog⟩ := processAll_logged h
  refine ⟨log, hresources, hreport, hcount.trans (Nat.zero_add _), ?_⟩
  rintro before e after rfl
  obtain ⟨t₁, t₂, hbefore, hstep, hafter⟩ := hlog.split
  obtain ⟨input, htreats, hinput⟩ := hstep.treats
  have hworking₁ := hbefore.alters.working
  have hworking₂ := hstep.alters.working.trans hworking₁
  refine ⟨input, htreats, fun hgood hfree => ?_, fun name bytes hstored hfree => ?_⟩
  · obtain ⟨q, hq, hnode, -⟩ := FileTree.readFile_eq_ok.1 (hinput hgood)
    rw [← FileTree.destination_of_locate hq, hworking₁] at hnode
    exact (hbefore.alters.files _ _ hfree).1 hnode
  · have hafter := hafter.alters
    rw [hworking₂] at hafter
    refine hafter.readFile (hstep.reads name bytes hstored) ?_
    rwa [hworking₂]

end Log

/-! ## Two resources at one place -/

/-- The rule `p.a` to `q.b`. -/
def merging : Table := .ofSorted [⟨"p.a", "q.b", false⟩]

/-- The interface `q.b.X`. -/
def presentClass : Bytes :=
  [0xCA, 0xFE, 0xBA, 0xBE, 0, 0, 0, 55, 0, 3,
   1, 0, 5, 0x71, 0x2F, 0x62, 0x2F, 0x58,
   7, 0, 1,
   2, 1, 0, 2, 0, 0, 0, 0, 0, 0, 0, 0, 0, 0]

/-- The classes `p.a.X` and `q.b.X`, at their paths below a directory. -/
def crowded : World where
  files := (FileTree.addFile {} ["in", "p", "a", "X.class"] Table.plainClass).addFile
    ["in", "q", "b", "X.class"] presentClass

def crowdedResources : List Resource :=
  [⟨Path.parse "in/p/a/X.class", "p/a/X.class"⟩, ⟨Path.parse "in/q/b/X.class", "q/b/X.class"⟩]

def crowdedReport : String :=
  " - p/a/X.class [CHANGED] moved to q/b/X.class "
    ++ "(interfaces: 0, fields: 0, methods: 0, attributes: 0, constants: 0)\n"
    ++ " - q/b/X.class [UNCHANGED]\n"

/-- Both resources go to `q/b/X.class`, and the second is found there. -/
theorem crowded_run :
    ∃ w', outcome (processAll merging (Path.parse "out") false crowdedResources 0 0) crowded =
        (.ok 0, w') ∧
      (w'.printed, (w'.files.readFile (Path.parse "out/q/b/X.class")).toOption) =
        (crowdedReport, some presentClass) :=
  exists_of_outcome (by decide +kernel)

theorem processAll_stores_crowded :
    ∃ w' e₁ e₂, outcome (processAll merging (Path.parse "out") false crowdedResources 0 0) crowded =
        (.ok 0, w') ∧ [e₁, e₂].map Entry.resource = crowdedResources ∧
      w'.printed = String.join ([e₁, e₂].map (Entry.line false)) ∧
      ∀ name bytes, e₂.stored = some (name, bytes) →
        w'.files.readFile ((Path.parse "out").join (Path.parse name)) = .ok bytes := by
  obtain ⟨w', hrun, -⟩ := crowded_run
  obtain ⟨log, hresources, hreport, -, hentries⟩ := processAll_stores hrun
  obtain ⟨e₁, log, rfl, -, hrest⟩ := List.map_eq_cons_iff.1 hresources
  obtain ⟨e₂, log, rfl, -, hrest⟩ := List.map_eq_cons_iff.1 hrest
  cases List.map_eq_nil_iff.1 hrest
  obtain ⟨input, -, -, hstored⟩ := hentries [e₁] e₂ [] rfl
  exact ⟨w', e₁, e₂, hrun, hresources, hreport.trans String.empty_append,
    fun name bytes h => hstored name bytes h nofun⟩

/-- A resource that is copied takes the place of one that was moved there. -/
theorem processAll_overwrites :
    (crowdedResources.map Resource.name).Nodup ∧ crowded.files.node? ["out"] = none ∧
      (crowded.files.readFile (Path.parse "in/p/a/X.class")).toOption = some Table.plainClass ∧
      ∃ w' t, outcome (processAll merging (Path.parse "out") false crowdedResources 0 0) crowded =
          (.ok 0, w') ∧
        w'.printed = crowdedReport ∧
        (merging.transform "p/a/X.class" Table.plainClass).1 = .ok (some t) ∧
        t.name = "q/b/X.class" ∧
        w'.files.readFile (Path.parse "out/q/b/X.class") ≠ .ok t.bytes := by
  have hmoved : (merging.transform "p/a/X.class" Table.plainClass).1.toOption.join.map
      (fun t => (t.name, decide (t.bytes = presentClass))) = some ("q/b/X.class", false) := by
    decide +kernel
  obtain ⟨w', hrun, hleft⟩ := crowded_run
  obtain ⟨hprinted, hfile⟩ := Prod.mk.inj hleft
  obtain ⟨t, ht, hout⟩ := Table.exists_transformed hmoved
  obtain ⟨hname, hbytes⟩ := Prod.mk.inj hout
  refine ⟨by decide +kernel, rfl, by decide +kernel, w', t, hrun, hprinted, ht, hname, fun h => ?_⟩
  rw [h] at hfile
  exact of_decide_eq_false hbytes (Option.some.inj hfile)

end Run

end Repackage
