import HangulScript.Command.Directory
import HangulScript.Proofs.Diagnosis.Reports
import HangulScript.Proofs.Evaluation.Verbosity
import HangulScript.Proofs.Tree.Text

/-!
# Tree files stand for their sources

The tree of a program file can be written into a tree file beside it, and the tree file can be run.
This is as good as running the program file (`Command.tree_file_stands_for_source`): the answer is
the same, the debug file is the same, and no other file is touched; only a report on a failed
evaluation ends after its first line, because a tree file has no source line to show.  A source
that holds no tree leaves no tree file, and is reported as when it is run.

The two ways meet in the tree.  What is run after reading the tree file is the tree that was
written into it (`perform_treeFile`), so the two runs are one run with and without a source text,
and that shows in the report alone (`run_none`).
-/

namespace HangulScript
namespace Command

/-! ## Directories -/

namespace Directory

variable {d d' : Directory} {name path text : String}

theorem lookup_write_self (d : Directory) (path text : String) :
    (d.write path text).lookup path = some text := by
  induction d with
  | nil => exact List.lookup_cons_self
  | cons f rest ih =>
    obtain ⟨known, content⟩ := f
    by_cases hf : known = path
    · rw [write, if_pos hf, List.lookup_cons_self]
    · have hne : (path == known) = false := beq_false_of_ne (Ne.symm hf)
      rw [write, if_neg hf, List.lookup_cons, hne, ih]

theorem lookup_write_of_ne (h : name ≠ path) :
    (d.write path text).lookup name = d.lookup name := by
  have hpath : (name == path) = false := beq_false_of_ne h
  induction d with
  | nil => rw [write, List.lookup_cons, hpath]
  | cons f rest ih =>
    obtain ⟨known, content⟩ := f
    by_cases hf : known = path
    · rw [write, if_pos hf, List.lookup_cons, List.lookup_cons, hf, hpath]
    · rw [write, if_neg hf, List.lookup_cons, List.lookup_cons, ih]

theorem find_write_self (d : Directory) (path text : String) :
    (d.write path text).find path = .file text := by
  rw [find, lookup_write_self]

theorem find_write_of_ne (h : name ≠ path) : (d.write path text).find name = d.find name := by
  rw [find, lookup_write_of_ne h, find]

/-- The directory after files are written into it. -/
def writeAll (d : Directory) (files : List (String × String)) : Directory :=
  files.foldl (fun d f => d.write (plainPath f.1) f.2) d

/-- Where two directories are alike they stay so when the same files are written into both, and
where a file is written they become so. -/
theorem find_writeAll {files : List (String × String)}
    (h : d.find name = d'.find name ∨ name ∈ files.map fun f => plainPath f.1) :
    (d.writeAll files).find name = (d'.writeAll files).find name := by
  induction files generalizing d d' with
  | nil => exact h.resolve_right List.not_mem_nil
  | cons f files ih =>
    refine ih ?_
    by_cases hname : name = plainPath f.1
    · left
      rw [hname, find_write_self, find_write_self]
    · rw [find_write_of_ne hname, find_write_of_ne hname]
      exact h.imp_right fun hm => (List.mem_cons.mp hm).resolve_left hname

/-- An effect in a directory, unless a file cannot be written. -/
def landed (d : Directory) (effect : Effect) : Response × Directory :=
  match effect.files.findSome? fun f => obstacle? (plainPath f.1) with
  | some fault => (⟨.fault fault, "", ""⟩, d)
  | none => (effect.response, d.writeAll effect.files)

theorem landed_of_no_files {effect : Effect} (h : effect.files = []) (d : Directory) :
    d.landed effect = (effect.response, d) := by
  rw [landed, h]
  rfl

theorem performIn_of_file {o : Options} {task : Task} (h : d.find task.input = .file text) :
    d.performIn o task = d.landed (performOn o task text) := by
  rw [performIn, h]
  rfl

/-! ### Names of files -/

theorem toList_treePath (path : String) :
    (treePath path).toList = path.toList ++ ".ast.json".toList := String.toList_append

theorem slash_not_mem_treePath (h : '/' ∉ path.toList) : '/' ∉ (treePath path).toList := by
  rw [toList_treePath, List.mem_append, not_or]
  exact ⟨h, by decide⟩

/-- A tree file has too long a name to be one of the paths that are left out or lead out. -/
theorem three_le_length_treePath (path : String) : 3 ≤ (treePath path).toList.length := by
  have hextension : ".ast.json".toList.length = 9 := by decide
  rw [toList_treePath, List.length_append, hextension]
  omega

theorem plainPath_treePath (h : '/' ∉ path.toList) : plainPath (treePath path) = treePath path := by
  have hlength := three_le_length_treePath path
  refine plainPath_eq_self (slash_not_mem_treePath h) (fun hnil => ?_) fun hdot => ?_
  · rw [hnil] at hlength
    cases hlength
  · rw [hdot] at hlength
    exact absurd hlength (by decide)

/-- A tree file can be written beside its program file. -/
theorem obstacle?_treePath (h : '/' ∉ path.toList) : obstacle? (treePath path) = none := by
  have hslash := slash_not_mem_treePath h
  have hlength := three_le_length_treePath path
  have hne : ∀ short : List Char, short.length < 3 → (treePath path).toList ≠ short :=
    fun short hshort he => by
      rw [he] at hlength
      omega
  have hsteps : steps (treePath path).toList = [(treePath path).toList] := by
    rw [steps, Text.split_of_not_mem hslash]
    simp [hne [] (by decide), hne ['.'] (by decide)]
  have haround : isAround (treePath path) = false := by
    rw [isAround, hsteps]
    simp [hne ['.', '.'] (by decide)]
  rw [obstacle?, haround, if_neg (by decide), if_neg hslash]

/-- Where the same files are to be written into two directories, they are alike afterwards at the
name of the one file, and elsewhere if they were. -/
theorem find_landed {effect effect' : Effect} (hfiles : effect'.files = effect.files)
    (h : d'.find name = d.find name ∨
      (effect.files.map fun f => plainPath f.1) = [name] ∧ obstacle? name = none) :
    (d'.landed effect').2.find name = (d.landed effect).2.find name := by
  unfold landed
  rw [hfiles]
  cases hobstacle : effect.files.findSome? fun f => obstacle? (plainPath f.1) with
  | none =>
    refine find_writeAll (h.imp_right ?_)
    rintro ⟨hone, -⟩
    rw [hone]
    exact List.mem_singleton_self name
  | some fault =>
    refine h.resolve_right ?_
    rintro ⟨hone, hnone⟩
    obtain ⟨f, hf, hname⟩ := List.map_eq_singleton_iff.mp hone
    rw [hf, List.findSome?_singleton, hname, hnone] at hobstacle
    cases hobstacle

end Directory

/-! ## Reading a program file and a tree file -/

theorem withTree_of_ok {source : String} {tree : Node} (h : Grammar.programOf source = .ok tree)
    (next : Node → Effect) : withTree source next = next tree := by
  rw [withTree, h]

/-- A source that holds no program is answered alike, whatever was to be done with its tree, and
nothing is written. -/
theorem withTree_of_error {source : String} {failure : ReadingFailure}
    (h : Grammar.programOf source = .error failure) :
    ∃ effect : Effect, effect.files = [] ∧ ∀ next, withTree source next = effect := by
  cases failure with
  | error e => exact ⟨_, rfl, fun next => by rw [withTree, h]⟩
  | _ => exact ⟨_, rfl, fun next => by rw [withTree, h]⟩

/-- **The tree file of a tree is run as the tree.** -/
theorem performOn_treeFile (o : Options) (path : String) (tree : Node) :
    performOn o (.runTree path) (String.ofList tree.toJson.toText) = run o tree none := by
  simp only [performOn, String.toList_ofList, tree.withNewlines_toText, tree.ofText?_toText,
    tree.ofJson_toJson]

/-! ## Running with and without a source -/

section Running

variable {o o' : Options}

/-- A run depends on the options through what is told, and to which file. -/
theorem run_congr (hv : o.verbosity = o'.verbosity) (hd : o.debugPath = o'.debugPath) (tree : Node)
    (source : Option String) : run o tree source = run o' tree source := by
  unfold run
  rw [hv, hd]

theorem files_run (o : Options) (tree : Node) (source source' : Option String) :
    (run o tree source).files = (run o tree source').files := rfl

/-- A run writes the file that it is told to. -/
theorem map_files_run (o : Options) (tree : Node) (source : Option String) :
    ((run o tree source).files.map fun f => plainPath f.1) =
      (o.debugPath.map plainPath).toList := by
  rw [run]
  cases o.debugPath <;> rfl

/-- Without a source a report is its headline. -/
theorem report_none (e : Error) : e.report none = e.headline := by
  simp [Error.report, Error.reportLines, List.intercalate]

end Running

/-- Two answers to running one tree, with its source and without: they are the same, unless the
evaluation fails; then the same is told before the report, and of its three lines the first is
left. -/
inductive Beside (source : String) : Response → Response → Prop
  | same {r : Response} (h : r.exit ≠ .status 1) : Beside source r r
  | failed (told : String) {e : Error} {shown : List Char} {first behind : Nat}
      (h : e.Shows source shown first behind) :
      Beside source ⟨.status 1, "", told ++ line (e.report (some source))⟩
        ⟨.status 1, "", told ++ line e.headline⟩

/-- How a program fails does not depend on how much is told of it. -/
theorem evaluated_of_run {source : String} {tree : Node} {e : Error} {verbosity : Nat}
    (hp : Grammar.programOf source = .ok tree)
    (h : ((Session.start verbosity).run Session.root tree).1.outcome =
      .error (.evaluation (.error e))) : Evaluated source tree e := by
  have hunmarked : (Session.start verbosity).store.Unmarked := by
    intro id b hb
    rw [Session.start, Store.bindings_addRoot_empty] at hb
    cases hb
  have hquiet := (Evaluation.program_quieter (Nat.zero_le verbosity) Evaluation.nestingLimit
    Session.root tree (m := ⟨(Session.start verbosity).store, []⟩) hunmarked).1
  obtain ⟨_, hfound, hrun⟩ := Session.exists_failure_of_run h
  cases hfound
  exact ⟨hp, hquiet.trans hrun⟩

/-- **The source shows in a report alone.** -/
theorem beside_run {source : String} {tree : Node} (hp : Grammar.programOf source = .ok tree)
    (o : Options) :
    Beside source (run o tree (some source)).response (run o tree none).response := by
  have hfails : ∀ e, ((Session.start o.verbosity).run Session.root tree).1.outcome =
      .error (.evaluation (.error e)) → Evaluated source tree e := fun e => evaluated_of_run hp
  unfold run
  generalize ((Session.start o.verbosity).run Session.root tree).1 = report at hfails ⊢
  obtain ⟨outcome, events⟩ := report
  cases outcome with
  | ok value =>
    simp only
    exact .same (by simp)
  | error failure =>
    cases failure with
    | reading failure =>
      simp only
      exact .same (by simp)
    | evaluation failure =>
      cases failure with
      | exhausted =>
        simp only
        exact .same (by simp)
      | defect d =>
        simp only
        exact .same (by simp)
      | error e =>
        obtain ⟨hpoints, hm⟩ := (hfails e rfl).pointsInto
        obtain ⟨shown, first, behind, hshows⟩ := hpoints.exists_shows hm
        simp only [report_none]
        exact .failed _ hshows

/-- An effect on a directory is beside another if the answers are. -/
theorem Beside.landed {source : String} {effect effect' : Effect}
    (h : Beside source effect.response effect'.response) (hfiles : effect'.files = effect.files)
    (d d' : Directory) : Beside source (d.landed effect).1 (d'.landed effect').1 := by
  unfold Directory.landed
  rw [hfiles]
  cases effect.files.findSome? fun f => Directory.obstacle? (plainPath f.1) with
  | none => exact h
  | some fault => exact .same (by simp)

/-! ## Both ways -/

/-- Arguments that ask for a task, for some verbosity, and for a file that is told. -/
def Asks (args : List String) (task : Task) (verbosity : Nat) (debugPath : Option String) : Prop :=
  ∃ o, Options.ofArguments args = .ok o ∧ o.task = .ok task ∧ o.verbosity = verbosity ∧
    o.debugPath = debugPath

/-- What asks for a task on a file that is there carries it out. -/
theorem Asks.execute {args : List String} {task : Task} {verbosity : Nat}
    {debugPath : Option String} (h : Asks args task verbosity debugPath) {d : Directory}
    {text : String} (hfile : d.find task.input = .file text) :
    ∃ o : Options, o.verbosity = verbosity ∧ o.debugPath = debugPath ∧
      d.execute args = d.landed (performOn o task text) := by
  obtain ⟨o, ho, htask, hv, hd⟩ := h
  refine ⟨o, hv, hd, ?_⟩
  simp only [Directory.execute, ho, htask]
  exact Directory.performIn_of_file hfile

/-- The effect of writing a tree file in a directory. -/
theorem landed_emitTree (d : Directory) {path : String} (h : '/' ∉ path.toList) (written : String) :
    d.landed ⟨⟨.status 0, line (treePath path), ""⟩, [(treePath path, written)]⟩ =
      (⟨.status 0, line (treePath path), ""⟩, d.write (treePath path) written) := by
  simp [Directory.landed, Directory.writeAll, Directory.plainPath_treePath h,
    Directory.obstacle?_treePath h]

/-- A source that holds no program is answered when its tree is to be written as when it is to be
run. -/
theorem performOn_of_error (path : String) {text : String} {failure : ReadingFailure}
    (h : Grammar.programOf (String.ofList (Source.withNewlines text.toList)) = .error failure) :
    ∃ effect : Effect, effect.files = [] ∧ ∀ o, performOn o (.runProgram path) text = effect ∧
      performOn o (.emitTree path) text = effect := by
  obtain ⟨effect, hfiles, hnext⟩ := withTree_of_error h
  exact ⟨effect, hfiles, fun o => ⟨hnext _, hnext _⟩⟩

/-- A program is run, or its tree is written. -/
theorem performOn_of_ok (o : Options) (path : String) {text : String} {tree : Node}
    (h : Grammar.programOf (String.ofList (Source.withNewlines text.toList)) = .ok tree) :
    performOn o (.runProgram path) text =
        run o tree (some (String.ofList (Source.withNewlines text.toList))) ∧
      performOn o (.emitTree path) text = ⟨⟨.status 0, line (treePath path), ""⟩,
        [(treePath path, String.ofList tree.toJson.toText)]⟩ :=
  ⟨withTree_of_ok h _, withTree_of_ok h _⟩

/-- **In a directory.**  Writing a tree file and running it is running the source. -/
theorem execute_treeFile {d : Directory} {path text : String} {verbosity verbosity' : Nat}
    {debugPath debugPath' : Option String} {direct emit again : List String} {tree : Node}
    (hdirect : Asks direct (.runProgram path) verbosity debugPath)
    (hemit : Asks emit (.emitTree path) verbosity' debugPath')
    (hagain : Asks again (.runTree (treePath path)) verbosity debugPath)
    (hfile : d.find path = .file text) (hslash : '/' ∉ path.toList)
    (hp : Grammar.programOf (String.ofList (Source.withNewlines text.toList)) = .ok tree) :
    d.execute emit = (⟨.status 0, line (treePath path), ""⟩,
        d.write (treePath path) (String.ofList tree.toJson.toText)) ∧
      Beside (String.ofList (Source.withNewlines text.toList)) (d.execute direct).1
        ((d.execute emit).2.execute again).1 ∧
      ∀ name, name ≠ treePath path ∨ debugPath.map plainPath = some name →
        ((d.execute emit).2.execute again).2.find name = (d.execute direct).2.find name := by
  obtain ⟨o, hv, hd, hran⟩ := hdirect.execute (d := d) hfile
  obtain ⟨emitting, -, -, hemitted⟩ := hemit.execute (d := d) hfile
  rw [(performOn_of_ok o path hp).1] at hran
  rw [(performOn_of_ok emitting path hp).2, landed_emitTree d hslash] at hemitted
  have hwritten : (d.execute emit).2.find (treePath path) =
      .file (String.ofList tree.toJson.toText) := by
    rw [hemitted]
    exact Directory.find_write_self ..
  obtain ⟨again, hv', hd', hreran⟩ := hagain.execute hwritten
  rw [performOn_treeFile, run_congr (hv'.trans hv.symm) (hd'.trans hd.symm)] at hreran
  refine ⟨hemitted, ?_, fun name hname => ?_⟩
  · rw [hran, hreran]
    exact (beside_run hp o).landed rfl d _
  · rw [hran, hreran]
    refine Directory.find_landed rfl ?_
    by_cases hne : name = treePath path
    · -- the tree file is the debug file, which is written anew
      have hdebug := hname.resolve_left fun h => h hne
      refine Or.inr ⟨?_, hne ▸ Directory.obstacle?_treePath hslash⟩
      rw [map_files_run, hd, hdebug, Option.toList_some]
    · left
      rw [hemitted]
      exact Directory.find_write_of_ne hne

/-- **Running an emitted tree file is running the source.**  Strings of any characters, numbers of
any size, and all trees are read back from their JSON texts.

A source that holds no program is answered when its tree is to be written as when it is to be run,
and then no file is written.  The tree of any other source is written into one file.  Whoever reads
this text from the file and runs it, with the verbosity and the debug file of a run of the source,
writes the same and gives the same answer; only a report on a failed evaluation is the first of the
three lines that are otherwise shown.

So it is for a program file in a directory, however the arguments ask for it.  All files but the
tree file are afterwards as after running the source, and so is the debug file, even if it is the
tree file. -/
theorem tree_file_stands_for_source :
    ((∀ s : String, Json.ofText? (Json.string s).toText = some (.string s)) ∧
      (∀ x : Double, Json.ofText? (Json.number x).toText = some (.number x)) ∧
      ∀ tree : Node, Json.ofText? tree.toJson.toText = some tree.toJson ∧
        Node.ofJson tree.toJson = .ok tree) ∧
    (∀ (o emitting again : Options) (path text : String),
      again.verbosity = o.verbosity → again.debugPath = o.debugPath →
      let source := String.ofList (Source.withNewlines text.toList)
      let ran := perform o (.runProgram path) (some text)
      let emitted := perform emitting (.emitTree path) (some text)
      (∀ failure, Grammar.programOf source = .error failure →
        emitted = ran ∧ emitted.files = []) ∧
      ∀ tree, Grammar.programOf source = .ok tree →
        let written := String.ofList tree.toJson.toText
        let reran := perform again (.runTree (treePath path)) (some written)
        emitted = ⟨⟨.status 0, line (treePath path), ""⟩, [(treePath path, written)]⟩ ∧
        reran.files = ran.files ∧ Beside source ran.response reran.response) ∧
    ∀ (d : Directory) (path text : String) (verbosity verbosity' : Nat)
      (debugPath debugPath' : Option String) (direct emit again : List String),
      Asks direct (.runProgram path) verbosity debugPath →
      Asks emit (.emitTree path) verbosity' debugPath' →
      Asks again (.runTree (treePath path)) verbosity debugPath →
      d.find path = .file text → '/' ∉ path.toList →
      let source := String.ofList (Source.withNewlines text.toList)
      let ran := d.execute direct
      let emitted := d.execute emit
      let reran := emitted.2.execute again
      (∀ failure, Grammar.programOf source = .error failure → emitted = ran ∧ emitted.2 = d) ∧
      ∀ tree, Grammar.programOf source = .ok tree →
        emitted = (⟨.status 0, line (treePath path), ""⟩,
          d.write (treePath path) (String.ofList tree.toJson.toText)) ∧
        Beside source ran.1 reran.1 ∧
        ∀ name, name ≠ treePath path ∨ debugPath.map plainPath = some name →
          reran.2.find name = ran.2.find name := by
  refine ⟨⟨fun s => Json.ofText?_toText (.string s), fun x => Json.ofText?_toText (.number x),
    fun tree => ⟨tree.ofText?_toText, tree.ofJson_toJson⟩⟩, ?_, ?_⟩
  · intro o emitting again path text hv hd source ran emitted
    refine ⟨fun failure hp => ?_, fun tree hp => ?_⟩
    · obtain ⟨effect, hfiles, hboth⟩ := performOn_of_error path hp
      have hemitted : emitted = effect := (hboth emitting).2
      exact ⟨hemitted.trans (hboth o).1.symm, hemitted ▸ hfiles⟩
    · have hran : ran = run o tree (some source) := (performOn_of_ok o path hp).1
      refine ⟨(performOn_of_ok emitting path hp).2, ?_⟩
      simp only [perform]
      rw [hran, performOn_treeFile, run_congr hv hd]
      exact ⟨files_run o tree none (some source), beside_run hp o⟩
  · intro d path text verbosity verbosity' debugPath debugPath' direct emit again hdirect hemit
      hagain hfile hslash source ran emitted reran
    refine ⟨fun failure hp => ?_, fun tree hp =>
      execute_treeFile hdirect hemit hagain hfile hslash hp⟩
    obtain ⟨effect, hfiles, hboth⟩ := performOn_of_error path hp
    obtain ⟨o, -, -, hran⟩ := hdirect.execute (d := d) hfile
    obtain ⟨emitting, -, -, hemitted⟩ := hemit.execute (d := d) hfile
    rw [(hboth o).1, Directory.landed_of_no_files hfiles] at hran
    rw [(hboth emitting).2, Directory.landed_of_no_files hfiles] at hemitted
    exact ⟨hemitted.trans hran.symm, congrArg Prod.snd hemitted⟩

/-- A program on two lines with a carriage return between them fails on the second: what is told of
the first line comes before both reports.  And half a program in another directory is reported
alike. -/
theorem tree_file_stands_for_source_unbound :
    let d : Directory := [("f.nuri", "ㄱ = 1\r\n나")]
    let direct := ["-v", "f.nuri"]
    let again := ["--ast", "f.nuri.ast.json", "-v"]
    let written := (d.execute ["--emit-ast", "f.nuri"]).2
    (Asks direct (.runProgram "f.nuri") 1 none ∧ Asks again (.runTree (treePath "f.nuri")) 1 none ∧
      ∃ (told : String) (e : Error), (d.execute direct).1 =
          ⟨.status 1, "", told ++ line (e.report (some "ㄱ = 1\n나"))⟩ ∧
        (written.execute again).1 = ⟨.status 1, "", told ++ line e.headline⟩) ∧
    perform Options.empty (.emitTree "a/f.nuri") (some "ㄱ = (") =
      perform Options.empty (.runProgram "a/f.nuri") (some "ㄱ = (") := by
  intro d direct again written
  refine ⟨?_, ?_⟩
  · have hdirect : Asks direct (.runProgram "f.nuri") 1 none :=
      ⟨⟨1, none, none, none, some "f.nuri"⟩, by decide +kernel, by decide +kernel, rfl, rfl⟩
    have hemit : Asks ["--emit-ast", "f.nuri"] (.emitTree "f.nuri") 0 none :=
      ⟨⟨0, none, some "f.nuri", none, none⟩, by decide +kernel, by decide +kernel, rfl, rfl⟩
    have hagain : Asks again (.runTree (treePath "f.nuri")) 1 none :=
      ⟨⟨1, none, none, some "f.nuri.ast.json", none⟩, by decide +kernel, by decide +kernel, rfl,
        rfl⟩
    have hstatus : (d.execute direct).1.exit = .status 1 := by decide +kernel
    have hsource : String.ofList (Source.withNewlines "ㄱ = 1\r\n나".toList) = "ㄱ = 1\n나" := by
      decide +kernel
    have hparses : (Grammar.programOf "ㄱ = 1\n나").toOption.isSome = true := by decide +kernel
    obtain ⟨tree, hp⟩ : ∃ tree, Grammar.programOf "ㄱ = 1\n나" = .ok tree := by
      cases hp : Grammar.programOf "ㄱ = 1\n나" with
      | ok tree => exact ⟨tree, rfl⟩
      | error failure =>
        rw [hp] at hparses
        cases hparses
    have hboth := (tree_file_stands_for_source.2.2 d "f.nuri" "ㄱ = 1\r\n나" 1 0 none none direct
      ["--emit-ast", "f.nuri"] again hdirect hemit hagain rfl (by decide)).2 tree (hsource ▸ hp)
    refine ⟨hdirect, hagain, ?_⟩
    have hbeside := hboth.2.1
    rw [hsource] at hbeside
    generalize (d.execute direct).1 = answer at hbeside hstatus ⊢
    generalize ((d.execute ["--emit-ast", "f.nuri"]).2.execute again).1 = answer' at hbeside ⊢
    cases hbeside with
    | same h => exact absurd hstatus h
    | failed told hshows => exact ⟨told, _, rfl, rfl⟩
  · have hsource : String.ofList (Source.withNewlines "ㄱ = (".toList) = "ㄱ = (" := by
      decide +kernel
    have hrefused : (Grammar.programOf "ㄱ = (").toOption.isSome = false := by decide +kernel
    obtain ⟨failure, hp⟩ : ∃ failure, Grammar.programOf "ㄱ = (" = .error failure := by
      cases hp : Grammar.programOf "ㄱ = (" with
      | error failure => exact ⟨failure, rfl⟩
      | ok tree =>
        rw [hp] at hrefused
        cases hrefused
    exact ((tree_file_stands_for_source.2.1 Options.empty Options.empty Options.empty "a/f.nuri"
      "ㄱ = (" rfl rfl).1 failure (hsource ▸ hp)).1

end Command
end HangulScript
