import OpenApiDoc.Cli.Run
import OpenApiDoc.Proofs.Rendering

/-! # How a request for a document ends

A run that is asked for the document of a target prints it, or reports an error and prints nothing.
What fails while a module or a builder runs is made an error of the target, so it is reported. Three
failures are not: they escape, and only their kind is known.

* `Target.guarded_error`: what a guarded stage lets out is an error of this library, or an exception
  that no handler for ordinary failures catches.
* `Target.attributeOf_error`: a module without a function of its own for other attributes has the
  attribute, or it is reported that it has none.
* `Target.document_error`: loading is left unguarded by a path that is too long for the file system,
  and by a module's own function for attributes that fails.
* `Cli.run_ends`: how a run ends, by these failures. -/

namespace OpenApiDoc

/-! ### Stages of loading -/

namespace Target

/-- The fault is an error of this library, or no handler for ordinary failures catches it. -/
def Settled (f : Fault) : Prop :=
  (∃ e, f = .document e) ∨ ∃ kind args, f = .raised kind args ∧ kind ∈ uncaught

theorem explain_settled (target : Value) (reason : World → Fault → LoadFailure) (f : Fault)
    (w : World) : ∃ g, (explain target reason f).run w = .ok g w ∧ Settled g := by
  cases f with
  | document e => exact ⟨_, rfl, .inl ⟨e, rfl⟩⟩
  | raised kind args =>
      by_cases h : uncaught.contains kind
      · exact ⟨.raised kind args, by simp only [explain, h]; rfl,
          .inr ⟨kind, args, rfl, by simpa using h⟩⟩
      · exact ⟨_, by simp only [explain, h]; rfl, .inl ⟨_, rfl⟩⟩
  | _ => exact ⟨_, rfl, .inl ⟨_, rfl⟩⟩

theorem guarded_error {α : Type} {target : Value} {reason : World → Fault → LoadFailure}
    {stage : Build α} {w w' : World} {f : Fault}
    (h : (guarded target reason stage).run w = .error f w') : Settled f := by
  obtain ⟨g, w₁, -, handled⟩ := Build.tryCatch_error h
  obtain ⟨g', explained, settled⟩ := explain_settled target reason g w₁
  rcases Build.bind_error handled with failed | ⟨g'', w₂, run, thrown⟩
  · rw [explained] at failed
    cases failed
  · rw [explained] at run
    cases run
    cases thrown
    exact settled

theorem refuse_error {α : Type} {target : Value} {reason : LoadFailure} {w w' : World} {f : Fault}
    (h : (Module.refuse target reason : Build α).run w = .error f w') : Settled f := by
  cases h
  exact .inl ⟨_, rfl⟩

/-- Looking for the module of a reference goes wrong unguarded only when the path is too long. -/
theorem module_error {s : Surroundings} {target : Value} {ref : String} {w w' : World} {f : Fault}
    (h : (module s target ref).run w = .error f w') :
    Settled f ∨
      f = .system .nameTooLong ∧ ref.endsWith ".py" = true ∧
        s.files.find (.read ref) = .tooLong := by
  unfold module at h
  split at h
  next file =>
    dsimp only at h
    split at h
    next long =>
      cases h
      exact .inr ⟨rfl, file, long⟩
    · exact .inl (refuse_error h)
    · exact .inl (guarded_error h)
  · exact .inl (guarded_error h)

theorem called_error {target : String} {run : Build Value} {w w' : World} {f : Fault}
    (h : (called target run).run w = .error f w') : Settled f := by
  rcases Build.bind_error h with failed | ⟨-, w₁, -, failed⟩
  · cases failed
  · exact guarded_error failed

theorem resolve_error {load : Value → Build Value} {target : String} {a : Module.Attribute}
    {w w' : World} {f : Fault} (h : (resolve load target a).run w = .error f w') : Settled f := by
  cases a with
  | method run => exact called_error h
  | value v =>
      cases v with
      | atom a => cases h
      | obj a =>
          rcases Build.bind_error h with failed | ⟨o, w₁, -, rest⟩
          · cases failed
          · split at rest
            · cases rest
            · exact called_error rest

/-! ### Attributes -/

/-- The names of a module in a world. -/
def namesIn (w : World) (m : Addr) : Names :=
  match w.get m with
  | .module names => names
  | _ => []

theorem names_reads (w : World) (m : Addr) : (Build.names m).Reads w (namesIn w m) := by
  simp only [Build.Reads, Build.names, namesIn]
  rw [EStateM.run_bind]
  change (match w.get m with
    | .module names => (pure names : Build Names)
    | _ => pure []).run w = _
  split <;> simp_all

/-- Going on with the names of a module. -/
theorem names_bind {α : Type} (f : Names → Build α) (m : Addr) (w : World) :
    (Build.names m >>= f).run w = (f (namesIn w m)).run w := by
  rw [EStateM.run_bind, names_reads w m]

theorem bind_run (m : Addr) (name : String) (v : Value) (w : World) :
    ∃ w', (Build.bind m name v).run w = .ok () w' := by
  simp only [Build.bind]
  rw [names_bind]
  exact ⟨_, rfl⟩

/-- Some attributes every module has, whatever names it binds. -/
def IsStanding (name : String) : Prop :=
  name = "__class__" ∨ name = "__dict__" ∨ name = Module.annotations

theorem own?_of_standing {name : String} (h : IsStanding name) (m : Addr) (w : World) :
    ∃ a w', (Module.own? m name).run w = .ok (some a) w' := by
  rcases h with rfl | rfl | rfl
  · exact ⟨_, _, rfl⟩
  · simp only [Module.own?, Module.namesMapping, bind_assoc]
    rw [if_neg (by decide), if_pos trivial, names_bind]
    exact ⟨_, _, rfl⟩
  · simp only [Module.own?]
    rw [if_neg (by decide), if_neg (by decide), names_bind]
    split
    · exact ⟨_, _, rfl⟩
    · obtain ⟨w', bound⟩ := bind_run m Module.annotations (.obj w.size) (w.alloc (.mapping [])).2
      refine ⟨.value (.obj w.size), w', ?_⟩
      rw [if_pos trivial]
      change (Build.bind m Module.annotations (.obj w.size) >>= fun _ => _).run
        (w.alloc (.mapping [])).2 = _
      rw [EStateM.run_bind, bound]
      rfl

/-- Any other attribute is read off the module, which stays as it is. -/
theorem own?_of_not_standing {name : String} (h : ¬ IsStanding name) (m : Addr) (w : World) :
    ∃ r, (Module.own? m name).run w = .ok r w := by
  simp only [IsStanding, not_or] at h
  simp only [Module.own?, h, if_false]
  rw [names_bind]
  split <;> exact ⟨_, rfl⟩

/-- A module that has an attribute by itself has it when it is asked again, and one that does not
stays as it is. -/
theorem own?_twice (m : Addr) (name : String) (w : World) :
    (∃ a a' w₁ w₂, (Module.own? m name).run w = .ok (some a) w₁ ∧
      (Module.own? m name).run w₁ = .ok (some a') w₂) ∨
    (Module.own? m name).run w = .ok none w := by
  by_cases h : IsStanding name
  · obtain ⟨a, w₁, first⟩ := own?_of_standing h m w
    obtain ⟨a', w₂, second⟩ := own?_of_standing h m w₁
    exact .inl ⟨a, a', w₁, w₂, first, second⟩
  · obtain ⟨r, run⟩ := own?_of_not_standing h m w
    cases r with
    | none => exact .inr run
    | some a => exact .inl ⟨a, a, w, w, run, run⟩

/-- A module without a function of its own for other attributes has an attribute, or it is reported
that it has none. -/
theorem attributeOf_error {load : Value → Build Value} {target : Value} {m : Addr} {name : String}
    {w w' : World} {f : Fault} (h : (attributeOf load target m name).run w = .error f w')
    (bare : (namesIn w m).lookup Module.fallback = none) : Settled f := by
  rw [attributeOf, EStateM.run_bind, Build.run_tryCatch] at h
  rcases own?_twice m name w with ⟨a, a', w₁, w₂, first, second⟩ | missing
  · rw [Module.attributeOf, EStateM.run_bind, first] at h
    change (Module.attributeOf load m name).run w₁ = _ at h
    rw [Module.attributeOf, EStateM.run_bind, second] at h
    cases h
  · have lacks : (Module.attributeOf load m name).run w = .error
        (.misuse (.noAttribute (w.owner (.obj m)) name)) w := by
      rw [Module.attributeOf, EStateM.run_bind, missing]
      simp only
      rw [names_bind, bare]
      rfl
    rw [lacks] at h
    simp only [Module.isMissing, Fault.kind, Misuse.kind] at h
    cases h
    exact .inl ⟨_, rfl⟩

/-! ### The whole of loading -/

/-- The fault lets the handlers of loading through. -/
inductive Unguarded (fs : Files) (target : String) (f : Fault) : Prop
  /-- The path of the module's file is too long. -/
  | search {ref name : String} (named : split? target = some (ref, name))
    (file : ref.endsWith ".py" = true) (long : fs.find (.read ref) = .tooLong)
    (fault : f = .system .nameTooLong)
  /-- The module has a function of its own for other attributes, and asking for the attribute
  fails. -/
  | attribute {ref name : String} {m : Addr} {own : Value} {w w' : World}
    (named : split? target = some (ref, name))
    (found : (module ⟨load fs (maxDepth - 1), fs⟩ (.str target) ref).run .initial = .ok m w)
    (function : (namesIn w m).lookup Module.fallback = some own)
    (failed : (attributeOf (load fs (maxDepth - 1)) (.str target) m name).run w = .error f w')

theorem document_of_split {fs : Files} {target ref name : String}
    (named : split? target = some (ref, name)) :
    document fs (.str target) = (do
      let inner := load fs (maxDepth - 1)
      let m ← module ⟨inner, fs⟩ (.str target) ref
      let doc ← resolve inner target (← attributeOf inner (.str target) m name)
      if (doc.mapping? (← get)).isSome then return doc
      else Module.refuse (.str target) (.notAMapping ((← get).typeName doc))) := by
  change load fs (999 + 1) (.str target) = _
  rw [load, named]
  rfl

theorem document_of_malformed {fs : Files} {target : String} (malformed : split? target = none) :
    document fs (.str target) = Module.refuse (.str target) .malformed := by
  change load fs (999 + 1) (.str target) = _
  rw [load, malformed]

theorem document_error {fs : Files} {target : String} {w : World} {f : Fault}
    (h : (document fs (.str target)).run .initial = .error f w) :
    Settled f ∨ Unguarded fs target f := by
  cases named : split? target with
  | none =>
      rw [document_of_malformed named] at h
      exact .inl (refuse_error h)
  | some parts =>
      rw [document_of_split named] at h
      rcases Build.bind_error h with failed | ⟨m, w₁, found, rest⟩
      · rcases module_error failed with settled | ⟨rfl, file, long⟩
        · exact .inl settled
        · exact .inr (.search named file long rfl)
      rcases Build.bind_error rest with failed | ⟨a, w₂, -, rest⟩
      · cases own : (namesIn w₁ m).lookup Module.fallback with
        | none => exact .inl (attributeOf_error failed own)
        | some v => exact .inr (.attribute named found own failed)
      rcases Build.bind_error rest with failed | ⟨doc, w₃, -, rest⟩
      · exact .inl (resolve_error failed)
      rcases Build.bind_error rest with failed | ⟨w₄, w₅, -, rest⟩
      · cases failed
      split at rest
      · cases rest
      · rcases Build.bind_error rest with failed | ⟨w₆, w₇, -, rest⟩
        · cases failed
        · exact .inl (refuse_error rest)

/-- What is loaded is a mapping. -/
theorem document_ok {fs : Files} {target : String} {w : World} {doc : Value}
    (h : (document fs (.str target)).run .initial = .ok doc w) : (doc.mapping? w).isSome := by
  cases named : split? target with
  | none =>
      rw [document_of_malformed named] at h
      cases h
  | some parts =>
      rw [document_of_split named] at h
      obtain ⟨m, w₁, -, rest⟩ := Build.bind_ok h
      obtain ⟨a, w₂, -, rest⟩ := Build.bind_ok rest
      obtain ⟨doc', w₃, -, rest⟩ := Build.bind_ok rest
      obtain ⟨w₄, w₅, got, rest⟩ := Build.bind_ok rest
      cases got
      split at rest
      next isMapping =>
        cases rest
        exact isMapping
      next =>
        obtain ⟨w₆, w₇, -, rest⟩ := Build.bind_ok rest
        cases rest

end Target

/-! ### A run of the command line -/

namespace Cli

/-- The arguments that ask for the document of a target, to be printed in a format. -/
def printing (target format : String) : List String := ["build", target, "--format", format]

theorem Command.parse_of_not_switch (c : Command) {a : String} (h : isSwitch a = false)
    (rest : List String) : c.parse (a :: rest) =
      if c.mixed then (c.parse rest).map (.withOperand a) else .ok ⟨[], a :: rest⟩ := by
  have notDashes : a ≠ "--" := by
    rintro rfl
    have switch : isSwitch "--" = true := by simp [isSwitch, ← String.length_toList]
    simp [switch] at h
  rw [parse.eq_def]
  split
  next nothing => cases nothing
  next dashes =>
    cases dashes
    exact absurd rfl notDashes
  next b others _ same =>
    cases same
    simp only [h, Bool.false_eq_true, if_false]

/-- A text that does not begin with a dash is an operand. -/
theorem parse_operand (c : Command) {a : String} (h : a.startsWith "-" = false)
    (rest : List String) : c.parse (a :: rest) =
      if c.mixed then (c.parse rest).map (.withOperand a) else .ok ⟨[], a :: rest⟩ :=
  c.parse_of_not_switch (by simp [Command.isSwitch, h]) rest

theorem parse_format (format : String) :
    Cli.build.parse ["--format", format] = .ok ⟨[(.format, format)], []⟩ := by
  have switch : Command.isSwitch "--format" = true := by
    simp [Command.isSwitch, ← String.length_toList]
  rw [Command.parse.eq_def]
  change (if Command.isSwitch "--format" then _ else _) = _
  rw [if_pos switch]
  rfl

theorem of_printing {target format : String} (operand : target.startsWith "-" = false)
    (known : format ∈ Document.formats) :
    Request.of (printing target format) = .build false ⟨target, none, format⟩ := by
  have command : ("build".startsWith "-") = false := by simp
  have first := parse_operand program command [target, "--format", format]
  have second : Cli.build.parse [target, "--format", format] =
      .ok ⟨[(.format, format)], [target]⟩ := by
    rw [parse_operand _ operand, parse_format]
    rfl
  have accepted : BuildRequest.of ⟨[(.format, format)], [target]⟩ = .ok ⟨target, none, format⟩ := by
    have checked : checkFormat format = .ok () := if_pos (by simpa using known)
    change (do
      checkFormat format
      checkOutput none
      pure (⟨target, none, format⟩ : BuildRequest)) = _
    rw [checked]
    rfl
  have outer : Request.of (printing target format) =
      Request.ofBuild false [target, "--format", format] := by
    rw [Request.of, printing, first]
    rfl
  rw [outer, Request.ofBuild, second]
  simp only [accepted]
  rfl

/-- How a run ends that is asked to print the document of a target. -/
inductive Ends (fs : Files) (target format : String) (r : RunResult) : Prop
  /-- The document is loaded and rendered, and its text is all that is written. -/
  | printed {doc : Value} {w w' : World} {text : String}
    (loaded : (Target.document fs (.str target)).run .initial = .ok doc w)
    (rendered : (Document.render doc (.str format)).run w = .ok text w')
    (result : r = ⟨0, Terminal.lines text, "", none, none⟩)
  /-- An error is all that is written. -/
  | reported (message : String)
    (result : r = ⟨1, "", Terminal.lines (Terminal.plain ("Error: " ++ message ++ "\n")), none, none⟩)
  /-- The search for the file or for the attribute fails outside of every handler. -/
  | unguarded {f : Fault} {w : World} (gap : Target.Unguarded fs target f)
    (failed : (Target.document fs (.str target)).run .initial = .error f w)
    (result : r = (RunResult.ofFault w "" f).withLines)
  /-- The format has no form for a part of the document. -/
  | formless {doc : Value} {f : Fault} {w w' : World}
    (loaded : (Target.document fs (.str target)).run .initial = .ok doc w)
    (failed : (Document.render doc (.str format)).run w = .error f w') (gap : Formless f)
    (result : r = ⟨1, "", "", some f.kind, none⟩)
  /-- The code of a module ends the run, or raises what no handler for ordinary failures catches. -/
  | left {kind : String} {args : List Value} {w : World} (uncaught : kind ∈ Target.uncaught)
    (failed : (Target.document fs (.str target)).run .initial = .error (.raised kind args) w)
    (result : r = (RunResult.ofFault w "" (.raised kind args)).withLines)

theorem ofFault_formless {f : Fault} (h : Formless f) (w : World) :
    (RunResult.ofFault w "" f).withLines = ⟨1, "", "", some f.kind, none⟩ := by
  cases h <;> rfl

theorem run_ends (fs : Files) {target format : String} (operand : target.startsWith "-" = false)
    (known : format ∈ Document.formats) : Ends fs target format (run fs (printing target format)) := by
  rw [run, of_printing operand known, perform, runBuild, rendered, EStateM.run_bind]
  cases loaded : (Target.document fs (.str target)).run .initial with
  | error f w =>
      rcases Target.document_error loaded with (⟨e, rfl⟩ | ⟨kind, args, rfl, outside⟩) | gap
      · exact .reported (e.message w) rfl
      · exact .left outside loaded rfl
      · exact .unguarded gap loaded rfl
  | ok doc w =>
      simp only
      rw [EStateM.run_bind]
      cases rendered : (Document.render doc (.str format)).run w with
      | ok text w' => exact .printed loaded rendered rfl
      | error f w' =>
          have gap := Document.render_error (Target.document_ok loaded) known rendered
          exact .formless loaded rendered gap (ofFault_formless gap w')

/-- The path of the only module leads to it. -/
theorem find_alone (attributes : Attributes) :
    (⟨[(["a.py"], attributes)]⟩ : Files).find (.read "a.py") = .place ["a.py"] := by
  have text : (Path.read "a.py").text = "a.py" := by decide +kernel
  have usable : (Path.read "a.py").isUnusable = false := by
    rw [Path.isUnusable, text]
    simp
  have short : (Path.read "a.py").isOverlong = false := by decide +kernel
  rw [Files.find, usable, short]
  rfl

/-- Loading a document of the only module comes down to executing the module and reading the name
off it. -/
theorem document_alone (attributes : Attributes) :
    Target.document ⟨[(["a.py"], attributes)]⟩ (.str "a.py:d") = (do
      let inner := Target.load ⟨[(["a.py"], attributes)]⟩ (Target.maxDepth - 1)
      let m ← Target.guarded (.str "a.py:d") (fun w f => .executing "a.py" (f.shown w))
        (Module.ofFile inner (.read "a.py") attributes)
      let doc ← Target.resolve inner "a.py:d"
        (← Target.attributeOf inner (.str "a.py:d") m "d")
      if (doc.mapping? (← get)).isSome then return doc
      else Module.refuse (.str "a.py:d") (.notAMapping ((← get).typeName doc))) := by
  have split : Target.split? "a.py:d" = some ("a.py", "d") := by decide +kernel
  have file : ("a.py".endsWith ".py") = true := by decide +kernel
  have content : (⟨[(["a.py"], attributes)]⟩ : Files).file? ["a.py"] = some attributes := rfl
  have text : (Path.read "a.py").text = "a.py" := by decide +kernel
  rw [Target.document_of_split split]
  simp only [Target.module, file, if_true, find_alone, content, text]

/-- A module that binds the name `d` to a mapping of one entry. -/
def single (value : Expr) : Files :=
  ⟨[(["a.py"], [("d", .mapping [(.atom (.str "x"), value)])])]⟩

theorem run_ends_single :
    ("a.py:d".startsWith "-" = false ∧ "yaml" ∈ Document.formats ∧
      Ends (single (.atom (.int 1))) "a.py:d" "yaml"
        (run (single (.atom (.int 1))) (printing "a.py:d" "yaml"))) ∧
    run (single (.atom (.int 1))) (printing "a.py:d" "yaml") = ⟨0, "x: 1\n", "", none, none⟩ := by
  have operand : ("a.py:d".startsWith "-") = false := by decide +kernel
  have known : "yaml" ∈ Document.formats := by decide
  refine ⟨⟨operand, known, run_ends _ operand known⟩, ?_⟩
  rw [run, of_printing operand known, perform, runBuild, rendered, single, document_alone]
  rfl

/-- JSON has no form for a calendar value, and the run is left by a failure. -/
theorem run_dated :
    "a.py:d".startsWith "-" = false ∧ "json" ∈ Document.formats ∧
    run (single (.moment (.date ⟨2020, 1, 2⟩))) (printing "a.py:d" "json") =
      ⟨1, "", "", some "TypeError", none⟩ := by
  have operand : ("a.py:d".startsWith "-") = false := by decide +kernel
  have known : "json" ∈ Document.formats := by decide
  refine ⟨operand, known, ?_⟩
  rw [run, of_printing operand known, perform, runBuild, rendered, single, document_alone]
  rfl

end Cli

end OpenApiDoc
