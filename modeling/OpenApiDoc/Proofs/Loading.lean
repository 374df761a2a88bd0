import OpenApiDoc.Proofs.Commands

/-! # How loading a document ends

Loading takes three stages: the module of the target is found and executed, the attribute is read
off it, and an attribute that can be called is called. Each stage is described by a relation, and
`Target.Outcome` puts them together: the result of loading is the very value that the last stage
comes to, or the error of the stage that fails.

* `Target.Splits`: a target is a reference and a name around its last colon (`Target.split?_iff`).
* `Target.Route`: a reference that ends in `.py` is the path of a file, any other is a dotted name.
* `Target.Has` and `Target.Lacks`: what a module has under a name (`Target.attributeOf_run`).
* `Target.Comes`: what stands for the document, before it is looked at whether it is a mapping.
* `Target.document_outcome`: how loading ends if all code that it reaches fails in ways that a
  handler for ordinary failures catches. -/

namespace OpenApiDoc.Target

/-! ### The parts of a target -/

/-- The target is a reference and a name with the last colon between them, and neither is empty. -/
structure Splits (target ref name : String) : Prop where
  text : target = ref ++ ":" ++ name
  last : ':' ∉ name.toList
  ref : ref ≠ ""
  name : name ≠ ""

/-- A handler for ordinary failures catches the fault. -/
def Caught (f : Fault) : Prop := ∀ kind args, f = .raised kind args → kind ∉ uncaught

/-- What a failure of a stage is reported as: errors of this library stay as they are. -/
def explained (target : String) (reason : LoadFailure) : Fault → DocumentError
  | .document e => e
  | _ => .targetLoad (.str target) reason

section Stages

variable {α : Type} {fs : Files} {target ref name : String} {w w' : World} {f : Fault}

theorem guarded_ok {t : Value} {reason : World → Fault → LoadFailure} {stage : Build α} {a : α}
    (h : stage.run w = .ok a w') : (guarded t reason stage).run w = .ok a w' := by
  rw [guarded, Build.run_tryCatch, h]

theorem guarded_failed {reason : World → Fault → LoadFailure} {stage : Build α}
    (h : stage.run w = .error f w') (caught : Caught f) :
    (guarded (.str target) reason stage).run w =
      .error (.document (explained target (reason w' f) f)) w' := by
  rw [guarded, Build.run_tryCatch, h]
  cases f with
  | raised kind args =>
      have ordinary : uncaught.contains kind = false := by
        simpa using caught kind args rfl
      simp only [explain, ordinary]
      rfl
  | _ => rfl

/-! ### The stages -/

/-- What the documents of further targets come from, while one is being loaded. -/
def further (fs : Files) : Value → Build Value := load fs (maxDepth - 1)

/-- How the module of a reference is made, and how a failure is explained: a reference that ends in
`.py` is only the path of a file, and any other only a dotted name. -/
inductive Route (fs : Files) (target ref : String) :
    Build Addr → (World → Fault → LoadFailure) → Prop
  | file {names : List String} {attributes : Attributes} (path : ref.endsWith ".py" = true)
    (found : fs.find (.read ref) = .place names) (content : fs.file? names = some attributes) :
    Route fs target ref (Module.ofFile (further fs) (.read ref) attributes)
      fun w f => .executing (Path.read ref).text (f.shown w)
  | directory {names : List String} (path : ref.endsWith ".py" = true)
    (found : fs.find (.read ref) = .place names) (content : fs.file? names = none) :
    Route fs target ref (throw (.system .isDirectory))
      fun w f => .executing (Path.read ref).text (f.shown w)
  | dotted (name : ref.endsWith ".py" = false) :
    Route fs target ref (Module.ofName ⟨further fs, fs⟩ (.str target) ref) (importReason ref)

/-- What a module has under a name: what it binds the name to, or a method that every module has.
The names of a module as a mapping, and annotations that it does not bind, are made when they are
asked for; a module is asked twice. -/
inductive Has (m : Addr) (name : String) (w : World) : Module.Attribute → World → Prop
  | bound {v : Value} (type : name ≠ "__class__") (names : name ≠ "__dict__")
    (named : (namesIn w m).lookup name = some v) : Has m name w (.value v) w
  | method {run : Build Value} (plain : ¬ IsStanding name)
    (unbound : (namesIn w m).lookup name = none) (method : Module.method? m name = some run) :
    Has m name w (.method run) w
  | standing {a a' : Module.Attribute} {w₁ w₂ : World} (standing : IsStanding name)
    (hidden : name = "__class__" ∨ name = "__dict__" ∨ (namesIn w m).lookup name = none)
    (asked : (Module.own? m name).run w = .ok (some a) w₁)
    (read : (Module.own? m name).run w₁ = .ok (some a') w₂) : Has m name w a' w₂

/-- A module has nothing under a name. -/
structure Lacks (m : Addr) (name : String) (w : World) : Prop where
  plain : ¬ IsStanding name
  unbound : (namesIn w m).lookup name = none
  method : Module.method? m name = none

/-- The attribute can be called, and this is what a call without arguments does. -/
inductive Calls (fs : Files) (w : World) : Module.Attribute → Build Value → Prop
  | method (run : Build Value) : Calls fs w (.method run) run
  | object {a : Addr} {run : Build Value} (callable : call? (further fs) (w.get a) = some run) :
    Calls fs w (.value (.obj a)) run

/-- The world with the note that a target's builder is called. -/
def announced (target : String) (w : World) : World :=
  { w with log := w.log ++ ["DEBUG openapi_dsl.loader: Calling builder " ++ target] }

theorem called_eq (target : String) (run : Build Value) (w : World) :
    (called target run).run w =
      (guarded (.str target) (fun w f => .builderFailed (f.shown w)) run).run
        (announced target w) := by
  have line : "DEBUG openapi_dsl." ++ "loader" ++ ": " ++ ("Calling builder " ++ target) =
      "DEBUG openapi_dsl.loader: Calling builder " ++ target := by
    rw [← String.append_assoc]
    rfl
  rw [announced, ← line]
  rfl

/-- An attribute is called once, or stands for the document itself. -/
theorem resolve_run (a : Module.Attribute) (w : World) :
    (∃ run, Calls fs w a run ∧
      (resolve (further fs) target a).run w = (called target run).run w) ∨
    ∃ v, a = .value v ∧ (∀ run, ¬ Calls fs w a run) ∧
      (resolve (further fs) target a).run w = .ok v w := by
  cases a with
  | method run => exact .inl ⟨run, .method run, rfl⟩
  | value v =>
      cases v with
      | atom a => exact .inr ⟨.atom a, rfl, by rintro run ⟨⟩, rfl⟩
      | obj a =>
          cases callable : call? (further fs) (w.get a) with
          | some run =>
              refine .inl ⟨run, .object callable, ?_⟩
              rw [resolve, Build.run_look_bind, callable]
          | none =>
              refine .inr ⟨.obj a, rfl, ?_, ?_⟩
              · rintro run ⟨⟩
                simp_all
              · rw [resolve, Build.run_look_bind, callable]
                rfl

/-- The attribute that a target names, and the world in which it has been read. -/
inductive Finds (fs : Files) (target : String) (a : Module.Attribute) (w : World) : Prop
  | intro {ref name : String} {stage : Build Addr} {reason : World → Fault → LoadFailure} {m : Addr}
    {w₁ : World} (splits : Splits target ref name) (route : Route fs target ref stage reason)
    (made : stage.run .initial = .ok m w₁) (has : Has m name w₁ a w)

/-- What stands for the document: the value of an attribute that cannot be called, or else what one
call returns. -/
inductive Comes (fs : Files) (target : String) : Value → World → Prop
  | bound {v : Value} {w : World} (finds : Finds fs target (.value v) w)
    (uncallable : ∀ run, ¬ Calls fs w (.value v) run) : Comes fs target v w
  | returned {a : Module.Attribute} {run : Build Value} {v : Value} {w w' : World}
    (finds : Finds fs target a w) (calls : Calls fs w a run)
    (returned : run.run (announced target w) = .ok v w') : Comes fs target v w'

/-! ### The whole of loading -/

/-- The result of loading the document of a target. -/
inductive Outcome (fs : Files) (target : String) : EStateM.Result Fault World Value → Prop
  /-- There is no colon, or nothing on one side of the last. -/
  | malformed (unsplit : ∀ ref name, ¬ Splits target ref name) :
    Outcome fs target (.error (.document (.targetLoad (.str target) .malformed)) .initial)
  | fileNotFound {ref name : String} (splits : Splits target ref name)
    (path : ref.endsWith ".py" = true) (nothing : fs.find (.read ref) = .nothing) :
    Outcome fs target (.error (.document
      (.targetLoad (.str target) (.fileNotFound (Path.read ref).text))) .initial)
  /-- The module is not found by its name, or fails while it is executed. -/
  | moduleFailed {ref name : String} {stage : Build Addr} {reason : World → Fault → LoadFailure}
    {f : Fault} {w : World} (splits : Splits target ref name)
    (route : Route fs target ref stage reason) (failed : stage.run .initial = .error f w) :
    Outcome fs target (.error (.document (explained target (reason w f) f)) w)
  | noAttribute {ref name : String} {stage : Build Addr} {reason : World → Fault → LoadFailure}
    {m : Addr} {w : World} (splits : Splits target ref name)
    (route : Route fs target ref stage reason) (made : stage.run .initial = .ok m w)
    (lacks : Lacks m name w) :
    Outcome fs target (.error (.document (.targetLoad (.str target) (.noAttribute name))) w)
  | builderFailed {a : Module.Attribute} {run : Build Value} {f : Fault} {w w' : World}
    (finds : Finds fs target a w) (calls : Calls fs w a run)
    (failed : run.run (announced target w) = .error f w') :
    Outcome fs target
      (.error (.document (explained target (.builderFailed (f.shown w')) f)) w')
  | notAMapping {v : Value} {w : World} (comes : Comes fs target v w)
    (other : v.mapping? w = none) :
    Outcome fs target (.error (.document
      (.targetLoad (.str target) (.notAMapping (w.typeName v)))) w)
  | loaded {v : Value} {es : Entries} {w : World} (comes : Comes fs target v w)
    (mapping : v.mapping? w = some es) : Outcome fs target (.ok v w)

/-- The code that loading a target reaches raises nothing that a handler for ordinary failures lets
through; its module has no function of its own for other attributes; and looking for its file comes
to an end. -/
structure Ordinary (fs : Files) (target : String) : Prop where
  search : ∀ {ref name}, Splits target ref name → ref.endsWith ".py" = true →
    fs.find (.read ref) ≠ .tooLong
  module : ∀ {ref name stage reason f w}, Splits target ref name →
    Route fs target ref stage reason → stage.run .initial = .error f w → Caught f
  bare : ∀ {ref name stage reason m w}, Splits target ref name →
    Route fs target ref stage reason → stage.run .initial = .ok m w →
      (namesIn w m).lookup Module.fallback = none
  builder : ∀ {a run f w w'}, Finds fs target a w → Calls fs w a run →
    run.run (announced target w) = .error f w' → Caught f

/-- Whatever stands for the document is looked at last. -/
theorem Comes.outcome {v : Value} (h : Comes fs target v w) :
    Outcome fs target ((do
      if (v.mapping? (← get)).isSome then return v
      else Module.refuse (.str target) (.notAMapping ((← get).typeName v)) : Build Value).run w) := by
  change Outcome fs target ((if (v.mapping? w).isSome then return v
    else do Module.refuse (.str target) (.notAMapping ((← get).typeName v)) : Build Value).run w)
  cases mapping : v.mapping? w with
  | none => exact .notAMapping h mapping
  | some es => exact .loaded h mapping

theorem Finds.outcome {a : Module.Attribute} (ordinary : Ordinary fs target)
    (h : Finds fs target a w) :
    Outcome fs target ((do
      let doc ← resolve (further fs) target a
      if (doc.mapping? (← get)).isSome then return doc
      else Module.refuse (.str target) (.notAMapping ((← get).typeName doc)) :
        Build Value).run w) := by
  rw [EStateM.run_bind]
  rcases @resolve_run fs target a w with
    ⟨run, calls, resolved⟩ | ⟨v, rfl, uncallable, resolved⟩
  · rw [resolved, called_eq]
    cases result : run.run (announced target w) with
    | error f w' =>
        rw [guarded_failed result (ordinary.builder h calls result)]
        exact .builderFailed h calls result
    | ok v w' =>
        rw [guarded_ok result]
        exact (Comes.returned h calls result).outcome
  · rw [resolved]
    exact (Comes.bound h uncallable).outcome

end Stages

/-! ### A builder that raises an error of this library -/

end OpenApiDoc.Target
