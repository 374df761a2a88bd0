import OpenApiDoc.Proofs.Commands

/-! # What a failing run leaves behind

A run writes at most one file, and it does so behind everything else but the report of what it has
written. The report counts the paths of the document, which need not have a length.

* `Cli.RunResult.Fails` says that a run ends with another status than zero, or that a failure escapes
  from it.
* `Cli.Unsized` values have no number of parts (`Cli.size_error_iff`).
* `Cli.Uncounted` describes the command lines whose document is written and holds such a value under
  `paths`.
* `Cli.run_fails_written_iff`: these are the runs that fail and leave a file behind. -/

namespace OpenApiDoc.Cli

/-- The run does not end as one that has done what it was asked for. -/
def RunResult.Fails (r : RunResult) : Prop := r.status ≠ 0 ∨ r.escaped.isSome

@[simp] theorem RunResult.withLines_written (r : RunResult) : r.withLines.written = r.written := rfl

@[simp] theorem RunResult.fails_withLines (r : RunResult) : r.withLines.Fails ↔ r.Fails := .rfl

/-- However a run ends by a fault, nothing is written. -/
theorem RunResult.ofFault_written (w : World) (log : String) (f : Fault) :
    (RunResult.ofFault w log f).written = none := by
  unfold RunResult.ofFault
  split
  · rfl
  · unfold RunResult.ended
    split <;> rfl
  · rfl
  · rfl

/-- A value that is neither a text nor bytes nor a collection. -/
structure Unsized (w : World) (v : Value) : Prop where
  text : ∀ s, v ≠ .str s
  bytes : ∀ bs, v ≠ .bytes bs
  mapping : v.mapping? w = none
  items : v.items? w = none

theorem size_error_iff {w : World} {v : Value} : (∃ m, size w v = .error m) ↔ Unsized w v := by
  constructor
  · rintro ⟨m, h⟩
    cases v with
    | atom a =>
        cases a with
        | str s => cases h
        | bytes bs => cases h
        | _ => exact ⟨by simp, by simp, rfl, rfl⟩
    | obj a =>
        cases hg : w.get a with
        | mapping es => simp [size, hg] at h
        | list xs => simp [size, hg] at h
        | tuple xs => simp [size, hg] at h
        | _ => exact ⟨by simp, by simp, by simp [Value.mapping?, hg], by simp [Value.items?, hg]⟩
  · rintro ⟨text, bytes, mapping, items⟩
    cases v with
    | atom a => cases a <;> simp_all [size]
    | obj a => cases hg : w.get a <;> simp_all [size, Value.mapping?, Value.items?]

/-- The paths of a document cannot be counted if what stands for them has no number of parts. -/
theorem pathCount_error_iff {w : World} {doc : Value} :
    (∃ m, pathCount w doc = .error m) ↔ ∃ es v, doc.mapping? w = some es ∧
      Entries.find? w.sameKey es (.str "paths") = some v ∧ Unsized w v := by
  constructor
  · rintro ⟨m, h⟩
    unfold pathCount at h
    split at h
    · cases h
    next v found =>
      cases read : doc.mapping? w with
      | none => simp [read, Entries.find?] at found
      | some es => exact ⟨es, v, rfl, by simpa [read] using found, size_error_iff.mp ⟨m, h⟩⟩
  · rintro ⟨es, v, read, paths, unsized⟩
    obtain ⟨m, uncountable⟩ := size_error_iff.mpr unsized
    exact ⟨m, by simp [pathCount, read, paths, uncountable]⟩

/-- A document is loaded, rendered and written for the command line, and what it has under `paths`
has no number of parts. -/
inductive Uncounted (fs : Files) (args : List String) : Prop
  | intro {verbose : Bool} {r : BuildRequest} {doc : Value} {text output : String} {w : World}
    {place : Option (List String)} {es : Entries} {v : Value}
    (request : Request.of args = .build verbose r) (file : r.output = some output)
    (done : (rendered fs r).run .initial = .ok (doc, text) w)
    (writable : fs.outputPlace (.read output) = .ok place) (read : doc.mapping? w = some es)
    (paths : Entries.find? w.sameKey es (.str "paths") = some v) (unsized : Unsized w v)

/-- Writing fails behind the file only if the paths cannot be counted. -/
theorem writeTo_fails_written {fs : Files} {w : World} {doc : Value} {text output log : String}
    (fails : (writeTo fs w doc text output log).Fails)
    (written : (writeTo fs w doc text output log).written.isSome) :
    ∃ place m, fs.outputPlace (.read output) = .ok place ∧ pathCount w doc = .error m := by
  unfold writeTo at fails written
  cases hp : fs.outputPlace (.read output) with
  | error e => simp [hp, RunResult.escape] at written
  | ok place =>
      cases hc : pathCount w doc with
      | error m => exact ⟨place, m, rfl, rfl⟩
      | ok n => simp [hp, hc, RunResult.Fails] at fails

/-- A run fails and leaves a file behind exactly if the paths of what it has written cannot be
counted. -/
theorem run_fails_written_iff (fs : Files) (args : List String) :
    ((run fs args).Fails ∧ (run fs args).written.isSome) ↔ Uncounted fs args := by
  rw [run, RunResult.fails_withLines, RunResult.withLines_written]
  constructor
  · rintro ⟨fails, written⟩
    cases request : Request.of args with
    | help text => simp [request, perform] at written
    | nothing => simp [request, perform, RunResult.failed] at written
    | complaint text => simp [request, perform, RunResult.failed] at written
    | escape kind => simp [request, perform, RunResult.escape] at written
    | build verbose r =>
        rw [request, perform, runBuild] at fails written
        cases done : (rendered fs r).run .initial with
        | error f w => simp [done, RunResult.ofFault_written] at written
        | ok p w =>
            cases file : r.output with
            | none => simp [done, file] at written
            | some output =>
                simp only [done, file] at fails written
                obtain ⟨place, m, writable, uncounted⟩ := writeTo_fails_written fails written
                obtain ⟨es, v, read, paths, unsized⟩ := pathCount_error_iff.mp ⟨m, uncounted⟩
                exact ⟨request, file, done, writable, read, paths, unsized⟩
  · rintro @⟨verbose, r, doc, text, output, w, place, es, v, request, file, done, writable, read,
      paths, unsized⟩
    obtain ⟨m, uncounted⟩ := pathCount_error_iff.mpr ⟨es, v, read, paths, unsized⟩
    have result : perform fs (Request.of args) = .escape m.kind
        (if verbose then RunResult.logText w.log else "") (some ⟨.read output, place, text⟩) := by
      simp [request, perform, runBuild, done, file, writeTo, writable, uncounted]
    rw [result]
    exact ⟨.inr rfl, rfl⟩

/-! ### A document whose paths cannot be counted -/

theorem parse_output (output : String) :
    Cli.build.parse ["--output", output] = .ok ⟨[(.output, output)], []⟩ := by
  have switch : Command.isSwitch "--output" = true := by decide +kernel
  rw [Command.parse.eq_def]
  change (if Command.isSwitch "--output" then _ else _) = _
  rw [if_pos switch]
  rfl

/-- The arguments that ask for the document of a target, to be written to a file. -/
theorem of_writing {target output : String} (operand : target.startsWith "-" = false)
    (usable : (Path.read output).isUnusable = false) :
    Request.of ["build", target, "--output", output] =
      .build false ⟨target, some output, Document.defaultFormat⟩ := by
  have command : ("build".startsWith "-") = false := by decide +kernel
  have outer := parse_operand program command [target, "--output", output]
  have inner : Cli.build.parse [target, "--output", output] =
      .ok ⟨[(.output, output)], [target]⟩ := by
    rw [parse_operand _ operand, parse_output]
    rfl
  have accepted : BuildRequest.of ⟨[(.output, output)], [target]⟩ =
      .ok ⟨target, some output, Document.defaultFormat⟩ := by
    have checked : checkOutput (some output) = .ok () := by simp [checkOutput, usable]
    change (do
      checkOutput (some output)
      checkFormat Document.defaultFormat
      pure (⟨target, some output, Document.defaultFormat⟩ : BuildRequest)) = _
    rw [checked]
    rfl
  rw [Request.of, outer]
  change Request.ofBuild false [target, "--output", output] = _
  rw [Request.ofBuild, inner]
  simp only [accepted]
  rfl

/-- A module that binds the name `d` to a mapping with a number under `paths`. -/
def numbered : Files := ⟨[(["a.py"], [("d", .mapping [(.atom (.str "paths"), .atom (.int 5))])])]⟩

/-- A run fails, and leaves the text of its document behind. -/
theorem run_numbered :
    run numbered ["build", "a.py:d", "--output", "o.yaml"] =
      ⟨1, "", "", some "TypeError", some ⟨⟨"", ["o.yaml"]⟩, some ["o.yaml"], "paths: 5\n"⟩⟩ := by
  have path : Path.read "o.yaml" = ⟨"", ["o.yaml"]⟩ := by decide +kernel
  have usable : (Path.read "o.yaml").isUnusable = false := by
    have text : (Path.read "o.yaml").text = "o.yaml" := by decide +kernel
    simp [Path.isUnusable, text]
  rw [run, of_writing (by decide +kernel) usable, perform, runBuild, rendered, numbered,
    document_alone]
  simp only [writeTo, path]
  decide +kernel

end OpenApiDoc.Cli
