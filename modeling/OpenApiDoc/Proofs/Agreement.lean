import OpenApiDoc.Proofs.Controls
import OpenApiDoc.Proofs.Output

/-! # Printing and writing agree

A document is printed, or written to a file. Both runs load and render it in the same way and part
only when there is a text.

* `Cli.writing` is the command line that asks for a file in a format.
* `Cli.SwitchReading` says what a target can mean that begins with a dash, and `Cli.Alike` what the two
  command lines ask for.
* `Cli.PathNumber` is the number of paths that a run reports.
* `Cli.writing_agrees`: the file holds what the other run prints, and where nothing is printed the
  two runs end alike. -/

namespace OpenApiDoc

/-! ### Paths without null characters -/

namespace Text

/-- Nothing stands in the pieces that does not stand in the text. -/
theorem mem_of_mem_pieces {separator c : Char} {cs p : List Char} (hp : p ∈ pieces separator cs)
    (hc : c ∈ p) : c ∈ cs := by
  have joined : c ∈ [separator].intercalate (pieces separator cs) := by
    obtain ⟨front, back, split⟩ := List.append_of_mem hp
    rw [split]
    clear split hp
    induction front with
    | nil => cases back <;> simp [List.intercalate, hc]
    | cons q front ih =>
        cases front <;> simp_all [List.intercalate]
  rwa [intercalate_pieces] at joined

theorem mem_of_mem_intercalate {c : Char} {separator : List Char} {ps : List (List Char)}
    (h : c ∈ separator.intercalate ps) : c ∈ separator ∨ ∃ p ∈ ps, c ∈ p := by
  induction ps with
  | nil => simp [List.intercalate] at h
  | cons p ps ih =>
      cases ps with
      | nil => exact .inr ⟨p, by simp, by simpa [List.intercalate] using h⟩
      | cons q ps =>
          rw [List.intercalate_cons_cons, List.mem_append, List.mem_append] at h
          rcases h with (h | h) | h
          · exact .inr ⟨p, by simp, h⟩
          · exact .inl h
          · rcases ih h with h | ⟨r, hr, h⟩
            · exact .inl h
            · exact .inr ⟨r, by simp [hr], h⟩

end Text

/-- A text without null characters is the path of a file. -/
theorem Path.usable_of_not_mem {s : String} (h : '\x00' ∉ s.toList) :
    (read s).isUnusable = false := by
  have root : '\x00' ∉ (read s).root.toList := by
    change '\x00' ∉ (rootOf s.toList).toList
    unfold rootOf
    split <;> simp
  have names : ∀ n ∈ (read s).names, '\x00' ∉ n.toList := by
    intro n hn
    obtain ⟨p, hp, rfl⟩ := List.mem_map.mp (List.mem_of_mem_filter hn)
    rw [String.toList_ofList]
    exact fun hc => h (Text.mem_of_mem_pieces hp hc)
  have text : '\x00' ∉ (read s).text.toList := by
    rw [Path.text]
    split
    · simp
    · rw [String.toList_append, List.mem_append, String.toList_intercalate, not_or]
      refine ⟨root, fun hc => ?_⟩
      rcases Text.mem_of_mem_intercalate hc with hc | ⟨p, hp, hc⟩
      · exact absurd hc (by simp)
      · obtain ⟨n, hn, rfl⟩ := List.mem_map.mp hp
        exact names n hn hc
  simpa [isUnusable] using text

namespace Cli

/-! ### What the command lines ask for -/

/-- The arguments that ask for the document of a target, to be written to a file in a format. -/
def writing (target format output : String) : List String :=
  ["build", target, "--format", format, "-o", output]

namespace Command

section Switches

variable (c : Command) {a : String} (h : isSwitch a = true) (notDashes : a ≠ "--")

include h notDashes

theorem parse_refused {e : UsageError} (read : c.readSwitch a = .error e) (rest : List String) :
    c.parse (a :: rest) = .error e := by
  rw [parse.eq_3 c a rest e notDashes read, if_pos h]

theorem parse_complete {new : List (Switch × String)} (read : c.readSwitch a = .ok ⟨new, none⟩)
    (rest : List String) : c.parse (a :: rest) = (c.parse rest).map (.withSwitches new) := by
  rw [parse.eq_4 c a rest new notDashes read, if_pos h]

/-- A switch that takes the next argument for its value. -/
theorem parse_awaiting {new : List (Switch × String)} {s : Switch} {name : String}
    (read : c.readSwitch a = .ok ⟨new, some (s, name)⟩) (v : String) (rest : List String) :
    c.parse (a :: v :: rest) = (c.parse rest).map (.withSwitches (new ++ [(s, v)])) := by
  rw [parse.eq_6 c a new s v rest notDashes name read, if_pos h]

end Switches

end Command

theorem Request.of_build (rest : List String) : of ("build" :: rest) = ofBuild false rest := by
  rw [of, parse_operand program (by simp)]
  rfl

theorem readSwitch_format : Cli.build.readSwitch "--format" = .ok ⟨[], some (.format, "--format")⟩ :=
  rfl

theorem readSwitch_output : Cli.build.readSwitch "-o" = .ok ⟨[], some (.output, "-o")⟩ := by
  have short : ("-o".startsWith "--") = false := by simp
  rw [Command.readSwitch]
  change (if "-o".startsWith "--" then _ else _) = _
  rw [short]
  rfl

theorem parse_file (output : String) :
    Cli.build.parse ["-o", output] = .ok ⟨[(.output, output)], []⟩ := by
  have switch : Command.isSwitch "-o" = true := by simp [Command.isSwitch, ← String.length_toList]
  rw [Command.parse_awaiting _ switch (by simp) readSwitch_output]
  rfl

theorem parse_format_file (format output : String) :
    Cli.build.parse ["--format", format, "-o", output] =
      .ok ⟨[(.format, format), (.output, output)], []⟩ := by
  have switch : Command.isSwitch "--format" = true := by
    simp [Command.isSwitch, ← String.length_toList]
  rw [Command.parse_awaiting _ switch (by simp) readSwitch_format, parse_file]
  rfl

/-- What a target can mean to the command that is read as a switch. -/
inductive SwitchReading (target : String) : Except UsageError Reading → Prop
  /-- There is no such switch, or not with such a value. -/
  | refused (e : UsageError) : SwitchReading target (.error e)
  /-- It asks for help. -/
  | help (asked : target = "--help") : SwitchReading target (.ok ⟨[(.help, "")], none⟩)
  /-- It brings a value of its own. -/
  | valued {s : Switch} (v : String) (switch : s = .output ∨ s = .format)
    (part : ∀ c ∈ v.toList, c ∈ target.toList) : SwitchReading target (.ok ⟨[(s, v)], none⟩)
  /-- It takes the next argument for its value. -/
  | awaiting {s : Switch} (name : String) (switch : s = .output ∨ s = .format) :
    SwitchReading target (.ok ⟨[], some (s, name)⟩)

/-- The name and the value of a switch are parts of it. -/
theorem splitValue_parts (a : String) :
    (∀ v, (Command.splitValue a).2 = some v → ∀ c ∈ v.toList, c ∈ a.toList) ∧
    ((Command.splitValue a).2 = none → (Command.splitValue a).1 = a) := by
  rw [Command.splitValue]
  have whole := List.takeWhile_append_dropWhile (p := (· ≠ '=')) (l := a.toList)
  cases behind : a.toList.dropWhile (· ≠ '=') with
  | nil =>
      rw [behind, List.append_nil] at whole
      exact ⟨by simp, fun _ => by rw [whole, String.ofList_toList]⟩
  | cons e value =>
      refine ⟨fun v hv c hc => ?_, by simp⟩
      cases hv
      rw [String.toList_ofList] at hc
      rw [← whole, behind]
      simp [hc]

theorem readSwitch_reading {target : String} (h : Command.isSwitch target = true) :
    SwitchReading target (Cli.build.readSwitch target) := by
  obtain ⟨part, whole⟩ := splitValue_parts target
  rw [Command.readSwitch]
  generalize Command.splitValue target = split at part whole
  obtain ⟨name, value⟩ := split
  simp only at part whole ⊢
  by_cases output : name = "--output"
  · subst output
    cases value with
    | none => exact .awaiting _ (.inl rfl)
    | some v => exact .valued v (.inl rfl) (part v rfl)
  by_cases format : name = "--format"
  · subst format
    cases value with
    | none => exact .awaiting _ (.inr rfl)
    | some v => exact .valued v (.inr rfl) (part v rfl)
  by_cases help : name = "--help"
  · subst help
    cases value with
    | none => exact .help (whole rfl).symm
    | some v => exact .refused _
  have unknown : (Cli.build.spellings.find? fun s => s.long = name) = none := by
    simp [Cli.build, helpSpelling, Ne.symm output, Ne.symm format, Ne.symm help]
  rw [unknown]
  simp only
  split
  · exact .refused _
  · obtain ⟨d, l, rest, letters⟩ : ∃ d l rest, target.toList = d :: l :: rest := by
      have long : 1 < target.toList.length := by
        simp only [Command.isSwitch, Bool.and_eq_true, decide_eq_true_eq] at h
        exact h.2
      rcases letters : target.toList with _ | ⟨d, _ | ⟨l, rest⟩⟩
      · simp [letters] at long
      · simp [letters] at long
      · exact ⟨d, l, rest, rfl⟩
    rw [letters, List.drop_one, List.tail_cons]
    by_cases file : l = 'o'
    · subst file
      cases rest with
      | nil => exact .awaiting _ (.inl rfl)
      | cons r rs =>
          refine .valued (String.ofList (r :: rs)) (.inl rfl) fun c hc => ?_
          rw [String.toList_ofList] at hc
          simp [letters, hc]
    · have none : (Cli.build.spellings.find? fun s => s.letter = some l) = none := by
        simp [Cli.build, helpSpelling, Ne.symm file]
      rw [Command.readLetters]
      simp only [none]
      exact .refused _

/-- What the two command lines for a target ask for. -/
inductive Alike (target format output : String) : Request → Request → Prop
  /-- The document of the target, to be printed and to be written. -/
  | document : Alike target format output (.build false ⟨target, none, format⟩)
    (.build false ⟨target, some output, format⟩)
  /-- The target takes the switch behind it for its value, and the format stands in its place. -/
  | displaced (own : String) : Alike target format output
    (.build false ⟨format, some own, Document.defaultFormat⟩)
    (.build false ⟨format, some output, Document.defaultFormat⟩)
  | help (asked : target = "--help") : Alike target format output (.help buildHelp) (.help buildHelp)
  | complaint (text : String) : Alike target format output (.complaint text) (.complaint text)

theorem checkFormat_known {format : String} (known : format ∈ Document.formats) :
    checkFormat format = .ok () := if_pos (by simpa using known)

theorem checkOutput_usable {output : String} (usable : (Path.read output).isUnusable = false) :
    checkOutput (some output) = .ok () := by simp [checkOutput, usable]

section Switches

variable {args : List String} {p : Parsed} (parsed : Cli.build.parse args = .ok p)
  (helpless : p.has .help = false)

include parsed helpless

theorem Request.ofBuild_ok {r : BuildRequest} (request : BuildRequest.of p = .ok r) :
    ofBuild false args = .build false r := by
  rw [ofBuild, parsed]
  simp only [helpless, request, Bool.false_eq_true, if_false]

theorem Request.ofBuild_usage {e : UsageError} (request : BuildRequest.of p = .error (.usage e)) :
    ofBuild false args = .complaint (Cli.build.complaint e) := by
  rw [ofBuild, parsed]
  simp only [helpless, request, Bool.false_eq_true, if_false]

end Switches

/-- When the switches have passed, there must be one operand. -/
theorem BuildRequest.of_checked {p : Parsed}
    (known : checkFormat ((p.value? .format).getD Document.defaultFormat) = .ok ())
    (usable : checkOutput (p.value? .output) = .ok ()) :
    BuildRequest.of p = match p.operands with
      | [] => .error (.usage (.missingArgument "TARGET"))
      | [target] =>
        .ok ⟨target, p.value? .output, (p.value? .format).getD Document.defaultFormat⟩
      | _ :: extra => .error (.usage (.extraArguments extra)) := by
  rw [BuildRequest.of]
  simp only [known, usable, ite_self]
  rfl

section Requests

variable {target format output : String} (known : format ∈ Document.formats)
  (usable : (Path.read output).isUnusable = false)

include known usable

theorem ofBuild_of_operand (operand : Command.isSwitch target = false) :
    Request.ofBuild false [target, "--format", format] = .build false ⟨target, none, format⟩ ∧
    Request.ofBuild false [target, "--format", format, "-o", output] =
      .build false ⟨target, some output, format⟩ := by
  have printed := parse_format format
  have written := parse_format_file format output
  have first : Cli.build.parse [target, "--format", format] =
      .ok ⟨[(.format, format)], [target]⟩ := by
    rw [Command.parse_of_not_switch _ operand, printed]
    rfl
  have second : Cli.build.parse [target, "--format", format, "-o", output] =
      .ok ⟨[(.format, format), (.output, output)], [target]⟩ := by
    rw [Command.parse_of_not_switch _ operand, written]
    rfl
  exact ⟨Request.ofBuild_ok first rfl (BuildRequest.of_checked (checkFormat_known known) rfl),
    Request.ofBuild_ok second rfl
      (BuildRequest.of_checked (checkFormat_known known) (checkOutput_usable usable))⟩

theorem alike_of_switch (switch : Command.isSwitch target = true) (notDashes : target ≠ "--")
    (null : '\x00' ∉ target.toList) :
    Alike target format output (.ofBuild false [target, "--format", format])
      (.ofBuild false [target, "--format", format, "-o", output]) := by
  have printed := parse_format format
  have written := parse_format_file format output
  have plain : Command.isSwitch format = false := by
    simp only [Document.formats, List.mem_cons, List.not_mem_nil, or_false] at known
    rcases known with rfl | rfl <;> simp [Command.isSwitch]
  have known := checkFormat_known known
  have usable := checkOutput_usable usable
  generalize read : Cli.build.readSwitch target = reading
  cases read ▸ readSwitch_reading switch with
  | refused e =>
      rw [Request.ofBuild, Request.ofBuild, Command.parse_refused _ switch notDashes read,
        Command.parse_refused _ switch notDashes read]
      exact .complaint _
  | help asked =>
      rw [Request.ofBuild, Request.ofBuild, Command.parse_complete _ switch notDashes read,
        Command.parse_complete _ switch notDashes read, printed, written]
      exact .help asked
  | @valued s v kind part =>
      have first := Command.parse_complete _ switch notDashes read ["--format", format]
      have second := Command.parse_complete _ switch notDashes read ["--format", format, "-o", output]
      rw [printed] at first
      rw [written] at second
      have own : checkOutput (some v) = .ok () :=
        checkOutput_usable (Path.usable_of_not_mem fun h => null (part _ h))
      rcases kind with rfl | rfl
      · rw [Request.ofBuild_usage first rfl (BuildRequest.of_checked known own),
          Request.ofBuild_usage second rfl (BuildRequest.of_checked known usable)]
        exact .complaint _
      · rw [Request.ofBuild_usage first rfl (BuildRequest.of_checked known rfl),
          Request.ofBuild_usage second rfl (BuildRequest.of_checked known usable)]
        exact .complaint _
  | @awaiting s name kind =>
      have first := Command.parse_awaiting _ switch notDashes read "--format" [format]
      have second := Command.parse_awaiting _ switch notDashes read "--format" [format, "-o", output]
      rw [Command.parse_of_not_switch _ plain] at first second
      rw [parse_file] at second
      rcases kind with rfl | rfl
      · have own : checkOutput (some "--format") = .ok () :=
          checkOutput_usable (Path.usable_of_not_mem (by simp))
        rw [Request.ofBuild_ok first rfl (BuildRequest.of_checked rfl own),
          Request.ofBuild_ok second rfl (BuildRequest.of_checked rfl usable)]
        exact .displaced _
      · rw [Request.ofBuild_usage first rfl rfl, Request.ofBuild_usage second rfl rfl]
        exact .complaint _

end Requests

/-- What the two command lines ask for, whatever the target is. -/
theorem requests_alike {target format output : String} (known : format ∈ Document.formats)
    (usable : (Path.read output).isUnusable = false)
    (readable : Command.isSwitch target = true → target ≠ "--" ∧ '\x00' ∉ target.toList) :
    Alike target format output (.of (printing target format))
      (.of (writing target format output)) := by
  rw [printing, writing, Request.of_build, Request.of_build]
  cases switch : Command.isSwitch target with
  | false =>
      obtain ⟨first, second⟩ := ofBuild_of_operand known usable switch
      rw [first, second]
      exact .document
  | true =>
      obtain ⟨notDashes, null⟩ := readable switch
      exact alike_of_switch known usable switch notDashes null

/-! ### How the runs end -/

/-- The number of paths of a document without paths, or with a mapping of them. -/
inductive PathNumber (w : World) (doc : Value) : Nat → Prop
  | absent {es : Entries} (read : doc.mapping? w = some es)
    (missing : Entries.find? w.sameKey es (.str "paths") = none) : PathNumber w doc 0
  | mapping {es ps : Entries} {paths : Value} (read : doc.mapping? w = some es)
    (found : Entries.find? w.sameKey es (.str "paths") = some paths)
    (entries : paths.mapping? w = some ps) : PathNumber w doc ps.length

theorem PathNumber.pathCount {w : World} {doc : Value} {n : Nat} (h : PathNumber w doc n) :
    pathCount w doc = .ok n := by
  cases h with
  | absent read missing => simp [Cli.pathCount, read, missing]
  | @mapping es ps paths read found entries =>
      obtain ⟨a, rfl, hg⟩ := Value.eq_obj_of_mapping? entries
      simp [Cli.pathCount, read, found, size, hg]

/-- What is reported of a document that has been written. -/
def report (n : Nat) (path : Path) : String :=
  Terminal.lines (Terminal.plain ("Wrote " ++ Nat.repr n ++ " paths to " ++ path.text ++ "\n"))

/-- The statuses with which a builder ends a run as one that has done what it was asked for. -/
def quietStatuses : List (List Value) := [[], [.none], [.int 0], [.bool false]]

/-- A fault that ends a run without an error is the end that a builder asks for. -/
theorem quiet_of_status {w : World} {log : String} {f : Fault}
    (h : (RunResult.ofFault w log f).status = 0) :
    ∃ args ∈ quietStatuses, f = .raised "SystemExit" args := by
  unfold RunResult.ofFault at h
  split at h
  · cases h
  next status =>
    refine ⟨status, ?_, rfl⟩
    unfold RunResult.ended at h
    split at h
    · decide
    · decide
    next i =>
      simp only at h
      subst h
      decide
    next b =>
      cases b
      · decide
      · cases h
    · cases h
  · cases h
  · cases h

/-- How a run that prints the document of a target and one that writes it agree. -/
inductive Agree (fs : Files) (target format : String) (path : Path) (place : Option (List String))
    (a b : RunResult) : Prop
  /-- The text that one of them prints is what the other one writes, and all that it writes. -/
  | text {doc : Value} {text : String} {w w' : World}
    (loaded : (Target.document fs (.str target)).run .initial = .ok doc w)
    (rendered : (Document.render doc (.str format)).run w = .ok text w')
    (printed : a = ⟨0, text, "", none, none⟩) (silent : b.stdout = "")
    (written : b.written = some ⟨path, place, text⟩)
    (reported : ∀ n, PathNumber w' doc n → b = ⟨0, "", report n path, none, b.written⟩)
  /-- The code of a module ends both runs before there is a document, and without an error. -/
  | ended {args : List Value} {w : World} (quiet : args ∈ quietStatuses)
    (loading : (Target.document fs (.str target)).run .initial = .error (.raised "SystemExit" args) w)
    (result : a = ⟨0, "", "", none, none⟩) (same : b = a)
  /-- Both are asked for help. -/
  | helped (asked : target = "--help")
    (result : a = ⟨0, Terminal.lines buildHelp, "", none, none⟩) (same : b = a)
  /-- Both fail alike. -/
  | failed (fails : a.status ≠ 0) (unwritten : a.written = none) (same : b = a)

/-- Writing a text reports the number of paths, if there is one. -/
theorem writeTo_text {fs : Files} {output : String} {place : Option (List String)}
    (writable : fs.outputPlace (.read output) = .ok place) (w : World) (doc : Value)
    (text : String) :
    let r := (writeTo fs w doc text output "").withLines
    r.stdout = "" ∧ r.written = some ⟨.read output, place, text⟩ ∧
      ∀ n, PathNumber w doc n → r = ⟨0, "", report n (.read output), none, r.written⟩ := by
  simp only [writeTo, writable]
  cases counted : pathCount w doc with
  | error m =>
      refine ⟨rfl, rfl, fun n h => ?_⟩
      rw [h.pathCount] at counted
      cases counted
  | ok k =>
      refine ⟨rfl, rfl, fun n h => ?_⟩
      rw [h.pathCount] at counted
      cases counted
      simp [RunResult.withLines, report]
      rfl

section Texts

variable {fs : Files} {r : BuildRequest} {doc : Value} {w w' : World} {f : Fault}

/-- A run that comes to no text ends by the fault, wherever the text was to go. -/
theorem runBuild_error (h : (rendered fs r).run .initial = .error f w) :
    runBuild fs false r = .ofFault w "" f := by
  rw [runBuild, h]
  rfl

theorem rendered_of_unloaded (h : (Target.document fs (.str r.target)).run .initial = .error f w) :
    (rendered fs r).run .initial = .error f w := by
  rw [rendered, EStateM.run_bind, h]

theorem rendered_of_loaded (h : (Target.document fs (.str r.target)).run .initial = .ok doc w) :
    (rendered fs r).run .initial = match (Document.render doc (.str r.format)).run w with
      | .ok text w' => .ok (doc, text) w'
      | .error f w' => .error f w' := by
  rw [rendered, EStateM.run_bind, h]
  simp only
  rw [EStateM.run_bind]
  cases (Document.render doc (.str r.format)).run w <;> rfl

/-- A target without a colon names no document, and the formats are such targets. -/
theorem rendered_of_format (fs : Files) (known : r.target ∈ Document.formats) :
    (rendered fs r).run .initial =
      .error (.document (.targetLoad (.str r.target) .malformed)) .initial := by
  have malformed : Target.split? r.target = none := by
    simp only [Document.formats, List.mem_cons, List.not_mem_nil, or_false] at known
    rcases known with known | known <;> rw [known] <;> decide +kernel
  rw [rendered, Target.document_of_malformed malformed]
  rfl

end Texts

section Agreement

variable {fs : Files} {target format output : String} {place : Option (List String)} {w : World}

/-- Two runs that come to no text, and from the same fault, agree. -/
theorem Agree.of_fault {path : Path} {f : Fault}
    (loading : (RunResult.ofFault w "" f).status = 0 →
      (Target.document fs (.str target)).run .initial = .error f w) :
    Agree fs target format path place (RunResult.ofFault w "" f).withLines
      (RunResult.ofFault w "" f).withLines := by
  by_cases status : (RunResult.ofFault w "" f).status = 0
  · obtain ⟨args, quiet, rfl⟩ := quiet_of_status status
    refine .ended quiet (loading status) ?_ rfl
    simp only [quietStatuses, List.mem_cons, List.not_mem_nil, or_false] at quiet
    rcases quiet with rfl | rfl | rfl | rfl <;> rfl
  · exact .failed status (RunResult.ofFault_written w "" f) rfl

/-- Where the document is loaded, the two runs part when it is rendered. -/
theorem Agree.of_loaded {doc : Value} (known : format ∈ Document.formats)
    (writable : fs.outputPlace (.read output) = .ok place)
    (loaded : (Target.document fs (.str target)).run .initial = .ok doc w) :
    Agree fs target format (.read output) place
      (runBuild fs false ⟨target, none, format⟩).withLines
      (runBuild fs false ⟨target, some output, format⟩).withLines := by
  have both (o : Option String) := rendered_of_loaded (r := ⟨target, o, format⟩) loaded
  simp only at both
  cases done : (Document.render doc (.str format)).run w with
  | ok text w' =>
      simp only [done] at both
      obtain ⟨silent, written, reported⟩ := writeTo_text writable w' doc text
      have first : (runBuild fs false ⟨target, none, format⟩).withLines =
          ⟨0, text, "", none, none⟩ := by
        rw [runBuild, both]
        simp only [RunResult.withLines, Terminal.lines_of_clear (Document.render_clear done)]
        rfl
      have second : runBuild fs false ⟨target, some output, format⟩ =
          writeTo fs w' doc text output "" := by
        rw [runBuild, both]
        rfl
      rw [second]
      exact .text loaded done first silent written reported
  | error f w' =>
      simp only [done] at both
      rw [runBuild_error (both none), runBuild_error (both (some output))]
      have gap := Document.render_error (Target.document_ok loaded) known done
      refine .of_fault fun status => ?_
      cases gap <;> cases status

/-- Printing and writing the document of a target agree. -/
theorem writing_agrees (fs : Files) (known : format ∈ Document.formats)
    (readable : Command.isSwitch target = true → target ≠ "--" ∧ '\x00' ∉ target.toList)
    (usable : (Path.read output).isUnusable = false)
    (writable : fs.outputPlace (.read output) = .ok place) :
    Agree fs target format (.read output) place (run fs (printing target format))
      (run fs (writing target format output)) := by
  have alike := requests_alike known usable readable
  rw [run, run]
  generalize Request.of (printing target format) = first at alike ⊢
  generalize Request.of (writing target format output) = second at alike ⊢
  cases alike with
  | document =>
      rw [perform, perform]
      cases loaded : (Target.document fs (.str target)).run .initial with
      | ok doc w => exact .of_loaded known writable loaded
      | error f w =>
          have stuck (o : Option String) := rendered_of_unloaded (r := ⟨target, o, format⟩) loaded
          rw [runBuild_error (stuck none), runBuild_error (stuck (some output))]
          exact .of_fault fun _ => loaded
  | displaced own =>
      have stuck (o : Option String) :=
        rendered_of_format (r := ⟨format, o, Document.defaultFormat⟩) fs known
      rw [perform, perform, runBuild_error (stuck (some own)), runBuild_error (stuck (some output))]
      exact .of_fault fun status => by cases status
  | help asked => exact .helped asked rfl rfl
  | complaint text =>
      exact .failed (by simp [perform, RunResult.failed, RunResult.withLines]) rfl rfl

end Agreement

/-! ### Runs -/

/-- A module that binds the name `d` to a document with one path. -/
def pathed : Files :=
  ⟨[(["a.py"], [("d", .mapping [(.atom (.str "paths"),
    .mapping [(.atom (.str "/a"), .mapping [])])])])]⟩

theorem usable_file : (Path.read "o.yaml").isUnusable = false :=
  Path.usable_of_not_mem (by simp)

theorem agree_pathed :
    ("yaml" ∈ Document.formats ∧ (Path.read "o.yaml").isUnusable = false ∧
      pathed.outputPlace (.read "o.yaml") = .ok (some ["o.yaml"]) ∧
      Agree pathed "a.py:d" "yaml" (.read "o.yaml") (some ["o.yaml"])
        (run pathed (printing "a.py:d" "yaml")) (run pathed (writing "a.py:d" "yaml" "o.yaml"))) ∧
    run pathed (printing "a.py:d" "yaml") = ⟨0, "paths:\n  /a: \x7b\x7d\n", "", none, none⟩ := by
  have known : "yaml" ∈ Document.formats := by decide
  have writable : pathed.outputPlace (.read "o.yaml") = .ok (some ["o.yaml"]) := by decide +kernel
  have operand : Command.isSwitch "a.py:d" = false := by simp [Command.isSwitch]
  refine ⟨⟨known, usable_file, writable,
    writing_agrees pathed known (by simp [operand]) usable_file writable⟩, ?_⟩
  rw [run, of_printing (by simp) known, perform, runBuild, rendered, pathed, document_alone]
  decide +kernel

/-- A complaint in clear text is shown as it is. -/
theorem stderr_of_complaint (fs : Files) {args : List String} {text : String}
    (request : Request.of args = .complaint text) (clear : Text.Clear text.toList) :
    (run fs args).stderr = text := by
  rw [run, request, perform, RunResult.failed, RunResult.withLines]
  simp only [String.empty_append, Terminal.plain_of_clear clear, Terminal.lines_of_clear clear]

/-- A module whose code ends the run. -/
def quitting : Files := ⟨[(["a.py"], [("d", .builder (.raise "SystemExit" [.atom (.int 0)]))])]⟩

/-- A run can end without an error and without a document, and command lines can differ in more than
the place of the text when the target is taken for a switch. -/
theorem run_quitting :
    (run quitting (printing "a.py:d" "yaml") = ⟨0, "", "", none, none⟩ ∧
      run quitting (writing "a.py:d" "yaml" "o.yaml") = ⟨0, "", "", none, none⟩) ∧
    ((run pathed (printing "--help" "yaml")).status = 0 ∧
      (run pathed (writing "--help" "yaml" "o.yaml")).written = none) ∧
    ((run pathed (printing "--" "yaml")).status = 2 ∧
      (run pathed (printing "--" "yaml")).stderr ≠
        (run pathed (writing "--" "yaml" "o.yaml")).stderr) ∧
    (run pathed (printing "-o\x00" "yaml")).escaped = some "ValueError" ∧
      (run pathed (writing "-o\x00" "yaml" "o.yaml")).escaped = none := by
  have operand : Command.isSwitch "a.py:d" = false := by simp [Command.isSwitch]
  have switch : Command.isSwitch "-o\x00" = true := by
    simp [Command.isSwitch, ← String.length_toList]
  have asked := @ofBuild_of_operand _ "yaml" _ (by decide) usable_file operand
  have null : checkOutput (some "\x00") = .error .unusablePath := by
    have text : (Path.read "\x00").text = "\x00" := by
      simp [Path.read, Path.text, Path.rootOf, Text.pieces]
    simp [checkOutput, Path.isUnusable, text]
  have letter : Cli.build.readSwitch "-o\x00" = .ok ⟨[(.output, "\x00")], none⟩ := by
    have short : ("-o\x00".startsWith "--") = false := by simp
    rw [Command.readSwitch]
    change (if "-o\x00".startsWith "--" then _ else _) = _
    rw [short]
    rfl
  have reading := Command.parse_complete _ switch (by simp) letter
  refine ⟨⟨?_, ?_⟩, ⟨by decide +kernel, by decide +kernel⟩, ⟨by decide +kernel, ?_⟩, ?_, ?_⟩
  · rw [run, printing, Request.of_build, asked.1, perform, runBuild, rendered, quitting,
      document_alone]
    decide +kernel
  · rw [run, writing, Request.of_build, asked.2, perform, runBuild, rendered, quitting,
      document_alone]
    decide +kernel
  · have first : Request.of (printing "--" "yaml") =
        .complaint (build.complaint (.extraArguments ["yaml"])) := by decide +kernel
    have second : Request.of (writing "--" "yaml" "o.yaml") =
        .complaint (build.complaint (.extraArguments ["yaml", "-o", "o.yaml"])) := by decide +kernel
    rw [stderr_of_complaint pathed first (Text.clear_of_all (by decide +kernel)),
      stderr_of_complaint pathed second (Text.clear_of_all (by decide +kernel))]
    decide +kernel
  · have first := reading ["--format", "yaml"]
    rw [parse_format] at first
    have refused : BuildRequest.of (.withSwitches [(.output, "\x00")] ⟨[(.format, "yaml")], []⟩) =
        .error .unusablePath := by
      rw [BuildRequest.of]
      change (do
        checkOutput (some "\x00")
        checkFormat "yaml"
        _) = _
      rw [null]
      rfl
    rw [run, printing, Request.of_build, Request.ofBuild, first]
    simp only [Except.map, refused]
    rfl
  · have second := reading ["--format", "yaml", "-o", "o.yaml"]
    rw [parse_format_file] at second
    rw [run, writing, Request.of_build, Request.ofBuild_usage second rfl
      (BuildRequest.of_checked rfl (checkOutput_usable usable_file))]
    rfl

end Cli
end OpenApiDoc
