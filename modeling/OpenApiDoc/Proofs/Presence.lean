import OpenApiDoc.Proofs.Embedded
import OpenApiDoc.Proofs.OperationObjects
import OpenApiDoc.Proofs.Rebuilding

/-! # What calls leave out

Calls for responses, request bodies, operations and documents, however their arguments are passed: a
field is there just in case its argument is not the absent value, and further entries replace fields in
their places.

* `Build.Answers` says that there is a result if arguments will do, and what every result is.
* `Call.answers_supplied` is about all these calls. -/

namespace OpenApiDoc

open Build World

variable {w w' : World} {v u : Value}

/-- If the arguments will do, the step gives a result. Every result has the property. -/
structure Build.Answers (act : Build Value) (w : World) (accepted : Prop) (Q : Value → World → Prop) :
    Prop where
  gives : accepted → ∃ u w', act.run w = .ok u w'
  holds : ∀ u w', act.run w = .ok u w' → Q u w'

theorem Build.Gives.answers {act : Build Value} {accepted : Prop} {P Q : Value → World → Prop}
    (gives : accepted → act.Gives w P) (holds : ∀ u w', act.run w = .ok u w' → Q u w') :
    act.Answers w accepted Q :=
  ⟨fun h => (gives h).imp fun _ h => h.imp fun _ h => h.1, holds⟩

namespace Call

open Signature

/-- The arguments of an operation. -/
def operationArguments (b : Bound) : Operation.Given where
  method := b.arg "method"
  path := b.arg "path"
  responses := b.arg "responses"
  operationId := b.arg "operation_id"
  summary := b.arg "summary"
  tags := b.arg "tags"
  parameters := b.arg "parameters"
  requestBody := b.arg "request_body"
  extra := b.arg "extra"

/-- The arguments of a response will do, one by one. -/
structure AcceptedResponse (w : World) (b : Bound) : Prop where
  description : w.IsData (b.arg "description")
  type : w.IsKey (b.arg "type")
  headers : w.Accepts Tree.detached? (b.arg "headers")
  links : w.Accepts Tree.detached? (b.arg "links")
  media : (mediaOf b).Accepted w

/-- The arguments of a request body will do, one by one. -/
structure AcceptedBody (w : World) (b : Bound) : Prop where
  type : w.IsKey (b.arg "type")
  description : w.IsData (b.arg "description")
  required : w.IsData (b.arg "required")
  media : (mediaOf b).Accepted w

/-- The parameters of the method that writes an operation. -/
def toDict : Signature := .of (Model.operation.name ++ "." ++ "to_dict") [itself] ["default_id"]

/-- The method that writes an operation does so under the identifier that it is given. -/
theorem emitOperation_eq (load : Value → Build Value) {rest : List Value}
    {named : List (String × Value)} {b : Bound} (fits : toDict.bind? (v :: rest) named = .ok b)
    {op : Operation} (found : Operation.of? w v = some op) :
    (invoke load .emitOperation (v :: rest) named).run w = (op.emit (b.arg "default_id")).run w := by
  have bound : toDict.bind (v :: rest) named = pure b := by rw [Signature.bind, fits]
  change (method .operation "to_dict" [] ["default_id"] Operation.of?
    (fun _ op b => op.emit (b.arg "default_id")) (v :: rest) named).run w = _
  rw [method, EStateM.run_bind, EStateM.run_get]
  simp only [found]
  change (toDict.bind (v :: rest) named >>= fun b => op.emit (b.arg "default_id")).run w = _
  rw [bound, pure_bind]

section answers

variable (load : Value → Build Value) (ho : w.Owned)

include ho

/-- However it is called, `response` gives a response with the fields that are supplied. -/
theorem response_answers {callee : Callee} {args : List Value} {named : List (String × Value)}
    {b : Bound} (runs : Runs callee args named response b) :
    (invoke load callee args named).Answers w (AcceptedResponse w b) fun u w' =>
      w'.Lays (Response.slots w (b.arg "description") (b.arg "type") (b.arg "headers") (b.arg "links")
        (mediaOf b)) u := by
  rw [runs.invoke]
  exact Gives.answers (fun h => Response.response_accepts ho h.description h.type h.headers h.links
    h.media) fun u w' => Response.response_lays ho

theorem body_answers {callee : Callee} {args : List Value} {named : List (String × Value)}
    {b : Bound} (runs : Runs callee args named requestBody b) :
    (invoke load callee args named).Answers w (AcceptedBody w b) fun u w' =>
      w'.Lays (Response.bodySlots w (b.arg "type") (b.arg "description") (b.arg "required")
        (mediaOf b)) u := by
  rw [runs.invoke]
  exact Gives.answers (fun h => Response.body_accepts ho h.type h.description h.required h.media)
    fun u w' => Response.body_lays ho

theorem operation_answers {callee : Callee} {args : List Value} {named : List (String × Value)}
    {b : Bound} (runs : Runs callee args named operation b) :
    (invoke load callee args named).Answers w ((operationArguments b).Accepted w) fun v w₁ =>
      ∀ rest named' d, toDict.bind? (v :: rest) named' = .ok d →
        (invoke load .emitOperation (v :: rest) named').Answers w₁ ((operationArguments b).Accepted w)
          fun u w₂ => ∃ fs gs,
            w₂.Fills (Operation.slots w (operationArguments b) (d.arg "default_id")) fs ∧
            Operation.CopiesNames w (b.arg "extra") w₂ gs ∧ Operation.LaysNames w₂ fs gs u := by
  rw [runs.invoke]
  change ((operationArguments b).build).Answers w _ _
  refine Gives.answers (Operation.Given.build_accepts ho) fun v w₁ run rest named' d fits => ?_
  obtain ⟨k, a, op, rfl, hg, stores⟩ := Operation.Given.build_stores ho run
  have found : Operation.of? w₁ (.obj a) = some op := by rw [Operation.of?, hg]
  refine ⟨fun accepted => ?_, fun u w₂ emitted => ?_⟩
  · obtain ⟨-, V, shown⟩ := (Operation.Given.build_accepts ho accepted).ok run
    obtain ⟨a', op', same, hg', held⟩ := Operation.View.held shown
    cases same
    cases hg.symm.trans hg'
    obtain ⟨u, w₂, emitted, -⟩ := held.emit_gives (k.owned ho) (held.isOperation shown.1 hg)
      (d.arg "default_id")
    exact ⟨u, w₂, (emitOperation_eq load fits found).trans emitted⟩
  · exact stores.emit_lays (k.owned ho) ((emitOperation_eq load fits found).symm.trans emitted)

theorem document_answers {callee : Callee} {args : List Value} {named : List (String × Value)}
    {b : Bound} (runs : Runs callee args named document b) :
    (invoke load callee args named).Answers w ((documentArguments b).Accepted w) fun u w' => ∃ fs gs,
      w'.Fills (Document.slots w (documentArguments b)) fs ∧ w.CopiesFurther (b.arg "extra") w' gs ∧
      w'.LaysOver fs gs u := by
  rw [runs.invoke]
  exact Gives.answers (Document.build_accepts ho) fun u w' => Document.build_lays ho

/-- A call for a response, a request body, an operation or a document gives a result if every argument
will do by itself. The result has a field for each argument that is not the absent value, be it empty,
and the fields that are always there, in this order. The further entries of an operation or a document
replace values in their places, and the others follow in their own order. -/
theorem answers_supplied {callee : Callee} {args : List Value} {named : List (String × Value)}
    {b : Bound} :
    (Runs callee args named response b →
      (invoke load callee args named).Answers w (AcceptedResponse w b) fun u w' =>
        w'.Lays (Response.slots w (b.arg "description") (b.arg "type") (b.arg "headers")
          (b.arg "links") (mediaOf b)) u) ∧
    (Runs callee args named requestBody b →
      (invoke load callee args named).Answers w (AcceptedBody w b) fun u w' =>
        w'.Lays (Response.bodySlots w (b.arg "type") (b.arg "description") (b.arg "required")
          (mediaOf b)) u) ∧
    (Runs callee args named operation b →
      (invoke load callee args named).Answers w ((operationArguments b).Accepted w) fun v w₁ =>
        ∀ rest named' d, toDict.bind? (v :: rest) named' = .ok d →
          (invoke load .emitOperation (v :: rest) named').Answers w₁
            ((operationArguments b).Accepted w) fun u w₂ => ∃ fs gs,
              w₂.Fills (Operation.slots w (operationArguments b) (d.arg "default_id")) fs ∧
              Operation.CopiesNames w (b.arg "extra") w₂ gs ∧ Operation.LaysNames w₂ fs gs u) ∧
    (Runs callee args named document b →
      (invoke load callee args named).Answers w ((documentArguments b).Accepted w) fun u w' =>
        ∃ fs gs, w'.Fills (Document.slots w (documentArguments b)) fs ∧
          w.CopiesFurther (b.arg "extra") w' gs ∧ w'.LaysOver fs gs u) :=
  ⟨response_answers load ho, body_answers load ho, operation_answers load ho, document_answers load ho⟩

end answers

/-- A mapping and a list without entries, responses, and further entries one of which replaces tags. -/
def sparse : World :=
  { World.initial with objects := #[.mapping [], .list [], .mapping [(.int 200, .obj 0)],
      .mapping [(.str "x-internal", .bool false), (.str "tags", .none)]] }

/-- Calls with values that are empty, or false. -/
theorem answers_supplied_sparse : sparse.Owned ∧
    (∃ (b : Bound) (u : Value) (w' : World),
      Runs .response [] [("description", .str ""), ("headers", .obj 0)] response b ∧
      w'.Lays (Response.slots sparse (b.arg "description") (b.arg "type") (b.arg "headers")
        (b.arg "links") (mediaOf b)) u) ∧
    (∃ (b : Bound) (u : Value) (w' : World),
      Runs .requestBody [.none] [("required", .bool false), ("examples", .obj 0)] requestBody b ∧
      w'.Lays (Response.bodySlots sparse (b.arg "type") (b.arg "description") (b.arg "required")
        (mediaOf b)) u) ∧
    (∃ (b : Bound) (u : Value) (w' : World) (fs gs : List (String × Value)),
      Runs .operation [.str "get", .str "/", .obj 2] [("summary", .str ""), ("tags", .obj 1),
        ("request_body", .obj 0), ("extra", .obj 3)] operation b ∧
      w'.Fills (Operation.slots sparse (operationArguments b) (.str "")) fs ∧
      Operation.CopiesNames sparse (b.arg "extra") w' gs ∧ Operation.LaysNames w' fs gs u ∧
      fs.map (·.1) = ["operationId", "summary", "tags", "requestBody", "responses"]) ∧
    ∃ (b : Bound) (u : Value) (w' : World) (fs : List (String × Value)) (gs : Entries),
      Runs .document [.str "", .str ""] [("components", .obj 0), ("servers", .obj 1),
        ("extra", .obj 3)] document b ∧
      w'.Fills (Document.slots sparse (documentArguments b)) fs ∧
      sparse.CopiesFurther (b.arg "extra") w' gs ∧ w'.LaysOver fs gs u ∧
      fs.map (·.1) = ["openapi", "info", "servers", "paths", "components"] := by
  have owned : sparse.Owned := fun _ _ => rfl
  have atom (a : Atom) : sparse.IsData (.atom a) := .atom a
  have bare (a : Addr) (lt : a < 4) (parts : ∀ v ∈ (sparse.get a).parts, sparse.IsData v)
      (kind : (sparse.get a).isData ∧ ∀ xs, sparse.get a ≠ .tuple xs) : sparse.IsData (.obj a) :=
    .obj lt rfl kind.1 (fun xs held => absurd held (kind.2 xs)) parts
  have entries : sparse.IsData (.obj 0) := bare 0 (by decide) nofun ⟨rfl, nofun⟩
  have items : sparse.IsData (.obj 1) := bare 1 (by decide) nofun ⟨rfl, nofun⟩
  have responses : sparse.IsData (.obj 2) := bare 2 (by decide) (by
    change ∀ v ∈ [Value.int 200, .obj 0], sparse.IsData v
    simpa [entries] using atom _) ⟨rfl, nofun⟩
  have further : sparse.IsData (.obj 3) := bare 3 (by decide) (by
    change ∀ v ∈ [Value.str "x-internal", .bool false, .str "tags", .none], sparse.IsData v
    simp [atom]) ⟨rfl, nofun⟩
  have absent (view : Tree → Option Tree) : sparse.Accepts view .none :=
    ⟨atom _, fun given => absurd rfl given⟩
  refine ⟨owned, ?_, ?_, ?_, ?_⟩
  · have runs : Runs .response [] [("description", .str ""), ("headers", .obj 0)] response _ :=
      .response rfl
    have answers := (answers_supplied Delivered.unloaded owned).1 runs
    obtain ⟨u, w', run⟩ := answers.gives {
      description := atom _
      type := ⟨atom _, rfl⟩
      headers := ⟨entries, fun _ => ⟨_, rfl⟩⟩
      links := absent _
      media := ⟨absent _, absent _, absent _⟩ }
    exact ⟨_, u, w', runs, answers.holds u w' run⟩
  · have runs : Runs .requestBody [.none] [("required", .bool false), ("examples", .obj 0)]
        requestBody _ := .requestBody rfl
    have answers := (answers_supplied Delivered.unloaded owned).2.1 runs
    obtain ⟨u, w', run⟩ := answers.gives {
      type := ⟨atom _, rfl⟩
      description := atom _
      required := atom _
      media := ⟨absent _, ⟨entries, fun _ => ⟨_, rfl⟩⟩, absent _⟩ }
    exact ⟨_, u, w', runs, answers.holds u w' run⟩
  · have runs : Runs .operation [.str "get", .str "/", .obj 2] [("summary", .str ""),
        ("tags", .obj 1), ("request_body", .obj 0), ("extra", .obj 3)] operation _ := .operation rfl
    have answers := (answers_supplied Delivered.unloaded owned).2.2.1 runs
    have accepted : Operation.Given.Accepted sparse ⟨.str "get", .str "/", .obj 2, .none, .str "",
        .obj 1, .none, .obj 0, .obj 3⟩ := {
      method := ⟨"get", rfl⟩
      path := ⟨"/", rfl⟩
      responses := ⟨responses, _, rfl⟩
      operationId := absent _
      summary := ⟨atom _, fun _ => ⟨_, rfl⟩⟩
      tags := ⟨items, fun _ => ⟨_, rfl⟩⟩
      parameters := absent _
      requestBody := ⟨entries, fun _ => ⟨_, rfl⟩⟩
      extra := ⟨further, _, rfl⟩ }
    obtain ⟨v, w₁, run⟩ := answers.gives accepted
    have written := answers.holds v w₁ run [.str ""] [] _ rfl
    obtain ⟨u, w₂, emitted⟩ := written.gives accepted
    obtain ⟨fs, gs, fills, copies, lays⟩ := written.holds u w₂ emitted
    exact ⟨_, u, w₂, fs, gs, runs, fills, copies, lays, fills.names⟩
  · have runs : Runs .document [.str "", .str ""] [("components", .obj 0), ("servers", .obj 1),
        ("extra", .obj 3)] document _ := .document rfl
    have answers := (answers_supplied Delivered.unloaded owned).2.2.2 runs
    obtain ⟨u, w', run⟩ := answers.gives {
      title := atom _, version := atom _, openapi := atom _, description := atom _, servers := items
      paths := ⟨atom _, _, rfl⟩
      components := ⟨entries, fun _ => ⟨_, rfl⟩⟩
      extra := ⟨further, _, rfl⟩ }
    obtain ⟨fs, gs, fills, copies, lays⟩ := answers.holds u w' run
    exact ⟨_, u, w', fs, gs, runs, fills, copies, lays, fills.names⟩

end Call
end OpenApiDoc
