import OpenApiDoc.Proofs.Lasting
import OpenApiDoc.Proofs.Properties

/-! # The flag of a node

A schema is optional if it is a node with the flag set. Constructors and `SchemaNode` give a node its
flag, the variants of constructors, `optional` and `required` set it in a copy, and `nullable` and
`merge` hand on the flag of the node that they are given.

* `Build.Always` is about the results of a step, whatever it starts from. That is all there is to say
  of functions that make nodes from fields.
* `World.IsFlagged` says which flag a node has. There is a lemma for every function that makes nodes.
* `Schema.Flagged` goes through the calls that a schema comes from, down to the one that has set the
  flag. `Schema.Flagged.state` is about one call after the other and what a program does in between:
  the schema is optional if that flag is. -/

namespace OpenApiDoc

open Build World

variable {w w' : World} {E : Enclosure} {v x : Value} {o : Bool} {load : Value → Build Value}

/-! ### Results of steps -/

/-- Of every result of the step `Q` holds, whatever it starts from. -/
def Build.Always {α : Type} (act : Build α) (Q : α → World → Prop) : Prop :=
  ∀ w a w', act.run w = .ok a w' → Q a w'

namespace Build

variable {α β : Type} {Q : β → World → Prop}

/-- Only the last step counts. -/
theorem Always.after {act : Build α} {f : α → Build β} (h : ∀ a, (f a).Always Q) :
    (act >>= f).Always Q := by
  intro w b w' run
  obtain ⟨a, w₁, -, last⟩ := bind_ok run
  exact h a w₁ b w' last

theorem Always.throw (f : Fault) : (throw f : Build β).Always Q := by
  intro w b w' run
  cases run

theorem Always.lack (v : Value) (name : String) : (Build.lack v name : Build β).Always Q :=
  .after fun _ => .throw _

end Build

theorem World.Has.usable_empty (h : w.Has v) : w.Usable .empty v := by
  cases v with
  | atom a => trivial
  | obj a => exact ⟨h, fun inside => inside, fun door => door⟩

/-! ### Nodes and their flags -/

/-- The value is a node with this flag. -/
def World.IsFlagged (w : World) (v : Value) (o : Bool) : Prop := ∃ f, Node.parts? w v = some (f, o)

theorem World.IsFlagged.isOptional (h : w.IsFlagged v o) : Node.isOptional w v = o := by
  obtain ⟨f, parts⟩ := h
  simp [Node.isOptional, parts]

theorem World.isFlagged_of_get {a f : Addr} (h : w.get a = .node f o) : w.IsFlagged (.obj a) o :=
  ⟨f, by simp [Node.parts?, h]⟩

namespace Node

/-- A node has the flag that is read from its fields. -/
theorem ofFields_flag {given : List (String × Value)}
    (flag : Field.defaulted "is_optional" (given.lookup "is_optional") false Field.bool = .ok o) :
    (ofFields given).Always fun u w' => w'.IsFlagged u o := by
  refine .after fun w => ?_
  simp only [flag]
  refine .after fun fragment w₁ u w' run => ?_
  obtain ⟨p, w₂, passed, run⟩ := bind_ok run
  obtain ⟨both, -⟩ := Checked.require_ok passed
  have same : o = p.2 := Except.ok.inj (Checked.both_eq_ok.mp both).2
  obtain ⟨a, w₃, added, run⟩ := bind_ok run
  cases added
  cases run
  rw [same]
  exact isFlagged_of_get (w₂.get_alloc_same _)

theorem ofEntries_flag (es : Entries) (o : Bool) :
    (ofEntries es o).Always fun u w' => w'.IsFlagged u o :=
  .after fun fragment => ofFields_flag (flag_given fragment o)

/-- A copy of a node has the flag that was set. -/
theorem withFlag_flag (v : Value) (o : Bool) :
    (withFlag v o).Keeps (Encloses E) w fun u w' => w'.IsFlagged u o := by
  refine .get_bind ?_
  cases parts : parts? w v with
  | none => cases v <;> exact .throw _
  | some p =>
      obtain ⟨a, rfl, hg⟩ := parts?_eq parts
      refine (copyNode_keeps hg o).bind fun b w₁ _ made => .pure ?_
      obtain ⟨-, -, g, hb⟩ := made
      exact isFlagged_of_get hb

/-- A node with further entries has the flag of the node. -/
theorem merge_flag (h : w.IsFlagged v o) {extra : Value}
    (run : (merge v extra).run w = .ok x w') : w'.IsFlagged x o := by
  obtain ⟨f, parts⟩ := h
  unfold merge at run
  obtain ⟨_, _, read, run⟩ := bind_ok run
  cases read
  simp only [parts] at run
  obtain ⟨_, _, read, run⟩ := bind_ok run
  cases read
  split at run
  · cases run
    exact ⟨f, parts⟩
  · refine Always.after (fun _ => .after fun _ => .after fun _ => ofEntries_flag _ o) _ _ _ run

theorem nullable_flag (h : w.IsFlagged v o) (run : (nullable v).run w = .ok x w') :
    w'.IsFlagged x o := by
  obtain ⟨f, parts⟩ := h
  unfold nullable at run
  obtain ⟨_, _, read, run⟩ := bind_ok run
  cases read
  simp only [parts] at run
  obtain ⟨m, w₁, made, run⟩ := bind_ok run
  have k : w.Extends w₁ := by
    cases made
    exact w.extends_alloc _
  refine merge_flag ?_ run
  obtain ⟨a, rfl, hg⟩ := parts?_eq parts
  exact isFlagged_of_get ((k.get a (lt_size_of_get hg (by simp))).trans hg)

end Node

/-! ### Constructors -/

/-- The node of a constructor has the flag unset. -/
theorem Schema.node_flag (fields : List (String × Value)) (extra : Value) :
    (Schema.node fields extra).Always fun u w' => w'.IsFlagged u false :=
  .after fun _ => .after fun _ => Node.ofEntries_flag _ false

namespace Call

open Schema

variable {b : Signature.Bound}

theorem constructor_flag (c : Constructor) (b : Signature.Bound) :
    ((constructor c).run b).Always fun u w' => w'.IsFlagged u false := by
  cases c with
  | pattern =>
      change (Schema.pattern _ _ _).Always _
      unfold Schema.pattern
      split
      · exact node_flag _ _
      · exact node_flag _ _
      · exact .throw _
  | constant => exact .after fun _ => node_flag _ _
  | choice =>
      refine .after fun w => ?_
      split
      · exact .after fun _ => .after fun _ => .after fun _ => .after fun _ => .after fun _ =>
          node_flag _ _
      · exact .after fun _ => .after fun _ => .after fun _ => .after fun _ => node_flag _ _
  | ref =>
      change (Schema.ref _).Always _
      unfold Schema.ref
      split
      · exact Node.ofEntries_flag _ false
      · exact .throw _
      · exact .lack _ _
  | array => exact .after fun _ => node_flag _ _
  | object =>
      refine .after fun _ => .after fun p => ?_
      obtain ⟨emitted, names⟩ := p
      dsimp only
      split <;> exact .after fun _ => .after fun _ => node_flag _ _
  | _ => exact node_flag _ _

/-- A variant of a constructor sets the flag that it is named after. -/
theorem variant_flag (hw : w.Tidy) (given : b.All fun f => w.Usable .empty f.2) (c : Constructor)
    (v : Variant) (run : ((variant c v).run b).run w = .ok x w') : w'.IsFlagged x v.flag := by
  have set (o : Bool) (run : ((constructor c).run b >>= fun n => Node.withFlag n o).run w =
      .ok x w') : w'.IsFlagged x o := by
    obtain ⟨n, w₁, made, run⟩ := bind_ok run
    obtain ⟨-, closed, -⟩ := (constructor_keeps given c).ok hw.encloses_empty made
    exact ((Node.withFlag_flag n o).ok closed run).2.2
  cases v with
  | asBuilt => exact constructor_flag c b _ _ _ run
  | optional => exact set true run
  | required => exact set false run

/-! ### Calls -/

variable {f : Callee} {args : List Value} {named : List (String × Value)}

theorem bind_fits {s : Signature} {b : Signature.Bound} (bound : (s.bind args named).run w = .ok b w') :
    s.bind? args named = .ok b ∧ w' = w := by
  unfold Signature.bind at bound
  split at bound
  · cases bound
    exact ⟨‹_›, rfl⟩
  · cases bound

/-- A call with a result has run the function with its arguments. -/
theorem Function.fits_of_run {f : Function} (run : (f.call args named).run w = .ok x w') :
    ∃ b, f.Fits args named b ∧ (f.run b).run w = .ok x w' := by
  obtain ⟨b, w₁, bound, body⟩ := bind_ok run
  obtain ⟨fits, rfl⟩ := bind_fits bound
  exact ⟨b, fits, body⟩

/-- A record is made from the named arguments as they are given. -/
theorem fields_more {make : List (String × Value) → Build Value}
    (fits : (fields make).Fits args named b) : b.more = named := by
  have collected (given : List (String × Value)) (b₀ : Signature.Bound) :
      given.foldlM (fields make).signature.addNamed b₀ = .ok ⟨b₀.values, b₀.more ++ given⟩ := by
    induction given generalizing b₀ with
    | nil => simp [pure, Except.pure]
    | cons e given ih =>
        have first : (fields make).signature.addNamed b₀ e = .ok ⟨b₀.values, b₀.more ++ [e]⟩ := by
          simp [Signature.addNamed, Signature.known, fields]
        rw [List.foldlM_cons, first]
        simpa [Bind.bind, Except.bind] using ih ⟨b₀.values, b₀.more ++ [e]⟩
  rw [Function.Fits, Signature.bind?, collected] at fits
  simp only [Bind.bind, Except.bind] at fits
  split at fits
  · cases fits
  · split at fits
    · cases fits
      simp
    · cases fits

/-- The flag that a call sets in the node that it makes. -/
inductive Sets : Callee → List (String × Value) → Bool → Prop
  | construct (c : Constructor) (v : Variant) (named : List (String × Value)) :
      Sets (.construct c v) named v.flag
  | optional (named : List (String × Value)) : Sets .optional named true
  | required (named : List (String × Value)) : Sets .required named false
  | schemaNode {named : List (String × Value)} {o : Bool}
      (read : Field.defaulted "is_optional" (named.lookup "is_optional") false Field.bool = .ok o) :
      Sets .schemaNode named o

theorem Sets.flag (h : Sets f named o) (hw : w.Tidy)
    (given : ∀ v ∈ args ++ named.map (·.2), w.Has v)
    (run : (invoke load f args named).run w = .ok x w') : w'.IsFlagged x o := by
  have placed : ∀ v ∈ args, w.Usable .empty v := fun v hv =>
    (given v (List.mem_append_left _ hv)).usable_empty
  have called : ∀ e ∈ named, w.Usable .empty e.2 := fun e he =>
    (given e.2 (List.mem_append_right _ (List.mem_map_of_mem he))).usable_empty
  have atom (a : Atom) : w.Usable .empty (.atom a) := trivial
  cases h with
  | construct c v =>
      change (Call.construct c v args named).run w = .ok x w' at run
      unfold Call.construct at run
      split at run
      · cases run
      · rcases Function.call_fits atom (variant_plain c v) placed called with ⟨b, fits, hb⟩ | ⟨m, fails⟩
        · rw [fits.call] at run
          exact variant_flag hw hb c v run
        · rw [fails] at run
          cases run
  | optional =>
      obtain ⟨b, -, run⟩ := Function.fits_of_run run
      exact ((Node.withFlag_flag _ true).ok hw.encloses_empty run).2.2
  | required =>
      obtain ⟨b, -, run⟩ := Function.fits_of_run run
      exact ((Node.withFlag_flag _ false).ok hw.encloses_empty run).2.2
  | schemaNode read =>
      obtain ⟨b, fits, run⟩ := Function.fits_of_run run
      rw [← fields_more fits] at read
      exact Node.ofFields_flag read _ _ _ run

/-- The node whose flag a call hands on. -/
inductive HandsOn : Callee → List Value → List (String × Value) → Value → Prop
  | nullable (v : Value) : HandsOn .nullable [v] [] v
  | nullableNamed (v : Value) : HandsOn .nullable [] [("node", v)] v
  | merge (v : Value) (args : List Value) (named : List (String × Value)) :
      HandsOn .merge (v :: args) named v

theorem HandsOn.flag (h : HandsOn f args named v) (flag : Node.isOptional w v = o)
    (run : (invoke load f args named).run w = .ok x w') : w'.IsFlagged x o := by
  cases parts : Node.parts? w v with
  | none =>
      cases h with
      | nullable | nullableNamed =>
          change (Node.nullable v).run w = _ at run
          obtain ⟨_, _, read, body⟩ := bind_ok run
          cases read
          simp only [parts] at body
          cases body
      | merge =>
          simp only [invoke, method] at run
          obtain ⟨_, _, read, body⟩ := bind_ok run
          cases read
          simp only [parts] at body
          cases body
  | some p =>
      obtain rfl : p.2 = o := by simpa [Node.isOptional, parts] using flag
      have flagged : w.IsFlagged v p.2 := ⟨p.1, parts⟩
      cases h with
      | nullable | nullableNamed => exact Node.nullable_flag flagged run
      | merge =>
          simp only [invoke, method] at run
          obtain ⟨_, _, read, body⟩ := bind_ok run
          cases read
          simp only [parts] at body
          obtain ⟨b, w₁, bound, last⟩ := bind_ok body
          obtain ⟨-, rfl⟩ := bind_fits bound
          exact Node.merge_flag flagged last

/-- A call that writes nothing keeps a tidy store tidy, and gives what is there. -/
theorem invoke_tidy (hw : w.Tidy) (harmless : writesOrLoads f = false)
    (given : ∀ v ∈ args ++ named.map (·.2), w.Has v)
    (run : (invoke load f args named).run w = .ok x w') : w.Extends w' ∧ w'.Tidy ∧ w'.Has x := by
  have takes (v : Value) (hv : v ∈ args ++ named.map (·.2)) : Takes .empty w f v := by
    refine ⟨(given v hv).usable_empty, fun u hu => (hw.has_parts v u ?_).usable_empty⟩
    unfold readParts at hu
    split at hu
    · exact List.mem_append_right _ hu
    · exact List.mem_append_right _ hu
    · exact List.mem_append_left _ hu
    · cases hu
  obtain ⟨E', -, after⟩ := invoke_widens load f harmless takes hw.encloses_empty
  rw [run] at after
  obtain ⟨k, closed, outcome⟩ := after
  refine ⟨k, closed.tidy, ?_⟩
  rcases outcome with old | new
  · exact old.open.has.mono k.size
  · exact new.1.has

end Call

/-! ### The flag that was applied last -/

namespace Schema

/-- The schema is a mapping, or a node that comes from calls of which the last one that sets a flag has
set this one. In between a program may do anything that it may do. -/
inductive Flagged (load : Value → Build Value) : World → Value → Bool → Prop
  | mapping {w : World} {x : Value} {es : Entries} (tidy : w.Tidy)
      (mapping : x.mapping? w = some es) : Flagged load w x false
  | set {w w' : World} {f : Callee} {args : List Value} {named : List (String × Value)} {o : Bool}
      {x : Value} (tidy : w.Tidy) (sets : Call.Sets f named o)
      (given : ∀ v ∈ args ++ named.map (·.2), w.Has v)
      (made : (Call.invoke load f args named).run w = .ok x w') : Flagged load w' x o
  | handedOn {w w' : World} {f : Callee} {args : List Value} {named : List (String × Value)}
      {o : Bool} {n x : Value} (node : Flagged load w n o) (hands : Call.HandsOn f args named n)
      (given : ∀ v ∈ args ++ named.map (·.2), w.Has v)
      (made : (Call.invoke load f args named).run w = .ok x w') : Flagged load w' x o
  | later {s : Session} {cs : List Command} {o : Bool} {x : Value} (guarded : s.Guarded .empty)
      (follows : s.Follows load (fun _ => False) cs) (before : Flagged load s.world x o)
      (node : s.world.IsNode x) : Flagged load (s.run load cs).world x o

/-- Whatever a schema has gone through, it is optional if the flag that was applied last is. -/
theorem Flagged.state (h : Flagged load w x o) : w.Tidy ∧ w.Has x ∧ Node.isOptional w x = o := by
  induction h with
  | mapping tidy mapping =>
      obtain ⟨a, rfl, hg⟩ := Value.eq_obj_of_mapping? mapping
      exact ⟨tidy, lt_size_of_mapping hg, isOptional_of_mapping? mapping⟩
  | @set w w' f args named o x tidy sets given made =>
      have harmless : Call.writesOrLoads f = false := by cases sets <;> rfl
      obtain ⟨-, tidy', has⟩ := Call.invoke_tidy tidy harmless given made
      exact ⟨tidy', has, (sets.flag tidy given made).isOptional⟩
  | @handedOn w w' f args named o n x node hands given made ih =>
      obtain ⟨tidy, -, flag⟩ := ih
      have harmless : Call.writesOrLoads f = false := by cases hands <;> rfl
      obtain ⟨-, tidy', has⟩ := Call.invoke_tidy tidy harmless given made
      exact ⟨tidy', has, (hands.flag flag made).isOptional⟩
  | @later s cs o x guarded follows before node ih =>
      obtain ⟨-, has, flag⟩ := ih
      obtain ⟨E, -, guarded', spares⟩ := Session.run_guarded guarded follows False.elim
      refine ⟨guarded'.encloses.tidy, has.mono spares.size, ?_⟩
      obtain ⟨a, f, o', rfl, hg⟩ := node
      -- A node is never written to.
      have same := spares.get a has (.inr (.inr (by simp [hg, Object.isWritten])))
      rw [← flag]
      simp [Node.isOptional, Node.parts?, same, hg]

end Schema
end OpenApiDoc
