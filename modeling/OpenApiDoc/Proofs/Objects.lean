import OpenApiDoc.Proofs.Nodes

/-! # What objects are made of

An object is made of its children in a loop that emits them and collects the names of those that are
needed. A key that is no text ends it.

* `World.Emits` says what a child is emitted as, and whether it is optional.
* `Schema.property` is one step of the loop. `Schema.properties_gives` is about all of them,
  `Schema.properties_refuses` about those before a key that is no text.
* `Schema.object_shows`: the node of an object shows the plain view of `Schema.objectFields` and of the
  fields laid over them. -/

namespace OpenApiDoc

open World Build

variable {w w' : World}

/-- From here on the value is emitted as this view, and this says whether it is optional. -/
def World.Emits (w : World) (x : Value) (t : Tree) (flag : Bool) : Prop :=
  ∀ w', w.Extends w' →
    (Node.emit x).Gives w' (fun u w'' => w''.Shows u t) ∧ Node.isOptional w' x = flag

theorem World.Emits.extends {x : Value} {t : Tree} {flag : Bool} (h : w.Emits x t flag)
    (k : w.Extends w') : w'.Emits x t flag :=
  fun w'' k' => h w'' (k.trans k')

/-- Every child is emitted as the view under its name, and the flag is told apart. -/
abbrev World.EmitsAll (w : World) (fs : List (String × Value))
    (ms : List (String × Tree × Bool)) : Prop :=
  Entries.Paired (fun x m => w.Emits x m.1 m.2) fs ms

theorem World.EmitsAll.extends {fs : List (String × Value)} {ms : List (String × Tree × Bool)}
    (h : w.EmitsAll fs ms) (k : w.Extends w') : w'.EmitsAll fs ms :=
  h.imp fun _ _ hm => ⟨hm.1, hm.2.extends k⟩

namespace Schema

/-! ### The loop over the children -/

/-- One property more, with its name if it is needed. -/
def property (acc : Entries × List Value) (child : Value × Value) : Build (Entries × List Value) :=
  match child.1 with
  | .str _ => do
    let schema ← Node.emit child.2
    let needed := !Node.isOptional (← get) child.2
    return (acc.1 ++ [(child.1, schema)], if needed then acc.2 ++ [child.1] else acc.2)
  | key => Build.refuse (.propertyName key)

theorem properties_eq (children : Entries) :
    properties children = children.foldlM property ([], []) := rfl

/-- The names of the properties that an object needs. -/
def neededNames (ms : List (String × Tree × Bool)) : List String :=
  (ms.filter fun m => !m.2.2).map (·.1)

theorem neededNames_cons (m : String × Tree × Bool) (ms : List (String × Tree × Bool)) :
    neededNames (m :: ms) = neededNames [m] ++ neededNames ms := by
  simp only [neededNames, ← List.map_append, ← List.filter_append, List.singleton_append]

theorem property_gives {f : String × Value} {t : Tree} {flag : Bool} (h : w.Emits f.2 t flag)
    (as : List (String × Value)) (ns : List String) :
    (property (Entries.named as, ns.map .str) (.str f.1, f.2)).Gives w fun r w' =>
      ∃ u, w'.Shows u t ∧ r = (Entries.named (as ++ [(f.1, u)]),
        (ns ++ neededNames [(f.1, t, flag)]).map .str) := by
  refine (h w (.refl w)).1.bind fun u w₁ k hu => .get_bind (.pure ⟨u, hu, ?_⟩)
  rw [(h w₁ k).2]
  cases flag <;> simp [Entries.named, neededNames]

/-- The properties are emitted in their order, and the names of the needed ones are those that are
not optional. -/
theorem properties_gives {fs : List (String × Value)} {ms : List (String × Tree × Bool)}
    {as : List (String × Value)} {ts : List (String × Tree)} (ns : List String)
    (h : w.EmitsAll fs ms) (ha : Entries.Paired w.Shows as ts) :
    ((Entries.named fs).foldlM property (Entries.named as, ns.map .str)).Gives w fun r w' =>
      ∃ bs, r = (Entries.named bs, (ns ++ neededNames ms).map .str) ∧
        Entries.Paired w'.Shows bs (ts ++ ms.map fun m => (m.1, m.2.1)) := by
  induction fs generalizing ms w as ts ns with
  | nil =>
      cases h
      exact .pure ⟨as, by simp [neededNames], by simpa using ha⟩
  | cons f fs ih =>
      obtain ⟨⟨n, t, flag⟩, ms, ⟨hn, hm⟩, hs, rfl⟩ := List.forall₂_cons_left_iff.mp h
      obtain rfl : f.1 = n := hn
      rw [show Entries.named (f :: fs) = (.str f.1, f.2) :: Entries.named fs from rfl,
        List.foldlM_cons]
      refine (property_gives hm as ns).bind fun r w₁ k emitted => ?_
      obtain ⟨u, hu, rfl⟩ := emitted
      have ha' : Entries.Paired w₁.Shows (as ++ [(f.1, u)]) (ts ++ [(f.1, t)]) :=
        List.rel_append (paired_extends ha k) (.cons ⟨rfl, hu⟩ .nil)
      refine (ih (ns ++ neededNames [(f.1, t, flag)]) (EmitsAll.extends hs k) ha').mono ?_
      rintro r w₂ _ ⟨bs, rfl, hb⟩
      rw [neededNames_cons (f.1, t, flag) ms, ← List.append_assoc]
      exact ⟨bs, rfl, by simpa using hb⟩

/-- The properties before a key that is no text are emitted, and then the key is refused. -/
theorem properties_refuses {fs : List (String × Value)} {ms : List (String × Tree × Bool)}
    (h : w.EmitsAll fs ms) {key : Value} (bad : ∀ s, key ≠ .str s) (child : Value)
    (rest : Entries) : ∃ w', (properties (Entries.named fs ++ (key, child) :: rest)).run w =
      .error (.document (.propertyName key)) w' ∧ w.Extends w' := by
  obtain ⟨r, w', run, k, -⟩ := properties_gives [] h (.nil : Entries.Paired w.Shows [] [])
  refine ⟨w', ?_, k⟩
  have before : ((Entries.named fs).foldlM property ([], [])).run w = .ok r w' := run
  rw [properties_eq, List.foldlM_append, EStateM.run_bind, before]
  simp only
  rw [List.foldlM_cons, EStateM.run_bind]
  have refused : property r (key, child) = Build.refuse (.propertyName key) := by
    unfold property
    split
    next s same => exact absurd same (bad s)
    next => rfl
  rw [refused]
  rfl

/-! ### The object -/

/-- The fields that an object generates. Those without a value are left out. -/
def objectFields (ms : List (String × Tree × Bool)) (description : Tree) : List (String × Tree) :=
  let needed := (neededNames ms).map Tree.str
  [("type", .str "object"), ("additionalProperties", .bool false),
   ("required", if needed.isEmpty then .none else .list needed),
   ("properties", .record (ms.map fun m => (m.1, m.2.1))), ("description", description)]

theorem object_shows (ho : w.Owned) {children description extra : Value}
    {fs : List (String × Value)} {ms : List (String × Tree × Bool)} {d : Tree}
    {us : List (String × Tree)} (hm : children.mapping? w = some (Entries.named fs))
    (h : w.EmitsAll fs ms) (hd : w.Shows description d) (he : w.ShowsExtra extra us) :
    (object children description extra).Gives w fun v w' => w'.ShowsNode v
      (Tree.plainFields (Entries.overlayNames (present (objectFields ms d)) us)) false := by
  refine (Value.items_reads hm).bind ?_
  rw [properties_eq]
  refine (properties_gives [] h (.nil : Entries.Paired w.Shows [] [])).bind fun r w₁ k emitted => ?_
  obtain ⟨bs, rfl, hb⟩ := emitted
  have rest (needed : Value) (w₂ : World) (k₂ : w₁.Extends w₂) (hneeded : w₂.Shows needed
      (if ((neededNames ms).map Tree.str).isEmpty then .none
        else .list ((neededNames ms).map .str))) :
      Gives (do
        node [("type", .str "object"), ("additionalProperties", .bool false),
          ("required", needed), ("properties", ← newMapping (Entries.named bs)),
          ("description", description)] extra) w₂ fun v w' => w'.ShowsNode v
        (Tree.plainFields (Entries.overlayNames (present (objectFields ms d)) us)) false := by
    have grown := k.trans k₂
    refine (newMapping_gives (ho.extends grown) (showsEntries_named (paired_extends hb k₂))).bind
      fun l w₃ k₃ made => ?_
    refine node_gives ((ho.extends grown).extends k₃) ?_ (by simp [Entries.Distinct, objectFields])
      (he.extends (grown.trans k₃))
    exact .cons ⟨rfl, shows_atom w₃ _⟩ (.cons ⟨rfl, shows_atom w₃ _⟩
      (.cons ⟨rfl, hneeded.extends k₃⟩ (.cons ⟨rfl, made.1⟩
        (.cons ⟨rfl, hd.extends (grown.trans k₃)⟩ .nil))))
  simp only [List.nil_append]
  cases hn : neededNames ms with
  | nil => exact rest .none w₁ (.refl w₁) (by simp [hn])
  | cons n ns =>
      have texts (ns : List String) : List.Forall₂ w₁.Shows (ns.map .str) (ns.map Tree.str) := by
        rw [List.forall₂_map_left_iff, List.forall₂_map_right_iff, List.forall₂_same]
        exact fun n _ => shows_atom w₁ _
      refine (newList_gives (ho.extends k) (texts (n :: ns))).bind fun u w₂ k₂ hu => ?_
      exact rest u w₂ k₂ (by simpa [hn] using hu)

end Schema
end OpenApiDoc
