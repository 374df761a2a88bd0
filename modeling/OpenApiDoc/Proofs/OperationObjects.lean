import OpenApiDoc.Proofs.Checks
import OpenApiDoc.Proofs.Overlaid

/-! # Operation objects from arguments

The object that an operation is written as has a field for every argument of the operation that is
given, empty or not, and the further entries are laid over its fields.

* `Operation.Stores` says what an operation keeps of its arguments, `Operation.Given.build_stores` that
  what is made of any arguments does so.
* `Operation.Stores.emit_lays`: what becomes of it when the operation is written.
* `Operation.Given.build_accepts`: there is an operation if every argument will do by itself. -/

namespace OpenApiDoc

open Build World

variable {w w' w₁ w₂ : World} {v u : Value}

theorem World.ShowsFields.grows {fs : List (String × Value)} {ts : List (String × Tree)}
    (h : w.ShowsFields fs ts) (k : w.Grows w') : w'.ShowsFields fs ts :=
  List.Forall₂.imp (fun _ _ h => ⟨h.1, h.2.grows k⟩) h

/-- What fields that show views look like as mappings. -/
theorem World.showsFields_all {ps : List (List (String × Value))} {us : List (List (String × Tree))}
    (h : List.Forall₂ w.ShowsFields ps us) :
    (∀ p ∈ ps, ∀ f ∈ p, w.IsData f.2) ∧ ps.map w.recordOf = us.map .record := by
  induction h with
  | nil => simp
  | cons first _ ih =>
      obtain ⟨data, rfl⟩ := paired_tree first
      exact ⟨List.forall_mem_cons.mpr ⟨data, ih.1⟩, by rw [List.map_cons, List.map_cons, ih.2]⟩

namespace Operation

/-- The arguments of an operation. -/
structure Given where
  method : Value
  path : Value
  responses : Value
  operationId : Value
  summary : Value
  tags : Value
  parameters : Value
  requestBody : Value
  extra : Value

/-- The operation that is made of the arguments. -/
def Given.build (g : Given) : Build Value :=
  Operation.build g.method g.path g.responses g.operationId g.summary g.tags g.parameters
    g.requestBody g.extra

/-! ### Readings of arguments -/

def text? (t : Tree) : Option Tree := t.asText?.map .str

def texts? (t : Tree) : Option Tree := (t.listed? Tree.asText?).map fun ts => .list (ts.map .str)

def record? (t : Tree) : Option Tree := (t.fields? some).map .record

def records? (t : Tree) : Option Tree :=
  (t.listed? (Tree.fields? some)).map fun ps => .list (ps.map .record)

/-- A mapping under the texts of its keys. -/
def coded : Tree → Tree
  | .mapping es => .record (Entries.literal (es.map fun e => (e.1.text, e.2)))
  | t => t

/-- Responses under the texts of their codes. -/
def responses? (t : Tree) : Option Tree :=
  ((coded t).fields? (Tree.fields? some)).map fun rs => .record (rs.map fun r => (r.1, .record r.2))

/-- Further entries, which may be absent or given in pairs. -/
def further? (t : Tree) : Option (List (String × Tree)) :=
  t.entriesOrEmpty?.bind fun es => (Tree.mapping es).fields? some

/-- The fields are read from the arguments. -/
structure Fields.Read (w : World) (g : Given) (f : Fields) : Prop where
  method : Field.text (.value g.method) = .ok f.method
  path : Field.text (.value g.path) = .ok f.path
  responses : Field.mapping w (fun v => Field.mapping w Field.any (.value v)) (.value g.responses) =
    .ok f.responses
  operationId : Field.orNone Field.text (.value g.operationId) = .ok f.operationId
  summary : Field.orNone Field.text (.value g.summary) = .ok f.summary
  tags : Field.orNone (Field.list w Field.text) (.value g.tags) = .ok f.tags
  parameters : Field.orNone (Field.list w (Field.mapping w Field.any)) (.value g.parameters) =
    .ok f.parameters
  requestBody : Field.orNone (Field.mapping w Field.any) (.value g.requestBody) = .ok f.requestBody
  extra : Field.mapping w Field.any (.value g.extra) = .ok f.extra

/-- Arguments pass the check just in case each is read by itself. -/
theorem check_eq_ok {given : List (String × Value)} {g : Given} {f : Fields} :
    check w given (arguments g.method g.path g.responses g.operationId g.summary g.tags g.parameters
      g.requestBody g.extra) = .ok f ↔ f.Read w g := by
  constructor
  · intro passed
    simp only [check, Checked.map_eq_ok, Checked.both_eq_ok] at passed
    obtain ⟨p, read, rfl⟩ := passed
    simp only [arguments, Field.required, Field.defaulted, Checked.under_eq_ok] at read
    obtain ⟨method, path, responses, id, summary, tags, parameters, body, extra⟩ := read
    exact ⟨method, path, responses, id, summary, tags, parameters, body, extra⟩
  · intro read
    simp [check, arguments, Field.required, Field.defaulted, List.lookup_cons, read.method, read.path,
      read.responses, read.operationId, read.summary, read.tags, read.parameters, read.requestBody,
      read.extra, Checked.both, Checked.under, Except.map]

/-- How a call goes that gives an operation. -/
theorem Given.build_ok {g : Given} (run : g.build.run w = .ok v w') :
    ∃ es w₁ x w₂ c w₃ f, g.extra.entriesOrEmpty.run w = .ok es w₁ ∧
      (newMapping es).run w₁ = .ok x w₂ ∧ (withTextCodes g.responses).run w₂ = .ok c w₃ ∧
      f.Read w₃ { g with responses := c, extra := x } ∧ (make f).run w₃ = .ok v w' := by
  obtain ⟨es, w₁, x, w₂, c, w₃, f, entries, copied, stringified, checked, made⟩ := build_steps run
  exact ⟨es, w₁, x, w₂, c, w₃, f, entries, copied, stringified,
    (check_eq_ok (g := { g with responses := c, extra := x })).mp checked, made⟩

/-! ### What is stored -/

/-- What is stored of the fields. Values look as they did when the operation was made. -/
structure Fields.Stored (w : World) (f : Fields) (w' : World) (op : Operation) : Prop where
  operationId : op.operationId = f.operationId
  summary : op.summary = f.summary
  responses : ∀ rs, Entries.Paired w.ShowsFields f.responses rs →
    w'.Shows (.obj op.responses) (.record (rs.map fun r => (r.1, .record r.2)))
  tags : op.tags.isSome = f.tags.isSome
  tagsLook : w'.Shows (optionalObject op.tags) (f.tags.elim .none fun ts => .list (ts.map .str))
  parameters : op.parameters.isSome = f.parameters.isSome
  parametersLook : ∀ ps us, f.parameters = some ps → List.Forall₂ w.ShowsFields ps us →
    w'.Shows (optionalObject op.parameters) (.list (us.map .record))
  requestBody : op.requestBody.isSome = f.requestBody.isSome
  requestBodyLooks : ∀ fs ts, f.requestBody = some fs → w.ShowsFields fs ts →
    w'.Shows (optionalObject op.requestBody) (.record ts)
  extra : w'.get op.extra = .mapping (Entries.named f.extra)
  extraLooks : ∀ ts, w.ShowsFields f.extra ts → w'.Shows (.obj op.extra) (.record ts)

theorem record_leaves {base : World} {k : Nat} (fs : List (String × Value)) :
    Leaves base k (record fs) :=
  .newMapping _

theorem newListOrNone_leaves {α : Type} {item : α → Build Value} {base : World} {k : Nat}
    (h : ∀ x, Leaves base k (item x)) (xs : Option (List α)) :
    Leaves base k (newListOrNone item xs) := by
  cases xs with
  | none => exact .pure none
  | some ys => exact (Leaves.mapM fun y _ => h y).bind fun us => (Leaves.new _).bind fun _ => .pure _

theorem newListOrNone_isSome {α : Type} {item : α → Build Value} {xs : Option (List α)}
    {a : Option Addr} (run : (newListOrNone item xs).run w = .ok a w') : a.isSome = xs.isSome := by
  cases xs with
  | none =>
      cases run
      rfl
  | some ys =>
      obtain ⟨us, w₁, -, run⟩ := bind_ok run
      cases run
      rfl

theorem newRecordOrNone_leaves {base : World} {k : Nat} (b : Option (List (String × Value))) :
    Leaves base k (b.mapM newRecord) := by
  cases b with
  | none => exact .pure none
  | some fs => exact (Leaves.new _).bind fun _ => .pure _

theorem newRecordOrNone_isSome {b : Option (List (String × Value))} {a : Option Addr}
    (run : (b.mapM newRecord).run w = .ok a w') : a.isSome = b.isSome := by
  cases b with
  | none =>
      cases run
      rfl
  | some fs =>
      cases run
      rfl

/-- Mappings that are stored in a list look as their fields did before. -/
theorem newListOrNone_looks (ho : w.Owned) (k : w.Grows w₁) {ps : List (List (String × Value))}
    {us : List (List (String × Tree))} (shown : List.Forall₂ w.ShowsFields ps us) {a : Option Addr}
    (run : (newListOrNone record (some ps)).run w₁ = .ok a w') :
    w'.Shows (optionalObject a) (.list (us.map .record)) := by
  obtain ⟨data, views⟩ := showsFields_all shown
  have made := ((newListOrNone_shows (g := w.recordOf) (k.owned ho) fun ys hys y hy w₂ k₂ => ?_).ok
    run).2
  · rwa [Option.elim_some, views] at made
  · cases hys
    have later := k.trans k₂.grows
    exact record_shows (later.owned ho) ((showsFields_self (data y hy)).grows later)

/-- A mapping that is stored looks as its fields did before. -/
theorem newRecordOrNone_looks (ho : w.Owned) (k : w.Grows w₁) {fs : List (String × Value)}
    {ts : List (String × Tree)} (shown : w.ShowsFields fs ts) {a : Option Addr}
    (run : ((some fs).mapM newRecord).run w₁ = .ok a w') :
    w'.Shows (optionalObject a) (.record ts) :=
  ((newRecordOrNone_shows (g := fun _ => ts) (k.owned ho) fun gs hgs => by
    cases hgs
    exact shown.grows k).ok run).2

/-- What is made of fields stores them. -/
theorem make_ok (ho : w.Owned) {f : Fields} (run : (make f).run w = .ok v w') :
    w.Grows w' ∧ ∃ a op, v = .obj a ∧ w'.get a = .operation op ∧ f.Stored w w' op := by
  obtain ⟨rs, w₁, records, run⟩ := bind_ok run
  obtain ⟨responses, w₂, coded, run⟩ := bind_ok run
  obtain ⟨tags, w₃, tagged, run⟩ := bind_ok run
  obtain ⟨parameters, w₄, listed, run⟩ := bind_ok run
  obtain ⟨body, w₅, bodied, run⟩ := bind_ok run
  obtain ⟨extra, w₆, further, run⟩ := bind_ok run
  obtain ⟨a, w₇, stored, run⟩ := bind_ok run
  cases run
  have k₁ := (Leaves.mapM fun r _ => (record_leaves r.2).bind fun _ => .pure _).grows records
  have k₂ := (Leaves.new _).grows coded
  have k₃ := (newListOrNone_leaves (fun _ => .pure _) f.tags).grows tagged
  have k₄ := (newListOrNone_leaves record_leaves f.parameters).grows listed
  have k₅ := (newRecordOrNone_leaves f.requestBody).grows bodied
  have k₆ := (Leaves.new _).grows further
  have k₇ := (Leaves.new _).grows stored
  have k₆₇ := k₆.trans k₇
  have k₄₇ := k₅.trans k₆₇
  have k₁₂ := k₁.trans k₂
  have k₁₃ := k₁₂.trans k₃
  have k₁₄ := k₁₃.trans k₄
  have tagsLook := ((newListOrNone_shows (g := .str) (k₁₂.owned ho) fun _ _ s _ w _ =>
    .pure (shows_atom w (.str s))).ok tagged).2
  have extraHeld : w₆.get extra = .mapping (Entries.named f.extra) := by
    cases further
    exact w₅.get_alloc_same _
  cases stored
  refine ⟨k₁₄.trans k₄₇, _, _, rfl, w₆.get_alloc_same _, {
    operationId := rfl, summary := rfl
    responses := fun ts shown => ?_
    tags := newListOrNone_isSome tagged
    tagsLook := tagsLook.grows (k₄.trans k₄₇)
    parameters := newListOrNone_isSome listed
    parametersLook := fun ps us given shown =>
      (newListOrNone_looks ho k₁₃ shown (given ▸ listed)).grows k₄₇
    requestBody := newRecordOrNone_isSome bodied
    requestBodyLooks := fun fs ts given shown =>
      (newRecordOrNone_looks ho k₁₄ shown (given ▸ bodied)).grows k₆₇
    extra := (k₇.get _ (lt_size_of_mapping extraHeld)).trans extraHeld
    extraLooks := fun ts shown =>
      ((newRecord_shows ((k₁₄.trans k₅).owned ho) (shown.grows (k₁₄.trans k₅))).ok further).2.grows k₇
  }⟩
  have hrs := ((Paths.templates_gives ho shown).ok records).2
  exact ((newRecord_shows (k₁.owned ho) hrs).ok coded).2.grows (k₃.trans (k₄.trans k₄₇))

/-- What is stored of an argument: nothing if none is given, and else what the view says if it is data.
-/
structure Retains (w : World) (view : Tree → Option Tree) (v : Value) (w' : World) (a : Option Addr) :
    Prop where
  given : a.isSome = !v.isNone
  looks : ∀ b, a = some b → w.Renders view v w' (.obj b)

theorem Retains.grows {view : Tree → Option Tree} {a : Option Addr} (h : Retains w view v w₁ a)
    (k : w₁.Grows w') : Retains w view v w' a :=
  ⟨h.given, fun b hb => (h.looks b hb).grows k⟩

/-- The names are the texts of the keys that the argument is read as, each once. -/
structure TakesNames (w : World) (extra : Value) (names : List String) : Prop where
  distinct : names.Nodup
  texts : ∃ es w' ks, extra.entriesOrEmpty.run w = .ok es w' ∧
    es.mapM (fun e => (w.tree e.1).asText?) = some ks ∧ names = ks.eraseDups

/-- What an operation stores of its arguments. -/
structure Stores (w : World) (g : Given) (w' : World) (op : Operation) : Prop where
  operationId : op.operationId = (w.tree g.operationId).asText?
  summary : op.summary = (w.tree g.summary).asText?
  summarized : op.summary.isSome = !g.summary.isNone
  tags : Retains w texts? g.tags w' op.tags
  tagList : ∀ a, op.tags = some a → w'.IsData (.obj a) ∧ ∃ xs, w'.get a = .list xs
  parameters : Retains w records? g.parameters w' op.parameters
  requestBody : Retains w record? g.requestBody w' op.requestBody
  responses : w.Renders responses? g.responses w' (.obj op.responses)
  extra : ∃ gs, w'.get op.extra = .mapping (Entries.named gs) ∧ TakesNames w g.extra (gs.map (·.1)) ∧
    (w.IsData g.extra → ∃ ts, further? (w.tree g.extra) = some ts ∧
      w'.Shows (.obj op.extra) (.record ts))

theorem withTextCodes_coded (ho : w.Owned) {t : Tree} (h : w.Shows v t) :
    (withTextCodes v).Gives w fun u w' => w'.Shows u (coded t) := by
  refine (withTextCodes_gives ho h.1).mono fun u w' k hu => ?_
  rcases hu.2 with ⟨none, rfl⟩ | ⟨es, hm, shown⟩
  · have other : coded t = t := by
      unfold coded
      split
      next es =>
        obtain ⟨a, fs, rfl, hg, -⟩ := h.mapping
        cases (Value.mapping?_of_get hg).symm.trans none
      next => rfl
    rw [other]
    exact h.extends k
  · obtain ⟨a, rfl, hg⟩ := Value.eq_obj_of_mapping? hm
    obtain ⟨data, rfl⟩ := h
    rwa [data.tree_mapping hg, coded, List.map_map]

section retained

variable {g : Given} {f : Fields} {op : Operation} (ho : w.Owned) (k : w.Grows w₁)
  (read : f.Read w₁ g) (stored : f.Stored w₁ w' op)

theorem exists_of_isSome {α β : Type} {x : Option α} {y : Option β} (same : x.isSome = y.isSome)
    {a : α} (given : x = some a) : ∃ b, y = some b := by
  rw [given] at same
  exact Option.isSome_iff_exists.mp same.symm

include k read stored

theorem tags_retained : Retains w texts? g.tags w' op.tags := by
  refine ⟨stored.tags.trans (Field.orNone_isSome read.tags), fun b hb data => ?_⟩
  obtain ⟨ts, hts⟩ := exists_of_isSome stored.tags hb
  obtain ⟨us, hus, same⟩ := (Field.list_denotes (data.shows.grows k) Field.text_denotes nofun).ok
    (Field.orNone_ok (hts ▸ read.tags))
  obtain rfl : ts = us := by rwa [List.forall₂_eq_eq_eq] at same
  have look := stored.tagsLook
  rw [hb, hts] at look
  refine ⟨.list (ts.map .str), ?_, look⟩
  rw [texts?, hus, Option.map_some]

theorem parameters_retained : Retains w records? g.parameters w' op.parameters := by
  refine ⟨stored.parameters.trans (Field.orNone_isSome read.parameters), fun b hb data => ?_⟩
  obtain ⟨ps, hps⟩ := exists_of_isSome stored.parameters hb
  obtain ⟨us, hus, shown⟩ := (Field.list_denotes (data.shows.grows k)
    (fun h => Field.mapping_denotes h Field.any_denotes) nofun).ok
    (Field.orNone_ok (hps ▸ read.parameters))
  have look := stored.parametersLook ps us hps shown
  rw [hb] at look
  refine ⟨.list (us.map .record), ?_, look⟩
  rw [records?, hus, Option.map_some]

theorem requestBody_retained : Retains w record? g.requestBody w' op.requestBody := by
  refine ⟨stored.requestBody.trans (Field.orNone_isSome read.requestBody), fun b hb data => ?_⟩
  obtain ⟨fs, hfs⟩ := exists_of_isSome stored.requestBody hb
  obtain ⟨us, hus, shown⟩ := (Field.mapping_denotes (data.shows.grows k) Field.any_denotes).ok
    (Field.orNone_ok (hfs ▸ read.requestBody))
  have look := stored.requestBodyLooks fs us hfs shown
  rw [hb] at look
  refine ⟨.record us, ?_, look⟩
  rw [record?, hus, Option.map_some]

omit k read in
/-- The tags that are stored are a list of texts. -/
theorem Fields.Stored.tagList {b : Addr} (hb : op.tags = some b) :
    w'.IsData (.obj b) ∧ ∃ xs, w'.get b = .list xs := by
  obtain ⟨ts, hts⟩ := exists_of_isSome stored.tags hb
  have look := stored.tagsLook
  rw [hb, hts] at look
  obtain ⟨c, xs, same, hxs, -⟩ := Shows.list (v := .obj b) look
  cases same
  exact ⟨look.1, xs, hxs⟩

end retained

/-- An operation stores its arguments, whatever they are, if it comes of them. -/
theorem Given.build_stores {g : Given} (ho : w.Owned) (run : g.build.run w = .ok v w') :
    w.Grows w' ∧ ∃ a op, v = .obj a ∧ w'.get a = .operation op ∧ Stores w g w' op := by
  obtain ⟨es, w₁, x, w₂, c, w₃, f, entries, copied, stringified, read, made⟩ := g.build_ok run
  have k₁ := (Value.entriesOrEmpty_leaves _).grows entries
  have k₂ := (Leaves.newMapping _).grows copied
  have k₃ := (withTextCodes_leaves _).grows stringified
  have k₁₂ := k₁.trans k₂
  have k := k₁₂.trans k₃
  obtain ⟨k₄, a, op, rfl, hg, stored⟩ := make_ok (k.owned ho) made
  have given : x.mapping? w₃ = some es := by
    cases copied
    have held := w₁.get_alloc_same (.mapping es)
    exact Value.mapping?_of_get ((k₃.get _ (lt_size_of_mapping held)).trans held)
  obtain ⟨ks, hks, names⟩ := Field.mapping_texts given read.extra w
  have tags := tags_retained k read stored
  have parameters := parameters_retained k read stored
  have requestBody := requestBody_retained k read stored
  refine ⟨k.trans k₄, a, op, rfl, hg, {
    operationId := stored.operationId.trans (Field.orNone_asText read.operationId)
    summary := stored.summary.trans (Field.orNone_asText read.summary)
    summarized := by rw [stored.summary, Field.orNone_isSome read.summary]
    tags := tags
    tagList := fun b hb => stored.tagList hb
    parameters := parameters
    requestBody := requestBody
    responses := fun data => ?_
    extra := ⟨f.extra, stored.extra, ⟨names ▸ Paths.nodup_eraseDups ks, es, w₁, ks, entries, hks,
      names⟩, fun data => ?_⟩ }⟩
  · have shown := ((withTextCodes_coded (k₁₂.owned ho) (data.shows.grows k₁₂)).ok stringified).2
    obtain ⟨rs, hrs, look⟩ := (Field.mapping_denotes shown
      fun h => Field.mapping_denotes h Field.any_denotes).ok read.responses
    exact ⟨_, by rw [responses?, hrs, Option.map_some], stored.responses rs look⟩
  · obtain ⟨ts, hts, -, shown⟩ := (Value.entriesOrEmpty_denotes ho data.shows).ok entries
    obtain ⟨-, shown, -⟩ := (newMapping_gives (k₁.owned ho) shown).ok copied
    obtain ⟨us, hus, look⟩ := (Field.mapping_denotes (shown.grows k₃) Field.any_denotes).ok read.extra
    exact ⟨us, by rw [further?, hts, Option.bind_some, hus], stored.extraLooks us look⟩

/-! ### What is written -/

/-- The identifier in the operation object: the given one unless it is empty, or else the default. -/
def chosen (w : World) (operationId default : Value) : Value :=
  ((w.tree operationId).asText?.filter (!·.isEmpty)).elim default .str

/-- The fields of an operation object. -/
def slots (w : World) (g : Given) (default : Value) : List Slot :=
  [.given "operationId" (chosen w g.operationId default), .made w "summary" g.summary text?,
    .made w "tags" g.tags texts?, .made w "parameters" g.parameters records?,
    .made w "requestBody" g.requestBody record?,
    .kept w "responses" g.responses responses?]

/-- The entries are copies of what the argument is read as: the names are the texts of its keys, and
the values look as they should if it is data. -/
structure CopiesNames (w : World) (extra : Value) (w' : World) (gs : List (String × Value)) : Prop where
  names : TakesNames w extra (gs.map (·.1))
  looks : w.IsData extra → ∃ ts, further? (w.tree extra) = some ts ∧ w'.ShowsFields gs ts

/-- The mapping has the fields in their places, with the values that further ones have under their
names, and behind them the further ones with other names in their own order. -/
def LaysNames (w : World) (fs gs : List (String × Value)) (u : Value) : Prop :=
  ∃ a, u = .obj a ∧ w.get a = .mapping (Entries.named
    ((fs.map fun f => (f.1, (gs.lookup f.1).getD f.2)) ++ gs.filter fun g => g.1 ∉ fs.map (·.1)))

section written

variable {view : Tree → Option Tree} {name : String} {fs : List (String × Value)} {x : Option Addr}
  (ho : w₁.Owned)
include ho

/-- A copy looks as what it is a copy of. -/
theorem renders_copy {b c : Addr} (h : w.Renders view v w₁ (.obj b))
    (run : (copyObject b).run w₁ = .ok c w') : w₁.Grows w' ∧ w.Renders view v w' (.obj c) := by
  refine ⟨(copyObject_leaves b).grows run, fun data => ?_⟩
  obtain ⟨t, ht, shown⟩ := h data
  exact ⟨t, ht, ((copyObject_shows ho shown).ok run).2⟩

theorem copiedField_fills (h : Retains w view v w₁ x) (run : (copiedField name x).run w₁ = .ok fs w') :
    w₁.Grows w' ∧ w'.Fills [.made w name v view] fs := by
  have taken := h.given
  cases x with
  | none =>
      cases run
      exact ⟨.refl _, .skip taken.symm⟩
  | some b =>
      obtain ⟨c, w₂, copied, run⟩ := bind_ok run
      cases run
      obtain ⟨k, looks⟩ := renders_copy ho (h.looks b rfl) copied
      exact ⟨k, Fills.one (s := .made w name v view) taken.symm looks⟩

theorem listField_fills (h : Retains w view v w₁ x)
    (lists : ∀ b, x = some b → w₁.IsData (.obj b) ∧ ∃ xs, w₁.get b = .list xs)
    (run : (listField name x).run w₁ = .ok fs w') :
    w₁.Grows w' ∧ w'.Fills [.made w name v view] fs := by
  have taken := h.given
  obtain ⟨k, shown⟩ := (listField_gives ho name lists).ok run
  refine ⟨k.grows, ?_⟩
  cases x with
  | none =>
      cases shown
      exact .skip taken.symm
  | some b =>
      obtain ⟨f, fs, ⟨rfl, look⟩, rest, rfl⟩ := List.forall₂_cons_right_iff.mp shown
      cases rest
      refine Fills.one (s := .made w _ v view) taken.symm fun data => ?_
      obtain ⟨t, ht, stored⟩ := h.looks b rfl data
      exact ⟨t, ht, look.1, look.2.trans stored.2⟩

end written

theorem Stores.identifier {g : Given} {op : Operation} (h : Stores w g w₁ op) (default : Value) :
    op.identifier default = chosen w g.operationId default := by
  rw [Operation.identifier, chosen, ← h.operationId]
  cases op.operationId with
  | none => rfl
  | some s => cases empty : s.isEmpty <;> simp [Option.filter, empty]

/-- The fields of an operation object that are no collections. -/
theorem Stores.fills_texts {g : Given} {op : Operation} (h : Stores w g w₁ op) (default : Value) :
    w'.Fills [.given "operationId" (chosen w g.operationId default), .made w "summary" g.summary text?]
      ((if (op.identifier default).isNone then [] else [("operationId", op.identifier default)]) ++
        op.summary.elim [] fun s => [("summary", Value.str s)]) := by
  refine (Fills.append ?_ ?_ : w'.Fills ([_] ++ [_]) _)
  · rw [h.identifier]
    cases none : (chosen w g.operationId default).isNone with
    | true => exact .skip (by simp [Slot.given, none])
    | false => exact .one (s := .given "operationId" _) (by simp [Slot.given, none]) rfl
  · have taken := h.summarized
    have text := h.summary
    cases hs : op.summary with
    | none =>
        rw [hs] at taken
        exact .skip taken.symm
    | some s =>
        rw [hs] at taken text
        refine .one (s := .made w "summary" g.summary text?) taken.symm fun _ => ?_
        exact ⟨.str s, by rw [text?, ← text, Option.map_some], shows_atom _ _⟩

/-- The further entries of an operation, copied. -/
theorem Stores.copy_further {g : Given} {op : Operation} (h : Stores w g w₁ op) (ho : w₁.Owned)
    (k : w₁.Grows w₂) {x : Addr} (run : (copyObject op.extra).run w₂ = .ok x w') :
    ∃ gs, w'.get x = .mapping (Entries.named gs) ∧ CopiesNames w g.extra w' gs := by
  obtain ⟨fs, hfs, names, looks⟩ := h.extra
  have held := (k.get _ (lt_size_of_mapping hfs)).trans hfs
  obtain ⟨es, hes, keys⟩ := copyObject_mapping held run
  obtain ⟨gs, rfl, same⟩ := keys.named
  refine ⟨gs, hes, same ▸ names, fun data => ?_⟩
  obtain ⟨ts, hts, shown⟩ := looks data
  obtain ⟨c, hs, place, hc, look⟩ := ((copyObject_shows (k.owned ho) (shown.grows k)).ok run).2.record
  cases place
  obtain rfl : gs = hs := Entries.named_injective (Object.mapping.inj (hes.symm.trans hc))
  exact ⟨ts, hts, look⟩

/-- The operation object has the fields of the arguments that are given, with the further entries laid
over them. -/
theorem Stores.emit_lays {g : Given} {op : Operation} (h : Stores w g w₁ op) (ho : w₁.Owned)
    {default : Value} (run : (op.emit default).run w₁ = .ok u w') : ∃ fs gs,
      w'.Fills (slots w g default) fs ∧ CopiesNames w g.extra w' gs ∧ LaysNames w' fs gs u := by
  obtain ⟨ts, w₂, tags, run⟩ := bind_ok run
  obtain ⟨ps, w₃, parameters, run⟩ := bind_ok run
  obtain ⟨bs, w₄, body, run⟩ := bind_ok run
  obtain ⟨rs, w₅, responses, run⟩ := bind_ok run
  obtain ⟨x, w₆, copied, run⟩ := bind_ok run
  obtain ⟨gs, w₇, further, run⟩ := bind_ok run
  obtain ⟨_, _, ⟨⟩, run⟩ := bind_ok run
  obtain ⟨k₁, hts⟩ := listField_fills ho h.tags h.tagList tags
  obtain ⟨k₂, hps⟩ := copiedField_fills (k₁.owned ho) (h.parameters.grows k₁) parameters
  have k₁₂ := k₁.trans k₂
  obtain ⟨k₃, hbs⟩ := copiedField_fills (k₁₂.owned ho) (h.requestBody.grows k₁₂) body
  have k₁₃ := k₁₂.trans k₃
  obtain ⟨c, _, copy, responses⟩ := bind_ok responses
  cases responses
  obtain ⟨k₄, hrs⟩ := renders_copy (k₁₃.owned ho) (h.responses.grows k₁₃) copy
  have k₅ := (copyObject_leaves op.extra).grows copied
  obtain ⟨gs, hg, copies⟩ := h.copy_further ho (k₁₃.trans k₄) copied
  cases (Value.further_reads (Value.mapping?_of_get hg)).symm.trans further
  have k₄₅ := k₄.trans k₅
  have responded : w₆.Fills [.kept w "responses" g.responses responses?] [("responses", .obj c)] :=
    .one rfl (hrs.grows k₅)
  have fills := ((((h.fills_texts default).append (hts.grows ((k₂.trans k₃).trans k₄₅))).append
    (hps.grows (k₃.trans k₄₅))).append (hbs.grows k₄₅)).append responded
  have distinct := fills.distinct
    (show ["operationId", "summary", "tags", "parameters", "requestBody", "responses"].Nodup by decide)
  have k₆ := (Leaves.newMapping _).grows run
  have names := copies.names.distinct
  rw [Entries.overlay_named, Entries.overlayNames_eq distinct names] at run
  cases run
  exact ⟨_, gs, fills.grows k₆, ⟨copies.names, fun data => (copies.looks data).imp fun _ look =>
    ⟨look.1, look.2.grows k₆⟩⟩, _, rfl, w₆.get_alloc_same _⟩

/-! ### Arguments that will do -/

/-- What an operation is made of will do, argument by argument. -/
structure Given.Accepted (w : World) (g : Given) : Prop where
  method : ∃ s, (w.tree g.method).asText? = some s
  path : ∃ s, (w.tree g.path).asText? = some s
  responses : w.IsData g.responses ∧ ∃ t, responses? (w.tree g.responses) = some t
  operationId : w.Accepts text? g.operationId
  summary : w.Accepts text? g.summary
  tags : w.Accepts texts? g.tags
  parameters : w.Accepts records? g.parameters
  requestBody : w.Accepts record? g.requestBody
  extra : w.IsData g.extra ∧ ∃ ts, further? (w.tree g.extra) = some ts

theorem text_of_asText {s : String} (h : (w.tree v).asText? = some s) :
    Field.text (.value v) = .ok s := by
  have data : w.IsData v := by
    cases v with
    | atom a => exact .atom a
    | obj a =>
        unfold Tree.asText? at h
        split at h
        next same => cases tree_eq_atom_iff.mp same
        next same => cases tree_eq_atom_iff.mp same
        next => cases h
  have read := Field.text_denotes data.shows
  rw [h] at read
  obtain ⟨_, read, rfl⟩ := read
  exact read

/-- An argument that may be absent passes its check in a later world. -/
theorem accepts_orNone {α β : Type} {check : Input → Checked α} {R : α → β → Prop}
    {view : Tree → Option β} {g : β → Tree} (h : w.Accepts (fun t => (view t).map g) v)
    (read : (check (.value v)).Denotes R (view (w.tree v))) :
    ∃ y, Field.orNone check (.value v) = .ok y := by
  refine Field.orNone_accepted read fun given => ?_
  obtain ⟨t, ht⟩ := h.2 given
  obtain ⟨b, hb, -⟩ := Option.map_eq_some_iff.mp ht
  exact ⟨b, hb⟩

/-- Arguments that will do are read, the responses with texts for their codes and the further entries as
a mapping. -/
theorem Given.Accepted.read {g : Given} (h : g.Accepted w) (k : w.Extends w') {c x : Value} {t u : Tree}
    {rs : List (String × List (String × Tree))} {us : List (String × Tree)} (hc : w'.Shows c t)
    (responses : t.fields? (Tree.fields? some) = some rs) (hx : w'.Shows x u)
    (extra : u.fields? some = some us) :
    ∃ f : Fields, f.Read w' { g with responses := c, extra := x } := by
  obtain ⟨m, hm⟩ := h.method
  obtain ⟨p, hp⟩ := h.path
  have record {v : Value} {s : Tree} (h : w'.Shows v s) :
      (Field.mapping w' Field.any (.value v)).Denotes w'.ShowsFields (s.fields? some) :=
    Field.mapping_denotes h Field.any_denotes
  have coded : (Field.mapping w' (fun v => Field.mapping w' Field.any (.value v)) (.value c)).Denotes
      (Entries.Paired w'.ShowsFields) (t.fields? (Tree.fields? some)) := Field.mapping_denotes hc record
  have further := record hx
  rw [responses] at coded
  rw [extra] at further
  obtain ⟨id, hid⟩ := accepts_orNone h.operationId (Field.text_denotes (h.operationId.1.shows.extends k))
  obtain ⟨s, hs⟩ := accepts_orNone h.summary (Field.text_denotes (h.summary.1.shows.extends k))
  obtain ⟨ts, hts⟩ := accepts_orNone h.tags
    (Field.list_denotes (h.tags.1.shows.extends k) Field.text_denotes nofun)
  obtain ⟨ps, hps⟩ := accepts_orNone h.parameters
    (Field.list_denotes (h.parameters.1.shows.extends k) record nofun)
  obtain ⟨b, hb⟩ := accepts_orNone h.requestBody (record (h.requestBody.1.shows.extends k))
  obtain ⟨r, hr, -⟩ := coded
  obtain ⟨e, he, -⟩ := further
  exact ⟨⟨m, p, r, id, s, ts, ps, b, e⟩, text_of_asText hm, text_of_asText hp, hr, hid, hs, hts, hps,
    hb, he⟩

/-- An operation comes of any arguments each of which will do. -/
theorem Given.build_accepts {g : Given} (ho : w.Owned) (h : g.Accepted w) :
    g.build.Gives w fun v w' => ∃ V : View, w'.Shows v V.tree := by
  obtain ⟨xData, us, hus⟩ := h.extra
  obtain ⟨ts, hts, fields⟩ := Option.bind_eq_some_iff.mp hus
  obtain ⟨rData, _, hr⟩ := h.responses
  obtain ⟨rs, hrs, -⟩ := Option.map_eq_some_iff.mp hr
  have entries := Value.entriesOrEmpty_denotes ho xData.shows
  rw [hts] at entries
  refine Gives.bind entries fun es w₁ k₁ hes => ?_
  refine (newMapping_gives (ho.extends k₁) hes).bind fun x w₂ k₂ hx => ?_
  have k₁₂ := k₁.trans k₂
  change (ofFields (arguments _ _ _ _ _ _ _ _ _)).Gives _ _
  rw [ofFields_arguments]
  refine (withTextCodes_coded (ho.extends k₁₂) (rData.shows.extends k₁₂)).bind
    fun c w₃ k₃ hc => .get_bind ?_
  have k := k₁₂.trans k₃
  obtain ⟨f, read⟩ := h.read k hc hrs (hx.1.extends k₃) fields
  have passed : check w₃ (arguments g.method g.path g.responses g.operationId g.summary g.tags
      g.parameters g.requestBody x) _ = .ok f := check_eq_ok.mpr read
  have data := check_data (fun e he known => ?_) passed
  · rw [passed]
    exact (make_shows (ho.extends k) data).mono fun v w' _ shown => ⟨_, shown⟩
  · simp only [arguments, List.mem_cons, List.not_mem_nil, or_false] at he
    rcases he with rfl | rfl | rfl | rfl | rfl | rfl | rfl | rfl | rfl <;> simp [collected] at known
    exacts [hc.1, (h.parameters.1.extends k).1, (h.requestBody.1.extends k).1, (hx.1.extends k₃).1]

end Operation
end OpenApiDoc
