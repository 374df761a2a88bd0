import OpenApiDoc.Proofs.Sessions

/-! # Nodes last

A node that a program has made is the same ever after, with all that it reaches, as long as no
function is given its fragment.

* `World.Made.enclosure` has the fragment as its only door. What else the node has been made with is
  inside.
* `World.Mirrors` holds of a value and its copy, whatever they are made of.
* `Session.node_lasts` is the result about whole programs. -/

namespace OpenApiDoc

open Build World Copying

variable {w w' : World}

/-! ### Copies of any value -/

/-- The second value is the first one with its objects renamed, down to the last part. -/
def World.Mirrors (w : World) (v : Value) (w' : World) (v' : Value) : Prop :=
  ∃ ρ : Addr → Addr, v' = v.rename ρ ∧ ∀ a, w.Reaches v a → w'.get (ρ a) = (w.get a).rename ρ

theorem Copying.Image.mirrors {D : Addr → Prop} {m : Memo} (hd : w.Copyable D)
    (h : Image w D m w') {a : Addr} (ha : Copied w D m a) :
    w.Mirrors (.obj a) w' (.obj (target m a)) :=
  ⟨target m, rfl, fun _ hb => h.get hd (h.copied_of_reaches hd ha hb)⟩

namespace World

/-- What a node is copied to looks the same, and is data if the fragment is. -/
theorem Tidy.schema (h : w.Tidy) {f : Addr} (hf : f < w.size) :
    (Node.schema f).Gives w fun u w' => w.Mirrors (.obj f) w' u ∧
      (w.IsData (.obj f) → w'.IsData u ∧ w'.tree u = w.tree (.obj f)) := by
  have hd := h.copyable
  refine (Build.copyObject_gives hd hf).bind ?_
  rintro b w' _ ⟨m, image, settled, rfl⟩
  have copied : Copied w (· < w.size) m f := ⟨hf, settled⟩
  refine .pure ⟨image.mirrors hd copied, fun data => image.data h.owned hd data fun c hc => ?_⟩
  obtain rfl : f = c := by simpa using hc
  exact copied

/-- What is reached is the same, and so is what can be seen of data. -/
theorem Tidy.same_data (h : w'.Tidy) (size : w.size ≤ w'.size) {v : Value}
    (same : ∀ a, w.Reaches v a → w'.get a = w.get a) (data : w.IsData v) :
    w'.IsData v ∧ w'.tree v = w.tree v :=
  data.agree fun a ha =>
    ⟨Nat.lt_of_lt_of_le (data.reached ha).lt_size size, same a ha, h.bare a⟩

theorem Mirrors.of_same {w₀ : World} {v u : Value} (h : w.Mirrors v w' u)
    (same : ∀ a, w₀.Reaches v a → w.get a = w₀.get a) : w₀.Mirrors v w' u := by
  obtain ⟨ρ, hu, get⟩ := h
  have reaches {a : Addr} (ha : w₀.Reaches v a) : w.Reaches v a := by
    obtain ⟨b, rfl, hb⟩ := ha
    refine ⟨b, rfl, ?_⟩
    induction hb with
    | refl => exact .refl
    | @tail c d hbc hcd ih =>
        refine ih.tail ?_
        rw [Holds, same c ⟨b, rfl, hbc⟩]
        exact hcd
  exact ⟨ρ, hu, fun a ha => by rw [get a (reaches ha), same a ha]⟩

/-! ### The enclosure of a node -/

/-- All objects from `base` on but the node `n` and its fragment `f`, which is the door. -/
def enclosureOf (w : World) (base n f : Addr) : Enclosure where
  doors a := a = f
  inside a := base ≤ a ∧ a < w.size ∧ a ≠ n ∧ a ≠ f ∧ ¬ w.Inert (.obj a)
  spared := False

/-- A node with an enclosure of its own, in which everything else is that it has been made with. -/
structure Owns (w : World) (E : Enclosure) (n f : Addr) (o : Bool) : Prop where
  node : w.get n = .node f o
  doors : E.doors = (· = f)
  unspared : ¬ E.spared
  closed : w.Encloses E
  within : ∀ a b, a = f ∨ E.inside a → w.Holds a b → b = n ∨ b = f ∨ E.inside b ∨ w.Inert (.obj b)

theorem Made.owns (ht : w'.Tidy) {n : Addr} (h : w.Made (.obj n) w') :
    ∃ E f o, w'.Owns E n f o ∧ ∀ a, E.inside a → w.size ≤ a ∧ a ≠ n := by
  obtain ⟨base, n', f, o, hbase, hn, heq, node, below, above⟩ := h.split
  obtain rfl : n = n' := by simpa using heq
  have holds {b : Addr} : w'.Holds n b ↔ b = f := by simp [Holds, node, Object.parts]
  obtain ⟨es, hf⟩ := ht.fragment n f o node
  have fragment : base ≤ f := by
    refine (above n f hn (holds.mpr rfl)).resolve_right fun hi => ?_
    simpa [hf, Object.isInert] using hi.kind
  refine ⟨w'.enclosureOf base n f, f, o, ⟨node, rfl, id, ⟨ht, fun a b ha hd hab hb => ?_,
    fun a ha => ha.2.1, fun a ha => ha.2.2.2.2, fun a ha => ⟨es, ?_⟩, False.elim⟩,
    fun a b ha hab => ?_⟩,
    fun a ha => ⟨Nat.le_trans hbase ha.1, ha.2.2.1⟩⟩
  · -- What holds something inside is no older, so it is the node, or it is inert.
    obtain ⟨hb, -, -, hbf, not_inert⟩ := hb
    rcases Nat.lt_or_ge a base with old | young
    · exact Nat.not_lt.mpr hb (below a b old hab)
    · by_cases hna : a = n
      · subst hna
        exact hbf (holds.mp hab)
      · have inert : w'.Inert (.obj a) :=
          Classical.not_not.mp fun hi => ha ⟨young, hab.lt_size, hna, hd, hi⟩
        exact not_inert (inert.part hab)
  · rw [show a = f from ha, hf]
  · have young : base ≤ a := by
      rcases ha with rfl | ha
      · exact fragment
      · exact ha.1
    rcases above a b young hab with hb | hb
    · by_cases hbn : b = n
      · exact .inl hbn
      by_cases hbf : b = f
      · exact .inr (.inl hbf)
      by_cases hi : w'.Inert (.obj b)
      · exact .inr (.inr (.inr hi))
      · exact .inr (.inr (.inl ⟨hb, ht.part a b hab, hbn, hbf, hi⟩))
    · exact .inr (.inr (.inr hb))

/-- Nothing that the node reaches is changed. -/
theorem Owns.same {E : Enclosure} {n f : Addr} {o : Bool} (h : w.Owns E n f o)
    (k : Spares E w w') : ∀ a, w.Reaches (.obj n) a → w'.get a = w.get a := by
  have kinds {a : Addr} (ha : w.Reaches (.obj n) a) :
      a = n ∨ a = f ∨ E.inside a ∨ w.Inert (.obj a) := by
    obtain ⟨_, ⟨⟩, path⟩ := ha
    induction path with
    | refl => exact .inl rfl
    | @tail b c _ hbc ih =>
        rcases ih with rfl | rfl | hb | hb
        · exact .inr (.inl (by simpa [Holds, h.node, Object.parts] using hbc))
        · exact h.within _ c (.inl rfl) hbc
        · exact h.within _ c (.inr hb) hbc
        · exact .inr (.inr (.inr (hb.part hbc)))
  have unwritten {a : Addr} (hi : w.Inert (.obj a)) : (w.get a).isWritten = false := by
    have kind := hi.kind
    cases hg : w.get a <;> simp_all [Object.isInert, Object.isWritten]
  intro a ha
  rcases kinds ha with rfl | rfl | hin | hi
  · exact k.get a (lt_size_of_get h.node (by simp)) (.inr (.inr (by simp [h.node, Object.isWritten])))
  · have door : E.doors a := h.doors ▸ rfl
    exact k.get a (h.closed.door_lt door) (.inr (.inl door))
  · exact k.get a (h.closed.lt a hin) (.inl hin)
  · exact k.get a hi.has (.inr (.inr (unwritten hi)))

/-! ### What can be seen of a node -/

/-- The node is in `w'` what it is in `w`, with all that it reaches. Its flag is `o`, its schema is a
copy of what the fragment is in `w`, and its attributes cannot be set. -/
structure Lasts (load : Value → Build Value) (w : World) (n f : Addr) (o : Bool) (w' : World) :
    Prop where
  same : ∀ a, w.Reaches (.obj n) a → w'.get a = w.get a
  flag : (Call.invoke load .getAttribute [.obj n, .str "is_optional"] []).run w' =
    .ok (.bool o) w'
  schema : (Call.invoke load .toSchema [.obj n] []).Gives w' fun u w'' =>
    w.Mirrors (.obj f) w'' u ∧
      (w.IsData (.obj f) → w''.IsData u ∧ w''.tree u = w.tree (.obj f))
  frozen : ∀ name u, name.startsWith "_" = false →
    (Call.invoke load .setAttribute [.obj n, .str name, u] []).run w' =
      .error (.invalid .node [⟨.frozen, [.name name], .value u⟩]) w'

theorem Owns.lasts (load : Value → Build Value) {E : Enclosure} {n f : Addr} {o : Bool}
    (h : w.Owns E n f o) (k : Spares E w w') (ht : w'.Tidy) : Lasts load w n f o w' := by
  have same := h.same k
  have size := k.size
  have hn : w'.get n = .node f o := (same n ⟨n, rfl, .refl⟩).trans h.node
  have hf : f < w'.size := ht.part n f (by simp [Holds, hn, Object.parts])
  have same_fragment (a : Addr) (ha : w.Reaches (.obj f) a) : w'.get a = w.get a := by
    refine same a (ha.part (v := .obj f) ?_)
    simp [h.node, Object.parts]
  refine ⟨same, ?_, ?_, fun name u hname => Access.setAttribute_node hn hname u⟩
  · show (Access.getAttribute (.obj n) (.str "is_optional")).Reads w' (.bool o)
    simp [Build.Reads, Access.getAttribute, ht.attributes, hn, Access.attributes, Object.fields?,
      Object.nodeFields, List.lookup_cons]
  · have parts : Node.parts? w' (.obj n) = some (f, o) := by simp [Node.parts?, hn]
    have bound : (Signature.of (Model.node.name ++ "." ++ "to_schema") [Call.itself] []).bind
        [.obj n] [] = pure ⟨[(Call.itself, .obj n)], []⟩ := rfl
    have schema : (Node.schema f).Gives w' fun u w'' => w.Mirrors (.obj f) w'' u ∧
        (w.IsData (.obj f) → w''.IsData u ∧ w''.tree u = w.tree (.obj f)) := by
      refine (ht.schema hf).mono fun u w'' _ hu => ?_
      obtain ⟨mirrors, data⟩ := hu
      refine ⟨mirrors.of_same same_fragment, fun hd => ?_⟩
      obtain ⟨hd', tree⟩ := ht.same_data size same_fragment hd
      exact ⟨(data hd').1, (data hd').2.trans tree⟩
    simp only [Call.invoke, Call.method]
    refine .get_bind ?_
    simp only [parts, bound]
    exact schema

end World

/-! ### Programs -/

namespace Session

variable {load : Value → Build Value} {s : Session} {c : Command}

theorem initial_get (a : Addr) (ha : a < World.initial.size) :
    ∃ c, World.initial.get a = .constructor c := by
  have lt : a < (Constructor.all.map Object.constructor).length := by
    simpa [World.initial, World.size] using ha
  rw [List.length_map] at lt
  refine ⟨Constructor.all.get ⟨a, lt⟩, ?_⟩
  simp [World.initial, World.get, List.getElem?_eq_getElem lt]

theorem initial_tidy : World.initial.Tidy := by
  have none {a : Addr} {v : Value} (hv : v ∈ (World.initial.get a).parts) : False := by
    by_cases ha : a < World.initial.size
    · obtain ⟨c, hc⟩ := initial_get a ha
      simp [hc, Object.parts] at hv
    · simp [get_of_size_le (Nat.not_lt.mp ha), Object.parts] at hv
  refine ⟨rfl, fun a ha => ?_, fun a b hab => (none hab).elim, fun a xs hx b hb => ?_,
    fun a es hg e he => ?_, fun a f o hg => ?_⟩
  · obtain ⟨c, hc⟩ := initial_get a ha
    rw [hc]
    rfl
  · exact (none (a := a) (v := .obj b) (by simpa [hx, Object.parts] using hb)).elim
  · exact (none (a := a) (v := e.1) (by rw [hg]; exact Object.mem_parts_key he)).elim
  · exact (none (a := a) (v := .obj f) (by simp [hg, Object.parts])).elim

theorem start_guarded : start.Guarded .empty where
  encloses := initial_tidy.encloses_empty
  held v hv := by
    obtain ⟨c, -, rfl⟩ := List.mem_map.mp hv
    refine ⟨?_, fun hi => hi⟩
    cases c <;> decide

/-- The command makes the node, and gives none that was there before. -/
structure Creates (load : Value → Build Value) (s : Session) (c : Command) (n : Addr) : Prop where
  makes : c.makesNodes
  held : (s.next load c).held = .obj n :: s.held
  new : s.world.size ≤ n

theorem Creates.made {n : Addr} {E : Enclosure} (h : s.Creates load c n) (hs : s.Guarded E)
    (hc : s.Allows E.doors c) : s.world.Made (.obj n) (s.next load c).world := by
  have hn := h.held
  rw [next] at hn ⊢
  cases c with
  | call f args named =>
      have makes : Call.makesNodes f = true := h.makes
      have harmless : Call.writesOrLoads f = false := by
        cases f <;> first | rfl | cases makes
      have invoked := Call.invoke_widens load f harmless fun v hv => hs.takes hc hv
      obtain ⟨E', -, after⟩ := invoked hs.encloses
      cases run : (Command.run load (.call f args named)).run s.world with
      | error e w => simp [run] at hn
      | ok u w =>
          obtain rfl : u = .obj n := by simpa [run] using hn
          rw [show (Call.invoke load f args named).run s.world = .ok (.obj n) w from run] at after
          refine (after.2.2.resolve_left fun hu => ?_).2 makes
          exact Nat.not_lt.mpr h.new hu.1
  | _ => cases h.makes

/-- Right after a node has been made, the program holds the node, and nothing that is in its
enclosure. -/
theorem Creates.owns {n : Addr} {E : Enclosure} (h : s.Creates load c n) (hs : s.Guarded E)
    (hc : s.Allows E.doors c) (he : ¬ E.spared) :
    ∃ E' f o, (s.next load c).world.Owns E' n f o ∧ (s.next load c).Guarded E' := by
  obtain ⟨E₁, -, guarded, spares⟩ : ∃ E', E.Widens s.world E' ∧ (s.next load c).Guarded E' ∧
      Spares E s.world (s.next load c).world :=
    next_guarded hs hc fun spared => absurd spared he
  obtain ⟨E', f, o, owns, new⟩ := (h.made hs hc).owns guarded.encloses.tidy
  refine ⟨E', f, o, owns, owns.closed, fun v hv => ?_⟩
  rw [h.held] at hv
  rcases List.mem_cons.mp hv with rfl | hv
  · exact ⟨lt_size_of_get owns.node (by simp), fun hi => (new n hi).2 rfl⟩
  · have had := hs.held v hv
    cases v with
    | atom a => trivial
    | obj a =>
        exact ⟨Nat.lt_of_lt_of_le had.1 spares.size,
          fun hi => Nat.not_lt.mpr (new a hi).1 had.1⟩

/-- Whatever a program does first, a node that it makes lasts through whatever it does then, as long
as the fragment is shunned. -/
theorem node_lasts (load : Value → Build Value) {before : List Command} {c : Command} {n : Addr}
    (hb : start.Follows load (fun _ => False) before)
    (hc : (start.run load before).Allows (fun _ => False) c)
    (made : (start.run load before).Creates load c n) :
    ∃ f o, ((start.run load before).next load c).world.get n = .node f o ∧
      ∀ after, ((start.run load before).next load c).Follows load (· = f) after →
        Lasts load ((start.run load before).next load c).world n f o
          (((start.run load before).next load c).run load after).world := by
  obtain ⟨E, widens, guarded, -⟩ := run_guarded start_guarded hb False.elim
  have unspared : ¬ E.spared := fun hs => (widens.spared ▸ hs : Enclosure.empty.spared)
  obtain ⟨E', f, o, owns, guarded'⟩ := made.owns guarded (widens.doors ▸ hc) unspared
  refine ⟨f, o, owns.node, fun after ha => ?_⟩
  obtain ⟨E₂, -, guarded₂, spares⟩ := run_guarded guarded' (owns.doors ▸ ha)
    fun hs => absurd hs owns.unspared
  exact owns.lasts load spares guarded₂.encloses.tidy

/-! ### Programs that write -/

instance (load : Value → Build Value) (s : Session) (c : Command) (n : Addr) :
    Decidable (s.Creates load c n) :=
  decidable_of_iff (c.makesNodes ∧ (s.next load c).held = .obj n :: s.held ∧ s.world.size ≤ n)
    ⟨fun h => ⟨h.1, h.2.1, h.2.2⟩, fun h => ⟨h.makes, h.held, h.new⟩⟩

/-- Make a mapping with one entry. -/
def filling : List Command := [.mapping, .call .setItem [.obj 16, .str "x", .int 1] []]

/-- Make a node with what the mapping holds. -/
def making : Command := .call (.construct .string .asBuilt) [] [("extra", .obj 16)]

/-- Write to the mapping, to a schema of the node, to the fragment of a node that was derived from it,
and to the flag. -/
def rewriting : List Command := [
  .call .setItem [.obj 16, .str "x", .int 2] [],
  .call .toSchema [.obj 19] [],
  .call .setItem [.obj 20, .str "x", .int 3] [],
  .call .nullable [.obj 19] [],
  .call .getAttribute [.obj 24, .str "fragment"] [],
  .call .setItem [.obj 23, .str "x", .int 4] [],
  .call .setAttribute [.obj 19, .str "is_optional", .bool true] []]

theorem node_lasts_rewriting :
    ((start.run pure filling).next pure making).world.get 19 = .node 18 false ∧
      Lasts pure ((start.run pure filling).next pure making).world 19 18 false
        (((start.run pure filling).next pure making).run pure rewriting).world := by
  have get : ((start.run pure filling).next pure making).world.get 19 = .node 18 false := by
    have parts : Node.parts? ((start.run pure filling).next pure making).world (.obj 19) =
        some (18, false) := by decide +kernel
    obtain ⟨a, ha, hg⟩ := Node.parts?_eq parts
    obtain rfl : 19 = a := by simpa using ha
    exact hg
  have filled : start.Follows pure (fun _ => False) filling := by decide +kernel
  have allowed : (start.run pure filling).Allows (fun _ => False) making := by decide +kernel
  have made : (start.run pure filling).Creates pure making 19 := by decide +kernel
  obtain ⟨f, o, hn, lasts⟩ := node_lasts pure filled allowed made
  obtain ⟨rfl, rfl⟩ : 18 = f ∧ false = o := by simpa [get] using hn
  exact ⟨get, lasts rewriting (by decide +kernel)⟩

/-- A node is given to a parameter as further entries, and the fragment read from what that gives. -/
def exposing : List Command := [
  .call (.construct .string .asBuilt) [] [],
  .call .toSchema [.obj 18] [],
  .mapping,
  .call .parameter [.str "a", .str "query", .obj 20] [("extra", .obj 18)],
  .call .getItem [.obj 24, .str "fragment"] [],
  .call .setItem [.obj 17, .str "x", .int 1] [],
  .call .toSchema [.obj 18] [],
  .call .equal [.obj 19, .obj 25] []]

/-- A node with a constructor under an extra key is asked for its schema twice. -/
def comparing : List Command := [
  .mapping,
  .call .setItem [.obj 16, .str "x", .obj 3] [],
  .call (.construct .string .asBuilt) [] [("extra", .obj 16)],
  .call .toSchema [.obj 20] [],
  .call .toSchema [.obj 20] [],
  .call .equal [.obj 21, .obj 23] []]

/-- A node and a part of its fragment are put into the fragment of another node. Its schema has copies
of both, and the copy of the node holds the copy of the part. -/
def copying : List Command := [
  .mapping,
  .call .setItem [.obj 16, .str "a", .int 1] [],
  .mapping,
  .call .setItem [.obj 17, .str "x", .obj 16] [],
  .call (.construct .string .asBuilt) [] [("extra", .obj 17)],
  .call .getAttribute [.obj 21, .str "fragment"] [],
  .call .getItem [.obj 20, .str "x"] [],
  .call (.construct .string .asBuilt) [] [],
  .call .getAttribute [.obj 24, .str "fragment"] [],
  .call .setItem [.obj 23, .str "k", .obj 21] [],
  .call .setItem [.obj 23, .str "x", .obj 19] [],
  .call .toSchema [.obj 24] [],
  .call .getItem [.obj 25, .str "k"] [],
  .call .toSchema [.obj 26] [],
  .call .getItem [.obj 25, .str "x"] [],
  .call .setItem [.obj 28, .str "a", .int 2] [],
  .call .toSchema [.obj 26] [],
  .call .equal [.obj 29, .obj 31] []]

/-- The value that is asked for an attribute. -/
def asked : Command → Option Value
  | .call .getAttribute (v :: _) _ => some v
  | _ => none

/-- The program compares two schemas of the node, and they are not equal. It has not asked the node for
its fragment. -/
abbrev ShowsUnlike (program : List Command) (node : Addr) : Prop :=
  start.Follows pure (fun _ => False) program ∧ (∀ c ∈ program, asked c ≠ some (.obj node)) ∧
    (start.run pure program).held.head? = some (.bool false)

/-- Schemas of one node need not be equal. -/
theorem schemas_unlike :
    ShowsUnlike exposing 18 ∧ ShowsUnlike comparing 20 ∧ ShowsUnlike copying 26 := by
  decide +kernel

end Session
end OpenApiDoc
