import OpenApiDoc.Builder.Eval
import OpenApiDoc.Proofs.Calls
import OpenApiDoc.Proofs.Writing

/-! # Programs that hold on to values

A `Session` is a program on its way: the world it has made and the values that it can name. Its next
`Command` makes a collection or calls a function with such values. An empty mapping is filled by
assigning its items.

* `Session.Allows` says which commands a program may give: it uses atoms and the values that it
  holds, loads no documents, sets attributes on nodes only, under names without an underscore in
  front, and gives no function one of the objects that it shuns.
* `Session.Guarded` is the invariant that an enclosure is closed and none of its objects is held.
  `Session.next_guarded` is one command, `Session.run_guarded` a whole program. -/

namespace OpenApiDoc

open Build World

/-- What a program does next. -/
inductive Command where
  | moment (m : Moment)
  | list (items : List Value)
  | tuple (items : List Value)
  | mapping
  | call (f : Callee) (args : List Value) (named : List (String × Value))

namespace Command

/-- The values that a command uses. -/
def values : Command → List Value
  | .moment _ => []
  | .list xs => xs
  | .tuple xs => xs
  | .mapping => []
  | .call _ args named => args ++ named.map (·.2)

def run (load : Value → Build Value) : Command → Build Value
  | .moment m => return .obj (← Build.new (.moment m))
  | .list xs => Build.newList xs
  | .tuple xs => Build.newTuple xs
  | .mapping => Build.newMapping []
  | .call f args named => Call.invoke load f args named

/-- The command calls a function that makes nodes. -/
def makesNodes : Command → Bool
  | .call f _ _ => Call.makesNodes f
  | _ => false

/-- The command does nothing that is not followed here: it loads no document, and sets attributes on
nodes only, under names without an underscore in front. -/
def Followed (w : World) : Command → Prop
  | .call .loadDocument _ _ => False
  | .call .setAttribute (v :: .str name :: _) _ => w.IsNode v ∧ name.startsWith "_" = false
  | _ => True

instance (w : World) (c : Command) : Decidable (c.Followed w) := by
  unfold Followed
  split <;> infer_instance

end Command

/-- The value is one of these objects. -/
def Value.Among (P : Addr → Prop) : Value → Prop
  | .atom _ => False
  | .obj a => P a

instance (P : Addr → Prop) [DecidablePred P] (v : Value) : Decidable (v.Among P) := by
  cases v
  · exact .isFalse id
  · exact ‹DecidablePred P› _

/-- No function is given one of these objects, or reads one out of its arguments. -/
def Command.Shuns (w : World) (shunned : Addr → Prop) : Command → Prop
  | .call f args named => ∀ v ∈ args ++ named.map (·.2), ¬ v.Among shunned ∧
      ∀ u ∈ Call.readParts w f v, ¬ u.Among shunned
  | _ => True

instance (w : World) (P : Addr → Prop) [DecidablePred P] (c : Command) :
    Decidable (c.Shuns w P) := by
  unfold Command.Shuns
  split <;> infer_instance

/-- The command does not write to a part of the fragment of a node. -/
def Command.SparesFragments (w : World) : Command → Prop
  | .call .setItem (.obj a :: _) _ => ¬ w.InFragment a
  | _ => True

/-- A world with the values that a program holds. -/
structure Session where
  world : World
  held : List Value

namespace Session

/-- The constructors are at hand from the start. -/
def start : Session where
  world := World.initial
  held := Constructor.all.map fun c => .obj (Expr.constructorAddr c)

/-- Give a command. If it fails there is no value to hold. -/
def next (load : Value → Build Value) (s : Session) (c : Command) : Session :=
  match (c.run load).run s.world with
  | .ok v w => ⟨w, v :: s.held⟩
  | .error _ w => ⟨w, s.held⟩

/-- Give commands one after the other. -/
def run (load : Value → Build Value) (s : Session) (cs : List Command) : Session :=
  cs.foldl (next load) s

/-- The value is an atom or is held. -/
def Knows (s : Session) (v : Value) : Prop := (∃ a, v = .atom a) ∨ v ∈ s.held

instance (s : Session) (v : Value) : Decidable (s.Knows v) :=
  match v with
  | .atom a => .isTrue (.inl ⟨a, rfl⟩)
  | .obj a => decidable_of_iff (.obj a ∈ s.held) (by simp [Knows])

/-- The command may be given. -/
structure Allows (s : Session) (shunned : Addr → Prop) (c : Command) : Prop where
  followed : c.Followed s.world
  known : ∀ v ∈ c.values, s.Knows v
  shuns : c.Shuns s.world shunned

/-- Commands that may be given one after the other. -/
def Follows (load : Value → Build Value) (shunned : Addr → Prop) : Session → List Command → Prop
  | _, [] => True
  | s, c :: cs => s.Allows shunned c ∧ Follows load shunned (s.next load c) cs

instance (s : Session) (P : Addr → Prop) [DecidablePred P] (c : Command) :
    Decidable (s.Allows P c) :=
  decidable_of_iff (c.Followed s.world ∧ (∀ v ∈ c.values, s.Knows v) ∧ c.Shuns s.world P)
    ⟨fun h => ⟨h.1, h.2.1, h.2.2⟩, fun h => ⟨h.followed, h.known, h.shuns⟩⟩

instance follows (load : Value → Build Value) (P : Addr → Prop) [DecidablePred P] (s : Session)
    (cs : List Command) : Decidable (s.Follows load P cs) :=
  match cs with
  | [] => .isTrue trivial
  | c :: cs =>
      have := follows load P (s.next load c) cs
      inferInstanceAs (Decidable (s.Allows P c ∧ (s.next load c).Follows load P cs))

/-! ### One command -/

variable {load : Value → Build Value} {s : Session} {E : Enclosure} {c : Command}

/-- The enclosure is closed, and the program holds nothing that is inside. -/
structure Guarded (E : Enclosure) (s : Session) : Prop where
  encloses : s.world.Encloses E
  held : ∀ v ∈ s.held, s.world.Open E v

theorem Guarded.open (h : s.Guarded E) {v : Value} (hv : s.Knows v) : s.world.Open E v := by
  rcases hv with ⟨a, rfl⟩ | hv
  · trivial
  · exact h.held v hv

theorem Guarded.takes (h : s.Guarded E) {f : Callee} {args : List Value}
    {named : List (String × Value)} (hc : s.Allows E.doors (.call f args named)) {v : Value}
    (hv : v ∈ args ++ named.map (·.2)) : Call.Takes E s.world f v := by
  have usable {u : Value} (hu : s.world.Open E u) (apart : ¬ u.Among E.doors) :
      s.world.Usable E u := by
    cases u with
    | atom a => trivial
    | obj a => exact ⟨hu.1, hu.2, apart⟩
  have shuns := hc.shuns v hv
  have self := usable (h.open (hc.known v hv)) shuns.1
  refine ⟨self, fun u hu => usable ?_ (shuns.2 u hu)⟩
  unfold Call.readParts at hu
  split at hu
  · exact h.encloses.listed self u hu
  · exact h.encloses.listed self u hu
  · exact h.encloses.entryValues self u hu
  · simp at hu

/-- What a command that only adds objects leads to. -/
theorem Guarded.widens (h : s.Guarded E)
    (hc : (c.run load).Widens E s.world fun u E' w' => w'.Open E' u) :
    ∃ E', E.Widens s.world E' ∧ (s.next load c).Guarded E' ∧
      Spares E s.world (s.next load c).world := by
  obtain ⟨E', widens, after⟩ := hc h.encloses
  refine ⟨E', widens, ?_⟩
  have held {w : World} (k : s.world.Extends w) : ∀ v ∈ s.held, w.Open E' v := fun v hv =>
    (widens.open (h.held v hv)).mono k.size
  rw [next]
  cases run : (c.run load).run s.world with
  | ok u w =>
      obtain ⟨k, hw, hu⟩ : s.world.Extends w ∧ w.Encloses E' ∧ w.Open E' u := by
        simpa [run] using after
      refine ⟨⟨hw, fun v hv => ?_⟩, k.spares⟩
      rcases List.mem_cons.mp hv with rfl | hv
      · exact hu
      · exact held k v hv
  | error f w =>
      obtain ⟨k, hw⟩ : s.world.Extends w ∧ w.Encloses E' := by simpa [run] using after
      exact ⟨⟨hw, held k⟩, k.spares⟩

/-- What a command that writes leads to. -/
theorem Guarded.writes (h : s.Guarded E) (hc : (c.run load).Writes E s.world) :
    (s.next load c).Guarded E ∧ Spares E s.world (s.next load c).world := by
  unfold Build.Writes at hc
  rw [next]
  cases run : (c.run load).run s.world with
  | ok u w =>
      obtain ⟨⟨a, rfl⟩, rewrites⟩ : (∃ a, u = .atom a) ∧ Rewrites E s.world w := by
        simpa [run] using hc
      have spares := rewrites.spares
      refine ⟨⟨h.encloses.rewrites rewrites, fun v hv => ?_⟩, spares⟩
      rcases List.mem_cons.mp hv with rfl | hv
      · trivial
      · exact (h.held v hv).mono spares.size
  | error f w =>
      obtain rfl : w = s.world := by simpa [run] using hc
      exact ⟨h, .refl E _⟩

theorem ternary_writes {name : String} {run : Value → Value → Value → Build Value}
    {args : List Value} {named : List (String × Value)} {w : World}
    (h : ∀ u v x, args = [u, v, x] → (run u v x).Writes E w) :
    (Call.ternary name run args named).Writes E w := by
  unfold Call.ternary Call.unnamed
  split
  · match args, h with
    | [u, v, x], h => exact h u v x rfl
    | [], _ | [_], _ | [_, _], _ | _ :: _ :: _ :: _ :: _, _ => exact .throw _
  · exact .throw _

/-- A command that may be given keeps the enclosure closed, and nothing inside it is changed. -/
theorem next_guarded (h : s.Guarded E) (hc : s.Allows E.doors c)
    (hs : E.spared → c.SparesFragments s.world) :
    ∃ E', E.Widens s.world E' ∧ (s.next load c).Guarded E' ∧
      Spares E s.world (s.next load c).world := by
  have known {v : Value} (hv : v ∈ c.values) : s.world.Open E v := h.open (hc.known v hv)
  cases c with
  | moment m =>
      have made : (Command.run load (.moment m)).Keeps (Encloses E) s.world
          fun u w' => w'.Usable E u := (Keeps.add (.moment m)).bind fun a w _ ha => .pure ha.2
      exact h.widens (made.widens fun u w hu => hu.open)
  | list xs => exact h.widens ((newList_keeps fun v => known).widens fun u w hu => hu.open)
  | tuple xs => exact h.widens ((newTuple_keeps fun v => known).widens fun u w hu => hu.open)
  | mapping =>
      have none : OpenEntries E s.world [] := by simp [OpenEntries]
      exact h.widens ((newMapping_keeps none).widens fun u w hu => hu.2.open)
  | call f args named =>
      have takes {v : Value} (hv : v ∈ args ++ named.map (·.2)) := h.takes hc hv
      by_cases hf : Call.writesOrLoads f = false
      · have invoked := Call.invoke_widens load f hf fun v => takes
        refine h.widens (invoked.mono fun u E' w' widens k hu => ?_)
        rcases hu with hu | hu
        · exact (widens.usable hu).open.mono k.size
        · exact hu.1
      · refine ⟨E, .refl E _, h.writes ?_⟩
        have among {v : Value} (hv : v ∈ args) := takes (List.mem_append_left _ hv)
        cases f with
        | setItem =>
            refine ternary_writes fun u k x hx => ?_
            subst hx
            refine Access.setItem_writes h.encloses (among (by simp)).1 (among (by simp)).1
              (among (by simp)).1.open fun spared a ha => ?_
            subst ha
            exact hs spared
        | setAttribute =>
            refine ternary_writes fun u k x hx => ?_
            subst hx
            refine Access.setAttribute_writes fun name hn => ?_
            subst hn
            exact hc.followed
        | loadDocument => exact hc.followed.elim
        | _ => exact absurd rfl hf

/-! ### Whole programs -/

/-- No command writes to a part of the fragment of a node. -/
def SparesFragments (load : Value → Build Value) : Session → List Command → Prop
  | _, [] => True
  | s, c :: cs => c.SparesFragments s.world ∧ SparesFragments load (s.next load c) cs

/-- A program that may be run keeps the enclosure closed, and nothing inside it is changed. -/
theorem run_guarded {cs : List Command} (h : s.Guarded E) (hcs : s.Follows load E.doors cs)
    (hs : E.spared → s.SparesFragments load cs) :
    ∃ E', E.Widens s.world E' ∧ (s.run load cs).Guarded E' ∧
      Spares E s.world (s.run load cs).world := by
  induction cs generalizing s E with
  | nil => exact ⟨E, .refl E _, h, .refl E _⟩
  | cons c cs ih =>
      obtain ⟨E₁, widens, guarded, spares⟩ := next_guarded h hcs.1 fun spared => (hs spared).1
      obtain ⟨E₂, widens', guarded', spares'⟩ := ih guarded (widens.doors ▸ hcs.2)
        fun spared => (hs (widens.spared ▸ spared)).2
      exact ⟨E₂, widens.trans widens' spares.size, guarded', spares.trans spares' widens⟩

end Session
end OpenApiDoc
