import OpenApiDoc.Proofs.Enclosures

/-! # Copies are made outside

Whatever is copied, the copy is outside of an enclosure, also when it is a copy of what is inside.

* `Build.copyObject_keeps`, `Build.copyNode_keeps`: copies that keep what is shared.
* `World.Grown` says of a value that it was made since some address on, and that it is a sprout of
  what was made if fragments are spared. `Value.plain_grown`: copies as trees are. -/

namespace OpenApiDoc

open Copying

variable {E : Enclosure} {w w' v : World} {m : Memo}

/-- An inert value has an inert copy. -/
theorem Copying.Image.inert {D : Addr → Prop} (hd : v.Copyable D) (h : Image v D m w') {k : Value}
    (hk : v.Inert k) (hc : ∀ a, k = .obj a → Copied v D m a) : w'.Inert (k.rename (target m)) := by
  induction hk with
  | atom a => exact .atom a
  | @moment a m hg => exact .moment (by rw [h.get hd (hc a rfl), hg]; rfl)
  | @constructor a c hg => exact .constructor (by rw [h.get hd (hc a rfl), hg]; rfl)
  | @tuple a xs lt hg _ ih =>
      refine .tuple (h.target_lt hd (hc a rfl)) (by rw [h.get hd (hc a rfl), hg]; rfl) ?_
      intro u hu
      obtain ⟨x, hx, rfl⟩ := List.mem_map.mp hu
      refine ih x hx fun c hxc => h.part hd (hc a rfl) ?_
      rw [World.Holds, hg]
      exact hxc ▸ hx

/-- What takes the place of an object in a copy is usable. -/
theorem Copying.Image.usable {D : Addr → Prop} (hv : v.Encloses E) (hd : v.Copyable D)
    (h : Image v D m w') {a : Addr} (ha : Copied v D m a) : w'.Usable E (.obj (target m a)) := by
  have lt := h.target_lt hd ha
  rcases h.new_or_fixed ha with new | ⟨fixed, same⟩
  · exact ⟨lt, fun hi => Nat.not_lt.mpr new (hv.lt _ hi),
      fun hi => Nat.not_lt.mpr new (hv.door_lt hi)⟩
  · rw [same] at lt ⊢
    have inert := fixed.inert (hd.lt a ha.1) hv.tidy.part
    exact ⟨lt, (hv.usable_of_inert inert).2⟩

/-- The objects of a copy may be added outside. -/
theorem Copying.Image.joins (hv : v.Encloses E) (h : Image v (· < v.size) m w')
    (k : w.Extends w') (hs : w.size = v.size) : World.Joins E w w' := by
  have hd := hv.tidy.copyable
  have from_memo {b : Addr} (hb : w.size ≤ b) (lt : b < w'.size) :
      ∃ a, Copied v (· < v.size) m a ∧ b = target m a ∧
        w'.get b = (v.get a).rename (target m) := by
    obtain ⟨a, ha⟩ := h.only b (hs ▸ hb) lt
    have copied : Copied v (· < v.size) m a := ⟨(h.record.copy a b ha).1, .inr ⟨b, ha⟩⟩
    have ht : b = target m a := by simp [target, ha]
    exact ⟨a, copied, ht, ht ▸ h.get hd copied⟩
  have from_node {b f : Addr} {o : Bool} (hb : w.size ≤ b) (hg : w'.get b = .node f o) :
      ∃ a g o', v.get a = .node g o' ∧ Copied v (· < v.size) m g ∧ target m g = f := by
    obtain ⟨a, copied, -, hg'⟩ := from_memo hb (World.lt_size_of_get hg (by simp))
    rw [hg'] at hg
    cases ho : v.get a with
    | node g o' =>
        rw [ho] at hg
        have held : v.Holds a g := by simp [World.Holds, ho, Object.parts]
        exact ⟨a, g, o', ho, h.part hd copied held, (Object.node.inj hg).1⟩
    | _ => simp [ho, Object.rename] at hg
  refine ⟨k, fun b hb lt => ?_, fun b hb u hu => ?_, fun b hb xs hx c hc => ?_,
    fun b hb es hg e he => ?_, fun b hb f o hg => ?_, fun hs b hb f o hg => ?_⟩
  · obtain ⟨a, copied, -, hg⟩ := from_memo hb lt
    rw [hg]
    have kind := hd.kind a copied.1
    cases ho : v.get a <;> simp_all [Object.rename, Object.isCopied, Object.isData]
  · by_cases lt : b < w'.size
    · obtain ⟨a, copied, -, hg⟩ := from_memo hb lt
      rw [hg, Object.parts_rename _ (hd.kind a copied.1)] at hu
      obtain ⟨x, hx, rfl⟩ := List.mem_map.mp hu
      cases x with
      | atom c => trivial
      | obj c => exact (h.usable hv hd (h.part hd copied hx)).open
    · simp [World.get_of_size_le (Nat.not_lt.mp lt), Object.parts] at hu
  · by_cases lt : b < w'.size
    · obtain ⟨a, copied, ht, hg⟩ := from_memo hb lt
      rw [hg] at hx
      cases ho : v.get a with
      | tuple ys =>
          obtain rfl : ys.map (Value.rename (target m)) = xs := by
            simpa [ho, Object.rename] using hx
          obtain ⟨x, hy, hxc⟩ := List.mem_map.mp hc
          cases x with
          | atom d => simp at hxc
          | obj d =>
              obtain rfl : target m d = c := by simpa using hxc
              rw [ht]
              exact h.older hd copied ho hy
      | _ => simp [ho, Object.rename] at hx
    · rw [World.get_of_size_le (Nat.not_lt.mp lt)] at hx
      obtain rfl : [] = xs := by simpa using hx
      simp at hc
  · obtain ⟨a, copied, -, hg'⟩ := from_memo hb (World.lt_size_of_mapping hg)
    rw [hg'] at hg
    cases ho : v.get a with
    | mapping fs =>
        rw [ho] at hg
        obtain rfl : fs.map (fun e => (e.1.rename (target m), e.2.rename (target m))) = es := by
          simpa [Object.rename] using hg
        obtain ⟨f, hf, rfl⟩ := List.mem_map.mp he
        refine h.inert hd (hv.tidy.keys a fs ho f hf) fun c hc => h.part hd copied ?_
        rw [World.Holds, ho, ← hc]
        exact Object.mem_parts_key hf
    | _ => simp [ho, Object.rename] at hg
  · obtain ⟨a, g, o', ho, copied, rfl⟩ := from_node hb hg
    obtain ⟨es, hes⟩ := hv.tidy.fragment a g o' ho
    exact ⟨_, by rw [h.get hd copied, hes]; rfl⟩
  · obtain ⟨a, g, o', ho, copied, rfl⟩ := from_node hb hg
    exact (h.sprout hd copied (hv.untangled hs a g o' ho)).toUnshared

/-- The enclosure is closed when only the flag of a node is another. -/
theorem World.Encloses.set_flag (h : w.Encloses E) {a f : Addr} {o : Bool}
    (hg : w.get a = .node f o) (flag : Bool) : (w.set a (.node f flag)).Encloses E := by
  have lt : a < w.size := World.lt_size_of_get hg (by simp)
  have size := w.size_set a (.node f flag)
  have same := w.get_set_same (.node f flag) lt
  have other {b : Addr} (hb : b ≠ a) := w.get_set_of_ne (.node f flag) (Ne.symm hb)
  have attributes : (w.set a (.node f flag)).attributes = w.attributes := rfl
  generalize w.set a (.node f flag) = v at size same other attributes
  have parts (b : Addr) : (v.get b).parts = (w.get b).parts := by
    by_cases hb : b = a
    · rw [hb, same, hg]
      rfl
    · rw [other hb]
  have unlike {b : Addr} {p : Object} (hp : v.get b = p) (hn : p ≠ .node f flag) :
      w.get b = p := by
    rw [← hp, other]
    rintro rfl
    exact hn (hp.symm.trans same)
  have inert {u : Value} : v.Inert u ↔ w.Inert u := by
    constructor
    · refine fun hu => hu.transfer (Nat.le_of_eq size) fun b _ hi => (unlike rfl ?_)
      intro hb
      simp [hb, Object.isInert] at hi
    · refine fun hu => hu.transfer (Nat.le_of_eq size.symm) fun b _ hi => other ?_
      rintro rfl
      simp [hg, Object.isInert] at hi
  have mapping {b : Addr} {es : Entries} (he : w.get b = .mapping es) : v.get b = .mapping es := by
    rw [other, he]
    rintro rfl
    simp [hg] at he
  have node {b g : Addr} {p : Bool} (hb : v.get b = .node g p) : ∃ p', w.get b = .node g p' := by
    by_cases hba : b = a
    · subst hba
      obtain ⟨rfl, -⟩ : f = g ∧ flag = p := by simpa using same.symm.trans hb
      exact ⟨o, hg⟩
    · exact ⟨p, (other hba).symm.trans hb⟩
  refine ⟨⟨?_, fun b hb => ?_, fun b c hbc => ?_, fun b xs hx => ?_, fun b es he e hm => ?_,
    fun b g p hb => ?_⟩, fun b c hi hd hbc => ?_, fun b hb => size ▸ h.lt b hb,
    fun b hb hi => h.inert b hb (inert.mp hi), fun b hb => ?_, fun hs b g p hb => ?_⟩
  · exact attributes.trans h.tidy.attributes
  · by_cases hba : b = a
    · rw [hba, same]
      rfl
    · rw [other hba]
      exact h.tidy.kind b (size ▸ hb)
  · rw [World.Holds, parts] at hbc
    rw [size]
    exact h.tidy.part b c hbc
  · exact h.tidy.older b xs (unlike hx (by simp))
  · exact inert.mpr (h.tidy.keys b es (unlike he (by simp)) e hm)
  · obtain ⟨p', hb'⟩ := node hb
    obtain ⟨es, he⟩ := h.tidy.fragment b g p' hb'
    exact ⟨es, mapping he⟩
  · rw [World.Holds, parts] at hbc
    exact h.apart b c hi hd hbc
  · obtain ⟨es, he⟩ := h.door b hb
    exact ⟨es, mapping he⟩
  · obtain ⟨p', hb'⟩ := node hb
    have unshared := h.untangled hs b g p' hb'
    refine (unshared.transfer fun way c hc => ⟨size.symm ▸ unshared.there way c hc, ?_⟩).1
    by_cases hca : c = a
    · rw [hca, same, hg]
      exact ⟨rfl, rfl, rfl⟩
    · rw [other hca]
      exact ⟨rfl, rfl, rfl⟩

/-! ### What steps make -/

/-- The value is usable. If fragments are spared, it is a sprout of objects from `lo` on. -/
structure World.Grown (E : Enclosure) (w : World) (lo : Nat) (v : Value) : Prop where
  usable : w.Usable E v
  sprout : E.spared → w.Sprout lo w.size v

/-- Entries whose values have been made since `lo`, one after the other. -/
structure World.GrownEntries (E : Enclosure) (w : World) (lo : Nat) (es : Entries) : Prop where
  entries : World.OpenEntries E w es
  sprouts : E.spared → w.Sprouts lo w.size (es.map (·.2))

namespace Build

open World

theorem copyObject_grown {a : Addr} (ha : w.Has (.obj a))
    (hu : w.Encloses E → E.spared → w.Unshared (.obj a)) :
    (copyObject a).Keeps (Encloses E) w fun b w' => w'.Grown E w.size (.obj b) := by
  refine .from fun hw => ?_
  have hd := hw.tidy.copyable
  refine (copyObject_gives hd ha).keeps ?_
  rintro b w' - k ⟨m, image, settled, rfl⟩
  have copied : Copied w (· < w.size) m a := ⟨ha, settled⟩
  exact ⟨hw.joins (image.joins hw k rfl), image.usable hw hd copied,
    fun hs => image.sprout hd copied (hu hw hs)⟩

theorem copyObject_keeps {a : Addr} (ha : w.Has (.obj a)) :
    (copyObject a).Keeps (Encloses E) w fun b w' => w'.Usable E (.obj b) := by
  refine .from fun hw => ?_
  refine (copyObject_gives hw.tidy.copyable ha).keeps ?_
  rintro b w' - k ⟨m, image, settled, rfl⟩
  exact ⟨hw.joins (image.joins hw k rfl), image.usable hw hw.tidy.copyable ⟨ha, settled⟩⟩

/-- A new collection of what was made since `lo`. -/
theorem Keeps.collect {lo : Nat} {o : Object} (h : Admits E w o) (plain : o.isPlain)
    (hs : E.spared → w.Sprouts lo w.size o.children) :
    (Build.new o).Keeps (Encloses E) w fun a w' => w'.get a = o ∧ w'.Grown E lo (.obj a) := by
  refine .new fun hw => ⟨(hw.alloc h).1, w.get_alloc_same o, (hw.alloc h).2, fun spared => ?_⟩
  have sprouts := (hs spared).extends (w.extends_alloc o)
  have same := w.get_alloc_same o
  have plain' : ((w.alloc o).2.get (w.alloc o).1).isPlain :=
    (congrArg Object.isPlain same).trans plain
  rw [w.size_alloc]
  exact sprouts.collection (congrArg Object.children same) plain' (Nat.le_refl _)
    (by rw [w.size_alloc]; exact Nat.lt_succ_self _)

theorem newMapping_grown {lo : Nat} {es : Entries} (h : GrownEntries E w lo es) :
    (newMapping es).Keeps (Encloses E) w fun u w' => w'.Grown E lo u :=
  (Keeps.collect (.mapping h.entries) rfl h.sprouts).bind fun _ _ _ ha => .pure ha.2

/-- Values that are made one after the other. -/
theorem Keeps.mapM_grown {α : Type} {f : α → Build Value} {xs : List α}
    (h : ∀ x ∈ xs, ∀ w', w.Extends w' →
      (f x).Keeps (Encloses E) w' fun u w'' => w''.Grown E w'.size u) :
    (xs.mapM f).Keeps (Encloses E) w fun us w' =>
      (∀ u ∈ us, w'.Open E u) ∧ (E.spared → w'.Sprouts w.size w'.size us) := by
  induction xs generalizing w with
  | nil => exact .pure ⟨by simp, fun _ => .nil (Nat.le_refl _)⟩
  | cons x xs ih =>
      rw [List.mapM_cons]
      refine (h x (by simp) w (.refl w)).bind fun u w₁ k hu => ?_
      refine (ih fun z hz w₂ k' => h z (by simp [hz]) w₂ (k.trans k')).bind
        fun us w₂ k' ⟨opened, sprouts⟩ => .pure ⟨?_, fun hs => ?_⟩
      · exact List.forall_mem_cons.mpr ⟨(hu.usable.mono k'.size).open, opened⟩
      · exact .cons k.size ((hu.sprout hs).extends k') (sprouts hs)

/-- Entries whose values are made one after the other. -/
theorem Keeps.mapM_entries {α : Type} (key : α → Value) {act : α → Build Value} {xs : List α}
    (hk : ∀ x ∈ xs, w.Inert (key x))
    (h : ∀ x ∈ xs, ∀ w', w.Extends w' →
      (act x).Keeps (Encloses E) w' fun u w'' => w''.Grown E w'.size u) :
    (xs.mapM fun x => do return (key x, ← act x)).Keeps (Encloses E) w fun es w' =>
      w'.GrownEntries E w.size es := by
  induction xs generalizing w with
  | nil => exact .pure ⟨by simp [OpenEntries], fun _ => .nil (Nat.le_refl _)⟩
  | cons x xs ih =>
      rw [List.mapM_cons, bind_assoc]
      refine (h x (by simp) w (.refl w)).bind fun u w₁ k hu => ?_
      refine (ih (fun z hz => (hk z (by simp [hz])).follows k.follows)
        fun z hz w₂ k' => h z (by simp [hz]) w₂ (k.trans k')).bind
        fun es w₂ k' hes => .pure ⟨?_, fun hs => ?_⟩
      · have key := (hk x (by simp)).follows (k.trans k').follows
        exact List.forall_mem_cons.mpr ⟨⟨key, (hu.usable.mono k'.size).open⟩, hes.entries⟩
      · exact .cons k.size ((hu.sprout hs).extends k') (hes.sprouts hs)

/-- The copy of a node with a flag is a node with this flag. -/
theorem copyNode_keeps {a f : Addr} {o : Bool} (hg : w.get a = .node f o) (flag : Bool) :
    (copyNode a f flag).Keeps (World.Encloses E) w fun b w' =>
      w'.Usable E (.obj b) ∧ w.size ≤ b ∧ ∃ g, w'.get b = .node g flag := by
  refine .from fun hw => ?_
  have hv := hw.set_flag hg flag
  have ha : a < (w.set a (.node f flag)).size := by
    rw [w.size_set]
    exact World.lt_size_of_get hg (by simp)
  have size := w.size_set a (.node f flag)
  have same := w.get_set_same (.node f flag) (World.lt_size_of_get hg (by simp))
  refine (copyNode_gives hv.tidy.copyable ha).keeps ?_
  rintro b w' - k ⟨m, image, hl⟩
  have copied : Copied (w.set a (.node f flag)) (· < (w.set a (.node f flag)).size) m a :=
    ⟨ha, .inr ⟨b, hl⟩⟩
  have ht : target m a = b := by simp [target, hl]
  refine ⟨hw.joins (image.joins hv k size.symm), ?_, ?_, target m f, ?_⟩
  · exact ht ▸ image.usable hv hv.tidy.copyable copied
  · exact size ▸ (image.record.copy a b hl).2.2.1
  · rw [← ht, image.get hv.tidy.copyable copied, same]
    rfl

end Build

namespace Value

open Build World

theorem plainFrom_grown (n : Nat) : ∀ {w : World} {v : Value}, w.Has v →
    (plainFrom n v).Keeps (Encloses E) w fun u w' => w'.Grown E w.size u := by
  have atom (w : World) (a : Atom) : w.Grown E w.size (.atom a) :=
    ⟨trivial, fun _ => w.sprout_atom _ _ a⟩
  induction n with
  | zero =>
      intro w v _
      cases v with
      | atom a => exact .pure (atom w a)
      | obj a => exact .throw _
  | succ n ih =>
      intro w v hv
      cases v with
      | atom a => exact .pure (atom w a)
      | obj a =>
          refine .from fun hw => .look_bind ?_
          have part {x : Value} (hx : x ∈ (w.get a).parts) : w.Has x := hw.tidy.has_part hx
          have copied {b : Addr} (hb : w.Has (.obj b)) (hu : E.spared → w.Unshared (.obj b)) :
              Build.Keeps (Encloses E) (do return Value.obj (← copyObject b)) w
                fun u w' => w'.Grown E w.size u :=
            (copyObject_grown hb fun _ => hu).bind fun c w' _ hc => .pure hc
          have items {xs : List Value} (hx : ∀ x ∈ xs, x ∈ (w.get a).parts) :
              Build.Keeps (Encloses E) (do newList (← xs.mapM (plainFrom n))) w
                fun u w' => w'.Grown E w.size u := by
            refine (Keeps.mapM_grown fun x hm w' k => ih ((part (hx x hm)).mono k.size)).bind
              fun us w₁ _ hus => ?_
            exact (Keeps.collect (.list hus.1) rfl hus.2).bind fun _ _ _ ha => .pure ha.2
          have bare (h : (w.get a).children = []) (plain : (w.get a).isPlain) :
              E.spared → w.Unshared (.obj a) := fun _ => unshared_of_bare hv h plain
          cases hg : w.get a with
          | node f o =>
              exact copied (part (by simp [hg, Object.parts])) fun hs => hw.untangled hs a f o hg
          | mapping es =>
              refine (Keeps.mapM_entries (fun e : Value × Value => e.1) (hw.tidy.keys a es hg)
                fun e he w₁ k => ?_).bind fun fs w₁ _ hfs => newMapping_grown hfs
              exact ih ((part (hg ▸ Object.mem_parts_value he)).mono k.size)
          | list xs => exact items (by simp [hg, Object.parts])
          | tuple xs => exact items (by simp [hg, Object.parts])
          | _ => exact copied hv (bare (by rw [hg]; rfl) (by rw [hg]; rfl))

theorem plain_grown {v : Value} (hv : w.Has v) :
    v.plain.Keeps (Encloses E) w fun u w' => w'.Grown E w.size u :=
  .get_bind (plainFrom_grown _ hv)

theorem copy_keeps {v : Value} (hv : w.Has v) :
    v.copy.Keeps (World.Encloses E) w fun u w' => w'.Usable E u := by
  cases v with
  | atom a => exact .pure trivial
  | obj a => exact (copyObject_keeps hv).bind fun b _ _ hb => .pure hb

end Value
end OpenApiDoc
