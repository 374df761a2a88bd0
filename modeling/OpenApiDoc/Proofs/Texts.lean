import Mathlib.Data.Finset.Card
import Mathlib.Data.List.Flatten
import OpenApiDoc.Proofs.Rendering
import OpenApiDoc.Proofs.Yaml.Sites

/-! # The texts of a document are read back

Every text that a document holds is written in its YAML text, and read back from there unless it is
spoiled.

* What is written for a value goes into the same objects as the walk that found what repeats: where
  the walk meets an object again, an alias is written. `Graph.Accompanies` is what a step of the
  walk and the step of writing beside it have in common: what is written are the texts of whatever
  is newly met, each as often as it occurs there.
* `Graph.walk_accompanied` is proved by induction on the depth, which no walk exhausts, since it
  meets a new object at every step. So all that can be reached from a document is met, be it shared
  or part of itself (`Graph.render_told`).
* `Document.yaml_texts` is the result about documents. -/

namespace OpenApiDoc

namespace Yaml.Graph

open Form

variable {w : World} {anchored : List Addr}

/-! ### Walks that go well -/

theorem walk_bind_ok {α β : Type} {act : Walk α} {next : α → Walk β} {s s' : Seen} {b : β}
    (h : (act >>= next).run s = .ok (b, s')) :
    ∃ a s₁, act.run s = .ok (a, s₁) ∧ (next a).run s₁ = .ok (b, s') := by
  rw [StateT.run_bind] at h
  cases run : act.run s with
  | error f =>
      rw [run] at h
      cases h
  | ok p =>
      rw [run] at h
      exact ⟨p.1, p.2, rfl, h⟩

/-- An object that is met for the first time is new. -/
theorem meet_new {a : Addr} {s : Seen} (h : a ∉ s.once) :
    (meet a).run s = .ok (true, ⟨a :: s.once, s.again⟩) := by
  have new : s.once.contains a = false := by simpa using h
  unfold meet
  change (if s.once.contains a then _ else _ : Walk Bool).run s = _
  rw [new]
  rfl

/-- An object that was met before is listed. -/
theorem meet_again {a : Addr} {s : Seen} (h : a ∈ s.once) :
    ∃ again, (meet a).run s = .ok (false, ⟨s.once, again⟩) ∧ a ∈ again ∧ s.again ⊆ again := by
  have met : s.once.contains a = true := by simpa using h
  unfold meet
  change ∃ again, (if s.once.contains a then _ else _ : Walk Bool).run s = _ ∧ _
  rw [met]
  by_cases ha : a ∈ s.again
  · refine ⟨s.again, ?_, ha, List.Subset.refl _⟩
    simp [ha]
    rfl
  · refine ⟨s.again ++ [a], ?_, by simp, List.subset_append_left _ _⟩
    simp [ha]
    rfl

/-- How many objects were not met. -/
def unmet (w : World) (s : Seen) : Nat := (Finset.range w.size \ s.once.toFinset).card

theorem unmet_mono {s s' : Seen} (h : s.once ⊆ s'.once) : unmet w s' ≤ unmet w s := by
  refine Finset.card_le_card (Finset.sdiff_subset_sdiff (Finset.Subset.refl _) fun a ha => ?_)
  simp only [List.mem_toFinset] at ha ⊢
  exact h ha

theorem unmet_lt {a : Addr} {s : Seen} (h : a ∉ s.once) (lt : a < w.size) (again : List Addr) :
    unmet w ⟨a :: s.once, again⟩ < unmet w s := by
  refine Finset.card_lt_card (Finset.ssubset_iff_subset_ne.mpr ⟨?_, fun heq => ?_⟩)
  · refine Finset.sdiff_subset_sdiff (Finset.Subset.refl _) fun b hb => ?_
    simp only [List.mem_toFinset] at hb ⊢
    exact List.mem_cons_of_mem a hb
  · have : a ∈ Finset.range w.size \ s.once.toFinset := by simp [lt, h]
    simp [← heq] at this

/-! ### Walking and writing side by side -/

theorem number?_isSome {a : Addr} (h : a ∈ anchored) : ∃ k, number? anchored a = some k := by
  have found : (anchored.idxOf? a).isSome := by simpa using h
  obtain ⟨i, hi⟩ := Option.isSome_iff_exists.mp found
  exact ⟨i + 1, by simp [number?, hi]⟩

/-- What was written before is what was met before: all of it that is anchored. Empty tuples are not
met. -/
structure Agrees (w : World) (anchored : List Addr) (s : Seen) (written : List Addr) : Prop where
  known : ∀ a ∈ s.once, a ∈ anchored → a ∈ written
  met : ∀ a ∈ written, a ∈ s.once ∨ w.get a = .tuple []

/-- The texts among values. -/
def textsAmong (vs : List Value) : List String :=
  vs.filterMap fun
    | .str t => some t
    | _ => none

@[simp] theorem textsAmong_append (us vs : List Value) :
    textsAmong (us ++ vs) = textsAmong us ++ textsAmong vs :=
  List.filterMap_append

/-- The parts of all these objects. -/
def partsOf (w : World) (as : List Addr) : List Value := as.flatMap fun a => (w.get a).parts

@[simp] theorem partsOf_append (as bs : List Addr) :
    partsOf w (as ++ bs) = partsOf w as ++ partsOf w bs :=
  List.flatMap_append

/-- A step of the walk with a step of writing beside it: they agree on what was met. The texts that
are written are those among the values and among the parts of whatever is newly met, and of all these
the objects were met, or they have no parts. The walk stays within the depth, since not so many
objects are left. -/
structure Accompanies {α : Type} (w : World) (anchored : List Addr) (n : Nat) (vs : List Value)
    (act : Walk PUnit) (write : Writing α) (texts : α → List String) : Prop where
  keeps : ∀ s s', act.run s = .ok ((), s') → s.again ⊆ s'.again
  told : ∀ s s' written, act.run s = .ok ((), s') → s'.again ⊆ anchored →
    Agrees w anchored s written → unmet w s < n →
      ∃ new, s'.once = new ++ s.once ∧ Agrees w anchored s' (write.run written).2 ∧
        (texts (write.run written).1).Perm (textsAmong (vs ++ partsOf w new)) ∧
        ∀ a, .obj a ∈ vs ++ partsOf w new → a ∈ s'.once ∨ (w.get a).parts = []

section steps

variable {α β γ : Type} {n : Nat} {vs vs' : List Value} {act act' : Walk PUnit}
  {write : Writing α} {write' : Writing β} {texts : α → List String} {texts' : β → List String}

theorem Accompanies.done (a : α) (h : texts a = []) :
    Accompanies w anchored n [] (pure ()) (pure a) texts where
  keeps s s' h := by
    cases h
    exact List.Subset.refl _
  told s s' written run _ agrees _ := by
    cases run
    refine ⟨[], rfl, agrees, ?_, by simp [partsOf]⟩
    show (texts a).Perm _
    rw [h]
    exact .nil

theorem Accompanies.map (h : Accompanies w anchored n vs act write texts) {f : α → β}
    (ht : ∀ a, texts' (f a) = texts a) : Accompanies w anchored n vs act (f <$> write) texts' where
  keeps := h.keeps
  told s s' written run hs agrees fuel := by
    have told := h.told s s' written run hs agrees fuel
    rw [← ht] at told
    exact told

theorem Accompanies.bind (h : Accompanies w anchored n vs act write texts)
    (k : Accompanies w anchored n vs' act' write' texts') {g : α → β → γ} {both : γ → List String}
    (ht : ∀ a b, both (g a b) = texts a ++ texts' b) :
    Accompanies w anchored n (vs ++ vs') (do act; act')
      (do let a ← write; let b ← write'; return g a b) both where
  keeps s s' run := by
    obtain ⟨_, s₁, first, second⟩ := walk_bind_ok run
    exact List.Subset.trans (h.keeps s s₁ first) (k.keeps s₁ s' second)
  told s s' written run hs agrees fuel := by
    obtain ⟨_, s₁, first, second⟩ := walk_bind_ok run
    obtain ⟨new, once, agrees₁, perm, objects⟩ := h.told s s₁ written first
      (List.Subset.trans (k.keeps s₁ s' second) hs) agrees fuel
    have fewer : unmet w s₁ ≤ unmet w s := unmet_mono (once ▸ List.subset_append_right new _)
    obtain ⟨new', once', agrees', perm', objects'⟩ := k.told s₁ s' _ second hs agrees₁
      (Nat.lt_of_le_of_lt fewer fuel)
    have joined : ((vs ++ partsOf w new) ++ (vs' ++ partsOf w new')).Perm
        ((vs ++ vs') ++ partsOf w (new' ++ new)) := by
      rw [partsOf_append, List.append_assoc, List.append_assoc, ← List.append_assoc vs']
      exact List.perm_append_comm.append_left vs
    have result : (do let a ← write; let b ← write'; return g a b : Writing γ).run written =
        (g (write.run written).1 (write'.run (write.run written).2).1,
          (write'.run (write.run written).2).2) := rfl
    refine ⟨new' ++ new, by rw [once', once, List.append_assoc], agrees', ?_, fun a ha => ?_⟩
    · rw [result, ht]
      refine (perm.append perm').trans ?_
      rw [← textsAmong_append]
      exact joined.filterMap _
    · rcases List.mem_append.mp (joined.mem_iff.mpr ha) with ha | ha
      · exact (objects a ha).imp_left fun met => once' ▸ List.mem_append_right new' met
      · exact objects' a ha

/-- A list of steps. -/
theorem Accompanies.list {f : γ → Walk PUnit} {g : γ → Writing α} {held : γ → List Value}
    {xs : List γ} (each : ∀ x ∈ xs, Accompanies w anchored n (held x) (f x) (g x) texts) :
    Accompanies w anchored n (xs.flatMap held) (xs.forM f) (xs.mapM g)
      fun ys => ys.flatMap texts := by
  induction xs with
  | nil => exact .done [] rfl
  | cons x xs ih =>
      have joined (y : α) (ys : List α) : (y :: ys).flatMap texts = texts y ++ ys.flatMap texts :=
        List.flatMap_cons
      rw [List.mapM_cons, List.flatMap_cons]
      exact (each x (by simp)).bind (ih fun y hy => each y (by simp [hy])) joined

end steps

/-- An object that is met is written with its parts, unless it was written before. -/
theorem accompanies_object {a : Addr} {n : Nat} {inside : Walk PUnit} (hg : w.get a ≠ .tuple [])
    (h : ∀ anchor, Accompanies w anchored n (w.get a).parts inside (formBody w anchored n a anchor)
      Form.texts) :
    Accompanies w anchored (n + 1) [.obj a] (do if ← meet a then inside)
      (form w anchored (n + 1) (.obj a)) Form.texts := by
  have lt : a < w.size := World.lt_size_of_get rfl hg
  have again {s s' : Seen} (run : (do if ← meet a then inside).run s = .ok ((), s'))
      (ha : a ∈ s.once) : s'.once = s.once ∧ a ∈ s'.again ∧ s.again ⊆ s'.again := by
    obtain ⟨listed, met, hl, kept⟩ := meet_again ha
    rw [StateT.run_bind, met] at run
    cases run
    exact ⟨rfl, hl, kept⟩
  have first {s s' : Seen} (run : (do if ← meet a then inside).run s = .ok ((), s'))
      (ha : a ∉ s.once) : inside.run ⟨a :: s.once, s.again⟩ = .ok ((), s') := by
    rw [StateT.run_bind, meet_new ha] at run
    exact run
  refine ⟨fun s s' run => ?_, fun s s' written run hs agrees fuel => ?_⟩
  · by_cases ha : a ∈ s.once
    · exact (again run ha).2.2
    · exact (h none).keeps ⟨a :: s.once, s.again⟩ s' (first run ha)
  · rw [form_obj_run]
    by_cases ha : a ∈ s.once
    · -- an alias is written
      obtain ⟨same, listed, -⟩ := again run ha
      obtain ⟨k, hk⟩ := number?_isSome (hs listed)
      have before : written.contains a = true := by simpa using agrees.known a ha (hs listed)
      simp only [hk, before, if_true]
      refine ⟨[], same, ⟨same ▸ agrees.known, same ▸ agrees.met⟩, .nil, fun b hb => ?_⟩
      obtain rfl : b = a := by simpa [partsOf] using hb
      exact .inl (same ▸ ha)
    · have run := first run ha
      have unwritten : a ∉ written := fun hw => (agrees.met a hw).elim ha hg
      have fuel : unmet w ⟨a :: s.once, s.again⟩ < n := by
        have := unmet_lt ha lt s.again
        omega
      have body (anchor : Option Nat) (now : List Addr)
          (agrees : Agrees w anchored ⟨a :: s.once, s.again⟩ now) :
          let p := (formBody w anchored n a anchor).run now
          ∃ new, s'.once = new ++ s.once ∧ Agrees w anchored s' p.2 ∧
            (Form.texts p.1).Perm (textsAmong ([.obj a] ++ partsOf w new)) ∧
            ∀ b, .obj b ∈ [.obj a] ++ partsOf w new → b ∈ s'.once ∨ (w.get b).parts = [] := by
        obtain ⟨new, once, agrees', perm, objects⟩ := (h anchor).told _ s' now run hs agrees fuel
        have parts : partsOf w (new ++ [a]) = partsOf w new ++ (w.get a).parts := by
          simp [partsOf]
        refine ⟨new ++ [a], by simp [once], agrees', ?_, fun b hb => ?_⟩
        · rw [parts]
          exact perm.trans (List.perm_append_comm.filterMap _)
        · rcases List.mem_cons.mp hb with hb | hb
          · cases hb
            exact .inl (by simp [once])
          · rw [parts] at hb
            exact objects b (List.perm_append_comm.mem_iff.mp hb)
      cases hk : number? anchored a with
      | none =>
          refine body none written ⟨fun b hb hl => ?_, fun b hb => ?_⟩
          · rcases List.mem_cons.mp hb with rfl | hb
            · obtain ⟨k, hk'⟩ := number?_isSome hl
              simp [hk] at hk'
            · exact agrees.known b hb hl
          · exact (agrees.met b hb).imp_left (List.mem_cons_of_mem a)
      | some k =>
          have new : written.contains a = false := by simpa using unwritten
          simp only [new, Bool.false_eq_true, if_false]
          refine body (some k) (a :: written) ⟨fun b hb hl => ?_, fun b hb => ?_⟩
          · rcases List.mem_cons.mp hb with rfl | hb
            · exact List.mem_cons_self
            · exact List.mem_cons_of_mem a (agrees.known b hb hl)
          · rcases List.mem_cons.mp hb with rfl | hb
            · exact .inl List.mem_cons_self
            · exact (agrees.met b hb).imp_left (List.mem_cons_of_mem a)

/-- An empty tuple is not met. -/
theorem accompanies_empty {a : Addr} (hg : w.get a = .tuple []) (n : Nat) :
    Accompanies w anchored (n + 1) [.obj a] (pure ()) (form w anchored (n + 1) (.obj a))
      Form.texts := by
  have parts : (w.get a).parts = [] := by rw [hg]; rfl
  refine ⟨fun s s' h => ?_, fun s s' written h _ agrees _ => ?_⟩
  · cases h
    exact List.Subset.refl _
  · cases h
    have noted : Agrees w anchored s (a :: written) := by
      refine ⟨fun b hb hl => List.mem_cons_of_mem a (agrees.known b hb hl), fun b hb => ?_⟩
      rcases List.mem_cons.mp hb with rfl | hb
      · exact .inr hg
      · exact agrees.met b hb
    have object (b : Addr) (hb : .obj b ∈ [Value.obj a] ++ partsOf w []) :
        b ∈ s.once ∨ (w.get b).parts = [] := by
      obtain rfl : b = a := by simpa [partsOf] using hb
      exact .inr parts
    rw [form_obj_run]
    cases number? anchored a with
    | none =>
        rw [formBody, hg]
        exact ⟨[], rfl, agrees, .nil, object⟩
    | some k =>
        dsimp only
        split
        · exact ⟨[], rfl, agrees, .nil, object⟩
        · rw [formBody, hg]
          exact ⟨[], rfl, noted, .nil, object⟩

theorem Accompanies.failed {α : Type} {n : Nat} {vs : List Value} {write : Writing α}
    {texts : α → List String} (f : Fault) :
    Accompanies w anchored n vs (throw f) write texts :=
  ⟨nofun, nofun⟩

theorem accompanies_atom (n : Nat) (a : Atom) :
    Accompanies w anchored n [.atom a] (walk w n (.atom a)) (form w anchored n (.atom a))
      Form.texts := by
  have written : form w anchored n (.atom a) = pure (.scalar none (scalarOf a)) := by
    cases n <;> rfl
  by_cases hp : ∃ s, a = .pattern s
  · obtain ⟨s, rfl⟩ := hp
    have stopped : walk w n (.atom (.pattern s)) =
        throw (.unrepresentable (.atom (.pattern s))) := by
      cases n <;> rfl
    rw [stopped]
    exact .failed _
  · have passed : walk w n (.atom a) = pure () := by
      cases a <;> first | (cases n <;> rfl) | exact absurd ⟨_, rfl⟩ hp
    rw [written, passed]
    refine ⟨fun s s' h => ?_, fun s s' now h _ agrees _ => ?_⟩
    · cases h
      exact List.Subset.refl _
    · cases h
      refine ⟨[], rfl, agrees, ?_, by simp [partsOf]⟩
      cases a with
      | pattern s => exact absurd ⟨s, rfl⟩ hp
      | _ => exact .refl _

/-- What is written goes into the same objects as the walk. -/
theorem walk_accompanied (n : Nat) (v : Value) :
    Accompanies w anchored n [v] (walk w n v) (form w anchored n v) Form.texts := by
  induction n generalizing v with
  | zero =>
      cases v with
      | atom a => exact accompanies_atom 0 a
      | obj a =>
          refine ⟨fun s s' h => ?_, fun s s' now _ _ _ fuel => absurd fuel (Nat.not_lt_zero _)⟩
          cases h
          exact List.Subset.refl _
  | succ n ih =>
      cases v with
      | atom a => exact accompanies_atom (n + 1) a
      | obj a =>
          have items (xs : List Value) (anchor : Option Nat) : Accompanies w anchored n xs
              (xs.forM (walk w n)) (.sequence anchor <$> xs.mapM (form w anchored n))
                Form.texts := by
            have each : Accompanies w anchored n (xs.flatMap fun x => [x]) (xs.forM (walk w n))
                (xs.mapM (form w anchored n)) fun fs => fs.flatMap Form.texts :=
              .list fun x _ => ih x
            rw [List.flatMap_singleton'] at each
            exact each.map fun ys => by rw [Form.texts, itemTexts_eq]
          have outside (f : Fault) : Accompanies w anchored (n + 1) [.obj a] (throw f)
              (form w anchored (n + 1) (.obj a)) Form.texts := .failed f
          rw [walk]
          cases hg : w.get a with
          | mapping es =>
              refine accompanies_object (by simp [hg]) fun anchor => ?_
              have entry (e : Value × Value) (_ : e ∈ es) :
                  Accompanies w anchored n [e.1, e.2] (do walk w n e.1; walk w n e.2)
                    (formEntry w anchored n e) fun p => p.1.texts ++ p.2.texts :=
                (ih e.1).bind (ih e.2) fun _ _ => rfl
              have parts : (w.get a).parts = es.flatMap fun e => [e.1, e.2] := by rw [hg]; rfl
              rw [parts, formBody, hg]
              exact (Accompanies.list entry).map fun ys => by rw [Form.texts, entryTexts_eq]
          | list xs =>
              refine accompanies_object (by simp [hg]) fun anchor => ?_
              have parts : (w.get a).parts = xs := by rw [hg]; rfl
              rw [parts, formBody, hg]
              exact items xs anchor
          | tuple xs =>
              cases xs with
              | nil => exact accompanies_empty hg n
              | cons x xs =>
                  refine accompanies_object (by simp [hg]) fun anchor => ?_
                  have parts : (w.get a).parts = x :: xs := by rw [hg]; rfl
                  rw [parts, formBody, hg]
                  exact items (x :: xs) anchor
          | moment m =>
              have alone : (do let _ ← meet a; return () : Walk PUnit) =
                  do if ← meet a then return () := by simp
              show Accompanies w anchored (n + 1) [.obj a] (do let _ ← meet a; return ()) _ _
              rw [alone]
              refine accompanies_object (by simp [hg]) fun anchor => ?_
              have parts : (w.get a).parts = [] := by rw [hg]; rfl
              rw [parts, formBody, hg]
              exact .done _ rfl
          | node f o => exact outside _
          | operation op => exact outside _
          | constructor c => exact outside _
          | builder m b => exact outside _
          | module ns => exact outside _
          | machinery t ps => exact outside _

/-! ### Documents -/

/-- The texts in the mapping at an address, with the places where they stand in its YAML text. -/
def sites (w : World) (a : Addr) : List Site :=
  match repeats w (.obj a) with
  | .error _ => []
  | .ok anchored => match (form w anchored (w.objects.size + 1) (.obj a)).run [] with
    | (.mapping _ es, _) => entrySites 0 [] es
    | _ => []

/-- The form of a mapping that is written first. -/
theorem form_mapping (anchored : List Addr) {a : Addr} {es : Entries}
    (hg : w.get a = .mapping es) (n : Nat) :
    ∃ anchor fs s, (form w anchored (n + 1) (.obj a)).run [] = (.mapping anchor fs, s) := by
  have body (anchor : Option Nat) (written : List Addr) :
      ∃ fs s, (formBody w anchored n a anchor).run written = (.mapping anchor fs, s) := by
    rw [formBody, hg]
    exact ⟨_, _, rfl⟩
  rw [form_obj_run]
  cases number? anchored a with
  | none => exact ⟨none, body none []⟩
  | some k => exact ⟨some k, body (some k) [a]⟩

theorem partsOf_filter {bs : List Addr} {p : Addr → Bool}
    (h : ∀ b ∈ bs, p b ∨ (w.get b).parts = []) : partsOf w (bs.filter p) = partsOf w bs := by
  induction bs with
  | nil => rfl
  | cons b bs ih =>
      obtain ⟨hb, h⟩ := List.forall_mem_cons.mp h
      have rest : (bs.filter p).flatMap (fun a => (w.get a).parts) =
          bs.flatMap fun a => (w.get a).parts := ih h
      by_cases hp : p b
      · simp [partsOf, hp, rest]
      · simp [partsOf, hp, rest, hb.resolve_left hp]

/-- Different objects have their texts apart from each other. -/
theorem texts_subperm {bs once : List Addr} (distinct : bs.Nodup)
    (h : ∀ b ∈ bs, b ∈ once ∨ (w.get b).parts = []) :
    (textsAmong (partsOf w bs)).Subperm (textsAmong (partsOf w once)) := by
  have met : partsOf w (bs.filter (· ∈ once)) = partsOf w bs :=
    partsOf_filter fun b hb => (h b hb).imp_left (by simp)
  have within : (bs.filter (· ∈ once)).Subperm once :=
    List.subperm_of_subset (distinct.filter _) fun b hb => by simpa using (List.mem_filter.mp hb).2
  obtain ⟨cs, perm, sublist⟩ := within
  rw [← met]
  exact ⟨textsAmong (partsOf w cs), (perm.flatMap_right _).filterMap _,
    (sublist.flatMap _).filterMap _⟩

/-- Every text among the parts of what can be reached from a mapping has a site of its own in the
YAML text. -/
theorem render_told {a : Addr} {es : Entries} {text : String} (hg : w.get a = .mapping es)
    (h : render w a = .ok text) :
    (∀ bs : List Addr, bs.Nodup → (∀ b ∈ bs, w.Reaches (.obj a) b) →
      (textsAmong (partsOf w bs)).Subperm ((sites w a).map (·.text))) ∧
      ∀ x ∈ sites w a, x.Stands text.toList := by
  cases hr : repeats w (.obj a) with
  | error f => simp [render, hr, bind, Except.bind] at h
  | ok anchored =>
      obtain ⟨anchor, fs, written, hf⟩ := form_mapping anchored hg w.objects.size
      have found : sites w a = entrySites 0 [] fs := by rw [sites, hr]; simp only [hf]
      have shown : text = document fs := Except.ok.inj (h.symm.trans (render_mapping hr hf))
      -- the walk that found what is anchored
      obtain ⟨s, run, rfl⟩ : ∃ s : Seen,
          (walk w (w.objects.size + 1) (.obj a)).run ⟨[], []⟩ = .ok ((), s) ∧
            s.again = anchored := by
        unfold repeats at hr
        cases walked : (walk w (w.objects.size + 1) (.obj a)).run ⟨[], []⟩ with
        | error f =>
            rw [walked] at hr
            cases hr
        | ok p =>
            rw [walked] at hr
            exact ⟨p.2, rfl, Except.ok.inj hr⟩
      have fuel : unmet w ⟨[], []⟩ < w.objects.size + 1 := by simp [unmet, World.size]
      obtain ⟨new, once, -, perm, objects⟩ := (walk_accompanied (w.objects.size + 1) (.obj a)).told
        _ s [] run (List.Subset.refl _) ⟨by simp, by simp⟩ fuel
      obtain rfl : s.once = new := by simpa using once
      have met {b : Addr} (hb : Relation.ReflTransGen w.Holds a b) :
          b ∈ s.once ∨ (w.get b).parts = [] := by
        induction hb with
        | refl => exact objects a (by simp)
        | @tail b c _ hc ih =>
            have hc : Value.obj c ∈ (w.get b).parts := hc
            rcases ih with hb | hb
            · exact objects c (List.mem_append_right _ (List.mem_flatMap.mpr ⟨b, hb, hc⟩))
            · simp [hb] at hc
      rw [found, shown]
      refine ⟨fun bs distinct reached => ?_, stands_document fs⟩
      have written : (entryTexts fs).Perm (textsAmong (partsOf w s.once)) := by
        rw [hf] at perm
        exact perm
      rw [entrySites_texts]
      refine (texts_subperm distinct fun b hb => ?_).trans written.symm.subperm
      obtain ⟨c, hc, hb⟩ := reached b hb
      cases hc
      exact met hb

end Yaml.Graph

namespace Document

open Yaml

/-- The texts of a document with the places where they stand in its YAML text. -/
def sites (w : World) (d : Value) : List Form.Site :=
  match d.mapping? w with
  | some es => Graph.sites (yamlWorld w es) w.size
  | none => []

/-- The object that is written for `b` in the document at `a`, which is copied. -/
def copyOf (w : World) (a b : Addr) : Addr := if b = a then w.size else b

section copies

variable {w : World} {a b : Addr} {es : Entries}

theorem get_copyOf (hg : w.get a = .mapping es) (hb : b < w.size) :
    (yamlWorld w es).get (copyOf w a b) = w.get b := by
  by_cases h : b = a
  · rw [copyOf, if_pos h, get_yamlWorld, h, hg]
  · rw [copyOf, if_neg h, (extends_yamlWorld w es).get b hb]

/-- What can be reached from a mapping is reached from its copy. -/
theorem reaches_copyOf (hg : w.get a = .mapping es) (hb : w.Reaches (.obj a) b) :
    (yamlWorld w es).Reaches (.obj w.size) (copyOf w a b) := by
  have copy : (yamlWorld w es).get w.size = w.get a := (get_yamlWorld w es).trans hg.symm
  have there {c d : Addr} (h : w.Holds c d) : (yamlWorld w es).Holds c d := by
    have hd : Value.obj d ∈ (w.get c).parts := h
    have lt : c < w.size := World.lt_size_of_get rfl fun he => by simp [he, Object.parts] at hd
    rw [World.Holds, (extends_yamlWorld w es).get c lt]
    exact hd
  by_cases h : b = a
  · rw [copyOf, if_pos h]
    exact ⟨w.size, rfl, .refl⟩
  · obtain ⟨a', ha, hb⟩ := hb
    cases ha
    obtain rfl | ⟨c, hac, hcb⟩ := Relation.ReflTransGen.cases_head hb
    · exact absurd rfl h
    · have first : (yamlWorld w es).Holds w.size c := by
        rw [World.Holds, copy]
        exact hac
      rw [copyOf, if_neg h]
      exact ⟨_, rfl, .head first (hcb.lift id fun _ _ => there)⟩

/-- The texts of different objects are those of different objects that are written. -/
theorem texts_copyOf (hg : w.get a = .mapping es) {bs : List Addr} (distinct : bs.Nodup)
    (reached : ∀ b ∈ bs, w.Reaches (.obj a) b) : ∃ cs : List Addr, cs.Nodup ∧
      (∀ c ∈ cs, (yamlWorld w es).Reaches (.obj w.size) c) ∧
        Graph.partsOf (yamlWorld w es) cs = Graph.partsOf w bs := by
  -- what is not in the store has no parts
  have stored : Graph.partsOf w (bs.filter (· < w.size)) = Graph.partsOf w bs := by
    refine Graph.partsOf_filter fun b _ => ?_
    by_cases hb : b < w.size
    · exact .inl (by simpa using hb)
    · exact .inr (by rw [World.get_of_size_le (Nat.le_of_not_lt hb)]; rfl)
  have lt {b : Addr} (hb : b ∈ bs.filter (· < w.size)) : b < w.size := by
    simpa using (List.mem_filter.mp hb).2
  refine ⟨(bs.filter (· < w.size)).map (copyOf w a), ?_, ?_, ?_⟩
  · refine List.Nodup.map_on (fun b hb c hc same => ?_) (distinct.filter _)
    have old {b : Addr} (hb : b < w.size) : w.size ≠ b := Nat.ne_of_gt hb
    rw [copyOf, copyOf] at same
    split at same <;> split at same
    · next hb hc => rw [hb, hc]
    · exact absurd same (old (lt hc))
    · exact absurd same.symm (old (lt hb))
    · exact same
  · refine List.forall_mem_map.mpr fun b hb => ?_
    exact reaches_copyOf hg (reached b (List.mem_filter.mp hb).1)
  · rw [← stored, Graph.partsOf, Graph.partsOf, List.flatMap_map]
    exact List.flatMap_congr fun b hb => by rw [get_copyOf hg (lt hb)]

end copies

/-- Every text in a document, be it a key, a value or an item at any depth, has a site of its own in
the YAML text: the texts among the parts of different objects are at different sites. At each site
stands the scalar of its text, which is read back as the text unless the text is spoiled there: it
holds U+0085 and stands between single quotes, or it stands between double quotes with lines that
start beyond the width, and has a blank behind an escape. -/
theorem yaml_texts {w : World} {d : Value} {es : Entries} (mapping : d.mapping? w = some es) :
    (w.IsRecord d → ∃ text u, (render d (.str "yaml")).run w = .ok text u) ∧
    ∀ text u, (render d (.str "yaml")).run w = .ok text u →
      (∀ bs : List Addr, bs.Nodup → (∀ b ∈ bs, w.Reaches d b) →
        (Graph.textsAmong (Graph.partsOf w bs)).Subperm ((sites w d).map (·.text))) ∧
      ∀ x ∈ sites w d, x.written ++ x.after <:+ text.toList ∧ (x.Survives ↔ ¬ x.IsSpoiled) := by
  refine ⟨fun record => render_record record (by decide), fun text u run => ?_⟩
  obtain ⟨a, rfl, hg⟩ := Value.eq_obj_of_mapping? mapping
  have written : Graph.render (yamlWorld w es) w.size = .ok text := by
    rw [render_yaml_run mapping] at run
    cases hr : Graph.render (yamlWorld w es) w.size with
    | ok t =>
        rw [hr] at run
        cases run
        rfl
    | error f =>
        rw [hr] at run
        cases run
  obtain ⟨told, stands⟩ := Graph.render_told (get_yamlWorld w es) written
  have found : sites w (.obj a) = Graph.sites (yamlWorld w es) w.size := by rw [sites, mapping]
  rw [found]
  refine ⟨fun bs distinct reached => ?_,
    fun x hx => ⟨(stands x hx).suffix, (stands x hx).closed.survives_iff⟩⟩
  obtain ⟨cs, apart, from_copy, parts⟩ := texts_copyOf hg distinct reached
  rw [← parts]
  exact told cs apart from_copy

/-- A store with a list of a text, and a mapping that holds the list and another text. -/
def nested (item value : String) : World :=
  { World.initial with
    objects := #[.list [.str item], .mapping [(.str "items", .obj 0), (.str "last", .str value)]] }

/-- Lines with quotes and a colon between them, in a list. -/
theorem yaml_texts_nested :
    let w := nested "it's\n\n'a': b" ""
    ∃ u, (render (.obj 1) (.str "yaml")).run w =
        .ok "items:\n- 'it''s\n\n\n  ''a'': b'\nlast: ''\n" u ∧
      ∃ x ∈ sites w (.obj 1), x.text = "it's\n\n'a': b" ∧ x.Survives := by
  have mapping : (Value.obj 1).mapping? (nested "it's\n\n'a': b" "") =
      some [(.str "items", .obj 0), (.str "last", .str "")] := rfl
  obtain ⟨u, run⟩ : ∃ u, (render (.obj 1) (.str "yaml")).run (nested "it's\n\n'a': b" "") =
      .ok "items:\n- 'it''s\n\n\n  ''a'': b'\nlast: ''\n" u := ⟨_, rfl⟩
  obtain ⟨told, survive⟩ := (yaml_texts mapping).2 _ u run
  have held : (nested "it's\n\n'a': b" "").Holds 1 0 := by
    simp [World.Holds, nested, World.get, Object.parts]
  have sited := told [0] (by simp) fun b hb => by
    obtain rfl := List.mem_singleton.mp hb
    exact ⟨1, rfl, .single held⟩
  obtain ⟨x, hx, text⟩ := List.mem_map.mp (sited.subset (List.mem_singleton.mpr rfl))
  refine ⟨u, run, x, hx, text, (survive x hx).2.mpr ?_⟩
  rw [Form.Site.IsSpoiled, Reading.Spoiled, text]
  rintro (⟨-, spoiled⟩ | ⟨spoiled, -⟩)
  · exact absurd spoiled (by decide)
  · exact absurd spoiled (by decide)

/-- The text x, U+0085, y is written between single quotes, and read back as x, a blank, y. -/
theorem yaml_loses_nextLine :
    let w := nested "" "x\u0085y"
    ∃ u, (render (.obj 1) (.str "yaml")).run w = .ok "items:\n- ''\nlast: 'x\u0085  y'\n" u ∧
      Reading.text? 0 "'x\u0085  y'\n".toList = some ("x y".toList, ['\n']) ∧
      "x y" ≠ "x\u0085y" :=
  ⟨_, rfl, by decide, by decide⟩

end Document
end OpenApiDoc
