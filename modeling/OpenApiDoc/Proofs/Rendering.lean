import OpenApiDoc.Proofs.Documents
import OpenApiDoc.Proofs.Yaml.Aliases

/-! # What can be rendered

A mapping is rendered unless the format has no form for a part of it. Both formats have forms for
JSON.

* `Document.render_error`: what goes wrong when a mapping is rendered.
* `Document.render_record`: a mapping of JSON is rendered in every format. -/

namespace OpenApiDoc

open World

/-- The parts of JSON are JSON. -/
theorem World.Is.part {w : World} {a : Addr} (h : w.Is .json (.obj a)) {v : Value}
    (hv : v ∈ (w.get a).parts) : w.Is .json v := by
  rcases h.collection with ⟨es, hg⟩ | ⟨xs, hg⟩
  · rw [hg, Object.mem_parts_mapping] at hv
    obtain ⟨e, he, rfl | rfl⟩ := hv
    · obtain ⟨s, hs⟩ := (h.entry hg he).1
      exact hs ▸ is_text w s
    · exact (h.entry hg he).2
  · exact h.item hg (by rcases hg with hg | hg <;> rwa [hg] at hv)

namespace Yaml.Graph

variable {α β : Type} {w : World} {f : Fault}

theorem walk_bind_error {act : Walk α} {next : α → Walk β} {s : Seen}
    (h : (act >>= next).run s = .error f) :
    act.run s = .error f ∨ ∃ a s', act.run s = .ok (a, s') ∧ (next a).run s' = .error f := by
  rw [StateT.run_bind] at h
  cases run : act.run s with
  | error g =>
      rw [run] at h
      cases h
      exact .inl rfl
  | ok p =>
      rw [run] at h
      exact .inr ⟨p.1, p.2, rfl, h⟩

theorem walk_forM_error {g : α → Walk PUnit} {xs : List α} {s : Seen} {P : Fault → Prop}
    (each : ∀ x ∈ xs, ∀ s f, (g x).run s = .error f → P f) (h : (xs.forM g).run s = .error f) :
    P f := by
  induction xs generalizing s with
  | nil => cases h
  | cons x xs ih =>
      change (g x >>= fun _ => xs.forM g).run s = _ at h
      rcases walk_bind_error h with failed | ⟨-, s', -, failed⟩
      · exact each x (by simp) s f failed
      · exact ih (fun y hy => each y (by simp [hy])) failed

theorem meet_run (a : Addr) (s : Seen) : ∃ new s', (meet a).run s = .ok (new, s') := by
  unfold meet
  change ∃ new s', (if s.once.contains a then _ else _ : Walk Bool).run s = _
  split
  · split <;> exact ⟨_, _, rfl⟩
  · exact ⟨_, _, rfl⟩

/-- Meeting an object goes well, so what goes wrong comes behind it. -/
theorem meet_then_error {a : Addr} {inside : Walk PUnit} {s : Seen}
    (h : (do if ← meet a then inside).run s = .error f) : ∃ s', inside.run s' = .error f := by
  obtain ⟨new, s₁, met⟩ := meet_run a s
  rcases walk_bind_error h with failed | ⟨b, s₂, -, failed⟩
  · rw [met] at failed
    cases failed
  · split at failed
    · exact ⟨s₂, failed⟩
    · cases failed

/-- A walk stops only at a value that has no form. -/
theorem walk_error {n : Nat} {v : Value} {s : Seen} (h : (walk w n v).run s = .error f) :
    ∃ u, f = .unrepresentable u := by
  induction n generalizing v s f with
  | zero =>
      cases v with
      | atom a =>
          cases a <;> cases h
          exact ⟨_, rfl⟩
      | obj a => cases h
  | succ n ih =>
      cases v with
      | atom a =>
          cases a <;> cases h
          exact ⟨_, rfl⟩
      | obj a =>
          rw [walk] at h
          have items (xs : List Value) {s : Seen} (h : (xs.forM (walk w n)).run s = .error f) :
              ∃ u, f = .unrepresentable u :=
            walk_forM_error (P := fun f => ∃ u, f = .unrepresentable u) (fun x _ s f => ih) h
          split at h
          · cases h
          next es _ =>
            obtain ⟨s', failed⟩ := meet_then_error h
            refine walk_forM_error (P := fun f => ∃ u, f = .unrepresentable u)
              (fun e _ s f failed => ?_) failed
            rcases walk_bind_error failed with failed | ⟨-, s', -, failed⟩
            · exact ih failed
            · exact ih failed
          next xs _ =>
            obtain ⟨s', failed⟩ := meet_then_error h
            exact items xs failed
          next xs _ _ =>
            obtain ⟨s', failed⟩ := meet_then_error h
            exact items xs failed
          · obtain ⟨new, s₁, met⟩ := meet_run a s
            rcases walk_bind_error h with failed | ⟨b, s₂, -, failed⟩
            · rw [met] at failed
              cases failed
            · cases failed
          · cases h
            exact ⟨_, rfl⟩

/-- A walk through a collection goes well if the walks through its parts do. -/
theorem walk_collection {n : Nat} {a : Addr}
    (h : (∃ es, w.get a = .mapping es) ∨ ∃ xs, w.get a = .list xs ∨ w.get a = .tuple xs)
    (parts : ∀ v ∈ (w.get a).parts, ∀ s f, (walk w n v).run s ≠ .error f) (s : Seen) (f : Fault) :
    (walk w (n + 1) (.obj a)).run s ≠ .error f := by
  intro failed
  rw [walk] at failed
  rcases h with ⟨es, hg⟩ | ⟨xs, hg⟩
  · rw [hg] at failed parts
    obtain ⟨s', failed⟩ := meet_then_error failed
    refine walk_forM_error (P := fun _ => False) (fun e he s f failed => ?_) failed
    rcases walk_bind_error failed with failed | ⟨-, s', -, failed⟩
    · exact parts _ (Object.mem_parts_key he) s f failed
    · exact parts _ (Object.mem_parts_value he) s' f failed
  · have items {s : Seen} (failed : (xs.forM (walk w n)).run s = .error f) : False := by
      refine walk_forM_error (P := fun _ => False) (fun x hx s f failed => ?_) failed
      rcases hg with hg | hg <;> rw [hg] at parts <;> exact parts x hx s f failed
    rcases hg with hg | hg <;> rw [hg] at failed
    · obtain ⟨s', failed⟩ := meet_then_error failed
      exact items failed
    · cases xs with
      | nil => cases failed
      | cons x xs =>
          obtain ⟨s', failed⟩ := meet_then_error failed
          exact items failed

/-- A walk through JSON goes well. -/
theorem walk_json {n : Nat} {v : Value} (h : w.Is .json v) (s : Seen) (f : Fault) :
    (walk w n v).run s ≠ .error f := by
  have atom {n : Nat} {a : Atom} (h : w.Is .json (.atom a)) (s : Seen) (f : Fault) :
      (walk w n (.atom a)).run s ≠ .error f := by
    have kind := h.kind
    rw [w.tree_atom] at kind
    cases kind with
    | atom known => cases a <;> first | exact known.elim | (cases n <;> exact nofun)
  induction n generalizing v s f with
  | zero =>
      cases v with
      | atom a => exact atom h s f
      | obj a => exact nofun
  | succ n ih =>
      cases v with
      | atom a => exact atom h s f
      | obj a => exact walk_collection h.collection (fun v hv => ih (h.part hv)) s f

/-- Rendering fails where the walk does. -/
theorem walk_of_render {a : Addr} (h : render w a = .error f) :
    (walk w (w.size + 1) (.obj a)).run ⟨[], []⟩ = .error f := by
  unfold render repeats at h
  rw [World.size]
  cases walked : (walk w (w.objects.size + 1) (.obj a)).run ⟨[], []⟩ with
  | ok p =>
      rw [walked] at h
      simp only [Functor.map, Except.map, bind, Except.bind] at h
      split at h <;> cases h
  | error g =>
      rw [walked] at h
      cases h
      rfl

theorem render_error {a : Addr} (h : render w a = .error f) : ∃ u, f = .unrepresentable u :=
  walk_error (walk_of_render h)

end Yaml.Graph

/-- A format has no form for a part of a document. -/
inductive Formless : Fault → Prop
  | unrepresentable (v : Value) : Formless (.unrepresentable v)
  | notJson (type : String) : Formless (.notJson type)
  | notJsonKey (type : String) : Formless (.notJsonKey type)
  | circular : Formless (.misuse .circular)

namespace Json

theorem keyText?_error {k : Tree} {f : Fault} (h : keyText? k = .error f) : Formless f := by
  unfold keyText? at h
  split at h <;> cases h <;> constructor

mutual

theorem ofTree_error {f : Fault} : ∀ t : Tree, ofTree t = .error f → Formless f
  | .atom a, h => by
      cases a <;> cases h
      all_goals constructor
  | .moment m, h => by
      cases m <;> cases h
      all_goals constructor
  | .list xs, h => by
      rw [ofTree] at h
      cases hx : ofItems xs with
      | ok js => simp [hx, Except.map] at h
      | error g =>
          obtain rfl : g = f := by simpa [hx, Except.map] using h
          exact ofItems_error xs hx
  | .tuple xs, h => by
      rw [ofTree] at h
      cases hx : ofItems xs with
      | ok js => simp [hx, Except.map] at h
      | error g =>
          obtain rfl : g = f := by simpa [hx, Except.map] using h
          exact ofItems_error xs hx
  | .mapping es, h => by
      rw [ofTree] at h
      cases hx : ofEntries es with
      | ok ms => simp [hx, Except.map] at h
      | error g =>
          obtain rfl : g = f := by simpa [hx, Except.map] using h
          exact ofEntries_error es hx
  | .model _ _, h => by
      cases h
      constructor
  | .sealed _ _, h => by
      cases h
      constructor
  | .cycle _, h => by
      cases h
      constructor

theorem ofItems_error {f : Fault} : ∀ xs : List Tree, ofItems xs = .error f → Formless f
  | [], h => by cases h
  | x :: xs, h => by
      rw [ofItems] at h
      cases hx : ofTree x with
      | error g =>
          obtain rfl : g = f := by simpa [hx, bind, Except.bind] using h
          exact ofTree_error x hx
      | ok j =>
          cases hxs : ofItems xs with
          | error g =>
              obtain rfl : g = f := by simpa [hx, hxs, bind, Except.bind] using h
              exact ofItems_error xs hxs
          | ok js => simp [hx, hxs, bind, Except.bind, pure, Except.pure] at h

theorem ofEntries_error {f : Fault} :
    ∀ es : List (Tree × Tree), ofEntries es = .error f → Formless f
  | [], h => by cases h
  | (k, v) :: es, h => by
      rw [ofEntries] at h
      cases hk : keyText? k with
      | error g =>
          obtain rfl : g = f := by simpa [hk, bind, Except.bind] using h
          exact keyText?_error hk
      | ok name =>
          cases hv : ofTree v with
          | error g =>
              obtain rfl : g = f := by simpa [hk, hv, bind, Except.bind] using h
              exact ofTree_error v hv
          | ok j =>
              cases hes : ofEntries es with
              | error g =>
                  obtain rfl : g = f := by simpa [hk, hv, hes, bind, Except.bind] using h
                  exact ofEntries_error es hes
              | ok ms => simp [hk, hv, hes, bind, Except.bind, pure, Except.pure] at h

end

theorem ofItems_ok {ts : List Tree} (h : ∀ t ∈ ts, ∃ j, ofTree t = .ok j) :
    ∃ js, ofItems ts = .ok js := by
  induction ts with
  | nil => exact ⟨[], rfl⟩
  | cons t ts ih =>
      rw [List.forall_mem_cons] at h
      obtain ⟨j, hj⟩ := h.1
      obtain ⟨js, hjs⟩ := ih h.2
      exact ⟨j :: js, by rw [ofItems, hj, hjs]; rfl⟩

theorem ofEntries_ok {es : List (Tree × Tree)} (keys : ∀ e ∈ es, ∃ s, e.1 = .str s)
    (h : ∀ e ∈ es, ∃ j, ofTree e.2 = .ok j) : ∃ ms, ofEntries es = .ok ms := by
  induction es with
  | nil => exact ⟨[], rfl⟩
  | cons e es ih =>
      obtain ⟨k, t⟩ := e
      rw [List.forall_mem_cons] at keys h
      obtain ⟨s, rfl : k = .str s⟩ := keys.1
      obtain ⟨j, hj⟩ := h.1
      obtain ⟨ms, hms⟩ := ih keys.2 h.2
      exact ⟨(s, j) :: ms, by rw [ofEntries, hj, hms]; rfl⟩

/-- JSON has a form for what is made of JSON. -/
theorem ofTree_ok {K : Kind} {t : Tree} (h : t.OfKind K) (le : K.Le .json) :
    ∃ j, ofTree t = .ok j := by
  induction h with
  | @atom _ a known =>
      have known := le.atom a known
      cases a <;> first | exact known.elim | exact ⟨_, rfl⟩
  | moment known => exact (le.moment known).elim
  | list _ ih =>
      obtain ⟨js, hjs⟩ := ofItems_ok fun t ht => ih t ht le
      exact ⟨.arr js, by rw [ofTree, hjs]; rfl⟩
  | tuple _ _ ih =>
      obtain ⟨js, hjs⟩ := ofItems_ok fun t ht => ih t ht le
      exact ⟨.arr js, by rw [ofTree, hjs]; rfl⟩
  | mapping keys _ ih =>
      obtain ⟨ms, hms⟩ := ofEntries_ok keys fun e he => ih e he le
      exact ⟨.obj ms, by rw [ofTree, hms]; rfl⟩
  | node known => exact (le.node known).elim

end Json

namespace Document

theorem render_json_run (w : World) (d : Value) :
    (render d (.str "json")).run w =
      match Json.ofTree ((logged w (.str "json")).tree d) with
      | .ok j => .ok (Json.render j) (logged w (.str "json"))
      | .error f => .error f (logged w (.str "json")) := by
  change (json d).run (logged w (.str "json")) = _
  change (orFail (Json.ofTree ((logged w (.str "json")).tree d)) >>= fun j =>
    (pure (Json.render j) : Build String)).run (logged w (.str "json")) = _
  rw [EStateM.run_bind]
  cases Json.ofTree ((logged w (.str "json")).tree d) <;> rfl

/-- A mapping is rendered in one of the formats unless the format has no form for a part of it. -/
theorem render_error {doc : Value} {format : String} {w w' : World} {f : Fault}
    (mapping : (doc.mapping? w).isSome) (known : format ∈ formats)
    (h : (render doc (.str format)).run w = .error f w') : Formless f := by
  obtain ⟨es, read⟩ := Option.isSome_iff_exists.mp mapping
  simp only [formats, List.mem_cons, List.not_mem_nil, or_false] at known
  rcases known with rfl | rfl
  · rw [render_yaml_run read] at h
    cases written : Yaml.Graph.render (yamlWorld w es) w.size with
    | ok text => simp [written] at h
    | error g =>
        rw [written] at h
        cases h
        obtain ⟨u, rfl⟩ := Yaml.Graph.render_error written
        exact .unrepresentable u
  · rw [render_json_run] at h
    cases written : Json.ofTree ((logged w (.str "json")).tree doc) with
    | ok j => simp [written] at h
    | error g =>
        rw [written] at h
        cases h
        exact Json.ofTree_error _ written

/-- A mapping of JSON is rendered in every format. -/
theorem render_record {doc : Value} {format : String} {w : World} (h : w.IsRecord doc)
    (known : format ∈ formats) : ∃ text w', (render doc (.str format)).run w = .ok text w' := by
  obtain ⟨es, hm⟩ := h.mapping
  simp only [formats, List.mem_cons, List.not_mem_nil, or_false] at known
  rcases known with rfl | rfl
  · have json : ∀ v ∈ ((yamlWorld w es).get w.size).parts, (yamlWorld w es).Is .json v := by
      obtain ⟨a, rfl, hg⟩ := Value.eq_obj_of_mapping? hm
      rw [get_yamlWorld, ← hg]
      exact fun v hv => (h.json.part hv).extends (extends_yamlWorld w es)
    have walked (f : Fault) := Yaml.Graph.walk_collection (n := (yamlWorld w es).size)
      (.inl ⟨es, get_yamlWorld w es⟩) (fun v hv => Yaml.Graph.walk_json (json v hv)) ⟨[], []⟩ f
    rw [render_yaml_run hm]
    cases written : Yaml.Graph.render (yamlWorld w es) w.size with
    | ok text => exact ⟨text, _, rfl⟩
    | error f => exact absurd (Yaml.Graph.walk_of_render written) (walked f)
  · have noted : w.Extends (logged w (.str "json")) := ⟨Nat.le_refl _, fun _ _ => rfl, rfl⟩
    obtain ⟨j, hj⟩ := Json.ofTree_ok (h.json.extends noted).kind ⟨fun _ h => h, id, id, id⟩
    rw [render_json_run, hj]
    exact ⟨_, _, rfl⟩

end Document

end OpenApiDoc
