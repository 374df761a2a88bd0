import OpenApiDoc.Proofs.Carriage

/-! # Responses under one text

Status codes become texts before the responses are checked, so two codes with the same text are one.

* `Entries.KeepsLast` says what becomes of fields whose names repeat; `Entries.literal_keepsLast`
  that it becomes of a mapping that is written out.
* `Operation.build_keeps_last`: an operation keeps, of the responses under one text, the last. None
  is lost just in case the texts are distinct.
* `Operation.build_merges`: two responses become one, and nothing is said about it. -/

namespace OpenApiDoc

namespace Entries

variable {α : Type}

/-- Every name is kept once, at its first place and with its last value. -/
structure KeepsLast (given kept : List (String × α)) : Prop where
  names : kept.map (·.1) = (given.map (·.1)).eraseDups
  last : ∀ n, kept.lookup n = given.reverse.lookup n

theorem literal_snoc (fs : List (String × α)) (f : String × α) :
    literal (fs ++ [f]) = insert (· == ·) (literal fs) f.1 f.2 := by
  simp [literal, overlayNames, overlay, List.foldl_append]

theorem literal_keepsLast (fs : List (String × α)) : KeepsLast fs (literal fs) := by
  induction fs using List.reverseRecOn with
  | nil => exact ⟨rfl, fun _ => rfl⟩
  | append_singleton fs f ih =>
      rw [literal_snoc]
      refine ⟨?_, fun n => ?_⟩
      · rw [keys_insert, ih.names, List.map_append, List.map_singleton, Paths.eraseDups_snoc]
        simp only [List.mem_eraseDups]
      · rw [List.reverse_append, List.reverse_singleton, List.singleton_append]
        obtain ⟨m, v⟩ := f
        by_cases h : n = m
        · subst h
          rw [lookup_insert_self, List.lookup_cons_self]
        · rw [lookup_insert_other _ h, lookup_cons_other h, ih.last]

/-- As many are kept as were given just in case no name repeats. -/
theorem KeepsLast.length_eq_iff {given kept : List (String × α)} (h : KeepsLast given kept) :
    kept.length = given.length ↔ Distinct given := by
  have same : (given.map (·.1)).eraseDups.length = (given.map (·.1)).dedup.length :=
    ((List.perm_ext_iff_of_nodup (Paths.nodup_eraseDups _) (List.nodup_dedup _)).mpr
      (by simp)).length_eq
  have lengths : kept.length = (given.map (·.1)).dedup.length := by
    rw [← same, ← h.names, List.length_map]
  have names : given.length = (given.map (·.1)).length := (List.length_map _).symm
  rw [lengths, names, Distinct, ← List.dedup_eq_self]
  exact ⟨(List.dedup_sublist _).eq_of_length, congrArg List.length⟩

end Entries

namespace Operation

open Build World

variable {w w' : World} {v : Value}

/-- The responses as they are given, each under the text of its code. -/
def codes (w : World) (es : Entries) : List (String × Tree) :=
  es.map fun e => (w.text e.1, w.tree e.2)

/-- Every response is a mapping from distinct texts. -/
def AreResponses (w : World) (es : Entries) : Prop :=
  ∀ e ∈ es, ∃ ts, w.Shows e.2 (.record ts) ∧ Entries.Distinct ts

/-- The check of responses reads them as they are. -/
theorem responses_read {w₁ : World} {es : Entries} (records : AreResponses w es)
    {coded : Value} (shown : w₁.Shows coded (.record (codedViews w es)))
    {read : List (String × List (String × Value))}
    (texts : Field.mapping w₁ (fun v => Field.mapping w₁ Field.any (.value v)) (.value coded) =
      .ok read) : read.map (fun r => (r.1, w₁.recordOf r.2)) = codedViews w es := by
  obtain ⟨a, gs, rfl, hg, hgs⟩ := shown.record
  have distinct : Entries.Distinct gs := by
    rw [Entries.Distinct, hgs.keys]
    exact Entries.Distinct.overlay (by simp [Entries.Distinct]) _
  obtain ⟨data, views⟩ := paired_tree hgs
  have coded : ∀ c ∈ codedViews w es, ∃ ts, c.2 = .record ts ∧ Entries.Distinct ts := by
    refine Entries.forall_value_overlay
      (Q := fun t : Tree => ∃ ts, t = .record ts ∧ Entries.Distinct ts) (by simp)
      (List.forall_mem_map.mpr fun e he => ?_)
    obtain ⟨ts, hts, distinct⟩ := records e he
    exact ⟨ts, hts.2, distinct⟩
  have each (g : String × Value) (hm : g ∈ gs) :
      ∃ ts, w₁.Shows g.2 (.record ts) ∧ Entries.Distinct ts := by
    have mem : (g.1, w₁.tree g.2) ∈ codedViews w es :=
      views ▸ List.mem_map_of_mem (f := fun g => (g.1, w₁.tree g.2)) hm
    obtain ⟨ts, view, distinct⟩ := coded _ mem
    exact ⟨ts, ⟨data g hm, view⟩, distinct⟩
  have paired := List.forall₂_iff_zip.mp
    (Field.mapping_paired (Value.mapping?_of_get hg) distinct texts)
  rw [views, ← List.forall₂_eq_eq_eq, List.forall₂_map_left_iff, List.forall₂_map_right_iff]
  refine List.Forall₂.flip (List.forall₂_iff_zip.mpr ⟨paired.1, fun {g r} hz => ?_⟩)
  obtain ⟨name, check⟩ := paired.2 hz
  obtain ⟨ts, shown, distinct⟩ := each g (List.of_mem_zip hz).1
  show (r.1, w₁.recordOf r.2) = (g.1, w₁.tree g.2)
  rw [name, shown.2, Field.mapping_record shown distinct check]

/-- An operation keeps the last of the responses under one text, at the place of the first, and that
is what its operation object shows. As many are kept as were given just in case the texts are
distinct, and then they are kept as they were given. -/
theorem build_keeps_last {method path responses operationId summary tags parameters requestBody
    extra : Value} (ho : w.Owned) (hr : w.IsData responses) (hp : w.IsData parameters)
    (hb : w.IsData requestBody) (hx : w.IsData extra) {es : Entries}
    (given : responses.mapping? w = some es) (records : AreResponses w es)
    (run : (build method path responses operationId summary tags parameters requestBody
      extra).run w = .ok v w') :
    ∃ op kept, w'.IsOperation v op ∧ w'.tree (.obj op.responses) = .record kept ∧
      Entries.KeepsLast (codes w es) kept ∧
      (kept.length = es.length ↔ Entries.Distinct (codes w es)) ∧
      (Entries.Distinct (codes w es) → kept = codes w es) ∧
      (Unread w extra "responses" → ∀ d, w'.IsData d → (op.emit d).Gives w' fun u w'' =>
        (w''.tree u).part? (.name "responses") = some (.record kept)) := by
  obtain ⟨w₁, f, op, k₁, holds, k₂, -, -, ⟨es', coded, hm, shown, texts⟩, -, -, free⟩ :=
    build_holds ho hr hp hb hx run
  obtain rfl : es' = es := Option.some.inj (hm.symm.trans given)
  have kept : w'.tree (.obj op.responses) = .record (codedViews w es') := by
    rw [holds.responses, responses_read records shown texts]
  have last : Entries.KeepsLast (codes w es') (codedViews w es') := Entries.literal_keepsLast _
  refine ⟨op, codedViews w es', holds.operation, kept, last, ?_, Entries.overlay_nil_left,
    fun unread d hd => ?_⟩
  · simpa [codes] using last.length_eq_iff
  · have owned : w'.Owned := (ho.extends k₁).extends k₂
    refine (emit_gives owned holds.operation hd).mono fun u w'' _ hu => ?_
    have part := written_part holds.operation (.response "") (holds.spares (free _ unread)) rfl d
    rw [hu.2]
    exact part.trans (congrArg some kept)

/-- Three responses, two of them under codes with the same text. -/
def repeatingCodes : World := Paths.storeOf [
  .mapping [(.str "description", .str "ok")], .mapping [(.str "description", .str "fine")],
  .mapping [(.int 200, .obj 0), (.str "404", .obj 0), (.str "200", .obj 1)]]

/-- Two of the responses become one, and the call gives an operation. -/
theorem build_merges :
    (Value.obj 2).mapping? repeatingCodes =
      some [(.int 200, .obj 0), (.str "404", .obj 0), (.str "200", .obj 1)] ∧
    ∃ v w' op, (build (.str "get") (.str "/") (.obj 2) .none .none .none .none .none .none).run
        repeatingCodes = .ok v w' ∧ of? w' v = some op ∧
      w'.tree (.obj op.responses) = .record [("200", .record [("description", .str "fine")]),
        ("404", .record [("description", .str "ok")])] :=
  ⟨rfl, _, _, _, rfl, rfl, rfl⟩

theorem build_keeps_last_repeatingCodes : repeatingCodes.Owned ∧ repeatingCodes.IsData (.obj 2) ∧
    AreResponses repeatingCodes [(.int 200, .obj 0), (.str "404", .obj 0), (.str "200", .obj 1)] ∧
    ∃ v w' op kept, (build (.str "get") (.str "/") (.obj 2) .none .none .none .none .none .none).run
        repeatingCodes = .ok v w' ∧ w'.IsOperation v op ∧
      w'.tree (.obj op.responses) = .record kept ∧ kept.length ≠ 3 ∧
      (op.emit (.str "getAll")).Gives w' fun u w'' =>
        (w''.tree u).part? (.name "responses") = some (.record kept) := by
  have owned : repeatingCodes.Owned := fun _ _ => rfl
  have none : repeatingCodes.IsData .none := .atom _
  have first : repeatingCodes.IsData (.obj 0) :=
    .obj (by decide) rfl rfl (fun _ h => nomatch h) fun v hv => by
      change v ∈ [Value.str "description", .str "ok"] at hv
      simp only [List.mem_cons, List.not_mem_nil, or_false] at hv
      rcases hv with rfl | rfl <;> exact .atom _
  have second : repeatingCodes.IsData (.obj 1) :=
    .obj (by decide) rfl rfl (fun _ h => nomatch h) fun v hv => by
      change v ∈ [Value.str "description", .str "fine"] at hv
      simp only [List.mem_cons, List.not_mem_nil, or_false] at hv
      rcases hv with rfl | rfl <;> exact .atom _
  have responses : repeatingCodes.IsData (.obj 2) :=
    .obj (by decide) rfl rfl (fun _ h => nomatch h) fun v hv => by
      change v ∈ [Value.int 200, .obj 0, .str "404", .obj 0, .str "200", .obj 1] at hv
      simp only [List.mem_cons, List.not_mem_nil, or_false] at hv
      rcases hv with rfl | rfl | rfl | rfl | rfl | rfl <;>
        first | exact .atom _ | exact first | exact second
  have records : AreResponses repeatingCodes
      [(.int 200, .obj 0), (.str "404", .obj 0), (.str "200", .obj 1)] := by
    have ok : ∃ ts, repeatingCodes.Shows (.obj 0) (.record ts) ∧ Entries.Distinct ts :=
      ⟨[("description", .str "ok")], ⟨first, rfl⟩, by simp [Entries.Distinct]⟩
    have fine : ∃ ts, repeatingCodes.Shows (.obj 1) (.record ts) ∧ Entries.Distinct ts :=
      ⟨[("description", .str "fine")], ⟨second, rfl⟩, by simp [Entries.Distinct]⟩
    simp only [AreResponses, List.forall_mem_cons]
    exact ⟨ok, ok, fine, by simp⟩
  obtain ⟨v, w', run⟩ : ∃ v w', (build (.str "get") (.str "/") (.obj 2) .none .none .none .none
      .none .none).run repeatingCodes = .ok v w' := ⟨_, _, rfl⟩
  obtain ⟨op, kept, operation, shown, -, lost, -, emitted⟩ :=
    build_keeps_last owned responses none none none rfl records run
  refine ⟨owned, responses, records, v, w', op, kept, run, operation, shown, fun three => ?_,
    emitted (.inl rfl) _ (.atom _)⟩
  -- The first code and the last have the same text.
  have texts : ["200", "404", "200"].Nodup := lost.mp three
  exact absurd texts (by decide)

end Operation
end OpenApiDoc
