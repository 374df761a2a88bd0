import OpenApiDoc.Builder.Call
import OpenApiDoc.Proofs.Outcomes

/-! # Arguments of calls

What is bound to the parameters of a function is among the arguments or the defaults. A property of
named values that holds of both holds of all that the function gets.

* `Signature.bind?_all` is about the values of a call.
* `Call.Function.call_cases`: a call fits and runs the function, or fails at once. -/

namespace OpenApiDoc

open Build World

namespace Signature

variable {P : String × Value → Prop}

/-- The property holds of every value of the call, under its name. -/
def Bound.All (P : String × Value → Prop) (b : Bound) : Prop :=
  (∀ f ∈ b.values, P f) ∧ ∀ f ∈ b.more, P f

theorem Bound.All.arg {b : Bound} (h : b.All P) (name : String) (none : P (name, .none)) :
    P (name, b.arg name) := by
  rw [Bound.arg]
  cases hl : b.values.lookup name with
  | none => exact none
  | some v => exact h.1 _ (Entries.mem_of_lookup hl)

theorem addNamed_all {s : Signature} {b c : Bound} {given : String × Value} (h : b.All P)
    (hg : P given) (hc : s.addNamed b given = .ok c) : c.All P := by
  have snoc {fs : List (String × Value)} (hf : ∀ f ∈ fs, P f) : ∀ f ∈ fs ++ [given], P f := by
    intro f hmem
    rcases List.mem_append.mp hmem with hmem | hmem
    · exact hf f hmem
    · exact List.mem_singleton.mp hmem ▸ hg
  unfold addNamed at hc
  split at hc
  · split at hc
    · cases hc
    · cases hc
      exact ⟨snoc h.1, h.2⟩
  · split at hc
    · cases hc
      exact ⟨h.1, snoc h.2⟩
    · cases hc

theorem complete_all {values : List (String × Value)} (h : ∀ f ∈ values, P f)
    {ps : List (String × Option Value)} (hp : ∀ p ∈ ps, ∀ v, p.2 = some v → P (p.1, v))
    {all : List (String × Value)} (ha : complete values ps = .ok all) : ∀ f ∈ all, P f := by
  induction ps generalizing all with
  | nil =>
      cases ha
      simp
  | cons p ps ih =>
      obtain ⟨name, default⟩ := p
      rw [List.forall_mem_cons] at hp
      unfold complete at ha
      split at ha
      · rename_i v rest hv hrest
        cases ha
        refine List.forall_mem_cons.mpr ⟨?_, ih hp.2 hrest⟩
        cases hl : values.lookup name with
        | some u =>
            obtain rfl : u = v := by simpa [hl] using hv
            exact h _ (Entries.mem_of_lookup hl)
        | none =>
            have given : default = some v := by simpa [hl] using hv
            exact hp.1 v given
      all_goals cases ha

theorem bind?_all {s : Signature} (hs : ∀ p ∈ s.known, ∀ v, p.2 = some v → P (p.1, v))
    {args : List Value} {named : List (String × Value)}
    (ha : ∀ f ∈ (s.parameters.map (·.1)).zip args, P f) (hn : ∀ f ∈ named, P f) {b : Bound}
    (hb : s.bind? args named = .ok b) : b.All P := by
  have folded {named : List (String × Value)} (hn : ∀ f ∈ named, P f) {b c : Bound}
      (hb : b.All P) (hc : named.foldlM s.addNamed b = .ok c) : c.All P := by
    induction named generalizing b with
    | nil =>
        cases hc
        exact hb
    | cons f named ih =>
        rw [List.foldlM_cons] at hc
        rw [List.forall_mem_cons] at hn
        cases hd : s.addNamed b f with
        | error m => simp [hd, Bind.bind, Except.bind] at hc
        | ok d =>
            simp only [hd, Bind.bind, Except.bind] at hc
            exact ih hn.2 (addNamed_all hb hn.1 hd) hc
  have placed : (⟨(s.parameters.map (·.1)).zip args, []⟩ : Bound).All P := ⟨ha, by simp⟩
  unfold bind? at hb
  cases hc : named.foldlM s.addNamed ⟨(s.parameters.map (·.1)).zip args, []⟩ with
  | error m => simp [hc, Bind.bind, Except.bind] at hb
  | ok c =>
      have all := folded hn placed hc
      simp only [hc, Bind.bind, Except.bind] at hb
      split at hb
      · cases hb
      · split at hb
        · rename_i values hvalues
          cases hb
          exact ⟨complete_all all.1 hs hvalues, all.2⟩
        · cases hb

theorem complete_names {values : List (String × Value)} {ps : List (String × Option Value)}
    {all : List (String × Value)} (h : complete values ps = .ok all) :
    all.map (·.1) = ps.map (·.1) := by
  induction ps generalizing all with
  | nil =>
      cases h
      rfl
  | cons p ps ih =>
      unfold complete at h
      split at h
      next rest _ hrest =>
        cases h
        rw [List.map_cons, List.map_cons, ih hrest]
      all_goals cases h

/-- Every parameter has a value. -/
theorem bind?_names {s : Signature} {args : List Value} {named : List (String × Value)} {b : Bound}
    (h : s.bind? args named = .ok b) : b.values.map (·.1) = s.known.map (·.1) := by
  unfold bind? at h
  cases hc : named.foldlM s.addNamed ⟨(s.parameters.map (·.1)).zip args, []⟩ with
  | error m => simp [hc, Bind.bind, Except.bind] at h
  | ok c =>
      simp only [hc, Bind.bind, Except.bind] at h
      split at h
      · cases h
      · split at h
        next values hvalues =>
          cases h
          exact complete_names hvalues
        next => cases h

end Signature

namespace Call

open Signature

variable {args : List Value} {named : List (String × Value)} {b : Bound}

/-- The arguments fit the parameters of the function, and these are its values. -/
def Function.Fits (f : Function) (args : List Value) (named : List (String × Value)) (b : Bound) :
    Prop :=
  f.signature.bind? args named = .ok b

theorem Function.Fits.call {f : Function} (h : f.Fits args named b) :
    f.call args named = f.run b := by
  rw [Function.call, Signature.bind, h]
  rfl

/-- A property that holds of all values of a call holds of the value of each parameter. -/
theorem Function.Fits.arg {P : String × Value → Prop} {f : Function} (h : f.Fits args named b)
    (all : b.All P) {name : String} (known : name ∈ f.signature.known.map (·.1)) :
    P (name, b.arg name) := by
  rw [← bind?_names h, List.mem_map] at known
  obtain ⟨⟨name, u⟩, hu, rfl⟩ := known
  cases hl : b.values.lookup name with
  | none => exact absurd (List.lookup_eq_none_iff.mp hl _ hu) (by simp)
  | some v =>
      rw [Bound.arg, hl]
      exact all.1 _ (Entries.mem_of_lookup hl)

/-- A call runs the function with its arguments, or fails at once. -/
theorem Function.call_cases {P : String × Value → Prop} {f : Function}
    (hf : ∀ p ∈ f.signature.known, ∀ v, p.2 = some v → P (p.1, v))
    (ha : ∀ e ∈ (f.signature.parameters.map (·.1)).zip args, P e) (hn : ∀ e ∈ named, P e) :
    (∃ b : Bound, f.Fits args named b ∧ b.All P) ∨ ∃ m, f.call args named = Build.fail m := by
  cases hb : f.signature.bind? args named with
  | error m => exact .inr ⟨_, by rw [call, Signature.bind, hb]; rfl⟩
  | ok b => exact .inl ⟨b, hb, bind?_all hf ha hn hb⟩

/-- The parameters of a function that may be given without their names. -/
def positions : Callee → List String
  | .construct c _ => (constructor c).signature.parameters.map (·.1)
  | .optional | .required | .nullable => ["node"]
  | .response => response.signature.parameters.map (·.1)
  | .requestBody => requestBody.signature.parameters.map (·.1)
  | .jsonBody => ["schema"]
  | .parameter => parameter.signature.parameters.map (·.1)
  | .pathParam | .queryParam | .headerParam => ["name", "schema"]
  | .operation => operation.signature.parameters.map (·.1)
  | .merge => [itself, "extra"]
  | .emit => ["value"]
  | .emitOperation => [itself, "default_id"]
  | .paths => ["ops"]
  | .document => document.signature.parameters.map (·.1)
  | _ => []

/-- The arguments of a call under the names of their parameters. -/
def underNames (f : Callee) (args : List Value) (named : List (String × Value)) :
    List (String × Value) :=
  (positions f).zip args ++ named

end Call
end OpenApiDoc
