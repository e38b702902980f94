import HydraClient.Pipeline
import HydraClient.Proofs.Declarations
import HydraClient.Proofs.Extraction

/-! # Fragments

Which fragments a phase brings to which files, in order. Phases after extraction read types and
entries and add to the files only.
-/
namespace HydraClient

theorem FileSet.fragments_add (s : FileSet) (file file' : String) (f : Fragment) :
    (s.add file f).fragments file' = s.fragments file' ++ if file' = file then [f] else [] := by
  rw [fragments, add, OrderedMap.get?_insert]
  split
  · rename_i h
    rw [Option.getD_some, h]
  · rw [List.append_nil, fragments]

/-- Work that leaves types and entries alone and puts fragments at the ends of files. -/
structure Brings (l : String → List Fragment) (s s' : Draft) : Prop where
  types : s'.types = s.types
  operations : s'.operations = s.operations
  fragments : ∀ file, s'.files.fragments file = s.files.fragments file ++ l file

namespace Brings

variable {k l : String → List Fragment} {s s' s'' : Draft}

theorem nothing (s : Draft) : Brings (fun _ => []) s s := ⟨rfl, rfl, by simp⟩

theorem trans (h : Brings k s s') (h' : Brings l s' s'') :
    Brings (fun file => k file ++ l file) s s'' where
  types := h'.types.trans h.types
  operations := h'.operations.trans h.operations
  fragments file := by rw [h'.fragments, h.fragments, List.append_assoc]

theorem congr (h : Brings k s s') (hkl : ∀ file, k file = l file) : Brings l s s' := by
  rwa [← funext hkl]

theorem add (s : Draft) (file : String) (f : Fragment) :
    Brings (fun file' => if file' = file then [f] else []) s
      { s with files := s.files.add file f } where
  types := rfl
  operations := rfl
  fragments file' := s.files.fragments_add file file' f

theorem of_passes {α : Type} {R : α → Draft → Draft → Prop} {A : α → String → List Fragment}
    {l : List α} (h : Passes R l s s')
    (step : ∀ a ∈ l, ∀ m m', m.types = s.types → m.operations = s.operations → R a m m' →
      Brings (A a) m m') : Brings (fun file => l.flatMap (A · file)) s s' := by
  refine h.prefix_invariant (I := fun done m => Brings (fun file => done.flatMap (A · file)) s m)
    (nothing s) ?_
  intro before a after m m' hsplit hI hR
  refine (hI.trans (step a (by simp [hsplit]) m m' hI.types hI.operations hR)).congr fun file => ?_
  rw [List.flatMap_append, List.flatMap_singleton]

theorem mem_fragments {file : String} {f : Fragment} (h : Brings l s s') :
    f ∈ s'.files.fragments file ↔ f ∈ s.files.fragments file ∨ f ∈ l file := by
  rw [h.fragments, List.mem_append]

end Brings

namespace Payload

variable {d d' : Draft} {p : Property} {t : TypeEntry}

theorem converter?_congr (ht : d'.types = d.types) (ho : d'.operations = d.operations) :
    converter? d' p = converter? d p := by
  simp only [converter?, ht, ho]

theorem render_congr (ht : d'.types = d.types) (ho : d'.operations = d.operations) :
    render d' t = render d t := by
  simp only [render, converter?_congr ht ho]

def fragment (d : Draft) (t : TypeEntry) : Fragment where
  body := (render d t).1
  priority := SourceFile.payloadPriority
  imports := (render d t).2

def Shapes (d : Draft) (file : String) (f : Fragment) : Prop :=
  ∃ t ∈ d.types.toList.filter isShaped, file = t.file.getD "" ∧ f = fragment d t

def helperFragments (d : Draft) (file : String) : List Fragment :=
  (d.types.toList.filter isShaped).flatMap fun t =>
    if file = t.file.getD "" then [fragment d t] else []

theorem mem_helperFragments {file : String} {f : Fragment} :
    f ∈ helperFragments d file ↔ Shapes d file f := by
  rw [helperFragments, List.mem_flatMap]
  refine exists_congr fun t => and_congr_right fun _ => ?_
  split
  · rename_i h
    rw [List.mem_singleton, and_iff_right h]
  · rename_i h
    exact ⟨nofun, fun hf => absurd hf.1 h⟩

theorem shapes_congr (ht : d'.types = d.types) (ho : d'.operations = d.operations) :
    Shapes d' = Shapes d := by
  funext file f
  simp only [Shapes, fragment, ht, render_congr ht ho]

theorem brings_shapeAll {s s' : Draft} {n : Nat} (h : Yields shapeAll s n s') :
    Brings (helperFragments s) s s' := by
  obtain ⟨_, m, hloop, h⟩ := Yields.bind_iff.1 (Yields.get_bind.1 h)
  obtain ⟨-, rfl⟩ := Yields.pure_iff.1 h
  have hpass := Yields.forIn_pass (R := fun t m m' => m' = { m with
      files := m.files.add (t.file.getD "") (fragment m t) }) hloop fun t m v m' hv => by
    obtain ⟨_, m₁, hadd, hp⟩ := Yields.bind_iff.1 (Yields.get_bind.1 hv)
    obtain ⟨rfl, rfl⟩ := Yields.pure_iff.1 hp
    exact ⟨rfl, Drafting.yields_addFragment hadd⟩
  refine Brings.of_passes hpass ?_
  intro t _ m m' ht ho hR
  subst hR
  have hfragment : fragment m t = fragment s t := by
    simp only [fragment, render_congr ht ho]
  exact hfragment ▸ Brings.add m _ _

end Payload

namespace Render

def Composes (r : TypeRegistry) (file : String) (f : Fragment) : Prop :=
  ∃ e ∈ r.byFile.entries, file = e.1 ∧ typeFragment r e.2 = .ok f

def Serves (operations : OperationRegistry) (file : String) (f : Fragment) : Prop :=
  ∃ e ∈ operations.values, ∃ body imports, endpoint? e = some (body, imports) ∧ file = e.file ∧
    f = { body, priority := SourceFile.endpointPriority, imports }

def groupFragment (r : TypeRegistry) (group : List TypeEntry) : List Fragment :=
  (typeFragment r group).toOption.toList

def typeFragments (r : TypeRegistry) (file : String) : List Fragment :=
  r.byFile.entries.flatMap fun e => if file = e.1 then groupFragment r e.2 else []

def entryFragments (e : EndpointEntry) (file : String) : List Fragment :=
  match endpoint? e with
  | some (body, imports) =>
    if file = e.file then [{ body, priority := SourceFile.endpointPriority, imports }] else []
  | none => []

def endpointFragments (operations : OperationRegistry) (file : String) : List Fragment :=
  operations.values.flatMap (entryFragments · file)

variable {r : TypeRegistry} {operations : OperationRegistry} {file : String} {f : Fragment}

theorem mem_groupFragment {group : List TypeEntry} :
    f ∈ groupFragment r group ↔ typeFragment r group = .ok f := by
  unfold groupFragment
  cases typeFragment r group with
  | error e => exact ⟨nofun, nofun⟩
  | ok f' => simp [Except.toOption, eq_comm]

theorem mem_typeFragments : f ∈ typeFragments r file ↔ Composes r file f := by
  rw [typeFragments, List.mem_flatMap]
  refine exists_congr fun e => and_congr_right fun _ => ?_
  split
  · rename_i h
    rw [mem_groupFragment, and_iff_right h]
  · rename_i h
    exact ⟨nofun, fun hf => absurd hf.1 h⟩

theorem mem_endpointFragments : f ∈ endpointFragments operations file ↔
    Serves operations file f := by
  rw [endpointFragments, List.mem_flatMap]
  refine exists_congr fun e => and_congr_right fun _ => ?_
  unfold entryFragments
  cases endpoint? e with
  | none => exact ⟨nofun, nofun⟩
  | some text =>
    obtain ⟨body, imports⟩ := text
    dsimp only
    constructor
    · intro hf
      split at hf
      · rename_i h
        exact ⟨body, imports, rfl, h, List.mem_singleton.1 hf⟩
      · cases hf
    · rintro ⟨body', imports', htext, h, rfl⟩
      obtain ⟨rfl, rfl⟩ := Prod.mk.inj (Option.some.inj htext)
      rw [if_pos h]
      exact List.mem_singleton_self _

theorem pass_composeTypes {s s' : Draft} {n : Nat} (h : Yields composeTypes s n s') :
    Passes (fun (e : String × List TypeEntry) m m' => ∃ f,
      typeFragment s.types e.2 = .ok f ∧ m' = { m with files := m.files.add e.1 f })
      s.types.byFile.entries s s' := by
  obtain ⟨_, m, hloop, h⟩ := Yields.bind_iff.1 (Yields.get_bind.1 h)
  obtain ⟨-, rfl⟩ := Yields.pure_iff.1 h
  refine Yields.forIn_pass hloop ?_
  intro e m v m' hv
  obtain ⟨f, hf, hv⟩ := Yields.lift_bind.1 hv
  obtain ⟨_, m₁, hadd, hp⟩ := Yields.bind_iff.1 hv
  obtain ⟨rfl, rfl⟩ := Yields.pure_iff.1 hp
  exact ⟨rfl, f, hf, Drafting.yields_addFragment hadd⟩

theorem brings_composeTypes {s s' : Draft} {n : Nat} (h : Yields composeTypes s n s') :
    Brings (typeFragments s.types) s s' := by
  refine Brings.of_passes (pass_composeTypes h) ?_
  intro e _ m m' _ _ hR
  obtain ⟨f, hf, rfl⟩ := hR
  have hgroup : groupFragment s.types e.2 = [f] := by rw [groupFragment, hf]; rfl
  rw [hgroup]
  exact Brings.add m e.1 f

theorem fragment_of_composeTypes {s s' : Draft} {n : Nat} {e : String × List TypeEntry}
    (h : Yields composeTypes s n s') (he : e ∈ s.types.byFile.entries) :
    ∃ f, typeFragment s.types e.2 = .ok f := by
  obtain ⟨_, _, f, hf, -⟩ := (pass_composeTypes h).exists_step he
  exact ⟨f, hf⟩

theorem brings_composeEndpoints {s s' : Draft} {n : Nat} (h : Yields composeEndpoints s n s') :
    Brings (endpointFragments s.operations) s s' := by
  obtain ⟨_, m, hloop, h⟩ := Yields.bind_iff.1 (Yields.get_bind.1 h)
  obtain ⟨-, rfl⟩ := Yields.pure_iff.1 h
  have hpass := (Yields.forIn_carried_pass (R := fun e (x y : Nat × Draft) =>
      Brings (entryFragments e) x.2 y.2) hloop fun e count m v m' hv => ?_).map (f := Prod.snd)
      fun _ _ _ hR => hR
  · exact Brings.of_passes hpass fun e _ m m' _ _ hR => hR
  · dsimp only at hv
    unfold entryFragments
    cases htext : endpoint? e with
    | some text =>
      obtain ⟨body, imports⟩ := text
      simp only [htext] at hv
      obtain ⟨_, m₁, hadd, hp⟩ := Yields.bind_iff.1 hv
      obtain ⟨rfl, rfl⟩ := Yields.pure_iff.1 hp
      obtain rfl := Drafting.yields_addFragment hadd
      exact ⟨count + 1, rfl, Brings.add m _ _⟩
    | none =>
      simp only [htext] at hv
      obtain ⟨rfl, rfl⟩ := Yields.pure_iff.1 hv
      exact ⟨count, rfl, Brings.nothing _⟩

end Render

namespace Pipeline

def Routed (cat : Catalog) (hook : Routes.Hook) (file : String) (f : Fragment) : Prop :=
  ∃ lines, Routes.compose cat.config hook cat.routes = .ok lines ∧
    Routes.fragment? lines = some f ∧ file = Routes.routesFile

def routeFragments (cat : Catalog) (hook : Routes.Hook) (file : String) : List Fragment :=
  match Routes.compose cat.config hook cat.routes with
  | .ok lines => if file = Routes.routesFile then (Routes.fragment? lines).toList else []
  | .error _ => []

variable {cat : Catalog} {hook : Routes.Hook}

theorem mem_routeFragments {file : String} {f : Fragment} :
    f ∈ routeFragments cat hook file ↔ Routed cat hook file f := by
  unfold routeFragments Routed
  cases Routes.compose cat.config hook cat.routes with
  | error e => exact ⟨nofun, nofun⟩
  | ok lines =>
    dsimp only
    split
    · rename_i h
      simp [h]
    · rename_i h
      simp [h]

theorem brings_composeRoutes {s s' : Draft} {n : Nat}
    (h : Yields (composeRoutes cat hook) s n s') : Brings (routeFragments cat hook) s s' := by
  obtain ⟨lines, hlines, h⟩ := Yields.lift_bind.1 h
  split at h
  · rename_i f hf
    obtain ⟨_, m, hadd, h⟩ := Yields.bind_iff.1 h
    obtain ⟨-, rfl⟩ := Yields.pure_iff.1 h
    obtain rfl := Drafting.yields_addFragment hadd
    refine (Brings.add s _ f).congr fun file => ?_
    simp only [routeFragments, hlines, hf, Option.toList_some]
  · rename_i hf
    obtain ⟨-, rfl⟩ := Yields.pure_iff.1 h
    refine (Brings.nothing _).congr fun file => ?_
    simp only [routeFragments, hlines, Option.eq_none_iff_forall_ne_some.2 hf, Option.toList_none,
      ite_self]

end Pipeline
end HydraClient
