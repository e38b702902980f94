import HydraClient.Proofs.Exports
import HydraClient.Proofs.Work
import HydraClient.Render.Endpoints
import HydraClient.Render.Types

/-! # Declarations in rendered text

The text of a type, of an entry and of a payload helper declares what other files take from it.
-/
namespace HydraClient

open TypeRegistry

namespace Render

variable {r : TypeRegistry} {t : TypeEntry} {lines : List String} {f : Fragment}
  {group : List TypeEntry} {n : String}

theorem stop_generics (t : TypeEntry) (rest : String) :
    ∃ stop rest', stop ∈ [" ", "<", "("] ∧ generics t ++ (" " ++ rest) = stop ++ rest' := by
  have hnone : ∃ stop rest', stop ∈ [" ", "<", "("] ∧ "" ++ (" " ++ rest) = stop ++ rest' :=
    ⟨" ", rest, by simp, by simp⟩
  unfold generics
  split
  · rename_i g _
    split
    · exact hnone
    · exact ⟨"<", g ++ ">" ++ (" " ++ rest), by simp, by simp only [String.append_assoc]⟩
  · exact hnone

theorem exports_aliasLine (aliased : String) :
    Exports ("export type " ++ t.name ++ generics t ++ " = " ++ aliased ++ ";") t.name := by
  obtain ⟨stop, rest, hstop, hrest⟩ := stop_generics t ("= " ++ aliased ++ ";")
  refine .line "type" stop rest (by simp [declarators]) hstop ?_
  have hword : "export type " = "export " ++ "type" ++ " " := by decide
  have hsep : " = " = " " ++ "= " := by decide
  rw [hword, hsep]
  simp only [String.append_assoc] at hrest ⊢
  rw [hrest]

theorem exports_interfaceLine (supers : String) (hs : supers = "" ∨ ∃ s, supers = " " ++ s) :
    Exports ("export interface " ++ t.name ++ generics t ++ supers ++ " \x7b") t.name := by
  obtain ⟨tail, htail⟩ : ∃ tail, supers ++ " \x7b" = " " ++ tail := by
    rcases hs with rfl | ⟨s, rfl⟩
    · exact ⟨"\x7b", by decide⟩
    · exact ⟨s ++ " \x7b", by rw [String.append_assoc]⟩
  obtain ⟨stop, rest, hstop, hrest⟩ := stop_generics t tail
  refine .line "interface" stop rest (by simp [declarators]) hstop ?_
  have hword : "export interface " = "export " ++ "interface" ++ " " := by decide
  rw [hword]
  simp only [String.append_assoc] at hrest ⊢
  rw [htail, hrest]

theorem exports_interfaceLines : ∃ line ∈ interfaceLines t, Exports line t.name := by
  refine ⟨_, ?_, exports_interfaceLine
    (if t.supers.isEmpty then "" else " extends " ++ String.intercalate ", " t.supers) ?_⟩
  · simp [interfaceLines]
  · split
    · exact .inl rfl
    · refine .inr ⟨"extends " ++ String.intercalate ", " t.supers, ?_⟩
      rw [← String.append_assoc]
      rfl

theorem exports_enumLines (h : enumLines t = .ok lines) : ∃ line ∈ lines, Exports line t.name := by
  unfold enumLines at h
  cases hm : t.members.entries.mapM fun m => memberLine m.1 m.2 with
  | error e => rw [hm] at h; cases h
  | ok members =>
    rw [hm] at h
    obtain rfl := Except.ok.inj h
    refine ⟨"export enum " ++ t.name ++ " \x7b", by simp, ?_⟩
    refine .line "enum" " " "\x7b" (by simp [declarators]) (by simp) ?_
    have hword : "export enum " = "export " ++ "enum" ++ " " := by decide
    have hstop : " \x7b" = " " ++ "\x7b" := by decide
    rw [hword, hstop]
    simp only [String.append_assoc]

theorem exports_typeLines (h : typeLines r t = .ok lines) :
    Exports (String.intercalate "\n" lines) t.name := by
  suffices ∃ line ∈ lines, Exports line t.name by
    obtain ⟨line, hmem, hline⟩ := this
    exact hline.intercalate hmem (by decide)
  unfold typeLines at h
  split at h
  · obtain rfl := Except.ok.inj h
    exact ⟨_, List.mem_singleton.2 rfl, exports_aliasLine _⟩
  · obtain rfl := Except.ok.inj h
    obtain ⟨line, hmem, hline⟩ := exports_interfaceLines (t := t)
    exact ⟨line, List.mem_append_left _ hmem, hline⟩
  · exact exports_enumLines h
  · exact exports_enumLines h
  · cases h

theorem block_of_typeFragment (h : typeFragment r group = .ok f) (ht : t ∈ group) :
    ∃ lines blocks, typeLines r t = .ok lines ∧ f.body = String.intercalate "\n\n" blocks ∧
      String.intercalate "\n" lines ∈ blocks := by
  unfold typeFragment at h
  cases hb : (group.mergeSort fun a b => a.siblingCount ≤ b.siblingCount).mapM fun t =>
      (typeLines r t).map (String.intercalate "\n") with
  | error e => simp only [hb] at h; cases h
  | ok blocks =>
    simp only [hb] at h
    obtain rfl := Except.ok.inj h
    obtain ⟨block, hmem, hblock⟩ := exists_of_mapM_ok hb (List.mem_mergeSort.2 ht)
    obtain ⟨lines, hlines, rfl⟩ := exists_of_map_ok hblock
    exact ⟨lines, blocks, hlines, rfl, hmem⟩

theorem exports_typeFragment (h : typeFragment r group = .ok f) (ht : t ∈ group) :
    Exports f.body t.name := by
  obtain ⟨lines, blocks, hlines, hbody, hmem⟩ := block_of_typeFragment h ht
  rw [hbody]
  exact (exports_typeLines hlines).intercalate hmem (by decide)

theorem takes_typeFragment {target : String} (h : typeFragment r group = .ok f) :
    f.imports.Takes target n ↔ ∃ t ∈ group, t.imports.Takes target n := by
  unfold typeFragment at h
  cases hb : (group.mergeSort fun a b => a.siblingCount ≤ b.siblingCount).mapM fun t =>
      (typeLines r t).map (String.intercalate "\n") with
  | error e => simp only [hb] at h; cases h
  | ok blocks =>
    simp only [hb] at h
    obtain rfl := Except.ok.inj h
    rw [Imports.takes_foldl_merge]
    simp [List.mem_mergeSort]

section Endpoints

variable {e : EndpointEntry} {k : String} {b : Binding} {c : Call} {body : String} {i : Imports}

theorem exports_objectLines (b : Binding) :
    ∃ line ∈ objectLines b, Exports line b.symbol := by
  refine ⟨"export const " ++ b.symbol ++ " = \x7b", by simp [objectLines], ?_⟩
  refine .line "const" " " "= \x7b" (by simp [declarators]) (by simp) ?_
  have hword : "export const " = "export " ++ "const" ++ " " := by decide
  have hstop : " = \x7b" = " " ++ "= \x7b" := by decide
  rw [hword, hstop]
  simp only [String.append_assoc]

theorem exports_factoryObjectLines (b : Binding) :
    ∃ line ∈ factoryObjectLines b, Exports line (b.symbol ++ "EndpointFactory") := by
  refine ⟨"export function " ++ b.symbol ++ "EndpointFactory(defaultConfig?: RequestConfig) \x7b",
    by simp [factoryObjectLines], ?_⟩
  refine .line "function" "(" "defaultConfig?: RequestConfig) \x7b" (by simp [declarators])
    (by simp) ?_
  have hword : "export function " = "export " ++ "function" ++ " " := by decide
  have hstop : "EndpointFactory(defaultConfig?: RequestConfig) \x7b" =
      "EndpointFactory" ++ "(" ++ "defaultConfig?: RequestConfig) \x7b" := by decide
  rw [hword, hstop]
  simp only [String.append_assoc]

theorem exports_iriLines (b : Binding) (c : Call) :
    ∃ line ∈ iriLines b c, Exports line (Payload.iriFunction b.name) := by
  refine ⟨_, List.mem_cons_of_mem _ List.mem_cons_self, ?_⟩
  refine .line "function" "("
    ("id: Partial<" ++ b.name ++ ">|string|number|null): HydraIri<" ++ b.name ++ "> \x7b")
    (by simp [declarators]) (by simp) ?_
  have hword : "export function " = "export " ++ "function" ++ " " := by decide
  have hstop : "(id: Partial<" = "(" ++ "id: Partial<" := by decide
  rw [hword, hstop]
  simp only [String.append_assoc]

theorem mem_endpoint (h : endpoint? e = some (body, i)) (hb : e.bindings.get? k = some b)
    (hexposed : b.isExposed = true) : ∃ lines, body = String.intercalate "\n" lines ∧
      (∀ line ∈ objectLines b, line ∈ lines) ∧
      (∀ c, iriCallAt e k b = some c → ∀ line ∈ iriLines b c, line ∈ lines) ∧
      ∀ line ∈ factoryObjectLines b, line ∈ lines := by
  have hmem : (k, b) ∈ e.bindings.entries.filter fun b => b.2.isExposed :=
    List.mem_filter.2 ⟨OrderedMap.mem_entries_iff.2 hb, hexposed⟩
  unfold endpoint? at h
  dsimp only at h
  split at h
  · cases h
  · obtain ⟨rfl, -⟩ := Prod.mk.inj (Option.some.inj h)
    refine ⟨_, rfl, fun line hline => ?_, fun c hc line hline => ?_, fun line hline => ?_⟩
    · refine List.mem_append_left _ (List.mem_append_left _ (List.mem_flatMap.2 ⟨_, hmem, ?_⟩))
      exact List.mem_append_left _ hline
    · refine List.mem_append_left _ (List.mem_append_left _ (List.mem_flatMap.2 ⟨_, hmem, ?_⟩))
      refine List.mem_append_right _ ?_
      simpa only [hc] using hline
    · exact List.mem_append_right _ (List.mem_flatMap.2 ⟨_, hmem, hline⟩)

theorem exports_symbol (h : endpoint? e = some (body, i)) (hb : e.bindings.get? k = some b)
    (hexposed : b.isExposed = true) : Exports body b.symbol := by
  obtain ⟨lines, rfl, hobject, -⟩ := mem_endpoint h hb hexposed
  obtain ⟨line, hline, hexports⟩ := exports_objectLines b
  exact hexports.intercalate (hobject line hline) (by decide)

theorem exports_factory (h : endpoint? e = some (body, i)) (hb : e.bindings.get? k = some b)
    (hexposed : b.isExposed = true) : Exports body (b.symbol ++ "EndpointFactory") := by
  obtain ⟨lines, rfl, -, -, hfactory⟩ := mem_endpoint h hb hexposed
  obtain ⟨line, hline, hexports⟩ := exports_factoryObjectLines b
  exact hexports.intercalate (hfactory line hline) (by decide)

theorem exports_iri (h : endpoint? e = some (body, i)) (hb : e.bindings.get? k = some b)
    (hexposed : b.isExposed = true) (hc : iriCallAt e k b = some c) :
    Exports body (Payload.iriFunction b.name) := by
  obtain ⟨lines, rfl, -, hiri, -⟩ := mem_endpoint h hb hexposed
  obtain ⟨line, hline, hexports⟩ := exports_iriLines b c
  exact hexports.intercalate (hiri c hc line hline) (by decide)

theorem endpoint?_of_exposed (hb : e.bindings.get? k = some b) (hexposed : b.isExposed = true) :
    ∃ body i, endpoint? e = some (body, i) := by
  have hmem : (k, b) ∈ e.bindings.entries.filter fun b => b.2.isExposed :=
    List.mem_filter.2 ⟨OrderedMap.mem_entries_iff.2 hb, hexposed⟩
  unfold endpoint?
  dsimp only
  split
  · rename_i hempty
    rw [List.isEmpty_iff] at hempty
    rw [hempty] at hmem
    cases hmem
  · exact ⟨_, _, rfl⟩

def IriTakes (e : EndpointEntry) (k : String) (b : Binding) (target n : String) : Prop :=
  (iriCallAt e k b).isSome = true ∧
    (target = BaseTypes.apiTypesFile ∧ (n = "HydraIri" ∨ n = "generateIri") ∨
      target = "interfaces/" ++ b.name ∧ n = b.name)

theorem takes_foldl_iri {l : List (String × Binding)} {target n : String} :
    (l.foldl (fun i (key, b) => match iriCallAt e key b with
      | some _ => ((i.add BaseTypes.apiTypesFile "HydraIri").add BaseTypes.apiTypesFile
          "generateIri").add ("interfaces/" ++ b.name) b.name
      | none => i) i).Takes target n ↔
    i.Takes target n ∨ ∃ p ∈ l, IriTakes e p.1 p.2 target n := by
  induction l generalizing i with
  | nil => simp
  | cons p rest ih =>
    rw [List.foldl_cons, ih]
    simp only [List.mem_cons, exists_eq_or_imp, ← or_assoc]
    refine or_congr_left ?_
    unfold IriTakes
    cases hc : iriCallAt e p.1 p.2 with
    | none => simp
    | some c =>
      simp only [Imports.takes_add, Option.isSome_some, true_and]
      grind

def helperNames (e : EndpointEntry) : List String :=
  "RequestConfig" :: (e.bindings.entries.filter fun b => b.2.isExposed).flatMap fun b =>
    b.2.calls.values.map fun c => (helperCall c).1

/-- The text of an entry takes helpers, what is recorded for the entry and, beside a function for
identifiers, what that function needs. -/
theorem takes_endpoint {target n : String} (h : endpoint? e = some (body, i)) :
    i.Takes target n ↔ (target = BaseTypes.apiMethodsFile ∧ n ∈ helperNames e) ∨
      e.imports.Takes target n ∨
      ∃ k b, e.bindings.get? k = some b ∧ b.isExposed = true ∧ IriTakes e k b target n := by
  have hentries : (∃ p ∈ e.bindings.entries.filter fun b => b.2.isExposed,
      IriTakes e p.1 p.2 target n) ↔
        ∃ k b, e.bindings.get? k = some b ∧ b.isExposed = true ∧ IriTakes e k b target n := by
    simp only [List.mem_filter, Prod.exists, OrderedMap.mem_entries_iff, and_assoc]
  unfold endpoint? at h
  dsimp only at h
  split at h
  · cases h
  · obtain ⟨-, rfl⟩ := Prod.mk.inj (Option.some.inj h)
    refine (Imports.takes_add.trans (or_congr_right (takes_foldl_iri.trans
      (or_congr Imports.takes_foldl_add hentries)))).trans ?_
    rw [helperNames]
    simp only [List.mem_cons]
    grind

end Endpoints

end Render

namespace Payload

variable {d : Draft} {t : TypeEntry} {p : Property} {c : Converter}

theorem exports_render : Exports (render d t).1 (payloadFunction t.name) := by
  have hline : Exports ("export function " ++ payloadFunction t.name ++ "(entity: Partial<" ++
      t.name ++ ">, excludedFields?: Array<keyof " ++ t.name ++ ">, fields?: Array<keyof " ++
      t.name ++ ">): Partial<" ++ t.name ++ "> \x7b") (payloadFunction t.name) := by
    refine .line "function" "(" ("entity: Partial<" ++
      t.name ++ ">, excludedFields?: Array<keyof " ++ t.name ++ ">, fields?: Array<keyof " ++
      t.name ++ ">): Partial<" ++ t.name ++ "> \x7b") (by simp [declarators]) (by simp) ?_
    have hword : "export function " = "export " ++ "function" ++ " " := by decide
    have hstop : "(entity: Partial<" = "(" ++ "entity: Partial<" := by decide
    rw [hword, hstop]
    simp only [String.append_assoc]
  refine hline.intercalate ?_ (by decide)
  exact List.mem_append_left _ (List.mem_append_left _ (List.mem_append_left _
    (List.mem_singleton.2 rfl)))

theorem takes_render {target n : String} : (render d t).2.Takes target n ↔
    ∃ p ∈ t.properties.values, ∃ c, converter? d p = some c ∧ target = c.file ∧ n = c.name := by
  unfold render
  rw [Imports.takes_foldl_add]
  simp only [Imports.not_takes_empty, false_or, List.mem_filterMap, Option.map_eq_some_iff]
  constructor
  · rintro ⟨_, ⟨p, hp, c, hc, rfl⟩, rfl, rfl⟩
    exact ⟨p, hp, c, hc, rfl, rfl⟩
  · rintro ⟨p, hp, c, hc, rfl, rfl⟩
    exact ⟨(p, c), ⟨p, hp, c, hc, rfl⟩, rfl, rfl⟩

/-- A relation is converted by the identifier of its target, or else by its payload. -/
theorem converter?_some (h : converter? d p = some c) : ∃ target file,
    d.types.get? (p.related.getD "") = some target ∧ target.file = some file ∧
    ((∃ s e, target.source = some s ∧ d.operations.get? s = some e ∧ target.addressable = true ∧
        e.iriKey.isSome = true ∧ c = ⟨iriFunction target.name, e.file⟩) ∨
      target.persistent = true ∧ c = ⟨payloadFunction target.name, file⟩) := by
  unfold converter? at h
  obtain ⟨related, hrelated, h⟩ := Option.bind_eq_some_iff.1 h
  obtain ⟨target, htarget, h⟩ := Option.bind_eq_some_iff.1 h
  obtain ⟨file, hfile, h⟩ := Option.bind_eq_some_iff.1 h
  rw [Option.filter_eq_some_iff] at hrelated hfile
  refine ⟨target, file, by simpa [hrelated.1] using htarget, hfile.1, ?_⟩
  dsimp only at h
  split at h
  · rename_i e he
    obtain ⟨hentry, hiri⟩ := Option.filter_eq_some_iff.1 he
    obtain ⟨s, hs, hget⟩ := Option.bind_eq_some_iff.1 hentry
    rw [Bool.and_eq_true] at hiri
    exact .inl ⟨s, e, (Option.filter_eq_some_iff.1 hs).1, hget, hiri.1, hiri.2,
      (Option.some.inj h).symm⟩
  · split at h
    · rename_i hpersistent
      exact .inr ⟨hpersistent, (Option.some.inj h).symm⟩
    · cases h

end Payload

theorem BaseTypes.exports_iriFunction : Exports BaseTypes.iriFunction "generateIri" := by
  have hline : Exports ("export function generateIri<T extends HydraItem>(item: " ++
      "T|string|number|null, " ++ "uriTemplate: string): null|HydraIri<T> \x7b") "generateIri" :=
    .line "function" "<" ("T extends HydraItem>(item: " ++
      "T|string|number|null, " ++ "uriTemplate: string): null|HydraIri<T> \x7b")
      (by simp [declarators]) (by simp) (by decide)
  exact hline.intercalate (List.mem_cons_self) (by decide)

namespace TypeRegistry

variable {r : TypeRegistry} {t : TypeEntry} {file : String}

def typesIn (r : TypeRegistry) (file : String) : List TypeEntry :=
  r.toList.filter fun t => t.isRendered && t.file.getD "" == file

theorem get?_foldl_group {l : List TypeEntry} {m : OrderedMap String (List TypeEntry)} :
    (l.foldl (fun m t => m.insert (t.file.getD "")
        ((m.get? (t.file.getD "")).getD [] ++ [t])) m).get? file =
      if l.filter (·.file.getD "" == file) = [] then m.get? file
      else some ((m.get? file).getD [] ++ l.filter (·.file.getD "" == file)) := by
  induction l generalizing m with
  | nil => rfl
  | cons t rest ih =>
    rw [List.foldl_cons, ih, OrderedMap.get?_insert]
    by_cases ht : t.file.getD "" = file
    · rw [if_pos ht.symm, List.filter_cons_of_pos (by simpa using ht),
        if_neg (List.cons_ne_nil _ _),
        ht]
      split
      · rename_i hnone
        rw [hnone]
      · rw [Option.getD_some, List.append_assoc, List.singleton_append]
    · rw [if_neg (Ne.symm ht), List.filter_cons_of_neg (by simpa using ht)]

theorem get?_byFile :
    r.byFile.get? file = if r.typesIn file = [] then none else some (r.typesIn file) := by
  have hfilter : (r.toList.filter (·.isRendered)).filter (·.file.getD "" == file) =
      r.typesIn file := by
    rw [List.filter_filter, typesIn]
    exact List.filter_congr fun t _ => Bool.and_comm _ _
  unfold byFile
  rw [get?_foldl_group, hfilter, OrderedMap.get?_empty, Option.getD_none, List.nil_append]

theorem mem_byFile : t ∈ (r.byFile.get? file).getD [] ↔
    t ∈ r.toList ∧ t.isRendered = true ∧ t.file.getD "" = file := by
  have hmem : t ∈ r.typesIn file ↔ t ∈ r.toList ∧ t.isRendered = true ∧ t.file.getD "" = file := by
    simp [typesIn]
  rw [get?_byFile, ← hmem]
  split
  · rename_i hnone
    rw [Option.getD_none, hnone]
  · rw [Option.getD_some]

theorem exists_of_mem_byFile (h : file ∈ r.byFile.keys) :
    ∃ t ∈ r.toList, t.file.getD "" = file := by
  obtain ⟨group, hgroup⟩ := OrderedMap.mem_keys_iff.1 h
  have hne : group ≠ [] := by
    rw [get?_byFile] at hgroup
    split at hgroup
    · cases hgroup
    · rename_i hne
      exact Option.some.inj hgroup ▸ hne
  obtain ⟨t, ht⟩ := List.exists_mem_of_ne_nil group hne
  obtain ⟨hmem, -, hfile⟩ := mem_byFile.1 (by rw [hgroup]; exact ht)
  exact ⟨t, hmem, hfile⟩

end TypeRegistry
end HydraClient
