import HydraClient.Proofs.Heads
import HydraClient.Proofs.ResolvedImports

/-! # Names in endpoint files

The calls of an endpoint file name helpers, types and children. Helpers and children are always
imported, and the types that a call deals with are recorded as its operation is taken up. The shared
interface of query parameters is not: it comes with the operations that list, while a call names it
because of its helper.
-/
namespace HydraClient

open Metadata TypeRegistry Operations

/-- What a file declares: the types that are registered under it, and what is written for the
bindings of its entry. -/
inductive Draft.DeclaredIn (d : Draft) (file : String) : String → Prop where
  | type {t : TypeEntry} : d.types.get? t.name = some t → t.file = some file →
      DeclaredIn d file t.name
  | object {e : EndpointEntry} {b : Binding} : e ∈ d.operations.values → e.file = file →
      b ∈ e.bindings.values → b.isExposed = true → DeclaredIn d file b.symbol
  | factory {e : EndpointEntry} {b : Binding} : e ∈ d.operations.values → e.file = file →
      b ∈ e.bindings.values → b.isExposed = true →
      DeclaredIn d file (b.symbol ++ "EndpointFactory")
  | identifier {e : EndpointEntry} {key : String} {b : Binding} {c : Call} :
      e ∈ d.operations.values → e.file = file → e.bindings.get? key = some b →
      Render.iriCallAt e key b = some c → DeclaredIn d file (Payload.iriFunction b.name)

/-- A name that a file may use: it is declared there or imported. -/
def Draft.Knows (d : Draft) (file n : String) : Prop :=
  d.DeclaredIn file n ∨ ∃ target, d.files.ImportsFrom file target n

/-- A call goes through the helper for lists although no operation of its class lists. -/
structure Operations.ListsBare (cat : Catalog) (className : String) (c : Call) : Prop where
  helper : c.helper = "list"
  unlisted : ∀ {shape}, cat.class? className = some shape →
    ∀ p ∈ declared shape.exposures, lists p = false

namespace Render

def inputType (c : Call) : String := (c.input.filter (· != "")).getD "any"

def outputType (c : Call) : String := (c.output.filter (· != "")).getD (inputType c)

def argumentTypes (c : Call) : List Atom :=
  match c.helper with
  | "list" => [.named (inputType c),
      match c.listParams.filter (· != "") with
      | some n => .named n
      | none => .applied "ListParams" (inputType c)]
  | "create" | "update" | "replace" => [.named (inputType c), .named (outputType c)]
  | _ => [.named (inputType c)]

theorem genericParams_eq {c : Call} (h : c.genericParams = none) :
    ∃ literals, genericParams c = (argumentTypes c).map Atom.text ++ literals ∧
      ∀ l ∈ literals, l = Script.literalUnion c.pathParams := by
  have hparams : ∀ l ∈ (if c.pathParams.isEmpty then [] else [Script.literalUnion c.pathParams]),
      l = Script.literalUnion c.pathParams := by
    intro l hl
    split at hl
    · cases hl
    · exact List.mem_singleton.1 hl
  unfold genericParams argumentTypes
  simp only [h]
  split
  · rename_i hlist
    refine ⟨_, ?_, hparams⟩
    rw [hlist]
    cases c.listParams.filter (· != "") <;> rfl
  · rename_i hcreate
    rw [hcreate]
    exact ⟨_, rfl, hparams⟩
  · rename_i hupdate
    rw [hupdate]
    exact ⟨_, rfl, hparams⟩
  · rename_i hreplace
    rw [hreplace]
    exact ⟨_, rfl, hparams⟩
  · rename_i hread
    rw [hread]
    exact ⟨_, rfl, hparams⟩
  · exact ⟨[], by simp [*, Atom.text, inputType], by simp⟩

theorem names_of_argumentTypes {c : Call} {a : Atom} {n : String} (ha : a ∈ argumentTypes c)
    (hn : n ∈ a.names) : n = inputType c ∨ n = outputType c ∨
      c.helper = "list" ∧ (c.listParams = some n ∨ n = "ListParams") := by
  have hnamed : ∀ m, n ∈ (Atom.named m).names → n = m := fun m hm => List.mem_singleton.1 hm
  unfold argumentTypes at ha
  split at ha
  · rename_i hlist
    rcases List.mem_cons.1 ha with rfl | ha
    · exact .inl (hnamed _ hn)
    · rw [List.mem_singleton.1 ha] at hn
      split at hn
      · rename_i params hparams
        rw [hnamed _ hn]
        exact .inr (.inr ⟨hlist, .inl (Option.filter_eq_some_iff.1 hparams).1⟩)
      · rcases List.mem_cons.1 hn with rfl | hn
        · exact .inr (.inr ⟨hlist, .inr rfl⟩)
        · exact .inl (List.mem_singleton.1 hn)
  all_goals
    simp only [List.mem_cons, List.not_mem_nil, or_false] at ha
  · rcases ha with rfl | rfl
    · exact .inl (hnamed _ hn)
    · exact .inr (.inl (hnamed _ hn))
  · rcases ha with rfl | rfl
    · exact .inl (hnamed _ hn)
    · exact .inr (.inl (hnamed _ hn))
  · rcases ha with rfl | rfl
    · exact .inl (hnamed _ hn)
    · exact .inr (.inl (hnamed _ hn))
  · rw [ha] at hn
    exact .inl (hnamed _ hn)

section Endpoints

variable {e : EndpointEntry} {k : String} {b : Binding} {c : Call} {body : String} {i : Imports}
  {target n : String}

theorem takes_of_entry (h : endpoint? e = some (body, i)) (hi : e.imports.Takes target n) :
    i.Takes target n := (takes_endpoint h).2 (.inr (.inl hi))

theorem takes_helper (h : endpoint? e = some (body, i)) (hb : e.bindings.get? k = some b)
    (hexposed : b.isExposed = true) (hc : c ∈ b.calls.values) :
    i.Takes BaseTypes.apiMethodsFile (helperCall c).1 := by
  have hmem : (k, b) ∈ e.bindings.entries.filter fun b => b.2.isExposed :=
    List.mem_filter.2 ⟨OrderedMap.mem_entries_iff.2 hb, hexposed⟩
  refine (takes_endpoint h).2 (.inl ⟨rfl, List.mem_cons_of_mem _ ?_⟩)
  exact List.mem_flatMap.2 ⟨(k, b), hmem, List.mem_map_of_mem hc⟩

end Endpoints

end Render

section Files

variable {cat : Catalog} {disk : Disk} {seeded modeled served d₀ d : Draft} {className n : String}
  {e x : EndpointEntry} {shape : ClassDecl} {resource : TypeEntry}

theorem Rendered.imports_of_endpoint {body target : String} {i : Imports}
    (hr : Rendered cat disk d₀ d) (he : d.operations.get? className = some e)
    (hendpoint : Render.endpoint? e = some (body, i)) (hi : i.Takes target n)
    (hne : target ≠ e.file) : d.files.ImportsFrom e.file target n := by
  have hmem : e ∈ d.operations.values := OrderedMap.mem_values_iff.2 ⟨className, he⟩
  have hfragment := hr.fragments.2 (.endpoint ⟨e, hmem, body, i, hendpoint, rfl, rfl⟩)
  exact ⟨hne, SourceFile.takes_importsOf.2 ⟨_, hfragment, hi⟩⟩

structure Written (cat : Catalog) (modeled d : Draft) (className : String) (e x : EndpointEntry)
    (shape : ClassDecl) (resource : TypeEntry) : Prop where
  served : Served cat modeled.types d.types className shape resource x
  core : x.core = e.core
  kept : ∀ {f m}, x.imports.Takes f m → e.imports.Takes f m
  file : e.file = "endpoint/" ++ resource.name

theorem Phased.written (hp : Phased cat disk seeded modeled served d₀)
    (hr : Rendered cat disk d₀ d) (he : d.operations.get? className = some e) :
    ∃ x shape resource, Written cat modeled d className e x shape resource ∧
      served.operations.get? className = some x := by
  rw [hr.operations] at he
  obtain ⟨x, hx, hcore⟩ := hp.linked.entry he
  obtain ⟨-, shape, resource, hserved⟩ := hp.bound.entries hx
  obtain ⟨e', he', hkept⟩ := hp.linked.kept hx
  obtain rfl := Option.some.inj (he.symm.trans he')
  have hfile : e.file = "endpoint/" ++ resource.name :=
    (EndpointEntry.file_of_core hcore).symm.trans hserved.holds.file
  rw [← hp.types_eq, ← hr.types] at hserved
  exact ⟨x, shape, resource, ⟨hserved, hcore, hkept, hfile⟩, hx⟩

theorem Phased.lodged (hp : Phased cat disk seeded modeled served d₀) :
    modeled.types.IsLodged := by
  have hseeded : seeded.types.IsLodged := by
    intro n t ht a typeName hs
    exact absurd hs (BaseTypes.source_ne_listSource (hp.exactly.among ht) a)
  exact hseeded.grows hp.extracted.growth

section Names

variable {symbol : String} {b : Binding} {c : Call} {child : ChildEndpoint}
  (hp : Phased cat disk seeded modeled served d₀) (hr : Rendered cat disk d₀ d)
include hp hr

/-- What is recorded for a call is a word, stands in the file of the entry or is imported there. -/
theorem known_of_noted (hw : Written cat modeled d className e x shape resource)
    (he : d.operations.get? className = some e) (hb : e.bindings.get? symbol = some b)
    (hexposed : b.isExposed = true) (hn : Noted cat modeled.types d.types x.imports n) :
    n ∈ BaseTypes.builtinNames ∨ d.Knows e.file n := by
  obtain ⟨m, hm, hmd, t, ht, hfile⟩ := hn
  have hmodeled := hp.extracted.coherent hp.exactly.coherent
  have hcoherent := Grows.coherent hm hmodeled
  have htraced := (Traced.of_exactly hp.exactly).grows (hp.extracted.growth.trans hm)
  cases hf : t.file with
  | none => exact .inl (htraced.builtin_of_fileless ht hf)
  | some f =>
    refine .inr ?_
    by_cases hown : f = e.file
    · -- A type in the very file of the entry is one of query parameters, and stays there.
      have hd : m.Declares ("endpoint/" ++ resource.name) n :=
        ⟨t, ht, by rw [hf, hown, hw.file]⟩
      obtain ⟨u, hu, hufile⟩ :=
        declares_endpoint_grows hcoherent (hp.lodged.grows hm) hmd hd
      have hname : u.name = n := (Grows.coherent hmd hcoherent).named hu
      exact .inl (hname ▸ .type (hname.symm ▸ hu) (hw.file ▸ hufile))
    · obtain ⟨body, i, hendpoint⟩ := Render.endpoint?_of_exposed hb hexposed
      refine .inr ⟨f, hr.imports_of_endpoint he hendpoint ?_ hown⟩
      exact Render.takes_of_entry hendpoint (hw.kept (hfile f hf))

theorem known_of_child (hw : Written cat modeled d className e x shape resource)
    (hx : served.operations.get? className = some x)
    (he : d.operations.get? className = some e) (hb : e.bindings.get? symbol = some b)
    (hexposed : b.isExposed = true) (hc : child ∈ b.children.values) :
    d.Knows e.file child.symbol := by
  have he₀ := he
  rw [hr.operations] at he₀
  rcases hp.linked.children he₀ ⟨b, OrderedMap.mem_values_iff.2 ⟨symbol, hb⟩, hc⟩ with
    ⟨x', hx', b', hb', hc'⟩ | ⟨o, ho, rfl, hi⟩
  · obtain rfl := Option.some.inj (hx.symm.trans hx')
    obtain ⟨k, hk⟩ := OrderedMap.mem_values_iff.1 hb'
    rw [hw.served.holds.childless hk] at hc'
    simp [OrderedMap.values, OrderedMap.empty] at hc'
  · by_cases hown : o.file = e.file
    · obtain ⟨c', e', k, b', he', hb', hexposed', hfile, hsymbol⟩ := binding_of_offer hp hr ho
      refine .inl (hsymbol ▸ .object (OrderedMap.mem_values_iff.2 ⟨c', he'⟩) (hfile.symm.trans hown)
        (OrderedMap.mem_values_iff.2 ⟨k, hb'⟩) hexposed')
    · obtain ⟨body, i, hendpoint⟩ := Render.endpoint?_of_exposed hb hexposed
      exact .inr ⟨o.file, hr.imports_of_endpoint he hendpoint
        (Render.takes_of_entry hendpoint hi) hown⟩

omit hp hr in
/-- A call that is written stands for an operation, and the types that it deals with are noted. -/
theorem Written.call (hw : Written cat modeled d className e x shape resource)
    (hb : e.bindings.get? symbol = some b) (hc : c ∈ b.calls.values) : ∃ exposure o,
      (exposure, o) ∈ declared shape.exposures ∧
      Stands cat className resource.name exposure o c ∧
      NotesTypes cat modeled.types d.types x.imports c := by
  obtain ⟨b', hb', hcore⟩ := EndpointEntry.binding_of_core hw.core.symm hb
  have hcalls : b.calls = b'.calls := (congrArg Binding.calls hcore :)
  rw [hcalls] at hc
  obtain ⟨name, hname⟩ := OrderedMap.mem_values_iff.1 hc
  obtain ⟨-, exposure, o, hlast, hstands⟩ := hw.served.holds.calls hb' hname
  have hmem := (List.mem_filter.1 (List.mem_of_getLast? hlast)).1
  exact ⟨exposure, o, hmem, hstands, hw.served.holds.noted hb' hname⟩

omit hp hr in
theorem exists_asksFor (hw : Written cat modeled d className e x shape resource)
    (hlists : ∃ p ∈ declared shape.exposures, lists p = true) :
    ∃ t, d.types.get? t.name = some t ∧ t.name = listParamsName resource.name ∧
      t.file = some e.file ∧ t.imports.Takes BaseTypes.apiTypesFile "ListParams" := by
  obtain ⟨p, hmem, hp'⟩ := hlists
  obtain ⟨last, hlast⟩ := exists_getLast?_filter hmem hp'
  obtain ⟨t, ht, hasks, -⟩ := hw.served.listed last hlast
  have hname : t.name = listParamsName resource.name := (congrArg TypeEntry.name hasks.head :)
  have hfile : t.file = some ("endpoint/" ++ resource.name) :=
    (congrArg TypeEntry.file hasks.head :)
  exact ⟨t, hname ▸ ht, hname, by rw [hfile, hw.file], hasks.generic⟩

theorem known_listParams (hw : Written cat modeled d className e x shape resource)
    (hlists : ∃ p ∈ declared shape.exposures, lists p = true) : d.Knows e.file "ListParams" := by
  obtain ⟨t, ht, -, hfile, himports⟩ := exists_asksFor hw hlists
  have htraced := hp.traced
  rw [← hr.types] at htraced
  have hne : BaseTypes.apiTypesFile ≠ e.file := by
    rw [hw.file]
    exact interfaces_ne_endpoint "ApiTypes" resource.name
  have hrendered := htraced.isRendered_of_file ht hfile ?_
  · exact .inr ⟨_, hr.imports_of_type ht hrendered hfile himports hne⟩
  · rw [hw.file]
    simp

theorem known_argument (hw : Written cat modeled d className e x shape resource)
    (he : d.operations.get? className = some e) (hb : e.bindings.get? symbol = some b)
    (hexposed : b.isExposed = true) (hc : c ∈ b.calls.values) {a : Atom}
    (ha : a ∈ Render.argumentTypes c) (hn : n ∈ a.names) :
    n ∈ BaseTypes.builtinNames ∨ d.Knows e.file n ∨
      n = "ListParams" ∧ ListsBare cat className c := by
  obtain ⟨exposure, o, hmem, ⟨k, input, output, hk, hcall⟩, hnotes⟩ := hw.call hb hc
  have noted : ∀ m, c.input = some m ∨ c.output = some m →
      m ∈ BaseTypes.builtinNames ∨ d.Knows e.file m := fun m hm =>
    known_of_noted hp hr hw he hb hexposed (hnotes m hm)
  have hinput : Render.inputType c ∈ BaseTypes.builtinNames ∨
      d.Knows e.file (Render.inputType c) := by
    unfold Render.inputType
    cases hi : c.input.filter (· != "") with
    | none => exact .inl (by decide)
    | some m => exact noted m (.inl (Option.filter_eq_some_iff.1 hi).1)
  have houtput : Render.outputType c ∈ BaseTypes.builtinNames ∨
      d.Knows e.file (Render.outputType c) := by
    unfold Render.outputType
    cases ho : c.output.filter (· != "") with
    | none => exact hinput
    | some m => exact noted m (.inr (Option.filter_eq_some_iff.1 ho).1)
  rcases Render.names_of_argumentTypes ha hn with rfl | rfl | ⟨hhelper, hparams | rfl⟩
  · exact hinput.imp_right .inl
  · exact houtput.imp_right .inl
  · -- The call names the interface of query parameters, so that its operation lists.
    rw [hcall] at hparams
    have hparams : (if k = .list then some (listParamsName resource.name) else none) = some n :=
      hparams
    split at hparams
    · rename_i hlist
      have hlists : lists (exposure, o) = true := by simp [lists, hk, hlist]
      obtain ⟨t, ht, hname, hfile, -⟩ := exists_asksFor hw ⟨_, hmem, hlists⟩
      obtain rfl : t.name = n := hname.trans (Option.some.inj hparams)
      exact .inr (.inl (.inl (.type ht hfile)))
    · cases hparams
  · by_cases hlists : ∃ p ∈ declared shape.exposures, lists p = true
    · exact .inr (.inl (known_listParams hp hr hw hlists))
    · refine .inr (.inr ⟨rfl, hhelper, fun {shape'} hshape p hp' => ?_⟩)
      obtain rfl := Option.some.inj (hw.served.described.symm.trans hshape)
      exact Bool.eq_false_iff.2 fun h => hlists ⟨p, hp', h⟩

end Names

end Files

theorem exported_of_declaredIn {doc : Document} {disk : Disk} {d : Draft} {file n : String}
    (h : Generates doc disk d) (hfile : file ≠ "") (hd : d.DeclaredIn file n) :
    d.files.Exported file n := by
  obtain ⟨seeded, modeled, served, hp, hr⟩ := h.rendered
  cases hd with
  | type ht hf =>
    have htraced := hp.traced
    rw [← hr.types] at htraced
    exact hr.exported_of_type ht (htraced.isRendered_of_file ht hf hfile) hf
  | object he hf hb hexposed =>
    obtain ⟨c, he⟩ := OrderedMap.mem_values_iff.1 he
    obtain ⟨k, hb⟩ := OrderedMap.mem_values_iff.1 hb
    obtain ⟨body, i, hendpoint⟩ := Render.endpoint?_of_exposed hb hexposed
    exact hf ▸ hr.exported_of_endpoint he hendpoint (Render.exports_symbol hendpoint hb hexposed)
  | factory he hf hb hexposed =>
    obtain ⟨c, he⟩ := OrderedMap.mem_values_iff.1 he
    obtain ⟨k, hb⟩ := OrderedMap.mem_values_iff.1 hb
    obtain ⟨body, i, hendpoint⟩ := Render.endpoint?_of_exposed hb hexposed
    exact hf ▸ hr.exported_of_endpoint he hendpoint (Render.exports_factory hendpoint hb hexposed)
  | @identifier e key b call he hf hb hat =>
    obtain ⟨c, he⟩ := OrderedMap.mem_values_iff.1 he
    have hcall : b.iriCall = some call := by
      unfold Render.iriCallAt at hat
      split at hat
      · exact hat
      · cases hat
    have hexposed := Binding.isExposed_of_iriCall hcall
    obtain ⟨body, i, hendpoint⟩ := Render.endpoint?_of_exposed hb hexposed
    exact hf ▸ hr.exported_of_endpoint he hendpoint (Render.exports_iri hendpoint hb hexposed hat)

/-- Helpers, children and the types that a call names for want of given arguments are known to the
file of an endpoint. Only the shared interface of query parameters may be missing, for a call that
lists by its helper alone. -/
theorem endpoint_names_known {doc : Document} {disk : Disk} {d : Draft}
    {className symbol : String} {e : EndpointEntry} {b : Binding} (h : Generates doc disk d)
    (he : d.operations.get? className = some e) (hb : e.bindings.get? symbol = some b)
    (hexposed : b.isExposed = true) :
    d.files.Exported e.file b.symbol ∧
    (∀ child ∈ b.children.values, d.Knows e.file child.symbol) ∧
    ∀ c ∈ b.calls.values, d.Knows e.file (Render.helperCall c).1 ∧
      (c.genericParams = none →
        (∃ literals, Render.genericParams c = (Render.argumentTypes c).map Atom.text ++ literals ∧
          ∀ l ∈ literals, l = Script.literalUnion c.pathParams) ∧
        ∀ a ∈ Render.argumentTypes c, ∀ n ∈ a.names,
          n ∈ BaseTypes.builtinNames ∨ d.Knows e.file n ∨
            n = "ListParams" ∧ ListsBare (.ofDocument doc) className c) := by
  obtain ⟨seeded, modeled, served, hp, hr⟩ := h.rendered
  obtain ⟨x, shape, resource, hw, hx⟩ := hp.written hr he
  obtain ⟨body, i, hendpoint⟩ := Render.endpoint?_of_exposed hb hexposed
  refine ⟨hr.exported_of_endpoint he hendpoint (Render.exports_symbol hendpoint hb hexposed),
    fun child hc => known_of_child hp hr hw hx he hb hexposed hc, fun c hc => ⟨?_, ?_⟩⟩
  · refine .inr ⟨BaseTypes.apiMethodsFile, hr.imports_of_endpoint he hendpoint
      (Render.takes_helper hendpoint hb hexposed hc) ?_⟩
    intro hfile
    have hhead := congrArg (fun s => s.toList.head?) (hfile.trans hw.file)
    simp [BaseTypes.apiMethodsFile, String.toList_append] at hhead
  · exact fun hgiven => ⟨Render.genericParams_eq hgiven,
      fun a ha n hn => known_argument hp hr hw he hb hexposed hc ha hn⟩

theorem importsFrom_endpoint {cat : Catalog} {disk : Disk} {seeded modeled served d₀ d : Draft}
    {name target n : String} (hp : Phased cat disk seeded modeled served d₀)
    (hr : Rendered cat disk d₀ d) (h : d.files.ImportsFrom ("endpoint/" ++ name) target n) :
    (∃ t ∈ d.types.toList, t.file = some ("endpoint/" ++ name) ∧ t.imports.Takes target n) ∨
      ∃ e ∈ d.operations.values, ∃ body i, Render.endpoint? e = some (body, i) ∧
        e.file = "endpoint/" ++ name ∧ i.Takes target n := by
  have htraced := hp.traced
  rw [← hr.types] at htraced
  obtain ⟨-, htakes⟩ := h
  obtain ⟨f, hmem, htakes⟩ := SourceFile.takes_importsOf.1 htakes
  cases hr.fragments.1 hmem with
  | seed _ hseed =>
    rw [BaseTypes.imports_of_seeded hseed] at htakes
    exact absurd htakes (Imports.not_takes_empty _ _)
  | payload hshapes =>
    -- Payload helpers are written for interfaces of classes, in files of their own.
    obtain ⟨t, ht, hfile, -⟩ := hshapes
    obtain ⟨ht, hshaped⟩ := List.mem_filter.1 ht
    obtain ⟨m, hm⟩ := TypeRegistry.mem_toList.1 ht
    have hshaped : (t.kind = .interface ∧ t.persistent = true) ∧ t.isRendered = true := by
      simpa [Payload.isShaped] using hshaped
    obtain ⟨file, hfile', -⟩ := TypeEntry.file_of_isRendered hshaped.2
    rw [hfile', Option.getD_some] at hfile
    have hmade := htraced.hasFactory_of_persistent hm hshaped.1.2
    obtain ⟨c, shape, -, hhead, -⟩ := htraced.model_of_hasFactory hm hmade
    have hown : t.file = some ("interfaces/" ++ t.name) := TypeEntry.file_of_head hhead
    rw [hfile', ← hfile] at hown
    exact absurd (Option.some.inj hown).symm (interfaces_ne_endpoint _ _)
  | types hcomposes =>
    obtain ⟨⟨_, group⟩, hgroup, hfile, hfragment⟩ := hcomposes
    obtain ⟨t, ht, hi⟩ := (Render.takes_typeFragment hfragment).1 htakes
    have hbyFile := OrderedMap.mem_entries_iff.1 hgroup
    obtain ⟨hmem, hrendered, htfile⟩ := TypeRegistry.mem_byFile.1 (by rw [hbyFile]; exact ht)
    obtain ⟨file, hfile', -⟩ := TypeEntry.file_of_isRendered hrendered
    rw [hfile', Option.getD_some] at htfile
    exact .inl ⟨t, hmem, hfile'.trans (congrArg some (htfile.trans hfile.symm)), hi⟩
  | endpoint hserves =>
    obtain ⟨e, he, body, i, hendpoint, hfile, rfl⟩ := hserves
    exact .inr ⟨e, he, body, i, hendpoint, hfile.symm, htakes⟩
  | routes _ hrouted =>
    obtain ⟨_, -, -, hfile⟩ := hrouted
    have hhead := congrArg (fun s => s.toList.head?) hfile
    simp [Routes.routesFile, String.toList_append] at hhead

def listingRead : Operation where
  type := some "Get"
  requestMethod := some { kind := "list" }

def authoring : Document where
  classes := [{
      className := "App\\Entity\\Author"
      exposures := [{
        shortName := "Author"
        operations := [listingRead, { type := some "GetCollection" }] }] }, {
      className := "App\\Entity\\Article"
      exposures := [{
        shortName := "Article"
        uriVariables := [{
          parameter := "authorId"
          fromClass := some "App\\Entity\\Author"
          fromProperty := some "articles" }]
        operations := [{ type := some "Post", input := some "App\\Dto\\Article" }] }] }, {
      className := "App\\Dto\\Article" }]

def soleRead : Document where
  classes := [{
    className := "App\\Entity\\Book"
    exposures := [{ shortName := "Book", operations := [listingRead] }] }]

def bindingAt (d : Draft) (className symbol : String) : Option (EndpointEntry × Binding) :=
  (d.operations.get? className).bind fun e => (e.bindings.get? symbol).map fun b => (e, b)

theorem bindingAt_eq_some_iff {d : Draft} {className symbol : String} {e : EndpointEntry}
    {b : Binding} : bindingAt d className symbol = some (e, b) ↔
      d.operations.get? className = some e ∧ e.bindings.get? symbol = some b := by
  simp only [bindingAt, Option.bind_eq_some_iff, Option.map_eq_some_iff, Prod.mk.injEq]
  constructor
  · rintro ⟨e', he, b', hb, rfl, rfl⟩
    exact ⟨he, hb⟩
  · rintro ⟨he, hb⟩
    exact ⟨e, he, b, hb, rfl, rfl⟩

theorem authoring_names_known : ∃ d e b, Generates authoring {} d ∧
    d.operations.get? "App\\Entity\\Author" = some e ∧ e.bindings.get? "author" = some b ∧
    b.isExposed = true ∧ b.children.isEmpty = false ∧
    d.files.Exported e.file b.symbol ∧
    (∀ child ∈ b.children.values, d.Knows e.file child.symbol) ∧
    ∀ c ∈ b.calls.values, d.Knows e.file (Render.helperCall c).1 ∧
      (c.genericParams = none →
        (∃ literals, Render.genericParams c = (Render.argumentTypes c).map Atom.text ++ literals ∧
          ∀ l ∈ literals, l = Script.literalUnion c.pathParams) ∧
        ∀ a ∈ Render.argumentTypes c, ∀ n ∈ a.names,
          n ∈ BaseTypes.builtinNames ∨ d.Knows e.file n ∨
            n = "ListParams" ∧ ListsBare (.ofDocument authoring) "App\\Entity\\Author" c) := by
  have hextracts : Extracts (.ofDocument authoring) {} (extraction (.ofDocument authoring) {}) :=
    extracts_extraction (by decide +kernel)
  obtain ⟨d, hd⟩ : ∃ d, Generates authoring {} d := by
    refine exists_generates (by decide +kernel) hextracts ?_ fun _ => by decide +kernel
    decide +kernel
  obtain ⟨_, _, _, -, hr⟩ := hd.rendered
  have hbinding : (bindingAt (extraction (.ofDocument authoring) {}) "App\\Entity\\Author"
      "author").map (fun p => (p.2.isExposed, p.2.children.isEmpty)) = some (true, false) := by
    decide +kernel
  obtain ⟨⟨e, b⟩, hat, hfacts⟩ := Option.map_eq_some_iff.1 hbinding
  obtain ⟨hexposed, hchildren⟩ := Prod.mk.inj hfacts
  obtain ⟨he, hb⟩ := bindingAt_eq_some_iff.1 hat
  rw [← hr.operations] at he
  exact ⟨d, e, b, hd, he, hb, hexposed, hchildren, endpoint_names_known hd he hb hexposed⟩

def soleDraft : Draft := extraction (.ofDocument soleRead) {}

theorem exists_generates_soleRead : ∃ d, Generates soleRead {} d := by
  have hextracts : Extracts (.ofDocument soleRead) {} (extraction (.ofDocument soleRead) {}) :=
    extracts_extraction (by decide +kernel)
  refine exists_generates (by decide +kernel) hextracts ?_ fun _ => by decide +kernel
  decide +kernel

theorem exists_soleRead_call : ∃ e b c,
    soleDraft.operations.get? "App\\Entity\\Book" = some e ∧ e.bindings.get? "book" = some b ∧
    e.file = "endpoint/" ++ "Book" ∧ b.isExposed = true ∧ c ∈ b.calls.values ∧
    c.genericParams = none ∧ Atom.applied "ListParams" "Book" ∈ Render.argumentTypes c := by
  have hcall : (bindingAt soleDraft "App\\Entity\\Book" "book").any (fun p =>
      p.1.file == "endpoint/" ++ "Book" && p.2.isExposed && p.2.calls.values.any fun c =>
        c.genericParams.isNone && c.helper == "list" && c.input == some "Book" &&
          c.listParams.isNone) = true := by decide +kernel
  obtain ⟨⟨e, b⟩, hat, hfacts⟩ := (Option.any_eq_true _ _).1 hcall
  obtain ⟨he, hb⟩ := bindingAt_eq_some_iff.1 hat
  simp only [Bool.and_eq_true, beq_iff_eq, List.any_eq_true, Option.isNone_iff_eq_none] at hfacts
  obtain ⟨⟨hfile, hexposed⟩, c, hc, ⟨⟨hgiven, hhelper⟩, hinput⟩, hparams⟩ := hfacts
  have harguments : Render.argumentTypes c = [.named "Book", .applied "ListParams" "Book"] := by
    simp only [Render.argumentTypes, Render.inputType, hhelper, hinput, hparams]
    rfl
  exact ⟨e, b, c, he, hb, hfile, hexposed, hc, hgiven, by simp [harguments]⟩

theorem not_declared_soleRead {d : Draft} (ht : d.types = soleDraft.types)
    (ho : d.operations = soleDraft.operations) :
    ¬d.DeclaredIn ("endpoint/" ++ "Book") "ListParams" := by
  have htypes : ∀ t ∈ soleDraft.types.toList, t.file ≠ some ("endpoint/" ++ "Book") := by
    decide +kernel
  have hbindings : ∀ e ∈ soleDraft.operations.values, ∀ b ∈ e.bindings.values,
      b.symbol ≠ "ListParams" ∧ b.symbol ++ "EndpointFactory" ≠ "ListParams" ∧
        Payload.iriFunction b.name ≠ "ListParams" := by decide +kernel
  rw [← ht] at htypes
  rw [← ho] at hbindings
  generalize hn : "ListParams" = n
  rintro (⟨hget, hf⟩ | ⟨he, -, hb, -⟩ | ⟨he, -, hb, -⟩ | ⟨he, -, hb, -⟩)
  · exact htypes _ (TypeRegistry.mem_toList.2 ⟨_, hget⟩) hf
  · exact (hbindings _ he _ hb).1 hn.symm
  · exact (hbindings _ he _ hb).2.1 hn.symm
  · exact (hbindings _ he _ (OrderedMap.mem_values_iff.2 ⟨_, hb⟩)).2.2 hn.symm

/-- The file of the book names the shared interface of query parameters and does not know it. -/
theorem sole_read_params_unknown : ∃ d e b c, Generates soleRead {} d ∧
    d.operations.get? "App\\Entity\\Book" = some e ∧ e.bindings.get? "book" = some b ∧
    b.isExposed = true ∧ c ∈ b.calls.values ∧ c.genericParams = none ∧
    Atom.applied "ListParams" "Book" ∈ Render.argumentTypes c ∧
    ¬d.Knows e.file "ListParams" := by
  obtain ⟨d, hd⟩ := exists_generates_soleRead
  obtain ⟨_, _, _, hp, hr⟩ := hd.rendered
  obtain ⟨e, b, c, he, hb, hfile, hexposed, hc, hgiven, harguments⟩ := exists_soleRead_call
  have htypes : ∀ t ∈ soleDraft.types.toList, t.file ≠ some ("endpoint/" ++ "Book") := by
    decide +kernel
  have htaken : ∀ e ∈ soleDraft.operations.values, ∀ p ∈ Render.endpoint? e,
      ∀ g ∈ p.2.toList, "ListParams" ∉ g.2.toList := by decide +kernel
  have hsame : d.operations = soleDraft.operations := hr.operations
  have hsametypes : d.types = soleDraft.types := hr.types
  rw [← hsametypes] at htypes
  rw [← hsame] at he htaken
  refine ⟨d, e, b, c, hd, he, hb, hexposed, hc, hgiven, harguments, ?_⟩
  rw [hfile]
  rintro (hdeclares | ⟨target, himports⟩)
  · exact not_declared_soleRead hsametypes hsame hdeclares
  · rcases importsFrom_endpoint hp hr himports with ⟨t, ht, hf, -⟩ | ⟨e, he, body, i, hi, -, htakes⟩
    · exact htypes t ht hf
    · obtain ⟨g, hg, -, hmem⟩ := htakes
      exact htaken e he (body, i) hi g hg hmem

end HydraClient
