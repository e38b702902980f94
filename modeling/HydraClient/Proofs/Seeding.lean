import HydraClient.Proofs.Origins
import HydraClient.Proofs.Soundness

/-! # Seeding

A run starts from the base types alone. They have names and sources of their own, so each of them is
still there when all are registered.
-/
namespace HydraClient

open Metadata TypeRegistry

variable {cat : Catalog} {hydra : String}

namespace BaseTypes

theorem names_all : (all hydra).map (·.name) =
    ["string", "number", "boolean", "null", "Array<T>", "object", "any", "DateTime", "DateOnly",
      "HydraIri", "HydraItem", "HydraView", "HydraCollection", "HydraSearchMapping", "HydraSearch",
      "ListParams", "BooleanEnum", "Order"] := rfl

theorem nodup_names_all : ((all hydra).map (·.name)).Nodup := by
  rw [names_all]
  decide

structure Exactly (ts : List TypeEntry) (r : TypeRegistry) : Prop where
  coherent : Coherent r
  held : ∀ t ∈ ts, r.get? t.name = some t
  among : ∀ {n t}, r.get? n = some t → t ∈ ts

theorem exactly_empty : Exactly [] {} where
  coherent := ⟨nofun, nofun, nofun⟩
  held := by simp
  among := nofun

theorem Exactly.put {ts : List TypeEntry} {t : TypeEntry} {s : String} {r : TypeRegistry}
    (h : Exactly ts r) (hs : t.source = some s) (hn : t.name ∉ ts.map (·.name)) :
    Exactly (ts ++ [t]) (r.put t) where
  coherent := h.coherent.put hs fun held hh =>
    absurd (List.mem_map.2 ⟨held, h.among hh, h.coherent.named hh⟩) hn
  held u hu := by
    rw [get?_put]
    rcases List.mem_append.1 hu with hu | hu
    · rw [if_neg fun e => hn (List.mem_map.2 ⟨u, hu, e⟩), h.held u hu]
    · rw [List.mem_singleton.1 hu, if_pos rfl]
  among {n u} hu := by
    rw [get?_put] at hu
    split at hu
    · simp [Option.some.inj hu]
    · simp [h.among hu]

def seededFiles (c : Config) (helper : Option String) : FileSet :=
  let shared := ((FileSet.add .empty apiTypesFile
    { body := "export const apiPlatformConfig = " ++ (runtimeSettings c).pretty ++ ";" }).add
      apiTypesFile { body := iriFunction })
  match helper with
  | some text => shared.add apiMethodsFile { body := text }
  | none => shared

theorem imports_of_seeded {c : Config} {helper : Option String} {file : String} {f : Fragment}
    (h : f ∈ (seededFiles c helper).fragments file) : f.imports = .empty := by
  have hempty : FileSet.fragments .empty file = [] := rfl
  cases helper with
  | none =>
    simp only [seededFiles, FileSet.mem_fragments_add, hempty, List.not_mem_nil, false_or] at h
    rcases h with ⟨-, rfl⟩ | ⟨-, rfl⟩ <;> rfl
  | some text =>
    simp only [seededFiles, FileSet.mem_fragments_add, hempty, List.not_mem_nil, false_or] at h
    rcases h with (⟨-, rfl⟩ | ⟨-, rfl⟩) | ⟨-, rfl⟩ <;> rfl

theorem file_of_seeded {c : Config} {helper : Option String} {file : String} {f : Fragment}
    (h : f ∈ (seededFiles c helper).fragments file) :
    file = apiTypesFile ∨ file = apiMethodsFile := by
  cases helper <;> simp only [seededFiles, FileSet.mem_fragments_add] at h
  · rcases h with (h | ⟨rfl, -⟩) | ⟨rfl, -⟩
    · cases h
    · exact .inl rfl
    · exact .inl rfl
  · rcases h with ((h | ⟨rfl, -⟩) | ⟨rfl, -⟩) | ⟨rfl, -⟩
    · cases h
    · exact .inl rfl
    · exact .inl rfl
    · exact .inr rfl

theorem yields_seed {c : Config} {disk : Disk} {d : Draft} {u : Unit}
    (h : Yields (seed c disk) {} u d) : Exactly (all c.hydraStart) d.types ∧
      d.operations = .empty ∧
      ∃ helper, helper? c disk = .ok helper ∧ d.files = seededFiles c helper := by
  obtain ⟨_, m, hloop, h⟩ := Yields.bind_iff.1 h
  have hpass := Yields.forIn_pass (R := fun t s m => Yields (Drafting.register t) s ⟨⟩ m) hloop
    fun t s v m hv => by
      obtain ⟨_, m', hr, hp⟩ := Yields.bind_iff.1 hv
      obtain ⟨rfl, rfl⟩ := Yields.pure_iff.1 hp
      exact ⟨rfl, hr⟩
  have hseeded := hpass.prefix_invariant
    (I := fun done m => Exactly done m.types ∧ m.operations = .empty ∧ m.files = .empty)
    ⟨exactly_empty, rfl, rfl⟩ fun before t after m m' hsplit hI hR => by
      obtain ⟨-, rfl⟩ := Drafting.yields_register hR
      have ht : t ∈ all c.hydraStart := by simp [hsplit]
      obtain ⟨s, hs, -⟩ := source_of_mem ht
      have hnames : ((all c.hydraStart).map (·.name)).Nodup := nodup_names_all
      rw [hsplit, List.map_append, List.nodup_append] at hnames
      exact ⟨hI.1.put hs fun hn => hnames.2.2 _ hn _ (by simp) rfl, hI.2⟩
  obtain ⟨hexactly, hoperations, hfiles⟩ := hseeded
  obtain ⟨settings, hblock, h⟩ := Yields.lift_bind.1 h
  obtain ⟨-, rfl⟩ := Script.written_ok_iff.1 hblock
  obtain ⟨_, m₁, hsettings, h⟩ := Yields.bind_iff.1 h
  obtain ⟨_, m₂, hiri, h⟩ := Yields.bind_iff.1 h
  obtain rfl := Drafting.yields_addFragment hsettings
  obtain rfl := Drafting.yields_addFragment hiri
  obtain ⟨helper, hhelper, h⟩ := Yields.lift_bind.1 h
  cases helper with
  | none =>
    obtain ⟨-, rfl⟩ := Yields.pure_iff.1 h
    exact ⟨hexactly, hoperations, none, hhelper, by simp [hfiles, seededFiles]⟩
  | some text =>
    obtain rfl := Drafting.yields_addFragment h
    exact ⟨hexactly, hoperations, some text, hhelper, by simp [hfiles, seededFiles]⟩

end BaseTypes

theorem Sound.of_exactly {r : TypeRegistry}
    (h : BaseTypes.Exactly (BaseTypes.all cat.config.hydraStart) r) : Sound cat r where
  coherent := h.coherent
  seeded t ht := ⟨t, h.held t ht, rfl⟩
  entries ht := .base (h.among ht)

theorem Traced.of_exactly {r : TypeRegistry}
    (h : BaseTypes.Exactly (BaseTypes.all cat.config.hydraStart) r) : Traced cat r where
  coherent := h.coherent
  item := by
    have hseeded : Seeded cat.config.hydraStart r := fun t ht => ⟨t, h.held t ht, rfl⟩
    obtain ⟨u, hu, -, hk⟩ := hseeded.envelope (n := "HydraItem")
      (by simp [BaseTypes.names_envelopes])
    exact ⟨u, hu, hk⟩
  entries ht := .base (h.among ht)

end HydraClient
