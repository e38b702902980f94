import HydraClient.Metadata.Document

/-! # Documents that are read

A value that is read without issues has passed the checks of its parts. No class of a document that
is read declares a field twice.
-/
namespace HydraClient.Metadata

namespace Checked

variable {α β : Type} {a : α} {b : β}

theorem map_valid {f : α → β} {x : Checked α} (h : f <$> x = .valid b) :
    ∃ a, x = .valid a ∧ f a = b := by
  cases x with
  | valid a => exact ⟨a, rfl, Checked.valid.inj h⟩
  | invalid issues => cases h

theorem seq_valid {f : Checked (α → β)} {x : Checked α} (h : f <*> x = .valid b) :
    ∃ g a, f = .valid g ∧ x = .valid a ∧ g a = b := by
  cases f with
  | valid g =>
    cases x with
    | valid a => exact ⟨g, a, rfl, rfl, Checked.valid.inj h⟩
    | invalid issues => cases h
  | invalid issues =>
    cases x with
    | valid a => cases h
    | invalid more => cases h

theorem seqLeft_valid {x : Checked α} {y : Checked β} (h : x <* y = .valid a) : x = .valid a := by
  obtain ⟨g, b, hg, -, rfl⟩ := seq_valid h
  obtain ⟨c, hc, rfl⟩ := map_valid hg
  exact hc

theorem under_valid {x : Checked α} {s : Step} (h : x.under s = .valid a) : x = .valid a := by
  cases x with
  | valid c => exact h
  | invalid issues => cases h

theorem andThen_valid {x : Checked α} {f : α → Checked β} (h : x.andThen f = .valid b) :
    ∃ a, x = .valid a ∧ f a = .valid b := by
  cases x with
  | valid a => exact ⟨a, rfl, h⟩
  | invalid issues => cases h

end Checked

namespace Read

variable {α : Type} {read : Json → Checked α} {as : List α} {a : α}

theorem read_of_items {i : Nat} {vs : List Json} (h : items read i vs = .valid as) (ha : a ∈ as) :
    ∃ v, read v = .valid a := by
  induction vs generalizing i as with
  | nil =>
    obtain rfl := Checked.valid.inj h
    cases ha
  | cons v rest ih =>
    obtain ⟨g, more, hg, hmore, rfl⟩ := Checked.seq_valid h
    obtain ⟨c, hc, rfl⟩ := Checked.map_valid hg
    rcases List.mem_cons.1 ha with rfl | ha
    · exact ⟨v, Checked.under_valid hc⟩
    · exact ih hmore ha

theorem read_of_list {v : Json} (h : list read v = .valid as) (ha : a ∈ as) :
    ∃ v, read v = .valid a := by
  unfold list at h
  split at h
  · exact read_of_items h ha
  · exact read_of_items h ha
  · cases h

theorem read_of_memberOr {ms : Json.Members} {l : Label}
    (h : memberOr ms l [] (list read) = .valid as) (ha : a ∈ as) : ∃ v, read v = .valid a := by
  unfold memberOr at h
  split at h
  · exact read_of_list (Checked.under_valid h) ha
  · obtain rfl := Checked.valid.inj h
    cases ha

theorem memberOr_valid {ms : Json.Members} {l : Label} {default : α}
    (h : memberOr ms l default read = .valid a) : a = default ∨ ∃ v, read v = .valid a := by
  unfold memberOr at h
  split at h
  · exact .inr ⟨_, Checked.under_valid h⟩
  · exact .inl (Checked.valid.inj h).symm

theorem record_valid {f : Json.Members → Checked α} {v : Json} (h : record f v = .valid a) :
    ∃ ms, f ms = .valid a := by
  unfold record at h
  split at h
  · rename_i ms _
    exact ⟨ms, h⟩
  · cases h

end Read

namespace ClassDecl

theorem nodup_of_repeated? {seen names : List String} (h : repeated? seen names = none) :
    names.Nodup ∧ ∀ n ∈ names, n ∉ seen := by
  induction names generalizing seen with
  | nil => simp
  | cons n rest ih =>
    unfold repeated? at h
    split at h
    · cases h
    · rename_i hn
      have hn : n ∉ seen := by simpa using hn
      obtain ⟨hnodup, hfresh⟩ := ih h
      constructor
      · exact List.nodup_cons.2 ⟨fun hmem => hfresh n hmem List.mem_cons_self, hnodup⟩
      · intro m hm
        rcases List.mem_cons.1 hm with rfl | hm
        · exact hn
        · exact fun hseen => hfresh m hm (List.mem_cons_of_mem _ hseen)

theorem nodup_fields_of_read {v : Json} {c : ClassDecl} (h : read v = .valid c) :
    (c.fields.map (·.name)).Nodup := by
  obtain ⟨ms, h⟩ := Read.record_valid h
  obtain ⟨c', -, h⟩ := Checked.andThen_valid h
  unfold distinctFields at h
  split at h
  · cases h
  · rename_i hrepeated
    obtain rfl := Checked.valid.inj h
    exact (nodup_of_repeated? hrepeated).1

end ClassDecl

/-- Every class names each of its fields once. -/
def Document.FieldsDistinct (doc : Document) : Prop :=
  ∀ c ∈ doc.classes, (c.fields.map (·.name)).Nodup

theorem Document.fieldsDistinct_of_read {v : Json} {doc : Document}
    (h : Document.read v = .valid doc) : doc.FieldsDistinct := by
  intro c hc
  obtain ⟨ms, h⟩ := Read.record_valid h
  obtain ⟨_, routes, h₁, -, rfl⟩ := Checked.seq_valid (Checked.seqLeft_valid h)
  obtain ⟨_, filters, h₂, -, rfl⟩ := Checked.seq_valid h₁
  obtain ⟨_, enums, h₃, -, rfl⟩ := Checked.seq_valid h₂
  obtain ⟨_, classes, h₄, hclasses, rfl⟩ := Checked.seq_valid h₃
  obtain ⟨config, -, rfl⟩ := Checked.map_valid h₄
  obtain ⟨v, hv⟩ := Read.read_of_memberOr hclasses hc
  exact ClassDecl.nodup_fields_of_read hv

/-- Every namespace begins with a character that is no separator. -/
def Config.NamespacesPlain (c : Config) : Prop :=
  ∀ ns ∈ c.namespaces, ∃ first rest, ns.toList = first :: rest ∧ first ≠ '\\'

theorem Config.namespacesPlain_default : ({} : Config).NamespacesPlain := by
  intro ns hns
  obtain rfl := List.mem_singleton.1 hns
  exact ⟨'A', _, rfl, by decide⟩

end HydraClient.Metadata
