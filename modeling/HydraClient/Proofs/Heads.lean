import HydraClient.Proofs.Origins
import HydraClient.Proofs.Soundness

/-! # Heads of types

For every document, only what stands under the source of query parameters can lose its head, and
only to query parameters. So an endpoint file keeps the types that it declares.
-/
namespace HydraClient

open Metadata TypeRegistry Model Operations

variable {cat : Catalog} {r r' : TypeRegistry} {t : TypeEntry} {n x : String}

def listHead (className typeName : String) : TypeEntry where
  name := listParamsName typeName
  kind := .interface
  file := some ("endpoint/" ++ typeName)
  source := some (listSource className)

inductive HeadKept (r' : TypeRegistry) (n : String) (t : TypeEntry) : Prop where
  | same {u : TypeEntry} : r'.get? n = some u → u.head = t.head → HeadKept r' n t
  | listed {className typeName : String} {u : TypeEntry} :
      t.source = some (listSource className) → n = listParamsName typeName →
      r'.get? n = some u → u.head = listHead className typeName → HeadKept r' n t

theorem HeadKept.of_keeps (ht : r.get? n = some t) (hr : Keeps r r') : HeadKept r' n t := by
  obtain ⟨u, hu, hh⟩ := hr.heads ht
  exact .same hu hh

theorem head_of_growth (hr : Coherent r) (hg : Growth cat r r') (ht : r.get? n = some t) :
    HeadKept r' n t := by
  cases hg with
  | opened _ hl hn =>
    exact .of_keeps ht (.of_extends (.put hl hr rfl (hr.resolveName_fresh hl hn)))
  | enumerated _ _ hl hn _ =>
    exact .of_keeps ht (.of_extends (.put hl hr rfl (hr.resolveName_fresh hl hn)))
  | extended => exact .of_keeps ht (Keeps.modify (head_withParent _))
  | addressed => exact .of_keeps ht (Keeps.modify head_withAddress)
  | filled => exact .of_keeps ht (Keeps.modify fun t => t.head_addProperty _)
  | @listed entry _ resource e o d _ _ _ _ _ _ hfile _ hheld =>
    by_cases hn : n = listParamsName resource.name
    · subst hn
      have hhead := listType_head cat.config entry resource e o d
      rw [hfile] at hhead
      refine .listed (hheld t ht) rfl ?_ hhead
      rw [get?_put, listType_name, if_pos rfl]
    · refine .same (u := t) ?_ rfl
      rwa [get?_put, listType_name, if_neg hn]

theorem BaseTypes.source_ne_listSource {hydra : String} (h : t ∈ BaseTypes.all hydra)
    (c : String) : t.source ≠ some (listSource c) := by
  intro hs
  obtain ⟨s, hs', -, hmark⟩ := BaseTypes.source_of_mem h
  obtain rfl := Option.some.inj (hs.symm.trans hs')
  simp [listSource] at hmark

theorem BaseTypes.eq_builtin_of_fileless {hydra : String} (h : t ∈ BaseTypes.all hydra)
    (hf : t.file = none) : ∃ n ∈ builtinNames, t = builtin n := by
  simp only [all, List.mem_append, List.mem_map, List.mem_cons, List.not_mem_nil, or_false] at h
  rcases h with ((⟨n, hn, rfl⟩ | rfl | rfl | rfl) | h) | rfl | rfl
  · exact ⟨n, hn, rfl⟩
  · cases hf
  · cases hf
  · cases hf
  · rw [file_envelope h] at hf
    cases hf
  · cases hf
  · cases hf

/-- A type without a file is a word of the language. -/
theorem Traced.builtin_of_fileless (h : Traced cat r) (ht : r.get? n = some t)
    (hf : t.file = none) : n ∈ BaseTypes.builtinNames := by
  cases h.entries ht with
  | base hb =>
    obtain ⟨m, hm, rfl⟩ := BaseTypes.eq_builtin_of_fileless hb hf
    exact h.coherent.named ht ▸ hm
  | model _ hh _ =>
    rw [TypeEntry.file_of_head hh] at hf
    cases hf
  | enumeration _ he =>
    rw [he] at hf
    cases hf
  | list hh =>
    have hfile := (congrArg TypeEntry.file hh :).symm.trans hf
    cases hfile

theorem Traced.isRendered_of_file (h : Traced cat r) (ht : r.get? n = some t)
    (hf : t.file = some x) (hne : x ≠ "") : t.isRendered = true := by
  cases h.entries ht with
  | base hb =>
    rcases (BaseTypes.shared_of_mem hb).filed with hnone | hr
    · rw [hf] at hnone
      cases hnone
    · exact hr
  | model _ hh _ =>
    refine (TypeEntry.isRendered_of_head hh).trans ?_
    simp [TypeEntry.isRendered, bare, isNonempty]
  | enumeration _ he =>
    rw [he] at hf ⊢
    obtain rfl := Option.some.inj hf
    simp [TypeEntry.isRendered, nativeEnum, isNonempty, hne]
  | list hh =>
    have : t.isRendered = t.head.isRendered := rfl
    rw [this, hh]
    simp [TypeEntry.isRendered, isNonempty]

theorem interfaces_ne_endpoint (a b : String) : "interfaces/" ++ a ≠ "endpoint/" ++ b := by
  intro h
  have hhead := congrArg (fun s => s.toList.head?) h
  simp [String.toList_append] at hhead

/-- What stands under the name and source of query parameters is in the file of the type that is
listed, or in the file of an interface. -/
def Lodged (t : TypeEntry) : Prop :=
  ∀ className typeName, t.source = some (listSource className) →
    t.name = listParamsName typeName →
    t.file = some ("endpoint/" ++ typeName) ∨ ∃ y, t.file = some ("interfaces/" ++ y)

def TypeRegistry.IsLodged (r : TypeRegistry) : Prop := ∀ n t, r.get? n = some t → Lodged t

theorem Lodged.of_head {u : TypeEntry} (h : Lodged t) (hh : u.head = t.head) : Lodged u := by
  intro className typeName hs hn
  rw [TypeEntry.file_of_head hh]
  exact h className typeName ((TypeEntry.source_of_head hh).symm.trans hs)
    ((TypeEntry.name_of_head hh).symm.trans hn)

theorem lodged_listHead {className typeName : String} (hh : t.head = listHead className typeName) :
    Lodged t := by
  intro a other _ hn
  have hname : t.name = listParamsName typeName := (congrArg TypeEntry.name hh :)
  obtain rfl : typeName = other := (String.append_left_inj _).1 (hname.symm.trans hn)
  exact .inl (congrArg TypeEntry.file hh :)

theorem TypeRegistry.IsLodged.change (h : r.IsLodged) (hchange : ChangesAt n t r r')
    (ht : Lodged t) :
    r'.IsLodged :=
  fun _ _ hu => hchange.forall_entries (fun hu => h _ _ hu) ht hu

theorem TypeRegistry.IsLodged.modify {name className : String} {shape : ClassDecl}
    {f : TypeEntry → TypeEntry} (h : r.IsLodged) (ho : Opened cat r name className shape)
    (hf : ∀ t, (f t).head = t.head) : (r.modify name f).IsLodged := by
  obtain ⟨t, ht, -⟩ := ho.registered
  exact h.change (.modify ht) ((h name t ht).of_head (hf t))

theorem TypeRegistry.IsLodged.grow (h : r.IsLodged) (hg : Growth cat r r') : r'.IsLodged := by
  cases hg with
  | @opened name className shape =>
    exact h.change (.put r _) fun _ _ _ _ => .inr ⟨name, rfl⟩
  | @enumerated name className file shape _ _ _ hn _ =>
    refine h.change (.put r _) ?_
    intro a typeName hs hname
    have hsource : className = listSource a := Option.some.inj hs
    have hname : name = listParamsName typeName := hname
    have hmem := (resolveName_ok hn).1
    rw [hsource, hname] at hmem
    exact absurd hmem not_enumCandidate_listParamsName
  | extended ho _ => exact h.modify ho (head_withParent _)
  | addressed ho _ => exact h.modify ho head_withAddress
  | filled ho => exact h.modify ho fun t => t.head_addProperty _
  | @listed entry _ resource e o d _ _ _ _ _ _ hfile _ _ =>
    have hhead := listType_head cat.config entry resource e o d
    rw [hfile] at hhead
    exact h.change (.put r _) (lodged_listHead hhead)

theorem TypeRegistry.IsLodged.grows (h : r.IsLodged) (hg : Grows cat r r') : r'.IsLodged := by
  induction hg with
  | refl => exact h
  | tail _ step ih => exact ih.grow step

theorem declares_endpoint_grow (hr : Coherent r) (h : r.IsLodged) (hg : Growth cat r r')
    (hd : r.Declares ("endpoint/" ++ x) n) : r'.Declares ("endpoint/" ++ x) n := by
  obtain ⟨t, ht, hf⟩ := hd
  cases head_of_growth hr hg ht with
  | same hu hh => exact ⟨_, hu, (TypeEntry.file_of_head hh).trans hf⟩
  | @listed className typeName u hs hn hu hh =>
    refine ⟨u, hu, (congrArg TypeEntry.file hh :).trans ?_⟩
    rcases h n t ht className typeName hs ((hr.named ht).trans hn) with hfile | ⟨y, hfile⟩
    · exact hfile.symm.trans hf
    · exact absurd (Option.some.inj (hfile.symm.trans hf)) (interfaces_ne_endpoint y x)

theorem declares_endpoint_grows (hr : Coherent r) (h : r.IsLodged) (hg : Grows cat r r')
    (hd : r.Declares ("endpoint/" ++ x) n) : r'.Declares ("endpoint/" ++ x) n := by
  induction hg with
  | refl => exact hd
  | tail hg step ih =>
    exact declares_endpoint_grow (Grows.coherent hg hr) (h.grows hg) step ih

end HydraClient
