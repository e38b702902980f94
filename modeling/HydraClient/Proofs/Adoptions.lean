import HydraClient.Proofs.ParentLinks
import Mathlib.Data.List.Induction

/-! # What linking adds

What a run adds to the registry is read off its log, and every entry of the log comes of an offer.
Offers in turn are read off parts of the entries that no offer changes. So it makes no difference
that entries are linked while others are still to make their offers, and a second run meets the
offers of the first, none of which is open any more.
-/
namespace HydraClient

theorem OrderedMap.values_mapValues {α β γ : Type} (m : OrderedMap α β) (f : β → γ) :
    (m.mapValues fun _ => f).values = m.values.map f := by
  simp only [values, mapValues, List.map_map, Function.comp_def]

namespace Linking

variable {r r' : OperationRegistry} {log : List Adoption} {o : Offer} {s : Slot}
  {child : ChildEndpoint}

theorem accept_of_spent (h : Spent r o) : accept r o = (r, false) := by
  rcases accept_cases r o with ⟨hr, -⟩ | ⟨e, b, symbol, he, hsymbol, hb, hfree, -⟩
  · exact hr
  · obtain ⟨child, hchild⟩ := h e b symbol he hsymbol hb
    rw [hfree] at hchild
    cases hchild

theorem spent_accept (r : OperationRegistry) (o : Offer) : Spent (accept r o).1 o := by
  rcases accept_cases r o with ⟨hr, hspent⟩ | ⟨e, b, symbol, he, hsymbol, hb, -, hr⟩ <;> rw [hr]
  · exact hspent
  · intro e' b' symbol' he' hsymbol' hb'
    have htaken := childAt_eq he' hb' o.key
    rw [OrderedMap.get?_insert, if_pos rfl] at he'
    obtain rfl := Option.some.inj he'
    rw [exposedKey_withChild] at hsymbol'
    obtain rfl := Option.some.inj (hsymbol.symm.trans hsymbol')
    rw [childAt_withChild he hb, if_pos rfl] at htaken
    exact ⟨o.child, htaken.symm⟩

theorem Spent.later (h : Spent r o) (hlog : Adopted r log r') : Spent r' o := by
  intro e' b' symbol he' hsymbol hb'
  obtain ⟨e, he, hcore⟩ := hlog.entry he'
  obtain ⟨b, hb, -⟩ := EndpointEntry.binding_of_core hcore.symm hb'
  rw [← EndpointEntry.exposedKey_of_core hcore] at hsymbol
  obtain ⟨child, hchild⟩ := h e b symbol he hsymbol hb
  have hkept := hlog.kept ((childAt_eq he hb o.key).trans hchild)
  exact ⟨child, (childAt_eq he' hb' o.key).symm.trans hkept⟩

theorem offers_cores (r : OperationRegistry) :
    offers (r.mapValues fun _ => EndpointEntry.core) = offers r := by
  have hof : ∀ e b, offersOf (EndpointEntry.core e) (Binding.core b) = offersOf e b :=
    fun _ _ => rfl
  have hbindings : ∀ e : EndpointEntry,
      e.core.bindings.values = e.bindings.values.map Binding.core :=
    fun e => OrderedMap.values_mapValues e.bindings _
  simp only [offers, OrderedMap.values_mapValues, hbindings, List.flatMap_map, hof]

theorem Adopted.offers (h : Adopted r log r') : offers r' = offers r := by
  rw [← offers_cores r', h.cores, offers_cores]

theorem spent_foldl (r : OperationRegistry) (l : List Offer) :
    ∀ o ∈ l, Spent (l.foldl (fun r o => (accept r o).1) r) o := by
  -- The induction is on the end of the list: what is spent stays so when one more offer is made.
  induction l using List.reverseRecOn with
  | nil => simp
  | append_singleton l last ih =>
    intro o ho
    rw [List.foldl_append, List.foldl_cons, List.foldl_nil]
    rcases List.mem_append.1 ho with ho | ho
    · obtain ⟨log, hlog, -⟩ := adopted_accept (l.foldl (fun r o => (accept r o).1) r) last
      exact (ih o ho).later hlog
    · obtain rfl := List.mem_singleton.1 ho
      exact spent_accept _ o

theorem link_of_spent (h : ∀ o ∈ offers r, Spent r o) : link r = (r, 0) := by
  refine List.foldlRecOn (offers r) _ (motive := fun p : OperationRegistry × Nat => p = (r, 0))
    rfl ?_
  rintro _ rfl o ho
  dsimp only
  rw [accept_of_spent (h o ho)]
  rfl

theorem link_again (r : OperationRegistry) : link (link r).1 = ((link r).1, 0) := by
  obtain ⟨log, hlog, -⟩ := exists_log r
  apply link_of_spent
  rw [hlog.offers, link_eq_foldl]
  exact spent_foldl r (offers r)

def Adds (r : OperationRegistry) (s : Slot) (child : ChildEndpoint) : Prop :=
  childAt r s = none ∧ childAt (link r).1 s = some child

/-- A child stands for a binding with a call of an entry for its class, and a link of that binding
leads to the place of the child. The file is that of the entry. -/
def Backed (r : OperationRegistry) (s : Slot) (child : ChildEndpoint) (file : String) : Prop :=
  ∃ e ∈ r.values, e.source = child.source ∧ e.file = file ∧
    ∃ b ∈ e.bindings.values, b.isExposed = true ∧ b.symbol = child.symbol ∧
      ∃ u ∈ b.links, LeadsTo u s.className s.key

theorem backed_of_offer {a : Adoption} (ha : a.offer ∈ offers r) :
    Backed r a.slot a.offer.child a.offer.file := by
  obtain ⟨e, he, ha⟩ := List.mem_flatMap.1 ha
  obtain ⟨b, hb, ha⟩ := List.mem_flatMap.1 ha
  obtain ⟨hexposed, hfile, hchild, hlink⟩ := mem_offersOf_iff.1 ha
  rw [hchild, hfile]
  exact ⟨e, he, rfl, rfl, b, hb, hexposed, rfl, hlink⟩

theorem Adopted.adds_iff (h : Adopted r log (link r).1) :
    Adds r s child ↔ ∃ a ∈ log, a.slot = s ∧ a.offer.child = child := by
  constructor
  · rintro ⟨hfree, hchild⟩
    rcases (h.children s child).1 hchild with hchild | ha
    · rw [hfree] at hchild
      cases hchild
    · exact ha
  · rintro ⟨a, ha, rfl, rfl⟩
    exact ⟨h.free a ha, (h.children _ _).2 (.inr ⟨a, ha, rfl, rfl⟩)⟩

/-- Linking adds children and their imports to parents and keeps everything else. Each child that it
adds is backed and imported from the file of the entry that backs it, and each new import is that of
such a child. The number is that of the places filled, and to link again does nothing. -/
theorem link_adds_only (r : OperationRegistry) :
    ((link r).1.mapValues fun _ => EndpointEntry.core) =
      (r.mapValues fun _ => EndpointEntry.core) ∧
    (∀ k, (∀ s child, Adds r s child → s.className ≠ k) → (link r).1.get? k = r.get? k) ∧
    (∀ s child, childAt r s = some child → childAt (link r).1 s = some child) ∧
    (∀ s child, Adds r s child → ∃ file, Backed r s child file ∧
      ImportAt (link r).1 s.className file child.symbol) ∧
    (∀ k f n, ImportAt r k f n → ImportAt (link r).1 k f n) ∧
    (∀ k f n, ImportAt (link r).1 k f n → ImportAt r k f n ∨
      ∃ s child, Adds r s child ∧ s.className = k ∧ child.symbol = n ∧ Backed r s child f) ∧
    (∃ added : List Slot, added.Nodup ∧ added.length = (link r).2 ∧
      ∀ s, s ∈ added ↔ ∃ child, Adds r s child) ∧
    link (link r).1 = ((link r).1, 0) := by
  obtain ⟨log, hlog, hoffers, hlength⟩ := exists_log r
  have hadds : ∀ a ∈ log, Adds r a.slot a.offer.child := fun a ha =>
    hlog.adds_iff.2 ⟨a, ha, rfl, rfl⟩
  refine ⟨hlog.cores, ?_, fun _ _ => hlog.kept, ?_, ?_, ?_, ?_, link_again r⟩
  · intro k hk
    exact hlog.others k fun a ha => hk a.slot a.offer.child (hadds a ha)
  · intro s child hs
    obtain ⟨a, ha, rfl, rfl⟩ := hlog.adds_iff.1 hs
    exact ⟨a.offer.file, backed_of_offer (hoffers a ha),
      (hlog.imports _ _ _).2 (.inr ⟨a, ha, rfl, rfl, rfl⟩)⟩
  · exact fun k f n h => (hlog.imports k f n).2 (.inl h)
  · intro k f n h
    rcases (hlog.imports k f n).1 h with h | ⟨a, ha, rfl, rfl, rfl⟩
    · exact .inl h
    · exact .inr ⟨a.slot, a.offer.child, hadds a ha, rfl, rfl, backed_of_offer (hoffers a ha)⟩
  · refine ⟨log.map Adoption.slot, hlog.distinct, by rw [List.length_map, hlength], fun s => ?_⟩
    constructor
    · intro hs
      obtain ⟨a, ha, rfl⟩ := List.mem_map.1 hs
      exact ⟨a.offer.child, hadds a ha⟩
    · rintro ⟨child, hs⟩
      obtain ⟨a, ha, rfl, -⟩ := hlog.adds_iff.1 hs
      exact List.mem_map_of_mem ha

/-- A list of categories below a category, which is its own parent, and one of tags that goes for
the same property. -/
def shelves : OperationRegistry :=
  let read : Call :=
    { name := "read", kind := "read", method := "GET", template := "", path := "", helper := "" }
  let below : Metadata.UriVariable :=
    { parameter := "id", fromClass := some "\\Category", fromProperty := some "children" }
  let bare : Binding := { symbol := "bare", name := "Bare", links := [below] }
  let category : Binding := {
    symbol := "category", name := "Category", links := [below]
    calls := .ofList [("read", read)] }
  let tag : Binding := {
    symbol := "tag", name := "Tag", links := [below]
    calls := .ofList [("read", read)] }
  .ofList [
    ("Category", ⟨"Category", "Category", "endpoint/Category",
      .ofList [("bare", bare), ("category", category)], .empty⟩),
    ("Tag", ⟨"Tag", "Tag", "endpoint/Tag", .ofList [("tag", tag)], .empty⟩)]

example : (link shelves).2 = 1 ∧ childAt (link shelves).1 ⟨"Category", "category", "children"⟩ =
    some ⟨"Category", "category"⟩ := by decide +kernel

end Linking

end HydraClient
