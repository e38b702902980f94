import HydraClient.Metadata.Config
import HydraClient.Proofs.Addresses
import HydraClient.Proofs.Lookup
import HydraClient.Proofs.Reading

/-! # Configurations in normal form

However loosely the settings of a run are written, what is read from them is in normal form. A
configuration in normal form is read back as itself from the one way in which it is written down.
-/
namespace HydraClient.Metadata

namespace Checked

variable {α β : Type} {f : Checked (α → β)} {g : α → β} {x : Checked α} {a : α}

theorem map_intro (h : x = .valid a) : g <$> x = .valid (g a) := by
  rw [h]
  rfl

theorem seq_intro (hf : f = .valid g) (hx : x = .valid a) : f <*> x = .valid (g a) := by
  rw [hf, hx]
  rfl

theorem seqLeft_intro {y : Checked β} {b : β} (hx : x = .valid a) (hy : y = .valid b) :
    x <* y = .valid a := by
  rw [hx, hy]
  rfl

theorem andThen_intro {check : α → Checked β} {b : β} (hx : x = .valid a)
    (hcheck : check a = .valid b) : x.andThen check = .valid b := by
  rw [hx]
  exact hcheck

end Checked

namespace Read

variable {α : Type} {read : Json → Checked α} {write : α → Json} {P : α → Prop} {a : α}

theorem of_memberOr {ms : Json.Members} {l : Label} {default : α} (hdefault : P default)
    (hread : ∀ {v b}, read v = .valid b → P b) (h : memberOr ms l default read = .valid a) :
    P a := by
  rcases memberOr_valid h with rfl | ⟨v, hv⟩
  · exact hdefault
  · exact hread hv

theorem le_length_of_stringOf {least : Nat} {v : Json} {s : String}
    (h : stringOf least v = .valid s) : least ≤ s.length := by
  obtain ⟨t, -, ht⟩ := Checked.andThen_valid h
  split at ht
  · cases ht
  · obtain rfl := Checked.valid.inj ht
    omega

theorem le_length_of_memberOr {ms : Json.Members} {l : Label} {default s : String} {least : Nat}
    (hdefault : least ≤ default.length) (h : memberOr ms l default (stringOf least) = .valid s) :
    least ≤ s.length :=
  of_memberOr (P := fun s => least ≤ s.length) hdefault le_length_of_stringOf h

theorem le_of_intFrom {least n : Int} {v : Json} (h : intFrom least v = .valid n) : least ≤ n := by
  obtain ⟨m, -, hm⟩ := Checked.andThen_valid h
  split at hm
  · cases hm
  · obtain rfl := Checked.valid.inj hm
    omega

theorem memberOr_intro {ms : Json.Members} {l : Label} {default : α} {v : Json}
    (hl : l.find? ms = some v) (h : read v = .valid a) : memberOr ms l default read = .valid a := by
  simp only [memberOr, hl, h, Checked.under]

theorem stringOf_intro {least : Nat} {s : String} (h : least ≤ s.length) :
    stringOf least (.str s) = .valid s := if_neg (by omega)

theorem intFrom_intro {least n : Int} (h : least ≤ n) : intFrom least (.int n) = .valid n :=
  if_neg (by omega)

theorem orNull_intro {o : Option α} (hnull : ∀ a, write a ≠ .null)
    (h : ∀ a, o = some a → read (write a) = .valid a) :
    orNull read ((o.map write).getD .null) = .valid o := by
  cases o with
  | none => rfl
  | some a =>
    rw [Option.map_some, Option.getD_some, orNull, h a rfl]
    · rfl
    · exact hnull a

theorem list_intro {as : List α} (h : ∀ a ∈ as, read (write a) = .valid a) :
    list read (.arr (as.map write)) = .valid as := by
  have key : ∀ i, items read i (as.map write) = .valid as := by
    induction as with
    | nil => exact fun i => rfl
    | cons a rest ih =>
      intro i
      rw [List.map_cons, items, h a List.mem_cons_self]
      exact Checked.seq_intro rfl (ih (fun b hb => h b (List.mem_cons_of_mem a hb)) (i + 1))
  exact key 0

theorem list_strings (as : List String) : list string (Config.strings as) = .valid as :=
  list_intro fun _ _ => rfl

theorem mapping_strings (m : OrderedMap String String) :
    mapping string (.obj (m.entries.map fun e => (e.1, .str e.2))) = .valid m := by
  have key : ∀ es : List (String × String),
      entries string ((es.map fun e => (e.1, Json.str e.2)).map fun m => (.str m.1, m.2)) =
        .valid es := by
    intro es
    induction es with
    | nil => rfl
    | cons e rest ih => exact Checked.seq_intro rfl ih
  have hentries := Checked.map_intro (g := OrderedMap.ofList) (key m.entries)
  rwa [OrderedMap.ext (OrderedMap.entries_ofList m.distinct)] at hentries

end Read

open Read

structure Paging.Normal (p : Paging) : Prop where
  pageParameter : 1 ≤ p.pageParameter.length
  itemsPerPageParameter : 1 ≤ p.itemsPerPageParameter.length
  enabledParameter : 1 ≤ p.enabledParameter.length
  partialParameter : 1 ≤ p.partialParameter.length
  itemsPerPage : 1 ≤ p.itemsPerPage
  maximumItemsPerPage : ∀ m, p.maximumItemsPerPage = some m → p.itemsPerPage ≤ m

namespace Paging

theorem le_of_fits {p q : Paging} (h : fits q = .valid p) :
    q = p ∧ ∀ m, p.maximumItemsPerPage = some m → p.itemsPerPage ≤ m := by
  unfold fits at h
  split at h
  · rename_i m hm
    split at h
    · cases h
    · obtain rfl := Checked.valid.inj h
      refine ⟨rfl, fun m' hm' => ?_⟩
      rw [hm, Option.some.injEq] at hm'
      omega
  · rename_i hm
    obtain rfl := Checked.valid.inj h
    exact ⟨rfl, fun m' hm' => by simp [hm] at hm'⟩

theorem Normal.fits_eq {p : Paging} (h : p.Normal) : fits p = .valid p := by
  unfold fits
  split
  · rename_i m hm
    exact if_neg (by have := h.maximumItemsPerPage m hm; omega)
  · rfl

theorem normal_of_read {v : Json} {p : Paging} (h : read v = .valid p) : p.Normal := by
  obtain ⟨ms, h⟩ := record_valid h
  obtain ⟨q, hq, hfits⟩ := Checked.andThen_valid h
  obtain ⟨rfl, hmaximum⟩ := le_of_fits hfits
  obtain ⟨_, maximum, h₁, -, rfl⟩ := Checked.seq_valid (Checked.seqLeft_valid hq)
  obtain ⟨_, itemsPerPage, h₂, hitems, rfl⟩ := Checked.seq_valid h₁
  obtain ⟨_, partialName, h₃, hpartial, rfl⟩ := Checked.seq_valid h₂
  obtain ⟨_, enabledName, h₄, henabled, rfl⟩ := Checked.seq_valid h₃
  obtain ⟨_, itemsName, h₅, hitemsName, rfl⟩ := Checked.seq_valid h₄
  obtain ⟨_, pageName, h₆, hpage, rfl⟩ := Checked.seq_valid h₅
  obtain ⟨_, clientPartial, h₇, -, rfl⟩ := Checked.seq_valid h₆
  obtain ⟨_, clientItems, h₈, -, rfl⟩ := Checked.seq_valid h₇
  obtain ⟨_, clientEnabled, h₉, -, rfl⟩ := Checked.seq_valid h₈
  obtain ⟨enabled, -, rfl⟩ := Checked.map_valid h₉
  exact {
    pageParameter := le_length_of_memberOr (by decide) hpage
    itemsPerPageParameter := le_length_of_memberOr (by decide) hitemsName
    enabledParameter := le_length_of_memberOr (by decide) henabled
    partialParameter := le_length_of_memberOr (by decide) hpartial
    itemsPerPage := of_memberOr (by decide) le_of_intFrom hitems
    maximumItemsPerPage := hmaximum }

theorem Normal.read_toJson {p : Paging} (h : p.Normal) : read p.toJson = .valid p := by
  cases p with
  | mk =>
    refine Checked.andThen_intro (Checked.seqLeft_intro ?_ rfl) h.fits_eq
    refine Checked.seq_intro ?_ (memberOr_intro rfl (orNull_intro nofun fun m hm => ?_))
    · refine Checked.seq_intro ?_ (memberOr_intro rfl (intFrom_intro h.itemsPerPage))
      refine Checked.seq_intro ?_ (memberOr_intro rfl (stringOf_intro h.partialParameter))
      refine Checked.seq_intro ?_ (memberOr_intro rfl (stringOf_intro h.enabledParameter))
      refine Checked.seq_intro ?_ (memberOr_intro rfl (stringOf_intro h.itemsPerPageParameter))
      refine Checked.seq_intro ?_ (memberOr_intro rfl (stringOf_intro h.pageParameter))
      refine Checked.seq_intro ?_ (memberOr_intro rfl rfl)
      refine Checked.seq_intro ?_ (memberOr_intro rfl rfl)
      refine Checked.seq_intro ?_ (memberOr_intro rfl rfl)
      exact Checked.map_intro (memberOr_intro rfl rfl)
    · exact intFrom_intro (Int.le_trans h.itemsPerPage (h.maximumItemsPerPage m hm))

end Paging

structure OrderSettings.Normal (o : OrderSettings) : Prop where
  parameter : 1 ≤ o.parameter.length

namespace OrderSettings

theorem normal_of_read {v : Json} {o : OrderSettings} (h : read v = .valid o) : o.Normal := by
  obtain ⟨ms, h⟩ := record_valid h
  obtain ⟨_, default, h₁, -, rfl⟩ := Checked.seq_valid (Checked.seqLeft_valid h)
  obtain ⟨parameter, hparameter, rfl⟩ := Checked.map_valid h₁
  exact ⟨le_length_of_memberOr (by decide) hparameter⟩

theorem Normal.read_toJson {o : OrderSettings} (h : o.Normal) : read o.toJson = .valid o := by
  cases o with
  | mk =>
    refine Checked.seqLeft_intro ?_ rfl
    refine Checked.seq_intro ?_ (memberOr_intro rfl (mapping_strings _))
    exact Checked.map_intro (memberOr_intro rfl (stringOf_intro h.parameter))

end OrderSettings

def IsPathStart (s : String) : Prop := s.toList.getLast? ≠ some '/'

instance : DecidablePred IsPathStart := fun _ => inferInstanceAs (Decidable (_ ≠ _))

/-- A namespace has a name, and neither begins nor ends with a separator. -/
structure IsNamespace (s : String) : Prop where
  nonempty : s ≠ ""
  first : s.toList.head? ≠ some '\\'
  last : s.toList.getLast? ≠ some '\\'

namespace Config

theorem isPathStart_of_read {v : Json} {s : String} (h : readPathStart v = .valid s) :
    IsPathStart s := by
  obtain ⟨t, -, rfl⟩ := Checked.map_valid h
  intro hlast
  rw [Text.trimEnd, String.toList_ofList, List.getLast?_reverse] at hlast
  have hplain := List.head?_dropWhile_not (· == '/') t.toList.reverse
  rw [hlast] at hplain
  simp at hplain

theorem readPathStart_intro {s : String} (h : IsPathStart s) :
    readPathStart (.str s) = .valid s := by
  have hreverse : s.toList.reverse.dropWhile (· == '/') = s.toList.reverse := by
    rw [IsPathStart, ← List.head?_reverse] at h
    cases hs : s.toList.reverse with
    | nil => rfl
    | cons c rest =>
      rw [hs, List.head?_cons, ne_eq, Option.some.injEq] at h
      exact List.dropWhile_cons_of_neg (by simpa using h)
  have htrim : Text.trimEnd '/' s = s := by
    rw [Text.trimEnd, hreverse, List.reverse_reverse, String.ofList_toList]
  exact congrArg Checked.valid htrim

theorem isNamespace_of_read {v : Json} {names : List String}
    (h : readNamespaces v = .valid names) : ∀ ns ∈ names, IsNamespace ns := by
  obtain ⟨given, -, rfl⟩ := Checked.map_valid h
  intro ns hns
  obtain ⟨htrimmed, hne⟩ := List.mem_filter.1 hns
  obtain ⟨n, -, rfl⟩ := List.mem_map.1 htrimmed
  constructor
  · simpa using hne
  · intro hfirst
    rw [String.toList_ofList] at hfirst
    exact absurd (Text.not_of_head?_trimWhere hfirst) (by decide)
  · intro hlast
    rw [String.toList_ofList] at hlast
    exact absurd (Text.not_of_getLast?_trimWhere hlast) (by decide)

theorem readNamespaces_intro {names : List String} (h : ∀ ns ∈ names, IsNamespace ns) :
    readNamespaces (strings names) = .valid names := by
  have htrim : names.map (fun n => String.ofList (Text.trimWhere (· == '\\') n.toList)) =
      names := by
    refine (List.map_congr_left fun n hn => ?_).trans (List.map_id names)
    have htrimmed : Text.trimWhere (· == '\\') n.toList = n.toList := by
      refine Text.trimWhere_eq_self (fun c hc => ?_) fun c hc => ?_
      · have hne : c ≠ '\\' := fun heq => (h n hn).first (heq ▸ hc)
        simpa using hne
      · have hne : c ≠ '\\' := fun heq => (h n hn).last (heq ▸ hc)
        simpa using hne
    rw [htrimmed, String.ofList_toList]
    rfl
  have hkept : names.filter (· != "") = names :=
    List.filter_eq_self.2 fun n hn => by simpa using (h n hn).nonempty
  refine (Checked.map_intro (list_strings names)).trans (congrArg Checked.valid ?_)
  rw [htrim, hkept]

theorem kept_of_read {v : Json} {url? : Option String} (h : readOrigin v = .valid url?) :
    ∀ url, url? = some url → ∃ start host, Origin.Kept url start host := by
  rintro url rfl
  obtain ⟨given?, -, hgiven⟩ := Checked.andThen_valid h
  cases given? with
  | none => cases hgiven
  | some given =>
    dsimp only at hgiven
    split at hgiven
    · rename_i origin horigin
      obtain rfl := Option.some.inj (Checked.valid.inj hgiven)
      exact Origin.kept_of_ofUrl horigin
    · cases hgiven

theorem readOrigin_intro {url? : Option String}
    (h : ∀ url, url? = some url → ∃ start host, Origin.Kept url start host) :
    readOrigin ((url?.map Json.str).getD .null) = .valid url? := by
  refine Checked.andThen_intro (orNull_intro nofun fun _ _ => rfl) ?_
  cases url? with
  | none => rfl
  | some url =>
    obtain ⟨start, host, hkept⟩ := h url rfl
    simp only [hkept.ofUrl_eq]

structure Normal (c : Config) : Prop where
  apiPrefix : IsPathStart c.apiPrefix
  namespaces : ∀ ns ∈ c.namespaces, IsNamespace ns
  paging : c.paging.Normal
  order : c.order.Normal
  defaultLocale : 2 ≤ c.defaultLocale.length
  apiBaseUrl : ∀ url, c.apiBaseUrl = some url → ∃ start host, Origin.Kept url start host

theorem normal_default : ({} : Config).Normal where
  apiPrefix := by decide
  namespaces := by
    intro ns hns
    obtain rfl := List.mem_singleton.1 hns
    exact ⟨by decide, by decide, by decide⟩
  paging := ⟨by decide, by decide, by decide, by decide, by decide, nofun⟩
  order := ⟨by decide⟩
  defaultLocale := by decide
  apiBaseUrl := nofun

theorem normal_of_read {v : Json} {c : Config} (h : read v = .valid c) : c.Normal := by
  obtain ⟨ms, h⟩ := record_valid h
  obtain ⟨_, apiBaseUrl, h₁, hurl, rfl⟩ := Checked.seq_valid (Checked.seqLeft_valid h)
  obtain ⟨_, _, h₂, -, rfl⟩ := Checked.seq_valid h₁
  obtain ⟨_, _, h₃, -, rfl⟩ := Checked.seq_valid h₂
  obtain ⟨_, _, h₄, hlocale, rfl⟩ := Checked.seq_valid h₃
  obtain ⟨_, _, h₅, -, rfl⟩ := Checked.seq_valid h₄
  obtain ⟨_, _, h₆, -, rfl⟩ := Checked.seq_valid h₅
  obtain ⟨_, _, h₇, -, rfl⟩ := Checked.seq_valid h₆
  obtain ⟨_, _, h₈, -, rfl⟩ := Checked.seq_valid h₇
  obtain ⟨_, _, h₉, horder, rfl⟩ := Checked.seq_valid h₈
  obtain ⟨_, _, h₁₀, hpaging, rfl⟩ := Checked.seq_valid h₉
  obtain ⟨_, _, h₁₁, -, rfl⟩ := Checked.seq_valid h₁₀
  obtain ⟨_, _, h₁₂, hnamespaces, rfl⟩ := Checked.seq_valid h₁₁
  obtain ⟨_, _, h₁₃, hprefix, rfl⟩ := Checked.seq_valid h₁₂
  obtain ⟨_, _, h₁₄, -, rfl⟩ := Checked.seq_valid h₁₃
  obtain ⟨_, -, rfl⟩ := Checked.map_valid h₁₄
  exact {
    apiPrefix := of_memberOr normal_default.apiPrefix isPathStart_of_read hprefix
    namespaces := of_memberOr normal_default.namespaces isNamespace_of_read hnamespaces
    paging := of_memberOr normal_default.paging Paging.normal_of_read hpaging
    order := of_memberOr normal_default.order OrderSettings.normal_of_read horder
    defaultLocale := le_length_of_memberOr normal_default.defaultLocale hlocale
    apiBaseUrl := of_memberOr normal_default.apiBaseUrl kept_of_read hurl }

theorem Normal.read_toJson {c : Config} (h : c.Normal) : read c.toJson = .valid c := by
  cases c with
  | mk =>
    refine Checked.seqLeft_intro ?_ rfl
    refine Checked.seq_intro ?_ (memberOr_intro rfl (readOrigin_intro h.apiBaseUrl))
    refine Checked.seq_intro ?_ (memberOr_intro rfl (orNull_intro nofun fun _ _ => rfl))
    refine Checked.seq_intro ?_ (memberOr_intro rfl (list_strings _))
    refine Checked.seq_intro ?_ (memberOr_intro rfl (stringOf_intro h.defaultLocale))
    refine Checked.seq_intro ?_ (memberOr_intro rfl rfl)
    refine Checked.seq_intro ?_ (memberOr_intro rfl (list_strings _))
    refine Checked.seq_intro ?_ (memberOr_intro rfl (list_strings _))
    refine Checked.seq_intro ?_ (memberOr_intro rfl (list_strings _))
    refine Checked.seq_intro ?_ (memberOr_intro rfl h.order.read_toJson)
    refine Checked.seq_intro ?_ (memberOr_intro rfl h.paging.read_toJson)
    refine Checked.seq_intro ?_ (memberOr_intro rfl rfl)
    refine Checked.seq_intro ?_ (memberOr_intro rfl (readNamespaces_intro h.namespaces))
    refine Checked.seq_intro ?_ (memberOr_intro rfl (readPathStart_intro h.apiPrefix))
    refine Checked.seq_intro ?_ (memberOr_intro rfl rfl)
    exact Checked.map_intro (memberOr_intro rfl rfl)

/-- The normal forms are what reading the full form does not change. -/
theorem normal_iff {c : Config} : c.Normal ↔ read c.toJson = .valid c :=
  ⟨Normal.read_toJson, normal_of_read⟩

/-- What is read of a configuration is in normal form, and is what its full form is read as. -/
theorem normal_and_settled_of_read {v : Json} {c : Config} (h : read v = .valid c) :
    (c.apiPrefix.toList.getLast? ≠ some '/' ∧
      (∀ ns ∈ c.namespaces,
        ns ≠ "" ∧ ns.toList.head? ≠ some '\\' ∧ ns.toList.getLast? ≠ some '\\') ∧
      (∀ url, c.apiBaseUrl = some url → ∃ start host, Origin.IsScheme start ∧
        Origin.IsAuthority host ∧ url = String.ofList start ++ "://" ++ String.ofList host) ∧
      1 ≤ c.paging.itemsPerPage ∧
      ∀ m, c.paging.maximumItemsPerPage = some m → c.paging.itemsPerPage ≤ m) ∧
    read c.toJson = .valid c := by
  have hnormal := normal_of_read h
  refine ⟨⟨hnormal.apiPrefix, fun ns hns => ?_, fun url hurl => ?_, hnormal.paging.itemsPerPage,
    hnormal.paging.maximumItemsPerPage⟩, hnormal.read_toJson⟩
  · obtain ⟨hne, hfirst, hlast⟩ := hnormal.namespaces ns hns
    exact ⟨hne, hfirst, hlast⟩
  · obtain ⟨start, host, hkept⟩ := hnormal.apiBaseUrl url hurl
    exact ⟨start, host, hkept.scheme, hkept.authority, hkept.text⟩

theorem normal_and_settled_of_address :
    let given : Json := .obj [("api_prefix", .str "/api//"),
      ("namespaces", .arr [.str "\\App\\", .str "\\"]),
      ("pagination", .obj [("items_per_page", .str "10"), ("maximum_items_per_page", .int 50)]),
      ("api_base_url", .str " HTTPS://Example.org:8443/api?page=1")]
    let c : Config :=
      { apiPrefix := "/api"
        namespaces := ["App"]
        paging := { itemsPerPage := 10, maximumItemsPerPage := some 50 }
        apiBaseUrl := some "https://Example.org:8443" }
    read given = .valid c ∧ read c.toJson = .valid c := by
  intro given c
  have h : read given = .valid c := rfl
  exact ⟨h, (normal_and_settled_of_read h).2⟩

end Config

end HydraClient.Metadata
