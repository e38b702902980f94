import HydraClient.Proofs.Contributions
import HydraClient.Proofs.Persistence

/-! # Folding operations into bindings

The exposures of a class are folded into bindings, one for each symbol, and their operations into
calls, one for each name. Of two operations that go under one name in one binding the later one
stays, in the place of the earlier one. What was folded before, from a part of the same exposures,
leaves no trace when all of them are folded.
-/
namespace HydraClient

open Metadata TypeRegistry Model

section Prefixes

variable {α : Type} [DecidableEq α] {l l' : List α}

theorem eraseDups_append_of_subset (h : ∀ a ∈ l', a ∈ l) :
    (l ++ l').eraseDups = l.eraseDups := by
  induction l' using List.reverseRecOn with
  | nil => rw [List.append_nil]
  | append_singleton init a ih =>
    rw [← List.append_assoc, eraseDups_concat, if_pos, ih]
    · exact fun b hb => h b (List.mem_append_left _ hb)
    · exact List.mem_append_left _ (h a (by simp))

theorem eraseDups_append_of_prefix (h : l <+: l') : (l ++ l').eraseDups = l'.eraseDups := by
  obtain ⟨rest, rfl⟩ := h
  rw [← List.append_assoc, ← eraseDups_eraseDups_append, eraseDups_append_of_subset fun _ h => h,
    eraseDups_eraseDups_append]

theorem exists_prefix_of_prefixes {β : Type} {f : List β → List α} {a b bs : List β}
    (hf : ∀ {a b}, a <+: b → f a <+: f b) (ha : a <+: bs) (hb : b <+: bs) :
    ∃ c, c <+: bs ∧ (f a ++ f b).eraseDups = (f c).eraseDups := by
  rcases List.prefix_or_prefix_of_prefix ha hb with h | h
  · exact ⟨b, hb, eraseDups_append_of_prefix (hf h)⟩
  · exact ⟨a, ha, eraseDups_append_of_subset fun _ hc => (hf h).subset hc⟩

end Prefixes

namespace Operations

/-- The name of the type that an operation takes or gives: that of a class if it says so, and of the
resource otherwise. -/
def DealsIn (r : TypeRegistry) (resource : String) (className? : Option String) (n : String) :
    Prop :=
  match className? with
  | none => n = resource
  | some c => if c = "" then n = resource else r.Stores (ClassName.relative c) n

/-- The call that an operation is made into. -/
def Describes (cat : Catalog) (r : TypeRegistry) (className resource : String) (e : Exposure)
    (o : Operation) (c : Call) : Prop :=
  ∃ k input output, kind? o = some k ∧ DealsIn r resource o.input input.name ∧
    DealsIn r resource o.output output.name ∧
    c = callOf cat.config className e o k input output
      (if k = .list then some (listParamsName resource) else none)

def callName? (o : Operation) : Option String := (kind? o).map (OperationKind.nameOf o)

def namesUnder (className symbol : String) (ps : List (Exposure × Operation)) : List String :=
  ps.filterMap fun p => if bindingSymbol className p.1 = symbol then callName? p.2 else none

section Descriptions

variable {cat : Catalog} {r r' : TypeRegistry} {className resource symbol n : String}
  {e : Exposure} {o : Operation} {c : Call}

theorem dealsIn_some {c : String} : DealsIn r resource (some c) n ↔
    if c = "" then n = resource else r.Stores (ClassName.relative c) n := Iff.rfl

theorem DealsIn.mono {className? : Option String} (h : DealsIn r resource className? n)
    (hr : ∀ {c n}, r.Stores c n → r'.Stores c n) : DealsIn r' resource className? n := by
  cases className? with
  | none => exact h
  | some c =>
    rw [dealsIn_some] at h ⊢
    by_cases hc : c = ""
    · rwa [if_pos hc] at h ⊢
    · rw [if_neg hc] at h ⊢
      exact hr h

theorem Describes.mono (h : Describes cat r className resource e o c)
    (hr : ∀ {c n}, r.Stores c n → r'.Stores c n) : Describes cat r' className resource e o c := by
  obtain ⟨k, input, output, hk, hinput, houtput, hc⟩ := h
  exact ⟨k, input, output, hk, hinput.mono hr, houtput.mono hr, hc⟩

theorem Describes.callName? (h : Describes cat r className resource e o c) :
    callName? o = some c.name := by
  obtain ⟨k, input, output, hk, -, -, rfl⟩ := h
  rw [Operations.callName?, hk]
  rfl

theorem goesTo_iff {p : Exposure × Operation} : goesTo className symbol n p = true ↔
    bindingSymbol className p.1 = symbol ∧ callName? p.2 = some n := by
  rw [goesTo, callName?, Bool.and_eq_true, beq_iff_eq]
  cases kind? p.2 <;> simp

theorem mem_namesUnder {ps : List (Exposure × Operation)} :
    n ∈ namesUnder className symbol ps ↔ ∃ p ∈ ps, goesTo className symbol n p = true := by
  simp only [namesUnder, List.mem_filterMap, goesTo_iff, Option.ite_none_right_eq_some]

end Descriptions

def namesOf (m : OrderedMap String Binding) (symbol : String) : List String :=
  ((m.get? symbol).map (·.calls.keys)).getD []

/-- The bindings of a class, once exposures have been opened and operations made into calls on top
of what was there before. -/
structure Folded (cat : Catalog) (r : TypeRegistry) (className resource : String)
    (before : OrderedMap String Binding) (opened : List Exposure)
    (made : List (Exposure × Operation)) (m : OrderedMap String Binding) : Prop where
  keys : m.keys = (before.keys ++ opened.map (bindingSymbol className)).eraseDups
  opened : ∀ p ∈ made, p.1 ∈ opened
  kinds : ∀ p ∈ made, ∃ k, kind? p.2 = some k
  bindings : ∀ {symbol b}, m.get? symbol = some b → b.symbol = symbol ∧
    b.calls.keys = (namesOf before symbol ++ namesUnder className symbol made).eraseDups
  calls : ∀ {symbol b n c p}, m.get? symbol = some b → b.calls.get? n = some c →
    (made.filter (goesTo className symbol n)).getLast? = some p →
      c.name = n ∧ Describes cat r className resource p.1 p.2 c

namespace Folded

variable {cat : Catalog} {r r' : TypeRegistry} {className resource : String}
  {before m : OrderedMap String Binding} {opened : List Exposure}
  {made : List (Exposure × Operation)} {e : Exposure} {o : Operation} {c : Call}

theorem start (h : ∀ {symbol b}, before.get? symbol = some b → b.symbol = symbol) :
    Folded cat r className resource before [] [] before where
  keys := by
    rw [List.map_nil, List.append_nil]
    exact (eraseDups_of_nodup before.distinct).symm
  opened := by simp
  kinds := by simp
  bindings {symbol b} hb := by
    refine ⟨h hb, ?_⟩
    rw [namesOf, hb, Option.map_some, Option.getD_some]
    exact (List.append_nil _).symm ▸ (eraseDups_of_nodup b.calls.distinct).symm
  calls _ _ hlast := by simp at hlast

theorem mono (h : Folded cat r className resource before opened made m)
    (hr : ∀ {c n}, r.Stores c n → r'.Stores c n) :
    Folded cat r' className resource before opened made m where
  keys := h.keys
  opened := h.opened
  kinds := h.kinds
  bindings := h.bindings
  calls hb hc hlast := ⟨(h.calls hb hc hlast).1, (h.calls hb hc hlast).2.mono hr⟩

theorem mem_keys (h : Folded cat r className resource before opened made m) {k : String} :
    k ∈ m.keys ↔ k ∈ before.keys ∨ ∃ e ∈ opened, bindingSymbol className e = k := by
  rw [h.keys, List.mem_eraseDups, List.mem_append, List.mem_map]

theorem insert (h : Folded cat r className resource before opened made m)
    {b : Binding} (hsymbol : b.symbol = bindingSymbol className e) (hcalls : b.calls = .empty)
    (hfresh : bindingSymbol className e ∉ m.keys) :
    Folded cat r className resource before (opened ++ [e]) made
      (m.insert (bindingSymbol className e) b) where
  keys := by
    rw [OrderedMap.keys_insert, if_neg hfresh, List.map_append, ← List.append_assoc,
      List.map_singleton, eraseDups_concat, if_neg, h.keys]
    rwa [h.keys, List.mem_eraseDups] at hfresh
  opened p hp := List.mem_append_left _ (h.opened p hp)
  kinds := h.kinds
  bindings {symbol b'} hb := by
    rw [OrderedMap.get?_insert] at hb
    split at hb
    · rename_i hk
      obtain rfl := Option.some.inj hb
      -- Nothing has gone to the symbol yet, neither before nor since.
      rw [h.mem_keys, not_or] at hfresh
      have hbefore : namesOf before (bindingSymbol className e) = [] := by
        rw [namesOf, OrderedMap.get?_eq_none_iff.2 hfresh.1]
        rfl
      have hmade : namesUnder className (bindingSymbol className e) made = [] := by
        refine List.filterMap_eq_nil_iff.2 fun p hp => if_neg fun heq => ?_
        exact hfresh.2 ⟨p.1, h.opened p hp, heq⟩
      rw [hk, hbefore, hmade, hcalls]
      exact ⟨hsymbol, rfl⟩
    · exact h.bindings hb
  calls {symbol b' n c p} hb hc hlast := by
    rw [OrderedMap.get?_insert] at hb
    split at hb
    · obtain rfl := Option.some.inj hb
      rw [hcalls, OrderedMap.get?_empty] at hc
      cases hc
    · exact h.calls hb hc hlast

theorem again (h : Folded cat r className resource before opened made m)
    (hopen : bindingSymbol className e ∈ m.keys) :
    Folded cat r className resource before (opened ++ [e]) made m where
  keys := by
    rw [List.map_append, ← List.append_assoc, List.map_singleton, eraseDups_concat, if_pos, h.keys]
    rwa [h.keys, List.mem_eraseDups] at hopen
  opened p hp := List.mem_append_left _ (h.opened p hp)
  kinds := h.kinds
  bindings := h.bindings
  calls := h.calls

theorem call (h : Folded cat r className resource before opened made m) (he : e ∈ opened)
    (hc : Describes cat r className resource e o c) :
    Folded cat r className resource before opened (made ++ [(e, o)])
      (m.modify (bindingSymbol className e) fun b =>
        { b with calls := b.calls.insert c.name c }) where
  keys := by rw [OrderedMap.keys_modify, h.keys]
  opened p hp := by
    rcases List.mem_append.1 hp with hp | hp
    · exact h.opened p hp
    · exact List.mem_singleton.1 hp ▸ he
  kinds p hp := by
    rcases List.mem_append.1 hp with hp | hp
    · exact h.kinds p hp
    · obtain ⟨k, -, -, hk, -⟩ := hc
      exact ⟨k, List.mem_singleton.1 hp ▸ hk⟩
  bindings {symbol b} hb := by
    rw [OrderedMap.get?_modify] at hb
    rw [namesUnder, List.filterMap_append, ← namesUnder]
    split at hb
    · rename_i hsymbol
      obtain ⟨b', hb', rfl⟩ := Option.map_eq_some_iff.1 hb
      obtain ⟨hname, hkeys⟩ := h.bindings hb'
      have hnew : [(e, o)].filterMap (fun p =>
          if bindingSymbol className p.1 = symbol then callName? p.2 else none) = [c.name] := by
        simp [hsymbol, hc.callName?]
      refine ⟨hname, ?_⟩
      rw [hnew, ← List.append_assoc, eraseDups_concat, OrderedMap.keys_insert, hkeys]
      simp only [List.mem_eraseDups]
    · rename_i hsymbol
      have hnone : [(e, o)].filterMap (fun p =>
          if bindingSymbol className p.1 = symbol then callName? p.2 else none) = [] := by
        simp [Ne.symm hsymbol]
      rw [hnone, List.append_nil]
      exact h.bindings hb
  calls {symbol b n c' p} hb hc' hlast := by
    rw [getLast?_filter_append] at hlast
    rw [OrderedMap.get?_modify] at hb
    -- Where the new operation goes it is the last one, and elsewhere it changes nothing.
    have hgoes : goesTo className symbol n (e, o) = true ↔
        bindingSymbol className e = symbol ∧ c.name = n := by
      rw [goesTo_iff, hc.callName?, Option.some.injEq]
    split at hb
    · rename_i hsymbol
      obtain ⟨b', hb', rfl⟩ := Option.map_eq_some_iff.1 hb
      rw [OrderedMap.get?_insert] at hc'
      split at hc'
      · rename_i hn
        obtain rfl := Option.some.inj hc'
        rw [if_pos (hgoes.2 ⟨hsymbol.symm, hn.symm⟩)] at hlast
        obtain rfl := Option.some.inj hlast
        exact ⟨hn.symm, hc⟩
      · rename_i hn
        rw [if_neg fun hg => hn (hgoes.1 hg).2.symm] at hlast
        exact h.calls hb' hc' hlast
    · rename_i hsymbol
      rw [if_neg fun hg => hsymbol (hgoes.1 hg).1.symm] at hlast
      exact h.calls hb hc' hlast

end Folded

structure Begun (className : String) (es : List Exposure) (m : OrderedMap String Binding) :
    Prop where
  keys : ∃ opened, opened <+: es ∧ m.keys = (opened.map (bindingSymbol className)).eraseDups
  bindings : ∀ {symbol b}, m.get? symbol = some b → b.symbol = symbol ∧
    ∃ made, made <+: declared es ∧
      b.calls.keys = (namesUnder className symbol made).eraseDups

/-- The bindings of a class hold, for every symbol and every name, the call of the last operation
that goes there, in the place of the first one. -/
structure LastWins (cat : Catalog) (r : TypeRegistry) (className resource : String)
    (es : List Exposure) (m : OrderedMap String Binding) : Prop where
  keys : m.keys = (es.map (bindingSymbol className)).eraseDups
  kinds : ∀ p ∈ declared es, ∃ k, kind? p.2 = some k
  bindings : ∀ {symbol b}, m.get? symbol = some b → b.symbol = symbol ∧
    b.calls.keys = (namesUnder className symbol (declared es)).eraseDups
  calls : ∀ {symbol b n c}, m.get? symbol = some b → b.calls.get? n = some c →
    ∃ e o, ((declared es).filter (goesTo className symbol n)).getLast? = some (e, o) ∧
      c.name = n ∧ Describes cat r className resource e o c

section Again

variable {cat : Catalog} {r : TypeRegistry} {className resource symbol : String}
  {es opened : List Exposure} {made : List (Exposure × Operation)}
  {before m : OrderedMap String Binding}

theorem begun_empty (className : String) (es : List Exposure) : Begun className es .empty where
  keys := ⟨[], List.nil_prefix, rfl⟩
  bindings hb := by
    rw [OrderedMap.get?_empty] at hb
    cases hb

theorem prefix_namesUnder {ps qs : List (Exposure × Operation)} (h : ps <+: qs) :
    namesUnder className symbol ps <+: namesUnder className symbol qs := h.filterMap _

theorem Begun.namesOf (h : Begun className es before) (symbol : String) :
    ∃ made, made <+: declared es ∧
      namesOf before symbol = (namesUnder className symbol made).eraseDups := by
  unfold Operations.namesOf
  cases hb : before.get? symbol with
  | none => exact ⟨[], List.nil_prefix, rfl⟩
  | some b => exact (h.bindings hb).2

theorem Folded.begun (h : Folded cat r className resource before opened made m)
    (hbefore : Begun className es before) (hopened : opened <+: es)
    (hmade : made <+: declared es) : Begun className es m where
  keys := by
    obtain ⟨first, hfirst, hkeys⟩ := hbefore.keys
    rw [h.keys, hkeys, eraseDups_eraseDups_append]
    exact exists_prefix_of_prefixes (fun hprefix => hprefix.map _) hfirst hopened
  bindings {symbol b} hb := by
    obtain ⟨hsymbol, hkeys⟩ := h.bindings hb
    obtain ⟨first, hfirst, hnames⟩ := hbefore.namesOf symbol
    refine ⟨hsymbol, ?_⟩
    rw [hkeys, hnames, eraseDups_eraseDups_append]
    exact exists_prefix_of_prefixes prefix_namesUnder hfirst hmade

/-- Once everything has been taken up, nothing of an earlier attempt is left to see. -/
theorem Folded.lastWins (h : Folded cat r className resource before es (declared es) m)
    (hbefore : Begun className es before) : LastWins cat r className resource es m := by
  have hbindings : ∀ {symbol b}, m.get? symbol = some b → b.symbol = symbol ∧
      b.calls.keys = (namesUnder className symbol (declared es)).eraseDups := by
    intro symbol b hb
    obtain ⟨hsymbol, hkeys⟩ := h.bindings hb
    obtain ⟨first, hfirst, hnames⟩ := hbefore.namesOf symbol
    rw [hkeys, hnames, eraseDups_eraseDups_append,
      eraseDups_append_of_prefix (prefix_namesUnder hfirst)]
    exact ⟨hsymbol, rfl⟩
  refine ⟨?_, h.kinds, hbindings, fun {symbol b n c} hb hc => ?_⟩
  · obtain ⟨first, hfirst, hkeys⟩ := hbefore.keys
    rw [h.keys, hkeys, eraseDups_eraseDups_append,
      eraseDups_append_of_prefix (hfirst.map (bindingSymbol className))]
  · have hn : n ∈ b.calls.keys := OrderedMap.mem_keys_iff.2 ⟨c, hc⟩
    rw [(hbindings hb).2, List.mem_eraseDups, mem_namesUnder] at hn
    obtain ⟨p, hp, hgoes⟩ := hn
    obtain ⟨⟨e, o⟩, hlast⟩ := exists_getLast?_filter hp hgoes
    exact ⟨e, o, hlast, h.calls hb hc hlast⟩

end Again

end Operations
end HydraClient
