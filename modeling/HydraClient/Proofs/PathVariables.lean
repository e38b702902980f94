import HydraClient.Operations
import Mathlib.Data.List.TakeWhile

/-! # Variables of paths

The path of an item loses the variable that it ends in, since the identifier is passed on its own.
The variables that a caller has to supply are listed apart from that, and the list leaves out only
what is called `id`. So a lost variable is still asked for just when it has another name and the
exposure or the operation declares it.
-/
namespace HydraClient.Operations

open Metadata

/-- A path ends in a variable as a segment of its own. A line feed after it is overlooked. -/
structure Closes (path start v tail : List Char) : Prop where
  text : path = start ++ '/' :: '\x7b' :: (v ++ '\x7d' :: tail)
  tail : tail = [] ∨ tail = ['\n']
  nonempty : v ≠ []
  chars : ∀ c ∈ v, (c.isAlphanum || c == '_') = true

section Chars

variable {path start v tail body : List Char}

theorem beforeBreak_append (htail : tail = [] ∨ tail = ['\n']) {c : Char} (hc : c ≠ '\n') :
    beforeBreak (start ++ c :: tail) = (start ++ [c], tail) := by
  rcases htail with rfl | rfl
  · simp [beforeBreak, hc]
  · have hlast : (start ++ [c, '\n']).getLast? = some '\n' := by simp
    have hinit : (start ++ [c, '\n']).dropLast = start ++ [c] := by simp
    rw [beforeBreak, if_pos hlast, hinit]

theorem eq_of_beforeBreak (h : beforeBreak path = (body, tail)) :
    path = body ++ tail ∧ (tail = [] ∨ tail = ['\n']) := by
  unfold beforeBreak at h
  by_cases hlast : path.getLast? = some '\n'
  · rw [if_pos hlast] at h
    obtain ⟨rfl, rfl⟩ := Prod.mk.inj h
    obtain ⟨init, rfl⟩ := List.getLast?_eq_some_iff.1 hlast
    simp
  · rw [if_neg hlast] at h
    obtain ⟨rfl, rfl⟩ := Prod.mk.inj h
    simp

namespace Closes

theorem beforeBreak_eq (h : Closes path start v tail) :
    beforeBreak path = (start ++ '/' :: '\x7b' :: (v ++ ['\x7d']), tail) := by
  have hpath : path = (start ++ '/' :: '\x7b' :: v) ++ '\x7d' :: tail := by
    rw [h.text]
    simp
  rw [hpath, beforeBreak_append h.tail (by decide)]
  simp

theorem trailingVariable?_eq (h : Closes path start v tail) : trailingVariable? path = some v := by
  have hreverse : (start ++ '/' :: '\x7b' :: (v ++ ['\x7d'])).reverse =
      '\x7d' :: (v.reverse ++ '\x7b' :: '/' :: start.reverse) := by simp
  have hname : (v.reverse ++ '\x7b' :: '/' :: start.reverse).takeWhile
      (fun c => c.isAlphanum || c == '_') = v.reverse := by
    rw [List.takeWhile_append_of_pos fun c hc => h.chars c (List.mem_reverse.1 hc)]
    simp
  simp only [trailingVariable?, h.beforeBreak_eq, hreverse, hname, List.drop_left,
    List.isEmpty_reverse, List.isEmpty_iff, h.nonempty, if_false, List.reverse_reverse]

theorem dropVariable_eq (h : Closes path start v tail) : dropVariable path = start ++ tail := by
  have hlength : (start ++ '/' :: '\x7b' :: (v ++ ['\x7d'])).length - (v.length + 3) =
      start.length := by
    simp only [List.length_append, List.length_cons, List.length_nil]
    omega
  simp only [dropVariable, h.trailingVariable?_eq, h.beforeBreak_eq, hlength, List.take_left]

theorem variable_eq (h : Closes path start v tail) {start₀ v₀ tail₀ : List Char}
    (hpath : path = start₀ ++ '/' :: '\x7b' :: (v₀ ++ '\x7d' :: tail₀))
    (hleft : start ++ tail = start₀ ++ tail₀) (htail : tail₀ = [] ∨ tail₀ = ['\n']) : v = v₀ := by
  have htext := h.text.symm.trans hpath
  have hlast : tail = tail₀ := by
    have hreverse := congrArg List.reverse htext
    rcases h.tail with rfl | rfl <;> rcases htail with rfl | rfl <;> simp at hreverse ⊢
  subst hlast
  obtain rfl := List.append_cancel_right hleft
  have hrest := List.append_cancel_left htext
  simpa using hrest

end Closes

theorem exists_closes (h : trailingVariable? path = some v) :
    ∃ start tail, Closes path start v tail := by
  obtain ⟨body, tail, hbreak⟩ : ∃ body tail, beforeBreak path = (body, tail) := ⟨_, _, rfl⟩
  obtain ⟨rfl, htail⟩ := eq_of_beforeBreak hbreak
  simp only [trailingVariable?, hbreak] at h
  split at h
  · rename_i rest hbody
    split at h
    · rename_i before hbefore
      split at h
      · cases h
      · rename_i hne
        obtain rfl := Option.some.inj h
        have hrest := List.prefix_iff_eq_append.1
          (List.takeWhile_prefix (fun c => c.isAlphanum || c == '_') (l := rest))
        rw [hbefore] at hrest
        have hbody' : body = rest.reverse ++ ['\x7d'] := by
          rw [← List.reverse_reverse body, hbody, List.reverse_cons]
        have hreverse := congrArg List.reverse hrest.symm
        refine ⟨before.reverse, tail, ?_, htail, ?_, fun c hc => ?_⟩
        · rw [hbody', hreverse]
          simp
        · simpa using hne
        · have htaken := List.mem_takeWhile_imp (List.mem_reverse.1 hc)
          exact htaken
    · cases h
  · cases h

theorem dropVariable_of_none (h : trailingVariable? path = none) : dropVariable path = path := by
  simp only [dropVariable, h]

end Chars

def fullPath (start template : String) : String :=
  String.ofList (start.toList ++ dropFormat template.toList)

def EndsIn (path v : String) : Prop := ∃ start tail, Closes path.toList start v.toList tail

def Loses (path shortened v : String) : Prop :=
  ∃ start tail, path = start ++ "/\x7b" ++ v ++ "\x7d" ++ tail ∧ shortened = start ++ tail ∧
    (tail = "" ∨ tail = "\n")

section Paths

variable {start template path shortened v : String} {k : OperationKind}

theorem resolvePath_eq : resolvePath start template k =
    if k.takesIdentifier = true then
      String.ofList (dropVariable (fullPath start template).toList)
    else fullPath start template := by
  unfold resolvePath fullPath
  split <;> simp

theorem Loses.toList (h : Loses path shortened v) : ∃ start tail,
    path.toList = start ++ '/' :: '\x7b' :: (v.toList ++ '\x7d' :: tail) ∧
      shortened.toList = start ++ tail ∧ (tail = [] ∨ tail = ['\n']) := by
  obtain ⟨start, tail, rfl, rfl, htail⟩ := h
  refine ⟨start.toList, tail.toList, by simp, by simp, ?_⟩
  rcases htail with rfl | rfl
  · exact .inl rfl
  · exact .inr rfl

theorem Loses.ne (h : Loses path shortened v) : shortened ≠ path := by
  rintro rfl
  obtain ⟨start, tail, hpath, hshort, -⟩ := h.toList
  have hlength := congrArg List.length (hpath.symm.trans hshort)
  simp only [List.length_append, List.length_cons] at hlength
  omega

theorem EndsIn.loses (h : EndsIn path v)
    (hs : shortened = String.ofList (dropVariable path.toList)) : Loses path shortened v := by
  obtain ⟨start, tail, hc⟩ := h
  refine ⟨String.ofList start, String.ofList tail, ?_, ?_, ?_⟩
  · rw [← String.toList_inj, hc.text]
    simp
  · rw [hs, hc.dropVariable_eq, String.ofList_append]
  · rcases hc.tail with rfl | rfl
    · exact .inl rfl
    · exact .inr rfl

/-- A path of an item loses the variable that it ends in, and no other path loses any. -/
theorem loses_resolvePath_iff :
    Loses (fullPath start template) (resolvePath start template k) v ↔
      k.takesIdentifier = true ∧ EndsIn (fullPath start template) v := by
  rw [resolvePath_eq]
  by_cases hk : k.takesIdentifier = true
  · rw [if_pos hk]
    constructor
    · intro h
      refine ⟨hk, ?_⟩
      cases hv : trailingVariable? (fullPath start template).toList with
      | none => exact absurd (by rw [dropVariable_of_none hv, String.ofList_toList]) h.ne
      | some v' =>
        obtain ⟨start', tail', hc⟩ := exists_closes hv
        obtain ⟨start₀, tail₀, hpath, hshort, htail⟩ := h.toList
        rw [String.toList_ofList, hc.dropVariable_eq] at hshort
        exact ⟨start', tail', hc.variable_eq hpath hshort htail ▸ hc⟩
    · rintro ⟨-, h⟩
      exact h.loses rfl
  · rw [if_neg hk]
    exact iff_of_false (fun h => h.ne rfl) (fun h => hk h.1)

end Paths

section Params

variable {acc names : List String} {n : String}

theorem mem_supplied : n ∈ names.foldl (fun ns n => if n = "id" || ns.contains n then ns else
    ns ++ [n]) acc ↔ n ∈ acc ∨ n ≠ "id" ∧ n ∈ names := by
  induction names generalizing acc with
  | nil => simp
  | cons m names ih =>
    rw [List.foldl_cons, ih]
    by_cases hm : m = "id" ∨ m ∈ acc
    · rw [if_pos (by simpa using hm), List.mem_cons]
      constructor
      · exact Or.imp_right fun h => ⟨h.1, .inr h.2⟩
      · rintro (hacc | ⟨hid, rfl | hn⟩)
        · exact .inl hacc
        · exact .inl (hm.resolve_left hid)
        · exact .inr ⟨hid, hn⟩
    · rw [if_neg (by simpa using hm), List.mem_append, List.mem_singleton, List.mem_cons]
      constructor
      · rintro ((hacc | rfl) | ⟨hid, hn⟩)
        · exact .inl hacc
        · exact .inr ⟨fun h => hm (.inl h), .inl rfl⟩
        · exact .inr ⟨hid, .inr hn⟩
      · rintro (hacc | ⟨hid, rfl | hn⟩)
        · exact .inl (.inl hacc)
        · exact .inl (.inr rfl)
        · exact .inr ⟨hid, hn⟩

theorem nodup_supplied (h : acc.Nodup) : (names.foldl (fun ns n =>
    if n = "id" || ns.contains n then ns else ns ++ [n]) acc).Nodup := by
  induction names generalizing acc with
  | nil => exact h
  | cons m names ih =>
    rw [List.foldl_cons]
    apply ih
    split
    · exact h
    · rename_i hm
      have hfresh : m ∉ acc := fun hmem => hm (by simp [hmem])
      refine List.nodup_append.2 ⟨h, by simp, ?_⟩
      intro a ha b hb
      rw [List.mem_singleton.1 hb]
      rintro rfl
      exact hfresh ha

variable {className : String} {e : Exposure} {o : Operation} {k : OperationKind} {v : String}

theorem isCollection_of_takesIdentifier (h : k.takesIdentifier = true) :
    k.isCollection = false := by
  revert h
  cases k <;> decide

theorem nodup_pathParams : (pathParams className e o k).Nodup := nodup_supplied List.nodup_nil

theorem mem_pathParams : v ∈ pathParams className e o k ↔ v ≠ "id" ∧
    ((∃ u ∈ e.uriVariables, (leadsAway className u = true ∨ k.isCollection = false) ∧
      u.parameter = v) ∨ v ∈ o.uriVariables) := by
  rw [pathParams, mem_supplied]
  simp only [List.not_mem_nil, false_or, List.mem_append, List.mem_map, List.mem_filter,
    Bool.or_eq_true, Bool.not_eq_true', and_assoc]

end Params

/-- Of every operation the variables to be supplied are listed once, with those of all links to
other classes. The path of an item loses the variable that it ends in, and that one is listed all
the same just when it is declared and not called `id`. -/
theorem lost_variable_listed_iff (c : Config) (className : String) (e : Exposure) (o : Operation)
    (k : OperationKind) (input output : TypeEntry) (params : Option String) :
    let call := callOf c className e o k input output params
    call.pathParams.Nodup ∧
    (∀ u ∈ parentLinks className e, u.parameter ≠ "id" → u.parameter ∈ call.pathParams) ∧
    ∀ v, (Loses (fullPath c.apiPrefix call.template) call.path v ↔
        k.takesIdentifier = true ∧ EndsIn (fullPath c.apiPrefix call.template) v) ∧
      (Loses (fullPath c.apiPrefix call.template) call.path v → (v ∈ call.pathParams ↔
        v ≠ "id" ∧ ((∃ u ∈ e.uriVariables, u.parameter = v) ∨ v ∈ o.uriVariables))) := by
  intro call
  refine ⟨nodup_pathParams, fun u hu hid => ?_, fun v => ⟨loses_resolvePath_iff, fun h => ?_⟩⟩
  · obtain ⟨hmem, haway⟩ := List.mem_filter.1 hu
    exact mem_pathParams.2 ⟨hid, .inl ⟨u, hmem, .inl haway, rfl⟩⟩
  · have hitem := isCollection_of_takesIdentifier (loses_resolvePath_iff.1 h).1
    exact mem_pathParams.trans (by simp only [hitem, or_true, true_and])

/-- A comment below its post. Either is known by a variable. -/
def commentExposure : Exposure where
  shortName := "Comment"
  uriTemplate := some "/posts/\x7bpostId\x7d/comments/\x7bid\x7d"
  uriVariables := [
    { parameter := "postId", fromClass := some "App\\Entity\\Post" },
    { parameter := "id", fromClass := some "App\\Entity\\Comment" }]

def commentCall : Call :=
  callOf { apiPrefix := "/api" } "App\\Entity\\Comment" commentExposure { type := some "Get" } .read
    { name := "Comment", kind := .interface } { name := "Comment", kind := .interface } none

theorem comment_asks_for_post : commentCall.path = "/api/posts/\x7bpostId\x7d/comments" ∧
    Loses (fullPath "/api" commentCall.template) commentCall.path "id" ∧
    "id" ∉ commentCall.pathParams ∧ "postId" ∈ commentCall.pathParams := by
  obtain ⟨-, hparents, hlost⟩ := lost_variable_listed_iff { apiPrefix := "/api" }
    "App\\Entity\\Comment" commentExposure { type := some "Get" } .read
    { name := "Comment", kind := .interface } { name := "Comment", kind := .interface } none
  have hid : Loses (fullPath "/api" commentCall.template) commentCall.path "id" :=
    ⟨"/api/posts/\x7bpostId\x7d/comments", "", by decide +kernel, by decide +kernel, .inl rfl⟩
  refine ⟨by decide +kernel, hid, fun hmem => (((hlost "id").2 hid).1 hmem).1 rfl, ?_⟩
  exact hparents { parameter := "postId", fromClass := some "App\\Entity\\Post" }
    (by decide +kernel) (by decide)

def bookByNumber : Exposure where
  shortName := "Book"
  uriTemplate := some "/books/\x7bisbn\x7d"
  uriVariables := [{ parameter := "isbn", fromClass := some "App\\Entity\\Book" }]

def bookCall : Call :=
  callOf { apiPrefix := "/api" } "App\\Entity\\Book" bookByNumber { type := some "Get" } .read
    { name := "Book", kind := .interface } { name := "Book", kind := .interface } none

/-- The number is asked for although the path has no place for it. -/
theorem book_asks_for_number : bookCall.path = "/api/books" ∧
    Loses (fullPath "/api" bookCall.template) bookCall.path "isbn" ∧
    "isbn" ∈ bookCall.pathParams :=
  ⟨by decide +kernel, ⟨"/api/books", "", by decide +kernel, by decide +kernel, .inl rfl⟩,
    by decide +kernel⟩

end HydraClient.Operations
