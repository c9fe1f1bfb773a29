import JsonSurvey.Coordinate.Collection
import JsonSurvey.Proofs.Coordinate
import JsonSurvey.Proofs.FirstOccurrence

/-! The collection of coordinates visits the strings of a document in pre-order. `Value.strings`
lists them by recursion on the value, and the visit of the pending values, whatever was found before
them, adds the first mentions in their strings that have other keys (`collectFrom_eq`). A visit puts
the parts of a value in front of what is pending, and so do its strings stand in front of the others
(`stringsAll_append`). -/

namespace JsonSurvey

namespace Value

mutual

/-- The strings of a value, those of the elements and member values included, in document order. -/
def strings : Value → List Text
  | .string t => [t]
  | .array _ es => stringsAll es
  | .object ms => stringsMembers ms
  | _ => []

/-- The strings of the values of a list. -/
def stringsAll : List Value → List Text
  | [] => []
  | v :: rest => strings v ++ stringsAll rest

/-- The strings of the values of members. -/
def stringsMembers : List (Text × Value) → List Text
  | [] => []
  | (_, v) :: rest => strings v ++ stringsMembers rest

end

theorem stringsAll_append (vs ws : List Value) :
    stringsAll (vs ++ ws) = stringsAll vs ++ stringsAll ws := by
  induction vs with
  | nil => rfl
  | cons v vs ih => rw [List.cons_append, stringsAll, stringsAll, ih, List.append_assoc]

theorem stringsAll_values (members : List (Text × Value)) :
    stringsAll (values members) = stringsMembers members := by
  induction members with
  | nil => rfl
  | cons m members ih => exact congrArg (strings m.2 ++ ·) ih

theorem mem_stringsAll {t : Text} {vs : List Value} :
    t ∈ stringsAll vs ↔ ∃ v ∈ vs, t ∈ v.strings := by
  induction vs with
  | nil => simp [stringsAll]
  | cons v vs ih => simp [stringsAll, ih]

theorem mem_stringsMembers {t : Text} {ms : List (Text × Value)} :
    t ∈ stringsMembers ms ↔ ∃ m ∈ ms, t ∈ m.2.strings := by
  induction ms with
  | nil => simp [stringsMembers]
  | cons m ms ih => simp [stringsMembers, ih]

/-- The items of a document have its strings. -/
theorem stringsAll_items (document : Value) : stringsAll document.items = document.strings := by
  cases document with
  | array form es => cases form <;> simp [items, stringsAll, strings]
  | _ => simp [items, stringsAll]

/-- A value in arrays of one element each, in the given forms from the outside in. -/
def wrapped (forms : List ArrayForm) (v : Value) : Value :=
  forms.foldr (fun form v => .array form [v]) v

theorem strings_wrapped (forms : List ArrayForm) (v : Value) :
    (wrapped forms v).strings = v.strings := by
  induction forms with
  | nil => rfl
  | cons form forms ih =>
    change stringsAll [wrapped forms v] = _
    rw [stringsAll, stringsAll, List.append_nil, ih]

end Value

namespace Coordinate

/-- The first mentions in texts of each pair of numbers, but for those under the keys seen. -/
def firstMentions (seen : List Text) (texts : List Text) : List Mention :=
  (firstOccurrences (fun m m' => m.key == m'.key) (texts.filterMap mention?)).filter
    fun m => !seen.contains m.key

theorem firstMentions_cons_none {t : Text} (h : mention? t = none) (seen texts : List Text) :
    firstMentions seen (t :: texts) = firstMentions seen texts := by
  rw [firstMentions, List.filterMap_cons_none h, firstMentions]

theorem firstMentions_cons_some {t : Text} {m : Mention} (h : mention? t = some m)
    (seen texts : List Text) :
    firstMentions seen (t :: texts) =
      if m.key ∈ seen then firstMentions seen texts
      else m :: firstMentions (m.key :: seen) texts := by
  rw [firstMentions, List.filterMap_cons_some h, filter_firstOccurrences_cons]
  simp only [List.contains_iff_mem]
  rfl

/-- Behind what was found under the keys seen so far, the visit of the pending values adds the first
mentions in their strings. -/
theorem collectFrom_eq (seen : List Text) (found : List Mention) (pending : List Value) :
    collectFrom seen found pending =
      found.reverse ++ firstMentions seen (Value.stringsAll pending) := by
  fun_induction collectFrom seen found pending with
  | case1 seen found => exact (List.append_nil _).symm
  | case2 seen found t pending m hm key hseen ih =>
    rw [ih, Value.stringsAll, Value.strings, List.singleton_append, firstMentions_cons_some hm,
      if_pos hseen]
  | case3 seen found t pending m hm key hseen ih =>
    rw [ih, Value.stringsAll, Value.strings, List.singleton_append, firstMentions_cons_some hm,
      if_neg hseen, List.reverse_cons, List.append_assoc]
    rfl
  | case4 seen found t pending hm ih =>
    rw [ih, Value.stringsAll, Value.strings, List.singleton_append, firstMentions_cons_none hm]
  | case5 seen found form es pending ih =>
    rw [ih, Value.stringsAll_append, Value.stringsAll, Value.strings]
  | case6 seen found ms pending ih =>
    rw [ih, Value.stringsAll_append, Value.stringsAll_values, Value.stringsAll, Value.strings]
  | case7 seen found v pending hstring harray hobject ih =>
    rw [ih, Value.stringsAll]
    cases v with
    | string t => exact absurd rfl (hstring t)
    | array form es => exact absurd rfl (harray form es)
    | object ms => exact absurd rfl (hobject ms)
    | _ => rfl

/-- Whether two mentions show the same texts for their numbers. -/
def sameNumbers (m m' : Mention) : Bool :=
  m.lat.text == m'.lat.text && m.lng.text == m'.lng.text

theorem isWritten_of_mem {texts : List Text} {m : Mention} (h : m ∈ texts.filterMap mention?) :
    m.IsWritten := by
  obtain ⟨t, _, hm⟩ := List.mem_filterMap.mp h
  exact mention?_isWritten hm

theorem mentions_eq (document : Value) :
    mentions document = firstOccurrences (fun m m' => m.key == m'.key)
      (document.strings.filterMap mention?) := by
  rw [mentions, collectFrom_eq, Value.stringsAll_items, firstMentions, List.reverse_nil,
    List.nil_append]
  exact List.filter_eq_self.mpr fun _ _ => rfl

/-- Keys tell mentions apart as the texts of their numbers do. -/
theorem firstOccurrences_sameNumbers (texts : List Text) :
    firstOccurrences sameNumbers (texts.filterMap mention?) =
      firstOccurrences (fun m m' => m.key == m'.key) (texts.filterMap mention?) := by
  refine firstOccurrences_congr fun m hm m' _ => ?_
  rw [Bool.eq_iff_iff, beq_iff_eq, key_eq_iff (isWritten_of_mem hm), sameNumbers]
  simp

/-- What a string of a document mentions is among the mentions of the document. -/
theorem mem_mentions {document : Value} {t : Text} {m : Mention} (ht : t ∈ document.strings)
    (hm : mention? t = some m) : m ∈ mentions document := by
  have hmem : m ∈ document.strings.filterMap mention? := List.mem_filterMap.mpr ⟨t, ht, hm⟩
  obtain ⟨m', hm', hkey⟩ := exists_mem_firstOccurrences Mention.key hmem
  have hwritten := isWritten_of_mem ((firstOccurrences_sublist _).mem hm')
  rw [mentions_eq, ← eq_of_key_eq hwritten (isWritten_of_mem hmem) hkey]
  exact hm'

/-- The coordinates of a document are those that its strings mention, in pre-order, but for mentions
whose numbers have the same texts as those of an earlier one. No mentioned coordinate is left out,
and arrays of one element around a document change nothing. -/
theorem collect_eq_preorder (document : Value) :
    collect document = (firstOccurrences sameNumbers
        (document.strings.filterMap mention?)).map Mention.coordinate ∧
      (∀ t ∈ document.strings, ∀ m, mention? t = some m → m.coordinate ∈ collect document) ∧
      ∀ forms, collect (Value.wrapped forms document) = collect document := by
  refine ⟨?_, fun t ht m hm => ?_, fun forms => ?_⟩
  · rw [collect, mentions_eq, firstOccurrences_sameNumbers]
  · exact List.mem_map_of_mem (mem_mentions ht hm)
  · rw [collect, collect, mentions_eq, mentions_eq, Value.strings_wrapped]

end Coordinate
end JsonSurvey
