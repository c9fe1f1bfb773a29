import JsonSurvey.Proofs.Coordinate.Collection
import JsonSurvey.Proofs.Text.Blank

/-! How a coordinate is spelled. A text mentions a coordinate exactly if it is the scheme in letters
of either case, a number, a comma and a number, with white space before, between and behind them
(`mention?_eq_some_iff`). The parts can be told from the text (`Spelling.eq_of_text_eq`), so the
numbers that are read are the ones that were written, and spellings of the same numbers are one
mention in any document (`mention?_iff_spelling`). -/

namespace JsonSurvey

namespace CodePoint

variable {c : CodePoint}

theorem isBlank_of_isDigit (h : c.isDigit = true) : c.isBlank = false := by
  simp only [isDigit, Bool.and_eq_true, decide_eq_true_eq] at h
  simp only [isBlank, Bool.or_eq_false_iff, Bool.and_eq_false_iff, beq_eq_false_iff_ne,
    decide_eq_false_iff_not]
  omega

/-- No letter becomes a colon in lower case. -/
theorem eq_colon_of_asciiLower (h : c.asciiLower = 0x3A) : c = 0x3A := by
  unfold asciiLower at h
  split at h
  · have hval := congrArg Fin.val h
    change c.val + 0x20 = 0x3A at hval
    omega
  · exact h

end CodePoint

namespace Numeral.Plain.IsWritten

variable {n : Plain} (h : n.IsWritten)
include h

/-- A number begins with its sign or with a digit, neither of which is white space. -/
theorem head?_text_append (rest : Text) : ∀ c ∈ (n.text ++ rest).head?, c.isBlank = false := by
  obtain ⟨d, whole, hwhole⟩ := List.exists_cons_of_ne_nil h.whole_ne_nil
  have hd : d.isBlank = false :=
    CodePoint.isBlank_of_isDigit (h.whole d (hwhole ▸ List.mem_cons_self))
  intro c hc
  rw [text_eq, hwhole] at hc
  cases hnegative : n.negative with
  | true =>
    rw [hnegative] at hc
    cases hc
    rfl
  | false =>
    rw [hnegative] at hc
    cases hc
    exact hd

/-- A number ends with a digit. -/
theorem getLast?_text : ∀ c ∈ n.text.getLast?, c.isDigit = true := by
  intro c hc
  rw [text_eq] at hc
  by_cases hfraction : n.fraction = []
  · rw [if_pos hfraction, List.append_nil, List.getLast?_append_of_ne_nil _ h.whole_ne_nil] at hc
    exact h.whole c (List.mem_of_getLast? hc)
  · rw [if_neg hfraction, ← List.append_assoc,
      List.getLast?_append_of_ne_nil _ (List.cons_ne_nil _ _),
      List.getLast?_cons_of_ne_nil hfraction] at hc
    exact h.fraction c (List.mem_of_getLast? hc)

theorem text_ne_nil : n.text ≠ [] := by
  rw [text_eq]
  exact List.append_ne_nil_of_right_ne_nil _ (List.append_ne_nil_of_left_ne_nil h.whole_ne_nil _)

end Numeral.Plain.IsWritten

namespace Coordinate

/-! ### Parts of a mention -/

theorem afterScheme?_eq_some_iff {t rest : Text} : afterScheme? t = some rest ↔
    ∃ scheme : Text, scheme.map CodePoint.asciiLower = Text.ofString "geo:" ∧
      t = scheme ++ rest := by
  constructor
  · intro h
    unfold afterScheme? at h
    split at h
    · next g e o colon rest' =>
      obtain ⟨⟨hg, he, ho, rfl⟩, ⟨⟩⟩ := Option.ite_none_right_eq_some.mp h
      refine ⟨[g, e, o, 0x3A], ?_, rfl⟩
      rw [List.map_cons, List.map_cons, List.map_cons, hg, he, ho]
      rfl
    · contradiction
  · rintro ⟨scheme, hscheme, rfl⟩
    obtain ⟨g, scheme, rfl, hg, hscheme⟩ := List.map_eq_cons_iff.mp hscheme
    obtain ⟨e, scheme, rfl, he, hscheme⟩ := List.map_eq_cons_iff.mp hscheme
    obtain ⟨o, scheme, rfl, ho, hscheme⟩ := List.map_eq_cons_iff.mp hscheme
    obtain ⟨colon, rfl, hcolon⟩ := List.map_eq_singleton_iff.mp hscheme
    exact if_pos ⟨hg, he, ho, CodePoint.eq_colon_of_asciiLower hcolon⟩

theorem isBlank_head?_comma (rest : Text) :
    ∀ c ∈ ((0x2C : CodePoint) :: rest).head?, c.isBlank = false := by
  rintro c ⟨⟩
  rfl

theorem afterComma?_append {before after rest : Text} (hbefore : before.isBlank = true)
    (hafter : after.isBlank = true) (hrest : ∀ c ∈ rest.head?, c.isBlank = false) :
    afterComma? (before ++ 0x2C :: (after ++ rest)) = some rest := by
  rw [afterComma?, Text.dropWhile_isBlank_append hbefore (isBlank_head?_comma _)]
  change (if (0x2C : CodePoint) = 0x2C then _ else _) = _
  rw [if_pos rfl, Text.dropWhile_isBlank_append hafter hrest]

theorem afterComma?_eq_some {t rest : Text} (h : afterComma? t = some rest) :
    ∃ before after : Text, before.isBlank = true ∧ after.isBlank = true ∧
      t = before ++ 0x2C :: (after ++ rest) := by
  have hbefore := List.takeWhile_append_dropWhile (p := CodePoint.isBlank) (l := t)
  unfold afterComma? at h
  split at h
  · next c rest' hdrop =>
    obtain ⟨rfl, ⟨⟩⟩ := Option.ite_none_right_eq_some.mp h
    refine ⟨t.takeWhile CodePoint.isBlank, rest'.takeWhile CodePoint.isBlank,
      List.all_takeWhile, List.all_takeWhile, ?_⟩
    rw [List.takeWhile_append_dropWhile, ← hdrop, hbefore]
  · contradiction

/-! ### Spellings -/

/-- A text that mentions a coordinate, in its parts: the scheme, the two numbers and the white space
at the ends and around the numbers. A comma stands between `afterLat` and `beforeLng`. -/
structure Spelling where
  lead : Text
  scheme : Text
  beforeLat : Text
  lat : Numeral.Plain
  afterLat : Text
  beforeLng : Text
  lng : Numeral.Plain
  trail : Text

namespace Spelling

/-- The scheme is `geo:` in letters of either case, the numbers have digits wherever they need them,
and everything else is white space. -/
structure IsValid (s : Spelling) : Prop where
  lead : s.lead.isBlank = true
  scheme : s.scheme.map CodePoint.asciiLower = Text.ofString "geo:"
  beforeLat : s.beforeLat.isBlank = true
  lat : s.lat.IsWritten
  afterLat : s.afterLat.isBlank = true
  beforeLng : s.beforeLng.isBlank = true
  lng : s.lng.IsWritten
  trail : s.trail.isBlank = true

/-- The text from the scheme to the second number. -/
def inner (s : Spelling) : Text :=
  s.scheme ++ (s.beforeLat ++ (s.lat.text ++ (s.afterLat ++ 0x2C :: (s.beforeLng ++ s.lng.text))))

/-- The whole text. -/
def text (s : Spelling) : Text := s.lead ++ (s.inner ++ s.trail)

/-- The numbers that are spelled. -/
def mention (s : Spelling) : Mention := ⟨s.lat, s.lng⟩

namespace IsValid

variable {s : Spelling} (h : s.IsValid)
include h

theorem exists_scheme : ∃ g scheme, s.scheme = g :: scheme ∧ g.isBlank = false := by
  obtain ⟨g, scheme, hscheme, hg, _⟩ := List.map_eq_cons_iff.mp h.scheme
  refine ⟨g, scheme, hscheme, Bool.eq_false_iff.mpr fun hblank => ?_⟩
  have hlower : g.asciiLower = g := dif_neg fun hletter => by
    simp only [CodePoint.isBlank, Bool.or_eq_true, Bool.and_eq_true, beq_iff_eq,
      decide_eq_true_eq] at hblank
    omega
  rw [hlower] at hg
  rw [hg] at hblank
  contradiction

theorem head?_inner_append (rest : Text) : ∀ c ∈ (s.inner ++ rest).head?, c.isBlank = false := by
  obtain ⟨g, scheme, hscheme, hg⟩ := h.exists_scheme
  rw [inner, hscheme]
  rintro c ⟨⟩
  exact hg

theorem getLast?_inner : ∀ c ∈ s.inner.getLast?, c.isBlank = false := by
  intro c hc
  have hne := h.lng.text_ne_nil
  rw [inner, List.getLast?_append_of_ne_nil _ (by simp),
    List.getLast?_append_of_ne_nil _ (by simp), List.getLast?_append_of_ne_nil _ (by simp),
    List.getLast?_append_of_ne_nil _ (List.cons_ne_nil _ _),
    List.getLast?_cons_of_ne_nil (List.append_ne_nil_of_right_ne_nil _ hne),
    List.getLast?_append_of_ne_nil _ hne] at hc
  exact CodePoint.isBlank_of_isDigit (h.lng.getLast?_text c hc)

theorem strip_text : s.text.strip = s.inner := by
  have hne : s.inner ≠ [] := by
    obtain ⟨g, scheme, hscheme, _⟩ := h.exists_scheme
    rw [inner, hscheme]
    exact List.cons_ne_nil _ _
  have hhead := h.head?_inner_append []
  rw [List.append_nil] at hhead
  exact Text.strip_append h.lead h.trail hne hhead h.getLast?_inner

/-- White space and a comma end a number. -/
theorem endsPlain_afterLat (rest : Text) :
    Numeral.Plain.EndsPlain (s.afterLat ++ 0x2C :: rest) := by
  intro c hc
  cases hafter : s.afterLat with
  | nil =>
    rw [hafter] at hc
    cases hc
    decide
  | cons d blanks =>
    rw [hafter] at hc
    cases hc
    have hblank := Text.isBlank_iff.mp h.afterLat c (hafter ▸ List.mem_cons_self)
    refine ⟨Bool.eq_false_iff.mpr fun hdigit => ?_, ?_⟩
    · rw [CodePoint.isBlank_of_isDigit hdigit] at hblank
      contradiction
    · rintro rfl
      contradiction

/-- A valid spelling is read as its numbers. -/
theorem mention?_text : mention? s.text = some s.mention := by
  have hscheme : afterScheme? s.inner = _ := afterScheme?_eq_some_iff.mpr ⟨_, h.scheme, rfl⟩
  have hlat := h.lat.head?_text_append
    (s.afterLat ++ 0x2C :: (s.beforeLng ++ s.lng.text))
  have hlng := h.lng.head?_text_append []
  rw [List.append_nil] at hlng
  simp only [mention?, h.strip_text, hscheme, bind, Option.bind,
    Text.dropWhile_isBlank_append h.beforeLat hlat, h.lat.split?_append (h.endsPlain_afterLat _),
    afterComma?_append h.afterLat h.beforeLng hlng, h.lng.split?_text, if_true]
  rfl

end IsValid

/-- The parts of a spelling can be told from its text. -/
theorem eq_of_text_eq {s s' : Spelling} (h : s.IsValid) (h' : s'.IsValid)
    (htext : s.text = s'.text) : s = s' := by
  have hmention := h.mention?_text
  rw [htext, h'.mention?_text, Option.some.injEq, mention, mention, Mention.mk.injEq] at hmention
  obtain ⟨hlat, hlng⟩ := hmention
  obtain ⟨hlead, hinner⟩ := Text.append_inj_of_isBlank h.lead (h.head?_inner_append _) h'.lead
    (h'.head?_inner_append _) htext
  -- the scheme has the same length in every spelling
  have hlength : s.scheme.length = s'.scheme.length := by
    have hscheme := congrArg List.length (h.scheme.trans h'.scheme.symm)
    rwa [List.length_map, List.length_map] at hscheme
  simp only [inner, List.append_assoc, List.cons_append] at hinner
  obtain ⟨hscheme, hnumbers⟩ := List.append_inj hinner hlength
  obtain ⟨hbeforeLat, hnumbers⟩ := Text.append_inj_of_isBlank h.beforeLat
    (h.lat.head?_text_append _) h'.beforeLat (h'.lat.head?_text_append _) hnumbers
  rw [hlat, List.append_cancel_left_eq] at hnumbers
  obtain ⟨hafterLat, hnumbers⟩ := Text.append_inj_of_isBlank h.afterLat
    (isBlank_head?_comma _) h'.afterLat (isBlank_head?_comma _) hnumbers
  obtain ⟨hbeforeLng, hnumbers⟩ := Text.append_inj_of_isBlank h.beforeLng
    (h.lng.head?_text_append _) h'.beforeLng (h'.lng.head?_text_append _) (List.cons.inj hnumbers).2
  rw [hlng, List.append_cancel_left_eq] at hnumbers
  cases s
  cases s'
  simp only [Spelling.mk.injEq]
  exact ⟨hlead, hscheme, hbeforeLat, hlat.symm, hafterLat, hbeforeLng, hlng.symm, hnumbers⟩

end Spelling

/-- What is read as a mention is a valid spelling of it. -/
theorem exists_spelling {t : Text} {m : Mention} (h : mention? t = some m) :
    ∃ s : Spelling, s.IsValid ∧ s.text = t ∧ s.mention = m := by
  obtain ⟨lead, trail, hlead, htrail, ht⟩ := Text.exists_strip t
  unfold mention? at h
  obtain ⟨afterScheme, hscheme, h⟩ := Option.bind_eq_some_iff.mp h
  obtain ⟨⟨lat, afterLat⟩, hlat, h⟩ := Option.bind_eq_some_iff.mp h
  obtain ⟨afterComma, hcomma, h⟩ := Option.bind_eq_some_iff.mp h
  obtain ⟨⟨lng, afterLng⟩, hlng, h⟩ := Option.bind_eq_some_iff.mp h
  obtain ⟨hend, ⟨⟩⟩ := Option.ite_none_right_eq_some.mp h
  obtain ⟨scheme, hletters, hstrip⟩ := afterScheme?_eq_some_iff.mp hscheme
  obtain ⟨hlatWritten, hlatText⟩ := Numeral.Plain.split?_eq_some hlat
  obtain ⟨before, after, hbefore, hafter, hcommaText⟩ := afterComma?_eq_some hcomma
  obtain ⟨hlngWritten, hlngText⟩ := Numeral.Plain.split?_eq_some hlng
  refine ⟨⟨lead, scheme, afterScheme.takeWhile CodePoint.isBlank, lat, before, after, lng, trail⟩,
    ⟨hlead, hletters, List.all_takeWhile, hlatWritten, hbefore, hafter, hlngWritten, htrail⟩, ?_,
    rfl⟩
  rw [hend, List.append_nil] at hlngText
  rw [Spelling.text, Spelling.inner, ← hlngText, ← hcommaText, ← hlatText,
    List.takeWhile_append_dropWhile, ← hstrip]
  exact ht.symm

/-- A text mentions a coordinate exactly if it is a valid spelling of it. -/
theorem mention?_eq_some_iff {t : Text} {m : Mention} : mention? t = some m ↔
    ∃ s : Spelling, s.IsValid ∧ s.text = t ∧ s.mention = m := by
  constructor
  · exact exists_spelling
  · rintro ⟨s, hs, rfl, rfl⟩
    exact hs.mention?_text

theorem nodup_mentions (document : Value) : (mentions document).Nodup := by
  rw [mentions_eq]
  exact (nodup_map_firstOccurrences Mention.key _).of_map

/-- However often a document mentions the same numbers, they are one mention. -/
theorem filter_mentions_eq_singleton {document : Value} {t : Text} {m : Mention}
    (ht : t ∈ document.strings) (hm : mention? t = some m) :
    (mentions document).filter (fun m' => m'.key == m.key) = [m] := by
  have hkey : ∀ m' ∈ mentions document, (m'.key == m.key) = (m' == m) := by
    intro m' hm'
    rw [mentions_eq] at hm'
    have hwritten := isWritten_of_mem ((firstOccurrences_sublist _).mem hm')
    rw [Bool.eq_iff_iff, beq_iff_eq, beq_iff_eq]
    exact ⟨eq_of_key_eq hwritten (mention?_isWritten hm), congrArg Mention.key⟩
  rw [List.filter_congr hkey, List.filter_beq,
    List.count_eq_one_of_mem (nodup_mentions document) (mem_mentions ht hm), List.replicate_one]

/-- A text mentions a coordinate exactly if it has a valid spelling, of which there is only one. The
coordinate is that of the numbers spelled, in their order, and the key is their texts with a comma
between them. Spellings of the same numbers, whatever their white space and the letters of the
scheme, are one mention of any document with both. -/
theorem mention?_iff_spelling (t : Text) :
    ((mention? t).isSome = true ↔ ∃ s : Spelling, s.IsValid ∧ s.text = t) ∧
      ∀ s : Spelling, s.IsValid → s.text = t →
        (∀ s' : Spelling, s'.IsValid → s'.text = t → s' = s) ∧
        (mention? t).map Mention.coordinate = some ⟨s.lat.value, s.lng.value⟩ ∧
        (mention? t).map Mention.key = some (s.lat.text ++ 0x2C :: s.lng.text) ∧
        ∀ s' : Spelling, s'.IsValid → s'.lat = s.lat → s'.lng = s.lng →
          mention? s'.text = mention? t ∧
          ∀ document : Value, t ∈ document.strings → s'.text ∈ document.strings →
            (mentions document).filter
                (fun m => m.key == s.lat.text ++ 0x2C :: s.lng.text) = [⟨s.lat, s.lng⟩] := by
  constructor
  · rw [Option.isSome_iff_exists]
    constructor
    · rintro ⟨m, hm⟩
      obtain ⟨s, hs, htext, _⟩ := mention?_eq_some_iff.mp hm
      exact ⟨s, hs, htext⟩
    · rintro ⟨s, hs, rfl⟩
      exact ⟨s.mention, hs.mention?_text⟩
  · rintro s hs rfl
    have hkey : s.mention.key = s.lat.text ++ 0x2C :: s.lng.text := key_eq s.mention
    rw [hs.mention?_text]
    refine ⟨fun s' hs' => Spelling.eq_of_text_eq hs' hs, rfl, congrArg some hkey, ?_⟩
    intro s' hs' hlat hlng
    have hmention : s'.mention = s.mention := by
      rw [Spelling.mention, hlat, hlng, Spelling.mention]
    refine ⟨?_, fun document ht _ => ?_⟩
    · rw [hs'.mention?_text, hmention]
    · rw [← hkey]
      exact filter_mentions_eq_singleton ht hs.mention?_text

/-- Two spellings of the same numbers, which one document mentions. -/
theorem mention?_iff_spelling_capitals :
    let lat : Numeral.Plain := ⟨false, "1", ""⟩
    let lng : Numeral.Plain := ⟨true, "2", "5"⟩
    let s : Spelling := ⟨" ", "GEO:", "", lat, " ", "", lng, ""⟩
    let s' : Spelling := ⟨"", "geo:", "", lat, "", "", lng, "\n"⟩
    s.IsValid ∧ s.text = " GEO:1 ,-2.5" ∧ s'.IsValid ∧ s'.text = "geo:1,-2.5\n" ∧
      (mention? s.text).map Mention.coordinate = some ⟨lat.value, lng.value⟩ ∧
      (mention? s.text).map Mention.key = some "1,-2.5" ∧ mention? s'.text = mention? s.text ∧
      (mentions (.list [.string s.text, .string s'.text])).filter
        (fun m => m.key == lat.text ++ 0x2C :: lng.text) = [⟨lat, lng⟩] := by
  intro lat lng s s'
  have hlat : lat.IsWritten := ⟨by decide, List.all_eq_true.mp rfl, List.forall_mem_nil _⟩
  have hlng : lng.IsWritten :=
    ⟨by decide, List.all_eq_true.mp rfl, List.all_eq_true.mp rfl⟩
  have hs : s.IsValid := ⟨rfl, rfl, rfl, hlat, rfl, rfl, hlng, rfl⟩
  have hs' : s'.IsValid := ⟨rfl, rfl, rfl, hlat, rfl, rfl, hlng, rfl⟩
  obtain ⟨_, hspelling⟩ := mention?_iff_spelling s.text
  obtain ⟨_, hcoordinate, hkey, hsame⟩ := hspelling s hs rfl
  obtain ⟨hmention, hdocument⟩ := hsame s' hs' rfl rfl
  refine ⟨hs, rfl, hs', rfl, hcoordinate, hkey, hmention, hdocument _ ?_ ?_⟩
  · exact List.mem_cons_self
  · exact .tail _ List.mem_cons_self

end Coordinate
end JsonSurvey
